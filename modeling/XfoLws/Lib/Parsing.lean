import Mathlib.Data.List.Basic

/-!
# Readers of a list

A parser takes what it needs from the front of a list and keeps a state beside
it.  `Takes` says that it takes certain items and no more, whatever follows
them, so that parsers in sequence take the items of one after the items of
the other.
-/

namespace Parsing

variable {β σ ε α γ : Type}

/-- A fallible reader of `β`s with a state in `σ`. -/
abbrev Parser (β σ ε : Type) := StateT (σ × List β) (Except ε)

/-- From the state `before` the parser takes exactly `taken`, with the result
`value` and the state `after`. -/
def Takes (parser : Parser β σ ε α) (before : σ) (taken : List β) (value : α)
    (after : σ) : Prop :=
  ∀ rest, parser.run (before, taken ++ rest) = .ok (value, (after, rest))

theorem run_bind_ok {first : Parser β σ ε α} {next : α → Parser β σ ε γ}
    {input output : σ × List β} {value : α}
    (ran : first.run input = .ok (value, output)) :
    (first >>= next).run input = (next value).run output := by
  rw [StateT.run_bind, ran]
  rfl

theorem run_bind_error {first : Parser β σ ε α} {next : α → Parser β σ ε γ}
    {input : σ × List β} {failure : ε}
    (ran : first.run input = .error failure) :
    (first >>= next).run input = .error failure := by
  rw [StateT.run_bind, ran]
  rfl

/-- What a sequence returns, its second parser returns behind the first. -/
theorem run_bind_eq_ok {first : Parser β σ ε α} {next : α → Parser β σ ε γ}
    {input output : σ × List β} {result : γ}
    (ran : (first >>= next).run input = .ok (result, output)) :
    ∃ value middle, first.run input = .ok (value, middle) ∧
      (next value).run middle = .ok (result, output) := by
  rw [StateT.run_bind] at ran
  cases ranFirst : first.run input with
  | error failure =>
      rw [ranFirst] at ran
      cases ran
  | ok found =>
      rw [ranFirst] at ran
      exact ⟨found.1, found.2, rfl, ran⟩

namespace Takes

theorem pure (value : α) (state : σ) :
    Takes (Pure.pure value : Parser β σ ε α) state [] value state :=
  fun _ => rfl

/-- The first parser may look ahead at what the second one takes. -/
theorem bind_of_ahead {first : Parser β σ ε α} {next : α → Parser β σ ε γ}
    {before middle after : σ} {taken more : List β} {value : α} {result : γ}
    (looks : ∀ rest, first.run (before, taken ++ (more ++ rest)) =
      .ok (value, (middle, more ++ rest)))
    (takes : Takes (next value) middle more result after) :
    Takes (first >>= next) before (taken ++ more) result after := by
  intro rest
  rw [List.append_assoc, run_bind_ok (looks rest)]
  exact takes rest

theorem bind {first : Parser β σ ε α} {next : α → Parser β σ ε γ}
    {before middle after : σ} {taken more : List β} {value : α} {result : γ}
    (earlier : Takes first before taken value middle)
    (later : Takes (next value) middle more result after) :
    Takes (first >>= next) before (taken ++ more) result after :=
  bind_of_ahead (fun rest => earlier (more ++ rest)) later

/-- A first parser that only changes the state. -/
theorem after {first : Parser β σ ε α} {next : α → Parser β σ ε γ}
    {before middle after : σ} {taken : List β} {value : α} {result : γ}
    (earlier : Takes first before [] value middle)
    (later : Takes (next value) middle taken result after) :
    Takes (first >>= next) before taken result after :=
  earlier.bind later

/-- A second parser that only changes the state. -/
theorem before {first : Parser β σ ε α} {next : α → Parser β σ ε γ}
    {before middle after : σ} {taken : List β} {value : α} {result : γ}
    (earlier : Takes first before taken value middle)
    (later : Takes (next value) middle [] result after) :
    Takes (first >>= next) before taken result after := by
  rw [← List.append_nil taken]
  exact earlier.bind later

/-- A function of the result is returned. -/
theorem returns {parser : Parser β σ ε α} {before after : σ} {taken : List β}
    {value : α} (takes : Takes parser before taken value after)
    (function : α → γ) :
    Takes (parser >>= fun result => Pure.pure (function result)) before taken
      (function value) after :=
  takes.before (Takes.pure _ after)

/-- The parser alone, when nothing follows. -/
theorem run {parser : Parser β σ ε α} {before after : σ} {taken : List β}
    {value : α} (takes : Takes parser before taken value after) :
    parser.run (before, taken) = .ok (value, (after, [])) := by
  rw [← takes [], List.append_nil]

end Takes

end Parsing
