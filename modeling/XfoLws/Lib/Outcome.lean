import Mathlib.Data.Nat.Notation
import Mathlib.Logic.Basic

/-!
# Fallible steps and finite runs

Inversion of `Except` computations, the invariant rule of a monadic fold, and
finite runs of a labelled transition relation.
-/

namespace Outcome

variable {ε α β σ ι : Type}

theorem bind_eq_ok {first : Except ε α} {next : α → Except ε β}
    {result : β} :
    (first >>= next) = .ok result ↔
      ∃ value, first = .ok value ∧ next value = .ok result := by
  cases first with
  | error failure => simp [bind, Except.bind]
  | ok value => simp [bind, Except.bind]

theorem bind_eq_error {first : Except ε α} {next : α → Except ε β}
    {failure : ε} :
    (first >>= next) = .error failure ↔
      first = .error failure ∨
        ∃ value, first = .ok value ∧ next value = .error failure := by
  cases first with
  | error other => simp [bind, Except.bind]
  | ok value => simp [bind, Except.bind]

theorem mapM_error {function : α → Except ε β} {items : List α} {failure : ε}
    (failed : items.mapM function = .error failure) :
    ∃ item ∈ items, function item = .error failure := by
  induction items with
  | nil => cases failed
  | cons item items induction =>
      rw [List.mapM_cons, bind_eq_error] at failed
      rcases failed with here | ⟨value, -, rest⟩
      · exact ⟨item, by simp, here⟩
      · rcases bind_eq_error.mp rest with later | ⟨values, -, never⟩
        · obtain ⟨other, member, found⟩ := induction later
          exact ⟨other, List.mem_cons_of_mem _ member, found⟩
        · cases never

theorem mem_mapM {function : α → Except ε β} {items : List α}
    {values : List β} (traversed : items.mapM function = .ok values)
    {value : β} (member : value ∈ values) :
    ∃ item ∈ items, function item = .ok value := by
  induction items generalizing values with
  | nil =>
      cases traversed
      cases member
  | cons item items induction =>
      rw [List.mapM_cons, bind_eq_ok] at traversed
      obtain ⟨first, here, traversed⟩ := traversed
      obtain ⟨rest, later, traversed⟩ := bind_eq_ok.mp traversed
      cases traversed
      rcases List.mem_cons.mp member with rfl | among
      · exact ⟨item, List.mem_cons_self, here⟩
      · obtain ⟨other, listed, found⟩ := induction later among
        exact ⟨other, .tail _ listed, found⟩

theorem mapM_ok_each {function : α → Except ε β} {items : List α}
    {values : List β} (traversed : items.mapM function = .ok values)
    {item : α} (member : item ∈ items) :
    ∃ value, function item = .ok value := by
  induction items generalizing values with
  | nil => cases member
  | cons first items induction =>
      rw [List.mapM_cons, bind_eq_ok] at traversed
      obtain ⟨value, here, traversed⟩ := traversed
      obtain ⟨rest, later, -⟩ := bind_eq_ok.mp traversed
      rcases List.mem_cons.mp member with rfl | among
      · exact ⟨value, here⟩
      · exact induction later among

theorem mapM_eq_map {function : α → Except ε β} {value : α → β}
    {items : List α} (each : ∀ item ∈ items, function item = .ok (value item)) :
    items.mapM function = .ok (items.map value) := by
  induction items with
  | nil => rfl
  | cons item items induction =>
      rw [List.mapM_cons, each item List.mem_cons_self,
        induction fun other member => each other (.tail _ member)]
      rfl

theorem map_eq_ok {function : α → β} {first : Except ε α} {result : β} :
    (function <$> first) = .ok result ↔
      ∃ value, first = .ok value ∧ function value = result := by
  cases first with
  | error failure => simp [Functor.map, Except.map]
  | ok value => simp [Functor.map, Except.map]

/-- What every single step preserves, the whole fold preserves. -/
theorem foldlM_preserves {step : σ → ι → Except ε σ} (invariant : σ → Prop)
    {items : List ι}
    (preserved : ∀ state item next, item ∈ items → invariant state →
      step state item = .ok next → invariant next)
    {start final : σ} (initial : invariant start)
    (success : items.foldlM step start = .ok final) : invariant final := by
  induction items generalizing start with
  | nil =>
      cases success
      exact initial
  | cons item items induction =>
      rw [List.foldlM_cons, bind_eq_ok] at success
      obtain ⟨next, stepped, rest⟩ := success
      refine induction ?_ ?_ rest
      · intro state other after member
        exact preserved state other after (List.mem_cons_of_mem _ member)
      · exact preserved start item next (by simp) initial stepped

theorem foldlM_error {step : σ → ι → Except ε σ} (invariant : σ → Prop)
    {items : List ι}
    (preserved : ∀ state item next, item ∈ items → invariant state →
      step state item = .ok next → invariant next)
    {start : σ} {failure : ε} (initial : invariant start)
    (failed : items.foldlM step start = .error failure) :
    ∃ state, ∃ item ∈ items, invariant state ∧
      step state item = .error failure := by
  induction items generalizing start with
  | nil => cases failed
  | cons item items induction =>
      rw [List.foldlM_cons] at failed
      cases stepped : step start item with
      | error other =>
          rw [stepped] at failed
          cases failed
          exact ⟨start, item, by simp, initial, stepped⟩
      | ok next =>
          rw [stepped] at failed
          obtain ⟨state, other, member, kept, failure⟩ := induction
            (fun state other after later =>
              preserved state other after (List.mem_cons_of_mem _ later))
            (preserved start item next (by simp) initial stepped) failed
          exact ⟨state, other, List.mem_cons_of_mem _ member, kept, failure⟩

/-- The invariant of a fold may speak of the items that are still to come. -/
theorem foldlM_consumes {step : σ → ι → Except ε σ}
    (invariant : σ → List ι → Prop)
    (consumed : ∀ state item rest next, invariant state (item :: rest) →
      step state item = .ok next → invariant next rest)
    {items : List ι} {start final : σ} (initial : invariant start items)
    (success : items.foldlM step start = .ok final) : invariant final [] := by
  induction items generalizing start with
  | nil =>
      cases success
      exact initial
  | cons item items induction =>
      rw [List.foldlM_cons, bind_eq_ok] at success
      obtain ⟨next, stepped, rest⟩ := success
      exact induction (consumed start item items next initial stepped) rest

/-- Two folds over the same items stay related. -/
theorem foldlM_relates {τ : Type} {left : σ → ι → Except ε σ}
    {right : τ → ι → Except ε τ} (relation : σ → τ → Prop) {items : List ι}
    (related : ∀ first second item firstNext secondNext,
      relation first second → left first item = .ok firstNext →
      right second item = .ok secondNext → relation firstNext secondNext)
    {first firstFinal : σ} {second secondFinal : τ}
    (initial : relation first second)
    (leftRun : items.foldlM left first = .ok firstFinal)
    (rightRun : items.foldlM right second = .ok secondFinal) :
    relation firstFinal secondFinal := by
  induction items generalizing first second with
  | nil =>
      cases leftRun
      cases rightRun
      exact initial
  | cons item items induction =>
      rw [List.foldlM_cons, bind_eq_ok] at leftRun rightRun
      obtain ⟨firstNext, leftStep, leftRest⟩ := leftRun
      obtain ⟨secondNext, rightStep, rightRest⟩ := rightRun
      exact induction
        (related _ _ item _ _ initial leftStep rightStep) leftRest rightRest

/-- `guard` holds before every step of a fold. -/
def Along (step : σ → ι → Except ε σ) (guard : σ → ι → Prop) :
    σ → List ι → Prop
  | _, [] => True
  | state, item :: items => guard state item ∧
      ∀ next, step state item = .ok next → Along step guard next items

theorem Along.congr {step : σ → ι → Except ε σ} {first second : σ → ι → Prop}
    (agree : ∀ state item, first state item ↔ second state item) {start : σ}
    {items : List ι} :
    Along step first start items ↔ Along step second start items := by
  have same : first = second :=
    funext fun state => funext fun item => propext (agree state item)
  rw [same]

theorem Along.and {step : σ → ι → Except ε σ} {first second : σ → ι → Prop}
    {start : σ} {items : List ι} (left : Along step first start items)
    (right : Along step second start items) :
    Along step (fun state item => first state item ∧ second state item) start
      items := by
  induction items generalizing start with
  | nil => trivial
  | cons item items induction =>
      exact ⟨⟨left.1, right.1⟩, fun next stepped =>
        induction (left.2 next stepped) (right.2 next stepped)⟩

theorem Along.foldlM_preserves {step : σ → ι → Except ε σ}
    {guard : σ → ι → Prop} (invariant : σ → Prop)
    (preserved : ∀ state item next, guard state item → invariant state →
      step state item = .ok next → invariant next)
    {items : List ι} {start final : σ} (guarded : Along step guard start items)
    (initial : invariant start)
    (success : items.foldlM step start = .ok final) : invariant final := by
  induction items generalizing start with
  | nil =>
      cases success
      exact initial
  | cons item items induction =>
      rw [List.foldlM_cons, bind_eq_ok] at success
      obtain ⟨next, stepped, rest⟩ := success
      exact induction (guarded.2 next stepped)
        (preserved start item next guarded.1 initial stepped) rest

/-- A guard that follows from an invariant holds along a fold. -/
theorem Along.of_consumes {step : σ → ι → Except ε σ} {guard : σ → ι → Prop}
    (invariant : σ → List ι → Prop)
    (guarded : ∀ state item rest, invariant state (item :: rest) →
      guard state item)
    (consumed : ∀ state item rest next, invariant state (item :: rest) →
      step state item = .ok next → invariant next rest)
    {start : σ} {items : List ι} (initial : invariant start items) :
    Along step guard start items := by
  induction items generalizing start with
  | nil => trivial
  | cons item items induction =>
      exact ⟨guarded start item items initial, fun next stepped =>
        induction (consumed start item items next initial stepped)⟩

theorem foldl_preserves {step : σ → ι → σ} (invariant : σ → Prop)
    {items : List ι}
    (preserved : ∀ state, ∀ item ∈ items, invariant state →
      invariant (step state item))
    {start : σ} (initial : invariant start) :
    invariant (items.foldl step start) := by
  induction items generalizing start with
  | nil => exact initial
  | cons item items induction =>
      refine induction ?_ (preserved start item (by simp) initial)
      intro state other member
      exact preserved state other (List.mem_cons_of_mem _ member)

/-- A fold without failures, with the items that are still to come. -/
theorem foldl_consumes {step : σ → ι → σ} (invariant : σ → List ι → Prop)
    (consumed : ∀ state item rest, invariant state (item :: rest) →
      invariant (step state item) rest)
    {items : List ι} {start : σ} (initial : invariant start items) :
    invariant (items.foldl step start) [] := by
  induction items generalizing start with
  | nil => exact initial
  | cons item items induction =>
      exact induction (consumed start item items initial)

end Outcome

/-- Finite runs of a labelled transition relation. -/
inductive Run {σ ι : Type} (step : σ → ι → σ → Prop) : σ → List ι → σ → Prop
    where
  | nil (state : σ) : Run step state [] state
  | cons {state middle final : σ} {label : ι} {labels : List ι} :
      step state label middle → Run step middle labels final →
      Run step state (label :: labels) final

namespace Run

variable {σ ι : Type} {step : σ → ι → σ → Prop}

theorem append {start middle final : σ} {before after : List ι}
    (first : Run step start before middle)
    (second : Run step middle after final) :
    Run step start (before ++ after) final := by
  induction first with
  | nil => exact second
  | cons stepped _rest induction => exact .cons stepped (induction second)

/-- An invariant of every step is an invariant of every run. -/
theorem preserves (invariant : σ → Prop)
    (preserved : ∀ state label next, invariant state →
      step state label next → invariant next)
    {start final : σ} {labels : List ι} (run : Run step start labels final)
    (initial : invariant start) : invariant final := by
  induction run with
  | nil => exact initial
  | cons stepped _rest induction =>
      exact induction (preserved _ _ _ initial stepped)

/-- A run that ends alive has no more of the counted steps than its start has
distance. -/
theorem count_le (invariant alive : σ → Prop) (distance : σ → ℕ)
    (counted : ι → Bool)
    (preserved : ∀ state label next, invariant state →
      step state label next → invariant next)
    (survived : ∀ state label next, step state label next →
      alive next → alive state)
    (nearer : ∀ state label next, invariant state → step state label next →
      alive next → distance next + (if counted label then 1 else 0) ≤
        distance state)
    {start final : σ} {labels : List ι} (run : Run step start labels final)
    (initial : invariant start) (ends : alive final) :
    alive start ∧ distance final + labels.countP counted ≤ distance start := by
  induction run with
  | nil => exact ⟨ends, Nat.le_refl _⟩
  | cons stepped _rest induction =>
      obtain ⟨middle, later⟩ :=
        induction (preserved _ _ _ initial stepped) ends
      have here := nearer _ _ _ initial stepped middle
      refine ⟨survived _ _ _ stepped middle, ?_⟩
      rw [List.countP_cons]
      omega

theorem imp {weaker : σ → ι → σ → Prop}
    (implies : ∀ state label next, step state label next →
      weaker state label next)
    {start final : σ} {labels : List ι} (run : Run step start labels final) :
    Run weaker start labels final := by
  induction run with
  | nil => exact .nil _
  | cons stepped _rest induction =>
      exact .cons (implies _ _ _ stepped) induction

end Run
