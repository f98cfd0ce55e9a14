import Mathlib.Data.List.Basic
import Mathlib.Data.Nat.Notation

/-!
# Prefix codes

Words of which none is the start of another one.  Their concatenation can be
cut in one way only, so that what arrived of it is a list of first words.
-/

namespace PrefixCode

variable {α : Type}

/-- No word is the start of another one. -/
structure PrefixFree (code : List α → Prop) : Prop where
  nonempty : ∀ word, code word → word ≠ []
  apart : ∀ first second, code first → code second → first <+: second →
    first = second

/-- Words whose concatenation is the start of another one are its first
words. -/
theorem PrefixFree.prefix_of_flatten {code : List α → Prop}
    (free : PrefixFree code) {words others : List (List α)}
    (coded : ∀ word ∈ words, code word) (codedOthers : ∀ word ∈ others, code word)
    (started : words.flatten <+: others.flatten) : words <+: others := by
  induction words generalizing others with
  | nil => exact List.nil_prefix
  | cons word words induction =>
      obtain ⟨codedWord, coded⟩ := List.forall_mem_cons.mp coded
      cases others with
      | nil =>
          have none : word = [] := by
            have empty := List.prefix_nil.mp started
            rw [List.flatten_cons, List.append_eq_nil_iff] at empty
            exact empty.1
          exact absurd none (free.nonempty word codedWord)
      | cons other others =>
          obtain ⟨codedOther, codedLater⟩ := List.forall_mem_cons.mp codedOthers
          rw [List.flatten_cons, List.flatten_cons] at started
          have here : word <+: other ++ others.flatten :=
            (List.prefix_append _ _).trans started
          have there : other <+: other ++ others.flatten := List.prefix_append _ _
          have same : word = other := by
            rcases List.prefix_or_prefix_of_prefix here there with shorter | longer
            · exact free.apart _ _ codedWord codedOther shorter
            · exact (free.apart _ _ codedOther codedWord longer).symm
          subst same
          rw [List.prefix_append_right_inj] at started
          exact List.cons_prefix_cons.mpr ⟨rfl, induction coded codedLater started⟩

/-! ## Headers that tell a size -/

/-- Messages with a header of fixed size, which tells how long the rest is. -/
structure Framing (α : Type) where
  size : ℕ
  positive : 0 < size
  bodyLength : List α → ℕ

namespace Framing

variable (framing : Framing α)

/-- A whole message. -/
def Message (message : List α) : Prop :=
  message.length = framing.size + framing.bodyLength (message.take framing.size)

theorem prefixFree : PrefixFree framing.Message where
  nonempty message whole none := by
    subst none
    have positive := framing.positive
    rw [Message, List.length_nil] at whole
    omega
  apart first second whole wholeSecond started := by
    have long : framing.size ≤ first.length := by
      rw [whole]
      exact Nat.le_add_right _ _
    have header : second.take framing.size = first.take framing.size := by
      obtain ⟨rest, rfl⟩ := started
      exact List.take_append_of_le_length long
    apply started.eq_of_length
    rw [whole, wholeSecond, header]

/-- A header with a body of the length it tells. -/
theorem message_append {header body : List α}
    (whole : header.length = framing.size)
    (told : body.length = framing.bodyLength header) :
    framing.Message (header ++ body) := by
  rw [Message, ← whole, List.take_left, List.length_append, told]

end Framing

end PrefixCode
