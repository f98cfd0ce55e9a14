import Mathlib.Data.List.Basic
import Mathlib.Data.Nat.Notation
import Mathlib.Data.Set.Basic
import Mathlib.Logic.Function.Iterate

/-!
# Linked chains

A chain assigns an element to every position, each one naming its
predecessor.  Two chains that meet at a position agree on everything below.
-/

variable {β : Type}

/-- Every element names the one before it. -/
def Linked (parent : β → β) (chain : ℕ → β) : Prop :=
  ∀ position, parent (chain (position + 1)) = chain position

theorem Linked.agree_below {parent : β → β} {left right : ℕ → β}
    (leftLinked : Linked parent left) (rightLinked : Linked parent right)
    {meeting : ℕ} (same : left meeting = right meeting) {position : ℕ}
    (below : position ≤ meeting) : left position = right position := by
  induction meeting with
  | zero =>
      rw [Nat.le_zero.mp below]
      exact same
  | succ meeting induction =>
      rcases Nat.lt_or_eq_of_le below with earlier | rfl
      · refine induction ?_ (Nat.lt_succ_iff.mp earlier)
        rw [← leftLinked meeting, ← rightLinked meeting, same]
      · exact same

/-- A list that lists consecutive elements of a chain. -/
def Follows (chain : ℕ → β) (first : ℕ) (elements : List β) : Prop :=
  ∀ index element, elements[index]? = some element →
    element = chain (first + index)

namespace Follows

variable {chain : ℕ → β} {first : ℕ} {elements : List β}

theorem drop (follows : Follows chain first elements) (count : ℕ) :
    Follows chain (first + count) (elements.drop count) := by
  intro index element read
  rw [List.getElem?_drop] at read
  rw [follows _ element read, Nat.add_assoc]

end Follows

/-! ## Sparse chains -/

section Ancestors

variable {parent : β → β} {high middle low : ℕ × β} {rows : Set (ℕ × β)}
  {first : ℕ} {elements : List β}

/-- An element comes to another one, further down, by naming predecessors. -/
def HasAncestor (parent : β → β) (high low : ℕ × β) : Prop :=
  low.1 ≤ high.1 ∧ parent^[high.1 - low.1] high.2 = low.2

namespace HasAncestor

theorem refl (place : ℕ × β) : HasAncestor parent place place := by
  refine ⟨le_rfl, ?_⟩
  rw [Nat.sub_self]
  rfl

theorem trans (upper : HasAncestor parent high middle)
    (lower : HasAncestor parent middle low) : HasAncestor parent high low := by
  obtain ⟨above, reached⟩ := upper
  obtain ⟨below, further⟩ := lower
  refine ⟨below.trans above, ?_⟩
  have split : high.1 - low.1 = (middle.1 - low.1) + (high.1 - middle.1) := by
    lia
  rw [split, Function.iterate_add_apply, reached, further]

/-- Of two elements that one comes to, the upper one comes to the lower. -/
theorem meet (upper : HasAncestor parent high middle)
    (lower : HasAncestor parent high low) (below : low.1 ≤ middle.1) :
    HasAncestor parent middle low := by
  obtain ⟨above, reached⟩ := upper
  refine ⟨below, ?_⟩
  have split : middle.1 - low.1 + (high.1 - middle.1) = high.1 - low.1 := by
    lia
  rw [← reached, ← Function.iterate_add_apply, split]
  exact lower.2

end HasAncestor

/-- Every element but the first names the one before it. -/
def LinkedList (parent : β → β) (elements : List β) : Prop :=
  ∀ index before after, elements[index]? = some before →
    elements[index + 1]? = some after → parent after = before

theorem LinkedList.concat (linked : LinkedList parent elements) {last next : β}
    (read : elements.getLast? = some last) (names : parent next = last) :
    LinkedList parent (elements ++ [next]) := by
  obtain ⟨front, rfl⟩ := List.getLast?_eq_some_iff.mp read
  intro index before after beforeRead afterRead
  rcases Nat.lt_trichotomy index front.length with below | rfl | above
  · rw [List.getElem?_append_left (by simp; lia)] at beforeRead afterRead
    exact linked index before after beforeRead afterRead
  · rw [List.getElem?_append_left (by simp)] at beforeRead
    rw [List.getElem?_append_right (by simp)] at afterRead
    simp at beforeRead afterRead
    rw [← beforeRead, ← afterRead]
    exact names
  · have inside := (List.getElem?_eq_some_iff.mp afterRead).1
    simp only [List.length_append, List.length_singleton] at inside
    lia

theorem LinkedList.hasAncestor (linked : LinkedList parent elements)
    {lower upper : ℕ} {lowest highest : β} (ordered : lower ≤ upper)
    (lowRead : elements[lower]? = some lowest)
    (highRead : elements[upper]? = some highest) :
    HasAncestor parent (first + upper, highest) (first + lower, lowest) := by
  induction upper generalizing highest with
  | zero =>
      obtain rfl := Nat.le_zero.mp ordered
      rw [lowRead] at highRead
      cases highRead
      exact .refl _
  | succ upper induction =>
      rcases Nat.lt_or_eq_of_le ordered with below | rfl
      · have inside := (List.getElem?_eq_some_iff.mp highRead).1
        have beforeRead := List.getElem?_eq_getElem (Nat.lt_of_succ_lt inside)
        have stepped : HasAncestor parent (first + (upper + 1), highest)
            (first + upper, elements[upper]) := by
          refine ⟨by lia, ?_⟩
          rw [show first + (upper + 1) - (first + upper) = 1 by lia]
          exact linked upper _ _ beforeRead highRead
        exact stepped.trans (induction (Nat.lt_succ_iff.mp below) beforeRead)
      · rw [lowRead] at highRead
        cases highRead
        exact .refl _

/-- All elements lie on one chain. -/
def OneChain (parent : β → β) (rows : Set (ℕ × β)) : Prop :=
  ∀ low ∈ rows, ∀ high ∈ rows, low.1 ≤ high.1 → HasAncestor parent high low

/-- The elements of a list at the positions from `first` on. -/
def placed (first : ℕ) (elements : List β) : Set (ℕ × β) :=
  {place | ∃ index, elements[index]? = some place.2 ∧
    place.1 = first + index}

theorem OneChain.subset {more : Set (ℕ × β)} (chained : OneChain parent more)
    (included : rows ⊆ more) : OneChain parent rows :=
  fun low lowMember high highMember =>
    chained low (included lowMember) high (included highMember)

/-- A list that meets a chain where one of the two ends goes on with it. -/
theorem OneChain.extend (chained : OneChain parent rows)
    (linked : LinkedList parent elements) {meeting : ℕ} {element : β}
    (read : elements[meeting]? = some element)
    (stored : (first + meeting, element) ∈ rows)
    (ends : (∀ row ∈ rows, row.1 ≤ first + meeting) ∨
      meeting + 1 = elements.length) :
    OneChain parent (rows ∪ placed first elements) := by
  -- whatever is not above the meeting is reached from there
  have below : ∀ place ∈ rows ∪ placed first elements,
      place.1 ≤ first + meeting →
      HasAncestor parent (first + meeting, element) place := by
    rintro ⟨position, other⟩ (old | ⟨index, otherRead, rfl⟩) under
    · exact chained _ old _ stored under
    · exact linked.hasAncestor (by lia) otherRead read
  -- and only one of the two goes further up
  have above : ∀ place ∈ rows ∪ placed first elements,
      first + meeting ≤ place.1 →
      HasAncestor parent place (first + meeting, element) := by
    rintro ⟨position, other⟩ (old | ⟨index, otherRead, rfl⟩) higher
    · exact chained _ stored _ old higher
    · exact linked.hasAncestor (by lia) read otherRead
  have onlyOne : ∀ position other index later, (position, other) ∈ rows →
      elements[index]? = some later → first + meeting < position →
      meeting < index → False := by
    intro position other index later old laterRead higher beyond
    have inside := (List.getElem?_eq_some_iff.mp laterRead).1
    rcases ends with under | final
    · exact absurd (under _ old) (Nat.not_le.mpr higher)
    · lia
  intro low lowMember high highMember ordered
  by_cases under : high.1 ≤ first + meeting
  · exact (below high highMember under).meet
      (below low lowMember (ordered.trans under)) ordered
  by_cases across : low.1 ≤ first + meeting
  · exact (above high highMember (Nat.le_of_not_le under)).trans
      (below low lowMember across)
  · obtain ⟨lowPosition, lowest⟩ := low
    obtain ⟨highPosition, highest⟩ := high
    rcases lowMember with lowOld | ⟨lower, lowRead, lowPlaced⟩ <;>
      rcases highMember with highOld | ⟨upper, highRead, highPlaced⟩
    · exact chained _ lowOld _ highOld ordered
    · exact (onlyOne _ _ _ _ lowOld highRead (by lia) (by lia)).elim
    · exact (onlyOne _ _ _ _ highOld lowRead (by lia) (by lia)).elim
    · obtain rfl : lowPosition = first + lower := lowPlaced
      obtain rfl : highPosition = first + upper := highPlaced
      exact linked.hasAncestor (by lia) lowRead highRead

end Ancestors
