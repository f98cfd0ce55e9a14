import XfoLws.Db.SubaddressAgreement
import Mathlib.Data.Set.Card
import Mathlib.Order.Interval.Finset.Nat

/-!
# Upsert as union and difference

`upsert_subaddresses` stores the union of the stored and the requested
indexes and reports their difference, as long as no requested range closes a
gap between two stored ones.  A range that does is joined to the first of the
two only: the second is reported and counted once more, and the stored list
is left with ranges that overlap or touch.
-/

namespace XfoLws.Db

/-! ## Canonical lists of ranges -/

/-- Every range ends at least two before the next one starts. -/
def Apart (ranges : IndexRanges) : Prop :=
  ranges.Pairwise fun left right => left.last + 1 < right.first

/-- Sorted, disjoint and not adjacent. -/
structure Canonical (ranges : IndexRanges) : Prop where
  proper : Proper ranges
  apart : Apart ranges

private theorem checkRanges_iff {last : ℕ} {ranges : IndexRanges} :
    checkRanges false last ranges = true ↔
      Canonical ranges ∧ ∀ range ∈ ranges, last + 1 < range.first := by
  induction ranges generalizing last with
  | nil =>
      simp only [checkRanges, List.not_mem_nil, false_implies,
        implies_true, and_true, true_iff]
      exact ⟨proper_nil, List.Pairwise.nil⟩
  | cons range rest induction =>
      have step : checkRanges false last (range :: rest) = true ↔
          range.first ≤ range.last ∧ last + 1 < range.first ∧
            checkRanges false range.last rest = true := by
        rw [checkRanges]
        split
        · simp
          omega
        split <;> simp_all
      rw [step, induction]
      constructor
      · rintro ⟨proper, above, canonical, beyond⟩
        refine ⟨⟨proper_cons.mpr ⟨proper, canonical.proper⟩,
          List.pairwise_cons.mpr ⟨beyond, canonical.apart⟩⟩, ?_⟩
        intro other member
        rcases List.mem_cons.mp member with rfl | later
        · exact above
        · have := beyond other later
          omega
      · rintro ⟨canonical, above⟩
        obtain ⟨proper, properRest⟩ := proper_cons.mp canonical.proper
        obtain ⟨beyond, apart⟩ := List.pairwise_cons.mp canonical.apart
        exact ⟨proper, above range (by simp), ⟨properRest, apart⟩, beyond⟩

/-- `check_subaddress_dict` accepts the canonical lists. -/
theorem checkSubaddressDict_iff {dict : SubaddressDict} :
    checkSubaddressDict dict = true ↔ Canonical dict.2 := by
  obtain ⟨major, ranges⟩ := dict
  unfold checkSubaddressDict
  cases ranges with
  | nil => exact iff_of_true rfl ⟨proper_nil, List.Pairwise.nil⟩
  | cons range rest =>
      have step : checkRanges true 0 (range :: rest) = true ↔
          range.first ≤ range.last ∧
            checkRanges false range.last rest = true := by
        rw [checkRanges]
        split <;> simp_all
      rw [step, checkRanges_iff]
      constructor
      · rintro ⟨proper, canonical, beyond⟩
        exact ⟨proper_cons.mpr ⟨proper, canonical.proper⟩,
          List.pairwise_cons.mpr ⟨beyond, canonical.apart⟩⟩
      · rintro ⟨proper, apart⟩
        obtain ⟨first, proper⟩ := proper_cons.mp proper
        obtain ⟨beyond, apart⟩ := List.pairwise_cons.mp apart
        exact ⟨first, ⟨proper, apart⟩, beyond⟩

/-! ## What one requested range adds -/

/-- The ranges that `mergeRange` counts and reports. -/
def newParts (new : IndexRange) : IndexRanges → IndexRanges
  | [] => [new]
  | old :: olds =>
      if new.last + 1 < old.first then [new]
      else if old.last + 1 < new.first then newParts new olds
      else
        (if new.first < old.first then [⟨new.first, old.first - 1⟩] else []) ++
          if old.last < new.last then [⟨old.last + 1, new.last⟩] else []

/-- The ranges that `mergeRange` is done with. -/
def passedRanges (new : IndexRange) : IndexRanges → IndexRanges
  | [] => [new]
  | old :: olds =>
      if new.last + 1 < old.first then [new]
      else if old.last + 1 < new.first then old :: passedRanges new olds
      else []

/-- The stored ranges that `mergeRange` leaves. -/
def leftRanges (new : IndexRange) : IndexRanges → IndexRanges
  | [] => []
  | old :: olds =>
      if new.last + 1 < old.first then old :: olds
      else if old.last + 1 < new.first then leftRanges new olds
      else ⟨min new.first old.first, max old.last new.last⟩ :: olds

section Range

variable {maxSubaddr major : ℕ} {new : IndexRange}

/-- A pass of the merge in terms of what it counts, reports and keeps. -/
private theorem mergeRange_eq {olds : IndexRanges} {merge : Merge} :
    mergeRange maxSubaddr major new olds merge =
      (checkMaxRanges maxSubaddr merge.count (newParts new olds)).map
        fun count => (leftRanges new olds,
          ⟨count, merge.newDict ++ passedRanges new olds,
            (newParts new olds).foldl (fun out range => addOut out major range)
              merge.out⟩) := by
  induction olds generalizing merge with
  | nil =>
      simp only [mergeRange, Merge.note, newParts, leftRanges, passedRanges,
        checkMaxRanges, List.foldlM_cons, List.foldlM_nil, List.foldl_cons,
        List.foldl_nil]
      cases checkMaxRange maxSubaddr merge.count new <;> rfl
  | cons old olds induction =>
      unfold mergeRange newParts leftRanges passedRanges
      split
      · simp only [Merge.note, checkMaxRanges, List.foldlM_cons,
          List.foldlM_nil, List.foldl_cons, List.foldl_nil]
        cases checkMaxRange maxSubaddr merge.count new <;> rfl
      split
      · rw [induction]
        simp
      rename_i near close
      split
      · -- the new range is inside the stored one
        rename_i inside
        obtain ⟨above, below⟩ := Bool.and_eq_true_iff.mp inside
        replace above := of_decide_eq_true above
        replace below := of_decide_eq_true below
        rw [if_neg (by omega), if_neg (by omega), min_eq_right above,
          max_eq_left below]
        simp [checkMaxRanges]
      · dsimp only
        by_cases front : new.first < old.first <;>
          by_cases back : old.last < new.last
        all_goals simp only [front, back, ↓reduceIte, Merge.note,
          checkMaxRanges, List.nil_append, List.cons_append, List.foldlM_cons,
          List.foldlM_nil, List.foldl_cons, List.foldl_nil, List.append_nil,
          Option.bind_eq_bind, Option.bind_some]
        · cases checkMaxRange maxSubaddr merge.count
              ⟨new.first, old.first - 1⟩ with
          | none => rfl
          | some total =>
              simp only [Option.map_some, Option.bind_some]
              cases checkMaxRange maxSubaddr total ⟨old.last + 1, new.last⟩
                <;> rfl
        · cases checkMaxRange maxSubaddr merge.count
            ⟨new.first, old.first - 1⟩ <;> rfl
        · cases checkMaxRange maxSubaddr merge.count
            ⟨old.last + 1, new.last⟩ <;> rfl
        · rfl

/-- Ranges that stay apart were apart before: the merge only widens ranges
and puts new ones between. -/
private theorem apart_before {before olds : IndexRanges}
    (apart : Apart (before ++ passedRanges new olds ++ leftRanges new olds)) :
    Apart (before ++ olds) := by
  induction olds generalizing before with
  | nil =>
      refine List.Pairwise.sublist ?_ apart
      simp [leftRanges]
  | cons old olds induction =>
      unfold passedRanges leftRanges at apart
      split at apart
      · refine List.Pairwise.sublist ?_ apart
        simp
      split at apart
      · have moved : before ++ old :: olds = (before ++ [old]) ++ olds := by
          simp
        rw [moved]
        apply induction
        simpa using apart
      · unfold Apart at apart ⊢
        simp only [List.append_nil, List.pairwise_append, List.pairwise_cons,
          List.mem_cons, forall_eq_or_imp] at apart ⊢
        obtain ⟨apartBefore, ⟨after, apartAfter⟩, between⟩ := apart
        refine ⟨apartBefore, ⟨?_, apartAfter⟩, ?_⟩
        · intro later member
          have := after later member
          omega
        · intro earlier member
          obtain ⟨here, later⟩ := between earlier member
          exact ⟨by omega, later⟩

/-- The requested range reaches from one of the ranges to a later one. -/
private def Bridges (new : IndexRange) (ranges : IndexRanges) : Prop :=
  ∃ left ∈ ranges, ∃ right ∈ ranges, left.last + 1 < right.first ∧
    new.first ≤ left.last + 1 ∧ right.first ≤ new.last + 1

private theorem bridges_nil {before : IndexRanges}
    (beyond : ∀ range ∈ before, range.last + 1 < new.first) :
    ¬ Bridges new (before ++ []) := by
  rintro ⟨left, member, right, -, -, reached, -⟩
  have := beyond left (by simpa using member)
  omega

section Merging

variable {before olds : IndexRanges} {old : IndexRange}

private theorem last_le_of_mem (canonical : Canonical (before ++ old :: olds))
    {range : IndexRange} (member : range ∈ old :: olds) :
    old.last ≤ range.last := by
  have apart := (List.pairwise_append.mp canonical.apart).2.1
  rcases List.mem_cons.mp member with rfl | later
  · exact le_rfl
  · have := (List.pairwise_cons.mp apart).1 range later
    have := canonical.proper range (by simp [later])
    omega

private theorem apart_between (canonical : Canonical (before ++ old :: olds))
    (beyond : ∀ range ∈ before, range.last + 1 < new.first)
    (early : new.last + 1 < old.first) :
    Apart (before ++ [new] ++ old :: olds) := by
  obtain ⟨apartBefore, apartOlds, between⟩ :=
    List.pairwise_append.mp canonical.apart
  obtain ⟨after, apartRest⟩ := List.pairwise_cons.mp apartOlds
  have properOld := canonical.proper old (by simp)
  unfold Apart
  simp only [List.append_assoc, List.pairwise_append, List.pairwise_cons,
    List.mem_append, List.mem_cons, List.not_mem_nil, or_false,
    false_implies, implies_true, List.Pairwise.nil, and_self, true_and]
  refine ⟨apartBefore, ⟨⟨after, apartRest⟩, ?_⟩, ?_⟩
  · rintro range rfl other (rfl | later)
    · exact early
    · have := after other later
      omega
  · rintro range member other (rfl | later)
    · exact beyond range member
    · exact between range member other (by simpa using later)

/-- Ranges to the left of the requested one are too far from it, and the
others too far to its right. -/
private theorem bridges_between (canonical : Canonical (before ++ old :: olds))
    (beyond : ∀ range ∈ before, range.last + 1 < new.first)
    (early : new.last + 1 < old.first) :
    ¬ Bridges new (before ++ old :: olds) := by
  rintro ⟨left, leftMember, right, rightMember, ordered, reached, reaches⟩
  have properOld := canonical.proper old (by simp)
  rcases List.mem_append.mp leftMember with here | there
  · have := beyond left here
    omega
  · have := last_le_of_mem canonical there
    omega

private theorem apart_joined (canonical : Canonical (before ++ old :: olds))
    (beyond : ∀ range ∈ before, range.last + 1 < new.first) :
    Apart (before ++
        ⟨min new.first old.first, max old.last new.last⟩ :: olds) ↔
      ∀ later ∈ olds, new.last + 1 < later.first := by
  obtain ⟨apartBefore, apartOlds, between⟩ :=
    List.pairwise_append.mp canonical.apart
  obtain ⟨after, apartRest⟩ := List.pairwise_cons.mp apartOlds
  unfold Apart
  simp only [List.pairwise_append, List.pairwise_cons]
  constructor
  · rintro ⟨-, ⟨joined, -⟩, -⟩ later member
    have := joined later member
    omega
  · intro far
    refine ⟨apartBefore, ⟨?_, apartRest⟩, ?_⟩
    · intro later member
      have := far later member
      have := after later member
      omega
    · intro range member other otherMember
      rcases List.mem_cons.mp otherMember with rfl | later
      · have := beyond range member
        have := between range member old (by simp)
        dsimp only
        omega
      · exact between range member other (List.mem_cons_of_mem _ later)

/-- From the range it meets, the requested one reaches a later one. -/
private theorem bridges_joined (canonical : Canonical (before ++ old :: olds))
    (beyond : ∀ range ∈ before, range.last + 1 < new.first)
    (late : new.first ≤ old.last + 1) :
    Bridges new (before ++ old :: olds) ↔
      ∃ later ∈ olds, later.first ≤ new.last + 1 := by
  have apart := (List.pairwise_append.mp canonical.apart).2.1
  have after := (List.pairwise_cons.mp apart).1
  constructor
  · rintro ⟨left, leftMember, right, rightMember, ordered, reached, reaches⟩
    have properRight := canonical.proper right rightMember
    rcases List.mem_append.mp leftMember with here | leftStored
    · have := beyond left here
      omega
    have leftLast := last_le_of_mem canonical leftStored
    rcases List.mem_append.mp rightMember with here | there
    · have := beyond right here
      omega
    rcases List.mem_cons.mp there with rfl | later
    · omega
    · exact ⟨right, later, reaches⟩
  · rintro ⟨later, member, near⟩
    exact ⟨old, by simp, later, by simp [member], after later member, late,
      near⟩

end Merging

/-- The merged ranges are apart unless the requested one reaches from a stored
range to a later one. -/
private theorem apart_after {before olds : IndexRanges}
    (canonical : Canonical (before ++ olds))
    (beyond : ∀ range ∈ before, range.last + 1 < new.first) :
    Apart (before ++ passedRanges new olds ++ leftRanges new olds) ↔
      ¬ Bridges new (before ++ olds) := by
  induction olds generalizing before with
  | nil =>
      refine iff_of_true ?_ (bridges_nil beyond)
      have apart := canonical.apart
      unfold Apart at apart ⊢
      simpa [passedRanges, leftRanges, List.pairwise_append] using
        ⟨by simpa using apart, beyond⟩
  | cons old olds induction =>
      unfold passedRanges leftRanges
      split
      · rename_i early
        exact iff_of_true (apart_between canonical beyond early)
          (bridges_between canonical beyond early)
      split
      · rename_i late
        have moved : before ++ old :: olds = (before ++ [old]) ++ olds := by
          simp
        rw [moved] at canonical ⊢
        have shorter := induction canonical (by
          intro range member
          rcases List.mem_append.mp member with here | last
          · exact beyond range here
          · rw [List.mem_singleton.mp last]
            exact late)
        simpa using shorter
      · rename_i late
        rw [List.append_nil, apart_joined canonical beyond,
          bridges_joined canonical beyond (not_lt.mp late)]
        simp only [not_exists, not_and, not_le]

private theorem newParts_includes {olds : IndexRanges} {minor : ℕ}
    (requested : new.first ≤ minor ∧ minor ≤ new.last)
    (absent : ¬ Covers olds minor) : Covers (newParts new olds) minor := by
  induction olds with
  | nil => simpa [newParts] using requested
  | cons old olds induction =>
      rw [covers_cons, not_or] at absent
      unfold newParts
      split
      · simpa using requested
      split
      · exact induction absent.2
      · rw [covers_append]
        by_cases front : minor < old.first
        · rw [if_pos (by omega)]
          exact .inl (by simp; omega)
        · rw [if_pos (show old.last < new.last by omega)]
          exact .inr (by simp; omega)

/-- Without a bridge, exactly what is requested and not stored is counted. -/
private theorem newParts_covers {before olds : IndexRanges}
    (canonical : Canonical (before ++ olds))
    (beyond : ∀ range ∈ before, range.last + 1 < new.first)
    (bridgeless : ¬ Bridges new (before ++ olds)) {minor : ℕ} :
    Covers (newParts new olds) minor ↔
      (new.first ≤ minor ∧ minor ≤ new.last) ∧
        ¬ Covers (before ++ olds) minor := by
  have apartFrom : ∀ {range : IndexRange},
      range.last + 1 < new.first ∨ new.last + 1 < range.first →
      new.first ≤ minor ∧ minor ≤ new.last →
      ¬ (range.first ≤ minor ∧ minor ≤ range.last) := by
    intro range apart requested
    omega
  induction olds generalizing before with
  | nil =>
      simp only [newParts, covers_cons, covers_nil, or_false,
        List.append_nil]
      refine ⟨fun requested => ⟨requested, ?_⟩, And.left⟩
      rintro ⟨range, member, covered⟩
      exact apartFrom (.inl (beyond range member)) requested covered
  | cons old olds induction =>
      obtain ⟨-, apartOlds, -⟩ := List.pairwise_append.mp canonical.apart
      obtain ⟨after, -⟩ := List.pairwise_cons.mp apartOlds
      have properOlds := (proper_append.mp canonical.proper).2
      unfold newParts
      split
      · rename_i early
        simp only [covers_cons, covers_nil, or_false]
        refine ⟨fun requested => ⟨requested, ?_⟩, And.left⟩
        rintro ⟨range, member, covered⟩
        rcases List.mem_append.mp member with here | there
        · exact apartFrom (.inl (beyond range here)) requested covered
        · refine apartFrom (.inr ?_) requested covered
          rcases List.mem_cons.mp there with rfl | later
          · exact early
          · have := after range later
            have := properOlds old (by simp)
            omega
      split
      · rename_i late
        have moved : before ++ old :: olds = (before ++ [old]) ++ olds := by
          simp
        rw [moved] at canonical bridgeless ⊢
        refine induction canonical ?_ bridgeless
        intro range member
        rcases List.mem_append.mp member with here | last
        · exact beyond range here
        · rw [List.mem_singleton.mp last]
          exact late
      · -- what sticks out of the old range, as no other one is in reach
        rename_i early late
        have outside : ∀ range ∈ before ++ olds,
            new.first ≤ minor ∧ minor ≤ new.last →
            ¬ (range.first ≤ minor ∧ minor ≤ range.last) := by
          intro range member
          rcases List.mem_append.mp member with here | later
          · exact apartFrom (.inl (beyond range here))
          · refine apartFrom (.inr ?_)
            by_contra near
            exact bridgeless ⟨old, by simp, range, by simp [later],
              after range later, by omega, by omega⟩
        have proper := properOlds old (by simp)
        have parts : Covers ((if new.first < old.first then
              [(⟨new.first, old.first - 1⟩ : IndexRange)] else []) ++
            if old.last < new.last then [⟨old.last + 1, new.last⟩] else [])
              minor ↔ (new.first ≤ minor ∧ minor ≤ new.last) ∧
                ¬ (old.first ≤ minor ∧ minor ≤ old.last) := by
          rw [covers_append]
          split <;> split <;> simp <;> omega
        rw [parts]
        simp only [covers_append, covers_cons]
        constructor
        · rintro ⟨requested, absent⟩
          refine ⟨requested, ?_⟩
          rintro (⟨range, member, covered⟩ | covered | covered)
          · exact outside range (by simp [member]) requested covered
          · exact absent covered
          · obtain ⟨range, member, covered⟩ := covered
            exact outside range (by simp [member]) requested covered
        · rintro ⟨requested, absent⟩
          exact ⟨requested, fun covered => absent (.inr (.inl covered))⟩

private theorem newParts_ordered {olds : IndexRanges}
    (proper : new.first ≤ new.last) (properOlds : Proper olds) :
    Proper (newParts new olds) ∧
      (newParts new olds).Pairwise fun left right =>
        left.last < right.first := by
  induction olds with
  | nil => simpa [newParts] using proper
  | cons old olds induction =>
      obtain ⟨properOld, properOlds⟩ := proper_cons.mp properOlds
      unfold newParts
      split
      · simpa using proper
      split
      · exact induction properOlds
      · split <;> split <;> simp <;> omega

end Range

/-! ## Sizes -/

/-- The number of minor indexes in a range. -/
def IndexRange.size (range : IndexRange) : ℕ :=
  range.last - range.first + 1

def rangesSize (ranges : IndexRanges) : ℕ :=
  (ranges.map IndexRange.size).sum

/-- The minor indexes in a list of ranges, as a set. -/
def minorSet (ranges : IndexRanges) : Set ℕ := {minor | Covers ranges minor}

theorem minorSet_cons {range : IndexRange} {ranges : IndexRanges} :
    minorSet (range :: ranges) =
      Set.Icc range.first range.last ∪ minorSet ranges := by
  ext minor
  simp [minorSet]

private theorem encard_Icc (first last : ℕ) :
    (Set.Icc first last).encard = (last + 1 - first : ℕ) := by
  rw [← Finset.coe_Icc, Set.encard_coe_eq_coe_finsetCard, Nat.card_Icc]

theorem encard_minorSet_le (ranges : IndexRanges) :
    (minorSet ranges).encard ≤ rangesSize ranges := by
  induction ranges with
  | nil => simp [minorSet, rangesSize]
  | cons range ranges induction =>
      rw [minorSet_cons]
      refine (Set.encard_union_le _ _).trans ?_
      have total : rangesSize (range :: ranges) =
          range.size + rangesSize ranges := by
        simp [rangesSize]
      rw [total, Nat.cast_add]
      refine add_le_add ?_ induction
      rw [encard_Icc, Nat.cast_le, IndexRange.size]
      omega

theorem encard_minorSet {ranges : IndexRanges} (proper : Proper ranges)
    (ordered : ranges.Pairwise fun left right => left.last < right.first) :
    (minorSet ranges).encard = rangesSize ranges := by
  induction ranges with
  | nil => simp [minorSet, rangesSize]
  | cons range ranges induction =>
      obtain ⟨properRange, proper⟩ := proper_cons.mp proper
      obtain ⟨after, ordered⟩ := List.pairwise_cons.mp ordered
      have apart : Disjoint (Set.Icc range.first range.last)
          (minorSet ranges) := by
        rw [Set.disjoint_left]
        rintro minor ⟨-, below⟩ ⟨other, member, above, -⟩
        have := after other member
        omega
      have size : range.last + 1 - range.first = range.size := by
        unfold IndexRange.size
        omega
      rw [minorSet_cons, Set.encard_union_eq apart, encard_Icc, size,
        induction proper ordered]
      simp [rangesSize]

private theorem checkMaxRanges_eq {maxSubaddr count : ℕ}
    {ranges : IndexRanges} (within : count ≤ maxSubaddr) :
    checkMaxRanges maxSubaddr count ranges =
      if count + rangesSize ranges ≤ maxSubaddr then
        some (count + rangesSize ranges) else none := by
  induction ranges generalizing count with
  | nil =>
      simp [checkMaxRanges, rangesSize, within]
  | cons range ranges induction =>
      have total : rangesSize (range :: ranges) =
          range.size + rangesSize ranges := by
        simp [rangesSize]
      rw [total, checkMaxRanges, List.foldlM_cons]
      by_cases room : maxSubaddr - count ≤ range.last - range.first
      · have full : ¬ count + (range.size + rangesSize ranges) ≤
            maxSubaddr := by
          unfold IndexRange.size
          omega
        rw [if_neg full]
        simp [checkMaxRange, room]
      · have next : count + range.size ≤ maxSubaddr := by
          unfold IndexRange.size
          omega
        have passed : checkMaxRange maxSubaddr count range =
            some (count + range.size) := by
          simp [checkMaxRange, room, IndexRange.size]
        rw [passed]
        have later := induction next
        rw [Nat.add_assoc] at later
        exact later

/-! ## Closed gaps -/

/-- The range reaches from one stored index to a later one, over an index
that is not stored. -/
def ClosesGap (stored : Set ℕ) (new : IndexRange) : Prop :=
  ∃ left ∈ stored, ∃ right ∈ stored, ∃ gap, gap ∉ stored ∧
    left < gap ∧ gap < right ∧ new.first ≤ left + 1 ∧ right ≤ new.last + 1

/-- One of the ranges closes a gap when those before it are stored. -/
def ClosesGaps : Set ℕ → IndexRanges → Prop
  | _, [] => False
  | stored, new :: news =>
      ClosesGap stored new ∨
        ClosesGaps (stored ∪ Set.Icc new.first new.last) news

private theorem bridges_iff {new : IndexRange} {ranges : IndexRanges}
    (canonical : Canonical ranges) :
    Bridges new ranges ↔ ClosesGap (minorSet ranges) new := by
  constructor
  · rintro ⟨left, leftMember, right, rightMember, ordered, reached, reaches⟩
    have properLeft := canonical.proper left leftMember
    have properRight := canonical.proper right rightMember
    refine ⟨left.last, ⟨left, leftMember, properLeft, le_rfl⟩, right.first,
      ⟨right, rightMember, le_rfl, properRight⟩, left.last + 1, ?_,
      by omega, ordered, reached, reaches⟩
    rintro ⟨range, member, above, below⟩
    -- ranges of a canonical list are apart in one of the two orders
    have apart : range ≠ left → range.last + 1 < left.first ∨
        left.last + 1 < range.first := by
      intro different
      let Separate := fun first second : IndexRange =>
        first.last + 1 < second.first ∨ second.last + 1 < first.first
      have : Std.Symm Separate := ⟨fun _ _ => Or.symm⟩
      have both : ranges.Pairwise Separate := canonical.apart.imp .inl
      exact both.forall member leftMember different
    by_cases same : range = left
    · rw [same] at below
      omega
    · have := apart same
      have := canonical.proper range member
      omega
  · rintro ⟨left, ⟨leftRange, leftMember, leftIn⟩, right,
      ⟨rightRange, rightMember, rightIn⟩, gap, missing, before, after, reached,
      reaches⟩
    have beyondLeft : leftRange.last < gap := by
      by_contra covered
      exact missing ⟨leftRange, leftMember, by omega, by omega⟩
    have beforeRight : gap < rightRange.first := by
      by_contra covered
      exact missing ⟨rightRange, rightMember, by omega, by omega⟩
    exact ⟨leftRange, leftMember, rightRange, rightMember, by omega,
      by omega, by omega⟩

/-! ## One major index -/

/-- The ranges that the merge loop counts and reports. -/
def countedRanges : IndexRanges → IndexRanges → IndexRanges
  | [], _ => []
  | new :: news, olds =>
      newParts new olds ++ countedRanges news (leftRanges new olds)

/-- The ranges that the merge loop stores. -/
def mergedRanges : IndexRanges → IndexRanges → IndexRanges
  | [], olds => olds
  | new :: news, olds =>
      passedRanges new olds ++ mergedRanges news (leftRanges new olds)

section Major

variable {maxSubaddr major : ℕ} {news olds before : IndexRanges}

theorem checkMaxRanges_append {count : ℕ} {left right : IndexRanges} :
    checkMaxRanges maxSubaddr count (left ++ right) =
      (checkMaxRanges maxSubaddr count left).bind fun count =>
        checkMaxRanges maxSubaddr count right := by
  simp [checkMaxRanges, List.foldlM_append]

/-- The merge loop in terms of what it counts, reports and stores. -/
theorem mergeRanges_eq {merge : Merge} :
    mergeRanges maxSubaddr major olds news merge =
      (checkMaxRanges maxSubaddr merge.count (countedRanges news olds)).map
        fun count => ⟨count, merge.newDict ++ mergedRanges news olds,
          (countedRanges news olds).foldl
            (fun out range => addOut out major range) merge.out⟩ := by
  induction news generalizing olds merge with
  | nil => simp [mergeRanges, countedRanges, mergedRanges, checkMaxRanges]
  | cons new news induction =>
      have step : mergeRanges maxSubaddr major olds (new :: news) merge =
          (mergeRange maxSubaddr major new olds merge).bind fun passed =>
            mergeRanges maxSubaddr major passed.1 news passed.2 := by
        simp [mergeRanges, Option.bind_assoc]
      rw [step, mergeRange_eq, countedRanges, checkMaxRanges_append]
      cases checkMaxRanges maxSubaddr merge.count (newParts new olds) with
      | none => rfl
      | some count =>
          simp only [Option.map_some, Option.bind_some]
          rw [induction]
          simp [mergedRanges, List.foldl_append]

@[simp] theorem countedRanges_nil : countedRanges news [] = news := by
  induction news with
  | nil => rfl
  | cons new news induction =>
      simp [countedRanges, newParts, leftRanges, induction]

@[simp] theorem mergedRanges_nil : mergedRanges news [] = news := by
  induction news with
  | nil => rfl
  | cons new news induction =>
      simp [mergedRanges, passedRanges, leftRanges, induction]

private theorem passed_left_covers {new : IndexRange} (minor : ℕ)
    (properOlds : Proper olds) :
    Covers (passedRanges new olds ++ leftRanges new olds) minor ↔
      Covers olds minor ∨ (new.first ≤ minor ∧ minor ≤ new.last) := by
  induction olds with
  | nil => simp [passedRanges, leftRanges]
  | cons old olds induction =>
      obtain ⟨properOld, properOlds⟩ := proper_cons.mp properOlds
      unfold passedRanges leftRanges
      split
      · simp only [covers_append, covers_cons, covers_nil]
        grind
      split
      · have later := induction properOlds
        simp only [List.cons_append, covers_cons]
        rw [later]
        grind
      · -- the two ranges overlap or touch, so the joined one is their union
        have joined : (min new.first old.first ≤ minor ∧
            minor ≤ max old.last new.last) ↔
            (old.first ≤ minor ∧ minor ≤ old.last) ∨
              (new.first ≤ minor ∧ minor ≤ new.last) := by
          omega
        simp only [List.nil_append, covers_cons, joined]
        grind

private theorem passed_left_proper {new : IndexRange}
    (proper : new.first ≤ new.last) (properOlds : Proper olds) :
    Proper (passedRanges new olds ++ leftRanges new olds) := by
  induction olds with
  | nil => simpa [passedRanges, leftRanges] using proper
  | cons old olds induction =>
      obtain ⟨properOld, properRest⟩ := proper_cons.mp properOlds
      unfold passedRanges leftRanges
      split
      · exact proper_cons.mpr ⟨proper, properOlds⟩
      split
      · exact proper_cons.mpr ⟨properOld, induction properRest⟩
      · refine proper_cons.mpr ⟨?_, properRest⟩
        dsimp only
        omega

theorem mergedRanges_covers (proper : Proper news) (properOlds : Proper olds) :
    Proper (mergedRanges news olds) ∧
      minorSet (mergedRanges news olds) = minorSet olds ∪ minorSet news := by
  induction news generalizing olds with
  | nil =>
      refine ⟨properOlds, ?_⟩
      ext minor
      simp [mergedRanges, minorSet]
  | cons new news induction =>
      obtain ⟨properNew, proper⟩ := proper_cons.mp proper
      have joined := passed_left_proper properNew properOlds
      obtain ⟨properPassed, properLeft⟩ := proper_append.mp joined
      obtain ⟨properLater, later⟩ := induction proper properLeft
      refine ⟨proper_append.mpr ⟨properPassed, properLater⟩, ?_⟩
      ext minor
      have here := @passed_left_covers _ new minor properOlds
      have there := Set.ext_iff.mp later minor
      simp only [minorSet, Set.mem_union, Set.mem_ofPred_eq, mergedRanges,
        covers_append, covers_cons] at here there ⊢
      rw [there]
      grind

theorem mergedRanges_apart_before
    (apart : Apart (before ++ mergedRanges news olds)) :
    Apart (before ++ olds) := by
  induction news generalizing before olds with
  | nil => exact apart
  | cons new news induction =>
      rw [mergedRanges, ← List.append_assoc] at apart
      exact apart_before (induction apart)

private theorem passed_below {new range : IndexRange}
    (member : range ∈ passedRanges new olds) :
    range = new ∨ range.last + 1 < new.first := by
  induction olds with
  | nil => exact .inl (by simpa [passedRanges] using member)
  | cons old olds induction =>
      unfold passedRanges at member
      split at member
      · exact .inl (List.mem_singleton.mp member)
      split at member
      · rename_i late
        rcases List.mem_cons.mp member with rfl | later
        · exact .inr late
        · exact induction later
      · simp at member

/-- One step of the merge between lists that stay canonical. -/
private structure Advances (before olds : IndexRanges) (new : IndexRange)
    (news : IndexRanges) : Prop where
  canonical : Canonical (before ++ passedRanges new olds ++ leftRanges new olds)
  beyond : ∀ range ∈ before ++ passedRanges new olds, ∀ later ∈ news,
    range.last + 1 < later.first
  covered : minorSet (before ++ passedRanges new olds ++ leftRanges new olds) =
    minorSet (before ++ olds) ∪ Set.Icc new.first new.last

private theorem advances {new : IndexRange}
    (requested : Canonical (new :: news))
    (canonical : Canonical (before ++ olds))
    (beyond : ∀ range ∈ before, ∀ later ∈ new :: news,
      range.last + 1 < later.first)
    (bridgeless : ¬ ClosesGap (minorSet (before ++ olds)) new) :
    Advances before olds new news := by
  obtain ⟨properNew, -⟩ := proper_cons.mp requested.proper
  obtain ⟨after, -⟩ := List.pairwise_cons.mp requested.apart
  obtain ⟨properBefore, properOlds⟩ := proper_append.mp canonical.proper
  have here : ∀ range ∈ before, range.last + 1 < new.first :=
    fun range member => beyond range member new (by simp)
  rw [← bridges_iff canonical] at bridgeless
  refine ⟨⟨?_, (apart_after canonical here).mpr bridgeless⟩, ?_, ?_⟩
  · rw [List.append_assoc]
    exact proper_append.mpr
      ⟨properBefore, passed_left_proper properNew properOlds⟩
  · intro range member later laterMember
    rcases List.mem_append.mp member with earlier | passed
    · exact beyond range earlier later (List.mem_cons_of_mem _ laterMember)
    · have apart := after later laterMember
      rcases passed_below passed with rfl | below
      · exact apart
      · omega
  · ext minor
    have joined := @passed_left_covers _ new minor properOlds
    rw [List.append_assoc]
    simp only [minorSet, Set.mem_union, Set.mem_ofPred_eq, Set.mem_Icc,
      covers_append] at joined ⊢
    rw [joined]
    grind

/-- The stored list stays canonical unless a requested range closes a gap. -/
theorem mergedRanges_apart (requested : Canonical news)
    (canonical : Canonical (before ++ olds))
    (beyond : ∀ range ∈ before, ∀ later ∈ news,
      range.last + 1 < later.first) :
    Apart (before ++ mergedRanges news olds) ↔
      ¬ ClosesGaps (minorSet (before ++ olds)) news := by
  induction news generalizing before olds with
  | nil => exact iff_of_true canonical.apart id
  | cons new news induction =>
      obtain ⟨properNew, proper⟩ := proper_cons.mp requested.proper
      obtain ⟨-, apart⟩ := List.pairwise_cons.mp requested.apart
      rw [mergedRanges, ← List.append_assoc, ClosesGaps, not_or]
      by_cases bridge : ClosesGap (minorSet (before ++ olds)) new
      · refine iff_of_false ?_ (fun bridgeless => bridgeless.1 bridge)
        intro apartAfter
        have here : ∀ range ∈ before, range.last + 1 < new.first :=
          fun range member => beyond range member new (by simp)
        exact (apart_after canonical here).mp
          (mergedRanges_apart_before apartAfter)
          ((bridges_iff canonical).mpr bridge)
      · have step := advances requested canonical beyond bridge
        rw [induction ⟨proper, apart⟩ step.canonical step.beyond, step.covered]
        exact (and_iff_right bridge).symm

private theorem newParts_within {new part : IndexRange}
    (member : part ∈ newParts new olds) :
    new.first ≤ part.first ∧ part.last ≤ new.last := by
  induction olds with
  | nil =>
      obtain rfl : part = new := by simpa [newParts] using member
      exact ⟨le_rfl, le_rfl⟩
  | cons old olds induction =>
      unfold newParts at member
      split at member
      · obtain rfl := List.mem_singleton.mp member
        exact ⟨le_rfl, le_rfl⟩
      split at member
      · exact induction member
      · rcases List.mem_append.mp member with front | back
        · split at front
          · obtain rfl := List.mem_singleton.mp front
            dsimp only
            omega
          · simp at front
        · split at back
          · obtain rfl := List.mem_singleton.mp back
            dsimp only
            omega
          · simp at back

private theorem countedRanges_within {part : IndexRange}
    (member : part ∈ countedRanges news olds) :
    ∃ new ∈ news, new.first ≤ part.first ∧ part.last ≤ new.last := by
  induction news generalizing olds with
  | nil => simp [countedRanges] at member
  | cons new news induction =>
      rcases List.mem_append.mp member with here | later
      · exact ⟨new, by simp, newParts_within here⟩
      · obtain ⟨other, otherMember, within⟩ := induction later
        exact ⟨other, List.mem_cons_of_mem _ otherMember, within⟩

theorem countedRanges_ordered (requested : Canonical news)
    (properOlds : Proper olds) :
    Proper (countedRanges news olds) ∧
      (countedRanges news olds).Pairwise fun left right =>
        left.last < right.first := by
  induction news generalizing olds with
  | nil => exact ⟨proper_nil, List.Pairwise.nil⟩
  | cons new news induction =>
      obtain ⟨properNew, proper⟩ := proper_cons.mp requested.proper
      obtain ⟨after, apart⟩ := List.pairwise_cons.mp requested.apart
      obtain ⟨properParts, orderedParts⟩ :=
        newParts_ordered properNew properOlds
      have properLeft :=
        (proper_append.mp (passed_left_proper properNew properOlds)).2
      obtain ⟨properLater, orderedLater⟩ :=
        induction ⟨proper, apart⟩ properLeft
      refine ⟨proper_append.mpr ⟨properParts, properLater⟩,
        List.pairwise_append.mpr ⟨orderedParts, orderedLater, ?_⟩⟩
      intro part partMember other otherMember
      obtain ⟨-, below⟩ := newParts_within partMember
      obtain ⟨later, laterMember, above, -⟩ :=
        countedRanges_within otherMember
      have := after later laterMember
      omega

theorem countedRanges_includes (properNews : Proper news)
    (properOlds : Proper olds) :
    minorSet news \ minorSet olds ⊆ minorSet (countedRanges news olds) := by
  induction news generalizing olds with
  | nil =>
      rintro minor ⟨⟨range, member, -⟩, -⟩
      simp at member
  | cons new news induction =>
      obtain ⟨properNew, properNews⟩ := proper_cons.mp properNews
      have properLeft :=
        (proper_append.mp (passed_left_proper properNew properOlds)).2
      rintro minor ⟨requested, absent⟩
      simp only [minorSet, Set.mem_ofPred_eq, countedRanges,
        covers_append] at requested absent ⊢
      by_cases here : new.first ≤ minor ∧ minor ≤ new.last
      · exact .inl (newParts_includes here absent)
      · refine .inr (induction properNews properLeft ⟨?_, ?_⟩)
        · exact (covers_cons.mp requested).resolve_left here
        · intro joined
          have := (@passed_left_covers _ new minor properOlds).mp
            (covers_append.mpr (.inr joined))
          exact this.elim absent here

/-- When no gap is closed, exactly what is requested and not stored is
counted. -/
theorem countedRanges_covers (requested : Canonical news)
    (canonical : Canonical (before ++ olds))
    (beyond : ∀ range ∈ before, ∀ later ∈ news,
      range.last + 1 < later.first)
    (bridgeless : ¬ ClosesGaps (minorSet (before ++ olds)) news) :
    minorSet (countedRanges news olds) =
      minorSet news \ minorSet (before ++ olds) := by
  induction news generalizing before olds with
  | nil =>
      ext minor
      simp [countedRanges, minorSet]
  | cons new news induction =>
      rw [ClosesGaps, not_or] at bridgeless
      obtain ⟨properNew, proper⟩ := proper_cons.mp requested.proper
      obtain ⟨after, apart⟩ := List.pairwise_cons.mp requested.apart
      have step := advances requested canonical beyond bridgeless.1
      have later := induction ⟨proper, apart⟩ step.canonical step.beyond
        (by rw [step.covered]; exact bridgeless.2)
      have here : ∀ range ∈ before, range.last + 1 < new.first :=
        fun range member => beyond range member new (by simp)
      have noBridge := bridgeless.1
      rw [← bridges_iff canonical] at noBridge
      ext minor
      have first := @newParts_covers new before olds canonical here noBridge
        minor
      rw [step.covered] at later
      have second := Set.ext_iff.mp later minor
      -- a minor of a later range is not one of this range
      have disjoint : Covers news minor →
          ¬ (new.first ≤ minor ∧ minor ≤ new.last) := by
        rintro ⟨range, member, above, -⟩
        have := after range member
        omega
      simp only [minorSet, Set.mem_sdiff, Set.mem_union, Set.mem_ofPred_eq,
        Set.mem_Icc, countedRanges, covers_append, covers_cons]
        at first second ⊢
      rw [first, second]
      grind

end Major

/-! ## Sets of indexes -/

/-- The indexes of one major. -/
def majorSet (major : ℕ) (minors : Set ℕ) : Set AddressIndex :=
  {index | index.majI = major ∧ index.minI ∈ minors}

/-- The minors that a set of indexes has at a major. -/
def minorsAt (indexes : Set AddressIndex) (major : ℕ) : Set ℕ :=
  {minor | ⟨major, minor⟩ ∈ indexes}

/-- The indexes that dictionaries denote. -/
def denoted (dicts : List SubaddressDict) : Set AddressIndex :=
  {index | ∃ dict ∈ dicts, dict.1 = index.majI ∧ Covers dict.2 index.minI}

/-- The indexes that `subaddress_ranges` holds for an account. -/
def stored (db : Db) (id : AccountId) : Set AddressIndex :=
  {index | db.InRanges id index}

/-- A requested range closes a gap when what comes before it is stored. -/
def BridgesGap : Set AddressIndex → List SubaddressDict → Prop
  | _, [] => False
  | stored, entry :: entries =>
      ClosesGaps (minorsAt stored entry.1) entry.2 ∨
        BridgesGap (stored ∪ majorSet entry.1 (minorSet entry.2)) entries

theorem encard_majorSet (major : ℕ) (minors : Set ℕ) :
    (majorSet major minors).encard = minors.encard := by
  have image : majorSet major minors =
      (fun minor => (⟨major, minor⟩ : AddressIndex)) '' minors := by
    ext index
    constructor
    · rintro ⟨rfl, member⟩
      exact ⟨index.minI, member, rfl⟩
    · rintro ⟨minor, member, rfl⟩
      exact ⟨rfl, member⟩
  rw [image]
  refine Function.Injective.encard_image ?_ minors
  intro left right same
  cases same
  rfl

theorem denoted_cons {entry : SubaddressDict}
    {entries : List SubaddressDict} :
    denoted (entry :: entries) =
      majorSet entry.1 (minorSet entry.2) ∪ denoted entries := by
  ext index
  simp [denoted, majorSet, minorSet, eq_comm]

theorem denoted_append {left right : List SubaddressDict} :
    denoted (left ++ right) = denoted left ∪ denoted right := by
  ext index
  simp [denoted, or_and_right, exists_or]

private theorem denoted_addOut {out : List SubaddressDict} {major : ℕ}
    {range : IndexRange} :
    denoted (addOut out major range) =
      denoted out ∪ majorSet major (minorSet [range]) := by
  have single : ∀ ranges : IndexRanges,
      denoted [(major, ranges)] = majorSet major (minorSet ranges) := by
    intro ranges
    rw [denoted_cons]
    simp [denoted]
  unfold addOut
  split
  · rename_i empty
    rw [List.getLast?_eq_none_iff.mp empty, single]
    simp [denoted]
  · rename_i last found
    split
    · rw [denoted_append, single]
    · rename_i same
      obtain ⟨front, rfl⟩ := List.getLast?_eq_some_iff.mp found
      obtain ⟨own, ranges⟩ := last
      obtain rfl : own = major := by simpa using same
      rw [List.dropLast_concat, denoted_append, denoted_append, single, single,
        Set.union_assoc]
      congr 1
      ext index
      simp only [majorSet, minorSet, Set.mem_union, Set.mem_ofPred_eq,
        covers_append]
      grind

private theorem denoted_foldl {out : List SubaddressDict} {major : ℕ}
    {ranges : IndexRanges} :
    denoted (ranges.foldl (fun out range => addOut out major range) out) =
      denoted out ∪ majorSet major (minorSet ranges) := by
  induction ranges generalizing out with
  | nil =>
      ext index
      simp [majorSet, minorSet]
  | cons range ranges induction =>
      rw [List.foldl_cons, induction, denoted_addOut, Set.union_assoc]
      congr 1
      ext index
      simp only [majorSet, minorSet, Set.mem_union, Set.mem_ofPred_eq,
        covers_cons, covers_nil]
      grind

/-! ## The loop over the majors -/

/-- The ranges stored for a major of an account. -/
def rangesAt (db : Db) (id : AccountId) (major : ℕ) : IndexRanges :=
  ((db.subaddressRanges.find? (toLex (id, major))).map
    fun row => row.2.2).getD []

/-- All ranges of an account satisfy `property`. -/
def EveryMajor (property : IndexRanges → Prop) (db : Db) (id : AccountId) :
    Prop :=
  ∀ row ∈ db.subaddressRanges, row.1 = id → property row.2.2

section Majors

variable {env : Env} {args : Upsert} {db next : Db}

theorem minorsAt_stored {id : AccountId} {major : ℕ} :
    minorsAt (db.stored id) major = minorSet (db.rangesAt id major) := by
  ext minor
  unfold rangesAt
  cases found : db.subaddressRanges.find? (toLex (id, major)) with
  | none =>
      have absent : ¬ db.InRanges id ⟨major, minor⟩ :=
        not_inRanges_of_find found
      simpa [minorsAt, stored, minorSet] using absent
  | some row =>
      have covered : db.InRanges id ⟨major, minor⟩ ↔ Covers row.2.2 minor :=
        inRanges_of_find found
      simpa [minorsAt, stored, minorSet] using covered

theorem rangesAt_of_every {property : IndexRanges → Prop} {id : AccountId}
    {major : ℕ} (every : db.EveryMajor property id) (empty : property []) :
    property (db.rangesAt id major) := by
  unfold rangesAt
  cases found : db.subaddressRanges.find? (toLex (id, major)) with
  | none => exact empty
  | some row =>
      obtain ⟨member, keyed⟩ := SortedRows.find?_eq_some.mp found
      have owner : row.1 = id := by
        have := congrArg (fun key => (ofLex key).1) keyed
        simpa [subaddressRangesKey] using this
      exact every row member owner

/-- After a major is stored, its ranges are the merged ones and the others
are those from before. -/
theorem everyMajor_store {property : IndexRanges → Prop} {major : ℕ}
    {newDict : IndexRanges} :
    (args.store env db major newDict).EveryMajor property args.id ↔
      property newDict ∧ ∀ row ∈ db.subaddressRanges, row.1 = args.id →
        row.2.1 ≠ major → property row.2.2 := by
  unfold EveryMajor
  simp only [Upsert.store, SortedRows.mem_put, subaddressRangesKey]
  constructor
  · intro every
    refine ⟨every _ (.inl rfl) rfl, ?_⟩
    intro row member owner different
    refine every row (.inr ⟨member, ?_⟩) owner
    intro same
    apply different
    simpa [owner] using same
  · rintro ⟨here, elsewhere⟩ row (rfl | ⟨member, different⟩) owner
    · exact here
    · refine elsewhere row member owner ?_
      intro same
      exact different (by rw [owner, same])

theorem major_counted {count : ℕ} {out : List SubaddressDict}
    {entry : SubaddressDict} (checked : checkSubaddressDict entry = true)
    (within : count ≤ args.maxSubaddr) :
    (count + rangesSize (countedRanges entry.2 (db.rangesAt args.id entry.1)) ≤
        args.maxSubaddr ∧
      ∃ reported, args.major env db count out entry =
          (.ok (count + rangesSize
              (countedRanges entry.2 (db.rangesAt args.id entry.1)), reported),
            args.store env db entry.1
              (mergedRanges entry.2 (db.rangesAt args.id entry.1))) ∧
        denoted reported = denoted out ∪ majorSet entry.1
          (minorSet (countedRanges entry.2 (db.rangesAt args.id entry.1)))) ∨
    (args.maxSubaddr < count +
        rangesSize (countedRanges entry.2 (db.rangesAt args.id entry.1)) ∧
      (args.major env db count out entry).1 = .error .maxSubaddresses) := by
  unfold Upsert.major rangesAt
  rw [checked]
  cases found : db.subaddressRanges.find? (toLex (args.id, entry.1)) with
  | none =>
      simp only [Option.map_none, Option.getD_none, countedRanges_nil,
        mergedRanges_nil]
      rw [checkMaxRanges_eq within]
      by_cases fits : count + rangesSize entry.2 ≤ args.maxSubaddr
      · refine .inl ⟨fits, out ++ [entry], by simp [fits], ?_⟩
        rw [denoted_append, denoted_cons]
        simp [denoted]
      · exact .inr ⟨by omega, by simp [fits]⟩
  | some old =>
      simp only [Option.map_some, Option.getD_some]
      rw [mergeRanges_eq, checkMaxRanges_eq within]
      by_cases fits : count + rangesSize (countedRanges entry.2 old.2.2) ≤
          args.maxSubaddr
      · refine .inl ⟨fits, (countedRanges entry.2 old.2.2).foldl
          (fun out range => addOut out entry.1 range) out, ?_, denoted_foldl⟩
        -- the row taken out before the merge is the one stored after it
        have row := SortedRows.put_erase db.subaddressRanges
          (args.id, (entry.1, mergedRanges entry.2 old.2.2))
        simp only [fits, Bool.not_true, Bool.false_eq_true, ↓reduceIte,
          Option.map_some, List.nil_append, Upsert.store, ← row]
        rfl
      · exact .inr ⟨by omega, by simp [fits]⟩

theorem stored_store {entry : SubaddressDict} (proper : Proper entry.2)
    (properRows : db.EveryMajor Proper args.id) :
    (args.store env db entry.1
        (mergedRanges entry.2 (db.rangesAt args.id entry.1))).stored args.id =
      db.stored args.id ∪ majorSet entry.1 (minorSet entry.2) := by
  obtain ⟨-, covered⟩ := mergedRanges_covers proper
    (rangesAt_of_every properRows proper_nil)
  ext index
  have here := Set.ext_iff.mp covered index.minI
  have old := Set.ext_iff.mp
    (@minorsAt_stored db args.id entry.1) index.minI
  simp only [stored, majorSet, minorsAt, minorSet, Set.mem_union,
    Set.mem_ofPred_eq] at here old ⊢
  rw [RangesKept.inRanges_store, here, ← old]
  by_cases same : index.majI = entry.1
  · have index_eq : (⟨entry.1, index.minI⟩ : AddressIndex) = index := by
      rw [← same]
    rw [index_eq]
    grind
  · grind

private theorem everyMajor_proper {entry : SubaddressDict}
    (proper : Proper entry.2) (properRows : db.EveryMajor Proper args.id) :
    (args.store env db entry.1 (mergedRanges entry.2
      (db.rangesAt args.id entry.1))).EveryMajor Proper args.id :=
  everyMajor_store.mpr
    ⟨(mergedRanges_covers proper
        (rangesAt_of_every properRows proper_nil)).1,
      fun row member owner _ => properRows row member owner⟩

private theorem canonical_nil : Canonical [] :=
  ⟨proper_nil, List.Pairwise.nil⟩

private theorem added_eq {entry : SubaddressDict} :
    majorSet entry.1 (minorSet entry.2) \ db.stored args.id =
      majorSet entry.1
        (minorSet entry.2 \ minorSet (db.rangesAt args.id entry.1)) := by
  ext index
  have old := Set.ext_iff.mp
    (@minorsAt_stored db args.id entry.1) index.minI
  simp only [majorSet, minorsAt, Set.mem_sdiff, Set.mem_ofPred_eq] at old ⊢
  rw [← old]
  by_cases same : index.majI = entry.1
  · have index_eq : (⟨entry.1, index.minI⟩ : AddressIndex) = index := by
      rw [← same]
    rw [index_eq]
    grind
  · grind

private theorem added_le {entry : SubaddressDict} (proper : Proper entry.2)
    (properRows : db.EveryMajor Proper args.id) :
    (majorSet entry.1 (minorSet entry.2) \ db.stored args.id).encard ≤
      rangesSize (countedRanges entry.2 (db.rangesAt args.id entry.1)) := by
  rw [added_eq, encard_majorSet]
  refine le_trans (Set.encard_le_encard ?_) (encard_minorSet_le _)
  exact countedRanges_includes proper
    (rangesAt_of_every properRows proper_nil)

private theorem encard_denoted_cons {entry : SubaddressDict}
    {entries : List SubaddressDict} {known : Set AddressIndex} :
    (denoted (entry :: entries) \ known).encard =
      (majorSet entry.1 (minorSet entry.2) \ known).encard +
        (denoted entries \
          (known ∪ majorSet entry.1 (minorSet entry.2))).encard := by
  rw [← Set.encard_union_eq]
  · congr 1
    ext index
    simp only [denoted_cons, Set.mem_sdiff, Set.mem_union]
    grind
  · rw [Set.disjoint_left]
    rintro index ⟨here, -⟩ ⟨-, elsewhere⟩
    exact elsewhere (.inr here)

theorem majors_overflow {entries : List SubaddressDict} {count : ℕ}
    {out : List SubaddressDict}
    (checked : ∀ entry ∈ entries, checkSubaddressDict entry = true)
    (within : count ≤ args.maxSubaddr)
    (properRows : db.EveryMajor Proper args.id)
    (overflow : (args.maxSubaddr : ℕ∞) <
      count + (denoted entries \ db.stored args.id).encard) :
    (args.majors env entries count out db).1 = .error .maxSubaddresses := by
  induction entries generalizing db count out with
  | nil =>
      simp only [denoted, List.not_mem_nil, false_and, exists_false,
        Set.ofPred_false, Set.empty_sdiff, Set.encard_empty, add_zero,
        Nat.cast_lt] at overflow
      omega
  | cons entry entries induction =>
      have accepted := checked entry (by simp)
      have proper := (checkSubaddressDict_iff.mp accepted).proper
      rw [Upsert.majors]
      rcases @major_counted env args db count out entry accepted within with
        ⟨fits, reported, passed, -⟩ | ⟨-, failed⟩
      · rw [passed]
        refine induction (fun other member =>
          checked other (List.mem_cons_of_mem _ member)) fits
          (everyMajor_proper proper properRows) ?_
        rw [stored_store proper properRows]
        refine overflow.trans_le ?_
        rw [encard_denoted_cons, ← add_assoc, Nat.cast_add]
        refine add_le_add (add_le_add le_rfl ?_) le_rfl
        exact added_le proper properRows
      · cases passed : args.major env db count out entry with
        | mk outcome middle =>
            obtain rfl : outcome = .error .maxSubaddresses := by
              rwa [passed] at failed
            rfl

/-- When no gap is closed and all fits, the union is stored and the difference
reported. -/
theorem majors_fit {entries : List SubaddressDict} {count : ℕ}
    {out : List SubaddressDict}
    (checked : ∀ entry ∈ entries, checkSubaddressDict entry = true)
    (canonical : db.EveryMajor Canonical args.id)
    (bridgeless : ¬ BridgesGap (db.stored args.id) entries)
    (fits : (count + (denoted entries \ db.stored args.id).encard : ℕ∞) ≤
      args.maxSubaddr) :
    ∃ next reported,
      args.majors env entries count out db = (.ok reported, next) ∧
      next.EveryMajor Canonical args.id ∧
      next.stored args.id = db.stored args.id ∪ denoted entries ∧
      denoted reported =
        denoted out ∪ (denoted entries \ db.stored args.id) := by
  induction entries generalizing db count out with
  | nil =>
      refine ⟨db, out, rfl, canonical, ?_, ?_⟩
      · simp [denoted]
      · simp [denoted]
  | cons entry entries induction =>
      have accepted := checked entry (by simp)
      have requested := checkSubaddressDict_iff.mp accepted
      have properRows : db.EveryMajor Proper args.id :=
        fun row member owner => (canonical row member owner).proper
      have olds : Canonical (db.rangesAt args.id entry.1) :=
        rangesAt_of_every canonical canonical_nil
      rw [BridgesGap, not_or, minorsAt_stored] at bridgeless
      rw [encard_denoted_cons, ← add_assoc] at fits
      have counted : minorSet (countedRanges entry.2
          (db.rangesAt args.id entry.1)) =
            minorSet entry.2 \ minorSet (db.rangesAt args.id entry.1) :=
        @countedRanges_covers _ _ [] requested olds (by simp) bridgeless.1
      obtain ⟨properParts, ordered⟩ :=
        countedRanges_ordered requested olds.proper
      -- what is counted is what the entry adds
      have size : (majorSet entry.1 (minorSet entry.2) \
          db.stored args.id).encard =
            rangesSize (countedRanges entry.2
              (db.rangesAt args.id entry.1)) := by
        rw [added_eq, encard_majorSet, ← encard_minorSet properParts ordered,
          counted]
      rw [size, ← Nat.cast_add] at fits
      have room := le_self_add.trans fits
      rw [Nat.cast_le] at room
      have merged : Canonical (mergedRanges entry.2
          (db.rangesAt args.id entry.1)) :=
        ⟨(mergedRanges_covers requested.proper olds.proper).1,
          (@mergedRanges_apart _ _ [] requested olds
            (by simp)).mpr bridgeless.1⟩
      rcases @major_counted env args db count out entry accepted (by omega)
        with ⟨-, reported, passed, added⟩ | ⟨full, -⟩
      · have kept : (args.store env db entry.1 (mergedRanges entry.2
            (db.rangesAt args.id entry.1))).EveryMajor Canonical args.id :=
          everyMajor_store.mpr ⟨merged,
            fun row member owner _ => canonical row member owner⟩
        have union := @stored_store env args db entry requested.proper
          properRows
        obtain ⟨next, final, success, canonicalNext, storedNext, denotedNext⟩ :=
          @induction _ (count + rangesSize (countedRanges entry.2
              (db.rangesAt args.id entry.1))) reported
            (fun other member =>
              checked other (List.mem_cons_of_mem _ member)) kept
            (by rw [union]; exact bridgeless.2)
            (by rw [union]; exact fits)
        refine ⟨next, final, ?_, canonicalNext, ?_, ?_⟩
        · rw [Upsert.majors, passed]
          exact success
        · rw [storedNext, union, denoted_cons, Set.union_assoc]
        · have difference : majorSet entry.1 (minorSet (countedRanges entry.2
              (db.rangesAt args.id entry.1))) =
                majorSet entry.1 (minorSet entry.2) \ db.stored args.id := by
            rw [added_eq, counted]
          rw [denotedNext, added, union, difference, denoted_cons]
          ext index
          simp only [Set.mem_union, Set.mem_sdiff]
          grind
      · omega

/-- When the ranges are canonical afterwards, they were before and no gap was
closed. -/
theorem majors_bridgeless {entries : List SubaddressDict} {count : ℕ}
    {out reported : List SubaddressDict}
    (checked : ∀ entry ∈ entries, checkSubaddressDict entry = true)
    (within : count ≤ args.maxSubaddr)
    (properRows : db.EveryMajor Proper args.id)
    (success : args.majors env entries count out db = (.ok reported, next))
    (canonical : next.EveryMajor Canonical args.id) :
    db.EveryMajor Canonical args.id ∧
      ¬ BridgesGap (db.stored args.id) entries := by
  induction entries generalizing db count out with
  | nil =>
      cases success
      exact ⟨canonical, id⟩
  | cons entry entries induction =>
      have accepted := checked entry (by simp)
      have requested := checkSubaddressDict_iff.mp accepted
      rw [Upsert.majors] at success
      rcases @major_counted env args db count out entry accepted within with
        ⟨fits, between, passed, -⟩ | ⟨-, failed⟩
      · rw [passed] at success
        obtain ⟨middle, later⟩ := induction (fun other member =>
          checked other (List.mem_cons_of_mem _ member)) fits
          (everyMajor_proper requested.proper properRows) success
        obtain ⟨merged, others⟩ := everyMajor_store.mp middle
        have properOlds : Proper (db.rangesAt args.id entry.1) :=
          rangesAt_of_every properRows proper_nil
        have olds : Canonical (db.rangesAt args.id entry.1) :=
          ⟨properOlds, @mergedRanges_apart_before entry.2 _ [] merged.apart⟩
        rw [stored_store requested.proper properRows] at later
        refine ⟨?_, ?_⟩
        · intro row member owner
          by_cases same : row.2.1 = entry.1
          · have found : db.subaddressRanges.find?
                (toLex (args.id, entry.1)) = some row := by
              refine SortedRows.find?_eq_some.mpr ⟨member, ?_⟩
              rw [← owner, ← same]
              rfl
            have here : db.rangesAt args.id entry.1 = row.2.2 := by
              rw [rangesAt, found]
              rfl
            rwa [here] at olds
          · exact others row member owner same
        · rw [BridgesGap, not_or, minorsAt_stored]
          exact ⟨(@mergedRanges_apart entry.2 _ [] requested olds
            (by simp)).mp merged.apart, later⟩
      · cases passed : args.major env db count out entry with
        | mk outcome middle =>
            obtain rfl : outcome = .error .maxSubaddresses := by
              rwa [passed] at failed
            rw [passed] at success
            cases success

end Majors

/-! ## Upsert -/

/-- The tables of an account hold the same indexes, in canonical ranges and
under the keys of its address. -/
structure UpsertReady (env : Env) (args : Upsert) (db : Db) : Prop where
  canonical : db.EveryMajor Canonical args.id
  agree : ∀ index, db.InRanges args.id index ↔ db.InIndexes args.id index
  derived : ∀ row ∈ db.subaddressIndexes, row.1 = args.id →
    row.2.subaddress =
      row.2.index.getSpendPublic env args.address args.viewKey

theorem UpsertReady.encard_stored {env : Env} {args : Upsert} {db : Db}
    (ready : UpsertReady env args db) :
    (db.stored args.id).encard = db.subaddressCount args.id := by
  let rows := db.subaddressIndexes.rows.filter fun row => row.1 = args.id
  have mem_rows : ∀ row, row ∈ rows ↔
      row ∈ db.subaddressIndexes ∧ row.1 = args.id := by
    intro row
    simp only [rows, List.mem_filter, decide_eq_true_eq]
    rfl
  have distinct : (rows.map fun row => row.2.index).Nodup := by
    refine List.Nodup.map_on ?_ (db.subaddressIndexes.rows_nodup.filter _)
    intro left leftMember right rightMember same
    obtain ⟨leftStored, leftOwner⟩ := (mem_rows left).mp leftMember
    obtain ⟨rightStored, rightOwner⟩ := (mem_rows right).mp rightMember
    -- the index gives the key, and the key the row
    refine SortedRows.eq_of_key_eq leftStored rightStored ?_
    unfold subaddressIndexesKey
    rw [leftOwner, rightOwner, ready.derived left leftStored leftOwner,
      ready.derived right rightStored rightOwner, same]
  have indexes : db.stored args.id =
      ((rows.map fun row => row.2.index).toFinset : Set AddressIndex) := by
    ext index
    rw [Finset.mem_coe, List.mem_toFinset, List.mem_map]
    refine (ready.agree index).trans ?_
    constructor
    · rintro ⟨row, member, owner, same⟩
      exact ⟨row, (mem_rows row).mpr ⟨member, owner⟩, same⟩
    · rintro ⟨row, member, same⟩
      obtain ⟨member, owner⟩ := (mem_rows row).mp member
      exact ⟨row, member, owner, same⟩
  rw [indexes, Set.encard_coe_eq_coe_finsetCard,
    List.toFinset_card_of_nodup distinct, List.length_map]
  rfl

/-- `upsert_subaddresses` stores the union and reports the difference, or
fails for want of room. -/
structure UpsertsSets (env : Env) (args : Upsert)
    (subaddrs : List SubaddressDict) (db : Db) : Prop where
  fits : (db.stored args.id ∪ denoted subaddrs).encard ≤ args.maxSubaddr →
    ∃ next out,
      upsertSubaddresses env db args.id args.address args.viewKey subaddrs
        args.maxSubaddr = .ok (next, out) ∧
      next.EveryMajor Canonical args.id ∧
      next.stored args.id = db.stored args.id ∪ denoted subaddrs ∧
      denoted out = denoted subaddrs \ db.stored args.id
  overflows : args.maxSubaddr < (db.stored args.id ∪ denoted subaddrs).encard →
    upsertSubaddresses env db args.id args.address args.viewKey subaddrs
        args.maxSubaddr = .error .maxSubaddresses ∧
      after env db (.upsertSubaddresses args.id args.address args.viewKey
        subaddrs args.maxSubaddr) = db

section Upsert

variable {env : Env} {args : Upsert} {subaddrs : List SubaddressDict} {db : Db}

private theorem denoted_sorted (subaddrs : List SubaddressDict) :
    denoted (subaddrs.insertionSort SubaddressDict.le) = denoted subaddrs := by
  ext index
  simp [denoted, List.mem_insertionSort]

private theorem encard_union (ready : UpsertReady env args db) :
    (db.stored args.id ∪ denoted subaddrs).encard =
      db.subaddressCount args.id +
        (denoted subaddrs \ db.stored args.id).encard := by
  rw [← ready.encard_stored, ← Set.encard_union_eq Set.disjoint_sdiff_right,
    Set.union_sdiff_self]

private theorem upsertSubaddresses_eq_majors
    (within : db.subaddressCount args.id ≤ args.maxSubaddr) :
    upsertSubaddresses env db args.id args.address args.viewKey subaddrs
        args.maxSubaddr =
      match args.majors env (subaddrs.insertionSort SubaddressDict.le)
          (db.subaddressCount args.id) [] db with
      | (.error failure, _) => .error failure
      | (.ok out, next) => .ok (next, out) := by
  have guarded : doUpsert env args (subaddrs.insertionSort SubaddressDict.le)
      db = args.majors env (subaddrs.insertionSort SubaddressDict.le)
        (db.subaddressCount args.id) [] db := if_neg (Nat.not_lt.mpr within)
  rw [← guarded]
  rfl

private theorem upsert_overflows (ready : UpsertReady env args db)
    (checked : ∀ entry ∈ subaddrs, checkSubaddressDict entry = true)
    (overflow : args.maxSubaddr <
      (db.stored args.id ∪ denoted subaddrs).encard) :
    upsertSubaddresses env db args.id args.address args.viewKey subaddrs
      args.maxSubaddr = .error .maxSubaddresses := by
  by_cases within : db.subaddressCount args.id ≤ args.maxSubaddr
  · rw [upsertSubaddresses_eq_majors within]
    rw [encard_union ready, ← denoted_sorted subaddrs] at overflow
    have failed := @majors_overflow env args db
      (subaddrs.insertionSort SubaddressDict.le)
      (db.subaddressCount args.id) []
      (fun entry member => checked entry ((List.mem_insertionSort _).mp member))
      within (fun row member owner => (ready.canonical row member owner).proper)
      overflow
    cases result : args.majors env (subaddrs.insertionSort SubaddressDict.le)
        (db.subaddressCount args.id) [] db with
    | mk outcome next =>
        obtain rfl : outcome = .error .maxSubaddresses := by
          rwa [result] at failed
        rfl
  · unfold upsertSubaddresses doUpsert
    rw [if_pos (by simpa using within)]

/-- The call stores the union and reports the difference exactly when it
overflows or no requested range, in sorted order, closes a gap. -/
theorem upsert_sets_iff (ready : UpsertReady env args db)
    (checked : ∀ entry ∈ subaddrs, checkSubaddressDict entry = true) :
    UpsertsSets env args subaddrs db ↔
      args.maxSubaddr < (db.stored args.id ∪ denoted subaddrs).encard ∨
        ¬ BridgesGap (db.stored args.id)
          (subaddrs.insertionSort SubaddressDict.le) := by
  have sorted := denoted_sorted subaddrs
  have checkedSorted : ∀ entry ∈ subaddrs.insertionSort SubaddressDict.le,
      checkSubaddressDict entry = true :=
    fun entry member => checked entry ((List.mem_insertionSort _).mp member)
  have properRows : db.EveryMajor Proper args.id :=
    fun row member owner => (ready.canonical row member owner).proper
  have total := @encard_union env args subaddrs db ready
  have overflows := @upsert_overflows env args subaddrs db ready checked
  constructor
  · intro sets
    by_cases overflow : args.maxSubaddr <
        (db.stored args.id ∪ denoted subaddrs).encard
    · exact .inl overflow
    · obtain ⟨next, out, success, canonical, -, -⟩ :=
        sets.fits (not_lt.mp overflow)
      have within : db.subaddressCount args.id ≤ args.maxSubaddr := by
        rw [total, not_lt] at overflow
        exact_mod_cast le_self_add.trans overflow
      rw [upsertSubaddresses_eq_majors within] at success
      split at success
      · cases success
      · rename_i passed
        cases success
        exact .inr (majors_bridgeless checkedSorted within properRows passed
          canonical).2
  · intro condition
    refine ⟨?_, ?_⟩
    · intro fits
      have bridgeless := condition.resolve_left (not_lt.mpr fits)
      rw [total] at fits
      have within : db.subaddressCount args.id ≤ args.maxSubaddr := by
        exact_mod_cast le_self_add.trans fits
      rw [← sorted] at fits
      obtain ⟨next, out, success, canonical, union, difference⟩ :=
        @majors_fit env args db _ _ [] checkedSorted ready.canonical
          bridgeless fits
      refine ⟨next, out, ?_, canonical, ?_, ?_⟩
      · rw [upsertSubaddresses_eq_majors within, success]
      · rw [union, sorted]
      · rw [difference, sorted]
        simp [denoted]
    · intro overflow
      have failed := overflows overflow
      refine ⟨failed, ?_⟩
      simp only [after, apply, failed]
      rfl

end Upsert

private def gapUpsert : Upsert := ⟨1, sampleAddress, 7, 100⟩

/-- A database that holds the minors one and three of major zero. -/
private def gappedDb : Db :=
  (doUpsert sampleEnv gapUpsert [(0, [⟨1, 1⟩, ⟨3, 3⟩])] sampleDb).2

private theorem gappedDb_ranges {row : AccountId × SubaddressDict} :
    row ∈ gappedDb.subaddressRanges ↔ row = (1, (0, [⟨1, 1⟩, ⟨3, 3⟩])) := by
  have rows : gappedDb.subaddressRanges.rows =
      [(1, (0, [⟨1, 1⟩, ⟨3, 3⟩]))] := by
    decide
  rw [← SortedRows.mem_rows, rows, List.mem_singleton]

private theorem gappedDb_indexes {row : AccountId × SubaddressMap} :
    row ∈ gappedDb.subaddressIndexes ↔
      row = (1, ⟨9, ⟨0, 1⟩⟩) ∨ row = (1, ⟨11, ⟨0, 3⟩⟩) := by
  have rows : gappedDb.subaddressIndexes.rows =
      [(1, ⟨9, ⟨0, 1⟩⟩), (1, ⟨11, ⟨0, 3⟩⟩)] := by
    decide
  rw [← SortedRows.mem_rows, rows, List.mem_pair]

private theorem gappedDb_stored {index : AddressIndex} :
    index ∈ gappedDb.stored 1 ↔ index = ⟨0, 1⟩ ∨ index = ⟨0, 3⟩ := by
  obtain ⟨major, minor⟩ := index
  simp only [stored, Set.mem_ofPred_eq, InRanges, gappedDb_ranges,
    Prod.mk.injEq, AddressIndex.mk.injEq]
  constructor
  · rintro ⟨ranges, ⟨-, rfl, rfl⟩, covered⟩
    simp only [covers_cons, covers_nil, or_false] at covered
    omega
  · intro which
    refine ⟨[⟨1, 1⟩, ⟨3, 3⟩], ⟨trivial, by omega, rfl⟩, ?_⟩
    simp only [covers_cons, covers_nil, or_false]
    omega

private theorem gappedDb_ready : UpsertReady sampleEnv gapUpsert gappedDb where
  canonical := by
    intro row member _
    rw [gappedDb_ranges.mp member]
    exact checkSubaddressDict_iff.mp (by decide)
  agree := by
    intro index
    refine gappedDb_stored.trans ?_
    constructor
    · rintro (rfl | rfl)
      · exact ⟨_, gappedDb_indexes.mpr (.inl rfl), rfl, rfl⟩
      · exact ⟨_, gappedDb_indexes.mpr (.inr rfl), rfl, rfl⟩
    · rintro ⟨row, member, -, rfl⟩
      rcases gappedDb_indexes.mp member with rfl | rfl
      · exact .inl rfl
      · exact .inr rfl
  derived := by
    intro row member _
    rcases gappedDb_indexes.mp member with rfl | rfl <;> rfl

/-- A range that starts at a stored one and closes no gap. -/
theorem upsert_sets_past_gap :
    UpsertsSets sampleEnv gapUpsert [(0, [⟨3, 5⟩])] gappedDb := by
  refine (upsert_sets_iff gappedDb_ready (by decide)).mpr (.inr ?_)
  rintro ((⟨left, leftStored, right, rightStored, gap, missing, before,
    after, reached, -⟩ | none) | none)
  rotate_left
  · exact none
  · exact none
  have first := gappedDb_stored.mp leftStored
  have second := gappedDb_stored.mp rightStored
  simp only [AddressIndex.mk.injEq, true_and] at first second
  dsimp only at reached
  omega

/-- The index between two stored ones joins the first only, and the stored
ranges are adjacent. -/
theorem upsert_leaves_adjacent_ranges :
    ¬ ∀ (env : Env) (args : Upsert) (subaddrs : List SubaddressDict)
      (db : Db), UpsertReady env args db →
      (∀ entry ∈ subaddrs, checkSubaddressDict entry = true) →
      UpsertsSets env args subaddrs db := by
  intro always
  have sets := always sampleEnv gapUpsert [(0, [⟨2, 2⟩])] gappedDb
    gappedDb_ready (by decide)
  have few : (gappedDb.stored gapUpsert.id ∪
      denoted [(0, [⟨2, 2⟩])]).encard ≤ gapUpsert.maxSubaddr := by
    have within : gappedDb.stored gapUpsert.id ∪ denoted [(0, [⟨2, 2⟩])] ⊆
        majorSet 0 (minorSet [⟨1, 3⟩]) := by
      rintro index (old | new)
      · rcases gappedDb_stored.mp old with rfl | rfl
        · exact ⟨rfl, by simp [minorSet]⟩
        · exact ⟨rfl, by simp [minorSet]⟩
      · obtain ⟨dict, member, major, covered⟩ := new
        obtain rfl := List.mem_singleton.mp member
        refine ⟨major.symm, ?_⟩
        simp only [minorSet, Set.mem_ofPred_eq, covers_cons, covers_nil,
          or_false] at covered ⊢
        omega
    refine (Set.encard_le_encard within).trans ?_
    rw [encard_majorSet]
    refine (encard_minorSet_le _).trans ?_
    exact_mod_cast (by decide : rangesSize [⟨1, 3⟩] ≤ gapUpsert.maxSubaddr)
  obtain ⟨next, out, success, canonical, -⟩ := sets.fits few
  have rows : (doUpsert sampleEnv gapUpsert [(0, [⟨2, 2⟩])]
      gappedDb).2.subaddressRanges.rows = [(1, (0, [⟨1, 2⟩, ⟨3, 3⟩]))] := by
    decide
  have result : (doUpsert sampleEnv gapUpsert [(0, [⟨2, 2⟩])] gappedDb).2 =
      next := by
    unfold upsertSubaddresses at success
    split at success
    · cases success
    · rename_i passed
      cases success
      exact congrArg Prod.snd passed
  rw [result] at rows
  have adjacent := canonical (1, (0, [⟨1, 2⟩, ⟨3, 3⟩]))
    (by rw [← SortedRows.mem_rows, rows]; exact List.mem_singleton_self _) rfl
  exact absurd (checkSubaddressDict_iff.mpr adjacent) (by decide)

end XfoLws.Db
