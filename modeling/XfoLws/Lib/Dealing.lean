import Mathlib.Data.List.DropRight
import Mathlib.Data.List.Perm.Basic
import Mathlib.Tactic.Ring

/-!
# Dealing items to bins

Bins are lists in a list.  Dealing an item to an existing bin keeps every item
that was dealt and adds the new one; taking items from the back splits them,
and taking an even share for each bin leaves none.
-/

namespace Dealing

variable {α ι : Type}

/-- Put an item into the bin at `index`. -/
def deal (bins : List (List α)) (index : ℕ) (item : α) : List (List α) :=
  bins.modify index (· ++ [item])

@[simp] theorem length_deal (bins : List (List α)) (index : ℕ) (item : α) :
    (deal bins index item).length = bins.length := by
  simp [deal]

theorem deal_perm {bins : List (List α)} {index : ℕ}
    (inside : index < bins.length) (item : α) :
    (deal bins index item).flatten.Perm (item :: bins.flatten) := by
  induction bins generalizing index with
  | nil => cases inside
  | cons bin bins induction =>
      cases index with
      | zero =>
          simp [deal]
      | succ index =>
          have rest := induction (by simpa using inside)
          have moved : (bin ++ (deal bins index item).flatten).Perm
              (item :: (bin ++ bins.flatten)) :=
            (rest.append_left bin).trans List.perm_middle
          simpa [deal] using moved

/-- A fold that deals each of its items once deals all of them. -/
theorem foldl_perm {σ : Type} (bins : σ → List (List α)) (item : ι → α)
    (step : σ → ι → σ) (invariant : σ → Prop)
    (dealt : ∀ state next, invariant state → invariant (step state next) ∧
      (bins (step state next)).flatten.Perm
        (item next :: (bins state).flatten))
    {items : List ι} {start : σ} (initial : invariant start) :
    invariant (items.foldl step start) ∧
      (bins (items.foldl step start)).flatten.Perm
        (items.map item ++ (bins start).flatten) := by
  induction items generalizing start with
  | nil => exact ⟨initial, .refl _⟩
  | cons head rest induction =>
      obtain ⟨kept, once⟩ := dealt start head initial
      obtain ⟨final, others⟩ := induction kept
      refine ⟨final, others.trans ?_⟩
      rw [List.map_cons]
      exact (once.append_left _).trans List.perm_middle

/-- Both parts of a list split near its end. -/
theorem rtake_rdrop_perm (items : List α) (count : ℕ) :
    (items.rtake count ++ items.rdrop count).Perm items := by
  have split : items.rdrop count ++ items.rtake count = items :=
    List.take_append_drop _ _
  exact List.perm_append_comm.trans (.of_eq split)

/-! ## Even division -/

/-- The parts for the bins that remain, each taken from the back. -/
def divideEvenly : ℕ → List α → List (List α)
  | 0, _ => []
  | bins + 1, items =>
      let count := items.length / (bins + 1)
      items.rtake count :: divideEvenly bins (items.rdrop count)

@[simp] theorem length_divideEvenly (bins : ℕ) (items : List α) :
    (divideEvenly bins items).length = bins := by
  induction bins generalizing items with
  | zero => rfl
  | succ bins induction => simp [divideEvenly, induction]

/-- Every item is in one part. -/
theorem divideEvenly_perm {bins : ℕ} (some : 0 < bins) (items : List α) :
    (divideEvenly bins items).flatten.Perm items := by
  induction bins generalizing items with
  | zero => cases some
  | succ bins induction =>
      rw [divideEvenly, List.flatten_cons]
      rcases Nat.eq_zero_or_pos bins with rfl | more
      · -- the last bin takes all that is left
        simp [divideEvenly, List.rtake]
      · exact ((induction more _).append_left _).trans
          (rtake_rdrop_perm items _)

private theorem next_part {count bins index : ℕ} (inside : index < bins) :
    (count - count / (bins + 1)) / bins +
        (if bins - (count - count / (bins + 1)) % bins ≤ index then 1
          else 0) =
      count / (bins + 1) +
        if bins + 1 - count % (bins + 1) ≤ index + 1 then 1 else 0 := by
  have split := Nat.div_add_mod count (bins + 1)
  have below := Nat.mod_lt count (Nat.succ_pos bins)
  generalize count / (bins + 1) = share at split ⊢
  generalize count % (bins + 1) = extra at split below ⊢
  have left : count - share = bins * share + extra := by
    rw [← split, Nat.add_mul, Nat.one_mul]
    omega
  rw [left]
  by_cases short : extra < bins
  · rw [Nat.mul_add_div (by omega), Nat.mul_add_mod, Nat.div_eq_of_lt short,
      Nat.mod_eq_of_lt short, Nat.add_zero]
    congr 2
    simp only [eq_iff_iff]
    omega
  · -- the extra items make up one more share for everyone
    obtain rfl : extra = bins := by omega
    have whole : extra * share + extra = extra * (share + 1) := by ring
    rw [whole, Nat.mul_div_cancel_left _ (by omega), Nat.mul_mod_right,
      if_neg (by omega), if_pos (by omega)]

/-- The first parts are the smaller ones, by one item. -/
theorem length_part {bins : ℕ} {items part : List α} {index : ℕ}
    (found : (divideEvenly bins items)[index]? = some part) :
    part.length = items.length / bins +
      if bins - items.length % bins ≤ index then 1 else 0 := by
  induction bins generalizing items index with
  | zero => simp [divideEvenly] at found
  | succ bins induction =>
      cases index with
      | zero =>
          have below : items.length % (bins + 1) < bins + 1 :=
            Nat.mod_lt _ (Nat.succ_pos bins)
          have most := Nat.div_le_self items.length (bins + 1)
          simp only [divideEvenly, List.getElem?_cons_zero,
            Option.some.injEq] at found
          subst found
          rw [if_neg (by omega), List.rtake, List.length_drop]
          exact Nat.sub_sub_self most
      | succ index =>
          simp only [divideEvenly, List.getElem?_cons_succ] at found
          have inside : index < bins := by
            have bound := (List.getElem?_eq_some_iff.mp found).1
            simpa using bound
          rw [induction found]
          have left : (items.rdrop (items.length / (bins + 1))).length =
              items.length - items.length / (bins + 1) := by
            simp [List.rdrop]
          rw [left]
          exact next_part inside

end Dealing
