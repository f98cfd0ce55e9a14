import XfoLws.Util.GammaPicker

/-!
# Proposed indexes

Which of the proposed indexes are spendable.  `triangular_pick` rejects a draw
above the number of unlocked outputs, and so keeps the one that equals it.
-/

namespace XfoLws.Util

/-! ## Triangular picks -/

/-- The index that a draw scales to. -/
def scaledDraw (env : PickEnv) (hist : Histogram) (r : ℕ) : ℕ :=
  env.triangular (r % 2 ^ 53) hist.totalCount

/-- Wherever a draw scales to the bound itself, as many draws as are wanted
scale below it earlier. -/
def DrawsBelow (scaled : ℕ → ℕ) (bound wanted : ℕ) (draws : List ℕ) : Prop :=
  ∀ earlier r later, draws = earlier ++ r :: later → scaled r = bound →
    wanted ≤ earlier.countP fun other => scaled other < bound

section

variable {env : PickEnv} {hist : Histogram} {scaled : ℕ → ℕ}
  {amount bound wanted count r : ℕ} {draws next : List ℕ} {refs : List OutputRef}

theorem drawsBelow_zero : DrawsBelow scaled bound 0 draws :=
  fun _ _ _ _ _ => Nat.zero_le _

theorem drawsBelow_nil : DrawsBelow scaled bound wanted [] := by
  intro earlier r later split
  simp at split

theorem drawsBelow_cons_above (above : bound < scaled r) :
    DrawsBelow scaled bound wanted (r :: draws) ↔
      DrawsBelow scaled bound wanted draws := by
  have skipped : ¬ scaled r < bound := by omega
  constructor
  · intro below earlier other later split exact
    have here := below (r :: earlier) other later (by simp [split]) exact
    rwa [List.countP_cons_of_neg (by simpa using skipped)] at here
  · rintro below (- | ⟨head, earlier⟩) other later split same
    · obtain ⟨rfl, -⟩ := List.cons.inj split
      omega
    · obtain ⟨rfl, tail⟩ := List.cons.inj split
      rw [List.countP_cons_of_neg (by simpa using skipped)]
      exact below earlier other later tail same

theorem drawsBelow_cons_below (below : scaled r < bound) :
    DrawsBelow scaled bound (wanted + 1) (r :: draws) ↔
      DrawsBelow scaled bound wanted draws := by
  constructor
  · intro all earlier other later split same
    have here := all (r :: earlier) other later (by simp [split]) same
    rw [List.countP_cons_of_pos (by simpa using below)] at here
    omega
  · rintro all (- | ⟨head, earlier⟩) other later split same
    · obtain ⟨rfl, -⟩ := List.cons.inj split
      omega
    · obtain ⟨rfl, tail⟩ := List.cons.inj split
      rw [List.countP_cons_of_pos (by simpa using below)]
      have here := all earlier other later tail same
      omega

theorem not_drawsBelow_cons (here : scaled r = bound) :
    ¬ DrawsBelow scaled bound (wanted + 1) (r :: draws) := by
  intro below
  have none_before := below [] r draws rfl here
  simp at none_before

/-- A pick drops draws above the bound and takes the next one. -/
theorem triangularIndex_cons :
    triangularIndex env.triangular hist (r :: draws) =
      if hist.unlockedCount < scaledDraw env hist r then
        triangularIndex env.triangular hist draws
      else .ok (scaledDraw env hist r, draws) := rfl

/-- The picks are below the bound exactly when no draw that was taken scales to
it. -/
theorem pickEach_below_iff
    (picked : pickEach (triangularIndex env.triangular hist) amount count draws =
      .ok (refs, next)) :
    (∀ ref ∈ refs, ref.index < hist.unlockedCount) ↔
      DrawsBelow (scaledDraw env hist) hist.unlockedCount count draws := by
  induction draws generalizing count refs with
  | nil =>
      refine iff_of_true ?_ drawsBelow_nil
      cases count with
      | zero =>
          cases picked
          simp
      | succ count => cases picked
  | cons r draws induction =>
      cases count with
      | zero =>
          cases picked
          exact iff_of_true (by simp) drawsBelow_zero
      | succ count =>
          obtain ⟨⟨index, rest⟩, first, others⟩ := Outcome.bind_eq_ok.mp picked
          rw [triangularIndex_cons] at first
          split at first
          · rename_i above
            rw [drawsBelow_cons_above above]
            refine induction (Outcome.bind_eq_ok.mpr ⟨_, first, others⟩)
          · rename_i kept
            cases first
            obtain ⟨⟨later, final⟩, more, others⟩ := Outcome.bind_eq_ok.mp others
            cases others
            rw [List.forall_mem_cons]
            rcases (not_lt.mp kept).lt_or_eq with below | here
            · rw [drawsBelow_cons_below below, induction more]
              exact and_iff_right below
            · refine iff_of_false ?_ (not_drawsBelow_cons here)
              rintro ⟨less, -⟩
              exact absurd here less.ne

theorem pickAll_below : ∀ ref ∈ pickAll count amount, ref.index < count := by
  intro ref member
  obtain ⟨index, listed, rfl⟩ := List.mem_map.mp member
  exact List.mem_range.mp listed

theorem triangularPick_below_iff
    (picked : triangularPick env count hist draws = .ok (refs, next)) :
    (∀ ref ∈ refs, ref.index < hist.unlockedCount) ↔
      hist.unlockedCount = count ∨
        DrawsBelow (scaledDraw env hist) hist.unlockedCount count draws := by
  unfold triangularPick at picked
  split at picked
  · cases picked
  split at picked
  · cases picked
  split at picked
  · rename_i all
    cases picked
    exact iff_of_true (all ▸ pickAll_below) (.inl all)
  · rename_i fewer
    rw [pickEach_below_iff picked]
    exact (or_iff_right fewer).symm

end

/-! ## Gamma picks -/

/-- The calls of the picker in `gamma_pick`. -/
def GammaPicker.picks (pickRct : GammaPicker) :
    ℕ → List GammaDraw → Except GammaError (List ℕ)
  | 0, _ => .ok []
  | count + 1, draws => do
      let (index, draws) ← pickRct.pick draws
      let rest ← pickRct.picks count draws
      .ok (index :: rest)

section

variable {env : PickEnv} {pickRct : GammaPicker} {count amount : ℕ}
  {draws : List GammaDraw} {indexes rest : List ℕ} {refs : List OutputRef}

theorem GammaPicker.picks_below (usable : pickRct.Usable) (below : pickRct.BlocksBelow)
    (picked : pickRct.picks count draws = .ok indexes) :
    ∀ index ∈ indexes, index < pickRct.spendableUpperBound := by
  induction count generalizing draws indexes with
  | zero =>
      cases picked
      simp
  | succ count induction =>
      obtain ⟨⟨index, later⟩, first, picked⟩ := Outcome.bind_eq_ok.mp picked
      obtain ⟨others, more, picked⟩ := Outcome.bind_eq_ok.mp picked
      cases picked
      rw [GammaPicker.pick, if_neg (not_not.mpr usable.isValid)] at first
      obtain ⟨outputIndex, offset, wanted, inside⟩ := usable.attempts_ok first
      exact List.forall_mem_cons.mpr ⟨inside.lt_bound below wanted, induction more⟩

theorem pickEach_gamma_mem
    (picked : pickEach gammaIndex amount count indexes = .ok (refs, rest)) :
    ∀ ref ∈ refs, ref.index ∈ indexes := by
  induction count generalizing indexes refs with
  | zero =>
      cases picked
      simp
  | succ count induction =>
      cases indexes with
      | nil => cases picked
      | cons index indexes =>
          obtain ⟨_, first, picked⟩ := Outcome.bind_eq_ok.mp picked
          cases first
          obtain ⟨⟨later, final⟩, more, picked⟩ := Outcome.bind_eq_ok.mp picked
          cases picked
          refine List.forall_mem_cons.mpr ⟨List.mem_cons_self, ?_⟩
          exact fun ref member => List.mem_cons_of_mem _ (induction more ref member)

theorem gammaPick_below (below : 1 < env.pickRct.spendableUpperBound →
      ∀ index ∈ indexes, index < env.pickRct.spendableUpperBound)
    (picked : gammaPick env count indexes = .ok (refs, rest)) :
    ∀ ref ∈ refs, ref.index < env.pickRct.spendableUpperBound := by
  unfold gammaPick at picked
  dsimp only at picked
  split at picked
  · cases picked
  split at picked
  · cases picked
  split at picked
  · rename_i all
    cases picked
    exact all ▸ pickAll_below
  · rename_i enough fewer
    intro ref member
    have drawn := pickEach_gamma_mem picked ref member
    have length := (pickEach_ok picked).1
    have some_wanted := List.length_pos_of_mem member
    exact below (by omega) ref.index drawn

/-- A block that ends above the bound is picked from at its end. -/
theorem GammaPicker.picks_last (usable : pickRct.Usable) {outputIndex offset : ℕ}
    (wanted : outputIndex < pickRct.spendableUpperBound)
    (selected : pickRct.Selected outputIndex (pickRct.selection outputIndex) offset)
    (above : pickRct.spendableUpperBound < offset) :
    ∃ draws, pickRct.picks 1 draws = .ok [offset - 1] := by
  have first := selected.first
  let draw : GammaDraw :=
    ⟨pickRct.spendableUpperBound - 1 - outputIndex,
      offset - 1 - pickRct.firstRct (pickRct.selection outputIndex)⟩
  have below : draw.outputIndex < pickRct.spendableUpperBound := by
    simp only [draw]
    omega
  have drawn : pickRct.spendableUpperBound - 1 - draw.outputIndex = outputIndex := by
    simp only [draw]
    omega
  have nonempty :
      pickRct.firstRct (pickRct.selection outputIndex) ≠ offset := by omega
  have last : pickRct.firstRct (pickRct.selection outputIndex) +
      draw.random % (offset - pickRct.firstRct (pickRct.selection outputIndex)) =
        offset - 1 := by
    rw [Nat.mod_eq_of_lt (by simp only [draw]; omega)]
    simp only [draw]
    omega
  have attempted := usable.attempt_eq below drawn rfl selected
  rw [if_neg nonempty, last] at attempted
  refine ⟨[draw], ?_⟩
  simp [GammaPicker.picks, GammaPicker.pick, usable.isValid, GammaPicker.attempts,
    attempted, bind, Except.bind]

theorem gammaPicks_below_iff (age : 0 < env.pickRct.spendableAge)
    (words : ∀ offset ∈ env.pickRct.rctOffsets, offset < 2 ^ 64) :
    (∀ count draws indexes refs rest,
      env.pickRct.picks count draws = .ok indexes →
        gammaPick env count indexes = .ok (refs, rest) →
          ∀ ref ∈ refs, ref.index < env.pickRct.spendableUpperBound) ↔
      (1 < env.pickRct.spendableUpperBound → env.pickRct.BlocksBelow) := by
  by_cases valid : env.pickRct.isValid = true
  · have usable : env.pickRct.Usable := by
      have long : env.pickRct.spendableAge - 1 < env.pickRct.rctOffsets.length := by
        simpa [GammaPicker.isValid] using valid
      exact ⟨age, by omega, words⟩
    constructor
    · intro all several outputIndex wanted
      obtain ⟨offset, selected⟩ := usable.selected wanted
      have here : env.pickRct.rctOffsets.getD
          (env.pickRct.selection outputIndex) 0 = offset := by
        rw [List.getD_eq_getElem?_getD, selected.stored]
        rfl
      show env.pickRct.rctOffsets.getD (env.pickRct.selection outputIndex) 0 ≤ _
      rw [here]
      by_contra above
      obtain ⟨draws, picked⟩ := GammaPicker.picks_last usable wanted selected
        (not_le.mp above)
      have proposed : gammaPick env 1 [offset - 1] = .ok ([⟨0, offset - 1⟩], []) := by
        simp [gammaPick, valid, show ¬ env.pickRct.spendableUpperBound < 1 by omega,
          several.ne', pickEach, gammaIndex, bind, Except.bind]
      have less : offset - 1 < env.pickRct.spendableUpperBound :=
        all 1 draws _ _ _ picked proposed _ (List.mem_singleton_self _)
      omega
    · intro below count draws indexes refs rest picked proposed
      exact gammaPick_below
        (fun several => GammaPicker.picks_below usable (below several) picked) proposed
  · refine iff_of_true ?_ ?_
    · intro count draws indexes refs rest _ proposed
      simp [gammaPick, valid] at proposed
    · intro several
      simp [GammaPicker.spendableUpperBound, valid] at several

end

/-! ## All picks -/

theorem proposed_indexes_below_iff (env : PickEnv)
    (age : 0 < env.pickRct.spendableAge)
    (words : ∀ offset ∈ env.pickRct.rctOffsets, offset < 2 ^ 64) :
    (∀ hist count draws refs next,
      triangularPick env count hist draws = .ok (refs, next) →
        ((∀ ref ∈ refs, ref.index < hist.unlockedCount) ↔
          hist.unlockedCount = count ∨
            DrawsBelow (scaledDraw env hist) hist.unlockedCount count draws)) ∧
    (∀ count amount, ∀ ref ∈ pickAll count amount, ref.index < count) ∧
    ((∀ count draws indexes refs rest,
      env.pickRct.picks count draws = .ok indexes →
        gammaPick env count indexes = .ok (refs, rest) →
          ∀ ref ∈ refs, ref.index < env.pickRct.spendableUpperBound) ↔
      (1 < env.pickRct.spendableUpperBound → env.pickRct.BlocksBelow)) := by
  refine ⟨?_, ?_, gammaPicks_below_iff age words⟩
  · intro hist count draws refs next picked
    exact triangularPick_below_iff picked
  · intro count amount
    exact pickAll_below

/-- The index of a draw without rounding: the root of the fraction, times the
count. -/
def exactTriangular (r total : ℕ) : ℕ :=
  Nat.findGreatest (fun index => index ^ 2 * 2 ^ 53 ≤ r * total ^ 2) total

def exactEnv : PickEnv :=
  { pickRct := .sparsePicker
    sortByAmount := id
    triangular := exactTriangular
    fetch := some fun _ refs => .ok (refs.map fun _ => ⟨1, 2, true⟩) }

/-- Two of four outputs are unlocked. -/
def halfUnlocked : Histogram := ⟨1000, 4, 2⟩

theorem proposed_index_below_sample :
    triangularPick exactEnv 1 halfUnlocked [2 ^ 49] = .ok ([⟨1000, 1⟩], []) ∧
      (1 : ℕ) < halfUnlocked.unlockedCount := by
  have picked : triangularPick exactEnv 1 halfUnlocked [2 ^ 49] =
      .ok ([⟨1000, 1⟩], []) := by decide
  refine ⟨picked, ?_⟩
  have all := ((proposed_indexes_below_iff exactEnv (by decide) (by decide)).1
    halfUnlocked 1 [2 ^ 49] _ _ picked).mpr (.inr ?_)
  · exact all ⟨1000, 1⟩ (List.mem_singleton_self _)
  · have scaled : scaledDraw exactEnv halfUnlocked (2 ^ 49) < 2 := by decide
    exact (drawsBelow_cons_below scaled).mpr drawsBelow_zero

/-- The root of a quarter scales to half of the outputs, and the daemon is
asked for the third of two. -/
theorem locked_index_is_proposed :
    triangularPick exactEnv 1 halfUnlocked [2 ^ 51] = .ok ([⟨1000, 2⟩], []) ∧
      halfUnlocked.unlockedCount = 2 ∧
      (pickRandomOutputs exactEnv 1 [1000] [halfUnlocked] [2 ^ 51]).2.map (·.refs) =
        [[⟨1000, 2⟩]] := by
  decide

end XfoLws.Util
