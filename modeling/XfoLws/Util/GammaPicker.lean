import XfoLws.Lib.LowerBound
import XfoLws.Util.RandomOutputs

/-!
# Picking ring outputs by age

`gamma_picker` draws the age of an output, searches the block of the output
that is that far back, and draws an output of this block.  The offsets count the
outputs up to each block.
-/

namespace XfoLws.Util

/-! ## Words of 64 bits -/

def wordAdd (left right : ℕ) : ℕ := (left + right) % 2 ^ 64

def wordSub (left right : ℕ) : ℕ := (left + 2 ^ 64 - right) % 2 ^ 64

theorem wordSub_eq {left right : ℕ} (word : left < 2 ^ 64) (below : right ≤ left) :
    wordSub left right = left - right := by
  have wrapped : left + 2 ^ 64 - right = left - right + 2 ^ 64 := by omega
  rw [wordSub, wrapped, Nat.add_mod_right]
  exact Nat.mod_eq_of_lt (by omega)

theorem wordAdd_eq {left right : ℕ} (word : left + right < 2 ^ 64) :
    wordAdd left right = left + right :=
  Nat.mod_eq_of_lt word

/-! ## The picker -/

/-- What a try draws: the converted `output_index`, and the number that
`rand_idx` reduces. -/
structure GammaDraw where
  outputIndex : ℕ
  random : ℕ
deriving DecidableEq, Repr

inductive GammaError where
  | heightTooSmall
  /-- Marked "should never happen". -/
  | outputNotFound
  | moduloZero
  | attempts
  /-- The draws of the run end here. -/
  | draws
deriving DecidableEq, Repr

/-- A random index below `size`. -/
def randIdx (random size : ℕ) : Except GammaError ℕ :=
  if size = 0 then .error .moduloZero else .ok (random % size)

namespace GammaPicker

/-- The offsets before the iterator `end`. -/
def window (pickRct : GammaPicker) : List ℕ :=
  pickRct.rctOffsets.take (pickRct.rctOffsets.length - pickRct.spendableAge + 1)

/-- The number of outputs below a block. -/
def firstRct (pickRct : GammaPicker) (block : ℕ) : ℕ :=
  if block = 0 then 0 else pickRct.rctOffsets.getD (block - 1) 0

/-- A try, which may be left without an output. -/
def attempt (pickRct : GammaPicker) (draw : GammaDraw) :
    Except GammaError (Option ℕ) :=
  let numRctOutputs := pickRct.spendableUpperBound
  -- gamma selected older than blockchain height
  if numRctOutputs ≤ draw.outputIndex then .ok none
  else
    let outputIndex := wordSub (wordSub numRctOutputs 1) draw.outputIndex
    let selection := LowerBound.position (· < outputIndex) pickRct.window
    if selection = pickRct.window.length then .error .outputNotFound
    else
      let firstRct := pickRct.firstRct selection
      let nRct := wordSub (pickRct.rctOffsets.getD selection 0) firstRct
      if nRct ≠ 0 then do
        let chosen ← randIdx draw.random nRct
        .ok (some (wordAdd firstRct chosen))
      -- block had zero outputs
      else .ok none

def attempts (pickRct : GammaPicker) :
    ℕ → List GammaDraw → Except GammaError (ℕ × List GammaDraw)
  | 0, _ => .error .attempts
  | _ + 1, [] => .error .draws
  | tries + 1, draw :: draws => do
      match ← pickRct.attempt draw with
      | some index => .ok (index, draws)
      | none => pickRct.attempts tries draws

/-- `operator()`. -/
def pick (pickRct : GammaPicker) (draws : List GammaDraw) :
    Except GammaError (ℕ × List GammaDraw) :=
  if ¬ pickRct.isValid then .error .heightTooSmall
  else pickRct.attempts 100 draws

/-! ## Where it picks -/

/-- The offsets are words, as many as the spendable age needs. -/
structure Usable (pickRct : GammaPicker) : Prop where
  age : 0 < pickRct.spendableAge
  long : pickRct.spendableAge ≤ pickRct.rctOffsets.length
  words : ∀ offset ∈ pickRct.rctOffsets, offset < 2 ^ 64

/-- The output lies in a block outside the unlock window. -/
structure InBlock (pickRct : GammaPicker) (block offset index : ℕ) : Prop where
  unlocked : block + pickRct.spendableAge ≤ pickRct.rctOffsets.length
  stored : pickRct.rctOffsets[block]? = some offset
  above : pickRct.firstRct block ≤ index
  below : index < offset

/-- The blocks that can be selected end at the bound or below it. -/
def BlocksBelow (pickRct : GammaPicker) : Prop :=
  ∀ outputIndex < pickRct.spendableUpperBound,
    pickRct.rctOffsets.getD
      (LowerBound.position (· < outputIndex) pickRct.window) 0 ≤
        pickRct.spendableUpperBound

section

variable {pickRct : GammaPicker} {draw : GammaDraw}

theorem Usable.isValid (usable : pickRct.Usable) : pickRct.isValid = true := by
  have age := usable.age
  have long := usable.long
  simp only [GammaPicker.isValid, decide_eq_true_eq]
  omega

/-- The bound is the last offset that is searched. -/
theorem Usable.bound_stored (usable : pickRct.Usable) :
    pickRct.rctOffsets[pickRct.rctOffsets.length - pickRct.spendableAge]? =
      some pickRct.spendableUpperBound := by
  have age := usable.age
  have long := usable.long
  have inside : pickRct.rctOffsets.length - pickRct.spendableAge <
      pickRct.rctOffsets.length := by omega
  rw [spendableUpperBound, if_pos usable.isValid, List.getD_eq_getElem?_getD,
    List.getElem?_eq_getElem inside]
  rfl

theorem Usable.window_length (usable : pickRct.Usable) :
    pickRct.window.length = pickRct.rctOffsets.length - pickRct.spendableAge + 1 := by
  have age := usable.age
  have long := usable.long
  rw [window, List.length_take]
  omega

theorem Usable.window_getElem? (usable : pickRct.Usable) {block : ℕ}
    (inside : block + pickRct.spendableAge ≤ pickRct.rctOffsets.length) :
    pickRct.window[block]? = pickRct.rctOffsets[block]? := by
  have age := usable.age
  exact List.getElem?_take_of_lt (by omega)

/-- The block that `lower_bound` selects for an output. -/
def selection (pickRct : GammaPicker) (outputIndex : ℕ) : ℕ :=
  LowerBound.position (· < outputIndex) pickRct.window

/-- What the search finds below the bound, in any order of the offsets. -/
structure Selected (pickRct : GammaPicker) (outputIndex block offset : ℕ) : Prop where
  unlocked : block + pickRct.spendableAge ≤ pickRct.rctOffsets.length
  stored : pickRct.rctOffsets[block]? = some offset
  reached : outputIndex ≤ offset
  first : pickRct.firstRct block ≤ outputIndex

theorem Usable.selection_ne_end (usable : pickRct.Usable) {outputIndex : ℕ}
    (below : outputIndex < pickRct.spendableUpperBound) :
    pickRct.selection outputIndex ≠ pickRct.window.length := by
  intro atEnd
  have age := usable.age
  have long := usable.long
  have length := usable.window_length
  have last : pickRct.window[pickRct.selection outputIndex - 1]? =
      some pickRct.spendableUpperBound := by
    have here : pickRct.selection outputIndex - 1 =
        pickRct.rctOffsets.length - pickRct.spendableAge := by omega
    rw [here, usable.window_getElem? (by omega)]
    exact usable.bound_stored
  have smaller := LowerBound.before_last (show 0 < pickRct.selection outputIndex by omega)
    last
  have reversed : pickRct.spendableUpperBound < outputIndex := by simpa using smaller
  omega

theorem Usable.selected (usable : pickRct.Usable) {outputIndex : ℕ}
    (below : outputIndex < pickRct.spendableUpperBound) :
    ∃ offset,
      pickRct.Selected outputIndex (pickRct.selection outputIndex) offset := by
  have age := usable.age
  have long := usable.long
  have length := usable.window_length
  have bound : pickRct.selection outputIndex ≤ pickRct.window.length :=
    LowerBound.position_le
  have inside := usable.selection_ne_end below
  have unlocked : pickRct.selection outputIndex + pickRct.spendableAge ≤
      pickRct.rctOffsets.length := by omega
  obtain ⟨offset, stored⟩ : ∃ offset,
      pickRct.rctOffsets[pickRct.selection outputIndex]? = some offset :=
    ⟨_, List.getElem?_eq_getElem (by omega)⟩
  have found : pickRct.window[pickRct.selection outputIndex]? = some offset := by
    rw [usable.window_getElem? unlocked, stored]
  have reached : outputIndex ≤ offset := by
    simpa using LowerBound.not_before_position found
  refine ⟨offset, unlocked, stored, reached, ?_⟩
  unfold firstRct
  split
  · exact Nat.zero_le _
  · rename_i later
    obtain ⟨previous, storedBefore⟩ : ∃ previous,
        pickRct.rctOffsets[pickRct.selection outputIndex - 1]? = some previous :=
      ⟨_, List.getElem?_eq_getElem (by omega)⟩
    have windowed :
        pickRct.window[pickRct.selection outputIndex - 1]? = some previous := by
      rw [usable.window_getElem? (by omega), storedBefore]
    have smaller : previous < outputIndex := by
      simpa using LowerBound.before_last
        (show 0 < pickRct.selection outputIndex by omega) windowed
    rw [List.getD_eq_getElem?_getD, storedBefore]
    exact smaller.le

theorem Selected.offset_lt (usable : pickRct.Usable) {outputIndex block offset : ℕ}
    (selected : pickRct.Selected outputIndex block offset) : offset < 2 ^ 64 :=
  usable.words offset (List.mem_of_getElem? selected.stored)

/-- A try below the bound picks in the selected block, unless it is empty. -/
theorem Usable.attempt_eq (usable : pickRct.Usable)
    (below : draw.outputIndex < pickRct.spendableUpperBound)
    {outputIndex block offset : ℕ}
    (drawn : pickRct.spendableUpperBound - 1 - draw.outputIndex = outputIndex)
    (here : pickRct.selection outputIndex = block)
    (selected : pickRct.Selected outputIndex block offset) :
    pickRct.attempt draw = .ok
      (if pickRct.firstRct block = offset then none
      else some (pickRct.firstRct block +
        draw.random % (offset - pickRct.firstRct block))) := by
  have boundWord : pickRct.spendableUpperBound < 2 ^ 64 :=
    usable.words _ (List.mem_of_getElem? usable.bound_stored)
  have offsetWord : offset < 2 ^ 64 := selected.offset_lt usable
  have wanted :
      wordSub (wordSub pickRct.spendableUpperBound 1) draw.outputIndex =
        outputIndex := by
    rw [wordSub_eq boundWord (by omega), wordSub_eq (by omega) (by omega), drawn]
  have notEnd : block ≠ pickRct.window.length :=
    here ▸ usable.selection_ne_end (by omega)
  have stored : pickRct.rctOffsets.getD block 0 = offset := by
    rw [List.getD_eq_getElem?_getD, selected.stored]
    rfl
  have position : LowerBound.position (· < outputIndex) pickRct.window = block := here
  have size : wordSub offset (pickRct.firstRct block) =
      offset - pickRct.firstRct block :=
    wordSub_eq offsetWord (selected.first.trans selected.reached)
  have first := selected.first.trans selected.reached
  simp only [attempt, if_neg (not_le.mpr below), wanted, position, if_neg notEnd,
    stored, size]
  by_cases empty : pickRct.firstRct block = offset
  · simp [empty]
  · have some_left : offset - pickRct.firstRct block ≠ 0 := by omega
    have within := Nat.mod_lt draw.random (Nat.pos_of_ne_zero some_left)
    rw [if_pos some_left, if_neg empty, randIdx, if_neg some_left]
    simp only [bind, Except.bind, Except.ok.injEq, Option.some.injEq]
    exact wordAdd_eq (by omega)

theorem attempt_none (beyond : pickRct.spendableUpperBound ≤ draw.outputIndex) :
    pickRct.attempt draw = .ok none := by
  simp only [attempt, if_pos beyond]

/-- A try ends without an error, and a pick lies in the selected block. -/
theorem Usable.attempt_spec (usable : pickRct.Usable) (draw : GammaDraw) :
    pickRct.attempt draw = .ok none ∨
      ∃ index outputIndex offset,
        pickRct.attempt draw = .ok (some index) ∧
          outputIndex < pickRct.spendableUpperBound ∧
          pickRct.InBlock (pickRct.selection outputIndex) offset index := by
  by_cases beyond : pickRct.spendableUpperBound ≤ draw.outputIndex
  · exact .inl (attempt_none beyond)
  · have below : draw.outputIndex < pickRct.spendableUpperBound := not_le.mp beyond
    have wanted : pickRct.spendableUpperBound - 1 - draw.outputIndex <
        pickRct.spendableUpperBound := by omega
    obtain ⟨offset, selected⟩ := usable.selected wanted
    have attempted := usable.attempt_eq below rfl rfl selected
    split at attempted
    · exact .inl attempted
    · rename_i nonempty
      have first := selected.first.trans selected.reached
      have size : 0 < offset - pickRct.firstRct
          (pickRct.selection (pickRct.spendableUpperBound - 1 - draw.outputIndex)) := by
        omega
      have within := Nat.mod_lt draw.random size
      exact .inr ⟨_, _, offset, attempted, wanted, selected.unlocked, selected.stored,
        Nat.le_add_right _ _, by omega⟩

/-- Every pick lies in a block that is selected for an output below the
bound. -/
theorem Usable.attempts_ok (usable : pickRct.Usable) {tries index : ℕ}
    {draws rest : List GammaDraw}
    (picked : pickRct.attempts tries draws = .ok (index, rest)) :
    ∃ outputIndex offset, outputIndex < pickRct.spendableUpperBound ∧
      pickRct.InBlock (pickRct.selection outputIndex) offset index := by
  induction tries generalizing draws with
  | zero => cases picked
  | succ tries induction =>
      cases draws with
      | nil => cases picked
      | cons draw draws =>
          obtain ⟨found, attempted, picked⟩ := Outcome.bind_eq_ok.mp picked
          rcases usable.attempt_spec draw with nothing | ⟨here, outputIndex, offset,
            chosen, below, inside⟩
          · rw [nothing] at attempted
            cases attempted
            exact induction picked
          · rw [chosen] at attempted
            cases attempted
            cases picked
            exact ⟨outputIndex, offset, below, inside⟩

theorem Usable.attempts_error (usable : pickRct.Usable) {tries : ℕ}
    {draws : List GammaDraw} {failure : GammaError}
    (failed : pickRct.attempts tries draws = .error failure) :
    failure = .attempts ∨ failure = .draws := by
  induction tries generalizing draws with
  | zero =>
      cases failed
      exact .inl rfl
  | succ tries induction =>
      cases draws with
      | nil =>
          cases failed
          exact .inr rfl
      | cons draw draws =>
          rcases Outcome.bind_eq_error.mp failed with
            stopped | ⟨found, attempted, failed⟩
          · rcases usable.attempt_spec draw with nothing | ⟨here, _, _, chosen, -⟩
            · rw [nothing] at stopped
              cases stopped
            · rw [chosen] at stopped
              cases stopped
          · cases found with
            | none => exact induction failed
            | some index => cases failed

theorem Usable.blocksBelow (usable : pickRct.Usable)
    (cumulative : pickRct.rctOffsets.Pairwise (· ≤ ·)) : pickRct.BlocksBelow := by
  intro outputIndex below
  obtain ⟨offset, selected⟩ := usable.selected below
  have age := usable.age
  have long := usable.long
  have unlocked := selected.unlocked
  have bound := usable.bound_stored
  have here : pickRct.rctOffsets.getD (pickRct.selection outputIndex) 0 = offset := by
    rw [List.getD_eq_getElem?_getD, selected.stored]
    rfl
  show pickRct.rctOffsets.getD (pickRct.selection outputIndex) 0 ≤ _
  rw [here]
  rcases (show pickRct.selection outputIndex ≤
      pickRct.rctOffsets.length - pickRct.spendableAge by omega).lt_or_eq with
    earlier | last
  · have ordered := List.pairwise_iff_getElem.mp cumulative _ _
      (by omega) (by omega) earlier
    obtain ⟨inside, found⟩ := List.getElem?_eq_some_iff.mp selected.stored
    obtain ⟨within, final⟩ := List.getElem?_eq_some_iff.mp bound
    rwa [found, final] at ordered
  · have same := selected.stored
    rw [last, bound] at same
    exact (Option.some.inj same).ge

theorem InBlock.lt_bound (below : pickRct.BlocksBelow) {outputIndex offset index : ℕ}
    (inside : pickRct.InBlock (pickRct.selection outputIndex) offset index)
    (wanted : outputIndex < pickRct.spendableUpperBound) :
    index < pickRct.spendableUpperBound := by
  have ends := below outputIndex wanted
  have here : pickRct.rctOffsets.getD (pickRct.selection outputIndex) 0 = offset := by
    rw [List.getD_eq_getElem?_getD, inside.stored]
    rfl
  exact inside.below.trans_le (here ▸ ends)

end

/-- A pick over cumulative offsets lies below the bound, in a block with
outputs that is not in the unlock window; only the draws can end it otherwise. -/
theorem pick_in_range (pickRct : GammaPicker) (usable : pickRct.Usable)
    (cumulative : pickRct.rctOffsets.Pairwise (· ≤ ·)) (draws : List GammaDraw) :
    match pickRct.pick draws with
    | .ok (index, _) =>
        index < pickRct.spendableUpperBound ∧
          ∃ block offset, pickRct.InBlock block offset index
    | .error failure => failure = .attempts ∨ failure = .draws := by
  have valid := usable.isValid
  cases picked : pickRct.pick draws with
  | ok result =>
      obtain ⟨index, rest⟩ := result
      rw [pick, if_neg (not_not.mpr valid)] at picked
      obtain ⟨outputIndex, offset, below, inside⟩ := usable.attempts_ok picked
      exact ⟨inside.lt_bound (usable.blocksBelow cumulative) below, _, _, inside⟩
  | error failure =>
      rw [pick, if_neg (not_not.mpr valid)] at picked
      exact usable.attempts_error picked

/-- Two empty blocks, then three and four outputs, and a locked block. -/
def sparsePicker : GammaPicker := ⟨2, [0, 0, 3, 3, 7, 9]⟩

theorem sparsePicker_in_range :
    sparsePicker.pick [⟨7, 0⟩, ⟨6, 5⟩, ⟨2, 5⟩] = .ok (4, []) ∧
      4 < sparsePicker.spendableUpperBound := by
  have usable : sparsePicker.Usable := ⟨by decide, by decide, by decide⟩
  have picked : sparsePicker.pick [⟨7, 0⟩, ⟨6, 5⟩, ⟨2, 5⟩] = .ok (4, []) := by decide
  have within := pick_in_range sparsePicker usable (by decide)
    [⟨7, 0⟩, ⟨6, 5⟩, ⟨2, 5⟩]
  rw [picked] at within
  exact ⟨picked, within.1⟩

end GammaPicker

end XfoLws.Util
