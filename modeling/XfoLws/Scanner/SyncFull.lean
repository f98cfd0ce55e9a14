import XfoLws.Db.PowTable
import Mathlib.Data.List.DropRight

/-!
# Difficulty over batches of blocks

`sync_full` verifies a response block by block with windows it keeps in
memory, and starts each response from the windows that `get_pow_window` reads.
Reading counts genesis while the table is shorter than a window, the loop never
does.
-/

namespace XfoLws

namespace Db.BlockDifficulty

/-- `block_difficulty::get_difficulty`. -/
def getDifficulty (difficulty : BlockDifficulty) : ℕ :=
  difficulty.high * 2 ^ 64 + difficulty.low

/-- `block_difficulty::set_difficulty`. -/
def setDifficulty (value : ℕ) : BlockDifficulty :=
  ⟨value / 2 ^ 64 % 2 ^ 64, value % 2 ^ 64⟩

theorem get_setDifficulty {value : ℕ} (fits : value < 2 ^ 128) :
    (setDifficulty value).getDifficulty = value := by
  unfold setDifficulty getDifficulty
  lia

end Db.BlockDifficulty

namespace Scanner

open Db (BlockId BlockPow PowSync BlockDifficulty PowWindow WalkEnd getPowWindow
  windowStart syncPow openNew numbered)

/-! ## A response -/

/-- What a difficulty check reads of a block. -/
structure Block where
  hash : Hash
  prevId : Hash
  timestamp : ℕ
deriving DecidableEq, Repr

/-- Addition of 128-bit unsigned integers. -/
def wrap128 (value : ℕ) : ℕ := value % 2 ^ 128

/-- `DIFFICULTY_BLOCKS_COUNT` and `BLOCKCHAIN_TIMESTAMP_CHECK_WINDOW`. -/
structure WindowSizes where
  blocksCount : ℕ
  checkWindow : ℕ

/-- The rules of the chain: difficulty from the two windows and the target
time, the timestamp rule over the median window, and the proof of work. -/
structure PowRules where
  nextDifficulty : List ℕ → List ℕ → ℕ → ℕ
  getTargetTime : BlockId → ℕ
  verifyTimestamp : ℕ → List ℕ → Bool
  checkHash : Block → ℕ → Bool

/-- `pow_window` in memory, with difficulties as integers. -/
structure Window where
  powTimestamps : List ℕ
  cumulativeDiffs : List ℕ
  medianTimestamps : List ℕ
deriving DecidableEq, Repr

namespace Window

def empty : Window := ⟨[], [], []⟩

def ofStored (stored : PowWindow) : Window :=
  ⟨stored.powTimestamps, stored.cumulativeDiffs.map (·.getDifficulty),
    stored.medianTimestamps⟩

/-- `update_window` on both difficulty windows, and the same loop on the
median window: the front goes while a window is too long. -/
def trim (sizes : WindowSizes) (window : Window) : Window :=
  ⟨window.powTimestamps.rtake sizes.blocksCount,
    window.cumulativeDiffs.rtake sizes.blocksCount,
    window.medianTimestamps.rtake sizes.checkWindow⟩

def push (window : Window) (timestamp cumulative : ℕ) : Window :=
  ⟨window.powTimestamps ++ [timestamp],
    window.cumulativeDiffs ++ [cumulative],
    window.medianTimestamps ++ [timestamp]⟩

/-- The difficulty of the block at `height` behind a trimmed window. -/
def difficulty (rules : PowRules) (window : Window) (height : BlockId) : ℕ :=
  rules.nextDifficulty window.powTimestamps window.cumulativeDiffs
    (rules.getTargetTime height)

/-- The difficulty of the chain with the block at `height`. -/
def cumulative (rules : PowRules) (window : Window) (height : BlockId) : ℕ :=
  wrap128 (window.difficulty rules height +
    window.cumulativeDiffs.getLast?.getD 0)

theorem cumulative_lt (rules : PowRules) (window : Window)
    (height : BlockId) : window.cumulative rules height < 2 ^ 128 :=
  Nat.mod_lt _ (by decide)

end Window

/-- What `sync_full` keeps from one block of a response to the next. -/
structure SyncState where
  window : Window
  hash : Hash
  newHashes : List Hash
  newPow : List PowSync

section SyncFull

variable (env : Env) (sizes : WindowSizes) (rules : PowRules)

/-- The checks of a block behind a trimmed window; those of the proof of work
are skipped up to the last checkpoint. -/
def Window.accepts (window : Window) (height : BlockId) (block : Block) :
    Prop :=
  env.getMaxHeight < height →
    rules.verifyTimestamp block.timestamp window.medianTimestamps = true ∧
      rules.checkHash block (window.difficulty rules height) = true

instance (window : Window) (height : BlockId) (block : Block) :
    Decidable (window.accepts env rules height block) :=
  inferInstanceAs (Decidable (_ → _ ∧ _))

/-- One pass of the loop in `sync_full`. -/
def syncBlock (state : SyncState) (entry : BlockId × Block) :
    Except Error SyncState :=
  let (height, block) := entry
  let window := state.window.trim sizes
  if block.prevId ≠ state.hash then .error .badBlockchain
  else if ¬ window.accepts env rules height block then .error .badBlockchain
  else
    let cumulative := window.cumulative rules height
    .ok
      { window := window.push block.timestamp cumulative
        hash := block.hash
        newHashes := state.newHashes ++ [block.hash]
        newPow := state.newPow ++ [⟨block.timestamp, .setDifficulty cumulative⟩] }

/-- `sync_full` on one response: the stored block at `start`, and those behind
it. -/
def syncBatch (db : Db) (start : BlockId) (overlap : Block)
    (blocks : List (BlockId × Block)) : Except Error Db := do
  let stored ← getPowWindow sizes.blocksCount sizes.checkWindow db start
  let state ← blocks.foldlM (syncBlock env sizes rules)
    ⟨.ofStored stored, overlap.hash, [overlap.hash], [⟨overlap.timestamp, ⟨0, 0⟩⟩]⟩
  syncPow env db start state.newHashes state.newPow

/-- The entries of `chain` behind `start`. -/
def behind (chain : BlockId → Block) (start : BlockId) (size : ℕ) :
    List (BlockId × Block) :=
  (List.range' (start + 1) size).map fun height => (height, chain height)

/-- The run over `chain` that `sizes` cut into batches, from `start`. -/
def syncBatches (chain : BlockId → Block) : Db → BlockId → List ℕ →
    Except Error Db
  | db, _, [] => .ok db
  | db, start, size :: later => do
      let next ← syncBatch env sizes rules db start (chain start)
        (behind chain start size)
      syncBatches chain next (start + size) later

end SyncFull

/-- Where the batches of a run start. -/
def batchStarts : BlockId → List ℕ → List BlockId
  | _, [] => []
  | start, size :: later => start :: batchStarts (start + size) later

/-- The windows read at `start` are those of an uncut run, and the batch does
not start below the checkpoint that a new database holds. -/
def CleanStart (env : Env) (sizes : WindowSizes) (start : BlockId) : Prop :=
  start = 0 ∨ sizes.blocksCount ≤ start ∧ start + 1 ≠ env.getMaxHeight

instance (env : Env) (sizes : WindowSizes) (start : BlockId) :
    Decidable (CleanStart env sizes start) :=
  inferInstanceAs (Decidable (_ ∨ _ ∧ _))

/-! ## The run that is not cut -/

private theorem rtake_rtake_concat {α : Type} (entries : List α) (entry : α)
    (size : ℕ) :
    (entries.rtake size ++ [entry]).rtake size =
      (entries ++ [entry]).rtake size := by
  cases size with
  | zero => rw [List.rtake_zero, List.rtake_zero]
  | succ size =>
      rw [List.rtake_concat_succ, List.rtake_concat_succ]
      simp [List.rtake_eq_reverse_take_reverse, List.take_take]

theorem Window.trim_push_trim (sizes : WindowSizes) (window : Window)
    (timestamp cumulative : ℕ) :
    ((window.trim sizes).push timestamp cumulative).trim sizes =
      (window.push timestamp cumulative).trim sizes := by
  simp only [Window.trim, Window.push, rtake_rtake_concat]

/-- A window with the timestamps and difficulties of rows. -/
def Window.ofRows (rows : List BlockPow) : Window :=
  ⟨rows.map (·.timestamp), rows.map (·.cumulativeDiff.getDifficulty),
    rows.map (·.timestamp)⟩

theorem Window.ofRows_concat (rows : List BlockPow) (row : BlockPow) :
    Window.ofRows (rows ++ [row]) = (Window.ofRows rows).push row.timestamp
      row.cumulativeDiff.getDifficulty := by
  simp [Window.ofRows, Window.push]

section Reference

variable (sizes : WindowSizes) (rules : PowRules) (chain : BlockId → Block)

/-- The windows of blocks one to `top` in one run from genesis, untrimmed. -/
def history : BlockId → Window
  | 0 => .empty
  | top + 1 =>
      (history top).push (chain (top + 1)).timestamp
        (((history top).trim sizes).cumulative rules (top + 1))

/-- The row that such a run stores; that of genesis is from the start. -/
def storedPow : BlockId → BlockPow
  | 0 => ⟨0, 0, ⟨0, 1⟩⟩
  | top + 1 => ⟨top + 1, (chain (top + 1)).timestamp,
      .setDifficulty
        (((history sizes rules chain top).trim sizes).cumulative rules
          (top + 1))⟩

def powEntry (height : BlockId) : PowSync :=
  ⟨(storedPow sizes rules chain height).timestamp,
    (storedPow sizes rules chain height).cumulativeDiff⟩

/-- The block behind `top` follows it and passes the checks. -/
def Accepted (env : Env) (top : BlockId) : Prop :=
  (chain (top + 1)).prevId = (chain top).hash ∧
    ((history sizes rules chain top).trim sizes).accepts env rules (top + 1)
      (chain (top + 1))

end Reference

section Fold

variable {env : Env} {sizes : WindowSizes} {rules : PowRules}
  {chain : BlockId → Block} {start top size : ℕ} {state : SyncState}

@[simp] theorem storedPow_id (height : BlockId) :
    (storedPow sizes rules chain height).id = height := by
  cases height <;> rfl

/-- The history is what the stored rows above genesis say. -/
theorem history_rows (top : BlockId) :
    history sizes rules chain top =
      .ofRows ((List.range' 1 top).map (storedPow sizes rules chain)) := by
  induction top with
  | zero => rfl
  | succ top induction =>
      rw [List.range'_1_concat, List.map_append, List.map_singleton,
        Window.ofRows_concat, ← induction, Nat.add_comm 1 top, storedPow,
        BlockDifficulty.get_setDifficulty (Window.cumulative_lt ..)]
      rfl

/-- The state of `sync_full` after `top` goes on like the uncut run. -/
def SyncState.Reached (sizes : WindowSizes) (rules : PowRules)
    (chain : BlockId → Block) (state : SyncState) (top : BlockId) : Prop :=
  state.window.trim sizes = (history sizes rules chain top).trim sizes ∧
    state.hash = (chain top).hash

theorem syncBlock_ok (reached : state.Reached sizes rules chain top)
    (accepted : Accepted sizes rules chain env top) :
    ∃ next, syncBlock env sizes rules state (top + 1, chain (top + 1)) =
        .ok next ∧ next.Reached sizes rules chain (top + 1) ∧
      next.newHashes = state.newHashes ++ [(chain (top + 1)).hash] ∧
      next.newPow = state.newPow ++ [powEntry sizes rules chain (top + 1)] := by
  obtain ⟨windows, hash⟩ := reached
  obtain ⟨follows, passes⟩ := accepted
  have linked : ¬ (chain (top + 1)).prevId ≠ state.hash := by
    rw [hash]
    exact not_not.mpr follows
  refine ⟨⟨((history sizes rules chain top).trim sizes).push
      (chain (top + 1)).timestamp _, (chain (top + 1)).hash, _, _⟩, ?_,
    ⟨Window.trim_push_trim .., rfl⟩, rfl, rfl⟩
  unfold syncBlock
  dsimp only
  rw [if_neg linked, windows, if_neg (not_not.mpr passes)]
  rfl

theorem syncBlock_error (reached : state.Reached sizes rules chain top)
    (rejected : ¬ Accepted sizes rules chain env top) :
    ∃ error, syncBlock env sizes rules state (top + 1, chain (top + 1)) =
      .error error := by
  obtain ⟨windows, hash⟩ := reached
  unfold syncBlock
  dsimp only
  rw [hash, windows]
  by_cases follows : (chain (top + 1)).prevId = (chain top).hash
  · rw [if_neg (not_not.mpr follows),
      if_pos fun passes => rejected ⟨follows, passes⟩]
    exact ⟨_, rfl⟩
  · rw [if_pos follows]
    exact ⟨_, rfl⟩

theorem behind_succ (start : BlockId) (size : ℕ) :
    behind chain start (size + 1) =
      (start + 1, chain (start + 1)) :: behind chain (start + 1) size := rfl

theorem foldlM_syncBlock (reached : state.Reached sizes rules chain start) :
    ((∀ top, start ≤ top → top < start + size →
        Accepted sizes rules chain env top) →
      ∃ final, (behind chain start size).foldlM (syncBlock env sizes rules)
          state = .ok final ∧
        final.newHashes = state.newHashes ++
          (List.range' (start + 1) size).map (chain · |>.hash) ∧
        final.newPow = state.newPow ++
          (List.range' (start + 1) size).map (powEntry sizes rules chain)) ∧
    ((¬ ∀ top, start ≤ top → top < start + size →
        Accepted sizes rules chain env top) →
      ∃ error, (behind chain start size).foldlM (syncBlock env sizes rules)
        state = .error error) := by
  induction size generalizing start state with
  | zero =>
      refine ⟨fun _ => ⟨state, rfl, by simp, by simp⟩, fun rejected => ?_⟩
      exact absurd (fun top low high => absurd high (by omega)) rejected
  | succ size induction =>
      rw [behind_succ, List.foldlM_cons]
      by_cases first : Accepted sizes rules chain env start
      · obtain ⟨next, stepped, nextReached, hashes, pow⟩ :=
          syncBlock_ok reached first
        obtain ⟨passes, fails⟩ := induction nextReached
        have split : (∀ top, start ≤ top → top < start + (size + 1) →
            Accepted sizes rules chain env top) ↔
            ∀ top, start + 1 ≤ top → top < start + 1 + size →
              Accepted sizes rules chain env top := by
          constructor
          · intro all top low high
            exact all top (by omega) (by omega)
          · intro later top low high
            rcases Nat.eq_or_lt_of_le low with rfl | above
            · exact first
            · exact later top above (by omega)
        rw [stepped, split]
        refine ⟨fun all => ?_, fails⟩
        obtain ⟨final, folded, allHashes, allPow⟩ := passes all
        refine ⟨final, folded, ?_, ?_⟩
        · rw [allHashes, hashes, List.range'_succ, List.map_cons,
            List.append_assoc, List.singleton_append]
        · rw [allPow, pow, List.range'_succ, List.map_cons,
            List.append_assoc, List.singleton_append]
      · obtain ⟨error, failed⟩ := syncBlock_error reached first
        rw [failed]
        refine ⟨fun all => absurd (all start le_rfl (by omega)) first,
          fun _ => ⟨error, rfl⟩⟩

end Fold

/-! ## One batch -/

/-- The database holds the uncut run to `top`, and perhaps the checkpoint
above it. -/
structure Synced (env : Env) (sizes : WindowSizes) (rules : PowRules)
    (chain : BlockId → Block) (db : Db) (top : BlockId) : Prop where
  known : ∀ row ∈ db.blocks,
    row.id ≤ top ∧ row.hash = (chain row.id).hash ∨
      top < row.id ∧ row.id = env.getMaxHeight
  last : ∃ row ∈ db.blocks, row.id = top
  checkpoint : top < env.getMaxHeight →
    ∃ row ∈ db.blocks, row.id = env.getMaxHeight
  pows : ∀ row, row ∈ db.pows ↔
    ∃ height ≤ top, row = storedPow sizes rules chain height

/-- The blocks behind `start` are accepted and hit the checkpoints. -/
def Good (env : Env) (sizes : WindowSizes) (rules : PowRules)
    (chain : BlockId → Block) (start : BlockId) (size : ℕ) : Prop :=
  ∀ top, start ≤ top → top < start + size →
    Accepted sizes rules chain env top ∧
      Db.missesCheckpoint env (top + 1) (chain (top + 1)).hash = false

private theorem rtake_map_range' {α : Type} (entry : ℕ → α)
    (first count size : ℕ) :
    ((List.range' first count).map entry).rtake size =
      (List.range' (first + (count - size)) (count - (count - size))).map
        entry := by
  rw [List.rtake, List.length_map, List.length_range', ← List.map_drop,
    List.drop_range', Nat.mul_one]

private theorem numbered_range' {α : Type} (entry : ℕ → α) {first size : ℕ}
    (fits : first + size ≤ 2 ^ 64) :
    numbered first ((List.range' first size).map entry) =
      (List.range' first size).map fun height => (height, entry height) := by
  induction size generalizing first with
  | zero => rfl
  | succ size induction =>
      have small : wrap64 first = first := Nat.mod_eq_of_lt (by omega)
      rw [List.range'_succ, List.map_cons, List.map_cons, Db.numbered_cons,
        small, induction (by omega)]

section Batch

variable {env : Env} {sizes : WindowSizes} {rules : PowRules}
  {chain : BlockId → Block} {db next : Db} {start size : ℕ}

theorem Synced.contiguous (synced : Synced env sizes rules chain db start) :
    Db.PowsUpTo db start := by
  intro height
  constructor
  · rintro ⟨row, stored, rfl⟩
    obtain ⟨top, below, rfl⟩ := (synced.pows row).mp stored
    exact (storedPow_id top).le.trans below
  · intro below
    exact ⟨_, (synced.pows _).mpr ⟨height, below, rfl⟩, storedPow_id height⟩

theorem Synced.rows_eq (synced : Synced env sizes rules chain db start)
    {rows : List BlockPow} (stored : ∀ row ∈ rows, row ∈ db.pows) :
    rows = (rows.map (·.id)).map (storedPow sizes rules chain) := by
  rw [List.map_map]
  refine (List.map_id rows).symm.trans (List.map_congr_left ?_)
  intro row member
  obtain ⟨height, -, rfl⟩ := (synced.pows row).mp (stored row member)
  rw [Function.comp_apply, storedPow_id]
  rfl

/-- The windows read at genesis, and at heights where they are full, are those
of the uncut run. -/
theorem Synced.read (synced : Synced env sizes rules chain db start)
    (window : 1 ≤ sizes.checkWindow)
    (shorter : sizes.checkWindow ≤ sizes.blocksCount)
    (full : start = 0 ∨ sizes.blocksCount ≤ start) :
    ∃ stored, getPowWindow sizes.blocksCount sizes.checkWindow db start =
        .ok stored ∧
      (Window.ofStored stored).trim sizes =
        (history sizes rules chain start).trim sizes := by
  rcases full with rfl | full
  · exact ⟨_, rfl, rfl⟩
  obtain ⟨rows, median, read, members, ids, medianIds⟩ :=
    synced.contiguous.fullWindow (window.trans shorter) window le_rfl
  have nonzero : start ≠ 0 := by omega
  refine ⟨_, read, ?_⟩
  have known := synced.rows_eq fun row member =>
    members row (List.mem_append_left _ member)
  have medianKnown := synced.rows_eq fun row member =>
    members row (List.mem_append_right _ member)
  rw [ids nonzero] at known
  rw [medianIds nonzero (shorter.trans full)] at medianKnown
  have heights : windowStart sizes.blocksCount start +
        (start + 1 - windowStart sizes.blocksCount start - sizes.blocksCount) =
          1 + (start - sizes.blocksCount) ∧
      start + 1 - windowStart sizes.blocksCount start -
          (start + 1 - windowStart sizes.blocksCount start -
            sizes.blocksCount) =
        start - (start - sizes.blocksCount) := by
    unfold windowStart
    split <;> lia
  have medianHeights : start + 1 - sizes.checkWindow +
        (sizes.checkWindow - sizes.checkWindow) =
          1 + (start - sizes.checkWindow) ∧
      sizes.checkWindow - (sizes.checkWindow - sizes.checkWindow) =
        start - (start - sizes.checkWindow) := by
    lia
  rw [history_rows, known, medianKnown]
  simp only [Window.ofStored, Window.ofRows, Window.trim, List.map_map,
    rtake_map_range', heights, medianHeights, Window.mk.injEq, and_true,
    true_and]
  rfl

/-- Nothing stored right above the overlap: the comparison stops there. -/
theorem syncPowWalk_fresh {stored : List Db.BlockInfo} {hash : Hash}
    {later : List Hash} (fresh : ∀ row ∈ stored, row.id ≠ start + 1) :
    Db.syncPowWalk env stored (start + 1) (hash :: later) =
      if Db.missesCheckpoint env (start + 1) hash then .error .badBlockchain
      else .ok ⟨start + 1, hash :: later, none⟩ := by
  unfold Db.syncPowWalk
  cases stored with
  | nil => rfl
  | cons row rows =>
      dsimp only
      rw [if_pos (fresh row List.mem_cons_self)]

theorem syncPow_fresh {first : Hash} {hashes : List Hash} {pow : List PowSync}
    (fits : start + 1 < 2 ^ 64) (nonempty : hashes ≠ [])
    (found : ∃ row ∈ db.blocks, row.id = start ∧ row.hash = first)
    (lengths : pow.length = hashes.length + 1)
    (fresh : ∀ row ∈ db.blocks, row.id ≠ start + 1) :
    syncPow env db start (first :: hashes) pow =
      if Db.PassesCheckpoints env (start + 1) hashes then
        .ok ((db.appendBlockHashes (start + 1) hashes).appendPow (start + 1)
          (pow.drop 1))
      else .error .badBlockchain := by
  obtain ⟨row, stored, keyed, rfl⟩ := found
  have small : wrap64 (start + 1) = start + 1 := Nat.mod_eq_of_lt fits
  have read : db.blocks.find? start = some row :=
    SortedRows.find?_eq_some.mpr ⟨stored, keyed⟩
  have above : ∀ row ∈ db.blocksAfter start, row.id ≠ start + 1 :=
    fun row member => fresh row (List.mem_filter.mp member).1
  obtain ⟨hash, later, rfl⟩ := List.exists_cons_of_ne_nil nonempty
  unfold syncPow
  simp only [read, List.length_cons, lengths, ne_eq, not_true_eq_false,
    ↓reduceIte, small, syncPowWalk_fresh above]
  by_cases missed : Db.missesCheckpoint env (start + 1) hash = true
  · have fails : ¬ Db.PassesCheckpoints env (start + 1) (hash :: later) := by
      intro passes
      have first := passes (start + 1, hash) (by
        rw [Db.numbered_cons, small]
        exact List.mem_cons_self)
      exact absurd missed (by simp [first])
    rw [if_pos missed, if_neg fails]
    rfl
  · rw [if_neg missed]
    simp only [bind, Except.bind, Db.rollbackMismatch, List.length_cons]
    by_cases passes : Db.PassesCheckpoints env (start + 1) (hash :: later)
    · have none : ¬ ((numbered (start + 1) (hash :: later)).any fun entry =>
          Db.missesCheckpoint env entry.1 entry.2) = true := by
        rw [List.any_eq_true]
        rintro ⟨entry, member, missing⟩
        exact absurd missing (by simp [passes entry member])
      have one : later.length + 1 + 1 - (later.length + 1) = 1 := by omega
      rw [if_neg none, if_pos passes, one]
    · have some : ((numbered (start + 1) (hash :: later)).any fun entry =>
          Db.missesCheckpoint env entry.1 entry.2) = true := by
        by_contra none
        refine passes fun entry member => ?_
        simpa using List.any_eq_true.not.mp none ∘ fun missing =>
          ⟨entry, member, missing⟩
      rw [if_pos some, if_neg passes]

private theorem appended_rows (fits : start + size < 2 ^ 64) :
    ((db.appendBlockHashes (start + 1)
          ((List.range' (start + 1) size).map (chain · |>.hash))).appendPow
        (start + 1)
          ((List.range' (start + 1) size).map (powEntry sizes rules chain))) =
      { db with
        blocks := db.blocks.putAll ((List.range' (start + 1) size).map
          fun height => ⟨height, (chain height).hash⟩)
        pows := db.pows.addAll ((List.range' (start + 1) size).map
          (storedPow sizes rules chain)) } := by
  have within : start + 1 + size ≤ 2 ^ 64 := by omega
  unfold Db.appendBlockHashes Db.appendPow
  simp only [Db.bulkInsert_overwrite, Db.bulkInsert_keep,
    numbered_range' _ within, List.map_map]
  congr 2
  refine List.map_congr_left fun height _ => ?_
  cases height <;> rfl

theorem Synced.append (synced : Synced env sizes rules chain db start)
    (nonempty : size ≠ 0) :
    Synced env sizes rules chain
      { db with
        blocks := db.blocks.putAll ((List.range' (start + 1) size).map
          fun height => ⟨height, (chain height).hash⟩)
        pows := db.pows.addAll ((List.range' (start + 1) size).map
          (storedPow sizes rules chain)) } (start + size) := by
  have distinct : ((List.range' (start + 1) size).map fun height =>
      (⟨height, (chain height).hash⟩ : Db.BlockInfo)).Pairwise
        fun first second => first.id ≠ second.id := by
    have sorted : (List.range' (start + 1) size).Pairwise (· < ·) :=
      List.pairwise_lt_range'
    exact List.pairwise_map.mpr (sorted.imp ne_of_lt)
  constructor
  · intro row member
    rcases (SortedRows.mem_putAll distinct).mp member with new | ⟨old, other⟩
    · obtain ⟨height, listed, rfl⟩ := List.mem_map.mp new
      have range := List.mem_range'_1.mp listed
      exact .inl ⟨show height ≤ start + size by lia, rfl⟩
    · rcases synced.known row old with ⟨below, same⟩ | ⟨above, top⟩
      · exact .inl ⟨below.trans (Nat.le_add_right ..), same⟩
      · refine .inr ⟨?_, top⟩
        by_contra within
        refine other _ (List.mem_map.mpr ⟨row.id, ?_, rfl⟩) rfl
        exact List.mem_range'_1.mpr (by lia)
  · refine ⟨⟨start + size, (chain (start + size)).hash⟩,
      (SortedRows.mem_putAll distinct).mpr (.inl (List.mem_map.mpr
        ⟨start + size, List.mem_range'_1.mpr (by omega), rfl⟩)), rfl⟩
  · intro above
    obtain ⟨row, stored, keyed⟩ := synced.checkpoint (by lia)
    refine ⟨row, (SortedRows.mem_putAll distinct).mpr (.inr ⟨stored, ?_⟩),
      keyed⟩
    intro new member same
    obtain ⟨height, listed, rfl⟩ := List.mem_map.mp member
    have range := List.mem_range'_1.mp listed
    have same : row.id = height := same
    lia
  · intro row
    have identified : ∀ stored, stored ∈ db.pows ∨
        stored ∈ (List.range' (start + 1) size).map
          (storedPow sizes rules chain) →
        ∀ new ∈ (List.range' (start + 1) size).map
          (storedPow sizes rules chain), stored.id = new.id →
          stored = new := by
      intro stored known new member same
      obtain ⟨height, listed, rfl⟩ := List.mem_map.mp member
      rcases known with old | other
      · obtain ⟨lower, -, rfl⟩ := (synced.pows stored).mp old
        rw [storedPow_id, storedPow_id] at same
        rw [same]
      · obtain ⟨lower, -, rfl⟩ := List.mem_map.mp other
        rw [storedPow_id, storedPow_id] at same
        rw [same]
    rw [SortedRows.mem_addAll identified, synced.pows row, List.mem_map]
    constructor
    · rintro (⟨height, below, rfl⟩ | ⟨height, listed, rfl⟩)
      · exact ⟨height, below.trans (Nat.le_add_right ..), rfl⟩
      · have range := List.mem_range'_1.mp listed
        exact ⟨height, show height ≤ start + size by lia, rfl⟩
    · rintro ⟨height, below, rfl⟩
      by_cases old : height ≤ start
      · exact .inl ⟨height, old, rfl⟩
      · exact .inr ⟨height, List.mem_range'_1.mpr (by lia), rfl⟩

/-- Hashes behind `start` pass the test of `sync_pow` when each of them hits
its checkpoint. -/
private theorem passes_iff (fits : start + size < 2 ^ 64) :
    Db.PassesCheckpoints env (start + 1)
        ((List.range' (start + 1) size).map (chain · |>.hash)) ↔
      ∀ top, start ≤ top → top < start + size →
        Db.missesCheckpoint env (top + 1) (chain (top + 1)).hash = false := by
  have within : start + 1 + size ≤ 2 ^ 64 := by omega
  unfold Db.PassesCheckpoints
  rw [numbered_range' _ within]
  constructor
  · intro passes top low high
    exact passes _ (List.mem_map.mpr
      ⟨top + 1, List.mem_range'_1.mpr (by lia), rfl⟩)
  · intro hits entry member
    obtain ⟨height, listed, rfl⟩ := List.mem_map.mp member
    obtain ⟨low, high⟩ := List.mem_range'_1.mp listed
    have hit := hits (height - 1) (by omega) (by omega)
    rw [Nat.sub_add_cancel (by omega)] at hit
    exact hit

theorem Synced.fresh (synced : Synced env sizes rules chain db start)
    (apart : start + 1 ≠ env.getMaxHeight) :
    ∀ row ∈ db.blocks, row.id ≠ start + 1 := by
  intro row member keyed
  rcases synced.known row member with ⟨below, -⟩ | ⟨-, top⟩
  · lia
  · exact apart (keyed.symm.trans top)

theorem Synced.found (synced : Synced env sizes rules chain db start) :
    ∃ row ∈ db.blocks, row.id = start ∧ row.hash = (chain start).hash := by
  obtain ⟨row, member, keyed⟩ := synced.last
  rcases synced.known row member with ⟨-, same⟩ | ⟨above, -⟩
  · exact ⟨row, member, keyed, keyed ▸ same⟩
  · exact absurd keyed (ne_of_gt above)

/-- A batch from a clean start stores what the uncut run stores, or fails
where that one fails. -/
theorem Synced.batch (synced : Synced env sizes rules chain db start)
    (clean : CleanStart env sizes start) (notOne : env.getMaxHeight ≠ 1)
    (window : 1 ≤ sizes.checkWindow)
    (shorter : sizes.checkWindow ≤ sizes.blocksCount) (nonempty : size ≠ 0)
    (fits : start + size < 2 ^ 64) :
    (Good env sizes rules chain start size →
      ∃ next, syncBatch env sizes rules db start (chain start)
          (behind chain start size) = .ok next ∧
        Synced env sizes rules chain next (start + size)) ∧
    (¬ Good env sizes rules chain start size →
      ∃ error, syncBatch env sizes rules db start (chain start)
        (behind chain start size) = .error error) := by
  have full : start = 0 ∨ sizes.blocksCount ≤ start :=
    clean.imp_right And.left
  obtain ⟨stored, read, same⟩ := synced.read window shorter full
  have reached : SyncState.Reached sizes rules chain
      ⟨.ofStored stored, (chain start).hash, [(chain start).hash],
        [⟨(chain start).timestamp, ⟨0, 0⟩⟩]⟩ start := ⟨same, rfl⟩
  obtain ⟨passes, fails⟩ := @foldlM_syncBlock env _ _ _ _ size _
    reached
  have apart : start + 1 ≠ env.getMaxHeight := by
    rcases clean with rfl | ⟨-, other⟩
    · exact notOne.symm
    · exact other
  unfold syncBatch
  rw [read]
  by_cases accepted : ∀ top, start ≤ top → top < start + size →
      Accepted sizes rules chain env top
  · obtain ⟨final, folded, hashes, pow⟩ := passes accepted
    have some : (List.range' (start + 1) size).map (chain · |>.hash) ≠ [] := by
      simpa using nonempty
    have good : Good env sizes rules chain start size ↔
        Db.PassesCheckpoints env (start + 1)
          ((List.range' (start + 1) size).map (chain · |>.hash)) := by
      rw [passes_iff fits]
      exact ⟨fun good top low high => (good top low high).2,
        fun hits top low high => ⟨accepted top low high, hits top low high⟩⟩
    simp only [bind, Except.bind, folded, hashes, pow, List.singleton_append]
    rw [syncPow_fresh (by omega) some synced.found (by simp)
      (synced.fresh apart), List.drop_one, List.tail_cons, good]
    refine ⟨fun hits => ⟨_, if_pos hits, ?_⟩, fun misses =>
      ⟨_, if_neg misses⟩⟩
    rw [appended_rows fits]
    exact synced.append nonempty
  · obtain ⟨error, failed⟩ := fails accepted
    refine ⟨fun good => absurd (fun top low high => (good top low high).1)
      accepted, fun _ => ⟨error, ?_⟩⟩
    simp only [bind, Except.bind, failed]

end Batch

/-! ## Clean runs -/

section Runs

variable {env : Env} {sizes : WindowSizes} {rules : PowRules}
  {chain : BlockId → Block} {db next : Db} {start size : ℕ}
  {counts : List ℕ}

theorem good_add (later : ℕ) :
    Good env sizes rules chain start (size + later) ↔
      Good env sizes rules chain start size ∧
        Good env sizes rules chain (start + size) later := by
  constructor
  · intro good
    exact ⟨fun top low high => good top low (by lia),
      fun top low high => good top (by lia) (by lia)⟩
  · rintro ⟨first, second⟩ top low high
    by_cases below : top < start + size
    · exact first top low below
    · exact second top (not_lt.mp below) (by lia)

theorem Synced.batches (synced : Synced env sizes rules chain db start)
    (clean : ∀ first ∈ batchStarts start counts, CleanStart env sizes first)
    (notOne : env.getMaxHeight ≠ 1) (window : 1 ≤ sizes.checkWindow)
    (shorter : sizes.checkWindow ≤ sizes.blocksCount)
    (nonempty : ∀ count ∈ counts, count ≠ 0)
    (fits : start + counts.sum < 2 ^ 64) :
    (Good env sizes rules chain start counts.sum →
      ∃ final, syncBatches env sizes rules chain db start counts =
          .ok final ∧
        Synced env sizes rules chain final (start + counts.sum)) ∧
    (¬ Good env sizes rules chain start counts.sum →
      ∃ error, syncBatches env sizes rules chain db start counts =
        .error error) := by
  induction counts generalizing db start with
  | nil =>
      exact ⟨fun _ => ⟨db, rfl, synced⟩, fun bad => absurd
        (fun top low high => absurd high (not_lt.mpr low)) bad⟩
  | cons count counts induction =>
      rw [List.sum_cons] at fits ⊢
      obtain ⟨headClean, laterClean⟩ := List.forall_mem_cons.mp clean
      obtain ⟨headSome, laterSome⟩ := List.forall_mem_cons.mp nonempty
      obtain ⟨passes, fails⟩ := synced.batch headClean notOne window shorter
        headSome (by omega)
      rw [good_add, syncBatches]
      by_cases first : Good env sizes rules chain start count
      · obtain ⟨next, stored, nextSynced⟩ := passes first
        rw [stored, and_iff_right first, ← Nat.add_assoc]
        exact induction nextSynced laterClean laterSome (by omega)
      · obtain ⟨error, failed⟩ := fails first
        rw [failed]
        exact ⟨fun good => absurd good.1 first, fun _ => ⟨error, rfl⟩⟩

theorem Synced.pows_eq (first : Synced env sizes rules chain db start)
    (second : Synced env sizes rules chain next start) :
    db.pows = next.pows :=
  SortedRows.ext_mem fun row =>
    (first.pows row).trans (second.pows row).symm

theorem openNew_tables (opened : openNew env = .ok db) :
    ∃ (hash : Hash) (later : List (BlockId × Hash)),
      env.checkpoints.rows = (0, hash) :: later ∧
      db.blocks = SortedRows.empty.addAll (⟨0, hash⟩ ::
        (later.getLast?.map fun point =>
          (⟨point.1, point.2⟩ : Db.BlockInfo)).toList) ∧
      db.pows = SortedRows.empty.add ⟨0, 0, ⟨0, 1⟩⟩ := by
  unfold openNew at opened
  split at opened
  · cases opened
  rename_i height hash later rows
  split at opened
  · cases opened
  rename_i zero
  cases opened
  obtain rfl := not_not.mp zero
  exact ⟨hash, later, rows, rfl, rfl⟩

theorem Synced.of_openNew (opened : openNew env = .ok db)
    (genesis : ∀ row ∈ db.blocks, row.id = 0 → row.hash = (chain 0).hash) :
    Synced env sizes rules chain db 0 := by
  obtain ⟨hash, later, rows, blocks, pows⟩ := openNew_tables opened
  have maxHeight : env.getMaxHeight = (later.getLast?.getD (0, hash)).1 := by
    unfold Env.getMaxHeight SortedRows.last?
    rw [rows, List.getLast?_cons]
  have genesisRow : ∃ row ∈ db.blocks, row.id = 0 := by
    rw [blocks]
    exact SortedRows.exists_key_addAll _ List.mem_cons_self
  constructor
  · intro row member
    have stored := member
    rw [blocks] at stored
    rcases SortedRows.mem_of_mem_addAll stored with old | new
    · exact absurd old (SortedRows.not_mem_empty row)
    rcases List.mem_cons.mp new with rfl | last
    · exact .inl ⟨le_rfl, genesis _ member rfl⟩
    · obtain ⟨point, found, rfl⟩ := Option.map_eq_some_iff.mp
        (Option.mem_toList.mp last)
      have sorted := env.checkpoints.sorted
      rw [rows] at sorted
      refine .inr ⟨(List.pairwise_cons.mp sorted).1 point
        (List.mem_of_getLast? found), ?_⟩
      rw [maxHeight, found]
      rfl
  · exact genesisRow
  · intro above
    rw [maxHeight] at above ⊢
    cases found : later.getLast? with
    | none =>
        rw [found] at above
        exact absurd above (lt_irrefl 0)
    | some point =>
        rw [blocks, found]
        exact SortedRows.exists_key_addAll _ (List.mem_cons_of_mem _
          List.mem_cons_self)
  · intro row
    rw [pows]
    constructor
    · intro member
      rcases SortedRows.mem_add.mp member with old | ⟨rfl, -⟩
      · exact absurd old (SortedRows.not_mem_empty row)
      · exact ⟨0, le_rfl, rfl⟩
    · rintro ⟨height, zero, rfl⟩
      obtain rfl := Nat.le_zero.mp zero
      exact SortedRows.mem_add.mpr (.inr ⟨rfl, by simp⟩)

theorem syncBlock_appends {state after : SyncState}
    {entry : BlockId × Block}
    (success : syncBlock env sizes rules state entry = .ok after) :
    after.newHashes = state.newHashes ++ [entry.2.hash] ∧
      ∃ added, after.newPow = state.newPow ++ [added] := by
  unfold syncBlock at success
  dsimp only at success
  split at success
  · cases success
  split at success
  · cases success
  cases success
  exact ⟨rfl, _, rfl⟩

theorem syncBatch_ok {overlap : Block} {blocks : List (BlockId × Block)}
    (success : syncBatch env sizes rules db start overlap blocks = .ok next) :
    ∃ stored final more,
      getPowWindow sizes.blocksCount sizes.checkWindow db start = .ok stored ∧
      blocks.foldlM (syncBlock env sizes rules) ⟨.ofStored stored,
        overlap.hash, [overlap.hash], [⟨overlap.timestamp, ⟨0, 0⟩⟩]⟩ =
          .ok final ∧
      final.newHashes = overlap.hash :: blocks.map (·.2.hash) ∧
      final.newPow = ⟨overlap.timestamp, ⟨0, 0⟩⟩ :: more ∧
      more.length = blocks.length ∧
      syncPow env db start final.newHashes final.newPow = .ok next := by
  obtain ⟨stored, read, rest⟩ := Outcome.bind_eq_ok.mp success
  obtain ⟨final, folded, synced⟩ := Outcome.bind_eq_ok.mp rest
  obtain ⟨hashes, more, pow, lengths⟩ := Outcome.foldlM_consumes
    (fun state later => state.newHashes ++ later.map (·.2.hash) =
        overlap.hash :: blocks.map (·.2.hash) ∧
      ∃ more, state.newPow = ⟨overlap.timestamp, ⟨0, 0⟩⟩ :: more ∧
        more.length + later.length = blocks.length)
    (by
      rintro state entry later after ⟨hashes, more, pow, lengths⟩ stepped
      obtain ⟨newHash, added, newPow⟩ := syncBlock_appends stepped
      refine ⟨?_, more ++ [added], ?_, ?_⟩
      · rw [newHash, ← hashes, List.map_cons, List.append_assoc,
          List.singleton_append]
      · rw [newPow, pow, List.cons_append]
      · rw [← lengths, List.length_append, List.length_singleton,
          List.length_cons, Nat.add_assoc, Nat.add_comm 1])
    ⟨rfl, [], rfl, Nat.zero_add _⟩ folded
  exact ⟨stored, final, more, read, folded, by simpa using hashes, pow,
    by simpa using lengths, synced⟩

theorem syncBatch_genesis {row : Db.BlockInfo} (stored : row ∈ db.blocks)
    (keyed : row.id = 0) (other : row.hash ≠ (chain 0).hash)
    {blocks : List (BlockId × Block)} :
    ∃ error, syncBatch env sizes rules db 0 (chain 0) blocks =
      .error error := by
  cases result : syncBatch env sizes rules db 0 (chain 0) blocks with
  | error error => exact ⟨error, rfl⟩
  | ok next =>
      obtain ⟨_, _, _, _, _, hashes, _, _, synced⟩ := syncBatch_ok result
      have read : db.blocks.find? 0 = some row :=
        SortedRows.find?_eq_some.mpr ⟨stored, keyed⟩
      rw [hashes] at synced
      unfold syncPow at synced
      simp only [read, if_pos other] at synced
      split at synced <;> cases synced

/-! ## What later batches cannot change -/

theorem syncPowWalk_forward {stored : List Db.BlockInfo} {current : BlockId}
    {hashes : List Hash} {stop : WalkEnd}
    (success : Db.syncPowWalk env stored current hashes = .ok stop)
    (fits : current + hashes.length < 2 ^ 64) :
    current ≤ stop.current ∧
      stop.current + stop.chain.length = current + hashes.length := by
  induction hashes generalizing stored current with
  | nil =>
      unfold Db.syncPowWalk at success
      cases success
      exact ⟨le_rfl, rfl⟩
  | cons hash later induction =>
      rw [List.length_cons] at fits
      have small : wrap64 (current + 1) = current + 1 :=
        Nat.mod_eq_of_lt (by lia)
      unfold Db.syncPowWalk at success
      split at success
      · cases success
      split at success
      · cases success
        exact ⟨le_rfl, rfl⟩
      split at success
      · cases success
        exact ⟨le_rfl, rfl⟩
      split at success
      · split at success
        · cases success
        · cases success
          exact ⟨le_rfl, rfl⟩
      · rw [small] at success
        obtain ⟨forward, total⟩ := induction success (by lia)
        exact ⟨by lia, by rw [List.length_cons]; lia⟩

/-- New proof-of-work rows lie where the comparison stopped, or above. -/
theorem syncPow_rows {first : Hash} {hashes : List Hash} {pow : List PowSync}
    (success : syncPow env db start (first :: hashes) pow = .ok next)
    (fits : start + 1 + hashes.length < 2 ^ 64) :
    ∃ stop, Db.syncPowWalk env (db.blocksAfter start) (start + 1) hashes =
        .ok stop ∧ start + 1 ≤ stop.current ∧
      ∀ row ∈ next.pows, row ∈ db.pows ∨ stop.current ≤ row.id := by
  obtain ⟨stop, middle, walked, cut, lengths, -, rfl⟩ :=
    Db.syncPow_writes success
  have small : wrap64 (start + 1) = start + 1 :=
    Nat.mod_eq_of_lt (by omega)
  rw [small, List.tail_cons] at walked
  obtain ⟨forward, total⟩ := syncPowWalk_forward walked fits
  refine ⟨stop, walked, forward, fun row member => ?_⟩
  have kept : ∀ row ∈ middle.pows, row ∈ db.pows := by
    intro row member
    rcases cut with ⟨-, -, pows⟩ | ⟨other, -, -, pows⟩
    · exact pows ▸ member
    · rw [pows, Db.dropBlocks] at member
      dsimp only at member
      split at member
      · exact (SortedRows.mem_filter.mp member).1
      · exact member
  simp only [Db.appendPow, Db.appendBlockHashes, Db.bulkInsert_keep] at member
  rcases SortedRows.mem_of_mem_addAll member with old | new
  · exact .inl (kept row old)
  · obtain ⟨entry, listed, rfl⟩ := List.mem_map.mp new
    obtain ⟨index, read, at_⟩ := Db.mem_numbered.mp listed
    have inside := (List.getElem?_eq_some_iff.mp read).1
    rw [List.length_drop, ← lengths, List.length_cons] at inside
    have unwrapped : wrap64 (stop.current + index) = stop.current + index :=
      Nat.mod_eq_of_lt (by lia)
    right
    show stop.current ≤ entry.1
    rw [at_, unwrapped]
    exact Nat.le_add_right ..

theorem syncBatches_below
    (success : syncBatches env sizes rules chain db start counts = .ok next)
    (fits : start + counts.sum + 1 < 2 ^ 64) {row : BlockPow}
    (stored : row ∈ next.pows) (below : row.id ≤ start) : row ∈ db.pows := by
  induction counts generalizing db start with
  | nil =>
      cases success
      exact stored
  | cons count counts induction =>
      rw [List.sum_cons] at fits
      obtain ⟨middle, batch, rest⟩ := Outcome.bind_eq_ok.mp success
      have kept := induction rest (by omega)
        (below.trans (Nat.le_add_right ..))
      obtain ⟨_, final, _, _, _, hashes, _, _, synced⟩ := syncBatch_ok batch
      rw [hashes] at synced
      have length : ((behind chain start count).map (·.2.hash)).length =
          count := by simp [behind]
      obtain ⟨stop, -, forward, rows⟩ := syncPow_rows synced (by lia)
      rcases rows row kept with old | new
      · exact old
      · exact absurd (forward.trans new) (not_le.mpr (Nat.lt_succ_of_le below))

/-! ## Cuts that show -/

theorem Synced.skips_checkpoint
    (synced : Synced env sizes rules chain db start)
    (below : start + 1 = env.getMaxHeight) (fits : start + size + 2 < 2 ^ 64)
    (success : syncBatch env sizes rules db start (chain start)
      (behind chain start (size + 1)) = .ok next) :
    ∀ row ∈ next.pows, row.id ≠ start + 1 := by
  obtain ⟨_, final, _, _, _, hashes, _, _, stored⟩ := syncBatch_ok success
  rw [hashes, behind_succ, List.map_cons] at stored
  have length : ((behind chain (start + 1) size).map (·.2.hash)).length =
      size := by simp [behind]
  obtain ⟨stop, walked, -, rows⟩ := syncPow_rows stored (by
    rw [List.length_cons]
    lia)
  have small : wrap64 (start + 1 + 1) = start + 1 + 1 :=
    Nat.mod_eq_of_lt (by omega)
  have beyond : start + 2 ≤ stop.current := by
    obtain ⟨point, pointStored, pointKeyed⟩ := synced.checkpoint (by lia)
    have listed : point ∈ db.blocksAfter start :=
      List.mem_filter.mpr ⟨pointStored, by
        rw [pointKeyed, ← below]
        simp⟩
    obtain ⟨row, later, after⟩ := List.exists_cons_of_ne_nil
      (List.ne_nil_of_mem listed)
    have rowListed : row ∈ db.blocksAfter start := by simp [after]
    obtain ⟨rowStored, rowAbove⟩ := List.mem_filter.mp rowListed
    have keyed : row.id = start + 1 := by
      rcases synced.known row rowStored with ⟨within, -⟩ | ⟨-, top⟩
      · exact absurd within (not_le.mpr (by simpa using rowAbove))
      · exact top.trans below.symm
    rw [after] at walked
    unfold Db.syncPowWalk at walked
    split at walked
    · cases walked
    dsimp only at walked
    rw [if_neg (not_not.mpr keyed)] at walked
    split at walked
    · rw [if_pos below.le] at walked
      cases walked
    · rw [small] at walked
      exact (syncPowWalk_forward walked (by lia)).1
  intro row member keyed
  rcases rows row member with old | new
  · obtain ⟨height, within, rfl⟩ := (synced.pows row).mp old
    rw [storedPow_id] at keyed
    lia
  · lia

/-- Difficulty counts the blocks of its window. -/
def countingRules : PowRules :=
  ⟨fun timestamps _ _ => timestamps.length, fun _ => 0, fun _ _ => true,
    fun _ _ => true⟩

private theorem rtake_of_length_le {α : Type} {entries : List α} {count : ℕ}
    (short : entries.length ≤ count) : entries.rtake count = entries := by
  rw [List.rtake, Nat.sub_eq_zero_of_le short, List.drop_zero]

private theorem getLast?_map_range' {α : Type} (entry : ℕ → α)
    (first count : ℕ) :
    ((List.range' first (count + 1)).map entry).getLast? =
      some (entry (first + count)) := by
  rw [List.range'_1_concat, List.map_append, List.map_singleton,
    List.getLast?_concat]

/-- Reading a short table counts genesis, which the uncut run leaves out. -/
theorem Synced.counts_genesis
    (synced : Synced env sizes countingRules chain db start)
    (window : 1 ≤ sizes.checkWindow)
    (shorter : sizes.checkWindow ≤ sizes.blocksCount)
    (positive : start ≠ 0) (short : start < sizes.blocksCount)
    {stored : PowWindow}
    (read : getPowWindow sizes.blocksCount sizes.checkWindow db start =
      .ok stored) :
    ((Window.ofStored stored).trim sizes).cumulative countingRules
        (start + 1) ≠
      ((history sizes countingRules chain start).trim sizes).cumulative
        countingRules (start + 1) := by
  obtain ⟨rows, median, found, members, ids, -⟩ :=
    synced.contiguous.fullWindow (window.trans shorter) window le_rfl
  obtain rfl := Except.ok.inj (read.symm.trans found)
  have first : windowStart sizes.blocksCount start = 0 :=
    if_neg (not_lt.mpr short.le)
  have known := synced.rows_eq fun row member =>
    members row (List.mem_append_left _ member)
  rw [ids positive, first] at known
  obtain ⟨before, rfl⟩ := Nat.exists_eq_succ_of_ne_zero positive
  rw [history_rows, known]
  simp only [Window.cumulative, Window.difficulty, Window.trim,
    Window.ofStored, Window.ofRows, countingRules, List.map_map]
  rw [rtake_of_length_le (by simp; omega), rtake_of_length_le (by simp; omega),
    rtake_of_length_le (by simp; omega), rtake_of_length_le (by simp; omega)]
  simp only [Nat.succ_eq_add_one, Nat.sub_zero, getLast?_map_range',
    List.length_map, List.length_range', Nat.zero_add, Nat.add_comm 1 before,
    Option.getD_some, Function.comp_apply]
  unfold wrap128
  omega

/-- The first row of a batch that counts genesis is not that of the uncut
run. -/
theorem Synced.shows_genesis
    (synced : Synced env sizes countingRules chain db start)
    (window : 1 ≤ sizes.checkWindow)
    (shorter : sizes.checkWindow ≤ sizes.blocksCount)
    (positive : start ≠ 0) (short : start < sizes.blocksCount)
    (apart : start + 1 ≠ env.getMaxHeight) (fits : start + size + 2 < 2 ^ 64)
    (success : syncBatch env sizes countingRules db start (chain start)
      (behind chain start (size + 1)) = .ok next) :
    storedPow sizes countingRules chain (start + 1) ∉ next.pows := by
  obtain ⟨stored, final, more, read, folded, hashes, pow, lengths, synced'⟩ :=
    syncBatch_ok success
  have differ := synced.counts_genesis window shorter positive short read
  rw [behind_succ, List.foldlM_cons] at folded
  obtain ⟨middle, stepped, rest⟩ := Outcome.bind_eq_ok.mp folded
  have added : middle.newPow = [⟨(chain start).timestamp, ⟨0, 0⟩⟩,
      ⟨(chain (start + 1)).timestamp, .setDifficulty
        (((Window.ofStored stored).trim sizes).cumulative countingRules
          (start + 1))⟩] := by
    unfold syncBlock at stepped
    dsimp only at stepped
    split at stepped
    · cases stepped
    split at stepped
    · cases stepped
    cases stepped
    rfl
  obtain ⟨later, extended⟩ := Outcome.foldlM_preserves
    (fun state => ∃ later, state.newPow = middle.newPow ++ later)
    (fun state entry after _ ⟨later, extended⟩ step => by
      obtain ⟨-, last, newPow⟩ := syncBlock_appends step
      exact ⟨later ++ [last], by rw [newPow, extended, List.append_assoc]⟩)
    ⟨[], (List.append_nil _).symm⟩ rest
  rw [hashes, syncPow_fresh (by omega) (by simp [behind]) synced.found
    (by simp [pow, lengths]) (synced.fresh apart)] at synced'
  split at synced'
  · cases synced'
    rw [extended, added]
    intro member
    simp only [Db.appendPow, Db.appendBlockHashes, Db.bulkInsert_keep,
      List.cons_append, List.nil_append, List.drop_one, List.tail_cons]
      at member
    rcases SortedRows.mem_of_mem_addAll member with old | new
    · obtain ⟨height, within, same⟩ := (synced.pows _).mp old
      have keyed := congrArg BlockPow.id same
      rw [storedPow_id, storedPow_id] at keyed
      lia
    · obtain ⟨entry, listed, same⟩ := List.mem_map.mp new
      have keyed : entry.1 = start + 1 :=
        (congrArg BlockPow.id same).trans (storedPow_id _)
      obtain ⟨index, entryRead, height⟩ := Db.mem_numbered.mp listed
      have inside := (List.getElem?_eq_some_iff.mp entryRead).1
      have length : (later.length + 1) = size + 1 := by
        have total := congrArg List.length (pow.symm.trans (extended.trans
          (congrArg (· ++ later) added)))
        simp [lengths, behind] at total
        omega
      rw [List.length_cons, length] at inside
      have unwrapped : wrap64 (start + 1 + index) = start + 1 + index :=
        Nat.mod_eq_of_lt (by omega)
      obtain rfl : index = 0 := by lia
      have first := Option.some.inj entryRead
      have total := congrArg (·.cumulativeDiff.getDifficulty) same
      simp only [← first, storedPow] at total
      rw [BlockDifficulty.get_setDifficulty (Window.cumulative_lt ..),
        BlockDifficulty.get_setDifficulty (Window.cumulative_lt ..)] at total
      exact differ total
  · cases synced'

/-- From a start that is not clean, the first row is missing or another. -/
theorem Synced.shows (synced : Synced env sizes countingRules chain db start)
    (window : 1 ≤ sizes.checkWindow)
    (shorter : sizes.checkWindow ≤ sizes.blocksCount)
    (dirty : ¬ CleanStart env sizes start) (nonempty : size ≠ 0)
    (fits : start + size + 1 < 2 ^ 64)
    (success : syncBatch env sizes countingRules db start (chain start)
      (behind chain start size) = .ok next) :
    storedPow sizes countingRules chain (start + 1) ∉ next.pows := by
  obtain ⟨positive, shows⟩ := not_or.mp dirty
  obtain ⟨size, rfl⟩ := Nat.exists_eq_succ_of_ne_zero nonempty
  by_cases apart : start + 1 = env.getMaxHeight
  · intro member
    exact synced.skips_checkpoint apart (by omega) success _ member
      (storedPow_id _)
  · have short : start < sizes.blocksCount := by
      by_contra long
      exact shows ⟨not_lt.mp long, apart⟩
    exact synced.shows_genesis window shorter positive short apart (by omega)
      success

theorem Synced.batches_show
    (synced : Synced env sizes countingRules chain db start)
    (good : ∀ first size, Good env sizes countingRules chain first size)
    (notOne : env.getMaxHeight ≠ 1) (window : 1 ≤ sizes.checkWindow)
    (shorter : sizes.checkWindow ≤ sizes.blocksCount)
    (dirty : ∃ first ∈ batchStarts start counts,
      ¬ CleanStart env sizes first)
    (nonempty : ∀ count ∈ counts, count ≠ 0)
    (fits : start + counts.sum + 1 < 2 ^ 64)
    (success : syncBatches env sizes countingRules chain db start counts =
      .ok next) :
    ∃ height ≤ start + counts.sum,
      storedPow sizes countingRules chain height ∉ next.pows := by
  induction counts generalizing db start with
  | nil =>
      obtain ⟨first, member, -⟩ := dirty
      cases member
  | cons count counts induction =>
      obtain ⟨headSome, laterSome⟩ := List.forall_mem_cons.mp nonempty
      rw [List.sum_cons] at fits ⊢
      obtain ⟨middle, batch, rest⟩ := Outcome.bind_eq_ok.mp success
      by_cases clean : CleanStart env sizes start
      · obtain ⟨stored, found, storedSynced⟩ := (synced.batch clean notOne
          window shorter headSome (by omega)).1 (good start count)
        obtain rfl := Except.ok.inj (found.symm.trans batch)
        have later : ∃ first ∈ batchStarts (start + count) counts,
            ¬ CleanStart env sizes first := by
          obtain ⟨first, member, unclean⟩ := dirty
          rcases List.mem_cons.mp member with rfl | later
          · exact absurd clean unclean
          · exact ⟨first, later, unclean⟩
        rw [← Nat.add_assoc]
        exact induction storedSynced later laterSome (by omega) rest
      · refine ⟨start + 1, ?_, fun member => ?_⟩
        · exact Nat.add_le_add_left
            ((Nat.pos_of_ne_zero headSome).trans_le (Nat.le_add_right ..))
            start
        · refine synced.shows window shorter clean headSome (by omega) batch
            (syncBatches_below rest (by omega) member ?_)
          rw [storedPow_id]
          exact Nat.add_le_add_left (Nat.pos_of_ne_zero headSome) start

end Runs

/-! ## The result -/

/-- The hash of a checkpoint, or zero. -/
def pointHash (env : Env) (height : BlockId) : Hash :=
  ((env.checkpoints.find? height).map (·.2)).getD 0

/-- A chain through the checkpoints. -/
def checkpointChain (env : Env) (height : BlockId) : Block :=
  ⟨pointHash env height, pointHash env (height - 1), 0⟩

theorem checkpointChain_good (env : Env) (sizes : WindowSizes)
    (start : BlockId) (size : ℕ) :
    Good env sizes countingRules (checkpointChain env) start size := by
  intro top _ _
  refine ⟨⟨rfl, fun _ => ⟨rfl, rfl⟩⟩, ?_⟩
  cases found : env.checkpoints.find? (top + 1) with
  | none => simp [Db.missesCheckpoint, found]
  | some point =>
      simp [Db.missesCheckpoint, checkpointChain, pointHash, found]

theorem checkpointChain_genesis {env : Env} {db : Db}
    (opened : openNew env = .ok db) :
    ∀ row ∈ db.blocks, row.id = 0 →
      row.hash = (checkpointChain env 0).hash := by
  intro row stored keyed
  obtain ⟨hash, later, rows, -, -⟩ := openNew_tables opened
  have listed : (0, hash) ∈ env.checkpoints := by
    rw [← SortedRows.mem_rows, rows]
    exact List.mem_cons_self
  have found : env.checkpoints.find? 0 = some (0, hash) :=
    SortedRows.find?_eq_some.mpr ⟨listed, rfl⟩
  have held := Db.CheckpointsHeld.of_openNew opened row stored _ listed
    keyed.symm
  simp only [checkpointChain, pointHash, found]
  exact held.symm

section Result

variable {env : Env} {sizes : WindowSizes} {db : Db} {size : ℕ}
  {later : List ℕ}

/-- What a run of batches stores in `pows`, if every block is accepted. -/
def storedPows (env : Env) (sizes : WindowSizes) (rules : PowRules)
    (chain : BlockId → Block) (db : Db) (counts : List ℕ) :
    Option (SortedRows BlockPow.id) :=
  (syncBatches env sizes rules chain db 0 counts).toOption.map (·.pows)

/-- Cutting a run into batches changes nothing, whatever the chain and its
rules, exactly when each batch but the first starts where a window is full and
not right below the last checkpoint. -/
theorem batching_independent_iff (opened : openNew env = .ok db)
    (notOne : env.getMaxHeight ≠ 1) (window : 1 ≤ sizes.checkWindow)
    (shorter : sizes.checkWindow ≤ sizes.blocksCount)
    (nonempty : ∀ count ∈ size :: later, count ≠ 0)
    (fits : (size :: later).sum < BlockId.txpool) :
    (∀ rules chain, storedPows env sizes rules chain db (size :: later) =
        storedPows env sizes rules chain db [(size :: later).sum]) ↔
      ∀ start ∈ batchStarts 0 (size :: later), CleanStart env sizes start := by
  have total : 0 + (size :: later).sum + 1 < 2 ^ 64 := by
    unfold BlockId.txpool at fits
    omega
  have whole : ∀ start ∈ batchStarts 0 [(size :: later).sum],
      CleanStart env sizes start := by
    intro start member
    exact .inl (List.mem_singleton.mp member)
  have wholeSome : ∀ count ∈ [(size :: later).sum], count ≠ 0 := by
    intro count member
    rw [List.mem_singleton.mp member, List.sum_cons]
    have some := nonempty size List.mem_cons_self
    omega
  constructor
  · intro same
    by_contra unclean
    push Not at unclean
    have synced := @Synced.of_openNew env sizes countingRules _ _
      opened (checkpointChain_genesis opened)
    have good := checkpointChain_good env sizes
    obtain ⟨uncut, run, stored⟩ := (synced.batches whole notOne window shorter
      wholeSome (by rw [List.sum_singleton]; omega)).1 (good 0 _)
    have both := same countingRules (checkpointChain env)
    unfold storedPows at both
    rw [run] at both
    cases result : syncBatches env sizes countingRules (checkpointChain env)
        db 0 (size :: later) with
    | error error =>
        rw [result] at both
        cases both
    | ok cut =>
        rw [result] at both
        have pows : cut.pows = uncut.pows := Option.some.inj both
        obtain ⟨height, below, missing⟩ := synced.batches_show good notOne
          window shorter unclean nonempty total result
        refine missing ?_
        rw [pows]
        exact (stored.pows _).mpr ⟨height, by simpa using below, rfl⟩
  · intro clean rules chain
    unfold storedPows
    by_cases genesis : ∀ row ∈ db.blocks, row.id = 0 →
        row.hash = (chain 0).hash
    · have synced := @Synced.of_openNew env sizes rules _ _ opened
        genesis
      obtain ⟨passes, fails⟩ := synced.batches clean notOne window shorter
        nonempty (by omega)
      obtain ⟨wholePasses, wholeFails⟩ := synced.batches whole notOne window
        shorter wholeSome (by rw [List.sum_singleton]; omega)
      rw [List.sum_singleton] at wholePasses wholeFails
      by_cases good : Good env sizes rules chain 0 (size :: later).sum
      · obtain ⟨cut, cutRun, cutSynced⟩ := passes good
        obtain ⟨uncut, uncutRun, uncutSynced⟩ := wholePasses good
        rw [cutRun, uncutRun]
        exact congrArg some (cutSynced.pows_eq uncutSynced)
      · obtain ⟨error, failed⟩ := fails good
        obtain ⟨wholeError, wholeFailed⟩ := wholeFails good
        rw [failed, wholeFailed]
        rfl
    · push Not at genesis
      obtain ⟨row, stored, keyed, other⟩ := genesis
      have failed : ∀ count counts, (syncBatches env sizes rules chain db 0
          (count :: counts)).toOption = none := by
        intro count counts
        obtain ⟨error, failed⟩ := @syncBatch_genesis env sizes rules
          _ _ _ stored keyed other (behind chain 0 count)
        rw [syncBatches, failed]
        rfl
      rw [failed, failed]

end Result

/-- Difficulty windows of three blocks, a median window of two. -/
def shortSizes : WindowSizes := ⟨3, 2⟩

/-- Five blocks behind genesis, cut where the windows are full. -/
theorem batching_independent_late :
    storedPows Db.sampleEnv shortSizes countingRules
        (checkpointChain Db.sampleEnv) Db.sampleDb [4, 1] =
      storedPows Db.sampleEnv shortSizes countingRules
        (checkpointChain Db.sampleEnv) Db.sampleDb [5] :=
  (@batching_independent_iff _ shortSizes _ _ _
    (rfl : openNew Db.sampleEnv = .ok Db.sampleDb) (by decide) (by decide)
    (by decide) (by decide) (by decide)).mpr (by decide) _ _

/-- Two blocks in one response, or in two: the second response counts
genesis. -/
theorem batching_shows_genesis :
    ¬ ∀ (env : Env) (sizes : WindowSizes) (db : Db) (size : ℕ)
      (later : List ℕ) (rules : PowRules) (chain : BlockId → Block),
      openNew env = .ok db → env.getMaxHeight ≠ 1 → 1 ≤ sizes.checkWindow →
      sizes.checkWindow ≤ sizes.blocksCount →
      (∀ count ∈ size :: later, count ≠ 0) →
      storedPows env sizes rules chain db (size :: later) =
        storedPows env sizes rules chain db [(size :: later).sum] := by
  intro always
  have same := always Db.sampleEnv ⟨735, 60⟩ Db.sampleDb 1 [1] countingRules
    (checkpointChain Db.sampleEnv) rfl (by decide) (by decide) (by decide)
    (by decide)
  have rows := congrArg (Option.map fun pows : SortedRows BlockPow.id =>
    pows.rows.map (·.cumulativeDiff.low)) same
  exact absurd rows (by decide)

end Scanner

end XfoLws
