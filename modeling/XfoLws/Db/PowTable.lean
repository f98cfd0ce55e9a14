import XfoLws.Db.Checkpoints
import XfoLws.Db.Replacement
import Mathlib.Data.List.Range

/-!
# The proof-of-work table

The heights in `pows` are consecutive from zero as long as `sync_pow` and
`update` append where the table ends.  Both find the place from the `blocks`
table, which may be ahead of `pows`.
-/

namespace XfoLws.Db

/-! ## Reading a window -/

structure PowWindow where
  powTimestamps : List ℕ
  cumulativeDiffs : List BlockDifficulty
  medianTimestamps : List ℕ
deriving DecidableEq, Repr

/-- `count` rows with `MDB_NEXT_DUP`. -/
def nextRows : ℕ → List BlockPow → Except Error (List BlockPow)
  | 0, _ => .ok []
  | _ + 1, [] => .error (.notFound .pows .nextDup)
  | count + 1, row :: rows => (row :: ·) <$> nextRows count rows

/-- A loop of `get_pow_window`, from the row of `next` to the row of `last`. -/
def powRows (db : Db) (next last : BlockId) : Except Error (List BlockPow) :=
  match db.pows.find? next with
  | none => .error (.notFound .pows .getBoth)
  | some _ => nextRows (last + 1 - next)
      (db.pows.rows.filter fun row => next ≤ row.id)

/-- The first height in a window; `blocksCount` is
`DIFFICULTY_BLOCKS_COUNT`. -/
def windowStart (blocksCount : ℕ) (last : BlockId) : BlockId :=
  if blocksCount < last then last - (blocksCount - 1) else 0

/-- `storage_reader::get_pow_window`; `checkWindow` is
`BLOCKCHAIN_TIMESTAMP_CHECK_WINDOW`. -/
def getPowWindow (blocksCount checkWindow : ℕ) (db : Db) (last : BlockId) :
    Except Error PowWindow :=
  if last = 0 then .ok ⟨[], [], []⟩
  else do
    let rows ← db.powRows (windowStart blocksCount last) last
    let timestamps := rows.map BlockPow.timestamp
    let diffs := rows.map BlockPow.cumulativeDiff
    if last < checkWindow then .ok ⟨timestamps, diffs, []⟩
    else
      let median ← db.powRows (last - (checkWindow - 1)) last
      .ok ⟨timestamps, diffs, median.map BlockPow.timestamp⟩

/-! ## Contiguous heights -/

/-- The heights in `pows` are zero to `top`. -/
def PowsUpTo (db : Db) (top : BlockId) : Prop :=
  ∀ height, (∃ row ∈ db.pows, row.id = height) ↔ height ≤ top

/-- The window below `last` is there, with a row for each of its heights. -/
def FullWindow (blocksCount checkWindow : ℕ) (db : Db) (last : BlockId) :
    Prop :=
  ∃ rows median : List BlockPow,
    getPowWindow blocksCount checkWindow db last =
      .ok ⟨rows.map BlockPow.timestamp, rows.map BlockPow.cumulativeDiff,
        median.map BlockPow.timestamp⟩ ∧
    (∀ row ∈ rows ++ median, row ∈ db.pows) ∧
    (last ≠ 0 → rows.map BlockPow.id =
      List.range' (windowStart blocksCount last)
        (last + 1 - windowStart blocksCount last)) ∧
    (last ≠ 0 → checkWindow ≤ last → median.map BlockPow.id =
      List.range' (last + 1 - checkWindow) checkWindow)

section Windows

variable {db : Db} {top : BlockId}

private theorem nextRows_of_length {count : ℕ} {rows : List BlockPow}
    (enough : count ≤ rows.length) :
    nextRows count rows = .ok (rows.take count) := by
  induction rows generalizing count with
  | nil =>
      obtain rfl : count = 0 := by simpa using enough
      rfl
  | cons row rows induction =>
      cases count with
      | zero => rfl
      | succ count =>
          rw [nextRows, induction (by simpa using enough)]
          rfl

/-- The heights from `next` on, in table order. -/
private theorem PowsUpTo.heights_from (contiguous : PowsUpTo db top)
    (next : BlockId) :
    (db.pows.rows.filter fun row => next ≤ row.id).map BlockPow.id =
      List.range' next (top + 1 - next) := by
  have sorted : ((db.pows.rows.filter fun row => next ≤ row.id).map
      BlockPow.id).Pairwise (· < ·) :=
    List.pairwise_map.mpr (db.pows.sorted.filter _)
  have ranged : (List.range' next (top + 1 - next)).Pairwise (· < ·) :=
    List.pairwise_lt_range'
  have same : ∀ height,
      height ∈ (db.pows.rows.filter fun row => next ≤ row.id).map BlockPow.id ↔
        height ∈ List.range' next (top + 1 - next) := by
    intro height
    rw [List.mem_range'_1, List.mem_map]
    constructor
    · rintro ⟨row, member, rfl⟩
      obtain ⟨stored, above⟩ := List.mem_filter.mp member
      have below := (contiguous row.id).mp ⟨row, stored, rfl⟩
      have above : next ≤ row.id := by simpa using above
      lia
    · rintro ⟨above, below⟩
      obtain ⟨row, stored, rfl⟩ := (contiguous height).mpr (by lia)
      exact ⟨row, List.mem_filter.mpr ⟨stored, by simpa using above⟩, rfl⟩
  have permutation :=
    (List.perm_ext_iff_of_nodup (sorted.imp ne_of_lt)
      (ranged.imp ne_of_lt)).mpr same
  exact permutation.eq_of_pairwise
    (fun _ _ _ _ below above => (lt_asymm below above).elim) sorted ranged

private theorem PowsUpTo.powRows_ok (contiguous : PowsUpTo db top)
    {next last : BlockId} (ordered : next ≤ last) (within : last ≤ top) :
    ∃ rows, db.powRows next last = .ok rows ∧ (∀ row ∈ rows, row ∈ db.pows) ∧
      rows.map BlockPow.id = List.range' next (last + 1 - next) := by
  obtain ⟨row, stored, keyed⟩ := (contiguous next).mpr (ordered.trans within)
  have found : db.pows.find? next = some row :=
    SortedRows.find?_eq_some.mpr ⟨stored, keyed⟩
  have heights := contiguous.heights_from next
  generalize matching : (db.pows.rows.filter fun row => next ≤ row.id) = later
    at heights
  have length : later.length = top + 1 - next := by
    rw [← List.length_map BlockPow.id, heights, List.length_range']
  refine ⟨later.take (last + 1 - next), ?_, ?_, ?_⟩
  · rw [powRows, found]
    dsimp only
    rw [matching]
    exact nextRows_of_length (by lia)
  · intro row member
    have late := List.mem_of_mem_take member
    rw [← matching] at late
    exact (List.mem_filter.mp late).1
  · rw [List.map_take, heights]
    exact List.take_range'_of_length_ge (by lia)

theorem PowsUpTo.fullWindow (contiguous : PowsUpTo db top)
    {blocksCount checkWindow : ℕ} (counts : 1 ≤ blocksCount)
    (window : 1 ≤ checkWindow) {last : BlockId} (within : last ≤ top) :
    FullWindow blocksCount checkWindow db last := by
  by_cases zero : last = 0
  · refine ⟨[], [], ?_, ?_, ?_, ?_⟩
    · rw [getPowWindow, if_pos zero]
      rfl
    · simp
    · exact fun nonzero => (nonzero zero).elim
    · exact fun nonzero => (nonzero zero).elim
  have start : windowStart blocksCount last ≤ last := by
    unfold windowStart
    split <;> lia
  obtain ⟨rows, read, stored, heights⟩ := contiguous.powRows_ok start within
  by_cases short : last < checkWindow
  · refine ⟨rows, [], ?_, by simpa using stored, fun _ => heights, ?_⟩
    · rw [getPowWindow, if_neg zero, read]
      simp only [Except.bind, bind, if_pos short]
      rfl
    · exact fun _ long => absurd short (by lia)
  · obtain ⟨median, readMedian, storedMedian, heightsMedian⟩ :=
      contiguous.powRows_ok (Nat.sub_le last (checkWindow - 1)) within
    refine ⟨rows, median, ?_, ?_, fun _ => heights, ?_⟩
    · rw [getPowWindow, if_neg zero, read]
      simp only [Except.bind, bind, if_neg short, readMedian]
    · intro row member
      rcases List.mem_append.mp member with first | second
      · exact stored row first
      · exact storedMedian row second
    · intro _ long
      rw [heightsMedian]
      congr 1 <;> lia

end Windows

/-! ## Writing the table -/

/-- A call rolls back to genesis never, and appends behind a stored row. -/
def FollowsPow (env : Env) (db : Db) : Operation → Prop
  | .rollback height => height ≠ 0
  | .syncChain height hashes _ =>
      let stop := syncChainWalk (db.blocksAfter height) (wrap64 (height + 1))
        hashes.tail
      stop.mismatch = none ∨ stop.current ≠ 0
  | .syncPow height hashes _ =>
      ∀ stop, syncPowWalk env (db.blocksAfter height) (wrap64 (height + 1))
          hashes.tail = .ok stop →
        (stop.mismatch = none ∨ stop.current ≠ 0) ∧
          (stop.chain = [] ∨ ∃ row ∈ db.pows, stop.current ≤ row.id + 1)
  | .update height chain _ pow =>
      let lastUpdate := wrap64 (height + (chain.length - 1))
      let offset := db.updateOffset height lastUpdate
      env.getMaxHeight ≤ lastUpdate →
        pow.length ≤ offset + 1 ∨
          ∃ row ∈ db.pows, wrap64 (height + offset + 1) ≤ row.id + 1
  | _ => False

section Writes

variable {env : Env} {db middle next : Db} {top : BlockId}

theorem PowsUpTo.of_pows (contiguous : PowsUpTo db top)
    (pows : next.pows = db.pows) : PowsUpTo next top := by
  intro height
  rw [pows]
  exact contiguous height

theorem PowsUpTo.drop (contiguous : PowsUpTo db top) {first height : BlockId}
    (positive : height ≠ 0)
    (pows : next.pows = (db.dropBlocks first height).pows) :
    ∃ kept, PowsUpTo next kept ∧ (height ≤ top + 1 → height ≤ kept + 1) := by
  by_cases present : height ≤ top
  · refine ⟨height - 1, ?_, by lia⟩
    obtain ⟨row, stored, keyed⟩ := (contiguous height).mpr present
    have found : (db.pows.find? height).isSome = true := by
      rw [SortedRows.find?_eq_some.mpr ⟨stored, keyed⟩]
      rfl
    intro other
    simp only [pows, dropBlocks, found, ↓reduceIte, SortedRows.mem_filter,
      decide_eq_true_eq]
    constructor
    · rintro ⟨kept, ⟨-, below⟩, rfl⟩
      lia
    · intro below
      obtain ⟨kept, keptStored, rfl⟩ := (contiguous other).mpr (by lia)
      exact ⟨kept, ⟨keptStored, by lia⟩, rfl⟩
  · refine ⟨top, ?_, id⟩
    have missing : db.pows.find? height = none := by
      refine SortedRows.find?_eq_none.mpr ?_
      intro row stored keyed
      exact present ((contiguous height).mp ⟨row, stored, keyed⟩)
    refine contiguous.of_pows ?_
    rw [pows, dropBlocks, missing]
    rfl

theorem PowsUpTo.cut {stop : WalkEnd} (contiguous : PowsUpTo db top)
    (positive : stop.mismatch = none ∨ stop.current ≠ 0)
    (cut : Cut db stop middle) :
    ∃ kept, PowsUpTo middle kept ∧
      (stop.current ≤ top + 1 → stop.current ≤ kept + 1) := by
  rcases cut with ⟨-, -, pows⟩ | ⟨row, mismatch, -, pows⟩
  · exact ⟨top, contiguous.of_pows pows, id⟩
  · refine contiguous.drop (positive.resolve_left ?_) pows
    rw [mismatch]
    exact Option.some_ne_none row

/-- Rows appended behind the last one, or over stored ones, leave no gap. -/
private theorem heights_addAll {pows : SortedRows BlockPow.id}
    {first : BlockId} {pow : List PowSync}
    (contiguous : ∀ height, (∃ row ∈ pows, row.id = height) ↔ height ≤ top)
    (follows : wrap64 first ≤ top + 1) :
    ∃ last, ∀ height,
      (∃ row ∈ pows.addAll ((numbered first pow).map fun entry =>
        (⟨entry.1, entry.2.timestamp, entry.2.cumulativeDiff⟩ : BlockPow)),
        row.id = height) ↔ height ≤ last := by
  induction pow generalizing first top pows with
  | nil => exact ⟨top, contiguous⟩
  | cons head rest induction =>
      rw [numbered_cons, List.map_cons, SortedRows.addAll_cons]
      have following : wrap64 (first + 1) ≤ wrap64 first + 1 := by
        unfold wrap64
        lia
      have extended : ∀ height,
          (∃ row ∈ pows.add
            (⟨wrap64 first, head.timestamp, head.cumulativeDiff⟩ : BlockPow),
            row.id = height) ↔ height ≤ max top (wrap64 first) := by
        intro height
        constructor
        · rintro ⟨row, member, rfl⟩
          rcases SortedRows.mem_add.mp member with old | ⟨rfl, -⟩
          · have below := (contiguous row.id).mp ⟨row, old, rfl⟩
            lia
          · exact le_max_right _ _
        · intro below
          by_cases stored : height ≤ top
          · obtain ⟨row, old, keyed⟩ := (contiguous height).mpr stored
            exact ⟨row, SortedRows.mem_add_of_mem old, keyed⟩
          · obtain ⟨row, member, keyed⟩ := SortedRows.exists_key_add pows
              (⟨wrap64 first, head.timestamp, head.cumulativeDiff⟩ : BlockPow)
            exact ⟨row, member, by lia⟩
      exact induction extended (by lia)

theorem PowsUpTo.append (contiguous : PowsUpTo db top) {first : BlockId}
    {pow : List PowSync} (follows : pow = [] ∨ wrap64 first ≤ top + 1)
    (pows : next.pows = (db.appendPow first pow).pows) :
    ∃ last, PowsUpTo next last := by
  unfold PowsUpTo
  simp only [pows, appendPow, bulkInsert_keep]
  rcases follows with rfl | follows
  · exact ⟨top, contiguous⟩
  · exact heights_addAll contiguous follows

/-- Stored rows bound what follows them. -/
private theorem PowsUpTo.follows (contiguous : PowsUpTo db top)
    {first : BlockId} (follows : ∃ row ∈ db.pows, first ≤ row.id + 1) :
    first ≤ top + 1 := by
  obtain ⟨row, stored, below⟩ := follows
  have within := (contiguous row.id).mp ⟨row, stored, rfl⟩
  lia

/-- The comparison of `sync_pow` counts heights in 64 bits. -/
private theorem syncPowWalk_wraps {stored : List BlockInfo}
    {current : BlockId} {chain : List Hash} {stop : WalkEnd}
    (success : syncPowWalk env stored (wrap64 current) chain = .ok stop) :
    wrap64 stop.current = stop.current ∧
      stop.chain.length ≤ chain.length := by
  induction chain generalizing stored current with
  | nil =>
      unfold syncPowWalk at success
      cases success
      exact ⟨Nat.mod_mod _ _, le_rfl⟩
  | cons hash chain induction =>
      unfold syncPowWalk at success
      split at success
      · cases success
      split at success
      · cases success
        exact ⟨Nat.mod_mod _ _, le_rfl⟩
      split at success
      · cases success
        exact ⟨Nat.mod_mod _ _, le_rfl⟩
      split at success
      · split at success
        · cases success
        · cases success
          exact ⟨Nat.mod_mod _ _, le_rfl⟩
      · obtain ⟨wraps, shorter⟩ := induction success
        exact ⟨wraps, by simpa using Nat.le_succ_of_le shorter⟩

theorem PowsUpTo.step {operation : Operation} (contiguous : PowsUpTo db top)
    (follows : FollowsPow env db operation)
    (success : Step env db operation next) :
    ∃ last, PowsUpTo next last := by
  cases operation with
  | rollback height =>
      have rolled : db.rollback height = .ok next := success
      unfold rollback at rolled
      split at rolled
      · cases rolled
        exact ⟨top, contiguous⟩
      · obtain ⟨kept, cut, -⟩ :=
          contiguous.drop follows (rollbackChain_blocks rolled).2
        exact ⟨kept, cut⟩
  | syncChain height hashes regtest =>
      obtain ⟨stop, middle, rfl, cut, rfl⟩ := syncChain_writes success
      obtain ⟨kept, contiguousMiddle, -⟩ := contiguous.cut follows cut
      exact ⟨kept, contiguousMiddle.of_pows rfl⟩
  | syncPow height hashes pow =>
      obtain ⟨stop, middle, stopped, cut, lengths, -, rfl⟩ :=
        syncPow_writes success
      obtain ⟨positive, behind⟩ := follows stop stopped
      obtain ⟨kept, contiguousMiddle, room⟩ := contiguous.cut positive cut
      obtain ⟨wraps, shorter⟩ := syncPowWalk_wraps stopped
      refine contiguousMiddle.append ?_ rfl
      rcases behind with nothing | stored
      · left
        rw [nothing]
        exact List.drop_eq_nil_of_le (by simp [lengths])
      · right
        rw [wraps]
        exact room (contiguous.follows stored)
  | update height chain users pow =>
      obtain ⟨⟨final, out⟩, updated, rfl⟩ := Outcome.map_eq_ok.mp success
      rcases update_writes updated with
        same | ⟨reached, offset, first, rfl, rfl, -, pows⟩
      · exact ⟨top, contiguous.of_pows same.2⟩
      · by_cases empty : pow = []
        · rw [if_pos empty] at pows
          exact ⟨top, contiguous.of_pows pows⟩
        · rw [if_neg empty] at pows
          refine contiguous.append ?_ pows
          rcases follows reached with short | stored
          · exact .inl (List.drop_eq_nil_of_le short)
          · right
            have wraps : ∀ value, wrap64 (wrap64 value) = wrap64 value :=
              fun value => Nat.mod_mod _ _
            rw [wraps]
            exact contiguous.follows stored
  | _ => exact follows.elim

theorem PowsUpTo.of_openNew (opened : openNew env = .ok db) :
    PowsUpTo db 0 := by
  have pows : db.pows = SortedRows.empty.add ⟨0, 0, ⟨0, 1⟩⟩ := by
    unfold openNew at opened
    split at opened
    · cases opened
    split at opened
    · cases opened
    cases opened
    rfl
  intro height
  rw [pows]
  constructor
  · rintro ⟨row, member, rfl⟩
    rcases SortedRows.mem_add.mp member with old | ⟨rfl, -⟩
    · cases old
    · exact le_rfl
  · intro zero
    exact ⟨⟨0, 0, ⟨0, 1⟩⟩, SortedRows.mem_add.mpr (.inr ⟨rfl, by simp⟩),
      (Nat.le_zero.mp zero).symm⟩

end Writes

/-- In every run that appends behind stored proof-of-work rows and keeps
genesis, `pows` has the heights up to some top, and every window below it is
full. -/
theorem pows_are_contiguous {env : Env} {blocksCount checkWindow : ℕ}
    {start final : Db} {operations : List Operation}
    (counts : 1 ≤ blocksCount) (window : 1 ≤ checkWindow)
    (opened : openNew env = .ok start)
    (run : Run (fun db operation next =>
      FollowsPow env db operation ∧ Step env db operation next)
      start operations final) :
    ∃ top, PowsUpTo final top ∧
      ∀ last ≤ top, FullWindow blocksCount checkWindow final last := by
  obtain ⟨top, contiguous⟩ := run.preserves (fun db => ∃ top, PowsUpTo db top)
    (fun _ _ _ kept step => kept.elim fun _ contiguous =>
      contiguous.step step.1 step.2) ⟨0, .of_openNew opened⟩
  exact ⟨top, contiguous,
    fun last within => contiguous.fullWindow counts window within⟩

/-- Four blocks over the preloaded checkpoint, a reorganisation, and a batch
with its proof of work. -/
def powCalls : List Operation :=
  [.syncPow 0 [10, 11, 12, 13] (List.replicate 4 ⟨0, ⟨0, 1⟩⟩),
    .rollback 3, .update 2 [12, 20] [] (List.replicate 2 ⟨0, ⟨0, 1⟩⟩)]

theorem pows_are_contiguous_after_update :
    ∃ top, PowsUpTo (afterAll gapEnv gapDb powCalls) top ∧
      ∀ last ≤ top, FullWindow 735 60
        (afterAll gapEnv gapDb powCalls) last := by
  have run : Run (fun db operation next =>
      FollowsPow gapEnv db operation ∧
        Step gapEnv db operation next) gapDb powCalls
      (afterAll gapEnv gapDb powCalls) := by
    refine .cons ⟨?_, step_after (by decide)⟩
      (.cons ⟨Nat.succ_ne_zero 2, step_after (by decide)⟩
        (.cons ⟨fun _ => .inr ?_, step_after (by decide)⟩ (.nil _)))
    · intro stop stopped
      have reached : (.ok ⟨1, [11, 12, 13], none⟩ : Except Error WalkEnd) =
          .ok stop := stopped
      cases reached
      exact ⟨.inl rfl, .inr ⟨⟨0, 0, ⟨0, 1⟩⟩, by decide, by decide⟩⟩
    · exact ⟨⟨2, 0, ⟨0, 1⟩⟩, by decide, by decide⟩
  exact pows_are_contiguous (by decide) (by decide)
    (rfl : openNew gapEnv = .ok gapDb) run

/-- The first response ends before the checkpoint row and the second one
starts there: its height gets no proof of work. -/
def splitCalls : List Operation :=
  [.syncPow 0 [10, 11] (List.replicate 2 ⟨0, ⟨0, 1⟩⟩),
    .syncPow 1 [11, 12, 13] (List.replicate 3 ⟨0, ⟨0, 1⟩⟩)]

theorem sync_pow_leaves_gap :
    ¬ ∀ (env : Env) (start final : Db) (operations : List Operation),
      openNew env = .ok start →
      (∀ operation ∈ operations, ∃ height hashes pow,
        operation = .syncPow height hashes pow) →
      Run (Step env) start operations final → ∃ top, PowsUpTo final top := by
  intro always
  obtain ⟨top, contiguous⟩ := always gapEnv gapDb
    (afterAll gapEnv gapDb splitCalls) splitCalls rfl
    (by simp [splitCalls]) (run_afterAll (by decide))
  have stored : (⟨3, 0, ⟨0, 1⟩⟩ : BlockPow) ∈
      (afterAll gapEnv gapDb splitCalls).pows := by
    decide
  have missing : ∀ row ∈
      (afterAll gapEnv gapDb splitCalls).pows.rows,
      row.id ≠ 2 := by
    decide
  have reached := (contiguous 3).mp ⟨_, stored, rfl⟩
  obtain ⟨row, member, keyed⟩ := (contiguous 2).mpr (Nat.le_of_succ_le reached)
  exact missing row member keyed

end XfoLws.Db
