import XfoLws.Db.Replacement
import XfoLws.Db.SubaddressAgreement

/-!
# Checkpoints

What the calls that write the chain do to `blocks` and `pows`, and when the
stored hashes stay those of the checkpoints: `sync_pow` looks up every hash it
appends, `sync_chain` and `update` append without looking.
-/

namespace XfoLws.Db

/-! ## Writes to the chain tables -/

/-- Both chain tables are those of `db`. -/
def SameChain (db next : Db) : Prop :=
  next.blocks = db.blocks ∧ next.pows = db.pows

theorem rollbackChain_blocks {db next : Db} {first height : BlockId}
    (success : db.rollbackChain first height = .ok next) :
    SameChain (db.dropBlocks first height) next := by
  obtain ⟨_, _, _, _, _, _, rfl⟩ := rollbackChain_frame success
  exact ⟨rfl, rfl⟩

/-- What a comparison with the response leaves to append to. -/
def Cut (db : Db) (stop : WalkEnd) (middle : Db) : Prop :=
  (stop.mismatch = none ∧ SameChain db middle) ∨
    ∃ row, stop.mismatch = some row ∧
      SameChain (db.dropBlocks row.id stop.current) middle

theorem syncChain_writes {env : Env} {db next : Db} {height : BlockId}
    {hashes : List Hash} {regtest : Bool}
    (success : syncChain env db height hashes regtest = .ok next) :
    ∃ stop middle, stop = syncChainWalk (db.blocksAfter height)
        (wrap64 (height + 1)) hashes.tail ∧
      Cut db stop middle ∧
      next = middle.appendBlockHashes stop.current stop.chain := by
  unfold syncChain at success
  split at success
  · cases success
  · cases success
  rename_i first chain _ _
  split at success
  · cases success
  dsimp only at success
  rw [List.tail_cons]
  generalize syncChainWalk (db.blocksAfter height) (wrap64 (height + 1))
    chain = stop at success
  refine ⟨stop, ?_⟩
  split at success
  · rename_i matched
    cases success
    exact ⟨db, rfl, .inl ⟨matched, rfl, rfl⟩, rfl⟩
  · rename_i row mismatch
    split at success
    · cases success
    obtain ⟨middle, rolled, stored⟩ := Outcome.bind_eq_ok.mp success
    cases stored
    exact ⟨middle, rfl, .inr ⟨row, mismatch, rollbackChain_blocks rolled⟩, rfl⟩

theorem syncPow_writes {env : Env} {db next : Db} {height : BlockId}
    {hashes : List Hash} {pow : List PowSync}
    (success : syncPow env db height hashes pow = .ok next) :
    ∃ stop middle, syncPowWalk env (db.blocksAfter height)
        (wrap64 (height + 1)) hashes.tail = .ok stop ∧
      Cut db stop middle ∧ hashes.length = pow.length ∧
      (∀ entry ∈ numbered stop.current stop.chain,
        missesCheckpoint env entry.1 entry.2 = false) ∧
      next = (middle.appendBlockHashes stop.current stop.chain).appendPow
        stop.current (pow.drop (hashes.length - stop.chain.length)) := by
  unfold syncPow at success
  split at success
  · cases success
  rename_i first chain
  split at success
  · cases success
  rename_i lengths
  split at success
  · cases success
  split at success
  · cases success
  obtain ⟨stop, stopped, rest⟩ := Outcome.bind_eq_ok.mp success
  obtain ⟨middle, rolled, stored⟩ := Outcome.bind_eq_ok.mp rest
  split at stored
  · cases stored
  rename_i passed
  cases stored
  refine ⟨stop, middle, stopped, ?_, not_not.mp lengths, ?_, rfl⟩
  · unfold rollbackMismatch at rolled
    split at rolled
    · cases rolled
      exact .inl ⟨‹_›, rfl, rfl⟩
    · exact .inr ⟨_, ‹_›, rollbackChain_blocks rolled⟩
  · simpa using passed

/-- The entry of the batch that lies on the last stored block it reaches. -/
def updateOffset (db : Db) (height lastUpdate : BlockId) : ℕ :=
  match db.lastBlockId with
  | .error _ => 0
  | .ok lastBlock => sub64 (min lastBlock lastUpdate) height

theorem update_writes {env : Env} {db next : Db} {height : BlockId}
    {chain : List Hash} {users : List ScannedAccount} {pow : List PowSync}
    {out : Updated}
    (success : update env db height chain users pow = .ok (next, out)) :
    SameChain db next ∨
      (env.getMaxHeight ≤ wrap64 (height + (chain.length - 1)) ∧
        ∃ offset first, offset = db.updateOffset height
            (wrap64 (height + (chain.length - 1))) ∧
          first = wrap64 (height + offset + 1) ∧
          next.blocks = (db.appendBlockHashes first
            (chain.drop (offset + 1))).blocks ∧
          next.pows = if pow = [] then db.pows
            else (db.appendPow first (pow.drop (offset + 1))).pows) := by
  rcases update_ok success with
    ⟨-, rfl, -⟩ | ⟨-, lastUpdate, checked, final, rfl, blocks, folded, rfl, -⟩
  · exact .inl ⟨rfl, rfl⟩
  obtain ⟨_, _, _, _, _, _, tables⟩ := updateUsers_frame folded
  have users : (final.flush
        (wrap64 (height + (chain.length - 1)))).db.blocks = checked.blocks ∧
      (final.flush (wrap64 (height + (chain.length - 1)))).db.pows =
        checked.pows := by
    simp only [Updating.flush, tables, and_self]
  generalize (final.flush (wrap64 (height + (chain.length - 1)))).db = stored
    at users ⊢
  rw [users.1, users.2, SameChain, users.1, users.2]
  unfold updateBlocks at blocks
  split at blocks
  · rename_i reached
    refine .inr ⟨reached, ?_⟩
    generalize wrap64 (height + (chain.length - 1)) = lastUpdate at blocks ⊢
    unfold updateChain at blocks
    obtain ⟨lastBlock, lastFound, rest⟩ := Outcome.bind_eq_ok.mp blocks
    split at rest
    · cases rest
    dsimp only at rest
    have offset : db.updateOffset height lastUpdate =
        sub64 (min lastBlock lastUpdate) height := by
      rw [updateOffset, lastFound]
    rw [← offset] at rest
    refine ⟨_, _, rfl, rfl, ?_⟩
    split at rest
    · cases rest
    · cases rest
    split at rest
    · cases rest
    by_cases empty : pow = []
    · rw [if_pos empty] at rest ⊢
      cases rest
      exact ⟨rfl, rfl⟩
    · rw [if_neg empty] at rest ⊢
      cases rest
      exact ⟨rfl, rfl⟩
  · rw [updateHardened_eq blocks]
    exact .inl ⟨rfl, rfl⟩

/-! ## Checkpoint heights -/

/-- Every stored row at a checkpoint height has the hash of the checkpoint. -/
def CheckpointsHeld (env : Env) (db : Db) : Prop :=
  ∀ row ∈ db.blocks, ∀ point ∈ env.checkpoints, point.1 = row.id →
    point.2 = row.hash

/-- The test `sync_pow` makes of the hashes it appends from `first`. -/
def PassesCheckpoints (env : Env) (first : BlockId) (hashes : List Hash) :
    Prop :=
  ∀ entry ∈ numbered first hashes,
    missesCheckpoint env entry.1 entry.2 = false

instance (env : Env) (first : BlockId) (hashes : List Hash) :
    Decidable (PassesCheckpoints env first hashes) :=
  inferInstanceAs (Decidable (∀ entry ∈ numbered first hashes, _))

/-- The part of a response that `sync_chain` or `update` appends would pass
the test of `sync_pow`. -/
def AppendsCheckpoints (env : Env) (db : Db) : Operation → Prop
  | .syncChain height hashes regtest =>
      let stop := syncChainWalk (db.blocksAfter height) (wrap64 (height + 1))
        hashes.tail
      regtest = false ∧ PassesCheckpoints env stop.current stop.chain
  | .update height chain _ _ =>
      let lastUpdate := wrap64 (height + (chain.length - 1))
      let offset := db.updateOffset height lastUpdate
      env.getMaxHeight ≤ lastUpdate →
        PassesCheckpoints env (wrap64 (height + offset + 1))
          (chain.drop (offset + 1))
  | .syncPow .. => True
  | .rollback _ => True
  | _ => False

section Held

variable {env : Env} {db middle next : Db}

/-- The test fails exactly on another hash at a checkpoint height. -/
private theorem missesCheckpoint_eq_false {current : BlockId} {hash : Hash} :
    missesCheckpoint env current hash = false ↔
      ∀ point ∈ env.checkpoints, point.1 = current → point.2 = hash := by
  unfold missesCheckpoint
  cases found : env.checkpoints.find? current with
  | none =>
      have absent := SortedRows.find?_eq_none.mp found
      exact iff_of_true rfl
        fun point member keyed => (absent point member keyed).elim
  | some point =>
      obtain ⟨member, keyed⟩ := SortedRows.find?_eq_some.mp found
      simp only [decide_eq_false_iff_not, not_not]
      constructor
      · intro same other otherMember otherKeyed
        rw [SortedRows.eq_of_key_eq otherMember member
          (otherKeyed.trans keyed.symm)]
        exact same
      · intro all
        exact all point member keyed

theorem CheckpointsHeld.subset (held : CheckpointsHeld env db)
    (rows : ∀ row ∈ next.blocks, row ∈ db.blocks) :
    CheckpointsHeld env next :=
  fun row member => held row (rows row member)

theorem CheckpointsHeld.cut {stop : WalkEnd} (held : CheckpointsHeld env db)
    (cut : Cut db stop middle) : CheckpointsHeld env middle := by
  rcases cut with ⟨-, blocks, -⟩ | ⟨row, -, blocks, -⟩
  · exact held.subset fun row member => blocks ▸ member
  · refine held.subset ?_
    intro other member
    rw [blocks] at member
    exact (SortedRows.mem_filter.mp member).1

/-- Appending keeps the checkpoints exactly when the hashes pass. -/
theorem CheckpointsHeld.append (held : CheckpointsHeld env db)
    {first : BlockId} {hashes : List Hash}
    (passes : PassesCheckpoints env first hashes)
    (blocks : next.blocks = (db.appendBlockHashes first hashes).blocks) :
    CheckpointsHeld env next := by
  intro row member
  rw [blocks, appendBlockHashes, bulkInsert_overwrite] at member
  rcases SortedRows.mem_of_mem_putAll member with old | new
  · exact held row old
  · obtain ⟨entry, entryMember, rfl⟩ := List.mem_map.mp new
    exact missesCheckpoint_eq_false.mp (passes entry entryMember)

theorem CheckpointsHeld.step {operation : Operation}
    (held : CheckpointsHeld env db)
    (appends : AppendsCheckpoints env db operation)
    (success : Step env db operation next) : CheckpointsHeld env next := by
  cases operation with
  | rollback height =>
      have rolled : db.rollback height = .ok next := success
      unfold rollback at rolled
      split at rolled
      · cases rolled
        exact held
      · refine held.subset ?_
        intro row member
        rw [(rollbackChain_blocks rolled).1] at member
        exact (SortedRows.mem_filter.mp member).1
  | syncChain height hashes regtest =>
      obtain ⟨stop, middle, rfl, cut, rfl⟩ := syncChain_writes success
      exact (held.cut cut).append appends.2 rfl
  | syncPow height hashes pow =>
      obtain ⟨stop, middle, -, cut, -, passes, rfl⟩ := syncPow_writes success
      exact (held.cut cut).append passes rfl
  | update height chain users pow =>
      obtain ⟨⟨final, out⟩, updated, rfl⟩ := Outcome.map_eq_ok.mp success
      rcases update_writes updated with
        same | ⟨reached, offset, first, rfl, rfl, blocks, -⟩
      · exact held.subset fun row member => same.1 ▸ member
      · exact held.append (appends reached) blocks
  | _ => exact appends.elim

theorem CheckpointsHeld.of_openNew (opened : openNew env = .ok db) :
    CheckpointsHeld env db := by
  have rows : ∀ row ∈ db.blocks, (row.id, row.hash) ∈ env.checkpoints := by
    unfold openNew at opened
    split at opened
    · cases opened
    rename_i height hash later points
    split at opened
    · cases opened
    cases opened
    intro row member
    rcases SortedRows.mem_of_mem_addAll member with old | new
    · cases old
    rw [← SortedRows.mem_rows, points]
    rcases List.mem_cons.mp new with rfl | last
    · exact List.mem_cons_self
    · obtain ⟨point, found, rfl⟩ := Option.map_eq_some_iff.mp
        (Option.mem_toList.mp last)
      exact List.mem_cons_of_mem _ (List.mem_of_getLast? found)
  intro row member point pointMember sameHeight
  have same := SortedRows.eq_of_key_eq pointMember (rows row member) sameHeight
  rw [same]

end Held

/-- In every run that appends only hashes `sync_pow` would accept, each stored
row at a checkpoint height has the checkpoint's hash. -/
theorem checkpoints_are_held {env : Env} {start final : Db}
    {operations : List Operation} (opened : openNew env = .ok start)
    (run : Run (fun db operation next =>
      AppendsCheckpoints env db operation ∧ Step env db operation next)
      start operations final) : CheckpointsHeld env final :=
  run.preserves (CheckpointsHeld env)
    (fun _ _ _ held step => held.step step.1 step.2) (.of_openNew opened)

/-- The chain is cut below the last checkpoint and synced again. -/
def resyncCalls : List Operation :=
  [.rollback 2, .syncChain 0 [10, 11, 12, 13] false]

theorem checkpoints_are_held_after_rollback :
    CheckpointsHeld gapEnv
      (afterAll gapEnv gapDb resyncCalls) := by
  have run : Run (fun db operation next =>
      AppendsCheckpoints gapEnv db operation ∧
        Step gapEnv db operation next) gapDb resyncCalls
      (afterAll gapEnv gapDb resyncCalls) := by
    refine .cons ⟨trivial, step_after (by decide)⟩
      (.cons ⟨⟨rfl, ?_⟩, step_after (by decide)⟩ (.nil _))
    decide
  exact checkpoints_are_held (rfl : openNew gapEnv = .ok gapDb)
    run

/-- `sync_chain` compares the checkpoint with the hash of the block before it
and then writes over it. -/
theorem sync_chain_overwrites_checkpoint :
    ¬ ∀ (env : Env) (start final : Db) (operations : List Operation),
      openNew env = .ok start →
      (∀ operation ∈ operations, ∃ height hashes,
        operation = .syncChain height hashes false) →
      Run (Step env) start operations final → CheckpointsHeld env final := by
  intro always
  have held := always gapEnv gapDb
    (afterAll gapEnv gapDb [.syncChain 0 [10, 12, 99] false])
    [.syncChain 0 [10, 12, 99] false] rfl (by simp)
    (run_afterAll (by decide))
  have stored : (⟨2, 99⟩ : BlockInfo) ∈
      (afterAll gapEnv gapDb
        [.syncChain 0 [10, 12, 99] false]).blocks := by
    decide
  have point : ((2, 12) : BlockId × Hash) ∈ gapEnv.checkpoints := by
    decide
  exact absurd (held _ stored _ point rfl) (by decide)

end XfoLws.Db
