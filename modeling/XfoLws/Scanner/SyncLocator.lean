import XfoLws.Db.ChainSync
import XfoLws.Db.StoredBatch
import XfoLws.Scanner.LoopLinks

/-!
# The locators of a sync run

`sync_quick` and `sync_full` ask for what follows the blocks they list.  After
every response they rebuild the list in place: `sync_full` from all blocks of
the response, `sync_quick` from its last hash only.
-/

namespace XfoLws.Scanner

open Db (BlockId BlockInfo Descends EndsAtGenesis getChainSync getPowSync
  syncChain)

/-! ## Rounds -/

/-- `rpc::get_hashes_fast`. -/
structure GetHashesFast where
  startHeight : BlockId
  hashes : List Hash

/-- What a sync run has when it sends a request; `known` is the list in it. -/
structure SyncRun where
  db : Db
  known : List Hash

inductive SyncError where
  | storage (error : Error)
  | badDaemonResponse
deriving DecidableEq, Repr

/-- What a response leads to. -/
inductive SyncReply where
  | synced
  | again (next : SyncRun)

/-- All entries but the last are erased. -/
def keepLast (known : List Hash) : List Hash :=
  known.drop (known.length - 1)

/-- The loop over `num` in `sync_quick`, with the passes left. -/
def insertBacks (hashes : List Hash) : ℕ → List Hash → List Hash
  | 0, known => known
  | left + 1, known =>
      match hashes.getLast? with
      | none => known
      | some back =>
          insertBacks hashes left (known.insertIdx (known.length - 1) back)

/-- The `push_front` of every block that `sync_full` verified. -/
def pushFronts (known : List Hash) (blocks : List Block) : List Hash :=
  blocks.foldl (fun known block => block.hash :: known) known

namespace SyncRun

/-- One response in `sync_quick`. -/
def quick (env : Env) (regtest : Bool) (run : SyncRun)
    (response : GetHashesFast) : Except SyncError SyncReply :=
  if run.known = [] then .error (.storage .badBlockchain)
  else if response.hashes.length ≤ 1 ∨
      response.hashes.getLast? = run.known.head? then .ok .synced
  else
    match syncChain env run.db response.startHeight response.hashes regtest with
    | .error failure => .error (.storage failure)
    | .ok db => .ok (.again
        ⟨db, insertBacks response.hashes 10 (keepLast run.known)⟩)

/-- One response in `sync_full`. -/
def full (env : Env) (sizes : WindowSizes) (rules : PowRules) (run : SyncRun)
    (response : GetBlocksFast) : Except SyncError SyncReply :=
  if run.known = [] then .error (.storage .badBlockchain)
  else
    match response.blocks.map (·.block) with
    | [] => .error .badDaemonResponse
    | [top] =>
        -- error if not past last checkpoint
        if (run.db.blocks.find? response.startHeight).map (·.hash) ≠
            some top.hash ∨ response.startHeight < env.getMaxHeight then
          .error .badDaemonResponse
        else .ok .synced
    | overlap :: blocks =>
        match syncBatch env sizes rules run.db response.startHeight overlap
            (Db.numbered (response.startHeight + 1) blocks) with
        | .error failure => .error (.storage failure)
        | .ok db => .ok (.again ⟨db, pushFronts (keepLast run.known) blocks⟩)

end SyncRun

/-- The two functions that sync the chain, with what they are called with. -/
inductive SyncMode where
  | quick (regtest : Bool)
  | full (sizes : WindowSizes) (rules : PowRules)

namespace SyncMode

def Response : SyncMode → Type
  | quick _ => GetHashesFast
  | full .. => GetBlocksFast

/-- The state of the first request. -/
def begin (env : Env) (db : Db) : SyncMode → Except Error SyncRun
  | quick _ => SyncRun.mk db <$> getChainSync env db
  | full .. => SyncRun.mk db <$> getPowSync env db

def round (env : Env) : (mode : SyncMode) → SyncRun → mode.Response →
    Except SyncError SyncReply
  | quick regtest => SyncRun.quick env regtest
  | full sizes rules => SyncRun.full env sizes rules

def startHeight : (mode : SyncMode) → mode.Response → BlockId
  | quick _ => GetHashesFast.startHeight
  | full .. => GetBlocksFast.startHeight

/-- The hashes of a response, or those of its blocks. -/
def hashes : (mode : SyncMode) → mode.Response → List Hash
  | quick _ => GetHashesFast.hashes
  | full .. => fun response => response.blocks.map (·.block.hash)

/-- A response, with heights of 64 bits, that another request follows. -/
def Step (env : Env) (mode : SyncMode) (run : SyncRun)
    (response : mode.Response) (next : SyncRun) : Prop :=
  mode.startHeight response + (mode.hashes response).length ≤ 2 ^ 64 ∧
    mode.round env run response = .ok (.again next)

def IsFull (mode : SyncMode) : Prop := ∃ sizes rules, mode = full sizes rules

end SyncMode

/-! ## Usable locators -/

/-- The list sent after a response of `hashes` from `start` on, with the
blocks it names. -/
structure LaterLocator (db : Db) (start : BlockId) (hashes known : List Hash)
    (blocks : List BlockInfo) : Prop where
  listed : known = blocks.map BlockInfo.hash
  descends : Descends db (start + (hashes.length - 1)) 0 blocks
  distinct : (∀ left ∈ db.blocks, ∀ right ∈ db.blocks,
    left.hash = right.hash → left = right) → known.Nodup
  front : known.head? = hashes.getLast?
  recent : ∀ hash ∈ hashes.drop
    (hashes.length - min 10 (hashes.length - 1)), hash ∈ known
  -- a daemon that dropped fewer blocks since then
  common : ∀ dropped < min 10 (hashes.length - 1), ∀ shared : Hash → Bool,
    hashes[hashes.length - 1 - dropped]?.any shared = true →
    ∃ block, (blocks.find? fun block => shared block.hash) = some block ∧
      start + (hashes.length - 1 - dropped) ≤ block.id

section Lists

variable {known : List Hash}

theorem keepLast_eq {last : Hash} (ends : known.getLast? = some last) :
    keepLast known = [last] := by
  obtain ⟨front, rfl⟩ := List.getLast?_eq_some_iff.mp ends
  simp [keepLast]

theorem keepLast_length (nonempty : known ≠ []) :
    ∃ last, keepLast known = [last] :=
  ⟨_, keepLast_eq (List.getLast?_eq_some_getLast nonempty)⟩

private theorem insertIdx_length (front rest : List Hash) (back : Hash) :
    (front ++ rest).insertIdx front.length back = front ++ back :: rest := by
  induction front with
  | nil => simp
  | cons hash front induction => simpa using induction

theorem insertBacks_eq {hashes : List Hash} {back last : Hash}
    (read : hashes.getLast? = some back) (left count : ℕ) :
    insertBacks hashes left (List.replicate count back ++ [last]) =
      List.replicate (left + count) back ++ [last] := by
  induction left generalizing count with
  | zero => rw [insertBacks, Nat.zero_add]
  | succ left induction =>
      have inserted : (List.replicate count back ++ [last]).insertIdx
          ((List.replicate count back ++ [last]).length - 1) back =
            List.replicate (count + 1) back ++ [last] := by
        have behind := insertIdx_length (List.replicate count back) [last] back
        rw [List.length_replicate] at behind
        rw [List.length_append, List.length_replicate, List.length_singleton,
          Nat.add_sub_cancel, behind, List.replicate_succ', List.append_assoc]
        rfl
      rw [insertBacks, read]
      dsimp only
      rw [inserted, induction, Nat.add_right_comm, Nat.add_assoc]

theorem pushFronts_eq (known : List Hash) (blocks : List Block) :
    pushFronts known blocks = (blocks.map (·.hash)).reverse ++ known := by
  induction blocks generalizing known with
  | nil => rfl
  | cons block blocks induction =>
      show pushFronts (block.hash :: known) blocks = _
      rw [induction]
      simp

end Lists

/-! ## One round -/

section Full

variable {env : Env} {sizes : WindowSizes} {rules : PowRules} {db : Db}
  {run next : SyncRun} {response : GetBlocksFast} {start tip : ℕ}
  {listed : List BlockInfo} {blocks : List Block}

theorem full_again
    (success : run.full env sizes rules response = .ok (.again next)) :
    ∃ overlap blocks, response.blocks.map (·.block) = overlap :: blocks ∧
      blocks ≠ [] ∧
      syncBatch env sizes rules run.db response.startHeight overlap
        (Db.numbered (response.startHeight + 1) blocks) = .ok next.db ∧
      next.known = pushFronts (keepLast run.known) blocks := by
  unfold SyncRun.full at success
  split at success
  · cases success
  split at success
  · cases success
  · split at success <;> cases success
  · rename_i overlap blocks several read
    split at success
    · cases success
    rename_i stored
    cases success
    refine ⟨overlap, blocks, read, ?_, stored, rfl⟩
    rintro rfl
    exact several rfl

theorem descends_pushFronts (descends : Descends db tip 0 listed)
    (below : tip ≤ start) (stored : ∀ index block,
      blocks[index]? = some block →
        ⟨start + 1 + index, block.hash⟩ ∈ db.blocks) :
    ∃ above top, Descends db top 0 (above ++ listed) ∧
      (blocks ≠ [] → top = start + blocks.length) ∧
      pushFronts (listed.map BlockInfo.hash) blocks =
        (above ++ listed).map BlockInfo.hash ∧
      ∀ index block, blocks[index]? = some block →
        ⟨start + 1 + index, block.hash⟩ ∈ above := by
  induction blocks generalizing start tip listed with
  | nil => exact ⟨[], tip, descends, fun some => absurd rfl some, rfl, nofun⟩
  | cons block blocks induction =>
      have first : (⟨start + 1, block.hash⟩ : BlockInfo) ∈ db.blocks :=
        stored 0 block rfl
      have pushed := descends.push first (Nat.lt_succ_of_le below)
      obtain ⟨above, top, descends, height, known, members⟩ :=
        induction pushed le_rfl fun index other read => by
          rw [Nat.add_assoc (start + 1), Nat.add_comm 1 index]
          exact stored (index + 1) other read
      refine ⟨above ++ [⟨start + 1, block.hash⟩], top, by simpa using descends,
        fun _ => ?_, ?_, ?_⟩
      · rw [List.length_cons]
        by_cases last : blocks = []
        · subst last
          obtain rfl : above = [] := by simpa [pushFronts] using known
          cases descends.first
          rfl
        · rw [height last]
          lia
      · rw [List.append_assoc]
        exact known
      · intro index other read
        cases index with
        | zero =>
            cases read
            simp
        | succ index =>
            have later := members index other read
            rw [show start + 1 + 1 + index = start + 1 + (index + 1) by lia]
              at later
            exact List.mem_append_left _ later

/-- Different heights have different hashes where no hash is stored twice. -/
theorem nodup_of_descends (descends : Descends db tip 0 listed)
    (distinct : ∀ left ∈ db.blocks, ∀ right ∈ db.blocks,
      left.hash = right.hash → left = right) :
    (listed.map BlockInfo.hash).Nodup := by
  refine List.pairwise_map.mpr (descends.decreasing.imp_of_mem ?_)
  intro left right leftListed rightListed below same
  obtain rfl := distinct left (descends.stored left leftListed) right
    (descends.stored right rightListed) same
  exact Nat.lt_irrefl _ below

theorem LaterLocator.of_blocks {first : Hash} {genesis : BlockInfo}
    (nonempty : blocks ≠ []) (genesisStored : genesis ∈ db.blocks)
    (zero : genesis.id = 0) (stored : ∀ index block,
      blocks[index]? = some block →
        ⟨start + 1 + index, block.hash⟩ ∈ db.blocks) :
    ∃ listed, LaterLocator db start (first :: blocks.map (·.hash))
      (pushFronts [genesis.hash] blocks) listed := by
  have lone : Descends db 0 0 [genesis] :=
    ⟨List.pairwise_singleton _ _, by simp [zero], by simp [zero],
      by simpa using genesisStored⟩
  obtain ⟨above, top, descends, height, pushed, members⟩ :=
    descends_pushFronts lone (Nat.zero_le start) stored
  have pushedAll := pushFronts_eq [genesis.hash] blocks
  have positive := List.length_pos_iff.mpr nonempty
  have length : (first :: blocks.map (·.hash)).length = blocks.length + 1 := by
    simp
  refine ⟨above ++ [genesis], pushed, ?_, fun distinct => ?_, ?_, ?_, ?_⟩
  · rw [length, Nat.add_sub_cancel, ← height nonempty]
    exact descends
  · have nodup := nodup_of_descends descends distinct
    rwa [← pushed] at nodup
  · obtain ⟨front, last, rfl⟩ :=
      (List.eq_nil_or_concat' blocks).resolve_left nonempty
    rw [List.map_append, ← List.cons_append, List.map_singleton,
      List.getLast?_concat]
    simp [pushFronts_eq]
  · intro hash recent
    rw [length, Nat.add_sub_cancel, Nat.add_comm,
      Nat.add_sub_assoc (min_le_right _ _), Nat.add_comm 1,
      List.drop_succ_cons] at recent
    rw [pushedAll]
    exact List.mem_append_left _
      (List.mem_reverse.mpr (List.mem_of_mem_drop recent))
  · intro dropped few shared known
    rw [length, Nat.add_sub_cancel] at few known ⊢
    obtain ⟨index, reached⟩ := Nat.exists_eq_add_one_of_ne_zero
      (show blocks.length - dropped ≠ 0 by lia)
    rw [reached, List.getElem?_cons_succ, List.getElem?_map] at known
    cases found : blocks[index]? with
    | none =>
        rw [found] at known
        cases known
    | some block =>
        rw [found] at known
        have member := List.mem_append_left [genesis] (members index block found)
        obtain ⟨common, located, higher⟩ := @Db.first_known_above _
          descends.decreasing (fun other => shared other.hash) _ member known
        refine ⟨common, located, le_trans ?_ higher⟩
        dsimp only
        lia

theorem full_later (ends : EndsAtGenesis run.db run.known)
    (fits : response.startHeight + response.blocks.length ≤ 2 ^ 64)
    (success : run.full env sizes rules response = .ok (.again next)) :
    (∃ listed, LaterLocator next.db response.startHeight
      (response.blocks.map (·.block.hash)) next.known listed) ∧
    EndsAtGenesis next.db next.known := by
  obtain ⟨overlap, blocks, read, nonempty, batch, known⟩ := full_again success
  have hashes : response.blocks.map (·.block.hash) =
      overlap.hash :: blocks.map (·.hash) := by
    have mapped := congrArg (List.map (·.hash)) read
    simpa [List.map_map, Function.comp_def] using mapped
  have length : response.blocks.length = blocks.length + 1 := by
    have counted := congrArg List.length hashes
    simpa using counted
  obtain ⟨_, final, _, _, _, newHashes, _, _, synced⟩ := syncBatch_ok batch
  rw [newHashes, numbered_hashes] at synced
  have stored := Db.syncPow_stores synced (by
    rw [List.length_cons, List.length_map]
    lia)
  obtain ⟨genesis, genesisStored, zero, last⟩ := ends
  have genesisKept : genesis ∈ next.db.blocks :=
    (stored.below genesis (by lia)).mpr genesisStored
  have heights : ∀ index block, blocks[index]? = some block →
      ⟨response.startHeight + 1 + index, block.hash⟩ ∈ next.db.blocks := by
    intro index block found
    have kept := stored.batch (index + 1) block.hash (by simp [found])
    rwa [show response.startHeight + (index + 1) =
      response.startHeight + 1 + index by lia] at kept
  rw [hashes, known, keepLast_eq last]
  refine ⟨LaterLocator.of_blocks nonempty genesisKept zero heights,
    genesis, genesisKept, zero, ?_⟩
  rw [pushFronts_eq, List.getLast?_concat]

end Full

/-- Whatever the response, the list of `sync_quick` repeats its last hash. -/
theorem quick_repeats {env : Env} {regtest : Bool} {run next : SyncRun}
    {response : GetHashesFast}
    (success : run.quick env regtest response = .ok (.again next)) :
    ∃ back last, response.hashes.getLast? = some back ∧
      next.known = List.replicate 10 back ++ [last] := by
  unfold SyncRun.quick at success
  split at success
  · cases success
  rename_i nonempty
  split at success
  · cases success
  rename_i several
  split at success
  · cases success
  cases success
  obtain ⟨last, kept⟩ := keepLast_length nonempty
  obtain ⟨long, -⟩ := not_or.mp several
  have some : response.hashes ≠ [] := by
    intro empty
    rw [empty] at long
    exact long (Nat.zero_le 1)
  have back := List.getLast?_eq_some_getLast some
  refine ⟨_, last, back, ?_⟩
  rw [kept]
  exact insertBacks_eq back 10 0

/-! ## Whole runs -/

theorem full_ends {env : Env} {mode : SyncMode} {db : Db}
    {first last : SyncRun} {responses : List mode.Response}
    (full : mode.IsFull) (begun : mode.begin env db = .ok first)
    (run : Run (mode.Step env) first responses last) :
    EndsAtGenesis last.db last.known := by
  obtain ⟨sizes, rules, rfl⟩ := full
  refine run.preserves (fun run => EndsAtGenesis run.db run.known) ?_ ?_
  · rintro state response next ends ⟨fits, again⟩
    exact (full_later ends (by simpa [SyncMode.startHeight, SyncMode.hashes]
      using fits) again).2
  · obtain ⟨known, read, rfl⟩ := Outcome.map_eq_ok.mp begun
    exact Db.getPowSync_ends read

/-- After every response of `sync_full` the next list is usable.  After a
response of `sync_quick` it never is, as long as no hash is stored twice. -/
theorem later_locator_usable {env : Env} {mode : SyncMode} {db : Db}
    {first before next : SyncRun} {responses : List mode.Response}
    {response : mode.Response} (begun : mode.begin env db = .ok first)
    (run : Run (mode.Step env) first responses before)
    (step : mode.Step env before response next) :
    (mode.IsFull → ∃ blocks, LaterLocator next.db (mode.startHeight response)
      (mode.hashes response) next.known blocks) ∧
    ((∀ left ∈ next.db.blocks, ∀ right ∈ next.db.blocks,
        left.hash = right.hash → left = right) →
      (∃ blocks, LaterLocator next.db (mode.startHeight response)
        (mode.hashes response) next.known blocks) → mode.IsFull) := by
  constructor
  · intro full
    have ends := full_ends full begun run
    obtain ⟨sizes, rules, rfl⟩ := full
    exact (full_later ends (by simpa [SyncMode.startHeight, SyncMode.hashes]
      using step.1) step.2).1
  · rintro distinct ⟨blocks, later⟩
    cases mode with
    | full sizes rules => exact ⟨sizes, rules, rfl⟩
    | quick regtest =>
        obtain ⟨back, last, -, repeated⟩ := quick_repeats step.2
        have nodup := later.distinct distinct
        rw [repeated] at nodup
        exact absurd (List.nodup_cons.mp nodup).1 (by simp)

/-- Two blocks behind genesis are verified and listed. -/
theorem later_locator_usable_at_three :
    ∃ next, SyncMode.Step Db.sampleEnv (.full shortSizes countingRules)
        ⟨Db.sampleDb, [10]⟩ (plainResponse 0 3) next ∧
      ∃ blocks, LaterLocator next.db 0 [10, 11, 12] next.known blocks := by
  obtain ⟨next, step⟩ : ∃ next, SyncMode.Step Db.sampleEnv
      (.full shortSizes countingRules) ⟨Db.sampleDb, [10]⟩ (plainResponse 0 3)
      next := ⟨_, by decide, rfl⟩
  have begun : (SyncMode.full shortSizes countingRules).begin Db.sampleEnv
      Db.sampleDb = .ok ⟨Db.sampleDb, [10]⟩ := rfl
  exact ⟨next, step,
    (later_locator_usable begun (.nil _) step).1 ⟨_, _, rfl⟩⟩

/-- Of the hashes ten, eleven and twelve the next list has twelve ten times,
and not eleven. -/
theorem quick_locator_repeats_tip :
    ¬ ∀ (env : Env) (mode : SyncMode) (db : Db) (first before next : SyncRun)
      (responses : List mode.Response) (response : mode.Response),
      mode.begin env db = .ok first →
      Run (mode.Step env) first responses before →
      mode.Step env before response next →
      ∃ blocks, LaterLocator next.db (mode.startHeight response)
        (mode.hashes response) next.known blocks := by
  intro always
  obtain ⟨next, step, known⟩ : ∃ next, SyncMode.Step Db.sampleEnv
      (.quick false) ⟨Db.sampleDb, [10]⟩ ⟨0, [10, 11, 12]⟩ next ∧
        next.known = List.replicate 10 12 ++ [10] :=
    ⟨_, ⟨by decide, rfl⟩, rfl⟩
  obtain ⟨blocks, later⟩ := always Db.sampleEnv (.quick false) Db.sampleDb
    ⟨Db.sampleDb, [10]⟩ ⟨Db.sampleDb, [10]⟩ next [] ⟨0, [10, 11, 12]⟩ rfl
    (.nil _) step
  have listed := later.recent 11 (by decide)
  rw [known] at listed
  exact absurd listed (by decide)

end XfoLws.Scanner
