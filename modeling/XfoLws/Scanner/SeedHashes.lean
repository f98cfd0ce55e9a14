import XfoLws.Db.StoredBatch
import XfoLws.Scanner.LoopLinks
import XfoLws.Scanner.LoopRuns
import XfoLws.Util.Blocks

/-!
# Seeds of the accepted chain

Both callers of `get_block_longhash` pass it the hashes of the batch they are
verifying, from the height of the first one on.  Whatever batch is verified, a
seed is found; and once the batch is accepted, the stored chain has the seeds
it was verified with.
-/

namespace XfoLws.Scanner

open Db (BlockId PowSync PowWindow BlocksToPow StoresChain OnStoredChain
  Compares getPowWindow syncPow)
open Outcome (Along)

/-! ## Verification with the long hash -/

/-- What the check of a proof of work computes from a block. -/
structure Mining (β : Type) extends Util.PowHashing β where
  majorVersion : Block → ℕ
  hashingBlob : Block → β
  checkHash : Hash → ℕ → Bool

namespace Mining

variable {β : Type} (mining : Mining β)

/-- The call of `get_block_longhash` for a block. -/
def longhash (block : Block) (height : BlockId) (disk : Db)
    (cachedStart : BlockId) (cached : List Hash) :
    Except Util.LonghashError Hash :=
  mining.getBlockLonghash (mining.hashingBlob block) height
    (mining.majorVersion block) disk cachedStart cached

/-- The rules for the block at `height`, with its long hash.  One that throws
ends the batch like one that fails the check. -/
def rulesAt (rules : PowRules) (height : BlockId) (disk : Db)
    (cachedStart : BlockId) (cached : List Hash) : PowRules :=
  { rules with checkHash := fun block difficulty =>
      match mining.longhash block height disk cachedStart cached with
      | .ok pow => mining.checkHash pow difficulty
      | .error _ => false }

section SyncFull

variable (env : Env) (sizes : WindowSizes) (rules : PowRules) (db : Db)
  (start : BlockId)

/-- One pass of the loop in `sync_full`. -/
def syncMined (state : SyncState) (entry : BlockId × Block) :
    Except Error SyncState :=
  syncBlock env sizes
    (mining.rulesAt rules entry.1 db start state.newHashes) state entry

/-- `sync_full` before the blocks behind the overlap. -/
def syncStart (stored : PowWindow) (overlap : Block) : SyncState :=
  ⟨.ofStored stored, overlap.hash, [overlap.hash],
    [⟨overlap.timestamp, ⟨0, 0⟩⟩]⟩

/-- `sync_full` on one response. -/
def syncMinedBatch (overlap : Block) (blocks : List (BlockId × Block)) :
    Except Error Db := do
  let stored ← getPowWindow sizes.blocksCount sizes.checkWindow db start
  let state ← blocks.foldlM (mining.syncMined env sizes rules db start)
    (syncStart stored overlap)
  syncPow env db start state.newHashes state.newPow

end SyncFull

section Loop

variable (context : LoopContext) (disk : Option Db)
  (stopped : BlockId → Bool)

/-- The loop, with the rules for the block behind `state`. -/
def contextAt (initial : BlockId) (state : Processing) : LoopContext :=
  { context with
    rules := disk.elim context.rules fun db =>
      mining.rulesAt context.rules (wrap64 (state.height + 1)) db initial
        state.blockchain }

/-- One pass of the loop over the blocks of a response. -/
def processMined (initial : BlockId) (state : Processing)
    (entry : BlockWithTransactions × List (List ℕ)) :
    Except LoopExit Processing :=
  state.processBlock (mining.contextAt context disk initial state) disk stopped
    entry

/-- A response of two or more blocks. -/
def processMinedResponse (users : List LwsAccount) (window : Window)
    (response : GetBlocksFast) : Except LoopExit Processing :=
  if response.blocks.length ≠ response.outputIndices.length then
    .error (.runtime
      "Bad daemon response - need same number of blocks and indices")
  else do
    let window ← context.startWindow disk response.scanned.1 window
    response.scanned.2.foldlM
      (mining.processMined context disk stopped response.scanned.1)
      (context.begin disk users response window)

end Loop

/-! ## The seeds -/

/-- If the hash of a block is keyed, its seed is found, and it `fits`. -/
def Seeded (block : Block) (height : BlockId) (disk : Db)
    (cachedStart : BlockId) (cached : List Hash) (fits : Hash → Prop) : Prop :=
  mining.UsesSeed height (mining.majorVersion block) →
  ∃ hash, mining.seedHash disk cachedStart cached height = .ok hash ∧
    mining.longhash block height disk cachedStart cached =
      .ok (mining.rxSlowHash hash (mining.hashingBlob block)) ∧ fits hash

/-- Every block of a response that `sync_full` checks finds its seed; that is
the stored hash at its height, if `sync_pow` accepts the response. -/
def SyncSeedsStored (env : Env) (sizes : WindowSizes) (rules : PowRules)
    (db : Db) (start : BlockId) (overlap : Block) (blocks : List Block) :
    Prop :=
  ∀ stored,
    getPowWindow sizes.blocksCount sizes.checkWindow db start = .ok stored →
    Along (mining.syncMined env sizes rules db start)
      (fun state entry => env.getMaxHeight < entry.1 →
        mining.Seeded entry.2 entry.1 db start state.newHashes fun hash =>
          ∀ next, mining.syncMinedBatch env sizes rules db start overlap
              (Db.numbered (start + 1) blocks) = .ok next →
            ⟨mining.rxSeedheight entry.1, hash⟩ ∈ next.blocks)
      (syncStart stored overlap) (Db.numbered (start + 1) blocks)

section Loop

variable (context : LoopContext) (db : Db) (stopped : BlockId → Bool)
  (users : List LwsAccount) (window : Window) (response : GetBlocksFast)

/-- The loop verifies a response, and `update` accepts it at the height it was
verified from, by comparing it with a stored block. -/
def LoopStores (next : Db) : Prop :=
  ∃ (final : Processing) (scanned : List Db.ScannedAccount) (out : Db.Updated),
    mining.processMinedResponse context (some db) stopped users window
      response = .ok final ∧
    frontHeight final.users = response.scanned.1 ∧
    Compares context.env db final.height ∧
    Db.update context.env db (frontHeight final.users) final.blockchain
      scanned final.newPow = .ok (next, out)

/-- Every block of a response that the loop checks finds its seed; that is the
hash at its height on the stored chain, if the response is stored and hashes
have one predecessor. -/
def LoopSeedsStored : Prop :=
  context.untrustedDaemon = true → ∀ started,
    context.startWindow (some db) response.scanned.1 window = .ok started →
    Along (mining.processMined context (some db) stopped response.scanned.1)
      (fun state entry => context.lastPow < wrap64 (state.height + 1) →
        mining.Seeded entry.1.block (wrap64 (state.height + 1)) db
          response.scanned.1 state.blockchain fun hash =>
          ∀ next, mining.LoopStores context db stopped users window response
              next →
            ∀ parent, StoresChain parent db →
              (∀ data ∈ response.blocks,
                parent data.block.hash = data.block.prevId) →
              OnStoredChain parent next
                (mining.rxSeedheight (wrap64 (state.height + 1))) hash)
      (context.begin (some db) users response started) response.scanned.2

end Loop

/-! ## Finding the seed -/

section Found

variable {mining : Mining β} {block : Block} {height cachedStart : BlockId}
  {disk : Db} {cached : List Hash} {fits : Hash → Prop}

/-- The seed of the block behind the cached ones fits, if every seed that is
cached or stored below does. -/
theorem Seeded.of_found
    (below : 1 ≤ height → mining.rxSeedheight height < height)
    (behind : height = cachedStart + cached.length)
    (stored : ∀ lower < cachedStart, ∃ row ∈ disk.blocks, row.id = lower)
    (ofCached : ∀ index hash, mining.rxSeedheight height =
      cachedStart + index → cached[index]? = some hash → fits hash)
    (ofStored : ∀ hash, mining.rxSeedheight height < cachedStart →
      ⟨mining.rxSeedheight height, hash⟩ ∈ disk.blocks → fits hash) :
    mining.Seeded block height disk cachedStart cached fits := by
  intro keyed
  obtain ⟨hash, found, known⟩ := Util.PowHashing.seedHash_found
    (below (Nat.pos_of_ne_zero keyed.2.2)) behind stored
  refine ⟨hash, found, Util.PowHashing.getBlockLonghash_keyed keyed found, ?_⟩
  rcases known with ⟨index, position, read⟩ | ⟨under, member⟩
  · exact ofCached index hash position read
  · exact ofStored hash under member

end Found

section SyncFull

variable {mining : Mining β} {env : Env} {sizes : WindowSizes}
  {rules : PowRules} {db next : Db} {start : BlockId} {hashes : List Hash}
  {state after : SyncState} {rest : List (BlockId × Block)}

/-- `rest` is still to come behind the hashes so far. -/
def SyncAt (start : BlockId) (hashes : List Hash) (state : SyncState)
    (rest : List (BlockId × Block)) : Prop :=
  state.newHashes ++ rest.map (·.2.hash) = hashes ∧
    ∀ index entry, rest[index]? = some entry →
      entry.1 = start + state.newHashes.length + index

theorem SyncAt.begin {stored : PowWindow} {overlap : Block}
    {blocks : List Block} (fits : start + 1 + blocks.length ≤ 2 ^ 64) :
    SyncAt start (overlap.hash :: blocks.map (·.hash))
      (syncStart stored overlap) (Db.numbered (start + 1) blocks) := by
  refine ⟨by rw [numbered_hashes]; rfl, fun index entry read => ?_⟩
  rw [Db.getElem?_numbered] at read
  obtain ⟨block, found, rfl⟩ := Option.map_eq_some_iff.mp read
  have inside := (List.getElem?_eq_some_iff.mp found).1
  exact Nat.mod_eq_of_lt (by lia)

theorem SyncAt.step {entry : BlockId × Block}
    (at_ : SyncAt start hashes state (entry :: rest))
    (stepped : mining.syncMined env sizes rules db start state entry =
      .ok after) : SyncAt start hashes after rest := by
  obtain ⟨appended, -⟩ := syncBlock_appends stepped
  obtain ⟨split, heights⟩ := at_
  refine ⟨?_, fun index other read => ?_⟩
  · rw [appended, ← split, List.append_assoc]
    rfl
  · rw [appended, List.length_append, List.length_singleton,
      heights (index + 1) other read]
    lia

theorem syncMinedBatch_ok {overlap : Block} {blocks : List Block}
    (fits : start + 1 + blocks.length ≤ 2 ^ 64)
    (success : mining.syncMinedBatch env sizes rules db start overlap
      (Db.numbered (start + 1) blocks) = .ok next) :
    Db.BatchStored db next start (overlap.hash :: blocks.map (·.hash)) := by
  obtain ⟨stored, -, run⟩ := Outcome.bind_eq_ok.mp success
  obtain ⟨final, folded, synced⟩ := Outcome.bind_eq_ok.mp run
  obtain ⟨all, -⟩ := Outcome.foldlM_consumes (SyncAt start _)
    (fun _ _ _ _ at_ stepped => at_.step stepped) (SyncAt.begin fits) folded
  rw [List.map_nil, List.append_nil] at all
  rw [all] at synced
  exact Db.syncPow_stores synced (by
    rw [List.length_cons, List.length_map]
    lia)

theorem syncSeedsStored
    (below : ∀ height, 1 ≤ height → mining.rxSeedheight height < height)
    (contiguous : BlocksToPow db) {overlap : Block} {blocks : List Block}
    (fits : start + 1 + blocks.length ≤ 2 ^ 64) :
    mining.SyncSeedsStored env sizes rules db start overlap blocks := by
  intro stored read
  refine Along.of_consumes
    (SyncAt start (overlap.hash :: blocks.map (·.hash))) ?_
    (fun _ _ _ _ at_ stepped => at_.step stepped) (SyncAt.begin fits)
  rintro state ⟨height, block⟩ rest ⟨split, heights⟩ -
  have behind : height = start + state.newHashes.length :=
    heights 0 (height, block) rfl
  refine .of_found (below height) behind (contiguous.below read) ?_ ?_
  · intro index hash position cached final success
    have inside := (List.getElem?_eq_some_iff.mp cached).1
    have listed : (overlap.hash :: blocks.map (·.hash))[index]? =
        some hash := by
      rw [← split, List.getElem?_append_left inside]
      exact cached
    rw [position]
    exact (syncMinedBatch_ok fits success).batch index hash listed
  · intro hash under member final success
    exact ((syncMinedBatch_ok fits success).below _ (Nat.le_of_lt under)).mpr
      member

end SyncFull

section Loop

variable {mining : Mining β} {context : LoopContext} {db : Db}
  {disk : Option Db} {stopped : BlockId → Bool} {users : List LwsAccount}
  {window : Window} {response : GetBlocksFast} {start : BlockId}
  {hashes : List Hash} {state after final : Processing}
  {entry : BlockWithTransactions × List (List ℕ)}
  {rest : List (BlockWithTransactions × List (List ℕ))}

/-- The hash list of a response that is scanned to its end. -/
def hashList (response : GetBlocksFast) : List Hash :=
  response.blocks.head?.toList.map (·.block.hash) ++
    response.scanned.2.map (·.1.block.hash)

/-- `rest` is still to come behind the hashes so far. -/
def LoopAt (start : BlockId) (hashes : List Hash) (state : Processing)
    (rest : List (BlockWithTransactions × List (List ℕ))) : Prop :=
  state.blockchain ++ rest.map (·.1.block.hash) = hashes ∧
    state.height + 1 = start + state.blockchain.length

theorem LoopAt.begin (some : response.blocks ≠ []) :
    LoopAt response.scanned.1 (hashList response)
      (context.begin disk users response window) response.scanned.2 := by
  obtain ⟨first, others, blocks⟩ := List.exists_cons_of_ne_nil some
  unfold LoopAt hashList LoopContext.begin
  rw [blocks]
  exact ⟨rfl, rfl⟩

theorem LoopAt.next (at_ : LoopAt start hashes state (entry :: rest))
    (fits : start + hashes.length ≤ 2 ^ 64) :
    wrap64 (state.height + 1) = start + state.blockchain.length := by
  obtain ⟨split, height⟩ := at_
  have length := congrArg List.length split
  rw [List.length_append, List.length_map, List.length_cons] at length
  rw [height]
  exact Nat.mod_eq_of_lt (by lia)

theorem LoopAt.step (fits : start + hashes.length ≤ 2 ^ 64)
    (at_ : LoopAt start hashes state (entry :: rest))
    (stepped : mining.processMined context disk stopped start state entry =
      .ok after) : LoopAt start hashes after rest := by
  obtain ⟨height, appended, -, -⟩ := Processing.processBlock_ok stepped
  have next := at_.next fits
  refine ⟨?_, ?_⟩
  · rw [appended, ← at_.1, List.append_assoc]
    rfl
  · rw [height, next, appended, List.length_append, List.length_singleton]
    lia

theorem hashList_fits
    (fits : response.startHeight + response.blocks.length < 2 ^ 64) :
    response.scanned.1 + (hashList response).length < 2 ^ 64 := by
  have first : response.blocks.head?.toList.length ≤ 1 := by
    cases response.blocks.head? <;> simp
  have zipped : (response.blocks.zip response.outputIndices).length ≤
      response.blocks.length := by
    rw [List.length_zip]
    exact min_le_left _ _
  unfold hashList GetBlocksFast.scanned
  dsimp only
  split
  · by_cases empty : response.blocks = []
    · rw [empty] at fits ⊢
      exact fits
    · have positive := List.length_pos_iff.mpr empty
      simp only [List.length_append, List.length_map, List.length_drop]
      lia
  · simp only [List.length_append, List.length_map]
    lia

theorem mem_of_scanned (member : entry ∈ response.scanned.2) :
    entry.1 ∈ response.blocks := by
  have zipped : entry ∈ response.blocks.zip response.outputIndices := by
    unfold GetBlocksFast.scanned at member
    dsimp only at member
    split at member
    · exact List.mem_of_mem_drop member
    · exact member
  exact (List.of_mem_zip zipped).1

/-- A response that passes is linked, and its hashes end at its height. -/
theorem processMinedResponse_ok (untrusted : context.untrustedDaemon = true)
    (some : response.blocks ≠ [])
    (fits : response.startHeight + response.blocks.length < 2 ^ 64)
    (success : mining.processMinedResponse context disk stopped users window
      response = .ok final) :
    final.blockchain = hashList response ∧
      final.height + 1 = response.scanned.1 + (hashList response).length ∧
      ∀ parent : Hash → Hash, (∀ data ∈ response.blocks,
        parent data.block.hash = data.block.prevId) →
        LinkedList parent (hashList response) := by
  unfold processMinedResponse at success
  split at success
  · cases success
  obtain ⟨started, -, folded⟩ := Outcome.bind_eq_ok.mp success
  obtain ⟨all, height⟩ := Outcome.foldlM_consumes (LoopAt _ _)
    (fun _ _ _ _ at_ stepped => at_.step (hashList_fits fits).le stepped)
    (LoopAt.begin some) folded
  rw [List.map_nil, List.append_nil] at all
  rw [← all]
  refine ⟨rfl, height, fun parent names => ?_⟩
  refine Outcome.foldlM_preserves
    (fun state => LinkedList parent state.blockchain) ?_ ?_ folded
  · intro state entry next member linked stepped
    obtain ⟨-, appended, -, link⟩ := Processing.processBlock_ok stepped
    rw [appended]
    exact linked.concat (link untrusted) (names _ (mem_of_scanned member))
  · intro index before later _ laterRead
    have inside := (List.getElem?_eq_some_iff.mp laterRead).1
    have one : (context.begin disk users response started).blockchain.length ≤
        1 := by
      unfold LoopContext.begin
      cases response.blocks.head? <;> simp
    lia

/-- A stored response is linked, and meets the stored chain. -/
theorem LoopStores.meets {next : Db}
    (stores : mining.LoopStores context db stopped users window response next)
    (untrusted : context.untrustedDaemon = true)
    (some : response.blocks ≠ [])
    (fits : response.startHeight + response.blocks.length < 2 ^ 64) :
    (∃ row, Db.Meets db next response.scanned.1 (hashList response) row) ∧
      ∀ parent : Hash → Hash, (∀ data ∈ response.blocks,
        parent data.block.hash = data.block.prevId) →
        LinkedList parent (hashList response) := by
  obtain ⟨final, scanned, out, success, front, compares, updated⟩ := stores
  obtain ⟨all, ends, linked⟩ :=
    processMinedResponse_ok untrusted some fits success
  have nonempty : hashList response ≠ [] := by
    obtain ⟨first, others, blocks⟩ := List.exists_cons_of_ne_nil some
    simp [hashList, blocks]
  have positive := List.length_pos_iff.mpr nonempty
  rw [front, all] at updated
  rw [show final.height = response.scanned.1 +
    ((hashList response).length - 1) by lia] at compares
  exact ⟨Db.update_meets nonempty (hashList_fits fits) compares updated,
    linked⟩

theorem LoopStores.storesChain {next : Db} {parent : Hash → Hash}
    (stores : mining.LoopStores context db stopped users window response next)
    (untrusted : context.untrustedDaemon = true)
    (some : response.blocks ≠ [])
    (fits : response.startHeight + response.blocks.length < 2 ^ 64)
    (chained : StoresChain parent db) (names : ∀ data ∈ response.blocks,
      parent data.block.hash = data.block.prevId) :
    StoresChain parent next := by
  obtain ⟨⟨row, meets⟩, linked⟩ := stores.meets untrusted some fits
  exact meets.storesChain (hashList_fits fits) chained (linked parent names)

theorem loopSeedsStored
    (below : ∀ height, 1 ≤ height → mining.rxSeedheight height < height)
    (contiguous : BlocksToPow db) (some : response.blocks ≠ [])
    (fits : response.startHeight + response.blocks.length < 2 ^ 64) :
    mining.LoopSeedsStored context db stopped users window response := by
  intro untrusted started read
  have small := hashList_fits fits
  have stored : ∀ lower < response.scanned.1, ∃ row ∈ db.blocks,
      row.id = lower := by
    unfold LoopContext.startWindow at read
    rw [untrusted] at read
    dsimp only at read
    split at read
    · rename_i window
      exact contiguous.below window
    · cases read
  refine Along.of_consumes (LoopAt response.scanned.1 (hashList response)) ?_
    (fun _ _ _ _ at_ stepped => at_.step small.le stepped) (LoopAt.begin some)
  intro state entry rest at_ _checked
  have behind := at_.next small.le
  refine .of_found (below _) behind stored ?_ ?_
  · intro index hash position cached next stores parent chained names
    obtain ⟨⟨row, meets⟩, linked⟩ := stores.meets untrusted some fits
    have inside := (List.getElem?_eq_some_iff.mp cached).1
    have listed : (hashList response)[index]? = .some hash := by
      rw [← at_.1, List.getElem?_append_left inside]
      exact cached
    have within := (List.getElem?_eq_some_iff.mp listed).1
    rw [position]
    exact meets.onStoredChain small chained (linked parent names)
      (.inr ⟨index, listed, rfl⟩) (by lia)
  · intro hash under member next stores parent chained names
    obtain ⟨⟨row, meets⟩, linked⟩ := stores.meets untrusted some fits
    exact meets.onStoredChain small chained (linked parent names)
      (.inl ⟨_, member, rfl⟩) (by lia)

end Loop

/-! ## The result -/

/-- Seeds lie at multiples of 2048, with a lag of 64 blocks. -/
def epochMining : Mining Hash where
  rxBlockVersion := 12
  rxSeedheight := fun height =>
    if height ≤ 2048 + 64 then 0 else (height - 64 - 1) / 2048 * 2048
  rxSlowHash := fun seed blob => seed + blob
  cnSlowHash := fun blob _ _ => blob
  majorVersion := fun _ => 12
  hashingBlob := fun block => block.hash
  checkHash := fun _ _ => true

theorem epoch_below (height : BlockId) (positive : 1 ≤ height) :
    epochMining.rxSeedheight height < height := by
  unfold epochMining
  dsimp only
  split <;> lia

/-- Every seed is found, whatever is verified; and an accepted batch is stored
on the chain that has the seeds it was verified with. -/
theorem seeds_of_stored_chain {mining : Mining β} {db : Db}
    (below : ∀ height, 1 ≤ height → mining.rxSeedheight height < height)
    (contiguous : BlocksToPow db) :
    (∀ (env : Env) (sizes : WindowSizes) (rules : PowRules) (start : BlockId)
      (overlap : Block) (blocks : List Block),
      start + 1 + blocks.length ≤ 2 ^ 64 →
      mining.SyncSeedsStored env sizes rules db start overlap blocks) ∧
    ∀ (context : LoopContext) (stopped : BlockId → Bool)
      (users : List LwsAccount) (window : Window) (response : GetBlocksFast),
      response.blocks ≠ [] →
      response.startHeight + response.blocks.length < 2 ^ 64 →
      mining.LoopSeedsStored context db stopped users window response :=
  ⟨fun _ _ _ _ _ _ fits => syncSeedsStored below contiguous fits,
    fun _ _ _ _ _ some fits => loopSeedsStored below contiguous some fits⟩

/-- Genesis is the seed of block three, fetched in either way. -/
theorem seeds_of_stored_chain_at_three :
    epochMining.SyncSeedsStored Db.sampleEnv shortSizes countingRules
        verifiedDb 2 (plainBlock 2).block [(plainBlock 3).block] ∧
      epochMining.LoopSeedsStored untrustedContext verifiedDb
        (fun _ => false) [scannedUser 2] .empty (plainResponse 2 2) ∧
      ∃ next, epochMining.LoopStores untrustedContext verifiedDb
        (fun _ => false) [scannedUser 2] .empty (plainResponse 2 2) next := by
  have contiguous : BlocksToPow verifiedDb := by
    have rows : ∀ pow ∈ verifiedDb.pows.rows, ∀ height ≤ pow.id,
        ∃ row ∈ verifiedDb.blocks.rows, row.id = height := by decide
    exact rows
  obtain ⟨synced, looped⟩ := seeds_of_stored_chain epoch_below contiguous
  refine ⟨synced _ _ _ _ _ _ (by decide),
    looped _ _ _ _ _ (by decide) (by decide), ?_⟩
  exact ⟨_, _, [], _, rfl, rfl, .inl (by decide), rfl⟩

/-- Behind a checkpoint at height five. -/
def checkpointEnv : Env :=
  { Db.sampleEnv with checkpoints := SortedRows.empty.addAll [(0, 10), (5, 15)] }

/-- A new database for it. -/
def checkpointDb : Db :=
  { Db.sampleDb with blocks := SortedRows.empty.addAll [⟨0, 10⟩, ⟨5, 15⟩] }

example : Db.openNew checkpointEnv = .ok checkpointDb := rfl

/-- Three blocks from height zero that fork off before genesis. -/
def foreignResponse : GetBlocksFast where
  startHeight := 0
  blocks := [20, 21, 22].map fun hash =>
    { plainBlock 0 with block := ⟨hash, hash - 1, 0⟩ }
  outputIndices := List.replicate 3 [[]]

/-- Below the checkpoint nothing is compared or stored: blocks one and two are
verified with the first block of the response, not with genesis. -/
theorem seed_of_foreign_genesis :
    ¬ ∀ (mining : Mining Hash) (context : LoopContext) (db next : Db)
      (stopped : BlockId → Bool) (users : List LwsAccount)
      (window started : Window) (response : GetBlocksFast)
      (final : Processing) (scanned : List Db.ScannedAccount)
      (out : Db.Updated) (parent : Hash → Hash),
      (∀ height, 1 ≤ height → mining.rxSeedheight height < height) →
      BlocksToPow db → StoresChain parent db →
      (∀ data ∈ response.blocks,
        parent data.block.hash = data.block.prevId) →
      context.untrustedDaemon = true →
      context.startWindow (some db) response.scanned.1 window = .ok started →
      mining.processMinedResponse context (some db) stopped users window
        response = .ok final →
      frontHeight final.users = response.scanned.1 →
      Db.update context.env db (frontHeight final.users) final.blockchain
        scanned final.newPow = .ok (next, out) →
      Along (mining.processMined context (some db) stopped response.scanned.1)
        (fun state entry => context.lastPow < wrap64 (state.height + 1) →
          mining.Seeded entry.1.block (wrap64 (state.height + 1)) db
            response.scanned.1 state.blockchain
            (OnStoredChain parent next
              (mining.rxSeedheight (wrap64 (state.height + 1)))))
        (context.begin (some db) users response started)
        response.scanned.2 := by
  intro always
  have contiguous : BlocksToPow checkpointDb := by
    have rows : ∀ pow ∈ checkpointDb.pows.rows, ∀ height ≤ pow.id,
        ∃ row ∈ checkpointDb.blocks.rows, row.id = height := by decide
    exact rows
  have chained : StoresChain (fun hash => hash - 1) checkpointDb := by
    have rows : ∀ low ∈ checkpointDb.blocks.rows,
        ∀ high ∈ checkpointDb.blocks.rows, low.id ≤ high.id →
        (fun hash => hash - 1)^[high.id - low.id] high.hash = low.hash := by
      decide
    rintro _ ⟨low, lowMember, rfl⟩ _ ⟨high, highMember, rfl⟩ below
    exact ⟨below, rows low lowMember high highMember below⟩
  obtain ⟨first, -⟩ := always epochMining
    { untrustedContext with env := checkpointEnv } checkpointDb _
    (fun _ => false) [scannedUser 0] .empty _ foreignResponse _ [] _
    (fun hash => hash - 1) epoch_below contiguous chained (by decide) rfl rfl
    rfl rfl rfl
  obtain ⟨hash, found, -, -, descends⟩ := first (by decide) (by decide)
  cases found
  have genesis := descends ⟨0, 10⟩ (by decide) le_rfl
  exact absurd genesis.2 (by decide)

end Mining

end XfoLws.Scanner
