import XfoLws.Db.Replacement
import XfoLws.Lib.LinkedChain

/-!
# The chain behind the stored blocks

The blocks table is sparse below the last checkpoint, but every block names
its predecessor: the stored rows and the checkpoints fix one chain up to the
newest of them.  The calls that extend or roll back the table move from one
such chain to another that agrees with it wherever it was fixed.
-/

namespace XfoLws.Db

/-- The rows of one kind that a block holds for each account. -/
structure RowSource {ρ κ : Type} (key : AccountId × ρ → κ)
    (height : ρ → BlockId) (blockHeight : Hash → BlockId) where
  rows : AccountId → Hash → List ρ
  height_eq : ∀ {id hash row}, row ∈ rows id hash →
    height row = blockHeight hash
  identified : ∀ {id hash left right}, left ∈ rows id hash →
    right ∈ rows id hash → key (id, left) = key (id, right) → left = right

/-- What there is to know about blocks: the predecessor and height of each,
and what it holds for an account. -/
structure Ledger where
  parent : Hash → Hash
  height : Hash → BlockId
  received : RowSource outputsKey (fun output => output.link.height) height
  spent : RowSource spendsKey (fun spend => spend.link.height) height

/-- A chain that the ledger knows and that passes every checkpoint. -/
structure TrueChain (ledger : Ledger) (env : Env) (chain : BlockId → Hash) :
    Prop where
  linked : Linked ledger.parent chain
  height_eq : ∀ id, ledger.height (chain id) = id
  checkpoints : ∀ point ∈ env.checkpoints, chain point.1 = point.2

/-- A chain the stored blocks lie on; past the last checkpoint they have no
holes. -/
structure StoredChain (ledger : Ledger) (env : Env) (db : Db)
    (chain : BlockId → Hash) : Prop where
  isTrue : TrueChain ledger env chain
  stored : ∀ row ∈ db.blocks, chain row.id = row.hash
  contiguous : ∀ row ∈ db.blocks, env.getMaxHeight + 1 < row.id →
    ∃ below ∈ db.blocks, below.id + 1 = row.id

/-- The checkpoints or the stored blocks fix the chain up to a height. -/
def Fixed (env : Env) (db : Db) (height : BlockId) : Prop :=
  height ≤ env.getMaxHeight ∨ ∃ row ∈ db.blocks, height ≤ row.id

theorem maxHeight_mem {env : Env} (checkpoints : env.checkpoints ≠ .empty) :
    ∃ hash, (env.getMaxHeight, hash) ∈ env.checkpoints := by
  unfold Env.getMaxHeight
  cases last : env.checkpoints.last? with
  | none =>
      refine absurd (SortedRows.ext_mem fun point => ?_) checkpoints
      simp [SortedRows.last?_eq_none.mp last point]
  | some point => exact ⟨point.2, (SortedRows.last?_eq_some last).1⟩

namespace TrueChain

variable {ledger : Ledger} {env : Env} {left right : BlockId → Hash}

theorem agree_below (leftTrue : TrueChain ledger env left)
    (rightTrue : TrueChain ledger env right) {meeting : BlockId}
    (same : left meeting = right meeting) {id : BlockId}
    (below : id ≤ meeting) : left id = right id :=
  leftTrue.linked.agree_below rightTrue.linked same below

theorem agree_checkpoints (leftTrue : TrueChain ledger env left)
    (rightTrue : TrueChain ledger env right)
    (checkpoints : env.checkpoints ≠ .empty) {id : BlockId}
    (below : id ≤ env.getMaxHeight) : left id = right id := by
  obtain ⟨hash, point⟩ := maxHeight_mem checkpoints
  refine leftTrue.agree_below rightTrue ?_ below
  rw [leftTrue.checkpoints _ point, rightTrue.checkpoints _ point]

end TrueChain

/-- What is fixed is the same on every chain through the stored blocks. -/
theorem StoredChain.unique {ledger : Ledger} {env : Env} {db : Db}
    {left right : BlockId → Hash} (leftStored : StoredChain ledger env db left)
    (rightStored : StoredChain ledger env db right)
    (checkpoints : env.checkpoints ≠ .empty) {height : BlockId}
    (fixed : Fixed env db height) : left height = right height := by
  rcases fixed with below | ⟨row, member, below⟩
  · exact leftStored.isTrue.agree_checkpoints rightStored.isTrue checkpoints
      below
  · refine leftStored.isTrue.agree_below rightStored.isTrue ?_ below
    rw [leftStored.stored row member, rightStored.stored row member]

/-! ## Responses of an honest daemon -/

/-- Consecutive block hashes of a true chain, with heights of 64 bits. -/
structure Batch (ledger : Ledger) (env : Env) (chain : BlockId → Hash)
    (height : BlockId) (hashes : List Hash) : Prop where
  isTrue : TrueChain ledger env chain
  follows : Follows chain height hashes
  fits : height + hashes.length < 2 ^ 64

/-- The chain after a call that cuts the stored one at `cut` or extends it:
the stored rows lie on `after`, which agrees with the chain before it on
everything that was fixed below the cut. -/
structure Extended (ledger : Ledger) (env : Env) (cut : Option BlockId)
    (db next : Db) (before after : BlockId → Hash) : Prop where
  stored : StoredChain ledger env next after
  agrees : ∀ height, Fixed env db height → (∀ limit ∈ cut, height < limit) →
    after height = before height
  fixed : ∀ height, Fixed env db height → (∀ limit ∈ cut, height < limit) →
    Fixed env next height

theorem Fixed.mono {env : Env} {db : Db} {low high : BlockId}
    (fixed : Fixed env db high) (below : low ≤ high) : Fixed env db low := by
  rcases fixed with point | ⟨row, member, above⟩
  · exact .inl (below.trans point)
  · exact .inr ⟨row, member, below.trans above⟩

section Steps

variable {ledger : Ledger} {env : Env} {db next : Db}
  {chain daemon : BlockId → Hash}

theorem StoredChain.of_blocks (stored : StoredChain ledger env db chain)
    (blocks : next.blocks = db.blocks) :
    StoredChain ledger env next chain := by
  refine ⟨stored.isTrue, ?_, ?_⟩
  · rw [blocks]
    exact stored.stored
  · rw [blocks]
    exact stored.contiguous

theorem Extended.of_blocks (stored : StoredChain ledger env db chain)
    (blocks : next.blocks = db.blocks) :
    Extended ledger env none db next chain chain := by
  refine ⟨stored.of_blocks blocks, fun _ _ _ => rfl, ?_⟩
  intro height fixed _
  rw [Fixed, blocks]
  exact fixed

/-- Without holes every height from the last checkpoint up to a stored block
is stored. -/
theorem StoredChain.filled (stored : StoredChain ledger env db chain)
    {tip : BlockInfo} (member : tip ∈ db.blocks) {height : BlockId}
    (above : env.getMaxHeight < height) (below : height ≤ tip.id) :
    ∃ row ∈ db.blocks, row.id = height := by
  obtain ⟨count, distance⟩ := Nat.exists_eq_add_of_le below
  induction count generalizing tip with
  | zero => exact ⟨tip, member, distance⟩
  | succ count induction =>
      obtain ⟨lower, lowerMember, adjacent⟩ :=
        stored.contiguous tip member (by lia)
      exact induction lowerMember (by lia) (by lia)

/-- Hashes of a chain through all stored blocks can be written right above
any of these. -/
theorem Extended.write (stored : StoredChain ledger env db chain)
    (checkpoints : env.checkpoints ≠ .empty) {first : BlockId}
    {hashes : List Hash} (batch : Batch ledger env daemon first hashes)
    (meets : ∀ row ∈ db.blocks, daemon row.id = row.hash) {tip : BlockInfo}
    (member : tip ∈ db.blocks) (reached : first ≤ tip.id + 1)
    (blocks : next.blocks = (db.appendBlockHashes first hashes).blocks) :
    Extended ledger env none db next chain daemon := by
  have written : ∀ row, row ∈ next.blocks ↔
      (∃ index, hashes[index]? = some row.hash ∧ row.id = first + index) ∨
        (row ∈ db.blocks ∧
          ¬ (first ≤ row.id ∧ row.id < first + hashes.length)) := by
    intro row
    rw [blocks, mem_appendBlockHashes batch.fits.le]
  -- a row that is written over keeps its height
  have kept : ∀ row ∈ db.blocks, ∃ other ∈ next.blocks, other.id = row.id := by
    intro row rowMember
    by_cases within : first ≤ row.id ∧ row.id < first + hashes.length
    · have inside : row.id - first < hashes.length := by lia
      refine ⟨⟨row.id, hashes[row.id - first]⟩, (written _).mpr (.inl
        ⟨_, List.getElem?_eq_getElem inside, ?_⟩), rfl⟩
      exact (Nat.add_sub_cancel' within.1).symm
    · exact ⟨row, (written row).mpr (.inr ⟨rowMember, within⟩), rfl⟩
  refine ⟨⟨batch.isTrue, ?_, ?_⟩, ?_, ?_⟩
  · intro row rowMember
    rcases (written row).mp rowMember with ⟨index, read, id⟩ | ⟨old, -⟩
    · rw [id]
      exact (batch.follows index row.hash read).symm
    · exact meets row old
  · intro row rowMember above
    rcases (written row).mp rowMember with ⟨index, read, id⟩ | ⟨old, -⟩
    · cases index with
      | zero =>
          obtain ⟨other, otherMember, otherId⟩ := stored.filled member
            (show env.getMaxHeight < row.id - 1 by lia) (by lia)
          obtain ⟨below, belowMember, same⟩ := kept other otherMember
          exact ⟨below, belowMember, by lia⟩
      | succ index =>
          have inside := (List.getElem?_eq_some_iff.mp read).1
          have earlier : index < hashes.length := by lia
          refine ⟨⟨first + index, hashes[index]⟩, (written _).mpr (.inl
            ⟨index, List.getElem?_eq_getElem earlier, rfl⟩), ?_⟩
          exact id.symm
    · obtain ⟨other, otherMember, adjacent⟩ := stored.contiguous row old above
      obtain ⟨below, belowMember, same⟩ := kept other otherMember
      exact ⟨below, belowMember, by lia⟩
  · intro height fixed _
    rcases fixed with point | ⟨row, rowMember, below⟩
    · exact batch.isTrue.agree_checkpoints stored.isTrue checkpoints point
    · refine batch.isTrue.agree_below stored.isTrue ?_ below
      rw [meets row rowMember, stored.stored row rowMember]
  · intro height fixed _
    rcases fixed with point | ⟨row, rowMember, below⟩
    · exact .inl point
    · obtain ⟨other, otherMember, same⟩ := kept row rowMember
      exact .inr ⟨other, otherMember, same ▸ below⟩

/-- Cutting the table at a stored block leaves everything below it fixed. -/
theorem Extended.cut (stored : StoredChain ledger env db chain)
    {row : BlockInfo} (member : row ∈ db.blocks)
    (blocks : next.blocks = db.blocks.filter fun other => other.id < row.id) :
    Extended ledger env (some row.id) db next chain chain := by
  have kept : ∀ other, other ∈ next.blocks ↔
      other ∈ db.blocks ∧ other.id < row.id := by
    intro other
    simp [blocks]
  refine ⟨⟨stored.isTrue, ?_, ?_⟩, fun _ _ _ => rfl, ?_⟩
  · intro other otherMember
    exact stored.stored other ((kept other).mp otherMember).1
  · intro other otherMember above
    obtain ⟨old, early⟩ := (kept other).mp otherMember
    obtain ⟨below, belowMember, adjacent⟩ := stored.contiguous other old above
    exact ⟨below, (kept below).mpr ⟨belowMember, by lia⟩, adjacent⟩
  · intro height _ limits
    have early : height < row.id := limits row.id rfl
    by_cases point : height ≤ env.getMaxHeight
    · exact .inl point
    · obtain ⟨below, belowMember, adjacent⟩ :=
        stored.contiguous row member (by lia)
      exact .inr ⟨below, (kept below).mpr ⟨belowMember, by lia⟩, by lia⟩

theorem Extended.then {middle : Db} {between : BlockId → Hash}
    {cut : Option BlockId}
    (first : Extended ledger env cut db middle chain between)
    (second : Extended ledger env none middle next between daemon) :
    Extended ledger env cut db next chain daemon := by
  refine ⟨second.stored, ?_, ?_⟩
  · intro height fixed limits
    rw [second.agrees height (first.fixed height fixed limits) (by simp)]
    exact first.agrees height fixed limits
  · intro height fixed limits
    exact second.fixed height (first.fixed height fixed limits) (by simp)

theorem Extended.lower {low high : BlockId} (below : low ≤ high)
    (extended : Extended ledger env (some high) db next chain daemon) :
    Extended ledger env (some low) db next chain daemon := by
  refine ⟨extended.stored, ?_, ?_⟩
  · intro height fixed limits
    refine extended.agrees height fixed ?_
    simpa using (limits low rfl).trans_le below
  · intro height fixed limits
    refine extended.fixed height fixed ?_
    simpa using (limits low rfl).trans_le below

/-! ## The calls -/

/-- The chain part of `update`: the batch and the stored chain become one. -/
theorem updateBlocks_extends {height lastUpdate : BlockId}
    {hashes : List Hash} {pow : List PowSync}
    (stored : StoredChain ledger env db chain)
    (checkpoints : env.checkpoints ≠ .empty)
    (batch : Batch ledger env daemon height hashes) (nonempty : hashes ≠ [])
    (last : lastUpdate = height + (hashes.length - 1))
    (success : updateBlocks env db height lastUpdate hashes pow = .ok next) :
    ∃ after, (after = chain ∨ after = daemon) ∧
      Extended ledger env none db next chain after ∧
      (∀ id ≤ lastUpdate, after id = daemon id) ∧
      Fixed env next lastUpdate := by
  have size : 0 < hashes.length := List.length_pos_iff.mpr nonempty
  have fits := batch.fits
  have unwrapped : wrap64 (height + (hashes.length - 1)) =
      height + (hashes.length - 1) := Nat.mod_eq_of_lt (by lia)
  subst last
  unfold updateBlocks at success
  split at success
  · rw [← unwrapped] at success
    obtain ⟨row, member, pows, ⟨id, read, rfl⟩ |
      ⟨found, behind, ahead, -, read, rfl⟩⟩ :=
      updateChain_appends nonempty ⟨by lia, by lia⟩ success
    · refine ⟨chain, .inl rfl, .of_blocks stored rfl, ?_,
        .inr ⟨row, member, ?_⟩⟩
      · intro other below
        refine stored.isTrue.agree_below batch.isTrue ?_ below
        rw [List.getLast?_eq_getElem?] at read
        rw [← unwrapped, ← id, stored.stored row member, id, unwrapped]
        exact batch.follows _ _ read
      · rw [id, unwrapped]
    · have meets : daemon row.id = row.hash := by
        rw [batch.follows _ _ read, Nat.add_sub_cancel' behind]
      have follows : Follows daemon (row.id + 1)
          (hashes.drop (row.id - height + 1)) := by
        have shifted := batch.follows.drop (row.id - height + 1)
        rwa [← Nat.add_assoc, Nat.add_sub_cancel' behind] at shifted
      have length : (hashes.drop (row.id - height + 1)).length =
          hashes.length - (row.id - height + 1) := List.length_drop
      have newest := (lastBlockId_greatest found).2
      refine ⟨daemon, .inr rfl, .write stored checkpoints
        ⟨batch.isTrue, follows, by lia⟩ ?_ member le_rfl rfl, fun _ _ => rfl,
        .inr ?_⟩
      · intro other otherMember
        rw [← stored.stored other otherMember]
        refine batch.isTrue.agree_below stored.isTrue ?_
          (newest other otherMember)
        rw [meets, stored.stored row member]
      have inside : hashes.length - 1 - (row.id - height + 1) <
          (hashes.drop (row.id - height + 1)).length := by lia
      refine ⟨⟨height + (hashes.length - 1),
        (hashes.drop (row.id - height + 1))[
          hashes.length - 1 - (row.id - height + 1)]⟩,
        (mem_appendBlockHashes (by lia)).mpr (.inl
          ⟨_, List.getElem?_eq_getElem inside, ?_⟩), le_rfl⟩
      lia
  · rename_i hardened
    rw [updateHardened_eq success]
    refine ⟨chain, .inl rfl, .of_blocks stored rfl, ?_, .inl (by lia)⟩
    intro id below
    exact stored.isTrue.agree_checkpoints batch.isTrue checkpoints (by lia)

/-- What a rollback or a synchronisation does: the chain is extended, or cut
with everything rolled back and then extended. -/
inductive ChainMoved (ledger : Ledger) (env : Env) (db next : Db)
    (before after : BlockId → Hash) : Prop where
  | kept : Extended ledger env none db next before after →
      (∃ blocks pows, next = { db with blocks := blocks, pows := pows }) →
      ChainMoved ledger env db next before after
  | cut {first height : BlockId} {middle : Db} :
      Extended ledger env (some height) db next before after →
      Fixed env db (height - 1) → ChainRolledBack first height db middle →
      (∃ blocks pows, next = { middle with blocks := blocks, pows := pows }) →
      ChainMoved ledger env db next before after

/-- The same, told by the call that rolled back: what that does to the
accounts depends on their indexes. -/
inductive ChainChanged (ledger : Ledger) (env : Env) (db next : Db)
    (before after : BlockId → Hash) : Prop where
  | kept : Extended ledger env none db next before after →
      (∃ blocks pows, next = { db with blocks := blocks, pows := pows }) →
      ChainChanged ledger env db next before after
  | cut {first height : BlockId} {middle : Db} :
      Extended ledger env (some height) db next before after →
      Fixed env db (height - 1) → db.rollbackChain first height = .ok middle →
      (∃ blocks pows, next = { middle with blocks := blocks, pows := pows }) →
      ChainChanged ledger env db next before after

theorem ChainChanged.moved (agree : Agreement [] db)
    (changed : ChainChanged ledger env db next chain daemon) :
    ChainMoved ledger env db next chain daemon := by
  cases changed with
  | kept extended blocks => exact .kept extended blocks
  | cut extended fixed rolled blocks =>
      exact .cut extended fixed (rollbackChain_ok agree rolled) blocks

theorem rollback_changes {height : BlockId}
    (stored : StoredChain ledger env db chain)
    (success : db.rollback height = .ok next) :
    ChainChanged ledger env db next chain chain := by
  unfold rollback at success
  split at success
  · cases success
    exact .kept (.of_blocks stored rfl) ⟨_, _, rfl⟩
  · rename_i row located
    obtain ⟨member, rfl⟩ := SortedRows.find?_eq_some.mp located
    refine .cut (.cut stored member ?_) ?_ success ⟨_, _, rfl⟩
    · obtain ⟨_, _, _, _, _, _, equality⟩ := rollbackChain_frame success
      rw [equality]
      rfl
    · exact .inr ⟨row, member, Nat.sub_le _ _⟩

theorem rollback_moves {height : BlockId}
    (stored : StoredChain ledger env db chain) (agree : Agreement [] db)
    (success : db.rollback height = .ok next) :
    ChainMoved ledger env db next chain chain :=
  (rollback_changes stored success).moved agree

/-! ## The comparison of `sync_chain` -/

/-- What `sync_chain` writes continues a chain through the blocks it keeps:
all stored ones, or those below the one it rolls back from.  So it writes over
no stored block with another one. -/
def Continues (ledger : Ledger) (env : Env) (db : Db) (height : BlockId)
    (hashes : List Hash) : Prop :=
  let stop := syncChainWalk (db.blocksAfter height) (wrap64 (height + 1))
    hashes.tail
  stop.chain ≠ [] → ∃ daemon, Batch ledger env daemon stop.current stop.chain ∧
    ∀ row ∈ db.blocks, (∀ bad ∈ stop.mismatch, row.id < bad.id) →
      daemon row.id = row.hash

/-- The comparison stops right above a row it passed, though below that row
where it passed a hole. -/
private theorem syncChainWalk_stops {rows : List BlockInfo}
    {tip : BlockInfo} {current : BlockId} {hashes : List Hash}
    (sorted : (tip :: rows).Pairwise fun left right => left.id < right.id)
    (reached : current ≤ tip.id + 1) :
    ∃ top ∈ tip :: rows,
      (syncChainWalk rows current hashes).current ≤ top.id + 1 ∧
      ∀ bad ∈ (syncChainWalk rows current hashes).mismatch,
        bad ∈ rows ∧ top.id < bad.id ∧
          (syncChainWalk rows current hashes).chain ≠ [] := by
  induction rows generalizing tip current hashes with
  | nil => exact ⟨tip, List.mem_singleton_self tip, by simpa [syncChainWalk]⟩
  | cons row rows induction =>
      obtain ⟨above, later⟩ := List.pairwise_cons.mp sorted
      have higher : tip.id < row.id := above row List.mem_cons_self
      cases hashes with
      | nil => exact ⟨tip, List.mem_cons_self, by simpa [syncChainWalk]⟩
      | cons hash hashes =>
          unfold syncChainWalk
          split
          · refine ⟨tip, List.mem_cons_self, reached, ?_⟩
            rintro bad ⟨⟩
            exact ⟨List.mem_cons_self, higher, List.cons_ne_nil _ _⟩
          · have onward : wrap64 (current + 1) ≤ row.id + 1 :=
              (Nat.mod_le _ _).trans (by lia)
            obtain ⟨top, member, stops, rest⟩ := induction later onward
            refine ⟨top, List.mem_cons_of_mem _ member, stops, ?_⟩
            intro bad mismatch
            obtain ⟨listed, order⟩ := rest bad mismatch
            exact ⟨List.mem_cons_of_mem _ listed, order⟩

theorem syncChain_changes {height : BlockId} {hashes : List Hash}
    {regtest : Bool} (stored : StoredChain ledger env db chain)
    (checkpoints : env.checkpoints ≠ .empty)
    (continues : Continues ledger env db height hashes)
    (success : syncChain env db height hashes regtest = .ok next) :
    ∃ after, ChainChanged ledger env db next chain after := by
  obtain ⟨row, rest, middle, member, id, read, synced⟩ := syncChain_ok success
  have sorted : (row :: db.blocksAfter height).Pairwise
      fun left right => left.id < right.id := by
    refine List.pairwise_cons.mpr ⟨fun other listed => ?_,
      db.blocks.sorted.filter _⟩
    rw [id]
    simpa using (List.mem_filter.mp listed).2
  have onStored : ∀ other ∈ row :: db.blocksAfter height,
      other ∈ db.blocks := by
    intro other listed
    rcases List.mem_cons.mp listed with rfl | later
    · exact member
    · exact (List.mem_filter.mp later).1
  obtain ⟨tip, tipListed, reached, below⟩ := @syncChainWalk_stops _ row
    (wrap64 (height + 1)) rest sorted ((Nat.mod_le _ _).trans (by lia))
  have tipMember := onStored tip tipListed
  rw [Continues, read, List.tail_cons] at continues
  generalize syncChainWalk (db.blocksAfter height) (wrap64 (height + 1)) rest =
    stop at synced reached below continues
  obtain ⟨pows, rfl⟩ := synced.next_eq
  rcases synced.rolledBack with ⟨matched, rfl⟩ | ⟨bad, mismatch, rolled⟩
  · by_cases finished : stop.chain = []
    · rw [finished]
      exact ⟨chain, .kept (.of_blocks stored rfl) ⟨_, _, rfl⟩⟩
    · obtain ⟨daemon, batch, meets⟩ := continues finished
      refine ⟨daemon, .kept (.write stored checkpoints batch ?_ tipMember
        reached rfl) ⟨_, _, rfl⟩⟩
      exact fun other listed => meets other listed (by simp [matched])
  · obtain ⟨badListed, higher, unfinished⟩ := below bad mismatch
    obtain ⟨daemon, batch, meets⟩ := continues unfinished
    have badMember := onStored bad (List.mem_cons_of_mem _ badListed)
    have blocks : middle.blocks =
        db.blocks.filter fun other => other.id < bad.id := by
      obtain ⟨_, _, _, _, _, _, equality⟩ := rollbackChain_frame rolled
      rw [equality]
      rfl
    have kept : ∀ other, other ∈ middle.blocks ↔
        other ∈ db.blocks ∧ other.id < bad.id := by
      intro other
      simp [blocks]
    have cut := Extended.cut stored badMember blocks
    have extended : Extended ledger env none middle
        { middle with
          blocks :=
            (middle.appendBlockHashes stop.current stop.chain).blocks
          pows := pows } chain daemon := by
      refine .write cut.stored checkpoints batch ?_
        ((kept tip).mpr ⟨tipMember, higher⟩) reached rfl
      intro other listed
      obtain ⟨old, early⟩ := (kept other).mp listed
      exact meets other old (by simpa [mismatch] using early)
    exact ⟨daemon, .cut ((cut.then extended).lower (by lia))
      (.inr ⟨tip, tipMember, by lia⟩) rolled ⟨_, _, rfl⟩⟩

theorem syncChain_moves {height : BlockId} {hashes : List Hash}
    {regtest : Bool} (stored : StoredChain ledger env db chain)
    (checkpoints : env.checkpoints ≠ .empty) (agree : Agreement [] db)
    (continues : Continues ledger env db height hashes)
    (success : syncChain env db height hashes regtest = .ok next) :
    ∃ after, ChainMoved ledger env db next chain after := by
  obtain ⟨after, changed⟩ :=
    syncChain_changes stored checkpoints continues success
  exact ⟨after, changed.moved agree⟩

end Steps

end XfoLws.Db
