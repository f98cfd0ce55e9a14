import XfoLws.Db.Ledger

/-!
# Runs of an honest scanner

Every batch that `update` stores comes from a true chain, and every scanned
account carries the rows of its new blocks.  `Tracked` is what such runs keep
while `sync_chain` continues the stored chain; `Upheld` lists what has to be
shown of any further invariant, once for each way a call changes the tables.
-/

namespace XfoLws.Db

/-- An account as the scanner hands it over: it was read from the table, and
carries what the blocks above its scan height hold for it. -/
structure ScanOf (ledger : Ledger) (daemon : BlockId → Hash) (last : BlockId)
    (db : Db) (user : ScannedAccount) : Prop where
  started : ∀ row ∈ db.accounts, row.2.id = user.id →
    row.2.startHeight ≤ user.scanHeight
  outputs : ∀ output, output ∈ user.outputs ↔
    ∃ id, user.scanHeight < id ∧ id ≤ last ∧
      output ∈ ledger.received.rows user.id (daemon id)
  spends : ∀ spend, spend ∈ user.spends ↔
    ∃ id, user.scanHeight < id ∧ id ≤ last ∧
      spend ∈ ledger.spent.rows user.id (daemon id)

/-- `update` gets a batch of a true chain and what its blocks hold, and
`sync_pow` is not called. -/
def Honest (ledger : Ledger) (env : Env) (db : Db) : Operation → Prop
  | .update height hashes users _ => hashes ≠ [] →
      ∃ daemon, Batch ledger env daemon height hashes ∧
        ∀ user ∈ users,
          ScanOf ledger daemon (height + (hashes.length - 1)) db user
  | .syncPow _ _ _ => False
  | _ => True

/-- `add_account` hands out a usable id, and what `sync_chain` writes
continues the stored chain. -/
def Regular (ledger : Ledger) (env : Env) (db : Db) : Operation → Prop
  | .addAccount _ _ _ _ => wrap32 (db.findLastId + 1) ≠ AccountId.invalid
  | .syncChain height hashes _ => Continues ledger env db height hashes
  | _ => True

/-- A regular call for which `guard` holds of every account it moves. -/
def Guarded (ledger : Ledger) (env : Env)
    (guard : Db → Account → BlockId → Prop) (db : Db)
    (operation : Operation) : Prop :=
  Regular ledger env db operation ∧ EveryMove env guard db operation

/-- The stored blocks lie on the chain and the indexes agree. -/
structure Tracked (ledger : Ledger) (env : Env) (chain : BlockId → Hash)
    (db : Db) : Prop where
  stored : StoredChain ledger env db chain
  indexed : Indexed db

/-- Accounts may change status or lookahead, but none is moved. -/
structure Relabelled (db next : Db) : Prop where
  accounts : ∀ new ∈ next.accounts, ∃ old ∈ db.accounts,
    new.2.id = old.2.id ∧ new.2.scanHeight = old.2.scanHeight ∧
      new.2.startHeight = old.2.startHeight
  kept : ∀ old ∈ db.accounts, ∃ new ∈ next.accounts, new.2.id = old.2.id
  blocks : next.blocks = db.blocks
  outputs : next.outputs = db.outputs
  spends : next.spends = db.spends
  webhooks : next.webhooks = db.webhooks
  events : next.events = db.events

/-- A scan about to be stored: the account that takes it, and what the batch
holds for it on the chain. -/
structure Scan (ledger : Ledger) (env : Env) (chain : BlockId → Hash)
    (last : BlockId) (state : Updating) (user : ScannedAccount)
    (status : AccountStatus) (existing : Account) : Prop where
  stored : StoredChain ledger env state.db chain
  agreement : Agreement (state.pending last) state.db
  fixed : Fixed env state.db last
  member : (status, existing) ∈ state.db.accounts
  sameId : existing.id = user.id
  started : existing.startHeight ≤ user.scanHeight
  reached : user.scanHeight ≤ existing.scanHeight
  ahead : existing.scanHeight < last
  outputs : ∀ output, output ∈ user.outputs ↔
    ∃ id, user.scanHeight < id ∧ id ≤ last ∧
      output ∈ ledger.received.rows user.id (chain id)
  spends : ∀ spend, spend ∈ user.spends ↔
    ∃ id, user.scanHeight < id ∧ id ≤ last ∧
      spend ∈ ledger.spent.rows user.id (chain id)

/-- What every kind of change has to keep for `invariant` to hold in all runs
whose moves satisfy `guard`. -/
structure Upheld (ledger : Ledger) (env : Env)
    (guard : Db → Account → BlockId → Prop)
    (invariant : (BlockId → Hash) → Db → Prop) : Prop where
  within : ∀ {db user height}, guard db user height →
    height ≤ user.scanHeight
  relabelled : ∀ {chain db next}, StoredChain ledger env db chain →
    invariant chain db → Relabelled db next → invariant chain next
  added : ∀ {chain db next user}, invariant chain db →
    (∀ row ∈ db.accounts, row.2.id ≠ user.id) →
    user.startHeight = user.scanHeight → Added env user db next →
    invariant chain next
  moved : ∀ {chain db next height address lookup user moved},
    Tracked ledger env chain db → invariant chain db →
    guard db user height →
    HeightChanged height address db lookup user moved next →
    invariant chain next
  chainMoved : ∀ {chain after db next}, Tracked ledger env chain db →
    invariant chain db → ChainMoved ledger env db next chain after →
    invariant after next
  scanned : ∀ {chain height last state next user status existing},
    invariant chain state.db →
    Scan ledger env chain last state user status existing →
    ScanStored height last state user status existing next →
    invariant chain next.db
  hooked : ∀ {chain db key value}, invariant chain db →
    invariant chain { db with webhooks := db.webhooks.put (key, value) }
  cleared : ∀ {chain db} user, invariant chain db → invariant chain
    { db with
      webhooks := db.webhooks.filter fun row => row.1 ≠ ⟨user, .txConfirmation⟩
      events := db.events.filter fun row => row.1 ≠ user }
  clearedIds : ∀ {chain db} ids, invariant chain db →
    invariant chain (db.clearWebhookIds ids)

theorem Relabelled.of_tables {db next : Db}
    (blocks : next.blocks = db.blocks) (accounts : next.accounts = db.accounts)
    (outputs : next.outputs = db.outputs) (spends : next.spends = db.spends)
    (webhooks : next.webhooks = db.webhooks)
    (events : next.events = db.events) : Relabelled db next := by
  refine ⟨?_, ?_, blocks, outputs, spends, webhooks, events⟩
  · rw [accounts]
    exact fun new member => ⟨new, member, rfl, rfl, rfl⟩
  · rw [accounts]
    exact fun old member => ⟨old, member, rfl⟩

/-- Overwriting an account without moving it. -/
theorem Relabelled.touch {db next : Db} {status : AccountStatus}
    {user moved : Account} (member : (status, user) ∈ db.accounts)
    (sameId : moved.id = user.id)
    (sameScan : moved.scanHeight = user.scanHeight)
    (sameStart : moved.startHeight = user.startHeight)
    (accounts : next.accounts = db.accounts.put (status, moved))
    (blocks : next.blocks = db.blocks) (outputs : next.outputs = db.outputs)
    (spends : next.spends = db.spends)
    (webhooks : next.webhooks = db.webhooks)
    (events : next.events = db.events) : Relabelled db next := by
  refine ⟨?_, ?_, blocks, outputs, spends, webhooks, events⟩
  · intro new newMember
    rw [accounts] at newMember
    rcases SortedRows.mem_put.mp newMember with rfl | ⟨old, -⟩
    · exact ⟨_, member, sameId, sameScan, sameStart⟩
    · exact ⟨new, old, rfl, rfl, rfl⟩
  · intro old oldMember
    rw [accounts]
    by_cases same : accountsKey old = accountsKey (status, moved)
    · exact ⟨_, SortedRows.mem_put.mpr (.inl rfl),
        (Prod.mk.inj (toLex.injective same)).2.symm⟩
    · exact ⟨old, SortedRows.mem_put.mpr (.inr ⟨oldMember, same⟩), rfl⟩

theorem Relabelled.restatus {db next : Db} {status : AccountStatus}
    {entry : AccountByAddress} {user : Account}
    (changed : StatusChanged status db entry user next) :
    Relabelled db next := by
  obtain ⟨member, sameId⟩ := Agreement.findAccount_iff.mp changed.account_eq
  obtain rfl := changed.next_eq
  refine ⟨?_, ?_, rfl, rfl, rfl, rfl, rfl⟩
  · intro new newMember
    rcases SortedRows.mem_put.mp newMember with rfl | ⟨old, -⟩
    · exact ⟨_, member, rfl, rfl, rfl⟩
    · exact ⟨new, (SortedRows.mem_erase.mp old).1, rfl, rfl, rfl⟩
  · intro old oldMember
    by_cases own : old.2.id = user.id
    · exact ⟨_, SortedRows.mem_put.mpr (.inl rfl), own.symm⟩
    · refine ⟨old, SortedRows.mem_put.mpr (.inr
        ⟨SortedRows.mem_erase.mpr ⟨oldMember, ?_⟩, ?_⟩), rfl⟩
      · intro sameKey
        exact own ((Prod.mk.inj (toLex.injective sameKey)).2.trans sameId.symm)
      · intro sameKey
        exact own (Prod.mk.inj (toLex.injective sameKey)).2

section Steps

variable {ledger : Ledger} {env : Env} {chain : BlockId → Hash} {db next : Db}
  {guard : Db → Account → BlockId → Prop}
  {invariant : (BlockId → Hash) → Db → Prop}

namespace Tracked

/-- Only the blocks and the account tables matter. -/
theorem of_tables (tracked : Tracked ledger env chain db)
    (blocks : next.blocks = db.blocks) (accounts : next.accounts = db.accounts)
    (addresses : next.accountsByAddress = db.accountsByAddress)
    (heights : next.accountsByHeight = db.accountsByHeight) :
    Tracked ledger env chain next :=
  ⟨tracked.stored.of_blocks blocks,
    tracked.indexed.of_tables accounts addresses heights⟩

theorem heightChanged {height : BlockId} {address : AccountAddress}
    {lookup : AccountLookup} {user moved : Account}
    (tracked : Tracked ledger env chain db)
    (within : height ≤ user.scanHeight)
    (changed : HeightChanged height address db lookup user moved next) :
    Tracked ledger env chain next := by
  refine ⟨tracked.stored.of_blocks ?_,
    tracked.indexed.heightChanged within changed⟩
  obtain ⟨_, _, _, rfl⟩ := changed.next_eq
  rfl

theorem chainMoved {after : BlockId → Hash}
    (tracked : Tracked ledger env chain db)
    (moved : ChainMoved ledger env db next chain after) :
    Tracked ledger env after next := by
  cases moved with
  | kept extended blocks =>
      refine ⟨extended.stored, ?_⟩
      obtain ⟨_, _, rfl⟩ := blocks
      exact tracked.indexed.of_tables rfl rfl rfl
  | cut extended fixed rolled blocks =>
      refine ⟨extended.stored, ?_⟩
      obtain ⟨_, _, rfl⟩ := blocks
      exact (tracked.indexed.rolledBack rolled).of_tables rfl rfl rfl

end Tracked

namespace Upheld

/-! ## Storing a scan -/

/-- The tables while `update` goes through the users. -/
structure Scanning (ledger : Ledger) (env : Env)
    (invariant : (BlockId → Hash) → Db → Prop) (chain : BlockId → Hash)
    (last : BlockId) (users : List ScannedAccount) (state : Updating) :
    Prop where
  indexed : Indexed.DuringUpdate last state
  holds : invariant chain state.db
  stored : StoredChain ledger env state.db chain
  fixed : Fixed env state.db last
  started : ∀ user ∈ users, ∀ row ∈ state.db.accounts, row.2.id = user.id →
    row.2.startHeight ≤ user.scanHeight
  outputs : ∀ user ∈ users, ∀ output, output ∈ user.outputs ↔
    ∃ id, user.scanHeight < id ∧ id ≤ last ∧
      output ∈ ledger.received.rows user.id (chain id)
  spends : ∀ user ∈ users, ∀ spend, spend ∈ user.spends ↔
    ∃ id, user.scanHeight < id ∧ id ≤ last ∧
      spend ∈ ledger.spent.rows user.id (chain id)

namespace Scanning

variable {last : BlockId} {users : List ScannedAccount} {state : Updating}

theorem room (upheld : Upheld ledger env guard invariant)
    (scanning : Scanning ledger env invariant chain last users state) :
    Scanning ledger env invariant chain last users (state.room last) := by
  have sameTables : Relabelled state.db (state.room last).db := by
    unfold Updating.room
    split <;> exact .of_tables rfl rfl rfl rfl rfl rfl
  have sameAccounts :
      (state.room last).db.accounts = state.db.accounts := by
    unfold Updating.room
    split <;> rfl
  refine ⟨scanning.indexed.room,
    upheld.relabelled scanning.stored scanning.holds sameTables,
    scanning.stored.of_blocks sameTables.blocks, ?_, ?_, scanning.outputs,
    scanning.spends⟩
  · rw [Fixed, sameTables.blocks]
    exact scanning.fixed
  · rw [sameAccounts]
    exact scanning.started

/-- What `storeScan` is about to store. -/
theorem scan (scanning : Scanning ledger env invariant chain last users state)
    {user : ScannedAccount} (member : user ∈ users) {status : AccountStatus}
    {existing : Account}
    (located : state.db.findAccount? ⟨user.id, status⟩ = some existing)
    (reached : user.scanHeight ≤ existing.scanHeight)
    (ahead : existing.scanHeight < last) :
    Scan ledger env chain last state user status existing := by
  obtain ⟨accountMember, sameId⟩ := Agreement.findAccount_iff.mp located
  exact
    { stored := scanning.stored
      agreement := scanning.indexed.agreement
      fixed := scanning.fixed
      member := accountMember
      sameId := sameId
      started := scanning.started user member _ accountMember sameId
      reached := reached
      ahead := ahead
      outputs := scanning.outputs user member
      spends := scanning.spends user member }

theorem step (upheld : Upheld ledger env guard invariant)
    (scanning : Scanning ledger env invariant chain last users state)
    {height : BlockId} {user : ScannedAccount} {final : Updating}
    (member : user ∈ users)
    (success : updateUser height last state user = .ok final) :
    Scanning ledger env invariant chain last users final := by
  have updated := updateUser_ok success
  have indexed := scanning.indexed.room.step updated
  have roomy := scanning.room upheld
  generalize state.room last = room at updated roomy
  cases updated with
  | skipped sameDb sameHeights =>
      refine ⟨indexed, ?_, ?_, ?_, ?_, roomy.outputs, roomy.spends⟩
      all_goals rw [sameDb]
      · exact roomy.holds
      · exact roomy.stored
      · exact roomy.fixed
      · exact roomy.started
  | @stored status existing _ located reached ahead success =>
      have stored := storeScan_ok success
      have scan := roomy.scan member located reached ahead
      have holds := upheld.scanned roomy.holds scan stored
      obtain ⟨_, _, tables⟩ := stored.db_eq
      refine ⟨indexed, holds, ?_, ?_, ?_, roomy.outputs, roomy.spends⟩
      · rw [tables]
        exact roomy.stored.of_blocks rfl
      · rw [tables]
        exact roomy.fixed
      · intro other otherMember row rowMember own
        rw [tables] at rowMember
        rcases SortedRows.mem_put.mp rowMember with rfl | ⟨old, -⟩
        · exact roomy.started other otherMember (status, existing)
            scan.member own
        · exact roomy.started other otherMember row old own

end Scanning

/-- Where `update` starts to go through the users. -/
theorem scanning {height last : BlockId} {hashes : List Hash}
    {users : List ScannedAccount} {pow : List PowSync} {checked : Db}
    (upheld : Upheld ledger env guard invariant)
    (checkpoints : env.checkpoints ≠ .empty)
    (tracked : Tracked ledger env chain db) (holds : invariant chain db)
    {daemon : BlockId → Hash} (batch : Batch ledger env daemon height hashes)
    (scans : ∀ user ∈ users,
      ScanOf ledger daemon (height + (hashes.length - 1)) db user)
    (nonempty : hashes ≠ [])
    (lastEq : last = wrap64 (height + (hashes.length - 1)))
    (success : updateBlocks env db height last hashes pow = .ok checked) :
    ∃ after, (after = chain ∨ after = daemon) ∧
      Scanning ledger env invariant after last users
        ⟨checked, [], [], [], 0⟩ := by
  have fits := batch.fits
  have size : 0 < hashes.length := List.length_pos_iff.mpr nonempty
  rw [wrap64, Nat.mod_eq_of_lt (by lia)] at lastEq
  obtain ⟨after, same, extended, meets, fixed⟩ := updateBlocks_extends
    tracked.stored checkpoints batch nonempty lastEq success
  have tables := updateBlocks_eq success
  have indexed := tracked.indexed.updateBlocks success
  refine ⟨after, same, ⟨indexed.agreement, indexed.ids⟩,
    upheld.chainMoved tracked holds (.kept extended tables), extended.stored,
    fixed, ?_, ?_, ?_⟩
  · intro user member
    obtain ⟨_, _, rfl⟩ := tables
    exact (scans user member).started
  · intro user member output
    rw [(scans user member).outputs, ← lastEq]
    refine exists_congr fun id => and_congr_right fun _ =>
      and_congr_right fun below => ?_
    rw [meets id below]
  · intro user member spend
    rw [(scans user member).spends, ← lastEq]
    refine exists_congr fun id => and_congr_right fun _ =>
      and_congr_right fun below => ?_
    rw [meets id below]

theorem update {height : BlockId} {hashes : List Hash}
    {users : List ScannedAccount} {pow : List PowSync} {out : Updated}
    (upheld : Upheld ledger env guard invariant)
    (checkpoints : env.checkpoints ≠ .empty)
    (tracked : Tracked ledger env chain db) (holds : invariant chain db)
    {daemon : BlockId → Hash} (batch : Batch ledger env daemon height hashes)
    (scans : ∀ user ∈ users,
      ScanOf ledger daemon (height + (hashes.length - 1)) db user)
    (success : update env db height hashes users pow = .ok (next, out)) :
    ∃ after, (after = chain ∨ after = daemon) ∧
      Tracked ledger env after next ∧ invariant after next := by
  have indexed := tracked.indexed.update success
  rcases update_ok success with
    ⟨-, rfl, -⟩ |
      ⟨nonempty, last, checked, final, lastEq, blocks, folded, rfl, -⟩
  · exact ⟨chain, .inl rfl, tracked, holds⟩
  obtain ⟨after, same, initial⟩ := upheld.scanning checkpoints tracked holds
    batch scans nonempty lastEq blocks
  have scanned : Scanning ledger env invariant after last users final :=
    Outcome.foldlM_preserves (Scanning ledger env invariant after last users)
      (fun _ _ _ member before stepped => before.step upheld member stepped)
      initial folded
  refine ⟨after, same, ⟨scanned.stored.of_blocks rfl, indexed⟩, ?_⟩
  exact upheld.relabelled scanned.stored scanned.holds
    (.of_tables rfl rfl rfl rfl rfl rfl)

/-! ## Every call -/

private theorem changeStatus {status : AccountStatus}
    {addresses found : List AccountAddress}
    (upheld : Upheld ledger env guard invariant)
    (tracked : Tracked ledger env chain db) (holds : invariant chain db)
    (success : db.changeStatus status addresses = .ok (next, found)) :
    Tracked ledger env chain next ∧ invariant chain next := by
  refine Outcome.foldlM_preserves (fun state : Db × List AccountAddress =>
    Tracked ledger env chain state.1 ∧ invariant chain state.1)
    ?_ ⟨tracked, holds⟩ success
  rintro state address final _member ⟨tracks, kept⟩ stepped
  obtain ⟨⟨middle, changed⟩, once, stored⟩ := Outcome.bind_eq_ok.mp stepped
  cases stored
  rcases changeStatusOf_ok once with rfl | ⟨entry, user, effect⟩
  · exact ⟨tracks, kept⟩
  · have relabelled := Relabelled.restatus effect
    exact ⟨⟨tracks.stored.of_blocks relabelled.blocks,
      tracks.indexed.restatus effect⟩,
      upheld.relabelled tracks.stored kept relabelled⟩

private theorem createAccounts {clock : ℤ}
    {addresses found : List AccountAddress} {maxSubaddresses : ℕ}
    (upheld : Upheld ledger env guard invariant)
    (tracked : Tracked ledger env chain db) (holds : invariant chain db)
    (success : createAccounts env clock db addresses maxSubaddresses =
      .ok (next, found)) :
    Tracked ledger env chain next ∧ invariant chain next := by
  refine createAccounts_preserves
    (fun db => Tracked ledger env chain db ∧ invariant chain db) ?_ ?_
    tracked.indexed.ids ⟨tracked, holds⟩ success
  · rintro db _ _ _ ⟨tracks, kept⟩
    exact ⟨tracks.of_tables rfl rfl rfl rfl, upheld.relabelled tracks.stored
      kept (.of_tables rfl rfl rfl rfl rfl rfl)⟩
  · rintro user db after ⟨tracks, kept⟩ fresh valid unscanned added
    exact ⟨⟨tracks.stored.of_blocks (by rw [added.next_eq]),
        tracks.indexed.added fresh valid added⟩,
      upheld.added kept fresh unscanned added⟩

private theorem addAccount {clock : ℤ} {address : AccountAddress}
    {key : SecretKey} {flags : AccountFlags}
    (upheld : Upheld ledger env guard invariant)
    (tracked : Tracked ledger env chain db) (holds : invariant chain db)
    (valid : wrap32 (db.findLastId + 1) ≠ AccountId.invalid)
    (success : db.addAccount env clock address key flags = .ok next) :
    Tracked ledger env chain next ∧ invariant chain next := by
  have indexed := tracked.indexed.addAccount valid success
  obtain ⟨user, id, unscanned, added⟩ := addAccount_added success
  exact ⟨⟨tracked.stored.of_blocks (by rw [added.next_eq]), indexed⟩,
    upheld.added holds (by rw [id]; exact tracked.indexed.fresh) unscanned
      added⟩

private theorem clearWebhooks {addresses : List AccountAddress}
    (upheld : Upheld ledger env guard invariant)
    (tracked : Tracked ledger env chain db) (holds : invariant chain db)
    (success : db.clearWebhooks addresses = .ok next) :
    Tracked ledger env chain next ∧ invariant chain next := by
  refine Outcome.foldlM_preserves (fun state =>
    Tracked ledger env chain state ∧ invariant chain state)
    ?_ ⟨tracked, holds⟩ success
  rintro state address final _member ⟨tracks, kept⟩ stepped
  unfold clearWebhooksOf at stepped
  split at stepped
  · cases stepped
  · cases stepped
    exact ⟨tracks.of_tables rfl rfl rfl rfl, upheld.cleared _ kept⟩

private theorem acceptRequests {clock : ℤ} {type : Request}
    {addresses found : List AccountAddress} {maxSubaddresses : ℕ}
    (upheld : Upheld ledger env guard invariant)
    (tracked : Tracked ledger env chain db) (holds : invariant chain db)
    (moves : EveryMove env guard db
      (.acceptRequests clock type addresses maxSubaddresses))
    (success : acceptRequests env clock db type addresses maxSubaddresses =
      .ok (next, found)) :
    Tracked ledger env chain next ∧ invariant chain next := by
  unfold Db.acceptRequests at success
  split at success
  · cases success
    exact ⟨tracked, holds⟩
  cases type with
  | create => exact upheld.createAccounts tracked holds success
  | importScan =>
      refine importAccounts_preserves (fun db =>
        Tracked ledger env chain db ∧ invariant chain db) ?_ ?_ moves
        ⟨tracked, holds⟩ success
      · rintro _ _ _ _ _ _ _ ⟨tracks, kept⟩ allowed changed
        exact ⟨tracks.heightChanged (upheld.within allowed) changed,
          upheld.moved tracks kept allowed changed⟩
      · rintro _ _ _ ⟨tracks, kept⟩
        exact ⟨tracks.of_tables rfl rfl rfl rfl,
          upheld.relabelled tracks.stored kept
            (.of_tables rfl rfl rfl rfl rfl rfl)⟩

private theorem rescan {height : BlockId}
    {addresses found : List AccountAddress}
    (upheld : Upheld ledger env guard invariant)
    (tracked : Tracked ledger env chain db) (holds : invariant chain db)
    (moves : EveryMove env guard db (.rescan height addresses))
    (success : rescan env db height addresses = .ok (next, found)) :
    Tracked ledger env chain next ∧ invariant chain next := by
  refine rescan_preserves (fun db =>
    Tracked ledger env chain db ∧ invariant chain db) ?_ moves
    ⟨tracked, holds⟩ success
  rintro _ _ _ _ _ _ ⟨tracks, kept⟩ allowed changed
  exact ⟨tracks.heightChanged (upheld.within allowed) changed,
    upheld.moved tracks kept allowed changed⟩

private theorem updateLookahead {address : AccountAddress}
    {height : BlockId} {matched : AddressIndex} {maxSubaddresses : ℕ}
    {changed : ℤ} (upheld : Upheld ledger env guard invariant)
    (tracked : Tracked ledger env chain db) (holds : invariant chain db)
    (success : updateLookahead env db address height matched
      maxSubaddresses = .ok (next, changed)) :
    Tracked ledger env chain next ∧ invariant chain next := by
  rcases updateLookahead_eq success with
    ⟨_, _, rfl⟩ | ⟨lookup, user, fail, located, _, _, rfl⟩
  · exact ⟨tracked.of_tables rfl rfl rfl rfl,
      upheld.relabelled tracked.stored holds
        (.of_tables rfl rfl rfl rfl rfl rfl)⟩
  · obtain ⟨member, -⟩ := Agreement.findAccount_iff.mp located
    refine ⟨⟨tracked.stored.of_blocks rfl, tracked.indexed.touch member
      ?_ ?_ ?_ rfl rfl rfl⟩, upheld.relabelled tracked.stored holds
      (.touch member ?_ ?_ ?_ rfl rfl rfl rfl rfl rfl)⟩ <;> rfl

private theorem shrinkLookahead {address : AccountAddress}
    {lookahead : AddressIndex} (upheld : Upheld ledger env guard invariant)
    (tracked : Tracked ledger env chain db) (holds : invariant chain db)
    (success : db.shrinkLookahead address lookahead = .ok next) :
    Tracked ledger env chain next ∧ invariant chain next := by
  obtain ⟨lookup, user, located, rfl⟩ := shrinkLookahead_eq success
  obtain ⟨member, -⟩ := Agreement.findAccount_iff.mp located
  refine ⟨⟨tracked.stored.of_blocks rfl, tracked.indexed.touch member
    ?_ ?_ ?_ rfl rfl rfl⟩, upheld.relabelled tracked.stored holds
    (.touch member ?_ ?_ ?_ rfl rfl rfl rfl rfl rfl)⟩ <;> rfl

/-- One call, from a chain to one that extends what was stored of it. -/
theorem step {operation : Operation}
    (upheld : Upheld ledger env guard invariant)
    (checkpoints : env.checkpoints ≠ .empty)
    (tracked : Tracked ledger env chain db) (holds : invariant chain db)
    (honest : Honest ledger env db operation)
    (guarded : Guarded ledger env guard db operation)
    (success : Step env db operation next) :
    ∃ after, Tracked ledger env after next ∧ invariant after next := by
  have same : ∀ {next : Db}, Tracked ledger env chain next →
      Relabelled db next →
      ∃ after, Tracked ledger env after next ∧ invariant after next :=
    fun tracks relabelled =>
      ⟨chain, tracks, upheld.relabelled tracked.stored holds relabelled⟩
  cases operation with
  | addAccount clock address key flags =>
      exact ⟨chain, upheld.addAccount tracked holds guarded.1
        success⟩
  | changeStatus status addresses =>
      obtain ⟨⟨final, found⟩, changed, rfl⟩ := Outcome.map_eq_ok.mp success
      exact ⟨chain, upheld.changeStatus tracked holds changed⟩
  | creationRequest clock address key flags lookahead =>
      obtain ⟨⟨final, hooks⟩, requested, rfl⟩ := Outcome.map_eq_ok.mp success
      obtain ⟨requests, rfl⟩ := creationRequest_eq requested
      exact same (tracked.of_tables rfl rfl rfl rfl)
        (.of_tables rfl rfl rfl rfl rfl rfl)
  | importRequest clock address height lookahead =>
      obtain ⟨requests, rfl⟩ := importRequest_eq success
      exact same (tracked.of_tables rfl rfl rfl rfl)
        (.of_tables rfl rfl rfl rfl rfl rfl)
  | acceptRequests clock type addresses maxSubaddresses =>
      obtain ⟨⟨final, found⟩, accepted, rfl⟩ := Outcome.map_eq_ok.mp success
      exact ⟨chain, upheld.acceptRequests tracked holds guarded.2 accepted⟩
  | rejectRequests type addresses =>
      obtain ⟨requests, equality⟩ := rejectRequests_eq db type addresses
      cases success
      rw [equality]
      exact same (tracked.of_tables rfl rfl rfl rfl)
        (.of_tables rfl rfl rfl rfl rfl rfl)
  | rescan height addresses =>
      obtain ⟨⟨final, found⟩, rescanned, rfl⟩ := Outcome.map_eq_ok.mp success
      exact ⟨chain, upheld.rescan tracked holds guarded.2 rescanned⟩
  | rollback height =>
      have moved := rollback_moves tracked.stored tracked.indexed.agreement
        success
      exact ⟨chain, tracked.chainMoved moved,
        upheld.chainMoved tracked holds moved⟩
  | syncChain height hashes regtest =>
      obtain ⟨after, moved⟩ := syncChain_moves tracked.stored checkpoints
        tracked.indexed.agreement guarded.1 success
      exact ⟨after, tracked.chainMoved moved,
        upheld.chainMoved tracked holds moved⟩
  | syncPow height hashes pow => exact honest.elim
  | update height hashes users pow =>
      obtain ⟨⟨final, out⟩, updated, rfl⟩ := Outcome.map_eq_ok.mp success
      by_cases empty : hashes = []
      · rcases update_ok updated with ⟨-, rfl, -⟩ | ⟨nonempty, -⟩
        · exact ⟨chain, tracked, holds⟩
        · exact absurd empty nonempty
      · obtain ⟨daemon, batch, scans⟩ := honest empty
        obtain ⟨after, -, kept⟩ :=
          upheld.update checkpoints tracked holds batch scans updated
        exact ⟨after, kept⟩
  | upsertSubaddresses id address viewKey subaddrs maxSubaddr =>
      obtain ⟨⟨final, out⟩, upserted, rfl⟩ := Outcome.map_eq_ok.mp success
      obtain ⟨ranges, indexes, rfl⟩ := upsertSubaddresses_eq upserted
      exact same (tracked.of_tables rfl rfl rfl rfl)
        (.of_tables rfl rfl rfl rfl rfl rfl)
  | updateLookahead address height matched maxSubaddresses =>
      obtain ⟨⟨final, changed⟩, updated, rfl⟩ := Outcome.map_eq_ok.mp success
      exact ⟨chain, upheld.updateLookahead tracked holds updated⟩
  | shrinkLookahead address lookahead =>
      exact ⟨chain, upheld.shrinkLookahead tracked holds success⟩
  | addWebhook type address event =>
      obtain ⟨rfl, -⟩ := addWebhook_eq success
      exact ⟨chain, tracked.of_tables rfl rfl rfl rfl, upheld.hooked holds⟩
  | clearWebhooks addresses =>
      exact ⟨chain, upheld.clearWebhooks tracked holds success⟩
  | clearWebhookIds ids =>
      cases success
      exact ⟨chain, tracked.of_tables rfl rfl rfl rfl,
        upheld.clearedIds ids holds⟩

end Upheld

/-! ## Whole runs -/

/-- The blocks of a new database are checkpoints. -/
theorem Tracked.of_openNew (opened : openNew env = .ok db)
    (isTrue : TrueChain ledger env chain) :
    env.checkpoints ≠ .empty ∧ Tracked ledger env chain db := by
  unfold openNew at opened
  split at opened
  · cases opened
  rename_i height hash later listed
  split at opened
  · cases opened
  have first : (height, hash) ∈ env.checkpoints := by
    rw [← SortedRows.mem_rows, listed]
    simp
  have points : ∀ row ∈ db.blocks, (row.id, row.hash) ∈ env.checkpoints := by
    cases opened
    intro row member
    rcases SortedRows.mem_of_mem_addAll member with old | new
    · exact absurd old (SortedRows.not_mem_empty row)
    · rcases List.mem_cons.mp new with rfl | last
      · exact first
      · rw [Option.mem_toList] at last
        obtain ⟨point, found, rfl⟩ := Option.map_eq_some_iff.mp last
        rw [← SortedRows.mem_rows, listed]
        exact List.mem_cons_of_mem _ (List.mem_of_getLast? found)
  have nonempty : env.checkpoints ≠ .empty := by
    intro empty
    rw [empty] at first
    exact SortedRows.not_mem_empty _ first
  have below : ∀ row ∈ db.blocks, row.id ≤ env.getMaxHeight := by
    intro row member
    unfold Env.getMaxHeight
    cases last : env.checkpoints.last? with
    | none =>
        exact absurd (points row member) (SortedRows.last?_eq_none.mp last _)
    | some point =>
        exact (SortedRows.last?_eq_some last).2 _ (points row member)
  refine ⟨nonempty, ⟨isTrue, ?_, ?_⟩, ?_⟩
  · intro row member
    exact isTrue.checkpoints _ (points row member)
  · intro row member above
    have := below row member
    lia
  · cases opened
    exact .of_empty rfl rfl rfl

/-- What every kind of change keeps holds in all runs from a new database. -/
theorem Upheld.run {start final : Db} {operations : List Operation}
    (upheld : Upheld ledger env guard invariant)
    (opened : openNew env = .ok start) (isTrue : TrueChain ledger env chain)
    (initial : invariant chain start)
    (run : Run (fun db operation next => Honest ledger env db operation ∧
      Guarded ledger env guard db operation ∧ Step env db operation next)
      start operations final) :
    env.checkpoints ≠ .empty ∧
      ∃ last, Tracked ledger env last final ∧ invariant last final := by
  obtain ⟨checkpoints, tracked⟩ := Tracked.of_openNew opened isTrue
  refine ⟨checkpoints, ?_⟩
  refine run.preserves (fun db => ∃ chain,
    Tracked ledger env chain db ∧ invariant chain db) ?_
    ⟨chain, tracked, initial⟩
  rintro state operation after ⟨current, tracks, kept⟩ stepped
  exact upheld.step checkpoints tracks kept stepped.1 stepped.2.1 stepped.2.2

end Steps

/-! ## A concrete ledger -/

def sampleOutput : Output where
  link := ⟨1, 5⟩
  spendMeta := ⟨⟨0, 1⟩, 3, 0, 0, 4⟩
  timestamp := 0
  unlockTime := 0
  txPrefixHash := 6
  pub := 9
  ringctMask := 0
  extra := 0
  paymentId := ⟨0, 0⟩
  fee := 0
  recipient := .primary

/-- The block at height one pays the first account. -/
def sampleLedger : Ledger where
  parent := fun hash => hash - 1
  height := fun hash => hash - 10
  received :=
    { rows := fun id hash => if id = 1 ∧ hash = 11 then [sampleOutput] else []
      height_eq := by
        intro id hash row listed
        split at listed
        · rename_i here
          rw [List.mem_singleton.mp listed, here.2]
          rfl
        · cases listed
      identified := by
        intro id hash left right leftListed rightListed _
        split at leftListed
        · rw [List.mem_singleton.mp leftListed]
          rw [if_pos ‹_›] at rightListed
          exact (List.mem_singleton.mp rightListed).symm
        · cases leftListed }
  spent :=
    { rows := fun _ _ => []
      height_eq := fun listed => by cases listed
      identified := fun listed => by cases listed }

def sampleChain (id : BlockId) : Hash := id + 10

theorem sampleChain_true : TrueChain sampleLedger sampleEnv sampleChain := by
  refine ⟨fun _ => rfl, fun _ => Nat.add_sub_cancel _ _, ?_⟩
  show ∀ point ∈ sampleEnv.checkpoints.rows, sampleChain point.1 = point.2
  decide

theorem sampleBatch {first : BlockId} {length : ℕ}
    (fits : first + length < 2 ^ 64) :
    Batch sampleLedger sampleEnv sampleChain first
      ((List.range' first length).map sampleChain) := by
  refine ⟨sampleChain_true, ?_, by simpa using fits⟩
  intro index element read
  rw [List.getElem?_map, Option.map_eq_some_iff] at read
  obtain ⟨height, listed, rfl⟩ := read
  obtain ⟨inside, rfl⟩ := List.getElem?_eq_some_iff.mp listed
  simp

theorem sampleScan {last : BlockId} (long : 1 ≤ last) {db : Db}
    (started : ∀ row ∈ db.accounts, row.2.startHeight = 0) :
    ScanOf sampleLedger sampleChain last db
      ⟨1, sampleAddress, 0, [sampleOutput], []⟩ := by
  refine ⟨fun row member _ => (started row member).le, ?_, ?_⟩
  · intro output
    simp only [sampleLedger, sampleChain, List.mem_singleton]
    constructor
    · rintro rfl
      exact ⟨1, Nat.one_pos, long, by simp⟩
    · rintro ⟨id, _, _, listed⟩
      split at listed
      · exact List.mem_singleton.mp listed
      · cases listed
  · intro spend
    simp [sampleLedger]

end XfoLws.Db
