import XfoLws.Db.RolledBack

/-!
# The account indexes over whole runs

Every operation keeps `accounts_by_address` and `accounts_by_height` in step
with `accounts`, as long as no rescan or import asks for a height above the
account's scan height: `change_height` stores the lower of the two heights in
the account but always files the index row under the requested one.
-/

namespace XfoLws.Db

/-- The account tables agree and every id is a usable one. -/
structure Indexed (db : Db) : Prop where
  agreement : Agreement [] db
  ids : ∀ row ∈ db.accounts, row.2.id < AccountId.invalid

namespace Agreement

variable {pending : List (BlockId × AccountLookup)} {db next : Db}

theorem touch (agree : Agreement pending db) {status : AccountStatus}
    {user moved : Account} (member : (status, user) ∈ db.accounts)
    (sameId : moved.id = user.id) (sameAddress : moved.address = user.address)
    (sameHeight : moved.scanHeight = user.scanHeight)
    (accounts : next.accounts = db.accounts.put (status, moved))
    (addresses : next.accountsByAddress = db.accountsByAddress)
    (heights : next.accountsByHeight = db.accountsByHeight) :
    Agreement pending next := by
  refine agree.replace sameId
    (fun row => by rw [accounts, agree.mem_put member sameId])
    (fun entry => by
      rw [addresses]
      exact agree.mem_addresses member sameId sameAddress) ?_
  intro entry
  have sameRow : heightRow (status, moved) = heightRow (status, user) := by
    rw [heightRow, heightRow, sameId, sameHeight]
  rw [heights, sameRow]
  constructor
  · intro stored
    by_cases own : entry.2.id = user.id
    · exact .inl ((agree.heights_ne member stored).mp own)
    · exact .inr ⟨stored, own⟩
  · rintro (rfl | ⟨stored, -⟩)
    · exact (agree.heights _).mpr ⟨_, member, rfl⟩
    · exact stored

theorem refile (agree : Agreement [] db) {status : AccountStatus}
    {user moved : Account} (member : (status, user) ∈ db.accounts)
    (sameId : moved.id = user.id) (sameAddress : moved.address = user.address)
    (accounts : next.accounts = db.accounts.put (status, moved))
    (addresses : next.accountsByAddress = db.accountsByAddress)
    (heights : next.accountsByHeight =
      (db.accountsByHeight.erase (toLex (user.scanHeight, user.id))).put
        (heightRow (status, moved))) :
    Agreement [] next := by
  refine agree.replace sameId
    (fun row => by rw [accounts, agree.mem_put member sameId])
    (fun entry => by
      rw [addresses]
      exact agree.mem_addresses member sameId sameAddress) ?_
  intro entry
  simp only [heights, SortedRows.mem_put, SortedRows.mem_erase,
    List.not_mem_nil, or_false]
  refine or_congr_right ?_
  constructor
  · rintro ⟨⟨stored, different⟩, _⟩
    refine ⟨stored, fun own => different ?_⟩
    rw [(agree.heights_ne member (.inl stored)).mp own]
    rfl
  · rintro ⟨stored, other⟩
    refine ⟨⟨stored, fun sameKey => other ?_⟩, fun sameKey => other ?_⟩
    · exact (Prod.mk.inj (toLex.injective sameKey)).2
    · exact (Prod.mk.inj (toLex.injective sameKey)).2.trans sameId

theorem buffer (agree : Agreement pending db) {status : AccountStatus}
    {user moved : Account} (member : (status, user) ∈ db.accounts)
    (sameId : moved.id = user.id) (sameAddress : moved.address = user.address)
    (unbuffered : heightRow (status, user) ∉ pending)
    (accounts : next.accounts = db.accounts.put (status, moved))
    (addresses : next.accountsByAddress = db.accountsByAddress)
    (heights : next.accountsByHeight =
      db.accountsByHeight.erase (toLex (user.scanHeight, user.id))) :
    Agreement (pending ++ [heightRow (status, moved)]) next := by
  refine agree.replace sameId
    (fun row => by rw [accounts, agree.mem_put member sameId])
    (fun entry => by
      rw [addresses]
      exact agree.mem_addresses member sameId sameAddress) ?_
  intro entry
  simp only [heights, SortedRows.mem_erase, List.mem_append,
    List.mem_singleton]
  constructor
  · rintro (⟨stored, different⟩ | buffered | new)
    · refine .inr ⟨.inl stored, fun own => different ?_⟩
      rw [(agree.heights_ne member (.inl stored)).mp own]
      rfl
    · refine .inr ⟨.inr buffered, fun own => unbuffered ?_⟩
      rw [← (agree.heights_ne member (.inr buffered)).mp own]
      exact buffered
    · exact .inl new
  · rintro (new | ⟨stored | buffered, other⟩)
    · exact .inr (.inr new)
    · refine .inl ⟨stored, fun sameKey => other ?_⟩
      exact (Prod.mk.inj (toLex.injective sameKey)).2
    · exact .inr (.inl buffered)

theorem add {env : Env} {user : Account} (agree : Agreement [] db)
    (fresh : ∀ row ∈ db.accounts, row.2.id ≠ user.id)
    (added : Added env user db next) : Agreement [] next := by
  obtain rfl := added.next_eq
  have stored : ∀ row, row ∈ db.accounts.put (user.initialStatus, user) ↔
      row = (user.initialStatus, user) ∨ row ∈ db.accounts := by
    intro row
    rw [SortedRows.mem_put]
    refine or_congr_right (and_iff_left_of_imp fun old sameKey => ?_)
    exact fresh row old (Prod.mk.inj (toLex.injective sameKey)).2
  refine ⟨?_, ?_, ?_⟩
  · intro left leftMember right rightMember sameId
    rcases (stored left).mp leftMember with rfl | leftOld <;>
      rcases (stored right).mp rightMember with rfl | rightOld
    · rfl
    · exact absurd sameId.symm (fresh right rightOld)
    · exact absurd sameId (fresh left leftOld)
    · exact agree.distinct left leftOld right rightOld sameId
  · intro entry
    simp only [SortedRows.mem_put, stored, or_and_right, exists_or,
      exists_eq_left, ← agree.addresses]
    refine or_congr (by simp [addressRow, eq_comm]) ?_
    exact and_iff_left_of_imp (added.newAddress entry)
  · intro entry
    simp only [SortedRows.mem_put, stored, or_and_right, exists_or,
      exists_eq_left, ← agree.heights, List.not_mem_nil, or_false]
    refine or_congr (by simp [heightRow, eq_comm]) ?_
    refine and_iff_left_of_imp fun old sameKey => ?_
    obtain ⟨row, member, rfl⟩ := (agree.heights entry).mp (.inl old)
    exact fresh row member (Prod.mk.inj (toLex.injective sameKey)).2

/-- A change of status moves the account and rewrites both index rows. -/
theorem restatus {status : AccountStatus} {entry : AccountByAddress}
    {user : Account} (agree : Agreement [] db)
    (changed : StatusChanged status db entry user next) :
    Agreement [] next := by
  obtain ⟨member, sameId⟩ := findAccount_iff.mp changed.account_eq
  obtain ⟨⟨oldStatus, old⟩, oldMember, rfl⟩ :=
    (agree.addresses entry).mp changed.entry_mem
  obtain rfl : old = user :=
    congrArg Prod.snd (agree.distinct _ oldMember _ member sameId.symm)
  obtain rfl := changed.next_eq
  refine @replace _ _ _ agree [] status old old rfl ?_ ?_ ?_
  · intro row
    simp only [SortedRows.mem_put, SortedRows.mem_erase]
    refine or_congr_right ?_
    constructor
    · rintro ⟨⟨stored, different⟩, _⟩
      exact ⟨stored, (agree.accounts_ne oldMember stored).mp different⟩
    · rintro ⟨stored, other⟩
      refine ⟨⟨stored, (agree.accounts_ne oldMember stored).mpr other⟩, ?_⟩
      intro sameKey
      exact other (Prod.mk.inj (toLex.injective sameKey)).2
  · intro entry
    rw [SortedRows.mem_put]
    refine or_congr_right (and_congr_right fun stored => not_congr ?_)
    constructor
    · intro sameKey
      have same : entry = addressRow (oldStatus, old) :=
        SortedRows.eq_of_key_eq stored changed.entry_mem sameKey
      rw [same]
      rfl
    · intro own
      obtain ⟨row, rowMember, rfl⟩ := (agree.addresses entry).mp stored
      rw [agree.distinct row rowMember _ oldMember own]
      rfl
  · intro entry
    simp only [SortedRows.mem_put, List.not_mem_nil, or_false]
    refine or_congr_right (and_congr_right fun stored => not_congr ?_)
    constructor
    · intro sameKey
      exact (Prod.mk.inj (toLex.injective sameKey)).2
    · intro own
      rw [(agree.heights_ne oldMember (.inl stored)).mp own]
      rfl

end Agreement

theorem le_findLastId {db : Db} {row : AccountStatus × Account}
    (member : row ∈ db.accounts) : row.2.id ≤ db.findLastId := by
  have lastOf : ∀ status, row.1 = status →
      ∃ user, db.lastAccount? status = some user ∧ row.2.id ≤ user.id := by
    intro status sameStatus
    have kept : row ∈ db.accounts.filter fun row => row.1 = status :=
      SortedRows.mem_filter.mpr ⟨member, by simpa using sameStatus⟩
    cases last : (db.accounts.filter fun row => row.1 = status).last? with
    | none => exact absurd kept (SortedRows.last?_eq_none.mp last row)
    | some final =>
        obtain ⟨finalMember, greatest⟩ := SortedRows.last?_eq_some last
        have finalStatus : final.1 = status := by
          simpa using (SortedRows.mem_filter.mp finalMember).2
        have below := greatest row kept
        simp only [accountsKey, Prod.Lex.toLex_le_toLex, sameStatus,
          finalStatus, lt_irrefl, true_and, false_or] at below
        exact ⟨final.2, by rw [lastAccount?, last]; rfl, below⟩
  obtain ⟨user, found, below⟩ := lastOf row.1 rfl
  refine below.trans ?_
  have best : user.id = (db.lastAccount? row.1).elim 0 Account.id := by
    rw [found]
    rfl
  rw [best, findLastId]
  cases row.1 <;> simp

/-- The next id does not wrap while the greatest one is usable. -/
theorem nextId_eq {last : ℕ} (valid : last < AccountId.invalid) :
    wrap32 (last + 1) = last + 1 := by
  have below : last < 2 ^ 32 - 1 := valid
  exact Nat.mod_eq_of_lt (by omega)

/-- Every id is a usable one. -/
def UsableIds (db : Db) : Prop :=
  ∀ row ∈ db.accounts, row.2.id < AccountId.invalid

theorem UsableIds.findLastId_lt {db : Db} (ids : UsableIds db) :
    db.findLastId < AccountId.invalid := by
  have bounded : ∀ status,
      (db.lastAccount? status).elim 0 Account.id < AccountId.invalid := by
    intro status
    cases found : db.lastAccount? status with
    | none => decide
    | some user =>
        obtain ⟨row, last, rfl⟩ := Option.map_eq_some_iff.mp found
        exact ids row
          (SortedRows.mem_filter.mp (SortedRows.last?_eq_some last).1).1
  simp [findLastId, bounded]

theorem nextId_fresh {db : Db} {last : ℕ} (valid : last < AccountId.invalid)
    (greatest : ∀ row ∈ db.accounts, row.2.id ≤ last) :
    ∀ row ∈ db.accounts, row.2.id < wrap32 (last + 1) := by
  intro row member
  rw [nextId_eq valid]
  exact Nat.lt_succ_of_le (greatest row member)

theorem nextId_valid {last : ℕ} (valid : last < AccountId.invalid)
    (usable : wrap32 (last + 1) ≠ AccountId.invalid) :
    wrap32 (last + 1) < AccountId.invalid :=
  lt_of_le_of_ne ((nextId_eq valid).trans_le valid) usable

theorem addAccount_added {env : Env} {clock : ℤ} {db next : Db}
    {address : AccountAddress} {key : SecretKey} {flags : AccountFlags}
    (success : db.addAccount env clock address key flags = .ok next) :
    ∃ user : Account, user.id = wrap32 (db.findLastId + 1) ∧
      user.startHeight = user.scanHeight ∧ Added env user db next := by
  obtain ⟨time, -, rest⟩ := Outcome.bind_eq_ok.mp success
  obtain ⟨height, -, stored⟩ := Outcome.bind_eq_ok.mp rest
  exact ⟨_, rfl, rfl, doAddAccount_ok stored⟩

/-- Ids handed out by `create_accounts` follow the greatest one. -/
private structure Creating (state : Creation) : Prop where
  greatest : ∀ row ∈ state.db.accounts, row.2.id ≤ state.lastId
  valid : state.lastId < AccountId.invalid

private theorem Creating.step {env : Env} {time : AccountTime}
    {maxSubaddresses : ℕ} {state next : Creation} {address : AccountAddress}
    (creating : Creating state)
    (created : AccountCreated env time maxSubaddresses state address next) :
    Creating next := by
  cases created with
  | missing => exact creating
  | skipped requested provisioned failed =>
      obtain ⟨-, _, _, rfl⟩ := provision_eq provisioned
      exact ⟨creating.greatest, creating.valid⟩
  | added requested valid provisioned added =>
      obtain ⟨⟨_, _, rfl⟩, _, _, rfl⟩ := provision_eq provisioned
      have below := nextId_fresh creating.valid creating.greatest
      refine ⟨?_, nextId_valid creating.valid valid⟩
      obtain rfl := added.next_eq
      intro row stored
      rcases SortedRows.mem_put.mp stored with rfl | ⟨old, -⟩
      · exact le_rfl
      · exact le_of_lt (below row old)

/-- Accepted creation requests keep what adding one account keeps. -/
theorem createAccounts_preserves {env : Env} (invariant : Db → Prop)
    (provisioned : ∀ db requests ranges indexes, invariant db →
      invariant { db with
        requests := requests
        subaddressRanges := ranges
        subaddressIndexes := indexes })
    (added : ∀ user db next, invariant db →
      (∀ row ∈ db.accounts, row.2.id ≠ user.id) →
      user.id < AccountId.invalid →
      user.startHeight = user.scanHeight → Added env user db next →
      invariant next)
    {clock : ℤ} {addresses found : List AccountAddress}
    {maxSubaddresses : ℕ} {db next : Db} (ids : UsableIds db)
    (initial : invariant db)
    (success : createAccounts env clock db addresses maxSubaddresses =
      .ok (next, found)) : invariant next := by
  obtain ⟨time, -, rest⟩ := Outcome.bind_eq_ok.mp success
  obtain ⟨final, folded, stored⟩ := Outcome.bind_eq_ok.mp rest
  cases stored
  have creating : Creating final ∧ invariant final.db := by
    refine Outcome.foldlM_preserves
      (fun state => Creating state ∧ invariant state.db) ?_
      ⟨⟨fun _ member => le_findLastId member, ids.findLastId_lt⟩, initial⟩
      folded
    intro state address after _member before stepped
    have created := createAccount_ok stepped
    refine ⟨before.1.step created, ?_⟩
    cases created with
    | missing => exact before.2
    | skipped requested lookedAhead failed =>
        obtain ⟨-, _, _, rfl⟩ := provision_eq lookedAhead
        exact provisioned state.db _ _ _ before.2
    | added requested valid lookedAhead stored =>
        have below := nextId_fresh before.1.valid before.1.greatest
        obtain ⟨⟨_, _, rfl⟩, _, _, rfl⟩ := provision_eq lookedAhead
        refine added _ _ _ (provisioned state.db _ _ _ before.2) ?_
          (nextId_valid before.1.valid valid) rfl stored
        exact fun row member => Nat.ne_of_lt (below row member)
  exact creating.2

namespace Indexed

variable {env : Env} {db next : Db}

theorem of_tables (indexed : Indexed db)
    (accounts : next.accounts = db.accounts)
    (addresses : next.accountsByAddress = db.accountsByAddress)
    (heights : next.accountsByHeight = db.accountsByHeight) :
    Indexed next := by
  refine ⟨⟨?_, ?_, ?_⟩, ?_⟩
  · rw [accounts]
    exact indexed.agreement.distinct
  · rw [accounts, addresses]
    exact indexed.agreement.addresses
  · rw [accounts, heights]
    exact indexed.agreement.heights
  · rw [accounts]
    exact indexed.ids

private theorem ids_put {accounts : SortedRows accountsKey}
    {status : AccountStatus} {user moved : Account}
    (ids : ∀ row ∈ accounts, row.2.id < AccountId.invalid)
    (member : (status, user) ∈ accounts) (sameId : moved.id = user.id) :
    ∀ row ∈ accounts.put (status, moved), row.2.id < AccountId.invalid := by
  intro row stored
  rcases SortedRows.mem_put.mp stored with rfl | ⟨old, -⟩
  · exact sameId ▸ ids _ member
  · exact ids row old

theorem heightChanged {height : BlockId} {address : AccountAddress}
    {lookup : AccountLookup} {user moved : Account} (indexed : Indexed db)
    (within : height ≤ user.scanHeight)
    (changed : HeightChanged height address db lookup user moved next) :
    Indexed next := by
  obtain ⟨member, sameId⟩ :=
    Agreement.findAccount_iff.mp changed.account_eq
  obtain ⟨_, _, rfl⟩ := changed.moved_eq
  obtain ⟨_, _, _, rfl⟩ := changed.next_eq
  refine ⟨Agreement.refile indexed.agreement member ?_ ?_ rfl rfl ?_,
    ids_put indexed.ids member ?_⟩
  all_goals try rfl
  simp [heightRow, Account.movedBack, sameId, Nat.min_eq_left within]

theorem touch {status : AccountStatus} {user moved : Account}
    (indexed : Indexed db) (member : (status, user) ∈ db.accounts)
    (sameId : moved.id = user.id) (sameAddress : moved.address = user.address)
    (sameHeight : moved.scanHeight = user.scanHeight)
    (accounts : next.accounts = db.accounts.put (status, moved))
    (addresses : next.accountsByAddress = db.accountsByAddress)
    (heights : next.accountsByHeight = db.accountsByHeight) :
    Indexed next :=
  ⟨indexed.agreement.touch member sameId sameAddress sameHeight accounts
      addresses heights,
    by rw [accounts]; exact ids_put indexed.ids member sameId⟩

theorem added {user : Account} (indexed : Indexed db)
    (fresh : ∀ row ∈ db.accounts, row.2.id ≠ user.id)
    (valid : user.id < AccountId.invalid)
    (added : Added env user db next) : Indexed next := by
  refine ⟨indexed.agreement.add fresh added, ?_⟩
  obtain rfl := added.next_eq
  intro row stored
  rcases SortedRows.mem_put.mp stored with rfl | ⟨old, -⟩
  · exact valid
  · exact indexed.ids row old

theorem restatus {status : AccountStatus} {entry : AccountByAddress}
    {user : Account} (indexed : Indexed db)
    (changed : StatusChanged status db entry user next) : Indexed next := by
  refine ⟨indexed.agreement.restatus changed, ?_⟩
  obtain ⟨member, -⟩ := Agreement.findAccount_iff.mp changed.account_eq
  obtain rfl := changed.next_eq
  intro row stored
  rcases SortedRows.mem_put.mp stored with rfl | ⟨old, -⟩
  · exact indexed.ids (entry.lookup.status, user) member
  · exact indexed.ids row (SortedRows.mem_erase.mp old).1

theorem rolledBack {first height : BlockId} (indexed : Indexed db)
    (rolled : ChainRolledBack first height db next) : Indexed next := by
  refine ⟨rolled.agreement, ?_⟩
  intro row stored
  obtain ⟨old, member, rfl⟩ := (rolled.accounts row).mp stored
  simpa using indexed.ids old member

theorem changeStatus {status : AccountStatus}
    {addresses found : List AccountAddress} (indexed : Indexed db)
    (success : db.changeStatus status addresses = .ok (next, found)) :
    Indexed next := by
  refine Outcome.foldlM_preserves
    (fun state : Db × List AccountAddress => Indexed state.1)
    ?_ indexed success
  intro state address final _member kept stepped
  obtain ⟨⟨middle, changed⟩, once, stored⟩ := Outcome.bind_eq_ok.mp stepped
  cases stored
  rcases changeStatusOf_ok once with rfl | ⟨entry, user, effect⟩
  · exact kept
  · exact kept.restatus effect

theorem fresh (indexed : Indexed db) :
    ∀ row ∈ db.accounts, row.2.id ≠ wrap32 (db.findLastId + 1) :=
  fun row member => Nat.ne_of_lt (nextId_fresh
    (UsableIds.findLastId_lt indexed.ids)
    (fun _ member => le_findLastId member) row member)

theorem addAccount {clock : ℤ} {address : AccountAddress} {key : SecretKey}
    {flags : AccountFlags} (indexed : Indexed db)
    (valid : wrap32 (db.findLastId + 1) ≠ AccountId.invalid)
    (success : db.addAccount env clock address key flags = .ok next) :
    Indexed next := by
  obtain ⟨user, id, -, added⟩ := addAccount_added success
  refine indexed.added ?_ ?_ added
  · rw [id]
    exact indexed.fresh
  · rw [id]
    exact nextId_valid (UsableIds.findLastId_lt indexed.ids) valid

theorem createAccounts {clock : ℤ} {addresses found : List AccountAddress}
    {maxSubaddresses : ℕ} (indexed : Indexed db)
    (success : createAccounts env clock db addresses maxSubaddresses =
      .ok (next, found)) : Indexed next :=
  createAccounts_preserves Indexed
    (fun _ _ _ _ before => before.of_tables rfl rfl rfl)
    (fun _ _ _ before fresh valid _ added => before.added fresh valid added)
    indexed.ids indexed success

/-- The account tables while `update` goes through the users. -/
structure DuringUpdate (lastUpdate : BlockId) (state : Updating) :
    Prop where
  agreement : Agreement (state.pending lastUpdate) state.db
  ids : ∀ row ∈ state.db.accounts, row.2.id < AccountId.invalid

theorem DuringUpdate.room {lastUpdate : BlockId} {state : Updating}
    (indexed : DuringUpdate lastUpdate state) :
    DuringUpdate lastUpdate (state.room lastUpdate) := by
  unfold Updating.room
  split
  · exact ⟨indexed.agreement.flush, indexed.ids⟩
  · exact indexed

theorem DuringUpdate.step {height lastUpdate : BlockId}
    {state next : Updating} {user : ScannedAccount}
    (indexed : DuringUpdate lastUpdate state)
    (updated : UserUpdated height lastUpdate state user next) :
    DuringUpdate lastUpdate next := by
  cases updated with
  | skipped sameDb sameHeights =>
      rcases indexed with ⟨agreement, ids⟩
      rw [Updating.pending, ← sameDb, ← sameHeights] at *
      exact ⟨agreement, ids⟩
  | @stored status existing _ located _ ahead success =>
      obtain ⟨member, sameId⟩ := Agreement.findAccount_iff.mp located
      have stored := storeScan_ok success
      obtain ⟨images, events, tables⟩ := stored.db_eq
      have pending : next.pending lastUpdate = state.pending lastUpdate ++
          [heightRow (status, { existing with scanHeight := lastUpdate })] := by
        simp [Updating.pending, stored.heights_eq, heightRow, sameId]
      have unbuffered :
          heightRow (status, existing) ∉ state.pending lastUpdate := by
        intro buffered
        obtain ⟨lookup, -, same⟩ := List.mem_map.mp buffered
        exact Nat.ne_of_gt ahead (Prod.mk.inj same).1
      have moved : Agreement (next.pending lastUpdate) next.db := by
        rw [pending, tables]
        exact indexed.agreement.buffer member rfl rfl unbuffered rfl rfl
          (by rw [sameId])
      refine ⟨moved, ?_⟩
      rw [tables]
      exact ids_put indexed.ids member rfl

/-- Checking and appending the hashes leaves the accounts alone. -/
theorem updateBlocks {height lastUpdate : BlockId} {chain : List Hash}
    {pow : List PowSync} (indexed : Indexed db)
    (success : updateBlocks env db height lastUpdate chain pow = .ok next) :
    Indexed next := by
  obtain ⟨_, _, rfl⟩ := updateBlocks_eq success
  exact indexed.of_tables rfl rfl rfl

theorem update {height : BlockId} {chain : List Hash}
    {users : List ScannedAccount} {pow : List PowSync} {out : Updated}
    (indexed : Indexed db)
    (success : update env db height chain users pow = .ok (next, out)) :
    Indexed next := by
  rcases update_ok success with
    ⟨-, rfl, -⟩ | ⟨-, lastUpdate, checked, final, -, blocks, folded, rfl, -⟩
  · exact indexed
  have checkedIndexed := indexed.updateBlocks blocks
  have initial : DuringUpdate lastUpdate ⟨checked, [], [], [], 0⟩ :=
    ⟨checkedIndexed.agreement, checkedIndexed.ids⟩
  have updating : DuringUpdate lastUpdate final :=
    Outcome.foldlM_preserves (DuringUpdate lastUpdate)
      (fun _ _ _ _ before stepped => before.room.step (updateUser_ok stepped))
      initial folded
  exact ⟨updating.agreement.flush, updating.ids⟩

theorem synced {stop : WalkEnd} {middle : Db} (indexed : Indexed db)
    (synced : Synced db stop middle next) : Indexed next := by
  obtain ⟨_, rfl⟩ := synced.next_eq
  rcases synced.rolledBack with ⟨-, rfl⟩ | ⟨row, -, rolled⟩
  · exact indexed.of_tables rfl rfl rfl
  · have kept := indexed.rolledBack (rollbackChain_ok indexed.agreement rolled)
    exact kept.of_tables rfl rfl rfl

end Indexed

/-! ## Runs -/

/-- The account is not asked to skip ahead. -/
def WithinScan (_db : Db) (user : Account) (height : BlockId) : Prop :=
  height ≤ user.scanHeight

/-- A call files every moved account under the height it stores, and hands out
no unusable id. -/
def KeepsIndexes (env : Env) (db : Db) : Operation → Prop
  | .addAccount _ _ _ _ => wrap32 (db.findLastId + 1) ≠ AccountId.invalid
  | operation => EveryMove env WithinScan db operation

theorem Indexed.step {env : Env} {db next : Db} {operation : Operation}
    (indexed : Indexed db) (keeps : KeepsIndexes env db operation)
    (success : Step env db operation next) : Indexed next := by
  cases operation with
  | addAccount clock address key flags =>
      exact indexed.addAccount keeps success
  | changeStatus status addresses =>
      obtain ⟨⟨final, found⟩, changed, rfl⟩ := Outcome.map_eq_ok.mp success
      exact indexed.changeStatus changed
  | creationRequest clock address key flags lookahead =>
      obtain ⟨⟨final, hooks⟩, requested, rfl⟩ := Outcome.map_eq_ok.mp success
      obtain ⟨requests, rfl⟩ := creationRequest_eq requested
      exact indexed.of_tables rfl rfl rfl
  | importRequest clock address height lookahead =>
      obtain ⟨requests, rfl⟩ := importRequest_eq success
      exact indexed.of_tables rfl rfl rfl
  | acceptRequests clock type addresses maxSubaddresses =>
      obtain ⟨⟨final, found⟩, accepted, rfl⟩ := Outcome.map_eq_ok.mp success
      unfold acceptRequests at accepted
      split at accepted
      · cases accepted
        exact indexed
      cases type with
      | create => exact indexed.createAccounts accepted
      | importScan =>
          have moves : EveryMove env WithinScan db (.acceptRequests clock
              .importScan addresses maxSubaddresses) := keeps
          refine importAccounts_preserves Indexed ?_ ?_ moves indexed accepted
          · intro _ _ _ _ _ _ _ kept within changed
            exact kept.heightChanged within changed
          · intro _ _ _ kept
            exact kept.of_tables rfl rfl rfl
  | rejectRequests type addresses =>
      obtain ⟨requests, equality⟩ := rejectRequests_eq db type addresses
      cases success
      rw [equality]
      exact indexed.of_tables rfl rfl rfl
  | rescan height addresses =>
      obtain ⟨⟨final, found⟩, rescanned, rfl⟩ := Outcome.map_eq_ok.mp success
      have moves : EveryMove env WithinScan db (.rescan height addresses) :=
        keeps
      refine rescan_preserves Indexed ?_ moves indexed rescanned
      intro _ _ _ _ _ _ kept within changed
      exact kept.heightChanged within changed
  | rollback height =>
      have rolled : db.rollback height = .ok next := success
      unfold rollback at rolled
      split at rolled
      · cases rolled
        exact indexed
      · exact indexed.rolledBack (rollbackChain_ok indexed.agreement rolled)
  | syncChain height hashes regtest =>
      obtain ⟨_, _, _, -, -, -, synced⟩ := syncChain_ok success
      exact indexed.synced synced
  | syncPow height hashes pow =>
      obtain ⟨_, _, _, _, -, -, -, -, synced⟩ := syncPow_ok success
      exact indexed.synced synced
  | update height chain users pow =>
      obtain ⟨⟨final, out⟩, updated, rfl⟩ := Outcome.map_eq_ok.mp success
      exact indexed.update updated
  | upsertSubaddresses id address viewKey subaddrs maxSubaddr =>
      obtain ⟨⟨final, out⟩, upserted, rfl⟩ := Outcome.map_eq_ok.mp success
      obtain ⟨ranges, indexes, rfl⟩ := upsertSubaddresses_eq upserted
      exact indexed.of_tables rfl rfl rfl
  | updateLookahead address height matched maxSubaddresses =>
      obtain ⟨⟨final, changed⟩, updated, rfl⟩ := Outcome.map_eq_ok.mp success
      rcases updateLookahead_eq updated with
        ⟨_, _, rfl⟩ | ⟨lookup, user, fail, located, _, _, rfl⟩
      · exact indexed.of_tables rfl rfl rfl
      · obtain ⟨member, -⟩ := Agreement.findAccount_iff.mp located
        refine indexed.touch member ?_ ?_ ?_ rfl rfl rfl <;> rfl
  | shrinkLookahead address lookahead =>
      obtain ⟨lookup, user, located, rfl⟩ := shrinkLookahead_eq success
      obtain ⟨member, -⟩ := Agreement.findAccount_iff.mp located
      refine indexed.touch member ?_ ?_ ?_ rfl rfl rfl <;> rfl
  | addWebhook type address event =>
      obtain ⟨rfl, -⟩ := addWebhook_eq success
      exact indexed.of_tables rfl rfl rfl
  | clearWebhooks addresses =>
      obtain ⟨_, _, rfl⟩ := clearWebhooks_eq success
      exact indexed.of_tables rfl rfl rfl
  | clearWebhookIds ids =>
      cases success
      exact indexed.of_tables rfl rfl rfl

/-- The three account tables agree, as their readers rely on. -/
structure IndexesAgree (db : Db) : Prop where
  distinctIds : ∀ left ∈ db.accounts, ∀ right ∈ db.accounts,
    left ≠ right → left.2.id ≠ right.2.id
  byAddress : ∀ row ∈ db.accounts,
    (∃! entry, entry ∈ db.accountsByAddress ∧
      entry.address = row.2.address) ∧
    (⟨row.2.address, ⟨row.2.id, row.1⟩⟩ : AccountByAddress) ∈
      db.accountsByAddress
  byHeight : ∀ row ∈ db.accounts,
    (∃! entry, entry ∈ db.accountsByHeight ∧ entry.2.id = row.2.id) ∧
    ((row.2.scanHeight, ⟨row.2.id, row.1⟩) : BlockId × AccountLookup) ∈
      db.accountsByHeight
  noOtherAddress : ∀ entry ∈ db.accountsByAddress, ∃ row ∈ db.accounts,
    entry.address = row.2.address
  noOtherHeight : ∀ entry ∈ db.accountsByHeight, ∃ row ∈ db.accounts,
    entry.2.id = row.2.id

theorem Agreement.indexesAgree {db : Db} (agree : Agreement [] db) :
    IndexesAgree db where
  distinctIds := fun left leftMember right rightMember different sameId =>
    different (agree.distinct left leftMember right rightMember sameId)
  byAddress := by
    intro row member
    have stored := (agree.addresses _).mpr ⟨row, member, rfl⟩
    refine ⟨⟨addressRow row, ⟨stored, rfl⟩, ?_⟩, stored⟩
    rintro entry ⟨entryMember, sameAddress⟩
    refine SortedRows.eq_of_key_eq entryMember stored ?_
    rw [accountsByAddressKey, sameAddress]
    rfl
  byHeight := by
    intro row member
    have stored : heightRow row ∈ db.accountsByHeight := by
      simpa using (agree.heights _).mpr ⟨row, member, rfl⟩
    refine ⟨⟨heightRow row, ⟨stored, rfl⟩, ?_⟩, stored⟩
    rintro entry ⟨entryMember, sameId⟩
    exact (agree.heights_ne member (.inl entryMember)).mp sameId
  noOtherAddress := by
    intro entry stored
    obtain ⟨row, member, rfl⟩ := (agree.addresses entry).mp stored
    exact ⟨row, member, rfl⟩
  noOtherHeight := by
    intro entry stored
    obtain ⟨row, member, rfl⟩ := (agree.heights entry).mp (.inl stored)
    exact ⟨row, member, rfl⟩

theorem IndexesAgree.agreement {db : Db} (agree : IndexesAgree db) :
    Agreement [] db where
  distinct := by
    intro left leftMember right rightMember sameId
    by_contra different
    exact agree.distinctIds left leftMember right rightMember different sameId
  addresses := by
    intro entry
    constructor
    · intro stored
      obtain ⟨row, member, sameAddress⟩ := agree.noOtherAddress entry stored
      obtain ⟨unique, own⟩ := agree.byAddress row member
      exact ⟨row, member, unique.unique ⟨own, rfl⟩ ⟨stored, sameAddress⟩⟩
    · rintro ⟨row, member, equality⟩
      exact equality ▸ (agree.byAddress row member).2
  heights := by
    intro entry
    simp only [List.not_mem_nil, or_false]
    constructor
    · intro stored
      obtain ⟨row, member, sameId⟩ := agree.noOtherHeight entry stored
      obtain ⟨unique, own⟩ := agree.byHeight row member
      exact ⟨row, member, unique.unique ⟨own, rfl⟩ ⟨stored, sameId⟩⟩
    · rintro ⟨row, member, equality⟩
      exact equality ▸ (agree.byHeight row member).2

theorem Indexed.of_empty {db : Db} (accounts : db.accounts = .empty)
    (addresses : db.accountsByAddress = .empty)
    (heights : db.accountsByHeight = .empty) : Indexed db := by
  refine ⟨⟨?_, ?_, ?_⟩, ?_⟩ <;> simp [accounts, addresses, heights]

theorem Indexed.run {env : Env} {start final : Db}
    {operations : List Operation} (initial : Indexed start)
    (run : Run (fun db operation next =>
      KeepsIndexes env db operation ∧ Step env db operation next)
      start operations final) : Indexed final :=
  run.preserves Indexed
    (fun _ _ _ kept stepped => kept.step stepped.1 stepped.2) initial

/-- Starting without accounts, the tables agree in every state that guarded
operations reach. -/
theorem indexes_agree {env : Env} {start final : Db}
    {operations : List Operation} (accounts : start.accounts = .empty)
    (addresses : start.accountsByAddress = .empty)
    (heights : start.accountsByHeight = .empty)
    (run : Run (fun db operation next =>
      KeepsIndexes env db operation ∧ Step env db operation next)
      start operations final) :
    IndexesAgree final :=
  ((Indexed.of_empty accounts addresses heights).run run).agreement.indexesAgree

/-! ## A concrete environment -/

/-- Hashes are heights plus ten, and a view key is its own public key. -/
def sampleEnv : Env where
  checkpoints := SortedRows.empty.add (0, 10)
  createQueueMax := 1
  secretKeyToPublicKey := some
  subaddressKey := fun base _ index => base.spendPublic + index.majI + index.minI
  parseUrl := fun _ => some "https"

def sampleAddress : AccountAddress := ⟨7, 8⟩

/-- A new database for `sampleEnv`. -/
def sampleDb : Db where
  blocks := SortedRows.empty.add ⟨0, 10⟩
  pows := SortedRows.empty.add ⟨0, 0, ⟨0, 1⟩⟩
  accounts := .empty
  accountsByAddress := .empty
  accountsByHeight := .empty
  outputs := .empty
  spends := .empty
  images := .empty
  requests := .empty
  webhooks := .empty
  events := .empty
  subaddressRanges := .empty
  subaddressIndexes := .empty

/-- One account, scanned to height two. -/
def sampleScanned : Db :=
  afterAll sampleEnv sampleDb [.addAccount 0 sampleAddress 7 0,
    .update 0 [10, 11, 12] [⟨1, sampleAddress, 0, [], []⟩] []]

private theorem sampleScanned_run :
    Run (fun db operation next =>
      KeepsIndexes sampleEnv db operation ∧ Step sampleEnv db operation next)
      sampleDb [.addAccount 0 sampleAddress 7 0,
        .update 0 [10, 11, 12] [⟨1, sampleAddress, 0, [], []⟩] []]
      sampleScanned := by
  refine .cons ⟨?_, step_after (by decide)⟩
    (.cons ⟨trivial, step_after (by decide)⟩ (.nil _))
  show wrap32 (sampleDb.findLastId + 1) ≠ AccountId.invalid
  decide

theorem sampleScanned_indexed : Indexed sampleScanned :=
  Indexed.run (.of_empty rfl rfl rfl) sampleScanned_run

/-- The account is rescanned from height one. -/
theorem indexes_agree_after_rescan :
    ∃ final, Step sampleEnv sampleScanned (.rescan 1 [sampleAddress]) final ∧
      IndexesAgree final := by
  refine ⟨_, step_after (by decide), ?_⟩
  refine indexes_agree rfl rfl rfl
    (sampleScanned_run.append (.cons ⟨?_, step_after (by decide)⟩ (.nil _)))
  refine ⟨?_, fun _ _ => trivial⟩
  show ∀ user ∈ accountAt _ sampleAddress, 1 ≤ user.scanHeight
  decide

/-- A rescan to height two of an account scanned to height zero files the
index row under two. -/
theorem rescan_ahead_breaks_indexes :
    ¬ ∀ (env : Env) (start final : Db) (operations : List Operation),
      start.accounts = .empty → start.accountsByAddress = .empty →
      start.accountsByHeight = .empty →
      Run (Step env) start operations final → IndexesAgree final := by
  intro always
  have agree := always sampleEnv sampleDb _
    [.addAccount 0 sampleAddress 7 0, .syncChain 0 [10, 11, 12] false,
      .rescan 2 [sampleAddress]] rfl rfl rfl (run_afterAll (by decide))
  have misfiled : ∃ row ∈ (afterAll sampleEnv sampleDb
      [.addAccount 0 sampleAddress 7 0, .syncChain 0 [10, 11, 12] false,
        .rescan 2 [sampleAddress]]).accounts.rows,
      ((row.2.scanHeight, ⟨row.2.id, row.1⟩) : BlockId × AccountLookup) ∉
        (afterAll sampleEnv sampleDb
          [.addAccount 0 sampleAddress 7 0, .syncChain 0 [10, 11, 12] false,
            .rescan 2 [sampleAddress]]).accountsByHeight := by
    decide
  obtain ⟨row, member, absent⟩ := misfiled
  exact absent (agree.byHeight row member).2

end XfoLws.Db
