import XfoLws.Db.AccountIndexes
import XfoLws.Db.SubaddressViews

/-!
# Calls on an exact address

Accounts are found by their view key and requests by their spend key, and the
calls that change either do not compare the other key.  A call on an address
stays with its own rows as long as the rows that it finds are those of the
whole address.
-/

namespace XfoLws.Db

/-! ## Rows of another account -/

/-- Both databases hold the same rows under an account id. -/
structure SameRows (id : AccountId) (left right : Db) : Prop where
  accounts : SortedRows.AgreeOn (fun key => (ofLex key).2 = id)
    left.accounts right.accounts
  heights : SortedRows.AgreeOn (fun key => (ofLex key).2 = id)
    left.accountsByHeight right.accountsByHeight
  outputs : SortedRows.AgreeOn (fun key => (ofLex key).1 = id)
    left.outputs right.outputs
  spends : SortedRows.AgreeOn (fun key => (ofLex key).1 = id)
    left.spends right.spends
  ranges : SortedRows.AgreeOn (fun key => (ofLex key).1 = id)
    left.subaddressRanges right.subaddressRanges
  indexes : SortedRows.AgreeOn (fun key => (ofLex key).1 = id)
    left.subaddressIndexes right.subaddressIndexes

namespace SameRows

variable {env : Env} {id : AccountId} {left right db next : Db}

theorem refl (id : AccountId) (db : Db) : SameRows id db db :=
  ⟨.refl _, .refl _, .refl _, .refl _, .refl _, .refl _⟩

theorem trans {middle : Db} (first : SameRows id left middle)
    (second : SameRows id middle right) : SameRows id left right :=
  ⟨first.accounts.trans second.accounts, first.heights.trans second.heights,
    first.outputs.trans second.outputs, first.spends.trans second.spends,
    first.ranges.trans second.ranges, first.indexes.trans second.indexes⟩

theorem provision {user final : Account} {lookahead : AddressIndex}
    {maxSubaddresses : ℕ} (other : user.id ≠ id)
    (success : Db.provision env user lookahead maxSubaddresses db =
      .ok (final, next)) : SameRows id db next := by
  have ofView : ∀ middle ranges indexes,
      SubaddressView id user.address db middle →
      middle = { db with
        subaddressRanges := ranges
        subaddressIndexes := indexes } → SameRows id db middle := by
    rintro middle ranges indexes view rfl
    exact ⟨.refl _, .refl _, .refl _, .refl _, view.ranges, view.indexes⟩
  have looked : SubaddressView id user.address db (doLookahead env
      ⟨user.id, user.address, user.key, maxSubaddresses⟩ lookahead db).2 := by
    unfold doLookahead
    split
    · exact .refl _ _ _
    split
    · exact .refl _ _ _
    split
    · exact .refl _ _ _
    split
    · exact .refl _ _ _
    rename_i initial _
    have view := SubaddressView.doUpsert_other env user.address db
      ⟨user.id, user.address, user.key, maxSubaddresses⟩ other initial
    split <;>
    · rename_i upserted
      rw [upserted] at view
      exact view
  obtain ⟨ranges, indexes, frame⟩ := doLookahead_eq env
    ⟨user.id, user.address, user.key, maxSubaddresses⟩ lookahead db
  have reached := ofView _ ranges indexes looked frame
  unfold Db.provision at success
  split at success
  · cases success
    exact .refl id _
  unfold lookaheadAccount at success
  split at success
  · rename_i provisioned
    cases success
    rw [provisioned] at reached
    exact reached
  · rename_i provisioned
    split at success
    · cases success
      rw [provisioned] at reached
      exact reached
    · cases success

theorem rolledBack {user : AccountId} {height : BlockId} {images : _}
    (other : user ≠ id) :
    SameRows id db { db.rollbackOutputs user height with
      images := images
      spends := db.spendsBelow user height } := by
  refine ⟨.refl _, .refl _, ?_, ?_, .refl _, .refl _⟩
  · intro row inside
    rw [mem_rollbackOutputs]
    exact ⟨fun member => ⟨member, fun dropped =>
      other (dropped.1.symm.trans inside)⟩, And.left⟩
  · intro row inside
    rw [mem_spendsBelow]
    exact ⟨fun member => ⟨member, fun dropped =>
      other (dropped.1.symm.trans inside)⟩, And.left⟩

theorem changeHeight {height : BlockId} {address : AccountAddress}
    {lookahead : AddressIndex} {maxSubaddresses : ℕ}
    (other : ∀ user, db.accountAt address = some user → user.id ≠ id)
    (success : Db.changeHeight env height address lookahead maxSubaddresses
      db = .ok next) : SameRows id db next := by
  unfold Db.changeHeight at success
  split at success
  · cases success
  rename_i entry entryFound
  split at success
  · cases success
  rename_i user userFound
  have apart : user.id ≠ id := by
    refine other user ?_
    rw [accountAt, entryFound]
    exact userFound
  have filed := (Agreement.findAccount_iff.mp userFound).2
  obtain ⟨cut, dropped, rest⟩ := Outcome.bind_eq_ok.mp success
  obtain ⟨images, rfl⟩ := rollbackSpends_eq dropped
  obtain ⟨⟨moved, provisioned⟩, lookedAhead, stored⟩ :=
    Outcome.bind_eq_ok.mp rest
  obtain ⟨⟨_, _, rfl⟩, -⟩ := provision_eq lookedAhead
  obtain ⟨-, rfl⟩ := storeMoved_eq stored
  have cut : SameRows id db _ := @rolledBack _ _ _ height
    images apart
  have widened : SameRows id _ provisioned :=
    @SameRows.provision _ _ _ _ (user.movedBack height) _ _ _ apart lookedAhead
  have erased : SortedRows.AgreeOn (fun key => (ofLex key).2 = id)
      provisioned.accountsByHeight
      (provisioned.accountsByHeight.erase (toLex (user.scanHeight, user.id))) :=
    .erase_outside _ apart
  exact (cut.trans widened).trans ⟨.put_outside _ apart,
    erased.trans (.put_outside _ fun same => apart (filed.trans same)),
    .refl _, .refl _, .refl _, .refl _⟩

theorem added {user : Account} (other : user.id ≠ id)
    (added : Added env user db next) : SameRows id db next := by
  obtain rfl := added.next_eq
  exact ⟨.put_outside _ other, .put_outside _ other, .refl _, .refl _,
    .refl _, .refl _⟩

theorem statusChanged {status : AccountStatus} {entry : AccountByAddress}
    {user : Account} (other : user.id ≠ id)
    (changed : StatusChanged status db entry user next) :
    SameRows id db next := by
  have filed := (Agreement.findAccount_iff.mp changed.account_eq).2
  have apart : entry.lookup.id ≠ id := filed ▸ other
  obtain rfl := changed.next_eq
  have erased : SortedRows.AgreeOn (fun key => (ofLex key).2 = id) db.accounts
      (db.accounts.erase
        (toLex (entry.lookup.status.toNat, entry.lookup.id))) :=
    .erase_outside _ apart
  exact ⟨erased.trans (.put_outside _ other), .put_outside _ apart, .refl _,
    .refl _, .refl _, .refl _⟩

end SameRows

/-! ## Calls -/

/-- A call on one address, with its other arguments. -/
inductive Call where
  | acceptRequests (clock : ℤ) (type : Request) (maxSubaddresses : ℕ)
  | rejectRequests (type : Request)
  | creationRequest (clock : ℤ) (key : SecretKey) (flags : AccountFlags)
      (lookahead : AddressIndex)
  | importRequest (clock : ℤ) (height : BlockId) (lookahead : AddressIndex)
  | changeStatus (status : AccountStatus)
  | rescan (height : BlockId)
  | shrinkLookahead (lookahead : AddressIndex)

/-- The database after a call, and the addresses it reports as found; a call
that returns nothing and needs the account reports it by succeeding. -/
def Call.perform (env : Env) (db : Db) (address : AccountAddress) :
    Call → Except Error (Db × List AccountAddress)
  | .acceptRequests clock type maxSubaddresses =>
      Db.acceptRequests env clock db type [address] maxSubaddresses
  | .rejectRequests type => .ok (db.rejectRequests type [address])
  | .creationRequest clock key flags lookahead =>
      (fun result => (result.1, [])) <$>
        Db.creationRequest env clock db address key flags lookahead
  | .importRequest clock height lookahead =>
      (fun next => (next, [address])) <$>
        Db.importRequest clock db address height lookahead
  | .changeStatus status => db.changeStatus status [address]
  | .rescan height => Db.rescan env db height [address]
  | .shrinkLookahead lookahead =>
      (fun next => (next, [address])) <$> db.shrinkLookahead address lookahead

/-- An account stored under exactly `address`. -/
def HasEntry (db : Db) (address : AccountAddress) : Prop :=
  ∃ entry ∈ db.accountsByAddress, entry.address = address

/-- A request stored under exactly `address`. -/
def HasRequest (db : Db) (type : Request) (address : AccountAddress) : Prop :=
  ∃ row ∈ db.requests, row.1 = type ∧ row.2.address = address

/-- The rows of every other address are the same before and after: its request,
its entry in the index, and the rows under the id of its account.  The id that
the next account gets is nobody's. -/
structure OthersKept (address : AccountAddress) (db next : Db) : Prop where
  requests : ∀ row, row.2.address ≠ address →
    (row ∈ db.requests ↔ row ∈ next.requests)
  entries : ∀ entry, entry.address ≠ address →
    (entry ∈ db.accountsByAddress ↔ entry ∈ next.accountsByAddress)
  rows : ∀ id, (∀ row ∈ db.accounts, row.2.id = id →
      row.2.address ≠ address) →
    id ≠ wrap32 (db.findLastId + 1) → SameRows id db next

/-- The rows that a report of `address` speaks of are its own. -/
def Call.Reports (db : Db) (address : AccountAddress) : Call → Prop
  | .acceptRequests _ .create _ => HasRequest db .create address
  | .acceptRequests _ .importScan _ =>
      HasRequest db .importScan address ∧ HasEntry db address
  | .rejectRequests type => HasRequest db type address
  | .creationRequest .. => True
  | _ => HasEntry db address

/-- A request is refused for a row that is there. -/
def Call.Refuses : Call → Error → Prop
  | .creationRequest .., failure =>
      failure = .duplicateRequest ∨ failure = .accountExists
  | .importRequest .., failure => failure = .duplicateRequest
  | _, _ => False

/-- The row that a refusal speaks of is the address's own. -/
def Call.Refused (db : Db) (address : AccountAddress) : Call → Error → Prop
  | .creationRequest .., .duplicateRequest => HasRequest db .create address
  | .importRequest .., .duplicateRequest =>
      HasEntry db address ∧ HasRequest db .importScan address
  | _, _ => HasEntry db address

/-- A call stays with the rows of its address. -/
def Call.ActsOn (env : Env) (db : Db) (address : AccountAddress)
    (call : Call) : Prop :=
  match call.perform env db address with
  | .ok (next, reported) => OthersKept address db next ∧
      (address ∈ reported → call.Reports db address)
  | .error failure => call.Refuses failure →
      call.Refused db address failure

/-- A call that fails for any other reason changes and tells nothing. -/
def Call.Answered (env : Env) (db : Db) (address : AccountAddress)
    (call : Call) : Prop :=
  ∀ failure, call.perform env db address = .error failure →
    call.Refuses failure

/-! ## What a call finds -/

/-- Whatever is found under the view key is stored under the address. -/
def EntryExact (db : Db) (address : AccountAddress) : Prop :=
  ∀ entry, db.findByAddress? address = some entry → entry.address = address

/-- Whatever is found under the spend key is stored under the address. -/
def RequestExact (db : Db) (type : Request) (address : AccountAddress) :
    Prop :=
  ∀ info, db.findRequest? type address = some info → info.address = address

def Call.Exact (db : Db) (address : AccountAddress) : Call → Prop
  | .acceptRequests _ .create _ => RequestExact db .create address
  | .acceptRequests _ .importScan _ =>
      RequestExact db .importScan address ∧
        ((db.findRequest? .importScan address).isSome →
          EntryExact db address)
  | .rejectRequests type => RequestExact db type address
  | .creationRequest .. =>
      EntryExact db address ∧
        (db.findByAddress? address = none → RequestExact db .create address)
  | .importRequest .. =>
      EntryExact db address ∧ RequestExact db .importScan address
  | _ => EntryExact db address

section Found

variable {env : Env} {db next : Db} {address : AccountAddress}
  {type : Request}

theorem findRequest_iff {info : RequestInfo} :
    db.findRequest? type address = some info ↔
      (type, info) ∈ db.requests ∧
        info.address.spendPublic = address.spendPublic := by
  unfold findRequest?
  rw [Option.map_eq_some_iff]
  constructor
  · rintro ⟨⟨stored, info⟩, found, rfl⟩
    obtain ⟨member, keyed⟩ := SortedRows.find?_eq_some.mp found
    obtain ⟨types, keys⟩ := Prod.mk.inj (toLex.injective keyed)
    obtain rfl : stored = type := by
      cases stored <;> cases type <;> first | rfl | cases types
    exact ⟨member, keys⟩
  · rintro ⟨member, keyed⟩
    exact ⟨(type, info), SortedRows.find?_eq_some.mpr
      ⟨member, by rw [requestsKey, keyed]⟩, rfl⟩

/-- A found entry is exact when the address has one. -/
theorem entryExact_of_hasEntry (has : HasEntry db address) :
    EntryExact db address := by
  obtain ⟨entry, member, rfl⟩ := has
  intro other found
  obtain ⟨otherMember, keyed⟩ := SortedRows.find?_eq_some.mp found
  rw [SortedRows.eq_of_key_eq otherMember member keyed]

theorem requestExact_of_hasRequest (has : HasRequest db type address) :
    RequestExact db type address := by
  obtain ⟨⟨stored, info⟩, member, rfl, rfl⟩ := has
  intro other found
  obtain ⟨otherMember, keyed⟩ := findRequest_iff.mp found
  have same : ((stored, other) : Request × RequestInfo) = (stored, info) :=
    SortedRows.eq_of_key_eq otherMember member (by
      rw [requestsKey, requestsKey, keyed])
  exact congrArg (·.2.address) same

theorem EntryExact.hasEntry (exact_ : EntryExact db address)
    {entry : AccountByAddress}
    (found : db.findByAddress? address = some entry) : HasEntry db address :=
  ⟨entry, (SortedRows.find?_eq_some.mp found).1, exact_ entry found⟩

theorem RequestExact.hasRequest (exact_ : RequestExact db type address)
    {info : RequestInfo} (found : db.findRequest? type address = some info) :
    HasRequest db type address :=
  ⟨(type, info), (findRequest_iff.mp found).1, rfl, exact_ info found⟩

/-- Every entry leads to an account with its address. -/
def Addressed (db : Db) : Prop :=
  ∀ entry ∈ db.accountsByAddress, ∃ user,
    db.findAccount? entry.lookup = some user ∧ user.address = entry.address

/-- The account found under an exact entry is the address's own. -/
theorem Addressed.accountAt (addressed : Addressed db)
    (exact_ : EntryExact db address) {user : Account}
    (found : db.accountAt address = some user) : user.address = address := by
  obtain ⟨entry, entryFound, located⟩ := Option.bind_eq_some_iff.mp found
  obtain ⟨other, otherFound, same⟩ :=
    addressed entry (SortedRows.find?_eq_some.mp entryFound).1
  obtain rfl := Option.some.inj (located.symm.trans otherFound)
  exact same.trans (exact_ entry entryFound)

/-! ## Every entry leads to its account -/

theorem Addressed.of_tables (addressed : Addressed db)
    (accounts : next.accounts = db.accounts)
    (entries : next.accountsByAddress = db.accountsByAddress) :
    Addressed next := by
  unfold Addressed findAccount?
  rw [accounts, entries]
  exact addressed

theorem Addressed.added {user : Account} (addressed : Addressed db)
    (added : Added env user db next) : Addressed next := by
  obtain rfl := added.next_eq
  intro entry member
  rcases SortedRows.mem_put.mp member with rfl | ⟨old, -⟩
  · refine ⟨user, Agreement.findAccount_iff.mpr ⟨?_, rfl⟩, rfl⟩
    exact SortedRows.mem_put.mpr (.inl rfl)
  · obtain ⟨other, found, same⟩ := addressed entry old
    obtain ⟨stored, filed⟩ := Agreement.findAccount_iff.mp found
    refine ⟨other, Agreement.findAccount_iff.mpr ⟨?_, filed⟩, same⟩
    exact SortedRows.mem_put.mpr (.inr ⟨stored, added.newAccount _ stored⟩)

/-- One pass of `change_status` finds nothing, has nothing to change, or moves
the account to a place that is free. -/
theorem changeStatusOf_cases {status : AccountStatus} {found : Bool}
    (success : changeStatusOf status db address = .ok (next, found)) :
    (db.findByAddress? address = none ∧ next = db ∧ found = false) ∨
      ∃ entry, db.findByAddress? address = some entry ∧ found = true ∧
        (next = db ∨ ∃ user, StatusChanged status db entry user next ∧
          ∀ row ∈ db.accounts.erase
              (toLex (entry.lookup.status.toNat, entry.lookup.id)),
            accountsKey row ≠ accountsKey (status, user)) := by
  unfold changeStatusOf at success
  split at success
  · cases success
    exact .inl ⟨‹_›, rfl, rfl⟩
  rename_i entry addressed
  refine .inr ⟨entry, addressed, ?_⟩
  dsimp only at success
  split at success
  · cases success
    exact ⟨rfl, .inl rfl⟩
  split at success
  · cases success
  rename_i user located
  split at success
  · cases success
  rename_i stored
  obtain ⟨fresh, rfl⟩ := SortedRows.putNew_eq_some.mp stored
  split at success
  · cases success
  cases success
  exact ⟨rfl, .inr ⟨user,
    ⟨(SortedRows.find?_eq_some.mp addressed).1, located, rfl⟩, fresh⟩⟩

theorem Addressed.statusChanged {status : AccountStatus}
    {entry : AccountByAddress} {user : Account} (addressed : Addressed db)
    (changed : StatusChanged status db entry user next)
    (fresh : ∀ row ∈ db.accounts.erase
        (toLex (entry.lookup.status.toNat, entry.lookup.id)),
      accountsKey row ≠ accountsKey (status, user)) : Addressed next := by
  obtain ⟨stored, filed⟩ := Agreement.findAccount_iff.mp changed.account_eq
  obtain ⟨_, found, owned⟩ := addressed entry changed.entry_mem
  obtain rfl := Option.some.inj (changed.account_eq.symm.trans found)
  obtain rfl := changed.next_eq
  intro other otherMember
  rcases SortedRows.mem_put.mp otherMember with rfl | ⟨old, apart⟩
  · refine ⟨user, Agreement.findAccount_iff.mpr ⟨?_, filed⟩, owned⟩
    exact SortedRows.mem_put.mpr (.inl rfl)
  · obtain ⟨account, located, same⟩ := addressed other old
    obtain ⟨accountStored, accountFiled⟩ :=
      Agreement.findAccount_iff.mp located
    have kept : (other.lookup.status, account) ∈ db.accounts.erase
        (toLex (entry.lookup.status.toNat, entry.lookup.id)) := by
      refine SortedRows.mem_erase.mpr ⟨accountStored, fun keyed => apart ?_⟩
      -- one account under two entries would have both addresses
      have one : (other.lookup.status, account) =
          (entry.lookup.status, user) :=
        SortedRows.eq_of_key_eq accountStored stored (keyed.trans (by
          rw [accountsKey, filed]))
      have addresses : other.address = entry.address := by
        rw [← same, ← owned]
        exact congrArg (·.2.address) one
      rw [accountsByAddressKey, accountsByAddressKey, addresses]
    refine ⟨account, Agreement.findAccount_iff.mpr ⟨?_, accountFiled⟩, same⟩
    exact SortedRows.mem_put.mpr (.inr ⟨kept, fresh _ kept⟩)

theorem Addressed.heightChanged {height : BlockId} {lookup : AccountLookup}
    {user moved : Account} (addressed : Addressed db)
    (changed : HeightChanged height address db lookup user moved next) :
    Addressed next := by
  obtain ⟨stored, filed⟩ := Agreement.findAccount_iff.mp changed.account_eq
  obtain ⟨lookahead, fail, rfl⟩ := changed.moved_eq
  obtain ⟨_, _, _, rfl⟩ := changed.next_eq
  intro other member
  obtain ⟨account, located, same⟩ := addressed other member
  obtain ⟨accountStored, accountFiled⟩ := Agreement.findAccount_iff.mp located
  by_cases keyed : accountsKey (other.lookup.status, account) =
      accountsKey (lookup.status, user)
  · have one : (other.lookup.status, account) = (lookup.status, user) :=
      SortedRows.eq_of_key_eq accountStored stored keyed
    obtain ⟨statuses, rfl⟩ := Prod.mk.inj one
    refine ⟨{ account.movedBack height with
        lookahead := lookahead
        lookaheadFail := fail },
      Agreement.findAccount_iff.mpr ⟨?_, accountFiled⟩, same⟩
    rw [statuses]
    exact SortedRows.mem_put.mpr (.inl rfl)
  · refine ⟨account, Agreement.findAccount_iff.mpr ⟨?_, accountFiled⟩, same⟩
    exact SortedRows.mem_put.mpr (.inr ⟨accountStored, keyed⟩)

theorem Addressed.created {time : AccountTime} {maxSubaddresses : ℕ}
    {state after : Creation} (addressed : Addressed state.db)
    (created : AccountCreated env time maxSubaddresses state address after) :
    Addressed after.db := by
  cases created with
  | missing absent => exact addressed
  | skipped requested provisioned failed reason =>
      obtain ⟨-, ranges, indexes, rfl⟩ := provision_eq provisioned
      exact addressed.of_tables rfl rfl
  | added requested valid provisioned effect =>
      obtain ⟨-, ranges, indexes, rfl⟩ := provision_eq provisioned
      have erased : Addressed { state.db.eraseRequest .create address with
          subaddressRanges := ranges
          subaddressIndexes := indexes } := addressed.of_tables rfl rfl
      exact erased.added effect

theorem Addressed.imported {maxSubaddresses : ℕ}
    {state after : Db × List AccountAddress} (addressed : Addressed state.1)
    (success : importAccount env maxSubaddresses state address = .ok after) :
    Addressed after.1 := by
  have erased : Addressed (state.1.eraseRequest .importScan address) :=
    addressed.of_tables rfl rfl
  unfold importAccount at success
  split at success
  · cases success
    exact addressed
  dsimp only at success
  split at success
  · rename_i changed
    cases success
    obtain ⟨lookup, user, moved, effect⟩ := changeHeight_ok changed
    exact erased.heightChanged effect
  · cases success
    exact erased
  · cases success

/-- The calls that a state is reached by. -/
def Administrates : Operation → Prop
  | .creationRequest .. | .importRequest .. | .acceptRequests ..
  | .rejectRequests .. | .addAccount .. | .changeStatus .. => True
  | _ => False

theorem Addressed.step {operation : Operation} (addressed : Addressed db)
    (administrates : Administrates operation)
    (success : Step env db operation next) : Addressed next := by
  cases operation with
  | addAccount clock address key flags =>
      obtain ⟨time, -, rest⟩ := Outcome.bind_eq_ok.mp success
      obtain ⟨height, -, stored⟩ := Outcome.bind_eq_ok.mp rest
      exact addressed.added (doAddAccount_ok stored)
  | changeStatus status addresses =>
      obtain ⟨⟨final, found⟩, changed, rfl⟩ := Outcome.map_eq_ok.mp success
      refine Outcome.foldlM_preserves
        (fun state : Db × List AccountAddress => Addressed state.1)
        ?_ addressed changed
      intro state address final _ kept stepped
      obtain ⟨⟨middle, changed⟩, once, stored⟩ :=
        Outcome.bind_eq_ok.mp stepped
      cases stored
      rcases changeStatusOf_cases once with
        ⟨-, rfl, -⟩ | ⟨entry, -, -, rfl | ⟨user, effect, fresh⟩⟩
      · exact kept
      · exact kept
      · exact kept.statusChanged effect fresh
  | creationRequest clock address key flags lookahead =>
      obtain ⟨⟨final, hooks⟩, requested, rfl⟩ := Outcome.map_eq_ok.mp success
      obtain ⟨requests, rfl⟩ := creationRequest_eq requested
      exact addressed.of_tables rfl rfl
  | importRequest clock address height lookahead =>
      obtain ⟨requests, rfl⟩ := importRequest_eq success
      exact addressed.of_tables rfl rfl
  | acceptRequests clock type addresses maxSubaddresses =>
      obtain ⟨⟨final, found⟩, accepted, rfl⟩ := Outcome.map_eq_ok.mp success
      unfold acceptRequests at accepted
      split at accepted
      · cases accepted
        exact addressed
      cases type with
      | create =>
          obtain ⟨time, -, rest⟩ := Outcome.bind_eq_ok.mp accepted
          obtain ⟨created, folded, stored⟩ := Outcome.bind_eq_ok.mp rest
          cases stored
          refine Outcome.foldlM_preserves
            (fun state : Creation => Addressed state.db) ?_ addressed folded
          intro state address next _ kept stepped
          exact kept.created (createAccount_ok stepped)
      | importScan =>
          refine Outcome.foldlM_preserves
            (fun state : Db × List AccountAddress => Addressed state.1)
            ?_ addressed accepted
          intro state address final _ kept stepped
          exact kept.imported stepped
  | rejectRequests type addresses =>
      obtain ⟨requests, equality⟩ := rejectRequests_eq db type addresses
      cases success
      rw [equality]
      exact addressed.of_tables rfl rfl
  | _ => exact administrates.elim

/-! ## Each call -/

theorem OthersKept.refl (address : AccountAddress) (db : Db) :
    OthersKept address db db :=
  ⟨fun _ _ => Iff.rfl, fun _ _ => Iff.rfl, fun id _ _ => .refl id db⟩

/-- Consuming an exact request leaves those of others. -/
theorem RequestExact.erase (exact_ : RequestExact db type address)
    {row : Request × RequestInfo} (other : row.2.address ≠ address) :
    row ∈ db.requests ↔
      row ∈ (db.eraseRequest type address).requests := by
  unfold eraseRequest
  rw [SortedRows.mem_erase]
  refine ⟨fun member => ⟨member, fun keyed => other ?_⟩, And.left⟩
  obtain ⟨types, keys⟩ := Prod.mk.inj (toLex.injective keyed)
  refine exact_ row.2 (findRequest_iff.mpr ⟨?_, keys⟩)
  have same : row.1 = type := by
    cases first : row.1 <;> cases type <;> rw [first] at types <;>
      first | rfl | cases types
  rw [← same]
  exact member

/-- A consumed request was the address's own. -/
theorem requestExact_of_kept (kept : ∀ row : Request × RequestInfo,
      row.2.address ≠ address → (row ∈ db.requests ↔ row ∈ next.requests))
    (erased : next.requests = (db.eraseRequest type address).requests) :
    RequestExact db type address := by
  intro info found
  by_contra other
  obtain ⟨member, keyed⟩ := findRequest_iff.mp found
  have left := (kept (type, info) other).mp member
  rw [erased] at left
  exact (SortedRows.mem_erase.mp left).2 (by rw [requestsKey, keyed])

theorem mem_put_request {info : RequestInfo}
    (own : info.address = address)
    (fresh : ∀ row ∈ db.requests,
      requestsKey row ≠ requestsKey (type, info))
    {row : Request × RequestInfo} (other : row.2.address ≠ address) :
    row ∈ db.requests ↔ row ∈ db.requests.put (type, info) := by
  rw [SortedRows.mem_put]
  constructor
  · intro member
    exact .inr ⟨member, fresh row member⟩
  · rintro (rfl | ⟨member, -⟩)
    · exact absurd own other
    · exact member

theorem EntryExact.mem_put {entry : AccountByAddress}
    (member : entry ∈ db.accountsByAddress) (own : entry.address = address)
    (lookup : AccountLookup) {row : AccountByAddress}
    (other : row.address ≠ address) :
    row ∈ db.accountsByAddress ↔
      row ∈ db.accountsByAddress.put { entry with lookup := lookup } := by
  rw [SortedRows.mem_put]
  constructor
  · intro stored
    refine .inr ⟨stored, fun keyed => other ?_⟩
    rw [SortedRows.eq_of_key_eq stored member keyed]
    exact own
  · rintro (rfl | ⟨stored, -⟩)
    · exact absurd own other
    · exact stored

/-- An id that no account of the address has is not that of its account. -/
private theorem apart_of_foreign {id : AccountId} {lookup : AccountLookup}
    {user : Account}
    (foreign : ∀ row ∈ db.accounts, row.2.id = id →
      row.2.address ≠ address)
    (found : db.findAccount? lookup = some user)
    (own : user.address = address) : user.id ≠ id :=
  fun same => foreign _ (Agreement.findAccount_iff.mp found).1 same own

theorem acts_reject_iff (type : Request) :
    Call.ActsOn env db address (.rejectRequests type) ↔
      RequestExact db type address := by
  have performed : Call.perform env db address (.rejectRequests type) =
      .ok (rejectRequest type (db, []) address) := rfl
  unfold Call.ActsOn
  rw [performed]
  unfold rejectRequest
  cases found : db.findRequest? type address with
  | none =>
      refine iff_of_true ⟨.refl _ _, fun member => by cases member⟩ ?_
      intro info other
      rw [found] at other
      cases other
  | some info =>
      rw [Option.isSome_some, if_pos rfl]
      refine ⟨fun acts => ?_, fun exact_ => ⟨⟨fun row => exact_.erase,
        fun _ _ => Iff.rfl, fun id _ _ => ?_⟩, fun _ => ?_⟩⟩
      · exact requestExact_of_hasRequest (acts.2 (by simp))
      · exact ⟨.refl _, .refl _, .refl _, .refl _, .refl _, .refl _⟩
      · exact exact_.hasRequest found

theorem acts_shrink_iff (addressed : Addressed db) {lookahead : AddressIndex}
    (answered : Call.Answered env db address (.shrinkLookahead lookahead)) :
    Call.ActsOn env db address (.shrinkLookahead lookahead) ↔
      EntryExact db address := by
  have performed : Call.perform env db address (.shrinkLookahead lookahead) =
      (fun next => (next, [address])) <$>
        db.shrinkLookahead address lookahead := rfl
  unfold Call.Answered at answered
  unfold Call.ActsOn
  rw [performed] at answered ⊢
  cases result : db.shrinkLookahead address lookahead with
  | error failure =>
      rw [result] at answered
      exact (answered failure rfl).elim
  | ok next =>
      unfold shrinkLookahead at result
      split at result
      · cases result
      rename_i entry found
      split at result
      · cases result
      rename_i user located
      split at result
      · cases result
      cases result
      refine ⟨fun acts => ?_, fun exact_ => ⟨⟨fun _ _ => Iff.rfl,
        fun _ _ => Iff.rfl, fun id foreign _ => ?_⟩, fun _ => ?_⟩⟩
      · exact entryExact_of_hasEntry (acts.2 (by simp))
      · have own := addressed.accountAt exact_ (show _ = some user by
          rw [accountAt, found]
          exact located)
        exact ⟨.put_outside _ (apart_of_foreign foreign located own),
          .refl _, .refl _, .refl _, .refl _, .refl _⟩
      · exact exact_.hasEntry found

private theorem requestExact_of_fresh {info : RequestInfo}
    (own : info.address = address)
    (fresh : ∀ row ∈ db.requests,
      requestsKey row ≠ requestsKey (type, info)) :
    RequestExact db type address := by
  intro other found
  obtain ⟨member, keyed⟩ := findRequest_iff.mp found
  refine absurd ?_ (fresh _ member)
  rw [requestsKey, requestsKey, own, keyed]

private theorem findRequest_of_taken {info : RequestInfo}
    (own : info.address = address)
    (taken : db.requests.putNew (type, info) = none) :
    ∃ other, db.findRequest? type address = some other := by
  cases found : db.findRequest? type address with
  | some other => exact ⟨other, rfl⟩
  | none =>
      refine absurd (SortedRows.putNew_eq_some.mpr ⟨?_, rfl⟩)
        (by rw [taken]; exact nofun)
      rintro ⟨stored, other⟩ member keyed
      obtain ⟨types, keys⟩ := Prod.mk.inj (toLex.injective keyed)
      obtain rfl : stored = type := by
        cases stored <;> cases type <;> first | rfl | cases types
      rw [findRequest_iff.mpr ⟨member, own ▸ keys⟩] at found
      cases found

/-- The answers to a creation request. -/
inductive CreationAnswer (db : Db) (address : AccountAddress) :
    Except Error (Db × List WebhookNewAccount) → Prop where
  | stored {info : RequestInfo} {hooks : List WebhookNewAccount} :
      db.findByAddress? address = none → info.address = address →
      (∀ row ∈ db.requests, requestsKey row ≠ requestsKey (.create, info)) →
      CreationAnswer db address
        (.ok ({ db with requests := db.requests.put (.create, info) }, hooks))
  | exists_already {entry : AccountByAddress} :
      db.findByAddress? address = some entry →
      CreationAnswer db address (.error .accountExists)
  | duplicate {info : RequestInfo} :
      db.findByAddress? address = none →
      db.findRequest? .create address = some info →
      CreationAnswer db address (.error .duplicateRequest)
  | failed {failure : Error} :
      failure ≠ .duplicateRequest → failure ≠ .accountExists →
      CreationAnswer db address (.error failure)

theorem creationRequest_answer (env : Env) (clock : ℤ) (db : Db)
    (address : AccountAddress) (key : SecretKey) (flags : AccountFlags)
    (lookahead : AddressIndex) :
    CreationAnswer db address
      (creationRequest env clock db address key flags lookahead) := by
  unfold creationRequest
  split
  · exact .failed nofun nofun
  unfold getAccountTime
  split
  · exact .failed nofun nofun
  simp only [bind, Except.bind]
  cases found : db.findByAddress? address with
  | some entry => exact .exists_already found
  | none =>
      simp only [Option.isSome_none, Bool.false_eq_true, ↓reduceIte]
      split
      · exact .failed nofun nofun
      unfold lastBlockId
      cases db.blocks.last? with
      | none => exact .failed nofun nofun
      | some row =>
          dsimp only
          split
          · rename_i taken
            obtain ⟨info, requested⟩ := findRequest_of_taken rfl taken
            exact .duplicate found requested
          · rename_i requests stored
            obtain ⟨fresh, rfl⟩ := SortedRows.putNew_eq_some.mp stored
            exact .stored found rfl fresh

theorem acts_creation_iff {clock : ℤ} {key : SecretKey} {flags : AccountFlags}
    {lookahead : AddressIndex}
    (answered : Call.Answered env db address
      (.creationRequest clock key flags lookahead)) :
    Call.ActsOn env db address
        (.creationRequest clock key flags lookahead) ↔
      EntryExact db address ∧ (db.findByAddress? address = none →
        RequestExact db .create address) := by
  have performed : Call.perform env db address
      (.creationRequest clock key flags lookahead) =
      (fun result => (result.1, [])) <$>
        creationRequest env clock db address key flags lookahead := rfl
  have noEntry : db.findByAddress? address = none → EntryExact db address := by
    intro missing entry found
    rw [missing] at found
    cases found
  unfold Call.Answered at answered
  unfold Call.ActsOn
  rw [performed] at answered ⊢
  have answer := creationRequest_answer env clock db address key flags
    lookahead
  generalize creationRequest env clock db address key flags lookahead = result
    at answer answered
  cases answer with
  | stored missing own fresh =>
      refine iff_of_true ⟨⟨fun row => mem_put_request own fresh,
        fun _ _ => Iff.rfl, fun id _ _ => ?_⟩, fun _ => trivial⟩
        ⟨noEntry missing, fun _ => requestExact_of_fresh own fresh⟩
      exact ⟨.refl _, .refl _, .refl _, .refl _, .refl _, .refl _⟩
  | exists_already found =>
      refine ⟨fun acts => ⟨entryExact_of_hasEntry (acts (.inr rfl)), ?_⟩,
        fun exact_ _ => exact_.1.hasEntry found⟩
      intro missing
      rw [missing] at found
      cases found
  | duplicate missing requested =>
      refine ⟨fun acts => ⟨noEntry missing, fun _ =>
        requestExact_of_hasRequest (acts (.inl rfl))⟩,
        fun exact_ _ => (exact_.2 missing).hasRequest requested⟩
  | failed notDuplicate notExists =>
      rcases answered _ rfl with rfl | rfl
      · exact absurd rfl notDuplicate
      · exact absurd rfl notExists

theorem acts_import_iff {clock : ℤ} {height : BlockId}
    {lookahead : AddressIndex}
    (answered : Call.Answered env db address
      (.importRequest clock height lookahead)) :
    Call.ActsOn env db address (.importRequest clock height lookahead) ↔
      EntryExact db address ∧ RequestExact db .importScan address := by
  have performed : Call.perform env db address
      (.importRequest clock height lookahead) =
      (fun next => (next, [address])) <$>
        importRequest clock db address height lookahead := rfl
  unfold Call.Answered at answered
  unfold Call.ActsOn
  rw [performed] at answered ⊢
  unfold importRequest getAccountTime at answered ⊢
  split at answered
  · cases answered _ rfl
  rename_i timed
  rw [if_neg timed]
  simp only [bind, Except.bind] at answered ⊢
  cases found : db.findByAddress? address with
  | none =>
      rw [found] at answered
      cases answered _ rfl
  | some entry =>
      simp only [Option.isNone_some, Bool.false_eq_true, ↓reduceIte]
      split
      · rename_i next reported result
        split at result
        · cases result
        · rename_i requests stored
          cases result
          obtain ⟨fresh, rfl⟩ := SortedRows.putNew_eq_some.mp stored
          refine ⟨fun acts => ⟨entryExact_of_hasEntry (acts.2 (by simp)),
            requestExact_of_fresh rfl fresh⟩, fun exact_ =>
            ⟨⟨fun row => mem_put_request rfl fresh, fun _ _ => Iff.rfl,
              fun id _ _ => ?_⟩, fun _ => exact_.1.hasEntry found⟩⟩
          exact ⟨.refl _, .refl _, .refl _, .refl _, .refl _, .refl _⟩
      · rename_i failure result
        split at result
        · rename_i taken
          cases result
          obtain ⟨info, requested⟩ := findRequest_of_taken rfl taken
          refine ⟨fun acts => ?_, fun exact_ _ =>
            ⟨exact_.1.hasEntry found, exact_.2.hasRequest requested⟩⟩
          obtain ⟨entries, requests⟩ := acts rfl
          exact ⟨entryExact_of_hasEntry entries,
            requestExact_of_hasRequest requests⟩
        · cases result

theorem acts_status_iff (addressed : Addressed db) {status : AccountStatus}
    (answered : Call.Answered env db address (.changeStatus status)) :
    Call.ActsOn env db address (.changeStatus status) ↔
      EntryExact db address := by
  have performed : Call.perform env db address (.changeStatus status) =
      changeStatusOf status db address >>= fun changed =>
        .ok (changed.1, if changed.2 then [] ++ [address] else []) := by
    show db.changeStatus status [address] = _
    unfold changeStatus
    simp only [List.foldlM_cons, List.foldlM_nil, bind_pure]
  unfold Call.Answered at answered
  unfold Call.ActsOn
  rw [performed] at answered ⊢
  cases result : changeStatusOf status db address with
  | error failure =>
      rw [result] at answered
      exact (answered failure rfl).elim
  | ok changed =>
      obtain ⟨next, found⟩ := changed
      simp only [bind, Except.bind]
      rcases changeStatusOf_cases result with
        ⟨missing, rfl, rfl⟩ | ⟨entry, located, rfl, effect⟩
      · refine iff_of_true ⟨.refl _ _, fun member => by cases member⟩ ?_
        intro entry other
        rw [missing] at other
        cases other
      · refine ⟨fun acts => entryExact_of_hasEntry (acts.2 (by simp)),
          fun exact_ => ⟨?_, fun _ => exact_.hasEntry located⟩⟩
        rcases effect with rfl | ⟨user, changed, -⟩
        · exact .refl _ _
        · have own := addressed.accountAt exact_ (show _ = some user by
            rw [accountAt, located]
            exact changed.account_eq)
          have stored := changed.account_eq
          refine ⟨?_, ?_, fun id foreign _ => .statusChanged
            (apart_of_foreign foreign stored own) changed⟩
          · intro row _
            rw [changed.next_eq]
          · intro row other
            rw [changed.next_eq]
            exact EntryExact.mem_put changed.entry_mem
              (exact_ entry located) _ other

/-- Moving an account of the address leaves the rows of others. -/
theorem OthersKept.heightChanged {height : BlockId}
    {lookahead : AddressIndex} {maxSubaddresses : ℕ}
    (addressed : Addressed db) (exact_ : EntryExact db address)
    (success : changeHeight env height address lookahead maxSubaddresses db =
      .ok next) : OthersKept address db next := by
  obtain ⟨lookup, user, moved, effect⟩ := changeHeight_ok success
  refine ⟨?_, ?_, fun id foreign _ => .changeHeight ?_ success⟩
  · obtain ⟨_, _, _, rfl⟩ := effect.next_eq
    exact fun _ _ => Iff.rfl
  · obtain ⟨_, _, _, rfl⟩ := effect.next_eq
    exact fun _ _ => Iff.rfl
  · intro other found
    obtain ⟨entry, -, located⟩ := Option.bind_eq_some_iff.mp found
    exact apart_of_foreign foreign located (addressed.accountAt exact_ found)

theorem changeHeight_entry {height : BlockId} {lookahead : AddressIndex}
    {maxSubaddresses : ℕ}
    (success : changeHeight env height address lookahead maxSubaddresses db =
      .ok next) : ∃ entry, db.findByAddress? address = some entry := by
  obtain ⟨lookup, user, moved, effect⟩ := changeHeight_ok success
  obtain ⟨entry, found, -⟩ := Option.map_eq_some_iff.mp effect.lookup_eq
  exact ⟨entry, found⟩

/-! An account that is there is never reported as missing. -/

private theorem dropSpends_failure {rows : List (AccountId × Spend)}
    {failure : Error} (failed : rows.foldlM dropSpend db = .error failure) :
    failure ≠ .accountNotFound := by
  obtain ⟨state, row, -, -, stepped⟩ :=
    Outcome.foldlM_error (fun _ => True) (fun _ _ _ _ _ _ => trivial) trivial
      failed
  unfold dropSpend at stepped
  dsimp only at stepped
  split at stepped <;> cases stepped
  exact nofun

private theorem lookaheadFill_failure {minor maxSubaddresses index total : ℕ}
    {initial : List SubaddressDict} {failure : Error}
    (failed : lookaheadFill minor maxSubaddresses index total initial =
      .error failure) : failure ≠ .accountNotFound := by
  induction initial generalizing index total with
  | nil => cases failed
  | cons elem rest induction =>
      unfold lookaheadFill at failed
      dsimp only at failed
      split at failed
      all_goals
        split at failed
        · cases failed
          exact nofun
        · rcases Outcome.bind_eq_error.mp failed with early | ⟨_, _, late⟩
          · exact induction early
          · cases late

private theorem lookaheadDict_failure {lookahead : AddressIndex}
    {maxSubaddresses : ℕ} {recipients : List AddressIndex} {failure : Error}
    (failed : lookaheadDict lookahead maxSubaddresses recipients =
      .error failure) : failure ≠ .accountNotFound := by
  rcases Outcome.bind_eq_error.mp failed with early | ⟨_, _, late⟩
  · obtain ⟨state, recipient, -, -, stepped⟩ :=
      Outcome.foldlM_error (fun _ => True) (fun _ _ _ _ _ _ => trivial)
        trivial early
    unfold lookaheadPass at stepped
    dsimp only at stepped
    split at stepped
    · cases stepped
      exact nofun
    split at stepped
    · cases stepped
      exact nofun
    split at stepped
    · cases stepped
      exact nofun
    split at stepped <;> cases stepped
    exact nofun
  · exact lookaheadFill_failure late

private theorem doUpsert_failure {args : Upsert}
    {subaddrs : List SubaddressDict} {failure : Error}
    (failed : (doUpsert env args subaddrs db).1 = .error failure) :
    failure ≠ .accountNotFound := by
  unfold doUpsert at failed
  split at failed
  · cases failed
    exact nofun
  generalize db.subaddressCount args.id = count at failed
  generalize ([] : List SubaddressDict) = out at failed
  rename_i within
  clear within
  induction subaddrs generalizing db count out with
  | nil => cases failed
  | cons entry entries induction =>
      unfold Upsert.majors at failed
      split at failed
      · rename_i reached
        cases failed
        unfold Upsert.major at reached
        split at reached
        · cases reached
          exact nofun
        split at reached
        · split at reached <;> cases reached
          exact nofun
        · dsimp only at reached
          split at reached <;> cases reached
          exact nofun
      · exact induction _ _ failed

private theorem provision_failure {user : Account} {lookahead : AddressIndex}
    {maxSubaddresses : ℕ} {failure : Error}
    (failed : provision env user lookahead maxSubaddresses db =
      .error failure) : failure ≠ .accountNotFound := by
  have looked : ∀ args, (doLookahead env args lookahead db).1 =
      .error failure → failure ≠ .accountNotFound := by
    intro args failed
    unfold doLookahead at failed
    split at failed
    · cases failed
    split at failed
    · cases failed
      exact nofun
    split at failed
    · cases failed
      exact nofun
    split at failed
    · rename_i early
      cases failed
      exact lookaheadDict_failure early
    split at failed
    · rename_i upserted
      cases failed
      exact doUpsert_failure (congrArg Prod.fst upserted)
    · cases failed
  unfold provision at failed
  split at failed
  · cases failed
  unfold lookaheadAccount at failed
  split at failed
  · cases failed
  · rename_i reached
    split at failed
    · cases failed
    · cases failed
      exact looked _ (congrArg Prod.fst reached)

theorem changeHeight_failure {height : BlockId} {lookahead : AddressIndex}
    {maxSubaddresses : ℕ} {entry : AccountByAddress}
    (found : db.findByAddress? address = some entry) :
    changeHeight env height address lookahead maxSubaddresses db ≠
      .error .accountNotFound := by
  intro failed
  unfold changeHeight at failed
  rw [found] at failed
  dsimp only at failed
  split at failed
  · cases failed
  rename_i user _
  rcases Outcome.bind_eq_error.mp failed with early | ⟨cut, -, later⟩
  · exact dropSpends_failure early rfl
  rcases Outcome.bind_eq_error.mp later with early | ⟨moved, -, stored⟩
  · exact provision_failure early rfl
  · unfold storeMoved at stored
    split at stored
    · cases stored
    · split at stored <;> cases stored

theorem acts_rescan_iff (addressed : Addressed db) {height : BlockId}
    (answered : Call.Answered env db address (.rescan height)) :
    Call.ActsOn env db address (.rescan height) ↔ EntryExact db address := by
  have performed : Call.perform env db address (.rescan height) =
      (do
        let current ← db.lastBlockId
        if current < height then .error .badHeight
        else rescanOf env height (db, []) address) := by
    show rescan env db height [address] = _
    unfold rescan
    simp only [List.foldlM_cons, List.foldlM_nil, bind_pure]
  unfold Call.Answered at answered
  unfold Call.ActsOn
  rw [performed] at answered ⊢
  cases top : db.lastBlockId with
  | error failure =>
      rw [top] at answered
      exact (answered failure rfl).elim
  | ok current =>
      rw [top] at answered
      simp only [bind, Except.bind] at answered ⊢
      by_cases late : current < height
      · rw [if_pos late] at answered
        exact (answered _ rfl).elim
      rw [if_neg late] at answered ⊢
      unfold rescanOf at answered ⊢
      cases found : db.findByAddress? address with
      | none =>
          have missing : changeHeight env height address .primary 0 db =
              .error .accountNotFound := by
            unfold changeHeight
            rw [found]
          simp only [missing]
          refine iff_of_true ⟨.refl _ _, fun member => by cases member⟩ ?_
          intro entry other
          rw [found] at other
          cases other
      | some entry =>
          cases changed : changeHeight env height address .primary 0 db with
          | error failure =>
              have known := @changeHeight_failure env _ _ height .primary 0 _
                found
              rw [changed] at known
              simp only [changed] at answered
              split at answered
              · rename_i contradiction
                cases contradiction
              · rename_i missing
                exact absurd missing known
              · exact (answered _ rfl).elim
          | ok next =>
              exact ⟨fun acts => entryExact_of_hasEntry (acts.2 (by simp)),
                fun exact_ => ⟨.heightChanged addressed exact_ changed,
                  fun _ => exact_.hasEntry found⟩⟩

theorem acts_accept_import_iff (addressed : Addressed db) {clock : ℤ}
    {maxSubaddresses : ℕ}
    (answered : Call.Answered env db address
      (.acceptRequests clock .importScan maxSubaddresses)) :
    Call.ActsOn env db address
        (.acceptRequests clock .importScan maxSubaddresses) ↔
      RequestExact db .importScan address ∧
        ((db.findRequest? .importScan address).isSome →
          EntryExact db address) := by
  have performed : Call.perform env db address
      (.acceptRequests clock .importScan maxSubaddresses) =
      importAccount env maxSubaddresses (db, []) address := by
    show acceptRequests env clock db .importScan [address] maxSubaddresses = _
    unfold acceptRequests importAccounts
    simp only [List.cons_ne_nil, ↓reduceIte, List.foldlM_cons,
      List.foldlM_nil, bind_pure]
  unfold Call.Answered at answered
  unfold Call.ActsOn
  rw [performed] at answered ⊢
  unfold importAccount at answered ⊢
  cases requested : db.findRequest? .importScan address with
  | none =>
      refine iff_of_true ⟨.refl _ _, fun member => by cases member⟩
        ⟨fun info other => ?_, fun some => by cases some⟩
      rw [requested] at other
      cases other
  | some info =>
      simp only [requested] at answered ⊢
      simp only [Option.isSome_some, true_imp_iff]
      have erased : Addressed (db.eraseRequest .importScan address) :=
        addressed.of_tables rfl rfl
      have keptRows : ∀ id, SameRows id db
          (db.eraseRequest .importScan address) := fun id =>
        ⟨.refl _, .refl _, .refl _, .refl _, .refl _, .refl _⟩
      cases changed : changeHeight env info.startHeight address info.lookahead
          maxSubaddresses (db.eraseRequest .importScan address) with
      | error failure =>
          rw [changed] at answered
          cases found : db.findByAddress? address with
          | none =>
              have missing : failure = .accountNotFound := by
                unfold changeHeight at changed
                have none : (db.eraseRequest .importScan
                    address).findByAddress? address = none := found
                rw [none] at changed
                exact (Except.error.inj changed).symm
              subst missing
              have noEntry : EntryExact db address := by
                intro entry other
                rw [found] at other
                cases other
              refine ⟨fun acts => ⟨requestExact_of_kept acts.1.requests rfl,
                noEntry⟩, fun exact_ => ⟨⟨fun row => exact_.1.erase,
                  fun _ _ => Iff.rfl, fun id _ _ => keptRows id⟩,
                  fun member => by cases member⟩⟩
          | some entry =>
              have known := @changeHeight_failure env
                (db.eraseRequest .importScan address) _ info.startHeight
                info.lookahead maxSubaddresses _ found
              rw [changed] at known
              split at answered
              · rename_i contradiction
                cases contradiction
              · rename_i missing
                exact absurd missing known
              · exact (answered _ rfl).elim
      | ok next =>
          obtain ⟨entry, found⟩ := changeHeight_entry changed
          have found : db.findByAddress? address = some entry := found
          refine ⟨fun acts => ?_, fun exact_ => ⟨?_, fun _ =>
            ⟨exact_.1.hasRequest requested, exact_.2.hasEntry found⟩⟩⟩
          · obtain ⟨requests, entries⟩ := acts.2 (by simp)
            exact ⟨requestExact_of_hasRequest requests,
              entryExact_of_hasEntry entries⟩
          · have kept := OthersKept.heightChanged erased
              exact_.2 changed
            refine ⟨fun row other => (exact_.1.erase other).trans
              (kept.requests row other), kept.entries, fun id foreign next =>
                (keptRows id).trans (kept.rows id foreign next)⟩

theorem acts_accept_create_iff {clock : ℤ} {maxSubaddresses : ℕ}
    (answered : Call.Answered env db address
      (.acceptRequests clock .create maxSubaddresses)) :
    Call.ActsOn env db address
        (.acceptRequests clock .create maxSubaddresses) ↔
      RequestExact db .create address := by
  have performed : Call.perform env db address
      (.acceptRequests clock .create maxSubaddresses) =
      (do
        let time ← getAccountTime clock
        let final ← createAccount env time maxSubaddresses
          ⟨db, db.findLastId, []⟩ address
        .ok (final.db, final.stored)) := by
    show acceptRequests env clock db .create [address] maxSubaddresses = _
    unfold acceptRequests createAccounts
    simp only [List.cons_ne_nil, ↓reduceIte, List.foldlM_cons,
      List.foldlM_nil, bind_pure]
  unfold Call.Answered at answered
  unfold Call.ActsOn
  rw [performed] at answered ⊢
  cases timed : getAccountTime clock with
  | error failure =>
      rw [timed] at answered
      exact (answered failure rfl).elim
  | ok time =>
      rw [timed] at answered
      simp only [bind, Except.bind] at answered ⊢
      cases result : createAccount env time maxSubaddresses
          ⟨db, db.findLastId, []⟩ address with
      | error failure =>
          rw [result] at answered
          exact (answered failure rfl).elim
      | ok after =>
          have keptRows : ∀ id, SameRows id db
              (db.eraseRequest .create address) := fun id =>
            ⟨.refl _, .refl _, .refl _, .refl _, .refl _, .refl _⟩
          cases createAccount_ok result with
          | missing absent =>
              refine iff_of_true ⟨.refl _ _, fun member => by cases member⟩ ?_
              intro info other
              rw [absent] at other
              cases other
          | skipped requested provisioned failed reason =>
              obtain ⟨-, ranges, indexes, frame⟩ := provision_eq provisioned
              refine ⟨fun acts => requestExact_of_kept acts.1.requests
                (by rw [frame]), fun exact_ => ⟨⟨?_, ?_, ?_⟩,
                  fun member => by cases member⟩⟩
              · intro row other
                rw [frame]
                exact exact_.erase other
              · intro row _
                rw [frame]
                rfl
              · intro id _ other
                exact (keptRows id).trans
                  (.provision (Ne.symm other) provisioned)
          | added requested valid provisioned effect =>
              obtain ⟨⟨_, _, rfl⟩, ranges, indexes, rfl⟩ :=
                provision_eq provisioned
              refine ⟨fun acts => requestExact_of_hasRequest
                (acts.2 (by simp)), fun exact_ => ⟨⟨?_, ?_, ?_⟩,
                  fun _ => exact_.hasRequest requested⟩⟩
              · intro row other
                rw [effect.next_eq]
                exact exact_.erase other
              · intro entry other
                rw [effect.next_eq, SortedRows.mem_put]
                constructor
                · intro member
                  exact .inr ⟨member, effect.newAddress entry member⟩
                · rintro (rfl | ⟨member, -⟩)
                  · exact absurd rfl other
                  · exact member
              · intro id _ other
                exact ((keptRows id).trans (.provision (Ne.symm other)
                  provisioned)).trans (.added (Ne.symm other) effect)

end Found

/-- In every state that the calls reach, an answered call on an address stays
with the rows of that address exactly when what it finds is stored under both
of its keys. -/
theorem acts_on_exact_address_iff {env : Env} {start db : Db}
    {operations : List Operation} (opened : openNew env = .ok start)
    (run : Run (fun db operation next =>
      Administrates operation ∧ Step env db operation next)
      start operations db) {address : AccountAddress} {call : Call}
    (answered : call.Answered env db address) :
    call.ActsOn env db address ↔ call.Exact db address := by
  have addressed : Addressed db := by
    refine run.preserves Addressed
      (fun _ _ _ kept step => kept.step step.1 step.2) ?_
    unfold openNew at opened
    split at opened
    · cases opened
    split at opened
    · cases opened
    cases opened
    exact fun entry member => absurd member (SortedRows.not_mem_empty entry)
  cases call with
  | acceptRequests clock type maxSubaddresses =>
      cases type with
      | create => exact acts_accept_create_iff answered
      | importScan => exact acts_accept_import_iff addressed answered
  | rejectRequests type => exact acts_reject_iff type
  | creationRequest clock key flags lookahead =>
      exact acts_creation_iff answered
  | importRequest clock height lookahead => exact acts_import_iff answered
  | changeStatus status => exact acts_status_iff addressed answered
  | rescan height => exact acts_rescan_iff addressed answered
  | shrinkLookahead lookahead => exact acts_shrink_iff addressed answered

/-- One account, and a request to create another with the same spend key. -/
def requestedDb : Db :=
  afterAll sampleEnv sampleDb [.addAccount 0 sampleAddress 7 0,
    .creationRequest 0 ⟨6, 8⟩ 6 0 .primary]

private theorem requestedDb_run :
    Run (fun db operation next =>
      Administrates operation ∧ Step sampleEnv db operation next) sampleDb
      [.addAccount 0 sampleAddress 7 0, .creationRequest 0 ⟨6, 8⟩ 6 0 .primary]
      requestedDb :=
  .cons ⟨trivial, step_after (by decide)⟩
    (.cons ⟨trivial, step_after (by decide)⟩ (.nil _))

/-- Hiding the account by its own address. -/
theorem acts_on_sample_address :
    Call.ActsOn sampleEnv requestedDb sampleAddress
      (.changeStatus .hidden) := by
  have done : ∃ result, Call.perform sampleEnv requestedDb sampleAddress
      (.changeStatus .hidden) = .ok result := ⟨_, rfl⟩
  refine (acts_on_exact_address_iff
    (rfl : openNew sampleEnv = .ok sampleDb) requestedDb_run ?_).mpr ?_
  · intro failure failed
    obtain ⟨result, succeeded⟩ := done
    rw [succeeded] at failed
    cases failed
  · exact entryExact_of_hasEntry ⟨⟨sampleAddress, ⟨1, .active⟩⟩,
      by decide, rfl⟩

/-- An address that shares the view key only hides the account. -/
theorem half_an_address_acts :
    ¬ ∀ (env : Env) (start db : Db) (operations : List Operation)
      (address : AccountAddress) (call : Call), openNew env = .ok start →
      Run (fun db operation next =>
        Administrates operation ∧ Step env db operation next)
        start operations db →
      call.Answered env db address → call.ActsOn env db address := by
  intro always
  have done : ∃ result, Call.perform sampleEnv requestedDb ⟨7, 9⟩
      (.changeStatus .hidden) = .ok result := ⟨_, rfl⟩
  have acts := always sampleEnv sampleDb requestedDb _ ⟨7, 9⟩
    (.changeStatus .hidden) rfl requestedDb_run (by
      intro failure failed
      obtain ⟨result, succeeded⟩ := done
      rw [succeeded] at failed
      cases failed)
  obtain ⟨entry, member, same⟩ := acts.2 (by decide)
  have none : ∀ entry ∈ requestedDb.accountsByAddress.rows,
      entry.address ≠ ⟨7, 9⟩ := by decide
  exact none entry member same

end XfoLws.Db
