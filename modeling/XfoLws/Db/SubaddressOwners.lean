import XfoLws.Db.SubaddressAgreement

/-!
# Owners of subaddress rows

Every row of `subaddress_indexes` is derived from the account it is stored
under, as long as `create_accounts` writes no rows for a request it then
skips: the rows are stored under the next id before the account is added.
-/

namespace XfoLws.Db

/-- The row is derived at its index from an account with its id. -/
def OwnRow (env : Env) (db : Db) (row : AccountId × SubaddressMap) : Prop :=
  ∃ owner ∈ db.accounts, owner.2.id = row.1 ∧
    row.2.subaddress =
      row.2.index.getSpendPublic env owner.2.address owner.2.key

/-- Every row of `subaddress_indexes` belongs to its account. -/
def OwnRows (env : Env) (db : Db) : Prop :=
  ∀ row ∈ db.subaddressIndexes, OwnRow env db row

/-- `do_upsert` stores no index. -/
def Upsert.storesNothing (args : Upsert) (subaddrs : List SubaddressDict)
    (db : Db) : Bool :=
  args.maxSubaddr < db.subaddressCount args.id ||
    match subaddrs with
    | [] => true
    | entry :: _ =>
        (args.counted db (db.subaddressCount args.id) entry).isNone

/-- `do_add_account` accepts the account a request asks for. -/
def RequestInfo.accepted (env : Env) (info : RequestInfo)
    (address : AccountAddress) (db : Db) : Prop :=
  env.secretKeyToPublicKey info.key = some address.viewPublic ∧
    db.accountsByAddress.find? address.viewPublic = none

/-- The calls that touch subaddress rows are given the account's own address
and view key, and a creation request that is skipped provisions nothing. -/
def ProvisionsOwn (env : Env) (db : Db) : Operation → Prop
  | .creationRequest .. => True
  | .acceptRequests clock .create addresses maxSubaddresses =>
      Outcome.Along (createAccount env clock.toNat maxSubaddresses)
        (fun state address =>
          ∀ info, state.db.findRequest? .create address = some info →
            info.accepted env address state.db ∨
              DuringProvision
                (fun args subaddrs db => args.storesNothing subaddrs db = true)
                (info.account (wrap32 (state.lastId + 1)) address clock.toNat)
                info.lookahead maxSubaddresses
                (state.db.eraseRequest .create address))
        ⟨db, db.findLastId, []⟩ addresses
  | .upsertSubaddresses id address viewKey _ _ =>
      ∃ owner ∈ db.accounts, owner.2.id = id ∧ owner.2.address = address ∧
        owner.2.key = viewKey
  | .updateLookahead address _ _ _ =>
      ∀ user, db.accountAt address = some user → user.address = address
  | _ => False

section Rows

variable {env : Env} {args : Upsert} {db next : Db}

/-- A major that fails stores no index; one that fits was counted and stores
derived rows. -/
private theorem major_indexes {count : ℕ} {out : List SubaddressDict}
    {entry : SubaddressDict} {outcome : Except Error (ℕ × List SubaddressDict)}
    (passed : args.major env db count out entry = (outcome, next)) :
    (∃ failure, outcome = .error failure ∧
      next.subaddressIndexes = db.subaddressIndexes) ∨
    (args.counted db count entry ≠ none ∧ ∃ newDict,
      next.subaddressIndexes = db.subaddressIndexes.addAll
        (args.indexRows env entry.1 newDict)) := by
  unfold Upsert.major at passed
  unfold Upsert.counted
  split at passed
  · cases passed
    exact .inl ⟨_, rfl, rfl⟩
  cases found : db.subaddressRanges.find? (toLex (args.id, entry.1)) with
  | none =>
      rw [found] at passed
      dsimp only at passed ⊢
      split at passed
      · cases passed
        exact .inl ⟨_, rfl, rfl⟩
      · rename_i total counted
        cases passed
        exact .inr ⟨by rw [counted]; exact Option.some_ne_none total, _, rfl⟩
  | some old =>
      rw [found] at passed
      dsimp only at passed ⊢
      split at passed
      · cases passed
        exact .inl ⟨_, rfl, rfl⟩
      · rename_i merge merged
        cases passed
        have same : (mergeRanges args.maxSubaddr entry.1 old.2.2 entry.2
            ⟨count, [], out⟩).map Merge.count =
          (mergeRanges args.maxSubaddr entry.1 old.2.2 entry.2
            ⟨count, [], []⟩).map Merge.count := mergeRanges_out rfl rfl
        rw [merged] at same
        refine .inr ⟨?_, _, rfl⟩
        rw [← same]
        exact Option.some_ne_none merge.count

theorem mem_doUpsert {subaddrs : List SubaddressDict}
    {row : AccountId × SubaddressMap}
    (member : row ∈ (doUpsert env args subaddrs db).2.subaddressIndexes) :
    row ∈ db.subaddressIndexes ∨
      (row.1 = args.id ∧ row.2.subaddress =
        row.2.index.getSpendPublic env args.address args.viewKey) := by
  unfold doUpsert at member
  split at member
  · exact .inl member
  generalize db.subaddressCount args.id = count at member
  generalize ([] : List SubaddressDict) = reported at member
  rename_i within
  clear within
  induction subaddrs generalizing db count reported with
  | nil => exact .inl member
  | cons entry entries induction =>
      rw [Upsert.majors] at member
      cases passed : args.major env db count reported entry with
      | mk outcome middle =>
          rw [passed] at member
          have stored : ∀ row ∈ middle.subaddressIndexes,
              row ∈ db.subaddressIndexes ∨
                (row.1 = args.id ∧ row.2.subaddress =
                  row.2.index.getSpendPublic env args.address
                    args.viewKey) := by
            intro row member
            rcases major_indexes passed with ⟨_, -, same⟩ | ⟨-, newDict, added⟩
            · rw [same] at member
              exact .inl member
            · rw [added] at member
              rcases SortedRows.mem_of_mem_addAll member with old | new
              · exact .inl old
              · obtain ⟨owner, -, -, derived⟩ := mem_indexRows.mp new
                exact .inr ⟨owner, derived⟩
          cases outcome with
          | error failure => exact stored row member
          | ok value =>
              rcases induction _ _ member with old | new
              · exact stored row old
              · exact .inr new

theorem doUpsert_storesNothing {subaddrs : List SubaddressDict}
    (nothing : args.storesNothing subaddrs db = true) :
    (doUpsert env args subaddrs db).2.subaddressIndexes =
      db.subaddressIndexes := by
  unfold doUpsert
  split
  · rfl
  rename_i within
  unfold Upsert.storesNothing at nothing
  rw [Bool.or_eq_true, decide_eq_true_eq] at nothing
  replace nothing := nothing.resolve_left within
  cases subaddrs with
  | nil => rfl
  | cons entry entries =>
      have overflow := Option.isNone_iff_eq_none.mp nothing
      rw [Upsert.majors]
      cases passed : args.major env db (db.subaddressCount args.id) [] entry with
      | mk outcome middle =>
          rcases major_indexes passed with ⟨_, rfl, same⟩ | ⟨counted, -⟩
          · exact same
          · exact (counted overflow).elim

end Rows

/-! ## Accounts keep their keys -/

/-- No account disappears or changes its keys. -/
def KeepsOwners (db next : Db) : Prop :=
  ∀ old ∈ db.accounts, ∃ new ∈ next.accounts, new.2.id = old.2.id ∧
    new.2.address = old.2.address ∧ new.2.key = old.2.key

theorem KeepsOwners.touch {db next : Db} {status : AccountStatus}
    {user : Account} (moved : Account) (member : (status, user) ∈ db.accounts)
    (sameId : moved.id = user.id) (sameAddress : moved.address = user.address)
    (sameKey : moved.key = user.key)
    (tables : next.accounts = db.accounts.put (status, moved)) :
    KeepsOwners db next := by
  intro old oldMember
  rw [tables]
  by_cases keyed : accountsKey old = accountsKey (status, moved)
  · have same : accountsKey old = accountsKey (status, user) := by
      rw [keyed, accountsKey, accountsKey, sameId]
    rw [SortedRows.eq_of_key_eq oldMember member same]
    exact ⟨(status, moved), SortedRows.mem_put.mpr (.inl rfl), sameId,
      sameAddress, sameKey⟩
  · exact ⟨old, SortedRows.mem_put.mpr (.inr ⟨oldMember, keyed⟩), rfl, rfl,
      rfl⟩

namespace OwnRows

variable {env : Env} {db next : Db} {args : Upsert}

theorem keep (own : OwnRows env db) (owners : KeepsOwners db next)
    (rows : ∀ row ∈ next.subaddressIndexes, row ∈ db.subaddressIndexes ∨
      OwnRow env next row) : OwnRows env next := by
  intro row member
  rcases rows row member with old | new
  · obtain ⟨owner, ownerMember, sameId, derived⟩ := own row old
    obtain ⟨kept, keptMember, keptId, sameAddress, sameKey⟩ :=
      owners owner ownerMember
    refine ⟨kept, keptMember, keptId.trans sameId, ?_⟩
    rw [sameAddress, sameKey]
    exact derived
  · exact new

theorem of_tables (own : OwnRows env db)
    (accounts : next.accounts = db.accounts)
    (indexes : next.subaddressIndexes = db.subaddressIndexes) :
    OwnRows env next := by
  intro row member
  rw [indexes] at member
  obtain ⟨owner, ownerMember, derived⟩ := own row member
  exact ⟨owner, accounts ▸ ownerMember, derived⟩

theorem doUpsert (own : OwnRows env db) {owner : AccountStatus × Account}
    (ownerMember : owner ∈ db.accounts) (sameId : owner.2.id = args.id)
    (sameAddress : owner.2.address = args.address)
    (sameKey : owner.2.key = args.viewKey) (subaddrs : List SubaddressDict) :
    OwnRows env (Db.doUpsert env args subaddrs db).2 := by
  have accounts : (Db.doUpsert env args subaddrs db).2.accounts =
      db.accounts := by
    obtain ⟨_, _, frame⟩ := doUpsert_eq env args subaddrs db
    rw [frame]
  refine own.keep ?_ ?_
  · intro old member
    rw [accounts]
    exact ⟨old, member, rfl, rfl, rfl⟩
  · intro row member
    rcases mem_doUpsert member with old | ⟨rowId, derived⟩
    · exact .inl old
    · refine .inr ⟨owner, accounts ▸ ownerMember, sameId.trans rowId.symm, ?_⟩
      rw [derived, sameAddress, sameKey]

/-- A request that is added owns the rows stored for it. -/
private theorem created (own : OwnRows env db) {user final : Account}
    {lookahead : AddressIndex} {maxSubaddresses : ℕ} {provisioned : Db}
    (success : provision env user lookahead maxSubaddresses db =
      .ok (final, provisioned))
    (added : Added env final provisioned next) : OwnRows env next := by
  obtain ⟨⟨_, _, labelled⟩, frame⟩ := provision_eq success
  have accounts : provisioned.accounts = db.accounts := by
    obtain ⟨_, _, rfl⟩ := frame
    rfl
  have tables := added.next_eq
  refine own.keep ?_ ?_
  · intro old member
    rw [← accounts] at member
    rw [tables]
    exact ⟨old, SortedRows.mem_put.mpr
      (.inr ⟨member, added.newAccount old member⟩), rfl, rfl, rfl⟩
  · intro row member
    have stored : row ∈ provisioned.subaddressIndexes := by
      rw [tables] at member
      exact member
    rw [provision_request success] at stored
    split at stored
    · exact .inl stored
    · rcases mem_doUpsert stored with old | ⟨rowId, derived⟩
      · exact .inl old
      · have ownerMember : (final.initialStatus, final) ∈ next.accounts := by
          rw [tables]
          exact SortedRows.mem_put.mpr (.inl rfl)
        refine .inr ⟨_, ownerMember, ?_, ?_⟩
        · rw [labelled]
          exact rowId.symm
        · rw [labelled]
          exact derived

/-- Why `do_add_account` refuses an account that is then skipped. -/
private theorem doAddAccount_refuses {user : Account} {failure : Error}
    (failed : db.doAddAccount env user = .error failure)
    (kind : failure = .accountExists ∨ failure = .badViewKey) :
    env.secretKeyToPublicKey user.key ≠ some user.address.viewPublic ∨
      db.accountsByAddress.find? user.address.viewPublic ≠ none := by
  unfold doAddAccount at failed
  split at failed
  · exact .inl ‹_›
  dsimp only at failed
  split at failed
  · rename_i refused
    right
    intro free
    rw [SortedRows.putNew_eq_some.mpr
      ⟨SortedRows.find?_eq_none.mp free, rfl⟩] at refused
    cases refused
  split at failed
  · cases failed
    simp at kind
  split at failed
  · cases failed
    simp at kind
  · cases failed

/-- `create_accounts` does not skip an accepted request. -/
private theorem not_skipped {info : RequestInfo} {id : AccountId}
    {address : AccountAddress} {time : AccountTime} {maxSubaddresses : ℕ}
    {final : Account} {provisioned : Db} {failure : Error}
    (accepted : info.accepted env address db)
    (success : provision env (info.account id address time) info.lookahead
      maxSubaddresses (db.eraseRequest .create address) =
        .ok (final, provisioned))
    (failed : provisioned.doAddAccount env final = .error failure) :
    ¬ (failure = .accountExists ∨ failure = .badViewKey) := by
  obtain ⟨⟨_, _, labelled⟩, _, _, frame⟩ := provision_eq success
  intro kind
  rcases doAddAccount_refuses failed kind with badKey | taken
  · rw [labelled] at badKey
    exact badKey accepted.1
  · rw [labelled, frame] at taken
    exact taken accepted.2

theorem createAccounts (own : OwnRows env db) {clock : ℤ}
    {addresses found : List AccountAddress} {maxSubaddresses : ℕ}
    (guarded : ProvisionsOwn env db
      (.acceptRequests clock .create addresses maxSubaddresses))
    (success : Db.createAccounts env clock db addresses maxSubaddresses =
      .ok (next, found)) : OwnRows env next := by
  obtain ⟨time, timed, rest⟩ := Outcome.bind_eq_ok.mp success
  obtain ⟨final, folded, stored⟩ := Outcome.bind_eq_ok.mp rest
  cases stored
  obtain rfl := getAccountTime_eq timed
  refine Outcome.Along.foldlM_preserves
    (fun state : Creation => OwnRows env state.db) ?_ guarded own folded
  intro state address after allowed before stepped
  have erased : OwnRows env (state.db.eraseRequest .create address) :=
    before.of_tables rfl rfl
  cases createAccount_ok stepped with
  | missing => exact before
  | @skipped info user db failure requested lookedAhead failed kind =>
      rcases allowed info requested with accepted | nothing
      · exact (not_skipped accepted lookedAhead failed kind).elim
      · obtain ⟨-, frame⟩ := provision_eq lookedAhead
        have indexes : db.subaddressIndexes =
            state.db.subaddressIndexes := by
          rw [provision_request lookedAhead]
          split
          · rfl
          · rename_i subaddrs request
            exact doUpsert_storesNothing (nothing subaddrs request)
        obtain ⟨_, _, rfl⟩ := frame
        exact before.of_tables rfl indexes
  | added requested _ lookedAhead added =>
      exact erased.created lookedAhead added

theorem updateLookahead (own : OwnRows env db) {address : AccountAddress}
    {height : BlockId} {matched : AddressIndex} {maxSubaddresses : ℕ}
    {changed : ℤ}
    (addressed : ∀ user, db.accountAt address = some user →
      user.address = address)
    (success : Db.updateLookahead env db address height matched
      maxSubaddresses = .ok (next, changed)) : OwnRows env next := by
  have owners : KeepsOwners db next := by
    rcases updateLookahead_eq success with
      ⟨_, _, rfl⟩ | ⟨lookup, user, fail, located, _, _, rfl⟩
    · exact fun old member => ⟨old, member, rfl, rfl, rfl⟩
    · obtain ⟨member, -⟩ := Agreement.findAccount_iff.mp located
      exact .touch { user with lookaheadFail := fail } member rfl rfl rfl rfl
  obtain ⟨user, located, accounts, tables⟩ := updateLookahead_request success
  have indexes := congrArg (·.subaddressIndexes) tables
  dsimp only at indexes
  refine own.keep owners ?_
  intro row member
  rw [indexes] at member
  split at member
  · exact .inl member
  · rcases mem_doUpsert member with old | ⟨rowId, derived⟩
    · exact .inl old
    · obtain ⟨entry, -, found⟩ := Option.bind_eq_some_iff.mp located
      obtain ⟨userMember, -⟩ := Agreement.findAccount_iff.mp found
      obtain ⟨owner, ownerMember, sameId, sameAddress, sameKey⟩ :=
        owners _ userMember
      refine .inr ⟨owner, ownerMember, sameId.trans rowId.symm, ?_⟩
      rw [derived, sameAddress, sameKey, addressed user located]

theorem step {operation : Operation} (own : OwnRows env db)
    (guarded : ProvisionsOwn env db operation)
    (success : Step env db operation next) : OwnRows env next := by
  cases operation with
  | creationRequest clock address key flags lookahead =>
      obtain ⟨⟨final, hooks⟩, requested, rfl⟩ := Outcome.map_eq_ok.mp success
      obtain ⟨requests, rfl⟩ := creationRequest_eq requested
      exact own.of_tables rfl rfl
  | acceptRequests clock type addresses maxSubaddresses =>
      obtain ⟨⟨final, found⟩, accepted, rfl⟩ := Outcome.map_eq_ok.mp success
      unfold acceptRequests at accepted
      split at accepted
      · cases accepted
        exact own
      cases type with
      | create => exact own.createAccounts guarded accepted
      | importScan => exact guarded.elim
  | upsertSubaddresses id address viewKey subaddrs maxSubaddr =>
      obtain ⟨⟨final, out⟩, upserted, rfl⟩ := Outcome.map_eq_ok.mp success
      obtain ⟨owner, member, rfl, rfl, rfl⟩ := guarded
      have kept : OwnRows env (Db.doUpsert env
          ⟨owner.2.id, owner.2.address, owner.2.key, maxSubaddr⟩
          (subaddrs.insertionSort SubaddressDict.le) db).2 :=
        own.doUpsert member rfl rfl rfl _
      unfold upsertSubaddresses at upserted
      split at upserted
      · cases upserted
      · rename_i stored
        cases upserted
        rw [stored] at kept
        exact kept
  | updateLookahead address height matched maxSubaddresses =>
      obtain ⟨⟨final, changed⟩, updated, rfl⟩ := Outcome.map_eq_ok.mp success
      exact own.updateLookahead guarded updated
  | _ => exact guarded.elim

theorem of_openNew (opened : openNew env = .ok db) : OwnRows env db := by
  unfold openNew at opened
  split at opened
  · cases opened
  split at opened
  · cases opened
  cases opened
  intro row member
  cases member

end OwnRows

/-- In every run that provisions no skipped request, every subaddress row is
derived from the account it is stored under. -/
theorem subaddress_rows_are_own {env : Env} {start final : Db}
    {operations : List Operation} (opened : openNew env = .ok start)
    (run : Run (fun db operation next =>
      ProvisionsOwn env db operation ∧ Step env db operation next)
      start operations final) : OwnRows env final :=
  run.preserves (OwnRows env)
    (fun _ _ _ own step => own.step step.1 step.2) (.of_openNew opened)

/-- The account gets more indexes from a request of its own and a window. -/
def ownCalls : List Operation :=
  lookaheadCalls ++
    [.upsertSubaddresses 1 sampleAddress 7 [(2, [⟨0, 3⟩])] 10,
      .updateLookahead sampleAddress 5 ⟨0, 1⟩ 10]

theorem subaddress_rows_are_own_after_window :
    OwnRows derivingEnv (afterAll derivingEnv sampleDb ownCalls) := by
  have run : Run (fun db operation next =>
      ProvisionsOwn derivingEnv db operation ∧
        Step derivingEnv db operation next) sampleDb ownCalls
      (afterAll derivingEnv sampleDb ownCalls) := by
    refine .cons ⟨trivial, step_after (by decide)⟩
      (.cons ⟨⟨?_, fun _ _ => trivial⟩, step_after (by decide)⟩
        (.cons ⟨?_, step_after (by decide)⟩
          (.cons ⟨?_, step_after (by decide)⟩ (.nil _))))
    · have accepted : ∀ info ∈ findRequest? (after derivingEnv sampleDb
          (.creationRequest 0 sampleAddress 7 0 ⟨1, 2⟩)) .create sampleAddress,
          derivingEnv.secretKeyToPublicKey info.key = some 7 := by
        decide
      exact fun info found => .inl ⟨accepted info found, by decide⟩
    · show ∃ owner ∈ (afterAll derivingEnv sampleDb
        lookaheadCalls).accounts.rows, _
      decide
    · show ∀ user ∈ accountAt _ sampleAddress, user.address = sampleAddress
      decide
  exact subaddress_rows_are_own (rfl : openNew derivingEnv = .ok sampleDb) run

/-- A request with a wrong view key, which is skipped. -/
def skippedCalls : List Operation :=
  [.creationRequest 0 sampleAddress 5 0 ⟨1, 2⟩,
    .acceptRequests 0 .create [sampleAddress] 3]

/-- The rows of a skipped request stay under an id no account has. -/
theorem skipped_request_leaves_rows :
    ¬ ∀ (env : Env) (start final : Db) (operations : List Operation),
      openNew env = .ok start →
      (∀ operation ∈ operations,
        (∃ clock address key flags lookahead, operation =
          .creationRequest clock address key flags lookahead) ∨
        ∃ clock addresses maxSubaddresses, operation =
          .acceptRequests clock .create addresses maxSubaddresses) →
      Run (Step env) start operations final → OwnRows env final := by
  intro always
  have own := always derivingEnv sampleDb
    (afterAll derivingEnv sampleDb skippedCalls) skippedCalls rfl
    (by simp [skippedCalls]) (run_afterAll (by decide))
  have rows : (afterAll derivingEnv sampleDb
      skippedCalls).subaddressIndexes.rows ≠ [] := by
    decide
  have none_left : (afterAll derivingEnv sampleDb skippedCalls).accounts.rows =
      [] := by
    decide
  obtain ⟨row, member⟩ := List.exists_mem_of_ne_nil _ rows
  obtain ⟨owner, ownerMember, -⟩ := own row member
  rw [← SortedRows.mem_rows, none_left] at ownerMember
  cases ownerMember

end XfoLws.Db
