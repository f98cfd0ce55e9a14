import XfoLws.Db.Operations

/-!
# What each step leaves alone

A successful helper returns the database it was given with named tables
replaced.  Later proofs destructure these equations and never unfold the
helpers again.
-/

namespace XfoLws.Db

variable {env : Env} {db next : Db}

/-! ## Rolling back rows -/

private theorem dropSpend_eq {row : AccountId × Spend}
    (success : dropSpend db row = .ok next) :
    ∃ images, next =
      { db with images := images, spends := db.spends.erase (spendsKey row) } := by
  simp only [dropSpend] at success
  split at success
  · cases success
  · cases success
    exact ⟨_, rfl⟩

private theorem dropSpends_eq {rows : List (AccountId × Spend)}
    (success : rows.foldlM dropSpend db = .ok next) :
    ∃ images, next =
      { db with
        images := images
        spends := db.spends.eraseAll (rows.map spendsKey) } := by
  induction rows generalizing db with
  | nil =>
      cases success
      exact ⟨_, rfl⟩
  | cons row rows induction =>
      rw [List.foldlM_cons, Outcome.bind_eq_ok] at success
      obtain ⟨middle, dropped, rest⟩ := success
      obtain ⟨_, rfl⟩ := dropSpend_eq dropped
      obtain ⟨images, rfl⟩ := induction rest
      exact ⟨images, rfl⟩

/-- Removing the spends of one account from `height` on. -/
def spendsBelow (db : Db) (user : AccountId) (height : BlockId) :
    SortedRows spendsKey :=
  db.spends.filter fun row => ¬ (row.1 = user ∧ height ≤ row.2.link.height)

theorem mem_spendsBelow {user : AccountId} {height : BlockId}
    {row : AccountId × Spend} :
    row ∈ db.spendsBelow user height ↔
      row ∈ db.spends ∧ ¬ (row.1 = user ∧ height ≤ row.2.link.height) := by
  simp only [spendsBelow, SortedRows.mem_filter, decide_eq_true_eq]

theorem mem_rollbackOutputs {user : AccountId} {height : BlockId}
    {row : AccountId × Output} :
    row ∈ (db.rollbackOutputs user height).outputs ↔
      row ∈ db.outputs ∧ ¬ (row.1 = user ∧ height ≤ row.2.link.height) := by
  simp only [rollbackOutputs, SortedRows.mem_filter, decide_eq_true_eq]

theorem rollbackSpends_eq {user : AccountId} {height : BlockId}
    (success : db.rollbackSpends user height = .ok next) :
    ∃ images, next =
      { db with images := images, spends := db.spendsBelow user height } := by
  obtain ⟨images, rfl⟩ := dropSpends_eq success
  have same : db.spends.eraseAll
      ((db.spendsFrom user height).map spendsKey) =
        db.spendsBelow user height := by
    apply SortedRows.ext_mem
    intro row
    simp only [SortedRows.mem_eraseAll, mem_spendsBelow, List.mem_map,
      spendsFrom, List.mem_filter, SortedRows.mem_rows, decide_eq_true_eq]
    refine and_congr_right fun member => not_congr ?_
    constructor
    · rintro ⟨other, ⟨otherMember, late⟩, sameKey⟩
      rw [← SortedRows.eq_of_key_eq otherMember member sameKey]
      exact late
    · intro late
      exact ⟨row, ⟨member, late⟩, rfl⟩
  exact ⟨images, by rw [same]⟩

/-- Rolling the chain back cuts the chain tables and rewinds accounts. -/
theorem rollbackChain_frame {first height : BlockId}
    (success : db.rollbackChain first height = .ok next) :
    ∃ accounts accountsByHeight outputs spends images events, next =
      { db.dropBlocks first height with
        accounts := accounts
        accountsByHeight := accountsByHeight
        outputs := outputs
        spends := spends
        images := images
        events := events } := by
  obtain ⟨rolled, stepped, stored⟩ := Outcome.bind_eq_ok.mp success
  cases stored
  obtain ⟨final, folded, flushed⟩ := Outcome.bind_eq_ok.mp stepped
  cases flushed
  have walked : ∃ accounts accountsByHeight outputs spends images, final =
      { db.dropBlocks first height with
        accounts := accounts
        accountsByHeight := accountsByHeight
        outputs := outputs
        spends := spends
        images := images } := by
    refine Outcome.foldlM_preserves (fun state : Db =>
      ∃ accounts accountsByHeight outputs spends images, state =
        { db.dropBlocks first height with
          accounts := accounts
          accountsByHeight := accountsByHeight
          outputs := outputs
          spends := spends
          images := images }) ?_ ⟨_, _, _, _, _, rfl⟩ folded
    intro state entry after _member kept stepped
    obtain ⟨_, _, _, _, _, rfl⟩ := kept
    unfold rollbackAccount at stepped
    split at stepped
    · cases stepped
    obtain ⟨rolledBack, dropped, rest⟩ := Outcome.bind_eq_ok.mp stepped
    obtain ⟨images, rfl⟩ := rollbackSpends_eq dropped
    cases rest
    exact ⟨_, _, _, _, _, rfl⟩
  obtain ⟨_, _, _, _, _, rfl⟩ := walked
  exact ⟨_, _, _, _, _, _, rfl⟩

/-! ## Subaddress tables -/

private theorem major_eq (env : Env) (args : Upsert) (db : Db) (count : ℕ)
    (out : List SubaddressDict) (entry : SubaddressDict) :
    ∃ ranges indexes, (args.major env db count out entry).2 =
      { db with subaddressRanges := ranges, subaddressIndexes := indexes } := by
  simp only [Upsert.major, Upsert.store]
  split
  · exact ⟨_, _, rfl⟩
  · split <;> split <;> exact ⟨_, _, rfl⟩

private theorem majors_eq (env : Env) (args : Upsert)
    (entries : List SubaddressDict) (count : ℕ) (out : List SubaddressDict)
    (db : Db) :
    ∃ ranges indexes, (args.majors env entries count out db).2 =
      { db with subaddressRanges := ranges, subaddressIndexes := indexes } := by
  induction entries generalizing count out db with
  | nil => exact ⟨_, _, rfl⟩
  | cons entry entries induction =>
      obtain ⟨ranges, indexes, stored⟩ := major_eq env args db count out entry
      rw [Upsert.majors]
      cases passed : args.major env db count out entry with
      | mk outcome middle =>
          rw [passed] at stored
          cases stored
          cases outcome with
          | error failure => exact ⟨_, _, rfl⟩
          | ok value =>
              obtain ⟨ranges, indexes, rest⟩ :=
                induction value.1 value.2 { db with
                  subaddressRanges := ranges
                  subaddressIndexes := indexes }
              exact ⟨ranges, indexes, rest⟩

theorem doUpsert_eq (env : Env) (args : Upsert)
    (subaddrs : List SubaddressDict) (db : Db) :
    ∃ ranges indexes, (doUpsert env args subaddrs db).2 =
      { db with subaddressRanges := ranges, subaddressIndexes := indexes } := by
  unfold doUpsert
  split
  · exact ⟨_, _, rfl⟩
  · exact majors_eq env args subaddrs _ [] db

theorem doLookahead_eq (env : Env) (args : Upsert) (lookahead : AddressIndex)
    (db : Db) :
    ∃ ranges indexes, (doLookahead env args lookahead db).2 =
      { db with subaddressRanges := ranges, subaddressIndexes := indexes } := by
  unfold doLookahead
  split
  · exact ⟨_, _, rfl⟩
  split
  · exact ⟨_, _, rfl⟩
  split
  · exact ⟨_, _, rfl⟩
  split
  · exact ⟨_, _, rfl⟩
  · rename_i initial _
    obtain ⟨ranges, indexes, stored⟩ := doUpsert_eq env args initial db
    split
    all_goals
      rename_i upserted
      rw [upserted] at stored
      exact ⟨ranges, indexes, stored⟩

/-- Provisioning an account only sets its lookahead fields. -/
theorem lookaheadAccount_eq {env : Env} {db next : Db} {user final : Account}
    {lookahead : AddressIndex} {maxSubaddresses : ℕ}
    (success : lookaheadAccount env user lookahead maxSubaddresses db =
      .ok (final, next)) :
    (∃ fail, final =
      { user with lookahead := lookahead, lookaheadFail := fail }) ∧
    ∃ ranges indexes, next =
      { db with subaddressRanges := ranges, subaddressIndexes := indexes } := by
  obtain ⟨ranges, indexes, stored⟩ := doLookahead_eq env
    ⟨user.id, user.address, user.key, maxSubaddresses⟩ lookahead db
  unfold lookaheadAccount at success
  split at success
  · rename_i provisioned
    rw [provisioned] at stored
    cases success
    exact ⟨⟨_, rfl⟩, ranges, indexes, stored⟩
  · rename_i provisioned
    rw [provisioned] at stored
    split at success
    · cases success
      exact ⟨⟨_, rfl⟩, ranges, indexes, stored⟩
    · cases success

theorem provision_eq {env : Env} {db next : Db} {user final : Account}
    {lookahead : AddressIndex} {maxSubaddresses : ℕ}
    (success : provision env user lookahead maxSubaddresses db =
      .ok (final, next)) :
    (∃ lookahead fail, final =
      { user with lookahead := lookahead, lookaheadFail := fail }) ∧
    ∃ ranges indexes, next =
      { db with subaddressRanges := ranges, subaddressIndexes := indexes } := by
  unfold provision at success
  split at success
  · cases success
    exact ⟨⟨_, _, rfl⟩, _, _, rfl⟩
  · obtain ⟨fields, tables⟩ := lookaheadAccount_eq success
    exact ⟨⟨lookahead, fields⟩, tables⟩

theorem upsertSubaddresses_eq {env : Env} {db next : Db} {id : AccountId}
    {address : AccountAddress} {viewKey : SecretKey}
    {subaddrs out : List SubaddressDict} {maxSubaddr : ℕ}
    (success : upsertSubaddresses env db id address viewKey subaddrs
      maxSubaddr = .ok (next, out)) :
    ∃ ranges indexes, next =
      { db with subaddressRanges := ranges, subaddressIndexes := indexes } := by
  obtain ⟨ranges, indexes, stored⟩ := doUpsert_eq env
    ⟨id, address, viewKey, maxSubaddr⟩
    (subaddrs.insertionSort SubaddressDict.le) db
  unfold upsertSubaddresses at success
  split at success
  · cases success
  · rename_i upserted
    rw [upserted] at stored
    cases success
    exact ⟨ranges, indexes, stored⟩

/-- `update_lookahead` writes subaddress rows and, after a limit failure, the
failing height of the account. -/
theorem updateLookahead_eq {env : Env} {db next : Db}
    {address : AccountAddress} {height : BlockId} {matched : AddressIndex}
    {maxSubaddresses : ℕ} {changed : ℤ}
    (success : updateLookahead env db address height matched
      maxSubaddresses = .ok (next, changed)) :
    (∃ ranges indexes, next =
      { db with
        subaddressRanges := ranges
        subaddressIndexes := indexes }) ∨
    ∃ lookup user fail, db.findAccount? lookup = some user ∧
      ∃ ranges indexes, next =
        { db with
          subaddressRanges := ranges
          subaddressIndexes := indexes
          accounts := db.accounts.put
            (lookup.status, { user with lookaheadFail := fail }) } := by
  unfold updateLookahead at success
  split at success
  · cases success
  rename_i entry _
  split at success
  · cases success
  rename_i user located
  dsimp only at success
  split at success
  · cases success
    exact .inl ⟨_, _, rfl⟩
  have framed : ∀ outcome middle,
      (if user.lookahead.majI / user.lookahead.minI ≤ maxU32 ∧
          wrap32 (user.lookahead.majI * user.lookahead.minI) ≤
            maxSubaddresses then
        doUpsert env ⟨user.id, address, user.key, maxSubaddresses⟩
          (lookaheadWindow user.lookahead matched) db
      else (.error .maxSubaddresses, db)) = (outcome, middle) →
      ∃ ranges indexes, middle =
        { db with
          subaddressRanges := ranges
          subaddressIndexes := indexes } := by
    intro outcome middle upserted
    split at upserted
    · obtain ⟨ranges, indexes, stored⟩ := doUpsert_eq env
        ⟨user.id, address, user.key, maxSubaddresses⟩
        (lookaheadWindow user.lookahead matched) db
      rw [upserted] at stored
      exact ⟨ranges, indexes, stored⟩
    · cases upserted
      exact ⟨_, _, rfl⟩
  split at success
  · rename_i upserted
    cases success
    exact .inl (framed _ _ upserted)
  · rename_i upserted
    split at success
    · cases success
    · cases success
      obtain ⟨ranges, indexes, rfl⟩ := framed _ _ upserted
      exact .inr ⟨entry.lookup, user, _, located, ranges, indexes, rfl⟩

theorem shrinkLookahead_eq {db next : Db} {address : AccountAddress}
    {lookahead : AddressIndex}
    (success : db.shrinkLookahead address lookahead = .ok next) :
    ∃ lookup user, db.findAccount? lookup = some user ∧ next =
      { db with
        accounts := db.accounts.put
          (lookup.status, { user with lookahead := lookahead }) } := by
  unfold shrinkLookahead at success
  split at success
  · cases success
  rename_i entry _
  split at success
  · cases success
  rename_i user located
  split at success
  · cases success
  · cases success
    exact ⟨entry.lookup, user, located, rfl⟩

/-! ## Requests -/

theorem creationRequest_eq {env : Env} {clock : ℤ} {db next : Db}
    {address : AccountAddress} {key : SecretKey} {flags : AccountFlags}
    {lookahead : AddressIndex} {hooks : List WebhookNewAccount}
    (success : creationRequest env clock db address key flags lookahead =
      .ok (next, hooks)) :
    ∃ requests, next = { db with requests := requests } := by
  unfold creationRequest at success
  split at success
  · cases success
  obtain ⟨time, -, rest⟩ := Outcome.bind_eq_ok.mp success
  split at rest
  · cases rest
  dsimp only at rest
  split at rest
  · cases rest
  obtain ⟨height, -, stored⟩ := Outcome.bind_eq_ok.mp rest
  split at stored
  · cases stored
  · cases stored
    exact ⟨_, rfl⟩

theorem importRequest_eq {clock : ℤ} {db next : Db} {address : AccountAddress}
    {height : BlockId} {lookahead : AddressIndex}
    (success : importRequest clock db address height lookahead = .ok next) :
    ∃ requests, next = { db with requests := requests } := by
  obtain ⟨time, -, rest⟩ := Outcome.bind_eq_ok.mp success
  split at rest
  · cases rest
  dsimp only at rest
  split at rest
  · cases rest
  · cases rest
    exact ⟨_, rfl⟩

theorem rejectRequests_eq (db : Db) (type : Request)
    (addresses : List AccountAddress) :
    ∃ requests, (db.rejectRequests type addresses).1 =
      { db with requests := requests } := by
  refine Outcome.foldl_preserves
    (fun state : Db × List AccountAddress =>
      ∃ requests, state.1 = { db with requests := requests })
    ?_ ⟨_, rfl⟩
  intro state address _member kept
  unfold rejectRequest
  split
  · obtain ⟨requests, equality⟩ := kept
    exact ⟨_, by rw [eraseRequest, equality]⟩
  · exact kept

/-! ## Webhooks and chain tables -/

theorem addOngoingHook_eq {user : AccountId} {beginAt endAt : BlockId}
    {state final : Db × List WebhookTxConfirmation}
    {row : AccountId × WebhookEvent}
    (success : addOngoingHook user beginAt endAt state row = .ok final) :
    ∃ events, final.1 = { state.1 with events := events } := by
  unfold addOngoingHook at success
  simp only at success
  split at success
  · obtain ⟨⟨reports, finished⟩, -, stored⟩ :=
      Outcome.bind_eq_ok.mp success
    cases stored
    cases finished <;> exact ⟨_, rfl⟩
  · cases success
    exact ⟨_, rfl⟩

theorem addOngoingHooks_eq {user : AccountId} {beginAt endAt : BlockId}
    {db next : Db} {before after : List WebhookTxConfirmation}
    (success : db.addOngoingHooks user beginAt endAt before =
      .ok (next, after)) :
    ∃ events, next = { db with events := events } := by
  unfold addOngoingHooks at success
  split at success
  · cases success
    exact ⟨_, rfl⟩
  · refine Outcome.foldlM_preserves
      (fun state : Db × List WebhookTxConfirmation =>
        ∃ events, state.1 = { db with events := events })
      ?_ ⟨db.events, rfl⟩ success
    intro state row final _member stored passed
    obtain ⟨_, old⟩ := stored
    obtain ⟨events, new⟩ := addOngoingHook_eq passed
    rw [old] at new
    exact ⟨events, new⟩

private theorem appendBlockHashes_eq (db : Db) (first : BlockId)
    (chain : List Hash) :
    db.appendBlockHashes first chain =
      { db with blocks := (db.appendBlockHashes first chain).blocks } :=
  rfl

private theorem appendPow_eq (db : Db) (first : BlockId) (chain : List PowSync) :
    ∃ pows, db.appendPow first chain = { db with pows := pows } :=
  ⟨_, rfl⟩

private theorem append_eq (db : Db) (first : BlockId) (chain : List Hash) :
    ∃ pows, db.appendBlockHashes first chain =
      { db with
        blocks := (db.appendBlockHashes first chain).blocks
        pows := pows } :=
  ⟨_, rfl⟩

private theorem append_pow_eq (db : Db) (first : BlockId) (chain : List Hash)
    (pow : List PowSync) :
    ∃ pows, (db.appendBlockHashes first chain).appendPow first pow =
      { db with
        blocks := (db.appendBlockHashes first chain).blocks
        pows := pows } :=
  ⟨_, rfl⟩

private theorem self_eq (db : Db) : ∃ pows, db = { db with pows := pows } :=
  ⟨_, rfl⟩

/-- Past the last checkpoint `update` succeeds when the batch agrees with the
newest stored block it covers; it appends the hashes behind that block. -/
theorem updateChain_eq_ok {db next : Db} {height lastUpdate : BlockId}
    {chain : List Hash} {pow : List PowSync}
    (success : db.updateChain height lastUpdate chain pow = .ok next) :
    ∃ lastBlock row pows,
      db.lastBlockId = .ok lastBlock ∧ height ≤ lastBlock ∧
      row ∈ db.blocks ∧ row.id = min lastBlock lastUpdate ∧
      chain[sub64 row.id height]? = some row.hash ∧
      next = { db with
        blocks := (db.appendBlockHashes
          (wrap64 (height + sub64 row.id height + 1))
          (chain.drop (sub64 row.id height + 1))).blocks
        pows := pows } := by
  obtain ⟨lastBlock, lastFound, checked⟩ := Outcome.bind_eq_ok.mp success
  by_cases ahead : lastBlock < height
  · rw [if_pos ahead] at checked
    cases checked
  rw [if_neg ahead] at checked
  dsimp only at checked
  generalize covered : min lastBlock lastUpdate = lastSame at checked
  cases located : db.blocks.find? lastSame with
  | none =>
      rw [located] at checked
      cases checked
  | some row =>
      obtain ⟨member, keyed⟩ := SortedRows.find?_eq_some.mp located
      rw [located, ← keyed] at checked
      generalize located : sub64 row.id height = offset at checked
      cases read : chain[offset]? with
      | none =>
          rw [read] at checked
          cases checked
      | some hash =>
          rw [read] at checked
          dsimp only at checked
          by_cases same : row.hash = hash
          · rw [if_neg (by simpa using same)] at checked
            have appended : ∃ pows, next =
                { db.appendBlockHashes (wrap64 (height + offset + 1))
                    (chain.drop (offset + 1)) with pows := pows } := by
              rw [← Except.ok.inj checked]
              generalize db.appendBlockHashes _ _ = extended
              by_cases empty : pow = []
              · rw [if_pos empty]
                exact self_eq extended
              · rw [if_neg empty]
                exact appendPow_eq extended _ _
            obtain ⟨pows, equality⟩ := appended
            refine ⟨lastBlock, row, pows, lastFound,
              Nat.le_of_not_lt ahead, member, keyed.trans covered.symm,
              by rw [located, read, same], ?_⟩
            rw [equality, located, appendBlockHashes_eq]
          · rw [if_pos same] at checked
            cases checked

theorem updateHardened_eq {db next : Db} {lastUpdate : BlockId}
    {chain : List Hash}
    (success : db.updateHardened lastUpdate chain = .ok next) :
    next = db := by
  unfold updateHardened at success
  split at success
  · cases success
    rfl
  · split at success
    · cases success
    · cases success
      rfl

theorem updateBlocks_eq {env : Env} {db next : Db}
    {height lastUpdate : BlockId} {chain : List Hash} {pow : List PowSync}
    (success : updateBlocks env db height lastUpdate chain pow = .ok next) :
    ∃ blocks pows, next = { db with blocks := blocks, pows := pows } := by
  unfold updateBlocks at success
  split at success
  · obtain ⟨_, _, _, -, -, -, -, -, equality⟩ := updateChain_eq_ok success
    exact ⟨_, _, equality⟩
  · exact ⟨_, _, updateHardened_eq success⟩

theorem addWebhook_eq {env : Env} {db next : Db} {type : WebhookType}
    {address : Option AccountAddress} {event : WebhookValue}
    (success : addWebhook env db type address event = .ok next) :
    next = { db with
      webhooks := db.webhooks.put (⟨db.webhookUser address, type⟩, event) } ∧
    (type = .txConfirmation → db.webhookUser address ≠ AccountId.invalid) := by
  simp only [addWebhook] at success
  split at success
  · cases success
  split at success
  · cases success
  split at success
  · cases success
  rename_i known
  cases success
  exact ⟨rfl, fun confirmation invalid => known ⟨invalid, .inl confirmation⟩⟩

theorem clearWebhooks_eq {db next : Db} {addresses : List AccountAddress}
    (success : db.clearWebhooks addresses = .ok next) :
    ∃ webhooks events, next =
      { db with webhooks := webhooks, events := events } := by
  refine Outcome.foldlM_preserves
    (fun state => ∃ webhooks events, state =
      { db with webhooks := webhooks, events := events })
    ?_ ⟨_, _, rfl⟩ success
  intro state address final _member kept stepped
  obtain ⟨_, _, rfl⟩ := kept
  unfold clearWebhooksOf at stepped
  split at stepped
  · cases stepped
  · cases stepped
    exact ⟨_, _, rfl⟩

/-- What `sync_chain` and `sync_pow` do once their comparison has stopped:
roll back to a mismatch, then append what was not compared. -/
structure Synced (db : Db) (stop : WalkEnd) (middle next : Db) : Prop where
  rolledBack : stop.mismatch = none ∧ middle = db ∨
    ∃ row, stop.mismatch = some row ∧
      db.rollbackChain row.id stop.current = .ok middle
  next_eq : ∃ pows, next =
    { middle with
      blocks := (middle.appendBlockHashes stop.current stop.chain).blocks
      pows := pows }

theorem syncChain_ok {env : Env} {db next : Db} {height : BlockId}
    {hashes : List Hash} {regtest : Bool}
    (success : syncChain env db height hashes regtest = .ok next) :
    ∃ row chain middle, row ∈ db.blocks ∧ row.id = height ∧
      hashes = row.hash :: chain ∧
      Synced db (syncChainWalk (db.blocksAfter height) (wrap64 (height + 1))
        chain) middle next := by
  unfold syncChain at success
  split at success
  · cases success
  · cases success
  rename_i first chain row located
  obtain ⟨member, keyed⟩ := SortedRows.find?_eq_some.mp located
  split at success
  · cases success
  rename_i sameHash
  have hash_eq : row.hash = first := by simpa using sameHash
  dsimp only at success
  generalize stopped : syncChainWalk (db.blocksAfter height)
    (wrap64 (height + 1)) chain = stop at success
  split at success
  · rename_i matched
    cases success
    rw [← stopped] at matched ⊢
    exact ⟨row, chain, db, member, keyed, by rw [hash_eq],
      .inl ⟨matched, rfl⟩, append_eq _ _ _⟩
  · rename_i bad mismatch
    split at success
    · cases success
    obtain ⟨middle, rolled, stored⟩ := Outcome.bind_eq_ok.mp success
    cases stored
    rw [← stopped] at mismatch rolled ⊢
    exact ⟨row, chain, middle, member, keyed, by rw [hash_eq],
      .inr ⟨bad, mismatch, rolled⟩, append_eq _ _ _⟩

theorem syncPow_ok {env : Env} {db next : Db} {height : BlockId}
    {hashes : List Hash} {pow : List PowSync}
    (success : syncPow env db height hashes pow = .ok next) :
    ∃ row chain stop middle, row ∈ db.blocks ∧ row.id = height ∧
      hashes = row.hash :: chain ∧
      syncPowWalk env (db.blocksAfter height) (wrap64 (height + 1)) chain =
        .ok stop ∧
      Synced db stop middle next := by
  unfold syncPow at success
  split at success
  · cases success
  rename_i first chain
  split at success
  · cases success
  split at success
  · cases success
  rename_i row located
  obtain ⟨member, keyed⟩ := SortedRows.find?_eq_some.mp located
  split at success
  · cases success
  rename_i sameHash
  have hash_eq : row.hash = first := by simpa using sameHash
  obtain ⟨stop, stopped, rest⟩ := Outcome.bind_eq_ok.mp success
  obtain ⟨middle, rolled, stored⟩ := Outcome.bind_eq_ok.mp rest
  split at stored
  · cases stored
  cases stored
  refine ⟨row, chain, stop, middle, member, keyed, by rw [hash_eq], stopped,
    ?_, append_pow_eq _ _ _ _⟩
  unfold rollbackMismatch at rolled
  split at rolled
  · cases rolled
    exact .inl ⟨‹_›, rfl⟩
  · exact .inr ⟨_, ‹_›, rolled⟩

/-- A successful `update` either had nothing to do or checked the hashes, went
through the users and wrote the buffered index rows. -/
theorem update_ok {env : Env} {db next : Db} {height : BlockId}
    {chain : List Hash} {users : List ScannedAccount} {pow : List PowSync}
    {out : Updated} (success : update env db height chain users pow =
      .ok (next, out)) :
    (chain = [] ∧ next = db ∧ out = ⟨[], [], 0⟩) ∨
    (chain ≠ [] ∧ ∃ lastUpdate checked final,
      lastUpdate = wrap64 (height + (chain.length - 1)) ∧
      updateBlocks env db height lastUpdate chain pow = .ok checked ∧
      users.foldlM (updateUser height lastUpdate) ⟨checked, [], [], [], 0⟩ =
        .ok final ∧
      next = (final.flush lastUpdate).db ∧ out = final.out) := by
  unfold update at success
  split at success
  · rename_i nothing
    cases success
    exact .inl ⟨nothing.2, rfl, rfl⟩
  split at success
  · cases success
  rename_i nonempty
  split at success
  · cases success
  obtain ⟨checked, blocks, rest⟩ := Outcome.bind_eq_ok.mp success
  obtain ⟨final, folded, stored⟩ := Outcome.bind_eq_ok.mp rest
  cases stored
  exact .inr ⟨nonempty, _, checked, final, rfl, blocks, folded, rfl, rfl⟩

/-! ## Moving and adding accounts -/

theorem storeMoved_eq {current height : BlockId} {lookup : AccountLookup}
    {user : Account} {db next : Db}
    (success : db.storeMoved current height lookup user = .ok next) :
    (db.accountsByHeight.find? (toLex (current, user.id))).isSome ∧
      next = { db with
        accounts := db.accounts.put (lookup.status, user)
        accountsByHeight :=
          (db.accountsByHeight.erase (toLex (current, user.id))).put
            (height, lookup) } := by
  unfold storeMoved at success
  split at success
  · cases success
  · rename_i found
    split at success
    · cases success
    · rename_i stored
      obtain ⟨-, rfl⟩ := SortedRows.putNew_eq_some.mp stored
      cases success
      exact ⟨by rw [found]; rfl, rfl⟩

/-- Everything a successful `change_height` does. -/
structure HeightChanged (height : BlockId) (address : AccountAddress)
    (db : Db) (lookup : AccountLookup) (user moved : Account)
    (next : Db) : Prop where
  lookup_eq : (db.findByAddress? address).map AccountByAddress.lookup =
    some lookup
  account_eq : db.findAccount? lookup = some user
  moved_eq : ∃ lookahead fail, moved =
    { user.movedBack height with lookahead := lookahead, lookaheadFail := fail }
  next_eq : ∃ images ranges indexes, next =
    { db with
      accounts := db.accounts.put (lookup.status, moved)
      accountsByHeight :=
        (db.accountsByHeight.erase (toLex (user.scanHeight, user.id))).put
          (height, lookup)
      outputs := (db.rollbackOutputs user.id height).outputs
      spends := db.spendsBelow user.id height
      images := images
      subaddressRanges := ranges
      subaddressIndexes := indexes }

theorem changeHeight_ok {env : Env} {height : BlockId}
    {address : AccountAddress} {lookahead : AddressIndex}
    {maxSubaddresses : ℕ} {db next : Db}
    (success : changeHeight env height address lookahead maxSubaddresses db =
      .ok next) :
    ∃ lookup user moved,
      HeightChanged height address db lookup user moved next := by
  unfold changeHeight at success
  split at success
  · cases success
  rename_i byAddress byAddressFound
  split at success
  · cases success
  rename_i user userFound
  obtain ⟨rolledBack, dropped, rest⟩ := Outcome.bind_eq_ok.mp success
  obtain ⟨images, rfl⟩ := rollbackSpends_eq dropped
  obtain ⟨⟨moved, provisioned⟩, lookedAhead, stored⟩ :=
    Outcome.bind_eq_ok.mp rest
  obtain ⟨⟨lookahead, fail, rfl⟩, ranges, indexes, rfl⟩ :=
    provision_eq lookedAhead
  obtain ⟨-, rfl⟩ := storeMoved_eq stored
  exact ⟨byAddress.lookup, user, _,
    { lookup_eq := by rw [byAddressFound]; rfl
      account_eq := userFound
      moved_eq := ⟨lookahead, fail, rfl⟩
      next_eq := ⟨images, ranges, indexes, rfl⟩ }⟩

theorem HeightChanged.accountAt_eq {height : BlockId}
    {address : AccountAddress} {db next : Db} {lookup : AccountLookup}
    {user moved : Account}
    (changed : HeightChanged height address db lookup user moved next) :
    db.accountAt address = some user := by
  obtain ⟨entry, found, rfl⟩ := Option.map_eq_some_iff.mp changed.lookup_eq
  rw [accountAt, found]
  exact changed.account_eq

/-- A rescan keeps what each of its guarded moves keeps. -/
theorem rescan_preserves {env : Env} {guard : Db → Account → BlockId → Prop}
    (invariant : Db → Prop) {height : BlockId}
    (moves : ∀ db address lookup user moved next, invariant db →
      guard db user height →
      HeightChanged height address db lookup user moved next →
      invariant next)
    {addresses : List AccountAddress} {db next : Db}
    {found : List AccountAddress}
    (guarded : EveryMove env guard db (.rescan height addresses))
    (initial : invariant db)
    (success : rescan env db height addresses = .ok (next, found)) :
    invariant next := by
  obtain ⟨current, -, checked⟩ := Outcome.bind_eq_ok.mp success
  split at checked
  · cases checked
  refine guarded.foldlM_preserves (fun state => invariant state.1)
    ?_ initial checked
  intro state address final allowed kept stepped
  unfold rescanOf at stepped
  split at stepped
  · rename_i changed
    cases stepped
    obtain ⟨lookup, user, moved, effect⟩ := changeHeight_ok changed
    exact moves _ _ _ _ _ _ kept (allowed user effect.accountAt_eq) effect
  · cases stepped
    exact kept
  · cases stepped

/-- Accepted imports keep what each of their guarded moves keeps. -/
theorem importAccounts_preserves {env : Env}
    {guard : Db → Account → BlockId → Prop} (invariant : Db → Prop)
    (moves : ∀ db height address lookup user moved next, invariant db →
      guard db user height →
      HeightChanged height address db lookup user moved next →
      invariant next)
    (erased : ∀ db type address, invariant db →
      invariant (db.eraseRequest type address))
    {clock : ℤ} {addresses : List AccountAddress} {maxSubaddresses : ℕ}
    {db next : Db} {found : List AccountAddress}
    (guarded : EveryMove env guard db
      (.acceptRequests clock .importScan addresses maxSubaddresses))
    (initial : invariant db)
    (success : importAccounts env db addresses maxSubaddresses =
      .ok (next, found)) :
    invariant next := by
  refine guarded.foldlM_preserves (fun state => invariant state.1)
    ?_ initial success
  intro state address final allowed kept stepped
  unfold importAccount at stepped
  split at stepped
  · cases stepped
    exact kept
  rename_i info requested
  dsimp only at stepped
  split at stepped
  · rename_i changed
    cases stepped
    obtain ⟨lookup, user, moved, effect⟩ := changeHeight_ok changed
    exact moves _ _ _ _ _ _ _ (erased _ _ _ kept)
      (allowed info user requested effect.accountAt_eq) effect
  · cases stepped
    exact erased _ _ _ kept
  · cases stepped

/-- The status under which a new account is stored. -/
def Account.initialStatus (user : Account) : AccountStatus :=
  if user.flags = AccountFlags.adminAccount then .hidden else .active

/-- Everything a successful `do_add_account` does. -/
structure Added (env : Env) (user : Account) (db next : Db) : Prop where
  owner : env.secretKeyToPublicKey user.key = some user.address.viewPublic
  newAddress : ∀ entry ∈ db.accountsByAddress,
    entry.address.viewPublic ≠ user.address.viewPublic
  newAccount : ∀ row ∈ db.accounts,
    accountsKey row ≠ accountsKey (user.initialStatus, user)
  next_eq : next =
    { db with
      accountsByAddress := db.accountsByAddress.put
        ⟨user.address, ⟨user.id, user.initialStatus⟩⟩
      accountsByHeight := db.accountsByHeight.put
        (user.scanHeight, ⟨user.id, user.initialStatus⟩)
      accounts := db.accounts.put (user.initialStatus, user) }

theorem getAccountTime_eq {clock : ℤ} {time : AccountTime}
    (success : getAccountTime clock = .ok time) : time = clock.toNat := by
  unfold getAccountTime at success
  split at success
  · cases success
  · cases success
    rfl

theorem doAddAccount_ok {env : Env} {user : Account} {db next : Db}
    (success : db.doAddAccount env user = .ok next) :
    Added env user db next := by
  unfold doAddAccount at success
  split at success
  · cases success
  rename_i owned
  dsimp only at success
  split at success
  · cases success
  rename_i addressed
  obtain ⟨newAddress, rfl⟩ := SortedRows.putNew_eq_some.mp addressed
  split at success
  · cases success
  rename_i indexed
  obtain ⟨-, rfl⟩ := SortedRows.putNew_eq_some.mp indexed
  split at success
  · cases success
  rename_i stored
  obtain ⟨newAccount, rfl⟩ := SortedRows.putNew_eq_some.mp stored
  cases success
  exact ⟨by simpa using owned, newAddress, newAccount, rfl⟩

/-- The three ways one pass of `create_accounts` can go. -/
inductive AccountCreated (env : Env) (currentTime : AccountTime)
    (maxSubaddresses : ℕ) (state : Creation) (address : AccountAddress) :
    Creation → Prop where
  | missing : state.db.findRequest? .create address = none →
      AccountCreated env currentTime maxSubaddresses state address state
  | skipped {info : RequestInfo} {user : Account} {db : Db}
      {failure : Error} :
      state.db.findRequest? .create address = some info →
      provision env
        (info.account (wrap32 (state.lastId + 1)) address currentTime)
        info.lookahead maxSubaddresses
        (state.db.eraseRequest .create address) = .ok (user, db) →
      db.doAddAccount env user = .error failure →
      failure = .accountExists ∨ failure = .badViewKey →
      AccountCreated env currentTime maxSubaddresses state address
        { state with db := db }
  | added {info : RequestInfo} {user : Account} {db next : Db} :
      state.db.findRequest? .create address = some info →
      wrap32 (state.lastId + 1) ≠ AccountId.invalid →
      provision env
        (info.account (wrap32 (state.lastId + 1)) address currentTime)
        info.lookahead maxSubaddresses
        (state.db.eraseRequest .create address) = .ok (user, db) →
      Added env user db next →
      AccountCreated env currentTime maxSubaddresses state address
        ⟨next, wrap32 (state.lastId + 1), state.stored ++ [address]⟩

theorem createAccount_ok {env : Env} {currentTime : AccountTime}
    {maxSubaddresses : ℕ} {state next : Creation} {address : AccountAddress}
    (success : createAccount env currentTime maxSubaddresses state address =
      .ok next) :
    AccountCreated env currentTime maxSubaddresses state address next := by
  unfold createAccount at success
  split at success
  · cases success
    exact .missing ‹_›
  rename_i info requested
  dsimp only at success
  split at success
  · cases success
  rename_i valid
  obtain ⟨⟨user, db⟩, provisioned, rest⟩ := Outcome.bind_eq_ok.mp success
  dsimp only at rest
  split at rest
  · rename_i added
    cases rest
    exact .added requested valid provisioned (doAddAccount_ok added)
  · rename_i exists_already
    cases rest
    exact .skipped requested provisioned exists_already (.inl rfl)
  · rename_i badKey
    cases rest
    exact .skipped requested provisioned badKey (.inr rfl)
  · cases rest

/-- Everything one pass of `change_status` does when it writes. -/
structure StatusChanged (status : AccountStatus) (db : Db)
    (entry : AccountByAddress) (user : Account) (next : Db) : Prop where
  entry_mem : entry ∈ db.accountsByAddress
  account_eq : db.findAccount? entry.lookup = some user
  next_eq : next =
    { db with
      accountsByAddress := db.accountsByAddress.put
        { entry with lookup := ⟨entry.lookup.id, status⟩ }
      accounts := (db.accounts.erase
        (toLex (entry.lookup.status.toNat, entry.lookup.id))).put
          (status, user)
      accountsByHeight := db.accountsByHeight.put
        (user.scanHeight, ⟨entry.lookup.id, status⟩) }

theorem changeStatusOf_ok {status : AccountStatus} {address : AccountAddress}
    {db next : Db} {found : Bool}
    (success : changeStatusOf status db address = .ok (next, found)) :
    next = db ∨ ∃ entry user, StatusChanged status db entry user next := by
  unfold changeStatusOf at success
  split at success
  · cases success
    exact .inl rfl
  rename_i entry addressed
  dsimp only at success
  split at success
  · cases success
    exact .inl rfl
  split at success
  · cases success
  rename_i user located
  split at success
  · cases success
  rename_i stored
  obtain ⟨-, rfl⟩ := SortedRows.putNew_eq_some.mp stored
  split at success
  · cases success
  cases success
  exact .inr ⟨entry, user,
    (SortedRows.find?_eq_some.mp addressed).1, located, rfl⟩

/-! ## Storing a scan -/

/-- The rows of a scan, as membership-friendly unions. -/
theorem storeRows_eq (db : Db) (lastUpdate : BlockId) (user : ScannedAccount)
    (status : AccountStatus) (existing : Account) :
    ∃ images, db.storeRows lastUpdate user status existing =
      { db with
        accounts := db.accounts.put
          (status, { existing with scanHeight := lastUpdate })
        accountsByHeight := db.accountsByHeight.erase
          (toLex (existing.scanHeight, user.id))
        outputs := db.outputs.addAll
          (user.outputs.map fun output => (user.id, output))
        spends := db.spends.addAll
          (user.spends.map fun spend => (user.id, spend))
        images := images } := by
  rw [← bulkInsert_keep, ← bulkInsert_keep]
  exact ⟨_, rfl⟩

/-- Everything a successful `storeScan` does. -/
structure ScanStored (height lastUpdate : BlockId) (state : Updating)
    (user : ScannedAccount) (status : AccountStatus) (existing : Account)
    (next : Updating) : Prop where
  heights_eq : next.heights = state.heights ++ [⟨user.id, status⟩]
  hooks_eq :
    ((state.db.storeRows lastUpdate user status existing).checkHooks user.id
      user.outputs).addOngoingHooks user.id
        (max (wrap64 (height + 1)) (wrap64 (existing.scanHeight + 1)))
        (wrap64 (lastUpdate + 1)) state.out.confirmPubs =
      .ok (next.db, next.out.confirmPubs)

theorem storeScan_ok {height lastUpdate : BlockId} {state next : Updating}
    {user : ScannedAccount} {status : AccountStatus} {existing : Account}
    (success : storeScan height lastUpdate state user status existing =
      .ok next) :
    ScanStored height lastUpdate state user status existing next := by
  unfold storeScan at success
  split at success
  · cases success
  obtain ⟨⟨db, confirmPubs⟩, hooked, rest⟩ := Outcome.bind_eq_ok.mp success
  obtain ⟨spendPubs, -, stored⟩ := Outcome.bind_eq_ok.mp rest
  cases stored
  exact ⟨rfl, hooked⟩

/-- The tables after a stored scan; the hooks only touch `events`. -/
theorem ScanStored.db_eq {height lastUpdate : BlockId}
    {state next : Updating} {user : ScannedAccount} {status : AccountStatus}
    {existing : Account}
    (stored : ScanStored height lastUpdate state user status existing next) :
    ∃ images events, next.db =
      { state.db with
        accounts := state.db.accounts.put
          (status, { existing with scanHeight := lastUpdate })
        accountsByHeight := state.db.accountsByHeight.erase
          (toLex (existing.scanHeight, user.id))
        outputs := state.db.outputs.addAll
          (user.outputs.map fun output => (user.id, output))
        spends := state.db.spends.addAll
          (user.spends.map fun spend => (user.id, spend))
        images := images
        events := events } := by
  obtain ⟨events, hooked⟩ := addOngoingHooks_eq stored.hooks_eq
  obtain ⟨images, rows⟩ :=
    storeRows_eq state.db lastUpdate user status existing
  refine ⟨images, events, ?_⟩
  rw [hooked, rows]
  rfl

/-- One pass of `update` skips the user or stores its scan. -/
inductive UserUpdated (height lastUpdate : BlockId) (state : Updating)
    (user : ScannedAccount) : Updating → Prop where
  | skipped {next : Updating} : next.db = state.db →
      next.heights = state.heights →
      next.out.confirmPubs = state.out.confirmPubs →
      UserUpdated height lastUpdate state user next
  | stored {status : AccountStatus} {existing : Account} {next : Updating} :
      state.db.findAccount? ⟨user.id, status⟩ = some existing →
      user.scanHeight ≤ existing.scanHeight →
      existing.scanHeight < lastUpdate →
      storeScan height lastUpdate state user status existing = .ok next →
      UserUpdated height lastUpdate state user next

/-- The buffer of index rows is written when it is full. -/
def Updating.room (state : Updating) (lastUpdate : BlockId) : Updating :=
  if state.heights.length = 127 then state.flush lastUpdate else state

theorem updateUser_ok {height lastUpdate : BlockId} {state next : Updating}
    {user : ScannedAccount}
    (success : updateUser height lastUpdate state user = .ok next) :
    UserUpdated height lastUpdate (state.room lastUpdate) user next := by
  simp only [updateUser] at success
  rw [← Updating.room] at success
  generalize state.room lastUpdate = roomy at success ⊢
  split at success
  · cases success
    exact .skipped rfl rfl rfl
  split at success
  · cases success
  rename_i existing located
  split at success
  · cases success
    exact .skipped rfl rfl rfl
  split at success
  · cases success
    exact .skipped rfl rfl rfl
  · exact .stored located (Nat.le_of_not_lt ‹_›) (Nat.lt_of_not_le ‹_›) success

/-- Going through the users only touches accounts, their rows and events. -/
theorem updateUsers_frame {height lastUpdate : BlockId}
    {users : List ScannedAccount} {state final : Updating}
    (success : users.foldlM (updateUser height lastUpdate) state =
      .ok final) :
    ∃ accounts accountsByHeight outputs spends images events, final.db =
      { state.db with
        accounts := accounts
        accountsByHeight := accountsByHeight
        outputs := outputs
        spends := spends
        images := images
        events := events } := by
  refine Outcome.foldlM_preserves (fun current : Updating =>
    ∃ accounts accountsByHeight outputs spends images events, current.db =
      { state.db with
        accounts := accounts
        accountsByHeight := accountsByHeight
        outputs := outputs
        spends := spends
        images := images
        events := events }) ?_ ⟨_, _, _, _, _, _, rfl⟩ success
  intro current user next _member kept stepped
  have room : ∃ accounts accountsByHeight outputs spends images events,
      (current.room lastUpdate).db =
        { state.db with
          accounts := accounts
          accountsByHeight := accountsByHeight
          outputs := outputs
          spends := spends
          images := images
          events := events } := by
    obtain ⟨_, _, _, _, _, _, tables⟩ := kept
    unfold Updating.room
    split
    · simp only [Updating.flush, tables]
      exact ⟨_, _, _, _, _, _, rfl⟩
    · exact ⟨_, _, _, _, _, _, tables⟩
  obtain ⟨_, _, _, _, _, _, tables⟩ := room
  cases updateUser_ok stepped with
  | skipped sameDb =>
      rw [sameDb]
      exact ⟨_, _, _, _, _, _, tables⟩
  | stored _ _ _ stored =>
      obtain ⟨_, _, rows⟩ := (storeScan_ok stored).db_eq
      rw [rows, tables]
      exact ⟨_, _, _, _, _, _, rfl⟩

theorem updateUsers_eq {height lastUpdate : BlockId}
    {users : List ScannedAccount} {state final : Updating}
    (success : users.foldlM (updateUser height lastUpdate) state =
      .ok final) :
    final.db.blocks = state.db.blocks ∧
      final.db.webhooks = state.db.webhooks := by
  obtain ⟨_, _, _, _, _, _, tables⟩ := updateUsers_frame success
  rw [tables]
  exact ⟨rfl, rfl⟩

end XfoLws.Db
