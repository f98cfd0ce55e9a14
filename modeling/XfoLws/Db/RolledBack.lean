import XfoLws.Db.Agreement

/-!
# The effect of a chain rollback

When the account tables agree, the walk of `rollback_accounts` over
`accounts_by_height` reaches every account scanned to the given height or
above, and its rows from that height on are removed.
-/

namespace XfoLws.Db

/-- An account after a rollback of the chain to `height`. -/
def Account.rolledBack (height : BlockId) (user : Account) : Account :=
  if height ≤ user.scanHeight then
    { user with
      scanHeight := rollbackHeight height
      startHeight := min (rollbackHeight height) user.startHeight }
  else user

@[simp] theorem Account.rolledBack_id (height : BlockId) (user : Account) :
    (user.rolledBack height).id = user.id := by
  unfold rolledBack
  split <;> rfl

@[simp] theorem Account.rolledBack_address (height : BlockId)
    (user : Account) : (user.rolledBack height).address = user.address := by
  unfold rolledBack
  split <;> rfl

/-- The account `id` was scanned to `height` or above. -/
def ScannedTo (db : Db) (height : BlockId) (id : AccountId) : Prop :=
  ∃ row ∈ db.accounts, row.2.id = id ∧ height ≤ row.2.scanHeight

/-- What `rollback_accounts` does to agreeing tables. -/
structure RolledBack (height : BlockId) (db next : Db) : Prop where
  accounts : ∀ row, row ∈ next.accounts ↔
    ∃ old ∈ db.accounts, row = (old.1, old.2.rolledBack height)
  outputs : ∀ row, row ∈ next.outputs ↔ row ∈ db.outputs ∧
    ¬ (height ≤ row.2.link.height ∧ db.ScannedTo height row.1)
  spends : ∀ row, row ∈ next.spends ↔ row ∈ db.spends ∧
    ¬ (height ≤ row.2.link.height ∧ db.ScannedTo height row.1)
  agreement : Agreement [] next
  frame : ∃ accounts accountsByHeight outputs spends images, next =
    { db with
      accounts := accounts
      accountsByHeight := accountsByHeight
      outputs := outputs
      spends := spends
      images := images }

/-- The state of the walk before the rows `rest` of the index. -/
private structure Walking (height : BlockId) (db state : Db)
    (rest : List (BlockId × AccountLookup)) : Prop where
  remaining : ∀ entry ∈ rest, entry ∈ db.accountsByHeight ∧ height ≤ entry.1
  fresh : rest.Nodup
  accounts : ∀ row, row ∈ state.accounts ↔ ∃ old ∈ db.accounts,
    row = (old.1, if heightRow old ∈ rest then old.2
      else old.2.rolledBack height)
  outputs : ∀ row, row ∈ state.outputs ↔ row ∈ db.outputs ∧
    ¬ (height ≤ row.2.link.height ∧ ∃ old ∈ db.accounts,
      old.2.id = row.1 ∧ height ≤ old.2.scanHeight ∧ heightRow old ∉ rest)
  spends : ∀ row, row ∈ state.spends ↔ row ∈ db.spends ∧
    ¬ (height ≤ row.2.link.height ∧ ∃ old ∈ db.accounts,
      old.2.id = row.1 ∧ height ≤ old.2.scanHeight ∧ heightRow old ∉ rest)
  heights : ∀ entry, entry ∈ state.accountsByHeight ↔
    entry ∈ db.accountsByHeight ∧ (height ≤ entry.1 → entry ∈ rest)
  frame : ∃ accounts accountsByHeight outputs spends images, state =
    { db with
      accounts := accounts
      accountsByHeight := accountsByHeight
      outputs := outputs
      spends := spends
      images := images }

private theorem mem_scannedFrom {db : Db} {height : BlockId}
    {entry : BlockId × AccountLookup} :
    entry ∈ db.scannedFrom height ↔
      entry ∈ db.accountsByHeight ∧ height ≤ entry.1 := by
  simp [scannedFrom, SortedRows.mem_rows]

private theorem Walking.start {height : BlockId} {db : Db}
    (agree : Agreement [] db) :
    Walking height db db (db.scannedFrom height) where
  remaining := fun entry member => mem_scannedFrom.mp member
  fresh := db.accountsByHeight.rows_nodup.filter _
  accounts := by
    intro row
    have unchanged : ∀ old ∈ db.accounts,
        (if heightRow old ∈ db.scannedFrom height then old.2
          else old.2.rolledBack height) = old.2 := by
      intro old member
      have indexed : heightRow old ∈ db.accountsByHeight := by
        simpa using (agree.heights _).mpr ⟨old, member, rfl⟩
      by_cases late : height ≤ old.2.scanHeight
      · rw [if_pos (mem_scannedFrom.mpr ⟨indexed, late⟩)]
      · rw [Account.rolledBack, if_neg late, ite_self]
    constructor
    · intro member
      exact ⟨row, member, by rw [unchanged row member]⟩
    · rintro ⟨old, member, equality⟩
      rw [equality, unchanged old member]
      exact member
  outputs := by
    intro row
    refine ⟨fun member => ⟨member, ?_⟩, fun pair => pair.1⟩
    rintro ⟨_, old, member, _, late, absent⟩
    have indexed : heightRow old ∈ db.accountsByHeight := by
      simpa using (agree.heights _).mpr ⟨old, member, rfl⟩
    exact absent (mem_scannedFrom.mpr ⟨indexed, late⟩)
  spends := by
    intro row
    refine ⟨fun member => ⟨member, ?_⟩, fun pair => pair.1⟩
    rintro ⟨_, old, member, _, late, absent⟩
    have indexed : heightRow old ∈ db.accountsByHeight := by
      simpa using (agree.heights _).mpr ⟨old, member, rfl⟩
    exact absent (mem_scannedFrom.mpr ⟨indexed, late⟩)
  heights := by
    intro entry
    refine ⟨fun member => ⟨member, ?_⟩, fun pair => pair.1⟩
    intro late
    exact mem_scannedFrom.mpr ⟨member, late⟩
  frame := ⟨_, _, _, _, _, rfl⟩

/-- Everything one pass of the walk does. -/
private theorem rollbackAccount_ok {height : BlockId} {state next : Db}
    {entry : BlockId × AccountLookup}
    (success : rollbackAccount height state entry = .ok next) :
    ∃ user images, (entry.2.status, user) ∈ state.accounts ∧
      user.id = entry.2.id ∧ next =
      { state with
        accounts := state.accounts.put (entry.2.status,
          { user with
            scanHeight := rollbackHeight height
            startHeight := min (rollbackHeight height) user.startHeight })
        outputs := (state.rollbackOutputs user.id height).outputs
        spends := state.spendsBelow user.id height
        images := images
        accountsByHeight :=
          state.accountsByHeight.erase (accountsByHeightKey entry) } := by
  unfold rollbackAccount at success
  split at success
  · cases success
  rename_i status user found
  obtain ⟨rolledBack, dropped, rest⟩ := Outcome.bind_eq_ok.mp success
  obtain ⟨images, rfl⟩ := rollbackSpends_eq dropped
  cases rest
  have located : state.findAccount? entry.2 = some user := by
    unfold findAccount?
    rw [found]
    rfl
  obtain ⟨member, sameId⟩ := Agreement.findAccount_iff.mp located
  exact ⟨user, images, member, sameId, rfl⟩

private theorem removed_iff {stored late seen own : Prop} :
    (stored ∧ ¬ (late ∧ seen)) ∧ ¬ (own ∧ late) ↔
      stored ∧ ¬ (late ∧ (seen ∨ own)) := by
  tauto

private theorem Walking.step {height : BlockId} {db state next : Db}
    {entry : BlockId × AccountLookup}
    {rest : List (BlockId × AccountLookup)} (agree : Agreement [] db)
    (walking : Walking height db state (entry :: rest))
    (success : rollbackAccount height state entry = .ok next) :
    Walking height db next rest := by
  obtain ⟨user, images, member, sameId, rfl⟩ := rollbackAccount_ok success
  obtain ⟨indexed, late⟩ := walking.remaining entry (by simp)
  obtain ⟨absent, fresh⟩ := List.nodup_cons.mp walking.fresh
  obtain ⟨old, oldMember, rfl⟩ := (agree.heights entry).mp (.inl indexed)
  -- the account found is the one the entry was written for, still untouched
  obtain ⟨found, foundMember, equality⟩ := (walking.accounts _).mp member
  obtain ⟨-, userEq⟩ := Prod.mk.inj equality
  have foundId : found.2.id = old.2.id := by
    have same : user.id = old.2.id := sameId
    rw [← same, userEq]
    split <;> simp
  obtain rfl := agree.distinct found foundMember old oldMember foundId
  rw [if_pos (by simp)] at userEq
  subst user
  have rolled : found.2.rolledBack height =
      { found.2 with
        scanHeight := rollbackHeight height
        startHeight := min (rollbackHeight height) found.2.startHeight } :=
    if_pos late
  have otherEntry : ∀ other ∈ db.accounts,
      heightRow other = heightRow found ↔ other = found := by
    intro other otherMember
    refine ⟨fun same => ?_, fun same => by rw [same]⟩
    exact agree.distinct other otherMember found oldMember
      (congrArg (fun entry => entry.2.id) same)
  have removed : ∀ id, (∃ other ∈ db.accounts, other.2.id = id ∧
      height ≤ other.2.scanHeight ∧ heightRow other ∉ rest) ↔
      (∃ other ∈ db.accounts, other.2.id = id ∧
        height ≤ other.2.scanHeight ∧
          heightRow other ∉ heightRow found :: rest) ∨ id = found.2.id := by
    intro id
    constructor
    · rintro ⟨other, otherMember, own, otherLate, unseen⟩
      by_cases same : other = found
      · exact .inr (by rw [← own, same])
      · refine .inl ⟨other, otherMember, own, otherLate, ?_⟩
        simp [otherEntry other otherMember, same, unseen]
    · rintro (⟨other, otherMember, own, otherLate, unseen⟩ | rfl)
      · exact ⟨other, otherMember, own, otherLate,
          fun seen => unseen (List.mem_cons_of_mem _ seen)⟩
      · exact ⟨found, oldMember, rfl, late, absent⟩
  refine ⟨?_, fresh, ?_, ?_, ?_, ?_, ?_⟩
  · intro other otherMember
    exact walking.remaining other (List.mem_cons_of_mem _ otherMember)
  · intro row
    rw [SortedRows.mem_put, walking.accounts]
    constructor
    · rintro (rfl | ⟨⟨other, otherMember, rfl⟩, different⟩)
      · exact ⟨found, oldMember, by rw [if_neg absent, rolled]; rfl⟩
      · have notFound : other ≠ found := by
          intro same
          subst other
          exact different (by rw [if_pos (by simp)]; rfl)
        refine ⟨other, otherMember, ?_⟩
        simp [otherEntry other otherMember, notFound]
    · rintro ⟨other, otherMember, equality⟩
      by_cases same : other = found
      · subst other
        rw [if_neg absent, rolled] at equality
        exact .inl equality
      · refine .inr ⟨⟨other, otherMember, ?_⟩, ?_⟩
        · simpa [otherEntry other otherMember, same] using equality
        · intro sameKey
          have own : row.2.id = found.2.id :=
            (Prod.mk.inj (toLex.injective sameKey)).2
          refine same (agree.distinct other otherMember found oldMember ?_)
          rw [← own, equality]
          split <;> simp
  · intro row
    rw [mem_rollbackOutputs, walking.outputs, removed]
    exact removed_iff
  · intro row
    rw [mem_spendsBelow, walking.spends, removed]
    exact removed_iff
  · intro other
    rw [SortedRows.mem_erase, walking.heights]
    constructor
    · rintro ⟨⟨stored, seen⟩, different⟩
      refine ⟨stored, fun otherLate => ?_⟩
      rcases List.mem_cons.mp (seen otherLate) with same | later
      · exact absurd (by rw [same]) different
      · exact later
    · rintro ⟨stored, seen⟩
      refine ⟨⟨stored, fun otherLate =>
        List.mem_cons_of_mem _ (seen otherLate)⟩, ?_⟩
      intro sameKey
      have same := SortedRows.eq_of_key_eq stored indexed sameKey
      exact absent (same ▸ seen (same ▸ late))
  · obtain ⟨_, _, _, _, _, rfl⟩ := walking.frame
    exact ⟨_, _, _, _, _, rfl⟩

/-- The index rows after the walk: those below `height`, and the buffered ones
of the accounts it moved. -/
private theorem rolledBack_heights {height : BlockId} {db walked : Db}
    (agree : Agreement [] db)
    (accounts : ∀ row, row ∈ walked.accounts ↔
      ∃ old ∈ db.accounts, row = (old.1, old.2.rolledBack height))
    {entry : BlockId × AccountLookup} :
    (entry ∈ db.accountsByHeight ∧ (height ≤ entry.1 → entry ∈ [])) ∨
        entry ∈ (db.scannedFrom height).map
          (fun entry => (rollbackHeight height, entry.2)) ↔
      ∃ row ∈ walked.accounts, heightRow row = entry := by
  have indexed : ∀ entry, entry ∈ db.accountsByHeight ↔
      ∃ row ∈ db.accounts, heightRow row = entry := by
    intro entry
    simpa using agree.heights entry
  have moved : ∀ old : AccountStatus × Account,
      heightRow (old.1, old.2.rolledBack height) =
        if height ≤ old.2.scanHeight then
          (rollbackHeight height, (heightRow old).2)
        else heightRow old := by
    intro old
    unfold Account.rolledBack
    split <;> rfl
  constructor
  · rintro (⟨stored, early⟩ | buffered)
    · obtain ⟨old, member, rfl⟩ := (indexed entry).mp stored
      have below : ¬ height ≤ old.2.scanHeight := fun late =>
        List.not_mem_nil (early late)
      exact ⟨_, (accounts _).mpr ⟨old, member, rfl⟩,
        by rw [moved, if_neg below]⟩
    · obtain ⟨other, otherMember, rfl⟩ := List.mem_map.mp buffered
      obtain ⟨stored, late⟩ := mem_scannedFrom.mp otherMember
      obtain ⟨old, member, rfl⟩ := (indexed other).mp stored
      exact ⟨_, (accounts _).mpr ⟨old, member, rfl⟩,
        by rw [moved, if_pos (show height ≤ old.2.scanHeight from late)]⟩
  · rintro ⟨row, rowMember, equality⟩
    obtain ⟨old, member, rfl⟩ := (accounts row).mp rowMember
    have stored := (indexed (heightRow old)).mpr ⟨old, member, rfl⟩
    rw [moved] at equality
    by_cases late : height ≤ old.2.scanHeight
    · rw [if_pos late] at equality
      exact .inr (List.mem_map.mpr
        ⟨heightRow old, mem_scannedFrom.mpr ⟨stored, late⟩, equality⟩)
    · rw [if_neg late] at equality
      subst entry
      exact .inl ⟨stored, fun contradiction => absurd contradiction late⟩

theorem rollbackAccounts_ok {height : BlockId} {db next : Db}
    (agree : Agreement [] db)
    (success : db.rollbackAccounts height = .ok next) :
    RolledBack height db next := by
  obtain ⟨walked, folded, stored⟩ := Outcome.bind_eq_ok.mp success
  cases stored
  have walking : Walking height db walked [] :=
    Outcome.foldlM_consumes (Walking height db)
      (fun _ _ _ _ before stepped => before.step agree stepped)
      (Walking.start agree) folded
  have accounts : ∀ row, row ∈ walked.accounts ↔
      ∃ old ∈ db.accounts, row = (old.1, old.2.rolledBack height) := by
    intro row
    simpa using walking.accounts row
  refine ⟨accounts, ?_, ?_, ?_, ?_⟩
  · intro row
    simpa [ScannedTo] using walking.outputs row
  · intro row
    simpa [ScannedTo] using walking.spends row
  · have walkedAgree : Agreement ((db.scannedFrom height).map fun entry =>
        (rollbackHeight height, entry.2)) walked := by
      refine ⟨?_, ?_, ?_⟩
      · intro left leftMember right rightMember sameId
        obtain ⟨leftOld, leftStored, rfl⟩ := (accounts left).mp leftMember
        obtain ⟨rightOld, rightStored, rfl⟩ := (accounts right).mp rightMember
        rw [agree.distinct leftOld leftStored rightOld rightStored
          (by simpa using sameId)]
      · intro entry
        have sameAddresses :
            walked.accountsByAddress = db.accountsByAddress := by
          obtain ⟨_, _, _, _, _, rfl⟩ := walking.frame
          rfl
        rw [sameAddresses, agree.addresses]
        constructor
        · rintro ⟨old, member, equality⟩
          exact ⟨_, (accounts _).mpr ⟨old, member, rfl⟩,
            by simpa [addressRow] using equality⟩
        · rintro ⟨row, member, equality⟩
          obtain ⟨old, stored, rfl⟩ := (accounts row).mp member
          exact ⟨old, stored, by simpa [addressRow] using equality⟩
      · intro entry
        rw [walking.heights]
        exact rolledBack_heights agree accounts
    exact walkedAgree.flush
  · obtain ⟨_, _, _, _, _, rfl⟩ := walking.frame
    exact ⟨_, _, _, _, _, rfl⟩

/-- What `rollback_chain` does to agreeing tables when the blocks cursor
stands on `first`. -/
structure ChainRolledBack (first height : BlockId) (db next : Db) : Prop where
  accounts : ∀ row, row ∈ next.accounts ↔
    ∃ old ∈ db.accounts, row = (old.1, old.2.rolledBack height)
  outputs : ∀ row, row ∈ next.outputs ↔ row ∈ db.outputs ∧
    ¬ (height ≤ row.2.link.height ∧ db.ScannedTo height row.1)
  spends : ∀ row, row ∈ next.spends ↔ row ∈ db.spends ∧
    ¬ (height ≤ row.2.link.height ∧ db.ScannedTo height row.1)
  agreement : Agreement [] next
  frame : ∃ pows accounts accountsByHeight outputs spends images, next =
    { db with
      blocks := db.blocks.filter fun row => row.id < first
      pows := pows
      accounts := accounts
      accountsByHeight := accountsByHeight
      outputs := outputs
      spends := spends
      images := images
      events := (db.rollbackEvents height).events }

theorem rollbackChain_ok {first height : BlockId} {db next : Db}
    (agree : Agreement [] db)
    (success : db.rollbackChain first height = .ok next) :
    ChainRolledBack first height db next := by
  obtain ⟨rolled, stepped, stored⟩ := Outcome.bind_eq_ok.mp success
  cases stored
  have trimmed : Agreement [] (db.dropBlocks first height) :=
    ⟨agree.distinct, agree.addresses, agree.heights⟩
  have effect := rollbackAccounts_ok trimmed stepped
  refine ⟨effect.accounts, effect.outputs, effect.spends, ?_, ?_⟩
  · exact ⟨effect.agreement.distinct, effect.agreement.addresses,
      effect.agreement.heights⟩
  · obtain ⟨_, _, _, _, _, rfl⟩ := effect.frame
    exact ⟨_, _, _, _, _, _, rfl⟩

end XfoLws.Db
