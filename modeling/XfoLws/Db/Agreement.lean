import XfoLws.Db.Frames

/-!
# Agreement of the account tables

`accounts_by_address` and `accounts_by_height` hold one row for every account
and nothing else.  While a transaction runs, some rows of the second index
may still sit in a buffer; `pending` lists them.
-/

namespace XfoLws.Db

/-- The row of `accounts_by_address` for an account. -/
def addressRow (row : AccountStatus × Account) : AccountByAddress :=
  ⟨row.2.address, ⟨row.2.id, row.1⟩⟩

/-- The row of `accounts_by_height` for an account. -/
def heightRow (row : AccountStatus × Account) : BlockId × AccountLookup :=
  (row.2.scanHeight, ⟨row.2.id, row.1⟩)

/-- Both indexes are images of `accounts`. -/
structure Agreement (pending : List (BlockId × AccountLookup)) (db : Db) :
    Prop where
  distinct : ∀ left ∈ db.accounts, ∀ right ∈ db.accounts,
    left.2.id = right.2.id → left = right
  addresses : ∀ entry, entry ∈ db.accountsByAddress ↔
    ∃ row ∈ db.accounts, addressRow row = entry
  heights : ∀ entry, entry ∈ db.accountsByHeight ∨ entry ∈ pending ↔
    ∃ row ∈ db.accounts, heightRow row = entry

namespace Agreement

variable {pending : List (BlockId × AccountLookup)} {db next : Db}

theorem findAccount_iff {lookup : AccountLookup} {user : Account} :
    db.findAccount? lookup = some user ↔
      (lookup.status, user) ∈ db.accounts ∧ user.id = lookup.id := by
  unfold findAccount?
  rw [Option.map_eq_some_iff]
  constructor
  · rintro ⟨⟨status, stored⟩, found, equality⟩
    obtain ⟨member, keyed⟩ := SortedRows.find?_eq_some.mp found
    have parts := Prod.mk.inj (toLex.injective keyed)
    have sameStatus := AccountStatus.toNat_injective parts.1
    dsimp only at equality sameStatus parts
    subst stored status
    exact ⟨member, parts.2⟩
  · rintro ⟨member, sameId⟩
    refine ⟨(lookup.status, user), ?_, rfl⟩
    exact SortedRows.find?_eq_some.mpr
      ⟨member, by rw [accountsKey, sameId]⟩

theorem heights_ne (agree : Agreement pending db)
    {row : AccountStatus × Account} (member : row ∈ db.accounts)
    {entry : BlockId × AccountLookup}
    (stored : entry ∈ db.accountsByHeight ∨ entry ∈ pending) :
    entry.2.id = row.2.id ↔ entry = heightRow row := by
  obtain ⟨other, otherMember, rfl⟩ := (agree.heights entry).mp stored
  constructor
  · intro sameId
    rw [agree.distinct other otherMember row member sameId]
  · intro equality
    rw [equality]
    rfl

theorem accounts_ne (agree : Agreement pending db)
    {row other : AccountStatus × Account} (member : row ∈ db.accounts)
    (otherMember : other ∈ db.accounts) :
    accountsKey other ≠ accountsKey row ↔ other.2.id ≠ row.2.id := by
  refine not_congr ⟨?_, ?_⟩
  · intro sameKey
    exact (Prod.mk.inj (toLex.injective sameKey)).2
  · intro sameId
    rw [agree.distinct other otherMember row member sameId]

/-- Replacing one account keeps the agreement when both index rows of its id
are replaced with it. -/
theorem replace (agree : Agreement pending db)
    {remaining : List (BlockId × AccountLookup)}
    {status : AccountStatus} {user moved : Account}
    (sameId : moved.id = user.id)
    (accounts : ∀ row, row ∈ next.accounts ↔
      row = (status, moved) ∨ (row ∈ db.accounts ∧ row.2.id ≠ user.id))
    (addresses : ∀ entry, entry ∈ next.accountsByAddress ↔
      entry = addressRow (status, moved) ∨
        (entry ∈ db.accountsByAddress ∧ entry.lookup.id ≠ user.id))
    (heights : ∀ entry,
      entry ∈ next.accountsByHeight ∨ entry ∈ remaining ↔
        entry = heightRow (status, moved) ∨
          ((entry ∈ db.accountsByHeight ∨ entry ∈ pending) ∧
            entry.2.id ≠ user.id)) :
    Agreement remaining next := by
  refine ⟨?_, ?_, ?_⟩
  · intro left leftMember right rightMember equality
    rcases (accounts left).mp leftMember with rfl | ⟨leftOld, leftOther⟩ <;>
      rcases (accounts right).mp rightMember with rfl | ⟨rightOld, rightOther⟩
    · rfl
    · exact absurd (equality.symm.trans sameId) rightOther
    · exact absurd (equality.trans sameId) leftOther
    · exact agree.distinct left leftOld right rightOld equality
  · intro entry
    rw [addresses, agree.addresses]
    constructor
    · rintro (rfl | ⟨⟨row, old, rfl⟩, other⟩)
      · exact ⟨(status, moved), (accounts _).mpr (.inl rfl), rfl⟩
      · exact ⟨row, (accounts row).mpr (.inr ⟨old, other⟩), rfl⟩
    · rintro ⟨row, new, equality⟩
      rcases (accounts row).mp new with rfl | ⟨old, other⟩
      · exact .inl equality.symm
      · exact .inr ⟨⟨row, old, equality⟩, equality ▸ other⟩
  · intro entry
    rw [heights, agree.heights]
    constructor
    · rintro (rfl | ⟨⟨row, old, rfl⟩, other⟩)
      · exact ⟨(status, moved), (accounts _).mpr (.inl rfl), rfl⟩
      · exact ⟨row, (accounts row).mpr (.inr ⟨old, other⟩), rfl⟩
    · rintro ⟨row, new, equality⟩
      rcases (accounts row).mp new with rfl | ⟨old, other⟩
      · exact .inl equality.symm
      · exact .inr ⟨⟨row, old, equality⟩, equality ▸ other⟩

theorem mem_put (agree : Agreement pending db) {status : AccountStatus}
    {user moved : Account} (member : (status, user) ∈ db.accounts)
    (sameId : moved.id = user.id) {row : AccountStatus × Account} :
    row ∈ db.accounts.put (status, moved) ↔
      row = (status, moved) ∨ (row ∈ db.accounts ∧ row.2.id ≠ user.id) := by
  rw [SortedRows.mem_put]
  refine or_congr_right (and_congr_right fun old => ?_)
  have sameKey : accountsKey (status, moved) = accountsKey (status, user) :=
    by rw [accountsKey, accountsKey, sameId]
  rw [sameKey]
  exact agree.accounts_ne member old

/-- An account keeps its row of `accounts_by_address` while its status, id and
address stay. -/
theorem mem_addresses (agree : Agreement pending db) {status : AccountStatus}
    {user moved : Account} (member : (status, user) ∈ db.accounts)
    (sameId : moved.id = user.id) (sameAddress : moved.address = user.address)
    {entry : AccountByAddress} :
    entry ∈ db.accountsByAddress ↔
      entry = addressRow (status, moved) ∨
        (entry ∈ db.accountsByAddress ∧ entry.lookup.id ≠ user.id) := by
  have sameRow : addressRow (status, moved) = addressRow (status, user) := by
    rw [addressRow, addressRow, sameId, sameAddress]
  rw [sameRow]
  constructor
  · intro stored
    by_cases own : entry.lookup.id = user.id
    · obtain ⟨row, old, rfl⟩ := (agree.addresses entry).mp stored
      exact .inl (by rw [agree.distinct row old _ member own])
    · exact .inr ⟨stored, own⟩
  · rintro (rfl | ⟨stored, -⟩)
    · exact (agree.addresses _).mpr ⟨_, member, rfl⟩
    · exact stored

theorem flush (agree : Agreement pending db) :
    Agreement [] { db with
      accountsByHeight := bulkInsert db.accountsByHeight pending false } := by
  refine ⟨agree.distinct, agree.addresses, ?_⟩
  intro entry
  rw [← agree.heights, bulkInsert_keep, SortedRows.mem_addAll]
  · simp
  · intro stored storedMember entry entryMember sameKey
    obtain ⟨row, rowMember, rfl⟩ := (agree.heights stored).mp storedMember
    obtain ⟨other, otherMember, rfl⟩ :=
      (agree.heights entry).mp (.inr entryMember)
    have sameId := (Prod.mk.inj (toLex.injective sameKey)).2
    rw [agree.distinct row rowMember other otherMember sameId]

end Agreement

end XfoLws.Db
