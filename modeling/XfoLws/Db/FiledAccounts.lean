import XfoLws.Db.AccountIndexes

/-!
# Where accounts are filed

A chain rollback finds the accounts through `accounts_by_height`: what matters
for their spends is that each has one row there, at or above all of them.
This is less than the agreement of the indexes, and holds after every rescan.
-/

namespace XfoLws.Db

/-- A row of `accounts_by_height`, stored or still in the buffer. -/
def IndexRow (pending : List (BlockId × AccountLookup)) (db : Db)
    (entry : BlockId × AccountLookup) : Prop :=
  entry ∈ db.accountsByHeight ∨ entry ∈ pending

/-- Every account has at most one index row, and every spend lies at or below
the row of its account. -/
structure Filed (pending : List (BlockId × AccountLookup)) (db : Db) :
    Prop where
  known : ∀ entry, IndexRow pending db entry →
    ∃ row ∈ db.accounts, row.2.id = entry.2.id
  single : ∀ left, IndexRow pending db left → ∀ right,
    IndexRow pending db right → left.2.id = right.2.id → left = right
  reached : ∀ row ∈ db.spends, ∃ entry, IndexRow pending db entry ∧
    entry.2.id = row.1 ∧ row.2.link.height ≤ entry.1
  ids : ∀ row ∈ db.accounts, row.2.id < AccountId.invalid

/-- Accounts may change, but none is added or removed. -/
structure SameIds (db next : Db) : Prop where
  old : ∀ row ∈ next.accounts, ∃ old ∈ db.accounts, row.2.id = old.2.id
  kept : ∀ row ∈ db.accounts, ∃ new ∈ next.accounts, new.2.id = row.2.id

section Accounts

variable {db next : Db}

theorem SameIds.of_accounts (accounts : next.accounts = db.accounts) :
    SameIds db next := by
  constructor <;> rw [accounts] <;> exact fun row member => ⟨row, member, rfl⟩

theorem SameIds.of_put {status : AccountStatus} {user moved : Account}
    (member : (status, user) ∈ db.accounts) (sameId : moved.id = user.id)
    (accounts : next.accounts = db.accounts.put (status, moved)) :
    SameIds db next := by
  constructor
  · intro row rowMember
    rw [accounts] at rowMember
    rcases SortedRows.mem_put.mp rowMember with rfl | ⟨old, -⟩
    · exact ⟨_, member, sameId⟩
    · exact ⟨row, old, rfl⟩
  · intro row rowMember
    rw [accounts]
    by_cases same : accountsKey row = accountsKey (status, moved)
    · exact ⟨_, SortedRows.mem_put.mpr (.inl rfl),
        (Prod.mk.inj (toLex.injective same)).2.symm⟩
    · exact ⟨row, SortedRows.mem_put.mpr (.inr ⟨rowMember, same⟩), rfl⟩

theorem SameIds.moved {lookup : AccountLookup} {status : AccountStatus}
    {user : Account} (member : (lookup.status, user) ∈ db.accounts)
    (sameId : user.id = lookup.id)
    (accounts : next.accounts = (db.accounts.erase
      (toLex (lookup.status.toNat, lookup.id))).put (status, user)) :
    SameIds db next := by
  constructor
  · intro row rowMember
    rw [accounts] at rowMember
    rcases SortedRows.mem_put.mp rowMember with rfl | ⟨old, -⟩
    · exact ⟨_, member, rfl⟩
    · exact ⟨row, (SortedRows.mem_erase.mp old).1, rfl⟩
  · intro row rowMember
    rw [accounts]
    by_cases own : row.2.id = user.id
    · exact ⟨_, SortedRows.mem_put.mpr (.inl rfl), own.symm⟩
    · refine ⟨row, SortedRows.mem_put.mpr (.inr
        ⟨SortedRows.mem_erase.mpr ⟨rowMember, ?_⟩, ?_⟩), rfl⟩
      · intro sameKey
        exact own ((Prod.mk.inj (toLex.injective sameKey)).2.trans sameId.symm)
      · intro sameKey
        exact own (Prod.mk.inj (toLex.injective sameKey)).2

end Accounts

namespace Filed

variable {pending remaining : List (BlockId × AccountLookup)} {db next : Db}

theorem relabel (filed : Filed pending db) (sameIds : SameIds db next)
    (heights : next.accountsByHeight = db.accountsByHeight)
    (spends : next.spends = db.spends) : Filed pending next := by
  have rows : ∀ entry, IndexRow pending next entry ↔
      IndexRow pending db entry := by
    intro entry
    rw [IndexRow, IndexRow, heights]
  refine ⟨?_, ?_, ?_, ?_⟩
  · intro entry stored
    obtain ⟨row, member, owner⟩ := filed.known entry ((rows entry).mp stored)
    obtain ⟨new, newMember, same⟩ := sameIds.kept row member
    exact ⟨new, newMember, same.trans owner⟩
  · simpa only [rows] using filed.single
  · simpa only [rows, spends] using filed.reached
  · intro row member
    obtain ⟨old, oldMember, same⟩ := sameIds.old row member
    rw [same]
    exact filed.ids old oldMember

/-- Replacing the index row of one account, with its spends at or below the
new one. -/
theorem replace (filed : Filed pending db) (sameIds : SameIds db next)
    {entry : BlockId × AccountLookup}
    (known : ∃ row ∈ db.accounts, row.2.id = entry.2.id)
    (rows : ∀ other, IndexRow remaining next other ↔
      other = entry ∨ (IndexRow pending db other ∧ other.2.id ≠ entry.2.id))
    (own : ∀ row ∈ next.spends, row.1 = entry.2.id →
      row.2.link.height ≤ entry.1)
    (others : ∀ row ∈ next.spends, row.1 ≠ entry.2.id → row ∈ db.spends) :
    Filed remaining next := by
  refine ⟨?_, ?_, ?_, ?_⟩
  · intro other stored
    have old : ∃ row ∈ db.accounts, row.2.id = other.2.id := by
      rcases (rows other).mp stored with rfl | ⟨before, -⟩
      · exact known
      · exact filed.known other before
    obtain ⟨row, member, same⟩ := old
    obtain ⟨new, newMember, newId⟩ := sameIds.kept row member
    exact ⟨new, newMember, newId.trans same⟩
  · intro left leftRow right rightRow same
    rcases (rows left).mp leftRow with rfl | ⟨leftOld, leftOther⟩ <;>
      rcases (rows right).mp rightRow with rfl | ⟨rightOld, rightOther⟩
    · rfl
    · exact absurd same.symm rightOther
    · exact absurd same leftOther
    · exact filed.single left leftOld right rightOld same
  · intro row member
    by_cases same : row.1 = entry.2.id
    · exact ⟨entry, (rows entry).mpr (.inl rfl), same.symm,
        own row member same⟩
    · obtain ⟨other, stored, owner, below⟩ :=
        filed.reached row (others row member same)
      refine ⟨other, (rows other).mpr (.inr ⟨stored, ?_⟩), owner, below⟩
      rwa [owner]
  · intro row member
    obtain ⟨old, oldMember, same⟩ := sameIds.old row member
    rw [same]
    exact filed.ids old oldMember

theorem flush (filed : Filed pending db) :
    Filed [] { db with
      accountsByHeight := bulkInsert db.accountsByHeight pending false } := by
  have rows : ∀ entry, IndexRow [] { db with
      accountsByHeight := bulkInsert db.accountsByHeight pending false }
        entry ↔ IndexRow pending db entry := by
    intro entry
    simp only [IndexRow, List.not_mem_nil, or_false, bulkInsert_keep]
    rw [SortedRows.mem_addAll]
    intro stored storedMember other otherMember sameKey
    exact filed.single stored storedMember other (.inr otherMember)
      (Prod.mk.inj (toLex.injective sameKey)).2
  refine ⟨?_, ?_, ?_, filed.ids⟩
  · simpa only [rows] using filed.known
  · simpa only [rows] using filed.single
  · simpa only [rows] using filed.reached

/-- Replacing the index row that is stored for an account. -/
theorem refile (filed : Filed pending db) (sameIds : SameIds db next)
    {old : BlockId × AccountLookup} (new : BlockId × AccountLookup)
    (stored : old ∈ db.accountsByHeight)
    (sameId : new.2.id = old.2.id) (unbuffered : ∀ entry ∈ pending,
      entry.2.id ≠ old.2.id)
    (heights : next.accountsByHeight =
      (db.accountsByHeight.erase (accountsByHeightKey old)).put new)
    (own : ∀ row ∈ next.spends, row.1 = new.2.id →
      row.2.link.height ≤ new.1)
    (others : ∀ row ∈ next.spends, row.1 ≠ new.2.id → row ∈ db.spends) :
    Filed pending next := by
  have known : ∃ row ∈ db.accounts, row.2.id = new.2.id := by
    rw [sameId]
    exact filed.known old (.inl stored)
  refine filed.replace sameIds known ?_ own others
  intro other
  unfold IndexRow
  rw [heights, SortedRows.mem_put, SortedRows.mem_erase, sameId]
  constructor
  · rintro ((rfl | ⟨⟨member, different⟩, -⟩) | buffered)
    · exact .inl rfl
    · refine .inr ⟨.inl member, fun same => different ?_⟩
      rw [filed.single other (.inl member) old (.inl stored) same]
    · exact .inr ⟨.inr buffered, unbuffered other buffered⟩
  · rintro (rfl | ⟨member | buffered, different⟩)
    · exact .inl (.inl rfl)
    · refine .inl (.inr ⟨⟨member, ?_⟩, ?_⟩)
      · intro sameKey
        exact different (Prod.mk.inj (toLex.injective sameKey)).2
      · intro sameKey
        exact different
          ((Prod.mk.inj (toLex.injective sameKey)).2.trans sameId)
    · exact .inr buffered

theorem buffer (filed : Filed pending db) (sameIds : SameIds db next)
    {old : BlockId × AccountLookup} (new : BlockId × AccountLookup)
    (stored : old ∈ db.accountsByHeight)
    (sameId : new.2.id = old.2.id) (unbuffered : ∀ entry ∈ pending,
      entry.2.id ≠ old.2.id)
    (heights : next.accountsByHeight =
      db.accountsByHeight.erase (accountsByHeightKey old))
    (own : ∀ row ∈ next.spends, row.1 = new.2.id →
      row.2.link.height ≤ new.1)
    (others : ∀ row ∈ next.spends, row.1 ≠ new.2.id → row ∈ db.spends) :
    Filed (pending ++ [new]) next := by
  have known : ∃ row ∈ db.accounts, row.2.id = new.2.id := by
    rw [sameId]
    exact filed.known old (.inl stored)
  refine filed.replace sameIds known ?_ own others
  intro other
  unfold IndexRow
  rw [heights, SortedRows.mem_erase, sameId, List.mem_append,
    List.mem_singleton]
  constructor
  · rintro (⟨member, different⟩ | buffered | rfl)
    · refine .inr ⟨.inl member, fun same => different ?_⟩
      rw [filed.single other (.inl member) old (.inl stored) same]
    · exact .inr ⟨.inr buffered, unbuffered other buffered⟩
    · exact .inl rfl
  · rintro (rfl | ⟨member | buffered, different⟩)
    · exact .inr (.inr rfl)
    · refine .inl ⟨member, fun sameKey => different ?_⟩
      exact (Prod.mk.inj (toLex.injective sameKey)).2
    · exact .inr (.inl buffered)

theorem add {env : Env} {user : Account} (filed : Filed [] db)
    (fresh : ∀ row ∈ db.accounts, row.2.id ≠ user.id)
    (valid : user.id < AccountId.invalid) (added : Added env user db next) :
    Filed [] next := by
  obtain rfl := added.next_eq
  have unknown : ∀ entry ∈ db.accountsByHeight, entry.2.id ≠ user.id := by
    intro entry member same
    obtain ⟨row, rowMember, owner⟩ := filed.known entry (.inl member)
    exact fresh row rowMember (owner.trans same)
  have rows : ∀ entry, IndexRow [] { db with
      accountsByAddress := db.accountsByAddress.put
        ⟨user.address, ⟨user.id, user.initialStatus⟩⟩
      accountsByHeight := db.accountsByHeight.put
        (user.scanHeight, ⟨user.id, user.initialStatus⟩)
      accounts := db.accounts.put (user.initialStatus, user) } entry ↔
      entry = (user.scanHeight, ⟨user.id, user.initialStatus⟩) ∨
        entry ∈ db.accountsByHeight := by
    intro entry
    simp only [IndexRow, List.not_mem_nil, or_false, SortedRows.mem_put]
    refine or_congr_right (and_iff_left_of_imp fun member sameKey => ?_)
    exact unknown entry member (Prod.mk.inj (toLex.injective sameKey)).2
  have kept : ∀ row ∈ db.accounts,
      row ∈ db.accounts.put (user.initialStatus, user) := by
    intro row member
    refine SortedRows.mem_put.mpr (.inr ⟨member, fun sameKey => ?_⟩)
    exact fresh row member (Prod.mk.inj (toLex.injective sameKey)).2
  refine ⟨?_, ?_, ?_, ?_⟩
  · intro entry stored
    rcases (rows entry).mp stored with rfl | member
    · exact ⟨_, SortedRows.mem_put.mpr (.inl rfl), rfl⟩
    · obtain ⟨row, rowMember, owner⟩ := filed.known entry (.inl member)
      exact ⟨row, kept row rowMember, owner⟩
  · intro left leftRow right rightRow same
    rcases (rows left).mp leftRow with rfl | leftOld <;>
      rcases (rows right).mp rightRow with rfl | rightOld
    · rfl
    · exact absurd same.symm (unknown right rightOld)
    · exact absurd same (unknown left leftOld)
    · exact filed.single left (.inl leftOld) right (.inl rightOld) same
  · intro row member
    obtain ⟨entry, stored, owner, below⟩ := filed.reached row member
    have indexed : entry ∈ db.accountsByHeight := by
      simpa [IndexRow] using stored
    exact ⟨entry, (rows entry).mpr (.inr indexed), owner, below⟩
  · intro row member
    rcases SortedRows.mem_put.mp member with rfl | ⟨old, -⟩
    · exact valid
    · exact filed.ids row old

end Filed

end XfoLws.Db
