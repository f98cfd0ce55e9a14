import XfoLws.Db.Agreement
import XfoLws.Db.Frames
import XfoLws.Db.SubaddressRanges

/-!
# What one account sees of the subaddress tables

The scanner looks subaddresses up, and widens their window, for one account at
a time.  Two databases that agree on the rows of one account give it the same
answers, and a window of another account is not seen.
-/

namespace XfoLws.Db

/-- Both databases hold the same account at `address`, and the same account
row, subaddress ranges and subaddress indexes under `id`. -/
structure SubaddressView (id : AccountId) (address : AccountAddress)
    (left right : Db) : Prop where
  lookup : left.findByAddress? address = right.findByAddress? address
  accounts : SortedRows.AgreeOn (fun key => (ofLex key).2 = id)
    left.accounts right.accounts
  ranges : SortedRows.AgreeOn (fun key => (ofLex key).1 = id)
    left.subaddressRanges right.subaddressRanges
  indexes : SortedRows.AgreeOn (fun key => (ofLex key).1 = id)
    left.subaddressIndexes right.subaddressIndexes

namespace SubaddressView

variable (env : Env) {args : Upsert} {id : AccountId}
  {address : AccountAddress} {left right db : Db}

theorem refl (id : AccountId) (address : AccountAddress) (db : Db) :
    SubaddressView id address db db :=
  ⟨rfl, .refl _, .refl _, .refl _⟩

theorem trans {middle : Db} (first : SubaddressView id address left middle)
    (second : SubaddressView id address middle right) :
    SubaddressView id address left right :=
  ⟨first.lookup.trans second.lookup, first.accounts.trans second.accounts,
    first.ranges.trans second.ranges, first.indexes.trans second.indexes⟩

/-! ## The account's own calls -/

private theorem count (view : SubaddressView id address left right) :
    left.subaddressCount id = right.subaddressCount id := by
  have same : left.subaddressIndexes.filter (fun row => row.1 = id) =
      right.subaddressIndexes.filter fun row => row.1 = id :=
    view.indexes.filter fun row keep => of_decide_eq_true keep
  exact congrArg (fun table => table.rows.length) same

private theorem store (view : SubaddressView id address left right)
    (major : ℕ) (newDict : IndexRanges) :
    SubaddressView id address (args.store env left major newDict)
      (args.store env right major newDict) :=
  ⟨view.lookup, view.accounts, view.ranges.put _, view.indexes.addAll _⟩

private theorem erase (view : SubaddressView id address left right)
    (unwanted : ℕ ×ₗ ℕ) :
    SubaddressView id address
      { left with subaddressRanges := left.subaddressRanges.erase unwanted }
      { right with
        subaddressRanges := right.subaddressRanges.erase unwanted } :=
  ⟨view.lookup, view.accounts, view.ranges.erase _, view.indexes⟩

private theorem major (view : SubaddressView args.id address left right)
    (count : ℕ) (out : List SubaddressDict) (entry : SubaddressDict) :
    (args.major env left count out entry).1 =
        (args.major env right count out entry).1 ∧
      SubaddressView args.id address (args.major env left count out entry).2
        (args.major env right count out entry).2 := by
  have found : left.subaddressRanges.find? (toLex (args.id, entry.1)) =
      right.subaddressRanges.find? (toLex (args.id, entry.1)) :=
    view.ranges.find? rfl
  unfold Upsert.major
  rw [found]
  split
  · exact ⟨rfl, view⟩
  split
  · split
    · exact ⟨rfl, view⟩
    · exact ⟨rfl, view.store _ _ _⟩
  · dsimp only
    split
    · exact ⟨rfl, view.erase _⟩
    · exact ⟨rfl, (view.erase _).store _ _ _⟩

private theorem majors (view : SubaddressView args.id address left right)
    (subaddrs : List SubaddressDict) (count : ℕ) (out : List SubaddressDict) :
    (args.majors env subaddrs count out left).1 =
        (args.majors env subaddrs count out right).1 ∧
      SubaddressView args.id address (args.majors env subaddrs count out left).2
        (args.majors env subaddrs count out right).2 := by
  induction subaddrs generalizing left right count out with
  | nil => exact ⟨rfl, view⟩
  | cons entry entries induction =>
      obtain ⟨same, kept⟩ := view.major env count out entry
      simp only [Upsert.majors]
      cases first : args.major env left count out entry with
      | mk outcome middle =>
          cases second : args.major env right count out entry with
          | mk other reached =>
              rw [first, second] at same kept
              dsimp only at same kept
              subst other
              cases outcome with
              | error failure => exact ⟨rfl, kept⟩
              | ok result => exact induction kept result.1 result.2

theorem doUpsert (args : Upsert)
    (view : SubaddressView args.id address left right)
    (subaddrs : List SubaddressDict) :
    (Db.doUpsert env args subaddrs left).1 =
        (Db.doUpsert env args subaddrs right).1 ∧
      SubaddressView args.id address (Db.doUpsert env args subaddrs left).2
        (Db.doUpsert env args subaddrs right).2 := by
  unfold Db.doUpsert
  rw [view.count]
  split
  · exact ⟨rfl, view⟩
  · exact view.majors env subaddrs _ []

/-- Both calls fail alike, or change as many rows and keep the view. -/
def SameUpdate (id : AccountId) (address : AccountAddress) :
    Except Error (Db × ℤ) → Except Error (Db × ℤ) → Prop
  | .error left, .error right => left = right
  | .ok left, .ok right =>
      left.2 = right.2 ∧ SubaddressView id address left.1 right.1
  | _, _ => False

private theorem recorded {status : AccountStatus} {failed : Account}
    (left right : Except Error (List SubaddressDict) × Db) :
    left.1 = right.1 → SubaddressView id address left.2 right.2 →
    SameUpdate id address
      (match left with
      | (.ok out, db) => .ok (db, min maxU32 out.length)
      | (.error failure, db) =>
          if failure ≠ .maxSubaddresses then .error failure
          else .ok ({ db with
            accounts := db.accounts.put (status, failed) }, -1))
      (match right with
      | (.ok out, db) => .ok (db, min maxU32 out.length)
      | (.error failure, db) =>
          if failure ≠ .maxSubaddresses then .error failure
          else .ok ({ db with
            accounts := db.accounts.put (status, failed) }, -1)) := by
  intro same kept
  obtain ⟨outcome, first⟩ := left
  obtain ⟨other, second⟩ := right
  dsimp only at same kept ⊢
  subst other
  cases outcome with
  | ok out => exact ⟨rfl, kept⟩
  | error failure =>
      dsimp only
      split
      · rfl
      · exact ⟨rfl, kept.lookup, kept.accounts.put _, kept.ranges,
          kept.indexes⟩

theorem updateLookahead (view : SubaddressView id address left right)
    (own : ∀ entry, left.findByAddress? address = some entry →
      entry.lookup.id = id)
    (height : BlockId) (matched : AddressIndex) (maxSubaddresses : ℕ) :
    SameUpdate id address
      (Db.updateLookahead env left address height matched maxSubaddresses)
      (Db.updateLookahead env right address height matched
        maxSubaddresses) := by
  unfold Db.updateLookahead
  rw [← view.lookup]
  cases located : left.findByAddress? address with
  | none => rfl
  | some entry =>
      have ownId := own entry located
      have stored : left.findAccount? entry.lookup =
          right.findAccount? entry.lookup := by
        unfold findAccount?
        rw [view.accounts.find? (show (ofLex (toLex (entry.lookup.status.toNat,
          entry.lookup.id))).2 = id from ownId)]
      dsimp only
      rw [← stored]
      cases found : left.findAccount? entry.lookup with
      | none => rfl
      | some user =>
          have userId : user.id = id :=
            (Agreement.findAccount_iff.mp found).2.trans ownId
          subst userId
          dsimp only
          split
          · exact ⟨rfl, view⟩
          by_cases fits : user.lookahead.majI / user.lookahead.minI ≤ maxU32 ∧
              wrap32 (user.lookahead.majI * user.lookahead.minI) ≤
                maxSubaddresses
          · simp only [if_pos fits]
            obtain ⟨same, kept⟩ := doUpsert env
              ⟨user.id, address, user.key, maxSubaddresses⟩ view
              (lookaheadWindow user.lookahead matched)
            exact recorded _ _ same kept
          · simp only [if_neg fits]
            exact recorded (.error .maxSubaddresses, left)
              (.error .maxSubaddresses, right) rfl view

/-! ## Calls of other accounts -/

private theorem major_other (address : AccountAddress) (db : Db)
    (other : args.id ≠ id) (count : ℕ)
    (out : List SubaddressDict) (entry : SubaddressDict) :
    SubaddressView id address db (args.major env db count out entry).2 := by
  have stored : ∀ middle : Db, SubaddressView id address db middle →
      ∀ newDict, SubaddressView id address db
        (args.store env middle entry.1 newDict) := by
    intro middle view newDict
    refine view.trans ⟨rfl, .refl _, .put_outside _ other,
      .addAll_outside _ ?_⟩
    intro row member inside
    obtain ⟨owner, -⟩ := mem_indexRows.mp member
    exact other (owner.symm.trans inside)
  have erased : SubaddressView id address db { db with
      subaddressRanges :=
        db.subaddressRanges.erase (toLex (args.id, entry.1)) } :=
    ⟨rfl, .refl _, .erase_outside _ other, .refl _⟩
  unfold Upsert.major
  split
  · exact .refl _ _ _
  split
  · split
    · exact .refl _ _ _
    · exact stored db (.refl _ _ _) _
  · dsimp only
    split
    · exact erased
    · exact stored _ erased _

theorem doUpsert_other (address : AccountAddress) (db : Db) (args : Upsert)
    (other : args.id ≠ id)
    (subaddrs : List SubaddressDict) :
    SubaddressView id address db (Db.doUpsert env args subaddrs db).2 := by
  unfold Db.doUpsert
  split
  · exact .refl _ _ _
  generalize db.subaddressCount args.id = count
  generalize ([] : List SubaddressDict) = reported
  rename_i within
  clear within
  induction subaddrs generalizing db count reported with
  | nil => exact .refl _ _ _
  | cons entry entries induction =>
      have passed := major_other env address db other count reported entry
      simp only [Upsert.majors]
      cases step : args.major env db count reported entry with
      | mk outcome middle =>
          rw [step] at passed
          cases outcome with
          | error failure => exact passed
          | ok result => exact passed.trans (induction middle result.1 result.2)

/-- A window of another account writes nothing the account sees. -/
theorem updateLookahead_other {other : AccountAddress}
    (apart : ∀ entry, db.findByAddress? other = some entry →
      entry.lookup.id ≠ id)
    {height : BlockId} {matched : AddressIndex} {maxSubaddresses : ℕ}
    {next : Db} {changed : ℤ}
    (success : Db.updateLookahead env db other height matched
      maxSubaddresses = .ok (next, changed)) :
    SubaddressView id address db next := by
  unfold Db.updateLookahead at success
  split at success
  · cases success
  rename_i entry located
  have otherId := apart entry located
  split at success
  · cases success
  rename_i user found
  have userId := (Agreement.findAccount_iff.mp found).2
  dsimp only at success
  split at success
  · cases success
    exact .refl _ _ _
  have upserted : ∀ outcome middle,
      (if user.lookahead.majI / user.lookahead.minI ≤ maxU32 ∧
          wrap32 (user.lookahead.majI * user.lookahead.minI) ≤
            maxSubaddresses then
        Db.doUpsert env ⟨user.id, other, user.key, maxSubaddresses⟩
          (lookaheadWindow user.lookahead matched) db
      else (.error .maxSubaddresses, db)) = (outcome, middle) →
      SubaddressView id address db middle ∧ middle.accounts = db.accounts := by
    intro outcome middle written
    split at written
    · have view := doUpsert_other env address db
        ⟨user.id, other, user.key, maxSubaddresses⟩ (userId ▸ otherId)
        (lookaheadWindow user.lookahead matched)
      obtain ⟨ranges, indexes, frame⟩ := doUpsert_eq env
        ⟨user.id, other, user.key, maxSubaddresses⟩
        (lookaheadWindow user.lookahead matched) db
      rw [written] at view frame
      dsimp only at frame
      subst middle
      exact ⟨view, rfl⟩
    · cases written
      exact ⟨.refl _ _ _, rfl⟩
  split at success
  · rename_i written
    cases success
    exact (upserted _ _ written).1
  · rename_i written
    split at success
    · cases success
    · cases success
      obtain ⟨view, accounts⟩ := upserted _ _ written
      refine view.trans ⟨rfl, ?_, .refl _, .refl _⟩
      exact .put_outside _ fun inside => otherId (userId ▸ inside)

end SubaddressView

end XfoLws.Db
