import XfoLws.Db.SubaddressRanges
import XfoLws.Db.AccountIndexes
import Mathlib.Data.Nat.Pairing

/-!
# Agreement of the subaddress tables

`subaddress_ranges` and `subaddress_indexes` hold the same indexes as long as
no `max_subaddresses` that a caller of `do_upsert` turns into success hits a
major index with stored ranges: `do_upsert` takes the row out before it knows
whether the merged ranges fit.
-/

namespace XfoLws.Db

/-- The pairs of tables say the same about every account. -/
def RangesAgree (db : Db) : Prop :=
  ∀ id index, db.InRanges id index ↔ db.InIndexes id index

/-- The addresses and view keys under which rows of an account are
derived. -/
abbrev Bases := AccountId → AccountAddress → SecretKey → Prop

/-- A spend key derived for an account tells its index. -/
def Bases.Injective (bases : Bases) (env : Env) : Prop :=
  ∀ id left leftKey right rightKey (first second : AddressIndex),
    bases id left leftKey → bases id right rightKey →
    first.getSpendPublic env left leftKey =
      second.getSpendPublic env right rightKey → first = second

/-- The first major that goes over the limit has no ranges yet. -/
def Upsert.fitsStored (args : Upsert) (db : Db) :
    ℕ → List SubaddressDict → Bool
  | _, [] => true
  | count, entry :: entries =>
      match args.counted db count entry with
      | none =>
          (db.subaddressRanges.find? (toLex (args.id, entry.1))).isNone
      | some count => args.fitsStored db count entries

/-- `do_upsert` does not stop at a major that has ranges. -/
def Upsert.KeepsRanges (args : Upsert) (subaddrs : List SubaddressDict)
    (db : Db) : Prop :=
  args.maxSubaddr < db.subaddressCount args.id ∨
    args.fitsStored db (db.subaddressCount args.id) subaddrs = true

instance (args : Upsert) (subaddrs : List SubaddressDict) (db : Db) :
    Decidable (args.KeepsRanges subaddrs db) :=
  inferInstanceAs (Decidable (_ ∨ _))

/-- The tables agree, no stored range is empty, and every key is derived from
its index under a base of the account. -/
structure RangesKept (env : Env) (bases : Bases) (db : Db) : Prop where
  agree : RangesAgree db
  proper : ∀ row ∈ db.subaddressRanges, Proper row.2.2
  derived : ∀ row ∈ db.subaddressIndexes, ∃ address viewKey,
    bases row.1 address viewKey ∧
      row.2.subaddress = row.2.index.getSpendPublic env address viewKey

namespace RangesKept

variable {env : Env} {bases : Bases} {db next : Db} {args : Upsert}

theorem of_tables (kept : RangesKept env bases db)
    (ranges : next.subaddressRanges = db.subaddressRanges)
    (indexes : next.subaddressIndexes = db.subaddressIndexes) :
    RangesKept env bases next := by
  have covered : ∀ id index, next.InRanges id index ↔ db.InRanges id index := by
    simp [InRanges, ranges]
  have stored : ∀ id index,
      next.InIndexes id index ↔ db.InIndexes id index := by
    simp [InIndexes, indexes]
  exact
    { agree := fun id index => by rw [covered, stored, kept.agree]
      proper := by rw [ranges]; exact kept.proper
      derived := by rw [indexes]; exact kept.derived }

/-- `do_upsert` adds the indexes of the merged ranges, and no others. -/
theorem inIndexes_store
    (derived : ∀ row ∈ db.subaddressIndexes, ∃ address viewKey,
      bases row.1 address viewKey ∧
        row.2.subaddress = row.2.index.getSpendPublic env address viewKey)
    (injective : bases.Injective env)
    (base : bases args.id args.address args.viewKey) {major : ℕ}
    {newDict : IndexRanges} {id : AccountId} {index : AddressIndex} :
    (args.store env db major newDict).InIndexes id index ↔
      db.InIndexes id index ∨
        (id = args.id ∧ index.majI = major ∧ Covers newDict index.minI) := by
  constructor
  · rintro ⟨row, member, rfl, rfl⟩
    rcases SortedRows.mem_of_mem_addAll member with old | new
    · exact .inl ⟨row, old, rfl, rfl⟩
    · obtain ⟨owner, sameMajor, covered, -⟩ := mem_indexRows.mp new
      exact .inr ⟨owner, sameMajor, covered⟩
  · rintro (⟨row, member, rfl, rfl⟩ | ⟨rfl, rfl, covered⟩)
    · exact ⟨row, SortedRows.mem_addAll_of_mem member, rfl, rfl⟩
    · have new : (args.id,
          (⟨index.getSpendPublic env args.address args.viewKey, index⟩ :
            SubaddressMap)) ∈ args.indexRows env index.majI newDict :=
        mem_indexRows.mpr ⟨rfl, rfl, covered, rfl⟩
      -- a stored row with the key has the index, as keys are injective
      obtain ⟨row, member, keyed⟩ :=
        SortedRows.exists_key_addAll db.subaddressIndexes new
      obtain ⟨owner, sameKey⟩ : row.1 = args.id ∧ row.2.subaddress =
          index.getSpendPublic env args.address args.viewKey := by
        simpa [subaddressIndexesKey] using keyed
      refine ⟨row, member, owner, ?_⟩
      rcases SortedRows.mem_of_mem_addAll member with old | added
      · obtain ⟨address, viewKey, known, own⟩ := derived row old
        rw [owner] at known
        exact injective _ _ _ _ _ _ _ known base (own.symm.trans sameKey)
      · obtain ⟨-, -, -, own⟩ := mem_indexRows.mp added
        exact injective _ _ _ _ _ _ _ base base (own.symm.trans sameKey)

theorem inRanges_store {major : ℕ} {newDict : IndexRanges} {id : AccountId}
    {index : AddressIndex} :
    (args.store env db major newDict).InRanges id index ↔
      (id = args.id ∧ index.majI = major ∧ Covers newDict index.minI) ∨
        (¬ (id = args.id ∧ index.majI = major) ∧ db.InRanges id index) := by
  simp only [InRanges, Upsert.store, SortedRows.mem_put, subaddressRangesKey]
  constructor
  · rintro ⟨ranges, same | ⟨member, different⟩, covered⟩
    · cases same
      exact .inl ⟨rfl, rfl, covered⟩
    · refine .inr ⟨?_, ranges, member, covered⟩
      rintro ⟨rfl, rfl⟩
      exact different rfl
  · rintro (⟨rfl, rfl, covered⟩ | ⟨different, ranges, member, covered⟩)
    · exact ⟨newDict, .inl rfl, covered⟩
    · refine ⟨ranges, .inr ⟨member, ?_⟩, covered⟩
      intro same
      apply different
      simpa using same

theorem store (kept : RangesKept env bases db)
    (injective : bases.Injective env)
    (base : bases args.id args.address args.viewKey) {major : ℕ}
    {newDict : IndexRanges} (proper : Proper newDict)
    (wider : ∀ minor, db.InRanges args.id ⟨major, minor⟩ →
      Covers newDict minor) :
    RangesKept env bases (args.store env db major newDict) where
  agree := by
    intro id index
    rw [inRanges_store, inIndexes_store kept.derived injective base,
      ← kept.agree]
    by_cases own : id = args.id ∧ index.majI = major
    · obtain ⟨rfl, rfl⟩ := own
      have covered := wider index.minI
      tauto
    · tauto
  proper := by
    intro row member
    rcases SortedRows.mem_put.mp member with rfl | ⟨old, -⟩
    · exact proper
    · exact kept.proper row old
  derived := by
    intro row member
    rcases SortedRows.mem_of_mem_addAll member with old | new
    · exact kept.derived row old
    · obtain ⟨owner, -, -, derived⟩ := mem_indexRows.mp new
      exact ⟨args.address, args.viewKey, owner ▸ base, derived⟩

/-- A major that fits keeps the agreement. -/
theorem major (kept : RangesKept env bases db)
    (injective : bases.Injective env)
    (base : bases args.id args.address args.viewKey) {count : ℕ}
    {out : List SubaddressDict} {entry : SubaddressDict}
    {value : ℕ × List SubaddressDict}
    (success : args.major env db count out entry = (.ok value, next)) :
    RangesKept env bases next := by
  obtain ⟨-, newDict, rfl, proper, covered⟩ := major_ok kept.proper success
  exact kept.store injective base proper
    fun minor stored => (covered minor).mpr (.inl stored)

theorem doUpsert (kept : RangesKept env bases db)
    (injective : bases.Injective env)
    (base : bases args.id args.address args.viewKey)
    {subaddrs out : List SubaddressDict}
    (success : Db.doUpsert env args subaddrs db = (.ok out, next)) :
    RangesKept env bases next := by
  unfold Db.doUpsert at success
  split at success
  · cases success
  generalize db.subaddressCount args.id = count at success
  generalize ([] : List SubaddressDict) = reported at success
  rename_i within
  clear within
  induction subaddrs generalizing db count reported with
  | nil =>
      cases success
      exact kept
  | cons entry entries induction =>
      rw [Upsert.majors] at success
      cases passed : args.major env db count reported entry with
      | mk outcome middle =>
          rw [passed] at success
          cases outcome with
          | error failure => cases success
          | ok value =>
              exact induction (kept.major injective base passed) _ _ success

/-- The ranges of the majors still to come are those of the start. -/
private theorem fitsStored_of_same {left right : Db} {count : ℕ}
    {entries : List SubaddressDict}
    (same : ∀ entry ∈ entries,
      left.subaddressRanges.find? (toLex (args.id, entry.1)) =
        right.subaddressRanges.find? (toLex (args.id, entry.1)))
    (fits : args.fitsStored left count entries = true) :
    args.fitsStored right count entries = true := by
  induction entries generalizing count with
  | nil => rfl
  | cons entry entries induction =>
      have here := same entry (by simp)
      have counted : args.counted left count entry =
          args.counted right count entry := by
        unfold Upsert.counted
        rw [here]
      unfold Upsert.fitsStored at fits ⊢
      rw [counted, here] at fits
      split at fits
      · exact fits
      · exact induction
          (fun other member => same other (List.mem_cons_of_mem _ member)) fits

/-- A `do_upsert` whose failure is turned into success keeps the agreement
when the limit is hit at a major without ranges. -/
theorem doUpsert_guarded (kept : RangesKept env bases db)
    (injective : bases.Injective env)
    (base : bases args.id args.address args.viewKey)
    {subaddrs : List SubaddressDict}
    (distinct : subaddrs.Pairwise fun left right => left.1 ≠ right.1)
    (fits : args.KeepsRanges subaddrs db) :
    RangesKept env bases (Db.doUpsert env args subaddrs db).2 := by
  unfold Db.doUpsert
  split
  · exact kept
  rename_i within
  replace fits := fits.resolve_left within
  clear within
  generalize db.subaddressCount args.id = count at fits ⊢
  generalize ([] : List SubaddressDict) = reported
  induction subaddrs generalizing db count reported with
  | nil => exact kept
  | cons entry entries induction =>
      obtain ⟨different, distinct⟩ := List.pairwise_cons.mp distinct
      rw [Upsert.majors]
      cases passed : args.major env db count reported entry with
      | mk outcome middle =>
          cases outcome with
          | error failure =>
              rcases major_error passed with rfl | ⟨overflow, present, -⟩
              · exact kept
              · unfold Upsert.fitsStored at fits
                rw [overflow] at fits
                exact (present (Option.isNone_iff_eq_none.mp fits)).elim
          | ok value =>
              obtain ⟨counted, newDict, stored, -⟩ :=
                major_ok kept.proper passed
              have later : args.fitsStored middle value.1 entries = true := by
                unfold Upsert.fitsStored at fits
                rw [counted] at fits
                refine fitsStored_of_same ?_ fits
                intro other member
                rw [stored]
                refine SortedRows.find?_congr ?_
                intro row keyed
                have elsewhere : subaddressRangesKey row ≠
                    toLex (args.id, entry.1) := by
                  rw [keyed]
                  intro same
                  exact different other member (by simpa using same.symm)
                constructor
                · exact fun old => SortedRows.mem_put.mpr (.inr ⟨old, elsewhere⟩)
                · intro member
                  rcases SortedRows.mem_put.mp member with rfl | ⟨old, -⟩
                  · exact (elsewhere rfl).elim
                  · exact old
              have keptMiddle := kept.major injective base passed
              exact induction keptMiddle distinct _ later _

end RangesKept

/-! ## Calls of `do_upsert` -/

/-- What `do_lookahead` hands to `do_upsert`, if it gets so far. -/
def lookaheadRequest (args : Upsert) (lookahead : AddressIndex) (db : Db) :
    Option (List SubaddressDict) :=
  if lookahead.majI = 0 ∨ lookahead.minI = 0 ∨
      maxU32 < lookahead.majI / lookahead.minI ∨
      args.maxSubaddr < wrap32 (lookahead.majI * lookahead.minI) then none
  else
    (lookaheadDict lookahead args.maxSubaddr (db.recipients args.id)).toOption

/-- What `update_lookahead` hands to `do_upsert`, if it gets so far. -/
def windowRequest (user : Account) (matched : AddressIndex)
    (maxSubaddresses : ℕ) : Option (List SubaddressDict) :=
  let major := user.lookahead.majI
  let minor := user.lookahead.minI
  if major ≠ 0 ∧ minor ≠ 0 ∧ major / minor ≤ maxU32 ∧
      wrap32 (major * minor) ≤ maxSubaddresses then
    some (lookaheadWindow user.lookahead matched)
  else none

/-- `guard` holds of the call `provision` makes. -/
def DuringProvision (guard : Upsert → List SubaddressDict → Db → Prop)
    (user : Account) (lookahead : AddressIndex) (maxSubaddresses : ℕ)
    (db : Db) : Prop :=
  ∀ subaddrs,
    lookaheadRequest ⟨user.id, user.address, user.key, maxSubaddresses⟩
      lookahead db = some subaddrs →
    guard ⟨user.id, user.address, user.key, maxSubaddresses⟩ subaddrs db

/-- `direct` holds of the calls whose failure fails the operation, `absorbed`
of those whose `max_subaddresses` does not. -/
def EveryUpsert (env : Env)
    (direct absorbed : Upsert → List SubaddressDict → Db → Prop) (db : Db) :
    Operation → Prop
  | .upsertSubaddresses id address viewKey subaddrs maxSubaddr =>
      direct ⟨id, address, viewKey, maxSubaddr⟩
        (subaddrs.insertionSort SubaddressDict.le) db
  | .updateLookahead address _ matched maxSubaddresses =>
      ∀ user, db.accountAt address = some user →
        ∀ subaddrs, windowRequest user matched maxSubaddresses =
            some subaddrs →
          absorbed ⟨user.id, address, user.key, maxSubaddresses⟩ subaddrs db
  | .acceptRequests clock .create addresses maxSubaddresses =>
      Outcome.Along (createAccount env clock.toNat maxSubaddresses)
        (fun state address =>
          ∀ info, state.db.findRequest? .create address = some info →
            DuringProvision absorbed
              (info.account (wrap32 (state.lastId + 1)) address clock.toNat)
              info.lookahead maxSubaddresses
              (state.db.eraseRequest .create address))
        ⟨db, db.findLastId, []⟩ addresses
  | .acceptRequests _ .importScan addresses maxSubaddresses =>
      Outcome.Along (importAccount env maxSubaddresses) (fun state address =>
        ∀ info user rolledBack,
          state.1.findRequest? .importScan address = some info →
          state.1.accountAt address = some user →
          ((state.1.eraseRequest .importScan address).rollbackOutputs user.id
            info.startHeight).rollbackSpends user.id info.startHeight =
              .ok rolledBack →
          DuringProvision absorbed (user.movedBack info.startHeight)
            info.lookahead maxSubaddresses rolledBack) (db, []) addresses
  | _ => True

theorem doLookahead_request (env : Env) (args : Upsert)
    (lookahead : AddressIndex) (db : Db) :
    (doLookahead env args lookahead db).2 =
      match lookaheadRequest args lookahead db with
      | none => db
      | some subaddrs => (doUpsert env args subaddrs db).2 := by
  unfold doLookahead lookaheadRequest
  by_cases zero : lookahead.majI = 0 ∨ lookahead.minI = 0
  · have refused : lookahead.majI = 0 ∨ lookahead.minI = 0 ∨
        maxU32 < lookahead.majI / lookahead.minI ∨
        args.maxSubaddr < wrap32 (lookahead.majI * lookahead.minI) := by
      tauto
    rw [if_pos zero, if_pos refused]
  by_cases wide : maxU32 < lookahead.majI / lookahead.minI
  · rw [if_neg zero, if_pos wide, if_pos (.inr (.inr (.inl wide)))]
  by_cases many : args.maxSubaddr <
      wrap32 (lookahead.majI * lookahead.minI)
  · rw [if_neg zero, if_neg wide, if_pos many,
      if_pos (.inr (.inr (.inr many)))]
  · have accepted : ¬ (lookahead.majI = 0 ∨ lookahead.minI = 0 ∨
        maxU32 < lookahead.majI / lookahead.minI ∨
        args.maxSubaddr < wrap32 (lookahead.majI * lookahead.minI)) := by
      tauto
    rw [if_neg zero, if_neg wide, if_neg many, if_neg accepted]
    cases lookaheadDict lookahead args.maxSubaddr (db.recipients args.id) with
    | error failure => rfl
    | ok subaddrs =>
        cases upserted : doUpsert env args subaddrs db with
        | mk outcome next =>
            simp only [Except.toOption, upserted]
            cases outcome <;> rfl

theorem provision_request {env : Env} {db next : Db} {user final : Account}
    {lookahead : AddressIndex} {maxSubaddresses : ℕ}
    (success : provision env user lookahead maxSubaddresses db =
      .ok (final, next)) :
    next =
      match lookaheadRequest
          ⟨user.id, user.address, user.key, maxSubaddresses⟩ lookahead db with
      | none => db
      | some subaddrs => (doUpsert env
          ⟨user.id, user.address, user.key, maxSubaddresses⟩ subaddrs db).2 := by
  rw [← doLookahead_request]
  unfold provision at success
  split at success
  · rename_i zero
    cases success
    unfold doLookahead
    rw [if_pos (by simp [AddressIndex.isZero] at zero; exact .inl zero.1)]
  · unfold lookaheadAccount at success
    split at success
    · rename_i provisioned
      cases success
      rw [provisioned]
    · rename_i provisioned
      split at success
      · cases success
        rw [provisioned]
      · cases success

theorem updateLookahead_request {env : Env} {db next : Db}
    {address : AccountAddress} {height : BlockId} {matched : AddressIndex}
    {maxSubaddresses : ℕ} {changed : ℤ}
    (success : updateLookahead env db address height matched
      maxSubaddresses = .ok (next, changed)) :
    ∃ user, db.accountAt address = some user ∧ ∃ accounts, next =
      { (match windowRequest user matched maxSubaddresses with
        | none => db
        | some subaddrs => (doUpsert env
            ⟨user.id, address, user.key, maxSubaddresses⟩ subaddrs db).2)
        with accounts := accounts } := by
  unfold updateLookahead at success
  split at success
  · cases success
  rename_i entry addressed
  split at success
  · cases success
  rename_i user located
  refine ⟨user, by rw [accountAt, addressed]; exact located, ?_⟩
  dsimp only at success
  split at success
  · rename_i zero
    cases success
    have refused : windowRequest user matched maxSubaddresses = none := by
      unfold windowRequest
      rw [if_neg]
      tauto
    rw [refused]
    exact ⟨_, rfl⟩
  rename_i nonzero
  have request : (if user.lookahead.majI / user.lookahead.minI ≤ maxU32 ∧
        wrap32 (user.lookahead.majI * user.lookahead.minI) ≤
          maxSubaddresses then
      doUpsert env ⟨user.id, address, user.key, maxSubaddresses⟩
        (lookaheadWindow user.lookahead matched) db
    else (.error .maxSubaddresses, db)).2 =
      match windowRequest user matched maxSubaddresses with
      | none => db
      | some subaddrs => (doUpsert env
          ⟨user.id, address, user.key, maxSubaddresses⟩ subaddrs db).2 := by
    unfold windowRequest
    dsimp only
    split
    · rename_i accepted
      rw [if_pos (by tauto)]
    · rename_i refused
      rw [if_neg (by tauto)]
  rw [← request]
  split at success
  · rename_i upserted
    cases success
    rw [upserted]
    exact ⟨_, rfl⟩
  · rename_i upserted
    split at success
    · cases success
    · cases success
      rw [upserted]
      exact ⟨_, rfl⟩

private theorem lookaheadFill_distinct {minor maxSubaddresses index total : ℕ}
    {initial filled : List SubaddressDict}
    (success : lookaheadFill minor maxSubaddresses index total initial =
      .ok filled) :
    (∀ entry ∈ filled, index ≤ entry.1) ∧
      filled.Pairwise fun left right => left.1 ≠ right.1 := by
  induction initial generalizing index total filled with
  | nil =>
      cases success
      simp
  | cons elem rest induction =>
      unfold lookaheadFill at success
      split at success
      split at success
      · cases success
      obtain ⟨later, filledLater, stored⟩ := Outcome.bind_eq_ok.mp success
      cases stored
      obtain ⟨above, distinct⟩ := induction filledLater
      refine ⟨?_, List.pairwise_cons.mpr ⟨?_, distinct⟩⟩
      · intro entry member
        rcases List.mem_cons.mp member with rfl | later
        · exact le_rfl
        · exact Nat.le_of_succ_le (above entry later)
      · intro entry member
        exact Nat.ne_of_lt (above entry member)

theorem lookaheadRequest_distinct {args : Upsert} {lookahead : AddressIndex}
    {db : Db} {subaddrs : List SubaddressDict}
    (request : lookaheadRequest args lookahead db = some subaddrs) :
    subaddrs.Pairwise fun left right => left.1 ≠ right.1 := by
  unfold lookaheadRequest at request
  split at request
  · cases request
  cases requested : lookaheadDict lookahead args.maxSubaddr
      (db.recipients args.id) with
  | error failure =>
      rw [requested] at request
      cases request
  | ok filled =>
      rw [requested] at request
      cases request
      obtain ⟨initial, -, success⟩ := Outcome.bind_eq_ok.mp requested
      exact (lookaheadFill_distinct success).2

theorem windowRequest_distinct {user : Account} {matched : AddressIndex}
    {maxSubaddresses : ℕ} {subaddrs : List SubaddressDict}
    (request : windowRequest user matched maxSubaddresses = some subaddrs) :
    subaddrs.Pairwise fun left right => left.1 ≠ right.1 := by
  unfold windowRequest at request
  dsimp only at request
  split at request
  · cases request
    unfold lookaheadWindow
    rw [List.pairwise_map]
    refine List.nodup_range.imp ?_
    intro left right different
    split <;> split <;> exact different
  · cases request

/-! ## Operations that leave the tables alone -/

/-- Both subaddress tables are those of `db`. -/
def SameSubaddresses (db next : Db) : Prop :=
  next.subaddressRanges = db.subaddressRanges ∧
    next.subaddressIndexes = db.subaddressIndexes

namespace SameSubaddresses

variable {db middle next : Db}

theorem refl (db : Db) : SameSubaddresses db db := ⟨rfl, rfl⟩

theorem trans (first : SameSubaddresses db middle)
    (second : SameSubaddresses middle next) : SameSubaddresses db next :=
  ⟨second.1.trans first.1, second.2.trans first.2⟩

theorem rollbackChain {first height : BlockId}
    (success : db.rollbackChain first height = .ok next) :
    SameSubaddresses db next := by
  obtain ⟨_, _, _, _, _, _, rfl⟩ := rollbackChain_frame success
  exact ⟨rfl, rfl⟩

theorem synced {stop : WalkEnd} (synced : Synced db stop middle next) :
    SameSubaddresses db next := by
  obtain ⟨_, rfl⟩ := synced.next_eq
  rcases synced.rolledBack with ⟨-, rfl⟩ | ⟨row, -, rolled⟩
  · exact ⟨rfl, rfl⟩
  · exact (rollbackChain rolled).trans ⟨rfl, rfl⟩

theorem update {env : Env} {height : BlockId} {chain : List Hash}
    {users : List ScannedAccount} {pow : List PowSync} {out : Updated}
    (success : Db.update env db height chain users pow = .ok (next, out)) :
    SameSubaddresses db next := by
  rcases update_ok success with
    ⟨-, rfl, -⟩ | ⟨-, lastUpdate, checked, final, -, blocks, folded, rfl, -⟩
  · exact .refl next
  obtain ⟨_, _, rfl⟩ := updateBlocks_eq blocks
  obtain ⟨_, _, _, _, _, _, tables⟩ := updateUsers_frame folded
  have users : SameSubaddresses db final.db := by
    rw [tables]
    exact ⟨rfl, rfl⟩
  exact users.trans ⟨rfl, rfl⟩

theorem addAccount {env : Env} {clock : ℤ} {address : AccountAddress}
    {key : SecretKey} {flags : AccountFlags}
    (success : db.addAccount env clock address key flags = .ok next) :
    SameSubaddresses db next := by
  obtain ⟨time, -, timed⟩ := Outcome.bind_eq_ok.mp success
  obtain ⟨height, -, added⟩ := Outcome.bind_eq_ok.mp timed
  rw [(doAddAccount_ok added).next_eq]
  exact ⟨rfl, rfl⟩

theorem changeStatus {status : AccountStatus}
    {addresses found : List AccountAddress}
    (success : db.changeStatus status addresses = .ok (next, found)) :
    SameSubaddresses db next := by
  refine Outcome.foldlM_preserves
    (fun state : Db × List AccountAddress => SameSubaddresses db state.1) ?_
    (.refl db) success
  intro state address after _member kept stepped
  obtain ⟨⟨current, present⟩, changed, stored⟩ :=
    Outcome.bind_eq_ok.mp stepped
  cases stored
  refine kept.trans ?_
  rcases changeStatusOf_ok changed with rfl | ⟨entry, user, effect⟩
  · exact .refl _
  · rw [effect.next_eq]
    exact ⟨rfl, rfl⟩

end SameSubaddresses

theorem changeHeight_provision {env : Env} {height : BlockId}
    {address : AccountAddress} {lookahead : AddressIndex}
    {maxSubaddresses : ℕ} {db next : Db}
    (success : changeHeight env height address lookahead maxSubaddresses db =
      .ok next) :
    ∃ user rolledBack moved provisioned, db.accountAt address = some user ∧
      (db.rollbackOutputs user.id height).rollbackSpends user.id height =
        .ok rolledBack ∧
      provision env (user.movedBack height) lookahead maxSubaddresses
        rolledBack = .ok (moved, provisioned) ∧
      SameSubaddresses db rolledBack ∧ SameSubaddresses provisioned next := by
  unfold changeHeight at success
  split at success
  · cases success
  rename_i byAddress byAddressFound
  split at success
  · cases success
  rename_i user userFound
  obtain ⟨rolledBack, dropped, rest⟩ := Outcome.bind_eq_ok.mp success
  obtain ⟨⟨moved, provisioned⟩, lookedAhead, stored⟩ :=
    Outcome.bind_eq_ok.mp rest
  refine ⟨user, rolledBack, moved, provisioned, ?_, dropped, lookedAhead,
    ?_, ?_⟩
  · rw [accountAt, byAddressFound]
    exact userFound
  · obtain ⟨images, rfl⟩ := rollbackSpends_eq dropped
    exact ⟨rfl, rfl⟩
  · obtain ⟨-, rfl⟩ := storeMoved_eq stored
    exact ⟨rfl, rfl⟩

/-! ## Runs -/

/-- The calls of an operation derive keys under known bases, and no absorbed
failure hits a major with ranges. -/
def UpsertsKeepRanges (env : Env) (bases : Bases) : Db → Operation → Prop :=
  EveryUpsert env
    (fun args _ _ => bases args.id args.address args.viewKey)
    (fun args subaddrs db => bases args.id args.address args.viewKey ∧
      args.KeepsRanges subaddrs db)

namespace RangesKept

variable {env : Env} {bases : Bases} {db next : Db}

theorem same (kept : RangesKept env bases db)
    (same : SameSubaddresses db next) : RangesKept env bases next :=
  kept.of_tables same.1 same.2

theorem provision (kept : RangesKept env bases db)
    (injective : bases.Injective env) {user final : Account}
    {lookahead : AddressIndex} {maxSubaddresses : ℕ}
    (guarded : DuringProvision (fun args subaddrs db =>
      bases args.id args.address args.viewKey ∧
        args.KeepsRanges subaddrs db) user lookahead maxSubaddresses db)
    (success : Db.provision env user lookahead maxSubaddresses db =
      .ok (final, next)) : RangesKept env bases next := by
  rw [provision_request success]
  cases request : lookaheadRequest
      ⟨user.id, user.address, user.key, maxSubaddresses⟩ lookahead db with
  | none => exact kept
  | some subaddrs =>
      obtain ⟨base, fits⟩ := guarded subaddrs request
      exact kept.doUpsert_guarded injective base
        (lookaheadRequest_distinct request) fits

theorem createAccounts (kept : RangesKept env bases db)
    (injective : bases.Injective env) {clock : ℤ}
    {addresses found : List AccountAddress} {maxSubaddresses : ℕ}
    (guarded : UpsertsKeepRanges env bases db
      (.acceptRequests clock .create addresses maxSubaddresses))
    (success : Db.createAccounts env clock db addresses maxSubaddresses =
      .ok (next, found)) : RangesKept env bases next := by
  obtain ⟨time, timed, rest⟩ := Outcome.bind_eq_ok.mp success
  obtain ⟨final, folded, stored⟩ := Outcome.bind_eq_ok.mp rest
  cases stored
  obtain rfl := getAccountTime_eq timed
  refine Outcome.Along.foldlM_preserves
    (fun state : Creation => RangesKept env bases state.db) ?_ guarded kept
    folded
  intro state address after allowed before stepped
  cases createAccount_ok stepped with
  | missing => exact before
  | skipped requested lookedAhead _ =>
      have erased : RangesKept env bases
          (state.db.eraseRequest .create address) :=
        before.of_tables rfl rfl
      exact erased.provision injective (allowed _ requested) lookedAhead
  | added requested _ lookedAhead added =>
      have erased : RangesKept env bases
          (state.db.eraseRequest .create address) :=
        before.of_tables rfl rfl
      have provisioned :=
        erased.provision injective (allowed _ requested) lookedAhead
      rw [added.next_eq]
      exact provisioned.of_tables rfl rfl

theorem importAccounts (kept : RangesKept env bases db)
    (injective : bases.Injective env) {clock : ℤ}
    {addresses found : List AccountAddress} {maxSubaddresses : ℕ}
    (guarded : UpsertsKeepRanges env bases db
      (.acceptRequests clock .importScan addresses maxSubaddresses))
    (success : Db.importAccounts env db addresses maxSubaddresses =
      .ok (next, found)) : RangesKept env bases next := by
  refine Outcome.Along.foldlM_preserves
    (fun state : Db × List AccountAddress => RangesKept env bases state.1) ?_
    guarded kept success
  intro state address after allowed before stepped
  have erased : RangesKept env bases
      (state.1.eraseRequest .importScan address) :=
    before.of_tables rfl rfl
  unfold importAccount at stepped
  split at stepped
  · cases stepped
    exact before
  rename_i info requested
  dsimp only at stepped
  split at stepped
  · rename_i changed
    cases stepped
    obtain ⟨user, rolledBack, moved, provisioned, located, dropped,
      lookedAhead, first, last⟩ := changeHeight_provision changed
    have guard := allowed info user rolledBack requested located dropped
    exact ((erased.same first).provision injective guard lookedAhead).same last
  · cases stepped
    exact erased
  · cases stepped

private theorem rescan {height : BlockId}
    {addresses found : List AccountAddress} (kept : RangesKept env bases db)
    (success : rescan env db height addresses = .ok (next, found)) :
    RangesKept env bases next := by
  obtain ⟨current, -, checked⟩ := Outcome.bind_eq_ok.mp success
  split at checked
  · cases checked
  refine Outcome.foldlM_preserves (fun state : Db × List AccountAddress =>
    RangesKept env bases state.1) ?_ kept checked
  intro state address after _member before stepped
  unfold rescanOf at stepped
  split at stepped
  · rename_i changed
    cases stepped
    obtain ⟨_, _, _, _, -, -, lookedAhead, first, last⟩ :=
      changeHeight_provision changed
    cases lookedAhead
    exact (before.same first).same last
  · cases stepped
    exact before
  · cases stepped

theorem step {operation : Operation} (kept : RangesKept env bases db)
    (injective : bases.Injective env)
    (guarded : UpsertsKeepRanges env bases db operation)
    (success : Step env db operation next) : RangesKept env bases next := by
  cases operation with
  | addAccount clock address key flags =>
      exact kept.same (.addAccount success)
  | changeStatus status addresses =>
      obtain ⟨⟨final, found⟩, changed, rfl⟩ := Outcome.map_eq_ok.mp success
      exact kept.same (.changeStatus changed)
  | creationRequest clock address key flags lookahead =>
      obtain ⟨⟨final, hooks⟩, requested, rfl⟩ := Outcome.map_eq_ok.mp success
      obtain ⟨requests, rfl⟩ := creationRequest_eq requested
      exact kept.of_tables rfl rfl
  | importRequest clock address height lookahead =>
      obtain ⟨requests, rfl⟩ := importRequest_eq success
      exact kept.of_tables rfl rfl
  | acceptRequests clock type addresses maxSubaddresses =>
      obtain ⟨⟨final, found⟩, accepted, rfl⟩ := Outcome.map_eq_ok.mp success
      unfold acceptRequests at accepted
      split at accepted
      · cases accepted
        exact kept
      cases type with
      | create => exact kept.createAccounts injective guarded accepted
      | importScan => exact kept.importAccounts injective guarded accepted
  | rejectRequests type addresses =>
      obtain ⟨requests, equality⟩ := rejectRequests_eq db type addresses
      cases success
      rw [equality]
      exact kept.of_tables rfl rfl
  | rescan height addresses =>
      obtain ⟨⟨final, found⟩, rescanned, rfl⟩ := Outcome.map_eq_ok.mp success
      exact kept.rescan rescanned
  | rollback height =>
      have rolled : db.rollback height = .ok next := success
      unfold rollback at rolled
      split at rolled
      · cases rolled
        exact kept
      · exact kept.same (.rollbackChain rolled)
  | syncChain height hashes regtest =>
      obtain ⟨_, _, _, -, -, -, synced⟩ := syncChain_ok success
      exact kept.same (.synced synced)
  | syncPow height hashes pow =>
      obtain ⟨_, _, _, _, -, -, -, -, synced⟩ := syncPow_ok success
      exact kept.same (.synced synced)
  | update height chain users pow =>
      obtain ⟨⟨final, out⟩, updated, rfl⟩ := Outcome.map_eq_ok.mp success
      exact kept.same (.update updated)
  | upsertSubaddresses id address viewKey subaddrs maxSubaddr =>
      obtain ⟨⟨final, out⟩, upserted, rfl⟩ := Outcome.map_eq_ok.mp success
      unfold upsertSubaddresses at upserted
      split at upserted
      · cases upserted
      · cases upserted
        exact kept.doUpsert injective guarded ‹_›
  | updateLookahead address height matched maxSubaddresses =>
      obtain ⟨⟨final, changed⟩, updated, rfl⟩ := Outcome.map_eq_ok.mp success
      obtain ⟨user, located, accounts, rfl⟩ := updateLookahead_request updated
      have upserted : RangesKept env bases
          (match windowRequest user matched maxSubaddresses with
          | none => db
          | some subaddrs => (Db.doUpsert env
              ⟨user.id, address, user.key, maxSubaddresses⟩ subaddrs db).2) := by
        cases request : windowRequest user matched maxSubaddresses with
        | none => exact kept
        | some subaddrs =>
            obtain ⟨base, fits⟩ := guarded user located subaddrs request
            exact kept.doUpsert_guarded injective base
              (windowRequest_distinct request) fits
      exact upserted.of_tables rfl rfl
  | shrinkLookahead address lookahead =>
      obtain ⟨lookup, user, located, rfl⟩ := shrinkLookahead_eq success
      exact kept.of_tables rfl rfl
  | addWebhook type address event =>
      obtain ⟨rfl, -⟩ := addWebhook_eq success
      exact kept.of_tables rfl rfl
  | clearWebhooks addresses =>
      obtain ⟨_, _, rfl⟩ := clearWebhooks_eq success
      exact kept.of_tables rfl rfl
  | clearWebhookIds ids =>
      cases success
      exact kept.of_tables rfl rfl

/-- A new database has no subaddress rows. -/
theorem of_openNew (opened : openNew env = .ok db) :
    RangesKept env bases db := by
  unfold openNew at opened
  split at opened
  · cases opened
  split at opened
  · cases opened
  cases opened
  refine ⟨?_, ?_, ?_⟩
  · intro id index
    simp [InRanges, InIndexes]
  · simp
  · simp

end RangesKept

/-- In every run whose absorbed `max_subaddresses` failures only hit majors
without ranges, both subaddress tables hold the same indexes. -/
theorem subaddress_tables_agree {env : Env} {bases : Bases} {start final : Db}
    {operations : List Operation} (injective : bases.Injective env)
    (opened : openNew env = .ok start)
    (run : Run (fun db operation next =>
      UpsertsKeepRanges env bases db operation ∧ Step env db operation next)
      start operations final) : RangesAgree final :=
  (run.preserves (RangesKept env bases)
    (fun _ _ _ kept step => kept.step injective step.1 step.2)
    (.of_openNew opened)).agree

/-- Spend keys of one base that tell every index. -/
def derivingEnv : Env :=
  { sampleEnv with
    subaddressKey := fun base _ index =>
      base.spendPublic + Nat.pair index.majI index.minI }

def sampleBases : Bases := fun _ address _ => address = sampleAddress

theorem sampleBases_injective : sampleBases.Injective derivingEnv := by
  have paired : ∀ index : AddressIndex, ∀ viewKey,
      index.getSpendPublic derivingEnv sampleAddress viewKey =
        8 + Nat.pair index.majI index.minI := by
    intro index viewKey
    unfold AddressIndex.getSpendPublic
    split
    · rename_i zero
      obtain ⟨major, minor⟩ : index.majI = 0 ∧ index.minI = 0 := by
        simpa [AddressIndex.isZero] using zero
      rw [major, minor]
      rfl
    · rfl
  rintro id left leftKey right rightKey first second rfl rfl same
  rw [paired, paired, Nat.add_left_cancel_iff, Nat.pair_eq_pair] at same
  obtain ⟨major, minor⟩ := first
  obtain ⟨rfl, rfl⟩ := same
  rfl

/-- An account with two indexes, created with a lookahead. -/
def lookaheadCalls : List Operation :=
  [.creationRequest 0 sampleAddress 7 0 ⟨1, 2⟩,
    .acceptRequests 0 .create [sampleAddress] 3]

private theorem lookaheadCalls_run :
    Run (fun db operation next =>
      UpsertsKeepRanges derivingEnv sampleBases db operation ∧
        Step derivingEnv db operation next) sampleDb lookaheadCalls
      (afterAll derivingEnv sampleDb lookaheadCalls) := by
  refine .cons ⟨trivial, step_after (by decide)⟩
    (.cons ⟨⟨?_, fun _ _ => trivial⟩, step_after (by decide)⟩ (.nil _))
  show ∀ info ∈ findRequest? _ .create sampleAddress, ∀ subaddrs ∈
    lookaheadRequest _ info.lookahead _,
      sampleAddress = sampleAddress ∧ Upsert.KeepsRanges _ subaddrs _
  decide

/-- The window around the second index of the account does not fit under the
limit at major one, which has no ranges. -/
theorem subaddress_tables_agree_at_limit :
    ∃ final, Step derivingEnv (afterAll derivingEnv sampleDb lookaheadCalls)
      (.updateLookahead sampleAddress 5 ⟨1, 0⟩ 3) final ∧
        RangesAgree final := by
  refine ⟨_, step_after (by decide), ?_⟩
  refine subaddress_tables_agree sampleBases_injective
    (rfl : openNew derivingEnv = .ok sampleDb)
    (lookaheadCalls_run.append (.cons ⟨?_, step_after (by decide)⟩ (.nil _)))
  show ∀ user ∈ accountAt _ sampleAddress, ∀ subaddrs ∈
    windowRequest user ⟨1, 0⟩ 3,
      sampleAddress = sampleAddress ∧ Upsert.KeepsRanges _ subaddrs _
  decide

/-- The same account, with a window that does not fit at major zero. -/
def overflowingCalls : List Operation :=
  lookaheadCalls ++ [.updateLookahead sampleAddress 5 ⟨0, 2⟩ 3]

/-- A window that does not fit at a major with ranges takes its ranges out and
leaves its indexes. -/
theorem limit_drops_stored_ranges :
    ¬ ∀ (env : Env) (bases : Bases) (start final : Db)
      (operations : List Operation), bases.Injective env →
      openNew env = .ok start →
      Run (fun db operation next =>
        EveryUpsert env
            (fun args _ _ => bases args.id args.address args.viewKey)
            (fun args _ _ => bases args.id args.address args.viewKey)
            db operation ∧ Step env db operation next)
        start operations final → RangesAgree final := by
  intro always
  have agree := always derivingEnv sampleBases sampleDb
    (afterAll derivingEnv sampleDb overflowingCalls) overflowingCalls
    sampleBases_injective rfl
    (.cons ⟨trivial, step_after (by decide)⟩
      (.cons ⟨⟨fun _ _ _ _ => rfl, fun _ _ => trivial⟩,
          step_after (by decide)⟩
        (.cons ⟨fun _ _ _ _ => rfl, step_after (by decide)⟩ (.nil _))))
  have stored : ∃ row ∈
      (afterAll derivingEnv sampleDb overflowingCalls).subaddressIndexes.rows,
      row.1 = 1 ∧ row.2.index = ⟨0, 1⟩ := by
    decide
  have dropped : (afterAll derivingEnv sampleDb
      overflowingCalls).subaddressRanges.rows = [] := by
    decide
  obtain ⟨ranges, member, -⟩ := (agree 1 ⟨0, 1⟩).mpr stored
  rw [← SortedRows.mem_rows, dropped] at member
  cases member

end XfoLws.Db
