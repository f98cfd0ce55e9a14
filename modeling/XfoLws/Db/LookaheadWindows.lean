import XfoLws.Db.SubaddressAgreement
import XfoLws.Db.SubaddressOwners

/-!
# Windows of subaddresses

What a lookahead promises to store, and the calls that store it: a `do_upsert`
that succeeds stores everything it is asked for, `do_lookahead` asks for the
windows around all received outputs, and `update_lookahead` for the one around
the index at hand.
-/

namespace XfoLws.Db

/-- Both components of an index fit in 32 bits. -/
def AddressIndex.Fits (index : AddressIndex) : Prop :=
  index.majI ≤ maxU32 ∧ index.minI ≤ maxU32

/-- The lookahead provisions something. -/
def AddressIndex.Looks (lookahead : AddressIndex) : Prop :=
  lookahead.majI ≠ 0 ∧ lookahead.minI ≠ 0

/-- The indexes that a lookahead covers from the start. -/
def InBase (lookahead index : AddressIndex) : Prop :=
  index.majI < lookahead.majI ∧ index.minI < lookahead.minI

/-- The indexes that a lookahead covers around a received one. -/
def InWindow (lookahead received index : AddressIndex) : Prop :=
  (index.majI < min (received.majI + lookahead.majI) maxU32 ∧
      index.minI < lookahead.minI) ∨
    (index.majI = received.majI ∧
      index.minI < received.minI + lookahead.minI)

/-- All indexes of a window are stored. -/
def Stores (db : Db) (id : AccountId) (window : AddressIndex → Prop) : Prop :=
  ∀ index : AddressIndex, index.Fits → window index → db.InIndexes id index

theorem Stores.imp {db : Db} {id : AccountId}
    {wide narrow : AddressIndex → Prop} (stored : db.Stores id wide)
    (implies : ∀ index, narrow index → wide index) : db.Stores id narrow :=
  fun index fits within => stored index fits (implies index within)

theorem InBase.mono {wide narrow index : AddressIndex}
    (major : narrow.majI ≤ wide.majI) (minor : narrow.minI ≤ wide.minI)
    (within : InBase narrow index) : InBase wide index :=
  ⟨within.1.trans_le major, within.2.trans_le minor⟩

theorem InWindow.mono {wide narrow received index : AddressIndex}
    (major : narrow.majI ≤ wide.majI) (minor : narrow.minI ≤ wide.minI)
    (within : InWindow narrow received index) :
    InWindow wide received index := by
  unfold InWindow at within ⊢
  omega

/-! ## Indexes are only added -/

/-- No index is lost. -/
def KeepsIndexRows (db next : Db) : Prop :=
  ∀ row ∈ db.subaddressIndexes, row ∈ next.subaddressIndexes

theorem KeepsIndexRows.stores {db next : Db} (kept : KeepsIndexRows db next)
    {id : AccountId} {window : AddressIndex → Prop}
    (stored : db.Stores id window) : next.Stores id window := by
  intro index fits within
  obtain ⟨row, member, own, same⟩ := stored index fits within
  exact ⟨row, kept row member, own, same⟩

theorem KeepsIndexRows.trans {db middle next : Db}
    (first : KeepsIndexRows db middle) (second : KeepsIndexRows middle next) :
    KeepsIndexRows db next :=
  fun row member => second row (first row member)

/-- Stored ranges are not empty, and every key is derived from its index under
a base of the account. -/
structure KeysDerived (env : Env) (bases : Bases) (db : Db) : Prop where
  proper : ∀ row ∈ db.subaddressRanges, Proper row.2.2
  derived : ∀ row ∈ db.subaddressIndexes, ∃ address viewKey,
    bases row.1 address viewKey ∧
      row.2.subaddress = row.2.index.getSpendPublic env address viewKey

section Upsert

variable {env : Env} {bases : Bases} {db next : Db} {args : Upsert}

theorem KeysDerived.of_tables (keys : KeysDerived env bases db)
    (same : SameSubaddresses db next) : KeysDerived env bases next := by
  constructor
  · rw [same.1]
    exact keys.proper
  · rw [same.2]
    exact keys.derived

theorem SameSubaddresses.keeps (same : SameSubaddresses db next) :
    KeepsIndexRows db next := by
  intro row member
  rw [same.2]
  exact member

private theorem KeysDerived.store (keys : KeysDerived env bases db)
    (base : bases args.id args.address args.viewKey) {major : ℕ}
    {newDict : IndexRanges} (proper : Proper newDict) :
    KeysDerived env bases (args.store env db major newDict) := by
  constructor
  · intro row member
    rcases SortedRows.mem_put.mp member with rfl | ⟨old, -⟩
    · exact proper
    · exact keys.proper row old
  · intro row member
    rcases SortedRows.mem_of_mem_addAll member with old | new
    · exact keys.derived row old
    · obtain ⟨owner, -, -, derived⟩ := mem_indexRows.mp new
      exact ⟨args.address, args.viewKey, owner ▸ base, derived⟩

/-- What one major of `do_upsert` keeps, whether it fits or not. -/
theorem major_keeps (keys : KeysDerived env bases db)
    (base : bases args.id args.address args.viewKey) {count : ℕ}
    {out : List SubaddressDict} {entry : SubaddressDict}
    {outcome : Except Error (ℕ × List SubaddressDict)}
    (passed : args.major env db count out entry = (outcome, next)) :
    KeysDerived env bases next ∧ KeepsIndexRows db next := by
  cases outcome with
  | ok value =>
      obtain ⟨-, newDict, rfl, proper, -⟩ := major_ok keys.proper passed
      exact ⟨keys.store base proper, fun row member =>
        SortedRows.mem_addAll_of_mem member⟩
  | error failure =>
      rcases major_error passed with rfl | ⟨-, -, rfl⟩
      · exact ⟨keys, fun row member => member⟩
      · refine ⟨⟨?_, keys.derived⟩, fun row member => member⟩
        intro row member
        exact keys.proper row (SortedRows.mem_erase.mp member).1

private theorem majors_keeps (keys : KeysDerived env bases db)
    (base : bases args.id args.address args.viewKey)
    (entries : List SubaddressDict) (count : ℕ)
    (out : List SubaddressDict) :
    KeysDerived env bases (args.majors env entries count out db).2 ∧
      KeepsIndexRows db (args.majors env entries count out db).2 := by
  induction entries generalizing db count out with
  | nil => exact ⟨keys, fun row member => member⟩
  | cons entry entries induction =>
      rw [Upsert.majors]
      cases passed : args.major env db count out entry with
      | mk outcome middle =>
          obtain ⟨kept, rows⟩ := major_keeps keys base passed
          cases outcome with
          | error failure => exact ⟨kept, rows⟩
          | ok value =>
              obtain ⟨later, more⟩ := induction kept value.1 value.2
              exact ⟨later, rows.trans more⟩

theorem doUpsert_keeps (keys : KeysDerived env bases db)
    (base : bases args.id args.address args.viewKey)
    (subaddrs : List SubaddressDict) :
    KeysDerived env bases (doUpsert env args subaddrs db).2 ∧
      KeepsIndexRows db (doUpsert env args subaddrs db).2 := by
  unfold doUpsert
  split
  · exact ⟨keys, fun row member => member⟩
  · exact majors_keeps keys base subaddrs _ []

/-- A `do_upsert` that succeeds stores every index it is asked for. -/
theorem doUpsert_stores (keys : KeysDerived env bases db)
    (injective : bases.Injective env)
    (base : bases args.id args.address args.viewKey)
    {subaddrs out : List SubaddressDict}
    (success : doUpsert env args subaddrs db = (.ok out, next))
    {entry : SubaddressDict} (member : entry ∈ subaddrs) {minor : ℕ}
    (covered : Covers entry.2 minor) :
    next.InIndexes args.id ⟨entry.1, minor⟩ := by
  unfold doUpsert at success
  split at success
  · cases success
  generalize db.subaddressCount args.id = count at success
  generalize ([] : List SubaddressDict) = reported at success
  rename_i within
  clear within
  induction subaddrs generalizing db count reported with
  | nil => cases member
  | cons first entries induction =>
      rw [Upsert.majors] at success
      cases passed : args.major env db count reported first with
      | mk outcome middle =>
          rw [passed] at success
          cases outcome with
          | error failure => cases success
          | ok value =>
              have kept := (major_keeps keys base passed).1
              rcases List.mem_cons.mp member with rfl | later
              · obtain ⟨-, newDict, rfl, -, merged⟩ :=
                  major_ok keys.proper passed
                obtain ⟨row, stored, own, same⟩ :
                    (args.store env db entry.1 newDict).InIndexes args.id
                      ⟨entry.1, minor⟩ :=
                  (RangesKept.inIndexes_store keys.derived injective
                    base).mpr (.inr ⟨rfl, rfl,
                      (merged minor).mpr (.inr covered)⟩)
                have rows := (majors_keeps kept base entries value.1
                  value.2).2
                dsimp only at success
                rw [success] at rows
                exact ⟨row, rows row stored, own, same⟩
              · exact induction kept later _ _ success

end Upsert

end XfoLws.Db
