import XfoLws.Db.UpsertTables
import XfoLws.Rest.WalletRows

/-!
# Provisioning a rectangle of subaddresses

`provision_subaddrs` builds one range of minor indexes for each requested
major.  The majors are counted in 64 bits and then cut to 32, so a request
beyond the last major provisions the first ones.
-/

namespace XfoLws.Rest

open Db

/-- `rpc::provision_subaddrs_request`. -/
structure ProvisionSubaddrsRequest where
  creds : AccountCredentials
  majI : Option ℕ
  minI : Option ℕ
  nMaj : Option ℕ
  nMin : Option ℕ
  getAll : Option Bool

/-- `rpc::new_subaddrs_response`. -/
structure NewSubaddrsResponse where
  newSubaddrs : List SubaddressDict
  allSubaddrs : List SubaddressDict
deriving DecidableEq, Repr

inductive ProvisionFailure where
  | invalidRange
  | failed (failure : Failure)
deriving DecidableEq, Repr

namespace ProvisionSubaddrsRequest

variable (request : ProvisionSubaddrsRequest)

def majorI : ℕ := request.majI.getD 0

def minorI : ℕ := request.minI.getD 0

def nMajor : ℕ := request.nMaj.getD 50

def nMinor : ℕ := request.nMin.getD 500

/-- The ranges that are upserted. -/
def ranges : List SubaddressDict :=
  (List.range' request.majorI request.nMajor).map fun elem =>
    (wrap32 elem,
      [⟨request.minorI, wrap32 (request.minorI + request.nMinor - 1)⟩])

/-- The part of `provision_subaddrs` that writes. -/
def upsertRectangle (env : Env) (maxSubaddresses : ℕ) (db : Db)
    (id : AccountId) : Except Error (Db × List SubaddressDict) :=
  if request.nMajor ≠ 0 ∧ request.nMinor ≠ 0 then
    if maxU32 / request.nMajor < request.nMinor then .error .maxSubaddresses
    else if maxSubaddresses < wrap32 (request.nMajor * request.nMinor) then
      .error .maxSubaddresses
    else
      upsertSubaddresses env db id request.creds.address request.creds.key
        request.ranges maxSubaddresses
  else .ok (db, [])

/-- `provision_subaddrs::handle`, with the database after it. -/
def handle (env : Env) (maxSubaddresses : ℕ) (db : Db) :
    Except ProvisionFailure NewSubaddrsResponse × Db :=
  if request.majI = none ∧ request.minI = none ∧ request.nMin = none ∧
      request.nMaj = none then
    (.error .invalidRange, db)
  else
    match openAccount env db request.creds with
    | .error failure => (.error (.failed failure), db)
    | .ok user =>
        match request.upsertRectangle env maxSubaddresses db user.id with
        | .error failure => (.error (.failed (.lws failure)), db)
        | .ok (next, newRanges) =>
            let allRanges :=
              if request.getAll.getD true then
                valueStream next.subaddressRanges.rows user.id
              else []
            (.ok ⟨newRanges, allRanges⟩, next)

/-! ## The rectangle that is asked for -/

def rectangle : Set AddressIndex :=
  {index | (request.majorI ≤ index.majI ∧
      index.majI < request.majorI + request.nMajor) ∧
    request.minorI ≤ index.minI ∧
      index.minI < request.minorI + request.nMinor}

/-- The numbers of the request have 32 bits. -/
structure Fits : Prop where
  majorI : request.majorI ≤ maxU32
  minorI : request.minorI ≤ maxU32
  nMajor : request.nMajor ≤ maxU32
  nMinor : request.nMinor ≤ maxU32

/-- A response means that exactly the rectangle was added; a rectangle beyond
the indexes or the limit changes nothing. -/
structure Provisions (env : Env) (maxSubaddresses : ℕ) (db : Db)
    (user : Account) : Prop where
  adds : ∀ response next,
    request.handle env maxSubaddresses db = (.ok response, next) →
    Adds user.id request.rectangle db next
  refuses : request.rectangle.Nonempty →
    (∃ index ∈ request.rectangle, ¬ index.Fits) ∨
      maxSubaddresses < ({index | db.InIndexes user.id index} ∪
        request.rectangle).encard →
    ∃ failure, request.handle env maxSubaddresses db = (.error failure, db)

/-- The majors end within 32 bits, or an axis is empty. -/
def MajorsFit : Prop :=
  request.nMajor = 0 ∨ request.nMinor = 0 ∨
    request.majorI + request.nMajor ≤ 2 ^ 32

/-- The limit or the minors make the call fail. -/
def Refused (maxSubaddresses : ℕ) (db : Db) (user : Account) : Prop :=
  maxSubaddresses < request.nMajor * request.nMinor ∨
    2 ^ 32 < request.minorI + request.nMinor ∨
    maxSubaddresses < db.subaddressCount user.id +
      db.countedSize user.id request.ranges

/-! ## The ranges of a request -/

variable {request}

theorem mem_ranges {entry : SubaddressDict} :
    entry ∈ request.ranges ↔
      ∃ elem, (request.majorI ≤ elem ∧
          elem < request.majorI + request.nMajor) ∧
        (wrap32 elem,
          [⟨request.minorI, wrap32 (request.minorI + request.nMinor - 1)⟩]) =
            entry := by
  simp [ranges, List.mem_range'_1]

theorem ranges_distinct (fits : request.Fits) :
    (request.ranges.map Prod.fst).Nodup := by
  rw [ranges, List.map_map]
  refine List.Nodup.map_on ?_ List.nodup_range'
  intro left leftMember right rightMember same
  rw [List.mem_range'_1] at leftMember rightMember
  have bound := fits.nMajor
  simp only [Function.comp_apply, wrap32, maxU32] at same bound
  omega

/-- The minors are in order unless their sum wraps. -/
theorem ranges_checked (fits : request.Fits) (some : request.nMinor ≠ 0)
    {entry : SubaddressDict} (member : entry ∈ request.ranges) :
    checkSubaddressDict entry = true ↔
      request.minorI + request.nMinor ≤ 2 ^ 32 := by
  obtain ⟨elem, -, rfl⟩ := mem_ranges.mp member
  have start := fits.minorI
  have count := fits.nMinor
  have ordered : request.minorI ≤
      wrap32 (request.minorI + request.nMinor - 1) ↔
        request.minorI + request.nMinor ≤ 2 ^ 32 := by
    simp only [wrap32, maxU32] at start count ⊢
    omega
  rw [checkSubaddressDict_iff, ← ordered]
  constructor
  · exact fun canonical => (proper_cons.mp canonical.proper).1
  · exact fun inOrder => ⟨proper_cons.mpr ⟨inOrder, proper_nil⟩,
      List.pairwise_singleton _ _⟩

/-- Where both axes fit, the ranges denote the rectangle. -/
theorem denoted_ranges (some : request.nMinor ≠ 0)
    (majors : request.majorI + request.nMajor ≤ 2 ^ 32)
    (minors : request.minorI + request.nMinor ≤ 2 ^ 32) :
    denoted request.ranges = request.rectangle := by
  have last : wrap32 (request.minorI + request.nMinor - 1) =
      request.minorI + request.nMinor - 1 :=
    Nat.mod_eq_of_lt (by omega)
  ext index
  simp only [denoted, rectangle, Set.mem_ofPred_eq]
  constructor
  · rintro ⟨entry, member, major, covered⟩
    obtain ⟨elem, within, rfl⟩ := mem_ranges.mp member
    have small : wrap32 elem = elem := Nat.mod_eq_of_lt (by omega)
    rw [last, covers_cons] at covered
    simp only [covers_nil, or_false] at covered
    rw [← major, small]
    exact ⟨within, by omega⟩
  · rintro ⟨within, minor⟩
    refine ⟨_, mem_ranges.mpr ⟨index.majI, within, rfl⟩, ?_, ?_⟩
    · exact Nat.mod_eq_of_lt (by omega)
    · rw [last, covers_cons]
      exact .inl (by dsimp only; omega)

/-! ## Responses -/

section Handle

variable {env : Env} {bases : Bases} {maxSubaddresses : ℕ} {db next : Db}
  {user : Account} {response : NewSubaddrsResponse}

/-- The arguments of the upsert. -/
def upsert (request : ProvisionSubaddrsRequest) (user : Account)
    (maxSubaddresses : ℕ) : Upsert :=
  ⟨user.id, request.creds.address, request.creds.key, maxSubaddresses⟩

theorem handle_ok (opened : openAccount env db request.creds = .ok user)
    (handled : request.handle env maxSubaddresses db = (.ok response, next)) :
    ∃ out, request.upsertRectangle env maxSubaddresses db user.id =
      .ok (next, out) := by
  unfold handle at handled
  split at handled
  · cases handled
  rw [opened] at handled
  dsimp only at handled
  split at handled
  · cases handled
  · rename_i upserted
    cases handled
    exact ⟨_, upserted⟩

theorem handle_error (opened : openAccount env db request.creds = .ok user)
    (failed : ∀ result,
      request.upsertRectangle env maxSubaddresses db user.id ≠ .ok result) :
    ∃ failure, request.handle env maxSubaddresses db = (.error failure, db) := by
  unfold handle
  split
  · exact ⟨_, rfl⟩
  rw [opened]
  dsimp only
  split
  · exact ⟨_, rfl⟩
  · rename_i upserted
    exact absurd upserted (failed _)

theorem handle_upserted (opened : openAccount env db request.creds = .ok user)
    (beyond : ¬ request.MajorsFit) {out : List SubaddressDict}
    (upserted : request.upsertRectangle env maxSubaddresses db user.id =
      .ok (next, out)) :
    ∃ response,
      request.handle env maxSubaddresses db = (.ok response, next) := by
  have given : ¬ (request.majI = none ∧ request.minI = none ∧
      request.nMin = none ∧ request.nMaj = none) := by
    rintro ⟨major, -, -, count⟩
    refine beyond (.inr (.inr ?_))
    rw [majorI, nMajor, major, count]
    decide
  unfold handle
  rw [if_neg given, opened]
  dsimp only
  rw [upserted]
  exact ⟨_, rfl⟩

theorem upsertRectangle_ok (limit : maxSubaddresses ≤ maxU32)
    (majors : request.nMajor ≠ 0) (minors : request.nMinor ≠ 0)
    {result : Db × List SubaddressDict} :
    request.upsertRectangle env maxSubaddresses db user.id = .ok result ↔
      request.nMajor * request.nMinor ≤ maxSubaddresses ∧
        (request.upsert user maxSubaddresses).call env request.ranges db =
          .ok result := by
  have quotient : maxU32 / request.nMajor < request.nMinor ↔
      maxU32 < request.nMajor * request.nMinor := by
    rw [Nat.div_lt_iff_lt_mul (Nat.pos_of_ne_zero majors), Nat.mul_comm]
  unfold upsertRectangle
  rw [if_pos ⟨majors, minors⟩]
  simp only [quotient]
  split
  · rename_i wide
    exact iff_of_false nofun fun both => by omega
  · rename_i small
    have product : wrap32 (request.nMajor * request.nMinor) =
        request.nMajor * request.nMinor :=
      Nat.mod_eq_of_lt (by unfold maxU32 at small; omega)
    rw [product]
    split
    · exact iff_of_false nofun fun both => by omega
    · rename_i within
      exact ⟨fun passed => ⟨by omega, passed⟩, And.right⟩

/-- An upsert succeeds unless the limit or the minors make it fail. -/
theorem upsertRectangle_iff (fits : request.Fits)
    (limit : maxSubaddresses ≤ maxU32) (majors : request.nMajor ≠ 0)
    (minors : request.nMinor ≠ 0) :
    (∃ result, request.upsertRectangle env maxSubaddresses db user.id =
        .ok result) ↔
      ¬ request.Refused maxSubaddresses db user := by
  simp only [upsertRectangle_ok limit majors minors, exists_and_left, Refused,
    not_or, not_lt]
  refine and_congr_right fun product => ?_
  constructor
  · rintro ⟨⟨next, out⟩, success⟩
    have checked := call_checked success
    obtain ⟨first, member⟩ : ∃ first, first ∈ request.ranges :=
      ⟨_, mem_ranges.mpr ⟨request.majorI, ⟨le_rfl, by omega⟩, rfl⟩⟩
    exact ⟨(ranges_checked fits minors member).mp (checked first member),
      (call_ok_iff checked (ranges_distinct fits)).mp ⟨_, success⟩⟩
  · rintro ⟨minorsFit, room⟩
    have checked : ∀ entry ∈ request.ranges,
        checkSubaddressDict entry = true := fun entry member =>
      (ranges_checked fits minors member).mpr minorsFit
    exact (call_ok_iff checked (ranges_distinct fits)).mpr room

theorem upsertRectangle_empty
    (empty : request.nMajor = 0 ∨ request.nMinor = 0) :
    request.upsertRectangle env maxSubaddresses db user.id = .ok (db, []) := by
  unfold upsertRectangle
  rw [if_neg (by omega)]

theorem rectangle_nonempty :
    request.rectangle.Nonempty ↔
      request.nMajor ≠ 0 ∧ request.nMinor ≠ 0 := by
  constructor
  · rintro ⟨index, ⟨_, _⟩, _, _⟩
    omega
  · rintro ⟨majors, minors⟩
    exact ⟨⟨request.majorI, request.minorI⟩, ⟨le_rfl, by dsimp only; omega⟩,
      le_rfl, by dsimp only; omega⟩

/-- With majors that fit, an index that does not is at a minor beyond. -/
theorem minors_beyond (majors : request.majorI + request.nMajor ≤ 2 ^ 32)
    {index : AddressIndex} (member : index ∈ request.rectangle)
    (beyond : ¬ index.Fits) :
    2 ^ 32 < request.minorI + request.nMinor := by
  obtain ⟨⟨_, _⟩, _, _⟩ := member
  unfold AddressIndex.Fits maxU32 at beyond
  omega

/-- Success means the exact rectangle, and failure comes for every one that
does not fit, exactly when the majors fit or something else makes the call
fail. -/
theorem provisions_rectangle_iff (keys : KeysDerived env bases db)
    (injective : bases.Injective env) (fits : request.Fits)
    (limit : maxSubaddresses ≤ maxU32)
    (opened : openAccount env db request.creds = .ok user)
    (known : bases user.id request.creds.address request.creds.key)
    (indexed : db.RangesIndexed user.id) :
    request.Provisions env maxSubaddresses db user ↔
      request.MajorsFit ∨ request.Refused maxSubaddresses db user := by
  by_cases empty : request.nMajor = 0 ∨ request.nMinor = 0
  · -- nothing is written
    refine iff_of_true ⟨?_, ?_⟩ (.inl (by unfold MajorsFit; omega))
    · intro response next handled
      obtain ⟨out, written⟩ := handle_ok opened handled
      rw [upsertRectangle_empty empty] at written
      cases written
      have none : ∀ index, index ∉ request.rectangle := by
        intro index member
        have := rectangle_nonempty.mp ⟨index, member⟩
        omega
      exact ⟨by simp [none], by simp [none]⟩
    · intro some
      have := rectangle_nonempty.mp some
      omega
  obtain ⟨majors, minors⟩ := not_or.mp empty
  have some := rectangle_nonempty.mpr ⟨majors, minors⟩
  have succeeds := @upsertRectangle_iff request env maxSubaddresses db user fits
    limit majors minors
  constructor
  · intro provisions
    by_contra neither
    obtain ⟨beyond, accepted⟩ := not_or.mp neither
    obtain ⟨⟨next, out⟩, written⟩ := succeeds.mpr accepted
    have last : (⟨request.majorI + request.nMajor - 1, request.minorI⟩ :
        AddressIndex) ∈ request.rectangle := by
      refine ⟨⟨?_, ?_⟩, le_rfl, ?_⟩ <;> dsimp only <;> omega
    obtain ⟨response, handled⟩ := handle_upserted opened beyond written
    obtain ⟨failure, failed⟩ := provisions.refuses some (.inl ⟨_, last, by
      unfold MajorsFit at beyond
      unfold AddressIndex.Fits maxU32
      dsimp only
      omega⟩)
    rw [handled] at failed
    cases failed
  · intro condition
    constructor
    · intro response next handled
      obtain ⟨out, written⟩ := handle_ok opened handled
      have accepted := succeeds.mp ⟨_, written⟩
      have fitting := condition.resolve_right accepted
      have minorsFit : request.minorI + request.nMinor ≤ 2 ^ 32 := by
        by_contra beyond
        exact accepted (.inr (.inl (by omega)))
      obtain ⟨-, success⟩ := (upsertRectangle_ok limit majors minors).mp written
      rw [← denoted_ranges minors (by unfold MajorsFit at fitting; omega)
        minorsFit]
      exact call_adds keys injective known indexed success
    · intro _ tooLarge
      refine handle_error opened fun result written => ?_
      have accepted := succeeds.mp ⟨_, written⟩
      have fitting : request.majorI + request.nMajor ≤ 2 ^ 32 := by
        have := condition.resolve_right accepted
        unfold MajorsFit at this
        omega
      have minorsFit : request.minorI + request.nMinor ≤ 2 ^ 32 := by
        by_contra beyond
        exact accepted (.inr (.inl (by omega)))
      obtain ⟨-, success⟩ := (upsertRectangle_ok limit majors minors).mp written
      rcases tooLarge with ⟨index, member, beyond⟩ | overflow
      · have := minors_beyond fitting member beyond
        omega
      · rw [← denoted_ranges minors fitting minorsFit] at overflow
        exact call_refuses keys indexed overflow result success

end Handle

/-- A new account without subaddresses. -/
private def emptyAccountDb : Db :=
  after derivingEnv sampleDb (.addAccount 0 sampleAddress 7 0)

private def emptyAccount : Account :=
  ⟨1, 0, sampleAddress, 7, 0, 0, 0, 0, ⟨0, 0⟩, 0⟩

private theorem emptyAccountDb_ranges : emptyAccountDb.subaddressRanges.rows = [] :=
  rfl

private theorem emptyAccountDb_keys :
    KeysDerived derivingEnv sampleBases emptyAccountDb where
  proper := by
    intro row member
    rw [← SortedRows.mem_rows, emptyAccountDb_ranges] at member
    cases member
  derived := fun row member => nomatch (SortedRows.mem_rows.mpr member :
    row ∈ ([] : List (AccountId × SubaddressMap)))

private theorem emptyAccountDb_indexed : emptyAccountDb.RangesIndexed 1 := by
  rintro index ⟨ranges, member, -⟩
  rw [← SortedRows.mem_rows, emptyAccountDb_ranges] at member
  cases member

private def sampleCreds : AccountCredentials := ⟨sampleAddress, 7⟩

/-- Two majors of three minors each. -/
theorem provisions_small_rectangle :
    Provisions ⟨sampleCreds, some 1, none, some 2, some 3, none⟩ derivingEnv 10
      emptyAccountDb emptyAccount := by
  have opened : openAccount derivingEnv emptyAccountDb sampleCreds =
      .ok emptyAccount := by
    decide
  have known : sampleBases emptyAccount.id sampleAddress 7 := rfl
  have fits : Fits ⟨sampleCreds, some 1, none, some 2, some 3, none⟩ :=
    ⟨by decide, by decide, by decide, by decide⟩
  have condition : MajorsFit ⟨sampleCreds, some 1, none, some 2, some 3, none⟩ :=
    .inr (.inr (by decide))
  exact (provisions_rectangle_iff emptyAccountDb_keys sampleBases_injective fits
    (by decide) opened known emptyAccountDb_indexed).mpr (.inl condition)

/-- Two majors from the last one on: the second is major zero. -/
theorem provision_wraps_to_first_major :
    ¬ ∀ (env : Env) (bases : Bases) (maxSubaddresses : ℕ) (db : Db)
      (user : Account) (request : ProvisionSubaddrsRequest),
      KeysDerived env bases db → bases.Injective env → request.Fits →
      maxSubaddresses ≤ maxU32 →
      openAccount env db request.creds = .ok user →
      bases user.id request.creds.address request.creds.key →
      db.RangesIndexed user.id →
      request.Provisions env maxSubaddresses db user := by
  intro provisions
  have sound := provisions derivingEnv sampleBases 10 emptyAccountDb
    emptyAccount ⟨sampleCreds, some maxU32, none, some 2, some 1, none⟩
    emptyAccountDb_keys sampleBases_injective
    ⟨by decide, by decide, by decide, by decide⟩ (by decide) (by decide) rfl
    emptyAccountDb_indexed
  have beyond : (⟨maxU32 + 1, 0⟩ : AddressIndex) ∈ rectangle
      ⟨sampleCreds, some maxU32, none, some 2, some 1, none⟩ :=
    ⟨⟨by decide, by decide⟩, by decide, by decide⟩
  obtain ⟨failure, failed⟩ := sound.refuses ⟨_, beyond⟩
    (.inl ⟨_, beyond, fun fits => absurd fits.1 (by decide)⟩)
  have succeeded : (handle ⟨sampleCreds, some maxU32, none, some 2, some 1,
      none⟩ derivingEnv 10 emptyAccountDb).1.isOk = true := by
    decide
  rw [failed] at succeeded
  cases succeeded

end ProvisionSubaddrsRequest

end XfoLws.Rest
