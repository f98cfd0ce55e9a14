import XfoLws.Db.Accounts
import Mathlib.Data.List.Lex
import Mathlib.Data.List.Sort

/-!
# Subaddress tables

`do_upsert` merges requested ranges of minor indexes into the stored ones and
writes one row of `subaddress_indexes` for every index.  A failed upsert
leaves its writes behind: `do_lookahead` and `update_lookahead` turn the
failure into success, so the tables are returned in both cases.
-/

namespace XfoLws.Db

/-- `address_index::get_spend_public`. -/
def AddressIndex.getSpendPublic (env : Env) (index : AddressIndex)
    (base : AccountAddress) (view : SecretKey) : PublicKey :=
  if index.isZero then base.spendPublic else env.subaddressKey base view index

/-- `add_and_clamp` on 32-bit values. -/
def addAndClamp (start count : ℕ) : ℕ :=
  if maxU32 - count < start then maxU32 else start + count

/-! ## Ranges of minor indexes -/

def checkRanges : Bool → ℕ → IndexRanges → Bool
  | _, _, [] => true
  | isFirst, last, elem :: rest =>
      if elem.last < elem.first then false
      else if elem.first ≤ last + 1 && !isFirst then false
      else checkRanges false elem.last rest

/-- `check_subaddress_dict`: ranges are non-empty, increasing and apart. -/
def checkSubaddressDict (dict : SubaddressDict) : Bool :=
  checkRanges true 0 dict.2

/-- `check_max_range`: the new count, unless `range` does not fit. -/
def checkMaxRange (maxSubaddr count : ℕ) (range : IndexRange) : Option ℕ :=
  let more := range.last - range.first
  if maxSubaddr - count ≤ more then none else some (count + (more + 1))

def checkMaxRanges (maxSubaddr count : ℕ) (ranges : IndexRanges) : Option ℕ :=
  ranges.foldlM (checkMaxRange maxSubaddr) count

/-- `add_out`: note a new range, in the last entry if that has its major. -/
def addOut (out : List SubaddressDict) (major : ℕ) (minor : IndexRange) :
    List SubaddressDict :=
  match out.getLast? with
  | none => [(major, [minor])]
  | some last =>
      if last.1 ≠ major then out ++ [(major, [minor])]
      else out.dropLast ++ [(last.1, last.2 ++ [minor])]

/-- What merging one major index has produced so far. -/
structure Merge where
  count : ℕ
  newDict : IndexRanges
  out : List SubaddressDict
deriving DecidableEq, Repr

/-- Count and report a range that was not stored before. -/
def Merge.note (maxSubaddr major : ℕ) (merge : Merge) (range : IndexRange) :
    Option Merge :=
  (checkMaxRange maxSubaddr merge.count range).map fun count =>
    { merge with count := count, out := addOut merge.out major range }

/-- The passes of the merge loop until the new range at hand is consumed.
Returns the stored ranges that are left. -/
def mergeRange (maxSubaddr major : ℕ) (new : IndexRange) :
    IndexRanges → Merge → Option (IndexRanges × Merge)
  | [], merge => do
      let merge ← merge.note maxSubaddr major new
      some ([], { merge with newDict := merge.newDict ++ [new] })
  | old :: olds, merge =>
      if new.last + 1 < old.first then do
        -- new has no overlap with existing
        let merge ← merge.note maxSubaddr major new
        some (old :: olds, { merge with newDict := merge.newDict ++ [new] })
      else if old.last + 1 < new.first then
        -- existing has no overlap with new
        mergeRange maxSubaddr major new olds
          { merge with newDict := merge.newDict ++ [old] }
      else if old.first ≤ new.first && new.last ≤ old.last then
        some (old :: olds, merge)
      else do
        let merge ←
          if new.first < old.first then
            merge.note maxSubaddr major ⟨new.first, old.first - 1⟩
          else some merge
        let first := min new.first old.first
        let merge ←
          if old.last < new.last then
            merge.note maxSubaddr major ⟨old.last + 1, new.last⟩
          else some merge
        some (⟨first, max old.last new.last⟩ :: olds, merge)

/-- The merge of all requested ranges of one major index; `none` is
`max_subaddresses`. -/
def mergeRanges (maxSubaddr major : ℕ) (old new : IndexRanges)
    (merge : Merge) : Option Merge := do
  let (olds, merge) ← new.foldlM
    (fun (olds, merge) range => mergeRange maxSubaddr major range olds merge)
    (old, merge)
  some { merge with newDict := merge.newDict ++ olds }

/-- The minor indexes of a range. -/
def IndexRange.minors (range : IndexRange) : List ℕ :=
  List.range' range.first (range.last + 1 - range.first)

/-! ## Upsert -/

/-- The arguments `do_upsert` keeps over its whole loop. -/
structure Upsert where
  id : AccountId
  address : AccountAddress
  viewKey : SecretKey
  maxSubaddr : ℕ

/-- The rows of `subaddress_indexes` for the given ranges. -/
def Upsert.indexRows (env : Env) (args : Upsert) (major : ℕ)
    (ranges : IndexRanges) : List (AccountId × SubaddressMap) :=
  ranges.flatMap fun range => range.minors.map fun minor =>
    let index : AddressIndex := ⟨major, minor⟩
    (args.id, ⟨index.getSpendPublic env args.address args.viewKey, index⟩)

def Upsert.store (env : Env) (args : Upsert) (db : Db) (major : ℕ)
    (newDict : IndexRanges) : Db :=
  { db with
    subaddressIndexes :=
      db.subaddressIndexes.addAll (args.indexRows env major newDict)
    subaddressRanges :=
      db.subaddressRanges.put (args.id, (major, newDict)) }

/-- One pass of the loop in `do_upsert`: the count and the reported ranges. -/
def Upsert.major (env : Env) (args : Upsert) (db : Db) (count : ℕ)
    (out : List SubaddressDict) (entry : SubaddressDict) :
    Except Error (ℕ × List SubaddressDict) × Db :=
  if !checkSubaddressDict entry then (.error .schemaArray, db)
  else
    match db.subaddressRanges.find? (toLex (args.id, entry.1)) with
    | none =>
        match checkMaxRanges args.maxSubaddr count entry.2 with
        | none => (.error .maxSubaddresses, db)
        | some count =>
            (.ok (count, out ++ [entry]), args.store env db entry.1 entry.2)
    | some old =>
        -- updated at end
        let db := { db with
          subaddressRanges :=
            db.subaddressRanges.erase (toLex (args.id, entry.1)) }
        match mergeRanges args.maxSubaddr entry.1 old.2.2 entry.2
            ⟨count, [], out⟩ with
        | none => (.error .maxSubaddresses, db)
        | some merge =>
            (.ok (merge.count, merge.out),
              args.store env db entry.1 merge.newDict)

def Upsert.majors (env : Env) (args : Upsert) :
    List SubaddressDict → ℕ → List SubaddressDict → Db →
      Except Error (List SubaddressDict) × Db
  | [], _, out, db => (.ok out, db)
  | entry :: entries, count, out, db =>
      match args.major env db count out entry with
      | (.error failure, db) => (.error failure, db)
      | (.ok (count, out), db) => args.majors env entries count out db

/-- Number of rows in `subaddress_indexes` under `id`. -/
def subaddressCount (db : Db) (id : AccountId) : ℕ :=
  (db.subaddressIndexes.rows.filter fun row => row.1 = id).length

def doUpsert (env : Env) (args : Upsert) (subaddrs : List SubaddressDict)
    (db : Db) : Except Error (List SubaddressDict) × Db :=
  if args.maxSubaddr < db.subaddressCount args.id then
    (.error .maxSubaddresses, db)
  else args.majors env subaddrs (db.subaddressCount args.id) [] db

/-- `std::sort` on `subaddress_dict` values. -/
def SubaddressDict.le (left right : SubaddressDict) : Prop :=
  left.1 < right.1 ∨
    (left.1 = right.1 ∧
      left.2.flatMap (fun range => [range.first, range.last]) ≤
        right.2.flatMap fun range => [range.first, range.last])

instance : DecidableRel SubaddressDict.le := fun _ _ =>
  inferInstanceAs (Decidable (_ ∨ _))

/-- `storage::upsert_subaddresses`. -/
def upsertSubaddresses (env : Env) (db : Db) (id : AccountId)
    (address : AccountAddress) (viewKey : SecretKey)
    (subaddrs : List SubaddressDict) (maxSubaddr : ℕ) :
    Except Error (Db × List SubaddressDict) :=
  match doUpsert env ⟨id, address, viewKey, maxSubaddr⟩
      (subaddrs.insertionSort SubaddressDict.le) db with
  | (.error failure, _) => .error failure
  | (.ok out, db) => .ok (db, out)

/-! ## Lookahead -/

/-- One pass over a received output in `do_lookahead`: widen the vector and
raise the last minor index of its major.  The cursor only moves on after a
subaddress; at a primary receipt the loop repeats for ever. -/
def lookaheadPass (lookahead : AddressIndex) (maxSubaddresses : ℕ)
    (initial : List SubaddressDict) (recipient : AddressIndex) :
    Except Error (List SubaddressDict) :=
  if recipient.isZero then .error .diverges
  else
    let index := recipient.majI
    let needed := addAndClamp index lookahead.majI
    let thisMinor := addAndClamp (lookahead.minI - 1) recipient.minI
    if maxU32 < needed / lookahead.minI then .error .maxSubaddresses
    else if maxSubaddresses < wrap32 (needed * lookahead.minI) then
      .error .maxSubaddresses
    else
      let initial :=
        initial ++ List.replicate (needed - initial.length) (0, [])
      match initial[index]? with
      | none => .error .outOfRange
      | some (major, range :: ranges) => .ok
          (initial.set index
            (major, ⟨range.first, max range.last thisMinor⟩ :: ranges))
      | some (_, []) => .ok
          (initial.set index (lookahead.majI, [⟨0, thisMinor⟩]))

/-- Fill every gap with the default range, counting what is requested. -/
def lookaheadFill (minor maxSubaddresses : ℕ) :
    ℕ → ℕ → List SubaddressDict → Except Error (List SubaddressDict)
  | _, _, [] => .ok []
  | index, total, elem :: rest =>
      let (ranges, thisMinor) :=
        match elem.2 with
        | [] => ([⟨0, minor - 1⟩], minor)
        | range :: _ => (elem.2, range.last)
      if maxSubaddresses - total < thisMinor then .error .maxSubaddresses
      else do
        let rest ←
          lookaheadFill minor maxSubaddresses (index + 1) (total + thisMinor)
            rest
        .ok ((index, ranges) :: rest)

/-- Recipients of the outputs stored under `id`, in table order. -/
def recipients (db : Db) (id : AccountId) : List AddressIndex :=
  (db.outputs.rows.filter fun row => row.1 = id).map fun row =>
    row.2.recipient

/-- The dictionary `do_lookahead` hands to `do_upsert`. -/
def lookaheadDict (lookahead : AddressIndex) (maxSubaddresses : ℕ)
    (recipients : List AddressIndex) : Except Error (List SubaddressDict) := do
  let initial ← recipients.foldlM (lookaheadPass lookahead maxSubaddresses)
    (List.replicate lookahead.majI (0, []))
  lookaheadFill lookahead.minI maxSubaddresses 0 0 initial

def doLookahead (env : Env) (args : Upsert) (lookahead : AddressIndex)
    (db : Db) : Except Error Unit × Db :=
  if lookahead.majI = 0 ∨ lookahead.minI = 0 then (.ok (), db)
  else if maxU32 < lookahead.majI / lookahead.minI then
    (.error .maxSubaddresses, db)
  else if args.maxSubaddr < wrap32 (lookahead.majI * lookahead.minI) then
    (.error .maxSubaddresses, db)
  else
    match lookaheadDict lookahead args.maxSubaddr (db.recipients args.id) with
    | .error failure => (.error failure, db)
    | .ok initial =>
        match doUpsert env args initial db with
        | (.error failure, db) => (.error failure, db)
        | (.ok _, db) => (.ok (), db)

/-- `do_lookahead` on an account: a limit failure is recorded in the account
and the call succeeds. -/
def lookaheadAccount (env : Env) (user : Account) (lookahead : AddressIndex)
    (maxSubaddresses : ℕ) (db : Db) : Except Error (Account × Db) :=
  match doLookahead env ⟨user.id, user.address, user.key, maxSubaddresses⟩
      lookahead db with
  | (.ok _, db) => .ok ({ user with lookahead := lookahead }, db)
  | (.error failure, db) =>
      if failure = .maxSubaddresses then
        .ok ({ user with
          lookahead := lookahead
          lookaheadFail := max 1 user.startHeight }, db)
      else .error failure

/-- A zero lookahead, as of most requests, provisions nothing. -/
def provision (env : Env) (user : Account) (lookahead : AddressIndex)
    (maxSubaddresses : ℕ) (db : Db) : Except Error (Account × Db) :=
  if lookahead.isZero then .ok (user, db)
  else lookaheadAccount env user lookahead maxSubaddresses db

/-- The ranges `update_lookahead` requests around a matched index. -/
def lookaheadWindow (lookahead matched : AddressIndex) :
    List SubaddressDict :=
  (List.range (addAndClamp matched.majI lookahead.majI)).map fun major =>
    if major = matched.majI then
      (major, [⟨0, addAndClamp matched.minI (lookahead.minI - 1)⟩])
    else (major, [⟨0, lookahead.minI - 1⟩])

/-- `storage::update_lookahead`; the result is the number of changed majors,
or `-1` after a limit failure. -/
def updateLookahead (env : Env) (db : Db) (address : AccountAddress)
    (height : BlockId) (matched : AddressIndex) (maxSubaddresses : ℕ) :
    Except Error (Db × ℤ) :=
  match db.findByAddress? address with
  | none => .error .accountNotFound
  | some byAddress =>
      match db.findAccount? byAddress.lookup with
      | none => .error (.notFound .accounts .getBoth)
      | some user =>
          let major := user.lookahead.majI
          let minor := user.lookahead.minI
          if major = 0 ∨ minor = 0 then .ok (db, 0)
          else
            let upserted : Except Error (List SubaddressDict) × Db :=
              if major / minor ≤ maxU32 ∧
                  wrap32 (major * minor) ≤ maxSubaddresses then
                doUpsert env ⟨user.id, address, user.key, maxSubaddresses⟩
                  (lookaheadWindow user.lookahead matched) db
              else (.error .maxSubaddresses, db)
            match upserted with
            | (.ok out, db) => .ok (db, min maxU32 out.length)
            | (.error failure, db) =>
                if failure ≠ .maxSubaddresses then .error failure
                else
                  let fail :=
                    if user.lookaheadFail = 0 then max 1 height
                    else max 1 (min user.lookaheadFail height)
                  .ok ({ db with
                    accounts := db.accounts.put (byAddress.lookup.status,
                      { user with lookaheadFail := fail }) }, -1)

/-- `storage::shrink_lookahead`. -/
def shrinkLookahead (db : Db) (address : AccountAddress)
    (lookahead : AddressIndex) : Except Error Db :=
  match db.findByAddress? address with
  | none => .error .accountNotFound
  | some byAddress =>
      match db.findAccount? byAddress.lookup with
      | none => .error (.notFound .accounts .getBoth)
      | some user =>
          if user.lookaheadFail ≠ 0 ∨
              user.lookahead.majI < lookahead.majI ∨
              user.lookahead.minI < lookahead.minI then
            .error .maxSubaddresses
          else .ok { db with
            accounts := db.accounts.put (byAddress.lookup.status,
              { user with lookahead := lookahead }) }

end XfoLws.Db
