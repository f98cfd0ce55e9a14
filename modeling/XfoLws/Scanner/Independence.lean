import XfoLws.Db.SubaddressViews
import XfoLws.Lib.Outcome
import XfoLws.Scanner.Transaction

/-!
# Accounts are scanned apart

What an account finds in a transaction is a function of the account, the
transaction and the account's own subaddress rows.  Only the payment id is
handed on: the first account that receives an output decrypts it in place.
-/

namespace XfoLws

open Db

/-! ## What an account finds -/

namespace LwsAccount

/-- The rows found since the last update. -/
def rows (user : LwsAccount) : List Output × List Spend :=
  (user.outputs, user.spends)

end LwsAccount

namespace Scanner

/-- A ring member the account can spend. -/
structure RingMember where
  mixinCount : ℕ
  kImage : KeyImage
  source : OutputId
  sender : AddressIndex
deriving DecidableEq, Repr

/-- Everything one account finds in a transaction, payment ids aside. -/
structure Findings where
  members : List RingMember
  receipts : List Receipt
  reader : SubaddressReader
  thrown : Option Thrown

/-- The payment id after the first of some received outputs. -/
def Transaction.settled (crypto : Crypto) (tx : Transaction)
    (payment : Payment) (receipts : List Receipt) : Payment :=
  match receipts with
  | [] => payment
  | first :: _ => tx.settle crypto first.found.activeDerived payment

/-- The outputs whose public key is new to the account. -/
def freshReceipts : List PublicKey → List Receipt → List Receipt
  | _, [] => []
  | pubs, receipt :: receipts =>
      if receipt.pub ∈ pubs then freshReceipts pubs receipts
      else receipt :: freshReceipts (receipt.pub :: pubs) receipts

namespace Scan

variable (scan : Scan)

/-- The members of one ring that are in `spendable`. -/
def members (user : LwsAccount) (mixin amount : ℕ) (kImage : KeyImage)
    (goffsets : List ℕ) : List RingMember :=
  goffsets.filterMap fun goffset =>
    (user.getSpendable ⟨amount, goffset⟩).map fun sender =>
      ⟨mixin, kImage, ⟨amount, goffset⟩, sender⟩

/-- The spendable members of all rings, up to an input that throws. -/
def inputMembers (user : LwsAccount) : List TxIn → List RingMember
  | [] => []
  | .toKey amount keyOffsets kImage :: rest =>
      match numericCast32 (max 1 keyOffsets.length - 1) with
      | .error _ => []
      | .ok mixin =>
          members user mixin amount kImage (goffsets 0 keyOffsets) ++
            inputMembers user rest
  | _ :: rest => inputMembers user rest

/-- The flags and the mixin count, which are the same for all accounts. -/
def inputFlags : List TxIn → Extra → ℕ → (Extra × ℕ) × Option Thrown
  | [], ext, mixin => ((ext, mixin), none)
  | .toKey _ keyOffsets _ :: rest, ext, mixin =>
      match numericCast32 (max 1 keyOffsets.length - 1) with
      | .error thrown => ((ext, mixin), some thrown)
      | .ok mixin => inputFlags rest ext mixin
  | .gen :: rest, ext, mixin =>
      inputFlags rest { ext with coinbase := true } mixin
  | .other :: rest, ext, mixin => inputFlags rest ext mixin

/-- The outputs an account receives, up to one that throws. -/
def receipts (user : LwsAccount) (key : PublicKey) (derived : KeyDerivation)
    (additional : List KeyDerivation) (mixin : ℕ) :
    List (TxOut × ℕ) → Extra → SubaddressReader →
      List Receipt × SubaddressReader × Option Thrown
  | [], _, reader => ([], reader, none)
  | (out, index) :: rest, ext, reader =>
      match scan.receive user key derived additional ext mixin out index
          reader with
      | .error thrown => ([], reader, some thrown)
      | .ok (none, reader) =>
          receipts user key derived additional mixin rest ext reader
      | .ok (some receipt, reader) =>
          let (later, reader, thrown) :=
            receipts user key derived additional mixin rest receipt.ext reader
          (receipt :: later, reader, thrown)

/-- What one account finds, given its own keys and rows. -/
def findings (key : PublicKey) (user : LwsAccount)
    (reader : SubaddressReader) : Findings :=
  if scan.height ≤ user.height then ⟨[], [], reader, none⟩
  else
    match scan.crypto.generateKeyDerivation key user.viewKey with
    | none => ⟨[], [], reader, none⟩
    | some derived =>
        match inputFlags scan.tx.vin ⟨false, false⟩ 0 with
        | (_, some thrown) =>
            ⟨inputMembers user scan.tx.vin, [], reader, some thrown⟩
        | ((ext, mixin), none) =>
            let (receipts, reader, thrown) := scan.receipts user key derived
              (scan.additionalDerivations user ⟨scan.tx.payment, [], reader⟩)
              mixin scan.tx.vout.zipIdx ext reader
            ⟨inputMembers user scan.tx.vin, receipts, reader, thrown⟩

def spendRow (payment : Payment) (member : RingMember) : Spend :=
  scan.spend payment member.mixinCount member.kImage member.source
    member.sender

def recordSpends (user : LwsAccount) (payment : Payment)
    (members : List RingMember) : LwsAccount :=
  { user with spends := user.spends ++ members.map (scan.spendRow payment) }

/-- The account with the rows of its findings. -/
def record (user : LwsAccount) (payment : Payment)
    (members : List RingMember) (receipts : List Receipt) : LwsAccount :=
  receipts.foldl
    (fun user receipt => (user.addOut (scan.output
      (scan.tx.settled scan.crypto payment receipts) receipt)).1)
    (scan.recordSpends user payment members)

/-! ## One account adds its findings -/

variable {scan}

theorem ring_eq (payment : Payment) (mixin amount : ℕ) (kImage : KeyImage)
    (goffsets : List ℕ) (user : LwsAccount) :
    scan.ring payment mixin amount kImage goffsets user =
      scan.recordSpends user payment
        (members user mixin amount kImage goffsets) := by
  induction goffsets generalizing user with
  | nil => simp [ring, members, recordSpends]
  | cons goffset goffsets induction =>
      rw [ring]
      cases spendable : user.getSpendable ⟨amount, goffset⟩ with
      | none =>
          dsimp only
          rw [induction]
          simp [members, spendable]
      | some sender =>
          dsimp only
          rw [induction]
          have same : ∀ id, (user.addSpend (scan.spend payment mixin kImage
              ⟨amount, goffset⟩ sender)).getSpendable id =
              user.getSpendable id := fun _ => rfl
          simp only [members, List.filterMap_cons, spendable, same,
            Option.map_some]
          simp [LwsAccount.addSpend, spendRow, recordSpends]

theorem inputs_eq (payment : Payment) (vin : List TxIn) (user : LwsAccount)
    (ext : Extra) (mixin : ℕ) :
    scan.inputs payment vin user ext mixin =
      ((scan.recordSpends user payment (inputMembers user vin),
          (inputFlags vin ext mixin).1), (inputFlags vin ext mixin).2) := by
  induction vin generalizing user ext mixin with
  | nil => simp [inputs, inputMembers, inputFlags, recordSpends]
  | cons input vin induction =>
      cases input with
      | gen => simpa [inputs, inputMembers, inputFlags] using induction _ _ _
      | other => simpa [inputs, inputMembers, inputFlags] using induction _ _ _
      | toKey amount keyOffsets kImage =>
          simp only [inputs, inputMembers, inputFlags]
          cases numericCast32 (max 1 keyOffsets.length - 1) with
          | error thrown => simp [recordSpends]
          | ok mixin =>
              have same : ∀ spends : List Spend,
                  inputMembers { user with spends := spends } vin =
                    inputMembers user vin := by
                intro spends
                clear induction
                induction vin with
                | nil => rfl
                | cons input vin induction =>
                    cases input <;> simp only [inputMembers, induction]
                    rfl
              simp only [induction, ring_eq, recordSpends, same,
                List.map_append, List.append_assoc]

theorem settle_settle (crypto : Crypto) (tx : Transaction)
    (first second : KeyDerivation) (payment : Payment) :
    tx.settle crypto second (tx.settle crypto first payment) =
      tx.settle crypto first payment := by
  unfold Transaction.settle
  cases tx.extraNonce with
  | none => rfl
  | some nonce =>
      by_cases present : payment.length ≠ 0
      · simp only [if_pos present]
      · simp only [if_neg present]
        cases nonce.encryptedPaymentId with
        | none => simp only [if_neg present]
        | some short => rfl

/-- Recognition reads the unchanging part of an account. -/
theorem inspect_congr {left right : LwsAccount}
    (same : left.immutable = right.immutable) (outPubKey : PublicKey)
    (index : ℕ) (attempts : List (KeyDerivation × PublicKey))
    (reader : SubaddressReader) :
    scan.inspect left outPubKey index attempts reader =
      scan.inspect right outPubKey index attempts reader := by
  have sameId : left.id = right.id := congrArg LwsAccount.Internal.id same
  have sameKey : left.spendPublic = right.spendPublic :=
    congrArg (fun part => part.pubs.spendPublic) same
  have sameUpdate : ∀ matched, reader.updateLookahead scan.env left matched
      scan.height = reader.updateLookahead scan.env right matched
        scan.height := by
    intro matched
    unfold SubaddressReader.updateLookahead LwsAccount.dbAddress
    rw [same]
  induction attempts with
  | nil => rfl
  | cons attempt attempts induction =>
      simp only [inspect, induction, sameId, sameKey, sameUpdate]

theorem receive_congr {left right : LwsAccount}
    (same : left.immutable = right.immutable) (key : PublicKey)
    (derived : KeyDerivation) (additional : List KeyDerivation) (ext : Extra)
    (mixin : ℕ) (out : TxOut) (index : ℕ) (reader : SubaddressReader) :
    scan.receive left key derived additional ext mixin out index reader =
      scan.receive right key derived additional ext mixin out index
        reader := by
  unfold receive
  simp only [inspect_congr same]

theorem addOut_immutable (user : LwsAccount) (out : Output) :
    (user.addOut out).1.immutable = user.immutable := by
  unfold LwsAccount.addOut
  split <;> rfl

theorem receipts_congr {left right : LwsAccount}
    (same : left.immutable = right.immutable) (key : PublicKey)
    (derived : KeyDerivation) (additional : List KeyDerivation) (mixin : ℕ)
    (outs : List (TxOut × ℕ)) (ext : Extra) (reader : SubaddressReader) :
    scan.receipts left key derived additional mixin outs ext reader =
      scan.receipts right key derived additional mixin outs ext reader := by
  induction outs generalizing ext reader with
  | nil => rfl
  | cons out outs induction =>
      simp only [receipts, receive_congr same, induction]

theorem settled_cons (payment : Payment) (receipt : Receipt)
    (receipts : List Receipt) :
    scan.tx.settled scan.crypto
        (scan.tx.settle scan.crypto receipt.found.activeDerived payment)
        receipts =
      scan.tx.settled scan.crypto payment (receipt :: receipts) := by
  cases receipts with
  | nil => rfl
  | cons next receipts => exact settle_settle _ _ _ _ payment

/-- The loop over the outputs records what the account receives, all of it
under the payment id after the first receipt. -/
theorem outputs_eq (scan : Scan) (key : PublicKey) (derived : KeyDerivation)
    (additional : List KeyDerivation) (mixin : ℕ) (outs : List (TxOut × ℕ))
    (progress : Progress) :
    let found := scan.receipts progress.user key derived additional mixin outs
      progress.ext progress.reader
    let payment := scan.tx.settled scan.crypto progress.payment found.1
    let result := scan.outputs key derived additional mixin outs progress
    result.1.user = found.1.foldl
        (fun user receipt => (user.addOut (scan.output payment receipt)).1)
        progress.user ∧
      result.1.payment = payment ∧ result.1.reader = found.2.1 ∧
      result.2 = found.2.2 := by
  induction outs generalizing progress with
  | nil => exact ⟨rfl, rfl, rfl, rfl⟩
  | cons out outs induction =>
      simp only [outputs, receipts]
      cases received : scan.receive progress.user key derived additional
          progress.ext mixin out.1 out.2 progress.reader with
      | error thrown => exact ⟨rfl, rfl, rfl, rfl⟩
      | ok result =>
          obtain ⟨receipt, reader⟩ := result
          cases receipt with
          | none => exact induction { progress with reader := reader }
          | some receipt =>
              have later := induction
                { user := (progress.user.addOut (scan.output
                    (scan.tx.settle scan.crypto receipt.found.activeDerived
                      progress.payment) receipt)).1
                  payment := scan.tx.settle scan.crypto
                    receipt.found.activeDerived progress.payment
                  ext := receipt.ext
                  reader := reader }
              simp only [receipts_congr (addOut_immutable _ _),
                settled_cons] at later
              exact later

/-! ## The reader -/

theorem inspect_reader {user : LwsAccount} {outPubKey : PublicKey}
    {index : ℕ} {attempts : List (KeyDerivation × PublicKey)}
    {reader next : SubaddressReader} {found : Option Found}
    (inspected : scan.inspect user outPubKey index attempts reader =
      .ok (found, next)) :
    next = reader ∨ (reader.reader.isSome ∧ ∃ matched,
      reader.updateLookahead scan.env user matched scan.height =
        .ok next) := by
  induction attempts with
  | nil =>
      cases inspected
      exact .inl rfl
  | cons attempt attempts induction =>
      rw [inspect] at inspected
      split at inspected
      · exact induction inspected
      split at inspected
      · split at inspected
        · exact induction inspected
        · rename_i matched found
          obtain ⟨state, updated, result⟩ := Outcome.bind_eq_ok.mp inspected
          obtain ⟨db, opened, -⟩ := Option.bind_eq_some_iff.mp found
          cases result
          exact .inr ⟨Option.isSome_of_mem opened, matched, updated⟩
      · cases inspected
        exact .inl rfl

theorem receive_reader {user : LwsAccount} {key : PublicKey}
    {derived : KeyDerivation} {additional : List KeyDerivation} {ext : Extra}
    {mixin : ℕ} {out : TxOut} {index : ℕ} {reader next : SubaddressReader}
    {receipt : Option Receipt}
    (received : scan.receive user key derived additional ext mixin out index
      reader = .ok (receipt, next)) :
    next = reader ∨ (reader.reader.isSome ∧ ∃ matched,
      reader.updateLookahead scan.env user matched scan.height =
        .ok next) := by
  unfold receive at received
  split at received
  · cases received
    exact .inl rfl
  split at received
  · cases received
    exact .inl rfl
  obtain ⟨⟨found, state⟩, inspected, rest⟩ := Outcome.bind_eq_ok.mp received
  have same : state = next := by
    dsimp only at rest
    split at rest
    · cases rest
      rfl
    obtain ⟨decoded, -, rest⟩ := Outcome.bind_eq_ok.mp rest
    split at rest
    · cases rest
      rfl
    obtain ⟨low, -, rest⟩ := Outcome.bind_eq_ok.mp rest
    obtain ⟨index, -, rest⟩ := Outcome.bind_eq_ok.mp rest
    cases rest
    rfl
  exact same ▸ inspect_reader inspected

/-- What the windows of an account keep, its outputs keep. -/
theorem receipts_reader {user : LwsAccount}
    (invariant : SubaddressReader → Prop)
    (step : ∀ reader matched next, invariant reader →
      reader.reader.isSome →
      reader.updateLookahead scan.env user matched scan.height = .ok next →
      invariant next)
    (key : PublicKey) (derived : KeyDerivation)
    (additional : List KeyDerivation) (mixin : ℕ) (outs : List (TxOut × ℕ))
    (ext : Extra) {reader : SubaddressReader} (holds : invariant reader) :
    invariant (scan.receipts user key derived additional mixin outs ext
      reader).2.1 := by
  induction outs generalizing ext reader with
  | nil => exact holds
  | cons out outs induction =>
      rw [receipts]
      cases received : scan.receive user key derived additional ext mixin
          out.1 out.2 reader with
      | error thrown => exact holds
      | ok result =>
          obtain ⟨receipt, next⟩ := result
          have kept : invariant next := by
            rcases receive_reader received with
              rfl | ⟨opened, matched, updated⟩
            · exact holds
            · exact step reader matched next holds opened updated
          cases receipt with
          | none => exact induction ext kept
          | some receipt => exact induction receipt.ext kept

theorem findings_reader {user : LwsAccount}
    (invariant : SubaddressReader → Prop)
    (step : ∀ reader matched next, invariant reader →
      reader.reader.isSome →
      reader.updateLookahead scan.env user matched scan.height = .ok next →
      invariant next)
    (key : PublicKey) {reader : SubaddressReader}
    (holds : invariant reader) :
    invariant (scan.findings key user reader).reader := by
  unfold findings
  split
  · exact holds
  split
  · exact holds
  split
  · exact holds
  · exact receipts_reader invariant step _ _ _ _ _ _ holds

end Scan

namespace SubaddressReader

variable {env : Env} {user : LwsAccount} {matched : AddressIndex}
  {height : BlockId} {reader next : SubaddressReader}

theorem updateLookahead_isSome
    (updated : reader.updateLookahead env user matched height = .ok next)
    (opened : reader.reader.isSome) : next.reader.isSome := by
  unfold updateLookahead at updated
  split at updated
  · cases updated
    exact opened
  split at updated
  · cases updated
  split at updated
  · cases updated
    exact opened
  dsimp only at updated
  split at updated
  · cases updated
    rfl
  · cases updated
    exact opened

/-- Both readers give the account `id` at `address` the same answers. -/
structure View (id : AccountId) (address : AccountAddress)
    (left right : SubaddressReader) : Prop where
  maxSubaddresses : left.maxSubaddresses = right.maxSubaddresses
  reader : Option.Rel (fun left right => SortedRows.AgreeOn
    (fun key => (ofLex key).1 = id) left.subaddressIndexes
      right.subaddressIndexes) left.reader right.reader
  disk : Option.Rel (SubaddressView id address) left.disk right.disk

namespace View

variable {id : AccountId} {address : AccountAddress}
  {left right : SubaddressReader}

theorem refl (id : AccountId) (address : AccountAddress)
    (state : SubaddressReader) : View id address state state := by
  refine ⟨rfl, ?_, ?_⟩
  · cases state.reader with
    | none => exact .none
    | some db => exact .some (.refl _)
  · cases state.disk with
    | none => exact .none
    | some db => exact .some (.refl _ _ _)

private theorem rel_trans {α : Type} {relation : α → α → Prop}
    (transitive : ∀ {first second third}, relation first second →
      relation second third → relation first third)
    {left middle right : Option α} (first : Option.Rel relation left middle)
    (second : Option.Rel relation middle right) :
    Option.Rel relation left right := by
  cases first with
  | none => exact second
  | some agree =>
      cases second with
      | some further => exact .some (transitive agree further)

theorem trans {middle : SubaddressReader} (first : View id address left middle)
    (second : View id address middle right) : View id address left right :=
  ⟨first.maxSubaddresses.trans second.maxSubaddresses,
    rel_trans (fun agree further => agree.trans further) first.reader
      second.reader,
    rel_trans (fun agree further => agree.trans further) first.disk
      second.disk⟩

theorem updateReader (view : View id address left right) :
    View id address left.updateReader right.updateReader := by
  obtain ⟨reader, disk, maxSubaddresses⟩ := left
  obtain ⟨otherReader, otherDisk, otherMax⟩ := right
  obtain ⟨sameMax, readers, disks⟩ := view
  dsimp only at sameMax disks
  cases disks with
  | none => exact ⟨sameMax, readers, .none⟩
  | some same => exact ⟨sameMax, .some same.indexes, .some same⟩

/-- Both updates throw alike or keep the view. -/
theorem updateLookahead (env : Env) {user : LwsAccount}
    (view : View user.id user.dbAddress left right)
    (own : ∀ db ∈ left.disk, ∀ entry,
      db.findByAddress? user.dbAddress = some entry →
        entry.lookup.id = user.id)
    (matched : AddressIndex) (height : BlockId) :
    (∃ thrown, left.updateLookahead env user matched height =
        .error thrown ∧
      right.updateLookahead env user matched height = .error thrown) ∨
    ∃ first second,
      left.updateLookahead env user matched height = .ok first ∧
        right.updateLookahead env user matched height = .ok second ∧
        View user.id user.dbAddress first second := by
  unfold SubaddressReader.updateLookahead
  by_cases primary : matched.isZero
  · simp only [if_pos primary]
    exact .inr ⟨left, right, rfl, rfl, view⟩
  simp only [if_neg primary]
  obtain ⟨reader, disk, maxSubaddresses⟩ := left
  obtain ⟨otherReader, otherDisk, otherMax⟩ := right
  obtain ⟨sameMax, readers, disks⟩ := view
  dsimp only at sameMax disks own readers ⊢
  subst otherMax
  cases disks with
  | none => exact .inl ⟨_, rfl, rfl⟩
  | @some db other same =>
      have updates := same.updateLookahead env (own db rfl) height matched
        maxSubaddresses
      revert updates
      dsimp only
      cases Db.updateLookahead env db user.dbAddress height matched
          maxSubaddresses with
      | error failure =>
          cases Db.updateLookahead env other user.dbAddress height matched
              maxSubaddresses with
          | error _ =>
              intro _
              exact .inr ⟨_, _, rfl, rfl, rfl, readers, .some same⟩
          | ok _ => exact False.elim
      | ok updated =>
          cases Db.updateLookahead env other user.dbAddress height matched
              maxSubaddresses with
          | error _ => exact False.elim
          | ok otherUpdated =>
              rintro ⟨sameCount, kept⟩
              dsimp only
              rw [← sameCount]
              have next : View user.id user.dbAddress
                  ⟨reader, some updated.1, maxSubaddresses⟩
                  ⟨otherReader, some otherUpdated.1, maxSubaddresses⟩ :=
                ⟨rfl, readers, .some kept⟩
              by_cases changed : 0 < updated.2
              · simp only [if_pos changed]
                exact .inr ⟨_, _, rfl, rfl, next.updateReader⟩
              · simp only [if_neg changed]
                exact .inr ⟨_, _, rfl, rfl, next⟩

end View

/-- The open snapshot shows the rows of the account as they are on disk. -/
def Shows (id : AccountId) (state : SubaddressReader) : Prop :=
  ∀ snapshot ∈ state.reader, ∀ db ∈ state.disk,
    SortedRows.AgreeOn (fun key => (ofLex key).1 = id)
      snapshot.subaddressIndexes db.subaddressIndexes

/-- The accounts stored at the addresses of `users` have their ids. -/
def Owned (users : List LwsAccount) (state : SubaddressReader) : Prop :=
  ∀ db ∈ state.disk, ∀ user ∈ users, ∀ entry,
    db.findByAddress? user.dbAddress = some entry → entry.lookup.id = user.id

/-- A changed disk and perhaps a refreshed snapshot. -/
theorem updateLookahead_ok
    (updated : reader.updateLookahead env user matched height = .ok next) :
    next = reader ∨ ∃ db changed final, reader.disk = some db ∧
      Db.updateLookahead env db user.dbAddress height matched
        reader.maxSubaddresses = .ok (final, changed) ∧
      (next = { reader with disk := some final } ∨
        next = { reader with disk := some final, reader := some final }) := by
  unfold updateLookahead at updated
  split at updated
  · cases updated
    exact .inl rfl
  split at updated
  · cases updated
  rename_i db stored
  split at updated
  · cases updated
    exact .inl rfl
  rename_i final changed succeeded
  dsimp only at updated
  refine .inr ⟨db, changed, final, stored, succeeded, ?_⟩
  split at updated
  · cases updated
    exact .inr rfl
  · cases updated
    exact .inl rfl

theorem Owned.step {users : List LwsAccount} (owned : reader.Owned users)
    (updated : reader.updateLookahead env user matched height = .ok next) :
    next.Owned users := by
  rcases updateLookahead_ok updated with
    rfl | ⟨db, changed, final, stored, succeeded, shape⟩
  · exact owned
  have same : final.accountsByAddress = db.accountsByAddress := by
    rcases updateLookahead_eq succeeded with
      ⟨_, _, rfl⟩ | ⟨_, _, _, _, _, _, rfl⟩ <;> rfl
  have kept : ∀ user ∈ users, ∀ entry,
      final.findByAddress? user.dbAddress = some entry →
        entry.lookup.id = user.id := by
    intro user member entry found
    refine owned db stored user member entry ?_
    rwa [findByAddress?, same] at found
  rcases shape with rfl | rfl <;>
  · intro db' is
    cases is
    exact kept

theorem updateLookahead_other {id : AccountId} (address : AccountAddress)
    (shows : reader.Shows id) (opened : reader.reader.isSome)
    (apart : ∀ db ∈ reader.disk, ∀ entry,
      db.findByAddress? user.dbAddress = some entry → entry.lookup.id ≠ id)
    (updated : reader.updateLookahead env user matched height = .ok next) :
    View id address reader next ∧ next.Shows id := by
  rcases updateLookahead_ok updated with
    rfl | ⟨db, changed, final, stored, succeeded, shape⟩
  · exact ⟨.refl _ _ _, shows⟩
  have unseen : SubaddressView id address db final :=
    SubaddressView.updateLookahead_other env (apart db stored) succeeded
  obtain ⟨snapshot, disk, maxSubaddresses⟩ := reader
  dsimp only at stored shape opened
  subst stored
  obtain ⟨snapshot, rfl⟩ := Option.isSome_iff_exists.mp opened
  have shown := shows snapshot rfl db rfl
  rcases shape with rfl | rfl
  · refine ⟨⟨rfl, .some (.refl _), .some unseen⟩, ?_⟩
    rintro _ ⟨⟩ _ ⟨⟩
    exact shown.trans unseen.indexes
  · refine ⟨⟨rfl, .some (shown.trans unseen.indexes), .some unseen⟩, ?_⟩
    rintro _ ⟨⟩ _ ⟨⟩
    exact .refl _

end SubaddressReader

namespace Scan

variable (scan : Scan) {user : LwsAccount} {left right : SubaddressReader}

/-! ## The same answers, the same findings -/

/-- Both calls throw alike, or find the same and keep the view. -/
def SameResult {α : Type} (user : LwsAccount) :
    Except Thrown (α × SubaddressReader) →
      Except Thrown (α × SubaddressReader) → Prop
  | .error left, .error right => left = right
  | .ok left, .ok right =>
      left.1 = right.1 ∧
        SubaddressReader.View user.id user.dbAddress left.2 right.2
  | _, _ => False

private theorem find_view
    (view : SubaddressReader.View user.id user.dbAddress left right)
    (derivedPub : PublicKey) :
    (left.reader.bind fun db => findSubaddress db user.id derivedPub) =
      right.reader.bind fun db => findSubaddress db user.id derivedPub := by
  have readers := view.reader
  revert readers
  cases left.reader <;> cases right.reader <;> rintro (agree | _)
  · rfl
  · have same := agree.find?
      (show (ofLex (toLex (user.id, derivedPub))).1 = user.id from rfl)
    simp only [Option.bind_some, findSubaddress, same]

theorem inspect_view
    (view : SubaddressReader.View user.id user.dbAddress left right)
    (owned : left.Owned [user]) (outPubKey : PublicKey) (index : ℕ)
    (attempts : List (KeyDerivation × PublicKey)) :
    SameResult user (scan.inspect user outPubKey index attempts left)
      (scan.inspect user outPubKey index attempts right) := by
  induction attempts with
  | nil => exact ⟨rfl, view⟩
  | cons attempt attempts induction =>
      simp only [inspect]
      split
      · exact induction
      split
      · rw [← find_view view]
        split
        · exact induction
        · rename_i matched _
          rcases view.updateLookahead scan.env
              (fun db stored => owned db stored user (by simp)) matched
              scan.height with
            ⟨thrown, first, second⟩ | ⟨next, other, first, second, kept⟩
          · rw [first, second]
            rfl
          · rw [first, second]
            exact ⟨rfl, kept⟩
      · exact ⟨rfl, view⟩

theorem receive_view
    (view : SubaddressReader.View user.id user.dbAddress left right)
    (owned : left.Owned [user]) (key : PublicKey) (derived : KeyDerivation)
    (additional : List KeyDerivation) (ext : Extra) (mixin : ℕ) (out : TxOut)
    (index : ℕ) :
    SameResult user
      (scan.receive user key derived additional ext mixin out index left)
      (scan.receive user key derived additional ext mixin out index
        right) := by
  unfold receive
  cases out.key with
  | none => exact ⟨rfl, view⟩
  | some outPubKey =>
      dsimp only
      split
      · exact ⟨rfl, view⟩
      have inspected := inspect_view scan view owned outPubKey index
        (scan.attempts key derived additional index)
      revert inspected
      cases scan.inspect user outPubKey index
          (scan.attempts key derived additional index) left with
      | error thrown =>
          cases scan.inspect user outPubKey index
              (scan.attempts key derived additional index) right with
          | error other => exact id
          | ok _ => exact False.elim
      | ok result =>
          cases scan.inspect user outPubKey index
              (scan.attempts key derived additional index) right with
          | error other => exact False.elim
          | ok other =>
              obtain ⟨found, first⟩ := result
              obtain ⟨_, second⟩ := other
              rintro ⟨same, kept⟩
              dsimp only at same kept
              subst same
              simp only [bind, Except.bind]
              cases found with
              | none => exact ⟨rfl, kept⟩
              | some found =>
                  dsimp only
                  cases scan.decode ext out found.activeDerived index with
                  | error thrown => rfl
                  | ok decoded =>
                      cases decoded with
                      | none => exact ⟨rfl, kept⟩
                      | some parts =>
                          dsimp only
                          cases at? scan.outIds index with
                          | error thrown => rfl
                          | ok low =>
                              cases numericCast32 index with
                              | error thrown => rfl
                              | ok _ => exact ⟨rfl, kept⟩

theorem receipts_view
    (view : SubaddressReader.View user.id user.dbAddress left right)
    (owned : left.Owned [user]) (key : PublicKey) (derived : KeyDerivation)
    (additional : List KeyDerivation) (mixin : ℕ) (outs : List (TxOut × ℕ))
    (ext : Extra) :
    let first := scan.receipts user key derived additional mixin outs ext left
    let second :=
      scan.receipts user key derived additional mixin outs ext right
    first.1 = second.1 ∧ first.2.2 = second.2.2 := by
  induction outs generalizing ext left right with
  | nil => exact ⟨rfl, rfl⟩
  | cons out outs induction =>
      have received := receive_view scan view owned key derived
        additional ext mixin out.1 out.2
      simp only [receipts]
      revert received
      cases first : scan.receive user key derived additional ext mixin out.1
          out.2 left with
      | error thrown =>
          cases scan.receive user key derived additional ext mixin out.1
              out.2 right with
          | error other => exact fun same => ⟨rfl, congrArg some same⟩
          | ok _ => exact False.elim
      | ok result =>
          cases scan.receive user key derived additional ext mixin out.1
              out.2 right with
          | error other => exact False.elim
          | ok other =>
              obtain ⟨receipt, next⟩ := result
              obtain ⟨_, reached⟩ := other
              rintro ⟨same, kept⟩
              dsimp only at same kept
              subst same
              have nextOwned : next.Owned [user] := by
                rcases receive_reader first with
                  rfl | ⟨opened, matched, updated⟩
                · exact owned
                · exact owned.step updated
              cases receipt with
              | none => exact induction kept nextOwned ext
              | some receipt =>
                  obtain ⟨later, thrown⟩ :=
                    induction kept nextOwned receipt.ext
                  exact ⟨congrArg (receipt :: ·) later, thrown⟩

/-- What an account finds depends on its own rows only. -/
theorem findings_view
    (view : SubaddressReader.View user.id user.dbAddress left right)
    (owned : left.Owned [user]) (key : PublicKey) :
    (scan.findings key user left).members =
        (scan.findings key user right).members ∧
      (scan.findings key user left).receipts =
        (scan.findings key user right).receipts ∧
      (scan.findings key user left).thrown =
        (scan.findings key user right).thrown := by
  have opened : left.reader.isSome = right.reader.isSome := by
    have readers := view.reader
    revert readers
    cases left.reader <;> cases right.reader <;> rintro (_ | _) <;> rfl
  have additional : scan.additionalDerivations user
      ⟨scan.tx.payment, [], left⟩ =
        scan.additionalDerivations user ⟨scan.tx.payment, [], right⟩ := by
    simp only [additionalDerivations, opened]
  unfold findings
  split
  · exact ⟨rfl, rfl, rfl⟩
  split
  · exact ⟨rfl, rfl, rfl⟩
  split
  · exact ⟨rfl, rfl, rfl⟩
  · rw [additional]
    exact ⟨rfl, receipts_view scan view owned _ _ _ _ _ _⟩

theorem findings_members (key : PublicKey) (user : LwsAccount)
    (left right : SubaddressReader) :
    (scan.findings key user left).members =
      (scan.findings key user right).members := by
  unfold findings
  split
  · rfl
  split
  · rfl
  split <;> rfl

/-! ## Runs over the accounts -/

variable {scan}

/-- The additional derivations are empty whenever they are not derived
again. -/
def Rederived (scan : Scan) (shared : Shared) : Prop :=
  shared.additional = [] ∨
    (shared.reader.reader.isSome ∧
      scan.tx.additionalTxPubKeys.length = scan.tx.vout.length)

theorem additionalDerivations_eq {shared : Shared}
    (rederived : scan.Rederived shared) (user : LwsAccount) :
    scan.additionalDerivations user shared =
      scan.additionalDerivations user
        ⟨scan.tx.payment, [], shared.reader⟩ := by
  unfold additionalDerivations
  rcases rederived with empty | derivedAgain
  · rw [empty]
  · rw [if_pos derivedAgain, if_pos derivedAgain]

private theorem record_nothing (user : LwsAccount) (payment : Payment) :
    scan.record user payment [] [] = user := by
  simp [record, recordSpends]

theorem account_eq (key : PublicKey) (user : LwsAccount) {shared : Shared}
    (rederived : scan.Rederived shared) :
    let found := scan.findings key user shared.reader
    let result := scan.account key user shared
    result.1.1 = scan.record user shared.payment found.members
        found.receipts ∧
      result.1.2.payment =
        scan.tx.settled scan.crypto shared.payment found.receipts ∧
      result.1.2.reader = found.reader ∧ result.2 = found.thrown ∧
      (result.1.2.additional = shared.additional ∨
        result.1.2.additional = scan.additionalDerivations user shared) := by
  unfold account findings
  split
  · exact ⟨(record_nothing user _).symm, rfl, rfl, rfl, .inl rfl⟩
  cases scan.crypto.generateKeyDerivation key user.viewKey with
  | none => exact ⟨(record_nothing user _).symm, rfl, rfl, rfl, .inl rfl⟩
  | some derived =>
      simp only [inputs_eq]
      cases inputFlags scan.tx.vin ⟨false, false⟩ 0 with
      | mk flags thrown =>
          cases thrown with
          | some thrown => exact ⟨rfl, rfl, rfl, rfl, .inr rfl⟩
          | none =>
              dsimp only
              rw [← additionalDerivations_eq rederived]
              have found := outputs_eq scan key derived
                (scan.additionalDerivations user shared) flags.2
                scan.tx.vout.zipIdx
                ⟨scan.recordSpends user shared.payment
                    (inputMembers user scan.tx.vin),
                  shared.payment, flags.1, shared.reader⟩
              have same : scan.receipts (scan.recordSpends user shared.payment
                    (inputMembers user scan.tx.vin)) key derived
                  (scan.additionalDerivations user shared) flags.2
                  scan.tx.vout.zipIdx flags.1 shared.reader =
                scan.receipts user key derived
                  (scan.additionalDerivations user shared) flags.2
                  scan.tx.vout.zipIdx flags.1 shared.reader :=
                receipts_congr (show (scan.recordSpends user shared.payment
                  (inputMembers user scan.tx.vin)).immutable =
                    user.immutable from rfl) _ _ _ _ _ _ _
              rw [same] at found
              obtain ⟨recorded, payment, reader, thrown⟩ := found
              exact ⟨recorded, payment, reader, thrown, .inr rfl⟩

theorem account_rederived (key : PublicKey) (user : LwsAccount)
    {shared : Shared} (rederived : scan.Rederived shared) :
    scan.Rederived (scan.account key user shared).1.2 := by
  obtain ⟨-, -, reader, -, additional⟩ := account_eq key user rederived
  have opened : shared.reader.reader.isSome →
      (scan.findings key user shared.reader).reader.reader.isSome := fun is =>
    findings_reader (fun reader => reader.reader.isSome)
      (fun _ _ _ opened _ updated =>
        SubaddressReader.updateLookahead_isSome updated opened) key is
  unfold Rederived
  rw [reader]
  rcases additional with same | again
  · rw [same]
    exact rederived.imp_right fun pair => ⟨opened pair.1, pair.2⟩
  · by_cases derivedAgain : shared.reader.reader.isSome ∧
        scan.tx.additionalTxPubKeys.length = scan.tx.vout.length
    · exact .inr ⟨opened derivedAgain.1, derivedAgain.2⟩
    · refine .inl ?_
      rw [again, additionalDerivations, if_neg derivedAgain]
      exact rederived.resolve_right derivedAgain

theorem settled_append (payment : Payment) (first second : List Receipt) :
    scan.tx.settled scan.crypto
        (scan.tx.settled scan.crypto payment first) second =
      scan.tx.settled scan.crypto payment (first ++ second) := by
  cases first with
  | nil => rfl
  | cons receipt first =>
      cases second with
      | nil => simp [Transaction.settled]
      | cons next second => exact settle_settle _ _ _ _ payment

/-- What the accounts ahead of another find, one after the other. -/
def findingsAhead (scan : Scan) (key : PublicKey) :
    List LwsAccount → SubaddressReader → Findings
  | [], reader => ⟨[], [], reader, none⟩
  | user :: users, reader =>
      let found := scan.findings key user reader
      match found.thrown with
      | some _ => found
      | none =>
          let later := findingsAhead scan key users found.reader
          ⟨found.members ++ later.members, found.receipts ++ later.receipts,
            later.reader, later.thrown⟩

private theorem findingsAhead_threw {key : PublicKey} {user : LwsAccount}
    {users : List LwsAccount} {reader : SubaddressReader} {thrown : Thrown}
    (threw : (scan.findings key user reader).thrown = some thrown) :
    scan.findingsAhead key (user :: users) reader =
      scan.findings key user reader := by
  simp only [findingsAhead, threw]

private theorem findingsAhead_passed {key : PublicKey} {user : LwsAccount}
    {users : List LwsAccount} {reader : SubaddressReader}
    (passed : (scan.findings key user reader).thrown = none) :
    scan.findingsAhead key (user :: users) reader =
      let found := scan.findings key user reader
      let later := scan.findingsAhead key users found.reader
      ⟨found.members ++ later.members, found.receipts ++ later.receipts,
        later.reader, later.thrown⟩ := by
  simp only [findingsAhead, passed]

/-- An account is reached unless one ahead throws; it starts with the payment
id and the reader that those ahead leave. -/
theorem accounts_turn (key : PublicKey) (ahead behind : List LwsAccount)
    (user : LwsAccount) {shared : Shared}
    (rederived : scan.Rederived shared) :
    let before := scan.findingsAhead key ahead shared.reader
    let found := scan.findings key user before.reader
    (scan.accounts key (ahead ++ user :: behind) shared).1[ahead.length]? =
      some (if before.thrown.isSome then user
        else scan.record user
          (scan.tx.settled scan.crypto shared.payment before.receipts)
          found.members found.receipts) := by
  induction ahead generalizing shared with
  | nil =>
      obtain ⟨recorded, -⟩ := account_eq key user rederived
      simp only [List.nil_append, accounts]
      cases passed : scan.account key user shared with
      | mk result thrown =>
          rw [passed] at recorded
          cases thrown with
          | none => exact congrArg some recorded
          | some thrown => exact congrArg some recorded
  | cons first ahead induction =>
      obtain ⟨-, payment, reader, outcome, -⟩ := account_eq key first rederived
      have kept := account_rederived key first rederived
      cases threw : (scan.findings key first shared.reader).thrown with
      | some thrown =>
          rw [findingsAhead_threw threw]
          rw [threw] at outcome
          simp only [List.cons_append, accounts, List.length_cons]
          cases passed : scan.account key first shared with
          | mk result other =>
              rw [passed] at outcome
              cases outcome
              simp [threw]
      | none =>
          rw [findingsAhead_passed threw]
          rw [threw] at outcome
          simp only [List.cons_append, accounts, List.length_cons]
          have later := induction kept
          dsimp only at later
          rw [reader, payment, settled_append] at later
          cases passed : scan.account key first shared with
          | mk result other =>
              rw [passed] at outcome later
              cases outcome
              exact later

/-- The windows of the accounts ahead leave the view of an account whose rows
the reader shows. -/
theorem findingsAhead_view {users : List LwsAccount} {user : LwsAccount}
    (apart : ∀ other ∈ users, other.id ≠ user.id) (key : PublicKey)
    {reader : SubaddressReader} (shows : reader.Shows user.id)
    (owned : reader.Owned users) :
    SubaddressReader.View user.id user.dbAddress reader
      (scan.findingsAhead key users reader).reader := by
  induction users generalizing reader with
  | nil => exact .refl _ _ _
  | cons first users induction =>
      have different : first.id ≠ user.id := apart first (by simp)
      have kept : SubaddressReader.View user.id user.dbAddress reader
            (scan.findings key first reader).reader ∧
          (scan.findings key first reader).reader.Shows user.id ∧
          (scan.findings key first reader).reader.Owned (first :: users) := by
        refine findings_reader (fun next =>
          SubaddressReader.View user.id user.dbAddress reader next ∧
            next.Shows user.id ∧ next.Owned (first :: users)) ?_ key
          ⟨.refl _ _ _, shows, owned⟩
        rintro state matched next ⟨view, shown, own⟩ opened updated
        obtain ⟨unseen, showsNext⟩ :=
          SubaddressReader.updateLookahead_other user.dbAddress
            shown opened (fun db stored entry found => by
              rw [own db stored first (by simp) entry found]
              exact different) updated
        exact ⟨view.trans unseen, showsNext, own.step updated⟩
      obtain ⟨view, shown, own⟩ := kept
      cases threw : (scan.findings key first reader).thrown with
      | some thrown =>
          rw [findingsAhead_threw threw]
          exact view
      | none =>
          rw [findingsAhead_passed threw]
          refine view.trans (induction ?_ shown ?_)
          · exact fun other member => apart other (by simp [member])
          · exact fun db stored other member =>
              own db stored other (by simp [member])

end Scan

end Scanner

end XfoLws
