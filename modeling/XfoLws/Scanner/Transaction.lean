import XfoLws.Db.ScanAccount
import XfoLws.Db.Subaddresses

/-!
# Scanning one transaction

`scan_transaction_base` with the actions of `scan_transaction`: every account
behind the scan records the ring members it can spend and the outputs it
receives.  The payment id, the additional derivations and the subaddress
reader belong to the transaction and are handed from account to account.  An
exception leaves the rows found so far in the accounts.
-/

namespace XfoLws.Scanner

open Db

abbrev KeyDerivation := ℕ

abbrev ViewTag := ℕ

/-! ## Transactions -/

/-- `cryptonote::txin_v`; only `txin_to_key` and `txin_gen` are looked at. -/
inductive TxIn where
  | gen
  | toKey (amount : ℕ) (keyOffsets : List ℕ) (kImage : KeyImage)
  | other
deriving DecidableEq, Repr

/-- An output with its `get_output_public_key` and `get_output_view_tag`. -/
structure TxOut where
  amount : ℕ
  key : Option PublicKey
  viewTag : Option ViewTag
deriving DecidableEq, Repr

structure EcdhTuple where
  mask : ℕ
  amount : ℕ
deriving DecidableEq, Repr

/-- What the two payment id readers find in a nonce of the extra field. -/
structure ExtraNonce where
  paymentId : Option PaymentId
  encryptedPaymentId : Option ℕ
deriving DecidableEq, Repr

/-- `cryptonote::transaction` as the scan sees it: the fields found in its
extra field, its prefix hash and its fee are those of the daemon's library. -/
structure Transaction where
  version : ℕ
  unlockTime : ℕ
  vin : List TxIn
  vout : List TxOut
  rctType : ℕ
  outPk : List ℕ
  ecdhInfo : List EcdhTuple
  txPubKey : Option PublicKey
  extraNonce : Option ExtraNonce
  additionalTxPubKeys : List PublicKey
  prefixHash : Hash
  fee : ℕ
deriving DecidableEq, Repr

/-- `rct::RCTTypeBulletproof2`. -/
def rctTypeBulletproof2 : ℕ := 4

/-- `rct::identity()`: a one in the first of 32 bytes. -/
def rctIdentity : ℕ := 2 ^ 248

/-- Key derivation and decryption. -/
structure Crypto where
  generateKeyDerivation : PublicKey → SecretKey → Option KeyDerivation
  outCanBeToAcc : Option ViewTag → KeyDerivation → ℕ → Bool
  deriveSubaddressPublicKey :
    PublicKey → KeyDerivation → ℕ → Option PublicKey
  /-- The amount and the mask, when they match the commitment. -/
  decodeAmount : ℕ → EcdhTuple → KeyDerivation → ℕ → Bool → Option (ℕ × ℕ)
  decryptPaymentId : ℕ → KeyDerivation → ℕ

/-- Exceptions that leave `scan_transaction_base`. -/
inductive Thrown where
  | unsupportedTxVersion
  | badDbHandle
  | badNumericCast
  | outOfRange
deriving DecidableEq, Repr

/-- `std::vector::at`. -/
def at? {α : Type} (items : List α) (index : ℕ) : Except Thrown α :=
  match items[index]? with
  | some item => .ok item
  | none => .error .outOfRange

/-- `boost::numeric_cast<std::uint32_t>`. -/
def numericCast32 (value : ℕ) : Except Thrown ℕ :=
  if value ≤ maxU32 then .ok value else .error .badNumericCast

/-! ## The subaddress reader -/

/-- `storage_reader::find_subaddress`. -/
def findSubaddress (db : Db) (id : AccountId) (address : PublicKey) :
    Option AddressIndex :=
  (db.subaddressIndexes.find? (toLex (id, address))).map fun row =>
    row.2.index

/-- `reader` is the database its read transaction sees, `disk` the current
one. -/
structure SubaddressReader where
  reader : Option Db
  disk : Option Db
  maxSubaddresses : ℕ

namespace SubaddressReader

def updateReader (state : SubaddressReader) : SubaddressReader :=
  match state.disk with
  | some db => { state with reader := some db }
  | none => state

/-- The constructor; without subaddresses nothing is read. -/
def new (disk : Option Db) (maxSubaddresses : ℕ) : SubaddressReader :=
  let state : SubaddressReader := ⟨none, disk, maxSubaddresses⟩
  if maxSubaddresses ≠ 0 then state.updateReader else state

/-- `update_lookahead`; a failed update is only logged. -/
def updateLookahead (env : Env) (user : LwsAccount) (matched : AddressIndex)
    (height : BlockId) (state : SubaddressReader) :
    Except Thrown SubaddressReader :=
  if matched.isZero then .ok state
  else
    match state.disk with
    | none => .error .badDbHandle
    | some db =>
        match Db.updateLookahead env db user.dbAddress height matched
            state.maxSubaddresses with
        | .error _ => .ok state
        | .ok (db, changed) =>
            let state := { state with disk := some db }
            if 0 < changed then .ok state.updateReader else .ok state

end SubaddressReader

/-! ## Payment ids -/

/-- `payment_id` of the scan: its length and its bytes. -/
structure Payment where
  length : ℕ
  value : PaymentId
deriving DecidableEq, Repr

/-- The payment id before the first account: a plain one is taken over. -/
def Transaction.payment (tx : Transaction) : Payment :=
  match tx.extraNonce.bind ExtraNonce.paymentId with
  | some long => ⟨32, long⟩
  | none => ⟨0, ⟨0, 0⟩⟩

/-- At a received output the encrypted payment id is decrypted in place,
unless a payment id is there already. -/
def Transaction.settle (crypto : Crypto) (tx : Transaction)
    (activeDerived : KeyDerivation) (payment : Payment) : Payment :=
  match tx.extraNonce with
  | none => payment
  | some nonce =>
      if payment.length ≠ 0 then payment
      else
        match nonce.encryptedPaymentId with
        | none => payment
        | some short =>
            ⟨8, { payment.value with
              short := crypto.decryptPaymentId short activeDerived }⟩

/-! ## Outputs -/

/-- The arguments that stay the same for all accounts. -/
structure Scan where
  env : Env
  crypto : Crypto
  height : BlockId
  timestamp : ℕ
  txHash : Hash
  tx : Transaction
  outIds : List ℕ

/-- The key that recognised an output, and the address that received it. -/
structure Found where
  activeDerived : KeyDerivation
  activePub : PublicKey
  recipient : AddressIndex
deriving DecidableEq, Repr

/-- A received output but for its payment id. -/
structure Receipt where
  found : Found
  id : OutputId
  amount : ℕ
  mixinCount : ℕ
  index : ℕ
  pub : PublicKey
  ringctMask : ℕ
  ext : Extra
deriving DecidableEq, Repr

namespace Scan

variable (scan : Scan)

/-- The derivations an output is inspected with: the one of the transaction
key, then the additional one of its index. -/
def attempts (key : PublicKey) (derived : KeyDerivation)
    (additional : List KeyDerivation) (index : ℕ) :
    List (KeyDerivation × PublicKey) :=
  (derived, key) ::
    match additional[index]?, scan.tx.additionalTxPubKeys[index]? with
    | some activeDerived, some activePub => [(activeDerived, activePub)]
    | _, _ => []

/-- The inspection loop of an output. -/
def inspect (user : LwsAccount) (outPubKey : PublicKey) (index : ℕ) :
    List (KeyDerivation × PublicKey) → SubaddressReader →
      Except Thrown (Option Found × SubaddressReader)
  | [], reader => .ok (none, reader)
  | (activeDerived, activePub) :: rest, reader =>
      match scan.crypto.deriveSubaddressPublicKey outPubKey activeDerived
          index with
      | none => inspect user outPubKey index rest reader
      | some derivedPub =>
          if user.spendPublic ≠ derivedPub then
            match reader.reader.bind fun db =>
                findSubaddress db user.id derivedPub with
            | none => inspect user outPubKey index rest reader
            | some matched => do
                let reader ←
                  reader.updateLookahead scan.env user matched scan.height
                .ok (some ⟨activeDerived, activePub, matched⟩, reader)
          else .ok (some ⟨activeDerived, activePub, .primary⟩, reader)

/-- Whether a view tag lets the output be the account's. -/
def foundTag (derived : KeyDerivation) (additional : List KeyDerivation)
    (out : TxOut) (index : ℕ) : Bool :=
  (additional[index]?).any
      (fun activeDerived =>
        scan.crypto.outCanBeToAcc out.viewTag activeDerived index) ||
    scan.crypto.outCanBeToAcc out.viewTag derived index

/-- The amount, the mask and the flags of a received output; `none` when its
amount cannot be decrypted. -/
def decode (ext : Extra) (out : TxOut) (activeDerived : KeyDerivation)
    (index : ℕ) : Except Thrown (Option (ℕ × ℕ × Extra)) :=
  if out.amount = 0 ∧ ext.coinbase = false ∧ 1 < scan.tx.version then do
    let commitment ← at? scan.tx.outPk index
    let info ← at? scan.tx.ecdhInfo index
    match scan.crypto.decodeAmount commitment info activeDerived index
        (rctTypeBulletproof2 ≤ scan.tx.rctType) with
    | none => .ok none
    | some (amount, mask) =>
        .ok (some (amount, mask, { ext with ringct := true }))
  else if 1 < scan.tx.version then
    .ok (some (out.amount, rctIdentity, { ext with ringct := true }))
  else .ok (some (out.amount, rctIdentity, ext))

/-- What one account makes of one output.  The payment id is decrypted
between `decode` and the checked accesses, which nothing after a throw can
tell. -/
def receive (user : LwsAccount) (key : PublicKey) (derived : KeyDerivation)
    (additional : List KeyDerivation) (ext : Extra) (mixin : ℕ) (out : TxOut)
    (index : ℕ) (reader : SubaddressReader) :
    Except Thrown (Option Receipt × SubaddressReader) :=
  match out.key with
  | none => .ok (none, reader)
  | some outPubKey =>
      if scan.foundTag derived additional out index = false then
        .ok (none, reader)
      else do
        let (found, reader) ← scan.inspect user outPubKey index
          (scan.attempts key derived additional index) reader
        match found with
        | none => .ok (none, reader)
        | some found =>
            let decoded ← scan.decode ext out found.activeDerived index
            match decoded with
            | none => .ok (none, reader)
            | some (amount, mask, ext) =>
                let low ← at? scan.outIds index
                let index ← numericCast32 index
                let high := if scan.tx.version < 2 then out.amount else 0
                .ok (some ⟨found, ⟨high, low⟩, amount, mixin, index,
                  outPubKey, mask, ext⟩, reader)

/-- The row of a received output. -/
def output (payment : Payment) (receipt : Receipt) : Output where
  link := ⟨scan.height, scan.txHash⟩
  spendMeta := ⟨receipt.id, receipt.amount, receipt.mixinCount,
    receipt.index, receipt.found.activePub⟩
  timestamp := scan.timestamp
  unlockTime := scan.tx.unlockTime
  txPrefixHash := scan.tx.prefixHash
  pub := receipt.pub
  ringctMask := receipt.ringctMask
  extra := pack receipt.ext payment.length
  paymentId := payment.value
  fee := scan.tx.fee
  recipient := receipt.found.recipient

/-- What the loop over the outputs of one account changes. -/
structure Progress where
  user : LwsAccount
  payment : Payment
  ext : Extra
  reader : SubaddressReader

def outputs (key : PublicKey) (derived : KeyDerivation)
    (additional : List KeyDerivation) (mixin : ℕ) :
    List (TxOut × ℕ) → Progress → Progress × Option Thrown
  | [], progress => (progress, none)
  | (out, index) :: rest, progress =>
      match scan.receive progress.user key derived additional progress.ext
          mixin out index progress.reader with
      | .error thrown => (progress, some thrown)
      | .ok (none, reader) =>
          outputs key derived additional mixin rest
            { progress with reader := reader }
      | .ok (some receipt, reader) =>
          let payment := scan.tx.settle scan.crypto
            receipt.found.activeDerived progress.payment
          outputs key derived additional mixin rest
            { user := (progress.user.addOut (scan.output payment receipt)).1
              payment := payment
              ext := receipt.ext
              reader := reader }

/-! ## Inputs -/

/-- The global output numbers of a ring: the running sums of its offsets. -/
def goffsets : ℕ → List ℕ → List ℕ
  | _, [] => []
  | goffset, offset :: offsets =>
      wrap64 (goffset + offset) :: goffsets (wrap64 (goffset + offset)) offsets

/-- The row of a ring member that the account can spend. -/
def spend (payment : Payment) (mixin : ℕ) (kImage : KeyImage)
    (source : OutputId) (sender : AddressIndex) : Spend where
  link := ⟨scan.height, scan.txHash⟩
  image := kImage
  source := source
  timestamp := scan.timestamp
  unlockTime := scan.tx.unlockTime
  mixinCount := mixin
  length := payment.length
  paymentId := payment.value
  sender := sender

/-- The ring members of one input, in order. -/
def ring (payment : Payment) (mixin amount : ℕ) (kImage : KeyImage) :
    List ℕ → LwsAccount → LwsAccount
  | [], user => user
  | goffset :: rest, user =>
      match user.getSpendable ⟨amount, goffset⟩ with
      | none => ring payment mixin amount kImage rest user
      | some sender =>
          ring payment mixin amount kImage rest
            (user.addSpend
              (scan.spend payment mixin kImage ⟨amount, goffset⟩ sender))

/-- The loop over the inputs; it also finds the flags and the mixin count. -/
def inputs (payment : Payment) :
    List TxIn → LwsAccount → Extra → ℕ →
      (LwsAccount × Extra × ℕ) × Option Thrown
  | [], user, ext, mixin => ((user, ext, mixin), none)
  | .toKey amount keyOffsets kImage :: rest, user, ext, mixin =>
      match numericCast32 (max 1 keyOffsets.length - 1) with
      | .error thrown => ((user, ext, mixin), some thrown)
      | .ok mixin =>
          inputs payment rest
            (scan.ring payment mixin amount kImage (goffsets 0 keyOffsets)
              user) ext mixin
  | .gen :: rest, user, ext, mixin =>
      inputs payment rest user { ext with coinbase := true } mixin
  | .other :: rest, user, ext, mixin =>
      inputs payment rest user ext mixin

/-! ## Accounts -/

/-- What one account hands to the next. -/
structure Shared where
  payment : Payment
  additional : List KeyDerivation
  reader : SubaddressReader

/-- The additional derivations for one account.  They are derived again for
every account, or stay empty for all. -/
def additionalDerivations (user : LwsAccount) (shared : Shared) :
    List KeyDerivation :=
  if shared.reader.reader.isSome ∧
      scan.tx.additionalTxPubKeys.length = scan.tx.vout.length then
    (scan.tx.additionalTxPubKeys.mapM fun key =>
      scan.crypto.generateKeyDerivation key user.viewKey).getD []
  else shared.additional

/-- One pass of the loop over the accounts. -/
def account (key : PublicKey) (user : LwsAccount) (shared : Shared) :
    (LwsAccount × Shared) × Option Thrown :=
  if scan.height ≤ user.height then ((user, shared), none)
  else
    match scan.crypto.generateKeyDerivation key user.viewKey with
    | none => ((user, shared), none)
    | some derived =>
        let additional := scan.additionalDerivations user shared
        match scan.inputs shared.payment scan.tx.vin user ⟨false, false⟩ 0 with
        | ((user, _), some thrown) =>
            ((user, { shared with additional := additional }), some thrown)
        | ((user, ext, mixin), none) =>
            let (progress, thrown) := scan.outputs key derived additional
              mixin scan.tx.vout.zipIdx ⟨user, shared.payment, ext,
                shared.reader⟩
            ((progress.user,
              ⟨progress.payment, additional, progress.reader⟩), thrown)

def accounts (key : PublicKey) :
    List LwsAccount → Shared →
      List LwsAccount × SubaddressReader × Option Thrown
  | [], shared => ([], shared.reader, none)
  | user :: users, shared =>
      match scan.account key user shared with
      | ((user, shared), some thrown) =>
          (user :: users, shared.reader, some thrown)
      | ((user, shared), none) =>
          let (users, reader, thrown) := accounts key users shared
          (user :: users, reader, thrown)

/-- `scan_transaction`: the accounts with the rows they got, and whether it
threw. -/
def transaction (users : List LwsAccount) (reader : SubaddressReader) :
    List LwsAccount × SubaddressReader × Option Thrown :=
  if 2 < scan.tx.version then (users, reader, some .unsupportedTxVersion)
  else
    match scan.tx.txPubKey with
    | none => (users, reader, none)
    | some key =>
        scan.accounts key users ⟨scan.tx.payment, [], reader⟩

end Scan

end XfoLws.Scanner
