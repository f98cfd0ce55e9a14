import XfoLws.Db.ScanAccount
import XfoLws.Wire.Msgpack

/-!
# Scanner accounts as msgpack

`lws::account` and the records in it as the main server and its remote
scanners send them, with integer keys.  Outputs omit the ringct mask and the
payment id when their flags say so, spends omit every payment id that is not
32 bytes long, and the readers fill in what is missing.
-/

namespace XfoLws.Wire

open Db Msgpack

/-! ## Blobs -/

/-- `WIRE_DECLARE_BLOB`: a value of so many bytes. -/
def blob (width value : ℕ) : Value ℕ := .binary (toBytes width value)

def readBytes : Value ℕ → Except Schema Bytes
  | .binary bytes => .ok bytes
  | _ => .error .string

def readBlob (width : ℕ) (value : Value ℕ) : Except Schema ℕ := do
  let bytes ← readBytes value
  if bytes.length = width then .ok (ofBytes bytes) else .error .fixedBinary

/-! ## Records -/

def outputIdEntries (id : OutputId) : List (ℕ × Option (Value ℕ)) :=
  [(0, some (.unsigned id.high)), (1, some (.unsigned id.low))]

def outputIdValue (id : OutputId) : Value ℕ :=
  .object (present (outputIdEntries id))

def readOutputId (value : Value ℕ) : Except Schema OutputId := do
  let fields ← readObject value
  let high ← required fields 0 (readUnsigned (2 ^ 64))
  let low ← required fields 1 (readUnsigned (2 ^ 64))
  .ok ⟨high, low⟩

def addressIndexEntries (index : AddressIndex) :
    List (ℕ × Option (Value ℕ)) :=
  [(0, some (.unsigned index.majI)), (1, some (.unsigned index.minI))]

def addressIndexValue (index : AddressIndex) : Value ℕ :=
  .object (present (addressIndexEntries index))

def readAddressIndex (value : Value ℕ) : Except Schema AddressIndex := do
  let fields ← readObject value
  let majI ← required fields 0 (readUnsigned (2 ^ 32))
  let minI ← required fields 1 (readUnsigned (2 ^ 32))
  .ok ⟨majI, minI⟩

def accountAddressEntries (address : AccountAddress) :
    List (ℕ × Option (Value ℕ)) :=
  [(0, some (blob 32 address.spendPublic)),
    (1, some (blob 32 address.viewPublic))]

def accountAddressValue (address : AccountAddress) : Value ℕ :=
  .object (present (accountAddressEntries address))

def readAccountAddress (value : Value ℕ) : Except Schema AccountAddress := do
  let fields ← readObject value
  let spendPublic ← required fields 0 (readBlob 32)
  let viewPublic ← required fields 1 (readBlob 32)
  .ok ⟨viewPublic, spendPublic⟩

/-- `std::pair` of a spendable output and its address. -/
def spendableEntries (row : OutputId × AddressIndex) :
    List (ℕ × Option (Value ℕ)) :=
  [(0, some (outputIdValue row.1)), (1, some (addressIndexValue row.2))]

def spendableValue (row : OutputId × AddressIndex) : Value ℕ :=
  .object (present (spendableEntries row))

def readSpendable (value : Value ℕ) :
    Except Schema (OutputId × AddressIndex) := do
  let fields ← readObject value
  let first ← required fields 0 readOutputId
  let second ← required fields 1 readAddressIndex
  .ok (first, second)

/-- `epee::as_byte_span` of a payment id. -/
def PaymentId.bytes (id : PaymentId) (length : ℕ) : Bytes :=
  (toBytes 8 id.short ++ toBytes 24 id.tail).take length

/-- `std::memcpy` into a zero payment id. -/
def PaymentId.ofBytes (bytes : Bytes) : PaymentId :=
  ⟨Msgpack.ofBytes (bytes.take 8), Msgpack.ofBytes ((bytes.drop 8).take 24)⟩

/-- The payment id an output is written with. -/
def Output.paymentBytes (output : Output) : Option Bytes :=
  let length := (unpack output.extra).2
  if length = 32 ∨ length = 8 then some (PaymentId.bytes output.paymentId length)
  else none

/-- `write_bytes(wire::writer&, const output&)`. -/
def outputEntries (output : Output) : List (ℕ × Option (Value ℕ)) :=
  let flags := (unpack output.extra).1
  [(0, if output.spendMeta.id ≠ ⟨0, 2 ^ 64 - 1⟩ then
      some (outputIdValue output.spendMeta.id) else none),
    (1, if output.link.height ≠ BlockId.txpool then
      some (.unsigned output.link.height) else none),
    (2, some (.unsigned output.spendMeta.index)),
    (3, some (.unsigned output.spendMeta.amount)),
    (4, some (.unsigned output.timestamp)),
    (5, some (blob 32 output.link.txHash)),
    (6, some (blob 32 output.txPrefixHash)),
    (7, some (blob 32 output.spendMeta.txPublic)),
    (8, if flags.ringct then some (blob 32 output.ringctMask) else none),
    (9, (Output.paymentBytes output).map .binary),
    (10, some (.unsigned output.unlockTime)),
    (11, some (.unsigned output.spendMeta.mixinCount)),
    (12, some (.boolean flags.coinbase)),
    (13, some (.unsigned output.fee)),
    (14, some (addressIndexValue output.recipient)),
    (15, some (blob 32 output.pub))]

def outputValue (output : Output) : Value ℕ :=
  .object (present (outputEntries output))

/-- `read_bytes(wire::reader&, output&)`. -/
def readOutput (value : Value ℕ) : Except Schema Output := do
  let fields ← readObject value
  let id ← optional fields 0 readOutputId
  let height ← optional fields 1 (readUnsigned (2 ^ 64))
  let index ← required fields 2 (readUnsigned (2 ^ 32))
  let amount ← required fields 3 (readUnsigned (2 ^ 64))
  let timestamp ← required fields 4 (readUnsigned (2 ^ 64))
  let txHash ← required fields 5 (readBlob 32)
  let txPrefixHash ← required fields 6 (readBlob 32)
  let txPublic ← required fields 7 (readBlob 32)
  let rct ← optional fields 8 (readBlob 32)
  let paymentId ← optional fields 9 readBytes
  let unlockTime ← required fields 10 (readUnsigned (2 ^ 64))
  let mixinCount ← required fields 11 (readUnsigned (2 ^ 32))
  let coinbase ← required fields 12 readBoolean
  let fee ← required fields 13 (readUnsigned (2 ^ 64))
  let recipient ← required fields 14 readAddressIndex
  let pub ← required fields 15 (readBlob 32)
  let bytes := paymentId.getD []
  let payLength := bytes.length % 256
  if payLength ≠ 0 ∧ payLength ≠ 8 ∧ payLength ≠ 32 then .error .binary
  else
    .ok
      { link := ⟨height.getD BlockId.txpool, txHash⟩
        spendMeta :=
          ⟨id.getD ⟨0, 2 ^ 64 - 1⟩, amount, mixinCount, index, txPublic⟩
        timestamp := timestamp
        unlockTime := unlockTime
        txPrefixHash := txPrefixHash
        pub := pub
        ringctMask := rct.getD 0
        extra := pack ⟨coinbase, rct.isSome⟩ payLength
        paymentId := PaymentId.ofBytes (bytes.take payLength)
        fee := fee
        recipient := recipient }

/-- `map_spend`, with the payment id that `write_bytes` keeps. -/
def spendEntries (spend : Spend) : List (ℕ × Option (Value ℕ)) :=
  [(0, some (.unsigned spend.link.height)),
    (1, some (blob 32 spend.link.txHash)),
    (2, some (blob 32 spend.image)),
    (3, some (outputIdValue spend.source)),
    (4, some (.unsigned spend.timestamp)),
    (5, some (.unsigned spend.unlockTime)),
    (6, some (.unsigned spend.mixinCount)),
    (7, if spend.length = 32 then
      some (.binary (PaymentId.bytes spend.paymentId 32)) else none),
    (8, some (addressIndexValue spend.sender))]

def spendValue (spend : Spend) : Value ℕ :=
  .object (present (spendEntries spend))

def readSpend (value : Value ℕ) : Except Schema Spend := do
  let fields ← readObject value
  let height ← required fields 0 (readUnsigned (2 ^ 64))
  let txHash ← required fields 1 (readBlob 32)
  let image ← required fields 2 (readBlob 32)
  let source ← required fields 3 readOutputId
  let timestamp ← required fields 4 (readUnsigned (2 ^ 64))
  let unlockTime ← required fields 5 (readUnsigned (2 ^ 64))
  let mixinCount ← required fields 6 (readUnsigned (2 ^ 32))
  let paymentId ← optional fields 7 fun value => do
    let bytes ← readBytes value
    if bytes.length = 32 then .ok bytes else .error .fixedBinary
  let sender ← required fields 8 readAddressIndex
  .ok
    { link := ⟨height, txHash⟩
      image := image
      source := source
      timestamp := timestamp
      unlockTime := unlockTime
      mixinCount := mixinCount
      length := if paymentId.isSome then 32 else 0
      paymentId := PaymentId.ofBytes (paymentId.getD [])
      sender := sender }

/-! ## Accounts -/

def internalEntries (immutable : LwsAccount.Internal) :
    List (ℕ × Option (Value ℕ)) :=
  [(0, some (.string immutable.address)),
    (1, some (.unsigned immutable.id)),
    (2, some (accountAddressValue immutable.pubs)),
    (3, some (blob 32 immutable.viewKey))]

def internalValue (immutable : LwsAccount.Internal) : Value ℕ :=
  .object (present (internalEntries immutable))

def readInternal (value : Value ℕ) : Except Schema LwsAccount.Internal := do
  let fields ← readObject value
  let address ← required fields 0 readString
  let id ← required fields 1 (readUnsigned (2 ^ 32))
  let pubs ← required fields 2 readAccountAddress
  let viewKey ← required fields 3 (readBlob 32)
  .ok ⟨address, id, pubs, viewKey⟩

/-- `wire::trusted_array`: omitted when it is empty. -/
def trustedArray {α : Type} (write : α → Value ℕ) (items : List α) :
    Option (Value ℕ) :=
  if items = [] then none else some (.array (items.map write))

def readTrustedArray {α : Type} (fields : List (ℕ × Value ℕ)) (key : ℕ)
    (read : Value ℕ → Except Schema α) : Except Schema (List α) :=
  optionalArray fields key (2 ^ 64 - 1) read

/-- `account::map`. -/
def accountEntries (user : LwsAccount) : List (ℕ × Option (Value ℕ)) :=
  [(0, some (internalValue user.immutable)),
    (1, trustedArray spendableValue user.spendable),
    (2, trustedArray (blob 32) user.pubs),
    (3, trustedArray spendValue user.spends),
    (4, trustedArray outputValue user.outputs),
    (5, some (.unsigned user.height))]

def accountValue (user : LwsAccount) : Value ℕ :=
  .object (present (accountEntries user))

def readAccount (value : Value ℕ) : Except Schema LwsAccount := do
  let fields ← readObject value
  let immutable ← required fields 0 readInternal
  let spendable ← readTrustedArray fields 1 readSpendable
  let pubs ← readTrustedArray fields 2 (readBlob 32)
  let spends ← readTrustedArray fields 3 readSpend
  let outputs ← readTrustedArray fields 4 readOutput
  let height ← required fields 5 (readUnsigned (2 ^ 64))
  .ok (.ofParts immutable spendable pubs spends outputs height)

/-- `account::write_bytes`. -/
def writeAccountBytes (user : LwsAccount) : Except Failure Bytes :=
  writeValue (accountValue user)

/-- `account::read_bytes`; the value may be nested up to the maximum depth,
which is an error itself. -/
def readAccountBytes (source : Bytes) : Except Failure (LwsAccount × Bytes) := do
  let (value, rest) ← readValue (maxReadDepth - 1) source
  match readAccount value with
  | .error failure => .error (.schema failure)
  | .ok user => .ok (user, rest)

/-! ## Values within their types -/

def OutputIdFits (id : OutputId) : Prop := id.high < 2 ^ 64 ∧ id.low < 2 ^ 64

def AddressIndexFits (index : AddressIndex) : Prop :=
  index.majI < 2 ^ 32 ∧ index.minI < 2 ^ 32

def PaymentIdFits (id : PaymentId) : Prop :=
  id.short < 256 ^ 8 ∧ id.tail < 256 ^ 24

instance (id : OutputId) : Decidable (OutputIdFits id) :=
  inferInstanceAs (Decidable (_ ∧ _))

instance (index : AddressIndex) : Decidable (AddressIndexFits index) :=
  inferInstanceAs (Decidable (_ ∧ _))

instance (id : PaymentId) : Decidable (PaymentIdFits id) :=
  inferInstanceAs (Decidable (_ ∧ _))

structure SpendFits (spend : Spend) : Prop where
  height : spend.link.height < 2 ^ 64
  txHash : spend.link.txHash < 256 ^ 32
  image : spend.image < 256 ^ 32
  source : OutputIdFits spend.source
  timestamp : spend.timestamp < 2 ^ 64
  unlockTime : spend.unlockTime < 2 ^ 64
  mixinCount : spend.mixinCount < 2 ^ 32
  paymentId : PaymentIdFits spend.paymentId
  sender : AddressIndexFits spend.sender

structure OutputFits (output : Output) : Prop where
  height : output.link.height < 2 ^ 64
  txHash : output.link.txHash < 256 ^ 32
  id : OutputIdFits output.spendMeta.id
  amount : output.spendMeta.amount < 2 ^ 64
  mixinCount : output.spendMeta.mixinCount < 2 ^ 32
  index : output.spendMeta.index < 2 ^ 32
  txPublic : output.spendMeta.txPublic < 256 ^ 32
  timestamp : output.timestamp < 2 ^ 64
  unlockTime : output.unlockTime < 2 ^ 64
  txPrefixHash : output.txPrefixHash < 256 ^ 32
  pub : output.pub < 256 ^ 32
  ringctMask : output.ringctMask < 256 ^ 32
  paymentId : PaymentIdFits output.paymentId
  fee : output.fee < 2 ^ 64
  recipient : AddressIndexFits output.recipient

structure AccountFits (user : LwsAccount) : Prop where
  id : user.id < 2 ^ 32
  viewPublic : user.dbAddress.viewPublic < 256 ^ 32
  spendPublic : user.dbAddress.spendPublic < 256 ^ 32
  viewKey : user.viewKey < 256 ^ 32
  height : user.height < 2 ^ 64
  spendable : ∀ row ∈ user.spendable,
    OutputIdFits row.1 ∧ AddressIndexFits row.2
  pubs : ∀ pub ∈ user.pubs, pub < 256 ^ 32
  spends : ∀ spend ∈ user.spends, SpendFits spend
  outputs : ∀ output ∈ user.outputs, OutputFits output

/-! ## Records are read back -/

theorem readUnsigned_value {bound value : ℕ} (fits : value < bound) :
    readUnsigned bound (.unsigned value : Value ℕ) = .ok value := by
  rw [readUnsigned, if_pos fits]

theorem readBlob_blob {width value : ℕ} (fits : value < 256 ^ width) :
    readBlob width (blob width value) = .ok value := by
  simp only [readBlob, blob, readBytes, bind, Except.bind, length_toBytes,
    if_true, ofBytes_toBytes fits]

theorem readOutputId_value {id : OutputId} (fits : OutputIdFits id) :
    readOutputId (outputIdValue id) = .ok id := by
  have distinct : ((outputIdEntries id).map Prod.fst).Nodup :=
    show [0, 1].Nodup by decide
  have field : ∀ {key value}, (key, some value) ∈ outputIdEntries id →
      ∀ bound, required (present (outputIdEntries id)) key
        (readUnsigned bound) = readUnsigned bound value :=
    fun member _ => required_present distinct member
  simp only [readOutputId, outputIdValue, readObject, bind, Except.bind,
    field (show (0, some (.unsigned id.high)) ∈ _ by simp [outputIdEntries]),
    field (show (1, some (.unsigned id.low)) ∈ _ by simp [outputIdEntries]),
    readUnsigned_value fits.1, readUnsigned_value fits.2]

theorem readAddressIndex_value {index : AddressIndex}
    (fits : AddressIndexFits index) :
    readAddressIndex (addressIndexValue index) = .ok index := by
  have distinct : ((addressIndexEntries index).map Prod.fst).Nodup :=
    show [0, 1].Nodup by decide
  have field : ∀ {key value}, (key, some value) ∈ addressIndexEntries index →
      ∀ bound, required (present (addressIndexEntries index)) key
        (readUnsigned bound) = readUnsigned bound value :=
    fun member _ => required_present distinct member
  simp only [readAddressIndex, addressIndexValue, readObject, bind,
    Except.bind, field (show (0, some (.unsigned index.majI)) ∈ _ by
      simp [addressIndexEntries]),
    field (show (1, some (.unsigned index.minI)) ∈ _ by
      simp [addressIndexEntries]),
    readUnsigned_value fits.1, readUnsigned_value fits.2]

theorem readAccountAddress_value {address : AccountAddress}
    (viewPublic : address.viewPublic < 256 ^ 32)
    (spendPublic : address.spendPublic < 256 ^ 32) :
    readAccountAddress (accountAddressValue address) = .ok address := by
  have distinct : ((accountAddressEntries address).map Prod.fst).Nodup :=
    show [0, 1].Nodup by decide
  have field : ∀ {key value},
      (key, some value) ∈ accountAddressEntries address →
      required (present (accountAddressEntries address)) key (readBlob 32) =
        readBlob 32 value :=
    fun member => required_present distinct member
  simp only [readAccountAddress, accountAddressValue, readObject, bind,
    Except.bind, field (show (0, some (blob 32 address.spendPublic)) ∈ _ by
      simp [accountAddressEntries]),
    field (show (1, some (blob 32 address.viewPublic)) ∈ _ by
      simp [accountAddressEntries]),
    readBlob_blob viewPublic, readBlob_blob spendPublic]

theorem readSpendable_value {row : OutputId × AddressIndex}
    (first : OutputIdFits row.1) (second : AddressIndexFits row.2) :
    readSpendable (spendableValue row) = .ok row := by
  have distinct : ((spendableEntries row).map Prod.fst).Nodup :=
    show [0, 1].Nodup by decide
  simp only [readSpendable, spendableValue, readObject, bind, Except.bind,
    required_present distinct (show (0, some (outputIdValue row.1)) ∈ _ by
      simp [spendableEntries]),
    required_present distinct (show (1, some (addressIndexValue row.2)) ∈ _ by
      simp [spendableEntries]),
    readOutputId_value first, readAddressIndex_value second]

/-- Payment ids by their length: the tail counts for long ones only. -/
theorem ofBytes_bytes {id : PaymentId} (fits : PaymentIdFits id) :
    PaymentId.ofBytes (PaymentId.bytes id 32) = id ∧
      PaymentId.ofBytes (PaymentId.bytes id 8) = ⟨id.short, 0⟩ ∧
      PaymentId.ofBytes [] = ⟨0, 0⟩ := by
  have long : PaymentId.bytes id 32 = toBytes 8 id.short ++ toBytes 24 id.tail :=
    List.take_of_length_le (by simp)
  have short : PaymentId.bytes id 8 = toBytes 8 id.short := by
    rw [PaymentId.bytes, List.take_append_of_le_length (by simp),
      List.take_of_length_le (by simp)]
  refine ⟨?_, ?_, rfl⟩
  · rw [long, PaymentId.ofBytes, List.take_append_of_le_length (by simp),
      List.take_of_length_le (by simp), List.drop_append_of_le_length (by simp),
      List.drop_eq_nil_of_le (by simp), List.nil_append,
      List.take_of_length_le (by simp), ofBytes_toBytes fits.1,
      ofBytes_toBytes fits.2]
  · rw [short, PaymentId.ofBytes, List.take_of_length_le (by simp),
      List.drop_eq_nil_of_le (by simp), ofBytes_toBytes fits.1]
    rfl

/-- What a spend is after being sent: a payment id of another length than 32
is gone. -/
def reloadSpend (spend : Spend) : Spend :=
  if spend.length = 32 then spend
  else { spend with length := 0, paymentId := ⟨0, 0⟩ }

theorem readSpend_value {spend : Spend} (fits : SpendFits spend) :
    readSpend (spendValue spend) = .ok (reloadSpend spend) := by
  have distinct : ((spendEntries spend).map Prod.fst).Nodup :=
    show [0, 1, 2, 3, 4, 5, 6, 7, 8].Nodup by decide
  have paymentId : optional (present (spendEntries spend)) 7
      (fun value => do
        let bytes ← readBytes value
        if bytes.length = 32 then .ok bytes else .error .fixedBinary) =
      .ok (if spend.length = 32 then some (PaymentId.bytes spend.paymentId 32)
        else none) := by
    rw [optional_present distinct (show (7, if spend.length = 32 then
      some (.binary (PaymentId.bytes spend.paymentId 32)) else none) ∈ _ by
        simp [spendEntries])]
    split
    · have length : (PaymentId.bytes spend.paymentId 32).length = 32 := by
        simp [PaymentId.bytes]
      simp only [Option.mapM_some, readBytes, bind, Except.bind, if_pos length]
      rfl
    · rfl
  obtain ⟨long, -, none⟩ := ofBytes_bytes fits.paymentId
  simp only [readSpend, spendValue, readObject, bind, Except.bind] at paymentId ⊢
  rw [required_present distinct (show (0, some (.unsigned
      spend.link.height)) ∈ _ by simp [spendEntries]),
    required_present distinct (show (1, some (blob 32
      spend.link.txHash)) ∈ _ by simp [spendEntries]),
    required_present distinct (show (2, some (blob 32 spend.image)) ∈ _ by
      simp [spendEntries]),
    required_present distinct (show (3, some (outputIdValue
      spend.source)) ∈ _ by simp [spendEntries]),
    required_present distinct (show (4, some (.unsigned
      spend.timestamp)) ∈ _ by simp [spendEntries]),
    required_present distinct (show (5, some (.unsigned
      spend.unlockTime)) ∈ _ by simp [spendEntries]),
    required_present distinct (show (6, some (.unsigned
      spend.mixinCount)) ∈ _ by simp [spendEntries]),
    required_present distinct (show (8, some (addressIndexValue
      spend.sender)) ∈ _ by simp [spendEntries]),
    readUnsigned_value fits.height, readBlob_blob fits.txHash,
    readBlob_blob fits.image, readOutputId_value fits.source,
    readUnsigned_value fits.timestamp, readUnsigned_value fits.unlockTime,
    readUnsigned_value fits.mixinCount, paymentId,
    readAddressIndex_value fits.sender]
  dsimp only
  unfold reloadSpend
  by_cases same : spend.length = 32
  · simp only [if_pos same, Option.getD_some, long, Option.isSome_some]
    rw [if_pos trivial, ← same]
  · simp only [if_neg same, Option.getD_none, none]
    rfl

/-- What an output is after being sent: the mask follows the ringct flag, and
the payment id the length in the flags. -/
def reloadOutput (output : Output) : Output :=
  let flags := (unpack output.extra).1
  let length := (unpack output.extra).2
  { output with
    ringctMask := if flags.ringct then output.ringctMask else 0
    extra := pack flags (if length = 32 ∨ length = 8 then length else 0)
    paymentId :=
      if length = 32 then output.paymentId
      else if length = 8 then ⟨output.paymentId.short, 0⟩
      else ⟨0, 0⟩ }

section OutputEntries

variable {output : Output}

private theorem outputEntries_distinct :
    ((outputEntries output).map Prod.fst).Nodup :=
  show [0, 1, 2, 3, 4, 5, 6, 7, 8, 9, 10, 11, 12, 13, 14, 15].Nodup by
    decide

/-- An entry that is always written. -/
private theorem required_output {α : Type} {key : ℕ} {value : Value ℕ}
    {read : Value ℕ → Except Schema α}
    (listed : (key, some value) ∈ outputEntries output) :
    required (present (outputEntries output)) key read = read value :=
  required_present outputEntries_distinct listed

private theorem outputEntries_id (fits : OutputFits output) :
    ∃ found, optional (present (outputEntries output)) 0 readOutputId =
      .ok found ∧ found.getD ⟨0, 2 ^ 64 - 1⟩ = output.spendMeta.id := by
  rw [optional_present outputEntries_distinct (show (0,
    if output.spendMeta.id ≠ ⟨0, 2 ^ 64 - 1⟩ then
      some (outputIdValue output.spendMeta.id) else none) ∈ _ by
      simp [outputEntries])]
  split
  · refine ⟨some output.spendMeta.id, ?_, rfl⟩
    simp only [Option.mapM_some, readOutputId_value fits.id]
    rfl
  · rename_i txpool
    exact ⟨none, rfl, (not_not.mp txpool).symm⟩

private theorem outputEntries_height (fits : OutputFits output) :
    ∃ found, optional (present (outputEntries output)) 1
      (readUnsigned (2 ^ 64)) = .ok found ∧
        found.getD BlockId.txpool = output.link.height := by
  rw [optional_present outputEntries_distinct (show (1,
    if output.link.height ≠ BlockId.txpool then
      some (.unsigned output.link.height) else none) ∈ _ by
      simp [outputEntries])]
  split
  · refine ⟨some output.link.height, ?_, rfl⟩
    simp only [Option.mapM_some, readUnsigned_value fits.height]
    rfl
  · rename_i txpool
    exact ⟨none, rfl, (not_not.mp txpool).symm⟩

private theorem outputEntries_mask (fits : OutputFits output) :
    ∃ found, optional (present (outputEntries output)) 8 (readBlob 32) =
      .ok found ∧ found.isSome = (unpack output.extra).1.ringct ∧
        found.getD 0 =
          if (unpack output.extra).1.ringct then output.ringctMask else 0 := by
  rw [optional_present outputEntries_distinct (show (8,
    if (unpack output.extra).1.ringct then some (blob 32 output.ringctMask)
      else none) ∈ _ by simp [outputEntries])]
  cases (unpack output.extra).1.ringct with
  | false => exact ⟨none, rfl, rfl, rfl⟩
  | true =>
      refine ⟨some output.ringctMask, ?_, rfl, rfl⟩
      simp only [if_true, Option.mapM_some, readBlob_blob fits.ringctMask]
      rfl

private theorem outputEntries_paymentId :
    optional (present (outputEntries output)) 9 readBytes =
      .ok (Output.paymentBytes output) := by
  rw [optional_present outputEntries_distinct (show (9,
    (Output.paymentBytes output).map .binary) ∈ _ by simp [outputEntries])]
  cases Output.paymentBytes output with
  | none => rfl
  | some bytes => rfl

/-- The length of the payment id that is written. -/
theorem length_paymentBytes :
    ((Output.paymentBytes output).getD []).length =
      if (unpack output.extra).2 = 32 ∨ (unpack output.extra).2 = 8 then
        (unpack output.extra).2
      else 0 := by
  unfold Output.paymentBytes
  dsimp only
  split
  · rename_i known
    rcases known with long | short
    · simp [long, PaymentId.bytes]
    · simp [short, PaymentId.bytes]
  · rfl

/-- The payment id that is read back. -/
theorem ofBytes_paymentBytes (fits : PaymentIdFits output.paymentId) :
    PaymentId.ofBytes ((Output.paymentBytes output).getD []) =
      if (unpack output.extra).2 = 32 then output.paymentId
      else if (unpack output.extra).2 = 8 then ⟨output.paymentId.short, 0⟩
      else ⟨0, 0⟩ := by
  obtain ⟨long, short, nothing⟩ := ofBytes_bytes fits
  unfold Output.paymentBytes
  dsimp only
  by_cases isLong : (unpack output.extra).2 = 32
  · rw [if_pos (.inl isLong), if_pos isLong, isLong]
    exact long
  · by_cases isShort : (unpack output.extra).2 = 8
    · rw [if_pos (.inr isShort), if_neg isLong, if_pos isShort, isShort]
      exact short
    · rw [if_neg (not_or.mpr ⟨isLong, isShort⟩), if_neg isLong, if_neg isShort]
      exact nothing

end OutputEntries

theorem readOutput_value {output : Output} (fits : OutputFits output) :
    readOutput (outputValue output) = .ok (reloadOutput output) := by
  obtain ⟨foundId, idRead, idValue⟩ := outputEntries_id fits
  obtain ⟨foundHeight, heightRead, heightValue⟩ := outputEntries_height fits
  obtain ⟨foundMask, maskRead, maskSome, maskValue⟩ := outputEntries_mask fits
  simp only [readOutput, outputValue, readObject, bind, Except.bind]
  rw [idRead, heightRead, maskRead, outputEntries_paymentId,
    required_output (show (2, some (.unsigned
      output.spendMeta.index)) ∈ _ by simp [outputEntries]),
    required_output (show (3, some (.unsigned
      output.spendMeta.amount)) ∈ _ by simp [outputEntries]),
    required_output (show (4, some (.unsigned
      output.timestamp)) ∈ _ by simp [outputEntries]),
    required_output (show (5, some (blob 32
      output.link.txHash)) ∈ _ by simp [outputEntries]),
    required_output (show (6, some (blob 32
      output.txPrefixHash)) ∈ _ by simp [outputEntries]),
    required_output (show (7, some (blob 32
      output.spendMeta.txPublic)) ∈ _ by simp [outputEntries]),
    required_output (show (10, some (.unsigned
      output.unlockTime)) ∈ _ by simp [outputEntries]),
    required_output (show (11, some (.unsigned
      output.spendMeta.mixinCount)) ∈ _ by simp [outputEntries]),
    required_output (show (12, some (.boolean
      (unpack output.extra).1.coinbase)) ∈ _ by simp [outputEntries]),
    required_output (show (13, some (.unsigned output.fee)) ∈ _ by
      simp [outputEntries]),
    required_output (show (14, some (addressIndexValue
      output.recipient)) ∈ _ by simp [outputEntries]),
    required_output (show (15, some (blob 32 output.pub)) ∈ _ by
      simp [outputEntries]),
    readUnsigned_value fits.index, readUnsigned_value fits.amount,
    readUnsigned_value fits.timestamp, readBlob_blob fits.txHash,
    readBlob_blob fits.txPrefixHash, readBlob_blob fits.txPublic,
    readUnsigned_value fits.unlockTime, readUnsigned_value fits.mixinCount,
    readUnsigned_value fits.fee, readAddressIndex_value fits.recipient,
    readBlob_blob fits.pub]
  simp only [readBoolean, idValue, heightValue, maskSome, maskValue]
  have length := @length_paymentBytes output
  have within : ((Output.paymentBytes output).getD []).length < 256 := by
    rw [length]
    split
    · lia
    · decide
  rw [Nat.mod_eq_of_lt within, List.take_length,
    ofBytes_paymentBytes fits.paymentId, length, if_neg]
  · rfl
  · split
    · lia
    · simp

theorem readInternal_value {immutable : LwsAccount.Internal}
    (id : immutable.id < 2 ^ 32)
    (viewPublic : immutable.pubs.viewPublic < 256 ^ 32)
    (spendPublic : immutable.pubs.spendPublic < 256 ^ 32)
    (viewKey : immutable.viewKey < 256 ^ 32) :
    readInternal (internalValue immutable) = .ok immutable := by
  have distinct : ((internalEntries immutable).map Prod.fst).Nodup :=
    show [0, 1, 2, 3].Nodup by decide
  simp only [readInternal, internalValue, readObject, bind, Except.bind,
    required_present distinct (show (0, some (.string immutable.address)) ∈ _ by
      simp [internalEntries]),
    required_present distinct (show (1, some (.unsigned immutable.id)) ∈ _ by
      simp [internalEntries]),
    required_present distinct (show (2, some (accountAddressValue
      immutable.pubs)) ∈ _ by simp [internalEntries]),
    required_present distinct (show (3, some (blob 32
      immutable.viewKey)) ∈ _ by simp [internalEntries]),
    readString, readUnsigned_value id,
    readAccountAddress_value viewPublic spendPublic, readBlob_blob viewKey]

/-- An array is read back item by item; an omitted one is empty. -/
theorem readTrustedArray_present {α : Type} {read : Value ℕ → Except Schema α}
    {write : α → Value ℕ} {image : α → α} {items : List α} {key : ℕ}
    {entries : List (ℕ × Option (Value ℕ))}
    (distinct : (entries.map Prod.fst).Nodup)
    (member : (key, trustedArray write items) ∈ entries)
    (within : items.length ≤ 2 ^ 64 - 1)
    (reads : ∀ item ∈ items, read (write item) = .ok (image item)) :
    readTrustedArray (present entries) key read = .ok (items.map image) := by
  unfold readTrustedArray optionalArray
  rw [optional_present distinct member, trustedArray]
  split
  · rename_i empty
    subst empty
    rfl
  · have back := readItems_images (2 ^ 64 - 1) items [] reads
      (by rw [List.length_nil, Nat.zero_add]; exact within)
    simp only [Option.mapM_some, readArray, back]
    rfl

/-- An account after being sent. -/
def reloadAccount (user : LwsAccount) : LwsAccount :=
  { user with
    spends := user.spends.map reloadSpend
    outputs := user.outputs.map reloadOutput }

theorem readAccount_value {user : LwsAccount} (fits : AccountFits user)
    (spendable : user.spendable.length ≤ 2 ^ 64 - 1)
    (pubs : user.pubs.length ≤ 2 ^ 64 - 1)
    (spends : user.spends.length ≤ 2 ^ 64 - 1)
    (outputs : user.outputs.length ≤ 2 ^ 64 - 1) :
    readAccount (accountValue user) = .ok (reloadAccount user) := by
  have distinct : ((accountEntries user).map Prod.fst).Nodup :=
    show [0, 1, 2, 3, 4, 5].Nodup by decide
  have spendableRead := @readTrustedArray_present _ _ _ id _ _ _ distinct
    (show (1, trustedArray spendableValue user.spendable) ∈ _ by
      simp [accountEntries]) spendable
    fun row member => readSpendable_value (fits.spendable row member).1
      (fits.spendable row member).2
  have pubsRead := @readTrustedArray_present _ _ _ id _ _ _ distinct
    (show (2, trustedArray (blob 32) user.pubs) ∈ _ by
      simp [accountEntries]) pubs
    fun pub member => readBlob_blob (fits.pubs pub member)
  have spendsRead := readTrustedArray_present distinct
    (show (3, trustedArray spendValue user.spends) ∈ _ by
      simp [accountEntries]) spends
    fun spend member => readSpend_value (fits.spends spend member)
  have outputsRead := readTrustedArray_present distinct
    (show (4, trustedArray outputValue user.outputs) ∈ _ by
      simp [accountEntries]) outputs
    fun output member => readOutput_value (fits.outputs output member)
  simp only [readAccount, accountValue, readObject, bind, Except.bind,
    required_present distinct (show (0, some (internalValue
      user.immutable)) ∈ _ by simp [accountEntries]),
    required_present distinct (show (5, some (.unsigned user.height)) ∈ _ by
      simp [accountEntries]),
    readInternal_value fits.id fits.viewPublic fits.spendPublic fits.viewKey,
    spendableRead, pubsRead, spendsRead, outputsRead,
    readUnsigned_value fits.height, List.map_id]
  exact congrArg Except.ok (reloadAccount user).ofParts_self

end XfoLws.Wire
