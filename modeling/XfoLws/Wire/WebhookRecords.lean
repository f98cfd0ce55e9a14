import XfoLws.Wire.JsonPlain
import XfoLws.Wire.MsgpackStyle
import XfoLws.Wire.OutputPayment
import XfoLws.Wire.Records

/-!
# Records of webhooks on the wire

An output, the webhook values with their payment ids, and which of the records
survive: everything that is written is read back, but the confirmations of a
webhook value, which are read into a copy.
-/

namespace XfoLws.Wire

open Db Parsing
open Msgpack (KeyMap Tree maxReadDepth maxSize toBytes)

/-! ## Names that other records use as well -/

theorem index_terminated : 0 ∉ asciiBytes "index".toList := by decide

theorem token_terminated : 0 ∉ asciiBytes "token".toList := by decide

theorem confirmations_terminated : 0 ∉ asciiBytes "confirmations".toList := by
  decide

theorem url_terminated : 0 ∉ asciiBytes "url".toList := by decide

/-! ## `output` -/

namespace OutputRecord

def keys : Fin 16 → KeyMap :=
  ![key "id" 0, key "block" 1, key "index" 2 index_terminated, key "amount" 3,
    key "timestamp" 4, key "tx_hash" 5, key "tx_prefix_hash" 6,
    key "tx_public" 7, key "rct_mask" 8, key "payment_id" 9,
    key "unlock_time" 10, key "mixin_count" 11, key "coinbase" 12,
    key "fee" 13, key "recipient" 14, key "pub" 15]

abbrev Targets : Fin 16 → Type
  | 0 => OutputId
  | 8 => Option ℕ
  | 9 => Option Bytes
  | 12 => Bool
  | 14 => AddressIndex
  | _ => ℕ

/-- `output_id::txpool`. -/
def txpool : OutputId := ⟨0, 2 ^ 64 - 1⟩

def fields (reader : ValueReader) : ∀ index, reader.Field (Targets index)
  | 0 => defaultedField (keys 0) txpool (OutputIdRecord.read reader)
  | 1 => defaultedField (keys 1) BlockId.txpool fun _ =>
      reader.readUnsigned (2 ^ 64)
  | 2 => field (keys 2) fun _ => reader.readUnsigned (2 ^ 32)
  | 3 => field (keys 3) fun _ => reader.readUnsigned (2 ^ 64)
  | 4 => field (keys 4) fun _ => reader.readUnsigned (2 ^ 64)
  | 5 => field (keys 5) fun _ => reader.readBlob 32
  | 6 => field (keys 6) fun _ => reader.readBlob 32
  | 7 => field (keys 7) fun _ => reader.readBlob 32
  | 8 => optionalField (keys 8) 0 fun _ => reader.readBlob 32
  | 9 => optionalField (keys 9) [] fun _ => reader.binary
  | 10 => field (keys 10) fun _ => reader.readUnsigned (2 ^ 64)
  | 11 => field (keys 11) fun _ => reader.readUnsigned (2 ^ 32)
  | 12 => field (keys 12) fun _ => reader.boolean
  | 13 => field (keys 13) fun _ => reader.readUnsigned (2 ^ 64)
  | 14 => field (keys 14) (AddressIndexRecord.read reader)
  | 15 => field (keys 15) fun _ => reader.readBlob 32
  | ⟨_ + 16, above⟩ => absurd above (Nat.not_lt.mpr (Nat.le_add_left 16 _))

/-- The members of an output, with the local variables of `read_bytes`. -/
def targets (self : Output) (rct : Option ℕ) (paymentId : Option Bytes)
    (coinbase : Bool) : ∀ index, Targets index
  | 0 => self.spendMeta.id
  | 1 => self.link.height
  | 2 => self.spendMeta.index
  | 3 => self.spendMeta.amount
  | 4 => self.timestamp
  | 5 => self.link.txHash
  | 6 => self.txPrefixHash
  | 7 => self.spendMeta.txPublic
  | 8 => rct
  | 9 => paymentId
  | 10 => self.unlockTime
  | 11 => self.spendMeta.mixinCount
  | 12 => coinbase
  | 13 => self.fee
  | 14 => self.recipient
  | 15 => self.pub
  | ⟨_ + 16, above⟩ => absurd above (Nat.not_lt.mpr (Nat.le_add_left 16 _))

/-- `std::memcpy` into the union, whose other bytes stay. -/
def copyPayment (target : PaymentId) (bytes : Bytes) (payLength : ℕ) :
    PaymentId :=
  if payLength = 8 then ⟨Msgpack.ofBytes (bytes.take 8), target.tail⟩
  else if payLength = 32 then PaymentId.ofBytes (bytes.take 32)
  else target

/-- `pay_length`, in eight bits. -/
def payLength (paymentId : Option Bytes) : ℕ :=
  (paymentId.getD []).length % 256

/-- What `read_bytes` leaves in its target. -/
def filled (target : Output) (fields : ∀ index, Targets index) : Output :=
  let rct : Option ℕ := fields 8
  let paymentId : Option Bytes := fields 9
  { link := ⟨fields 1, fields 5⟩
    spendMeta := ⟨fields 0, fields 3, fields 11, fields 2, fields 7⟩
    timestamp := fields 4
    unlockTime := fields 10
    txPrefixHash := fields 6
    pub := fields 15
    ringctMask := rct.getD 0
    extra := pack ⟨fields 12, rct.isSome⟩ (payLength paymentId)
    paymentId := copyPayment target.paymentId (paymentId.getD [])
      (payLength paymentId)
    fee := fields 13
    recipient := fields 14 }

/-- `read_bytes(wire::reader&, output&)`. -/
def read (reader : ValueReader) (target : Output) : reader.Reads Output := do
  let fields ← object reader.format.reader (fields reader)
    (targets target none none false)
  let length := payLength (fields 9)
  if length ≠ 0 ∧ length ≠ 8 ∧ length ≠ 32 then reader.throws .binary
  else return filled target fields

/-- The mask that is written. -/
def rctMask (self : Output) : Option ℕ :=
  if (unpack self.extra).1.ringct then some self.ringctMask else none

/-- `write_bytes(wire::writer&, const output&)`. -/
def trees (self : Output) : Fin 16 → Option Tree
  | 0 => if self.spendMeta.id ≠ txpool then
      some (OutputIdRecord.tree self.spendMeta.id) else none
  | 1 => if self.link.height ≠ BlockId.txpool then
      some (unsignedTree self.link.height) else none
  | 2 => some (unsignedTree self.spendMeta.index)
  | 3 => some (unsignedTree self.spendMeta.amount)
  | 4 => some (unsignedTree self.timestamp)
  | 5 => some (blobTree 32 self.link.txHash)
  | 6 => some (blobTree 32 self.txPrefixHash)
  | 7 => some (blobTree 32 self.spendMeta.txPublic)
  | 8 => (rctMask self).map (blobTree 32)
  | 9 => (Output.paymentBytes self).map .binary
  | 10 => some (unsignedTree self.unlockTime)
  | 11 => some (unsignedTree self.spendMeta.mixinCount)
  | 12 => some (.boolean (unpack self.extra).1.coinbase)
  | 13 => some (unsignedTree self.fee)
  | 14 => some (AddressIndexRecord.tree self.recipient)
  | 15 => some (blobTree 32 self.pub)
  | ⟨_ + 16, above⟩ => absurd above (Nat.not_lt.mpr (Nat.le_add_left 16 _))

def tree (self : Output) : Tree := Style.writeObject keys (trees self)

theorem keyMap_fields (reader : ValueReader) :
    keyMap (fields reader) = keys := by
  funext index
  match index with
  | 0 | 1 | 2 | 3 | 4 | 5 | 6 | 7 => rfl
  | 8 | 9 | 10 | 11 | 12 | 13 | 14 | 15 => rfl
  | ⟨_ + 16, above⟩ => exact absurd above (Nat.not_lt.mpr (Nat.le_add_left 16 _))

/-- The targets behind what was written. -/
def written (self : Output) : ∀ index, Targets index :=
  targets self (rctMask self) (Output.paymentBytes self)
    (unpack self.extra).1.coinbase

section Reads

variable {style : Style} {depth : ℕ} {bytes : Bytes} {self : Output}

theorem rctMask_eq_some {mask : ℕ} (given : rctMask self = some mask) :
    self.ringctMask = mask := by
  unfold rctMask at given
  split at given
  · exact Option.some.inj given
  · cases given

theorem fields_read (fits : OutputFits self)
    (shallow : depth + 1 < maxReadDepth) (target : Output)
    {index : Fin 16} {tree : Tree} (given : trees self index = some tree)
    (found : style.text tree = some bytes) :
    style.format.Reads depth
      ((fields style.toValueReader index).unpack
        (targets target none none false index)) bytes (written self index) := by
  match index with
  | 0 =>
      have given : (if self.spendMeta.id ≠ txpool then
          some (OutputIdRecord.tree self.spendMeta.id) else none) =
          some tree := given
      split at given
      · cases given
        exact OutputIdRecord.reads target.spendMeta.id fits.id shallow found
      · cases given
  | 1 =>
      have given : (if self.link.height ≠ BlockId.txpool then
          some (unsignedTree self.link.height) else none) = some tree := given
      split at given
      · cases given
        exact Style.readUnsigned_reads fits.height (by decide) found
      · cases given
  | 2 =>
      cases given
      exact Style.readUnsigned_reads fits.index (by decide) found
  | 3 =>
      cases given
      exact Style.readUnsigned_reads fits.amount (by decide) found
  | 4 =>
      cases given
      exact Style.readUnsigned_reads fits.timestamp (by decide) found
  | 5 =>
      cases given
      exact Style.readBlob_reads fits.txHash found
  | 6 =>
      cases given
      exact Style.readBlob_reads fits.txPrefixHash found
  | 7 =>
      cases given
      exact Style.readBlob_reads fits.txPublic found
  | 8 =>
      obtain ⟨mask, kept, rfl⟩ := Option.map_eq_some_iff.mp given
      have same := rctMask_eq_some kept
      show style.format.Reads depth (some <$> style.readBlob 32) bytes
        (rctMask self)
      rw [kept]
      exact (Style.readBlob_reads (same ▸ fits.ringctMask) found).functor some
  | 9 =>
      obtain ⟨paymentId, kept, rfl⟩ := Option.map_eq_some_iff.mp given
      show style.format.Reads depth (some <$> style.binary) bytes
        (Output.paymentBytes self)
      rw [kept]
      exact (style.reads_binary depth found).functor some
  | 10 =>
      cases given
      exact Style.readUnsigned_reads fits.unlockTime (by decide) found
  | 11 =>
      cases given
      exact Style.readUnsigned_reads fits.mixinCount (by decide) found
  | 12 =>
      cases given
      exact style.reads_boolean depth found
  | 13 =>
      cases given
      exact Style.readUnsigned_reads fits.fee (by decide) found
  | 14 =>
      cases given
      exact AddressIndexRecord.reads target.recipient fits.recipient shallow found
  | 15 =>
      cases given
      exact Style.readBlob_reads fits.pub found
  | ⟨_ + 16, above⟩ => exact absurd above (Nat.not_lt.mpr (Nat.le_add_left 16 _))

/-- What is omitted has the default value. -/
theorem fields_omitted (reader : ValueReader) {index : Fin 16}
    (missing : trees self index = none) :
    (fields reader index).omitted = some (written self index) := by
  match index with
  | 0 =>
      have missing : (if self.spendMeta.id ≠ txpool then
          some (OutputIdRecord.tree self.spendMeta.id) else none) =
          none := missing
      split at missing
      · cases missing
      · rename_i same
        exact congrArg some (not_not.mp same).symm
  | 1 =>
      have missing : (if self.link.height ≠ BlockId.txpool then
          some (unsignedTree self.link.height) else none) = none := missing
      split at missing
      · cases missing
      · rename_i same
        exact congrArg some (not_not.mp same).symm
  | 8 => exact congrArg some (Option.map_eq_none_iff.mp missing).symm
  | 9 => exact congrArg some (Option.map_eq_none_iff.mp missing).symm
  | 2 | 3 | 4 | 5 | 6 | 7 => cases missing
  | 10 | 11 | 12 | 13 | 14 | 15 => cases missing
  | ⟨_ + 16, above⟩ => exact absurd above (Nat.not_lt.mpr (Nat.le_add_left 16 _))

theorem length_bytes (id : PaymentId) {length : ℕ} (within : length ≤ 32) :
    (PaymentId.bytes id length).length = length := by
  rw [PaymentId.bytes, List.length_take, List.length_append,
    Msgpack.length_toBytes, Msgpack.length_toBytes]
  exact Nat.min_eq_left within

theorem length_payment (valid : ValidLength (unpack self.extra).2) :
    ((Output.paymentBytes self).getD []).length = (unpack self.extra).2 := by
  rw [length_paymentBytes]
  rcases valid with empty | short | long
  · rw [empty]
    rfl
  · rw [short]
    rfl
  · rw [long]
    rfl

theorem payLength_paymentBytes (valid : ValidLength (unpack self.extra).2) :
    payLength (Output.paymentBytes self) = (unpack self.extra).2 := by
  rw [payLength, length_payment valid]
  apply Nat.mod_eq_of_lt
  unfold ValidLength at valid
  lia

theorem isSome_rctMask :
    (rctMask self).isSome = (unpack self.extra).1.ringct := by
  unfold rctMask
  split
  · rename_i kept
    exact kept.symm
  · rename_i omitted
    exact (Bool.eq_false_of_not_eq_true omitted).symm

theorem reads (target : Output) (fits : OutputFits self)
    (valid : ValidLength (unpack self.extra).2)
    (shallow : depth + 2 < maxReadDepth)
    (produced : style.text (tree self) = some bytes) :
    style.format.Reads depth (read style.toValueReader target) bytes
      (filled target (written self)) := by
  have object_reads : style.format.Reads depth
      (object style.format.reader (fields style.toValueReader)
        (targets target none none false)) bytes (written self) :=
    Style.object_reads (keyMap_fields _) (by decide) (by decide)
      (Nat.lt_of_succ_lt shallow).ne produced
      (fun _ _ _ given found =>
        fields_read fits shallow target given found)
      fun _ missing => fields_omitted _ missing
  refine object_reads.bind (if_neg ?_)
  show ¬ (payLength (Output.paymentBytes self) ≠ 0 ∧
    payLength (Output.paymentBytes self) ≠ 8 ∧
    payLength (Output.paymentBytes self) ≠ 32)
  rw [payLength_paymentBytes valid]
  unfold ValidLength at valid
  lia

end Reads

/-- Every field that was written has its value. -/
structure Agrees (source result : Output) : Prop where
  link : result.link = source.link
  spendMeta : result.spendMeta = source.spendMeta
  timestamp : result.timestamp = source.timestamp
  unlockTime : result.unlockTime = source.unlockTime
  txPrefixHash : result.txPrefixHash = source.txPrefixHash
  pub : result.pub = source.pub
  flags : unpack result.extra = unpack source.extra
  mask : rctMask result = rctMask source
  payment : Output.paymentBytes result = Output.paymentBytes source
  fee : result.fee = source.fee
  recipient : result.recipient = source.recipient

theorem tree_eq {self result : Output} (agrees : Agrees self result) :
    tree result = tree self := by
  have same : trees result = trees self := by
    funext index
    unfold trees
    rw [agrees.link, agrees.spendMeta, agrees.timestamp, agrees.unlockTime,
      agrees.txPrefixHash, agrees.pub, agrees.flags, agrees.mask,
      agrees.payment, agrees.fee, agrees.recipient]
  rw [tree, same, tree]

theorem bytes_copyPayment (target self : PaymentId) {length : ℕ}
    (some : length = 8 ∨ length = 32) :
    PaymentId.bytes (copyPayment target (PaymentId.bytes self length) length)
      length = PaymentId.bytes self length := by
  rcases some with rfl | rfl
  · have size : (PaymentId.bytes self 8).length = 8 :=
      length_bytes self (by decide)
    have whole : (PaymentId.bytes self 8).take 8 = PaymentId.bytes self 8 :=
      List.take_of_length_le size.le
    rw [copyPayment, if_pos rfl, whole]
    conv_lhs => rw [PaymentId.bytes, toBytes_ofBytes size]
    rw [List.take_append_of_le_length size.ge, whole]
  · have size : (PaymentId.bytes self 32).length = 32 :=
      length_bytes self le_rfl
    have whole : (PaymentId.bytes self 32).take 32 = PaymentId.bytes self 32 :=
      List.take_of_length_le size.le
    have back := @bytes_ofBytes (PaymentId.bytes self 32)
      (.inr (.inr size))
    rw [size] at back
    rw [copyPayment, if_neg (by decide), if_pos rfl, whole, back]

theorem filled_agrees (target : Output) {self : Output}
    (valid : ValidLength (unpack self.extra).2) :
    Agrees self (filled target (written self)) := by
  have length := payLength_paymentBytes valid
  have fits : (unpack self.extra).2 < 64 := by
    unfold ValidLength at valid
    lia
  have flags : unpack (filled target (written self)).extra =
      unpack self.extra := by
    show unpack (pack ⟨(unpack self.extra).1.coinbase,
      (rctMask self).isSome⟩ (payLength (Output.paymentBytes self))) = _
    rw [length, isSome_rctMask, unpack_pack _ fits]
  refine ⟨rfl, rfl, rfl, rfl, rfl, rfl, flags, ?_, ?_, rfl, rfl⟩
  · rw [rctMask, flags, rctMask]
    split
    · rename_i kept
      show some ((rctMask self).getD 0) = _
      rw [rctMask, if_pos kept]
      rfl
    · rfl
  · rw [Output.paymentBytes, flags, Output.paymentBytes]
    split
    · rename_i long
      have kept : Output.paymentBytes self =
          some (PaymentId.bytes self.paymentId (unpack self.extra).2) :=
        if_pos long
      show some (PaymentId.bytes (copyPayment target.paymentId
        ((Output.paymentBytes self).getD [])
        (payLength (Output.paymentBytes self))) _) = _
      rw [length, kept, Option.getD_some, bytes_copyPayment _ _ long.symm]
    · rfl

theorem copyPayment_zero (bytes : Bytes) {length : ℕ}
    (valid : ValidLength length) (size : bytes.length = length) :
    copyPayment ⟨0, 0⟩ bytes length = PaymentId.ofBytes bytes := by
  rcases valid with rfl | rfl | rfl
  · rw [List.eq_nil_of_length_eq_zero size]
    rfl
  · have none : bytes.drop 8 = [] := List.drop_eq_nil_of_le size.le
    rw [copyPayment, if_pos rfl, PaymentId.ofBytes, none]
    rfl
  · rw [copyPayment, if_neg (by decide), if_pos rfl,
      List.take_of_length_le size.le]

/-- The two readers of an output, `readOutput` of a parsed value and this one
of text, make the same of what was written. -/
theorem readOutput_filled {self target : Output} (fits : OutputFits self)
    (valid : ValidLength (unpack self.extra).2)
    (fresh : target.paymentId = ⟨0, 0⟩) :
    readOutput (outputValue self) = .ok (filled target (written self)) := by
  have length := payLength_paymentBytes valid
  have payment : copyPayment target.paymentId
      ((Output.paymentBytes self).getD []) (unpack self.extra).2 =
        if (unpack self.extra).2 = 32 then self.paymentId
        else if (unpack self.extra).2 = 8 then ⟨self.paymentId.short, 0⟩
        else ⟨0, 0⟩ := by
    rw [fresh, copyPayment_zero _ valid (length_payment valid)]
    exact ofBytes_paymentBytes fits.paymentId
  have mask : (rctMask self).getD 0 =
      if (unpack self.extra).1.ringct then self.ringctMask else 0 := by
    unfold rctMask
    split <;> rfl
  have kept : (if (unpack self.extra).2 = 32 ∨ (unpack self.extra).2 = 8 then
      (unpack self.extra).2 else 0) = (unpack self.extra).2 :=
    length_paymentBytes.symm.trans (length_payment valid)
  rw [readOutput_value fits]
  show Except.ok (reloadOutput self) = .ok
    { self with
      ringctMask := (rctMask self).getD 0
      extra := pack ⟨(unpack self.extra).1.coinbase, (rctMask self).isSome⟩
        (payLength (Output.paymentBytes self))
      paymentId := copyPayment target.paymentId
        ((Output.paymentBytes self).getD [])
        (payLength (Output.paymentBytes self)) }
  rw [length, payment, mask, isSome_rctMask, reloadOutput, kept]

end OutputRecord

/-! ## Payment ids of webhooks -/

/-- `std::memcpy` between a `std::uint64_t` and a `crypto::hash8`, with the
lowest byte first. -/
def hash8 (paymentId : ℕ) : ℕ := Msgpack.ofBytes (toBytes 8 paymentId).reverse

theorem ofBytes_lt (bytes : Bytes) :
    Msgpack.ofBytes bytes < 256 ^ bytes.length := by
  induction bytes using List.reverseRecOn with
  | nil => exact Nat.one_pos
  | append_singleton bytes byte induction =>
      have value : Msgpack.ofBytes (bytes ++ [byte]) =
          Msgpack.ofBytes bytes * 256 + byte.val := by
        simp only [Msgpack.ofBytes, List.foldl_append, List.foldl_cons,
          List.foldl_nil]
      have small := byte.isLt
      rw [value, List.length_append, List.length_singleton, pow_succ]
      lia

theorem hash8_lt (paymentId : ℕ) : hash8 paymentId < 256 ^ 8 := by
  have below := ofBytes_lt (toBytes 8 paymentId).reverse
  rwa [List.length_reverse, Msgpack.length_toBytes] at below

theorem hash8_hash8 {paymentId : ℕ} (fits : paymentId < 2 ^ 64) :
    hash8 (hash8 paymentId) = paymentId := by
  have size : (toBytes 8 paymentId).reverse.length = 8 := by
    rw [List.length_reverse, Msgpack.length_toBytes]
  have within : paymentId < 256 ^ 8 := fits.trans_eq (by decide)
  rw [hash8, hash8, toBytes_ofBytes size, List.reverse_reverse,
    Msgpack.ofBytes_toBytes within]

/-! ## `webhook_value` -/

abbrev WebhookValue := Db.WebhookValue Bytes

namespace WebhookValueRecord

def keys : Fin 5 → KeyMap :=
  ![key "payment_id" 0, key "event_id" 1, key "token" 2 token_terminated,
    key "confirmations" 3 confirmations_terminated,
    key "url" 4 url_terminated]

abbrev Targets : Fin 5 → Type
  | 0 => ℕ
  | 1 => ℕ
  | 2 => Bytes
  | 3 => ℕ
  | 4 => Bytes

/-- `map_webhook_value`. -/
def fields (reader : ValueReader) : ∀ index, reader.Field (Targets index)
  | 0 => field (keys 0) fun _ => reader.readBlob 8
  | 1 => field (keys 1) fun _ => reader.readBlob 16
  | 2 => field (keys 2) fun _ => reader.string
  | 3 => field (keys 3) fun _ => reader.readUnsigned (2 ^ 32)
  | 4 => field (keys 4) fun _ => reader.string

def targets (self : WebhookValue) (paymentId : ℕ) : ∀ index, Targets index
  | 0 => paymentId
  | 1 => self.1.eventId
  | 2 => self.2.token
  | 3 => self.2.confirmations
  | 4 => self.2.url

/-- What `read_bytes` leaves in its target.  The field of the confirmations
holds a copy of them: what is read into it is dropped. -/
def filled (target : WebhookValue) (fields : ∀ index, Targets index) :
    WebhookValue :=
  (⟨hash8 (fields 0), fields 1⟩,
    ⟨fields 4, fields 2, target.2.confirmations⟩)

def read (reader : ValueReader) (target : WebhookValue) :
    reader.Reads WebhookValue := do
  let fields ← object reader.format.reader (fields reader) (targets target 0)
  return filled target fields

def trees (self : WebhookValue) : Fin 5 → Tree
  | 0 => blobTree 8 (hash8 self.1.paymentId)
  | 1 => blobTree 16 self.1.eventId
  | 2 => .string self.2.token
  | 3 => unsignedTree self.2.confirmations
  | 4 => .string self.2.url

def tree (self : WebhookValue) : Tree :=
  Style.writeObject keys fun index => some (trees self index)

theorem keyMap_fields (reader : ValueReader) :
    keyMap (fields reader) = keys := by
  funext index
  match index with
  | 0 | 1 | 2 | 3 | 4 => rfl

structure Fits (value : WebhookValue) : Prop where
  paymentId : value.1.paymentId < 2 ^ 64
  eventId : value.1.eventId < 256 ^ 16
  confirmations : value.2.confirmations < 2 ^ 32

/-- The targets behind what was written. -/
def written (self : WebhookValue) : ∀ index, Targets index :=
  targets self (hash8 self.1.paymentId)

variable {style : Style} {depth : ℕ} {bytes : Bytes}

theorem reads {self : WebhookValue} (target : WebhookValue)
    (fits : Fits self) (shallow : depth + 1 < maxReadDepth)
    (produced : style.text (tree self) = some bytes) :
    style.format.Reads depth (read style.toValueReader target) bytes
      (self.1, { self.2 with confirmations := target.2.confirmations }) := by
  have object_reads : style.format.Reads depth
      (object style.format.reader (fields style.toValueReader)
        (targets target 0)) bytes (written self) := by
    refine Style.object_reads (keyMap_fields _) (by decide) (by decide)
      shallow.ne produced ?_ nofun
    intro index tree text given found
    cases given
    match index with
    | 0 => exact Style.readBlob_reads (hash8_lt self.1.paymentId) found
    | 1 => exact Style.readBlob_reads fits.eventId found
    | 2 => exact style.reads_string _ found
    | 3 => exact Style.readUnsigned_reads fits.confirmations (by decide) found
    | 4 => exact style.reads_string _ found
  have result : filled target (written self) =
      (self.1, { self.2 with confirmations := target.2.confirmations }) := by
    show (WebhookDupsort.mk (hash8 (hash8 self.1.paymentId)) self.1.eventId,
      Db.WebhookData.mk self.2.url self.2.token target.2.confirmations) = _
    rw [hash8_hash8 fits.paymentId]
  rw [← result]
  exact object_reads.map (filled target)

end WebhookValueRecord

/-! ## `webhook_tx_confirmation` -/

abbrev WebhookTxConfirmation := Db.WebhookTxConfirmation Bytes

namespace WebhookTxConfirmationRecord

def keys : Fin 6 → KeyMap :=
  ![key "event" 0, key "payment_id" 1, key "token" 2 token_terminated,
    key "confirmations" 3 confirmations_terminated, key "event_id" 4,
    key "tx_info" 5]

abbrev Targets : Fin 6 → Type
  | 0 => WebhookType
  | 1 => ℕ
  | 2 => Bytes
  | 3 => ℕ
  | 4 => ℕ
  | 5 => Output

/-- `map_webhook_confirmation`. -/
def fields (reader : ValueReader) : ∀ index, reader.Field (Targets index)
  | 0 => field (keys 0) fun _ => readWebhookType reader
  | 1 => field (keys 1) fun _ => reader.readBlob 8
  | 2 => field (keys 2) fun _ => reader.string
  | 3 => field (keys 3) fun _ => reader.readUnsigned (2 ^ 32)
  | 4 => field (keys 4) fun _ => reader.readBlob 16
  | 5 => field (keys 5) (OutputRecord.read reader)

def targets (self : WebhookTxConfirmation) (paymentId : ℕ) :
    ∀ index, Targets index
  | 0 => self.key.type
  | 1 => paymentId
  | 2 => self.value.2.token
  | 3 => self.value.2.confirmations
  | 4 => self.value.1.eventId
  | 5 => self.txInfo

/-- What `read_bytes` leaves in its target; the user and the url are not on the
wire. -/
def filled (target : WebhookTxConfirmation) (fields : ∀ index, Targets index) :
    WebhookTxConfirmation where
  key := ⟨target.key.user, fields 0⟩
  value := (⟨hash8 (fields 1), fields 4⟩,
    ⟨target.value.2.url, fields 2, fields 3⟩)
  txInfo := fields 5

def read (reader : ValueReader) (target : WebhookTxConfirmation) :
    reader.Reads WebhookTxConfirmation := do
  let fields ← object reader.format.reader (fields reader) (targets target 0)
  return filled target fields

def trees (self : WebhookTxConfirmation) : Fin 6 → Tree
  | 0 => .string (webhookTypeName self.key.type)
  | 1 => blobTree 8 (hash8 self.value.1.paymentId)
  | 2 => .string self.value.2.token
  | 3 => unsignedTree self.value.2.confirmations
  | 4 => blobTree 16 self.value.1.eventId
  | 5 => OutputRecord.tree self.txInfo

def tree (self : WebhookTxConfirmation) : Tree :=
  Style.writeObject keys fun index => some (trees self index)

theorem keyMap_fields (reader : ValueReader) :
    keyMap (fields reader) = keys := by
  funext index
  match index with
  | 0 | 1 | 2 | 3 | 4 | 5 => rfl

structure Fits (confirmation : WebhookTxConfirmation) : Prop where
  value : WebhookValueRecord.Fits confirmation.value
  txInfo : OutputFits confirmation.txInfo
  length : ValidLength (unpack confirmation.txInfo.extra).2

/-- The targets behind what was written. -/
def written (target self : WebhookTxConfirmation) : ∀ index, Targets index :=
  targets { self with
    txInfo := OutputRecord.filled target.txInfo
      (OutputRecord.written self.txInfo) } (hash8 self.value.1.paymentId)

variable {style : Style} {depth : ℕ} {bytes : Bytes}

theorem reads {self : WebhookTxConfirmation} (target : WebhookTxConfirmation)
    (fits : Fits self) (shallow : depth + 3 < maxReadDepth)
    (produced : style.text (tree self) = some bytes) :
    style.format.Reads depth (read style.toValueReader target) bytes
      (filled target (written target self)) := by
  have object_reads : style.format.Reads depth
      (object style.format.reader (fields style.toValueReader)
        (targets target 0)) bytes (written target self) := by
    refine Style.object_reads (keyMap_fields _) (by decide) (by decide)
      (Nat.lt_of_le_of_lt (Nat.le_add_right _ 2) shallow).ne produced ?_ nofun
    intro index tree text given found
    cases given
    match index with
    | 0 => exact readWebhookType_reads found
    | 1 => exact Style.readBlob_reads (hash8_lt self.value.1.paymentId) found
    | 2 => exact style.reads_string _ found
    | 3 => exact Style.readUnsigned_reads fits.value.confirmations (by decide) found
    | 4 => exact Style.readBlob_reads fits.value.eventId found
    | 5 =>
        exact OutputRecord.reads target.txInfo fits.txInfo fits.length shallow
          found
  exact object_reads.map (filled target)

/-- Every field that was written has its value. -/
structure Agrees (source result : WebhookTxConfirmation) : Prop where
  type : result.key.type = source.key.type
  dupsort : result.value.1 = source.value.1
  token : result.value.2.token = source.value.2.token
  confirmations : result.value.2.confirmations = source.value.2.confirmations
  txInfo : OutputRecord.Agrees source.txInfo result.txInfo

theorem tree_eq {self result : WebhookTxConfirmation}
    (agrees : Agrees self result) : tree result = tree self := by
  have same : trees result = trees self := by
    funext index
    unfold trees
    rw [agrees.type, agrees.dupsort, agrees.token, agrees.confirmations,
      OutputRecord.tree_eq agrees.txInfo]
  rw [tree, same, tree]

theorem filled_agrees (target : WebhookTxConfirmation)
    {self : WebhookTxConfirmation} (fits : Fits self) :
    Agrees self (filled target (written target self)) := by
  refine ⟨rfl, ?_, rfl, rfl, OutputRecord.filled_agrees _ fits.length⟩
  show WebhookDupsort.mk (hash8 (hash8 self.value.1.paymentId))
    self.value.1.eventId = _
  rw [hash8_hash8 fits.value.paymentId]

end WebhookTxConfirmationRecord

/-! ## The records that survive -/

/-- A format with its choice of keys. -/
inductive RecordFormat where
  | msgpack (integerKeys : Bool)
  | json (values : JsonReader.Values)

def RecordFormat.style : RecordFormat → Style
  | .msgpack integerKeys => msgpackStyle integerKeys
  | .json values => jsonStyle values

inductive RecordType where
  | webhookKey
  | webhookData
  | webhookValue
  | webhookTxConfirmation
  | subaddressDict
  | subaddressMap
  | addressIndex
deriving DecidableEq, Repr

namespace RecordType

/-- `WIRE_MSGPACK_DEFINE_OBJECT` gives webhook data no JSON. -/
def has : RecordType → RecordFormat → Bool
  | .webhookData, .json _ => false
  | _, _ => true

abbrev Content : RecordType → Type
  | .webhookKey => WebhookKey
  | .webhookData => WebhookData
  | .webhookValue => WebhookValue
  | .webhookTxConfirmation => WebhookTxConfirmation
  | .subaddressDict => SubaddressDict
  | .subaddressMap => SubaddressMap
  | .addressIndex => AddressIndex

/-- A value is one of its type; for an output with a payment id of a valid
length. -/
def Fits : (type : RecordType) → type.Content → Prop
  | .webhookKey, value => value.user < 2 ^ 32
  | .webhookData, value => value.confirmations < 2 ^ 32
  | .webhookValue, value => WebhookValueRecord.Fits value
  | .webhookTxConfirmation, value => WebhookTxConfirmationRecord.Fits value
  | .subaddressDict, value => SubaddressDictRecord.Fits value
  | .subaddressMap, value => SubaddressMapRecord.Fits value
  | .addressIndex, value => AddressIndexFits value

/-- `write_bytes`. -/
def tree : (type : RecordType) → type.Content → Option Tree
  | .webhookKey, value => some (WebhookKeyRecord.tree value)
  | .webhookData, value => some (WebhookDataRecord.tree value)
  | .webhookValue, value => some (WebhookValueRecord.tree value)
  | .webhookTxConfirmation, value =>
      some (WebhookTxConfirmationRecord.tree value)
  | .subaddressDict, value => SubaddressDictRecord.tree value
  | .subaddressMap, value => some (SubaddressMapRecord.tree value)
  | .addressIndex, value => some (AddressIndexRecord.tree value)

/-- `wire_write::to_bytes`. -/
def toBytes (type : RecordType) (format : RecordFormat) (value : type.Content) :
    Option Bytes :=
  if type.has format then (type.tree value).bind format.style.text
  else none

/-- `read_bytes`. -/
def read (reader : ValueReader) :
    (type : RecordType) → type.Content → reader.Reads type.Content
  | .webhookKey, target => WebhookKeyRecord.read reader target
  | .webhookData, target => WebhookDataRecord.read reader target
  | .webhookValue, target => WebhookValueRecord.read reader target
  | .webhookTxConfirmation, target =>
      WebhookTxConfirmationRecord.read reader target
  | .subaddressDict, target => SubaddressDictRecord.read reader target
  | .subaddressMap, target => SubaddressMapRecord.read reader target
  | .addressIndex, target => AddressIndexRecord.read reader target

/-- `wire_read::from_bytes`. -/
def fromBytes (type : RecordType) (format : RecordFormat)
    (target : type.Content) (bytes : Bytes) : Option type.Content :=
  if type.has format then
    format.style.fromBytes (type.read format.style.toValueReader target)
      bytes
  else none

/-- Every field that was written has its value. -/
def Agrees : (type : RecordType) → (value result : type.Content) → Prop
  | .webhookTxConfirmation, value, result =>
      WebhookTxConfirmationRecord.Agrees value result
  | _, value, result => result = value

/-- The bytes are read, every field that was written has its value, and they
are written again. -/
def Survives (type : RecordType) (format : RecordFormat)
    (value target : type.Content) (bytes : Bytes) : Prop :=
  ∃ result, type.fromBytes format target bytes = some result ∧
    type.Agrees value result ∧ type.toBytes format result = some bytes

/-- The target holds what is not read. -/
def Held : (type : RecordType) → (value target : type.Content) → Prop
  | .webhookValue, value, target =>
      target.2.confirmations = value.2.confirmations
  | _, _, _ => True

/-- What is left in the target. -/
def leaves : (type : RecordType) → (value target : type.Content) → type.Content
  | .webhookValue, value, target =>
      (value.1, { value.2 with confirmations := target.2.confirmations })
  | .webhookTxConfirmation, value, target =>
      WebhookTxConfirmationRecord.filled target
        (WebhookTxConfirmationRecord.written target value)
  | .webhookKey, value, _ | .webhookData, value, _
  | .subaddressDict, value, _ | .subaddressMap, value, _
  | .addressIndex, value, _ => value

section Survives

variable {type : RecordType} {format : RecordFormat}
  {value target : type.Content} {bytes : Bytes}

theorem has_of_toBytes (written : type.toBytes format value = some bytes) :
    type.has format = true ∧
      (type.tree value).bind format.style.text = some bytes := by
  rw [toBytes] at written
  split at written
  · rename_i has
    exact ⟨has, written⟩
  · cases written

theorem read_reads {style : Style} (fits : type.Fits value) {tree : Tree}
    (accepted : type.tree value = some tree)
    (produced : style.text tree = some bytes) :
    style.format.Reads 0 (type.read style.toValueReader target) bytes
      (type.leaves value target) := by
  cases type with
  | webhookKey =>
      cases accepted
      exact WebhookKeyRecord.reads target fits (by decide) produced
  | webhookData =>
      cases accepted
      exact WebhookDataRecord.reads target fits (by decide) produced
  | webhookValue =>
      cases accepted
      exact WebhookValueRecord.reads target fits (by decide) produced
  | webhookTxConfirmation =>
      cases accepted
      exact WebhookTxConfirmationRecord.reads target fits (by decide) produced
  | subaddressDict =>
      exact SubaddressDictRecord.reads target fits (by decide) accepted produced
  | subaddressMap =>
      cases accepted
      exact SubaddressMapRecord.reads target fits (by decide) produced
  | addressIndex =>
      cases accepted
      exact AddressIndexRecord.reads target fits (by decide) produced

/-- Whatever its target held, a record is read. -/
theorem fromBytes_toBytes (fits : type.Fits value)
    (written : type.toBytes format value = some bytes)
    (target : type.Content) :
    type.fromBytes format target bytes = some (type.leaves value target) := by
  obtain ⟨has, written⟩ := has_of_toBytes written
  obtain ⟨tree, accepted, produced⟩ := Option.bind_eq_some_iff.mp written
  rw [fromBytes, if_pos has]
  exact Style.fromBytes_reads (read_reads fits accepted produced)

theorem tree_eq {result : type.Content} (agrees : type.Agrees value result) :
    type.tree result = type.tree value := by
  cases type with
  | webhookTxConfirmation =>
      exact congrArg some (WebhookTxConfirmationRecord.tree_eq agrees)
  | webhookKey => exact congrArg _ agrees
  | webhookData => exact congrArg _ agrees
  | webhookValue => exact congrArg _ agrees
  | subaddressDict => exact congrArg _ agrees
  | subaddressMap => exact congrArg _ agrees
  | addressIndex => exact congrArg _ agrees

/-- What is left agrees with what was written if the target held the rest. -/
theorem leaves_agrees_iff (fits : type.Fits value) :
    type.Agrees value (type.leaves value target) ↔ type.Held value target := by
  cases type with
  | webhookValue =>
      constructor
      · intro agrees
        have same : RecordType.leaves .webhookValue value target = value :=
          agrees
        have held := congrArg
          (fun left : WebhookValue => left.2.confirmations) same
        exact held
      · intro held
        exact Prod.ext rfl (by rw [leaves, held])
  | webhookTxConfirmation =>
      exact iff_of_true
        (WebhookTxConfirmationRecord.filled_agrees target fits) trivial
  | webhookKey => exact iff_of_true rfl trivial
  | webhookData => exact iff_of_true rfl trivial
  | subaddressDict => exact iff_of_true rfl trivial
  | subaddressMap => exact iff_of_true rfl trivial
  | addressIndex => exact iff_of_true rfl trivial

end Survives

end RecordType

/-- A record survives its format unless it is a webhook value whose target
holds other confirmations. -/
theorem record_survives_iff {type : RecordType} (format : RecordFormat)
    {value : type.Content} (target : type.Content) (fits : type.Fits value)
    {bytes : Bytes} (written : type.toBytes format value = some bytes) :
    type.Survives format value target bytes ↔ type.Held value target := by
  have back := RecordType.fromBytes_toBytes fits written target
  have has := (RecordType.has_of_toBytes written).1
  rw [← RecordType.leaves_agrees_iff fits]
  constructor
  · rintro ⟨result, read, agrees, -⟩
    rw [back] at read
    cases read
    exact agrees
  · intro agrees
    refine ⟨_, back, agrees, ?_⟩
    rw [RecordType.toBytes, RecordType.tree_eq agrees]
    exact written

/-- A webhook with so many confirmations. -/
def sampleWebhook (confirmations : ℕ) : WebhookValue :=
  (⟨0x0102030405060708, 5⟩, ⟨[0x68], [0x74], confirmations⟩)

/-- With three confirmations, under numbers. -/
def sampleWebhookBytes : Bytes :=
  [0x85, 0, 0xc4, 8, 8, 7, 6, 5, 4, 3, 2, 1,
    1, 0xc4, 16, 0, 0, 0, 0, 0, 0, 0, 0, 0, 0, 0, 0, 0, 0, 0, 5,
    2, 0xa1, 0x74, 3, 3, 4, 0xa1, 0x68]

private theorem sampleWebhook_fits :
    RecordType.Fits .webhookValue (sampleWebhook 3) :=
  ⟨by decide, by decide, by decide⟩

private theorem sampleWebhook_written :
    RecordType.toBytes .webhookValue (.msgpack true) (sampleWebhook 3) =
      some sampleWebhookBytes := by
  decide +kernel

private theorem sampleWebhook_json :
    RecordType.toBytes .webhookValue (.json JsonReader.plainValues)
        (sampleWebhook 3) =
      some (JsonReader.treeText
        (WebhookValueRecord.tree (sampleWebhook 3))) := rfl

/-- Another webhook, with the three confirmations. -/
def otherWebhook : WebhookValue := (⟨1, 2⟩, ⟨[9], [], 3⟩)

private theorem otherWebhook_held :
    RecordType.Held .webhookValue (sampleWebhook 3) otherWebhook := by
  rw [RecordType.Held]
  rfl

private theorem sampleWebhook_not_held :
    ¬ RecordType.Held .webhookValue (sampleWebhook 3) (sampleWebhook 0) := by
  rw [RecordType.Held]
  decide

/-- Over a target with its confirmations, and not in JSON over one without. -/
theorem sample_webhook_survives :
    RecordType.Survives .webhookValue (.msgpack true) (sampleWebhook 3)
      otherWebhook sampleWebhookBytes ∧
    RecordType.Survives .webhookValue (.json JsonReader.plainValues)
      (sampleWebhook 3) otherWebhook
      (JsonReader.treeText (WebhookValueRecord.tree (sampleWebhook 3))) ∧
    ¬ RecordType.Survives .webhookValue (.json JsonReader.plainValues)
      (sampleWebhook 3) (sampleWebhook 0)
      (JsonReader.treeText (WebhookValueRecord.tree (sampleWebhook 3))) := by
  have packed := record_survives_iff (.msgpack true) otherWebhook
    sampleWebhook_fits sampleWebhook_written
  have text := fun target => record_survives_iff
    (.json JsonReader.plainValues) target sampleWebhook_fits
    sampleWebhook_json
  refine ⟨packed.mpr otherWebhook_held,
    (text otherWebhook).mpr otherWebhook_held, ?_⟩
  rw [text (sampleWebhook 0)]
  exact sampleWebhook_not_held

/-- A target without confirmations keeps none. -/
theorem webhook_value_keeps_confirmations :
    RecordType.Fits .webhookValue (sampleWebhook 3) ∧
      RecordType.toBytes .webhookValue (.msgpack true) (sampleWebhook 3) =
        some sampleWebhookBytes ∧
      RecordType.fromBytes .webhookValue (.msgpack true) (sampleWebhook 0)
        sampleWebhookBytes = some (sampleWebhook 0) ∧
      RecordType.toBytes .webhookValue (.msgpack true) (sampleWebhook 0) ≠
        some sampleWebhookBytes ∧
      ¬ RecordType.Survives .webhookValue (.msgpack true) (sampleWebhook 3)
        (sampleWebhook 0) sampleWebhookBytes := by
  have back : RecordType.fromBytes .webhookValue (.msgpack true)
      (sampleWebhook 0) sampleWebhookBytes = some (sampleWebhook 0) :=
    RecordType.fromBytes_toBytes sampleWebhook_fits sampleWebhook_written _
  have other : RecordType.toBytes .webhookValue (.msgpack true)
      (sampleWebhook 0) ≠ some sampleWebhookBytes := by
    decide +kernel
  refine ⟨sampleWebhook_fits, sampleWebhook_written, back, other, ?_⟩
  rintro ⟨result, read, -, again⟩
  rw [back] at read
  cases read
  exact other again

end XfoLws.Wire
