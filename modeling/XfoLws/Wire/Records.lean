import Mathlib.Data.Fin.VecNotation
import Mathlib.Data.Fintype.Basic
import XfoLws.Db.SubaddressRanges
import XfoLws.Wire.Json
import XfoLws.Wire.ScanAccount
import XfoLws.Wire.Styles

/-!
# Records of the database on the wire

The `map_` functions of plain records with their `read_bytes` and
`write_bytes`, in every style.  Each record is read back from what was written
of it, whatever its target held.
-/

namespace XfoLws.Wire

open Db Parsing
open Msgpack (KeyMap Tree maxReadDepth maxSize toBytes)

/-- The name and the number of a field. -/
def key (name : String) (id : UInt32)
    (terminated : 0 ∉ asciiBytes name.toList := by decide) : KeyMap :=
  ⟨asciiBytes name.toList, id, terminated⟩

/-- An unsigned integer of any width. -/
def unsignedTree (value : ℕ) : Tree := .unsignedInteger (UInt64.ofNat value)

/-- `WIRE_DECLARE_BLOB`. -/
def blobTree (width value : ℕ) : Tree := .binary (toBytes width value)

/-- A field of an object that this reader reads. -/
abbrev ValueReader.Field (reader : ValueReader) (α : Type) : Type :=
  Wire.Field reader.format.Counts reader.format.Thrown α

/-! ## `address_index` -/

namespace AddressIndexRecord

def keys : Fin 2 → KeyMap := ![key "maj_i" 0, key "min_i" 1]

abbrev Targets (_ : Fin 2) : Type := ℕ

def fields (reader : ValueReader) : ∀ index, reader.Field (Targets index)
  | 0 => field (keys 0) fun _ => reader.readUnsigned (2 ^ 32)
  | 1 => field (keys 1) fun _ => reader.readUnsigned (2 ^ 32)

def targets (self : AddressIndex) : ∀ index, Targets index
  | 0 => self.majI
  | 1 => self.minI

def read (reader : ValueReader) (target : AddressIndex) :
    reader.Reads AddressIndex := do
  let fields ← object reader.format.reader (fields reader) (targets target)
  return ⟨fields 0, fields 1⟩

def trees (self : AddressIndex) : Fin 2 → Tree
  | 0 => unsignedTree self.majI
  | 1 => unsignedTree self.minI

def tree (self : AddressIndex) : Tree :=
  Style.writeObject keys fun index => some (trees self index)

theorem keyMap_fields (reader : ValueReader) :
    keyMap (fields reader) = keys := by
  funext index
  match index with
  | 0 => rfl
  | 1 => rfl

variable {style : Style} {depth : ℕ} {bytes : Bytes}

theorem reads {self : AddressIndex} (target : AddressIndex)
    (fits : AddressIndexFits self) (shallow : depth + 1 < maxReadDepth)
    (written : style.text (tree self) = some bytes) :
    style.format.Reads depth (read style.toValueReader target) bytes self := by
  have object_reads : style.format.Reads depth
      (object style.format.reader (fields style.toValueReader)
        (targets target)) bytes (targets self) := by
    refine Style.object_reads (keyMap_fields _) (by decide) (by decide)
      shallow.ne written ?_ nofun
    intro index tree text given found
    cases given
    match index with
    | 0 => exact Style.readUnsigned_reads fits.1 (by decide) found
    | 1 => exact Style.readUnsigned_reads fits.2 (by decide) found
  exact object_reads.map fun fields => (⟨fields 0, fields 1⟩ : AddressIndex)

end AddressIndexRecord

/-! ## `output_id` -/

namespace OutputIdRecord

def keys : Fin 2 → KeyMap := ![key "high" 0, key "low" 1]

abbrev Targets (_ : Fin 2) : Type := ℕ

def fields (reader : ValueReader) : ∀ index, reader.Field (Targets index)
  | 0 => field (keys 0) fun _ => reader.readUnsigned (2 ^ 64)
  | 1 => field (keys 1) fun _ => reader.readUnsigned (2 ^ 64)

def targets (self : OutputId) : ∀ index, Targets index
  | 0 => self.high
  | 1 => self.low

def read (reader : ValueReader) (target : OutputId) :
    reader.Reads OutputId := do
  let fields ← object reader.format.reader (fields reader) (targets target)
  return ⟨fields 0, fields 1⟩

def trees (self : OutputId) : Fin 2 → Tree
  | 0 => unsignedTree self.high
  | 1 => unsignedTree self.low

def tree (self : OutputId) : Tree :=
  Style.writeObject keys fun index => some (trees self index)

theorem keyMap_fields (reader : ValueReader) :
    keyMap (fields reader) = keys := by
  funext index
  match index with
  | 0 => rfl
  | 1 => rfl

variable {style : Style} {depth : ℕ} {bytes : Bytes}

theorem reads {self : OutputId} (target : OutputId)
    (fits : OutputIdFits self) (shallow : depth + 1 < maxReadDepth)
    (written : style.text (tree self) = some bytes) :
    style.format.Reads depth (read style.toValueReader target) bytes self := by
  have object_reads : style.format.Reads depth
      (object style.format.reader (fields style.toValueReader)
        (targets target)) bytes (targets self) := by
    refine Style.object_reads (keyMap_fields _) (by decide) (by decide)
      shallow.ne written ?_ nofun
    intro index tree text given found
    cases given
    match index with
    | 0 => exact Style.readUnsigned_reads fits.1 (by decide) found
    | 1 => exact Style.readUnsigned_reads fits.2 (by decide) found
  exact object_reads.map fun fields => (⟨fields 0, fields 1⟩ : OutputId)

end OutputIdRecord

/-! ## `subaddress_map` -/

namespace SubaddressMapRecord

def keys : Fin 2 → KeyMap := ![key "subaddress" 0, key "index" 1]

abbrev Targets : Fin 2 → Type
  | 0 => PublicKey
  | 1 => AddressIndex

def fields (reader : ValueReader) : ∀ index, reader.Field (Targets index)
  | 0 => field (keys 0) fun _ => reader.readBlob 32
  | 1 => field (keys 1) (AddressIndexRecord.read reader)

def targets (self : SubaddressMap) : ∀ index, Targets index
  | 0 => self.subaddress
  | 1 => self.index

def read (reader : ValueReader) (target : SubaddressMap) :
    reader.Reads SubaddressMap := do
  let fields ← object reader.format.reader (fields reader) (targets target)
  return ⟨fields 0, fields 1⟩

def trees (self : SubaddressMap) : Fin 2 → Tree
  | 0 => blobTree 32 self.subaddress
  | 1 => AddressIndexRecord.tree self.index

def tree (self : SubaddressMap) : Tree :=
  Style.writeObject keys fun index => some (trees self index)

theorem keyMap_fields (reader : ValueReader) :
    keyMap (fields reader) = keys := by
  funext index
  match index with
  | 0 => rfl
  | 1 => rfl

structure Fits (value : SubaddressMap) : Prop where
  subaddress : value.subaddress < 256 ^ 32
  index : AddressIndexFits value.index

variable {style : Style} {depth : ℕ} {bytes : Bytes}

theorem reads {self : SubaddressMap} (target : SubaddressMap)
    (fits : Fits self) (shallow : depth + 2 < maxReadDepth)
    (written : style.text (tree self) = some bytes) :
    style.format.Reads depth (read style.toValueReader target) bytes self := by
  have object_reads : style.format.Reads depth
      (object style.format.reader (fields style.toValueReader)
        (targets target)) bytes (targets self) := by
    refine Style.object_reads (keyMap_fields _) (by decide) (by decide)
      (Nat.lt_of_succ_lt shallow).ne written ?_ nofun
    intro index tree text given found
    cases given
    match index with
    | 0 => exact Style.readBlob_reads fits.subaddress found
    | 1 => exact AddressIndexRecord.reads target.index fits.index shallow found
  exact object_reads.map fun fields => (⟨fields 0, fields 1⟩ : SubaddressMap)

end SubaddressMapRecord

/-! ## `subaddress_dict` -/

namespace SubaddressDictRecord

def keys : Fin 2 → KeyMap := ![key "key" 0, key "value" 1]

abbrev Targets : Fin 2 → Type
  | 0 => ℕ
  | 1 => IndexRanges

/-- `index_range`. -/
def readRange (reader : ValueReader) : reader.Reads IndexRange := do
  let pair ← reader.readPair (reader.readUnsigned (2 ^ 32))
  return ⟨pair.1, pair.2⟩

/-- No ranges are left where none were written. -/
def fields (reader : ValueReader) : ∀ index, reader.Field (Targets index)
  | 0 => field (keys 0) fun _ => reader.readUnsigned (2 ^ 32)
  | 1 => emptyField (keys 1) [] fun _ => reader.readArray 2 (readRange reader)

def targets (self : SubaddressDict) : ∀ index, Targets index
  | 0 => self.1
  | 1 => self.2

/-- `read_bytes`, which checks what it has read. -/
def read (reader : ValueReader) (target : SubaddressDict) :
    reader.Reads SubaddressDict := do
  let fields ← object reader.format.reader (fields reader) (targets target)
  let dest : SubaddressDict := (fields 0, fields 1)
  if checkSubaddressDict dest then return dest
  else reader.throws .array

def rangeTree (range : IndexRange) : Tree :=
  .array [unsignedTree range.first, unsignedTree range.last]

def trees (self : SubaddressDict) : Fin 2 → Option Tree
  | 0 => some (unsignedTree self.1)
  | 1 => if self.2 = [] then none else some (.array (self.2.map rangeTree))

/-- `write_bytes`. -/
def tree (self : SubaddressDict) : Option Tree :=
  if checkSubaddressDict self then
    some (Style.writeObject keys (trees self))
  else none

theorem keyMap_fields (reader : ValueReader) :
    keyMap (fields reader) = keys := by
  funext index
  match index with
  | 0 => rfl
  | 1 => rfl

/-- The ranges are in a `std::vector`. -/
structure Fits (value : SubaddressDict) : Prop where
  major : value.1 < 2 ^ 32
  ranges : ∀ range ∈ value.2, range.first < 2 ^ 32 ∧ range.last < 2 ^ 32
  counted : value.2.length ≤ maxSize

variable {style : Style} {depth : ℕ} {bytes : Bytes}

theorem readRange_reads {range : IndexRange}
    (fits : range.first < 2 ^ 32 ∧ range.last < 2 ^ 32)
    (shallow : depth + 1 ≠ maxReadDepth)
    (written : style.text (rangeTree range) = some bytes) :
    style.format.Reads depth (readRange style.toValueReader) bytes range := by
  have pair : style.format.Reads depth
      (style.readPair (style.readUnsigned (2 ^ 32))) bytes
      (range.first, range.last) := by
    apply Style.readPair_reads shallow written
    intro value member element given
    have within : value < 2 ^ 32 := by
      rcases List.mem_pair.mp member with rfl | rfl
      · exact fits.1
      · exact fits.2
    exact Style.readUnsigned_reads within (by decide) given
  exact pair.map fun pair => (⟨pair.1, pair.2⟩ : IndexRange)

theorem reads {self : SubaddressDict} (target : SubaddressDict)
    (fits : Fits self) (shallow : depth + 3 < maxReadDepth) {written : Tree}
    (accepted : tree self = some written)
    (produced : style.text written = some bytes) :
    style.format.Reads depth (read style.toValueReader target) bytes self := by
  unfold tree at accepted
  split at accepted
  · rename_i checked
    cases accepted
    have object_reads : style.format.Reads depth
        (object style.format.reader (fields style.toValueReader)
          (targets target)) bytes (targets self) := by
      refine Style.object_reads (keyMap_fields _) (by decide) (by decide)
        (Nat.lt_of_le_of_lt (Nat.le_add_right _ 2) shallow).ne produced ?_ ?_
      · intro index tree text given found
        match index with
        | 0 =>
            cases given
            exact Style.readUnsigned_reads fits.major (by decide) found
        | 1 =>
            have given : (if self.2 = [] then none
                else some (Tree.array (self.2.map rangeTree))) = some tree := given
            split at given
            · cases given
            · cases given
              refine Style.readArray_reads
                (Nat.lt_of_succ_lt shallow).ne found fits.counted ?_
              intro range member element written
              exact ⟨(style.array_length written).le,
                readRange_reads (fits.ranges range member) shallow.ne written⟩
      · intro index missing
        match index with
        | 0 => cases missing
        | 1 =>
            have missing : (if self.2 = [] then none
                else some (Tree.array (self.2.map rangeTree))) = none := missing
            split at missing
            · rename_i empty
              exact congrArg some empty.symm
            · cases missing
    exact object_reads.bind (if_pos checked)
  · cases accepted

end SubaddressDictRecord

/-! ## `webhook_key` -/

/-- `map_webhook_type`. -/
def webhookTypeName : WebhookType → Bytes
  | .txConfirmation => asciiBytes "tx-confirmation".toList
  | .newAccount => asciiBytes "new-account".toList
  | .txSpend => asciiBytes "tx-spend".toList

def webhookTypes : List (Bytes × WebhookType) :=
  [.txConfirmation, .newAccount, .txSpend].map fun type =>
    (webhookTypeName type, type)

def readWebhookType (reader : ValueReader) : reader.Reads WebhookType :=
  reader.readEnum webhookTypes

theorem readWebhookType_reads {style : Style} {depth : ℕ} {bytes : Bytes}
    {type : WebhookType}
    (written : style.text (.string (webhookTypeName type)) = some bytes) :
    style.format.Reads depth (readWebhookType style.toValueReader) bytes
      type := by
  have found : webhookTypes.find? (fun other =>
      other.1 = webhookTypeName type) = some (webhookTypeName type, type) := by
    cases type <;> decide
  exact Style.readEnum_reads found (show style.text (.string
    (webhookTypeName type, type).1) = some bytes from written)

namespace WebhookKeyRecord

def keys : Fin 2 → KeyMap := ![key "user" 0, key "type" 1]

abbrev Targets : Fin 2 → Type
  | 0 => AccountId
  | 1 => WebhookType

def fields (reader : ValueReader) : ∀ index, reader.Field (Targets index)
  | 0 => field (keys 0) fun _ => reader.readUnsigned (2 ^ 32)
  | 1 => field (keys 1) fun _ => readWebhookType reader

def targets (self : WebhookKey) : ∀ index, Targets index
  | 0 => self.user
  | 1 => self.type

def read (reader : ValueReader) (target : WebhookKey) :
    reader.Reads WebhookKey := do
  let fields ← object reader.format.reader (fields reader) (targets target)
  return ⟨fields 0, fields 1⟩

def trees (self : WebhookKey) : Fin 2 → Tree
  | 0 => unsignedTree self.user
  | 1 => .string (webhookTypeName self.type)

def tree (self : WebhookKey) : Tree :=
  Style.writeObject keys fun index => some (trees self index)

theorem keyMap_fields (reader : ValueReader) :
    keyMap (fields reader) = keys := by
  funext index
  match index with
  | 0 => rfl
  | 1 => rfl

variable {style : Style} {depth : ℕ} {bytes : Bytes}

theorem reads {self : WebhookKey} (target : WebhookKey)
    (fits : self.user < 2 ^ 32) (shallow : depth + 1 < maxReadDepth)
    (written : style.text (tree self) = some bytes) :
    style.format.Reads depth (read style.toValueReader target) bytes self := by
  have object_reads : style.format.Reads depth
      (object style.format.reader (fields style.toValueReader)
        (targets target)) bytes (targets self) := by
    refine Style.object_reads (keyMap_fields _) (by decide) (by decide)
      shallow.ne written ?_ nofun
    intro index tree text given found
    cases given
    match index with
    | 0 => exact Style.readUnsigned_reads fits (by decide) found
    | 1 => exact readWebhookType_reads found
  exact object_reads.map fun fields => (⟨fields 0, fields 1⟩ : WebhookKey)

end WebhookKeyRecord

/-! ## `webhook_data` -/

abbrev WebhookData := Db.WebhookData Bytes

namespace WebhookDataRecord

def keys : Fin 3 → KeyMap :=
  ![key "url" 0, key "token" 1, key "confirmations" 2]

abbrev Targets : Fin 3 → Type
  | 0 => Bytes
  | 1 => Bytes
  | 2 => ℕ

def fields (reader : ValueReader) : ∀ index, reader.Field (Targets index)
  | 0 => field (keys 0) fun _ => reader.string
  | 1 => field (keys 1) fun _ => reader.string
  | 2 => field (keys 2) fun _ => reader.readUnsigned (2 ^ 32)

def targets (self : WebhookData) : ∀ index, Targets index
  | 0 => self.url
  | 1 => self.token
  | 2 => self.confirmations

def read (reader : ValueReader) (target : WebhookData) :
    reader.Reads WebhookData := do
  let fields ← object reader.format.reader (fields reader) (targets target)
  return ⟨fields 0, fields 1, fields 2⟩

def trees (self : WebhookData) : Fin 3 → Tree
  | 0 => .string self.url
  | 1 => .string self.token
  | 2 => unsignedTree self.confirmations

def tree (self : WebhookData) : Tree :=
  Style.writeObject keys fun index => some (trees self index)

theorem keyMap_fields (reader : ValueReader) :
    keyMap (fields reader) = keys := by
  funext index
  match index with
  | 0 => rfl
  | 1 => rfl
  | 2 => rfl

variable {style : Style} {depth : ℕ} {bytes : Bytes}

theorem reads {self : WebhookData} (target : WebhookData)
    (fits : self.confirmations < 2 ^ 32) (shallow : depth + 1 < maxReadDepth)
    (written : style.text (tree self) = some bytes) :
    style.format.Reads depth (read style.toValueReader target) bytes self := by
  have object_reads : style.format.Reads depth
      (object style.format.reader (fields style.toValueReader)
        (targets target)) bytes (targets self) := by
    refine Style.object_reads (keyMap_fields _) (by decide) (by decide)
      shallow.ne written ?_ nofun
    intro index tree text given found
    cases given
    match index with
    | 0 => exact style.reads_string _ found
    | 1 => exact style.reads_string _ found
    | 2 => exact Style.readUnsigned_reads fits (by decide) found
  exact object_reads.map fun fields =>
    (⟨fields 0, fields 1, fields 2⟩ : WebhookData)

end WebhookDataRecord

end XfoLws.Wire
