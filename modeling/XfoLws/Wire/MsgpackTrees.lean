import XfoLws.Wire.MsgpackTokens

/-!
# Msgpack trees

Whole values, written by calls of `msgpack_writer` and read by calls of
`msgpack_reader`.  The caller of the reader knows which function to call
next: a `Shape` is what it knows, and `Matches` says that it asks for what was
written.
-/

namespace XfoLws.Wire.Msgpack

open Parsing Reader

inductive Tree where
  | boolean (value : Bool)
  | integer (value : Int64)
  | unsignedInteger (value : UInt64)
  | string (value : Bytes)
  | binary (value : Bytes)
  | array (items : List Tree)
  | object (fields : List (KeyMap × Tree))

/-! ## Writing -/

mutual

def writeTree : Tree → Writer → Except Failure Writer
  | .boolean value, writer => writer.boolean value
  | .integer value, writer => writer.integer value
  | .unsignedInteger value, writer => writer.unsignedInteger value
  | .string value, writer => writer.string value
  | .binary value, writer => writer.binary value
  | .array items, writer => do
      let writer ← writer.startArray items.length
      let writer ← writeElements items writer
      .ok writer.endArray
  | .object fields, writer => do
      let writer ← writer.startObject fields.length
      let writer ← writeEntries fields writer
      .ok writer.endObject

def writeElements : List Tree → Writer → Except Failure Writer
  | [], writer => .ok writer
  | item :: items, writer => do
      let writer ← writeTree item writer
      writeElements items writer

def writeEntries : List (KeyMap × Tree) → Writer → Except Failure Writer
  | [], writer => .ok writer
  | entry :: entries, writer => do
      let writer ← writeEntry entry writer
      writeEntries entries writer

def writeEntry : KeyMap × Tree → Writer → Except Failure Writer
  | (key, value), writer => do
      let writer ← writer.key key
      writeTree value writer

end

/-- The bytes of one value, from an empty writer. -/
def toMsgpack (integerKeys : Bool) (tree : Tree) : Except Thrown Bytes :=
  match writeTree tree (.new integerKeys) with
  | .error failure => .error (.wire failure)
  | .ok writer => writer.takeMsgpack

/-! ## Reading -/

/-- Which functions the caller of the reader will use: by position in an
array, by matching key in an object. -/
inductive Shape where
  | boolean
  | integer
  | unsignedInteger
  | string
  | binary
  | binaryInto (size : ℕ)
  | array (minElementSize : ℕ) (element : ℕ → Shape)
  | object (map : List KeyMap) (field : Fin map.length → Shape)
deriving Inhabited

/-- The loop of `array_unchecked`, with `count` elements to go. -/
def readElements (read : ℕ → Reader Tree) (position : ℕ) :
    (count : ℕ) → Reader (List Tree)
  | 0 => do
      let _ ← isArrayEnd 0
      return []
  | count + 1 => do
      let item ← read position
      let items ← readElements read (position + 1) count
      return item :: items

/-- Fields are read while `key` finds one. -/
def readEntries (map : List KeyMap) (read : Fin map.length → Reader Tree)
    (state : ℕ) : Reader (List (KeyMap × Tree)) := do
  match ← key map state with
  | none => return []
  | some (left, index) =>
      let value ← read index
      let fields ← readEntries map read left
      return (map.get index, value) :: fields
termination_by state
decreasing_by exact left.isLt

def readTree : Shape → Reader Tree
  | .boolean => do return .boolean (← boolean)
  | .integer => do return .integer (← integer)
  | .unsignedInteger => do return .unsignedInteger (← unsignedInteger)
  | .string => do return .string (← string)
  | .binary => do return .binary (← binary)
  | .binaryInto size => do return .binary (← binaryInto size)
  | .array minElementSize element => do
      let count ← startArray minElementSize
      let items ← readElements (fun position => readTree (element position)) 0
        count
      endArray
      return .array items
  | .object map field => do
      let state ← startObject
      let fields ← readEntries map (fun index => readTree (field index)) state
      endObject
      return .object fields

/-! ## The format

The bytes of a value do not depend on what was written before. -/

mutual

def treeBytes (integerKeys : Bool) : Tree → Except Failure Bytes
  | .boolean value => writeToken (.boolean value)
  | .integer value => writeInteger value.toInt
  | .unsignedInteger value => writeToken (.unsigned value.toNat)
  | .string value => do
      let token ← writeToken (.string value.length)
      .ok (token ++ value)
  | .binary value => do
      let token ← writeToken (.binary value.length)
      .ok (token ++ value)
  | .array items => do
      let token ← writeToken (.array items.length)
      let rest ← elementsBytes integerKeys items
      .ok (token ++ rest)
  | .object fields => do
      let token ← writeToken (.object fields.length)
      let rest ← entriesBytes integerKeys fields
      .ok (token ++ rest)

def elementsBytes (integerKeys : Bool) : List Tree → Except Failure Bytes
  | [] => .ok []
  | item :: items => do
      let first ← treeBytes integerKeys item
      let rest ← elementsBytes integerKeys items
      .ok (first ++ rest)

def entriesBytes (integerKeys : Bool) :
    List (KeyMap × Tree) → Except Failure Bytes
  | [] => .ok []
  | entry :: entries => do
      let first ← entryBytes integerKeys entry
      let rest ← entriesBytes integerKeys entries
      .ok (first ++ rest)

def entryBytes (integerKeys : Bool) : KeyMap × Tree → Except Failure Bytes
  | (key, value) => do
      let first ← writeKey integerKeys key
      let rest ← treeBytes integerKeys value
      .ok (first ++ rest)

end

namespace Writer

variable {writer : Writer}

@[simp] theorem integerKeys_wrote (bytes : Bytes) (values : UInt64) :
    (writer.wrote bytes values).integerKeys = writer.integerKeys := rfl

@[simp] theorem wrote_nil : writer.wrote [] 0 = writer := by
  simp [wrote]

theorem wrote_wrote (first second : Bytes) (some more : UInt64) :
    (writer.wrote first some).wrote second more =
      writer.wrote (first ++ second) (some + more) := by
  simp only [wrote, List.append_assoc, Writer.mk.injEq, true_and, and_true]
  grind

/-- Values that are announced are expected in addition. -/
theorem startArray_ok {items : ℕ} {token : Bytes}
    (written : writeToken (.array items) = .ok token) :
    writer.startArray items =
      .ok (writer.wrote token (-UInt64.ofNat items)) := by
  have expected : writer.expected - 0 + UInt64.ofNat items =
      writer.expected - -UInt64.ofNat items := by grind
  simp only [startArray, written, bind, Except.bind, wrote, expected]

theorem startObject_ok {items : ℕ} {token : Bytes}
    (written : writeToken (.object items) = .ok token) :
    writer.startObject items =
      .ok (writer.wrote token (-(UInt64.ofNat items * 2))) := by
  have expected : writer.expected - 0 + UInt64.ofNat items * 2 =
      writer.expected - -(UInt64.ofNat items * 2) := by grind
  simp only [startObject, written, bind, Except.bind, wrote, expected]

/-- Of an array or an object only the end itself remains. -/
theorem wrote_all (token rest : Bytes) (values : UInt64) :
    ((writer.wrote token (-values)).wrote rest values).wrote [] 1 =
      writer.wrote (token ++ rest) 1 := by
  have counted : -values + (values + 1) = 1 := by grind
  rw [wrote_wrote, wrote_wrote, List.append_nil, counted]

end Writer

mutual

/-- Every value is written behind what is there and counts once. -/
theorem writeTree_eq (tree : Tree) (writer : Writer) :
    writeTree tree writer =
      (treeBytes writer.integerKeys tree).map (writer.wrote · 1) := by
  cases tree with
  | boolean value =>
      rw [writeTree, treeBytes, Writer.boolean]
      cases writeToken (.boolean value) <;> rfl
  | integer value =>
      rw [writeTree, treeBytes, Writer.integer]
      cases writeInteger value.toInt <;> rfl
  | unsignedInteger value =>
      rw [writeTree, treeBytes, Writer.unsignedInteger]
      cases writeToken (.unsigned value.toNat) <;> rfl
  | string value =>
      rw [writeTree, treeBytes, Writer.string]
      cases writeToken (.string value.length) <;> rfl
  | binary value =>
      rw [writeTree, treeBytes, Writer.binary]
      cases writeToken (.binary value.length) <;> rfl
  | array items =>
      rw [writeTree, treeBytes]
      cases head : writeToken (.array items.length) with
      | error failure =>
          rw [Writer.startArray, head]
          rfl
      | ok token =>
          have elements := writeElements_eq items
            (writer.wrote token (-UInt64.ofNat items.length))
          rw [Writer.startArray_ok head]
          simp only [bind, Except.bind, elements, Writer.integerKeys_wrote]
          cases elementsBytes writer.integerKeys items with
          | error failure => rfl
          | ok rest => exact congrArg Except.ok (Writer.wrote_all _ _ _)
  | object fields =>
      rw [writeTree, treeBytes]
      cases head : writeToken (.object fields.length) with
      | error failure =>
          rw [Writer.startObject, head]
          rfl
      | ok token =>
          have entries := writeEntries_eq fields
            (writer.wrote token (-(UInt64.ofNat fields.length * 2)))
          rw [Writer.startObject_ok head]
          simp only [bind, Except.bind, entries, Writer.integerKeys_wrote]
          cases entriesBytes writer.integerKeys fields with
          | error failure => rfl
          | ok rest => exact congrArg Except.ok (Writer.wrote_all _ _ _)

theorem writeElements_eq (items : List Tree) (writer : Writer) :
    writeElements items writer =
      (elementsBytes writer.integerKeys items).map
        (writer.wrote · (UInt64.ofNat items.length)) := by
  cases items with
  | nil => exact congrArg Except.ok Writer.wrote_nil.symm
  | cons item items =>
      rw [writeElements, elementsBytes, writeTree_eq item writer]
      cases treeBytes writer.integerKeys item with
      | error failure => rfl
      | ok first =>
          have others := writeElements_eq items (writer.wrote first 1)
          have counted : 1 + UInt64.ofNat items.length =
              UInt64.ofNat (items.length + 1) := by
            rw [UInt64.ofNat_add, UInt64.ofNat_one]
            grind
          simp only [bind, Except.bind, Except.map, others,
            Writer.integerKeys_wrote]
          cases elementsBytes writer.integerKeys items with
          | error failure => rfl
          | ok rest =>
              rw [List.length_cons, ← counted]
              exact congrArg Except.ok (Writer.wrote_wrote _ _ _ _)

theorem writeEntries_eq (fields : List (KeyMap × Tree)) (writer : Writer) :
    writeEntries fields writer =
      (entriesBytes writer.integerKeys fields).map
        (writer.wrote · (UInt64.ofNat fields.length * 2)) := by
  cases fields with
  | nil => exact congrArg Except.ok Writer.wrote_nil.symm
  | cons field fields =>
      rw [writeEntries, entriesBytes, writeEntry_eq field writer]
      cases entryBytes writer.integerKeys field with
      | error failure => rfl
      | ok first =>
          have others := writeEntries_eq fields (writer.wrote first 2)
          have counted : 2 + UInt64.ofNat fields.length * 2 =
              UInt64.ofNat (fields.length + 1) * 2 := by
            rw [UInt64.ofNat_add, UInt64.ofNat_one]
            grind
          simp only [bind, Except.bind, Except.map, others,
            Writer.integerKeys_wrote]
          cases entriesBytes writer.integerKeys fields with
          | error failure => rfl
          | ok rest =>
              rw [List.length_cons, ← counted]
              exact congrArg Except.ok (Writer.wrote_wrote _ _ _ _)

theorem writeEntry_eq (field : KeyMap × Tree) (writer : Writer) :
    writeEntry field writer =
      (entryBytes writer.integerKeys field).map (writer.wrote · 2) := by
  obtain ⟨key, value⟩ := field
  rw [writeEntry, entryBytes, Writer.key]
  cases writeKey writer.integerKeys key with
  | error failure => rfl
  | ok first =>
      have valued := writeTree_eq value (writer.wrote first 1)
      simp only [bind, Except.bind, valued, Writer.integerKeys_wrote]
      cases treeBytes writer.integerKeys value with
      | error failure => rfl
      | ok rest => exact congrArg Except.ok (Writer.wrote_wrote _ _ _ _)

end

end XfoLws.Wire.Msgpack
