import XfoLws.Lib.Parsing
import XfoLws.Wire.Msgpack

/-!
# Msgpack one token at a time

The functions of `msgpack_writer` and `msgpack_reader` as their callers see
them.  Both classes count the values that are still missing: every array and
object announces its elements when it starts and counts itself when it ends.
The tags are those of `XfoLws.Wire.Msgpack`; signed integers are added.
-/

namespace XfoLws.Wire.Msgpack

/-- `Failure`, with what only the two classes throw. -/
inductive Thrown where
  | wire (failure : Failure)
  | incomplete
  | invalid
  | largerInteger
  | logicError
  | maxTreeSize
  | underflowTree
deriving DecidableEq, Repr

/-- `reader::key_map`; the name ends before its first null character. -/
structure KeyMap where
  name : Bytes
  id : UInt32
  terminated : 0 ∉ name := by decide
deriving DecidableEq

/-- Two keys are written alike. -/
def SameKey (integerKeys : Bool) (left right : KeyMap) : Prop :=
  if integerKeys then left.id = right.id else left.name = right.name

def signedTags : List (Byte × ℕ) := [(0xd0, 1), (0xd1, 2), (0xd2, 4), (0xd3, 8)]

/-- Two's complement. -/
def signedBytes (width : ℕ) (value : ℤ) : Bytes :=
  toBytes width (value % (256 ^ width : ℕ)).toNat

/-! ## The writer -/

/-- `do_integer`.  The first comparison is with the `int` 224, so no negative
value is written in one byte. -/
def writeNegative (value : ℤ) : Except Failure Bytes :=
  if 0xe0 < value then .ok [Fin.ofNat 256 (value % 256).toNat]
  else
    match signedTags.find? fun tag => -(256 ^ tag.2 : ℕ) ≤ 2 * value with
    | none => .error .integerEncoding
    | some tag => .ok (tag.1 :: signedBytes tag.2 value)

/-- `integer_t`. -/
def writeInteger (value : ℤ) : Except Failure Bytes :=
  if 0 ≤ value then writeToken (.unsigned value.toNat)
  else writeNegative value

/-- The bytes of a key. -/
def writeKey (integerKeys : Bool) (key : KeyMap) : Except Failure Bytes :=
  if integerKeys then writeToken (.unsigned key.id.toNat)
  else do
    let token ← writeToken (.string key.name.length)
    .ok (token ++ key.name)

/-- `expected_` has 64 bits. -/
structure Writer where
  bytes : Bytes
  expected : UInt64
  integerKeys : Bool

namespace Writer

def new (integerKeys : Bool) : Writer := ⟨[], 1, integerKeys⟩

/-- Bytes are written and some values are no longer expected. -/
def wrote (writer : Writer) (bytes : Bytes) (values : UInt64) : Writer :=
  { writer with
    bytes := writer.bytes ++ bytes
    expected := writer.expected - values }

def boolean (value : Bool) (writer : Writer) : Except Failure Writer := do
  let token ← writeToken (.boolean value)
  .ok (writer.wrote token 1)

def integer (value : Int64) (writer : Writer) : Except Failure Writer := do
  let token ← writeInteger value.toInt
  .ok (writer.wrote token 1)

def unsignedInteger (value : UInt64) (writer : Writer) :
    Except Failure Writer := do
  let token ← writeToken (.unsigned value.toNat)
  .ok (writer.wrote token 1)

def string (source : Bytes) (writer : Writer) : Except Failure Writer := do
  let token ← writeToken (.string source.length)
  .ok (writer.wrote (token ++ source) 1)

def binary (source : Bytes) (writer : Writer) : Except Failure Writer := do
  let token ← writeToken (.binary source.length)
  .ok (writer.wrote (token ++ source) 1)

def startArray (items : ℕ) (writer : Writer) : Except Failure Writer := do
  let token ← writeToken (.array items)
  let writer := writer.wrote token 0
  .ok { writer with expected := writer.expected + UInt64.ofNat items }

def endArray (writer : Writer) : Writer := writer.wrote [] 1

def startObject (items : ℕ) (writer : Writer) : Except Failure Writer := do
  let token ← writeToken (.object items)
  let writer := writer.wrote token 0
  .ok { writer with expected := writer.expected + UInt64.ofNat items * 2 }

def key (key : KeyMap) (writer : Writer) : Except Failure Writer := do
  let token ← writeKey writer.integerKeys key
  .ok (writer.wrote token 1)

def endObject (writer : Writer) : Writer := writer.wrote [] 1

/-- `take_msgpack`. -/
def takeMsgpack (writer : Writer) : Except Thrown Bytes :=
  if writer.expected ≠ 0 then .error .logicError else .ok writer.bytes

end Writer

/-! ## The reader -/

/-- The largest `std::size_t`. -/
def maxSize : ℕ := 2 ^ 64 - 1

/-- `tags_remaining_` and `depth_`. -/
structure Counts where
  tagsRemaining : ℕ
  depth : ℕ
deriving DecidableEq, Repr

/-- A new reader misses one value. -/
def Counts.start : Counts := ⟨1, 0⟩

/-- `msgpack_reader`: its counts, and the bytes that remain. -/
abbrev Reader := Parsing.Parser Byte Counts Thrown

namespace Reader

open Parsing

def updateTagsRemaining : Reader Unit := fun (counts, source) =>
  match counts.tagsRemaining with
  | 0 => .error .underflowTree
  | tags + 1 => .ok ((), { counts with tagsRemaining := tags }, source)

def incrementDepth : Reader Unit := fun (counts, source) =>
  if counts.depth + 1 = maxReadDepth then .error (.wire .maximumDepth)
  else .ok ((), { counts with depth := counts.depth + 1 }, source)

def decrementDepth : Reader Unit := fun (counts, source) =>
  match counts.depth with
  | 0 => .error .logicError
  | depth + 1 => .ok ((), { counts with depth := depth }, source)

/-- `end_array` and `end_object`. -/
abbrev endArray : Reader Unit := decrementDepth

abbrev endObject : Reader Unit := decrementDepth

def peekTag : Reader Byte := fun (counts, source) =>
  match source with
  | [] => .error (.wire .notEnoughBytes)
  | tag :: _ => .ok (tag, counts, source)

/-- `remaining_.remove_prefix`, which stops at the end. -/
def removePrefix (amount : ℕ) : Reader Unit := fun (counts, source) =>
  .ok ((), counts, source.drop amount)

def getTag : Reader Byte := do
  let next ← peekTag
  removePrefix 1
  return next

def readRaw (bytes : ℕ) : Reader Bytes := fun (counts, source) =>
  match Msgpack.take bytes source with
  | .error failure => .error (.wire failure)
  | .ok (raw, rest) => .ok (raw, counts, rest)

def readEndian (width : ℕ) : Reader ℕ := do
  let bytes ← readRaw width
  return ofBytes bytes

/-- `boost::numeric_cast` to the type with these limits. -/
def numericCast (least greatest value : ℤ) : Reader ℤ :=
  if greatest < value then throw (.wire (.schema .smallerInteger))
  else if value < least then throw .largerInteger
  else return value

/-- `read_integer` for the type with these limits. -/
def readInteger (least greatest : ℤ) (next : Byte) : Reader ℤ :=
  match widthOf signedTags next, widthOf unsignedTags next with
  | some width, _ => do
      let raw ← readEndian width
      numericCast least greatest ((raw : ℤ).bmod (256 ^ width))
  | none, some width => do
      let raw ← readEndian width
      numericCast least greatest raw
  | none, none => throw (.wire (.schema .integer))

/-- The count behind a tag: the tag itself holds fewer than `limit`. -/
def countOf (fixed limit : ℕ) (tags : List (Byte × ℕ)) (expected : Schema)
    (next : Byte) : Reader ℕ :=
  if fixed ≤ next.val ∧ next.val < fixed + limit then
    return next.val - fixed
  else
    match widthOf tags next with
    | some width => readEndian width
    | none => throw (.wire (.schema expected))

def readString (next : Byte) : Reader Bytes := do
  let bytes ← countOf 0xa0 32 stringTags .string next
  readRaw bytes

/-- No binary has its size in the tag; a wrong tag is reported as a wrong
string. -/
def readBinary (next : Byte) : Reader Bytes := do
  let bytes ← countOf 0 0 binaryTags .string next
  readRaw bytes

def boolean : Reader Bool := do
  updateTagsRemaining
  let next ← getTag
  if next = 0xc3 then return true
  else if next = 0xc2 then return false
  else throw (.wire (.schema .boolean))

/-- `do_integer`: a negative fixed tag is its own value. -/
def doInteger (next : Byte) : Reader ℤ :=
  if 0xe0 ≤ next.val then return (next.val : ℤ) - 256
  else readInteger (-2 ^ 63) (2 ^ 63 - 1) next

def doUnsignedInteger (next : Byte) : Reader ℤ :=
  readInteger 0 (2 ^ 64 - 1) next

def integer : Reader Int64 := do
  updateTagsRemaining
  let next ← getTag
  if next.val ≤ 0x7f then return Int64.ofInt next.val
  else do
    let value ← doInteger next
    return Int64.ofInt value

def unsignedInteger : Reader UInt64 := do
  updateTagsRemaining
  let next ← getTag
  if next.val ≤ 0x7f then return UInt64.ofNat next.val
  else do
    let value ← doUnsignedInteger next
    return UInt64.ofNat value.toNat

def string : Reader Bytes := do
  updateTagsRemaining
  let next ← getTag
  readString next

def binary : Reader Bytes := do
  updateTagsRemaining
  let next ← getTag
  readBinary next

/-- `binary(span)`, for a destination of this size. -/
def binaryInto (size : ℕ) : Reader Bytes := do
  let bytes ← binary
  if size ≠ bytes.length then throw (.wire (.schema .fixedBinary))
  else return bytes

/-- More values are announced, in an array or an object of its own. -/
def announce (values : ℕ) : Reader Unit := fun (counts, source) =>
  if maxSize - counts.tagsRemaining < values then .error .maxTreeSize
  else
    .ok ((), { counts with tagsRemaining := counts.tagsRemaining + values },
      source)

/-- The bytes that remain must hold the elements. -/
def checkRoom (upcoming minElementSize : ℕ) : Reader Unit :=
  fun (counts, source) =>
    if minElementSize ≠ 0 ∧ source.length / minElementSize < upcoming then
      .error (.wire (.schema .array))
    else .ok ((), counts, source)

def startArray (minElementSize : ℕ) : Reader ℕ := do
  let next ← getTag
  let upcoming ← countOf 0x90 16 arrayTags .array next
  announce upcoming
  checkRoom upcoming minElementSize
  incrementDepth
  return upcoming

/-- Only the end of the array is counted. -/
def isArrayEnd (count : ℕ) : Reader Bool :=
  if count ≠ 0 then return false
  else do
    updateTagsRemaining
    return true

def startObject : Reader ℕ := do
  let next ← getTag
  let upcoming ← countOf 0x80 16 objectTags .object next
  if maxSize / 2 < upcoming then throw .maxTreeSize
  else do
    announce (upcoming * 2)
    incrementDepth
    return upcoming

/-- The tags that `skip_value` takes with a fixed number of bytes. -/
def skippedSizes : List (Byte × ℕ) :=
  [(0xc0, 1), (0xc1, 1), (0xc2, 1), (0xc3, 1), (0xca, 5), (0xcb, 9),
    (0xcc, 2), (0xcd, 3), (0xce, 5), (0xcf, 9), (0xd0, 2), (0xd1, 3),
    (0xd2, 5), (0xd3, 9), (0xd4, 3), (0xd5, 4), (0xd6, 6), (0xd7, 10),
    (0xd8, 18)]

def extensionTags : List (Byte × ℕ) := [(0xc7, 1), (0xc8, 2), (0xc9, 4)]

/-- One turn of the loop of `skip_value`.  Arrays and objects are entered and
never left. -/
def skipTurn : Reader Unit := do
  let next ← peekTag
  match widthOf skippedSizes next, widthOf extensionTags next with
  | some size, _ => removePrefix size
  | none, some width => do
      removePrefix 1
      let bytes ← readEndian width
      let _ ← readRaw bytes
      removePrefix 1
  | none, none =>
      if (widthOf binaryTags next).isSome then do
        removePrefix 1
        let _ ← readBinary next
      else if 0xa0 ≤ next.val ∧ next.val < 0xc0 ∨
          (widthOf stringTags next).isSome then do
        removePrefix 1
        let _ ← readString next
      else if 0x90 ≤ next.val ∧ next.val < 0xa0 ∨
          (widthOf arrayTags next).isSome then do
        let _ ← startArray 0
      else if 0x80 ≤ next.val ∧ next.val < 0x90 ∨
          (widthOf objectTags next).isSome then do
        let _ ← startObject
      else if 0x80 ≤ next.val ∧ next.val < 0xe0 then throw .invalid
      else removePrefix 1
  updateTagsRemaining

/-- The loop of `skip_value`.  Every turn takes a byte, so there are at most
as many as bytes remain, and one more that fails. -/
def skipTurns (initial : ℕ) : ℕ → Reader Unit
  | 0 => throw (.wire .notEnoughBytes)
  | turns + 1 => do
      skipTurn
      let (counts, _) ← get
      if initial ≤ counts.tagsRemaining then skipTurns initial turns
      else return ()

def skipValue : Reader Unit := do
  let (counts, source) ← get
  if counts.tagsRemaining = maxSize then throw .maxTreeSize
  else skipTurns counts.tagsRemaining (source.length + 1)

/-- The first entry of the map under the key that is read. -/
def matchKey (map : List KeyMap) : Reader (Option (Fin map.length)) := do
  updateTagsRemaining
  let next ← getTag
  if next.val < 0x80 then
    return map.findFinIdx? fun elem => elem.id.toNat = next.val
  else if (widthOf unsignedTags next).isSome then do
    let key ← readInteger 0 (2 ^ 32 - 1) next
    return map.findFinIdx? fun elem => (elem.id.toNat : ℤ) = key
  else if 0xa0 ≤ next.val ∧ next.val < 0xc0 ∨
      (widthOf stringTags next).isSome then do
    let key ← readString next
    return map.findFinIdx? fun elem => elem.name = key
  else throw (.wire (.schema .invalidKey))

/-- Of the keys that are left, those the map does not know are skipped with
their values.  At the end the object itself is counted. -/
def key (map : List KeyMap) :
    (state : ℕ) → Reader (Option (Fin state × Fin map.length))
  | 0 => do
      updateTagsRemaining
      return none
  | state + 1 => do
      match ← matchKey map with
      | some index => return some (Fin.last state, index)
      | none =>
          skipValue
          let found ← key map state
          return found.map fun (left, index) => (left.castSucc, index)

def checkComplete (counts : Counts) : Except Thrown Unit :=
  if counts.tagsRemaining ≠ 0 then .error .incomplete else .ok ()

end Reader

end XfoLws.Wire.Msgpack
