import XfoLws.Wire.ObjectEntries

/-!
# Values by any reader

The functions of `wire::reader` that take one value, and the `read_bytes` of
integers, blobs and arrays, which call them whatever the format is.
-/

namespace XfoLws.Wire

open Parsing

/-- `wire::reader`; the functions of an object belong to its format. -/
structure ValueReader where
  format : Format
  boolean : Parser Byte format.Counts format.Thrown Bool
  unsignedInteger : Parser Byte format.Counts format.Thrown UInt64
  string : Parser Byte format.Counts format.Thrown Bytes
  binary : Parser Byte format.Counts format.Thrown Bytes
  /-- `binary(span)`, for a destination of this size. -/
  binaryInto : (size : ℕ) → Parser Byte format.Counts format.Thrown Bytes
  startArray : (minElementSize : ℕ) →
    Parser Byte format.Counts format.Thrown ℕ
  isArrayEnd : (count : ℕ) → Parser Byte format.Counts format.Thrown Bool
  endArray : Parser Byte format.Counts format.Thrown Unit
  /-- What a new reader counts. -/
  start : format.Counts
  checkComplete : format.Counts → Bool

namespace ValueReader

variable (reader : ValueReader) {α : Type}

/-- A function that reads with this reader. -/
abbrev Reads (α : Type) : Type :=
  Parser Byte reader.format.Counts reader.format.Thrown α

def throws (code : Schema) : reader.Reads α :=
  throw (reader.format.reader.throws ⟨code, "", none⟩)

/-- `wire_read::from_bytes`. -/
def fromBytes (bytes : reader.Reads α) (source : Bytes) : Option α :=
  match bytes.run (reader.start, source) with
  | .error _ => none
  | .ok (value, (counts, _)) =>
      if reader.checkComplete counts then some value else none

/-! ## Integers and blobs -/

/-- An unsigned type below `bound`. -/
def readUnsigned (bound : ℕ) : reader.Reads ℕ := do
  let source ← reader.unsignedInteger
  if bound ≤ source.toNat then reader.throws .smallerInteger
  else return source.toNat

/-- A blob of so many bytes. -/
def readBlob (width : ℕ) : reader.Reads ℕ := do
  let bytes ← reader.binaryInto width
  return Msgpack.ofBytes bytes

/-- `WIRE_DEFINE_ENUM`. -/
def readEnum (names : List (Bytes × α)) : reader.Reads α := do
  let source ← reader.string
  match names.find? fun name => name.1 = source with
  | some found => return found.2
  | none => reader.throws .enumeration

/-! ## Arrays -/

/-- `--count` of a `std::size_t`. -/
def decrement (count : ℕ) : ℕ :=
  if count = 0 then Msgpack.maxSize else count - 1

/-- The reader is asked for the end, unless it said that there is more. -/
def atEnd (more : Bool) (count : ℕ) : reader.Reads Bool :=
  if more then return false else reader.isArrayEnd count

/-- The loop of `array_unchecked`.  An element takes bytes, so the turns are
not used up. -/
def arrayTurns (minElementSize startBytes : ℕ) (read : reader.Reads α) :
    (turns : ℕ) → (more : Bool) → (count : ℕ) → List α →
      reader.Reads (List α)
  | 0, _, _, _ => reader.throws .array
  | turns + 1, more, count, dest => do
      if ← reader.atEnd more count then return dest
      else do
        let value ← read
        let (_, source) ← get
        if (startBytes - source.length) / (dest.length + 1) < minElementSize
        then reader.throws .arrayMinSize
        else
          arrayTurns minElementSize startBytes read turns
            (more && decrement count ≠ 0) (decrement count) (dest ++ [value])

/-- `array_unchecked` without a maximum, for a `std::vector`: what it held is
cleared. -/
def readArray (minElementSize : ℕ) (read : reader.Reads α) :
    reader.Reads (List α) := do
  let count ← reader.startArray minElementSize
  let (_, source) ← get
  if minElementSize ≠ 0 ∧ source.length / minElementSize < count then
    reader.throws .arrayMinSize
  else do
    let dest ← reader.arrayTurns minElementSize source.length read
      (source.length + 1) (count ≠ 0) count []
    reader.endArray
    return dest

/-- One element of a `std::array`. -/
def readElement (json : Bool) (count : ℕ) (read : reader.Reads α) :
    reader.Reads α := do
  if ← reader.atEnd (!json) count then reader.throws .array
  else read

/-- A `std::array` of two elements. -/
def readPair (read : reader.Reads α) : reader.Reads (α × α) := do
  let count ← reader.startArray 0
  let json : Bool := count = 0
  if !json ∧ count ≠ 2 then reader.throws .array
  else do
    let first ← reader.readElement json count read
    let second ← reader.readElement json (decrement count) read
    if ← reader.isArrayEnd (decrement (decrement count)) then do
      reader.endArray
      return (first, second)
    else reader.throws .array

end ValueReader

end XfoLws.Wire
