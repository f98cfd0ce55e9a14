import XfoLws.Wire.Json
import XfoLws.Wire.JsonReader
import XfoLws.Wire.Styles

/-!
# JSON as a style

The compact text that `json_writer` produces for a tree, and the functions of
`json_reader` that take single values and the ends of arrays.  The parser of
single values is again a parameter, with what it makes of written text; so is
the decoder of hexadecimal digits.
-/

namespace XfoLws.Wire.JsonReader

open Parsing
open Msgpack (KeyMap SameKey Tree maxReadDepth maxSize)

/-! ## The writer -/

def booleanText : Bool → Bytes
  | true => asciiBytes "true".toList
  | false => asciiBytes "false".toList

def digits (value : ℕ) : Bytes := asciiBytes (Nat.toDigits 10 value)

def integerText (value : ℤ) : Bytes :=
  if value < 0 then 0x2d :: digits value.natAbs else digits value.natAbs

/-- `epee::to_hex::string`. -/
def hexText (bytes : Bytes) : Bytes :=
  asciiBytes (bytes.flatMap fun byte =>
    (Nat.toDigits 16 (256 + byte.val)).drop 1)

mutual

def treeText : Tree → Bytes
  | .boolean value => booleanText value
  | .integer value => integerText value.toInt
  | .unsignedInteger value => digits value.toNat
  | .string value => quoted value
  | .binary value => quoted (hexText value)
  | .array items => 0x5b :: (commaSeparated (itemTexts items) ++ [0x5d])
  | .object fields => 0x7b :: (commaSeparated (fieldTexts fields) ++ [0x7d])

def itemTexts : List Tree → List Bytes
  | [] => []
  | item :: items => treeText item :: itemTexts items

def fieldTexts : List (KeyMap × Tree) → List Bytes
  | [] => []
  | (key, value) :: fields =>
      (quoted key.name ++ 0x3a :: treeText value) :: fieldTexts fields

end

/-! ## The reader -/

/-- `rapidjson::kParseErrorArrayMissCommaOrSquareBracket`. -/
def ParseErrorCode.arrayMissCommaOrSquareBracket : ParseErrorCode := .other 7

/-- `rapidjson::kParseErrorStringMissQuotationMark`. -/
def ParseErrorCode.stringMissQuotationMark : ParseErrorCode := .other 11

/-- What the handler holds behind a value, and the decoder. -/
structure Values extends Rapidjson where
  /-- `value.boolean`. -/
  booleanAt : Bytes → Bool
  /-- `value.integer`, or `value.unsigned_integer` when not `negative`. -/
  integerAt : Bytes → ℤ
  /-- `epee::from_hex::to_buffer`, for a destination of this size. -/
  toBuffer : (size : ℕ) → Bytes → Option Bytes
  parses_string (contents : Bytes) {gap : Bytes} (rest : Bytes) :
    Spaces gap → parse (some .string) (gap ++ (quoted contents ++ rest)) =
      .ok (.string contents, gap.length + (quoted contents).length)
  parses_boolean (value : Bool) {rest : Bytes} : Delimits rest →
    parse (some .boolean) (booleanText value ++ rest) =
      .ok (.other, (booleanText value).length)
  booleanAt_text (value : Bool) {rest : Bytes} : Delimits rest →
    booleanAt (booleanText value ++ rest) = value
  parses_integer (value : UInt64) {rest : Bytes} : Delimits rest →
    parse (some .integer) (digits value.toNat ++ rest) =
      .ok (.other, (digits value.toNat).length)
  integerAt_digits (value : UInt64) {rest : Bytes} : Delimits rest →
    integerAt (digits value.toNat ++ rest) = value.toNat
  toBuffer_hexText (bytes : Bytes) :
    toBuffer bytes.length (hexText bytes) = some bytes

section Reader

variable (values : Values)

def boolean : Reader Bool := do
  let (_, source) ← get
  let _ ← readNextValue values.toRapidjson (some .boolean)
  return values.booleanAt source

def unsignedInteger : Reader UInt64 := do
  let (_, source) ← get
  let _ ← readNextValue values.toRapidjson (some .integer)
  let value := values.integerAt source
  if value < 0 then throw (.schema (some .largerInteger))
  else return UInt64.ofNat value.toNat

/-- The handler accepts nothing but strings. -/
def string : Reader Bytes := do
  match ← readNextValue values.toRapidjson (some .string) with
  | .string contents => return contents
  | .other => throw (.schema (some .string))

/-- Up to the next quotation mark, whatever stands before it. -/
def getNextString : Reader Bytes := do
  let next ← getNextToken
  if next ≠ 0x22 then throw (.schema (some .string))
  else do
    removePrefix
    let (depth, source) ← get
    match source.findIdx? (· = 0x22) with
    | none => throw (.rapidjson .stringMissQuotationMark)
    | some length => do
        set (depth, source.drop (length + 1))
        return source.take length

def binary : Reader Bytes := do
  let value ← getNextString
  match values.toBuffer (value.length / 2) value with
  | some out => return out
  | none => throw (.schema (some .binary))

def binaryInto (size : ℕ) : Reader Bytes := do
  let value ← getNextString
  match values.toBuffer size value with
  | some out => return out
  | none => throw (.schema (some .fixedBinary))

/-- The number of elements is not known. -/
def startArray : Reader ℕ := do
  let next ← getNextToken
  if next ≠ 0x5b then throw (.schema (some .array))
  else do
    removePrefix
    incrementDepth
    return 0

def isArrayEnd (count : ℕ) : Reader Bool := do
  let next ← getNextToken
  if next = 0 then throw (.rapidjson .arrayMissCommaOrSquareBracket)
  else if next = 0x5d then do
    removePrefix
    return true
  else if count = 0 then return false
  else if next ≠ 0x2c then
    throw (.rapidjson .arrayMissCommaOrSquareBracket)
  else do
    removePrefix
    return false

def checkComplete (depth : ℕ) : Bool := depth = 0

/-- The functions of `json_reader`. -/
def valueReader : ValueReader where
  format := format values.toRapidjson
  boolean := boolean values
  unsignedInteger := unsignedInteger values
  string := string values
  binary := binary values
  binaryInto := binaryInto values
  startArray _ := startArray
  isArrayEnd := isArrayEnd
  endArray := decrementDepth
  start := (0 : ℕ)
  checkComplete := checkComplete

end Reader

/-! ## Texts -/

theorem itemTexts_eq (items : List Tree) :
    itemTexts items = items.map treeText := by
  induction items with
  | nil => rfl
  | cons item items induction =>
      rw [itemTexts, induction]
      rfl

theorem fieldTexts_eq (fields : List (KeyMap × Tree)) :
    fieldTexts fields = fields.map fun field =>
      quoted field.1.name ++ 0x3a :: treeText field.2 := by
  induction fields with
  | nil => rfl
  | cons field fields induction =>
      rw [fieldTexts, induction]
      rfl

theorem commaSeparated_cons (first : Bytes) (others : List Bytes) :
    commaSeparated (first :: others) =
      first ++ others.flatMap (0x2c :: ·) := by
  induction others generalizing first with
  | nil => rfl
  | cons second others induction =>
      have later := induction second
      rw [commaSeparated] at later
      rw [commaSeparated, List.intersperse_cons_cons, List.flatten_cons,
        List.flatten_cons, later, List.flatMap_cons]
      rfl

/-- The byte that spells a hexadecimal digit. -/
def hexChar (digit : ℕ) : Byte := Fin.ofNat 256 (Nat.digitChar digit).toNat

theorem toDigits_byte (byte : Byte) :
    (Nat.toDigits 16 (256 + byte.val)).drop 1 =
      [Nat.digitChar (byte.val / 16), Nat.digitChar (byte.val % 16)] := by
  have small := byte.isLt
  have upper : (256 + byte.val) / 16 = 16 + byte.val / 16 := by lia
  have digit : (16 + byte.val / 16) / 16 = 1 ∧
      (16 + byte.val / 16) % 16 = byte.val / 16 := by lia
  have lower : (256 + byte.val) % 16 = byte.val % 16 := by lia
  rw [Nat.toDigits_of_base_le (by decide) (by lia), upper, lower,
    Nat.toDigits_of_base_le (by decide) (Nat.le_add_right _ _), digit.1, digit.2,
    Nat.toDigits_of_lt_base (by decide)]
  rfl

/-- Each byte is two digits. -/
theorem hexText_cons (byte : Byte) (bytes : Bytes) :
    hexText (byte :: bytes) =
      hexChar (byte.val / 16) :: hexChar (byte.val % 16) :: hexText bytes := by
  rw [hexText, asciiBytes, List.flatMap_cons, toDigits_byte]
  rfl

/-- The text of a value starts with no space and ends no array. -/
structure Opens (text : Bytes) : Prop where
  opens : ∃ first others, text = first :: others ∧
    isSpace first = false ∧ first ≠ 0 ∧ first ≠ 0x5d

theorem Opens.of_cons {first : Byte} (others : Bytes)
    (apart : isSpace first = false ∧ first ≠ 0 ∧ first ≠ 0x5d) :
    Opens (first :: others) :=
  ⟨first, others, rfl, apart⟩

/-- A decimal digit of a text. -/
theorem digit_range {value : ℕ} {byte : Byte} (member : byte ∈ digits value) :
    48 ≤ byte.val ∧ byte.val ≤ 57 := by
  obtain ⟨char, listed, rfl⟩ := List.mem_map.mp member
  have digit : char.isDigit = true :=
    Nat.isDigit_of_mem_toDigits (by decide) (by decide) listed
  have range : 48 ≤ char.toNat ∧ char.toNat ≤ 57 := by
    simpa [Char.isDigit, UInt32.le_iff_toNat_le] using digit
  have same : (Fin.ofNat 256 char.toNat).val = char.toNat :=
    Nat.mod_eq_of_lt (by omega)
  rwa [same]

theorem digits_ne_nil (value : ℕ) : digits value ≠ [] := by
  intro none
  exact Nat.toDigits_ne_nil (List.map_eq_nil_iff.mp none)

theorem isSpace_of_digit {byte : Byte} (low : 48 ≤ byte.val) :
    isSpace byte = false := by
  have apart (space : Byte) (below : space.val < 48) : byte ≠ space := by
    rintro rfl
    exact absurd low (Nat.not_le_of_lt below)
  simp [isSpace, apart]

theorem digits_open (value : ℕ) : Opens (digits value) := by
  obtain ⟨first, others, listed⟩ :=
    List.exists_cons_of_ne_nil (digits_ne_nil value)
  obtain ⟨low, high⟩ : 48 ≤ first.val ∧ first.val ≤ 57 :=
    digit_range (listed ▸ List.mem_cons_self)
  rw [listed]
  apply Opens.of_cons others
  refine ⟨isSpace_of_digit low, ?_, ?_⟩
  · rintro rfl
    exact absurd low (by decide)
  · rintro rfl
    exact absurd high (by decide)

theorem treeText_opens (tree : Tree) : Opens (treeText tree) := by
  cases tree with
  | boolean value =>
      rw [treeText]
      cases value with
      | true => exact .of_cons _ (by decide)
      | false => exact .of_cons _ (by decide)
  | integer value =>
      rw [treeText, integerText]
      split
      · exact .of_cons _ (by decide)
      · exact digits_open _
  | unsignedInteger value =>
      rw [treeText]
      exact digits_open _
  | string value =>
      rw [treeText]
      exact .of_cons _ (by decide)
  | binary value =>
      rw [treeText]
      exact .of_cons _ (by decide)
  | array items =>
      rw [treeText]
      exact .of_cons _ (by decide)
  | object fields =>
      rw [treeText]
      exact .of_cons _ (by decide)

/-! ## Objects -/

section Objects

variable {values : Values}

/-- The entry of a field that was written. -/
def writtenEntry (values : Values) (key : KeyMap) (value : Bytes) :
    Entry values.toRapidjson where
  before := []
  key := quoted key.name
  contents := key.name
  behindKey := []
  value := value
  behind := []
  spaces := ⟨spaces_nil, spaces_nil, spaces_nil⟩
  quoted := rfl
  reads _ rest spaces := values.parses_string key.name rest spaces

theorem bodyText_succ (state : ℕ) (entries : List (Entry values.toRapidjson)) :
    bodyText (state + 1) entries =
      (entries.map Entry.text).flatMap (0x2c :: ·) := by
  induction entries generalizing state with
  | nil => rfl
  | cons entry entries induction =>
      rw [bodyText, if_neg (Nat.succ_ne_zero state), induction]
      rfl

theorem bodyText_zero (entries : List (Entry values.toRapidjson)) :
    bodyText 0 entries = commaSeparated (entries.map Entry.text) := by
  cases entries with
  | nil => rfl
  | cons entry entries =>
      rw [bodyText, if_pos rfl, bodyText_succ, List.map_cons,
        commaSeparated_cons]
      rfl

/-- The entries of an object. -/
def fieldEntries (values : Values) (fields : List (KeyMap × Tree)) :
    List (Entry values.toRapidjson) :=
  fields.map fun field => writtenEntry values field.1 (treeText field.2)

theorem object_text (values : Values) (fields : List (KeyMap × Tree)) :
    treeText (.object fields) =
      0x7b :: (bodyText 0 (fieldEntries values fields) ++ [0x7d]) := by
  have texts : (fieldEntries values fields).map Entry.text =
      fieldTexts fields := by
    rw [fieldEntries, fieldTexts_eq, List.map_map]
    apply List.map_congr_left
    intro field _
    show [] ++ (quoted field.1.name ++ ([] ++ 0x3a ::
      (treeText field.2 ++ []))) = _
    simp only [List.nil_append, List.append_nil]
  rw [treeText, bodyText_zero, texts]

end Objects

/-! ## Single values -/

section SingleValues

variable {values : Values} {rest : Bytes} {depth : ℕ}

private theorem get_run (state : ℕ × Bytes) :
    (get : Reader _).run state = .ok (state, state) := rfl

theorem boolean_run (value : Bool) (delimits : Delimits rest) :
    (boolean values).run (depth, booleanText value ++ rest) =
      .ok (value, (depth, rest)) := by
  have parsed := readNextValue_run (values.parses_boolean value delimits) depth
  refine (run_bind_ok (get_run _)).trans ((run_bind_ok parsed).trans ?_)
  rw [values.booleanAt_text value delimits]
  rfl

theorem unsignedInteger_run (value : UInt64) (delimits : Delimits rest) :
    (unsignedInteger values).run (depth, digits value.toNat ++ rest) =
      .ok (value, (depth, rest)) := by
  have parsed := readNextValue_run (values.parses_integer value delimits) depth
  refine (run_bind_ok (get_run _)).trans ((run_bind_ok parsed).trans ?_)
  dsimp only
  rw [values.integerAt_digits value delimits,
    if_neg (Int.not_lt.mpr (Int.natCast_nonneg _)), Int.toNat_natCast,
    UInt64.ofNat_toNat]
  rfl

theorem string_run (value rest : Bytes) :
    (string values).run (depth, quoted value ++ rest) =
      .ok (value, (depth, rest)) := by
  have parsed := values.parses_string value rest spaces_nil
  rw [List.nil_append, List.length_nil, Nat.zero_add] at parsed
  exact run_bind_ok (readNextValue_run parsed depth)

/-- No hexadecimal digit is escaped. -/
theorem hexChar_plain {digit : ℕ} (small : digit < 16) :
    hexChar digit ≠ 0x22 ∧ escapeByte (hexChar digit) = [hexChar digit] := by
  have each : ∀ digit : Fin 16, hexChar digit ≠ 0x22 ∧
      escapeByte (hexChar digit) = [hexChar digit] := by
    decide
  exact each ⟨digit, small⟩

theorem hexText_plain {bytes : Bytes} {byte : Byte}
    (member : byte ∈ hexText bytes) :
    byte ≠ 0x22 ∧ escapeByte byte = [byte] := by
  induction bytes with
  | nil => cases member
  | cons source bytes induction =>
      rw [hexText_cons, List.mem_cons, List.mem_cons] at member
      rcases member with rfl | rfl | later
      · exact hexChar_plain (Nat.div_lt_of_lt_mul source.isLt)
      · exact hexChar_plain (Nat.mod_lt _ (by decide))
      · exact induction later

theorem getNextString_run (bytes rest : Bytes) :
    getNextString.run (depth, quoted (hexText bytes) ++ rest) =
      .ok (hexText bytes, (depth, rest)) := by
  have plain : (hexText bytes).flatMap escapeByte = hexText bytes := by
    have each : (hexText bytes).flatMap escapeByte =
        (hexText bytes).flatMap fun byte => [byte] :=
      List.flatMap_congr fun byte member => (hexText_plain member).2
    rw [each, List.flatMap_singleton']
  have found : (hexText bytes ++ 0x22 :: rest).findIdx? (· = 0x22) =
      some (hexText bytes).length := by
    have absent : (hexText bytes).findIdx? (· = 0x22) = none := by
      rw [List.findIdx?_eq_none_iff]
      intro byte member
      exact decide_eq_false (hexText_plain member).1
    rw [List.findIdx?_append, absent, List.findIdx?_cons]
    simp
  have text : quoted (hexText bytes) ++ rest =
      0x22 :: (hexText bytes ++ 0x22 :: rest) := by
    rw [quoted, plain, List.cons_append, List.append_assoc]
    rfl
  have token := getNextToken_run spaces_nil 0x22 (by decide)
    (hexText bytes ++ 0x22 :: rest) depth
  rw [text]
  apply (run_bind_ok token).trans
  rw [if_neg (not_not.mpr rfl)]
  apply (run_bind_ok (removePrefix_run 0x22 _ depth)).trans
  apply (run_bind_ok (get_run _)).trans
  have behind : (hexText bytes ++ 0x22 :: rest).drop
      ((hexText bytes).length + 1) = rest := by
    rw [← List.drop_drop, List.drop_left]
    rfl
  dsimp only
  rw [found]
  show Except.ok ((hexText bytes ++ 0x22 :: rest).take (hexText bytes).length,
    (depth, (hexText bytes ++ 0x22 :: rest).drop
      ((hexText bytes).length + 1))) = _
  rw [List.take_left, behind]

theorem binaryInto_run (value rest : Bytes) :
    (binaryInto values value.length).run
        (depth, quoted (hexText value) ++ rest) =
      .ok (value, (depth, rest)) := by
  apply (run_bind_ok (getNextString_run value rest)).trans
  rw [values.toBuffer_hexText]
  rfl

theorem length_hexText (bytes : Bytes) :
    (hexText bytes).length = bytes.length * 2 := by
  induction bytes with
  | nil => rfl
  | cons byte bytes induction =>
      rw [hexText_cons, List.length_cons, List.length_cons, induction,
        List.length_cons]
      lia

theorem binary_run (value rest : Bytes) :
    (binary values).run (depth, quoted (hexText value) ++ rest) =
      .ok (value, (depth, rest)) := by
  have half : (hexText value).length / 2 = value.length := by
    rw [length_hexText]
    lia
  apply (run_bind_ok (getNextString_run value rest)).trans
  rw [half, values.toBuffer_hexText]
  rfl

end SingleValues

/-! ## Arrays -/

section Arrays

/-- The elements, behind a comma if one was read. -/
structure ItemsAt (outer : ℕ) (rest : Bytes) (elements : List Bytes)
    (more : Bool) (count inside : ℕ) (source : Bytes) : Prop where
  opens : ∀ element ∈ elements, Opens element
  few : elements.length ≤ maxSize
  stops : more = false
  inside : inside = outer + 1
  source : (count = 0 ∧ source = commaSeparated elements ++ 0x5d :: rest) ∨
    (elements.length ≤ count ∧
      source = elements.flatMap (0x2c :: ·) ++ 0x5d :: rest)

theorem length_behind (elements : List Bytes) :
    elements.length ≤ (elements.flatMap (0x2c :: ·)).length := by
  induction elements with
  | nil => exact le_rfl
  | cons element elements induction =>
      rw [List.flatMap_cons, List.length_append]
      simp only [List.length_cons]
      lia

theorem length_commaSeparated {elements : List Bytes}
    (opens : ∀ element ∈ elements, Opens element) :
    elements.length ≤ (commaSeparated elements).length := by
  cases elements with
  | nil => exact Nat.zero_le _
  | cons element elements =>
      obtain ⟨first, behind, rfl, -⟩ := opens element List.mem_cons_self
      have later := length_behind elements
      rw [commaSeparated_cons, List.length_append]
      simp only [List.length_cons]
      lia

theorem length_items (items : List Tree) :
    items.length < (treeText (.array items)).length := by
  have opens : ∀ element ∈ items.map treeText, Opens element := by
    intro element member
    obtain ⟨item, -, rfl⟩ := List.mem_map.mp member
    exact treeText_opens item
  have texts := length_commaSeparated opens
  rw [List.length_map] at texts
  rw [treeText, itemTexts_eq, List.length_cons, List.length_append]
  lia

section ItemsAt

variable {values : Values} {outer inside count : ℕ}
  {rest source element : Bytes} {elements : List Bytes} {more : Bool}

private theorem delimits_behind (elements : List Bytes) (rest : Bytes) :
    Delimits (elements.flatMap (0x2c :: ·) ++ 0x5d :: rest) := by
  cases elements with
  | nil =>
      intro next same
      cases same
      decide
  | cons element elements =>
      intro next same
      cases same
      decide

theorem startArray_run (items : List Tree) (rest : Bytes)
    (counted : items.length ≤ maxSize) (shallow : outer + 1 ≠ maxReadDepth) :
    startArray.run (outer, treeText (.array items) ++ rest) =
        .ok (0, (outer + 1,
          commaSeparated (items.map treeText) ++ 0x5d :: rest)) ∧
      ItemsAt outer rest (items.map treeText) false 0 (outer + 1)
        (commaSeparated (items.map treeText) ++ 0x5d :: rest) := by
  have text : treeText (.array items) ++ rest =
      0x5b :: (commaSeparated (items.map treeText) ++ 0x5d :: rest) := by
    rw [treeText, itemTexts_eq, List.cons_append, List.append_assoc]
    rfl
  refine ⟨?_, ?_, ?_, rfl, rfl, .inl ⟨rfl, rfl⟩⟩
  · have token := getNextToken_run spaces_nil 0x5b (by decide)
      (commaSeparated (items.map treeText) ++ 0x5d :: rest) outer
    have entered : incrementDepth.run (outer,
        commaSeparated (items.map treeText) ++ 0x5d :: rest) =
          .ok ((), (outer + 1,
            commaSeparated (items.map treeText) ++ 0x5d :: rest)) :=
      if_neg shallow
    rw [text]
    apply (run_bind_ok token).trans
    rw [if_neg (not_not.mpr rfl)]
    apply (run_bind_ok (removePrefix_run 0x5b _ outer)).trans
    exact run_bind_ok entered
  · intro element member
    obtain ⟨item, -, rfl⟩ := List.mem_map.mp member
    exact treeText_opens item
  · rw [List.length_map]
    exact counted

namespace ItemsAt

theorem short (standing : ItemsAt outer rest elements more count inside
    source) : elements.length ≤ source.length := by
  obtain ⟨opens, -, -, -, ⟨-, rfl⟩ | ⟨-, rfl⟩⟩ := standing
  · rw [List.length_append]
    exact (length_commaSeparated opens).trans (Nat.le_add_right _ _)
  · rw [List.length_append]
    exact (length_behind elements).trans (Nat.le_add_right _ _)

/-- What stands behind the first element. -/
theorem later
    (standing : ItemsAt outer rest (element :: elements) more count inside
      source) :
    ItemsAt outer rest elements
      (more && ValueReader.decrement count ≠ 0)
      (ValueReader.decrement count) (outer + 1)
      (elements.flatMap (0x2c :: ·) ++ 0x5d :: rest) := by
  obtain ⟨opens, few, rfl, -, found⟩ := standing
  rw [List.length_cons] at few
  refine ⟨fun other member => opens other (List.mem_cons_of_mem _ member),
    Nat.le_of_succ_le few, rfl, rfl, .inr ⟨?_, rfl⟩⟩
  rw [ValueReader.decrement]
  rcases found with ⟨rfl, -⟩ | ⟨enough, -⟩
  · exact Nat.le_of_succ_le few
  · rw [List.length_cons] at enough
    rw [if_neg (Nat.ne_zero_of_lt enough)]
    exact Nat.le_sub_of_add_le enough

theorem next
    (standing : ItemsAt outer rest (element :: elements) more count inside
      source) :
    ((valueReader values).atEnd more count).run (inside, source) =
      .ok (false, (outer + 1,
        element ++ (elements.flatMap (0x2c :: ·) ++ 0x5d :: rest))) ∧
      element.length +
        (elements.flatMap (0x2c :: ·) ++ 0x5d :: rest).length ≤
          source.length := by
  obtain ⟨opens, -, rfl, rfl, ⟨rfl, rfl⟩ | ⟨enough, rfl⟩⟩ := standing
  · obtain ⟨first, others, rfl, gap, apart, unended⟩ :=
      opens element List.mem_cons_self
    rw [commaSeparated_cons, List.append_assoc]
    refine ⟨?_, List.length_append.ge⟩
    have token := getNextToken_run spaces_nil first gap
      (others ++ (elements.flatMap (0x2c :: ·) ++ 0x5d :: rest)) (outer + 1)
    show (isArrayEnd 0).run _ = _
    apply (run_bind_ok token).trans
    rw [if_neg apart, if_neg unended, if_pos rfl]
    rfl
  · rw [List.length_cons] at enough
    rw [List.flatMap_cons, List.append_assoc]
    refine ⟨?_, ?_⟩
    · have token := getNextToken_run spaces_nil 0x2c (by decide)
        (element ++ (elements.flatMap (0x2c :: ·) ++ 0x5d :: rest))
        (outer + 1)
      show (isArrayEnd count).run _ = _
      apply (run_bind_ok token).trans
      rw [if_neg (by decide), if_neg (by decide),
        if_neg (Nat.ne_zero_of_lt enough), if_neg (not_not.mpr rfl)]
      rfl
    · rw [List.cons_append, List.length_cons, @List.length_append _ element]
      exact Nat.le_succ _

theorem last
    (standing : ItemsAt outer rest [] more count inside source) :
    more = false ∧ ∃ behind,
      (isArrayEnd count).run (inside, source) = .ok (true, behind) ∧
      decrementDepth.run behind = .ok ((), (outer, rest)) := by
  obtain ⟨-, -, rfl, rfl, found⟩ := standing
  have same : source = 0x5d :: rest := by
    rcases found with ⟨-, same⟩ | ⟨-, same⟩
    · exact same
    · exact same
  have token := getNextToken_run spaces_nil 0x5d (by decide) rest
    (outer + 1)
  refine ⟨rfl, (outer + 1, rest), ?_, rfl⟩
  rw [same]
  exact run_bind_ok token

end ItemsAt

end ItemsAt

end Arrays

end XfoLws.Wire.JsonReader

namespace XfoLws.Wire

open Parsing JsonReader

/-- JSON, with names for keys. -/
def jsonStyle (values : Values) : Style where
  toValueReader := valueReader values
  walk := walk values.toRapidjson
  text tree := some (treeText tree)
  entry := writtenEntry values
  names_entry key value other := decide_eq_true_iff.trans eq_comm
  value_entry key value := rfl
  object_fields _ field _ := ⟨_, rfl⟩
  object_encodes {fields bytes} written := by
    cases written
    have entries : (fields.filterMap fun field =>
        (some (treeText field.2)).map (writtenEntry values field.1)) =
        fieldEntries values fields :=
      congrFun List.filterMap_eq_map fields
    exact ⟨[], [], spaces_nil, spaces_nil,
      (object_text values fields).trans (by rw [← entries]; rfl)⟩
  reads_boolean depth written := by
    cases written
    rintro counts rest - - delimits
    rw [treeText]
    exact boolean_run _ delimits
  reads_unsignedInteger depth written := by
    cases written
    rintro counts rest - - delimits
    rw [treeText]
    exact unsignedInteger_run _ delimits
  reads_string depth written := by
    cases written
    rintro counts rest - - -
    rw [treeText]
    exact string_run _ rest
  reads_binary depth written := by
    cases written
    rintro counts rest - - -
    rw [treeText]
    exact binary_run _ rest
  reads_binaryInto depth written := by
    cases written
    rintro counts rest - - -
    rw [treeText]
    exact binaryInto_run _ rest
  ArrayAt := ItemsAt
  array_items _ item _ := ⟨_, rfl⟩
  array_length {items bytes} written := by
    cases written
    exact length_items items
  array_start {items bytes rest outer minElementSize} written counted _ _
      shallow _ := by
    cases written
    have texts : items.filterMap (fun tree => some (treeText tree)) =
        items.map treeText := congrFun List.filterMap_eq_map items
    obtain ⟨ran, standing⟩ := startArray_run items rest counted shallow
    rw [texts]
    refine ⟨0, _, _, ran, .inl rfl, ?_, standing⟩
    rw [Nat.zero_mul]
    exact Nat.zero_le _
  array_short := ItemsAt.short
  array_next standing := by
    obtain ⟨ran, shorter⟩ := standing.next
    exact ⟨_, _, ran, rfl, trivial, delimits_behind _ _, shorter,
      standing.later⟩
  array_last := ItemsAt.last
  depth_start := rfl
  ready_start _ := trivial
  ends_nil := nofun
  complete := rfl

end XfoLws.Wire
