import XfoLws.Wire.JsonStyle

/-!
# A parser of written JSON

Strings, booleans, decimal integers and hexadecimal digits, as the writer puts
them out, so that what a style asks of the parser of single values can be had.
-/

namespace XfoLws.Wire.JsonReader

/-! ## Strings -/

/-- `epee::from_hex` of one digit. -/
def hexValue (byte : Byte) : Option ℕ :=
  if 48 ≤ byte.val ∧ byte.val ≤ 57 then some (byte.val - 48)
  else if 97 ≤ byte.val ∧ byte.val ≤ 102 then some (byte.val - 87)
  else if 65 ≤ byte.val ∧ byte.val ≤ 70 then some (byte.val - 55)
  else none

def hexByte (high low : Byte) : Option Byte := do
  let first ← hexValue high
  let second ← hexValue low
  return Fin.ofNat 256 (first * 16 + second)

/-- The character behind a backslash. -/
def unescaped (byte : Byte) : Byte :=
  match byte.val with
  | 98 => 8
  | 116 => 9
  | 110 => 10
  | 102 => 12
  | 114 => 13
  | _ => byte

/-- The digits behind `\u00`. -/
def readHexChar : Bytes → Option (Byte × ℕ)
  | _ :: _ :: high :: low :: _ =>
      (hexByte high low).map fun byte => (byte, 6)
  | _ => none

/-- One character, and the bytes it takes. -/
def readChar : Bytes → Option (Byte × ℕ)
  | [] => none
  | first :: others =>
      if first ≠ 0x5c then some (first, 1)
      else
        match others with
        | [] => none
        | next :: others =>
            if next = 0x75 then readHexChar others
            else some (unescaped next, 2)

/-- The characters up to the quotation mark, with at most so many. -/
def unescape : (turns : ℕ) → Bytes → Option (Bytes × ℕ)
  | 0, _ => none
  | turns + 1, source =>
      if source.head? = some 0x22 then some ([], 1)
      else do
        let (byte, length) ← readChar source
        let (contents, more) ← unescape turns (source.drop length)
        return (byte :: contents, length + more)

theorem readHexChar_append {source : Bytes} {found : Byte × ℕ}
    (read : readHexChar source = some found) (rest : Bytes) :
    readHexChar (source ++ rest) = some found := by
  unfold readHexChar at read
  split at read
  · exact read
  · cases read

/-- What was read does not depend on what follows it. -/
theorem readChar_append {source : Bytes} {found : Byte × ℕ}
    (read : readChar source = some found) (rest : Bytes) :
    readChar (source ++ rest) = some found := by
  match source with
  | [] => cases read
  | first :: others =>
      rw [List.cons_append]
      unfold readChar at read ⊢
      dsimp only at read ⊢
      split at read
      · rename_i plain
        rw [if_pos plain]
        exact read
      · rename_i escaped
        rw [if_neg escaped]
        match others with
        | [] => cases read
        | next :: others =>
            dsimp only at read
            split at read
            · rename_i unicode
              exact (if_pos unicode).trans (readHexChar_append read rest)
            · rename_i single
              exact (if_neg single).trans read

/-- A character stands for itself, or is spelled behind a backslash. -/
theorem escapeByte_cases (byte : Byte) :
    (byte ≠ 0x22 ∧ byte ≠ 0x5c ∧ escapeByte byte = [byte]) ∨
      ∃ code, escapeByte byte = 0x5c :: code := by
  unfold escapeByte
  split
  · exact .inr ⟨[byte], rfl⟩
  · rename_i special
    rw [not_or] at special
    split
    · exact .inl ⟨special.1, special.2, rfl⟩
    · right
      split <;> exact ⟨_, rfl⟩

/-- No escaped character begins with a quotation mark. -/
theorem head_escapeByte (byte : Byte) (rest : Bytes) :
    (escapeByte byte ++ rest).head? ≠ some 0x22 := by
  rcases escapeByte_cases byte with ⟨unquoted, -, plain⟩ | ⟨code, escaped⟩
  · rw [plain]
    exact fun same => unquoted (Option.some.inj same)
  · rw [escaped]
    exact fun same => absurd (Option.some.inj same) (by decide)

theorem length_escapeByte (byte : Byte) : 1 ≤ (escapeByte byte).length := by
  rcases escapeByte_cases byte with ⟨-, -, plain⟩ | ⟨code, escaped⟩
  · rw [plain]
    exact le_rfl
  · rw [escaped]
    exact Nat.le_add_left _ _

/-- The control characters, one by one. -/
theorem readChar_control {byte : Byte} (control : byte < 0x20) :
    readChar (escapeByte byte) = some (byte, (escapeByte byte).length) := by
  have each : ∀ code : Fin 32, readChar (escapeByte (Fin.castLE (by decide) code)) =
      some (Fin.castLE (by decide) code,
        (escapeByte (Fin.castLE (by decide) code)).length) := by
    decide
  exact each ⟨byte.val, control⟩

theorem readChar_escapeByte (byte : Byte) (rest : Bytes) :
    readChar (escapeByte byte ++ rest) =
      some (byte, (escapeByte byte).length) := by
  apply readChar_append
  by_cases control : byte < 0x20
  · exact readChar_control control
  · by_cases special : byte = 0x22 ∨ byte = 0x5c
    · rcases special with rfl | rfl <;> rfl
    · have plain : escapeByte byte = [byte] := by
        rw [escapeByte, if_neg special, if_pos (not_lt.mp control)]
      rw [plain]
      exact if_pos (not_or.mp special).2

theorem unescape_escaped {contents : Bytes} {turns : ℕ}
    (enough : contents.length < turns) (rest : Bytes) :
    unescape turns (contents.flatMap escapeByte ++ 0x22 :: rest) =
      some (contents, (contents.flatMap escapeByte).length + 1) := by
  induction contents generalizing turns with
  | nil =>
      obtain ⟨turns, rfl⟩ := Nat.exists_eq_add_one_of_ne_zero enough.ne'
      rw [unescape]
      exact if_pos rfl
  | cons byte contents induction =>
      obtain ⟨turns, rfl⟩ := Nat.exists_eq_add_one_of_ne_zero
        (Nat.ne_zero_of_lt enough)
      have others := induction (Nat.lt_of_succ_lt_succ enough)
      rw [List.flatMap_cons, List.append_assoc, unescape,
        if_neg (head_escapeByte byte _), readChar_escapeByte]
      simp only [bind, Option.bind_some, List.drop_left, others, pure,
        List.length_append, Nat.add_assoc]

/-! ## Numbers and hexadecimal digits -/

def isDecimal (byte : Byte) : Bool := 48 ≤ byte.val && byte.val ≤ 57

/-- The value of decimal digits. -/
def ofDecimal (bytes : Bytes) : ℕ :=
  Nat.ofDigitChars 10 (bytes.map fun byte => Char.ofNat byte.val) 0

/-- What may follow a value is no digit. -/
theorem isDecimal_of_delimits {next : Byte}
    (delimits : isSpace next = true ∨ next ∈ [0x2c, 0x5d, 0x7d]) :
    isDecimal next = false := by
  rw [Bool.eq_false_iff]
  intro decimal
  obtain ⟨low, high⟩ : 48 ≤ next.val ∧ next.val ≤ 57 := by
    simpa [isDecimal] using decimal
  rcases delimits with space | listed
  · rw [isSpace_of_digit low] at space
    cases space
  · simp only [List.mem_cons, List.not_mem_nil, or_false] at listed
    rcases listed with rfl | rfl | rfl
    · exact absurd low (by decide)
    · exact absurd high (by decide)
    · exact absurd high (by decide)

theorem takeWhile_digits (value : ℕ) {rest : Bytes} (delimits : Delimits rest) :
    (digits value ++ rest).takeWhile isDecimal = digits value := by
  have decimal : ∀ byte ∈ digits value, isDecimal byte = true := by
    intro byte member
    obtain ⟨low, high⟩ := digit_range member
    rw [isDecimal, decide_eq_true low, decide_eq_true high]
    rfl
  rw [List.takeWhile_append_of_pos decimal]
  have stops : rest.takeWhile isDecimal = [] := by
    cases rest with
    | nil => rfl
    | cons next rest =>
        rw [List.takeWhile_cons, isDecimal_of_delimits (delimits next rfl)]
        rfl
  rw [stops, List.append_nil]

theorem ofDecimal_digits (value : ℕ) : ofDecimal (digits value) = value := by
  have same : (digits value).map (fun byte => Char.ofNat byte.val) =
      Nat.toDigits 10 value := by
    rw [digits, asciiBytes, List.map_map]
    conv_rhs => rw [← List.map_id (Nat.toDigits 10 value)]
    apply List.map_congr_left
    intro char member
    have digit : char.isDigit = true :=
      Nat.isDigit_of_mem_toDigits (by decide) (by decide) member
    have small : char.toNat < 256 := by
      have range : 48 ≤ char.toNat ∧ char.toNat ≤ 57 := by
        simpa [Char.isDigit, UInt32.le_iff_toNat_le] using digit
      lia
    show Char.ofNat (char.toNat % 256) = char
    rw [Nat.mod_eq_of_lt small, Char.ofNat_toNat]
  rw [ofDecimal, same, Nat.ofDigitChars_ten_toDigits]

/-- The byte of two digits. -/
def hexPair : Bytes → Option Byte
  | [high, low] => hexByte high low
  | _ => none

/-- `epee::from_hex::to_buffer`. -/
def fromHex : Bytes → Option Bytes
  | [] => some []
  | [_] => none
  | high :: low :: rest => do
      let byte ← hexPair [high, low]
      let bytes ← fromHex rest
      return byte :: bytes

theorem hexValue_hexChar {digit : ℕ} (small : digit < 16) :
    hexValue (hexChar digit) = some digit := by
  have each : ∀ digit : Fin 16, hexValue (hexChar digit) = some digit.val := by
    decide
  exact each ⟨digit, small⟩

theorem hexPair_hexChar (byte : Byte) :
    hexPair [hexChar (byte.val / 16), hexChar (byte.val % 16)] = some byte := by
  have upper : byte.val / 16 < 16 := Nat.div_lt_of_lt_mul byte.isLt
  have lower : byte.val % 16 < 16 := Nat.mod_lt _ (by decide)
  rw [hexPair, hexByte, hexValue_hexChar upper, hexValue_hexChar lower]
  show some (Fin.ofNat 256 (byte.val / 16 * 16 + byte.val % 16)) = some byte
  rw [Nat.div_add_mod', Fin.ofNat_val_eq_self]

theorem fromHex_hexText (bytes : Bytes) :
    fromHex (hexText bytes) = some bytes := by
  induction bytes with
  | nil => rfl
  | cons byte bytes induction =>
      rw [hexText_cons, fromHex, hexPair_hexChar, induction]
      rfl

/-! ## The parser -/

/-- One value at the start of a text, and the bytes it takes. -/
def plainValue (expected : Option Schema) (source : Bytes) :
    Option (Sax × ℕ) :=
  match expected with
  | some .string =>
      if source.head? = some 0x22 then
        (unescape source.length source.tail).map fun (contents, length) =>
          (.string contents, length + 1)
      else none
  | some .boolean =>
      if (booleanText true).isPrefixOf source then some (.other, 4)
      else if (booleanText false).isPrefixOf source then some (.other, 5)
      else none
  | some .integer =>
      let decimal := (source.takeWhile isDecimal).length
      if decimal = 0 then none else some (.other, decimal)
  | _ => none

/-- Spaces are skipped, and a value ends within its text. -/
def plainParse (expected : Option Schema) (source : Bytes) :
    Except ParseErrorCode (Sax × ℕ) :=
  let left := source.dropWhile isSpace
  match plainValue expected left with
  | none => .error (.other 3)
  | some (value, length) =>
      if 0 < length ∧ length ≤ left.length then
        .ok (value, source.length - left.length + length)
      else .error (.other 3)

theorem plainParse_takes {expected : Option Schema} {source : Bytes}
    {value : Sax} {length : ℕ}
    (parsed : plainParse expected source = .ok (value, length)) :
    0 < length ∧ length ≤ source.length := by
  unfold plainParse at parsed
  dsimp only at parsed
  have within : (source.dropWhile isSpace).length ≤ source.length :=
    (List.dropWhile_suffix isSpace).length_le
  split at parsed
  · cases parsed
  · split at parsed
    · rename_i some
      cases parsed
      lia
    · cases parsed

/-- A value behind spaces. -/
theorem plainParse_eq {expected : Option Schema} {gap text rest : Bytes}
    {value : Sax} (spaces : Spaces gap)
    (first : ∀ next ∈ text.head?, isSpace next = false) (some : text ≠ [])
    (found : plainValue expected (text ++ rest) =
      .some (value, text.length)) :
    plainParse expected (gap ++ (text ++ rest)) =
      .ok (value, gap.length + text.length) := by
  have left : (gap ++ (text ++ rest)).dropWhile isSpace = text ++ rest := by
    rw [List.dropWhile_append_of_pos spaces]
    cases text with
    | nil => exact absurd rfl some
    | cons next text =>
        rw [List.cons_append, List.dropWhile_cons, first next rfl]
        rfl
  have taken : 0 < text.length ∧ text.length ≤ (text ++ rest).length := by
    rw [List.length_append]
    exact ⟨List.length_pos_of_ne_nil some, Nat.le_add_right _ _⟩
  rw [plainParse, left, found]
  dsimp only
  rw [if_pos taken, @List.length_append _ gap, Nat.add_sub_cancel]

theorem length_escaped (contents : Bytes) :
    contents.length ≤ (contents.flatMap escapeByte).length := by
  induction contents with
  | nil => exact le_rfl
  | cons byte contents induction =>
      have some := length_escapeByte byte
      rw [List.flatMap_cons, List.length_append, List.length_cons]
      lia

theorem plainValue_string (contents rest : Bytes) :
    plainValue (some .string) (quoted contents ++ rest) =
      some (.string contents, (quoted contents).length) := by
  have text : quoted contents ++ rest =
      0x22 :: (contents.flatMap escapeByte ++ 0x22 :: rest) := by
    rw [quoted, List.cons_append, List.append_assoc]
    rfl
  have enough : contents.length <
      (0x22 :: (contents.flatMap escapeByte ++ 0x22 :: rest)).length := by
    have escaped := length_escaped contents
    rw [List.length_cons, List.length_append]
    lia
  rw [text]
  show ((unescape _ (contents.flatMap escapeByte ++ 0x22 :: rest)).map _) = _
  rw [unescape_escaped enough]
  show some (Sax.string contents,
    (contents.flatMap escapeByte).length + 1 + 1) = _
  rw [quoted, List.length_cons, List.length_append, List.length_singleton]

theorem plainValue_boolean (value : Bool) (rest : Bytes) :
    plainValue (some .boolean) (booleanText value ++ rest) =
      some (.other, (booleanText value).length) := by
  cases value <;> rfl

theorem plainValue_integer (value : ℕ) {rest : Bytes}
    (delimits : Delimits rest) :
    plainValue (some .integer) (digits value ++ rest) =
      some (.other, (digits value).length) := by
  have positive := List.length_pos_of_ne_nil (digits_ne_nil value)
  rw [plainValue, takeWhile_digits value delimits]
  exact if_neg positive.ne'

theorem head_booleanText {value : Bool} {next : Byte}
    (first : next ∈ (booleanText value).head?) : isSpace next = false := by
  cases value with
  | true =>
      cases first
      rfl
  | false =>
      cases first
      rfl

/-- No digit is a space. -/
theorem head_digits {value : ℕ} {next : Byte}
    (first : next ∈ (digits value).head?) : isSpace next = false := by
  obtain ⟨head, others, listed, gap, -⟩ := digits_open value
  rw [listed] at first
  cases first
  exact gap

theorem dropWhile_digits (value : ℕ) (rest : Bytes) :
    (digits value ++ rest).dropWhile isSpace = digits value ++ rest := by
  obtain ⟨head, others, listed, gap, -⟩ := digits_open value
  rw [listed, List.cons_append, List.dropWhile_cons, gap]
  rfl

/-- What the writer puts out is parsed. -/
def plainValues : Values where
  parse := plainParse
  takes := plainParse_takes
  booleanAt source := (source.dropWhile isSpace).head? = some 0x74
  integerAt source := ofDecimal
    ((source.dropWhile isSpace).takeWhile isDecimal)
  toBuffer size source :=
    (fromHex source).filter fun bytes => bytes.length = size
  parses_string contents gap rest spaces := by
    refine plainParse_eq spaces ?_ (List.cons_ne_nil _ _)
      (plainValue_string contents rest)
    intro next same
    cases same
    decide
  parses_boolean value rest _ := by
    have parsed := @plainParse_eq (some .boolean) [] (booleanText value) rest
      .other nofun (fun _ first => head_booleanText first)
      (by cases value <;> decide)
      (plainValue_boolean value rest)
    rwa [List.nil_append, List.length_nil, Nat.zero_add] at parsed
  booleanAt_text value rest _ := by
    cases value <;> rfl
  parses_integer value rest delimits := by
    have parsed := @plainParse_eq (some .integer) [] (digits value.toNat) rest
      .other nofun (fun _ first => head_digits first) (digits_ne_nil _)
      (plainValue_integer value.toNat delimits)
    rwa [List.nil_append, List.length_nil, Nat.zero_add] at parsed
  integerAt_digits value rest delimits := by
    rw [dropWhile_digits, takeWhile_digits _ delimits, ofDecimal_digits]
  toBuffer_hexText bytes := by
    rw [fromHex_hexText]
    exact Option.filter_some_pos (decide_eq_true (Eq.refl bytes.length))

end XfoLws.Wire.JsonReader
