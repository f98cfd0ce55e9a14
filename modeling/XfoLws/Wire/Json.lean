import XfoLws.Wire.Object
import Mathlib.Data.Fin.Basic

/-!
# JSON text

The compact text that `json_writer` produces.  The parser is not part of the
repository: a `JsonParser` is any function from text to values.
-/

namespace XfoLws.Wire

/-- A JSON value. -/
abbrev Json := Value String

def asciiBytes (text : List Char) : Bytes :=
  text.map fun char => Fin.ofNat 256 char.toNat

def hexDigit (digit : ℕ) : Char :=
  if digit < 10 then Char.ofNat (48 + digit) else Char.ofNat (55 + digit)

/-- A byte inside a string. -/
def escapeByte (byte : Byte) : Bytes :=
  if byte = 34 ∨ byte = 92 then [92, byte]
  else if 32 ≤ byte then [byte]
  else
    match byte.val with
    | 8 => asciiBytes ['\\', 'b']
    | 9 => asciiBytes ['\\', 't']
    | 10 => asciiBytes ['\\', 'n']
    | 12 => asciiBytes ['\\', 'f']
    | 13 => asciiBytes ['\\', 'r']
    | control => asciiBytes ['\\', 'u', '0', '0',
        hexDigit (control / 16), hexDigit (control % 16)]

def quoted (value : Bytes) : Bytes :=
  34 :: (value.flatMap escapeByte ++ [34])

/-- Items between commas. -/
def commaSeparated (items : List Bytes) : Bytes :=
  (items.intersperse [44]).flatten

mutual

def Json.render : Json → Bytes
  | .boolean true => asciiBytes ['t', 'r', 'u', 'e']
  | .boolean false => asciiBytes ['f', 'a', 'l', 's', 'e']
  | .unsigned value => asciiBytes (Nat.toDigits 10 value)
  | .string value => quoted value
  | .binary value => quoted (asciiBytes (value.flatMap fun byte =>
      (Nat.toDigits 16 (256 + byte.val)).drop 1))
  | .array items => 91 :: (commaSeparated (Json.renderItems items) ++ [93])
  | .object fields => 123 :: (commaSeparated (Json.renderFields fields) ++ [125])

def Json.renderItems : List Json → List Bytes
  | [] => []
  | item :: items => Json.render item :: Json.renderItems items

def Json.renderFields : List (String × Json) → List Bytes
  | [] => []
  | (key, value) :: fields =>
      (quoted (asciiBytes key.toList) ++ 58 :: Json.render value) ::
        Json.renderFields fields

end

/-- A parser; an empty text is no JSON. -/
structure JsonParser where
  parse : Bytes → Option Json
  parse_empty : parse [] = none

end XfoLws.Wire
