import XfoLws.Wire.JsonReader
import XfoLws.Wire.MsgpackObjects
import Mathlib.Data.Fin.VecNotation

/-!
# Objects in JSON and msgpack

Both readers walk over the entries of an object, so that what is read depends
on the entries under known keys alone.
-/

namespace XfoLws.Wire

open Parsing
open Msgpack (KeyMap maxReadDepth)

/-- The encodings of an object. -/
inductive Encoding where
  | json (rapidjson : JsonReader.Rapidjson)
  | msgpack (integerKeys : Bool)

namespace Encoding

def format : Encoding → Format
  | json rapidjson => JsonReader.format rapidjson
  | msgpack integerKeys => Msgpack.format integerKeys

def walk : (encoding : Encoding) → encoding.format.Walk
  | json rapidjson => JsonReader.walk rapidjson
  | msgpack integerKeys => Msgpack.Reader.walk integerKeys

end Encoding

section Order

variable {n : ℕ} {α : Fin n → Type}

/-- An object is read exactly when the reader may go one level deeper and the
values under known keys fit the fields.  The targets then hold these values
and defaults.  Other orders, other entries under unknown keys and other
targets give the same result. -/
theorem object_any_order (encoding : Encoding)
    {fields : ∀ index,
      Field encoding.format.Counts encoding.format.Thrown (α index)}
    {decode : ∀ index, Bytes → Option (α index)}
    (distinct : encoding.format.DistinctKeys fields)
    {entries : List encoding.format.Entry} {text rest : Bytes}
    {outer : encoding.format.Counts}
    (encoded : encoding.format.encodes entries text)
    (readable : ∀ entry ∈ entries, encoding.format.Readable
      (encoding.format.depth outer + 1) fields decode entry)
    (ready : encoding.format.ready outer text)
    (ends : encoding.format.ends rest) :
    (∀ target,
      (∃ result, (object encoding.format.reader fields target).run
        (outer, text ++ rest) = .ok result) ↔
      encoding.format.depth outer + 1 ≠ maxReadDepth ∧
        Format.Fits fields decode
          (encoding.format.known (keyMap fields) entries)) ∧
    (∀ target result, (object encoding.format.reader fields target).run
        (outer, text ++ rest) = .ok result →
      result.2 = (encoding.format.after outer, rest) ∧
        Format.Filled fields decode
          (encoding.format.known (keyMap fields) entries) result.1) ∧
    ∀ others otherText, encoding.format.encodes others otherText →
      (∀ entry ∈ others, encoding.format.Readable
        (encoding.format.depth outer + 1) fields decode entry) →
      encoding.format.ready outer otherText →
      (encoding.format.known (keyMap fields) entries).Perm
        (encoding.format.known (keyMap fields) others) →
      ∀ target otherTarget result,
        (object encoding.format.reader fields target).run
          (outer, text ++ rest) = .ok result ↔
        (object encoding.format.reader fields otherTarget).run
          (outer, otherText ++ rest) = .ok result := by
  have result := encoding.walk.object_ok_iff distinct encoded readable ready
    ends
  refine ⟨fun target => ⟨?_, ?_⟩, ?_, ?_⟩
  · rintro ⟨found, ran⟩
    exact ((result target found).mp ran).1
  · intro accepted
    obtain ⟨found, -, ran⟩ := (encoding.walk.object_run distinct encoded
      readable ready ends target).1 accepted
    exact ⟨_, ran⟩
  · intro target found ran
    obtain ⟨-, filled, same⟩ := (result target found).mp ran
    exact ⟨same, filled⟩
  · intro others otherText otherEncoded otherReadable otherReady same target
      otherTarget found
    rw [result, encoding.walk.object_ok_iff distinct otherEncoded
      otherReadable otherReady ends]
    refine and_congr (and_congr_right' ⟨?_, ?_⟩) (and_congr_left' ⟨?_, ?_⟩)
    · exact fun fits => fits.perm same
    · exact fun fits => fits.perm same.symm
    · exact fun filled => filled.perm same
    · exact fun filled => filled.perm same.symm

end Order

section Sample

open Msgpack

private def readBit (_ : Bool) : Reader Bool := Reader.boolean

private theorem firstName_terminated : 0 ∉ ([97] : Bytes) := by decide

private theorem secondName_terminated : 0 ∉ ([98] : Bytes) := by decide

private def sampleFields : Fin 2 → Field Counts Thrown Bool :=
  ![field ⟨[97], 0, firstName_terminated⟩ readBit,
    defaultedField ⟨[98], 1, secondName_terminated⟩ true readBit]

private def decodeBit (_ : Fin 2) (text : Bytes) : Option Bool :=
  if text = [0xc3] then some true
  else if text = [0xc2] then some false
  else none

private def bit (key : Byte) : Entry false :=
  ⟨.name [0xa1] [key] (.inl ⟨show 1 < 32 by decide, rfl⟩),
    .mk (.scalar 0xc3 [] rfl) Fin.elim0⟩

private theorem bit_readable (key : Byte) :
    (Msgpack.format false).Readable 1 sampleFields decodeBit (bit key) := by
  refine ⟨?_, fun _ => rfl⟩
  rintro index - ⟨tags, depth⟩ target rest rfl ⟨missing, -⟩ -
  obtain ⟨tags, rfl⟩ := Nat.exists_eq_add_one_of_ne_zero
    (Nat.ne_of_gt missing)
  exact match index with
    | 0 => rfl
    | 1 => rfl

private theorem sampleFields_distinct :
    (Msgpack.format false).DistinctKeys sampleFields := by
  show ∀ left right : Fin 2,
    (sampleFields left).key.name = (sampleFields right).key.name → left = right
  decide

/-- A field behind an unknown one, and a default. -/
theorem object_any_order_sample :
    ∃ result, (object objectReader sampleFields fun _ => false).run
      (Counts.start, [0x82, 0xa1, 99, 0xc3, 0xa1, 97, 0xc3]) =
        .ok result := by
  have ordered := @object_any_order 2 (fun _ => Bool) (.msgpack false)
    sampleFields decodeBit sampleFields_distinct [bit 99, bit 97]
    [0x82, 0xa1, 99, 0xc3, 0xa1, 97, 0xc3] [] Counts.start
    ⟨[0x82], .inl ⟨by decide, rfl⟩, rfl⟩
    (List.forall_mem_cons.mpr
      ⟨bit_readable 99, List.forall_mem_singleton.mpr (bit_readable 97)⟩)
    ⟨by decide, by decide⟩ trivial
  exact (ordered.1 fun _ => false).mpr
    ⟨by decide, ⟨by decide, by decide, by decide⟩⟩

/-- An integer key of 64 bits is no unknown key. -/
theorem object_rejects_wide_key :
    (object objectReader sampleFields fun _ => false).run
        (Counts.start, [0x82, 0, 0xc3, 0xcf, 0, 0, 0, 1, 0, 0, 0, 0, 0xc0]) =
      .error (.wire (.schema .smallerInteger)) ∧
    ∃ result, (object objectReader sampleFields fun _ => false).run
        (Counts.start, [0x81, 0, 0xc3]) = .ok result :=
  ⟨rfl, _, rfl⟩

end Sample

end XfoLws.Wire
