import XfoLws.Lib.Outcome
import XfoLws.Wire.Object
import Mathlib.Tactic.Ring

/-!
# Msgpack

`msgpack_writer` and `msgpack_reader` on values with integer keys.  Every
value is a tag, perhaps a count or an integer in big-endian order, and the
contents.  The reader takes the tokens as it needs them; here it first takes
a whole value.  Tags that the records of this development never use (nil,
floats, extensions and signed integers) are not read.
-/

namespace XfoLws.Wire.Msgpack

/-! ## Bytes of integers -/

/-- Big-endian bytes; what does not fit is cut off. -/
def toBytes : ℕ → ℕ → Bytes
  | 0, _ => []
  | width + 1, value =>
      toBytes width (value / 256) ++
        [⟨value % 256, Nat.mod_lt _ (by decide)⟩]

def ofBytes (bytes : Bytes) : ℕ :=
  bytes.foldl (fun value byte => value * 256 + byte.val) 0

@[simp] theorem length_toBytes (width value : ℕ) :
    (toBytes width value).length = width := by
  induction width generalizing value with
  | zero => rfl
  | succ width induction => simp [toBytes, induction]

theorem ofBytes_toBytes {width value : ℕ} (fits : value < 256 ^ width) :
    ofBytes (toBytes width value) = value := by
  induction width generalizing value with
  | zero =>
      have zero : value = 0 := by simpa using fits
      subst value
      rfl
  | succ width induction =>
      have high : value / 256 < 256 ^ width := by
        rw [Nat.div_lt_iff_lt_mul (by decide), ← pow_succ]
        exact fits
      have split := induction high
      rw [ofBytes] at split
      rw [ofBytes, toBytes, List.foldl_append, split]
      exact Nat.div_add_mod' value 256

/-! ## Tokens -/

/-- `wire::error::msgpack`, and the schema errors of the reader. -/
inductive Failure where
  | integerEncoding
  | notEnoughBytes
  | unsupported
  | maximumDepth
  | schema (failure : Schema)
deriving DecidableEq, Repr

/-- A tag with its integer; the contents follow. -/
inductive Token where
  | boolean (value : Bool)
  | unsigned (value : ℕ)
  | string (count : ℕ)
  | binary (count : ℕ)
  | array (count : ℕ)
  | object (count : ℕ)
deriving DecidableEq, Repr

/-- The first of some tags, given with their widths, that holds `value`. -/
def writeSized (tags : List (Byte × ℕ)) (value : ℕ) : Except Failure Bytes :=
  match tags.find? fun tag => value < 256 ^ tag.2 with
  | none => .error .integerEncoding
  | some tag => .ok (tag.1 :: toBytes tag.2 value)

/-- `write_count` with a fixed tag for fewer than `limit` items. -/
def writeFixed (tag limit : ℕ) (tags : List (Byte × ℕ)) (count : ℕ) :
    Except Failure Bytes :=
  if count < limit then .ok [Fin.ofNat 256 (tag + count)]
  else writeSized tags count

def unsignedTags : List (Byte × ℕ) :=
  [(0xcc, 1), (0xcd, 2), (0xce, 4), (0xcf, 8)]

def stringTags : List (Byte × ℕ) := [(0xd9, 1), (0xda, 2), (0xdb, 4)]

def binaryTags : List (Byte × ℕ) := [(0xc4, 1), (0xc5, 2), (0xc6, 4)]

def arrayTags : List (Byte × ℕ) := [(0xdc, 2), (0xdd, 4)]

def objectTags : List (Byte × ℕ) := [(0xde, 2), (0xdf, 4)]

def writeToken : Token → Except Failure Bytes
  | .boolean value => .ok [if value then 0xc3 else 0xc2]
  | .unsigned value => writeFixed 0 0x80 unsignedTags value
  | .string count => writeFixed 0xa0 32 stringTags count
  | .binary count => writeSized binaryTags count
  | .array count => writeFixed 0x90 16 arrayTags count
  | .object count => writeFixed 0x80 16 objectTags count

/-- `read_raw`. -/
def take (count : ℕ) (source : Bytes) : Except Failure (Bytes × Bytes) :=
  if source.length < count then .error .notEnoughBytes
  else .ok (source.take count, source.drop count)

/-- `read_endian`. -/
def readEndian (width : ℕ) (token : ℕ → Token) (source : Bytes) :
    Except Failure (Token × Bytes) := do
  let (bytes, rest) ← take width source
  .ok (token (ofBytes bytes), rest)

/-- The width that goes with a tag. -/
def widthOf (tags : List (Byte × ℕ)) (tag : Byte) : Option ℕ :=
  (tags.find? fun entry => entry.1 = tag).map Prod.snd

def readToken : Bytes → Except Failure (Token × Bytes)
  | [] => .error .notEnoughBytes
  | tag :: rest =>
      if tag.val < 0x80 then .ok (.unsigned tag.val, rest)
      else if tag.val < 0x90 then .ok (.object (tag.val - 0x80), rest)
      else if tag.val < 0xa0 then .ok (.array (tag.val - 0x90), rest)
      else if tag.val < 0xc0 then .ok (.string (tag.val - 0xa0), rest)
      else if tag = 0xc2 then .ok (.boolean false, rest)
      else if tag = 0xc3 then .ok (.boolean true, rest)
      else
        match widthOf unsignedTags tag, widthOf stringTags tag,
          widthOf binaryTags tag, widthOf arrayTags tag,
          widthOf objectTags tag with
        | some width, _, _, _, _ => readEndian width .unsigned rest
        | _, some width, _, _, _ => readEndian width .string rest
        | _, _, some width, _, _ => readEndian width .binary rest
        | _, _, _, some width, _ => readEndian width .array rest
        | _, _, _, _, some width => readEndian width .object rest
        | _, _, _, _, _ => .error .unsupported

theorem take_append {count : ℕ} {bytes : Bytes} (length : bytes.length = count)
    (rest : Bytes) : take count (bytes ++ rest) = .ok (bytes, rest) := by
  subst count
  simp [take]

/-- A tag with an integer is read back as the token the tag stands for. -/
private theorem readToken_sized {tags : List (Byte × ℕ)} {token : ℕ → Token}
    {value : ℕ} {bytes : Bytes} (written : writeSized tags value = .ok bytes)
    (reads : ∀ tag ∈ tags, ∀ rest,
      readToken (tag.1 :: rest) = readEndian tag.2 token rest)
    (rest : Bytes) : readToken (bytes ++ rest) = .ok (token value, rest) := by
  unfold writeSized at written
  cases found : tags.find? fun tag => value < 256 ^ tag.2 with
  | none =>
      rw [found] at written
      cases written
  | some tag =>
      rw [found] at written
      cases written
      have fits : value < 256 ^ tag.2 := by simpa using List.find?_some found
      rw [List.cons_append, reads tag (List.mem_of_find?_eq_some found),
        readEndian, take_append (length_toBytes _ _)]
      simp only [bind, Except.bind, ofBytes_toBytes fits]

private theorem readToken_fixed {tag limit : ℕ} {tags : List (Byte × ℕ)}
    {token : ℕ → Token} {count : ℕ} {bytes : Bytes}
    (written : writeFixed tag limit tags count = .ok bytes)
    (fixed : count < limit → ∀ rest,
      readToken (Fin.ofNat 256 (tag + count) :: rest) =
        .ok (token count, rest))
    (reads : ∀ tag ∈ tags, ∀ rest,
      readToken (tag.1 :: rest) = readEndian tag.2 token rest)
    (rest : Bytes) : readToken (bytes ++ rest) = .ok (token count, rest) := by
  unfold writeFixed at written
  split at written
  · rename_i below
    cases written
    exact fixed below rest
  · exact readToken_sized written reads rest

private theorem fixed_val {tag count : ℕ} (fits : tag + count < 256) :
    (Fin.ofNat 256 (tag + count)).val = tag + count :=
  Nat.mod_eq_of_lt fits

/-- A written token is read back, whatever follows. -/
theorem readToken_writeToken {token : Token} {bytes : Bytes}
    (written : writeToken token = .ok bytes) (rest : Bytes) :
    readToken (bytes ++ rest) = .ok (token, rest) := by
  cases token with
  | boolean value =>
      cases written
      cases value <;> rfl
  | unsigned value =>
      refine readToken_fixed written ?_ ?_ rest
      · intro below rest
        have byte : (Fin.ofNat 256 (0 + value)).val = value :=
          (fixed_val (by omega)).trans (Nat.zero_add value)
        simp only [readToken, byte, if_pos below]
      · simp only [unsignedTags, List.forall_mem_cons]
        exact ⟨fun _ => rfl, fun _ => rfl, fun _ => rfl, fun _ => rfl, nofun⟩
  | string count =>
      refine readToken_fixed written ?_ ?_ rest
      · intro below rest
        simp only [readToken, fixed_val (show 0xa0 + count < 256 by omega),
          if_neg (show ¬ 0xa0 + count < 0x80 by omega),
          if_neg (show ¬ 0xa0 + count < 0x90 by omega),
          if_neg (show ¬ 0xa0 + count < 0xa0 by omega),
          if_pos (show 0xa0 + count < 0xc0 by omega), Nat.add_sub_cancel_left]
      · simp only [stringTags, List.forall_mem_cons]
        exact ⟨fun _ => rfl, fun _ => rfl, fun _ => rfl, nofun⟩
  | binary count =>
      refine readToken_sized written ?_ rest
      simp only [binaryTags, List.forall_mem_cons]
      exact ⟨fun _ => rfl, fun _ => rfl, fun _ => rfl, nofun⟩
  | array count =>
      refine readToken_fixed written ?_ ?_ rest
      · intro below rest
        simp only [readToken, fixed_val (show 0x90 + count < 256 by omega),
          if_neg (show ¬ 0x90 + count < 0x80 by omega),
          if_neg (show ¬ 0x90 + count < 0x90 by omega),
          if_pos (show 0x90 + count < 0xa0 by omega), Nat.add_sub_cancel_left]
      · simp only [arrayTags, List.forall_mem_cons]
        exact ⟨fun _ => rfl, fun _ => rfl, nofun⟩
  | object count =>
      refine readToken_fixed written ?_ ?_ rest
      · intro below rest
        simp only [readToken, fixed_val (show 0x80 + count < 256 by omega),
          if_neg (show ¬ 0x80 + count < 0x80 by omega),
          if_pos (show 0x80 + count < 0x90 by omega), Nat.add_sub_cancel_left]
      · simp only [objectTags, List.forall_mem_cons]
        exact ⟨fun _ => rfl, fun _ => rfl, nofun⟩

/-! ## Values -/

mutual

/-- Writing fails only for counts and integers that no tag holds. -/
def writeValue : Value ℕ → Except Failure Bytes
  | .boolean value => writeToken (.boolean value)
  | .unsigned value => writeToken (.unsigned value)
  | .string value => do
      let token ← writeToken (.string value.length)
      .ok (token ++ value)
  | .binary value => do
      let token ← writeToken (.binary value.length)
      .ok (token ++ value)
  | .array items => do
      let token ← writeToken (.array items.length)
      let rest ← writeItems items
      .ok (token ++ rest)
  | .object fields => do
      let token ← writeToken (.object fields.length)
      let rest ← writeFields fields
      .ok (token ++ rest)

def writeItems : List (Value ℕ) → Except Failure Bytes
  | [] => .ok []
  | item :: items => do
      let first ← writeValue item
      let rest ← writeItems items
      .ok (first ++ rest)

def writeFields : List (ℕ × Value ℕ) → Except Failure Bytes
  | [] => .ok []
  | field :: fields => do
      let first ← writeField field
      let rest ← writeFields fields
      .ok (first ++ rest)

def writeField : ℕ × Value ℕ → Except Failure Bytes
  | (key, value) => do
      let token ← writeToken (.unsigned key)
      let rest ← writeValue value
      .ok (token ++ rest)

end

/-- The elements of an array, with the reader of one element. -/
def readItems (read : Bytes → Except Failure (Value ℕ × Bytes)) :
    ℕ → Bytes → Except Failure (List (Value ℕ) × Bytes)
  | 0, source => .ok ([], source)
  | count + 1, source => do
      let (item, source) ← read source
      let (items, source) ← readItems read count source
      .ok (item :: items, source)

/-- The fields of an object; keys are 32-bit integers. -/
def readFields (read : Bytes → Except Failure (Value ℕ × Bytes)) :
    ℕ → Bytes → Except Failure (List (ℕ × Value ℕ) × Bytes)
  | 0, source => .ok ([], source)
  | count + 1, source => do
      let (token, source) ← readToken source
      match token with
      | .unsigned key =>
          if 2 ^ 32 ≤ key then .error (.schema .smallerInteger)
          else do
            let (value, source) ← read source
            let (fields, source) ← readFields read count source
            .ok ((key, value) :: fields, source)
      | _ => .error (.schema .invalidKey)

/-- A value whose elements are read with `nested`, unless the maximum depth
is reached. -/
def readOne (nested : Option (Bytes → Except Failure (Value ℕ × Bytes)))
    (source : Bytes) : Except Failure (Value ℕ × Bytes) := do
  let (token, source) ← readToken source
  match token with
  | .boolean value => .ok (.boolean value, source)
  | .unsigned value => .ok (.unsigned value, source)
  | .string count =>
      let (value, source) ← take count source
      .ok (.string value, source)
  | .binary count =>
      let (value, source) ← take count source
      .ok (.binary value, source)
  | .array count =>
      match nested with
      | none => .error .maximumDepth
      | some read =>
          let (items, source) ← readItems read count source
          .ok (.array items, source)
  | .object count =>
      match nested with
      | none => .error .maximumDepth
      | some read =>
          let (fields, source) ← readFields read count source
          .ok (.object fields, source)

/-- A value nested at most so deep. -/
def readValue : ℕ → Bytes → Except Failure (Value ℕ × Bytes)
  | 0 => readOne none
  | depth + 1 => readOne (some (readValue depth))

/-- `reader::max_read_depth` is an error itself. -/
def maxReadDepth : ℕ := 100

/-- Values within the limits of the reader. -/
inductive Readable : ℕ → Value ℕ → Prop where
  | boolean (depth : ℕ) (value : Bool) : Readable depth (.boolean value)
  | unsigned (depth value : ℕ) : Readable depth (.unsigned value)
  | string (depth : ℕ) (value : Bytes) : Readable depth (.string value)
  | binary (depth : ℕ) (value : Bytes) : Readable depth (.binary value)
  | array {depth : ℕ} {items : List (Value ℕ)}
      (each : ∀ item ∈ items, Readable depth item) :
      Readable (depth + 1) (.array items)
  | object {depth : ℕ} {fields : List (ℕ × Value ℕ)}
      (keys : ∀ field ∈ fields, field.1 < 2 ^ 32)
      (each : ∀ field ∈ fields, Readable depth field.2) :
      Readable (depth + 1) (.object fields)

/-- A token and its contents are written one after the other. -/
private theorem written_parts {token : Token} {contents : Except Failure Bytes}
    {bytes : Bytes}
    (written : (do
      let token ← writeToken token
      let rest ← contents
      .ok (token ++ rest)) = .ok bytes) :
    ∃ first second, writeToken token = .ok first ∧ contents = .ok second ∧
      bytes = first ++ second := by
  obtain ⟨first, head, written⟩ := Outcome.bind_eq_ok.mp written
  obtain ⟨second, tail, written⟩ := Outcome.bind_eq_ok.mp written
  cases written
  exact ⟨first, second, head, tail, rfl⟩

private theorem readItems_written {read : Bytes →
      Except Failure (Value ℕ × Bytes)} {items : List (Value ℕ)}
    (reads : ∀ item ∈ items, ∀ {bytes}, writeValue item = .ok bytes →
      ∀ rest, read (bytes ++ rest) = .ok (item, rest)) {bytes : Bytes}
    (written : writeItems items = .ok bytes) (rest : Bytes) :
    readItems read items.length (bytes ++ rest) = .ok (items, rest) := by
  induction items generalizing bytes with
  | nil =>
      cases written
      rfl
  | cons item items induction =>
      rw [writeItems] at written
      obtain ⟨first, head, written⟩ := Outcome.bind_eq_ok.mp written
      obtain ⟨second, tail, written⟩ := Outcome.bind_eq_ok.mp written
      cases written
      have others := induction
        (fun other member => reads other (List.mem_cons_of_mem _ member)) tail
      simp only [List.length_cons, readItems, List.append_assoc,
        reads item List.mem_cons_self head, others, bind, Except.bind]

private theorem readFields_written {read : Bytes →
      Except Failure (Value ℕ × Bytes)} {fields : List (ℕ × Value ℕ)}
    (keys : ∀ field ∈ fields, field.1 < 2 ^ 32)
    (reads : ∀ field ∈ fields, ∀ {bytes}, writeValue field.2 = .ok bytes →
      ∀ rest, read (bytes ++ rest) = .ok (field.2, rest)) {bytes : Bytes}
    (written : writeFields fields = .ok bytes) (rest : Bytes) :
    readFields read fields.length (bytes ++ rest) = .ok (fields, rest) := by
  induction fields generalizing bytes with
  | nil =>
      cases written
      rfl
  | cons field fields induction =>
      rw [writeFields] at written
      obtain ⟨first, head, written⟩ := Outcome.bind_eq_ok.mp written
      obtain ⟨second, tail, written⟩ := Outcome.bind_eq_ok.mp written
      cases written
      obtain ⟨key, value⟩ := field
      rw [writeField] at head
      obtain ⟨token, contents, keyed, valued, rfl⟩ := written_parts head
      have small : ¬ 2 ^ 32 ≤ key :=
        Nat.not_le_of_lt (keys (key, value) List.mem_cons_self)
      have others := induction
        (fun other member => keys other (List.mem_cons_of_mem _ member))
        (fun other member => reads other (List.mem_cons_of_mem _ member)) tail
      simp only [List.length_cons, readFields, List.append_assoc,
        readToken_writeToken keyed, if_neg small,
        reads (key, value) List.mem_cons_self valued, others, bind,
        Except.bind]

private theorem readValue_eq (depth : ℕ) : ∃ nested,
    readValue depth = readOne nested := by
  cases depth with
  | zero => exact ⟨none, rfl⟩
  | succ depth => exact ⟨some (readValue depth), rfl⟩

/-- A written value is read back, whatever follows. -/
theorem readValue_writeValue {depth : ℕ} {value : Value ℕ}
    (readable : Readable depth value) {bytes : Bytes}
    (written : writeValue value = .ok bytes) (rest : Bytes) :
    readValue depth (bytes ++ rest) = .ok (value, rest) := by
  induction readable generalizing bytes rest with
  | boolean depth value =>
      obtain ⟨nested, same⟩ := readValue_eq depth
      rw [writeValue] at written
      simp only [same, readOne, readToken_writeToken written, bind,
        Except.bind]
  | unsigned depth value =>
      obtain ⟨nested, same⟩ := readValue_eq depth
      rw [writeValue] at written
      simp only [same, readOne, readToken_writeToken written, bind,
        Except.bind]
  | string depth value =>
      obtain ⟨nested, same⟩ := readValue_eq depth
      rw [writeValue] at written
      obtain ⟨token, head, written⟩ := Outcome.bind_eq_ok.mp written
      cases written
      simp only [same, readOne, List.append_assoc, readToken_writeToken head,
        take_append rfl, bind, Except.bind]
  | binary depth value =>
      obtain ⟨nested, same⟩ := readValue_eq depth
      rw [writeValue] at written
      obtain ⟨token, head, written⟩ := Outcome.bind_eq_ok.mp written
      cases written
      simp only [same, readOne, List.append_assoc, readToken_writeToken head,
        take_append rfl, bind, Except.bind]
  | array each induction =>
      rw [writeValue] at written
      obtain ⟨token, contents, head, tail, rfl⟩ := written_parts written
      have items := readItems_written
        (fun item member bytes written rest =>
          induction item member written rest) tail
      simp only [readValue, readOne, List.append_assoc,
        readToken_writeToken head, items, bind, Except.bind]
  | object keys each induction =>
      rw [writeValue] at written
      obtain ⟨token, contents, head, tail, rfl⟩ := written_parts written
      have fields := readFields_written keys
        (fun field member bytes written rest =>
          induction field member written rest) tail
      simp only [readValue, readOne, List.append_assoc,
        readToken_writeToken head, fields, bind, Except.bind]

/-! ## What can be written -/

theorem writeSized_isOk {tags : List (Byte × ℕ)} {value : ℕ} :
    (∃ bytes, writeSized tags value = .ok bytes) ↔
      ∃ tag ∈ tags, value < 256 ^ tag.2 := by
  unfold writeSized
  cases found : tags.find? fun tag => value < 256 ^ tag.2 with
  | none =>
      have absent := List.find?_eq_none.mp found
      simp only [reduceCtorEq, exists_false, false_iff]
      rintro ⟨tag, member, fits⟩
      exact absent tag member (by simpa using fits)
  | some tag =>
      refine iff_of_true ⟨_, rfl⟩ ⟨tag, List.mem_of_find?_eq_some found, ?_⟩
      simpa using List.find?_some found

theorem writeFixed_isOk {tag limit : ℕ} {tags : List (Byte × ℕ)} {count : ℕ} :
    (∃ bytes, writeFixed tag limit tags count = .ok bytes) ↔
      count < limit ∨ ∃ tag ∈ tags, count < 256 ^ tag.2 := by
  unfold writeFixed
  split
  · rename_i below
    exact iff_of_true ⟨_, rfl⟩ (.inl below)
  · rename_i notBelow
    rw [writeSized_isOk]
    exact (or_iff_right notBelow).symm

/-- Integers have 64 bits and counts have 32. -/
theorem writeToken_isOk {token : Token} :
    (∃ bytes, writeToken token = .ok bytes) ↔
      match token with
      | .boolean _ => True
      | .unsigned value => value < 2 ^ 64
      | .string count | .binary count | .array count | .object count =>
          count < 2 ^ 32 := by
  cases token with
  | boolean value => exact iff_of_true ⟨_, rfl⟩ trivial
  | unsigned value =>
      refine writeFixed_isOk.trans ?_
      simp [unsignedTags]
      omega
  | string count =>
      refine writeFixed_isOk.trans ?_
      simp [stringTags]
      omega
  | binary count =>
      refine writeSized_isOk.trans ?_
      simp [binaryTags]
      omega
  | array count =>
      refine writeFixed_isOk.trans ?_
      simp [arrayTags]
      omega
  | object count =>
      refine writeFixed_isOk.trans ?_
      simp [objectTags]
      omega

/-- The writer does not throw. -/
def Writable (value : Value ℕ) : Prop :=
  ∃ bytes, writeValue value = .ok bytes

private theorem parts_isOk (token : Token) (contents : Except Failure Bytes) :
    (∃ bytes, (do
      let token ← writeToken token
      let rest ← contents
      .ok (token ++ rest)) = .ok bytes) ↔
      (∃ bytes, writeToken token = .ok bytes) ∧
        ∃ bytes, contents = .ok bytes := by
  constructor
  · rintro ⟨bytes, written⟩
    obtain ⟨first, second, head, tail, -⟩ := written_parts written
    exact ⟨⟨first, head⟩, second, tail⟩
  · rintro ⟨⟨first, head⟩, second, tail⟩
    simp only [head, tail, bind, Except.bind]
    exact ⟨_, rfl⟩

@[simp] theorem writable_boolean (value : Bool) :
    Writable (.boolean value) := by
  unfold Writable
  rw [writeValue]
  exact writeToken_isOk.mpr trivial

@[simp] theorem writable_unsigned {value : ℕ} :
    Writable (.unsigned value) ↔ value < 2 ^ 64 := by
  unfold Writable
  rw [writeValue]
  exact writeToken_isOk

@[simp] theorem writable_string {value : Bytes} :
    Writable (.string value) ↔ value.length < 2 ^ 32 := by
  unfold Writable
  rw [writeValue]
  exact (parts_isOk _ (.ok value)).trans
    ((and_iff_left ⟨value, rfl⟩).trans writeToken_isOk)

@[simp] theorem writable_binary {value : Bytes} :
    Writable (.binary value) ↔ value.length < 2 ^ 32 := by
  unfold Writable
  rw [writeValue]
  exact (parts_isOk _ (.ok value)).trans
    ((and_iff_left ⟨value, rfl⟩).trans writeToken_isOk)

private theorem items_isOk {items : List (Value ℕ)} :
    (∃ bytes, writeItems items = .ok bytes) ↔
      ∀ item ∈ items, Writable item := by
  induction items with
  | nil => simp [writeItems]
  | cons item items induction =>
      rw [List.forall_mem_cons, ← induction, writeItems]
      constructor
      · rintro ⟨bytes, written⟩
        obtain ⟨first, head, written⟩ := Outcome.bind_eq_ok.mp written
        obtain ⟨second, tail, -⟩ := Outcome.bind_eq_ok.mp written
        exact ⟨⟨first, head⟩, second, tail⟩
      · rintro ⟨⟨first, head⟩, second, tail⟩
        simp only [head, tail, bind, Except.bind]
        exact ⟨_, rfl⟩

@[simp] theorem writable_array {items : List (Value ℕ)} :
    Writable (.array items) ↔
      items.length < 2 ^ 32 ∧ ∀ item ∈ items, Writable item := by
  unfold Writable
  rw [writeValue]
  exact (parts_isOk _ _).trans (and_congr writeToken_isOk items_isOk)

private theorem fields_isOk {fields : List (ℕ × Value ℕ)} :
    (∃ bytes, writeFields fields = .ok bytes) ↔
      ∀ field ∈ fields, field.1 < 2 ^ 64 ∧ Writable field.2 := by
  induction fields with
  | nil => simp [writeFields]
  | cons field fields induction =>
      obtain ⟨key, value⟩ := field
      have one : (∃ bytes, writeField (key, value) = .ok bytes) ↔
          key < 2 ^ 64 ∧ Writable value := by
        rw [writeField]
        exact (parts_isOk _ _).trans (and_congr_left' writeToken_isOk)
      rw [List.forall_mem_cons, ← induction, ← one, writeFields]
      constructor
      · rintro ⟨bytes, written⟩
        obtain ⟨first, head, written⟩ := Outcome.bind_eq_ok.mp written
        obtain ⟨second, tail, -⟩ := Outcome.bind_eq_ok.mp written
        exact ⟨⟨first, head⟩, second, tail⟩
      · rintro ⟨⟨first, head⟩, second, tail⟩
        simp only [head, tail, bind, Except.bind]
        exact ⟨_, rfl⟩

@[simp] theorem writable_object {fields : List (ℕ × Value ℕ)} :
    Writable (.object fields) ↔ fields.length < 2 ^ 32 ∧
      ∀ field ∈ fields, field.1 < 2 ^ 64 ∧ Writable field.2 := by
  unfold Writable
  rw [writeValue]
  exact (parts_isOk _ _).trans (and_congr writeToken_isOk fields_isOk)

end XfoLws.Wire.Msgpack
