import XfoLws.Wire.MsgpackReader

/-!
# Written tokens are read back

Each function of the reader takes exactly the bytes that the matching function
of the writer puts out.  The writer chooses the first tag that is wide enough;
the reader goes by the tag alone.
-/

namespace XfoLws.Wire.Msgpack

open Parsing

/-! ## Tags -/

/-- The sizes behind a tag can be told from the fixed tags and from each
other. -/
structure TagTable (fixed limit : ℕ) (tags : List (Byte × ℕ)) : Prop where
  byte : fixed + limit ≤ 256
  apart : ∀ tag ∈ tags, fixed + limit ≤ tag.1.val
  width : ∀ tag ∈ tags, widthOf tags tag.1 = some tag.2

theorem stringTable : TagTable 0xa0 32 stringTags := by
  constructor <;> decide

theorem binaryTable : TagTable 0 0 binaryTags := by
  constructor <;> decide

theorem arrayTable : TagTable 0x90 16 arrayTags := by
  constructor <;> decide

theorem objectTable : TagTable 0x80 16 objectTags := by
  constructor <;> decide

theorem unsignedTable : TagTable 0 0x80 unsignedTags := by
  constructor <;> decide

theorem writeSized_cases {tags : List (Byte × ℕ)} {value : ℕ} {bytes : Bytes}
    (written : writeSized tags value = .ok bytes) :
    ∃ tag ∈ tags, value < 256 ^ tag.2 ∧
      bytes = tag.1 :: toBytes tag.2 value := by
  unfold writeSized at written
  cases found : tags.find? fun tag => value < 256 ^ tag.2 with
  | none =>
      rw [found] at written
      cases written
  | some tag =>
      rw [found] at written
      cases written
      have fits : value < 256 ^ tag.2 := by simpa using List.find?_some found
      exact ⟨tag, List.mem_of_find?_eq_some found, fits, rfl⟩

/-- The bytes of a tag with its count: in the tag itself, or behind a tag that
is wide enough. -/
def Counted (fixed limit : ℕ) (tags : List (Byte × ℕ)) (count : ℕ)
    (bytes : Bytes) : Prop :=
  (count < limit ∧ bytes = [Fin.ofNat 256 (fixed + count)]) ∨
    ∃ tag ∈ tags, count < 256 ^ tag.2 ∧ bytes = tag.1 :: toBytes tag.2 count

theorem writeFixed_cases {fixed limit : ℕ} {tags : List (Byte × ℕ)}
    {count : ℕ} {bytes : Bytes}
    (written : writeFixed fixed limit tags count = .ok bytes) :
    Counted fixed limit tags count bytes := by
  unfold writeFixed at written
  split at written
  · rename_i below
    cases written
    exact .inl ⟨below, rfl⟩
  · exact .inr (writeSized_cases written)

namespace Reader

variable {tags depth : ℕ} {counts : Counts}

/-! ## Parts of tokens -/

theorem takes_updateTagsRemaining :
    Takes updateTagsRemaining ⟨tags + 1, depth⟩ [] () ⟨tags, depth⟩ :=
  fun _ => rfl

theorem takes_incrementDepth (shallow : depth + 1 < maxReadDepth) :
    Takes incrementDepth ⟨tags, depth⟩ [] () ⟨tags, depth + 1⟩ :=
  fun _ => if_neg shallow.ne

theorem takes_decrementDepth :
    Takes decrementDepth ⟨tags, depth + 1⟩ [] () ⟨tags, depth⟩ :=
  fun _ => rfl

theorem takes_announce {values : ℕ} (fits : tags + values ≤ maxSize) :
    Takes (announce values) ⟨tags, depth⟩ [] () ⟨tags + values, depth⟩ :=
  fun _ => if_neg (Nat.not_lt.mpr (Nat.le_sub_of_add_le' fits))

theorem takes_getTag (tag : Byte) : Takes getTag counts [tag] tag counts :=
  fun _ => rfl

theorem takes_readRaw (bytes : Bytes) :
    Takes (readRaw bytes.length) counts bytes bytes counts := by
  intro rest
  simp only [StateT.run, readRaw, take_append]

theorem takes_readEndian {width value : ℕ} (fits : value < 256 ^ width) :
    Takes (readEndian width) counts (toBytes width value) value counts := by
  have raw : Takes (readRaw (toBytes width value).length) counts
      (toBytes width value) (toBytes width value) counts := takes_readRaw _
  rw [length_toBytes] at raw
  have read := raw.returns ofBytes
  rwa [ofBytes_toBytes fits] at read

theorem takes_numericCast {least greatest value : ℤ} (low : least ≤ value)
    (high : value ≤ greatest) :
    Takes (numericCast least greatest value) counts [] value counts := by
  unfold numericCast
  rw [if_neg (Int.not_lt.mpr high), if_neg (Int.not_lt.mpr low)]
  exact Takes.pure value counts

/-- A count is read from the tag and the bytes behind it. -/
theorem Counted.takes {fixed limit : ℕ} {table : List (Byte × ℕ)}
    {count : ℕ} {bytes : Bytes} (tagged : TagTable fixed limit table)
    (counted : Counted fixed limit table count bytes) (expected : Schema) :
    ∃ next raw, bytes = next :: raw ∧
      (fixed ≤ next.val ∧ next.val < fixed + limit ∨
        (widthOf table next).isSome) ∧
      ∀ counts, Takes (countOf fixed limit table expected next) counts raw
        count counts := by
  rcases counted with ⟨below, rfl⟩ | ⟨tag, member, fits, rfl⟩
  · have value : (Fin.ofNat 256 (fixed + count)).val = fixed + count :=
      Nat.mod_eq_of_lt (Nat.lt_of_lt_of_le (Nat.add_lt_add_left below fixed)
        tagged.byte)
    have inside : fixed ≤ (Fin.ofNat 256 (fixed + count)).val ∧
        (Fin.ofNat 256 (fixed + count)).val < fixed + limit := by
      rw [value]
      exact ⟨Nat.le_add_right _ _, Nat.add_lt_add_left below fixed⟩
    refine ⟨_, [], rfl, .inl inside, ?_⟩
    intro counts
    rw [countOf, if_pos inside, value, Nat.add_sub_cancel_left]
    exact Takes.pure count counts
  · have width := tagged.width tag member
    refine ⟨tag.1, _, rfl, .inr (by rw [width]; rfl), ?_⟩
    intro counts
    rw [countOf, if_neg (fun inside =>
      Nat.not_lt.mpr (tagged.apart tag member) inside.2), width]
    exact takes_readEndian fits

theorem takes_countOf {fixed limit : ℕ} {table : List (Byte × ℕ)}
    {count : ℕ} {bytes : Bytes} (tagged : TagTable fixed limit table)
    (written : writeFixed fixed limit table count = .ok bytes)
    (expected : Schema) :
    ∃ next raw, bytes = next :: raw ∧
      (fixed ≤ next.val ∧ next.val < fixed + limit ∨
        (widthOf table next).isSome) ∧
      ∀ counts, Takes (countOf fixed limit table expected next) counts raw
        count counts :=
  Counted.takes tagged (writeFixed_cases written) expected

/-! ## Integers -/

theorem takes_readInteger_unsigned {least greatest : ℤ} {value : ℕ}
    {tag : Byte × ℕ} (member : tag ∈ unsignedTags)
    (fits : value < 256 ^ tag.2) (low : least ≤ value)
    (high : (value : ℤ) ≤ greatest) :
    Takes (readInteger least greatest tag.1) counts (toBytes tag.2 value)
      value counts := by
  have unsigned : ∀ tag ∈ unsignedTags, widthOf signedTags tag.1 = none := by
    decide
  rw [readInteger, unsigned tag member, unsignedTable.width tag member]
  exact (takes_readEndian fits).before (takes_numericCast low high)

/-- Two's complement is undone by the balanced remainder. -/
theorem takes_readInteger_signed {least greatest value : ℤ} {tag : Byte × ℕ}
    (member : tag ∈ signedTags) (negative : value < 0)
    (fits : -(256 ^ tag.2 : ℕ) ≤ 2 * value) (low : least ≤ value)
    (high : value ≤ greatest) :
    Takes (readInteger least greatest tag.1) counts
      (signedBytes tag.2 value) value counts := by
  have width : ∀ tag ∈ signedTags, widthOf signedTags tag.1 = some tag.2 := by
    decide
  have positive : 0 < 256 ^ tag.2 := Nat.pow_pos (by decide)
  have small : (value % (256 ^ tag.2 : ℕ)).toNat < 256 ^ tag.2 := by
    have below := Int.emod_lt_of_pos value (Int.natCast_pos.mpr positive)
    lia
  have back : (((value % (256 ^ tag.2 : ℕ)).toNat : ℕ) : ℤ).bmod
      (256 ^ tag.2) = value := by
    rw [Int.toNat_of_nonneg (Int.emod_nonneg value (by lia)), Int.emod_bmod]
    exact Int.bmod_eq_of_le_mul_two (by lia) (by lia)
  rw [readInteger, width tag member]
  refine (takes_readEndian small).before ?_
  rw [back]
  exact takes_numericCast low high

/-- An unsigned integer below 128 is its own tag. -/
private theorem unsigned_cases {value : ℕ} {bytes : Bytes}
    (counted : Counted 0 0x80 unsignedTags value bytes) :
    (∃ next : Byte, next.val = value ∧ value < 0x80 ∧ bytes = [next]) ∨
      ∃ tag ∈ unsignedTags, value < 256 ^ tag.2 ∧
        bytes = tag.1 :: toBytes tag.2 value := by
  rcases counted with ⟨below, rfl⟩ | wide
  · have same : (Fin.ofNat 256 (0 + value)).val = value := by
      rw [Nat.zero_add]
      exact Nat.mod_eq_of_lt (Nat.lt_trans below (by decide))
    exact .inl ⟨_, same, below, rfl⟩
  · exact .inr wide

private theorem unsignedTag_high {tag : Byte × ℕ}
    (member : tag ∈ unsignedTags) : ¬ tag.1.val ≤ 0x7f :=
  Nat.not_le.mpr (unsignedTable.apart tag member)

theorem takes_unsignedInteger {value : UInt64} {bytes : Bytes}
    (written : writeToken (.unsigned value.toNat) = .ok bytes) :
    Takes unsignedInteger ⟨tags + 1, depth⟩ bytes value ⟨tags, depth⟩ := by
  refine takes_updateTagsRemaining.after ?_
  rcases unsigned_cases (writeFixed_cases written) with
    ⟨next, same, below, rfl⟩ | ⟨tag, member, fits, rfl⟩
  · refine (takes_getTag next).before ?_
    rw [if_pos (by lia), same, UInt64.ofNat_toNat]
    exact Takes.pure value _
  · refine (takes_getTag tag.1).bind ?_
    rw [if_neg (unsignedTag_high member)]
    have bound := value.toNat_lt
    have read : Takes (doUnsignedInteger tag.1) ⟨tags, depth⟩
        (toBytes tag.2 value.toNat) value.toNat ⟨tags, depth⟩ :=
      takes_readInteger_unsigned member fits (by lia) (by lia)
    have returned := read.returns fun value => UInt64.ofNat value.toNat
    rwa [Int.toNat_natCast, UInt64.ofNat_toNat] at returned

/-- The first tag that is wide enough for a negative integer. -/
private theorem negative_cases {value : ℤ} {bytes : Bytes}
    (negative : value < 0) (written : writeNegative value = .ok bytes) :
    ∃ tag ∈ signedTags, -(256 ^ tag.2 : ℕ) ≤ 2 * value ∧
      bytes = tag.1 :: signedBytes tag.2 value := by
  rw [writeNegative, if_neg (by lia)] at written
  cases found : signedTags.find? fun tag => -(256 ^ tag.2 : ℕ) ≤ 2 * value with
  | none =>
      rw [found] at written
      cases written
  | some tag =>
      rw [found] at written
      cases written
      have fits : -(256 ^ tag.2 : ℕ) ≤ 2 * value := by
        simpa using List.find?_some found
      exact ⟨tag, List.mem_of_find?_eq_some found, fits, rfl⟩

theorem takes_integer {value : Int64} {bytes : Bytes}
    (written : writeInteger value.toInt = .ok bytes) :
    Takes integer ⟨tags + 1, depth⟩ bytes value ⟨tags, depth⟩ := by
  have low := value.le_toInt
  have high := value.toInt_lt
  refine takes_updateTagsRemaining.after ?_
  unfold writeInteger at written
  split at written
  · rename_i nonnegative
    have back : ((value.toInt.toNat : ℕ) : ℤ) = value.toInt :=
      Int.toNat_of_nonneg nonnegative
    rcases unsigned_cases (writeFixed_cases written) with
      ⟨next, same, below, rfl⟩ | ⟨tag, member, fits, rfl⟩
    · refine (takes_getTag next).before ?_
      rw [if_pos (by lia), same, back, Int64.ofInt_toInt]
      exact Takes.pure value _
    · have plain : ∀ tag ∈ unsignedTags, ¬ 0xe0 ≤ tag.1.val := by decide
      refine (takes_getTag tag.1).bind ?_
      rw [if_neg (unsignedTag_high member), doInteger,
        if_neg (plain tag member)]
      have read : Takes (readInteger (-2 ^ 63) (2 ^ 63 - 1) tag.1)
          ⟨tags, depth⟩ (toBytes tag.2 value.toInt.toNat) value.toInt.toNat
          ⟨tags, depth⟩ :=
        takes_readInteger_unsigned member fits (by lia) (by lia)
      have returned := read.returns Int64.ofInt
      rwa [back, Int64.ofInt_toInt] at returned
  · rename_i notNonnegative
    obtain ⟨tag, member, fits, rfl⟩ :=
      negative_cases (Int.not_le.mp notNonnegative) written
    have multibyte : ∀ tag ∈ signedTags,
        ¬ tag.1.val ≤ 0x7f ∧ ¬ 0xe0 ≤ tag.1.val := by
      decide
    refine (takes_getTag tag.1).bind ?_
    rw [if_neg (multibyte tag member).1, doInteger,
      if_neg (multibyte tag member).2]
    have read : Takes (readInteger (-2 ^ 63) (2 ^ 63 - 1) tag.1) ⟨tags, depth⟩
        (signedBytes tag.2 value.toInt) value.toInt ⟨tags, depth⟩ :=
      takes_readInteger_signed member (Int.not_le.mp notNonnegative) fits low
        (by lia)
    have returned := read.returns Int64.ofInt
    rwa [Int64.ofInt_toInt] at returned

/-! ## Booleans, strings and binaries -/

theorem takes_boolean {value : Bool} {bytes : Bytes}
    (written : writeToken (.boolean value) = .ok bytes) :
    Takes boolean ⟨tags + 1, depth⟩ bytes value ⟨tags, depth⟩ := by
  cases written
  refine takes_updateTagsRemaining.after ((takes_getTag _).before ?_)
  cases value with
  | false => exact Takes.pure false _
  | true => exact Takes.pure true _

theorem takes_string {value token : Bytes}
    (written : writeToken (.string value.length) = .ok token) :
    Takes string ⟨tags + 1, depth⟩ (token ++ value) value ⟨tags, depth⟩ := by
  obtain ⟨next, raw, rfl, -, count⟩ :=
    takes_countOf stringTable written .string
  exact takes_updateTagsRemaining.after ((takes_getTag next).bind
    ((count _).bind (takes_readRaw value)))

theorem takes_binary {value token : Bytes}
    (written : writeToken (.binary value.length) = .ok token) :
    Takes binary ⟨tags + 1, depth⟩ (token ++ value) value ⟨tags, depth⟩ := by
  have sized : writeFixed 0 0 binaryTags value.length = .ok token := written
  obtain ⟨next, raw, rfl, -, count⟩ := takes_countOf binaryTable sized .string
  exact takes_updateTagsRemaining.after ((takes_getTag next).bind
    ((count _).bind (takes_readRaw value)))

theorem takes_binaryInto {value token : Bytes}
    (written : writeToken (.binary value.length) = .ok token) :
    Takes (binaryInto value.length) ⟨tags + 1, depth⟩ (token ++ value) value
      ⟨tags, depth⟩ := by
  refine (takes_binary written).before ?_
  rw [if_neg (not_not.mpr rfl)]
  exact Takes.pure value _

/-! ## Arrays and objects -/

/-- What follows the count of an array must be long enough. -/
theorem startArray_run {count minElementSize : ℕ} {token following : Bytes}
    (written : writeToken (.array count) = .ok token)
    (room : minElementSize * count ≤ following.length)
    (fits : tags + count ≤ maxSize) (shallow : depth + 1 < maxReadDepth) :
    (startArray minElementSize).run (⟨tags, depth⟩, token ++ following) =
      .ok (count, (⟨tags + count, depth + 1⟩, following)) := by
  obtain ⟨next, raw, rfl, -, counted⟩ := takes_countOf arrayTable written .array
  have enough : ¬ (minElementSize ≠ 0 ∧
      following.length / minElementSize < count) := by
    rintro ⟨nonzero, short⟩
    rw [Nat.div_lt_iff_lt_mul (Nat.pos_of_ne_zero nonzero), Nat.mul_comm]
      at short
    exact Nat.not_lt.mpr room short
  have checked : (checkRoom count minElementSize).run
      (⟨tags + count, depth⟩, following) =
        .ok ((), (⟨tags + count, depth⟩, following)) := if_neg enough
  refine (run_bind_ok (takes_getTag next (raw ++ following))).trans ?_
  refine (run_bind_ok (counted _ following)).trans ?_
  refine (run_bind_ok (takes_announce fits following)).trans ?_
  refine (run_bind_ok checked).trans ?_
  exact run_bind_ok (takes_incrementDepth shallow following)

theorem takes_isArrayEnd :
    Takes (isArrayEnd 0) ⟨tags + 1, depth⟩ [] true ⟨tags, depth⟩ :=
  takes_updateTagsRemaining.before (Takes.pure true _)

/-- An object is entered while its values can be counted. -/
theorem Counted.takes_startObject {count : ℕ} {token : Bytes}
    (counted : Counted 0x80 16 objectTags count token)
    (room : count * 2 ≤ maxSize - tags) (shallow : depth + 1 ≠ maxReadDepth) :
    Takes startObject ⟨tags, depth⟩ token count
      ⟨tags + count * 2, depth + 1⟩ := by
  obtain ⟨next, raw, rfl, -, reads⟩ := Counted.takes objectTable counted .object
  have half : ¬ maxSize / 2 < count := by
    have bound : count * 2 ≤ maxSize - tags := room
    lia
  refine (takes_getTag next).bind ((reads _).before ?_)
  rw [if_neg half]
  refine Takes.after (fun _ => if_neg (Nat.not_lt.mpr room)) ?_
  exact Takes.after (fun _ => if_neg shallow) (Takes.pure count _)

theorem takes_startObject {count : ℕ} {token : Bytes}
    (written : writeToken (.object count) = .ok token)
    (fits : tags + count * 2 ≤ maxSize) (shallow : depth + 1 < maxReadDepth) :
    Takes startObject ⟨tags, depth⟩ token count
      ⟨tags + count * 2, depth + 1⟩ :=
  Counted.takes_startObject (writeFixed_cases written)
    (Nat.le_sub_of_add_le' fits) shallow.ne

/-- The entries with a number are looked up. -/
theorem takes_matchId (map : List KeyMap) {id : UInt32} {bytes : Bytes}
    (counted : Counted 0 0x80 unsignedTags id.toNat bytes) :
    Takes (matchKey map) ⟨tags + 1, depth⟩ bytes
      (map.findFinIdx? fun elem => elem.id = id) ⟨tags, depth⟩ := by
  refine takes_updateTagsRemaining.after ?_
  rcases unsigned_cases counted with
    ⟨next, same, below, rfl⟩ | ⟨tag, member, fits, rfl⟩
  · refine (takes_getTag next).before ?_
    rw [if_pos (same ▸ below)]
    simp only [same, UInt32.toNat_inj]
    exact Takes.pure _ _
  · have wide : (widthOf unsignedTags tag.1).isSome := by
      rw [unsignedTable.width tag member]
      rfl
    have bound := id.toNat_lt
    have read : Takes (readInteger 0 (2 ^ 32 - 1) tag.1) ⟨tags, depth⟩
        (toBytes tag.2 id.toNat) id.toNat ⟨tags, depth⟩ :=
      takes_readInteger_unsigned member fits (by lia) (by lia)
    refine (takes_getTag tag.1).bind ?_
    rw [if_neg (Nat.not_lt.mpr (unsignedTable.apart tag member)), if_pos wide]
    have returned := read.returns fun key =>
      map.findFinIdx? fun elem => (elem.id.toNat : ℤ) = key
    simpa only [Nat.cast_inj, UInt32.toNat_inj] using returned

/-- The entries with a name are looked up. -/
theorem takes_matchName (map : List KeyMap) {name token : Bytes}
    (counted : Counted 0xa0 32 stringTags name.length token) :
    Takes (matchKey map) ⟨tags + 1, depth⟩ (token ++ name)
      (map.findFinIdx? fun elem => elem.name = name) ⟨tags, depth⟩ := by
  obtain ⟨next, raw, rfl, tagged, reads⟩ :=
    Counted.takes stringTable counted .string
  have read : Takes (readString next) ⟨tags, depth⟩ (raw ++ name) name
      ⟨tags, depth⟩ :=
    (reads _).bind (takes_readRaw _)
  have apart : ∀ next : Byte, (0xa0 ≤ next.val ∧ next.val < 0xc0 ∨
      (widthOf stringTags next).isSome) →
      ¬ next.val < 0x80 ∧ ¬ (widthOf unsignedTags next).isSome := by
    decide +kernel
  refine takes_updateTagsRemaining.after ((takes_getTag next).bind ?_)
  rw [if_neg (apart next tagged).1, if_neg (apart next tagged).2,
    if_pos tagged]
  exact read.returns fun key => map.findFinIdx? fun elem => elem.name = key

/-- A written key is found in a map whose entries are all written
differently. -/
theorem takes_matchKey {integerKeys : Bool} {map : List KeyMap}
    (distinct : map.Pairwise fun left right => ¬ SameKey integerKeys left right)
    (index : Fin map.length) {bytes : Bytes}
    (written : writeKey integerKeys (map.get index) = .ok bytes) :
    Takes (matchKey map) ⟨tags + 1, depth⟩ bytes (some index)
      ⟨tags, depth⟩ := by
  have earlier : ∀ other (before : other < index),
      ¬ SameKey integerKeys (map.get other) (map.get index) :=
    fun other before => List.pairwise_iff_getElem.mp distinct other index
      other.2 index.2 before
  cases integerKeys with
  | true =>
      have found : (map.findFinIdx? fun elem =>
          elem.id = (map.get index).id) = some index := by
        rw [List.findFinIdx?_eq_some_iff]
        simpa [SameKey] using earlier
      have takes : Takes (matchKey map) ⟨tags + 1, depth⟩ bytes _
          ⟨tags, depth⟩ := takes_matchId map (writeFixed_cases written)
      rwa [found] at takes
  | false =>
      have found : (map.findFinIdx? fun elem =>
          elem.name = (map.get index).name) = some index := by
        rw [List.findFinIdx?_eq_some_iff]
        simpa [SameKey] using earlier
      obtain ⟨token, named, written⟩ := Outcome.bind_eq_ok.mp written
      cases written
      have takes : Takes (matchKey map) ⟨tags + 1, depth⟩
          (token ++ (map.get index).name) _ ⟨tags, depth⟩ :=
        takes_matchName map (writeFixed_cases named)
      rwa [found] at takes

theorem takes_key {integerKeys : Bool} {map : List KeyMap} (state : ℕ)
    (distinct : map.Pairwise fun left right => ¬ SameKey integerKeys left right)
    (index : Fin map.length) {bytes : Bytes}
    (written : writeKey integerKeys (map.get index) = .ok bytes) :
    Takes (key map (state + 1)) ⟨tags + 1, depth⟩ bytes
      (some (Fin.last state, index)) ⟨tags, depth⟩ :=
  (takes_matchKey distinct index written).before (Takes.pure _ _)

theorem takes_lastKey (map : List KeyMap) :
    Takes (key map 0) ⟨tags + 1, depth⟩ [] none ⟨tags, depth⟩ :=
  takes_updateTagsRemaining.before (Takes.pure none _)

end Reader

end XfoLws.Wire.Msgpack
