import XfoLws.Wire.MsgpackRoundTrip
import XfoLws.Wire.ReadValue

/-!
# What a style reads back

A style is a format with its writer: the text of a tree is what the calls of
`wire::writer` for it produce.  From what a style promises about single
values, the keys of an object and the ends of an array it follows that whole
objects and arrays are read back, whatever their targets held.
-/

namespace XfoLws.Wire

open Parsing
open Msgpack (KeyMap SameKey Tree maxReadDepth maxSize)

/-- At a depth the parser takes exactly this text, as this value. -/
def Format.Reads {β : Type} (format : Format) (depth : ℕ)
    (parser : Parser Byte format.Counts format.Thrown β) (text : Bytes)
    (value : β) : Prop :=
  ∀ counts rest, format.depth counts = depth → format.ready counts text →
    format.ends rest → parser.run (counts, text ++ rest) =
      .ok (value, (format.after counts, rest))

/-- A format, its reader and its writer. -/
structure Style extends ValueReader where
  walk : format.Walk
  text : Tree → Option Bytes
  /-- The entry of an object with this key and the text of its value. -/
  entry : KeyMap → Bytes → format.Entry
  names_entry (key : KeyMap) (value : Bytes) (other : KeyMap) :
    format.names (entry key value) other = true ↔
      SameKey format.integerKeys key other
  value_entry (key : KeyMap) (value : Bytes) :
    format.value (entry key value) = value
  object_fields {fields : List (KeyMap × Tree)} {bytes : Bytes} :
    text (.object fields) = some bytes →
      ∀ field ∈ fields, ∃ value, text field.2 = some value
  object_encodes {fields : List (KeyMap × Tree)} {bytes : Bytes} :
    text (.object fields) = some bytes →
      format.encodes (fields.filterMap fun field =>
        (text field.2).map (entry field.1)) bytes
  reads_boolean {value : Bool} {bytes : Bytes} (depth : ℕ) :
    text (.boolean value) = some bytes →
      format.Reads depth boolean bytes value
  reads_unsignedInteger {value : UInt64} {bytes : Bytes} (depth : ℕ) :
    text (.unsignedInteger value) = some bytes →
      format.Reads depth unsignedInteger bytes value
  reads_string {value bytes : Bytes} (depth : ℕ) :
    text (.string value) = some bytes → format.Reads depth string bytes value
  reads_binary {value bytes : Bytes} (depth : ℕ) :
    text (.binary value) = some bytes → format.Reads depth binary bytes value
  reads_binaryInto {value bytes : Bytes} (depth : ℕ) :
    text (.binary value) = some bytes →
      format.Reads depth (binaryInto value.length) bytes value
  /-- In an array that began at `outer` and is followed by `rest`, the reader
  stands before these elements. -/
  ArrayAt : (outer : format.Counts) → (rest : Bytes) → List Bytes →
    (more : Bool) → (count : ℕ) → format.Counts → Bytes → Prop
  array_items {items : List Tree} {bytes : Bytes} :
    text (.array items) = some bytes →
      ∀ item ∈ items, ∃ element, text item = some element
  array_length {items : List Tree} {bytes : Bytes} :
    text (.array items) = some bytes → items.length < bytes.length
  array_start {items : List Tree} {bytes rest : Bytes}
    {outer : format.Counts} {minElementSize : ℕ} :
    text (.array items) = some bytes → items.length ≤ maxSize →
      format.ready outer bytes → format.ends rest →
      format.depth outer + 1 ≠ maxReadDepth →
      (∀ item ∈ items, ∀ element, text item = some element →
        minElementSize ≤ element.length) →
      ∃ count inside source,
        (startArray minElementSize).run (outer, bytes ++ rest) =
          .ok (count, (inside, source)) ∧
        (count = 0 ∨ count = items.length) ∧
        count * minElementSize ≤ source.length ∧
        ArrayAt outer rest (items.filterMap text) (count ≠ 0) count inside
          source
  array_short {outer inside : format.Counts} {rest source : Bytes}
    {elements : List Bytes} {more : Bool} {count : ℕ} :
    ArrayAt outer rest elements more count inside source →
      elements.length ≤ source.length
  array_next {outer inside : format.Counts} {rest source element : Bytes}
    {elements : List Bytes} {more : Bool} {count : ℕ} :
    ArrayAt outer rest (element :: elements) more count inside source →
      ∃ before behind,
        (toValueReader.atEnd more count).run (inside, source) =
          .ok (false, (before, element ++ behind)) ∧
        format.depth before = format.depth outer + 1 ∧
        format.ready before element ∧ format.ends behind ∧
        element.length + behind.length ≤ source.length ∧
        ArrayAt outer rest elements
          (more && ValueReader.decrement count ≠ 0)
          (ValueReader.decrement count) (format.after before) behind
  array_last {outer inside : format.Counts} {rest source : Bytes}
    {more : Bool} {count : ℕ} :
    ArrayAt outer rest [] more count inside source → more = false ∧
      ∃ behind, (isArrayEnd count).run (inside, source) =
          .ok (true, behind) ∧
        endArray.run behind = .ok ((), (format.after outer, rest))
  depth_start : format.depth start = 0
  ready_start (bytes : Bytes) : format.ready start bytes
  ends_nil : format.ends []
  complete : checkComplete (format.after start) = true

namespace Format.Reads

variable {format : Format} {depth : ℕ} {β γ : Type} {text : Bytes}

theorem map {parser : Parser Byte format.Counts format.Thrown β} {value : β}
    (reads : format.Reads depth parser text value) (function : β → γ) :
    format.Reads depth (parser >>= fun result => pure (function result)) text
      (function value) := by
  intro counts rest level ready ends
  exact run_bind_ok (reads counts rest level ready ends)

theorem functor {parser : Parser Byte format.Counts format.Thrown β}
    {value : β} (reads : format.Reads depth parser text value)
    (function : β → γ) :
    format.Reads depth (function <$> parser) text (function value) := by
  rw [map_eq_pure_bind]
  exact reads.map function

/-- A parser that takes nothing may follow. -/
theorem bind {parser : Parser Byte format.Counts format.Thrown β} {value : β}
    (reads : format.Reads depth parser text value)
    {next : β → Parser Byte format.Counts format.Thrown γ} {result : γ}
    (returned : next value = pure result) :
    format.Reads depth (parser >>= next) text result := by
  intro counts rest level ready ends
  apply (run_bind_ok (reads counts rest level ready ends)).trans
  rw [returned]
  rfl

end Format.Reads

namespace Style

variable {style : Style} {depth : ℕ} {α : Type} {bytes : Bytes}

/-- What a reader takes at the start is the whole of its text. -/
theorem fromBytes_reads {parser : style.Reads α} {value : α}
    (reads : style.format.Reads 0 parser bytes value) :
    style.fromBytes parser bytes = some value := by
  have ran := reads style.start [] style.depth_start (style.ready_start bytes)
    style.ends_nil
  rw [List.append_nil] at ran
  rw [ValueReader.fromBytes, ran]
  exact if_pos style.complete

/-! ## Single values -/

theorem readUnsigned_reads {bound value : ℕ} (fits : value < bound)
    (within : bound ≤ 2 ^ 64)
    (written : style.text (.unsignedInteger (UInt64.ofNat value)) =
      some bytes) :
    style.format.Reads depth (style.readUnsigned bound) bytes value := by
  have same : (UInt64.ofNat value).toNat = value :=
    UInt64.toNat_ofNat_of_lt' (fits.trans_le within)
  apply (style.reads_unsignedInteger depth written).bind
  rw [same, if_neg (not_le.mpr fits)]

theorem readBlob_reads {width value : ℕ} (fits : value < 256 ^ width)
    (written : style.text (.binary (Msgpack.toBytes width value)) =
      some bytes) :
    style.format.Reads depth (style.readBlob width) bytes value := by
  have reads := style.reads_binaryInto depth written
  rw [Msgpack.length_toBytes] at reads
  apply reads.bind
  rw [Msgpack.ofBytes_toBytes fits]

theorem readEnum_reads {names : List (Bytes × α)} {name : Bytes × α}
    (found : names.find? (fun other => other.1 = name.1) = some name)
    (written : style.text (.string name.1) = some bytes) :
    style.format.Reads depth (style.readEnum names) bytes name.2 := by
  apply (style.reads_string depth written).bind
  rw [found]

/-! ## Objects -/

section Object

variable {n : ℕ} {β : Fin n → Type}
  {fields : ∀ index,
    Field style.format.Counts style.format.Thrown (β index)}
  {trees : Fin n → Option Tree} {values : ∀ index, β index}

/-- `wire_write::object`: the fields that are available, in their order. -/
def writeObject (keys : Fin n → KeyMap) (trees : Fin n → Option Tree) : Tree :=
  .object ((List.finRange n).filterMap fun index =>
    (trees index).map fun tree => (keys index, tree))

/-- The text of each field that is available. -/
def texts (style : Style) (trees : Fin n → Option Tree) (index : Fin n) :
    Option Bytes :=
  (trees index).bind style.text

/-- The entries that were written. -/
def entries (style : Style) (keys : Fin n → KeyMap)
    (trees : Fin n → Option Tree) : List style.format.Entry :=
  (List.finRange n).filterMap fun index =>
    (style.texts trees index).map (style.entry (keys index))

private theorem fieldOf_entry (distinct : style.format.DistinctKeys fields)
    (index : Fin n) (value : Bytes) :
    style.format.fieldOf (keyMap fields)
      (style.entry (fields index).key value) = some index := by
  have named : style.format.names (style.entry (fields index).key value)
      (keyMap fields index) = true :=
    (style.names_entry _ _ _).mpr (SameKey.refl _ _)
  cases found : style.format.fieldOf (keyMap fields)
      (style.entry (fields index).key value) with
  | none =>
      have missed := List.find?_eq_none.mp found index (List.mem_finRange index)
      exact absurd named missed
  | some other =>
      have also : style.format.names (style.entry (fields index).key value)
          (keyMap fields other) = true := by simpa using List.find?_some found
      rw [distinct index other ((style.names_entry _ _ _).mp also)]

private theorem known_entries (distinct : style.format.DistinctKeys fields)
    (trees : Fin n → Option Tree) :
    style.format.known (keyMap fields)
        (style.entries (keyMap fields) trees) =
      (List.finRange n).filterMap fun index =>
        (style.texts trees index).map fun text => (index, text) := by
  rw [Format.known, entries, List.filterMap_filterMap]
  apply List.filterMap_congr
  intro index _
  cases style.texts trees index with
  | none => rfl
  | some value =>
      show (style.format.fieldOf (keyMap fields)
        (style.entry (fields index).key value)).map _ = _
      rw [fieldOf_entry distinct, style.value_entry]
      rfl

private theorem valuesOf_others {index : Fin n} {others : List (Fin n)}
    (absent : index ∉ others) (given : Fin n → Option Bytes) :
    Format.valuesOf index (others.filterMap fun index =>
      (given index).map fun text => (index, text)) = [] := by
  rw [Format.valuesOf, List.map_eq_nil_iff, List.filter_eq_nil_iff]
  intro value member
  obtain ⟨other, listed, written⟩ := List.mem_filterMap.mp member
  obtain ⟨text, -, rfl⟩ := Option.map_eq_some_iff.mp written
  simpa using fun same : other = index => absent (same ▸ listed)

private theorem valuesOf_written (index : Fin n) (given : Fin n → Option Bytes) :
    Format.valuesOf index ((List.finRange n).filterMap fun index =>
      (given index).map fun text => (index, text)) = (given index).toList := by
  obtain ⟨before, after, split⟩ :=
    List.append_of_mem (List.mem_finRange index)
  have distinct := List.nodup_finRange n
  rw [split, List.nodup_middle, List.nodup_cons, List.mem_append,
    not_or] at distinct
  obtain ⟨⟨absentBefore, absentAfter⟩, -⟩ := distinct
  have append (left right : List (Fin n × Bytes)) :
      Format.valuesOf index (left ++ right) =
        Format.valuesOf index left ++ Format.valuesOf index right := by
    simp only [Format.valuesOf, List.filter_append, List.map_append]
  rw [split, List.filterMap_append, List.filterMap_cons, append,
    valuesOf_others absentBefore, List.nil_append]
  cases given index with
  | none => exact valuesOf_others absentAfter given
  | some text =>
      dsimp only [Option.map_some]
      rw [Format.valuesOf_cons, if_pos rfl, valuesOf_others absentAfter]
      rfl

private theorem entries_encode (keys : Fin n → KeyMap)
    (written : style.text (writeObject keys trees) = some bytes) :
    style.format.encodes (style.entries keys trees) bytes := by
  have same : style.entries keys trees =
      ((List.finRange n).filterMap fun index =>
        (trees index).map fun tree => (keys index, tree)).filterMap
          fun field => (style.text field.2).map (style.entry field.1) := by
    rw [entries, List.filterMap_filterMap]
    apply List.filterMap_congr
    intro index _
    rw [texts]
    cases trees index <;> rfl
  rw [same]
  exact style.object_encodes written

/-- What the text of a field stands for. -/
def decode (style : Style) (trees : Fin n → Option Tree)
    (values : ∀ index, β index) (index : Fin n) (text : Bytes) :
    Option (β index) :=
  if style.texts trees index = some text then some (values index) else none

private theorem object_reads_always (distinct : style.format.DistinctKeys fields)
    (shallow : depth + 1 ≠ maxReadDepth)
    (written : style.text (writeObject (keyMap fields) trees) = some bytes)
    (reads : ∀ index tree text, trees index = some tree →
      style.text tree = some text → ∀ target,
        style.format.Reads (depth + 1) ((fields index).unpack target) text
          (values index))
    (omitted : ∀ index, trees index = none →
      (fields index).omitted = some (values index))
    (target : ∀ index, β index) :
    style.format.Reads depth (object style.format.reader fields target) bytes
      values := by
  have unwritten (index : Fin n) (missing : style.texts trees index = none) :
      trees index = none := by
    cases given : trees index with
    | none => rfl
    | some tree =>
        obtain ⟨text, found⟩ := style.object_fields written
          ((fields index).key, tree) (by
            rw [List.mem_filterMap]
            exact ⟨index, List.mem_finRange index, by rw [given]; rfl⟩)
        rw [texts, given, Option.bind_some, found] at missing
        cases missing
  have valuesOf (index : Fin n) : Format.valuesOf index
      (style.format.known (keyMap fields)
        (style.entries (keyMap fields) trees)) =
      (style.texts trees index).toList := by
    rw [known_entries distinct, valuesOf_written]
  have decodes (index : Fin n) (text : Bytes)
      (member : text ∈ (style.texts trees index).toList) :
      style.decode trees values index text = some (values index) :=
    if_pos (Option.mem_toList.mp member)
  intro counts rest level ready ends
  subst level
  have readable : ∀ entry ∈ style.entries (keyMap fields) trees,
      style.format.Readable (style.format.depth counts + 1) fields
        (style.decode trees values) entry := by
    intro entry member
    obtain ⟨index, -, found⟩ := List.mem_filterMap.mp member
    obtain ⟨text, given, rfl⟩ := Option.map_eq_some_iff.mp found
    refine ⟨?_, ?_⟩
    · intro other named
      obtain rfl := distinct index other ((style.names_entry _ _ _).mp named)
      rw [style.value_entry, decode, if_pos given]
      obtain ⟨tree, tree_given, text_given⟩ := Option.bind_eq_some_iff.mp given
      intro inside target rest level ready ends
      exact reads index tree text tree_given text_given target inside rest
        level ready ends
    · intro unknown
      have named : style.format.names (style.entry (fields index).key text)
          (fields index).key = true :=
        (style.names_entry _ _ _).mpr (SameKey.refl _ _)
      exact absurd named (Bool.eq_false_iff.mp (unknown index))
  have fits : Format.Fits fields (style.decode trees values)
      (style.format.known (keyMap fields)
        (style.entries (keyMap fields) trees)) := by
    refine ⟨?_, ?_, ?_⟩
    · intro index required
      rw [valuesOf]
      cases given : style.texts trees index with
      | none =>
          rw [Field.isRequired, omitted index (unwritten index given)]
            at required
          cases required
      | some text => rfl
    · intro index
      rw [valuesOf]
      cases style.texts trees index with
      | none => exact Nat.zero_le 1
      | some text => exact le_rfl
    · intro index text member
      rw [valuesOf] at member
      rw [decodes index text member]
      exact Option.some_ne_none _
  obtain ⟨result, filled, ran⟩ := (style.walk.object_run distinct
    (entries_encode _ written) readable ready ends target).1 ⟨shallow, fits⟩
  have same : result = values := by
    refine filled.unique ⟨?_, ?_⟩
    · intro index text member
      rw [valuesOf] at member
      exact decodes index text member
    · intro index none
      rw [valuesOf, Option.toList_eq_nil_iff] at none
      exact omitted index (unwritten index none)
  rw [ran, same]

theorem distinctKeys {keys : Fin n → KeyMap} (named : keyMap fields = keys)
    (names : Function.Injective fun index => (keys index).name)
    (ids : Function.Injective fun index => (keys index).id) :
    style.format.DistinctKeys fields := by
  intro left right same
  have same : SameKey style.format.integerKeys (keys left) (keys right) := by
    rw [← named]
    exact same
  unfold SameKey at same
  split at same
  · exact ids same
  · exact names same

/-- An object is read back when each field that was written is, into what its
target held, and each that was not is reset to its value. -/
theorem object_reads {keys : Fin n → KeyMap} (named : keyMap fields = keys)
    (names : Function.Injective fun index => (keys index).name)
    (ids : Function.Injective fun index => (keys index).id)
    (shallow : depth + 1 ≠ maxReadDepth)
    (written : style.text (writeObject keys trees) = some bytes)
    {target : ∀ index, β index}
    (reads : ∀ index tree text, trees index = some tree →
      style.text tree = some text →
        style.format.Reads (depth + 1)
          ((fields index).unpack (target index)) text (values index))
    (omitted : ∀ index, trees index = none →
      (fields index).omitted = some (values index)) :
    style.format.Reads depth (object style.format.reader fields target) bytes
      values := by
  have distinct := distinctKeys named names ids
  subst keys
  rw [object_given]
  have given : style.format.DistinctKeys
      (fun index => (fields index).given (target index)) := distinct
  exact object_reads_always given shallow written
    (fun index tree text found text_found _ =>
      reads index tree text found text_found) omitted target

end Object

/-! ## Arrays -/

section Array

variable {outer inside : style.format.Counts} {rest source : Bytes}
  {more : Bool} {count : ℕ}

private theorem get_run (state : style.format.Counts × Bytes) :
    (get : style.Reads _).run state = .ok (state, state) := rfl

/-- The loop reads the elements behind those it has read. -/
theorem arrayTurns_run {minElementSize startBytes turns : ℕ}
    {read : style.Reads α} {element : α → Bytes} {values dest : List α}
    (at_ : style.ArrayAt outer rest (values.map element) more count inside
      source)
    (reads : ∀ value ∈ values, minElementSize ≤ (element value).length ∧
      style.format.Reads (style.format.depth outer + 1) read (element value)
        value)
    (enough : values.length < turns)
    (taken : minElementSize * dest.length + source.length ≤ startBytes) :
    ∃ behind,
      (style.arrayTurns minElementSize startBytes read turns more count
        dest).run (inside, source) = .ok (dest ++ values, behind) ∧
      style.endArray.run behind = .ok ((), (style.format.after outer, rest)) := by
  induction values generalizing turns more count inside source dest with
  | nil =>
      obtain ⟨turns, rfl⟩ := Nat.exists_eq_add_one_of_ne_zero enough.ne'
      obtain ⟨rfl, behind, ended, closed⟩ := style.array_last at_
      refine ⟨behind, ?_, closed⟩
      rw [ValueReader.arrayTurns, List.append_nil]
      exact run_bind_ok ended
  | cons value values induction =>
      obtain ⟨turns, rfl⟩ := Nat.exists_eq_add_one_of_ne_zero
        (Nat.ne_zero_of_lt enough)
      obtain ⟨⟨long, first⟩, others⟩ := List.forall_mem_cons.mp reads
      obtain ⟨before, behind, going, level, ready, ends, shorter, later⟩ :=
        style.array_next at_
      have ran := first before behind level ready ends
      have size : minElementSize * (dest.length + 1) ≤
          startBytes - behind.length := by
        rw [Nat.mul_succ]
        omega
      have kept : ¬ (startBytes - behind.length) / (dest.length + 1) <
          minElementSize := by
        rw [not_lt, Nat.le_div_iff_mul_le (Nat.succ_pos _)]
        exact size
      have counted : minElementSize * (dest ++ [value]).length +
          behind.length ≤ startBytes := by
        rw [List.length_append, List.length_singleton, Nat.mul_succ]
        omega
      obtain ⟨last, looped, closed⟩ := induction later others
        (Nat.lt_of_succ_lt_succ enough) counted
      refine ⟨last, ?_, closed⟩
      rw [ValueReader.arrayTurns]
      refine (run_bind_ok going).trans ((run_bind_ok ran).trans
        ((run_bind_ok (get_run _)).trans ?_))
      dsimp only
      rw [if_neg kept, looped, List.append_assoc]
      rfl

/-- The text of an element. -/
def element (style : Style) (tree : α → Tree) (value : α) : Bytes :=
  (style.text (tree value)).getD []

private theorem text_element {tree : α → Tree} {values : List α} {value : α}
    (written : style.text (.array (values.map tree)) = some bytes)
    (member : value ∈ values) :
    style.text (tree value) = some (style.element tree value) := by
  obtain ⟨text, given⟩ :=
    style.array_items written _ (List.mem_map_of_mem member)
  rw [element, given]
  rfl

private theorem elements_map {tree : α → Tree} {values : List α}
    (written : style.text (.array (values.map tree)) = some bytes) :
    (values.map tree).filterMap style.text =
      values.map (style.element tree) := by
  rw [List.filterMap_map, ← List.filterMap_eq_map]
  apply List.filterMap_congr
  intro value member
  exact text_element written member

theorem readArray_reads {minElementSize : ℕ} {read : style.Reads α}
    {tree : α → Tree} {values : List α} (shallow : depth + 1 ≠ maxReadDepth)
    (written : style.text (.array (values.map tree)) = some bytes)
    (counted : values.length ≤ maxSize)
    (reads : ∀ value ∈ values, ∀ element,
      style.text (tree value) = some element →
      minElementSize ≤ element.length ∧
        style.format.Reads (depth + 1) read element value) :
    style.format.Reads depth (style.readArray minElementSize read) bytes
      values := by
  intro counts rest level ready ends
  subst level
  have short : ∀ item ∈ values.map tree, ∀ element,
      style.text item = some element → minElementSize ≤ element.length := by
    intro item member element given
    obtain ⟨value, listed, rfl⟩ := List.mem_map.mp member
    exact (reads value listed element given).1
  obtain ⟨count, inside, source, started, -, room, at_⟩ :=
    style.array_start written (by rwa [List.length_map]) ready ends shallow
      short
  rw [elements_map written] at at_
  have each : ∀ value ∈ values,
      minElementSize ≤ (style.element tree value).length ∧
        style.format.Reads (style.format.depth counts + 1) read
          (style.element tree value) value := by
    intro value member
    exact reads value member _ (text_element written member)
  have enough : values.length < source.length + 1 := by
    have within := style.array_short at_
    rw [List.length_map] at within
    exact Nat.lt_succ_of_le within
  obtain ⟨behind, looped, closed⟩ := arrayTurns_run at_ each enough
    (by rw [List.length_nil, Nat.mul_zero, Nat.zero_add])
  have fits : ¬ (minElementSize ≠ 0 ∧
      source.length / minElementSize < count) := by
    rintro ⟨some, less⟩
    rw [Nat.div_lt_iff_lt_mul (Nat.pos_of_ne_zero some)] at less
    exact absurd room (not_le.mpr less)
  rw [ValueReader.readArray]
  refine (run_bind_ok started).trans ((run_bind_ok (get_run _)).trans ?_)
  dsimp only
  rw [if_neg fits]
  exact (run_bind_ok looped).trans (run_bind_ok closed)

theorem readPair_reads {read : style.Reads α} {tree : α → Tree}
    {first second : α} (shallow : depth + 1 ≠ maxReadDepth)
    (written : style.text (.array [tree first, tree second]) = some bytes)
    (reads : ∀ value ∈ [first, second], ∀ element,
      style.text (tree value) = some element →
        style.format.Reads (depth + 1) read element value) :
    style.format.Reads depth (style.readPair read) bytes (first, second) := by
  intro counts rest level ready ends
  subst level
  have listed : style.text (.array ([first, second].map tree)) = some bytes :=
    written
  obtain ⟨count, inside, source, started, counted, -, at_⟩ :=
    style.array_start written (show 2 ≤ maxSize by decide) ready ends shallow
      fun _ _ _ _ => Nat.zero_le _
  have each (value : α) (member : value ∈ [first, second]) :=
    reads value member _ (text_element listed member)
  have here := each first List.mem_cons_self
  have there := each second (List.mem_cons_of_mem _ List.mem_cons_self)
  rw [show [tree first, tree second] = [first, second].map tree from rfl,
    elements_map listed] at at_
  have json : (decide (count ≠ 0)) = !decide (count = 0) := decide_not
  have more : (decide (count ≠ 0) &&
      decide (ValueReader.decrement count ≠ 0)) = !decide (count = 0) := by
    rcases counted with rfl | rfl <;> rfl
  have sized : ¬ ((!decide (count = 0)) = true ∧ count ≠ 2) := by
    rcases counted with rfl | rfl <;> simp
  obtain ⟨before, middle, going, level, ready, ends, -, at_⟩ :=
    style.array_next at_
  rw [json] at going
  obtain ⟨second_before, last, second_going, second_level, second_ready,
    second_ends, -, at_⟩ := style.array_next at_
  rw [more] at second_going
  obtain ⟨-, behind, ended, closed⟩ := style.array_last at_
  have one : (style.readElement (decide (count = 0)) count read).run
      (inside, source) = .ok (first, (style.format.after before, middle)) :=
    (run_bind_ok going).trans (here before middle level ready ends)
  have two : (style.readElement (decide (count = 0))
      (ValueReader.decrement count) read).run
      (style.format.after before, middle) =
        .ok (second, (style.format.after second_before, last)) :=
    (run_bind_ok second_going).trans
      (there second_before last second_level second_ready second_ends)
  rw [ValueReader.readPair]
  apply (run_bind_ok started).trans
  dsimp only
  rw [if_neg sized]
  refine (run_bind_ok one).trans ((run_bind_ok two).trans ?_)
  exact (run_bind_ok ended).trans (run_bind_ok closed)

end Array

end Style

end XfoLws.Wire
