import XfoLws.Wire.MsgpackObjects
import XfoLws.Wire.Styles

/-!
# Msgpack as a style

What `msgpack_writer` puts out for a tree, entry by entry and element by
element, and where `msgpack_reader` stands between them.  The values that are
counted at a depth stay below the largest size, as in the round trip of whole
trees.
-/

namespace XfoLws.Wire.Msgpack

open Parsing Reader

instance (integerKeys : Bool) (left right : KeyMap) :
    Decidable (SameKey integerKeys left right) :=
  inferInstanceAs (Decidable
    (if integerKeys then left.id = right.id else left.name = right.name))

/-! ## The texts -/

def text (integerKeys : Bool) (tree : Tree) : Option Bytes :=
  (toMsgpack integerKeys tree).toOption

/-- A written key; a name of 2^32 bytes is none. -/
def keyBytes (integerKeys : Bool) (key : KeyMap) : Bytes :=
  (writeKey integerKeys key).toOption.getD []

def entryText (integerKeys : Bool) (entry : KeyMap × Bytes) : Bytes :=
  keyBytes integerKeys entry.1 ++ entry.2

/-- The values that are missing can be counted at this depth. -/
structure Countable (counts : Counts) : Prop where
  missing : 0 < counts.tagsRemaining
  bounded : counts.tagsRemaining ≤ counts.depth * 2 ^ 33 + 1
  shallow : counts.depth < maxReadDepth

/-- The entries of an object, each of whose keys can be written. -/
structure Encodes (integerKeys : Bool) (entries : List (KeyMap × Bytes))
    (bytes : Bytes) : Prop where
  keys : ∀ entry ∈ entries,
    writeKey integerKeys entry.1 = .ok (keyBytes integerKeys entry.1)
  text : ∃ head, writeToken (.object entries.length) = .ok head ∧
    bytes = head ++ entries.flatMap (entryText integerKeys)

/-- Msgpack, as it is written; nothing is skipped. -/
def writtenFormat (integerKeys : Bool) : Format where
  Counts := Counts
  Thrown := Thrown
  reader := objectReader
  depth counts := counts.depth
  ready counts _ := Countable counts
  after counts := ⟨counts.tagsRemaining - 1, counts.depth⟩
  ends _ := True
  integerKeys := integerKeys
  Entry := KeyMap × Bytes
  names entry key := SameKey integerKeys entry.1 key
  value entry := entry.2
  scalar _ := False
  encodes := Encodes integerKeys

section Texts

variable {integerKeys : Bool} {bytes : Bytes}

theorem text_eq_some {tree : Tree} :
    text integerKeys tree = some bytes ↔
      treeBytes integerKeys tree = .ok bytes := by
  rw [text, toMsgpack_eq]
  cases treeBytes integerKeys tree with
  | error failure => exact iff_of_false nofun nofun
  | ok written =>
      refine ⟨?_, ?_⟩ <;>
      · intro same
        cases same
        rfl

theorem writeKey_keyBytes {key : KeyMap}
    (written : writeKey integerKeys key = .ok bytes) :
    keyBytes integerKeys key = bytes := by
  rw [keyBytes, written]
  rfl

theorem writeToken_ne_nil {token : Token}
    (written : writeToken token = .ok bytes) : bytes ≠ [] := by
  cases token with
  | boolean value =>
      cases written
      exact List.cons_ne_nil _ _
  | binary count =>
      obtain ⟨tag, -, -, rfl⟩ := writeSized_cases written
      exact List.cons_ne_nil _ _
  | unsigned value => exact head_ne_nil (writeFixed_cases written)
  | string count => exact head_ne_nil (writeFixed_cases written)
  | array count => exact head_ne_nil (writeFixed_cases written)
  | object count => exact head_ne_nil (writeFixed_cases written)

theorem writeInteger_ne_nil {value : ℤ}
    (written : writeInteger value = .ok bytes) : bytes ≠ [] := by
  unfold writeInteger at written
  split at written
  · exact writeToken_ne_nil written
  · unfold writeNegative at written
    split at written
    · cases written
      exact List.cons_ne_nil _ _
    · split at written
      · cases written
      · cases written
        exact List.cons_ne_nil _ _

theorem treeBytes_ne_nil {tree : Tree}
    (written : treeBytes integerKeys tree = .ok bytes) : bytes ≠ [] := by
  cases tree with
  | boolean value => exact writeToken_ne_nil (by rwa [treeBytes] at written)
  | integer value => exact writeInteger_ne_nil (by rwa [treeBytes] at written)
  | unsignedInteger value =>
      exact writeToken_ne_nil (by rwa [treeBytes] at written)
  | string value =>
      rw [treeBytes] at written
      obtain ⟨token, head, written⟩ := Outcome.bind_eq_ok.mp written
      cases written
      exact List.append_ne_nil_of_left_ne_nil (writeToken_ne_nil head) _
  | binary value =>
      rw [treeBytes] at written
      obtain ⟨token, head, written⟩ := Outcome.bind_eq_ok.mp written
      cases written
      exact List.append_ne_nil_of_left_ne_nil (writeToken_ne_nil head) _
  | array items =>
      rw [treeBytes] at written
      obtain ⟨token, head, written⟩ := Outcome.bind_eq_ok.mp written
      obtain ⟨rest, -, written⟩ := Outcome.bind_eq_ok.mp written
      cases written
      exact List.append_ne_nil_of_left_ne_nil (writeToken_ne_nil head) _
  | object fields =>
      rw [treeBytes] at written
      obtain ⟨token, head, written⟩ := Outcome.bind_eq_ok.mp written
      obtain ⟨rest, -, written⟩ := Outcome.bind_eq_ok.mp written
      cases written
      exact List.append_ne_nil_of_left_ne_nil (writeToken_ne_nil head) _

theorem elementsBytes_eq {items : List Tree}
    (written : elementsBytes integerKeys items = .ok bytes) :
    (∀ item ∈ items, ∃ element, text integerKeys item = some element) ∧
      bytes = (items.filterMap (text integerKeys)).flatten := by
  induction items generalizing bytes with
  | nil =>
      cases written
      exact ⟨nofun, rfl⟩
  | cons item items induction =>
      rw [elementsBytes] at written
      obtain ⟨first, head, written⟩ := Outcome.bind_eq_ok.mp written
      obtain ⟨rest, tail, written⟩ := Outcome.bind_eq_ok.mp written
      cases written
      obtain ⟨each, rfl⟩ := induction tail
      have given := text_eq_some.mpr head
      refine ⟨List.forall_mem_cons.mpr ⟨⟨first, given⟩, each⟩, ?_⟩
      rw [List.filterMap_cons, given]
      rfl

/-- The fields with the texts of their values. -/
def fieldEntries (integerKeys : Bool) (fields : List (KeyMap × Tree)) :
    List (KeyMap × Bytes) :=
  fields.filterMap fun field =>
    (text integerKeys field.2).map fun value => (field.1, value)

theorem entriesBytes_eq {fields : List (KeyMap × Tree)}
    (written : entriesBytes integerKeys fields = .ok bytes) :
    (∀ field ∈ fields, ∃ value, text integerKeys field.2 = some value) ∧
      (∀ entry ∈ fieldEntries integerKeys fields,
        writeKey integerKeys entry.1 = .ok (keyBytes integerKeys entry.1)) ∧
      (fieldEntries integerKeys fields).length = fields.length ∧
      bytes = (fieldEntries integerKeys fields).flatMap
        (entryText integerKeys) := by
  induction fields generalizing bytes with
  | nil =>
      cases written
      exact ⟨nofun, nofun, rfl, rfl⟩
  | cons field fields induction =>
      rw [entriesBytes] at written
      obtain ⟨first, head, written⟩ := Outcome.bind_eq_ok.mp written
      obtain ⟨rest, tail, written⟩ := Outcome.bind_eq_ok.mp written
      cases written
      obtain ⟨key, value⟩ := field
      rw [entryBytes] at head
      obtain ⟨named, keyed, head⟩ := Outcome.bind_eq_ok.mp head
      obtain ⟨contents, valued, head⟩ := Outcome.bind_eq_ok.mp head
      cases head
      obtain ⟨each, keys, length, rfl⟩ := induction tail
      have given := text_eq_some.mpr valued
      have same := writeKey_keyBytes keyed
      have split : fieldEntries integerKeys ((key, value) :: fields) =
          (key, contents) :: fieldEntries integerKeys fields := by
        rw [fieldEntries, List.filterMap_cons, given]
        rfl
      rw [split]
      refine ⟨List.forall_mem_cons.mpr ⟨⟨contents, given⟩, each⟩,
        List.forall_mem_cons.mpr ⟨same.symm ▸ keyed, keys⟩, ?_, ?_⟩
      · rw [List.length_cons, List.length_cons, length]
      · rw [List.flatMap_cons, entryText, same]

end Texts

namespace Countable

variable {counts : Counts}

/-- An array or an object of fewer than 2^32 elements is entered. -/
theorem enter (countable : Countable counts)
    (shallow : counts.depth + 1 ≠ maxReadDepth) {values : ℕ}
    (few : values ≤ 2 ^ 33) :
    Countable ⟨counts.tagsRemaining + values, counts.depth + 1⟩ := by
  obtain ⟨missing, bounded, below⟩ := countable
  refine ⟨?_, ?_, ?_⟩ <;> dsimp only <;> lia

theorem room (countable : Countable counts) {values : ℕ}
    (few : values ≤ 2 ^ 33) :
    counts.tagsRemaining + values ≤ maxSize := by
  obtain ⟨missing, bounded, below⟩ := countable
  unfold maxReadDepth at below
  unfold maxSize
  lia

end Countable

/-! ## Objects -/

section Objects

variable {integerKeys : Bool} {n : ℕ} {map : Fin n → KeyMap}

theorem exists_entryKey {key : KeyMap} {bytes : Bytes}
    (written : writeKey integerKeys key = .ok bytes) :
    ∃ found : EntryKey integerKeys, found.bytes = bytes ∧
      ∀ other, found.names other = true ↔ SameKey integerKeys key other := by
  cases integerKeys with
  | true =>
      refine ⟨.id bytes key.id (writeFixed_cases written), rfl, ?_⟩
      intro other
      exact decide_eq_true_iff.trans eq_comm
  | false =>
      obtain ⟨token, named, written⟩ := Outcome.bind_eq_ok.mp written
      cases written
      refine ⟨.name token key.name (writeFixed_cases named), rfl, ?_⟩
      intro other
      exact decide_eq_true_iff.trans eq_comm

theorem keyBytes_ne_nil {key : KeyMap} {bytes : Bytes}
    (written : writeKey integerKeys key = .ok bytes) : bytes ≠ [] := by
  obtain ⟨found, rfl, -⟩ := exists_entryKey written
  exact found.bytes_ne_nil

/-- The entries, their number and the values that are still counted. -/
structure WrittenAt (integerKeys : Bool) (outer : Counts) (rest : Bytes)
    (entries : List (KeyMap × Bytes)) (state : ℕ) (inside : Counts)
    (source : Bytes) : Prop where
  countable : Countable outer
  shallow : outer.depth + 1 ≠ maxReadDepth
  few : entries.length < 2 ^ 32
  keys : ∀ entry ∈ entries,
    writeKey integerKeys entry.1 = .ok (keyBytes integerKeys entry.1)
  state : state = entries.length
  inside : inside =
    ⟨outer.tagsRemaining + entries.length * 2, outer.depth + 1⟩
  source : source = entries.flatMap (entryText integerKeys) ++ rest

section WrittenAt

variable {outer inside : Counts} {rest source : Bytes} {state : ℕ}
  {entry : KeyMap × Bytes} {entries : List (KeyMap × Bytes)}

theorem startObject_written {text : Bytes}
    (encodes : Encodes integerKeys entries text) (countable : Countable outer)
    (shallow : outer.depth + 1 ≠ maxReadDepth) (rest : Bytes) :
    ∃ state inside source,
      startObject.run (outer, text ++ rest) =
        .ok (state, (inside, source)) ∧
      WrittenAt integerKeys outer rest entries state inside source := by
  obtain ⟨keys, head, written, rfl⟩ := encodes
  have few : entries.length < 2 ^ 32 := writeToken_isOk.mp ⟨head, written⟩
  have below : outer.depth + 1 < maxReadDepth :=
    lt_of_le_of_ne countable.shallow shallow
  have started : Takes startObject outer head entries.length
      ⟨outer.tagsRemaining + entries.length * 2, outer.depth + 1⟩ :=
    takes_startObject written (countable.room (by lia)) below
  refine ⟨_, _, entries.flatMap (entryText integerKeys) ++ rest, ?_,
    countable, shallow, few, keys, rfl, rfl, rfl⟩
  rw [List.append_assoc]
  exact started _

namespace WrittenAt

theorem short
    (standing : WrittenAt integerKeys outer rest entries state inside source) :
    entries.length ≤ source.length := by
  obtain ⟨-, -, -, keys, -, -, rfl⟩ := standing
  have texts : entries.length ≤
      (entries.flatMap (entryText integerKeys)).length := by
    induction entries with
    | nil => exact le_rfl
    | cons entry entries induction =>
        obtain ⟨first, others⟩ := List.forall_mem_cons.mp keys
        have some := List.length_pos_of_ne_nil (keyBytes_ne_nil first)
        have later := induction others
        rw [List.flatMap_cons, List.length_append, List.length_cons,
          entryText, List.length_append]
        lia
  rw [List.length_append]
  exact texts.trans (Nat.le_add_right _ _)

theorem last
    (standing : WrittenAt integerKeys outer rest [] state inside source) :
    ∃ behind, ∀ {n : ℕ} (map : Fin n → KeyMap),
      (objectReader.key map state).run (inside, source) =
        .ok (none, (behind, rest)) ∧
      objectReader.endObject.run (behind, rest) =
        .ok ((), (⟨outer.tagsRemaining - 1, outer.depth⟩, rest)) := by
  obtain ⟨countable, -, -, -, rfl, rfl, same⟩ := standing
  obtain rfl : source = rest := same
  obtain ⟨tags, depth⟩ := outer
  obtain ⟨tags, rfl⟩ :=
    Nat.exists_eq_add_one_of_ne_zero countable.missing.ne'
  refine ⟨⟨tags, depth + 1⟩, fun map => ⟨?_, rfl⟩⟩
  exact key_run map (takes_lastKey (List.ofFn map) source)

/-- Behind the first entry the others stand. -/
theorem next
    (standing : WrittenAt integerKeys outer rest (entry :: entries) state
      inside source) :
    WrittenAt integerKeys outer rest entries entries.length
      ⟨outer.tagsRemaining + entries.length * 2, outer.depth + 1⟩
      (entries.flatMap (entryText integerKeys) ++ rest) :=
  ⟨standing.countable, standing.shallow,
    Nat.lt_of_succ_lt standing.few,
    fun other member => standing.keys other (List.mem_cons_of_mem _ member),
    rfl, rfl, rfl⟩

theorem value_countable
    (standing : WrittenAt integerKeys outer rest (entry :: entries) state
      inside source) :
    Countable ⟨outer.tagsRemaining + (entries.length * 2 + 1),
      outer.depth + 1⟩ := by
  have few := standing.few
  rw [List.length_cons] at few
  exact standing.countable.enter standing.shallow (by lia)

theorem found
    (standing : WrittenAt integerKeys outer rest (entry :: entries) state
      inside source)
    {index : Fin n} (named : SameKey integerKeys entry.1 (map index))
    (only : ∀ other, SameKey integerKeys entry.1 (map other) →
      other = index) :
    (objectReader.key map state).run (inside, source) =
      .ok (some (entries.length, index),
        (⟨outer.tagsRemaining + (entries.length * 2 + 1), outer.depth + 1⟩,
          entry.2 ++ (entries.flatMap (entryText integerKeys) ++ rest))) := by
  obtain ⟨-, -, -, keys, rfl, rfl, rfl⟩ := standing
  obtain ⟨key, same, names⟩ := exists_entryKey (keys entry List.mem_cons_self)
  have matched := @takes_entryKey integerKeys
    (outer.tagsRemaining + (entries.length * 2 + 1)) (outer.depth + 1)
    (List.ofFn map) key
    (entry.2 ++ (entries.flatMap (entryText integerKeys) ++ rest))
  rw [findFinIdx_ofFn ((names _).mpr named)
    fun other also => only other ((names _).mp also), same] at matched
  have tags : outer.tagsRemaining + (entry :: entries).length * 2 =
      outer.tagsRemaining + (entries.length * 2 + 1) + 1 := by
    rw [List.length_cons]
    lia
  rw [tags, List.flatMap_cons, entryText, List.append_assoc,
    List.append_assoc]
  have ran : (Reader.key (List.ofFn map) (entries.length + 1)).run
      (⟨outer.tagsRemaining + (entries.length * 2 + 1) + 1, outer.depth + 1⟩,
        keyBytes integerKeys entry.1 ++ (entry.2 ++
          (entries.flatMap (entryText integerKeys) ++ rest))) =
      .ok (some (Fin.last entries.length, index.cast List.length_ofFn.symm),
        (⟨outer.tagsRemaining + (entries.length * 2 + 1), outer.depth + 1⟩,
          entry.2 ++ (entries.flatMap (entryText integerKeys) ++ rest))) :=
    run_bind_ok matched
  exact key_run map ran

end WrittenAt

end WrittenAt

theorem SameKey.euclidean {key left right : KeyMap}
    (first : SameKey integerKeys key left)
    (second : SameKey integerKeys key right) :
    SameKey integerKeys left right := by
  cases integerKeys with
  | true => exact first.symm.trans second
  | false => exact first.symm.trans second

/-- Between the values of an object that was written. -/
def writtenWalk (integerKeys : Bool) : (writtenFormat integerKeys).Walk where
  At := WrittenAt integerKeys
  same first second :=
    SameKey.euclidean (of_decide_eq_true first) (of_decide_eq_true second)
  start encodes ready _ shallow :=
    startObject_written encodes ready shallow _
  tooDeep := by
    rintro entries text outer rest ⟨-, head, written, rfl⟩ - deep
    rw [List.append_assoc]
    exact startObject_unfit (writeFixed_cases written)
      (fun fits => fits.2 deep) _
  short := WrittenAt.short
  last := WrittenAt.last
  found standing named only :=
    ⟨_, _, _, standing.found (of_decide_eq_true named)
      fun other also => only other (decide_eq_true also), rfl,
      standing.value_countable, trivial, standing.next⟩
  skipped _ _ scalar := scalar.elim

end Objects

/-! ## Arrays -/

section Arrays

variable {integerKeys : Bool}

/-- The elements, their number and the values that are still counted. -/
structure ElementsAt (outer : Counts) (rest : Bytes) (elements : List Bytes)
    (more : Bool) (count : ℕ) (inside : Counts) (source : Bytes) : Prop where
  countable : Countable outer
  shallow : outer.depth + 1 ≠ maxReadDepth
  few : elements.length < 2 ^ 32
  some : ∀ element ∈ elements, element ≠ []
  counted : count = elements.length
  continues : more = decide (count ≠ 0)
  inside : inside = ⟨outer.tagsRemaining + count, outer.depth + 1⟩
  source : source = elements.flatten ++ rest

section ElementsAt

variable {outer inside : Counts} {rest source element : Bytes}
  {elements : List Bytes} {more : Bool} {count : ℕ}

theorem startArray_written {items : List Tree} {bytes : Bytes}
    {minElementSize : ℕ}
    (written : text integerKeys (.array items) = some bytes)
    (countable : Countable outer) (shallow : outer.depth + 1 ≠ maxReadDepth)
    (long : ∀ item ∈ items, ∀ element, text integerKeys item = some element →
      minElementSize ≤ element.length) (rest : Bytes) :
    ∃ source, (startArray minElementSize).run (outer, bytes ++ rest) =
        .ok (items.length, (⟨outer.tagsRemaining + items.length,
          outer.depth + 1⟩, source)) ∧
      items.length * minElementSize ≤ source.length ∧
      ElementsAt outer rest (items.filterMap (text integerKeys))
        (items.length ≠ 0) items.length
        ⟨outer.tagsRemaining + items.length, outer.depth + 1⟩ source := by
  have written := text_eq_some.mp written
  rw [treeBytes] at written
  obtain ⟨token, head, written⟩ := Outcome.bind_eq_ok.mp written
  obtain ⟨body, tail, written⟩ := Outcome.bind_eq_ok.mp written
  cases written
  have few : items.length < 2 ^ 32 := writeToken_isOk.mp ⟨token, head⟩
  have room : minElementSize * items.length ≤ body.length :=
    elements_room (fun item member element given =>
      long item member element (text_eq_some.mpr given)) tail
  obtain ⟨each, rfl⟩ := elementsBytes_eq tail
  have counted : (items.filterMap (text integerKeys)).length =
      items.length := by
    apply List.filterMap_length_eq_length.mpr
    intro item member
    exact Option.isSome_iff_exists.mpr (each item member)
  refine ⟨(items.filterMap (text integerKeys)).flatten ++ rest, ?_, ?_,
    countable, shallow, counted.symm ▸ few, ?_, counted.symm, rfl, rfl, rfl⟩
  · rw [List.append_assoc]
    refine startArray_run head ?_ (countable.room (by lia))
      (lt_of_le_of_ne countable.shallow shallow)
    rw [List.length_append]
    exact room.trans (Nat.le_add_right _ _)
  · rw [Nat.mul_comm, List.length_append]
    exact room.trans (Nat.le_add_right _ _)
  · intro element member
    obtain ⟨item, -, given⟩ := List.mem_filterMap.mp member
    exact treeBytes_ne_nil (text_eq_some.mp given)

namespace ElementsAt

theorem short
    (standing : ElementsAt outer rest elements more count inside source) :
    elements.length ≤ source.length := by
  obtain ⟨-, -, -, some, -, -, -, rfl⟩ := standing
  have texts : elements.length ≤ elements.flatten.length := by
    induction elements with
    | nil => exact le_rfl
    | cons element elements induction =>
        obtain ⟨first, others⟩ := List.forall_mem_cons.mp some
        have positive := List.length_pos_of_ne_nil first
        have later := induction others
        rw [List.flatten_cons, List.length_append, List.length_cons]
        lia
  rw [List.length_append]
  exact texts.trans (Nat.le_add_right _ _)

end ElementsAt

end ElementsAt

end Arrays

/-! ## The style -/

/-- The functions of `msgpack_reader`. -/
def valueReader (integerKeys : Bool) : ValueReader where
  format := writtenFormat integerKeys
  boolean := Reader.boolean
  unsignedInteger := Reader.unsignedInteger
  string := Reader.string
  binary := Reader.binary
  binaryInto := Reader.binaryInto
  startArray := Reader.startArray
  isArrayEnd := Reader.isArrayEnd
  endArray := Reader.endArray
  start := .start
  checkComplete counts := (Reader.checkComplete counts).toBool

section Values

variable {integerKeys : Bool}

/-- A value that is counted is read wherever one is missing. -/
theorem reads_of_takes {β : Type} {parser : Reader β} {bytes : Bytes}
    {value : β} (takes : ∀ tags depth,
      Takes parser ⟨tags + 1, depth⟩ bytes value ⟨tags, depth⟩) (depth : ℕ) :
    (writtenFormat integerKeys).Reads depth parser bytes value := by
  rintro ⟨tags, inside⟩ rest - countable -
  obtain ⟨tags, rfl⟩ :=
    Nat.exists_eq_add_one_of_ne_zero countable.missing.ne'
  exact takes tags inside rest

section ElementsAt

variable {outer inside : Counts} {rest source element : Bytes}
  {elements : List Bytes} {more : Bool} {count : ℕ}

theorem ElementsAt.next
    (standing : ElementsAt outer rest (element :: elements) more count inside
      source) :
    ∃ before behind,
      ((valueReader integerKeys).atEnd more count).run (inside, source) =
        .ok (false, (before, element ++ behind)) ∧
      before.depth = outer.depth + 1 ∧ Countable before ∧
      element.length + behind.length ≤ source.length ∧
      ElementsAt outer rest elements
        (more && ValueReader.decrement count ≠ 0)
        (ValueReader.decrement count)
        ⟨before.tagsRemaining - 1, before.depth⟩ behind := by
  obtain ⟨countable, shallow, few, some, rfl, rfl, rfl, rfl⟩ := standing
  have fewer : elements.length + 1 < 2 ^ 32 := few
  have goes : decide ((element :: elements).length ≠ 0) = true := rfl
  have one : ValueReader.decrement (element :: elements).length =
      elements.length := rfl
  refine ⟨⟨outer.tagsRemaining + (elements.length + 1), outer.depth + 1⟩,
    elements.flatten ++ rest, ?_, rfl, countable.enter shallow (by lia), ?_,
    countable, shallow, Nat.lt_of_succ_lt fewer,
    fun other member => some other (List.mem_cons_of_mem _ member), one,
    ?_, ?_, rfl⟩
  · rw [goes, List.flatten_cons, List.append_assoc]
    rfl
  · rw [List.flatten_cons, List.append_assoc]
    exact List.length_append.ge
  · rw [goes, one, Bool.true_and]
  · rw [one]
    rfl

theorem ElementsAt.last
    (standing : ElementsAt outer rest [] more count inside source) :
    more = false ∧ ∃ behind,
      (isArrayEnd count).run (inside, source) = .ok (true, behind) ∧
      endArray.run behind =
        .ok ((), (⟨outer.tagsRemaining - 1, outer.depth⟩, rest)) := by
  obtain ⟨countable, -, -, -, rfl, rfl, rfl, same⟩ := standing
  obtain rfl : source = rest := same
  obtain ⟨tags, depth⟩ := outer
  obtain ⟨tags, rfl⟩ :=
    Nat.exists_eq_add_one_of_ne_zero countable.missing.ne'
  exact ⟨rfl, (⟨tags, depth + 1⟩, source), takes_isArrayEnd source, rfl⟩

end ElementsAt

/-- Every array takes its tag and a byte for each element. -/
theorem length_items {items : List Tree} {bytes : Bytes}
    (written : text integerKeys (.array items) = some bytes) :
    items.length < bytes.length := by
  have written := text_eq_some.mp written
  rw [treeBytes] at written
  obtain ⟨token, head, written⟩ := Outcome.bind_eq_ok.mp written
  obtain ⟨body, tail, written⟩ := Outcome.bind_eq_ok.mp written
  cases written
  have tag := List.length_pos_of_ne_nil (writeToken_ne_nil head)
  have each : 1 * items.length ≤ body.length :=
    elements_room (fun item member element given =>
      List.length_pos_of_ne_nil (treeBytes_ne_nil given)) tail
  rw [List.length_append]
  lia

end Values

end XfoLws.Wire.Msgpack

namespace XfoLws.Wire

open Parsing Msgpack Reader

/-- Msgpack, with names or numbers for keys. -/
def msgpackStyle (integerKeys : Bool) : Style where
  toValueReader := valueReader integerKeys
  walk := writtenWalk integerKeys
  text := text integerKeys
  entry key value := (key, value)
  names_entry key value other := decide_eq_true_iff
  value_entry key value := rfl
  object_fields written := by
    have written := text_eq_some.mp written
    rw [treeBytes] at written
    obtain ⟨token, head, written⟩ := Outcome.bind_eq_ok.mp written
    obtain ⟨body, tail, -⟩ := Outcome.bind_eq_ok.mp written
    exact (entriesBytes_eq tail).1
  object_encodes written := by
    have written := text_eq_some.mp written
    rw [treeBytes] at written
    obtain ⟨token, head, written⟩ := Outcome.bind_eq_ok.mp written
    obtain ⟨body, tail, written⟩ := Outcome.bind_eq_ok.mp written
    cases written
    obtain ⟨-, keys, length, same⟩ := entriesBytes_eq tail
    exact ⟨keys, token, length.symm ▸ head, congrArg (token ++ ·) same⟩
  reads_boolean depth written := by
    have written := text_eq_some.mp written
    rw [treeBytes] at written
    exact reads_of_takes (fun _ _ => takes_boolean written) depth
  reads_unsignedInteger depth written := by
    have written := text_eq_some.mp written
    rw [treeBytes] at written
    exact reads_of_takes (fun _ _ => takes_unsignedInteger written) depth
  reads_string depth written := by
    have written := text_eq_some.mp written
    rw [treeBytes] at written
    obtain ⟨token, head, written⟩ := Outcome.bind_eq_ok.mp written
    cases written
    exact reads_of_takes (fun _ _ => takes_string head) depth
  reads_binary depth written := by
    have written := text_eq_some.mp written
    rw [treeBytes] at written
    obtain ⟨token, head, written⟩ := Outcome.bind_eq_ok.mp written
    cases written
    exact reads_of_takes (fun _ _ => takes_binary head) depth
  reads_binaryInto depth written := by
    have written := text_eq_some.mp written
    rw [treeBytes] at written
    obtain ⟨token, head, written⟩ := Outcome.bind_eq_ok.mp written
    cases written
    exact reads_of_takes (fun _ _ => takes_binaryInto head) depth
  ArrayAt := ElementsAt
  array_items written := by
    have written := text_eq_some.mp written
    rw [treeBytes] at written
    obtain ⟨token, head, written⟩ := Outcome.bind_eq_ok.mp written
    obtain ⟨body, tail, -⟩ := Outcome.bind_eq_ok.mp written
    exact (elementsBytes_eq tail).1
  array_length := length_items
  array_start written _ ready _ shallow long := by
    obtain ⟨source, ran, room, standing⟩ :=
      startArray_written written ready shallow long _
    exact ⟨_, _, source, ran, .inr rfl, room, standing⟩
  array_short := ElementsAt.short
  array_next standing := by
    obtain ⟨before, behind, ran, level, countable, shorter, later⟩ :=
      standing.next
    exact ⟨before, behind, ran, level, countable, trivial, shorter, later⟩
  array_last := ElementsAt.last
  depth_start := rfl
  ready_start bytes :=
    ⟨Nat.one_pos, Nat.le_add_left 1 _, show 0 < maxReadDepth by decide⟩
  ends_nil := trivial
  complete := rfl

end XfoLws.Wire
