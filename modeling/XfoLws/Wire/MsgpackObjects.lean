import XfoLws.Wire.MsgpackSkip
import XfoLws.Wire.ObjectEntries

/-!
# Msgpack objects

An encoded object is the number of its entries and each key with its value.
The keys are all strings or all numbers; `matchKey` looks both up in one map.
-/

namespace XfoLws.Wire.Msgpack

open Parsing

/-- `msgpack_reader`, as `wire_read::object` calls it. -/
def objectReader : ObjectReader Counts Thrown where
  startObject := Reader.startObject
  key map state := do
    let found ← Reader.key (List.ofFn map) state
    return found.map fun (left, index) =>
      (left.val, index.cast List.length_ofFn)
  endObject := Reader.endObject
  throws error := .wire (.schema error.code)

/-- A key, behind any tag that holds it. -/
inductive EntryKey : Bool → Type where
  | name (head contents : Bytes)
      (counted : Counted 0xa0 32 stringTags contents.length head) :
      EntryKey false
  | id (head : Bytes) (id : UInt32)
      (counted : Counted 0 0x80 unsignedTags id.toNat head) : EntryKey true

namespace EntryKey

variable {integerKeys : Bool}

def bytes : EntryKey integerKeys → Bytes
  | name head contents _ => head ++ contents
  | id head _ _ => head

def names : EntryKey integerKeys → KeyMap → Bool
  | name _ contents _, key => key.name = contents
  | id _ number _, key => key.id = number

theorem bytes_ne_nil (key : EntryKey integerKeys) : key.bytes ≠ [] := by
  cases key with
  | name head contents counted =>
      exact fun none =>
        Reader.head_ne_nil counted (List.append_eq_nil_iff.mp none).1
  | id head number counted => exact Reader.head_ne_nil counted

theorem sameKey {key : EntryKey integerKeys} {left right : KeyMap}
    (first : key.names left = true) (second : key.names right = true) :
    SameKey integerKeys left right := by
  cases key with
  | name head contents counted =>
      exact (of_decide_eq_true first).trans (of_decide_eq_true second).symm
  | id head number counted =>
      exact (of_decide_eq_true first).trans (of_decide_eq_true second).symm

end EntryKey

structure Entry (integerKeys : Bool) where
  key : EntryKey integerKeys
  value : Item

def Entry.bytes {integerKeys : Bool} (entry : Entry integerKeys) : Bytes :=
  entry.key.bytes ++ entry.value.bytes

/-- Msgpack, with names or numbers for keys. -/
def format (integerKeys : Bool) : Format where
  Counts := Counts
  Thrown := Thrown
  reader := objectReader
  depth counts := counts.depth
  ready counts text :=
    0 < counts.tagsRemaining ∧ counts.tagsRemaining + text.length ≤ maxSize
  after counts := ⟨counts.tagsRemaining - 1, counts.depth⟩
  ends _ := True
  integerKeys := integerKeys
  Entry := Entry integerKeys
  names entry := entry.key.names
  value entry := entry.value.bytes
  scalar entry := entry.value.Scalar
  encodes entries text := ∃ head,
    Counted 0x80 16 objectTags entries.length head ∧
      text = head ++ entries.flatMap Entry.bytes

namespace Reader

variable {integerKeys : Bool} {tags depth n : ℕ}

private theorem Item.bytes_ne_nil (item : Item) : item.bytes ≠ [] := by
  cases item with
  | mk lexeme elements =>
      rw [Item.bytes, Item.lexemes, List.flatMap_cons]
      exact fun none => Reader.bytes_ne_nil lexeme
        (List.append_eq_nil_iff.mp none).1

private theorem two_le_length_bytes (entry : Entry integerKeys) :
    entry.value.bytes.length + 1 ≤ entry.bytes.length ∧
      2 ≤ entry.bytes.length := by
  have key := List.length_pos_of_ne_nil entry.key.bytes_ne_nil
  have value := List.length_pos_of_ne_nil (Item.bytes_ne_nil entry.value)
  rw [Entry.bytes, List.length_append]
  lia

private theorem length_entries (entries : List (Entry integerKeys)) :
    entries.length * 2 ≤ (entries.flatMap Entry.bytes).length := by
  induction entries with
  | nil => exact le_rfl
  | cons entry entries induction =>
      have some := (two_le_length_bytes entry).2
      rw [List.flatMap_cons, List.length_append, List.length_cons]
      lia

theorem takes_entryKey (map : List KeyMap) (key : EntryKey integerKeys) :
    Takes (matchKey map) ⟨tags + 1, depth⟩ key.bytes
      (map.findFinIdx? key.names) ⟨tags, depth⟩ := by
  cases key with
  | name head contents counted => exact takes_matchName map counted
  | id head number counted => exact takes_matchId map counted

theorem findFinIdx_ofFn {map : Fin n → KeyMap}
    {key : EntryKey integerKeys} {index : Fin n}
    (named : key.names (map index) = true)
    (only : ∀ other, key.names (map other) = true → other = index) :
    (List.ofFn map).findFinIdx? key.names =
      some (index.cast List.length_ofFn.symm) := by
  rw [List.findFinIdx?_eq_some_iff]
  refine ⟨by simpa using named, ?_⟩
  intro other before found
  rw [Fin.getElem_fin, List.getElem_ofFn] at found
  have same := only (other.cast List.length_ofFn) found
  rw [← same] at before
  exact absurd before (lt_irrefl _)

private theorem findFinIdx_none {map : Fin n → KeyMap}
    {key : EntryKey integerKeys}
    (unknown : ∀ index, key.names (map index) = false) :
    (List.ofFn map).findFinIdx? key.names = none := by
  rw [List.findFinIdx?_eq_none_iff]
  intro key member
  obtain ⟨index, rfl⟩ := List.mem_ofFn.mp member
  simpa using unknown index

/-- The entries, their number and the values that are still counted. -/
structure Standing (outer : Counts) (rest : Bytes)
    (entries : List (Entry integerKeys)) (state : ℕ) (inside : Counts)
    (source : Bytes) : Prop where
  missing : 0 < outer.tagsRemaining
  room : outer.tagsRemaining + (entries.flatMap Entry.bytes).length ≤ maxSize
  state : state = entries.length
  inside : inside =
    ⟨outer.tagsRemaining + entries.length * 2, outer.depth + 1⟩
  source : source = entries.flatMap Entry.bytes ++ rest

theorem key_run (map : Fin n → KeyMap) {state : ℕ}
    {input output : Counts × Bytes}
    {found : Option (Fin state × Fin (List.ofFn map).length)}
    (ran : (key (List.ofFn map) state).run input = .ok (found, output)) :
    (objectReader.key map state).run input =
      .ok (found.map fun (left, index) =>
        (left.val, index.cast List.length_ofFn), output) :=
  run_bind_ok ran

section Standing

variable {outer inside : Counts} {rest source : Bytes} {state : ℕ}
  {entry : Entry integerKeys} {entries : List (Entry integerKeys)}
  {map : Fin n → KeyMap}

theorem startObject_standing {head : Bytes}
    (counted : Counted 0x80 16 objectTags entries.length head)
    (missing : 0 < outer.tagsRemaining)
    (room : outer.tagsRemaining +
      (head ++ entries.flatMap Entry.bytes).length ≤ maxSize)
    (shallow : outer.depth + 1 ≠ maxReadDepth) (rest : Bytes) :
    ∃ state inside source, startObject.run
        (outer, head ++ entries.flatMap Entry.bytes ++ rest) =
          .ok (state, (inside, source)) ∧
      Standing outer rest entries state inside source := by
  rw [List.length_append] at room
  have others := length_entries entries
  have started : Takes startObject outer head entries.length
      ⟨outer.tagsRemaining + entries.length * 2, outer.depth + 1⟩ :=
    Counted.takes_startObject counted (by lia) shallow
  refine ⟨entries.length, _, entries.flatMap Entry.bytes ++ rest, ?_,
    missing, by lia, rfl, rfl, rfl⟩
  rw [List.append_assoc]
  exact started _

namespace Standing

theorem short (standing : Standing outer rest entries state inside source) :
    entries.length ≤ source.length := by
  obtain ⟨-, -, -, -, rfl⟩ := standing
  have others := length_entries entries
  rw [List.length_append]
  lia

theorem last
    (standing : @Standing integerKeys outer rest [] state inside source) :
    ∃ behind, ∀ {n : ℕ} (map : Fin n → KeyMap),
      (objectReader.key map state).run (inside, source) =
        .ok (none, (behind, rest)) ∧
      objectReader.endObject.run (behind, rest) =
        .ok ((), (⟨outer.tagsRemaining - 1, outer.depth⟩, rest)) := by
  obtain ⟨missing, -, rfl, rfl, same⟩ := standing
  obtain rfl : source = rest := same
  obtain ⟨tags, depth⟩ := outer
  obtain ⟨tags, rfl⟩ := Nat.exists_eq_add_one_of_ne_zero missing.ne'
  refine ⟨⟨tags, depth + 1⟩, fun map => ⟨?_, rfl⟩⟩
  exact key_run map (takes_lastKey (List.ofFn map) source)

/-- The reader has looked up the key of the first entry. -/
theorem matched
    (standing : Standing outer rest (entry :: entries) state inside source)
    (map : List KeyMap) :
    (matchKey map).run (inside, source) =
      .ok (map.findFinIdx? entry.key.names,
        (⟨outer.tagsRemaining + entries.length * 2 + 1, outer.depth + 1⟩,
          entry.value.bytes ++ (entries.flatMap Entry.bytes ++ rest))) := by
  obtain ⟨-, -, -, rfl, rfl⟩ := standing
  have tags : outer.tagsRemaining + (entry :: entries).length * 2 =
      outer.tagsRemaining + entries.length * 2 + 1 + 1 := by
    rw [List.length_cons]
    lia
  rw [tags, List.flatMap_cons, Entry.bytes, List.append_assoc,
    List.append_assoc]
  exact takes_entryKey map entry.key _

theorem value_room
    (standing : Standing outer rest (entry :: entries) state inside source) :
    outer.tagsRemaining + entries.length * 2 + 1 +
      entry.value.bytes.length ≤ maxSize := by
  have room := standing.room
  have bytes := (two_le_length_bytes entry).1
  have others := length_entries entries
  rw [List.flatMap_cons, List.length_append] at room
  lia

/-- Behind the first entry the others stand. -/
theorem next
    (standing : Standing outer rest (entry :: entries) state inside source) :
    Standing outer rest entries entries.length
      ⟨outer.tagsRemaining + entries.length * 2, outer.depth + 1⟩
      (entries.flatMap Entry.bytes ++ rest) := by
  have room := standing.room
  rw [List.flatMap_cons, List.length_append] at room
  exact ⟨standing.missing, by lia, rfl, rfl, rfl⟩

theorem found
    (standing : Standing outer rest (entry :: entries) state inside source)
    {index : Fin n} (named : entry.key.names (map index) = true)
    (only : ∀ other, entry.key.names (map other) = true → other = index) :
    (objectReader.key map state).run (inside, source) =
      .ok (some (entries.length, index),
        (⟨outer.tagsRemaining + entries.length * 2 + 1, outer.depth + 1⟩,
          entry.value.bytes ++ (entries.flatMap Entry.bytes ++ rest))) := by
  have matched := standing.matched (List.ofFn map)
  rw [findFinIdx_ofFn named only] at matched
  obtain rfl := standing.state
  have ran : (key (List.ofFn map) (entries.length + 1)).run (inside, source) =
      .ok (some (Fin.last entries.length, index.cast List.length_ofFn.symm),
        (⟨outer.tagsRemaining + entries.length * 2 + 1, outer.depth + 1⟩,
          entry.value.bytes ++ (entries.flatMap Entry.bytes ++ rest))) :=
    run_bind_ok matched
  exact key_run map ran

theorem skipped
    (standing : Standing outer rest (entry :: entries) state inside source)
    (unknown : ∀ index, entry.key.names (map index) = false)
    (scalar : entry.value.Scalar) :
    (objectReader.key map state).run (inside, source) =
      (objectReader.key map entries.length).run
        (⟨outer.tagsRemaining + entries.length * 2, outer.depth + 1⟩,
          entries.flatMap Entry.bytes ++ rest) := by
  have matched := standing.matched (List.ofFn map)
  rw [findFinIdx_none unknown] at matched
  have some := List.length_pos_of_ne_nil (Item.bytes_ne_nil entry.value)
  have room := standing.value_room
  have counting : Counting
      ⟨outer.tagsRemaining + entries.length * 2 + 1, outer.depth + 1⟩ :=
    ⟨Nat.succ_pos _, Nat.ne_of_lt (by dsimp only; lia)⟩
  have skipped := (skipValue_whole_iff entry.value
    (entries.flatMap Entry.bytes ++ rest)).mpr ⟨counting, scalar⟩
  obtain rfl := standing.state
  have ran : (key (List.ofFn map) (entries.length + 1)).run (inside, source) =
      (do
        let found ← key (List.ofFn map) entries.length
        return found.map fun (left, index) => (left.castSucc, index)
          : Reader _).run
        (⟨outer.tagsRemaining + entries.length * 2, outer.depth + 1⟩,
          entries.flatMap Entry.bytes ++ rest) :=
    (run_bind_ok matched).trans (run_bind_ok skipped)
  show (key (List.ofFn map) (entries.length + 1) >>= _).run _ =
    (key (List.ofFn map) entries.length >>= _).run _
  rw [StateT.run_bind, ran, StateT.run_bind, StateT.run_bind]
  cases (key (List.ofFn map) entries.length).run
      (⟨outer.tagsRemaining + entries.length * 2, outer.depth + 1⟩,
        entries.flatMap Entry.bytes ++ rest) with
  | error failure => rfl
  | ok result =>
      obtain ⟨found, output⟩ := result
      cases found <;> rfl

end Standing

end Standing

/-- Between the values of a msgpack object. -/
def walk (integerKeys : Bool) : (format integerKeys).Walk where
  At := Standing
  same := EntryKey.sameKey
  start := by
    rintro entries text outer rest ⟨head, counted, rfl⟩ ⟨missing, room⟩ - deep
    exact startObject_standing counted missing room deep rest
  tooDeep := by
    rintro entries text outer rest ⟨head, counted, rfl⟩ - deep
    rw [List.append_assoc]
    exact startObject_unfit counted (fun fits => fits.2 deep) _
  short := Standing.short
  last := Standing.last
  found standing named only :=
    ⟨_, _, _, standing.found named only, rfl,
      ⟨Nat.succ_pos _, standing.value_room⟩, trivial, standing.next⟩
  skipped standing unknown scalar :=
    ⟨_, _, _, standing.next, standing.skipped unknown scalar⟩

end Reader

end XfoLws.Wire.Msgpack
