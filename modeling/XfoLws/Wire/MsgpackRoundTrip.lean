import XfoLws.Wire.MsgpackTrees
import Mathlib.Data.List.Nodup

/-!
# The msgpack round trip

What `msgpack_writer` writes of a tree, `msgpack_reader` reads back with
nothing left over, and its count of missing values ends at zero.  Every array
and object adds at most 2^33 values to that count, so it stays below the
largest size within the maximum depth.
-/

namespace XfoLws.Wire.Msgpack

open Parsing Reader

/-- At most so many arrays and objects are inside one another, and every
length fits 32 bits. -/
inductive Limited : ℕ → Tree → Prop where
  | boolean (levels : ℕ) (value : Bool) : Limited levels (.boolean value)
  | integer (levels : ℕ) (value : Int64) : Limited levels (.integer value)
  | unsignedInteger (levels : ℕ) (value : UInt64) :
      Limited levels (.unsignedInteger value)
  | string (levels : ℕ) {value : Bytes} (length : value.length < 2 ^ 32) :
      Limited levels (.string value)
  | binary (levels : ℕ) {value : Bytes} (length : value.length < 2 ^ 32) :
      Limited levels (.binary value)
  | array {levels : ℕ} {items : List Tree} (length : items.length < 2 ^ 32)
      (each : ∀ item ∈ items, Limited levels item) :
      Limited (levels + 1) (.array items)
  | object {levels : ℕ} {fields : List (KeyMap × Tree)}
      (length : fields.length < 2 ^ 32)
      (names : ∀ field ∈ fields, field.1.name.length < 2 ^ 32)
      (each : ∀ field ∈ fields, Limited levels field.2) :
      Limited (levels + 1) (.object fields)

/-- The reader is asked for what was written.  Elements are as long as the
caller says, and it knows every key under one entry of its map. -/
inductive Matches (integerKeys : Bool) : Shape → Tree → Prop where
  | boolean (value : Bool) : Matches integerKeys .boolean (.boolean value)
  | integer (value : Int64) : Matches integerKeys .integer (.integer value)
  | unsignedInteger (value : UInt64) :
      Matches integerKeys .unsignedInteger (.unsignedInteger value)
  | string (value : Bytes) : Matches integerKeys .string (.string value)
  | binary (value : Bytes) : Matches integerKeys .binary (.binary value)
  | binaryInto (value : Bytes) :
      Matches integerKeys (.binaryInto value.length) (.binary value)
  | array {minElementSize : ℕ} {element : ℕ → Shape} {items : List Tree}
      (size : ∀ item ∈ items, ∀ bytes,
        treeBytes integerKeys item = .ok bytes →
        minElementSize ≤ bytes.length)
      (each : ∀ position (inside : position < items.length),
        Matches integerKeys (element position) items[position]) :
      Matches integerKeys (.array minElementSize element) (.array items)
  | object {map : List KeyMap} {shapes : Fin map.length → Shape}
      {fields : List (KeyMap × Tree)}
      (distinct : map.Pairwise fun left right =>
        ¬ SameKey integerKeys left right)
      (known : ∀ field ∈ fields, field.1 ∈ map)
      (each : ∀ field ∈ fields, ∀ index : Fin map.length,
        map.get index = field.1 → Matches integerKeys (shapes index) field.2) :
      Matches integerKeys (.object map shapes) (.object fields)

/-! ## What can be written -/

private theorem joined_isOk {first second : Except Failure Bytes}
    (head : ∃ bytes, first = .ok bytes) (tail : ∃ bytes, second = .ok bytes) :
    ∃ bytes, (do
      let start ← first
      let rest ← second
      .ok (start ++ rest)) = .ok bytes := by
  obtain ⟨start, rfl⟩ := head
  obtain ⟨rest, rfl⟩ := tail
  exact ⟨start ++ rest, rfl⟩

theorem writeInteger_isOk (value : Int64) :
    ∃ bytes, writeInteger value.toInt = .ok bytes := by
  have low := value.le_toInt
  have high := value.toInt_lt
  unfold writeInteger
  split
  · exact writeToken_isOk.mpr (by lia)
  · have wide : (signedTags.find? fun tag =>
        -(256 ^ tag.2 : ℕ) ≤ 2 * value.toInt).isSome := by
      rw [List.find?_isSome]
      exact ⟨(0xd3, 8), by decide, by simp; lia⟩
    obtain ⟨tag, found⟩ := Option.isSome_iff_exists.mp wide
    rw [writeNegative, if_neg (by lia), found]
    exact ⟨_, rfl⟩

theorem writeKey_isOk (integerKeys : Bool) {key : KeyMap}
    (length : key.name.length < 2 ^ 32) :
    ∃ bytes, writeKey integerKeys key = .ok bytes := by
  unfold writeKey
  split
  · have small := key.id.toNat_lt
    exact writeToken_isOk.mpr (by lia)
  · have counted : ∃ token, writeToken (.string key.name.length) = .ok token :=
      writeToken_isOk.mpr length
    exact joined_isOk counted ⟨key.name, rfl⟩

private theorem elementsBytes_isOk {integerKeys : Bool} {items : List Tree}
    (each : ∀ item ∈ items, ∃ bytes, treeBytes integerKeys item = .ok bytes) :
    ∃ bytes, elementsBytes integerKeys items = .ok bytes := by
  induction items with
  | nil => exact ⟨[], rfl⟩
  | cons item items induction =>
      rw [List.forall_mem_cons] at each
      exact joined_isOk each.1 (induction each.2)

private theorem entriesBytes_isOk {integerKeys : Bool}
    {fields : List (KeyMap × Tree)}
    (names : ∀ field ∈ fields, field.1.name.length < 2 ^ 32)
    (each : ∀ field ∈ fields,
      ∃ bytes, treeBytes integerKeys field.2 = .ok bytes) :
    ∃ bytes, entriesBytes integerKeys fields = .ok bytes := by
  induction fields with
  | nil => exact ⟨[], rfl⟩
  | cons field fields induction =>
      rw [List.forall_mem_cons] at names each
      obtain ⟨key, value⟩ := field
      rw [entriesBytes]
      refine joined_isOk ?_ (induction names.2 each.2)
      rw [entryBytes]
      exact joined_isOk (writeKey_isOk integerKeys names.1) each.1

theorem treeBytes_isOk (integerKeys : Bool) {levels : ℕ} {tree : Tree}
    (limited : Limited levels tree) :
    ∃ bytes, treeBytes integerKeys tree = .ok bytes := by
  induction limited with
  | boolean levels value =>
      rw [treeBytes]
      exact writeToken_isOk.mpr trivial
  | integer levels value =>
      rw [treeBytes]
      exact writeInteger_isOk value
  | unsignedInteger levels value =>
      rw [treeBytes]
      exact writeToken_isOk.mpr value.toNat_lt
  | string levels length =>
      rw [treeBytes]
      exact joined_isOk (writeToken_isOk.mpr length) ⟨_, rfl⟩
  | binary levels length =>
      rw [treeBytes]
      exact joined_isOk (writeToken_isOk.mpr length) ⟨_, rfl⟩
  | array length each induction =>
      rw [treeBytes]
      exact joined_isOk (writeToken_isOk.mpr length)
        (elementsBytes_isOk induction)
  | object length names each induction =>
      rw [treeBytes]
      exact joined_isOk (writeToken_isOk.mpr length)
        (entriesBytes_isOk names induction)

/-- The writer gives the bytes of the format, or throws what they throw. -/
theorem toMsgpack_eq (integerKeys : Bool) (tree : Tree) :
    toMsgpack integerKeys tree =
      (treeBytes integerKeys tree).mapError Thrown.wire := by
  have complete (bytes : Bytes) :
      ((Writer.new integerKeys).wrote bytes 1).expected = 0 := by
    change (1 - 1 : UInt64) = 0
    decide
  have spelled : (Writer.new integerKeys).integerKeys = integerKeys := rfl
  rw [toMsgpack, writeTree_eq, spelled]
  cases treeBytes integerKeys tree with
  | error failure => rfl
  | ok bytes => exact if_neg (not_not.mpr (complete bytes))

/-! ## What is read -/

section Elements

variable {integerKeys : Bool} {tags depth bound : ℕ}

private theorem takes_readElements {read : ℕ → Reader Tree} {items : List Tree}
    {position : ℕ}
    (reads : ∀ index (inside : index < items.length), ∀ {bytes tags},
      treeBytes integerKeys items[index] = .ok bytes → tags ≤ bound →
      Takes (read (position + index)) ⟨tags + 1, depth⟩ bytes items[index]
        ⟨tags, depth⟩)
    {bytes : Bytes} (written : elementsBytes integerKeys items = .ok bytes)
    (room : tags + items.length ≤ bound) :
    Takes (readElements read position items.length)
      ⟨tags + 1 + items.length, depth⟩ bytes items ⟨tags, depth⟩ := by
  induction items generalizing position bytes with
  | nil =>
      cases written
      exact takes_isArrayEnd.after (Takes.pure [] _)
  | cons item items induction =>
      rw [elementsBytes] at written
      obtain ⟨first, head, written⟩ := Outcome.bind_eq_ok.mp written
      obtain ⟨rest, tail, written⟩ := Outcome.bind_eq_ok.mp written
      cases written
      rw [List.length_cons] at room ⊢
      have one := @reads 0 (Nat.succ_pos _) _ (tags + 1 + items.length) head
        (by lia)
      have others : ∀ index (inside : index < items.length), ∀ {bytes tags},
          treeBytes integerKeys items[index] = .ok bytes → tags ≤ bound →
          Takes (read (position + 1 + index)) ⟨tags + 1, depth⟩ bytes
            items[index] ⟨tags, depth⟩ := by
        intro index inside bytes tags written room
        rw [Nat.add_assoc, Nat.add_comm 1]
        exact reads (index + 1) (Nat.succ_lt_succ inside) written room
      exact one.bind ((induction others tail (by lia)).returns _)

theorem elements_room {items : List Tree} {minElementSize : ℕ}
    (size : ∀ item ∈ items, ∀ bytes, treeBytes integerKeys item = .ok bytes →
      minElementSize ≤ bytes.length)
    {bytes : Bytes} (written : elementsBytes integerKeys items = .ok bytes) :
    minElementSize * items.length ≤ bytes.length := by
  induction items generalizing bytes with
  | nil => exact Nat.zero_le _
  | cons item items induction =>
      rw [elementsBytes] at written
      obtain ⟨first, head, written⟩ := Outcome.bind_eq_ok.mp written
      obtain ⟨rest, tail, written⟩ := Outcome.bind_eq_ok.mp written
      cases written
      rw [List.forall_mem_cons] at size
      rw [List.length_cons, Nat.mul_succ, List.length_append, Nat.add_comm]
      exact Nat.add_le_add (size.1 first head) (induction size.2 tail)

private theorem exists_index {map : List KeyMap} {key : KeyMap}
    (member : key ∈ map) : ∃ index : Fin map.length, map.get index = key := by
  obtain ⟨place, inside, found⟩ := List.getElem_of_mem member
  exact ⟨⟨place, inside⟩, found⟩

/-- The loop over the fields ends when no key is left. -/
private theorem takes_readEntries {map : List KeyMap}
    {read : Fin map.length → Reader Tree} {fields : List (KeyMap × Tree)}
    (distinct : map.Pairwise fun left right => ¬ SameKey integerKeys left right)
    (known : ∀ field ∈ fields, field.1 ∈ map)
    (reads : ∀ field ∈ fields, ∀ index : Fin map.length,
      map.get index = field.1 → ∀ {bytes tags},
      treeBytes integerKeys field.2 = .ok bytes → tags ≤ bound →
      Takes (read index) ⟨tags + 1, depth⟩ bytes field.2 ⟨tags, depth⟩)
    {bytes : Bytes} (written : entriesBytes integerKeys fields = .ok bytes)
    (room : tags + fields.length * 2 ≤ bound) :
    Takes (readEntries map read fields.length)
      ⟨tags + 1 + fields.length * 2, depth⟩ bytes fields ⟨tags, depth⟩ := by
  induction fields generalizing bytes with
  | nil =>
      cases written
      rw [List.length_nil, readEntries]
      exact (takes_lastKey map).after (Takes.pure [] _)
  | cons field fields induction =>
      rw [entriesBytes] at written
      obtain ⟨first, head, written⟩ := Outcome.bind_eq_ok.mp written
      obtain ⟨rest, tail, written⟩ := Outcome.bind_eq_ok.mp written
      cases written
      rw [List.forall_mem_cons] at known reads
      obtain ⟨name, value⟩ := field
      rw [entryBytes] at head
      obtain ⟨key, keyed, head⟩ := Outcome.bind_eq_ok.mp head
      obtain ⟨contents, valued, head⟩ := Outcome.bind_eq_ok.mp head
      cases head
      obtain ⟨index, rfl⟩ := exists_index known.1
      have matched : Takes (Reader.key map (fields.length + 1))
          ⟨tags + 1 + fields.length * 2 + 1 + 1, depth⟩ key
          (some (Fin.last _, index))
          ⟨tags + 1 + fields.length * 2 + 1, depth⟩ :=
        takes_key fields.length distinct index keyed
      rw [List.length_cons] at room
      have one : Takes (read index) ⟨tags + 1 + fields.length * 2 + 1, depth⟩
          contents value ⟨tags + 1 + fields.length * 2, depth⟩ :=
        reads.1 index rfl valued (by lia)
      have others := induction known.2 reads.2 tail (by lia)
      rw [List.length_cons, readEntries, Nat.succ_mul, List.append_assoc]
      exact matched.bind (one.bind (others.returns _))

end Elements

private theorem announced_fit {tags depth levels values : ℕ}
    (shallow : depth + levels < maxReadDepth) (bounded : tags ≤ depth * 2 ^ 33)
    (most : values ≤ 2 ^ 33) : tags + 1 + values ≤ maxSize := by
  unfold maxReadDepth at shallow
  unfold maxSize
  lia

/-- A tree is read from exactly its bytes, and counts once. -/
theorem takes_readTree {integerKeys : Bool} {shape : Shape} {tree : Tree}
    (matching : Matches integerKeys shape tree) {levels : ℕ}
    (limited : Limited levels tree) {bytes : Bytes}
    (written : treeBytes integerKeys tree = .ok bytes) {tags depth : ℕ}
    (shallow : depth + levels < maxReadDepth)
    (bounded : tags ≤ depth * 2 ^ 33) :
    Takes (readTree shape) ⟨tags + 1, depth⟩ bytes tree ⟨tags, depth⟩ := by
  induction matching generalizing levels bytes tags depth with
  | boolean value =>
      rw [treeBytes] at written
      exact (takes_boolean written).returns _
  | integer value =>
      rw [treeBytes] at written
      exact (takes_integer written).returns _
  | unsignedInteger value =>
      rw [treeBytes] at written
      exact (takes_unsignedInteger written).returns _
  | string value =>
      rw [treeBytes] at written
      obtain ⟨token, head, written⟩ := Outcome.bind_eq_ok.mp written
      cases written
      exact (takes_string head).returns _
  | binary value =>
      rw [treeBytes] at written
      obtain ⟨token, head, written⟩ := Outcome.bind_eq_ok.mp written
      cases written
      exact (takes_binary head).returns _
  | binaryInto value =>
      rw [treeBytes] at written
      obtain ⟨token, head, written⟩ := Outcome.bind_eq_ok.mp written
      cases written
      exact (takes_binaryInto head).returns _
  | @array minElementSize element items size each induction =>
      rw [treeBytes] at written
      obtain ⟨token, head, written⟩ := Outcome.bind_eq_ok.mp written
      obtain ⟨rest, tail, written⟩ := Outcome.bind_eq_ok.mp written
      cases written
      cases limited with
      | @array levels items length limited =>
          have elements : Takes
              (readElements (fun position => readTree (element position)) 0
                items.length)
              ⟨tags + 1 + items.length, depth + 1⟩ rest items
              ⟨tags, depth + 1⟩ := by
            refine @takes_readElements _ _ _ ((depth + 1) * 2 ^ 33) _ _ _ ?_ _
              tail (by lia)
            intro index inside bytes tags written room
            rw [Nat.zero_add]
            exact induction index inside
              (limited _ (List.getElem_mem inside)) written (by lia) room
          refine Takes.bind_of_ahead ?_
            (elements.before (takes_decrementDepth.after (Takes.pure _ _)))
          intro following
          have room := elements_room size tail
          exact startArray_run head (by rw [List.length_append]; lia)
            (announced_fit shallow bounded (by lia)) (by lia)
  | @object map shapes fields distinct known each induction =>
      rw [treeBytes] at written
      obtain ⟨token, head, written⟩ := Outcome.bind_eq_ok.mp written
      obtain ⟨rest, tail, written⟩ := Outcome.bind_eq_ok.mp written
      cases written
      cases limited with
      | @object levels fields length names limited =>
          have entries : Takes
              (readEntries map (fun index => readTree (shapes index))
                fields.length)
              ⟨tags + 1 + fields.length * 2, depth + 1⟩ rest fields
              ⟨tags, depth + 1⟩ := by
            refine @takes_readEntries _ _ _ ((depth + 1) * 2 ^ 33) _ _ _
              distinct known ?_ _ tail (by lia)
            intro field member index same bytes tags written room
            exact induction field member index same (limited field member)
              written (by lia) room
          have fits := announced_fit shallow bounded
            (show fields.length * 2 ≤ 2 ^ 33 by lia)
          exact (takes_startObject head fits (by lia)).bind
            (entries.before (takes_decrementDepth.after (Takes.pure _ _)))

/-! ## Matching read functions -/

/-- No object has two keys that are written alike. -/
inductive Keyed (integerKeys : Bool) : Tree → Prop where
  | boolean (value : Bool) : Keyed integerKeys (.boolean value)
  | integer (value : Int64) : Keyed integerKeys (.integer value)
  | unsignedInteger (value : UInt64) :
      Keyed integerKeys (.unsignedInteger value)
  | string (value : Bytes) : Keyed integerKeys (.string value)
  | binary (value : Bytes) : Keyed integerKeys (.binary value)
  | array {items : List Tree} (each : ∀ item ∈ items, Keyed integerKeys item) :
      Keyed integerKeys (.array items)
  | object {fields : List (KeyMap × Tree)}
      (distinct : (fields.map Prod.fst).Pairwise fun left right =>
        ¬ SameKey integerKeys left right)
      (each : ∀ field ∈ fields, Keyed integerKeys field.2) :
      Keyed integerKeys (.object fields)

theorem SameKey.refl (integerKeys : Bool) (key : KeyMap) :
    SameKey integerKeys key key := by
  cases integerKeys <;> rfl

/-- The map of an object may consist of its own keys. -/
theorem exists_matches {integerKeys : Bool} {tree : Tree}
    (keyed : Keyed integerKeys tree) :
    ∃ shape, Matches integerKeys shape tree := by
  induction keyed with
  | boolean value => exact ⟨.boolean, .boolean value⟩
  | integer value => exact ⟨.integer, .integer value⟩
  | unsignedInteger value => exact ⟨.unsignedInteger, .unsignedInteger value⟩
  | string value => exact ⟨.string, .string value⟩
  | binary value => exact ⟨.binary, .binary value⟩
  | @array items each induction =>
      choose! shape matching using induction
      refine ⟨.array 0 fun position =>
        if inside : position < items.length then shape items[position]
        else .boolean, .array (fun _ _ _ _ => Nat.zero_le _) ?_⟩
      intro position inside
      rw [dif_pos inside]
      exact matching _ (List.getElem_mem inside)
  | @object fields distinct each induction =>
      choose! shape matching using induction
      have unique : (fields.map Prod.fst).Nodup := by
        refine distinct.imp ?_
        rintro key _ different rfl
        exact different (SameKey.refl integerKeys key)
      have inside : ∀ index : Fin (fields.map Prod.fst).length,
          index.val < fields.length := fun index =>
        Nat.lt_of_lt_of_eq index.2 (List.length_map Prod.fst)
      refine ⟨.object (fields.map Prod.fst) fun index =>
        shape (fields.get ⟨index, inside index⟩),
        .object distinct (fun field member => List.mem_map_of_mem member) ?_⟩
      intro field member index same
      have itself : fields.get ⟨index, inside index⟩ = field := by
        refine List.inj_on_of_nodup_map unique (List.get_mem _ _) member ?_
        rw [← same]
        simp
      rw [itself]
      exact matching field member

/-- Every written tree is read back to its last byte by the read functions
that match it, and those exist. -/
theorem tree_read_back (integerKeys : Bool) {tree : Tree} {levels : ℕ}
    (limited : Limited levels tree) (shallow : levels < maxReadDepth) :
    ∃ bytes, toMsgpack integerKeys tree = .ok bytes ∧
      (Keyed integerKeys tree → ∃ shape, Matches integerKeys shape tree) ∧
      ∀ shape, Matches integerKeys shape tree →
        ∃ counts, (readTree shape).run (.start, bytes) =
          .ok (tree, (counts, [])) ∧ checkComplete counts = .ok () := by
  obtain ⟨bytes, written⟩ := treeBytes_isOk integerKeys limited
  have produced : toMsgpack integerKeys tree = .ok bytes := by
    rw [toMsgpack_eq, written]
    rfl
  refine ⟨bytes, produced, exists_matches, ?_⟩
  intro shape matching
  have takes : Takes (readTree shape) .start bytes tree ⟨0, 0⟩ :=
    takes_readTree matching limited written (by lia) (Nat.zero_le _)
  exact ⟨_, takes.run, rfl⟩

/-- Two fields, one of them an array with a negative integer. -/
def sampleTree : Tree :=
  .object [
    (⟨[0x61], 7, by decide⟩, .array [.integer (-33), .unsignedInteger 256]),
    (⟨[0x62, 0x63], 300, by decide⟩, .string [0x64])]

/-- The fields in another order, with an optional one that is absent. -/
def sampleMap : List KeyMap :=
  [⟨[0x62, 0x63], 300, by decide⟩, ⟨[0x7a], 0, by decide⟩,
    ⟨[0x61], 7, by decide⟩]

def sampleShape : Shape :=
  .object sampleMap fun index =>
    if index.val = 0 then .string
    else if index.val = 1 then .boolean
    else
      .array 1 fun position =>
        if position = 0 then .integer else .unsignedInteger

private theorem sampleTree_limited : Limited 2 sampleTree := by
  refine .object (by decide) (by decide) ?_
  simp only [List.forall_mem_cons]
  refine ⟨.array (by decide) ?_, .string 1 (by decide), nofun⟩
  simp only [List.forall_mem_cons]
  exact ⟨.integer 0 _, .unsignedInteger 0 _, nofun⟩

private theorem sampleShape_matches : Matches true sampleShape sampleTree := by
  have first : ∀ index : Fin sampleMap.length,
      sampleMap.get index = ⟨[0x61], 7, by decide⟩ → index.val = 2 := by decide
  have second : ∀ index : Fin sampleMap.length,
      sampleMap.get index = ⟨[0x62, 0x63], 300, by decide⟩ → index.val = 0 := by
    decide
  refine .object (by simp [sampleMap, SameKey]) (by simp [sampleMap]) ?_
  simp only [List.forall_mem_cons]
  refine ⟨?_, ?_, List.forall_mem_nil _⟩
  · intro index same
    rw [first index same]
    have bytes : treeBytes true (.integer (-33)) = .ok [0xd0, 0xdf] ∧
        treeBytes true (.unsignedInteger 256) = .ok [0xcd, 1, 0] := by
      decide +kernel
    refine .array ?_ ?_
    · simp only [List.forall_mem_cons, bytes.1, bytes.2]
      refine ⟨?_, ?_, List.forall_mem_nil _⟩ <;>
      · rintro _ ⟨rfl⟩
        decide
    · intro position inside
      rcases position with _ | _ | position
      · exact .integer _
      · exact .unsignedInteger _
      · exact absurd inside (by simp)
  · intro index same
    rw [second index same]
    exact .string _

theorem tree_read_back_at_two :
    ∃ counts, (readTree sampleShape).run (.start,
        [130, 7, 146, 208, 223, 205, 1, 0, 205, 1, 44, 161, 100]) =
      .ok (sampleTree, (counts, [])) ∧ checkComplete counts = .ok () := by
  obtain ⟨bytes, written, -, reads⟩ :=
    tree_read_back true sampleTree_limited (by decide)
  have bytes_eq : toMsgpack true sampleTree =
      .ok [130, 7, 146, 208, 223, 205, 1, 0, 205, 1, 44, 161, 100] := by
    decide +kernel
  cases bytes_eq.symm.trans written
  exact reads sampleShape sampleShape_matches

end XfoLws.Wire.Msgpack
