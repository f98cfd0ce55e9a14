import XfoLws.Wire.MsgpackTokens
import Mathlib.Data.List.Infix
import Mathlib.Data.List.OfFn

/-!
# Values that are skipped

`skip_value` takes one lexeme in each turn and counts the elements that are
still missing.  It is compared with the format: an item is a lexeme with as
many items behind it as the lexeme announces.  An array or an object leaves
the reader deeper than it was, and a number that is cut off at the end of the
input passes for a whole one.
-/

namespace XfoLws.Wire.Msgpack

open Parsing

/-! ## The format -/

/-- The bytes behind the tag of a constant, a number or a fixed extension. -/
def scalarSizes : List (Byte × ℕ) :=
  [(0xc0, 0), (0xc2, 0), (0xc3, 0), (0xca, 4), (0xcb, 8), (0xcc, 1),
    (0xcd, 2), (0xce, 4), (0xcf, 8), (0xd0, 1), (0xd1, 2), (0xd2, 4),
    (0xd3, 8), (0xd4, 2), (0xd5, 3), (0xd6, 5), (0xd7, 9), (0xd8, 17)]

/-- Small numbers are their own tags. -/
def scalarSize (tag : Byte) : Option ℕ :=
  if tag.val < 0x80 ∨ 0xe0 ≤ tag.val then some 0 else widthOf scalarSizes tag

/-- A value without its elements. -/
inductive Lexeme where
  | scalar (tag : Byte) (payload : Bytes)
      (sized : scalarSize tag = some payload.length)
  | string (head payload : Bytes)
      (counted : Counted 0xa0 32 stringTags payload.length head)
  | binary (head payload : Bytes)
      (counted : Counted 0 0 binaryTags payload.length head)
  | extension (head : Bytes) (type : Byte) (payload : Bytes)
      (counted : Counted 0 0 Reader.extensionTags payload.length head)
  | array (head : Bytes) (count : ℕ)
      (counted : Counted 0x90 16 arrayTags count head)
  | object (head : Bytes) (count : ℕ)
      (counted : Counted 0x80 16 objectTags count head)

namespace Lexeme

def bytes : Lexeme → Bytes
  | scalar tag payload _ => tag :: payload
  | string head payload _ => head ++ payload
  | binary head payload _ => head ++ payload
  | extension head type payload _ => head ++ type :: payload
  | array head _ _ => head
  | object head _ _ => head

/-- The values that follow. -/
def elements : Lexeme → ℕ
  | array _ count _ => count
  | object _ count _ => count * 2
  | _ => 0

/-- The levels that are entered. -/
def levels : Lexeme → ℕ
  | array .. | object .. => 1
  | _ => 0

/-- Nothing that the reader counts passes its limit. -/
def Fits (counts : Counts) (lexeme : Lexeme) : Prop :=
  lexeme.levels = 1 →
    lexeme.elements ≤ maxSize - counts.tagsRemaining ∧
      counts.depth + 1 ≠ maxReadDepth

/-- The counts behind a lexeme that fits. -/
def count (counts : Counts) (lexeme : Lexeme) : Counts :=
  ⟨counts.tagsRemaining + lexeme.elements - 1, counts.depth + lexeme.levels⟩

/-- The cut lexemes that `remove_prefix` takes for whole ones. -/
def Clamps (part : Bytes) : Lexeme → Prop
  | scalar .. => part ≠ []
  | extension head _ payload _ => part.length = head.length + payload.length
  | _ => False

end Lexeme

/-- A complete value. -/
inductive Item where
  | mk (lexeme : Lexeme) (elements : Fin lexeme.elements → Item)

namespace Item

def lexemes : Item → List Lexeme
  | mk lexeme elements =>
      lexeme :: (List.ofFn fun index => (elements index).lexemes).flatten

def bytes (item : Item) : Bytes := item.lexemes.flatMap Lexeme.bytes

/-- Neither an array nor an object. -/
def Scalar : Item → Prop
  | mk lexeme _ => lexeme.levels = 0

end Item

namespace Lexeme

/-- The values behind some lexemes. -/
def allElements (lexemes : List Lexeme) : ℕ := (lexemes.map elements).sum

def countAll (counts : Counts) (lexemes : List Lexeme) : Counts :=
  lexemes.foldl count counts

/-- No limit is passed on the way. -/
def FitsAll : Counts → List Lexeme → Prop
  | _, [] => True
  | counts, lexeme :: lexemes =>
      lexeme.Fits counts ∧ FitsAll (lexeme.count counts) lexemes

end Lexeme

namespace Reader

variable {tags depth : ℕ} {counts : Counts}

/-! ## One turn -/

theorem extensionTable : TagTable 0 0 extensionTags := by
  constructor <;> decide

private theorem peekTag_run (next : Byte) (rest : Bytes) :
    peekTag.run (counts, next :: rest) =
      .ok (next, (counts, next :: rest)) := rfl

private theorem skipTurn_scalar {next : Byte} {size : ℕ}
    (sized : scalarSize next = some size) (rest : Bytes) :
    skipTurn.run (counts, next :: rest) =
      updateTagsRemaining.run (counts, rest.drop size) := by
  have tagged : ∀ next : Byte, scalarSize next ≠ none →
      widthOf skippedSizes next = (scalarSize next).map (· + 1) ∨
        scalarSize next = some 0 ∧ widthOf skippedSizes next = none ∧
          widthOf extensionTags next = none ∧
          ¬ (widthOf binaryTags next).isSome ∧
          ¬ (0xa0 ≤ next.val ∧ next.val < 0xc0 ∨
            (widthOf stringTags next).isSome) ∧
          ¬ (0x90 ≤ next.val ∧ next.val < 0xa0 ∨
            (widthOf arrayTags next).isSome) ∧
          ¬ (0x80 ≤ next.val ∧ next.val < 0x90 ∨
            (widthOf objectTags next).isSome) ∧
          ¬ (0x80 ≤ next.val ∧ next.val < 0xe0) := by
    decide +kernel
  unfold skipTurn
  refine (run_bind_ok (peekTag_run next rest)).trans ?_
  rcases tagged next (by rw [sized]; exact Option.some_ne_none size) with
    listed | ⟨own, fixed, extension, binary, string, array, object, small⟩
  · rw [sized] at listed
    simp only [listed, Option.map_some]
    rfl
  · obtain rfl : 0 = size := Option.some.inj (own.symm.trans sized)
    simp only [fixed, extension]
    rw [if_neg binary, if_neg string, if_neg array, if_neg object,
      if_neg small]
    rfl

private theorem skipTurn_string {next : Byte}
    (tagged : 0xa0 ≤ next.val ∧ next.val < 0xa0 + 32 ∨
      (widthOf stringTags next).isSome) (rest : Bytes) :
    skipTurn.run (counts, next :: rest) =
      (readString next >>= fun _ => updateTagsRemaining).run
        (counts, rest) := by
  have apart : ∀ next : Byte, (0xa0 ≤ next.val ∧ next.val < 0xa0 + 32 ∨
      (widthOf stringTags next).isSome) →
      widthOf skippedSizes next = none ∧ widthOf extensionTags next = none ∧
        ¬ (widthOf binaryTags next).isSome := by
    decide +kernel
  obtain ⟨fixed, extension, binary⟩ := apart next tagged
  unfold skipTurn
  refine (run_bind_ok (peekTag_run next rest)).trans ?_
  simp only [fixed, extension]
  rw [if_neg binary, if_pos tagged]
  rfl

private theorem skipTurn_binary {next : Byte}
    (tagged : 0 ≤ next.val ∧ next.val < 0 + 0 ∨
      (widthOf binaryTags next).isSome) (rest : Bytes) :
    skipTurn.run (counts, next :: rest) =
      (readBinary next >>= fun _ => updateTagsRemaining).run
        (counts, rest) := by
  have apart : ∀ next : Byte, (0 ≤ next.val ∧ next.val < 0 + 0 ∨
      (widthOf binaryTags next).isSome) →
      widthOf skippedSizes next = none ∧ widthOf extensionTags next = none ∧
        (widthOf binaryTags next).isSome := by
    decide +kernel
  obtain ⟨fixed, extension, binary⟩ := apart next tagged
  unfold skipTurn
  refine (run_bind_ok (peekTag_run next rest)).trans ?_
  simp only [fixed, extension]
  rw [if_pos binary]
  rfl

private theorem skipTurn_extension {next : Byte}
    (tagged : 0 ≤ next.val ∧ next.val < 0 + 0 ∨
      (widthOf extensionTags next).isSome) (rest : Bytes) :
    skipTurn.run (counts, next :: rest) =
      (do
        let bytes ← countOf 0 0 extensionTags .string next
        let _ ← readRaw bytes
        removePrefix 1
        updateTagsRemaining : Reader Unit).run (counts, rest) := by
  have apart : ∀ next : Byte, (0 ≤ next.val ∧ next.val < 0 + 0 ∨
      (widthOf extensionTags next).isSome) →
      widthOf skippedSizes next = none := by
    decide +kernel
  have outside : ¬ (0 ≤ next.val ∧ next.val < 0 + 0) :=
    fun inside => Nat.not_lt_zero _ inside.2
  obtain ⟨width, wide⟩ :=
    Option.isSome_iff_exists.mp (tagged.resolve_left outside)
  unfold skipTurn countOf
  refine (run_bind_ok (peekTag_run next rest)).trans ?_
  simp only [apart next tagged, wide]
  rw [if_neg outside]
  rfl

private theorem skipTurn_array {next : Byte}
    (tagged : 0x90 ≤ next.val ∧ next.val < 0x90 + 16 ∨
      (widthOf arrayTags next).isSome) (rest : Bytes) :
    skipTurn.run (counts, next :: rest) =
      (startArray 0 >>= fun _ => updateTagsRemaining).run
        (counts, next :: rest) := by
  have apart : ∀ next : Byte, (0x90 ≤ next.val ∧ next.val < 0x90 + 16 ∨
      (widthOf arrayTags next).isSome) →
      widthOf skippedSizes next = none ∧ widthOf extensionTags next = none ∧
        ¬ (widthOf binaryTags next).isSome ∧
        ¬ (0xa0 ≤ next.val ∧ next.val < 0xc0 ∨
          (widthOf stringTags next).isSome) := by
    decide +kernel
  obtain ⟨fixed, extension, binary, string⟩ := apart next tagged
  unfold skipTurn
  refine (run_bind_ok (peekTag_run next rest)).trans ?_
  simp only [fixed, extension]
  rw [if_neg binary, if_neg string, if_pos tagged]

private theorem skipTurn_object {next : Byte}
    (tagged : 0x80 ≤ next.val ∧ next.val < 0x80 + 16 ∨
      (widthOf objectTags next).isSome) (rest : Bytes) :
    skipTurn.run (counts, next :: rest) =
      (startObject >>= fun _ => updateTagsRemaining).run
        (counts, next :: rest) := by
  have apart : ∀ next : Byte, (0x80 ≤ next.val ∧ next.val < 0x80 + 16 ∨
      (widthOf objectTags next).isSome) →
      widthOf skippedSizes next = none ∧ widthOf extensionTags next = none ∧
        ¬ (widthOf binaryTags next).isSome ∧
        ¬ (0xa0 ≤ next.val ∧ next.val < 0xc0 ∨
          (widthOf stringTags next).isSome) ∧
        ¬ (0x90 ≤ next.val ∧ next.val < 0xa0 ∨
          (widthOf arrayTags next).isSome) := by
    decide +kernel
  obtain ⟨fixed, extension, binary, string, array⟩ := apart next tagged
  unfold skipTurn
  refine (run_bind_ok (peekTag_run next rest)).trans ?_
  simp only [fixed, extension]
  rw [if_neg binary, if_neg string, if_neg array, if_pos tagged]

/-! ### Whole lexemes -/

private theorem takes_skipRaw {fixed limit : ℕ} {table : List (Byte × ℕ)}
    {head payload : Bytes} (tagged : TagTable fixed limit table)
    (counted : Counted fixed limit table payload.length head)
    (turn : ∀ {next : Byte},
      (fixed ≤ next.val ∧ next.val < fixed + limit ∨
        (widthOf table next).isSome) → ∀ rest,
      skipTurn.run (⟨tags + 1, depth⟩, next :: rest) =
        ((do
          let bytes ← countOf fixed limit table .string next
          readRaw bytes) >>= fun _ => updateTagsRemaining).run
            (⟨tags + 1, depth⟩, rest)) :
    Takes skipTurn ⟨tags + 1, depth⟩ (head ++ payload) () ⟨tags, depth⟩ := by
  obtain ⟨next, raw, rfl, named, reads⟩ :=
    Counted.takes tagged counted .string
  have takes : Takes ((do
      let bytes ← countOf fixed limit table .string next
      readRaw bytes) >>= fun _ => updateTagsRemaining)
      ⟨tags + 1, depth⟩ (raw ++ payload) () ⟨tags, depth⟩ :=
    Takes.before ((reads _).bind (takes_readRaw payload))
      takes_updateTagsRemaining
  intro rest
  exact (turn named _).trans (takes rest)

private theorem takes_checkRoom (upcoming : ℕ) :
    Takes (checkRoom upcoming 0) counts [] () counts := by
  intro rest
  simp [StateT.run, checkRoom]

/-- A turn takes a whole lexeme. -/
theorem takes_skipTurn {lexeme : Lexeme}
    (fits : lexeme.Fits ⟨tags + 1, depth⟩) :
    Takes skipTurn ⟨tags + 1, depth⟩ lexeme.bytes ()
      (lexeme.count ⟨tags + 1, depth⟩) := by
  cases lexeme with
  | scalar tag payload sized =>
      intro rest
      refine (skipTurn_scalar sized (payload ++ rest)).trans ?_
      rw [List.drop_left]
      rfl
  | string head payload counted =>
      exact takes_skipRaw stringTable counted skipTurn_string
  | binary head payload counted =>
      exact takes_skipRaw binaryTable counted skipTurn_binary
  | extension head type payload counted =>
      obtain ⟨next, raw, rfl, named, reads⟩ :=
        Counted.takes extensionTable counted .string
      intro rest
      have enough : (readRaw payload.length).run
          (⟨tags + 1, depth⟩, type :: (payload ++ rest)) =
            .ok ((type :: payload).take payload.length,
              (⟨tags + 1, depth⟩,
                (type :: payload).drop payload.length ++ rest)) := by
        have long : ¬ (type :: (payload ++ rest)).length < payload.length := by
          rw [List.length_cons, List.length_append]
          lia
        simp only [StateT.run, readRaw, Msgpack.take, if_neg long]
        rw [← List.cons_append,
          List.take_append_of_le_length (Nat.le_succ _),
          List.drop_append_of_le_length (Nat.le_succ _)]
      have last : (removePrefix 1).run (⟨tags + 1, depth⟩,
          (type :: payload).drop payload.length ++ rest) =
            .ok ((), (⟨tags + 1, depth⟩, rest)) := by
        have one : ((type :: payload).drop payload.length).length = 1 := by
          rw [List.length_drop, List.length_cons]
          lia
        exact congrArg (fun left => Except.ok ((), (_, left)))
          (List.drop_left' one)
      refine (skipTurn_extension named (raw ++ type :: payload ++ rest)).trans ?_
      rw [List.append_assoc]
      refine (run_bind_ok (reads _ _)).trans ?_
      refine (run_bind_ok enough).trans ?_
      exact run_bind_ok last
  | array head count counted =>
      obtain ⟨room, shallow⟩ := fits rfl
      obtain ⟨next, raw, rfl, named, reads⟩ :=
        Counted.takes arrayTable counted .array
      have started : Takes (startArray 0) ⟨tags + 1, depth⟩ (next :: raw)
          count ⟨tags + count + 1, depth + 1⟩ := by
        rw [show tags + count + 1 = tags + 1 + count from
          Nat.add_right_comm _ _ _]
        refine (takes_getTag next).bind ((reads _).before ?_)
        refine Takes.after (fun _ => if_neg (Nat.not_lt.mpr room)) ?_
        refine (takes_checkRoom count).after ?_
        exact Takes.after (fun _ => if_neg shallow) (Takes.pure count _)
      have turned : Takes (startArray 0 >>= fun _ => updateTagsRemaining)
          ⟨tags + 1, depth⟩ (next :: raw) () ⟨tags + count, depth + 1⟩ :=
        started.before takes_updateTagsRemaining
      intro rest
      refine (skipTurn_array named (raw ++ rest)).trans ((turned rest).trans ?_)
      rw [Lexeme.count, Lexeme.elements, Nat.add_right_comm]
      rfl
  | object head count counted =>
      obtain ⟨room, shallow⟩ := fits rfl
      obtain ⟨next, raw, rfl, named, -⟩ :=
        Counted.takes objectTable counted .object
      have started : Takes startObject ⟨tags + 1, depth⟩ (next :: raw)
          count ⟨tags + count * 2 + 1, depth + 1⟩ := by
        rw [show tags + count * 2 + 1 = tags + 1 + count * 2 from
          Nat.add_right_comm _ _ _]
        exact Counted.takes_startObject counted room shallow
      have turned : Takes (startObject >>= fun _ => updateTagsRemaining)
          ⟨tags + 1, depth⟩ (next :: raw) () ⟨tags + count * 2, depth + 1⟩ :=
        started.before takes_updateTagsRemaining
      intro rest
      refine (skipTurn_object named (raw ++ rest)).trans
        ((turned rest).trans ?_)
      rw [Lexeme.count, Lexeme.elements, Nat.add_right_comm]
      rfl

/-- Values that cannot be counted, or a level too many. -/
private theorem announce_unfit (returned : ℕ) {values : ℕ}
    {between : Reader Unit}
    (unfit : ¬ (values ≤ maxSize - counts.tagsRemaining ∧
      counts.depth + 1 ≠ maxReadDepth))
    (passes : ∀ counts, Takes between counts [] () counts) (rest : Bytes) :
    ∃ failure, (do
      announce values
      between
      incrementDepth
      return returned : Reader ℕ).run (counts, rest) = .error failure := by
  by_cases room : values ≤ maxSize - counts.tagsRemaining
  · have deep : counts.depth + 1 = maxReadDepth := by
      by_contra shallow
      exact unfit ⟨room, shallow⟩
    have announced : (announce values).run (counts, rest) =
        .ok ((), (⟨counts.tagsRemaining + values, counts.depth⟩, rest)) :=
      if_neg (Nat.not_lt.mpr room)
    exact ⟨_, (run_bind_ok announced).trans ((run_bind_ok (passes _ rest)).trans
      (run_bind_error (if_pos deep)))⟩
  · exact ⟨_, run_bind_error (if_pos (Nat.lt_of_not_le room))⟩

private theorem startArray_unfit {count : ℕ} {head : Bytes}
    (counted : Counted 0x90 16 arrayTags count head)
    (unfit : ¬ (count ≤ maxSize - counts.tagsRemaining ∧
      counts.depth + 1 ≠ maxReadDepth)) (rest : Bytes) :
    ∃ failure, (startArray 0).run (counts, head ++ rest) = .error failure := by
  obtain ⟨next, raw, rfl, -, reads⟩ := Counted.takes arrayTable counted .array
  obtain ⟨failure, failed⟩ := announce_unfit count unfit
    (fun _ => takes_checkRoom count) rest
  exact ⟨failure, (run_bind_ok (takes_getTag next (raw ++ rest))).trans
    ((run_bind_ok (reads counts rest)).trans failed)⟩

theorem startObject_unfit {count : ℕ} {head : Bytes}
    (counted : Counted 0x80 16 objectTags count head)
    (unfit : ¬ (count * 2 ≤ maxSize - counts.tagsRemaining ∧
      counts.depth + 1 ≠ maxReadDepth)) (rest : Bytes) :
    ∃ failure, startObject.run (counts, head ++ rest) = .error failure := by
  obtain ⟨next, raw, rfl, -, reads⟩ := Counted.takes objectTable counted .object
  obtain ⟨failure, failed⟩ := announce_unfit count unfit
    (fun counts => Takes.pure () counts) rest
  have started : startObject.run (counts, next :: raw ++ rest) =
      (if maxSize / 2 < count then throw .maxTreeSize
      else do
        announce (count * 2)
        incrementDepth
        return count : Reader ℕ).run (counts, rest) :=
    (run_bind_ok (takes_getTag next (raw ++ rest))).trans
      (run_bind_ok (reads counts rest))
  by_cases half : maxSize / 2 < count
  · rw [if_pos half] at started
    exact ⟨_, started⟩
  · rw [if_neg half] at started
    exact ⟨failure, started.trans failed⟩

/-- A turn fails at an array or an object that is too much for the reader. -/
theorem skipTurn_unfit {lexeme : Lexeme} (unfit : ¬ lexeme.Fits counts)
    (rest : Bytes) :
    ∃ failure, skipTurn.run (counts, lexeme.bytes ++ rest) =
      .error failure := by
  cases lexeme with
  | scalar | string | binary | extension =>
      exact absurd (fun level => nomatch level) unfit
  | array head count counted =>
      obtain ⟨next, raw, rfl, named, -⟩ :=
        Counted.takes arrayTable counted .array
      obtain ⟨failure, failed⟩ :=
        startArray_unfit counted (fun fits => unfit fun _ => fits) rest
      exact ⟨failure, (skipTurn_array named (raw ++ rest)).trans
        (run_bind_error failed)⟩
  | object head count counted =>
      obtain ⟨next, raw, rfl, named, -⟩ :=
        Counted.takes objectTable counted .object
      obtain ⟨failure, failed⟩ :=
        startObject_unfit counted (fun fits => unfit fun _ => fits) rest
      exact ⟨failure, (skipTurn_object named (raw ++ rest)).trans
        (run_bind_error failed)⟩

/-! ### Cut lexemes -/

/-- A cut of two lists goes through one of them. -/
private theorem cut_append {α : Type} {part left right : List α}
    (begins : part <+: left ++ right) (cut : part ≠ left ++ right) :
    (part <+: left ∧ part ≠ left) ∨
      ∃ more, part = left ++ more ∧ more <+: right ∧ more ≠ right := by
  rcases List.prefix_or_prefix_of_prefix begins (List.prefix_append left right)
    with short | long
  · by_cases whole : part = left
    · refine .inr ⟨[], by rw [whole, List.append_nil], List.nil_prefix, ?_⟩
      rintro rfl
      exact cut (by rw [whole, List.append_nil])
    · exact .inl ⟨short, whole⟩
  · obtain ⟨more, rfl⟩ := long
    refine .inr ⟨more, rfl, (List.prefix_append_right_inj left).mp begins, ?_⟩
    rintro rfl
    exact cut rfl

private theorem length_lt_of_cut {α : Type} {part whole : List α}
    (begins : part <+: whole) (cut : part ≠ whole) :
    part.length < whole.length :=
  Nat.lt_of_le_of_ne begins.length_le fun same =>
    cut (begins.eq_of_length same)

private theorem readRaw_short {bytes : ℕ} {part : Bytes}
    (short : part.length < bytes) :
    (readRaw bytes).run (counts, part) = .error (.wire .notEnoughBytes) := by
  simp only [StateT.run, readRaw, Msgpack.take, if_pos short]

private theorem countOf_cut {fixed limit : ℕ} {table : List (Byte × ℕ)}
    {count : ℕ} {next : Byte} {raw part : Bytes}
    (tagged : TagTable fixed limit table)
    (counted : Counted fixed limit table count (next :: raw))
    (expected : Schema) (begins : part <+: raw) (cut : part ≠ raw) :
    (countOf fixed limit table expected next).run (counts, part) =
      .error (.wire .notEnoughBytes) := by
  have short := length_lt_of_cut begins cut
  rcases counted with ⟨below, same⟩ | ⟨tag, member, fits, same⟩
  · obtain ⟨rfl, rfl⟩ := List.cons.inj same
    exact absurd short (Nat.not_lt_zero _)
  · obtain ⟨rfl, rfl⟩ := List.cons.inj same
    rw [length_toBytes] at short
    rw [countOf, if_neg (fun inside =>
      Nat.not_lt.mpr (tagged.apart tag member) inside.2),
      tagged.width tag member]
    exact run_bind_error (readRaw_short short)

private theorem skipRaw_cut {fixed limit : ℕ} {table : List (Byte × ℕ)}
    {next : Byte} {raw payload part : Bytes}
    (tagged : TagTable fixed limit table)
    (counted : Counted fixed limit table payload.length (next :: raw))
    (begins : part <+: raw ++ payload) (cut : part ≠ raw ++ payload) :
    ((do
      let bytes ← countOf fixed limit table .string next
      readRaw bytes) >>= fun _ => updateTagsRemaining).run (counts, part) =
        .error (.wire .notEnoughBytes) := by
  refine run_bind_error ?_
  rcases cut_append begins cut with ⟨begins, cut⟩ | ⟨more, rfl, begins, cut⟩
  · exact run_bind_error (countOf_cut tagged counted .string begins cut)
  · obtain ⟨_, _, same, -, reads⟩ := Counted.takes tagged counted .string
    obtain ⟨rfl, rfl⟩ := List.cons.inj same
    refine (run_bind_ok (reads counts more)).trans ?_
    exact readRaw_short (length_lt_of_cut begins cut)

private theorem skipTurn_nil :
    skipTurn.run (counts, []) = .error (.wire .notEnoughBytes) := rfl

private theorem cut_cons {lexeme : Lexeme} {next : Byte} {raw part : Bytes}
    (same : lexeme.bytes = next :: raw) (begins : part <+: lexeme.bytes)
    (cut : part ≠ lexeme.bytes) :
    part = [] ∨ ∃ more, part = next :: more ∧ more <+: raw ∧ more ≠ raw := by
  rw [same] at begins cut
  cases part with
  | nil => exact .inl rfl
  | cons first more =>
      obtain ⟨rfl, later⟩ := List.cons_prefix_cons.mp begins
      exact .inr ⟨more, rfl, later, fun whole => cut (by rw [whole])⟩

theorem head_ne_nil {fixed limit count : ℕ}
    {table : List (Byte × ℕ)} {head : Bytes}
    (counted : Counted fixed limit table count head) : head ≠ [] := by
  rcases counted with ⟨-, rfl⟩ | ⟨tag, -, -, rfl⟩ <;> exact List.cons_ne_nil _ _

private theorem not_clamps_nil (lexeme : Lexeme) : ¬ lexeme.Clamps [] := by
  cases lexeme with
  | scalar => exact fun some => some rfl
  | extension head type payload counted =>
      intro full
      have empty : head.length = 0 := Nat.eq_zero_of_add_eq_zero_right full.symm
      exact head_ne_nil counted (List.length_eq_zero_iff.mp empty)
  | string | binary | array | object => exact id

/-- A cut lexeme passes for a whole one, or the turn fails. -/
theorem skipTurn_cut {lexeme : Lexeme} {part : Bytes}
    (begins : part <+: lexeme.bytes) (cut : part ≠ lexeme.bytes) :
    (lexeme.Clamps part →
      skipTurn.run (counts, part) = updateTagsRemaining.run (counts, [])) ∧
    (¬ lexeme.Clamps part →
      skipTurn.run (counts, part) = .error (.wire .notEnoughBytes)) := by
  by_cases empty : part = []
  · subst empty
    exact ⟨fun clamps => absurd clamps (not_clamps_nil lexeme),
      fun _ => skipTurn_nil⟩
  cases lexeme with
  | scalar tag payload sized =>
      obtain ⟨more, rfl, begins, cut⟩ :=
        (cut_cons rfl begins cut).resolve_left empty
      refine ⟨fun _ => ?_, fun whole => absurd empty whole⟩
      rw [skipTurn_scalar sized,
        List.drop_eq_nil_of_le begins.length_le]
  | string head payload counted =>
      obtain ⟨next, raw, rfl, named, -⟩ :=
        Counted.takes stringTable counted .string
      obtain ⟨more, rfl, begins, cut⟩ :=
        (cut_cons rfl begins cut).resolve_left empty
      exact ⟨False.elim, fun _ => (skipTurn_string named more).trans
        (skipRaw_cut stringTable counted begins cut)⟩
  | binary head payload counted =>
      obtain ⟨next, raw, rfl, named, -⟩ :=
        Counted.takes binaryTable counted .string
      obtain ⟨more, rfl, begins, cut⟩ :=
        (cut_cons rfl begins cut).resolve_left empty
      exact ⟨False.elim, fun _ => (skipTurn_binary named more).trans
        (skipRaw_cut binaryTable counted begins cut)⟩
  | extension head type payload counted =>
      obtain ⟨next, raw, rfl, named, reads⟩ :=
        Counted.takes extensionTable counted .string
      obtain ⟨more, rfl, begins, cut⟩ :=
        (cut_cons rfl begins cut).resolve_left empty
      have turn : skipTurn.run (counts, next :: more) = _ :=
        skipTurn_extension named more
      rcases cut_append begins cut with ⟨begins, cut⟩ | ⟨left, rfl, begins, cut⟩
      · have short := length_lt_of_cut begins cut
        refine ⟨fun full => ?_, fun _ => turn.trans (run_bind_error
          (countOf_cut extensionTable counted .string begins cut))⟩
        have full : more.length + 1 = raw.length + 1 + payload.length := full
        lia
      · have within : left.length < payload.length + 1 :=
          length_lt_of_cut begins cut
        have length : (Lexeme.extension (next :: raw) type payload
            counted).Clamps (next :: (raw ++ left)) ↔
              left.length = payload.length := by
          show (raw ++ left).length + 1 = raw.length + 1 + payload.length ↔ _
          rw [List.length_append]
          lia
        have turned := turn.trans (run_bind_ok (reads counts left))
        refine ⟨fun full => turned.trans ?_, fun short => turned.trans ?_⟩
        · have taken : (readRaw left.length).run (counts, left ++ []) =
              .ok (left, (counts, [])) := takes_readRaw left []
          rw [length.mp full, List.append_nil] at taken
          exact run_bind_ok taken
        · exact run_bind_error (readRaw_short (Nat.lt_of_le_of_ne
            (Nat.le_of_lt_succ within) fun full => short (length.mpr full)))
  | array head count counted =>
      obtain ⟨next, raw, rfl, named, -⟩ :=
        Counted.takes arrayTable counted .array
      obtain ⟨more, rfl, begins, cut⟩ :=
        (cut_cons rfl begins cut).resolve_left empty
      refine ⟨False.elim, fun _ => (skipTurn_array named more).trans ?_⟩
      refine run_bind_error ((run_bind_ok (takes_getTag next more)).trans ?_)
      exact run_bind_error (countOf_cut arrayTable counted .array begins cut)
  | object head count counted =>
      obtain ⟨next, raw, rfl, named, -⟩ :=
        Counted.takes objectTable counted .object
      obtain ⟨more, rfl, begins, cut⟩ :=
        (cut_cons rfl begins cut).resolve_left empty
      refine ⟨False.elim, fun _ => (skipTurn_object named more).trans ?_⟩
      refine run_bind_error ((run_bind_ok (takes_getTag next more)).trans ?_)
      exact run_bind_error (countOf_cut objectTable counted .object begins cut)

end Reader

/-! ## The lexemes of an item -/

namespace Lexeme

/-- The lexemes of `pending` items: something is pending until the last. -/
structure Balanced (pending : ℕ) (lexemes : List Lexeme) : Prop where
  all : lexemes.length = allElements lexemes + pending
  before : ∀ before after, lexemes = before ++ after → after ≠ [] →
    before.length < allElements before + pending

theorem allElements_append (left right : List Lexeme) :
    allElements (left ++ right) = allElements left + allElements right := by
  rw [allElements, List.map_append, List.sum_append]
  rfl

theorem allElements_cons (lexeme : Lexeme) (lexemes : List Lexeme) :
    allElements (lexeme :: lexemes) =
      lexeme.elements + allElements lexemes := by
  rw [allElements, List.map_cons, List.sum_cons]
  rfl

theorem Balanced.nil : Balanced 0 [] := by
  refine ⟨rfl, ?_⟩
  intro before after split more
  exact absurd (List.append_eq_nil_iff.mp split.symm).2 more

theorem Balanced.append {left right : List Lexeme} {first second : ℕ}
    (lefts : Balanced first left) (rights : Balanced second right) :
    Balanced (first + second) (left ++ right) := by
  have leftAll := lefts.all
  have rightAll := rights.all
  refine ⟨?_, ?_⟩
  · rw [List.length_append, allElements_append]
    lia
  · intro before after split more
    rcases List.append_eq_append_iff.mp split with
      ⟨middle, rfl, same⟩ | ⟨middle, rfl, rfl⟩
    · have rest := rights.before middle after same more
      rw [List.length_append, allElements_append]
      lia
    · cases middle with
      | nil =>
          have some := rights.before [] right rfl more
          rw [List.append_nil] at leftAll
          have none : allElements [] = 0 := rfl
          rw [none, List.length_nil] at some
          lia
      | cons lexeme middle =>
          have within := lefts.before before _ rfl (List.cons_ne_nil _ _)
          lia

theorem Balanced.flatten {blocks : List (List Lexeme)}
    (each : ∀ block ∈ blocks, Balanced 1 block) :
    Balanced blocks.length blocks.flatten := by
  induction blocks with
  | nil => exact Balanced.nil
  | cons block blocks induction =>
      rw [List.length_cons, Nat.add_comm, List.flatten_cons]
      exact (each block List.mem_cons_self).append
        (induction fun other member => each other (List.mem_cons_of_mem _ member))

theorem Balanced.cons {lexeme : Lexeme} {lexemes : List Lexeme}
    (elements : Balanced lexeme.elements lexemes) :
    Balanced 1 (lexeme :: lexemes) := by
  have all := elements.all
  refine ⟨?_, ?_⟩
  · rw [List.length_cons, allElements_cons]
    lia
  · intro before after split more
    cases before with
    | nil => exact Nat.one_pos
    | cons first before =>
        obtain ⟨rfl, rest⟩ := List.cons.inj split
        have within := elements.before before after rest more
        rw [List.length_cons, allElements_cons]
        lia

end Lexeme

theorem Item.balanced (item : Item) : Lexeme.Balanced 1 item.lexemes := by
  induction item with
  | mk lexeme elements induction =>
      have each : ∀ block ∈ List.ofFn fun index => (elements index).lexemes,
          Lexeme.Balanced 1 block := by
        intro block member
        obtain ⟨index, rfl⟩ := List.mem_ofFn.mp member
        exact induction index
      have blocks := Lexeme.Balanced.flatten each
      rw [List.length_ofFn] at blocks
      exact blocks.cons

namespace Reader

variable {tags depth : ℕ} {counts : Counts}

/-! ## Runs of the loop -/

private theorem skipTurns_turn (initial turns : ℕ) {source rest : Bytes}
    {after : Counts}
    (turn : skipTurn.run (counts, source) = .ok ((), (after, rest))) :
    (skipTurns initial (turns + 1)).run (counts, source) =
      if initial ≤ after.tagsRemaining then
        (skipTurns initial turns).run (after, rest)
      else .ok ((), (after, rest)) := by
  refine (run_bind_ok turn).trans ?_
  show (if initial ≤ after.tagsRemaining then skipTurns initial turns
    else pure ()).run (after, rest) = _
  split <;> rfl

private theorem skipTurns_nil (initial turns : ℕ) :
    (skipTurns initial turns).run (counts, []) =
      .error (.wire .notEnoughBytes) := by
  cases turns with
  | zero => rfl
  | succ turns => exact run_bind_error skipTurn_nil

/-- At least `initial` values are missing between the lexemes. -/
def Open (initial : ℕ) (counts : Counts) (lexemes : List Lexeme) : Prop :=
  ∀ before after, lexemes = before ++ after →
    initial + before.length ≤
      counts.tagsRemaining + Lexeme.allElements before

private theorem Open.cons {initial : ℕ} {lexeme : Lexeme}
    {lexemes : List Lexeme} (opened : Open initial counts (lexeme :: lexemes))
    (positive : 0 < initial) :
    initial ≤ (lexeme.count counts).tagsRemaining ∧
      Open initial (lexeme.count counts) lexemes := by
  have start := opened [] _ rfl
  have first := opened [lexeme] lexemes rfl
  have single : Lexeme.allElements [lexeme] = lexeme.elements := Nat.add_zero _
  rw [single, List.length_singleton] at first
  have left : (lexeme.count counts).tagsRemaining + 1 =
      counts.tagsRemaining + lexeme.elements :=
    Nat.sub_add_cancel (by lia)
  refine ⟨by lia, ?_⟩
  intro before after split
  have later := opened (lexeme :: before) after (by rw [split]; rfl)
  rw [List.length_cons, Lexeme.allElements_cons] at later
  lia

/-- The loop reads on behind lexemes that leave values open. -/
theorem skipTurns_lexemes (turns : ℕ) {initial : ℕ} {lexemes : List Lexeme}
    (positive : 0 < initial) (opened : Open initial counts lexemes)
    (rest : Bytes) :
    (Lexeme.FitsAll counts lexemes →
      (skipTurns initial (turns + lexemes.length)).run
          (counts, lexemes.flatMap Lexeme.bytes ++ rest) =
        (skipTurns initial turns).run
          (Lexeme.countAll counts lexemes, rest)) ∧
    (¬ Lexeme.FitsAll counts lexemes →
      ∃ failure, (skipTurns initial (turns + lexemes.length)).run
          (counts, lexemes.flatMap Lexeme.bytes ++ rest) =
        .error failure) := by
  induction lexemes generalizing counts with
  | nil => exact ⟨fun _ => rfl, fun unfit => absurd trivial unfit⟩
  | cons lexeme lexemes induction =>
      obtain ⟨pending, later⟩ := opened.cons positive
      have some : 0 < counts.tagsRemaining :=
        Nat.lt_of_lt_of_le positive (opened [] _ rfl)
      obtain ⟨tags, depth⟩ := counts
      obtain ⟨tags, rfl⟩ := Nat.exists_eq_add_one_of_ne_zero some.ne'
      rw [List.flatMap_cons, List.append_assoc, List.length_cons,
        ← Nat.add_assoc]
      by_cases first : lexeme.Fits ⟨tags + 1, depth⟩
      · have turned := skipTurns_turn initial (turns + lexemes.length)
          (takes_skipTurn first (lexemes.flatMap Lexeme.bytes ++ rest))
        rw [if_pos pending] at turned
        obtain ⟨fits, unfit⟩ := induction later
        refine ⟨fun all => turned.trans (fits all.2), fun none => ?_⟩
        obtain ⟨failure, failed⟩ := unfit fun all => none ⟨first, all⟩
        exact ⟨failure, turned.trans failed⟩
      · obtain ⟨failure, failed⟩ := skipTurn_unfit first
          (lexemes.flatMap Lexeme.bytes ++ rest)
        exact ⟨fun all => absurd all.1 first,
          fun _ => ⟨failure, run_bind_error failed⟩⟩

/-- What is left behind open lexemes. -/
theorem tags_countAll {initial : ℕ} {lexemes : List Lexeme}
    (positive : 0 < initial) (opened : Open initial counts lexemes) :
    (Lexeme.countAll counts lexemes).tagsRemaining + lexemes.length =
      counts.tagsRemaining + Lexeme.allElements lexemes := by
  induction lexemes generalizing counts with
  | nil => rfl
  | cons lexeme lexemes induction =>
      obtain ⟨-, later⟩ := opened.cons positive
      have left := induction later
      have start : initial ≤ counts.tagsRemaining := opened [] _ rfl
      have counted : (lexeme.count counts).tagsRemaining + 1 =
          counts.tagsRemaining + lexeme.elements :=
        Nat.sub_add_cancel (by lia)
      rw [List.length_cons, Lexeme.allElements_cons]
      have same : Lexeme.countAll counts (lexeme :: lexemes) =
          Lexeme.countAll (lexeme.count counts) lexemes := rfl
      rw [same]
      lia

theorem depth_countAll (lexemes : List Lexeme) :
    (Lexeme.countAll counts lexemes).depth =
      counts.depth + (lexemes.map Lexeme.levels).sum := by
  induction lexemes generalizing counts with
  | nil => rfl
  | cons lexeme lexemes induction =>
      have later := @induction (lexeme.count counts)
      rw [List.map_cons, List.sum_cons, ← Nat.add_assoc]
      exact later

theorem bytes_ne_nil (lexeme : Lexeme) : lexeme.bytes ≠ [] := by
  cases lexeme with
  | scalar => exact List.cons_ne_nil _ _
  | string head payload counted | binary head payload counted
  | extension head type payload counted =>
      exact fun none => head_ne_nil counted (List.append_eq_nil_iff.mp none).1
  | array head count counted | object head count counted =>
      exact head_ne_nil counted

private theorem length_le_bytes (lexemes : List Lexeme) :
    lexemes.length ≤ (lexemes.flatMap Lexeme.bytes).length := by
  induction lexemes with
  | nil => exact le_rfl
  | cons lexeme lexemes induction =>
      have some := List.length_pos_of_ne_nil (bytes_ne_nil lexeme)
      rw [List.flatMap_cons, List.length_append, List.length_cons]
      lia

/-- A cut of lexemes goes through one of them. -/
private theorem cut_lexemes {part : Bytes} {lexemes : List Lexeme}
    (begins : part <+: lexemes.flatMap Lexeme.bytes)
    (cut : part ≠ lexemes.flatMap Lexeme.bytes) :
    ∃ before lexeme after more, lexemes = before ++ lexeme :: after ∧
      part = before.flatMap Lexeme.bytes ++ more ∧
      more <+: lexeme.bytes ∧ more ≠ lexeme.bytes := by
  induction lexemes generalizing part with
  | nil => exact absurd (List.prefix_nil.mp begins) cut
  | cons lexeme lexemes induction =>
      rw [List.flatMap_cons] at begins cut
      rcases cut_append begins cut with ⟨begins, cut⟩ | ⟨rest, rfl, begins, cut⟩
      · exact ⟨[], lexeme, lexemes, part, rfl, rfl, begins, cut⟩
      · obtain ⟨before, other, after, more, rfl, rfl, begins, cut⟩ :=
          induction begins cut
        refine ⟨lexeme :: before, other, after, more, rfl, ?_, begins, cut⟩
        rw [List.flatMap_cons, List.append_assoc]

/-! ## Skipping a value -/

/-- A value is missing, and the count is not the greatest. -/
def Counting (counts : Counts) : Prop :=
  0 < counts.tagsRemaining ∧ counts.tagsRemaining ≠ maxSize

private theorem skipTurns_zero (counts : Counts) (turns : ℕ)
    (source : Bytes) :
    ∃ failure, (skipTurns 0 turns).run (counts, source) =
      .error failure := by
  induction turns generalizing counts source with
  | zero => exact ⟨_, rfl⟩
  | succ turns induction =>
      cases turned : skipTurn.run (counts, source) with
      | error failure => exact ⟨failure, run_bind_error turned⟩
      | ok result =>
          obtain ⟨⟨⟩, after, rest⟩ := result
          have next := skipTurns_turn 0 turns turned
          rw [if_pos (Nat.zero_le _)] at next
          obtain ⟨failure, failed⟩ := induction after rest
          exact ⟨failure, next.trans failed⟩

theorem skipValue_uncounted (uncounted : ¬ Counting counts)
    (source : Bytes) :
    ∃ failure, skipValue.run (counts, source) = .error failure := by
  by_cases greatest : counts.tagsRemaining = maxSize
  · refine ⟨.maxTreeSize, ?_⟩
    show (if counts.tagsRemaining = maxSize then throw .maxTreeSize
      else skipTurns counts.tagsRemaining (source.length + 1)).run
        (counts, source) = _
    rw [if_pos greatest]
    rfl
  · have none : counts.tagsRemaining = 0 :=
      Nat.eq_zero_of_not_pos fun some => uncounted ⟨some, greatest⟩
    obtain ⟨failure, failed⟩ :=
      skipTurns_zero counts (source.length + 1) source
    refine ⟨failure, ?_⟩
    show (if counts.tagsRemaining = maxSize then throw .maxTreeSize
      else skipTurns counts.tagsRemaining (source.length + 1)).run
        (counts, source) = _
    rw [if_neg greatest, none]
    exact failed

private theorem skipValue_counting (counting : Counting counts)
    (source : Bytes) :
    skipValue.run (counts, source) =
      (skipTurns counts.tagsRemaining (source.length + 1)).run
        (counts, source) := by
  show (if counts.tagsRemaining = maxSize then throw .maxTreeSize
    else skipTurns counts.tagsRemaining (source.length + 1)).run
      (counts, source) = _
  rw [if_neg counting.2]

private theorem fitsAll_append {left right : List Lexeme} :
    Lexeme.FitsAll counts (left ++ right) ↔
      Lexeme.FitsAll counts left ∧
        Lexeme.FitsAll (Lexeme.countAll counts left) right := by
  induction left generalizing counts with
  | nil => exact (and_iff_right trivial).symm
  | cons lexeme left induction =>
      exact (and_congr_right fun _ => induction).trans and_assoc.symm

private theorem open_item (counts : Counts) {item : Item} {before after : List Lexeme}
    (split : item.lexemes = before ++ after) (more : after ≠ []) :
    Open counts.tagsRemaining counts before := by
  rintro first second rfl
  have balanced := item.balanced.before first (second ++ after)
    (by rw [split, List.append_assoc])
    (fun none => more (List.append_eq_nil_iff.mp none).2)
  lia

/-- The loop stands before a lexeme of the item. -/
private theorem skipValue_before {item : Item} {before after : List Lexeme}
    {lexeme : Lexeme} (counting : Counting counts)
    (split : item.lexemes = before ++ lexeme :: after) (part : Bytes) :
    (Lexeme.FitsAll counts before → ∃ turns,
      skipValue.run (counts, before.flatMap Lexeme.bytes ++ part) =
        (skipTurns counts.tagsRemaining (turns + 1)).run
          (Lexeme.countAll counts before, part)) ∧
    (¬ Lexeme.FitsAll counts before → ∃ failure,
      skipValue.run (counts, before.flatMap Lexeme.bytes ++ part) =
        .error failure) := by
  have opened : Open counts.tagsRemaining counts before :=
    open_item counts split (List.cons_ne_nil _ _)
  have enough : before.length ≤
      (before.flatMap Lexeme.bytes ++ part).length := by
    have some := length_le_bytes before
    rw [List.length_append]
    lia
  obtain ⟨turns, same⟩ := Nat.exists_eq_add_of_le' enough
  have fuel : (before.flatMap Lexeme.bytes ++ part).length + 1 =
      turns + 1 + before.length := by
    lia
  obtain ⟨fits, unfit⟩ := skipTurns_lexemes (turns + 1)
    counting.1 opened part
  rw [skipValue_counting counting, fuel]
  exact ⟨fun all => ⟨turns, fits all⟩, unfit⟩

private theorem skipTurn_lexeme {lexeme : Lexeme}
    (some : 0 < counts.tagsRemaining) (fits : lexeme.Fits counts)
    (rest : Bytes) :
    skipTurn.run (counts, lexeme.bytes ++ rest) =
      .ok ((), (lexeme.count counts, rest)) := by
  obtain ⟨tags, depth⟩ := counts
  obtain ⟨tags, rfl⟩ := Nat.exists_eq_add_one_of_ne_zero some.ne'
  exact takes_skipTurn fits rest

/-- A value is skipped with all of its elements, and every array and object
in it leaves the reader one level deeper. -/
theorem skipValue_item (counting : Counting counts) (item : Item)
    (rest : Bytes) :
    (Lexeme.FitsAll counts item.lexemes →
      skipValue.run (counts, item.bytes ++ rest) =
        .ok ((), (⟨counts.tagsRemaining - 1, counts.depth +
          (item.lexemes.map Lexeme.levels).sum⟩, rest))) ∧
    (¬ Lexeme.FitsAll counts item.lexemes → ∃ failure,
      skipValue.run (counts, item.bytes ++ rest) = .error failure) := by
  have some : item.lexemes ≠ [] := by
    cases item
    exact List.cons_ne_nil _ _
  obtain ⟨before, last, split⟩ :=
    (List.eq_nil_or_concat' item.lexemes).resolve_left some
  have opened : Open counts.tagsRemaining counts before :=
    open_item counts split (List.cons_ne_nil _ _)
  have left := tags_countAll counting.1 opened
  have pending := opened before [] (List.append_nil before).symm
  have all := item.balanced.all
  have single : Lexeme.allElements [last] = last.elements := Nat.add_zero _
  rw [split, List.length_append, List.length_singleton,
    Lexeme.allElements_append, single] at all
  have positive := counting.1
  have remain : 0 < (Lexeme.countAll counts before).tagsRemaining := by lia
  have after : last.count (Lexeme.countAll counts before) =
      ⟨counts.tagsRemaining - 1,
        counts.depth + (item.lexemes.map Lexeme.levels).sum⟩ := by
    rw [Lexeme.count, depth_countAll, split, List.map_append,
      List.sum_append, List.map_singleton, List.sum_singleton, Nat.add_assoc]
    congr 1
    lia
  have bytes : item.bytes ++ rest =
      before.flatMap Lexeme.bytes ++ (last.bytes ++ rest) := by
    rw [Item.bytes, split, List.flatMap_append, List.flatMap_singleton,
      List.append_assoc]
  obtain ⟨fits, unfit⟩ := skipValue_before counting split
    (last.bytes ++ rest)
  rw [bytes, ← after, split, fitsAll_append]
  by_cases earlier : Lexeme.FitsAll counts before
  · obtain ⟨turns, reached⟩ := fits earlier
    rw [reached]
    by_cases final : last.Fits (Lexeme.countAll counts before)
    · have turned := skipTurns_turn counts.tagsRemaining turns
        (skipTurn_lexeme remain final rest)
      have done : ¬ counts.tagsRemaining ≤
          (last.count (Lexeme.countAll counts before)).tagsRemaining := by
        rw [after]
        lia
      rw [if_neg done] at turned
      exact ⟨fun _ => turned, fun none => absurd ⟨earlier, final, trivial⟩ none⟩
    · obtain ⟨failure, failed⟩ := skipTurn_unfit final rest
      exact ⟨fun all => absurd all.2.1 final,
        fun _ => ⟨failure, run_bind_error failed⟩⟩
  · exact ⟨fun all => absurd all.1 earlier, fun _ => unfit earlier⟩

end Reader

/-- The value is cut where the reader does not notice: in its last lexeme, at
a point that passes for the end. -/
def Item.Clamped (counts : Counts) (part : Bytes) (item : Item) : Prop :=
  ∃ before last more, item.lexemes = before ++ [last] ∧
    part = before.flatMap Lexeme.bytes ++ more ∧
    more <+: last.bytes ∧ more ≠ last.bytes ∧ last.Clamps more ∧
    Lexeme.FitsAll counts before

namespace Reader

variable {counts : Counts}

private theorem elements_of_clamps {lexeme : Lexeme} {part : Bytes}
    (clamps : lexeme.Clamps part) : lexeme.elements = 0 := by
  cases lexeme with
  | scalar | string | binary | extension => rfl
  | array | object => exact clamps.elim

private theorem updateTags_run {source : Bytes}
    (some : 0 < counts.tagsRemaining) :
    updateTagsRemaining.run (counts, source) =
      .ok ((), (⟨counts.tagsRemaining - 1, counts.depth⟩, source)) := by
  obtain ⟨tags, depth⟩ := counts
  obtain ⟨tags, rfl⟩ := Nat.exists_eq_add_one_of_ne_zero some.ne'
  rfl

private theorem skipTurns_clamped (counts : Counts) (initial turns : ℕ)
    {lexeme : Lexeme} {more : Bytes} (some : 0 < counts.tagsRemaining)
    (begins : more <+: lexeme.bytes) (cut : more ≠ lexeme.bytes)
    (clamps : lexeme.Clamps more) :
    (counts.tagsRemaining ≤ initial →
      (skipTurns initial (turns + 1)).run (counts, more) =
        .ok ((), (⟨counts.tagsRemaining - 1, counts.depth⟩, []))) ∧
    (initial < counts.tagsRemaining →
      (skipTurns initial (turns + 1)).run (counts, more) =
        .error (.wire .notEnoughBytes)) := by
  have turned := skipTurns_turn initial turns
    (((skipTurn_cut begins cut).1 clamps).trans (updateTags_run some))
  refine ⟨fun last => ?_, fun further => ?_⟩
  · rwa [if_neg (show ¬ initial ≤ counts.tagsRemaining - 1 by lia)] at turned
  · rw [if_pos (show initial ≤ counts.tagsRemaining - 1 by lia)] at turned
    exact turned.trans (skipTurns_nil initial turns)

/-- A value that is cut off fails unless the cut is clamped. -/
theorem skipValue_cut {item : Item} {part : Bytes}
    (begins : part <+: item.bytes) (cut : part ≠ item.bytes) :
    (∃ failure, skipValue.run (counts, part) = .error failure) ↔
      ¬ (Counting counts ∧ item.Clamped counts part) := by
  by_cases counting : Counting counts
  swap
  · exact iff_of_true (skipValue_uncounted counting part)
      fun clamped => counting clamped.1
  rw [not_and, imp_iff_right counting]
  have positive := counting.1
  constructor
  · rintro ⟨failure, failed⟩
      ⟨before, last, more, split, rfl, begins, cut, clamps, fits⟩
    have left := tags_countAll positive
      (open_item counts split (List.cons_ne_nil _ _))
    have all := item.balanced.all
    have none : Lexeme.allElements [last] = 0 :=
      (Nat.add_zero _).trans (elements_of_clamps clamps)
    rw [split, List.length_append, List.length_singleton,
      Lexeme.allElements_append, none] at all
    obtain ⟨turns, reached⟩ := (skipValue_before counting split more).1 fits
    have done := (skipTurns_clamped (Lexeme.countAll counts before)
      counts.tagsRemaining turns (by lia) begins cut clamps).1 (by lia)
    rw [reached, done] at failed
    cases failed
  · intro unclamped
    obtain ⟨before, lexeme, after, more, split, rfl, begins, cut⟩ :=
      cut_lexemes begins cut
    obtain ⟨fits, unfit⟩ := skipValue_before counting split more
    by_cases earlier : Lexeme.FitsAll counts before
    swap
    · exact unfit earlier
    obtain ⟨turns, reached⟩ := fits earlier
    by_cases clamps : lexeme.Clamps more
    swap
    · exact ⟨_, reached.trans
        (run_bind_error ((skipTurn_cut begins cut).2 clamps))⟩
    have unfinished : after ≠ [] := by
      rintro rfl
      exact unclamped
        ⟨before, lexeme, more, split, rfl, begins, cut, clamps, earlier⟩
    have left := tags_countAll positive
      (open_item counts split (List.cons_ne_nil _ _))
    have none : Lexeme.allElements [lexeme] = 0 :=
      (Nat.add_zero _).trans (elements_of_clamps clamps)
    have pending := item.balanced.before (before ++ [lexeme]) after
      (by rw [split, List.append_assoc]; rfl) unfinished
    rw [List.length_append, List.length_singleton,
      Lexeme.allElements_append, none] at pending
    have failed := (skipTurns_clamped (Lexeme.countAll counts before)
      counts.tagsRemaining turns (by lia) begins cut clamps).2 (by lia)
    exact ⟨_, reached.trans failed⟩

/-! ## One value exactly -/

/-- `skip_value` removes one value: all of it, nothing else, and never a part.
An entry under an unknown key then changes nothing for the entries behind. -/
structure SkipsOneValue (counts : Counts) (source : Bytes) : Prop where
  whole : ∀ (item : Item) rest, source = item.bytes ++ rest →
    skipValue.run (counts, source) =
      .ok ((), (⟨counts.tagsRemaining - 1, counts.depth⟩, rest))
  part : ∀ item : Item, source <+: item.bytes → source ≠ item.bytes →
    ∃ failure, skipValue.run (counts, source) = .error failure
  entry : ∀ (map : List KeyMap) state before (item : Item) rest,
    source = item.bytes ++ rest →
    (matchKey map).run before = .ok (none, (counts, source)) →
    (key map (state + 1)).run before =
      (do
        let found ← key map state
        return found.map fun (left, index) => (left.castSucc, index)
          : Reader _).run
        (⟨counts.tagsRemaining - 1, counts.depth⟩, rest)

/-- The value is no array and no object, and the input does not end where the
reader takes a part of a value for the whole. -/
structure Skippable (counts : Counts) (source : Bytes) : Prop where
  scalar : ∀ (item : Item) rest, source = item.bytes ++ rest →
    Counting counts ∧ item.Scalar
  noticed : ∀ item : Item, source <+: item.bytes → source ≠ item.bytes →
    ¬ (Counting counts ∧ item.Clamped counts source)

private theorem lexemes_scalar {lexeme : Lexeme}
    (elements : Fin lexeme.elements → Item) (scalar : lexeme.levels = 0) :
    (Item.mk lexeme elements).lexemes = [lexeme] := by
  cases lexeme with
  | scalar | string | binary | extension =>
      rw [Item.lexemes]
      rfl
  | array | object => exact absurd scalar nofun

theorem skipValue_whole_iff (item : Item) (rest : Bytes) :
    skipValue.run (counts, item.bytes ++ rest) =
        .ok ((), (⟨counts.tagsRemaining - 1, counts.depth⟩, rest)) ↔
      Counting counts ∧ item.Scalar := by
  by_cases counting : Counting counts
  swap
  · obtain ⟨failure, failed⟩ :=
      skipValue_uncounted counting (item.bytes ++ rest)
    rw [failed]
    exact iff_of_false nofun fun scalar => counting scalar.1
  rw [and_iff_right counting]
  obtain ⟨fits, unfit⟩ := skipValue_item counting item rest
  cases item with
  | mk lexeme elements =>
      constructor
      · intro skipped
        by_cases all : Lexeme.FitsAll counts (Item.mk lexeme elements).lexemes
        · have deeper := (fits all).symm.trans skipped
          simp only [Except.ok.injEq, Prod.mk.injEq, Counts.mk.injEq,
            Nat.add_eq_left] at deeper
          have none := deeper.2.1.2
          rw [Item.lexemes, List.map_cons, List.sum_cons] at none
          exact Nat.eq_zero_of_add_eq_zero_right none
        · obtain ⟨failure, failed⟩ := unfit all
          rw [failed] at skipped
          cases skipped
      · intro scalar
        have lexemes := lexemes_scalar elements scalar
        have all : Lexeme.FitsAll counts (Item.mk lexeme elements).lexemes := by
          rw [lexemes]
          exact ⟨fun level => absurd (scalar.symm.trans level) nofun, trivial⟩
        refine (fits all).trans ?_
        rw [lexemes, List.map_singleton, List.sum_singleton, scalar]
        rfl

/-- A value is skipped exactly when it has no elements to leave open, and a
cut is noticed exactly when it is not clamped. -/
theorem skip_value_exact_iff (counts : Counts) (source : Bytes) :
    SkipsOneValue counts source ↔ Skippable counts source := by
  constructor
  · rintro ⟨whole, part, -⟩
    refine ⟨?_, ?_⟩
    · rintro item rest rfl
      exact (skipValue_whole_iff item rest).mp (whole item rest rfl)
    · intro item begins cut
      exact (skipValue_cut begins cut).mp (part item begins cut)
  · rintro ⟨scalar, noticed⟩
    have whole : ∀ (item : Item) rest, source = item.bytes ++ rest →
        skipValue.run (counts, source) =
          .ok ((), (⟨counts.tagsRemaining - 1, counts.depth⟩, rest)) := by
      rintro item rest rfl
      exact (skipValue_whole_iff item rest).mpr (scalar item rest rfl)
    refine ⟨whole, ?_, ?_⟩
    · intro item begins cut
      exact (skipValue_cut begins cut).mpr (noticed item begins cut)
    · intro map state before item rest same unknown
      refine (run_bind_ok unknown).trans ?_
      exact run_bind_ok (whole item rest same)

/-- Behind an empty array the reader is deeper than before it, and the tag of
a number without its bytes is skipped. -/
theorem skip_value_deepens_and_clamps :
    ¬ SkipsOneValue ⟨2, 1⟩ [0x90] ∧ ¬ SkipsOneValue ⟨2, 1⟩ [0xcd] := by
  refine ⟨fun skips => ?_, fun skips => ?_⟩
  · have skipped := skips.whole
      (.mk (.array [0x90] 0 (.inl ⟨by decide, rfl⟩)) Fin.elim0) [] rfl
    revert skipped
    decide
  · obtain ⟨failure, failed⟩ := skips.part
      (.mk (.scalar 0xcd [0, 0] rfl) Fin.elim0) ⟨[0, 0], rfl⟩ nofun
    have skipped : skipValue.run (⟨2, 1⟩, [0xcd]) =
        .ok ((), (⟨1, 1⟩, [])) := by decide
    rw [skipped] at failed
    cases failed

end Reader

end XfoLws.Wire.Msgpack
