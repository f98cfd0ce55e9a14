import XfoLws.Wire.ObjectEntries

/-!
# JSON objects

The functions of `json_reader` that read the keys of an object.  The parser of
single values is not part of the repository: it is a function from texts that
takes a part of what it accepts.
-/

namespace XfoLws.Wire.JsonReader

open Parsing
open Msgpack (KeyMap SameKey maxReadDepth)

/-- `rapidjson::ParseErrorCode`, as far as the reader names it. -/
inductive ParseErrorCode where
  | none
  | termination
  | objectMissColon
  | objectMissCommaOrCurlyBracket
  | other (code : ℕ)
deriving DecidableEq

inductive Thrown where
  /-- `error::schema::none` is no schema. -/
  | schema (failure : Option Schema)
  | rapidjson (code : ParseErrorCode)
  | maximumDepth
  | logicError
deriving DecidableEq

/-- The value of `rapidjson_sax`. -/
inductive Sax where
  | string (contents : Bytes)
  | other
deriving DecidableEq

/-- `rapidjson::Reader`, which stops behind the first value of a text.  The
handler accepts what is expected, or anything; a parse takes bytes. -/
structure Rapidjson where
  parse : (expected : Option Schema) → Bytes → Except ParseErrorCode (Sax × ℕ)
  takes : ∀ {expected source value length},
    parse expected source = .ok (value, length) →
      0 < length ∧ length ≤ source.length

/-- `json_reader`: its depth, and the text that remains. -/
abbrev Reader := Parser Byte ℕ Thrown

def isSpace (byte : Byte) : Bool :=
  byte = 0x20 || byte = 0x09 || byte = 0x0a || byte = 0x0d

/-- The next token stays, and is 0 at the end. -/
def getNextToken : Reader Byte := fun (depth, source) =>
  let left := source.dropWhile isSpace
  .ok (left.headD 0, (depth, left))

/-- `remaining_.remove_prefix(1)`. -/
def removePrefix : Reader Unit := fun (depth, source) =>
  .ok ((), (depth, source.drop 1))

def incrementDepth : Reader Unit := fun (depth, source) =>
  if depth + 1 = maxReadDepth then .error .maximumDepth
  else .ok ((), (depth + 1, source))

/-- `end_object`. -/
def decrementDepth : Reader Unit := fun (depth, source) =>
  match depth with
  | 0 => .error .logicError
  | depth + 1 => .ok ((), (depth, source))

/-- `throw_json_error`: the handler ends the parse at what it does not
expect. -/
def jsonError (expected : Option Schema) : ParseErrorCode → Thrown
  | .none => .schema expected
  | .termination => .schema expected
  | code => .rapidjson code

def startObject : Reader ℕ := do
  let next ← getNextToken
  if next ≠ 0x7b then throw (.schema (some .object))
  else do
    removePrefix
    incrementDepth
    return 0

section Key

variable (rapidjson : Rapidjson)

def readNextValue (expected : Option Schema) : Reader Sax :=
  fun (depth, source) =>
    match rapidjson.parse expected source with
    | .error code => .error (jsonError expected code)
    | .ok (value, length) => .ok (value, (depth, source.drop length))

def skipValue : Reader Sax := readNextValue rapidjson none

/-- `process_key`. -/
def processKey {n : ℕ} (map : Fin n → KeyMap) : Sax → Option (Fin n)
  | .string contents =>
      (List.finRange n).find? fun index => (map index).name = contents
  | .other => none

/-- A comma stands before every key but the first. -/
def takeComma (state : ℕ) (next : Byte) : Reader Unit :=
  if state = 0 then return ()
  else if next ≠ 0x2c then throw (.rapidjson .objectMissCommaOrCurlyBracket)
  else removePrefix

/-- How a turn of the loop of `key` ends. -/
inductive Turn (n : ℕ) where
  | ended
  | found (index : Fin n)
  | skipped

def keyTurn {n : ℕ} (map : Fin n → KeyMap) (state : ℕ) :
    Reader (Turn n) := do
  let next ← getNextToken
  if next = 0 then throw (.rapidjson .objectMissCommaOrCurlyBracket)
  else if next = 0x7d then do
    removePrefix
    return .ended
  else do
    takeComma state next
    let jsonKey ← readNextValue rapidjson (some .string)
    let colon ← getNextToken
    if colon ≠ 0x3a then throw (.rapidjson .objectMissColon)
    else do
      removePrefix
      match processKey map jsonKey with
      | some index => return .found index
      | none => do
          let _ ← skipValue rapidjson
          return .skipped

/-- The loop of `key`.  Every turn that skips a value takes bytes, so there
are at most as many as remain, and one more. -/
def keyTurns {n : ℕ} (map : Fin n → KeyMap) :
    (turns state : ℕ) → Reader (Option (ℕ × Fin n))
  | 0, _ => throw (.rapidjson .objectMissCommaOrCurlyBracket)
  | turns + 1, state => do
      match ← keyTurn rapidjson map state with
      | .ended => return none
      | .found index => return some (state + 1, index)
      | .skipped => keyTurns map turns (state + 1)

def key {n : ℕ} (map : Fin n → KeyMap) (state : ℕ) :
    Reader (Option (ℕ × Fin n)) := do
  let (_, source) ← get
  keyTurns rapidjson map (source.length + 1) state

/-- `json_reader`, as `wire_read::object` calls it. -/
def objectReader : ObjectReader ℕ Thrown where
  startObject := startObject
  key := key rapidjson
  endObject := decrementDepth
  throws error := .schema (some error.code)

/-! ### Texts -/

def Spaces (text : Bytes) : Prop := ∀ byte ∈ text, isSpace byte = true

@[simp] theorem spaces_nil : Spaces [] := nofun

/-- What may follow a value. -/
def Delimits (rest : Bytes) : Prop :=
  ∀ next ∈ rest.head?, isSpace next = true ∨ next ∈ [0x2c, 0x5d, 0x7d]

/-- The text of an entry; the value may begin with spaces. -/
structure Entry where
  before : Bytes
  key : Bytes
  contents : Bytes
  behindKey : Bytes
  value : Bytes
  behind : Bytes
  spaces : Spaces before ∧ Spaces behindKey ∧ Spaces behind
  /-- The key is a string. -/
  quoted : key.head? = some 0x22
  reads : ∀ gap rest, Spaces gap →
    rapidjson.parse (some .string) (gap ++ (key ++ rest)) =
      .ok (.string contents, gap.length + key.length)

variable {rapidjson}

namespace Entry

def text (entry : Entry rapidjson) : Bytes :=
  entry.before ++ (entry.key ++
    (entry.behindKey ++ 0x3a :: (entry.value ++ entry.behind)))

/-- The parser takes the text for one value. -/
def Skipped (entry : Entry rapidjson) : Prop :=
  ∀ rest, Delimits rest → ∃ value,
    rapidjson.parse none (entry.value ++ rest) =
      .ok (value, entry.value.length)

end Entry

/-- Entries behind others, or the first ones. -/
def bodyText (state : ℕ) : List (Entry rapidjson) → Bytes
  | [] => []
  | entry :: entries =>
      (if state = 0 then [] else [0x2c]) ++
        (entry.text ++ bodyText (state + 1) entries)

end Key

/-- JSON, with names for keys. -/
def format (rapidjson : Rapidjson) : Format where
  Counts := ℕ
  Thrown := Thrown
  reader := objectReader rapidjson
  depth counts := counts
  ready _ _ := True
  after counts := counts
  ends := Delimits
  integerKeys := false
  Entry := Entry rapidjson
  names entry key := key.name = entry.contents
  value entry := entry.value
  scalar entry := entry.Skipped
  encodes entries text := ∃ before inner, Spaces before ∧ Spaces inner ∧
    text = before ++ 0x7b :: (inner ++ (bodyText 0 entries ++ [0x7d]))

section Walk

variable {rapidjson : Rapidjson} {n : ℕ} {map : Fin n → KeyMap}

/-! ## The loop of `key` -/

theorem getNextToken_run {gap : Bytes} (spaces : Spaces gap)
    (next : Byte) (token : isSpace next = false) (rest : Bytes) (depth : ℕ) :
    getNextToken.run (depth, gap ++ next :: rest) =
      .ok (next, (depth, next :: rest)) := by
  have left : (gap ++ next :: rest).dropWhile isSpace = next :: rest := by
    rw [List.dropWhile_append_of_pos spaces, List.dropWhile_cons, token]
    rfl
  show Except.ok (((gap ++ next :: rest).dropWhile isSpace).headD 0,
    (depth, (gap ++ next :: rest).dropWhile isSpace)) = _
  rw [left]
  rfl

theorem removePrefix_run (next : Byte) (rest : Bytes) (depth : ℕ) :
    removePrefix.run (depth, next :: rest) = .ok ((), (depth, rest)) := rfl

/-- The parser takes the text for one value. -/
theorem readNextValue_run {expected : Option Schema} {text rest : Bytes}
    {value : Sax}
    (parsed : rapidjson.parse expected (text ++ rest) =
      .ok (value, text.length)) (depth : ℕ) :
    (readNextValue rapidjson expected).run (depth, text ++ rest) =
      .ok (value, (depth, rest)) := by
  show (match rapidjson.parse expected (text ++ rest) with
    | .error code => .error (jsonError expected code)
    | .ok (value, length) =>
        .ok (value, (depth, (text ++ rest).drop length)) :
      Except Thrown (Sax × ℕ × Bytes)) = _
  rw [parsed]
  dsimp only
  rw [List.drop_left]

private theorem length_getNextToken {depth : ℕ} {source : Bytes}
    {next : Byte} {output : ℕ × Bytes}
    (ran : getNextToken.run (depth, source) = .ok (next, output)) :
    output.2.length ≤ source.length := by
  cases ran
  exact (List.dropWhile_suffix isSpace).length_le

private theorem length_takeComma {state : ℕ} {next : Byte}
    {input output : ℕ × Bytes}
    (ran : (takeComma state next).run input = .ok ((), output)) :
    output.2.length ≤ input.2.length := by
  unfold takeComma at ran
  split at ran
  · cases ran
    exact le_rfl
  · split at ran
    · cases ran
    · cases ran
      exact (List.drop_suffix 1 _).length_le

private theorem length_readNextValue {expected : Option Schema} {value : Sax}
    {input output : ℕ × Bytes}
    (ran : (readNextValue rapidjson expected).run input = .ok (value, output)) :
    output.2.length < input.2.length := by
  obtain ⟨depth, source⟩ := input
  have ran : (match rapidjson.parse expected source with
      | .error code => .error (jsonError expected code)
      | .ok (value, length) => .ok (value, (depth, source.drop length)) :
        Except Thrown (Sax × ℕ × Bytes)) = .ok (value, output) := ran
  cases parsed : rapidjson.parse expected source with
  | error code =>
      rw [parsed] at ran
      cases ran
  | ok found =>
      rw [parsed] at ran
      cases ran
      obtain ⟨some, within⟩ := rapidjson.takes parsed
      rw [List.length_drop]
      show source.length - found.2 < source.length
      lia

/-- A turn that skips a value takes bytes. -/
private theorem length_keyTurn {state : ℕ} {input output : ℕ × Bytes}
    (ran : (keyTurn rapidjson map state).run input = .ok (.skipped, output)) :
    output.2.length < input.2.length := by
  obtain ⟨next, first, ranNext, ran⟩ := run_bind_eq_ok ran
  have lengthNext := length_getNextToken ranNext
  split at ran
  · cases ran
  split at ran
  · obtain ⟨-, -, -, ran⟩ := run_bind_eq_ok ran
    cases ran
  obtain ⟨⟨⟩, second, ranComma, ran⟩ := run_bind_eq_ok ran
  obtain ⟨jsonKey, third, ranKey, ran⟩ := run_bind_eq_ok ran
  obtain ⟨colon, fourth, ranColon, ran⟩ := run_bind_eq_ok ran
  have lengthComma := length_takeComma ranComma
  have lengthKey := length_readNextValue ranKey
  have lengthColon := length_getNextToken ranColon
  split at ran
  · cases ran
  obtain ⟨⟨⟩, fifth, ranPrefix, ran⟩ := run_bind_eq_ok ran
  cases ranPrefix
  have lengthPrefix : (fourth.2.drop 1).length ≤ fourth.2.length :=
    (List.drop_suffix 1 _).length_le
  split at ran
  · cases ran
  obtain ⟨value, sixth, ranValue, ran⟩ := run_bind_eq_ok ran
  cases ran
  have lengthValue := length_readNextValue ranValue
  exact lengthValue.trans_le (lengthPrefix.trans (lengthColon.trans
    (lengthKey.le.trans (lengthComma.trans lengthNext))))

/-- More turns than bytes change nothing. -/
private theorem keyTurns_enough {turns others state depth : ℕ}
    {source : Bytes} (enough : source.length < turns)
    (more : source.length < others) :
    (keyTurns rapidjson map turns state).run (depth, source) =
      (keyTurns rapidjson map others state).run (depth, source) := by
  induction turns generalizing others state depth source with
  | zero => exact absurd enough (Nat.not_lt_zero _)
  | succ turns induction =>
      obtain ⟨others, rfl⟩ := Nat.exists_eq_add_one_of_ne_zero
        (Nat.ne_zero_of_lt more)
      rw [keyTurns, keyTurns, StateT.run_bind, StateT.run_bind]
      cases ran : (keyTurn rapidjson map state).run (depth, source) with
      | error failure => rfl
      | ok result =>
          obtain ⟨turn, output⟩ := result
          cases turn with
          | ended => rfl
          | found index => rfl
          | skipped =>
              have shorter := length_keyTurn ran
              exact induction (Nat.lt_of_lt_of_le shorter (Nat.le_of_lt_succ enough))
                (Nat.lt_of_lt_of_le shorter (Nat.le_of_lt_succ more))

/-! ## Between the values -/

/-- The entries, behind some space. -/
structure Standing (outer : ℕ) (rest : Bytes)
    (entries : List (Entry rapidjson)) (state inside : ℕ) (source : Bytes) :
    Prop where
  inside : inside = outer + 1
  source : ∃ gap, Spaces gap ∧
    source = gap ++ (bodyText state entries ++ 0x7d :: rest)

/-- What follows the value of an entry. -/
def tail (entry : Entry rapidjson) (entries : List (Entry rapidjson))
    (state : ℕ) (rest : Bytes) : Bytes :=
  entry.behind ++ (bodyText (state + 1) entries ++ 0x7d :: rest)

theorem delimits_append {gap rest : Bytes} (spaces : Spaces gap)
    (delimits : Delimits rest) : Delimits (gap ++ rest) := by
  cases gap with
  | nil => exact delimits
  | cons byte gap =>
      intro next same
      cases same
      exact .inl (spaces byte List.mem_cons_self)

private theorem delimits_tail (entry : Entry rapidjson)
    (entries : List (Entry rapidjson)) (state : ℕ) (rest : Bytes) :
    Delimits (tail entry entries state rest) := by
  refine delimits_append entry.spaces.2.2 ?_
  cases entries with
  | nil =>
      intro next same
      cases same
      decide
  | cons other entries =>
      intro next same
      cases same
      decide

section Standing

variable {outer inside state : ℕ} {rest source : Bytes}
  {entry : Entry rapidjson} {entries : List (Entry rapidjson)}

private theorem processKey_names (map : Fin n → KeyMap) (contents : Bytes) :
    processKey map (.string contents) =
      (List.finRange n).find? fun index => (map index).name = contents := rfl

/-- A turn reads the key of the first entry. -/
theorem Standing.keyTurn_run
    (standing : Standing outer rest (entry :: entries) state inside source)
    (map : Fin n → KeyMap) :
    (keyTurn rapidjson map state).run (inside, source) =
      (match processKey map (.string entry.contents) with
      | some index => return .found index
      | none => do
          let _ ← skipValue rapidjson
          return .skipped : Reader (Turn n)).run
        (inside, entry.value ++ tail entry entries state rest) := by
  obtain ⟨-, gap, spaces, rfl⟩ := standing
  obtain ⟨before, behindKey, behind⟩ := entry.spaces
  obtain ⟨others, key⟩ := List.head?_eq_some_iff.mp entry.quoted
  have colon := getNextToken_run behindKey 0x3a (by decide)
    (entry.value ++ tail entry entries state rest) inside
  have text : entry.text ++ (bodyText (state + 1) entries ++ 0x7d :: rest) =
      entry.before ++ (entry.key ++ (entry.behindKey ++ 0x3a ::
        (entry.value ++ tail entry entries state rest))) := by
    simp only [Entry.text, tail, List.append_assoc, List.cons_append]
  have named (gap : Bytes) (spaces : Spaces gap) :
      (readNextValue rapidjson (some .string)).run
          (inside, gap ++ (entry.key ++ (entry.behindKey ++ 0x3a ::
            (entry.value ++ tail entry entries state rest)))) =
        .ok (.string entry.contents, (inside, entry.behindKey ++ 0x3a ::
          (entry.value ++ tail entry entries state rest))) := by
    have parsed := entry.reads gap (entry.behindKey ++ 0x3a ::
      (entry.value ++ tail entry entries state rest)) spaces
    rw [← List.append_assoc, ← List.length_append] at parsed
    rw [← List.append_assoc]
    exact readNextValue_run parsed inside
  rw [bodyText, List.append_assoc, List.append_assoc, text]
  by_cases first : state = 0
  · subst first
    have token := getNextToken_run
      (List.forall_mem_append.mpr ⟨spaces, before⟩) 0x22 (by decide)
      (others ++ (entry.behindKey ++ 0x3a ::
        (entry.value ++ tail entry entries 0 rest))) inside
    rw [← List.cons_append, ← key, List.append_assoc] at token
    refine (run_bind_ok token).trans ?_
    rw [if_neg (by decide), if_neg (by decide), takeComma, if_pos rfl,
      pure_bind]
    refine (run_bind_ok (named [] spaces_nil)).trans ?_
    exact run_bind_ok colon
  · rw [if_neg first]
    have token := getNextToken_run spaces 0x2c (by decide)
      (entry.before ++ (entry.key ++ (entry.behindKey ++ 0x3a ::
        (entry.value ++ tail entry entries state rest)))) inside
    refine (run_bind_ok token).trans ?_
    rw [if_neg (by decide), if_neg (by decide)]
    have comma : (takeComma state 0x2c).run (inside, 0x2c :: (entry.before ++
        (entry.key ++ (entry.behindKey ++ 0x3a ::
          (entry.value ++ tail entry entries state rest))))) =
        .ok ((), (inside, entry.before ++ (entry.key ++ (entry.behindKey ++
          0x3a :: (entry.value ++ tail entry entries state rest))))) := by
      rw [takeComma, if_neg first]
      rfl
    refine (run_bind_ok comma).trans ?_
    refine (run_bind_ok (named entry.before before)).trans ?_
    exact run_bind_ok colon

namespace Standing

theorem next
    (standing : Standing outer rest (entry :: entries) state inside source) :
    Standing outer rest entries (state + 1) inside
      (tail entry entries state rest) :=
  ⟨standing.inside, entry.behind, entry.spaces.2.2, rfl⟩

theorem short (standing : Standing outer rest entries state inside source) :
    entries.length ≤ source.length := by
  have body : entries.length ≤ (bodyText state entries).length := by
    clear standing
    induction entries generalizing state with
    | nil => exact le_rfl
    | cons entry entries induction =>
        have later := @induction (state + 1)
        obtain ⟨others, key⟩ := List.head?_eq_some_iff.mp entry.quoted
        have some : 0 < entry.text.length := by
          rw [Entry.text, key]
          simp
        rw [bodyText]
        simp only [List.length_append, List.length_cons]
        lia
  obtain ⟨-, gap, -, rfl⟩ := standing
  simp only [List.length_append]
  lia

theorem last
    (standing : @Standing rapidjson outer rest [] state inside source) :
    ∃ behind, ∀ {n : ℕ} (map : Fin n → KeyMap),
      ((objectReader rapidjson).key map state).run (inside, source) =
        .ok (none, (behind, rest)) ∧
      (objectReader rapidjson).endObject.run (behind, rest) =
        .ok ((), (outer, rest)) := by
  obtain ⟨rfl, gap, spaces, rfl⟩ := standing
  refine ⟨outer + 1, fun map => ⟨?_, rfl⟩⟩
  have token := getNextToken_run spaces 0x7d (by decide) rest (outer + 1)
  have turn : (keyTurn rapidjson map state).run
      (outer + 1, gap ++ 0x7d :: rest) =
        .ok (.ended, (outer + 1, rest)) := run_bind_ok token
  have looped : (keyTurns rapidjson map ((gap ++ 0x7d :: rest).length + 1)
      state).run (outer + 1, gap ++ 0x7d :: rest) =
        .ok (none, (outer + 1, rest)) := run_bind_ok turn
  exact looped

theorem found
    (standing : Standing outer rest (entry :: entries) state inside source)
    {index : Fin n} (named : decide ((map index).name = entry.contents) = true)
    (only : ∀ other, decide ((map other).name = entry.contents) = true →
      other = index) :
    ((objectReader rapidjson).key map state).run (inside, source) =
      .ok (some (state + 1, index),
        (inside, entry.value ++ tail entry entries state rest)) := by
  have turn := standing.keyTurn_run map
  have listed : processKey map (.string entry.contents) = some index := by
    cases search : processKey map (.string entry.contents) with
    | none =>
        have missed := List.find?_eq_none.mp search index
          (List.mem_finRange index)
        exact absurd named missed
    | some other => rw [only other (by simpa using List.find?_some search)]
  rw [listed] at turn
  have looped : (keyTurns rapidjson map (source.length + 1) state).run
      (inside, source) =
        .ok (some (state + 1, index),
          (inside, entry.value ++ tail entry entries state rest)) :=
    run_bind_ok turn
  exact looped

theorem skipped
    (standing : Standing outer rest (entry :: entries) state inside source)
    (unknown : ∀ index, decide ((map index).name = entry.contents) = false)
    (skips : entry.Skipped) :
    ((objectReader rapidjson).key map state).run (inside, source) =
      ((objectReader rapidjson).key map (state + 1)).run
        (inside, tail entry entries state rest) := by
  have turn := standing.keyTurn_run map
  have listed : processKey map (.string entry.contents) = none := by
    refine List.find?_eq_none.mpr fun index _ => ?_
    rw [unknown index]
    nofun
  obtain ⟨value, parsed⟩ :=
    skips (tail entry entries state rest) (delimits_tail entry entries state rest)
  have taken : (skipValue rapidjson).run
      (inside, entry.value ++ tail entry entries state rest) =
        .ok (value, (inside, tail entry entries state rest)) :=
    readNextValue_run parsed inside
  rw [listed] at turn
  have turned := turn.trans (run_bind_ok taken)
  have shorter := length_keyTurn turned
  have looped : (keyTurns rapidjson map (source.length + 1) state).run
      (inside, source) =
        (keyTurns rapidjson map source.length (state + 1)).run
          (inside, tail entry entries state rest) := run_bind_ok turned
  exact looped.trans (keyTurns_enough shorter (Nat.lt_succ_self _))

end Standing

theorem startObject_run {before : Bytes} (spaces : Spaces before)
    (shallow : outer + 1 ≠ maxReadDepth) (inner : Bytes)
    (entries : List (Entry rapidjson)) (rest : Bytes) :
    startObject.run (outer, before ++ 0x7b ::
        (inner ++ (bodyText 0 entries ++ [0x7d])) ++ rest) =
      .ok (0, (outer + 1,
        inner ++ (bodyText 0 entries ++ 0x7d :: rest))) := by
  have token := getNextToken_run spaces 0x7b (by decide)
    (inner ++ (bodyText 0 entries ++ 0x7d :: rest)) outer
  simp only [List.append_assoc, List.cons_append, List.nil_append]
  have entered : incrementDepth.run (outer,
      inner ++ (bodyText 0 entries ++ 0x7d :: rest)) =
        .ok ((), (outer + 1, inner ++ (bodyText 0 entries ++ 0x7d :: rest))) :=
    if_neg shallow
  refine (run_bind_ok token).trans ?_
  rw [if_neg (not_not.mpr rfl)]
  refine (run_bind_ok (removePrefix_run 0x7b _ outer)).trans ?_
  exact run_bind_ok entered

theorem startObject_deep {before : Bytes} (spaces : Spaces before)
    (deep : outer + 1 = maxReadDepth) (rest : Bytes) :
    startObject.run (outer, before ++ 0x7b :: rest) =
      .error .maximumDepth := by
  have token := getNextToken_run spaces 0x7b (by decide) rest outer
  have entered : incrementDepth.run (outer, rest) = .error .maximumDepth :=
    if_pos deep
  refine (run_bind_ok token).trans ?_
  rw [if_neg (not_not.mpr rfl)]
  refine (run_bind_ok (removePrefix_run 0x7b _ outer)).trans ?_
  exact run_bind_error entered

end Standing

/-- Between the values of a JSON object. -/
def walk (rapidjson : Rapidjson) : (format rapidjson).Walk where
  At := Standing
  same := by
    intro entry left right first second
    exact (of_decide_eq_true first).trans (of_decide_eq_true second).symm
  start := by
    rintro entries text outer rest ⟨before, inner, spaces, inners, rfl⟩ - - deep
    exact ⟨0, _, _, startObject_run spaces deep inner entries rest,
      rfl, inner, inners, rfl⟩
  tooDeep := by
    rintro entries text outer rest ⟨before, inner, spaces, inners, rfl⟩ - deep
    rw [List.append_assoc, List.cons_append]
    exact ⟨_, startObject_deep spaces deep _⟩
  short := Standing.short
  last := Standing.last
  found standing named only :=
    ⟨_, _, _, standing.found named only, standing.inside, trivial,
      delimits_tail _ _ _ _, standing.next⟩
  skipped standing unknown scalar :=
    ⟨_, _, _, standing.next, standing.skipped unknown scalar⟩

end Walk

end XfoLws.Wire.JsonReader
