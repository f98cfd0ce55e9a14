import Mathlib.Algebra.Order.Ring.Nat
import Mathlib.Data.List.Basic

/-!
# Objects on the wire

The formats of `wire` read and write a tree of values; an object is a list of
fields under names (JSON) or integers (msgpack).  Readers skip unknown fields
and reject fields that occur twice.
-/

namespace XfoLws.Wire

abbrev Byte := Fin 256

instance neZeroByte : NeZero 256 := ⟨by decide⟩

abbrev Bytes := List Byte

/-- A value of a wire format with field keys in `κ`. -/
inductive Value (κ : Type) where
  | boolean (value : Bool)
  | unsigned (value : ℕ)
  | string (value : Bytes)
  | binary (value : Bytes)
  | array (items : List (Value κ))
  | object (fields : List (κ × Value κ))

/-- `wire::error::schema`. -/
inductive Schema where
  | array
  | arrayMaxElement
  | arrayMinSize
  | binary
  | boolean
  | enumeration
  | fixedBinary
  | integer
  | invalidKey
  | largerInteger
  | missingKey
  | object
  | smallerInteger
  | string
deriving DecidableEq, Repr

section Read

variable {κ α : Type}

def readBoolean : Value κ → Except Schema Bool
  | .boolean value => .ok value
  | _ => .error .boolean

/-- `cast_unsigned` to a type below `bound`. -/
def readUnsigned (bound : ℕ) : Value κ → Except Schema ℕ
  | .unsigned value =>
      if value < bound then .ok value else .error .smallerInteger
  | _ => .error .integer

def readString : Value κ → Except Schema Bytes
  | .string value => .ok value
  | _ => .error .string

/-- The loop of `array_unchecked`, behind the elements it has read. -/
def readItems (maxElementCount : ℕ) (read : Value κ → Except Schema α) :
    List α → List (Value κ) → Except Schema (List α)
  | out, [] => .ok out
  | out, item :: items =>
      if maxElementCount ≤ out.length then .error .arrayMaxElement
      else do
        let value ← read item
        readItems maxElementCount read (out ++ [value]) items

def readArray (maxElementCount : ℕ) (read : Value κ → Except Schema α) :
    Value κ → Except Schema (List α)
  | .array items => readItems maxElementCount read [] items
  | _ => .error .array

def readObject : Value κ → Except Schema (List (κ × Value κ))
  | .object fields => .ok fields
  | _ => .error .object

variable [DecidableEq κ]

/-- The value of a field, unless it occurs twice. -/
def field? (fields : List (κ × Value κ)) (key : κ) :
    Except Schema (Option (Value κ)) :=
  match fields.filter (·.1 = key) with
  | [] => .ok none
  | [found] => .ok (some found.2)
  | _ => .error .invalidKey

/-- `wire::field`. -/
def required (fields : List (κ × Value κ)) (key : κ)
    (read : Value κ → Except Schema α) : Except Schema α := do
  match ← field? fields key with
  | none => .error .missingKey
  | some value => read value

/-- `wire::optional_field`. -/
def optional (fields : List (κ × Value κ)) (key : κ)
    (read : Value κ → Except Schema α) : Except Schema (Option α) := do
  match ← field? fields key with
  | none => .ok none
  | some value => some <$> read value

/-- An optional array field; an omitted one is empty. -/
def optionalArray (fields : List (κ × Value κ)) (key : κ)
    (maxElementCount : ℕ) (read : Value κ → Except Schema α) :
    Except Schema (List α) := do
  let items ← optional fields key (readArray maxElementCount read)
  .ok (items.getD [])

end Read

section Write

variable {κ α : Type}

/-- An empty array is omitted. -/
def arrayField (key : κ) (write : α → Value κ) (items : List α) :
    List (κ × Value κ) :=
  if items = [] then [] else [(key, .array (items.map write))]

end Write

section RoundTrip

variable {κ α : Type} {read : Value κ → Except Schema α}
  {write : α → Value κ} {fits : α → Prop} [DecidablePred fits]

/-- Items that fit are read back up to the maximum; no other error occurs. -/
theorem readItems_map (maxElementCount : ℕ) (items out : List α)
    (reads : ∀ item ∈ items, read (write item) =
      if fits item then .ok item else .error .arrayMaxElement) :
    readItems maxElementCount read out (items.map write) =
      if (items = [] ∨ out.length + items.length ≤ maxElementCount) ∧
          ∀ item ∈ items, fits item then .ok (out ++ items)
      else .error .arrayMaxElement := by
  induction items generalizing out with
  | nil => simp [readItems]
  | cons item items induction =>
      have first := reads item List.mem_cons_self
      have others := induction (out ++ [item])
        fun other member => reads other (List.mem_cons_of_mem _ member)
      rw [List.length_append, List.length_singleton] at others
      rw [List.map_cons, readItems]
      by_cases full : maxElementCount ≤ out.length
      · rw [if_pos full, if_neg]
        rintro ⟨never | within, -⟩
        · cases never
        · rw [List.length_cons] at within
          omega
      · rw [if_neg full, first]
        by_cases fitting : fits item
        · rw [if_pos fitting]
          show readItems _ read _ _ = _
          rw [others]
          congr 1
          · rw [List.forall_mem_cons, and_iff_right fitting, List.length_cons]
            refine propext (and_congr_left' ?_)
            cases items with
            | nil => simp; omega
            | cons next rest => simp; omega
          · rw [List.append_assoc]
            rfl
        · rw [if_neg fitting, if_neg]
          · rfl
          · rintro ⟨-, all⟩
            exact fitting (all item List.mem_cons_self)

variable [DecidableEq κ]

/-- The fields around an array field do not matter. -/
theorem optionalArray_arrayField (before after : List (κ × Value κ)) (key : κ)
    (maxElementCount : ℕ) (items : List α)
    (absent : ∀ field ∈ before ++ after, field.1 ≠ key)
    (reads : ∀ item ∈ items, read (write item) =
      if fits item then .ok item else .error .arrayMaxElement) :
    optionalArray (before ++ arrayField key write items ++ after) key
        maxElementCount read =
      if items.length ≤ maxElementCount ∧ ∀ item ∈ items, fits item then
        .ok items
      else .error .arrayMaxElement := by
  have none (fields : List (κ × Value κ))
      (some : ∀ field ∈ fields, field ∈ before ++ after) :
      fields.filter (fun field => decide (field.1 = key)) = [] := by
    apply List.filter_eq_nil_iff.mpr
    intro field member
    simpa using absent field (some field member)
  have left := none before fun _ => List.mem_append_left _
  have right := none after fun _ => List.mem_append_right _
  unfold optionalArray optional field? arrayField
  rw [List.filter_append, List.filter_append, left, right]
  by_cases empty : items = []
  · subst empty
    simp [bind, Except.bind]
  · have read := readItems_map maxElementCount items [] reads
    rw [if_neg empty]
    simp only [List.filter_cons, List.filter_nil, decide_true, if_true,
      List.nil_append, List.append_nil, bind, Except.bind, readArray, read,
      List.length_nil, Nat.zero_add, empty, false_or]
    by_cases all : items.length ≤ maxElementCount ∧ ∀ item ∈ items, fits item
    · rw [if_pos all]
      rfl
    · rw [if_neg all]
      rfl

/-- When every item is read back, only their number counts. -/
theorem optionalArray_arrayField_all (before after : List (κ × Value κ))
    (key : κ) (maxElementCount : ℕ) (items : List α)
    (absent : ∀ field ∈ before ++ after, field.1 ≠ key)
    (reads : ∀ item, read (write item) = .ok item) :
    optionalArray (before ++ arrayField key write items ++ after) key
        maxElementCount read =
      if items.length ≤ maxElementCount then .ok items
      else .error .arrayMaxElement := by
  have back := optionalArray_arrayField before after key maxElementCount items
    absent fun item _ => (reads item).trans (if_pos trivial).symm
  simpa using back

omit [DecidableEq κ] in
theorem arrayField_avoids {key other : κ} (items : List α)
    (different : other ≠ key) :
    ∀ field ∈ arrayField other write items, field.1 ≠ key := by
  intro field member
  unfold arrayField at member
  split at member
  · cases member
  · obtain rfl := List.mem_singleton.mp member
    exact different

/-- An array field does not hide the fields around it. -/
theorem field?_arrayField (before after : List (κ × Value κ)) {key other : κ}
    (items : List α) (different : other ≠ key) :
    field? (before ++ arrayField other write items ++ after) key =
      field? (before ++ after) key := by
  have skipped : (arrayField other write items).filter
      (fun field => decide (field.1 = key)) = [] := by
    apply List.filter_eq_nil_iff.mpr
    intro field member
    simpa using arrayField_avoids items different field member
  unfold field?
  rw [List.filter_append, List.filter_append, List.filter_append, skipped,
    List.append_nil]

omit [DecidableEq κ] in
theorem readItems_images {image : α → α} (maxElementCount : ℕ)
    (items out : List α)
    (reads : ∀ item ∈ items, read (write item) = .ok (image item))
    (within : out.length + items.length ≤ maxElementCount) :
    readItems maxElementCount read out (items.map write) =
      .ok (out ++ items.map image) := by
  induction items generalizing out with
  | nil => simp [readItems]
  | cons item items induction =>
      rw [List.length_cons] at within
      have others := induction (out ++ [image item])
        (fun other member => reads other (List.mem_cons_of_mem _ member))
        (by rw [List.length_append, List.length_singleton]; omega)
      rw [List.map_cons, readItems, if_neg (by omega),
        reads item List.mem_cons_self]
      show readItems _ read _ _ = _
      simpa using others

/-! ## Fields that may be omitted -/

/-- The fields that are written. -/
def present (entries : List (κ × Option (Value κ))) : List (κ × Value κ) :=
  entries.filterMap fun entry => entry.2.map fun value => (entry.1, value)

omit [DecidableEq κ] in
theorem mem_present {entries : List (κ × Option (Value κ))}
    {field : κ × Value κ} :
    field ∈ present entries ↔ (field.1, some field.2) ∈ entries := by
  simp only [present, List.mem_filterMap, Option.map_eq_some_iff]
  constructor
  · rintro ⟨⟨key, value⟩, member, found, kept, rfl⟩
    exact kept ▸ member
  · intro member
    exact ⟨_, member, field.2, rfl, rfl⟩

omit [DecidableEq κ] in
theorem length_present (entries : List (κ × Option (Value κ))) :
    (present entries).length ≤ entries.length :=
  List.length_filterMap_le _ entries

theorem field?_present {entries : List (κ × Option (Value κ))}
    (distinct : (entries.map Prod.fst).Nodup) {key : κ}
    {value : Option (Value κ)} (member : (key, value) ∈ entries) :
    field? (present entries) key = .ok value := by
  have found : (present entries).filter (·.1 = key) =
      (value.map fun value => (key, value)).toList := by
    induction entries with
    | nil => cases member
    | cons entry entries induction =>
        obtain ⟨first, stored⟩ := entry
        rw [List.map_cons, List.nodup_cons] at distinct
        obtain ⟨fresh, distinct⟩ := distinct
        have absent : first = key →
            (present entries).filter (·.1 = key) = [] := by
          intro same
          apply List.filter_eq_nil_iff.mpr
          intro field kept
          have member := List.mem_map_of_mem (f := Prod.fst)
            (mem_present.mp kept)
          have different : field.1 ≠ key := fun equal =>
            fresh (same.trans equal.symm ▸ member)
          simpa using different
        have split : present ((first, stored) :: entries) =
            (stored.map fun value => (first, value)).toList ++
              present entries := by
          cases stored <;> rfl
        rw [split, List.filter_append]
        rcases List.mem_cons.mp member with same | later
        · cases same
          rw [absent rfl, List.append_nil]
          cases value <;> simp
        · have different : first ≠ key := by
            intro same
            have listed := List.mem_map_of_mem (f := Prod.fst) later
            exact fresh (show first ∈ _ from same ▸ listed)
          rw [induction distinct later]
          cases stored <;> simp [different]
  unfold field?
  rw [found]
  cases value <;> rfl

theorem required_present {entries : List (κ × Option (Value κ))}
    (distinct : (entries.map Prod.fst).Nodup) {key : κ} {value : Value κ}
    (member : (key, some value) ∈ entries) :
    required (present entries) key read = read value := by
  unfold required
  rw [field?_present distinct member]
  rfl

theorem optional_present {entries : List (κ × Option (Value κ))}
    (distinct : (entries.map Prod.fst).Nodup) {key : κ}
    {value : Option (Value κ)} (member : (key, value) ∈ entries) :
    optional (present entries) key read = value.mapM read := by
  unfold optional
  rw [field?_present distinct member]
  cases value <;> rfl

end RoundTrip

end XfoLws.Wire
