import XfoLws.Wire.MsgpackReader
import Mathlib.Algebra.BigOperators.Fin
import Mathlib.Algebra.Order.BigOperators.Group.Finset
import Mathlib.Data.List.FinRange
import Mathlib.Logic.Function.Basic

/-!
# Fields of an object

`wire_read::object` asks its reader for one key after the other and reads the
value behind it into the field of that key.  What the readers do between the
values differs; here it is an assumption, a walk over the entries of an
object, from which it follows that their order does not matter.
-/

namespace XfoLws.Wire

open Parsing
open Msgpack (KeyMap SameKey maxReadDepth)

/-- What `wire_read::throw_exception` is given, with the first of the names. -/
structure SchemaError where
  code : Schema
  display : String
  name : Option Bytes
deriving DecidableEq

/-- `wire::reader`, as `wire_read::object` calls it. -/
structure ObjectReader (C ε : Type) where
  startObject : Parser Byte C ε ℕ
  /-- The state behind the key, and the index of its match. -/
  key : {n : ℕ} → (Fin n → KeyMap) → (state : ℕ) →
    Parser Byte C ε (Option (ℕ × Fin n))
  endObject : Parser Byte C ε Unit
  throws : SchemaError → ε

/-- `field_`, for a target in `α`. -/
structure Field (C ε α : Type) where
  key : KeyMap
  /-- What `reset_field` leaves in an omitted field that is not required. -/
  omitted : Option α
  /-- `unpack_field`, which is given the target. -/
  unpack : α → Parser Byte C ε α

section Fields

variable {C ε α : Type}

/-- `field`. -/
def field (key : KeyMap) (bytes : α → Parser Byte C ε α) : Field C ε α :=
  ⟨key, none, bytes⟩

/-- `field`, for a type that is `is_optional_on_empty`. -/
def emptyField (key : KeyMap) (cleared : α) (bytes : α → Parser Byte C ε α) :
    Field C ε α :=
  ⟨key, some cleared, bytes⟩

/-- `optional_field`, which reads into the value that is there or into a new
one. -/
def optionalField (key : KeyMap) (emplaced : α)
    (bytes : α → Parser Byte C ε α) : Field C ε (Option α) :=
  ⟨key, some none, fun target => some <$> bytes (target.getD emplaced)⟩

/-- `optional_field` of a `defaulted` value. -/
def defaultedField (key : KeyMap) (default : α)
    (bytes : α → Parser Byte C ε α) : Field C ε α :=
  ⟨key, some default, bytes⟩

namespace Field

def isRequired (field : Field C ε α) : Bool := field.omitted.isNone

def resetField (field : Field C ε α) (target : α) : α :=
  field.omitted.getD target

end Field

end Fields

/-! ## `wire_read::object` -/

section Object

variable {C ε : Type} {n : ℕ} {α : Fin n → Type}

/-- The members of the trackers that change, and the targets. -/
structure Trackers (α : Fin n → Type) where
  read : Fin n → Bool
  target : ∀ index, α index

namespace Trackers

def start (target : ∀ index, α index) : Trackers α := ⟨fun _ => false, target⟩

def store (trackers : Trackers α) (index : Fin n) (value : α index) :
    Trackers α :=
  ⟨Function.update trackers.read index true,
    Function.update trackers.target index value⟩

theorem store_read (trackers : Trackers α) (index other : Fin n)
    (value : α index) :
    (trackers.store index value).read other =
      if other = index then true else trackers.read other :=
  Function.update_apply _ _ _ _

theorem store_target (trackers : Trackers α) (index : Fin n)
    (value : α index) :
    (trackers.store index value).target index = value :=
  Function.update_self index value _

theorem store_target_of_ne (trackers : Trackers α) {index other : Fin n}
    (value : α index) (different : other ≠ index) :
    (trackers.store index value).target other = trackers.target other :=
  Function.update_of_ne different _ _

end Trackers

variable (reader : ObjectReader C ε) (fields : ∀ index, Field C ε (α index))

/-- `tracker::try_read` of the tracker at `index`. -/
def tryRead (next index : Fin n) (trackers : Trackers α) :
    Parser Byte C ε (ℕ × Trackers α) :=
  if next ≠ index then return (0, trackers)
  else if trackers.read index then
    throw (reader.throws
      ⟨.invalidKey, "duplicate", some (fields index).key.name⟩)
  else do
    let value ← (fields index).unpack (trackers.target index)
    return (1 + (fields index).isRequired.toNat, trackers.store index value)

def addRead (next : Fin n) (sum : ℕ × Trackers α) (index : Fin n) :
    Parser Byte C ε (ℕ × Trackers α) := do
  let (code, trackers) ← tryRead reader fields next index sum.2
  return (sum.1 + code, trackers)

/-- The sum over all trackers. -/
def tryReads (next : Fin n) (trackers : Trackers α) :
    Parser Byte C ε (ℕ × Trackers α) :=
  (List.finRange n).foldlM (addRead reader fields next) (0, trackers)

/-- `expand_tracker_map`. -/
def keyMap (index : Fin n) : KeyMap := (fields index).key

def badMapSetup : SchemaError := ⟨.invalidKey, "bad map setup", none⟩

/-- The loop over the keys, with the number of required fields that are still
missing.  Every key takes a byte, so the turns are not used up. -/
def readFields : (turns state required : ℕ) → Trackers α →
    Parser Byte C ε (ℕ × Trackers α)
  | 0, _, _, _ => throw (reader.throws badMapSetup)
  | turns + 1, state, required, trackers => do
      match ← reader.key (keyMap fields) state with
      | none => return (required, trackers)
      | some (state, next) =>
          let (code, trackers) ← tryReads reader fields next trackers
          match code with
          | 2 => readFields turns state (required - 1) trackers
          | 1 => readFields turns state required trackers
          | _ => throw (reader.throws badMapSetup)

/-- `tracker::name_if_missing`. -/
def nameIfMissing (trackers : Trackers α) (index : Fin n) : Option Bytes :=
  if (fields index).isRequired && !trackers.read index then
    some (fields index).key.name
  else none

/-- `tracker::reset_omitted`. -/
def resetOmitted (trackers : Trackers α) (index : Fin n) : α index :=
  if !(fields index).isRequired && !trackers.read index then
    (fields index).resetField (trackers.target index)
  else trackers.target index

def requiredFields : ℕ :=
  ((List.finRange n).map fun index => (fields index).isRequired.toNat).sum

/-- `wire_read::object`: the targets that are left. -/
def object (target : ∀ index, α index) :
    Parser Byte C ε (∀ index, α index) := do
  let state ← reader.startObject
  let (_, source) ← get
  let (required, trackers) ← readFields reader fields (source.length + 1) state
    (requiredFields fields) (Trackers.start target)
  if required ≠ 0 then
    throw (reader.throws ⟨.missingKey, "",
      (List.finRange n).findSome? (nameIfMissing fields trackers)⟩)
  else do
    reader.endObject
    return resetOmitted fields trackers

variable {reader fields}

private theorem addRead_other {next index : Fin n} (other : next ≠ index)
    (sum : ℕ × Trackers α) :
    addRead reader fields next sum index = pure sum := by
  rw [addRead, tryRead, if_pos other, pure_bind]
  rfl

private theorem addRead_others {next : Fin n} {indices : List (Fin n)}
    (absent : next ∉ indices) (sum : ℕ × Trackers α) :
    indices.foldlM (addRead reader fields next) sum = pure sum := by
  induction indices with
  | nil => rfl
  | cons index indices induction =>
      obtain ⟨other, absent⟩ := not_or.mp (mt List.mem_cons.mpr absent)
      rw [List.foldlM_cons, addRead_other other, pure_bind]
      exact induction absent

/-- Only the tracker at the index counts. -/
theorem tryReads_eq (next : Fin n) (trackers : Trackers α) :
    tryReads reader fields next trackers =
      tryRead reader fields next next trackers := by
  obtain ⟨before, after, split⟩ :=
    List.append_of_mem (List.mem_finRange next)
  have distinct := List.nodup_finRange n
  rw [split, List.nodup_middle, List.nodup_cons, List.mem_append,
    not_or] at distinct
  obtain ⟨⟨absentBefore, absentAfter⟩, -⟩ := distinct
  rw [tryReads, split, List.foldlM_append, addRead_others absentBefore,
    pure_bind, List.foldlM_cons]
  have last : (fun sum => after.foldlM (addRead reader fields next) sum) =
      pure := funext fun sum => addRead_others absentAfter sum
  rw [last, bind_pure, addRead]
  simp

/-- The field reads into a value that is given. -/
def Field.given {α : Type} (field : Field C ε α) (target : α) : Field C ε α :=
  { field with unpack := fun _ => field.unpack target }

/-- What was not read is as it was given. -/
private def Untouched (target : ∀ index, α index) (trackers : Trackers α) :
    Prop :=
  ∀ index, trackers.read index = false →
    trackers.target index = target index

private theorem Untouched.store {target : ∀ index, α index}
    {trackers : Trackers α} (untouched : Untouched target trackers)
    (next : Fin n) (value : α next) :
    Untouched target (trackers.store next value) := by
  intro index unread
  rw [Trackers.store_read] at unread
  split at unread
  · cases unread
  · rename_i other
    rw [Trackers.store_target_of_ne _ _ other]
    exact untouched index unread

private theorem readFields_given {target : ∀ index, α index} (turns : ℕ)
    {state required : ℕ} {trackers : Trackers α}
    (untouched : Untouched target trackers) :
    readFields reader fields turns state required trackers =
      readFields reader (fun index => (fields index).given (target index))
        turns state required trackers := by
  induction turns generalizing state required trackers with
  | zero => rfl
  | succ turns induction =>
      rw [readFields, readFields]
      apply bind_congr
      intro found
      cases found with
      | none => rfl
      | some found =>
          obtain ⟨left, next⟩ := found
          dsimp only
          rw [tryReads_eq, tryReads_eq, tryRead, tryRead]
          rw [if_neg (not_not.mpr rfl), if_neg (not_not.mpr rfl)]
          cases read : trackers.read next with
          | true => rfl
          | false =>
              have same := untouched next read
              rw [if_neg Bool.false_ne_true, if_neg Bool.false_ne_true, same]
              simp only [bind_assoc, pure_bind]
              apply bind_congr
              intro value
              have later := untouched.store next value
              have kept : ((fields next).given (target next)).isRequired =
                  (fields next).isRequired := rfl
              rw [kept]
              cases (fields next).isRequired with
              | true => exact induction later
              | false => exact induction later

/-- A field is read at most once, into what its target held. -/
theorem object_given (target : ∀ index, α index) :
    object reader fields target =
      object reader (fun index => (fields index).given (target index))
        target := by
  rw [object, object]
  apply bind_congr
  intro state
  apply bind_congr
  intro current
  have same := @readFields_given C ε n α reader fields target
    (current.2.length + 1) state (requiredFields fields) (Trackers.start target)
    fun _ _ => rfl
  obtain ⟨counts, source⟩ := current
  dsimp only
  rw [same]
  rfl

section Turn

variable {turns state left required : ℕ} {trackers : Trackers α}
  {next : Fin n} {input middle : C × Bytes}

/-- A turn of the loop whose value is read. -/
theorem readFields_stored {output : C × Bytes} {value : α next}
    (found : (reader.key (keyMap fields) state).run input =
      .ok (some (left, next), middle))
    (tried : (tryReads reader fields next trackers).run middle =
      .ok ((1 + (fields next).isRequired.toNat, trackers.store next value),
        output)) :
    (readFields reader fields (turns + 1) state required trackers).run input =
      (readFields reader fields turns left
        (required - (fields next).isRequired.toNat)
        (trackers.store next value)).run output := by
  refine (run_bind_ok found).trans ((run_bind_ok tried).trans ?_)
  cases (fields next).isRequired <;> rfl

/-- A turn of the loop whose value is not read. -/
theorem readFields_failed {failure : ε}
    (found : (reader.key (keyMap fields) state).run input =
      .ok (some (left, next), middle))
    (tried : (tryReads reader fields next trackers).run middle =
      .error failure) :
    (readFields reader fields (turns + 1) state required trackers).run input =
      .error failure :=
  (run_bind_ok found).trans (run_bind_error tried)

end Turn

end Object

end XfoLws.Wire
