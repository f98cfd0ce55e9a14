import XfoLws.Db.Tables

/-!
# Bulk insertion into sorted duplicates

`bulk_insert` restarts LMDB's multi-put behind each row that it finds stored.
-/

namespace XfoLws.Db

section

variable {ρ κ : Type} [LinearOrder κ] {key : ρ → κ}

/-- The passes of the loop of `bulk_insert`, until no value is left. -/
inductive BulkPasses (overwrite : Bool) :
    SortedRows key → List ρ → SortedRows key → Prop where
  | done (table : SortedRows key) : BulkPasses overwrite table [] table
  | pass {table next final : SortedRows key} {values : List ρ} {written : ℕ}
      {stopped : Bool} (left : values ≠ [])
      (put : table.putMultiple overwrite values = (next, written, stopped))
      (rest : BulkPasses overwrite next
        (values.drop (written + if stopped then 1 else 0)) final) :
      BulkPasses overwrite table values final

theorem putMultiple_advances (overwrite : Bool) (table : SortedRows key)
    (value : ρ) (values : List ρ) :
    0 < (table.putMultiple overwrite (value :: values)).2.1 +
      if (table.putMultiple overwrite (value :: values)).2.2 then 1 else 0 := by
  unfold SortedRows.putMultiple
  cases (if overwrite then some (table.put value) else table.putNew value) with
  | none => exact Nat.one_pos
  | some next => exact Nat.add_pos_left (Nat.succ_pos _) _

theorem BulkPasses.of_loop (overwrite : Bool) (passes : ℕ)
    (table : SortedRows key) (values : List ρ) (enough : values.length ≤ passes) :
    BulkPasses overwrite table values
      (bulkInsertLoop overwrite passes table values) := by
  induction passes generalizing table values with
  | zero =>
      obtain rfl := List.length_eq_zero_iff.mp (Nat.le_zero.mp enough)
      exact .done table
  | succ passes induction =>
      cases values with
      | nil => exact .done table
      | cons value values =>
          have advances := putMultiple_advances overwrite table value values
          rcases put : table.putMultiple overwrite (value :: values) with
            ⟨next, written, stopped⟩
          rw [put] at advances
          rw [bulkInsertLoop, put]
          · refine .pass (by simp) put (induction _ _ ?_)
            simp only [List.length_drop, List.length_cons] at advances enough ⊢
            omega
          · simp

theorem BulkPasses.functional {overwrite : Bool} {table first second : SortedRows key}
    {values : List ρ} (one : BulkPasses overwrite table values first)
    (other : BulkPasses overwrite table values second) : first = second := by
  induction one with
  | done table =>
      cases other with
      | done => rfl
      | pass left => exact absurd rfl left
  | pass left put rest induction =>
      cases other with
      | done => exact absurd rfl left
      | pass _ again further =>
          rw [put] at again
          cases again
          exact induction further

/-- The loop ends, and with the table that the model returns. -/
theorem bulkPasses_iff {overwrite : Bool} {table final : SortedRows key}
    {values : List ρ} :
    BulkPasses overwrite table values final ↔
      final = bulkInsert table values overwrite := by
  have ends := BulkPasses.of_loop overwrite values.length table values le_rfl
  constructor
  · exact fun passes => passes.functional ends
  · rintro rfl
    exact ends

theorem exists_key_bulkInsert (overwrite : Bool) (table : SortedRows key)
    {values : List ρ} {row : ρ} (member : row ∈ values) :
    ∃ stored ∈ bulkInsert table values overwrite, key stored = key row := by
  cases overwrite with
  | false =>
      rw [bulkInsert_keep]
      exact SortedRows.exists_key_addAll table member
  | true =>
      rw [bulkInsert_overwrite]
      exact SortedRows.exists_key_putAll table member

end

/-! ## Rows under one key -/

section

variable {κ ν δ : Type} [LinearOrder κ] [LinearOrder δ] {position : ν → δ}

/-- The order of a table with sorted duplicates. -/
def duplicatesKey (position : ν → δ) (row : κ × ν) : κ ×ₗ δ :=
  toLex (row.1, position row.2)

variable {table : SortedRows (duplicatesKey (κ := κ) position)} {under : κ}
  {values : List ν} {value : ν}

theorem find?_duplicate (under : κ) (value : ν) (values : List ν) :
    (values.map (Prod.mk under)).find? (fun other =>
        duplicatesKey position other = duplicatesKey position (under, value)) =
      (values.find? fun other => position other = position value).map
        (Prod.mk under) := by
  rw [List.find?_map]
  congr 2
  funext other
  simp [duplicatesKey]

theorem find?_duplicate_eq_none :
    table.find? (duplicatesKey position (under, value)) = none ↔
      ∀ old, (under, old) ∈ table → position old ≠ position value := by
  rw [SortedRows.find?_eq_none]
  constructor
  · intro absent old member same
    exact absent (under, old) member (by simp [duplicatesKey, same])
  · rintro absent ⟨other, old⟩ member same
    obtain ⟨rfl, samePosition⟩ : other = under ∧ position old = position value := by
      simpa [duplicatesKey] using same
    exact absent old member samePosition

/-- Without overwriting, an old row stays and of new ones the first counts. -/
theorem mem_bulkInsert_keep :
    (under, value) ∈ bulkInsert table (values.map (Prod.mk under)) false ↔
      (under, value) ∈ table ∨
        (∀ old, (under, old) ∈ table → position old ≠ position value) ∧
          values.find? (fun new => position new = position value) = some value := by
  rw [bulkInsert_keep, SortedRows.mem_addAll_iff, find?_duplicate,
    ← find?_duplicate_eq_none, SortedRows.mem_iff_find?]
  cases table.find? (duplicatesKey position (under, value)) with
  | some old => simp
  | none => simp

/-- With overwriting, the last new row counts. -/
theorem mem_bulkInsert_overwrite :
    (under, value) ∈ bulkInsert table (values.map (Prod.mk under)) true ↔
      values.reverse.find? (fun new => position new = position value) = some value ∨
        ((under, value) ∈ table ∧
          ∀ new ∈ values, position new ≠ position value) := by
  rw [bulkInsert_overwrite, SortedRows.mem_putAll_iff, ← List.map_reverse,
    find?_duplicate]
  cases found : values.reverse.find? fun new => position new = position value with
  | some last =>
      have listed : last ∈ values := by
        simpa using List.mem_of_find?_eq_some found
      have same : position last = position value := by
        simpa using List.find?_some found
      have taken : ¬ ∀ new ∈ values, position new ≠ position value :=
        fun free => free last listed same
      simp [taken]
  | none =>
      have free : ∀ new ∈ values, position new ≠ position value := by
        simpa using found
      simp only [Option.map_none, reduceCtorEq, false_or]
      exact (and_iff_left free).symm

theorem mem_bulkInsert_other {other : κ} (overwrite : Bool) (apart : other ≠ under) :
    (other, value) ∈ bulkInsert table (values.map (Prod.mk under)) overwrite ↔
      (other, value) ∈ table := by
  have unlisted : ∀ row ∈ values.map (Prod.mk under),
      duplicatesKey position row ≠ duplicatesKey position (other, value) := by
    intro row member same
    obtain ⟨new, -, rfl⟩ := List.mem_map.mp member
    have samePlace : under = other ∧ position new = position value := by
      simpa [duplicatesKey] using same
    exact apart samePlace.1.symm
  cases overwrite with
  | false =>
      have absent : (values.map (Prod.mk under)).find? (fun row =>
          duplicatesKey position row = duplicatesKey position (other, value)) = none := by
        simpa using unlisted
      rw [bulkInsert_keep, SortedRows.mem_addAll_iff, absent,
        SortedRows.mem_iff_find?]
      cases table.find? (duplicatesKey position (other, value)) with
      | some old => simp
      | none => simp
  | true =>
      have absent : (values.map (Prod.mk under)).reverse.find? (fun row =>
          duplicatesKey position row = duplicatesKey position (other, value)) = none := by
        simpa using unlisted
      rw [bulkInsert_overwrite, SortedRows.mem_putAll_iff, absent]

/-- The loop ends with one table: the old rows and the values, under the key
they were given. -/
theorem bulkInsert_stores_absent (position : ν → δ)
    (table : SortedRows (duplicatesKey (κ := κ) position)) (under : κ)
    (values : List ν) (overwrite : Bool) :
    ∃ final,
      (∀ other, BulkPasses overwrite table (values.map (Prod.mk under)) other ↔
        other = final) ∧
      (∀ value, (under, value) ∈ final ↔
        if overwrite then
          values.reverse.find? (fun new => position new = position value) =
              some value ∨
            ((under, value) ∈ table ∧
              ∀ new ∈ values, position new ≠ position value)
        else
          (under, value) ∈ table ∨
            (∀ old, (under, old) ∈ table → position old ≠ position value) ∧
              values.find? (fun new => position new = position value) =
                some value) ∧
      (∀ value ∈ values, ∃ stored, (under, stored) ∈ final ∧
        position stored = position value) ∧
      ∀ other value, other ≠ under →
        ((other, value) ∈ final ↔ (other, value) ∈ table) := by
  refine ⟨bulkInsert table (values.map (Prod.mk under)) overwrite,
    fun _ => bulkPasses_iff, ?_, ?_, ?_⟩
  · intro value
    cases overwrite with
    | false => simpa using mem_bulkInsert_keep
    | true => simpa using mem_bulkInsert_overwrite
  · intro value member
    have listed : (under, value) ∈ values.map (Prod.mk under) :=
      List.mem_map.mpr ⟨value, member, rfl⟩
    obtain ⟨⟨place, stored⟩, stays, same⟩ :=
      exists_key_bulkInsert overwrite table listed
    obtain ⟨rfl, samePosition⟩ : place = under ∧ position stored = position value := by
      simpa [duplicatesKey] using same
    exact ⟨stored, stays, samePosition⟩
  · intro other value apart
    exact mem_bulkInsert_other overwrite apart

end

end XfoLws.Db
