import Mathlib.Data.Prod.Lex
import Mathlib.Data.List.Pairwise
import Mathlib.Data.List.Sort
import Mathlib.Tactic.Push

/-!
# Rows kept strictly sorted by a key

A database of sorted duplicate sets is, seen from one table, a list of rows
that is strictly increasing in a sort key.  The order is a field of the
structure, so a table with two rows under one key cannot be built, and every
operation is characterised by membership alone.
-/

/-- A finite set of rows, strictly increasing in `key`. -/
structure SortedRows {ρ κ : Type} [LinearOrder κ] (key : ρ → κ) where
  rows : List ρ
  sorted : rows.Pairwise fun first second => key first < key second

namespace SortedRows

variable {ρ κ : Type} [LinearOrder κ] {key : ρ → κ}

instance : Membership ρ (SortedRows key) :=
  ⟨fun table row => row ∈ table.rows⟩

theorem mem_rows {table : SortedRows key} {row : ρ} :
    row ∈ table.rows ↔ row ∈ table := Iff.rfl

instance [DecidableEq ρ] (row : ρ) (table : SortedRows key) :
    Decidable (row ∈ table) :=
  inferInstanceAs (Decidable (row ∈ table.rows))

private theorem rows_pairwise_ne (table : SortedRows key) :
    table.rows.Pairwise fun first second => key first ≠ key second :=
  table.sorted.imp fun below => ne_of_lt below

theorem rows_nodup (table : SortedRows key) : table.rows.Nodup :=
  table.rows_pairwise_ne.imp fun different equality =>
    different (congrArg key equality)

theorem eq_of_key_eq {table : SortedRows key} {first second : ρ}
    (firstMember : first ∈ table) (secondMember : second ∈ table)
    (sameKey : key first = key second) : first = second := by
  have symmetric : Std.Symm fun left right : ρ => key left ≠ key right :=
    ⟨fun _ _ => Ne.symm⟩
  by_contra different
  exact table.rows_pairwise_ne.forall firstMember secondMember different
    sameKey

/-- Two tables with the same members are the same table. -/
theorem ext_mem {left right : SortedRows key}
    (same : ∀ row, row ∈ left ↔ row ∈ right) : left = right := by
  have permutation : left.rows.Perm right.rows :=
    (List.perm_ext_iff_of_nodup left.rows_nodup right.rows_nodup).mpr same
  have equality : left.rows = right.rows :=
    permutation.eq_of_pairwise
      (fun _ _ _ _ below above => (lt_asymm below above).elim)
      left.sorted right.sorted
  cases left
  cases right
  cases equality
  rfl

def empty : SortedRows key := ⟨[], .nil⟩

@[simp] theorem not_mem_empty (row : ρ) :
    row ∉ (empty : SortedRows key) := List.not_mem_nil

/-- The row stored under `wanted`, if there is one. -/
def find? (table : SortedRows key) (wanted : κ) : Option ρ :=
  table.rows.find? fun row => key row = wanted

theorem find?_eq_some {table : SortedRows key} {wanted : κ} {row : ρ} :
    table.find? wanted = some row ↔ row ∈ table ∧ key row = wanted := by
  constructor
  · intro found
    exact ⟨List.mem_of_find?_eq_some found,
      by simpa using List.find?_some found⟩
  · rintro ⟨member, keyed⟩
    cases found : table.find? wanted with
    | none =>
        have absent := List.find?_eq_none.mp found row member
        simp [keyed] at absent
    | some other =>
        have otherMember : other ∈ table := List.mem_of_find?_eq_some found
        have otherKeyed : key other = wanted := by
          simpa using List.find?_some found
        rw [eq_of_key_eq otherMember member (otherKeyed.trans keyed.symm)]

theorem mem_iff_find? {table : SortedRows key} {row : ρ} :
    row ∈ table ↔ table.find? (key row) = some row := by
  simp [find?_eq_some]

theorem find?_eq_none {table : SortedRows key} {wanted : κ} :
    table.find? wanted = none ↔ ∀ row ∈ table, key row ≠ wanted := by
  simp [find?, mem_rows]

/-- A lookup only depends on the rows under its key. -/
theorem find?_congr {left right : SortedRows key} {wanted : κ}
    (same : ∀ row, key row = wanted → (row ∈ left ↔ row ∈ right)) :
    left.find? wanted = right.find? wanted := by
  cases found : right.find? wanted with
  | none =>
      have absent := find?_eq_none.mp found
      exact find?_eq_none.mpr fun row member keyed =>
        absent row ((same row keyed).mp member) keyed
  | some row =>
      obtain ⟨member, keyed⟩ := find?_eq_some.mp found
      exact find?_eq_some.mpr ⟨(same row keyed).mpr member, keyed⟩

/-- Keep the rows that satisfy `keep`. -/
def filter (table : SortedRows key) (keep : ρ → Bool) : SortedRows key :=
  ⟨table.rows.filter keep, table.sorted.filter keep⟩

@[simp] theorem mem_filter {table : SortedRows key} {keep : ρ → Bool}
    {row : ρ} : row ∈ table.filter keep ↔ row ∈ table ∧ keep row = true :=
  List.mem_filter

@[simp] theorem filter_true (table : SortedRows key) :
    (table.filter fun _ => true) = table := by
  apply ext_mem
  simp

/-- Remove the row stored under `unwanted`. -/
def erase (table : SortedRows key) (unwanted : κ) : SortedRows key :=
  table.filter fun row => key row ≠ unwanted

@[simp] theorem mem_erase {table : SortedRows key} {unwanted : κ} {row : ρ} :
    row ∈ table.erase unwanted ↔ row ∈ table ∧ key row ≠ unwanted := by
  simp [erase]

/-- Remove the rows stored under each of `unwanted`. -/
def eraseAll (table : SortedRows key) (unwanted : List κ) : SortedRows key :=
  unwanted.foldl erase table

@[simp] theorem eraseAll_nil (table : SortedRows key) :
    table.eraseAll [] = table := rfl

@[simp] theorem eraseAll_cons (table : SortedRows key) (wanted : κ)
    (rest : List κ) :
    table.eraseAll (wanted :: rest) = (table.erase wanted).eraseAll rest := rfl

@[simp] theorem mem_eraseAll {table : SortedRows key} {unwanted : List κ}
    {row : ρ} :
    row ∈ table.eraseAll unwanted ↔ row ∈ table ∧ key row ∉ unwanted := by
  induction unwanted generalizing table with
  | nil => simp
  | cons first rest induction =>
      rw [eraseAll_cons, induction, mem_erase, List.mem_cons, not_or, and_assoc]

/-- Store `row`, replacing a row with the same key. -/
def put (table : SortedRows key) (row : ρ) : SortedRows key :=
  { rows := table.rows.filter (fun other => key other < key row) ++
      row :: table.rows.filter (fun other => key row < key other)
    sorted := by
      refine List.pairwise_append.mpr
        ⟨table.sorted.filter _, List.pairwise_cons.mpr
          ⟨?_, table.sorted.filter _⟩, ?_⟩
      · intro later member
        simpa using (List.mem_filter.mp member).2
      · intro earlier earlierMember later laterMember
        have below : key earlier < key row := by
          simpa using (List.mem_filter.mp earlierMember).2
        rcases List.mem_cons.mp laterMember with rfl | rest
        · exact below
        · have above : key row < key later := by
            simpa using (List.mem_filter.mp rest).2
          exact below.trans above }

@[simp] theorem mem_put {table : SortedRows key} {row other : ρ} :
    other ∈ table.put row ↔
      other = row ∨ (other ∈ table ∧ key other ≠ key row) := by
  rw [ne_iff_lt_or_gt]
  simp only [put, ← mem_rows, List.mem_append, List.mem_cons,
    List.mem_filter, decide_eq_true_eq]
  tauto

theorem put_erase (table : SortedRows key) (row : ρ) :
    (table.erase (key row)).put row = table.put row := by
  apply ext_mem
  intro other
  rw [mem_put, mem_put, mem_erase]
  tauto

theorem find?_put {table : SortedRows key} {row : ρ} {wanted : κ} :
    (table.put row).find? wanted =
      if key row = wanted then some row else table.find? wanted := by
  split
  · rename_i same
    exact find?_eq_some.mpr ⟨mem_put.mpr (.inl rfl), same⟩
  · rename_i different
    refine find?_congr fun other keyed => ?_
    have apart : key other ≠ key row := fun same =>
      different (same.symm.trans keyed)
    rw [mem_put, and_iff_left apart]
    exact or_iff_right fun same => apart (congrArg key same)

theorem find?_erase {table : SortedRows key} {unwanted wanted : κ} :
    (table.erase unwanted).find? wanted =
      if wanted = unwanted then none else table.find? wanted := by
  split
  · rename_i same
    exact find?_eq_none.mpr fun row member =>
      same ▸ (mem_erase.mp member).2
  · rename_i different
    refine find?_congr fun row keyed => ?_
    rw [mem_erase]
    exact and_iff_left (keyed ▸ different)

/-- Storing the old row again undoes a change. -/
theorem put_restores {table : SortedRows key} {old row : ρ}
    (stored : old ∈ table) (sameKey : key row = key old) :
    (table.put row).put old = table := by
  refine ext_mem fun other => ?_
  rw [mem_put, mem_put]
  constructor
  · rintro (rfl | ⟨rfl | ⟨member, -⟩, different⟩)
    · exact stored
    · exact (different sameKey).elim
    · exact member
  · intro member
    by_cases same : key other = key old
    · exact .inl (eq_of_key_eq member stored same)
    · exact .inr ⟨.inr ⟨member, sameKey ▸ same⟩, same⟩

/-- Erasing a new row undoes its insertion. -/
theorem erase_restores {table : SortedRows key} {row : ρ}
    (fresh : ∀ other ∈ table, key other ≠ key row) :
    (table.put row).erase (key row) = table := by
  refine ext_mem fun other => ?_
  rw [mem_erase, mem_put]
  constructor
  · rintro ⟨rfl | ⟨member, -⟩, different⟩
    · exact (different rfl).elim
    · exact member
  · exact fun member => ⟨.inr ⟨member, fresh other member⟩,
      fresh other member⟩

/-- A new row adds one to the length. -/
theorem length_put {table : SortedRows key} {row : ρ}
    (fresh : ∀ other ∈ table, key other ≠ key row) :
    (table.put row).rows.length = table.rows.length + 1 := by
  have above : table.rows.filter (fun other => key row < key other) =
      table.rows.filter fun other => !decide (key other < key row) := by
    refine List.filter_congr fun other member => ?_
    rw [← decide_not, decide_eq_decide, not_lt]
    exact ⟨le_of_lt, fun below => below.lt_of_ne (fresh other member).symm⟩
  have parts := table.rows.length_eq_length_filter_add
    fun other => decide (key other < key row)
  show (_ ++ row :: _).length = _
  rw [above, List.length_append, List.length_cons, parts, Nat.add_assoc]

/-- Store `row` unless its key is taken; the second case is LMDB's
`MDB_KEYEXIST`. -/
def putNew (table : SortedRows key) (row : ρ) : Option (SortedRows key) :=
  if (table.find? (key row)).isSome then none else some (table.put row)

theorem putNew_eq_some {table result : SortedRows key} {row : ρ} :
    table.putNew row = some result ↔
      (∀ other ∈ table, key other ≠ key row) ∧ result = table.put row := by
  unfold putNew
  cases found : table.find? (key row) with
  | none =>
      have fresh := find?_eq_none.mp found
      simp only [Option.isSome_none, Bool.false_eq_true, ↓reduceIte,
        Option.some.injEq]
      exact ⟨fun equality => ⟨fresh, equality.symm⟩,
        fun pair => pair.2.symm⟩
  | some other =>
      obtain ⟨member, keyed⟩ := find?_eq_some.mp found
      simp only [Option.isSome_some, ↓reduceIte, reduceCtorEq, false_iff]
      rintro ⟨fresh, -⟩
      exact fresh other member keyed

/-- Store `row` unless its key is taken, and leave the table alone then. -/
def add (table : SortedRows key) (row : ρ) : SortedRows key :=
  (table.putNew row).getD table

theorem mem_add {table : SortedRows key} {row other : ρ} :
    other ∈ table.add row ↔
      other ∈ table ∨
        (other = row ∧ ∀ stored ∈ table, key stored ≠ key row) := by
  unfold add
  cases result : table.putNew row with
  | none =>
      have taken : ¬ ∀ stored ∈ table, key stored ≠ key row := by
        intro fresh
        rw [putNew_eq_some.mpr ⟨fresh, rfl⟩] at result
        cases result
      simp [taken]
  | some stored =>
      obtain ⟨fresh, rfl⟩ := putNew_eq_some.mp result
      constructor
      · intro member
        rcases mem_put.mp member with rfl | ⟨old, -⟩
        · exact .inr ⟨rfl, fresh⟩
        · exact .inl old
      · rintro (old | ⟨rfl, -⟩)
        · exact mem_put.mpr (.inr ⟨old, fresh other old⟩)
        · exact mem_put.mpr (.inl rfl)

theorem mem_add_of_mem {table : SortedRows key} {row other : ρ}
    (member : other ∈ table) : other ∈ table.add row :=
  mem_add.mpr (.inl member)

theorem exists_key_add (table : SortedRows key) (row : ρ) :
    ∃ stored ∈ table.add row, key stored = key row := by
  by_cases fresh : ∀ stored ∈ table, key stored ≠ key row
  · exact ⟨row, mem_add.mpr (.inr ⟨rfl, fresh⟩), rfl⟩
  · push Not at fresh
    obtain ⟨stored, member, keyed⟩ := fresh
    exact ⟨stored, mem_add_of_mem member, keyed⟩

theorem find?_add {table : SortedRows key} {row : ρ} {wanted : κ} :
    (table.add row).find? wanted =
      (table.find? wanted).or (if key row = wanted then some row else none) := by
  unfold add
  cases result : table.putNew row with
  | some next =>
      obtain ⟨fresh, rfl⟩ := putNew_eq_some.mp result
      rw [Option.getD_some, find?_put]
      split
      · rename_i same
        rw [find?_eq_none.mpr (same ▸ fresh), Option.none_or]
      · rw [Option.or_none]
  | none =>
      rw [Option.getD_none]
      cases found : table.find? wanted with
      | some old => rfl
      | none =>
          have different : key row ≠ wanted := by
            intro same
            simp [putNew, same, found] at result
          rw [if_neg different, Option.none_or]

/-- The row with the greatest key. -/
def last? (table : SortedRows key) : Option ρ := table.rows.getLast?

theorem last?_eq_some {table : SortedRows key} {row : ρ}
    (found : table.last? = some row) :
    row ∈ table ∧ ∀ other ∈ table, key other ≤ key row := by
  obtain ⟨front, split⟩ := List.getLast?_eq_some_iff.mp found
  have sorted := table.sorted
  rw [split] at sorted
  constructor
  · rw [← mem_rows, split]
    simp
  · intro other member
    rw [← mem_rows, split] at member
    rcases List.mem_append.mp member with earlier | final
    · exact le_of_lt
        ((List.pairwise_append.mp sorted).2.2 other earlier row (by simp))
    · rw [List.mem_singleton.mp final]

theorem last?_eq_none {table : SortedRows key} :
    table.last? = none ↔ ∀ row, row ∉ table := by
  simp [last?, ← mem_rows, List.eq_nil_iff_forall_not_mem]

/-- `MDB_MULTIPLE`: store `rows` in order, stopping with `MDB_KEYEXIST` at
the first taken key unless `overwrite` is set.  Returns the table, how many
rows were written and whether it stopped. -/
def putMultiple (overwrite : Bool) :
    SortedRows key → List ρ → SortedRows key × ℕ × Bool
  | table, [] => (table, 0, false)
  | table, row :: rows =>
      match if overwrite then some (table.put row) else table.putNew row with
      | none => (table, 0, true)
      | some next =>
          let (final, written, stopped) := putMultiple overwrite next rows
          (final, written + 1, stopped)

/-- Store rows one by one, keeping what is already there. -/
def addAll (table : SortedRows key) (rows : List ρ) : SortedRows key :=
  rows.foldl add table

@[simp] theorem addAll_nil (table : SortedRows key) :
    table.addAll [] = table := rfl

@[simp] theorem addAll_cons (table : SortedRows key) (row : ρ)
    (rows : List ρ) :
    table.addAll (row :: rows) = (table.add row).addAll rows := rfl

theorem mem_addAll_of_mem {table : SortedRows key} {rows : List ρ} {row : ρ}
    (member : row ∈ table) : row ∈ table.addAll rows := by
  induction rows generalizing table with
  | nil => exact member
  | cons head rows induction => exact induction (mem_add_of_mem member)

theorem mem_of_mem_addAll {table : SortedRows key} {rows : List ρ} {row : ρ}
    (member : row ∈ table.addAll rows) : row ∈ table ∨ row ∈ rows := by
  induction rows generalizing table with
  | nil => exact .inl member
  | cons head rows induction =>
      rcases induction member with stored | later
      · rcases mem_add.mp stored with old | ⟨rfl, -⟩
        · exact .inl old
        · exact .inr (by simp)
      · exact .inr (List.mem_cons_of_mem _ later)

theorem exists_key_addAll (table : SortedRows key) {rows : List ρ} {row : ρ}
    (member : row ∈ rows) : ∃ stored ∈ table.addAll rows,
      key stored = key row := by
  induction rows generalizing table with
  | nil => cases member
  | cons head rows induction =>
      rcases List.mem_cons.mp member with rfl | later
      · obtain ⟨stored, storedMember, keyed⟩ := exists_key_add table row
        have kept : stored ∈ (table.add row).addAll rows :=
          mem_addAll_of_mem storedMember
        exact ⟨stored, kept, keyed⟩
      · exact induction (table.add head) later

theorem find?_addAll {table : SortedRows key} {rows : List ρ} {wanted : κ} :
    (table.addAll rows).find? wanted =
      (table.find? wanted).or (rows.find? fun row => key row = wanted) := by
  induction rows generalizing table with
  | nil => simp
  | cons head rows induction =>
      rw [addAll_cons, induction, find?_add, Option.or_assoc, List.find?_cons]
      by_cases same : key head = wanted
      · simp [same]
      · simp [same]

/-- After adding rows in order, a key holds what it held, or else the first of
them that has it. -/
theorem mem_addAll_iff {table : SortedRows key} {rows : List ρ} {row : ρ} :
    row ∈ table.addAll rows ↔
      match table.find? (key row) with
      | some old => old = row
      | none => rows.find? (fun new => key new = key row) = some row := by
  rw [mem_iff_find?, find?_addAll]
  cases table.find? (key row) with
  | some old => simp
  | none => simp

/-- When equal keys mean equal rows, adding rows is set union. -/
theorem mem_addAll {table : SortedRows key} {rows : List ρ}
    (identified : ∀ stored, stored ∈ table ∨ stored ∈ rows →
      ∀ row ∈ rows, key stored = key row → stored = row) {row : ρ} :
    row ∈ table.addAll rows ↔ row ∈ table ∨ row ∈ rows := by
  constructor
  · exact mem_of_mem_addAll
  · rintro (old | new)
    · exact mem_addAll_of_mem old
    · obtain ⟨stored, member, keyed⟩ := exists_key_addAll table new
      have same := identified stored (mem_of_mem_addAll member) row new keyed
      exact same ▸ member

/-- A table is rebuilt from its rows. -/
theorem empty_addAll_rows (table : SortedRows key) :
    empty.addAll table.rows = table := by
  apply ext_mem
  intro row
  rw [mem_addAll]
  · rw [or_iff_right (not_mem_empty row), mem_rows]
  · intro stored known other listed sameKey
    exact eq_of_key_eq (known.resolve_left (not_mem_empty stored)) listed
      sameKey

/-- Store rows one by one, replacing what has the same key. -/
def putAll (table : SortedRows key) (rows : List ρ) : SortedRows key :=
  rows.foldl put table

@[simp] theorem putAll_nil (table : SortedRows key) :
    table.putAll [] = table := rfl

@[simp] theorem putAll_cons (table : SortedRows key) (row : ρ)
    (rows : List ρ) :
    table.putAll (row :: rows) = (table.put row).putAll rows := rfl

theorem mem_of_mem_putAll {table : SortedRows key} {rows : List ρ} {row : ρ}
    (member : row ∈ table.putAll rows) : row ∈ table ∨ row ∈ rows := by
  induction rows generalizing table with
  | nil => exact .inl member
  | cons head rows induction =>
      rcases induction member with stored | later
      · rcases mem_put.mp stored with rfl | ⟨old, -⟩
        · exact .inr List.mem_cons_self
        · exact .inl old
      · exact .inr (List.mem_cons_of_mem _ later)

/-- When the new rows have distinct keys, storing them is replacement. -/
theorem mem_putAll {table : SortedRows key} {rows : List ρ}
    (distinct : rows.Pairwise fun first second => key first ≠ key second)
    {row : ρ} :
    row ∈ table.putAll rows ↔
      row ∈ rows ∨ (row ∈ table ∧ ∀ new ∈ rows, key row ≠ key new) := by
  induction rows generalizing table with
  | nil => simp
  | cons head rows induction =>
      obtain ⟨headDistinct, tailDistinct⟩ := List.pairwise_cons.mp distinct
      rw [putAll_cons, induction tailDistinct]
      simp only [mem_put, List.forall_mem_cons, List.mem_cons (a := row)]
      constructor
      · rintro (new | ⟨rfl | ⟨old, different⟩, rest⟩)
        · exact .inl (.inr new)
        · exact .inl (.inl rfl)
        · exact .inr ⟨old, different, rest⟩
      · rintro ((rfl | new) | ⟨old, different, rest⟩)
        · exact .inr ⟨.inl rfl, headDistinct⟩
        · exact .inl new
        · exact .inr ⟨.inr ⟨old, different⟩, rest⟩

theorem find?_putAll {table : SortedRows key} {rows : List ρ} {wanted : κ} :
    (table.putAll rows).find? wanted =
      (rows.reverse.find? fun row => key row = wanted).or (table.find? wanted) := by
  induction rows generalizing table with
  | nil => simp
  | cons head rows induction =>
      rw [putAll_cons, induction, find?_put, List.reverse_cons,
        List.find?_append, Option.or_assoc]
      by_cases same : key head = wanted
      · simp [same]
      · simp [same]

theorem exists_key_putAll (table : SortedRows key) {rows : List ρ} {row : ρ}
    (member : row ∈ rows) : ∃ stored ∈ table.putAll rows,
      key stored = key row := by
  have listed : (rows.reverse.find? fun other => key other = key row).isSome := by
    rw [List.find?_isSome]
    exact ⟨row, List.mem_reverse.mpr member, decide_eq_true rfl⟩
  have present : ((table.putAll rows).find? (key row)).isSome := by
    rw [find?_putAll, Option.isSome_or, listed, Bool.true_or]
  obtain ⟨stored, found⟩ := Option.isSome_iff_exists.mp present
  obtain ⟨stays, same⟩ := find?_eq_some.mp found
  exact ⟨stored, stays, same⟩

/-- After storing rows in order, a key holds the last of them that has it. -/
theorem mem_putAll_iff {table : SortedRows key} {rows : List ρ} {row : ρ} :
    row ∈ table.putAll rows ↔
      match rows.reverse.find? fun new => key new = key row with
      | some new => new = row
      | none => row ∈ table := by
  rw [mem_iff_find?, find?_putAll]
  cases rows.reverse.find? fun new => key new = key row with
  | some new => simp
  | none => simp [mem_iff_find?]

/-- Storing rows is set union exactly when equal keys mean equal rows. -/
theorem mem_putAll_union_iff {table : SortedRows key} {rows : List ρ} :
    (∀ row, row ∈ table.putAll rows ↔ row ∈ table ∨ row ∈ rows) ↔
      ∀ stored, stored ∈ table ∨ stored ∈ rows →
        ∀ row ∈ rows, key stored = key row → stored = row := by
  constructor
  · intro union stored known row new sameKey
    exact eq_of_key_eq ((union stored).mpr known)
      ((union row).mpr (.inr new)) sameKey
  · intro identified row
    refine ⟨mem_of_mem_putAll, fun known => mem_putAll_iff.mpr ?_⟩
    cases found : rows.reverse.find? fun new => key new = key row with
    | some new =>
        have listed := List.mem_reverse.mp (List.mem_of_find?_eq_some found)
        have sameKey : key new = key row := by simpa using List.find?_some found
        exact (identified row known new listed sameKey.symm).symm
    | none =>
        refine known.resolve_right fun listed => ?_
        have different := List.find?_eq_none.mp found row
          (List.mem_reverse.mpr listed)
        exact different (decide_eq_true rfl)

/-- When equal keys mean equal rows, storing rows is set union. -/
theorem mem_putAll_of_injective (injective : Function.Injective key)
    {table : SortedRows key} {rows : List ρ} {row : ρ} :
    row ∈ table.putAll rows ↔ row ∈ rows ∨ row ∈ table := by
  induction rows generalizing table with
  | nil => simp
  | cons head rows induction =>
      rw [putAll_cons, induction, mem_put, List.mem_cons, injective.ne_iff]
      by_cases equality : row = head <;> simp [equality]

/-! ## Tables that agree on a region of keys -/

/-- Both tables hold the same rows under the keys of `region`. -/
def AgreeOn (region : κ → Prop) (left right : SortedRows key) : Prop :=
  ∀ row, region (key row) → (row ∈ left ↔ row ∈ right)

namespace AgreeOn

variable {region : κ → Prop} {left right : SortedRows key}

theorem refl (table : SortedRows key) : AgreeOn region table table :=
  fun _ _ => Iff.rfl

theorem trans {middle : SortedRows key} (first : AgreeOn region left middle)
    (second : AgreeOn region middle right) : AgreeOn region left right :=
  fun row inside => (first row inside).trans (second row inside)

theorem find? (agree : AgreeOn region left right) {wanted : κ}
    (inside : region wanted) : left.find? wanted = right.find? wanted :=
  find?_congr fun row keyed => agree row (keyed ▸ inside)

theorem filter (agree : AgreeOn region left right) {keep : ρ → Bool}
    (inside : ∀ row, keep row = true → region (key row)) :
    left.filter keep = right.filter keep := by
  refine ext_mem fun row => ?_
  rw [mem_filter, mem_filter]
  exact and_congr_left fun kept => agree row (inside row kept)

theorem put (agree : AgreeOn region left right) (row : ρ) :
    AgreeOn region (left.put row) (right.put row) := by
  intro other inside
  rw [mem_put, mem_put, agree other inside]

theorem erase (agree : AgreeOn region left right) (unwanted : κ) :
    AgreeOn region (left.erase unwanted) (right.erase unwanted) := by
  intro other inside
  rw [mem_erase, mem_erase, agree other inside]

theorem add (agree : AgreeOn region left right) (row : ρ) :
    AgreeOn region (left.add row) (right.add row) := by
  intro other inside
  rw [mem_add, mem_add, agree other inside]
  refine or_congr_right (and_congr_right fun equality => ?_)
  subst other
  constructor
  · intro fresh stored member keyed
    exact fresh stored ((agree stored (keyed ▸ inside)).mpr member) keyed
  · intro fresh stored member keyed
    exact fresh stored ((agree stored (keyed ▸ inside)).mp member) keyed

theorem addAll (agree : AgreeOn region left right) (rows : List ρ) :
    AgreeOn region (left.addAll rows) (right.addAll rows) := by
  induction rows generalizing left right with
  | nil => exact agree
  | cons row rows induction => exact induction (agree.add row)

/-! A write outside the region is not seen. -/

theorem put_outside (table : SortedRows key) {row : ρ}
    (outside : ¬ region (key row)) : AgreeOn region table (table.put row) := by
  intro other inside
  rw [mem_put]
  constructor
  · intro member
    exact .inr ⟨member, fun keyed => outside (keyed ▸ inside)⟩
  · rintro (rfl | ⟨member, -⟩)
    · exact absurd inside outside
    · exact member

theorem erase_outside (table : SortedRows key) {unwanted : κ}
    (outside : ¬ region unwanted) :
    AgreeOn region table (table.erase unwanted) := by
  intro other inside
  rw [mem_erase]
  exact ⟨fun member => ⟨member, fun keyed => outside (keyed ▸ inside)⟩,
    fun pair => pair.1⟩

theorem addAll_outside (table : SortedRows key) {rows : List ρ}
    (outside : ∀ row ∈ rows, ¬ region (key row)) :
    AgreeOn region table (table.addAll rows) := by
  intro other inside
  refine ⟨mem_addAll_of_mem, fun member => ?_⟩
  rcases mem_of_mem_addAll member with old | new
  · exact old
  · exact absurd inside (outside other new)

end AgreeOn

end SortedRows
