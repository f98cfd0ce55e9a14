import Mathlib.Data.List.TakeWhile
import XfoLws.Lib.SortedRows

/-!
# Cursors on sorted rows

A cursor stands on a row of a table, or in the gap of a row that was deleted.
The rows of one group are the duplicates of a key.  A loop that deletes while it
walks takes the rows that a filter would take.
-/

/-- Rows in the order of a table. -/
abbrev Ordered {ρ κ : Type} [LinearOrder κ] (key : ρ → κ) (rows : List ρ) :
    Prop :=
  rows.Pairwise fun first second => key first < key second

/-- `group` is what the duplicates of a key share; `current` is the group of
the row the cursor came to last. -/
structure Cursor {ρ κ γ : Type} [LinearOrder κ] (key : ρ → κ) (group : ρ → γ)
    where
  /-- The nearest row comes first. -/
  before : List ρ
  /-- `none` once the row is deleted. -/
  here : Option ρ
  after : List ρ
  current : γ
  sorted : Ordered key (before.reverse ++ (here.toList ++ after))

namespace Cursor

section Moves

variable {ρ κ γ : Type} [LinearOrder κ] {key : ρ → κ} {group : ρ → γ}

/-! ## Positions -/

def rows (cursor : Cursor key group) : List ρ :=
  cursor.before.reverse ++ (cursor.here.toList ++ cursor.after)

def table (cursor : Cursor key group) : SortedRows key :=
  ⟨cursor.rows, cursor.sorted⟩

/-- Stand on the first of the rows behind. -/
def forward (before : List ρ) : (after : List ρ) →
    Ordered key (before.reverse ++ after) → Option (Cursor key group)
  | [], _ => none
  | row :: after, sorted => some ⟨before, some row, after, group row, sorted⟩

theorem ordered_back {row : ρ} {before after : List ρ}
    (sorted : Ordered key ((row :: before).reverse ++ after)) :
    Ordered key (before.reverse ++ ((some row).toList ++ after)) := by
  rw [List.reverse_cons, List.append_assoc] at sorted
  exact sorted

/-- Stand on the nearest of the rows in front. -/
def backward : (before : List ρ) → (after : List ρ) →
    Ordered key (before.reverse ++ after) → Option (Cursor key group)
  | [], _, _ => none
  | row :: before, after, sorted =>
      some ⟨before, some row, after, group row, ordered_back sorted⟩

theorem forward_eq_some {before after : List ρ}
    {sorted : Ordered key (before.reverse ++ after)} {next : Cursor key group}
    (moved : forward before after sorted = some next) :
    ∃ row, after = row :: next.after ∧ next.before = before ∧
      next.here = some row ∧ next.current = group row := by
  cases after with
  | nil => cases moved
  | cons row rest =>
      cases moved
      exact ⟨row, rfl, rfl, rfl, rfl⟩

theorem forward_eq_none {before after : List ρ}
    {sorted : Ordered key (before.reverse ++ after)}
    (stuck : (forward before after sorted : Option (Cursor key group)) = none) :
    after = [] := by
  cases after with
  | nil => rfl
  | cons row rest => cases stuck

theorem backward_eq_some {before after : List ρ}
    {sorted : Ordered key (before.reverse ++ after)} {next : Cursor key group}
    (moved : backward before after sorted = some next) :
    ∃ row, before = row :: next.before ∧ next.after = after ∧
      next.here = some row ∧ next.current = group row := by
  cases before with
  | nil => cases moved
  | cons row rest =>
      cases moved
      exact ⟨row, rfl, rfl, rfl, rfl⟩

theorem backward_eq_none {before after : List ρ}
    {sorted : Ordered key (before.reverse ++ after)}
    (stuck : (backward before after sorted : Option (Cursor key group)) = none) :
    before = [] := by
  cases before with
  | nil => rfl
  | cons row rest => cases stuck

/-! ## Finding rows -/

theorem ordered_split (table : SortedRows key) (passed : ρ → Bool) :
    Ordered key ((table.rows.takeWhile passed).reverse.reverse ++
      table.rows.dropWhile passed) := by
  rw [List.reverse_reverse, List.takeWhile_append_dropWhile]
  exact table.sorted

/-- The first row that is wanted. -/
def seek (table : SortedRows key) (wanted : ρ → Bool) :
    Option (Cursor key group) :=
  forward (table.rows.takeWhile fun row => !wanted row).reverse
    (table.rows.dropWhile fun row => !wanted row) (ordered_split table _)

def first (table : SortedRows key) : Option (Cursor key group) :=
  forward [] table.rows table.sorted

theorem ordered_all (table : SortedRows key) :
    Ordered key (table.rows.reverse.reverse ++ []) := by
  rw [List.reverse_reverse, List.append_nil]
  exact table.sorted

def last (table : SortedRows key) : Option (Cursor key group) :=
  backward table.rows.reverse [] (ordered_all table)

/-! ## Moving on -/

theorem reverse_toList {α : Type} (item : Option α) :
    item.toList.reverse = item.toList := by
  cases item with
  | none => rfl
  | some value => rfl

theorem ordered_next (cursor : Cursor key group) :
    Ordered key ((cursor.here.toList ++ cursor.before).reverse ++
      cursor.after) := by
  rw [List.reverse_append, reverse_toList, List.append_assoc]
  exact cursor.sorted

def next (cursor : Cursor key group) : Option (Cursor key group) :=
  forward (cursor.here.toList ++ cursor.before) cursor.after cursor.ordered_next

def prev (cursor : Cursor key group) : Option (Cursor key group) :=
  backward cursor.before (cursor.here.toList ++ cursor.after) cursor.sorted

theorem ordered_del (cursor : Cursor key group) :
    Ordered key (cursor.before.reverse ++
      ((none : Option ρ).toList ++ cursor.after)) := by
  apply List.Pairwise.sublist _ cursor.sorted
  apply (List.Sublist.refl _).append
  exact List.sublist_append_right _ _

/-- The row is deleted, and the cursor stays in its gap. -/
def del (cursor : Cursor key group) : Cursor key group :=
  { cursor with
    here := none
    sorted := cursor.ordered_del }

theorem next_eq_some {cursor next : Cursor key group}
    (moved : cursor.next = some next) :
    ∃ row, cursor.after = row :: next.after ∧
      next.before = cursor.here.toList ++ cursor.before ∧
      next.here = some row ∧ next.current = group row :=
  forward_eq_some moved

theorem next_shorter {cursor next : Cursor key group}
    (moved : cursor.next = some next) :
    next.after.length < cursor.after.length := by
  obtain ⟨row, split, -⟩ := next_eq_some moved
  simp [split]

variable [DecidableEq γ]

/-- Rows of the group the cursor is in. -/
def duplicate (cursor : Cursor key group) (row : ρ) : Bool :=
  group row = cursor.current

/-- The next row, if it is a duplicate. -/
def nextDup (cursor : Cursor key group) : Option (Cursor key group) :=
  cursor.next.filter fun next => next.current = cursor.current

theorem ordered_nextNoDup (cursor : Cursor key group) :
    Ordered key (((cursor.after.takeWhile cursor.duplicate).reverse ++
      (cursor.here.toList ++ cursor.before)).reverse ++
        cursor.after.dropWhile cursor.duplicate) := by
  rw [List.reverse_append, List.reverse_reverse, List.append_assoc,
    List.takeWhile_append_dropWhile]
  exact cursor.ordered_next

/-- The first row of the next group. -/
def nextNoDup (cursor : Cursor key group) : Option (Cursor key group) :=
  forward ((cursor.after.takeWhile cursor.duplicate).reverse ++
      (cursor.here.toList ++ cursor.before))
    (cursor.after.dropWhile cursor.duplicate) cursor.ordered_nextNoDup

theorem ordered_prevNoDup (cursor : Cursor key group) :
    Ordered key ((cursor.before.dropWhile cursor.duplicate).reverse ++
      ((cursor.before.takeWhile cursor.duplicate).reverse ++
        (cursor.here.toList ++ cursor.after))) := by
  rw [← List.append_assoc, ← List.reverse_append,
    List.takeWhile_append_dropWhile]
  exact cursor.sorted

/-- The last row of the group before. -/
def prevNoDup (cursor : Cursor key group) : Option (Cursor key group) :=
  backward (cursor.before.dropWhile cursor.duplicate)
    ((cursor.before.takeWhile cursor.duplicate).reverse ++
      (cursor.here.toList ++ cursor.after)) cursor.ordered_prevNoDup

/-- The next row, by way of the duplicates. -/
def nextEach (cursor : Cursor key group) : Option (Cursor key group) :=
  match cursor.nextDup with
  | some next => some next
  | none => cursor.nextNoDup

/-! ## Where a move ends -/

theorem nextDup_eq_some {cursor next : Cursor key group}
    (moved : cursor.nextDup = some next) :
    cursor.next = some next ∧ next.current = cursor.current := by
  obtain ⟨moved, same⟩ := Option.filter_eq_some_iff.mp moved
  exact ⟨moved, of_decide_eq_true same⟩

theorem nextDup_eq_none {cursor : Cursor key group}
    (stuck : cursor.nextDup = none) :
    cursor.after.takeWhile cursor.duplicate = [] := by
  cases split : cursor.after with
  | nil => rfl
  | cons row rest =>
      cases moved : cursor.next with
      | none =>
          have empty := forward_eq_none moved
          rw [split] at empty
          cases empty
      | some next =>
          obtain ⟨other, same, _, _, current⟩ := next_eq_some moved
          rw [split] at same
          cases same
          have apart := Option.filter_eq_none_iff.mp stuck next moved
          rw [List.takeWhile_cons_of_neg]
          simpa [duplicate, current] using apart

/-- Once the duplicates are over, the next group begins with the next row. -/
theorem nextEach_eq_next (cursor : Cursor key group) :
    cursor.nextEach = cursor.next := by
  unfold nextEach
  cases moved : cursor.nextDup with
  | some next => exact (nextDup_eq_some moved).1.symm
  | none =>
      have ended := nextDup_eq_none moved
      have rest := List.takeWhile_append_dropWhile
        (p := cursor.duplicate) (l := cursor.after)
      rw [ended, List.nil_append] at rest
      simp only [nextNoDup, ended, rest, List.reverse_nil, List.nil_append]
      rfl

end Moves

/-! ## Loops that delete -/

section Loops

variable {ρ κ γ σ ε : Type} [LinearOrder κ] {key : ρ → κ} {group : ρ → γ}

/-- Delete the row after `body`, and go on until nothing is left. -/
def eraseEach
    (advance : Cursor key group → Option (Cursor key group))
    (shorter : ∀ cursor next, advance cursor = some next →
      next.after.length < cursor.after.length)
    (body : σ → ρ → Except ε σ) (cursor : Cursor key group) (state : σ) :
    Except ε (σ × SortedRows key) :=
  match cursor.here with
  | none => .ok (state, cursor.table)
  | some row =>
      match body state row with
      | .error error => .error error
      | .ok state =>
          match _moved : advance cursor.del with
          | none => .ok (state, cursor.del.table)
          | some next => next.eraseEach advance shorter body state
termination_by cursor.after.length
decreasing_by exact shorter cursor.del next _moved

/-- Delete the row if it is unwanted. -/
def delIf (unwanted : ρ → Bool) (cursor : Cursor key group) :
    Cursor key group :=
  match cursor.here with
  | none => cursor
  | some row => if unwanted row then cursor.del else cursor

theorem delIf_eq (unwanted : ρ → Bool) (cursor : Cursor key group) :
    (cursor.delIf unwanted).before = cursor.before ∧
      (cursor.delIf unwanted).after = cursor.after ∧
      (cursor.delIf unwanted).here.toList =
        cursor.here.toList.filter fun row => !unwanted row := by
  unfold delIf
  cases here : cursor.here with
  | none => simp [here]
  | some row =>
      dsimp only
      split
      · rename_i deleted
        simp [del, deleted]
      · rename_i kept
        simp [here, kept]

/-- Delete the unwanted rows from here on. -/
def eraseWhere (unwanted : ρ → Bool) (cursor : Cursor key group) :
    SortedRows key :=
  match _moved : (cursor.delIf unwanted).next with
  | none => (cursor.delIf unwanted).table
  | some next => next.eraseWhere unwanted
termination_by cursor.after.length
decreasing_by
  have nearer := next_shorter _moved
  rwa [(delIf_eq unwanted cursor).2.1] at nearer

/-- Delete the unwanted rows. -/
def eraseRows (group : ρ → γ) (table : SortedRows key) (unwanted : ρ → Bool) :
    SortedRows key :=
  match (first table : Option (Cursor key group)) with
  | none => table
  | some cursor => cursor.eraseWhere unwanted

theorem eraseWhere_rows (unwanted : ρ → Bool) (cursor : Cursor key group) :
    (cursor.eraseWhere unwanted).rows = cursor.before.reverse ++
      (cursor.here.toList ++ cursor.after).filter fun row => !unwanted row := by
  induction size : cursor.after.length generalizing cursor with
  | zero =>
      obtain ⟨before, after, here⟩ := delIf_eq unwanted cursor
      have empty := List.eq_nil_of_length_eq_zero size
      have stuck : (cursor.delIf unwanted).next = none := by
        simp only [next, after, empty]
        rfl
      rw [eraseWhere, stuck]
      simp [table, rows, before, after, here, empty]
  | succ length induction =>
      obtain ⟨before, after, here⟩ := delIf_eq unwanted cursor
      cases moved : (cursor.delIf unwanted).next with
      | none =>
          have empty := forward_eq_none moved
          rw [after] at empty
          simp [empty] at size
      | some next =>
          obtain ⟨row, split, front, stands, -⟩ := next_eq_some moved
          rw [after] at split
          have shorter : next.after.length = length := by
            simpa [split] using size
          rw [eraseWhere, moved]
          refine (induction next shorter).trans ?_
          rw [front, List.reverse_append, reverse_toList, here, before, stands,
            split, List.append_assoc, ← List.filter_append]
          rfl

theorem prev_shorter {cursor prev : Cursor key group}
    (moved : cursor.prev = some prev) :
    prev.before.length < cursor.before.length := by
  obtain ⟨row, split, -⟩ := backward_eq_some moved
  simp [split]

theorem prevNoDup_shorter [DecidableEq γ] {cursor prev : Cursor key group}
    (moved : cursor.prevNoDup = some prev) :
    prev.before.length < cursor.before.length := by
  obtain ⟨row, split, -⟩ := backward_eq_some moved
  have size := (List.dropWhile_sublist (l := cursor.before)
    cursor.duplicate).length_le
  rw [split, List.length_cons] at size
  exact size

/-- Walk back, and skip the rest of a group at a row that is kept. -/
def eraseBack [DecidableEq γ] (kept : ρ → Bool) (cursor : Cursor key group) :
    SortedRows key :=
  match cursor.here with
  | none => cursor.table
  | some row =>
      if kept row then
        match _moved : cursor.prevNoDup with
        | none => cursor.table
        | some prev => prev.eraseBack kept
      else
        match _moved : cursor.del.prev with
        | none => cursor.del.table
        | some prev => prev.eraseBack kept
termination_by cursor.before.length
decreasing_by
  · exact prevNoDup_shorter _moved
  · have nearer := prev_shorter _moved
    exact nearer

/-- Walk back over the table, and delete what is not kept. -/
def eraseLast [DecidableEq γ] (group : ρ → γ) (table : SortedRows key)
    (kept : ρ → Bool) : SortedRows key :=
  match (last table : Option (Cursor key group)) with
  | none => table
  | some cursor => cursor.eraseBack kept

/-- Seek the first row that is wanted, and delete from there. -/
def eraseFrom
    (advance : Cursor key group → Option (Cursor key group))
    (shorter : ∀ cursor next, advance cursor = some next →
      next.after.length < cursor.after.length)
    (wanted : ρ → Bool) (body : σ → ρ → Except ε σ) (table : SortedRows key)
    (state : σ) : Except ε (σ × SortedRows key) :=
  match seek table wanted with
  | none => .ok (state, table)
  | some cursor => cursor.eraseEach advance shorter body state

theorem eraseEach_eq
    {advance : Cursor key group → Option (Cursor key group)}
    {shorter : ∀ cursor next, advance cursor = some next →
      next.after.length < cursor.after.length}
    {body : σ → ρ → Except ε σ} {cursor : Cursor key group} {row : ρ}
    (here : cursor.here = some row) (state : σ) :
    cursor.eraseEach advance shorter body state =
      (body state row).bind fun state =>
        match advance cursor.del with
        | none => .ok (state, cursor.del.table)
        | some next => next.eraseEach advance shorter body state := by
  rw [eraseEach, here]
  dsimp only
  cases body state row with
  | error error => rfl
  | ok state =>
      dsimp only [Except.bind]
      split
      · rename_i stuck
        rw [stuck]
      · rename_i next moved
        rw [moved]

/-- The rows in front of the cursor. -/
def front (cursor : Cursor key group) : SortedRows key :=
  ⟨cursor.before.reverse, (List.pairwise_append.mp cursor.sorted).1⟩

theorem table_congr {left right : SortedRows key}
    (same : left.rows = right.rows) : left = right := by
  cases left
  cases right
  cases same
  rfl

/-- Where every move is one to the next row, all rows from here on go. -/
theorem eraseEach_all
    {advance : Cursor key group → Option (Cursor key group)}
    {shorter : ∀ cursor next, advance cursor = some next →
      next.after.length < cursor.after.length}
    (moves : ∀ cursor, advance cursor = cursor.next)
    {body : σ → ρ → Except ε σ} {cursor : Cursor key group} {row : ρ}
    (here : cursor.here = some row) (state : σ) :
    cursor.eraseEach advance shorter body state =
      ((row :: cursor.after).foldlM body state).map fun state =>
        (state, cursor.front) := by
  induction rest : cursor.after generalizing cursor row state with
  | nil =>
      have stuck : cursor.del.next = none := by
        simp only [next, del, rest]
        rfl
      have left : cursor.del.table = cursor.front := by
        apply table_congr
        simp [table, rows, del, front, rest]
      rw [eraseEach_eq here, moves, stuck, left, List.foldlM_cons]
      cases body state row with
      | error error => rfl
      | ok state => rfl
  | cons following rest induction =>
      cases moved : cursor.del.next with
      | none =>
          have empty := forward_eq_none moved
          simp [del, rest] at empty
      | some next =>
          obtain ⟨other, split, before, stands, -⟩ := next_eq_some moved
          simp only [del, rest, List.cons.injEq] at split
          obtain ⟨rfl, split⟩ := split
          have left : next.front = cursor.front := by
            apply table_congr
            simp [front, before, del]
          rw [eraseEach_eq here, moves, moved, List.foldlM_cons]
          cases body state row with
          | error error => rfl
          | ok state =>
              have later := induction stands state split.symm
              rw [left] at later
              exact later

variable [DecidableEq γ]

theorem ordered_leftDups (cursor : Cursor key group) :
    Ordered key (cursor.before.reverse ++
      cursor.after.dropWhile cursor.duplicate) := by
  apply List.Pairwise.sublist _ cursor.sorted
  apply (List.Sublist.refl _).append
  exact (List.dropWhile_sublist _).trans (List.sublist_append_right _ _)

/-- The rows without the duplicates from here on. -/
def leftDups (cursor : Cursor key group) : SortedRows key :=
  ⟨cursor.before.reverse ++ cursor.after.dropWhile cursor.duplicate,
    cursor.ordered_leftDups⟩

theorem nextDup_shorter (cursor next : Cursor key group)
    (moved : cursor.nextDup = some next) :
    next.after.length < cursor.after.length :=
  next_shorter (nextDup_eq_some moved).1

theorem nextEach_shorter (cursor next : Cursor key group)
    (moved : cursor.nextEach = some next) :
    next.after.length < cursor.after.length := by
  rw [nextEach_eq_next] at moved
  exact next_shorter moved

/-- Seek the first row that is wanted, and delete its duplicates from there. -/
def eraseDups (group : ρ → γ) (wanted : ρ → Bool) (body : σ → ρ → Except ε σ)
    (table : SortedRows key) (state : σ) : Except ε (σ × SortedRows key) :=
  eraseFrom (nextDup : Cursor key group → Option (Cursor key group))
    nextDup_shorter wanted body table state

/-- Seek the first row that is wanted, and delete group by group from there. -/
def eraseGroups (group : ρ → γ) (wanted : ρ → Bool)
    (body : σ → ρ → Except ε σ) (table : SortedRows key) (state : σ) :
    Except ε (σ × SortedRows key) :=
  eraseFrom (nextEach : Cursor key group → Option (Cursor key group))
    nextEach_shorter wanted body table state

theorem eraseEach_dups {body : σ → ρ → Except ε σ}
    {cursor : Cursor key group} {row : ρ} (here : cursor.here = some row)
    (state : σ) :
    cursor.eraseEach nextDup nextDup_shorter body state =
      ((row :: cursor.after.takeWhile cursor.duplicate).foldlM body state).map
        fun state => (state, cursor.leftDups) := by
  induction rest : cursor.after generalizing cursor row state with
  | nil =>
      have stuck : cursor.del.nextDup = none := by
        simp only [nextDup, next, del, rest]
        rfl
      have left : cursor.del.table = cursor.leftDups := by
        apply table_congr
        simp [table, rows, del, leftDups, rest]
      rw [eraseEach_eq here, stuck, left, List.takeWhile_nil,
        List.foldlM_cons]
      cases body state row with
      | error error => rfl
      | ok state => rfl
  | cons following rest induction =>
      cases moved : cursor.del.nextDup with
      | none =>
          have ended : cursor.after.takeWhile cursor.duplicate = [] := by
            have none := nextDup_eq_none moved
            exact none
          have all := List.takeWhile_append_dropWhile
            (p := cursor.duplicate) (l := cursor.after)
          rw [ended, List.nil_append] at all
          have left : cursor.del.table = cursor.leftDups := by
            apply table_congr
            simp [table, rows, del, leftDups, all]
          rw [← rest, ended, eraseEach_eq here, moved, left, List.foldlM_cons]
          cases body state row with
          | error error => rfl
          | ok state => rfl
      | some next =>
          obtain ⟨steps, current⟩ := nextDup_eq_some moved
          obtain ⟨other, split, before, stands, group⟩ := next_eq_some steps
          simp only [del, rest, List.cons.injEq] at split
          obtain ⟨rfl, split⟩ := split
          have duplicates : next.duplicate = cursor.duplicate := by
            funext other
            simp only [duplicate, current]
            rfl
          have inside : cursor.duplicate following = true := by
            simp only [duplicate, ← group, current]
            exact decide_eq_true rfl
          have left : next.leftDups = cursor.leftDups := by
            apply table_congr
            simp [leftDups, before, del, duplicates, rest, inside, split]
          rw [eraseEach_eq here, moved, List.takeWhile_cons_of_pos inside,
            List.foldlM_cons]
          cases body state row with
          | error error => rfl
          | ok state =>
              have later := induction stands state split.symm
              rw [left, duplicates] at later
              exact later

end Loops

/-! ## The rows a loop takes -/

section Rows

variable {ρ κ γ : Type} [LinearOrder κ] {key : ρ → κ} {group : ρ → γ}
  {cursor : Cursor key group} {row : ρ}

theorem mem_table {other : ρ} (here : cursor.here = some row) :
    other ∈ cursor.table ↔
      other ∈ cursor.before ∨ other = row ∨ other ∈ cursor.after := by
  rw [← SortedRows.mem_rows]
  simp [table, rows, here]

theorem before_lt (here : cursor.here = some row) {other : ρ}
    (member : other ∈ cursor.before) : key other < key row := by
  apply (List.pairwise_append.mp cursor.sorted).2.2
  · exact List.mem_reverse.mpr member
  · simp [here]

theorem ordered_onward (here : cursor.here = some row) :
    Ordered key (row :: cursor.after) := by
  have behind := (List.pairwise_append.mp cursor.sorted).2.1
  rw [here] at behind
  exact behind

theorem lt_after (here : cursor.here = some row) {other : ρ}
    (member : other ∈ cursor.after) : key row < key other :=
  List.rel_of_pairwise_cons (ordered_onward here) member

theorem front_eq (here : cursor.here = some row) :
    cursor.front = cursor.table.filter fun other => key other < key row := by
  apply SortedRows.ext_mem
  intro other
  rw [SortedRows.mem_filter, mem_table here, decide_eq_true_eq]
  constructor
  · intro member
    have front := List.mem_reverse.mp member
    exact ⟨.inl front, before_lt here front⟩
  · intro ⟨member, below⟩
    rcases member with front | rfl | behind
    · exact List.mem_reverse.mpr front
    · exact absurd below (lt_irrefl _)
    · exact absurd below (lt_after here behind).asymm

theorem seek_eq_some {table : SortedRows key} {wanted : ρ → Bool}
    (found : seek table wanted = some cursor) :
    cursor.table = table ∧ ∃ row, cursor.here = some row ∧
      wanted row = true ∧ cursor.current = group row ∧
      ∀ other ∈ table, key other < key row → wanted other = false := by
  obtain ⟨row, behind, before, here, current⟩ := forward_eq_some found
  have same : cursor.table = table := by
    apply table_congr
    simp only [Cursor.table, rows, here, before, List.reverse_reverse,
      Option.toList_some, List.singleton_append]
    rw [← behind, List.takeWhile_append_dropWhile]
  refine ⟨same, row, here, ?_, current, ?_⟩
  · have stopped := List.head?_dropWhile_not (fun row => !wanted row) table.rows
    rw [behind] at stopped
    simpa using stopped
  · intro other member below
    rw [← same, mem_table here] at member
    rcases member with front | rfl | later
    · rw [before, List.mem_reverse] at front
      simpa using List.mem_takeWhile_imp front
    · exact absurd below (lt_irrefl _)
    · exact absurd below (lt_after here later).asymm

theorem first_eq_some {table : SortedRows key}
    (found : first table = some cursor) :
    cursor.before = [] ∧ ∃ row, cursor.here = some row ∧
      cursor.current = group row ∧ table.rows = row :: cursor.after := by
  obtain ⟨row, rest, before, here, current⟩ := forward_eq_some found
  exact ⟨before, row, here, current, rest⟩

theorem eraseRows_eq (group : ρ → γ) (table : SortedRows key)
    (unwanted : ρ → Bool) :
    eraseRows group table unwanted = table.filter fun row => !unwanted row := by
  apply table_congr
  unfold eraseRows
  cases found : (first table : Option (Cursor key group)) with
  | none =>
      have empty : table.rows = [] := forward_eq_none found
      simp [SortedRows.filter, empty]
  | some cursor =>
      obtain ⟨before, row, here, -, rest⟩ := first_eq_some found
      have left := eraseWhere_rows unwanted cursor
      rw [before, here] at left
      simpa [SortedRows.filter, rest] using left

theorem next_table {next : Cursor key group} (moved : cursor.next = some next) :
    next.table = cursor.table := by
  obtain ⟨row, split, before, here, -⟩ := next_eq_some moved
  apply table_congr
  simp [table, rows, before, here, split, reverse_toList]

theorem after_eq (here : cursor.here = some row) :
    cursor.after = cursor.table.rows.filter fun other => key row < key other := by
  have all : cursor.table.rows =
      cursor.before.reverse ++ row :: cursor.after := by
    simp [table, rows, here]
  have front : cursor.before.reverse.filter
      (fun other => key row < key other) = [] := by
    rw [List.filter_eq_nil_iff]
    intro other member
    simpa using (before_lt here (List.mem_reverse.mp member)).le
  have behind : cursor.after.filter (fun other => key row < key other) =
      cursor.after := by
    rw [List.filter_eq_self]
    intro other member
    simpa using lt_after here member
  rw [all, List.filter_append, front, List.nil_append,
    List.filter_cons_of_neg (by simp), behind]

theorem onward_eq (here : cursor.here = some row) :
    row :: cursor.after =
      cursor.table.rows.filter fun other => key row ≤ key other := by
  have all : cursor.table.rows =
      cursor.before.reverse ++ row :: cursor.after := by
    simp [table, rows, here]
  have front : cursor.before.reverse.filter
      (fun other => key row ≤ key other) = [] := by
    rw [List.filter_eq_nil_iff]
    intro other member
    simpa using before_lt here (List.mem_reverse.mp member)
  have behind : cursor.after.filter (fun other => key row ≤ key other) =
      cursor.after := by
    rw [List.filter_eq_self]
    intro other member
    simpa using (lt_after here member).le
  rw [all, List.filter_append, front, List.nil_append,
    List.filter_cons_of_pos (by simp), behind]

theorem seek_eq_none {table : SortedRows key} {wanted : ρ → Bool}
    (missed : (seek table wanted : Option (Cursor key group)) = none) :
    ∀ row ∈ table, wanted row = false := by
  intro row member
  have none := forward_eq_none missed
  have unwanted := List.dropWhile_eq_nil_iff.mp none row member
  simpa using unwanted

/-- A cursor sought by its key is a lookup. -/
theorem seek_key_eq_none {table : SortedRows key} {wanted : κ}
    (missed : (seek table fun row => key row = wanted :
      Option (Cursor key group)) = none) : table.find? wanted = none := by
  rw [SortedRows.find?_eq_none]
  intro row member
  simpa using seek_eq_none missed row member

theorem seek_key_eq_some {table : SortedRows key} {wanted : κ}
    (found : (seek table fun row => key row = wanted) = some cursor) :
    cursor.table = table ∧ ∃ row, cursor.here = some row ∧
      key row = wanted ∧ table.find? wanted = some row := by
  obtain ⟨same, row, here, hit, -⟩ := seek_eq_some found
  have keyed : key row = wanted := by simpa using hit
  refine ⟨same, row, here, keyed, SortedRows.find?_eq_some.mpr ⟨?_, keyed⟩⟩
  rw [← same, mem_table here]
  exact .inr (.inl rfl)

theorem wanted_eq {table : SortedRows key} {wanted : ρ → Bool}
    (found : seek table wanted = some cursor) (here : cursor.here = some row)
    (inside : ρ → Prop) {other : ρ} (member : other ∈ table)
    (onward : ∀ later, key row < key later →
      (wanted later = true ↔ inside later))
    (self : inside row) :
    wanted other = true ↔ inside other ∧ key row ≤ key other := by
  obtain ⟨same, first, stands, hit, -, nearer⟩ := seek_eq_some found
  cases here.symm.trans stands
  have rowMember : row ∈ table := by
    rw [← same, mem_table here]
    exact .inr (.inl rfl)
  rcases lt_trichotomy (key other) (key row) with below | equal | above
  · simp [nearer other member below, not_le.mpr below]
  · have identical := SortedRows.eq_of_key_eq member rowMember equal
    simp [identical, hit, self]
  · rw [onward other above]
    simp [above.le]

theorem filter_wanted {table : SortedRows key} {wanted : ρ → Bool}
    (missed : (seek table wanted : Option (Cursor key group)) = none) :
    table.rows.filter wanted = [] ∧
      table = table.filter fun row => !wanted row := by
  have none := seek_eq_none missed
  constructor
  · rw [List.filter_eq_nil_iff]
    intro row member
    simp [none row member]
  · apply SortedRows.ext_mem
    intro row
    rw [SortedRows.mem_filter]
    constructor
    · intro member
      exact ⟨member, by simp [none row member]⟩
    · exact fun both => both.1

theorem eraseAll_filter (table : SortedRows key) (wanted : ρ → Bool) :
    table.eraseAll ((table.rows.filter wanted).map key) =
      table.filter fun row => !wanted row := by
  apply SortedRows.ext_mem
  intro row
  rw [SortedRows.mem_eraseAll, SortedRows.mem_filter]
  refine and_congr_right fun member => ?_
  rw [Bool.not_eq_true', ← Bool.not_eq_true, not_iff_not]
  constructor
  · intro listed
    obtain ⟨other, taken, equal⟩ := List.mem_map.mp listed
    obtain ⟨known, hit⟩ := List.mem_filter.mp taken
    rwa [← SortedRows.eq_of_key_eq known member equal]
  · intro hit
    exact List.mem_map_of_mem (List.mem_filter.mpr ⟨member, hit⟩)

/-- A loop that erases each row beside its body is the loop of the body, and
the rows erased. -/
theorem foldlM_erase {δ σ ε : Type} {step : δ → ρ → Except ε δ}
    {body : σ → ρ → Except ε σ} {join : σ → SortedRows key → δ}
    (split : ∀ state table row, step (join state table) row =
      (body state row).map fun state => join state (table.erase (key row)))
    (rows : List ρ) (state : σ) (table : SortedRows key) :
    rows.foldlM step (join state table) =
      (rows.foldlM body state).map fun state =>
        join state (table.eraseAll (rows.map key)) := by
  induction rows generalizing state table with
  | nil => rfl
  | cons row rows induction =>
      rw [List.foldlM_cons, List.foldlM_cons, split]
      cases body state row with
      | error error => rfl
      | ok state => exact induction state (table.erase (key row))

/-- Where all rows behind a wanted one are wanted too, the wanted rows go. -/
theorem eraseGroups_eq {σ ε : Type} [DecidableEq γ] (group : ρ → γ)
    {wanted : ρ → Bool}
    (upward : ∀ first second, key first < key second →
      wanted first = true → wanted second = true)
    (body : σ → ρ → Except ε σ) (table : SortedRows key) (state : σ) :
    eraseGroups group wanted body table state =
      ((table.rows.filter wanted).foldlM body state).map fun state =>
        (state, table.filter fun row => !wanted row) := by
  unfold eraseGroups eraseFrom
  cases found : (seek table wanted : Option (Cursor key group)) with
  | none =>
      obtain ⟨empty, same⟩ := filter_wanted found
      rw [empty, ← same]
      rfl
  | some cursor =>
      obtain ⟨same, row, here, hit, -⟩ := seek_eq_some found
      have exactly : ∀ other ∈ table,
          (wanted other = true ↔ True ∧ key row ≤ key other) := by
        intro other member
        refine wanted_eq found here (fun _ => True) member ?_ trivial
        intro later above
        simp [upward row later above hit]
      have swept : row :: cursor.after = table.rows.filter wanted := by
        rw [onward_eq here, same]
        apply List.filter_congr
        intro other member
        have this := exactly other member
        simp only [true_and] at this
        rw [Bool.eq_iff_iff, decide_eq_true_eq, this]
      have left : cursor.front = table.filter fun row => !wanted row := by
        rw [front_eq here, same]
        apply SortedRows.ext_mem
        intro other
        rw [SortedRows.mem_filter, SortedRows.mem_filter]
        refine and_congr_right fun member => ?_
        have this := exactly other member
        simp only [true_and] at this
        rw [decide_eq_true_eq, Bool.not_eq_true', ← Bool.not_eq_true, this,
          not_le]
      dsimp only
      rw [eraseEach_all nextEach_eq_next here, swept, left]

end Rows

section Groups

variable {ρ κ γ : Type} [LinearOrder κ] [PartialOrder γ] [DecidableEq γ]
  {key : ρ → κ} {group : ρ → γ} {cursor : Cursor key group} {row : ρ}

theorem not_duplicate
    (grouped : ∀ first second, key first < key second →
      group first ≤ group second)
    (here : cursor.here = some row) (current : cursor.current = group row)
    {other : ρ} (member : other ∈ cursor.after.dropWhile cursor.duplicate) :
    group other ≠ group row := by
  have sorted : Ordered key (cursor.after.dropWhile cursor.duplicate) :=
    List.Pairwise.sublist (List.dropWhile_sublist _)
      (List.pairwise_cons.mp (ordered_onward here)).2
  cases rest : cursor.after.dropWhile cursor.duplicate with
  | nil => simp [rest] at member
  | cons head tail =>
      have listed : head ∈ cursor.after := by
        apply (List.dropWhile_sublist cursor.duplicate).subset
        simp [rest]
      have apart : group head ≠ group row := by
        have stopped := List.head?_dropWhile_not cursor.duplicate cursor.after
        rw [rest] at stopped
        simpa [duplicate, current] using stopped
      have above : group row < group head :=
        lt_of_le_of_ne (grouped _ _ (lt_after here listed)) apart.symm
      rw [rest] at member sorted
      rcases List.mem_cons.mp member with rfl | further
      · exact apart
      · have order := grouped _ _ (List.rel_of_pairwise_cons sorted further)
        exact (above.trans_le order).ne'

theorem dups_eq
    (grouped : ∀ first second, key first < key second →
      group first ≤ group second)
    (here : cursor.here = some row) (current : cursor.current = group row) :
    row :: cursor.after.takeWhile cursor.duplicate =
      cursor.table.rows.filter fun other =>
        group other = group row ∧ key row ≤ key other := by
  have onward := onward_eq here
  have split := List.takeWhile_append_dropWhile
    (p := cursor.duplicate) (l := cursor.after)
  have inside : (cursor.after.takeWhile cursor.duplicate).filter
      (fun other => group other = group row) =
        cursor.after.takeWhile cursor.duplicate := by
    rw [List.filter_eq_self]
    intro other member
    simpa [duplicate, current] using List.mem_takeWhile_imp member
  have outside : (cursor.after.dropWhile cursor.duplicate).filter
      (fun other => group other = group row) = [] := by
    rw [List.filter_eq_nil_iff]
    intro other member
    simpa using not_duplicate grouped here current member
  have both : cursor.table.rows.filter (fun other =>
      group other = group row ∧ key row ≤ key other) =
        (row :: cursor.after).filter fun other => group other = group row := by
    rw [onward, List.filter_filter]
    simp
  rw [both, List.filter_cons_of_pos (by simp), ← split, List.filter_append,
    inside, outside, List.append_nil, split]

theorem leftDups_eq
    (grouped : ∀ first second, key first < key second →
      group first ≤ group second)
    (here : cursor.here = some row) (current : cursor.current = group row) :
    cursor.leftDups = cursor.table.filter fun other =>
      ¬ (group other = group row ∧ key row ≤ key other) := by
  apply SortedRows.ext_mem
  intro other
  rw [SortedRows.mem_filter, decide_eq_true_eq, mem_table here]
  change other ∈ cursor.before.reverse ++ _ ↔ _
  rw [List.mem_append, List.mem_reverse]
  have split := List.takeWhile_append_dropWhile
    (p := cursor.duplicate) (l := cursor.after)
  constructor
  · intro member
    rcases member with front | behind
    · exact ⟨.inl front, fun both =>
        absurd (before_lt here front) (not_lt.mpr both.2)⟩
    · have listed := (List.dropWhile_sublist _).subset behind
      exact ⟨.inr (.inr listed), fun both =>
        not_duplicate grouped here current behind both.1⟩
  · intro ⟨member, apart⟩
    rcases member with front | rfl | behind
    · exact .inl front
    · exact absurd ⟨rfl, le_rfl⟩ apart
    · right
      rw [← split, List.mem_append] at behind
      rcases behind with inside | outside
      · have same := List.mem_takeWhile_imp inside
        have listed := (List.takeWhile_sublist _).subset inside
        refine absurd ⟨?_, (lt_after here listed).le⟩ apart
        simpa [duplicate, current] using same
      · exact outside

/-- Where the wanted rows are of one group, and all of it behind one of them
are wanted too, the wanted rows go. -/
theorem eraseDups_eq {σ ε : Type}
    (grouped : ∀ first second, key first < key second →
      group first ≤ group second)
    {wanted : ρ → Bool}
    (upward : ∀ first second, key first < key second → wanted first = true →
      (wanted second = true ↔ group second = group first))
    (body : σ → ρ → Except ε σ) (table : SortedRows key) (state : σ) :
    eraseDups group wanted body table state =
      ((table.rows.filter wanted).foldlM body state).map fun state =>
        (state, table.filter fun row => !wanted row) := by
  unfold eraseDups eraseFrom
  cases found : (seek table wanted : Option (Cursor key group)) with
  | none =>
      obtain ⟨empty, same⟩ := filter_wanted found
      rw [empty, ← same]
      rfl
  | some cursor =>
      obtain ⟨same, row, here, hit, current, -⟩ := seek_eq_some found
      have exactly : ∀ other ∈ table,
          (wanted other = true ↔
            group other = group row ∧ key row ≤ key other) := by
        intro other member
        exact wanted_eq found here (fun other => group other = group row) member
          (fun later above => upward row later above hit) rfl
      have swept : row :: cursor.after.takeWhile cursor.duplicate =
          table.rows.filter wanted := by
        rw [dups_eq grouped here current, same]
        apply List.filter_congr
        intro other member
        rw [Bool.eq_iff_iff, decide_eq_true_eq, exactly other member]
      have left : cursor.leftDups = table.filter fun row => !wanted row := by
        rw [leftDups_eq grouped here current, same]
        apply SortedRows.ext_mem
        intro other
        rw [SortedRows.mem_filter, SortedRows.mem_filter]
        refine and_congr_right fun member => ?_
        rw [decide_eq_true_eq, Bool.not_eq_true', ← Bool.not_eq_true,
          exactly other member]
      dsimp only
      rw [eraseEach_dups here, swept, left]

end Groups

section Back

variable {ρ κ γ : Type} [LinearOrder κ] [DecidableEq γ] {key : ρ → κ}
  {group : ρ → γ} {cursor : Cursor key group} {row : ρ}

/-- A row that is kept keeps the rows of its group in front of it. -/
theorem eraseBack_rows {kept : ρ → Bool}
    (closed : ∀ first second, key first < key second →
      group first = group second → kept second = true → kept first = true)
    (here : cursor.here = some row) (current : cursor.current = group row) :
    (cursor.eraseBack kept).rows =
      (cursor.before.reverse ++ [row]).filter kept ++ cursor.after := by
  induction size : cursor.before.length using Nat.strong_induction_on
    generalizing cursor row with
  | h length induction =>
      subst size
      rw [eraseBack, here]
      dsimp only
      split
      · rename_i keep
        have split := List.takeWhile_append_dropWhile
          (p := cursor.duplicate) (l := cursor.before)
        have group : (cursor.before.takeWhile cursor.duplicate).reverse.filter
            kept = (cursor.before.takeWhile cursor.duplicate).reverse := by
          rw [List.filter_eq_self]
          intro other member
          have member := List.mem_reverse.mp member
          have same := List.mem_takeWhile_imp member
          have front := (List.takeWhile_sublist _).subset member
          refine closed other row (before_lt here front) ?_ keep
          simpa [duplicate, current] using same
        cases moved : cursor.prevNoDup with
        | none =>
            have none := backward_eq_none moved
            rw [none, List.append_nil] at split
            rw [split] at group
            simp [table, rows, here, List.filter_append, group, keep]
        | some prev =>
            obtain ⟨other, rest, after, stands, group'⟩ :=
              backward_eq_some moved
            have shorter := prevNoDup_shorter moved
            refine (induction _ shorter stands group' rfl).trans ?_
            have pieces : cursor.before.reverse.filter kept =
                (cursor.before.dropWhile cursor.duplicate).reverse.filter
                    kept ++ (cursor.before.takeWhile cursor.duplicate).reverse := by
              conv_lhs => rw [← split]
              rw [List.reverse_append, List.filter_append, group]
            rw [after, here, ← List.reverse_cons, ← rest, List.filter_append,
              pieces]
            simp [keep]
      · rename_i drop
        cases moved : cursor.del.prev with
        | none =>
            have none : cursor.before = [] := backward_eq_none moved
            simp [table, rows, del, none, drop]
        | some prev =>
            obtain ⟨other, rest, after, stands, group'⟩ :=
              backward_eq_some moved
            have shorter : prev.before.length < cursor.before.length := by
              have nearer := prev_shorter moved
              exact nearer
            refine (induction _ shorter stands group' rfl).trans ?_
            have rest : cursor.before = other :: prev.before := rest
            have after : prev.after = cursor.after := after
            rw [after, ← List.reverse_cons, ← rest]
            simp [List.filter_append, drop]

/-- The walk from the last row back filters the rows. -/
theorem eraseLast_eq (table : SortedRows key) {kept : ρ → Bool}
    (closed : ∀ first second, key first < key second →
      group first = group second → kept second = true → kept first = true) :
    eraseLast group table kept = table.filter kept := by
  apply table_congr
  unfold eraseLast
  cases found : (last table : Option (Cursor key group)) with
  | none =>
      have empty := backward_eq_none found
      rw [List.reverse_eq_nil_iff] at empty
      simp [SortedRows.filter, empty]
  | some cursor =>
      obtain ⟨row, rest, after, here, current⟩ := backward_eq_some found
      have left := eraseBack_rows closed here current
      rw [after, List.append_nil, ← List.reverse_cons, ← rest,
        List.reverse_reverse] at left
      exact left

end Back

end Cursor
