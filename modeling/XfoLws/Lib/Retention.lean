import XfoLws.Lib.SortedRows

/-!
# Tables of limited size

A table is pruned before it is used: rows that have expired go, and while the
table is full the oldest row goes that is not permanent.  A hash table lists
its rows in any order, so which of several oldest rows goes is left open.
-/

/-- What a pruned table keeps; `late` says that the clock is past the first
period after the epoch. -/
structure Retention (ρ τ : Type) where
  maxEntries : ℕ
  late : τ → Bool
  expired : τ → ρ → Bool
  permanent : ρ → Bool
  updatedAt : ρ → τ

/-- The order in which a hash table lists its rows. -/
structure Iteration (ρ : Type) where
  order : List ρ → List ρ
  perm : ∀ rows, (order rows).Perm rows

/-- The order of the keys. -/
def Iteration.sorted (ρ : Type) : Iteration ρ := ⟨id, fun _ => .refl _⟩

namespace Retention

variable {ρ τ κ : Type} [LinearOrder κ] {key : ρ → κ}
  (retention : Retention ρ τ)

def dropExpired (now : τ) (table : SortedRows key) : SortedRows key :=
  table.filter fun row => !retention.expired now row

/-- The unexpired permanent rows. -/
def permanents (now : τ) (table : SortedRows key) : SortedRows key :=
  (retention.dropExpired now table).filter retention.permanent

/-- A table in which an unexpired row is found to make room. -/
structure Crowded (now : τ) (table : SortedRows key) : Prop where
  late : retention.late now = true
  full : retention.maxEntries ≤ (retention.dropExpired now table).rows.length
  evictable : ∃ row ∈ retention.dropExpired now table,
    retention.permanent row = false

instance (now : τ) (table : SortedRows key) :
    Decidable (retention.Crowded now table) :=
  decidable_of_iff
    (retention.late now = true ∧
      retention.maxEntries ≤ (retention.dropExpired now table).rows.length ∧
      ∃ row ∈ (retention.dropExpired now table).rows,
        retention.permanent row = false)
    ⟨fun found => ⟨found.1, found.2.1, found.2.2⟩,
      fun crowded => ⟨crowded.late, crowded.full, crowded.evictable⟩⟩

@[simp] theorem mem_dropExpired {retention : Retention ρ τ} {now : τ}
    {table : SortedRows key} {row : ρ} :
    row ∈ retention.dropExpired now table ↔
      row ∈ table ∧ retention.expired now row = false := by
  simp [dropExpired]

variable [LT τ] [DecidableLT τ]

/-- A row before the oldest one found so far. -/
def older (oldest : Option ρ) (row : ρ) : Option ρ :=
  if retention.permanent row then oldest
  else
    match oldest with
    | none => some row
    | some found =>
        if retention.updatedAt row < retention.updatedAt found then some row
        else oldest

def oldest (rows : List ρ) : Option ρ := rows.foldl retention.older none

/-- The loop that makes room in a table of `count` rows. -/
def makeRoom (iteration : Iteration ρ) (now : τ) :
    (count : ℕ) → SortedRows key → SortedRows key
  | 0, table => table
  | count + 1, table =>
      if retention.late now ∧ retention.maxEntries ≤ table.rows.length then
        match retention.oldest (iteration.order table.rows) with
        | none => table
        | some row => makeRoom iteration now count (table.erase (key row))
      else table

def prune (iteration : Iteration ρ) (now : τ) (table : SortedRows key) :
    SortedRows key :=
  let kept := retention.dropExpired now table
  retention.makeRoom iteration now kept.rows.length kept

variable {retention} {iteration : Iteration ρ} {now : τ}
  {table : SortedRows key} {row : ρ}

omit [LinearOrder κ] in
private theorem foldl_older {rows : List ρ} {oldest : Option ρ}
    (evictable : ∀ row ∈ oldest, retention.permanent row = false) :
    (∀ row ∈ rows.foldl retention.older oldest,
        (oldest = some row ∨ row ∈ rows) ∧ retention.permanent row = false) ∧
      (rows.foldl retention.older oldest = none ↔
        oldest = none ∧ ∀ row ∈ rows, retention.permanent row = true) := by
  induction rows generalizing oldest with
  | nil =>
      refine ⟨fun row member => ⟨.inl member, evictable row member⟩, ?_⟩
      simp
  | cons first rows induction =>
      have step : (∀ row ∈ retention.older oldest first,
            (oldest = some row ∨ row = first) ∧
              retention.permanent row = false) ∧
          (retention.older oldest first = none ↔
            oldest = none ∧ retention.permanent first = true) := by
        unfold older
        cases permanent : retention.permanent first with
        | true =>
            refine ⟨fun row member => ⟨.inl member, evictable row member⟩, ?_⟩
            simp
        | false =>
            cases oldest with
            | none => simp [permanent]
            | some found =>
                have kept := evictable found rfl
                simp only [Bool.false_eq_true, if_false]
                split
                · simp [permanent]
                · simp [kept]
      obtain ⟨found, absent⟩ := induction fun row member =>
        (step.1 row member).2
      rw [List.foldl_cons]
      constructor
      · intro row member
        obtain ⟨source, evictable⟩ := found row member
        refine ⟨?_, evictable⟩
        rcases source with source | later
        · refine (step.1 row source).1.imp_right fun same => ?_
          rw [same]
          exact List.mem_cons_self
        · exact .inr (List.mem_cons_of_mem _ later)
      · rw [absent, step.2, List.forall_mem_cons, and_assoc]

omit [LinearOrder κ] in
theorem oldest_spec {rows : List ρ} :
    (∀ row ∈ retention.oldest rows,
        row ∈ rows ∧ retention.permanent row = false) ∧
      (retention.oldest rows = none ↔
        ∀ row ∈ rows, retention.permanent row = true) := by
  obtain ⟨found, absent⟩ :=
    @foldl_older _ _ retention _ _ rows none (by simp)
  refine ⟨fun row member => ?_, by simpa [oldest] using absent⟩
  simpa using found row member

theorem mem_makeRoom {count : ℕ} :
    (row ∈ retention.makeRoom iteration now count table → row ∈ table) ∧
      (row ∈ table → retention.permanent row = true →
        row ∈ retention.makeRoom iteration now count table) := by
  induction count generalizing table with
  | zero => exact ⟨id, fun member _ => member⟩
  | succ count induction =>
      unfold makeRoom
      split
      · split
        · exact ⟨id, fun member _ => member⟩
        · rename_i evicted found
          have evictable := (oldest_spec.1 evicted found).2
          refine ⟨fun member => (SortedRows.mem_erase.mp
            (induction.1 member)).1, fun member permanent => ?_⟩
          refine induction.2 (SortedRows.mem_erase.mpr
            ⟨member, fun sameKey => ?_⟩) permanent
          have listed : evicted ∈ table := (iteration.perm _).mem_iff.mp
            (oldest_spec.1 evicted found).1
          rw [SortedRows.eq_of_key_eq member listed sameKey,
            evictable] at permanent
          cases permanent
      · exact ⟨id, fun member _ => member⟩

/-- The loop ends with room or with permanent rows only. -/
theorem makeRoom_ends {count : ℕ} (late : retention.late now = true)
    (enough : table.rows.length ≤ count) :
    (retention.makeRoom iteration now count table).rows.length <
        retention.maxEntries ∨
      ∀ row ∈ retention.makeRoom iteration now count table,
        retention.permanent row = true := by
  induction count generalizing table with
  | zero =>
      right
      intro row member
      have empty := List.length_eq_zero_iff.mp (Nat.le_zero.mp enough)
      have listed : row ∈ table.rows := member
      rw [empty] at listed
      cases listed
  | succ count induction =>
      unfold makeRoom
      split
      · split
        · rename_i absent
          right
          intro row member
          exact oldest_spec.2.mp absent row ((iteration.perm _).mem_iff.mpr
            member)
        · rename_i evicted found
          have listed : evicted ∈ table := (iteration.perm _).mem_iff.mp
            (oldest_spec.1 evicted found).1
          have fewer : (table.erase (key evicted)).rows.length <
              table.rows.length := by
            refine List.length_filter_lt_length_iff_exists.mpr
              ⟨evicted, listed, by simp⟩
          exact induction (by omega)
      · rename_i room
        left
        by_contra full
        exact room ⟨late, not_lt.mp full⟩

theorem mem_prune :
    (row ∈ retention.prune iteration now table →
        row ∈ table ∧ retention.expired now row = false) ∧
      (row ∈ table → retention.expired now row = false →
        retention.permanent row = true →
        row ∈ retention.prune iteration now table) := by
  refine ⟨fun member => mem_dropExpired.mp (mem_makeRoom.1 member), ?_⟩
  intro member unexpired permanent
  exact mem_makeRoom.2 (mem_dropExpired.mpr ⟨member, unexpired⟩) permanent

private theorem prune_eq {count : ℕ}
    (counted : (retention.dropExpired now table).rows.length = count) :
    retention.prune iteration now table = retention.makeRoom iteration now
      count (retention.dropExpired now table) := by
  rw [← counted]
  rfl

/-- A table that is not crowded only loses what has expired. -/
theorem prune_uncrowded (uncrowded : ¬ retention.Crowded now table) :
    retention.prune iteration now table =
      retention.dropExpired now table := by
  cases counted : (retention.dropExpired now table).rows.length with
  | zero => exact prune_eq counted
  | succ count =>
      rw [prune_eq counted, makeRoom]
      split
      · rename_i full
        split
        · rfl
        · rename_i evicted found
          obtain ⟨listed, evictable⟩ := oldest_spec.1 evicted found
          exact (uncrowded ⟨full.1, full.2, evicted,
            (iteration.perm _).mem_iff.mp listed, evictable⟩).elim
      · rfl

theorem prune_crowded (crowded : retention.Crowded now table) :
    ∃ row ∈ table, retention.expired now row = false ∧
      ∀ other ∈ retention.prune iteration now table, key other ≠ key row := by
  obtain ⟨late, full, row, member, evictable⟩ := crowded
  cases counted : (retention.dropExpired now table).rows.length with
  | zero =>
      have listed : row ∈ (retention.dropExpired now table).rows := member
      rw [List.length_eq_zero_iff.mp counted] at listed
      cases listed
  | succ count =>
      rw [prune_eq counted, makeRoom, if_pos ⟨late, full⟩]
      split
      · rename_i absent
        have permanent := oldest_spec.2.mp absent row
          ((iteration.perm _).mem_iff.mpr member)
        rw [evictable] at permanent
        cases permanent
      · rename_i evicted found
        have listed : evicted ∈ retention.dropExpired now table :=
          (iteration.perm _).mem_iff.mp (oldest_spec.1 evicted found).1
        obtain ⟨stored, unexpired⟩ := mem_dropExpired.mp listed
        exact ⟨evicted, stored, unexpired, fun other kept =>
          (SortedRows.mem_erase.mp (mem_makeRoom.1 kept)).2⟩

/-- Late enough, pruning makes room unless permanent rows fill the table. -/
theorem prune_room (late : retention.late now = true) :
    (retention.prune iteration now table).rows.length <
        retention.maxEntries ↔
      (retention.permanents now table).rows.length < retention.maxEntries := by
  have same : (retention.prune iteration now table).filter
      retention.permanent = retention.permanents now table := by
    refine SortedRows.ext_mem fun row => ?_
    unfold permanents
    rw [SortedRows.mem_filter, SortedRows.mem_filter, mem_dropExpired]
    refine and_congr_left fun permanent => ⟨mem_prune.1, ?_⟩
    rintro ⟨member, unexpired⟩
    exact mem_prune.2 member unexpired permanent
  rw [← same]
  constructor
  · exact (List.length_filter_le _ _).trans_lt
  · intro few
    refine (makeRoom_ends late le_rfl).elim id fun permanent => ?_
    have all : (retention.prune iteration now table).filter
        retention.permanent = retention.prune iteration now table := by
      refine SortedRows.ext_mem fun row => ?_
      rw [SortedRows.mem_filter]
      exact and_iff_left_of_imp (permanent row)
    rwa [all] at few

omit [LT τ] [DecidableLT τ] in
theorem Crowded.length (crowded : retention.Crowded now table) :
    retention.maxEntries ≤ table.rows.length :=
  crowded.full.trans (List.length_filter_le _ _)

end Retention

/-! ## Making room for a new row -/

section EvictsForNew

variable {ρ τ κ : Type} [LinearOrder κ] {key : ρ → κ}

/-- A request that takes the table from `before` through `entered` to `after`
removes unexpired rows only from a full table and for a new key. -/
def EvictsForNew (maxEntries : ℕ) (expired : ρ → Bool)
    (before entered after : SortedRows key) : Prop :=
  ∀ row ∈ before, expired row = false →
    ((∀ other ∈ entered, key other ≠ key row) ∨
      ∀ other ∈ after, key other ≠ key row) →
    maxEntries ≤ before.rows.length ∧
      ∃ new ∈ after, ∀ other ∈ before, key other ≠ key new

variable {before after : SortedRows key}

theorem evictsForNew_unpruned {maxEntries : ℕ} {expired : ρ → Bool}
    (kept : ∀ row ∈ before, ∃ other ∈ after, key other = key row) :
    EvictsForNew maxEntries expired before before after := by
  rintro row member - (gone | gone)
  · exact (gone row member rfl).elim
  · obtain ⟨other, stored, same⟩ := kept row member
    exact (gone other stored same).elim

/-- Behind a prune, rows were evicted for nothing unless there was no need to
or a new key is stored. -/
theorem evictsForNew_pruned_iff [LT τ] [DecidableLT τ]
    {retention : Retention ρ τ} {iteration : Iteration ρ} {now : τ}
    (kept : ∀ row ∈ retention.prune iteration now before,
      ∃ other ∈ after, key other = key row) :
    EvictsForNew retention.maxEntries (retention.expired now) before
        (retention.prune iteration now before) after ↔
      ¬ retention.Crowded now before ∨
        ∃ new ∈ after, ∀ other ∈ before, key other ≠ key new := by
  by_cases crowded : retention.Crowded now before
  · rw [or_iff_right (not_not.mpr crowded)]
    constructor
    · intro evicts
      obtain ⟨row, member, unexpired, gone⟩ :=
        @Retention.prune_crowded _ _ _ _ _ _ _ _ iteration _ _ crowded
      exact (evicts row member unexpired (.inl gone)).2
    · exact fun new _ _ _ _ => ⟨crowded.length, new⟩
  · refine iff_of_true ?_ (.inl crowded)
    have entered := @Retention.prune_uncrowded _ _ _ _ _ _ _ _ iteration _ _
      crowded
    intro row member unexpired gone
    have stays : row ∈ retention.prune iteration now before := by
      rw [entered]
      exact Retention.mem_dropExpired.mpr ⟨member, unexpired⟩
    rcases gone with gone | gone
    · exact (gone row stays rfl).elim
    · obtain ⟨other, stored, same⟩ := kept row stays
      exact (gone other stored same).elim

end EvictsForNew
