import XfoLws.Db.Frames

/-!
# Ranges of subaddresses

What the merge of two lists of ranges covers, and what one major index of
`do_upsert` leaves in the two subaddress tables.
-/

namespace XfoLws.Db

/-- The minor indexes in a list of ranges. -/
def Covers (ranges : IndexRanges) (minor : ℕ) : Prop :=
  ∃ range ∈ ranges, range.first ≤ minor ∧ minor ≤ range.last

/-- No range is empty. -/
def Proper (ranges : IndexRanges) : Prop :=
  ∀ range ∈ ranges, range.first ≤ range.last

section Covers

variable {left right : IndexRanges} {range : IndexRange} {minor : ℕ}

@[simp] theorem covers_nil : ¬ Covers [] minor := by
  simp [Covers]

@[simp] theorem covers_cons :
    Covers (range :: right) minor ↔
      (range.first ≤ minor ∧ minor ≤ range.last) ∨ Covers right minor := by
  simp [Covers]

@[simp] theorem covers_append :
    Covers (left ++ right) minor ↔ Covers left minor ∨ Covers right minor := by
  simp [Covers, or_and_right, exists_or]

@[simp] theorem proper_nil : Proper [] := by
  simp [Proper]

@[simp] theorem proper_cons :
    Proper (range :: right) ↔ range.first ≤ range.last ∧ Proper right := by
  simp [Proper]

@[simp] theorem proper_append :
    Proper (left ++ right) ↔ Proper left ∧ Proper right := by
  simp [Proper, or_imp, forall_and]

end Covers

theorem checkRanges_proper {isFirst : Bool} {last : ℕ} {ranges : IndexRanges}
    (checked : checkRanges isFirst last ranges = true) : Proper ranges := by
  induction ranges generalizing isFirst last with
  | nil => exact proper_nil
  | cons range rest induction =>
      unfold checkRanges at checked
      split at checked
      · cases checked
      rename_i nonempty
      split at checked
      · cases checked
      · exact proper_cons.mpr ⟨by omega, induction checked⟩

/-! ## The merge -/

section Merge

variable {maxSubaddr major : ℕ}

private theorem Merge.note_newDict {merge next : Merge} {range : IndexRange}
    (noted : merge.note maxSubaddr major range = some next) :
    next.newDict = merge.newDict := by
  obtain ⟨count, -, rfl⟩ := Option.map_eq_some_iff.mp noted
  rfl

/-- The four ways a pass of the merge loop goes when a stored range is
left. -/
private theorem mergeRange_cons {new old : IndexRange}
    {olds rest : IndexRanges} {merge next : Merge}
    (merged : mergeRange maxSubaddr major new (old :: olds) merge =
      some (rest, next)) :
    (rest = old :: olds ∧ next.newDict = merge.newDict ++ [new]) ∨
    (mergeRange maxSubaddr major new olds
      { merge with newDict := merge.newDict ++ [old] } = some (rest, next)) ∨
    (old.first ≤ new.first ∧ new.last ≤ old.last ∧ rest = old :: olds ∧
      next = merge) ∨
    (old.first ≤ new.last + 1 ∧ new.first ≤ old.last + 1 ∧
      rest = ⟨min new.first old.first, max old.last new.last⟩ :: olds ∧
      next.newDict = merge.newDict) := by
  unfold mergeRange at merged
  split at merged
  · obtain ⟨noted, counted, stored⟩ := Option.bind_eq_some_iff.mp merged
    cases stored
    exact .inl ⟨rfl, by rw [Merge.note_newDict counted]⟩
  rename_i near
  split at merged
  · exact .inr (.inl merged)
  rename_i close
  split at merged
  · rename_i inside
    obtain ⟨below, above⟩ := Bool.and_eq_true_iff.mp inside
    cases merged
    exact .inr (.inr (.inl
      ⟨of_decide_eq_true below, of_decide_eq_true above, rfl, rfl⟩))
  · -- the parts that stick out on either side are counted first
    have joined : rest =
          ⟨min new.first old.first, max old.last new.last⟩ :: olds ∧
        next.newDict = merge.newDict := by
      dsimp only at merged
      split at merged
      · obtain ⟨middle, first, second⟩ := Option.bind_eq_some_iff.mp merged
        split at second
        · obtain ⟨final, last, stored⟩ := Option.bind_eq_some_iff.mp second
          cases stored
          exact ⟨rfl,
            by rw [Merge.note_newDict last, Merge.note_newDict first]⟩
        · cases second
          exact ⟨rfl, Merge.note_newDict first⟩
      · change (if old.last < new.last then _ else _) = _ at merged
        split at merged
        · obtain ⟨final, last, stored⟩ := Option.bind_eq_some_iff.mp merged
          cases stored
          exact ⟨rfl, Merge.note_newDict last⟩
        · cases merged
          exact ⟨rfl, rfl⟩
    exact .inr (.inr (.inr ⟨by omega, by omega, joined⟩))

/-- Consuming a new range adds exactly its minors. -/
private theorem mergeRange_covers {new : IndexRange} {olds rest : IndexRanges}
    {merge next : Merge} (newProper : new.first ≤ new.last)
    (proper : Proper (merge.newDict ++ olds))
    (merged : mergeRange maxSubaddr major new olds merge =
      some (rest, next)) :
    Proper (next.newDict ++ rest) ∧ ∀ minor,
      Covers (next.newDict ++ rest) minor ↔
        Covers (merge.newDict ++ olds) minor ∨
          (new.first ≤ minor ∧ minor ≤ new.last) := by
  induction olds generalizing merge with
  | nil =>
      unfold mergeRange at merged
      obtain ⟨noted, counted, stored⟩ := Option.bind_eq_some_iff.mp merged
      cases stored
      rw [Merge.note_newDict counted]
      simp_all
  | cons old olds induction =>
      rcases mergeRange_cons merged with
        ⟨rfl, newDict⟩ | skipped | ⟨below, above, rfl, rfl⟩ |
          ⟨below, above, rfl, newDict⟩
      · rw [newDict]
        refine ⟨?_, ?_⟩
        · simp_all
        · intro minor
          simp only [covers_append, covers_cons, covers_nil]
          tauto
      · have moved : merge.newDict ++ old :: olds =
            (merge.newDict ++ [old]) ++ olds := by simp
        rw [moved] at proper ⊢
        exact induction proper skipped
      · refine ⟨proper, ?_⟩
        intro minor
        simp only [covers_append, covers_cons]
        constructor
        · exact .inl
        · rintro (covered | inside)
          · exact covered
          · exact .inr (.inl ⟨by omega, by omega⟩)
      · rw [newDict]
        simp only [proper_append, proper_cons] at proper ⊢
        refine ⟨⟨proper.1, by omega, proper.2.2⟩, ?_⟩
        intro minor
        -- the two ranges overlap or touch, so the joined one is their union
        have joined : (min new.first old.first ≤ minor ∧
            minor ≤ max old.last new.last) ↔
            (old.first ≤ minor ∧ minor ≤ old.last) ∨
              (new.first ≤ minor ∧ minor ≤ new.last) := by
          omega
        simp only [covers_append, covers_cons, joined]
        tauto

theorem mergeRanges_covers {old new : IndexRanges} {merge next : Merge}
    (newProper : Proper new) (proper : Proper (merge.newDict ++ old))
    (merged : mergeRanges maxSubaddr major old new merge = some next) :
    Proper next.newDict ∧ ∀ minor,
      Covers next.newDict minor ↔
        Covers (merge.newDict ++ old) minor ∨ Covers new minor := by
  obtain ⟨⟨rest, final⟩, folded, stored⟩ := Option.bind_eq_some_iff.mp merged
  cases stored
  clear merged
  induction new generalizing old merge with
  | nil =>
      cases folded
      exact ⟨proper, by simp⟩
  | cons range new induction =>
      rw [List.foldlM_cons] at folded
      obtain ⟨⟨middle, between⟩, first, later⟩ :=
        Option.bind_eq_some_iff.mp folded
      obtain ⟨rangeProper, newProper⟩ := proper_cons.mp newProper
      obtain ⟨proper, covered⟩ :=
        mergeRange_covers rangeProper proper first
      obtain ⟨proper, coveredLater⟩ := induction newProper proper later
      refine ⟨proper, ?_⟩
      intro minor
      rw [coveredLater, covered, covers_cons]
      tauto

/-- The ranges reported so far do not affect what fits. -/
private theorem mergeRange_out {new : IndexRange} {olds : IndexRanges}
    {left right : Merge} (count : left.count = right.count)
    (newDict : left.newDict = right.newDict) :
    (mergeRange maxSubaddr major new olds left).map
        (fun result => (result.1, result.2.count, result.2.newDict)) =
      (mergeRange maxSubaddr major new olds right).map
        fun result => (result.1, result.2.count, result.2.newDict) := by
  induction olds generalizing left right with
  | nil =>
      simp only [mergeRange, Merge.note, count]
      cases checkMaxRange maxSubaddr right.count new with
      | none => rfl
      | some total => simp [newDict]
  | cons old olds induction =>
      unfold mergeRange
      split
      · simp only [Merge.note, count]
        cases checkMaxRange maxSubaddr right.count new with
        | none => rfl
        | some total => simp [newDict]
      split
      · exact induction count (by rw [newDict])
      split
      · simp [count, newDict]
      · dsimp only
        by_cases front : new.first < old.first <;>
          by_cases back : old.last < new.last
        all_goals simp only [front, back, ↓reduceIte, Merge.note, count,
          Option.bind_eq_bind, Option.bind_some]
        · cases checkMaxRange maxSubaddr right.count
              ⟨new.first, old.first - 1⟩ with
          | none => rfl
          | some total =>
              simp only [Option.map_some, Option.bind_some]
              cases checkMaxRange maxSubaddr total ⟨old.last + 1, new.last⟩
              all_goals simp [newDict]
        · cases checkMaxRange maxSubaddr right.count
            ⟨new.first, old.first - 1⟩
          all_goals simp [newDict]
        · cases checkMaxRange maxSubaddr right.count ⟨old.last + 1, new.last⟩
          all_goals simp [newDict]
        · simp [count, newDict]

/-- Whether the ranges of a major fit, and the count after them, do not depend
on what was reported before. -/
theorem mergeRanges_out {old new : IndexRanges} {left right : Merge}
    (count : left.count = right.count)
    (newDict : left.newDict = right.newDict) :
    (mergeRanges maxSubaddr major old new left).map Merge.count =
      (mergeRanges maxSubaddr major old new right).map Merge.count := by
  have folded : ∀ (old : IndexRanges) (left right : Merge),
      left.count = right.count → left.newDict = right.newDict →
      (new.foldlM (fun (state : IndexRanges × Merge) range =>
          mergeRange maxSubaddr major range state.1 state.2)
        (old, left)).map (fun result => result.2.count) =
      (new.foldlM (fun (state : IndexRanges × Merge) range =>
          mergeRange maxSubaddr major range state.1 state.2)
        (old, right)).map (fun result => result.2.count) := by
    induction new with
    | nil =>
        intro old left right count _
        simp [count]
    | cons range new induction =>
        intro old left right count newDict
        have same : (mergeRange maxSubaddr major range old left).map _ = _ :=
          mergeRange_out count newDict
        simp only [List.foldlM_cons]
        cases first : mergeRange maxSubaddr major range old left with
        | none =>
            rw [first, Option.map_none, eq_comm, Option.map_eq_none_iff] at same
            rw [same]
        | some passed =>
            rw [first, Option.map_some, eq_comm, Option.map_eq_some_iff] at same
            obtain ⟨other, second, agree⟩ := same
            simp only [Prod.mk.injEq] at agree
            rw [second]
            simp only [Option.bind_eq_bind, Option.bind_some]
            rw [show passed = (passed.1, passed.2) from rfl, ← agree.1]
            exact induction _ _ _ agree.2.1.symm agree.2.2.symm
  have same := folded old left right count newDict
  simp only [Option.map_eq_bind] at same
  unfold mergeRanges
  simpa [Option.map_bind, Function.comp_def] using same

end Merge

/-! ## The tables -/

/-- The rows of `subaddress_ranges` cover `index`. -/
def InRanges (db : Db) (id : AccountId) (index : AddressIndex) : Prop :=
  ∃ ranges, (id, (index.majI, ranges)) ∈ db.subaddressRanges ∧
    Covers ranges index.minI

/-- A row of `subaddress_indexes` stores `index`. -/
def InIndexes (db : Db) (id : AccountId) (index : AddressIndex) : Prop :=
  ∃ row ∈ db.subaddressIndexes, row.1 = id ∧ row.2.index = index

/-- The count `do_upsert` reaches with one more major, given the ranges
stored in `db`; `none` when the major does not fit under the limit. -/
def Upsert.counted (args : Upsert) (db : Db) (count : ℕ)
    (entry : SubaddressDict) : Option ℕ :=
  match db.subaddressRanges.find? (toLex (args.id, entry.1)) with
  | none => checkMaxRanges args.maxSubaddr count entry.2
  | some old =>
      (mergeRanges args.maxSubaddr entry.1 old.2.2 entry.2
        ⟨count, [], []⟩).map Merge.count

section Upsert

variable {env : Env} {args : Upsert} {db next : Db}

theorem mem_indexRows {major : ℕ} {ranges : IndexRanges}
    {row : AccountId × SubaddressMap} :
    row ∈ args.indexRows env major ranges ↔
      row.1 = args.id ∧ row.2.index.majI = major ∧
        Covers ranges row.2.index.minI ∧
        row.2.subaddress =
          row.2.index.getSpendPublic env args.address args.viewKey := by
  simp only [Upsert.indexRows, IndexRange.minors, List.mem_flatMap,
    List.mem_map, List.mem_range'_1, Covers]
  obtain ⟨id, key, major', minor⟩ := row
  dsimp only
  constructor
  · rintro ⟨range, member, other, inside, same⟩
    cases same
    exact ⟨rfl, rfl, ⟨range, member, inside.1, by omega⟩, rfl⟩
  · rintro ⟨rfl, rfl, ⟨range, member, above, below⟩, derived⟩
    exact ⟨range, member, minor, ⟨above, by omega⟩, by rw [derived]⟩

theorem inRanges_of_find {index : AddressIndex} {id : AccountId}
    {row : AccountId × SubaddressDict}
    (found : db.subaddressRanges.find? (toLex (id, index.majI)) = some row) :
    db.InRanges id index ↔ Covers row.2.2 index.minI := by
  obtain ⟨member, keyed⟩ := SortedRows.find?_eq_some.mp found
  obtain ⟨owner, major, ranges⟩ := row
  obtain ⟨rfl, rfl⟩ : owner = id ∧ major = index.majI := by
    simpa [subaddressRangesKey] using keyed
  constructor
  · rintro ⟨others, otherMember, covered⟩
    cases SortedRows.eq_of_key_eq otherMember member rfl
    exact covered
  · exact fun covered => ⟨ranges, member, covered⟩

theorem not_inRanges_of_find {index : AddressIndex} {id : AccountId}
    (found : db.subaddressRanges.find? (toLex (id, index.majI)) = none) :
    ¬ db.InRanges id index := by
  rintro ⟨ranges, member, -⟩
  exact SortedRows.find?_eq_none.mp found _ member rfl

theorem major_ok (proper : ∀ row ∈ db.subaddressRanges, Proper row.2.2)
    {count : ℕ} {out : List SubaddressDict} {entry : SubaddressDict}
    {value : ℕ × List SubaddressDict}
    (success : args.major env db count out entry = (.ok value, next)) :
    args.counted db count entry = some value.1 ∧
    ∃ newDict, next = args.store env db entry.1 newDict ∧ Proper newDict ∧
      ∀ minor, Covers newDict minor ↔
        db.InRanges args.id ⟨entry.1, minor⟩ ∨ Covers entry.2 minor := by
  unfold Upsert.major at success
  split at success
  · cases success
  rename_i checked
  have requested : Proper entry.2 :=
    checkRanges_proper (by simpa [checkSubaddressDict] using checked)
  split at success
  · rename_i missing
    split at success
    · cases success
    rename_i total counted
    cases success
    refine ⟨by simp only [Upsert.counted, missing, counted], entry.2, rfl,
      requested, ?_⟩
    intro minor
    have absent : ¬ db.InRanges args.id ⟨entry.1, minor⟩ :=
      not_inRanges_of_find missing
    exact (or_iff_right absent).symm
  · rename_i old found
    dsimp only at success
    split at success
    · cases success
    rename_i merge merged
    cases success
    obtain ⟨member, keyed⟩ := SortedRows.find?_eq_some.mp found
    obtain ⟨newProper, covered⟩ := mergeRanges_covers requested
      (by simpa using proper old member) merged
    have counted : (mergeRanges args.maxSubaddr entry.1 old.2.2 entry.2
        ⟨count, [], out⟩).map Merge.count =
          (mergeRanges args.maxSubaddr entry.1 old.2.2 entry.2
            ⟨count, [], []⟩).map Merge.count :=
      mergeRanges_out rfl rfl
    rw [merged] at counted
    refine ⟨by simp only [Upsert.counted, found, ← counted, Option.map_some],
      merge.newDict, ?_, newProper, ?_⟩
    · -- the row taken out before the merge is the one stored after it
      have stored := SortedRows.put_erase db.subaddressRanges
        (args.id, (entry.1, merge.newDict))
      simp only [Upsert.store]
      rw [← stored]
      rfl
    · intro minor
      have stored : db.InRanges args.id ⟨entry.1, minor⟩ ↔
          Covers old.2.2 minor := inRanges_of_find found
      rw [covered, stored]
      rfl

/-- A major that fails leaves the tables alone, unless it has a row and does
not fit. -/
theorem major_error {count : ℕ} {out : List SubaddressDict}
    {entry : SubaddressDict} {failure : Error}
    (failed : args.major env db count out entry = (.error failure, next)) :
    next = db ∨
      (args.counted db count entry = none ∧
        db.subaddressRanges.find? (toLex (args.id, entry.1)) ≠ none ∧
        next = { db with
          subaddressRanges :=
            db.subaddressRanges.erase (toLex (args.id, entry.1)) }) := by
  unfold Upsert.major at failed
  split at failed
  · cases failed
    exact .inl rfl
  split at failed
  · split at failed
    · cases failed
      exact .inl rfl
    · cases failed
  · rename_i old found
    dsimp only at failed
    split at failed
    · rename_i overflow
      cases failed
      have counted : (mergeRanges args.maxSubaddr entry.1 old.2.2 entry.2
          ⟨count, [], out⟩).map Merge.count =
            (mergeRanges args.maxSubaddr entry.1 old.2.2 entry.2
              ⟨count, [], []⟩).map Merge.count :=
        mergeRanges_out rfl rfl
      rw [overflow] at counted
      refine .inr ⟨?_, by rw [found]; exact Option.some_ne_none old, rfl⟩
      simp only [Upsert.counted, found, ← counted, Option.map_none]
    · cases failed

end Upsert

end XfoLws.Db
