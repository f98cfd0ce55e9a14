import XfoLws.Db.LookaheadWindows
import XfoLws.Db.UpsertSets

/-!
# The tables after an upsert

A successful `do_upsert` adds the requested indexes to both tables, whether or
not the stored ranges are canonical, and it succeeds exactly when the ranges it
counts fit.
-/

namespace XfoLws.Db

section Majors

variable {env : Env} {bases : Bases} {args : Upsert} {db next : Db}

theorem rangesAt_store_of_ne {major other : ℕ} {newDict : IndexRanges}
    (different : other ≠ major) :
    (args.store env db major newDict).rangesAt args.id other =
      db.rangesAt args.id other := by
  unfold rangesAt Upsert.store
  rw [SortedRows.find?_put, if_neg]
  intro same
  exact different (Prod.mk.inj (toLex.injective same)).2.symm

/-- What `check_max_range` counts for a list of entries. -/
def countedSize (db : Db) (id : AccountId) (entries : List SubaddressDict) :
    ℕ :=
  (entries.map fun entry =>
    rangesSize (countedRanges entry.2 (db.rangesAt id entry.1))).sum

theorem countedSize_cons {entry : SubaddressDict}
    {entries : List SubaddressDict} {id : AccountId} :
    db.countedSize id (entry :: entries) =
      rangesSize (countedRanges entry.2 (db.rangesAt id entry.1)) +
        db.countedSize id entries := by
  simp [countedSize]

theorem majors_ok_iff {entries : List SubaddressDict} {count : ℕ}
    {out : List SubaddressDict}
    (checked : ∀ entry ∈ entries, checkSubaddressDict entry = true)
    (distinct : (entries.map Prod.fst).Nodup)
    (within : count ≤ args.maxSubaddr) :
    (∃ reported next,
        args.majors env entries count out db = (.ok reported, next)) ↔
      count + db.countedSize args.id entries ≤ args.maxSubaddr := by
  induction entries generalizing db count out with
  | nil => simpa [Upsert.majors, countedSize] using within
  | cons entry entries induction =>
      obtain ⟨fresh, distinct⟩ := List.nodup_cons.mp distinct
      rw [Upsert.majors, countedSize_cons]
      rcases @major_counted env args db count out entry (checked entry (by simp))
        within with ⟨fits, reported, passed, -⟩ | ⟨full, failed⟩
      · rw [passed]
        dsimp only
        rw [induction (fun other member =>
          checked other (List.mem_cons_of_mem _ member)) distinct fits]
        have others : Db.countedSize (args.store env db entry.1
            (mergedRanges entry.2 (db.rangesAt args.id entry.1))) args.id
              entries = db.countedSize args.id entries := by
          unfold countedSize
          congr 1
          refine List.map_congr_left fun other member => ?_
          rw [rangesAt_store_of_ne]
          rintro same
          exact fresh (List.mem_map.mpr ⟨other, member, same⟩)
        rw [others, Nat.add_assoc]
      · cases passed : args.major env db count out entry with
        | mk outcome middle =>
            obtain rfl : outcome = .error .maxSubaddresses := by
              rwa [passed] at failed
            refine iff_of_false ?_ (by omega)
            rintro ⟨_, _, never⟩
            cases never

theorem majors_error {entries : List SubaddressDict} {count : ℕ}
    {out : List SubaddressDict} {failure : Error}
    (checked : ∀ entry ∈ entries, checkSubaddressDict entry = true)
    (within : count ≤ args.maxSubaddr)
    (failed : args.majors env entries count out db = (.error failure, next)) :
    failure = .maxSubaddresses := by
  induction entries generalizing db count out with
  | nil => cases failed
  | cons entry entries induction =>
      rw [Upsert.majors] at failed
      rcases @major_counted env args db count out entry (checked entry (by simp))
        within with ⟨fits, reported, passed, -⟩ | ⟨-, full⟩
      · rw [passed] at failed
        exact induction (fun other member =>
          checked other (List.mem_cons_of_mem _ member)) fits failed
      · cases passed : args.major env db count out entry with
        | mk outcome middle =>
            obtain rfl : outcome = .error .maxSubaddresses := by
              rwa [passed] at full
            rw [passed] at failed
            cases failed
            rfl

/-- All stored indexes of an account have rows. -/
def RangesIndexed (db : Db) (id : AccountId) : Prop :=
  ∀ index, db.InRanges id index → db.InIndexes id index

/-- What the tables hold of an account after `added` came to it. -/
structure Adds (id : AccountId) (added : Set AddressIndex) (db next : Db) :
    Prop where
  ranges : ∀ index, next.InRanges id index ↔
    db.InRanges id index ∨ index ∈ added
  indexes : ∀ index, next.InIndexes id index ↔
    db.InIndexes id index ∨ index ∈ added

theorem major_adds (keys : KeysDerived env bases db)
    (injective : bases.Injective env)
    (base : bases args.id args.address args.viewKey)
    (indexed : db.RangesIndexed args.id) {count : ℕ}
    {out : List SubaddressDict} {entry : SubaddressDict}
    {value : ℕ × List SubaddressDict}
    (success : args.major env db count out entry = (.ok value, next)) :
    Adds args.id (majorSet entry.1 (minorSet entry.2)) db next := by
  obtain ⟨-, newDict, rfl, -, merged⟩ := major_ok keys.proper success
  have within : ∀ index : AddressIndex, index.majI = entry.1 →
      (Covers newDict index.minI ↔
        db.InRanges args.id index ∨ Covers entry.2 index.minI) := by
    intro index same
    rw [merged, ← same]
  constructor
  · intro index
    rw [RangesKept.inRanges_store]
    simp only [majorSet, minorSet, Set.mem_ofPred_eq, true_and]
    by_cases same : index.majI = entry.1
    · simp only [same, true_and, not_true_eq_false, false_and, or_false]
      exact within index same
    · simp [same]
  · intro index
    rw [RangesKept.inIndexes_store keys.derived injective base]
    simp only [majorSet, minorSet, Set.mem_ofPred_eq, true_and]
    by_cases same : index.majI = entry.1
    · have stored := indexed index
      have covered := within index same
      simp only [same, true_and]
      tauto
    · simp [same]

theorem Adds.trans {id : AccountId} {first second : Set AddressIndex}
    {db middle next : Db} (earlier : Adds id first db middle)
    (later : Adds id second middle next) : Adds id (first ∪ second) db next := by
  constructor
  · intro index
    rw [later.ranges, earlier.ranges, Set.mem_union, or_assoc]
  · intro index
    rw [later.indexes, earlier.indexes, Set.mem_union, or_assoc]

theorem Adds.indexed {id : AccountId} {added : Set AddressIndex}
    {db next : Db} (adds : Adds id added db next)
    (indexed : db.RangesIndexed id) : next.RangesIndexed id := by
  intro index covered
  rw [adds.indexes]
  exact ((adds.ranges index).mp covered).imp_left (indexed index)

theorem majors_adds {entries : List SubaddressDict} {count : ℕ}
    {out reported : List SubaddressDict} (keys : KeysDerived env bases db)
    (injective : bases.Injective env)
    (base : bases args.id args.address args.viewKey)
    (indexed : db.RangesIndexed args.id)
    (success : args.majors env entries count out db = (.ok reported, next)) :
    Adds args.id (denoted entries) db next := by
  induction entries generalizing db count out with
  | nil =>
      cases success
      exact ⟨by simp [denoted], by simp [denoted]⟩
  | cons entry entries induction =>
      rw [Upsert.majors] at success
      cases passed : args.major env db count out entry with
      | mk outcome middle =>
          rw [passed] at success
          cases outcome with
          | error failure => cases success
          | ok value =>
              have here := major_adds keys injective base indexed passed
              have later := induction (major_keeps keys base passed).1
                (here.indexed indexed) success
              rw [denoted_cons]
              exact here.trans later

/-- Only entries that pass `check_subaddress_dict` are stored. -/
theorem majors_checked {entries : List SubaddressDict} {count : ℕ}
    {out reported : List SubaddressDict}
    (success : args.majors env entries count out db = (.ok reported, next)) :
    ∀ entry ∈ entries, checkSubaddressDict entry = true := by
  induction entries generalizing db count out with
  | nil => simp
  | cons entry entries induction =>
      rw [Upsert.majors] at success
      cases passed : args.major env db count out entry with
      | mk outcome middle =>
          rw [passed] at success
          cases outcome with
          | error failure => cases success
          | ok value =>
              refine List.forall_mem_cons.mpr ⟨?_, induction success⟩
              unfold Upsert.major at passed
              split at passed
              · cases passed
              · rename_i checked
                simpa using checked

end Majors

/-! ## The call -/

section Call

variable {env : Env} {bases : Bases} {args : Upsert} {db next : Db}
  {subaddrs out : List SubaddressDict}

/-- `upsert_subaddresses` with the arguments of `do_upsert`. -/
def Upsert.call (env : Env) (args : Upsert) (subaddrs : List SubaddressDict)
    (db : Db) : Except Error (Db × List SubaddressDict) :=
  upsertSubaddresses env db args.id args.address args.viewKey subaddrs
    args.maxSubaddr

/-- The call is the loop over the sorted entries, behind the check of the
rows that are there. -/
theorem call_eq_ok :
    args.call env subaddrs db = .ok (next, out) ↔
      db.subaddressCount args.id ≤ args.maxSubaddr ∧
        args.majors env (subaddrs.insertionSort SubaddressDict.le)
          (db.subaddressCount args.id) [] db = (.ok out, next) := by
  unfold Upsert.call upsertSubaddresses doUpsert
  split
  · rename_i refused
    split at refused
    · rename_i full
      exact iff_of_false nofun fun both => absurd both.1 (Nat.not_le.mpr full)
    · rw [refused]
      exact iff_of_false nofun fun both => nomatch both.2
  · rename_i reported middle passed
    split at passed
    · cases passed
    · rename_i room
      rw [passed]
      simp only [Except.ok.injEq, Prod.mk.injEq]
      constructor
      · rintro ⟨rfl, rfl⟩
        exact ⟨Nat.not_lt.mp room, rfl, rfl⟩
      · rintro ⟨-, rfl, rfl⟩
        exact ⟨rfl, rfl⟩

theorem denoted_perm {left right : List SubaddressDict}
    (permuted : left.Perm right) : denoted left = denoted right := by
  ext index
  simp only [denoted, Set.mem_ofPred_eq, permuted.mem_iff]

theorem call_adds (keys : KeysDerived env bases db)
    (injective : bases.Injective env)
    (base : bases args.id args.address args.viewKey)
    (indexed : db.RangesIndexed args.id)
    (success : args.call env subaddrs db = .ok (next, out)) :
    Adds args.id (denoted subaddrs) db next := by
  rw [← denoted_perm (List.perm_insertionSort SubaddressDict.le subaddrs)]
  exact majors_adds keys injective base indexed (call_eq_ok.mp success).2

theorem call_checked (success : args.call env subaddrs db = .ok (next, out)) :
    ∀ entry ∈ subaddrs, checkSubaddressDict entry = true := by
  intro entry member
  refine majors_checked (call_eq_ok.mp success).2 entry ?_
  rwa [List.mem_insertionSort]

/-- For different majors the call succeeds when the rows that are there and
the ranges it counts are within the limit. -/
theorem call_ok_iff
    (checked : ∀ entry ∈ subaddrs, checkSubaddressDict entry = true)
    (distinct : (subaddrs.map Prod.fst).Nodup) :
    (∃ result, args.call env subaddrs db = .ok result) ↔
      db.subaddressCount args.id + db.countedSize args.id subaddrs ≤
        args.maxSubaddr := by
  have sorted := List.perm_insertionSort SubaddressDict.le subaddrs
  have same : db.countedSize args.id (subaddrs.insertionSort
      SubaddressDict.le) = db.countedSize args.id subaddrs :=
    (sorted.map _).sum_eq
  rw [← same]
  have loop := @majors_ok_iff env args db
    (subaddrs.insertionSort SubaddressDict.le) (db.subaddressCount args.id) []
    (fun entry member => checked entry (sorted.mem_iff.mp member))
    ((sorted.map Prod.fst).nodup_iff.mpr distinct)
  constructor
  · rintro ⟨⟨next, out⟩, success⟩
    obtain ⟨within, passed⟩ := call_eq_ok.mp success
    exact (loop within).mp ⟨out, next, passed⟩
  · intro fits
    have within : db.subaddressCount args.id ≤ args.maxSubaddr := by omega
    obtain ⟨out, next, passed⟩ := (loop within).mpr fits
    exact ⟨(next, out), call_eq_ok.mpr ⟨within, passed⟩⟩

/-- An account has at least as many rows as different indexes. -/
theorem encard_inIndexes_le (id : AccountId) :
    {index | db.InIndexes id index}.encard ≤ db.subaddressCount id := by
  let rows := db.subaddressIndexes.rows.filter fun row => row.1 = id
  have indexes : {index | db.InIndexes id index} ⊆
      ((rows.map fun row => row.2.index).toFinset : Set AddressIndex) := by
    rintro index ⟨row, member, owner, same⟩
    rw [Finset.mem_coe, List.mem_toFinset, List.mem_map]
    exact ⟨row, List.mem_filter.mpr ⟨member, by simpa using owner⟩, same⟩
  refine (Set.encard_le_encard indexes).trans ?_
  rw [Set.encard_coe_eq_coe_finsetCard, Nat.cast_le]
  refine (List.toFinset_card_le _).trans ?_
  rw [List.length_map]
  exact le_rfl

/-- A call that would leave more indexes than the limit fails. -/
theorem call_refuses (keys : KeysDerived env bases db)
    (indexed : db.RangesIndexed args.id)
    (overflow : args.maxSubaddr <
      ({index | db.InIndexes args.id index} ∪ denoted subaddrs).encard) :
    ∀ result, args.call env subaddrs db ≠ .ok result := by
  rintro ⟨next, out⟩ success
  have checked := call_checked success
  obtain ⟨within, passed⟩ := call_eq_ok.mp success
  have sorted := List.perm_insertionSort SubaddressDict.le subaddrs
  have failed := @majors_overflow env args db
    (subaddrs.insertionSort SubaddressDict.le) (db.subaddressCount args.id) []
    (fun entry member => checked entry (sorted.mem_iff.mp member)) within
    (fun row member _ => keys.proper row member) ?_
  · rw [passed] at failed
    cases failed
  · refine overflow.trans_le ?_
    rw [denoted_perm sorted, ← Set.union_sdiff_self]
    refine (Set.encard_union_le _ _).trans ?_
    refine add_le_add (encard_inIndexes_le args.id) (Set.encard_le_encard ?_)
    exact Set.sdiff_subset_sdiff_right indexed

end Call

end XfoLws.Db
