import Mathlib.Data.List.Sort
import Mathlib.Data.List.TakeWhile
import Mathlib.Data.Nat.Notation
import Mathlib.Order.Basic

/-!
# Searching by halving

`std::lower_bound` halves a range until nothing is left of it.  Where it ends
depends on its probes alone; on a partitioned list it is the first item that
fails the predicate, on any list at least an edge of it.
-/

namespace LowerBound

/-! ## Ranges of positions -/

/-- Search `len` positions from `first`, where `before` sends the search to the
right.  A pass shortens the range, so `len` passes are enough. -/
def search (before : ℕ → Bool) : ℕ → ℕ → ℕ → ℕ
  | 0, first, _ => first
  | passes + 1, first, len =>
      if len = 0 then first
      else
        let half := len / 2
        let middle := first + half
        if before middle then
          search before passes (middle + 1) (len - half - 1)
        else search before passes first half

section Positions

variable {before : ℕ → Bool} {passes first len : ℕ}

theorem search_succ (nonempty : len ≠ 0) :
    search before (passes + 1) first len =
      if before (first + len / 2) then
        search before passes (first + len / 2 + 1) (len - len / 2 - 1)
      else search before passes first (len / 2) := by
  rw [search, if_neg nonempty]

theorem search_bounds :
    first ≤ search before passes first len ∧
      search before passes first len ≤ first + len := by
  induction passes generalizing first len with
  | zero => simp [search]
  | succ passes induction =>
      unfold search
      split
      · omega
      · dsimp only
        split
        · have right := @induction (first + len / 2 + 1) (len - len / 2 - 1)
          omega
        · have left := @induction first (len / 2)
          omega

/-- The search ends right behind a position it may pass, and at one it may
not. -/
theorem search_edge (enough : len ≤ passes) :
    (first < search before passes first len →
      before (search before passes first len - 1) = true) ∧
    (search before passes first len < first + len →
      before (search before passes first len) = false) := by
  induction passes generalizing first len with
  | zero =>
      simp only [search]
      omega
  | succ passes induction =>
      unfold search
      split
      · omega
      · dsimp only
        split
        · rename_i passed
          have right := @induction (first + len / 2 + 1) (len - len / 2 - 1) (by omega)
          have bounds := @search_bounds before passes (first + len / 2 + 1)
            (len - len / 2 - 1)
          refine ⟨fun _ => ?_, fun below => right.2 (by omega)⟩
          rcases bounds.1.lt_or_eq with later | here
          · exact right.1 later
          · simpa [← here] using passed
        · rename_i failed
          have left := @induction first (len / 2) (by omega)
          have bounds := @search_bounds before passes first (len / 2)
          refine ⟨left.1, fun _ => ?_⟩
          rcases bounds.2.lt_or_eq with earlier | here
          · exact left.2 earlier
          · rw [here]
            simpa using failed

/-- On a partitioned range the search ends at the border. -/
theorem search_eq {border : ℕ} (enough : len ≤ passes) (above : first ≤ border)
    (below : border ≤ first + len)
    (passed : ∀ position, first ≤ position → position < border →
      before position = true)
    (failed : ∀ position, border ≤ position → position < first + len →
      before position = false) :
    search before passes first len = border := by
  have bounds := @search_bounds before passes first len
  have edge := @search_edge before passes first len enough
  rcases Nat.lt_trichotomy (search before passes first len) border with
    early | same | late
  · have stopped := edge.2 (by omega)
    rw [passed _ bounds.1 early] at stopped
    cases stopped
  · exact same
  · have before_last := edge.1 (by omega)
    rw [failed _ (by omega) (by omega)] at before_last
    cases before_last

end Positions

/-! ## Lists -/

section Lists

variable {α : Type} {before : α → Bool} {items : List α}

/-- The position that `std::lower_bound` finds in a list. -/
def position (before : α → Bool) (items : List α) : ℕ :=
  search (fun index => (items[index]?).any before) items.length 0 items.length

theorem position_le : position before items ≤ items.length := by
  have bounds := @search_bounds (fun index => (items[index]?).any before)
    items.length 0 items.length
  rw [Nat.zero_add] at bounds
  exact bounds.2

theorem not_before_position {item : α}
    (found : items[position before items]? = some item) : before item = false := by
  have inside : position before items < items.length :=
    (List.getElem?_eq_some_iff.mp found).1
  have edge := (@search_edge (fun index => (items[index]?).any before)
    items.length 0 items.length le_rfl).2
  have stopped := edge (by simpa [position] using inside)
  change (items[position before items]?).any before = false at stopped
  rw [found] at stopped
  exact stopped

theorem before_last {item : α} (positive : 0 < position before items)
    (last : items[position before items - 1]? = some item) : before item = true := by
  have edge := (@search_edge (fun index => (items[index]?).any before)
    items.length 0 items.length le_rfl).1
  have passed := edge positive
  change (items[position before items - 1]?).any before = true at passed
  rw [last] at passed
  exact passed

theorem search_segment {passes : ℕ} {above front back below : List α}
    (passed : ∀ item ∈ front, before item = true)
    (failed : ∀ item ∈ back, before item = false)
    (enough : front.length + back.length ≤ passes) :
    search (fun index => ((above ++ (front ++ (back ++ below)))[index]?).any before)
      passes above.length (front.length + back.length) =
        above.length + front.length := by
  refine search_eq enough (Nat.le_add_right _ _) (by omega) ?_ ?_
  · intro index beyond inside
    have here : index - above.length < front.length := by omega
    rw [List.getElem?_append_right beyond, List.getElem?_append_left here,
      List.getElem?_eq_getElem here]
    exact passed _ (List.getElem_mem here)
  · intro index beyond inside
    have here : index - above.length - front.length < back.length := by omega
    rw [List.getElem?_append_right (by omega), List.getElem?_append_right (by omega),
      List.getElem?_append_left here, List.getElem?_eq_getElem here, Option.any_some]
    exact failed _ (List.getElem_mem here)

/-- Whatever lies before an item that `before` accepts is accepted too. -/
def Partitioned (before : α → Bool) (items : List α) : Prop :=
  items.Pairwise fun first second => before second = true → before first = true

theorem Partitioned.not_before_of_mem_dropWhile (partitioned : Partitioned before items)
    {item : α} (member : item ∈ items.dropWhile before) : before item = false := by
  induction items with
  | nil => cases member
  | cons head items induction =>
      obtain ⟨headFirst, rest⟩ := List.pairwise_cons.mp partitioned
      rw [List.dropWhile_cons] at member
      split at member
      · exact induction rest member
      · rename_i failed
        rcases List.mem_cons.mp member with rfl | later
        · simpa using failed
        · exact Bool.eq_false_iff.mpr fun passed =>
            failed (headFirst item later passed)

theorem Partitioned.search_segment (partitioned : Partitioned before items)
    {passes : ℕ} (above below : List α) (enough : items.length ≤ passes) :
    search (fun index => ((above ++ (items ++ below))[index]?).any before)
      passes above.length items.length =
        above.length + (items.takeWhile before).length := by
  have split := List.takeWhile_append_dropWhile (p := before) (l := items)
  have length := congrArg List.length split
  rw [List.length_append] at length
  have found := @LowerBound.search_segment α before passes above
    (items.takeWhile before) (items.dropWhile before) below
    (fun item member => List.mem_takeWhile_imp (l := items) member)
    (fun item member => partitioned.not_before_of_mem_dropWhile member)
    (length ▸ enough)
  rwa [← List.append_assoc (items.takeWhile before), split, length] at found

/-- On a partitioned list the position is that of the first item that fails. -/
theorem Partitioned.position_eq (partitioned : Partitioned before items) :
    position before items = (items.takeWhile before).length := by
  have found := partitioned.search_segment [] [] le_rfl
  simpa [position] using found

theorem getElem?_border (before : α → Bool) (above items below : List α) :
    (above ++ (items ++ below))[above.length + (items.takeWhile before).length]? =
      (items.dropWhile before ++ below).head? := by
  have split : items ++ below =
      items.takeWhile before ++ (items.dropWhile before ++ below) := by
    rw [← List.append_assoc, List.takeWhile_append_dropWhile]
  rw [List.getElem?_append_right (Nat.le_add_right _ _), Nat.add_sub_cancel_left, split,
    List.getElem?_append_right le_rfl, Nat.sub_self, List.head?_eq_getElem?]

theorem Partitioned.getElem?_position (partitioned : Partitioned before items) :
    items[position before items]? = (items.dropWhile before).head? := by
  have border := getElem?_border before [] items []
  rw [List.nil_append, List.append_nil, List.append_nil, List.length_nil,
    Nat.zero_add] at border
  rw [partitioned.position_eq, border]

theorem insertIdx_length_append (front back : List α) (item : α) :
    (front ++ back).insertIdx front.length item = front ++ item :: back := by
  induction front with
  | nil => rfl
  | cons first front induction => exact congrArg (List.cons first) induction

theorem Partitioned.insertIdx_position (partitioned : Partitioned before items)
    (item : α) :
    items.insertIdx (position before items) item =
      items.takeWhile before ++ item :: items.dropWhile before := by
  have inserted := insertIdx_length_append (items.takeWhile before)
    (items.dropWhile before) item
  rwa [List.takeWhile_append_dropWhile, ← partitioned.position_eq] at inserted

end Lists

/-! ## Sorted lists -/

section Sorted

variable {α κ : Type} [LT κ] [DecidableLT κ] [IsStrictOrder κ (· < ·)]
  {key : α → κ} {items : List α} {wanted : κ}

theorem partitioned_of_sorted
    (sorted : items.Pairwise fun first second => key first < key second) (wanted : κ) :
    Partitioned (fun item => key item < wanted) items := by
  refine sorted.imp ?_
  intro first second ordered later
  simp only [decide_eq_true_eq] at later ⊢
  exact trans_of (· < ·) ordered later

variable [DecidableEq κ]

/-- Under distinct sorted keys, the first item that is not below a key is the
only one that may have it. -/
theorem head?_dropWhile_filter
    (sorted : items.Pairwise fun first second => key first < key second) :
    ((items.dropWhile fun item => key item < wanted).head?).filter
        (fun item => key item = wanted) =
      items.find? fun item => key item = wanted := by
  induction items with
  | nil => rfl
  | cons head items induction =>
      obtain ⟨first, rest⟩ := List.pairwise_cons.mp sorted
      by_cases below : key head < wanted
      · have different : key head ≠ wanted := ne_of_irrefl below
        rw [List.dropWhile_cons_of_pos (by simpa using below),
          List.find?_cons_of_neg (by simpa using different)]
        exact induction rest
      · rw [List.dropWhile_cons_of_neg (by simpa using below), List.head?_cons]
        by_cases same : key head = wanted
        · rw [List.find?_cons_of_pos (by simpa using same)]
          simp [Option.filter, same]
        · have absent : items.find? (fun item => key item = wanted) = none := by
            rw [List.find?_eq_none]
            intro item member equal
            exact below (of_decide_eq_true equal ▸ first item member)
          rw [List.find?_cons_of_neg (by simpa using same), absent]
          simp [Option.filter, same]

/-- Searching a sorted list for a key is looking at every item. -/
theorem getElem?_position_filter
    (sorted : items.Pairwise fun first second => key first < key second) :
    (items[position (fun item => key item < wanted) items]?).filter
        (fun item => key item = wanted) =
      items.find? fun item => key item = wanted := by
  rw [(partitioned_of_sorted sorted wanted).getElem?_position]
  exact head?_dropWhile_filter sorted

end Sorted

/-! ## Sorted lists with equal keys -/

section Ordered

variable {α κ : Type} [LinearOrder κ] {key : α → κ} {items : List α}

theorem partitioned_of_le
    (sorted : items.Pairwise fun first second => key first ≤ key second) (wanted : κ) :
    Partitioned (fun item => key item < wanted) items := by
  refine sorted.imp ?_
  intro first second ordered later
  simp only [decide_eq_true_eq] at later ⊢
  exact ordered.trans_lt later

theorem insertIdx_position_eq
    (sorted : items.Pairwise fun first second => key first ≤ key second) (item : α) :
    items.insertIdx (position (fun other => key other < key item) items) item =
      items.orderedInsert (fun first second => key first ≤ key second) item := by
  rw [(partitioned_of_le sorted (key item)).insertIdx_position,
    List.orderedInsert_eq_take_drop]
  simp only [not_le]

/-- `std::binary_search` in a list. -/
def binarySearch (wanted : κ) (items : List κ) : Bool :=
  (items[position (fun item => item < wanted) items]?).any fun item =>
    !(decide (wanted < item))

theorem binarySearch_eq {items : List κ} (sorted : items.Pairwise (· ≤ ·))
    (wanted : κ) : binarySearch wanted items = decide (wanted ∈ items) := by
  have partitioned := @partitioned_of_le κ κ _ id items sorted wanted
  have found := partitioned.getElem?_position
  simp only [id] at found
  have split := List.takeWhile_append_dropWhile
    (p := fun item => decide (item < wanted)) (l := items)
  have front : wanted ∉ items.takeWhile fun item => item < wanted := by
    intro member
    have below := List.mem_takeWhile_imp member
    simp at below
  have behind := sorted.sublist
    (List.dropWhile_sublist fun item => decide (item < wanted))
  rw [binarySearch, found, Bool.eq_iff_iff, decide_eq_true_eq]
  nth_rewrite 2 [← split]
  rw [List.mem_append, or_iff_right front]
  cases rest : items.dropWhile fun item => item < wanted with
  | nil => simp
  | cons head tail =>
      have stopped := List.head?_dropWhile_not
        (fun item => decide (item < wanted)) items
      rw [rest] at stopped behind
      have above : wanted ≤ head := by simpa using stopped
      have ordered := (List.pairwise_cons.mp behind).1
      simp only [List.head?_cons, Option.any_some, Bool.not_eq_true',
        decide_eq_false_iff_not, not_lt, List.mem_cons]
      constructor
      · intro below
        exact .inl (le_antisymm above below)
      · rintro (rfl | later)
        · exact le_rfl
        · exact ordered wanted later

end Ordered

end LowerBound
