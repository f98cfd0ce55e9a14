import Mathlib.Algebra.Order.Ring.Nat
import Mathlib.Data.List.Destutter
import Mathlib.Data.List.Sort
import XfoLws.Lib.Outcome

/-!
# Selecting decoys

`pick_random_outputs` proposes random outputs for every requested amount,
fetches the keys of all new ones in one shot, drops what is locked, and starts
over until all rings are full.  The keys are mapped back to the rings by their
position only.
-/

namespace XfoLws.Util

/-- `output_amount_and_index`. -/
structure OutputRef where
  amount : ℕ
  index : ℕ
deriving DecidableEq, Repr

/-- `output_key_mask_unlocked`. -/
structure OutputKeys where
  key : ℕ
  mask : ℕ
  unlocked : Bool
deriving DecidableEq, Repr

/-- `output_amount_count`. -/
structure Histogram where
  amount : ℕ
  totalCount : ℕ
  unlockedCount : ℕ
deriving DecidableEq, Repr

structure RandomOutput where
  keys : OutputKeys
  index : ℕ
deriving DecidableEq, Repr

structure RandomRing where
  ring : List RandomOutput
  amount : ℕ
deriving DecidableEq, Repr

/-- `gamma_picker`, with the spendable age of the daemon's library. -/
structure GammaPicker where
  spendableAge : ℕ
  rctOffsets : List ℕ

inductive PickError where
  | notEnoughMixin
  | badDaemonResponse
  | invalidArgument
  /-- An error of the callback. -/
  | fetch (code : ℕ)
  /-- A pick throws, or keeps rejecting what is drawn. -/
  | draws
deriving DecidableEq, Repr

/-- The callback, at its calls in order. -/
abbrev KeyFetcher := ℕ → List OutputRef → Except PickError (List OutputKeys)

/-- What the selection is called with.  `sortByAmount` is `std::sort`, which
leaves equal amounts in any order; `triangular` maps a number of 53 bits and
a total count to an index, in floating point. -/
structure PickEnv where
  pickRct : GammaPicker
  sortByAmount : List Histogram → List Histogram
  triangular : ℕ → ℕ → ℕ
  fetch : Option KeyFetcher

namespace GammaPicker

def isValid (pickRct : GammaPicker) : Bool :=
  pickRct.spendableAge - 1 < pickRct.rctOffsets.length

def spendableUpperBound (pickRct : GammaPicker) : ℕ :=
  if pickRct.isValid then
    pickRct.rctOffsets.getD
      (pickRct.rctOffsets.length - pickRct.spendableAge) 0
  else 0

end GammaPicker

/-! ## Picking indexes -/

def pickAll (count amount : ℕ) : List OutputRef :=
  (List.range count).map fun index => ⟨amount, index⟩

/-- `count` picks, one after the other. -/
def pickEach (pick : List ℕ → Except PickError (ℕ × List ℕ)) (amount : ℕ) :
    ℕ → List ℕ → Except PickError (List OutputRef × List ℕ)
  | 0, draws => .ok ([], draws)
  | count + 1, draws => do
      let (index, draws) ← pick draws
      let (rest, draws) ← pickEach pick amount count draws
      .ok (⟨amount, index⟩ :: rest, draws)

/-- The loop that draws until an index is accepted. -/
def triangularIndex (triangular : ℕ → ℕ → ℕ) (hist : Histogram) :
    List ℕ → Except PickError (ℕ × List ℕ)
  | [] => .error .draws
  | r :: draws =>
      let index := triangular (r % 2 ^ 53) hist.totalCount
      if hist.unlockedCount < index then
        triangularIndex triangular hist draws
      else .ok (index, draws)

def triangularPick (env : PickEnv) (count : ℕ) (hist : Histogram)
    (draws : List ℕ) : Except PickError (List OutputRef × List ℕ) :=
  if ¬ hist.unlockedCount ≤ hist.totalCount then .error .invalidArgument
  else if hist.unlockedCount < count then .error .notEnoughMixin
  else if hist.unlockedCount = count then
    .ok (pickAll count hist.amount, draws)
  else
    pickEach (triangularIndex env.triangular hist) hist.amount count draws

/-- One pick of the gamma distribution. -/
def gammaIndex : List ℕ → Except PickError (ℕ × List ℕ)
  | [] => .error .draws
  | index :: draws => .ok (index, draws)

def gammaPick (env : PickEnv) (count : ℕ) (draws : List ℕ) :
    Except PickError (List OutputRef × List ℕ) :=
  if ¬ env.pickRct.isValid then .error .notEnoughMixin
  else
    let spendable := env.pickRct.spendableUpperBound
    if spendable < count then .error .notEnoughMixin
    else if spendable = count then .ok (pickAll count 0, draws)
    else pickEach gammaIndex 0 count draws

/-- `std::lower_bound` on sorted histograms. -/
def lowerBound (histograms : List Histogram) (amount : ℕ) :
    Option Histogram :=
  (histograms.dropWhile fun hist => hist.amount < amount).head?

/-- The picks for one ring. -/
def pickFor (env : PickEnv) (histograms : List Histogram)
    (amount count : ℕ) (draws : List ℕ) :
    Except PickError (List OutputRef × List ℕ) :=
  if amount = 0 then gammaPick env count draws
  else
    match lowerBound histograms amount with
    | none => .error .invalidArgument
    | some hist =>
        if hist.amount = amount then triangularPick env count hist draws
        else .error .invalidArgument

/-! ## One round -/

def sortByIndex (refs : List OutputRef) : List OutputRef :=
  refs.insertionSort fun left right => left.index ≤ right.index

/-- `std::unique` with `same_index`. -/
def uniqueByIndex (refs : List OutputRef) : List OutputRef :=
  refs.destutter fun left right => left.index ≠ right.index

def sortRing (ring : List RandomOutput) : List RandomOutput :=
  ring.insertionSort fun left right => left.index ≤ right.index

/-- `std::lower_bound` finds the index in the sorted ring. -/
def foundIn (current : List RandomOutput) (ref : OutputRef) : Bool :=
  match (current.dropWhile fun entry => entry.index < ref.index).head? with
  | none => false
  | some found => found.index = ref.index

/-- A new entry, locked until its keys are there. -/
def lockedEntry (ref : OutputRef) : RandomOutput :=
  ⟨⟨0, 0, false⟩, ref.index⟩

/-- The selection for one ring, with what it proposes; `none` drops it. -/
def selectRing (env : PickEnv) (histograms : List Histogram) (mixin : ℕ)
    (ring : RandomRing) (draws : List ℕ) :
    Except PickError (Option (RandomRing × List OutputRef) × List ℕ) :=
  if ring.ring.length < mixin then
    match pickFor env histograms ring.amount (mixin - ring.ring.length)
        draws with
    | .error .notEnoughMixin => .ok (none, draws)
    | .error failure => .error failure
    | .ok (latest, draws) =>
        -- drop dupes in latest selection
        let latest := uniqueByIndex (sortByIndex latest)
        let current := sortRing ring.ring
        -- See if new list has duplicates with existing ring
        let fresh := latest.filter fun ref => !foundIn current ref
        .ok (some
          (⟨current ++ fresh.map lockedEntry, ring.amount⟩, fresh), draws)
  else .ok (some (ring, []), draws)

/-- Select indexes for each ring below the mixin count. -/
def selectRings (env : PickEnv) (histograms : List Histogram) (mixin : ℕ) :
    List RandomRing → List ℕ →
      Except PickError (List RandomRing × List OutputRef × List ℕ)
  | [], draws => .ok ([], [], draws)
  | ring :: rings, draws => do
      let (selected, draws) ← selectRing env histograms mixin ring draws
      let (rings, proposed, draws) ←
        selectRings env histograms mixin rings draws
      match selected with
      | none => .ok (rings, proposed, draws)
      | some (ring, refs) => .ok (ring :: rings, refs ++ proposed, draws)

/-- The entries of a ring take the results that are next; locked ones are
erased.  The last part tells that nothing was erased. -/
def receiveEntries : List RandomOutput → List OutputKeys →
    Except PickError (List RandomOutput × List OutputKeys × Bool)
  | [], result => .ok ([], result, true)
  | entry :: entries, result =>
      -- check only new keys
      if entry.keys.unlocked then do
        let (kept, result, done) ← receiveEntries entries result
        .ok (entry :: kept, result, done)
      else
        match result with
        | [] => .error .badDaemonResponse
        | keys :: result => do
            let (kept, result, done) ← receiveEntries entries result
            if keys.unlocked then
              .ok ({ entry with keys := keys } :: kept, result, done)
            else .ok (kept, result, false)

/-- The last part tells that all rings are done. -/
def receiveRings (mixin : ℕ) : List RandomRing → List OutputKeys →
    Except PickError (List RandomRing × List OutputKeys × Bool)
  | [], result => .ok ([], result, true)
  | ring :: rings, result => do
      let (kept, result, received) ← receiveEntries ring.ring result
      let (rings, result, done) ← receiveRings mixin rings result
      .ok ({ ring with ring := kept } :: rings, result,
        (mixin ≤ ring.ring.length && received) && done)

/-- One call of the callback. -/
structure Fetched where
  refs : List OutputRef
  answer : Except PickError (List OutputKeys)

/-- The rounds that are left, with the calls so far. -/
def pickRounds (env : PickEnv) (fetch : KeyFetcher)
    (histograms : List Histogram) (mixin : ℕ) :
    ℕ → List RandomRing → List ℕ → List Fetched →
      Except PickError (List RandomRing) × List Fetched
  | 0, _, _, calls => (.error .notEnoughMixin, calls)
  | left + 1, rings, draws, calls =>
      match selectRings env histograms mixin rings draws with
      | .error failure => (.error failure, calls)
      | .ok (rings, proposed, draws) =>
          -- all amounts lack enough mixin
          if rings = [] then (.ok [], calls)
          else
            let answer := fetch calls.length proposed
            let calls := calls ++ [⟨proposed, answer⟩]
            match answer with
            | .error failure => (.error failure, calls)
            | .ok result =>
                if proposed.length ≠ result.length then
                  (.error .badDaemonResponse, calls)
                else
                  match receiveRings mixin rings result with
                  | .error failure => (.error failure, calls)
                  | .ok (rings, _, done) =>
                      if done then (.ok rings, calls)
                      else
                        pickRounds env fetch histograms mixin left rings draws
                          calls

/-- `std::numeric_limits<std::size_t>::max()`. -/
def sizetMax : ℕ := 2 ^ 64 - 1

/-- `pick_random_outputs`, with its calls of the callback. -/
def pickRandomOutputs (env : PickEnv) (mixin : ℕ) (amounts : List ℕ)
    (histograms : List Histogram) (draws : List ℕ) :
    Except PickError (List RandomRing) × List Fetched :=
  if mixin = 0 ∨ amounts = [] then
    (.ok (List.replicate amounts.length ⟨[], 0⟩), [])
  else
    match env.fetch with
    | none => (.error .invalidArgument, [])
    | some fetch =>
        if sizetMax / amounts.length < mixin then
          (.error .invalidArgument, [])
        else
          pickRounds env fetch (env.sortByAmount histograms) mixin 64
            (amounts.map fun amount => ⟨[], amount⟩) draws []

/-! ## Picks -/

/-- The pick of `count` outputs fails with `not_enough_mixin`. -/
def notEnoughMixin (env : PickEnv) (histograms : List Histogram)
    (count amount : ℕ) : Bool :=
  if amount = 0 then
    !env.pickRct.isValid || env.pickRct.spendableUpperBound < count
  else
    match lowerBound histograms amount with
    | none => false
    | some hist =>
        hist.amount = amount && hist.unlockedCount ≤ hist.totalCount &&
          hist.unlockedCount < count

section Picks

variable {env : PickEnv} {histograms : List Histogram}
  {amount count : ℕ} {draws next : List ℕ} {refs : List OutputRef}

theorem pickEach_ok {pick : List ℕ → Except PickError (ℕ × List ℕ)}
    (picked : pickEach pick amount count draws = .ok (refs, next)) :
    refs.length = count ∧ ∀ ref ∈ refs, ref.amount = amount := by
  induction count generalizing draws refs next with
  | zero =>
      cases picked
      exact ⟨rfl, by simp⟩
  | succ count induction =>
      obtain ⟨⟨index, rest⟩, -, picked⟩ := Outcome.bind_eq_ok.mp picked
      obtain ⟨⟨later, final⟩, others, picked⟩ := Outcome.bind_eq_ok.mp picked
      cases picked
      obtain ⟨length, amounts⟩ := induction others
      exact ⟨by rw [List.length_cons, length],
        List.forall_mem_cons.mpr ⟨rfl, amounts⟩⟩

theorem pickEach_error {pick : List ℕ → Except PickError (ℕ × List ℕ)}
    (drawn : ∀ draws failure, pick draws = .error failure → failure = .draws)
    {failure : PickError}
    (failed : pickEach pick amount count draws = .error failure) :
    failure = .draws := by
  induction count generalizing draws with
  | zero => cases failed
  | succ count induction =>
      rcases Outcome.bind_eq_error.mp failed with here | ⟨first, -, failed⟩
      · exact drawn _ _ here
      · rcases Outcome.bind_eq_error.mp failed with later | ⟨others, -, never⟩
        · exact induction later
        · cases never

theorem triangularIndex_error {triangular : ℕ → ℕ → ℕ} {hist : Histogram}
    {failure : PickError}
    (failed : triangularIndex triangular hist draws = .error failure) :
    failure = .draws := by
  induction draws with
  | nil =>
      cases failed
      rfl
  | cons r draws induction =>
      unfold triangularIndex at failed
      dsimp only at failed
      split at failed
      · exact induction failed
      · cases failed

theorem gammaIndex_error {failure : PickError}
    (failed : gammaIndex draws = .error failure) : failure = .draws := by
  cases draws with
  | nil =>
      cases failed
      rfl
  | cons index draws => cases failed

theorem pickAll_amount : (pickAll count amount).length = count ∧
    ∀ ref ∈ pickAll count amount, ref.amount = amount := by
  unfold pickAll
  refine ⟨by rw [List.length_map, List.length_range], fun ref member => ?_⟩
  obtain ⟨index, -, rfl⟩ := List.mem_map.mp member
  rfl

theorem pickFor_ok
    (picked : pickFor env histograms amount count draws = .ok (refs, next)) :
    refs.length = count ∧ ∀ ref ∈ refs, ref.amount = amount := by
  unfold pickFor at picked
  split at picked
  · rename_i zero
    unfold gammaPick at picked
    dsimp only at picked
    split at picked
    · cases picked
    split at picked
    · cases picked
    split at picked
    · cases picked
      exact zero ▸ pickAll_amount
    · exact zero ▸ pickEach_ok picked
  · split at picked
    · cases picked
    split at picked
    · rename_i same
      unfold triangularPick at picked
      split at picked
      · cases picked
      split at picked
      · cases picked
      split at picked
      · cases picked
        exact same ▸ pickAll_amount
      · exact same ▸ pickEach_ok picked
    · cases picked

theorem pickFor_notEnough :
    pickFor env histograms amount count draws = .error .notEnoughMixin ↔
      notEnoughMixin env histograms count amount = true := by
  have drawn : ∀ pick,
      (∀ draws failure, pick draws = .error failure → failure = .draws) →
      ∀ amount, pickEach pick amount count draws ≠ .error .notEnoughMixin :=
    fun pick onlyDraws amount failed =>
      nomatch pickEach_error onlyDraws failed
  unfold pickFor notEnoughMixin
  split
  · unfold gammaPick
    dsimp only
    have picks := drawn gammaIndex (fun _ _ => gammaIndex_error) 0
    by_cases valid : env.pickRct.isValid = true
    · by_cases few : env.pickRct.spendableUpperBound < count
      · simp [valid, few]
      · by_cases all : env.pickRct.spendableUpperBound = count
        · simp [valid, all]
        · simp [valid, few, all, picks]
    · simp [valid]
  · cases lowerBound histograms amount with
    | none => simp
    | some hist =>
        dsimp only
        unfold triangularPick
        have picks := drawn (triangularIndex env.triangular hist)
          (fun _ _ => triangularIndex_error) hist.amount
        by_cases same : hist.amount = amount
        · by_cases within : hist.unlockedCount ≤ hist.totalCount
          · by_cases few : hist.unlockedCount < count
            · simp [same, within, few]
            · by_cases all : hist.unlockedCount = count
              · rw [if_pos same, if_neg (not_not.mpr within), if_neg few,
                  if_pos all]
                simp [few]
              · rw [if_pos same, if_neg (not_not.mpr within), if_neg few,
                  if_neg all]
                simp [few, picks]
          · simp [same, within]
        · simp [same]

theorem notEnoughMixin_mono {more : ℕ} (less : count ≤ more)
    (failed : notEnoughMixin env histograms count amount = true) :
    notEnoughMixin env histograms more amount = true := by
  unfold notEnoughMixin at failed ⊢
  split at failed
  · rename_i zero
    rw [if_pos zero]
    simp only [Bool.or_eq_true, decide_eq_true_eq] at failed ⊢
    exact failed.imp_right fun few => few.trans_le less
  · rename_i some
    rw [if_neg some]
    cases found : lowerBound histograms amount with
    | none =>
        rw [found] at failed
        exact failed
    | some hist =>
        rw [found] at failed
        simp only [Bool.and_eq_true, decide_eq_true_eq] at failed ⊢
        exact ⟨failed.1, failed.2.trans_le less⟩

end Picks

/-! ## Sorted lists -/

section Sorted

theorem sortByIndex_sorted (refs : List OutputRef) :
    (sortByIndex refs).Pairwise fun left right => left.index ≤ right.index := by
  have total : Std.Total fun left right : OutputRef =>
      left.index ≤ right.index := ⟨fun left right => Nat.le_total _ _⟩
  have transitive : IsTrans OutputRef fun left right =>
      left.index ≤ right.index := ⟨fun _ _ _ => Nat.le_trans⟩
  exact List.pairwise_insertionSort _ refs

theorem sortRing_sorted (ring : List RandomOutput) :
    (sortRing ring).Pairwise fun left right => left.index ≤ right.index := by
  have total : Std.Total fun left right : RandomOutput =>
      left.index ≤ right.index := ⟨fun left right => Nat.le_total _ _⟩
  have transitive : IsTrans RandomOutput fun left right =>
      left.index ≤ right.index := ⟨fun _ _ _ => Nat.le_trans⟩
  exact List.pairwise_insertionSort _ ring

/-- Sorted neighbours that differ are strictly sorted. -/
theorem strict_of_chain {refs : List OutputRef}
    (sorted : refs.Pairwise fun left right => left.index ≤ right.index)
    (chain : refs.IsChain fun left right => left.index ≠ right.index) :
    refs.Pairwise fun left right => left.index < right.index := by
  induction refs with
  | nil => exact .nil
  | cons first refs induction =>
      obtain ⟨above, sorted⟩ := List.pairwise_cons.mp sorted
      obtain ⟨apart, chain⟩ := List.isChain_cons.mp chain
      have strict := induction sorted chain
      refine List.pairwise_cons.mpr ⟨fun ref member => ?_, strict⟩
      cases refs with
      | nil => cases member
      | cons second refs =>
          have here := apart second rfl
          have below := above second List.mem_cons_self
          rcases List.mem_cons.mp member with rfl | later
          · omega
          · have := (List.pairwise_cons.mp sorted).1 ref later
            omega

theorem uniqueByIndex_distinct {refs : List OutputRef}
    (sorted : refs.Pairwise fun left right => left.index ≤ right.index) :
    ((uniqueByIndex refs).map OutputRef.index).Nodup := by
  have ordered := sorted.sublist (List.destutter_sublist
    (fun left right : OutputRef => left.index ≠ right.index) refs)
  have chain := List.isChain_destutter
    (fun left right : OutputRef => left.index ≠ right.index) refs
  exact List.pairwise_map.mpr
    ((strict_of_chain ordered chain).imp Nat.ne_of_lt)

theorem foundIn_iff {current : List RandomOutput} {ref : OutputRef}
    (sorted : current.Pairwise fun left right => left.index ≤ right.index) :
    foundIn current ref = true ↔
      ∃ entry ∈ current, entry.index = ref.index := by
  unfold foundIn
  induction current with
  | nil => simp
  | cons entry current induction =>
      obtain ⟨above, sorted⟩ := List.pairwise_cons.mp sorted
      rw [List.dropWhile_cons]
      by_cases below : entry.index < ref.index
      · simp only [below, decide_true, if_true, List.exists_mem_cons_iff]
        rw [induction sorted, or_iff_right (Nat.ne_of_lt below)]
      · simp only [below, decide_false, Bool.false_eq_true, if_false,
          List.head?_cons, List.exists_mem_cons_iff, decide_eq_true_eq]
        refine (or_iff_left_of_imp ?_).symm
        rintro ⟨other, member, same⟩
        have := above other member
        omega

end Sorted

/-! ## The selection for a ring -/

/-- What a ring is between the rounds: unlocked entries at different indexes,
at most the mixin.  A ring that has entries was not dropped before. -/
structure RingKept (env : PickEnv) (histograms : List Histogram) (mixin : ℕ)
    (ring : RandomRing) : Prop where
  unlocked : ∀ entry ∈ ring.ring, entry.keys.unlocked = true
  distinct : (ring.ring.map RandomOutput.index).Nodup
  length : ring.ring.length ≤ mixin
  enough : ring.ring = [] ∨
    notEnoughMixin env histograms mixin ring.amount = false

/-- What a ring waits for. -/
def RandomRing.pending (ring : RandomRing) : List OutputRef :=
  (ring.ring.filter fun entry => !entry.keys.unlocked).map fun entry =>
    ⟨ring.amount, entry.index⟩

/-- A ring after the selection: as many outputs as are proposed wait for
keys, and the others are the old ones. -/
structure RingSelected (mixin : ℕ) (ring selected : RandomRing)
    (refs : List OutputRef) : Prop where
  amount : selected.amount = ring.amount
  distinct : (selected.ring.map RandomOutput.index).Nodup
  length : selected.ring.length ≤ mixin
  proposed : selected.pending = refs
  old : ∀ entry ∈ selected.ring, entry.keys.unlocked = true →
    entry ∈ ring.ring

section Select

variable {env : PickEnv} {histograms : List Histogram} {mixin : ℕ}
  {ring selected : RandomRing} {draws next : List ℕ} {refs : List OutputRef}

/-- A ring is only dropped when its amount does not have enough. -/
theorem selectRing_dropped
    (dropped : selectRing env histograms mixin ring draws = .ok (none, next)) :
    notEnoughMixin env histograms mixin ring.amount = true := by
  unfold selectRing at dropped
  split at dropped
  · split at dropped
    · rename_i failed
      exact notEnoughMixin_mono (Nat.sub_le _ _) (pickFor_notEnough.mp failed)
    · cases dropped
    · cases dropped
  · cases dropped

theorem ringSelected_of_picks (kept : RingKept env histograms mixin ring)
    {latest : List OutputRef} (count : latest.length ≤
      mixin - ring.ring.length)
    (amounts : ∀ ref ∈ latest, ref.amount = ring.amount) :
    RingSelected mixin ring
      ⟨sortRing ring.ring ++ ((uniqueByIndex (sortByIndex latest)).filter
        fun ref => !foundIn (sortRing ring.ring) ref).map lockedEntry,
        ring.amount⟩
      ((uniqueByIndex (sortByIndex latest)).filter
        fun ref => !foundIn (sortRing ring.ring) ref) := by
  have permuted : (sortRing ring.ring).Perm ring.ring :=
    List.perm_insertionSort _ _
  have unique := uniqueByIndex_distinct (sortByIndex_sorted latest)
  have shorter : (uniqueByIndex (sortByIndex latest)).Sublist
      (sortByIndex latest) := List.destutter_sublist _ _
  have sorted : (sortByIndex latest).Perm latest :=
    List.perm_insertionSort _ _
  have outside : ∀ ref ∈ (uniqueByIndex (sortByIndex latest)).filter
      (fun ref => !foundIn (sortRing ring.ring) ref),
      ref.amount = ring.amount ∧
        ∀ entry ∈ sortRing ring.ring, entry.index ≠ ref.index := by
    intro ref member
    obtain ⟨picked, fresh⟩ := List.mem_filter.mp member
    refine ⟨amounts ref (sorted.mem_iff.mp (shorter.subset picked)), ?_⟩
    intro entry old same
    have found := (foundIn_iff (sortRing_sorted ring.ring)).mpr
      ⟨entry, old, same⟩
    rw [found] at fresh
    cases fresh
  have few : ((uniqueByIndex (sortByIndex latest)).filter
      fun ref => !foundIn (sortRing ring.ring) ref).length ≤
        mixin - ring.ring.length := by
    apply (List.length_filter_le _ _).trans
    exact (shorter.length_le.trans_eq sorted.length_eq).trans count
  have freshDistinct : (((uniqueByIndex (sortByIndex latest)).filter
      fun ref => !foundIn (sortRing ring.ring) ref).map
        OutputRef.index).Nodup :=
    unique.sublist (List.filter_sublist.map _)
  generalize (uniqueByIndex (sortByIndex latest)).filter
    (fun ref => !foundIn (sortRing ring.ring) ref) = fresh
      at outside few freshDistinct ⊢
  constructor
  · rfl
  · have indexes : (fresh.map lockedEntry).map RandomOutput.index =
        fresh.map OutputRef.index := by
      rw [List.map_map]
      rfl
    rw [List.map_append, indexes]
    refine List.Nodup.append
      ((permuted.map _).nodup_iff.mpr kept.distinct) freshDistinct ?_
    intro index old new
    obtain ⟨entry, entryMember, rfl⟩ := List.mem_map.mp old
    obtain ⟨ref, refMember, same⟩ := List.mem_map.mp new
    exact (outside ref refMember).2 entry entryMember same.symm
  · have room := kept.length
    rw [List.length_append, List.length_map, permuted.length_eq]
    omega
  · unfold RandomRing.pending
    rw [List.filter_append, List.filter_eq_nil_iff.mpr, List.nil_append]
    · rw [List.filter_eq_self.mpr, List.map_map]
      · refine (List.map_congr_left fun ref member => ?_).trans
          (List.map_id fresh)
        have own := (outside ref member).1
        cases ref
        cases own
        rfl
      · intro entry member
        obtain ⟨ref, -, rfl⟩ := List.mem_map.mp member
        rfl
    · intro entry member
      simp [kept.unlocked entry (permuted.mem_iff.mp member)]
  · intro entry member unlocked
    rcases List.mem_append.mp member with old | new
    · exact permuted.mem_iff.mp old
    · obtain ⟨ref, -, rfl⟩ := List.mem_map.mp new
      cases unlocked

theorem selectRing_selected (kept : RingKept env histograms mixin ring)
    (positive : 0 < mixin)
    (success : selectRing env histograms mixin ring draws =
      .ok (some (selected, refs), next)) :
    RingSelected mixin ring selected refs ∧
      notEnoughMixin env histograms mixin ring.amount = false := by
  unfold selectRing at success
  split at success
  · split at success
    · cases success
    · cases success
    · rename_i latest rest picked
      cases success
      obtain ⟨count, amounts⟩ := pickFor_ok picked
      refine ⟨ringSelected_of_picks kept count.le amounts, ?_⟩
      rcases kept.enough with empty | enough
      · rw [empty, List.length_nil, Nat.sub_zero] at picked
        rw [← Bool.not_eq_true, ← @pickFor_notEnough env histograms _ _ draws, picked]
        exact nofun
      · exact enough
  · rename_i full
    cases success
    have some : ring.ring ≠ [] := by
      rintro empty
      rw [empty] at full
      exact full positive
    refine ⟨⟨rfl, kept.distinct, kept.length, ?_, fun _ member _ => member⟩,
      kept.enough.resolve_left some⟩
    unfold RandomRing.pending
    rw [List.filter_eq_nil_iff.mpr]
    · rfl
    · intro entry member
      simp [kept.unlocked entry member]

/-- The rings left are those with enough, and what is proposed is what they
wait for, ring after ring. -/
theorem selectRings_ok {rings selected : List RandomRing}
    {proposed : List OutputRef} (positive : 0 < mixin)
    (kept : ∀ ring ∈ rings, RingKept env histograms mixin ring)
    (success : selectRings env histograms mixin rings draws =
      .ok (selected, proposed, next)) :
    selected.map RandomRing.amount =
        (rings.map RandomRing.amount).filter
          (fun amount => !notEnoughMixin env histograms mixin amount) ∧
      selected.flatMap RandomRing.pending = proposed ∧
      ∀ after ∈ selected, ∃ ring ∈ rings, ∃ refs,
        RingSelected mixin ring after refs := by
  induction rings generalizing draws next selected proposed with
  | nil =>
      cases success
      exact ⟨rfl, rfl, by simp⟩
  | cons ring rings induction =>
      obtain ⟨here, later⟩ := List.forall_mem_cons.mp kept
      obtain ⟨⟨outcome, middle⟩, first, success⟩ :=
        Outcome.bind_eq_ok.mp success
      obtain ⟨⟨others, rest, final⟩, remaining, success⟩ :=
        Outcome.bind_eq_ok.mp success
      obtain ⟨amounts, waits, origins⟩ := induction later remaining
      cases outcome with
      | none =>
          cases success
          have dropped := selectRing_dropped first
          refine ⟨?_, waits, fun after member => ?_⟩
          · rw [List.map_cons, List.filter_cons_of_neg (by simp [dropped])]
            exact amounts
          · obtain ⟨origin, listed, refs, changed⟩ := origins after member
            exact ⟨origin, List.mem_cons_of_mem _ listed, refs, changed⟩
      | some outcome =>
          obtain ⟨head, refs⟩ := outcome
          cases success
          obtain ⟨changed, enough⟩ := selectRing_selected here positive first
          refine ⟨?_, ?_, fun after member => ?_⟩
          · rw [List.map_cons, List.map_cons,
              List.filter_cons_of_pos (by simp [enough]), changed.amount,
              amounts]
          · rw [List.flatMap_cons, changed.proposed, waits]
          · rcases List.mem_cons.mp member with rfl | tail
            · exact ⟨ring, List.mem_cons_self, refs, changed⟩
            · obtain ⟨origin, listed, refs, changed⟩ := origins after tail
              exact ⟨origin, List.mem_cons_of_mem _ listed, refs, changed⟩

end Select

/-! ## Receiving the keys -/

/-- The entries of a ring after it took the results `used`. -/
structure EntriesReceived (amount : ℕ) (entries kept : List RandomOutput)
    (used : List OutputKeys) (done : Bool) : Prop where
  length : (RandomRing.pending ⟨entries, amount⟩).length = used.length
  indexes : (kept.map RandomOutput.index).Sublist
    (entries.map RandomOutput.index)
  complete : done = true → kept.length = entries.length
  keys : ∀ entry ∈ kept, entry.keys.unlocked = true ∧
    (entry ∈ entries ∨ ((⟨amount, entry.index⟩ : OutputRef), entry.keys) ∈
      (RandomRing.pending ⟨entries, amount⟩).zip used)

section Receive

theorem pending_cons_unlocked {amount : ℕ} {entry : RandomOutput}
    {entries : List RandomOutput} (unlocked : entry.keys.unlocked = true) :
    RandomRing.pending ⟨entry :: entries, amount⟩ =
      RandomRing.pending ⟨entries, amount⟩ := by
  unfold RandomRing.pending
  rw [List.filter_cons_of_neg (by simp [unlocked])]

theorem pending_cons_locked {amount : ℕ} {entry : RandomOutput}
    {entries : List RandomOutput} (locked : entry.keys.unlocked = false) :
    RandomRing.pending ⟨entry :: entries, amount⟩ =
      ⟨amount, entry.index⟩ :: RandomRing.pending ⟨entries, amount⟩ := by
  unfold RandomRing.pending
  rw [List.filter_cons_of_pos (by simp [locked]), List.map_cons]

theorem receiveEntries_ok {entries kept : List RandomOutput}
    {result rest : List OutputKeys} {done : Bool} (amount : ℕ)
    (received : receiveEntries entries result = .ok (kept, rest, done)) :
    ∃ used, result = used ++ rest ∧
      EntriesReceived amount entries kept used done := by
  induction entries generalizing result kept rest done with
  | nil =>
      cases received
      exact ⟨[], rfl, rfl, .slnil, fun _ => rfl, by simp⟩
  | cons entry entries induction =>
      unfold receiveEntries at received
      split at received
      · rename_i unlocked
        obtain ⟨⟨others, final, complete⟩, later, stored⟩ :=
          Outcome.bind_eq_ok.mp received
        cases stored
        obtain ⟨used, split, facts⟩ := induction later
        have same := @pending_cons_unlocked amount _ entries unlocked
        refine ⟨used, split, ?_, facts.indexes.cons_cons _, ?_, ?_⟩
        · rw [same]
          exact facts.length
        · intro all
          rw [List.length_cons, List.length_cons, facts.complete all]
        · rw [same]
          refine List.forall_mem_cons.mpr
            ⟨⟨unlocked, .inl List.mem_cons_self⟩, fun other member => ?_⟩
          exact (facts.keys other member).imp_right
            (Or.imp_left (List.mem_cons_of_mem _))
      · rename_i locked
        rw [Bool.not_eq_true] at locked
        have waits := @pending_cons_locked amount _ entries locked
        cases result with
        | nil => cases received
        | cons keys result =>
            obtain ⟨⟨others, final, complete⟩, later, stored⟩ :=
              Outcome.bind_eq_ok.mp received
            obtain ⟨used, split, facts⟩ := induction later
            have shifted : ∀ other ∈ others, other.keys.unlocked = true ∧
                (other ∈ entry :: entries ∨
                  ((⟨amount, other.index⟩ : OutputRef), other.keys) ∈
                    (RandomRing.pending ⟨entry :: entries, amount⟩).zip
                      (keys :: used)) := by
              intro other member
              rw [waits, List.zip_cons_cons]
              exact (facts.keys other member).imp_right
                (Or.imp (List.mem_cons_of_mem _) (List.mem_cons_of_mem _))
            have length : (RandomRing.pending
                ⟨entry :: entries, amount⟩).length = (keys :: used).length := by
              rw [waits, List.length_cons, List.length_cons, facts.length]
            by_cases unlocked : keys.unlocked = true
            · simp only [unlocked, if_true] at stored
              cases stored
              refine ⟨keys :: used, by rw [split, List.cons_append], length,
                facts.indexes.cons_cons _, ?_, ?_⟩
              · intro all
                rw [List.length_cons, List.length_cons, facts.complete all]
              · refine List.forall_mem_cons.mpr ⟨⟨unlocked, .inr ?_⟩, shifted⟩
                rw [waits, List.zip_cons_cons]
                exact List.mem_cons_self
            · simp only [unlocked] at stored
              cases stored
              exact ⟨keys :: used, by rw [split, List.cons_append], length,
                facts.indexes.cons _, nofun, shifted⟩

/-- The rings after they took the results `used`, in order. -/
structure RingsReceived (mixin : ℕ) (rings after : List RandomRing)
    (used : List OutputKeys) (done : Bool) : Prop where
  length : (rings.flatMap RandomRing.pending).length = used.length
  amounts : after.map RandomRing.amount = rings.map RandomRing.amount
  each : ∀ ring ∈ after, ∃ before ∈ rings, ring.amount = before.amount ∧
    (ring.ring.map RandomOutput.index).Sublist
      (before.ring.map RandomOutput.index) ∧
    (done = true → ring.ring.length = before.ring.length ∧
      mixin ≤ before.ring.length) ∧
    ∀ entry ∈ ring.ring, entry.keys.unlocked = true ∧
      (entry ∈ before.ring ∨
        ((⟨ring.amount, entry.index⟩ : OutputRef), entry.keys) ∈
          (rings.flatMap RandomRing.pending).zip used)

theorem receiveRings_ok {mixin : ℕ} {rings after : List RandomRing}
    {result rest : List OutputKeys} {done : Bool}
    (received : receiveRings mixin rings result = .ok (after, rest, done)) :
    ∃ used, result = used ++ rest ∧
      RingsReceived mixin rings after used done := by
  induction rings generalizing result after rest done with
  | nil =>
      cases received
      exact ⟨[], rfl, rfl, rfl, by simp⟩
  | cons ring rings induction =>
      obtain ⟨⟨kept, middle, complete⟩, first, received⟩ :=
        Outcome.bind_eq_ok.mp received
      obtain ⟨⟨others, final, all⟩, later, stored⟩ :=
        Outcome.bind_eq_ok.mp received
      cases stored
      obtain ⟨own, ownSplit, entries⟩ := receiveEntries_ok ring.amount first
      obtain ⟨used, split, facts⟩ := induction later
      have zipped : (List.flatMap RandomRing.pending (ring :: rings)).zip
          (own ++ used) = (RandomRing.pending ring).zip own ++
            (rings.flatMap RandomRing.pending).zip used := by
        rw [List.flatMap_cons, List.zip_append entries.length]
      refine ⟨own ++ used, by rw [ownSplit, split, List.append_assoc], ?_, ?_,
        ?_⟩
      · rw [List.flatMap_cons, List.length_append, List.length_append,
          facts.length]
        exact congrArg (· + used.length) entries.length
      · rw [List.map_cons, List.map_cons, facts.amounts]
      · rw [zipped]
        refine List.forall_mem_cons.mpr ⟨?_, fun other member => ?_⟩
        · refine ⟨ring, List.mem_cons_self, rfl, entries.indexes, ?_, ?_⟩
          · intro finished
            simp only [Bool.and_eq_true, decide_eq_true_eq] at finished
            exact ⟨entries.complete finished.1.2, finished.1.1⟩
          · intro entry member
            exact (entries.keys entry member).imp_right
              (Or.imp_right (List.mem_append_left _))
        · obtain ⟨before, listed, amount, indexes, finished, keys⟩ :=
            facts.each other member
          refine ⟨before, List.mem_cons_of_mem _ listed, amount, indexes, ?_,
            ?_⟩
          · intro complete
            simp only [Bool.and_eq_true] at complete
            exact finished complete.2
          · intro entry entryMember
            exact (keys entry entryMember).imp_right
              (Or.imp_right (List.mem_append_right _))

end Receive

/-! ## Rounds -/

/-- A call of the callback returned the keys for the output, at its
position. -/
def Answered (calls : List Fetched) (amount : ℕ) (entry : RandomOutput) :
    Prop :=
  ∃ fetched ∈ calls, ∃ result, fetched.answer = .ok result ∧
    ((⟨amount, entry.index⟩ : OutputRef), entry.keys) ∈
      fetched.refs.zip result

/-- The rings between two rounds. -/
structure RingsKept (env : PickEnv) (histograms : List Histogram) (mixin : ℕ)
    (amounts : List ℕ) (rings : List RandomRing) (calls : List Fetched) :
    Prop where
  kept : ∀ ring ∈ rings, RingKept env histograms mixin ring
  answered : ∀ ring ∈ rings, ∀ entry ∈ ring.ring,
    Answered calls ring.amount entry
  amounts : (rings.map RandomRing.amount).filter
      (fun amount => !notEnoughMixin env histograms mixin amount) =
    amounts.filter fun amount => !notEnoughMixin env histograms mixin amount

/-- What is returned: in order, a full ring of different unlocked outputs for
every amount that has enough. -/
structure ValidRings (env : PickEnv) (histograms : List Histogram)
    (mixin : ℕ) (amounts : List ℕ) (rings : List RandomRing)
    (calls : List Fetched) : Prop where
  amounts : rings.map RandomRing.amount =
    amounts.filter fun amount => !notEnoughMixin env histograms mixin amount
  length : ∀ ring ∈ rings, ring.ring.length = mixin
  distinct : ∀ ring ∈ rings, (ring.ring.map RandomOutput.index).Nodup
  answered : ∀ ring ∈ rings, ∀ entry ∈ ring.ring,
    entry.keys.unlocked = true ∧ Answered calls ring.amount entry

section Rounds

variable {env : PickEnv} {fetch : KeyFetcher} {histograms : List Histogram}
  {mixin : ℕ} {amounts : List ℕ} {rings selected after : List RandomRing}
  {calls : List Fetched} {draws next : List ℕ} {proposed : List OutputRef}

theorem Answered.append {amount : ℕ} {entry : RandomOutput}
    (answered : Answered calls amount entry) (later : List Fetched) :
    Answered (calls ++ later) amount entry := by
  obtain ⟨fetched, member, rest⟩ := answered
  exact ⟨fetched, List.mem_append_left _ member, rest⟩

/-- A round keeps the rings, and is the last one when all are full. -/
theorem round_kept (positive : 0 < mixin)
    (kept : RingsKept env histograms mixin amounts rings calls)
    (selects : selectRings env histograms mixin rings draws =
      .ok (selected, proposed, next))
    {result rest : List OutputKeys} {done : Bool}
    (received : receiveRings mixin selected result = .ok (after, rest, done))
    (calls_ : List Fetched)
    (last : calls_ = calls ++ [⟨proposed, .ok result⟩]) :
    RingsKept env histograms mixin amounts after calls_ ∧
      (done = true →
        ValidRings env histograms mixin amounts after calls_) := by
  obtain ⟨left, waits, origins⟩ := selectRings_ok positive kept.kept selects
  obtain ⟨used, split, facts⟩ := receiveRings_ok received
  rw [kept.amounts] at left
  have enough : ∀ ring ∈ after,
      notEnoughMixin env histograms mixin ring.amount = false := by
    intro ring member
    have listed : ring.amount ∈ after.map RandomRing.amount :=
      List.mem_map_of_mem member
    rw [facts.amounts, left] at listed
    simpa using (List.mem_filter.mp listed).2
  have answered : ∀ ring ∈ after, ∀ entry ∈ ring.ring,
      entry.keys.unlocked = true ∧ Answered calls_ ring.amount entry := by
    intro ring member entry entryMember
    obtain ⟨before, listed, amount, -, -, keys⟩ := facts.each ring member
    obtain ⟨origin, originMember, refs, changed⟩ := origins before listed
    obtain ⟨unlocked, old | new⟩ := keys entry entryMember
    · have stored := kept.answered origin originMember entry
        (changed.old entry old unlocked)
      rw [← changed.amount, ← amount] at stored
      exact ⟨unlocked, last ▸ stored.append _⟩
    · refine ⟨unlocked, ⟨proposed, .ok result⟩, by simp [last], result, rfl,
        ?_⟩
      rw [← waits, split, ← List.append_nil
        (selected.flatMap RandomRing.pending), List.zip_append facts.length]
      exact List.mem_append_left _ new
  have amounts_ : after.map RandomRing.amount = amounts.filter
      fun amount => !notEnoughMixin env histograms mixin amount := by
    rw [facts.amounts, left]
  have ringKept : ∀ ring ∈ after, RingKept env histograms mixin ring := by
    intro ring member
    obtain ⟨before, listed, -, indexes, -, -⟩ := facts.each ring member
    obtain ⟨origin, -, refs, changed⟩ := origins before listed
    have shorter := indexes.length_le
    rw [List.length_map, List.length_map] at shorter
    exact ⟨fun entry entryMember => (answered ring member entry entryMember).1,
      changed.distinct.sublist indexes, shorter.trans changed.length,
      .inr (enough ring member)⟩
  refine ⟨⟨ringKept, fun ring member entry entryMember =>
      (answered ring member entry entryMember).2, ?_⟩, fun finished => ?_⟩
  · rw [amounts_, List.filter_filter]
    simp
  · refine ⟨amounts_, fun ring member => ?_,
      fun ring member => (ringKept ring member).distinct, answered⟩
    obtain ⟨before, listed, -, -, complete, -⟩ := facts.each ring member
    obtain ⟨origin, -, refs, changed⟩ := origins before listed
    obtain ⟨same, full⟩ := complete finished
    exact same.trans (le_antisymm changed.length full)

/-- The rounds return valid rings, with a call for each at most. -/
theorem pickRounds_valid (positive : 0 < mixin) (left : ℕ)
    (kept : RingsKept env histograms mixin amounts rings calls) :
    (∀ returned final, pickRounds env fetch histograms mixin left rings draws
        calls = (.ok returned, final) →
      ValidRings env histograms mixin amounts returned final) ∧
    (pickRounds env fetch histograms mixin left rings draws calls).2.length ≤
      calls.length + left := by
  induction left generalizing rings draws calls with
  | zero => exact ⟨nofun, le_rfl⟩
  | succ left induction =>
      rw [pickRounds]
      cases selects : selectRings env histograms mixin rings draws with
      | error failure => exact ⟨nofun, Nat.le_add_right _ _⟩
      | ok outcome =>
          obtain ⟨selected, proposed, next⟩ := outcome
          dsimp only
          split
          · rename_i none
            refine ⟨fun returned final same => ?_, Nat.le_add_right _ _⟩
            cases same
            obtain ⟨amounts_, -⟩ := selectRings_ok positive kept.kept selects
            rw [none, kept.amounts] at amounts_
            exact ⟨amounts_, by simp, by simp, by simp⟩
          cases answer : fetch calls.length proposed with
          | error failure => exact ⟨nofun, by simp⟩
          | ok result =>
              dsimp only
              split
              · exact ⟨nofun, by simp⟩
              cases received : receiveRings mixin selected result with
              | error failure => exact ⟨nofun, by simp⟩
              | ok outcome =>
                  obtain ⟨after, rest, done⟩ := outcome
                  obtain ⟨again, valid⟩ := round_kept positive kept selects
                    received _ rfl
                  dsimp only
                  split
                  · rename_i finished
                    refine ⟨fun returned final same => ?_, by simp⟩
                    cases same
                    exact valid finished
                  · obtain ⟨returns, fetches⟩ := @induction _ _ next again
                    refine ⟨returns, fetches.trans ?_⟩
                    rw [List.length_append, List.length_singleton]
                    omega

/-- Whatever is drawn and answered, only valid rings are returned, after at
most 64 calls of the callback. -/
theorem pick_random_outputs_valid (positive : 0 < mixin) :
    (∀ returned final, pickRandomOutputs env mixin amounts histograms draws =
        (.ok returned, final) →
      ValidRings env (env.sortByAmount histograms) mixin amounts returned
        final) ∧
    (pickRandomOutputs env mixin amounts histograms draws).2.length ≤ 64 := by
  unfold pickRandomOutputs
  split
  · rename_i idle
    obtain rfl := idle.resolve_left (Nat.ne_of_gt positive)
    refine ⟨fun returned final same => ?_, Nat.zero_le _⟩
    cases same
    exact ⟨rfl, by simp, by simp, by simp⟩
  split
  · exact ⟨nofun, Nat.zero_le _⟩
  split
  · exact ⟨nofun, Nat.zero_le _⟩
  · rename_i fetch _ _
    have start : RingsKept env (env.sortByAmount histograms) mixin amounts
        (amounts.map fun amount => ⟨[], amount⟩) [] := by
      refine ⟨fun ring member => ?_, fun ring member entry listed => ?_, ?_⟩
      · obtain ⟨amount, -, rfl⟩ := List.mem_map.mp member
        exact ⟨by simp, .nil, Nat.zero_le _, .inl rfl⟩
      · obtain ⟨amount, -, rfl⟩ := List.mem_map.mp member
        cases listed
      · rw [List.map_map]
        exact congrArg _ (List.map_id amounts)
    have rounds := @pickRounds_valid env fetch _ mixin amounts _ _ draws
      positive 64 start
    exact ⟨rounds.1, rounds.2.trans_eq (Nat.zero_add 64)⟩

end Rounds

/-- A daemon that at first has one output locked, and no ringct ones. -/
private def samplePickEnv : PickEnv where
  pickRct := ⟨10, []⟩
  sortByAmount := id
  triangular := fun r total => r % total
  fetch := some fun call refs => .ok (refs.map fun ref =>
    ⟨ref.index, ref.amount, call ≠ 0 || ref.index ≠ 1⟩)

private def samplePicked : List RandomRing :=
  [⟨[⟨⟨2, 20, true⟩, 2⟩, ⟨⟨3, 20, true⟩, 3⟩], 20⟩]

private def sampleFetches : List Fetched :=
  [⟨[⟨20, 1⟩, ⟨20, 2⟩], .ok [⟨1, 20, false⟩, ⟨2, 20, true⟩]⟩,
    ⟨[⟨20, 3⟩], .ok [⟨3, 20, true⟩]⟩]

/-- The amount zero is dropped, and the other ring is full after the second
call. -/
theorem pick_random_outputs_valid_sample :
    pickRandomOutputs samplePickEnv 2 [0, 20] [⟨20, 5, 3⟩] [1, 2, 3] =
        (.ok samplePicked, sampleFetches) ∧
      ValidRings samplePickEnv [⟨20, 5, 3⟩] 2 [0, 20] samplePicked
        sampleFetches := by
  have picked : pickRandomOutputs samplePickEnv 2 [0, 20] [⟨20, 5, 3⟩]
      [1, 2, 3] = (.ok samplePicked, sampleFetches) := rfl
  exact ⟨picked, (pick_random_outputs_valid (by decide)).1 _ _ picked⟩

end XfoLws.Util
