import XfoLws.Db.Data
import XfoLws.Lib.Dealing
import Mathlib.Algebra.Order.Floor.Semiring
import Mathlib.Data.Rat.Floor

/-!
# Threads of the scanner

`check_loop` deals the active accounts to the scanning threads.  Accounts are
their positions in the list of users; a thread is the list of its accounts.
-/

namespace XfoLws.Scanner

open Db (BlockId)
open Dealing

/-- `scanner_options`, as `check_loop` reads it.  The fraction is exact. -/
structure ScannerOptions where
  splitSyncThreads : ℚ
  splitSyncDepth : ℕ
  minBlockDepth : ℕ
  blockDepthThreading : Bool

/-- An account with its distance from the chain tip. -/
structure AccountDepth where
  index : ℕ
  blockdepth : ℕ
  rawBlockdepth : ℕ
deriving DecidableEq, Repr

def accountDepths (opts : ScannerOptions) (currentHeight : BlockId)
    (scanHeights : List BlockId) : List AccountDepth :=
  scanHeights.zipIdx.map fun (scanHeight, index) =>
    let raw := sub64 currentHeight scanHeight
    ⟨index, max raw opts.minBlockDepth, raw⟩

/-! ## Block depth threading -/

/-- Synced accounts go round over `actual` threads. -/
def assignSynced (actual : ℕ) (threads : List (List ℕ))
    (synced : List AccountDepth) : List (List ℕ) :=
  synced.zipIdx.foldl (fun threads entry =>
    deal threads (entry.2 % actual) entry.1.index) threads

/-- What the loop over the remaining accounts carries. -/
structure Assigning where
  currentThread : ℕ
  currentDepth : ℕ
  threads : List (List ℕ)

/-- Whether the loop goes on to the next thread: even threads move when they
reached the target, odd threads before they exceed it. -/
def moveToNext (start last perThread : ℕ) (state : Assigning)
    (depth : AccountDepth) : Bool :=
  if state.currentThread < last then
    if (state.currentThread - start) % 2 = 0 then
      perThread ≤ state.currentDepth
    else perThread < wrap64 (state.currentDepth + depth.blockdepth)
  else false

def assignNext (start last perThread : ℕ) (state : Assigning)
    (depth : AccountDepth) : Assigning :=
  let state : Assigning :=
    if moveToNext start last perThread state depth then
      ⟨state.currentThread + 1, 0, state.threads⟩
    else state
  ⟨state.currentThread, wrap64 (state.currentDepth + depth.blockdepth),
    deal state.threads state.currentThread depth.index⟩

/-- The remaining accounts, over `count` threads from `start` on; nothing is
assigned when there is no thread. -/
def assignRest (start count : ℕ) (threads : List (List ℕ))
    (rest : List AccountDepth) : List (List ℕ) :=
  if rest ≠ [] ∧ 0 < count then
    let total := rest.foldl (fun sum depth => wrap64 (sum + depth.blockdepth)) 0
    let perThread := total / count
    (rest.foldl (assignNext start (start + count - 1) perThread)
      ⟨start, 0, threads⟩).threads
  else threads

def ScannerOptions.isSynced (opts : ScannerOptions) (depth : AccountDepth) :
    Bool :=
  depth.rawBlockdepth ≤ opts.splitSyncDepth

/-- Threads set aside for synced accounts. -/
def ScannerOptions.numSyncedThreads (opts : ScannerOptions)
    (threadCount : ℕ) : ℕ :=
  max 1 ⌈opts.splitSyncThreads * threadCount⌉₊

/-- The block depth branch of `check_loop`, on the depths as sorted. -/
def assignByDepth (opts : ScannerOptions) (threadCount : ℕ)
    (sorted : List AccountDepth) : List (List ℕ) :=
  let threads := List.replicate threadCount []
  if 0 < opts.splitSyncThreads then
    let synced := sorted.filter opts.isSynced
    let unsynced := sorted.filter fun depth => !opts.isSynced depth
    if synced = [] then assignRest 0 threadCount threads unsynced
    else
      let numSynced := opts.numSyncedThreads threadCount
      assignRest numSynced (threadCount - numSynced)
        (assignSynced (min numSynced synced.length) threads synced) unsynced
  else assignRest 0 threadCount threads sorted

/-- The accounts of every thread.  `byDepth` and `byHeight` are what
`std::sort` leaves of the accounts; it may order equal keys in any way. -/
def checkLoop (opts : ScannerOptions) (threadCount : ℕ)
    (byDepth : List AccountDepth) (byHeight : List ℕ) : List (List ℕ) :=
  if opts.blockDepthThreading then assignByDepth opts threadCount byDepth
  else divideEvenly threadCount byHeight

/-! ## Every account gets a thread -/

theorem assignSynced_perm {actual : ℕ} {threads : List (List ℕ)}
    (synced : List AccountDepth) (positive : 0 < actual)
    (inside : actual ≤ threads.length) :
    (assignSynced actual threads synced).length = threads.length ∧
      (assignSynced actual threads synced).flatten.Perm
        (synced.map AccountDepth.index ++ threads.flatten) := by
  have dealt : (assignSynced actual threads synced).length =
        threads.length ∧
      (assignSynced actual threads synced).flatten.Perm
        (synced.zipIdx.map (fun entry => entry.1.index) ++
          threads.flatten) := by
    refine foldl_perm id
      (fun entry : AccountDepth × ℕ => entry.1.index)
      (fun bins entry => deal bins (entry.2 % actual) entry.1.index)
      (fun bins : List (List ℕ) => bins.length = threads.length) ?_ rfl
    intro bins entry same
    have below := Nat.mod_lt entry.2 positive
    exact ⟨(length_deal _ _ _).trans same, deal_perm (by omega) _⟩
  have indexes : synced.zipIdx.map (fun entry => entry.1.index) =
      synced.map AccountDepth.index := by
    change synced.zipIdx.map (AccountDepth.index ∘ Prod.fst) = _
    rw [← List.map_map, List.zipIdx_map_fst]
  rw [indexes] at dealt
  exact dealt

private theorem assignNext_dealt {start last perThread size : ℕ}
    (inside : last < size) (state : Assigning) (depth : AccountDepth)
    (valid : state.currentThread ≤ last ∧ state.threads.length = size) :
    ((assignNext start last perThread state depth).currentThread ≤ last ∧
      (assignNext start last perThread state depth).threads.length = size) ∧
    (assignNext start last perThread state depth).threads.flatten.Perm
      (depth.index :: state.threads.flatten) := by
  obtain ⟨onThread, length⟩ := valid
  unfold assignNext
  by_cases moves : moveToNext start last perThread state depth = true
  · have ahead : state.currentThread < last := by
      unfold moveToNext at moves
      by_contra behind
      rw [if_neg behind] at moves
      cases moves
    simp only [moves, ↓reduceIte, length_deal]
    exact ⟨⟨ahead, length⟩, deal_perm (by omega) _⟩
  · simp only [moves, Bool.false_eq_true, ↓reduceIte, length_deal]
    exact ⟨⟨onThread, length⟩, deal_perm (by omega) _⟩

/-- The loop over the remaining accounts assigns all of them. -/
theorem assignRest_perm {start count : ℕ} {threads : List (List ℕ)}
    {rest : List AccountDepth} (enough : rest = [] ∨ 0 < count)
    (inside : start + count ≤ threads.length) :
    (assignRest start count threads rest).flatten.Perm
      (rest.map AccountDepth.index ++ threads.flatten) := by
  unfold assignRest
  by_cases empty : rest = []
  · rw [if_neg (by tauto), empty]
    exact .refl _
  have positive := enough.resolve_left empty
  rw [if_pos ⟨empty, positive⟩]
  dsimp only
  generalize rest.foldl (fun sum depth => wrap64 (sum + depth.blockdepth)) 0 /
    count = perThread
  exact (foldl_perm Assigning.threads AccountDepth.index
    (assignNext start (start + count - 1) perThread)
    (fun state => state.currentThread ≤ start + count - 1 ∧
      state.threads.length = threads.length)
    (fun state depth valid =>
      assignNext_dealt (by omega) state depth valid)
    (⟨by omega, rfl⟩ : start ≤ start + count - 1 ∧
      threads.length = threads.length)).2

/-- Where no thread is left for the accounts that are behind. -/
def LeavesNoThread (opts : ScannerOptions) (threadCount : ℕ)
    (currentHeight : BlockId) (scanHeights : List BlockId) : Prop :=
  opts.blockDepthThreading = true ∧ 0 < opts.splitSyncThreads ∧
    opts.numSyncedThreads threadCount = threadCount ∧
    (∃ height ∈ scanHeights,
      sub64 currentHeight height ≤ opts.splitSyncDepth) ∧
    ∃ height ∈ scanHeights, opts.splitSyncDepth < sub64 currentHeight height

section Partition

variable {opts : ScannerOptions} {threadCount : ℕ}

theorem numSyncedThreads_le (positive : 0 < threadCount)
    (fraction : opts.splitSyncThreads ≤ 1) :
    opts.numSyncedThreads threadCount ≤ threadCount := by
  refine max_le positive (Nat.ceil_le.mpr ?_)
  exact mul_le_of_le_one_left (Nat.cast_nonneg threadCount) fraction

private theorem flatten_replicate_nil (count : ℕ) :
    (List.replicate count ([] : List ℕ)).flatten = [] := by
  simp

/-- With a thread for every kind of account, the depth branch assigns all. -/
theorem assignByDepth_perm {sorted : List AccountDepth}
    (positive : 0 < threadCount) (fraction : opts.splitSyncThreads ≤ 1)
    (threads : 0 < opts.splitSyncThreads →
      sorted.filter opts.isSynced ≠ [] →
      (sorted.filter fun depth => !opts.isSynced depth) ≠ [] →
      opts.numSyncedThreads threadCount ≠ threadCount) :
    (assignByDepth opts threadCount sorted).flatten.Perm
      (sorted.map AccountDepth.index) := by
  have whole : ∀ rest, (assignRest 0 threadCount
      (List.replicate threadCount []) rest).flatten.Perm
        (rest.map AccountDepth.index) := by
    intro rest
    have assigned : (assignRest 0 threadCount
        (List.replicate threadCount []) rest).flatten.Perm
          (rest.map AccountDepth.index ++
            (List.replicate threadCount ([] : List ℕ)).flatten) :=
      assignRest_perm (.inr positive) (by simp)
    rwa [flatten_replicate_nil, List.append_nil] at assigned
  unfold assignByDepth
  dsimp only
  split
  · rename_i splits
    have parts : (sorted.filter opts.isSynced ++
        sorted.filter fun depth => !opts.isSynced depth).Perm sorted :=
      List.filter_append_perm _ _
    generalize sorted.filter opts.isSynced = synced at threads parts ⊢
    generalize (sorted.filter fun depth => !opts.isSynced depth) = unsynced
      at threads parts ⊢
    split
    · rename_i none
      rw [none, List.nil_append] at parts
      exact (whole unsynced).trans (parts.map _)
    · rename_i some
      have within := numSyncedThreads_le positive fraction
      have one : 1 ≤ opts.numSyncedThreads threadCount := le_max_left _ _
      have length : 0 < synced.length := List.length_pos_iff.mpr some
      have used : min (opts.numSyncedThreads threadCount) synced.length ≤
          (List.replicate threadCount ([] : List ℕ)).length := by
        rw [List.length_replicate]
        omega
      obtain ⟨sameLength, dealt⟩ :=
        assignSynced_perm synced (by omega) used
      rw [flatten_replicate_nil, List.append_nil] at dealt
      have enough : unsynced = [] ∨
          0 < threadCount - opts.numSyncedThreads threadCount := by
        by_cases behind : unsynced = []
        · exact .inl behind
        · have left := threads splits some behind
          exact .inr (by omega)
      refine (assignRest_perm enough ?_).trans ?_
      · rw [sameLength, List.length_replicate]
        omega
      · refine (dealt.append_left _).trans ?_
        rw [← List.map_append]
        exact (List.perm_append_comm.trans parts).map _
  · exact whole sorted

/-- Without a thread for them, accounts that are behind are assigned
nowhere. -/
theorem assignByDepth_loses {sorted : List AccountDepth}
    (splits : 0 < opts.splitSyncThreads)
    (all : opts.numSyncedThreads threadCount = threadCount)
    (synced : sorted.filter opts.isSynced ≠ [])
    (unsynced : (sorted.filter fun depth => !opts.isSynced depth) ≠ []) :
    (assignByDepth opts threadCount sorted).flatten.length <
      sorted.length := by
  have length := List.length_eq_length_filter_add (l := sorted) opts.isSynced
  have behind := List.length_pos_iff.mpr unsynced
  have some := List.length_pos_iff.mpr synced
  have one : 1 ≤ opts.numSyncedThreads threadCount := le_max_left _ _
  have used : min threadCount (sorted.filter opts.isSynced).length ≤
      (List.replicate threadCount ([] : List ℕ)).length := by
    rw [List.length_replicate]
    omega
  obtain ⟨-, dealt⟩ := assignSynced_perm (sorted.filter opts.isSynced)
    (by omega) used
  have assigned := dealt.length_eq
  rw [flatten_replicate_nil, List.append_nil, List.length_map] at assigned
  unfold assignByDepth
  rw [if_pos splits]
  dsimp only
  rw [if_neg synced, all, Nat.sub_self, assignRest, if_neg (by omega)]
  omega

private theorem indexes_perm {currentHeight : BlockId}
    {scanHeights : List BlockId} {byDepth : List AccountDepth}
    (sorted : byDepth.Perm (accountDepths opts currentHeight scanHeights)) :
    (byDepth.map AccountDepth.index).Perm (List.range scanHeights.length) := by
  refine (sorted.map _).trans (.of_eq ?_)
  unfold accountDepths
  rw [List.map_map]
  change scanHeights.zipIdx.map Prod.snd = _
  rw [List.zipIdx_map_snd, List.range_eq_range']

private theorem synced_iff {currentHeight : BlockId}
    {scanHeights : List BlockId} {byDepth : List AccountDepth}
    (sorted : byDepth.Perm (accountDepths opts currentHeight scanHeights))
    (kind : ℕ → Bool) :
    (byDepth.filter fun depth => kind depth.rawBlockdepth) ≠ [] ↔
      ∃ height ∈ scanHeights, kind (sub64 currentHeight height) = true := by
  have raws : (byDepth.map AccountDepth.rawBlockdepth).Perm
      (scanHeights.map (sub64 currentHeight)) := by
    refine (sorted.map _).trans (.of_eq ?_)
    unfold accountDepths
    rw [List.map_map]
    change scanHeights.zipIdx.map (sub64 currentHeight ∘ Prod.fst) = _
    rw [← List.map_map, List.zipIdx_map_fst]
  rw [Ne, List.filter_eq_nil_iff, not_forall]
  constructor
  · rintro ⟨depth, fails⟩
    obtain ⟨member, holds⟩ := Classical.not_imp.mp fails
    obtain ⟨height, listed, same⟩ := List.mem_map.mp
      (raws.mem_iff.mp (List.mem_map_of_mem member))
    exact ⟨height, listed, by rw [same]; exact not_not.mp holds⟩
  · rintro ⟨height, listed, holds⟩
    obtain ⟨depth, member, same⟩ := List.mem_map.mp
      (raws.mem_iff.mpr (List.mem_map_of_mem listed))
    exact ⟨depth, fun fails => fails member (by rw [same]; exact holds)⟩

/-- `check_loop` gives every account to exactly one thread, except when the
synced accounts take all threads and others are left. -/
theorem check_loop_partitions_iff {currentHeight : BlockId}
    {scanHeights : List BlockId} {byDepth : List AccountDepth}
    {byHeight : List ℕ} (positive : 0 < threadCount)
    (fraction : opts.splitSyncThreads ≤ 1)
    (depths : byDepth.Perm (accountDepths opts currentHeight scanHeights))
    (heights : byHeight.Perm (List.range scanHeights.length)) :
    (checkLoop opts threadCount byDepth byHeight).flatten.Perm
        (List.range scanHeights.length) ↔
      ¬ LeavesNoThread opts threadCount currentHeight scanHeights := by
  have synced := synced_iff depths fun raw => raw ≤ opts.splitSyncDepth
  have unsynced := synced_iff depths fun raw => !(raw ≤ opts.splitSyncDepth)
  simp only [decide_eq_true_eq, Bool.not_eq_true', decide_eq_false_iff_not,
    not_le] at synced unsynced
  unfold checkLoop LeavesNoThread
  by_cases mode : opts.blockDepthThreading = true
  · rw [if_pos mode]
    rw [← synced, ← unsynced]
    constructor
    · rintro partition ⟨-, splits, all, some, behind⟩
      have fewer := assignByDepth_loses splits all some behind
      have length := (partition.trans (indexes_perm depths).symm).length_eq
      rw [List.length_map] at length
      exact absurd length (Nat.ne_of_lt fewer)
    · intro left
      refine (assignByDepth_perm positive fraction ?_).trans
        (indexes_perm depths)
      intro splits some behind all
      exact left ⟨mode, splits, all, some, behind⟩
  · rw [if_neg mode]
    exact iff_of_true ((divideEvenly_perm positive byHeight).trans heights)
      fun leaves => mode leaves.1

end Partition

/-- A quarter of four threads for synced accounts. -/
def sampleOptions : ScannerOptions where
  splitSyncThreads := 1 / 4
  splitSyncDepth := 10
  minBlockDepth := 16
  blockDepthThreading := true

/-- One synced and two other accounts over four threads. -/
theorem check_loop_partitions_four_threads :
    (checkLoop sampleOptions 4 (accountDepths sampleOptions 100 [95, 50, 20])
      [2, 1, 0]).flatten.Perm (List.range 3) := by
  refine (check_loop_partitions_iff (by decide) ?_ (.refl _)
    (by decide : [2, 1, 0].Perm (List.range 3))).mpr ?_
  · norm_num [sampleOptions]
  · intro leaves
    have all := leaves.2.2.1
    have synced : sampleOptions.numSyncedThreads 4 = 1 := by
      norm_num [sampleOptions, ScannerOptions.numSyncedThreads]
    rw [synced] at all
    cases all

/-- With one thread, synced accounts take it and the other account is lost. -/
theorem check_loop_loses_account :
    ¬ ∀ (opts : ScannerOptions) (threadCount : ℕ) (currentHeight : BlockId)
      (scanHeights : List BlockId) (byDepth : List AccountDepth)
      (byHeight : List ℕ), 0 < threadCount → scanHeights ≠ [] →
      0 ≤ opts.splitSyncThreads → opts.splitSyncThreads ≤ 1 →
      byDepth.Perm (accountDepths opts currentHeight scanHeights) →
      byHeight.Perm (List.range scanHeights.length) →
      (checkLoop opts threadCount byDepth byHeight).flatten.Perm
        (List.range scanHeights.length) := by
  intro always
  have partition := always sampleOptions 1 100 [95, 20]
    (accountDepths sampleOptions 100 [95, 20]) [1, 0] (by decide) (by decide)
    (by norm_num [sampleOptions]) (by norm_num [sampleOptions]) (.refl _)
    (by decide)
  have all : sampleOptions.numSyncedThreads 1 = 1 := by
    norm_num [sampleOptions, ScannerOptions.numSyncedThreads]
  have fewer : (checkLoop sampleOptions 1
      (accountDepths sampleOptions 100 [95, 20]) [1, 0]).flatten.length < 2 := by
    refine assignByDepth_loses ?_ all (by decide) (by decide)
    norm_num [sampleOptions]
  exact absurd partition.length_eq (Nat.ne_of_lt fewer)

end XfoLws.Scanner
