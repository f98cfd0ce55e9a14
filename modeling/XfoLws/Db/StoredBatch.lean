import XfoLws.Db.PowTable
import XfoLws.Lib.LinkedChain

/-!
# Accepted batches

A batch that `sync_pow` accepts is stored at its heights, over a chain that
stays as it is up to the first block of the batch.  `update` compares one hash
of a batch with the stored one; where hashes name their predecessors, this
settles all of them.
-/

namespace XfoLws.Db

/-- The hashes are stored from `start` on, and nothing changed up to there. -/
structure BatchStored (db next : Db) (start : BlockId) (hashes : List Hash) :
    Prop where
  batch : ∀ index hash, hashes[index]? = some hash →
    ⟨start + index, hash⟩ ∈ next.blocks
  below : ∀ row : BlockInfo, row.id ≤ start →
    (row ∈ next.blocks ↔ row ∈ db.blocks)

variable {env : Env} {db middle next : Db} {start : BlockId}
  {hashes chain : List Hash} {pow : List PowSync}

theorem syncPow_overlap (success : syncPow env db start hashes pow = .ok next) :
    ∃ first chain, hashes = first :: chain ∧ ⟨start, first⟩ ∈ db.blocks := by
  unfold syncPow at success
  split at success
  · cases success
  rename_i first chain
  split at success
  · cases success
  split at success
  · cases success
  rename_i row found
  split at success
  · cases success
  rename_i same
  obtain ⟨member, rfl⟩ := SortedRows.find?_eq_some.mp found
  obtain rfl := not_not.mp same
  exact ⟨row.hash, chain, rfl, member⟩

/-- Where the comparison of `sync_pow` stopped. -/
structure WalkStopped (db : Db) (start : BlockId) (chain : List Hash)
    (stop : WalkEnd) (count : ℕ) : Prop where
  within : count ≤ chain.length
  rest : stop.chain = chain.drop count
  current : stop.chain ≠ [] → stop.current = start + 1 + count
  mismatch : ∀ row, stop.mismatch = some row →
    stop.chain ≠ [] ∧ row.id = stop.current
  same : ∀ index hash, index < count → chain[index]? = some hash →
    ⟨start + 1 + index, hash⟩ ∈ db.blocks

theorem walkStopped (fits : start + 1 + chain.length ≤ 2 ^ 64) {stop : WalkEnd}
    (walked : syncPowWalk env (db.blocksAfter start) (wrap64 (start + 1))
      chain = .ok stop) :
    ∃ count, WalkStopped db start chain stop count := by
  have small : ∀ index < chain.length,
      wrap64 (start + 1 + index) = start + 1 + index :=
    fun index inside => Nat.mod_eq_of_lt (by lia)
  have stopped := syncPowWalk_ok walked
  have bounds := agreed_le sameBlock (db.blocksAfter start)
    (numbered (start + 1) chain)
  have agrees := @agreed_spec sameBlock (db.blocksAfter start)
    (numbered (start + 1) chain)
  generalize agreed sameBlock (db.blocksAfter start)
    (numbered (start + 1) chain) = count at stopped bounds agrees
  have within : count ≤ chain.length := by
    simpa [numbered] using bounds.2
  subst stopped
  refine ⟨count, within, rfl, ?_, ?_, ?_⟩
  · intro nonempty
    refine small count ?_
    rcases Nat.lt_or_eq_of_le within with inside | rfl
    · exact inside
    · exact absurd List.drop_length nonempty
  · intro row found
    dsimp only at found ⊢
    split at found
    · cases found
    rename_i nonempty
    obtain ⟨-, keyed⟩ := Option.filter_eq_some_iff.mp found
    refine ⟨fun empty => ?_, by simpa using keyed⟩
    rw [empty] at nonempty
    exact nonempty rfl
  · intro index hash counted read
    obtain ⟨row, entry, stored, listed, same⟩ := agrees counted
    rw [getElem?_numbered, read, small index (counted.trans_le within)]
      at listed
    cases listed
    obtain ⟨keyed, hashed⟩ : row.id = start + 1 + index ∧ row.hash = hash := by
      simpa [sameBlock] using same
    have member := (List.mem_filter.mp (List.mem_of_getElem? stored)).1
    rw [← keyed, ← hashed]
    exact member

namespace WalkStopped

variable {stop : WalkEnd} {count : ℕ}

theorem kept (stopped : WalkStopped db start chain stop count)
    (cut : Cut db stop middle) {row : BlockInfo}
    (below : row.id < start + 1 + count) :
    row ∈ middle.blocks ↔ row ∈ db.blocks := by
  rcases cut with ⟨-, blocks, -⟩ | ⟨other, mismatch, blocks, -⟩
  · rw [blocks]
  · obtain ⟨nonempty, keyed⟩ := stopped.mismatch other mismatch
    rw [blocks, dropBlocks, SortedRows.mem_filter, keyed,
      stopped.current nonempty]
    exact and_iff_left (by simpa using below)

theorem appended (stopped : WalkStopped db start chain stop count)
    (fits : start + 1 + chain.length ≤ 2 ^ 64) (cut : Cut db stop middle)
    {row : BlockInfo} (below : row.id < start + 1 + count) :
    row ∈ (middle.appendBlockHashes stop.current stop.chain).blocks ↔
      row ∈ db.blocks := by
  by_cases empty : stop.chain = []
  · rw [empty, ← stopped.kept cut below]
    rfl
  · have current := stopped.current empty
    have length : stop.chain.length = chain.length - count := by
      rw [stopped.rest, List.length_drop]
    have within := stopped.within
    rw [mem_appendBlockHashes (by lia), stopped.kept cut below]
    constructor
    · rintro (⟨index, -, keyed⟩ | ⟨stored, -⟩)
      · lia
      · exact stored
    · exact fun stored => .inr ⟨stored, by lia⟩

theorem written (stopped : WalkStopped db start chain stop count)
    (fits : start + 1 + chain.length ≤ 2 ^ 64) {index : ℕ} {hash : Hash}
    (beyond : count ≤ index) (read : chain[index]? = some hash) :
    ⟨start + 1 + index, hash⟩ ∈
      (middle.appendBlockHashes stop.current stop.chain).blocks := by
  have inside := (List.getElem?_eq_some_iff.mp read).1
  have length : stop.chain.length = chain.length - count := by
    rw [stopped.rest, List.length_drop]
  have current := stopped.current (List.ne_nil_of_length_pos (by lia))
  rw [mem_appendBlockHashes (by lia)]
  refine .inl ⟨index - count, ?_, ?_⟩
  · rw [stopped.rest, List.getElem?_drop, Nat.add_sub_cancel' beyond]
    exact read
  · dsimp only
    lia

end WalkStopped

theorem syncPow_stores (success : syncPow env db start hashes pow = .ok next)
    (fits : start + hashes.length ≤ 2 ^ 64) :
    BatchStored db next start hashes := by
  obtain ⟨first, chain, rfl, overlap⟩ := syncPow_overlap success
  obtain ⟨stop, middle, walked, cut, -, -, rfl⟩ := syncPow_writes success
  rw [List.length_cons] at fits
  rw [List.tail_cons] at walked
  obtain ⟨count, stopped⟩ := walkStopped (by lia) walked
  have appended : ∀ row : BlockInfo, row.id < start + 1 + count →
      (row ∈ (middle.appendBlockHashes stop.current stop.chain).blocks ↔
        row ∈ db.blocks) :=
    fun row below => stopped.appended (by lia) cut below
  refine ⟨fun index hash read => ?_, fun row below => appended row (by lia)⟩
  cases index with
  | zero =>
      cases read
      refine (appended _ ?_).mpr overlap
      dsimp only
      lia
  | succ index =>
      rw [List.getElem?_cons_succ] at read
      rw [show start + (index + 1) = start + 1 + index by lia]
      by_cases counted : index < count
      · exact (appended _ (by dsimp only; lia)).mpr
          (stopped.same index hash counted read)
      · exact stopped.written (by lia) (Nat.le_of_not_lt counted) read

/-! ## Where batches start -/

/-- The blocks are contiguous up to the last one with proof of work. -/
def BlocksToPow (db : Db) : Prop :=
  ∀ pow ∈ db.pows, ∀ height ≤ pow.id, ∃ row ∈ db.blocks, row.id = height

private theorem le_of_ascending {heights : List ℕ} {low index height : ℕ}
    (ascending : heights.Pairwise (· < ·)) (above : ∀ other ∈ heights,
      low ≤ other) (read : heights[index]? = some height) :
    low + index ≤ height := by
  induction heights generalizing low index with
  | nil => cases read
  | cons first heights induction =>
      obtain ⟨under, ascending⟩ := List.pairwise_cons.mp ascending
      have least := above first List.mem_cons_self
      cases index with
      | zero =>
          cases read
          exact least
      | succ index =>
          have further := @induction (low + 1) index ascending
            (fun other member => least.trans_lt (under other member)) read
          lia

private theorem length_of_nextRows {count : ℕ} {rows read : List BlockPow}
    (success : nextRows count rows = .ok read) : count ≤ rows.length := by
  induction count generalizing rows read with
  | zero => exact Nat.zero_le _
  | succ count induction =>
      cases rows with
      | nil => cases success
      | cons row rows =>
          obtain ⟨later, rest, -⟩ := Outcome.map_eq_ok.mp success
          exact Nat.succ_le_succ (induction rest)

/-- A window is read only up to a height with proof of work. -/
theorem getPowWindow_reaches {blocksCount checkWindow : ℕ} {last : BlockId}
    {window : PowWindow} (positive : last ≠ 0)
    (success : getPowWindow blocksCount checkWindow db last = .ok window) :
    ∃ pow ∈ db.pows, last ≤ pow.id := by
  unfold getPowWindow at success
  rw [if_neg positive] at success
  obtain ⟨rows, read, -⟩ := Outcome.bind_eq_ok.mp success
  unfold powRows at read
  split at read
  · cases read
  have start : windowStart blocksCount last ≤ last := by
    unfold windowStart
    split <;> lia
  generalize windowStart blocksCount last = next at read start
  have enough := length_of_nextRows read
  have ascending : ((db.pows.rows.filter fun row => next ≤ row.id).map
      BlockPow.id).Pairwise (· < ·) :=
    List.pairwise_map.mpr (db.pows.sorted.filter _)
  obtain ⟨pow, found⟩ : ∃ pow, (db.pows.rows.filter
      fun row => next ≤ row.id)[last - next]? = some pow :=
    ⟨_, List.getElem?_eq_getElem (by lia)⟩
  have member := List.mem_of_getElem? found
  have above : ∀ height ∈ (db.pows.rows.filter
      fun row => next ≤ row.id).map BlockPow.id, next ≤ height := by
    intro height listed
    obtain ⟨row, kept, rfl⟩ := List.mem_map.mp listed
    simpa using (List.mem_filter.mp kept).2
  have higher := @le_of_ascending _ next (last - next) pow.id ascending above
    (by rw [List.getElem?_map, found]; rfl)
  exact ⟨pow, (List.mem_filter.mp member).1, by lia⟩

theorem BlocksToPow.below (contiguous : BlocksToPow db)
    {blocksCount checkWindow : ℕ} {window : PowWindow}
    (success : getPowWindow blocksCount checkWindow db start = .ok window) :
    ∀ lower < start, ∃ row ∈ db.blocks, row.id = lower := by
  intro lower under
  obtain ⟨pow, stored, reached⟩ :=
    getPowWindow_reaches (Nat.ne_zero_of_lt under) success
  exact contiguous pow stored lower (by lia)

/-! ## Batches of `update` -/

/-- `update` compares a batch that ends at `last` with a stored block. -/
def Compares (env : Env) (db : Db) (last : BlockId) : Prop :=
  env.getMaxHeight ≤ last ∨ ∃ row ∈ db.blocks, row.id = last

/-- What is stored of the chain, by height. -/
def chainRows (db : Db) : Set (ℕ × Hash) :=
  {place | ∃ row ∈ db.blocks, place = (row.id, row.hash)}

/-- The stored hashes are those of one chain. -/
def StoresChain (parent : Hash → Hash) (db : Db) : Prop :=
  OneChain parent db.chainRows

/-- The hash is that of the stored chain at a height, whether or not the row
of this height is there: all blocks stored above descend from it. -/
def OnStoredChain (parent : Hash → Hash) (db : Db) (height : BlockId)
    (hash : Hash) : Prop :=
  (∃ row ∈ db.blocks, height ≤ row.id) ∧ ∀ row ∈ db.blocks,
    height ≤ row.id → HasAncestor parent (row.id, row.hash) (height, hash)

/-- The batch meets the stored chain at `row`, and only one of the two goes on
from there. -/
structure Meets (db next : Db) (start : BlockId) (chain : List Hash)
    (row : BlockInfo) : Prop where
  stored : row ∈ db.blocks
  above : start ≤ row.id
  read : chain[row.id - start]? = some row.hash
  after : row.id - start + 1 = chain.length ∧ next.blocks = db.blocks ∨
    (∀ other ∈ db.blocks, other.id ≤ row.id) ∧
      next.blocks = (db.appendBlockHashes (row.id + 1)
        (chain.drop (row.id - start + 1))).blocks

section Update

variable {users : List ScannedAccount} {out : Updated} {parent : Hash → Hash}
  {row : BlockInfo}

theorem update_meets (some : chain ≠ [])
    (fits : start + chain.length < 2 ^ 64)
    (compares : Compares env db (start + (chain.length - 1)))
    (success : update env db start chain users pow = .ok (next, out)) :
    ∃ row, Meets db next start chain row := by
  have positive := List.length_pos_iff.mpr some
  have last : wrap64 (start + (chain.length - 1)) =
      start + (chain.length - 1) := Nat.mod_eq_of_lt (by lia)
  rcases update_ok success with ⟨nothing, -⟩ |
    ⟨-, lastUpdate, checked, final, equality, blocks, folded, rfl, -⟩
  · exact absurd nothing some
  have unchanged : (final.flush lastUpdate).db.blocks = checked.blocks :=
    (updateUsers_eq folded).1
  have whole : ∀ row ∈ db.blocks, row.id = start + (chain.length - 1) →
      chain.getLast? = Option.some row.hash → checked.blocks = db.blocks →
      Meets db (final.flush lastUpdate).db start chain row := by
    intro row stored keyed read same
    refine ⟨stored, by lia, ?_, .inl ⟨by lia, unchanged.trans same⟩⟩
    rw [List.getLast?_eq_getElem?] at read
    rw [keyed, Nat.add_sub_cancel_left]
    exact read
  rw [equality] at blocks
  unfold updateBlocks at blocks
  split at blocks
  · obtain ⟨row, stored, pows, ⟨keyed, read, rfl⟩ |
      ⟨found, behind, ahead, -, read, rfl⟩⟩ :=
      updateChain_appends some ⟨by lia, by lia⟩ blocks
    · exact ⟨row, whole row stored (keyed.trans last) read rfl⟩
    · exact ⟨row, stored, behind, read,
        .inr ⟨(lastBlockId_greatest found).2, unchanged⟩⟩
  · rename_i hardened
    rw [last] at blocks hardened
    obtain ⟨row, stored, keyed⟩ := compares.resolve_left hardened
    have same := updateHardened_eq blocks
    unfold updateHardened at blocks
    rw [SortedRows.find?_eq_some.mpr ⟨stored, keyed⟩] at blocks
    dsimp only at blocks
    split at blocks
    · cases blocks
    rename_i read
    exact ⟨row, whole row stored keyed (not_not.mp read) (by rw [same])⟩

namespace Meets

theorem kept (meets : Meets db next start chain row)
    (fits : start + chain.length < 2 ^ 64) : row ∈ next.blocks := by
  have above := meets.above
  have inside := (List.getElem?_eq_some_iff.mp meets.read).1
  rcases meets.after with ⟨-, blocks⟩ | ⟨-, blocks⟩
  · rw [blocks]
    exact meets.stored
  · rw [blocks, mem_appendBlockHashes (by rw [List.length_drop]; lia)]
    exact .inr ⟨meets.stored, by lia⟩

theorem written (meets : Meets db next start chain row)
    (fits : start + chain.length < 2 ^ 64) {index : ℕ} {hash : Hash}
    (beyond : row.id < start + index) (read : chain[index]? = some hash) :
    ⟨start + index, hash⟩ ∈ next.blocks := by
  have above := meets.above
  have inside := (List.getElem?_eq_some_iff.mp read).1
  rcases meets.after with ⟨last, -⟩ | ⟨-, blocks⟩
  · lia
  · rw [blocks, mem_appendBlockHashes (by rw [List.length_drop]; lia)]
    refine .inl ⟨start + index - (row.id + 1), ?_, ?_⟩
    · rw [List.getElem?_drop, ← read]
      congr 1
      lia
    · dsimp only
      lia

theorem rows (meets : Meets db next start chain row)
    (fits : start + chain.length < 2 ^ 64) {other : BlockInfo}
    (stored : other ∈ next.blocks) :
    (other.id, other.hash) ∈ db.chainRows ∪ placed start chain := by
  have above := meets.above
  have inside := (List.getElem?_eq_some_iff.mp meets.read).1
  rcases meets.after with ⟨-, blocks⟩ | ⟨-, blocks⟩
  · rw [blocks] at stored
    exact .inl ⟨other, stored, rfl⟩
  · rw [blocks, mem_appendBlockHashes (by rw [List.length_drop]; lia)]
      at stored
    rcases stored with ⟨index, read, keyed⟩ | ⟨old, -⟩
    · rw [List.getElem?_drop] at read
      exact .inr ⟨_, read, by dsimp only; lia⟩
    · exact .inl ⟨other, old, rfl⟩

/-- The stored chain goes on with the batch. -/
theorem oneChain (meets : Meets db next start chain row)
    (stores : StoresChain parent db) (linked : LinkedList parent chain) :
    OneChain parent (db.chainRows ∪ placed start chain) := by
  have above := meets.above
  have stored : (start + (row.id - start), row.hash) ∈ db.chainRows := by
    rw [Nat.add_sub_cancel' above]
    exact ⟨row, meets.stored, rfl⟩
  have ends : (∀ place ∈ db.chainRows,
      place.1 ≤ start + (row.id - start)) ∨
        row.id - start + 1 = chain.length := by
    rcases meets.after with ⟨last, -⟩ | ⟨top, -⟩
    · exact .inr last
    · left
      rintro place ⟨other, otherStored, rfl⟩
      rw [Nat.add_sub_cancel' above]
      exact top other otherStored
  exact stores.extend linked meets.read stored ends

theorem storesChain (meets : Meets db next start chain row)
    (fits : start + chain.length < 2 ^ 64) (stores : StoresChain parent db)
    (linked : LinkedList parent chain) : StoresChain parent next := by
  refine (meets.oneChain stores linked).subset ?_
  rintro place ⟨other, stored, rfl⟩
  exact meets.rows fits stored

/-- All hashes of the batch, and those stored, are on the chain that is stored
then. -/
theorem onStoredChain (meets : Meets db next start chain row)
    (fits : start + chain.length < 2 ^ 64) (stores : StoresChain parent db)
    (linked : LinkedList parent chain) {height : BlockId} {hash : Hash}
    (known : (height, hash) ∈ db.chainRows ∪ placed start chain)
    (below : height < start + chain.length) :
    OnStoredChain parent next height hash := by
  have above := meets.above
  refine ⟨?_, fun other otherStored higher =>
    meets.oneChain stores linked _ known _ (meets.rows fits otherStored) higher⟩
  by_cases under : height ≤ row.id
  · exact ⟨row, meets.kept fits, under⟩
  · have read := List.getElem?_eq_getElem
      (show height - start < chain.length by lia)
    refine ⟨_, meets.written fits ?_ read, ?_⟩
    · lia
    · dsimp only
      lia

end Meets

end Update

end XfoLws.Db
