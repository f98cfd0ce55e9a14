import XfoLws.Db.AccountIndexes
import Mathlib.Data.List.TakeWhile

/-!
# Replaced blocks

What a call does to the block table is described by a cut and the hashes it
writes.  Accounts, rows and events are rolled back by the cut alone, so a
stored hash that is overwritten without one leaves them behind.
-/

namespace XfoLws.Db

/-- A stored hash of `db` that the call removed or replaced. -/
def Replaced (db next : Db) (height : BlockId) : Prop :=
  ∃ row ∈ db.blocks, row.id = height ∧ row ∉ next.blocks

/-- No account is scanned to `height`, and no row refers to a block from
there on. -/
structure NothingFrom (db : Db) (height : BlockId) : Prop where
  accounts : ∀ row ∈ db.accounts, row.2.scanHeight < height
  outputs : ∀ row ∈ db.outputs, row.2.link.height < height
  spends : ∀ row ∈ db.spends, row.2.link.height < height
  events : ∀ row ∈ db.events, row.2.link.tx.height < height

/-- A rollback to `cut` reaches everything from `height` on: the accounts end
below, and the rows above belong to accounts the rollback moves. -/
structure Reaches (db : Db) (cut height : BlockId) : Prop where
  accounts : ∀ row ∈ db.accounts,
    (row.2.rolledBack cut).scanHeight < height
  outputs : ∀ row ∈ db.outputs, height ≤ row.2.link.height →
    cut ≤ row.2.link.height ∧ db.ScannedTo cut row.1
  spends : ∀ row ∈ db.spends, height ≤ row.2.link.height →
    cut ≤ row.2.link.height ∧ db.ScannedTo cut row.1
  events : ∀ row ∈ db.events, height ≤ row.2.link.tx.height →
    cut ≤ row.2.link.tx.height

/-- How a call rewrites the block table: the stored rows from `fst` of the
cut on are removed and the rest is rolled back to its `snd`; then `hashes` are
written from `first` on. -/
structure Rewrite where
  cut : Option (BlockId × BlockId)
  first : BlockId
  hashes : List Hash

namespace Rewrite

/-- The last hash written at a height. -/
def hashAt (rewrite : Rewrite) (id : BlockId) : Option Hash :=
  ((numbered rewrite.first rewrite.hashes).reverse.find? fun entry =>
    entry.1 = id).map Prod.snd

/-- A stored row goes when another hash is written at its height, or nothing
is written there and the cut covers it. -/
def Drops (rewrite : Rewrite) (row : BlockInfo) : Prop :=
  match rewrite.hashAt row.id with
  | some hash => hash ≠ row.hash
  | none => ∃ cut ∈ rewrite.cut, cut.1 ≤ row.id

/-- Without a cut nothing is rolled back, so nothing may lie above a hash that
is overwritten; with one, the rollback has to reach what lies above. -/
def Safe (rewrite : Rewrite) (db : Db) : Prop :=
  match rewrite.cut with
  | none => ∀ row ∈ db.blocks,
      (∃ hash, rewrite.hashAt row.id = some hash ∧ hash ≠ row.hash) →
        NothingFrom db row.id
  | some cut => ∀ row ∈ db.blocks, rewrite.Drops row →
      Reaches db cut.2 row.id

end Rewrite

/-! ## Comparing a response with the stored rows -/

theorem numbered_cons {α : Type} (first : BlockId) (head : α)
    (rest : List α) :
    numbered first (head :: rest) =
      (wrap64 first, head) :: numbered (first + 1) rest := by
  unfold numbered
  rw [List.zipIdx_cons, List.map_cons, Nat.add_zero, Nat.zero_add,
    List.zipIdx_succ, List.map_map]
  congr 2
  funext entry
  simp only [Function.comp_apply]
  rw [Nat.add_assoc, Nat.add_comm 1]

/-- How many of the rows stored above a response's first block it repeats. -/
def agreed (same : BlockInfo → BlockId × Hash → Bool)
    (stored : List BlockInfo) (chain : List (BlockId × Hash)) : ℕ :=
  ((stored.zip chain).takeWhile fun pair => same pair.1 pair.2).length

theorem agreed_le (same : BlockInfo → BlockId × Hash → Bool)
    (stored : List BlockInfo) (chain : List (BlockId × Hash)) :
    agreed same stored chain ≤ stored.length ∧
      agreed same stored chain ≤ chain.length := by
  have bound : agreed same stored chain ≤ (stored.zip chain).length :=
    (List.takeWhile_prefix _).length_le
  rw [List.length_zip] at bound
  exact ⟨bound.trans (Nat.min_le_left _ _), bound.trans (Nat.min_le_right _ _)⟩

theorem agreed_spec {same : BlockInfo → BlockId × Hash → Bool}
    {stored : List BlockInfo} {chain : List (BlockId × Hash)} {index : ℕ}
    (counted : index < agreed same stored chain) :
    ∃ row entry, stored[index]? = some row ∧ chain[index]? = some entry ∧
      same row entry = true := by
  unfold agreed at counted
  have holds := List.mem_takeWhile_imp (List.getElem_mem counted)
  have kept := List.takeWhile_prefix (l := stored.zip chain)
    fun pair => same pair.1 pair.2
  have read := List.getElem?_eq_getElem (counted.trans_le kept.length_le)
  rw [← kept.getElem counted] at read
  obtain ⟨rowRead, entryRead⟩ := List.getElem?_zip_eq_some.mp read
  exact ⟨_, _, rowRead, entryRead, holds⟩

/-- `sync_chain` compares hashes by position. -/
def sameHash (row : BlockInfo) (entry : BlockId × Hash) : Bool :=
  row.hash = entry.2

/-- `sync_pow` also compares heights. -/
def sameBlock (row : BlockInfo) (entry : BlockId × Hash) : Bool :=
  row.id = entry.1 && row.hash = entry.2

theorem wrap64_succ (value : ℕ) :
    wrap64 (wrap64 value + 1) = wrap64 (value + 1) := by
  unfold wrap64
  omega

/-- The comparison loop of `sync_chain` stops behind the agreeing rows. -/
theorem syncChainWalk_eq (stored : List BlockInfo) (first : BlockId)
    (chain : List Hash) :
    syncChainWalk stored (wrap64 first) chain =
      let count := agreed sameHash stored (numbered first chain)
      ⟨wrap64 (first + count), chain.drop count,
        if (chain.drop count).isEmpty then none
        else (stored.drop count).head?⟩ := by
  induction stored generalizing first chain with
  | nil =>
      simp [syncChainWalk, agreed]
  | cons row stored induction =>
      cases chain with
      | nil => simp [syncChainWalk, agreed, numbered]
      | cons hash chain =>
          rw [numbered_cons]
          by_cases same : row.hash = hash
          · have step : agreed sameHash (row :: stored)
                ((wrap64 first, hash) :: numbered (first + 1) chain) =
                agreed sameHash stored (numbered (first + 1) chain) + 1 := by
              simp [agreed, sameHash, same]
            rw [syncChainWalk, if_neg (by simpa using same), wrap64_succ,
              induction, step]
            simp [Nat.add_assoc, Nat.add_comm 1]
          · have stop : agreed sameHash (row :: stored)
                ((wrap64 first, hash) :: numbered (first + 1) chain) = 0 := by
              simp [agreed, sameHash, same]
            rw [syncChainWalk, if_pos same, stop]
            simp

/-- The comparison loop of `sync_pow` stops there too; a row at another height
is not a mismatch. -/
theorem syncPowWalk_ok {env : Env} {stored : List BlockInfo}
    {first : BlockId} {chain : List Hash} {stop : WalkEnd}
    (success : syncPowWalk env stored (wrap64 first) chain = .ok stop) :
    stop =
      let count := agreed sameBlock stored (numbered first chain)
      ⟨wrap64 (first + count), chain.drop count,
        if (chain.drop count).isEmpty then none
        else (stored.drop count).head?.filter fun row =>
          row.id = wrap64 (first + count)⟩ := by
  induction chain generalizing first stored with
  | nil =>
      unfold syncPowWalk at success
      cases success
      simp [agreed, numbered]
  | cons hash chain induction =>
      rw [numbered_cons]
      unfold syncPowWalk at success
      split at success
      · cases success
      cases stored with
      | nil =>
          cases success
          simp [agreed]
      | cons row stored =>
          dsimp only at success
          by_cases sameId : row.id = wrap64 first
          · rw [if_neg (by simpa using sameId)] at success
            by_cases same : row.hash = hash
            · have step : agreed sameBlock (row :: stored)
                  ((wrap64 first, hash) :: numbered (first + 1) chain) =
                  agreed sameBlock stored (numbered (first + 1) chain) + 1 := by
                simp [agreed, sameBlock, sameId, same]
              rw [if_neg (by simpa using same), wrap64_succ] at success
              rw [induction success, step]
              simp [Nat.add_assoc, Nat.add_comm 1]
            · have stop : agreed sameBlock (row :: stored)
                  ((wrap64 first, hash) :: numbered (first + 1) chain) = 0 := by
                simp [agreed, sameBlock, same]
              rw [if_pos same] at success
              split at success
              · cases success
              · cases success
                rw [stop]
                simp [Option.filter, sameId]
          · have stop : agreed sameBlock (row :: stored)
                ((wrap64 first, hash) :: numbered (first + 1) chain) = 0 := by
              simp [agreed, sameBlock, sameId]
            rw [if_pos sameId] at success
            cases success
            rw [stop]
            simp [Option.filter, sameId]

/-! ## The effect on the tables -/

private theorem mem_appended {db : Db} {rewrite : Rewrite}
    {row : BlockInfo} :
    row ∈ (db.appendBlockHashes rewrite.first rewrite.hashes).blocks ↔
      match rewrite.hashAt row.id with
      | some hash => hash = row.hash
      | none => row ∈ db.blocks := by
  simp only [appendBlockHashes, bulkInsert_overwrite,
    SortedRows.mem_putAll_iff, Rewrite.hashAt, ← List.map_reverse,
    List.find?_map]
  generalize (numbered rewrite.first rewrite.hashes).reverse = entries
  have samePredicate : ((fun new : BlockInfo => decide (new.id = row.id)) ∘
      fun entry : BlockId × Hash => (⟨entry.1, entry.2⟩ : BlockInfo)) =
      fun entry => decide (entry.1 = row.id) := rfl
  rw [samePredicate]
  cases found : entries.find? fun entry => decide (entry.1 = row.id) with
  | none => rfl
  | some entry =>
      have sameId : entry.1 = row.id := by simpa using List.find?_some found
      obtain ⟨id, hash⟩ := row
      simp [show entry.1 = id from sameId]

/-- A rewrite as the chain calls carry it out. -/
structure Rewrites (rewrite : Rewrite) (db middle next : Db) : Prop where
  rolledBack : match rewrite.cut with
    | none => middle = db
    | some cut => db.rollbackChain cut.1 cut.2 = .ok middle
  next_eq : ∃ pows, next =
    { middle with
      blocks := (middle.appendBlockHashes rewrite.first rewrite.hashes).blocks
      pows := pows }

namespace Rewrites

variable {rewrite : Rewrite} {db middle next : Db}

/-- A stored row is missing afterwards exactly when the rewrite drops it. -/
theorem dropped_iff (agree : Agreement [] db)
    (rewrites : Rewrites rewrite db middle next) {row : BlockInfo}
    (member : row ∈ db.blocks) :
    row ∉ next.blocks ↔ rewrite.Drops row := by
  obtain ⟨_, rfl⟩ := rewrites.next_eq
  rw [mem_appended, Rewrite.Drops]
  cases rewrite.hashAt row.id with
  | some hash => rfl
  | none =>
      have rolledBack := rewrites.rolledBack
      cases cutAt : rewrite.cut with
      | none =>
          rw [cutAt] at rolledBack
          obtain rfl := rolledBack
          simp [member]
      | some cut =>
          rw [cutAt] at rolledBack
          obtain ⟨_, _, _, _, _, _, _, rfl⟩ :=
            (rollbackChain_ok agree rolledBack).frame
          simp [member]

/-- After a rollback nothing is left from a height on exactly when the
rollback reached all of it. -/
theorem nothingFrom_iff {first cut : BlockId}
    (rolled : ChainRolledBack first cut db next) {height : BlockId} :
    NothingFrom next height ↔ Reaches db cut height := by
  have events : ∀ row, row ∈ next.events ↔
      row ∈ db.events ∧ ¬ cut ≤ row.2.link.tx.height := by
    obtain ⟨_, _, _, _, _, _, _, rfl⟩ := rolled.frame
    simp [rollbackEvents]
  constructor
  · intro nothing
    refine ⟨?_, ?_, ?_, ?_⟩
    · intro row member
      exact nothing.accounts _ ((rolled.accounts _).mpr ⟨row, member, rfl⟩)
    · intro row member above
      by_contra kept
      exact Nat.not_lt_of_le above
        (nothing.outputs row ((rolled.outputs row).mpr ⟨member, kept⟩))
    · intro row member above
      by_contra kept
      exact Nat.not_lt_of_le above
        (nothing.spends row ((rolled.spends row).mpr ⟨member, kept⟩))
    · intro row member above
      by_contra kept
      exact Nat.not_lt_of_le above
        (nothing.events row ((events row).mpr ⟨member, kept⟩))
  · intro reaches
    refine ⟨?_, ?_, ?_, ?_⟩
    · intro row member
      obtain ⟨old, oldMember, rfl⟩ := (rolled.accounts row).mp member
      exact reaches.accounts old oldMember
    · intro row member
      obtain ⟨stored, kept⟩ := (rolled.outputs row).mp member
      by_contra above
      exact kept (reaches.outputs row stored (Nat.le_of_not_lt above))
    · intro row member
      obtain ⟨stored, kept⟩ := (rolled.spends row).mp member
      by_contra above
      exact kept (reaches.spends row stored (Nat.le_of_not_lt above))
    · intro row member
      obtain ⟨stored, kept⟩ := (events row).mp member
      by_contra above
      exact kept (reaches.events row stored (Nat.le_of_not_lt above))

/-- The blocks appended afterwards do not matter. -/
private theorem nothingFrom_appended {height : BlockId}
    (appended : ∃ blocks pows, next =
      { middle with blocks := blocks, pows := pows }) :
    NothingFrom next height ↔ NothingFrom middle height := by
  obtain ⟨_, _, rfl⟩ := appended
  exact ⟨fun nothing => ⟨nothing.accounts, nothing.outputs, nothing.spends,
      nothing.events⟩,
    fun nothing => ⟨nothing.accounts, nothing.outputs, nothing.spends,
      nothing.events⟩⟩

theorem safe_iff (agree : Agreement [] db)
    (rewrites : Rewrites rewrite db middle next) :
    (∀ height, Replaced db next height → NothingFrom next height) ↔
      rewrite.Safe db := by
  have dropping :
      (∀ height, Replaced db next height → NothingFrom next height) ↔
      ∀ row ∈ db.blocks, rewrite.Drops row → NothingFrom middle row.id := by
    have appended : ∃ blocks pows, next =
        { middle with blocks := blocks, pows := pows } := by
      obtain ⟨pows, equality⟩ := rewrites.next_eq
      exact ⟨_, pows, equality⟩
    constructor
    · intro rollsBack row member drops
      rw [← nothingFrom_appended appended]
      exact rollsBack row.id
        ⟨row, member, rfl, (rewrites.dropped_iff agree member).mpr drops⟩
    · rintro safe height ⟨row, member, sameHeight, lost⟩
      rw [nothingFrom_appended appended, ← sameHeight]
      exact safe row member ((rewrites.dropped_iff agree member).mp lost)
  rw [dropping, Rewrite.Safe]
  have rolledBack := rewrites.rolledBack
  cases cutAt : rewrite.cut with
  | none =>
      rw [cutAt] at rolledBack
      obtain rfl := rolledBack
      refine forall₂_congr fun row _ => imp_congr_left ?_
      unfold Rewrite.Drops
      rw [cutAt]
      cases rewrite.hashAt row.id <;> simp
  | some cut =>
      rw [cutAt] at rolledBack
      refine forall₂_congr fun row _ => imp_congr_right fun _ => ?_
      exact nothingFrom_iff (rollbackChain_ok agree rolledBack)

end Rewrites

/-! ## The calls -/

/-- How a call rewrites the block table, read off its arguments and the
stored rows.  `update` appends behind the last stored row or not at all. -/
def rewriteOf (db : Db) : Operation → Rewrite
  | .rollback height =>
      ⟨if (db.blocks.find? height).isSome then some (height, height) else none,
        height, []⟩
  | .syncChain height hashes _ =>
      let chain := hashes.drop 1
      let stored := db.blocksAfter height
      let count := agreed sameHash stored (numbered (height + 1) chain)
      let current := wrap64 (height + 1 + count)
      ⟨(if (chain.drop count).isEmpty then none
        else (stored.drop count).head?).map fun row => (row.id, current),
        current, chain.drop count⟩
  | .syncPow height hashes _ =>
      let chain := hashes.drop 1
      let stored := db.blocksAfter height
      let count := agreed sameBlock stored (numbered (height + 1) chain)
      let current := wrap64 (height + 1 + count)
      ⟨(if (chain.drop count).isEmpty then none
        else (stored.drop count).head?.filter fun row =>
          row.id = current).map fun row => (row.id, current),
        current, chain.drop count⟩
  | _ => ⟨none, 0, []⟩

/-- The calls that rewrite the block table, on arguments of their types: a
height of 64 bits and a span whose size has as many. -/
def RewritesBlocks : Operation → Prop
  | .rollback _ | .syncChain _ _ _ | .syncPow _ _ _ => True
  | .update height chain _ _ => height < 2 ^ 64 ∧ chain.length < 2 ^ 64
  | _ => False

private theorem synced_rewrites {db middle next : Db} {stop : WalkEnd}
    (synced : Synced db stop middle next) :
    Rewrites ⟨stop.mismatch.map fun row => (row.id, stop.current),
      stop.current, stop.chain⟩ db middle next := by
  refine ⟨?_, synced.next_eq⟩
  rcases synced.rolledBack with ⟨matched, same⟩ | ⟨row, mismatch, rolled⟩
  · rw [matched]
    exact same
  · rw [mismatch]
    exact rolled

theorem mem_numbered {α : Type} {first : BlockId} {entries : List α}
    {entry : BlockId × α} :
    entry ∈ numbered first entries ↔
      ∃ index, entries[index]? = some entry.2 ∧
        entry.1 = wrap64 (first + index) := by
  unfold numbered
  rw [List.mem_map]
  constructor
  · rintro ⟨⟨value, index⟩, member, equality⟩
    subst entry
    exact ⟨index, List.mem_zipIdx_iff_getElem?.mp member, rfl⟩
  · rintro ⟨index, found, equality⟩
    exact ⟨(entry.2, index), List.mem_zipIdx_iff_getElem?.mpr found,
      by rw [← equality]⟩

theorem getElem?_numbered {α : Type} (first : BlockId) (entries : List α)
    (index : ℕ) :
    (numbered first entries)[index]? =
      entries[index]?.map fun entry => (wrap64 (first + index), entry) := by
  simp [numbered, List.getElem?_zipIdx, Function.comp_def]

theorem mem_appendBlockHashes {db : Db} {first : BlockId}
    {hashes : List Hash} (fits : first + hashes.length ≤ 2 ^ 64)
    {row : BlockInfo} :
    row ∈ (db.appendBlockHashes first hashes).blocks ↔
      (∃ index, hashes[index]? = some row.hash ∧ row.id = first + index) ∨
        (row ∈ db.blocks ∧
          ¬ (first ≤ row.id ∧ row.id < first + hashes.length)) := by
  have unwrapped : ∀ index < hashes.length,
      wrap64 (first + index) = first + index := by
    intro index inside
    exact Nat.mod_eq_of_lt (by lia)
  have written : ∀ new : BlockInfo,
      new ∈ (numbered first hashes).map (fun entry =>
        (⟨entry.1, entry.2⟩ : BlockInfo)) ↔
      ∃ index, hashes[index]? = some new.hash ∧ new.id = first + index := by
    intro new
    rw [List.mem_map]
    constructor
    · rintro ⟨entry, member, equality⟩
      obtain ⟨index, read, id⟩ := mem_numbered.mp member
      rw [unwrapped index (List.getElem?_eq_some_iff.mp read).1] at id
      exact ⟨index, by rw [← equality]; exact read, by rw [← equality]; exact id⟩
    · rintro ⟨index, read, id⟩
      refine ⟨(new.id, new.hash), mem_numbered.mpr ⟨index, read, ?_⟩, rfl⟩
      rw [unwrapped index (List.getElem?_eq_some_iff.mp read).1]
      exact id
  have distinct : ((numbered first hashes).map fun entry =>
      (⟨entry.1, entry.2⟩ : BlockInfo)).Pairwise fun left right =>
        left.id ≠ right.id := by
    rw [List.pairwise_iff_getElem]
    intro left right leftInside rightInside below
    simp only [List.length_map, numbered, List.length_zipIdx] at rightInside
    simp only [numbered, List.getElem_map, List.getElem_zipIdx, Nat.zero_add]
    rw [unwrapped left (by lia), unwrapped right rightInside]
    lia
  rw [appendBlockHashes, bulkInsert_overwrite, SortedRows.mem_putAll distinct,
    written]
  refine or_congr_right (and_congr_right fun _ => ?_)
  constructor
  · rintro untouched ⟨above, below⟩
    have inside : row.id - first < hashes.length := by lia
    refine untouched ⟨row.id, hashes[row.id - first]⟩
      ((written _).mpr ⟨row.id - first, ?_, ?_⟩) rfl
    · exact List.getElem?_eq_getElem inside
    · show row.id = first + (row.id - first)
      lia
  · intro outside new member sameId
    obtain ⟨index, read, id⟩ := (written new).mp member
    have inside := (List.getElem?_eq_some_iff.mp read).1
    refine outside ⟨?_, ?_⟩ <;> lia

theorem lastBlockId_greatest {db : Db} {lastBlock : BlockId}
    (found : db.lastBlockId = .ok lastBlock) :
    (∃ row ∈ db.blocks, row.id = lastBlock) ∧
      ∀ row ∈ db.blocks, row.id ≤ lastBlock := by
  unfold lastBlockId at found
  split at found
  · cases found
  · rename_i last lastFound
    cases found
    obtain ⟨member, greatest⟩ := SortedRows.last?_eq_some lastFound
    exact ⟨⟨last, member, rfl⟩, greatest⟩

private theorem offset_covered {height length : ℕ}
    (range : height < 2 ^ 64 ∧ length < 2 ^ 64) (nonempty : 0 < length) :
    sub64 (wrap64 (height + (length - 1))) height = length - 1 := by
  unfold sub64 wrap64
  omega

private theorem offset_within {height last : ℕ} (behind : height ≤ last)
    (range : last < 2 ^ 64) : sub64 last height = last - height := by
  unfold sub64 wrap64
  omega

/-- Past the last checkpoint a batch is stored already, or it is appended
behind the last stored block. -/
theorem updateChain_appends {db next : Db} {height : BlockId}
    {chain : List Hash} {pow : List PowSync} (nonempty : chain ≠ [])
    (range : height < 2 ^ 64 ∧ chain.length < 2 ^ 64)
    (success : db.updateChain height (wrap64 (height + (chain.length - 1)))
      chain pow = .ok next) :
    ∃ row ∈ db.blocks, ∃ pows,
      (row.id = wrap64 (height + (chain.length - 1)) ∧
        chain.getLast? = some row.hash ∧ next = { db with pows := pows }) ∨
      (db.lastBlockId = .ok row.id ∧ height ≤ row.id ∧
        row.id < height + (chain.length - 1) ∧
        height + (chain.length - 1) < 2 ^ 64 ∧
        chain[row.id - height]? = some row.hash ∧
        next = { db with
          blocks := (db.appendBlockHashes (row.id + 1)
            (chain.drop (row.id - height + 1))).blocks
          pows := pows }) := by
  obtain ⟨lastBlock, row, pows, found, behind, member, sameId, read, rfl⟩ :=
    updateChain_eq_ok success
  have size : 0 < chain.length := List.length_pos_iff.mpr nonempty
  have wrapped : wrap64 (height + (chain.length - 1)) < 2 ^ 64 :=
    Nat.mod_lt _ (by decide)
  by_cases stored : wrap64 (height + (chain.length - 1)) ≤ lastBlock
  · rw [Nat.min_eq_right stored] at sameId
    have offset : sub64 row.id height = chain.length - 1 := by
      rw [sameId]
      exact offset_covered range size
    rw [offset] at read ⊢
    refine ⟨row, member, pows, .inl ⟨sameId, ?_, ?_⟩⟩
    · rw [List.getLast?_eq_getElem?]
      exact read
    · rw [List.drop_eq_nil_of_le (by lia)]
      rfl
  · have ahead : lastBlock < wrap64 (height + (chain.length - 1)) :=
      Nat.lt_of_not_le stored
    rw [Nat.min_eq_left (Nat.le_of_lt ahead)] at sameId
    subst lastBlock
    have offset : sub64 row.id height = row.id - height :=
      offset_within behind (ahead.trans wrapped)
    have unwrapped : height + (chain.length - 1) < 2 ^ 64 := by
      unfold wrap64 at ahead
      lia
    rw [wrap64, Nat.mod_eq_of_lt unwrapped] at ahead
    have first : wrap64 (height + sub64 row.id height + 1) = row.id + 1 := by
      rw [offset, wrap64, Nat.mod_eq_of_lt] <;> lia
    rw [first, offset]
    rw [offset] at read
    exact ⟨row, member, pows, .inr
      ⟨found, behind, ahead, unwrapped, read, rfl⟩⟩

/-- `update` never overwrites a stored hash. -/
theorem updateChain_keeps {db next : Db} {height : BlockId}
    {chain : List Hash} {pow : List PowSync} (nonempty : chain ≠ [])
    (range : height < 2 ^ 64 ∧ chain.length < 2 ^ 64)
    (success : db.updateChain height (wrap64 (height + (chain.length - 1)))
      chain pow = .ok next) {row : BlockInfo} (member : row ∈ db.blocks) :
    row ∈ next.blocks := by
  obtain ⟨last, -, pows, ⟨-, -, rfl⟩ |
    ⟨found, behind, ahead, unwrapped, -, rfl⟩⟩ :=
    updateChain_appends nonempty range success
  · exact member
  · have below := (lastBlockId_greatest found).2 row member
    have size : (chain.drop (last.id - height + 1)).length =
        chain.length - (last.id - height + 1) := List.length_drop
    refine (mem_appendBlockHashes (by lia)).mpr (.inr ⟨member, ?_⟩)
    rintro ⟨above, _⟩
    lia

private theorem update_keeps {env : Env} {db next : Db} {height : BlockId}
    {chain : List Hash} {users : List ScannedAccount} {pow : List PowSync}
    (range : height < 2 ^ 64 ∧ chain.length < 2 ^ 64)
    (success : Step env db (.update height chain users pow) next)
    {row : BlockInfo} (member : row ∈ db.blocks) : row ∈ next.blocks := by
  obtain ⟨⟨final, out⟩, updated, rfl⟩ := Outcome.map_eq_ok.mp success
  rcases update_ok updated with ⟨-, rfl, -⟩ |
    ⟨nonempty, lastUpdate, checked, stored, equality, blocks, folded, rfl, -⟩
  · exact member
  have kept : row ∈ checked.blocks := by
    unfold updateBlocks at blocks
    split at blocks
    · rw [equality] at blocks
      exact updateChain_keeps nonempty range blocks member
    · rw [updateHardened_eq blocks]
      exact member
  have unchanged : stored.db.blocks = checked.blocks :=
    (updateUsers_eq folded).1
  show row ∈ stored.db.blocks
  rw [unchanged]
  exact kept

/-- A replaced hash takes down everything above it exactly when the call rolls
back far enough for every stored row it drops. -/
theorem replaced_rolls_back_iff {env : Env} {db next : Db}
    {operation : Operation} (agree : IndexesAgree db)
    (rewrites : RewritesBlocks operation)
    (success : Step env db operation next) :
    (∀ height, Replaced db next height → NothingFrom next height) ↔
      (rewriteOf db operation).Safe db := by
  have agreement := agree.agreement
  cases operation with
  | rollback height =>
      have rolled : db.rollback height = .ok next := success
      have carried : Rewrites (rewriteOf db (.rollback height)) db next next := by
        refine ⟨?_, _, rfl⟩
        unfold rollback at rolled
        split at rolled
        · rename_i missing
          cases rolled
          simp [rewriteOf, missing]
        · rename_i found
          simpa [rewriteOf, found] using rolled
      exact carried.safe_iff agreement
  | syncChain height hashes regtest =>
      obtain ⟨row, chain, middle, -, -, rfl, synced⟩ := syncChain_ok success
      have carried := synced_rewrites synced
      rw [syncChainWalk_eq] at carried
      exact carried.safe_iff agreement
  | syncPow height hashes pow =>
      obtain ⟨row, chain, stop, middle, -, -, rfl, walked, synced⟩ :=
        syncPow_ok success
      have carried := synced_rewrites synced
      rw [syncPowWalk_ok walked] at carried
      exact carried.safe_iff agreement
  | update height chain users pow =>
      constructor
      · intro _ row _ drops
        simp [rewriteOf, Rewrite.hashAt, numbered] at drops
      · rintro _ height ⟨row, member, _, lost⟩
        exact absurd (update_keeps rewrites success member) lost
  | _ => exact rewrites.elim

/-- A fork at height two of the chain an account was scanned along. -/
theorem replaced_rolls_back_at_fork :
    ∃ next, Step sampleEnv sampleScanned (.syncChain 0 [10, 11, 99] false)
        next ∧
      ((∀ height, Replaced sampleScanned next height →
        NothingFrom next height) ↔
      (rewriteOf sampleScanned (.syncChain 0 [10, 11, 99] false)).Safe
        sampleScanned) :=
  ⟨_, step_after (by decide),
    replaced_rolls_back_iff sampleScanned_indexed.agreement.indexesAgree
      trivial (step_after (by decide))⟩

/-- Checkpoints at heights zero and two. -/
def gapEnv : Env :=
  { sampleEnv with checkpoints := SortedRows.empty.addAll [(0, 10), (2, 12)] }

/-- The new database for `gapEnv`: nothing is stored at height one. -/
def gapDb : Db :=
  { sampleDb with blocks := SortedRows.empty.addAll [⟨0, 10⟩, ⟨2, 12⟩] }

/-- An account scanned to height three, behind the gap. -/
private def gapScanned : Db :=
  afterAll gapEnv gapDb [.addAccount 0 sampleAddress 7 0,
    .update 2 [12, 13] [⟨1, sampleAddress, 2, [], []⟩] []]

private theorem gapScanned_indexed : Indexed gapScanned := by
  have run : Run (fun db operation next =>
      KeepsIndexes gapEnv db operation ∧ Step gapEnv db operation next) gapDb
      [.addAccount 0 sampleAddress 7 0,
        .update 2 [12, 13] [⟨1, sampleAddress, 2, [], []⟩] []] gapScanned := by
    refine .cons ⟨?_, step_after (by decide)⟩
      (.cons ⟨trivial, step_after (by decide)⟩ (.nil _))
    show wrap32 (gapDb.findLastId + 1) ≠ AccountId.invalid
    decide
  exact Indexed.run (.of_empty rfl rfl rfl) run

/-- `sync_pow` meets the checkpoint at height two while it compares height
one, and overwrites the hash at height three without rolling back. -/
theorem gap_is_overwritten :
    ¬ ∀ (env : Env) (db next : Db) (operation : Operation),
      IndexesAgree db → RewritesBlocks operation →
      Step env db operation next →
      ∀ height, Replaced db next height → NothingFrom next height := by
  intro always
  have nothing := always gapEnv gapScanned _
    (.syncPow 0 [10, 11, 12, 99] (List.replicate 4 ⟨0, ⟨0, 0⟩⟩))
    gapScanned_indexed.agreement.indexesAgree trivial
    (step_after (by decide)) 3
    ⟨⟨3, 13⟩, by decide, rfl, by decide⟩
  have scanned : ∃ row ∈ (after gapEnv gapScanned
      (.syncPow 0 [10, 11, 12, 99]
        (List.replicate 4 ⟨0, ⟨0, 0⟩⟩))).accounts.rows,
      ¬ row.2.scanHeight < 3 := by
    decide
  obtain ⟨row, member, ahead⟩ := scanned
  exact ahead (nothing.accounts row member)

end XfoLws.Db
