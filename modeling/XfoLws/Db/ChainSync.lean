import XfoLws.Db.AccountIndexes

/-!
# The locator of the chain

`get_chain_sync` sends a daemon the hashes of some stored blocks: ten from the
tip down, then ever fewer, the last checkpoint and genesis.
-/

namespace XfoLws.Db

/-- The first loop of `get_blocks_tail`, with the cursor on `row` and the rows
before it in `rest`; the flag says whether it ran out of rows. -/
def tailWalk : ℕ → List BlockInfo → BlockInfo → List BlockInfo →
    Except Error (List BlockInfo × Bool)
  | 0, out, _, _ => .ok (out, false)
  | passes + 1, out, row, rest =>
      let out := out ++ [row]
      match rest with
      | [] => if row.id ≠ 0 then .error .badBlockchain else .ok (out, true)
      | previous :: rest => tailWalk passes out previous rest

/-- The lambda `add_block`. -/
def addBlock (db : Db) (out : List BlockInfo) (id : BlockId) :
    Except Error (List BlockInfo) :=
  match db.blocks.find? id with
  | none => .error (.notFound .blocks .getBoth)
  | some row => .ok (out ++ [⟨id, row.hash⟩])

/-- The second loop of `get_blocks_tail`, with the passes left. -/
def addInternal (db : Db) (checkpoint anchor : ℕ) :
    ℕ → ℕ → List BlockInfo → Except Error (List BlockInfo)
  | 0, _, out => .ok out
  | left + 1, i, out =>
      -- `2 << i` is an `int`
      if 2 ^ 31 ≤ 2 <<< i then .error .outOfRange
      else
        let offset := 2 <<< i
        if anchor < offset ∨ anchor - offset < checkpoint then .ok out
        else do
          let out ← db.addBlock out (anchor - offset)
          addInternal db checkpoint anchor left (i + 1) out

/-- Height of the last block of `out`. -/
def backId (out : List BlockInfo) : BlockId :=
  out.getLast?.elim 0 BlockInfo.id

def getBlocksTail (env : Env) (db : Db) (maxInternal : ℕ) (row : BlockInfo)
    (rest : List BlockInfo) : Except Error (List BlockInfo) := do
  let (out, finished) ← tailWalk 10 [] row rest
  if finished then .ok out
  else
    let checkpoint := env.getMaxHeight
    let out ← db.addInternal checkpoint (backId out) maxInternal 1 out
    let out ← if checkpoint < backId out then db.addBlock out checkpoint
      else .ok out
    if backId out ≠ 0 then db.addBlock out 0 else .ok out

/-- `get_blocks`. -/
def getBlocks (env : Env) (db : Db) (maxInternal : ℕ) :
    Except Error (List BlockInfo) :=
  match db.blocks.rows.reverse with
  | [] => .error (.notFound .blocks .set)
  | row :: rest => getBlocksTail env db (min 64 maxInternal) row rest

/-- `storage_reader::get_chain_sync`. -/
def getChainSync (env : Env) (db : Db) : Except Error (List Hash) := do
  let blocks ← getBlocks env db 64
  .ok (blocks.map BlockInfo.hash)

/-- `get_blocks_from_height`. -/
def getBlocksFromHeight (env : Env) (db : Db) (maxInternal : ℕ)
    (lastPow : BlockId) : Except Error (List BlockInfo) :=
  match (db.blocks.rows.filter fun row => row.id ≤ lastPow).reverse with
  | [] => .error (.notFound .blocks .getBoth)
  | row :: rest =>
      if row.id ≠ lastPow then .error (.notFound .blocks .getBoth)
      else getBlocksTail env db (min 64 maxInternal) row rest

/-- `storage_reader::get_pow_sync`. -/
def getPowSync (env : Env) (db : Db) : Except Error (List Hash) :=
  match db.pows.last? with
  | none => .error (.notFound .pows .set)
  | some row => do
      let blocks ← getBlocksFromHeight env db 64 row.id
      .ok (blocks.map BlockInfo.hash)

/-- Rows for genesis and for every height from the last checkpoint to the
tip. -/
structure HoldsChain (env : Env) (db : Db) (tip : BlockId) : Prop where
  genesis : ∃ row ∈ db.blocks, row.id = 0
  above : env.getMaxHeight ≤ tip
  consecutive : ∀ height, env.getMaxHeight ≤ height → height ≤ tip →
    ∃ row ∈ db.blocks, row.id = height
  highest : ∀ row ∈ db.blocks, row.id ≤ tip
  small : tip < 2 ^ 30

/-- What a daemon needs of the blocks it is asked about. -/
structure UsableLocator (env : Env) (db : Db) (tip : BlockId)
    (blocks : List BlockInfo) : Prop where
  decreasing : blocks.Pairwise fun left right => right.id < left.id
  first : blocks.head?.map BlockInfo.id = some tip
  last : blocks.getLast?.map BlockInfo.id = some 0
  checkpoint : ∃ block ∈ blocks, block.id = env.getMaxHeight
  stored : ∀ block ∈ blocks, block ∈ db.blocks
  reserved : blocks.length ≤ 12 + 64

/-! ## The loops -/

/-- Blocks that may start a locator: stored, from the tip strictly down to
`low`. -/
structure Descends (db : Db) (tip low : BlockId) (blocks : List BlockInfo) :
    Prop where
  decreasing : blocks.Pairwise fun left right => right.id < left.id
  first : blocks.head?.map BlockInfo.id = some tip
  last : blocks.getLast?.map BlockInfo.id = some low
  stored : ∀ block ∈ blocks, block ∈ db.blocks

variable {env : Env} {db : Db} {tip low : ℕ} {out : List BlockInfo}

theorem Descends.backId (descends : Descends db tip low out) :
    backId out = low := by
  obtain ⟨block, found, rfl⟩ := Option.map_eq_some_iff.mp descends.last
  rw [Db.backId, found]
  rfl

theorem Descends.low_le (descends : Descends db tip low out) :
    ∀ block ∈ out, low ≤ block.id := by
  obtain ⟨final, found, rfl⟩ := Option.map_eq_some_iff.mp descends.last
  obtain ⟨front, rfl⟩ := List.getLast?_eq_some_iff.mp found
  intro block member
  rcases List.mem_append.mp member with early | own
  · exact le_of_lt ((List.pairwise_append.mp descends.decreasing).2.2 block
      early final (by simp))
  · obtain rfl := List.mem_singleton.mp own
    exact le_rfl

theorem Descends.addBlock (descends : Descends db tip low out) {row : BlockInfo}
    (stored : row ∈ db.blocks) (below : row.id < low) :
    db.addBlock out row.id = .ok (out ++ [row]) ∧
      Descends db tip row.id (out ++ [row]) := by
  have found : db.blocks.find? row.id = some row :=
    SortedRows.find?_eq_some.mpr ⟨stored, rfl⟩
  refine ⟨by rw [Db.addBlock, found], ?_, ?_, ?_, ?_⟩
  · refine List.pairwise_append.mpr
      ⟨descends.decreasing, List.pairwise_singleton _ _, ?_⟩
    intro earlier member later own
    obtain rfl := List.mem_singleton.mp own
    exact below.trans_le (descends.low_le earlier member)
  · rw [List.head?_append_of_ne_nil]
    · exact descends.first
    · rintro rfl
      cases descends.first
  · simp
  · intro block member
    rcases List.mem_append.mp member with early | own
    · exact descends.stored block early
    · rw [List.mem_singleton.mp own]
      exact stored

theorem Descends.le_tip (descends : Descends db tip low out) :
    ∀ block ∈ out, block.id ≤ tip := by
  obtain ⟨head, found, rfl⟩ := Option.map_eq_some_iff.mp descends.first
  obtain ⟨rest, rfl⟩ := List.head?_eq_some_iff.mp found
  intro block member
  rcases List.mem_cons.mp member with rfl | later
  · exact le_rfl
  · exact le_of_lt ((List.pairwise_cons.mp descends.decreasing).1 block later)

theorem Descends.push (descends : Descends db tip low out) {row : BlockInfo}
    (stored : row ∈ db.blocks) (above : tip < row.id) :
    Descends db row.id low (row :: out) := by
  refine ⟨?_, rfl, ?_, ?_⟩
  · exact List.pairwise_cons.mpr ⟨fun block member =>
      (descends.le_tip block member).trans_lt above, descends.decreasing⟩
  · cases out with
    | nil => cases descends.last
    | cons block out => exact descends.last
  · exact List.forall_mem_cons.mpr ⟨stored, descends.stored⟩

/-- The first loop takes ten rows, or all of them if genesis is among
these. -/
theorem tailWalk_eq (passes : ℕ) (out : List BlockInfo) (row : BlockInfo)
    (rest : List BlockInfo)
    (genesis : (row :: rest).getLast?.map BlockInfo.id = some 0) :
    tailWalk passes out row rest =
      .ok (out ++ (row :: rest).take passes,
        decide (rest.length < passes)) := by
  induction passes generalizing out row rest with
  | zero => simp [tailWalk]
  | succ passes induction =>
      cases rest with
      | nil =>
          have first : row.id = 0 := by simpa using genesis
          simp [tailWalk, first]
      | cons previous rest =>
          rw [tailWalk, induction _ previous rest (by simpa using genesis)]
          simp

/-- The second loop stays at or above the checkpoint, and ends before its
shift leaves an `int`. -/
theorem addInternal_ok (chain : HoldsChain env db tip) {anchor : ℕ}
    (stored : anchor ≤ tip) (left i : ℕ) (small : i ≤ 29)
    (descends : Descends db tip low out) (reached : anchor < low + 2 <<< i) :
    ∃ more lower,
      addInternal db env.getMaxHeight anchor left i out = .ok (out ++ more) ∧
      Descends db tip lower (out ++ more) ∧ more.length ≤ left ∧
      (lower = low ∨ env.getMaxHeight ≤ lower) := by
  induction left generalizing i low out with
  | zero => exact ⟨[], low, by simp [addInternal], by simpa using descends,
      le_rfl, .inl rfl⟩
  | succ left induction =>
      have doubled : 2 <<< (i + 1) = 2 * 2 <<< i := by
        simp only [Nat.shiftLeft_eq, pow_succ]
        omega
      have inside : 2 <<< i < 2 ^ 31 := by
        rw [Nat.shiftLeft_eq]
        calc 2 * 2 ^ i ≤ 2 * 2 ^ 29 :=
              Nat.mul_le_mul_left 2 (Nat.pow_le_pow_right (by omega) small)
          _ < 2 ^ 31 := by decide
      have positive : 0 < 2 <<< i := by
        rw [Nat.shiftLeft_eq]
        exact Nat.mul_pos (by decide) (Nat.two_pow_pos i)
      -- the last offset that an `int` holds is above every anchor
      have last : i = 29 → anchor < 2 <<< i := by
        rintro rfl
        exact stored.trans_lt chain.small
      unfold addInternal
      rw [if_neg (Nat.not_le.mpr inside)]
      generalize 2 <<< i = offset at doubled positive last reached ⊢
      dsimp only
      split
      · exact ⟨[], low, by simp, by simpa using descends, Nat.zero_le _,
          .inl rfl⟩
      · rename_i within
        obtain ⟨wide, above⟩ := not_or.mp within
        have next : i + 1 ≤ 29 := by
          by_contra beyond
          exact wide (last (by omega))
        obtain ⟨row, rowStored, height⟩ :=
          chain.consecutive (anchor - offset) (Nat.le_of_not_lt above)
            ((Nat.sub_le _ _).trans stored)
        have lower : anchor - offset < low := by omega
        have nextReached : anchor < (anchor - offset) + 2 <<< (i + 1) := by
          omega
        obtain ⟨added, down⟩ := descends.addBlock rowStored
          (height.trans_lt lower)
        rw [height] at added down
        obtain ⟨more, final, passed, ended, count, higher⟩ :=
          induction (i + 1) next down nextReached
        refine ⟨row :: more, final, ?_, by simpa using ended,
          by simpa using count, ?_⟩
        · rw [added]
          show db.addInternal _ _ _ _ (out ++ [row]) = _
          simpa using passed
        · right
          rcases higher with rfl | higher
          · exact Nat.le_of_not_lt above
          · exact higher

theorem mem_take_of_le {blocks : List BlockInfo} {count : ℕ}
    (decreasing : blocks.Pairwise fun left right => right.id < left.id)
    {last block : BlockInfo} (taken : last ∈ blocks.take count)
    (member : block ∈ blocks) (above : last.id ≤ block.id) :
    block ∈ blocks.take count := by
  rw [← List.take_append_drop count blocks] at decreasing member
  rcases List.mem_append.mp member with inside | outside
  · exact inside
  · have lower := (List.pairwise_append.mp decreasing).2.2 last taken block
      outside
    exact absurd above (Nat.not_le.mpr lower)

private theorem rows_descend (chain : HoldsChain env db tip) :
    Descends db tip 0 db.blocks.rows.reverse := by
  have sorted : db.blocks.rows.reverse.Pairwise
      fun left right => right.id < left.id :=
    List.pairwise_reverse.mpr db.blocks.sorted
  refine ⟨sorted, ?_, ?_, ?_⟩
  · obtain ⟨top, topMember, rfl⟩ :=
      chain.consecutive tip chain.above le_rfl
    cases found : db.blocks.rows.reverse.head? with
    | none =>
        have empty : db.blocks.rows = [] := by simpa using found
        rw [← SortedRows.mem_rows, empty] at topMember
        cases topMember
    | some row =>
        obtain ⟨rest, parts⟩ := List.head?_eq_some_iff.mp found
        have member : top ∈ row :: rest := by
          rw [← parts, List.mem_reverse]
          exact topMember
        have rowMember : row ∈ db.blocks := by
          rw [← SortedRows.mem_rows, ← List.mem_reverse, parts]
          exact List.mem_cons_self
        have below := chain.highest row rowMember
        rw [parts] at sorted
        rcases List.mem_cons.mp member with rfl | later
        · rfl
        · have above : top.id < row.id :=
            (List.pairwise_cons.mp sorted).1 top later
          exact absurd below (Nat.not_le.mpr above)
  · obtain ⟨genesis, genesisMember, zero⟩ := chain.genesis
    rw [List.getLast?_reverse]
    cases parts : db.blocks.rows with
    | nil =>
        rw [← SortedRows.mem_rows, parts] at genesisMember
        cases genesisMember
    | cons row rest =>
        have ordered := db.blocks.sorted
        rw [← SortedRows.mem_rows, parts] at genesisMember
        rw [parts] at ordered
        rcases List.mem_cons.mp genesisMember with rfl | later
        · simpa using zero
        · have above : row.id < genesis.id :=
            (List.pairwise_cons.mp ordered).1 genesis later
          exact absurd above (by rw [zero]; exact Nat.not_lt_zero row.id)
  · intro block member
    exact SortedRows.mem_rows.mp (List.mem_reverse.mp member)

/-! ## The locator -/

theorem mem_of_backId {blocks : List BlockInfo}
    (descends : Descends db tip low blocks) :
    ∃ block ∈ blocks, block.id = low := by
  obtain ⟨block, found, same⟩ := Option.map_eq_some_iff.mp descends.last
  exact ⟨block, List.mem_of_getLast? found, same⟩

theorem Descends.take {blocks : List BlockInfo} {count : ℕ}
    (descends : Descends db tip low blocks) (some : 0 < count) :
    ∃ lower, Descends db tip lower (blocks.take count) := by
  cases blocks with
  | nil => cases descends.first
  | cons block blocks =>
      obtain ⟨count, rfl⟩ := Nat.exists_eq_add_of_le' some
      cases found : ((block :: blocks).take (count + 1)).getLast? with
      | none => simp at found
      | some final =>
          refine ⟨final.id, descends.decreasing.sublist
            (List.take_sublist _ _), ?_, by rw [found]; rfl, ?_⟩
          · simpa using descends.first
          · exact fun other member =>
              descends.stored other (List.mem_of_mem_take member)

/-- The last checkpoint and genesis complete a locator, where they are not its
end already. -/
private theorem completed (chain : HoldsChain env db tip)
    (descends : Descends db tip low out) (few : out.length ≤ 10 + 64)
    (checkpoint : (∃ block ∈ out, block.id = env.getMaxHeight) ∨
      env.getMaxHeight ≤ low) :
    ∃ blocks, (do
        let out ← if env.getMaxHeight < backId out then
            db.addBlock out env.getMaxHeight
          else .ok out
        if backId out ≠ 0 then db.addBlock out 0 else .ok out) =
          Except.ok blocks ∧ UsableLocator env db tip blocks := by
  have ended : ∀ (lower : BlockId) (blocks : List BlockInfo),
      Descends db tip lower blocks → blocks.length ≤ 11 + 64 →
      (∃ block ∈ blocks, block.id = env.getMaxHeight) →
      ∃ final, (if backId blocks ≠ 0 then db.addBlock blocks 0
          else .ok blocks) = Except.ok final ∧
        UsableLocator env db tip final := by
    intro lower blocks down count held
    rw [down.backId]
    split
    · rename_i above
      obtain ⟨genesis, genesisStored, zero⟩ := chain.genesis
      have below : genesis.id < lower := by
        rw [zero]
        exact Nat.pos_of_ne_zero above
      obtain ⟨added, final⟩ := down.addBlock genesisStored below
      rw [zero] at added final
      obtain ⟨block, member, same⟩ := held
      exact ⟨_, added, final.decreasing, final.first, final.last,
        ⟨block, by simp [member], same⟩, final.stored,
        by rw [List.length_append]; exact Nat.succ_le_succ count⟩
    · rename_i zero
      rw [not_not.mp zero] at down
      exact ⟨_, rfl, down.decreasing, down.first, down.last, held,
        down.stored, count.trans (by omega)⟩
  rw [descends.backId]
  split
  · rename_i above
    obtain ⟨row, rowStored, same⟩ :=
      chain.consecutive _ le_rfl chain.above
    obtain ⟨added, down⟩ :=
      descends.addBlock rowStored (by rw [same]; exact above)
    rw [same] at added
    rw [added]
    exact ended _ _ down
      (by rw [List.length_append]; exact Nat.succ_le_succ few)
      ⟨row, by simp, same⟩
  · rename_i below
    refine ended low out descends (few.trans (by omega)) ?_
    rcases checkpoint with held | above
    · exact held
    · obtain rfl : low = env.getMaxHeight :=
        le_antisymm (Nat.le_of_not_lt below) above
      exact mem_of_backId descends

theorem getBlocks_usable (chain : HoldsChain env db tip) :
    ∃ blocks, getBlocks env db 64 = .ok blocks ∧
      UsableLocator env db tip blocks := by
  have rows := rows_descend chain
  obtain ⟨point, pointStored, same⟩ := chain.consecutive _ le_rfl chain.above
  have pointMember : point ∈ db.blocks.rows.reverse :=
    List.mem_reverse.mpr pointStored
  unfold getBlocks
  generalize db.blocks.rows.reverse = down at rows pointMember
  cases down with
  | nil => cases rows.first
  | cons row rest =>
      dsimp only
      unfold getBlocksTail
      rw [tailWalk_eq 10 [] row rest rows.last, List.nil_append]
      dsimp only [bind, Except.bind]
      by_cases few : rest.length < 10
      · have all : (row :: rest).take 10 = row :: rest :=
          List.take_of_length_le few
        rw [all, if_pos (decide_eq_true few)]
        exact ⟨_, rfl, rows.decreasing, rows.first, rows.last,
          ⟨point, pointMember, same⟩, rows.stored, few.trans (by decide)⟩
      · rw [if_neg (by simpa using few)]
        obtain ⟨anchor, taken⟩ := rows.take (by decide : 0 < 10)
        obtain ⟨last, lastMember, lastHeight⟩ := mem_of_backId taken
        have anchorStored : anchor ≤ tip := by
          rw [← lastHeight]
          exact chain.highest last (taken.stored last lastMember)
        obtain ⟨more, lower, passed, ended, count, above⟩ :=
          addInternal_ok chain anchorStored 64 1 (by decide) taken
            (Nat.lt_add_of_pos_right (by decide))
        rw [taken.backId, Nat.min_self, passed]
        refine completed chain ended ?_ ?_
        · have ten := List.length_take_le 10 (row :: rest)
          rw [List.length_append]
          omega
        · by_cases low : env.getMaxHeight ≤ anchor
          · right
            rcases above with rfl | above
            · exact low
            · exact above
          · -- the checkpoint is among the first ten rows
            refine .inl ⟨point, List.mem_append_left _ ?_, same⟩
            refine mem_take_of_le rows.decreasing lastMember pointMember ?_
            rw [lastHeight, same]
            exact le_of_lt (Nat.lt_of_not_le low)

/-- In descending order the first block with a property is not below any
other. -/
theorem first_known_above {blocks : List BlockInfo}
    (decreasing : blocks.Pairwise fun left right => right.id < left.id)
    {known : BlockInfo → Bool} {block : BlockInfo} (member : block ∈ blocks)
    (shared : known block = true) :
    ∃ first, blocks.find? known = some first ∧ block.id ≤ first.id := by
  induction blocks with
  | nil => cases member
  | cons head rest induction =>
      obtain ⟨above, decreasing⟩ := List.pairwise_cons.mp decreasing
      by_cases found : known head = true
      · refine ⟨head, by simp [found], ?_⟩
        rcases List.mem_cons.mp member with rfl | later
        · exact le_rfl
        · exact le_of_lt (above block later)
      · rcases List.mem_cons.mp member with rfl | later
        · exact (found shared).elim
        · obtain ⟨first, located, higher⟩ := induction decreasing later
          exact ⟨first, by simpa [found] using located, higher⟩

/-- The locator of a stored chain is usable: a daemon that knows the blocks up
to the last checkpoint first finds one that is not below it. -/
theorem chain_sync_usable (chain : HoldsChain env db tip) :
    ∃ blocks, getChainSync env db = .ok (blocks.map BlockInfo.hash) ∧
      UsableLocator env db tip blocks ∧
      ∀ known : Hash → Bool,
        (∀ row ∈ db.blocks, row.id ≤ env.getMaxHeight →
          known row.hash = true) →
        ∃ common, blocks.find? (fun block => known block.hash) = some common ∧
          env.getMaxHeight ≤ common.id := by
  obtain ⟨blocks, success, usable⟩ := getBlocks_usable chain
  refine ⟨blocks, by rw [getChainSync, success]; rfl, usable, ?_⟩
  intro known shares
  obtain ⟨block, member, height⟩ := usable.checkpoint
  have shared : known block.hash = true :=
    shares block (usable.stored block member) height.le
  rw [← height]
  exact first_known_above usable.decreasing member shared

/-- Thirteen blocks over a checkpoint at genesis. -/
private def thirteenBlocks : Db :=
  sampleDb.appendBlockHashes 1 ((List.range 12).map (· + 11))

private theorem thirteenBlocks_held : HoldsChain sampleEnv thirteenBlocks 12 where
  genesis := by
    show ∃ row ∈ thirteenBlocks.blocks.rows, row.id = 0
    decide
  above := by decide
  consecutive := by
    have rows : ∀ height ≤ 12, ∃ row ∈ thirteenBlocks.blocks.rows,
        row.id = height := by
      decide
    exact fun height _ within => rows height within
  highest := by
    show ∀ row ∈ thirteenBlocks.blocks.rows, row.id ≤ 12
    decide
  small := by decide

/-- The locator of that chain ends at genesis. -/
theorem chain_sync_usable_at_twelve :
    ∃ blocks, getChainSync sampleEnv thirteenBlocks =
        .ok (blocks.map BlockInfo.hash) ∧
      UsableLocator sampleEnv thirteenBlocks 12 blocks := by
  obtain ⟨blocks, success, usable, -⟩ := chain_sync_usable thirteenBlocks_held
  exact ⟨blocks, success, usable⟩

/-! ## Genesis -/

/-- A list of hashes ends with that of the stored genesis block. -/
def EndsAtGenesis (db : Db) (hashes : List Hash) : Prop :=
  ∃ genesis ∈ db.blocks, genesis.id = 0 ∧ hashes.getLast? = some genesis.hash

/-- Stored blocks, at least one. -/
def SomeStored (db : Db) (out : List BlockInfo) : Prop :=
  out ≠ [] ∧ ∀ block ∈ out, block ∈ db.blocks

theorem SomeStored.addBlock {next : List BlockInfo} {id : BlockId}
    (stored : ∀ block ∈ out, block ∈ db.blocks)
    (added : db.addBlock out id = .ok next) :
    SomeStored db next ∧ backId next = id := by
  unfold Db.addBlock at added
  split at added
  · cases added
  rename_i row found
  cases added
  obtain ⟨member, rfl⟩ := SortedRows.find?_eq_some.mp found
  refine ⟨⟨by simp, ?_⟩, by simp [backId]⟩
  intro block listed
  rcases List.mem_append.mp listed with early | own
  · exact stored block early
  · rw [List.mem_singleton.mp own]
    exact member

theorem tailWalk_stored {passes : ℕ} {row : BlockInfo}
    {rest next : List BlockInfo} {finished : Bool} (some : 0 < passes)
    (stored : ∀ block ∈ out, block ∈ db.blocks)
    (rows : ∀ block ∈ row :: rest, block ∈ db.blocks)
    (walked : tailWalk passes out row rest = .ok (next, finished)) :
    SomeStored db next ∧ (finished = true → backId next = 0) := by
  induction passes generalizing out row rest with
  | zero => exact absurd some (Nat.lt_irrefl 0)
  | succ passes induction =>
      have longer : SomeStored db (out ++ [row]) := by
        refine ⟨by simp, fun block listed => ?_⟩
        rcases List.mem_append.mp listed with early | own
        · exact stored block early
        · rw [List.mem_singleton.mp own]
          exact rows row List.mem_cons_self
      unfold tailWalk at walked
      cases rest with
      | nil =>
          dsimp only at walked
          split at walked
          · cases walked
          rename_i zero
          cases walked
          exact ⟨longer, fun _ => by simpa [backId] using not_not.mp zero⟩
      | cons previous rest =>
          dsimp only at walked
          cases passes with
          | zero =>
              cases walked
              exact ⟨longer, nofun⟩
          | succ passes =>
              exact induction (Nat.succ_pos passes) longer.2
                (fun block listed => rows block (List.mem_cons_of_mem _ listed))
                walked

theorem SomeStored.addInternal {checkpoint anchor left i : ℕ}
    {next : List BlockInfo} (stored : SomeStored db out)
    (added : db.addInternal checkpoint anchor left i out = .ok next) :
    SomeStored db next := by
  induction left generalizing i out with
  | zero =>
      cases added
      exact stored
  | succ left induction =>
      unfold Db.addInternal at added
      split at added
      · cases added
      dsimp only at added
      split at added
      · cases added
        exact stored
      obtain ⟨middle, first, rest⟩ := Outcome.bind_eq_ok.mp added
      exact induction (SomeStored.addBlock stored.2 first).1 rest

/-- Whatever blocks are stored, a tail that is returned ends at genesis. -/
theorem getBlocksTail_ends {maxInternal : ℕ} {row : BlockInfo}
    {rest blocks : List BlockInfo}
    (rows : ∀ block ∈ row :: rest, block ∈ db.blocks)
    (success : getBlocksTail env db maxInternal row rest = .ok blocks) :
    EndsAtGenesis db (blocks.map BlockInfo.hash) := by
  have ends : ∀ blocks, SomeStored db blocks → backId blocks = 0 →
      EndsAtGenesis db (blocks.map BlockInfo.hash) := by
    rintro blocks ⟨nonempty, stored⟩ zero
    have last := List.getLast?_eq_some_getLast nonempty
    rw [backId, last] at zero
    refine ⟨_, stored _ (List.getLast_mem nonempty), zero, ?_⟩
    rw [List.getLast?_map, last]
    rfl
  unfold getBlocksTail at success
  obtain ⟨⟨out, finished⟩, walked, success⟩ := Outcome.bind_eq_ok.mp success
  obtain ⟨stored, genesis⟩ :=
    tailWalk_stored (by decide) (by simp) rows walked
  dsimp only at success
  split at success
  · rename_i final
    cases success
    exact ends _ stored (genesis final)
  obtain ⟨internal, added, success⟩ := Outcome.bind_eq_ok.mp success
  have internalStored := stored.addInternal added
  have completed : ∀ out, SomeStored db out →
      (if backId out ≠ 0 then db.addBlock out 0 else .ok out) = .ok blocks →
      EndsAtGenesis db (blocks.map BlockInfo.hash) := by
    intro out outStored success
    split at success
    · obtain ⟨final, zero⟩ := SomeStored.addBlock outStored.2 success
      exact ends _ final zero
    · rename_i zero
      cases success
      exact ends _ outStored (not_not.mp zero)
  split at success
  · obtain ⟨out, lowered, success⟩ := Outcome.bind_eq_ok.mp success
    exact completed out (SomeStored.addBlock internalStored.2 lowered).1 success
  · exact completed internal internalStored success

theorem getChainSync_ends {hashes : List Hash}
    (success : getChainSync env db = .ok hashes) : EndsAtGenesis db hashes := by
  obtain ⟨blocks, read, mapped⟩ := Outcome.bind_eq_ok.mp success
  cases mapped
  unfold getBlocks at read
  split at read
  · cases read
  rename_i row rest reversed
  refine getBlocksTail_ends (fun block listed => ?_) read
  rw [← reversed, List.mem_reverse] at listed
  exact listed

theorem getPowSync_ends {hashes : List Hash}
    (success : getPowSync env db = .ok hashes) : EndsAtGenesis db hashes := by
  unfold getPowSync at success
  split at success
  · cases success
  obtain ⟨blocks, read, mapped⟩ := Outcome.bind_eq_ok.mp success
  cases mapped
  unfold getBlocksFromHeight at read
  split at read
  · cases read
  rename_i row rest reversed
  split at read
  · cases read
  refine getBlocksTail_ends (fun block listed => ?_) read
  rw [← reversed, List.mem_reverse] at listed
  exact (List.mem_filter.mp listed).1

end XfoLws.Db