import XfoLws.Db.HonestRuns

/-!
# Rows of scanned blocks

Under the id of an account, `outputs` and `spends` hold what the blocks above
its start height and up to its scan height hold for it.  Moving an account
back trims its rows, storing a scan extends them; a rescan to a block that
holds a row trims that row too and never reads the block again.
-/

namespace XfoLws.Db

/-! ## One table -/

section Table

variable {ρ κ : Type} [LinearOrder κ] {key : AccountId × ρ → κ}
  {height : ρ → BlockId} {blockHeight : Hash → BlockId}

/-- What the chain holds for an account in the blocks it was scanned over. -/
def RowSource.Scanned (source : RowSource key height blockHeight)
    (chain : BlockId → Hash) (user : Account) (row : ρ) : Prop :=
  ∃ id, user.startHeight < id ∧ id ≤ user.scanHeight ∧
    row ∈ source.rows user.id (chain id)

/-- The rows stored for every account are those of its scanned blocks. -/
structure ExactRows (source : RowSource key height blockHeight)
    (chain : BlockId → Hash) (accounts : SortedRows accountsKey)
    (table : SortedRows key) : Prop where
  rows : ∀ account ∈ accounts, ∀ row,
    (account.2.id, row) ∈ table ↔ source.Scanned chain account.2 row
  owned : ∀ row ∈ table, ∃ account ∈ accounts, account.2.id = row.1

namespace ExactRows

variable {source : RowSource key height blockHeight}
  {chain after : BlockId → Hash} {accounts moved : SortedRows accountsKey}
  {table next : SortedRows key}

theorem within (exact : ExactRows source chain accounts table)
    (known : ∀ id, blockHeight (chain id) = id)
    {account : AccountStatus × Account} (member : account ∈ accounts)
    {row : ρ} (stored : (account.2.id, row) ∈ table) :
    account.2.startHeight < height row ∧
      height row ≤ account.2.scanHeight := by
  obtain ⟨id, above, below, listed⟩ := (exact.rows account member row).mp stored
  rw [source.height_eq listed, known]
  exact ⟨above, below⟩

theorem trim (exact : ExactRows source chain accounts table)
    (known : ∀ id, blockHeight (chain id) = id)
    (trimmed : ∀ new ∈ moved, ∃ old ∈ accounts, new.2.id = old.2.id ∧
      new.2.scanHeight ≤ old.2.scanHeight ∧
      new.2.startHeight = min new.2.scanHeight old.2.startHeight ∧
      (old.2.startHeight < new.2.scanHeight →
        ∀ id ≤ new.2.scanHeight, after id = chain id) ∧
      ∀ row, (old.2.id, row) ∈ next ↔
        (old.2.id, row) ∈ table ∧ height row ≤ new.2.scanHeight)
    (kept : ∀ old ∈ accounts, ∃ new ∈ moved, new.2.id = old.2.id)
    (fewer : ∀ row ∈ next, row ∈ table) :
    ExactRows source after moved next := by
  refine ⟨?_, ?_⟩
  · intro new newMember row
    obtain ⟨old, member, sameId, scanned, started, sameChain, stored⟩ :=
      trimmed new newMember
    rw [sameId, stored, exact.rows old member]
    constructor
    · rintro ⟨⟨id, above, _, listed⟩, below⟩
      rw [source.height_eq listed, known] at below
      refine ⟨id, by lia, below, ?_⟩
      rwa [sameId, sameChain (above.trans_le below) id below]
    · rintro ⟨id, above, below, listed⟩
      have later : old.2.startHeight < id := by lia
      rw [sameId, sameChain (later.trans_le below) id below] at listed
      refine ⟨⟨id, later, below.trans scanned, listed⟩, ?_⟩
      rwa [source.height_eq listed, known]
  · intro row member
    obtain ⟨old, oldMember, sameId⟩ := exact.owned row (fewer row member)
    obtain ⟨new, newMember, own⟩ := kept old oldMember
    exact ⟨new, newMember, own.trans sameId⟩

theorem add (exact : ExactRows source chain accounts table)
    {status : AccountStatus} {user : Account}
    (fresh : ∀ row ∈ accounts, row.2.id ≠ user.id)
    (unscanned : user.startHeight = user.scanHeight) :
    ExactRows source chain (accounts.put (status, user)) table := by
  refine ⟨?_, ?_⟩
  · intro account member row
    rcases SortedRows.mem_put.mp member with rfl | ⟨old, -⟩
    · constructor
      · intro stored
        obtain ⟨other, otherMember, sameId⟩ := exact.owned _ stored
        exact absurd sameId (fresh other otherMember)
      · rintro ⟨id, above, below, _⟩
        dsimp only at above below
        lia
    · exact exact.rows account old row
  · intro row member
    obtain ⟨old, oldMember, sameId⟩ := exact.owned row member
    refine ⟨old, SortedRows.mem_put.mpr (.inr ⟨oldMember, ?_⟩), sameId⟩
    intro sameKey
    exact fresh old oldMember (Prod.mk.inj (toLex.injective sameKey)).2

theorem store (exact : ExactRows source chain accounts table)
    (known : ∀ id, blockHeight (chain id) = id)
    (keyed : ∀ left right : AccountId × ρ, key left = key right →
      left.1 = right.1 ∧ height left.2 = height right.2)
    {status : AccountStatus} {user : Account} {first last : BlockId}
    (member : (status, user) ∈ accounts)
    (replaced : ∀ row, row ∈ moved ↔
      row = (status, { user with scanHeight := last }) ∨
        (row ∈ accounts ∧ row.2.id ≠ user.id))
    (started : user.startHeight ≤ first) (reached : first ≤ user.scanHeight)
    (ahead : user.scanHeight ≤ last) {scanned : List ρ}
    (contents : ∀ row, row ∈ scanned ↔
      ∃ id, first < id ∧ id ≤ last ∧ row ∈ source.rows user.id (chain id)) :
    ExactRows source chain moved
      (table.addAll (scanned.map fun row => (user.id, row))) := by
  have listed : ∀ row, (user.id, row) ∈ table ∨ row ∈ scanned →
      row ∈ source.rows user.id (chain (height row)) := by
    rintro row (stored | new)
    · obtain ⟨id, _, _, listed⟩ := (exact.rows _ member row).mp stored
      rwa [source.height_eq listed, known]
    · obtain ⟨id, _, _, listed⟩ := (contents row).mp new
      rwa [source.height_eq listed, known]
  -- equal keys name the same block, and there the same row
  have stored : ∀ row, row ∈ table.addAll (scanned.map fun row =>
      (user.id, row)) ↔
        row ∈ table ∨ (row.1 = user.id ∧ row.2 ∈ scanned) := by
    intro row
    have split : row ∈ scanned.map (fun row => (user.id, row)) ↔
        row.1 = user.id ∧ row.2 ∈ scanned := by
      simp only [List.mem_map, Prod.ext_iff]
      grind
    rw [SortedRows.mem_addAll, split]
    intro old oldStored new newMember sameKey
    obtain ⟨fresh, freshMember, rfl⟩ := List.mem_map.mp newMember
    obtain ⟨sameId, sameHeight⟩ := keyed _ _ sameKey
    obtain ⟨id, row⟩ := old
    obtain rfl : id = user.id := sameId
    have oldListed : row ∈ source.rows user.id (chain (height row)) := by
      refine listed row (oldStored.imp_right fun other => ?_)
      obtain ⟨same, sameMember, equality⟩ := List.mem_map.mp other
      cases equality
      exact sameMember
    have newListed := listed fresh (.inr freshMember)
    dsimp only at sameHeight
    rw [← sameHeight] at newListed
    rw [source.identified oldListed newListed sameKey]
  refine ⟨?_, ?_⟩
  · intro account accountMember row
    rw [stored]
    rcases (replaced account).mp accountMember with rfl | ⟨old, other⟩
    · dsimp only
      rw [exact.rows _ member, contents]
      constructor
      · rintro (⟨id, above, below, new⟩ | ⟨-, id, above, below, new⟩)
        · exact ⟨id, above, below.trans ahead, new⟩
        · exact ⟨id, started.trans_lt above, below, new⟩
      · rintro ⟨id, above, below, new⟩
        by_cases early : id ≤ user.scanHeight
        · exact .inl ⟨id, above, early, new⟩
        · exact .inr ⟨rfl, id, by lia, below, new⟩
    · rw [exact.rows account old, or_iff_left fun own => other own.1]
  · intro row rowMember
    rcases (stored row).mp rowMember with old | ⟨own, _⟩
    · obtain ⟨account, accountMember, sameId⟩ := exact.owned row old
      by_cases own : account.2.id = user.id
      · exact ⟨_, (replaced _).mpr (.inl rfl), own.symm.trans sameId⟩
      · exact ⟨account, (replaced _).mpr (.inr ⟨accountMember, own⟩), sameId⟩
    · exact ⟨_, (replaced _).mpr (.inl rfl), own.symm⟩

end ExactRows

end Table

theorem outputsKey_keyed (left right : AccountId × Output)
    (same : outputsKey left = outputsKey right) :
    left.1 = right.1 ∧ left.2.link.height = right.2.link.height := by
  obtain ⟨sameId, rest⟩ := Prod.mk.inj (toLex.injective same)
  exact ⟨sameId, (Prod.mk.inj (toLex.injective rest)).1⟩

theorem spendsKey_keyed (left right : AccountId × Spend)
    (same : spendsKey left = spendsKey right) :
    left.1 = right.1 ∧ left.2.link.height = right.2.link.height := by
  obtain ⟨sameId, rest⟩ := Prod.mk.inj (toLex.injective same)
  exact ⟨sameId, (Prod.mk.inj (toLex.injective rest)).1⟩

/-! ## Both tables -/

/-- Outputs and spends are exact, and the scanned blocks are fixed. -/
structure RowsScanned (ledger : Ledger) (env : Env) (chain : BlockId → Hash)
    (db : Db) : Prop where
  started : ∀ row ∈ db.accounts, row.2.startHeight ≤ row.2.scanHeight
  fixed : ∀ row ∈ db.accounts, row.2.startHeight < row.2.scanHeight →
    Fixed env db row.2.scanHeight
  received : ExactRows ledger.received chain db.accounts db.outputs
  spent : ExactRows ledger.spent chain db.accounts db.spends

/-- No row of the account lies in the block at `height`, which would be
removed and not scanned again. -/
def SkipsNothing (db : Db) (user : Account) (height : BlockId) : Prop :=
  height ≤ user.scanHeight ∧
    (∀ row ∈ db.outputs, row.1 = user.id → row.2.link.height ≠ height) ∧
    ∀ row ∈ db.spends, row.1 = user.id → row.2.link.height ≠ height

/-- How a call moves an account back, with its rows. -/
structure Trimmed (env : Env) (db next : Db) (before after : BlockId → Hash)
    (old new : Account) : Prop where
  id_eq : new.id = old.id
  scanned : new.scanHeight ≤ old.scanHeight
  started : new.startHeight = min new.scanHeight old.startHeight
  reached : old.startHeight < new.scanHeight →
    Fixed env next new.scanHeight ∧
      ∀ id ≤ new.scanHeight, after id = before id
  outputs : ∀ row, (old.id, row) ∈ next.outputs ↔
    (old.id, row) ∈ db.outputs ∧ row.link.height ≤ new.scanHeight
  spends : ∀ row, (old.id, row) ∈ next.spends ↔
    (old.id, row) ∈ db.spends ∧ row.link.height ≤ new.scanHeight

namespace RowsScanned

variable {ledger : Ledger} {env : Env} {chain after : BlockId → Hash}
  {db next : Db}

theorem trim (scanned : RowsScanned ledger env chain db)
    (isTrue : TrueChain ledger env chain)
    (trimmed : ∀ new ∈ next.accounts, ∃ old ∈ db.accounts,
      Trimmed env db next chain after old.2 new.2)
    (kept : ∀ old ∈ db.accounts, ∃ new ∈ next.accounts,
      new.2.id = old.2.id)
    (outputs : ∀ row ∈ next.outputs, row ∈ db.outputs)
    (spends : ∀ row ∈ next.spends, row ∈ db.spends) :
    RowsScanned ledger env after next := by
  refine ⟨?_, ?_, ?_, ?_⟩
  · intro new member
    obtain ⟨old, -, effect⟩ := trimmed new member
    rw [effect.started]
    exact Nat.min_le_left _ _
  · intro new member ahead
    obtain ⟨old, -, effect⟩ := trimmed new member
    have started := effect.started
    exact (effect.reached (by lia)).1
  · refine scanned.received.trim isTrue.height_eq ?_ kept outputs
    intro new member
    obtain ⟨old, oldMember, effect⟩ := trimmed new member
    exact ⟨old, oldMember, effect.id_eq, effect.scanned, effect.started,
      fun ahead => (effect.reached ahead).2, effect.outputs⟩
  · refine scanned.spent.trim isTrue.height_eq ?_ kept spends
    intro new member
    obtain ⟨old, oldMember, effect⟩ := trimmed new member
    exact ⟨old, oldMember, effect.id_eq, effect.scanned, effect.started,
      fun ahead => (effect.reached ahead).2, effect.spends⟩

theorem untrimmed (scanned : RowsScanned ledger env chain db)
    (isTrue : TrueChain ledger env chain) {old : AccountStatus × Account}
    (member : old ∈ db.accounts) {new : Account} (sameId : new.id = old.2.id)
    (sameScan : new.scanHeight = old.2.scanHeight)
    (sameStart : new.startHeight = old.2.startHeight)
    (reached : old.2.startHeight < old.2.scanHeight →
      Fixed env next old.2.scanHeight ∧
        ∀ id ≤ old.2.scanHeight, after id = chain id)
    (outputs : ∀ row, (old.2.id, row) ∈ next.outputs ↔
      (old.2.id, row) ∈ db.outputs)
    (spends : ∀ row, (old.2.id, row) ∈ next.spends ↔
      (old.2.id, row) ∈ db.spends) :
    Trimmed env db next chain after old.2 new := by
  refine ⟨sameId, sameScan.le, ?_, sameScan ▸ reached, ?_, ?_⟩
  · rw [sameScan, sameStart, Nat.min_eq_right (scanned.started old member)]
  · intro row
    rw [outputs, sameScan, iff_self_and]
    exact fun stored =>
      (scanned.received.within isTrue.height_eq member stored).2
  · intro row
    rw [spends, sameScan, iff_self_and]
    exact fun stored =>
      (scanned.spent.within isTrue.height_eq member stored).2

theorem extended_reached (scanned : RowsScanned ledger env chain db)
    {cut : Option BlockId}
    (extended : Extended ledger env cut db next chain after)
    {old : AccountStatus × Account} (member : old ∈ db.accounts)
    (below : ∀ limit ∈ cut, old.2.scanHeight < limit)
    (ahead : old.2.startHeight < old.2.scanHeight) :
    Fixed env next old.2.scanHeight ∧
      ∀ id ≤ old.2.scanHeight, after id = chain id := by
  have fixed := scanned.fixed old member ahead
  refine ⟨extended.fixed _ fixed below, fun id within => ?_⟩
  exact extended.agrees id (fixed.mono within)
    fun limit cutAt => within.trans_lt (below limit cutAt)

theorem relabel (scanned : RowsScanned ledger env chain db)
    (isTrue : TrueChain ledger env chain)
    (extended : Extended ledger env none db next chain after)
    (accounts : ∀ new ∈ next.accounts, ∃ old ∈ db.accounts,
      new.2.id = old.2.id ∧ new.2.scanHeight = old.2.scanHeight ∧
        new.2.startHeight = old.2.startHeight)
    (kept : ∀ old ∈ db.accounts, ∃ new ∈ next.accounts,
      new.2.id = old.2.id)
    (outputs : next.outputs = db.outputs) (spends : next.spends = db.spends) :
    RowsScanned ledger env after next := by
  refine scanned.trim isTrue ?_ kept (by rw [outputs]; exact fun _ => id)
    (by rw [spends]; exact fun _ => id)
  intro new member
  obtain ⟨old, oldMember, sameId, sameScan, sameStart⟩ := accounts new member
  refine ⟨old, oldMember, scanned.untrimmed isTrue oldMember sameId sameScan
    sameStart ?_ (by simp [outputs]) (by simp [spends])⟩
  exact scanned.extended_reached extended oldMember (by simp)

theorem of_tables (scanned : RowsScanned ledger env chain db)
    (blocks : next.blocks = db.blocks) (accounts : next.accounts = db.accounts)
    (outputs : next.outputs = db.outputs) (spends : next.spends = db.spends) :
    RowsScanned ledger env chain next := by
  refine ⟨?_, ?_, ?_, ?_⟩
  · rw [accounts]
    exact scanned.started
  · rw [accounts]
    unfold Fixed
    rw [blocks]
    exact scanned.fixed
  · rw [accounts, outputs]
    exact scanned.received
  · rw [accounts, spends]
    exact scanned.spent

/-- The rollback of the chain stops every account below the cut. -/
theorem rolledBack (scanned : RowsScanned ledger env chain db)
    (isTrue : TrueChain ledger env chain) (agree : Agreement [] db)
    {first height : BlockId} {middle : Db}
    (extended : Extended ledger env (some height) db next chain after)
    (fixed : Fixed env db (height - 1))
    (rolled : ChainRolledBack first height db middle)
    (blocks : ∃ blocks pows, next =
      { middle with blocks := blocks, pows := pows }) :
    RowsScanned ledger env after next := by
  obtain ⟨_, _, rfl⟩ := blocks
  have affected : ∀ old ∈ db.accounts,
      db.ScannedTo height old.2.id ↔ height ≤ old.2.scanHeight := by
    intro old member
    constructor
    · rintro ⟨other, otherMember, sameId, late⟩
      rwa [agree.distinct other otherMember old member sameId] at late
    · intro late
      exact ⟨old, member, rfl, late⟩
  refine scanned.trim isTrue ?_ ?_ ?_ ?_
  · intro new member
    obtain ⟨old, oldMember, rfl⟩ := (rolled.accounts new).mp member
    refine ⟨old, oldMember, ?_⟩
    unfold Account.rolledBack
    by_cases late : height ≤ old.2.scanHeight
    · rw [if_pos late]
      refine ⟨rfl, ?_, rfl, ?_, ?_, ?_⟩
      · show rollbackHeight height ≤ old.2.scanHeight
        unfold rollbackHeight
        lia
      · intro ahead
        have positive : rollbackHeight height = height - 1 ∧ 0 < height := by
          simp only [rollbackHeight] at ahead ⊢
          lia
        dsimp only
        rw [positive.1]
        refine ⟨extended.fixed _ fixed ?_, fun id within => ?_⟩
        · simp only [Option.mem_some_iff, forall_eq']
          lia
        · refine extended.agrees id (fixed.mono within) ?_
          simp only [Option.mem_some_iff, forall_eq']
          lia
      · intro row
        show _ ↔ _ ∧ row.link.height ≤ rollbackHeight height
        rw [rolled.outputs, affected old oldMember]
        refine and_congr_right fun stored => ?_
        have within :=
          scanned.received.within isTrue.height_eq oldMember stored
        unfold rollbackHeight
        lia
      · intro row
        show _ ↔ _ ∧ row.link.height ≤ rollbackHeight height
        rw [rolled.spends, affected old oldMember]
        refine and_congr_right fun stored => ?_
        have within := scanned.spent.within isTrue.height_eq oldMember stored
        unfold rollbackHeight
        lia
    · rw [if_neg late]
      refine scanned.untrimmed isTrue oldMember rfl rfl rfl ?_ ?_ ?_
      · refine scanned.extended_reached extended oldMember ?_
        simpa using late
      · intro row
        rw [rolled.outputs, affected old oldMember]
        simp [late]
      · intro row
        rw [rolled.spends, affected old oldMember]
        simp [late]
  · intro old member
    exact ⟨_, (rolled.accounts _).mpr ⟨old, member, rfl⟩, by simp⟩
  · intro row member
    exact ((rolled.outputs row).mp member).1
  · intro row member
    exact ((rolled.spends row).mp member).1

theorem chainMoved (scanned : RowsScanned ledger env chain db)
    (isTrue : TrueChain ledger env chain) (agree : Agreement [] db)
    (moved : ChainMoved ledger env db next chain after) :
    RowsScanned ledger env after next := by
  cases moved with
  | kept extended blocks =>
      obtain ⟨_, _, rfl⟩ := blocks
      refine scanned.relabel isTrue extended ?_ ?_ rfl rfl
      · intro new member
        exact ⟨new, member, rfl, rfl, rfl⟩
      · intro old member
        exact ⟨old, member, rfl⟩
  | cut extended fixed rolled blocks =>
      exact scanned.rolledBack isTrue agree extended fixed rolled blocks

theorem heightChanged (scanned : RowsScanned ledger env chain db)
    (stored : StoredChain ledger env db chain) (agree : Agreement [] db)
    {height : BlockId} {address : AccountAddress} {lookup : AccountLookup}
    {user moved : Account} (skips : SkipsNothing db user height)
    (changed : HeightChanged height address db lookup user moved next) :
    RowsScanned ledger env chain next := by
  obtain ⟨within, noOutput, noSpend⟩ := skips
  obtain ⟨member, sameId⟩ := Agreement.findAccount_iff.mp changed.account_eq
  have isTrue := stored.isTrue
  obtain ⟨movedId, movedScan, movedStart⟩ : moved.id = user.id ∧
      moved.scanHeight = height ∧
      moved.startHeight = min height user.startHeight := by
    obtain ⟨_, _, rfl⟩ := changed.moved_eq
    exact ⟨rfl, Nat.min_eq_left within, rfl⟩
  obtain ⟨_, _, _, tables⟩ := changed.next_eq
  have extended : Extended ledger env none db next chain chain :=
    .of_blocks stored (by rw [tables])
  have accounts : ∀ row, row ∈ next.accounts ↔
      row = (lookup.status, moved) ∨
        (row ∈ db.accounts ∧ row.2.id ≠ user.id) := by
    intro row
    rw [tables]
    exact agree.mem_put member movedId
  have outputs : ∀ row, row ∈ next.outputs ↔ row ∈ db.outputs ∧
      ¬ (row.1 = user.id ∧ height ≤ row.2.link.height) := by
    intro row
    rw [tables]
    exact mem_rollbackOutputs
  have spends : ∀ row, row ∈ next.spends ↔ row ∈ db.spends ∧
      ¬ (row.1 = user.id ∧ height ≤ row.2.link.height) := by
    intro row
    rw [tables]
    exact mem_spendsBelow
  refine scanned.trim isTrue ?_ ?_ (fun row kept => ((outputs row).mp kept).1)
    (fun row kept => ((spends row).mp kept).1)
  · intro new newMember
    rcases (accounts new).mp newMember with rfl | ⟨old, other⟩
    · refine ⟨_, member, movedId, ?_, ?_, ?_, ?_, ?_⟩
      · dsimp only
        rwa [movedScan]
      · dsimp only
        rw [movedScan, movedStart]
      · dsimp only
        rw [movedScan]
        intro ahead
        have fixed := scanned.fixed _ member (ahead.trans_le within)
        exact ⟨extended.fixed _ (fixed.mono within) (by simp),
          fun _ _ => rfl⟩
      · intro row
        rw [outputs]
        refine and_congr_right fun kept => ?_
        have different := noOutput _ kept rfl
        dsimp only at different ⊢
        rw [movedScan]
        lia
      · intro row
        rw [spends]
        refine and_congr_right fun kept => ?_
        have different := noSpend _ kept rfl
        dsimp only at different ⊢
        rw [movedScan]
        lia
    · refine ⟨new, old, scanned.untrimmed isTrue old rfl rfl rfl ?_ ?_ ?_⟩
      · exact scanned.extended_reached extended old (by simp)
      · intro row
        rw [outputs]
        simp [other]
      · intro row
        rw [spends]
        simp [other]
  · intro old oldMember
    by_cases own : old.2.id = user.id
    · exact ⟨_, (accounts _).mpr (.inl rfl), movedId.trans own.symm⟩
    · exact ⟨old, (accounts old).mpr (.inr ⟨oldMember, own⟩), rfl⟩

theorem added {user : Account} (scanned : RowsScanned ledger env chain db)
    (fresh : ∀ row ∈ db.accounts, row.2.id ≠ user.id)
    (unscanned : user.startHeight = user.scanHeight)
    (added : Added env user db next) : RowsScanned ledger env chain next := by
  obtain rfl := added.next_eq
  refine ⟨?_, ?_, scanned.received.add fresh unscanned,
    scanned.spent.add fresh unscanned⟩
  · intro row member
    rcases SortedRows.mem_put.mp member with rfl | ⟨old, -⟩
    · exact unscanned.le
    · exact scanned.started row old
  · intro row member ahead
    rcases SortedRows.mem_put.mp member with rfl | ⟨old, -⟩
    · exact absurd ahead (by simp [unscanned])
    · exact scanned.fixed row old ahead

theorem store (scanned : RowsScanned ledger env chain db)
    (isTrue : TrueChain ledger env chain)
    {pending : List (BlockId × AccountLookup)}
    (agree : Agreement pending db) {status : AccountStatus} {user : Account}
    {first last : BlockId} (member : (status, user) ∈ db.accounts)
    (started : user.startHeight ≤ first) (reached : first ≤ user.scanHeight)
    (ahead : user.scanHeight ≤ last) (fixed : Fixed env db last)
    {outputs : List Output} {spends : List Spend}
    (received : ∀ row, row ∈ outputs ↔ ∃ id, first < id ∧ id ≤ last ∧
      row ∈ ledger.received.rows user.id (chain id))
    (spent : ∀ row, row ∈ spends ↔ ∃ id, first < id ∧ id ≤ last ∧
      row ∈ ledger.spent.rows user.id (chain id))
    (blocks : next.blocks = db.blocks)
    (accounts : next.accounts =
      db.accounts.put (status, { user with scanHeight := last }))
    (nextOutputs : next.outputs =
      db.outputs.addAll (outputs.map fun output => (user.id, output)))
    (nextSpends : next.spends =
      db.spends.addAll (spends.map fun spend => (user.id, spend))) :
    RowsScanned ledger env chain next := by
  have replaced : ∀ row, row ∈ next.accounts ↔
      row = (status, { user with scanHeight := last }) ∨
        (row ∈ db.accounts ∧ row.2.id ≠ user.id) := by
    intro row
    rw [accounts]
    refine agree.mem_put member ?_
    rfl
  refine ⟨?_, ?_, ?_, ?_⟩
  · intro row rowMember
    rcases (replaced row).mp rowMember with rfl | ⟨old, -⟩
    · exact started.trans (reached.trans ahead)
    · exact scanned.started row old
  · intro row rowMember
    unfold Fixed
    rw [blocks]
    rcases (replaced row).mp rowMember with rfl | ⟨old, -⟩
    · exact fun _ => fixed
    · exact scanned.fixed row old
  · rw [nextOutputs]
    exact scanned.received.store isTrue.height_eq outputsKey_keyed member
      replaced started reached ahead received
  · rw [nextSpends]
    exact scanned.spent.store isTrue.height_eq spendsKey_keyed member
      replaced started reached ahead spent

/-- The rows are in step in every run without such moves. -/
theorem upheld : Upheld ledger env SkipsNothing (RowsScanned ledger env) where
  within := fun skips => skips.1
  relabelled := by
    intro chain db next stored scanned relabelled
    exact scanned.relabel stored.isTrue (.of_blocks stored relabelled.blocks)
      relabelled.accounts relabelled.kept relabelled.outputs relabelled.spends
  added := fun scanned fresh unscanned added =>
    scanned.added fresh unscanned added
  moved := fun tracked scanned skips changed =>
    scanned.heightChanged tracked.stored tracked.indexed.agreement skips
      changed
  chainMoved := fun tracked scanned moved =>
    scanned.chainMoved tracked.stored.isTrue tracked.indexed.agreement moved
  scanned := by
    intro chain height last state next user status existing scanned scan
      stored
    obtain ⟨_, _, tables⟩ := stored.db_eq
    have outputs := scan.outputs
    have spends := scan.spends
    rw [← scan.sameId] at outputs spends tables
    refine scanned.store scan.stored.isTrue scan.agreement scan.member
      scan.started scan.reached (Nat.le_of_lt scan.ahead) scan.fixed outputs
      spends ?_ ?_ ?_ ?_
    all_goals rw [tables]
  hooked := fun scanned => scanned.of_tables rfl rfl rfl rfl
  cleared := fun _ scanned => scanned.of_tables rfl rfl rfl rfl
  clearedIds := fun _ scanned => scanned.of_tables rfl rfl rfl rfl

theorem of_unscanned (outputs : db.outputs = .empty)
    (spends : db.spends = .empty) (unscanned : ∀ row ∈ db.accounts,
      row.2.startHeight = row.2.scanHeight) :
    RowsScanned ledger env chain db := by
  refine ⟨?_, ?_, ⟨?_, ?_⟩, ⟨?_, ?_⟩⟩
  · exact fun row member => (unscanned row member).le
  · exact fun row member ahead =>
      absurd ahead (by simp [unscanned row member])
  · intro row member output
    rw [outputs]
    refine iff_of_false (SortedRows.not_mem_empty _) ?_
    rintro ⟨id, above, below, _⟩
    exact absurd (above.trans_le below) (by simp [unscanned row member])
  · rw [outputs]
    exact fun row member => absurd member (SortedRows.not_mem_empty row)
  · intro row member spend
    rw [spends]
    refine iff_of_false (SortedRows.not_mem_empty _) ?_
    rintro ⟨id, above, below, _⟩
    exact absurd (above.trans_le below) (by simp [unscanned row member])
  · rw [spends]
    exact fun row member => absurd member (SortedRows.not_mem_empty row)

theorem of_openNew (opened : openNew env = .ok db) :
    RowsScanned ledger env chain db := by
  unfold openNew at opened
  split at opened
  · cases opened
  split at opened
  · cases opened
  cases opened
  exact .of_unscanned rfl rfl (by simp)

end RowsScanned

/-! ## Whole runs -/

/-- The rows of an account are those of its scanned blocks, each once. -/
structure HoldsScanned (ledger : Ledger) (chain : BlockId → Hash) (db : Db)
    (user : Account) : Prop where
  outputs : ∀ output, (user.id, output) ∈ db.outputs ↔
    ledger.received.Scanned chain user output
  spends : ∀ spend, (user.id, spend) ∈ db.spends ↔
    ledger.spent.Scanned chain user spend
  outputsOnce : (db.outputs.rows.filter fun row => row.1 = user.id).Nodup
  spendsOnce : (db.spends.rows.filter fun row => row.1 = user.id).Nodup

theorem RowsScanned.holdsScanned {ledger : Ledger} {env : Env} {db : Db}
    {chain other : BlockId → Hash} (scanned : RowsScanned ledger env chain db)
    (tracked : Tracked ledger env chain db)
    (checkpoints : env.checkpoints ≠ .empty)
    (stored : StoredChain ledger env db other)
    {row : AccountStatus × Account} (member : row ∈ db.accounts) :
    HoldsScanned ledger other db row.2 := by
  have same : ∀ id, row.2.startHeight < id → id ≤ row.2.scanHeight →
      other id = chain id := by
    intro id above below
    have fixed := scanned.fixed row member (above.trans_le below)
    exact stored.unique tracked.stored checkpoints (fixed.mono below)
  refine ⟨?_, ?_, db.outputs.rows_nodup.filter _,
    db.spends.rows_nodup.filter _⟩
  · intro output
    rw [scanned.received.rows row member]
    refine exists_congr fun id => and_congr_right fun above =>
      and_congr_right fun below => ?_
    rw [same id above below]
  · intro spend
    rw [scanned.spent.rows row member]
    refine exists_congr fun id => and_congr_right fun above =>
      and_congr_right fun below => ?_
    rw [same id above below]

/-- From a new database on, calls that skip no row and continue the stored
chain leave exactly the rows of the scanned blocks. -/
theorem rows_of_scanned_blocks {ledger : Ledger} {env : Env}
    {chain : BlockId → Hash} {start final : Db} {operations : List Operation}
    (opened : openNew env = .ok start) (isTrue : TrueChain ledger env chain)
    (run : Run (fun db operation next => Honest ledger env db operation ∧
      Guarded ledger env SkipsNothing db operation ∧
      Step env db operation next)
      start operations final) :
    (∃ stored, StoredChain ledger env final stored) ∧
      ∀ stored, StoredChain ledger env final stored →
        ∀ row ∈ final.accounts, HoldsScanned ledger stored final row.2 := by
  obtain ⟨checkpoints, last, tracked, scanned⟩ :=
    RowsScanned.upheld.run opened isTrue (.of_openNew opened) run
  refine ⟨⟨last, tracked.stored⟩, ?_⟩
  intro stored isStored row member
  exact scanned.holdsScanned tracked checkpoints isStored member

private def sampleCalls : List Operation :=
  [.addAccount 0 sampleAddress 7 0,
    .update 0 [10, 11, 12] [⟨1, sampleAddress, 0, [sampleOutput], []⟩] []]

private def samplePaid : Db := afterAll sampleEnv sampleDb sampleCalls

private theorem samplePaid_run :
    Run (fun db operation next => Honest sampleLedger sampleEnv db operation ∧
      Guarded sampleLedger sampleEnv SkipsNothing db operation ∧
      Step sampleEnv db operation next)
      sampleDb sampleCalls samplePaid := by
  refine .cons ⟨trivial, ⟨?_, trivial⟩, step_after (by decide)⟩
    (.cons ⟨?_, ⟨trivial, trivial⟩, step_after (by decide)⟩ (.nil _))
  · show wrap32 (sampleDb.findLastId + 1) ≠ AccountId.invalid
    decide
  · intro _
    refine ⟨sampleChain, sampleBatch (by decide : 0 + 3 < 2 ^ 64), ?_⟩
    intro user member
    rw [List.mem_singleton.mp member]
    refine sampleScan (by decide) ?_
    show ∀ row ∈ (after sampleEnv sampleDb
      (.addAccount 0 sampleAddress 7 0)).accounts.rows, row.2.startHeight = 0
    decide

/-- A rescan to height two keeps the payment at height one, and so does a
longer chain. -/
theorem rows_of_scanned_blocks_at_two :
    let calls := [.rescan 2 [sampleAddress], .syncChain 1 [11, 12, 13] false]
    let final := afterAll sampleEnv samplePaid calls
    (⟨3, 13⟩ : BlockInfo) ∈ final.blocks ∧
      (1, sampleOutput) ∈ final.outputs ∧
      (∃ stored, StoredChain sampleLedger sampleEnv final stored) ∧
      ∀ stored, StoredChain sampleLedger sampleEnv final stored →
        ∀ row ∈ final.accounts,
          HoldsScanned sampleLedger stored final row.2 := by
  intro calls final
  have keeps : Guarded sampleLedger sampleEnv SkipsNothing samplePaid
      (.rescan 2 [sampleAddress]) := by
    refine ⟨trivial, ?_, fun _ _ => trivial⟩
    show ∀ user ∈ samplePaid.accountAt sampleAddress, 2 ≤ user.scanHeight ∧
      (∀ row ∈ samplePaid.outputs.rows, row.1 = user.id →
        row.2.link.height ≠ 2) ∧
      ∀ row ∈ samplePaid.spends.rows, row.1 = user.id →
        row.2.link.height ≠ 2
    decide
  have continues : Guarded sampleLedger sampleEnv SkipsNothing
      (after sampleEnv samplePaid (.rescan 2 [sampleAddress]))
      (.syncChain 1 [11, 12, 13] false) := by
    refine ⟨fun _ => ⟨sampleChain,
      sampleBatch (by decide : 3 + 1 < 2 ^ 64), ?_⟩, trivial⟩
    intro row member _
    have all : ∀ row ∈ (after sampleEnv samplePaid
        (.rescan 2 [sampleAddress])).blocks.rows,
        sampleChain row.id = row.hash := by
      decide
    exact all row member
  have run : Run (fun db operation next =>
      Honest sampleLedger sampleEnv db operation ∧
      Guarded sampleLedger sampleEnv SkipsNothing db operation ∧
      Step sampleEnv db operation next) samplePaid calls final :=
    .cons ⟨trivial, keeps, step_after (by decide)⟩
      (.cons ⟨trivial, continues, step_after (by decide)⟩ (.nil _))
  refine ⟨by decide, by decide, ?_⟩
  exact rows_of_scanned_blocks rfl sampleChain_true (samplePaid_run.append run)

/-- A rescan to height one removes the payment there, and the account counts
as scanned to height one. -/
theorem rescan_loses_a_payment :
    ¬ ∀ (ledger : Ledger) (env : Env) (chain : BlockId → Hash)
      (start final : Db) (operations : List Operation),
      openNew env = .ok start → TrueChain ledger env chain →
      Run (fun db operation next => Honest ledger env db operation ∧
        Step env db operation next) start operations final →
      (∃ stored, StoredChain ledger env final stored) ∧
        ∀ stored, StoredChain ledger env final stored →
          ∀ row ∈ final.accounts, HoldsScanned ledger stored final row.2 := by
  intro always
  have run : Run (fun db operation next =>
      Honest sampleLedger sampleEnv db operation ∧
        Step sampleEnv db operation next) sampleDb
      (sampleCalls ++ [.rescan 1 [sampleAddress]])
      (after sampleEnv samplePaid (.rescan 1 [sampleAddress])) := by
    have paid := samplePaid_run.imp
      fun _ _ _ stepped => (⟨stepped.1, stepped.2.2⟩ : _ ∧ _)
    exact paid.append (.cons ⟨trivial, step_after (by decide)⟩ (.nil _))
  obtain ⟨⟨stored, isStored⟩, exact⟩ :=
    always _ _ _ _ _ _ rfl sampleChain_true run
  have lost : ∃ row ∈ (after sampleEnv samplePaid
      (.rescan 1 [sampleAddress])).accounts.rows,
      row.2.startHeight = 0 ∧ row.2.scanHeight = 1 ∧ row.2.id = 1 ∧
        (row.2.id, sampleOutput) ∉ (after sampleEnv samplePaid
          (.rescan 1 [sampleAddress])).outputs := by
    decide
  obtain ⟨row, member, started, scanned, id, absent⟩ := lost
  refine absent (((exact stored isStored row member).outputs _).mpr
    ⟨1, by lia, by lia, ?_⟩)
  have block : (⟨1, 11⟩ : BlockInfo) ∈ (after sampleEnv samplePaid
      (.rescan 1 [sampleAddress])).blocks := by
    decide
  rw [id, isStored.stored _ block]
  simp [sampleLedger]

end XfoLws.Db
