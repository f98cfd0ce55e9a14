import XfoLws.Scanner.LoopFrames

/-!
# The link check of an untrusted daemon

The scan loop compares the predecessor of every block it scans with the last
hash of its list, and the list starts with the first block of the response.
That block is skipped, except at height one: there it is compared with itself.
`sync_full` always skips the first block.
-/

namespace XfoLws.Scanner

open Db (BlockId PowSync)

/-- Every block names the hash before it, the first one `seed`. -/
def LinkedTo (seed : Hash) : List Block → Prop
  | [] => True
  | block :: rest => block.prevId = seed ∧ LinkedTo block.hash rest

/-- A block does not name the hash of the block before it. -/
def BreaksLink (blocks : List Block) : Prop :=
  ∃ index before block, blocks[index]? = some before ∧
    blocks[index + 1]? = some block ∧ block.prevId ≠ before.hash

theorem breaksLink_iff {first : Block} {rest : List Block} :
    BreaksLink (first :: rest) ↔ ¬ LinkedTo first.hash rest := by
  induction rest generalizing first with
  | nil => simp [BreaksLink, LinkedTo]
  | cons block rest induction =>
      rw [LinkedTo, not_and_or, ← induction]
      constructor
      · rintro ⟨index, before, after, beforeRead, afterRead, different⟩
        cases index with
        | zero =>
            cases beforeRead
            cases afterRead
            exact .inl different
        | succ index =>
            exact .inr ⟨index, before, after, beforeRead, afterRead, different⟩
      · rintro (different | ⟨index, before, after, beforeRead, afterRead,
          different⟩)
        · exact ⟨0, first, block, rfl, rfl, different⟩
        · exact ⟨index + 1, before, after, beforeRead, afterRead, different⟩

/-! ## The blocks of a response -/

namespace Processing

variable {context : LoopContext} {disk : Option Db}
  {stopped : BlockId → Bool} {state next : Processing}

/-- An untrusted daemon's blocks that pass are linked to the last hash. -/
theorem processBlocks_ok (untrusted : context.untrustedDaemon = true)
    {entries : List (BlockWithTransactions × List (List ℕ))} {seed : Hash}
    (last : state.blockchain.getLast? = some seed)
    (success : entries.foldlM (processBlock context disk stopped) state =
      .ok next) : LinkedTo seed (entries.map (·.1.block)) := by
  induction entries generalizing state seed with
  | nil => trivial
  | cons entry entries induction =>
      rw [List.foldlM_cons, Outcome.bind_eq_ok] at success
      obtain ⟨middle, stepped, rest⟩ := success
      obtain ⟨-, appended, -, linked⟩ := processBlock_ok stepped
      have named := linked untrusted
      rw [last] at named
      refine ⟨(Option.some.inj named).symm, induction ?_ rest⟩
      rw [appended, List.getLast?_concat]

theorem processBlocks_error
    {entries : List (BlockWithTransactions × List (List ℕ))} {seed : Hash}
    (last : state.blockchain.getLast? = some seed)
    (failed : entries.foldlM (processBlock context disk stopped) state =
      .error prevIdMismatch) : ¬ LinkedTo seed (entries.map (·.1.block)) := by
  induction entries generalizing state seed with
  | nil => cases failed
  | cons entry entries induction =>
      rintro ⟨named, linked⟩
      rw [List.foldlM_cons] at failed
      rcases Outcome.bind_eq_error.mp failed with here | ⟨middle, stepped, rest⟩
      · refine processBlock_error here ?_
        rw [last, named]
      · obtain ⟨-, appended, -, -⟩ := processBlock_ok stepped
        refine induction ?_ rest linked
        rw [appended, List.getLast?_concat]

end Processing

section Response

variable {context : LoopContext} {disk : Option Db}
  {stopped : BlockId → Bool} {users : List LwsAccount} {window : Window}
  {response : GetBlocksFast}

theorem prevIdMismatch_iff (untrusted : context.untrustedDaemon = true)
    {first : Block} {rest : List Block}
    (blocks : response.blocks.map (·.block) = first :: rest)
    (decided : (∃ final, context.processResponse disk stopped users window
        response = .ok final) ∨
      context.processResponse disk stopped users window response =
        .error prevIdMismatch) :
    context.processResponse disk stopped users window response =
        .error prevIdMismatch ↔
      ¬ LinkedTo first.hash
        (if response.startHeight ≠ 1 then rest else first :: rest) := by
  have seeded : ∀ window,
      (context.begin disk users response window).blockchain.getLast? =
        some first.hash := by
    intro window
    obtain ⟨data, others, stored, rfl, -⟩ := List.map_eq_cons_iff.mp blocks
    simp [LoopContext.begin, stored]
  constructor
  · intro failed
    obtain ⟨lengths, _, folded⟩ := processResponse_error failed
    have broken := Processing.processBlocks_error (seeded _) folded
    rwa [scanned_blocks lengths, blocks] at broken
  · intro broken
    refine decided.resolve_left ?_
    rintro ⟨final, success⟩
    obtain ⟨lengths, _, folded⟩ := processResponse_ok success
    have linked := Processing.processBlocks_ok untrusted (seeded _) folded
    rw [scanned_blocks lengths, blocks] at linked
    exact broken linked

end Response

/-! ## The blocks of a response in `sync_full` -/

section SyncFull

variable (env : Env) (sizes : WindowSizes) (rules : PowRules)

/-- The proof of work of blocks behind a window passes, whatever they are
linked to. -/
def PowPasses : Window → List (BlockId × Block) → Prop
  | _, [] => True
  | window, (height, block) :: rest =>
      (window.trim sizes).accepts env rules height block ∧
        PowPasses ((window.trim sizes).push block.timestamp
          ((window.trim sizes).cumulative rules height)) rest

/-- The link check of `sync_full` rejects the blocks behind `first`. -/
def SyncRejects (window : Window) (start : BlockId) (first : Block)
    (rest : List Block) : Prop :=
  (Db.numbered (start + 1) rest).foldlM (syncBlock env sizes rules)
    ⟨window, first.hash, [first.hash], [⟨first.timestamp, ⟨0, 0⟩⟩]⟩ =
      .error .badBlockchain

variable {env sizes rules}

theorem syncBlocks_error_iff {entries : List (BlockId × Block)}
    {state : SyncState} (passes : PowPasses env sizes rules state.window
      entries) :
    entries.foldlM (syncBlock env sizes rules) state =
        .error .badBlockchain ↔
      ¬ LinkedTo state.hash (entries.map (·.2)) := by
  induction entries generalizing state with
  | nil =>
      refine ⟨fun failed => ?_, fun broken => absurd trivial broken⟩
      cases failed
  | cons entry entries induction =>
      obtain ⟨height, block⟩ := entry
      obtain ⟨here, later⟩ := passes
      rw [List.foldlM_cons, List.map_cons, LinkedTo, syncBlock]
      dsimp only
      by_cases linked : block.prevId = state.hash
      · rw [if_neg (not_not.mpr linked), if_neg (not_not.mpr here)]
        refine (induction later).trans ?_
        simp [linked]
      · rw [if_pos linked]
        simp [linked, bind, Except.bind]

end SyncFull

/-! ## The result -/

/-- The link check rejects a response exactly when a block does not name the
one before it, or block one does not name genesis; so does `sync_full`. -/
def LinkCheckExact (context : LoopContext) (disk : Option Db)
    (stopped : BlockId → Bool) (users : List LwsAccount) (window : Window)
    (response : GetBlocksFast) (syncWindow : Window) (genesis : Hash)
    (first : Block) (rest : List Block) : Prop :=
  (context.processResponse disk stopped users window response =
      .error prevIdMismatch ↔
    BreaksLink (first :: rest) ∨
      response.startHeight = 1 ∧ first.prevId ≠ genesis) ∧
  (context.processResponse disk stopped users window response =
      .error prevIdMismatch ↔
    SyncRejects context.env context.sizes context.rules syncWindow
      response.startHeight first rest)

section Result

variable {context : LoopContext} {disk : Option Db}
  {stopped : BlockId → Bool} {users : List LwsAccount}
  {window syncWindow : Window} {response : GetBlocksFast} {genesis : Hash}
  {first : Block} {rest : List Block}

theorem numbered_snd {α : Type} (start : BlockId) (entries : List α) :
    (Db.numbered start entries).map (·.2) = entries := by
  simp [Db.numbered, List.map_map, Function.comp_def]

theorem numbered_hashes (start : BlockId) (blocks : List Block) :
    (Db.numbered start blocks).map (·.2.hash) = blocks.map (·.hash) := by
  have blocksOnly := congrArg (List.map fun block : Block => block.hash)
    (numbered_snd start blocks)
  rwa [List.map_map] at blocksOnly

/-- A response that passes the other checks is rejected as it should be when
it does not start at height one or has a broken link.  Otherwise block one
would have to name itself as well as genesis. -/
theorem link_check_exact_iff (untrusted : context.untrustedDaemon = true)
    (blocks : response.blocks.map (·.block) = first :: rest)
    (decided : (∃ final, context.processResponse disk stopped users window
        response = .ok final) ∨
      context.processResponse disk stopped users window response =
        .error prevIdMismatch)
    (passes : PowPasses context.env context.sizes context.rules syncWindow
      (Db.numbered (response.startHeight + 1) rest)) :
    LinkCheckExact context disk stopped users window response syncWindow
        genesis first rest ↔
      response.startHeight ≠ 1 ∨ BreaksLink (first :: rest) ∨
        first.prevId = first.hash ∧ first.prevId = genesis := by
  have synced : SyncRejects context.env context.sizes context.rules
      syncWindow response.startHeight first rest ↔
        BreaksLink (first :: rest) := by
    rw [breaksLink_iff, SyncRejects, syncBlocks_error_iff passes,
      numbered_snd]
  rw [LinkCheckExact, prevIdMismatch_iff untrusted blocks decided, synced]
  by_cases atOne : response.startHeight = 1
  · rw [if_neg (not_not.mpr atOne), LinkedTo, not_and_or, ← breaksLink_iff]
    tauto
  · rw [if_pos atOne, ← breaksLink_iff]
    tauto

end Result

/-! ## Concrete responses -/

/-- The proof of work of three blocks is stored. -/
def verifiedDb : Db :=
  Db.afterAll Db.sampleEnv Db.sampleDb [.syncPow 0 [10, 11, 12]
    [⟨0, ⟨0, 1⟩⟩, ⟨0, ⟨0, 2⟩⟩, ⟨0, ⟨0, 3⟩⟩]]

/-- A response from height two is checked as it should be. -/
theorem link_check_exact_at_two :
    LinkCheckExact untrustedContext (some verifiedDb) (fun _ => false)
      [scannedUser 2] .empty (plainResponse 2 2) .empty 10
      (plainBlock 2).block [(plainBlock 3).block] := by
  have passes : PowPasses untrustedContext.env untrustedContext.sizes
      untrustedContext.rules .empty
      (Db.numbered 3 [(plainBlock 3).block]) :=
    ⟨fun _ => ⟨rfl, rfl⟩, trivial⟩
  exact (link_check_exact_iff rfl rfl (.inl ⟨_, rfl⟩) passes).mpr
    (.inl (by decide))

/-- Block one, linked to genesis, is compared with itself. -/
theorem link_check_rejects_block_one :
    ¬ ∀ (context : LoopContext) (disk : Option Db) (stopped : BlockId → Bool)
      (users : List LwsAccount) (window syncWindow : Window)
      (response : GetBlocksFast) (genesis : Hash) (first : Block)
      (rest : List Block),
      context.untrustedDaemon = true → 1 ≤ response.startHeight →
      rest ≠ [] → response.blocks.map (·.block) = first :: rest →
      ((∃ final, context.processResponse disk stopped users window response =
          .ok final) ∨
        context.processResponse disk stopped users window response =
          .error prevIdMismatch) →
      PowPasses context.env context.sizes context.rules syncWindow
        (Db.numbered (response.startHeight + 1) rest) →
      LinkCheckExact context disk stopped users window response syncWindow
        genesis first rest := by
  intro always
  have rejected : untrustedContext.processResponse (some Db.sampleDb)
      (fun _ => false) [scannedUser 1] .empty (plainResponse 1 2) =
        .error prevIdMismatch := rfl
  have exact := always untrustedContext (some Db.sampleDb) (fun _ => false)
    [scannedUser 1] .empty .empty (plainResponse 1 2) 10 (plainBlock 1).block
    [(plainBlock 2).block] rfl (by decide) (by decide) rfl (.inr rejected)
    ⟨fun _ => ⟨rfl, rfl⟩, trivial⟩
  rcases exact.1.mp rejected with broken | ⟨-, foreign⟩
  · exact breaksLink_iff.mp broken ⟨rfl, trivial⟩
  · exact foreign rfl

end XfoLws.Scanner
