import XfoLws.Scanner.Loop

/-!
# What a turn of the scan loop changes

Scanning a block moves no account; its hash is appended, and only the link
check raises the error of the link check.
-/

namespace XfoLws.Scanner

open Db (BlockId)

/-! ## Scan heights -/

/-- The scan heights of accounts, in their order. -/
def scanHeights (users : List LwsAccount) : List BlockId :=
  users.map (·.height)

namespace Scan

variable (scan : Scan)

theorem ring_height {payment : Payment} {mixin amount : ℕ} {kImage : KeyImage}
    (goffsets : List ℕ) (user : LwsAccount) :
    (scan.ring payment mixin amount kImage goffsets user).height =
      user.height := by
  induction goffsets generalizing user with
  | nil => rfl
  | cons goffset goffsets induction =>
      rw [ring]
      split
      · exact induction user
      · exact induction _

theorem inputs_height {payment : Payment} (vin : List TxIn)
    (user : LwsAccount) (ext : Db.Extra) (mixin : ℕ) :
    (scan.inputs payment vin user ext mixin).1.1.height = user.height := by
  induction vin generalizing user ext mixin with
  | nil => rfl
  | cons input vin induction =>
      cases input with
      | gen => exact induction user _ _
      | other => exact induction user _ _
      | toKey amount keyOffsets kImage =>
          rw [inputs]
          split
          · rfl
          · exact (induction _ _ _).trans (scan.ring_height _ user)

theorem outputs_height {key : PublicKey} {derived : KeyDerivation}
    {additional : List KeyDerivation} {mixin : ℕ}
    (outs : List (TxOut × ℕ)) (progress : Progress) :
    (scan.outputs key derived additional mixin outs progress).1.user.height =
      progress.user.height := by
  induction outs generalizing progress with
  | nil => rfl
  | cons out outs induction =>
      rw [outputs]
      split
      · rfl
      · exact induction _
      · refine (induction _).trans ?_
        dsimp only
        unfold LwsAccount.addOut
        split <;> rfl

theorem account_height {key : PublicKey} (user : LwsAccount)
    (shared : Shared) :
    (scan.account key user shared).1.1.height = user.height := by
  unfold account
  split
  · rfl
  split
  · rfl
  dsimp only
  have inputs := @inputs_height scan shared.payment scan.tx.vin user
    ⟨false, false⟩ 0
  split
  · rename_i passed
    rw [passed] at inputs
    exact inputs
  · rename_i passed
    rw [passed] at inputs
    exact (scan.outputs_height _ _).trans inputs

theorem accounts_height {key : PublicKey} (users : List LwsAccount)
    (shared : Shared) :
    scanHeights (scan.accounts key users shared).1 = scanHeights users := by
  induction users generalizing shared with
  | nil => rfl
  | cons user users induction =>
      have own := @account_height scan key user shared
      rw [accounts]
      split
      · rename_i passed
        rw [passed] at own
        exact congrArg (· :: scanHeights users) own
      · rename_i next passed
        rw [passed] at own
        exact congrArg₂ List.cons own (induction next)

theorem transaction_height (users : List LwsAccount)
    (reader : SubaddressReader) :
    scanHeights (scan.transaction users reader).1 = scanHeights users := by
  unfold transaction
  split
  · rfl
  split
  · rfl
  · exact scan.accounts_height users _

end Scan

/-! ## What a block changes -/

namespace Processing

variable {context : LoopContext} {disk : Option Db}
  {stopped : BlockId → Bool} {state next : Processing} {timestamp : ℕ}

/-- Scanning only changes the accounts, but for their heights, and what they
read. -/
def Scanned (state next : Processing) : Prop :=
  ∃ users reader, scanHeights users = scanHeights state.users ∧
    next = { state with users := users, reader := reader }

theorem scanTransaction_ok {txHash : Hash} {tx : Transaction}
    {outIds : List ℕ}
    (success : state.scanTransaction context timestamp txHash tx outIds =
      .ok next) : Scanned state next := by
  unfold scanTransaction at success
  dsimp only at success
  split at success
  · cases success
  · rename_i users reader passed
    cases success
    have heights := Scan.transaction_height ⟨context.env, context.crypto,
      state.height, timestamp, txHash, tx, outIds⟩ state.users state.reader
    rw [passed] at heights
    exact ⟨users, reader, heights, rfl⟩

theorem scanTransaction_error {txHash : Hash} {tx : Transaction}
    {outIds : List ℕ} :
    state.scanTransaction context timestamp txHash tx outIds ≠
      .error prevIdMismatch := by
  unfold scanTransaction
  dsimp only
  split <;> exact nofun

theorem verifyBlock_ok {block : Block}
    (success : state.verifyBlock context disk stopped block = .ok next) :
    state.blockchain.getLast? = some block.prevId ∧
      next = { state with window := state.window.trim context.sizes } := by
  unfold verifyBlock at success
  split at success
  · cases success
  rename_i linked
  refine ⟨not_not.mp linked, ?_⟩
  dsimp only at success
  split at success
  · cases success
  split at success
  · split at success
    · cases success
    split at success
    · cases success
    · cases success
      rfl
  · cases success
    rfl

theorem verifyBlock_error {block : Block}
    (failed : state.verifyBlock context disk stopped block =
      .error prevIdMismatch) :
    state.blockchain.getLast? ≠ some block.prevId := by
  intro linked
  unfold verifyBlock at failed
  rw [if_neg (not_not.mpr linked)] at failed
  dsimp only at failed
  split at failed
  · cases failed
  split at failed
  · split at failed
    · simp [prevIdMismatch, LoopExit.badBlockchain] at failed
    split at failed
    · simp [prevIdMismatch, LoopExit.badBlockchain] at failed
    · cases failed
  · cases failed

theorem checkBlock_ok {block : Block}
    (success : state.checkBlock context disk stopped block = .ok next) :
    (context.untrustedDaemon = true →
      state.blockchain.getLast? = some block.prevId) ∧
      ∃ window, next = { state with window := window } := by
  unfold checkBlock at success
  split at success
  · obtain ⟨linked, rfl⟩ := verifyBlock_ok success
    exact ⟨fun _ => linked, _, rfl⟩
  · rename_i trusted
    cases success
    exact ⟨fun untrusted => absurd untrusted trusted, _, rfl⟩

theorem scanEntry_ok {entry : Hash × (Transaction × Hash) × List ℕ}
    (success : scanEntry context timestamp state entry = .ok next) :
    Scanned state next := by
  unfold scanEntry at success
  dsimp only at success
  split at success
  · cases success
  · exact scanTransaction_ok success

theorem scanEntry_error {entry : Hash × (Transaction × Hash) × List ℕ} :
    scanEntry context timestamp state entry ≠ .error prevIdMismatch := by
  unfold scanEntry
  dsimp only
  split
  · simp [prevIdMismatch, LoopExit.badBlockchain]
  · exact scanTransaction_error

theorem scanEntries_ok {entries : List (Hash × (Transaction × Hash) × List ℕ)}
    (success : entries.foldlM (scanEntry context timestamp) state =
      .ok next) : Scanned state next := by
  refine Outcome.foldlM_preserves (Scanned state) ?_ ⟨_, _, rfl, rfl⟩ success
  rintro current entry after _member ⟨_, _, same, rfl⟩ stepped
  obtain ⟨_, _, again, rfl⟩ := scanEntry_ok stepped
  exact ⟨_, _, again.trans same, rfl⟩

theorem scanEntries_error
    {entries : List (Hash × (Transaction × Hash) × List ℕ)} :
    entries.foldlM (scanEntry context timestamp) state ≠
      .error prevIdMismatch := by
  intro failed
  obtain ⟨_, _, _, -, here⟩ := Outcome.foldlM_error (fun _ => True)
    (fun _ _ _ _ _ _ => trivial) trivial failed
  exact scanEntry_error here

/-- One block: the height goes up, and its hash is appended.  With an
untrusted daemon it names the last hash before. -/
theorem processBlock_ok {entry : BlockWithTransactions × List (List ℕ)}
    (success : state.processBlock context disk stopped entry = .ok next) :
    next.height = wrap64 (state.height + 1) ∧
      next.blockchain = state.blockchain ++ [entry.1.block.hash] ∧
      scanHeights next.users = scanHeights state.users ∧
      (context.untrustedDaemon = true →
        state.blockchain.getLast? = some entry.1.block.prevId) := by
  unfold processBlock at success
  dsimp only at success
  split at success
  · cases success
  split at success
  · cases success
  · cases success
  obtain ⟨coinbase, scanned, rest⟩ := Outcome.bind_eq_ok.mp success
  obtain ⟨_, _, coinbaseHeights, rfl⟩ := scanTransaction_ok scanned
  obtain ⟨verified, checked, rest⟩ := Outcome.bind_eq_ok.mp rest
  split at rest
  · cases rest
  obtain ⟨final, entries, stored⟩ := Outcome.bind_eq_ok.mp rest
  obtain ⟨_, _, entryHeights, rfl⟩ := scanEntries_ok entries
  cases stored
  obtain ⟨linked, window, rfl⟩ := checkBlock_ok checked
  have heights := entryHeights.trans coinbaseHeights
  unfold recordPow
  split
  · exact ⟨rfl, rfl, heights, linked⟩
  · exact ⟨rfl, rfl, heights, linked⟩

theorem processBlock_error {entry : BlockWithTransactions × List (List ℕ)}
    (failed : state.processBlock context disk stopped entry =
      .error prevIdMismatch) :
    state.blockchain.getLast? ≠ some entry.1.block.prevId := by
  unfold processBlock at failed
  dsimp only at failed
  split at failed
  · cases failed
  split at failed
  · cases failed
  · cases failed
  rcases Outcome.bind_eq_error.mp failed with here | ⟨_, scanned, rest⟩
  · exact absurd here scanTransaction_error
  obtain ⟨_, _, -, rfl⟩ := scanTransaction_ok scanned
  rcases Outcome.bind_eq_error.mp rest with here | ⟨_, _, rest⟩
  · unfold checkBlock at here
    split at here
    · have unlinked := verifyBlock_error here
      exact unlinked
    · cases here
  split at rest
  · cases rest
  rcases Outcome.bind_eq_error.mp rest with here | ⟨_, _, done⟩
  · exact absurd here scanEntries_error
  · cases done

end Processing

/-! ## What a response changes -/

section Response

variable {context : LoopContext} {disk : Option Db}
  {stopped : BlockId → Bool} {users : List LwsAccount} {window : Window}
  {response : GetBlocksFast} {final : Processing}

theorem processResponse_ok
    (success : context.processResponse disk stopped users window response =
      .ok final) :
    response.blocks.length = response.outputIndices.length ∧ ∃ window,
      response.scanned.2.foldlM (Processing.processBlock context disk stopped)
        (context.begin disk users response window) = .ok final := by
  unfold LoopContext.processResponse at success
  split at success
  · cases success
  rename_i lengths
  obtain ⟨started, -, folded⟩ := Outcome.bind_eq_ok.mp success
  exact ⟨not_not.mp lengths, started, folded⟩

theorem processResponse_error
    (failed : context.processResponse disk stopped users window response =
      .error prevIdMismatch) :
    response.blocks.length = response.outputIndices.length ∧ ∃ window,
      response.scanned.2.foldlM (Processing.processBlock context disk stopped)
        (context.begin disk users response window) =
          .error prevIdMismatch := by
  unfold LoopContext.processResponse at failed
  split at failed
  · simp [prevIdMismatch, LoopExit.runtime, LoopExit.badBlockchain] at failed
  rename_i lengths
  rcases Outcome.bind_eq_error.mp failed with here | ⟨started, -, folded⟩
  · unfold LoopContext.startWindow at here
    split at here
    · split at here
      · cases here
      · simp [prevIdMismatch, LoopExit.badBlockchain] at here
    · cases here
  · exact ⟨not_not.mp lengths, started, folded⟩

/-- The blocks that are scanned, with the indices for all of them. -/
theorem scanned_blocks
    (lengths : response.blocks.length = response.outputIndices.length) :
    response.scanned.2.map (·.1.block) =
      if response.startHeight ≠ 1 then
        (response.blocks.map (·.block)).drop 1
      else response.blocks.map (·.block) := by
  have zipped : (response.blocks.zip response.outputIndices).map
      (·.1.block) = response.blocks.map (·.block) := by
    have blocks := List.map_fst_zip lengths.le
    exact (List.map_map ..).symm.trans (congrArg (List.map (·.block)) blocks)
  unfold GetBlocksFast.scanned
  dsimp only
  split
  · rw [← zipped, List.map_drop]
  · exact zipped

end Response

/-! ## Concrete responses -/

/-- A transaction without a public key in its extra field. -/
def plainTransaction : Transaction where
  version := 2
  unlockTime := 0
  vin := [.gen]
  vout := []
  rctType := 0
  outPk := []
  ecdhInfo := []
  txPubKey := none
  extraNonce := none
  additionalTxPubKeys := []
  prefixHash := 0
  fee := 0

/-- Hashes are heights plus ten. -/
def plainChain (height : BlockId) : Hash := height + 10

/-- A block of this chain, with a coinbase only. -/
def plainBlock (height : BlockId) : BlockWithTransactions where
  block := ⟨plainChain height, plainChain (height - 1), 0⟩
  minerTx := plainTransaction
  minerTxHash := some 5
  txHashes := []
  transactions := []

def plainResponse (start : BlockId) (size : ℕ) : GetBlocksFast where
  startHeight := start
  blocks := (List.range' start size).map plainBlock
  outputIndices := List.replicate size [[]]

def plainCrypto : Crypto where
  generateKeyDerivation := fun key _ => some key
  outCanBeToAcc := fun _ _ _ => true
  deriveSubaddressPublicKey := fun key _ _ => some key
  decodeAmount := fun _ _ _ _ _ => none
  decryptPaymentId := fun short _ => short

/-- A loop that does not trust the daemon. -/
def untrustedContext : LoopContext where
  env := Db.sampleEnv
  crypto := plainCrypto
  sizes := shortSizes
  rules := countingRules
  maxSubaddresses := 0
  untrustedDaemon := true
  lastPow := 0

/-- An account scanned to a height. -/
def scannedUser (height : BlockId) : LwsAccount :=
  .ofParts ⟨[], 1, Db.sampleAddress, 7⟩ [] [] [] [] height

end XfoLws.Scanner
