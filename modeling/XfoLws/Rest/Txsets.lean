import XfoLws.Rest.KexRegistry
import XfoLws.Rest.WalletRows

/-!
# Table of unstake txsets

The handlers of `multisig_txset_register`, `multisig_txset_signature` and
`multisig_txset_submit` on the table that they share.  The database is a
snapshot; the clock and the order in which the table is listed are arguments.
-/

namespace XfoLws.Rest

open Wire Db

structure UnstakeTxset where
  ownerAddress : Bytes
  walletId : Bytes
  multisigAddress : Bytes
  txsetId : Bytes
  txDataHash : Bytes
  minerAddress : Bytes
  state : Bytes
  collectedSignatures : UInt32
  requiredSignatures : UInt32
  signedTxDataHash : Bytes
  submittedTxHash : Bytes
  createdAt : UInt64
  updatedAt : UInt64
deriving DecidableEq, Repr

/-- `lws_unstake_txsets`: every record is stored under its own id. -/
abbrev TxsetTable := SortedRows UnstakeTxset.txsetId

def unstakeTxsetsMaxEntries : ℕ := 128

def unstakeTxsetTtlSeconds : UInt64 := 60 * 60

def txsetIsExpired (now : UInt64) (record : UnstakeTxset) : Bool :=
  let lastSeen := max record.createdAt record.updatedAt
  lastSeen = 0 ∨ lastSeen + unstakeTxsetTtlSeconds < now

def txsetRetention : Retention UnstakeTxset UInt64 where
  maxEntries := unstakeTxsetsMaxEntries
  late now := unstakeTxsetTtlSeconds < now
  expired := txsetIsExpired
  permanent _ := false
  updatedAt := UnstakeTxset.updatedAt

/-- When a request takes the lock, and how the table is listed then. -/
structure TxsetMoment where
  now : UInt64
  iteration : Iteration UnstakeTxset

/-- `prune_lws_unstake_txsets_locked`. -/
def pruneTxsets (moment : TxsetMoment) (table : TxsetTable) : TxsetTable :=
  txsetRetention.prune moment.iteration moment.now table

/-- What the handlers take from the process; `contentHash` is
`txset_content_hash`. -/
structure TxsetEnv where
  env : Env
  db : Db
  addressString : AccountAddress → Bytes
  parses : Bytes → Bool
  contentHash : Bytes → Bytes

def isHexDigit (byte : Byte) : Bool :=
  (48 ≤ byte ∧ byte ≤ 57) ∨ (65 ≤ byte ∧ byte ≤ 70) ∨
    (97 ≤ byte ∧ byte ≤ 102)

def isHexString (value : Bytes) : Bool :=
  value ≠ [] ∧ value.all isHexDigit

/-! ## multisig_txset_register -/

structure MultisigTxsetRegister where
  creds : AccountCredentials
  walletId : Bytes
  multisigAddress : Bytes
  txDataHex : Bytes
  minerAddress : Bytes
  purpose : Bytes
deriving DecidableEq, Repr

structure MultisigTxsetRegisterResponse where
  success : Bool
  txsetId : Bytes
  state : Bytes
  error : String
deriving DecidableEq, Repr

namespace MultisigTxsetRegister

/-- Why a request of an open account is refused before the lock. -/
def refusal (env : TxsetEnv) (req : MultisigTxsetRegister) : Option String :=
  if ¬ env.parses req.multisigAddress then some "Invalid multisig_address"
  else if req.walletId = [] then some "wallet_id is required"
  else if req.purpose ≠ text "miner_unstake" then
    some "Only miner_unstake txsets are supported"
  else if ¬ isHexString req.txDataHex ∨ req.txDataHex.length ≤ 64 then
    some "tx_data_hex must be a non-empty hex txset, not a tx hash or placeholder"
  else if (text "unsigned_emergency_unstake_").isPrefixOf req.txDataHex ∨
      (text "mock_").isPrefixOf req.txDataHex then
    some "mock or placeholder unstake txset is rejected"
  else if req.minerAddress ≠ env.addressString req.creds.address then
    some "miner_address must match authenticated wallet address"
  else none

/-- `stable_txset_id`. -/
def txsetId (env : TxsetEnv) (req : MultisigTxsetRegister) : Bytes :=
  req.walletId ++ text ":" ++ req.multisigAddress ++ text ":" ++
    env.contentHash req.txDataHex

def newRecord (env : TxsetEnv) (req : MultisigTxsetRegister) (now : UInt64) :
    UnstakeTxset where
  ownerAddress := env.addressString req.creds.address
  walletId := req.walletId
  multisigAddress := req.multisigAddress
  txsetId := req.txsetId env
  txDataHash := env.contentHash req.txDataHex
  minerAddress := req.minerAddress
  state := text "registered"
  collectedSignatures := 0
  requiredSignatures := 2
  signedTxDataHash := []
  submittedTxHash := []
  createdAt := now
  updatedAt := 0

/-- The handler under the lock, behind the prune. -/
def locked (env : TxsetEnv) (req : MultisigTxsetRegister) (now : UInt64)
    (table : TxsetTable) : MultisigTxsetRegisterResponse × TxsetTable :=
  let existing := table.find? (req.txsetId env)
  if existing.isNone ∧ unstakeTxsetsMaxEntries ≤ table.rows.length then
    (⟨false, [], text "failed",
      "LWS unstake txset registry capacity reached"⟩, table)
  else
    let record :=
      { existing.getD (req.newRecord env now) with updatedAt := now }
    (⟨true, req.txsetId env, record.state, ""⟩, table.put record)

def handle (env : TxsetEnv) (req : MultisigTxsetRegister)
    (moment : TxsetMoment) (table : TxsetTable) :
    Except Failure MultisigTxsetRegisterResponse × TxsetTable :=
  match openAccount env.env env.db req.creds with
  | .error error => (.error error, table)
  | .ok _ =>
      match req.refusal env with
      | some message => (.ok ⟨false, [], text "failed", message⟩, table)
      | none =>
          let (response, next) :=
            req.locked env moment.now (pruneTxsets moment table)
          (.ok response, next)

/-- A request that gets the lock. -/
def Enters (env : TxsetEnv) (req : MultisigTxsetRegister) : Prop :=
  (openAccount env.env env.db req.creds).isOk = true ∧
    req.refusal env = none

instance (env : TxsetEnv) (req : MultisigTxsetRegister) :
    Decidable (req.Enters env) :=
  inferInstanceAs (Decidable (_ ∧ _))

/-- A request that gets the lock prunes; another one leaves the table. -/
theorem handle_table {env : TxsetEnv} {req : MultisigTxsetRegister}
    {moment : TxsetMoment} {table : TxsetTable} :
    (req.Enters env → (req.handle env moment table).2 =
        (req.locked env moment.now (pruneTxsets moment table)).2) ∧
      (¬ req.Enters env → (req.handle env moment table).2 = table) := by
  unfold handle Enters
  cases openAccount env.env env.db req.creds with
  | error error =>
      exact ⟨fun enters => (Bool.false_ne_true enters.1).elim, fun _ => rfl⟩
  | ok user =>
      cases req.refusal env with
      | some message =>
          exact ⟨fun enters => (Option.some_ne_none _ enters.2).elim,
            fun _ => rfl⟩
      | none =>
          exact ⟨fun _ => rfl, fun never => (never ⟨rfl, rfl⟩).elim⟩

end MultisigTxsetRegister

/-! ## multisig_txset_signature -/

structure MultisigTxsetSignature where
  creds : AccountCredentials
  walletId : Bytes
  txsetId : Bytes
  multisigAddress : Bytes
  signerAddress : Bytes
  signerRole : Bytes
  signedTxDataHex : Bytes
deriving DecidableEq, Repr

structure MultisigTxsetSignatureResponse where
  success : Bool
  txsetId : Bytes
  state : Bytes
  collectedSignatures : UInt32
  requiredSignatures : UInt32
  submittedTxHash : Bytes
  error : String
deriving DecidableEq, Repr

namespace MultisigTxsetSignature

/-- Why a request of an open account is refused before the lock. -/
def refusal (env : TxsetEnv) (req : MultisigTxsetSignature) : Option String :=
  if req.walletId = [] ∨ req.multisigAddress = [] then
    some "wallet_id and multisig_address are required"
  else if req.signerRole ≠ text "miner" then
    some "Only miner signatures are accepted from browser wallet"
  else if ¬ isHexString req.signedTxDataHex ∨
      req.signedTxDataHex.length ≤ 64 then
    some "signed_tx_data_hex must be a real hex txset"
  else if req.signerAddress ≠ env.addressString req.creds.address then
    some "signer_address must match authenticated wallet address"
  else none

/-- The handler under the lock, behind the prune; `later` is the clock when
the record is stored. -/
def locked (env : TxsetEnv) (req : MultisigTxsetSignature) (later : UInt64)
    (table : TxsetTable) : MultisigTxsetSignatureResponse × TxsetTable :=
  match table.find? req.txsetId with
  | none => (⟨false, req.txsetId, text "failed", 0, 2, [],
      "txset_id is not registered"⟩, table)
  | some record =>
      if record.walletId ≠ req.walletId ∨
          record.multisigAddress ≠ req.multisigAddress then
        (⟨false, req.txsetId, text "failed", record.collectedSignatures,
          record.requiredSignatures, [], "txset metadata mismatch"⟩, table)
      else if record.ownerAddress ≠ env.addressString req.creds.address ∨
          record.minerAddress ≠ req.signerAddress then
        (⟨false, req.txsetId, text "failed", record.collectedSignatures,
          record.requiredSignatures, [],
          "signer does not match registered miner wallet"⟩, table)
      else
        let stored :=
          { record with
            signedTxDataHash := env.contentHash req.signedTxDataHex
            collectedSignatures := max record.collectedSignatures 1
            state := text "needs_more_signatures"
            updatedAt := later }
        (⟨true, stored.txsetId, stored.state, stored.collectedSignatures,
          stored.requiredSignatures, stored.submittedTxHash, ""⟩,
          table.put stored)

def handle (env : TxsetEnv) (req : MultisigTxsetSignature)
    (moment : TxsetMoment) (later : UInt64) (table : TxsetTable) :
    Except Failure MultisigTxsetSignatureResponse × TxsetTable :=
  match openAccount env.env env.db req.creds with
  | .error error => (.error error, table)
  | .ok _ =>
      match req.refusal env with
      | some message =>
          (.ok ⟨false, req.txsetId, text "failed", 0, 2, [], message⟩, table)
      | none =>
          let (response, next) :=
            req.locked env later (pruneTxsets moment table)
          (.ok response, next)

/-- A request that gets the lock. -/
def Enters (env : TxsetEnv) (req : MultisigTxsetSignature) : Prop :=
  (openAccount env.env env.db req.creds).isOk = true ∧
    req.refusal env = none

instance (env : TxsetEnv) (req : MultisigTxsetSignature) :
    Decidable (req.Enters env) :=
  inferInstanceAs (Decidable (_ ∧ _))

/-- A request that gets the lock prunes; another one leaves the table. -/
theorem handle_table {env : TxsetEnv} {req : MultisigTxsetSignature}
    {moment : TxsetMoment} {later : UInt64} {table : TxsetTable} :
    (req.Enters env → (req.handle env moment later table).2 =
        (req.locked env later (pruneTxsets moment table)).2) ∧
      (¬ req.Enters env → (req.handle env moment later table).2 = table) := by
  unfold handle Enters
  cases openAccount env.env env.db req.creds with
  | error error =>
      exact ⟨fun enters => (Bool.false_ne_true enters.1).elim, fun _ => rfl⟩
  | ok user =>
      cases req.refusal env with
      | some message =>
          exact ⟨fun enters => (Option.some_ne_none _ enters.2).elim,
            fun _ => rfl⟩
      | none =>
          exact ⟨fun _ => rfl, fun never => (never ⟨rfl, rfl⟩).elim⟩

end MultisigTxsetSignature

/-! ## multisig_txset_submit -/

structure MultisigTxsetSubmit where
  creds : AccountCredentials
  walletId : Bytes
  txsetId : Bytes
  multisigAddress : Bytes
deriving DecidableEq, Repr

structure MultisigTxsetSubmitResponse where
  success : Bool
  txHash : Bytes
  state : Bytes
  error : String
deriving DecidableEq, Repr

namespace MultisigTxsetSubmit

/-- The answer from the pruned table. -/
def locked (env : TxsetEnv) (req : MultisigTxsetSubmit) (table : TxsetTable) :
    MultisigTxsetSubmitResponse :=
  match table.find? req.txsetId with
  | none => ⟨false, [], text "failed", "txset_id is not registered"⟩
  | some record =>
      if record.walletId ≠ req.walletId ∨
          record.multisigAddress ≠ req.multisigAddress then
        ⟨false, [], text "failed", "txset metadata mismatch"⟩
      else if record.ownerAddress ≠ env.addressString req.creds.address then
        ⟨false, [], text "failed",
          "authenticated wallet does not own this txset"⟩
      else if record.collectedSignatures < record.requiredSignatures then
        ⟨true, [], text "needs_more_signatures",
          "More multisig signatures are required before submit"⟩
      else if record.submittedTxHash = [] then
        ⟨false, [], text "failed",
          "LWS does not yet have a fully signed raw tx submitter for multisig txsets"⟩
      else ⟨true, record.submittedTxHash, text "submitted", ""⟩

def handle (env : TxsetEnv) (req : MultisigTxsetSubmit)
    (moment : TxsetMoment) (table : TxsetTable) :
    Except Failure MultisigTxsetSubmitResponse × TxsetTable :=
  match openAccount env.env env.db req.creds with
  | .error error => (.error error, table)
  | .ok _ =>
      let pruned := pruneTxsets moment table
      (.ok (req.locked env pruned), pruned)

/-- A request that gets the lock. -/
def Enters (env : TxsetEnv) (req : MultisigTxsetSubmit) : Prop :=
  (openAccount env.env env.db req.creds).isOk = true

instance (env : TxsetEnv) (req : MultisigTxsetSubmit) :
    Decidable (req.Enters env) :=
  inferInstanceAs (Decidable (_ = _))

/-- A request that gets the lock prunes; another one leaves the table. -/
theorem handle_table {env : TxsetEnv} {req : MultisigTxsetSubmit}
    {moment : TxsetMoment} {table : TxsetTable} :
    (req.Enters env → (req.handle env moment table).2 =
        pruneTxsets moment table) ∧
      (¬ req.Enters env → (req.handle env moment table).2 = table) := by
  unfold handle Enters
  cases openAccount env.env env.db req.creds with
  | error error =>
      exact ⟨fun enters => (Bool.false_ne_true enters).elim, fun _ => rfl⟩
  | ok user => exact ⟨fun _ => rfl, fun never => (never rfl).elim⟩

end MultisigTxsetSubmit

end XfoLws.Rest
