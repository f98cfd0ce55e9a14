import XfoLws.Db.Chain
import XfoLws.Db.Webhooks

/-!
# Storing a scan

`storage::update` appends the scanned hashes, moves every scanned account to
the last block of the batch and stores its new rows.
-/

namespace XfoLws.Db

structure Updated where
  spendPubs : List WebhookTxSpend
  confirmPubs : List WebhookTxConfirmation
  accountsUpdated : ℕ
deriving DecidableEq, Repr

def addSpends (db : Db) (user : AccountId) (spends : List Spend) : Db :=
  { db with
    spends := bulkInsert db.spends (spends.map fun spend => (user, spend))
      false
    images := db.images.addAll (spends.map fun spend =>
      (spend.source, (⟨spend.image, spend.link⟩ : KeyImageLink))) }

/-! ## Checking and appending the hashes -/

/-- The branch of `update` that reaches the last checkpoint or passes it. -/
def updateChain (db : Db) (height lastUpdate : BlockId) (chain : List Hash)
    (pow : List PowSync) : Except Error Db := do
  let lastBlock ← db.lastBlockId
  if lastBlock < height then .error .badBlockchain
  else
    let lastSame := min lastBlock lastUpdate
    let offset := sub64 lastSame height
    match db.blocks.find? lastSame, chain[offset]? with
    | none, _ => .error (.notFound .blocks .getBoth)
    -- only when `lastUpdate` wrapped: a read past the end of `chain`
    | some _, none => .error .outOfRange
    | some row, some hash =>
        if row.hash ≠ hash then .error .blockchainReorg
        else
          let first := wrap64 (height + offset + 1)
          let db := db.appendBlockHashes first (chain.drop (offset + 1))
          .ok (if pow = [] then db
            else db.appendPow first (pow.drop (offset + 1)))

/-- The branch of `update` below the last checkpoint. -/
def updateHardened (db : Db) (lastUpdate : BlockId) (chain : List Hash) :
    Except Error Db :=
  match db.blocks.find? lastUpdate with
  | none => .ok db
  | some row =>
      if chain.getLast? ≠ some row.hash then .error .badBlockchain
      else .ok db

/-- Checking and appending the hashes, before any account is looked at. -/
def updateBlocks (env : Env) (db : Db) (height lastUpdate : BlockId)
    (chain : List Hash) (pow : List PowSync) : Except Error Db :=
  if env.getMaxHeight ≤ lastUpdate then
    db.updateChain height lastUpdate chain pow
  else db.updateHardened lastUpdate chain

/-! ## Updating the accounts -/

/-- What the loop over the users carries: `heights` buffers rows for
`accounts_by_height`. -/
structure Updating where
  db : Db
  heights : List AccountLookup
  out : Updated

/-- Rows the buffer stands for. -/
def Updating.pending (state : Updating) (lastUpdate : BlockId) :
    List (BlockId × AccountLookup) :=
  state.heights.map fun lookup => (lastUpdate, lookup)

def Updating.flush (state : Updating) (lastUpdate : BlockId) : Updating :=
  { state with
    db := { state.db with
      accountsByHeight :=
        bulkInsert state.db.accountsByHeight (state.pending lastUpdate) false }
    heights := [] }

/-- The status an account is looked up under: active if there is such an
account, else what its address says; `none` skips the account. -/
def statusOf (db : Db) (user : ScannedAccount) : Option AccountStatus :=
  if (db.findAccount? ⟨user.id, .active⟩).isSome then some .active
  else (db.findByAddress? user.dbAddress).map fun row => row.lookup.status

/-- The account and its new rows, before any hooks. -/
def storeRows (db : Db) (lastUpdate : BlockId) (user : ScannedAccount)
    (status : AccountStatus) (existing : Account) : Db :=
  { db with
    accounts := db.accounts.put
      (status, { existing with scanHeight := lastUpdate })
    accountsByHeight := db.accountsByHeight.erase
      (toLex (existing.scanHeight, user.id))
    outputs := bulkInsert db.outputs
      (user.outputs.map fun output => (user.id, output)) false
  : Db }.addSpends user.id user.spends

/-- The part of one pass that stores a scan newer than `existing`. -/
def storeScan (height lastUpdate : BlockId) (state : Updating)
    (user : ScannedAccount) (status : AccountStatus) (existing : Account) :
    Except Error Updating := do
  if (state.db.accountsByHeight.find?
      (toLex (existing.scanHeight, user.id))).isNone then
    .error (.notFound .accountsByHeight .getBoth)
  else
    let db := (state.db.storeRows lastUpdate user status existing).checkHooks
      user.id user.outputs
    let ongoingStart :=
      max (wrap64 (height + 1)) (wrap64 (existing.scanHeight + 1))
    let (db, confirmPubs) ← db.addOngoingHooks user.id ongoingStart
      (wrap64 (lastUpdate + 1)) state.out.confirmPubs
    let spendPubs ← db.checkSpends user.id user.spends state.out.spendPubs
    .ok ⟨db, state.heights ++ [⟨user.id, status⟩], spendPubs, confirmPubs,
      state.out.accountsUpdated + 1⟩

/-- One pass of the loop in `update`. -/
def updateUser (height lastUpdate : BlockId) (state : Updating)
    (user : ScannedAccount) : Except Error Updating :=
  let state :=
    if state.heights.length = 127 then state.flush lastUpdate else state
  match state.db.statusOf user with
  | none => .ok state
  | some status =>
      match state.db.findAccount? ⟨user.id, status⟩ with
      | none => .error (.notFound .accounts .getBoth)
      | some existing =>
          -- `<` instead of `!=` because of remote scanning: a check-in can
          -- occur before the user accounts are replaced
          if existing.scanHeight < user.scanHeight then .ok state
          else if lastUpdate ≤ existing.scanHeight then
            .ok { state with
              out.accountsUpdated := state.out.accountsUpdated + 1 }
          else storeScan height lastUpdate state user status existing

/-- `storage::update`. -/
def update (env : Env) (db : Db) (height : BlockId) (chain : List Hash)
    (users : List ScannedAccount) (pow : List PowSync) :
    Except Error (Db × Updated) :=
  if users = [] ∧ chain = [] then .ok (db, ⟨[], [], 0⟩)
  else if chain = [] then .error .invalidArgument
  else if pow ≠ [] ∧ chain.length ≠ pow.length then .error .invalidArgument
  else do
    let lastUpdate := wrap64 (height + (chain.length - 1))
    let db ← updateBlocks env db height lastUpdate chain pow
    let final ← users.foldlM (updateUser height lastUpdate)
      ⟨db, [], [], [], 0⟩
    let final := final.flush lastUpdate
    .ok (final.db, final.out)

end XfoLws.Db
