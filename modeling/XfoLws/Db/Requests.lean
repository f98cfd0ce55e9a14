import XfoLws.Db.Subaddresses

/-!
# Rescans and requests

`change_height` moves an account back to an earlier height; it serves both
`storage::rescan` and accepted import requests.  Creation and import requests
wait in the `requests` table until an administrator accepts or rejects them.
-/

namespace XfoLws.Db

/-- The account `change_height` stores, before any lookahead. -/
def Account.movedBack (user : Account) (height : BlockId) : Account :=
  { user with
    scanHeight := min height user.scanHeight
    startHeight := min height user.startHeight
    lookaheadFail :=
      if height ≤ user.lookaheadFail then 0 else user.lookaheadFail }

/-- The writes at the end of `change_height`: the account, and its index row
from `current` to `height`. -/
def storeMoved (current height : BlockId) (lookup : AccountLookup)
    (user : Account) (db : Db) : Except Error Db :=
  match db.accountsByHeight.find? (toLex (current, user.id)) with
  | none => .error (.notFound .accountsByHeight .getBoth)
  | some _ =>
      match (db.accountsByHeight.erase (toLex (current, user.id))).putNew
          (height, lookup) with
      | none => .error (.keyExist .accountsByHeight)
      | some accountsByHeight => .ok
          { db with
            accounts := db.accounts.put (lookup.status, user)
            accountsByHeight := accountsByHeight }

/-- `change_height`, with the lookahead and the subaddress limit.  The default
lookahead is zero; `rescan` uses it and passes no subaddress cursors. -/
def changeHeight (env : Env) (height : BlockId) (address : AccountAddress)
    (lookahead : AddressIndex) (maxSubaddresses : ℕ) (db : Db) :
    Except Error Db :=
  match db.findByAddress? address with
  | none => .error .accountNotFound
  | some byAddress =>
      match db.findAccount? byAddress.lookup with
      | none => .error (.notFound .accounts .getBoth)
      | some user => do
          -- rollback before lookahead
          let db ← (db.rollbackOutputs user.id height).rollbackSpends user.id
            height
          let (moved, db) ←
            provision env (user.movedBack height) lookahead maxSubaddresses db
          db.storeMoved user.scanHeight height byAddress.lookup moved

/-- One pass of the loop in `rescan`: an unknown address is skipped. -/
def rescanOf (env : Env) (height : BlockId)
    (state : Db × List AccountAddress) (address : AccountAddress) :
    Except Error (Db × List AccountAddress) :=
  match changeHeight env height address .primary 0 state.1 with
  | .ok db => .ok (db, state.2 ++ [address])
  | .error .accountNotFound => .ok state
  | .error failure => .error failure

/-- `storage::rescan`, with the addresses that were found. -/
def rescan (env : Env) (db : Db) (height : BlockId)
    (addresses : List AccountAddress) :
    Except Error (Db × List AccountAddress) := do
  let currentHeight ← db.lastBlockId
  if currentHeight < height then .error .badHeight
  else addresses.foldlM (rescanOf env height) (db, [])

/-! ## Requests -/

def findRequest? (db : Db) (type : Request) (address : AccountAddress) :
    Option RequestInfo :=
  (db.requests.find? (toLex (type.toNat, address.spendPublic))).map Prod.snd

def eraseRequest (db : Db) (type : Request) (address : AccountAddress) : Db :=
  { db with
    requests :=
      db.requests.erase (toLex (type.toNat, address.spendPublic)) }

/-- `storage::creation_request`, with the webhooks it trips. -/
def creationRequest (env : Env) (clock : ℤ) (db : Db)
    (address : AccountAddress) (key : SecretKey) (flags : AccountFlags)
    (lookahead : AddressIndex) :
    Except Error (Db × List WebhookNewAccount) := do
  if env.createQueueMax = 0 then .error .createQueueMax
  else
    let currentTime ← getAccountTime clock
    if (db.findByAddress? address).isSome then .error .accountExists
    else
      let pending := db.requests.rows.filter fun row => row.1 = .create
      if pending ≠ [] ∧ env.createQueueMax ≤ pending.length then
        .error .createQueueMax
      else
        let height ← db.lastBlockId
        let info : RequestInfo :=
          { address := address
            key := key
            startHeight := height
            creation := currentTime
            creationFlags := flags
            lookahead := lookahead }
        match db.requests.putNew (.create, info) with
        | none => .error .duplicateRequest
        | some requests =>
            let hooks := db.webhooks.rows.filter fun row =>
              row.1 = ⟨AccountId.invalid, .newAccount⟩
            .ok ({ db with requests },
              hooks.map fun row => ⟨row.2, address⟩)

/-- `storage::import_request`. -/
def importRequest (clock : ℤ) (db : Db) (address : AccountAddress)
    (height : BlockId) (lookahead : AddressIndex) : Except Error Db := do
  let _currentTime ← getAccountTime clock
  if (db.findByAddress? address).isNone then .error .accountNotFound
  else
    let info : RequestInfo :=
      { address := address
        key := 0
        startHeight := height
        creation := 0
        creationFlags := 0
        lookahead := lookahead }
    match db.requests.putNew (.importScan, info) with
    | none => .error .duplicateRequest
    | some requests => .ok { db with requests }

/-- The account a creation request asks for. -/
def RequestInfo.account (info : RequestInfo) (id : AccountId)
    (address : AccountAddress) (currentTime : AccountTime) : Account :=
  { id := id
    access := currentTime
    address := address
    key := info.key
    scanHeight := info.startHeight
    startHeight := info.startHeight
    creation := info.creation
    flags := info.creationFlags
    lookahead := .primary
    lookaheadFail := 0 }

/-- What the loop of `create_accounts` carries. -/
structure Creation where
  db : Db
  lastId : AccountId
  stored : List AccountAddress

/-- One pass of the loop in `create_accounts`.  The lookahead rows are written
under the next id before the account is added. -/
def createAccount (env : Env) (currentTime : AccountTime)
    (maxSubaddresses : ℕ) (state : Creation) (address : AccountAddress) :
    Except Error Creation :=
  match state.db.findRequest? .create address with
  | none => .ok state
  | some info => do
      let db := state.db.eraseRequest .create address
      let nextId := wrap32 (state.lastId + 1)
      if nextId = AccountId.invalid then .error .accountMax
      else
        let user := info.account nextId address currentTime
        let (user, db) ← provision env user info.lookahead maxSubaddresses db
        match db.doAddAccount env user with
        | .ok db => .ok ⟨db, nextId, state.stored ++ [address]⟩
        | .error .accountExists => .ok { state with db := db }
        | .error .badViewKey => .ok { state with db := db }
        | .error failure => .error failure

def createAccounts (env : Env) (clock : ℤ) (db : Db)
    (addresses : List AccountAddress) (maxSubaddresses : ℕ) :
    Except Error (Db × List AccountAddress) := do
  let currentTime ← getAccountTime clock
  let final ← addresses.foldlM (createAccount env currentTime maxSubaddresses)
    ⟨db, db.findLastId, []⟩
  .ok (final.db, final.stored)

/-- One pass of the loop in `import_accounts`. -/
def importAccount (env : Env) (maxSubaddresses : ℕ)
    (state : Db × List AccountAddress) (address : AccountAddress) :
    Except Error (Db × List AccountAddress) :=
  match state.1.findRequest? .importScan address with
  | none => .ok state
  | some info =>
      let db := state.1.eraseRequest .importScan address
      match changeHeight env info.startHeight address info.lookahead
          maxSubaddresses db with
      | .ok db => .ok (db, state.2 ++ [address])
      | .error .accountNotFound => .ok (db, state.2)
      | .error failure => .error failure

def importAccounts (env : Env) (db : Db) (addresses : List AccountAddress)
    (maxSubaddresses : ℕ) : Except Error (Db × List AccountAddress) :=
  addresses.foldlM (importAccount env maxSubaddresses) (db, [])

/-- `storage::accept_requests`. -/
def acceptRequests (env : Env) (clock : ℤ) (db : Db) (type : Request)
    (addresses : List AccountAddress) (maxSubaddresses : ℕ) :
    Except Error (Db × List AccountAddress) :=
  if addresses = [] then .ok (db, [])
  else
    match type with
    | .create => createAccounts env clock db addresses maxSubaddresses
    | .importScan => importAccounts env db addresses maxSubaddresses

/-- One pass of the loop in `reject_requests`. -/
def rejectRequest (type : Request) (state : Db × List AccountAddress)
    (address : AccountAddress) : Db × List AccountAddress :=
  if (state.1.findRequest? type address).isSome then
    (state.1.eraseRequest type address, state.2 ++ [address])
  else state

/-- `storage::reject_requests`. -/
def rejectRequests (db : Db) (type : Request)
    (addresses : List AccountAddress) : Db × List AccountAddress :=
  addresses.foldl (rejectRequest type) (db, [])

end XfoLws.Db
