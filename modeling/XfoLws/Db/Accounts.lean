import XfoLws.Db.Chain

/-!
# Accounts

Creating accounts and changing their status.  The accounts table is keyed by
status and id; `accounts_by_address` and `accounts_by_height` are indexes that
each operation maintains by hand.
-/

namespace XfoLws.Db

/-- `get_account_time` on a clock reading in seconds since the epoch. -/
def getAccountTime (clock : ℤ) : Except Error AccountTime :=
  if clock < 0 ∨ (maxU32 : ℤ) < clock then .error .systemClockInvalidRange
  else .ok clock.toNat

/-- The last duplicate under `status`. -/
def lastAccount? (db : Db) (status : AccountStatus) : Option Account :=
  ((db.accounts.filter fun row => row.1 = status).last?).map Prod.snd

/-- Greatest account id, taken over the last account of every status. -/
def findLastId (db : Db) : AccountId :=
  [AccountStatus.active, .inactive, .hidden].foldl (fun best status =>
    max best ((db.lastAccount? status).elim 0 Account.id)) 0

def findByAddress? (db : Db) (address : AccountAddress) :
    Option AccountByAddress :=
  db.accountsByAddress.find? address.viewPublic

def findAccount? (db : Db) (lookup : AccountLookup) : Option Account :=
  (db.accounts.find? (toLex (lookup.status.toNat, lookup.id))).map Prod.snd

/-- Height of the last row in `blocks`. -/
def lastBlockId (db : Db) : Except Error BlockId :=
  match db.blocks.last? with
  | none => .error (.notFound .blocks .set)
  | some row => .ok row.id

/-! ## Adding accounts -/

def doAddAccount (env : Env) (db : Db) (user : Account) : Except Error Db :=
  if env.secretKeyToPublicKey user.key ≠ some user.address.viewPublic then
    .error .badViewKey
  else
    let status : AccountStatus :=
      if user.flags = AccountFlags.adminAccount then .hidden else .active
    let lookup : AccountLookup := ⟨user.id, status⟩
    match db.accountsByAddress.putNew ⟨user.address, lookup⟩ with
    | none => .error .accountExists
    | some accountsByAddress =>
        match db.accountsByHeight.putNew (user.scanHeight, lookup) with
        | none => .error (.keyExist .accountsByHeight)
        | some accountsByHeight =>
            match db.accounts.putNew (status, user) with
            | none => .error (.keyExist .accounts)
            | some accounts => .ok
                { db with accountsByAddress, accountsByHeight, accounts }

/-- `storage::add_account`. -/
def addAccount (env : Env) (clock : ℤ) (db : Db) (address : AccountAddress)
    (key : SecretKey) (flags : AccountFlags) : Except Error Db := do
  let currentTime ← getAccountTime clock
  let height ← db.lastBlockId
  db.doAddAccount env
    { id := wrap32 (db.findLastId + 1)
      access := currentTime
      address := address
      key := key
      scanHeight := height
      startHeight := height
      creation := currentTime
      flags := flags
      lookahead := .primary
      lookaheadFail := 0 }

/-! ## Changing status -/

/-- One pass of the loop in `change_status`; the flag says whether the address
was found. -/
def changeStatusOf (status : AccountStatus) (db : Db)
    (address : AccountAddress) : Except Error (Db × Bool) :=
  match db.findByAddress? address with
  | none => .ok (db, false)
  | some byAddress =>
      let current := byAddress.lookup
      if current.status = status then .ok (db, true)
      else
        match db.findAccount? current with
        | none => .error (.notFound .accounts .getBoth)
        | some user =>
            let lookup : AccountLookup := ⟨current.id, status⟩
            let accounts := db.accounts.erase
              (toLex (current.status.toNat, current.id))
            match accounts.putNew (status, user) with
            | none => .error (.keyExist .accounts)
            | some accounts =>
                match db.accountsByHeight.find?
                    (toLex (user.scanHeight, user.id)) with
                | none => .error (.notFound .accountsByHeight .getBoth)
                | some _ => .ok
                    ({ db with
                        accountsByAddress := db.accountsByAddress.put
                          { byAddress with lookup := lookup }
                        accounts := accounts
                        accountsByHeight := db.accountsByHeight.put
                          (user.scanHeight, lookup) }, true)

/-- `storage::change_status`, with the addresses that were found. -/
def changeStatus (db : Db) (status : AccountStatus)
    (addresses : List AccountAddress) :
    Except Error (Db × List AccountAddress) :=
  addresses.foldlM (fun (db, changed) address => do
    let (db, found) ← changeStatusOf status db address
    .ok (db, if found then changed ++ [address] else changed)) (db, [])

end XfoLws.Db
