import XfoLws.Db.Tables
import XfoLws.Lib.Outcome

/-!
# The block chain tables

`storage::rollback`, `storage::sync_chain` and `storage::sync_pow`, with the
rollback of accounts, rows and events they share.
-/

namespace XfoLws.Db

/-! ## Rollback -/

/-- Rows of `spends` under `user` from the first one at or above `height`. -/
def spendsFrom (db : Db) (user : AccountId) (height : BlockId) :
    List (AccountId × Spend) :=
  db.spends.rows.filter fun row => row.1 = user ∧ height ≤ row.2.link.height

/-- One pass of the loop in `rollback_spends`. -/
def dropSpend (db : Db) (row : AccountId × Spend) : Except Error Db :=
  let image : OutputId × KeyImageLink :=
    (row.2.source, ⟨row.2.image, row.2.link⟩)
  match db.images.find? (imagesKey image) with
  | none => .error (.notFound .images .getBoth)
  | some _ => .ok
      { db with
        images := db.images.erase (imagesKey image)
        spends := db.spends.erase (spendsKey row) }

def rollbackSpends (db : Db) (user : AccountId) (height : BlockId) :
    Except Error Db :=
  (db.spendsFrom user height).foldlM dropSpend db

def rollbackOutputs (db : Db) (user : AccountId) (height : BlockId) : Db :=
  { db with
    outputs := db.outputs.filter fun row =>
      ¬ (row.1 = user ∧ height ≤ row.2.link.height) }

/-- The scan height of an account after a rollback to `height`. -/
def rollbackHeight (height : BlockId) : BlockId := max height 1 - 1

/-- One pass of the loop in `rollback_accounts`. -/
def rollbackAccount (height : BlockId) (db : Db)
    (row : BlockId × AccountLookup) : Except Error Db :=
  match db.accounts.find? (toLex (row.2.status.toNat, row.2.id)) with
  | none => .error (.notFound .accounts .getBoth)
  | some (_, user) => do
      let scanHeight := rollbackHeight height
      let user :=
        { user with
          scanHeight := scanHeight
          startHeight := min scanHeight user.startHeight }
      let db := { db with accounts := db.accounts.put (row.2.status, user) }
      let db := db.rollbackOutputs user.id height
      let db ← db.rollbackSpends user.id height
      .ok { db with
        accountsByHeight := db.accountsByHeight.erase (accountsByHeightKey row) }

/-- Index rows of the accounts scanned to `height` or above. -/
def scannedFrom (db : Db) (height : BlockId) :
    List (BlockId × AccountLookup) :=
  db.accountsByHeight.rows.filter fun row => height ≤ row.1

def rollbackAccounts (db : Db) (height : BlockId) : Except Error Db := do
  let affected := db.scannedFrom height
  let db ← affected.foldlM (rollbackAccount height) db
  .ok { db with
    accountsByHeight := bulkInsert db.accountsByHeight
      (affected.map fun row => (rollbackHeight height, row.2)) false }

/-- Events are sorted by height within a user, so walking each user's events
backwards until one lies below `height` visits exactly those removed. -/
def rollbackEvents (db : Db) (height : BlockId) : Db :=
  { db with
    events := db.events.filter fun row => row.2.link.tx.height < height }

/-- The start of `rollback_chain`, with the blocks cursor on the row of
`first`: proof-of-work rows go only if there is one at `height`. -/
def dropBlocks (db : Db) (first height : BlockId) : Db :=
  { db with
    blocks := db.blocks.filter fun row => row.id < first
    pows :=
      if (db.pows.find? height).isSome then
        db.pows.filter fun row => row.id < height
      else db.pows }

/-- `rollback_chain` with the blocks cursor on the row of `first`. -/
def rollbackChain (db : Db) (first : BlockId) (height : BlockId) :
    Except Error Db := do
  let db ← (db.dropBlocks first height).rollbackAccounts height
  .ok (db.rollbackEvents height)

/-- `storage::rollback`. -/
def rollback (db : Db) (height : BlockId) : Except Error Db :=
  match db.blocks.find? height with
  | none => .ok db
  | some _ => db.rollbackChain height height

/-! ## Extending the chain -/

/-- Number consecutive entries of a response from `first`. -/
def numbered {α : Type} (first : BlockId) (entries : List α) :
    List (BlockId × α) :=
  entries.zipIdx.map fun entry => (wrap64 (first + entry.2), entry.1)

/-- The stack buffer of 25 rows only batches these puts. -/
def appendBlockHashes (db : Db) (first : BlockId) (chain : List Hash) : Db :=
  { db with
    blocks := bulkInsert db.blocks
      ((numbered first chain).map fun entry =>
        (⟨entry.1, entry.2⟩ : BlockInfo)) true }

def appendPow (db : Db) (first : BlockId) (chain : List PowSync) : Db :=
  { db with
    pows := bulkInsert db.pows
      ((numbered first chain).map fun entry =>
        (⟨entry.1, entry.2.timestamp, entry.2.cumulativeDiff⟩ : BlockPow))
      false }

/-- Where comparing a response with the stored rows stopped: the next height,
the hashes not yet compared, and the stored row that differs, if one does. -/
structure WalkEnd where
  current : BlockId
  chain : List Hash
  mismatch : Option BlockInfo
deriving DecidableEq, Repr

/-- Stored rows after `height`, as `MDB_NEXT_DUP` visits them. -/
def blocksAfter (db : Db) (height : BlockId) : List BlockInfo :=
  db.blocks.rows.filter fun row => height < row.id

/-- The comparison loop of `sync_chain`. -/
def syncChainWalk : List BlockInfo → BlockId → List Hash → WalkEnd
  | [], current, chain => ⟨current, chain, none⟩
  | _ :: _, current, [] => ⟨current, [], none⟩
  | row :: stored, current, hash :: chain =>
      if row.hash ≠ hash then ⟨current, hash :: chain, some row⟩
      else syncChainWalk stored (wrap64 (current + 1)) chain

/-- `storage::sync_chain`. -/
def syncChain (env : Env) (db : Db) (height : BlockId) (hashes : List Hash)
    (regtest : Bool) : Except Error Db :=
  match hashes, db.blocks.find? height with
  | [], _ => .error .invalidArgument
  | _ :: _, none => .error (.notFound .blocks .getBoth)
  | first :: chain, some row =>
      if row.hash ≠ first then .error .badBlockchain
      else
        let stop :=
          syncChainWalk (db.blocksAfter height) (wrap64 (height + 1)) chain
        match stop.mismatch with
        | none => .ok (db.appendBlockHashes stop.current stop.chain)
        | some row =>
            if !regtest && stop.current ≤ env.getMaxHeight then
              .error .badBlockchain
            else do
              let db ← db.rollbackChain row.id stop.current
              .ok (db.appendBlockHashes stop.current stop.chain)

/-- A checkpoint at `current` with another hash. -/
def missesCheckpoint (env : Env) (current : BlockId) (hash : Hash) : Bool :=
  match env.checkpoints.find? current with
  | some point => point.2 ≠ hash
  | none => false

/-- The comparison loop of `sync_pow`.  Besides the two ends of `sync_chain`
it stops, without a mismatch, at a stored row ahead of the response. -/
def syncPowWalk (env : Env) :
    List BlockInfo → BlockId → List Hash → Except Error WalkEnd
  | _, current, [] => .ok ⟨current, [], none⟩
  | stored, current, hash :: chain =>
      if missesCheckpoint env current hash then .error .badBlockchain
      else match stored with
        | [] => .ok ⟨current, hash :: chain, none⟩
        | row :: stored =>
            if row.id ≠ current then .ok ⟨current, hash :: chain, none⟩
            else if row.hash ≠ hash then
              if current ≤ env.getMaxHeight then .error .badBlockchain
              else .ok ⟨current, hash :: chain, some row⟩
            else syncPowWalk env stored (wrap64 (current + 1)) chain

/-- The rollback of `sync_pow`, if its comparison stopped at a mismatch. -/
def rollbackMismatch (db : Db) (stop : WalkEnd) : Except Error Db :=
  match stop.mismatch with
  | none => .ok db
  | some row => db.rollbackChain row.id stop.current

/-- `storage::sync_pow`. -/
def syncPow (env : Env) (db : Db) (height : BlockId) (hashes : List Hash)
    (pow : List PowSync) : Except Error Db :=
  match hashes, db.blocks.find? height with
  | [], _ => .error .invalidArgument
  | first :: chain, found =>
      if hashes.length ≠ pow.length then .error .invalidArgument
      else match found with
        | none => .error (.notFound .blocks .getBoth)
        | some row =>
            if row.hash ≠ first then .error .badBlockchain
            else do
              let stop ← syncPowWalk env (db.blocksAfter height)
                (wrap64 (height + 1)) chain
              let db ← db.rollbackMismatch stop
              -- scan checkpoints, this is hardened mode
              if (numbered stop.current stop.chain).any fun entry =>
                  missesCheckpoint env entry.1 entry.2 then
                .error .badBlockchain
              else
                let firstPow := hashes.length - stop.chain.length
                .ok ((db.appendBlockHashes stop.current stop.chain).appendPow
                  stop.current (pow.drop firstPow))

end XfoLws.Db
