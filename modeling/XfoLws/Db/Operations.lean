import XfoLws.Db.Requests
import XfoLws.Db.Update

/-!
# Operations of the storage

One constructor for every modelled write of `db::storage`.  A failed call
aborts its transaction, so only successful calls are steps.
-/

namespace XfoLws.Db

inductive Operation where
  | addAccount (clock : ℤ) (address : AccountAddress) (key : SecretKey)
      (flags : AccountFlags)
  | changeStatus (status : AccountStatus) (addresses : List AccountAddress)
  | creationRequest (clock : ℤ) (address : AccountAddress) (key : SecretKey)
      (flags : AccountFlags) (lookahead : AddressIndex)
  | importRequest (clock : ℤ) (address : AccountAddress) (height : BlockId)
      (lookahead : AddressIndex)
  | acceptRequests (clock : ℤ) (type : Request)
      (addresses : List AccountAddress) (maxSubaddresses : ℕ)
  | rejectRequests (type : Request) (addresses : List AccountAddress)
  | rescan (height : BlockId) (addresses : List AccountAddress)
  | rollback (height : BlockId)
  | syncChain (height : BlockId) (hashes : List Hash) (regtest : Bool)
  | syncPow (height : BlockId) (hashes : List Hash) (pow : List PowSync)
  | update (height : BlockId) (chain : List Hash)
      (users : List ScannedAccount) (pow : List PowSync)
  | upsertSubaddresses (id : AccountId) (address : AccountAddress)
      (viewKey : SecretKey) (subaddrs : List SubaddressDict) (maxSubaddr : ℕ)
  | updateLookahead (address : AccountAddress) (height : BlockId)
      (matched : AddressIndex) (maxSubaddresses : ℕ)
  | shrinkLookahead (address : AccountAddress) (lookahead : AddressIndex)
  | addWebhook (type : WebhookType) (address : Option AccountAddress)
      (event : WebhookValue)
  | clearWebhooks (addresses : List AccountAddress)
  | clearWebhookIds (ids : List ℕ)

/-- The database after a call; what the call returns besides is dropped. -/
def apply (env : Env) (db : Db) : Operation → Except Error Db
  | .addAccount clock address key flags =>
      db.addAccount env clock address key flags
  | .changeStatus status addresses =>
      Prod.fst <$> db.changeStatus status addresses
  | .creationRequest clock address key flags lookahead =>
      Prod.fst <$> creationRequest env clock db address key flags lookahead
  | .importRequest clock address height lookahead =>
      importRequest clock db address height lookahead
  | .acceptRequests clock type addresses maxSubaddresses =>
      Prod.fst <$> acceptRequests env clock db type addresses maxSubaddresses
  | .rejectRequests type addresses =>
      .ok (db.rejectRequests type addresses).1
  | .rescan height addresses => Prod.fst <$> rescan env db height addresses
  | .rollback height => db.rollback height
  | .syncChain height hashes regtest => syncChain env db height hashes regtest
  | .syncPow height hashes pow => syncPow env db height hashes pow
  | .update height chain users pow =>
      Prod.fst <$> update env db height chain users pow
  | .upsertSubaddresses id address viewKey subaddrs maxSubaddr =>
      Prod.fst <$>
        upsertSubaddresses env db id address viewKey subaddrs maxSubaddr
  | .updateLookahead address height matched maxSubaddresses =>
      Prod.fst <$>
        updateLookahead env db address height matched maxSubaddresses
  | .shrinkLookahead address lookahead => db.shrinkLookahead address lookahead
  | .addWebhook type address event => addWebhook env db type address event
  | .clearWebhooks addresses => db.clearWebhooks addresses
  | .clearWebhookIds ids => .ok (db.clearWebhookIds ids)

/-- A successful call. -/
def Step (env : Env) (db : Db) (operation : Operation) (next : Db) : Prop :=
  apply env db operation = .ok next

/-- The database after a call that may have failed. -/
def after (env : Env) (db : Db) (operation : Operation) : Db :=
  match apply env db operation with
  | .ok next => next
  | .error _ => db

theorem step_after {env : Env} {db : Db} {operation : Operation}
    (success : (apply env db operation).isOk = true) :
    Step env db operation (after env db operation) := by
  unfold Step after
  cases result : apply env db operation with
  | ok next => rfl
  | error failure =>
      rw [result] at success
      cases success

/-- The database after a list of calls that may have failed. -/
def afterAll (env : Env) (db : Db) (operations : List Operation) : Db :=
  operations.foldl (after env) db

theorem run_afterAll {env : Env} {db : Db} {operations : List Operation}
    (success : (operations.foldlM (apply env) db).isOk = true) :
    Run (Step env) db operations (afterAll env db operations) := by
  induction operations generalizing db with
  | nil => exact .nil db
  | cons operation operations induction =>
      rw [List.foldlM_cons] at success
      cases result : apply env db operation with
      | error failure =>
          rw [result] at success
          cases success
      | ok next =>
          rw [result] at success
          have stepped : after env db operation = next := by
            rw [after, result]
          rw [afterAll, List.foldl_cons, stepped]
          exact .cons result (induction success)

/-- The account `change_height` moves for an address. -/
def accountAt (db : Db) (address : AccountAddress) : Option Account :=
  (db.findByAddress? address).bind fun entry => db.findAccount? entry.lookup

/-- `guard` holds of every account a rescan or an accepted import moves, in
the database it is moved in. -/
def EveryMove (env : Env) (guard : Db → Account → BlockId → Prop) (db : Db) :
    Operation → Prop
  | .rescan height addresses =>
      Outcome.Along (rescanOf env height) (fun state address =>
        ∀ user, state.1.accountAt address = some user →
          guard state.1 user height) (db, []) addresses
  | .acceptRequests _ .importScan addresses maxSubaddresses =>
      Outcome.Along (importAccount env maxSubaddresses) (fun state address =>
        ∀ info user, state.1.findRequest? .importScan address = some info →
          state.1.accountAt address = some user →
          guard (state.1.eraseRequest .importScan address) user
            info.startHeight) (db, []) addresses
  | _ => True

end XfoLws.Db
