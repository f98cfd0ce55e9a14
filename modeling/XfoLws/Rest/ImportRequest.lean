import XfoLws.Db.HeightMoves
import XfoLws.Db.LookaheadLimits
import XfoLws.Rest.WalletRows

/-!
# Import requests

`import_request` answers whether an account already has the history and the
lookahead that are asked for, shrinks the lookahead at once where it can, and
files a request otherwise, which may be accepted in the same call.
-/

namespace XfoLws.Rest

open Db

/-- `rpc::import_request`. -/
structure ImportRequest where
  creds : AccountCredentials
  fromHeight : BlockId
  lookahead : AddressIndex

/-- `rpc::import_response`. -/
structure ImportResponse where
  importFee : ℕ
  status : String
  lookahead : AddressIndex
  newRequest : Bool
  requestFulfilled : Bool
deriving DecidableEq, Repr

/-- The options of the server that the handler reads. -/
structure ImportOptions where
  maxSubaddresses : ℕ
  autoAcceptImport : Bool

/-- The variables of the handler. -/
structure ImportPlan where
  newRequest : Bool
  fulfilled : Bool
  lookahead : AddressIndex

def ImportPlan.respond (plan : ImportPlan) : ImportResponse where
  importFee := 0
  status :=
    if plan.newRequest then "Accepted, waiting for approval"
    else if plan.fulfilled then "Approved"
    else "Waiting for Approval"
  lookahead := plan.lookahead
  newRequest := plan.newRequest
  requestFulfilled := plan.fulfilled

private theorem index_eq_iff {left right : AddressIndex} :
    left = right ↔ left.majI = right.majI ∧ left.minI = right.minI := by
  cases left
  cases right
  simp

namespace ImportRequest

variable (request : ImportRequest)

def ExpandedDepth (user : Account) : Prop :=
  request.fromHeight < user.startHeight

def ChangeLookahead (user : Account) : Prop :=
  user.lookahead.majI ≠ request.lookahead.majI ∨
    user.lookahead.minI ≠ request.lookahead.minI

/-- Something is asked for that the account does not have. -/
def Needs (user : Account) : Prop :=
  request.ExpandedDepth user ∨ request.ChangeLookahead user ∨
    user.lookaheadFail ≠ 0

/-- The lookahead can shrink immediately. -/
def Shrinks (user : Account) : Prop :=
  user.lookaheadFail = 0 ∧
    request.lookahead.majI ≤ user.lookahead.majI ∧
    request.lookahead.minI ≤ user.lookahead.minI

instance (user : Account) : Decidable (request.ExpandedDepth user) :=
  inferInstanceAs (Decidable (_ < _))

instance (user : Account) : Decidable (request.ChangeLookahead user) :=
  inferInstanceAs (Decidable (_ ∨ _))

instance (user : Account) : Decidable (request.Shrinks user) :=
  inferInstanceAs (Decidable (_ ∧ _))

/-- The part of `import_request` under the reader. -/
def plan (db : Db) (user : Account) : Except Error (ImportPlan × Db) :=
  if ¬ request.ExpandedDepth user ∧ ¬ request.ChangeLookahead user ∧
      user.lookaheadFail = 0 then
    .ok (⟨false, true, user.lookahead⟩, db)
  else
    match db.findRequest? .importScan request.creds.address with
    | some _ => .ok (⟨false, false, user.lookahead⟩, db)
    | none =>
        if request.Shrinks user then
          let newRequest := decide (request.ExpandedDepth user)
          -- if not same
          if user.lookahead.majI ≠ request.lookahead.majI ∧
              user.lookahead.minI ≠ request.lookahead.minI then do
            let db ←
              db.shrinkLookahead request.creds.address request.lookahead
            .ok (⟨newRequest, !newRequest, request.lookahead⟩, db)
          else .ok (⟨newRequest, !newRequest, user.lookahead⟩, db)
        else .ok (⟨true, false, user.lookahead⟩, db)

/-- The part of `import_request` that writes.  An exception and an endless
loop of the acceptance give no response. -/
def send (env : Env) (clock : ℤ) (options : ImportOptions)
    (plan : ImportPlan) (db : Db) : Except Failure ImportResponse × Db :=
  if plan.newRequest then
    match db.importRequest clock request.creds.address request.fromHeight
        request.lookahead with
    | .error failure => (.error (.lws failure), db)
    | .ok db =>
        if options.autoAcceptImport then
          match db.acceptRequests env clock .importScan
              [request.creds.address] options.maxSubaddresses with
          | .error .outOfRange => (.error .outOfRange, db)
          | .error .diverges => (.error (.lws .diverges), db)
          | .error _ =>
              (.ok { plan with lookahead := .primary }.respond, db)
          | .ok (db, _) =>
              (.ok { plan with
                lookahead := request.lookahead
                fulfilled := true }.respond, db)
        else (.ok plan.respond, db)
  else (.ok plan.respond, db)

/-- `import_request::handle`, with the database after it. -/
def handle (env : Env) (clock : ℤ) (options : ImportOptions) (db : Db) :
    Except Failure ImportResponse × Db :=
  match openAccount env db request.creds with
  | .error failure => (.error failure, db)
  | .ok user =>
      if checkLookahead options.maxSubaddresses request.lookahead then
        match request.plan db user with
        | .error failure => (.error (.lws failure), db)
        | .ok (plan, db) => request.send env clock options plan db
      else (.error (.lws .maxSubaddresses), db)

/-! ## Truthful responses -/

/-- The stored account has the history and the lookahead asked for. -/
structure Fulfilled (user : Account) : Prop where
  lookahead : user.lookahead = request.lookahead
  startHeight : user.startHeight ≤ request.fromHeight
  lookaheadFail : user.lookaheadFail = 0

/-- A fulfilled request is fulfilled by the stored account, and one that is
not is pending for the address. -/
structure Truthful (env : Env) (clock : ℤ) (options : ImportOptions)
    (db : Db) : Prop where
  fulfilled : ∀ response next,
    request.handle env clock options db = (.ok response, next) →
    response.requestFulfilled = true →
    ∃ status user, getAccount next request.creds.address = .ok (status, user) ∧
      request.Fulfilled user
  waiting : ∀ response next,
    request.handle env clock options db = (.ok response, next) →
    response.requestFulfilled = false →
    ∃ info, next.findRequest? .importScan request.creds.address = some info ∧
      info.address = request.creds.address

/-- Accepting the request leaves the account as asked for. -/
structure Restores (maxSubaddresses : ℕ) (db : Db) (user : Account) : Prop
    where
  /-- A zero lookahead is not applied by the acceptance. -/
  zero : request.lookahead.isZero = true → user.lookahead.isZero = true ∨
    request.Shrinks user ∧ user.lookahead.majI ≠ 0 ∧ user.lookahead.minI ≠ 0
  /-- An older failure is only cleared from its height on. -/
  clears : user.lookaheadFail = 0 ∨ request.fromHeight ≤ user.lookaheadFail
  fits : request.lookahead.Looks →
    LookaheadFits ⟨user.id, user.address, user.key, maxSubaddresses⟩
      request.lookahead
      ((db.rollbackOutputs user.id request.fromHeight).recipients user.id)
      (db.rollbackOutputs user.id request.fromHeight)

/-- The branches that answer wrongly are not taken. -/
structure Sound (clock : ℤ) (options : ImportOptions) (db : Db)
    (user : Account) : Prop where
  /-- The request that is found is not that of another address. -/
  exact_ : request.Needs user →
    RequestExact db .importScan request.creds.address
  /-- What shrinks, shrinks in both components. -/
  shrinks : db.findRequest? .importScan request.creds.address = none →
    request.Shrinks user → ¬ request.ExpandedDepth user →
    (user.lookahead.majI = request.lookahead.majI ↔
      user.lookahead.minI = request.lookahead.minI)
  accepts : db.findRequest? .importScan request.creds.address = none →
    options.autoAcceptImport = true →
    request.ExpandedDepth user ∨ ¬ request.Shrinks user →
    (getAccountTime clock).isOk = true →
    db.Movable user request.fromHeight request.lookahead
      options.maxSubaddresses →
    request.Restores options.maxSubaddresses db user

/-! ## The plan -/

/-- The account after an immediate shrink. -/
def planned (user : Account) : Account :=
  if request.Shrinks user ∧
      user.lookahead.majI ≠ request.lookahead.majI ∧
      user.lookahead.minI ≠ request.lookahead.minI then
    { user with lookahead := request.lookahead }
  else user

section Plan

variable {request} {db next : Db} {user : Account} {entry : AccountByAddress}

theorem plan_idle (idle : ¬ request.Needs user) :
    request.plan db user = .ok (⟨false, true, user.lookahead⟩, db) := by
  unfold plan
  rw [if_pos]
  unfold Needs at idle
  tauto

theorem plan_needs (needs : request.Needs user) :
    ¬ (¬ request.ExpandedDepth user ∧ ¬ request.ChangeLookahead user ∧
      user.lookaheadFail = 0) := by
  unfold Needs at needs
  tauto

theorem plan_pending (needs : request.Needs user) {info : RequestInfo}
    (pending : db.findRequest? .importScan request.creds.address = some info) :
    request.plan db user = .ok (⟨false, false, user.lookahead⟩, db) := by
  unfold plan
  rw [if_neg (plan_needs needs), pending]

/-- Without a pending request, one is planned for an older history and for
what cannot shrink. -/
theorem plan_new (needs : request.Needs user)
    (found : db.findByAddress? request.creds.address = some entry)
    (owner : db.findAccount? entry.lookup = some user)
    (free : db.findRequest? .importScan request.creds.address = none) :
    ∃ plan accounts, request.plan db user =
        .ok (plan, { db with accounts := accounts }) ∧
      plan.newRequest =
        decide (request.ExpandedDepth user ∨ ¬ request.Shrinks user) ∧
      plan.fulfilled = !plan.newRequest ∧
      findAccount? { db with accounts := accounts } entry.lookup =
        some (request.planned user) := by
  have own := (Agreement.findAccount_iff.mp owner).2
  unfold plan planned
  rw [if_neg (plan_needs needs), free]
  dsimp only
  by_cases shrinks : request.Shrinks user
  · rw [if_pos shrinks]
    by_cases different : user.lookahead.majI ≠ request.lookahead.majI ∧
        user.lookahead.minI ≠ request.lookahead.minI
    · have shrunk : db.shrinkLookahead request.creds.address
          request.lookahead = .ok { db with
            accounts := db.accounts.put (entry.lookup.status,
              { user with lookahead := request.lookahead }) } := by
        obtain ⟨fail, major, minor⟩ := shrinks
        unfold shrinkLookahead
        rw [found]
        dsimp only
        rw [owner]
        dsimp only
        rw [if_neg]
        rintro (failed | wider | wider)
        · exact failed fail
        · exact absurd major (Nat.not_le.mpr wider)
        · exact absurd minor (Nat.not_le.mpr wider)
      rw [if_pos different, shrunk, if_pos ⟨shrinks, different⟩]
      refine ⟨_, _, rfl, by simp [shrinks], rfl, ?_⟩
      exact Agreement.findAccount_iff.mpr
        ⟨SortedRows.mem_put.mpr (.inl rfl), own⟩
    · rw [if_neg different, if_neg fun both => different both.2]
      exact ⟨_, db.accounts, rfl, by simp [shrinks], rfl, owner⟩
  · rw [if_neg shrinks, if_neg fun both => shrinks both.1]
    exact ⟨_, db.accounts, rfl, by simp [shrinks], rfl, owner⟩

end Plan

/-! ## The acceptance -/

/-- The row that `import_request` files. -/
def info : RequestInfo where
  address := request.creds.address
  key := 0
  startHeight := request.fromHeight
  creation := 0
  creationFlags := 0
  lookahead := request.lookahead

section Accept

variable {request} {env : Env} {clock : ℤ} {maxSubaddresses : ℕ}
  {db next : Db} {user : Account} {entry : AccountByAddress}

theorem importRequest_free
    (found : db.findByAddress? request.creds.address = some entry)
    (free : db.findRequest? .importScan request.creds.address = none) :
    db.importRequest clock request.creds.address request.fromHeight
        request.lookahead =
      getAccountTime clock >>= fun _ =>
        .ok { db with requests := db.requests.put (.importScan, request.info) } := by
  have fresh : db.requests.putNew (.importScan, request.info) =
      some (db.requests.put (.importScan, request.info)) := by
    refine SortedRows.putNew_eq_some.mpr ⟨fun other member keyed => ?_, rfl⟩
    rw [findRequest?, Option.map_eq_none_iff] at free
    exact SortedRows.find?_eq_none.mp free other member keyed
  unfold importRequest
  cases getAccountTime clock with
  | error failure => rfl
  | ok now =>
      simp only [bind, Except.bind]
      unfold info at fresh ⊢
      rw [if_neg (by simp [found]), fresh]

/-- Accepting a request that was filed before moves the account. -/
theorem acceptRequests_filed
    (found : db.findByAddress? request.creds.address = some entry) :
    ∃ requests,
      Db.acceptRequests env clock
        { db with requests := db.requests.put (.importScan, request.info) }
        .importScan [request.creds.address] maxSubaddresses =
      (changeHeight env request.fromHeight request.creds.address
        request.lookahead maxSubaddresses { db with requests := requests }).map
        fun next => (next, [request.creds.address]) := by
  let filed : Db :=
    { db with requests := db.requests.put (.importScan, request.info) }
  have pending : filed.findRequest? .importScan request.creds.address =
      some request.info := by
    have same : requestsKey (.importScan, request.info) =
        toLex (Request.importScan.toNat, request.creds.address.spendPublic) :=
      rfl
    unfold findRequest?
    rw [SortedRows.find?_put, if_pos same]
    rfl
  refine ⟨(filed.eraseRequest .importScan request.creds.address).requests, ?_⟩
  unfold acceptRequests
  rw [if_neg (List.cons_ne_nil _ _)]
  dsimp only
  unfold importAccounts
  rw [List.foldlM_cons]
  unfold importAccount
  rw [pending]
  dsimp only
  have known : (filed.eraseRequest .importScan
      request.creds.address).findByAddress? request.creds.address =
        some entry := found
  have present := @changeHeight_failure env _ request.creds.address
    request.info.startHeight request.info.lookahead maxSubaddresses entry known
  cases changed : changeHeight env request.info.startHeight
      request.creds.address request.info.lookahead maxSubaddresses
      (filed.eraseRequest .importScan request.creds.address) with
  | ok next =>
      have same : changeHeight env request.fromHeight request.creds.address
          request.lookahead maxSubaddresses { db with
            requests := (filed.eraseRequest .importScan
              request.creds.address).requests } = .ok next := changed
      rw [same]
      rfl
  | error failure =>
      have same : changeHeight env request.fromHeight request.creds.address
          request.lookahead maxSubaddresses { db with
            requests := (filed.eraseRequest .importScan
              request.creds.address).requests } = .error failure := changed
      rw [same]
      cases failure <;> first | rfl | exact (present changed).elim

/-- Only the account that moves counts, not its lookahead. -/
theorem movable_planned {accounts : SortedRows accountsKey}
    {requests : SortedRows requestsKey} :
    Movable { db with accounts := accounts, requests := requests }
        (request.planned user) request.fromHeight request.lookahead
          maxSubaddresses ↔
      db.Movable user request.fromHeight request.lookahead maxSubaddresses := by
  unfold planned
  split <;>
    exact ⟨fun ⟨imaged, reaches, indexed, free⟩ =>
        ⟨imaged, reaches, indexed, free⟩,
      fun ⟨imaged, reaches, indexed, free⟩ =>
        ⟨imaged, reaches, indexed, free⟩⟩

/-- What the acceptance leaves is what is asked for exactly when it
restores. -/
theorem fulfilled_moved_iff {accounts : SortedRows accountsKey}
    {requests : SortedRows requestsKey} :
    request.Fulfilled ((request.planned user).moved request.fromHeight
        request.lookahead maxSubaddresses
        { db with accounts := accounts, requests := requests }) ↔
      request.Restores maxSubaddresses db user := by
  have tables := @provisioned_of_tables
    ((request.planned user).movedBack request.fromHeight) request.lookahead
    maxSubaddresses
    (rollbackOutputs { db with accounts := accounts, requests := requests }
      (request.planned user).id request.fromHeight)
    (db.rollbackOutputs (request.planned user).id request.fromHeight) rfl
    ⟨rfl, rfl⟩
  have kept : (request.planned user).id = user.id ∧
      (request.planned user).lookaheadFail = user.lookaheadFail ∧
      (request.planned user).address = user.address ∧
      (request.planned user).key = user.key := by
    unfold planned
    split <;> exact ⟨rfl, rfl, rfl, rfl⟩
  obtain ⟨id, fail, address, key⟩ := kept
  have cleared : (((request.planned user).movedBack
        request.fromHeight).lookaheadFail = 0 ↔
      user.lookaheadFail = 0 ∨ request.fromHeight ≤ user.lookaheadFail) := by
    unfold Account.movedBack
    rw [fail]
    by_cases below : request.fromHeight ≤ user.lookaheadFail <;> simp [below]
  have started : ((request.planned user).movedBack
      request.fromHeight).startHeight ≤ request.fromHeight := min_le_left _ _
  unfold Account.moved
  rw [tables]
  unfold Account.provisioned
  by_cases zero : request.lookahead.isZero = true
  · rw [if_pos zero]
    have primary := zero
    simp only [AddressIndex.isZero, Bool.and_eq_true, decide_eq_true_eq]
      at primary
    have lookahead : ((request.planned user).movedBack
          request.fromHeight).lookahead = request.lookahead ↔
        user.lookahead.isZero = true ∨ request.Shrinks user ∧
          user.lookahead.majI ≠ 0 ∧ user.lookahead.minI ≠ 0 := by
      show (request.planned user).lookahead = request.lookahead ↔ _
      unfold planned
      rw [primary.1, primary.2]
      split
      · rename_i shrunk
        exact iff_of_true rfl (.inr shrunk)
      · rename_i not
        rw [or_iff_left not, index_eq_iff, primary.1, primary.2]
        simp [AddressIndex.isZero]
    constructor
    · rintro ⟨same, -, none⟩
      exact ⟨fun _ => lookahead.mp same, cleared.mp none,
        fun looks => (looks.1 primary.1).elim⟩
    · rintro ⟨restored, clears, -⟩
      exact ⟨lookahead.mpr (restored zero), started, cleared.mpr clears⟩
  · rw [if_neg zero]
    have fits : ∀ received, LookaheadFits
          ⟨((request.planned user).movedBack request.fromHeight).id,
            ((request.planned user).movedBack request.fromHeight).address,
            ((request.planned user).movedBack request.fromHeight).key,
            maxSubaddresses⟩ request.lookahead received
          (db.rollbackOutputs (request.planned user).id request.fromHeight) ↔
        LookaheadFits ⟨user.id, user.address, user.key, maxSubaddresses⟩
          request.lookahead received
          (db.rollbackOutputs user.id request.fromHeight) := by
      intro received
      unfold Account.movedBack
      rw [id, address, key]
    have recipients : (db.rollbackOutputs (request.planned user).id
          request.fromHeight).recipients
            ((request.planned user).movedBack request.fromHeight).id =
        (db.rollbackOutputs user.id request.fromHeight).recipients user.id := by
      unfold Account.movedBack
      rw [id]
    constructor
    · rintro ⟨-, -, none⟩
      split at none
      · exact (Nat.not_succ_le_zero 0 ((le_max_left _ _).trans_eq none)).elim
      · rename_i within
        refine ⟨fun primary => (zero primary).elim, cleared.mp none,
          fun looks => ?_⟩
        have inside := not_not.mp fun outside =>
          within ⟨looks.1, looks.2, outside⟩
        rw [recipients] at inside
        exact (fits _).mp inside
    · rintro ⟨-, clears, within⟩
      refine ⟨rfl, started, ?_⟩
      rw [if_neg]
      · exact cleared.mpr clears
      · rintro ⟨major, minor, outside⟩
        rw [recipients] at outside
        exact outside ((fits _).mpr (within ⟨major, minor⟩))

end Accept

/-! ## Responses -/

section Handle

variable {request} {env : Env} {clock : ℤ} {options : ImportOptions}
  {db next : Db} {user : Account} {entry : AccountByAddress}
  {response : ImportResponse}

theorem openAccount_ok (opened : openAccount env db request.creds = .ok user) :
    ∃ entry, db.findByAddress? request.creds.address = some entry ∧
      entry.address = request.creds.address ∧
      db.findAccount? entry.lookup = some user := by
  unfold openAccount getAccount at opened
  split at opened
  · cases opened
  cases found : db.findByAddress? request.creds.address with
  | none =>
      rw [found] at opened
      cases opened
  | some entry =>
      rw [found] at opened
      dsimp only at opened
      by_cases other : entry.address ≠ request.creds.address
      · rw [if_pos other] at opened
        cases opened
      rw [if_neg other] at opened
      cases owner : db.findAccount? entry.lookup with
      | none =>
          rw [owner] at opened
          cases opened
      | some stored =>
          rw [owner] at opened
          dsimp only at opened
          split at opened
          · cases opened
          · cases opened
            exact ⟨entry, rfl, not_not.mp other, owner⟩

theorem getAccount_eq (found : db.findByAddress? request.creds.address =
      some entry) (own : entry.address = request.creds.address)
    (owner : db.findAccount? entry.lookup = some user) :
    getAccount db request.creds.address = .ok (entry.lookup.status, user) := by
  unfold getAccount
  rw [found]
  dsimp only
  rw [if_neg (not_not.mpr own), owner]

theorem truthful_iff
    (handled : request.handle env clock options db = (.ok response, next)) :
    request.Truthful env clock options db ↔
      (response.requestFulfilled = true → ∃ status user,
        getAccount next request.creds.address = .ok (status, user) ∧
          request.Fulfilled user) ∧
      (response.requestFulfilled = false → ∃ info,
        next.findRequest? .importScan request.creds.address = some info ∧
          info.address = request.creds.address) := by
  constructor
  · intro truthful
    exact ⟨truthful.fulfilled response next handled,
      truthful.waiting response next handled⟩
  · rintro ⟨fulfilled, waiting⟩
    constructor
    all_goals
      intro other after same
      rw [handled] at same
      cases same
      assumption

theorem truthful_error {failure : Failure}
    (handled : request.handle env clock options db = (.error failure, next)) :
    request.Truthful env clock options db := by
  constructor
  all_goals
    intro other after same
    rw [handled] at same
    cases same

theorem handle_eq (opened : openAccount env db request.creds = .ok user)
    (checked : checkLookahead options.maxSubaddresses request.lookahead = true)
    {plan : ImportPlan} (planned : request.plan db user = .ok (plan, next)) :
    request.handle env clock options db =
      request.send env clock options plan next := by
  unfold handle
  rw [opened]
  dsimp only
  rw [if_pos checked, planned]

theorem send_old {plan : ImportPlan} (old : plan.newRequest = false) :
    request.send env clock options plan db = (.ok plan.respond, db) := by
  unfold send
  rw [old]
  rfl

/-- An immediate shrink fulfills the request if it happens in both
components. -/
theorem fulfilled_planned_iff (shrinks : request.Shrinks user)
    (recent : ¬ request.ExpandedDepth user) :
    request.Fulfilled (request.planned user) ↔
      (user.lookahead.majI = request.lookahead.majI ↔
        user.lookahead.minI = request.lookahead.minI) := by
  have started := Nat.not_lt.mp recent
  unfold planned
  split
  · rename_i both
    exact iff_of_true ⟨rfl, started, shrinks.1⟩
      (iff_of_false both.2.1 both.2.2)
  · rename_i not
    constructor
    · rintro ⟨same, -, -⟩
      rw [same]
      exact iff_of_true rfl rfl
    · intro together
      refine ⟨index_eq_iff.mpr ?_, started, shrinks.1⟩
      by_contra different
      exact not ⟨shrinks, by tauto, by tauto⟩

theorem filed_pending :
    findRequest? { db with
        requests := db.requests.put (.importScan, request.info) }
      .importScan request.creds.address = some request.info := by
  have same : requestsKey (.importScan, request.info) =
      toLex (Request.importScan.toNat, request.creds.address.spendPublic) :=
    rfl
  unfold findRequest?
  rw [SortedRows.find?_put, if_pos same]
  rfl

theorem accepted_looks
    (checked : checkLookahead options.maxSubaddresses request.lookahead = true)
    (fits : request.lookahead.Fits) (looks : request.lookahead.Looks) :
    ¬ LookaheadRefused request.lookahead options.maxSubaddresses := by
  rw [lookaheadRefused_iff fits, Nat.not_lt]
  exact ((checkLookahead_iff fits).mp checked).resolve_left looks.2

/-- A new request is answered truthfully unless its acceptance does not
restore the account. -/
theorem send_truthful_iff
    (checked : checkLookahead options.maxSubaddresses request.lookahead = true)
    (fits : request.lookahead.Fits)
    (recipientsFit : ∀ row ∈ db.outputs, row.2.recipient.Fits)
    {accounts : SortedRows accountsKey} {plan : ImportPlan}
    (found : db.findByAddress? request.creds.address = some entry)
    (own : entry.address = request.creds.address)
    (free : db.findRequest? .importScan request.creds.address = none)
    (new : plan.newRequest = true) (unfulfilled : plan.fulfilled = false)
    (stored : findAccount? { db with accounts := accounts } entry.lookup =
      some (request.planned user))
    (handled : request.handle env clock options db =
      request.send env clock options plan { db with accounts := accounts }) :
    request.Truthful env clock options db ↔
      (options.autoAcceptImport = true → (getAccountTime clock).isOk = true →
        db.Movable user request.fromHeight request.lookahead
          options.maxSubaddresses →
        request.Restores options.maxSubaddresses db user) := by
  have filed := @importRequest_free request clock
    { db with accounts := accounts } entry found free
  unfold send at handled
  rw [if_pos new, filed] at handled
  cases time : getAccountTime clock with
  | error failure =>
      rw [time] at handled
      exact iff_of_true (truthful_error handled) nofun
  | ok now =>
      rw [time] at handled
      simp only [bind, Except.bind] at handled
      cases auto : options.autoAcceptImport with
      | false =>
          rw [auto, if_neg Bool.false_ne_true] at handled
          refine iff_of_true ((truthful_iff handled).mpr ⟨?_, ?_⟩) nofun
          · intro fulfilled
            exact (Bool.false_ne_true (unfulfilled.symm.trans fulfilled)).elim
          · exact fun _ => ⟨request.info, filed_pending, rfl⟩
      | true =>
          obtain ⟨requests, accepted⟩ := @acceptRequests_filed request env clock
            options.maxSubaddresses { db with accounts := accounts } entry found
          have moves := @changeHeight_iff env
            { db with accounts := accounts, requests := requests }
            (request.planned user) request.fromHeight request.creds.address
            entry request.lookahead options.maxSubaddresses found stored fits
            (accepted_looks checked fits) recipientsFit
          rw [movable_planned] at moves
          rw [auto, if_pos rfl, accepted] at handled
          cases changed : changeHeight env request.fromHeight
              request.creds.address request.lookahead options.maxSubaddresses
              { db with accounts := accounts, requests := requests } with
          | ok moved =>
              rw [changed] at handled
              obtain ⟨sameEntry, sameOwner, -⟩ := @changeHeight_moved env
                { db with accounts := accounts, requests := requests } _ _ _ _ _ _ _
                found stored fits (accepted_looks checked fits) recipientsFit
                changed
              have read := getAccount_eq sameEntry own sameOwner
              rw [truthful_iff handled, ← fulfilled_moved_iff]
              constructor
              · rintro ⟨fulfilled, -⟩ _ _ _
                obtain ⟨status, account, same, restored⟩ := fulfilled rfl
                rw [read] at same
                cases same
                exact restored
              · intro restores
                exact ⟨fun _ => ⟨_, _, read,
                  restores rfl rfl (moves.mp ⟨moved, changed⟩)⟩, nofun⟩
          | error failure =>
              have stuck : ¬ db.Movable user request.fromHeight
                  request.lookahead options.maxSubaddresses := by
                intro movable
                obtain ⟨moved, other⟩ := moves.mpr movable
                rw [changed] at other
                cases other
              refine iff_of_true ?_ fun _ _ movable => (stuck movable).elim
              have waits : ∀ response, response.requestFulfilled = false →
                  request.handle env clock options db = (.ok response, { db with
                    accounts := accounts
                    requests :=
                      db.requests.put (.importScan, request.info) }) →
                  request.Truthful env clock options db := by
                intro response waiting handled
                refine (truthful_iff handled).mpr ⟨?_, ?_⟩
                · intro fulfilled
                  exact (Bool.false_ne_true
                    (waiting.symm.trans fulfilled)).elim
                · exact fun _ => ⟨request.info, filed_pending, rfl⟩
              rw [changed] at handled
              by_cases thrown : failure = .outOfRange
              · subst thrown
                exact truthful_error handled
              by_cases endless : failure = .diverges
              · subst endless
                exact truthful_error handled
              refine waits { plan with lookahead := .primary }.respond
                unfulfilled (handled.trans ?_)
              cases failure <;> first | rfl | exact (thrown rfl).elim |
                exact (endless rfl).elim

/-- A response is truthful exactly when none of the branches is taken that
answer wrongly. -/
theorem import_truthful_iff
    (opened : openAccount env db request.creds = .ok user)
    (checked : checkLookahead options.maxSubaddresses request.lookahead = true)
    (fits : request.lookahead.Fits)
    (recipientsFit : ∀ row ∈ db.outputs, row.2.recipient.Fits) :
    request.Truthful env clock options db ↔
      request.Sound clock options db user := by
  obtain ⟨entry, found, own, owner⟩ := openAccount_ok opened
  by_cases needs : request.Needs user
  · cases pending : db.findRequest? .importScan request.creds.address with
    | some info =>
        have handled := (@handle_eq request env clock options db _ user
          opened checked _ (plan_pending needs pending)).trans (send_old rfl)
        rw [truthful_iff handled]
        constructor
        · rintro ⟨-, waiting⟩
          obtain ⟨other, same, exact_⟩ := waiting rfl
          refine ⟨fun _ seen again => ?_, ?_, ?_⟩
          · rw [same] at again
            cases again
            exact exact_
          all_goals
            intro free
            rw [pending] at free
            cases free
        · intro sound
          exact ⟨nofun, fun _ => ⟨info, pending, sound.exact_ needs info pending⟩⟩
    | none =>
        obtain ⟨plan, accounts, planned, new, fulfilled, stored⟩ :=
          plan_new needs found owner pending
        have handled := @handle_eq request env clock options db _ user opened
          checked plan planned
        have exact_ : RequestExact db .importScan request.creds.address := by
          intro info other
          rw [pending] at other
          cases other
        by_cases filed : request.ExpandedDepth user ∨ ¬ request.Shrinks user
        · rw [decide_eq_true filed] at new
          rw [new] at fulfilled
          rw [send_truthful_iff checked fits recipientsFit found own pending new
            fulfilled stored handled]
          constructor
          · intro accepts
            refine ⟨fun _ => exact_, fun _ shrinks recent => ?_,
              fun _ auto _ => accepts auto⟩
            exact (filed.elim recent (· shrinks)).elim
          · intro sound auto
            exact sound.accepts pending auto filed
        · rw [decide_eq_false filed] at new
          rw [new] at fulfilled
          obtain ⟨recent, shrinks⟩ := not_or.mp filed
          rw [send_old new] at handled
          rw [truthful_iff handled]
          have read := @getAccount_eq request
            { db with accounts := accounts } _ _ found own stored
          have condition :=
            fulfilled_planned_iff (not_not.mp shrinks) recent
          constructor
          · rintro ⟨answered, -⟩
            refine ⟨fun _ => exact_, fun _ _ _ => ?_,
              fun _ _ new => (filed new).elim⟩
            obtain ⟨status, account, same, restored⟩ := answered fulfilled
            rw [read] at same
            cases same
            exact condition.mp restored
          · intro sound
            refine ⟨fun _ => ⟨_, _, read, condition.mpr
              (sound.shrinks pending (not_not.mp shrinks) recent)⟩, ?_⟩
            intro waiting
            exact (Bool.false_ne_true (waiting.symm.trans fulfilled)).elim
  · have handled := (@handle_eq request env clock options db _ user
      opened checked _ (plan_idle needs)).trans (send_old rfl)
    have idle := needs
    unfold Needs at idle
    obtain ⟨recent, idle⟩ := not_or.mp idle
    obtain ⟨same, clear⟩ := not_or.mp idle
    obtain ⟨major, minor⟩ := not_or.mp same
    have lookahead : user.lookahead = request.lookahead :=
      index_eq_iff.mpr ⟨not_not.mp major, not_not.mp minor⟩
    have shrinks : request.Shrinks user := by
      refine ⟨not_not.mp clear, ?_, ?_⟩ <;> rw [lookahead]
    refine iff_of_true ((truthful_iff handled).mpr ⟨fun _ => ?_, nofun⟩)
      ⟨fun asked => (needs asked).elim, fun _ _ _ => ?_,
        fun _ _ new => (new.elim recent (· shrinks)).elim⟩
    · exact ⟨_, _, getAccount_eq found own owner, lookahead,
        Nat.not_lt.mp recent, not_not.mp clear⟩
    · rw [lookahead]
      exact iff_of_true rfl rfl

end Handle

/-- An account with a lookahead of two majors and three minors. -/
private def wideAccount : Account :=
  ⟨1, 0, sampleAddress, 7, 0, 0, 0, 0, ⟨2, 3⟩, 0⟩

private def wideDb : Db :=
  let db := after derivingEnv sampleDb (.addAccount 0 sampleAddress 7 0)
  { db with accounts := db.accounts.put (.active, wideAccount) }

/-- A lookahead of one major and one minor. -/
theorem import_truthful_shrunk :
    Truthful ⟨⟨sampleAddress, 7⟩, 0, ⟨1, 1⟩⟩ derivingEnv 0 ⟨10, false⟩
      wideDb := by
  have opened : openAccount derivingEnv wideDb ⟨sampleAddress, 7⟩ =
      .ok wideAccount := by
    decide
  have free : wideDb.findRequest? .importScan sampleAddress = none := by
    decide
  have recipientsFit : ∀ row ∈ wideDb.outputs, row.2.recipient.Fits :=
    fun row member => nomatch (SortedRows.mem_rows.mpr member :
      row ∈ ([] : List (AccountId × Output)))
  refine (import_truthful_iff opened (by decide) ⟨by decide, by decide⟩
    recipientsFit).mpr ⟨?_, fun _ _ _ => by decide, nofun⟩
  intro _ info found
  rw [free] at found
  cases found

/-- A lookahead with fewer minors only is reported, but not stored. -/
theorem import_keeps_wide_lookahead :
    ¬ ∀ (request : ImportRequest) (env : Env) (clock : ℤ)
      (options : ImportOptions) (db : Db) (user : Account),
      openAccount env db request.creds = .ok user →
      checkLookahead options.maxSubaddresses request.lookahead = true →
      request.lookahead.Fits →
      (∀ row ∈ db.outputs, row.2.recipient.Fits) →
      request.Truthful env clock options db := by
  intro truthful
  have sound := truthful ⟨⟨sampleAddress, 7⟩, 0, ⟨2, 1⟩⟩ derivingEnv 0
    ⟨10, false⟩ wideDb wideAccount (by decide) (by decide)
    ⟨by decide, by decide⟩ fun row member =>
      nomatch (SortedRows.mem_rows.mpr member :
        row ∈ ([] : List (AccountId × Output)))
  obtain ⟨status, user, read, fulfilled⟩ :=
    sound.fulfilled ⟨0, "Approved", ⟨2, 3⟩, false, true⟩ wideDb rfl rfl
  have stored : getAccount wideDb sampleAddress =
      .ok (.active, wideAccount) := by
    decide
  rw [stored] at read
  cases read
  exact absurd fulfilled.lookahead (by decide)

end ImportRequest

end XfoLws.Rest
