import XfoLws.Db.Accounts

/-!
# Webhooks

`webhooks` holds what was registered, `events` the confirmations that are
still being counted.  An event refers to its webhook and to its output by
their sort keys, and `add_ongoing_hooks` looks both up again.
-/

namespace XfoLws.Db

/-- The account a new webhook belongs to, or `invalid`. -/
def webhookUser (db : Db) (address : Option AccountAddress) : AccountId :=
  match address.bind db.findByAddress? with
  | some byAddress => byAddress.lookup.id
  | none => AccountId.invalid

/-- `storage::add_webhook`. -/
def addWebhook (env : Env) (db : Db) (type : WebhookType)
    (address : Option AccountAddress) (event : WebhookValue) :
    Except Error Db :=
  let url := event.2.url
  if url ≠ "zmq" ∧ (url = "" ∨ (env.parseUrl url).isNone) then .error .badUrl
  else if url ≠ "zmq" ∧ env.parseUrl url ≠ some "http" ∧
      env.parseUrl url ≠ some "https" then
    .error .badUrl
  else if db.webhookUser address = AccountId.invalid ∧
      (type = .txConfirmation ∨ type = .txSpend) then
    .error .badWebhook
  else .ok { db with
    webhooks := db.webhooks.put (⟨db.webhookUser address, type⟩, event) }

/-- One pass of the loop in `storage::clear_webhooks` on addresses. -/
def clearWebhooksOf (db : Db) (address : AccountAddress) :
    Except Error Db :=
  match db.findByAddress? address with
  | none => .error (.notFound .accountsByAddress .getBoth)
  | some byAddress =>
      let user := byAddress.lookup.id
      .ok { db with
        webhooks := db.webhooks.filter fun row =>
          row.1 ≠ ⟨user, .txConfirmation⟩
        events := db.events.filter fun row => row.1 ≠ user }

def clearWebhooks (db : Db) (addresses : List AccountAddress) :
    Except Error Db :=
  addresses.foldlM clearWebhooksOf db

/-- `storage::clear_webhooks` on event ids. -/
def clearWebhookIds (db : Db) (ids : List ℕ) : Db :=
  { db with
    webhooks := db.webhooks.filter fun row => row.2.1.eventId ∉ ids
    events := db.events.filter fun row => row.2.linkWebhook.eventId ∉ ids }

/-! ## Hooks tripped by a scan -/

/-- The confirmation webhooks of `user` for the payment id of `out`. -/
def hooksOn (db : Db) (user : AccountId) (out : Output) :
    List (WebhookKey × WebhookValue) :=
  db.webhooks.rows.filter fun row =>
    row.1 = ⟨user, .txConfirmation⟩ ∧
      row.2.1.paymentId = out.paymentId.short

/-- The event that counts the confirmations of `out` for a webhook. -/
def Output.event (out : Output) (sorter : WebhookDupsort) : WebhookEvent :=
  ⟨⟨out.link, out.spendMeta.id⟩, sorter⟩

def checkHooks (db : Db) (user : AccountId) (outputs : List Output) : Db :=
  { db with
    events := db.events.putAll (outputs.flatMap fun out =>
      (db.hooksOn user out).map fun row => (user, out.event row.2.1)) }

def WebhookTxConfirmation.withCount (report : WebhookTxConfirmation)
    (count : ℕ) : WebhookTxConfirmation :=
  { report with
    value := (report.value.1,
      { report.value.2 with confirmations := count }) }

/-- The report at `last` and its copies for as many further blocks, until the
requested count is reached.  Also returns the final count. -/
def copyNextBlocks (requested : ℕ) :
    ℕ → WebhookTxConfirmation → List WebhookTxConfirmation × ℕ
  | 0, last => ([last], last.value.2.confirmations)
  | blocks + 1, last =>
      if requested ≤ last.value.2.confirmations then
        ([last], last.value.2.confirmations)
      else
        let (copies, final) := copyNextBlocks requested blocks
          (last.withCount (wrap32 (last.value.2.confirmations + 1)))
        (last :: copies, final)

/-- One pass of the loop in `add_ongoing_hooks` that has blocks to report:
the reports, and whether the event is finished. -/
def ongoingHook (db : Db) (user : AccountId) (thisBegin endAt : BlockId)
    (event : WebhookEvent) :
    Except Error (List WebhookTxConfirmation × Bool) :=
  match db.webhooks.find? (toLex (user,
      toLex (WebhookType.txConfirmation.toNat, event.linkWebhook.order))) with
  | none => .error (.notFound .webhooks .getBoth)
  | some (key, value) =>
      match db.outputs.find? (toLex (user, event.link.order)) with
      | none => .error (.notFound .outputs .getBoth)
      | some (_, out) =>
          let count := wrap32 (thisBegin - event.link.tx.height + 1)
          let requested := value.2.confirmations
          let (reports, final) :=
            copyNextBlocks requested (endAt - (thisBegin + 1))
              ((⟨key, value, out⟩ : WebhookTxConfirmation).withCount count)
          .ok (reports, requested ≤ final)

/-- One pass of the loop in `add_ongoing_hooks`. -/
def addOngoingHook (user : AccountId) (beginAt endAt : BlockId)
    (state : Db × List WebhookTxConfirmation)
    (row : AccountId × WebhookEvent) :
    Except Error (Db × List WebhookTxConfirmation) :=
  let thisBegin := max beginAt row.2.link.tx.height
  if thisBegin < endAt then do
    let (reports, finished) ← ongoingHook state.1 user thisBegin endAt row.2
    let db := if finished then
        { state.1 with events := state.1.events.erase (eventsKey row) }
      else state.1
    .ok (db, state.2 ++ reports)
  else .ok state

def addOngoingHooks (db : Db) (user : AccountId) (beginAt endAt : BlockId)
    (reported : List WebhookTxConfirmation) :
    Except Error (Db × List WebhookTxConfirmation) :=
  if beginAt = endAt then .ok (db, reported)
  else
    (db.events.rows.filter fun row => row.1 = user).foldlM
      (addOngoingHook user beginAt endAt) (db, reported)

/-- The output a spend refers to: from the first output at or above the
height of the spend, walk backwards. -/
def spendSource (db : Db) (user : AccountId) (spend : Spend) :
    Except Error SpendMeta :=
  let outputs := db.outputs.rows.filter fun row => row.1 = user
  let below := outputs.filter fun row =>
    row.2.link.height < spend.link.height
  let above := outputs.filter fun row =>
    spend.link.height ≤ row.2.link.height
  match above with
  | [] => .error (.notFound .outputs .getBothRange)
  | first :: _ =>
      match (first :: below.reverse).find? fun row =>
          row.2.spendMeta.id = spend.source with
      | none => .error (.notFound .outputs .prevDup)
      | some row => .ok row.2.spendMeta

def checkSpends (db : Db) (user : AccountId) (spends : List Spend)
    (reported : List WebhookTxSpend) : Except Error (List WebhookTxSpend) := do
  let key : WebhookKey := ⟨user, .txSpend⟩
  let hooks := db.webhooks.rows.filter fun row => row.1 = key
  let reports ← hooks.mapM fun hook => spends.mapM fun spend => do
    let source ← db.spendSource user spend
    .ok (⟨key, hook.2, spend, source⟩ : WebhookTxSpend)
  .ok (reported ++ reports.flatten)

end XfoLws.Db
