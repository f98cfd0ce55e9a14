import XfoLws.Db.HonestRuns

/-!
# Events and what they refer to

An event names a webhook and an output by their sort keys.  Every call that
removes one of the two removes the event with it, except a rescan or an import
to the very block of the event: it takes the output and keeps the rest.
-/

namespace XfoLws.Db

theorem WebhookDupsort.order_injective {left right : WebhookDupsort}
    (same : left.order = right.order) : left = right := by
  obtain ⟨samePayment, sameEvent⟩ := Prod.mk.inj (toLex.injective same)
  cases left
  cases right
  exact congrArg₂ _ samePayment sameEvent

theorem WebhookOutput.order_injective {left right : WebhookOutput}
    (same : left.order = right.order) : left = right := by
  obtain ⟨sameHeight, rest⟩ := Prod.mk.inj (toLex.injective same)
  obtain ⟨sameHash, rest⟩ := Prod.mk.inj (toLex.injective rest)
  obtain ⟨sameHigh, sameLow⟩ := Prod.mk.inj (toLex.injective rest)
  obtain ⟨⟨_, _⟩, ⟨_, _⟩⟩ := left
  obtain ⟨⟨_, _⟩, ⟨_, _⟩⟩ := right
  dsimp only at *
  subst sameHeight sameHash sameHigh sameLow
  rfl

theorem webhooksKey_parts {left right : WebhookKey × WebhookValue}
    (same : webhooksKey left = webhooksKey right) :
    left.1 = right.1 ∧ left.2.1 = right.2.1 := by
  obtain ⟨sameUser, rest⟩ := Prod.mk.inj (toLex.injective same)
  obtain ⟨sameType, sameOrder⟩ := Prod.mk.inj (toLex.injective rest)
  refine ⟨?_, WebhookDupsort.order_injective sameOrder⟩
  obtain ⟨⟨_, _⟩, _⟩ := left
  obtain ⟨⟨_, _⟩, _⟩ := right
  exact congrArg₂ _ sameUser (WebhookType.toNat_injective sameType)

theorem eventsKey_injective : Function.Injective eventsKey := by
  intro left right same
  obtain ⟨sameId, rest⟩ := Prod.mk.inj (toLex.injective same)
  obtain ⟨sameLink, sameHook⟩ := Prod.mk.inj (toLex.injective rest)
  obtain ⟨id, ⟨link, sorter⟩⟩ := left
  obtain ⟨otherId, ⟨otherLink, otherSorter⟩⟩ := right
  dsimp only at *
  rw [sameId, WebhookOutput.order_injective sameLink,
    WebhookDupsort.order_injective sameHook]

/-- How an event refers to an output. -/
def Output.reference (output : Output) : WebhookOutput :=
  ⟨output.link, output.spendMeta.id⟩

theorem Output.reference_order (output : Output) :
    output.reference.order = output.order := rfl

/-- The output an event refers to is stored. -/
def HasOutput (db : Db) (id : AccountId) (link : WebhookOutput) : Prop :=
  ∃ row ∈ db.outputs, row.1 = id ∧ row.2.reference = link

/-- The webhook an event refers to is stored. -/
def HasWebhook (db : Db) (id : AccountId) (sorter : WebhookDupsort) : Prop :=
  ∃ hook ∈ db.webhooks, hook.1 = ⟨id, .txConfirmation⟩ ∧ hook.2.1 = sorter

/-- Both references of an event resolve, the output once it is scanned. -/
structure EventLinked (db : Db) (row : AccountId × WebhookEvent) : Prop where
  webhook : db.HasWebhook row.1 row.2.linkWebhook
  output : ∀ account ∈ db.accounts, account.2.id = row.1 →
    row.2.link.tx.height ≤ account.2.scanHeight →
      db.HasOutput row.1 row.2.link

/-- Every event belongs to an account and was raised by an output that the
chain still holds; both of its references resolve. -/
structure EventsLinked (ledger : Ledger) (env : Env) (chain : BlockId → Hash)
    (db : Db) : Prop where
  linked : ∀ row ∈ db.events, EventLinked db row
  owned : ∀ row ∈ db.events, ∃ account ∈ db.accounts, account.2.id = row.1
  fixed : ∀ row ∈ db.events, Fixed env db row.2.link.tx.height
  listed : ∀ row ∈ db.events, ∃ output ∈
    ledger.received.rows row.1 (chain row.2.link.tx.height),
      output.reference = row.2.link

/-- The account is not moved to the block of one of its events. -/
def SkipsNoEvent (db : Db) (user : Account) (height : BlockId) : Prop :=
  height ≤ user.scanHeight ∧
    ∀ row ∈ db.events, row.1 = user.id → row.2.link.tx.height ≠ height

theorem mem_checkHooks {db : Db} {user : AccountId} {outputs : List Output}
    {row : AccountId × WebhookEvent} :
    row ∈ (db.checkHooks user outputs).events ↔
      (∃ output ∈ outputs, ∃ hook ∈ db.hooksOn user output,
        (user, output.event hook.2.1) = row) ∨ row ∈ db.events := by
  rw [checkHooks, SortedRows.mem_putAll_of_injective eventsKey_injective,
    List.mem_flatMap]
  simp only [List.mem_map]

/-! ## Looking both up again -/

theorem find_webhook {db : Db} {id : AccountId} {sorter : WebhookDupsort}
    (stored : db.HasWebhook id sorter) :
    ∃ value, db.webhooks.find? (toLex (id,
      toLex (WebhookType.txConfirmation.toNat, sorter.order))) =
        some (⟨id, .txConfirmation⟩, sorter, value) := by
  obtain ⟨⟨key, sorted, value⟩, member, rfl, rfl⟩ := stored
  exact ⟨value, SortedRows.find?_eq_some.mpr ⟨member, rfl⟩⟩

theorem find_output {db : Db} {id : AccountId} {link : WebhookOutput}
    (stored : db.HasOutput id link) :
    ∃ output, db.outputs.find? (toLex (id, link.order)) =
      some (id, output) := by
  obtain ⟨⟨own, output⟩, member, rfl, rfl⟩ := stored
  exact ⟨output, SortedRows.find?_eq_some.mpr ⟨member, rfl⟩⟩

/-- Confirmations of linked events are reported without a failure. -/
theorem addOngoingHooks_succeeds {db : Db} {user : AccountId}
    {beginAt endAt : BlockId} {before : List WebhookTxConfirmation}
    (linked : ∀ row ∈ db.events, row.1 = user →
      row.2.link.tx.height < endAt →
        db.HasWebhook user row.2.linkWebhook ∧
          db.HasOutput user row.2.link) {failure : Error} :
    db.addOngoingHooks user beginAt endAt before ≠ .error failure := by
  intro failed
  unfold addOngoingHooks at failed
  split at failed
  · cases failed
  obtain ⟨state, row, member, ⟨sameHooks, sameOutputs⟩, stuck⟩ :=
    Outcome.foldlM_error (fun state : Db × List WebhookTxConfirmation =>
      state.1.webhooks = db.webhooks ∧ state.1.outputs = db.outputs)
      (by
        intro state row next _ kept stepped
        obtain ⟨_, equality⟩ := addOngoingHook_eq stepped
        rw [equality]
        exact kept) ⟨rfl, rfl⟩ failed
  obtain ⟨stored, own⟩ := List.mem_filter.mp member
  unfold addOngoingHook at stuck
  dsimp only at stuck
  split at stuck
  · rename_i begins
    have early : row.2.link.tx.height < endAt :=
      (Nat.le_max_right _ _).trans_lt begins
    obtain ⟨hooked, outputted⟩ :=
      linked row stored (by simpa using own) early
    obtain ⟨value, hookFound⟩ := find_webhook hooked
    obtain ⟨output, outputFound⟩ := find_output outputted
    rw [ongoingHook, sameHooks, sameOutputs, hookFound, outputFound] at stuck
    cases stuck
  · cases stuck

theorem addOngoingHooks_fewer {db next : Db} {user : AccountId}
    {beginAt endAt : BlockId} {before after : List WebhookTxConfirmation}
    (success : db.addOngoingHooks user beginAt endAt before =
      .ok (next, after)) {row : AccountId × WebhookEvent}
    (member : row ∈ next.events) : row ∈ db.events := by
  unfold addOngoingHooks at success
  split at success
  · cases success
    exact member
  refine Outcome.foldlM_preserves
    (fun state : Db × List WebhookTxConfirmation =>
      ∀ row ∈ state.1.events, row ∈ db.events) ?_ (fun _ => id) success row
    member
  intro state event final _member kept stepped
  unfold addOngoingHook at stepped
  dsimp only at stepped
  split at stepped
  · obtain ⟨⟨reports, finished⟩, -, stored⟩ := Outcome.bind_eq_ok.mp stepped
    cases stored
    cases finished with
    | false => exact kept
    | true =>
        intro other otherMember
        exact kept other (SortedRows.mem_erase.mp otherMember).1
  · cases stepped
    exact kept

/-! ## What every call keeps -/

namespace EventsLinked

variable {ledger : Ledger} {env : Env} {chain after : BlockId → Hash}
  {db next : Db}

/-- Fewer events, with what they refer to in place. -/
theorem restrict (linked : EventsLinked ledger env chain db)
    (events : ∀ row ∈ next.events, row ∈ db.events)
    (webhooks : ∀ row ∈ next.events, db.HasWebhook row.1 row.2.linkWebhook →
      next.HasWebhook row.1 row.2.linkWebhook)
    (fixed : ∀ row ∈ next.events, Fixed env db row.2.link.tx.height →
      Fixed env next row.2.link.tx.height ∧
        after row.2.link.tx.height = chain row.2.link.tx.height)
    (accounts : ∀ old ∈ db.accounts, ∃ new ∈ next.accounts,
      new.2.id = old.2.id)
    (outputs : ∀ row ∈ next.events, ∀ new ∈ next.accounts,
      new.2.id = row.1 → row.2.link.tx.height ≤ new.2.scanHeight →
      ∃ old ∈ db.accounts, old.2.id = row.1 ∧
        row.2.link.tx.height ≤ old.2.scanHeight ∧
        (db.HasOutput row.1 row.2.link → next.HasOutput row.1 row.2.link)) :
    EventsLinked ledger env after next := by
  refine ⟨?_, ?_, ?_, ?_⟩
  · intro row member
    have before := linked.linked row (events row member)
    refine ⟨webhooks row member before.webhook, ?_⟩
    intro new newMember own below
    obtain ⟨old, oldMember, oldOwn, oldBelow, kept⟩ :=
      outputs row member new newMember own below
    exact kept (before.output old oldMember oldOwn oldBelow)
  · intro row member
    obtain ⟨old, oldMember, own⟩ := linked.owned row (events row member)
    obtain ⟨new, newMember, sameId⟩ := accounts old oldMember
    exact ⟨new, newMember, sameId.trans own⟩
  · intro row member
    exact (fixed row member (linked.fixed row (events row member))).1
  · intro row member
    have before := linked.fixed row (events row member)
    rw [(fixed row member before).2]
    exact linked.listed row (events row member)

theorem relabelled (linked : EventsLinked ledger env chain db)
    (relabelled : Relabelled db next) : EventsLinked ledger env chain next := by
  refine linked.restrict ?_ ?_ ?_ relabelled.kept ?_
  · rw [relabelled.events]
    exact fun _ => id
  · unfold HasWebhook
    rw [relabelled.webhooks]
    exact fun _ _ => id
  · unfold Fixed
    rw [relabelled.blocks]
    exact fun _ _ fixed => ⟨fixed, rfl⟩
  · intro row _ new newMember own below
    obtain ⟨old, oldMember, sameId, sameScan, -⟩ :=
      relabelled.accounts new newMember
    refine ⟨old, oldMember, sameId ▸ own, sameScan ▸ below, ?_⟩
    unfold HasOutput
    rw [relabelled.outputs]
    exact id

theorem added {user : Account} (linked : EventsLinked ledger env chain db)
    (fresh : ∀ row ∈ db.accounts, row.2.id ≠ user.id)
    (added : Added env user db next) : EventsLinked ledger env chain next := by
  obtain rfl := added.next_eq
  refine linked.restrict (fun _ => id) (fun _ _ => id)
    (fun _ _ fixed => ⟨fixed, rfl⟩) ?_ ?_
  · intro old oldMember
    refine ⟨old, SortedRows.mem_put.mpr (.inr ⟨oldMember, ?_⟩), rfl⟩
    intro sameKey
    exact fresh old oldMember (Prod.mk.inj (toLex.injective sameKey)).2
  · intro row member new newMember own below
    rcases SortedRows.mem_put.mp newMember with rfl | ⟨old, -⟩
    · obtain ⟨owner, ownerMember, sameId⟩ := linked.owned row member
      exact absurd (sameId.trans own.symm) (fresh owner ownerMember)
    · exact ⟨new, old, own, below, id⟩

theorem moved {height : BlockId} {address : AccountAddress}
    {lookup : AccountLookup} {user moved : Account}
    (linked : EventsLinked ledger env chain db) (agree : Agreement [] db)
    (skips : SkipsNoEvent db user height)
    (changed : HeightChanged height address db lookup user moved next) :
    EventsLinked ledger env chain next := by
  obtain ⟨within, noEvent⟩ := skips
  obtain ⟨member, -⟩ := Agreement.findAccount_iff.mp changed.account_eq
  obtain ⟨movedId, movedScan⟩ : moved.id = user.id ∧
      moved.scanHeight = height := by
    obtain ⟨_, _, rfl⟩ := changed.moved_eq
    exact ⟨rfl, Nat.min_eq_left within⟩
  obtain ⟨_, _, _, rfl⟩ := changed.next_eq
  refine linked.restrict (fun _ => id) (fun _ _ => id)
    (fun _ _ fixed => ⟨fixed, rfl⟩) ?_ ?_
  · intro old oldMember
    by_cases own : old.2.id = user.id
    · exact ⟨_, (agree.mem_put member movedId).mpr (.inl rfl),
        movedId.trans own.symm⟩
    · exact ⟨old, (agree.mem_put member movedId).mpr
        (.inr ⟨oldMember, own⟩), rfl⟩
  · intro row rowMember new newMember own below
    rcases (agree.mem_put member movedId).mp newMember with
      rfl | ⟨old, other⟩
    · dsimp only at own below
      rw [movedId] at own
      rw [movedScan] at below
      refine ⟨_, member, own, below.trans within, ?_⟩
      rintro ⟨stored, storedMember, storedOwn, reference⟩
      refine ⟨stored, mem_rollbackOutputs.mpr ⟨storedMember, ?_⟩, storedOwn,
        reference⟩
      -- the event lies below the height the account is moved to
      have elsewhere := noEvent row rowMember own.symm
      rw [← reference] at below elsewhere
      rintro ⟨_, late⟩
      exact elsewhere (Nat.le_antisymm below late)
    · refine ⟨new, old, own, below, ?_⟩
      rintro ⟨stored, storedMember, storedOwn, reference⟩
      refine ⟨stored, mem_rollbackOutputs.mpr ⟨storedMember, ?_⟩, storedOwn,
        reference⟩
      rintro ⟨mine, _⟩
      exact other (own.trans (storedOwn.symm.trans mine))

theorem chainMoved (linked : EventsLinked ledger env chain db)
    (moved : ChainMoved ledger env db next chain after) :
    EventsLinked ledger env after next := by
  cases moved with
  | kept extended blocks =>
      have reached : ∀ height, Fixed env db height →
          Fixed env next height ∧ after height = chain height :=
        fun height fixed => ⟨extended.fixed height fixed (by simp),
          extended.agrees height fixed (by simp)⟩
      obtain ⟨_, _, rfl⟩ := blocks
      exact linked.restrict (fun _ => id) (fun _ _ => id)
        (fun _ _ fixed => reached _ fixed)
        (fun old member => ⟨old, member, rfl⟩)
        (fun _ _ new newMember own below => ⟨new, newMember, own, below, id⟩)
  | @cut first height middle extended _ rolled blocks =>
      have reached : ∀ id, Fixed env db id → id < height →
          Fixed env next id ∧ after id = chain id := by
        intro id fixed early
        have limits : ∀ limit ∈ some height, id < limit := by simpa using early
        exact ⟨extended.fixed id fixed limits, extended.agrees id fixed limits⟩
      have events : ∀ row ∈ next.events, row ∈ db.events ∧
          row.2.link.tx.height < height := by
        obtain ⟨_, _, rfl⟩ := blocks
        obtain ⟨_, _, _, _, _, _, rfl⟩ := rolled.frame
        intro row member
        simpa [rollbackEvents] using member
      have webhooks : next.webhooks = db.webhooks := by
        obtain ⟨_, _, rfl⟩ := blocks
        obtain ⟨_, _, _, _, _, _, rfl⟩ := rolled.frame
        rfl
      obtain ⟨_, _, rfl⟩ := blocks
      refine linked.restrict (fun row member => (events row member).1) ?_
        (fun row member fixed => reached _ fixed (events row member).2) ?_ ?_
      · unfold HasWebhook
        rw [webhooks]
        exact fun _ _ => id
      · intro old member
        exact ⟨_, (rolled.accounts _).mpr ⟨old, member, rfl⟩, by simp⟩
      · intro row member new newMember own below
        obtain ⟨old, oldMember, rfl⟩ := (rolled.accounts new).mp newMember
        have lower :
            (old.2.rolledBack height).scanHeight ≤ old.2.scanHeight := by
          unfold Account.rolledBack rollbackHeight
          split
          · dsimp only
            lia
          · exact le_rfl
        refine ⟨old, oldMember, by simpa using own, below.trans lower, ?_⟩
        rintro ⟨stored, storedMember, storedOwn, reference⟩
        refine ⟨stored, (rolled.outputs stored).mpr ⟨storedMember, ?_⟩,
          storedOwn, reference⟩
        rintro ⟨late, _⟩
        have early := (events row member).2
        rw [← reference] at early
        exact absurd early (Nat.not_lt_of_le late)

theorem hooked (linked : EventsLinked ledger env chain db) (key : WebhookKey)
    (value : WebhookValue) : EventsLinked ledger env chain
      { db with webhooks := db.webhooks.put (key, value) } := by
  refine linked.restrict (fun _ => id) ?_ (fun _ _ fixed => ⟨fixed, rfl⟩)
    (fun old member => ⟨old, member, rfl⟩)
    (fun _ _ new newMember own below => ⟨new, newMember, own, below, id⟩)
  rintro row _ ⟨hook, member, hookKey, sorter⟩
  by_cases same : webhooksKey hook = webhooksKey (key, value)
  · obtain ⟨sameKey, sameSorter⟩ := webhooksKey_parts same
    exact ⟨_, SortedRows.mem_put.mpr (.inl rfl), sameKey.symm.trans hookKey,
      sameSorter.symm.trans sorter⟩
  · exact ⟨hook, SortedRows.mem_put.mpr (.inr ⟨member, same⟩), hookKey, sorter⟩

theorem cleared (linked : EventsLinked ledger env chain db)
    (user : AccountId) : EventsLinked ledger env chain
      { db with
        webhooks :=
          db.webhooks.filter fun row => row.1 ≠ ⟨user, .txConfirmation⟩
        events := db.events.filter fun row => row.1 ≠ user } := by
  refine linked.restrict (fun _ kept => (SortedRows.mem_filter.mp kept).1) ?_
    (fun _ _ fixed => ⟨fixed, rfl⟩) (fun old member => ⟨old, member, rfl⟩)
    (fun _ _ new newMember own below => ⟨new, newMember, own, below, id⟩)
  rintro row kept ⟨hook, member, key, sorter⟩
  have other : row.1 ≠ user := by
    simpa using (SortedRows.mem_filter.mp kept).2
  refine ⟨hook, SortedRows.mem_filter.mpr ⟨member, ?_⟩, key, sorter⟩
  simp [key, other]

theorem clearedIds (linked : EventsLinked ledger env chain db)
    (ids : List ℕ) :
    EventsLinked ledger env chain (db.clearWebhookIds ids) := by
  refine linked.restrict (fun _ kept => (SortedRows.mem_filter.mp kept).1) ?_
    (fun _ _ fixed => ⟨fixed, rfl⟩) (fun old member => ⟨old, member, rfl⟩)
    (fun _ _ new newMember own below => ⟨new, newMember, own, below, id⟩)
  rintro row kept ⟨hook, member, key, sorter⟩
  have other : row.2.linkWebhook.eventId ∉ ids := by
    simpa using (SortedRows.mem_filter.mp kept).2
  refine ⟨hook, SortedRows.mem_filter.mpr ⟨member, ?_⟩, key, sorter⟩
  simpa [sorter] using other

/-! ## Storing a scan -/

/-- The tables between storing the rows of a scan and counting its
confirmations. -/
theorem checked {last : BlockId} {state : Updating} {user : ScannedAccount}
    {status : AccountStatus} {existing : Account}
    (linked : EventsLinked ledger env chain state.db)
    (scan : Scan ledger env chain last state user status existing) :
    EventsLinked ledger env chain
      ((state.db.storeRows last user status existing).checkHooks user.id
        user.outputs) := by
  obtain ⟨_, rows⟩ := storeRows_eq state.db last user status existing
  rw [rows]
  have accounts : ∀ row, row ∈ state.db.accounts.put
      (status, { existing with scanHeight := last }) ↔
        row = (status, { existing with scanHeight := last }) ∨
          (row ∈ state.db.accounts ∧ row.2.id ≠ existing.id) := by
    intro row
    refine scan.agreement.mem_put scan.member ?_
    rfl
  have kept : ∀ old ∈ state.db.accounts, ∃ new ∈ state.db.accounts.put
      (status, { existing with scanHeight := last }),
        new.2.id = old.2.id := by
    intro old member
    by_cases own : old.2.id = existing.id
    · exact ⟨_, (accounts _).mpr (.inl rfl), own.symm⟩
    · exact ⟨old, (accounts old).mpr (.inr ⟨member, own⟩), rfl⟩
  have scanned : ∀ output ∈ user.outputs, ∃ row ∈ state.db.outputs.addAll
      (user.outputs.map fun output => (user.id, output)),
        row.1 = user.id ∧ row.2.reference = output.reference := by
    intro output listed
    obtain ⟨row, member, sameKey⟩ := SortedRows.exists_key_addAll
      state.db.outputs (List.mem_map.mpr ⟨output, listed, rfl⟩)
    obtain ⟨sameId, sameOrder⟩ := Prod.mk.inj (toLex.injective sameKey)
    exact ⟨row, member, sameId, WebhookOutput.order_injective sameOrder⟩
  refine ⟨?_, ?_, ?_, ?_⟩
  · intro row member
    rcases mem_checkHooks.mp member with ⟨output, listed, hook, hooked, rfl⟩ |
      old
    · obtain ⟨stored, matched⟩ := List.mem_filter.mp hooked
      refine ⟨⟨hook, stored, ?_, rfl⟩, fun _ _ _ _ => scanned output listed⟩
      simp only [decide_eq_true_eq] at matched
      exact matched.1
    · have before := linked.linked row old
      refine ⟨before.webhook, ?_⟩
      intro new newMember own below
      rcases (accounts new).mp newMember with rfl | ⟨other, -⟩
      · dsimp only at own below
        by_cases early : row.2.link.tx.height ≤ existing.scanHeight
        · obtain ⟨stored, storedMember, reference⟩ :=
            before.output _ scan.member own early
          exact ⟨stored, SortedRows.mem_addAll_of_mem storedMember, reference⟩
        · -- the batch scans the block of the event again
          obtain ⟨output, listed, reference⟩ := linked.listed row old
          have mine : row.1 = user.id := own.symm.trans scan.sameId
          rw [mine] at listed
          have again : output ∈ user.outputs := by
            refine (scan.outputs output).mpr ⟨_, ?_, below, listed⟩
            exact scan.reached.trans_lt (Nat.lt_of_not_le early)
          obtain ⟨stored, storedMember, storedOwn, same⟩ :=
            scanned output again
          exact ⟨stored, storedMember, storedOwn.trans mine.symm,
            same.trans reference⟩
      · obtain ⟨stored, storedMember, reference⟩ :=
          before.output new other own below
        exact ⟨stored, SortedRows.mem_addAll_of_mem storedMember, reference⟩
  · intro row member
    rcases mem_checkHooks.mp member with ⟨output, listed, hook, hooked, rfl⟩ |
      old
    · exact ⟨_, (accounts _).mpr (.inl rfl), scan.sameId⟩
    · obtain ⟨owner, ownerMember, own⟩ := linked.owned row old
      obtain ⟨new, newMember, sameId⟩ := kept owner ownerMember
      exact ⟨new, newMember, sameId.trans own⟩
  · intro row member
    rcases mem_checkHooks.mp member with ⟨output, listed, hook, hooked, rfl⟩ |
      old
    · obtain ⟨id, -, below, block⟩ := (scan.outputs output).mp listed
      have height : output.link.height = id := by
        rw [ledger.received.height_eq block, scan.stored.isTrue.height_eq]
      show Fixed env _ output.link.height
      rw [height]
      exact scan.fixed.mono below
    · exact linked.fixed row old
  · intro row member
    rcases mem_checkHooks.mp member with ⟨output, listed, hook, hooked, rfl⟩ |
      old
    · obtain ⟨id, -, below, block⟩ := (scan.outputs output).mp listed
      refine ⟨output, ?_, rfl⟩
      show output ∈ ledger.received.rows user.id (chain output.link.height)
      rwa [ledger.received.height_eq block, scan.stored.isTrue.height_eq]
    · exact linked.listed row old

theorem upheld : Upheld ledger env SkipsNoEvent (EventsLinked ledger env) where
  within := fun skips => skips.1
  relabelled := fun _ linked effect => linked.relabelled effect
  added := fun linked fresh _ effect => linked.added fresh effect
  moved := fun tracked linked skips changed =>
    linked.moved tracked.indexed.agreement skips changed
  chainMoved := fun _ linked moved => linked.chainMoved moved
  scanned := by
    intro chain height last state next user status existing linked scan
      stored
    have before := linked.checked scan
    have fewer : ∀ row ∈ next.db.events, row ∈
        ((state.db.storeRows last user status existing).checkHooks user.id
          user.outputs).events := fun row => addOngoingHooks_fewer stored.hooks_eq
    obtain ⟨events, tables⟩ := addOngoingHooks_eq stored.hooks_eq
    rw [tables] at fewer ⊢
    exact before.restrict fewer (fun _ _ => id)
      (fun _ _ fixed => ⟨fixed, rfl⟩) (fun old member => ⟨old, member, rfl⟩)
      (fun _ _ new newMember own below => ⟨new, newMember, own, below, id⟩)
  hooked := fun linked => linked.hooked _ _
  cleared := fun user linked => linked.cleared user
  clearedIds := fun ids linked => linked.clearedIds ids

end EventsLinked

/-! ## Failing updates -/

/-- The failure of `add_ongoing_hooks` at an event that dangles. -/
def Dangles (failure : Error) : Prop :=
  failure = .notFound .webhooks .getBoth ∨
    failure = .notFound .outputs .getBoth

private theorem updateBlocks_error {env : Env} {db : Db}
    {height last : BlockId} {hashes : List Hash} {pow : List PowSync}
    {failure : Error}
    (failed : updateBlocks env db height last hashes pow = .error failure) :
    ¬ Dangles failure := by
  have blocks : failure = .badBlockchain ∨ failure = .blockchainReorg ∨
      failure = .outOfRange ∨ ∃ operation,
        failure = .notFound .blocks operation := by
    unfold updateBlocks at failed
    split at failed
    · unfold updateChain at failed
      rcases Outcome.bind_eq_error.mp failed with missing | ⟨_, -, checked⟩
      · unfold lastBlockId at missing
        split at missing
        · cases missing
          exact .inr (.inr (.inr ⟨_, rfl⟩))
        · cases missing
      · split at checked
        · cases checked
          exact .inl rfl
        dsimp only at checked
        split at checked
        · cases checked
          exact .inr (.inr (.inr ⟨_, rfl⟩))
        · cases checked
          exact .inr (.inr (.inl rfl))
        · split at checked
          · cases checked
            exact .inr (.inl rfl)
          · cases checked
    · unfold updateHardened at failed
      split at failed
      · cases failed
      · split at failed
        · cases failed
          exact .inl rfl
        · cases failed
  rcases blocks with rfl | rfl | rfl | ⟨_, rfl⟩ <;> simp [Dangles]

private theorem checkSpends_error {db : Db} {user : AccountId}
    {spends : List Spend} {before : List WebhookTxSpend} {failure : Error}
    (failed : db.checkSpends user spends before = .error failure) :
    ¬ Dangles failure := by
  have stuck : ∃ spend, db.spendSource user spend = .error failure := by
    rcases Outcome.bind_eq_error.mp failed with inner | ⟨_, -, never⟩
    · obtain ⟨hook, -, inner⟩ := Outcome.mapM_error inner
      obtain ⟨spend, -, inner⟩ := Outcome.mapM_error inner
      rcases Outcome.bind_eq_error.mp inner with stuck | ⟨_, -, never⟩
      · exact ⟨spend, stuck⟩
      · cases never
    · cases never
  obtain ⟨spend, stuck⟩ := stuck
  unfold spendSource at stuck
  dsimp only at stuck
  split at stuck
  · cases stuck
    simp [Dangles]
  · split at stuck
    · cases stuck
      simp [Dangles]
    · cases stuck

/-- Storing a scan does not fail at an event. -/
private theorem updateUser_error {ledger : Ledger} {env : Env}
    {chain : BlockId → Hash} {height last : BlockId}
    {users : List ScannedAccount} {state : Updating} {user : ScannedAccount}
    {failure : Error}
    (scanning : Upheld.Scanning ledger env (EventsLinked ledger env) chain
      last users state) (member : user ∈ users)
    (failed : updateUser height last state user = .error failure) :
    ¬ Dangles failure := by
  have roomy := scanning.room EventsLinked.upheld
  simp only [updateUser] at failed
  rw [← Updating.room] at failed
  generalize state.room last = room at failed roomy
  split at failed
  · cases failed
  rename_i status _
  split at failed
  · cases failed
    simp [Dangles]
  rename_i existing located
  split at failed
  · cases failed
  split at failed
  · cases failed
  rename_i reached behind
  have scan := roomy.scan member located (Nat.le_of_not_lt reached)
    (Nat.lt_of_not_le behind)
  have linked := roomy.holds.checked scan
  unfold storeScan at failed
  split at failed
  · cases failed
    simp [Dangles]
  dsimp only at failed
  rcases Outcome.bind_eq_error.mp failed with stuck | ⟨_, -, rest⟩
  · refine absurd stuck (addOngoingHooks_succeeds ?_)
    intro row rowMember own early
    have below : row.2.link.tx.height ≤ last :=
      Nat.lt_succ_iff.mp (early.trans_le (Nat.mod_le _ _))
    have event := linked.linked row rowMember
    rw [← own]
    refine ⟨event.webhook, event.output
      (status, { existing with scanHeight := last }) ?_
      (scan.sameId.trans own.symm) below⟩
    obtain ⟨_, rows⟩ := storeRows_eq room.db last user status existing
    rw [rows]
    exact SortedRows.mem_put.mpr (.inl rfl)
  · rcases Outcome.bind_eq_error.mp rest with stuck | ⟨_, -, never⟩
    · exact checkSpends_error stuck
    · cases never

/-- An honest `update` of linked events does not fail at one of them. -/
theorem EventsLinked.update_error {ledger : Ledger} {env : Env}
    {chain : BlockId → Hash} {db : Db} {height : BlockId}
    {hashes : List Hash} {users : List ScannedAccount} {pow : List PowSync}
    {failure : Error} (linked : EventsLinked ledger env chain db)
    (tracked : Tracked ledger env chain db)
    (checkpoints : env.checkpoints ≠ .empty)
    (honest : Honest ledger env db (.update height hashes users pow))
    (failed : update env db height hashes users pow = .error failure) :
    ¬ Dangles failure := by
  unfold update at failed
  split at failed
  · cases failed
  split at failed
  · cases failed
    simp [Dangles]
  rename_i nonempty
  split at failed
  · cases failed
    simp [Dangles]
  rcases Outcome.bind_eq_error.mp failed with stuck | ⟨checked, blocks, rest⟩
  · exact updateBlocks_error stuck
  rcases Outcome.bind_eq_error.mp rest with stuck | ⟨_, -, never⟩
  · obtain ⟨daemon, batch, scans⟩ := honest nonempty
    obtain ⟨after, -, initial⟩ := upheld.scanning checkpoints tracked linked
      batch scans nonempty rfl blocks
    obtain ⟨state, user, member, scanning, stuck⟩ := Outcome.foldlM_error
      (Upheld.Scanning ledger env (EventsLinked ledger env) after _ users)
      (fun _ _ _ member before stepped => before.step upheld member stepped)
      initial stuck
    exact updateUser_error scanning member stuck
  · cases never

/-! ## Whole runs -/

theorem EventsLinked.of_openNew {ledger : Ledger} {env : Env}
    {chain : BlockId → Hash} {db : Db} (opened : openNew env = .ok db) :
    EventsLinked ledger env chain db := by
  unfold openNew at opened
  split at opened
  · cases opened
  split at opened
  · cases opened
  cases opened
  refine ⟨?_, ?_, ?_, ?_⟩ <;> simp

/-- From a new database on, while the stored chain is continued and no account
is moved to the block of one of its events, no event dangles and no honest
update fails at one. -/
theorem events_never_dangle {ledger : Ledger} {env : Env}
    {chain : BlockId → Hash} {start final : Db} {operations : List Operation}
    (opened : openNew env = .ok start) (isTrue : TrueChain ledger env chain)
    (run : Run (fun db operation next => Honest ledger env db operation ∧
      Guarded ledger env SkipsNoEvent db operation ∧
      Step env db operation next)
      start operations final) :
    (∀ row ∈ final.events, EventLinked final row) ∧
      ∀ height hashes users pow failure,
        Honest ledger env final (.update height hashes users pow) →
        update env final height hashes users pow = .error failure →
        ¬ Dangles failure := by
  obtain ⟨checkpoints, last, tracked, linked⟩ :=
    EventsLinked.upheld.run opened isTrue (.of_openNew opened) run
  refine ⟨linked.linked, ?_⟩
  intro height hashes users pow failure honest failed
  exact linked.update_error tracked checkpoints honest failed

/-- Counts five confirmations of payments without a payment id. -/
def sampleHook : WebhookValue := (⟨0, 3⟩, ⟨"zmq", "", 5⟩)

private def hookedCalls : List Operation :=
  [.addAccount 0 sampleAddress 7 0,
    .addWebhook .txConfirmation (some sampleAddress) sampleHook,
    .update 0 [10, 11, 12] [⟨1, sampleAddress, 0, [sampleOutput], []⟩] []]

/-- The payment at height one is being confirmed. -/
private def samplePending : Db := afterAll sampleEnv sampleDb hookedCalls

private theorem samplePending_run :
    Run (fun db operation next => Honest sampleLedger sampleEnv db operation ∧
      Guarded sampleLedger sampleEnv SkipsNoEvent db operation ∧
      Step sampleEnv db operation next) sampleDb hookedCalls samplePending := by
  refine .cons ⟨trivial, ⟨?_, trivial⟩, step_after (by decide)⟩
    (.cons ⟨trivial, ⟨trivial, trivial⟩, step_after (by decide)⟩
      (.cons ⟨?_, ⟨trivial, trivial⟩, step_after (by decide)⟩ (.nil _)))
  · show wrap32 (sampleDb.findLastId + 1) ≠ AccountId.invalid
    decide
  · intro _
    refine ⟨sampleChain, sampleBatch (by decide : 0 + 3 < 2 ^ 64), ?_⟩
    intro user member
    rw [List.mem_singleton.mp member]
    refine sampleScan (by decide) ?_
    show ∀ row ∈ (afterAll sampleEnv sampleDb
      [.addAccount 0 sampleAddress 7 0, .addWebhook .txConfirmation
        (some sampleAddress) sampleHook]).accounts.rows, row.2.startHeight = 0
    decide

/-- A rescan to height two keeps the payment its event refers to. -/
theorem events_never_dangle_at_two :
    ∃ final, Step sampleEnv samplePending (.rescan 2 [sampleAddress]) final ∧
      (∀ row ∈ final.events, EventLinked final row) ∧
      ∀ height hashes users pow failure,
        Honest sampleLedger sampleEnv final
          (.update height hashes users pow) →
        update sampleEnv final height hashes users pow = .error failure →
        ¬ Dangles failure := by
  have stepped : Step sampleEnv samplePending (.rescan 2 [sampleAddress])
      (after sampleEnv samplePending (.rescan 2 [sampleAddress])) :=
    step_after (by decide)
  have keeps : Guarded sampleLedger sampleEnv SkipsNoEvent samplePending
      (.rescan 2 [sampleAddress]) := by
    refine ⟨trivial, ?_, fun _ _ => trivial⟩
    show ∀ user ∈ samplePending.accountAt sampleAddress,
      2 ≤ user.scanHeight ∧ ∀ row ∈ samplePending.events.rows,
        row.1 = user.id → row.2.link.tx.height ≠ 2
    decide
  have honest : Honest sampleLedger sampleEnv samplePending
      (.rescan 2 [sampleAddress]) := trivial
  refine ⟨_, stepped, ?_⟩
  exact events_never_dangle rfl sampleChain_true (samplePending_run.append
    (.cons ⟨honest, keeps, stepped⟩ (.nil _)))

/-- A rescan to height one removes the output and keeps its event. -/
theorem rescan_leaves_event_dangling :
    ¬ ∀ (ledger : Ledger) (env : Env) (chain : BlockId → Hash)
      (start final : Db) (operations : List Operation),
      openNew env = .ok start → TrueChain ledger env chain →
      Run (fun db operation next => Honest ledger env db operation ∧
        Step env db operation next) start operations final →
      (∀ row ∈ final.events, EventLinked final row) ∧
        ∀ height hashes users pow failure,
          Honest ledger env final (.update height hashes users pow) →
          update env final height hashes users pow = .error failure →
          ¬ Dangles failure := by
  intro always
  have pending := samplePending_run.imp
    fun _ _ _ stepped => (⟨stepped.1, stepped.2.2⟩ : _ ∧ _)
  have honest : Honest sampleLedger sampleEnv samplePending
      (.rescan 1 [sampleAddress]) := trivial
  obtain ⟨linked, -⟩ := always _ _ _ _ _ _ rfl sampleChain_true
    (pending.append (.cons ⟨honest, step_after (by decide)⟩ (.nil _)))
  have dangling : ∃ row ∈ (after sampleEnv samplePending
      (.rescan 1 [sampleAddress])).events.rows,
      ∃ account ∈ (after sampleEnv samplePending
        (.rescan 1 [sampleAddress])).accounts.rows,
        account.2.id = row.1 ∧
        row.2.link.tx.height ≤ account.2.scanHeight ∧
        ∀ output ∈ (after sampleEnv samplePending
          (.rescan 1 [sampleAddress])).outputs.rows, output.1 ≠ row.1 := by
    decide
  obtain ⟨row, member, account, accountMember, own, below, lost⟩ := dangling
  obtain ⟨output, outputMember, outputOwn, -⟩ :=
    (linked row member).output account accountMember own below
  exact lost output outputMember outputOwn

end XfoLws.Db
