import XfoLws.Db.Events
import XfoLws.Db.ScannedRows

/-!
# Counting confirmations

An event stands for the confirmations of one output that one webhook has still
to hear of.  Every update reports the blocks it adds and removes the event at
the requested count; an update that sends the output again afterwards raises a
new event, and one more confirmation is reported.
-/

namespace XfoLws.Db

/-! ## Reports of one event -/

/-- The counts reported of one output to one webhook, in order. -/
def countsOf (hook : WebhookKey × WebhookValue) (output : Output)
    (reports : List WebhookTxConfirmation) : List ℕ :=
  (reports.filter fun report => report.key = hook.1 ∧
    report.value.1 = hook.2.1 ∧ report.txInfo = output).map fun report =>
      report.value.2.confirmations

@[simp] theorem countsOf_nil (hook : WebhookKey × WebhookValue)
    (output : Output) : countsOf hook output [] = [] := rfl

@[simp] theorem countsOf_append (hook : WebhookKey × WebhookValue)
    (output : Output) (before after : List WebhookTxConfirmation) :
    countsOf hook output (before ++ after) =
      countsOf hook output before ++ countsOf hook output after := by
  simp [countsOf]

theorem copyNextBlocks_same (requested blocks : ℕ)
    (last : WebhookTxConfirmation) :
    ∀ report ∈ (copyNextBlocks requested blocks last).1,
      report.key = last.key ∧ report.value.1 = last.value.1 ∧
        report.txInfo = last.txInfo := by
  induction blocks generalizing last with
  | zero =>
      intro report member
      rw [List.mem_singleton.mp member]
      exact ⟨rfl, rfl, rfl⟩
  | succ blocks induction =>
      intro report member
      rw [copyNextBlocks] at member
      split at member
      · rw [List.mem_singleton.mp member]
        exact ⟨rfl, rfl, rfl⟩
      · rcases List.mem_cons.mp member with rfl | later
        · exact ⟨rfl, rfl, rfl⟩
        · exact induction (last.withCount
            (wrap32 (last.value.2.confirmations + 1))) report later

theorem copyNextBlocks_counts {requested : ℕ} (fits : requested < 2 ^ 32)
    (blocks : ℕ) (last : WebhookTxConfirmation)
    (small : last.value.2.confirmations ≤ requested) :
    (copyNextBlocks requested blocks last).1.map
        (fun report => report.value.2.confirmations) =
      List.range' last.value.2.confirmations
        (min blocks (requested - last.value.2.confirmations) + 1) ∧
    (copyNextBlocks requested blocks last).2 =
      min requested (last.value.2.confirmations + blocks) := by
  induction blocks generalizing last with
  | zero => simp [copyNextBlocks, small]
  | succ blocks induction =>
      rw [copyNextBlocks]
      by_cases reached : requested ≤ last.value.2.confirmations
      · rw [if_pos reached]
        have equal : requested = last.value.2.confirmations :=
          Nat.le_antisymm reached small
        simp [← equal]
      · rw [if_neg reached]
        have next : wrap32 (last.value.2.confirmations + 1) =
            last.value.2.confirmations + 1 := by
          unfold wrap32
          exact Nat.mod_eq_of_lt (by omega)
        obtain ⟨counts, final⟩ := induction
          (last.withCount (wrap32 (last.value.2.confirmations + 1)))
          (by simp only [WebhookTxConfirmation.withCount, next]; omega)
        simp only [WebhookTxConfirmation.withCount, next] at counts final ⊢
        refine ⟨?_, ?_⟩
        · rw [List.map_cons, counts, ← List.range'_succ]
          congr 1
          omega
        · rw [final]
          omega

/-- One event either begins after the new blocks, or its webhook and output
are looked up and reported. -/
theorem addOngoingHook_ok {user : AccountId} {beginAt endAt : BlockId}
    {state final : Db × List WebhookTxConfirmation}
    {row : AccountId × WebhookEvent}
    (success : addOngoingHook user beginAt endAt state row = .ok final) :
    (endAt ≤ max beginAt row.2.link.tx.height ∧ final = state) ∨
    ∃ hook output, max beginAt row.2.link.tx.height < endAt ∧
      state.1.webhooks.find? (toLex (user,
        toLex (WebhookType.txConfirmation.toNat,
          row.2.linkWebhook.order))) = some hook ∧
      state.1.outputs.find? (toLex (user, row.2.link.order)) = some output ∧
      let copies := copyNextBlocks hook.2.2.confirmations
        (endAt - (max beginAt row.2.link.tx.height + 1))
        ((⟨hook.1, hook.2, output.2⟩ : WebhookTxConfirmation).withCount
          (wrap32 (max beginAt row.2.link.tx.height -
            row.2.link.tx.height + 1)))
      final = (if hook.2.2.confirmations ≤ copies.2 then
          { state.1 with events := state.1.events.erase (eventsKey row) }
        else state.1, state.2 ++ copies.1) := by
  unfold addOngoingHook at success
  dsimp only at success
  split at success
  · rename_i begins
    obtain ⟨⟨reports, finished⟩, looked, stored⟩ :=
      Outcome.bind_eq_ok.mp success
    unfold ongoingHook at looked
    split at looked
    · cases looked
    rename_i key value hookFound
    split at looked
    · cases looked
    rename_i own output outputFound
    cases looked
    cases stored
    refine .inr ⟨_, _, begins, hookFound, outputFound, ?_⟩
    simp
  · rename_i later
    cases success
    exact .inl ⟨Nat.le_of_not_lt later, rfl⟩

section Pair

variable {hook : WebhookKey × WebhookValue} {output : Output}
  {id : AccountId} {beginAt endAt : BlockId}

theorem addOngoingHook_other
    {state final : Db × List WebhookTxConfirmation}
    {row : AccountId × WebhookEvent} (own : row.1 = id)
    (other : row ≠ (id, output.event hook.2.1))
    (success : addOngoingHook id beginAt endAt state row = .ok final) :
    countsOf hook output final.2 = countsOf hook output state.2 ∧
      ((id, output.event hook.2.1) ∈ final.1.events ↔
        (id, output.event hook.2.1) ∈ state.1.events) ∧
      final.1.webhooks = state.1.webhooks ∧
      final.1.outputs = state.1.outputs := by
  rcases addOngoingHook_ok success with ⟨-, rfl⟩ |
    ⟨found, stored, -, hookFound, outputFound, rfl⟩
  · exact ⟨rfl, Iff.rfl, rfl, rfl⟩
  have sorter : found.2.1 = row.2.linkWebhook := by
    obtain ⟨-, key⟩ := SortedRows.find?_eq_some.mp hookFound
    obtain ⟨-, rest⟩ := Prod.mk.inj (toLex.injective key)
    exact WebhookDupsort.order_injective
      (Prod.mk.inj (toLex.injective rest)).2
  have reference : stored.2.reference = row.2.link := by
    obtain ⟨-, key⟩ := SortedRows.find?_eq_some.mp outputFound
    exact WebhookOutput.order_injective (Prod.mk.inj (toLex.injective key)).2
  refine ⟨?_, ?_, ?_, ?_⟩
  · rw [countsOf_append]
    have nothing : ∀ reports : List WebhookTxConfirmation,
        (∀ report ∈ reports, report.value.1 = found.2.1 ∧
          report.txInfo = stored.2) → countsOf hook output reports = [] := by
      intro reports same
      rw [countsOf, List.map_eq_nil_iff, List.filter_eq_nil_iff]
      intro report member matched
      obtain ⟨sameSorter, sameOutput⟩ := same report member
      simp only [decide_eq_true_eq] at matched
      refine other ?_
      obtain ⟨rowId, link, rowSorter⟩ := row
      dsimp only at own sorter reference
      rw [own, ← sorter, ← reference, ← sameSorter, ← sameOutput,
        matched.2.1, matched.2.2]
      rfl
    rw [nothing _ fun report member =>
      ⟨(copyNextBlocks_same _ _ _ report member).2.1,
        (copyNextBlocks_same _ _ _ report member).2.2⟩, List.append_nil]
  · split
    · rw [SortedRows.mem_erase]
      exact and_iff_left fun same => other (eventsKey_injective same).symm
    · exact Iff.rfl
  all_goals split <;> rfl

theorem addOngoingHook_own (keyed : hook.1 = ⟨id, .txConfirmation⟩)
    {state final : Db × List WebhookTxConfirmation}
    (hooked : hook ∈ state.1.webhooks)
    (stored : (id, output) ∈ state.1.outputs)
    (pending : (id, output.event hook.2.1) ∈ state.1.events)
    (fits : hook.2.2.confirmations < 2 ^ 32)
    (begins : max beginAt output.link.height < endAt)
    (due : max beginAt output.link.height - output.link.height + 1 ≤
      hook.2.2.confirmations)
    (success : addOngoingHook id beginAt endAt state
      (id, output.event hook.2.1) = .ok final) :
    countsOf hook output final.2 = countsOf hook output state.2 ++
      List.range' (max beginAt output.link.height - output.link.height + 1)
        (min hook.2.2.confirmations (endAt - output.link.height) -
          (max beginAt output.link.height - output.link.height)) ∧
      ((id, output.event hook.2.1) ∈ final.1.events ↔
        endAt - output.link.height < hook.2.2.confirmations) := by
  have hookFound : state.1.webhooks.find? (toLex (id,
      toLex (WebhookType.txConfirmation.toNat, hook.2.1.order))) =
        some hook := by
    refine SortedRows.find?_eq_some.mpr ⟨hooked, ?_⟩
    rw [webhooksKey, keyed]
  have outputFound : state.1.outputs.find? (toLex (id, output.order)) =
      some (id, output) :=
    SortedRows.find?_eq_some.mpr ⟨stored, rfl⟩
  rcases addOngoingHook_ok success with ⟨later, -⟩ |
    ⟨found, other, -, sameHook, sameOutput, stepped⟩
  · exact absurd begins (Nat.not_lt_of_le later)
  obtain rfl : found = hook :=
    Option.some_injective _ (sameHook.symm.trans hookFound)
  obtain rfl : other = (id, output) :=
    Option.some_injective _ (sameOutput.symm.trans outputFound)
  have above : output.link.height ≤ max beginAt output.link.height :=
    Nat.le_max_right _ _
  dsimp only [Output.event] at stepped pending ⊢
  generalize max beginAt output.link.height = first at *
  have count : wrap32 (first - output.link.height + 1) =
      first - output.link.height + 1 := by
    unfold wrap32
    exact Nat.mod_eq_of_lt (by lia)
  have same := copyNextBlocks_same found.2.2.confirmations
    (endAt - (first + 1)) ((⟨found.1, found.2, output⟩ :
      WebhookTxConfirmation).withCount (first - output.link.height + 1))
  obtain ⟨counts, last⟩ := copyNextBlocks_counts fits (endAt - (first + 1))
    ((⟨found.1, found.2, output⟩ : WebhookTxConfirmation).withCount
      (first - output.link.height + 1)) due
  rw [count] at stepped
  generalize copyNextBlocks _ _ _ = copies at *
  subst final
  constructor
  · have all : copies.1.filter (fun report => report.key = found.1 ∧
        report.value.1 = found.2.1 ∧ report.txInfo = output) = copies.1 := by
      refine List.filter_eq_self.mpr fun report member => ?_
      simpa [WebhookTxConfirmation.withCount] using same report member
    rw [countsOf_append, countsOf, countsOf, all, counts]
    congr 2
    simp only [WebhookTxConfirmation.withCount]
    lia
  · simp only [WebhookTxConfirmation.withCount] at last
    rw [last]
    split
    · rename_i finished
      refine iff_of_false ?_ (by lia)
      simp
    · rename_i unfinished
      exact iff_of_true pending (by lia)

private theorem others_fold {rows : List (AccountId × WebhookEvent)}
    (others : ∀ row ∈ rows, row.1 = id ∧ row ≠ (id, output.event hook.2.1))
    {state final : Db × List WebhookTxConfirmation}
    (success : rows.foldlM (addOngoingHook id beginAt endAt) state =
      .ok final) :
    countsOf hook output final.2 = countsOf hook output state.2 ∧
      ((id, output.event hook.2.1) ∈ final.1.events ↔
        (id, output.event hook.2.1) ∈ state.1.events) ∧
      final.1.webhooks = state.1.webhooks ∧
      final.1.outputs = state.1.outputs := by
  refine Outcome.foldlM_preserves
    (fun current : Db × List WebhookTxConfirmation =>
      countsOf hook output current.2 = countsOf hook output state.2 ∧
      ((id, output.event hook.2.1) ∈ current.1.events ↔
        (id, output.event hook.2.1) ∈ state.1.events) ∧
      current.1.webhooks = state.1.webhooks ∧
      current.1.outputs = state.1.outputs) ?_
    ⟨rfl, Iff.rfl, rfl, rfl⟩ success
  rintro current row next member ⟨counts, events, webhooks, outputs⟩ stepped
  obtain ⟨own, other⟩ := others row member
  obtain ⟨sameCounts, sameEvents, sameWebhooks, sameOutputs⟩ :=
    addOngoingHook_other own other stepped
  exact ⟨sameCounts.trans counts, sameEvents.trans events,
    sameWebhooks.trans webhooks, sameOutputs.trans outputs⟩

theorem addOngoingHooks_absent {db next : Db}
    {before after : List WebhookTxConfirmation}
    (absent : (id, output.event hook.2.1) ∉ db.events)
    (success : db.addOngoingHooks id beginAt endAt before =
      .ok (next, after)) :
    countsOf hook output after = countsOf hook output before ∧
      (id, output.event hook.2.1) ∉ next.events := by
  refine ⟨?_, fun member => absent (addOngoingHooks_fewer success member)⟩
  unfold addOngoingHooks at success
  split at success
  · cases success
    rfl
  refine (others_fold ?_ success).1
  intro row member
  obtain ⟨stored, own⟩ := List.mem_filter.mp member
  refine ⟨by simpa using own, ?_⟩
  rintro rfl
  exact absent stored

/-- A pending pair is reported for every new block up to its count. -/
theorem addOngoingHooks_pending (keyed : hook.1 = ⟨id, .txConfirmation⟩)
    {db next : Db} {before after : List WebhookTxConfirmation}
    (hooked : hook ∈ db.webhooks) (stored : (id, output) ∈ db.outputs)
    (pending : (id, output.event hook.2.1) ∈ db.events)
    (fits : hook.2.2.confirmations < 2 ^ 32)
    (begins : max beginAt output.link.height < endAt)
    (due : max beginAt output.link.height - output.link.height + 1 ≤
      hook.2.2.confirmations)
    (success : db.addOngoingHooks id beginAt endAt before =
      .ok (next, after)) :
    countsOf hook output after = countsOf hook output before ++
      List.range' (max beginAt output.link.height - output.link.height + 1)
        (min hook.2.2.confirmations (endAt - output.link.height) -
          (max beginAt output.link.height - output.link.height)) ∧
      ((id, output.event hook.2.1) ∈ next.events ↔
        endAt - output.link.height < hook.2.2.confirmations) := by
  unfold addOngoingHooks at success
  rw [if_neg (by
    intro same
    exact absurd begins (Nat.not_lt_of_le (same ▸ Nat.le_max_left _ _)))]
    at success
  have listed : (id, output.event hook.2.1) ∈
      db.events.rows.filter fun row => row.1 = id :=
    List.mem_filter.mpr ⟨pending, by simp⟩
  have fresh := db.events.rows_nodup.filter fun row => row.1 = id
  have owned : ∀ row ∈ db.events.rows.filter (fun row => row.1 = id),
      row.1 = id := fun row member => by
    simpa using (List.mem_filter.mp member).2
  -- the event is visited once, between events of other pairs
  generalize db.events.rows.filter (fun row => row.1 = id) = rows at *
  obtain ⟨left, right, rfl⟩ := List.append_of_mem listed
  have apart := List.nodup_append.mp fresh
  rw [List.foldlM_append, Outcome.bind_eq_ok] at success
  obtain ⟨first, leftFold, rest⟩ := success
  rw [List.foldlM_cons, Outcome.bind_eq_ok] at rest
  obtain ⟨middle, stepped, rightFold⟩ := rest
  have leftOthers : ∀ row ∈ left,
      row.1 = id ∧ row ≠ (id, output.event hook.2.1) :=
    fun row member => ⟨owned row (List.mem_append_left _ member),
      apart.2.2 row member _ List.mem_cons_self⟩
  have rightOthers : ∀ row ∈ right,
      row.1 = id ∧ row ≠ (id, output.event hook.2.1) := by
    intro row member
    refine ⟨owned row (by simp [member]), ?_⟩
    rintro rfl
    exact (List.nodup_cons.mp apart.2.1).1 member
  obtain ⟨firstCounts, firstEvents, firstHooks, firstOutputs⟩ :=
    others_fold leftOthers leftFold
  obtain ⟨lastCounts, lastEvents, -, -⟩ := others_fold rightOthers rightFold
  obtain ⟨ownCounts, ownEvents⟩ := addOngoingHook_own keyed
    (firstHooks ▸ hooked) (firstOutputs ▸ stored) (firstEvents.mpr pending)
    fits begins due stepped
  refine ⟨?_, lastEvents.trans ownEvents⟩
  rw [lastCounts, ownCounts, firstCounts]

end Pair

/-! ## One update -/

/-- How far the confirmations of an output have been reported to a webhook
when the account is scanned to `scan`. -/
structure Progress (db : Db) (reports : List WebhookTxConfirmation)
    (id : AccountId) (scan : BlockId) (hook : WebhookKey × WebhookValue)
    (output : Output) : Prop where
  counts : countsOf hook output reports = List.range' 1
    (min hook.2.2.confirmations (scan + 1 - output.link.height))
  pending : (id, output.event hook.2.1) ∈ db.events ↔
    output.link.height ≤ scan ∧
      scan + 1 - output.link.height < hook.2.2.confirmations

section Step

variable {ledger : Ledger} {env : Env} {chain : BlockId → Hash}
  {height last : BlockId} {state next : Updating} {user : ScannedAccount}
  {status : AccountStatus} {existing : Account}
  {hook : WebhookKey × WebhookValue} {output : Output}

private theorem mem_checked
    (scan : Scan ledger env chain last state user status existing)
    (hooked : hook ∈ state.db.webhooks)
    (keyed : hook.1 = ⟨user.id, .txConfirmation⟩)
    (matching : hook.2.1.paymentId = output.paymentId.short)
    (listed : output ∈
      ledger.received.rows user.id (chain output.link.height)) :
    (user.id, output.event hook.2.1) ∈
      ((state.db.storeRows last user status existing).checkHooks user.id
        user.outputs).events ↔
      output ∈ user.outputs ∨
        (user.id, output.event hook.2.1) ∈ state.db.events := by
  obtain ⟨_, rows⟩ := storeRows_eq state.db last user status existing
  rw [mem_checkHooks, rows]
  refine or_congr_left ⟨?_, ?_⟩
  · rintro ⟨other, otherListed, _, _, same⟩
    have reference : other.reference = output.reference :=
      congrArg (fun row => row.2.link) same
    obtain ⟨id, -, -, block⟩ := (scan.outputs other).mp otherListed
    have sameHeight : other.link.height = output.link.height :=
      congrArg (fun link => link.tx.height) reference
    have here : id = output.link.height := by
      rw [← sameHeight, ledger.received.height_eq block,
        scan.stored.isTrue.height_eq]
    rw [here] at block
    have equal : other = output := by
      refine ledger.received.identified block listed ?_
      rw [outputsKey, outputsKey, ← Output.reference_order,
        ← Output.reference_order, reference]
    exact equal ▸ otherListed
  · intro sent
    refine ⟨output, sent, hook, List.mem_filter.mpr ⟨hooked, ?_⟩, rfl⟩
    simp [keyed, matching]

/-- One stored scan reports the confirmations it adds, as long as it sends no
output again whose count is reached. -/
theorem Progress.stored {reports : List WebhookTxConfirmation}
    (progress : Progress state.db reports user.id existing.scanHeight hook
      output)
    (scan : Scan ledger env chain last state user status existing)
    (stored : ScanStored height last state user status existing next)
    (silent : state.out.confirmPubs = [])
    (behind : height ≤ user.scanHeight) (small : last + 1 < 2 ^ 64)
    (hooked : hook ∈ state.db.webhooks)
    (keyed : hook.1 = ⟨user.id, .txConfirmation⟩)
    (matching : hook.2.1.paymentId = output.paymentId.short)
    (positive : 1 ≤ hook.2.2.confirmations)
    (fits : hook.2.2.confirmations < 2 ^ 32)
    (listed : output ∈
      ledger.received.rows user.id (chain output.link.height))
    (kept : output.link.height ≤ last → (user.id, output) ∈ next.db.outputs)
    (unfinished : output ∈ user.outputs →
      output.link.height ≤ existing.scanHeight →
      existing.scanHeight + 1 - output.link.height <
        hook.2.2.confirmations) :
    Progress next.db (reports ++ next.out.confirmPubs) user.id last hook
      output := by
  have reached := scan.reached
  have ahead := scan.ahead
  have begins : max (wrap64 (height + 1)) (wrap64 (existing.scanHeight + 1)) =
      existing.scanHeight + 1 := by
    unfold wrap64
    rw [Nat.mod_eq_of_lt (by lia), Nat.mod_eq_of_lt (by lia)]
    lia
  have ends : wrap64 (last + 1) = last + 1 := Nat.mod_eq_of_lt small
  have hooks := stored.hooks_eq
  rw [begins, ends, silent] at hooks
  have present := mem_checked scan hooked keyed matching listed
  obtain ⟨_, rows⟩ := storeRows_eq state.db last user status existing
  have checkedHook : hook ∈ ((state.db.storeRows last user status
      existing).checkHooks user.id user.outputs).webhooks := by
    rw [rows]
    exact hooked
  have checkedOutput : output.link.height ≤ last → (user.id, output) ∈
      ((state.db.storeRows last user status existing).checkHooks user.id
        user.outputs).outputs := by
    obtain ⟨_, equality⟩ := addOngoingHooks_eq hooks
    rw [equality] at kept
    exact kept
  generalize (state.db.storeRows last user status existing).checkHooks
    user.id user.outputs = checked at *
  have counts := progress.counts
  have pending := progress.pending
  by_cases early : output.link.height ≤ existing.scanHeight
  · by_cases due : existing.scanHeight + 1 - output.link.height <
        hook.2.2.confirmations
    · obtain ⟨added, rest⟩ := addOngoingHooks_pending keyed checkedHook
        (checkedOutput (by lia)) (present.mpr (.inr (pending.mpr
          ⟨early, due⟩))) fits (by lia) (by lia) hooks
      refine ⟨?_, ?_⟩
      · rw [countsOf_append, counts, added, countsOf_nil, List.nil_append,
          Nat.min_eq_right (Nat.le_of_lt due), Nat.max_eq_left (by lia),
          Nat.add_comm (existing.scanHeight + 1 - output.link.height) 1,
          List.range'_append_1]
        congr 1
        lia
      · rw [rest]
        lia
    · have absent : (user.id, output.event hook.2.1) ∉ checked.events := by
        rw [present, pending]
        rintro (sent | ⟨_, still⟩)
        · exact due (unfinished sent early)
        · exact due still
      obtain ⟨same, gone⟩ := addOngoingHooks_absent absent hooks
      refine ⟨?_, iff_of_false gone (by lia)⟩
      rw [countsOf_append, counts, same, countsOf_nil, List.append_nil]
      congr 1
      lia
  · have nothing : countsOf hook output reports = [] := by
      rw [counts, Nat.sub_eq_zero_of_le (by lia)]
      simp
    by_cases within : output.link.height ≤ last
    · have sent : output ∈ user.outputs :=
        (scan.outputs output).mpr ⟨_, by lia, within, listed⟩
      obtain ⟨added, rest⟩ := addOngoingHooks_pending keyed checkedHook
        (checkedOutput within) (present.mpr (.inl sent)) fits (by lia)
        (by lia) hooks
      refine ⟨?_, ?_⟩
      · rw [countsOf_append, nothing, added, countsOf_nil, List.nil_append,
          List.nil_append, Nat.max_eq_right (by lia), Nat.sub_self]
        rfl
      · rw [rest]
        lia
    · have absent : (user.id, output.event hook.2.1) ∉ checked.events := by
        rw [present, pending]
        rintro (sent | ⟨old, _⟩)
        · obtain ⟨id, -, below, block⟩ := (scan.outputs output).mp sent
          have := ledger.received.height_eq block
          rw [scan.stored.isTrue.height_eq] at this
          lia
        · exact early old
      obtain ⟨same, gone⟩ := addOngoingHooks_absent absent hooks
      refine ⟨?_, iff_of_false gone (by lia)⟩
      rw [countsOf_append, nothing, same, countsOf_nil,
        Nat.sub_eq_zero_of_le (by lia)]
      simp

end Step

/-! ## Runs of updates -/

/-- The arguments of an `update` for one account. -/
structure UpdateCall where
  height : BlockId
  hashes : List Hash
  user : ScannedAccount
  pow : List PowSync

/-- The database with everything reported since the start. -/
structure Reported where
  db : Db
  reports : List WebhookTxConfirmation

/-- `update` for one account, keeping its confirmation reports. -/
def Reported.update (env : Env) (state : Reported) (call : UpdateCall) :
    Except Error Reported := do
  let (db, out) ← Db.update env state.db call.height call.hashes [call.user]
    call.pow
  .ok ⟨db, state.reports ++ out.confirmPubs⟩

/-- A successful update of the account `id` with a batch of the chain that
starts at or below the height the account was handed out at. -/
structure Reports (ledger : Ledger) (env : Env) (chain : BlockId → Hash)
    (id : AccountId) (state : Reported) (call : UpdateCall)
    (next : Reported) : Prop where
  batch : Batch ledger env chain call.height call.hashes
  scan : ScanOf ledger chain (call.height + (call.hashes.length - 1)) state.db
    call.user
  own : call.user.id = id
  behind : call.height ≤ call.user.scanHeight
  success : state.update env call = .ok next

/-- An output that was stored above `first` is sent again only while a
matching webhook still waits for confirmations of it, or to no effect. -/
def ResendsUnfinished (first : BlockId) (state : Reported)
    (call : UpdateCall) : Prop :=
  ∀ row ∈ state.db.accounts, row.2.id = call.user.id →
    row.2.scanHeight < call.height + (call.hashes.length - 1) →
    ∀ output ∈ call.user.outputs, first < output.link.height →
      output.link.height ≤ row.2.scanHeight →
      ∀ hook ∈ state.db.hooksOn call.user.id output,
        1 ≤ hook.2.2.confirmations →
        row.2.scanHeight + 1 - output.link.height < hook.2.2.confirmations

/-- What a run of updates keeps, counted from the account `user` and the
webhooks it starts with. -/
private structure Confirming (ledger : Ledger) (env : Env)
    (chain : BlockId → Hash) (webhooks : SortedRows webhooksKey)
    (user : Account) (state : Reported) : Prop where
  tracked : Tracked ledger env chain state.db
  scanned : RowsScanned ledger env chain state.db
  webhooks_eq : state.db.webhooks = webhooks
  started : user.startHeight ≤ user.scanHeight
  account : ∀ row ∈ state.db.accounts, row.2.id = user.id →
    row.2.startHeight = user.startHeight ∧
      user.scanHeight ≤ row.2.scanHeight
  progress : ∀ row ∈ state.db.accounts, row.2.id = user.id →
    ∀ hook ∈ webhooks, hook.1 = ⟨user.id, .txConfirmation⟩ →
      1 ≤ hook.2.2.confirmations → hook.2.2.confirmations < 2 ^ 32 →
      ∀ output ∈ ledger.received.rows user.id (chain output.link.height),
        user.scanHeight < output.link.height →
        hook.2.1.paymentId = output.paymentId.short →
        Progress state.db state.reports user.id row.2.scanHeight hook output

/-- An update for one account leaves everything alone that is reported here,
or stores the scan of the account. -/
private theorem update_single {ledger : Ledger} {env : Env}
    {chain : BlockId → Hash} {db next : Db} {call : UpdateCall}
    {out : Updated} (tracked : Tracked ledger env chain db)
    (scanned : RowsScanned ledger env chain db)
    (checkpoints : env.checkpoints ≠ .empty)
    (batch : Batch ledger env chain call.height call.hashes)
    (scan : ScanOf ledger chain (call.height + (call.hashes.length - 1)) db
      call.user)
    (success : update env db call.height call.hashes [call.user] call.pow =
      .ok (next, out)) :
    (next.accounts = db.accounts ∧ next.events = db.events ∧
      out.confirmPubs = []) ∨
    ∃ status existing state final,
      state.db.accounts = db.accounts ∧ state.db.events = db.events ∧
      state.db.webhooks = db.webhooks ∧ state.out.confirmPubs = [] ∧
      Scan ledger env chain (call.height + (call.hashes.length - 1)) state
        call.user status existing ∧
      ScanStored call.height (call.height + (call.hashes.length - 1)) state
        call.user status existing final ∧
      next.accounts = final.db.accounts ∧ next.events = final.db.events ∧
      next.outputs = final.db.outputs ∧
      out.confirmPubs = final.out.confirmPubs := by
  rcases update_ok success with ⟨-, rfl, rfl⟩ |
    ⟨nonempty, last, checked, final, lastEq, blocks, folded, rfl, rfl⟩
  · exact .inl ⟨rfl, rfl, rfl⟩
  have scans : ∀ user ∈ [call.user], ScanOf ledger chain
      (call.height + (call.hashes.length - 1)) db user := by
    intro user member
    rw [List.mem_singleton.mp member]
    exact scan
  obtain ⟨after, same, scanning⟩ := RowsScanned.upheld.scanning checkpoints
    tracked scanned batch scans nonempty lastEq blocks
  obtain rfl : after = chain := same.elim id id
  have fits := batch.fits
  have size : 0 < call.hashes.length := List.length_pos_iff.mpr nonempty
  have unwrapped : wrap64 (call.height + (call.hashes.length - 1)) =
      call.height + (call.hashes.length - 1) := Nat.mod_eq_of_lt (by lia)
  rw [unwrapped] at lastEq
  subst last
  obtain ⟨_, _, rfl⟩ := updateBlocks_eq blocks
  rw [List.foldlM_cons, Outcome.bind_eq_ok] at folded
  obtain ⟨stored, stepped, rest⟩ := folded
  cases rest
  cases updateUser_ok stepped with
  | skipped sameDb sameHeights sameOut =>
      refine .inl ⟨?_, ?_, sameOut⟩
      · show final.db.accounts = _
        rw [sameDb]
        rfl
      · show final.db.events = _
        rw [sameDb]
        rfl
  | @stored status existing _ located reached ahead success =>
      exact .inr ⟨status, existing, _, final, rfl, rfl, rfl, rfl,
        scanning.scan List.mem_cons_self located reached ahead,
        storeScan_ok success, rfl, rfl, rfl, rfl⟩

private theorem update_webhooks {env : Env} {db next : Db} {height : BlockId}
    {hashes : List Hash} {users : List ScannedAccount} {pow : List PowSync}
    {out : Updated} (success : update env db height hashes users pow =
      .ok (next, out)) : next.webhooks = db.webhooks := by
  rcases update_ok success with ⟨-, rfl, -⟩ |
    ⟨-, last, checked, final, -, blocks, folded, rfl, -⟩
  · rfl
  · obtain ⟨_, _, rfl⟩ := updateBlocks_eq blocks
    exact (updateUsers_eq folded).2

private theorem Progress.of_events {db next : Db}
    {reports : List WebhookTxConfirmation} {id : AccountId} {scan : BlockId}
    {hook : WebhookKey × WebhookValue} {output : Output}
    (progress : Progress db reports id scan hook output)
    (events : next.events = db.events) :
    Progress next reports id scan hook output :=
  ⟨progress.counts, by rw [events]; exact progress.pending⟩

private theorem Confirming.step {ledger : Ledger} {env : Env}
    {chain : BlockId → Hash} {webhooks : SortedRows webhooksKey}
    {user : Account} {state next : Reported} {call : UpdateCall}
    (confirming : Confirming ledger env chain webhooks user state)
    (checkpoints : env.checkpoints ≠ .empty)
    (resends : ResendsUnfinished user.scanHeight state call)
    (reported : Reports ledger env chain user.id state call next) :
    Confirming ledger env chain webhooks user next := by
  obtain ⟨⟨db, out⟩, success, stored⟩ :=
    Outcome.bind_eq_ok.mp reported.success
  obtain ⟨reports, rfl⟩ : next.reports = state.reports ++ out.confirmPubs ∧
      db = next.db := by
    cases stored
    exact ⟨rfl, rfl⟩
  clear stored
  have scans : ∀ user ∈ [call.user], ScanOf ledger chain
      (call.height + (call.hashes.length - 1)) state.db user := by
    intro other member
    rw [List.mem_singleton.mp member]
    exact reported.scan
  obtain ⟨after, same, tracked, scanned⟩ := RowsScanned.upheld.update
    checkpoints confirming.tracked confirming.scanned reported.batch scans
    success
  obtain rfl : after = chain := same.elim id id
  have sameWebhooks := (update_webhooks success).trans confirming.webhooks_eq
  rcases update_single confirming.tracked confirming.scanned checkpoints
    reported.batch reported.scan success with
    ⟨accounts, events, silent⟩ |
      ⟨status, existing, before, final, oldAccounts, oldEvents, oldWebhooks,
        silent, scan, stored, accounts, events, outputs, confirmPubs⟩
  · rw [silent, List.append_nil] at reports
    refine ⟨tracked, scanned, sameWebhooks, confirming.started, ?_, ?_⟩
    · rw [accounts]
      exact confirming.account
    · rw [accounts, reports]
      intro row member own hook hooked keyed positive fits output listed above
        matching
      exact (confirming.progress row member own hook hooked keyed positive fits
        output listed above matching).of_events events
  · have existingOwn : existing.id = user.id :=
      scan.sameId.trans reported.own
    have existingMember : (status, existing) ∈ state.db.accounts :=
      oldAccounts ▸ scan.member
    obtain ⟨sameStart, behind⟩ :=
      confirming.account _ existingMember existingOwn
    have placed : ∀ row, row ∈ next.db.accounts ↔
        row = (status, { existing with
          scanHeight := call.height + (call.hashes.length - 1) }) ∨
          (row ∈ state.db.accounts ∧ row.2.id ≠ existing.id) := by
      intro row
      obtain ⟨_, _, tables⟩ := stored.db_eq
      rw [accounts, tables, ← oldAccounts]
      refine scan.agreement.mem_put scan.member ?_
      rfl
    refine ⟨tracked, scanned, sameWebhooks, confirming.started, ?_, ?_⟩
    · intro row member own
      rcases (placed row).mp member with rfl | ⟨old, -⟩
      · exact ⟨sameStart, behind.trans (Nat.le_of_lt scan.ahead)⟩
      · exact confirming.account row old own
    · intro row member own hook hooked keyed positive fits output listed above
        matching
      rcases (placed row).mp member with rfl | ⟨-, other⟩
      · have progress := (confirming.progress _ existingMember existingOwn hook
          hooked keyed positive fits output listed above matching).of_events
            oldEvents
        have started := confirming.started
        have small : call.height + (call.hashes.length - 1) + 1 < 2 ^ 64 := by
          have size := reported.batch.fits
          have ahead := scan.ahead
          have reached := scan.reached
          have height := reported.behind
          lia
        rw [← reported.own] at progress keyed listed ⊢
        rw [reports, confirmPubs]
        refine (progress.stored scan stored silent reported.behind small
          ?_ keyed matching positive fits listed ?_ ?_).of_events events
        · rw [oldWebhooks, confirming.webhooks_eq]
          exact hooked
        · intro within
          rw [← outputs, ← scan.sameId]
          refine (scanned.received.rows _ member output).mpr
            ⟨output.link.height, ?_, within, ?_⟩
          · dsimp only at sameStart ⊢
            lia
          · rw [← scan.sameId] at listed
            exact listed
        · intro sent early
          refine resends _ existingMember scan.sameId scan.ahead output sent
            above early hook ?_ positive
          refine List.mem_filter.mpr ⟨?_, by simp [keyed, matching]⟩
          rw [SortedRows.mem_rows, confirming.webhooks_eq]
          exact hooked
      · exact absurd (own.trans existingOwn.symm) other

/-- Confirmations are reported once and in order over every run of updates
that send no finished output again. -/
theorem confirmations_once_in_order {ledger : Ledger} {env : Env}
    {chain : BlockId → Hash} {start final : Db} {user : Account}
    {calls : List UpdateCall} {reports : List WebhookTxConfirmation}
    (checkpoints : env.checkpoints ≠ .empty)
    (tracked : Tracked ledger env chain start)
    (scanned : RowsScanned ledger env chain start)
    (active : (AccountStatus.active, user) ∈ start.accounts)
    (quiet : ∀ row ∈ start.events, row.1 ≠ user.id)
    (run : Run (fun state call next =>
      ResendsUnfinished user.scanHeight state call ∧
        Reports ledger env chain user.id state call next)
      ⟨start, []⟩ calls ⟨final, reports⟩) :
    ∀ row ∈ final.accounts, row.2.id = user.id →
      ∀ hook ∈ start.webhooks, hook.1 = ⟨user.id, .txConfirmation⟩ →
        1 ≤ hook.2.2.confirmations → hook.2.2.confirmations < 2 ^ 32 →
        ∀ output, (user.id, output) ∈ final.outputs →
          (user.id, output) ∉ start.outputs →
          hook.2.1.paymentId = output.paymentId.short →
          countsOf hook output reports = List.range' 1
            (min hook.2.2.confirmations
              (row.2.scanHeight - output.link.height + 1)) := by
  have initial : Confirming ledger env chain start.webhooks user
      ⟨start, []⟩ := by
    have mine : ∀ row ∈ start.accounts, row.2.id = user.id →
        row.2 = user := by
      intro row member own
      rw [tracked.indexed.agreement.distinct row member _ active own]
    refine ⟨tracked, scanned, rfl, scanned.started _ active, ?_, ?_⟩
    · intro row member own
      rw [mine row member own]
      exact ⟨rfl, le_rfl⟩
    · intro row member own hook _ _ _ _ output _ above _
      rw [mine row member own]
      refine ⟨?_, iff_of_false (fun pending => quiet _ pending rfl) ?_⟩
      · rw [Nat.sub_eq_zero_of_le above]
        simp
      · exact fun early => absurd above (Nat.not_lt_of_le early.1)
  have confirming := run.preserves
    (Confirming ledger env chain start.webhooks user)
    (fun _ _ _ kept stepped => kept.step checkpoints stepped.1 stepped.2)
    initial
  intro row member own hook hooked keyed positive fits output stored new
    matching
  obtain ⟨sameStart, -⟩ := confirming.account row member own
  rw [← own] at stored
  obtain ⟨id, above, below, listed⟩ :=
    (confirming.scanned.received.rows row member output).mp stored
  rw [own] at listed
  have height : output.link.height = id := by
    rw [ledger.received.height_eq listed, tracked.stored.isTrue.height_eq]
  subst id
  have late : user.scanHeight < output.link.height := by
    by_contra early
    refine new ((scanned.received.rows _ active output).mpr
      ⟨output.link.height, ?_, Nat.le_of_not_lt early, listed⟩)
    exact sameStart ▸ above
  rw [(confirming.progress row member own hook hooked keyed positive fits
    output listed late matching).counts]
  congr 2
  lia

/-- The state after a call that may have failed. -/
private def Reported.after (env : Env) (state : Reported)
    (call : UpdateCall) : Reported :=
  match state.update env call with
  | .ok next => next
  | .error _ => state

private theorem Reported.update_after {env : Env} {state : Reported}
    {call : UpdateCall} (success : (state.update env call).isOk = true) :
    state.update env call = .ok (state.after env call) := by
  unfold Reported.after
  cases result : state.update env call with
  | ok next => rfl
  | error failure =>
      rw [result] at success
      cases success

/-- The account that `add_account` creates for the sample address. -/
private def sampleUser : Account :=
  ⟨1, 0, sampleAddress, 7, 0, 0, 0, 0, .primary, 0⟩

/-- A new account with one webhook. -/
private def hookedDb (confirmations : ℕ) : Db :=
  { after sampleEnv sampleDb (.addAccount 0 sampleAddress 7 0) with
    webhooks := SortedRows.empty.put (⟨1, .txConfirmation⟩,
      ⟨0, 3⟩, ⟨"zmq", "", confirmations⟩) }

private theorem hookedDb_tracked (confirmations : ℕ) :
    Tracked sampleLedger sampleEnv sampleChain (hookedDb confirmations) ∧
      RowsScanned sampleLedger sampleEnv sampleChain
        (hookedDb confirmations) := by
  have stored : StoredChain sampleLedger sampleEnv sampleDb sampleChain :=
    (Tracked.of_openNew rfl sampleChain_true).2.stored
  have valid : KeepsIndexes sampleEnv sampleDb
      (.addAccount 0 sampleAddress 7 0) := by
    show wrap32 (sampleDb.findLastId + 1) ≠ AccountId.invalid
    decide
  have added : Indexed (after sampleEnv sampleDb
      (.addAccount 0 sampleAddress 7 0)) :=
    Indexed.step (.of_empty rfl rfl rfl) valid (step_after (by decide))
  refine ⟨⟨stored.of_blocks rfl, added.of_tables rfl rfl rfl⟩,
    .of_unscanned rfl rfl ?_⟩
  show ∀ row ∈ (after sampleEnv sampleDb
    (.addAccount 0 sampleAddress 7 0)).accounts.rows,
    row.2.startHeight = row.2.scanHeight
  decide

/-- A call that scans from the start up to `length` blocks. -/
private def sampleCall (length : ℕ) : UpdateCall :=
  ⟨0, (List.range length).map sampleChain,
    ⟨1, sampleAddress, 0, [sampleOutput], []⟩, []⟩

private theorem sampleCall_reports {length : ℕ} (long : 1 ≤ length - 1)
    (fits : length < 2 ^ 64) {state : Reported}
    (started : ∀ row ∈ state.db.accounts, row.2.startHeight = 0)
    (success : (state.update sampleEnv (sampleCall length)).isOk = true) :
    Reports sampleLedger sampleEnv sampleChain 1 state (sampleCall length)
      (state.after sampleEnv (sampleCall length)) where
  batch := by
    rw [sampleCall, List.range_eq_range']
    exact sampleBatch (by rwa [Nat.zero_add])
  scan := sampleScan (by simpa [sampleCall] using long) started
  own := rfl
  behind := le_rfl
  success := Reported.update_after success

/-- Two updates, the second from the same height as the first. -/
private def overlapping (confirmations : ℕ) : Reported :=
  Reported.after sampleEnv (Reported.after sampleEnv
    ⟨hookedDb confirmations, []⟩ (sampleCall 3)) (sampleCall 4)

private theorem overlapping_reports {confirmations : ℕ}
    (asked : confirmations = 1 ∨ confirmations = 5) :
    Reports sampleLedger sampleEnv sampleChain sampleUser.id
        ⟨hookedDb confirmations, []⟩ (sampleCall 3)
        (Reported.after sampleEnv ⟨hookedDb confirmations, []⟩
          (sampleCall 3)) ∧
      Reports sampleLedger sampleEnv sampleChain sampleUser.id
        (Reported.after sampleEnv ⟨hookedDb confirmations, []⟩ (sampleCall 3))
        (sampleCall 4) (overlapping confirmations) := by
  have started : ∀ row ∈ (hookedDb confirmations).accounts.rows,
      row.2.startHeight = 0 := by
    rcases asked with rfl | rfl <;> decide
  have later : ∀ row ∈ (Reported.after sampleEnv ⟨hookedDb confirmations, []⟩
      (sampleCall 3)).db.accounts.rows, row.2.startHeight = 0 := by
    rcases asked with rfl | rfl <;> decide
  constructor
  · refine sampleCall_reports (by decide) (by decide) started ?_
    rcases asked with rfl | rfl <;> decide
  · refine sampleCall_reports (by decide) (by decide) later ?_
    rcases asked with rfl | rfl <;> decide

private theorem sampleEnv_checkpoints : sampleEnv.checkpoints ≠ .empty :=
  (Tracked.of_openNew (rfl : openNew sampleEnv = .ok sampleDb)
    sampleChain_true).1

/-- Of five confirmations, three are reported over overlapping updates. -/
theorem confirmations_once_in_order_overlapping :
    countsOf (⟨sampleUser.id, .txConfirmation⟩, ⟨0, 3⟩, ⟨"zmq", "", 5⟩)
      sampleOutput (overlapping 5).reports = [1, 2, 3] := by
  obtain ⟨first, second⟩ := overlapping_reports (.inr rfl)
  have firstResends : ResendsUnfinished sampleUser.scanHeight
      ⟨hookedDb 5, []⟩ (sampleCall 3) := by
    show ∀ row ∈ (hookedDb 5).accounts.rows, _
    decide
  have secondResends : ResendsUnfinished sampleUser.scanHeight
      (Reported.after sampleEnv ⟨hookedDb 5, []⟩ (sampleCall 3))
      (sampleCall 4) := by
    show ∀ row ∈ (Reported.after sampleEnv ⟨hookedDb 5, []⟩
      (sampleCall 3)).db.accounts.rows, _
    decide
  have active : (AccountStatus.active, sampleUser) ∈ (hookedDb 5).accounts := by
    decide
  have quiet : ∀ row ∈ (hookedDb 5).events, row.1 ≠ sampleUser.id := by
    show ∀ row ∈ (hookedDb 5).events.rows, row.1 ≠ sampleUser.id
    decide
  have run : Run (fun state call next =>
      ResendsUnfinished sampleUser.scanHeight state call ∧
        Reports sampleLedger sampleEnv sampleChain sampleUser.id state call
          next) ⟨hookedDb 5, []⟩ [sampleCall 3, sampleCall 4]
      ⟨(overlapping 5).db, (overlapping 5).reports⟩ :=
    .cons ⟨firstResends, first⟩ (.cons ⟨secondResends, second⟩ (.nil _))
  have account : (AccountStatus.active, { sampleUser with scanHeight := 3 }) ∈
      (overlapping 5).db.accounts := by
    decide
  exact confirmations_once_in_order sampleEnv_checkpoints
    (hookedDb_tracked 5).1 (hookedDb_tracked 5).2 active quiet run _ account
    rfl (⟨1, .txConfirmation⟩, ⟨0, 3⟩, ⟨"zmq", "", 5⟩) (by decide) rfl
    (by decide) (by decide) sampleOutput (by decide) (by decide) rfl

/-- One confirmation is requested and reported; the second update sends the
output again and reports a third. -/
theorem resent_output_confirmed_again :
    ¬ ∀ (ledger : Ledger) (env : Env) (chain : BlockId → Hash)
      (start final : Db) (user : Account) (calls : List UpdateCall)
      (reports : List WebhookTxConfirmation),
      env.checkpoints ≠ .empty → Tracked ledger env chain start →
      RowsScanned ledger env chain start →
      (AccountStatus.active, user) ∈ start.accounts →
      (∀ row ∈ start.events, row.1 ≠ user.id) →
      Run (Reports ledger env chain user.id) ⟨start, []⟩ calls
        ⟨final, reports⟩ →
      ∀ row ∈ final.accounts, row.2.id = user.id →
        ∀ hook ∈ start.webhooks, hook.1 = ⟨user.id, .txConfirmation⟩ →
          1 ≤ hook.2.2.confirmations → hook.2.2.confirmations < 2 ^ 32 →
          ∀ output, (user.id, output) ∈ final.outputs →
            (user.id, output) ∉ start.outputs →
            hook.2.1.paymentId = output.paymentId.short →
            countsOf hook output reports = List.range' 1
              (min hook.2.2.confirmations
                (row.2.scanHeight - output.link.height + 1)) := by
  intro always
  obtain ⟨first, second⟩ := overlapping_reports (.inl rfl)
  have active : (AccountStatus.active, sampleUser) ∈ (hookedDb 1).accounts := by
    decide
  have quiet : ∀ row ∈ (hookedDb 1).events, row.1 ≠ sampleUser.id := by
    show ∀ row ∈ (hookedDb 1).events.rows, row.1 ≠ sampleUser.id
    decide
  have run : Run (Reports sampleLedger sampleEnv sampleChain sampleUser.id)
      ⟨hookedDb 1, []⟩ [sampleCall 3, sampleCall 4]
      ⟨(overlapping 1).db, (overlapping 1).reports⟩ :=
    .cons first (.cons second (.nil _))
  have account : (AccountStatus.active, { sampleUser with scanHeight := 3 }) ∈
      (overlapping 1).db.accounts := by
    decide
  have counted := always _ _ _ _ _ _ _ _ sampleEnv_checkpoints
    (hookedDb_tracked 1).1 (hookedDb_tracked 1).2 active quiet run _ account rfl
    (⟨1, .txConfirmation⟩, ⟨0, 3⟩, ⟨"zmq", "", 1⟩) (by decide) rfl le_rfl
    (by decide) sampleOutput (by decide) (by decide) rfl
  have twice : countsOf (⟨1, .txConfirmation⟩, ⟨0, 3⟩, ⟨"zmq", "", 1⟩)
      sampleOutput (overlapping 1).reports = [1, 3] := by
    decide
  rw [twice] at counted
  cases counted

end XfoLws.Db
