import XfoLws.Db.HonestRuns

/-!
# Spend webhooks

`check_spends` reports every spend of an updated account to its `tx_spend`
webhooks, with the output it spends.  It looks the output up from the first
one at or above the height of the spend backwards, and fails the update when
there is no such start or the output lies behind it.
-/

namespace XfoLws.Db

/-! ## Looking up the source -/

/-- The walk back from the first output at or above the height of the spend
comes across one with the id of its source. -/
def InReach (outputs : SortedRows outputsKey) (user : AccountId)
    (spend : Spend) : Prop :=
  ∃ first, (user, first) ∈ outputs ∧ spend.link.height ≤ first.link.height ∧
    (∀ other, (user, other) ∈ outputs →
      spend.link.height ≤ other.link.height → first.order ≤ other.order) ∧
    ∃ source, (user, source) ∈ outputs ∧
      source.spendMeta.id = spend.source ∧
      (source.link.height < spend.link.height ∨ source = first)

section Source

variable {db : Db} {user : AccountId} {spend : Spend}

/-- The outputs from the start of the walk on. -/
private def outputsFrom (db : Db) (user : AccountId) (height : BlockId) :
    List (AccountId × Output) :=
  (db.outputs.rows.filter fun row => row.1 = user).filter fun row =>
    height ≤ row.2.link.height

/-- The outputs the walk goes back through. -/
private def outputsBefore (db : Db) (user : AccountId) (height : BlockId) :
    List (AccountId × Output) :=
  (db.outputs.rows.filter fun row => row.1 = user).filter fun row =>
    row.2.link.height < height

private theorem mem_outputsFrom {height : BlockId} {row : AccountId × Output} :
    row ∈ outputsFrom db user height ↔
      row ∈ db.outputs ∧ row.1 = user ∧ height ≤ row.2.link.height := by
  simp only [outputsFrom, List.mem_filter, decide_eq_true_eq, and_assoc,
    SortedRows.mem_rows]

private theorem mem_outputsBefore {height : BlockId}
    {row : AccountId × Output} :
    row ∈ outputsBefore db user height ↔
      row ∈ db.outputs ∧ row.1 = user ∧ row.2.link.height < height := by
  simp only [outputsBefore, List.mem_filter, decide_eq_true_eq, and_assoc,
    SortedRows.mem_rows]

private theorem spendSource_eq :
    db.spendSource user spend =
      match outputsFrom db user spend.link.height with
      | [] => .error (.notFound .outputs .getBothRange)
      | first :: _ =>
          match (first ::
              (outputsBefore db user spend.link.height).reverse).find?
                fun row => row.2.spendMeta.id = spend.source with
          | none => .error (.notFound .outputs .prevDup)
          | some row => .ok row.2.spendMeta := rfl

/-- The start of the walk comes first in the order of the table. -/
private theorem first_least {height : BlockId}
    {first : AccountId × Output} {rest : List (AccountId × Output)}
    (above : outputsFrom db user height = first :: rest) {other : Output}
    (member : (user, other) ∈ db.outputs)
    (reaches : height ≤ other.link.height) :
    first.2.order ≤ other.order := by
  have sorted : (outputsFrom db user height).Pairwise fun left right =>
      outputsKey left < outputsKey right :=
    (db.outputs.sorted.filter _).filter _
  have firstMember : first ∈ outputsFrom db user height := by
    rw [above]
    exact List.mem_cons_self
  have listed : (user, other) ∈ outputsFrom db user height :=
    mem_outputsFrom.mpr ⟨member, rfl, reaches⟩
  rw [above] at sorted listed
  rcases List.mem_cons.mp listed with rfl | later
  · exact le_rfl
  · have below := (List.pairwise_cons.mp sorted).1 _ later
    have owner := (mem_outputsFrom.mp firstMember).2.1
    simp only [outputsKey, owner, Prod.Lex.toLex_lt_toLex, lt_self_iff_false,
      true_and, false_or] at below
    exact below.le

theorem spendSource_ok {found : SpendMeta}
    (success : db.spendSource user spend = .ok found) :
    ∃ output, (user, output) ∈ db.outputs ∧ output.spendMeta = found ∧
      found.id = spend.source := by
  rw [spendSource_eq] at success
  split at success
  · cases success
  rename_i first rest above
  split at success
  · cases success
  rename_i row located
  cases success
  have stored : row ∈ db.outputs ∧ row.1 = user := by
    rcases List.mem_cons.mp (List.mem_of_find?_eq_some located) with
      rfl | before
    · have listed : row ∈ outputsFrom db user spend.link.height := by
        rw [above]
        exact List.mem_cons_self
      have := mem_outputsFrom.mp listed
      exact ⟨this.1, this.2.1⟩
    · have := mem_outputsBefore.mp (List.mem_reverse.mp before)
      exact ⟨this.1, this.2.1⟩
  obtain ⟨owner, output⟩ := row
  obtain ⟨member, rfl⟩ := stored
  exact ⟨output, member, rfl, by simpa using List.find?_some located⟩

/-- The lookup succeeds exactly when the source is in reach. -/
theorem spendSource_isOk :
    (∃ found, db.spendSource user spend = .ok found) ↔
      InReach db.outputs user spend := by
  rw [spendSource_eq]
  cases above : outputsFrom db user spend.link.height with
  | nil =>
      refine iff_of_false (by simp) ?_
      rintro ⟨first, member, reaches, -⟩
      have listed := mem_outputsFrom.mpr ⟨member, rfl, reaches⟩
      rw [above] at listed
      cases listed
  | cons first rest =>
      have listed : first ∈ outputsFrom db user spend.link.height := by
        rw [above]
        exact List.mem_cons_self
      obtain ⟨owner, start⟩ := first
      obtain ⟨stored, rfl, reaches⟩ := mem_outputsFrom.mp listed
      dsimp only
      constructor
      · rintro ⟨found, success⟩
        split at success
        · cases success
        rename_i row located
        have isSource : row.2.spendMeta.id = spend.source := by
          simpa using List.find?_some located
        refine ⟨start, stored, reaches, fun other => first_least above, row.2,
          ?_⟩
        rcases List.mem_cons.mp (List.mem_of_find?_eq_some located) with
          rfl | before
        · exact ⟨stored, isSource, .inr rfl⟩
        · obtain ⟨member, same, below⟩ :=
            mem_outputsBefore.mp (List.mem_reverse.mp before)
          exact ⟨same ▸ member, isSource, .inl below⟩
      · rintro ⟨first, firstMember, firstReaches, least, source, member,
          isSource, place⟩
        -- both are the least output at or above the height
        have same : first = start := by
          have order := le_antisymm (least start stored reaches)
            (first_least above firstMember firstReaches)
          have keys : outputsKey (owner, first) =
              outputsKey (owner, start) := by
            simp only [outputsKey, order]
          exact congrArg Prod.snd
            (SortedRows.eq_of_key_eq firstMember stored keys)
        cases located : (((owner, start) : AccountId × Output) ::
            (outputsBefore db owner spend.link.height).reverse).find?
              fun row => row.2.spendMeta.id = spend.source with
        | some row => exact ⟨row.2.spendMeta, rfl⟩
        | none =>
            refine absurd (List.find?_eq_none.mp located (owner, source) ?_)
              (by simpa using isSource)
            rcases place with below | rfl
            · refine List.mem_cons_of_mem _ (List.mem_reverse.mpr ?_)
              exact mem_outputsBefore.mpr ⟨member, rfl, below⟩
            · rw [same]
              exact List.mem_cons_self

end Source

/-! ## Reports of one account -/

/-- The `tx_spend` webhooks of an account. -/
def spendHooks (db : Db) (user : AccountId) :
    List (WebhookKey × WebhookValue) :=
  db.webhooks.rows.filter fun row => row.1 = ⟨user, .txSpend⟩

/-- One entry for each webhook and spend, with the source `sources` gives. -/
def spendReports (db : Db) (user : AccountId) (spends : List Spend)
    (sources : Spend → SpendMeta) : List WebhookTxSpend :=
  (db.spendHooks user).flatMap fun hook => spends.map fun spend =>
    ⟨⟨user, .txSpend⟩, hook.2, spend, sources spend⟩

section Check

variable {db : Db} {user : AccountId} {spends : List Spend}
  {reported : List WebhookTxSpend}

/-- The metadata the lookup comes back with, if any. -/
private def foundSource (db : Db) (user : AccountId) (spend : Spend) :
    SpendMeta :=
  match db.spendSource user spend with
  | .ok found => found
  | .error _ => ⟨⟨0, 0⟩, 0, 0, 0, 0⟩

private theorem spendSource_of_reach {spend : Spend}
    (reach : InReach db.outputs user spend) :
    db.spendSource user spend = .ok (foundSource db user spend) := by
  obtain ⟨found, success⟩ := spendSource_isOk.mpr reach
  rw [foundSource, success]

private theorem checkSpends_eq {sources : Spend → SpendMeta}
    (found : ∀ hook ∈ db.spendHooks user, ∀ spend ∈ spends,
      db.spendSource user spend = .ok (sources spend)) :
    db.checkSpends user spends reported =
      .ok (reported ++ db.spendReports user spends sources) := by
  have each : ∀ hook ∈ db.spendHooks user,
      (spends.mapM fun spend => do
        let source ← db.spendSource user spend
        Except.ok (⟨⟨user, .txSpend⟩, hook.2, spend, source⟩ :
          WebhookTxSpend)) =
      (Except.ok (spends.map fun spend =>
        ⟨⟨user, .txSpend⟩, hook.2, spend, sources spend⟩) :
          Except Error _) := by
    intro hook member
    refine Outcome.mapM_eq_map ?_
    intro spend spendMember
    rw [found hook member spend spendMember]
    rfl
  have all := Outcome.mapM_eq_map each
  have hooks : (db.webhooks.rows.filter fun row =>
      row.1 = (⟨user, .txSpend⟩ : WebhookKey)) = db.spendHooks user := rfl
  unfold checkSpends
  dsimp only
  rw [hooks, all]
  rfl

/-- `check_spends` reports every spend with its source exactly when there are
no webhooks or all sources are in reach. -/
theorem checkSpends_reports :
    (∃ sources, db.checkSpends user spends reported =
        .ok (reported ++ db.spendReports user spends sources) ∧
      (db.spendHooks user ≠ [] → ∀ spend ∈ spends, ∃ output,
        (user, output) ∈ db.outputs ∧ output.spendMeta = sources spend ∧
          output.spendMeta.id = spend.source)) ↔
      db.spendHooks user = [] ∨
        ∀ spend ∈ spends, InReach db.outputs user spend := by
  constructor
  · rintro ⟨sources, success, -⟩
    obtain ⟨reports, traversed, -⟩ := Outcome.bind_eq_ok.mp success
    cases hooks : db.spendHooks user with
    | nil => exact .inl rfl
    | cons hook rest =>
        refine .inr fun spend member => spendSource_isOk.mp ?_
        have listed : hook ∈ db.spendHooks user := by
          rw [hooks]
          exact List.mem_cons_self
        obtain ⟨_, passed⟩ := Outcome.mapM_ok_each traversed listed
        obtain ⟨_, looked⟩ := Outcome.mapM_ok_each passed member
        obtain ⟨found, success, -⟩ := Outcome.bind_eq_ok.mp looked
        exact ⟨found, success⟩
  · intro condition
    refine ⟨foundSource db user, checkSpends_eq ?_, ?_⟩
    · rintro hook member spend spendMember
      rcases condition with empty | reach
      · rw [empty] at member
        cases member
      · exact spendSource_of_reach (reach spend spendMember)
    · intro hooked spend member
      have reach := condition.resolve_left hooked spend member
      obtain ⟨output, stored, same, id⟩ :=
        spendSource_ok (spendSource_of_reach reach)
      exact ⟨output, stored, same, same ▸ id⟩

end Check

/-! ## The passes of an update -/

/-- The pass over a user stores its scan and gets to `check_spends`, on
`db`. -/
def ChecksSpends (height lastUpdate : BlockId) (state : Updating)
    (user : ScannedAccount) (db : Db) : Prop :=
  ∃ status existing confirmPubs,
    (state.room lastUpdate).db.statusOf user = some status ∧
    (state.room lastUpdate).db.findAccount? ⟨user.id, status⟩ =
      some existing ∧
    user.scanHeight ≤ existing.scanHeight ∧
    existing.scanHeight < lastUpdate ∧
    ((state.room lastUpdate).db.accountsByHeight.find?
      (toLex (existing.scanHeight, user.id))).isSome ∧
    (((state.room lastUpdate).db.storeRows lastUpdate user status
        existing).checkHooks user.id user.outputs).addOngoingHooks user.id
      (max (wrap64 (height + 1)) (wrap64 (existing.scanHeight + 1)))
      (wrap64 (lastUpdate + 1)) state.out.confirmPubs = .ok (db, confirmPubs)

/-- The outputs of all accounts once those of `user` are stored. -/
def outputsWith (db : Db) (user : ScannedAccount) : SortedRows outputsKey :=
  db.outputs.addAll (user.outputs.map fun output => (user.id, output))

/-- If the pass over a user gets to `check_spends`, it succeeds and reports
every spend to every webhook, with the stored output it spends. -/
def ReportsSpends (height lastUpdate : BlockId) (state : Updating)
    (user : ScannedAccount) : Prop :=
  ∀ db, ChecksSpends height lastUpdate state user db →
    ∃ next sources, updateUser height lastUpdate state user = .ok next ∧
      next.out.spendPubs = state.out.spendPubs ++
        state.db.spendReports user.id user.spends sources ∧
      (state.db.spendHooks user.id ≠ [] → ∀ spend ∈ user.spends, ∃ output,
        (user.id, output) ∈ next.db.outputs ∧
          output.spendMeta = sources spend ∧
          output.spendMeta.id = spend.source)

/-- The account has no webhooks, or all sources are in reach once its outputs
are stored. -/
def SpendsInReach (db : Db) (user : ScannedAccount) : Prop :=
  db.spendHooks user.id = [] ∨
    ∀ spend ∈ user.spends, InReach (db.outputsWith user) user.id spend

section Pass

variable {height lastUpdate : BlockId} {state : Updating}
  {user : ScannedAccount} {db : Db}

private theorem room_out : (state.room lastUpdate).out = state.out := by
  unfold Updating.room
  split <;> rfl

private theorem ChecksSpends.tables
    (checks : ChecksSpends height lastUpdate state user db) :
    db.outputs = state.db.outputsWith user ∧
      db.webhooks = state.db.webhooks := by
  obtain ⟨status, existing, confirmPubs, -, -, -, -, -, hooked⟩ := checks
  obtain ⟨_, rfl⟩ := addOngoingHooks_eq hooked
  have room : (state.room lastUpdate).db.outputs = state.db.outputs ∧
      (state.room lastUpdate).db.webhooks = state.db.webhooks := by
    unfold Updating.room
    split <;> exact ⟨rfl, rfl⟩
  obtain ⟨_, rows⟩ := storeRows_eq (state.room lastUpdate).db lastUpdate user
    status existing
  rw [rows]
  exact ⟨by rw [outputsWith, ← room.1]; rfl, room.2⟩

/-- From there on the pass is `check_spends`. -/
private theorem ChecksSpends.updateUser_eq
    (checks : ChecksSpends height lastUpdate state user db) :
    ∃ heights confirmPubs accountsUpdated,
      updateUser height lastUpdate state user =
        (db.checkSpends user.id user.spends state.out.spendPubs).bind
          fun spendPubs => .ok
            ⟨db, heights, ⟨spendPubs, confirmPubs, accountsUpdated⟩⟩ := by
  obtain ⟨status, existing, confirmPubs, found, located, started, ahead,
    indexed, hooked⟩ := checks
  refine ⟨(state.room lastUpdate).heights ++ [⟨user.id, status⟩], confirmPubs,
    state.out.accountsUpdated + 1, ?_⟩
  unfold updateUser
  dsimp only
  rw [← Updating.room, found]
  dsimp only
  rw [located]
  dsimp only
  rw [if_neg (Nat.not_lt.mpr started), if_neg (Nat.not_le.mpr ahead)]
  unfold storeScan
  rw [if_neg (by simpa [Option.isSome_iff_ne_none] using indexed), room_out]
  dsimp only
  rw [hooked]
  rfl

private theorem reportsSpends_iff :
    ReportsSpends height lastUpdate state user ↔
      ((∃ db, ChecksSpends height lastUpdate state user db) →
        SpendsInReach state.db user) := by
  have reports : ∀ {db : Db}, ChecksSpends height lastUpdate state user db →
      db.spendHooks user.id = state.db.spendHooks user.id ∧
      db.outputs = state.db.outputsWith user := by
    intro db checks
    obtain ⟨outputs, webhooks⟩ := checks.tables
    exact ⟨by rw [spendHooks, webhooks]; rfl, outputs⟩
  have entries : ∀ {db : Db}, ChecksSpends height lastUpdate state user db →
      ∀ sources, db.spendReports user.id user.spends sources =
        state.db.spendReports user.id user.spends sources := by
    intro db checks sources
    rw [spendReports, spendReports, (reports checks).1]
  constructor
  · rintro reported ⟨db, checks⟩
    obtain ⟨hooks, outputs⟩ := reports checks
    obtain ⟨next, sources, passed, pubs, found⟩ := reported db checks
    obtain ⟨_, _, _, pass⟩ := checks.updateUser_eq
    rw [pass] at passed
    obtain ⟨spendPubs, success, stored⟩ := Outcome.bind_eq_ok.mp passed
    cases stored
    dsimp only at pubs found
    rw [← entries checks] at pubs
    rw [← hooks] at found
    rw [pubs] at success
    unfold SpendsInReach
    rw [← hooks, ← outputs]
    exact checkSpends_reports.mp ⟨sources, success, found⟩
  · intro condition db checks
    obtain ⟨hooks, outputs⟩ := reports checks
    have reach := condition ⟨db, checks⟩
    unfold SpendsInReach at reach
    rw [← hooks, ← outputs] at reach
    obtain ⟨sources, success, found⟩ :=
      (@checkSpends_reports db user.id user.spends
        state.out.spendPubs).mpr reach
    obtain ⟨heights, confirmPubs, accountsUpdated, pass⟩ :=
      checks.updateUser_eq
    refine ⟨⟨db, heights, ⟨state.out.spendPubs ++
      db.spendReports user.id user.spends sources, confirmPubs,
      accountsUpdated⟩⟩, sources, ?_, ?_, ?_⟩
    · rw [pass, success]
      rfl
    · dsimp only
      rw [← entries checks]
    · dsimp only
      rw [← hooks]
      exact found

end Pass

/-! ## Whole updates -/

/-- `update` accepts its arguments and goes through the users, from `start`
on. -/
def UpdatesUsers (env : Env) (db : Db) (height : BlockId) (chain : List Hash)
    (pow : List PowSync) (start : Db) : Prop :=
  chain ≠ [] ∧ (pow = [] ∨ chain.length = pow.length) ∧
    updateBlocks env db height (wrap64 (height + (chain.length - 1))) chain
      pow = .ok start

/-- `guard` holds before the pass over every user of an update. -/
def EveryPass (env : Env) (guard : BlockId → Updating → ScannedAccount → Prop)
    (db : Db) (height : BlockId) (chain : List Hash)
    (users : List ScannedAccount) (pow : List PowSync) : Prop :=
  ∀ start, UpdatesUsers env db height chain pow start →
    Outcome.Along
      (updateUser height (wrap64 (height + (chain.length - 1))))
      (guard (wrap64 (height + (chain.length - 1))))
      ⟨start, [], [], [], 0⟩ users

/-- An update reports the spends of all users it stores exactly when each of
them has no webhooks or all its sources in reach. -/
theorem update_reports_spends_iff {env : Env} {db : Db} {height : BlockId}
    {chain : List Hash} {users : List ScannedAccount} {pow : List PowSync} :
    EveryPass env (ReportsSpends height) db height chain users pow ↔
      EveryPass env (fun lastUpdate state user =>
        (∃ next, ChecksSpends height lastUpdate state user next) →
          SpendsInReach state.db user) db height chain users pow := by
  unfold EveryPass
  refine forall_congr' fun start => imp_congr_right fun _ => ?_
  exact Outcome.Along.congr fun state user => reportsSpends_iff

/-- The source of every spend is stored already or with this call. -/
def SourcesStored (db : Db) (users : List ScannedAccount) : Prop :=
  ∀ user ∈ users, ∀ spend ∈ user.spends, ∃ output,
    ((user.id, output) ∈ db.outputs ∨ output ∈ user.outputs) ∧
      output.spendMeta.id = spend.source

/-- An account with one output, at height one, and a webhook for spends. -/
private def watchedDb : Db :=
  afterAll sampleEnv sampleDb
    [.addAccount 0 sampleAddress 7 0,
      .update 0 [10, 11, 12] [⟨1, sampleAddress, 0, [sampleOutput], []⟩] [],
      .addWebhook .txSpend (some sampleAddress) (⟨0, 3⟩, ⟨"zmq", "", 0⟩)]

/-- Spends that output in the block at height four. -/
private def lateSpend : Spend :=
  ⟨⟨4, 9⟩, 2, ⟨0, 1⟩, 0, 0, 0, 0, ⟨0, 0⟩, .primary⟩

private def spendingScan : ScannedAccount :=
  ⟨1, sampleAddress, 2, [], [lateSpend]⟩

private def spendingStart : Db :=
  match updateBlocks sampleEnv watchedDb 2 4 [12, 13, 14] [] with
  | .ok start => start
  | .error _ => watchedDb

private theorem spendingStart_reached :
    UpdatesUsers sampleEnv watchedDb 2 [12, 13, 14] [] spendingStart := by
  refine ⟨by decide, .inl rfl, ?_⟩
  have accepted : (updateBlocks sampleEnv watchedDb 2 4 [12, 13, 14]
      []).isOk = true := by
    decide
  change updateBlocks sampleEnv watchedDb 2 4 [12, 13, 14] [] = _
  unfold spendingStart
  cases result : updateBlocks sampleEnv watchedDb 2 4 [12, 13, 14] [] with
  | ok start => rfl
  | error failure =>
      rw [result] at accepted
      cases accepted

private theorem spendingScan_checked :
    ∃ db, ChecksSpends 2 4 ⟨spendingStart, [], [], [], 0⟩ spendingScan db := by
  have reached : ∀ existing ∈ spendingStart.findAccount? ⟨1, .active⟩,
      2 ≤ existing.scanHeight ∧ existing.scanHeight < 4 ∧
      (spendingStart.accountsByHeight.find?
        (toLex (existing.scanHeight, 1))).isSome ∧
      (((spendingStart.storeRows 4 spendingScan .active existing).checkHooks 1
        []).addOngoingHooks 1
          (max (wrap64 3) (wrap64 (existing.scanHeight + 1)))
          (wrap64 5) []).isOk = true := by
    decide
  have stored : (spendingStart.findAccount? ⟨1, .active⟩).isSome = true := by
    decide
  obtain ⟨existing, located⟩ := Option.isSome_iff_exists.mp stored
  obtain ⟨started, ahead, indexed, hooked⟩ := reached existing located
  cases result : ((spendingStart.storeRows 4 spendingScan .active
      existing).checkHooks 1 []).addOngoingHooks 1
        (max (wrap64 3) (wrap64 (existing.scanHeight + 1))) (wrap64 5) [] with
  | error failure =>
      rw [result] at hooked
      cases hooked
  | ok checked =>
      exact ⟨checked.1, .active, existing, checked.2, by decide, located,
        started, ahead, indexed, result⟩

/-- An account without an output at or above the height of its spend stops the
update. -/
theorem late_spend_stops_update :
    ¬ ∀ (env : Env) (db : Db) (height : BlockId) (chain : List Hash)
      (users : List ScannedAccount) (pow : List PowSync),
      SourcesStored db users →
      EveryPass env (ReportsSpends height) db height chain users pow := by
  intro always
  have sources : SourcesStored watchedDb [spendingScan] := by
    intro user member spend spendMember
    rw [List.mem_singleton.mp member] at spendMember ⊢
    rw [List.mem_singleton.mp spendMember]
    exact ⟨sampleOutput, .inl (by decide), rfl⟩
  have passes := always sampleEnv watchedDb 2 [12, 13, 14] [spendingScan] []
    sources spendingStart spendingStart_reached
  obtain ⟨db, checks⟩ := spendingScan_checked
  obtain ⟨next, -, passed, -⟩ := passes.1 db checks
  have stopped : (updateUser 2 4 ⟨spendingStart, [], [], [], 0⟩
      spendingScan).isOk = false := by
    decide
  have ended := congrArg Except.isOk passed
  exact Bool.false_ne_true (stopped.symm.trans ended)

end XfoLws.Db
