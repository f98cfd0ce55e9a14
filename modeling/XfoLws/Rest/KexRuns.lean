import XfoLws.Rest.KexRegistry

/-!
# Runs of the key exchange registry

Submits and status requests hold the lock for all of their work.  A finalize
releases it while the wallet is registered and writes its copy of the record
back when that fails, so other requests come between its two sections.
-/

namespace XfoLws.Rest

open Wire

/-- What the handlers take from the process. -/
structure KexEnv where
  tokens : KexTokens
  parses : Bytes → Bool

/-- A request that holds the lock once. -/
inductive KexRequest where
  | submit (req : MultisigKexSubmit) (moment : KexMoment) (saved : Bool)
  | status (req : MultisigKexStatus) (moment : KexMoment)

/-- The registry behind a request. -/
def KexRequest.answer (env : KexEnv) (registry : KexRegistry) :
    KexRequest → KexRegistry
  | .submit req moment saved =>
      (req.handle env.tokens moment saved registry).2
  | .status req moment => (req.handle moment registry).2

/-- A critical section, with the outcome of the writes in it; `finish` ends
the finalize that was started as number `id`. -/
inductive KexEvent where
  | request (request : KexRequest)
  | start (req : MultisigKexFinalize) (now : UInt64) (saved : Bool)
  | finish (id : ℕ) (registered : Bool)

/-- The registry, and the finalizes between their sections by number. -/
structure KexServer where
  registry : KexRegistry
  started : ℕ
  finalizing : List (ℕ × KexFinalizing)

namespace KexServer

def new : KexServer := ⟨.empty, 0, []⟩

def finalizing? (server : KexServer) (id : ℕ) : Option KexFinalizing :=
  (server.finalizing.find? (·.1 = id)).map (·.2)

theorem mem_of_finalizing? {server : KexServer} {id : ℕ}
    {task : KexFinalizing} (found : server.finalizing? id = some task) :
    (id, task) ∈ server.finalizing := by
  obtain ⟨⟨other, stored⟩, located, rfl⟩ := Option.map_eq_some_iff.mp found
  have same := List.find?_some located
  obtain rfl : other = id := by simpa using same
  exact List.mem_of_find?_eq_some located

def step (env : KexEnv) (server : KexServer) : KexEvent → KexServer
  | .request request =>
      { server with registry := request.answer env server.registry }
  | .start req now saved =>
      let (result, registry) := req.start env.parses now saved server.registry
      match result with
      | .ok task => ⟨registry, server.started + 1,
          (server.started, task) :: server.finalizing⟩
      | .error _ => { server with registry }
  | .finish id registered =>
      match server.finalizing? id with
      | none => server
      | some task =>
          { server with
            registry := (MultisigKexFinalize.finish task registered
              server.registry).2
            finalizing := server.finalizing.filter (·.1 ≠ id) }

end KexServer

/-! ## What accepted requests wrote -/

/-- The effect of an accepted request on its record. -/
inductive KexWrite where
  | submit (participant multisigInfo : Bytes) (round : UInt32)
  | finalize (id : ℕ) (address state : Bytes)
deriving DecidableEq, Repr

namespace KexWrite

/-- The last info of a participant; the newest write comes first. -/
def infoOf (participant : Bytes) : List KexWrite → Option (Bytes × UInt32)
  | [] => none
  | .submit other multisigInfo round :: writes =>
      if other = participant then some (multisigInfo, round)
      else infoOf participant writes
  | .finalize _ _ _ :: writes => infoOf participant writes

/-- The address of the last finalize. -/
def addressOf : List KexWrite → Bytes
  | [] => []
  | .submit _ _ _ :: writes => addressOf writes
  | .finalize _ address _ :: _ => address

/-- The write of the finalize with this number. -/
def isFinalize (id : ℕ) : KexWrite → Bool
  | .submit _ _ _ => false
  | .finalize other _ _ => other = id

end KexWrite

/-- A record shows what was written to it. -/
structure MultisigKexRecord.Shows (record : MultisigKexRecord)
    (writes : List KexWrite) : Prop where
  infos : ∀ participant, (record.peers.find? participant).map
    (fun peer => (peer.multisigInfo, peer.round)) =
      KexWrite.infoOf participant writes
  address : record.address = KexWrite.addressOf writes
  state : ∀ id address state,
    writes.head? = some (.finalize id address state) → record.state = state

/-- A server with the accepted writes of each record. -/
structure KexHistory extends KexServer where
  writes : Bytes → List KexWrite

namespace KexHistory

def new : KexHistory := ⟨.new, fun _ => []⟩

/-- The writes of the records that are left in a registry. -/
def writesIn (history : KexHistory) (registry : KexRegistry) :
    Bytes → List KexWrite :=
  fun wallet => if (registry.find? wallet).isNone then []
    else history.writes wallet

/-- The writes behind a request. -/
def requested (env : KexEnv) (history : KexHistory) :
    KexRequest → Bytes → List KexWrite
  | .submit req moment saved =>
      let kept := history.writesIn
        (req.entered env.tokens moment history.registry)
      if (req.handle env.tokens moment saved history.registry).1.success then
        Function.update kept req.recordId
          (.submit req.participant req.multisigInfo req.infoRound ::
            kept req.recordId)
      else kept
  | .status req moment =>
      history.writesIn (req.handle moment history.registry).2

/-- A step, with what it accepts; a finalize that fails takes its own write
back, and a record that is removed takes its writes along. -/
def step (env : KexEnv) (history : KexHistory) (event : KexEvent) :
    KexHistory where
  toKexServer := history.toKexServer.step env event
  writes :=
    match event with
    | .request request => history.requested env request
    | .start req now saved =>
        match (req.start env.parses now saved history.registry).1 with
        | .ok _ => Function.update history.writes req.walletId
            (.finalize history.started req.address req.newState ::
              history.writes req.walletId)
        | .error _ => history.writes
    | .finish id registered =>
        match history.finalizing? id with
        | none => history.writes
        | some task =>
            if registered then history.writes
            else Function.update history.writes task.previous.walletId
              ((history.writes task.previous.walletId).eraseP
                (KexWrite.isFinalize id))

/-- The registry shows every accepted write of its records. -/
structure Kept (history : KexHistory) : Prop where
  absent : ∀ wallet, history.registry.find? wallet = none ↔
    history.writes wallet = []
  shown : ∀ record ∈ history.registry,
    record.Shows (history.writes record.walletId)

/-- A finalize that fails to register finds its own write to be the newest of
the record. -/
def Undisturbed (history : KexHistory) : KexEvent → Prop
  | .finish id false => ∀ task, history.finalizing? id = some task →
      ((history.writes task.previous.walletId).head?.any
        (KexWrite.isFinalize id)) = true
  | _ => True

end KexHistory

namespace MultisigKexRecord.Shows

variable {record : MultisigKexRecord} {writes : List KexWrite}

theorem submitted (shows : record.Shows writes) (req : MultisigKexSubmit)
    (now : UInt64) : (req.submitted now record).1.Shows
      (.submit req.participant req.multisigInfo req.infoRound :: writes) where
  infos participant := by
    show Option.map _ ((record.peers.put _).find? participant) = _
    rw [SortedRows.find?_put, KexWrite.infoOf]
    dsimp only
    split
    · rfl
    · exact shows.infos participant
  address := shows.address
  state _ _ _ head := by cases head

theorem fresh (req : MultisigKexSubmit) (now : UInt64) :
    (req.newRecord now).Shows [] where
  infos _ := rfl
  address := rfl
  state _ _ _ head := by cases head

theorem finalized (shows : record.Shows writes) (id : ℕ)
    (address state : Bytes) (now : UInt64) :
    MultisigKexRecord.Shows
      { record with address := address, state := state, updatedAt := now }
      (.finalize id address state :: writes) where
  infos participant := shows.infos participant
  address := rfl
  state _ _ _ head := by
    cases head
    rfl

end MultisigKexRecord.Shows

namespace KexHistory

/-- What holds between steps: a copy shows what was written before its
finalize. -/
structure Consistent (history : KexHistory) : Prop extends Kept history where
  numbered : ∀ wallet id address state,
    .finalize id address state ∈ history.writes wallet → id < history.started
  tasks : ∀ task ∈ history.finalizing, task.1 < history.started
  previous : ∀ id task, (id, task) ∈ history.finalizing →
    ∀ above address state below,
      history.writes task.previous.walletId =
        above ++ .finalize id address state :: below →
      below ≠ [] ∧ task.previous.Shows below

namespace Consistent

variable {env : KexEnv} {history : KexHistory}

theorem new : KexHistory.new.Consistent where
  absent _ := iff_of_true rfl rfl
  shown _ member := (SortedRows.not_mem_empty _ member).elim
  numbered _ _ _ _ member := by cases member
  tasks _ member := by cases member
  previous _ _ member := by cases member

theorem written (consistent : history.Consistent) {record : MultisigKexRecord}
    (member : record ∈ history.registry) :
    history.writes record.walletId ≠ [] := by
  intro none
  have absent := (consistent.absent record.walletId).mpr none
  exact SortedRows.find?_eq_none.mp absent record member rfl

/-- Records may be removed with their writes. -/
theorem forget (consistent : history.Consistent) {registry : KexRegistry}
    (kept : ∀ record ∈ registry, record ∈ history.registry) :
    Consistent { history with
      registry := registry
      writes := history.writesIn registry } where
  absent wallet := by
    dsimp only
    unfold writesIn
    cases found : registry.find? wallet with
    | none => simp
    | some record =>
        obtain ⟨member, rfl⟩ := SortedRows.find?_eq_some.mp found
        have written := consistent.written (kept record member)
        simpa using written
  shown record member := by
    have found : registry.find? record.walletId = some record :=
      SortedRows.find?_eq_some.mpr ⟨member, rfl⟩
    dsimp only
    unfold writesIn
    rw [found]
    exact consistent.shown record (kept record member)
  numbered wallet id address state member := by
    dsimp only at member ⊢
    unfold writesIn at member
    split at member
    · cases member
    · exact consistent.numbered wallet id address state member
  tasks := consistent.tasks
  previous id task member above address state below split := by
    dsimp only at split
    unfold writesIn at split
    split at split
    · simp at split
    · exact consistent.previous id task member above address state below split

theorem write (consistent : history.Consistent) {record : MultisigKexRecord}
    {write : KexWrite} {tasks : List (ℕ × KexFinalizing)} {started : ℕ}
    (shows : record.Shows (write :: history.writes record.walletId))
    (later : history.started ≤ started)
    (numbered : ∀ id address state, write = .finalize id address state →
      id < started)
    (listed : ∀ task ∈ tasks, task.1 < started)
    (previous : ∀ id task, (id, task) ∈ tasks →
      ((id, task) ∈ history.finalizing ∧ write.isFinalize id = false) ∨
        (history.started ≤ id ∧ task.previous ∈ history.registry ∧
          task.previous.walletId = record.walletId)) :
    Consistent ⟨⟨history.registry.put record, started, tasks⟩,
      Function.update history.writes record.walletId
        (write :: history.writes record.walletId)⟩ where
  absent wallet := by
    dsimp only
    rw [SortedRows.find?_put, Function.update_apply]
    by_cases same : wallet = record.walletId
    · simp [same]
    · rw [if_neg same, if_neg (Ne.symm same)]
      exact consistent.absent wallet
  shown other member := by
    rw [SortedRows.mem_put] at member
    dsimp only
    rcases member with rfl | ⟨stored, different⟩
    · rw [Function.update_self]
      exact shows
    · rw [Function.update_of_ne different]
      exact consistent.shown other stored
  numbered wallet id address state member := by
    dsimp only at member ⊢
    rw [Function.update_apply] at member
    split at member
    · rcases List.mem_cons.mp member with same | old
      · exact numbered id address state same.symm
      · exact (consistent.numbered _ _ _ _ old).trans_le later
    · exact (consistent.numbered _ _ _ _ member).trans_le later
  tasks := listed
  previous id task member above address state below split := by
    dsimp only at member split
    rw [Function.update_apply] at split
    rcases previous id task member with ⟨old, other⟩ | ⟨fresh, stored, own⟩
    · split at split
      · rename_i same
        -- the task's own write is not the new one
        cases above with
        | nil =>
            obtain ⟨rfl, -⟩ := List.cons.inj split
            simp [KexWrite.isFinalize] at other
        | cons first above =>
            obtain ⟨-, split⟩ := List.cons.inj split
            exact consistent.previous id task old above address state below
              (same ▸ split)
      · exact consistent.previous id task old above address state below split
    · rw [if_pos own] at split
      cases above with
      | nil =>
          obtain ⟨-, rfl⟩ := List.cons.inj split
          rw [← own]
          exact ⟨consistent.written stored, consistent.shown _ stored⟩
      | cons first above =>
          obtain ⟨-, split⟩ := List.cons.inj split
          have listed : .finalize id address state ∈
              history.writes record.walletId := by
            rw [split]
            exact List.mem_append_right _ List.mem_cons_self
          have early := consistent.numbered _ _ _ _ listed
          omega

theorem submit (consistent : history.Consistent) (req : MultisigKexSubmit)
    (moment : KexMoment) (saved : Bool) :
    (history.step env (.request (.submit req moment saved))).Consistent := by
  have entered : ∀ record ∈ req.entered env.tokens moment history.registry,
      record ∈ history.registry := by
    intro record member
    unfold MultisigKexSubmit.entered at member
    split at member
    · exact (Retention.mem_prune.1 member).1
    · exact member
  have kept := consistent.forget entered
  obtain ⟨success, stored, refused⟩ := @MultisigKexSubmit.handle_spec
    env.tokens req moment saved history.registry
  unfold step KexServer.step requested KexRequest.answer
  dsimp only
  by_cases accepted : req.Stored env.tokens moment saved history.registry
  · have pruned : req.entered env.tokens moment history.registry =
        pruneKex moment history.registry := if_pos accepted.valid
    rw [stored accepted, if_pos (success.mpr accepted)]
    rw [pruned] at kept ⊢
    have own : (req.storedRecord moment.now
        (pruneKex moment history.registry)).walletId = req.recordId :=
      MultisigKexSubmit.storedRecord_walletId
    have shows : (req.storedRecord moment.now
        (pruneKex moment history.registry)).Shows
          (.submit req.participant req.multisigInfo req.infoRound ::
            history.writesIn (pruneKex moment history.registry)
              req.recordId) := by
      unfold MultisigKexSubmit.storedRecord
      cases found : (pruneKex moment history.registry).find? req.recordId with
      | none =>
          have none := (kept.absent req.recordId).mp found
          rw [show history.writesIn _ _ = [] from none]
          exact (MultisigKexRecord.Shows.fresh req moment.now).submitted req
            moment.now
      | some record =>
          obtain ⟨member, same⟩ := SortedRows.find?_eq_some.mp found
          exact same ▸ (kept.shown record member).submitted req moment.now
    have next := kept.write (own.symm ▸ shows) le_rfl
      (fun _ _ _ never => by cases never) kept.tasks
      fun _ _ member => .inl ⟨member, rfl⟩
    rwa [own] at next
  · rw [refused accepted, if_neg fun answered => accepted (success.mp answered)]
    exact kept

theorem status (consistent : history.Consistent) (req : MultisigKexStatus)
    (moment : KexMoment) :
    (history.step env (.request (.status req moment))).Consistent := by
  refine consistent.forget fun record member => ?_
  change record ∈ (req.handle moment history.registry).2 at member
  unfold MultisigKexStatus.handle at member
  split at member
  · exact member
  · exact (Retention.mem_prune.1 member).1

theorem start (consistent : history.Consistent) (req : MultisigKexFinalize)
    (now : UInt64) (saved : Bool) :
    (history.step env (.start req now saved)).Consistent := by
  unfold step KexServer.step
  rcases @MultisigKexFinalize.start_spec env.parses req now saved
    history.registry with ⟨task, started, found, snapshot⟩ | ⟨message, refused⟩
  · obtain ⟨stored, own⟩ := SortedRows.find?_eq_some.mp found
    simp only [started]
    have sameId : task.snapshot.walletId = req.walletId := by
      rw [snapshot]
      exact own
    have shows : task.snapshot.Shows
        (.finalize history.started req.address req.newState ::
          history.writes task.snapshot.walletId) := by
      rw [sameId, snapshot, ← own]
      exact (consistent.shown _ stored).finalized _ _ _ _
    have numbered : ∀ id address state, KexWrite.finalize history.started
        req.address req.newState = .finalize id address state →
          id < history.started + 1 := by
      intro id address state same
      cases same
      exact Nat.lt_succ_self _
    have listed : ∀ other ∈ (history.started, task) :: history.finalizing,
        other.1 < history.started + 1 := by
      intro other member
      rcases List.mem_cons.mp member with rfl | old
      · exact Nat.lt_succ_self _
      · exact (consistent.tasks other old).trans (Nat.lt_succ_self _)
    have next := consistent.write shows (Nat.le_succ _) numbered listed (by
      intro id other member
      rcases List.mem_cons.mp member with new | old
      · obtain ⟨rfl, rfl⟩ := Prod.mk.inj new
        exact .inr ⟨le_rfl, stored, own.trans sameId.symm⟩
      · have early := consistent.tasks _ old
        refine .inl ⟨old, ?_⟩
        simpa [KexWrite.isFinalize] using early.ne')
    rwa [sameId] at next
  · simp only [refused]
    exact consistent

private theorem withdraw (consistent : history.Consistent)
    {old : MultisigKexRecord} {write : KexWrite} {below : List KexWrite}
    {tasks : List (ℕ × KexFinalizing)}
    (writes : history.writes old.walletId = write :: below)
    (some : below ≠ []) (shows : old.Shows below)
    (fewer : ∀ task ∈ tasks, task ∈ history.finalizing) :
    Consistent ⟨⟨history.registry.put old, history.started, tasks⟩,
      Function.update history.writes old.walletId below⟩ where
  absent wallet := by
    dsimp only
    rw [SortedRows.find?_put, Function.update_apply]
    by_cases same : wallet = old.walletId
    · simp [same, some]
    · rw [if_neg same, if_neg (Ne.symm same)]
      exact consistent.absent wallet
  shown other member := by
    rw [SortedRows.mem_put] at member
    dsimp only
    rcases member with rfl | ⟨stored, different⟩
    · rw [Function.update_self]
      exact shows
    · rw [Function.update_of_ne different]
      exact consistent.shown other stored
  numbered wallet id address state member := by
    dsimp only at member ⊢
    rw [Function.update_apply] at member
    split at member
    · refine consistent.numbered old.walletId id address state ?_
      rw [writes]
      exact List.mem_cons_of_mem _ member
    · exact consistent.numbered _ _ _ _ member
  tasks task member := consistent.tasks task (fewer task member)
  previous id task member above address state rest split := by
    dsimp only at split
    rw [Function.update_apply] at split
    have earlier := consistent.previous id task (fewer _ member)
    split at split
    · rename_i same
      refine earlier (write :: above) address state rest ?_
      rw [same, writes, split]
      rfl
    · exact earlier above address state rest split

/-- A finalize that fails gives back what was there before it. -/
theorem finish (consistent : history.Consistent) {id : ℕ} {registered : Bool}
    (undisturbed : history.Undisturbed (.finish id registered)) :
    (history.step env (.finish id registered)).Consistent := by
  unfold step KexServer.step
  dsimp only
  cases found : history.finalizing? id with
  | none => exact consistent
  | some task =>
      have member := KexServer.mem_of_finalizing? found
      have fewer : ∀ other ∈ history.finalizing.filter (·.1 ≠ id),
          other ∈ history.finalizing := fun _ => List.mem_of_mem_filter
      dsimp only
      cases registered with
      | true =>
          exact {
            absent := consistent.absent
            shown := consistent.shown
            numbered := consistent.numbered
            tasks := fun other left => consistent.tasks other
              (fewer other left)
            previous := fun other stored left => consistent.previous other
              stored (fewer _ left) }
      | false =>
          have newest := undisturbed task found
          cases writes : history.writes task.previous.walletId with
          | nil => simp [writes] at newest
          | cons first below =>
              rw [writes] at newest
              cases first with
              | submit _ _ _ => cases newest
              | finalize other address state =>
                  obtain rfl : other = id := of_decide_eq_true newest
                  obtain ⟨some, shows⟩ := consistent.previous other task member
                    [] address state below writes
                  have erased : (KexWrite.finalize other address state ::
                      below).eraseP (KexWrite.isFinalize other) = below :=
                    List.eraseP_cons_of_pos newest
                  show Consistent ⟨⟨history.registry.put task.previous, _, _⟩,
                    Function.update history.writes task.previous.walletId _⟩
                  rw [erased]
                  exact consistent.withdraw writes some shows fewer

theorem step (consistent : history.Consistent) {event : KexEvent}
    (undisturbed : history.Undisturbed event) :
    (history.step env event).Consistent := by
  cases event with
  | request request =>
      cases request with
      | submit req moment saved => exact consistent.submit req moment saved
      | status req moment => exact consistent.status req moment
  | start req now saved => exact consistent.start req now saved
  | finish id registered => exact consistent.finish undisturbed

end Consistent

/-- The steps of any interleaving. -/
def Steps (env : KexEnv) (history : KexHistory) (event : KexEvent)
    (next : KexHistory) : Prop :=
  next = history.step env event

/-- No accepted request is undone in a run in which every finalize that fails
to register still has the newest write of its record. -/
theorem accepted_requests_kept {env : KexEnv} {events : List KexEvent}
    {final : KexHistory}
    (run : Run (fun history event next =>
      history.Undisturbed event ∧ Steps env history event next)
      .new events final) : final.Kept := by
  have consistent : final.Consistent := by
    refine run.preserves Consistent ?_ .new
    rintro history event next consistent ⟨undisturbed, rfl⟩
    exact consistent.step undisturbed
  exact consistent.toKept

/-- A process without tokens that takes every address. -/
private def sampleEnv : KexEnv := ⟨⟨[], [], []⟩, fun _ => true⟩

/-- A submit of a participant to one wallet. -/
private def sampleRequest (participant : Bytes) : KexRequest :=
  .submit ⟨[119], [99], participant, [105], 1, 3, 3, 10000, []⟩
    ⟨10000, .sorted _⟩ true

private def sampleSubmit (participant : Bytes) : KexEvent :=
  .request (sampleRequest participant)

private def sampleFinalize (status : Bytes) : MultisigKexFinalize :=
  ⟨[119], [97], [], status⟩

private def sampleStart : KexEvent := .start (sampleFinalize []) 10001 true

private def runOf (events : List KexEvent) : KexHistory :=
  events.foldl (KexHistory.step sampleEnv) .new

/-- A finalize fails before another participant submits. -/
theorem accepted_requests_kept_after_failure :
    (runOf [sampleSubmit [1], sampleStart, .finish 0 false,
      sampleSubmit [2]]).Kept := by
  have undisturbed : (runOf [sampleSubmit [1], sampleStart]).Undisturbed
      (.finish 0 false) := by
    rintro task ⟨⟩
    decide
  have run : Run (fun history event next =>
      history.Undisturbed event ∧ Steps sampleEnv history event next) .new
      [sampleSubmit [1], sampleStart, .finish 0 false, sampleSubmit [2]]
      (runOf [sampleSubmit [1], sampleStart, .finish 0 false,
        sampleSubmit [2]]) :=
    .cons ⟨trivial, rfl⟩ (.cons ⟨trivial, rfl⟩ (.cons ⟨undisturbed, rfl⟩
      (.cons ⟨trivial, rfl⟩ (.nil _))))
  exact accepted_requests_kept run

/-- A participant submits while a finalize registers the wallet. -/
private def overtaken : KexHistory :=
  runOf [sampleSubmit [1], sampleStart, sampleSubmit [2], .finish 0 false]

/-- When the finalize fails, the info that was accepted is gone. -/
theorem failed_finalize_undoes_submit :
    ¬ ∀ (env : KexEnv) (events : List KexEvent) (final : KexHistory),
      Run (KexHistory.Steps env) .new events final → final.Kept := by
  intro always
  have kept : overtaken.Kept := always sampleEnv _ _
    (.cons rfl (.cons rfl (.cons rfl (.cons rfl (.nil _)))))
  have own : ∀ record ∈ overtaken.registry.rows, record.walletId = [119] := by
    decide
  have written : KexWrite.infoOf [2] (overtaken.writes [119]) =
      some ([105], 1) := by
    decide
  have shown : ∀ record ∈ overtaken.registry.rows,
      (record.peers.find? [2]).isSome = true := by
    intro record member
    have infos := (kept.shown record member).infos [2]
    rw [own record member, written] at infos
    exact Option.isSome_of_mem (Option.map_eq_some_iff.mp infos).choose_spec.1
  exact absurd shown (by decide)

end KexHistory

/-! ## Finalized records -/

/-- The record of the request keeps its address and a permanent state. -/
def MultisigKexFinalize.Permanent (req : MultisigKexFinalize)
    (registry : KexRegistry) : Prop :=
  ∃ record, registry.find? req.walletId = some record ∧
    record.address = req.address ∧ KexPermanent record.state

/-- A submit that is stored in the record of a wallet. -/
def KexRequest.Stores (env : KexEnv) (wallet : Bytes)
    (registry : KexRegistry) : KexRequest → Prop
  | .submit req moment saved =>
      req.recordId = wallet ∧ req.Stored env.tokens moment saved registry
  | .status _ _ => False

theorem MultisigKexSubmit.submitted_permanent (req : MultisigKexSubmit)
    (now : UInt64) (record : MultisigKexRecord) :
    KexPermanent (req.submitted now record).1.state ↔
      record.state = text "active" := by
  have apart (ready : Prop) [Decidable ready] : ¬ KexPermanent
      (if ready then text "ready_to_make" else text "pending_peers") := by
    rw [apply_ite KexPermanent]
    split <;> decide
  show KexPermanent (ite (record.state = text "active") _ _) ↔ _
  split
  · rename_i active
    exact iff_of_true (.inl active) active
  · rename_i inactive
    refine iff_of_false (apart _) inactive

section Finalized

variable {env : KexEnv} {registry : KexRegistry} {record : MultisigKexRecord}
  {wallet : Bytes}

theorem KexRequest.find_answer
    (found : registry.find? wallet = some record)
    (permanent : KexPermanent record.state) {request : KexRequest}
    (other : ¬ request.Stores env wallet registry) :
    (request.answer env registry).find? wallet = some record := by
  obtain ⟨member, own⟩ := SortedRows.find?_eq_some.mp found
  have kept (moment : KexMoment) :
      (pruneKex moment registry).find? wallet = some record :=
    SortedRows.find?_eq_some.mpr ⟨mem_pruneKex member permanent, own⟩
  cases request with
  | status req moment =>
      show SortedRows.find? (req.handle moment registry).2 wallet = _
      unfold MultisigKexStatus.handle
      split
      · exact found
      · exact kept moment
  | submit req moment saved =>
      obtain ⟨-, stored, refused⟩ := @MultisigKexSubmit.handle_spec
        env.tokens req moment saved registry
      show SortedRows.find? (req.handle env.tokens moment saved registry).2
        wallet = _
      by_cases accepted : req.Stored env.tokens moment saved registry
      · have different : req.recordId ≠ wallet := fun same =>
          other ⟨same, accepted⟩
        rw [stored accepted, SortedRows.find?_put,
          MultisigKexSubmit.storedRecord_walletId, if_neg different]
        exact kept moment
      · rw [refused accepted]
        unfold MultisigKexSubmit.entered
        split
        · exact kept moment
        · exact found

theorem KexRequest.stores_answer
    (found : registry.find? wallet = some record)
    (permanent : KexPermanent record.state) {request : KexRequest}
    (stores : request.Stores env wallet registry) :
    ∃ next, (request.answer env registry).find? wallet = some next ∧
      next.address = record.address ∧
      (KexPermanent next.state ↔ record.state = text "active") ∧
      (record.state = text "active" → next.state = text "active") := by
  obtain ⟨member, own⟩ := SortedRows.find?_eq_some.mp found
  cases request with
  | status req moment => exact stores.elim
  | submit req moment saved =>
      obtain ⟨same, accepted⟩ := stores
      have kept : (pruneKex moment registry).find? req.recordId =
          some record :=
        SortedRows.find?_eq_some.mpr
          ⟨mem_pruneKex member permanent, own.trans same.symm⟩
      refine ⟨(req.submitted moment.now record).1, ?_, rfl,
        req.submitted_permanent moment.now record, fun active => ?_⟩
      · show SortedRows.find? (req.handle env.tokens moment saved registry).2
          wallet = _
        rw [MultisigKexSubmit.handle_spec.2.1 accepted, SortedRows.find?_put,
          MultisigKexSubmit.storedRecord_walletId, if_pos same]
        unfold MultisigKexSubmit.storedRecord
        rw [kept]
        rfl
      · show ite (record.state = text "active") _ _ = _
        rw [if_pos active]
        exact active

private theorem forall_prefix_cons {ι : Type} {property : List ι → Prop}
    {item : ι} {items : List ι} :
    (∀ earlier, earlier <+: item :: items → property earlier) ↔
      property [] ∧ ∀ earlier, earlier <+: items →
        property (item :: earlier) := by
  constructor
  · intro all
    exact ⟨all [] List.nil_prefix, fun earlier before =>
      all _ ((List.prefix_cons_inj item).mpr before)⟩
  · rintro ⟨first, later⟩ earlier before
    rcases List.prefix_cons_iff.mp before with rfl | ⟨rest, rfl, shorter⟩
    · exact first
    · exact later rest shorter

private theorem forall_split_cons {ι : Type} {property : List ι → ι → Prop}
    {item : ι} {items : List ι} :
    (∀ earlier next later, item :: items = earlier ++ next :: later →
        property earlier next) ↔
      property [] item ∧ ∀ earlier next later,
        items = earlier ++ next :: later → property (item :: earlier) next := by
  constructor
  · intro all
    refine ⟨all [] item items rfl, fun earlier next later split => ?_⟩
    exact all (item :: earlier) next later (congrArg (item :: ·) split)
  · rintro ⟨first, later⟩ earlier next rest split
    cases earlier with
    | nil =>
        obtain ⟨rfl, -⟩ := List.cons.inj split
        exact first
    | cons other earlier =>
        obtain ⟨rfl, tail⟩ := List.cons.inj split
        exact later earlier next rest tail

private theorem active_throughout {req : MultisigKexFinalize}
    (found : registry.find? req.walletId = some record)
    (address : record.address = req.address)
    (active : record.state = text "active") (requests : List KexRequest) :
    req.Permanent (requests.foldl (KexRequest.answer env) registry) := by
  induction requests generalizing registry record with
  | nil => exact ⟨record, found, address, .inl active⟩
  | cons request requests induction =>
      by_cases stores : request.Stores env req.walletId registry
      · obtain ⟨next, located, same, -, stays⟩ :=
          KexRequest.stores_answer found (.inl active) stores
        exact induction located (same.trans address) (stays active)
      · exact induction (KexRequest.find_answer found (.inl active) stores)
          address active

/-- With another permanent state the record stays until a submit is stored. -/
private theorem inactive_throughout {req : MultisigKexFinalize}
    (found : registry.find? req.walletId = some record)
    (address : record.address = req.address)
    (permanent : KexPermanent record.state)
    (inactive : record.state ≠ text "active") (requests : List KexRequest) :
    (∀ earlier, earlier <+: requests → req.Permanent
        (earlier.foldl (KexRequest.answer env) registry)) ↔
      ∀ earlier request later, requests = earlier ++ request :: later →
        ¬ request.Stores env req.walletId
          (earlier.foldl (KexRequest.answer env) registry) := by
  have initial : req.Permanent registry := ⟨record, found, address, permanent⟩
  induction requests generalizing registry with
  | nil =>
      refine iff_of_true (fun earlier before => ?_) (by simp)
      rw [List.prefix_nil.mp before]
      exact initial
  | cons request requests induction =>
      have first : req.Permanent
          (List.foldl (KexRequest.answer env) registry []) := initial
      rw [forall_prefix_cons, forall_split_cons, and_iff_right first]
      by_cases stores : request.Stores env req.walletId registry
      · refine iff_of_false (fun all => ?_) fun never => never.1 stores
        obtain ⟨other, stored, -, lasting⟩ := all [] List.nil_prefix
        obtain ⟨next, located, -, same, -⟩ :=
          KexRequest.stores_answer found permanent stores
        obtain rfl := Option.some.inj (located.symm.trans stored)
        exact inactive (same.mp lasting)
      · have kept := KexRequest.find_answer found permanent stores
        rw [and_iff_right (show ¬ request.Stores env req.walletId
          (List.foldl _ registry []) from stores)]
        exact induction kept ⟨record, kept, address, permanent⟩

/-- A finalized record is permanent in every state that submits and status
requests reach if and only if its state is "active" or no submit is stored in
it. -/
theorem finalized_permanent_iff {req : MultisigKexFinalize} {now : UInt64}
    {saved registered : Bool}
    (answered : (req.handle env.parses now saved registered
      registry).1.success = true)
    (status : req.status = [] ∨ KexPermanent req.status)
    (requests : List KexRequest) :
    (∀ earlier, earlier <+: requests → req.Permanent
        (earlier.foldl (KexRequest.answer env)
          (req.handle env.parses now saved registered registry).2)) ↔
      (req.status = [] ∨ req.status = text "active") ∨
        ∀ earlier request later, requests = earlier ++ request :: later →
          ¬ request.Stores env req.walletId
            (earlier.foldl (KexRequest.answer env)
              (req.handle env.parses now saved registered registry).2) := by
  have asked : KexPermanent req.newState := by
    unfold MultisigKexFinalize.newState
    split
    · exact .inl rfl
    · rename_i nonempty
      exact status.resolve_left nonempty
  have active : req.newState = text "active" ↔
      req.status = [] ∨ req.status = text "active" := by
    unfold MultisigKexFinalize.newState
    split
    · rename_i empty
      exact iff_of_true rfl (.inl empty)
    · rename_i nonempty
      exact (or_iff_right nonempty).symm
  unfold MultisigKexFinalize.handle at answered ⊢
  rcases @MultisigKexFinalize.start_spec env.parses req now saved registry with
    ⟨task, started, found, snapshot⟩ | ⟨message, refused⟩
  · rw [started] at answered ⊢
    dsimp only at answered ⊢
    cases registered with
    | false => cases answered
    | true =>
        have own : task.snapshot.walletId = req.walletId := by
          rw [snapshot]
          exact (SortedRows.find?_eq_some.mp found).2
        have located : (registry.put task.snapshot).find? req.walletId =
            some task.snapshot := by
          rw [SortedRows.find?_put, if_pos own]
        have address : task.snapshot.address = req.address := by
          rw [snapshot]
        have state : task.snapshot.state = req.newState := by
          rw [snapshot]
        rw [← active, ← state]
        rw [← state] at asked
        show (∀ earlier, _ → req.Permanent (List.foldl _
          (registry.put task.snapshot) earlier)) ↔ _
        by_cases same : task.snapshot.state = text "active"
        · exact iff_of_true (fun earlier _ =>
            active_throughout located address same earlier) (.inl same)
        · rw [or_iff_right same]
          exact inactive_throughout located address asked same requests
  · rw [refused] at answered
    cases answered

end Finalized

namespace KexHistory

/-- The registry of the samples with one wallet finalized. -/
private def finalizedWith (status : Bytes) : KexRegistry :=
  ((sampleFinalize status).handle sampleEnv.parses 10001 true true
    (runOf [sampleSubmit [1]]).registry).2

/-- A wallet that is finalized as "active" stays although a submit follows. -/
theorem finalized_permanent_active : (sampleFinalize []).Permanent
    ([sampleRequest [2]].foldl (KexRequest.answer sampleEnv)
      (finalizedWith [])) :=
  (@finalized_permanent_iff sampleEnv (runOf [sampleSubmit [1]]).registry
    (sampleFinalize []) 10001 true true (by decide) (.inl rfl)
    [sampleRequest [2]]).mpr (.inl (.inl rfl)) _ List.prefix_rfl

/-- A wallet that is finalized as "finalized" is pending after a submit, and
gone an hour later. -/
theorem submit_reopens_finalized :
    ¬ ∀ (env : KexEnv) (events : List KexEvent) (history : KexHistory),
      Run (KexHistory.Steps env) .new events history →
      ∀ (req : MultisigKexFinalize) (now : UInt64) (saved registered : Bool)
        (requests : List KexRequest),
        (req.handle env.parses now saved registered
          history.registry).1.success = true →
        req.status = [] ∨ KexPermanent req.status →
        req.Permanent (requests.foldl (KexRequest.answer env)
          (req.handle env.parses now saved registered history.registry).2) := by
  intro always
  have lasts := always sampleEnv [sampleSubmit [1]]
    (runOf [sampleSubmit [1]]) (.cons rfl (.nil _))
    (sampleFinalize (text "finalized")) 10001 true true
    [sampleRequest [2], .status ⟨[119], []⟩ ⟨20000, .sorted _⟩]
    (by decide) (.inr (.inr rfl))
  obtain ⟨record, found, -⟩ := lasts
  have gone : SortedRows.find? ([sampleRequest [2],
      .status ⟨[119], []⟩ ⟨20000, .sorted _⟩].foldl
        (KexRequest.answer sampleEnv) (finalizedWith (text "finalized")))
      [119] = none := by
    have empty : ([sampleRequest [2],
      .status ⟨[119], []⟩ ⟨20000, .sorted _⟩].foldl
        (KexRequest.answer sampleEnv)
        (finalizedWith (text "finalized"))).rows.length = 0 := by
      decide
    unfold SortedRows.find?
    rw [List.length_eq_zero_iff.mp empty]
    rfl
  cases gone.symm.trans found

end KexHistory

end XfoLws.Rest
