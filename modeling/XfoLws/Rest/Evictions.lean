import XfoLws.Rest.KexRuns
import XfoLws.Rest.Txsets

/-!
# What the multisig handlers evict

Every handler that prunes makes room in a full table before it knows whether
it will store a new record.
-/

namespace XfoLws.Rest

open Wire

/-! ## Key exchanges -/

namespace KexEvent

/-- A section that prunes the registry. -/
def Prunes (env : KexEnv) : KexEvent → Prop
  | .request (.submit req _ _) => req.refusal env.tokens = none
  | .request (.status req _) => req.walletId ≠ []
  | .start _ _ _ => False
  | .finish _ _ => False

/-- What a section sees as expired; a finish does not read the clock. -/
def expired : KexEvent → MultisigKexRecord → Bool
  | .request (.submit _ moment _) => multisigKexIsExpired moment.now
  | .request (.status _ moment) => multisigKexIsExpired moment.now
  | .start _ now _ => multisigKexIsExpired now
  | .finish _ _ => fun _ => false

/-- The registry behind the prune. -/
def entered (env : KexEnv) (registry : KexRegistry) :
    KexEvent → KexRegistry
  | .request (.submit req moment _) => req.entered env.tokens moment registry
  | .request (.status req moment) => (req.handle moment registry).2
  | .start _ _ _ => registry
  | .finish _ _ => registry

/-- A section that would evict a record. -/
def Crowded (registry : KexRegistry) : KexEvent → Prop
  | .request (.submit _ moment _) => kexRetention.Crowded moment.now registry
  | .request (.status _ moment) => kexRetention.Crowded moment.now registry
  | .start _ _ _ => False
  | .finish _ _ => False

/-- A submit that registers a new id; permanent records do not make room. -/
def Registers (registry : KexRegistry) : KexEvent → Prop
  | .request (.submit req moment saved) =>
      saved = true ∧ (∀ record ∈ registry, record.walletId ≠ req.recordId) ∧
        (kexRetention.permanents moment.now registry).rows.length <
          kexMaxEntries
  | _ => False

end KexEvent

private theorem keys_put {ρ κ : Type} [LinearOrder κ] {key : ρ → κ}
    {table : SortedRows key} (new : ρ) {row : ρ} (member : row ∈ table) :
    ∃ other ∈ table.put new, key other = key row := by
  by_cases same : key row = key new
  · exact ⟨new, SortedRows.mem_put.mpr (.inl rfl), same.symm⟩
  · exact ⟨row, SortedRows.mem_put.mpr (.inr ⟨member, same⟩), rfl⟩

section Kex

variable {env : KexEnv} {server : KexServer}

private theorem kex_pruned_iff {moment : KexMoment}
    {before after : KexRegistry}
    (kept : ∀ row ∈ kexRetention.prune moment.iteration moment.now before,
      ∃ other ∈ after, other.walletId = row.walletId) :
    EvictsForNew kexMaxEntries (multisigKexIsExpired moment.now) before
        (pruneKex moment before) after ↔
      ¬ kexRetention.Crowded moment.now before ∨
        ∃ new ∈ after, ∀ other ∈ before, other.walletId ≠ new.walletId :=
  evictsForNew_pruned_iff kept

private theorem submit_registers {req : MultisigKexSubmit}
    {moment : KexMoment} {saved : Bool} {registry : KexRegistry}
    (valid : req.refusal env.tokens = none)
    (crowded : kexRetention.Crowded moment.now registry) :
    (∃ new ∈ (req.handle env.tokens moment saved registry).2,
        ∀ other ∈ registry, other.walletId ≠ new.walletId) ↔
      saved = true ∧ (∀ record ∈ registry, record.walletId ≠ req.recordId) ∧
        (kexRetention.permanents moment.now registry).rows.length <
          kexMaxEntries := by
  obtain ⟨-, stored, refused⟩ := @MultisigKexSubmit.handle_spec
    env.tokens req moment saved registry
  have old : ∀ record ∈ pruneKex moment registry, record ∈ registry :=
    fun record member => (Retention.mem_prune.1 member).1
  have room : (pruneKex moment registry).rows.length < kexMaxEntries ↔
      (kexRetention.permanents moment.now registry).rows.length <
        kexMaxEntries :=
    Retention.prune_room crowded.late
  by_cases accepted : req.Stored env.tokens moment saved registry
  · rw [stored accepted]
    have keyed : (req.storedRecord moment.now
        (pruneKex moment registry)).walletId = req.recordId :=
      MultisigKexSubmit.storedRecord_walletId
    constructor
    · rintro ⟨new, member, fresh⟩
      rcases SortedRows.mem_put.mp member with rfl | ⟨kept, -⟩
      · rw [keyed] at fresh
        refine ⟨accepted.saved, fresh, room.mp (accepted.storable.room ?_)⟩
        exact SortedRows.find?_eq_none.mpr fun record member =>
          fresh record (old record member)
      · exact (fresh new (old new kept) rfl).elim
    · rintro ⟨-, fresh, -⟩
      exact ⟨_, SortedRows.mem_put.mpr (.inl rfl), fun other member =>
        keyed ▸ fresh other member⟩
  · rw [refused accepted]
    refine iff_of_false ?_ ?_
    · rintro ⟨new, member, fresh⟩
      rw [MultisigKexSubmit.entered, if_pos valid] at member
      exact fresh new (old new member) rfl
    · rintro ⟨saved, fresh, few⟩
      have absent : (pruneKex moment registry).find? req.recordId = none :=
        SortedRows.find?_eq_none.mpr fun record member =>
          fresh record (old record member)
      refine accepted ⟨valid, saved, fun _ => room.mpr few, ?_⟩
      intro record found
      rw [absent] at found
      cases found

private theorem finalize_evicts {event : KexEvent}
    (finalizes : ∀ request, event ≠ .request request) :
    EvictsForNew kexMaxEntries event.expired server.registry
      (event.entered env server.registry)
      (server.step env event).registry := by
  cases event with
  | request request => exact (finalizes request rfl).elim
  | start req now saved =>
      refine evictsForNew_unpruned fun row member => ?_
      unfold KexServer.step
      rcases @MultisigKexFinalize.start_spec env.parses req now saved
        server.registry with ⟨task, started, -⟩ | ⟨message, refused⟩
      · simp only [started]
        exact keys_put task.snapshot member
      · simp only [refused]
        exact ⟨row, member, rfl⟩
  | finish id registered =>
      refine evictsForNew_unpruned fun row member => ?_
      unfold KexServer.step
      dsimp only
      split
      · exact ⟨row, member, rfl⟩
      · rename_i task _
        cases registered with
        | true => exact ⟨row, member, rfl⟩
        | false => exact keys_put task.previous member

theorem kex_evictions_iff {event : KexEvent} :
    EvictsForNew kexMaxEntries event.expired server.registry
        (event.entered env server.registry)
        (server.step env event).registry ↔
      ¬ event.Prunes env ∨ ¬ event.Crowded server.registry ∨
        event.Registers server.registry := by
  cases event with
  | start req now saved =>
      exact iff_of_true (finalize_evicts (by simp)) (.inl id)
  | finish id_ registered =>
      exact iff_of_true (finalize_evicts (by simp)) (.inl id)
  | request request =>
      cases request with
      | status req moment =>
          show EvictsForNew _ _ _ (req.handle moment server.registry).2
            (req.handle moment server.registry).2 ↔
              ¬ req.walletId ≠ [] ∨
                ¬ kexRetention.Crowded moment.now server.registry ∨ False
          unfold MultisigKexStatus.handle
          by_cases unnamed : req.walletId = []
          · rw [if_pos unnamed]
            refine iff_of_true ?_ (.inl (not_not.mpr unnamed))
            exact evictsForNew_unpruned fun row member => ⟨row, member, rfl⟩
          · rw [if_neg unnamed, or_iff_right (not_not.mpr unnamed)]
            refine (kex_pruned_iff fun row member =>
              ⟨row, member, rfl⟩).trans (or_congr_right ?_)
            refine iff_of_false ?_ id
            rintro ⟨new, member, fresh⟩
            exact fresh new (Retention.mem_prune.1 member).1 rfl
      | submit req moment saved =>
          obtain ⟨-, stored, refused⟩ := @MultisigKexSubmit.handle_spec
            env.tokens req moment saved server.registry
          show EvictsForNew _ _ _
            (req.entered env.tokens moment server.registry)
            (req.handle env.tokens moment saved server.registry).2 ↔
              ¬ req.refusal env.tokens = none ∨
                ¬ kexRetention.Crowded moment.now server.registry ∨ _
          by_cases valid : req.refusal env.tokens = none
          · rw [or_iff_right (not_not.mpr valid)]
            have entered : req.entered env.tokens moment server.registry =
                pruneKex moment server.registry := if_pos valid
            rw [entered] at refused ⊢
            refine (kex_pruned_iff fun row member => ?_).trans ?_
            · by_cases accepted : req.Stored env.tokens moment saved
                  server.registry
              · rw [stored accepted]
                exact keys_put _ member
              · rw [refused accepted]
                exact ⟨row, member, rfl⟩
            · refine or_congr_right' fun crowded => ?_
              exact submit_registers valid (not_not.mp crowded)
          · refine iff_of_true ?_ (.inl valid)
            have never : ¬ req.Stored env.tokens moment saved
                server.registry := fun accepted => valid accepted.valid
            have entered : req.entered env.tokens moment server.registry =
                server.registry := if_neg valid
            rw [refused never, entered]
            exact evictsForNew_unpruned fun row member => ⟨row, member, rfl⟩

end Kex

/-! ## Txsets -/

/-- A request to the table of txsets. -/
inductive TxsetRequest where
  | register (req : MultisigTxsetRegister) (moment : TxsetMoment)
  | signature (req : MultisigTxsetSignature) (moment : TxsetMoment)
      (later : UInt64)
  | submit (req : MultisigTxsetSubmit) (moment : TxsetMoment)

namespace TxsetRequest

def moment : TxsetRequest → TxsetMoment
  | .register _ moment => moment
  | .signature _ moment _ => moment
  | .submit _ moment => moment

/-- A request that prunes the table. -/
def Prunes (env : TxsetEnv) : TxsetRequest → Prop
  | .register req _ => req.Enters env
  | .signature req _ _ => req.Enters env
  | .submit req _ => req.Enters env

/-- The table behind a request. -/
def answer (env : TxsetEnv) (table : TxsetTable) : TxsetRequest → TxsetTable
  | .register req moment => (req.handle env moment table).2
  | .signature req moment later => (req.handle env moment later table).2
  | .submit req moment => (req.handle env moment table).2

instance (env : TxsetEnv) (request : TxsetRequest) :
    Decidable (request.Prunes env) :=
  match request with
  | .register req _ => inferInstanceAs (Decidable (req.Enters env))
  | .signature req _ _ => inferInstanceAs (Decidable (req.Enters env))
  | .submit req _ => inferInstanceAs (Decidable (req.Enters env))

/-- The table behind the prune. -/
def entered (env : TxsetEnv) (table : TxsetTable)
    (request : TxsetRequest) : TxsetTable :=
  if request.Prunes env then pruneTxsets request.moment table else table

/-- What a request does to the pruned table. -/
def locked (env : TxsetEnv) (table : TxsetTable) : TxsetRequest → TxsetTable
  | .register req moment => (req.locked env moment.now table).2
  | .signature req _ later => (req.locked env later table).2
  | .submit _ _ => table

/-- A request that registers a new id. -/
def Registers (env : TxsetEnv) (table : TxsetTable) : TxsetRequest → Prop
  | .register req _ => ∀ record ∈ table, record.txsetId ≠ req.txsetId env
  | _ => False

variable {env : TxsetEnv} {table : TxsetTable}

/-- A request that gets the lock prunes; another one leaves the table. -/
theorem answer_eq (request : TxsetRequest) :
    request.answer env table =
      if request.Prunes env then
        request.locked env (pruneTxsets request.moment table)
      else table := by
  have spec : (request.Prunes env → request.answer env table =
        request.locked env (pruneTxsets request.moment table)) ∧
      (¬ request.Prunes env → request.answer env table = table) := by
    cases request with
    | register req moment => exact MultisigTxsetRegister.handle_table
    | signature req moment later => exact MultisigTxsetSignature.handle_table
    | submit req moment => exact MultisigTxsetSubmit.handle_table
  split
  · rename_i prunes
    exact spec.1 prunes
  · rename_i refused
    exact spec.2 refused

/-- Under the lock every id stays, and only a register adds one. -/
theorem locked_keys (request : TxsetRequest) :
    (∀ row ∈ table, ∃ other ∈ request.locked env table,
        other.txsetId = row.txsetId) ∧
      ∀ new ∈ request.locked env table,
        (∃ old ∈ table, old.txsetId = new.txsetId) ∨
          ∃ req moment, request = .register req moment ∧
            new.txsetId = req.txsetId env := by
  have unchanged : (∀ row ∈ table, ∃ other ∈ table,
        other.txsetId = row.txsetId) ∧
      ∀ new ∈ table, (∃ old ∈ table, old.txsetId = new.txsetId) ∨
        ∃ req moment, request = .register req moment ∧
          new.txsetId = req.txsetId env :=
    ⟨fun row member => ⟨row, member, rfl⟩,
      fun new member => .inl ⟨new, member, rfl⟩⟩
  cases request with
  | submit req moment => exact unchanged
  | signature req moment later =>
      show (∀ row ∈ table, ∃ other ∈ (req.locked env later table).2, _) ∧
        ∀ new ∈ (req.locked env later table).2, _
      unfold MultisigTxsetSignature.locked
      cases found : table.find? req.txsetId with
      | none => exact unchanged
      | some record =>
          dsimp only
          split
          · exact unchanged
          · split
            · exact unchanged
            · refine ⟨fun row member => keys_put _ member,
                fun new member => .inl ?_⟩
              rcases SortedRows.mem_put.mp member with rfl | ⟨kept, -⟩
              · exact ⟨record, (SortedRows.find?_eq_some.mp found).1, rfl⟩
              · exact ⟨new, kept, rfl⟩
  | register req moment =>
      show (∀ row ∈ table, ∃ other ∈ (req.locked env moment.now table).2, _) ∧
        ∀ new ∈ (req.locked env moment.now table).2, _
      unfold MultisigTxsetRegister.locked
      dsimp only
      split
      · exact unchanged
      · refine ⟨fun row member => keys_put _ member, fun new member => ?_⟩
        rcases SortedRows.mem_put.mp member with rfl | ⟨kept, -⟩
        · cases found : table.find? (req.txsetId env) with
          | none => exact .inr ⟨req, moment, rfl, rfl⟩
          | some record =>
              exact .inl ⟨record, (SortedRows.find?_eq_some.mp found).1, rfl⟩
        · exact .inl ⟨new, kept, rfl⟩

end TxsetRequest

private theorem txsets_pruned_iff {moment : TxsetMoment}
    {before after : TxsetTable}
    (kept : ∀ row ∈ txsetRetention.prune moment.iteration moment.now before,
      ∃ other ∈ after, other.txsetId = row.txsetId) :
    EvictsForNew unstakeTxsetsMaxEntries (txsetIsExpired moment.now) before
        (pruneTxsets moment before) after ↔
      ¬ txsetRetention.Crowded moment.now before ∨
        ∃ new ∈ after, ∀ other ∈ before, other.txsetId ≠ new.txsetId :=
  evictsForNew_pruned_iff kept

theorem txset_evictions_iff {env : TxsetEnv} {table : TxsetTable}
    {request : TxsetRequest} :
    EvictsForNew unstakeTxsetsMaxEntries (txsetIsExpired request.moment.now)
        table (request.entered env table) (request.answer env table) ↔
      ¬ request.Prunes env ∨
        ¬ txsetRetention.Crowded request.moment.now table ∨
        request.Registers env table := by
  rw [TxsetRequest.answer_eq]
  unfold TxsetRequest.entered
  by_cases prunes : request.Prunes env
  · rw [if_pos prunes, if_pos prunes, or_iff_right (not_not.mpr prunes)]
    have old : ∀ record ∈ pruneTxsets request.moment table,
        record ∈ table := fun record member => (Retention.mem_prune.1 member).1
    obtain ⟨kept, added⟩ := @TxsetRequest.locked_keys env
      (pruneTxsets request.moment table) request
    refine (txsets_pruned_iff kept).trans (or_congr_right' fun crowded => ?_)
    replace crowded := not_not.mp crowded
    constructor
    · rintro ⟨new, member, fresh⟩
      rcases added new member with ⟨stored, storedMember, same⟩ |
          ⟨req, moment, rfl, own⟩
      · exact (fresh stored (old stored storedMember) same).elim
      · exact fun record listed => own ▸ fresh record listed
    · intro registers
      cases request with
      | signature req moment later => exact registers.elim
      | submit req moment => exact registers.elim
      | register req moment =>
          have absent : (pruneTxsets moment table).find? (req.txsetId env) =
              none :=
            SortedRows.find?_eq_none.mpr fun record member =>
              registers record (old record member)
          have none : (txsetRetention.permanents moment.now table).rows =
              [] := List.filter_eq_nil_iff.mpr fun _ _ => Bool.false_ne_true
          have room : (pruneTxsets moment table).rows.length <
              unstakeTxsetsMaxEntries := by
            refine (Retention.prune_room crowded.late).mpr ?_
            show (txsetRetention.permanents moment.now table).rows.length < _
            rw [none]
            decide
          refine ⟨{ req.newRecord env moment.now with
            updatedAt := moment.now }, ?_, registers⟩
          show _ ∈ (req.locked env moment.now (pruneTxsets moment table)).2
          unfold MultisigTxsetRegister.locked
          dsimp only
          rw [absent, if_neg fun full => absurd full.2 (not_le.mpr room)]
          exact SortedRows.mem_put.mpr (.inl rfl)
  · rw [if_neg prunes, if_neg prunes]
    refine iff_of_true ?_ (.inl prunes)
    exact evictsForNew_unpruned fun row member => ⟨row, member, rfl⟩

/-- A request removes unexpired records only for a new id in a full table if
and only if it does not prune, nothing has to be evicted, or it registers a
new id. -/
theorem evictions_make_room_iff (env : KexEnv) (txsetEnv : TxsetEnv) :
    (∀ (server : KexServer) (event : KexEvent),
      EvictsForNew kexMaxEntries event.expired server.registry
          (event.entered env server.registry)
          (server.step env event).registry ↔
        ¬ event.Prunes env ∨ ¬ event.Crowded server.registry ∨
          event.Registers server.registry) ∧
      ∀ (table : TxsetTable) (request : TxsetRequest),
        EvictsForNew unstakeTxsetsMaxEntries
            (txsetIsExpired request.moment.now) table
            (request.entered txsetEnv table) (request.answer txsetEnv table) ↔
          ¬ request.Prunes txsetEnv ∨
            ¬ txsetRetention.Crowded request.moment.now table ∨
            request.Registers txsetEnv table :=
  ⟨fun _ _ => kex_evictions_iff, fun _ _ => txset_evictions_iff⟩

/-! ## A full registry -/

/-- A process without tokens. -/
private def fullEnv : KexEnv := ⟨⟨[], [], []⟩, fun _ => true⟩

/-- A submit to the wallet with a number. -/
private def fillingSubmit (number : ℕ) : MultisigKexSubmit :=
  ⟨[Fin.ofNat 256 number], [99], [112], [105], 1, 2, 2, 10000, []⟩

private def fillingMoment : KexMoment := ⟨10000, .sorted _⟩

private def filledRecord (number : ℕ) : MultisigKexRecord :=
  (fillingSubmit number).storedRecord 10000 .empty

private theorem filledRecord_evictable (number : ℕ) :
    multisigKexIsExpired 10000 (filledRecord number) = false ∧
      kexRetention.permanent (filledRecord number) = false := by
  show multisigKexIsExpired 10000 (filledRecord 0) = false ∧
    kexRetention.permanent (filledRecord 0) = false
  decide

/-- The server behind the first submits. -/
private def filledServer (count : ℕ) : KexServer :=
  ((List.range count).map fun number => KexEvent.request
    (.submit (fillingSubmit number) fillingMoment true)).foldl
      (KexServer.step fullEnv) .new

private theorem filledServer_run (count : ℕ) :
    ∃ events, Run (fun server event next =>
      next = KexServer.step fullEnv server event) .new events
        (filledServer count) := by
  induction count with
  | zero => exact ⟨[], .nil _⟩
  | succ count induction =>
      obtain ⟨events, run⟩ := induction
      refine ⟨events ++ [.request (.submit (fillingSubmit count)
        fillingMoment true)], run.append (.cons ?_ (.nil _))⟩
      unfold filledServer
      rw [List.range_succ, List.map_append, List.foldl_append]
      rfl

private theorem filledServer_rows {count : ℕ} (fits : count ≤ 128) :
    (filledServer count).registry.rows.length = count ∧
      ∀ record ∈ (filledServer count).registry, ∃ number < count,
        record = filledRecord number := by
  induction count with
  | zero => exact ⟨rfl, fun record member => by cases member⟩
  | succ count induction =>
      obtain ⟨length, filled⟩ := induction (Nat.le_of_succ_le fits)
      have same : (filledServer (count + 1)).registry =
          ((fillingSubmit count).handle fullEnv.tokens fillingMoment true
            (filledServer count).registry).2 := by
        unfold filledServer
        rw [List.range_succ, List.map_append, List.foldl_append]
        rfl
      have pruned : pruneKex fillingMoment (filledServer count).registry =
          (filledServer count).registry := by
        have uncrowded : ¬ kexRetention.Crowded fillingMoment.now
            (filledServer count).registry := by
          intro crowded
          have full : 128 ≤ (filledServer count).registry.rows.length :=
            crowded.length
          omega
        refine (Retention.prune_uncrowded uncrowded).trans ?_
        refine SortedRows.ext_mem fun record => ?_
        rw [Retention.mem_dropExpired]
        refine and_iff_left_of_imp fun member => ?_
        obtain ⟨number, -, rfl⟩ := filled record member
        exact (filledRecord_evictable number).1
      have fresh : ∀ record ∈ (filledServer count).registry,
          record.walletId ≠ (fillingSubmit count).recordId := by
        intro record member sameId
        obtain ⟨number, below, rfl⟩ := filled record member
        have values : number % 256 = count % 256 :=
          congrArg Fin.val (List.cons.inj sameId).1
        omega
      have absent : (filledServer count).registry.find?
          (fillingSubmit count).recordId = none :=
        SortedRows.find?_eq_none.mpr fresh
      have stored : (fillingSubmit count).Stored fullEnv.tokens fillingMoment
          true (filledServer count).registry := by
        refine ⟨rfl, rfl, ⟨fun _ => ?_, fun record found => ?_⟩⟩
        · rw [pruned, length]
          exact fits
        · rw [pruned, absent] at found
          cases found
      have record : (fillingSubmit count).storedRecord fillingMoment.now
          (filledServer count).registry = filledRecord count := by
        unfold filledRecord MultisigKexSubmit.storedRecord
        rw [absent]
        rfl
      rw [same, MultisigKexSubmit.handle_spec.2.1 stored, pruned, record]
      refine ⟨(SortedRows.length_put fresh).trans (by rw [length]), ?_⟩
      intro other member
      rcases SortedRows.mem_put.mp member with rfl | ⟨old, -⟩
      · exact ⟨count, Nat.lt_succ_self _, rfl⟩
      · obtain ⟨number, below, rfl⟩ := filled other old
        exact ⟨number, below.trans (Nat.lt_succ_self _), rfl⟩

/-- A status request in a full registry evicts a record. -/
theorem status_evicts_record :
    ¬ ∀ (env : KexEnv) (events : List KexEvent) (server : KexServer)
      (event : KexEvent),
      Run (fun server event next => next = KexServer.step env server event)
        .new events server →
      EvictsForNew kexMaxEntries event.expired server.registry
        (event.entered env server.registry)
        (server.step env event).registry := by
  intro always
  obtain ⟨events, run⟩ := filledServer_run 128
  obtain ⟨length, filled⟩ := filledServer_rows (le_refl 128)
  have evicts := always fullEnv events _
    (.request (.status ⟨[1], []⟩ fillingMoment)) run
  generalize filledServer 128 = server at length filled evicts
  have unexpired : kexRetention.dropExpired fillingMoment.now
      server.registry = server.registry := by
    refine SortedRows.ext_mem fun record => ?_
    rw [Retention.mem_dropExpired]
    refine and_iff_left_of_imp fun member => ?_
    obtain ⟨number, -, rfl⟩ := filled record member
    exact (filledRecord_evictable number).1
  have some : ∃ record, record ∈ server.registry :=
    List.exists_mem_of_length_pos (by omega)
  have crowded : kexRetention.Crowded fillingMoment.now server.registry := by
    refine ⟨by decide, ?_, ?_⟩
    · rw [unexpired, length]
      exact le_refl 128
    · rw [unexpired]
      obtain ⟨record, member⟩ := some
      obtain ⟨number, -, rfl⟩ := filled record member
      exact ⟨_, member, (filledRecord_evictable number).2⟩
  rcases kex_evictions_iff.mp evicts with never | never | never
  · exact never (List.cons_ne_nil _ _)
  · exact never crowded
  · exact never

end XfoLws.Rest
