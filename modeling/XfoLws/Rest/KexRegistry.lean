import XfoLws.Db.MultisigStore
import XfoLws.Lib.Retention

/-!
# Registry of multisig key exchanges

The handlers of `multisig_kex_submit`, `multisig_kex_status` and
`multisig_kex_finalize` on the registry that they share.  The clock, the order
in which the registry is listed and the outcome of writing the file are
arguments.
-/

namespace XfoLws.Rest

open Wire

/-- The bytes of a literal. -/
def text (literal : String) : Bytes := asciiBytes literal.toList

structure MultisigKexPeer where
  participant : Bytes
  multisigInfo : Bytes
  round : UInt32
  updatedAt : UInt64
deriving DecidableEq, Repr

structure MultisigKexRecord where
  walletId : Bytes
  context : Bytes
  threshold : UInt32
  total : UInt32
  participants : List Bytes
  peers : SortedRows MultisigKexPeer.participant
  address : Bytes
  state : Bytes
  createdAt : UInt64
  updatedAt : UInt64

/-- `lws_multisig_kex_records`: every record is stored under its own id. -/
abbrev KexRegistry := SortedRows MultisigKexRecord.walletId

/-! ## Expiry -/

def kexMaxEntries : ℕ := 128

def kexTtlSeconds : UInt64 := 60 * 60

/-- Milliseconds are told from seconds by their size. -/
def kexUnixSeconds (timestamp : UInt64) : UInt64 :=
  if 100000000000 < timestamp then timestamp / 1000 else timestamp

/-- A state that neither expires nor is evicted. -/
def KexPermanent (state : Bytes) : Prop :=
  state = text "active" ∨ state = text "finalized"

instance (state : Bytes) : Decidable (KexPermanent state) :=
  inferInstanceAs (Decidable (_ ∨ _))

def multisigKexIsExpired (now : UInt64) (record : MultisigKexRecord) : Bool :=
  if KexPermanent record.state then false
  else
    let lastSeen := max (kexUnixSeconds record.createdAt)
      (kexUnixSeconds record.updatedAt)
    lastSeen = 0 ∨ lastSeen + kexTtlSeconds < now

def kexRetention : Retention MultisigKexRecord UInt64 where
  maxEntries := kexMaxEntries
  late now := kexTtlSeconds < now
  expired := multisigKexIsExpired
  permanent record := KexPermanent record.state
  updatedAt := MultisigKexRecord.updatedAt

/-- When a request takes the lock, and how the registry is listed then. -/
structure KexMoment where
  now : UInt64
  iteration : Iteration MultisigKexRecord

/-- `prune_lws_multisig_kex_locked`; a failed save is ignored. -/
def pruneKex (moment : KexMoment) (registry : KexRegistry) : KexRegistry :=
  kexRetention.prune moment.iteration moment.now registry

theorem mem_pruneKex {moment : KexMoment} {registry : KexRegistry}
    {record : MultisigKexRecord} (member : record ∈ registry)
    (permanent : KexPermanent record.state) :
    record ∈ pruneKex moment registry := by
  have unexpired : multisigKexIsExpired moment.now record = false := by
    unfold multisigKexIsExpired
    exact if_pos permanent
  exact Retention.mem_prune.2 member unexpired (decide_eq_true permanent)

/-! ## Participants -/

/-- The tokens of the environment. -/
structure KexTokens where
  oracle : Bytes
  dao : Bytes
  pool : Bytes

def isInternalKexParticipant (participant : Bytes) : Prop :=
  participant = text "oracle" ∨ participant = text "dao" ∨
    participant = text "pool"

instance (participant : Bytes) :
    Decidable (isInternalKexParticipant participant) :=
  inferInstanceAs (Decidable (_ ∨ _ ∨ _))

def expectedKexTokenForParticipant (tokens : KexTokens)
    (participant : Bytes) : Bytes :=
  if participant = text "oracle" then tokens.oracle
  else if participant = text "dao" then tokens.dao
  else if participant = text "pool" then tokens.pool
  else []

def hasValidKexParticipantAuth (tokens : KexTokens)
    (participant authToken : Bytes) : Prop :=
  ¬ isInternalKexParticipant participant ∨
    (expectedKexTokenForParticipant tokens participant ≠ [] ∧
      authToken = expectedKexTokenForParticipant tokens participant)

instance (tokens : KexTokens) (participant authToken : Bytes) :
    Decidable (hasValidKexParticipantAuth tokens participant authToken) :=
  inferInstanceAs (Decidable (_ ∨ _))

def participantsForKex (context participant : Bytes) : List Bytes :=
  if context = text "task_payment" then
    [participant, text "oracle", text "pool"]
  else [participant, text "oracle", text "dao"]

namespace MultisigKexRecord

/-- The infos of the other participants in a round. -/
def peerInfosForRound (record : MultisigKexRecord) (participant : Bytes)
    (round : UInt32) : List Bytes :=
  (record.peers.rows.filter fun peer =>
    peer.participant ≠ participant ∧ peer.round = round ∧
      peer.multisigInfo ≠ []).map (·.multisigInfo)

def submittedParticipants (record : MultisigKexRecord) : List Bytes :=
  (record.peers.rows.filter (·.multisigInfo ≠ [])).map (·.participant)

def missingParticipants (record : MultisigKexRecord) : List Bytes :=
  record.participants.filter fun participant =>
    (record.peers.find? participant).all (·.multisigInfo = [])

def maxRound (record : MultisigKexRecord) : UInt32 :=
  record.peers.rows.foldl (fun round peer => max round peer.round) 0

end MultisigKexRecord

/-! ## multisig_kex_submit -/

structure MultisigKexSubmit where
  walletId : Bytes
  context : Bytes
  participant : Bytes
  multisigInfo : Bytes
  round : UInt32
  threshold : UInt32
  total : UInt32
  createdAt : UInt64
  authToken : Bytes
deriving DecidableEq, Repr

structure MultisigKexResponse where
  success : Bool
  walletId : Bytes
  state : Bytes
  threshold : UInt32
  total : UInt32
  participants : List Bytes
  peerMultisigInfo : List Bytes
  message : String
  createdAt : UInt64
deriving DecidableEq, Repr

namespace MultisigKexSubmit

/-- Why a request is refused before the registry is locked. -/
def refusal (tokens : KexTokens) (req : MultisigKexSubmit) : Option String :=
  if req.context = [] ∨ req.participant = [] ∨ req.multisigInfo = [] then
    some "context, participant and multisig_info are required"
  else if req.threshold = 0 ∨ req.total = 0 ∨ req.total < req.threshold ∨
      8 < req.total then
    some "invalid multisig threshold/total"
  else if ¬ hasValidKexParticipantAuth tokens req.participant req.authToken then
    some "unauthorized KEX participant submit"
  else none

theorem refusal_eq_none {tokens : KexTokens} {req : MultisigKexSubmit}
    (valid : req.refusal tokens = none) :
    req.context ≠ [] ∧ req.participant ≠ [] := by
  unfold refusal at valid
  split at valid
  · cases valid
  · rename_i present
    push Not at present
    exact ⟨present.1, present.2.1⟩

/-- The id of the record; a participant may leave it to the context. -/
def recordId (req : MultisigKexSubmit) : Bytes :=
  if req.walletId = [] then req.context ++ text ":" ++ req.participant
  else req.walletId

/-- The round of the info; rounds count from one. -/
def infoRound (req : MultisigKexSubmit) : UInt32 :=
  if req.round = 0 then 1 else req.round

def newRecord (req : MultisigKexSubmit) (now : UInt64) : MultisigKexRecord where
  walletId := req.recordId
  context := req.context
  threshold := req.threshold
  total := req.total
  participants := participantsForKex req.context req.participant
  peers := .empty
  address := []
  state := text "pending_peers"
  createdAt := if req.createdAt = 0 then now * 1000 else req.createdAt
  updatedAt := 0

/-- The record with the info of the request, before its state is set. -/
def addPeer (req : MultisigKexSubmit) (now : UInt64)
    (record : MultisigKexRecord) : MultisigKexRecord :=
  { record with
    threshold := req.threshold
    total := req.total
    updatedAt := now
    participants :=
      if req.participant ∈ record.participants then record.participants
      else record.participants ++ [req.participant]
    peers := record.peers.put
      ⟨req.participant, req.multisigInfo, req.infoRound, now⟩ }

/-- The record that is stored, with the infos of the other participants. -/
def submitted (req : MultisigKexSubmit) (now : UInt64)
    (record : MultisigKexRecord) : MultisigKexRecord × List Bytes :=
  let record := req.addPeer now record
  let peerInfos := record.peerInfosForRound req.participant req.infoRound
  let requiredPeerCount :=
    if record.total ≤ 1 then 0 else (record.total - 1).toNat
  ({ record with
    state :=
      if record.state = text "active" then record.state
      else if requiredPeerCount ≤ peerInfos.length then text "ready_to_make"
      else text "pending_peers" }, peerInfos)

/-- The handler under the lock, behind the prune; `saved` is the outcome of
writing the file. -/
def locked (req : MultisigKexSubmit) (now : UInt64) (saved : Bool)
    (registry : KexRegistry) : MultisigKexResponse × KexRegistry :=
  let previous := registry.find? req.recordId
  if previous.isNone ∧ kexMaxEntries ≤ registry.rows.length then
    (⟨false, req.recordId, text "failed", req.threshold, req.total, [], [],
      "LWS multisig KEX registry capacity reached", req.createdAt⟩, registry)
  else
    let record := previous.getD (req.newRecord now)
    if record.context ≠ req.context then
      (⟨false, req.recordId, text "failed", record.threshold, record.total,
        record.participants, [],
        "wallet_id already exists with a different context",
        record.createdAt⟩, registry)
    else
      let (stored, peerInfos) := req.submitted now record
      let changed := registry.put stored
      if saved then
        (⟨true, req.recordId, stored.state, stored.threshold, stored.total,
          stored.participants, peerInfos,
          if stored.state = text "ready_to_make" then
            "LWS KEX peer info is ready for local WASM multisig make/exchange"
          else "LWS KEX peer info stored; waiting for remaining participants",
          stored.createdAt⟩, changed)
      else
        (⟨false, req.recordId, text "failed", stored.threshold, stored.total,
          stored.participants, [],
          "failed to persist LWS multisig KEX registry", stored.createdAt⟩,
          match previous with
          | some record => changed.put record
          | none => changed.erase req.recordId)

def handle (tokens : KexTokens) (req : MultisigKexSubmit)
    (moment : KexMoment) (saved : Bool) (registry : KexRegistry) :
    MultisigKexResponse × KexRegistry :=
  match req.refusal tokens with
  | some message =>
      (⟨false, req.walletId, text "failed", req.threshold, req.total, [], [],
        message, req.createdAt⟩, registry)
  | none => req.locked moment.now saved (pruneKex moment registry)

/-- What a submit needs of the registry under the lock. -/
structure Storable (req : MultisigKexSubmit) (registry : KexRegistry) :
    Prop where
  room : registry.find? req.recordId = none →
    registry.rows.length < kexMaxEntries
  context : ∀ record, registry.find? req.recordId = some record →
    record.context = req.context

/-- The record that a submit leaves. -/
def storedRecord (req : MultisigKexSubmit) (now : UInt64)
    (registry : KexRegistry) : MultisigKexRecord :=
  (req.submitted now ((registry.find? req.recordId).getD
    (req.newRecord now))).1

variable {tokens : KexTokens} {req : MultisigKexSubmit} {now : UInt64}
  {moment : KexMoment} {saved : Bool} {registry : KexRegistry}

theorem storedRecord_walletId :
    (req.storedRecord now registry).walletId = req.recordId := by
  unfold storedRecord
  cases found : registry.find? req.recordId with
  | none => rfl
  | some record => exact (SortedRows.find?_eq_some.mp found).2

/-- Under the lock a submit is stored, or leaves the registry. -/
theorem locked_spec :
    (saved = true ∧ Storable req registry →
      (req.locked now saved registry).1.success = true ∧
        (req.locked now saved registry).2 =
          registry.put (req.storedRecord now registry)) ∧
      (¬ (saved = true ∧ Storable req registry) →
        (req.locked now saved registry).1.success = false ∧
          (req.locked now saved registry).2 = registry) := by
  have keyed : (req.storedRecord now registry).walletId = req.recordId :=
    storedRecord_walletId
  cases found : registry.find? req.recordId with
  | none =>
      have stored : req.storedRecord now registry =
          (req.submitted now (req.newRecord now)).1 := by
        unfold storedRecord
        rw [found]
        rfl
      rw [stored] at keyed ⊢
      unfold locked
      simp only [found, Option.isNone_none, true_and, Option.getD_none]
      by_cases full : kexMaxEntries ≤ registry.rows.length
      · rw [if_pos full]
        refine ⟨fun accepted => ?_, fun _ => ⟨rfl, rfl⟩⟩
        exact absurd (accepted.2.room found) (not_lt.mpr full)
      · have storable : Storable req registry :=
          ⟨fun _ => not_le.mp full, by simp [found]⟩
        have context : (req.newRecord now).context = req.context := rfl
        rw [if_neg full, if_neg (not_not.mpr context)]
        cases saved with
        | true => exact ⟨fun _ => ⟨rfl, rfl⟩, fun never => by simp_all⟩
        | false =>
            refine ⟨fun never => (Bool.false_ne_true never.1).elim,
              fun _ => ⟨rfl, ?_⟩⟩
            show (registry.put _).erase req.recordId = registry
            rw [← keyed]
            refine SortedRows.erase_restores fun other member => ?_
            rw [keyed]
            exact SortedRows.find?_eq_none.mp found other member
  | some record =>
      obtain ⟨member, own⟩ := SortedRows.find?_eq_some.mp found
      have stored : req.storedRecord now registry =
          (req.submitted now record).1 := by
        unfold storedRecord
        rw [found]
        rfl
      rw [stored] at keyed ⊢
      unfold locked
      simp only [found, Option.isNone_some, Bool.false_eq_true, false_and,
        if_false, Option.getD_some]
      by_cases context : record.context = req.context
      · have storable : Storable req registry := by
          refine ⟨fun absent => ?_, fun other located => ?_⟩
          · rw [found] at absent
            cases absent
          · rw [found] at located
            cases located
            exact context
        rw [if_neg (not_not.mpr context)]
        cases saved with
        | true => exact ⟨fun _ => ⟨rfl, rfl⟩, fun never => by simp_all⟩
        | false =>
            refine ⟨fun never => (Bool.false_ne_true never.1).elim,
              fun _ => ⟨rfl, ?_⟩⟩
            exact SortedRows.put_restores member (keyed.trans own.symm)
      · rw [if_pos context]
        exact ⟨fun accepted => absurd (accepted.2.context record found) context,
          fun _ => ⟨rfl, rfl⟩⟩

/-- A submit that is stored. -/
structure Stored (tokens : KexTokens) (req : MultisigKexSubmit)
    (moment : KexMoment) (saved : Bool) (registry : KexRegistry) : Prop where
  valid : req.refusal tokens = none
  saved : saved = true
  storable : Storable req (pruneKex moment registry)

/-- The registry when the handler gets the lock. -/
def entered (tokens : KexTokens) (req : MultisigKexSubmit)
    (moment : KexMoment) (registry : KexRegistry) : KexRegistry :=
  if req.refusal tokens = none then pruneKex moment registry else registry

/-- A submit answers with success if and only if it is stored; otherwise it
only prunes. -/
theorem handle_spec :
    ((req.handle tokens moment saved registry).1.success = true ↔
        Stored tokens req moment saved registry) ∧
      (Stored tokens req moment saved registry →
        (req.handle tokens moment saved registry).2 =
          (pruneKex moment registry).put
            (req.storedRecord moment.now (pruneKex moment registry))) ∧
      (¬ Stored tokens req moment saved registry →
        (req.handle tokens moment saved registry).2 =
          req.entered tokens moment registry) := by
  obtain ⟨accepted, refused⟩ := @locked_spec req moment.now saved
    (pruneKex moment registry)
  unfold handle entered
  cases valid : req.refusal tokens with
  | some message =>
      have never : ¬ Stored tokens req moment saved registry := by
        intro stored
        cases valid.symm.trans stored.valid
      simp [never]
  | none =>
      dsimp only
      rw [if_pos rfl]
      have same : Stored tokens req moment saved registry ↔
          saved = true ∧ Storable req (pruneKex moment registry) :=
        ⟨fun stored => ⟨stored.saved, stored.storable⟩,
          fun stored => ⟨valid, stored.1, stored.2⟩⟩
      rw [same]
      by_cases stored : saved = true ∧ Storable req (pruneKex moment registry)
      · exact ⟨iff_of_true (accepted stored).1 stored,
          fun _ => (accepted stored).2, fun never => (never stored).elim⟩
      · refine ⟨iff_of_false ?_ stored, fun kept => (stored kept).elim,
          fun _ => (refused stored).2⟩
        rw [(refused stored).1]
        exact Bool.false_ne_true

end MultisigKexSubmit

/-! ## multisig_kex_status -/

structure MultisigKexStatus where
  walletId : Bytes
  context : Bytes
deriving DecidableEq, Repr

structure MultisigKexStatusResponse where
  success : Bool
  walletId : Bytes
  context : Bytes
  state : Bytes
  threshold : UInt32
  total : UInt32
  participants : List Bytes
  submittedParticipants : List Bytes
  missingParticipants : List Bytes
  round : UInt32
  address : Bytes
  message : String
  createdAt : UInt64
  updatedAt : UInt64
deriving DecidableEq, Repr

namespace MultisigKexStatus

/-- The answer from the pruned registry. -/
def locked (req : MultisigKexStatus) (registry : KexRegistry) :
    MultisigKexStatusResponse :=
  match registry.find? req.walletId with
  | none =>
      ⟨false, req.walletId, req.context, text "not_found", 0, 0, [], [], [], 0,
        [], "wallet_id is not registered in LWS KEX registry", 0, 0⟩
  | some record =>
      if req.context ≠ [] ∧ record.context ≠ req.context then
        ⟨false, req.walletId, req.context, text "failed", record.threshold,
          record.total, record.participants, [], [], record.maxRound,
          record.address, "wallet_id exists with a different context",
          record.createdAt, record.updatedAt⟩
      else
        ⟨true, record.walletId, record.context, record.state,
          record.threshold, record.total, record.participants,
          record.submittedParticipants, record.missingParticipants,
          record.maxRound, record.address, "LWS KEX status loaded",
          record.createdAt, record.updatedAt⟩

def handle (req : MultisigKexStatus) (moment : KexMoment)
    (registry : KexRegistry) : MultisigKexStatusResponse × KexRegistry :=
  if req.walletId = [] then
    (⟨false, req.walletId, req.context, text "failed", 0, 0, [], [], [], 0, [],
      "wallet_id is required", 0, 0⟩, registry)
  else
    let pruned := pruneKex moment registry
    (req.locked pruned, pruned)

end MultisigKexStatus

/-! ## multisig_kex_finalize -/

structure MultisigKexFinalize where
  walletId : Bytes
  address : Bytes
  context : Bytes
  status : Bytes
deriving DecidableEq, Repr

structure MultisigKexFinalizeResponse where
  success : Bool
  message : String
deriving DecidableEq, Repr

/-- What a finalize keeps while the registry is not locked. -/
structure KexFinalizing where
  previous : MultisigKexRecord
  snapshot : MultisigKexRecord

namespace MultisigKexFinalize

/-- The state that a finalize asks for. -/
def newState (req : MultisigKexFinalize) : Bytes :=
  if req.status = [] then text "active" else req.status

/-- The first critical section, or why it ends the request; `parses` is
`address_string`. -/
def start (parses : Bytes → Bool) (req : MultisigKexFinalize) (now : UInt64)
    (saved : Bool) (registry : KexRegistry) :
    Except String KexFinalizing × KexRegistry :=
  if req.walletId = [] ∨ req.address = [] then
    (.error "wallet_id and address are required", registry)
  else if ¬ parses req.address then
    (.error "Invalid multisig address", registry)
  else
    match registry.find? req.walletId with
    | none =>
        (.error "wallet_id is not registered in LWS KEX registry", registry)
    | some previous =>
        let snapshot :=
          { previous with
            address := req.address
            state := req.newState
            updatedAt := now }
        let changed := registry.put snapshot
        if saved then (.ok ⟨previous, snapshot⟩, changed)
        else
          (.error "Failed to persist finalized KEX registry state",
            changed.put previous)

/-- The rest of the request; a failed save is ignored. -/
def finish (task : KexFinalizing) (registered : Bool)
    (registry : KexRegistry) : MultisigKexFinalizeResponse × KexRegistry :=
  if registered then
    (⟨true, "KEX wallet finalized and registered successfully"⟩, registry)
  else
    (⟨false, "Failed to register finalized KEX wallet"⟩,
      registry.put task.previous)

/-- A finalize during which no other request gets the lock. -/
def handle (parses : Bytes → Bool) (req : MultisigKexFinalize) (now : UInt64)
    (saved registered : Bool) (registry : KexRegistry) :
    MultisigKexFinalizeResponse × KexRegistry :=
  match req.start parses now saved registry with
  | (.error message, registry) => (⟨false, message⟩, registry)
  | (.ok task, registry) => finish task registered registry

variable {parses : Bytes → Bool} {req : MultisigKexFinalize} {now : UInt64}
  {saved : Bool} {registry : KexRegistry}

/-- A first critical section either stores the snapshot or nothing. -/
theorem start_spec :
    (∃ task, start parses req now saved registry =
        (.ok task, registry.put task.snapshot) ∧
      registry.find? req.walletId = some task.previous ∧
      task.snapshot =
        { task.previous with
          address := req.address
          state := req.newState
          updatedAt := now }) ∨
      ∃ message, start parses req now saved registry =
        (.error message, registry) := by
  unfold start
  split
  · exact .inr ⟨_, rfl⟩
  split
  · exact .inr ⟨_, rfl⟩
  split
  · exact .inr ⟨_, rfl⟩
  · rename_i previous found
    cases saved with
    | true => exact .inl ⟨_, rfl, found, rfl⟩
    | false =>
        refine .inr ⟨_, Prod.ext rfl ?_⟩
        exact SortedRows.put_restores (SortedRows.find?_eq_some.mp found).1 rfl

end MultisigKexFinalize

end XfoLws.Rest
