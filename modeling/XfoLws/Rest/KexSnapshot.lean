import XfoLws.Rest.KexRuns

/-!
# Snapshot of the key exchange registry

The registry is written to a JSON file after each change and read when the
process starts.  The readers bound the length of arrays; the writers and the
handlers do not.
-/

namespace XfoLws.Rest

open Wire Db

def maxKexRecords : ℕ := 256
def maxKexParticipants : ℕ := 8
def maxKexPeers : ℕ := 8

namespace MultisigKexPeer

def readBytes (source : Json) : Except Schema MultisigKexPeer := do
  let fields ← readObject source
  let participant ← required fields "participant" readString
  let multisigInfo ← required fields "multisig_info" readString
  let round ← required fields "round" readU32
  let updatedAt ← required fields "updated_at" readU64
  .ok { participant, multisigInfo, round, updatedAt }

def writeBytes (self : MultisigKexPeer) : Json :=
  .object
    [("participant", .string self.participant),
      ("multisig_info", .string self.multisigInfo),
      ("round", .unsigned self.round.toNat),
      ("updated_at", .unsigned self.updatedAt.toNat)]

theorem readBytes_writeBytes (self : MultisigKexPeer) :
    readBytes self.writeBytes = .ok self := by
  simp [readBytes, writeBytes, readObject, required, field?, readString,
    bind, Except.bind]

end MultisigKexPeer

structure KexRecordSnapshot where
  walletId : Bytes
  context : Bytes
  threshold : UInt32
  total : UInt32
  participants : List Bytes
  peers : List MultisigKexPeer
  address : Bytes
  state : Bytes
  createdAt : UInt64
  updatedAt : UInt64
deriving DecidableEq, Repr

namespace KexRecordSnapshot

def readBytes (source : Json) : Except Schema KexRecordSnapshot := do
  let fields ← readObject source
  let walletId ← required fields "wallet_id" readString
  let context ← required fields "context" readString
  let threshold ← required fields "threshold" readU32
  let total ← required fields "total" readU32
  let participants ←
    optionalArray fields "participants" maxKexParticipants readString
  let peers ←
    optionalArray fields "peers" maxKexPeers MultisigKexPeer.readBytes
  let address ← Wire.optional fields "address" readString
  let state ← required fields "state" readString
  let createdAt ← required fields "created_at" readU64
  let updatedAt ← required fields "updated_at" readU64
  .ok { walletId, context, threshold, total, participants, peers,
        address := address.getD [], state, createdAt, updatedAt }

def writeBytes (self : KexRecordSnapshot) : Json :=
  .object <|
    [("wallet_id", .string self.walletId),
      ("context", .string self.context),
      ("threshold", .unsigned self.threshold.toNat),
      ("total", .unsigned self.total.toNat)] ++
    arrayField "participants" Value.string self.participants ++
    arrayField "peers" MultisigKexPeer.writeBytes self.peers ++
    [("address", .string self.address),
      ("state", .string self.state),
      ("created_at", .unsigned self.createdAt.toNat),
      ("updated_at", .unsigned self.updatedAt.toNat)]

/-- The reader's bounds on a record. -/
structure WithinCaps (item : KexRecordSnapshot) : Prop where
  participants : item.participants.length ≤ maxKexParticipants
  peers : item.peers.length ≤ maxKexPeers

instance (item : KexRecordSnapshot) : Decidable item.WithinCaps :=
  decidable_of_iff (item.participants.length ≤ maxKexParticipants ∧
      item.peers.length ≤ maxKexPeers)
    ⟨fun within => ⟨within.1, within.2⟩,
      fun within => ⟨within.participants, within.peers⟩⟩

theorem readBytes_writeBytes (self : KexRecordSnapshot) :
    readBytes self.writeBytes =
      if self.WithinCaps then .ok self else .error .arrayMaxElement := by
  have peers := optionalArray_arrayField_all
    ([("wallet_id", .string self.walletId), ("context", .string self.context),
      ("threshold", .unsigned self.threshold.toNat),
      ("total", .unsigned self.total.toNat)] ++
      arrayField "participants" Value.string self.participants)
    [("address", .string self.address), ("state", .string self.state),
      ("created_at", .unsigned self.createdAt.toNat),
      ("updated_at", .unsigned self.updatedAt.toNat)]
    "peers" maxKexPeers self.peers (by
      rw [List.forall_mem_append, List.forall_mem_append]
      exact ⟨⟨by simp, arrayField_avoids self.participants (by simp)⟩,
        by simp⟩)
    MultisigKexPeer.readBytes_writeBytes
  have participants := optionalArray_arrayField_all
    [("wallet_id", .string self.walletId), ("context", .string self.context),
      ("threshold", .unsigned self.threshold.toNat),
      ("total", .unsigned self.total.toNat)]
    (arrayField "peers" MultisigKexPeer.writeBytes self.peers ++
      [("address", .string self.address), ("state", .string self.state),
        ("created_at", .unsigned self.createdAt.toNat),
        ("updated_at", .unsigned self.updatedAt.toNat)])
    "participants" maxKexParticipants self.participants (by
      rw [List.forall_mem_append, List.forall_mem_append]
      exact ⟨by simp, arrayField_avoids self.peers (by simp), by simp⟩)
    (fun item => (rfl : readString (Value.string item) = .ok item))
  rw [← List.append_assoc] at participants
  unfold readBytes writeBytes
  simp only [readObject, bind, Except.bind, required, participants, peers,
    Wire.optional, field?_arrayField, ne_eq, String.reduceEq, not_false_eq_true]
  by_cases few : self.participants.length ≤ maxKexParticipants
  · by_cases some : self.peers.length ≤ maxKexPeers
    · have within : self.WithinCaps := ⟨few, some⟩
      simp [few, some, within, field?, readString]
    · have beyond : ¬ self.WithinCaps := fun within => some within.peers
      simp [few, some, beyond, field?, readString]
  · have beyond : ¬ self.WithinCaps := fun within => few within.participants
    simp [few, beyond, field?, readString]

end KexRecordSnapshot

structure KexRegistrySnapshot where
  records : List KexRecordSnapshot
deriving DecidableEq, Repr

namespace KexRegistrySnapshot

def readBytes (source : Json) : Except Schema KexRegistrySnapshot := do
  let fields ← readObject source
  let records ←
    optionalArray fields "records" maxKexRecords KexRecordSnapshot.readBytes
  .ok { records }

def writeBytes (self : KexRegistrySnapshot) : Json :=
  .object (arrayField "records" KexRecordSnapshot.writeBytes self.records)

/-- The reader's bounds on a snapshot. -/
structure WithinCaps (snapshot : KexRegistrySnapshot) : Prop where
  records : snapshot.records.length ≤ maxKexRecords
  each : ∀ item ∈ snapshot.records, item.WithinCaps

/-- The snapshot is read back within the caps and refused outside them. -/
theorem readBytes_writeBytes (self : KexRegistrySnapshot) :
    (self.WithinCaps → readBytes self.writeBytes = .ok self) ∧
      (¬ self.WithinCaps →
        readBytes self.writeBytes = .error .arrayMaxElement) := by
  have records := optionalArray_arrayField [] [] "records" maxKexRecords
    self.records (by simp) fun item _ => item.readBytes_writeBytes
  rw [List.append_nil, List.nil_append] at records
  unfold readBytes writeBytes
  simp only [readObject, bind, Except.bind, records]
  constructor
  · rintro ⟨few, each⟩
    rw [if_pos ⟨few, each⟩]
  · intro outside
    rw [if_neg fun within => outside ⟨within.1, within.2⟩]

end KexRegistrySnapshot

/-! ## Saving and loading -/

/-- The orders in which the hash tables are listed. -/
structure KexListing where
  records : Iteration MultisigKexRecord
  peers : Iteration MultisigKexPeer

def MultisigKexRecord.snapshot (listing : KexListing)
    (record : MultisigKexRecord) : KexRecordSnapshot where
  walletId := record.walletId
  context := record.context
  threshold := record.threshold
  total := record.total
  participants := record.participants
  peers := listing.peers.order record.peers.rows
  address := record.address
  state := record.state
  createdAt := record.createdAt
  updatedAt := record.updatedAt

/-- `snapshot_lws_multisig_kex_locked`. -/
def snapshotKex (listing : KexListing) (registry : KexRegistry) :
    KexRegistrySnapshot :=
  ⟨(listing.records.order registry.rows).map (·.snapshot listing)⟩

/-- The text that `save_lws_multisig_kex_registry_locked` writes. -/
def savedKex (listing : KexListing) (registry : KexRegistry) : Bytes :=
  (snapshotKex listing registry).writeBytes.render

/-- The record of an item; peers without a name are skipped. -/
def KexRecordSnapshot.restore (item : KexRecordSnapshot) :
    MultisigKexRecord where
  walletId := item.walletId
  context := item.context
  threshold := item.threshold
  total := item.total
  participants := item.participants
  peers := SortedRows.empty.putAll (item.peers.filter (·.participant ≠ []))
  address := item.address
  state := item.state
  createdAt := item.createdAt
  updatedAt := item.updatedAt

/-- The registry of a snapshot; records without an id are skipped. -/
def KexRegistrySnapshot.restore (snapshot : KexRegistrySnapshot) :
    KexRegistry :=
  SortedRows.empty.putAll
    ((snapshot.records.filter (·.walletId ≠ [])).map (·.restore))

/-- `load_lws_multisig_kex_registry`; behind an error the registry stays as
it was. -/
def loadKex (json : JsonParser) (file : Option Bytes) (before : KexRegistry) :
    Except Schema KexRegistry :=
  match file with
  | none | some [] => .ok before
  | some content => do
      let snapshot ← (json.parse content).elim (.error .object)
        KexRegistrySnapshot.readBytes
      .ok snapshot.restore

/-- Records and peers have names. -/
structure MultisigKexRecord.Named (record : MultisigKexRecord) : Prop where
  walletId : record.walletId ≠ []
  peers : ∀ peer ∈ record.peers, peer.participant ≠ []

private theorem putAll_perm {ρ κ : Type} [LinearOrder κ] {key : ρ → κ}
    (table : SortedRows key) {rows : List ρ} (same : rows.Perm table.rows) :
    SortedRows.empty.putAll rows = table := by
  refine SortedRows.ext_mem fun row => ?_
  have distinct : rows.Pairwise fun first second => key first ≠ key second :=
    (table.sorted.imp ne_of_lt).perm same.symm fun different => different.symm
  rw [SortedRows.mem_putAll distinct, same.mem_iff]
  exact or_iff_left fun never => SortedRows.not_mem_empty _ never.1

theorem MultisigKexRecord.restore_snapshot {record : MultisigKexRecord}
    (named : record.Named) (listing : KexListing) :
    (record.snapshot listing).restore = record := by
  have listed := listing.peers.perm record.peers.rows
  have all : (listing.peers.order record.peers.rows).filter
      (·.participant ≠ []) = listing.peers.order record.peers.rows := by
    apply List.filter_eq_self.mpr
    intro peer member
    exact decide_eq_true (named.peers peer (listed.mem_iff.mp member))
  unfold snapshot KexRecordSnapshot.restore
  rw [all, putAll_perm record.peers listed]

theorem restore_snapshotKex {registry : KexRegistry}
    (named : ∀ record ∈ registry, record.Named) (listing : KexListing) :
    (snapshotKex listing registry).restore = registry := by
  have listed := listing.records.perm registry.rows
  have back : ((snapshotKex listing registry).records.filter
      (·.walletId ≠ [])).map (·.restore) =
        listing.records.order registry.rows := by
    unfold snapshotKex
    rw [List.filter_eq_self.mpr, List.map_map]
    · refine (List.map_congr_left fun record member => ?_).trans
        (List.map_id _)
      exact MultisigKexRecord.restore_snapshot
        (named record (listed.mem_iff.mp member)) listing
    · intro item member
      obtain ⟨record, stored, rfl⟩ := List.mem_map.mp member
      exact decide_eq_true (named record (listed.mem_iff.mp stored)).walletId
  unfold KexRegistrySnapshot.restore
  rw [back]
  exact putAll_perm registry listed

/-- The reader's bounds on a registry. -/
structure KexWithinCaps (registry : KexRegistry) : Prop where
  records : registry.rows.length ≤ maxKexRecords
  participants : ∀ record ∈ registry,
    record.participants.length ≤ maxKexParticipants
  peers : ∀ record ∈ registry, record.peers.rows.length ≤ maxKexPeers

theorem withinCaps_snapshotKex {registry : KexRegistry}
    (listing : KexListing) :
    (snapshotKex listing registry).WithinCaps ↔ KexWithinCaps registry := by
  have listed := listing.records.perm registry.rows
  have length : (snapshotKex listing registry).records.length =
      registry.rows.length := by
    unfold snapshotKex
    rw [List.length_map, listed.length_eq]
  have each : (∀ item ∈ (snapshotKex listing registry).records,
        item.WithinCaps) ↔
      ∀ record ∈ registry, (record.snapshot listing).WithinCaps := by
    unfold snapshotKex
    rw [List.forall_mem_map]
    exact forall_congr' fun record => imp_congr_left listed.mem_iff
  have peers (record : MultisigKexRecord) :
      (record.snapshot listing).peers.length = record.peers.rows.length :=
    (listing.peers.perm record.peers.rows).length_eq
  constructor
  · intro within
    have caps := each.mp within.each
    exact ⟨length ▸ within.records, fun record member =>
      (caps record member).participants, fun record member =>
        peers record ▸ (caps record member).peers⟩
  · intro within
    exact ⟨length ▸ within.records, each.mpr fun record member =>
      ⟨within.participants record member,
        (peers record).le.trans (within.peers record member)⟩⟩

/-- What was saved is loaded exactly within the caps. -/
theorem loadKex_savedKex_iff {json : JsonParser} {registry : KexRegistry}
    (named : ∀ record ∈ registry, record.Named) (listing : KexListing)
    (readBack : json.parse (savedKex listing registry) =
      some (snapshotKex listing registry).writeBytes) (before : KexRegistry) :
    loadKex json (some (savedKex listing registry)) before = .ok registry ↔
      KexWithinCaps registry := by
  have current := (snapshotKex listing registry).readBytes_writeBytes
  rw [withinCaps_snapshotKex] at current
  have back := restore_snapshotKex named listing
  unfold loadKex
  generalize savedKex listing registry = content at readBack
  cases content with
  | nil =>
      rw [json.parse_empty] at readBack
      cases readBack
  | cons first rest =>
      dsimp only
      rw [readBack, Option.elim_some]
      by_cases within : KexWithinCaps registry
      · rw [current.1 within]
        exact iff_of_true (congrArg Except.ok back) within
      · rw [current.2 within]
        exact iff_of_false (fun never => by cases never) within

/-! ## Names along runs -/

/-- Records in the registry and in copies have names. -/
structure KexServer.Named (server : KexServer) : Prop where
  registry : ∀ record ∈ server.registry, record.Named
  previous : ∀ task ∈ server.finalizing, task.2.previous.Named

theorem MultisigKexSubmit.recordId_ne_nil {req : MultisigKexSubmit}
    (participant : req.participant ≠ []) : req.recordId ≠ [] := by
  unfold recordId
  split
  · simp [participant]
  · assumption

theorem MultisigKexSubmit.storedRecord_named {req : MultisigKexSubmit}
    {now : UInt64} {registry : KexRegistry}
    (named : ∀ record ∈ registry, record.Named)
    (participant : req.participant ≠ []) :
    (req.storedRecord now registry).Named where
  walletId := by
    rw [storedRecord_walletId]
    exact recordId_ne_nil participant
  peers := by
    intro peer member
    change peer ∈ SortedRows.put _ _ at member
    rcases SortedRows.mem_put.mp member with rfl | ⟨old, -⟩
    · exact participant
    · cases found : registry.find? req.recordId with
      | none =>
          rw [found] at old
          exact (SortedRows.not_mem_empty _ old).elim
      | some record =>
          rw [found] at old
          exact (named record (SortedRows.find?_eq_some.mp found).1).peers
            peer old

theorem KexServer.Named.step {env : KexEnv} {server : KexServer}
    (named : server.Named) (event : KexEvent) :
    (server.step env event).Named := by
  have pruned (moment : KexMoment) :
      ∀ record ∈ pruneKex moment server.registry, record.Named :=
    fun record member => named.registry record (Retention.mem_prune.1 member).1
  cases event with
  | request request =>
      refine ⟨?_, named.previous⟩
      cases request with
      | status req moment =>
          show ∀ record ∈ (req.handle moment server.registry).2, record.Named
          unfold MultisigKexStatus.handle
          split
          · exact named.registry
          · exact pruned moment
      | submit req moment saved =>
          obtain ⟨-, stored, refused⟩ := @MultisigKexSubmit.handle_spec
            env.tokens req moment saved server.registry
          show ∀ record ∈ (req.handle env.tokens moment saved
            server.registry).2, record.Named
          by_cases accepted : req.Stored env.tokens moment saved
              server.registry
          · rw [stored accepted]
            intro record member
            rcases SortedRows.mem_put.mp member with rfl | ⟨old, -⟩
            · exact MultisigKexSubmit.storedRecord_named (pruned moment)
                (MultisigKexSubmit.refusal_eq_none accepted.valid).2
            · exact pruned moment record old
          · rw [refused accepted]
            unfold MultisigKexSubmit.entered
            split
            · exact pruned moment
            · exact named.registry
  | start req now saved =>
      unfold KexServer.step
      rcases @MultisigKexFinalize.start_spec env.parses req now saved
        server.registry with
        ⟨task, started, found, snapshot⟩ | ⟨message, refused⟩
      · have old := named.registry _ (SortedRows.find?_eq_some.mp found).1
        simp only [started]
        refine ⟨fun record member => ?_, fun other member => ?_⟩
        · rcases SortedRows.mem_put.mp member with rfl | ⟨stored, -⟩
          · rw [snapshot]
            exact ⟨old.walletId, old.peers⟩
          · exact named.registry record stored
        · rcases List.mem_cons.mp member with rfl | earlier
          · exact old
          · exact named.previous other earlier
      · simp only [refused]
        exact named
  | finish id registered =>
      unfold KexServer.step
      dsimp only
      cases found : server.finalizing? id with
      | none => exact named
      | some task =>
          have kept := named.previous _ (KexServer.mem_of_finalizing? found)
          refine ⟨fun record member => ?_, fun other member =>
            named.previous other (List.mem_of_mem_filter member)⟩
          cases registered with
          | true => exact named.registry record member
          | false =>
              rcases SortedRows.mem_put.mp member with rfl | ⟨stored, -⟩
              · exact kept
              · exact named.registry record stored

theorem KexServer.Named.run {env : KexEnv} {events : List KexEvent}
    {final : KexServer}
    (run : Run (fun server event next => next = KexServer.step env server event)
      .new events final) : final.Named := by
  refine run.preserves KexServer.Named ?_ ⟨?_, ?_⟩
  · rintro server event next named rfl
    exact named.step event
  · exact fun record member => (SortedRows.not_mem_empty _ member).elim
  · exact fun task member => by cases member

/-- The snapshot of a reachable registry can be loaded if and only if the
registry is within the reader's caps. -/
theorem kex_registry_reloads_iff {env : KexEnv} {events : List KexEvent}
    {final : KexServer}
    (run : Run (fun server event next => next = KexServer.step env server event)
      .new events final) {json : JsonParser} (listing : KexListing)
    (readBack : json.parse (savedKex listing final.registry) =
      some (snapshotKex listing final.registry).writeBytes)
    (before : KexRegistry) :
    loadKex json (some (savedKex listing final.registry)) before =
        .ok final.registry ↔ KexWithinCaps final.registry :=
  loadKex_savedKex_iff (KexServer.Named.run run).registry listing readBack
    before

/-- Tables in the order of their keys. -/
private def sortedListing : KexListing := ⟨.sorted _, .sorted _⟩

/-- A parser that reads the text of one registry. -/
private def kexParserOf (registry : KexRegistry) : JsonParser where
  parse content :=
    if content = savedKex sortedListing registry then
      some (snapshotKex sortedListing registry).writeBytes
    else none
  parse_empty := by
    apply if_neg
    rw [savedKex, KexRegistrySnapshot.writeBytes, Json.render]
    exact (List.cons_ne_nil _ _).symm

private theorem kexParserOf_parse (registry : KexRegistry) :
    (kexParserOf registry).parse (savedKex sortedListing registry) =
      some (snapshotKex sortedListing registry).writeBytes := by
  unfold kexParserOf
  exact if_pos rfl

/-- Submits of the first participants to one wallet. -/
private def submitsOf (count : ℕ) : List KexEvent :=
  (List.range count).map fun number => .request (.submit
    ⟨[119], [99], [Fin.ofNat 256 (number + 1)], [105], 1, 2, 8, 0, []⟩
    ⟨10000, .sorted _⟩ true)

private def serverAfter (events : List KexEvent) : KexServer :=
  events.foldl (KexServer.step ⟨⟨[], [], []⟩, fun _ => true⟩) .new

private theorem serverAfter_run (events : List KexEvent) :
    Run (fun server event next => next = KexServer.step
      ⟨⟨[], [], []⟩, fun _ => true⟩ server event) .new events
      (serverAfter events) := by
  unfold serverAfter
  generalize KexServer.new = start
  induction events generalizing start with
  | nil => exact .nil _
  | cons event events induction => exact .cons rfl (induction _)

/-- Two participants of one wallet. -/
theorem kex_registry_reloads_two :
    loadKex (kexParserOf (serverAfter (submitsOf 2)).registry)
        (some (savedKex sortedListing (serverAfter (submitsOf 2)).registry))
        .empty = .ok (serverAfter (submitsOf 2)).registry ↔
      KexWithinCaps (serverAfter (submitsOf 2)).registry :=
  kex_registry_reloads_iff (serverAfter_run _) sortedListing
    (kexParserOf_parse _) _

/-- Nine participants submit to one wallet, and its registry is not loaded. -/
theorem nine_participants_not_reloaded :
    ¬ ∀ (env : KexEnv) (events : List KexEvent) (final : KexServer)
      (json : JsonParser) (listing : KexListing) (before : KexRegistry),
      Run (fun server event next => next = KexServer.step env server event)
        .new events final →
      json.parse (savedKex listing final.registry) =
        some (snapshotKex listing final.registry).writeBytes →
      loadKex json (some (savedKex listing final.registry)) before =
        .ok final.registry := by
  intro always
  have run := serverAfter_run (submitsOf 9)
  have readBack := kexParserOf_parse (serverAfter (submitsOf 9)).registry
  have loaded := always _ _ _ _ sortedListing .empty run readBack
  have within := (loadKex_savedKex_iff (KexServer.Named.run run).registry
    sortedListing readBack .empty).mp loaded
  have few : ∀ record ∈ (serverAfter (submitsOf 9)).registry.rows,
      record.peers.rows.length ≤ 8 := within.peers
  exact absurd few (by decide)

end XfoLws.Rest
