import XfoLws.Scanner.ConnectionRuns

/-!
# A scanner and the main server

The two ends of a TCP connection: each reads what the socket of the other one
took, in order.  Whatever the order of the steps, the commands that an end
handles are the first ones the other end queued, and all of them are handled
unless an end is cleaned up.
-/

namespace XfoLws.Scanner

open Wire

/-! ## The two ends -/

variable {σ τ : Type}

structure Link (σ τ : Type) where
  client : Connection σ
  server : Connection τ

namespace Link

inductive Event where
  | client (event : ConnectionEvent)
  | server (event : ConnectionEvent)

/-- What an end received is the start of what the other socket took. -/
inductive Step (clientCommands : Callables σ) (serverCommands : Callables τ) :
    Link σ τ → Event → Link σ τ → Prop where
  | client {link : Link σ τ} {event : ConnectionEvent} {next : Connection σ}
      (step : Connection.Step clientCommands link.client event next)
      (stream : next.received <+: link.server.sent) :
      Step clientCommands serverCommands link (.client event)
        { link with client := next }
  | server {link : Link σ τ} {event : ConnectionEvent} {next : Connection τ}
      (step : Connection.Step serverCommands link.server event next)
      (stream : next.received <+: link.client.sent) :
      Step clientCommands serverCommands link (.server event)
        { link with server := next }

def start (client : σ) (server : τ) : Link σ τ :=
  ⟨.start client, .start server⟩

end Link

/-! ## One direction -/

/-- The commands from a sender to a receiver that started with `owner`. -/
structure Direction (commands : Callables τ) (owner : τ)
    (sender : Connection σ) (receiver : Connection τ) : Prop where
  writes : sender.WriteSound
  framed : ∀ message ∈ sender.queued, framing.Message message
  reads : Connection.ReadSound commands owner receiver
  stream : receiver.received <+: sender.sent

namespace Direction

variable {commands : Callables τ} {others : Callables σ} {owner : τ}
  {sender : Connection σ} {receiver : Connection τ}

theorem received_prefix (direction : Direction commands owner sender receiver) :
    receiver.received <+: sender.queued.flatten :=
  direction.stream.trans (Writing.sent_prefix direction.writes)

theorem handled_prefix (direction : Direction commands owner sender receiver) :
    receiver.handled <+: sender.queued := by
  obtain ⟨pending, received, -⟩ := direction.reads.pending
  apply framing.prefixFree.prefix_of_flatten direction.reads.framed
    direction.framed
  have handled : receiver.handled.flatten <+: receiver.received :=
    ⟨pending, received.symm⟩
  exact handled.trans direction.received_prefix

theorem sends (direction : Direction commands owner sender receiver)
    {event : ConnectionEvent} {next : Connection σ}
    (step : Connection.Step others sender event next) :
    Direction commands owner next receiver where
  writes := step.writeSound direction.writes
  framed := step.queued_framed direction.framed
  reads := direction.reads
  stream := direction.stream.trans step.onward.sent

theorem receives (direction : Direction commands owner sender receiver)
    {event : ConnectionEvent} {next : Connection τ}
    (step : Connection.Step commands receiver event next)
    (stream : next.received <+: sender.sent) :
    Direction commands owner sender next where
  writes := direction.writes
  framed := direction.framed
  reads := step.readSound direction.reads
  stream := stream

end Direction

namespace Link

variable {clientCommands : Callables σ} {serverCommands : Callables τ}
  {client : σ} {server : τ} {link next : Link σ τ}

/-- Both directions are sound. -/
structure Sound (clientCommands : Callables σ) (serverCommands : Callables τ)
    (client : σ) (server : τ) (link : Link σ τ) : Prop where
  toServer : Direction serverCommands server link.client link.server
  toClient : Direction clientCommands client link.server link.client

theorem start_sound (client : σ) (server : τ) :
    Sound clientCommands serverCommands client server (start client server) := by
  have clientSound := @Connection.run_sound _ clientCommands client _ _ (.nil _)
  have serverSound := @Connection.run_sound _ serverCommands server _ _ (.nil _)
  constructor
  · exact ⟨clientSound.1, List.forall_mem_nil _, serverSound.2,
      List.prefix_rfl⟩
  · exact ⟨serverSound.1, List.forall_mem_nil _, clientSound.2,
      List.prefix_rfl⟩

theorem Step.sound {event : Event}
    (step : Step clientCommands serverCommands link event next)
    (sound : Sound clientCommands serverCommands client server link) :
    Sound clientCommands serverCommands client server next := by
  cases step with
  | client step stream =>
      exact ⟨sound.toServer.sends step, sound.toClient.receives step stream⟩
  | server step stream =>
      exact ⟨sound.toServer.receives step stream, sound.toClient.sends step⟩

theorem run_sound {events : List Event}
    (run : Run (Step clientCommands serverCommands) (start client server)
      events link) : Sound clientCommands serverCommands client server link :=
  run.preserves _ (fun _ _ _ sound step => step.sound sound)
    (start_sound client server)

end Link

/-! ## Progress -/

/-- The socket takes bytes, or an operation ends well and its handler runs. -/
def ConnectionEvent.writes : ConnectionEvent → Bool
  | .transmit _ | .writeEnds .done | .wrote => true
  | _ => false

def ConnectionEvent.reads : ConnectionEvent → Bool
  | .readEnds .done _ | .readOn => true
  | _ => false

/-- How far the message that is read has come. -/
def ReadOp.stage : Option ReadOp → ℕ
  | some ⟨.header, _, some .done⟩ => 1
  | some ⟨.body, _, some .done⟩ => 3
  | some ⟨.body, _, _⟩ => 2
  | _ => 0

namespace Connection

variable {commands : Callables σ} {self next : Connection σ}
  {event : ConnectionEvent}

/-- Steps until everything that was queued is written. -/
def toWrite (self : Connection σ) : ℕ :=
  self.queued.flatten.length - self.sent.length +
    (2 * self.writeBufs.length -
      self.writes.countP fun op => op.ended = some .done)

/-- Steps until the queue of the other end is handled. -/
def toRead (self : Connection σ) (queued : List Bytes) : ℕ :=
  4 * (queued.length - self.handled.length) - ReadOp.stage self.reading

theorem toWrite_transmit {left : Bytes} {count : ℕ}
    (one : self.writes = [⟨left, none⟩]) (sound : self.WriteSound)
    (some : 0 < count) (within : count ≤ left.length) :
    toWrite
        { self with
          sent := self.sent ++ left.take count
          writes := [⟨left.drop count, none⟩] } < self.toWrite := by
  unfold WriteSound at sound
  rw [one] at sound
  unfold toWrite
  generalize self.writeBufs = writeBufs at sound ⊢
  cases sound with
  | busy rest complete closed parts few =>
      have size := congrArg List.length parts
      simp only [List.length_append] at size
      simp only [one, List.length_append, List.length_take, List.countP_cons,
        List.countP_nil, reduceCtorEq, decide_false, Bool.false_eq_true,
        if_false]
      omega

theorem toWrite_writeLoop (none : self.writes = []) :
    self.writeLoop.toWrite = self.toWrite := by
  unfold writeLoop toWrite
  split
  · rfl
  · simp [none]

theorem toWrite_wrote {left : Bytes} {ending : Ending}
    (one : self.writes = [⟨left, some ending⟩]) (sound : self.WriteSound)
    (connected : self.cleanup = false) :
    (Connection.wrote { self with writes := [] } ending).cleanup = true ∨
      (Connection.wrote { self with writes := [] } ending).toWrite <
        self.toWrite := by
  unfold WriteSound at sound
  rw [one] at sound
  generalize first : self.writeBufs = writeBufs at sound
  cases sound with
  | busy rest complete closed parts few =>
      cases ending with
      | failed => exact .inl rfl
      | aborted => exact absurd (closed rfl) (by simp [connected])
      | done =>
          right
          unfold wrote
          dsimp only
          rw [if_neg (by simp [connected]), toWrite_writeLoop rfl]
          simp [toWrite, one, first]
          omega

theorem Step.toWrite_le (step : Step commands self event next)
    (sound : self.WriteSound) (connected : self.cleanup = false)
    (keeps : event.Keeps) :
    next.cleanup = true ∨
      next.toWrite + (if event.writes then 1 else 0) ≤ self.toWrite := by
  cases step with
  | writeCommand => exact keeps.elim
  | stop => exact .inl rfl
  | transmit pending connected some within =>
      have single := sound
      unfold WriteSound at single
      rw [pending] at single
      obtain ⟨rfl, rfl⟩ := Writing.single single
      exact .inr (toWrite_transmit pending sound some within)
  | @writeEnds before after left ending pending possible =>
      have single := sound
      unfold WriteSound at single
      rw [pending] at single
      obtain ⟨rfl, rfl⟩ := Writing.single single
      right
      generalize first : self.writeBufs = writeBufs at single
      cases single with
      | busy =>
          cases ending with
          | done =>
              simp only [toWrite, List.length_cons, List.nil_append, decide_true,
                List.countP_cons_of_pos, List.countP_nil, Nat.zero_add,
                ConnectionEvent.writes, reduceIte, first, pending, decide_false,
                reduceCtorEq, Bool.false_eq_true, not_false_eq_true,
                List.countP_cons_of_neg]
              omega
          | failed => simp [toWrite, pending, first, ConnectionEvent.writes]
          | aborted => simp [toWrite, pending, first, ConnectionEvent.writes]
  | wrote pending =>
      have single := sound
      unfold WriteSound at single
      rw [pending] at single
      obtain ⟨rfl, rfl⟩ := Writing.single single
      exact toWrite_wrote pending sound connected
  | expire => exact .inr le_rfl
  | timeout => exact .inl rfl
  | readDone => exact .inr le_rfl
  | @readFails _ _ ending => cases ending <;> exact .inr le_rfl
  | @readOn point _ ending _ =>
      obtain ⟨_, _, _, _, _, _, _, -, -, same⟩ :=
        readOn_eq commands { self with reading := none } point ending
      rw [same]
      exact .inr le_rfl

/-- A pending write can go on, or end, or its handler can run. -/
theorem write_advances {op : WriteOp} (one : self.writes = [op])
    (connected : self.cleanup = false) :
    ∃ event next, event.writes = true ∧ Step commands self event next ∧
      next.received = self.received := by
  obtain ⟨left, ended⟩ := op
  cases ended with
  | some ending =>
      refine ⟨.wrote, _, rfl, .wrote_one one, ?_⟩
      obtain ⟨_, _, _, _, -, same⟩ := wrote_eq { self with writes := [] } ending
      rw [same]
  | none =>
      by_cases empty : left = []
      · exact ⟨.writeEnds .done, _, rfl, .writeEnds_one one empty, rfl⟩
      · have some : 0 < left.length := List.length_pos_of_ne_nil empty
        exact ⟨.transmit 1, _, rfl,
          .transmit_one 1 one connected Nat.one_pos some, rfl⟩

end Connection

namespace Direction

variable {commands : Callables τ} {others : Callables σ} {owner : τ}
  {sender : Connection σ} {receiver next : Connection τ}
  {event : ConnectionEvent}

theorem unhandled (direction : Direction commands owner sender receiver)
    {pending : Bytes}
    (received : receiver.received = receiver.handled.flatten ++ pending)
    (some : pending ≠ []) :
    receiver.handled.length < sender.queued.length := by
  have handled := direction.handled_prefix
  apply Nat.lt_of_le_of_ne handled.length_le
  intro same
  have size := direction.received_prefix.length_le
  rw [received, handled.eq_of_length same, List.length_append] at size
  exact some (List.length_eq_zero_iff.mp (by omega))

theorem readOn_nearer (direction : Direction commands owner sender receiver)
    {point : ReadPoint} {size : ℕ} {ending : Ending}
    (pending : receiver.reading = some ⟨point, size, some ending⟩)
    (connected : receiver.cleanup = false) :
    (Connection.readOn commands { receiver with reading := none } point
        ending).cleanup = true ∨
      (Connection.readOn commands { receiver with reading := none } point
        ending).toRead sender.queued < receiver.toRead sender.queued := by
  obtain ⟨arrived, received, reading⟩ := direction.reads.pending
  obtain ⟨reading, -⟩ := reading connected
  have nearer := direction.unhandled received
  rw [pending] at reading
  cases ending with
  | failed => exact .inl rfl
  | aborted => cases reading <;> simp_all
  | done =>
      unfold Connection.readOn
      dsimp only
      rw [if_neg (by simp [connected])]
      generalize same : receiver.readBuf = readBuf at reading
      generalize receiver.next = header at reading
      cases reading with
      | header running => simp at running
      | body whole running => simp at running
      | headerRead size =>
          have several := nearer (by
            intro none
            simp [none, headerSize] at size)
          right
          simp only [Connection.readBody, Connection.toRead, ReadOp.stage,
            pending]
          omega
      | bodyRead whole size =>
          have several := nearer (by simp [Header.bytes])
          dsimp only
          unfold Connection.callCommand
          split
          · exact .inl rfl
          · dsimp only
            split
            · right
              simp only [Connection.readHeader, Connection.toRead,
                ReadOp.stage, pending, List.length_append,
                List.length_singleton]
              omega
            · exact .inl rfl

theorem readDone_nearer {point : ReadPoint} {bytes : Bytes}
    (direction : Direction commands owner sender receiver)
    (pending : receiver.reading = some ⟨point, bytes.length, none⟩)
    (connected : receiver.cleanup = false)
    (stream : receiver.received ++ bytes <+: sender.sent) :
    Connection.toRead
        { receiver with
          readBuf := bytes
          received := receiver.received ++ bytes
          reading := some ⟨point, bytes.length, some .done⟩ } sender.queued <
      receiver.toRead sender.queued := by
  have after := direction.receives (.readDone pending connected) stream
  obtain ⟨arrived, received, reading⟩ := after.reads.pending
  obtain ⟨reading, -⟩ := reading connected
  have nearer := after.unhandled received
  dsimp only at reading nearer
  unfold Connection.toRead
  rw [pending]
  generalize bytes.length = count at reading ⊢
  generalize receiver.next = header at reading
  cases reading with
  | headerRead size =>
      have several := nearer (by
        intro none
        simp [none, headerSize] at size)
      simp only [ReadOp.stage]
      omega
  | bodyRead whole size =>
      have several := nearer (by simp [Header.bytes])
      simp only [ReadOp.stage]
      omega
  | header running => simp at running
  | body whole running => simp at running

theorem toRead_le (direction : Direction commands owner sender receiver)
    (step : Connection.Step commands receiver event next)
    (stream : next.received <+: sender.sent)
    (connected : receiver.cleanup = false) :
    next.cleanup = true ∨
      next.toRead sender.queued + (if event.reads then 1 else 0) ≤
        receiver.toRead sender.queued := by
  cases step with
  | writeCommand id sink =>
      unfold Connection.writeCommand
      split
      · exact .inl rfl
      · rename_i message _
        obtain ⟨_, _, _, -, same⟩ := Connection.queueSlice_eq receiver message
        rw [same]
        exact .inr le_rfl
  | stop => exact .inl rfl
  | transmit => exact .inr le_rfl
  | @writeEnds _ _ _ ending => cases ending <;> exact .inr le_rfl
  | @wrote before others _ ending _ =>
      obtain ⟨_, _, _, _, -, same⟩ :=
        Connection.wrote_eq { receiver with writes := before ++ others } ending
      rw [same]
      exact .inr le_rfl
  | expire => exact .inr le_rfl
  | timeout => exact .inl rfl
  | readDone pending _ =>
      exact .inr (direction.readDone_nearer pending connected stream)
  | @readFails point _ ending pending possible =>
      right
      cases ending with
      | done => exact possible.elim
      | failed =>
          cases point <;>
            simp [Connection.toRead, pending, ReadOp.stage,
              ConnectionEvent.reads]
      | aborted =>
          cases point <;>
            simp [Connection.toRead, pending, ReadOp.stage,
              ConnectionEvent.reads]
  | readOn pending => exact direction.readOn_nearer pending connected

theorem nearer (direction : Direction commands owner sender receiver)
    (writes : receiver.WriteSound)
    (step : Connection.Step commands receiver event next)
    (stream : next.received <+: sender.sent)
    (connected : receiver.cleanup = false) (keeps : event.Keeps) :
    next.cleanup = true ∨
      next.toWrite + next.toRead sender.queued +
          (if event.writes || event.reads then 1 else 0) ≤
        receiver.toWrite + receiver.toRead sender.queued := by
  rcases step.toWrite_le writes connected keeps with ended | first
  · exact .inl ended
  rcases direction.toRead_le step stream connected with ended | second
  · exact .inl ended
  right
  have either : (if event.writes || event.reads then 1 else 0) ≤
      (if event.writes then 1 else 0) + (if event.reads then 1 else 0) := by
    cases event.writes <;> cases event.reads <;> decide
  omega

/-- Everything that was queued is on its way, so the pending read can end. -/
theorem read_advances (direction : Direction commands owner sender receiver)
    (connected : receiver.cleanup = false)
    (behind : receiver.handled ≠ sender.queued)
    (all : sender.sent = sender.queued.flatten) :
    ∃ event next, event.reads = true ∧
      Connection.Step commands receiver event next ∧
        next.received <+: sender.sent := by
  obtain ⟨arrived, received, reading⟩ := direction.reads.pending
  obtain ⟨reading, -⟩ := reading connected
  obtain ⟨rest, queued⟩ := direction.handled_prefix
  cases rest with
  | nil => exact absurd (by simpa using queued) behind
  | cons message rest =>
      have whole : framing.Message message :=
        direction.framed message (by simp [← queued])
      have size : message.length = headerSize +
          (Header.ofBytes (message.take headerSize)).length := whole
      have stream : sender.sent = receiver.handled.flatten ++
          (message ++ rest.flatten) := by
        rw [all, ← queued]
        simp
      have ended : ∀ {point size ending},
          receiver.reading = some ⟨point, size, some ending⟩ →
          ∃ event next, event.reads = true ∧
            Connection.Step commands receiver event next ∧
              next.received <+: sender.sent := by
        intro point size ending pending
        refine ⟨.readOn, _, rfl, .readOn pending, ?_⟩
        obtain ⟨_, _, _, _, _, _, _, -, -, same⟩ := Connection.readOn_eq
          commands { receiver with reading := none } point ending
        rw [same]
        exact direction.stream
      have running : ∀ {point bytes},
          receiver.reading = some ⟨point, bytes.length, none⟩ →
          receiver.received ++ bytes <+: sender.sent →
          ∃ event next, event.reads = true ∧
            Connection.Step commands receiver event next ∧
              next.received <+: sender.sent := fun pending arrives =>
        ⟨.readEnds .done _, _, rfl, .readDone pending connected, arrives⟩
      generalize pending : receiver.reading = op at reading
      generalize receiver.next = header at reading
      cases reading with
      | @header endedWith _ _ _ =>
          cases endedWith with
          | some ending => exact ended pending
          | none =>
              have length : (message.take headerSize).length = headerSize := by
                rw [List.length_take, size]
                omega
              apply @running .header (message.take headerSize)
              · rw [length, pending]
              · rw [received, List.append_nil, stream,
                  List.prefix_append_right_inj]
                exact (List.take_prefix _ _).trans (List.prefix_append _ _)
      | headerRead => exact ended pending
      | bodyRead => exact ended pending
      | @body endedWith header _ told _ =>
          cases endedWith with
          | some ending => exact ended pending
          | none =>
              have start : header.bytes <+: message ++ rest.flatten := by
                have arrives := direction.stream
                rwa [received, stream, List.prefix_append_right_inj] at arrives
              have same : message.take headerSize = header.bytes := by
                have first := List.prefix_iff_eq_take.mp start
                rw [Header.length_bytes,
                  List.take_append_of_le_length (by omega)] at first
                exact first.symm
              apply @running .body (message.drop headerSize)
              · rw [pending, List.length_drop, size, same, told]
                simp
              · rw [received, List.append_assoc, stream, ← same,
                  List.take_append_drop, List.prefix_append_right_inj]
                exact List.prefix_append _ _

/-- As long as a command was not handled, an end can go on. -/
theorem progress (direction : Direction commands owner sender receiver)
    (senderOpen : sender.cleanup = false)
    (receiverOpen : receiver.cleanup = false)
    (behind : receiver.handled ≠ sender.queued) :
    (∃ event next, event.writes = true ∧
      Connection.Step others sender event next ∧
        next.received = sender.received) ∨
    ∃ event next, event.reads = true ∧
      Connection.Step commands receiver event next ∧
        next.received <+: sender.sent := by
  have writes := direction.writes
  unfold Connection.WriteSound at writes
  generalize pending : sender.writes = ops at writes
  generalize sender.writeBufs = writeBufs at writes
  cases writes with
  | idle _ empty =>
      exact .inr (direction.read_advances receiverOpen behind
        (empty senderOpen).2)
  | busy => exact .inl (Connection.write_advances pending senderOpen)

end Direction

namespace Link

variable {clientCommands : Callables σ} {serverCommands : Callables τ}
  {client : σ} {server : τ} {link next : Link σ τ}

def Event.event : Event → ConnectionEvent
  | .client event | .server event => event

/-- An operation goes on, or ends well, or its handler runs. -/
def Event.advances (event : Event) : Bool :=
  event.event.writes || event.event.reads

def Open (link : Link σ τ) : Prop :=
  link.client.cleanup = false ∧ link.server.cleanup = false

/-- Every command that was queued is handled, or an end was cleaned up. -/
def Settled (link : Link σ τ) : Prop :=
  (link.server.handled = link.client.queued ∧
      link.client.handled = link.server.queued) ∨ ¬ link.Open

/-- Steps until everything is handled. -/
def distance (link : Link σ τ) : ℕ :=
  link.client.toWrite + link.client.toRead link.server.queued +
    (link.server.toWrite + link.server.toRead link.client.queued)

theorem Step.still_open {event : Event}
    (step : Step clientCommands serverCommands link event next)
    (isOpen : next.Open) : link.Open := by
  cases step with
  | client step stream => exact ⟨step.onward.still_open isOpen.1, isOpen.2⟩
  | server step stream => exact ⟨isOpen.1, step.onward.still_open isOpen.2⟩

theorem Step.distance_le {event : Event}
    (step : Step clientCommands serverCommands link event next)
    (sound : Sound clientCommands serverCommands client server link)
    (isOpen : link.Open) (keeps : event.event.Keeps) :
    ¬ next.Open ∨
      next.distance + (if event.advances then 1 else 0) ≤ link.distance := by
  cases step with
  | @client event _ step stream =>
      have queued := step.queued_same keeps
      rcases sound.toClient.nearer sound.toServer.writes step stream isOpen.1
        keeps with ended | nearer
      · exact .inl fun still => absurd (ended.symm.trans still.1) (by simp)
      · right
        have advances : (if Event.advances (.client event) then 1 else 0) =
            (if event.writes || event.reads then 1 else 0) := rfl
        simp only [distance, queued, advances]
        omega
  | @server event _ step stream =>
      have queued := step.queued_same keeps
      rcases sound.toServer.nearer sound.toClient.writes step stream isOpen.2
        keeps with ended | nearer
      · exact .inl fun still => absurd (ended.symm.trans still.2) (by simp)
      · right
        have advances : (if Event.advances (.server event) then 1 else 0) =
            (if event.writes || event.reads then 1 else 0) := rfl
        simp only [distance, queued, advances]
        omega

/-- Until everything is settled, some operation can go on. -/
theorem progress (sound : Sound clientCommands serverCommands client server link)
    (unsettled : ¬ link.Settled) :
    ∃ event next, event.advances = true ∧
      Step clientCommands serverCommands link event next := by
  have isOpen : link.Open := by
    by_contra closed
    exact unsettled (.inr closed)
  obtain ⟨clientOpen, serverOpen⟩ := isOpen
  have clientStep : ∀ {event next},
      Connection.Step clientCommands link.client event next →
      next.received = link.client.received →
      Step clientCommands serverCommands link (.client event)
        { link with client := next } := fun step same =>
    .client step (same ▸ sound.toClient.stream)
  have serverStep : ∀ {event next},
      Connection.Step serverCommands link.server event next →
      next.received = link.server.received →
      Step clientCommands serverCommands link (.server event)
        { link with server := next } := fun step same =>
    .server step (same ▸ sound.toServer.stream)
  by_cases first : link.server.handled = link.client.queued
  · by_cases second : link.client.handled = link.server.queued
    · exact absurd (.inl ⟨first, second⟩) unsettled
    · rcases @Direction.progress _ _ _ serverCommands _ _ _ sound.toClient
        serverOpen clientOpen second with
        ⟨event, after, writes, step, same⟩ | ⟨event, after, reads, step, stream⟩
      · exact ⟨_, _, by simp [Event.advances, Event.event, writes],
          serverStep step same⟩
      · exact ⟨_, _, by simp [Event.advances, Event.event, reads],
          .client step stream⟩
  · rcases @Direction.progress _ _ _ clientCommands _ _ _ sound.toServer
      clientOpen serverOpen first with
      ⟨event, after, writes, step, same⟩ | ⟨event, after, reads, step, stream⟩
    · exact ⟨_, _, by simp [Event.advances, Event.event, writes],
        clientStep step same⟩
    · exact ⟨_, _, by simp [Event.advances, Event.event, reads],
        .server step stream⟩

theorem distance_pos
    (sound : Sound clientCommands serverCommands client server link)
    (unsettled : ¬ link.Settled) : 0 < link.distance := by
  have behind : ∀ {handled queued : List Bytes}, handled <+: queued →
      handled ≠ queued → handled.length < queued.length := fun start different =>
    Nat.lt_of_le_of_ne start.length_le fun same =>
      different (start.eq_of_length same)
  have stage : ∀ op : Option ReadOp, ReadOp.stage op ≤ 3 := by
    intro op
    unfold ReadOp.stage
    split <;> omega
  have atServer := stage link.server.reading
  have atClient := stage link.client.reading
  by_cases first : link.server.handled = link.client.queued
  · by_cases second : link.client.handled = link.server.queued
    · exact absurd (.inl ⟨first, second⟩) unsettled
    · have less := behind sound.toClient.handled_prefix second
      simp only [distance, Connection.toRead]
      omega
  · have less := behind sound.toServer.handled_prefix first
    simp only [distance, Connection.toRead]
    omega

/-! ## One command -/

theorem client_run {self other : Connection σ} {events : List ConnectionEvent}
    {stream : Bytes} (ends : Connection τ) (taken : stream <+: ends.sent)
    (run : Run (fun self event next =>
      Connection.Step clientCommands self event next ∧
        next.received <+: stream) self events other) :
    Run (Step clientCommands serverCommands) ⟨self, ends⟩
      (events.map .client) ⟨other, ends⟩ := by
  induction run with
  | nil => exact .nil _
  | cons stepped _rest induction =>
      exact .cons (.client stepped.1 (stepped.2.trans taken)) induction

theorem server_run {self other : Connection τ} {events : List ConnectionEvent}
    {stream : Bytes} (ends : Connection σ) (taken : stream <+: ends.sent)
    (run : Run (fun self event next =>
      Connection.Step serverCommands self event next ∧
        next.received <+: stream) self events other) :
    Run (Step clientCommands serverCommands) ⟨ends, self⟩
      (events.map .server) ⟨ends, other⟩ := by
  induction run with
  | nil => exact .nil _
  | cons stepped _rest induction =>
      exact .cons (.server stepped.1 (stepped.2.trans taken)) induction

theorem reaches_client {id : Byte} {sink message : Bytes}
    (completed : completeCommand id sink = some message)
    (accepted : (serve clientCommands client message).2 = true) :
    ∃ events link, Run (Step clientCommands serverCommands)
        (start client server) events link ∧
      link.server.queued = [message] ∧
      link.client.owner = (serve clientCommands client message).1 := by
  obtain ⟨sender, sends, queued, sent⟩ :=
    @Connection.run_send _ serverCommands server _ _ _ completed
  obtain ⟨receiver, receives, -, owner, received⟩ :=
    Connection.run_receive Connection.waits_start
      (completeCommand_parts completed).1 accepted
  have taken : receiver.received <+: sender.sent := by
    rw [received, sent]
    exact List.prefix_rfl
  have first := @server_run _ _ clientCommands _ _ _ _ _ (.start client)
    List.nil_prefix sends
  have second := @client_run _ _ _ serverCommands _ _ _ _ sender taken
    (Connection.run_received receives)
  exact ⟨_, _, first.append second, queued, owner⟩

theorem reaches_server {id : Byte} {sink message : Bytes}
    (completed : completeCommand id sink = some message)
    (accepted : (serve serverCommands server message).2 = true) :
    ∃ events link, Run (Step clientCommands serverCommands)
        (start client server) events link ∧
      link.client.queued = [message] ∧
      link.server.owner = (serve serverCommands server message).1 := by
  obtain ⟨sender, sends, queued, sent⟩ :=
    @Connection.run_send _ clientCommands client _ _ _ completed
  obtain ⟨receiver, receives, -, owner, received⟩ :=
    Connection.run_receive Connection.waits_start
      (completeCommand_parts completed).1 accepted
  have taken : receiver.received <+: sender.sent := by
    rw [received, sent]
    exact List.prefix_rfl
  have first := @client_run _ _ _ serverCommands _ _ _ _ (.start server)
    List.nil_prefix sends
  have second := @server_run _ _ clientCommands _ _ _ _ _ sender taken
    (Connection.run_received receives)
  exact ⟨_, _, first.append second, queued, owner⟩

/-! ## Every order of steps -/

/-- The main server notes its commands. -/
def noting : Callables (List ℕ) :=
  [fun noted _ => (noted ++ [0], true), fun noted _ => (noted ++ [1], true)]

/-- A scanner that queued two commands without a body. -/
def twoQueued : Link Unit (List ℕ) :=
  { start () [] with
    client := ((Connection.start ()).writeCommand 0
      (List.replicate headerSize 0)).writeCommand 1
        (List.replicate headerSize 0) }

/-- A command is written in pieces. -/
def onePiecewise : List Event :=
  List.replicate 6 (.client (.transmit 1)) ++
    [.client (.writeEnds .done), .client .wrote]

/-- A command without a body is read. -/
def oneRead (id : Byte) : List Event :=
  [.server (.readEnds .done [0, id, 0, 0, 0, 0]), .server .readOn,
    .server (.readEnds .done []), .server .readOn]

/-- The steps until both are handled. -/
def twoHandled : List Event :=
  onePiecewise ++ (oneRead 0 ++ (onePiecewise ++ oneRead 1))

private theorem twoQueued_run :
    Run (Step [] noting) (start () [])
      [.client (.writeCommand 0 (List.replicate headerSize 0)),
        .client (.writeCommand 1 (List.replicate headerSize 0))] twoQueued :=
  .cons (.client (.writeCommand 0 _) List.prefix_rfl)
    (.cons (.client (.writeCommand 1 _) List.prefix_rfl) (.nil _))

private theorem twoHandled_run : ∃ link,
    Run (fun link event next => event.event.Keeps ∧
      Step [] noting link event next) twoQueued twoHandled link ∧
      link.server.owner = [0, 1] ∧
      link.server.handled = [[0, 0, 0, 0, 0, 0], [0, 1, 0, 0, 0, 0]] := by
  refine ⟨?final, ?run, ?noted, ?handled⟩
  case run =>
    unfold twoHandled onePiecewise oneRead
    iterate 6
      apply Run.cons ⟨trivial, .client (.transmit_one 1 rfl rfl (by decide)
        (by decide)) List.nil_prefix⟩
    apply Run.cons ⟨trivial, .client (.writeEnds_one rfl rfl) List.nil_prefix⟩
    apply Run.cons ⟨trivial, .client (.wrote_one rfl) List.nil_prefix⟩
    apply Run.cons ⟨trivial, .server (.readDone rfl rfl) (by decide)⟩
    apply Run.cons ⟨trivial, .server (.readOn rfl) (by decide)⟩
    apply Run.cons ⟨trivial, .server (.readDone rfl rfl) (by decide)⟩
    apply Run.cons ⟨trivial, .server (.readOn rfl) (by decide)⟩
    iterate 6
      apply Run.cons ⟨trivial, .client (.transmit_one 1 rfl rfl (by decide)
        (by decide)) List.nil_prefix⟩
    apply Run.cons ⟨trivial, .client (.writeEnds_one rfl rfl) List.nil_prefix⟩
    apply Run.cons ⟨trivial, .client (.wrote_one rfl) List.nil_prefix⟩
    apply Run.cons ⟨trivial, .server (.readDone rfl rfl) (by decide)⟩
    apply Run.cons ⟨trivial, .server (.readOn rfl) (by decide)⟩
    apply Run.cons ⟨trivial, .server (.readDone rfl rfl) (by decide)⟩
    apply Run.cons ⟨trivial, .server (.readOn rfl) (by decide)⟩
    exact .nil _
  case noted => rfl
  case handled => rfl

/-- In every run, each end handles the commands of the other end in the order
in which they were queued, none twice and none left out, and stops at the
first one it rejects. -/
theorem commands_in_order {events : List Event}
    (run : Run (Step clientCommands serverCommands) (start client server)
      events link) :
    (link.server.handled <+: link.client.queued ∧
        link.server.owner = served serverCommands server link.server.handled ∧
        AllAccepted serverCommands server link.server.handled.dropLast) ∧
      link.client.handled <+: link.server.queued ∧
      link.client.owner = served clientCommands client link.client.handled ∧
      AllAccepted clientCommands client link.client.handled.dropLast := by
  have sound := run_sound run
  exact ⟨⟨sound.toServer.handled_prefix, sound.toServer.reads.replayed,
      sound.toServer.reads.accepted⟩, sound.toClient.handled_prefix,
    sound.toClient.reads.replayed, sound.toClient.reads.accepted⟩

/-- Both commands were handled, in the order in which they were queued. -/
theorem commands_in_order_once :
    ∃ link : Link Unit (List ℕ), link.server.owner = [0, 1] ∧
      link.server.handled = [[0, 0, 0, 0, 0, 0], [0, 1, 0, 0, 0, 0]] ∧
      link.server.handled <+: link.client.queued := by
  obtain ⟨link, run, noted, handled⟩ := twoHandled_run
  exact ⟨link, noted, handled, (commands_in_order (twoQueued_run.append
    (run.imp fun _ _ _ step => step.2))).1.1⟩

/-- From every state a run reaches, some operation can go on until all that
was queued is handled or an end is cleaned up.  While nothing more is queued
and no end is cleaned up, only as many of them go on as the distance says; and
after that many, in whatever order, all is handled. -/
theorem commands_drain {events : List Event}
    (run : Run (Step clientCommands serverCommands) (start client server)
      events link) :
    (¬ link.Settled → ∃ event next, event.advances = true ∧
      Step clientCommands serverCommands link event next) ∧
    ∀ (later : List Event) (final : Link σ τ),
      Run (fun link event next => event.event.Keeps ∧
        Step clientCommands serverCommands link event next) link later final →
      (final.Open → later.countP Event.advances ≤ link.distance) ∧
      (link.distance ≤ later.countP Event.advances → final.Settled) := by
  have sound := run_sound run
  refine ⟨progress sound, fun later final rest => ?_⟩
  have bounded : final.Open →
      final.distance + later.countP Event.advances ≤ link.distance := by
    intro isOpen
    refine (rest.count_le
      (fun link => Sound clientCommands serverCommands client server link)
      Open distance Event.advances ?_ ?_ ?_ sound isOpen).2
    · exact fun _ _ _ sound step => step.2.sound sound
    · exact fun _ _ _ step => step.2.still_open
    · intro link event next sound step isOpen
      exact (step.2.distance_le sound (step.2.still_open isOpen)
        step.1).resolve_left (not_not_intro isOpen)
  refine ⟨fun isOpen => (Nat.le_add_left _ _).trans (bounded isOpen), ?_⟩
  intro enough
  by_contra unsettled
  have finalSound := rest.preserves _
    (fun _ _ _ sound step => step.2.sound sound) sound
  have isOpen : final.Open := not_not.mp fun ended => unsettled (.inr ended)
  have within := bounded isOpen
  have positive := distance_pos finalSound unsettled
  omega

theorem commands_drain_once :
    ∃ link : Link Unit (List ℕ), link.server.owner = [0, 1] ∧ link.Settled ∧
      twoHandled.countP Event.advances = twoQueued.distance := by
  obtain ⟨link, run, noted, -⟩ := twoHandled_run
  exact ⟨link, noted,
    ((commands_drain twoQueued_run).2 _ _ run).2 (by decide), by decide⟩

end Link

end XfoLws.Scanner
