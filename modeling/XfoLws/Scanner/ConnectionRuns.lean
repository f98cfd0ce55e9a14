import XfoLws.Scanner.Connection
import XfoLws.Wire.OutputPayment

/-!
# Runs of a connection

What holds of a connection in every order of its steps: one write is pending
at most, and the socket takes the queued messages in order; every message that
arrived whole is handled once, by its command, until one is rejected.
-/

namespace XfoLws.Scanner

open Wire Msgpack

/-! ## What is written -/

/-- At most one write is pending, and it is the one of the first message; what
the socket took is the start of what was queued. -/
inductive Writing : List WriteOp → List Bytes → List Bytes → Bytes → Bool → Prop
    where
  | idle {writeBufs queued : List Bytes} {sent : Bytes} {cleanup : Bool}
      (started : sent <+: queued.flatten)
      (empty : cleanup = false → writeBufs = [] ∧ sent = queued.flatten) :
      Writing [] writeBufs queued sent cleanup
  | busy {op : WriteOp} {front : Bytes} {others queued : List Bytes}
      {sent : Bytes} {cleanup : Bool} (rest : op.left <:+ front)
      (complete : op.ended = some .done → op.left = [])
      (closed : op.ended = some .aborted → cleanup = true)
      (parts : sent ++ (op.left ++ others.flatten) = queued.flatten)
      (few : cleanup = false → (front :: others).length < maxWriteBuffers) :
      Writing [op] (front :: others) queued sent cleanup

theorem Writing.cleanedUp {writes : List WriteOp} {writeBufs queued : List Bytes}
    {sent : Bytes} {cleanup : Bool}
    (writing : Writing writes writeBufs queued sent cleanup) :
    Writing writes writeBufs queued sent true := by
  cases writing with
  | idle started _ => exact .idle started (by simp)
  | busy rest complete _ parts _ =>
      exact .busy rest complete (by simp) parts (by simp)

theorem Writing.sent_prefix {writes : List WriteOp}
    {writeBufs queued : List Bytes} {sent : Bytes} {cleanup : Bool}
    (writing : Writing writes writeBufs queued sent cleanup) :
    sent <+: queued.flatten := by
  cases writing with
  | idle started _ => exact started
  | busy _ _ _ parts _ => exact ⟨_, parts⟩

/-- The list around a pending write has nothing else in it. -/
theorem Writing.single {before after : List WriteOp} {op : WriteOp}
    {writeBufs queued : List Bytes} {sent : Bytes} {cleanup : Bool}
    (writing : Writing (before ++ op :: after) writeBufs queued sent cleanup) :
    before = [] ∧ after = [] := by
  generalize same : before ++ op :: after = writes at writing
  cases writing with
  | idle => simp at same
  | busy => simp_all [List.append_eq_singleton_iff]

/-- What is pending is the rest of the first buffer. -/
theorem Writing.front {writes : List WriteOp} {writeBufs queued : List Bytes}
    {sent : Bytes} {cleanup : Bool}
    (writing : Writing writes writeBufs queued sent cleanup) :
    writes.length ≤ 1 ∧ ∀ op ∈ writes, ∃ front others,
      writeBufs = front :: others ∧ op.left <:+ front := by
  cases writing with
  | idle => simp
  | busy rest => simpa using rest

theorem Writing.few {writes : List WriteOp} {writeBufs queued : List Bytes}
    {sent : Bytes} {cleanup : Bool}
    (writing : Writing writes writeBufs queued sent cleanup)
    (connected : cleanup = false) : writeBufs.length < maxWriteBuffers := by
  cases writing with
  | idle _ empty =>
      rw [(empty connected).1]
      simp [maxWriteBuffers]
  | busy _ _ _ _ few => exact few connected

/-- More is queued after the cleanup, or behind a pending write. -/
theorem Writing.longer {writes : List WriteOp} {writeBufs queued : List Bytes}
    {sent : Bytes} {cleanup : Bool} (message : Bytes)
    (writing : Writing writes writeBufs queued sent cleanup)
    (possible : cleanup = true ∨
      writes ≠ [] ∧ writeBufs.length + 1 < maxWriteBuffers) :
    Writing writes (writeBufs ++ [message]) (queued ++ [message]) sent
      cleanup := by
  have grown : (queued ++ [message]).flatten = queued.flatten ++ message := by
    simp
  cases writing with
  | idle started _ =>
      obtain rfl : cleanup = true := possible.resolve_right (by simp)
      apply Writing.idle
      · rw [grown]
        exact started.trans (List.prefix_append _ _)
      · simp
  | busy rest complete closed parts few =>
      apply Writing.busy rest complete closed
      · rw [grown, ← parts]
        simp
      · intro connected
        have below := (possible.resolve_left (by simp [connected])).2
        simpa using below

namespace Connection

variable {σ : Type} {commands : Callables σ} {self next : Connection σ}

/-- The write side of a connection. -/
def WriteSound (self : Connection σ) : Prop :=
  Writing self.writes self.writeBufs self.queued self.sent self.cleanup

theorem writeLoop_sound (none : self.writes = [])
    (parts : self.sent ++ self.writeBufs.flatten = self.queued.flatten)
    (few : self.writeBufs.length < maxWriteBuffers) :
    self.writeLoop.WriteSound := by
  unfold writeLoop WriteSound
  split
  · rename_i empty
    rw [empty, List.flatten_nil, List.append_nil] at parts
    rw [none, empty]
    exact .idle (parts ▸ List.prefix_rfl) fun _ => ⟨rfl, parts⟩
  · rename_i front others first
    simp only [none, List.nil_append, first]
    rw [first, List.flatten_cons] at parts
    apply Writing.busy List.suffix_rfl (by simp) (by simp) parts
    intro _
    rw [first] at few
    exact few

theorem queueSlice_sound (message : Bytes) (sound : self.WriteSound) :
    (self.queueSlice message).WriteSound := by
  unfold queueSlice
  dsimp only
  cases closed : self.cleanup with
  | true =>
      have later : Writing self.writes (self.writeBufs ++ [message])
          (self.queued ++ [message]) self.sent true :=
        Writing.longer message sound.cleanedUp (.inl rfl)
      split
      · rw [writeBuffers, if_pos rfl]
        exact later
      · split <;> exact later
  | false =>
      split
      · -- nothing is pending, so the new message is written at once
        rename_i empty
        rw [writeBuffers, if_neg (by simp)]
        have idle : self.writes = [] ∧ self.sent = self.queued.flatten := by
          unfold WriteSound at sound
          rw [empty, closed] at sound
          generalize self.writes = writes at sound ⊢
          cases sound with
          | idle _ all => exact ⟨rfl, (all rfl).2⟩
        apply writeLoop_sound
        · exact idle.1
        · simp [empty, idle.2]
        · simp [empty, maxWriteBuffers]
      · rename_i several
        have busy : self.writes ≠ [] := by
          intro none
          unfold WriteSound at sound
          rw [none, closed] at sound
          generalize self.writeBufs = writeBufs at sound several
          cases sound with
          | idle _ all => exact several (all rfl).1
        split
        · exact Writing.longer message sound.cleanedUp (.inl rfl)
        · rename_i below
          have few : self.writeBufs.length + 1 < maxWriteBuffers := by
            simpa using below
          exact closed ▸ Writing.longer message sound (.inr ⟨busy, few⟩)

theorem writeCommand_sound (id : Byte) (sink : Bytes)
    (sound : self.WriteSound) : (self.writeCommand id sink).WriteSound := by
  unfold writeCommand
  split
  · exact sound.cleanedUp
  · exact queueSlice_sound _ sound

theorem wrote_sound {left : Bytes} {ending : Ending}
    (one : self.writes = [⟨left, some ending⟩]) (sound : self.WriteSound) :
    (Connection.wrote { self with writes := [] } ending).WriteSound := by
  unfold WriteSound at sound
  rw [one] at sound
  generalize first : self.writeBufs = writeBufs at sound
  cases sound with
  | @busy _ front others _ _ _ rest complete closed parts few =>
      have started : self.sent <+: self.queued.flatten := ⟨_, parts⟩
      cases ending with
      | failed => exact .idle started (by simp [Connection.wrote, baseCleanup])
      | aborted =>
          exact .idle started fun connected =>
            absurd ((closed rfl).symm.trans connected) (by simp)
      | done =>
          unfold wrote
          dsimp only
          split
          · rename_i ended
            exact .idle started fun connected =>
              absurd (ended.symm.trans connected) (by simp)
          · rename_i connected
            have below := few (by simpa using connected)
            obtain rfl : left = [] := complete rfl
            apply writeLoop_sound
            · rfl
            · simpa using parts
            · simp only [List.tail_cons]
              exact Nat.lt_of_succ_lt below

theorem transmit_sound {left : Bytes} {count : ℕ}
    (one : self.writes = [⟨left, none⟩]) (sound : self.WriteSound) :
    Connection.WriteSound
      { self with
        sent := self.sent ++ left.take count
        writes := [⟨left.drop count, none⟩] } := by
  unfold WriteSound at sound ⊢
  rw [one] at sound
  dsimp only
  generalize self.writeBufs = writeBufs at sound ⊢
  cases sound with
  | busy rest complete closed parts few =>
      apply Writing.busy ((List.drop_suffix _ _).trans rest) (by simp)
        (by simp) _ few
      rw [← parts, List.append_assoc, ← List.append_assoc (left.take count),
        List.take_append_drop]

theorem writeEnds_sound {left : Bytes} {ending : Ending}
    (one : self.writes = [⟨left, none⟩])
    (possible : ending.Possible (self.cleanup = true) (left = []))
    (sound : self.WriteSound) :
    Connection.WriteSound
      { self with writes := [⟨left, some ending⟩] } := by
  unfold WriteSound at sound ⊢
  rw [one] at sound
  dsimp only
  generalize self.writeBufs = writeBufs at sound ⊢
  cases sound with
  | busy rest complete closed parts few =>
      apply @Writing.busy ⟨left, some ending⟩ _ _ _ _ _ rest _ _ parts few
      · rintro ⟨⟩
        exact possible
      · rintro ⟨⟩
        exact possible

theorem callCommand_writes (commands : Callables σ) (sound : self.WriteSound) :
    (callCommand commands self).WriteSound := by
  unfold callCommand
  split
  · exact sound.cleanedUp
  · dsimp only
    split
    · exact sound
    · exact sound.cleanedUp

theorem readOn_writes (point : ReadPoint) (ending : Ending)
    (sound : self.WriteSound) :
    (Connection.readOn commands self point ending).WriteSound := by
  cases ending with
  | failed => exact sound.cleanedUp
  | aborted => exact sound
  | done =>
      unfold readOn
      dsimp only
      split
      · exact sound
      · cases point with
        | header => exact sound
        | body => exact callCommand_writes commands sound

theorem Step.writeSound {event : ConnectionEvent}
    (step : Step commands self event next) (sound : self.WriteSound) :
    next.WriteSound := by
  cases step with
  | writeCommand id sink => exact writeCommand_sound id sink sound
  | stop => exact sound.cleanedUp
  | transmit pending connected some within =>
      unfold WriteSound at sound
      rw [pending] at sound
      obtain ⟨rfl, rfl⟩ := Writing.single sound
      exact transmit_sound pending (by rwa [WriteSound, pending])
  | writeEnds pending possible =>
      unfold WriteSound at sound
      rw [pending] at sound
      obtain ⟨rfl, rfl⟩ := Writing.single sound
      exact writeEnds_sound pending possible (by rwa [WriteSound, pending])
  | wrote pending =>
      unfold WriteSound at sound
      rw [pending] at sound
      obtain ⟨rfl, rfl⟩ := Writing.single sound
      exact wrote_sound pending (by rwa [WriteSound, pending])
  | expire => exact sound
  | timeout => exact sound.cleanedUp
  | readDone => exact sound
  | readFails => exact sound
  | readOn pending => exact readOn_writes _ _ sound

end Connection

/-! ## What is read -/

section Serving

variable {σ : Type} (commands : Callables σ)

/-- The callables go on after each of these messages. -/
def AllAccepted : σ → List Bytes → Prop
  | _, [] => True
  | owner, message :: messages =>
      (serve commands owner message).2 = true ∧
        AllAccepted (serve commands owner message).1 messages

/-- The owner after these messages. -/
def served (owner : σ) (messages : List Bytes) : σ :=
  messages.foldl (fun owner message => (serve commands owner message).1) owner

theorem allAccepted_append_singleton {owner : σ} {messages : List Bytes}
    {message : Bytes} :
    AllAccepted commands owner (messages ++ [message]) ↔
      AllAccepted commands owner messages ∧
        (serve commands (served commands owner messages) message).2 = true := by
  induction messages generalizing owner with
  | nil => simp [AllAccepted, served]
  | cons first messages induction =>
      simp only [List.cons_append, AllAccepted, induction, and_assoc, served,
        List.foldl_cons]

end Serving

theorem Header.bytes_ofBytes {bytes : Bytes}
    (size : bytes.length = headerSize) : (Header.ofBytes bytes).bytes = bytes := by
  match bytes, size with
  | version :: id :: length, size =>
      have four : length.reverse.length = 4 := by
        simpa [headerSize] using size
      simp only [Header.ofBytes, Header.bytes, toBytes_ofBytes four,
        List.reverse_reverse]

/-- What the pending read has taken behind the messages that were handled. -/
inductive Reading : Option ReadOp → Header → Bytes → Bytes → Prop where
  | header {ended : Option Ending} {next : Header} {readBuf : Bytes}
      (running : ended = none ∨ ended = some .failed) :
      Reading (some ⟨.header, headerSize, ended⟩) next readBuf []
  | headerRead {next : Header} {readBuf : Bytes}
      (size : readBuf.length = headerSize) :
      Reading (some ⟨.header, headerSize, some .done⟩) next readBuf readBuf
  | body {ended : Option Ending} {next : Header} {readBuf : Bytes}
      (whole : Header.ofBytes next.bytes = next)
      (running : ended = none ∨ ended = some .failed) :
      Reading (some ⟨.body, next.length, ended⟩) next readBuf next.bytes
  | bodyRead {next : Header} {readBuf : Bytes}
      (whole : Header.ofBytes next.bytes = next)
      (size : readBuf.length = next.length) :
      Reading (some ⟨.body, next.length, some .done⟩) next readBuf
        (next.bytes ++ readBuf)

namespace Connection

variable {σ : Type} {commands : Callables σ} {owner : σ}
  {self next : Connection σ}

/-- The read side of a connection that started with `owner`. -/
structure ReadSound (commands : Callables σ) (owner : σ)
    (connection : Connection σ) : Prop where
  framed : ∀ message ∈ connection.handled, framing.Message message
  replayed : connection.owner = served commands owner connection.handled
  accepted : AllAccepted commands owner connection.handled.dropLast
  pending : ∃ pending,
    connection.received = connection.handled.flatten ++ pending ∧
      (connection.cleanup = false →
        Reading connection.reading connection.next connection.readBuf
            pending ∧
          AllAccepted commands owner connection.handled)

theorem ReadSound.cleanedUp (sound : ReadSound commands owner self) :
    ReadSound commands owner self.baseCleanup := by
  obtain ⟨pending, received, -⟩ := sound.pending
  exact ⟨sound.framed, sound.replayed, sound.accepted, pending, received,
    by simp [baseCleanup]⟩

theorem writeLoop_reads (sound : ReadSound commands owner self) :
    ReadSound commands owner self.writeLoop := by
  unfold writeLoop
  split <;>
    exact ⟨sound.framed, sound.replayed, sound.accepted, sound.pending⟩

theorem queueSlice_reads (message : Bytes)
    (sound : ReadSound commands owner self) :
    ReadSound commands owner (self.queueSlice message) := by
  have queued : ReadSound commands owner
      { self with
        writeBufs := self.writeBufs ++ [message]
        queued := self.queued ++ [message] } :=
    ⟨sound.framed, sound.replayed, sound.accepted, sound.pending⟩
  unfold queueSlice
  dsimp only
  split
  · unfold writeBuffers
    split
    · exact queued
    · exact writeLoop_reads queued
  · split
    · exact queued.cleanedUp
    · exact queued

theorem wrote_reads (ending : Ending) (sound : ReadSound commands owner self) :
    ReadSound commands owner (Connection.wrote self ending) := by
  cases ending with
  | failed => exact sound.cleanedUp
  | aborted =>
      exact ⟨sound.framed, sound.replayed, sound.accepted, sound.pending⟩
  | done =>
      unfold wrote
      dsimp only
      split
      · exact sound
      · apply writeLoop_reads
        exact ⟨sound.framed, sound.replayed, sound.accepted, sound.pending⟩

/-- A whole message is read when its command is called. -/
theorem callCommand_reads (sound : ReadSound commands owner self.baseCleanup)
    (whole : Header.ofBytes self.next.bytes = self.next)
    (size : self.readBuf.length = self.next.length)
    (received : self.received =
      self.handled.flatten ++ (self.next.bytes ++ self.readBuf))
    (accepted : AllAccepted commands owner self.handled) :
    ReadSound commands owner (callCommand commands self) := by
  have header : (self.next.bytes ++ self.readBuf).take headerSize =
      self.next.bytes := List.take_left' (Header.length_bytes _)
  have rest : payload (self.next.bytes ++ self.readBuf) = self.readBuf :=
    List.drop_left' (Header.length_bytes _)
  unfold callCommand
  split
  · exact sound
  · rename_i command found
    have state : self.owner = served commands owner self.handled :=
      sound.replayed
    have outcome : serve commands self.owner
        (self.next.bytes ++ self.readBuf) =
          command self.owner self.readBuf := by
      simp only [serve, header, whole, found, rest]
    have framed : ∀ message ∈ self.handled ++
        [self.next.bytes ++ self.readBuf], framing.Message message := by
      intro message member
      rcases List.mem_append.mp member with earlier | last
      · exact sound.framed message earlier
      · obtain rfl := List.mem_singleton.mp last
        apply framing.message_append (Header.length_bytes _)
        rw [size]
        exact congrArg Header.length whole.symm
    have replayed : (command self.owner self.readBuf).1 = served commands owner
        (self.handled ++ [self.next.bytes ++ self.readBuf]) := by
      rw [served, List.foldl_append, List.foldl_cons, List.foldl_nil, ← outcome,
        state]
      rfl
    have earlier : AllAccepted commands owner (self.handled ++
        [self.next.bytes ++ self.readBuf]).dropLast := by
      rwa [List.dropLast_concat]
    have flat : self.received = (self.handled ++
        [self.next.bytes ++ self.readBuf]).flatten ++ [] := by
      simpa using received
    dsimp only
    split
    · rename_i more
      refine ⟨framed, replayed, earlier, [], flat, fun _ => ⟨?_, ?_⟩⟩
      · exact .header (.inl rfl)
      · refine (allAccepted_append_singleton commands).mpr ⟨accepted, ?_⟩
        rw [← state, outcome]
        exact more
    · exact ⟨framed, replayed, earlier, [], flat, by simp [baseCleanup]⟩

theorem readOn_reads {point : ReadPoint} {size : ℕ} {ending : Ending}
    (pending : self.reading = some ⟨point, size, some ending⟩)
    (sound : ReadSound commands owner self) :
    ReadSound commands owner (Connection.readOn commands
      { self with reading := none } point ending) := by
  obtain ⟨bytes, received, open'⟩ := sound.pending
  by_cases closed : self.cleanup = true
  · have still : ReadSound commands owner { self with reading := none } :=
      ⟨sound.framed, sound.replayed, sound.accepted, bytes, received,
        fun connected => absurd (closed.symm.trans connected) (by simp)⟩
    cases ending with
    | failed => exact still.cleanedUp
    | aborted => exact still
    | done =>
        unfold Connection.readOn
        dsimp only
        rw [if_pos closed]
        exact still
  · obtain ⟨reading, accepted⟩ := open' (by simpa using closed)
    rw [pending] at reading
    cases ending with
    | aborted => cases reading <;> simp_all
    | failed =>
        exact ⟨sound.framed, sound.replayed, sound.accepted, bytes, received,
          by simp [Connection.readOn, baseCleanup]⟩
    | done =>
        unfold Connection.readOn
        dsimp only
        rw [if_neg closed]
        generalize same : self.readBuf = readBuf at reading
        generalize header : self.next = next at reading
        cases reading with
        | header running => simp at running
        | body whole running => simp at running
        | headerRead size =>
            have raw := Header.bytes_ofBytes size
            refine ⟨sound.framed, sound.replayed, sound.accepted, _, received,
              fun _ => ⟨?_, accepted⟩⟩
            subst same
            have body := @Reading.body none (Header.ofBytes self.readBuf)
              (List.replicate (Header.ofBytes self.readBuf).length 0)
              (congrArg Header.ofBytes raw) (.inl rfl)
            rwa [raw] at body
        | bodyRead whole size =>
            subst same header
            apply @callCommand_reads _ _ _ { self with reading := none } _
              whole size received accepted
            exact ⟨sound.framed, sound.replayed, sound.accepted, _, received,
              by simp [baseCleanup]⟩

theorem readDone_reads {point : ReadPoint} {bytes : Bytes}
    (pending : self.reading = some ⟨point, bytes.length, none⟩)
    (connected : self.cleanup = false) (sound : ReadSound commands owner self) :
    ReadSound commands owner
      { self with
        readBuf := bytes
        received := self.received ++ bytes
        reading := some ⟨point, bytes.length, some .done⟩ } := by
  obtain ⟨before, received, reading⟩ := sound.pending
  obtain ⟨reading, accepted⟩ := reading connected
  have longer : self.received ++ bytes =
      self.handled.flatten ++ (before ++ bytes) := by
    rw [received, List.append_assoc]
  refine ⟨sound.framed, sound.replayed, sound.accepted, _, longer,
    fun _ => ⟨?_, accepted⟩⟩
  rw [pending] at reading
  dsimp only
  generalize size : bytes.length = count at reading
  generalize self.readBuf = readBuf at reading
  generalize self.next = header at reading ⊢
  cases reading with
  | header => exact .headerRead size
  | body whole => exact .bodyRead whole size

theorem readFails_reads {point : ReadPoint} {size : ℕ} {ending : Ending}
    (pending : self.reading = some ⟨point, size, none⟩)
    (possible : ending.Possible (self.cleanup = true) False)
    (sound : ReadSound commands owner self) :
    ReadSound commands owner
      { self with reading := some ⟨point, size, some ending⟩ } := by
  obtain ⟨before, received, reading⟩ := sound.pending
  refine ⟨sound.framed, sound.replayed, sound.accepted, before, received,
    fun connected => ?_⟩
  obtain ⟨reading, accepted⟩ := reading connected
  refine ⟨?_, accepted⟩
  have failed : some ending = some Ending.failed := by
    cases ending with
    | done => exact possible.elim
    | failed => rfl
    | aborted => exact absurd (possible.symm.trans connected) (by simp)
  rw [pending] at reading
  dsimp only
  generalize self.next = header at reading ⊢
  cases reading with
  | header => exact .header (.inr failed)
  | body whole => exact .body whole (.inr failed)

theorem Step.readSound {event : ConnectionEvent}
    (step : Step commands self event next)
    (sound : ReadSound commands owner self) : ReadSound commands owner next := by
  cases step with
  | writeCommand id sink =>
      unfold Connection.writeCommand
      split
      · exact sound.cleanedUp
      · exact queueSlice_reads _ sound
  | stop => exact sound.cleanedUp
  | transmit =>
      exact ⟨sound.framed, sound.replayed, sound.accepted, sound.pending⟩
  | writeEnds =>
      exact ⟨sound.framed, sound.replayed, sound.accepted, sound.pending⟩
  | wrote =>
      apply wrote_reads
      exact ⟨sound.framed, sound.replayed, sound.accepted, sound.pending⟩
  | expire =>
      exact ⟨sound.framed, sound.replayed, sound.accepted, sound.pending⟩
  | timeout =>
      have closed := sound.cleanedUp
      exact ⟨closed.framed, closed.replayed, closed.accepted, closed.pending⟩
  | readDone pending connected => exact readDone_reads pending connected sound
  | readFails pending possible =>
      exact readFails_reads pending possible sound
  | readOn pending => exact readOn_reads pending sound

theorem run_sound {events : List ConnectionEvent}
    (run : Run (Step commands) (Connection.start owner) events self) :
    self.WriteSound ∧ ReadSound commands owner self := by
  apply run.preserves fun connection =>
    connection.WriteSound ∧ ReadSound commands owner connection
  · rintro before event after ⟨writes, reads⟩ step
    exact ⟨step.writeSound writes, step.readSound reads⟩
  · constructor
    · exact .idle List.prefix_rfl fun _ => ⟨rfl, rfl⟩
    · exact ⟨List.forall_mem_nil _, rfl, trivial, [], rfl,
        fun _ => ⟨.header (.inl rfl), trivial⟩⟩

end Connection

/-! ## Runs of one connection -/

namespace Connection

variable {σ : Type} {commands : Callables σ} {owner : σ}
  {self next : Connection σ} {event : ConnectionEvent}

/-- Nothing is sent or handled after a cleanup. -/
theorem Step.silent (step : Step commands self event next)
    (closed : self.cleanup = true) :
    next.sent = self.sent ∧ next.handled = self.handled := by
  cases step with
  | writeCommand id sink =>
      unfold Connection.writeCommand
      split
      · exact ⟨rfl, rfl⟩
      · rename_i message _
        obtain ⟨_, _, _, -, same⟩ := queueSlice_eq self message
        rw [same]
        exact ⟨rfl, rfl⟩
  | transmit _ connected _ _ =>
      exact absurd (closed.symm.trans connected) (by simp)
  | @wrote before after _ ending _ =>
      obtain ⟨_, _, _, _, -, same⟩ :=
        wrote_eq { self with writes := before ++ after } ending
      rw [same]
      exact ⟨rfl, rfl⟩
  | @readOn point _ ending _ =>
      cases ending with
      | failed => exact ⟨rfl, rfl⟩
      | aborted => exact ⟨rfl, rfl⟩
      | done =>
          unfold Connection.readOn
          dsimp only
          rw [if_pos closed]
          exact ⟨rfl, rfl⟩
  | stop => exact ⟨rfl, rfl⟩
  | writeEnds => exact ⟨rfl, rfl⟩
  | expire => exact ⟨rfl, rfl⟩
  | timeout => exact ⟨rfl, rfl⟩
  | readDone => exact ⟨rfl, rfl⟩
  | readFails => exact ⟨rfl, rfl⟩

/-- In every run at most one write is pending, of what is left of the first
buffer; less than `maxWriteBuffers` wait while the connection is up; the
socket took the start of what was queued; and after a cleanup nothing more is
sent or handled. -/
theorem one_write_at_a_time {events : List ConnectionEvent}
    (run : Run (Step commands) (Connection.start owner) events self) :
    self.writes.length ≤ 1 ∧
      (∀ op ∈ self.writes, ∃ front others,
        self.writeBufs = front :: others ∧ op.left <:+ front) ∧
      (self.cleanup = false → self.writeBufs.length < maxWriteBuffers) ∧
      self.sent <+: self.queued.flatten ∧
      (self.cleanup = true → ∀ (later : List ConnectionEvent)
        (final : Connection σ), Run (Step commands) self later final →
        final.sent = self.sent ∧ final.handled = self.handled) := by
  have sound := (run_sound run).1
  have quiet : self.cleanup = true → ∀ (later : List ConnectionEvent)
      (final : Connection σ), Run (Step commands) self later final →
      final.sent = self.sent ∧ final.handled = self.handled := by
    intro closed later final rest
    suffices kept : final.cleanup = true ∧ final.sent = self.sent ∧
        final.handled = self.handled from kept.2
    apply rest.preserves fun state => state.cleanup = true ∧
      state.sent = self.sent ∧ state.handled = self.handled
    · rintro before event after ⟨closed, sent, handled⟩ step
      obtain ⟨sameSent, sameHandled⟩ := step.silent closed
      exact ⟨step.onward.cleanup closed, sameSent.trans sent,
        sameHandled.trans handled⟩
    · exact ⟨closed, rfl, rfl⟩
  exact ⟨(Writing.front sound).1, (Writing.front sound).2, Writing.few sound,
    Writing.sent_prefix sound, quiet⟩

theorem one_write_of_two : ∃ self : Connection Unit,
    self.writeBufs.length = 2 ∧ self.writes.length ≤ 1 :=
  ⟨_, rfl, (@one_write_at_a_time Unit [] () _ _
    (.cons (.writeCommand 0 (List.replicate headerSize 0))
      (.cons (.writeCommand 1 (List.replicate headerSize 0))
        (.cons (.transmit_one 4 rfl rfl (by decide) (by decide))
          (.nil _))))).1⟩

/-! ## One message -/

theorem run_send {id : Byte} {sink message : Bytes}
    (completed : completeCommand id sink = some message) : ∃ self,
    Run (fun self event next => Step commands self event next ∧
        next.received <+: []) (start owner)
      [.writeCommand id sink, .transmit message.length] self ∧
      self.queued = [message] ∧ self.sent = message := by
  have whole := (completeCommand_parts completed).1
  have some : 0 < message.length := by
    rw [whole]
    exact Nat.add_pos_left framing.positive _
  have queued : (start owner).writeCommand id sink =
      { start owner with
        writeBufs := [message]
        waiting := true
        writes := [⟨message, none⟩]
        queued := [message] } := by
    simp only [Connection.writeCommand, completed]
    rfl
  refine ⟨_, .cons ⟨.writeCommand id sink, ?_⟩
    (.cons ⟨@Step.transmit_one _ _ _ message message.length ?_ ?_ some le_rfl,
        ?_⟩
      (.nil _)), ?_, ?_⟩
  all_goals rw [queued]
  all_goals simp [start, readHeader]

theorem callCommand_accepted {command : σ → Bytes → σ × Bool}
    (known : commands[self.next.id.val]? = some command)
    (accepted : (command self.owner self.readBuf).2 = true) :
    callCommand commands self = readHeader
      { self with
        owner := (command self.owner self.readBuf).1
        readBuf := []
        handled := self.handled ++ [self.next.bytes ++ self.readBuf] } := by
  simp only [callCommand, known, accepted, if_true]

/-- The connection waits for the header of a message. -/
structure Waits (connection : Connection σ) : Prop where
  connected : connection.cleanup = false
  pending : connection.reading = some ⟨.header, headerSize, none⟩

theorem waits_start : (start owner).Waits :=
  ⟨rfl, rfl⟩

/-- The connection after the bytes of a read arrived. -/
def withRead (self : Connection σ) (bytes : Bytes) : Connection σ :=
  { self with
    readBuf := bytes
    received := self.received ++ bytes
    reading := none }

theorem run_read {point : ReadPoint} {bytes : Bytes} {size : ℕ}
    (connected : self.cleanup = false)
    (pending : self.reading = some ⟨point, size, none⟩)
    (whole : bytes.length = size) :
    Run (Step commands) self [.readEnds .done bytes, .readOn]
      ((self.withRead bytes).readOn commands point .done) := by
  subst whole
  exact .cons (.readDone pending connected) (.cons (.readOn rfl) (.nil _))

/-- A message that arrives at a waiting connection is served. -/
theorem run_receive (waits : self.Waits) {message : Bytes}
    (whole : framing.Message message)
    (accepted : (serve commands self.owner message).2 = true) : ∃ next,
    Run (Step commands) self
      [.readEnds .done (message.take headerSize), .readOn,
        .readEnds .done (payload message), .readOn] next ∧
      next.Waits ∧ next.owner = (serve commands self.owner message).1 ∧
      next.received = self.received ++ message := by
  have long : headerSize ≤ message.length := by
    rw [whole]
    exact Nat.le_add_right _ _
  have size : (message.take headerSize).length = headerSize := by
    rw [List.length_take, min_eq_left long]
  have told : (payload message).length =
      (Header.ofBytes (message.take headerSize)).length := by
    rw [payload, List.length_drop, whole]
    exact Nat.add_sub_cancel_left _ _
  have both : message.take headerSize ++ payload message = message :=
    List.take_append_drop _ _
  unfold serve at accepted ⊢
  generalize message.take headerSize = header at size told both accepted ⊢
  cases known : commands[(Header.ofBytes header).id.val]? with
  | none =>
      rw [known] at accepted
      cases accepted
  | some command =>
  rw [known] at accepted
  have header_read : (self.withRead header).readOn commands .header .done =
      (self.withRead header).readBody := by
    simp [readOn, withRead, waits.connected]
  have first := @run_read _ commands self _ _ _ waits.connected waits.pending
    size
  rw [header_read] at first
  have second := @run_read _ commands (self.withRead header).readBody _ _ _
    waits.connected rfl told
  have body_read : ((self.withRead header).readBody.withRead
      (payload message)).readOn commands .body .done =
      callCommand commands
        ((self.withRead header).readBody.withRead (payload message)) := by
    simp [readOn, withRead, readBody, waits.connected]
  rw [body_read, callCommand_accepted known accepted] at second
  refine ⟨_, first.append second, ⟨waits.connected, rfl⟩, rfl, ?_⟩
  exact (List.append_assoc _ _ _).trans (congrArg _ both)

/-- On the way to a state no more is received than there. -/
theorem run_received {events : List ConnectionEvent}
    (run : Run (Step commands) self events next) :
    Run (fun current event after => Step commands current event after ∧
      after.received <+: next.received) self events next := by
  induction run with
  | nil => exact .nil _
  | @cons _ after _ _ _ stepped rest induction =>
      have grown := rest.preserves (after.received <+: ·.received)
        (fun _ _ _ kept step => kept.trans step.onward.received)
        List.prefix_rfl
      exact .cons ⟨stepped, grown⟩ induction

end Connection

end XfoLws.Scanner
