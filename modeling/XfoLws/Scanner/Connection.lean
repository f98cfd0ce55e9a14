import XfoLws.Scanner.Commands

/-!
# Connections of remote scanners

`rpc::scanner::connection` with its coroutines `write_buffers` and
`do_read_commands`.  Handlers run one at a time on the strand; between them
the pending operations of the socket and the timer go on and end in any order.
-/

namespace XfoLws.Scanner

open Wire

/-! ## Pending operations -/

/-- How an asynchronous operation ended; `failed` is any error other than
`operation_aborted`. -/
inductive Ending where
  | done
  | failed
  | aborted
deriving DecidableEq, Repr

/-- `async_write`, with the bytes the socket has not taken. -/
structure WriteOp where
  left : Bytes
  ended : Option Ending
deriving DecidableEq, Repr

/-- The yields of `do_read_commands`. -/
inductive ReadPoint where
  | header
  | body
deriving DecidableEq, Repr

/-- `async_read` of so many bytes. -/
structure ReadOp where
  point : ReadPoint
  size : ℕ
  ended : Option Ending
deriving DecidableEq, Repr

/-- `T::commands()`: a callable gets what was read and tells whether to go
on. -/
abbrev Callables (σ : Type) := List (σ → Bytes → σ × Bool)

/-- `owner` is what the callables work on; the last four fields record the
history. -/
structure Connection (σ : Type) where
  owner : σ
  readBuf : Bytes
  writeBufs : List Bytes
  next : Header
  cleanup : Bool
  /-- `write_timeout_` is waiting. -/
  waiting : Bool
  /-- Timeouts whose handler did not run yet. -/
  expired : ℕ
  writes : List WriteOp
  reading : Option ReadOp
  /-- The messages given to `queue_slice`. -/
  queued : List Bytes
  sent : Bytes
  received : Bytes
  /-- The messages given to a callable. -/
  handled : List Bytes

/-- One message given to the callables. -/
def serve {σ : Type} (commands : Callables σ) (owner : σ) (message : Bytes) :
    σ × Bool :=
  match commands[(Header.ofBytes (message.take headerSize)).id.val]? with
  | none => (owner, false)
  | some command => command owner (payload message)

def maxWriteBuffers : ℕ := 100

namespace Connection

variable {σ : Type}

/-! ## Handlers -/

/-- `base_cleanup`: the socket is closed and the timer is cancelled. -/
def baseCleanup (self : Connection σ) : Connection σ :=
  { self with
    cleanup := true
    waiting := false }

/-- The loop of `write_buffers`, up to its yield. -/
def writeLoop (self : Connection σ) : Connection σ :=
  match self.writeBufs with
  | [] => self
  | front :: _ =>
      { self with
        waiting := true
        writes := self.writes ++ [⟨front, none⟩] }

/-- `write_buffers` when it is started. -/
def writeBuffers (self : Connection σ) : Connection σ :=
  if self.cleanup then self else self.writeLoop

/-- `queue_slice`. -/
def queueSlice (self : Connection σ) (message : Bytes) : Connection σ :=
  let next : Connection σ :=
    { self with
      writeBufs := self.writeBufs ++ [message]
      queued := self.queued ++ [message] }
  if self.writeBufs = [] then next.writeBuffers
  else if maxWriteBuffers ≤ next.writeBufs.length then next.baseCleanup
  else next

/-- What `write_command` dispatches for a serialized command. -/
def writeCommand (self : Connection σ) (id : Byte) (sink : Bytes) :
    Connection σ :=
  match completeCommand id sink with
  | none => self.baseCleanup
  | some message => self.queueSlice message

/-- `write_buffers` after its yield. -/
def wrote (self : Connection σ) : Ending → Connection σ
  | .failed => { self.baseCleanup with waiting := false }
  | .aborted => { self with waiting := false }
  | .done =>
      if self.cleanup then self
      else
        writeLoop
          { self with
            waiting := false
            writeBufs := self.writeBufs.tail }

/-- The loop of `do_read_commands`, up to its first yield. -/
def readHeader (self : Connection σ) : Connection σ :=
  { self with
    readBuf := List.replicate headerSize 0
    reading := some ⟨.header, headerSize, none⟩ }

def readBody (self : Connection σ) : Connection σ :=
  let next := Header.ofBytes self.readBuf
  { self with
    next := next
    readBuf := List.replicate next.length 0
    reading := some ⟨.body, next.length, none⟩ }

/-- The call of a command, which moves `read_buf_`. -/
def callCommand (commands : Callables σ) (self : Connection σ) :
    Connection σ :=
  match commands[self.next.id.val]? with
  | none => self.baseCleanup
  | some command =>
      let outcome := command self.owner self.readBuf
      let called : Connection σ :=
        { self with
          owner := outcome.1
          readBuf := []
          handled := self.handled ++ [self.next.bytes ++ self.readBuf] }
      if outcome.2 then called.readHeader else called.baseCleanup

/-- `do_read_commands` after a yield. -/
def readOn (commands : Callables σ) (self : Connection σ) (point : ReadPoint) :
    Ending → Connection σ
  | .failed => self.baseCleanup
  | .aborted => self
  | .done =>
      if self.cleanup then self
      else
        match point with
        | .header => self.readBody
        | .body => callCommand commands self

/-- A connection whose reading was started. -/
def start (owner : σ) : Connection σ :=
  readHeader
    { owner := owner
      readBuf := []
      writeBufs := []
      next := ⟨0, 0, 0⟩
      cleanup := false
      waiting := false
      expired := 0
      writes := []
      reading := none
      queued := []
      sent := []
      received := []
      handled := [] }

end Connection

/-! ## Steps -/

inductive ConnectionEvent where
  /-- The function that `write_command` dispatched runs. -/
  | writeCommand (id : Byte) (sink : Bytes)
  /-- `server::do_stop` dispatched a cleanup. -/
  | stop
  | transmit (count : ℕ)
  | writeEnds (ending : Ending)
  | wrote
  | expire
  | timeout
  | readEnds (ending : Ending) (bytes : Bytes)
  | readOn
deriving DecidableEq, Repr

/-- An operation is only aborted by closing the socket. -/
def Ending.Possible (ending : Ending) (cleanup complete : Prop) : Prop :=
  match ending with
  | .done => complete
  | .failed => True
  | .aborted => cleanup

inductive Connection.Step {σ : Type} (commands : Callables σ) :
    Connection σ → ConnectionEvent → Connection σ → Prop where
  | writeCommand {self : Connection σ} (id : Byte) (sink : Bytes) :
      Step commands self (.writeCommand id sink) (self.writeCommand id sink)
  | stop {self : Connection σ} : Step commands self .stop self.baseCleanup
  | transmit {self : Connection σ} {before after : List WriteOp}
      {left : Bytes} {count : ℕ}
      (pending : self.writes = before ++ ⟨left, none⟩ :: after)
      (connected : self.cleanup = false) (some : 0 < count)
      (within : count ≤ left.length) :
      Step commands self (.transmit count)
        { self with
          sent := self.sent ++ left.take count
          writes := before ++ ⟨left.drop count, none⟩ :: after }
  | writeEnds {self : Connection σ} {before after : List WriteOp}
      {left : Bytes} {ending : Ending}
      (pending : self.writes = before ++ ⟨left, none⟩ :: after)
      (possible : ending.Possible (self.cleanup = true) (left = [])) :
      Step commands self (.writeEnds ending)
        { self with writes := before ++ ⟨left, some ending⟩ :: after }
  | wrote {self : Connection σ} {before after : List WriteOp} {left : Bytes}
      {ending : Ending}
      (pending : self.writes = before ++ ⟨left, some ending⟩ :: after) :
      Step commands self .wrote
        (Connection.wrote { self with writes := before ++ after } ending)
  | expire {self : Connection σ} (waiting : self.waiting = true) :
      Step commands self .expire
        { self with
          waiting := false
          expired := self.expired + 1 }
  | timeout {self : Connection σ} {others : ℕ}
      (pending : self.expired = others + 1) :
      Step commands self .timeout
        (Connection.baseCleanup { self with expired := others })
  | readDone {self : Connection σ} {point : ReadPoint} {bytes : Bytes}
      (pending : self.reading = some ⟨point, bytes.length, none⟩)
      (connected : self.cleanup = false) :
      Step commands self (.readEnds .done bytes)
        { self with
          readBuf := bytes
          received := self.received ++ bytes
          reading := some ⟨point, bytes.length, some .done⟩ }
  | readFails {self : Connection σ} {point : ReadPoint} {size : ℕ}
      {ending : Ending}
      (pending : self.reading = some ⟨point, size, none⟩)
      (possible : ending.Possible (self.cleanup = true) False) :
      Step commands self (.readEnds ending [])
        { self with reading := some ⟨point, size, some ending⟩ }
  | readOn {self : Connection σ} {point : ReadPoint} {size : ℕ}
      {ending : Ending}
      (pending : self.reading = some ⟨point, size, some ending⟩) :
      Step commands self .readOn
        (Connection.readOn commands { self with reading := none } point ending)

/-! ## What a step changes -/

/-- The event is not the queueing of a command. -/
def ConnectionEvent.Keeps : ConnectionEvent → Prop
  | .writeCommand .. => False
  | _ => True

namespace Connection

variable {σ : Type} {commands : Callables σ} {self next : Connection σ}
  {event : ConnectionEvent}

/-- The histories grow, and a cleanup stays. -/
structure Onward (before after : Connection σ) : Prop where
  queued : before.queued <+: after.queued
  sent : before.sent <+: after.sent
  received : before.received <+: after.received
  handled : before.handled <+: after.handled
  cleanup : before.cleanup = true → after.cleanup = true

theorem Onward.of_same (queued : next.queued = self.queued)
    (sent : next.sent = self.sent) (received : next.received = self.received)
    (handled : self.handled <+: next.handled)
    (cleanup : self.cleanup = true → next.cleanup = true) :
    Onward self next where
  queued := queued ▸ List.prefix_rfl
  sent := sent ▸ List.prefix_rfl
  received := received ▸ List.prefix_rfl
  handled := handled
  cleanup := cleanup

theorem Onward.still_open {before after : Connection σ}
    (onward : Onward before after) (isOpen : after.cleanup = false) :
    before.cleanup = false := by
  by_contra closed
  have ended := onward.cleanup (by simpa using closed)
  exact absurd (ended.symm.trans isOpen) (by simp)

theorem writeLoop_eq (self : Connection σ) : ∃ waiting writes,
    self.writeLoop = { self with waiting := waiting, writes := writes } := by
  unfold writeLoop
  split
  · exact ⟨_, _, rfl⟩
  · exact ⟨_, _, rfl⟩

/-- The history of a message in `queue_slice`. -/
theorem queueSlice_eq (self : Connection σ) (message : Bytes) :
    ∃ cleanup waiting writes, (self.cleanup = true → cleanup = true) ∧
      self.queueSlice message =
        { self with
          writeBufs := self.writeBufs ++ [message]
          queued := self.queued ++ [message]
          cleanup := cleanup
          waiting := waiting
          writes := writes } := by
  unfold queueSlice
  dsimp only
  split
  · unfold writeBuffers
    split
    · exact ⟨_, _, _, fun closed => closed, rfl⟩
    · obtain ⟨waiting, writes, same⟩ := writeLoop_eq
        { self with
          writeBufs := self.writeBufs ++ [message]
          queued := self.queued ++ [message] }
      exact ⟨_, waiting, writes, fun closed => closed, same⟩
  · split
    · exact ⟨true, false, _, fun _ => rfl, rfl⟩
    · exact ⟨_, _, _, fun closed => closed, rfl⟩

theorem wrote_eq (self : Connection σ) (ending : Ending) :
    ∃ cleanup waiting writeBufs writes,
      (self.cleanup = true → cleanup = true) ∧
      Connection.wrote self ending =
        { self with
          cleanup := cleanup
          waiting := waiting
          writeBufs := writeBufs
          writes := writes } := by
  cases ending with
  | failed => exact ⟨true, false, _, _, fun _ => rfl, rfl⟩
  | aborted => exact ⟨_, false, _, _, fun closed => closed, rfl⟩
  | done =>
      unfold wrote
      dsimp only
      split
      · exact ⟨_, _, _, _, fun closed => closed, rfl⟩
      · obtain ⟨waiting, writes, same⟩ := writeLoop_eq
          { self with
            waiting := false
            writeBufs := self.writeBufs.tail }
        exact ⟨_, waiting, _, writes, fun closed => closed, same⟩

/-- Reading leaves the write side, and handles one more message at most. -/
theorem readOn_eq (commands : Callables σ) (self : Connection σ)
    (point : ReadPoint) (ending : Ending) :
    ∃ owner readBuf next cleanup waiting reading handled,
      (self.cleanup = true → cleanup = true) ∧ self.handled <+: handled ∧
      Connection.readOn commands self point ending =
        { self with
          owner := owner
          readBuf := readBuf
          next := next
          cleanup := cleanup
          waiting := waiting
          reading := reading
          handled := handled } := by
  unfold readOn
  cases ending with
  | failed =>
      exact ⟨_, _, _, true, false, _, _, fun _ => rfl, List.prefix_rfl, rfl⟩
  | aborted =>
      exact ⟨_, _, _, _, _, _, _, fun closed => closed, List.prefix_rfl, rfl⟩
  | done =>
      dsimp only
      split
      · exact ⟨_, _, _, _, _, _, _, fun closed => closed, List.prefix_rfl, rfl⟩
      · cases point with
        | header =>
            exact ⟨_, _, _, _, _, _, _, fun closed => closed, List.prefix_rfl,
              rfl⟩
        | body =>
            dsimp only
            unfold callCommand
            split
            · exact ⟨_, _, _, true, false, _, _, fun _ => rfl, List.prefix_rfl,
                rfl⟩
            · dsimp only
              split
              · exact ⟨_, _, _, _, _, _, _, fun closed => closed,
                  List.prefix_append _ _, rfl⟩
              · exact ⟨_, _, _, true, false, _, _, fun _ => rfl,
                  List.prefix_append _ _, rfl⟩

theorem Step.onward (step : Step commands self event next) :
    Onward self next := by
  cases step with
  | writeCommand id sink =>
      unfold Connection.writeCommand
      split
      · exact .of_same rfl rfl rfl List.prefix_rfl fun _ => rfl
      · rename_i message _
        obtain ⟨_, _, _, closed, same⟩ := queueSlice_eq self message
        rw [same]
        exact ⟨List.prefix_append _ _, List.prefix_rfl, List.prefix_rfl,
          List.prefix_rfl, closed⟩
  | stop => exact .of_same rfl rfl rfl List.prefix_rfl fun _ => rfl
  | transmit =>
      exact ⟨List.prefix_rfl, List.prefix_append _ _, List.prefix_rfl,
        List.prefix_rfl, fun closed => closed⟩
  | writeEnds => exact .of_same rfl rfl rfl List.prefix_rfl fun closed => closed
  | @wrote before after _ ending _ =>
      obtain ⟨_, _, _, _, closed, same⟩ :=
        wrote_eq { self with writes := before ++ after } ending
      rw [same]
      exact .of_same rfl rfl rfl List.prefix_rfl closed
  | expire => exact .of_same rfl rfl rfl List.prefix_rfl fun closed => closed
  | timeout => exact .of_same rfl rfl rfl List.prefix_rfl fun _ => rfl
  | readDone =>
      exact ⟨List.prefix_rfl, List.prefix_rfl, List.prefix_append _ _,
        List.prefix_rfl, fun closed => closed⟩
  | readFails => exact .of_same rfl rfl rfl List.prefix_rfl fun closed => closed
  | @readOn point _ ending _ =>
      obtain ⟨_, _, _, _, _, _, _, closed, handled, same⟩ :=
        readOn_eq commands { self with reading := none } point ending
      rw [same]
      exact .of_same rfl rfl rfl handled closed

theorem Step.queued_same (step : Step commands self event next)
    (keeps : event.Keeps) : next.queued = self.queued := by
  cases step with
  | writeCommand => exact keeps.elim
  | @wrote before after _ ending _ =>
      obtain ⟨_, _, _, _, -, same⟩ :=
        wrote_eq { self with writes := before ++ after } ending
      rw [same]
  | @readOn point _ ending _ =>
      obtain ⟨_, _, _, _, _, _, _, -, -, same⟩ :=
        readOn_eq commands { self with reading := none } point ending
      rw [same]
  | stop => rfl
  | transmit => rfl
  | writeEnds => rfl
  | expire => rfl
  | timeout => rfl
  | readDone => rfl
  | readFails => rfl

/-- Only whole messages are queued. -/
theorem Step.queued_framed (step : Step commands self event next)
    (framed : ∀ message ∈ self.queued, framing.Message message) :
    ∀ message ∈ next.queued, framing.Message message := by
  by_cases keeps : event.Keeps
  · rw [step.queued_same keeps]
    exact framed
  · cases step with
    | writeCommand id sink =>
        unfold Connection.writeCommand
        split
        · exact framed
        · rename_i message completed
          obtain ⟨_, _, _, -, same⟩ := queueSlice_eq self message
          rw [same]
          intro other member
          rcases List.mem_append.mp member with earlier | last
          · exact framed other earlier
          · obtain rfl := List.mem_singleton.mp last
            exact (completeCommand_parts completed).1
    | _ => exact absurd trivial keeps

/-! The list around the only pending write is empty. -/

theorem Step.transmit_one {left : Bytes} (count : ℕ)
    (one : self.writes = [⟨left, none⟩]) (connected : self.cleanup = false)
    (some : 0 < count) (within : count ≤ left.length) :
    Step commands self (.transmit count)
      { self with
        sent := self.sent ++ left.take count
        writes := [⟨left.drop count, none⟩] } :=
  @Step.transmit _ _ _ [] [] left count one connected some within

theorem Step.writeEnds_one {left : Bytes} {ending : Ending}
    (one : self.writes = [⟨left, none⟩])
    (possible : ending.Possible (self.cleanup = true) (left = [])) :
    Step commands self (.writeEnds ending)
      { self with writes := [⟨left, some ending⟩] } :=
  @Step.writeEnds _ _ _ [] [] left ending one possible

theorem Step.wrote_one {left : Bytes} {ending : Ending}
    (one : self.writes = [⟨left, some ending⟩]) :
    Step commands self .wrote
      (Connection.wrote { self with writes := [] } ending) :=
  @Step.wrote _ _ _ [] [] left ending one

end Connection

end XfoLws.Scanner
