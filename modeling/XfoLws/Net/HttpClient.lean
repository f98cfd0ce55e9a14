import XfoLws.Lib.Outcome
import Mathlib.Algebra.Order.Ring.Nat
import Mathlib.Data.List.Basic

/-!
# HTTP client

`net::http::client` queues messages on a strand, where the `client_loop`
coroutine sends them.  A step of the loop runs from one yield to the next;
timers only cancel operations, so a timeout is one more result.
-/

namespace XfoLws.Net

/-! ## Messages -/

/-- What `parse_url` finds in a URL. -/
structure UrlContent where
  schema : String
  host : String
  port : ℕ
  uri : String
deriving DecidableEq, Repr

structure Message where
  jsonBody : List UInt8
  notifier : Option ℕ
  host : String
  target : String
  port : ℕ
  https : Bool
deriving DecidableEq, Repr

/-- The arguments of `queue_async`, with the result of `parse_url`. -/
structure Request where
  url : Option UrlContent
  jsonBody : List UInt8
  notifier : Option ℕ
deriving DecidableEq, Repr

def maxPort : ℕ := 2 ^ 16 - 1

/-- The message of a request, unless `queue_async` returns `bad_url`. -/
def Request.message (request : Request) : Option Message :=
  match request.url with
  | none => none
  | some parsed =>
      if maxPort < parsed.port then none
      else if parsed.schema ≠ "http" ∧ parsed.schema ≠ "https" then none
      else
        let defaultPort := if parsed.schema = "http" then 80 else 443
        some
          { jsonBody := request.jsonBody
            notifier := request.notifier
            host := parsed.host
            target := if parsed.uri = "" then "/" else parsed.uri
            port := if parsed.port = 0 then defaultPort else parsed.port
            https := parsed.schema = "https" }

/-! ## The state on the strand -/

inductive ErrorCode where
  | hostNotFound
  | operationNotSupported
  | other (value : ℕ)
deriving DecidableEq, Repr

/-- What a notifier is called with; a response comes with the message that was
written to the connection before it. -/
inductive Answer where
  | failed (error : ErrorCode)
  | response (written : Option ℕ) (body : String)
deriving DecidableEq, Repr

structure Call where
  ticket : ℕ
  notifier : ℕ
  answer : Answer
deriving DecidableEq, Repr

/-- The yields of `client_loop`, and the start of a posted loop. -/
inductive Point where
  | posted
  | resolving
  | connecting
  | handshaking
  | writing
  | reading
  | shuttingDown
deriving DecidableEq, Repr

/-- `client_state`.  Messages carry their number in the order of the queue.
The last three fields record the history. -/
structure ClientState where
  outgoing : List (ℕ × Message)
  lastHost : String
  /-- The message written to the connection and not answered. -/
  unanswered : Option ℕ
  loops : List Point
  queued : List Message
  taken : List ℕ
  calls : List Call
deriving DecidableEq, Repr

inductive Fault where
  /-- `front` or `pop_front` of an empty queue. -/
  | emptyOutgoing
  /-- No loop waits for this completion. -/
  | notWaiting
deriving DecidableEq, Repr

structure Response where
  status : ℕ
  body : String
  keepAlive : Bool
deriving DecidableEq, Repr

/-- The results of the asynchronous operations. -/
inductive Completion where
  | started
  | resolved (error : Option ErrorCode) (found : Bool)
  | connected (error : Option ErrorCode)
  | handshaken (error : Option ErrorCode)
  | written (error : Option ErrorCode)
  | received (result : Except ErrorCode Response)
  | shutDown (error : Option ErrorCode)
deriving DecidableEq, Repr

/-- The yield that an operation completes. -/
def Completion.point : Completion → Point
  | .started => .posted
  | .resolved .. => .resolving
  | .connected _ => .connecting
  | .handshaken _ => .handshaking
  | .written _ => .writing
  | .received _ => .reading
  | .shutDown _ => .shuttingDown

namespace ClientState

def push (self : ClientState) (message : Message) : ClientState :=
  { self with
    outgoing := self.outgoing ++ [(self.queued.length, message)]
    queued := self.queued ++ [message] }

/-- The function that `queue_async` dispatches to the strand. -/
def queueAsync (self : ClientState) (request : Request) : ClientState :=
  match request.message with
  | none => self
  | some message =>
      if self.outgoing = [] then
        { self.push message with loops := self.loops ++ [.posted] }
      else self.push message

/-- `queue_async` without a `client_state`. -/
def start (message : Message) : ClientState where
  outgoing := [(0, message)]
  lastHost := ""
  unanswered := none
  loops := [.posted]
  queued := [message]
  taken := []
  calls := []

/-! ## Steps of the loop -/

def front (self : ClientState) : Except Fault (ℕ × Message) :=
  match self.outgoing with
  | [] => .error .emptyOutgoing
  | front :: _ => .ok front

/-- Call the notifier of the front message, which may queue more. -/
def notify (self : ClientState) (answer : Answer) (requests : List Request) :
    Except Fault ClientState := do
  let (ticket, message) ← self.front
  match message.notifier with
  | none => .ok self
  | some notifier =>
      .ok (requests.foldl queueAsync
        { self with calls := self.calls ++ [⟨ticket, notifier, answer⟩] })

/-- `client_state::async_write`. -/
def asyncWrite (self : ClientState) : Except Fault (ClientState × Option Point) :=
  match self.outgoing with
  | [] => .error .emptyOutgoing
  | (ticket, message) :: rest =>
      .ok ({ self with
        outgoing := (ticket, { message with jsonBody := [] }) :: rest
        unanswered := some ticket }, some .writing)

/-- The head of the loop, up to its first yield. -/
def enter (self : ClientState) (reuse : Bool) :
    Except Fault (ClientState × Option Point) :=
  if self.outgoing = [] then .ok (self, none)
  else if reuse then self.asyncWrite
  else .ok (self, some .resolving)

/-- A new connection has nothing written to it. -/
def closeSocket (self : ClientState) : ClientState :=
  { self with unanswered := none }

/-- The end of the loop's body, after the answer. -/
def popFront (self : ClientState) (reuse : Bool) :
    Except Fault (ClientState × Option Point) :=
  match self.outgoing with
  | [] => .error .emptyOutgoing
  | (ticket, message) :: rest =>
      let popped :=
        { self with
          outgoing := rest
          lastHost := message.host
          taken := self.taken ++ [ticket] }
      let same := rest.head?.any fun (_, next) =>
        message.host = next.host && message.port = next.port
      if reuse && same then popped.enter true
      else if message.https then .ok (popped, some .shuttingDown)
      else popped.closeSocket.enter false

def fail (self : ClientState) (error : ErrorCode) (requests : List Request) :
    Except Fault (ClientState × Option Point) := do
  let notified ← self.notify (.failed error) requests
  notified.popFront false

/-- `client_loop::operator()`: the state and the next yield, if any. -/
def resume (self : ClientState) (requests : List Request) :
    Completion → Except Fault (ClientState × Option Point)
  | .started => self.enter false
  | .resolved (some error) _ => self.fail error requests
  | .resolved none false => self.fail .hostNotFound requests
  | .resolved none true => do
      let _ ← self.front
      .ok (self, some .connecting)
  | .connected (some error) => self.fail error requests
  | .connected none => do
      let (_, message) ← self.front
      if message.https then .ok (self, some .handshaking)
      else self.asyncWrite
  | .handshaken (some error) => self.fail error requests
  | .handshaken none => self.asyncWrite
  | .written (some error) => self.fail error requests
  | .written none => do
      let _ ← self.front
      .ok (self, some .reading)
  | .received (.error error) => self.fail error requests
  | .received (.ok response) =>
      if response.status ≠ 200 ∧ response.status ≠ 201 then
        self.fail .operationNotSupported requests
      else do
        let notified ← self.notify
          (.response self.unanswered response.body) requests
        notified.popFront response.keepAlive
  | .shutDown _ => self.closeSocket.enter false

end ClientState

/-- What the strand runs next. -/
inductive Event where
  | queueAsync (request : Request)
  /-- A loop continues; its notifier queues the requests. -/
  | resume (index : ℕ) (completion : Completion) (requests : List Request)
deriving DecidableEq, Repr

def ClientState.next (self : ClientState) : Event → Except Fault ClientState
  | .queueAsync request => .ok (self.queueAsync request)
  | .resume index completion requests =>
      if self.loops[index]? = some completion.point then do
        let (self, yielded) ← ClientState.resume
          { self with loops := self.loops.eraseIdx index } requests completion
        .ok { self with loops := self.loops ++ yielded.toList }
      else .error .notWaiting

/-! ## Each message once -/

/-- The call that a message asks for. -/
def calledFor (queued : List Message) (ticket : ℕ) : Option (ℕ × ℕ) :=
  (queued[ticket]?.bind Message.notifier).map (ticket, ·)

/-- A response answers the message whose notifier is called. -/
def Call.Answers (call : Call) : Prop :=
  ∀ written body, call.answer = .response written body →
    written = some call.ticket

/-- The queue is in order and the notifiers of `notified` were called. -/
structure Recorded (state : ClientState) (notified : List ℕ) : Prop where
  order : state.taken ++ state.outgoing.map Prod.fst =
    List.range state.queued.length
  known : ∀ ticket ∈ notified, ticket < state.queued.length
  notifiers : ∀ pending ∈ state.outgoing,
    state.queued[pending.1]?.bind Message.notifier = pending.2.notifier
  called : state.calls.map (fun call => (call.ticket, call.notifier)) =
    notified.filterMap (calledFor state.queued)
  answered : ∀ call ∈ state.calls, call.Answers

namespace Recorded

variable {self : ClientState} {notified : List ℕ}

theorem push (recorded : Recorded self notified) (message : Message) :
    Recorded (self.push message) notified := by
  obtain ⟨order, known, notifiers, called, answered⟩ := recorded
  have older {ticket : ℕ} (below : ticket < self.queued.length) :
      (self.queued ++ [message])[ticket]? = self.queued[ticket]? :=
    List.getElem?_append_left below
  constructor
  · rw [ClientState.push]
    simp only [List.map_append, List.length_append, List.map_cons,
      List.map_nil, List.length_singleton]
    rw [← List.append_assoc, order, List.range_succ]
  · intro ticket member
    have below := known ticket member
    rw [ClientState.push, List.length_append]
    omega
  · intro pending member
    rcases List.mem_append.mp member with before | added
    · have listed : pending.1 ∈ List.range self.queued.length := by
        rw [← order]
        exact List.mem_append_right _ (List.mem_map_of_mem before)
      rw [ClientState.push, older (List.mem_range.mp listed)]
      exact notifiers pending before
    · obtain rfl := List.mem_singleton.mp added
      rw [ClientState.push, List.getElem?_concat_length]
      rfl
  · rw [ClientState.push, called]
    apply List.filterMap_congr
    intro ticket member
    rw [calledFor, calledFor, older (known ticket member)]
  · exact answered

/-- The loops are no part of the record. -/
theorem of_loops {loops : List Point} (recorded : Recorded self notified) :
    Recorded { self with loops := loops } notified := by
  obtain ⟨order, known, notifiers, called, answered⟩ := recorded
  exact ⟨order, known, notifiers, called, answered⟩

theorem queueAsync (recorded : Recorded self notified) (request : Request) :
    Recorded (self.queueAsync request) notified := by
  unfold ClientState.queueAsync
  split
  · exact recorded
  · split
    · exact (recorded.push _).of_loops
    · exact recorded.push _

end Recorded

namespace ClientState

/-- What a loop at a yield relies on. -/
def Waiting (self : ClientState) : Point → Prop
  | .shuttingDown => True
  | .writing | .reading =>
      ∃ front rest, self.outgoing = front :: rest ∧
        self.unanswered = some front.1
  | _ => self.outgoing ≠ []

/-- The record at a yield, or at the end of the loop. -/
def Suspended (self : ClientState) : Option Point → Prop
  | none => Recorded self self.taken ∧ self.outgoing = []
  | some point => Recorded self self.taken ∧ self.Waiting point

/-- The messages of a notifier go behind the front message. -/
structure Extends (state next : ClientState) : Prop where
  outgoing : ∃ added, next.outgoing = state.outgoing ++ added ∧
    next.queued.length = state.queued.length + added.length
  unanswered : next.unanswered = state.unanswered
  loops : next.loops = state.loops
  taken : next.taken = state.taken

theorem queueAsync_extends {self : ClientState} (some : self.outgoing ≠ [])
    (request : Request) : self.Extends (self.queueAsync request) := by
  unfold queueAsync
  split
  · exact ⟨⟨[], by simp⟩, rfl, rfl, rfl⟩
  · rw [if_neg some]
    exact ⟨⟨[_], rfl, by simp [push]⟩, rfl, rfl, rfl⟩

theorem foldl_queueAsync {notified : List ℕ} (requests : List Request)
    {self : ClientState} (recorded : Recorded self notified)
    (some : self.outgoing ≠ []) :
    Recorded (requests.foldl queueAsync self) notified ∧
      self.Extends (requests.foldl queueAsync self) := by
  induction requests generalizing self with
  | nil => exact ⟨recorded, ⟨[], by simp⟩, rfl, rfl, rfl⟩
  | cons request requests induction =>
      obtain ⟨⟨added, longer, counted⟩, written, loops, taken⟩ :=
        queueAsync_extends some request
      have still : (self.queueAsync request).outgoing ≠ [] := by
        rw [longer]
        exact List.append_ne_nil_of_left_ne_nil some _
      obtain ⟨kept, ⟨others, behind, more⟩, same, alone, before⟩ :=
        induction (recorded.queueAsync request) still
      refine ⟨kept, ⟨added ++ others, ?_, ?_⟩, same.trans written,
        alone.trans loops, before.trans taken⟩
      · rw [List.foldl_cons, behind, longer, List.append_assoc]
      · rw [List.foldl_cons, more, counted, List.length_append, Nat.add_assoc]

private theorem front_ok {self : ClientState} {front : ℕ × Message}
    {rest : List (ℕ × Message)} (waiting : self.outgoing = front :: rest) :
    self.front = .ok front := by
  unfold ClientState.front
  rw [waiting]

theorem notify_spec {self : ClientState} {front : ℕ × Message}
    {rest : List (ℕ × Message)} (answer : Answer) (requests : List Request)
    (waiting : self.outgoing = front :: rest)
    (recorded : Recorded self self.taken)
    (answers : ∀ written body, answer = .response written body →
      written = some front.1) :
    ∃ notified, self.notify answer requests = .ok notified ∧
      Recorded notified (self.taken ++ [front.1]) ∧ self.Extends notified := by
  have first : self.queued[front.1]?.bind Message.notifier =
      front.2.notifier :=
    recorded.notifiers front (by rw [waiting]; exact List.mem_cons_self)
  have known : ∀ ticket ∈ self.taken ++ [front.1],
      ticket < self.queued.length := by
    intro ticket member
    rw [← List.mem_range, ← recorded.order, waiting]
    rcases List.mem_append.mp member with before | last
    · exact List.mem_append_left _ before
    · rw [List.mem_singleton.mp last]
      exact List.mem_append_right _ List.mem_cons_self
  rw [notify, front_ok waiting]
  simp only [bind, Except.bind]
  cases asked : front.2.notifier with
  | none =>
      refine ⟨self, rfl, ⟨recorded.order, known, recorded.notifiers, ?_,
        recorded.answered⟩, ⟨[], by simp⟩, rfl, rfl, rfl⟩
      have skipped : calledFor self.queued front.1 = none := by
        rw [calledFor, first, asked]
        rfl
      rw [recorded.called, List.filterMap_append, List.filterMap_cons, skipped]
      simp
  | some notifier =>
      have called : calledFor self.queued front.1 =
          some (front.1, notifier) := by
        rw [calledFor, first, asked]
        rfl
      have logged : Recorded { self with
          calls := self.calls ++ [⟨front.1, notifier, answer⟩] }
          (self.taken ++ [front.1]) := by
        refine ⟨recorded.order, known, recorded.notifiers, ?_, ?_⟩
        · rw [List.map_append, recorded.called, List.filterMap_append,
            List.filterMap_cons, called]
          rfl
        · intro call member
          rcases List.mem_append.mp member with before | last
          · exact recorded.answered call before
          · rw [List.mem_singleton.mp last]
            exact answers
      have some : self.outgoing ≠ [] := by
        rw [waiting]
        exact List.cons_ne_nil _ _
      obtain ⟨kept, added, written, loops, taken⟩ :=
        foldl_queueAsync requests logged some
      exact ⟨_, rfl, kept, added, written, loops, taken⟩

/-- The steps that a loop has left for its message. -/
def pointWork : Point → ℕ
  | .posted | .shuttingDown => 6
  | .resolving => 5
  | .connecting => 4
  | .handshaking => 3
  | .writing => 2
  | .reading => 1

/-- A bound on the steps of a loop, at a yield or at its end. -/
def work (self : ClientState) (yielded : Option Point) : ℕ :=
  7 * self.outgoing.length + (yielded.map pointWork).getD 0

/-- A step succeeds, keeps the record and takes work away, except for the
messages it queued. -/
def Continues (self : ClientState) (limit : ℕ)
    (result : Except Fault (ClientState × Option Point)) : Prop :=
  ∃ next yielded, result = .ok (next, yielded) ∧ next.Suspended yielded ∧
    next.loops = self.loops ∧
    next.work yielded + 13 * self.queued.length <
      limit + 13 * next.queued.length

theorem asyncWrite_continues {self : ClientState} {limit : ℕ}
    (recorded : Recorded self self.taken) (some : self.outgoing ≠ [])
    (within : 7 * self.outgoing.length + 2 < limit) :
    self.Continues limit self.asyncWrite := by
  obtain ⟨front, rest, waiting⟩ := List.exists_cons_of_ne_nil some
  obtain ⟨order, known, notifiers, called, answered⟩ := recorded
  rw [asyncWrite, waiting]
  refine ⟨_, _, rfl, ⟨⟨?_, known, ?_, called, answered⟩, _, _, rfl, rfl⟩, rfl,
    ?_⟩
  · rw [waiting] at order
    exact order
  · intro pending member
    rcases List.mem_cons.mp member with rfl | later
    · exact notifiers front (by rw [waiting]; exact List.mem_cons_self)
    · exact notifiers pending
        (by rw [waiting]; exact List.mem_cons_of_mem _ later)
  · rw [waiting] at within
    exact Nat.add_lt_add_right within _

theorem enter_continues {self : ClientState} {limit : ℕ} (reuse : Bool)
    (recorded : Recorded self self.taken)
    (within : 7 * self.outgoing.length + 5 < limit) :
    self.Continues limit (self.enter reuse) := by
  unfold enter
  split
  · rename_i empty
    refine ⟨_, _, rfl, ⟨recorded, empty⟩, rfl, ?_⟩
    show 7 * self.outgoing.length + 0 + _ < _
    omega
  · rename_i some
    split
    · exact asyncWrite_continues recorded some (by omega)
    · exact ⟨_, _, rfl, ⟨recorded, some⟩, rfl, Nat.add_lt_add_right within _⟩

private theorem closeSocket_recorded {self : ClientState} {notified : List ℕ}
    (recorded : Recorded self notified) :
    Recorded self.closeSocket notified := by
  obtain ⟨order, known, notifiers, called, answered⟩ := recorded
  exact ⟨order, known, notifiers, called, answered⟩

theorem popFront_continues {self : ClientState} {front : ℕ × Message}
    {rest : List (ℕ × Message)} (reuse : Bool)
    (waiting : self.outgoing = front :: rest)
    (recorded : Recorded self (self.taken ++ [front.1])) :
    self.Continues (7 * self.outgoing.length) (self.popFront reuse) := by
  obtain ⟨order, known, notifiers, called, answered⟩ := recorded
  have popped : Recorded { self with
      outgoing := rest
      lastHost := front.2.host
      taken := self.taken ++ [front.1] } (self.taken ++ [front.1]) := by
    refine ⟨?_, known, ?_, called, answered⟩
    · rw [← order, waiting, List.map_cons, List.append_assoc]
      rfl
    · intro pending member
      exact notifiers pending (by rw [waiting]; exact List.mem_cons_of_mem _ member)
  have shorter : 7 * rest.length + 6 < 7 * self.outgoing.length := by
    rw [waiting, List.length_cons]
    omega
  have below : 7 * rest.length + 5 < 7 * self.outgoing.length := by omega
  unfold popFront
  rw [waiting] at shorter below ⊢
  dsimp only
  split
  · exact enter_continues true popped below
  · split
    · exact ⟨_, _, rfl, ⟨popped, trivial⟩, rfl,
        Nat.add_lt_add_right shorter _⟩
    · exact enter_continues false (closeSocket_recorded popped) below

theorem notify_popFront_continues {self : ClientState} (answer : Answer)
    (requests : List Request) (reuse : Bool)
    (recorded : Recorded self self.taken) (some : self.outgoing ≠ [])
    (answers : ∀ front, self.outgoing.head? = .some front →
      ∀ written body, answer = .response written body →
        written = .some front.1) :
    self.Continues (7 * self.outgoing.length) (do
      let notified ← self.notify answer requests
      notified.popFront reuse) := by
  obtain ⟨front, rest, waiting⟩ := List.exists_cons_of_ne_nil some
  obtain ⟨notified, called, kept, ⟨added, longer, counted⟩, -, loops, taken⟩ :=
    notify_spec answer requests waiting recorded
      (answers front (by rw [waiting]; rfl))
  have first : notified.outgoing = front :: (rest ++ added) := by
    rw [longer, waiting]
    rfl
  rw [← taken] at kept
  obtain ⟨next, yielded, continued, suspended, same, less⟩ :=
    popFront_continues reuse first kept
  refine ⟨next, yielded, ?_, suspended, same.trans loops, ?_⟩
  · rw [called]
    exact continued
  · rw [longer, List.length_append] at less
    omega

theorem fail_continues {self : ClientState} {limit : ℕ} (error : ErrorCode)
    (requests : List Request) (recorded : Recorded self self.taken)
    (some : self.outgoing ≠ []) (within : 7 * self.outgoing.length ≤ limit) :
    self.Continues limit (self.fail error requests) := by
  obtain ⟨next, yielded, continued, suspended, same, less⟩ :=
    notify_popFront_continues (.failed error) requests false recorded some
      (by intro front first written body never; cases never)
  exact ⟨next, yielded, continued, suspended, same, by omega⟩

theorem Waiting.nonempty {self : ClientState} {point : Point}
    (waiting : self.Waiting point) (working : point ≠ .shuttingDown) :
    self.outgoing ≠ [] := by
  cases point with
  | shuttingDown => exact absurd rfl working
  | writing | reading =>
      obtain ⟨front, rest, outgoing, -⟩ := waiting
      rw [outgoing]
      exact List.cons_ne_nil _ _
  | posted | resolving | connecting | handshaking => exact waiting

theorem resume_continues {self : ClientState} (requests : List Request)
    (completion : Completion)
    (suspended : self.Suspended (some completion.point)) :
    self.Continues (self.work (some completion.point))
      (self.resume requests completion) := by
  obtain ⟨recorded, waiting⟩ := suspended
  have more : 7 * self.outgoing.length ≤ self.work (some completion.point) :=
    Nat.le_add_right _ _
  by_cases closing : completion.point = .shuttingDown
  · obtain ⟨error, rfl⟩ : ∃ error, completion = .shutDown error := by
      cases completion <;> simp [Completion.point] at closing ⊢
    exact enter_continues false (closeSocket_recorded recorded)
      (Nat.lt_succ_self _)
  have some := waiting.nonempty closing
  obtain ⟨front, rest, outgoing⟩ := List.exists_cons_of_ne_nil some
  have ready := front_ok outgoing
  cases completion with
  | shutDown error => exact absurd rfl closing
  | started => exact enter_continues false recorded (Nat.lt_succ_self _)
  | resolved error found =>
      cases error with
      | some error => exact fail_continues error requests recorded some more
      | none =>
          cases found with
          | false => exact fail_continues _ requests recorded some more
          | true =>
              refine ⟨self, .some .connecting, ?_, ⟨recorded, some⟩, rfl, ?_⟩
              · rw [resume, ready]
                rfl
              · exact Nat.add_lt_add_right (Nat.lt_succ_self _) _
  | connected error =>
      cases error with
      | some error => exact fail_continues error requests recorded some more
      | none =>
          rw [resume, ready]
          simp only [bind, Except.bind]
          split
          · refine ⟨self, .some .handshaking, rfl, ⟨recorded, some⟩, rfl, ?_⟩
            exact Nat.add_lt_add_right (Nat.lt_succ_self _) _
          · exact asyncWrite_continues recorded some
              (Nat.add_lt_add_left (by decide : 2 < 4) _)
  | handshaken error =>
      cases error with
      | some error => exact fail_continues error requests recorded some more
      | none => exact asyncWrite_continues recorded some (Nat.lt_succ_self _)
  | written error =>
      cases error with
      | some error => exact fail_continues error requests recorded some more
      | none =>
          refine ⟨self, .some .reading, ?_, ⟨recorded, waiting⟩, rfl, ?_⟩
          · rw [resume, ready]
            rfl
          · exact Nat.add_lt_add_right (Nat.lt_succ_self _) _
  | received result =>
      cases result with
      | error error => exact fail_continues error requests recorded some more
      | ok response =>
          rw [resume]
          split
          · exact fail_continues _ requests recorded some more
          · obtain ⟨next, yielded, continued, suspended, same, less⟩ :=
              notify_popFront_continues
                (.response self.unanswered response.body) requests
                response.keepAlive recorded some (by
                  obtain ⟨sent, others, queue, written⟩ := waiting
                  rintro first head _ _ ⟨⟩
                  rw [queue] at head
                  cases head
                  exact written)
            exact ⟨next, yielded, continued, suspended, same, by omega⟩

end ClientState

/-! ## Runs -/

namespace ClientState

/-- At most one loop, and it waits where the queue lets it. -/
def Single (self : ClientState) : Prop :=
  ∃ active, self.loops = Option.toList active ∧ self.Suspended active

/-- A message is queued while a loop waits for the TLS shutdown behind its
last message. -/
def SecondLoop (self : ClientState) : Event → Prop
  | .queueAsync request =>
      request.message ≠ none ∧ self.outgoing = [] ∧
        Point.shuttingDown ∈ self.loops
  | .resume .. => False

instance (self : ClientState) (event : Event) :
    Decidable (self.SecondLoop event) :=
  match event with
  | .queueAsync _ => inferInstanceAs (Decidable (_ ∧ _ ∧ _))
  | .resume .. => inferInstanceAs (Decidable False)

theorem Single.start (message : Message) : (start message).Single := by
  refine ⟨some .posted, rfl, ⟨rfl, ?_, ?_, rfl, ?_⟩, List.cons_ne_nil _ _⟩
  · intro ticket never
    cases never
  · intro pending member
    rw [List.mem_singleton.mp member]
    rfl
  · intro call never
    cases never

/-- A bound on the steps that all messages still need. -/
def totalWork (self : ClientState) : ℕ :=
  7 * self.outgoing.length + (self.loops.map pointWork).sum

private theorem totalWork_eq {self : ClientState} {active : Option Point}
    (loops : self.loops = active.toList) :
    self.totalWork = self.work active := by
  rw [totalWork, work, loops]
  cases active <;> simp

/-- Queueing keeps the loop that is active or posts one. -/
theorem Single.queueAsync {self : ClientState} (single : self.Single)
    (request : Request) (first : ¬ self.SecondLoop (.queueAsync request)) :
    (self.queueAsync request).Single ∧
      (self.queueAsync request).totalWork + 13 * self.queued.length ≤
        self.totalWork + 13 * (self.queueAsync request).queued.length := by
  unfold ClientState.queueAsync
  cases accepted : request.message with
  | none => exact ⟨single, Nat.le_refl _⟩
  | some message =>
      have asked : request.message ≠ none := by
        rw [accepted]
        exact Option.some_ne_none _
      obtain ⟨active, loops, suspended⟩ := single
      have pushed : (self.outgoing ++ [(self.queued.length, message)]) ≠ [] :=
        List.append_ne_nil_of_right_ne_nil _ (List.cons_ne_nil _ _)
      have longer (work : ℕ) :
          7 * (self.outgoing ++ [(self.queued.length, message)]).length +
              work + 13 * self.queued.length + 6 =
            7 * self.outgoing.length + work +
              13 * (self.queued ++ [message]).length := by
        rw [List.length_append, List.length_append, List.length_singleton,
          List.length_singleton]
        omega
      dsimp only
      split
      · rename_i empty
        cases active with
        | none =>
            refine ⟨⟨some .posted, ?_, (suspended.1.push message).of_loops,
              pushed⟩, ?_⟩
            · rw [loops]
              rfl
            · have added := longer 6
              rw [totalWork, totalWork, loops]
              simp only [push, Option.toList_none, List.nil_append,
                List.map_cons, List.map_nil, List.sum_cons, List.sum_nil,
                pointWork]
              omega
        | some point =>
            -- only a loop in its shutdown leaves the queue empty
            by_cases closing : point = .shuttingDown
            · refine absurd ⟨asked, empty, ?_⟩ first
              rw [loops, closing]
              exact List.mem_cons_self
            · exact absurd empty (suspended.2.nonempty closing)
      · rename_i some
        constructor
        · cases active with
          | none => exact absurd suspended.2 some
          | some point =>
              refine ⟨.some point, loops, suspended.1.push message, ?_⟩
              obtain ⟨-, waiting⟩ := suspended
              cases point with
              | shuttingDown => trivial
              | writing | reading =>
                  obtain ⟨front, rest, outgoing, written⟩ := waiting
                  refine ⟨front, rest ++ [(self.queued.length, message)], ?_,
                    written⟩
                  show self.outgoing ++ _ = _
                  rw [outgoing]
                  rfl
              | posted | resolving | connecting | handshaking => exact pushed
        · have added := longer (self.loops.map pointWork).sum
          rw [totalWork, totalWork]
          simp only [push]
          omega

/-- The loop that waits continues without a fault. -/
theorem Single.resume {self : ClientState} (single : self.Single) {index : ℕ}
    {completion : Completion} (requests : List Request)
    (waits : self.loops[index]? = some completion.point) :
    ∃ next, self.next (.resume index completion requests) = .ok next ∧
      next.Single ∧
      next.totalWork + 13 * self.queued.length <
        self.totalWork + 13 * next.queued.length := by
  obtain ⟨active, loops, suspended⟩ := single
  have work := totalWork_eq loops
  cases active with
  | none =>
      rw [loops] at waits
      cases waits
  | some point =>
      obtain ⟨rfl, rfl⟩ : index = 0 ∧ point = completion.point := by
        rw [loops] at waits
        cases index with
        | zero => exact ⟨rfl, Option.some_inj.mp waits⟩
        | succ index => cases waits
      have removed : self.loops.eraseIdx 0 = [] := by
        rw [loops]
        rfl
      obtain ⟨next, yielded, continued, kept, alone, less⟩ :=
        resume_continues requests completion
          (show Suspended { self with loops := self.loops.eraseIdx 0 } _ from
            ⟨suspended.1.of_loops, suspended.2⟩)
      have active : next.loops ++ yielded.toList = yielded.toList := by
        rw [alone]
        show self.loops.eraseIdx 0 ++ _ = _
        rw [removed, List.nil_append]
      refine ⟨{ next with loops := next.loops ++ yielded.toList }, ?_, ?_, ?_⟩
      · rw [ClientState.next, if_pos waits, continued]
        rfl
      · refine ⟨yielded, active, ?_⟩
        cases yielded with
        | none => exact ⟨kept.1.of_loops, kept.2⟩
        | some point => exact ⟨kept.1.of_loops, kept.2⟩
      · rw [work, totalWork_eq active]
        exact less

/-- What the client promises at every moment. -/
structure ProcessedOnce (state : ClientState) : Prop where
  /-- At most one loop is active, and one is while a message waits. -/
  single : state.loops.length ≤ 1
  active : state.outgoing ≠ [] → state.loops ≠ []
  /-- Messages leave the queue in its order. -/
  inOrder : state.taken ++ state.outgoing.map Prod.fst =
    List.range state.queued.length
  /-- The front of an empty queue is never used. -/
  neverEmpty : ∀ event, state.next event ≠ .error .emptyOutgoing
  /-- The completion that a loop waits for lets it continue. -/
  continues : ∀ (index : ℕ) (completion : Completion) (requests : List Request),
    state.loops[index]? = some completion.point →
    ∃ next, state.next (.resume index completion requests) = .ok next
  /-- Notifiers were called once for each message taken. -/
  notified : state.calls.map (fun call => (call.ticket, call.notifier)) =
    state.taken.filterMap (calledFor state.queued)
  answered : ∀ call ∈ state.calls, call.Answers

theorem Single.processedOnce {self : ClientState} (single : self.Single) :
    self.ProcessedOnce := by
  have continues (index : ℕ) (completion : Completion)
      (requests : List Request)
      (waits : self.loops[index]? = some completion.point) :
      ∃ next, self.next (.resume index completion requests) = .ok next := by
    obtain ⟨next, stepped, -, -⟩ := single.resume requests waits
    exact ⟨next, stepped⟩
  obtain ⟨active, loops, suspended⟩ := single
  have recorded : Recorded self self.taken := by
    cases active with
    | none => exact suspended.1
    | some point => exact suspended.1
  refine ⟨?_, ?_, recorded.order, ?_, continues, recorded.called,
    recorded.answered⟩
  · rw [loops]
    cases active <;> simp
  · intro some
    cases active with
    | none => exact absurd suspended.2 some
    | some point =>
        rw [loops]
        exact List.cons_ne_nil _ _
  · intro event failed
    cases event with
    | queueAsync request => cases failed
    | resume index completion requests =>
        by_cases waits : self.loops[index]? = some completion.point
        · obtain ⟨next, stepped⟩ := continues index completion requests waits
          rw [stepped] at failed
          cases failed
        · rw [ClientState.next, if_neg waits] at failed
          cases failed

end ClientState

/-- The steps of loops in a run. -/
def Event.isResume : Event → Bool
  | .queueAsync _ => false
  | .resume .. => true

/-- The steps that post no second loop. -/
def OneLoop (self : ClientState) (event : Event) (next : ClientState) : Prop :=
  ¬ self.SecondLoop event ∧ self.next event = .ok next

open ClientState in
private theorem Single.run {self final : ClientState} {events : List Event}
    (run : Run OneLoop self events final) (single : self.Single) :
    final.Single ∧
      events.countP Event.isResume + final.totalWork +
          13 * self.queued.length ≤
        self.totalWork + 13 * final.queued.length := by
  induction run with
  | nil state => exact ⟨single, by simp⟩
  | @cons state middle final event events stepped _rest induction =>
      obtain ⟨first, next⟩ := stepped
      cases event with
      | queueAsync request =>
          cases next
          obtain ⟨kept, added⟩ := single.queueAsync request first
          obtain ⟨last, counted⟩ := induction kept
          refine ⟨last, ?_⟩
          rw [List.countP_cons_of_neg Bool.false_ne_true]
          omega
      | resume index completion requests =>
          by_cases waits : state.loops[index]? = some completion.point
          · obtain ⟨other, same, kept, less⟩ := single.resume requests waits
            cases same.symm.trans next
            obtain ⟨last, counted⟩ := induction kept
            refine ⟨last, ?_⟩
            rw [List.countP_cons_of_pos rfl]
            omega
          · rw [ClientState.next, if_neg waits] at next
            cases next

/-- Each message is processed once in every run that queues no message while
the loop waits for the TLS shutdown behind its last one, and the loop takes at
most thirteen steps for each of them. -/
theorem messages_processed_once {message : Message} {final : ClientState}
    {events : List Event} (run : Run OneLoop (.start message) events final) :
    final.ProcessedOnce ∧
      events.countP Event.isResume ≤ 13 * final.queued.length := by
  obtain ⟨single, counted⟩ := Single.run run (.start message)
  refine ⟨single.processedOnce, ?_⟩
  have started : (ClientState.start message).totalWork = 13 := rfl
  have one : (ClientState.start message).queued.length = 1 := rfl
  omega

/-- A message with a notifier, over TLS. -/
private def sampleMessage : Message := ⟨[1], some 7, "host", "/", 443, true⟩

private def sampleRequest : Request :=
  ⟨some ⟨"https", "host", 0, "/"⟩, [2], some 8⟩

/-- A response that ends the connection, up to the TLS shutdown. -/
private def sampleEvents : List Event :=
  [.resume 0 .started [],
    .resume 0 (.resolved none true) [],
    .resume 0 (.connected none) [],
    .resume 0 (.handshaken none) [],
    .resume 0 (.written none) [],
    .resume 0 (.received (.ok ⟨200, "body", false⟩)) []]

/-- The state that waits for the shutdown. -/
private def sampleClosing : ClientState :=
  { outgoing := []
    lastHost := "host"
    unanswered := some 0
    loops := [.shuttingDown]
    queued := [sampleMessage]
    taken := [0]
    calls := [⟨0, 7, .response (some 0) "body"⟩] }

private theorem sample_run :
    Run OneLoop (.start sampleMessage) sampleEvents sampleClosing := by
  refine .cons ⟨id, rfl⟩ (.cons ⟨id, rfl⟩ (.cons ⟨id, rfl⟩ (.cons ⟨id, rfl⟩
    (.cons ⟨id, rfl⟩ (.cons ⟨id, rfl⟩ ?_)))))
  exact .nil _

/-- A second message waits behind the first one, and a third one comes during
the shutdown of the first one's connection. -/
private def queuedEvents : List Event :=
  [.queueAsync sampleRequest] ++ sampleEvents ++
    [.queueAsync sampleRequest,
      .resume 0 (.shutDown none) [],
      .resume 0 (.resolved none true) [],
      .resume 0 (.connected none) [],
      .resume 0 (.handshaken none) [],
      .resume 0 (.written none) [],
      .resume 0 (.received (.ok ⟨200, "second", true⟩)) [],
      .resume 0 (.written none) [],
      .resume 0 (.received (.ok ⟨200, "third", false⟩)) [],
      .resume 0 (.shutDown none) []]

/-- All three are answered and the loop has ended. -/
private def queuedAnswered : ClientState :=
  { outgoing := []
    lastHost := "host"
    unanswered := none
    loops := []
    queued := [sampleMessage, ⟨[2], some 8, "host", "/", 443, true⟩,
      ⟨[2], some 8, "host", "/", 443, true⟩]
    taken := [0, 1, 2]
    calls := [⟨0, 7, .response (some 0) "body"⟩,
      ⟨1, 8, .response (some 1) "second"⟩,
      ⟨2, 8, .response (some 2) "third"⟩] }

private theorem queued_run :
    Run OneLoop (.start sampleMessage) queuedEvents queuedAnswered := by
  -- the queue is not empty when the second and the third message come
  refine .cons ⟨by decide, rfl⟩ ?_
  refine .cons ⟨id, rfl⟩ (.cons ⟨id, rfl⟩ (.cons ⟨id, rfl⟩ (.cons ⟨id, rfl⟩
    (.cons ⟨id, rfl⟩ (.cons ⟨id, rfl⟩ ?_)))))
  refine .cons ⟨by decide, rfl⟩ ?_
  refine .cons ⟨id, rfl⟩ (.cons ⟨id, rfl⟩ (.cons ⟨id, rfl⟩ (.cons ⟨id, rfl⟩
    (.cons ⟨id, rfl⟩ (.cons ⟨id, rfl⟩ (.cons ⟨id, rfl⟩ (.cons ⟨id, rfl⟩
      (.cons ⟨id, rfl⟩ ?_))))))))
  exact .nil _

/-- Three messages, two of them queued while the loop is busy. -/
theorem queued_messages_processed :
    queuedAnswered.ProcessedOnce ∧
      queuedEvents.countP Event.isResume ≤ 13 * queuedAnswered.queued.length :=
  messages_processed_once queued_run

/-- A message that arrives during the shutdown starts a second loop. -/
theorem shutdown_starts_second_loop :
    ¬ ∀ (message : Message) (events : List Event) (final : ClientState),
      Run (fun (self : ClientState) event next => self.next event = .ok next)
        (.start message) events final →
      final.ProcessedOnce := by
  intro always
  have closing : Run (fun (self : ClientState) event next =>
      self.next event = .ok next) (.start sampleMessage) sampleEvents
      sampleClosing :=
    sample_run.imp fun _ _ _ stepped => stepped.2
  have queued := closing.append (.cons
    (rfl : sampleClosing.next (.queueAsync sampleRequest) = _) (.nil _))
  have once := always sampleMessage _ _ queued
  exact absurd once.single (by decide)

end XfoLws.Net
