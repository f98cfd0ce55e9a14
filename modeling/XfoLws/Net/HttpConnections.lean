import XfoLws.Net.HttpClient

/-!
# Connections of the HTTP client

`client_loop` keeps one socket.  The steps of the loop are those of the
client; here they also say what happens to the socket, and which message goes
over which connection.
-/

namespace XfoLws.Net

/-! ## The socket -/

structure Address where
  host : String
  port : ℕ
deriving DecidableEq, Repr

/-- What a connection is opened for. -/
structure Origin extends Address where
  https : Bool
deriving DecidableEq, Repr

def Message.address (message : Message) : Address :=
  ⟨message.host, message.port⟩

def Message.origin (message : Message) : Origin :=
  ⟨message.address, message.https⟩

/-- The TLS session of `ssl::stream`. -/
inductive Session where
  | clean
  | begun
  | done
deriving DecidableEq, Repr

/-- `sock`.  The origin is that of the message it was connected for, with the
address that was resolved. -/
structure Socket where
  opened : Option Origin
  session : Session
deriving DecidableEq, Repr

def Socket.fresh : Socket := ⟨none, .clean⟩

/-- The answered message whose connection is used again. -/
structure Reuse where
  origin : Origin
  keepAlive : Bool
deriving DecidableEq, Repr

/-- One `async_write`. -/
structure Write where
  ticket : ℕ
  origin : Origin
  socket : Socket
  previous : Option Reuse
deriving DecidableEq, Repr

/-- `client_state` with its socket.  The last two fields record the history:
the socket before each `async_connect`, and the writes. -/
structure HttpState where
  client : ClientState
  /-- What each loop asks the resolver for, should it wait for that. -/
  asked : List Address
  socket : Socket
  connects : List Socket
  writes : List Write
deriving DecidableEq, Repr

namespace HttpState

/-- The function that `queue_async` dispatches, and the loop it may post. -/
def queueAsync (self : HttpState) (request : Request) : HttpState :=
  let posts := request.message.isSome && self.client.outgoing.isEmpty
  { self with
    client := self.client.queueAsync request
    asked := if posts then self.asked ++ [⟨"", 0⟩] else self.asked }

def start (message : Message) : HttpState where
  client := .start message
  asked := [⟨"", 0⟩]
  socket := .fresh
  connects := []
  writes := []

/-! ## Steps of the loop -/

def notify (self : HttpState) (answer : Answer) (requests : List Request) :
    Except Fault HttpState := do
  let client ← self.client.notify answer requests
  .ok { self with client := client }

/-- `client_state::async_write`: over TLS, or over the layer below. -/
def asyncWrite (self : HttpState) (previous : Option Reuse) :
    Except Fault (HttpState × Option Point) := do
  let (ticket, message) ← self.client.front
  let (client, yielded) ← self.client.asyncWrite
  .ok ({ self with
    client := client
    writes := self.writes ++
      [⟨ticket, message.origin, self.socket, previous⟩] }, yielded)

/-- The head of the loop, with the connection that is used again. -/
def enter (self : HttpState) (previous : Option Reuse) :
    Except Fault (HttpState × Option Point) :=
  if self.client.outgoing = [] then .ok (self, none)
  else if previous.isSome then self.asyncWrite previous
  else .ok (self, some .resolving)

/-- Only TLS makes a new socket necessary. -/
def closeSocket (self : HttpState) (isHttps : Bool) : HttpState :=
  { self with
    client := self.client.closeSocket
    socket := if isHttps then .fresh else { self.socket with opened := none } }

def popFront (self : HttpState) (reuse : Bool) :
    Except Fault (HttpState × Option Point) :=
  match self.client.outgoing with
  | [] => .error .emptyOutgoing
  | (ticket, message) :: rest =>
      let popped :=
        { self with
          client :=
            { self.client with
              outgoing := rest
              lastHost := message.host
              taken := self.client.taken ++ [ticket] } }
      let same := rest.head?.any fun (_, next) =>
        message.host = next.host && message.port = next.port
      if reuse && same then popped.enter (some ⟨message.origin, reuse⟩)
      else if message.https then .ok (popped, some .shuttingDown)
      else (popped.closeSocket false).enter none

def fail (self : HttpState) (error : ErrorCode) (requests : List Request) :
    Except Fault (HttpState × Option Point) := do
  let notified ← self.notify (.failed error) requests
  notified.popFront false

/-- `async_connect` to the endpoint that was found. -/
def connect (self : HttpState) (query : Address) (message : Message) :
    HttpState :=
  { self with
    socket := { self.socket with opened := some ⟨query, message.https⟩ }
    connects := self.connects ++ [self.socket] }

def setSession (self : HttpState) (session : Session) : HttpState :=
  { self with socket := { self.socket with session := session } }

/-- `client_loop::operator()`; the query is what the loop asked the resolver
for. -/
def resume (self : HttpState) (query : Address) (requests : List Request) :
    Completion → Except Fault (HttpState × Option Point)
  | .started => self.enter none
  | .resolved (some error) _ => self.fail error requests
  | .resolved none false => self.fail .hostNotFound requests
  | .resolved none true => do
      let (_, message) ← self.client.front
      .ok (self.connect query message, some .connecting)
  | .connected (some error) => self.fail error requests
  | .connected none => do
      let (_, message) ← self.client.front
      if message.https then .ok (self.setSession .begun, some .handshaking)
      else self.asyncWrite none
  | .handshaken (some error) => self.fail error requests
  | .handshaken none => (self.setSession .done).asyncWrite none
  | .written (some error) => self.fail error requests
  | .written none => do
      let _ ← self.client.front
      .ok (self, some .reading)
  | .received (.error error) => self.fail error requests
  | .received (.ok response) =>
      if response.status ≠ 200 ∧ response.status ≠ 201 then
        self.fail .operationNotSupported requests
      else do
        let notified ← self.notify
          (.response self.client.unanswered response.body) requests
        notified.popFront response.keepAlive
  | .shutDown _ => (self.closeSocket true).enter none

/-- What the loop asks the resolver for. -/
def query (self : HttpState) : Address :=
  match self.client.outgoing with
  | [] => ⟨"", 0⟩
  | (_, message) :: _ => message.address

/-- Without a loop that continues. -/
def detach (self : HttpState) (index : ℕ) : HttpState :=
  { self with
    client :=
      { self.client with loops := self.client.loops.eraseIdx index }
    asked := self.asked.eraseIdx index }

/-- With the loop at its next yield, if any. -/
def attach (self : HttpState) (others : List Address)
    (yielded : Option Point) : HttpState :=
  { self with
    client := { self.client with loops := self.client.loops ++ yielded.toList }
    asked := others ++ yielded.toList.map fun _ => self.query }

def next (self : HttpState) : Event → Except Fault HttpState
  | .queueAsync request => .ok (self.queueAsync request)
  | .resume index completion requests =>
      match self.client.loops[index]?, self.asked[index]? with
      | some point, some query =>
          if point = completion.point then do
            let (next, yielded) ←
              (self.detach index).resume query requests completion
            .ok (next.attach (self.asked.eraseIdx index) yielded)
          else .error .notWaiting
      | _, _ => .error .notWaiting

end HttpState

/-! ## The client below -/

namespace HttpState

/-- Without the socket. -/
def forget (result : HttpState × Option Point) : ClientState × Option Point :=
  (result.1.client, result.2)

theorem notify_ok {self notified : HttpState} {answer : Answer}
    {requests : List Request}
    (called : self.notify answer requests = .ok notified) :
    ∃ client, self.client.notify answer requests = .ok client ∧
      { self with client := client } = notified := by
  obtain ⟨client, below, same⟩ := Outcome.bind_eq_ok.mp called
  exact ⟨client, below, Except.ok.inj same⟩

theorem notify_client (self : HttpState) (answer : Answer)
    (requests : List Request) :
    HttpState.client <$> self.notify answer requests =
      self.client.notify answer requests := by
  unfold notify
  cases self.client.notify answer requests <;> rfl

theorem asyncWrite_client (self : HttpState) (previous : Option Reuse) :
    forget <$> self.asyncWrite previous = self.client.asyncWrite := by
  unfold asyncWrite ClientState.asyncWrite ClientState.front
  cases self.client.outgoing <;> rfl

theorem enter_client (self : HttpState) (previous : Option Reuse) :
    forget <$> self.enter previous = self.client.enter previous.isSome := by
  unfold enter ClientState.enter
  split
  · rfl
  · split
    · exact self.asyncWrite_client previous
    · rfl

theorem popFront_client (self : HttpState) (reuse : Bool) :
    forget <$> self.popFront reuse = self.client.popFront reuse := by
  unfold popFront ClientState.popFront
  cases self.client.outgoing with
  | nil => rfl
  | cons front rest =>
      dsimp only
      split
      · exact enter_client _ _
      · split
        · rfl
        · exact enter_client _ _

theorem notify_popFront_client (self : HttpState) (answer : Answer)
    (requests : List Request) (reuse : Bool) :
    forget <$> (do
      let notified ← self.notify answer requests
      notified.popFront reuse) = (do
      let notified ← self.client.notify answer requests
      notified.popFront reuse) := by
  rw [← notify_client]
  cases self.notify answer requests with
  | error fault => rfl
  | ok notified => exact notified.popFront_client reuse

theorem resume_client (self : HttpState) (query : Address)
    (requests : List Request) (completion : Completion) :
    forget <$> self.resume query requests completion =
      self.client.resume requests completion := by
  cases completion with
  | started => exact enter_client _ _
  | resolved error found =>
      cases error with
      | some error => exact notify_popFront_client _ _ _ _
      | none =>
          cases found with
          | false => exact notify_popFront_client _ _ _ _
          | true =>
              rw [resume, ClientState.resume]
              cases self.client.front <;> rfl
  | connected error =>
      cases error with
      | some error => exact notify_popFront_client _ _ _ _
      | none =>
          rw [resume, ClientState.resume]
          cases self.client.front with
          | error fault => rfl
          | ok front =>
              simp only [bind, Except.bind]
              split
              · rfl
              · exact asyncWrite_client _ _
  | handshaken error =>
      cases error with
      | some error => exact notify_popFront_client _ _ _ _
      | none => exact asyncWrite_client _ _
  | written error =>
      cases error with
      | some error => exact notify_popFront_client _ _ _ _
      | none =>
          rw [resume, ClientState.resume]
          cases self.client.front <;> rfl
  | received result =>
      cases result with
      | error error => exact notify_popFront_client _ _ _ _
      | ok response =>
          rw [resume, ClientState.resume]
          split
          · exact notify_popFront_client _ _ _ _
          · exact notify_popFront_client _ _ _ _
  | shutDown error => exact enter_client _ _

theorem next_resume {self next : HttpState} {index : ℕ}
    {completion : Completion} {requests : List Request}
    (stepped : self.next (.resume index completion requests) = .ok next) :
    ∃ query ended yielded,
      self.client.loops[index]? = some completion.point ∧
        self.asked[index]? = some query ∧
        (self.detach index).resume query requests completion =
          .ok (ended, yielded) ∧
        next = ended.attach (self.asked.eraseIdx index) yielded := by
  rw [HttpState.next] at stepped
  split at stepped
  · rename_i point query waits asked
    split at stepped
    · rename_i same
      subst same
      obtain ⟨⟨ended, yielded⟩, resumed, attached⟩ :=
        Outcome.bind_eq_ok.mp stepped
      cases attached
      exact ⟨query, ended, yielded, waits, asked, resumed, rfl⟩
    · cases stepped
  · cases stepped

theorem next_client {self next : HttpState} {event : Event}
    (stepped : self.next event = .ok next) :
    self.client.next event = .ok next.client := by
  cases event with
  | queueAsync request =>
      cases stepped
      rfl
  | resume index completion requests =>
      obtain ⟨query, ended, yielded, waits, -, resumed, rfl⟩ :=
        next_resume stepped
      have below : forget <$> (self.detach index).resume query requests
          completion = .ok (ended.client, yielded) :=
        congrArg (forget <$> ·) resumed
      rw [resume_client] at below
      rw [ClientState.next, if_pos waits]
      exact Outcome.bind_eq_ok.mpr ⟨_, below, rfl⟩

end HttpState

/-! ## The queue behind the front message -/

namespace ClientState

/-- The queue knows where its messages go. -/
def Origins (self : ClientState) : Prop :=
  ∀ pending ∈ self.outgoing,
    self.queued[pending.1]?.map Message.origin = some pending.2.origin

/-- Only messages were queued. -/
structure Queues (state next : ClientState) (messages : List Message) : Prop
    where
  queued : next.queued = state.queued ++ messages
  outgoing : ∃ added, next.outgoing = state.outgoing ++ added ∧
    added.map Prod.snd = messages
  origins : state.Origins → next.Origins

private theorem getElem?_map_append {queued : List Message} {ticket : ℕ}
    {origin : Origin} (messages : List Message)
    (known : queued[ticket]?.map Message.origin = some origin) :
    (queued ++ messages)[ticket]?.map Message.origin = some origin := by
  obtain ⟨message, found, -⟩ := Option.map_eq_some_iff.mp known
  obtain ⟨below, -⟩ := List.getElem?_eq_some_iff.mp found
  rw [List.getElem?_append_left below, known]

theorem Queues.refl (self : ClientState) : self.Queues self [] :=
  ⟨(List.append_nil _).symm, ⟨[], (List.append_nil _).symm, rfl⟩, id⟩

theorem Queues.trans {first second third : ClientState}
    {before after : List Message} (left : first.Queues second before)
    (right : second.Queues third after) :
    first.Queues third (before ++ after) := by
  obtain ⟨added, outgoing, messages⟩ := left.outgoing
  obtain ⟨others, behind, more⟩ := right.outgoing
  refine ⟨?_, ⟨added ++ others, ?_, ?_⟩, right.origins ∘ left.origins⟩
  · rw [right.queued, left.queued, List.append_assoc]
  · rw [behind, outgoing, List.append_assoc]
  · rw [List.map_append, messages, more]

theorem push_queues (self : ClientState) (message : Message) :
    self.Queues (self.push message) [message] := by
  refine ⟨rfl, ⟨[_], rfl, rfl⟩, ?_⟩
  intro origins pending member
  rcases List.mem_append.mp member with before | added
  · exact getElem?_map_append _ (origins pending before)
  · obtain rfl := List.mem_singleton.mp added
    rw [push, List.getElem?_concat_length]
    rfl

theorem queueAsync_queues (self : ClientState) (request : Request) :
    self.Queues (self.queueAsync request) request.message.toList := by
  unfold queueAsync
  cases request.message with
  | none => exact .refl self
  | some message =>
      have pushed := self.push_queues message
      dsimp only
      split
      · exact ⟨pushed.queued, pushed.outgoing, pushed.origins⟩
      · exact pushed

theorem foldl_queues (requests : List Request) (self : ClientState) :
    self.Queues (requests.foldl queueAsync self)
      (requests.filterMap Request.message) := by
  induction requests generalizing self with
  | nil => exact .refl self
  | cons request requests induction =>
      have both := (self.queueAsync_queues request).trans
        (induction (self.queueAsync request))
      have listed : (request :: requests).filterMap Request.message =
          request.message.toList ++ requests.filterMap Request.message := by
        rw [List.filterMap_cons]
        cases request.message <;> rfl
      rw [listed]
      exact both

/-- The messages that come from the notifier of a message. -/
def answering (message : Message) (requests : List Request) : List Message :=
  if message.notifier.isSome then requests.filterMap Request.message else []

theorem notify_queues {self notified : ClientState} {front : ℕ × Message}
    {rest : List (ℕ × Message)} {answer : Answer} {requests : List Request}
    (waiting : self.outgoing = front :: rest)
    (called : self.notify answer requests = .ok notified) :
    self.Queues notified (answering front.2 requests) := by
  have ready : self.front = .ok front := by
    rw [ClientState.front, waiting]
  rw [notify, ready] at called
  simp only [bind, Except.bind] at called
  rw [answering]
  cases asked : front.2.notifier with
  | none =>
      rw [asked] at called
      cases called
      exact .refl self
  | some notifier =>
      rw [asked] at called
      cases called
      obtain ⟨queued, outgoing, origins⟩ := foldl_queues requests
        { self with calls := self.calls ++ [⟨front.1, notifier, answer⟩] }
      rw [Option.isSome_some, if_pos rfl]
      exact ⟨queued, outgoing, origins⟩

end ClientState

/-! ## Connections that match -/

/-- A message goes over a connection of its own, or over that of a message
for the same origin whose response allowed it. -/
structure Write.Matches (write : Write) (queued : List Message) : Prop where
  message : queued[write.ticket]?.map Message.origin = some write.origin
  opened : write.socket.opened = some write.origin
  handshake : write.socket.session = .done ↔ write.origin.https = true
  reused : ∀ reuse, write.previous = some reuse →
    reuse.origin = write.origin ∧ reuse.keepAlive = true

namespace HttpState

/-- Every write matches its connection, and every connection was new. -/
structure Matched (state : HttpState) : Prop where
  writes : ∀ write ∈ state.writes, write.Matches state.client.queued
  connects : ∀ socket ∈ state.connects, socket = .fresh

end HttpState

/-- The socket at a yield of the loop, for the origin of the front message. -/
def Socket.Serves (socket : Socket) (origin : Origin) : Point → Prop
  | .posted | .resolving => socket = .fresh
  | .connecting => socket = ⟨some origin, .clean⟩
  | .handshaking => origin.https = true ∧ socket = ⟨some origin, .begun⟩
  | .writing | .reading =>
      socket = ⟨some origin, if origin.https then .done else .clean⟩
  | .shuttingDown => True

namespace HttpState

/-- The socket at a yield, or at the end of the loop. -/
def Attached (self : HttpState) : Option Point → Prop
  | none => self.socket = .fresh
  | some point => ∀ front ∈ self.client.outgoing.head?,
      self.socket.Serves front.2.origin point

structure Sound (state : HttpState) (yielded : Option Point) : Prop where
  origins : state.client.Origins
  matched : state.Matched
  attached : state.Attached yielded

/-- A step that succeeds ends soundly. -/
def Upholds (result : Except Fault (HttpState × Option Point)) : Prop :=
  ∀ next yielded, result = .ok (next, yielded) → next.Sound yielded

theorem attached_of_front {self : HttpState} {front : ℕ × Message}
    {rest : List (ℕ × Message)} {point : Point}
    (waiting : self.client.outgoing = front :: rest)
    (serves : self.socket.Serves front.2.origin point) :
    self.Attached (some point) := by
  intro first member
  rw [waiting] at member
  cases member
  exact serves

theorem Matched.queued {self next : HttpState} {messages : List Message}
    (matched : self.Matched) (queues : self.client.Queues next.client messages)
    (writes : next.writes = self.writes)
    (connects : next.connects = self.connects) : next.Matched := by
  constructor
  · intro write member
    rw [writes] at member
    obtain ⟨message, opened, handshake, reused⟩ := matched.writes write member
    refine ⟨?_, opened, handshake, reused⟩
    rw [queues.queued]
    exact ClientState.getElem?_map_append messages message
  · rw [connects]
    exact matched.connects

theorem no_reuse {kept : Reuse → Prop} : ∀ reuse, none = some reuse → kept reuse :=
  nofun

/-- The front message goes over the socket that serves it. -/
theorem asyncWrite_upholds {self : HttpState} {front : ℕ × Message}
    {rest : List (ℕ × Message)} {previous : Option Reuse}
    (waiting : self.client.outgoing = front :: rest)
    (origins : self.client.Origins) (matched : self.Matched)
    (serves : self.socket.Serves front.2.origin .writing)
    (reused : ∀ reuse, previous = some reuse →
      reuse.origin = front.2.origin ∧ reuse.keepAlive = true) :
    Upholds (self.asyncWrite previous) := by
  intro next yielded written
  have known := origins front (by rw [waiting]; exact List.mem_cons_self)
  simp only [asyncWrite, ClientState.front, ClientState.asyncWrite, waiting,
    bind, Except.bind] at written
  cases written
  refine ⟨?_, ⟨?_, matched.connects⟩, ?_⟩
  · intro pending member
    rcases List.mem_cons.mp member with rfl | later
    · exact known
    · exact origins pending (by rw [waiting]; exact List.mem_cons_of_mem _ later)
  · intro write member
    rcases List.mem_append.mp member with before | last
    · exact matched.writes write before
    · rw [List.mem_singleton.mp last]
      refine ⟨known, ?_, ?_, reused⟩
      · rw [serves]
      · rw [serves]
        cases front.2.origin.https <;> simp
  · rintro first ⟨⟩
    exact serves

theorem enter_upholds {self : HttpState} {previous : Option Reuse}
    (origins : self.client.Origins) (matched : self.Matched)
    (fresh : previous = none → self.socket = .fresh)
    (reused : ∀ reuse, previous = some reuse →
      ∃ front rest, self.client.outgoing = front :: rest ∧
        self.socket.Serves front.2.origin .writing ∧
        reuse.origin = front.2.origin ∧ reuse.keepAlive = true) :
    Upholds (self.enter previous) := by
  unfold enter
  split
  · rename_i empty
    rintro next yielded ⟨⟩
    refine ⟨origins, matched, ?_⟩
    cases previous with
    | none => exact fresh rfl
    | some reuse =>
        obtain ⟨front, rest, waiting, -⟩ := reused reuse rfl
        rw [empty] at waiting
        cases waiting
  · cases previous with
    | none =>
        rintro next yielded ⟨⟩
        exact ⟨origins, matched, fun front _ => fresh rfl⟩
    | some reuse =>
        obtain ⟨front, rest, waiting, serves, same⟩ := reused reuse rfl
        apply asyncWrite_upholds waiting origins matched serves
        rintro other ⟨⟩
        exact same

theorem closeSocket_fresh (self : HttpState) {https : Bool}
    (clean : https = false → self.socket.session = .clean) :
    (self.closeSocket https).socket = .fresh := by
  cases https with
  | true => rfl
  | false =>
      show (⟨none, self.socket.session⟩ : Socket) = _
      rw [clean rfl]
      rfl

/-- A connection is used again for the same origin only. -/
theorem popFront_upholds {self : HttpState} {front : ℕ × Message}
    {rest : List (ℕ × Message)} {reuse : Bool}
    (waiting : self.client.outgoing = front :: rest)
    (origins : self.client.Origins) (matched : self.Matched)
    (clean : front.2.https = false → self.socket.session = .clean)
    (serves : reuse = true → self.socket.Serves front.2.origin .writing)
    (scheme : reuse = true → ∀ next ∈ rest.head?,
      next.2.address = front.2.address → next.2.https = front.2.https) :
    Upholds (self.popFront reuse) := by
  have later : ∀ pending ∈ rest,
      self.client.queued[pending.1]?.map Message.origin =
        some pending.2.origin := by
    intro pending member
    exact origins pending (by rw [waiting]; exact List.mem_cons_of_mem _ member)
  rw [popFront, waiting]
  dsimp only
  split
  · rename_i both
    obtain ⟨again, same⟩ := (Bool.and_eq_true_iff).mp both
    obtain ⟨next, first, equal⟩ := (Option.any_eq_true _ _).mp same
    obtain ⟨host, port⟩ : front.2.host = next.2.host ∧
        front.2.port = next.2.port := by simpa using equal
    have address : next.2.address = front.2.address := by
      rw [Message.address, Message.address, host, port]
    have origin : next.2.origin = front.2.origin := by
      rw [Message.origin, Message.origin, address, scheme again next first address]
    obtain ⟨others, waits⟩ : ∃ others, rest = next :: others :=
      List.head?_eq_some_iff.mp first
    refine enter_upholds later ⟨matched.writes, matched.connects⟩ nofun ?_
    rintro _ ⟨⟩
    refine ⟨next, others, waits, ?_, origin.symm, again⟩
    rw [origin]
    exact serves again
  · split
    · rintro next yielded ⟨⟩
      exact ⟨later, ⟨matched.writes, matched.connects⟩, fun _ _ => trivial⟩
    · rename_i http
      refine enter_upholds later ⟨matched.writes, matched.connects⟩ ?_ ?_
      · intro _
        exact closeSocket_fresh _ fun _ =>
          clean (Bool.eq_false_of_not_eq_true http)
      · rintro reuse ⟨⟩

/-- The message behind the front one, after those of its notifier, keeps the
scheme if it keeps the host and the port. -/
def SameScheme (front : Message) (rest : List Message)
    (requests : List Request) : Prop :=
  ∀ next ∈ (rest ++ ClientState.answering front requests).head?,
    next.address = front.address → next.https = front.https

theorem notify_popFront_upholds {self : HttpState} {front : ℕ × Message}
    {rest : List (ℕ × Message)} (answer : Answer) (requests : List Request)
    {reuse : Bool} (waiting : self.client.outgoing = front :: rest)
    (origins : self.client.Origins) (matched : self.Matched)
    (clean : front.2.https = false → self.socket.session = .clean)
    (serves : reuse = true → self.socket.Serves front.2.origin .writing)
    (scheme : reuse = true →
      SameScheme front.2 (rest.map Prod.snd) requests) :
    Upholds (do
      let notified ← self.notify answer requests
      notified.popFront reuse) := by
  intro next yielded stepped
  obtain ⟨notified, called, popped⟩ := Outcome.bind_eq_ok.mp stepped
  obtain ⟨client, below, rfl⟩ := notify_ok called
  have queues := ClientState.notify_queues waiting below
  obtain ⟨added, longer, messages⟩ := queues.outgoing
  have first : client.outgoing = front :: (rest ++ added) := by
    rw [longer, waiting]
    rfl
  have kept : Matched { self with client := client } :=
    matched.queued queues rfl rfl
  refine popFront_upholds first (queues.origins origins) kept clean serves ?_
    next yielded popped
  intro again following member
  apply scheme again following.2
  rw [← messages, ← List.map_append, List.head?_map]
  exact Option.mem_map_of_mem Prod.snd member

theorem fail_upholds {self : HttpState} {front : ℕ × Message}
    {rest : List (ℕ × Message)} (error : ErrorCode) (requests : List Request)
    (waiting : self.client.outgoing = front :: rest)
    (origins : self.client.Origins) (matched : self.Matched)
    (clean : front.2.https = false → self.socket.session = .clean) :
    Upholds (self.fail error requests) :=
  notify_popFront_upholds _ requests waiting origins matched clean nofun nofun

end HttpState

/-- A response lets the loop use its connection again for a message to the
same host and port over the other scheme. -/
def ClientState.MixedReuse (self : ClientState) : Event → Prop
  | .resume _ (.received (.ok response)) requests =>
      (response.status = 200 ∨ response.status = 201) ∧
        response.keepAlive = true ∧
        ∃ front rest, self.outgoing = front :: rest ∧
          ¬ HttpState.SameScheme front.2 (rest.map Prod.snd) requests
  | _ => False

namespace HttpState

/-- A socket that serves a message in the clear has no session. -/
theorem serves_clean {socket : Socket} {origin : Origin} {point : Point}
    (serves : socket.Serves origin point) (working : point ≠ .shuttingDown)
    (http : origin.https = false) : socket.session = .clean := by
  cases point with
  | shuttingDown => exact absurd rfl working
  | handshaking =>
      obtain ⟨https, -⟩ := serves
      rw [http] at https
      cases https
  | posted | resolving =>
      rw [serves]
      rfl
  | connecting => rw [serves]
  | writing | reading =>
      rw [serves, if_neg (by rw [http]; exact Bool.false_ne_true)]

theorem connect_sound {self : HttpState} {query : Address}
    {front : ℕ × Message} {rest : List (ℕ × Message)}
    (waiting : self.client.outgoing = front :: rest)
    (origins : self.client.Origins) (matched : self.Matched)
    (fresh : self.socket = .fresh) (address : query = front.2.address) :
    (self.connect query front.2).Sound (some .connecting) := by
  refine ⟨origins, ⟨matched.writes, ?_⟩, ?_⟩
  · intro socket member
    rcases List.mem_append.mp member with before | last
    · exact matched.connects socket before
    · rw [List.mem_singleton.mp last, fresh]
  · refine attached_of_front waiting ?_
    show (⟨some ⟨query, front.2.https⟩, self.socket.session⟩ : Socket) = _
    rw [fresh, address]
    rfl

/-- A loop that continues from its yield keeps its messages on connections of
their own. -/
theorem resume_upholds {self : HttpState} {query : Address} {index : ℕ}
    {requests : List Request} {completion : Completion}
    (suspended : self.client.Suspended (some completion.point))
    (sound : self.Sound (some completion.point))
    (asked : completion.point = .resolving → query = self.query)
    (scheme : ¬ self.client.MixedReuse (.resume index completion requests)) :
    Upholds (self.resume query requests completion) := by
  obtain ⟨origins, matched, attached⟩ := sound
  by_cases closing : completion.point = .shuttingDown
  · obtain ⟨error, rfl⟩ : ∃ error, completion = .shutDown error := by
      cases completion <;> simp [Completion.point] at closing ⊢
    have kept : (self.closeSocket true).Matched :=
      ⟨matched.writes, matched.connects⟩
    exact enter_upholds origins kept (fun _ => rfl) no_reuse
  obtain ⟨-, queued⟩ := suspended
  obtain ⟨front, rest, waiting⟩ :=
    List.exists_cons_of_ne_nil (ClientState.Waiting.nonempty queued closing)
  have serves : self.socket.Serves front.2.origin completion.point :=
    attached front (by rw [waiting]; rfl)
  have clean (http : front.2.https = false) := serves_clean serves closing http
  have ready : self.client.front = .ok front := by
    rw [ClientState.front, waiting]
  have failing (error : ErrorCode) : Upholds (self.fail error requests) :=
    fail_upholds error requests waiting origins matched clean
  cases completion with
  | shutDown error => exact absurd rfl closing
  | started => exact enter_upholds origins matched (fun _ => serves) no_reuse
  | resolved error found =>
      cases error with
      | some error => exact failing error
      | none =>
          cases found with
          | false => exact failing _
          | true =>
              have address : query = front.2.address := by
                rw [asked rfl, HttpState.query, waiting]
              rw [resume, ready]
              rintro next yielded ⟨⟩
              exact connect_sound waiting origins matched serves address
  | connected error =>
      cases error with
      | some error => exact failing error
      | none =>
          rw [resume, ready]
          simp only [bind, Except.bind]
          split
          · rename_i https
            rintro next yielded ⟨⟩
            refine ⟨origins, ⟨matched.writes, matched.connects⟩,
              attached_of_front waiting ⟨https, ?_⟩⟩
            show (⟨self.socket.opened, .begun⟩ : Socket) = _
            rw [serves]
          · rename_i http
            refine asyncWrite_upholds waiting origins matched ?_ no_reuse
            show self.socket = ⟨_, if front.2.https then _ else _⟩
            rw [serves, if_neg http]
  | handshaken error =>
      cases error with
      | some error => exact failing error
      | none =>
          obtain ⟨https, begun⟩ := serves
          refine asyncWrite_upholds waiting origins
            ⟨matched.writes, matched.connects⟩ ?_ no_reuse
          show (⟨self.socket.opened, .done⟩ : Socket) = _
          rw [begun, if_pos https]
  | written error =>
      cases error with
      | some error => exact failing error
      | none =>
          rw [resume, ready]
          rintro next yielded ⟨⟩
          exact ⟨origins, matched, attached⟩
  | received result =>
      cases result with
      | error error => exact failing error
      | ok response =>
          rw [resume]
          split
          · exact failing _
          · rename_i accepted
            refine notify_popFront_upholds _ requests waiting origins matched
              clean (fun _ => serves) ?_
            intro again
            by_contra mixed
            refine scheme ⟨?_, again, front, rest, waiting, mixed⟩
            by_contra other
            exact accepted (not_or.mp other)

/-! ## Runs -/

/-- What holds between the steps of the strand, with at most one loop. -/
structure Settled (state : HttpState) : Prop where
  single : state.client.Single
  sound : state.Sound state.client.loops.head?
  each : state.asked.length = state.client.loops.length
  asked : state.client.loops.head? = some .resolving →
    state.asked.head? = some state.query

theorem Settled.start (message : Message) : (start message).Settled := by
  refine ⟨.start message, ⟨?_, ⟨nofun, nofun⟩, fun _ _ => rfl⟩, rfl, nofun⟩
  intro pending member
  rw [List.mem_singleton.mp member]
  rfl

theorem queueAsync_none {self : HttpState} {request : Request}
    (rejected : request.message = none) : self.queueAsync request = self := by
  rw [queueAsync, ClientState.queueAsync, rejected]
  rfl

theorem Settled.queueAsync {self : HttpState} (settled : self.Settled)
    (request : Request)
    (first : ¬ self.client.SecondLoop (.queueAsync request)) :
    (self.queueAsync request).Settled := by
  cases accepted : request.message with
  | none =>
      rw [queueAsync_none accepted]
      exact settled
  | some message =>
      have single := (settled.single.queueAsync request first).1
      obtain ⟨⟨active, loops, suspended⟩, ⟨origins, matched, attached⟩, each,
        asked⟩ := settled
      have queues := self.client.queueAsync_queues request
      have kept : (self.queueAsync request).Matched :=
        matched.queued queues rfl rfl
      rw [loops, Option.head?_toList] at attached asked
      by_cases empty : self.client.outgoing = []
      · have posted : (self.queueAsync request).client.loops =
            self.client.loops ++ [.posted] := by
          rw [HttpState.queueAsync, ClientState.queueAsync, accepted]
          dsimp only
          rw [if_pos empty]
        cases active with
        | none =>
            have own : (self.queueAsync request).client.loops.head? =
                some .posted := by
              rw [posted, loops]
              rfl
            refine ⟨single, ⟨queues.origins origins, kept, ?_⟩, ?_, ?_⟩
            · rw [own]
              exact fun _ _ => attached
            · rw [posted, HttpState.queueAsync]
              dsimp only
              rw [accepted, empty]
              simp [each]
            · rw [own]
              exact nofun
        | some point =>
            by_cases closing : point = .shuttingDown
            · refine absurd ⟨?_, empty, ?_⟩ first
              · rw [accepted]
                exact Option.some_ne_none _
              · rw [loops, closing]
                exact List.mem_cons_self
            · exact absurd empty
                (ClientState.Waiting.nonempty suspended.2 closing)
      · obtain ⟨front, rest, waiting⟩ := List.exists_cons_of_ne_nil empty
        have same : (self.queueAsync request).client.loops =
            self.client.loops := by
          rw [HttpState.queueAsync, ClientState.queueAsync, accepted]
          dsimp only
          rw [if_neg empty]
          rfl
        obtain ⟨added, longer, -⟩ := queues.outgoing
        have behind : (self.queueAsync request).client.outgoing =
            front :: (rest ++ added) := by
          rw [HttpState.queueAsync, longer, waiting]
          rfl
        have unasked : (self.queueAsync request).asked = self.asked := by
          rw [HttpState.queueAsync]
          dsimp only
          rw [waiting, List.isEmpty_cons, Bool.and_false,
            if_neg Bool.false_ne_true]
        refine ⟨single, ⟨queues.origins origins, kept, ?_⟩, ?_, ?_⟩
        · rw [same, loops, Option.head?_toList]
          cases active with
          | none => exact attached
          | some point =>
              exact attached_of_front behind
                (attached front (by rw [waiting]; rfl))
        · rw [unasked, same, each]
        · rw [same, loops, Option.head?_toList]
          intro resolving
          rw [query, waiting] at asked
          rw [query, behind, unasked]
          exact asked resolving

theorem Settled.resume {self next : HttpState} (settled : self.Settled)
    {index : ℕ} {completion : Completion} {requests : List Request}
    (scheme : ¬ self.client.MixedReuse (.resume index completion requests))
    (stepped : self.next (.resume index completion requests) = .ok next) :
    next.Settled := by
  have below := next_client stepped
  obtain ⟨query, ended, yielded, waits, known, resumed, rfl⟩ :=
    next_resume stepped
  obtain ⟨other, continued, single, -⟩ :=
    settled.single.resume requests waits
  obtain rfl := Except.ok.inj (continued.symm.trans below)
  obtain ⟨⟨active, loops, suspended⟩, ⟨origins, matched, attached⟩, each,
    asked⟩ := settled
  obtain ⟨rfl, rfl⟩ : index = 0 ∧ active = some completion.point := by
    rw [loops] at waits
    cases active with
    | none => cases waits
    | some point =>
        cases index with
        | zero => exact ⟨rfl, waits⟩
        | succ index => cases waits
  have others : self.asked.eraseIdx 0 = [] := by
    rw [← List.length_eq_zero_iff, List.length_eraseIdx_of_lt, each, loops]
    · rfl
    · rw [each, loops]
      exact Nat.zero_lt_one
  rw [loops, Option.head?_toList] at attached asked
  have waiting : (self.detach 0).client.Suspended (some completion.point) :=
    ⟨suspended.1.of_loops, suspended.2⟩
  -- the step leaves the other loops alone, and there are none
  obtain ⟨client, _, same, -, alone, -⟩ :=
    ClientState.resume_continues requests completion waiting
  have forgotten : forget <$> (self.detach 0).resume query requests completion =
      .ok (ended.client, yielded) := congrArg (forget <$> ·) resumed
  rw [resume_client, same] at forgotten
  cases forgotten
  have empty : ended.client.loops = [] := by
    rw [alone]
    show self.client.loops.eraseIdx 0 = []
    rw [loops]
    rfl
  have sound : ended.Sound yielded := by
    refine resume_upholds waiting
      ⟨origins, ⟨matched.writes, matched.connects⟩, attached⟩ ?_ scheme
      ended yielded resumed
    intro resolving
    have first := asked (congrArg some resolving)
    rw [List.head?_eq_getElem?, known] at first
    exact Option.some_inj.mp first
  have active : (ended.attach (self.asked.eraseIdx 0) yielded).client.loops =
      yielded.toList := by
    rw [attach, empty, List.nil_append]
  refine ⟨single, ?_, ?_, ?_⟩
  · rw [active, Option.head?_toList]
    refine ⟨sound.origins, ⟨sound.matched.writes, sound.matched.connects⟩, ?_⟩
    cases yielded with
    | none => exact sound.attached
    | some point => exact sound.attached
  · rw [active, attach, others, List.nil_append, List.length_map]
  · rw [active, attach, others, List.nil_append, Option.head?_toList]
    rintro rfl
    rfl

theorem popFront_reuses {self ended : HttpState} {yielded : Option Point}
    {front next : ℕ × Message} {rest : List (ℕ × Message)}
    (waiting : self.client.outgoing = front :: next :: rest)
    (same : next.2.address = front.2.address)
    (popped : self.popFront true = .ok (ended, yielded)) :
    ∃ write ∈ ended.writes, write.origin = next.2.origin ∧
      write.previous = some ⟨front.2.origin, true⟩ := by
  obtain ⟨host, port⟩ := Address.mk.inj same
  rw [popFront, waiting] at popped
  simp only [List.head?_cons, Option.any_some, host, port, decide_true,
    Bool.and_self, if_true, enter, reduceCtorEq, if_false, Option.isSome_some,
    asyncWrite, ClientState.front, ClientState.asyncWrite, bind,
    Except.bind] at popped
  cases popped
  exact ⟨_, List.mem_append_right _ (List.mem_singleton.mpr rfl), rfl, rfl⟩

/-- A connection that is used again for the other scheme does not match. -/
theorem mixed_reuse_unmatched {self next : HttpState} {index : ℕ}
    {completion : Completion} {requests : List Request}
    (mixed : self.client.MixedReuse (.resume index completion requests))
    (stepped : self.next (.resume index completion requests) = .ok next) :
    ¬ next.Matched := by
  intro matched
  obtain ⟨query, ended, yielded, -, -, resumed, rfl⟩ := next_resume stepped
  match completion, mixed with
  | .received (.ok response), ⟨status, again, front, rest, waiting, other⟩ =>
      have waits : (self.detach index).client.outgoing = front :: rest := waiting
      rw [resume, if_neg (by omega), again] at resumed
      obtain ⟨notified, called, popped⟩ := Outcome.bind_eq_ok.mp resumed
      obtain ⟨client, below, rfl⟩ := notify_ok called
      obtain ⟨added, longer, messages⟩ :=
        (ClientState.notify_queues waits below).outgoing
      rw [waits] at longer
      have next : ∃ next others, rest ++ added = next :: others ∧
          next.2.address = front.2.address ∧
          next.2.https ≠ front.2.https := by
        rw [SameScheme, ← messages, ← List.map_append] at other
        cases behind : rest ++ added with
        | nil =>
            rw [behind] at other
            exact absurd nofun other
        | cons next others =>
            rw [behind] at other
            by_contra never
            apply other
            rintro message ⟨⟩ same
            by_contra https
            exact never ⟨next, others, rfl, same, https⟩
      obtain ⟨next, others, behind, same, https⟩ := next
      have first : client.outgoing = front :: next :: others := by
        rw [longer, ← behind]
        rfl
      obtain ⟨write, member, origin, previous⟩ :=
        popFront_reuses first same popped
      obtain ⟨equal, -⟩ :=
        (matched.writes write member).reused _ previous
      rw [origin] at equal
      exact https (congrArg Origin.https equal.symm)

end HttpState

/-- The steps that post no second loop and that let no connection be used
again for the other scheme. -/
def OneScheme (self : HttpState) (event : Event) (next : HttpState) : Prop :=
  ¬ self.client.SecondLoop event ∧ ¬ self.client.MixedReuse event ∧
    self.next event = .ok next

/-- Every message goes over a connection for its own scheme, host and port, in
every run that posts no second loop and in which no response that keeps its
connection alive stands before a message to the same host and port over the
other scheme. -/
theorem connections_match {message : Message} {final : HttpState}
    {events : List Event} (run : Run OneScheme (.start message) events final) :
    final.Matched := by
  have settled : final.Settled := by
    refine run.preserves HttpState.Settled ?_ (.start message)
    intro state event next settled ⟨first, scheme, stepped⟩
    cases event with
    | queueAsync request =>
        cases stepped
        exact settled.queueAsync request first
    | resume index completion requests => exact settled.resume scheme stepped
  exact settled.sound.matched

private def webhook : Message := ⟨[1], none, "host", "/hook", 8443, true⟩

private def toWebhook (schema : String) : Request :=
  ⟨some ⟨schema, "host", 8443, "/hook"⟩, [2], none⟩

/-- Two messages to one host and port, up to the write of the second. -/
private def twoMessages (schema : String) : List Event :=
  [.queueAsync (toWebhook schema),
    .resume 0 .started [],
    .resume 0 (.resolved none true) [],
    .resume 0 (.connected none) [],
    .resume 0 (.handshaken none) [],
    .resume 0 (.written none) [],
    .resume 0 (.received (.ok ⟨200, "", true⟩)) []]

/-- The second message goes over the connection of the first. -/
private def secondWritten (isHttps : Bool) : HttpState :=
  let tls : Socket := ⟨some webhook.origin, .done⟩
  let second : Message := ⟨[2], none, "host", "/hook", 8443, isHttps⟩
  { client :=
      { outgoing := [(1, { second with jsonBody := [] })]
        lastHost := "host"
        unanswered := some 1
        loops := [.writing]
        queued := [webhook, second]
        taken := [0]
        calls := [] }
    asked := [webhook.address]
    socket := tls
    connects := [.fresh]
    writes :=
      [⟨0, webhook.origin, tls, none⟩,
        ⟨1, second.origin, tls, some ⟨webhook.origin, true⟩⟩] }

private theorem second_written (isHttps : Bool) :
    Run (fun (self : HttpState) event next => self.next event = .ok next)
      (.start webhook) (twoMessages (if isHttps then "https" else "http"))
      (secondWritten isHttps) := by
  cases isHttps with
  | true =>
      exact .cons rfl (.cons rfl (.cons rfl (.cons rfl (.cons rfl (.cons rfl
        (.cons rfl (.nil _)))))))
  | false =>
      exact .cons rfl (.cons rfl (.cons rfl (.cons rfl (.cons rfl (.cons rfl
        (.cons rfl (.nil _)))))))

/-- A second message over TLS goes over the same connection. -/
theorem two_messages_match : (secondWritten true).Matched := by
  have run : Run OneScheme (.start webhook) (twoMessages "https")
      (secondWritten true) := by
    refine .cons ⟨by decide, id, rfl⟩ (.cons ⟨id, id, rfl⟩ (.cons ⟨id, id, rfl⟩
      (.cons ⟨id, id, rfl⟩ (.cons ⟨id, id, rfl⟩ (.cons ⟨id, id, rfl⟩
      (.cons ⟨id, ?_, rfl⟩ (.nil _)))))))
    rintro ⟨-, -, front, rest, waiting, mixed⟩
    cases waiting
    apply mixed
    rintro next ⟨⟩ -
    rfl
  exact connections_match run

/-- A second message in the clear goes over the TLS connection of the first,
below its session. -/
theorem clear_message_on_tls_connection :
    ¬ ∀ (message : Message) (events : List Event) (final : HttpState),
      Run (fun (self : HttpState) event next => self.next event = .ok next)
        (.start message) events final →
      final.Matched := by
  intro always
  have matched := always _ _ _ (second_written false)
  have clear := matched.writes _ (.tail _ (.head _))
  exact absurd (clear.handshake.mp rfl) Bool.false_ne_true

end XfoLws.Net
