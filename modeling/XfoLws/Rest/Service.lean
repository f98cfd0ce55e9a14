import XfoLws.Rest.HandlerLoop
import XfoLws.Rest.SharedRuns

/-!
# The REST server

All connections with what they share: the call of `daemon_status`, and what
the other handlers work on.  A handler that does not answer at once keeps a
callback, which posts the answer to the strand of its connection.
-/

namespace XfoLws.Rest

open Wire

/-! ## Callers of the shared call -/

namespace SharedServer

variable {α : Type} {rules : SharedRules α} {server next : SharedServer α}

/-- The caller whose turn it is has an answer at once, waits or is refused. -/
theorem handle_cases (rules : SharedRules α) (server : SharedServer α)
    (made : Bool) :
    (server.handle rules made).calls = server.calls ++ [server.now] ∧
      (server.handle rules made).resumed = server.resumed ∧
      ((∃ value, server.cachedAnswer rules = some value ∧
          (server.handle rules made).cached =
            server.cached ++ [(server.calls.length, value)] ∧
          (server.handle rules made).refused = server.refused ∧
          (server.handle rules made).waiting = server.waiting) ∨
        server.cachedAnswer rules = none ∧
          (server.handle rules made).cached = server.cached ∧
          ((server.status.isSome || made) = true ∧
              (server.handle rules made).refused = server.refused ∧
              (server.handle rules made).waiting.Perm
                (server.calls.length :: server.waiting) ∨
            (server.status.isSome || made) = false ∧
              (server.handle rules made).refused =
                server.refused ++ [server.calls.length] ∧
              (server.handle rules made).waiting = server.waiting)) := by
  unfold SharedServer.handle
  dsimp only
  cases hit : server.cachedAnswer rules with
  | some value => exact ⟨rfl, rfl, .inl ⟨value, rfl, rfl, rfl, rfl⟩⟩
  | none =>
      cases found : server.status with
      | some frame =>
          refine ⟨rfl, rfl, .inr ⟨rfl, rfl, .inl ⟨rfl, rfl, ?_⟩⟩⟩
          simp only [waiting, asking, found, Option.map_some,
            Option.getD_some, List.append_assoc, List.singleton_append]
          exact List.perm_middle
      | none =>
          cases made with
          | true =>
              refine ⟨rfl, rfl, .inr ⟨rfl, rfl, .inl ⟨rfl, rfl, ?_⟩⟩⟩
              simp [waiting, asking, found, SharedFrame.new]
          | false =>
              refine ⟨rfl, rfl, .inr ⟨rfl, rfl, .inr ⟨rfl, rfl, ?_⟩⟩⟩
              simp [waiting, asking, found]

/-- A step that resumes the callers of `answers`. -/
structure Resumes (server next : SharedServer α)
    (answers : List (ℕ × SharedAnswer α)) : Prop where
  calls : next.calls = server.calls
  cached : next.cached = server.cached
  refused : next.refused = server.refused
  resumed : next.resumed = server.resumed ++ answers
  waiting : server.waiting.Perm (answers.map Prod.fst ++ next.waiting)

theorem Resumes.goesOn {frame after : SharedFrame α}
    (found : server.status = some frame)
    (kept : after.resumers = frame.resumers) (replies : List (ℕ × String)) :
    Resumes server { server with status := some after, replies := replies } []
    where
  calls := rfl
  cached := rfl
  refused := rfl
  resumed := (List.append_nil _).symm
  waiting := by simp [SharedServer.waiting, asking, found, kept]

theorem Resumes.sendResponse {frame : SharedFrame α}
    (found : server.status = some frame) (value : SharedAnswer α) :
    Resumes server (server.sendResponse frame value) [] := by
  have moved : server.waiting.Perm
      (server.finishing.flatMap Prod.fst ++ frame.resumers) := by
    simp only [SharedServer.waiting, asking, found, Option.map_some,
      Option.getD_some]
    exact List.perm_append_comm
  unfold SharedServer.sendResponse
  cases value with
  | ok result =>
      refine ⟨rfl, rfl, rfl, (List.append_nil _).symm, ?_⟩
      simpa [SharedServer.waiting, asking] using moved
  | error failure =>
      refine ⟨rfl, rfl, rfl, (List.append_nil _).symm, ?_⟩
      simpa [SharedServer.waiting, asking] using moved

theorem Resumes.timed {change : SharedFrame α → SharedFrame α}
    (kept : ∀ frame, (change frame).resumers = frame.resumers ∧
      (change frame).phase = frame.phase) :
    Resumes server { server with status := server.status.map change } [] where
  calls := rfl
  cached := rfl
  refused := rfl
  resumed := (List.append_nil _).symm
  waiting := by
    cases found : server.status with
    | none => simp [SharedServer.waiting, asking, found]
    | some frame => simp [SharedServer.waiting, asking, found, kept frame]

/-- Between calls the callers only leave, each with its answer. -/
theorem step_resumes {event : SharedEvent} (kept : keeps event = true)
    (stepped : server.step rules event = some next) :
    ∃ answers, Resumes server next answers ∧
      answers.length ≤ if advances event then 1 else 0 := by
  cases event with
  | pass time =>
      cases stepped
      exact ⟨[], ⟨rfl, rfl, rfl, (List.append_nil _).symm, .refl _⟩, le_rfl⟩
  | call made => cases kept
  | begin =>
      simp only [SharedServer.step, Option.bind_eq_bind,
        Option.bind_eq_some_iff, Option.some.injEq] at stepped
      obtain ⟨frame, found, after, begun, rfl⟩ := stepped
      exact ⟨[], .goesOn found (begin_eq begun).1 _, Nat.zero_le _⟩
  | wrote success =>
      simp only [SharedServer.step, Option.bind_eq_bind,
        Option.bind_eq_some_iff, Option.some.injEq] at stepped
      obtain ⟨frame, found, after, wrote, rfl⟩ := stepped
      exact ⟨[], .goesOn found (wrote_eq wrote).1 _, Nat.zero_le _⟩
  | received response =>
      simp only [SharedServer.step, Option.bind_eq_bind,
        Option.bind_eq_some_iff, Option.some.injEq] at stepped
      obtain ⟨frame, found, after, received, rfl⟩ := stepped
      exact ⟨[], .goesOn found (received_eq received).1 _, Nat.zero_le _⟩
  | respond memory =>
      simp only [SharedServer.step, Option.bind_eq_bind,
        Option.bind_eq_some_iff, Option.some.injEq] at stepped
      obtain ⟨frame, found, value, known, rfl⟩ := stepped
      exact ⟨[], .sendResponse found value, Nat.zero_le _⟩
  | resume index =>
      change server.resume index = some next at stepped
      unfold SharedServer.resume at stepped
      split at stepped
      · rename_i caller rest value found
        cases stepped
        refine ⟨[(caller, value)], ⟨rfl, rfl, rfl, rfl, ?_⟩, le_rfl⟩
        have leaves := (leaves_perm found).append_left server.asking
        exact leaves.trans List.perm_middle
      · cases stepped
  | expire =>
      cases stepped
      exact ⟨[], .timed expire_eq, le_rfl⟩
  | onTimeout =>
      cases stepped
      exact ⟨[], .timed onTimeout_eq, le_rfl⟩

end SharedServer

/-! ## The body of `daemon_status` -/

/-- `map_daemon_state`. -/
def DaemonState.name : DaemonState → String
  | .ok => "ok"
  | .noConnections => "no_connections"
  | .synchronizing => "synchronizing"
  | .unavailable => "unavailable"

/-- `json_response`; the name of the network is configured. -/
def DaemonStatusResponse.body (network : String)
    (response : DaemonStatusResponse) : Bytes :=
  Json.render (.object
    [("outgoing_connections_count", .unsigned response.outgoingConnectionsCount),
      ("incoming_connections_count", .unsigned response.incomingConnectionsCount),
      ("height", .unsigned response.height),
      ("target_height", .unsigned response.targetHeight),
      ("network", .string (asciiBytes network.toList)),
      ("state", .string (asciiBytes response.state.name.toList))])

theorem DaemonStatusResponse.body_ne_nil (network : String)
    (response : DaemonStatusResponse) : response.body network ≠ [] := by
  simp [DaemonStatusResponse.body, Json.render]

/-! ## The state -/

def daemonStatus : Endpoint := endpoint "/daemon_status" 1024 true

/-- A request by its connection and its place there. -/
abbrev Ticket := ℕ × ℕ

/-- What the handlers depend on.  `run` is any other handler: what it returns,
whether it passed a login, and what it leaves behind; one that returns an empty
body for an asynchronous endpoint keeps the callback. -/
structure RestRules (σ : Type) where
  parseResponse : String → Except String DaemonInfo
  network : String
  failure : SharedFailure → HandlerError
  /-- `get_async_client` fails. -/
  noClient : HandlerError
  run : Endpoint → Verb → Bytes → σ → Reply × Bool × σ

def RestRules.shared {σ : Type} (rules : RestRules σ) :
    SharedRules DaemonStatusResponse :=
  daemonStatusRules rules.parseResponse

/-- What the callback of `daemon_status` is called with. -/
def RestRules.reply {σ : Type} (rules : RestRules σ) :
    SharedAnswer DaemonStatusResponse → Reply
  | .ok response => .ok (response.body rules.network)
  | .error failure => .error (rules.failure failure)

/-- The last three fields record the history: the requests that called
`daemon_status`, all that were handled, and the replies of the other
handlers. -/
structure RestService (σ : Type) where
  world : σ
  shared : SharedServer DaemonStatusResponse
  connections : List Connection
  /-- Callbacks that other handlers keep. -/
  pending : List Ticket
  /-- Callbacks that were called and did not run yet. -/
  posted : List (Ticket × Reply)
  tickets : List Ticket
  runs : List (Ticket × Endpoint)
  replies : List (Ticket × Reply)

inductive RestEvent where
  | accept (parent : RestServer) (ssl : Bool)
  | begin (index : ℕ)
  | handshaken (index : ℕ) (success : Bool)
  /-- A whole message, or an error; `made` is whether a socket to the daemon
  could be had. -/
  | read (index : ℕ) (request : Option HttpRequest) (made : Bool)
  | wrote (index : ℕ) (success : Bool)
  | expire (index : ℕ)
  | onTimeout (index : ℕ)
  | daemon (event : SharedEvent)
  /-- Another handler calls a callback. -/
  | complete (position : ℕ) (reply : Reply)
  /-- A callback runs on the strand of its connection. -/
  | resume (position : ℕ)

namespace RestService

variable {σ : Type}

def start (world : σ) (now : ℕ) : RestService σ :=
  ⟨world, .start now, [], [], [], [], [], []⟩

def set (self : RestService σ) (index : ℕ) (connection : Connection) :
    RestService σ :=
  { self with connections := self.connections.set index connection }

/-- One function of a connection. -/
def change (self : RestService σ) (index : ℕ)
    (step : Connection → Option Connection) : Option (RestService σ) := do
  let connection ← self.connections[index]?
  let next ← step connection
  some (self.set index next)

/-- What `daemon_status::handle` returns. -/
def statusReply (rules : RestRules σ) (self : RestService σ) (made : Bool) :
    Reply :=
  match self.shared.cachedAnswer rules.shared with
  | some response => rules.reply (.ok response)
  | none =>
      if self.shared.status.isSome || made then .ok []
      else .error rules.noClient

/-- `daemon_status`. -/
def serveStatus (rules : RestRules σ) (self : RestService σ) (index : ℕ)
    (asked : Connection) (made : Bool) : RestService σ :=
  let ticket := (index, asked.requests.length - 1)
  let reply := self.statusReply rules made
  { self with
    shared := self.shared.handle rules.shared made
    connections := self.connections.set index
      ((asked.deliver daemonStatus reply).getD asked)
    tickets := self.tickets ++ [ticket]
    runs := self.runs ++ [(ticket, daemonStatus)] }

/-- The other handlers. -/
def serveOther (rules : RestRules σ) (self : RestService σ) (index : ℕ)
    (asked : Connection) (handler : Endpoint) (request : HttpRequest) :
    RestService σ :=
  let ticket := (index, asked.requests.length - 1)
  let (reply, login, world) := rules.run handler request.verb request.body self.world
  let asked := { asked with passedLogin := asked.passedLogin || login }
  let ran :=
    { self with
      world := world
      runs := self.runs ++ [(ticket, handler)] }
  match asked.deliver handler reply with
  | some next =>
      { ran.set index next with replies := self.replies ++ [(ticket, reply)] }
  | none => { ran.set index asked with pending := self.pending ++ [ticket] }

def read (rules : RestRules σ) (self : RestService σ) (index : ℕ)
    (request : Option HttpRequest) (made : Bool) : Option (RestService σ) := do
  let connection ← self.connections[index]?
  let (next, handler) ← connection.read request
  match request, handler with
  | some message, some handler =>
      if handler = daemonStatus then
        some (self.serveStatus rules index next made)
      else some (self.serveOther rules index next handler message)
  | _, _ => some (self.set index next)

/-- The callbacks that a step of `daemon_status` calls. -/
def daemon (rules : RestRules σ) (self : RestService σ) (event : SharedEvent) :
    Option (RestService σ) :=
  if SharedServer.keeps event = false then none
  else
    (self.shared.step rules.shared event).map fun next =>
      { self with
        shared := next
        posted := self.posted ++
          (next.resumed.drop self.shared.resumed.length).filterMap fun answer =>
            self.tickets[answer.1]?.map fun ticket =>
              (ticket, rules.reply answer.2) }

def complete (self : RestService σ) (position : ℕ) (reply : Reply) :
    Option (RestService σ) := do
  let ticket ← self.pending[position]?
  some
    { self with
      pending := self.pending.eraseIdx position
      posted := self.posted ++ [(ticket, reply)]
      replies := self.replies ++ [(ticket, reply)] }

def resume (self : RestService σ) (position : ℕ) : Option (RestService σ) := do
  let (ticket, reply) ← self.posted[position]?
  let connection ← self.connections[ticket.1]?
  some
    { self.set ticket.1 (connection.answer reply) with
      posted := self.posted.eraseIdx position }

def step (rules : RestRules σ) (self : RestService σ) :
    RestEvent → Option (RestService σ)
  | .accept parent ssl =>
      some { self with connections := self.connections ++ [.new parent ssl] }
  | .begin index => self.change index Connection.begin
  | .handshaken index success =>
      self.change index fun connection => connection.handshaken success
  | .read index request made => self.read rules index request made
  | .wrote index success =>
      self.change index fun connection => connection.wrote success
  | .expire index => self.change index Connection.expire
  | .onTimeout index => self.change index Connection.onTimeout
  | .daemon event => self.daemon rules event
  | .complete position reply => self.complete position reply
  | .resume position => self.resume position

def Steps (rules : RestRules σ) (self : RestService σ) (event : RestEvent)
    (next : RestService σ) : Prop :=
  self.step rules event = some next

end RestService

end XfoLws.Rest
