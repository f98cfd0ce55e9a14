import XfoLws.Rest.Endpoints

/-!
# Connections of the REST server

`connection` with its coroutine `handler_loop`, which reads a request, lets a
handler answer it and writes the response.  The functions of a connection run
one at a time on its strand.
-/

namespace XfoLws.Rest

open Wire

/-! ## Requests and responses -/

/-- `boost::beast::http::verb`, as far as it is told apart. -/
inductive Verb where
  | get
  | post
  | other
deriving DecidableEq, Repr

structure HttpRequest where
  verb : Verb
  target : Bytes
  version : ℕ
  keepAlive : Bool
  body : Bytes
deriving DecidableEq

inductive HttpStatus where
  | ok
  | badRequest
  | forbidden
  | notFound
  | methodNotAllowed
  | conflict
  | internalServerError
  | notImplemented
  | serviceUnavailable
deriving DecidableEq, Repr

structure HttpResponse where
  status : HttpStatus
  version : ℕ
  contentType : Option String
  keepAlive : Bool
  body : Bytes
deriving DecidableEq

/-- `std::errc`, as far as codes are compared with it. -/
inductive ErrorCondition where
  | timedOut
  | noLockAvailable
  | other
deriving DecidableEq, Repr

/-- Error codes, as far as `bad_request` tells them apart. -/
inductive HandlerError where
  | rapidjson (code : ℕ)
  | invalidRange
  | notEnoughAmount
  | badVerb
  | accountNotFound
  | duplicateRequest
  | maxSubaddresses
  | other (condition : ErrorCondition)
deriving DecidableEq, Repr

def HandlerError.status : HandlerError → HttpStatus
  | .rapidjson _ => .badRequest
  | .invalidRange => .badRequest
  | .notEnoughAmount => .badRequest
  | .badVerb => .methodNotAllowed
  | .accountNotFound => .forbidden
  | .duplicateRequest => .forbidden
  | .maxSubaddresses => .conflict
  | .other .timedOut => .serviceUnavailable
  | .other .noLockAvailable => .serviceUnavailable
  | .other .other => .internalServerError

/-- What a handler returns, or calls its callback with. -/
abbrev Reply := Except HandlerError Bytes

/-- `get_max`. -/
def getMax (entries : List Endpoint) : ℕ :=
  entries.foldl (fun current entry => max current entry.maxSize) 0

/-- Both maxima are taken of the first table. -/
def maxEndpointSize : ℕ := max (getMax endpoints) (getMax endpoints)

/-- One endpoint has no handler. -/
def Endpoint.runs (handler : Endpoint) : Bool :=
  handler.name ≠ asciiBytes "/get_txt_records".toList

/-- The checks of `async_response` in front of the handler. -/
def RestServer.check (server : RestServer) (request : HttpRequest) :
    Except HttpStatus Endpoint :=
  match server.getEndpoint request.target with
  | none => .error .notFound
  | some handler =>
      if handler.runs = false then .error .notImplemented
      else if handler.maxSize < request.body.length then .error .badRequest
      else if request.verb = .other then .error .methodNotAllowed
      else .ok handler

/-! ## The connection -/

/-- Where the coroutine stands. -/
inductive LoopPhase where
  | starting
  | handshaking
  | reading
  /-- In `async_response`. -/
  | responding
  | writing
  | ended
deriving DecidableEq, Repr

/-- Seconds until an operation is given up. -/
def restHandshakeTimeout : ℕ := 5

def restRequestTimeoutInitial : ℕ := 5

def restRequestTimeoutLogin : ℕ := 5 * 60

def restResponseTimeout : ℕ := 15

/-- `parser_` is there from the first read on, with a message once it is read.
The last two fields record the history: the requests that `async_response` got,
and the responses that `async_write` got. -/
structure Connection where
  parent : RestServer
  ssl : Bool
  passedLogin : Bool
  keepAlive : Bool
  parser : Option (Option HttpRequest)
  response : Option HttpResponse
  /-- `timer_` is waiting, for so long. -/
  armed : Bool
  limit : ℕ
  /-- Timeouts whose handler did not run yet. -/
  fired : ℕ
  /-- The socket is shut down. -/
  closed : Bool
  phase : LoopPhase
  requests : List HttpRequest
  responses : List HttpResponse
deriving DecidableEq

namespace Connection

def new (parent : RestServer) (ssl : Bool) : Connection where
  parent := parent
  ssl := ssl
  passedLogin := false
  keepAlive := true
  parser := none
  response := none
  armed := false
  limit := 0
  fired := 0
  closed := false
  phase := .starting
  requests := []
  responses := []

/-- `get_request_timeout`. -/
def requestTimeout (self : Connection) : ℕ :=
  if self.passedLogin then restRequestTimeoutLogin
  else restRequestTimeoutInitial

def shutdown (self : Connection) : Connection :=
  { self with
    closed := true
    armed := false }

/-- The coroutine returns after a shutdown. -/
def finish (self : Connection) : Connection :=
  { self.shutdown with phase := .ended }

/-- `set_timeout`, unless an earlier timer is over. -/
def setTimeout (self : Connection) (timeout : ℕ) (existing : Bool) :
    Option Connection :=
  if existing = true ∧ self.armed = false then none
  else
    some
      { self with
        armed := true
        limit := timeout }

/-- The head of the loop. -/
def nextRead (self : Connection) (notFirst : Bool) : Connection :=
  let self := { self with parser := some none }
  match self.setTimeout self.requestTimeout notFirst with
  | none => self.finish
  | some next => { next with phase := .reading }

/-- The first run of `handler_loop`. -/
def begin (self : Connection) : Option Connection :=
  if self.phase ≠ .starting then none
  else if self.ssl then
    (self.setTimeout restHandshakeTimeout false).map fun next =>
      { next with phase := .handshaking }
  else some (self.nextRead (self.parser.isSome || self.ssl))

/-- The end of `async_handshake`. -/
def handshaken (self : Connection) (success : Bool) : Option Connection :=
  if self.phase ≠ .handshaking then none
  else if success then some (self.nextRead (self.parser.isSome || self.ssl))
  else some self.finish

/-- Behind `async_response`. -/
def write (self : Connection) (response : HttpResponse) : Connection :=
  { self with
    response := some response
    armed := true
    limit := restResponseTimeout
    phase := .writing
    responses := self.responses ++ [response] }

def version (self : Connection) : ℕ :=
  match self.parser with
  | some (some request) => request.version
  | _ => 0

def badRequest (self : Connection) (status : HttpStatus) : Connection :=
  self.write ⟨status, self.version, none, self.keepAlive, []⟩

def validRequest (self : Connection) (body : Bytes) : Connection :=
  self.write ⟨.ok, self.version, some "application/json", self.keepAlive, body⟩

/-- What is made of the reply of a handler. -/
def answer (self : Connection) : Reply → Connection
  | .error error => self.badRequest error.status
  | .ok body => self.validRequest body

/-- The end of `async_read`, up to the handler that is called.  The read fails
when the body is longer than every endpoint allows. -/
def read (self : Connection) (request : Option HttpRequest) :
    Option (Connection × Option Endpoint) :=
  if self.phase ≠ .reading then none
  else
    match request with
    | none => some (self.finish, none)
    | some request =>
        if maxEndpointSize < request.body.length then some (self.finish, none)
        else
          let parsed := { self with parser := some (some request) }
          if self.armed = false then some (parsed.finish, none)
          else
            let asked : Connection :=
              { parsed with
                armed := false
                phase := .responding
                keepAlive := request.keepAlive
                requests := self.requests ++ [request] }
            match self.parent.check request with
            | .error status => some (asked.badRequest status, none)
            | .ok handler => some (asked, some handler)

/-- Behind the handler: `none` leaves the response to the callback. -/
def deliver (self : Connection) (handler : Endpoint) (reply : Reply) :
    Option Connection :=
  match reply with
  | .error _ => some (self.answer reply)
  | .ok body =>
      if handler.isAsync = false ∨ body ≠ [] then some (self.answer reply)
      else none

/-- The end of `async_write`. -/
def wrote (self : Connection) (success : Bool) : Option Connection :=
  if self.phase ≠ .writing then none
  else if success = false then some self.finish
  else if self.keepAlive = false then some self.finish
  else some (self.nextRead (self.parser.isSome || self.ssl))

/-- The timer fires. -/
def expire (self : Connection) : Option Connection :=
  if self.armed then
    some
      { self with
        armed := false
        fired := self.fired + 1 }
  else none

/-- `on_timeout`. -/
def onTimeout (self : Connection) : Option Connection :=
  if self.fired = 0 then none
  else some { self.shutdown with fired := self.fired - 1 }

/-! ## What holds between the functions -/

/-- No request follows one that ends the connection, the timer of an operation
never hits a later one, and each request has its response before the next. -/
structure Inv (connection : Connection) : Prop where
  single : connection.armed = true → connection.fired = 0
  fired : connection.fired ≤ 1
  idle : connection.phase = .starting ∨ connection.phase = .responding →
    connection.armed = false ∧ connection.fired = 0
  guarded : connection.phase = .handshaking ∨ connection.phase = .reading ∨
    connection.phase = .writing →
      connection.armed = true ∨ connection.fired = 1 ∨ connection.closed = true
  ended : connection.phase = .ended →
    connection.armed = false ∧ connection.closed = true
  secured : connection.phase = .handshaking → connection.ssl = true
  limited : connection.phase = .reading → connection.armed = true →
    connection.limit = connection.requestTimeout
  counts : connection.requests.length = connection.responses.length +
    if connection.phase = .responding then 1 else 0
  kept : ∀ request ∈ connection.requests.dropLast, request.keepAlive = true
  going : connection.phase = .starting ∨ connection.phase = .handshaking ∨
    connection.phase = .reading →
      ∀ request ∈ connection.requests, request.keepAlive = true
  current : connection.phase = .responding ∨ connection.phase = .writing →
    ∃ request, connection.requests.getLast? = some request ∧
      connection.parser = some (some request) ∧
      connection.keepAlive = request.keepAlive
  sent : connection.phase = .writing →
    connection.response = connection.responses.getLast?

variable {self next : Connection}

theorem Inv.new (parent : RestServer) (ssl : Bool) :
    Inv (new parent ssl) where
  single armed := by cases armed
  fired := Nat.zero_le 1
  idle _ := ⟨rfl, rfl⟩
  guarded phase := by simp [Connection.new] at phase
  ended phase := by cases phase
  secured phase := by cases phase
  limited phase := by cases phase
  counts := rfl
  kept := List.forall_mem_nil _
  going _ := List.forall_mem_nil _
  current phase := by simp [Connection.new] at phase
  sent phase := by cases phase

theorem Inv.finish (inv : Inv self) (answered : self.phase ≠ .responding)
    (parser : Option (Option HttpRequest)) :
    Inv (finish { self with parser := parser }) where
  single armed := by cases armed
  fired := inv.fired
  idle phase := by simp [Connection.finish] at phase
  guarded phase := by simp [Connection.finish] at phase
  ended _ := ⟨rfl, rfl⟩
  secured phase := by cases phase
  limited phase := by cases phase
  counts := by
    have counts := inv.counts
    rw [if_neg answered] at counts
    exact counts
  kept := inv.kept
  going phase := by simp [Connection.finish] at phase
  current phase := by simp [Connection.finish] at phase
  sent phase := by cases phase

/-- A timer that is set again is one that did not fire. -/
theorem Inv.nextRead (inv : Inv self) {notFirst : Bool}
    (answered : self.phase ≠ .responding)
    (going : ∀ request ∈ self.requests, request.keepAlive = true)
    (first : notFirst = false → self.fired = 0) :
    Inv (self.nextRead notFirst) := by
  have counts := inv.counts
  rw [if_neg answered] at counts
  unfold Connection.nextRead setTimeout
  dsimp only
  split
  · -- the timer before is over
    exact inv.finish answered _
  · rename_i next set
    split at set
    · cases set
    · rename_i running
      cases set
      have fresh : self.fired = 0 := by
        cases notFirst with
        | false => exact first rfl
        | true =>
            apply inv.single
            simpa using running
      exact
        { single := fun _ => fresh
          fired := inv.fired
          idle := fun phase => by simp at phase
          guarded := fun _ => .inl rfl
          ended := fun phase => by cases phase
          secured := fun phase => by cases phase
          limited := fun _ _ => rfl
          counts := counts
          kept := inv.kept
          going := fun _ => going
          current := fun phase => by simp at phase
          sent := fun phase => by cases phase }

theorem Inv.begin (inv : Inv self) (begun : self.begin = some next) :
    Inv next := by
  unfold Connection.begin at begun
  split at begun
  · cases begun
  · rename_i starting
    rw [not_not] at starting
    obtain ⟨unarmed, unfired⟩ := inv.idle (.inl starting)
    have answered : self.phase ≠ .responding := by simp [starting]
    have going := inv.going (.inl starting)
    split at begun
    · rename_i ssl
      simp only [setTimeout, Bool.false_eq_true, false_and, ↓reduceIte,
        Option.map_some, Option.some.injEq] at begun
      subst begun
      exact
        { single := fun _ => unfired
          fired := inv.fired
          idle := fun phase => by simp at phase
          guarded := fun _ => .inl rfl
          ended := fun phase => by cases phase
          secured := fun _ => ssl
          limited := fun phase => by cases phase
          counts := by simpa [starting] using inv.counts
          kept := inv.kept
          going := fun _ => going
          current := fun phase => by simp at phase
          sent := fun phase => by cases phase }
    · cases begun
      exact inv.nextRead answered going fun _ => unfired

theorem Inv.handshaken (inv : Inv self) {success : Bool}
    (ended : self.handshaken success = some next) : Inv next := by
  unfold Connection.handshaken at ended
  split at ended
  · cases ended
  · rename_i handshaking
    rw [not_not] at handshaking
    have answered : self.phase ≠ .responding := by simp [handshaking]
    split at ended
    · cases ended
      apply inv.nextRead answered (inv.going (.inr (.inl handshaking)))
      simp [inv.secured handshaking]
    · cases ended
      exact inv.finish answered self.parser

/-- Neither a request nor a response comes of it. -/
structure Keeps (connection after : Connection) : Prop where
  parent : after.parent = connection.parent
  requests : after.requests = connection.requests
  responses : after.responses = connection.responses
  responding : after.phase = .responding ↔ connection.phase = .responding

theorem Keeps.finish (answered : self.phase ≠ .responding)
    (parser : Option (Option HttpRequest)) :
    Keeps self (finish { self with parser := parser }) where
  parent := rfl
  requests := rfl
  responses := rfl
  responding := iff_of_false LoopPhase.noConfusion answered

theorem Keeps.nextRead (answered : self.phase ≠ .responding)
    (notFirst : Bool) : Keeps self (self.nextRead notFirst) := by
  unfold Connection.nextRead setTimeout
  dsimp only
  split
  · exact .finish answered _
  · rename_i next set
    split at set
    · cases set
    · cases set
      exact ⟨rfl, rfl, rfl, iff_of_false LoopPhase.noConfusion answered⟩

theorem begin_keeps (begun : self.begin = some next) : Keeps self next := by
  unfold Connection.begin at begun
  split at begun
  · cases begun
  · rename_i starting
    rw [not_not] at starting
    have answered : self.phase ≠ .responding := by simp [starting]
    split at begun
    · cases begun
      exact ⟨rfl, rfl, rfl, iff_of_false LoopPhase.noConfusion answered⟩
    · cases begun
      exact .nextRead answered _

theorem handshaken_keeps {success : Bool}
    (ended : self.handshaken success = some next) : Keeps self next := by
  unfold Connection.handshaken at ended
  split at ended
  · cases ended
  · rename_i handshaking
    rw [not_not] at handshaking
    have answered : self.phase ≠ .responding := by simp [handshaking]
    split at ended
    · cases ended
      exact .nextRead answered _
    · cases ended
      exact .finish answered self.parser

theorem wrote_keeps {success : Bool} (ended : self.wrote success = some next) :
    Keeps self next := by
  unfold Connection.wrote at ended
  split at ended
  · cases ended
  · rename_i writing
    rw [not_not] at writing
    have answered : self.phase ≠ .responding := by simp [writing]
    split at ended
    · cases ended
      exact .finish answered self.parser
    · split at ended
      · cases ended
        exact .finish answered self.parser
      · cases ended
        exact .nextRead answered _

theorem expire_keeps (expired : self.expire = some next) : Keeps self next := by
  unfold Connection.expire at expired
  split at expired
  · cases expired
    exact ⟨rfl, rfl, rfl, .rfl⟩
  · cases expired

theorem onTimeout_keeps (ran : self.onTimeout = some next) :
    Keeps self next := by
  unfold Connection.onTimeout at ran
  split at ran
  · cases ran
  · cases ran
    exact ⟨rfl, rfl, rfl, .rfl⟩

/-- A response is written only for the request that waits for it. -/
theorem Inv.write (inv : Inv self) (waits : self.phase = .responding)
    (response : HttpResponse) : Inv (self.write response) where
  single _ := (inv.idle (.inr waits)).2
  fired := inv.fired
  idle phase := by simp [Connection.write] at phase
  guarded _ := .inl rfl
  ended phase := by cases phase
  secured phase := by cases phase
  limited phase := by cases phase
  counts := by simpa [Connection.write, waits] using inv.counts
  kept := inv.kept
  going phase := by simp [Connection.write] at phase
  current _ := inv.current (.inl waits)
  sent _ := List.getLast?_concat.symm

theorem Inv.answer (inv : Inv self) (waits : self.phase = .responding)
    (reply : Reply) : Inv (self.answer reply) := by
  cases reply with
  | error error => exact inv.write waits _
  | ok body => exact inv.write waits _

theorem read_cases {request : Option HttpRequest} {handler : Option Endpoint}
    (ended : self.read request = some (next, handler)) :
    self.phase = .reading ∧
      ((∃ parser, next = finish { self with parser := parser } ∧
          handler = none) ∨
        ∃ message asked, request = some message ∧ self.armed = true ∧
          message.body.length ≤ maxEndpointSize ∧
          asked =
            { self with
              parser := some (some message)
              armed := false
              phase := .responding
              keepAlive := message.keepAlive
              requests := self.requests ++ [message] } ∧
          ((∃ status, self.parent.check message = .error status ∧
              next = asked.badRequest status ∧ handler = none) ∨
            ∃ entry, self.parent.check message = .ok entry ∧
              next = asked ∧ handler = some entry)) := by
  unfold Connection.read at ended
  split at ended
  · cases ended
  · rename_i reading
    rw [not_not] at reading
    refine ⟨reading, ?_⟩
    split at ended
    · cases ended
      exact .inl ⟨self.parser, rfl, rfl⟩
    · rename_i message
      split at ended
      · cases ended
        exact .inl ⟨self.parser, rfl, rfl⟩
      · rename_i fits
        dsimp only at ended
        split at ended
        · cases ended
          exact .inl ⟨_, rfl, rfl⟩
        · rename_i running
          refine .inr ⟨message, _, rfl, by simpa using running,
            not_lt.mp fits, rfl, ?_⟩
          split at ended
          · rename_i status checked
            cases ended
            exact .inl ⟨status, checked, rfl, rfl⟩
          · rename_i entry checked
            cases ended
            exact .inr ⟨entry, checked, rfl, rfl⟩

/-- The message was read, and its response is to be made. -/
structure Reads (connection asked : Connection) (message : HttpRequest) :
    Prop where
  inv : asked.Inv
  parent : asked.parent = connection.parent
  requests : asked.requests = connection.requests ++ [message]
  responses : asked.responses = connection.responses
  phase : asked.phase = .responding
  parser : asked.parser = some (some message)
  keepAlive : asked.keepAlive = message.keepAlive

/-- A request that was read in time waits for its response. -/
theorem Inv.asked (inv : Inv self) (reading : self.phase = .reading)
    (running : self.armed = true) (message : HttpRequest) :
    Inv
      { self with
        parser := some (some message)
        armed := false
        phase := .responding
        keepAlive := message.keepAlive
        requests := self.requests ++ [message] } where
  single armed := by cases armed
  fired := inv.fired
  idle _ := ⟨rfl, inv.single running⟩
  guarded phase := by simp at phase
  ended phase := by cases phase
  secured phase := by cases phase
  limited phase := by cases phase
  counts := by simpa [reading] using inv.counts
  kept := by
    rw [List.dropLast_concat]
    exact inv.going (.inr (.inr reading))
  going phase := by simp at phase
  current _ := ⟨message, List.getLast?_concat, rfl, rfl⟩
  sent phase := by cases phase

/-- A login is noted before the response. -/
theorem Reads.login {asked : Connection} {message : HttpRequest}
    (reads : Reads self asked message) (login : Bool) :
    Reads self { asked with passedLogin := login } message :=
  { reads with
    inv :=
      { reads.inv with
        limited := fun reading => by
          have responding := reads.phase
          rw [show asked.phase = .reading from reading] at responding
          cases responding } }

theorem deliver_cases (self : Connection) (handler : Endpoint) (reply : Reply) :
    self.deliver handler reply = some (self.answer reply) ∨
      self.deliver handler reply = none := by
  unfold deliver
  cases reply with
  | error error => exact .inl rfl
  | ok body =>
      dsimp only
      split
      · exact .inl rfl
      · exact .inr rfl

/-- A read ends the connection, or a request is to be answered. -/
theorem Inv.read (inv : Inv self) {request : Option HttpRequest}
    {handler : Option Endpoint}
    (ended : self.read request = some (next, handler)) :
    self.phase = .reading ∧
      ((Inv next ∧ Keeps self next ∧ handler = none) ∨
        ∃ message asked, request = some message ∧ Reads self asked message ∧
          ((∃ status, self.parent.check message = .error status ∧
              next = asked.badRequest status ∧ handler = none) ∨
            ∃ entry, self.parent.check message = .ok entry ∧
              next = asked ∧ handler = some entry)) := by
  obtain ⟨reading, outcome⟩ := read_cases ended
  have answered : self.phase ≠ .responding := by simp [reading]
  refine ⟨reading, ?_⟩
  rcases outcome with ⟨parser, rfl, none⟩ |
    ⟨message, asked, same, running, -, rfl, result⟩
  · exact .inl ⟨inv.finish answered parser, .finish answered parser, none⟩
  · refine .inr ⟨message, _, same, ?_, result⟩
    exact ⟨inv.asked reading running message, rfl, rfl, rfl, rfl, rfl, rfl⟩

theorem Inv.wrote (inv : Inv self) {success : Bool}
    (ended : self.wrote success = some next) : Inv next := by
  unfold Connection.wrote at ended
  split at ended
  · cases ended
  · rename_i writing
    rw [not_not] at writing
    have answered : self.phase ≠ .responding := by simp [writing]
    split at ended
    · cases ended
      exact inv.finish answered self.parser
    · split at ended
      · cases ended
        exact inv.finish answered self.parser
      · rename_i alive
        cases ended
        obtain ⟨last, found, parsed, same⟩ := inv.current (.inr writing)
        apply inv.nextRead answered
        · intro request member
          obtain ⟨front, split⟩ := List.getLast?_eq_some_iff.mp found
          rw [split, List.mem_append, List.mem_singleton] at member
          rcases member with earlier | rfl
          · apply inv.kept
            rwa [split, List.dropLast_concat]
          · simpa [same] using alive
        · simp [parsed]

theorem Inv.expire (inv : Inv self) (expired : self.expire = some next) :
    Inv next := by
  unfold Connection.expire at expired
  split at expired
  · rename_i running
    cases expired
    have unfired := inv.single running
    exact
      { inv with
        single := fun armed => by cases armed
        fired := by simp [unfired]
        idle := fun phase => by
          have idle := (inv.idle phase).1
          rw [running] at idle
          cases idle
        guarded := fun _ => .inr (.inl (by simp [unfired]))
        ended := fun phase => ⟨rfl, (inv.ended phase).2⟩
        limited := fun _ armed => by cases armed }
  · cases expired

theorem Inv.onTimeout (inv : Inv self)
    (ran : self.onTimeout = some next) : Inv next := by
  unfold Connection.onTimeout at ran
  split at ran
  · cases ran
  · rename_i pending
    cases ran
    exact
      { inv with
        single := fun armed => by cases armed
        fired := (Nat.sub_le _ _).trans inv.fired
        idle := fun phase => absurd (inv.idle phase).2 pending
        guarded := fun _ => .inr (.inr rfl)
        ended := fun _ => ⟨rfl, rfl⟩
        limited := fun _ armed => by cases armed }

end Connection

end XfoLws.Rest
