import XfoLws.Rest.WalletRows

/-!
# Relaying transactions

The handler of `submit_raw_tx` and its coroutine, which relays the queued
transactions one by one over one daemon socket.  A step is one section under
the lock, one resumption of the coroutine, or one call outside of the lock, so
that requests may arrive between any two of them.
-/

namespace XfoLws.Rest

open Db

/-! ## Requests -/

structure PendingSpentOutput where
  amount : ℕ
  globalIndex : ℕ
  outIndex : ℕ
  txHash : Hash
  publicKey : PublicKey
deriving DecidableEq, Repr

structure SubmitRawTxRequest where
  tx : String
  creds : Option AccountCredentials
  pendingSpentOutputs : List PendingSpentOutput
deriving DecidableEq, Repr

def PendingSpentOutput.toSpend (recorded : ℕ) (pending : PendingSpentOutput) :
    PendingSpend where
  source := ⟨pending.amount, pending.globalIndex⟩
  txHash := pending.txHash
  pub := pending.publicKey
  outIndex := pending.outIndex
  recorded := recorded

/-- A message on a daemon socket.  The sender is no part of the bytes; it
tells the equal transactions of two callers apart. -/
inductive DaemonCall where
  | sendRawTxHex (sender : ℕ) (relay : Bool) (txAsHex : String)
  /-- A call of another handler that shares the sockets. -/
  | other
deriving DecidableEq, Repr

/-- A queued request; the caller stands for its `resume` callback. -/
structure SubmitContext where
  caller : ℕ
  message : DaemonCall
  pendingAccount : AccountId
  pendingSpends : List PendingSpend
deriving DecidableEq, Repr

inductive SubmitRefusal where
  | badClientTx
  | account (failure : Failure)
  /-- No daemon socket could be made. -/
  | client
deriving DecidableEq, Repr

/-- The handler in front of the lock. -/
def SubmitRawTxRequest.prepare (env : Env) (db : Db) (clock caller : ℕ)
    (req : SubmitRawTxRequest) : Except SubmitRefusal SubmitContext :=
  let message := DaemonCall.sendRawTxHex caller true req.tx
  if req.pendingSpentOutputs = [] then
    .ok ⟨caller, message, AccountId.invalid, []⟩
  else
    match req.creds with
    | none => .error .badClientTx
    | some creds =>
        match openAccount env db creds with
        | .error failure => .error (.account failure)
        | .ok user =>
            let recorded := min clock (2 ^ 32 - 1)
            .ok ⟨caller, message, user.id, req.pendingSpentOutputs.map fun
              pending => pending.toSpend recorded⟩

/-! ## Answers -/

inductive SubmitBody where
  /-- The daemon's response as it came. -/
  | raw (response : String)
  | status (text : String)
deriving DecidableEq, Repr

inductive SubmitFailure where
  /-- The daemon's response could not be read, or is an error. -/
  | response (reason : String)
  | txRelayFailed
  | daemonTimeout
deriving DecidableEq, Repr

/-- What a caller is resumed with. -/
abbrev SubmitAnswer := Except SubmitFailure SubmitBody

/-- The rules around the coroutine; `parseResponse` tells whether the daemon
relayed the transaction. -/
structure SubmitRules where
  env : Env
  debug : Bool
  parseResponse : String → Except String Bool

/-- `std::string::find` on a constant. -/
def containsText (text wanted : String) : Bool :=
  text.toList.tails.any fun rest => wanted.toList.isPrefixOf rest

def passthroughTexts : List String :=
  ["double spend", "double_spend", "Double spend", "DOUBLE_SPEND",
    "invalid input", "invalid_input", "Invalid input", "INVALID_INPUT"]

def shouldPassthroughSubmitRawTxError (daemonRawResponse : String)
    (debug : Bool) : Bool :=
  debug && passthroughTexts.any (containsText daemonRawResponse)

/-- The answer to a request from the daemon's response to its message. -/
def SubmitRules.answer (rules : SubmitRules) (raw : String) : SubmitAnswer :=
  match rules.parseResponse raw with
  | .error reason =>
      if shouldPassthroughSubmitRawTxError raw rules.debug then .ok (.raw raw)
      else .error (.response reason)
  | .ok false =>
      if shouldPassthroughSubmitRawTxError raw rules.debug then .ok (.raw raw)
      else .error .txRelayFailed
  | .ok true => .ok (.status "OK")

/-! ## The coroutine -/

/-- A daemon socket.  It sends and receives in turns; `awaiting` is the call
that was sent and is not answered yet. -/
structure AsyncClient where
  awaiting : Option DaemonCall
  close : Bool
deriving DecidableEq, Repr

inductive SubmitTimer where
  | idle
  | running
  | expired
deriving DecidableEq, Repr

/-- Where the coroutine stands. -/
inductive SubmitPhase where
  /-- In front of the lock at the head of the loop. -/
  | loop
  | writing (next : DaemonCall)
  | reading
  /-- The response is there and not parsed. -/
  | judging (raw : String)
  /-- In front of the lock of `send_response`. -/
  | responding (value : SubmitAnswer)
  | failing
  /-- Behind the lock of `send_response`, with the callers to resume. -/
  | resuming (resumers : List SubmitContext) (value : SubmitAnswer)
      (failed : Bool)
  | ended
deriving DecidableEq, Repr

structure SubmitFrame where
  client : AsyncClient
  timer : SubmitTimer
  resumers : List SubmitContext
  phase : SubmitPhase
deriving DecidableEq, Repr

/-- What the environment decides when the coroutine goes on. -/
inductive SubmitProgress where
  | enter
  | wrote (success : Bool)
  /-- The daemon's response, or an error of the socket. -/
  | received (response : Option String)
  /-- Whether the storage could commit the spends. -/
  | judge (stored : Bool)
  | respond
  | resume
deriving DecidableEq, Repr

/-- What a step of the coroutine does outside of its frame. -/
inductive SubmitEffect where
  | none
  /-- `cache.status.reset()`, and the client is stored for reuse. -/
  | finish (client : AsyncClient)
  /-- `cache.status.reset()`. -/
  | reset
  | answered (call : DaemonCall) (raw : String)
  | record (account : AccountId) (spends : List PendingSpend)
  | resume (caller : ℕ) (value : SubmitAnswer)
deriving DecidableEq, Repr

namespace SubmitFrame

def enter (frame : SubmitFrame) : SubmitFrame × SubmitEffect :=
  match frame.resumers with
  | [] =>
      ({ frame with phase := .ended },
        .finish { frame.client with close := false })
  | front :: _ =>
      ({ frame with timer := .running, phase := .writing front.message }, .none)

/-- The end of `async_write`; an expired timer cannot be set again. -/
def wrote (frame : SubmitFrame) (next : DaemonCall) (success : Bool) :
    SubmitFrame × SubmitEffect :=
  if success = false ∨ frame.client.close ∨
      frame.client.awaiting.isSome then
    ({ frame with phase := .failing }, .none)
  else
    let sent :=
      { frame with client := { frame.client with awaiting := some next } }
    if frame.timer = .running then ({ sent with phase := .reading }, .none)
    else ({ sent with phase := .failing }, .none)

/-- The end of `async_read`. -/
def received (frame : SubmitFrame) (response : Option String) :
    SubmitFrame × SubmitEffect :=
  match response, frame.client.awaiting with
  | some raw, some call =>
      if frame.client.close then ({ frame with phase := .failing }, .none)
      else
        let read :=
          { frame with client := { frame.client with awaiting := none } }
        if frame.timer = .running then
          ({ read with timer := .idle, phase := .judging raw },
            .answered call raw)
        else ({ read with phase := .failing }, .answered call raw)
  | _, _ => ({ frame with phase := .failing }, .none)

/-- The spends of the front request are recorded once it is relayed. -/
def judge (rules : SubmitRules) (frame : SubmitFrame) (raw : String)
    (stored : Bool) : Option (SubmitFrame × SubmitEffect) :=
  let judged := { frame with phase := .responding (rules.answer raw) }
  match rules.parseResponse raw with
  | .ok true =>
      match frame.resumers with
      | [] => none
      | front :: _ =>
          if front.pendingSpends ≠ [] ∧ stored then
            some (judged, .record front.pendingAccount front.pendingSpends)
          else some (judged, .none)
  | _ => some (judged, .none)

/-- `send_response` without an error, under the lock. -/
def respond (frame : SubmitFrame) (value : SubmitAnswer) :
    Option (SubmitFrame × SubmitEffect) :=
  match frame.resumers with
  | [] => none
  | front :: rest =>
      some ({ frame with
        resumers := rest, phase := .resuming [front] value false }, .none)

/-- `send_response` with an error, under the lock. -/
def fail (frame : SubmitFrame) : SubmitFrame × SubmitEffect :=
  ({ frame with
    resumers := []
    phase := .resuming frame.resumers (.error .daemonTimeout) true }, .reset)

def resume (frame : SubmitFrame) (resumers : List SubmitContext)
    (value : SubmitAnswer) (failed : Bool) : SubmitFrame × SubmitEffect :=
  match resumers with
  | [] => ({ frame with phase := if failed then .ended else .loop }, .none)
  | context :: rest =>
      ({ frame with phase := .resuming rest value failed },
        .resume context.caller value)

/-- One resumption of `async_handler`; `none` where the coroutine does not
stand there, and for the undefined access to the front of an empty queue. -/
def run (rules : SubmitRules) (frame : SubmitFrame) :
    SubmitProgress → Option (SubmitFrame × SubmitEffect)
  | .enter => if frame.phase = .loop then some frame.enter else none
  | .wrote success =>
      match frame.phase with
      | .writing next => some (frame.wrote next success)
      | _ => none
  | .received response =>
      if frame.phase = .reading then some (frame.received response) else none
  | .judge stored =>
      match frame.phase with
      | .judging raw => frame.judge rules raw stored
      | _ => none
  | .respond =>
      match frame.phase with
      | .responding value => frame.respond value
      | .failing => some frame.fail
      | _ => none
  | .resume =>
      match frame.phase with
      | .resuming resumers value failed =>
          some (frame.resume resumers value failed)
      | _ => none

/-- The timer fires; `expires_after` and `cancel` find no wait from then. -/
def expire (frame : SubmitFrame) : SubmitFrame :=
  if frame.timer = .running then { frame with timer := .expired } else frame

/-- `on_timeout`, some time after the timer fired. -/
def onTimeout (frame : SubmitFrame) : SubmitFrame :=
  if frame.timer = .expired then
    { frame with client := { frame.client with close := true } }
  else frame

end SubmitFrame

/-! ## The server -/

/-- A call of `handle`, with what it reads of the clock and the storage. -/
structure SubmitCall where
  request : SubmitRawTxRequest
  clock : ℕ
  db : Db

/-- The shared state with its history.  The frames are all that were ever
made; `status` is the one that `cache.status` points to. -/
structure SubmitServer where
  status : Option ℕ
  frames : List SubmitFrame
  clients : List AsyncClient
  disk : WalletDb
  /-- The calls of `handle`; a caller is a position. -/
  calls : List SubmitCall
  /-- Calls in front of the lock. -/
  entering : List SubmitContext
  /-- Calls that returned success. -/
  accepted : List ℕ
  refused : List (ℕ × SubmitRefusal)
  answers : List (DaemonCall × String)
  resumed : List (ℕ × SubmitAnswer)

inductive SubmitEvent where
  | call (request : SubmitRawTxRequest) (clock : ℕ)
  /-- A call takes the lock; `made` is whether a socket could be made. -/
  | enter (caller : ℕ) (made : Bool)
  | progress (id : ℕ) (progress : SubmitProgress)
  | expire (id : ℕ)
  | onTimeout (id : ℕ)
  /-- Other handlers share the sockets. -/
  | takeClient
  | storeClient (client : AsyncClient)
  /-- Other transactions; none of them writes pending spends. -/
  | write (disk : WalletDb)

namespace SubmitServer

def start (disk : WalletDb) (clients : List AsyncClient) : SubmitServer where
  status := none
  frames := []
  clients := clients
  disk := disk
  calls := []
  entering := []
  accepted := []
  refused := []
  answers := []
  resumed := []

/-- `storage::record_pending_spends`; rows that exist are left. -/
def recordPendingSpends (disk : WalletDb) (id : AccountId)
    (spends : List PendingSpend) : WalletDb :=
  { disk with
    pendingSpends := disk.pendingSpends.addAll (spends.map fun spend =>
      (id, spend)) }

def call (rules : SubmitRules) (server : SubmitServer)
    (request : SubmitRawTxRequest) (clock : ℕ) : SubmitServer :=
  let caller := server.calls.length
  let called :=
    { server with
      calls := server.calls ++ [SubmitCall.mk request clock server.disk.db] }
  match request.prepare rules.env server.disk.db clock caller with
  | .error refusal =>
      { called with refused := server.refused ++ [(caller, refusal)] }
  | .ok context => { called with entering := server.entering ++ [context] }

/-- A new frame with its first request. -/
def newFrame (client : AsyncClient) (context : SubmitContext) : SubmitFrame :=
  ⟨client, .idle, [context], .loop⟩

/-- The handler under the lock. -/
def enqueue (server : SubmitServer) (context : SubmitContext) (made : Bool) :
    SubmitServer :=
  let entered :=
    { server with entering := server.entering.erase context }
  let accepted := server.accepted ++ [context.caller]
  match server.status with
  | some id =>
      { entered with
        accepted
        frames := server.frames.modify id fun frame =>
          { frame with resumers := frame.resumers ++ [context] } }
  | none =>
      let started (client : AsyncClient) : SubmitServer :=
        { entered with
          accepted
          status := some server.frames.length
          frames := server.frames ++ [newFrame client context] }
      match server.clients with
      | client :: rest => { started client with clients := rest }
      | [] =>
          if made then started ⟨none, false⟩
          else
            { entered with
              refused := server.refused ++ [(context.caller, .client)] }

def apply (server : SubmitServer) : SubmitEffect → SubmitServer
  | .none => server
  | .finish client =>
      { server with status := none, clients := client :: server.clients }
  | .reset => { server with status := none }
  | .answered call raw =>
      { server with answers := server.answers ++ [(call, raw)] }
  | .record account spends =>
      { server with disk := recordPendingSpends server.disk account spends }
  | .resume caller value =>
      { server with resumed := server.resumed ++ [(caller, value)] }

/-- One step; `none` where the event cannot happen. -/
def step (rules : SubmitRules) (server : SubmitServer) :
    SubmitEvent → Option SubmitServer
  | .call request clock => some (server.call rules request clock)
  | .enter caller made =>
      (server.entering.find? fun context => context.caller = caller).map
        fun context => server.enqueue context made
  | .progress id progress =>
      match server.frames[id]? with
      | none => none
      | some frame =>
          (frame.run rules progress).map fun after =>
            { server with frames := server.frames.set id after.1 }.apply after.2
  | .expire id =>
      some { server with
        frames := server.frames.modify id SubmitFrame.expire }
  | .onTimeout id =>
      some { server with
        frames := server.frames.modify id SubmitFrame.onTimeout }
  | .takeClient => some { server with clients := server.clients.tail }
  | .storeClient client =>
      some { server with
        clients := { client with close := false } :: server.clients }
  | .write disk =>
      some { server with
        disk := { disk with pendingSpends := server.disk.pendingSpends } }

/-- The steps of the server as a relation. -/
def Steps (rules : SubmitRules) (server : SubmitServer) (event : SubmitEvent)
    (next : SubmitServer) : Prop :=
  server.step rules event = some next

end SubmitServer

end XfoLws.Rest
