import XfoLws.Lib.Outcome
import XfoLws.Rest.SubmitRawTx
import XfoLws.Rest.WalletViews

/-!
# Daemon calls that callers share

The handlers of `daemon_status` and `get_unspent_outs` ask the daemon once for
all callers that arrive while the call is under way, and keep its result for a
while.  A step is one section under the lock, one resumption of the coroutine,
or one call outside of the lock.
-/

namespace XfoLws.Rest

/-- `daemon_cache_timeout` in ticks of the steady clock. -/
def daemonCacheTimeout : ℕ := 5 * 10 ^ 9

inductive SharedFailure where
  /-- The daemon's response could not be read, or is an error. -/
  | response (reason : String)
  | daemonTimeout
deriving DecidableEq, Repr

abbrev SharedAnswer (α : Type) := Except SharedFailure α

/-- What the two handlers do differently. -/
structure SharedRules (α : Type) where
  /-- `parse_response`, and what is made of the response. -/
  parse : String → SharedAnswer α
  /-- The value sent after an error of the socket or a timeout; the argument is
  what memory holds where it is not initialized. -/
  failed : ℕ → SharedAnswer α
  /-- An empty result in the cache is not given out. -/
  checksResult : Bool
  /-- The empty result. -/
  blank : α

/-! ## The coroutine -/

inductive SharedPhase (α : Type) where
  | starting
  | writing
  | reading
  /-- In front of the lock of `send_response`. -/
  | failing
  | responding (value : SharedAnswer α)

structure SharedFrame (α : Type) where
  close : Bool
  timer : SubmitTimer
  phase : SharedPhase α
  resumers : List ℕ

namespace SharedFrame

variable {α : Type}

def new (caller : ℕ) : SharedFrame α := ⟨false, .idle, .starting, [caller]⟩

/-- The first run of `async_handler`. -/
def begin (frame : SharedFrame α) : Option (SharedFrame α) :=
  match frame.phase with
  | .starting => some { frame with timer := .running, phase := .writing }
  | _ => none

/-- The end of `async_write`; an expired timer cannot be set again. -/
def wrote (frame : SharedFrame α) (success : Bool) : Option (SharedFrame α) :=
  match frame.phase with
  | .writing =>
      if success = false ∨ frame.close then some { frame with phase := .failing }
      else if frame.timer = .running then some { frame with phase := .reading }
      else some { frame with phase := .failing }
  | _ => none

/-- The end of `async_read`. -/
def received (rules : SharedRules α) (frame : SharedFrame α)
    (response : Option String) : Option (SharedFrame α) :=
  match frame.phase, response with
  | .reading, some raw =>
      if frame.close then some { frame with phase := .failing }
      else if frame.timer = .running then
        some { frame with timer := .idle, phase := .responding (rules.parse raw) }
      else some { frame with phase := .failing }
  | .reading, none => some { frame with phase := .failing }
  | _, _ => none

/-- The value of `send_response`. -/
def value (rules : SharedRules α) (frame : SharedFrame α) (memory : ℕ) :
    Option (SharedAnswer α) :=
  match frame.phase with
  | .failing => some (rules.failed memory)
  | .responding value => some value
  | _ => none

/-- The timer fires. -/
def expire (frame : SharedFrame α) : SharedFrame α :=
  if frame.timer = .running then { frame with timer := .expired } else frame

/-- `on_timeout`, some time after the timer fired. -/
def onTimeout (frame : SharedFrame α) : SharedFrame α :=
  if frame.timer = .expired then { frame with close := true } else frame

end SharedFrame

/-! ## The server -/

/-- `cached_result`, the callers that `send_response` is about to resume, and
the history.  A caller is a position of `calls`. -/
structure SharedServer (α : Type) where
  now : ℕ
  status : Option (SharedFrame α)
  result : Option α
  last : ℕ
  finishing : List (List ℕ × SharedAnswer α)
  /-- When `handle` was called. -/
  calls : List ℕ
  /-- Calls answered from the cache. -/
  cached : List (ℕ × α)
  /-- Calls for which no socket could be made. -/
  refused : List ℕ
  resumed : List (ℕ × SharedAnswer α)
  replies : List (ℕ × String)
  /-- The values of `send_response`. -/
  published : List (ℕ × SharedAnswer α)

inductive SharedEvent where
  | pass (time : ℕ)
  | call (made : Bool)
  | begin
  | wrote (success : Bool)
  /-- The daemon's response, or an error of the socket. -/
  | received (response : Option String)
  | respond (memory : ℕ)
  /-- The next of the callers in a section of `finishing` is resumed. -/
  | resume (index : ℕ)
  | expire
  | onTimeout
deriving DecidableEq, Repr

namespace SharedServer

variable {α : Type}

def start (now : ℕ) : SharedServer α :=
  ⟨now, none, none, 0, [], [], [], [], [], [], []⟩

/-- The answer from the cache. -/
def cachedAnswer (rules : SharedRules α) (server : SharedServer α) :
    Option α :=
  if rules.checksResult ∧ server.result.isNone then none
  else if server.now - server.last < daemonCacheTimeout then
    some (server.result.getD rules.blank)
  else none

/-- `handle`; `made` is whether a socket could be had. -/
def handle (rules : SharedRules α) (server : SharedServer α) (made : Bool) :
    SharedServer α :=
  let caller := server.calls.length
  let called := { server with calls := server.calls ++ [server.now] }
  match server.cachedAnswer rules with
  | some value => { called with cached := server.cached ++ [(caller, value)] }
  | none =>
      match server.status with
      | some frame =>
          { called with
            status := some
              { frame with resumers := frame.resumers ++ [caller] } }
      | none =>
          if made then
            { called with
              result := none
              status := some (.new caller) }
          else { called with refused := server.refused ++ [caller] }

/-- `send_response` up to the end of its lock. -/
def sendResponse (server : SharedServer α) (frame : SharedFrame α)
    (value : SharedAnswer α) : SharedServer α :=
  let sent :=
    { server with
      status := none
      finishing := server.finishing ++ [(frame.resumers, value)]
      published := server.published ++ [(server.now, value)] }
  match value with
  | .ok result => { sent with result := some result, last := server.now }
  | .error _ => { sent with result := none }

/-- One caller is resumed. -/
def resume (server : SharedServer α) (index : ℕ) : Option (SharedServer α) :=
  match server.finishing[index]? with
  | some (caller :: rest, value) =>
      some
        { server with
          finishing := server.finishing.set index (rest, value)
          resumed := server.resumed ++ [(caller, value)] }
  | _ => none

def step (rules : SharedRules α) (server : SharedServer α) :
    SharedEvent → Option (SharedServer α)
  | .pass time => some { server with now := server.now + time }
  | .call made => some (server.handle rules made)
  | .begin => do
      let frame ← server.status
      let next ← frame.begin
      some { server with status := some next }
  | .wrote success => do
      let frame ← server.status
      let next ← frame.wrote success
      some { server with status := some next }
  | .received response => do
      let frame ← server.status
      let next ← frame.received rules response
      some
        { server with
          status := some next
          replies := server.replies ++
            response.toList.map fun raw => (server.now, raw) }
  | .respond memory => do
      let frame ← server.status
      let value ← frame.value rules memory
      some (server.sendResponse frame value)
  | .resume index => server.resume index
  | .expire => some { server with status := server.status.map .expire }
  | .onTimeout => some { server with status := server.status.map .onTimeout }

/-- The steps of the server as a relation. -/
def Steps (rules : SharedRules α) (server : SharedServer α)
    (event : SharedEvent) (next : SharedServer α) : Prop :=
  server.step rules event = some next

end SharedServer

/-! ## The two handlers -/

inductive DaemonState where
  | ok
  | noConnections
  | synchronizing
  | unavailable
deriving DecidableEq, Repr

/-- The fields of the daemon's `get_info` that are read. -/
structure DaemonInfo where
  outgoingConnectionsCount : ℕ
  incomingConnectionsCount : ℕ
  height : ℕ
  targetHeight : ℕ
deriving DecidableEq, Repr

structure DaemonStatusResponse where
  outgoingConnectionsCount : ℕ
  incomingConnectionsCount : ℕ
  height : ℕ
  targetHeight : ℕ
  state : DaemonState
deriving DecidableEq, Repr

namespace DaemonStatusResponse

/-- The constructor leaves the target height as it is in memory. -/
def unavailable (memory : ℕ) : DaemonStatusResponse :=
  ⟨0, 0, 0, memory, .unavailable⟩

/-- The difference of the heights is unsigned. -/
def ofInfo (info : DaemonInfo) : DaemonStatusResponse where
  outgoingConnectionsCount := info.outgoingConnectionsCount
  incomingConnectionsCount := info.incomingConnectionsCount
  height := info.height
  targetHeight := info.targetHeight
  state :=
    if info.outgoingConnectionsCount = 0 ∧
        info.incomingConnectionsCount = 0 then .noConnections
    else if info.targetHeight ≠ 0 ∧
        5 ≤ (info.targetHeight + 2 ^ 64 - info.height) % 2 ^ 64 then
      .synchronizing
    else .ok

/-- A daemon that is above its target is said to be synchronizing. -/
theorem ofInfo_ok_iff {info : DaemonInfo} (height : info.height + 5 ≤ 2 ^ 64)
    (target : info.targetHeight < 2 ^ 64) :
    (ofInfo info).state = .ok ↔
      (info.outgoingConnectionsCount ≠ 0 ∨
        info.incomingConnectionsCount ≠ 0) ∧
      (info.targetHeight = 0 ∨ info.height ≤ info.targetHeight ∧
        info.targetHeight < info.height + 5) := by
  simp only [ofInfo]
  split
  · simp
    omega
  · split
    · simp
      omega
    · simp
      omega

end DaemonStatusResponse

section Handlers

variable {α β : Type}

/-- `parse_response`, and what a handler makes of it. -/
def parseShared (parseResponse : String → Except String α) (use : α → β)
    (raw : String) : SharedAnswer β :=
  match parseResponse raw with
  | .error reason => .error (.response reason)
  | .ok response => .ok (use response)

end Handlers

/-- `/daemon_status`. -/
def daemonStatusRules (parseResponse : String → Except String DaemonInfo) :
    SharedRules DaemonStatusResponse where
  parse := parseShared parseResponse DaemonStatusResponse.ofInfo
  failed memory := .ok (.unavailable memory)
  checksResult := true
  blank := .unavailable 0

/-- `/get_unspent_outs`, up to `generate_response` for each caller. -/
def unspentOutsRules (parseResponse : String → Except String FeeEstimate) :
    SharedRules FeeEstimate where
  parse := parseShared parseResponse id
  failed _ := .error .daemonTimeout
  checksResult := false
  blank := ⟨0, 0, 0⟩

end XfoLws.Rest
