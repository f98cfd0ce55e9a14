import Mathlib.Data.List.Perm.Basic
import XfoLws.Rest.Service

/-!
# Every request is answered in its turn

The callbacks under way are those of the requests that wait, one for each, so
that a response is never written to another connection or for another request.
-/

namespace XfoLws.Rest

open Wire

/-- The response that tells a reply. -/
def HttpRequest.respond (request : HttpRequest) : Reply → HttpResponse
  | .error error =>
      ⟨error.status, request.version, none, request.keepAlive, []⟩
  | .ok body =>
      ⟨.ok, request.version, some "application/json", request.keepAlive, body⟩

/-- The response when no handler runs. -/
def HttpRequest.refuse (request : HttpRequest) (status : HttpStatus) :
    HttpResponse :=
  ⟨status, request.version, none, request.keepAlive, []⟩

/-- What became of a call of `daemon_status`. -/
def StatusAnswer {σ : Type} (rules : RestRules σ)
    (shared : SharedServer DaemonStatusResponse) (caller : ℕ)
    (reply : Reply) : Prop :=
  (∃ value, (caller, value) ∈ shared.cached ∧ reply = rules.reply (.ok value)) ∨
    (caller ∈ shared.refused ∧ reply = .error rules.noClient) ∨
      ∃ value, (caller, value) ∈ shared.resumed ∧ reply = rules.reply value

theorem Connection.answer_eq {asked : Connection} {message : HttpRequest}
    (parser : asked.parser = some (some message))
    (keepAlive : asked.keepAlive = message.keepAlive) (reply : Reply) :
    asked.answer reply = asked.write (message.respond reply) := by
  cases reply with
  | error error =>
      simp [Connection.answer, badRequest, version, HttpRequest.respond, parser,
        keepAlive]
  | ok body =>
      simp [Connection.answer, validRequest, version, HttpRequest.respond,
        parser, keepAlive]

theorem Connection.badRequest_eq {asked : Connection} {message : HttpRequest}
    (parser : asked.parser = some (some message))
    (keepAlive : asked.keepAlive = message.keepAlive) (status : HttpStatus) :
    asked.badRequest status = asked.write (message.refuse status) := by
  simp [badRequest, version, HttpRequest.refuse, parser, keepAlive]

namespace RestService

variable {σ : Type} {rules : RestRules σ} {service next : RestService σ}

/-- The request was read, and the handler called for it. -/
def Asked (connections : List Connection) (ticket : Ticket)
    (handler : Endpoint) : Prop :=
  ∃ connection request, connections[ticket.1]? = some connection ∧
    connection.requests[ticket.2]? = some request ∧
    connection.parent.check request = .ok handler

/-- The handler gave the reply to the request. -/
def Replied (rules : RestRules σ) (service : RestService σ) (ticket : Ticket)
    (handler : Endpoint) (reply : Reply) : Prop :=
  if handler = daemonStatus then
    ∃ caller, service.tickets[caller]? = some ticket ∧
      StatusAnswer rules service.shared caller reply
  else (ticket, reply) ∈ service.replies

/-- The response is that of the reply to the request. -/
def Answered (rules : RestRules σ) (service : RestService σ) (ticket : Ticket)
    (parent : RestServer) (request : HttpRequest) (response : HttpResponse) :
    Prop :=
  match parent.check request with
  | .error status => response = request.refuse status
  | .ok handler =>
      ∃ reply, Replied rules service ticket handler reply ∧
        response = request.respond reply

/-- The responses of a connection are those of its requests, in order. -/
def ServedBy (rules : RestRules σ) (service : RestService σ) (index : ℕ)
    (connection : Connection) : Prop :=
  ∀ place request response, connection.requests[place]? = some request →
    connection.responses[place]? = some response →
    Answered rules service (index, place) connection.parent request response

/-- The callbacks of `daemon_status`, then those of the other handlers. -/
def callbacks (service : RestService σ) : List Ticket :=
  service.shared.waiting.filterMap (fun caller => service.tickets[caller]?) ++
    (service.pending ++ service.posted.map Prod.fst)

/-- The connection waits for a callback for this request. -/
def waits (connections : List Connection) (ticket : Ticket) : Bool :=
  match connections[ticket.1]? with
  | some connection =>
      connection.phase = .responding ∧
        connection.requests.length = ticket.2 + 1
  | none => false

/-- What holds in every reachable state. -/
structure Inv (rules : RestRules σ) (service : RestService σ) : Prop where
  shared : SharedServer.Inv rules.shared service.shared
  tickets : service.tickets.length = service.shared.calls.length
  connections : ∀ (index : ℕ) (connection : Connection),
    service.connections[index]? = some connection →
      connection.Inv ∧ ServedBy rules service index connection
  callbacks : ∀ ticket, service.callbacks.count ticket =
    if waits service.connections ticket then 1 else 0
  asked : ∀ (caller : ℕ) ticket, service.tickets[caller]? = some ticket →
    Asked service.connections ticket daemonStatus
  pending : ∀ ticket ∈ service.pending, ∃ handler,
    Asked service.connections ticket handler ∧ handler ≠ daemonStatus
  posted : ∀ entry ∈ service.posted, ∃ handler,
    Asked service.connections entry.1 handler ∧
      Replied rules service entry.1 handler entry.2
  distinct : (service.runs.map Prod.fst).Nodup
  runs : ∀ ticket handler, (ticket, handler) ∈ service.runs ↔
    Asked service.connections ticket handler

/-! ## What stays -/

/-- No reply is taken back. -/
structure Grows (service next : RestService σ) : Prop where
  tickets : service.tickets <+: next.tickets
  replies : service.replies ⊆ next.replies
  cached : service.shared.cached ⊆ next.shared.cached
  refused : service.shared.refused ⊆ next.shared.refused
  resumed : service.shared.resumed ⊆ next.shared.resumed

/-- No request is taken back either. -/
structure Extends (service next : RestService σ) : Prop extends
    Grows service next where
  connections : ∀ (index : ℕ) (connection : Connection),
    service.connections[index]? = some connection →
      ∃ after : Connection, next.connections[index]? = some after ∧
        after.parent = connection.parent ∧
        connection.requests <+: after.requests

theorem Grows.refl (service : RestService σ) : Grows service service :=
  ⟨List.prefix_rfl, List.Subset.refl _, List.Subset.refl _,
    List.Subset.refl _, List.Subset.refl _⟩

theorem getElem?_of_prefix {α : Type} {before after : List α} {place : ℕ}
    {value : α} (grows : before <+: after)
    (found : before[place]? = some value) : after[place]? = some value := by
  obtain ⟨more, rfl⟩ := grows
  obtain ⟨bound, _⟩ := List.getElem?_eq_some_iff.mp found
  rw [List.getElem?_append_left bound, found]

theorem Asked.later {ticket : Ticket} {handler : Endpoint}
    (asked : Asked service.connections ticket handler)
    (stays : Extends service next) :
    Asked next.connections ticket handler := by
  obtain ⟨connection, request, found, listed, checked⟩ := asked
  obtain ⟨after, here, parent, grows⟩ := stays.connections _ _ found
  refine ⟨after, request, here, getElem?_of_prefix grows listed, ?_⟩
  rw [parent, checked]

theorem Replied.later {ticket : Ticket} {handler : Endpoint} {reply : Reply}
    (replied : Replied rules service ticket handler reply)
    (stays : Extends service next) : Replied rules next ticket handler reply := by
  unfold Replied at replied ⊢
  split
  · rename_i status
    rw [if_pos status] at replied
    obtain ⟨caller, found, answer⟩ := replied
    refine ⟨caller, getElem?_of_prefix stays.tickets found, ?_⟩
    rcases answer with ⟨value, listed, same⟩ | ⟨refused, same⟩ |
      ⟨value, listed, same⟩
    · exact .inl ⟨value, stays.cached listed, same⟩
    · exact .inr (.inl ⟨stays.refused refused, same⟩)
    · exact .inr (.inr ⟨value, stays.resumed listed, same⟩)
  · rename_i other
    rw [if_neg other] at replied
    exact stays.replies replied

theorem Answered.later {ticket : Ticket} {parent : RestServer}
    {request : HttpRequest} {response : HttpResponse}
    (answered : Answered rules service ticket parent request response)
    (stays : Extends service next) :
    Answered rules next ticket parent request response := by
  unfold Answered at answered ⊢
  split
  · rename_i status checked
    rw [checked] at answered
    exact answered
  · rename_i handler checked
    rw [checked] at answered
    obtain ⟨reply, replied, same⟩ := answered
    exact ⟨reply, replied.later stays, same⟩

theorem ServedBy.later {index : ℕ} {connection : Connection}
    (served : ServedBy rules service index connection)
    (stays : Extends service next) : ServedBy rules next index connection :=
  fun place request response asked answered =>
    (served place request response asked answered).later stays

/-- A request that has no response yet. -/
theorem ServedBy.ask {index : ℕ} {connection after : Connection}
    (served : ServedBy rules service index connection)
    {message : HttpRequest} (parent : after.parent = connection.parent)
    (requests : after.requests = connection.requests ++ [message])
    (responses : after.responses = connection.responses)
    (counts : connection.requests.length = connection.responses.length) :
    ServedBy rules service index after := by
  intro place request response asked answered
  rw [requests] at asked
  rw [responses] at answered
  rw [parent]
  obtain ⟨bound, _⟩ := List.getElem?_eq_some_iff.mp answered
  rw [List.getElem?_append_left (by omega)] at asked
  exact served place request response asked answered

theorem ServedBy.write {index : ℕ} {connection : Connection}
    (served : ServedBy rules service index connection) {message : HttpRequest}
    {response : HttpResponse}
    (last : connection.requests.getLast? = some message)
    (counts : connection.requests.length = connection.responses.length + 1)
    (answered : Answered rules service (index, connection.requests.length - 1)
      connection.parent message response) :
    ServedBy rules service index (connection.write response) := by
  intro place request other asked listed
  change (connection.responses ++ [response])[place]? = some other at listed
  change connection.requests[place]? = some request at asked
  by_cases earlier : place < connection.responses.length
  · rw [List.getElem?_append_left earlier] at listed
    exact served place request other asked listed
  · obtain ⟨bound, _⟩ := List.getElem?_eq_some_iff.mp asked
    have here : place = connection.requests.length - 1 := by omega
    rw [List.getLast?_eq_getElem?, ← here, asked, Option.some.injEq] at last
    have place : place = connection.responses.length := by omega
    rw [place, List.getElem?_concat_length, Option.some.injEq] at listed
    subst last listed here
    exact answered

/-! ## One connection of the list -/

section Lists

variable {connections : List Connection} {index : ℕ}
  {connection after : Connection}

theorem getElem?_set_found (found : connections[index]? = some connection)
    (after : Connection) (place : ℕ) :
    (connections.set index after)[place]? =
      if place = index then some after else connections[place]? := by
  obtain ⟨bound, _⟩ := List.getElem?_eq_some_iff.mp found
  rw [List.getElem?_set]
  by_cases here : place = index
  · rw [if_pos here.symm, if_pos here, if_pos bound]
  · rw [if_neg (Ne.symm here), if_neg here]

theorem waits_set (found : connections[index]? = some connection)
    (after : Connection) (ticket : Ticket) :
    waits (connections.set index after) ticket =
      if ticket.1 = index then
        decide (after.phase = .responding ∧
          after.requests.length = ticket.2 + 1)
      else waits connections ticket := by
  unfold waits
  rw [getElem?_set_found found]
  by_cases here : ticket.1 = index
  · rw [if_pos here, if_pos here]
  · rw [if_neg here, if_neg here]

theorem waits_found (found : connections[index]? = some connection)
    {ticket : Ticket} (here : ticket.1 = index) :
    waits connections ticket =
      decide (connection.phase = .responding ∧
        connection.requests.length = ticket.2 + 1) := by
  unfold waits
  rw [here, found]

theorem waits_new (parent : RestServer) (ssl : Bool) (ticket : Ticket) :
    waits (connections ++ [.new parent ssl]) ticket =
      waits connections ticket := by
  unfold waits
  by_cases before : ticket.1 < connections.length
  · rw [List.getElem?_append_left before]
  · rw [List.getElem?_append_right (not_lt.mp before),
      List.getElem?_eq_none (not_lt.mp before)]
    cases ticket.1 - connections.length with
    | zero => rfl
    | succ place => rfl

theorem asked_set_same (found : connections[index]? = some connection)
    (parent : after.parent = connection.parent)
    (requests : after.requests = connection.requests) (ticket : Ticket)
    (handler : Endpoint) :
    Asked (connections.set index after) ticket handler ↔
      Asked connections ticket handler := by
  unfold Asked
  rw [getElem?_set_found found]
  by_cases here : ticket.1 = index
  · rw [if_pos here, here, found]
    simp [parent, requests]
  · rw [if_neg here]

theorem asked_set (found : connections[index]? = some connection)
    {message : HttpRequest} (parent : after.parent = connection.parent)
    (requests : after.requests = connection.requests ++ [message])
    (ticket : Ticket) (handler : Endpoint) :
    Asked (connections.set index after) ticket handler ↔
      Asked connections ticket handler ∨
        ticket = (index, connection.requests.length) ∧
          connection.parent.check message = .ok handler := by
  unfold Asked
  rw [getElem?_set_found found]
  obtain ⟨place, position⟩ := ticket
  by_cases here : place = index
  · subst here
    simp only [↓reduceIte, found, Option.some.injEq, exists_and_left,
      exists_eq_left', Prod.mk.injEq, true_and]
    rw [requests, parent]
    by_cases last : position = connection.requests.length
    · subst last
      simp
    · have same : (connection.requests ++ [message])[position]? =
          connection.requests[position]? := by
        rw [List.getElem?_append]
        split
        · rfl
        · rw [List.getElem?_eq_none (by simp; omega),
            List.getElem?_eq_none (by omega)]
      rw [same]
      simp [last]
  · simp [here]

theorem not_asked_yet (found : connections[index]? = some connection)
    (handler : Endpoint) :
    ¬ Asked connections (index, connection.requests.length) handler := by
  intro asked
  obtain ⟨other, request, here, listed, _⟩ := asked
  cases found.symm.trans here
  simp at listed

end Lists

/-! ## Steps -/

theorem Extends.of_set {index : ℕ} {connection after : Connection}
    (found : service.connections[index]? = some connection)
    (parent : after.parent = connection.parent)
    (grows : connection.requests <+: after.requests)
    (connections : next.connections = service.connections.set index after)
    (replies : Grows service next) : Extends service next where
  toGrows := replies
  connections place other here := by
    rw [connections, getElem?_set_found found]
    by_cases same : place = index
    · subst same
      cases found.symm.trans here
      rw [if_pos rfl]
      exact ⟨after, rfl, parent, grows⟩
    · rw [if_neg same]
      exact ⟨other, here, rfl, List.prefix_rfl⟩

/-- A function of one connection that neither asks nor answers. -/
theorem Inv.set (inv : Inv rules service) {index : ℕ}
    {connection after : Connection}
    (found : service.connections[index]? = some connection)
    (good : after.Inv) (kept : connection.Keeps after) :
    Inv rules (service.set index after) := by
  have stays : Extends service (service.set index after) :=
    .of_set found kept.parent (kept.requests ▸ List.prefix_rfl) rfl
      { Grows.refl service with }
  have asked := asked_set_same found kept.parent kept.requests
  exact
    { shared := inv.shared
      tickets := inv.tickets
      connections := fun place other here => by
        change (service.connections.set index after)[place]? = some other at here
        rw [getElem?_set_found found] at here
        by_cases same : place = index
        · subst same
          rw [if_pos rfl, Option.some.injEq] at here
          subst here
          refine ⟨good, ?_⟩
          have served := (inv.connections place connection found).2.later stays
          unfold ServedBy at served ⊢
          rw [kept.requests, kept.responses, kept.parent]
          exact served
        · rw [if_neg same] at here
          obtain ⟨well, served⟩ := inv.connections place other here
          exact ⟨well, served.later stays⟩
      callbacks := fun ticket => by
        refine (inv.callbacks ticket).trans ?_
        change _ = if waits (service.connections.set index after) ticket
          then 1 else 0
        rw [waits_set found]
        by_cases here : ticket.1 = index
        · rw [waits_found found here, if_pos here, kept.requests]
          simp [kept.responding]
        · rw [if_neg here]
      asked := fun caller ticket listed =>
        (asked ticket _).mpr (inv.asked caller ticket listed)
      pending := fun ticket member => by
        obtain ⟨handler, before, other⟩ := inv.pending ticket member
        exact ⟨handler, (asked ticket _).mpr before, other⟩
      posted := fun entry member => by
        obtain ⟨handler, before, replied⟩ := inv.posted entry member
        exact ⟨handler, (asked entry.1 _).mpr before, replied.later stays⟩
      distinct := inv.distinct
      runs := fun ticket handler =>
        (inv.runs ticket handler).trans (asked ticket handler).symm }

theorem Inv.change (inv : Inv rules service) {index : ℕ}
    {step : Connection → Option Connection}
    (stepped : ∀ connection after : Connection, connection.Inv →
      step connection = some after → after.Inv ∧ connection.Keeps after)
    (changed : service.change index step = some next) : Inv rules next := by
  simp only [RestService.change, Option.bind_eq_bind, Option.bind_eq_some_iff,
    Option.some.injEq] at changed
  obtain ⟨connection, found, after, made, rfl⟩ := changed
  obtain ⟨good, kept⟩ :=
    stepped connection after (inv.connections index connection found).1 made
  exact inv.set found good kept

/-- A request was read, and its response is written or waits for a callback. -/
structure ReadBy (rules : RestRules σ) (service next : RestService σ)
    (index : ℕ) (connection asked after : Connection)
    (message : HttpRequest) : Prop where
  found : service.connections[index]? = some connection
  reading : connection.phase = .reading
  reads : connection.Reads asked message
  connections : next.connections = service.connections.set index after
  grows : Grows service next
  runs : next.runs = service.runs ++
    (connection.parent.check message).toOption.toList.map fun handler =>
      ((index, connection.requests.length), handler)
  called : ∀ (caller : ℕ) ticket, next.tickets[caller]? = some ticket →
    service.tickets[caller]? = some ticket ∨
      ticket = (index, connection.requests.length) ∧
        connection.parent.check message = .ok daemonStatus
  pending : ∀ ticket ∈ next.pending, ticket ∈ service.pending ∨
    ticket = (index, connection.requests.length) ∧ ∃ handler,
      connection.parent.check message = .ok handler ∧
        handler ≠ daemonStatus
  posted : next.posted = service.posted
  outcome :
    (after = asked ∧ ∀ ticket, next.callbacks.count ticket =
      service.callbacks.count ticket +
        if ticket = (index, connection.requests.length) then 1 else 0) ∨
    ∃ response, after = asked.write response ∧
      Answered rules next (index, connection.requests.length)
        connection.parent message response ∧
      ∀ ticket, next.callbacks.count ticket = service.callbacks.count ticket

namespace ReadBy

variable {index : ℕ} {connection asked after : Connection}
  {message : HttpRequest}

theorem parent
    (read : ReadBy rules service next index connection asked after message) :
    after.parent = connection.parent := by
  rcases read.outcome with ⟨rfl, -⟩ | ⟨response, rfl, -⟩
  · exact read.reads.parent
  · exact read.reads.parent

theorem requests
    (read : ReadBy rules service next index connection asked after message) :
    after.requests = connection.requests ++ [message] := by
  rcases read.outcome with ⟨rfl, -⟩ | ⟨response, rfl, -⟩
  · exact read.reads.requests
  · exact read.reads.requests

theorem stays
    (read : ReadBy rules service next index connection asked after message) :
    Extends service next :=
  .of_set read.found read.parent ⟨[message], read.requests.symm⟩
    read.connections read.grows

theorem asked_iff
    (read : ReadBy rules service next index connection asked after message)
    (ticket : Ticket) (handler : Endpoint) :
    Asked next.connections ticket handler ↔
      Asked service.connections ticket handler ∨
        ticket = (index, connection.requests.length) ∧
          connection.parent.check message = .ok handler := by
  rw [read.connections]
  exact asked_set read.found read.parent read.requests ticket handler

/-- The connection that asked, with or without a response. -/
theorem served
    (read : ReadBy rules service next index connection asked after message)
    (inv : Inv rules service) :
    after.Inv ∧ ServedBy rules next index after := by
  have reads := read.reads
  obtain ⟨good, earlier⟩ := inv.connections index connection read.found
  have counts : connection.requests.length = connection.responses.length := by
    simpa [read.reading] using good.counts
  have size : asked.requests.length = connection.requests.length + 1 := by
    simp [reads.requests]
  have before := (earlier.later read.stays).ask reads.parent reads.requests
    reads.responses counts
  rcases read.outcome with ⟨rfl, -⟩ | ⟨response, rfl, answered, -⟩
  · exact ⟨reads.inv, before⟩
  · refine ⟨reads.inv.write reads.phase response, ?_⟩
    have last : asked.requests.getLast? = some message := by
      rw [reads.requests, List.getLast?_concat]
    apply before.write last
    · rw [size, reads.responses, counts]
    · rw [size, reads.parent]
      exact answered

theorem count_callbacks
    (read : ReadBy rules service next index connection asked after message)
    (inv : Inv rules service) (ticket : Ticket) :
    next.callbacks.count ticket =
      if waits next.connections ticket then 1 else 0 := by
  have count := inv.callbacks ticket
  rw [read.connections, waits_set read.found]
  by_cases here : ticket.1 = index
  · have quiet : service.callbacks.count ticket = 0 := by
      simpa [waits_found read.found here, read.reading] using count
    rw [if_pos here]
    rcases read.outcome with ⟨rfl, grown⟩ | ⟨response, rfl, -, same⟩
    · rw [grown, quiet, read.requests]
      obtain ⟨place, position⟩ := ticket
      simp only at here
      subst here
      simp [read.reads.phase, eq_comm]
    · rw [same, quiet]
      simp [Connection.write]
  · rw [if_neg here, ← count]
    have apart : ticket ≠ (index, connection.requests.length) :=
      fun same => here (congrArg Prod.fst same)
    rcases read.outcome with ⟨-, grown⟩ | ⟨response, -, -, same⟩
    · rw [grown, if_neg apart, Nat.add_zero]
    · exact same ticket

/-- The request is handled for the first time. -/
theorem distinct_runs
    (read : ReadBy rules service next index connection asked after message)
    (inv : Inv rules service) : (next.runs.map Prod.fst).Nodup := by
  rw [read.runs, List.map_append, List.nodup_append]
  refine ⟨inv.distinct, ?_, ?_⟩
  · cases connection.parent.check message with
    | error status => exact List.nodup_nil
    | ok handler => exact List.nodup_singleton _
  · intro ticket ran other new same
    obtain ⟨entry, listed, rfl⟩ := List.mem_map.mp ran
    obtain ⟨_, added, rfl⟩ := List.mem_map.mp new
    obtain ⟨_, -, rfl⟩ := List.mem_map.mp added
    have earlier := (inv.runs entry.1 entry.2).mp listed
    rw [same] at earlier
    exact not_asked_yet read.found entry.2 earlier

theorem mem_runs_iff
    (read : ReadBy rules service next index connection asked after message)
    (inv : Inv rules service) (ticket : Ticket) (handler : Endpoint) :
    (ticket, handler) ∈ next.runs ↔ Asked next.connections ticket handler := by
  rw [read.asked_iff, ← inv.runs, read.runs, List.mem_append]
  apply or_congr_right
  cases connection.parent.check message with
  | error status => simp [Except.toOption]
  | ok entry => simp [Except.toOption, eq_comm]

end ReadBy

theorem Inv.reads (inv : Inv rules service) {index : ℕ}
    {connection asked after : Connection} {message : HttpRequest}
    (read : ReadBy rules service next index connection asked after message)
    (shared : SharedServer.Inv rules.shared next.shared)
    (tickets : next.tickets.length = next.shared.calls.length) :
    Inv rules next where
  shared := shared
  tickets := tickets
  connections place other here := by
    rw [read.connections, getElem?_set_found read.found] at here
    by_cases same : place = index
    · subst same
      rw [if_pos rfl, Option.some.injEq] at here
      subst here
      exact read.served inv
    · rw [if_neg same] at here
      obtain ⟨well, served⟩ := inv.connections place other here
      exact ⟨well, served.later read.stays⟩
  callbacks := read.count_callbacks inv
  asked caller ticket listed := by
    rw [read.asked_iff]
    exact (read.called caller ticket listed).imp_left
      (inv.asked caller ticket)
  pending ticket member := by
    rcases read.pending ticket member with old | ⟨same, handler, checked, other⟩
    · obtain ⟨handler, before, other⟩ := inv.pending ticket old
      exact ⟨handler, (read.asked_iff ticket handler).mpr (.inl before), other⟩
    · exact ⟨handler, (read.asked_iff ticket handler).mpr
        (.inr ⟨same, checked⟩), other⟩
  posted entry member := by
    rw [read.posted] at member
    obtain ⟨handler, before, replied⟩ := inv.posted entry member
    exact ⟨handler, before.later read.stays, replied.later read.stays⟩
  distinct := read.distinct_runs inv
  runs := read.mem_runs_iff inv

theorem Inv.accept (inv : Inv rules service) (parent : RestServer)
    (ssl : Bool) :
    Inv rules
      { service with
        connections := service.connections ++ [.new parent ssl] } := by
  have append : ∀ (index : ℕ) (connection : Connection),
      (service.connections ++ [.new parent ssl])[index]? = some connection →
        service.connections[index]? = some connection ∨
          connection = .new parent ssl := by
    intro index connection found
    rw [List.getElem?_append] at found
    split at found
    · exact .inl found
    · right
      simpa using List.mem_of_getElem? found
  have stays : Extends service
      { service with
        connections := service.connections ++ [.new parent ssl] } :=
    { Grows.refl service with
      connections := fun index connection found =>
        ⟨connection, getElem?_of_prefix (List.prefix_append _ _) found, rfl,
          List.prefix_rfl⟩ }
  have asked : ∀ ticket handler,
      Asked (service.connections ++ [.new parent ssl]) ticket handler ↔
        Asked service.connections ticket handler := by
    intro ticket handler
    constructor
    · intro ⟨connection, request, found, listed, checked⟩
      rcases append _ _ found with before | rfl
      · exact ⟨connection, request, before, listed, checked⟩
      · cases listed
    · exact fun before => before.later stays
  exact
    { shared := inv.shared
      tickets := inv.tickets
      connections := fun index connection found => by
        rcases append _ _ found with before | rfl
        · obtain ⟨good, served⟩ := inv.connections index connection before
          exact ⟨good, served.later stays⟩
        · refine ⟨.new parent ssl, ?_⟩
          intro place request response listed
          cases listed
      callbacks := fun ticket => by
        rw [waits_new]
        exact inv.callbacks ticket
      asked := fun caller ticket listed =>
        (asked ticket _).mpr (inv.asked caller ticket listed)
      pending := fun ticket member => by
        obtain ⟨handler, before, other⟩ := inv.pending ticket member
        exact ⟨handler, (asked ticket _).mpr before, other⟩
      posted := fun entry member => by
        obtain ⟨handler, before, replied⟩ := inv.posted entry member
        exact ⟨handler, (asked entry.1 _).mpr before, replied.later stays⟩
      distinct := inv.distinct
      runs := fun ticket handler =>
        (inv.runs ticket handler).trans (asked ticket handler).symm }

theorem Inv.refuse (inv : Inv rules service) {index : ℕ}
    {connection asked : Connection} {message : HttpRequest}
    {status : HttpStatus}
    (found : service.connections[index]? = some connection)
    (reading : connection.phase = .reading)
    (reads : connection.Reads asked message)
    (refused : connection.parent.check message = .error status) :
    Inv rules (service.set index (asked.badRequest status)) := by
  refine inv.reads (.mk found reading reads rfl { Grows.refl service with } ?_
    (fun _ _ listed => .inl listed) (fun _ member => .inl member) rfl
    (.inr ?_)) inv.shared inv.tickets
  · rw [refused]
    exact (List.append_nil _).symm
  · refine ⟨message.refuse status,
      Connection.badRequest_eq reads.parser reads.keepAlive status, ?_,
      fun _ => rfl⟩
    simp [Answered, refused]

theorem Inv.waiting_lt (inv : Inv rules service) {caller : ℕ}
    (member : caller ∈ service.shared.waiting) :
    caller < service.tickets.length := by
  rw [inv.tickets]
  apply List.mem_range.mp
  apply inv.shared.callers.mem_iff.mp
  simp only [SharedServer.callers, List.mem_append]
  exact .inr (.inr (.inl member))

theorem Inv.waiting_tickets (inv : Inv rules service) (ticket : Ticket) :
    service.shared.waiting.filterMap
        (fun caller => (service.tickets ++ [ticket])[caller]?) =
      service.shared.waiting.filterMap fun caller =>
        service.tickets[caller]? := by
  apply List.filterMap_congr
  intro caller member
  exact List.getElem?_append_left (inv.waiting_lt member)

/-- What a call of `daemon_status` grows. -/
theorem Grows.handle (rules : RestRules σ) (made : Bool)
    (shared : next.shared = service.shared.handle rules.shared made)
    (tickets : service.tickets <+: next.tickets)
    (replies : next.replies = service.replies) : Grows service next := by
  obtain ⟨-, resumed, outcome⟩ :=
    SharedServer.handle_cases rules.shared service.shared made
  refine ⟨tickets, replies ▸ List.Subset.refl _, ?_, ?_, ?_⟩
  · rw [shared]
    rcases outcome with ⟨value, -, cached, -⟩ | ⟨-, cached, -⟩
    · rw [cached]
      exact List.subset_append_left _ _
    · rw [cached]
      exact List.Subset.refl _
  · rw [shared]
    rcases outcome with ⟨value, -, -, refused, -⟩ |
      ⟨-, -, ⟨-, refused, -⟩ | ⟨-, refused, -⟩⟩
    · rw [refused]
      exact List.Subset.refl _
    · rw [refused]
      exact List.Subset.refl _
    · rw [refused]
      exact List.subset_append_left _ _
  · rw [shared, resumed]
    exact List.Subset.refl _

theorem Inv.serveStatus (inv : Inv rules service) {index : ℕ}
    {connection asked : Connection} {message : HttpRequest}
    (found : service.connections[index]? = some connection)
    (reading : connection.phase = .reading)
    (reads : connection.Reads asked message)
    (checked : connection.parent.check message = .ok daemonStatus)
    (made : Bool) : Inv rules (service.serveStatus rules index asked made) := by
  have here : asked.requests.length - 1 = connection.requests.length := by
    simp [reads.requests]
  obtain ⟨calls, resumed, outcome⟩ :=
    SharedServer.handle_cases rules.shared service.shared made
  have caller : (service.tickets ++
      [(index, connection.requests.length)])[service.shared.calls.length]? =
        some (index, connection.requests.length) := by
    rw [← inv.tickets, List.getElem?_concat_length]
  have answered : ∀ reply, StatusAnswer rules
      (service.shared.handle rules.shared made) service.shared.calls.length
      reply → Answered rules (service.serveStatus rules index asked made)
        (index, connection.requests.length) connection.parent message
        (message.respond reply) := by
    intro reply answer
    simp only [Answered, checked]
    refine ⟨reply, ?_, rfl⟩
    simp only [Replied, ↓reduceIte, RestService.serveStatus, here]
    exact ⟨_, caller, answer⟩
  refine inv.reads (.mk found reading reads rfl ?_ ?_ ?_
    (fun _ member => .inl member) rfl ?_) (inv.shared.handle made)
    (by simp [RestService.serveStatus, calls, inv.tickets])
  · exact .handle rules made rfl (List.prefix_append _ _) rfl
  · rw [checked]
    simp [RestService.serveStatus, here, Except.toOption]
  · intro place ticket listed
    simp only [RestService.serveStatus, here] at listed
    rw [List.getElem?_append] at listed
    split at listed
    · exact .inl listed
    · have only := List.mem_of_getElem? listed
      exact .inr ⟨List.mem_singleton.mp only, checked⟩
  · have respond := Connection.answer_eq reads.parser reads.keepAlive
    rcases outcome with ⟨value, hit, cached, -, waiting⟩ |
      ⟨missed, cached, ⟨joins, -, waiting⟩ | ⟨alone, refused, waiting⟩⟩
    · -- the response is in the cache
      have reply : service.statusReply rules made = rules.reply (.ok value) := by
        simp [statusReply, hit]
      refine .inr ⟨_, ?_, answered (rules.reply (.ok value)) ?_, ?_⟩
      · rw [reply, ← respond]
        simp [Connection.deliver, RestRules.reply,
          DaemonStatusResponse.body_ne_nil]
      · refine .inl ⟨value, ?_, rfl⟩
        simp [cached]
      · intro ticket
        simp only [RestService.callbacks, RestService.serveStatus, waiting,
          inv.waiting_tickets]
    · -- the callback waits
      have reply : service.statusReply rules made = .ok [] := by
        simp [statusReply, missed, joins]
      refine .inl ⟨?_, fun ticket => ?_⟩
      · rw [reply]
        rfl
      · have moved := waiting.filterMap fun caller =>
          (service.tickets ++ [(index, connection.requests.length)])[caller]?
        rw [List.filterMap_cons, caller, inv.waiting_tickets] at moved
        have count := moved.count_eq ticket
        simp only [RestService.callbacks, RestService.serveStatus, here,
          List.count_append, List.count_cons, beq_iff_eq] at count ⊢
        simp only [eq_comm] at count ⊢
        omega
    · -- there is no socket
      have reply : service.statusReply rules made = .error rules.noClient := by
        simp [statusReply, missed, alone]
      refine .inr ⟨_, ?_, answered (.error rules.noClient) ?_, ?_⟩
      · rw [reply, ← respond]
        rfl
      · refine .inr (.inl ⟨?_, rfl⟩)
        simp [refused]
      · intro ticket
        simp only [RestService.callbacks, RestService.serveStatus, waiting,
          inv.waiting_tickets]

theorem Inv.serveOther (inv : Inv rules service) {index : ℕ}
    {connection asked : Connection} {message : HttpRequest}
    {handler : Endpoint}
    (found : service.connections[index]? = some connection)
    (reading : connection.phase = .reading)
    (reads : connection.Reads asked message)
    (checked : connection.parent.check message = .ok handler)
    (other : handler ≠ daemonStatus) :
    Inv rules (service.serveOther rules index asked handler message) := by
  have here : asked.requests.length - 1 = connection.requests.length := by
    simp [reads.requests]
  unfold RestService.serveOther
  rcases rules.run handler message.verb message.body service.world with
    ⟨reply, login, world⟩
  dsimp only
  have reads := reads.login (asked.passedLogin || login)
  rcases Connection.deliver_cases
    { asked with passedLogin := asked.passedLogin || login } handler reply with
    now | later
  · rw [now]
    dsimp only
    refine inv.reads (.mk found reading reads rfl ?_ ?_
      (fun _ _ listed => .inl listed) (fun _ member => .inl member) rfl
      (.inr ⟨message.respond reply,
        Connection.answer_eq reads.parser reads.keepAlive reply, ?_,
        fun _ => rfl⟩)) inv.shared inv.tickets
    · exact
        { Grows.refl service with
          replies := List.subset_append_left _ _ }
    · rw [checked, here]
      rfl
    · simp only [Answered, checked]
      refine ⟨reply, ?_, rfl⟩
      simp only [Replied, if_neg other, here]
      exact List.mem_append_right _ (List.mem_singleton_self _)
  · rw [later]
    dsimp only
    refine inv.reads (.mk found reading reads rfl { Grows.refl service with }
      ?_ (fun _ _ listed => .inl listed) ?_ rfl
      (.inl ⟨rfl, fun ticket => ?_⟩)) inv.shared inv.tickets
    · rw [checked, here]
      rfl
    · intro ticket member
      rcases List.mem_append.mp member with old | new
      · exact .inl old
      · rw [here] at new
        exact .inr ⟨List.mem_singleton.mp new, handler, checked, other⟩
    · simp only [RestService.callbacks, RestService.set, here,
        List.count_append, List.count_singleton, beq_iff_eq]
      simp only [eq_comm]
      omega

theorem Inv.read (inv : Inv rules service) {index : ℕ}
    {request : Option HttpRequest} {made : Bool}
    (ended : service.read rules index request made = some next) :
    Inv rules next := by
  simp only [RestService.read, Option.bind_eq_bind,
    Option.bind_eq_some_iff] at ended
  obtain ⟨connection, found, ⟨after, handler⟩, arrived, ended⟩ := ended
  have good := (inv.connections index connection found).1
  obtain ⟨reading, outcome⟩ := good.read arrived
  rcases outcome with ⟨well, kept, rfl⟩ | ⟨message, asked, rfl, reads, result⟩
  · have same : next = service.set index after := by
      cases request with
      | none => exact (Option.some.inj ended).symm
      | some message => exact (Option.some.inj ended).symm
    rw [same]
    exact inv.set found well kept
  · rcases result with ⟨status, refused, rfl, rfl⟩ |
      ⟨entry, checked, rfl, rfl⟩
    · cases ended
      exact inv.refuse found reading reads refused
    · dsimp only at ended
      split at ended
      · rename_i status
        cases ended
        rw [status] at checked
        exact inv.serveStatus found reading reads checked made
      · rename_i other
        cases ended
        exact inv.serveOther found reading reads checked other

/-! ## Callbacks -/

theorem eraseIdx_perm {α : Type} {items : List α} {position : ℕ} {item : α}
    (found : items[position]? = some item) :
    (item :: items.eraseIdx position).Perm items := by
  obtain ⟨bound, rfl⟩ := List.getElem?_eq_some_iff.mp found
  exact List.getElem_cons_eraseIdx_perm bound

theorem Inv.complete (inv : Inv rules service) {position : ℕ} {reply : Reply}
    (completed : service.complete position reply = some next) :
    Inv rules next := by
  simp only [RestService.complete, Option.bind_eq_bind, Option.bind_eq_some_iff,
    Option.some.injEq] at completed
  obtain ⟨ticket, found, rfl⟩ := completed
  have listed := List.mem_of_getElem? found
  have stays : Extends service
      { service with
        pending := service.pending.eraseIdx position
        posted := service.posted ++ [(ticket, reply)]
        replies := service.replies ++ [(ticket, reply)] } :=
    { Grows.refl service with
      replies := List.subset_append_left _ _
      connections := fun index connection here =>
        ⟨connection, here, rfl, List.prefix_rfl⟩ }
  exact
    { shared := inv.shared
      tickets := inv.tickets
      connections := fun index connection here => by
        obtain ⟨good, served⟩ := inv.connections index connection here
        exact ⟨good, served.later stays⟩
      callbacks := fun other => by
        refine .trans ?_ (inv.callbacks other)
        have moved := (eraseIdx_perm found).count_eq other
        simp only [RestService.callbacks, List.count_append, List.map_append,
          List.map_cons, List.map_nil, List.count_cons, List.count_nil] at moved ⊢
        omega
      asked := inv.asked
      pending := fun other member =>
        inv.pending other (List.mem_of_mem_eraseIdx member)
      posted := fun entry member => by
        rcases List.mem_append.mp member with old | new
        · obtain ⟨handler, asked, replied⟩ := inv.posted entry old
          exact ⟨handler, asked, replied.later stays⟩
        · rw [List.mem_singleton.mp new]
          obtain ⟨handler, asked, other⟩ := inv.pending ticket listed
          refine ⟨handler, asked, ?_⟩
          rw [Replied, if_neg other]
          exact List.mem_append_right _ (List.mem_singleton_self _)
      distinct := inv.distinct
      runs := inv.runs }

theorem Inv.waits_posted (inv : Inv rules service) {ticket : Ticket}
    {reply : Reply} (posted : (ticket, reply) ∈ service.posted) :
    ∃ connection, service.connections[ticket.1]? = some connection ∧
      connection.phase = .responding ∧
        connection.requests.length = ticket.2 + 1 := by
  have count := inv.callbacks ticket
  have listed : 0 < service.callbacks.count ticket := by
    apply List.count_pos_iff.mpr
    simp only [RestService.callbacks, List.mem_append, List.mem_map]
    exact .inr (.inr ⟨_, posted, rfl⟩)
  unfold waits at count
  cases found : service.connections[ticket.1]? with
  | none =>
      rw [found] at count
      simp at count
      omega
  | some connection =>
      rw [found] at count
      by_cases ready : connection.phase = .responding ∧
          connection.requests.length = ticket.2 + 1
      · exact ⟨connection, rfl, ready⟩
      · simp only [ready] at count
        simp at count
        omega

theorem Inv.resume (inv : Inv rules service) {position : ℕ}
    (resumes : service.resume position = some next) : Inv rules next := by
  simp only [RestService.resume, Option.bind_eq_bind, Option.bind_eq_some_iff,
    Option.some.injEq] at resumes
  obtain ⟨⟨ticket, reply⟩, listed, connection, found, rfl⟩ := resumes
  dsimp only at found ⊢
  have member := List.mem_of_getElem? listed
  obtain ⟨other, same, phase, size⟩ := inv.waits_posted member
  cases found.symm.trans same
  obtain ⟨good, served⟩ := inv.connections ticket.1 connection found
  obtain ⟨message, last, parser, keepAlive⟩ := good.current (.inl phase)
  obtain ⟨handler, asked, replied⟩ := inv.posted _ member
  have written := Connection.answer_eq parser keepAlive reply
  have parent : (connection.answer reply).parent = connection.parent := by
    rw [written]
    rfl
  have requests : (connection.answer reply).requests =
      connection.requests := by
    rw [written]
    rfl
  have stays : Extends service
      { service.set ticket.1 (connection.answer reply) with
        posted := service.posted.eraseIdx position } :=
    .of_set found parent (requests ▸ List.prefix_rfl) rfl
      { Grows.refl service with }
  have still := asked_set_same found parent requests
  have counts : connection.requests.length =
      connection.responses.length + 1 := by
    simpa [phase] using good.counts
  exact
    { shared := inv.shared
      tickets := inv.tickets
      connections := fun place other here => by
        change (service.connections.set ticket.1
          (connection.answer reply))[place]? = some other at here
        rw [getElem?_set_found found] at here
        by_cases same : place = ticket.1
        · rw [if_pos same, Option.some.injEq] at here
          subst here
          refine ⟨good.answer phase reply, ?_⟩
          rw [written, same]
          apply (served.later stays).write last counts
          obtain ⟨_, request, here, placed, checked⟩ := asked
          cases found.symm.trans here
          have place : connection.requests.length - 1 = ticket.2 := by omega
          rw [List.getLast?_eq_getElem?, place, placed, Option.some.injEq] at last
          subst last
          rw [place, Answered, checked]
          exact ⟨reply, replied.later stays, rfl⟩
        · rw [if_neg same] at here
          obtain ⟨well, served⟩ := inv.connections place other here
          exact ⟨well, served.later stays⟩
      callbacks := fun other => by
        have count := inv.callbacks other
        have moved := ((eraseIdx_perm listed).map Prod.fst).count_eq other
        simp only [RestService.callbacks, RestService.set, List.map_cons,
          List.count_append, List.count_cons, beq_iff_eq] at count moved ⊢
        change _ = if waits (service.connections.set ticket.1
          (connection.answer reply)) other then 1 else 0
        rw [waits_set found]
        by_cases here : other.1 = ticket.1
        · rw [waits_found found here] at count
          have same : ticket = other ↔
              connection.requests.length = other.2 + 1 := by
            rw [size, Prod.ext_iff, here]
            omega
          rw [if_pos here, written]
          simp only [phase, true_and, decide_eq_true_eq, ← same] at count
          simp only [Connection.write, reduceCtorEq, false_and, decide_false,
            Bool.false_eq_true, ↓reduceIte]
          omega
        · have apart : ticket ≠ other := fun same =>
            here (congrArg Prod.fst same).symm
          rw [if_neg here, ← count]
          rw [if_neg apart] at moved
          omega
      asked := fun caller ticket listed =>
        (still ticket _).mpr (inv.asked caller ticket listed)
      pending := fun ticket member => by
        obtain ⟨handler, before, other⟩ := inv.pending ticket member
        exact ⟨handler, (still ticket _).mpr before, other⟩
      posted := fun entry member => by
        obtain ⟨handler, before, replied⟩ :=
          inv.posted entry (List.mem_of_mem_eraseIdx member)
        exact ⟨handler, (still entry.1 _).mpr before, replied.later stays⟩
      distinct := inv.distinct
      runs := fun ticket handler =>
        (inv.runs ticket handler).trans (still ticket handler).symm }

theorem posted_tickets (rules : RestRules σ) (tickets : List Ticket)
    (answers : List (ℕ × SharedAnswer DaemonStatusResponse)) :
    (answers.filterMap fun answer => tickets[answer.1]?.map fun ticket =>
        (ticket, rules.reply answer.2)).map Prod.fst =
      (answers.map Prod.fst).filterMap fun caller => tickets[caller]? := by
  rw [List.map_filterMap, List.filterMap_map]
  apply List.filterMap_congr
  intro answer _member
  simp [Function.comp_def]

theorem Inv.daemon (inv : Inv rules service) {event : SharedEvent}
    (stepped : service.daemon rules event = some next) : Inv rules next := by
  unfold RestService.daemon at stepped
  split at stepped
  · cases stepped
  · rename_i kept
    rw [Bool.not_eq_false] at kept
    rw [Option.map_eq_some_iff] at stepped
    obtain ⟨shared, advanced, rfl⟩ := stepped
    obtain ⟨answers, resumes, -⟩ := SharedServer.step_resumes kept advanced
    have called := posted_tickets rules service.tickets answers
    rw [resumes.resumed, List.drop_left]
    have stays : Extends service
        { service with
          shared := shared
          posted := service.posted ++ answers.filterMap fun answer =>
            service.tickets[answer.1]?.map fun ticket =>
              (ticket, rules.reply answer.2) } :=
      { tickets := List.prefix_rfl
        replies := List.Subset.refl _
        cached := by rw [resumes.cached]; exact List.Subset.refl _
        refused := by rw [resumes.refused]; exact List.Subset.refl _
        resumed := by
          rw [resumes.resumed]
          exact List.subset_append_left _ _
        connections := fun index connection here =>
          ⟨connection, here, rfl, List.prefix_rfl⟩ }
    exact
      { shared := inv.shared.step advanced
        tickets := inv.tickets.trans (congrArg List.length resumes.calls.symm)
        connections := fun index connection here => by
          obtain ⟨good, served⟩ := inv.connections index connection here
          exact ⟨good, served.later stays⟩
        callbacks := fun other => by
          refine .trans ?_ (inv.callbacks other)
          have moved := (resumes.waiting.filterMap fun caller =>
            service.tickets[caller]?).count_eq other
          rw [List.filterMap_append, ← called] at moved
          simp only [RestService.callbacks, List.count_append,
            List.map_append] at moved ⊢
          omega
        asked := inv.asked
        pending := inv.pending
        posted := fun entry member => by
          rcases List.mem_append.mp member with old | new
          · obtain ⟨handler, asked, replied⟩ := inv.posted entry old
            exact ⟨handler, asked, replied.later stays⟩
          · obtain ⟨⟨caller, value⟩, listed, made⟩ := List.mem_filterMap.mp new
            obtain ⟨ticket, found, rfl⟩ := Option.map_eq_some_iff.mp made
            refine ⟨daemonStatus, inv.asked caller ticket found, ?_⟩
            rw [Replied, if_pos rfl]
            refine ⟨caller, found, .inr (.inr ⟨value, ?_, rfl⟩)⟩
            rw [resumes.resumed]
            exact List.mem_append_right _ listed
        distinct := inv.distinct
        runs := inv.runs }

theorem Inv.step (inv : Inv rules service) {event : RestEvent}
    (stepped : Steps rules service event next) : Inv rules next := by
  unfold Steps at stepped
  cases event with
  | accept parent ssl =>
      cases stepped
      exact inv.accept parent ssl
  | begin index =>
      exact inv.change (fun _ _ good begun =>
        ⟨good.begin begun, Connection.begin_keeps begun⟩) stepped
  | handshaken index success =>
      exact inv.change (fun _ _ good ended =>
        ⟨good.handshaken ended, Connection.handshaken_keeps ended⟩) stepped
  | read index request made => exact inv.read stepped
  | wrote index success =>
      exact inv.change (fun _ _ good ended =>
        ⟨good.wrote ended, Connection.wrote_keeps ended⟩) stepped
  | expire index =>
      exact inv.change (fun _ _ good expired =>
        ⟨good.expire expired, Connection.expire_keeps expired⟩) stepped
  | onTimeout index =>
      exact inv.change (fun _ _ good ran =>
        ⟨good.onTimeout ran, Connection.onTimeout_keeps ran⟩) stepped
  | daemon event => exact inv.daemon stepped
  | complete position reply => exact inv.complete stepped
  | resume position => exact inv.resume stepped

theorem Inv.start (rules : RestRules σ) (world : σ) (now : ℕ) :
    Inv rules (start world now) where
  shared := .start (.inl rfl)
  tickets := rfl
  connections _ _ found := by cases found
  callbacks _ := rfl
  asked _ _ listed := by cases listed
  pending := List.forall_mem_nil _
  posted := List.forall_mem_nil _
  distinct := List.nodup_nil
  runs ticket handler := by
    apply iff_of_false List.not_mem_nil
    intro ⟨_, _, found, _⟩
    cases found

theorem Inv.of_run {world : σ} {now : ℕ} {events : List RestEvent}
    (run : Run (Steps rules) (RestService.start world now) events service) :
    Inv rules service :=
  run.preserves (Inv rules) (fun _ _ _ inv stepped => inv.step stepped)
    (.start rules world now)

/-! ## Going on -/

/-- The steps up to the response of everybody who waits. -/
def distance (service : RestService σ) : ℕ :=
  2 * service.shared.distance +
    (2 * service.pending.length + service.posted.length)

/-- A handler goes on, or a callback is called or runs. -/
def advances : RestEvent → Bool
  | .daemon event => SharedServer.advances event
  | .complete _ _ => true
  | .resume _ => true
  | _ => false

/-- No further request is read. -/
def keeps : RestEvent → Bool
  | .read _ _ _ => false
  | _ => true

theorem change_distance {index : ℕ} {step : Connection → Option Connection}
    (changed : service.change index step = some next) :
    next.distance = service.distance := by
  simp only [RestService.change, Option.bind_eq_bind, Option.bind_eq_some_iff,
    Option.some.injEq] at changed
  obtain ⟨_, _, _, _, rfl⟩ := changed
  rfl

theorem daemon_distance {event : SharedEvent}
    (stepped : service.daemon rules event = some next) :
    next.distance + (if SharedServer.advances event then 1 else 0) ≤
      service.distance := by
  unfold RestService.daemon at stepped
  split at stepped
  · cases stepped
  · rename_i kept
    rw [Bool.not_eq_false] at kept
    rw [Option.map_eq_some_iff] at stepped
    obtain ⟨shared, advanced, rfl⟩ := stepped
    obtain ⟨answers, resumes, few⟩ := SharedServer.step_resumes kept advanced
    have nearer := SharedServer.step_distance advanced kept
    have posts := List.length_filterMap_le (fun answer : ℕ × _ =>
      service.tickets[answer.1]?.map fun ticket =>
        (ticket, rules.reply answer.2)) answers
    rw [resumes.resumed, List.drop_left]
    simp only [distance, List.length_append]
    omega

/-- Only a further request puts off the responses. -/
theorem step_distance {event : RestEvent} (kept : keeps event = true)
    (stepped : Steps rules service event next) :
    next.distance + (if advances event then 1 else 0) ≤ service.distance := by
  unfold Steps at stepped
  cases event with
  | accept parent ssl =>
      cases stepped
      exact le_rfl
  | begin index => exact (change_distance stepped).le
  | handshaken index success => exact (change_distance stepped).le
  | read index request made => cases kept
  | wrote index success => exact (change_distance stepped).le
  | expire index => exact (change_distance stepped).le
  | onTimeout index => exact (change_distance stepped).le
  | daemon event => exact daemon_distance stepped
  | complete position reply =>
      simp only [RestService.step, RestService.complete, Option.bind_eq_bind,
        Option.bind_eq_some_iff, Option.some.injEq] at stepped
      obtain ⟨ticket, found, rfl⟩ := stepped
      have size := (eraseIdx_perm found).length_eq
      simp only [distance, advances, List.length_cons, List.length_append,
        List.length_nil, ↓reduceIte] at size ⊢
      omega
  | resume position =>
      simp only [RestService.step, RestService.resume, Option.bind_eq_bind,
        Option.bind_eq_some_iff, Option.some.injEq] at stepped
      obtain ⟨entry, found, _, _, rfl⟩ := stepped
      have size := (eraseIdx_perm found).length_eq
      simp only [distance, advances, RestService.set, List.length_cons,
        ↓reduceIte] at size ⊢
      omega

/-- A run in which no request is read. -/
abbrev Drain (rules : RestRules σ) (service : RestService σ)
    (events : List RestEvent) (final : RestService σ) : Prop :=
  Run (fun service event next =>
    keeps event = true ∧ Steps rules service event next) service events final

theorem run_distance {later : List RestEvent} {final : RestService σ}
    (rest : Drain rules service later final) :
    final.distance + later.countP advances ≤ service.distance := by
  induction rest with
  | nil => exact le_rfl
  | @cons before middle final event later stepped _ induction =>
      have nearer := step_distance stepped.1 stepped.2
      rw [List.countP_cons]
      omega

theorem Inv.drain (inv : Inv rules service) {later : List RestEvent}
    {final : RestService σ} (rest : Drain rules service later final) :
    Inv rules final :=
  rest.preserves (Inv rules) (fun _ _ _ inv stepped => inv.step stepped.2) inv

/-- A connection that waits has a callback under way. -/
theorem Inv.responding (inv : Inv rules service) {index : ℕ}
    {connection : Connection}
    (found : service.connections[index]? = some connection)
    (waiting : connection.phase = .responding) :
    (index, connection.requests.length - 1) ∈ service.callbacks := by
  have good := (inv.connections index connection found).1
  obtain ⟨message, last, -⟩ := good.current (.inl waiting)
  have some : connection.requests ≠ [] := by
    intro none
    simp [none] at last
  have size := List.length_pos_of_ne_nil some
  apply List.count_pos_iff.mp
  have here : waits service.connections
      (index, connection.requests.length - 1) = true := by
    rw [waits_found found rfl]
    simp only [waiting, true_and, decide_eq_true_eq]
    omega
  rw [inv.callbacks, if_pos here]
  exact Nat.one_pos

/-- Whoever waits, there is a step towards a response. -/
theorem Inv.goesOn (inv : Inv rules service) {ticket : Ticket}
    (member : ticket ∈ service.callbacks) :
    ∃ event, advances event = true ∧ service.step rules event ≠ none := by
  rcases List.mem_append.mp member with status | others
  · obtain ⟨caller, waits, _⟩ := List.mem_filterMap.mp status
    have far : 0 < service.shared.distance := by
      have size := List.length_pos_of_mem waits
      unfold SharedServer.distance
      omega
    obtain ⟨event, nearer, possible⟩ :=
      @SharedServer.progress _ rules.shared _ far
    refine ⟨.daemon event, nearer, ?_⟩
    have kept : SharedServer.keeps event = true := by
      cases event with
      | call made => cases nearer
      | _ => rfl
    simpa [RestService.step, RestService.daemon, kept] using possible
  · rcases List.mem_append.mp others with pending | posted
    · have size := List.length_pos_of_mem pending
      refine ⟨.complete 0 (.ok []), rfl, ?_⟩
      simp [RestService.step, RestService.complete,
        List.getElem?_eq_getElem size]
    · obtain ⟨entry, listed, rfl⟩ := List.mem_map.mp posted
      obtain ⟨position, here⟩ := List.getElem?_of_mem listed
      obtain ⟨connection, found, _⟩ := inv.waits_posted listed
      refine ⟨.resume position, rfl, ?_⟩
      simp [RestService.step, RestService.resume, here, found]

/-! ## What clients may rely on -/

structure ServesRequests (rules : RestRules σ) (service : RestService σ) :
    Prop where
  /-- At most one request of a connection has no response. -/
  orderly : ∀ connection ∈ service.connections, connection.Inv
  served : ∀ (index : ℕ) (connection : Connection),
    service.connections[index]? = some connection →
      ServedBy rules service index connection
  /-- A handler runs once for each request that passes the checks. -/
  once : (service.runs.map Prod.fst).Nodup ∧ ∀ ticket handler,
    (ticket, handler) ∈ service.runs ↔
      Asked service.connections ticket handler
  /-- A callback finds its connection waiting for it. -/
  awaited : ∀ ticket reply, (ticket, reply) ∈ service.posted →
    ∃ connection, service.connections[ticket.1]? = some connection ∧
      connection.phase = .responding ∧
        connection.requests.length = ticket.2 + 1
  goesOn : ∀ connection ∈ service.connections, connection.phase = .responding →
    ∃ event, advances event = true ∧ service.step rules event ≠ none
  drains : ∀ later final, Drain rules service later final →
    service.distance ≤ later.countP advances →
      ∀ connection ∈ final.connections, connection.phase ≠ .responding

/-- Whatever the connections, handlers and callbacks do in between, the
responses of each connection are those of its requests, in their order. -/
theorem rest_serves_requests {world : σ} {now : ℕ} {events : List RestEvent}
    (run : Run (Steps rules) (RestService.start world now) events service) :
    ServesRequests rules service := by
  have inv := Inv.of_run run
  refine
    { orderly := fun connection member => ?_
      served := fun index connection found =>
        (inv.connections index connection found).2
      once := ⟨inv.distinct, inv.runs⟩
      awaited := fun ticket reply posted => inv.waits_posted posted
      goesOn := fun connection member waiting => ?_
      drains := fun later final rest enough connection member waiting => ?_ }
  · obtain ⟨index, found⟩ := List.getElem?_of_mem member
    exact (inv.connections index connection found).1
  · obtain ⟨index, found⟩ := List.getElem?_of_mem member
    exact inv.goesOn (inv.responding found waiting)
  · obtain ⟨index, found⟩ := List.getElem?_of_mem member
    have near := run_distance rest
    have none : final.callbacks = [] := by
      have waits : final.shared.waiting.length ≤ final.shared.distance := by
        unfold SharedServer.distance
        omega
      have far : final.distance = 0 := by omega
      unfold distance at far
      have first : final.shared.waiting = [] :=
        List.eq_nil_of_length_eq_zero (by omega)
      have second : final.pending = [] :=
        List.eq_nil_of_length_eq_zero (by omega)
      have third : final.posted = [] :=
        List.eq_nil_of_length_eq_zero (by omega)
      simp [RestService.callbacks, first, second, third]
    have member := (inv.drain rest).responding found waiting
    rw [none] at member
    cases member

def sampleRules : RestRules ℕ where
  parseResponse _ := .ok ⟨8, 4, 9, 9⟩
  network := "main"
  failure _ := .other .other
  noClient := .other .other
  run _ _ _ world := (.ok [7], false, world + 1)

def missingRequest : HttpRequest := ⟨.get, asciiBytes "/".toList, 11, true, []⟩

/-- A request that no endpoint has, and another behind it. -/
theorem rest_serves_missing : ∃ service : RestService ℕ,
    service.connections.map Connection.responses =
        [[missingRequest.refuse .notFound, missingRequest.refuse .notFound]] ∧
      ServesRequests sampleRules service := by
  refine ⟨_, ?_, @rest_serves_requests _ sampleRules _ 0 0
    [.accept ⟨some (asciiBytes ['/', 'x']), none⟩ false, .begin 0, .read 0 (some missingRequest) true,
      .wrote 0 true, .read 0 (some missingRequest) true]
    (.cons rfl (.cons rfl (.cons rfl (.cons rfl (.cons rfl (.nil _))))))⟩
  rfl

end RestService

end XfoLws.Rest
