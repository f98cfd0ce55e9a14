import XfoLws.Rest.ServiceRuns

/-!
# What a client of `daemon_status` reads

The response to a request tells a state of the daemon that was published less
than `daemon_cache_timeout` before the request was read, or later.
-/

namespace XfoLws.Rest

open Wire

namespace RestService

variable {σ : Type} {rules : RestRules σ} {service : RestService σ}

/-- Where a published state comes from: a response of the daemon, or none in
time. -/
def FromDaemon (rules : RestRules σ) (service : RestService σ) (time : ℕ)
    (state : DaemonStatusResponse) : Prop :=
  (∃ memory, state = .unavailable memory) ∨
    ∃ earlier raw info, (earlier, raw) ∈ service.shared.replies ∧
      earlier ≤ time ∧ rules.parseResponse raw = .ok info ∧
      state = .ofInfo info

/-- What the response to a request that was read at a time tells. -/
inductive TellsStatus (rules : RestRules σ) (service : RestService σ)
    (request : HttpRequest) (read : ℕ) (response : HttpResponse) : Prop where
  | state (time : ℕ) (state : DaemonStatusResponse)
      (recent : read < time + daemonCacheTimeout)
      (origin : FromDaemon rules service time state)
      (told : response = request.respond (rules.reply (.ok state)))
  /-- Published behind the request: what the daemon sent was no state. -/
  | failure (time : ℕ) (reason : String) (later : read ≤ time)
      (earlier : ℕ) (raw : String)
      (replied : (earlier, raw) ∈ service.shared.replies)
      (refused : rules.parseResponse raw = .error reason)
      (told : response =
        request.respond (rules.reply (.error (.response reason))))
  | noClient (told : response = request.respond (.error rules.noClient))

/-- Every published state comes from the daemon, and every published failure
tells why a response could not be read. -/
theorem published_origin (inv : Inv rules service) {time : ℕ}
    {value : SharedAnswer DaemonStatusResponse}
    (listed : (time, value) ∈ service.shared.published) :
    (∃ state, value = .ok state ∧ FromDaemon rules service time state) ∨
      ∃ reason earlier raw, value = .error (.response reason) ∧
        (earlier, raw) ∈ service.shared.replies ∧
        rules.parseResponse raw = .error reason := by
  obtain ⟨_, _, _, _, origin⟩ := inv.shared.published _ listed
  rcases origin with ⟨memory, same⟩ | ⟨earlier, raw, replied, _, order, same⟩
  · exact .inl ⟨.unavailable memory, same, .inl ⟨memory, rfl⟩⟩
  · simp only [RestRules.shared, daemonStatusRules, parseShared] at same
    cases parsed : rules.parseResponse raw with
    | error reason =>
        rw [parsed] at same
        exact .inr ⟨reason, earlier, raw, same, replied, parsed⟩
    | ok info =>
        rw [parsed] at same
        exact .inl ⟨.ofInfo info, same,
          .inr ⟨earlier, raw, info, replied, order, parsed, rfl⟩⟩

/-- Over any connection, at any time and among any other requests, a client of
`daemon_status` reads a recent state of the daemon. -/
theorem status_clients_read_recent {world : σ} {now : ℕ}
    {events : List RestEvent}
    (run : Run (Steps rules) (RestService.start world now) events service)
    {index place : ℕ} {connection : Connection} {request : HttpRequest}
    {response : HttpResponse}
    (found : service.connections[index]? = some connection)
    (asked : connection.requests[place]? = some request)
    (answered : connection.responses[place]? = some response)
    (checked : connection.parent.check request = .ok daemonStatus) :
    ∃ (caller : ℕ) (read : ℕ),
      service.tickets[caller]? = some (index, place) ∧
      service.shared.calls[caller]? = some read ∧
      TellsStatus rules service request read response := by
  have inv := Inv.of_run run
  have served := (inv.connections index connection found).2 place request
    response asked answered
  rw [Answered, checked] at served
  obtain ⟨reply, replied, told⟩ := served
  rw [Replied, if_pos rfl] at replied
  obtain ⟨caller, ticket, answer⟩ := replied
  rcases answer with ⟨state, cached, rfl⟩ | ⟨refused, rfl⟩ |
    ⟨value, resumed, rfl⟩
  · -- the cache has an answer
    obtain ⟨read, time, called, listed, _, recent⟩ :=
      inv.shared.cached _ cached
    refine ⟨caller, read, ticket, called, ?_⟩
    rcases published_origin inv listed with ⟨same, equal, origin⟩ |
      ⟨reason, _, _, equal, _⟩
    · cases equal
      exact .state time state recent origin told
    · cases equal
  · -- no socket could be made
    have known : caller ∈ service.shared.callers := by
      simp only [SharedServer.callers, List.mem_append]
      exact .inr (.inl refused)
    obtain ⟨read, called, _⟩ := inv.shared.askedBy known
    exact ⟨caller, read, ticket, called, .noClient told⟩
  · -- the call under way has ended
    obtain ⟨_, time, listed, _, known, _⟩ := inv.shared.resumed _ resumed
    obtain ⟨_, read, called, order⟩ :=
      known caller (List.mem_singleton_self _)
    refine ⟨caller, read, ticket, called, ?_⟩
    rcases published_origin inv listed with ⟨state, rfl, origin⟩ |
      ⟨reason, earlier, raw, rfl, replied, refused⟩
    · have recent : read < time + daemonCacheTimeout := by
        have some : 0 < daemonCacheTimeout := by simp [daemonCacheTimeout]
        omega
      exact .state time state recent origin told
    · exact .failure time reason order earlier raw replied refused told

def statusRequest : HttpRequest :=
  ⟨.get, daemonStatus.name, 11, true, []⟩

/-- A port without prefixes. -/
def plainPort : RestServer := ⟨some [], none⟩

theorem statusRequest_checked :
    plainPort.check statusRequest = .ok daemonStatus := by
  have found : plainPort.getEndpoint daemonStatus.name = some daemonStatus :=
    getEndpoint_endpoints daemonStatus List.mem_cons_self (by decide)
  have runs : daemonStatus.runs = true := by decide
  simp [RestServer.check, statusRequest, found, runs]

/-- The callback of the only client of a call runs. -/
theorem status_client_reads : ∃ (service : RestService ℕ) (caller read : ℕ)
    (response : HttpResponse),
    service.tickets[caller]? = some (0, 0) ∧
      service.shared.calls[caller]? = some read ∧
      TellsStatus sampleRules service statusRequest read response := by
  obtain ⟨caller, read, ticket, called, told⟩ :=
    @status_clients_read_recent ℕ sampleRules _ 0 0
      [.accept plainPort false, .begin 0, .read 0 (some statusRequest) true,
        .daemon .begin, .daemon (.wrote true), .daemon (.received (some "")),
        .daemon (.respond 0), .daemon (.resume 0), .resume 0]
      (.cons rfl (.cons rfl (.cons rfl (.cons rfl (.cons rfl (.cons rfl
        (.cons rfl (.cons rfl (.cons rfl (.nil _))))))))))
      0 0 _ _ _ rfl rfl rfl statusRequest_checked
  exact ⟨_, caller, read, _, ticket, called, told⟩

end RestService

end XfoLws.Rest
