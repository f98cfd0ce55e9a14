import Mathlib.Data.List.Flatten
import XfoLws.Rest.SharedCalls

/-!
# Every caller of a shared call is answered

A caller gets one answer: a kept result that is not older than
`daemon_cache_timeout`, or what the call under way came to.
-/

namespace XfoLws.Rest

/-- The caller asked before that time. -/
def AskedBy (calls : List ℕ) (caller time : ℕ) : Prop :=
  ∃ asked, calls[caller]? = some asked ∧ asked ≤ time

theorem AskedBy.append {calls : List ℕ} {caller time : ℕ}
    (asked : AskedBy calls caller time) (more : List ℕ) :
    AskedBy (calls ++ more) caller time := by
  obtain ⟨earlier, found, order⟩ := asked
  refine ⟨earlier, ?_, order⟩
  obtain ⟨bound, _⟩ := List.getElem?_eq_some_iff.mp found
  rw [List.getElem?_append_left bound, found]

section Replies

variable {α : Type} {rules : SharedRules α}

/-- A value was made of a response of the daemon between two times. -/
def Replied (rules : SharedRules α) (replies : List (ℕ × String))
    (value : SharedAnswer α) (since time : ℕ) : Prop :=
  ∃ replied raw, (replied, raw) ∈ replies ∧ since ≤ replied ∧ replied ≤ time ∧
    value = rules.parse raw

theorem Replied.later {replies : List (ℕ × String)} {value : SharedAnswer α}
    {since time after : ℕ} (replied : Replied rules replies value since time)
    (order : time ≤ after) (more : List (ℕ × String)) :
    Replied rules (replies ++ more) value since after := by
  obtain ⟨replied, raw, listed, late, before, same⟩ := replied
  exact ⟨replied, raw, List.mem_append_left _ listed, late,
    before.trans order, same⟩

theorem Replied.until {replies : List (ℕ × String)} {value : SharedAnswer α}
    {since time after : ℕ} (replied : Replied rules replies value since time)
    (order : time ≤ after) : Replied rules replies value since after := by
  have later := replied.later order []
  rwa [List.append_nil] at later

end Replies

namespace SharedServer

variable {α : Type} {rules : SharedRules α} {server next : SharedServer α}

/-! ## Callers -/

/-- The callers of the call under way. -/
def asking (server : SharedServer α) : List ℕ :=
  (server.status.map SharedFrame.resumers).getD []

/-- The callers without an answer. -/
def waiting (server : SharedServer α) : List ℕ :=
  server.asking ++ server.finishing.flatMap Prod.fst

/-- All callers, by what became of them. -/
def callers (server : SharedServer α) : List ℕ :=
  server.cached.map Prod.fst ++
    (server.refused ++ (server.waiting ++ server.resumed.map Prod.fst))

/-- The answer was kept for less than `daemon_cache_timeout`. -/
def Kept (calls : List ℕ) (published : List (ℕ × SharedAnswer α))
    (answer : ℕ × α) : Prop :=
  ∃ asked time, calls[answer.1]? = some asked ∧
    (time, .ok answer.2) ∈ published ∧ time ≤ asked ∧
      asked < time + daemonCacheTimeout

theorem Kept.append {calls : List ℕ} {published : List (ℕ × SharedAnswer α)}
    {answer : ℕ × α} (kept : Kept calls published answer) (more : List ℕ)
    (others : List (ℕ × SharedAnswer α)) :
    Kept (calls ++ more) (published ++ others) answer := by
  obtain ⟨asked, time, found, listed, order, recent⟩ := kept
  obtain ⟨bound, _⟩ := List.getElem?_eq_some_iff.mp found
  refine ⟨asked, time, ?_, List.mem_append_left _ listed, order, recent⟩
  rw [List.getElem?_append_left bound, found]

/-- The histories of a state are continued. -/
structure Grows (server next : SharedServer α) : Prop where
  calls : server.calls <+: next.calls
  resumed : server.resumed <+: next.resumed
  replies : server.replies <+: next.replies
  published : server.published <+: next.published

theorem Grows.found (grows : Grows server next) {caller asked : ℕ}
    (found : server.calls[caller]? = some asked) :
    next.calls[caller]? = some asked := by
  obtain ⟨bound, same⟩ := List.getElem?_eq_some_iff.mp found
  rw [← same]
  exact List.prefix_iff_getElem?.mp grows.calls caller bound

/-- What came of the call to the daemon that a caller began: its failure, or
what the daemon responded since then. -/
def CallEnded (rules : SharedRules α) (server : SharedServer α) (first time : ℕ)
    (value : SharedAnswer α) : Prop :=
  ∃ asked, server.calls[first]? = some asked ∧ asked ≤ time ∧
    ((∃ memory, value = rules.failed memory) ∨
      Replied rules server.replies value asked time)

theorem CallEnded.later {first time : ℕ} {value : SharedAnswer α}
    (ended : CallEnded rules server first time value)
    (grows : Grows server next) : CallEnded rules next first time value := by
  obtain ⟨asked, found, order, origin⟩ := ended
  obtain ⟨more, same⟩ := grows.replies
  refine ⟨asked, grows.found found, order, ?_⟩
  exact origin.imp_right fun replied => same ▸ replied.later le_rfl more

/-- An answer that was published after these callers asked, as what came of the
call that the first of them, who got it too, began. -/
def Published (rules : SharedRules α) (server : SharedServer α)
    (callers : List ℕ) (value : SharedAnswer α) : Prop :=
  ∃ first time, (time, value) ∈ server.published ∧
    CallEnded rules server first time value ∧
    (∀ caller ∈ callers, first ≤ caller ∧ AskedBy server.calls caller time) ∧
    (callers.head? = some first ∨ (first, value) ∈ server.resumed)

theorem Published.later {callers : List ℕ} {value : SharedAnswer α}
    (before : Published rules server callers value)
    (grows : Grows server next) : Published rules next callers value := by
  obtain ⟨first, time, listed, ended, asked, shared⟩ := before
  obtain ⟨more, same⟩ := grows.calls
  refine ⟨first, time, grows.published.subset listed, ended.later grows, ?_,
    shared.imp_right fun member => grows.resumed.subset member⟩
  intro caller member
  have this := asked caller member
  exact ⟨this.1, same ▸ this.2.append more⟩

/-- The call under way was begun by the first of its callers, and a response is
of the time since then. -/
structure Begun (rules : SharedRules α) (server : SharedServer α)
    (frame : SharedFrame α) (first asked : ℕ) : Prop where
  head : frame.resumers.head? = some first
  found : server.calls[first]? = some asked
  joined : ∀ caller ∈ frame.resumers, first ≤ caller
  judged : ∀ value, frame.phase = .responding value →
    Replied rules server.replies value asked server.now

theorem Begun.found_again {frame : SharedFrame α} {first asked : ℕ}
    (begun : Begun rules server frame first asked) {more : List ℕ} :
    (server.calls ++ more)[first]? = some asked := by
  obtain ⟨bound, _⟩ := List.getElem?_eq_some_iff.mp begun.found
  rw [List.getElem?_append_left bound, begun.found]

structure Inv (rules : SharedRules α) (server : SharedServer α) : Prop where
  called : ∀ time ∈ server.calls, time ≤ server.now
  stored : ∀ value, server.result = some value →
    server.last ≤ server.now ∧ (server.last, .ok value) ∈ server.published
  /-- An empty result is not given out. -/
  blank : server.result = none →
    rules.checksResult = true ∨
      server.last + daemonCacheTimeout ≤ server.now
  renewed : server.status ≠ none → server.result = none
  callers : server.callers.Perm (List.range server.calls.length)
  cached : ∀ answer ∈ server.cached,
    Kept server.calls server.published answer
  finishing : ∀ group ∈ server.finishing,
    Published rules server group.1 group.2
  resumed : ∀ answer ∈ server.resumed,
    Published rules server [answer.1] answer.2
  published : ∀ entry ∈ server.published,
    ∃ first, CallEnded rules server first entry.1 entry.2
  begun : ∀ frame, server.status = some frame →
    ∃ first asked, Begun rules server frame first asked

theorem Inv.start {now : ℕ}
    (late : rules.checksResult = true ∨ daemonCacheTimeout ≤ now) :
    Inv rules (start now) where
  called := List.forall_mem_nil _
  stored _ found := by cases found
  blank _ := by simpa [SharedServer.start] using late
  renewed _ := rfl
  callers := .refl _
  cached := List.forall_mem_nil _
  finishing := List.forall_mem_nil _
  resumed := List.forall_mem_nil _
  published := List.forall_mem_nil _
  begun _ found := by cases found

/-- What the cache gives out was stored less than `daemon_cache_timeout`
before. -/
theorem Inv.hit (inv : Inv rules server) {value : α}
    (found : server.cachedAnswer rules = some value) :
    server.last ≤ server.now ∧
      (server.last, .ok value) ∈ server.published ∧
      server.now < server.last + daemonCacheTimeout := by
  unfold cachedAnswer at found
  split at found
  · cases found
  · rename_i checked
    split at found
    · rename_i recent
      cases result : server.result with
      | none =>
          have late := (inv.blank result).resolve_left fun checks =>
            checked ⟨checks, by simp [result]⟩
          omega
      | some stored =>
          rw [result, Option.getD_some, Option.some.injEq] at found
          subst found
          obtain ⟨order, published⟩ := inv.stored stored result
          exact ⟨order, published, by omega⟩
    · cases found

/-- Without a hit, the empty result may be stored. -/
theorem late_of_miss (missed : server.cachedAnswer rules = none) :
    rules.checksResult = true ∨
      server.last + daemonCacheTimeout ≤ server.now := by
  have some : 0 < daemonCacheTimeout := by simp [daemonCacheTimeout]
  unfold cachedAnswer at missed
  split at missed
  · rename_i checks
    exact .inl checks.1
  · split at missed
    · cases missed
    · rename_i late
      right
      omega

theorem Inv.askedBy (inv : Inv rules server) {caller : ℕ}
    (member : caller ∈ server.callers) :
    AskedBy server.calls caller server.now := by
  have bound := List.mem_range.mp (inv.callers.mem_iff.mp member)
  have found := List.getElem?_eq_getElem bound
  exact ⟨_, found, inv.called _ (List.mem_of_getElem? found)⟩

theorem leaves_perm {groups : List (List ℕ × SharedAnswer α)} {index caller : ℕ}
    {rest : List ℕ} {value : SharedAnswer α}
    (found : groups[index]? = some (caller :: rest, value)) :
    (groups.flatMap Prod.fst).Perm
      (caller :: (groups.set index (rest, value)).flatMap Prod.fst) := by
  induction groups generalizing index with
  | nil => cases found
  | cons group groups induction =>
      cases index with
      | zero =>
          cases found
          exact .refl _
      | succ index =>
          have later := (induction found).append_left group.1
          exact later.trans List.perm_middle

/-! ## Steps -/

theorem Inv.pass (inv : Inv rules server) (time : ℕ) :
    Inv rules { server with now := server.now + time } where
  called asked member := (inv.called asked member).trans (Nat.le_add_right _ _)
  stored value found := by
    obtain ⟨order, published⟩ := inv.stored value found
    exact ⟨order.trans (Nat.le_add_right _ _), published⟩
  blank found := (inv.blank found).imp_right fun late =>
    late.trans (Nat.le_add_right _ _)
  renewed := inv.renewed
  callers := inv.callers
  cached := inv.cached
  finishing := inv.finishing
  resumed := inv.resumed
  published := inv.published
  begun frame found := by
    obtain ⟨first, asked, begun⟩ := inv.begun frame found
    refine ⟨first, asked, begun.head, begun.found, begun.joined, ?_⟩
    exact fun value phase =>
      (begun.judged value phase).until (Nat.le_add_right _ _)

theorem Inv.goesOn (inv : Inv rules server) {frame after : SharedFrame α}
    (found : server.status = some frame)
    (kept : after.resumers = frame.resumers) (replies : List (ℕ × String))
    (judged : ∀ value, after.phase = .responding value →
      frame.phase = .responding value ∨
        ∃ raw, (server.now, raw) ∈ replies ∧ value = rules.parse raw) :
    Inv rules
      { server with
        status := some after
        replies := server.replies ++ replies } where
  called := inv.called
  stored := inv.stored
  blank := inv.blank
  renewed _ := inv.renewed (by simp [found])
  callers := by
    have same := inv.callers
    simp only [SharedServer.callers, waiting, asking, found, Option.map_some,
      Option.getD_some, kept] at same ⊢
    exact same
  cached := inv.cached
  finishing group member := (inv.finishing group member).later
    ⟨List.prefix_rfl, List.prefix_rfl, List.prefix_append _ _, List.prefix_rfl⟩
  resumed answer member := (inv.resumed answer member).later
    ⟨List.prefix_rfl, List.prefix_rfl, List.prefix_append _ _, List.prefix_rfl⟩
  published entry member := (inv.published entry member).imp fun _ ended =>
    ended.later
      ⟨List.prefix_rfl, List.prefix_rfl, List.prefix_append _ _,
        List.prefix_rfl⟩
  begun other same := by
    cases same
    obtain ⟨first, asked, begun⟩ := inv.begun frame found
    refine ⟨first, asked, by rw [kept]; exact begun.head, begun.found,
      by rw [kept]; exact begun.joined, fun value phase => ?_⟩
    rcases judged value phase with before | ⟨raw, listed, parsed⟩
    · exact (begun.judged value before).later le_rfl _
    · exact ⟨server.now, raw, List.mem_append_right _ listed,
        inv.called _ (List.mem_of_getElem? begun.found), le_rfl, parsed⟩

private theorem grows_called {calls : List ℕ}
    (called : next.calls = server.calls ++ calls)
    (resumed : next.resumed = server.resumed)
    (replies : next.replies = server.replies)
    (published : next.published = server.published) : Grows server next where
  calls := called ▸ List.prefix_append _ _
  resumed := resumed ▸ List.prefix_rfl
  replies := replies ▸ List.prefix_rfl
  published := published ▸ List.prefix_rfl

private theorem Inv.called_again (inv : Inv rules server)
    (calls : next.calls = server.calls ++ [server.now])
    (now : next.now = server.now) (last : next.last = server.last)
    (published : next.published = server.published)
    (finishing : next.finishing = server.finishing)
    (resumed : next.resumed = server.resumed)
    (replies : next.replies = server.replies)
    (result : next.result = server.result ∨ next.result = none ∧
      (rules.checksResult = true ∨
        server.last + daemonCacheTimeout ≤ server.now))
    (renewed : next.status ≠ none → next.result = none)
    (callers : next.callers.Perm (server.callers ++ [server.calls.length]))
    (cached : ∀ answer ∈ next.cached, answer ∈ server.cached ∨
      Kept next.calls server.published answer)
    (begun : ∀ frame, next.status = some frame →
      ∃ first asked, Begun rules next frame first asked) :
    Inv rules next where
  called := by
    rw [calls, now]
    intro time member
    rcases List.mem_append.mp member with before | this
    · exact inv.called time before
    · exact (List.mem_singleton.mp this).le
  stored value found := by
    rw [last, now, published]
    rcases result with same | ⟨none, _⟩
    · exact inv.stored value (same ▸ found)
    · cases none.symm.trans found
  blank found := by
    rw [last, now]
    rcases result with same | ⟨_, late⟩
    · exact inv.blank (same ▸ found)
    · exact late
  renewed := renewed
  callers := by
    rw [calls, List.length_append, List.length_singleton, List.range_succ]
    exact callers.trans (inv.callers.append_right _)
  cached answer member := by
    rw [published]
    rcases cached answer member with before | new
    · have kept := (inv.cached answer before).append [server.now] []
      rwa [List.append_nil, ← calls] at kept
    · exact new
  finishing group member := by
    rw [finishing] at member
    exact (inv.finishing group member).later
      (grows_called calls resumed replies published)
  resumed answer member := by
    rw [resumed] at member
    exact (inv.resumed answer member).later
      (grows_called calls resumed replies published)
  published entry member := by
    rw [published] at member
    exact (inv.published entry member).imp fun _ ended =>
      ended.later (grows_called calls resumed replies published)
  begun := begun

theorem Inv.handle (inv : Inv rules server) (made : Bool) :
    Inv rules (server.handle rules made) := by
  unfold SharedServer.handle
  dsimp only
  cases hit : server.cachedAnswer rules with
  | some value =>
      -- the answer is in the cache
      obtain ⟨order, published, recent⟩ := inv.hit hit
      dsimp only
      refine inv.called_again rfl rfl rfl rfl rfl rfl rfl (.inl rfl)
        inv.renewed ?_ ?_ ?_
      · apply List.perm_iff_count.mpr
        intro other
        simp only [SharedServer.callers, waiting, asking, List.map_append,
          List.map_cons, List.map_nil, List.count_append]
        omega
      · intro answer member
        refine (List.mem_append.mp member).imp_right fun last => ?_
        cases List.mem_singleton.mp last
        refine ⟨server.now, server.last, ?_, published, order, recent⟩
        exact List.getElem?_concat_length
      · intro frame found
        obtain ⟨first, asked, begun⟩ := inv.begun frame found
        exact ⟨first, asked, begun.head, begun.found_again, begun.joined,
          begun.judged⟩
  | none =>
      have late := late_of_miss hit
      cases found : server.status with
      | some frame =>
          -- the caller joins those of the call under way
          have renewed := inv.renewed (by simp [found])
          dsimp only
          refine inv.called_again rfl rfl rfl rfl rfl rfl rfl (.inl rfl)
            (fun _ => renewed) ?_ ?_ ?_
          · apply List.perm_iff_count.mpr
            intro other
            simp only [SharedServer.callers, waiting, asking, found,
              Option.map_some, Option.getD_some, List.count_append]
            omega
          · exact fun answer member => .inl member
          · intro after same
            cases same
            obtain ⟨first, asked, begun⟩ := inv.begun frame found
            refine ⟨first, asked, ?_, begun.found_again, ?_, begun.judged⟩
            · rw [List.head?_append, begun.head, Option.some_or]
            · intro caller member
              rcases List.mem_append.mp member with joined | last
              · exact begun.joined caller joined
              · rw [List.mem_singleton.mp last]
                exact (List.getElem?_eq_some_iff.mp begun.found).1.le
      | none =>
          dsimp only
          split
          · -- a call is started
            refine inv.called_again rfl rfl rfl rfl rfl rfl rfl
              (.inr ⟨rfl, late⟩) (fun _ => rfl) ?_ ?_ ?_
            · apply List.perm_iff_count.mpr
              intro other
              simp only [SharedServer.callers, waiting, asking, found,
                SharedFrame.new, Option.map_some, Option.getD_some,
                Option.map_none, Option.getD_none, List.count_append,
                List.nil_append]
              omega
            · exact fun answer member => .inl member
            · intro after same
              cases same
              refine ⟨server.calls.length, server.now, rfl,
                List.getElem?_concat_length, ?_, fun _ phase => by cases phase⟩
              exact List.forall_mem_singleton.mpr le_rfl
          · refine inv.called_again rfl rfl rfl rfl rfl rfl rfl (.inl rfl)
              (fun some => absurd rfl some) ?_ ?_ ?_
            · apply List.perm_iff_count.mpr
              intro other
              simp only [SharedServer.callers, waiting, asking, found,
                Option.map_none, Option.getD_none, List.count_append]
              omega
            · exact fun answer member => .inl member
            · exact fun _ none => by cases none

theorem sendResponse_eq (server : SharedServer α) (frame : SharedFrame α)
    (value : SharedAnswer α) : ∃ result last,
    server.sendResponse frame value =
        { server with
          status := none
          result := result
          last := last
          finishing := server.finishing ++ [(frame.resumers, value)]
          published := server.published ++ [(server.now, value)] } ∧
      (result = none ∧ last = server.last ∨
        result.isSome ∧ last = server.now ∧
          ∀ stored ∈ result, value = .ok stored) := by
  cases value with
  | ok stored => exact ⟨some stored, server.now, rfl, .inr ⟨rfl, rfl, by simp⟩⟩
  | error failure => exact ⟨none, server.last, rfl, .inl ⟨rfl, rfl⟩⟩

theorem Inv.sendResponse (inv : Inv rules server) {frame : SharedFrame α}
    (found : server.status = some frame) {memory : ℕ} {value : SharedAnswer α}
    (known : frame.value rules memory = some value) :
    Inv rules (server.sendResponse frame value) := by
  have blank := inv.blank (inv.renewed (by simp [found]))
  obtain ⟨first, began, begun⟩ := inv.begun frame found
  have ended : CallEnded rules server first server.now value := by
    refine ⟨began, begun.found,
      inv.called _ (List.mem_of_getElem? begun.found), ?_⟩
    unfold SharedFrame.value at known
    split at known
    · exact .inl ⟨memory, (Option.some.inj known).symm⟩
    · rename_i phase
      cases known
      exact .inr (begun.judged value phase)
    · cases known
  have asked : ∀ caller ∈ frame.resumers,
      AskedBy server.calls caller server.now := by
    intro caller member
    apply inv.askedBy
    simp only [SharedServer.callers, waiting, asking, found, Option.map_some,
      Option.getD_some, List.mem_append]
    tauto
  obtain ⟨result, last, same, stores⟩ := sendResponse_eq server frame value
  have grows : Grows server (server.sendResponse frame value) := by
    rw [same]
    exact ⟨List.prefix_rfl, List.prefix_rfl, List.prefix_rfl,
      List.prefix_append _ _⟩
  constructor
  case called =>
    rw [same]
    exact inv.called
  case stored =>
    rw [same]
    intro stored (kept : result = some stored)
    rcases stores with ⟨none, -⟩ | ⟨-, now, made⟩
    · cases none.symm.trans kept
    · rw [made stored kept]
      exact ⟨now.le, by simp [now]⟩
  case blank =>
    rw [same]
    intro (none : result = none)
    rcases stores with ⟨-, before⟩ | ⟨some, -⟩
    · exact before ▸ blank
    · rw [none] at some
      cases some
  case renewed =>
    rw [same]
    exact fun some => absurd rfl some
  case callers =>
    rw [same]
    refine .trans ?_ inv.callers
    apply List.perm_iff_count.mpr
    intro other
    simp only [SharedServer.callers, waiting, asking, found, Option.map_some,
      Option.getD_some, Option.map_none, Option.getD_none, List.nil_append,
      List.flatMap_append, List.flatMap_cons, List.flatMap_nil,
      List.append_nil, List.count_append]
    omega
  case cached =>
    rw [same]
    intro answer member
    have kept := (inv.cached answer member).append [] [(server.now, value)]
    rwa [List.append_nil] at kept
  case finishing =>
    intro group member
    rw [same] at member
    rcases List.mem_append.mp member with before | new
    · exact (inv.finishing group before).later grows
    · cases List.mem_singleton.mp new
      refine ⟨first, server.now, ?_, ended.later grows, ?_, .inl begun.head⟩
      · rw [same]
        simp
      · rw [same]
        exact fun caller member =>
          ⟨begun.joined caller member, asked caller member⟩
  case resumed =>
    intro answer member
    rw [same] at member
    exact (inv.resumed answer member).later grows
  case published =>
    intro entry member
    rw [same] at member
    rcases List.mem_append.mp member with before | new
    · exact (inv.published entry before).imp fun _ ended => ended.later grows
    · cases List.mem_singleton.mp new
      exact ⟨first, ended.later grows⟩
  case begun =>
    rw [same]
    exact fun _ none => by cases none

theorem Inv.resume (inv : Inv rules server) {index : ℕ}
    (resumes : server.resume index = some next) : Inv rules next := by
  unfold SharedServer.resume at resumes
  split at resumes
  · rename_i caller rest value found
    cases resumes
    have leaves := leaves_perm found
    obtain ⟨first, time, listed, ended, asked, shared⟩ :=
      inv.finishing _ (List.mem_of_getElem? found)
    -- the first caller has the answer now, or had it before
    have told : (first, value) ∈ server.resumed ++ [(caller, value)] := by
      rcases shared with head | before
      · cases head
        exact List.mem_append_right _ (List.mem_singleton_self _)
      · exact List.mem_append_left _ before
    have grows : Grows server
        { server with
          finishing := server.finishing.set index (rest, value)
          resumed := server.resumed ++ [(caller, value)] } :=
      ⟨List.prefix_rfl, List.prefix_append _ _, List.prefix_rfl,
        List.prefix_rfl⟩
    exact
      { called := inv.called
        stored := inv.stored
        blank := inv.blank
        renewed := inv.renewed
        callers := by
          refine .trans ?_ inv.callers
          apply List.perm_iff_count.mpr
          intro other
          have moved := leaves.count_eq other
          simp only [SharedServer.callers, waiting, asking, List.count_append,
            List.map_append, List.map_cons, List.map_nil,
            List.count_cons, List.count_nil] at moved ⊢
          omega
        cached := inv.cached
        finishing := by
          intro other member
          rcases List.mem_or_eq_of_mem_set member with before | rfl
          · exact (inv.finishing other before).later grows
          · exact ⟨first, time, listed, ended.later grows, fun caller waits =>
              asked caller (List.mem_cons_of_mem _ waits), .inr told⟩
        resumed := by
          intro answer member
          rcases List.mem_append.mp member with before | last
          · exact (inv.resumed answer before).later grows
          · cases List.mem_singleton.mp last
            refine ⟨first, time, listed, ended.later grows, ?_, .inr told⟩
            exact List.forall_mem_singleton.mpr
              (asked caller List.mem_cons_self)
        published := fun entry member => (inv.published entry member).imp
          fun _ ended => ended.later grows
        begun := fun frame found => by
          obtain ⟨first, asked, begun⟩ := inv.begun frame found
          exact ⟨first, asked, begun.head, begun.found, begun.joined,
            begun.judged⟩ }
  · cases resumes

/-- What a step of the coroutine can do to its frame. -/
theorem begin_eq {frame after : SharedFrame α}
    (begun : frame.begin = some after) :
    after.resumers = frame.resumers ∧ after.phase = .writing := by
  unfold SharedFrame.begin at begun
  split at begun
  · cases begun
    exact ⟨rfl, rfl⟩
  · cases begun

theorem wrote_eq {frame after : SharedFrame α} {success : Bool}
    (wrote : frame.wrote success = some after) :
    after.resumers = frame.resumers ∧
      (after.phase = .reading ∨ after.phase = .failing) := by
  unfold SharedFrame.wrote at wrote
  split at wrote
  · split at wrote
    · cases wrote
      exact ⟨rfl, .inr rfl⟩
    · split at wrote
      · cases wrote
        exact ⟨rfl, .inl rfl⟩
      · cases wrote
        exact ⟨rfl, .inr rfl⟩
  · cases wrote

theorem received_eq {frame after : SharedFrame α} {response : Option String}
    (received : frame.received rules response = some after) :
    after.resumers = frame.resumers ∧
      (after.phase = .failing ∨
        ∃ raw, response = some raw ∧
          after.phase = .responding (rules.parse raw)) := by
  unfold SharedFrame.received at received
  split at received
  · rename_i raw _
    split at received
    · cases received
      exact ⟨rfl, .inl rfl⟩
    · split at received
      · cases received
        exact ⟨rfl, .inr ⟨raw, rfl, rfl⟩⟩
      · cases received
        exact ⟨rfl, .inl rfl⟩
  · cases received
    exact ⟨rfl, .inl rfl⟩
  · cases received

theorem expire_eq (frame : SharedFrame α) :
    frame.expire.resumers = frame.resumers ∧
      frame.expire.phase = frame.phase := by
  unfold SharedFrame.expire
  split
  · exact ⟨rfl, rfl⟩
  · exact ⟨rfl, rfl⟩

theorem onTimeout_eq (frame : SharedFrame α) :
    frame.onTimeout.resumers = frame.resumers ∧
      frame.onTimeout.phase = frame.phase := by
  unfold SharedFrame.onTimeout
  split
  · exact ⟨rfl, rfl⟩
  · exact ⟨rfl, rfl⟩

theorem Inv.timed (inv : Inv rules server)
    {change : SharedFrame α → SharedFrame α}
    (kept : ∀ frame, (change frame).resumers = frame.resumers ∧
      (change frame).phase = frame.phase) :
    Inv rules { server with status := server.status.map change } := by
  cases found : server.status with
  | none =>
      rw [Option.map_none, ← found]
      exact inv
  | some frame =>
      have goesOn := inv.goesOn found (kept frame).1 [] fun value responding =>
        .inl ((kept frame).2.symm.trans responding)
      rwa [List.append_nil] at goesOn

theorem Inv.step (inv : Inv rules server) {event : SharedEvent}
    (stepped : Steps rules server event next) : Inv rules next := by
  unfold Steps at stepped
  cases event with
  | pass time =>
      cases stepped
      exact inv.pass time
  | call made =>
      cases stepped
      exact inv.handle made
  | begin =>
      simp only [SharedServer.step, Option.bind_eq_bind,
        Option.bind_eq_some_iff, Option.some.injEq] at stepped
      obtain ⟨frame, found, after, begun, rfl⟩ := stepped
      obtain ⟨kept, phase⟩ := begin_eq begun
      have goesOn := inv.goesOn found kept [] fun value responding => by
        cases phase.symm.trans responding
      rwa [List.append_nil] at goesOn
  | wrote success =>
      simp only [SharedServer.step, Option.bind_eq_bind,
        Option.bind_eq_some_iff, Option.some.injEq] at stepped
      obtain ⟨frame, found, after, wrote, rfl⟩ := stepped
      obtain ⟨kept, phase⟩ := wrote_eq wrote
      have goesOn := inv.goesOn found kept [] fun value responding => by
        rcases phase with reading | failing
        · cases reading.symm.trans responding
        · cases failing.symm.trans responding
      rwa [List.append_nil] at goesOn
  | received response =>
      simp only [SharedServer.step, Option.bind_eq_bind,
        Option.bind_eq_some_iff, Option.some.injEq] at stepped
      obtain ⟨frame, found, after, received, rfl⟩ := stepped
      obtain ⟨kept, phase⟩ := received_eq received
      apply inv.goesOn found kept
      intro value responding
      rcases phase with failing | ⟨raw, rfl, judged⟩
      · cases failing.symm.trans responding
      · cases judged.symm.trans responding
        exact .inr ⟨raw, by simp, rfl⟩
  | respond memory =>
      simp only [SharedServer.step, Option.bind_eq_bind,
        Option.bind_eq_some_iff, Option.some.injEq] at stepped
      obtain ⟨frame, found, value, known, rfl⟩ := stepped
      exact inv.sendResponse found known
  | resume index => exact inv.resume stepped
  | expire =>
      cases stepped
      exact inv.timed expire_eq
  | onTimeout =>
      cases stepped
      exact inv.timed onTimeout_eq

theorem Inv.of_run {now : ℕ} {events : List SharedEvent}
    (late : rules.checksResult = true ∨ daemonCacheTimeout ≤ now)
    (run : Run (Steps rules) (SharedServer.start now) events server) :
    Inv rules server :=
  run.preserves (Inv rules) (fun _ _ _ inv stepped => inv.step stepped)
    (.start late)

/-! ## Going on -/

/-- The steps of the coroutine up to the end of `send_response`. -/
def phaseLeft : SharedPhase α → ℕ
  | .starting => 4
  | .writing => 3
  | .reading => 2
  | .failing => 1
  | .responding _ => 1

/-- The steps until nobody waits. -/
def distance (server : SharedServer α) : ℕ :=
  (server.status.map fun frame => phaseLeft frame.phase).getD 0 +
    server.waiting.length

/-- The event is a step of the coroutine or of `send_response`. -/
def advances : SharedEvent → Bool
  | .begin => true
  | .wrote _ => true
  | .received _ => true
  | .respond _ => true
  | .resume _ => true
  | _ => false

/-- Not a call of `handle`. -/
def keeps : SharedEvent → Bool
  | .call _ => false
  | _ => true

theorem begin_left {frame after : SharedFrame α}
    (begun : frame.begin = some after) :
    phaseLeft after.phase < phaseLeft frame.phase := by
  unfold SharedFrame.begin at begun
  split at begun
  · rename_i phase
    cases begun
    simp [phase, phaseLeft]
  · cases begun

theorem wrote_left {frame after : SharedFrame α} {success : Bool}
    (wrote : frame.wrote success = some after) :
    phaseLeft after.phase < phaseLeft frame.phase := by
  have next := (wrote_eq wrote).2
  unfold SharedFrame.wrote at wrote
  split at wrote
  · rename_i phase
    rw [phase]
    rcases next with reading | failing
    · simp [reading, phaseLeft]
    · simp [failing, phaseLeft]
  · cases wrote

theorem received_left {frame after : SharedFrame α}
    {response : Option String}
    (received : frame.received rules response = some after) :
    phaseLeft after.phase < phaseLeft frame.phase := by
  have next := (received_eq received).2
  have reading : frame.phase = .reading := by
    unfold SharedFrame.received at received
    split at received
    · assumption
    · assumption
    · cases received
  rw [reading]
  rcases next with failing | ⟨raw, -, responding⟩
  · simp [failing, phaseLeft]
  · simp [responding, phaseLeft]

theorem goesOn_distance {frame after : SharedFrame α}
    (found : server.status = some frame)
    (kept : after.resumers = frame.resumers)
    (left : phaseLeft after.phase < phaseLeft frame.phase)
    {replies : List (ℕ × String)} :
    distance
        { server with
          status := some after
          replies := replies } + 1 ≤ server.distance := by
  simp only [distance, waiting, asking, found, Option.map_some,
    Option.getD_some, kept]
  omega

theorem sendResponse_distance {frame : SharedFrame α}
    (found : server.status = some frame) {memory : ℕ} {value : SharedAnswer α}
    (known : frame.value rules memory = some value) :
    (server.sendResponse frame value).distance + 1 ≤ server.distance := by
  have left : phaseLeft frame.phase = 1 := by
    unfold SharedFrame.value at known
    split at known
    · rename_i phase
      rw [phase, phaseLeft]
    · rename_i phase
      rw [phase, phaseLeft]
    · cases known
  have same : (server.sendResponse frame value).distance =
      (frame.resumers ++ server.finishing.flatMap Prod.fst).length := by
    cases value <;>
      simp [sendResponse, distance, waiting, asking, Nat.add_comm]
  rw [same]
  simp only [distance, waiting, asking, found, Option.map_some,
    Option.getD_some, left]
  omega

theorem timed_distance {change : SharedFrame α → SharedFrame α}
    (kept : ∀ frame, (change frame).resumers = frame.resumers ∧
      (change frame).phase = frame.phase) :
    distance { server with status := server.status.map change } =
      server.distance := by
  cases found : server.status with
  | none => simp [distance, waiting, asking, found]
  | some frame => simp [distance, waiting, asking, found, kept frame]

theorem resume_distance {index : ℕ}
    (resumes : server.resume index = some next) :
    next.distance + 1 = server.distance := by
  unfold SharedServer.resume at resumes
  split at resumes
  · rename_i caller rest value found
    cases resumes
    have size := (leaves_perm found).length_eq
    simp only [distance, waiting, List.length_append, List.length_cons] at size ⊢
    simp only [asking]
    omega
  · cases resumes

/-- A step of the coroutine brings everyone nearer to an answer, and only a
call puts that off. -/
theorem step_distance {event : SharedEvent}
    (stepped : Steps rules server event next) (kept : keeps event = true) :
    next.distance + (if advances event then 1 else 0) ≤ server.distance := by
  unfold Steps at stepped
  cases event with
  | pass time =>
      cases stepped
      exact le_rfl
  | call made => cases kept
  | begin =>
      simp only [SharedServer.step, Option.bind_eq_bind,
        Option.bind_eq_some_iff, Option.some.injEq] at stepped
      obtain ⟨frame, found, after, begun, rfl⟩ := stepped
      exact goesOn_distance found (begin_eq begun).1 (begin_left begun)
  | wrote success =>
      simp only [SharedServer.step, Option.bind_eq_bind,
        Option.bind_eq_some_iff, Option.some.injEq] at stepped
      obtain ⟨frame, found, after, wrote, rfl⟩ := stepped
      exact goesOn_distance found (wrote_eq wrote).1 (wrote_left wrote)
  | received response =>
      simp only [SharedServer.step, Option.bind_eq_bind,
        Option.bind_eq_some_iff, Option.some.injEq] at stepped
      obtain ⟨frame, found, after, received, rfl⟩ := stepped
      exact goesOn_distance found (received_eq received).1
        (received_left received)
  | respond memory =>
      simp only [SharedServer.step, Option.bind_eq_bind,
        Option.bind_eq_some_iff, Option.some.injEq] at stepped
      obtain ⟨frame, found, value, known, rfl⟩ := stepped
      exact sendResponse_distance found known
  | resume index => exact (resume_distance stepped).le
  | expire =>
      cases stepped
      exact (timed_distance expire_eq).le
  | onTimeout =>
      cases stepped
      exact (timed_distance onTimeout_eq).le

/-- While somebody waits, a coroutine can go on. -/
theorem progress (far : 0 < server.distance) :
    ∃ event, advances event = true ∧ server.step rules event ≠ none := by
  cases found : server.status with
  | some frame =>
      cases phase : frame.phase with
      | starting =>
          refine ⟨.begin, rfl, ?_⟩
          simp [SharedServer.step, found, SharedFrame.begin, phase]
      | writing =>
          refine ⟨.wrote false, rfl, ?_⟩
          simp [SharedServer.step, found, SharedFrame.wrote, phase]
      | reading =>
          refine ⟨.received none, rfl, ?_⟩
          simp [SharedServer.step, found, SharedFrame.received, phase]
      | failing =>
          refine ⟨.respond 0, rfl, ?_⟩
          simp [SharedServer.step, found, SharedFrame.value, phase]
      | responding value =>
          refine ⟨.respond 0, rfl, ?_⟩
          simp [SharedServer.step, found, SharedFrame.value, phase]
  | none =>
      have several : server.finishing.flatMap Prod.fst ≠ [] := by
        intro none
        simp [distance, waiting, asking, found, none] at far
      obtain ⟨caller, member⟩ := List.exists_mem_of_ne_nil _ several
      obtain ⟨group, listed, among⟩ := List.mem_flatMap.mp member
      obtain ⟨index, here⟩ := List.getElem?_of_mem listed
      obtain ⟨callers, value⟩ := group
      cases callers with
      | nil => cases among
      | cons first rest =>
          refine ⟨.resume index, rfl, ?_⟩
          simp [SharedServer.step, SharedServer.resume, here]

theorem run_distance {later : List SharedEvent} {final : SharedServer α}
    (rest : Run (fun server event next =>
      keeps event = true ∧ Steps rules server event next) server later final) :
    final.distance + later.countP advances ≤ server.distance := by
  induction rest with
  | nil => exact le_rfl
  | @cons before middle final event later stepped _ induction =>
      have nearer := step_distance stepped.2 stepped.1
      rw [List.countP_cons]
      omega

/-- What the callers may rely on in a state. -/
structure AnswersCallers (rules : SharedRules α) (server : SharedServer α) :
    Prop where
  /-- Everybody waits, or was answered once. -/
  once : server.callers.Perm (List.range server.calls.length)
  cached : ∀ answer ∈ server.cached,
    Kept server.calls server.published answer
  resumed : ∀ answer ∈ server.resumed,
    Published rules server [answer.1] answer.2
  /-- Also what is kept was made of a response to the call that a caller began,
  or tells its failure. -/
  origin : ∀ entry ∈ server.published,
    ∃ first, CallEnded rules server first entry.1 entry.2
  goesOn : server.waiting ≠ [] →
    ∃ event, advances event = true ∧ server.step rules event ≠ none
  /-- Nobody waits after so many steps of coroutines, unless more call. -/
  drains : ∀ later final, Run (fun server event next =>
      keeps event = true ∧ Steps rules server event next) server later final →
    server.distance ≤ later.countP advances → final.waiting = []

/-- Whatever arrives between the steps of a call to the daemon, each caller
waits or has one answer: a kept result of less than `daemon_cache_timeout`
before, or what came of a call that the same or an earlier caller began, with
the daemon's response from then on.  A clock that has run for less than that
when the server starts lets the empty result through. -/
theorem shared_calls_answer_callers {now : ℕ} {events : List SharedEvent}
    (late : rules.checksResult = true ∨ daemonCacheTimeout ≤ now)
    (run : Run (Steps rules) (SharedServer.start now) events server) :
    server.AnswersCallers rules := by
  have inv := Inv.of_run late run
  refine
    { once := inv.callers
      cached := inv.cached
      resumed := inv.resumed
      origin := inv.published
      goesOn := fun waits => ?_
      drains := fun later final rest enough => ?_ }
  · apply progress
    have some := List.length_pos_of_ne_nil waits
    unfold distance
    omega
  · have near := run_distance rest
    have waits : final.waiting.length ≤ final.distance := by
      unfold distance
      omega
    exact List.eq_nil_of_length_eq_zero (by omega)

def sampleFeeRules : SharedRules FeeEstimate :=
  unspentOutsRules fun _ => .ok ⟨7, 8, 1⟩

/-- The first second of the clock. -/
example : ((start 0).handle sampleFeeRules true).cached = [(0, ⟨0, 0, 0⟩)] :=
  rfl

/-- The second caller joins the first, and the third is answered from the
cache. -/
theorem shared_calls_answer_three : ∃ server : SharedServer FeeEstimate,
    server.resumed = [(0, .ok ⟨7, 8, 1⟩), (1, .ok ⟨7, 8, 1⟩)] ∧
      server.cached = [(2, ⟨7, 8, 1⟩)] ∧
      server.AnswersCallers sampleFeeRules := by
  refine ⟨_, ?_, ?_, @shared_calls_answer_callers _ sampleFeeRules _
    daemonCacheTimeout [.call true, .begin, .call true, .wrote true,
      .received (some ""), .respond 0, .pass 9, .call true, .resume 0,
      .resume 0] (.inr le_rfl)
    (.cons rfl (.cons rfl (.cons rfl (.cons rfl (.cons rfl (.cons rfl
      (.cons rfl (.cons rfl (.cons rfl (.cons rfl (.nil _)))))))))))⟩
  · rfl
  · rfl

end SharedServer

end XfoLws.Rest
