import Mathlib.Algebra.BigOperators.Group.List.Basic
import XfoLws.Db.AccountIndexes
import XfoLws.Lib.Outcome
import XfoLws.Rest.SubmitFrames

/-!
# Every caller of submit_raw_tx is answered

A caller whose call returned success is queued in one frame or was resumed
once, whatever arrives between the steps of the coroutines.
-/

namespace XfoLws.Rest

open Db

/-- The call of `handle` in front of the lock. -/
def SubmitCall.prepare (rules : SubmitRules) (caller : ℕ)
    (call : SubmitCall) : Except SubmitRefusal SubmitContext :=
  call.request.prepare rules.env call.db call.clock caller

theorem SubmitCall.prepare_eq_ok {rules : SubmitRules} {caller : ℕ}
    {call : SubmitCall} {context : SubmitContext}
    (prepared : call.prepare rules caller = .ok context) :
    context.caller = caller ∧
      context.message = .sendRawTxHex caller true call.request.tx := by
  unfold SubmitCall.prepare SubmitRawTxRequest.prepare at prepared
  dsimp only at prepared
  split at prepared
  · cases prepared
    exact ⟨rfl, rfl⟩
  · split at prepared
    · cases prepared
    · split at prepared
      · cases prepared
      · cases prepared
        exact ⟨rfl, rfl⟩

namespace SubmitServer

open SubmitFrame (Justified)

/-- A context is what one of the calls put together. -/
def Sent (rules : SubmitRules) (server : SubmitServer)
    (context : SubmitContext) : Prop :=
  ∃ call, server.calls[context.caller]? = some call ∧
    call.prepare rules context.caller = .ok context

/-- How often a caller is in the frames. -/
def queued (frames : List SubmitFrame) (caller : ℕ) : ℕ :=
  (frames.map fun frame => frame.heldCallers.count caller).sum

/-- The caller waits in a frame whose coroutine has not ended. -/
def WaitsIn (server : SubmitServer) (id caller : ℕ) : Prop :=
  ∃ frame, server.frames[id]? = some frame ∧ frame.phase ≠ .ended ∧
    caller ∈ frame.heldCallers

/-- A recorded spend comes from a request whose transaction was relayed. -/
def Relayed (rules : SubmitRules) (server : SubmitServer)
    (row : AccountId × PendingSpend) : Prop :=
  ∃ context raw, server.Sent rules context ∧
    row.1 = context.pendingAccount ∧ row.2 ∈ context.pendingSpends ∧
    (context.message, raw) ∈ server.answers ∧
    rules.parseResponse raw = .ok true

structure Inv (rules : SubmitRules) (disk : WalletDb)
    (server : SubmitServer) : Prop where
  frames : ∀ id, ∀ frame : SubmitFrame, server.frames[id]? = some frame →
    frame.Ok rules server.answers (server.status = some id)
  status : ∀ id, server.status = some id → id < server.frames.length
  held : ∀ frame ∈ server.frames, ∀ context ∈ frame.held,
    server.Sent rules context
  entering : ∀ context ∈ server.entering, server.Sent rules context
  /-- A call is accepted, refused, or in front of the lock. -/
  calls : (server.accepted ++ (server.refused.map Prod.fst ++
    server.entering.map SubmitContext.caller)).Perm
      (List.range server.calls.length)
  counts : ∀ caller, queued server.frames caller +
    (server.resumed.map Prod.fst).count caller = server.accepted.count caller
  resumed : ∀ answer ∈ server.resumed, ∃ context, context.caller = answer.1 ∧
    server.Sent rules context ∧
      Justified rules server.answers context.message answer.2
  recorded : ∀ row ∈ server.disk.pendingSpends,
    row ∈ disk.pendingSpends ∨ server.Relayed rules row

variable {rules : SubmitRules} {disk : WalletDb} {server : SubmitServer}

/-! ## Counting callers -/

private theorem queued_append (frames : List SubmitFrame)
    (frame : SubmitFrame) (caller : ℕ) :
    queued (frames ++ [frame]) caller =
      queued frames caller + frame.heldCallers.count caller := by
  simp [queued]

private theorem queued_set {frames : List SubmitFrame} {id : ℕ}
    {before : SubmitFrame} (found : frames[id]? = some before)
    (after : SubmitFrame) (caller : ℕ) :
    queued (frames.set id after) caller + before.heldCallers.count caller =
      queued frames caller + after.heldCallers.count caller := by
  induction frames generalizing id with
  | nil => simp at found
  | cons frame frames induction =>
      cases id with
      | zero =>
          rw [List.getElem?_cons_zero, Option.some.injEq] at found
          simp only [queued, found, List.set_cons_zero, List.map_cons,
            List.sum_cons]
          omega
      | succ id =>
          rw [List.getElem?_cons_succ] at found
          have rest := induction found
          simp only [queued, List.set_cons_succ, List.map_cons,
            List.sum_cons] at rest ⊢
          omega

private theorem queued_pos {frames : List SubmitFrame} {caller : ℕ}
    (waits : 0 < queued frames caller) :
    ∃ id : ℕ, ∃ frame, frames[id]? = some frame ∧
      caller ∈ frame.heldCallers := by
  by_contra nowhere
  push Not at nowhere
  have zero : queued frames caller = 0 := by
    refine List.sum_eq_zero fun count member => ?_
    obtain ⟨frame, listed, rfl⟩ := List.mem_map.mp member
    obtain ⟨id, found⟩ := List.getElem?_of_mem listed
    exact List.count_eq_zero.mpr (nowhere id frame found)
  omega

private theorem modify_eq {frames : List SubmitFrame} {id : ℕ}
    {frame : SubmitFrame} (found : frames[id]? = some frame)
    (change : SubmitFrame → SubmitFrame) :
    frames.modify id change = frames.set id (change frame) := by
  refine List.ext_getElem? fun position => ?_
  by_cases here : id = position
  · subst here
    obtain ⟨bound, -⟩ := List.getElem?_eq_some_iff.mp found
    rw [List.getElem?_modify_eq, found, List.getElem?_set_self bound]
    rfl
  · rw [List.getElem?_modify_ne _ _ here, List.getElem?_set_ne here]

/-! ## Frames are replaced one at a time -/

theorem Sent.append {context : SubmitContext}
    (sent : server.Sent rules context) {next : SubmitServer}
    {more : List SubmitCall} (grown : next.calls = server.calls ++ more) :
    next.Sent rules context := by
  obtain ⟨call, found, prepared⟩ := sent
  refine ⟨call, ?_, prepared⟩
  obtain ⟨bound, -⟩ := List.getElem?_eq_some_iff.mp found
  rw [grown, List.getElem?_append_left bound, found]

theorem Sent.same {context : SubmitContext}
    (sent : server.Sent rules context) {next : SubmitServer}
    (same : next.calls = server.calls) : next.Sent rules context :=
  @Sent.append _ _ _ sent _ [] (by simp [same])

theorem Relayed.append {row : AccountId × PendingSpend}
    (relayed : server.Relayed rules row) {next : SubmitServer}
    {more : List SubmitCall} (calls : next.calls = server.calls ++ more)
    {answers : List (DaemonCall × String)}
    (grown : next.answers = server.answers ++ answers) :
    next.Relayed rules row := by
  obtain ⟨context, raw, sent, account, spend, member, parsed⟩ := relayed
  refine ⟨context, raw, sent.append calls, account, spend, ?_, parsed⟩
  rw [grown]
  exact List.mem_append_left _ member

private theorem frames_set {frames : List SubmitFrame} {id : ℕ}
    {after : SubmitFrame} {holds : ℕ → SubmitFrame → Prop}
    (here : holds id after)
    (others : ∀ other frame, other ≠ id → frames[other]? = some frame →
      holds other frame) :
    ∀ other frame, (frames.set id after)[other]? = some frame →
      holds other frame := by
  intro other frame found
  by_cases same : id = other
  · subst same
    obtain ⟨bound, stored⟩ := List.getElem?_eq_some_iff.mp found
    rw [List.getElem_set_self] at stored
    exact stored ▸ here
  · rw [List.getElem?_set_ne same] at found
    exact others other frame (Ne.symm same) found

private theorem held_set {frames : List SubmitFrame} {id : ℕ}
    {after : SubmitFrame} {holds : SubmitContext → Prop}
    (here : ∀ context ∈ after.held, holds context)
    (others : ∀ frame ∈ frames, ∀ context ∈ frame.held, holds context) :
    ∀ frame ∈ frames.set id after, ∀ context ∈ frame.held,
      holds context := by
  intro frame member
  rcases List.mem_or_eq_of_mem_set member with old | rfl
  · exact others frame old
  · exact here

/-! ## Calls -/

theorem Inv.start (clients : List AsyncClient) :
    Inv rules disk (start disk clients) where
  frames id frame found := by simp [SubmitServer.start] at found
  status id found := by cases found
  held frame member := by cases member
  entering context member := by cases member
  calls := .refl _
  counts _ := rfl
  resumed answer member := by cases member
  recorded _ member := .inl member

/-- A step that leaves the frames and the answers alone. -/
private theorem Inv.aside (inv : Inv rules disk server) {next : SubmitServer}
    {more : List SubmitCall} (grown : next.calls = server.calls ++ more)
    (same : next.frames = server.frames ∧ next.status = server.status ∧
      next.accepted = server.accepted ∧ next.answers = server.answers ∧
      next.resumed = server.resumed ∧
      next.disk.pendingSpends = server.disk.pendingSpends)
    (entering : ∀ context ∈ next.entering, next.Sent rules context)
    (calls : (next.refused.map Prod.fst ++
      next.entering.map SubmitContext.caller).Perm
        (server.refused.map Prod.fst ++
          server.entering.map SubmitContext.caller ++
            (List.range more.length).map (server.calls.length + ·))) :
    Inv rules disk next := by
  obtain ⟨frames, status, accepted, answers, resumed, spends⟩ := same
  exact {
    frames := by
      rw [frames, status, answers]
      exact inv.frames
    status := by
      rw [frames, status]
      exact inv.status
    held := by
      rw [frames]
      exact fun frame member context among =>
        (inv.held frame member context among).append grown
    entering := entering
    calls := by
      rw [accepted, grown, List.length_append, List.range_add]
      refine (calls.append_left _).trans ?_
      rw [← List.append_assoc]
      exact inv.calls.append_right _
    counts := by
      rw [frames, resumed, accepted]
      exact inv.counts
    resumed := by
      rw [resumed, answers]
      intro answer member
      obtain ⟨context, own, sent, justified⟩ := inv.resumed answer member
      exact ⟨context, own, sent.append grown, justified⟩
    recorded := by
      rw [spends]
      exact fun row member => (inv.recorded row member).imp_right
        fun relayed => @Relayed.append _ _ _ relayed _ _ grown [] (by
          simp [answers]) }

theorem Inv.call (inv : Inv rules disk server) (request : SubmitRawTxRequest)
    (clock : ℕ) : Inv rules disk (server.call rules request clock) := by
  unfold SubmitServer.call
  dsimp only
  split
  · refine inv.aside rfl ⟨rfl, rfl, rfl, rfl, rfl, rfl⟩ ?_ ?_
    · intro context member
      exact (inv.entering context member).append rfl
    · simp only [List.map_append, List.map_singleton, List.append_assoc]
      exact .append_left _ List.perm_append_comm
  · rename_i context prepared
    have own : context.caller = server.calls.length :=
      (@SubmitCall.prepare_eq_ok rules _
        ⟨request, clock, server.disk.db⟩ _ prepared).1
    refine inv.aside rfl ⟨rfl, rfl, rfl, rfl, rfl, rfl⟩ ?_ ?_
    · intro other member
      rcases List.mem_append.mp member with old | new
      · exact (inv.entering other old).append rfl
      · cases List.mem_singleton.mp new
        refine ⟨⟨request, clock, server.disk.db⟩, by simp [own], ?_⟩
        rw [own]
        exact prepared
    · simp [own]

/-- A call leaves the lock with success: its request is in one frame more. -/
private theorem Inv.accept (inv : Inv rules disk server) {next : SubmitServer}
    {context : SubmitContext} (member : context ∈ server.entering)
    (same : next.calls = server.calls ∧ next.refused = server.refused ∧
      next.answers = server.answers ∧ next.resumed = server.resumed ∧
      next.disk = server.disk)
    (entering : next.entering = server.entering.erase context)
    (accepted : next.accepted = server.accepted ++ [context.caller])
    (frames : ∀ id, ∀ frame : SubmitFrame, next.frames[id]? = some frame →
      frame.Ok rules server.answers (next.status = some id))
    (status : ∀ id, next.status = some id → id < next.frames.length)
    (held : ∀ frame ∈ next.frames, ∀ other ∈ frame.held,
      server.Sent rules other)
    (counts : ∀ caller, queued next.frames caller =
      queued server.frames caller + [context.caller].count caller) :
    Inv rules disk next := by
  obtain ⟨calls, refused, answers, resumed, disks⟩ := same
  exact {
    frames := by
      rw [answers]
      exact frames
    status := status
    held := fun frame member other among =>
      (held frame member other among).same calls
    entering := by
      rw [entering]
      intro other among
      exact (inv.entering other (List.mem_of_mem_erase among)).same calls
    calls := by
      rw [accepted, refused, entering, calls]
      refine .trans ?_ inv.calls
      rw [List.append_assoc]
      refine .append_left _ ?_
      refine .trans ?_ (.append_left _
        ((List.perm_cons_erase member).symm.map SubmitContext.caller))
      rw [List.singleton_append, List.map_cons]
      exact List.perm_middle.symm
    counts := by
      intro caller
      have before := inv.counts caller
      rw [counts, resumed, accepted, List.count_append]
      omega
    resumed := by
      rw [resumed, answers]
      intro answer member
      obtain ⟨other, own, sent, justified⟩ := inv.resumed answer member
      exact ⟨other, own, sent.same calls, justified⟩
    recorded := by
      rw [disks]
      exact fun row member => (inv.recorded row member).imp_right
        fun relayed => @Relayed.append _ _ _ relayed _ [] (by
          simp [calls]) [] (by simp [answers]) }

private theorem newFrame_ok {answers : List (DaemonCall × String)}
    {current : Prop} (here : current) (client : AsyncClient)
    (context : SubmitContext) :
    (newFrame client context).Ok rules answers current := here

private theorem Inv.newFrame (inv : Inv rules disk server)
    {context : SubmitContext} (member : context ∈ server.entering)
    (idle : server.status = none) (client : AsyncClient)
    (clients : List AsyncClient) :
    Inv rules disk { server with
      entering := server.entering.erase context
      accepted := server.accepted ++ [context.caller]
      status := some server.frames.length
      frames := server.frames ++ [SubmitServer.newFrame client context]
      clients := clients } := by
  refine inv.accept member ⟨rfl, rfl, rfl, rfl, rfl⟩ rfl rfl ?_ ?_ ?_ ?_
  · intro id frame found
    by_cases last : id < server.frames.length
    · rw [List.getElem?_append_left last] at found
      have old := inv.frames id frame found
      have other : ¬ (some server.frames.length = some id) := by
        rw [Option.some.injEq]
        omega
      rw [idle] at old
      simpa [other] using old
    · obtain ⟨bound, -⟩ := List.getElem?_eq_some_iff.mp found
      rw [List.length_append, List.length_singleton] at bound
      have newest : id = server.frames.length := by omega
      subst newest
      rw [List.getElem?_concat_length, Option.some.injEq] at found
      subst found
      exact newFrame_ok rfl client context
  · intro id same
    cases same
    simp
  · intro frame among other own
    rcases List.mem_append.mp among with old | new
    · exact inv.held frame old other own
    · cases List.mem_singleton.mp new
      cases List.mem_singleton.mp own
      exact inv.entering context member
  · exact queued_append server.frames (SubmitServer.newFrame client context)

theorem Inv.enqueue (inv : Inv rules disk server) {context : SubmitContext}
    (member : context ∈ server.entering) (made : Bool) :
    Inv rules disk (server.enqueue context made) := by
  unfold SubmitServer.enqueue
  dsimp only
  split
  · rename_i id status
    have bound := inv.status id status
    have found := List.getElem?_eq_getElem bound
    rw [modify_eq found]
    refine inv.accept member ⟨rfl, rfl, rfl, rfl, rfl⟩ rfl rfl ?_ ?_ ?_ ?_
    · dsimp only
      refine frames_set ?_ ?_
      · exact (inv.frames id _ found).push status context
      · exact fun other frame _ found => inv.frames other frame found
    · intro other same
      rw [List.length_set]
      exact inv.status other same
    · dsimp only
      refine held_set ?_ inv.held
      intro other among
      have old := inv.held _ (List.getElem_mem bound)
      unfold SubmitFrame.held at among old
      dsimp only at among
      split at among <;> rename_i phase <;>
        simp only [phase, List.mem_append, List.mem_singleton] at among old
      · rcases among with among | among | rfl
        · exact old other (.inl among)
        · exact old other (.inr among)
        · exact inv.entering _ member
      · rcases among with among | rfl
        · exact old other among
        · exact inv.entering _ member
    · intro caller
      have counted := queued_set found
        { server.frames[id] with
          resumers := server.frames[id].resumers ++ [context] } caller
      rw [SubmitFrame.heldCallers_push, List.count_append] at counted
      dsimp only at counted ⊢
      omega
  · rename_i idle
    split
    · exact inv.newFrame member idle _ _
    · split
      · exact inv.newFrame member idle _ _
      · refine @Inv.aside _ _ _ inv _ [] (by simp)
          ⟨rfl, rfl, rfl, rfl, rfl, rfl⟩ ?_ ?_
        · intro other among
          exact (inv.entering other (List.mem_of_mem_erase among)).same rfl
        · simp only [List.map_append, List.map_singleton, List.append_assoc,
            List.length_nil, List.range_zero, List.map_nil, List.append_nil]
          exact .append_left _
            ((List.perm_cons_erase member).symm.map SubmitContext.caller)

/-! ## Steps of a coroutine -/

private theorem apply_frames (server : SubmitServer)
    (effect : SubmitEffect) :
    (server.apply effect).frames = server.frames ∧
      (server.apply effect).calls = server.calls ∧
      (server.apply effect).entering = server.entering ∧
      (server.apply effect).accepted = server.accepted ∧
      (server.apply effect).refused = server.refused := by
  cases effect <;> exact ⟨rfl, rfl, rfl, rfl, rfl⟩

private theorem apply_status (server : SubmitServer) (effect : SubmitEffect)
    (id : ℕ) :
    (server.apply effect).status = some id ↔
      server.status = some id ∧ effect.Keeps := by
  cases effect <;> simp [SubmitServer.apply, SubmitEffect.Keeps]

private theorem apply_answers (server : SubmitServer)
    (effect : SubmitEffect) :
    (server.apply effect).answers = effect.answersFrom server.answers := by
  cases effect <;> rfl

private theorem apply_resumed (server : SubmitServer)
    (effect : SubmitEffect) :
    (server.apply effect).resumed.map Prod.fst =
      server.resumed.map Prod.fst ++ effect.callers := by
  cases effect <;> simp [SubmitServer.apply, SubmitEffect.callers]

section Progress

variable {id : ℕ} {frame : SubmitFrame} {after : SubmitFrame × SubmitEffect}

private theorem progress_frames (inv : Inv rules disk server)
    (found : server.frames[id]? = some frame)
    (moves : frame.Moves rules after) {next : SubmitServer}
    (frames : next.frames = server.frames.set id after.1)
    (status : ∀ other, next.status = some other ↔
      server.status = some other ∧ after.2.Keeps)
    (answers : next.answers = after.2.answersFrom server.answers) :
    ∀ other, ∀ frame : SubmitFrame, next.frames[other]? = some frame →
      frame.Ok rules next.answers (next.status = some other) := by
  have ok := inv.frames id frame found
  rw [frames]
  refine frames_set ?_ ?_
  · rw [answers, propext (status id)]
    exact moves.ok ok
  · intro other stored distinct found
    obtain ⟨more, grown⟩ :=
      SubmitEffect.exists_answersFrom server.answers after.2
    have same : next.status = some other ↔ server.status = some other := by
      rw [status]
      refine and_iff_left_of_imp fun here => ?_
      by_contra dropped
      have own := moves.resets ok dropped
      rw [here, Option.some.injEq] at own
      exact distinct own
    rw [answers, grown, propext same]
    exact (inv.frames other stored found).append more

private theorem progress_resumed (inv : Inv rules disk server)
    (found : server.frames[id]? = some frame)
    (moves : frame.Moves rules after) {next : SubmitServer}
    (stepped : next =
      { server with frames := server.frames.set id after.1 }.apply after.2) :
    ∀ answer ∈ next.resumed, ∃ context, context.caller = answer.1 ∧
      server.Sent rules context ∧
        Justified rules next.answers context.message answer.2 := by
  have ok := inv.frames id frame found
  have old (answer : ℕ × SubmitAnswer) (member : answer ∈ server.resumed)
      (more : List (DaemonCall × String)) :
      ∃ context, context.caller = answer.1 ∧ server.Sent rules context ∧
        Justified rules (server.answers ++ more) context.message
          answer.2 := by
    obtain ⟨context, own, sent, justified⟩ := inv.resumed answer member
    exact ⟨context, own, sent, justified.append⟩
  obtain ⟨frameAfter, effect⟩ := after
  subst stepped
  intro answer member
  cases effect with
  | resume caller value =>
      rcases List.mem_append.mp member with before | new
      · exact inv.resumed answer before
      · cases List.mem_singleton.mp new
        obtain ⟨context, held, own, justified⟩ := moves.justified ok
        exact ⟨context, own,
          inv.held frame (List.mem_of_getElem? found) context held,
          justified⟩
  | answered call raw => exact old answer member [(call, raw)]
  | _ => exact inv.resumed answer member

private theorem progress_recorded (inv : Inv rules disk server)
    (found : server.frames[id]? = some frame)
    (moves : frame.Moves rules after) {next : SubmitServer}
    (stepped : next =
      { server with frames := server.frames.set id after.1 }.apply after.2) :
    ∀ row ∈ next.disk.pendingSpends,
      row ∈ disk.pendingSpends ∨ next.Relayed rules row := by
  have ok := inv.frames id frame found
  have calls : next.calls = server.calls ++ [] := by
    rw [stepped, (apply_frames _ _).2.1, List.append_nil]
  obtain ⟨more, grown⟩ :=
    SubmitEffect.exists_answersFrom server.answers after.2
  have answers : next.answers = server.answers ++ more := by
    rw [stepped, apply_answers]
    exact grown
  have old (row : AccountId × PendingSpend)
      (member : row ∈ server.disk.pendingSpends) :
      row ∈ disk.pendingSpends ∨ next.Relayed rules row :=
    (inv.recorded row member).imp_right fun relayed =>
      relayed.append calls answers
  intro row member
  obtain ⟨frameAfter, effect⟩ := after
  cases effect with
  | record account spends =>
      rw [stepped] at member
      rcases SortedRows.mem_of_mem_addAll member with before | new
      · exact old row before
      · obtain ⟨spend, among, rfl⟩ := List.mem_map.mp new
        obtain ⟨context, held, own, same, raw, answered, parsed⟩ :=
          moves.recorded ok
        have sent : server.Sent rules context :=
          inv.held frame (List.mem_of_getElem? found) context held
        refine .inr ⟨context, raw, sent.append calls, own.symm,
          same ▸ among, ?_, parsed⟩
        rw [answers]
        exact List.mem_append_left _ answered
  | _ =>
      rw [stepped] at member
      exact old row member

theorem Inv.progress (inv : Inv rules disk server)
    (found : server.frames[id]? = some frame)
    (moves : frame.Moves rules after) :
    Inv rules disk
      ({ server with frames := server.frames.set id after.1 }.apply
        after.2) := by
  generalize stepped :
    { server with frames := server.frames.set id after.1 }.apply after.2 = next
  obtain ⟨frames, calls, entering, accepted, refused⟩ := apply_frames
    { server with frames := server.frames.set id after.1 } after.2
  have status := apply_status
    { server with frames := server.frames.set id after.1 } after.2
  have answers := apply_answers
    { server with frames := server.frames.set id after.1 } after.2
  have resumed := apply_resumed
    { server with frames := server.frames.set id after.1 } after.2
  rw [stepped] at frames calls entering accepted refused answers resumed
  simp only [stepped] at status
  exact {
    frames := progress_frames inv found moves frames status answers
    status := by
      intro other same
      rw [frames, List.length_set]
      exact inv.status other ((status other).mp same).1
    held := by
      rw [frames]
      refine held_set ?_ ?_
      · intro context member
        exact (inv.held frame (List.mem_of_getElem? found) context
          (moves.held member)).same calls
      · intro other among context member
        exact (inv.held other among context member).same calls
    entering := by
      rw [entering]
      exact fun context member => (inv.entering context member).same calls
    calls := by
      rw [accepted, refused, entering, calls]
      exact inv.calls
    counts := by
      intro caller
      have before := inv.counts caller
      have moved := queued_set found after.1 caller
      rw [moves.heldCallers, List.count_append] at moved
      rw [frames, resumed, accepted, List.count_append]
      dsimp only
      omega
    resumed := by
      intro answer member
      obtain ⟨context, own, sent, justified⟩ :=
        progress_resumed inv found moves stepped.symm answer member
      exact ⟨context, own, sent.same calls, justified⟩
    recorded := progress_recorded inv found moves stepped.symm }

end Progress

theorem Inv.timed (inv : Inv rules disk server) (id : ℕ)
    {change : SubmitFrame → SubmitFrame} (timed : SubmitFrame.Timed change) :
    Inv rules disk
      { server with frames := server.frames.modify id change } := by
  cases found : server.frames[id]? with
  | none =>
      rw [List.modify_eq_self (List.getElem?_eq_none_iff.mp found)]
      exact inv
  | some frame =>
      obtain ⟨-, held, callers, -⟩ := timed.same frame
      have listed := List.mem_of_getElem? found
      rw [modify_eq found]
      exact {
        frames := by
          refine frames_set ?_ fun other frame _ => inv.frames other frame
          obtain ⟨timer, close, same⟩ := timed frame
          rw [same]
          exact (inv.frames id frame found).timed timer close
        status := by
          intro other same
          rw [List.length_set]
          exact inv.status other same
        held := by
          refine held_set ?_ inv.held
          rw [held]
          exact inv.held frame listed
        entering := inv.entering
        calls := inv.calls
        counts := by
          intro caller
          have before := inv.counts caller
          have moved := queued_set found (change frame) caller
          rw [callers] at moved
          dsimp only
          omega
        resumed := inv.resumed
        recorded := inv.recorded }

/-! ## Runs -/

theorem Inv.step {event : SubmitEvent} {next : SubmitServer}
    (inv : Inv rules disk server) (stepped : server.Steps rules event next) :
    Inv rules disk next := by
  unfold Steps SubmitServer.step at stepped
  cases event with
  | call request clock =>
      cases stepped
      exact inv.call request clock
  | enter caller made =>
      obtain ⟨context, found, rfl⟩ := Option.map_eq_some_iff.mp stepped
      exact inv.enqueue (List.mem_of_find?_eq_some found) made
  | progress id progress =>
      cases found : server.frames[id]? with
      | none => simp [found] at stepped
      | some frame =>
          simp only [found] at stepped
          obtain ⟨after, ran, rfl⟩ := Option.map_eq_some_iff.mp stepped
          exact inv.progress found (SubmitFrame.run_moves ran)
  | expire id =>
      cases stepped
      exact inv.timed id SubmitFrame.expire_timed
  | onTimeout id =>
      cases stepped
      exact inv.timed id SubmitFrame.onTimeout_timed
  | takeClient =>
      cases stepped
      exact ⟨inv.frames, inv.status, inv.held, inv.entering, inv.calls,
        inv.counts, inv.resumed, inv.recorded⟩
  | storeClient client =>
      cases stepped
      exact ⟨inv.frames, inv.status, inv.held, inv.entering, inv.calls,
        inv.counts, inv.resumed, inv.recorded⟩
  | write disk =>
      cases stepped
      exact ⟨inv.frames, inv.status, inv.held, inv.entering, inv.calls,
        inv.counts, inv.resumed, inv.recorded⟩

theorem Inv.of_run {clients : List AsyncClient} {events : List SubmitEvent}
    (reached : Run (Steps rules) (SubmitServer.start disk clients) events
      server) : Inv rules disk server :=
  reached.preserves (Inv rules disk)
    (fun _ _ _ inv stepped => inv.step stepped) (Inv.start clients)

theorem Inv.accepted_nodup (inv : Inv rules disk server) :
    server.accepted.Nodup :=
  (inv.calls.nodup_iff.mpr List.nodup_range).of_append_left

/-- A caller that was accepted and not resumed waits. -/
theorem Inv.waits (inv : Inv rules disk server) {caller : ℕ}
    (accepted : caller ∈ server.accepted)
    (silent : caller ∉ server.resumed.map Prod.fst) :
    ∃ id, server.WaitsIn id caller := by
  have counted := inv.counts caller
  rw [List.count_eq_zero.mpr silent] at counted
  have positive := List.count_pos_iff.mpr accepted
  have somewhere : 0 < queued server.frames caller := by omega
  obtain ⟨id, frame, found, held⟩ := queued_pos somewhere
  refine ⟨id, frame, found, ?_, held⟩
  intro ended
  have ok := inv.frames id frame found
  simp only [SubmitFrame.Ok, ended] at ok
  simp [SubmitFrame.heldCallers, SubmitFrame.held, ended, ok.2] at held

/-! ## The way to the answer -/

/-- A step of one coroutine. -/
def advances (id : ℕ) : SubmitEvent → Bool
  | .progress other _ => other = id
  | _ => false

def stepsLeft (server : SubmitServer) (id caller : ℕ) : ℕ :=
  server.frames[id]?.elim 0 (SubmitFrame.stepsLeft caller)

private theorem resumed_grows {event : SubmitEvent} {next : SubmitServer}
    (stepped : server.Steps rules event next) {caller : ℕ}
    (done : caller ∈ server.resumed.map Prod.fst) :
    caller ∈ next.resumed.map Prod.fst := by
  unfold Steps SubmitServer.step at stepped
  cases event with
  | call request clock =>
      cases stepped
      unfold SubmitServer.call
      dsimp only
      split <;> exact done
  | enter other made =>
      obtain ⟨context, -, rfl⟩ := Option.map_eq_some_iff.mp stepped
      unfold SubmitServer.enqueue
      dsimp only
      split
      · exact done
      · split
        · exact done
        · split <;> exact done
  | progress id progress =>
      cases found : server.frames[id]? with
      | none => simp [found] at stepped
      | some frame =>
          simp only [found] at stepped
          obtain ⟨after, -, rfl⟩ := Option.map_eq_some_iff.mp stepped
          rw [apply_resumed]
          exact List.mem_append_left _ done
  | expire id =>
      cases stepped
      exact done
  | onTimeout id =>
      cases stepped
      exact done
  | takeClient =>
      cases stepped
      exact done
  | storeClient client =>
      cases stepped
      exact done
  | write disk =>
      cases stepped
      exact done

private theorem frame_kept {event : SubmitEvent} {next : SubmitServer}
    (stepped : server.Steps rules event next) {id caller : ℕ}
    (other : advances id event = false) {frame : SubmitFrame}
    (found : server.frames[id]? = some frame)
    (held : caller ∈ frame.heldCallers) :
    ∃ after, next.frames[id]? = some after ∧ caller ∈ after.heldCallers ∧
      after.stepsLeft caller = frame.stepsLeft caller := by
  have same : next.frames[id]? = server.frames[id]? →
      ∃ after, next.frames[id]? = some after ∧ caller ∈ after.heldCallers ∧
        after.stepsLeft caller = frame.stepsLeft caller :=
    fun kept => ⟨frame, kept.trans found, held, rfl⟩
  have timed {position : ℕ} {change : SubmitFrame → SubmitFrame}
      (timed : SubmitFrame.Timed change) :
      ∃ after, (server.frames.modify position change)[id]? = some after ∧
        caller ∈ after.heldCallers ∧
          after.stepsLeft caller = frame.stepsLeft caller := by
    by_cases here : position = id
    · subst here
      obtain ⟨-, -, callers, left⟩ := timed.same frame
      exact ⟨change frame, by simp [found], callers ▸ held, left caller⟩
    · rw [List.getElem?_modify_ne _ _ here]
      exact ⟨frame, found, held, rfl⟩
  unfold Steps SubmitServer.step at stepped
  cases event with
  | call request clock =>
      cases stepped
      refine same ?_
      unfold SubmitServer.call
      dsimp only
      split <;> rfl
  | enter another made =>
      obtain ⟨context, -, rfl⟩ := Option.map_eq_some_iff.mp stepped
      obtain ⟨bound, -⟩ := List.getElem?_eq_some_iff.mp found
      unfold SubmitServer.enqueue at same ⊢
      dsimp only at same ⊢
      split
      · rename_i position status
        by_cases here : position = id
        · subst here
          refine ⟨{ frame with resumers := frame.resumers ++ [context] }, by
            simp [found], ?_, SubmitFrame.stepsLeft_push held context⟩
          rw [SubmitFrame.heldCallers_push]
          exact List.mem_append_left _ held
        · exact ⟨frame, by
            rw [List.getElem?_modify_ne _ _ here, found], held, rfl⟩
      · split
        · exact ⟨frame, by rw [List.getElem?_append_left bound, found], held,
            rfl⟩
        · split
          · exact ⟨frame, by rw [List.getElem?_append_left bound, found],
              held, rfl⟩
          · exact ⟨frame, found, held, rfl⟩
  | progress position progress =>
      cases stored : server.frames[position]? with
      | none => simp [stored] at stepped
      | some moving =>
          simp only [stored] at stepped
          obtain ⟨after, -, rfl⟩ := Option.map_eq_some_iff.mp stepped
          refine same ?_
          rw [(apply_frames _ _).1]
          exact List.getElem?_set_ne (by simpa [advances] using other)
  | expire position =>
      cases stepped
      exact timed SubmitFrame.expire_timed
  | onTimeout position =>
      cases stepped
      exact timed SubmitFrame.onTimeout_timed
  | takeClient =>
      cases stepped
      exact same rfl
  | storeClient client =>
      cases stepped
      exact same rfl
  | write disk =>
      cases stepped
      exact same rfl

private theorem frame_advances {event : SubmitEvent} {next : SubmitServer}
    (inv : Inv rules disk server) (stepped : server.Steps rules event next)
    {id caller : ℕ} (own : advances id event = true) {frame : SubmitFrame}
    (found : server.frames[id]? = some frame)
    (held : caller ∈ frame.heldCallers) :
    caller ∈ next.resumed.map Prod.fst ∨
      ∃ after, next.frames[id]? = some after ∧
        caller ∈ after.heldCallers ∧
          after.stepsLeft caller < frame.stepsLeft caller := by
  cases event with
  | progress position progress =>
      have here : position = id := by simpa [advances] using own
      subst here
      simp only [Steps, SubmitServer.step, found] at stepped
      obtain ⟨after, ran, rfl⟩ := Option.map_eq_some_iff.mp stepped
      have moves := SubmitFrame.run_moves ran
      have passed := moves.heldCallers ▸ held
      have nearer := moves.stepsLeft (inv.frames position frame found) held
      rw [apply_resumed]
      by_cases answered : caller ∈ after.2.callers
      · exact .inl (List.mem_append_right _ answered)
      · refine .inr ⟨after.1, ?_,
          (List.mem_append.mp passed).resolve_left answered,
          nearer.resolve_left answered⟩
        obtain ⟨bound, -⟩ := List.getElem?_eq_some_iff.mp found
        rw [(apply_frames _ _).1]
        exact List.getElem?_set_self bound
  | _ => simp [advances] at own

/-- Enough steps of its coroutine resume a caller, whatever else happens. -/
private theorem resumed_of_advances (inv : Inv rules disk server)
    {id caller : ℕ} {frame : SubmitFrame}
    (found : server.frames[id]? = some frame)
    (held : caller ∈ frame.heldCallers) {later : List SubmitEvent}
    {final : SubmitServer} (run : Run (Steps rules) server later final)
    (enough : frame.stepsLeft caller < later.countP (advances id)) :
    caller ∈ final.resumed.map Prod.fst := by
  have distance {state : SubmitServer} {frame : SubmitFrame}
      (found : state.frames[id]? = some frame) :
      state.stepsLeft id caller = frame.stepsLeft caller := by
    unfold stepsLeft
    rw [found]
    rfl
  have bounded : caller ∉ final.resumed.map Prod.fst →
      final.stepsLeft id caller + later.countP (advances id) ≤
        server.stepsLeft id caller := by
    intro waiting
    refine (run.count_le (fun state => Inv rules disk state ∧
        (caller ∈ state.resumed.map Prod.fst ∨ ∃ frame,
          state.frames[id]? = some frame ∧ caller ∈ frame.heldCallers))
      (fun state => caller ∉ state.resumed.map Prod.fst)
      (fun state => state.stepsLeft id caller) (advances id) ?_ ?_ ?_
      ⟨inv, .inr ⟨frame, found, held⟩⟩ waiting).2
    · rintro state event next ⟨inv, done | ⟨frame, found, held⟩⟩ stepped
      · exact ⟨inv.step stepped, .inl (resumed_grows stepped done)⟩
      refine ⟨inv.step stepped, ?_⟩
      cases own : advances id event with
      | true =>
          rcases frame_advances inv stepped own found held with
            done | ⟨after, found, held, -⟩
          · exact .inl done
          · exact .inr ⟨after, found, held⟩
      | false =>
          obtain ⟨after, found, held, -⟩ := frame_kept stepped own found held
          exact .inr ⟨after, found, held⟩
    · exact fun _ _ _ stepped waiting done =>
        waiting (resumed_grows stepped done)
    · rintro state event next ⟨inv, either⟩ stepped waiting
      obtain ⟨frame, found, held⟩ := either.resolve_left fun done =>
        waiting (resumed_grows stepped done)
      cases own : advances id event with
      | true =>
          obtain ⟨after, later, -, less⟩ :=
            (frame_advances inv stepped own found held).resolve_left waiting
          rw [distance found, distance later]
          exact less
      | false =>
          obtain ⟨after, later, -, same⟩ := frame_kept stepped own found held
          rw [distance found, distance later, same]
          exact le_rfl
  by_contra waiting
  have within := bounded waiting
  rw [distance found] at within
  omega

/-- What the callers of `submit_raw_tx` may rely on in a state. -/
structure AnswersEverybody (rules : SubmitRules) (disk : WalletDb)
    (server : SubmitServer) : Prop where
  once : ∀ caller, (server.resumed.map Prod.fst).count caller ≤ 1
  /-- Only calls that returned success are resumed. -/
  accepted : ∀ caller ∈ server.resumed.map Prod.fst,
    caller ∈ server.accepted ∧ caller ∉ server.refused.map Prod.fst
  /-- Who is not resumed yet is in the queue of a running coroutine. -/
  waits : ∀ caller ∈ server.accepted, caller ∉ server.resumed.map Prod.fst →
    ∃ id, server.WaitsIn id caller
  /-- That coroutine can always go on, and it resumes the caller within a
  number of its steps, in every continuation. -/
  resumes : ∀ id caller, server.WaitsIn id caller →
    (∃ progress, server.step rules (.progress id progress) ≠ none) ∧
    ∃ bound, ∀ later final, Run (Steps rules) server later final →
      bound < later.countP (advances id) →
      caller ∈ final.resumed.map Prod.fst
  /-- The answer is the one to the caller's own transaction. -/
  own : ∀ caller value, (caller, value) ∈ server.resumed →
    ∃ call, server.calls[caller]? = some call ∧
      (value = .error .daemonTimeout ∨
        ∃ raw, (.sendRawTxHex caller true call.request.tx, raw) ∈
          server.answers ∧ value = rules.answer raw)
  ended : ∀ frame ∈ server.frames, frame.phase = .ended → frame.held = []
  /-- Pending spends appear after the daemon relayed their transaction. -/
  recorded : ∀ id spend, (id, spend) ∈ server.disk.pendingSpends →
    (id, spend) ∈ disk.pendingSpends ∨
      ∃ caller call context raw, server.calls[caller]? = some call ∧
        call.prepare rules caller = .ok context ∧
        id = context.pendingAccount ∧ spend ∈ context.pendingSpends ∧
        (.sendRawTxHex caller true call.request.tx, raw) ∈ server.answers ∧
        rules.parseResponse raw = .ok true

private theorem Inv.own (inv : Inv rules disk server) {caller : ℕ}
    {value : SubmitAnswer} (member : (caller, value) ∈ server.resumed) :
    ∃ call, server.calls[caller]? = some call ∧
      (value = .error .daemonTimeout ∨
        ∃ raw, (.sendRawTxHex caller true call.request.tx, raw) ∈
          server.answers ∧ value = rules.answer raw) := by
  obtain ⟨context, rfl, ⟨call, found, prepared⟩, justified⟩ :=
    inv.resumed _ member
  refine ⟨call, found, ?_⟩
  rw [← (SubmitCall.prepare_eq_ok prepared).2]
  exact justified

private theorem Inv.relayed (inv : Inv rules disk server) {id : AccountId}
    {spend : PendingSpend}
    (member : (id, spend) ∈ server.disk.pendingSpends) :
    (id, spend) ∈ disk.pendingSpends ∨
      ∃ caller call context raw, server.calls[caller]? = some call ∧
        call.prepare rules caller = .ok context ∧
        id = context.pendingAccount ∧ spend ∈ context.pendingSpends ∧
        (.sendRawTxHex caller true call.request.tx, raw) ∈ server.answers ∧
        rules.parseResponse raw = .ok true := by
  refine (inv.recorded _ member).imp_right ?_
  rintro ⟨context, raw, ⟨call, found, prepared⟩, account, among, answered,
    parsed⟩
  refine ⟨context.caller, call, context, raw, found, prepared, account,
    among, ?_, parsed⟩
  rw [← (SubmitCall.prepare_eq_ok prepared).2]
  exact answered

private theorem Inv.ended (inv : Inv rules disk server) {frame : SubmitFrame}
    (member : frame ∈ server.frames) (ended : frame.phase = .ended) :
    frame.held = [] := by
  obtain ⟨id, found⟩ := List.getElem?_of_mem member
  have ok := inv.frames id frame found
  simp only [SubmitFrame.Ok, ended] at ok
  simp [SubmitFrame.held, ended, ok.2]

private theorem Inv.only_accepted (inv : Inv rules disk server) {caller : ℕ}
    (member : caller ∈ server.resumed.map Prod.fst) :
    caller ∈ server.accepted := by
  have counted := inv.counts caller
  have positive := List.count_pos_iff.mpr member
  have listed : 0 < server.accepted.count caller := by omega
  exact List.count_pos_iff.mp listed

end SubmitServer

/-- In every state that calls and coroutines can reach in any order, each
caller is resumed once with its own answer or still has a running coroutine
that will. -/
theorem submit_raw_tx_answers_everybody {rules : SubmitRules}
    {disk : WalletDb} {clients : List AsyncClient}
    {events : List SubmitEvent} {server : SubmitServer}
    (reached : Run (SubmitServer.Steps rules)
      (SubmitServer.start disk clients) events server) :
    server.AnswersEverybody rules disk := by
  have inv := SubmitServer.Inv.of_run reached
  have separate : server.accepted.Disjoint (server.refused.map Prod.fst) := by
    have distinct := inv.calls.nodup_iff.mpr List.nodup_range
    intro caller accepted refused
    exact List.disjoint_of_nodup_append distinct accepted
      (List.mem_append_left _ refused)
  exact {
    once := by
      intro caller
      have counted := inv.counts caller
      have single := List.nodup_iff_count_le_one.mp inv.accepted_nodup caller
      omega
    accepted := fun caller member =>
      ⟨inv.only_accepted member, fun refused =>
        separate (inv.only_accepted member) refused⟩
    waits := fun caller accepted silent => inv.waits accepted silent
    resumes := by
      rintro id caller ⟨frame, found, going, held⟩
      constructor
      · obtain ⟨progress, ran⟩ := (inv.frames id frame found).progress going
        refine ⟨progress, ?_⟩
        simp only [SubmitServer.step, found]
        simpa using ran
      · exact ⟨frame.stepsLeft caller, fun later final run enough =>
          SubmitServer.resumed_of_advances inv found held run enough⟩
    own := fun caller value member => inv.own member
    ended := fun frame member ended => inv.ended member ended
    recorded := fun id spend member => inv.relayed member }

/-! ## Two callers -/

def sampleSubmitRules : SubmitRules where
  env := sampleEnv
  debug := false
  parseResponse _ := .ok true

def sampleSubmitDisk : WalletDb := ⟨sampleScanned, .empty, .empty, .empty⟩

def sampleSubmitRequest : SubmitRawTxRequest :=
  ⟨"00", some ⟨sampleAddress, 7⟩, [⟨0, 5, 0, 50, 60⟩]⟩

/-- The second caller arrives while the first message is written, and the
socket fails on the second message. -/
theorem submit_raw_tx_answers_two : ∃ server : SubmitServer,
    server.accepted = [0, 1] ∧
    server.resumed =
      [(0, .ok (.status "OK")), (1, .error .daemonTimeout)] ∧
    server.disk.pendingSpends.rows.length = 1 ∧
    server.AnswersEverybody sampleSubmitRules sampleSubmitDisk := by
  refine ⟨_, ?_, ?_, ?_, @submit_raw_tx_answers_everybody sampleSubmitRules
    sampleSubmitDisk []
    [.call sampleSubmitRequest 9, .enter 0 true,
      .progress 0 .enter, .call ⟨"01", none, []⟩ 9, .enter 1 true,
      .progress 0 (.wrote true), .progress 0 (.received (some "relayed")),
      .progress 0 (.judge true), .progress 0 .respond, .progress 0 .resume,
      .progress 0 .resume, .progress 0 .enter, .progress 0 (.wrote false),
      .progress 0 .respond, .progress 0 .resume, .progress 0 .resume] _
    (.cons rfl (.cons rfl (.cons rfl (.cons rfl (.cons rfl (.cons rfl
      (.cons rfl (.cons rfl (.cons rfl (.cons rfl (.cons rfl (.cons rfl
        (.cons rfl (.cons rfl (.cons rfl (.cons rfl
          (.nil _)))))))))))))))))⟩
  · rfl
  · rfl
  · rfl

end XfoLws.Rest
