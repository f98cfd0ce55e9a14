import Mathlib.Data.List.Basic
import XfoLws.Rest.SubmitRawTx

/-!
# Frames of submit_raw_tx

The invariant of one coroutine: the front of the queue does not change between
the write of its message and the response, whatever arrives behind it.  Every
step brings the callers nearer to their answers.
-/

namespace XfoLws.Rest

open Db

namespace SubmitFrame

/-- What one resumption of the coroutine can do. -/
inductive Moves (rules : SubmitRules) (frame : SubmitFrame) :
    SubmitFrame × SubmitEffect → Prop where
  | finish (phase : frame.phase = .loop) (empty : frame.resumers = []) :
      Moves rules frame ({ frame with phase := .ended },
        .finish { frame.client with close := false })
  | write {front : SubmitContext} {rest : List SubmitContext}
      (phase : frame.phase = .loop) (queue : frame.resumers = front :: rest) :
      Moves rules frame
        ({ frame with timer := .running, phase := .writing front.message },
          .none)
  | wrote {next : DaemonCall} (phase : frame.phase = .writing next) :
      Moves rules frame
        ({ frame with
          client := { frame.client with awaiting := some next }
          phase := .reading }, .none)
  | notWritten {next : DaemonCall} (client : AsyncClient)
      (phase : frame.phase = .writing next) :
      Moves rules frame
        ({ frame with client := client, phase := .failing }, .none)
  | read {call : DaemonCall} (raw : String) (phase : frame.phase = .reading)
      (awaiting : frame.client.awaiting = some call) :
      Moves rules frame
        ({ frame with
          client := { frame.client with awaiting := none }
          timer := .idle
          phase := .judging raw }, .answered call raw)
  | readLate {call : DaemonCall} (raw : String)
      (phase : frame.phase = .reading)
      (awaiting : frame.client.awaiting = some call) :
      Moves rules frame
        ({ frame with
          client := { frame.client with awaiting := none }
          phase := .failing }, .answered call raw)
  | notRead (phase : frame.phase = .reading) :
      Moves rules frame ({ frame with phase := .failing }, .none)
  | record {raw : String} {front : SubmitContext} {rest : List SubmitContext}
      (phase : frame.phase = .judging raw)
      (relayed : rules.parseResponse raw = .ok true)
      (queue : frame.resumers = front :: rest) :
      Moves rules frame
        ({ frame with phase := .responding (rules.answer raw) },
          .record front.pendingAccount front.pendingSpends)
  | judge {raw : String} (phase : frame.phase = .judging raw) :
      Moves rules frame
        ({ frame with phase := .responding (rules.answer raw) }, .none)
  | respond {value : SubmitAnswer} {front : SubmitContext}
      {rest : List SubmitContext} (phase : frame.phase = .responding value)
      (queue : frame.resumers = front :: rest) :
      Moves rules frame
        ({ frame with
          resumers := rest
          phase := .resuming [front] value false }, .none)
  | fail (phase : frame.phase = .failing) :
      Moves rules frame
        ({ frame with
          resumers := []
          phase := .resuming frame.resumers (.error .daemonTimeout) true },
          .reset)
  | resume {context : SubmitContext} {rest : List SubmitContext}
      {value : SubmitAnswer} {failed : Bool}
      (phase : frame.phase = .resuming (context :: rest) value failed) :
      Moves rules frame
        ({ frame with phase := .resuming rest value failed },
          .resume context.caller value)
  | resumed {value : SubmitAnswer} {failed : Bool}
      (phase : frame.phase = .resuming [] value failed) :
      Moves rules frame
        ({ frame with phase := if failed then .ended else .loop }, .none)

variable {rules : SubmitRules} {frame : SubmitFrame}

private theorem moves_enter (phase : frame.phase = .loop) :
    Moves rules frame frame.enter := by
  unfold enter
  split
  · rename_i empty
    exact .finish phase empty
  · rename_i queue
    exact .write phase queue

private theorem moves_wrote {next : DaemonCall} (success : Bool)
    (phase : frame.phase = .writing next) :
    Moves rules frame (frame.wrote next success) := by
  unfold wrote
  split
  · exact .notWritten frame.client phase
  · show Moves rules frame (if frame.timer = .running then _ else _)
    split
    · exact .wrote phase
    · exact .notWritten { frame.client with awaiting := some next } phase

private theorem moves_received (response : Option String)
    (phase : frame.phase = .reading) :
    Moves rules frame (frame.received response) := by
  unfold received
  split
  · rename_i raw call awaiting
    split
    · exact .notRead phase
    · show Moves rules frame (if frame.timer = .running then _ else _)
      split
      · exact .read raw phase awaiting
      · exact .readLate raw phase awaiting
  · exact .notRead phase

private theorem moves_judge {raw : String} {stored : Bool}
    {after : SubmitFrame × SubmitEffect} (phase : frame.phase = .judging raw)
    (judged : frame.judge rules raw stored = some after) :
    Moves rules frame after := by
  unfold judge at judged
  split at judged
  · rename_i relayed
    split at judged
    · cases judged
    · rename_i queue
      split at judged
      · cases judged
        exact .record phase relayed queue
      · cases judged
        exact .judge phase
  · cases judged
    exact .judge phase

private theorem moves_respond {value : SubmitAnswer}
    {after : SubmitFrame × SubmitEffect}
    (phase : frame.phase = .responding value)
    (responded : frame.respond value = some after) :
    Moves rules frame after := by
  unfold respond at responded
  split at responded
  · cases responded
  · rename_i queue
    cases responded
    exact .respond phase queue

private theorem moves_resume {resumers : List SubmitContext}
    {value : SubmitAnswer} {failed : Bool}
    (phase : frame.phase = .resuming resumers value failed) :
    Moves rules frame (frame.resume resumers value failed) := by
  cases resumers with
  | nil => exact .resumed phase
  | cons context rest => exact .resume phase

theorem run_moves {progress : SubmitProgress}
    {after : SubmitFrame × SubmitEffect}
    (ran : frame.run rules progress = some after) :
    Moves rules frame after := by
  unfold run at ran
  cases progress with
  | enter =>
      obtain ⟨phase, same⟩ := Option.ite_none_right_eq_some.mp ran
      cases same
      exact moves_enter phase
  | wrote success =>
      cases phase : frame.phase with
      | writing next =>
          simp only [phase, Option.some.injEq] at ran
          exact ran ▸ moves_wrote success phase
      | _ => simp [phase] at ran
  | received response =>
      obtain ⟨phase, same⟩ := Option.ite_none_right_eq_some.mp ran
      cases same
      exact moves_received response phase
  | judge stored =>
      cases phase : frame.phase with
      | judging raw =>
          simp only [phase] at ran
          exact moves_judge phase ran
      | _ => simp [phase] at ran
  | respond =>
      cases phase : frame.phase with
      | responding value =>
          simp only [phase] at ran
          exact moves_respond phase ran
      | failing =>
          simp only [phase, Option.some.injEq] at ran
          exact ran ▸ .fail phase
      | _ => simp [phase] at ran
  | resume =>
      cases phase : frame.phase with
      | resuming resumers value failed =>
          simp only [phase, Option.some.injEq] at ran
          exact ran ▸ moves_resume phase
      | _ => simp [phase] at ran

/-- The requests that a frame still has to answer. -/
def held (frame : SubmitFrame) : List SubmitContext :=
  match frame.phase with
  | .resuming resumers _ _ => resumers ++ frame.resumers
  | _ => frame.resumers

def heldCallers (frame : SubmitFrame) : List ℕ :=
  frame.held.map SubmitContext.caller

end SubmitFrame

/-- The callers that an effect resumes. -/
def SubmitEffect.callers : SubmitEffect → List ℕ
  | .resume caller _ => [caller]
  | _ => []

namespace SubmitFrame

variable {rules : SubmitRules} {frame : SubmitFrame}

theorem Moves.heldCallers {after : SubmitFrame × SubmitEffect}
    (moves : Moves rules frame after) :
    frame.heldCallers = after.2.callers ++ after.1.heldCallers := by
  unfold SubmitFrame.heldCallers held
  cases moves with
  | resumed phase =>
      rename_i failed
      cases failed <;> simp [phase, SubmitEffect.callers]
  | respond phase queue => simp [phase, queue, SubmitEffect.callers]
  | _ => simp [SubmitEffect.callers, *]

theorem Moves.held {after : SubmitFrame × SubmitEffect}
    (moves : Moves rules frame after) {context : SubmitContext}
    (member : context ∈ after.1.held) : context ∈ frame.held := by
  unfold SubmitFrame.held at member ⊢
  cases moves with
  | resumed phase =>
      rename_i failed
      cases failed <;> simpa [phase] using member
  | respond phase queue => simpa [phase, queue] using member
  | fail phase => simpa [phase] using member
  | resume phase =>
      simp only [phase, List.cons_append]
      exact List.mem_cons_of_mem _ member
  | _ => simp_all

/-- The answer to one's own message, or the error of a timeout. -/
def Justified (rules : SubmitRules) (answers : List (DaemonCall × String))
    (message : DaemonCall) (value : SubmitAnswer) : Prop :=
  value = .error .daemonTimeout ∨
    ∃ raw, (message, raw) ∈ answers ∧ value = rules.answer raw

theorem Justified.append {answers more : List (DaemonCall × String)}
    {message : DaemonCall} {value : SubmitAnswer}
    (justified : Justified rules answers message value) :
    Justified rules (answers ++ more) message value := by
  refine justified.imp_right ?_
  rintro ⟨raw, member, same⟩
  exact ⟨raw, List.mem_append_left _ member, same⟩

/-- The front of the queue is what the coroutine works on. -/
def Front (frame : SubmitFrame) (works : SubmitContext → Prop) : Prop :=
  ∃ front rest, frame.resumers = front :: rest ∧ works front

/-- The invariant of a frame; `current` is whether new requests can still
find it. -/
def Ok (rules : SubmitRules) (answers : List (DaemonCall × String))
    (current : Prop) (frame : SubmitFrame) : Prop :=
  match frame.phase with
  | .loop => current
  | .writing next => current ∧ frame.Front fun front => next = front.message
  | .reading => current ∧ frame.Front fun front =>
      frame.client.awaiting = some front.message
  | .judging raw => current ∧ frame.Front fun front =>
      (front.message, raw) ∈ answers
  | .responding value => current ∧ frame.Front fun front =>
      Justified rules answers front.message value
  | .failing => current
  | .resuming resumers value false => current ∧ ∀ context ∈ resumers,
      Justified rules answers context.message value
  | .resuming _ value true =>
      ¬ current ∧ value = .error .daemonTimeout ∧ frame.resumers = []
  | .ended => ¬ current ∧ frame.resumers = []

end SubmitFrame

namespace SubmitEffect

/-- Whether a frame can still be found behind an effect of its own. -/
def Keeps : SubmitEffect → Prop
  | .finish _ => False
  | .reset => False
  | _ => True

def answersFrom (answers : List (DaemonCall × String)) :
    SubmitEffect → List (DaemonCall × String)
  | .answered call raw => answers ++ [(call, raw)]
  | _ => answers

theorem exists_answersFrom (answers : List (DaemonCall × String))
    (effect : SubmitEffect) :
    ∃ more, effect.answersFrom answers = answers ++ more := by
  cases effect with
  | answered call raw => exact ⟨[(call, raw)], rfl⟩
  | _ => exact ⟨[], (List.append_nil answers).symm⟩

end SubmitEffect

namespace SubmitFrame

variable {rules : SubmitRules} {frame : SubmitFrame}
variable {answers : List (DaemonCall × String)} {current : Prop}

theorem Front.append {works : SubmitContext → Prop}
    (front : frame.Front works) (context : SubmitContext) :
    ({ frame with
      resumers := frame.resumers ++ [context] } : SubmitFrame).Front
        works := by
  obtain ⟨first, rest, queue, works⟩ := front
  exact ⟨first, rest ++ [context], by simp [queue], works⟩

/-- More answers of the daemon do not matter. -/
theorem Ok.append (ok : Ok rules answers current frame)
    (more : List (DaemonCall × String)) :
    Ok rules (answers ++ more) current frame := by
  unfold Ok at ok ⊢
  split at ok
  · exact ok
  · exact ok
  · exact ok
  · obtain ⟨here, front, rest, queue, member⟩ := ok
    exact ⟨here, front, rest, queue, List.mem_append_left _ member⟩
  · obtain ⟨here, front, rest, queue, justified⟩ := ok
    exact ⟨here, front, rest, queue, justified.append⟩
  · exact ok
  · exact ⟨ok.1, fun context member => (ok.2 context member).append⟩
  · exact ok
  · exact ok

theorem Ok.push (ok : Ok rules answers current frame) (here : current)
    (context : SubmitContext) :
    Ok rules answers current
      { frame with resumers := frame.resumers ++ [context] } := by
  unfold Ok at ok ⊢
  dsimp only
  split at ok
  · exact ok
  · exact ⟨here, ok.2.append context⟩
  · exact ⟨here, ok.2.append context⟩
  · exact ⟨here, ok.2.append context⟩
  · exact ⟨here, ok.2.append context⟩
  · exact ok
  · exact ok
  · exact (ok.1 here).elim
  · exact (ok.1 here).elim

/-- The invariant neither looks at the timer nor at `close`. -/
theorem Ok.timed (ok : Ok rules answers current frame) (timer : SubmitTimer)
    (close : Bool) :
    Ok rules answers current
      { frame with
        timer := timer
        client := { frame.client with close := close } } := by
  unfold Ok at ok ⊢
  exact ok

theorem Moves.ok {after : SubmitFrame × SubmitEffect}
    (moves : Moves rules frame after) (ok : Ok rules answers current frame) :
    Ok rules (after.2.answersFrom answers) (current ∧ after.2.Keeps)
      after.1 := by
  unfold Ok at ok
  cases moves with
  | finish phase empty => exact ⟨fun kept => kept.2, empty⟩
  | write phase queue =>
      simp only [phase] at ok
      exact ⟨⟨ok, trivial⟩, _, _, queue, rfl⟩
  | wrote phase =>
      simp only [phase] at ok
      obtain ⟨here, front, rest, queue, same⟩ := ok
      exact ⟨⟨here, trivial⟩, front, rest, queue, congrArg some same⟩
  | notWritten client phase =>
      simp only [phase] at ok
      exact ⟨ok.1, trivial⟩
  | read raw phase awaiting =>
      simp only [phase] at ok
      obtain ⟨here, front, rest, queue, same⟩ := ok
      rw [awaiting] at same
      cases same
      exact ⟨⟨here, trivial⟩, front, rest, queue, by
        simp [SubmitEffect.answersFrom]⟩
  | readLate raw phase awaiting =>
      simp only [phase] at ok
      exact ⟨ok.1, trivial⟩
  | notRead phase =>
      simp only [phase] at ok
      exact ⟨ok.1, trivial⟩
  | record phase relayed queue =>
      simp only [phase] at ok
      obtain ⟨here, front, rest, queue, member⟩ := ok
      exact ⟨⟨here, trivial⟩, front, rest, queue, .inr ⟨_, member, rfl⟩⟩
  | judge phase =>
      simp only [phase] at ok
      obtain ⟨here, front, rest, queue, member⟩ := ok
      exact ⟨⟨here, trivial⟩, front, rest, queue, .inr ⟨_, member, rfl⟩⟩
  | respond phase queue =>
      simp only [phase] at ok
      obtain ⟨here, front, rest, same, justified⟩ := ok
      rw [queue] at same
      cases same
      refine ⟨⟨here, trivial⟩, ?_⟩
      intro context member
      cases List.mem_singleton.mp member
      exact justified
  | fail phase => exact ⟨fun kept => kept.2, rfl, rfl⟩
  | resume phase =>
      rename_i context rest value failed
      simp only [phase] at ok
      cases failed with
      | false =>
          exact ⟨⟨ok.1, trivial⟩, fun other member =>
            ok.2 other (List.mem_cons_of_mem _ member)⟩
      | true => exact ⟨fun kept => ok.1 kept.1, ok.2⟩
  | resumed phase =>
      rename_i value failed
      simp only [phase] at ok
      cases failed with
      | false => exact ⟨ok.1, trivial⟩
      | true => exact ⟨fun kept => ok.1 kept.1, ok.2.2⟩

/-- Only a frame that can be found resets the status. -/
theorem Moves.resets {after : SubmitFrame × SubmitEffect}
    (moves : Moves rules frame after) (ok : Ok rules answers current frame)
    (dropped : ¬ after.2.Keeps) : current := by
  unfold Ok at ok
  cases moves with
  | finish phase empty =>
      simp only [phase] at ok
      exact ok
  | fail phase =>
      simp only [phase] at ok
      exact ok
  | _ => exact (dropped trivial).elim

theorem Moves.justified {after : SubmitFrame} {caller : ℕ}
    {value : SubmitAnswer}
    (moves : Moves rules frame (after, .resume caller value))
    (ok : Ok rules answers current frame) :
    ∃ context ∈ frame.held, context.caller = caller ∧
      Justified rules answers context.message value := by
  unfold Ok at ok
  cases moves with
  | resume phase =>
      rename_i context rest failed
      refine ⟨context, by simp [SubmitFrame.held, phase], rfl, ?_⟩
      simp only [phase] at ok
      cases failed with
      | false => exact ok.2 context (by simp)
      | true => exact .inl ok.2.1

theorem Moves.recorded {after : SubmitFrame} {account : AccountId}
    {spends : List PendingSpend}
    (moves : Moves rules frame (after, .record account spends))
    (ok : Ok rules answers current frame) :
    ∃ context ∈ frame.held, context.pendingAccount = account ∧
      context.pendingSpends = spends ∧ ∃ raw,
        (context.message, raw) ∈ answers ∧
          rules.parseResponse raw = .ok true := by
  unfold Ok at ok
  cases moves with
  | record phase relayed queue =>
      rename_i raw front rest
      simp only [phase] at ok
      obtain ⟨-, first, others, same, member⟩ := ok
      rw [queue] at same
      cases same
      exact ⟨front, by simp [SubmitFrame.held, phase, queue], rfl, rfl, raw,
        member, relayed⟩

/-- A coroutine that has not ended can go on, whatever the environment
does. -/
theorem Ok.progress (ok : Ok rules answers current frame)
    (going : frame.phase ≠ .ended) :
    ∃ progress, frame.run rules progress ≠ none := by
  unfold Ok at ok
  cases phase : frame.phase with
  | loop => exact ⟨.enter, by simp [run, phase]⟩
  | writing next => exact ⟨.wrote false, by simp [run, phase]⟩
  | reading => exact ⟨.received none, by simp [run, phase]⟩
  | judging raw =>
      simp only [phase] at ok
      obtain ⟨-, front, rest, queue, -⟩ := ok
      refine ⟨.judge false, ?_⟩
      simp only [run, phase, judge, queue]
      split <;> simp
  | responding value =>
      simp only [phase] at ok
      obtain ⟨-, front, rest, queue, -⟩ := ok
      exact ⟨.respond, by simp [run, phase, respond, queue]⟩
  | failing => exact ⟨.respond, by simp [run, phase]⟩
  | resuming resumers value failed => exact ⟨.resume, by simp [run, phase]⟩
  | ended => exact (going phase).elim

/-! ### The way to the answer -/

/-- How many steps of the coroutine are left at most until a caller in the
frame is resumed.  A message takes seven steps from the head of the loop. -/
def stepsLeft (caller : ℕ) (frame : SubmitFrame) : ℕ :=
  let place := (frame.resumers.map SubmitContext.caller).idxOf caller
  match frame.phase with
  | .loop => 7 * place + 6
  | .writing _ => 7 * place + 5
  | .reading => 7 * place + 4
  | .judging _ => 7 * place + 3
  | .responding _ => 7 * place + 2
  | .failing => place + 2
  | .resuming resumers _ _ =>
      if caller ∈ resumers.map SubmitContext.caller then
        (resumers.map SubmitContext.caller).idxOf caller + 1
      else resumers.length + 7 * place + 7
  | .ended => 0

/-- Every step of the frame brings its callers nearer to their answers. -/
theorem Moves.stepsLeft {after : SubmitFrame × SubmitEffect}
    (moves : Moves rules frame after) (ok : Ok rules answers current frame)
    {caller : ℕ} (waits : caller ∈ frame.heldCallers) :
    caller ∈ after.2.callers ∨
      after.1.stepsLeft caller < frame.stepsLeft caller := by
  unfold Ok at ok
  unfold SubmitFrame.heldCallers SubmitFrame.held at waits
  unfold SubmitFrame.stepsLeft
  cases moves with
  | finish phase empty => simp [phase, empty] at waits
  | respond phase queue =>
      rename_i value front rest
      refine .inr ?_
      simp only [phase, queue, List.map_cons, List.map_nil,
        List.mem_singleton, List.length_singleton]
      by_cases own : caller = front.caller
      · simp [own]
      · rw [if_neg own, List.idxOf_cons_ne _ (Ne.symm own)]
        omega
  | fail phase =>
      simp only [phase] at waits
      simp [phase, waits]
  | resume phase =>
      rename_i context rest value failed
      simp only [SubmitEffect.callers, phase, List.map_cons, List.mem_cons,
        List.length_cons]
      by_cases own : caller = context.caller
      · exact .inl (.inl own)
      · refine .inr ?_
        rw [List.idxOf_cons_ne _ (Ne.symm own)]
        simp only [own, false_or]
        split <;> omega
  | resumed phase =>
      rename_i value failed
      simp only [phase] at ok waits
      cases failed with
      | false => simp [phase]
      | true => simp [ok.2.2] at waits
  | _ => simp_all <;> omega

/-- A request behind a caller does not put it off. -/
theorem stepsLeft_push {caller : ℕ} (waits : caller ∈ frame.heldCallers)
    (context : SubmitContext) :
    ({ frame with
      resumers := frame.resumers ++ [context] } : SubmitFrame).stepsLeft
        caller = frame.stepsLeft caller := by
  unfold heldCallers held at waits
  unfold stepsLeft
  cases phase : frame.phase with
  | resuming resumers value failed =>
      simp only [phase, List.map_append, List.mem_append] at waits ⊢
      by_cases among : caller ∈ resumers.map SubmitContext.caller
      · simp [among]
      · rw [List.idxOf_append_of_mem (waits.resolve_left among)]
  | ended => rfl
  | _ =>
      simp only [phase] at waits
      simp only [List.map_append, List.idxOf_append_of_mem waits]

theorem heldCallers_push (frame : SubmitFrame) (context : SubmitContext) :
    ({ frame with
      resumers := frame.resumers ++ [context] } : SubmitFrame).heldCallers =
        frame.heldCallers ++ [context.caller] := by
  unfold heldCallers held
  dsimp only
  split <;> simp

/-- A change of the timer and of `close` only. -/
def Timed (change : SubmitFrame → SubmitFrame) : Prop :=
  ∀ frame, ∃ timer close, change frame =
    { frame with
      timer := timer
      client := { frame.client with close := close } }

theorem expire_timed : Timed expire := by
  intro frame
  unfold expire
  split
  · exact ⟨.expired, frame.client.close, rfl⟩
  · exact ⟨frame.timer, frame.client.close, rfl⟩

theorem onTimeout_timed : Timed onTimeout := by
  intro frame
  unfold onTimeout
  split
  · exact ⟨frame.timer, true, rfl⟩
  · exact ⟨frame.timer, frame.client.close, rfl⟩

theorem Timed.same {change : SubmitFrame → SubmitFrame}
    (timed : Timed change) (frame : SubmitFrame) :
    (change frame).phase = frame.phase ∧
      (change frame).held = frame.held ∧
      (change frame).heldCallers = frame.heldCallers ∧
      ∀ caller, (change frame).stepsLeft caller = frame.stepsLeft caller := by
  obtain ⟨timer, close, same⟩ := timed frame
  rw [same]
  exact ⟨rfl, rfl, rfl, fun _ => rfl⟩

end SubmitFrame

end XfoLws.Rest
