import Mathlib.Algebra.Order.Ring.Int
import Mathlib.Data.List.Basic
import Mathlib.Tactic.Linarith

/-!
# Waiting for the daemon

`do_wait` polls the daemon and the signal socket, and polls again with what is
left of the timeout when a signal interrupts it.  Times are in ticks of the
steady clock, timeouts in milliseconds.
-/

namespace XfoLws.Rpc

/-! ## Clock and polls -/

/-- The resolution of `std::chrono::steady_clock`. -/
structure SteadyClock where
  perMillisecond : ℕ
  positive : 0 < perMillisecond
deriving DecidableEq

/-- `duration_cast` to milliseconds rounds towards zero. -/
def SteadyClock.milliseconds (clock : SteadyClock) (duration : ℤ) : ℤ :=
  duration.tdiv clock.perMillisecond

def SteadyClock.ticks (clock : SteadyClock) (milliseconds : ℤ) : ℤ :=
  milliseconds * clock.perMillisecond

inductive RpcError where
  | invalidArgument
  | daemonTimeout
  | signalAbortProcess
  | signalAbortScan
  | signalUnknown
  | zmq (errno : ℕ)
deriving DecidableEq, Repr

def eintr : ℕ := 4

/-- What `zmq_poll` returns; for the signal socket with the byte that
`zmq_recv` reads from it. -/
inductive Ready where
  | idle
  | failed (errno : ℕ)
  | daemon
  | signal (received : Except ℕ Char)
deriving DecidableEq

/-- A `zmq_poll` between two readings of the clock, which never goes back. -/
structure Poll where
  start : ℤ
  finish : ℤ
  ordered : start ≤ finish
  ready : Ready
deriving DecidableEq

def Poll.elapsed (poll : Poll) : ℤ := poll.finish - poll.start

def Poll.Interrupted (poll : Poll) : Prop := poll.ready = .failed eintr

/-! ## The loop -/

def signalError : Char → RpcError
  | 'P' => .signalAbortProcess
  | 'S' => .signalAbortScan
  | _ => .signalUnknown

/-- What `do_wait` returns after a poll, unless it polls again. -/
def Ready.result : Ready → Option (Except RpcError Unit)
  | .idle => some (.error .daemonTimeout)
  | .failed errno => if errno = eintr then none else some (.error (.zmq errno))
  | .daemon => some (.ok ())
  | .signal (.error errno) => some (.error (.zmq errno))
  | .signal (.ok byte) => some (.error (signalError byte))

/-- The timeout after a poll. -/
def remaining (clock : SteadyClock) (timeout : ℤ) (poll : Poll) : ℤ :=
  -- the source has `start - end`
  let spent := clock.milliseconds (poll.start - poll.finish)
  timeout - min spent timeout

/-- A poll and the timeout it was given. -/
structure Polled where
  timeout : ℤ
  poll : Poll
deriving DecidableEq

/-- The polls of a call and its result, which is missing while it waits. -/
structure Waited (α : Type) where
  polls : List Polled
  result : Option (Except RpcError α)

/-- The polls are all the environment answers; after the last one the call is
still waiting. -/
def pollLoop (clock : SteadyClock) : ℤ → List Poll → Waited Unit
  | _, [] => ⟨[], none⟩
  | timeout, poll :: later =>
      match poll.ready.result with
      | some result => ⟨[⟨timeout, poll⟩], some result⟩
      | none =>
          let rest := pollLoop clock (remaining clock timeout poll) later
          ⟨⟨timeout, poll⟩ :: rest.polls, rest.result⟩

def doWait (clock : SteadyClock) (timeout : ℤ) (polls : List Poll) : Waited Unit :=
  if timeout ≤ 0 then ⟨[], some (.error .daemonTimeout)⟩
  else pollLoop clock timeout polls

/-! ## Its callers -/

/-- A non-blocking `zmq` call. -/
inductive Attempt (α : Type) where
  | done (value : α)
  | again
  | failed (errno : ℕ)

/-- A turn of the loop: the attempt, and the polls of the wait behind it. -/
structure Round (α : Type) where
  attempt : Attempt α
  polls : List Poll

/-- The loop of `get_message` and of `send`, which waits with its timeout once
and with none later. -/
def retry {α : Type} (clock : SteadyClock) : ℤ → List (Round α) → Waited α
  | _, [] => ⟨[], none⟩
  | timeout, round :: later =>
      match round.attempt with
      | .done value => ⟨[], some (.ok value)⟩
      | .failed errno => ⟨[], some (.error (.zmq errno))⟩
      | .again =>
          let wait := doWait clock timeout round.polls
          match wait.result with
          | none => ⟨wait.polls, none⟩
          | some (.error failure) => ⟨wait.polls, some (.error failure)⟩
          | some (.ok ()) =>
              let rest := retry clock 0 later
              ⟨wait.polls ++ rest.polls, rest.result⟩

/-- A client, which has no context after a move. -/
structure Client where
  ctx : Bool
deriving DecidableEq, Repr

/-- The milliseconds of `std::chrono::seconds`. -/
def ofSeconds (seconds : ℤ) : ℤ := seconds * 1000

def Client.getMessage (client : Client) (clock : SteadyClock) (timeout : ℤ)
    (rounds : List (Round String)) : Waited String :=
  if client.ctx then retry clock (ofSeconds timeout) rounds
  else ⟨[], some (.error .invalidArgument)⟩

def Client.send (client : Client) (clock : SteadyClock) (timeout : ℤ)
    (rounds : List (Round Unit)) : Waited Unit :=
  if client.ctx then retry clock (ofSeconds timeout) rounds
  else ⟨[], some (.error .invalidArgument)⟩

/-! ## The budget -/

def spentIn (polls : List Polled) : ℤ :=
  (polls.map fun polled => polled.poll.elapsed).sum

/-- Every timeout is non-negative and within what the polls before it left of
the budget, which is in ticks. -/
def WithinBudget (clock : SteadyClock) (budget : ℤ) (polls : List Polled) : Prop :=
  ∀ earlier polled later, polls = earlier ++ polled :: later →
    0 ≤ polled.timeout ∧ clock.ticks polled.timeout ≤ budget - spentIn earlier

/-- Every poll returns within its timeout. -/
def Punctual (clock : SteadyClock) (polls : List Polled) : Prop :=
  ∀ polled ∈ polls, polled.poll.elapsed ≤ clock.ticks polled.timeout

/-- The polls keep within a timeout, each alone and all together. -/
def KeepsTimeout (clock : SteadyClock) (timeout : ℤ) (polls : List Polled) : Prop :=
  WithinBudget clock (clock.ticks timeout) polls ∧
    (Punctual clock polls → spentIn polls ≤ clock.ticks timeout)

/-- No time passes in an interrupted poll that another one follows. -/
def PromptRetries (polls : List Poll) : Prop :=
  ∀ earlier interrupted next later, polls = earlier ++ interrupted :: next :: later →
    (∀ poll ∈ earlier, poll.Interrupted) → interrupted.Interrupted →
      interrupted.elapsed = 0

section Budget

variable {clock : SteadyClock} {budget timeout : ℤ} {poll : Poll}
  {polled : Polled} {polls : List Polled} {later : List Poll}

theorem Poll.elapsed_nonneg (poll : Poll) : 0 ≤ poll.elapsed := by
  have ordered := poll.ordered
  unfold Poll.elapsed
  omega

theorem withinBudget_nil : WithinBudget clock budget [] := by
  intro earlier polled later split
  simp at split

theorem withinBudget_cons :
    WithinBudget clock budget (polled :: polls) ↔
      (0 ≤ polled.timeout ∧ clock.ticks polled.timeout ≤ budget) ∧
        WithinBudget clock (budget - polled.poll.elapsed) polls := by
  constructor
  · intro within
    constructor
    · simpa [spentIn] using within [] polled polls rfl
    · intro earlier other later split
      have here := within (polled :: earlier) other later (by simp [split])
      simp only [spentIn, List.map_cons, List.sum_cons] at here ⊢
      exact ⟨here.1, by linarith [here.2]⟩
  · rintro ⟨first, rest⟩ earlier other later split
    cases earlier with
    | nil =>
        obtain ⟨rfl, rfl⟩ := List.cons.inj split
        simpa [spentIn] using first
    | cons head earlier =>
        obtain ⟨rfl, rfl⟩ := List.cons.inj split
        have here := rest earlier other later rfl
        simp only [spentIn, List.map_cons, List.sum_cons] at here ⊢
        exact ⟨here.1, by linarith [here.2]⟩

/-- Polls that keep within what is left of a budget spend no more than it. -/
theorem spentIn_le (nonneg : 0 ≤ budget) (within : WithinBudget clock budget polls)
    (punctual : Punctual clock polls) : spentIn polls ≤ budget := by
  induction polls generalizing budget with
  | nil => simpa [spentIn] using nonneg
  | cons polled polls induction =>
      obtain ⟨⟨-, fits⟩, rest⟩ := withinBudget_cons.mp within
      have spent : polled.poll.elapsed ≤ clock.ticks polled.timeout :=
        punctual polled (by simp)
      have left : 0 ≤ budget - polled.poll.elapsed := by linarith
      have total := induction left rest fun other member =>
        punctual other (List.mem_cons_of_mem _ member)
      simp only [spentIn, List.map_cons, List.sum_cons] at total ⊢
      linarith

theorem SteadyClock.ticks_nonneg (nonneg : 0 ≤ timeout) : 0 ≤ clock.ticks timeout :=
  Int.mul_nonneg nonneg (Int.natCast_nonneg _)

theorem keepsTimeout_iff (nonneg : 0 ≤ timeout) :
    KeepsTimeout clock timeout polls ↔
      WithinBudget clock (clock.ticks timeout) polls := by
  constructor
  · exact And.left
  · intro within
    exact ⟨within, spentIn_le (clock.ticks_nonneg nonneg) within⟩

/-! ### Interrupted polls -/

theorem Ready.result_eq_none (ready : Ready) :
    ready.result = none ↔ ready = .failed eintr := by
  rcases ready with - | errno | - | (errno | byte) <;> simp [Ready.result]

theorem promptRetries_of_finished (finished : ¬ poll.Interrupted) :
    PromptRetries (poll :: later) := by
  intro earlier interrupted next rest split before retried
  cases earlier with
  | nil =>
      obtain ⟨rfl, -⟩ := List.cons.inj split
      exact absurd retried finished
  | cons head earlier =>
      obtain ⟨rfl, -⟩ := List.cons.inj split
      exact absurd (before poll (by simp)) finished

theorem promptRetries_single : PromptRetries [poll] := by
  intro earlier interrupted next rest split
  have short := congrArg List.length split
  simp only [List.length_append, List.length_cons, List.length_nil] at short
  omega

theorem promptRetries_cons {next : Poll} (retried : poll.Interrupted) :
    PromptRetries (poll :: next :: later) ↔
      poll.elapsed = 0 ∧ PromptRetries (next :: later) := by
  constructor
  · intro prompt
    constructor
    · exact prompt [] poll next later rfl (by simp) retried
    · intro earlier interrupted follower rest split before again
      refine prompt (poll :: earlier) interrupted follower rest (by simp [split]) ?_ again
      intro other member
      rcases List.mem_cons.mp member with rfl | among
      · exact retried
      · exact before other among
  · rintro ⟨zero, prompt⟩ earlier interrupted follower rest split before again
    cases earlier with
    | nil =>
        obtain ⟨rfl, -⟩ := List.cons.inj split
        exact zero
    | cons head earlier =>
        obtain ⟨rfl, tail⟩ := List.cons.inj split
        exact prompt earlier interrupted follower rest tail
          (fun other member => before other (List.mem_cons_of_mem _ member)) again

/-! ### What is left after a poll -/

/-- The difference is taken the wrong way round, so the timeout grows by the
time the poll took. -/
theorem remaining_eq (positive : 0 < timeout) :
    remaining clock timeout poll =
      timeout + clock.milliseconds poll.elapsed := by
  have reversed : poll.start - poll.finish = -poll.elapsed := by
    unfold Poll.elapsed
    omega
  have whole : 0 ≤ clock.milliseconds poll.elapsed :=
    Int.tdiv_nonneg poll.elapsed_nonneg (Int.natCast_nonneg _)
  have negated :
      clock.milliseconds (poll.start - poll.finish) =
        -clock.milliseconds poll.elapsed := by
    rw [reversed]
    exact Int.neg_tdiv ..
  simp only [remaining, negated]
  omega

theorem remaining_ge (positive : 0 < timeout) :
    timeout ≤ remaining clock timeout poll := by
  have whole : 0 ≤ clock.milliseconds poll.elapsed :=
    Int.tdiv_nonneg poll.elapsed_nonneg (Int.natCast_nonneg _)
  rw [remaining_eq positive]
  omega

theorem remaining_of_prompt (positive : 0 < timeout) (prompt : poll.elapsed = 0) :
    remaining clock timeout poll = timeout := by
  rw [remaining_eq positive, prompt]
  simp [SteadyClock.milliseconds]

/-- A loop that has a poll left makes it with its timeout. -/
theorem pollLoop_cons (clock : SteadyClock) (timeout : ℤ) (poll : Poll)
    (later : List Poll) :
    ∃ rest, (pollLoop clock timeout (poll :: later)).polls = ⟨timeout, poll⟩ :: rest := by
  unfold pollLoop
  split
  · exact ⟨_, rfl⟩
  · exact ⟨_, rfl⟩

theorem pollLoop_finished {result : Except RpcError Unit}
    (finished : poll.ready.result = some result) :
    pollLoop clock timeout (poll :: later) = ⟨[⟨timeout, poll⟩], some result⟩ := by
  simp [pollLoop, finished]

theorem pollLoop_interrupted (retried : poll.Interrupted) :
    (pollLoop clock timeout (poll :: later)).polls =
      ⟨timeout, poll⟩ :: (pollLoop clock (remaining clock timeout poll) later).polls := by
  have again := poll.ready.result_eq_none.mpr retried
  simp [pollLoop, again]

theorem withinBudget_single (positive : 0 < timeout) :
    WithinBudget clock (clock.ticks timeout) [⟨timeout, poll⟩] := by
  rw [withinBudget_cons]
  exact ⟨⟨positive.le, le_rfl⟩, withinBudget_nil⟩

/-- The second poll keeps the budget only when the first took no time. -/
theorem prompt_of_withinBudget {next : Poll} (positive : 0 < timeout)
    (retried : poll.Interrupted)
    (within : WithinBudget clock (clock.ticks timeout)
      (pollLoop clock timeout (poll :: next :: later)).polls) :
    poll.elapsed = 0 := by
  rw [pollLoop_interrupted retried, withinBudget_cons] at within
  obtain ⟨rest, second⟩ := pollLoop_cons clock (remaining clock timeout poll) next later
  rw [second, withinBudget_cons] at within
  have fits : clock.ticks (remaining clock timeout poll) ≤
      clock.ticks timeout - poll.elapsed := within.2.1.2
  have grown : clock.ticks timeout ≤ clock.ticks (remaining clock timeout poll) :=
    Int.mul_le_mul_of_nonneg_right (remaining_ge positive) (Int.natCast_nonneg _)
  have nonneg := poll.elapsed_nonneg
  omega

theorem pollLoop_withinBudget (positive : 0 < timeout) (attempts : List Poll) :
    WithinBudget clock (clock.ticks timeout) (pollLoop clock timeout attempts).polls ↔
      PromptRetries attempts := by
  induction attempts with
  | nil =>
      apply iff_of_true withinBudget_nil
      intro earlier interrupted next rest split
      simp at split
  | cons poll later induction =>
      by_cases retried : poll.Interrupted
      · cases later with
        | nil =>
            refine iff_of_true ?_ promptRetries_single
            rw [pollLoop_interrupted retried]
            exact withinBudget_single positive
        | cons next later =>
            rw [promptRetries_cons retried]
            constructor
            · intro within
              have prompt := prompt_of_withinBudget positive retried within
              rw [pollLoop_interrupted retried, withinBudget_cons,
                remaining_of_prompt positive prompt, prompt, sub_zero] at within
              exact ⟨prompt, induction.mp within.2⟩
            · rintro ⟨prompt, rest⟩
              rw [pollLoop_interrupted retried, withinBudget_cons,
                remaining_of_prompt positive prompt, prompt, sub_zero]
              exact ⟨⟨positive.le, le_rfl⟩, induction.mpr rest⟩
      · refine iff_of_true ?_ (promptRetries_of_finished retried)
        cases finished : poll.ready.result with
        | none => exact absurd (poll.ready.result_eq_none.mp finished) retried
        | some result =>
            rw [pollLoop_finished finished]
            exact withinBudget_single positive

theorem doWait_keeps_iff (positive : 0 < timeout) (attempts : List Poll) :
    KeepsTimeout clock timeout (doWait clock timeout attempts).polls ↔
      PromptRetries attempts := by
  rw [keepsTimeout_iff positive.le, doWait, if_neg (not_le.mpr positive)]
  exact pollLoop_withinBudget positive attempts

/-! ### The callers -/

/-- Once the timeout is used up, a call polls no more. -/
theorem retry_zero {α : Type} (rounds : List (Round α)) :
    (retry clock 0 rounds).polls = [] := by
  cases rounds with
  | nil => rfl
  | cons round later =>
      unfold retry
      cases round.attempt with
      | done value => rfl
      | failed errno => rfl
      | again => simp [doWait]

/-- Whatever the call does, its polls are those of its first wait. -/
theorem retry_again {α : Type} (attempts : List Poll) (rest : List (Round α)) :
    (retry clock timeout (⟨.again, attempts⟩ :: rest)).polls =
      (doWait clock timeout attempts).polls := by
  unfold retry
  simp only
  split
  · rfl
  · rfl
  · simp [retry_zero]

/-- The first wait of a call, when its first attempt would block, retries
promptly. -/
def PromptWait {α : Type} (rounds : List (Round α)) : Prop :=
  ∀ attempts rest, rounds = ⟨.again, attempts⟩ :: rest → PromptRetries attempts

theorem retry_keeps_iff {α : Type} (positive : 0 < timeout) (rounds : List (Round α)) :
    KeepsTimeout clock timeout (retry clock timeout rounds).polls ↔ PromptWait rounds := by
  have idle : (∀ attempts rest, rounds ≠ ⟨.again, attempts⟩ :: rest) →
      (retry clock timeout rounds).polls = [] →
        (KeepsTimeout clock timeout (retry clock timeout rounds).polls ↔
          PromptWait rounds) := by
    intro other none
    rw [keepsTimeout_iff positive.le, none]
    exact iff_of_true withinBudget_nil fun attempts rest same =>
      absurd same (other attempts rest)
  rcases rounds with - | ⟨⟨attempt, attempts⟩, rest⟩
  · exact idle (by simp) rfl
  · cases attempt with
    | done value => exact idle (by simp) rfl
    | failed errno => exact idle (by simp) rfl
    | again =>
        rw [retry_again, doWait_keeps_iff positive]
        constructor
        · intro prompt others more same
          cases same
          exact prompt
        · intro prompt
          exact prompt attempts rest rfl

end Budget

theorem waits_keep_timeout_iff (clock : SteadyClock) (timeout : ℤ)
    (positive : 0 < timeout) :
    (∀ attempts,
      KeepsTimeout clock timeout (doWait clock timeout attempts).polls ↔
        PromptRetries attempts) ∧
    (∀ (client : Client) rounds,
      KeepsTimeout clock (ofSeconds timeout)
          (client.getMessage clock timeout rounds).polls ↔
        (client.ctx → PromptWait rounds)) ∧
    (∀ (client : Client) rounds,
      KeepsTimeout clock (ofSeconds timeout)
          (client.send clock timeout rounds).polls ↔
        (client.ctx → PromptWait rounds)) := by
  have seconds : 0 < ofSeconds timeout := by
    unfold ofSeconds
    omega
  have noPolls : KeepsTimeout clock (ofSeconds timeout) [] :=
    (keepsTimeout_iff seconds.le).mpr withinBudget_nil
  refine ⟨doWait_keeps_iff positive, ?_, ?_⟩
  · rintro ⟨ctx⟩ rounds
    cases ctx with
    | false => exact iff_of_true noPolls (by simp)
    | true => simpa [Client.getMessage] using retry_keeps_iff seconds rounds
  · rintro ⟨ctx⟩ rounds
    cases ctx with
    | false => exact iff_of_true noPolls (by simp)
    | true => simpa [Client.send] using retry_keeps_iff seconds rounds

def nanoseconds : SteadyClock := ⟨1000000, by decide⟩

/-- A signal after one second, then no answer for the timeout that is left. -/
def interruptedPolls : List Poll :=
  [⟨0, 1000000000, by decide, .failed eintr⟩,
    ⟨1000000000, 4000000000, by decide, .idle⟩]

theorem waits_keep_timeout_of_prompt :
    KeepsTimeout nanoseconds 2000
      (doWait nanoseconds 2000 [⟨0, 0, by decide, .failed eintr⟩,
        ⟨0, 2000000000, by decide, .idle⟩]).polls := by
  apply ((waits_keep_timeout_iff nanoseconds 2000 (by decide)).1 _).mpr
  refine (promptRetries_cons ?_).mpr ⟨?_, promptRetries_single⟩
  · rfl
  · rfl

/-- Two seconds of timeout become three, and the call waits for four. -/
theorem interrupted_wait_grows :
    (doWait nanoseconds 2000 interruptedPolls).polls.map (·.timeout) = [2000, 3000] ∧
      Punctual nanoseconds (doWait nanoseconds 2000 interruptedPolls).polls ∧
      spentIn (doWait nanoseconds 2000 interruptedPolls).polls = 4000000000 ∧
      ¬ KeepsTimeout nanoseconds 2000
        (doWait nanoseconds 2000 interruptedPolls).polls := by
  have punctual : Punctual nanoseconds
      (doWait nanoseconds 2000 interruptedPolls).polls := by
    unfold Punctual
    decide
  have total : spentIn (doWait nanoseconds 2000 interruptedPolls).polls = 4000000000 := by
    decide
  refine ⟨by decide, punctual, total, ?_⟩
  intro keeps
  have within := keeps.2 punctual
  rw [total] at within
  exact absurd within (by decide)

end XfoLws.Rpc
