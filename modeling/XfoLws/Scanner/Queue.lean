import XfoLws.Db.ScanAccount
import XfoLws.Lib.Outcome
import XfoLws.Scanner.CheckLoop

/-!
# Queues of the scanner threads

The server hands accounts to a thread through a `queue`: a pending
replacement, accounts pushed after it, the number of accounts and the minimum
height it publishes.  Every call holds the lock of the queue, so a run is any
sequence of calls.
-/

namespace XfoLws.Scanner

open Db (BlockId)

/-! ## Calls -/

/-- `queue::status`: the accounts a thread is given; `none` is no
replacement. -/
structure QueueStatus where
  replace : Option (List LwsAccount)
  push : List LwsAccount
  userCount : ℕ

/-- What a thread holds after a status: pushed accounts come behind those that
replace, or behind those it held. -/
def QueueStatus.deliver (status : QueueStatus) (users : List LwsAccount) :
    List LwsAccount :=
  status.replace.getD users ++ status.push

structure Queue where
  replace : Option (List LwsAccount)
  push : List LwsAccount
  userCount : ℕ
  currentMinHeight : BlockId
  stop : Bool

namespace Queue

def new : Queue := ⟨none, [], 0, 0, false⟩

/-- What `do_get_accounts` would return. -/
def status (queue : Queue) : QueueStatus :=
  ⟨queue.replace, queue.push, queue.userCount⟩

/-- The queue after `do_get_accounts`. -/
def doGetAccounts (queue : Queue) : Queue :=
  { queue with
    replace := none
    push := [] }

/-- `wait_for_accounts` goes on. -/
def ready (queue : Queue) : Prop :=
  queue.replace.isSome ∨ queue.push ≠ [] ∨ queue.stop = true

def updateMinHeight (queue : Queue) (height : BlockId) : Queue :=
  { queue with currentMinHeight := max height queue.currentMinHeight }

/-- The least scan height, by `std::min_element`. -/
def minScanHeight : List LwsAccount → Option BlockId
  | [] => none
  | user :: users => some (users.foldl (fun height other =>
      if other.height < height then other.height else height) user.height)

def replaceAccounts (queue : Queue) (users : List LwsAccount) : Queue :=
  { queue with
    replace := some users
    userCount := users.length
    push := []
    currentMinHeight := (minScanHeight users).getD 0 }

/-- The loop of `push_accounts`; a zero height counts as unset. -/
def lowerHeight (height : BlockId) (user : LwsAccount) : BlockId :=
  if height = 0 ∨ user.height < height then user.height else height

def pushAccounts (queue : Queue) (users : List LwsAccount) : Queue :=
  { queue with
    userCount := queue.userCount + users.length
    currentMinHeight := users.foldl lowerHeight queue.currentMinHeight
    push := queue.push ++ users }

end Queue

/-- A call with its arguments and what it returned. -/
inductive QueueCall where
  | replaceAccounts (users : List LwsAccount)
  | pushAccounts (users : List LwsAccount)
  | getAccounts (status : QueueStatus)
  | waitForAccounts (status : QueueStatus)
  | updateMinHeight (height : BlockId)
  | stop

inductive Queue.Step : Queue → QueueCall → Queue → Prop where
  | replaceAccounts {queue : Queue} (users : List LwsAccount) :
      Step queue (.replaceAccounts users) (queue.replaceAccounts users)
  | pushAccounts {queue : Queue} (users : List LwsAccount) :
      Step queue (.pushAccounts users) (queue.pushAccounts users)
  | getAccounts {queue : Queue} :
      Step queue (.getAccounts queue.status) queue.doGetAccounts
  | waitForAccounts {queue : Queue} (ready : queue.ready) :
      Step queue (.waitForAccounts queue.status) queue.doGetAccounts
  | updateMinHeight {queue : Queue} (height : BlockId) :
      Step queue (.updateMinHeight height) (queue.updateMinHeight height)
  | stop {queue : Queue} : Step queue .stop { queue with stop := true }

/-! ## Delivery -/

/-- The accounts a queue is given: a replacement discards the others. -/
def assign (users : List LwsAccount) : QueueCall → List LwsAccount
  | .replaceAccounts others => others
  | .pushAccounts others => users ++ others
  | _ => users

/-- The accounts a thread took. -/
def receive (users : List LwsAccount) : QueueCall → List LwsAccount
  | .getAccounts status | .waitForAccounts status => status.deliver users
  | _ => users

@[simp] theorem Queue.deliver_doGetAccounts (queue : Queue)
    (users : List LwsAccount) :
    queue.doGetAccounts.status.deliver users = users :=
  List.append_nil users

theorem Queue.Step.delivers {queue next : Queue} {call : QueueCall}
    (step : Queue.Step queue call next) {given taken : List LwsAccount}
    (complete : queue.status.deliver taken = given) :
    next.status.deliver (receive taken call) = assign given call := by
  cases step with
  | replaceAccounts users => exact List.append_nil users
  | pushAccounts users =>
      rw [← complete]
      exact (List.append_assoc _ _ _).symm
  | getAccounts => exact (queue.deliver_doGetAccounts _).trans complete
  | waitForAccounts ready =>
      exact (queue.deliver_doGetAccounts _).trans complete
  | updateMinHeight height => exact complete
  | stop => exact complete

theorem Queue.Step.counts {queue next : Queue} {call : QueueCall}
    (step : Queue.Step queue call next) {given : List LwsAccount}
    (counted : queue.userCount = given.length) :
    next.userCount = (assign given call).length := by
  cases step with
  | replaceAccounts users => rfl
  | pushAccounts users =>
      show queue.userCount + users.length = _
      rw [counted, assign, List.length_append]
  | getAccounts => exact counted
  | waitForAccounts ready => exact counted
  | updateMinHeight height => exact counted
  | stop => exact counted

theorem Queue.run_delivers {start final : Queue} {calls : List QueueCall}
    (run : Run Queue.Step start calls final) {given taken : List LwsAccount}
    (complete : start.status.deliver taken = given)
    (counted : start.userCount = given.length) :
    final.status.deliver (calls.foldl receive taken) =
        calls.foldl assign given ∧
      final.userCount = (calls.foldl assign given).length := by
  induction run generalizing given taken with
  | nil => exact ⟨complete, counted⟩
  | cons step _ induction =>
      exact induction (step.delivers complete) (step.counts counted)

/-- A drained queue has delivered the last replacement and all later pushes,
in order, and the count is right at every point. -/
theorem queue_delivers {final : Queue} {calls : List QueueCall}
    (run : Run Queue.Step .new calls final) :
    final.userCount = (calls.foldl assign []).length ∧
      final.status.deliver (calls.foldl receive []) = calls.foldl assign [] ∧
      (final.replace = none → final.push = [] →
        calls.foldl receive [] = calls.foldl assign []) := by
  have start : Queue.new.status.deliver [] = [] := rfl
  obtain ⟨complete, counted⟩ := Queue.run_delivers run start rfl
  refine ⟨counted, complete, fun noReplace noPush => ?_⟩
  rw [← complete, QueueStatus.deliver, Queue.status, noReplace, noPush,
    Option.getD_none, List.append_nil]

/-- An account without rows. -/
def bareAccount (id : ℕ) (height : BlockId) : LwsAccount :=
  .ofParts ⟨[97], id, ⟨3, 100⟩, 3⟩ [] [] [] [] height

/-- A replacement overtakes a push, and a push follows it. -/
theorem replacement_overtakes_push :
    let calls : List QueueCall := [.pushAccounts [bareAccount 1 5],
      .replaceAccounts [bareAccount 2 7], .pushAccounts [bareAccount 3 6],
      .getAccounts ⟨some [bareAccount 2 7], [bareAccount 3 6], 2⟩]
    calls.foldl receive [] = [bareAccount 2 7, bareAccount 3 6] ∧
      calls.foldl receive [] = calls.foldl assign [] := by
  refine ⟨rfl, (queue_delivers (.cons (.pushAccounts _) (.cons
    (.replaceAccounts _) (.cons (.pushAccounts _) (.cons .getAccounts
      (.nil _)))))).2.2 rfl rfl⟩

/-! ## The count of a thread -/

/-- A thread that `check_loop` starts: a new queue, and its accounts. -/
structure ScanThread where
  queue : Queue
  users : List LwsAccount

def ScanThread.start (users : List LwsAccount) : ScanThread := ⟨.new, users⟩

/-- The threads of `check_loop`, from the positions it dealt. -/
def startThreads (users : List LwsAccount) (threads : List (List ℕ)) :
    List ScanThread :=
  threads.map fun indexes =>
    .start (indexes.filterMap fun index => users[index]?)

/-- A call to the queue of one thread. -/
inductive ThreadsStep : List ScanThread → ℕ × QueueCall → List ScanThread →
    Prop where
  | call {threads : List ScanThread} {index : ℕ} {thread : ScanThread}
      {call : QueueCall} {queue : Queue}
      (running : threads[index]? = some thread)
      (step : Queue.Step thread.queue call queue) :
      ThreadsStep threads (index, call) (threads.set index
        ⟨queue, receive thread.users call⟩)

/-- The calls to one queue. -/
def callsTo (index : ℕ) (calls : List (ℕ × QueueCall)) : List QueueCall :=
  (calls.filter fun call => call.1 = index).map Prod.snd

theorem callsTo_cons (index : ℕ) (call : ℕ × QueueCall)
    (calls : List (ℕ × QueueCall)) :
    callsTo index (call :: calls) =
      (if call.1 = index then [call.2] else []) ++ callsTo index calls := by
  unfold callsTo
  rw [List.filter_cons]
  by_cases same : call.1 = index <;> simp [same]

theorem run_thread {start final : List ScanThread}
    {calls : List (ℕ × QueueCall)} (run : Run ThreadsStep start calls final)
    {index : ℕ} {first : ScanThread} (started : start[index]? = some first) :
    ∃ last, final[index]? = some last ∧
      Run Queue.Step first.queue (callsTo index calls) last.queue := by
  induction run generalizing first with
  | nil => exact ⟨first, started, .nil _⟩
  | cons step _ induction =>
      obtain ⟨running, step⟩ := step
      rename_i threads _ rest changed thread call queue _
      by_cases same : changed = index
      · subst changed
        obtain rfl := Option.some.inj (started.symm.trans running)
        have continued : (threads.set index
            ⟨queue, receive first.users call⟩)[index]? =
              some ⟨queue, receive first.users call⟩ := by
          rw [List.getElem?_set_self']
          simp [started]
        obtain ⟨last, ended, later⟩ := induction continued
        refine ⟨last, ended, ?_⟩
        rw [callsTo_cons, if_pos rfl]
        exact .cons step later
      · obtain ⟨last, ended, later⟩ := induction (by
          rw [List.getElem?_set_ne same]
          exact started)
        refine ⟨last, ended, ?_⟩
        rw [callsTo_cons, if_neg same]
        exact later

theorem assign_replaced {calls : List QueueCall} {others : List LwsAccount}
    (replaced : .replaceAccounts others ∈ calls)
    (first second : List LwsAccount) :
    calls.foldl assign first = calls.foldl assign second := by
  induction calls generalizing first second with
  | nil => cases replaced
  | cons call calls induction =>
      rcases List.mem_cons.mp replaced with rfl | later
      · rfl
      · exact induction later _ _

theorem assign_kept {calls : List QueueCall}
    (kept : ∀ others, .replaceAccounts others ∉ calls)
    (users : List LwsAccount) :
    calls.foldl assign users = users ++ calls.foldl assign [] := by
  induction calls generalizing users with
  | nil => simp
  | cons call calls induction =>
      have later := induction fun others member =>
        kept others (.tail _ member)
      rw [List.foldl_cons, List.foldl_cons, later, later (assign [] call)]
      cases call with
      | replaceAccounts others => exact absurd (.head _) (kept others)
      | pushAccounts others => simp [assign]
      | getAccounts status => simp [assign]
      | waitForAccounts status => simp [assign]
      | updateMinHeight height => simp [assign]
      | stop => simp [assign]

/-- The count of a thread is the number of its accounts exactly when it was
started without accounts, or when they were replaced since. -/
theorem userCount_real_iff {users : List LwsAccount} {threads : List (List ℕ)}
    {final : List ScanThread} {calls : List (ℕ × QueueCall)}
    (run : Run ThreadsStep (startThreads users threads) calls final)
    {index : ℕ} {first last : ScanThread}
    (started : (startThreads users threads)[index]? = some first)
    (running : final[index]? = some last) :
    last.queue.userCount =
        ((callsTo index calls).foldl assign first.users).length ↔
      first.users = [] ∨
        ∃ others, .replaceAccounts others ∈ callsTo index calls := by
  obtain ⟨ended, found, queueRun⟩ := run_thread run started
  obtain rfl := Option.some.inj (running.symm.trans found)
  have new : first.queue = .new := by
    unfold startThreads at started
    rw [List.getElem?_map] at started
    obtain ⟨indexes, -, rfl⟩ := Option.map_eq_some_iff.mp started
    rfl
  rw [new] at queueRun
  rw [(queue_delivers queueRun).1]
  by_cases replaced : ∃ others, .replaceAccounts others ∈ callsTo index calls
  · obtain ⟨others, member⟩ := replaced
    rw [assign_replaced member [] first.users]
    exact iff_of_true rfl (.inr ⟨others, member⟩)
  · rw [assign_kept (not_exists.mp replaced) first.users, List.length_append,
      or_iff_left replaced, ← List.length_eq_zero_iff]
    omega

/-- Two threads with one account each, of which the first was replaced. -/
theorem replaced_thread_counts :
    ∃ final, Run ThreadsStep (startThreads [bareAccount 1 5, bareAccount 2 6]
        [[0], [1]]) [(0, .replaceAccounts [bareAccount 1 5])] final ∧
      ∃ last, final[0]? = some last ∧ last.queue.userCount = 1 := by
  have run : Run ThreadsStep
      (startThreads [bareAccount 1 5, bareAccount 2 6] [[0], [1]])
      [(0, .replaceAccounts [bareAccount 1 5])] _ :=
    .cons (.call rfl (.replaceAccounts _)) (.nil _)
  refine ⟨_, run, _, rfl, ?_⟩
  show _ = ((callsTo 0 [(0, .replaceAccounts [bareAccount 1 5])]).foldl assign
    (ScanThread.start [bareAccount 1 5]).users).length
  exact (userCount_real_iff run rfl rfl).mpr (.inr ⟨_, .head _⟩)

/-- The accounts that `check_loop` hands to a thread are not counted. -/
theorem initial_accounts_uncounted :
    ¬ ∀ (users : List LwsAccount) (threads : List (List ℕ))
      (final : List ScanThread) (calls : List (ℕ × QueueCall)) (index : ℕ)
      (first last : ScanThread),
      Run ThreadsStep (startThreads users threads) calls final →
      (startThreads users threads)[index]? = some first →
      final[index]? = some last →
      last.queue.userCount =
        ((callsTo index calls).foldl assign first.users).length := by
  intro always
  have counted := always [bareAccount 1 5] (Dealing.divideEvenly 1 [0]) _ []
    0 _ _ (.nil _) rfl rfl
  exact absurd counted (by decide)

/-! ## The published height -/

/-- What a thread and the server do to the queue; the height of an update is
the least one of the accounts that the thread holds. -/
inductive ThreadAction where
  | replaceAccounts (users : List LwsAccount)
  | pushAccounts (users : List LwsAccount)
  | getAccounts
  | waitForAccounts
  | scanned (height : BlockId)
  | updateMinHeight
  | stop

inductive ScanThread.Step : ScanThread → ThreadAction → ScanThread → Prop where
  | replaceAccounts {thread : ScanThread} (users : List LwsAccount) :
      Step thread (.replaceAccounts users)
        { thread with queue := thread.queue.replaceAccounts users }
  | pushAccounts {thread : ScanThread} (users : List LwsAccount) :
      Step thread (.pushAccounts users)
        { thread with queue := thread.queue.pushAccounts users }
  | getAccounts {thread : ScanThread} :
      Step thread .getAccounts ⟨thread.queue.doGetAccounts,
        thread.queue.status.deliver thread.users⟩
  | waitForAccounts {thread : ScanThread} (ready : thread.queue.ready) :
      Step thread .waitForAccounts ⟨thread.queue.doGetAccounts,
        thread.queue.status.deliver thread.users⟩
  | scanned {thread : ScanThread} (height : BlockId) :
      Step thread (.scanned height)
        { thread with users := thread.users.map (·.updated height) }
  | updateMinHeight {thread : ScanThread} {height : BlockId}
      (front : Queue.minScanHeight thread.users = some height) :
      Step thread .updateMinHeight
        { thread with queue := thread.queue.updateMinHeight height }
  | stop {thread : ScanThread} :
      Step thread .stop { thread with queue := { thread.queue with stop := true } }

namespace ScanThread

/-- The accounts of a thread, taken or pending. -/
def assigned (thread : ScanThread) : List LwsAccount :=
  thread.queue.status.deliver thread.users

/-- The published height is not above any account of the thread. -/
def Sound (thread : ScanThread) : Prop :=
  ∀ user ∈ thread.assigned, thread.queue.currentMinHeight ≤ user.height

/-- When a push leaves the height sound: it ends with an account at zero, or
it has none there and the height was set, or an account of the push is below
all others. -/
def PushSound (thread : ScanThread) (users : List LwsAccount) : Prop :=
  (∀ last ∈ users.getLast?, last.height = 0) ∨
    (∀ user ∈ users, user.height ≠ 0) ∧
      (thread.queue.currentMinHeight ≠ 0 ∨
        ∀ other ∈ thread.assigned, ∃ user ∈ users, user.height ≤ other.height)

/-- No pending account is below those that the thread took. -/
def UpdateSound (thread : ScanThread) : Prop :=
  ∀ height ∈ Queue.minScanHeight thread.users,
    ∀ user ∈ thread.queue.replace.getD [] ++ thread.queue.push,
      height ≤ user.height

def KeepsSound (thread : ScanThread) : ThreadAction → Prop
  | .pushAccounts users => thread.PushSound users
  | .updateMinHeight => thread.UpdateSound
  | _ => True

end ScanThread

namespace Queue

theorem minScanHeight_spec {users : List LwsAccount} {height : BlockId}
    (least : minScanHeight users = some height) :
    ∀ user ∈ users, height ≤ user.height := by
  have below : ∀ (start : BlockId) (rest : List LwsAccount),
      rest.foldl (fun height other =>
          if other.height < height then other.height else height) start ≤
          start ∧
        ∀ user ∈ rest, rest.foldl (fun height other =>
          if other.height < height then other.height else height) start ≤
            user.height := by
    intro start rest
    induction rest generalizing start with
    | nil => exact ⟨le_rfl, nofun⟩
    | cons first rest induction =>
        obtain ⟨least, others⟩ :=
          induction (if first.height < start then first.height else start)
        rw [List.foldl_cons]
        refine ⟨least.trans ?_, List.forall_mem_cons.mpr
          ⟨least.trans ?_, others⟩⟩
        · split
          · rename_i lower
            exact lower.le
          · exact le_rfl
        · split
          · exact le_rfl
          · rename_i notLower
            exact not_lt.mp notLower
  cases users with
  | nil => cases least
  | cons first users =>
      cases least
      obtain ⟨firstBelow, others⟩ := below first.height users
      exact List.forall_mem_cons.mpr ⟨firstBelow, others⟩

/-- Once set, the height of a push is the least of all, as long as no account
is at zero. -/
theorem pushed_least {users : List LwsAccount}
    (nonzero : ∀ user ∈ users, user.height ≠ 0) {start : BlockId}
    (isSet : start ≠ 0) :
    users.foldl lowerHeight start ≤ start ∧
      ∀ user ∈ users, users.foldl lowerHeight start ≤ user.height := by
  induction users generalizing start with
  | nil => exact ⟨le_rfl, nofun⟩
  | cons first users induction =>
      obtain ⟨firstSet, othersSet⟩ := List.forall_mem_cons.mp nonzero
      have next : lowerHeight start first = min first.height start := by
        unfold lowerHeight
        simp only [isSet, false_or]
        split
        · rename_i lower
          exact (min_eq_left lower.le).symm
        · rename_i notLower
          exact (min_eq_right (not_lt.mp notLower)).symm
      have nextSet : lowerHeight start first ≠ 0 := by
        rw [next]
        rcases min_choice first.height start with same | same <;> rw [same]
        · exact firstSet
        · exact isSet
      obtain ⟨least, others⟩ := induction othersSet nextSet
      rw [List.foldl_cons]
      rw [next] at least others ⊢
      exact ⟨least.trans (min_le_right _ _), List.forall_mem_cons.mpr
        ⟨least.trans (min_le_left _ _), others⟩⟩

end Queue

namespace ScanThread

theorem assigned_push (thread : ScanThread) (users : List LwsAccount) :
    assigned { thread with queue := thread.queue.pushAccounts users } =
      thread.assigned ++ users :=
  (List.append_assoc _ _ _).symm

theorem push_sound {thread : ScanThread} {users : List LwsAccount}
    (sound : thread.Sound) (guard : thread.PushSound users) :
    Sound { thread with queue := thread.queue.pushAccounts users } := by
  unfold Sound
  rw [assigned_push]
  show ∀ user ∈ _, users.foldl Queue.lowerHeight _ ≤ _
  rcases guard with atZero | ⟨nonzero, isSet | below⟩
  · cases found : users.getLast? with
    | none =>
        obtain rfl := List.getLast?_eq_none_iff.mp found
        rw [List.append_nil]
        exact sound
    | some last =>
        obtain ⟨front, rfl⟩ := List.getLast?_eq_some_iff.mp found
        have zero : last.height = 0 := atZero last found
        intro user _
        rw [List.foldl_append]
        have final : Queue.lowerHeight (front.foldl Queue.lowerHeight
            thread.queue.currentMinHeight) last = 0 := by
          unfold Queue.lowerHeight
          rw [zero]
          split <;> lia
        show Queue.lowerHeight _ last ≤ _
        rw [final]
        exact Nat.zero_le _
  · obtain ⟨least, others⟩ := Queue.pushed_least nonzero isSet
    intro user member
    rcases List.mem_append.mp member with old | new
    · exact least.trans (sound user old)
    · exact others user new
  · cases users with
    | nil =>
        rw [List.append_nil]
        exact sound
    | cons first rest =>
        by_cases isSet : thread.queue.currentMinHeight = 0
        · obtain ⟨firstSet, restSet⟩ := List.forall_mem_cons.mp nonzero
          have start : Queue.lowerHeight thread.queue.currentMinHeight first =
              first.height := if_pos (.inl isSet)
          obtain ⟨least, others⟩ := Queue.pushed_least restSet firstSet
          have new : ∀ user ∈ first :: rest, (first :: rest).foldl
              Queue.lowerHeight thread.queue.currentMinHeight ≤
                user.height := by
            rw [List.foldl_cons, start]
            exact List.forall_mem_cons.mpr ⟨least, others⟩
          intro user member
          rcases List.mem_append.mp member with old | pushed
          · obtain ⟨lower, listed, order⟩ := below user old
            exact (new lower listed).trans order
          · exact new user pushed
        · obtain ⟨least, others⟩ := Queue.pushed_least nonzero isSet
          intro user member
          rcases List.mem_append.mp member with old | pushed
          · exact least.trans (sound user old)
          · exact others user pushed

theorem update_sound {thread : ScanThread} {height : BlockId}
    (front : Queue.minScanHeight thread.users = some height)
    (sound : thread.Sound) (guard : thread.UpdateSound) :
    Sound { thread with queue := thread.queue.updateMinHeight height } := by
  intro user member
  refine max_le ?_ (sound user member)
  rcases List.mem_append.mp member with held | pushed
  · cases replaced : thread.queue.replace with
    | none =>
        have taken : user ∈ thread.users := by
          simpa [Queue.status, Queue.updateMinHeight, replaced] using held
        exact Queue.minScanHeight_spec front user taken
    | some others =>
        refine guard height front user (List.mem_append_left _ ?_)
        simpa [Queue.status, Queue.updateMinHeight, replaced] using held
  · exact guard height front user (List.mem_append_right _ pushed)

theorem replace_sound (thread : ScanThread) (users : List LwsAccount) :
    Sound { thread with queue := thread.queue.replaceAccounts users } := by
  intro user member
  have listed : user ∈ users := by
    simpa [assigned, QueueStatus.deliver, Queue.status,
      Queue.replaceAccounts] using member
  show (Queue.minScanHeight users).getD 0 ≤ _
  cases least : Queue.minScanHeight users with
  | none => exact Nat.zero_le _
  | some height => exact Queue.minScanHeight_spec least user listed

theorem scanned_sound {thread : ScanThread} (height : BlockId)
    (sound : thread.Sound) :
    Sound { thread with users := thread.users.map (·.updated height) } := by
  intro user member
  rcases List.mem_append.mp member with held | pushed
  · cases replaced : thread.queue.replace with
    | none =>
        have raised : user ∈ thread.users.map (·.updated height) := by
          simpa [Queue.status, replaced] using held
        obtain ⟨before, taken, rfl⟩ := List.mem_map.mp raised
        refine (sound before (List.mem_append_left _ ?_)).trans
          (le_max_left _ _)
        simpa [Queue.status, replaced] using taken
    | some others =>
        refine sound user (List.mem_append_left _ ?_)
        simpa [Queue.status, replaced] using held
  · exact sound user (List.mem_append_right _ pushed)

theorem Step.sound {thread next : ScanThread} {action : ThreadAction}
    (step : Step thread action next) (guard : thread.KeepsSound action)
    (sound : thread.Sound) : next.Sound := by
  cases step with
  | replaceAccounts users => exact thread.replace_sound users
  | pushAccounts users => exact push_sound sound guard
  | getAccounts =>
      intro user member
      rw [assigned, Queue.deliver_doGetAccounts] at member
      exact sound user member
  | waitForAccounts ready =>
      intro user member
      rw [assigned, Queue.deliver_doGetAccounts] at member
      exact sound user member
  | scanned height => exact scanned_sound height sound
  | updateMinHeight front => exact update_sound front sound guard
  | stop => exact sound

/-- From the start of a thread, whatever it holds, the published height stays
sound when every push and every update meets its condition. -/
theorem minHeight_sound {users : List LwsAccount} {final : ScanThread}
    {actions : List ThreadAction}
    (run : Run (fun thread action next => thread.KeepsSound action ∧
      Step thread action next) (start users) actions final) : final.Sound :=
  run.preserves Sound (fun _ _ _ sound step => step.2.sound step.1 sound)
    fun _ _ => Nat.zero_le _

/-- An update that follows the accounts it is about. -/
theorem minHeight_sound_after_update :
    ∃ final, Run Step (start []) [.pushAccounts [bareAccount 1 5],
        .waitForAccounts, .scanned 9, .updateMinHeight] final ∧
      final.queue.currentMinHeight = 9 ∧ final.Sound := by
  have run : Run (fun thread action next => thread.KeepsSound action ∧
      Step thread action next) (start []) [.pushAccounts [bareAccount 1 5],
        .waitForAccounts, .scanned 9, .updateMinHeight] _ :=
    .cons ⟨.inr ⟨by decide, .inr nofun⟩, .pushAccounts _⟩
      (.cons ⟨trivial, .waitForAccounts (.inr (.inl nofun))⟩
        (.cons ⟨trivial, .scanned 9⟩
          (.cons ⟨fun _ _ => nofun, .updateMinHeight rfl⟩ (.nil _))))
  exact ⟨_, run.imp fun _ _ _ step => step.2, rfl, minHeight_sound run⟩

/-- After an account at zero, an account at 100 sets the height to 100. -/
theorem minHeight_passes_zero :
    ¬ ∀ (users : List LwsAccount) (final : ScanThread)
      (actions : List ThreadAction),
      Run Step (start users) actions final → final.Sound := by
  intro always
  have sound := always [] _ [.pushAccounts [bareAccount 1 0],
    .pushAccounts [bareAccount 2 100]]
    (.cons (.pushAccounts _) (.cons (.pushAccounts _) (.nil _)))
  exact absurd (sound (bareAccount 1 0) (.head _)) (by decide)

end ScanThread

end XfoLws.Scanner
