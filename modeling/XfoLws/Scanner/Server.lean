import XfoLws.Db.Data
import XfoLws.Lib.Dealing
import XfoLws.Lib.Outcome
import Mathlib.Data.List.Sort
import Mathlib.Tactic.Ring

/-!
# Accounts of remote scanners

`rpc::scanner::server` hands accounts to local queues and to connected
scanners: all of them in `do_replace_users`, new ones in `check_users`.  A
remote scanner is its number of threads, zero until it sends `initialize`.
-/

namespace XfoLws.Scanner

open Db (Account)
open Dealing

/-- Why the server stops. -/
inductive Fault where
  /-- `error::configuration`: the thread counts exceed `size_t`. -/
  | configuration
  /-- A read past the end of `remotes`. -/
  | outOfRange
  /-- `erase(end())`. -/
  | eraseEnd
  | diverges
deriving DecidableEq, Repr

/-- Threads over all systems. -/
def totalThreads (locals : ℕ) (remotes : List ℕ) : Except Fault ℕ :=
  if locals + remotes.sum < 2 ^ 64 then .ok (locals + remotes.sum)
  else .error .configuration

/-! ## Replacing all accounts -/

def remoteThreshold : ℕ := 100

/-- The loop over the local queues: their accounts, the accounts that are left
and the threads that remain. -/
def replaceLocals {α : Type} : ℕ → ℕ → List α → List (List α) × List α × ℕ
  | 0, remaining, users => ([], users, remaining)
  | locals + 1, remaining, users =>
      let count := users.length / remaining
      let (lists, left, threads) :=
        replaceLocals locals (remaining - 1) (users.rdrop count)
      ((users.rtake count).reverse :: lists, left, threads)

/-- The loop over the remote scanners, with the accounts nobody got. -/
def replaceRemotes {α : Type} : List ℕ → ℕ → List α → List (List α) × List α
  | [], _, users => ([], users)
  | threads :: remotes, remaining, users =>
      let perThread := users.length / max 1 remaining
      let count := max 1 perThread * threads
      let (lists, left) := replaceRemotes remotes
        (remaining - min remaining threads) (users.rdrop count)
      ((users.rtake count).reverse :: lists, left)

/-- The active accounts in the order of `by_height`. -/
def sortedUsers (active : List Account) : List Account :=
  active.foldl (fun users user =>
    users.orderedInsert (fun left right =>
      left.scanHeight ≤ right.scanHeight) user) []

/-- Under `remoteThreshold` accounts a local thread, only those are used. -/
def remainingThreads (locals total count : ℕ) : ℕ :=
  if locals ≠ 0 ∧ count / locals < remoteThreshold then locals else total

/-- `server::do_replace_users`: the lists for the local queues and for the
remote scanners, unless there is no thread at all. -/
def doReplaceUsers (locals : ℕ) (remotes : List ℕ) (active : List Account) :
    Except Fault (Option (List (List Account) × List (List Account))) := do
  let total ← totalThreads locals remotes
  if total = 0 then .ok none
  else
    let users := sortedUsers active
    let (queues, left, threads) := replaceLocals locals
      (remainingThreads locals total users.length) users
    let (lists, _) := replaceRemotes remotes threads left
    .ok (some (queues, lists))

/-! ## Distributing new accounts -/

/-- The remote scanner that `next_thread_` points to; the number of remotes
when the search runs off the end. -/
def findRemote (next : ℕ) : ℕ → List ℕ → ℕ
  | _, [] => 0
  | offset, threads :: remotes =>
      if next ≤ offset then 0
      else findRemote next (offset + threads) remotes + 1

inductive Receiver where
  | queue (index : ℕ)
  | remote (index : ℕ)
deriving DecidableEq, Repr

/-- The round-robin loop of `check_users`; `none` is an account that was moved
out of the vector but not erased.  It is listed as delivered here, where
`write_command` throws on its way to a remote, as the account fails its
`null_check`.  Every pass erases one account. -/
def distribute {α : Type} (locals : ℕ) (remotes : List ℕ) (total : ℕ) :
    ℕ → ℕ → List (Option α) →
      Except Fault (List (Receiver × List (Option α)))
  | _, _, [] => .ok []
  | 0, _, _ :: _ => .error .diverges
  | passes + 1, next, account :: others =>
      let accounts := account :: others
      if next < locals then do
        let rest ← distribute locals remotes total passes ((next + 1) % total)
          (accounts.rdrop 1)
        .ok ((.queue next, accounts.rtake 1) :: rest)
      else
        let index := findRemote next locals remotes
        match remotes[index]? with
        | none => .error .outOfRange
        | some threads =>
            let count := min accounts.length threads
            if count = 0 then .error .eraseEnd
            else do
              -- `erase(end() - count)` erases a single account
              let rest ← distribute locals remotes total passes
                (wrap64 (next + threads) % total)
                (accounts.rdrop count ++ List.replicate (count - 1) none)
              .ok ((.remote index, accounts.rtake count) :: rest)

/-- The distribution of `check_users`, from a value of `next_thread_`. -/
def pushNewAccounts {α : Type} (locals : ℕ) (remotes : List ℕ) (next : ℕ)
    (accounts : List α) :
    Except Fault (List (Receiver × List (Option α))) := do
  let total ← totalThreads locals remotes
  if total = 0 then .ok []
  else
    distribute locals remotes total accounts.length (next % total)
      (accounts.map some)

/-! ## What replacing leaves -/

section Replace

variable {α : Type}

private theorem reverse_take_perm (users : List α) (count : ℕ)
    {lists : List (List α)} {left : List α}
    (rest : (lists.flatten ++ left).Perm (users.rdrop count)) :
    (((users.rtake count).reverse :: lists).flatten ++ left).Perm users := by
  rw [List.flatten_cons, List.append_assoc]
  exact ((List.reverse_perm _).append rest).trans (rtake_rdrop_perm users count)

theorem replaceLocals_perm (locals remaining : ℕ) (users : List α) :
    ((replaceLocals locals remaining users).1.flatten ++
      (replaceLocals locals remaining users).2.1).Perm users := by
  induction locals generalizing remaining users with
  | zero => exact .refl _
  | succ locals induction => exact reverse_take_perm users _ (induction _ _)

theorem replaceRemotes_perm (remotes : List ℕ) (remaining : ℕ)
    (users : List α) :
    ((replaceRemotes remotes remaining users).1.flatten ++
      (replaceRemotes remotes remaining users).2).Perm users := by
  induction remotes generalizing remaining users with
  | nil => exact .refl _
  | cons threads remotes induction =>
      exact reverse_take_perm users _ (induction _ _)

theorem replaceLocals_remaining (locals remaining : ℕ) (users : List α) :
    (replaceLocals locals remaining users).2.2 = remaining - locals := by
  induction locals generalizing remaining users with
  | zero => rfl
  | succ locals induction =>
      rw [replaceLocals]
      dsimp only
      rw [induction]
      omega

private theorem length_rdrop (users : List α) (count : ℕ) :
    (users.rdrop count).length = users.length - count := by
  simp [List.rdrop]

/-- One share of `queues + 1` is taken: the others keep theirs. -/
private theorem share_left {count queues threads : ℕ} (some : 0 < queues)
    (within : threads ≤ queues) :
    (count - count / (queues + 1)) / queues * threads +
        min ((count - count / (queues + 1)) % queues) threads =
      count / (queues + 1) * threads +
        min (count % (queues + 1)) threads := by
  have split := Nat.div_add_mod count (queues + 1)
  have below := Nat.mod_lt count (Nat.succ_pos queues)
  generalize count / (queues + 1) = share at split ⊢
  generalize count % (queues + 1) = extra at split below ⊢
  have left : count - share = queues * share + extra := by
    rw [← split, Nat.add_mul, Nat.one_mul]
    omega
  rw [left]
  by_cases short : extra < queues
  · rw [Nat.mul_add_div some, Nat.mul_add_mod, Nat.div_eq_of_lt short,
      Nat.mod_eq_of_lt short, Nat.add_zero]
  · -- the extra accounts make up one more share for everyone
    obtain rfl : extra = queues := by omega
    have whole : extra * share + extra = extra * (share + 1) := by ring
    rw [whole, Nat.mul_div_cancel_left _ some, Nat.mul_mod_right,
      min_eq_right within, Nat.zero_min, Nat.add_zero, Nat.add_mul,
      Nat.one_mul]

theorem replaceLocals_left (locals threads : ℕ) (users : List α)
    (some : 0 < locals + threads) :
    (replaceLocals locals (locals + threads) users).2.1.length =
      users.length / (locals + threads) * threads +
        min (users.length % (locals + threads)) threads := by
  induction locals generalizing users with
  | zero =>
      have below := Nat.mod_lt users.length some
      have split := Nat.div_add_mod' users.length (0 + threads)
      rw [Nat.zero_add] at below split ⊢
      show users.length = _
      omega
  | succ locals induction =>
      have remaining : locals + 1 + threads = locals + threads + 1 := by omega
      rw [replaceLocals, remaining]
      dsimp only
      rw [Nat.add_sub_cancel]
      by_cases none : locals + threads = 0
      · obtain ⟨rfl, rfl⟩ : locals = 0 ∧ threads = 0 := by omega
        simp [replaceLocals, List.rdrop]
      · rw [induction _ (Nat.pos_of_ne_zero none), length_rdrop]
        exact share_left (Nat.pos_of_ne_zero none) (by omega)

/-- What is left of `count` accounts when each remote scanner takes a multiple
of its threads. -/
def remainders : List ℕ → ℕ → ℕ
  | [], count => count
  | threads :: remotes, count =>
      remainders remotes (count % (threads :: remotes).sum)

@[simp] theorem remainders_zero (remotes : List ℕ) :
    remainders remotes 0 = 0 := by
  induction remotes with
  | nil => rfl
  | cons threads remotes induction => simpa [remainders] using induction

private theorem remainders_mul_add (remotes : List ℕ) (share extra : ℕ) :
    remainders remotes (remotes.sum * share + extra) =
      remainders remotes extra := by
  cases remotes with
  | nil => simp [remainders]
  | cons threads remotes => rw [remainders, Nat.mul_add_mod, remainders]

private theorem remainders_sum (remotes : List ℕ) :
    remainders remotes remotes.sum = 0 := by
  have whole := remainders_mul_add remotes 1 0
  rwa [Nat.mul_one, Nat.add_zero, remainders_zero] at whole

private theorem multiple_left (count threads : ℕ) (remotes : List ℕ) :
    (if count - max 1 (count / max 1 (threads + remotes.sum)) * threads <
        remotes.sum then 0
      else remainders remotes
        (count - max 1 (count / max 1 (threads + remotes.sum)) * threads)) =
    if count < threads + remotes.sum then 0
      else remainders remotes (count % (threads + remotes.sum)) := by
  by_cases few : count < threads + remotes.sum
  · -- one account for each thread is enough for all of them
    have one : max 1 (count / max 1 (threads + remotes.sum)) = 1 := by
      rw [max_eq_right (by omega : 1 ≤ threads + remotes.sum),
        Nat.div_eq_of_lt few]
      rfl
    rw [one, if_pos few, Nat.one_mul]
    by_cases rest : count - threads < remotes.sum
    · rw [if_pos rest]
    · obtain none : count - threads = 0 := by omega
      rw [if_neg rest, none, remainders_zero]
  rw [if_neg few]
  by_cases idle : threads + remotes.sum = 0
  · obtain ⟨rfl, sum⟩ : threads = 0 ∧ remotes.sum = 0 := by omega
    rw [sum, Nat.mul_zero, Nat.sub_zero, if_neg (Nat.not_lt_zero count)]
    simp
  have some := Nat.pos_of_ne_zero idle
  have full : 1 ≤ count / (threads + remotes.sum) :=
    (Nat.one_le_div_iff some).mpr (by omega)
  rw [max_eq_right (by omega : 1 ≤ threads + remotes.sum),
    max_eq_right full]
  have split := Nat.div_add_mod count (threads + remotes.sum)
  generalize count / (threads + remotes.sum) = share at split full ⊢
  generalize count % (threads + remotes.sum) = extra at split ⊢
  have left : count - share * threads = remotes.sum * share + extra := by
    rw [← split]
    have expand : (threads + remotes.sum) * share =
        share * threads + remotes.sum * share := by ring
    omega
  rw [left, remainders_mul_add, if_neg]
  have grown := Nat.le_mul_of_pos_right remotes.sum full
  omega

theorem replaceRemotes_left (remotes : List ℕ) (users : List α) :
    (replaceRemotes remotes remotes.sum users).2.length =
      if users.length < remotes.sum then 0
      else remainders remotes users.length := by
  induction remotes generalizing users with
  | nil => rfl
  | cons threads remotes induction =>
      have remaining : (threads :: remotes).sum -
          min (threads :: remotes).sum threads = remotes.sum := by
        rw [List.sum_cons]
        omega
      rw [replaceRemotes]
      dsimp only
      rw [remaining, induction, length_rdrop, remainders]
      rw [List.sum_cons]
      exact multiple_left users.length threads remotes

theorem sortedUsers_perm (active : List Account) :
    (sortedUsers active).Perm active := by
  have all (users : List Account) : (active.foldl (fun users user =>
      users.orderedInsert (fun left right =>
        left.scanHeight ≤ right.scanHeight) user) users).Perm
          (active ++ users) := by
    induction active generalizing users with
    | nil => exact .refl _
    | cons user active induction =>
        refine (induction _).trans ?_
        exact ((List.perm_orderedInsert _ user users).append_left active).trans
          List.perm_middle
  simpa [sortedUsers] using all []

private theorem assigned_iff {lists : List (List α)} {left users : List α}
    (split : (lists.flatten ++ left).Perm users) :
    lists.flatten.Perm users ↔ left = [] := by
  constructor
  · intro assigned
    have same := (split.trans assigned.symm).length_eq
    rw [List.length_append] at same
    exact List.eq_nil_of_length_eq_zero (by omega)
  · rintro rfl
    rwa [List.append_nil] at split

end Replace

/-- Every account reaches a queue or a scanner: the local queues are
responsible for all of them, there are more threads than accounts, or the
scanners leave no remainder. -/
def NoRemainder (locals : ℕ) (remotes : List ℕ) (count : ℕ) : Prop :=
  (locals ≠ 0 ∧ count / locals < remoteThreshold) ∨
    count < locals + remotes.sum ∨
    remainders remotes
      (min (count % (locals + remotes.sum)) remotes.sum) = 0

instance (locals : ℕ) (remotes : List ℕ) (count : ℕ) :
    Decidable (NoRemainder locals remotes count) :=
  inferInstanceAs (Decidable (_ ∨ _))

section Assigned

variable {locals : ℕ} {remotes : List ℕ}

private theorem replaced_left {α : Type} (users : List α)
    (threads : 0 < locals + remotes.sum) :
    (replaceRemotes remotes (replaceLocals locals (remainingThreads locals
        (locals + remotes.sum) users.length) users).2.2
        (replaceLocals locals (remainingThreads locals
          (locals + remotes.sum) users.length) users).2.1).2 = [] ↔
      NoRemainder locals remotes users.length := by
  rw [replaceLocals_remaining, ← List.length_eq_zero_iff, remainingThreads]
  by_cases enough : locals ≠ 0 ∧ users.length / locals < remoteThreshold
  · rw [if_pos enough]
    have none := replaceLocals_left locals 0 users (by omega)
    rw [Nat.add_zero, Nat.mul_zero, Nat.min_zero] at none
    refine iff_of_true ?_ (.inl enough)
    have split := (replaceRemotes_perm remotes (locals - locals)
      (replaceLocals locals locals users).2.1).length_eq
    rw [List.length_append] at split
    omega
  · rw [if_neg enough, Nat.add_sub_cancel_left, replaceRemotes_left,
      replaceLocals_left locals remotes.sum users threads, NoRemainder,
      or_iff_right enough]
    have below := Nat.mod_lt users.length threads
    by_cases few : users.length < locals + remotes.sum
    · refine iff_of_true ?_ (.inl few)
      rw [Nat.div_eq_of_lt few, Nat.zero_mul, Nat.zero_add,
        Nat.mod_eq_of_lt few]
      split
      · rfl
      · -- each remote thread gets one of them
        have all : min users.length remotes.sum = remotes.sum := by omega
        rw [all]
        exact remainders_sum remotes
    · have full : 1 ≤ users.length / (locals + remotes.sum) :=
        (Nat.one_le_div_iff threads).mpr (by omega)
      have grown := Nat.le_mul_of_pos_left remotes.sum full
      rw [or_iff_right few, if_neg (by omega), Nat.mul_comm,
        remainders_mul_add]

/-- `do_replace_users` assigns every active account exactly once if and only
if the thread counts fit and nothing remains. -/
theorem do_replace_users_assigns_iff {active : List Account}
    (threads : 0 < locals + remotes.sum) :
    (∃ queues lists,
      doReplaceUsers locals remotes active = .ok (some (queues, lists)) ∧
      (queues ++ lists).flatten.Perm active) ↔
    locals + remotes.sum < 2 ^ 64 ∧
      NoRemainder locals remotes active.length := by
  have sorted := sortedUsers_perm active
  have left := replaced_left (sortedUsers active) threads
  unfold doReplaceUsers totalThreads
  by_cases fits : locals + remotes.sum < 2 ^ 64
  · simp only [if_pos fits, bind, Except.bind, if_neg (Nat.ne_of_gt threads)]
    rw [and_iff_right fits, ← sorted.length_eq, ← left]
    generalize remainingThreads locals (locals + remotes.sum)
      (sortedUsers active).length = remaining
    have queues := replaceLocals_perm locals remaining (sortedUsers active)
    have lists := replaceRemotes_perm remotes
      (replaceLocals locals remaining (sortedUsers active)).2.2
      (replaceLocals locals remaining (sortedUsers active)).2.1
    have split := (lists.append_left _).trans queues
    rw [← List.append_assoc, ← List.flatten_append] at split
    rw [← assigned_iff split]
    constructor
    · rintro ⟨_, _, stored, assigned⟩
      cases stored
      exact assigned.trans sorted.symm
    · intro assigned
      exact ⟨_, _, rfl, assigned.trans sorted⟩
  · rw [if_neg fits]
    constructor
    · rintro ⟨_, _, failed, -⟩
      cases failed
    · rintro ⟨within, -⟩
      exact absurd within fits

end Assigned

/-- A new account of the samples. -/
private def waiting (id : Db.AccountId) : Account :=
  ⟨id, 0, ⟨id, id⟩, id, 0, 0, 0, 0, .primary, 0⟩

/-- Two local queues take all of three accounts beside a scanner. -/
theorem do_replace_users_assigns_to_locals :
    ∃ queues lists,
      doReplaceUsers 2 [3] [waiting 1, waiting 2, waiting 3] =
        .ok (some (queues, lists)) ∧
      (queues ++ lists).flatten.Perm [waiting 1, waiting 2, waiting 3] :=
  (do_replace_users_assigns_iff (by decide)).mpr
    ⟨by decide, .inl (by decide)⟩

/-- A scanner with two threads gets two of three accounts. -/
theorem do_replace_users_drops_account :
    ¬ ∀ (locals : ℕ) (remotes : List ℕ) (active : List Account),
      0 < locals + remotes.sum → locals + remotes.sum < 2 ^ 64 →
      ∃ queues lists,
        doReplaceUsers locals remotes active = .ok (some (queues, lists)) ∧
        (queues ++ lists).flatten.Perm active := by
  intro always
  obtain ⟨queues, lists, replaced, assigned⟩ := always 0 [2]
    [waiting 1, waiting 2, waiting 3] (by decide) (by decide)
  have given : doReplaceUsers 0 [2] [waiting 1, waiting 2, waiting 3] =
      .ok (some ([], [[waiting 1, waiting 2]])) := by
    decide
  cases given.symm.trans replaced
  exact absurd assigned.length_eq (by decide)

/-! ## Who gets the new accounts -/

/-- The number of threads of the client that `next_thread_` points to; a local
queue has one. -/
def threadsAt (locals : ℕ) (remotes : List ℕ) (next : ℕ) : Option ℕ :=
  if next < locals then some 1 else remotes[findRemote next locals remotes]?

/-- The next clients in turn, one for each account, have one thread each; the
last of them may have more. -/
def EachTakesOne (locals : ℕ) (remotes : List ℕ) (next count : ℕ) : Prop :=
  ∀ turn < count, ∃ threads,
    threadsAt locals remotes ((next + turn) % (locals + remotes.sum)) =
      some threads ∧
    (threads = 1 ∨ 0 < threads ∧ turn + 1 = count)

section Distribute

variable {α : Type} {locals : ℕ} {remotes : List ℕ}

private theorem distribute_pass {total next threads : ℕ} (passes : ℕ)
    {accounts : List (Option α)} (nonempty : accounts ≠ [])
    (inside : next < total) (fits : total < 2 ^ 64)
    (pointed : threadsAt locals remotes next = .some threads)
    (positive : 0 < threads) :
    ∃ receiver, distribute locals remotes total (passes + 1) next accounts =
      ((receiver, accounts.rtake (min accounts.length threads)) :: ·) <$>
        distribute locals remotes total passes
          (wrap64 (next + threads) % total)
          (accounts.rdrop (min accounts.length threads) ++
            List.replicate (min accounts.length threads - 1) none) := by
  cases accounts with
  | nil => exact absurd rfl nonempty
  | cons account others =>
      rw [distribute]
      unfold threadsAt at pointed
      by_cases within : next < locals
      · rw [if_pos within] at pointed
        cases pointed
        have one : min (account :: others).length 1 = 1 :=
          min_eq_right (by simp)
        have wraps : wrap64 (next + 1) = next + 1 :=
          Nat.mod_eq_of_lt (by omega)
        rw [if_pos within, one, wraps, Nat.sub_self, List.replicate_zero,
          List.append_nil]
        refine ⟨.queue next, ?_⟩
        cases distribute locals remotes total passes ((next + 1) % total)
          ((account :: others).rdrop 1) <;> rfl
      · rw [if_neg within] at pointed
        have count : min (account :: others).length threads ≠ 0 := by
          rw [List.length_cons]
          omega
        simp only [if_neg within, pointed, if_neg count]
        refine ⟨.remote (findRemote next locals remotes), ?_⟩
        cases distribute locals remotes total passes
          (wrap64 (next + threads) % total) _ <;> rfl

/-- Without a client that has threads, the server reads or erases past the
end. -/
private theorem distribute_client {total passes next : ℕ}
    {accounts : List (Option α)} {delivered : List (Receiver × List (Option α))}
    (nonempty : accounts ≠ [])
    (distributed : distribute locals remotes total (passes + 1) next accounts =
      .ok delivered) :
    ∃ threads, threadsAt locals remotes next = .some threads ∧
      0 < threads := by
  cases accounts with
  | nil => exact absurd rfl nonempty
  | cons account others =>
      rw [distribute] at distributed
      unfold threadsAt
      by_cases within : next < locals
      · exact ⟨1, if_pos within, Nat.one_pos⟩
      · rw [if_neg within] at distributed ⊢
        cases found : remotes[findRemote next locals remotes]? with
        | none =>
            simp only [found] at distributed
            cases distributed
        | some threads =>
            refine ⟨threads, rfl, Nat.pos_of_ne_zero ?_⟩
            rintro rfl
            simp only [found, Nat.min_zero, if_true] at distributed
            cases distributed

private theorem length_rtake (accounts : List α) (count : ℕ) :
    (accounts.rtake count).length = min count accounts.length := by
  unfold List.rtake
  rw [List.length_drop]
  omega

private theorem length_erased (accounts : List (Option α)) {count : ℕ}
    (positive : 0 < count) (within : count ≤ accounts.length) :
    (accounts.rdrop count ++ List.replicate (count - 1) none).length =
      accounts.length - 1 := by
  rw [List.length_append, length_rdrop, List.length_replicate]
  omega

private theorem distribute_length {total passes next : ℕ}
    {accounts : List (Option α)} {delivered : List (Receiver × List (Option α))}
    (inside : next < total) (fits : total < 2 ^ 64)
    (counted : accounts.length = passes)
    (distributed : distribute locals remotes total passes next accounts =
      .ok delivered) :
    passes ≤ (delivered.flatMap Prod.snd).length := by
  induction passes generalizing next accounts delivered with
  | zero => exact Nat.zero_le _
  | succ passes induction =>
      have nonempty : accounts ≠ [] := by
        rintro rfl
        cases counted
      obtain ⟨threads, pointed, positive⟩ :=
        distribute_client nonempty distributed
      obtain ⟨receiver, pass⟩ := distribute_pass passes nonempty inside fits
        pointed positive
      rw [pass] at distributed
      obtain ⟨rest, remaining, rfl⟩ := Outcome.map_eq_ok.mp distributed
      have shorter := length_erased accounts
        (by omega : 0 < min accounts.length threads) (by omega)
      have others := induction (Nat.mod_lt _ (by omega)) (by omega) remaining
      rw [List.flatMap_cons, List.length_append, length_rtake]
      omega

private theorem eachTakesOne_succ {next count : ℕ} (several : 0 < count) :
    EachTakesOne locals remotes next (count + 1) ↔
      threadsAt locals remotes (next % (locals + remotes.sum)) = some 1 ∧
        EachTakesOne locals remotes (next + 1) count := by
  constructor
  · intro each
    constructor
    · obtain ⟨threads, pointed, one | ⟨-, last⟩⟩ := each 0 (by omega)
      · rw [← one]
        exact pointed
      · omega
    · intro turn before
      obtain ⟨threads, pointed, takes⟩ := each (turn + 1) (by omega)
      rw [Nat.add_assoc, Nat.add_comm 1]
      refine ⟨threads, pointed, ?_⟩
      omega
  · rintro ⟨first, later⟩ turn before
    cases turn with
    | zero => exact ⟨1, first, .inl rfl⟩
    | succ turn =>
        obtain ⟨threads, pointed, takes⟩ := later turn (by omega)
        rw [Nat.add_assoc, Nat.add_comm 1] at pointed
        refine ⟨threads, pointed, ?_⟩
        omega

/-- The loop delivers every account once if and only if each pass, but the
last, is over a single account. -/
private theorem distribute_perm_iff {next : ℕ} {accounts : List (Option α)}
    (threads : 0 < locals + remotes.sum)
    (fits : locals + remotes.sum < 2 ^ 64) :
    (∃ delivered, distribute locals remotes (locals + remotes.sum)
        accounts.length (next % (locals + remotes.sum)) accounts =
          .ok delivered ∧
        (delivered.flatMap Prod.snd).Perm accounts) ↔
      EachTakesOne locals remotes next accounts.length := by
  generalize counted : accounts.length = passes
  induction passes generalizing next accounts with
  | zero =>
      obtain rfl := List.eq_nil_of_length_eq_zero counted
      refine iff_of_true ⟨[], rfl, .refl _⟩ fun turn before => ?_
      cases before
  | succ passes induction =>
      have inside := Nat.mod_lt next threads
      have nonempty : accounts ≠ [] := by
        rintro rfl
        cases counted
      obtain rfl | several := Nat.eq_zero_or_pos passes
      · -- the last account goes to anyone with a thread
        constructor
        · rintro ⟨delivered, distributed, -⟩ turn before
          obtain ⟨count, pointed, positive⟩ :=
            distribute_client nonempty distributed
          obtain rfl : turn = 0 := by omega
          exact ⟨count, pointed, .inr ⟨positive, rfl⟩⟩
        · intro each
          obtain ⟨count, pointed, takes⟩ := each 0 (by omega)
          obtain ⟨receiver, pass⟩ := distribute_pass 0 nonempty inside
            fits pointed (by omega)
          have one : min accounts.length count = 1 := by omega
          have none : accounts.rdrop 1 = [] :=
            List.eq_nil_of_length_eq_zero (by rw [length_rdrop]; omega)
          have split := rtake_rdrop_perm accounts 1
          rw [none, List.append_nil] at split
          rw [one, none] at pass
          refine ⟨[(receiver, accounts.rtake 1)], pass, ?_⟩
          rwa [List.flatMap_cons, List.flatMap_nil, List.append_nil]
      have steps : wrap64 (next % (locals + remotes.sum) + 1) =
          next % (locals + remotes.sum) + 1 :=
        Nat.mod_eq_of_lt (by omega)
      have shorter : (accounts.rdrop 1).length = passes := by
        rw [length_rdrop]
        omega
      have split := rtake_rdrop_perm accounts 1
      rw [eachTakesOne_succ several, ← induction shorter]
      constructor
      · rintro ⟨delivered, distributed, once⟩
        obtain ⟨count, pointed, positive⟩ :=
          distribute_client nonempty distributed
        obtain ⟨receiver, pass⟩ := distribute_pass passes nonempty
          inside fits pointed positive
        rw [pass] at distributed
        obtain ⟨rest, remaining, rfl⟩ := Outcome.map_eq_ok.mp distributed
        have erased := length_erased accounts
          (by omega : 0 < min accounts.length count) (by omega)
        have others := distribute_length (Nat.mod_lt _ threads) fits (by omega)
          remaining
        have same := once.length_eq
        rw [List.flatMap_cons, List.length_append, length_rtake] at same
        obtain rfl : count = 1 := by omega
        have one : min accounts.length 1 = 1 := by omega
        rw [one] at remaining once
        rw [steps, Nat.mod_add_mod, Nat.sub_self, List.replicate_zero,
          List.append_nil] at remaining
        refine ⟨pointed, rest, remaining, ?_⟩
        exact (List.perm_append_left_iff _).mp (once.trans split.symm)
      · rintro ⟨pointed, rest, remaining, once⟩
        obtain ⟨receiver, pass⟩ := distribute_pass passes nonempty
          inside fits pointed Nat.one_pos
        have one : min accounts.length 1 = 1 := by omega
        rw [one, steps, Nat.mod_add_mod, Nat.sub_self, List.replicate_zero,
          List.append_nil, remaining] at pass
        refine ⟨(receiver, accounts.rtake 1) :: rest, pass, ?_⟩
        rw [List.flatMap_cons]
        exact (once.append_left _).trans split

/-- From any `next_thread_`, new accounts are delivered exactly once if and
only if the thread counts fit and every client in turn, but the last, takes a
single account. -/
theorem new_accounts_delivered_iff {accounts : List α} (next : ℕ)
    (threads : 0 < locals + remotes.sum) :
    (∃ delivered, pushNewAccounts locals remotes next accounts =
        .ok delivered ∧
      (delivered.flatMap Prod.snd).Perm (accounts.map some)) ↔
    locals + remotes.sum < 2 ^ 64 ∧
      EachTakesOne locals remotes next accounts.length := by
  unfold pushNewAccounts totalThreads
  by_cases fits : locals + remotes.sum < 2 ^ 64
  · simp only [if_pos fits, bind, Except.bind, if_neg (Nat.ne_of_gt threads)]
    rw [and_iff_right fits, ← List.length_map some,
      ← distribute_perm_iff threads fits]
  · rw [if_neg fits]
    constructor
    · rintro ⟨_, failed, -⟩
      cases failed
    · rintro ⟨within, -⟩
      exact absurd within fits

end Distribute

/-- Three accounts over two local queues and a scanner of four threads. -/
theorem new_accounts_delivered_in_turn :
    ∃ delivered, pushNewAccounts 2 [4] 0 [7, 8, 9] = .ok delivered ∧
      (delivered.flatMap Prod.snd).Perm ([7, 8, 9].map some) := by
  refine (new_accounts_delivered_iff 0 (by decide)).mpr ⟨by decide, ?_⟩
  intro turn before
  obtain rfl | rfl | rfl : turn = 0 ∨ turn = 1 ∨ turn = 2 := by
    rw [List.length_cons] at before
    simp at before
    omega
  · exact ⟨1, rfl, .inl rfl⟩
  · exact ⟨1, rfl, .inl rfl⟩
  · exact ⟨4, rfl, .inr ⟨by decide, rfl⟩⟩

/-- A scanner of two threads is sent an account that was moved out before. -/
theorem new_accounts_delivered_moved_out :
    ¬ ∀ (locals : ℕ) (remotes : List ℕ) (next : ℕ) (accounts : List ℕ),
      0 < locals + remotes.sum → locals + remotes.sum < 2 ^ 64 →
      ∃ delivered, pushNewAccounts locals remotes next accounts =
          .ok delivered ∧
        (delivered.flatMap Prod.snd).Perm (accounts.map some) := by
  intro always
  obtain ⟨delivered, pushed, once⟩ :=
    always 0 [2] 0 [7, 8] (by decide) (by decide)
  have sent : pushNewAccounts 0 [2] 0 [7, 8] =
      .ok [(.remote 0, [some 7, some 8]), (.remote 0, [none])] := by
    decide
  cases sent.symm.trans pushed
  exact absurd once.length_eq (by decide)

end XfoLws.Scanner
