import XfoLws.Lib.Dealing
import XfoLws.Scanner.Commands
import XfoLws.Scanner.Queue

/-!
# Accounts at a remote scanner

`rpc::scanner::client` divides the accounts of `replace_accounts` over its
local queues and hands those of `push_accounts` out in turn.  The threads take
them from the queues at any time, so the client is modelled by the calls it
makes.
-/

namespace XfoLws.Scanner

open Dealing

/-! ## Commands -/

/-- `locals` is the size of `local_`; the calls on the queues are recorded. -/
structure Client where
  locals : ℕ
  nextPush : ℕ
  calls : List (ℕ × QueueCall)

namespace Client

def new (locals : ℕ) : Client := ⟨locals, 0, []⟩

/-- One turn of the loop of `push_accounts`. -/
def pushAccount (self : Client) (user : LwsAccount) : Client :=
  { self with
    nextPush := (self.nextPush + 1) % self.locals
    calls := self.calls ++ [(self.nextPush, .pushAccounts [user])] }

/-- `client::push_accounts`. -/
def pushAccounts (self : Client) (users : List LwsAccount) : Client :=
  users.foldl pushAccount self

/-- `client::replace_accounts`. -/
def replaceAccounts (self : Client) (users : List LwsAccount) : Client :=
  { self with
    nextPush := 0
    calls := self.calls ++ (divideEvenly self.locals users).zipIdx.map
      fun part => (part.2, .replaceAccounts part.1) }

/-- `push_accounts_handler` and `replace_accounts_handler`. -/
def handle (self : Client) : ServerCommand → Client × Bool
  | .pushAccounts users =>
      if users = [] then (self, true) else (self.pushAccounts users, true)
  | .replaceAccounts users => (self.replaceAccounts users, true)

/-- The accounts that a queue was given and not told to replace. -/
def given (self : Client) (index : ℕ) : List LwsAccount :=
  (callsTo index self.calls).foldl assign []

/-- The accounts of all local queues. -/
def allGiven (self : Client) : List LwsAccount :=
  (List.range self.locals).flatMap self.given

end Client

/-- The accounts that commands assign to a scanner. -/
def assignCommand (users : List LwsAccount) : ServerCommand → List LwsAccount
  | .pushAccounts others => users ++ others
  | .replaceAccounts others => others

/-- Sending does not change which accounts are assigned. -/
theorem assignCommand_reload (commands : List ServerCommand)
    (users : List LwsAccount) :
    (commands.map ServerCommand.reload).foldl assignCommand
        (users.map Wire.reloadAccount) =
      (commands.foldl assignCommand users).map Wire.reloadAccount := by
  induction commands generalizing users with
  | nil => rfl
  | cons command commands induction =>
      rw [List.map_cons, List.foldl_cons, List.foldl_cons, ← induction]
      cases command with
      | pushAccounts others =>
          rw [ServerCommand.reload, assignCommand, assignCommand,
            List.map_append]
      | replaceAccounts others => rfl

namespace Client

variable {self : Client}

/-! ## Loads -/

theorem callsTo_append (index : ℕ) (first second : List (ℕ × QueueCall)) :
    callsTo index (first ++ second) =
      callsTo index first ++ callsTo index second := by
  simp [callsTo]

theorem given_pushAccount (user : LwsAccount) (index : ℕ) :
    (self.pushAccount user).given index =
      self.given index ++ if index = self.nextPush then [user] else [] := by
  unfold given pushAccount
  dsimp only
  rw [callsTo_append, List.foldl_append, callsTo_cons]
  by_cases same : self.nextPush = index
  · simp [same, callsTo, assign]
  · simp [same, Ne.symm same, callsTo]

theorem callsTo_earlier (parts : List (List LwsAccount)) {start index : ℕ}
    (earlier : index < start) :
    callsTo index ((parts.zipIdx start).map fun part =>
        (part.2, .replaceAccounts part.1)) = [] := by
  induction parts generalizing start with
  | nil => rfl
  | cons part parts induction =>
      rw [List.zipIdx_cons, List.map_cons, callsTo_cons,
        if_neg (Nat.ne_of_gt earlier), induction (Nat.lt_succ_of_lt earlier)]
      rfl

/-- Each queue is called once. -/
theorem callsTo_zipIdx (parts : List (List LwsAccount)) (start index : ℕ) :
    callsTo (start + index) ((parts.zipIdx start).map fun part =>
        (part.2, .replaceAccounts part.1)) =
      (parts[index]?.map QueueCall.replaceAccounts).toList := by
  induction parts generalizing start index with
  | nil => rfl
  | cons part parts induction =>
      rw [List.zipIdx_cons, List.map_cons, callsTo_cons]
      cases index with
      | zero =>
          rw [Nat.add_zero, if_pos rfl, callsTo_earlier parts (Nat.lt_succ_self _)]
          rfl
      | succ index =>
          have later := induction (start + 1) index
          rw [if_neg (by simp), List.nil_append, List.getElem?_cons_succ,
            ← later, Nat.add_right_comm, Nat.add_assoc]

theorem given_replaceAccounts (users : List LwsAccount) {index : ℕ}
    (inside : index < self.locals) :
    (divideEvenly self.locals users)[index]? =
      some ((self.replaceAccounts users).given index) := by
  have called := callsTo_zipIdx (divideEvenly self.locals users) 0 index
  rw [Nat.zero_add] at called
  obtain ⟨part, found⟩ : ∃ part,
      (divideEvenly self.locals users)[index]? = some part :=
    ⟨_, List.getElem?_eq_getElem (by simpa using inside)⟩
  rw [found, Option.map_some, Option.toList_some] at called
  rw [found, given, Client.replaceAccounts]
  dsimp only
  rw [callsTo_append, called, List.foldl_append]
  rfl

/-- The queues before `nextPush` have one account more than the last
replacement and the full rounds since gave them, and those from `larger` on
have one more from the replacement. -/
def Level (self : Client) : Prop :=
  self.nextPush < self.locals ∧ ∃ count larger, larger ≤ self.locals ∧
    ∀ index < self.locals, (self.given index).length =
      count + (if larger ≤ index then 1 else 0) +
        if index < self.nextPush then 1 else 0

theorem Level.balanced (level : self.Level) {first second : ℕ}
    (firstLocal : first < self.locals) (secondLocal : second < self.locals) :
    (self.given first).length ≤ (self.given second).length + 1 := by
  obtain ⟨_, count, larger, _, load⟩ := level
  rw [load first firstLocal, load second secondLocal]
  split <;> split <;> split <;> split <;> omega

theorem Level.pushAccount (level : self.Level) (user : LwsAccount) :
    (self.pushAccount user).Level := by
  obtain ⟨next, count, larger, within, load⟩ := level
  refine ⟨Nat.mod_lt _ (Nat.zero_lt_of_lt next), ?_⟩
  have one : ∀ index, (if index = self.nextPush then [user] else []).length =
      if index = self.nextPush then 1 else 0 := by
    intro index
    split <;> rfl
  by_cases last : self.nextPush + 1 = self.locals
  · refine ⟨count + 1, larger, within, fun index inside => ?_⟩
    rw [given_pushAccount, List.length_append, load index inside, one]
    have around : (self.pushAccount user).nextPush = 0 := by
      simp [Client.pushAccount, last]
    have local' : index < self.locals := inside
    rw [around, if_neg (Nat.not_lt_zero index)]
    split <;> split <;> split <;> omega
  · refine ⟨count, larger, within, fun index inside => ?_⟩
    rw [given_pushAccount, List.length_append, load index inside, one]
    have further : (self.pushAccount user).nextPush = self.nextPush + 1 :=
      Nat.mod_eq_of_lt (by omega)
    rw [further]
    split <;> split <;> split <;> split <;> omega

theorem Level.replaceAccounts (some : 0 < self.locals)
    (users : List LwsAccount) : (self.replaceAccounts users).Level := by
  refine ⟨some, users.length / self.locals,
    self.locals - users.length % self.locals, Nat.sub_le _ _,
    fun index inside => ?_⟩
  have local' : index < self.locals := inside
  rw [length_part (given_replaceAccounts users local')]
  simp [Client.replaceAccounts]

/-! ## Every account once -/

theorem flatMap_single {indexes : List ℕ} (distinct : indexes.Nodup) {next : ℕ}
    (member : next ∈ indexes) (user : LwsAccount) :
    (indexes.flatMap fun index => if index = next then [user] else []) =
      [user] := by
  induction indexes with
  | nil => cases member
  | cons index indexes induction =>
      obtain ⟨fresh, distinct⟩ := List.nodup_cons.mp distinct
      rw [List.flatMap_cons]
      rcases List.mem_cons.mp member with rfl | later
      · have none : (indexes.flatMap fun index =>
            if index = next then [user] else []) = [] := by
          rw [List.flatMap_eq_nil_iff]
          intro index other
          rw [if_neg]
          rintro rfl
          exact fresh other
        rw [if_pos rfl, none, List.append_nil]
      · have other : index ≠ next := by
          rintro rfl
          exact fresh later
        rw [if_neg other, induction distinct later]
        rfl

theorem allGiven_pushAccount (next : self.nextPush < self.locals)
    (user : LwsAccount) :
    (self.pushAccount user).allGiven.Perm (self.allGiven ++ [user]) := by
  have each : (self.pushAccount user).given = fun index =>
      self.given index ++ if index = self.nextPush then [user] else [] :=
    funext fun index => given_pushAccount user index
  have single := flatMap_single (List.nodup_range)
    (List.mem_range.mpr next) user
  have split : (self.pushAccount user).allGiven.Perm (self.allGiven ++
      (List.range self.locals).flatMap fun index =>
        if index = self.nextPush then [user] else []) := by
    unfold allGiven
    rw [each]
    exact (List.flatMap_append_perm _ _ _).symm
  rwa [single] at split

theorem allGiven_replaceAccounts (some : 0 < self.locals)
    (users : List LwsAccount) :
    (self.replaceAccounts users).allGiven.Perm users := by
  have parts : (List.range self.locals).map
      (self.replaceAccounts users).given = divideEvenly self.locals users := by
    apply List.ext_getElem?
    intro index
    by_cases inside : index < self.locals
    · rw [given_replaceAccounts users inside]
      simp [inside]
    · simp [inside]
  have flat : (self.replaceAccounts users).allGiven =
      (divideEvenly self.locals users).flatten := by
    rw [← parts]
    rfl
  rw [flat]
  exact divideEvenly_perm some users

/-- The loads are level, and the queues hold the accounts that the commands
assigned. -/
structure Holds (client : Client) (users : List LwsAccount) : Prop where
  level : client.Level
  once : client.allGiven.Perm users

theorem Holds.pushAccounts {users : List LwsAccount} (holds : self.Holds users)
    (others : List LwsAccount) :
    (self.pushAccounts others).Holds (users ++ others) := by
  induction others generalizing self users with
  | nil => simpa [Client.pushAccounts] using holds
  | cons user others induction =>
      have one : (self.pushAccount user).Holds (users ++ [user]) :=
        ⟨holds.level.pushAccount user,
          (allGiven_pushAccount holds.level.1 user).trans
            (holds.once.append_right _)⟩
      simpa [Client.pushAccounts] using induction one

theorem Holds.handle {users : List LwsAccount} (holds : self.Holds users)
    (command : ServerCommand) :
    (self.handle command).1.Holds (assignCommand users command) := by
  have some : 0 < self.locals := Nat.zero_lt_of_lt holds.level.1
  cases command with
  | pushAccounts others =>
      unfold Client.handle assignCommand
      dsimp only
      split
      · rename_i empty
        simpa [empty] using holds
      · exact holds.pushAccounts others
  | replaceAccounts others =>
      exact ⟨.replaceAccounts some others,
        allGiven_replaceAccounts some others⟩

theorem pushAccounts_locals (users : List LwsAccount) :
    (self.pushAccounts users).locals = self.locals := by
  induction users generalizing self with
  | nil => rfl
  | cons user users induction => exact induction

theorem handle_locals (command : ServerCommand) :
    (self.handle command).1.locals = self.locals := by
  unfold Client.handle
  cases command with
  | pushAccounts users =>
      dsimp only
      split
      · rfl
      · exact pushAccounts_locals users
  | replaceAccounts users => rfl

theorem run_locals (commands : List ServerCommand) :
    (commands.foldl (fun self command => (self.handle command).1)
      self).locals = self.locals := by
  induction commands generalizing self with
  | nil => rfl
  | cons command commands induction =>
      rw [List.foldl_cons, induction, handle_locals]

theorem new_holds {locals : ℕ} (some : 0 < locals) : (new locals).Holds [] := by
  refine ⟨⟨some, 0, locals, le_rfl, fun index inside => ?_⟩, ?_⟩
  · have local' : index < locals := inside
    rw [if_neg (Nat.not_le.mpr local')]
    rfl
  · simp [allGiven, given, callsTo, new]

theorem run_holds {commands : List ServerCommand} {users : List LwsAccount}
    (holds : self.Holds users) :
    Holds (commands.foldl (fun self command => (self.handle command).1) self)
      (commands.foldl assignCommand users) := by
  induction commands generalizing self users with
  | nil => exact holds
  | cons command commands induction => exact induction (holds.handle command)

end Client

end XfoLws.Scanner
