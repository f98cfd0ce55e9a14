import XfoLws.Lib.Outcome
import XfoLws.Scanner.Server
import Mathlib.Data.List.ReduceOption

/-!
# Checking for new accounts

`rpc::scanner::server` remembers the ids it handed out in `active_`, which is
sorted.  Every check compares them with the active accounts on disk, and hands
out what is new, or replaces everything when an account or a connection is
gone.
-/

namespace XfoLws.Scanner

open Db (Account AccountId)

/-! ## Sorted ids -/

/-- `std::lower_bound` points to the id. -/
def hasId (ids : List AccountId) (id : AccountId) : Bool :=
  (ids.dropWhile (· < id)).head? = some id

/-- Insertion at `std::lower_bound`. -/
def insertId (ids : List AccountId) (id : AccountId) : List AccountId :=
  ids.takeWhile (· < id) ++ id :: ids.dropWhile (· < id)

/-- The id at `std::lower_bound` is erased. -/
def eraseId (ids : List AccountId) (id : AccountId) : List AccountId :=
  ids.takeWhile (· < id) ++ (ids.dropWhile (· < id)).tail

/-- In increasing order, none twice. -/
def Increasing (ids : List AccountId) : Prop := ids.Pairwise (· < ·)

theorem Increasing.split {ids : List AccountId} (increasing : Increasing ids)
    (id : AccountId) :
    (∀ other ∈ ids.takeWhile (· < id), other < id) ∧
      ∀ other ∈ ids.dropWhile (· < id), id ≤ other := by
  constructor
  · intro other member
    simpa using List.mem_takeWhile_imp member
  · induction ids with
    | nil => simp
    | cons first ids induction =>
        obtain ⟨least, increasing⟩ := List.pairwise_cons.mp increasing
        by_cases below : first < id
        · rw [List.dropWhile_cons_of_pos (by simpa using below)]
          exact induction increasing
        · rw [List.dropWhile_cons_of_neg (by simpa using below)]
          intro other member
          rcases List.mem_cons.mp member with rfl | later
          · exact Nat.not_lt.mp below
          · exact (Nat.not_lt.mp below).trans (least other later).le

theorem takeWhile_append (ids : List AccountId) (id : AccountId) :
    ids.takeWhile (· < id) ++ ids.dropWhile (· < id) = ids :=
  List.takeWhile_append_dropWhile

theorem Increasing.dropWhile {ids : List AccountId}
    (increasing : Increasing ids) (id : AccountId) :
    Increasing (ids.dropWhile (· < id)) :=
  List.Pairwise.sublist (List.dropWhile_sublist _) increasing

/-- The lower bound of an id in the list is that id. -/
theorem Increasing.cut {ids : List AccountId} (increasing : Increasing ids)
    {id : AccountId} (member : id ∈ ids) :
    ∃ rest, ids.dropWhile (· < id) = id :: rest := by
  obtain ⟨before, after⟩ := increasing.split id
  have behind : id ∈ ids.dropWhile (· < id) := by
    rw [← takeWhile_append ids id] at member
    refine (List.mem_append.mp member).resolve_left fun early => ?_
    exact Nat.lt_irrefl id (before id early)
  have ordered := increasing.dropWhile id
  generalize ids.dropWhile (· < id) = rest at behind ordered after
  cases rest with
  | nil => cases behind
  | cons first rest =>
      rcases List.mem_cons.mp behind with rfl | later
      · exact ⟨rest, rfl⟩
      · have less := (List.pairwise_cons.mp ordered).1 id later
        exact absurd (after first List.mem_cons_self) (Nat.not_le.mpr less)

theorem Increasing.hasId_iff {ids : List AccountId}
    (increasing : Increasing ids) {id : AccountId} :
    hasId ids id = true ↔ id ∈ ids := by
  rw [hasId, decide_eq_true_eq]
  constructor
  · intro found
    have behind := List.mem_of_head? found
    exact (List.dropWhile_sublist _).subset behind
  · intro member
    obtain ⟨rest, found⟩ := increasing.cut member
    rw [found, List.head?_cons]

theorem mem_insertId {ids : List AccountId} {id other : AccountId} :
    other ∈ insertId ids id ↔ other = id ∨ other ∈ ids := by
  conv_rhs => rw [← takeWhile_append ids id]
  simp only [insertId, List.mem_append, List.mem_cons]
  tauto

theorem insertId_perm (ids : List AccountId) (id : AccountId) :
    (insertId ids id).Perm (id :: ids) := by
  conv_rhs => rw [← takeWhile_append ids id]
  exact List.perm_middle

theorem Increasing.insertId {ids : List AccountId}
    (increasing : Increasing ids) {id : AccountId} (fresh : id ∉ ids) :
    Increasing (insertId ids id) := by
  obtain ⟨before, after⟩ := increasing.split id
  have parts : Increasing
      (ids.takeWhile (· < id) ++ ids.dropWhile (· < id)) := by
    rwa [takeWhile_append]
  obtain ⟨first, second, across⟩ := List.pairwise_append.mp parts
  have above : ∀ other ∈ ids.dropWhile (· < id), id < other := by
    intro other member
    refine Nat.lt_of_le_of_ne (after other member) ?_
    rintro rfl
    exact fresh ((List.dropWhile_sublist _).subset member)
  refine List.pairwise_append.mpr
    ⟨first, List.pairwise_cons.mpr ⟨above, second⟩, ?_⟩
  intro left leftMember right rightMember
  rcases List.mem_cons.mp rightMember with rfl | later
  · exact before left leftMember
  · exact across left leftMember right later

theorem Increasing.eraseId_eq {ids : List AccountId}
    (increasing : Increasing ids) {id : AccountId} (member : id ∈ ids) :
    eraseId ids id = ids.filter (· ≠ id) := by
  obtain ⟨rest, found⟩ := increasing.cut member
  have parts := takeWhile_append ids id
  rw [found] at parts
  have before := (increasing.split id).1
  have ordered : Increasing (ids.takeWhile (· < id) ++ id :: rest) := by
    rwa [parts]
  have above : ∀ other ∈ rest, id < other :=
    (List.pairwise_cons.mp (List.pairwise_append.mp ordered).2.1).1
  have first : (ids.takeWhile (· < id)).filter (· ≠ id) =
      ids.takeWhile (· < id) := by
    apply List.filter_eq_self.mpr
    intro other early
    simpa using (before other early).ne
  have last : rest.filter (· ≠ id) = rest := by
    apply List.filter_eq_self.mpr
    intro other late
    simpa using (above other late).ne'
  conv_rhs => rw [← parts]
  rw [eraseId, found, List.tail_cons, List.filter_append, first,
    List.filter_cons_of_neg (by simp), last]

theorem Increasing.filter {ids : List AccountId}
    (increasing : Increasing ids) (keep : AccountId → Bool) :
    Increasing (ids.filter keep) :=
  List.Pairwise.sublist List.filter_sublist increasing

/-! ## Comparing -/

def replaceThreshold : ℕ := 10000

/-- `active_copy`, `active_` and `new_accounts` of a check. -/
structure Compared where
  copy : List AccountId
  active : List AccountId
  newAccounts : List Account

/-- The loop over the active accounts on disk; `false` when it stops at too
many new ones. -/
def compareUsers : List Account → Compared → Compared × Bool
  | [], state => (state, true)
  | user :: users, state =>
      if hasId state.copy user.id then
        compareUsers users { state with copy := eraseId state.copy user.id }
      else
        let newAccounts := state.newAccounts ++ [user]
        if replaceThreshold < newAccounts.length then
          ({ state with newAccounts := newAccounts }, false)
        else
          compareUsers users
            { state with
              newAccounts := newAccounts
              active := insertId state.active user.id }

/-- The accounts whose ids are not listed. -/
def newUsers (ids : List AccountId) (users : List Account) : List Account :=
  users.filter fun user => decide (user.id ∉ ids)

theorem newUsers_cons_known {ids : List AccountId} {user : Account}
    (known : user.id ∈ ids) (users : List Account) :
    newUsers ids (user :: users) = newUsers ids users :=
  List.filter_cons_of_neg (by simpa using known)

theorem newUsers_cons_new {ids : List AccountId} {user : Account}
    (new : user.id ∉ ids) (users : List Account) :
    newUsers ids (user :: users) = user :: newUsers ids users :=
  List.filter_cons_of_pos (by simpa using new)

/-- The ids of the accounts were handed out. -/
def insertIds (ids : List AccountId) (users : List Account) :
    List AccountId :=
  users.foldl (fun ids user => insertId ids user.id) ids

/-- The loop stops early if there are too many new accounts.  Otherwise what is
left of `active_copy` are the accounts that are gone, and `new_accounts` are
those that were not handed out. -/
theorem compareUsers_spec {users : List Account} {state : Compared}
    (distinct : (users.map Account.id).Nodup)
    (copy : Increasing state.copy)
    (few : state.newAccounts.length ≤ replaceThreshold) :
    if replaceThreshold <
        (state.newAccounts ++ newUsers state.copy users).length then
      (compareUsers users state).2 = false
    else
      compareUsers users state =
        ({ copy := state.copy.filter (· ∉ users.map Account.id)
           active := insertIds state.active (newUsers state.copy users)
           newAccounts := state.newAccounts ++ newUsers state.copy users },
          true) := by
  induction users generalizing state with
  | nil =>
      simp [compareUsers, newUsers, insertIds, Nat.not_lt.mpr few]
  | cons user users induction =>
      rw [List.map_cons, List.nodup_cons] at distinct
      obtain ⟨fresh, distinct⟩ := distinct
      rw [compareUsers]
      by_cases member : user.id ∈ state.copy
      · -- an account that was handed out
        rw [if_pos (copy.hasId_iff.mpr member), newUsers_cons_known member]
        have erased := copy.eraseId_eq member
        have same : newUsers (eraseId state.copy user.id) users =
            newUsers state.copy users := by
          apply List.filter_congr
          intro other listed
          have different : other.id ≠ user.id := fun same =>
            fresh (List.mem_map.mpr ⟨other, listed, same⟩)
          simp [erased, different]
        have gone : (eraseId state.copy user.id).filter
            (· ∉ users.map Account.id) =
            state.copy.filter (· ∉ (user :: users).map Account.id) := by
          rw [erased, List.filter_filter]
          apply List.filter_congr
          intro other _
          rw [List.map_cons, ← Bool.decide_and]
          apply decide_eq_decide.mpr
          rw [List.mem_cons, not_or, and_comm]
        have step := @induction
          { state with copy := eraseId state.copy user.id } distinct
          (erased ▸ copy.filter _) few
        rwa [same, gone] at step
      · -- a new one
        rw [if_neg (mt copy.hasId_iff.mp member), newUsers_cons_new member]
        dsimp only
        have grown : state.newAccounts ++ user :: newUsers state.copy users =
            state.newAccounts ++ [user] ++ newUsers state.copy users := by
          simp
        have gone : state.copy.filter (· ∉ users.map Account.id) =
            state.copy.filter (· ∉ (user :: users).map Account.id) := by
          apply List.filter_congr
          intro other listed
          have different : other ≠ user.id := fun same =>
            member (same ▸ listed)
          simp [different]
        by_cases many : replaceThreshold < (state.newAccounts ++ [user]).length
        · rw [if_pos many, grown, if_pos]
          rw [List.length_append]
          omega
        · rw [if_neg many, grown]
          have step := @induction
            { state with
              newAccounts := state.newAccounts ++ [user]
              active := insertId state.active user.id } distinct copy
            (Nat.not_lt.mp many)
          rwa [gone] at step

theorem insertIds_perm (ids : List AccountId) (users : List Account) :
    (insertIds ids users).Perm (ids ++ users.map Account.id) := by
  induction users generalizing ids with
  | nil => simp [insertIds]
  | cons user users induction =>
      have rest := induction (insertId ids user.id)
      refine rest.trans ?_
      refine ((insertId_perm ids user.id).append_right _).trans ?_
      exact List.perm_middle.symm

theorem Increasing.insertIds {ids : List AccountId} {users : List Account}
    (increasing : Increasing ids) (distinct : (users.map Account.id).Nodup)
    (fresh : ∀ user ∈ users, user.id ∉ ids) :
    Increasing (insertIds ids users) := by
  induction users generalizing ids with
  | nil => exact increasing
  | cons user users induction =>
      rw [List.map_cons, List.nodup_cons] at distinct
      apply induction (increasing.insertId (fresh user List.mem_cons_self))
        distinct.2
      intro other listed known
      rcases mem_insertId.mp known with same | known
      · exact distinct.1 (List.mem_map.mpr ⟨other, listed, same⟩)
      · exact fresh other (List.mem_cons_of_mem _ listed) known

/-! ## Checks -/

/-- The server on its strand: `remotes` are the threads of the connections,
`none` for one that is lost, and `handed` the accounts that were read to be
handed out since all were last replaced. -/
structure Fleet where
  locals : ℕ
  remotes : List (Option ℕ)
  active : List AccountId
  handed : List Account

namespace Fleet

/-- The constructor sorts the ids of the accounts that the local queues start
with. -/
def start (locals : ℕ) (users : List Account) : Fleet :=
  ⟨locals, [], (users.map Account.id).insertionSort (· ≤ ·), users⟩

/-- The threads of the connections that are not lost. -/
def connected (fleet : Fleet) : List ℕ := fleet.remotes.reduceOption

/-- `do_replace_users` with the active accounts it reads. -/
def doReplace (fleet : Fleet) (users : List Account) : Except Fault Fleet := do
  let cleared := { fleet with remotes := fleet.remotes.filter Option.isSome }
  match ← doReplaceUsers fleet.locals fleet.connected users with
  | none => .ok cleared
  | some _ =>
      .ok { cleared with active := insertIds [] users, handed := users }

/-- The loop over `remote_`: the threads of all, or `none` at a lost
connection. -/
def countThreads : List (Option ℕ) → ℕ → Except Fault (Option ℕ)
  | [], total => .ok (some total)
  | none :: _, _ => .ok none
  | some threads :: remotes, total =>
      if 2 ^ 64 - 1 - total < threads then .error .configuration
      else countThreads remotes (total + threads)

/-- `check_users` up to the distribution: `current` are the active accounts on
disk, `none` when no reader is to be had, and `fresh` the accounts that a
replacement reads after it. -/
def check (fleet : Fleet) (current : Option (List Account))
    (fresh : List Account) : Except Fault Fleet := do
  match ← countThreads fleet.remotes fleet.locals with
  | none => fleet.doReplace fresh
  | some 0 => .ok fleet
  | some (_ + 1) =>
      match current with
      | none => .ok fleet
      | some users =>
          if users.length < fleet.active.length then fleet.doReplace fresh
          else
            let (compared, few) :=
              compareUsers users ⟨fleet.active, fleet.active, []⟩
            let checked := { fleet with active := compared.active }
            if few = false then checked.doReplace fresh
            else if compared.copy ≠ [] then checked.doReplace fresh
            else
              .ok { checked with handed := fleet.handed ++ compared.newAccounts }

/-- The threads that can be used. -/
def total (fleet : Fleet) : ℕ := fleet.locals + fleet.connected.sum

theorem countThreads_lost {remotes : List (Option ℕ)} {threads : ℕ}
    (fits : threads + remotes.reduceOption.sum < 2 ^ 64)
    (lost : none ∈ remotes) : countThreads remotes threads = .ok none := by
  induction remotes generalizing threads with
  | nil => cases lost
  | cons remote remotes induction =>
      cases remote with
      | none => rfl
      | some count =>
          rw [List.reduceOption_cons_of_some, List.sum_cons] at fits
          rw [countThreads, if_neg (by omega)]
          apply induction (by omega)
          simpa using lost

theorem countThreads_present {remotes : List (Option ℕ)} {threads : ℕ}
    (fits : threads + remotes.reduceOption.sum < 2 ^ 64)
    (present : none ∉ remotes) :
    countThreads remotes threads =
      .ok (some (threads + remotes.reduceOption.sum)) := by
  induction remotes generalizing threads with
  | nil => rfl
  | cons remote remotes induction =>
      cases remote with
      | none => exact absurd List.mem_cons_self present
      | some count =>
          rw [List.reduceOption_cons_of_some, List.sum_cons] at fits ⊢
          rw [countThreads, if_neg (by omega), ← Nat.add_assoc]
          apply induction (by omega)
          exact fun lost => present (List.mem_cons_of_mem _ lost)

theorem countThreads_counted {remotes : List (Option ℕ)} {threads all : ℕ}
    (fits : threads < 2 ^ 64)
    (counted : countThreads remotes threads = .ok (some all)) :
    all = threads + remotes.reduceOption.sum ∧ all < 2 ^ 64 := by
  induction remotes generalizing threads with
  | nil =>
      cases counted
      exact ⟨rfl, fits⟩
  | cons remote remotes induction =>
      cases remote with
      | none => cases counted
      | some count =>
          rw [countThreads] at counted
          split at counted
          · cases counted
          · rename_i within
            rw [List.reduceOption_cons_of_some, List.sum_cons, ← Nat.add_assoc]
            exact induction (by omega) counted

/-- With threads, all accounts are replaced by those on disk. -/
theorem doReplace_eq {fleet : Fleet} (threads : 0 < fleet.total)
    (fits : fleet.total < 2 ^ 64) (users : List Account) :
    fleet.doReplace users = .ok
      { fleet with
        remotes := fleet.remotes.filter Option.isSome
        active := insertIds [] users
        handed := users } := by
  unfold total at threads fits
  simp only [doReplace, doReplaceUsers, totalThreads, if_pos fits, bind,
    Except.bind, if_neg threads.ne']

/-- What a check marked in `active_` does not matter to it. -/
theorem doReplace_marked {fleet : Fleet} (threads : 0 < fleet.total)
    (fits : fleet.total < 2 ^ 64) (ids : List AccountId)
    (users : List Account) :
    { fleet with active := ids }.doReplace users = .ok
      { fleet with
        remotes := fleet.remotes.filter Option.isSome
        active := insertIds [] users
        handed := users } :=
  @doReplace_eq { fleet with active := ids } threads fits users

/-- Without, nothing changes. -/
theorem doReplace_idle {fleet next : Fleet} (threads : ¬ 0 < fleet.total)
    {users : List Account} (replaced : fleet.doReplace users = .ok next) :
    next = { fleet with remotes := fleet.remotes.filter Option.isSome } := by
  unfold total at threads
  obtain idle : fleet.locals + fleet.connected.sum = 0 := by omega
  simp only [doReplace, doReplaceUsers, totalThreads, idle, bind,
    Except.bind] at replaced
  exact (Except.ok.inj replaced).symm

/-! ## What a check does -/

/-- The checks that replace all accounts: a connection is lost, an account is
gone, or there are many new ones. -/
def Replaces (fleet : Fleet) (users : List Account) : Prop :=
  none ∈ fleet.remotes ∨ (∃ id ∈ fleet.active, id ∉ users.map Account.id) ∨
    replaceThreshold < (newUsers fleet.active users).length

instance (fleet : Fleet) (users : List Account) :
    Decidable (fleet.Replaces users) :=
  inferInstanceAs (Decidable (_ ∨ _ ∨ _))

/-- A check with threads and a reader. -/
theorem check_eq {fleet : Fleet} {users : List Account}
    (threads : 0 < fleet.total) (fits : fleet.total < 2 ^ 64)
    (increasing : Increasing fleet.active)
    (distinct : (users.map Account.id).Nodup) (fresh : List Account) :
    fleet.check (some users) fresh = .ok
      (if fleet.Replaces users then
        { fleet with
          remotes := fleet.remotes.filter Option.isSome
          active := insertIds [] fresh
          handed := fresh }
      else
        { fleet with
          active := insertIds fleet.active (newUsers fleet.active users)
          handed := fleet.handed ++ newUsers fleet.active users }) := by
  unfold check
  by_cases lost : none ∈ fleet.remotes
  · rw [countThreads_lost fits lost, if_pos (.inl lost)]
    exact doReplace_eq threads fits fresh
  rw [countThreads_present fits lost]
  obtain ⟨count, counted⟩ := Nat.exists_eq_succ_of_ne_zero threads.ne'
  have positive : fleet.locals + fleet.remotes.reduceOption.sum =
      count + 1 := counted
  rw [positive]
  simp only [bind, Except.bind]
  by_cases shrunk : users.length < fleet.active.length
  · -- there are more ids than accounts, so one is gone
    have gone : ∃ id ∈ fleet.active, id ∉ users.map Account.id := by
      by_contra none
      push Not at none
      have size := (List.subperm_of_subset
        (increasing.imp Nat.ne_of_lt) none).length_le
      rw [List.length_map] at size
      omega
    rw [if_pos shrunk, if_pos (.inr (.inl gone))]
    exact doReplace_eq threads fits fresh
  rw [if_neg shrunk]
  have compared := @compareUsers_spec users ⟨fleet.active, fleet.active, []⟩
    distinct increasing (Nat.zero_le _)
  rw [List.nil_append] at compared
  by_cases many : replaceThreshold < (newUsers fleet.active users).length
  · rw [if_pos many] at compared
    have replaces : fleet.Replaces users := .inr (.inr many)
    rw [if_pos compared, if_pos replaces]
    exact doReplace_marked threads fits _ fresh
  rw [if_neg many] at compared
  rw [compared, if_neg Bool.true_eq_false.mp]
  dsimp only
  by_cases gone : ∃ id ∈ fleet.active, id ∉ users.map Account.id
  · have replaces : fleet.Replaces users := .inr (.inl gone)
    rw [if_pos replaces, if_pos]
    · exact doReplace_marked threads fits _ fresh
    · obtain ⟨id, listed, missing⟩ := gone
      exact List.ne_nil_of_mem
        (List.mem_filter.mpr ⟨listed, by simpa using missing⟩)
  · have replaces : ¬ fleet.Replaces users := by
      rintro (lost' | gone' | many')
      · exact lost lost'
      · exact gone gone'
      · exact many many'
    rw [if_neg replaces, if_neg]
    · rw [not_not, List.filter_eq_nil_iff]
      intro id listed
      by_contra missing
      exact gone ⟨id, listed, by simpa using missing⟩

/-! ## Every run -/

/-- What `active_` stands for. -/
structure Sound (fleet : Fleet) : Prop where
  size : fleet.locals < 2 ^ 64
  increasing : Increasing fleet.active
  ids : (fleet.handed.map Account.id).Perm fleet.active

theorem Sound.replaced {fleet : Fleet} (sound : fleet.Sound)
    {users : List Account} (distinct : (users.map Account.id).Nodup) :
    Sound
      { fleet with
        remotes := fleet.remotes.filter Option.isSome
        active := insertIds [] users
        handed := users } where
  size := sound.size
  increasing :=
    Increasing.insertIds .nil distinct fun _ _ => List.not_mem_nil
  ids := (insertIds_perm [] users).symm

theorem Sound.pushed {fleet : Fleet} (sound : fleet.Sound)
    {users : List Account} (distinct : (users.map Account.id).Nodup) :
    Sound
      { fleet with
        active := insertIds fleet.active (newUsers fleet.active users)
        handed := fleet.handed ++ newUsers fleet.active users } where
  size := sound.size
  increasing := by
    apply sound.increasing.insertIds
    · exact distinct.sublist (List.filter_sublist.map Account.id)
    · intro user new
      simpa using (List.mem_filter.mp new).2
  ids := by
    rw [List.map_append]
    refine (sound.ids.append_right _).trans ?_
    exact (insertIds_perm _ _).symm

/-- Without an account that is gone, the ids are those on disk. -/
theorem Sound.same_ids {fleet : Fleet} (sound : fleet.Sound)
    {users : List Account} (distinct : (users.map Account.id).Nodup)
    (present : ¬ ∃ id ∈ fleet.active, id ∉ users.map Account.id) :
    ((fleet.handed ++ newUsers fleet.active users).map Account.id).Perm
      (users.map Account.id) := by
  have after := sound.pushed distinct
  have once := after.ids.nodup_iff.mpr (after.increasing.imp Nat.ne_of_lt)
  push Not at present
  apply (List.perm_ext_iff_of_nodup once distinct).mpr
  intro id
  rw [List.map_append, List.mem_append, sound.ids.mem_iff]
  constructor
  · rintro (handed | new)
    · exact present id handed
    · exact (List.filter_sublist.map Account.id).subset new
  · intro listed
    obtain ⟨user, member, rfl⟩ := List.mem_map.mp listed
    by_cases known : user.id ∈ fleet.active
    · exact .inl known
    · right
      apply List.mem_map_of_mem
      exact List.mem_filter.mpr ⟨member, by simpa using known⟩

theorem Sound.doReplace {fleet next : Fleet} (sound : fleet.Sound)
    {users : List Account} (distinct : (users.map Account.id).Nodup)
    (replaced : fleet.doReplace users = .ok next) : next.Sound := by
  by_cases fits : fleet.total < 2 ^ 64
  · by_cases threads : 0 < fleet.total
    · rw [doReplace_eq threads fits] at replaced
      cases replaced
      exact sound.replaced distinct
    · rw [doReplace_idle threads replaced]
      exact ⟨sound.size, sound.increasing, sound.ids⟩
  · unfold total at fits
    simp only [Fleet.doReplace, doReplaceUsers, totalThreads, if_neg fits, bind,
      Except.bind] at replaced
    cases replaced

end Fleet

/-- The strand of the server: its timer, `replace_users` of a client that sent
`initialize`, and connections that come, go and get threads. -/
inductive FleetEvent where
  | checkUsers (current : Option (List Account)) (fresh : List Account)
  | replaceUsers (fresh : List Account)
  | connections (remotes : List (Option ℕ))

namespace Fleet

/-- Readers list an account once. -/
inductive Step : Fleet → FleetEvent → Fleet → Prop
  | checkUsers {fleet next : Fleet} {current : Option (List Account)}
      {fresh : List Account}
      (listed : ∀ users ∈ current, (users.map Account.id).Nodup)
      (read : (fresh.map Account.id).Nodup)
      (checked : fleet.check current fresh = .ok next) :
      Step fleet (.checkUsers current fresh) next
  | replaceUsers {fleet next : Fleet} {fresh : List Account}
      (read : (fresh.map Account.id).Nodup)
      (replaced : fleet.doReplace fresh = .ok next) :
      Step fleet (.replaceUsers fresh) next
  | connections (fleet : Fleet) (remotes : List (Option ℕ)) :
      Step fleet (.connections remotes) { fleet with remotes := remotes }

theorem Sound.check {fleet next : Fleet} (sound : fleet.Sound)
    {current : Option (List Account)} {fresh : List Account}
    (listed : ∀ users ∈ current, (users.map Account.id).Nodup)
    (read : (fresh.map Account.id).Nodup)
    (checked : fleet.check current fresh = .ok next) : next.Sound := by
  have same := checked
  unfold Fleet.check at checked
  cases counted : countThreads fleet.remotes fleet.locals with
  | error =>
      rw [counted] at checked
      cases checked
  | ok threads =>
      rw [counted] at checked
      rcases threads with _ | _ | count
      · exact sound.doReplace read checked
      · cases checked
        exact sound
      · obtain ⟨all, fits⟩ := countThreads_counted sound.size counted
        have total : fleet.total = count + 1 := all.symm
        cases current with
        | none =>
            cases checked
            exact sound
        | some users =>
            rw [check_eq (by omega) (by omega) sound.increasing
              (listed users rfl)] at same
            cases same
            split
            · exact sound.replaced read
            · exact sound.pushed (listed users rfl)

theorem Step.sound {fleet next : Fleet} {event : FleetEvent}
    (sound : fleet.Sound) (step : Step fleet event next) : next.Sound := by
  cases step with
  | checkUsers listed read checked => exact sound.check listed read checked
  | replaceUsers read replaced => exact sound.doReplace read replaced
  | connections => exact ⟨sound.size, sound.increasing, sound.ids⟩

theorem start_sound {locals : ℕ} (size : locals < 2 ^ 64)
    {users : List Account} (distinct : (users.map Account.id).Nodup) :
    Sound (start locals users) where
  size := size
  increasing := by
    have sorted := List.pairwise_insertionSort (· ≤ ·) (users.map Account.id)
    have once := (List.perm_insertionSort (· ≤ ·) (users.map Account.id)).nodup_iff.mpr
      distinct
    exact sorted.imp₂ (fun _ _ => Nat.lt_of_le_of_ne) once
  ids := (List.perm_insertionSort (· ≤ ·) _).symm

section Runs

variable {locals : ℕ} {users : List Account} {events : List FleetEvent}
  {fleet : Fleet}

private theorem sound_of_run (size : locals < 2 ^ 64)
    (distinct : (users.map Account.id).Nodup)
    (run : Run Step (start locals users) events fleet) : fleet.Sound :=
  run.preserves Sound (fun _ _ _ sound step => step.sound sound)
    (start_sound size distinct)

/-- After every run of checks, replacements, and changes of the connections
`active_` lists, in increasing order, the accounts handed out so far.  The next
check hands out the accounts on disk that were not, or replaces all of them
when a connection is lost, an account is gone, or more than `replaceThreshold`
are new.  Either way every account on disk is handed out exactly once since
then. -/
theorem check_follows_disk (size : locals < 2 ^ 64)
    (distinct : (users.map Account.id).Nodup)
    (run : Run Step (start locals users) events fleet)
    (threads : 0 < fleet.total) (fits : fleet.total < 2 ^ 64)
    {current fresh : List Account}
    (listed : (current.map Account.id).Nodup)
    (read : (fresh.map Account.id).Nodup) :
    Increasing fleet.active ∧
      (fleet.handed.map Account.id).Perm fleet.active ∧
      ∃ next, fleet.check (some current) fresh = .ok next ∧
        Increasing next.active ∧
        (next.handed.map Account.id).Perm next.active ∧
        if fleet.Replaces current then next.handed = fresh
        else
          next.handed = fleet.handed ++ newUsers fleet.active current ∧
            (next.handed.map Account.id).Perm (current.map Account.id) := by
  have sound := sound_of_run size distinct run
  refine ⟨sound.increasing, sound.ids, ?_⟩
  rw [check_eq threads fits sound.increasing listed]
  by_cases replaces : fleet.Replaces current
  · have after := sound.replaced read
    simp only [if_pos replaces]
    exact ⟨_, rfl, after.increasing, after.ids, rfl⟩
  · have after := sound.pushed listed
    simp only [if_neg replaces]
    refine ⟨_, rfl, after.increasing, after.ids, rfl, ?_⟩
    exact sound.same_ids listed fun gone => replaces (.inr (.inl gone))

private def newcomer (id : AccountId) : Account :=
  ⟨id, 0, ⟨id, id⟩, id, 0, 0, 0, 0, .primary, 0⟩

private theorem not_replaced :
    ¬ Replaces ⟨1, [some 2], [1], [newcomer 1]⟩ [newcomer 1, newcomer 2] := by
  decide

/-- A queue has account 1, a scanner connects, and account 2 is new. -/
theorem check_follows_new_account :
    Increasing [1] ∧ ([newcomer 1].map Account.id).Perm [1] ∧
      ∃ next, check ⟨1, [some 2], [1], [newcomer 1]⟩
          (some [newcomer 1, newcomer 2]) [] = .ok next ∧
        next.handed = [newcomer 1, newcomer 2] := by
  have run : Run Step (start 1 [newcomer 1]) [.connections [some 2]]
      ⟨1, [some 2], [1], [newcomer 1]⟩ :=
    .cons (.connections _ _) (.nil _)
  obtain ⟨increasing, once, next, checked, -, -, handed⟩ :=
    @check_follows_disk 1 [newcomer 1] _ _ (by decide) (by decide) run
      (by decide) (by decide) [newcomer 1, newcomer 2] [] (by decide)
      (by decide)
  rw [if_neg not_replaced] at handed
  exact ⟨increasing, once, next, checked, handed.1⟩

end Runs

end Fleet

end XfoLws.Scanner
