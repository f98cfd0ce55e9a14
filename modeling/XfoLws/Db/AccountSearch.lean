import XfoLws.Db.ScanAccount
import XfoLws.Lib.LowerBound
import XfoLws.Lib.Outcome

/-!
# Search vectors of an account

The vectors of `lws::account` as the code searches and changes them.  They are
those of an `LwsAccount`, so they are sorted in every state that is reached.
-/

namespace XfoLws

open Db

/-! ## The vectors -/

/-- The members of `lws::account`. -/
structure AccountVectors where
  immutable : LwsAccount.Internal
  spendable : List (OutputId × AddressIndex)
  pubs : List PublicKey
  spends : List Spend
  outputs : List Output
  height : BlockId
deriving DecidableEq

namespace AccountVectors

/-- The constructor from a stored account, which sorts both vectors. -/
def ofSource (addressString : AccountAddress → List (Fin 256)) (source : Db.Account)
    (spendable : List (OutputId × AddressIndex)) (pubs : List PublicKey) :
    AccountVectors where
  immutable := ⟨addressString source.address, source.id, source.address, source.key⟩
  spendable := spendable.insertionSort SpendableLe
  pubs := pubs.insertionSort (· ≤ ·)
  spends := []
  outputs := []
  height := source.scanHeight

/-- `account::clone`, by the constructor that does not sort. -/
def clone (account : AccountVectors) : AccountVectors where
  immutable := account.immutable
  spendable := account.spendable
  pubs := account.pubs
  spends := account.spends
  outputs := account.outputs
  height := account.height

def updated (account : AccountVectors) (newHeight : BlockId) : AccountVectors :=
  { account with
    height := max account.height newHeight
    spends := []
    outputs := [] }

/-- `std::lower_bound` in the spendable outputs. -/
def searchSpendable (account : AccountVectors) (wanted : OutputId × AddressIndex) : ℕ :=
  LowerBound.position (fun row => spendableKey row < spendableKey wanted)
    account.spendable

def getSpendable (account : AccountVectors) (id : OutputId) : Option AddressIndex :=
  match account.spendable[account.searchSpendable (id, .primary)]? with
  | none => none
  | some row => if row.1 ≠ id then none else some row.2

def addOut (account : AccountVectors) (out : Output) : AccountVectors × Bool :=
  let existingPub := LowerBound.position (· < out.pub) account.pubs
  if account.pubs[existingPub]? = some out.pub then (account, false)
  else
    let spendableValue := (out.spendMeta.id, out.recipient)
    ({ account with
      pubs := account.pubs.insertIdx existingPub out.pub
      spendable := account.spendable.insertIdx
        (account.searchSpendable spendableValue) spendableValue
      outputs := account.outputs ++ [out] }, true)

def addSpend (account : AccountVectors) (spend : Spend) : AccountVectors :=
  { account with spends := account.spends ++ [spend] }

end AccountVectors

/-! ## The sorted account behind them -/

namespace LwsAccount

/-- The vectors of a sorted account. -/
def vectors (user : LwsAccount) : AccountVectors where
  immutable := user.immutable
  spendable := user.spendable
  pubs := user.pubs
  spends := user.spends
  outputs := user.outputs
  height := user.height

theorem vectors_ofSource (addressString : AccountAddress → List (Fin 256))
    (source : Db.Account) (spendable : List (OutputId × AddressIndex))
    (pubs : List PublicKey) :
    (ofSource addressString source spendable pubs).vectors =
      .ofSource addressString source spendable pubs := rfl

theorem vectors_getSpendable (user : LwsAccount) (id : OutputId) :
    user.vectors.getSpendable id = user.getSpendable id := by
  have partitioned := LowerBound.partitioned_of_le
    user.spendableSorted (spendableKey (id, .primary))
  have found := partitioned.getElem?_position
  unfold AccountVectors.getSpendable getSpendable
  rw [AccountVectors.searchSpendable, vectors, found]
  cases user.spendable.dropWhile fun row =>
      spendableKey row < spendableKey (id, .primary) with
  | nil => rfl
  | cons row rows => rfl

/-- Searching and inserting by halving is inserting in order. -/
theorem vectors_addOut (user : LwsAccount) (out : Output) :
    user.vectors.addOut out = ((user.addOut out).1.vectors, (user.addOut out).2) := by
  have pubs : LowerBound.Partitioned (· < out.pub) user.pubs :=
    @LowerBound.partitioned_of_le _ _ _ (fun pub => pub) _ user.pubsSorted out.pub
  have insertedPub : user.pubs.insertIdx (LowerBound.position (· < out.pub) user.pubs)
      out.pub = user.pubs.orderedInsert (· ≤ ·) out.pub :=
    @LowerBound.insertIdx_position_eq _ _ _ (fun pub => pub) _ user.pubsSorted out.pub
  have insertedRow := LowerBound.insertIdx_position_eq user.spendableSorted
    (out.spendMeta.id, out.recipient)
  unfold AccountVectors.addOut addOut
  simp only [vectors, AccountVectors.searchSpendable, pubs.getElem?_position]
  split
  · rfl
  · rw [insertedPub, insertedRow]
    rfl

/-! ### Looking up an output -/

/-- The primary index is the smallest recipient. -/
theorem spendableKey_primary_le (row : OutputId × AddressIndex) :
    spendableKey (row.1, .primary) ≤ spendableKey row := by
  obtain ⟨⟨high, low⟩, major, minor⟩ := row
  simp only [spendableKey, AddressIndex.primary, Prod.Lex.toLex_le_toLex, true_and]
  omega

theorem id_eq_of_between {id : OutputId} {row last : OutputId × AddressIndex}
    (above : spendableKey (id, .primary) ≤ spendableKey row)
    (below : spendableKey row ≤ spendableKey last) (same : last.1 = id) :
    row.1 = id := by
  obtain ⟨⟨high, low⟩, major, minor⟩ := row
  obtain ⟨⟨lastHigh, lastLow⟩, lastMajor, lastMinor⟩ := last
  subst same
  simp only [spendableKey, AddressIndex.primary, Prod.Lex.toLex_le_toLex] at above below
  simp only [OutputId.mk.injEq]
  omega

theorem mem_of_getSpendable {user : LwsAccount} {id : OutputId}
    {recipient : AddressIndex} (found : user.getSpendable id = some recipient) :
    (id, recipient) ∈ user.spendable := by
  unfold getSpendable at found
  split at found
  · cases found
  · rename_i row rows dropped
    split at found
    · cases found
    · rename_i same
      obtain rfl := not_not.mp same
      cases found
      have member : row ∈ user.spendable.dropWhile fun other =>
          spendableKey other < spendableKey (row.1, .primary) := by
        rw [dropped]
        exact List.mem_cons_self
      exact (List.dropWhile_sublist _).mem member

theorem getSpendable_of_mem {user : LwsAccount} {row : OutputId × AddressIndex}
    (member : row ∈ user.spendable) :
    ∃ recipient, user.getSpendable row.1 = some recipient := by
  have least := spendableKey_primary_le row
  have sorted := user.spendableSorted
  have kept : row ∈ user.spendable.dropWhile fun other =>
      spendableKey other < spendableKey (row.1, .primary) := by
    rw [← List.takeWhile_append_dropWhile (p := fun other =>
      decide (spendableKey other < spendableKey (row.1, .primary))) (l := user.spendable),
      List.mem_append] at member
    refine member.resolve_left fun skipped => ?_
    have less := List.mem_takeWhile_imp skipped
    exact absurd (of_decide_eq_true less) (not_lt.mpr least)
  unfold getSpendable
  cases dropped : user.spendable.dropWhile fun other =>
      spendableKey other < spendableKey (row.1, .primary) with
  | nil =>
      rw [dropped] at kept
      cases kept
  | cons first rows =>
      have ordered : (first :: rows).Pairwise SpendableLe :=
        dropped ▸ sorted.sublist (List.dropWhile_sublist _)
      have reached : spendableKey (row.1, .primary) ≤ spendableKey first := by
        have stopped := List.head?_dropWhile_not
          (fun other => decide (spendableKey other < spendableKey (row.1, .primary)))
          user.spendable
        rw [dropped] at stopped
        simpa using stopped
      have below : spendableKey first ≤ spendableKey row := by
        rw [dropped] at kept
        rcases List.mem_cons.mp kept with rfl | later
        · exact le_rfl
        · exact (List.pairwise_cons.mp ordered).1 row later
      have same := id_eq_of_between reached below rfl
      exact ⟨first.2, by simp [same]⟩

end LwsAccount

/-! ## Runs over an account and its clones -/

/-- An account with the outputs it accepted, or an account it is a clone of
did. -/
structure TrackedAccount where
  account : AccountVectors
  accepted : List Output

/-- The entry of `spendable_` for an output. -/
def Db.Output.spendableRow (out : Output) : OutputId × AddressIndex :=
  (out.spendMeta.id, out.recipient)

def TrackedAccount.addOut (tracked : TrackedAccount) (out : Output) : TrackedAccount :=
  ⟨(tracked.account.addOut out).1,
    if (tracked.account.addOut out).2 then tracked.accepted ++ [out]
    else tracked.accepted⟩

/-- A call to one of the accounts. -/
inductive AccountCall where
  | addOut (index : ℕ) (out : Output) (added : Bool)
  | addSpend (index : ℕ) (spend : Spend)
  | updated (index : ℕ) (newHeight : BlockId)
  | clone (index : ℕ)

inductive AccountStep :
    List TrackedAccount → AccountCall → List TrackedAccount → Prop where
  | addOut {accounts : List TrackedAccount} {index : ℕ} {tracked : TrackedAccount}
      (here : accounts[index]? = some tracked) (out : Output) :
      AccountStep accounts (.addOut index out (tracked.account.addOut out).2)
        (accounts.set index (tracked.addOut out))
  | addSpend {accounts : List TrackedAccount} {index : ℕ} {tracked : TrackedAccount}
      (here : accounts[index]? = some tracked) (spend : Spend) :
      AccountStep accounts (.addSpend index spend)
        (accounts.set index
          { tracked with account := tracked.account.addSpend spend })
  | updated {accounts : List TrackedAccount} {index : ℕ} {tracked : TrackedAccount}
      (here : accounts[index]? = some tracked) (newHeight : BlockId) :
      AccountStep accounts (.updated index newHeight)
        (accounts.set index
          { tracked with account := tracked.account.updated newHeight })
  | clone {accounts : List TrackedAccount} {index : ℕ} {tracked : TrackedAccount}
      (here : accounts[index]? = some tracked) :
      AccountStep accounts (.clone index)
        (accounts ++ [{ tracked with account := tracked.account.clone }])

section Runs

variable {spendable : List (OutputId × AddressIndex)} {pubs : List PublicKey}
  {tracked : TrackedAccount}

/-- The vectors hold what the account was built from and what was accepted. -/
structure TrackedAccount.Indexed (spendable : List (OutputId × AddressIndex))
    (pubs : List PublicKey) (tracked : TrackedAccount) : Prop where
  user : ∃ user : LwsAccount, user.vectors = tracked.account
  rows : tracked.account.spendable.Perm
    (spendable ++ tracked.accepted.map Output.spendableRow)
  keys : tracked.account.pubs.Perm (pubs ++ tracked.accepted.map Output.pub)
  distinct : tracked.account.pubs.Nodup

theorem LwsAccount.addOut_seen {user : LwsAccount} {out : Output}
    (seen : out.pub ∈ user.pubs) : user.addOut out = (user, false) := by
  rw [LwsAccount.addOut, if_pos (LwsAccount.addOut_taken.mpr seen)]

theorem LwsAccount.addOut_new {user : LwsAccount} {out : Output}
    (new : out.pub ∉ user.pubs) :
    (user.addOut out).2 = true ∧
      (user.addOut out).1.pubs.Perm (user.pubs ++ [out.pub]) ∧
      (user.addOut out).1.spendable.Perm (user.spendable ++ [out.spendableRow]) := by
  have free : ¬ (user.pubs.dropWhile (· < out.pub)).head? = some out.pub :=
    fun taken => new (LwsAccount.addOut_taken.mp taken)
  rw [LwsAccount.addOut, if_neg free]
  refine ⟨rfl, ?_, ?_⟩
  · exact (List.perm_orderedInsert _ _ _).trans (List.perm_append_singleton _ _).symm
  · exact (List.perm_orderedInsert _ _ _).trans (List.perm_append_singleton _ _).symm

theorem TrackedAccount.Indexed.addOut (indexed : tracked.Indexed spendable pubs)
    (out : Output) : (tracked.addOut out).Indexed spendable pubs := by
  obtain ⟨account, accepted⟩ := tracked
  obtain ⟨⟨user, rfl⟩, rows, keys, distinct⟩ := indexed
  have called := user.vectors_addOut out
  by_cases seen : out.pub ∈ user.pubs
  · rw [LwsAccount.addOut_seen seen] at called
    have same : TrackedAccount.addOut ⟨user.vectors, accepted⟩ out =
        ⟨user.vectors, accepted⟩ := by
      simp [TrackedAccount.addOut, called]
    rw [same]
    exact ⟨⟨user, rfl⟩, rows, keys, distinct⟩
  · obtain ⟨added, newPubs, newRows⟩ := LwsAccount.addOut_new seen
    have next : TrackedAccount.addOut ⟨user.vectors, accepted⟩ out =
        ⟨(user.addOut out).1.vectors, accepted ++ [out]⟩ := by
      simp [TrackedAccount.addOut, called, added]
    rw [next]
    refine ⟨⟨_, rfl⟩, ?_, ?_, ?_⟩
    · rw [List.map_append, ← List.append_assoc]
      exact newRows.trans (rows.append_right _)
    · rw [List.map_append, ← List.append_assoc]
      exact newPubs.trans (keys.append_right _)
    · refine newPubs.nodup_iff.mpr (List.nodup_append'.mpr ⟨distinct, by simp, ?_⟩)
      simpa using seen

/-- The other calls keep both vectors. -/
theorem TrackedAccount.Indexed.other (indexed : tracked.Indexed spendable pubs)
    (user : LwsAccount)
    (rows : user.spendable = tracked.account.spendable)
    (keys : user.pubs = tracked.account.pubs) :
    TrackedAccount.Indexed spendable pubs ⟨user.vectors, tracked.accepted⟩ := by
  refine ⟨⟨user, rfl⟩, ?_, ?_, ?_⟩
  · exact (List.Perm.of_eq rows).trans indexed.rows
  · exact (List.Perm.of_eq keys).trans indexed.keys
  · exact (List.Perm.of_eq keys).nodup_iff.mpr indexed.distinct

theorem AccountStep.indexed {accounts next : List TrackedAccount} {call : AccountCall}
    (all : ∀ tracked ∈ accounts, tracked.Indexed spendable pubs)
    (step : AccountStep accounts call next) :
    ∀ tracked ∈ next, tracked.Indexed spendable pubs := by
  have atSet {index : ℕ} {changed : TrackedAccount}
      (indexed : changed.Indexed spendable pubs) :
      ∀ tracked ∈ accounts.set index changed, tracked.Indexed spendable pubs := by
    intro tracked member
    rcases List.mem_or_eq_of_mem_set member with old | rfl
    · exact all tracked old
    · exact indexed
  cases step with
  | addOut here out =>
      exact atSet ((all _ (List.mem_of_getElem? here)).addOut out)
  | addSpend here spend =>
      have indexed := all _ (List.mem_of_getElem? here)
      obtain ⟨user, same⟩ := indexed.user
      rw [← same]
      exact atSet (indexed.other (user.addSpend spend)
        (congrArg (·.spendable) same) (congrArg (·.pubs) same))
  | updated here newHeight =>
      have indexed := all _ (List.mem_of_getElem? here)
      obtain ⟨user, same⟩ := indexed.user
      rw [← same]
      exact atSet (indexed.other (user.updated newHeight)
        (congrArg (·.spendable) same) (congrArg (·.pubs) same))
  | clone here =>
      intro tracked member
      rcases List.mem_append.mp member with old | cloned
      · exact all tracked old
      · rw [List.mem_singleton.mp cloned]
        exact all _ (List.mem_of_getElem? here)

theorem TrackedAccount.indexed_ofSource
    (addressString : AccountAddress → List (Fin 256)) (source : Db.Account)
    (spendable : List (OutputId × AddressIndex)) (distinct : pubs.Nodup) :
    TrackedAccount.Indexed spendable pubs
      ⟨.ofSource addressString source spendable pubs, []⟩ := by
  refine ⟨⟨_, LwsAccount.vectors_ofSource addressString source spendable pubs⟩, ?_, ?_, ?_⟩
  · rw [List.map_nil, List.append_nil]
    exact List.perm_insertionSort SpendableLe spendable
  · rw [List.map_nil, List.append_nil]
    exact List.perm_insertionSort (· ≤ ·) pubs
  · exact (List.perm_insertionSort (· ≤ ·) pubs).nodup_iff.mpr distinct

theorem TrackedAccount.Indexed.strictly (indexed : tracked.Indexed spendable pubs) :
    tracked.account.pubs.Pairwise (· < ·) := by
  obtain ⟨user, same⟩ := indexed.user
  have sorted : tracked.account.pubs.Pairwise (· ≤ ·) := same ▸ user.pubsSorted
  exact sorted.imp₂ (fun _ _ below different => lt_of_le_of_ne below different)
    indexed.distinct

theorem TrackedAccount.Indexed.sorted (indexed : tracked.Indexed spendable pubs) :
    tracked.account.spendable.Pairwise SpendableLe := by
  obtain ⟨user, same⟩ := indexed.user
  exact same ▸ user.spendableSorted

theorem TrackedAccount.Indexed.getSpendable_mem
    (indexed : tracked.Indexed spendable pubs) {id : OutputId}
    {recipient : AddressIndex}
    (found : tracked.account.getSpendable id = some recipient) :
    (id, recipient) ∈ spendable ++ tracked.accepted.map Output.spendableRow := by
  obtain ⟨user, same⟩ := indexed.user
  rw [← same, LwsAccount.vectors_getSpendable] at found
  apply indexed.rows.mem_iff.mp
  rw [← same]
  exact LwsAccount.mem_of_getSpendable found

theorem TrackedAccount.Indexed.getSpendable_of_mem
    (indexed : tracked.Indexed spendable pubs) {row : OutputId × AddressIndex}
    (member : row ∈ spendable ++ tracked.accepted.map Output.spendableRow) :
    ∃ recipient, tracked.account.getSpendable row.1 = some recipient := by
  obtain ⟨user, same⟩ := indexed.user
  have stored := indexed.rows.mem_iff.mpr member
  rw [← same] at stored ⊢
  rw [LwsAccount.vectors_getSpendable]
  exact LwsAccount.getSpendable_of_mem stored

theorem TrackedAccount.Indexed.addOut_seen
    (indexed : tracked.Indexed spendable pubs) {out : Output}
    (seen : out.pub ∈ pubs ++ tracked.accepted.map Output.pub) :
    tracked.account.addOut out = (tracked.account, false) := by
  obtain ⟨user, same⟩ := indexed.user
  have stored := indexed.keys.mem_iff.mpr seen
  rw [← same] at stored ⊢
  rw [LwsAccount.vectors_addOut, LwsAccount.addOut_seen stored]

theorem TrackedAccount.Indexed.addOut_unseen
    (indexed : tracked.Indexed spendable pubs) {out : Output}
    (unseen : out.pub ∉ pubs ++ tracked.accepted.map Output.pub) :
    (tracked.account.addOut out).2 = true := by
  obtain ⟨user, same⟩ := indexed.user
  have new : out.pub ∉ tracked.account.pubs :=
    fun stored => unseen (indexed.keys.mem_iff.mp stored)
  rw [← same] at new ⊢
  rw [LwsAccount.vectors_addOut]
  exact (LwsAccount.addOut_new new).1

end Runs

/-- In every state that the calls reach, the keys are strictly increasing, the
outputs sorted, a lookup finds an output of the id exactly when there is one,
a key that was seen changes nothing and any other key is accepted. -/
theorem spendable_index_exact (addressString : AccountAddress → List (Fin 256))
    (source : Db.Account) (spendable : List (OutputId × AddressIndex))
    (pubs : List PublicKey) (distinct : pubs.Nodup)
    {calls : List AccountCall} {accounts : List TrackedAccount}
    (run : Run AccountStep [⟨.ofSource addressString source spendable pubs, []⟩] calls
      accounts) :
    ∀ tracked ∈ accounts,
      tracked.account.pubs.Pairwise (· < ·) ∧
      tracked.account.spendable.Pairwise SpendableLe ∧
      (∀ id, (∃ recipient, tracked.account.getSpendable id = some recipient) ↔
        ∃ row ∈ spendable ++ tracked.accepted.map Output.spendableRow, row.1 = id) ∧
      (∀ id recipient, tracked.account.getSpendable id = some recipient →
        (id, recipient) ∈ spendable ++ tracked.accepted.map Output.spendableRow) ∧
      (∀ out : Output, out.pub ∈ pubs ++ tracked.accepted.map Output.pub →
        tracked.account.addOut out = (tracked.account, false)) ∧
      ∀ out : Output, out.pub ∉ pubs ++ tracked.accepted.map Output.pub →
        (tracked.account.addOut out).2 = true := by
  have start : ∀ tracked ∈ [(⟨.ofSource addressString source spendable pubs, []⟩ :
      TrackedAccount)], tracked.Indexed spendable pubs := by
    intro tracked member
    rw [List.mem_singleton.mp member]
    exact TrackedAccount.indexed_ofSource addressString source spendable distinct
  have reached := run.preserves _ (fun _ _ _ all step => step.indexed all) start
  intro tracked member
  have indexed := reached tracked member
  refine ⟨indexed.strictly, indexed.sorted, ?_, ?_, ?_, ?_⟩
  · intro id
    constructor
    · rintro ⟨recipient, found⟩
      exact ⟨_, indexed.getSpendable_mem found, rfl⟩
    · rintro ⟨row, listed, rfl⟩
      exact indexed.getSpendable_of_mem listed
  · intro id recipient found
    exact indexed.getSpendable_mem found
  · intro out seen
    exact indexed.addOut_seen seen
  · intro out unseen
    exact indexed.addOut_unseen unseen

def sampleSource : Db.Account :=
  ⟨1, 0, ⟨2, 3⟩, 4, 10, 10, 0, 0, .primary, 0⟩

def sampleTracked : TrackedAccount :=
  ⟨.ofSource (fun _ => []) sampleSource [(⟨0, 7⟩, ⟨0, 1⟩)] [30, 5], []⟩

/-- The clone of an account that received an output rejects it too, and takes
one with another key. -/
theorem clone_rejects_received :
    let clone := (sampleTracked.addOut sampleReceived).account.clone
    clone.getSpendable ⟨0, 6⟩ = some ⟨0, 3⟩ ∧
      clone.addOut sampleReceived = (clone, false) ∧
      (clone.addOut { sampleReceived with pub := 31 }).2 = true := by
  let received := sampleTracked.addOut sampleReceived
  have added : AccountStep [sampleTracked]
      (.addOut 0 sampleReceived (sampleTracked.account.addOut sampleReceived).2)
      [received] := .addOut rfl sampleReceived
  have cloned : AccountStep [received] (.clone 0)
      [received, ⟨received.account.clone, received.accepted⟩] := .clone rfl
  obtain ⟨-, -, -, -, seen, unseen⟩ :=
    spendable_index_exact (fun _ => []) sampleSource
      [(⟨0, 7⟩, ⟨0, 1⟩)] [30, 5] (by decide)
      (.cons added (.cons cloned (.nil _)))
      ⟨received.account.clone, received.accepted⟩ (by simp)
  refine ⟨by decide, seen sampleReceived (by decide), ?_⟩
  exact unseen { sampleReceived with pub := 31 } (by decide)

end XfoLws
