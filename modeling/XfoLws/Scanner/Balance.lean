import Mathlib.Data.List.Range
import XfoLws.Scanner.Queue

/-!
# Balanced new accounts

With `balance_new_addresses` the loop of `check_users` pushes each new account
to a local queue that it selects by the published heights and user counts.
-/

namespace XfoLws.Scanner

open Db (BlockId)

/-! ## Selecting a queue -/

/-- The variables of the pass over the local queues. -/
structure BestThread where
  thread : ℕ
  height : BlockId
  count : ℕ
  foundBelowOrEqual : Bool
deriving DecidableEq, Repr

def BestThread.start : BestThread := ⟨0, 0, 2 ^ 64 - 1, false⟩

/-- The pass checks the queue with index `i`. -/
def BestThread.check (accountHeight : BlockId) (best : BestThread) (i : ℕ)
    (queue : Queue) : BestThread :=
  let height := queue.currentMinHeight
  let count := queue.userCount
  if height ≤ accountHeight then
    if best.foundBelowOrEqual = false ∨ best.height < height ∨
        (height = best.height ∧ count < best.count) then
      ⟨i, height, count, true⟩
    else best
  else if best.foundBelowOrEqual = false then
    -- a height of zero is a queue that was not found yet
    if best.height = 0 ∨ height < best.height ∨
        (height = best.height ∧ count < best.count) then
      { best with
        thread := i
        height := height
        count := count }
    else best
  else best

/-- The pass from the queue with index `i` on. -/
def checkQueues (accountHeight : BlockId) : BestThread → ℕ → List Queue → BestThread
  | best, _, [] => best
  | best, i, queue :: queues =>
      checkQueues accountHeight (best.check accountHeight i queue) (i + 1) queues

/-- A queue at or below the account's height that no other such queue
surpasses. -/
def BestBelow (accountHeight : BlockId) (queues : List Queue) (queue : Queue) : Prop :=
  queue.currentMinHeight ≤ accountHeight ∧
    ∀ other ∈ queues, other.currentMinHeight ≤ accountHeight →
      other.currentMinHeight < queue.currentMinHeight ∨
        (other.currentMinHeight = queue.currentMinHeight ∧
          queue.userCount ≤ other.userCount)

/-- With all queues above the account's height, a queue that none surpasses. -/
def BestAbove (accountHeight : BlockId) (queues : List Queue) (queue : Queue) : Prop :=
  ∀ other ∈ queues, accountHeight < other.currentMinHeight ∧
    (queue.currentMinHeight < other.currentMinHeight ∨
      (other.currentMinHeight = queue.currentMinHeight ∧
        queue.userCount ≤ other.userCount))

/-- The selection criteria of the documentation. -/
def Balanced (accountHeight : BlockId) (queues : List Queue) (thread : ℕ) : Prop :=
  ∃ queue, queues[thread]? = some queue ∧
    (BestBelow accountHeight queues queue ∨ BestAbove accountHeight queues queue)

section

variable {accountHeight : BlockId} {queue other : Queue} {queues seen : List Queue}
  {best : BestThread} {i : ℕ}

/-- What the pass holds of the queues it has checked. -/
structure Checked (accountHeight : BlockId) (seen : List Queue) (best : BestThread)
    (queue : Queue) : Prop where
  stored : seen[best.thread]? = some queue
  height : best.height = queue.currentMinHeight
  count : best.count = queue.userCount
  optimal : if best.foundBelowOrEqual then BestBelow accountHeight seen queue
    else BestAbove accountHeight seen queue

theorem bestBelow_append :
    BestBelow accountHeight (seen ++ [other]) queue ↔
      BestBelow accountHeight seen queue ∧
        (other.currentMinHeight ≤ accountHeight →
          other.currentMinHeight < queue.currentMinHeight ∨
            (other.currentMinHeight = queue.currentMinHeight ∧
              queue.userCount ≤ other.userCount)) := by
  simp only [BestBelow, List.forall_mem_append, List.forall_mem_singleton, and_assoc]

theorem bestAbove_append :
    BestAbove accountHeight (seen ++ [other]) queue ↔
      BestAbove accountHeight seen queue ∧
        (accountHeight < other.currentMinHeight ∧
          (queue.currentMinHeight < other.currentMinHeight ∨
            (other.currentMinHeight = queue.currentMinHeight ∧
              queue.userCount ≤ other.userCount))) := by
  simp only [BestAbove, List.forall_mem_append, List.forall_mem_singleton]

theorem Checked.keep (checked : Checked accountHeight seen best queue)
    (optimal : if best.foundBelowOrEqual then
        BestBelow accountHeight (seen ++ [other]) queue
      else BestAbove accountHeight (seen ++ [other]) queue) :
    Checked accountHeight (seen ++ [other]) best queue where
  stored := by
    have inside := (List.getElem?_eq_some_iff.mp checked.stored).1
    rw [List.getElem?_append_left inside, checked.stored]
  height := checked.height
  count := checked.count
  optimal := optimal

theorem checked_new {found : Bool}
    (optimal : if found then BestBelow accountHeight (seen ++ [other]) other
      else BestAbove accountHeight (seen ++ [other]) other) :
    Checked accountHeight (seen ++ [other])
      ⟨seen.length, other.currentMinHeight, other.userCount, found⟩ other where
  stored := by simp
  height := rfl
  count := rfl
  optimal := optimal

/-- A queue at or below the account's height. -/
theorem Checked.step_below (checked : Checked accountHeight seen best queue)
    (below : other.currentMinHeight ≤ accountHeight) :
    ∃ next, Checked accountHeight (seen ++ [other])
      (best.check accountHeight seen.length other) next := by
  have height := checked.height
  have count := checked.count
  have optimal := checked.optimal
  unfold BestThread.check
  rw [if_pos below]
  split
  · rename_i better
    refine ⟨other, checked_new (bestBelow_append.mpr ⟨⟨below, ?_⟩, ?_⟩)⟩
    · intro seenQueue member beneath
      cases found : best.foundBelowOrEqual with
      | false =>
          rw [found, if_neg Bool.false_ne_true] at optimal
          exact absurd (optimal seenQueue member).1 (not_lt.mpr beneath)
      | true =>
          rw [found, if_pos rfl] at optimal
          rw [found, height, count] at better
          have surpassed := optimal.2 seenQueue member beneath
          simp only [Bool.true_eq_false, false_or] at better
          lia
    · exact fun _ => .inr ⟨rfl, le_rfl⟩
  · rename_i worse
    cases found : best.foundBelowOrEqual with
    | false => exact absurd (.inl found) worse
    | true =>
        rw [found, height, count] at worse
        rw [found, if_pos rfl] at optimal
        refine ⟨queue, checked.keep ?_⟩
        rw [found, if_pos rfl, bestBelow_append]
        refine ⟨optimal, fun _ => ?_⟩
        simp only [Bool.true_eq_false, false_or] at worse
        lia

/-- A queue above the account's height only counts with others above it. -/
theorem Checked.step_above (checked : Checked accountHeight seen best queue)
    (above : ¬ other.currentMinHeight ≤ accountHeight) :
    ∃ next, Checked accountHeight (seen ++ [other])
      (best.check accountHeight seen.length other) next := by
  have height := checked.height
  have count := checked.count
  have optimal := checked.optimal
  unfold BestThread.check
  rw [if_neg above]
  cases found : best.foundBelowOrEqual with
  | true =>
      rw [if_neg (by simp)]
      refine ⟨queue, checked.keep ?_⟩
      rw [found, if_pos rfl] at optimal ⊢
      exact bestBelow_append.mpr ⟨optimal, fun below => absurd below above⟩
  | false =>
      rw [found, if_neg Bool.false_ne_true] at optimal
      have member : queue ∈ seen := List.mem_of_getElem? checked.stored
      -- so the height is not the one that means no queue
      have positive := (optimal queue member).1
      rw [if_pos rfl]
      split
      · rename_i better
        refine ⟨other, checked_new ?_⟩
        rw [if_neg Bool.false_ne_true, bestAbove_append]
        refine ⟨?_, not_le.mp above, .inr ⟨rfl, le_rfl⟩⟩
        intro seenQueue seenMember
        rw [height, count] at better
        have surpassed := optimal seenQueue seenMember
        refine ⟨surpassed.1, ?_⟩
        lia
      · rename_i worse
        refine ⟨queue, checked.keep ?_⟩
        rw [found, if_neg Bool.false_ne_true, bestAbove_append]
        rw [height, count] at worse
        refine ⟨optimal, not_le.mp above, ?_⟩
        lia

theorem Checked.step (checked : Checked accountHeight seen best queue)
    (other : Queue) :
    ∃ next, Checked accountHeight (seen ++ [other])
      (best.check accountHeight seen.length other) next := by
  by_cases below : other.currentMinHeight ≤ accountHeight
  · exact checked.step_below below
  · exact checked.step_above below

theorem Checked.run (checked : Checked accountHeight seen best queue)
    (queues : List Queue) :
    ∃ next, Checked accountHeight (seen ++ queues)
      (checkQueues accountHeight best seen.length queues) next := by
  induction queues generalizing seen best queue with
  | nil => exact ⟨queue, by simpa [checkQueues] using checked⟩
  | cons other queues induction =>
      obtain ⟨next, stepped⟩ := checked.step other
      have rest := induction stepped
      rw [List.length_append, List.append_assoc] at rest
      exact rest

end

/-! ## All accounts -/

end XfoLws.Scanner
