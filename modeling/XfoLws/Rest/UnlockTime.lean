import XfoLws.Rest.WalletRows

/-!
# Unlock times on machine integers

`blocks_until_unlocked` mixes unsigned heights with signed seconds.  It is
written once over an arithmetic: that of the machine, that of the integers, and
one that stops where the two differ.
-/

namespace XfoLws.Rest

open Db (BlockId)

/-- What becomes of the result of an operation on 64-bit integers. -/
structure Arithmetic (m : Type → Type) where
  signed : ℤ → m ℤ
  unsigned : ℤ → m ℤ

namespace Arithmetic

def wrapping : Arithmetic Id :=
  ⟨fun value => value.bmod (2 ^ 64), fun value => value % 2 ^ 64⟩

/-- A result that does not fit ends the computation. -/
def checked : Arithmetic Option :=
  ⟨fun value =>
      if -2 ^ 63 ≤ value ∧ value < 2 ^ 63 then some value else none,
    fun value => if 0 ≤ value ∧ value < 2 ^ 64 then some value else none⟩

theorem checked_signed {value result : ℤ} :
    checked.signed value = some result ↔
      (-2 ^ 63 ≤ value ∧ value < 2 ^ 63) ∧ value = result := by
  simp [checked]

theorem checked_unsigned {value result : ℤ} :
    checked.unsigned value = some result ↔
      (0 ≤ value ∧ value < 2 ^ 64) ∧ value = result := by
  simp [checked]

theorem wrapping_signed {value : ℤ}
    (fits : -2 ^ 63 ≤ value ∧ value < 2 ^ 63) :
    wrapping.signed value = value := by
  show value.bmod (2 ^ 64) = value
  rw [Int.bmod_def]
  split <;> omega

theorem wrapping_unsigned {value : ℤ} (fits : 0 ≤ value ∧ value < 2 ^ 64) :
    wrapping.unsigned value = value :=
  Int.emod_eq_of_lt fits.1 fits.2

/-- Ticks of `system_clock` in a second. -/
def nanoseconds : ℤ := 10 ^ 9

section Machine

variable {m : Type → Type} [Monad m] (machine : Arithmetic m)
  (rules : LockRules)

/-- The branch of `blocks_until_unlocked` for timestamps. -/
def untilTimestamp (now : ℤ) (unlockTime : ℕ) : m ℤ := do
  let sum ← machine.signed (now + rules.allowedDeltaSeconds * nanoseconds)
  let allowed := sum.tdiv nanoseconds
  let unlockSeconds ← machine.signed unlockTime
  if unlockSeconds ≤ allowed then pure 0
  else do
    let delta ← machine.signed (unlockSeconds - allowed)
    let raised ← machine.signed (delta + rules.difficultyTarget)
    let rounded ← machine.signed (raised - 1)
    let blocks ← machine.unsigned (rounded.tdiv rules.difficultyTarget)
    pure (max 1 blocks)

def allowedHeight (last : BlockId) : m ℤ :=
  if last = 0 then pure 0
  else do
    let previous ← machine.unsigned (last - 1)
    machine.unsigned (previous + rules.allowedDeltaBlocks)

/-- The branch of `blocks_until_unlocked` for heights. -/
def untilHeight (unlockTime : ℕ) (last txHeight : BlockId) : m ℤ := do
  let allowed ← machine.allowedHeight rules last
  if allowed < unlockTime then machine.unsigned (unlockTime - allowed)
  else do
    let spendableHeight ← machine.unsigned (txHeight + rules.spendableAge)
    if spendableHeight ≤ last then pure 0
    else machine.unsigned (spendableHeight - last)

/-- `blocks_until_unlocked`; `now` is `system_clock::now()`. -/
def blocksUntilUnlocked (now : ℤ) (unlockTime : ℕ) (last txHeight : BlockId) :
    m ℤ :=
  if rules.maxBlockNumber < unlockTime then
    machine.untilTimestamp rules now unlockTime
  else machine.untilHeight rules unlockTime last txHeight

end Machine

end Arithmetic

section Readings

variable (rules : LockRules)

/-- The result of `blocks_until_unlocked` on the machine. -/
def LockRules.blocksUntilUnlocked (now : ℤ) (unlockTime : ℕ)
    (last txHeight : BlockId) : ℤ :=
  Id.run (Arithmetic.wrapping.blocksUntilUnlocked rules now unlockTime last
    txHeight)

/-- `is_locked`. -/
def LockRules.isLocked (now : ℤ) (unlockTime : ℕ) (last txHeight : BlockId) :
    Bool :=
  rules.blocksUntilUnlocked now unlockTime last txHeight ≠ 0

/-- No result on the way changes its sign or wraps. -/
def LockRules.NothingWraps (now : ℤ) (unlockTime : ℕ)
    (last txHeight : BlockId) : Prop :=
  (Arithmetic.checked.blocksUntilUnlocked rules now unlockTime last
    txHeight).isSome

/-- The time up to which outputs are unlocked, in nanoseconds. -/
def LockRules.allowedTime (now : ℤ) : ℤ :=
  now + rules.allowedDeltaSeconds * Arithmetic.nanoseconds

def LockRules.allowedSeconds (now : ℤ) : ℤ :=
  (rules.allowedTime now).tdiv Arithmetic.nanoseconds

/-- The height up to which outputs are unlocked. -/
def LockRules.allowedHeight (last : BlockId) : ℕ :=
  if last = 0 then 0 else last - 1 + rules.allowedDeltaBlocks

/-- The blocks to wait for a number of seconds. -/
def LockRules.blocksFor (seconds : ℤ) : ℤ :=
  max 1 ((seconds + rules.difficultyTarget - 1).tdiv rules.difficultyTarget)

end Readings

variable {rules : LockRules} {now : ℤ} {unlockTime : ℕ} {last txHeight : BlockId}

theorem le_allowedSeconds {seconds : ℤ} (positive : 0 < seconds) :
    seconds ≤ rules.allowedSeconds now ↔
      seconds * Arithmetic.nanoseconds ≤ rules.allowedTime now := by
  unfold LockRules.allowedSeconds Arithmetic.nanoseconds
  generalize rules.allowedTime now = ticks
  by_cases early : ticks < 0
  · have before : ticks.tdiv (10 ^ 9) ≤ 0 := by
      rw [← neg_neg ticks, Int.neg_tdiv]
      have := Int.tdiv_nonneg (a := -ticks) (b := 10 ^ 9) (by omega) (by decide)
      omega
    omega
  · rw [Int.tdiv_eq_ediv_of_nonneg (not_lt.mp early)]
    omega

namespace Arithmetic

/-! ## Timestamps -/

/-- The results that a timestamp leads to fit. -/
structure TimestampFits (rules : LockRules) (now : ℤ) (unlockTime : ℕ) :
    Prop where
  sum : rules.allowedTime now < 2 ^ 63
  seconds : unlockTime < 2 ^ 63
  wait : rules.allowedSeconds now < unlockTime →
    unlockTime - rules.allowedSeconds now + rules.difficultyTarget <
      (2 ^ 63 : ℤ)

def timestampWait (rules : LockRules) (now : ℤ) (unlockTime : ℕ) : ℤ :=
  if (unlockTime : ℤ) ≤ rules.allowedSeconds now then 0
  else rules.blocksFor (unlockTime - rules.allowedSeconds now)

theorem untilTimestamp_checked (clock : -2 ^ 63 ≤ now) {result : ℤ} :
    checked.untilTimestamp rules now unlockTime = some result ↔
      TimestampFits rules now unlockTime ∧
        timestampWait rules now unlockTime = result := by
  have later : -2 ^ 63 ≤ rules.allowedTime now := by
    unfold LockRules.allowedTime nanoseconds
    omega
  have whole : (now + rules.allowedDeltaSeconds * nanoseconds).tdiv
      nanoseconds = rules.allowedSeconds now := rfl
  unfold untilTimestamp timestampWait
  simp only [Option.bind_eq_bind, Option.bind_eq_some_iff, checked_signed]
  constructor
  · rintro ⟨_, ⟨sumFits, rfl⟩, _, ⟨secondsFit, rfl⟩, rest⟩
    rw [whole] at rest
    split at rest
    · rename_i reached
      rw [if_pos reached]
      exact ⟨⟨sumFits.2, by omega, by omega⟩, Option.some.inj rest⟩
    · rename_i waiting
      rw [if_neg waiting]
      simp only [Option.bind_eq_some_iff, checked_signed,
        checked_unsigned] at rest
      obtain ⟨_, ⟨deltaFits, rfl⟩, _, ⟨raisedFits, rfl⟩, _, ⟨_, rfl⟩, _,
        ⟨_, rfl⟩, rest⟩ := rest
      exact ⟨⟨sumFits.2, by omega, fun _ => raisedFits.2⟩,
        Option.some.inj rest⟩
  · rintro ⟨fits, rfl⟩
    have seconds : (unlockTime : ℤ) < 2 ^ 63 := by exact_mod_cast fits.seconds
    refine ⟨_, ⟨⟨later, fits.sum⟩, rfl⟩, _, ⟨⟨by omega, seconds⟩, rfl⟩, ?_⟩
    rw [whole]
    split
    · rfl
    · rename_i waiting
      have wait := fits.wait (not_le.mp waiting)
      simp only [Option.bind_eq_some_iff, checked_signed, checked_unsigned]
      have rounded : 0 ≤ unlockTime - rules.allowedSeconds now +
          rules.difficultyTarget - 1 := by
        omega
      refine ⟨_, ⟨⟨by omega, by omega⟩, rfl⟩, _, ⟨⟨by omega, wait⟩, rfl⟩, _,
        ⟨⟨by omega, by omega⟩, rfl⟩, _, ⟨⟨?_, ?_⟩, rfl⟩, rfl⟩
      · exact Int.tdiv_nonneg rounded (by omega)
      · have quotient := Int.tdiv_le_self rules.difficultyTarget rounded
        exact quotient.trans_lt (by omega)

theorem untilTimestamp_wrapping {result : ℤ}
    (fits : checked.untilTimestamp rules now unlockTime = some result) :
    wrapping.untilTimestamp rules now unlockTime = result := by
  unfold untilTimestamp at fits ⊢
  simp only [Option.bind_eq_bind, Option.bind_eq_some_iff,
    checked_signed] at fits
  obtain ⟨sum, ⟨sumFits, rfl⟩, seconds, ⟨secondsFit, rfl⟩, fits⟩ := fits
  simp only [bind, wrapping_signed sumFits, wrapping_signed secondsFit]
  split at fits
  · rename_i reached
    rw [if_pos reached]
    exact Option.some.inj fits
  · rename_i waiting
    rw [if_neg waiting]
    simp only [Option.bind_eq_some_iff, checked_signed,
      checked_unsigned] at fits
    obtain ⟨delta, ⟨deltaFits, rfl⟩, raised, ⟨raisedFits, rfl⟩, rounded,
      ⟨roundedFits, rfl⟩, blocks, ⟨blocksFit, rfl⟩, fits⟩ := fits
    simp only [wrapping_signed deltaFits, wrapping_signed raisedFits,
      wrapping_signed roundedFits, wrapping_unsigned blocksFit]
    exact Option.some.inj fits

/-! ## Heights -/

/-- The results that a height leads to fit. -/
structure HeightFits (rules : LockRules) (unlockTime : ℕ)
    (last txHeight : BlockId) : Prop where
  allowed : rules.allowedHeight last < 2 ^ 64
  spendable : unlockTime ≤ rules.allowedHeight last →
    txHeight + rules.spendableAge < 2 ^ 64

def heightWait (rules : LockRules) (unlockTime : ℕ) (last txHeight : BlockId) :
    ℤ :=
  if rules.allowedHeight last < unlockTime then
    unlockTime - rules.allowedHeight last
  else max 0 (txHeight + rules.spendableAge - last)

theorem allowedHeight_checked (stored : last < 2 ^ 64) {result : ℤ} :
    checked.allowedHeight rules last = some result ↔
      rules.allowedHeight last < 2 ^ 64 ∧
        (rules.allowedHeight last : ℤ) = result := by
  unfold allowedHeight LockRules.allowedHeight
  split
  · simp [pure, eq_comm]
  · simp only [Option.bind_eq_bind, Option.bind_eq_some_iff, checked_unsigned]
    constructor
    · rintro ⟨_, ⟨previousFits, rfl⟩, allowedFits, rfl⟩
      omega
    · rintro ⟨allowedFits, rfl⟩
      exact ⟨last - 1, ⟨⟨by lia, by lia⟩, rfl⟩, ⟨by lia, by lia⟩, by lia⟩

theorem untilHeight_checked (stored : last < 2 ^ 64)
    (small : unlockTime < 2 ^ 64) {result : ℤ} :
    checked.untilHeight rules unlockTime last txHeight = some result ↔
      HeightFits rules unlockTime last txHeight ∧
        heightWait rules unlockTime last txHeight = result := by
  unfold untilHeight heightWait
  simp only [Option.bind_eq_bind, Option.bind_eq_some_iff,
    allowedHeight_checked stored]
  constructor
  · rintro ⟨_, ⟨allowedFits, rfl⟩, rest⟩
    by_cases waiting : rules.allowedHeight last < unlockTime
    · rw [if_pos (by exact_mod_cast waiting), checked_unsigned] at rest
      rw [if_pos waiting]
      exact ⟨⟨allowedFits, by omega⟩, rest.2⟩
    · rw [if_neg (by exact_mod_cast waiting)] at rest
      rw [if_neg waiting]
      simp only [Option.bind_eq_some_iff, checked_unsigned] at rest
      obtain ⟨_, ⟨spendableFits, rfl⟩, rest⟩ := rest
      have small : txHeight + rules.spendableAge < 2 ^ 64 := by
        exact_mod_cast spendableFits.2
      refine ⟨⟨allowedFits, fun _ => small⟩, ?_⟩
      split at rest
      · have := Option.some.inj rest
        omega
      · have := (checked_unsigned.mp rest).2
        omega
  · rintro ⟨fits, rfl⟩
    refine ⟨_, ⟨fits.allowed, rfl⟩, ?_⟩
    by_cases waiting : rules.allowedHeight last < unlockTime
    · rw [if_pos (by exact_mod_cast waiting), if_pos waiting, checked_unsigned]
      exact ⟨⟨by omega, by omega⟩, rfl⟩
    · rw [if_neg (by exact_mod_cast waiting), if_neg waiting]
      have spendable := fits.spendable (not_lt.mp waiting)
      simp only [Option.bind_eq_some_iff, checked_unsigned]
      refine ⟨txHeight + rules.spendableAge, ⟨⟨by omega, ?_⟩, rfl⟩, ?_⟩
      · exact_mod_cast spendable
      split
      · show some (0 : ℤ) = _
        congr 1
        omega
      · rw [checked_unsigned]
        exact ⟨⟨by lia, by lia⟩, by lia⟩

theorem allowedHeight_wrapping {result : ℤ}
    (fits : checked.allowedHeight rules last = some result) :
    wrapping.allowedHeight rules last = result := by
  unfold allowedHeight at fits ⊢
  split at fits
  · rename_i genesis
    rw [if_pos genesis]
    exact Option.some.inj fits
  · rename_i above
    rw [if_neg above]
    simp only [Option.bind_eq_bind, Option.bind_eq_some_iff,
      checked_unsigned] at fits
    obtain ⟨previous, ⟨previousFits, rfl⟩, allowedFits, rfl⟩ := fits
    simp only [bind, wrapping_unsigned previousFits,
      wrapping_unsigned allowedFits]

theorem untilHeight_wrapping {result : ℤ}
    (fits : checked.untilHeight rules unlockTime last txHeight =
      some result) :
    wrapping.untilHeight rules unlockTime last txHeight = result := by
  unfold untilHeight at fits ⊢
  obtain ⟨allowed, counted, fits⟩ := Option.bind_eq_some_iff.mp fits
  simp only [bind, allowedHeight_wrapping counted]
  split at fits
  · rename_i waiting
    obtain ⟨waitFits, rfl⟩ := checked_unsigned.mp fits
    rw [if_pos waiting, wrapping_unsigned waitFits]
  · rename_i reached
    rw [if_neg reached]
    obtain ⟨spendable, summed, fits⟩ := Option.bind_eq_some_iff.mp fits
    obtain ⟨spendableFits, rfl⟩ := checked_unsigned.mp summed
    simp only [wrapping_unsigned spendableFits]
    split at fits
    · rename_i aged
      rw [if_pos aged]
      exact Option.some.inj fits
    · rename_i young
      obtain ⟨restFits, rfl⟩ := checked_unsigned.mp fits
      rw [if_neg young, wrapping_unsigned restFits]

end Arithmetic

/-! ## Both readings -/

namespace LockRules

open Arithmetic

/-- The blocks to wait, in unbounded integers. -/
def wait (rules : LockRules) (now : ℤ) (unlockTime : ℕ)
    (last txHeight : BlockId) : ℤ :=
  if rules.maxBlockNumber < unlockTime then timestampWait rules now unlockTime
  else heightWait rules unlockTime last txHeight

/-- The 64-bit values that the function is called with. -/
structure InRange (now : ℤ) (unlockTime : ℕ) (last txHeight : BlockId) :
    Prop where
  clock : -2 ^ 63 ≤ now ∧ now < 2 ^ 63
  unlockTime : unlockTime < 2 ^ 64
  last : last < 2 ^ 64
  txHeight : txHeight < 2 ^ 64

theorem checked_iff (range : InRange now unlockTime last txHeight)
    {result : ℤ} :
    checked.blocksUntilUnlocked rules now unlockTime last txHeight =
        some result ↔
      (if rules.maxBlockNumber < unlockTime then
          TimestampFits rules now unlockTime
        else HeightFits rules unlockTime last txHeight) ∧
      rules.wait now unlockTime last txHeight = result := by
  unfold Arithmetic.blocksUntilUnlocked wait
  split
  · exact untilTimestamp_checked range.clock.1
  · exact untilHeight_checked range.last range.unlockTime

theorem nothingWraps_iff (range : InRange now unlockTime last txHeight) :
    rules.NothingWraps now unlockTime last txHeight ↔
      if rules.maxBlockNumber < unlockTime then
        TimestampFits rules now unlockTime
      else HeightFits rules unlockTime last txHeight := by
  rw [NothingWraps, Option.isSome_iff_exists]
  constructor
  · rintro ⟨result, computed⟩
    exact ((checked_iff range).mp computed).1
  · intro fits
    exact ⟨_, (checked_iff range).mpr ⟨fits, rfl⟩⟩

/-- Where nothing wraps, the machine's result is the integers'. -/
theorem blocksUntilUnlocked_eq (range : InRange now unlockTime last txHeight)
    (fits : rules.NothingWraps now unlockTime last txHeight) :
    rules.blocksUntilUnlocked now unlockTime last txHeight =
      rules.wait now unlockTime last txHeight := by
  obtain ⟨result, computed⟩ := Option.isSome_iff_exists.mp fits
  obtain ⟨-, rfl⟩ := (checked_iff range).mp computed
  unfold LockRules.blocksUntilUnlocked Arithmetic.blocksUntilUnlocked
  unfold Arithmetic.blocksUntilUnlocked at computed
  split at computed
  · rename_i timestamp
    rw [if_pos timestamp]
    exact untilTimestamp_wrapping computed
  · rename_i height
    rw [if_neg height]
    exact untilHeight_wrapping computed

/-- The `blocksUntilUnlocked` of the wallet views, with its clock in seconds,
counts the same blocks. -/
theorem blocksUntilUnlocked_seconds
    (range : InRange now unlockTime last txHeight)
    (fits : rules.NothingWraps now unlockTime last txHeight) :
    rules.blocksUntilUnlocked now unlockTime last txHeight =
      Rest.blocksUntilUnlocked rules
        (rules.allowedSeconds now - rules.allowedDeltaSeconds) unlockTime last
        txHeight := by
  rw [blocksUntilUnlocked_eq range fits]
  rw [nothingWraps_iff range] at fits
  unfold wait Rest.blocksUntilUnlocked
  split
  · rename_i timestamp
    rw [if_pos timestamp] at fits
    have seconds : asSeconds unlockTime = unlockTime := if_pos fits.seconds
    rw [timestampWait, seconds, sub_add_cancel]
    dsimp only
    split
    · rfl
    · rename_i waiting
      have rounded : 0 ≤ unlockTime - rules.allowedSeconds now +
          rules.difficultyTarget - 1 := by
        omega
      rw [blocksFor, Int.tdiv_eq_ediv_of_nonneg rounded]
      have quotient := Int.ediv_nonneg rounded
        (show (0 : ℤ) ≤ rules.difficultyTarget by omega)
      omega
  · rename_i height
    rw [if_neg height] at fits
    have allowed : (if last = 0 then 0
        else wrap64 (last - 1 + rules.allowedDeltaBlocks)) =
        rules.allowedHeight last := by
      have below := fits.allowed
      unfold allowedHeight at below ⊢
      split
      · rfl
      · rename_i above
        rw [if_neg above] at below
        exact Nat.mod_eq_of_lt below
    unfold heightWait
    rw [allowed]
    dsimp only
    split
    · lia
    · rename_i reached
      have spendable : wrap64 (txHeight + rules.spendableAge) =
          txHeight + rules.spendableAge :=
        Nat.mod_eq_of_lt (fits.spendable (not_lt.mp reached))
      rw [spendable]
      split <;> lia

/-! ## Unlocked outputs -/

/-- The unlock time is reached with the allowed delta. -/
def Reached (rules : LockRules) (now : ℤ) (unlockTime : ℕ) (last : BlockId) :
    Prop :=
  if rules.maxBlockNumber < unlockTime then
    unlockTime * nanoseconds ≤ rules.allowedTime now
  else unlockTime ≤ last + rules.allowedDeltaBlocks

/-- An output that counts as unlocked is spendable, and no result wraps. -/
structure UnlocksSoundly (rules : LockRules) (now : ℤ) (unlockTime : ℕ)
    (last txHeight : BlockId) : Prop where
  nothingWraps : rules.NothingWraps now unlockTime last txHeight
  unlocked : rules.isLocked now unlockTime last txHeight = false →
    txHeight + rules.spendableAge ≤ last ∧ rules.Reached now unlockTime last

/-- Both unlock times are judged soundly, and in one reading the later one is
not waited for less. -/
structure UnlockArithmetic (rules : LockRules) (now : ℤ) (earlier later : ℕ)
    (last txHeight : BlockId) : Prop where
  earlierSound : rules.UnlocksSoundly now earlier last txHeight
  laterSound : rules.UnlocksSoundly now later last txHeight
  monotone : earlier ≤ later →
    (rules.maxBlockNumber < earlier ↔ rules.maxBlockNumber < later) →
    rules.blocksUntilUnlocked now earlier last txHeight ≤
      rules.blocksUntilUnlocked now later last txHeight

/-- The sums fit, and a timestamp that is reached finds the output old
enough. -/
def UnlockGuard (rules : LockRules) (now : ℤ) (unlockTime : ℕ)
    (last txHeight : BlockId) : Prop :=
  if rules.maxBlockNumber < unlockTime then
    TimestampFits rules now unlockTime ∧
      (unlockTime ≤ rules.allowedSeconds now →
        txHeight + rules.spendableAge ≤ last)
  else HeightFits rules unlockTime last txHeight

theorem timestampWait_eq_zero :
    timestampWait rules now unlockTime = 0 ↔
      unlockTime ≤ rules.allowedSeconds now := by
  unfold timestampWait blocksFor
  split <;> omega

theorem heightWait_eq_zero :
    heightWait rules unlockTime last txHeight = 0 ↔
      unlockTime ≤ rules.allowedHeight last ∧
        txHeight + rules.spendableAge ≤ last := by
  unfold heightWait
  split <;> lia

theorem allowedHeight_le (last : BlockId) :
    rules.allowedHeight last ≤ last + rules.allowedDeltaBlocks := by
  unfold allowedHeight
  split <;> lia

theorem unlocksSoundly_iff (range : InRange now unlockTime last txHeight) :
    rules.UnlocksSoundly now unlockTime last txHeight ↔
      rules.UnlockGuard now unlockTime last txHeight := by
  have locked : rules.NothingWraps now unlockTime last txHeight →
      (rules.isLocked now unlockTime last txHeight = false ↔
        rules.wait now unlockTime last txHeight = 0) := by
    intro fits
    rw [isLocked, blocksUntilUnlocked_eq range fits]
    simp
  constructor
  · rintro ⟨fits, unlocked⟩
    rw [locked fits] at unlocked
    rw [nothingWraps_iff range] at fits
    unfold UnlockGuard
    unfold wait at unlocked
    split at fits
    · rename_i timestamp
      rw [if_pos timestamp] at unlocked ⊢
      exact ⟨fits, fun reached =>
        (unlocked (timestampWait_eq_zero.mpr reached)).1⟩
    · rename_i height
      rw [if_neg height]
      exact fits
  · intro guard
    have fits : rules.NothingWraps now unlockTime last txHeight := by
      rw [nothingWraps_iff range]
      unfold UnlockGuard at guard
      split at guard
      · rename_i timestamp
        rw [if_pos timestamp]
        exact guard.1
      · rename_i height
        rw [if_neg height]
        exact guard
    refine ⟨fits, fun unlocked => ?_⟩
    have none := (locked fits).mp unlocked
    unfold wait at none
    unfold Reached
    unfold UnlockGuard at guard
    split at guard
    · rename_i timestamp
      rw [if_pos timestamp] at none ⊢
      have reached := timestampWait_eq_zero.mp none
      exact ⟨guard.2 reached, (le_allowedSeconds (by omega)).mp reached⟩
    · rename_i height
      rw [if_neg height] at none ⊢
      obtain ⟨reached, aged⟩ := heightWait_eq_zero.mp none
      exact ⟨aged, reached.trans (allowedHeight_le last)⟩

theorem timestampWait_mono {earlier later : ℕ} (ordered : earlier ≤ later) :
    timestampWait rules now earlier ≤ timestampWait rules now later := by
  unfold timestampWait
  split
  · unfold blocksFor
    split <;> omega
  · rw [if_neg (by omega)]
    unfold blocksFor
    refine max_le_max le_rfl ?_
    rw [Int.tdiv_eq_ediv_of_nonneg (by omega),
      Int.tdiv_eq_ediv_of_nonneg (by omega)]
    rcases rules.difficultyTarget.eq_zero_or_pos with zero | positive
    · simp [zero]
    · exact Int.ediv_le_ediv (by omega) (by omega)

/-- Only a height just above the allowed one may be waited for less than the
spendable age. -/
theorem heightWait_mono_iff {earlier later : ℕ} (ordered : earlier ≤ later) :
    heightWait rules earlier last txHeight ≤
        heightWait rules later last txHeight ↔
      (earlier ≤ rules.allowedHeight last → rules.allowedHeight last < later →
        txHeight + rules.spendableAge + rules.allowedHeight last ≤
          last + later) := by
  unfold heightWait
  split <;> split <;> lia

/-- Unlock arithmetic is sound and monotone exactly where nothing wraps, no
reached timestamp meets a young output, and no height above the allowed one is
nearer than the spendable age. -/
theorem unlock_arithmetic_iff {rules : LockRules} {now : ℤ}
    {earlier later : ℕ} {last txHeight : BlockId}
    (earlierRange : InRange now earlier last txHeight)
    (laterRange : InRange now later last txHeight) :
    rules.UnlockArithmetic now earlier later last txHeight ↔
      rules.UnlockGuard now earlier last txHeight ∧
      rules.UnlockGuard now later last txHeight ∧
      (later ≤ rules.maxBlockNumber →
        earlier ≤ rules.allowedHeight last →
        rules.allowedHeight last < later →
        txHeight + rules.spendableAge + rules.allowedHeight last ≤
          last + later) := by
  have compare : rules.UnlocksSoundly now earlier last txHeight →
      rules.UnlocksSoundly now later last txHeight →
      ((rules.blocksUntilUnlocked now earlier last txHeight ≤
          rules.blocksUntilUnlocked now later last txHeight) ↔
        rules.wait now earlier last txHeight ≤
          rules.wait now later last txHeight) := by
    intro first second
    rw [blocksUntilUnlocked_eq earlierRange first.nothingWraps,
      blocksUntilUnlocked_eq laterRange second.nothingWraps]
  constructor
  · rintro ⟨first, second, monotone⟩
    refine ⟨(unlocksSoundly_iff earlierRange).mp first,
      (unlocksSoundly_iff laterRange).mp second, ?_⟩
    intro height reached waiting
    have ordered : earlier ≤ later := by omega
    have heights : ¬ rules.maxBlockNumber < earlier := by omega
    have ascending := (compare first second).mp (monotone ordered (by omega))
    unfold wait at ascending
    rw [if_neg heights, if_neg (not_lt.mpr height)] at ascending
    exact (heightWait_mono_iff ordered).mp ascending reached waiting
  · rintro ⟨first, second, aged⟩
    have firstSound := (unlocksSoundly_iff earlierRange).mpr first
    have secondSound := (unlocksSoundly_iff laterRange).mpr second
    refine ⟨firstSound, secondSound, fun ordered reading => ?_⟩
    rw [compare firstSound secondSound]
    unfold wait
    by_cases timestamp : rules.maxBlockNumber < earlier
    · rw [if_pos timestamp, if_pos (reading.mp timestamp)]
      exact timestampWait_mono ordered
    · have height : ¬ rules.maxBlockNumber < later := by rwa [← reading]
      rw [if_neg timestamp, if_neg height]
      exact (heightWait_mono_iff ordered).mpr (aged (not_lt.mp height))

/-- The values of `cryptonote_config.h`. -/
private def configRules : LockRules := ⟨500000000, 120, 1, 120, 10⟩

/-- An old output with two past unlock heights. -/
theorem unlock_arithmetic_at_old_output :
    configRules.UnlockArithmetic (1700000000 * 10 ^ 9) 0 50 100 80 := by
  have range : ∀ unlockTime ≤ 50, InRange (1700000000 * 10 ^ 9)
      unlockTime 100 80 := by
    intro unlockTime small
    exact ⟨by decide, by omega, by decide, by decide⟩
  refine (unlock_arithmetic_iff (range 0 (by decide)) (range 50 le_rfl)).mpr
    ⟨?_, ?_, ?_⟩
  · exact ⟨by decide, by decide⟩
  · exact ⟨by decide, by decide⟩
  · decide

/-- A timestamp in the past unlocks an output of the newest block. -/
theorem unlock_ignores_spendable_age :
    ¬ ∀ (rules : LockRules) (now : ℤ) (earlier later : ℕ)
      (last txHeight : BlockId),
      InRange now earlier last txHeight →
      InRange now later last txHeight →
      rules.UnlockArithmetic now earlier later last txHeight := by
  intro sound
  have range : InRange (1700000000 * 10 ^ 9) 1600000000 100 100 :=
    ⟨by decide, by decide, by decide, by decide⟩
  have unlocked := (sound configRules _ _ _ _ _ range range).earlierSound.unlocked
    (by decide)
  exact absurd unlocked.1 (by decide)

end LockRules

end XfoLws.Rest
