import XfoLws.Db.LookaheadScan

/-!
# Limits on lookaheads

Three places compare a number of subaddresses with `max_subaddresses`.  The
number is a product of 32 bits, and its low bits may pass where the exact
product does not.
-/

namespace XfoLws.Db

/-- `check_lookahead` of the REST server. -/
def checkLookahead (maxSubaddresses : ℕ) (lookahead : AddressIndex) : Bool :=
  let minor := lookahead.minI
  if minor ≠ 0 then
    let major := lookahead.majI
    if maxU32 < major / minor then false
    else wrap32 (major * minor) ≤ maxSubaddresses
  else true

/-- The subaddresses of a lookahead, and of one around a received major. -/
def AddressIndex.product (lookahead : AddressIndex) : ℕ :=
  lookahead.majI * lookahead.minI

def AddressIndex.productAround (lookahead recipient : AddressIndex) : ℕ :=
  (recipient.majI + lookahead.majI) * lookahead.minI

/-- What the checks let through is within the limit, and so is what is built
behind them. -/
structure LimitsExact (lookahead : AddressIndex) (maxSubaddresses : ℕ)
    (received : List AddressIndex) (matched : AddressIndex) : Prop where
  rest : checkLookahead maxSubaddresses lookahead = true →
    lookahead.product ≤ maxSubaddresses
  scan : lookahead.Looks → ¬ LookaheadRefused lookahead maxSubaddresses →
    lookahead.product ≤ maxSubaddresses
  around : lookahead.Looks →
    ¬ LookaheadRefused lookahead maxSubaddresses →
    ∀ recipient ∈ received, recipient.isZero = false →
      ¬ RecipientRefused lookahead maxSubaddresses recipient →
      lookahead.productAround recipient ≤ maxSubaddresses
  update : ∀ user : Account, user.lookahead = lookahead → ∀ dict,
    windowRequest user matched maxSubaddresses = some dict →
    lookahead.product ≤ maxSubaddresses ∧ dict.length ≤ maxSubaddresses
  widened : lookahead.Looks →
    ¬ LookaheadRefused lookahead maxSubaddresses → ∀ initial,
      received.foldlM (lookaheadPass lookahead maxSubaddresses)
        (List.replicate lookahead.majI (0, [])) = .ok initial →
      initial.length ≤ maxSubaddresses
  accesses : lookahead.Looks →
    ¬ LookaheadRefused lookahead maxSubaddresses →
      received.foldlM (lookaheadPass lookahead maxSubaddresses)
        (List.replicate lookahead.majI (0, [])) ≠ .error .outOfRange

/-- No product that the checks form loses bits unnoticed, and the window of
`update_lookahead` does not have more majors than subaddresses are allowed. -/
structure NothingWraps (lookahead : AddressIndex) (maxSubaddresses : ℕ)
    (received : List AddressIndex) (matched : AddressIndex) : Prop where
  product : lookahead.product < 2 ^ 32 ∨
    maxSubaddresses < wrap32 lookahead.product
  around : lookahead.Looks →
    ¬ LookaheadRefused lookahead maxSubaddresses →
    ∀ recipient ∈ received, recipient.isZero = false →
      lookahead.productAround recipient < 2 ^ 32 ∨
        maxSubaddresses < wrap32
          (addAndClamp recipient.majI lookahead.majI * lookahead.minI)
  window : lookahead.Looks → ¬ LookaheadRefused lookahead maxSubaddresses →
    min (matched.majI + lookahead.majI) maxU32 ≤ maxSubaddresses

/-! ## The checks -/

/-- A wrapped product passes for an exact one unless it loses bits. -/
theorem wrap32_exact {product maxSubaddresses : ℕ}
    (limit : maxSubaddresses ≤ maxU32) :
    (wrap32 product ≤ maxSubaddresses → product ≤ maxSubaddresses) ↔
      product < 2 ^ 32 ∨ maxSubaddresses < wrap32 product := by
  unfold wrap32 maxU32 at *
  by_cases small : product < 2 ^ 32
  · rw [Nat.mod_eq_of_lt small]
    exact iff_of_true id (.inl small)
  · constructor
    · intro exact
      right
      by_contra passes
      have within := exact (Nat.le_of_not_lt passes)
      omega
    · rintro (never | above) passes
      · exact (small never).elim
      · omega

section Checks

variable {lookahead recipient matched : AddressIndex} {maxSubaddresses : ℕ}
  {received : List AddressIndex}

/-- The quotient test turns nothing down. -/
theorem quotient_le {dividend divisor : ℕ} (fits : dividend ≤ maxU32) :
    ¬ maxU32 < dividend / divisor :=
  Nat.not_lt.mpr ((Nat.div_le_self dividend divisor).trans fits)

theorem lookaheadRefused_iff (fits : lookahead.Fits) :
    LookaheadRefused lookahead maxSubaddresses ↔
      maxSubaddresses < wrap32 lookahead.product :=
  or_iff_right (quotient_le fits.1)

theorem addAndClamp_le (start count : ℕ) (fits : count ≤ maxU32) :
    addAndClamp start count ≤ maxU32 := by
  rw [addAndClamp_eq fits]
  exact min_le_right _ _

theorem recipientRefused_iff (fits : lookahead.Fits) :
    RecipientRefused lookahead maxSubaddresses recipient ↔
      maxSubaddresses < wrap32
        (addAndClamp recipient.majI lookahead.majI * lookahead.minI) :=
  or_iff_right (quotient_le (addAndClamp_le _ _ fits.1))

theorem checkLookahead_iff (fits : lookahead.Fits) :
    checkLookahead maxSubaddresses lookahead = true ↔
      lookahead.minI = 0 ∨ wrap32 lookahead.product ≤ maxSubaddresses := by
  unfold checkLookahead AddressIndex.product
  by_cases minor : lookahead.minI = 0
  · simp [minor]
  · simp [minor, quotient_le fits.1]

theorem windowRequest_iff (fits : lookahead.Fits) {user : Account}
    (own : user.lookahead = lookahead) {dict : List SubaddressDict} :
    windowRequest user matched maxSubaddresses = some dict ↔
      lookahead.Looks ∧ ¬ LookaheadRefused lookahead maxSubaddresses ∧
        lookaheadWindow lookahead matched = dict := by
  subst own
  rw [lookaheadRefused_iff fits, Nat.not_lt]
  unfold windowRequest AddressIndex.product AddressIndex.Looks
  dsimp only
  have narrow := Nat.not_lt.mp
    (@quotient_le _ user.lookahead.minI fits.1)
  split
  · rename_i accepted
    rw [Option.some_inj]
    tauto
  · rename_i refused
    refine iff_of_false (fun never => nomatch never) ?_
    tauto

theorem lookaheadWindow_length (fits : lookahead.Fits) :
    (lookaheadWindow lookahead matched).length =
      min (matched.majI + lookahead.majI) maxU32 := by
  rw [lookaheadWindow, List.length_map, List.length_range,
    addAndClamp_eq fits.1]

/-- A product around a recipient that keeps its bits is the one checked. -/
theorem productAround_le (looks : lookahead.Looks) (fits : lookahead.Fits)
    (exact : lookahead.productAround recipient < 2 ^ 32 ∨
      maxSubaddresses < wrap32
        (addAndClamp recipient.majI lookahead.majI * lookahead.minI))
    (accepted : ¬ RecipientRefused lookahead maxSubaddresses recipient) :
    lookahead.productAround recipient ≤ maxSubaddresses := by
  rw [recipientRefused_iff fits, Nat.not_lt] at accepted
  have small := exact.resolve_right (Nat.not_lt.mpr accepted)
  have wide : recipient.majI + lookahead.majI ≤
      lookahead.productAround recipient :=
    Nat.le_mul_of_pos_right _ (Nat.pos_of_ne_zero looks.2)
  have unclamped : addAndClamp recipient.majI lookahead.majI =
      recipient.majI + lookahead.majI := by
    rw [addAndClamp_eq fits.1, maxU32]
    omega
  rw [unclamped, wrap32] at accepted
  exact (Nat.mod_eq_of_lt small).symm.trans_le accepted

theorem accepted_of_passed {initial next : List SubaddressDict}
    (passed : received.foldlM (lookaheadPass lookahead maxSubaddresses)
      initial = .ok next) :
    ∀ recipient ∈ received,
      ¬ RecipientRefused lookahead maxSubaddresses recipient := by
  induction received generalizing initial with
  | nil => simp
  | cons recipient received induction =>
      have nonzero := nonzero_of_passed passed recipient (by simp)
      rw [List.foldlM_cons] at passed
      obtain ⟨middle, first, rest⟩ := Outcome.bind_eq_ok.mp passed
      refine List.forall_mem_cons.mpr ⟨fun refused => ?_, induction rest⟩
      rw [lookaheadPass_refused nonzero refused] at first
      cases first

theorem Widened.outOfRange {seen : List AddressIndex}
    {initial : List SubaddressDict}
    (widened : Widened lookahead seen initial) (looks : lookahead.Looks)
    (fits : lookahead.Fits)
    (receivedFit : ∀ recipient ∈ received, recipient.Fits)
    (failed : received.foldlM (lookaheadPass lookahead maxSubaddresses)
      initial = .error .outOfRange) :
    ∃ recipient ∈ received, recipient.isZero = false ∧
      ¬ RecipientRefused lookahead maxSubaddresses recipient ∧
      maxU32 ≤ recipient.majI := by
  induction received generalizing seen initial with
  | nil => cases failed
  | cons recipient received induction =>
      obtain ⟨recipientFits, restFit⟩ := List.forall_mem_cons.mp receivedFit
      rw [List.foldlM_cons] at failed
      by_cases primary : recipient.isZero = true
      · rw [lookaheadPass, if_pos primary] at failed
        cases failed
      have nonzero : recipient.isZero = false := by simpa using primary
      by_cases refused : RecipientRefused lookahead maxSubaddresses recipient
      · rw [lookaheadPass_refused nonzero refused] at failed
        cases failed
      by_cases below : recipient.majI < maxU32
      · obtain ⟨next, passed⟩ :=
          (widened.pass_accepted looks fits nonzero refused).1 below
        rw [passed] at failed
        obtain ⟨other, member, found⟩ := induction
          (widened.pass looks fits recipientFits passed) restFit failed
        exact ⟨other, List.mem_cons_of_mem _ member, found⟩
      · exact ⟨recipient, by simp, nonzero, refused, Nat.le_of_not_lt below⟩

end Checks

/-- The checks let through what is within the limit exactly when nothing
wraps. -/
theorem limits_exact_iff {lookahead matched : AddressIndex}
    {maxSubaddresses : ℕ} {received : List AddressIndex}
    (fits : lookahead.Fits)
    (receivedFit : ∀ recipient ∈ received, recipient.Fits)
    (limit : maxSubaddresses ≤ maxU32) :
    LimitsExact lookahead maxSubaddresses received matched ↔
      NothingWraps lookahead maxSubaddresses received matched := by
  constructor
  · intro exact
    refine ⟨?_, ?_, ?_⟩
    · by_cases minor : lookahead.minI = 0
      · left
        rw [AddressIndex.product, minor, Nat.mul_zero]
        exact Nat.two_pow_pos 32
      · refine (wrap32_exact limit).mp fun passes => exact.rest ?_
        exact (checkLookahead_iff fits).mpr (.inr passes)
    · intro looks accepted recipient member nonzero
      by_contra loses
      obtain ⟨big, passes⟩ := not_or.mp loses
      have within := exact.around looks accepted recipient member nonzero
        (fun refused => passes ((recipientRefused_iff fits).mp refused))
      unfold maxU32 at limit
      omega
    · intro looks accepted
      have built := (exact.update
        ⟨0, 0, ⟨0, 0⟩, 0, 0, 0, 0, 0, lookahead, 0⟩ rfl _
        ((windowRequest_iff fits rfl).mpr ⟨looks, accepted, rfl⟩)).2
      rwa [lookaheadWindow_length fits] at built
  · intro exact
    have product : ¬ LookaheadRefused lookahead maxSubaddresses →
        lookahead.product ≤ maxSubaddresses := by
      intro accepted
      rw [lookaheadRefused_iff fits, Nat.not_lt] at accepted
      exact (wrap32_exact limit).mpr exact.product accepted
    have around : lookahead.Looks →
        ¬ LookaheadRefused lookahead maxSubaddresses →
        ∀ recipient ∈ received, recipient.isZero = false →
          ¬ RecipientRefused lookahead maxSubaddresses recipient →
          lookahead.productAround recipient ≤ maxSubaddresses :=
      fun looks accepted recipient member nonzero =>
        productAround_le looks fits
          (exact.around looks accepted recipient member nonzero)
    refine ⟨?_, fun _ => product, around, ?_, ?_, ?_⟩
    · intro passes
      rcases (checkLookahead_iff fits).mp passes with minor | within
      · rw [AddressIndex.product, minor, Nat.mul_zero]
        exact Nat.zero_le _
      · exact (wrap32_exact limit).mpr exact.product within
    · intro user own dict requested
      obtain ⟨looks, accepted, rfl⟩ := (windowRequest_iff fits own).mp requested
      refine ⟨product accepted, ?_⟩
      rw [lookaheadWindow_length fits]
      exact exact.window looks accepted
    · intro looks accepted initial passed
      have positive := Nat.pos_of_ne_zero looks.2
      rw [((Widened.start lookahead).passes looks fits receivedFit
        passed).length, List.nil_append]
      refine Outcome.foldl_preserves (fun count => count ≤ maxSubaddresses)
        ?_ ?_
      · intro count recipient member below
        have within := around looks accepted recipient member
          (nonzero_of_passed passed recipient member)
          (accepted_of_passed passed recipient member)
        have wide := Nat.le_mul_of_pos_right
          (recipient.majI + lookahead.majI) positive
        unfold AddressIndex.productAround at within
        omega
      · exact (Nat.le_mul_of_pos_right _ positive).trans (product accepted)
    · intro looks accepted failed
      obtain ⟨recipient, member, nonzero, passes, last⟩ :=
        (Widened.start lookahead).outOfRange looks fits receivedFit failed
      have within := around looks accepted recipient member nonzero passes
      have wide := Nat.le_mul_of_pos_right
        (recipient.majI + lookahead.majI) (Nat.pos_of_ne_zero looks.2)
      have some := Nat.pos_of_ne_zero looks.1
      unfold AddressIndex.productAround at within
      omega

/-- A small lookahead with one subaddress received. -/
theorem limits_exact_small :
    LimitsExact ⟨1, 2⟩ 100 [⟨1, 3⟩] ⟨1, 0⟩ := by
  have receivedFit : ∀ recipient ∈ [(⟨1, 3⟩ : AddressIndex)],
      recipient.Fits := by
    simp [AddressIndex.Fits, maxU32]
  refine (limits_exact_iff ⟨by decide, by decide⟩ receivedFit
    (by decide)).mpr ⟨.inl (by decide), ?_, fun _ _ => by decide⟩
  intro _ _ recipient member _
  rw [List.mem_singleton.mp member]
  exact .inl (by decide)

/-- A lookahead of 2 ^ 32 subaddresses passes for one of none. -/
theorem lookahead_product_wraps :
    ¬ ∀ (lookahead : AddressIndex) (maxSubaddresses : ℕ)
      (received : List AddressIndex) (matched : AddressIndex),
      lookahead.Fits → (∀ recipient ∈ received, recipient.Fits) →
      maxSubaddresses ≤ maxU32 →
      LimitsExact lookahead maxSubaddresses received matched := by
  intro always
  have exact := always ⟨65536, 65536⟩ 10 [] ⟨0, 0⟩ ⟨by decide, by decide⟩
    (by simp) (by decide)
  exact absurd (exact.rest (by decide)) (by decide)

end XfoLws.Db
