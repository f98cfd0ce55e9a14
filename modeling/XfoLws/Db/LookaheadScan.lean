import XfoLws.Db.HonestRuns
import XfoLws.Db.LookaheadWindows

/-!
# The scan of `do_lookahead`

The loop over the stored outputs, pass by pass.  It ends as long as it meets
no output to the primary address, and then requests one window for every major
index.
-/

namespace XfoLws.Db

/-- `do_lookahead` turns the lookahead down before it looks at the outputs. -/
def LookaheadRefused (lookahead : AddressIndex) (maxSubaddresses : ℕ) : Prop :=
  maxU32 < lookahead.majI / lookahead.minI ∨
    maxSubaddresses < wrap32 (lookahead.majI * lookahead.minI)

/-- The checks before the vector is widened turn the recipient down. -/
def RecipientRefused (lookahead : AddressIndex) (maxSubaddresses : ℕ)
    (recipient : AddressIndex) : Prop :=
  let needed := addAndClamp recipient.majI lookahead.majI
  maxU32 < needed / lookahead.minI ∨
    maxSubaddresses < wrap32 (needed * lookahead.minI)

instance (lookahead : AddressIndex) (maxSubaddresses : ℕ) :
    Decidable (LookaheadRefused lookahead maxSubaddresses) :=
  inferInstanceAs (Decidable (_ ∨ _))

instance (lookahead : AddressIndex) (maxSubaddresses : ℕ)
    (recipient : AddressIndex) :
    Decidable (RecipientRefused lookahead maxSubaddresses recipient) :=
  inferInstanceAs (Decidable (_ ∨ _))

/-! ## The loop -/

/-- The loop over the outputs from the cursor on, with the outputs visited and
the outcome; `none` when the passes do not suffice.  The cursor only moves
behind an output to a subaddress. -/
def scanOutputs (lookahead : AddressIndex) (maxSubaddresses : ℕ) :
    ℕ → List AddressIndex → List AddressIndex → List SubaddressDict →
      Option (List AddressIndex × Except Error (List SubaddressDict))
  | 0, _, _, _ => none
  | _ + 1, [], visited, initial => some (visited, .ok initial)
  | passes + 1, recipient :: ahead, visited, initial =>
      let visited := visited ++ [recipient]
      if recipient.isZero then
        scanOutputs lookahead maxSubaddresses passes (recipient :: ahead)
          visited initial
      else
        match lookaheadPass lookahead maxSubaddresses initial recipient with
        | .error failure => some (visited, .error failure)
        | .ok initial =>
            scanOutputs lookahead maxSubaddresses passes ahead visited initial

section Loop

variable {lookahead : AddressIndex} {maxSubaddresses : ℕ}

/-- At an output to the primary address the loop repeats for ever. -/
theorem scanOutputs_primary {recipient : AddressIndex}
    (primary : recipient.isZero = true) (passes : ℕ)
    (ahead visited : List AddressIndex) (initial : List SubaddressDict) :
    scanOutputs lookahead maxSubaddresses passes (recipient :: ahead) visited
      initial = none := by
  induction passes generalizing visited with
  | zero => rfl
  | succ passes induction =>
      rw [scanOutputs]
      rw [if_pos primary]
      exact induction _

theorem lookaheadPass_diverges {recipient : AddressIndex}
    {initial : List SubaddressDict}
    (failed : lookaheadPass lookahead maxSubaddresses initial recipient =
      .error .diverges) : recipient.isZero = true := by
  unfold lookaheadPass at failed
  split at failed
  · assumption
  dsimp only at failed
  split at failed
  · cases failed
  split at failed
  · cases failed
  split at failed <;> cases failed

/-- The loop ends exactly when the model does not diverge, and with its
outcome. -/
theorem scanOutputs_iff {ahead visited : List AddressIndex}
    {initial : List SubaddressDict}
    {outcome : Except Error (List SubaddressDict)} :
    (∃ passes seen, scanOutputs lookahead maxSubaddresses passes ahead visited
        initial = some (seen, outcome)) ↔
      ahead.foldlM (lookaheadPass lookahead maxSubaddresses) initial =
          outcome ∧ outcome ≠ .error .diverges := by
  induction ahead generalizing visited initial with
  | nil =>
      constructor
      · rintro ⟨passes, seen, stopped⟩
        cases passes with
        | zero => cases stopped
        | succ passes =>
            cases stopped
            exact ⟨rfl, fun never => nomatch never⟩
      · rintro ⟨rfl, -⟩
        exact ⟨1, visited, rfl⟩
  | cons recipient ahead induction =>
      rw [List.foldlM_cons]
      by_cases primary : recipient.isZero = true
      · have fails : lookaheadPass lookahead maxSubaddresses initial
            recipient = .error .diverges := by
          rw [lookaheadPass, if_pos primary]
        rw [fails]
        constructor
        · rintro ⟨passes, seen, stopped⟩
          rw [scanOutputs_primary primary] at stopped
          cases stopped
        · rintro ⟨rfl, converges⟩
          exact (converges rfl).elim
      · cases passed : lookaheadPass lookahead maxSubaddresses initial
          recipient with
        | error failure =>
            constructor
            · rintro ⟨passes, seen, stopped⟩
              cases passes with
              | zero => cases stopped
              | succ passes =>
                  rw [scanOutputs] at stopped
                  rw [if_neg primary, passed] at stopped
                  cases stopped
                  refine ⟨rfl, fun same => primary ?_⟩
                  cases same
                  exact lookaheadPass_diverges passed
            · rintro ⟨rfl, -⟩
              refine ⟨1, visited ++ [recipient], ?_⟩
              rw [scanOutputs]
              rw [if_neg primary, passed]
              rfl
        | ok next =>
            rw [show (Except.ok next >>= fun widened =>
                ahead.foldlM (lookaheadPass lookahead maxSubaddresses)
                  widened) =
              ahead.foldlM (lookaheadPass lookahead maxSubaddresses) next
                from rfl, ← @induction (visited ++ [recipient]) next]
            constructor
            · rintro ⟨passes, seen, stopped⟩
              cases passes with
              | zero => cases stopped
              | succ passes =>
                  rw [scanOutputs] at stopped
                  rw [if_neg primary, passed] at stopped
                  exact ⟨passes, seen, stopped⟩
            · rintro ⟨passes, seen, stopped⟩
              refine ⟨passes + 1, seen, ?_⟩
              rw [scanOutputs]
              rw [if_neg primary, passed]
              exact stopped

/-- A loop that ends has visited the outputs once and in order, all of them
unless it failed. -/
theorem scanOutputs_visits {passes : ℕ} {ahead visited seen : List AddressIndex}
    {initial : List SubaddressDict}
    {outcome : Except Error (List SubaddressDict)}
    (stopped : scanOutputs lookahead maxSubaddresses passes ahead visited
      initial = some (seen, outcome)) :
    seen <+: visited ++ ahead ∧
      ((∃ final, outcome = .ok final) → seen = visited ++ ahead) := by
  induction passes generalizing ahead visited initial with
  | zero => cases stopped
  | succ passes induction =>
      cases ahead with
      | nil =>
          cases stopped
          simp
      | cons recipient ahead =>
          by_cases primary : recipient.isZero = true
          · rw [scanOutputs_primary primary] at stopped
            cases stopped
          · rw [scanOutputs] at stopped
            rw [if_neg primary] at stopped
            have shifted : visited ++ recipient :: ahead =
                (visited ++ [recipient]) ++ ahead := by simp
            rw [shifted]
            split at stopped
            · cases stopped
              exact ⟨List.prefix_append _ _, fun ⟨_, never⟩ => nomatch never⟩
            · exact induction stopped

end Loop

/-! ## The windows -/

/-- Last minor index requested at a major index: room behind every index
received there, and at least the default. -/
def windowLast (lookahead : AddressIndex) (received : List AddressIndex)
    (major : ℕ) : ℕ :=
  received.foldl (fun last recipient =>
    if recipient.majI = major then
      max last (min (recipient.minI + lookahead.minI - 1) maxU32)
    else last) (lookahead.minI - 1)

/-- Number of major indexes requested. -/
def windowCount (lookahead : AddressIndex) (received : List AddressIndex) :
    ℕ :=
  received.foldl (fun count recipient =>
    max count (min (recipient.majI + lookahead.majI) maxU32)) lookahead.majI

/-- What `do_lookahead` is to request after the given subaddresses
received. -/
def lookaheadWindows (lookahead : AddressIndex)
    (received : List AddressIndex) : List SubaddressDict :=
  (List.range (windowCount lookahead received)).map fun major =>
    (major, [⟨0, windowLast lookahead received major⟩])

theorem addAndClamp_eq {start count : ℕ} (fits : count ≤ maxU32) :
    addAndClamp start count = min (start + count) maxU32 := by
  unfold addAndClamp
  split <;> omega

section Windows

variable {lookahead recipient : AddressIndex} {maxSubaddresses : ℕ}
  {received : List AddressIndex}

theorem windowLast_snoc (major : ℕ) :
    windowLast lookahead (received ++ [recipient]) major =
      if recipient.majI = major then
        max (windowLast lookahead received major)
          (min (recipient.minI + lookahead.minI - 1) maxU32)
      else windowLast lookahead received major := by
  rw [windowLast, List.foldl_append]
  rfl

theorem windowCount_snoc :
    windowCount lookahead (received ++ [recipient]) =
      max (windowCount lookahead received)
        (min (recipient.majI + lookahead.majI) maxU32) := by
  rw [windowCount, List.foldl_append]
  rfl

theorem windowLast_unreceived {major : ℕ}
    (unreceived : ∀ recipient ∈ received, recipient.majI ≠ major) :
    windowLast lookahead received major = lookahead.minI - 1 := by
  refine Outcome.foldl_preserves (fun last => last = lookahead.minI - 1) ?_ rfl
  intro last recipient member same
  rw [if_neg (unreceived recipient member)]
  exact same

/-- The ranges of a major before the gaps are filled. -/
def windowSlot (lookahead : AddressIndex) (received : List AddressIndex)
    (major : ℕ) : IndexRanges :=
  if ∃ recipient ∈ received, recipient.majI = major then
    [⟨0, windowLast lookahead received major⟩]
  else []

/-- The vector after the outputs seen: an entry for every major of a window,
with a range where something was received. -/
structure Widened (lookahead : AddressIndex) (received : List AddressIndex)
    (initial : List SubaddressDict) : Prop where
  slots : ∀ major, (initial[major]?).map Prod.snd =
    if major < windowCount lookahead received then
      some (windowSlot lookahead received major)
    else none
  below : ∀ recipient ∈ received,
    recipient.majI < windowCount lookahead received

theorem Widened.start (lookahead : AddressIndex) :
    Widened lookahead [] (List.replicate lookahead.majI (0, [])) where
  slots := by
    intro major
    rw [List.getElem?_replicate]
    show _ = if major < lookahead.majI then _ else _
    split
    · simp [windowSlot]
    · rfl
  below := fun _ never => nomatch never

theorem Widened.length {initial : List SubaddressDict}
    (widened : Widened lookahead received initial) :
    initial.length = windowCount lookahead received := by
  have upper := widened.slots initial.length
  have lower := widened.slots (windowCount lookahead received)
  rw [List.getElem?_eq_none le_rfl] at upper
  rw [if_neg (lt_irrefl _), Option.map_eq_none_iff,
    List.getElem?_eq_none_iff] at lower
  refine le_antisymm lower (Nat.le_of_not_lt fun short => ?_)
  rw [if_pos short] at upper
  cases upper

/-- New entries are empty, and so are the ranges of majors not reached
before. -/
theorem Widened.widen {initial : List SubaddressDict}
    (widened : Widened lookahead received initial) (needed major : ℕ) :
    ((initial ++ List.replicate (needed - initial.length)
        ((0, []) : SubaddressDict))[major]?).map Prod.snd =
      if major < max (windowCount lookahead received) needed then
        some (windowSlot lookahead received major)
      else none := by
  have length := widened.length
  by_cases old : major < windowCount lookahead received
  · rw [List.getElem?_append_left (length ▸ old), widened.slots, if_pos old,
      if_pos (old.trans_le (le_max_left _ _))]
  · have unreceived :
        ¬ ∃ recipient ∈ received, recipient.majI = major := by
      rintro ⟨recipient, member, rfl⟩
      exact old (widened.below recipient member)
    rw [List.getElem?_append_right (by omega), List.getElem?_replicate,
      windowSlot, if_neg unreceived]
    by_cases new : major < needed
    · rw [if_pos (by omega), if_pos (new.trans_le (le_max_right _ _))]
      rfl
    · rw [if_neg (by omega), if_neg (by omega)]
      rfl

theorem windowSlot_snoc (major : ℕ) :
    windowSlot lookahead (received ++ [recipient]) major =
      if recipient.majI = major then
        [⟨0, max (windowLast lookahead received major)
          (min (recipient.minI + lookahead.minI - 1) maxU32)⟩]
      else windowSlot lookahead received major := by
  unfold windowSlot
  rw [windowLast_snoc]
  by_cases own : recipient.majI = major
  · have seen : ∃ other ∈ received ++ [recipient], other.majI = major :=
      ⟨recipient, by simp, own⟩
    rw [if_pos seen, if_pos own, if_pos own]
  · have same : (∃ other ∈ received ++ [recipient], other.majI = major) ↔
        ∃ other ∈ received, other.majI = major := by
      simp [or_and_right, exists_or, own]
    simp only [same, if_neg own]

private theorem Widened.set {initial wider : List SubaddressDict}
    (widened : Widened lookahead received initial)
    (wide : ∀ major, (wider[major]?).map Prod.snd =
      if major < max (windowCount lookahead received)
          (min (recipient.majI + lookahead.majI) maxU32) then
        some (windowSlot lookahead received major)
      else none)
    (inside : recipient.majI < wider.length) (first : ℕ) :
    Widened lookahead (received ++ [recipient])
      (wider.set recipient.majI (first,
        [⟨0, max (windowLast lookahead received recipient.majI)
          (min (recipient.minI + lookahead.minI - 1) maxU32)⟩])) := by
  have reached : recipient.majI < max (windowCount lookahead received)
      (min (recipient.majI + lookahead.majI) maxU32) := by
    by_contra outside
    have absent := wide recipient.majI
    rw [if_neg outside, Option.map_eq_none_iff,
      List.getElem?_eq_none_iff] at absent
    exact absurd inside (Nat.not_lt.mpr absent)
  constructor
  · intro major
    rw [windowCount_snoc, windowSlot_snoc, List.getElem?_set]
    by_cases own : recipient.majI = major
    · subst own
      rw [if_pos rfl, if_pos inside, if_pos reached, if_pos rfl]
      rfl
    · rw [if_neg own, if_neg own]
      exact wide major
  · intro other member
    rw [windowCount_snoc]
    rcases List.mem_append.mp member with early | own
    · exact (widened.below other early).trans_le (le_max_left _ _)
    · rw [List.mem_singleton.mp own]
      exact reached

theorem Widened.pass {initial next : List SubaddressDict}
    (widened : Widened lookahead received initial)
    (looks : lookahead.Looks) (fits : lookahead.Fits)
    (recipientFits : recipient.Fits)
    (passed : lookaheadPass lookahead maxSubaddresses initial recipient =
      .ok next) : Widened lookahead (received ++ [recipient]) next := by
  unfold lookaheadPass at passed
  split at passed
  · cases passed
  dsimp only at passed
  rw [addAndClamp_eq fits.1, addAndClamp_eq recipientFits.2] at passed
  split at passed
  · cases passed
  split at passed
  · cases passed
  have wide := widened.widen (min (recipient.majI + lookahead.majI) maxU32)
  generalize initial ++ List.replicate _ _ = wider at passed wide
  have thisMinor : lookahead.minI - 1 + recipient.minI =
      recipient.minI + lookahead.minI - 1 := by
    have positive := Nat.pos_of_ne_zero looks.2
    omega
  rw [thisMinor] at passed
  have slot := wide recipient.majI
  split at passed
  · cases passed
  · rename_i first range ranges found
    have inside := (List.getElem?_eq_some_iff.mp found).1
    rw [found, Option.map_some] at slot
    split at slot
    · unfold windowSlot at slot
      split at slot
      · cases slot
        cases passed
        exact widened.set wide inside first
      · cases slot
    · cases slot
  · rename_i first found
    have inside := (List.getElem?_eq_some_iff.mp found).1
    rw [found, Option.map_some] at slot
    split at slot
    · unfold windowSlot at slot
      split at slot
      · cases slot
      · rename_i unreceived
        -- nothing was received here yet, so the default is the lower bound
        have least : windowLast lookahead received recipient.majI ≤
            min (recipient.minI + lookahead.minI - 1) maxU32 := by
          have known : lookahead.minI ≤ maxU32 := fits.2
          rw [windowLast_unreceived fun other member same =>
            unreceived ⟨other, member, same⟩]
          omega
        cases passed
        have stored := widened.set wide inside lookahead.majI
        rw [max_eq_right least] at stored
        exact stored
    · cases slot

theorem Widened.passes {initial next : List SubaddressDict}
    {recipients : List AddressIndex}
    (widened : Widened lookahead received initial)
    (looks : lookahead.Looks) (fits : lookahead.Fits)
    (recipientsFit : ∀ recipient ∈ recipients, recipient.Fits)
    (passed : recipients.foldlM (lookaheadPass lookahead maxSubaddresses)
      initial = .ok next) :
    Widened lookahead (received ++ recipients) next := by
  induction recipients generalizing received initial with
  | nil =>
      cases passed
      rwa [List.append_nil]
  | cons recipient recipients induction =>
      rw [List.foldlM_cons] at passed
      obtain ⟨middle, first, rest⟩ := Outcome.bind_eq_ok.mp passed
      obtain ⟨recipientFits, restFit⟩ := List.forall_mem_cons.mp recipientsFit
      have later := induction (widened.pass looks fits recipientFits first)
        restFit rest
      simpa using later

end Windows

/-! ## Filling the gaps -/

theorem lookaheadFill_ok {minor maxSubaddresses index total : ℕ}
    {initial filled : List SubaddressDict}
    (success : lookaheadFill minor maxSubaddresses index total initial =
      .ok filled) :
    filled.length = initial.length ∧ ∀ position,
      filled[position]? = (initial[position]?).map fun entry =>
        (index + position,
          if entry.2 = [] then [⟨0, minor - 1⟩] else entry.2) := by
  induction initial generalizing index total filled with
  | nil =>
      cases success
      simp
  | cons elem rest induction =>
      unfold lookaheadFill at success
      obtain ⟨first, ranges⟩ := elem
      cases ranges with
      | nil =>
          dsimp only at success
          split at success
          · cases success
          obtain ⟨later, filledLater, stored⟩ := Outcome.bind_eq_ok.mp success
          cases stored
          obtain ⟨length, entries⟩ := induction filledLater
          refine ⟨by simp [length], ?_⟩
          intro position
          cases position with
          | zero => simp
          | succ position =>
              simp [entries position, Nat.add_right_comm, Nat.add_assoc]
      | cons range ranges =>
          dsimp only at success
          split at success
          · cases success
          obtain ⟨later, filledLater, stored⟩ := Outcome.bind_eq_ok.mp success
          cases stored
          obtain ⟨length, entries⟩ := induction filledLater
          refine ⟨by simp [length], ?_⟩
          intro position
          cases position with
          | zero => simp
          | succ position =>
              simp [entries position, Nat.add_right_comm, Nat.add_assoc]

theorem lookaheadFill_error {minor maxSubaddresses index total : ℕ}
    {initial : List SubaddressDict} {failure : Error}
    (failed : lookaheadFill minor maxSubaddresses index total initial =
      .error failure) : failure = .maxSubaddresses := by
  induction initial generalizing index total with
  | nil => cases failed
  | cons elem rest induction =>
      unfold lookaheadFill at failed
      split at failed
      split at failed
      · cases failed
        rfl
      · rcases Outcome.bind_eq_error.mp failed with first | ⟨_, _, never⟩
        · exact induction first
        · cases never

/-! ## The request -/

section Request

variable {lookahead : AddressIndex} {maxSubaddresses : ℕ}

theorem windowSlot_filled (received : List AddressIndex) (major : ℕ) :
    (if windowSlot lookahead received major = [] then
        [⟨0, lookahead.minI - 1⟩]
      else windowSlot lookahead received major) =
      [⟨0, windowLast lookahead received major⟩] := by
  unfold windowSlot
  split
  · rw [if_neg (List.cons_ne_nil _ _)]
  · rename_i unreceived
    rw [if_pos rfl, windowLast_unreceived fun recipient member same =>
      unreceived ⟨recipient, member, same⟩]

theorem Widened.filled {received : List AddressIndex}
    {initial filled : List SubaddressDict}
    (widened : Widened lookahead received initial)
    (success : lookaheadFill lookahead.minI maxSubaddresses 0 0 initial =
      .ok filled) : filled = lookaheadWindows lookahead received := by
  obtain ⟨-, entries⟩ := lookaheadFill_ok success
  refine List.ext_getElem? fun major => ?_
  have slot := widened.slots major
  rw [entries, lookaheadWindows, List.getElem?_map]
  cases found : initial[major]? with
  | none =>
      have outside : windowCount lookahead received ≤ major := by
        rw [← widened.length]
        exact List.getElem?_eq_none_iff.mp found
      rw [List.getElem?_eq_none (by simpa using outside)]
      rfl
  | some entry =>
      have inside : major < windowCount lookahead received := by
        rw [← widened.length]
        exact (List.getElem?_eq_some_iff.mp found).1
      rw [found, if_pos inside, Option.map_some, Option.some_inj] at slot
      rw [List.getElem?_range inside]
      simp only [Option.map_some, slot, windowSlot_filled, Nat.zero_add]

theorem lookaheadDict_ok {recipients : List AddressIndex}
    {dict : List SubaddressDict} (looks : lookahead.Looks)
    (fits : lookahead.Fits)
    (recipientsFit : ∀ recipient ∈ recipients, recipient.Fits)
    (success : lookaheadDict lookahead maxSubaddresses recipients =
      .ok dict) : dict = lookaheadWindows lookahead recipients := by
  obtain ⟨initial, passed, filled⟩ := Outcome.bind_eq_ok.mp success
  have widened := (Widened.start lookahead).passes looks fits recipientsFit
    passed
  exact widened.filled filled

/-- No output is to the primary address or to the last major index, up to the
first one that is turned down for the limit. -/
def ReachesEnd (lookahead : AddressIndex) (maxSubaddresses : ℕ) :
    List AddressIndex → Prop
  | [] => True
  | recipient :: rest => recipient.isZero = false ∧
      (RecipientRefused lookahead maxSubaddresses recipient ∨
        (recipient.majI < maxU32 ∧
          ReachesEnd lookahead maxSubaddresses rest))

theorem windowCount_le {received : List AddressIndex}
    (fits : lookahead.Fits) : windowCount lookahead received ≤ maxU32 := by
  refine Outcome.foldl_preserves (fun count => count ≤ maxU32) ?_ fits.1
  intro count recipient _ below
  omega

section Pass

variable {received : List AddressIndex} {initial : List SubaddressDict}
  {recipient : AddressIndex}

theorem lookaheadPass_refused (nonzero : recipient.isZero = false)
    (refused : RecipientRefused lookahead maxSubaddresses recipient) :
    lookaheadPass lookahead maxSubaddresses initial recipient =
      .error .maxSubaddresses := by
  unfold lookaheadPass
  rw [if_neg (by simp [nonzero])]
  dsimp only
  split
  · rfl
  · rename_i narrow
    rw [if_pos (refused.resolve_left narrow)]

/-- A recipient that is not turned down has an entry in the widened vector,
unless its major is the last one. -/
theorem Widened.pass_accepted (widened : Widened lookahead received initial)
    (looks : lookahead.Looks) (fits : lookahead.Fits)
    (nonzero : recipient.isZero = false)
    (accepted : ¬ RecipientRefused lookahead maxSubaddresses recipient) :
    (recipient.majI < maxU32 → ∃ next,
      lookaheadPass lookahead maxSubaddresses initial recipient = .ok next) ∧
    (¬ recipient.majI < maxU32 →
      lookaheadPass lookahead maxSubaddresses initial recipient =
        .error .outOfRange) := by
  obtain ⟨narrow, few⟩ := not_or.mp accepted
  have length := widened.length
  have bound := @windowCount_le _ received fits
  have needed := @addAndClamp_eq recipient.majI lookahead.majI fits.1
  have some := Nat.pos_of_ne_zero looks.1
  unfold lookaheadPass
  rw [if_neg (by simp [nonzero])]
  dsimp only
  rw [if_neg narrow, if_neg few, needed]
  constructor
  · intro below
    have inside : recipient.majI < (initial ++ List.replicate
        (min (recipient.majI + lookahead.majI) maxU32 - initial.length)
        ((0, []) : SubaddressDict)).length := by
      rw [List.length_append, List.length_replicate]
      omega
    rw [List.getElem?_eq_getElem inside]
    split
    · rename_i never
      cases never
    · exact ⟨_, rfl⟩
    · exact ⟨_, rfl⟩
  · intro last
    have outside : (initial ++ List.replicate
        (min (recipient.majI + lookahead.majI) maxU32 - initial.length)
        ((0, []) : SubaddressDict)).length ≤ recipient.majI := by
      rw [List.length_append, List.length_replicate]
      omega
    rw [List.getElem?_eq_none outside]

end Pass

theorem Widened.scan_iff {received recipients : List AddressIndex}
    {initial : List SubaddressDict}
    (widened : Widened lookahead received initial)
    (looks : lookahead.Looks) (fits : lookahead.Fits)
    (recipientsFit : ∀ recipient ∈ recipients, recipient.Fits) :
    ReachesEnd lookahead maxSubaddresses recipients ↔
      recipients.foldlM (lookaheadPass lookahead maxSubaddresses) initial =
          .error .maxSubaddresses ∨
        ∃ next, recipients.foldlM (lookaheadPass lookahead maxSubaddresses)
          initial = .ok next := by
  induction recipients generalizing received initial with
  | nil => exact iff_of_true trivial (.inr ⟨initial, rfl⟩)
  | cons recipient recipients induction =>
      obtain ⟨recipientFits, restFit⟩ := List.forall_mem_cons.mp recipientsFit
      rw [List.foldlM_cons, ReachesEnd]
      by_cases primary : recipient.isZero = true
      · have fails : lookaheadPass lookahead maxSubaddresses initial
            recipient = .error .diverges := by
          rw [lookaheadPass, if_pos primary]
        rw [fails]
        refine iff_of_false (fun reaches => ?_) ?_
        · rw [primary] at reaches
          cases reaches.1
        · rintro (never | ⟨_, never⟩) <;> cases never
      have nonzero : recipient.isZero = false := by simpa using primary
      by_cases refused : RecipientRefused lookahead maxSubaddresses recipient
      · rw [lookaheadPass_refused nonzero refused]
        exact iff_of_true ⟨nonzero, .inl refused⟩ (.inl rfl)
      obtain ⟨inside, outside⟩ := widened.pass_accepted looks fits nonzero
        refused
      by_cases below : recipient.majI < maxU32
      · obtain ⟨next, passed⟩ := inside below
        rw [passed, or_iff_right refused, and_iff_right nonzero,
          and_iff_right below]
        exact induction (widened.pass looks fits recipientFits passed) restFit
      · rw [outside below, or_iff_right refused]
        refine iff_of_false (fun reaches => below reaches.2.1) ?_
        rintro (never | ⟨_, never⟩) <;> cases never

theorem nonzero_of_passed {recipients : List AddressIndex}
    {initial next : List SubaddressDict}
    (passed : recipients.foldlM (lookaheadPass lookahead maxSubaddresses)
      initial = .ok next) :
    ∀ recipient ∈ recipients, recipient.isZero = false := by
  induction recipients generalizing initial with
  | nil => simp
  | cons recipient recipients induction =>
      rw [List.foldlM_cons] at passed
      obtain ⟨middle, first, rest⟩ := Outcome.bind_eq_ok.mp passed
      refine List.forall_mem_cons.mpr ⟨?_, induction rest⟩
      by_contra primary
      rw [lookaheadPass, if_pos (by simpa using primary)] at first
      cases first

end Request

/-- The scan visits every output once and ends, unless the limit stops it
before, and what is requested are the windows of the subaddresses that
received. -/
structure LookaheadScans (args : Upsert) (lookahead : AddressIndex)
    (db : Db) : Prop where
  stops : ∃ passes seen outcome,
    scanOutputs lookahead args.maxSubaddr passes (db.recipients args.id) []
        (List.replicate lookahead.majI (0, [])) = some (seen, outcome) ∧
      (seen = db.recipients args.id ∨
        outcome = .error .maxSubaddresses ∧ seen <+: db.recipients args.id)
  requests :
    lookaheadDict lookahead args.maxSubaddr (db.recipients args.id) ≠
        .error .maxSubaddresses →
      lookaheadRequest args lookahead db = some (lookaheadWindows lookahead
        ((db.recipients args.id).filter fun recipient => !recipient.isZero))

/-- The scan of a lookahead that is not turned down ends with the right
windows exactly when no output to the primary address or to the last major
index comes before one that is turned down. -/
theorem lookahead_scans_iff {args : Upsert} {lookahead : AddressIndex}
    {db : Db} (looks : lookahead.Looks) (fits : lookahead.Fits)
    (recipientsFit : ∀ recipient ∈ db.recipients args.id, recipient.Fits) :
    (¬ LookaheadRefused lookahead args.maxSubaddr →
      LookaheadScans args lookahead db) ↔
      LookaheadRefused lookahead args.maxSubaddr ∨
        ReachesEnd lookahead args.maxSubaddr (db.recipients args.id) := by
  rw [or_iff_not_imp_left]
  refine imp_congr_right fun accepted => ?_
  have request : lookaheadRequest args lookahead db =
      (lookaheadDict lookahead args.maxSubaddr
        (db.recipients args.id)).toOption := by
    obtain ⟨narrow, few⟩ := not_or.mp accepted
    rw [lookaheadRequest, if_neg]
    rintro (major | minor | wide | many)
    · exact looks.1 major
    · exact looks.2 minor
    · exact narrow wide
    · exact few many
  have started := Widened.start lookahead
  rw [started.scan_iff looks fits recipientsFit]
  constructor
  · rintro ⟨⟨passes, seen, outcome, stopped, -⟩, requests⟩
    obtain ⟨folded, -⟩ := scanOutputs_iff.mp ⟨passes, seen, stopped⟩
    rw [folded]
    cases outcome with
    | ok next => exact .inr ⟨next, rfl⟩
    | error failure =>
        left
        have failed : lookaheadDict lookahead args.maxSubaddr
            (db.recipients args.id) = .error failure := by
          rw [lookaheadDict, folded]
          rfl
        rw [request, failed] at requests
        by_contra other
        cases requests other
  · intro scanned
    have converges : (db.recipients args.id).foldlM
        (lookaheadPass lookahead args.maxSubaddr)
        (List.replicate lookahead.majI (0, [])) ≠ .error .diverges := by
      rcases scanned with failed | ⟨next, passed⟩
      · rw [failed]
        exact fun never => nomatch never
      · rw [passed]
        exact fun never => nomatch never
    obtain ⟨passes, seen, stopped⟩ :=
      (@scanOutputs_iff _ _ _ [] _ _).mpr ⟨rfl, converges⟩
    obtain ⟨visits, all⟩ := scanOutputs_visits stopped
    rw [List.nil_append] at visits all
    refine ⟨⟨passes, seen, _, stopped, ?_⟩, ?_⟩
    · rcases scanned with failed | ⟨next, passed⟩
      · exact .inr ⟨failed, visits⟩
      · exact .inl (all ⟨next, passed⟩)
    · intro unlimited
      rw [request]
      cases requested : lookaheadDict lookahead args.maxSubaddr
          (db.recipients args.id) with
      | error failure =>
          rw [requested] at unlimited
          refine (unlimited (congrArg Except.error ?_)).elim
          rcases Outcome.bind_eq_error.mp requested with
            failed | ⟨next, passed, unfilled⟩
          · rcases scanned with limited | ⟨next, passed⟩
            · exact Except.error.inj (failed.symm.trans limited)
            · cases failed.symm.trans passed
          · exact lookaheadFill_error unfilled
      | ok dict =>
          obtain ⟨next, passed, -⟩ := Outcome.bind_eq_ok.mp requested
          rw [lookaheadDict_ok looks fits recipientsFit requested,
            List.filter_eq_self.mpr fun recipient member => by
              simp [nonzero_of_passed passed recipient member]]
          rfl

/-- A database with one output, to the given recipient. -/
private def receivedAt (recipient : AddressIndex) : Db :=
  { sampleDb with
    outputs := SortedRows.empty.add (1, { sampleOutput with recipient }) }

private def sampleUpsert : Upsert := ⟨1, sampleAddress, 7, 100⟩

/-- The window of an output to the third index of major one. -/
theorem lookahead_scans_subaddress :
    LookaheadScans sampleUpsert ⟨1, 2⟩ (receivedAt ⟨1, 3⟩) := by
  have recipients : (receivedAt ⟨1, 3⟩).recipients sampleUpsert.id =
      [⟨1, 3⟩] := rfl
  have looks : (⟨1, 2⟩ : AddressIndex).Looks := ⟨by decide, by decide⟩
  have fits : (⟨1, 2⟩ : AddressIndex).Fits := ⟨by decide, by decide⟩
  have accepted : ¬ LookaheadRefused ⟨1, 2⟩ sampleUpsert.maxSubaddr := by
    decide
  refine (lookahead_scans_iff looks fits ?_).mpr (.inr ?_) accepted
  · rw [recipients]
    simp [AddressIndex.Fits, maxU32]
  · rw [recipients]
    exact ⟨rfl, .inr ⟨by decide, trivial⟩⟩

/-- A single output to the primary address keeps the loop from ending. -/
theorem lookahead_hangs_at_primary :
    ¬ ∀ (args : Upsert) (lookahead : AddressIndex) (db : Db),
      lookahead.Looks → lookahead.Fits →
      (∀ recipient ∈ db.recipients args.id, recipient.Fits) →
      ¬ LookaheadRefused lookahead args.maxSubaddr →
      LookaheadScans args lookahead db := by
  intro always
  have recipients : (receivedAt .primary).recipients sampleUpsert.id =
      [.primary] := rfl
  have scans := always sampleUpsert ⟨1, 2⟩ (receivedAt .primary)
    ⟨by decide, by decide⟩ ⟨by decide, by decide⟩
    (by
      rw [recipients]
      simp [AddressIndex.Fits, AddressIndex.primary]) (by decide)
  obtain ⟨passes, seen, outcome, stopped, -⟩ := scans.stops
  rw [recipients, scanOutputs_primary rfl] at stopped
  cases stopped

end XfoLws.Db
