import XfoLws.Db.LookaheadScan
import Mathlib.Data.List.Induction

/-!
# What lookaheads store

A lookahead that is not refused stores its windows: `do_lookahead` those from
the start and around everything received, `update_lookahead` the one around
the index at hand.  One that is refused leaves a failure height behind.
-/

namespace XfoLws.Db

section Windows

variable {lookahead recipient : AddressIndex} {received : List AddressIndex}

private theorem windowCount_base :
    lookahead.majI ≤ windowCount lookahead received := by
  induction received using List.reverseRecOn with
  | nil => exact le_rfl
  | append_singleton received recipient induction =>
      rw [windowCount_snoc]
      exact induction.trans (le_max_left _ _)

private theorem windowCount_received (member : recipient ∈ received) :
    min (recipient.majI + lookahead.majI) maxU32 ≤
      windowCount lookahead received := by
  induction received using List.reverseRecOn with
  | nil => cases member
  | append_singleton received last induction =>
      rw [windowCount_snoc]
      rcases List.mem_append.mp member with earlier | here
      · exact (induction earlier).trans (le_max_left _ _)
      · rw [List.mem_singleton.mp here]
        exact le_max_right _ _

private theorem windowLast_base {major : ℕ} :
    lookahead.minI - 1 ≤ windowLast lookahead received major := by
  induction received using List.reverseRecOn with
  | nil => exact le_rfl
  | append_singleton received recipient induction =>
      rw [windowLast_snoc]
      split
      · exact induction.trans (le_max_left _ _)
      · exact induction

private theorem windowLast_received (member : recipient ∈ received) :
    min (recipient.minI + lookahead.minI - 1) maxU32 ≤
      windowLast lookahead received recipient.majI := by
  induction received using List.reverseRecOn with
  | nil => cases member
  | append_singleton received last induction =>
      rw [windowLast_snoc]
      rcases List.mem_append.mp member with earlier | here
      · split
        · exact (induction earlier).trans (le_max_left _ _)
        · exact induction earlier
      · rw [List.mem_singleton.mp here, if_pos rfl]
        exact le_max_right _ _

end Windows

section Provision

variable {env : Env} {bases : Bases} {db next : Db} {args : Upsert}
  {lookahead : AddressIndex}

/-- A `do_lookahead` that succeeds stores every promised window. -/
theorem doLookahead_stores (keys : KeysDerived env bases db)
    (injective : bases.Injective env)
    (known : ∀ subaddrs, lookaheadRequest args lookahead db = some subaddrs →
      bases args.id args.address args.viewKey)
    (looks : lookahead.Looks) (fits : lookahead.Fits)
    (recipients : ∀ row ∈ db.outputs, row.2.recipient.Fits)
    (success : doLookahead env args lookahead db = (.ok (), next)) :
    next.Stores args.id (InBase lookahead) ∧
      ∀ row ∈ db.outputs, row.1 = args.id →
        next.Stores args.id (InWindow lookahead row.2.recipient) := by
  have nonzero : ¬ (lookahead.majI = 0 ∨ lookahead.minI = 0) :=
    not_or.mpr looks
  unfold doLookahead at success
  rw [if_neg nonzero] at success
  split at success
  · cases success
  rename_i narrow
  split at success
  · cases success
  rename_i few
  split at success
  · cases success
  rename_i dict requested
  split at success
  · cases success
  rename_i upserted
  cases success
  have base : bases args.id args.address args.viewKey := by
    refine known dict ?_
    rw [lookaheadRequest, if_neg (by tauto), requested]
    rfl
  have received : ∀ recipient ∈ db.recipients args.id, recipient.Fits := by
    intro recipient member
    obtain ⟨row, own, rfl⟩ := List.mem_map.mp member
    exact recipients row (SortedRows.mem_rows.mp (List.mem_filter.mp own).1)
  obtain ⟨initial, passed, filled⟩ := Outcome.bind_eq_ok.mp requested
  have widened := (Widened.start lookahead).passes looks fits received passed
  have dict_eq := widened.filled filled
  have stored : ∀ major minor, major <
      windowCount lookahead (db.recipients args.id) →
      minor ≤ windowLast lookahead (db.recipients args.id) major →
      next.InIndexes args.id ⟨major, minor⟩ := by
    intro major minor inside below
    have requested : (major, [⟨0, windowLast lookahead
        (db.recipients args.id) major⟩]) ∈ dict := by
      rw [dict_eq]
      exact List.mem_map.mpr ⟨major, List.mem_range.mpr inside, rfl⟩
    exact doUpsert_stores keys injective base upserted requested
      ⟨_, List.mem_singleton_self _, Nat.zero_le _, below⟩
  refine ⟨?_, ?_⟩
  · rintro ⟨major, minor⟩ _ ⟨majorIn, minorIn⟩
    exact stored major minor (majorIn.trans_le windowCount_base)
      ((Nat.le_sub_one_of_lt minorIn).trans windowLast_base)
  · intro row member own
    have received : row.2.recipient ∈ db.recipients args.id :=
      List.mem_map.mpr ⟨row, List.mem_filter.mpr
        ⟨SortedRows.mem_rows.mpr member, decide_eq_true own⟩, rfl⟩
    rintro ⟨major, minor⟩ ⟨-, minorFits⟩ (⟨majorIn, minorIn⟩ | ⟨same, minorIn⟩)
    · exact stored major minor
        (majorIn.trans_le (windowCount_received received))
        ((Nat.le_sub_one_of_lt minorIn).trans windowLast_base)
    · subst same
      refine stored _ minor (widened.below _ received) ?_
      refine (le_min (Nat.le_sub_one_of_lt minorIn) minorFits).trans ?_
      exact windowLast_received received

/-- A call of `do_lookahead` keeps what is stored. -/
theorem provision_keeps {user final : Account} {maxSubaddresses : ℕ}
    (keys : KeysDerived env bases db)
    (known : DuringProvision (fun args _ _ =>
      bases args.id args.address args.viewKey) user lookahead maxSubaddresses
      db)
    (success : provision env user lookahead maxSubaddresses db =
      .ok (final, next)) :
    KeysDerived env bases next ∧ KeepsIndexRows db next := by
  rw [provision_request success]
  cases request : lookaheadRequest
      ⟨user.id, user.address, user.key, maxSubaddresses⟩ lookahead db with
  | none => exact ⟨keys, fun row member => member⟩
  | some subaddrs => exact doUpsert_keeps keys (known subaddrs request) subaddrs

/-- The account after `provision`: as it was, with a lookahead whose windows
are stored, or with a failure height. -/
inductive LookedAhead (user : Account) (lookahead : AddressIndex) (next : Db) :
    Account → Prop where
  | unasked : lookahead.isZero = true → LookedAhead user lookahead next user
  | stored : lookahead.isZero = false → (lookahead.Looks →
        next.Stores user.id (InBase lookahead) ∧
          ∀ row ∈ next.outputs, row.1 = user.id →
            next.Stores user.id (InWindow lookahead row.2.recipient)) →
      LookedAhead user lookahead next { user with lookahead := lookahead }
  | refused : lookahead.isZero = false → LookedAhead user lookahead next
      { user with
        lookahead := lookahead
        lookaheadFail := max 1 user.startHeight }

theorem provision_ok {user final : Account} {maxSubaddresses : ℕ}
    (keys : KeysDerived env bases db) (injective : bases.Injective env)
    (known : DuringProvision (fun args _ _ =>
      bases args.id args.address args.viewKey) user lookahead maxSubaddresses
      db)
    (fits : lookahead.Fits)
    (recipients : ∀ row ∈ db.outputs, row.2.recipient.Fits)
    (success : provision env user lookahead maxSubaddresses db =
      .ok (final, next)) : LookedAhead user lookahead next final := by
  obtain ⟨-, _, _, tables⟩ := provision_eq success
  have outputs : next.outputs = db.outputs := by rw [tables]
  unfold provision at success
  split at success
  · rename_i zero
    cases success
    exact .unasked zero
  rename_i nonzero
  unfold lookaheadAccount at success
  split at success
  · rename_i provisioned
    cases success
    refine .stored (by simpa using nonzero) fun looks => ?_
    rw [outputs]
    exact doLookahead_stores keys injective known looks fits recipients
      provisioned
  · split at success
    · cases success
      exact .refused (by simpa using nonzero)
    · cases success

theorem LookedAhead.id_eq {user final : Account}
    (ahead : LookedAhead user lookahead next final) : final.id = user.id := by
  cases ahead <;> rfl

theorem LookedAhead.of_tables {user final : Account}
    (ahead : LookedAhead user lookahead db final)
    (tables : SameSubaddresses db next) (outputs : next.outputs = db.outputs) :
    LookedAhead user lookahead next final := by
  cases ahead with
  | unasked zero => exact .unasked zero
  | stored asked stores =>
      refine .stored asked fun looks => ⟨tables.keeps.stores (stores looks).1,
        fun row member own => ?_⟩
      rw [outputs] at member
      exact tables.keeps.stores ((stores looks).2 row member own)
  | refused asked => exact .refused asked

theorem changeHeight_ahead {height : BlockId} {address : AccountAddress}
    {maxSubaddresses : ℕ} (keys : KeysDerived env bases db)
    (injective : bases.Injective env) (fits : lookahead.Fits)
    (recipients : ∀ row ∈ db.outputs, row.2.recipient.Fits)
    (known : ∀ user rolledBack, db.accountAt address = some user →
      (db.rollbackOutputs user.id height).rollbackSpends user.id height =
        .ok rolledBack →
      DuringProvision (fun args _ _ => bases args.id args.address args.viewKey)
        (user.movedBack height) lookahead maxSubaddresses rolledBack)
    (success : changeHeight env height address lookahead maxSubaddresses db =
      .ok next) :
    KeysDerived env bases next ∧ KeepsIndexRows db next ∧
      next.requests = db.requests ∧
      ∃ status user moved, (status, user) ∈ db.accounts ∧
        db.accountAt address = some user ∧
        next.accounts = db.accounts.put (status, moved) ∧
        next.outputs = (db.rollbackOutputs user.id height).outputs ∧
        LookedAhead (user.movedBack height) lookahead next moved := by
  unfold changeHeight at success
  split at success
  · cases success
  rename_i entry addressed
  split at success
  · cases success
  rename_i user located
  obtain ⟨rolledBack, dropped, rest⟩ := Outcome.bind_eq_ok.mp success
  obtain ⟨⟨moved, provisioned⟩, lookedAhead, stored⟩ :=
    Outcome.bind_eq_ok.mp rest
  have accountAt : db.accountAt address = some user := by
    rw [Db.accountAt, addressed]
    exact located
  obtain ⟨member, -⟩ := Agreement.findAccount_iff.mp located
  have guard := known user rolledBack accountAt dropped
  obtain ⟨images, rfl⟩ := rollbackSpends_eq dropped
  have keysRolled : KeysDerived env bases
      { db.rollbackOutputs user.id height with
        images := images
        spends := (db.rollbackOutputs user.id height).spendsBelow user.id
          height } :=
    keys.of_tables ⟨rfl, rfl⟩
  obtain ⟨keysNext, rows⟩ := provision_keeps keysRolled guard lookedAhead
  have ahead := provision_ok keysRolled injective guard fits
    (fun row member => recipients row (mem_rollbackOutputs.mp member).1)
    lookedAhead
  obtain ⟨-, _, _, rfl⟩ := provision_eq lookedAhead
  obtain ⟨-, rfl⟩ := storeMoved_eq stored
  exact ⟨keysNext.of_tables ⟨rfl, rfl⟩, rows, rfl, _, user, moved, member,
    accountAt, rfl, rfl, ahead.of_tables ⟨rfl, rfl⟩ rfl⟩

end Provision

/-! ## The window around a match -/

/-- The failure height that `update_lookahead` writes. -/
def Account.failedAt (user : Account) (height : BlockId) : Account :=
  { user with
    lookaheadFail :=
      if user.lookaheadFail = 0 then max 1 height
      else max 1 (min user.lookaheadFail height) }

/-- The accounts after `update_lookahead`: as they were, with the window
stored, or with a failure height at one of them. -/
inductive WindowUpdated (status : AccountStatus) (user : Account)
    (height : BlockId) (matched : AddressIndex) (db next : Db) : Prop where
  | stored : next.accounts = db.accounts →
      (user.lookahead.Looks →
        next.Stores user.id (InWindow user.lookahead matched)) →
      WindowUpdated status user height matched db next
  | failed :
      next.accounts = db.accounts.put (status, user.failedAt height) →
      WindowUpdated status user height matched db next

section Window

variable {env : Env} {bases : Bases} {db next : Db}

/-- The indexes that have to be stored around a match, with the clamped sums
that the code forms. -/
def InMatchWindow (lookahead matched index : AddressIndex) : Prop :=
  (index.majI < min (matched.majI + lookahead.majI) maxU32 ∧
      index.minI < lookahead.minI) ∨
    (index.majI = matched.majI ∧
      matched.majI < min (matched.majI + lookahead.majI) maxU32 ∧
      index.minI ≤ min (matched.minI + lookahead.minI - 1) maxU32)

private theorem mem_lookaheadWindow {lookahead matched index : AddressIndex}
    (fits : lookahead.Fits) (looks : lookahead.Looks)
    (within : InMatchWindow lookahead matched index) :
    ∃ entry ∈ lookaheadWindow lookahead matched, entry.1 = index.majI ∧
      Covers entry.2 index.minI := by
  have some := Nat.pos_of_ne_zero looks.2
  have inside : index.majI < addAndClamp matched.majI lookahead.majI := by
    rw [addAndClamp_eq fits.1]
    rcases within with ⟨inside, -⟩ | ⟨same, inside, -⟩
    · exact inside
    · rwa [same]
  have minor : addAndClamp matched.minI (lookahead.minI - 1) =
      min (matched.minI + (lookahead.minI - 1)) maxU32 :=
    addAndClamp_eq ((Nat.sub_le _ _).trans fits.2)
  obtain ⟨-, minorFits⟩ := fits
  refine ⟨_, List.mem_map.mpr ⟨index.majI, List.mem_range.mpr inside, rfl⟩,
    ?_, ?_⟩
  · split <;> rfl
  split
  · refine ⟨_, List.mem_singleton_self _, Nat.zero_le _, ?_⟩
    rw [minor]
    unfold InMatchWindow at within
    dsimp only
    omega
  · rename_i other
    obtain ⟨-, narrow⟩ := within.resolve_right fun own => other own.1
    exact ⟨_, List.mem_singleton_self _, Nat.zero_le _,
      Nat.le_sub_one_of_lt narrow⟩

/-- The clamped sums leave out no 32-bit index. -/
private theorem InWindow.clamped {lookahead matched index : AddressIndex}
    (looks : lookahead.Looks) (below : matched.majI < maxU32)
    (indexFits : index.Fits) (within : InWindow lookahead matched index) :
    InMatchWindow lookahead matched index := by
  obtain ⟨majors, minors⟩ := looks
  obtain ⟨-, minorFits⟩ := indexFits
  unfold InWindow at within
  unfold InMatchWindow
  omega

theorem updateLookahead_ok {address : AccountAddress} {height : BlockId}
    {matched : AddressIndex} {maxSubaddresses : ℕ} {changed : ℤ}
    (keys : KeysDerived env bases db) (injective : bases.Injective env)
    (known : ∀ user, db.accountAt address = some user →
      ∀ subaddrs, windowRequest user matched maxSubaddresses =
        some subaddrs → bases user.id address user.key)
    (fits : ∀ row ∈ db.accounts, row.2.lookahead.Fits)
    (below : matched.majI < maxU32)
    (success : updateLookahead env db address height matched
      maxSubaddresses = .ok (next, changed)) :
    KeysDerived env bases next ∧ KeepsIndexRows db next ∧
      next.outputs = db.outputs ∧ next.requests = db.requests ∧
      ∃ status user, (status, user) ∈ db.accounts ∧
        db.accountAt address = some user ∧
        WindowUpdated status user height matched db next := by
  unfold updateLookahead at success
  split at success
  · cases success
  rename_i entry addressed
  split at success
  · cases success
  rename_i user located
  have accountAt : db.accountAt address = some user := by
    rw [Db.accountAt, addressed]
    exact located
  obtain ⟨member, -⟩ := Agreement.findAccount_iff.mp located
  dsimp only at success
  split at success
  · rename_i zero
    cases success
    refine ⟨keys, fun row member => member, rfl, rfl, _, user, member,
      accountAt, .stored rfl fun looks => ?_⟩
    exact absurd zero (not_or.mpr looks)
  rename_i nonzero
  have looks : user.lookahead.Looks := not_or.mp nonzero
  have upserts : ∀ outcome middle,
      (if user.lookahead.majI / user.lookahead.minI ≤ maxU32 ∧
          wrap32 (user.lookahead.majI * user.lookahead.minI) ≤
            maxSubaddresses then
        doUpsert env ⟨user.id, address, user.key, maxSubaddresses⟩
          (lookaheadWindow user.lookahead matched) db
      else (.error .maxSubaddresses, db)) = (outcome, middle) →
      KeysDerived env bases middle ∧ KeepsIndexRows db middle ∧
        (∃ ranges indexes, middle =
          { db with
            subaddressRanges := ranges
            subaddressIndexes := indexes }) ∧
        ((∃ out, outcome = .ok out) →
          middle.Stores user.id (InWindow user.lookahead matched)) := by
    intro outcome middle upserted
    split at upserted
    · rename_i accepted
      have base : bases user.id address user.key := by
        refine known user accountAt (lookaheadWindow user.lookahead matched) ?_
        rw [windowRequest, if_pos (by tauto)]
      have kept := @doUpsert_keeps _ _ _
        ⟨user.id, address, user.key, maxSubaddresses⟩ keys base
        (lookaheadWindow user.lookahead matched)
      have tables := doUpsert_eq env
        ⟨user.id, address, user.key, maxSubaddresses⟩
        (lookaheadWindow user.lookahead matched) db
      rw [upserted] at kept tables
      refine ⟨kept.1, kept.2, tables, ?_⟩
      rintro ⟨out, rfl⟩ index indexFits within
      obtain ⟨window, listed, major, covered⟩ := mem_lookaheadWindow
        (fits _ member) looks (within.clamped looks below indexFits)
      have stored := doUpsert_stores keys injective base upserted listed
        covered
      rwa [major] at stored
    · cases upserted
      refine ⟨keys, fun row member => member, ⟨_, _, rfl⟩, ?_⟩
      rintro ⟨out, never⟩
      cases never
  split at success
  · rename_i upserted
    cases success
    obtain ⟨kept, rows, ⟨_, _, tables⟩, stored⟩ := upserts _ _ upserted
    refine ⟨kept, rows, ?_, ?_, _, user, member, accountAt,
      .stored ?_ fun _ => stored ⟨_, rfl⟩⟩ <;> rw [tables]
  · rename_i upserted
    split at success
    · cases success
    cases success
    obtain ⟨kept, rows, ⟨_, _, rfl⟩, -⟩ := upserts _ _ upserted
    exact ⟨⟨kept.proper, kept.derived⟩, rows, rfl, rfl, _, user, member,
      accountAt, .failed rfl⟩

theorem updateLookahead_inv {address : AccountAddress} {height : BlockId}
    {matched : AddressIndex} {maxSubaddresses : ℕ} {user : Account}
    {changed : ℤ} (located : db.accountAt address = some user)
    (looks : user.lookahead.Looks)
    (success : updateLookahead env db address height matched
      maxSubaddresses = .ok (next, changed)) :
    (∃ out, doUpsert env ⟨user.id, address, user.key, maxSubaddresses⟩
        (lookaheadWindow user.lookahead matched) db = (.ok out, next) ∧
      changed = min (maxU32 : ℤ) out.length) ∨
    (next.accountAt address = some (user.failedAt height) ∧ changed = -1) := by
  obtain ⟨entry, addressed, found⟩ := Option.bind_eq_some_iff.mp located
  obtain ⟨-, same⟩ := Agreement.findAccount_iff.mp found
  unfold updateLookahead at success
  rw [addressed] at success
  dsimp only at success
  rw [found] at success
  dsimp only at success
  rw [if_neg (not_or.mpr looks)] at success
  have tables : ∀ outcome middle,
      (if user.lookahead.majI / user.lookahead.minI ≤ maxU32 ∧
          wrap32 (user.lookahead.majI * user.lookahead.minI) ≤
            maxSubaddresses then
        doUpsert env ⟨user.id, address, user.key, maxSubaddresses⟩
          (lookaheadWindow user.lookahead matched) db
      else (.error .maxSubaddresses, db)) = (outcome, middle) →
      (∃ ranges indexes, middle =
        { db with
          subaddressRanges := ranges
          subaddressIndexes := indexes }) ∧
      ∀ out, outcome = .ok out →
        doUpsert env ⟨user.id, address, user.key, maxSubaddresses⟩
          (lookaheadWindow user.lookahead matched) db = (.ok out, middle) := by
    intro outcome middle upserted
    split at upserted
    · have written := doUpsert_eq env
        ⟨user.id, address, user.key, maxSubaddresses⟩
        (lookaheadWindow user.lookahead matched) db
      rw [upserted] at written
      refine ⟨written, ?_⟩
      rintro out rfl
      exact upserted
    · cases upserted
      exact ⟨⟨_, _, rfl⟩, fun out never => by cases never⟩
  split at success
  · rename_i upserted
    cases success
    exact .inl ⟨_, (tables _ _ upserted).2 _ rfl, rfl⟩
  · rename_i upserted
    split at success
    · cases success
    cases success
    obtain ⟨_, _, rfl⟩ := (tables _ _ upserted).1
    refine .inr ⟨?_, rfl⟩
    show (db.findByAddress? address).bind _ = _
    rw [addressed, Option.bind_some, findAccount?, SortedRows.find?_put,
      if_pos (by rw [accountsKey, ← same]), Option.map_some]
    rfl

/-- A call that returns a count has stored the window around the match, and
one that returns `-1` leaves a failure height to rescan from. -/
theorem update_lookahead_covers {bases : Bases} {address : AccountAddress}
    {height : BlockId} {matched : AddressIndex} {maxSubaddresses : ℕ}
    {user : Account} {changed : ℤ} (keys : KeysDerived env bases db)
    (injective : bases.Injective env)
    (located : db.accountAt address = some user)
    (known : bases user.id address user.key) (fits : user.lookahead.Fits)
    (looks : user.lookahead.Looks)
    (success : updateLookahead env db address height matched
      maxSubaddresses = .ok (next, changed)) :
    (0 ≤ changed → ∀ index,
      InMatchWindow user.lookahead matched index →
      next.InIndexes user.id index) ∧
    (changed = -1 → ∃ failed, next.accountAt address = some failed ∧
      1 ≤ failed.lookaheadFail ∧ failed.lookaheadFail ≤ max 1 height ∧
      (user.lookaheadFail ≠ 0 →
        failed.lookaheadFail ≤ user.lookaheadFail)) := by
  rcases updateLookahead_inv located looks success with
    ⟨out, upserted, rfl⟩ | ⟨failed, rfl⟩
  · refine ⟨fun _ index within => ?_, fun never => ?_⟩
    · obtain ⟨window, listed, major, covered⟩ :=
        mem_lookaheadWindow fits looks within
      have stored := doUpsert_stores keys injective known upserted listed
        covered
      rwa [major] at stored
    · omega
  · refine ⟨fun never => absurd never (by decide), fun _ => ?_⟩
    refine ⟨_, failed, ?_⟩
    unfold Account.failedAt
    dsimp only
    split <;> lia

end Window

/-- An account with the lookahead of one major and two minors. -/
private def lookingDb : Db := afterAll derivingEnv sampleDb lookaheadCalls

private theorem lookingDb_keys : KeysDerived derivingEnv sampleBases lookingDb where
  proper := by
    have rows : lookingDb.subaddressRanges.rows = [(1, (0, [⟨0, 1⟩]))] := by
      decide
    intro row member
    rw [← SortedRows.mem_rows, rows, List.mem_singleton] at member
    rw [member]
    simp [Proper]
  derived := by
    have rows : ∀ row ∈ lookingDb.subaddressIndexes.rows, row.2.subaddress =
        row.2.index.getSpendPublic derivingEnv sampleAddress 7 := by
      decide
    exact fun row member => ⟨sampleAddress, 7, rfl, rows row member⟩

/-- A match behind the lookahead stores the index next to it. -/
theorem update_lookahead_covers_next :
    ∃ next, updateLookahead derivingEnv lookingDb sampleAddress 5 ⟨0, 2⟩ 10 =
        .ok (next, 1) ∧ next.InIndexes 1 ⟨0, 3⟩ := by
  have counted : Prod.snd <$> updateLookahead derivingEnv lookingDb
      sampleAddress 5 ⟨0, 2⟩ 10 = .ok 1 := by
    decide
  obtain ⟨⟨next, _⟩, success, rfl⟩ := Outcome.map_eq_ok.mp counted
  have located : lookingDb.accountAt sampleAddress =
      some ⟨1, 0, sampleAddress, 7, 0, 0, 0, 0, ⟨1, 2⟩, 0⟩ := by
    decide
  have covers := update_lookahead_covers lookingDb_keys sampleBases_injective
    located rfl ⟨by decide, by decide⟩ ⟨by decide, by decide⟩ success
  exact ⟨next, success, covers.1 (by decide) ⟨0, 3⟩ (.inr (by decide))⟩

end XfoLws.Db
