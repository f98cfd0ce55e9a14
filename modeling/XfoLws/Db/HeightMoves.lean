import XfoLws.Db.ExactAddress
import XfoLws.Db.LookaheadScan
import XfoLws.Db.SpendImages
import XfoLws.Db.UpsertTables

/-!
# When an account can be moved

`change_height` fails when the tables do not hold what it removes, and records
a failure when the subaddresses of a lookahead are above the limit.  Both are
conditions on the tables before the call.
-/

namespace XfoLws.Db

/-! ## Filling the gaps -/

section Filled

variable {lookahead : AddressIndex} {maxSubaddresses : ℕ}

/-- What the gaps are counted for: the default, or the last minor index of a
major with something received. -/
def slotCount (minor : ℕ) (ranges : IndexRanges) : ℕ :=
  match ranges with
  | [] => minor
  | range :: _ => range.last

theorem lookaheadFill_ok_iff {minor index total : ℕ}
    {initial : List SubaddressDict} (within : total ≤ maxSubaddresses) :
    (∃ filled, lookaheadFill minor maxSubaddresses index total initial =
        .ok filled) ↔
      total + (initial.map fun entry => slotCount minor entry.2).sum ≤
        maxSubaddresses := by
  induction initial generalizing index total with
  | nil => exact iff_of_true ⟨_, rfl⟩ (by simpa using within)
  | cons entry rest induction =>
      have count : lookaheadFill minor maxSubaddresses index total
          (entry :: rest) =
            if maxSubaddresses - total < slotCount minor entry.2 then
              .error .maxSubaddresses
            else
              lookaheadFill minor maxSubaddresses (index + 1)
                  (total + slotCount minor entry.2) rest >>= fun rest =>
                .ok ((index,
                  if entry.2 = [] then [⟨0, minor - 1⟩] else entry.2) ::
                    rest) := by
        obtain ⟨major, ranges⟩ := entry
        cases ranges <;> rfl
      rw [count, List.map_cons, List.sum_cons, ← Nat.add_assoc]
      split
      · rename_i full
        exact iff_of_false nofun (by omega)
      · rename_i room
        rw [← @induction (index + 1) (total + slotCount minor entry.2)
          (by omega)]
        simp [Outcome.bind_eq_ok]

/-- What `do_lookahead` counts before the upsert. -/
def filledCount (lookahead : AddressIndex) (received : List AddressIndex) :
    ℕ :=
  ((List.range (windowCount lookahead received)).map fun major =>
    slotCount lookahead.minI (windowSlot lookahead received major)).sum

theorem Widened.counted {received : List AddressIndex}
    {initial : List SubaddressDict}
    (widened : Widened lookahead received initial) :
    (initial.map fun entry => slotCount lookahead.minI entry.2).sum =
      filledCount lookahead received := by
  unfold filledCount
  congr 1
  refine List.ext_getElem? fun major => ?_
  have slot := widened.slots major
  rw [List.getElem?_map, List.getElem?_map]
  by_cases inside : major < windowCount lookahead received
  · rw [if_pos inside] at slot
    rw [List.getElem?_range inside]
    cases found : initial[major]? with
    | none =>
        rw [found] at slot
        cases slot
    | some entry =>
        rw [found, Option.map_some, Option.some_inj] at slot
        simp [slot]
  · rw [if_neg inside, Option.map_eq_none_iff] at slot
    have outside : (List.range (windowCount lookahead received)).length ≤
        major := by
      simpa using inside
    rw [slot, List.getElem?_eq_none outside]
    rfl

end Filled

/-! ## The limit -/

/-- The subaddresses of a lookahead around the recipients are within the
limit. -/
structure LookaheadFits (args : Upsert) (lookahead : AddressIndex)
    (recipients : List AddressIndex) (db : Db) : Prop where
  received : ∀ recipient ∈ recipients,
    ¬ RecipientRefused lookahead args.maxSubaddr recipient
  filled : filledCount lookahead recipients ≤ args.maxSubaddr
  stored : db.subaddressCount args.id +
      db.countedSize args.id (lookaheadWindows lookahead recipients) ≤
    args.maxSubaddr

instance {args : Upsert} {lookahead : AddressIndex}
    {recipients : List AddressIndex} {db : Db} :
    Decidable (LookaheadFits args lookahead recipients db) :=
  decidable_of_iff
    ((∀ recipient ∈ recipients,
        ¬ RecipientRefused lookahead args.maxSubaddr recipient) ∧
      filledCount lookahead recipients ≤ args.maxSubaddr ∧
      db.subaddressCount args.id +
          db.countedSize args.id (lookaheadWindows lookahead recipients) ≤
        args.maxSubaddr)
    ⟨fun ⟨received, filled, stored⟩ => ⟨received, filled, stored⟩,
      fun fits => ⟨fits.received, fits.filled, fits.stored⟩⟩

section Limit

variable {env : Env} {args : Upsert} {lookahead : AddressIndex} {db : Db}

theorem lookaheadWindows_checked {received : List AddressIndex} :
    ∀ entry ∈ lookaheadWindows lookahead received,
      checkSubaddressDict entry = true := by
  intro entry member
  obtain ⟨major, -, rfl⟩ := List.mem_map.mp member
  simp [checkSubaddressDict, checkRanges]

theorem lookaheadWindows_distinct {received : List AddressIndex} :
    ((lookaheadWindows lookahead received).map Prod.fst).Nodup := by
  rw [lookaheadWindows, List.map_map]
  refine List.Nodup.map_on ?_ List.nodup_range
  intro left _ right _ same
  exact same

/-- Entries that are in order only fail for the limit. -/
theorem doUpsert_windows {entries : List SubaddressDict}
    (checked : ∀ entry ∈ entries, checkSubaddressDict entry = true)
    (distinct : (entries.map Prod.fst).Nodup) :
    (doUpsert env args entries db).1.isOk = true ∧
        db.subaddressCount args.id + db.countedSize args.id entries ≤
          args.maxSubaddr ∨
      (doUpsert env args entries db).1 = .error .maxSubaddresses ∧
        ¬ db.subaddressCount args.id + db.countedSize args.id entries ≤
          args.maxSubaddr := by
  unfold doUpsert
  split
  · rename_i full
    exact .inr ⟨rfl, by omega⟩
  · rename_i room
    have exact_ := @majors_ok_iff env args db entries
      (db.subaddressCount args.id) [] checked distinct (Nat.not_lt.mp room)
    cases passed : args.majors env entries (db.subaddressCount args.id) []
        db with
    | mk outcome next =>
        cases outcome with
        | ok out => exact .inl ⟨rfl, exact_.mp ⟨out, next, passed⟩⟩
        | error failure =>
            right
            refine ⟨?_, fun within => ?_⟩
            · rw [majors_error checked (Nat.not_lt.mp room) passed]
            · obtain ⟨_, _, other⟩ := exact_.mpr within
              rw [passed] at other
              cases other

/-- The loop over the outputs fails for the limit exactly at a recipient that
is turned down. -/
theorem passes_refused {received recipients : List AddressIndex}
    {initial : List SubaddressDict}
    (widened : Widened lookahead received initial) (looks : lookahead.Looks)
    (fits : lookahead.Fits)
    (recipientsFit : ∀ recipient ∈ recipients, recipient.Fits)
    (reaches : ReachesEnd lookahead args.maxSubaddr recipients) :
    (∃ next, recipients.foldlM (lookaheadPass lookahead args.maxSubaddr)
        initial = .ok next) ↔
      ∀ recipient ∈ recipients,
        ¬ RecipientRefused lookahead args.maxSubaddr recipient := by
  constructor
  · rintro ⟨next, passed⟩
    induction recipients generalizing received initial with
    | nil => simp
    | cons recipient recipients induction =>
        obtain ⟨recipientFits, restFit⟩ :=
          List.forall_mem_cons.mp recipientsFit
        rw [List.foldlM_cons] at passed
        obtain ⟨middle, first, rest⟩ := Outcome.bind_eq_ok.mp passed
        have accepted :
            ¬ RecipientRefused lookahead args.maxSubaddr recipient := by
          intro refused
          rw [lookaheadPass_refused reaches.1 refused] at first
          cases first
        exact List.forall_mem_cons.mpr ⟨accepted, induction
          (widened.pass looks fits recipientFits first) restFit
          (reaches.2.resolve_left accepted).2 rest⟩
  · intro accepted
    rcases (widened.scan_iff looks fits recipientsFit).mp reaches with
      refused | passed
    · induction recipients generalizing received initial with
      | nil => cases refused
      | cons recipient recipients induction =>
          obtain ⟨recipientFits, restFit⟩ :=
            List.forall_mem_cons.mp recipientsFit
          obtain ⟨here, later⟩ := List.forall_mem_cons.mp accepted
          obtain ⟨inside, rest⟩ := reaches.2.resolve_left here
          obtain ⟨next, passed⟩ :=
            (widened.pass_accepted looks fits reaches.1 here).1 inside
          rw [List.foldlM_cons, passed] at refused ⊢
          exact induction (widened.pass looks fits recipientFits passed)
            restFit rest later refused
    · exact passed

/-- A lookahead that is not turned down at once is provisioned when it fits,
and otherwise fails for the limit, unless the loop over the outputs does not
reach its end. -/
theorem doLookahead_outcome (looks : lookahead.Looks) (fits : lookahead.Fits)
    (accepted : ¬ LookaheadRefused lookahead args.maxSubaddr)
    (recipientsFit : ∀ recipient ∈ db.recipients args.id, recipient.Fits) :
    (ReachesEnd lookahead args.maxSubaddr (db.recipients args.id) →
      (doLookahead env args lookahead db).1 =
        if LookaheadFits args lookahead (db.recipients args.id) db then .ok ()
        else .error .maxSubaddresses) ∧
    (¬ ReachesEnd lookahead args.maxSubaddr (db.recipients args.id) →
      ∃ failure, failure ≠ .maxSubaddresses ∧
        (doLookahead env args lookahead db).1 = .error failure) := by
  have started := Widened.start lookahead
  have scanned := @Widened.scan_iff _ args.maxSubaddr _ _ _ started
    looks fits recipientsFit
  obtain ⟨narrow, few⟩ := not_or.mp accepted
  unfold doLookahead
  rw [if_neg (by simp [looks.1, looks.2]), if_neg narrow, if_neg few]
  unfold lookaheadDict
  constructor
  · intro reaches
    have received := passes_refused started looks fits recipientsFit
      reaches
    rcases scanned.mp reaches with refused | ⟨initial, passed⟩
    · rw [refused, if_neg]
      · rfl
      · intro within
        obtain ⟨next, passed⟩ := received.mpr within.received
        rw [refused] at passed
        cases passed
    · have widened := started.passes looks fits recipientsFit passed
      rw [List.nil_append] at widened
      have counted := @lookaheadFill_ok_iff args.maxSubaddr lookahead.minI 0 0
        initial (Nat.zero_le _)
      rw [Nat.zero_add, widened.counted] at counted
      rw [passed]
      simp only [bind, Except.bind]
      cases filling : lookaheadFill lookahead.minI args.maxSubaddr 0 0
          initial with
      | error failure =>
          rw [lookaheadFill_error filling, if_neg]
          intro within
          obtain ⟨filled, other⟩ := counted.mpr within.filled
          rw [filling] at other
          cases other
      | ok filled =>
          obtain rfl := widened.filled filling
          have room := counted.mp ⟨_, filling⟩
          dsimp only
          rcases @doUpsert_windows env args db _
            (@lookaheadWindows_checked lookahead (db.recipients args.id))
            lookaheadWindows_distinct with ⟨stored, within⟩ | ⟨full, beyond⟩
          · rw [if_pos ⟨received.mp ⟨_, passed⟩, room, within⟩]
            cases upserted : doUpsert env args (lookaheadWindows lookahead
                (db.recipients args.id)) db with
            | mk outcome next =>
                rw [upserted] at stored
                cases outcome with
                | ok out => rfl
                | error failure => cases stored
          · rw [if_neg fun within => beyond within.stored]
            cases upserted : doUpsert env args (lookaheadWindows lookahead
                (db.recipients args.id)) db with
            | mk outcome next =>
                rw [upserted] at full
                cases full
                rfl
  · intro stuck
    cases folded : (db.recipients args.id).foldlM
        (lookaheadPass lookahead args.maxSubaddr)
        (List.replicate lookahead.majI (0, [])) with
    | ok next => exact (stuck (scanned.mpr (.inr ⟨next, folded⟩))).elim
    | error failure =>
        refine ⟨failure, ?_, rfl⟩
        rintro rfl
        exact stuck (scanned.mpr (.inl folded))

end Limit

/-! ## Provisioning an account -/

section Provision

variable {env : Env} {user final : Account} {lookahead : AddressIndex}
  {maxSubaddresses : ℕ} {db next : Db}

/-- The account after `provision`. -/
def Account.provisioned (user : Account) (lookahead : AddressIndex)
    (maxSubaddresses : ℕ) (db : Db) : Account :=
  if lookahead.isZero then user
  else
    { user with
      lookahead := lookahead
      lookaheadFail :=
        if lookahead.majI ≠ 0 ∧ lookahead.minI ≠ 0 ∧
            ¬ LookaheadFits ⟨user.id, user.address, user.key, maxSubaddresses⟩
              lookahead (db.recipients user.id) db then
          max 1 user.startHeight
        else user.lookaheadFail }

theorem provision_iff (fits : lookahead.Fits)
    (accepted : lookahead.Looks → ¬ LookaheadRefused lookahead maxSubaddresses)
    (recipientsFit : ∀ recipient ∈ db.recipients user.id, recipient.Fits) :
    (∃ next, provision env user lookahead maxSubaddresses db =
        .ok (final, next)) ↔
      (lookahead.Looks →
        ReachesEnd lookahead maxSubaddresses (db.recipients user.id)) ∧
      final = user.provisioned lookahead maxSubaddresses db := by
  unfold provision Account.provisioned
  by_cases zero : lookahead.isZero = true
  · have idle : ¬ lookahead.Looks := by
      rintro ⟨major, -⟩
      simp [AddressIndex.isZero, major] at zero
    rw [if_pos zero, if_pos zero]
    simp [idle, eq_comm]
  rw [if_neg zero, if_neg zero]
  unfold lookaheadAccount
  let args : Upsert := ⟨user.id, user.address, user.key, maxSubaddresses⟩
  by_cases looks : lookahead.Looks
  · have outcome := @doLookahead_outcome env args lookahead db looks fits
      (accepted looks) recipientsFit
    cases looked : doLookahead env args lookahead db with
    | mk result tables =>
        rw [looked] at outcome
        by_cases reaches : ReachesEnd lookahead maxSubaddresses
            (db.recipients user.id)
        · have known := outcome.1 reaches
          dsimp only at known
          by_cases within : LookaheadFits args lookahead
              (db.recipients user.id) db
          · rw [if_pos within] at known
            subst known
            simp [reaches, looks.1, looks.2, within, args, eq_comm]
          · rw [if_neg within] at known
            subst known
            simp [reaches, looks.1, looks.2, within, args, eq_comm]
        · obtain ⟨failure, other, known⟩ := outcome.2 reaches
          dsimp only at known
          subst known
          simp [reaches, looks, other]
  · have skipped : doLookahead env args lookahead db = (.ok (), db) := by
      unfold doLookahead
      rw [if_pos]
      unfold AddressIndex.Looks at looks
      grind
    have unlimited : ¬ (lookahead.majI ≠ 0 ∧ lookahead.minI ≠ 0 ∧
        ¬ LookaheadFits args lookahead (db.recipients user.id) db) :=
      fun both => looks ⟨both.1, both.2.1⟩
    rw [skipped, if_neg unlimited]
    simp [looks, eq_comm]

@[simp] theorem provisioned_id :
    (user.provisioned lookahead maxSubaddresses db).id = user.id := by
  unfold Account.provisioned
  split <;> rfl

/-- Only the outputs and the tables of subaddresses count. -/
theorem provisioned_of_tables {left right : Db}
    (outputs : left.outputs = right.outputs)
    (tables : SameSubaddresses left right) :
    user.provisioned lookahead maxSubaddresses left =
      user.provisioned lookahead maxSubaddresses right := by
  have recipients : left.recipients user.id = right.recipients user.id := by
    unfold Db.recipients
    rw [outputs]
  have count : left.subaddressCount user.id =
      right.subaddressCount user.id := by
    unfold subaddressCount
    rw [tables.2]
  have size : left.countedSize user.id = right.countedSize user.id := by
    unfold countedSize rangesAt
    rw [tables.1]
  have fits : ∀ key received,
      LookaheadFits ⟨user.id, user.address, key, maxSubaddresses⟩ lookahead
          received left ↔
        LookaheadFits ⟨user.id, user.address, key, maxSubaddresses⟩ lookahead
          received right := by
    intro key received
    have stored : left.subaddressCount user.id + left.countedSize user.id
          (lookaheadWindows lookahead received) =
        right.subaddressCount user.id + right.countedSize user.id
          (lookaheadWindows lookahead received) := by
      rw [count, size]
    exact ⟨fun within => ⟨within.received, within.filled,
        stored.symm.trans_le within.stored⟩,
      fun within => ⟨within.received, within.filled,
        stored.trans_le within.stored⟩⟩
  unfold Account.provisioned
  simp only [recipients, fits]

end Provision

/-! ## Moving an account -/

/-- Every spend at or above `height` has an image of its own. -/
def SpendsImaged (db : Db) (id : AccountId) (height : BlockId) : Prop :=
  ((db.spendsFrom id height).map fun row => imagesKey (spendImage row)).Nodup ∧
    ∀ row ∈ db.spendsFrom id height,
      (db.images.find? (imagesKey (spendImage row))).isSome

/-- The tables hold what `change_height` removes, and the loop over the
remaining outputs reaches its end. -/
structure Movable (db : Db) (user : Account) (height : BlockId)
    (lookahead : AddressIndex) (maxSubaddresses : ℕ) : Prop where
  imaged : db.SpendsImaged user.id height
  reaches : lookahead.Looks → ReachesEnd lookahead maxSubaddresses
    ((db.rollbackOutputs user.id height).recipients user.id)
  indexed :
    (db.accountsByHeight.find? (toLex (user.scanHeight, user.id))).isSome
  free : height ≠ user.scanHeight →
    db.accountsByHeight.find? (toLex (height, user.id)) = none

/-- The account that `change_height` leaves. -/
def Account.moved (user : Account) (height : BlockId)
    (lookahead : AddressIndex) (maxSubaddresses : ℕ) (db : Db) : Account :=
  (user.movedBack height).provisioned lookahead maxSubaddresses
    (db.rollbackOutputs user.id height)

section Moves

variable {env : Env} {db next : Db} {user : Account} {height : BlockId}
  {address : AccountAddress} {entry : AccountByAddress}
  {lookahead : AddressIndex} {maxSubaddresses : ℕ}

theorem dropSpends_ok_iff {rows : List (AccountId × Spend)} :
    (∃ next, rows.foldlM dropSpend db = .ok next) ↔
      (rows.map fun row => imagesKey (spendImage row)).Nodup ∧
        ∀ row ∈ rows,
          (db.images.find? (imagesKey (spendImage row))).isSome := by
  induction rows generalizing db with
  | nil => exact iff_of_true ⟨db, rfl⟩ (by simp)
  | cons row rows induction =>
      rw [List.foldlM_cons, List.map_cons, List.nodup_cons,
        List.forall_mem_cons]
      cases found : db.images.find? (imagesKey (spendImage row)) with
      | none =>
          have fails : dropSpend db row =
              .error (.notFound .images .getBoth) := by
            unfold dropSpend
            dsimp only
            rw [show (row.2.source, (⟨row.2.image, row.2.link⟩ :
              KeyImageLink)) = spendImage row from rfl, found]
          rw [fails]
          exact iff_of_false nofun fun both => by simp at both
      | some image =>
          have drops : dropSpend db row = .ok
              { db with
                images := db.images.erase (imagesKey (spendImage row))
                spends := db.spends.erase (spendsKey row) } := by
            unfold dropSpend
            dsimp only
            rw [show (row.2.source, (⟨row.2.image, row.2.link⟩ :
              KeyImageLink)) = spendImage row from rfl, found]
          rw [drops]
          simp only [bind, Except.bind]
          rw [induction]
          simp only [SortedRows.find?_erase, List.mem_map, not_exists, not_and,
            Option.isSome_some, true_and]
          constructor
          · rintro ⟨distinct, imaged⟩
            refine ⟨⟨fun other member same => ?_, distinct⟩,
              fun other member => ?_⟩
            · have left := imaged other member
              rw [if_pos same] at left
              cases left
            · have left := imaged other member
              split at left
              · cases left
              · exact left
          · rintro ⟨⟨apart, distinct⟩, imaged⟩
            refine ⟨distinct, fun other member => ?_⟩
            rw [if_neg (apart other member)]
            exact imaged other member

theorem storeMoved_ok_iff {current : BlockId} {lookup : AccountLookup}
    (own : user.id = lookup.id) :
    (∃ next, db.storeMoved current height lookup user = .ok next) ↔
      (db.accountsByHeight.find? (toLex (current, user.id))).isSome ∧
        (height ≠ current →
          db.accountsByHeight.find? (toLex (height, user.id)) = none) := by
  unfold storeMoved
  split
  · rename_i missing
    exact iff_of_false nofun fun both => by simp [missing] at both
  · rename_i found
    rw [found]
    unfold SortedRows.putNew
    rw [SortedRows.find?_erase, accountsByHeightKey, ← own]
    by_cases same : height = current
    · subst same
      simp
    · have apart : toLex (height, user.id) ≠ toLex (current, user.id) :=
        fun equality => same (Prod.mk.inj (toLex.injective equality)).1
      rw [if_neg apart]
      cases db.accountsByHeight.find? (toLex (height, user.id)) with
      | none => simp
      | some other => simp [same]

theorem mem_recipients {id : AccountId} {recipient : AddressIndex}
    (member : recipient ∈ (db.rollbackOutputs id height).recipients id) :
    ∃ row ∈ db.outputs, row.2.recipient = recipient := by
  obtain ⟨row, listed, same⟩ := List.mem_map.mp member
  exact ⟨row, (mem_rollbackOutputs.mp
    (SortedRows.mem_rows.mp (List.mem_filter.mp listed).1)).1, same⟩

private theorem moves_iff (own : user.id = entry.lookup.id)
    (fits : lookahead.Fits)
    (accepted : lookahead.Looks → ¬ LookaheadRefused lookahead maxSubaddresses)
    (recipientsFit : ∀ row ∈ db.outputs, row.2.recipient.Fits)
    {rolledBack : Db} (dropped : (db.rollbackOutputs user.id height).rollbackSpends
      user.id height = .ok rolledBack) {final : Account} :
    (∃ provisioned next, provision env (user.movedBack height) lookahead
          maxSubaddresses rolledBack = .ok (final, provisioned) ∧
        provisioned.storeMoved user.scanHeight height entry.lookup final =
          .ok next) ↔
      (lookahead.Looks → ReachesEnd lookahead maxSubaddresses
          ((db.rollbackOutputs user.id height).recipients user.id)) ∧
        final = user.moved height lookahead maxSubaddresses db ∧
        (db.accountsByHeight.find?
          (toLex (user.scanHeight, user.id))).isSome ∧
        (height ≠ user.scanHeight →
          db.accountsByHeight.find? (toLex (height, user.id)) = none) := by
  obtain ⟨images, shape⟩ := rollbackSpends_eq dropped
  have outputs : (db.rollbackOutputs user.id height).outputs =
      rolledBack.outputs := by rw [shape]
  have tables : SameSubaddresses (db.rollbackOutputs user.id height)
      rolledBack := by
    rw [shape]
    exact ⟨rfl, rfl⟩
  have recipients : rolledBack.recipients user.id =
      (db.rollbackOutputs user.id height).recipients user.id := by
    unfold Db.recipients
    rw [outputs]
  have provides := @provision_iff env (user.movedBack height) final lookahead
    maxSubaddresses rolledBack fits accepted (by
      intro recipient member
      rw [show (user.movedBack height).id = user.id from rfl,
        recipients] at member
      obtain ⟨row, stored, rfl⟩ := mem_recipients member
      exact recipientsFit row stored)
  rw [show (user.movedBack height).id = user.id from rfl, recipients,
    ← provisioned_of_tables outputs tables] at provides
  have stores : ∀ provisioned, provision env (user.movedBack height) lookahead
      maxSubaddresses rolledBack = .ok (final, provisioned) →
      provisioned.accountsByHeight = db.accountsByHeight := by
    intro provisioned success
    obtain ⟨-, _, _, same⟩ := provision_eq success
    rw [same, shape]
    rfl
  constructor
  · rintro ⟨provisioned, next, success, stored⟩
    obtain ⟨reaches, same⟩ := provides.mp ⟨provisioned, success⟩
    have id : final.id = user.id := by
      rw [same, provisioned_id]
      rfl
    have indexed := (storeMoved_ok_iff (id.trans own)).mp ⟨next, stored⟩
    rw [stores provisioned success, id] at indexed
    exact ⟨reaches, same, indexed⟩
  · rintro ⟨reaches, same, indexed⟩
    obtain ⟨provisioned, success⟩ := provides.mpr ⟨reaches, same⟩
    have id : final.id = user.id := by
      rw [same, Account.moved, provisioned_id]
      rfl
    rw [← stores provisioned success, ← id] at indexed
    obtain ⟨next, stored⟩ := (storeMoved_ok_iff (id.trans own)).mpr indexed
    exact ⟨provisioned, next, success, stored⟩

/-- An account is moved exactly when it is movable. -/
theorem changeHeight_iff (found : db.findByAddress? address = some entry)
    (owner : db.findAccount? entry.lookup = some user) (fits : lookahead.Fits)
    (accepted : lookahead.Looks → ¬ LookaheadRefused lookahead maxSubaddresses)
    (recipientsFit : ∀ row ∈ db.outputs, row.2.recipient.Fits) :
    (∃ next, changeHeight env height address lookahead maxSubaddresses db =
        .ok next) ↔
      db.Movable user height lookahead maxSubaddresses := by
  have own := (Agreement.findAccount_iff.mp owner).2
  have rolled := @dropSpends_ok_iff (db.rollbackOutputs user.id height)
    (db.spendsFrom user.id height)
  unfold changeHeight
  rw [found]
  dsimp only
  rw [owner]
  dsimp only
  constructor
  · rintro ⟨next, success⟩
    obtain ⟨rolledBack, dropped, rest⟩ := Outcome.bind_eq_ok.mp success
    obtain ⟨⟨moved, provisioned⟩, lookedAhead, stored⟩ :=
      Outcome.bind_eq_ok.mp rest
    obtain ⟨reaches, -, indexed, free⟩ := (moves_iff own fits accepted
      recipientsFit dropped).mp ⟨provisioned, next, lookedAhead, stored⟩
    exact ⟨rolled.mp ⟨rolledBack, dropped⟩, reaches, indexed, free⟩
  · intro movable
    obtain ⟨rolledBack, dropped⟩ := rolled.mpr movable.imaged
    obtain ⟨provisioned, next, lookedAhead, stored⟩ := (moves_iff own fits
      accepted recipientsFit dropped).mpr
        ⟨movable.reaches, rfl, movable.indexed, movable.free⟩
    exact ⟨next, Outcome.bind_eq_ok.mpr ⟨_, dropped,
      Outcome.bind_eq_ok.mpr ⟨_, lookedAhead, stored⟩⟩⟩

/-- The account is `moved`, under its old status; requests and addresses
stay. -/
theorem changeHeight_moved (found : db.findByAddress? address = some entry)
    (owner : db.findAccount? entry.lookup = some user) (fits : lookahead.Fits)
    (accepted : lookahead.Looks → ¬ LookaheadRefused lookahead maxSubaddresses)
    (recipientsFit : ∀ row ∈ db.outputs, row.2.recipient.Fits)
    (success : changeHeight env height address lookahead maxSubaddresses db =
      .ok next) :
    next.findByAddress? address = some entry ∧
      next.findAccount? entry.lookup =
        some (user.moved height lookahead maxSubaddresses db) ∧
      next.requests = db.requests := by
  have own := (Agreement.findAccount_iff.mp owner).2
  unfold changeHeight at success
  rw [found] at success
  dsimp only at success
  rw [owner] at success
  obtain ⟨rolledBack, dropped, rest⟩ := Outcome.bind_eq_ok.mp success
  obtain ⟨⟨moved, provisioned⟩, lookedAhead, stored⟩ :=
    Outcome.bind_eq_ok.mp rest
  obtain ⟨-, rfl, -⟩ := (moves_iff own fits accepted recipientsFit
    dropped).mp ⟨provisioned, next, lookedAhead, stored⟩
  obtain ⟨-, rfl⟩ := storeMoved_eq stored
  obtain ⟨-, _, _, same⟩ := provision_eq lookedAhead
  obtain ⟨images, shape⟩ := rollbackSpends_eq dropped
  have kept : provisioned.accountsByAddress = db.accountsByAddress ∧
      provisioned.requests = db.requests := by
    rw [same, shape]
    exact ⟨rfl, rfl⟩
  have id : (user.moved height lookahead maxSubaddresses db).id =
      entry.lookup.id := by
    rw [Account.moved, provisioned_id]
    exact own
  refine ⟨?_, ?_, kept.2⟩
  · rw [← found]
    unfold findByAddress?
    rw [← kept.1]
  · exact Agreement.findAccount_iff.mpr ⟨SortedRows.mem_put.mpr (.inl rfl), id⟩

end Moves

end XfoLws.Db
