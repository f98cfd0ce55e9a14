import XfoLws.Db.FiledAccounts
import XfoLws.Lib.Mirrors

/-!
# Spends and their images

`images` mirrors `spends` as long as a source and an image name one row of
`spends`; then a rollback of spends finds every image.
-/

namespace XfoLws.Db

/-! ## The mirror -/

/-- The row of `images` for a row of `spends`. -/
def spendImage (row : AccountId × Spend) : OutputId × KeyImageLink :=
  (row.2.source, ⟨row.2.image, row.2.link⟩)

/-- `images` holds exactly the images of `spends`. -/
abbrev ImagesMirror (db : Db) : Prop :=
  Mirrors spendImage db.spends db.images

/-- A source and an image name one row of `spends`. -/
abbrev ImagesIdentify (db : Db) : Prop :=
  Identifies imagesKey spendImage db.spends

theorem outputIdOrder_injective : Function.Injective OutputId.order := by
  rintro ⟨leftHigh, leftLow⟩ ⟨rightHigh, rightLow⟩ same
  obtain ⟨rfl, rfl⟩ := Prod.mk.inj (toLex.injective same)
  rfl

theorem imagesKey_eq {left right : AccountId × Spend} :
    imagesKey (spendImage left) = imagesKey (spendImage right) ↔
      left.2.source = right.2.source ∧ left.2.image = right.2.image := by
  constructor
  · intro same
    obtain ⟨source, image⟩ := Prod.mk.inj (toLex.injective same)
    exact ⟨outputIdOrder_injective source, image⟩
  · rintro ⟨source, image⟩
    simp only [imagesKey, spendImage, source, image]

theorem spendsKey_eq {left right : AccountId × Spend} :
    spendsKey left = spendsKey right ↔
      left.1 = right.1 ∧ spendImage left = spendImage right := by
  obtain ⟨leftUser, ⟨⟨leftHeight, leftTx⟩, leftImage, ⟨leftHigh, leftLow⟩,
    _, _, _, _, _, _⟩⟩ := left
  obtain ⟨rightUser, ⟨⟨rightHeight, rightTx⟩, rightImage,
    ⟨rightHigh, rightLow⟩, _, _, _, _, _, _⟩⟩ := right
  simp only [spendsKey, Spend.order, spendImage, toLex_inj, Prod.mk.injEq,
    OutputId.mk.injEq, KeyImageLink.mk.injEq, TransactionLink.mk.injEq]
  tauto

section Rollback

variable {db next : Db}

theorem dropSpend_mirrors (mirror : ImagesMirror db)
    (identify : ImagesIdentify db) {row : AccountId × Spend}
    (member : row ∈ db.spends) :
    ∃ next, dropSpend db row = .ok next ∧ ImagesMirror next ∧
      next.spends = db.spends.erase (spendsKey row) := by
  refine ⟨{ db with
    images := db.images.erase (imagesKey (spendImage row))
    spends := db.spends.erase (spendsKey row) }, ?_,
    mirror.erase identify member, rfl⟩
  have found := mirror.find member
  unfold dropSpend
  dsimp only
  rw [show (row.2.source, (⟨row.2.image, row.2.link⟩ : KeyImageLink)) =
    spendImage row from rfl, found]

private theorem dropSpends_mirror {rows : List (AccountId × Spend)}
    (mirror : ImagesMirror db) (identify : ImagesIdentify db)
    (distinct : rows.Pairwise fun left right =>
      spendsKey left ≠ spendsKey right)
    (members : ∀ row ∈ rows, row ∈ db.spends) :
    ∃ next, rows.foldlM dropSpend db = .ok next ∧ ImagesMirror next := by
  induction rows generalizing db with
  | nil => exact ⟨db, rfl, mirror⟩
  | cons row rows induction =>
      obtain ⟨different, distinct⟩ := List.pairwise_cons.mp distinct
      obtain ⟨middle, dropped, kept, spends⟩ :=
        dropSpend_mirrors mirror identify (members row (by simp))
      have identifyMiddle : ImagesIdentify middle := by
        intro left leftMember right rightMember same
        rw [spends] at leftMember rightMember
        exact identify left (SortedRows.mem_erase.mp leftMember).1
          right (SortedRows.mem_erase.mp rightMember).1 same
      obtain ⟨next, rest, keptNext⟩ := induction kept identifyMiddle distinct
        (fun other otherMember => by
          rw [spends]
          exact SortedRows.mem_erase.mpr
            ⟨members other (List.mem_cons_of_mem _ otherMember),
              (different other otherMember).symm⟩)
      refine ⟨next, ?_, keptNext⟩
      rw [List.foldlM_cons, dropped]
      exact rest

/-- A rollback of spends finds every image and keeps the mirror. -/
theorem rollbackSpends_mirrors (mirror : ImagesMirror db)
    (identify : ImagesIdentify db) (user : AccountId) (height : BlockId) :
    ∃ next, db.rollbackSpends user height = .ok next ∧ ImagesMirror next := by
  have distinct : (db.spendsFrom user height).Pairwise fun left right =>
      spendsKey left ≠ spendsKey right :=
    (db.spends.sorted.imp ne_of_lt).filter _
  exact dropSpends_mirror mirror identify distinct
    fun row member => (List.mem_filter.mp member).1

theorem ImagesMirror.rolledBack (mirror : ImagesMirror db)
    (identify : ImagesIdentify db) {user : AccountId} {height : BlockId}
    (success : db.rollbackSpends user height = .ok next) :
    ImagesMirror next := by
  obtain ⟨other, passed, kept⟩ :=
    rollbackSpends_mirrors mirror identify user height
  rw [success] at passed
  cases passed
  exact kept

end Rollback

/-! ## Calls that add no spends -/

/-- The mirror, with what a rollback of any account needs to find it. -/
structure ImagesFiled (pending : List (BlockId × AccountLookup)) (db : Db) :
    Prop where
  filed : Filed pending db
  mirror : ImagesMirror db
  identify : ImagesIdentify db

/-- No block is added and no spend. -/
structure Thinned (db next : Db) : Prop where
  blocks : next.blocks = db.blocks
  spends : ∀ row ∈ next.spends, row ∈ db.spends

theorem Thinned.refl (db : Db) : Thinned db db :=
  ⟨rfl, fun _ member => member⟩

theorem Thinned.trans {db middle next : Db} (first : Thinned db middle)
    (second : Thinned middle next) : Thinned db next :=
  ⟨second.blocks.trans first.blocks,
    fun row member => first.spends row (second.spends row member)⟩

theorem identify_of_subset {db next : Db} (identify : ImagesIdentify db)
    (spends : ∀ row ∈ next.spends, row ∈ db.spends) : ImagesIdentify next :=
  fun left leftMember right rightMember =>
    identify left (spends left leftMember) right (spends right rightMember)

theorem ScanStored.images_eq {height last : BlockId} {state next : Updating}
    {user : ScannedAccount} {status : AccountStatus} {existing : Account}
    (stored : ScanStored height last state user status existing next) :
    next.db.images = state.db.images.addAll
      ((user.spends.map fun spend => (user.id, spend)).map spendImage) := by
  obtain ⟨events, hooked⟩ := addOngoingHooks_eq stored.hooks_eq
  rw [hooked, List.map_map]
  rfl

theorem storeScan_indexed {height last : BlockId} {state next : Updating}
    {user : ScannedAccount} {status : AccountStatus} {existing : Account}
    (success : storeScan height last state user status existing = .ok next) :
    (state.db.accountsByHeight.find?
      (toLex (existing.scanHeight, user.id))).isSome := by
  unfold storeScan at success
  split at success
  · cases success
  · rename_i found
    exact Option.isSome_iff_ne_none.mpr (by simpa using found)

namespace ImagesFiled

variable {pending : List (BlockId × AccountLookup)} {env : Env} {db next : Db}

theorem relabel (files : ImagesFiled pending db) (sameIds : SameIds db next)
    (heights : next.accountsByHeight = db.accountsByHeight)
    (spends : next.spends = db.spends) (images : next.images = db.images) :
    ImagesFiled pending next := by
  refine ⟨files.filed.relabel sameIds heights spends, ?_, ?_⟩
  · rw [ImagesMirror, spends, images]
    exact files.mirror
  · rw [ImagesIdentify, spends]
    exact files.identify

/-- What a rollback of one account leaves under its id. -/
private theorem spendsBelow_own {user : AccountId} {height : BlockId}
    {row : AccountId × Spend} (member : row ∈ db.spendsBelow user height)
    (own : row.1 = user) : row.2.link.height < height := by
  by_contra late
  exact (mem_spendsBelow.mp member).2 ⟨own, Nat.le_of_not_lt late⟩

theorem changeHeight {height : BlockId} {address : AccountAddress}
    {lookahead : AddressIndex} {maxSubaddresses : ℕ}
    (files : ImagesFiled [] db)
    (success : changeHeight env height address lookahead maxSubaddresses db =
      .ok next) : ImagesFiled [] next ∧ Thinned db next := by
  unfold Db.changeHeight at success
  split at success
  · cases success
  rename_i byAddress byAddressFound
  split at success
  · cases success
  rename_i user userFound
  obtain ⟨rolledBack, dropped, rest⟩ := Outcome.bind_eq_ok.mp success
  obtain ⟨⟨moved, provisioned⟩, lookedAhead, stored⟩ :=
    Outcome.bind_eq_ok.mp rest
  have mirror : ImagesMirror rolledBack :=
    @ImagesMirror.rolledBack (db.rollbackOutputs user.id height) _
      files.mirror files.identify _ _ dropped
  obtain ⟨images, rfl⟩ := rollbackSpends_eq dropped
  obtain ⟨⟨_, _, rfl⟩, _, _, rfl⟩ := provision_eq lookedAhead
  obtain ⟨found, rfl⟩ := storeMoved_eq stored
  obtain ⟨member, sameId⟩ := Agreement.findAccount_iff.mp userFound
  obtain ⟨old, oldFound⟩ := Option.isSome_iff_exists.mp found
  obtain ⟨oldMember, oldKey⟩ := SortedRows.find?_eq_some.mp oldFound
  have owner : old.2.id = user.id :=
    (Prod.mk.inj (toLex.injective oldKey)).2
  have subset : ∀ row ∈ db.spendsBelow user.id height, row ∈ db.spends :=
    fun row rowMember => (mem_spendsBelow.mp rowMember).1
  refine ⟨⟨files.filed.refile (.of_put member ?_ rfl)
    (height, byAddress.lookup) oldMember ?_ (by simp) ?_ ?_ ?_, mirror,
    identify_of_subset files.identify subset⟩, rfl, subset⟩
  · rfl
  · exact sameId.symm.trans owner.symm
  · rw [oldKey]
    rfl
  · intro row rowMember own
    exact (spendsBelow_own rowMember (own.trans sameId.symm)).le
  · exact fun row rowMember _ => subset row rowMember

theorem changeStatusOf {status : AccountStatus} {address : AccountAddress}
    {found : Bool} (files : ImagesFiled [] db)
    (success : changeStatusOf status db address = .ok (next, found)) :
    ImagesFiled [] next ∧ Thinned db next := by
  unfold Db.changeStatusOf at success
  split at success
  · cases success
    exact ⟨files, .refl _⟩
  rename_i entry addressed
  dsimp only at success
  split at success
  · cases success
    exact ⟨files, .refl _⟩
  split at success
  · cases success
  rename_i user located
  split at success
  · cases success
  rename_i stored
  obtain ⟨-, rfl⟩ := SortedRows.putNew_eq_some.mp stored
  split at success
  · cases success
  rename_i old oldFound
  cases success
  obtain ⟨member, sameId⟩ := Agreement.findAccount_iff.mp located
  obtain ⟨oldMember, oldKey⟩ := SortedRows.find?_eq_some.mp oldFound
  obtain ⟨oldHeight, oldId⟩ := Prod.mk.inj (toLex.injective oldKey)
  refine ⟨⟨files.filed.refile (.moved member sameId rfl)
    (user.scanHeight, ⟨entry.lookup.id, status⟩) oldMember ?_ (by simp) ?_ ?_
    ?_, files.mirror, files.identify⟩, rfl, fun _ rowMember => rowMember⟩
  · exact sameId.symm.trans oldId.symm
  · rw [oldKey, sameId]
    exact (SortedRows.put_erase _ _).symm
  · intro row rowMember own
    obtain ⟨other, stored, owner, below⟩ := files.filed.reached row rowMember
    have same := files.filed.single other stored old (.inl oldMember)
      (owner.trans (own.trans (sameId.symm.trans oldId.symm)))
    rw [same, oldHeight] at below
    exact below
  · exact fun row rowMember _ => rowMember

theorem changeStatus {status : AccountStatus}
    {addresses found : List AccountAddress} (files : ImagesFiled [] db)
    (success : db.changeStatus status addresses = .ok (next, found)) :
    ImagesFiled [] next ∧ Thinned db next := by
  refine Outcome.foldlM_preserves (fun state : Db × List AccountAddress =>
    ImagesFiled [] state.1 ∧ Thinned db state.1) ?_ ⟨files, .refl db⟩ success
  rintro state address final _member ⟨kept, thinned⟩ stepped
  obtain ⟨⟨middle, changed⟩, once, stored⟩ := Outcome.bind_eq_ok.mp stepped
  cases stored
  obtain ⟨keptNext, thinnedNext⟩ := kept.changeStatusOf once
  exact ⟨keptNext, thinned.trans thinnedNext⟩

theorem rescan {height : BlockId} {addresses found : List AccountAddress}
    (files : ImagesFiled [] db)
    (success : rescan env db height addresses = .ok (next, found)) :
    ImagesFiled [] next ∧ Thinned db next := by
  obtain ⟨current, -, checked⟩ := Outcome.bind_eq_ok.mp success
  split at checked
  · cases checked
  refine Outcome.foldlM_preserves (fun state : Db × List AccountAddress =>
    ImagesFiled [] state.1 ∧ Thinned db state.1) ?_ ⟨files, .refl db⟩ checked
  rintro state address final _member ⟨kept, thinned⟩ stepped
  unfold rescanOf at stepped
  split at stepped
  · rename_i changed
    cases stepped
    obtain ⟨keptNext, thinnedNext⟩ := kept.changeHeight changed
    exact ⟨keptNext, thinned.trans thinnedNext⟩
  · cases stepped
    exact ⟨kept, thinned⟩
  · cases stepped

theorem importAccounts {addresses found : List AccountAddress}
    {maxSubaddresses : ℕ} (files : ImagesFiled [] db)
    (success : importAccounts env db addresses maxSubaddresses =
      .ok (next, found)) : ImagesFiled [] next ∧ Thinned db next := by
  refine Outcome.foldlM_preserves (fun state : Db × List AccountAddress =>
    ImagesFiled [] state.1 ∧ Thinned db state.1) ?_ ⟨files, .refl db⟩ success
  rintro state address final _member ⟨kept, thinned⟩ stepped
  unfold importAccount at stepped
  split at stepped
  · cases stepped
    exact ⟨kept, thinned⟩
  rename_i info requested
  have erased : ImagesFiled [] (state.1.eraseRequest .importScan address) ∧
      Thinned db (state.1.eraseRequest .importScan address) :=
    ⟨kept.relabel (.of_accounts rfl) rfl rfl rfl,
      thinned.trans ⟨rfl, fun _ member => member⟩⟩
  dsimp only at stepped
  split at stepped
  · rename_i changed
    cases stepped
    obtain ⟨keptNext, thinnedNext⟩ := erased.1.changeHeight changed
    exact ⟨keptNext, erased.2.trans thinnedNext⟩
  · cases stepped
    exact erased
  · cases stepped

/-! ## Rolling back the chain -/

/-- The walk of `rollback_accounts` between the index rows `done` and
`rest`. -/
private structure Unwinding (height : BlockId) (db : Db)
    (done rest : List (BlockId × AccountLookup)) (state : Db) : Prop where
  files : ImagesFiled (done.map fun row => (rollbackHeight height, row.2)) state
  spends : ∀ row ∈ state.spends, row ∈ db.spends
  cleared : ∀ other ∈ done, ∀ row ∈ state.spends, row.1 = other.2.id →
    row.2.link.height < height
  remaining : ∀ row ∈ rest, row ∈ state.accountsByHeight
  covered : ∀ row ∈ state.accountsByHeight, height ≤ row.1 → row ∈ rest
  distinct : rest.Pairwise fun left right => left.2.id ≠ right.2.id
  unbuffered : ∀ row ∈ rest, ∀ other ∈ done, other.2.id ≠ row.2.id

private theorem Unwinding.start {height : BlockId}
    (files : ImagesFiled [] db) :
    Unwinding height db [] (db.scannedFrom height) db where
  files := files
  spends := fun _ member => member
  cleared := by simp
  remaining := fun row member => (List.mem_filter.mp member).1
  covered := by
    intro row member late
    exact List.mem_filter.mpr ⟨member, by simpa using late⟩
  distinct := by
    have fresh : (db.scannedFrom height).Nodup :=
      db.accountsByHeight.rows_nodup.filter _
    refine fresh.imp_of_mem fun {left right} leftMember rightMember different
      same => different ?_
    exact files.filed.single left (.inl (List.mem_filter.mp leftMember).1)
      right (.inl (List.mem_filter.mp rightMember).1) same
  unbuffered := by simp

/-- One pass of the walk: the account of the next index row. -/
private theorem Unwinding.step {height : BlockId} {state : Db}
    {done rest : List (BlockId × AccountLookup)}
    {row : BlockId × AccountLookup}
    (unwinding : Unwinding height db done (row :: rest) state)
    (success : rollbackAccount height state row = .ok next) :
    Unwinding height db (done ++ [row]) rest next := by
  unfold rollbackAccount at success
  split at success
  · cases success
  rename_i status user found
  obtain ⟨rolledBack, dropped, rest⟩ := Outcome.bind_eq_ok.mp success
  have located : state.findAccount? row.2 = some user := by
    unfold findAccount?
    rw [found]
    rfl
  obtain ⟨member, sameId⟩ := Agreement.findAccount_iff.mp located
  have mirror : ImagesMirror rolledBack :=
    @ImagesMirror.rolledBack ({ state with
      accounts := state.accounts.put (row.2.status, _) }.rollbackOutputs
        user.id height) _
      unwinding.files.mirror unwinding.files.identify _ _ dropped
  obtain ⟨images, rfl⟩ := rollbackSpends_eq dropped
  cases rest
  obtain ⟨different, distinct⟩ := List.pairwise_cons.mp unwinding.distinct
  have indexed := unwinding.remaining row List.mem_cons_self
  have unbuffered := unwinding.unbuffered row List.mem_cons_self
  have subset : ∀ spend ∈ state.spendsBelow user.id height,
      spend ∈ state.spends :=
    fun spend spendMember => (mem_spendsBelow.mp spendMember).1
  refine ⟨⟨?_, mirror, identify_of_subset unwinding.files.identify subset⟩,
    fun spend spendMember => unwinding.spends spend (subset spend spendMember),
    ?_, ?_, ?_, distinct, ?_⟩
  · rw [List.map_append]
    refine unwinding.files.filed.buffer (.of_put member ?_ rfl)
      (rollbackHeight height, row.2) indexed rfl ?_ rfl ?_ ?_
    · rfl
    · intro entry buffered
      obtain ⟨other, otherMember, rfl⟩ := List.mem_map.mp buffered
      exact unbuffered other otherMember
    · intro spend spendMember own
      have early := spendsBelow_own spendMember (own.trans sameId.symm)
      unfold rollbackHeight
      lia
    · exact fun spend spendMember _ => subset spend spendMember
  · intro other otherMember spend spendMember own
    rcases List.mem_append.mp otherMember with before | here
    · exact unwinding.cleared other before spend (subset spend spendMember) own
    · rw [List.mem_singleton.mp here] at own
      exact spendsBelow_own spendMember (own.trans sameId.symm)
  · intro other otherMember
    refine SortedRows.mem_erase.mpr
      ⟨unwinding.remaining other (List.mem_cons_of_mem _ otherMember), ?_⟩
    intro sameKey
    exact different other otherMember
      (Prod.mk.inj (toLex.injective sameKey)).2.symm
  · intro other otherMember late
    obtain ⟨stored, remains⟩ := SortedRows.mem_erase.mp otherMember
    refine (List.mem_cons.mp (unwinding.covered other stored late)).resolve_left
      fun same => remains ?_
    rw [same]
  · intro other otherMember before beforeMember
    rcases List.mem_append.mp beforeMember with earlier | here
    · exact unwinding.unbuffered other (List.mem_cons_of_mem _ otherMember)
        before earlier
    · rw [List.mem_singleton.mp here]
      exact different other otherMember

theorem rollbackAccounts {height : BlockId} (files : ImagesFiled [] db)
    (success : db.rollbackAccounts height = .ok next) :
    ImagesFiled [] next ∧ ∀ row ∈ next.spends,
      row ∈ db.spends ∧ row.2.link.height < height := by
  obtain ⟨walked, folded, flushed⟩ := Outcome.bind_eq_ok.mp success
  cases flushed
  obtain ⟨done, visited, unwinding⟩ : ∃ done,
      done ++ [] = db.scannedFrom height ∧
        Unwinding height db done [] walked := by
    refine Outcome.foldlM_consumes (fun state rest => ∃ done,
      done ++ rest = db.scannedFrom height ∧
        Unwinding height db done rest state) ?_ ⟨[], rfl, .start files⟩ folded
    rintro state row rest after ⟨done, split, before⟩ stepped
    exact ⟨done ++ [row], by rw [← split, List.append_assoc]; rfl,
      before.step stepped⟩
  rw [← visited, List.append_nil]
  refine ⟨⟨unwinding.files.filed.flush, unwinding.files.mirror,
    unwinding.files.identify⟩, ?_⟩
  intro row member
  refine ⟨unwinding.spends row member, ?_⟩
  obtain ⟨entry, stored | buffered, owner, below⟩ :=
    unwinding.files.filed.reached row member
  · -- an index row the walk has left lies below the height
    by_contra late
    have above := (Nat.le_of_not_lt late).trans below
    exact List.not_mem_nil (unwinding.covered entry stored above)
  · obtain ⟨other, otherMember, rfl⟩ := List.mem_map.mp buffered
    exact unwinding.cleared other otherMember row member owner.symm

/-- A rollback of the chain leaves no spend at or above its height. -/
theorem rollbackChain {first height : BlockId} (files : ImagesFiled [] db)
    (success : db.rollbackChain first height = .ok next) :
    ImagesFiled [] next ∧ ∀ row ∈ next.spends,
      row ∈ db.spends ∧ row.2.link.height < height := by
  obtain ⟨rolled, stepped, stored⟩ := Outcome.bind_eq_ok.mp success
  cases stored
  have dropped : ImagesFiled [] (db.dropBlocks first height) :=
    files.relabel (.of_accounts rfl) rfl rfl rfl
  obtain ⟨kept, spends⟩ := dropped.rollbackAccounts stepped
  exact ⟨kept.relabel (.of_accounts rfl) rfl rfl rfl, spends⟩

/-! ## Storing a scan -/

theorem flush {last : BlockId} {state : Updating}
    (files : ImagesFiled (state.pending last) state.db) :
    ImagesFiled [] (state.flush last).db :=
  ⟨files.filed.flush, files.mirror, files.identify⟩

theorem room {last : BlockId} {state : Updating}
    (files : ImagesFiled (state.pending last) state.db) :
    ImagesFiled ((state.room last).pending last) (state.room last).db := by
  unfold Updating.room
  split
  · exact files.flush
  · exact files

/-- Storing a scan adds its spends and their images, as long as an image that
is there already is that of the same spend. -/
theorem scanStored {height last : BlockId} {state next : Updating}
    {user : ScannedAccount} {status : AccountStatus} {existing : Account}
    (files : ImagesFiled (state.pending last) state.db)
    (located : state.db.findAccount? ⟨user.id, status⟩ = some existing)
    (ahead : existing.scanHeight < last)
    (below : ∀ spend ∈ user.spends, spend.link.height ≤ last)
    (once : ∀ left, left ∈ state.db.spends ∨
      left ∈ user.spends.map (fun spend => (user.id, spend)) → ∀ right,
      right ∈ state.db.spends ∨
      right ∈ user.spends.map (fun spend => (user.id, spend)) →
      imagesKey (spendImage left) = imagesKey (spendImage right) →
      spendsKey left = spendsKey right)
    (success : storeScan height last state user status existing = .ok next) :
    ImagesFiled (next.pending last) next.db := by
  have stored := storeScan_ok success
  have images := stored.images_eq
  obtain ⟨_, _, tables⟩ := stored.db_eq
  have spends : next.db.spends = state.db.spends.addAll
      (user.spends.map fun spend => (user.id, spend)) := by
    rw [tables]
  obtain ⟨member, sameId⟩ := Agreement.findAccount_iff.mp located
  obtain ⟨old, oldFound⟩ := Option.isSome_iff_exists.mp
    (storeScan_indexed success)
  obtain ⟨oldMember, oldKey⟩ := SortedRows.find?_eq_some.mp oldFound
  obtain ⟨oldHeight, oldId⟩ := Prod.mk.inj (toLex.injective oldKey)
  have buffered : next.pending last =
      state.pending last ++ [(last, ⟨user.id, status⟩)] := by
    simp [Updating.pending, stored.heights_eq]
  refine ⟨?_, ?_, ?_⟩
  · rw [buffered]
    refine files.filed.buffer (.of_put member ?_ (by rw [tables]))
      (last, ⟨user.id, status⟩) oldMember oldId.symm ?_ ?_ ?_ ?_
    · rfl
    · -- a buffered row is already at the last block of the batch
      intro entry entryMember own
      have same := files.filed.single entry (.inr entryMember) old
        (.inl oldMember) own
      obtain ⟨lookup, -, rfl⟩ := List.mem_map.mp entryMember
      rw [← same] at oldHeight
      exact Nat.ne_of_gt ahead oldHeight
    · rw [tables, oldKey]
    · intro row rowMember own
      rw [spends] at rowMember
      rcases SortedRows.mem_of_mem_addAll rowMember with before | new
      · obtain ⟨entry, stored, owner, above⟩ := files.filed.reached row before
        have same := files.filed.single entry stored old (.inl oldMember)
          (owner.trans (own.trans oldId.symm))
        rw [same, oldHeight] at above
        exact above.trans ahead.le
      · obtain ⟨spend, spendMember, rfl⟩ := List.mem_map.mp new
        exact below spend spendMember
    · intro row rowMember other
      rw [spends] at rowMember
      refine (SortedRows.mem_of_mem_addAll rowMember).resolve_right ?_
      intro new
      obtain ⟨spend, -, rfl⟩ := List.mem_map.mp new
      exact other rfl
  · rw [ImagesMirror, spends, images]
    refine files.mirror.addAll (fun left right same =>
      (spendsKey_eq.mp same).2) ?_
    intro left leftRow right rightRow same
    exact (spendsKey_eq.mp (once left leftRow right rightRow same)).2
  · intro left leftMember right rightMember same
    rw [spends] at leftMember rightMember
    exact SortedRows.eq_of_key_eq leftMember rightMember
      (once left (SortedRows.mem_of_mem_addAll leftMember) right
        (SortedRows.mem_of_mem_addAll rightMember) same)

/-! ## Adding accounts -/

theorem add {user : Account} (files : ImagesFiled [] db)
    (fresh : ∀ row ∈ db.accounts, row.2.id ≠ user.id)
    (valid : user.id < AccountId.invalid) (added : Added env user db next) :
    ImagesFiled [] next := by
  have filed := files.filed.add fresh valid added
  obtain rfl := added.next_eq
  exact ⟨filed, files.mirror, files.identify⟩

end ImagesFiled

end XfoLws.Db
