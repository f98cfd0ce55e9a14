import XfoLws.Db.LookaheadStores

/-!
# Lookaheads over whole runs

An account without a failure height has all its promised windows stored, as
long as no move to an earlier height clears a failure height whose windows are
still missing: `change_height` compares heights and provisions nothing.

The scanner announces an index to `update_lookahead` before it stores the
output, so the invariant speaks of the announcements as well.
-/

namespace XfoLws.Db

/-- An index that an account is to receive an output at. -/
structure Announcement where
  id : AccountId
  height : BlockId
  index : AddressIndex
deriving DecidableEq, Repr

/-- The window around an index is stored, or a failure height tells of a
failure at or below. -/
def Backed (db : Db) (user : Account) (height : BlockId)
    (index : AddressIndex) : Prop :=
  user.lookahead.Looks →
    db.Stores user.id (InWindow user.lookahead index) ∨
      (user.lookaheadFail ≠ 0 ∧ user.lookaheadFail ≤ max 1 height)

/-- What the tables hold for an account and its lookahead. -/
structure Promise (announced : List Announcement) (db : Db) (user : Account) :
    Prop where
  fits : user.lookahead.Fits
  base : user.lookahead.Looks → user.lookaheadFail = 0 →
    db.Stores user.id (InBase user.lookahead)
  started : ∀ row ∈ db.outputs, row.1 = user.id →
    user.startHeight < row.2.link.height
  received : ∀ row ∈ db.outputs, row.1 = user.id →
    row.2.recipient.isZero = false →
    Backed db user row.2.link.height row.2.recipient
  announces : ∀ note ∈ announced, note.id = user.id →
    Backed db user note.height note.index

/-- The invariant of every run: all accounts get what their lookahead
promises. -/
structure Provisioned (env : Env) (bases : Bases)
    (announced : List Announcement) (db : Db) : Prop where
  keys : KeysDerived env bases db
  ids : UsableIds db
  distinct : ∀ left ∈ db.accounts, ∀ right ∈ db.accounts,
    left.2.id = right.2.id → left = right
  owners : ∀ row ∈ db.outputs, ∃ account ∈ db.accounts, account.2.id = row.1
  announcers : ∀ note ∈ announced, ∃ account ∈ db.accounts,
    account.2.id = note.id
  recipients : ∀ row ∈ db.outputs, row.2.recipient.Fits
  requests : ∀ row ∈ db.requests, row.2.lookahead.Fits
  promises : ∀ row ∈ db.accounts, Promise announced db row.2

/-- The move clears the failure height. -/
def Account.Clears (user : Account) (height : BlockId) : Prop :=
  user.lookaheadFail ≠ 0 ∧ height ≤ user.lookaheadFail

/-- A move that clears the failure height and provisions nothing finds all
windows stored, and one that provisions a lookahead finds those of the
announcements stored. -/
structure MoveBacked (announced : List Announcement) (db : Db)
    (user : Account) (height : BlockId) (lookahead : AddressIndex) : Prop where
  base : lookahead.isZero = true → user.lookahead.Looks →
    user.Clears height → db.Stores user.id (InBase user.lookahead)
  kept : lookahead.isZero = true → user.lookahead.Looks →
    user.Clears height → ∀ note ∈ announced, note.id = user.id →
    db.Stores user.id (InWindow user.lookahead note.index)
  widened : lookahead.isZero = false → lookahead.Looks →
    ∀ note ∈ announced, note.id = user.id →
    db.Stores user.id (InWindow lookahead note.index)

section Accounts

variable {announced later : List Announcement} {db next : Db}
  {user moved : Account}

theorem Backed.keeps {height : BlockId} {index : AddressIndex}
    (backed : Backed db user height index) (rows : KeepsIndexRows db next) :
    Backed next user height index :=
  fun looks => (backed looks).imp_left rows.stores

/-- An account loses no index, and gets no output and no announcement. -/
structure Spared (id : AccountId) (announced later : List Announcement)
    (db next : Db) : Prop where
  rows : KeepsIndexRows db next
  outputs : ∀ row ∈ next.outputs, row.1 = id → row ∈ db.outputs
  notes : ∀ note ∈ later, note.id = id → note ∈ announced

theorem Promise.spared (promise : Promise announced db user)
    (spared : Spared user.id announced later db next) :
    Promise later next user where
  fits := promise.fits
  base := fun looks zero => spared.rows.stores (promise.base looks zero)
  started := fun row member own =>
    promise.started row (spared.outputs row member own) own
  received := fun row member own nonzero =>
    (promise.received row (spared.outputs row member own) own nonzero).keeps
      spared.rows
  announces := fun note member own =>
    (promise.announces note (spared.notes note member own) own).keeps
      spared.rows

/-- A chain rollback lowers the start and drops outputs. -/
theorem Promise.lowered (promise : Promise announced db user)
    (scan : BlockId) {start : BlockId} (lower : start ≤ user.startHeight) :
    Promise announced db
      { user with scanHeight := scan, startHeight := start } where
  fits := promise.fits
  base := promise.base
  started := fun row member own =>
    lower.trans_lt (promise.started row member own)
  received := promise.received
  announces := promise.announces

theorem Promise.movedBack {height : BlockId} {lookahead : AddressIndex}
    (promise : Promise announced db user) (fits : lookahead.Fits)
    (rows : KeepsIndexRows db next)
    (outputs : next.outputs = (db.rollbackOutputs user.id height).outputs)
    (backed : MoveBacked announced db user height lookahead)
    (ahead : LookedAhead (user.movedBack height) lookahead next moved) :
    Promise announced next moved := by
  have kept : ∀ row ∈ next.outputs, row.1 = user.id →
      row ∈ db.outputs ∧ row.2.link.height < height := by
    intro row member own
    rw [outputs, mem_rollbackOutputs] at member
    exact ⟨member.1, by simpa [own] using member.2⟩
  have started : ∀ row ∈ next.outputs, row.1 = user.id →
      min height user.startHeight < row.2.link.height :=
    fun row member own => (min_le_right _ _).trans_lt
      (promise.started row (kept row member own).1 own)
  cases ahead with
  | unasked zero =>
      -- the failure height after the move is the one before, unless cleared
      have fail : ∀ index level, Backed db user level index →
          (user.Clears height → user.lookahead.Looks →
            db.Stores user.id (InWindow user.lookahead index)) →
          Backed next (user.movedBack height) level index := by
        intro index level before cleared looks
        rcases before looks with stored | ⟨nonzero, below⟩
        · exact .inl (rows.stores stored)
        by_cases clears : height ≤ user.lookaheadFail
        · exact .inl (rows.stores (cleared ⟨nonzero, clears⟩ looks))
        · have same : (user.movedBack height).lookaheadFail =
              user.lookaheadFail := if_neg clears
          rw [same]
          exact .inr ⟨nonzero, below⟩
      refine ⟨promise.fits, ?_, started, ?_, ?_⟩
      · intro looks cleared
        by_cases failed : user.lookaheadFail = 0
        · exact rows.stores (promise.base looks failed)
        · have clears : height ≤ user.lookaheadFail := by
            by_contra late
            exact failed ((if_neg late).symm.trans cleared)
          exact rows.stores (backed.base zero looks ⟨failed, clears⟩)
      · intro row member own nonzero
        obtain ⟨old, early⟩ := kept row member own
        have before := promise.received row old own nonzero
        refine fail _ _ before fun clears looks => ?_
        rcases before looks with stored | ⟨-, below⟩
        · exact stored
        -- a failure at or below the output is not cleared by this move
        · have above := promise.started row old own
          have cleared := clears.2
          lia
      · intro note member own
        exact fail _ _ (promise.announces note member own)
          fun clears looks => backed.kept zero looks clears note member own
  | stored asked stores =>
      refine ⟨fits, fun looks _ => (stores looks).1, started, ?_, ?_⟩
      · exact fun row member own _ looks =>
          .inl ((stores looks).2 row member own)
      · exact fun note member own looks =>
          .inl (rows.stores (backed.widened asked looks note member own))
  | refused asked =>
      have failed : max 1 (min height user.startHeight) ≠ 0 := by lia
      refine ⟨fits, fun _ cleared => absurd cleared failed, started, ?_, ?_⟩
      · intro row member own _ _
        have above := started row member own
        exact .inr ⟨failed, max_le_max_left 1 above.le⟩
      · exact fun note member own looks =>
          .inl (rows.stores (backed.widened asked looks note member own))

end Accounts

namespace Provisioned

variable {env : Env} {bases : Bases} {announced later : List Announcement}
  {db next : Db}

theorem keep (provisioned : Provisioned env bases announced db)
    (keys : KeysDerived env bases next) (rows : KeepsIndexRows db next)
    (accounts : next.accounts = db.accounts)
    (outputs : next.outputs = db.outputs)
    (requests : ∀ row ∈ next.requests, row.2.lookahead.Fits) :
    Provisioned env bases announced next := by
  constructor
  case keys => exact keys
  case requests => exact requests
  all_goals simp only [UsableIds, accounts, outputs]
  case ids => exact provisioned.ids
  case distinct => exact provisioned.distinct
  case owners => exact provisioned.owners
  case announcers => exact provisioned.announcers
  case recipients => exact provisioned.recipients
  case promises =>
    intro row member
    exact (provisioned.promises row member).spared
      ⟨rows, fun row member _ => by rwa [outputs] at member,
        fun note member _ => member⟩

theorem same (provisioned : Provisioned env bases announced db)
    (accounts : next.accounts = db.accounts)
    (outputs : next.outputs = db.outputs)
    (requests : next.requests = db.requests)
    (tables : SameSubaddresses db next) :
    Provisioned env bases announced next :=
  provisioned.keep (provisioned.keys.of_tables tables) tables.keeps accounts
    outputs (by rw [requests]; exact provisioned.requests)

theorem forget (provisioned : Provisioned env bases announced db)
    (fewer : ∀ note ∈ later, note ∈ announced) :
    Provisioned env bases later db :=
  { provisioned with
    announcers := fun note member =>
      provisioned.announcers note (fewer note member)
    promises := fun row member => (provisioned.promises row member).spared
      ⟨fun _ stored => stored, fun _ stored _ => stored,
        fun note member _ => fewer note member⟩ }

theorem mem_put (provisioned : Provisioned env bases announced db)
    {status : AccountStatus} {user moved : Account}
    (member : (status, user) ∈ db.accounts) (sameId : moved.id = user.id)
    {row : AccountStatus × Account} :
    row ∈ db.accounts.put (status, moved) ↔
      row = (status, moved) ∨ (row ∈ db.accounts ∧ row.2.id ≠ user.id) := by
  rw [SortedRows.mem_put]
  refine or_congr_right (and_congr_right fun old => not_congr ?_)
  constructor
  · intro sameKey
    exact (Prod.mk.inj (toLex.injective sameKey)).2.trans sameId
  · intro same
    rw [provisioned.distinct row old _ member same, accountsKey, accountsKey,
      sameId]

/-- One account is replaced, and may receive something. -/
theorem replace (provisioned : Provisioned env bases announced db)
    {status other : AccountStatus} {user moved : Account}
    (member : (status, user) ∈ db.accounts) (sameId : moved.id = user.id)
    (accounts : ∀ row, row ∈ next.accounts ↔
      row = (other, moved) ∨ (row ∈ db.accounts ∧ row.2.id ≠ user.id))
    (keys : KeysDerived env bases next) (rows : KeepsIndexRows db next)
    (outputs : ∀ row ∈ next.outputs, row ∈ db.outputs ∨
      row.1 = user.id ∧ row.2.recipient.Fits)
    (requests : next.requests = db.requests)
    (promise : Promise announced next moved) :
    Provisioned env bases announced next := by
  have present : ∀ id, (∃ row ∈ db.accounts, row.2.id = id) →
      ∃ row ∈ next.accounts, row.2.id = id := by
    rintro id ⟨row, stored, rfl⟩
    by_cases own : row.2.id = user.id
    · exact ⟨_, (accounts _).mpr (.inl rfl), sameId.trans own.symm⟩
    · exact ⟨row, (accounts _).mpr (.inr ⟨stored, own⟩), rfl⟩
  refine ⟨keys, ?_, ?_, ?_, ?_, ?_, ?_, ?_⟩
  · intro row stored
    rcases (accounts row).mp stored with rfl | ⟨old, -⟩
    · exact sameId ▸ provisioned.ids _ member
    · exact provisioned.ids row old
  · intro left leftStored right rightStored same
    rcases (accounts left).mp leftStored with rfl | ⟨leftOld, leftOther⟩ <;>
      rcases (accounts right).mp rightStored with rfl | ⟨rightOld, rightOther⟩
    · rfl
    · exact absurd (same.symm.trans sameId) rightOther
    · exact absurd (same.trans sameId) leftOther
    · exact provisioned.distinct left leftOld right rightOld same
  · intro row stored
    refine present _ ?_
    rcases outputs row stored with old | ⟨own, -⟩
    · exact provisioned.owners row old
    · exact ⟨_, member, own.symm⟩
  · exact fun note noted => present _ (provisioned.announcers note noted)
  · intro row stored
    rcases outputs row stored with old | ⟨-, fits⟩
    · exact provisioned.recipients row old
    · exact fits
  · rw [requests]
    exact provisioned.requests
  · intro row stored
    rcases (accounts row).mp stored with rfl | ⟨old, different⟩
    · exact promise
    · refine (provisioned.promises row old).spared ⟨rows, ?_,
        fun _ noted _ => noted⟩
      intro output received own
      exact (outputs output received).resolve_right
        fun new => different (own.symm.trans new.1)

theorem put (provisioned : Provisioned env bases announced db)
    {status : AccountStatus} {user moved : Account}
    (member : (status, user) ∈ db.accounts) (sameId : moved.id = user.id)
    (accounts : next.accounts = db.accounts.put (status, moved))
    (keys : KeysDerived env bases next) (rows : KeepsIndexRows db next)
    (outputs : ∀ row ∈ next.outputs, row ∈ db.outputs ∨
      row.1 = user.id ∧ row.2.recipient.Fits)
    (requests : next.requests = db.requests)
    (promise : Promise announced next moved) :
    Provisioned env bases announced next := by
  have replaced : ∀ row, row ∈ next.accounts ↔
      row = (status, moved) ∨ (row ∈ db.accounts ∧ row.2.id ≠ user.id) := by
    intro row
    rw [accounts]
    exact provisioned.mem_put member sameId
  exact provisioned.replace member sameId replaced keys rows outputs requests
    promise

theorem add (provisioned : Provisioned env bases announced db) {user : Account}
    (fresh : ∀ row ∈ db.accounts, row.2.id ≠ user.id)
    (valid : user.id < AccountId.invalid) (fits : user.lookahead.Fits)
    (base : user.lookahead.Looks → user.lookaheadFail = 0 →
      db.Stores user.id (InBase user.lookahead))
    (added : Added env user db next) :
    Provisioned env bases announced next := by
  obtain rfl := added.next_eq
  have kept : ∀ row ∈ db.accounts,
      row ∈ db.accounts.put (user.initialStatus, user) := by
    intro row member
    refine SortedRows.mem_put.mpr (.inr ⟨member, fun sameKey => ?_⟩)
    exact fresh row member (Prod.mk.inj (toLex.injective sameKey)).2
  have unknown : ∀ id, (∃ row ∈ db.accounts, row.2.id = id) → id ≠ user.id :=
    fun _ ⟨row, member, same⟩ => same ▸ fresh row member
  refine ⟨⟨provisioned.keys.proper, provisioned.keys.derived⟩, ?_, ?_, ?_, ?_,
    provisioned.recipients, provisioned.requests, ?_⟩
  · intro row stored
    rcases SortedRows.mem_put.mp stored with rfl | ⟨old, -⟩
    · exact valid
    · exact provisioned.ids row old
  · intro left leftStored right rightStored same
    rcases SortedRows.mem_put.mp leftStored with rfl | ⟨leftOld, -⟩ <;>
      rcases SortedRows.mem_put.mp rightStored with rfl | ⟨rightOld, -⟩
    · rfl
    · exact absurd same.symm (fresh right rightOld)
    · exact absurd same (fresh left leftOld)
    · exact provisioned.distinct left leftOld right rightOld same
  · intro row stored
    obtain ⟨account, member, same⟩ := provisioned.owners row stored
    exact ⟨account, kept account member, same⟩
  · intro note noted
    obtain ⟨account, member, same⟩ := provisioned.announcers note noted
    exact ⟨account, kept account member, same⟩
  · intro row stored
    rcases SortedRows.mem_put.mp stored with rfl | ⟨old, -⟩
    · refine ⟨fits, base, ?_, ?_, ?_⟩
      · intro row received own
        exact absurd own (unknown _ (provisioned.owners row received))
      · intro row received own
        exact absurd own (unknown _ (provisioned.owners row received))
      · intro note noted own
        exact absurd own (unknown _ (provisioned.announcers note noted))
    · exact (provisioned.promises row old).spared
        ⟨fun _ stored => stored, fun _ stored _ => stored,
          fun _ noted _ => noted⟩

/-! ## Rolling back the chain -/

private theorem rollbackAccount {height : BlockId}
    {entry : BlockId × AccountLookup}
    (provisioned : Provisioned env bases announced db)
    (success : rollbackAccount height db entry = .ok next) :
    Provisioned env bases announced next := by
  unfold Db.rollbackAccount at success
  split at success
  · cases success
  rename_i status user found
  obtain ⟨rolledBack, dropped, stored⟩ := Outcome.bind_eq_ok.mp success
  obtain ⟨images, rfl⟩ := rollbackSpends_eq dropped
  cases stored
  obtain ⟨member, keyed⟩ := SortedRows.find?_eq_some.mp found
  obtain rfl : status = entry.2.status :=
    AccountStatus.toNat_injective (Prod.mk.inj (toLex.injective keyed)).1
  have promise := (provisioned.promises _ member).lowered
    (rollbackHeight height) (min_le_right (rollbackHeight height) user.startHeight)
  refine provisioned.put member ?_ rfl (provisioned.keys.of_tables ⟨rfl, rfl⟩)
    (fun _ stored => stored) ?_ rfl
    (promise.spared ⟨fun _ stored => stored, ?_, fun _ noted _ => noted⟩)
  · rfl
  · exact fun row member => .inl (mem_rollbackOutputs.mp member).1
  · exact fun row member _ => (mem_rollbackOutputs.mp member).1

theorem rollbackChain {first height : BlockId}
    (provisioned : Provisioned env bases announced db)
    (success : db.rollbackChain first height = .ok next) :
    Provisioned env bases announced next := by
  obtain ⟨rolled, stepped, stored⟩ := Outcome.bind_eq_ok.mp success
  cases stored
  obtain ⟨final, folded, flushed⟩ := Outcome.bind_eq_ok.mp stepped
  cases flushed
  have dropped : Provisioned env bases announced
      (db.dropBlocks first height) :=
    provisioned.same rfl rfl rfl ⟨rfl, rfl⟩
  have walked : Provisioned env bases announced final :=
    Outcome.foldlM_preserves (Provisioned env bases announced)
      (fun state entry after _ before rolled =>
        before.rollbackAccount rolled) dropped folded
  exact walked.same rfl rfl rfl ⟨rfl, rfl⟩

theorem synced {stop : WalkEnd} {middle : Db}
    (provisioned : Provisioned env bases announced db)
    (synced : Synced db stop middle next) :
    Provisioned env bases announced next := by
  have rolled : Provisioned env bases announced middle := by
    rcases synced.rolledBack with ⟨-, rfl⟩ | ⟨row, -, rolled⟩
    · exact provisioned
    · exact provisioned.rollbackChain rolled
  obtain ⟨_, rfl⟩ := synced.next_eq
  exact rolled.same rfl rfl rfl ⟨rfl, rfl⟩

end Provisioned

/-! ## Storing a scan -/

/-- What a scanner hands over for an account: outputs above its start, and
announced if they are to subaddresses. -/
def ScanAnnounced (announced : List Announcement) (user : Account)
    (outputs : List Output) : Prop :=
  ∀ output ∈ outputs, output.recipient.Fits ∧
    user.startHeight < output.link.height ∧
    (user.lookahead.Looks → output.recipient.isZero = false →
      ⟨user.id, output.link.height, output.recipient⟩ ∈ announced)

/-- The scan is one of each account that `update` stores it for. -/
def StoresAnnounced (announced : List Announcement) (db : Db) (last : BlockId)
    (scanned : ScannedAccount) : Prop :=
  ∀ row ∈ db.accounts, row.2.id = scanned.id →
    scanned.scanHeight ≤ row.2.scanHeight → row.2.scanHeight < last →
    ScanAnnounced announced row.2 scanned.outputs

/-- The tables while `update` goes through the users of `start`. -/
private structure Storing (env : Env) (bases : Bases)
    (announced : List Announcement) (start : Db) (last : BlockId)
    (db : Db) : Prop where
  provisioned : Provisioned env bases announced db
  accounts : ∀ row ∈ db.accounts,
    row ∈ start.accounts ∨ last ≤ row.2.scanHeight

section Storing

variable {env : Env} {bases : Bases} {announced : List Announcement}
  {start : Db} {last : BlockId}

private theorem Storing.room {state : Updating}
    (storing : Storing env bases announced start last state.db) :
    Storing env bases announced start last (state.room last).db := by
  unfold Updating.room
  split
  · exact ⟨storing.provisioned.same rfl rfl rfl ⟨rfl, rfl⟩, storing.accounts⟩
  · exact storing

private theorem Storing.step {height : BlockId} {state next : Updating}
    {scanned : ScannedAccount}
    (storing : Storing env bases announced start last state.db)
    (announces : StoresAnnounced announced start last scanned)
    (updated : UserUpdated height last state scanned next) :
    Storing env bases announced start last next.db := by
  cases updated with
  | skipped sameDb => rwa [sameDb]
  | @stored status existing _ located reached ahead success =>
      obtain ⟨provisioned, accounts⟩ := storing
      obtain ⟨_, _, tables⟩ := (storeScan_ok success).db_eq
      obtain ⟨member, sameId⟩ := Agreement.findAccount_iff.mp located
      have original : (status, existing) ∈ start.accounts :=
        (accounts _ member).resolve_right (Nat.not_le_of_lt ahead)
      have scan := announces _ original sameId reached ahead
      have before := provisioned.promises _ member
      have received : ∀ row ∈ next.db.outputs, row ∈ state.db.outputs ∨
          row.1 = existing.id ∧ row.2 ∈ scanned.outputs := by
        intro row stored
        rw [tables] at stored
        refine (SortedRows.mem_of_mem_addAll stored).imp_right fun new => ?_
        obtain ⟨output, listed, rfl⟩ := List.mem_map.mp new
        exact ⟨sameId.symm, listed⟩
      have rows : KeepsIndexRows state.db next.db := by
        rw [tables]
        exact fun _ stored => stored
      have promise : Promise announced next.db
          { existing with scanHeight := last } := by
        refine ⟨before.fits, fun looks zero => rows.stores
          (before.base looks zero), ?_, ?_, fun note noted own =>
          (before.announces note noted own).keeps rows⟩
        · intro row stored own
          rcases received row stored with old | ⟨-, listed⟩
          · exact before.started row old own
          · exact (scan _ listed).2.1
        · intro row stored own nonzero
          rcases received row stored with old | ⟨-, listed⟩
          · exact (before.received row old own nonzero).keeps rows
          · intro looks
            have noted := (scan _ listed).2.2 looks nonzero
            exact (before.announces _ noted rfl).keeps rows looks
      have put : next.db.accounts = state.db.accounts.put
          (status, { existing with scanHeight := last }) := by rw [tables]
      refine ⟨provisioned.put member ?_ put (provisioned.keys.of_tables ?_)
        rows ?_ ?_ promise, ?_⟩
      · rfl
      · rw [tables]
        exact ⟨rfl, rfl⟩
      · exact fun row stored => (received row stored).imp_right
          fun new => ⟨new.1, (scan _ new.2).1⟩
      · rw [tables]
      · intro row stored
        rw [put] at stored
        rcases SortedRows.mem_put.mp stored with rfl | ⟨old, -⟩
        · exact .inr le_rfl
        · exact accounts row old

end Storing

namespace Provisioned

variable {env : Env} {bases : Bases} {announced : List Announcement}
  {db next : Db}

theorem update {height : BlockId} {chain : List Hash}
    {users : List ScannedAccount} {pow : List PowSync} {out : Updated}
    (provisioned : Provisioned env bases announced db)
    (scans : ∀ scanned ∈ users, StoresAnnounced announced db
      (wrap64 (height + (chain.length - 1))) scanned)
    (success : update env db height chain users pow = .ok (next, out)) :
    Provisioned env bases announced next := by
  rcases update_ok success with
    ⟨-, rfl, -⟩ | ⟨-, last, checked, final, rfl, blocks, folded, rfl, -⟩
  · exact provisioned
  obtain ⟨checked, pows, rfl⟩ := updateBlocks_eq blocks
  have initial : Storing env bases announced db
      (wrap64 (height + (chain.length - 1)))
      { db with blocks := checked, pows := pows } :=
    ⟨provisioned.same rfl rfl rfl ⟨rfl, rfl⟩, fun row member => .inl member⟩
  have storing := Outcome.foldlM_preserves
    (fun state : Updating => Storing env bases announced db
      (wrap64 (height + (chain.length - 1))) state.db)
    (fun _ scanned _ member before stepped => before.room.step
      (scans scanned member) (updateUser_ok stepped)) initial folded
  exact storing.provisioned.same rfl rfl rfl ⟨rfl, rfl⟩

/-! ## Adding accounts and changing their status -/

theorem addAccount {clock : ℤ} {address : AccountAddress} {key : SecretKey}
    {flags : AccountFlags} (provisioned : Provisioned env bases announced db)
    (valid : wrap32 (db.findLastId + 1) ≠ AccountId.invalid)
    (success : db.addAccount env clock address key flags = .ok next) :
    Provisioned env bases announced next := by
  obtain ⟨time, -, rest⟩ := Outcome.bind_eq_ok.mp success
  obtain ⟨height, -, stored⟩ := Outcome.bind_eq_ok.mp rest
  have last := UsableIds.findLastId_lt provisioned.ids
  have below := nextId_fresh last fun _ member => le_findLastId member
  refine provisioned.add (fun row member => Nat.ne_of_lt (below row member))
    (nextId_valid last valid) ⟨Nat.zero_le _, Nat.zero_le _⟩ ?_
    (doAddAccount_ok stored)
  exact fun looks => absurd rfl looks.1

private theorem changeStatusOf {status : AccountStatus}
    {address : AccountAddress} {found : Bool}
    (provisioned : Provisioned env bases announced db)
    (success : changeStatusOf status db address = .ok (next, found)) :
    Provisioned env bases announced next := by
  rcases changeStatusOf_ok success with rfl | ⟨entry, user, changed⟩
  · exact provisioned
  obtain ⟨member, sameId⟩ := Agreement.findAccount_iff.mp changed.account_eq
  have promise := provisioned.promises _ member
  obtain rfl := changed.next_eq
  have accounts : ∀ row, row ∈ (db.accounts.erase (toLex
        (entry.lookup.status.toNat, entry.lookup.id))).put (status, user) ↔
      row = (status, user) ∨ (row ∈ db.accounts ∧ row.2.id ≠ user.id) := by
    intro row
    rw [SortedRows.mem_put, SortedRows.mem_erase]
    refine or_congr_right ?_
    constructor
    · rintro ⟨⟨old, notErased⟩, -⟩
      refine ⟨old, fun same => notErased ?_⟩
      rw [provisioned.distinct row old _ member same, accountsKey, sameId]
    · rintro ⟨old, different⟩
      refine ⟨⟨old, fun erased => different ?_⟩, fun same => different ?_⟩
      · exact (Prod.mk.inj (toLex.injective erased)).2.trans sameId.symm
      · exact (Prod.mk.inj (toLex.injective same)).2
  exact provisioned.replace member rfl accounts
    (provisioned.keys.of_tables ⟨rfl, rfl⟩) (fun _ stored => stored)
    (fun _ stored => .inl stored) rfl
    (promise.spared ⟨fun _ stored => stored, fun _ stored _ => stored,
      fun _ noted _ => noted⟩)

theorem changeStatus {status : AccountStatus}
    {addresses found : List AccountAddress}
    (provisioned : Provisioned env bases announced db)
    (success : db.changeStatus status addresses = .ok (next, found)) :
    Provisioned env bases announced next := by
  refine Outcome.foldlM_preserves (fun state : Db × List AccountAddress =>
    Provisioned env bases announced state.1) ?_ provisioned success
  intro state address final _member before stepped
  obtain ⟨⟨middle, changed⟩, once, stored⟩ := Outcome.bind_eq_ok.mp stepped
  cases stored
  exact before.changeStatusOf once

end Provisioned

/-! ## Moving and creating accounts -/

/-- `guard` holds of every account a rescan or an accepted import moves, and
of the lookahead that the move provisions. -/
def EveryProvision (env : Env)
    (guard : Db → Account → BlockId → AddressIndex → Prop) (db : Db) :
    Operation → Prop
  | .rescan height addresses =>
      Outcome.Along (rescanOf env height) (fun state address =>
        ∀ user, state.1.accountAt address = some user →
          guard state.1 user height .primary) (db, []) addresses
  | .acceptRequests _ .importScan addresses maxSubaddresses =>
      Outcome.Along (importAccount env maxSubaddresses) (fun state address =>
        ∀ info user, state.1.findRequest? .importScan address = some info →
          state.1.accountAt address = some user →
          guard (state.1.eraseRequest .importScan address) user
            info.startHeight info.lookahead) (db, []) addresses
  | _ => True

/-- Every call of `do_upsert` derives its keys under a base of its account. -/
def UpsertsKnown (env : Env) (bases : Bases) : Db → Operation → Prop :=
  EveryUpsert env
    (fun args _ _ => bases args.id args.address args.viewKey)
    (fun args _ _ => bases args.id args.address args.viewKey)

namespace Provisioned

variable {env : Env} {bases : Bases} {announced : List Announcement}
  {db next : Db}

theorem eraseRequest (provisioned : Provisioned env bases announced db)
    (type : Request) (address : AccountAddress) :
    Provisioned env bases announced (db.eraseRequest type address) :=
  provisioned.keep (provisioned.keys.of_tables ⟨rfl, rfl⟩)
    (fun _ stored => stored) rfl rfl fun row member =>
      provisioned.requests row (SortedRows.mem_erase.mp member).1

theorem requested (provisioned : Provisioned env bases announced db)
    {type : Request} {address : AccountAddress} {info : RequestInfo}
    (found : db.findRequest? type address = some info) :
    info.lookahead.Fits := by
  obtain ⟨row, located, rfl⟩ := Option.map_eq_some_iff.mp found
  exact provisioned.requests row (SortedRows.find?_eq_some.mp located).1

theorem changeHeight {height : BlockId} {address : AccountAddress}
    {lookahead : AddressIndex} {maxSubaddresses : ℕ}
    (provisioned : Provisioned env bases announced db)
    (injective : bases.Injective env) (fits : lookahead.Fits)
    (backed : ∀ user, db.accountAt address = some user →
      MoveBacked announced db user height lookahead)
    (known : ∀ user rolledBack, db.accountAt address = some user →
      (db.rollbackOutputs user.id height).rollbackSpends user.id height =
        .ok rolledBack →
      DuringProvision (fun args _ _ => bases args.id args.address args.viewKey)
        (user.movedBack height) lookahead maxSubaddresses rolledBack)
    (success : changeHeight env height address lookahead maxSubaddresses db =
      .ok next) : Provisioned env bases announced next := by
  obtain ⟨keys, rows, requests, status, user, moved, member, located,
    accounts, outputs, ahead⟩ := changeHeight_ahead provisioned.keys injective
      fits provisioned.recipients known success
  have sameId : moved.id = user.id := ahead.id_eq
  refine provisioned.put member sameId accounts keys rows
    (fun row stored => ?_) requests
    ((provisioned.promises _ member).movedBack fits rows outputs
      (backed user located) ahead)
  rw [outputs] at stored
  exact .inl (mem_rollbackOutputs.mp stored).1

theorem rescan {height : BlockId} {addresses found : List AccountAddress}
    (provisioned : Provisioned env bases announced db)
    (injective : bases.Injective env)
    (guarded : EveryProvision env (MoveBacked announced) db
      (.rescan height addresses))
    (success : rescan env db height addresses = .ok (next, found)) :
    Provisioned env bases announced next := by
  obtain ⟨current, -, checked⟩ := Outcome.bind_eq_ok.mp success
  split at checked
  · cases checked
  refine guarded.foldlM_preserves (fun state : Db × List AccountAddress =>
    Provisioned env bases announced state.1) ?_ provisioned checked
  intro state address after backed before stepped
  unfold rescanOf at stepped
  split at stepped
  · rename_i changed
    cases stepped
    refine before.changeHeight injective ⟨Nat.zero_le _, Nat.zero_le _⟩ backed
      ?_ changed
    -- a zero lookahead requests nothing
    intro user rolledBack _ _ subaddrs request
    rw [lookaheadRequest, if_pos (.inl rfl)] at request
    cases request
  · cases stepped
    exact before
  · cases stepped

theorem importAccounts {clock : ℤ} {addresses found : List AccountAddress}
    {maxSubaddresses : ℕ} (provisioned : Provisioned env bases announced db)
    (injective : bases.Injective env)
    (known : UpsertsKnown env bases db
      (.acceptRequests clock .importScan addresses maxSubaddresses))
    (guarded : EveryProvision env (MoveBacked announced) db
      (.acceptRequests clock .importScan addresses maxSubaddresses))
    (success : importAccounts env db addresses maxSubaddresses =
      .ok (next, found)) : Provisioned env bases announced next := by
  have along := Outcome.Along.and known guarded
  refine along.foldlM_preserves (fun state : Db × List AccountAddress =>
    Provisioned env bases announced state.1) ?_ provisioned success
  rintro state address after ⟨derived, backed⟩ before stepped
  have erased := before.eraseRequest .importScan address
  unfold importAccount at stepped
  split at stepped
  · cases stepped
    exact before
  rename_i info requested
  dsimp only at stepped
  split at stepped
  · rename_i changed
    cases stepped
    exact erased.changeHeight injective (before.requested requested)
      (fun user located => backed info user requested located)
      (fun user rolledBack located dropped =>
        derived info user rolledBack requested located dropped) changed
  · cases stepped
    exact erased
  · cases stepped

/-- What `create_accounts` carries from one request to the next. -/
private structure Creates (env : Env) (bases : Bases)
    (announced : List Announcement) (state : Creation) : Prop where
  provisioned : Provisioned env bases announced state.db
  greatest : ∀ row ∈ state.db.accounts, row.2.id ≤ state.lastId
  valid : state.lastId < AccountId.invalid

/-- The tables before a new account is added. -/
private theorem Creates.provision {state : Creation} {middle : Db}
    {address : AccountAddress} {user final : Account}
    {lookahead : AddressIndex} {maxSubaddresses : ℕ}
    (creates : Creates env bases announced state)
    (known : DuringProvision (fun args _ _ =>
      bases args.id args.address args.viewKey) user lookahead maxSubaddresses
      (state.db.eraseRequest .create address))
    (success : Db.provision env user lookahead maxSubaddresses
      (state.db.eraseRequest .create address) = .ok (final, middle)) :
    Provisioned env bases announced middle := by
  have erased := creates.provisioned.eraseRequest .create address
  obtain ⟨keys, rows⟩ := provision_keeps erased.keys known success
  obtain ⟨-, _, _, rfl⟩ := provision_eq success
  exact erased.keep keys rows rfl rfl erased.requests

private theorem Creates.step {time : AccountTime} {maxSubaddresses : ℕ}
    {state after : Creation} {address : AccountAddress}
    (creates : Creates env bases announced state)
    (injective : bases.Injective env)
    (known : ∀ info, state.db.findRequest? .create address = some info →
      DuringProvision (fun args _ _ => bases args.id args.address args.viewKey)
        (info.account (wrap32 (state.lastId + 1)) address time) info.lookahead
        maxSubaddresses (state.db.eraseRequest .create address))
    (created : AccountCreated env time maxSubaddresses state address after) :
    Creates env bases announced after := by
  cases created with
  | missing => exact creates
  | skipped requested lookedAhead failed =>
      have middle := creates.provision (known _ requested) lookedAhead
      obtain ⟨-, _, _, rfl⟩ := provision_eq lookedAhead
      exact ⟨middle, creates.greatest, creates.valid⟩
  | @added info user middle _ requested valid lookedAhead added =>
      have erased := creates.provisioned.eraseRequest .create address
      have fits := creates.provisioned.requested requested
      have provisioned := creates.provision (known _ requested) lookedAhead
      have ahead := provision_ok erased.keys injective (known _ requested) fits
        erased.recipients lookedAhead
      have below := nextId_fresh creates.valid creates.greatest
      have usable := nextId_valid creates.valid valid
      have sameId : user.id = wrap32 (state.lastId + 1) := ahead.id_eq
      obtain ⟨-, _, _, rfl⟩ := provision_eq lookedAhead
      refine ⟨provisioned.add (fun row member => ?_) (sameId ▸ usable) ?_ ?_
        added, ?_, usable⟩
      · rw [sameId]
        exact Nat.ne_of_lt (below row member)
      · cases ahead with
        | unasked => exact ⟨Nat.zero_le _, Nat.zero_le _⟩
        | stored => exact fits
        | refused => exact fits
      · intro looks cleared
        cases ahead with
        | unasked => exact absurd rfl looks.1
        | stored _ stores => exact (stores looks).1
        | refused =>
            have failed : max 1 info.startHeight ≠ 0 := by lia
            exact absurd cleared failed
      · obtain rfl := added.next_eq
        intro row stored
        rcases SortedRows.mem_put.mp stored with rfl | ⟨old, -⟩
        · exact sameId.le
        · exact (below row old).le

theorem createAccounts {clock : ℤ} {addresses found : List AccountAddress}
    {maxSubaddresses : ℕ} (provisioned : Provisioned env bases announced db)
    (injective : bases.Injective env)
    (known : UpsertsKnown env bases db
      (.acceptRequests clock .create addresses maxSubaddresses))
    (success : createAccounts env clock db addresses maxSubaddresses =
      .ok (next, found)) : Provisioned env bases announced next := by
  obtain ⟨time, timed, rest⟩ := Outcome.bind_eq_ok.mp success
  obtain ⟨final, folded, stored⟩ := Outcome.bind_eq_ok.mp rest
  cases stored
  obtain rfl := getAccountTime_eq timed
  have initial : Creates env bases announced ⟨db, db.findLastId, []⟩ :=
    ⟨provisioned, fun _ member => le_findLastId member,
      UsableIds.findLastId_lt provisioned.ids⟩
  exact (Outcome.Along.foldlM_preserves (Creates env bases announced)
    (fun state address after derived before stepped =>
      before.step injective derived (createAccount_ok stepped)) known initial
    folded).provisioned

/-! ## Lookaheads -/

theorem announce (provisioned : Provisioned env bases announced db)
    {note : Announcement}
    (announcer : ∃ account ∈ db.accounts, account.2.id = note.id)
    (backed : ∀ row ∈ db.accounts, row.2.id = note.id →
      Backed db row.2 note.height note.index) :
    Provisioned env bases (note :: announced) db :=
  { provisioned with
    announcers := List.forall_mem_cons.mpr
      ⟨announcer, provisioned.announcers⟩
    promises := fun row member =>
      { provisioned.promises row member with
        announces := List.forall_mem_cons.mpr
          ⟨fun own => backed row member own.symm,
            (provisioned.promises row member).announces⟩ } }

private theorem failedAt_backed {user : Account} {height : BlockId} :
    (user.failedAt height).lookaheadFail ≠ 0 ∧
      (user.failedAt height).lookaheadFail ≤ max 1 height ∧
      (user.lookaheadFail ≠ 0 →
        (user.failedAt height).lookaheadFail ≤ user.lookaheadFail) := by
  unfold Account.failedAt
  dsimp only
  split <;> refine ⟨?_, ?_, ?_⟩ <;> lia

theorem updateLookahead {address : AccountAddress} {height : BlockId}
    {matched : AddressIndex} {maxSubaddresses : ℕ} {changed : ℤ}
    (provisioned : Provisioned env bases announced db)
    (injective : bases.Injective env)
    (known : UpsertsKnown env bases db
      (.updateLookahead address height matched maxSubaddresses))
    (below : matched.majI < maxU32)
    (success : updateLookahead env db address height matched
      maxSubaddresses = .ok (next, changed)) :
    ∃ user, db.accountAt address = some user ∧
      Provisioned env bases (⟨user.id, height, matched⟩ :: announced) next := by
  obtain ⟨keys, rows, outputs, requests, status, user, member, located,
    updated⟩ := updateLookahead_ok provisioned.keys injective known
      (fun row member => (provisioned.promises row member).fits) below success
  refine ⟨user, located, ?_⟩
  cases updated with
  | stored accounts stores =>
      have kept : Provisioned env bases announced next :=
        provisioned.keep keys rows accounts outputs
          (by rw [requests]; exact provisioned.requests)
      refine kept.announce ?_ fun row stored own looks => ?_
      · rw [accounts]
        exact ⟨_, member, rfl⟩
      · rw [accounts] at stored
        obtain rfl := provisioned.distinct row stored _ member own
        exact .inl (stores looks)
  | failed accounts =>
      obtain ⟨nonzero, within, lower⟩ := @failedAt_backed user height
      have promise := provisioned.promises _ member
      -- the failure height only falls, so what it backed stays backed
      have backed : ∀ {level : BlockId} {index : AddressIndex},
          Backed db user level index →
          Backed next (user.failedAt height) level index := by
        intro level index before looks
        rcases before looks with stored | ⟨failed, below⟩
        · exact .inl (rows.stores stored)
        · exact .inr ⟨nonzero, (lower failed).trans below⟩
      have put : Provisioned env bases announced next := by
        refine provisioned.put member ?_ accounts keys rows ?_ requests
          ⟨promise.fits, fun _ zero => absurd zero nonzero, ?_, ?_, ?_⟩
        · rfl
        · rw [outputs]
          exact fun row stored => .inl stored
        · rw [outputs]
          exact promise.started
        · rw [outputs]
          exact fun row stored own subaddress =>
            backed (promise.received row stored own subaddress)
        · exact fun note noted own => backed (promise.announces note noted own)
      have stored : ∀ row, row ∈ next.accounts ↔
          row = (status, user.failedAt height) ∨
            (row ∈ db.accounts ∧ row.2.id ≠ user.id) := by
        intro row
        rw [accounts]
        refine provisioned.mem_put member ?_
        rfl
      refine put.announce ⟨_, (stored _).mpr (.inl rfl), rfl⟩ ?_
      intro row found own looks
      rcases (stored row).mp found with rfl | ⟨-, different⟩
      · exact .inr ⟨nonzero, within⟩
      · exact absurd own different

theorem shrinkLookahead {address : AccountAddress} {lookahead : AddressIndex}
    (provisioned : Provisioned env bases announced db)
    (success : db.shrinkLookahead address lookahead = .ok next) :
    Provisioned env bases announced next := by
  unfold Db.shrinkLookahead at success
  split at success
  · cases success
  split at success
  · cases success
  rename_i user located
  split at success
  · cases success
  rename_i accepted
  cases success
  obtain ⟨unfailed, major, minor⟩ : user.lookaheadFail = 0 ∧
      lookahead.majI ≤ user.lookahead.majI ∧
      lookahead.minI ≤ user.lookahead.minI := by
    simpa only [not_or, not_not, not_lt] using accepted
  obtain ⟨member, -⟩ := Agreement.findAccount_iff.mp located
  have promise := provisioned.promises _ member
  have wider : lookahead.Looks → user.lookahead.Looks := fun looks =>
    ⟨fun none => looks.1 (Nat.le_zero.mp (none ▸ major)),
      fun none => looks.2 (Nat.le_zero.mp (none ▸ minor))⟩
  have narrowed : ∀ {level : BlockId} {index : AddressIndex},
      Backed db user level index →
      Backed db { user with lookahead := lookahead } level index := by
    intro level index before looks
    rcases before (wider looks) with stored | ⟨failed, -⟩
    · exact .inl (stored.imp fun _ within => within.mono major minor)
    · exact absurd unfailed failed
  have shrunk : Promise announced db { user with lookahead := lookahead } :=
    { fits := ⟨major.trans promise.fits.1, minor.trans promise.fits.2⟩
      base := fun looks zero => (promise.base (wider looks) zero).imp
        fun _ within => within.mono major minor
      started := promise.started
      received := fun row stored own subaddress =>
        narrowed (promise.received row stored own subaddress)
      announces := fun note noted own =>
        narrowed (promise.announces note noted own) }
  refine provisioned.put member ?_ rfl (provisioned.keys.of_tables ⟨rfl, rfl⟩)
    (fun _ stored => stored) (fun _ stored => .inl stored) rfl
    (shrunk.spared ⟨fun _ stored => stored, fun _ stored _ => stored,
      fun _ noted _ => noted⟩)
  rfl

theorem upsertSubaddresses {id : AccountId} {address : AccountAddress}
    {viewKey : SecretKey} {subaddrs out : List SubaddressDict}
    {maxSubaddr : ℕ} (provisioned : Provisioned env bases announced db)
    (known : bases id address viewKey)
    (success : upsertSubaddresses env db id address viewKey subaddrs
      maxSubaddr = .ok (next, out)) :
    Provisioned env bases announced next := by
  unfold Db.upsertSubaddresses at success
  split at success
  · cases success
  rename_i upserted
  cases success
  have kept := @doUpsert_keeps _ _ _ ⟨id, address, viewKey, maxSubaddr⟩
    provisioned.keys known (subaddrs.insertionSort SubaddressDict.le)
  obtain ⟨_, _, tables⟩ := doUpsert_eq env ⟨id, address, viewKey, maxSubaddr⟩
    (subaddrs.insertionSort SubaddressDict.le) db
  rw [upserted] at kept tables
  dsimp only at kept tables
  subst tables
  exact provisioned.keep kept.1 kept.2 rfl rfl provisioned.requests

/-! ## Requests -/

private theorem creationRequest {clock : ℤ} {address : AccountAddress}
    {key : SecretKey} {flags : AccountFlags} {lookahead : AddressIndex}
    {hooks : List WebhookNewAccount}
    (provisioned : Provisioned env bases announced db)
    (fits : lookahead.Fits)
    (success : creationRequest env clock db address key flags lookahead =
      .ok (next, hooks)) : Provisioned env bases announced next := by
  unfold Db.creationRequest at success
  split at success
  · cases success
  obtain ⟨time, -, rest⟩ := Outcome.bind_eq_ok.mp success
  split at rest
  · cases rest
  dsimp only at rest
  split at rest
  · cases rest
  obtain ⟨height, -, stored⟩ := Outcome.bind_eq_ok.mp rest
  split at stored
  · cases stored
  rename_i requests added
  cases stored
  obtain ⟨-, rfl⟩ := SortedRows.putNew_eq_some.mp added
  refine provisioned.keep (provisioned.keys.of_tables ⟨rfl, rfl⟩)
    (fun _ stored => stored) rfl rfl fun row member => ?_
  rcases SortedRows.mem_put.mp member with rfl | ⟨old, -⟩
  · exact fits
  · exact provisioned.requests row old

private theorem importRequest {clock : ℤ} {address : AccountAddress}
    {height : BlockId} {lookahead : AddressIndex}
    (provisioned : Provisioned env bases announced db)
    (fits : lookahead.Fits)
    (success : importRequest clock db address height lookahead = .ok next) :
    Provisioned env bases announced next := by
  obtain ⟨time, -, rest⟩ := Outcome.bind_eq_ok.mp success
  split at rest
  · cases rest
  dsimp only at rest
  split at rest
  · cases rest
  rename_i requests added
  cases rest
  obtain ⟨-, rfl⟩ := SortedRows.putNew_eq_some.mp added
  refine provisioned.keep (provisioned.keys.of_tables ⟨rfl, rfl⟩)
    (fun _ stored => stored) rfl rfl fun row member => ?_
  rcases SortedRows.mem_put.mp member with rfl | ⟨old, -⟩
  · exact fits
  · exact provisioned.requests row old

private theorem rejectRequests
    (provisioned : Provisioned env bases announced db) (type : Request)
    (addresses : List AccountAddress) :
    Provisioned env bases announced (db.rejectRequests type addresses).1 := by
  refine Outcome.foldl_preserves (fun state : Db × List AccountAddress =>
    Provisioned env bases announced state.1) ?_ provisioned
  intro state address _member before
  unfold rejectRequest
  split
  · exact before.eraseRequest type address
  · exact before

end Provisioned

/-! ## Every call -/

/-- The callers pass 32-bit lookaheads and use free ids, and the scanner
announces what it stores. -/
def CallsAnnounced (announced : List Announcement) (db : Db) :
    Operation → Prop
  | .addAccount _ _ _ _ => wrap32 (db.findLastId + 1) ≠ AccountId.invalid
  | .creationRequest _ _ _ _ lookahead => lookahead.Fits
  | .importRequest _ _ _ lookahead => lookahead.Fits
  | .update height chain users _ => ∀ scanned ∈ users,
      StoresAnnounced announced db (wrap64 (height + (chain.length - 1)))
        scanned
  | _ => True

/-- The call announces an index of the account it is made for. -/
def Announces (db : Db) (note : Announcement) : Operation → Prop
  | .updateLookahead address height matched _ =>
      ∃ user, db.accountAt address = some user ∧
        note = ⟨user.id, height, matched⟩
  | _ => False

/-- The call leaves no window behind: a match is not at the last major index,
and every move is backed. -/
def LeavesNoWindow (env : Env) (announced : List Announcement) (db : Db) :
    Operation → Prop
  | .updateLookahead _ _ matched _ => matched.majI < maxU32
  | operation => EveryProvision env (MoveBacked announced) db operation

/-- The tables, with the announcements not forgotten yet. -/
structure Watched where
  db : Db
  announced : List Announcement

/-- A successful call under a condition. -/
structure WatchedStep (env : Env) (bases : Bases)
    (condition : List Announcement → Db → Operation → Prop)
    (state : Watched) (operation : Operation) (next : Watched) : Prop where
  step : Step env state.db operation next.db
  known : UpsertsKnown env bases state.db operation
  calls : CallsAnnounced state.announced state.db operation
  condition : condition state.announced state.db operation
  notes : ∀ note ∈ next.announced,
    note ∈ state.announced ∨ state.db.Announces note operation

namespace Provisioned

variable {env : Env} {bases : Bases}

/-- The invariant after a call, with what the call announces. -/
private theorem step_announces {announced : List Announcement} {db next : Db}
    {operation : Operation} (provisioned : Provisioned env bases announced db)
    (injective : bases.Injective env)
    (known : UpsertsKnown env bases db operation)
    (calls : CallsAnnounced announced db operation)
    (condition : LeavesNoWindow env announced db operation)
    (success : Step env db operation next) :
    ∃ fresh, (∀ note, db.Announces note operation → note ∈ fresh) ∧
      Provisioned env bases (fresh ++ announced) next := by
  have silent : ∀ {next : Db}, (∀ note, ¬ db.Announces note operation) →
      Provisioned env bases announced next →
      ∃ fresh, (∀ note, db.Announces note operation → note ∈ fresh) ∧
        Provisioned env bases (fresh ++ announced) next :=
    fun never kept => ⟨[], fun note announces => absurd announces (never note),
      kept⟩
  cases operation with
  | addAccount clock address key flags =>
      exact silent nofun (provisioned.addAccount calls success)
  | changeStatus status addresses =>
      obtain ⟨⟨final, found⟩, changed, rfl⟩ := Outcome.map_eq_ok.mp success
      exact silent nofun (provisioned.changeStatus changed)
  | creationRequest clock address key flags lookahead =>
      obtain ⟨⟨final, hooks⟩, requested, rfl⟩ := Outcome.map_eq_ok.mp success
      exact silent nofun (provisioned.creationRequest calls requested)
  | importRequest clock address height lookahead =>
      exact silent nofun (provisioned.importRequest calls success)
  | acceptRequests clock type addresses maxSubaddresses =>
      obtain ⟨⟨final, found⟩, accepted, rfl⟩ := Outcome.map_eq_ok.mp success
      unfold acceptRequests at accepted
      split at accepted
      · cases accepted
        exact silent nofun provisioned
      cases type with
      | create =>
          exact silent nofun (provisioned.createAccounts injective known accepted)
      | importScan =>
          exact silent nofun (provisioned.importAccounts injective known
            condition accepted)
  | rejectRequests type addresses =>
      cases success
      exact silent nofun (provisioned.rejectRequests type addresses)
  | rescan height addresses =>
      obtain ⟨⟨final, found⟩, rescanned, rfl⟩ := Outcome.map_eq_ok.mp success
      exact silent nofun (provisioned.rescan injective condition rescanned)
  | rollback height =>
      have rolled : db.rollback height = .ok next := success
      unfold rollback at rolled
      split at rolled
      · cases rolled
        exact silent nofun provisioned
      · exact silent nofun (provisioned.rollbackChain rolled)
  | syncChain height hashes regtest =>
      obtain ⟨_, _, _, -, -, -, synced⟩ := syncChain_ok success
      exact silent nofun (provisioned.synced synced)
  | syncPow height hashes pow =>
      obtain ⟨_, _, _, _, -, -, -, -, synced⟩ := syncPow_ok success
      exact silent nofun (provisioned.synced synced)
  | update height chain users pow =>
      obtain ⟨⟨final, out⟩, updated, rfl⟩ := Outcome.map_eq_ok.mp success
      exact silent nofun (provisioned.update calls updated)
  | upsertSubaddresses id address viewKey subaddrs maxSubaddr =>
      obtain ⟨⟨final, out⟩, upserted, rfl⟩ := Outcome.map_eq_ok.mp success
      exact silent nofun (provisioned.upsertSubaddresses known upserted)
  | updateLookahead address height matched maxSubaddresses =>
      obtain ⟨⟨final, changed⟩, updated, rfl⟩ := Outcome.map_eq_ok.mp success
      obtain ⟨user, located, announces⟩ :=
        provisioned.updateLookahead injective known condition updated
      refine ⟨[⟨user.id, height, matched⟩], ?_, announces⟩
      rintro note ⟨other, found, rfl⟩
      rw [located] at found
      cases found
      exact List.mem_singleton_self _
  | shrinkLookahead address lookahead =>
      exact silent nofun (provisioned.shrinkLookahead success)
  | addWebhook type address event =>
      obtain ⟨rfl, -⟩ := addWebhook_eq success
      exact silent nofun (provisioned.same rfl rfl rfl ⟨rfl, rfl⟩)
  | clearWebhooks addresses =>
      obtain ⟨_, _, rfl⟩ := clearWebhooks_eq success
      exact silent nofun (provisioned.same rfl rfl rfl ⟨rfl, rfl⟩)
  | clearWebhookIds ids =>
      cases success
      exact silent nofun (provisioned.same rfl rfl rfl ⟨rfl, rfl⟩)

theorem step {state next : Watched} {operation : Operation}
    (provisioned : Provisioned env bases state.announced state.db)
    (injective : bases.Injective env)
    (stepped : WatchedStep env bases (LeavesNoWindow env) state operation
      next) : Provisioned env bases next.announced next.db := by
  obtain ⟨fresh, announces, kept⟩ := provisioned.step_announces injective
    stepped.known stepped.calls stepped.condition stepped.step
  refine kept.forget fun note noted => ?_
  rcases stepped.notes note noted with old | new
  · exact List.mem_append_right _ old
  · exact List.mem_append_left _ (announces note new)

theorem of_openNew {db : Db} (opened : openNew env = .ok db) :
    Provisioned env bases [] db := by
  unfold openNew at opened
  split at opened
  · cases opened
  split at opened
  · cases opened
  cases opened
  constructor
  case keys => exact ⟨by simp, by simp⟩
  all_goals simp [UsableIds]

end Provisioned

/-- Every account with a lookahead and without a failure height has the
promised windows stored. -/
def LookaheadsStored (db : Db) : Prop :=
  ∀ row ∈ db.accounts, row.2.lookahead.Looks → row.2.lookaheadFail = 0 →
    db.Stores row.2.id (InBase row.2.lookahead) ∧
      ∀ output ∈ db.outputs, output.1 = row.2.id →
        output.2.recipient.isZero = false →
        db.Stores row.2.id (InWindow row.2.lookahead output.2.recipient)

theorem Provisioned.stored {env : Env} {bases : Bases}
    {announced : List Announcement} {db : Db}
    (provisioned : Provisioned env bases announced db) :
    LookaheadsStored db := by
  intro row member looks unfailed
  have promise := provisioned.promises row member
  refine ⟨promise.base looks unfailed, fun output stored own subaddress => ?_⟩
  rcases promise.received output stored own subaddress looks with
    window | ⟨failed, -⟩
  · exact window
  · exact absurd unfailed failed

/-- In every run whose calls leave no window behind, an account without a
failure height has its windows stored. -/
theorem lookaheads_stored {env : Env} {bases : Bases} {start : Db}
    {final : Watched} {operations : List Operation}
    (injective : bases.Injective env) (opened : openNew env = .ok start)
    (run : Run (WatchedStep env bases (LeavesNoWindow env)) ⟨start, []⟩
      operations final) : LookaheadsStored final.db := by
  have provisioned : Provisioned env bases final.announced final.db :=
    run.preserves
      (fun state => Provisioned env bases state.announced state.db)
      (fun _ _ _ before stepped => before.step injective stepped)
      (.of_openNew opened)
  exact provisioned.stored

/-- A match whose window does not fit under the limit, a rescan, and the match
again before its output is stored. -/
def announcedCalls : List Operation :=
  [.creationRequest 0 sampleAddress 7 0 ⟨1, 2⟩,
    .acceptRequests 0 .create [sampleAddress] 2,
    .updateLookahead sampleAddress 1 ⟨0, 1⟩ 2,
    .rescan 0 [sampleAddress],
    .updateLookahead sampleAddress 1 ⟨0, 1⟩ 10,
    .update 0 [10, 11, 12] [⟨1, sampleAddress, 0,
      [{ sampleOutput with recipient := ⟨0, 1⟩ }], []⟩] []]

private def unprovisioned : Db :=
  afterAll derivingEnv sampleDb (announcedCalls.take 3)

private def reannounced : Db :=
  afterAll derivingEnv sampleDb (announcedCalls.take 5)

/-- The rescan clears the failure height of an account whose first indexes are
stored. -/
private theorem unprovisioned_backed (user : Account)
    (located : unprovisioned.accountAt sampleAddress = some user) :
    MoveBacked [] unprovisioned user 0 .primary := by
  have known : ∀ user ∈ unprovisioned.accountAt sampleAddress,
      user.id = 1 ∧ user.lookahead = ⟨1, 2⟩ := by
    decide
  obtain ⟨id, lookahead⟩ := known user located
  refine ⟨fun _ _ _ => ?_, fun _ _ _ _ => nofun, nofun⟩
  rw [id, lookahead]
  have stored : ∀ minor < 2, ∃ row ∈ unprovisioned.subaddressIndexes.rows,
      row.1 = 1 ∧ row.2.index = ⟨0, minor⟩ := by
    decide
  rintro ⟨major, minor⟩ - ⟨first, inside⟩
  obtain rfl : major = 0 := Nat.lt_one_iff.mp first
  exact stored minor inside

/-- The scan that is stored holds the announced output only. -/
private theorem reannounced_scan :
    StoresAnnounced [⟨1, 1, ⟨0, 1⟩⟩] reannounced 2
      ⟨1, sampleAddress, 0, [{ sampleOutput with recipient := ⟨0, 1⟩ }], []⟩ := by
  intro row member same _ _ output listed
  have started : ∀ row ∈ reannounced.accounts.rows, row.2.startHeight = 0 := by
    decide
  rw [List.mem_singleton.mp listed, started row member, same]
  exact ⟨⟨by decide, by decide⟩, Nat.one_pos,
    fun _ _ => List.mem_singleton_self _⟩

private theorem watched {condition : List Announcement → Db → Operation → Prop}
    {db : Db} {operation : Operation} {announced later : List Announcement}
    (success : (apply derivingEnv db operation).isOk = true)
    (known : UpsertsKnown derivingEnv sampleBases db operation)
    (calls : CallsAnnounced announced db operation)
    (kept : condition announced db operation)
    (notes : ∀ note ∈ later,
      note ∈ announced ∨ db.Announces note operation) :
    WatchedStep derivingEnv sampleBases condition ⟨db, announced⟩ operation
      ⟨after derivingEnv db operation, later⟩ :=
  ⟨step_after success, known, calls, kept, notes⟩

/-- The first match is forgotten with the rescan, the second one is not. -/
private theorem announcedCalls_run :
    Run (WatchedStep derivingEnv sampleBases (LeavesNoWindow derivingEnv))
      ⟨sampleDb, []⟩ announcedCalls
      ⟨afterAll derivingEnv sampleDb announcedCalls, [⟨1, 1, ⟨0, 1⟩⟩]⟩ := by
  have small : (⟨1, 2⟩ : AddressIndex).Fits := ⟨by decide, by decide⟩
  have first : Run (WatchedStep derivingEnv sampleBases
      (LeavesNoWindow derivingEnv)) ⟨sampleDb, []⟩ (announcedCalls.take 4)
      ⟨afterAll derivingEnv sampleDb (announcedCalls.take 4), []⟩ :=
    .cons (watched (by decide) trivial small trivial fun _ => .inl)
      (.cons (watched (by decide) ⟨fun _ _ _ _ => rfl, fun _ _ => trivial⟩
          trivial trivial fun _ => .inl)
        (.cons (watched (by decide) (fun _ _ _ _ => rfl) trivial
            (by decide : 0 < maxU32) fun _ => .inl)
          (.cons (watched (by decide) trivial trivial
            ⟨unprovisioned_backed, fun _ _ => trivial⟩ fun _ => .inl)
              (.nil _))))
  refine first.append (.cons (watched (by decide) (fun _ _ _ _ => rfl) trivial
    (by decide : 0 < maxU32) ?_) (.cons (watched (by decide) trivial ?_ trivial
      fun _ => .inl) (.nil _)))
  · intro note noted
    have located : ∃ user ∈ (afterAll derivingEnv sampleDb
        (announcedCalls.take 4)).accountAt sampleAddress, user.id = 1 := by
      decide
    obtain ⟨user, found, id⟩ := located
    exact .inr ⟨user, found, by rw [id]; exact List.mem_singleton.mp noted⟩
  · intro scanned listed
    rw [List.mem_singleton.mp listed]
    exact reannounced_scan

/-- The window around the stored output is stored. -/
theorem lookaheads_stored_after_rescan :
    let final := afterAll derivingEnv sampleDb announcedCalls
    final.accounts.rows.map
        (fun row => (row.2.lookahead, row.2.lookaheadFail)) = [(⟨1, 2⟩, 0)] ∧
      final.outputs.rows.map (fun row => row.2.recipient) = [⟨0, 1⟩] ∧
      LookaheadsStored final := by
  intro final
  refine ⟨?_, ?_, ?_⟩
  · decide
  · decide
  · have opened : openNew derivingEnv = .ok sampleDb := rfl
    exact @lookaheads_stored _ _ _ ⟨final, _⟩ _ sampleBases_injective opened
      announcedCalls_run

/-- An account whose first indexes do not fit under the limit, and a rescan
that clears its failure height. -/
def clearingCalls : List Operation :=
  [.creationRequest 0 sampleAddress 7 0 ⟨1, 2⟩,
    .acceptRequests 0 .create [sampleAddress] 1, .rescan 0 [sampleAddress]]

/-- A rescan clears a failure height and provisions nothing. -/
theorem rescan_forgets_lookahead :
    ¬ ∀ (env : Env) (bases : Bases) (start : Db) (final : Watched)
      (operations : List Operation), bases.Injective env →
      openNew env = .ok start →
      Run (WatchedStep env bases fun _ _ _ => True) ⟨start, []⟩ operations
        final → LookaheadsStored final.db := by
  intro always
  have small : (⟨1, 2⟩ : AddressIndex).Fits := ⟨by decide, by decide⟩
  have stored := always derivingEnv sampleBases sampleDb
    ⟨afterAll derivingEnv sampleDb clearingCalls, []⟩ clearingCalls
    sampleBases_injective rfl
    (.cons (watched (by decide) trivial small trivial fun _ => .inl)
      (.cons (watched (by decide) ⟨fun _ _ _ _ => rfl, fun _ _ => trivial⟩
          trivial trivial fun _ => .inl)
        (.cons (watched (by decide) trivial trivial trivial fun _ => .inl)
          (.nil _))))
  have cleared : ∃ row ∈ (afterAll derivingEnv sampleDb
      clearingCalls).accounts.rows, row.2.lookahead = ⟨1, 2⟩ ∧
        row.2.lookaheadFail = 0 := by
    decide
  have absent : (afterAll derivingEnv sampleDb
      clearingCalls).subaddressIndexes.rows = [] := by
    decide
  obtain ⟨row, member, lookahead, unfailed⟩ := cleared
  have base := (stored row member (by rw [lookahead]; exact ⟨nofun, nofun⟩)
    unfailed).1
  rw [lookahead] at base
  obtain ⟨index, listed, -⟩ := base ⟨0, 0⟩ ⟨by decide, by decide⟩
    ⟨by decide, by decide⟩
  rw [← SortedRows.mem_rows, absent] at listed
  cases listed

end XfoLws.Db
