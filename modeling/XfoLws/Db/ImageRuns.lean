import XfoLws.Db.HonestRuns
import XfoLws.Db.SpendImages

/-!
# The images of spends over whole runs

While an output belongs to one account, a chain spends a key image once and
`sync_chain` continues the stored chain, `images` mirrors `spends` in every
state that calls reach, whatever heights accounts are moved to.  A rollback of
spends then never misses an image.
-/

namespace XfoLws.Db

/-- An output belongs to one account, and a chain spends a key image in one
transaction. -/
structure SpendsOnce (ledger : Ledger) (env : Env) : Prop where
  owned : ∀ {chain}, TrueChain ledger env chain → ∀ {first second low high}
    {left right : Spend}, left ∈ ledger.spent.rows first (chain low) →
    right ∈ ledger.spent.rows second (chain high) →
    left.source = right.source → first = second
  once : ∀ {chain}, TrueChain ledger env chain → ∀ {first second low high}
    {left right : Spend}, left ∈ ledger.spent.rows first (chain low) →
    right ∈ ledger.spent.rows second (chain high) →
    left.image = right.image → left.link = right.link

/-- `update` gets a batch of a true chain with spends of its blocks or of
those below, and `sync_pow` is not called. -/
def RecordsSpends (ledger : Ledger) (env : Env) : Operation → Prop
  | .update height hashes users _ => hashes ≠ [] →
      ∃ daemon, Batch ledger env daemon height hashes ∧
        ∀ user ∈ users, ∀ spend ∈ user.spends,
          ∃ id ≤ height + (hashes.length - 1),
            spend ∈ ledger.spent.rows user.id (daemon id)
  | .syncPow _ _ _ => False
  | _ => True

/-- A spend its block holds. -/
def OnChain (ledger : Ledger) (chain : BlockId → Hash)
    (row : AccountId × Spend) : Prop :=
  row.2 ∈ ledger.spent.rows row.1 (chain row.2.link.height)

/-- Every spend is one of a stored block, and has its image. -/
structure Imaged (ledger : Ledger) (env : Env) (chain : BlockId → Hash)
    (pending : List (BlockId × AccountLookup)) (db : Db) : Prop where
  stored : StoredChain ledger env db chain
  files : ImagesFiled pending db
  recorded : ∀ row ∈ db.spends,
    Fixed env db row.2.link.height ∧ OnChain ledger chain row

/-- On one chain the key of an image tells its spend. -/
theorem SpendsOnce.key_eq {ledger : Ledger} {env : Env}
    {chain : BlockId → Hash} (spendsOnce : SpendsOnce ledger env)
    (isTrue : TrueChain ledger env chain) {left right : AccountId × Spend}
    (leftOn : OnChain ledger chain left) (rightOn : OnChain ledger chain right)
    (same : imagesKey (spendImage left) = imagesKey (spendImage right)) :
    spendsKey left = spendsKey right := by
  obtain ⟨source, image⟩ := imagesKey_eq.mp same
  refine spendsKey_eq.mpr ⟨spendsOnce.owned isTrue leftOn rightOn source, ?_⟩
  rw [spendImage, spendImage, source, image,
    spendsOnce.once isTrue leftOn rightOn image]

namespace Imaged

variable {ledger : Ledger} {env : Env} {chain after : BlockId → Hash}
  {pending : List (BlockId × AccountLookup)} {db next : Db}

/-- What leaves the blocks alone and adds no spends. -/
theorem thin (imaged : Imaged ledger env chain pending db)
    {remaining : List (BlockId × AccountLookup)}
    (files : ImagesFiled remaining next) (thinned : Thinned db next) :
    Imaged ledger env chain remaining next := by
  refine ⟨imaged.stored.of_blocks thinned.blocks, files, ?_⟩
  intro row member
  rw [Fixed, thinned.blocks]
  exact imaged.recorded row (thinned.spends row member)

theorem relabel (imaged : Imaged ledger env chain pending db)
    (sameIds : SameIds db next) (blocks : next.blocks = db.blocks)
    (heights : next.accountsByHeight = db.accountsByHeight)
    (spends : next.spends = db.spends) (images : next.images = db.images) :
    Imaged ledger env chain pending next :=
  imaged.thin (imaged.files.relabel sameIds heights spends images)
    ⟨blocks, fun row member => by rwa [spends] at member⟩

theorem extend (imaged : Imaged ledger env chain pending db)
    (extended : Extended ledger env none db next chain after)
    (tables : ∃ blocks pows,
      next = { db with blocks := blocks, pows := pows }) :
    Imaged ledger env after pending next := by
  obtain ⟨_, _, rfl⟩ := tables
  refine ⟨extended.stored,
    imaged.files.relabel (.of_accounts rfl) rfl rfl rfl, ?_⟩
  intro row member
  obtain ⟨fixed, onChain⟩ := imaged.recorded row member
  refine ⟨extended.fixed _ fixed (by simp), ?_⟩
  rw [OnChain, extended.agrees _ fixed (by simp)]
  exact onChain

theorem chainChanged (imaged : Imaged ledger env chain [] db)
    (changed : ChainChanged ledger env db next chain after) :
    Imaged ledger env after [] next := by
  cases changed with
  | kept extended tables => exact imaged.extend extended tables
  | @cut first height middle extended fixed rolled tables =>
      obtain ⟨files, spends⟩ := imaged.files.rollbackChain rolled
      obtain ⟨_, _, rfl⟩ := tables
      refine ⟨extended.stored,
        files.relabel (.of_accounts rfl) rfl rfl rfl, ?_⟩
      intro row member
      obtain ⟨old, early⟩ := spends row member
      obtain ⟨fixed, onChain⟩ := imaged.recorded row old
      refine ⟨extended.fixed _ fixed (by simpa using early), ?_⟩
      rw [OnChain, extended.agrees _ fixed (by simpa using early)]
      exact onChain

/-! ## Storing a batch -/

/-- The tables while `update` goes through the users. -/
private structure Recording (ledger : Ledger) (env : Env)
    (chain : BlockId → Hash) (last : BlockId) (state : Updating) : Prop where
  imaged : Imaged ledger env chain (state.pending last) state.db
  fixed : Fixed env state.db last

private theorem Recording.room {last : BlockId} {state : Updating}
    (recording : Recording ledger env chain last state) :
    Recording ledger env chain last (state.room last) := by
  have thinned : Thinned state.db (state.room last).db := by
    unfold Updating.room
    split <;> exact ⟨rfl, fun _ member => member⟩
  refine ⟨recording.imaged.thin recording.imaged.files.room thinned, ?_⟩
  rw [Fixed, thinned.blocks]
  exact recording.fixed

private theorem Recording.step {height last : BlockId}
    {state next : Updating} {user : ScannedAccount}
    (spendsOnce : SpendsOnce ledger env)
    (recording : Recording ledger env chain last state)
    (spends : ∀ spend ∈ user.spends, spend.link.height ≤ last ∧
      OnChain ledger chain (user.id, spend))
    (updated : UserUpdated height last state user next) :
    Recording ledger env chain last next := by
  cases updated with
  | skipped sameDb sameHeights =>
      obtain ⟨imaged, fixed⟩ := recording
      rw [Updating.pending, ← sameHeights, ← sameDb] at imaged
      rw [← sameDb] at fixed
      exact ⟨imaged, fixed⟩
  | @stored status existing _ located reached ahead success =>
      obtain ⟨_, _, tables⟩ := (storeScan_ok success).db_eq
      have blocks : next.db.blocks = state.db.blocks := by rw [tables]
      have rows : ∀ row, row ∈ state.db.spends ∨
          row ∈ user.spends.map (fun spend => (user.id, spend)) →
          Fixed env state.db row.2.link.height ∧ OnChain ledger chain row := by
        rintro row (old | new)
        · exact recording.imaged.recorded row old
        · obtain ⟨spend, member, rfl⟩ := List.mem_map.mp new
          obtain ⟨below, onChain⟩ := spends spend member
          exact ⟨recording.fixed.mono below, onChain⟩
      refine ⟨⟨recording.imaged.stored.of_blocks blocks, ?_, ?_⟩, ?_⟩
      · refine recording.imaged.files.scanStored located ahead
          (fun spend member => (spends spend member).1) ?_ success
        intro left leftRow right rightRow
        exact spendsOnce.key_eq recording.imaged.stored.isTrue
          (rows left leftRow).2 (rows right rightRow).2
      · intro row member
        rw [tables] at member
        rw [Fixed, blocks]
        exact rows row (SortedRows.mem_of_mem_addAll member)
      · rw [Fixed, blocks]
        exact recording.fixed

theorem update {height : BlockId} {hashes : List Hash}
    {users : List ScannedAccount} {pow : List PowSync} {out : Updated}
    (spendsOnce : SpendsOnce ledger env)
    (checkpoints : env.checkpoints ≠ .empty)
    (imaged : Imaged ledger env chain [] db) {daemon : BlockId → Hash}
    (batch : Batch ledger env daemon height hashes)
    (spends : ∀ user ∈ users, ∀ spend ∈ user.spends,
      ∃ id ≤ height + (hashes.length - 1),
        spend ∈ ledger.spent.rows user.id (daemon id))
    (success : update env db height hashes users pow = .ok (next, out)) :
    ∃ after, Imaged ledger env after [] next := by
  rcases update_ok success with
    ⟨-, rfl, -⟩ |
      ⟨nonempty, last, checked, final, lastEq, blocks, folded, rfl, -⟩
  · exact ⟨chain, imaged⟩
  have fits := batch.fits
  have size : 0 < hashes.length := List.length_pos_iff.mpr nonempty
  rw [wrap64, Nat.mod_eq_of_lt (by lia)] at lastEq
  obtain ⟨after, -, extended, meets, fixed⟩ := updateBlocks_extends
    imaged.stored checkpoints batch nonempty lastEq blocks
  have initial : Recording ledger env after last ⟨checked, [], [], [], 0⟩ :=
    ⟨imaged.extend extended (updateBlocks_eq blocks), fixed⟩
  have found : ∀ user ∈ users, ∀ spend ∈ user.spends,
      spend.link.height ≤ last ∧ OnChain ledger after (user.id, spend) := by
    intro user userMember spend member
    obtain ⟨id, below, listed⟩ := spends user userMember spend member
    rw [← lastEq] at below
    rw [← meets id below] at listed
    have atHeight : spend.link.height = id :=
      (ledger.spent.height_eq listed).trans
        (extended.stored.isTrue.height_eq id)
    exact ⟨atHeight ▸ below, by rw [OnChain, atHeight]; exact listed⟩
  have recorded : Recording ledger env after last final :=
    Outcome.foldlM_preserves (Recording ledger env after last)
      (fun _ user _ member before stepped => before.room.step spendsOnce
        (found user member) (updateUser_ok stepped)) initial folded
  exact ⟨after, recorded.imaged.thin recorded.imaged.files.flush
    ⟨rfl, fun _ member => member⟩⟩

/-! ## Every call -/

private theorem addAccount {clock : ℤ} {address : AccountAddress}
    {key : SecretKey} {flags : AccountFlags}
    (imaged : Imaged ledger env chain [] db)
    (valid : wrap32 (db.findLastId + 1) ≠ AccountId.invalid)
    (success : db.addAccount env clock address key flags = .ok next) :
    Imaged ledger env chain [] next := by
  obtain ⟨user, id, -, added⟩ := addAccount_added success
  have last := UsableIds.findLastId_lt imaged.files.filed.ids
  have below := nextId_fresh last fun _ member => le_findLastId member
  rw [← id] at below
  refine imaged.thin (imaged.files.add (fun row member =>
    Nat.ne_of_lt (below row member)) ?_ added) ?_
  · rw [id]
    exact nextId_valid last valid
  · rw [added.next_eq]
    exact ⟨rfl, fun _ member => member⟩

private theorem createAccounts {clock : ℤ}
    {addresses found : List AccountAddress} {maxSubaddresses : ℕ}
    (imaged : Imaged ledger env chain [] db)
    (success : createAccounts env clock db addresses maxSubaddresses =
      .ok (next, found)) : Imaged ledger env chain [] next := by
  refine createAccounts_preserves (Imaged ledger env chain []) ?_ ?_
    imaged.files.filed.ids imaged success
  · intro db _ _ _ before
    exact before.relabel (.of_accounts rfl) rfl rfl rfl rfl
  · intro user db after before fresh valid _ added
    refine before.thin (before.files.add fresh valid added) ?_
    rw [added.next_eq]
    exact ⟨rfl, fun _ member => member⟩

theorem step {operation : Operation} (spendsOnce : SpendsOnce ledger env)
    (checkpoints : env.checkpoints ≠ .empty)
    (imaged : Imaged ledger env chain [] db)
    (records : RecordsSpends ledger env operation)
    (regular : Regular ledger env db operation)
    (success : Step env db operation next) :
    ∃ after, Imaged ledger env after [] next := by
  have same : ∀ {next : Db}, next.accounts = db.accounts →
      next.blocks = db.blocks →
      next.accountsByHeight = db.accountsByHeight →
      next.spends = db.spends → next.images = db.images →
      ∃ after, Imaged ledger env after [] next :=
    fun accounts blocks heights spends images =>
      ⟨chain, imaged.relabel (.of_accounts accounts) blocks heights spends
        images⟩
  cases operation with
  | addAccount clock address key flags =>
      exact ⟨chain, imaged.addAccount regular success⟩
  | changeStatus status addresses =>
      obtain ⟨⟨final, found⟩, changed, rfl⟩ := Outcome.map_eq_ok.mp success
      obtain ⟨files, thinned⟩ := imaged.files.changeStatus changed
      exact ⟨chain, imaged.thin files thinned⟩
  | creationRequest clock address key flags lookahead =>
      obtain ⟨⟨final, hooks⟩, requested, rfl⟩ := Outcome.map_eq_ok.mp success
      obtain ⟨requests, rfl⟩ := creationRequest_eq requested
      exact same rfl rfl rfl rfl rfl
  | importRequest clock address height lookahead =>
      obtain ⟨requests, rfl⟩ := importRequest_eq success
      exact same rfl rfl rfl rfl rfl
  | acceptRequests clock type addresses maxSubaddresses =>
      obtain ⟨⟨final, found⟩, accepted, rfl⟩ := Outcome.map_eq_ok.mp success
      unfold acceptRequests at accepted
      split at accepted
      · cases accepted
        exact ⟨chain, imaged⟩
      cases type with
      | create => exact ⟨chain, imaged.createAccounts accepted⟩
      | importScan =>
          obtain ⟨files, thinned⟩ := imaged.files.importAccounts accepted
          exact ⟨chain, imaged.thin files thinned⟩
  | rejectRequests type addresses =>
      obtain ⟨requests, equality⟩ := rejectRequests_eq db type addresses
      cases success
      rw [equality]
      exact same rfl rfl rfl rfl rfl
  | rescan height addresses =>
      obtain ⟨⟨final, found⟩, rescanned, rfl⟩ := Outcome.map_eq_ok.mp success
      obtain ⟨files, thinned⟩ := imaged.files.rescan rescanned
      exact ⟨chain, imaged.thin files thinned⟩
  | rollback height =>
      exact ⟨chain, imaged.chainChanged
        (rollback_changes imaged.stored success)⟩
  | syncChain height hashes regtest =>
      obtain ⟨after, changed⟩ :=
        syncChain_changes imaged.stored checkpoints regular success
      exact ⟨after, imaged.chainChanged changed⟩
  | syncPow height hashes pow => exact records.elim
  | update height hashes users pow =>
      obtain ⟨⟨final, out⟩, updated, rfl⟩ := Outcome.map_eq_ok.mp success
      by_cases empty : hashes = []
      · rcases update_ok updated with ⟨-, rfl, -⟩ | ⟨nonempty, -⟩
        · exact ⟨chain, imaged⟩
        · exact absurd empty nonempty
      · obtain ⟨daemon, batch, spends⟩ := records empty
        exact imaged.update spendsOnce checkpoints batch spends updated
  | upsertSubaddresses id address viewKey subaddrs maxSubaddr =>
      obtain ⟨⟨final, out⟩, upserted, rfl⟩ := Outcome.map_eq_ok.mp success
      obtain ⟨ranges, indexes, rfl⟩ := upsertSubaddresses_eq upserted
      exact same rfl rfl rfl rfl rfl
  | updateLookahead address height matched maxSubaddresses =>
      obtain ⟨⟨final, changed⟩, updated, rfl⟩ := Outcome.map_eq_ok.mp success
      rcases updateLookahead_eq updated with
        ⟨_, _, rfl⟩ | ⟨lookup, user, fail, located, _, _, rfl⟩
      · exact same rfl rfl rfl rfl rfl
      · obtain ⟨member, -⟩ := Agreement.findAccount_iff.mp located
        refine ⟨chain, imaged.relabel (.of_put member ?_ rfl) rfl rfl rfl rfl⟩
        rfl
  | shrinkLookahead address lookahead =>
      obtain ⟨lookup, user, located, rfl⟩ := shrinkLookahead_eq success
      obtain ⟨member, -⟩ := Agreement.findAccount_iff.mp located
      refine ⟨chain, imaged.relabel (.of_put member ?_ rfl) rfl rfl rfl rfl⟩
      rfl
  | addWebhook type address event =>
      obtain ⟨rfl, -⟩ := addWebhook_eq success
      exact same rfl rfl rfl rfl rfl
  | clearWebhooks addresses =>
      obtain ⟨_, _, rfl⟩ := clearWebhooks_eq success
      exact same rfl rfl rfl rfl rfl
  | clearWebhookIds ids =>
      cases success
      exact same rfl rfl rfl rfl rfl

theorem of_openNew (opened : openNew env = .ok db)
    (isTrue : TrueChain ledger env chain) :
    env.checkpoints ≠ .empty ∧ Imaged ledger env chain [] db := by
  obtain ⟨checkpoints, tracked⟩ := Tracked.of_openNew opened isTrue
  unfold openNew at opened
  split at opened
  · cases opened
  split at opened
  · cases opened
  cases opened
  refine ⟨checkpoints, tracked.stored, ⟨⟨?_, ?_, ?_, ?_⟩, ?_, ?_⟩, ?_⟩
  · simp [IndexRow]
  · simp [IndexRow]
  · simp
  · simp
  · simp [ImagesMirror, Mirrors]
  · simp [ImagesIdentify, Identifies]
  · simp

end Imaged

/-- Each spend has its image and each image its spend, and no rollback of
spends fails. -/
def ImagesPaired (db : Db) : Prop :=
  (∀ source image link, (source, ⟨image, link⟩) ∈ db.images ↔
    ∃ user spend, (user, spend) ∈ db.spends ∧ spend.source = source ∧
      spend.image = image ∧ spend.link = link) ∧
  ∀ user height, ∃ next, db.rollbackSpends user height = .ok next

/-- Started from a new database, spends and images are paired as long as
`sync_chain` continues the stored chain. -/
theorem images_mirror_spends {ledger : Ledger} {env : Env}
    {chain : BlockId → Hash} {start final : Db} {operations : List Operation}
    (opened : openNew env = .ok start) (isTrue : TrueChain ledger env chain)
    (spendsOnce : SpendsOnce ledger env)
    (run : Run (fun db operation next => RecordsSpends ledger env operation ∧
      Regular ledger env db operation ∧ Step env db operation next)
      start operations final) : ImagesPaired final := by
  obtain ⟨checkpoints, initial⟩ := Imaged.of_openNew opened isTrue
  obtain ⟨after, imaged⟩ : ∃ chain, Imaged ledger env chain [] final := by
    refine run.preserves (fun db => ∃ chain, Imaged ledger env chain [] db) ?_
      ⟨chain, initial⟩
    rintro db operation next ⟨current, before⟩ ⟨records, regular, stepped⟩
    exact before.step spendsOnce checkpoints records regular stepped
  refine ⟨?_, ?_⟩
  · intro source image link
    rw [imaged.files.mirror]
    constructor
    · rintro ⟨⟨user, spend⟩, member, projected⟩
      cases projected
      exact ⟨user, spend, member, rfl, rfl, rfl⟩
    · rintro ⟨user, spend, member, rfl, rfl, rfl⟩
      exact ⟨(user, spend), member, rfl⟩
  · intro user height
    obtain ⟨next, rolled, -⟩ := rollbackSpends_mirrors imaged.files.mirror
      imaged.files.identify user height
    exact ⟨next, rolled⟩

/-! ## A fork -/

/-- A spend of one output, in a block at `height`. -/
def spendAt (height : BlockId) : Spend where
  link := ⟨height, height⟩
  image := 7
  source := ⟨0, 1⟩
  timestamp := 0
  unlockTime := 0
  mixinCount := 15
  length := 0
  paymentId := ⟨0, 0⟩
  sender := .primary

/-- The spends of the first account: one on each branch. -/
def forkedSpends : List (Hash × Spend) := [(108, spendAt 4), (111, spendAt 5)]

/-- From height four on, the chain has a branch of even hashes and one of odd
hashes. -/
def forkedLedger : Ledger where
  parent := fun hash =>
    if hash < 100 then hash - 1 else if hash < 110 then 13 else hash - 2
  height := fun hash => if hash < 100 then hash - 10 else (hash - 100) / 2
  received :=
    { rows := fun _ _ => []
      height_eq := fun listed => by cases listed
      identified := fun listed => by cases listed }
  spent :=
    { rows := fun id hash => if id = 1 then
        (forkedSpends.filter fun entry => entry.1 = hash).map Prod.snd
        else []
      height_eq := by
        intro id hash row listed
        have all : ∀ entry ∈ forkedSpends, entry.2.link.height =
            if entry.1 < 100 then entry.1 - 10 else (entry.1 - 100) / 2 := by
          decide
        obtain ⟨-, held⟩ := List.mem_ite_nil_right.mp listed
        obtain ⟨entry, member, rfl⟩ := List.mem_map.mp held
        obtain ⟨entryMember, same⟩ := List.mem_filter.mp member
        rw [all entry entryMember, of_decide_eq_true same]
      identified := by
        intro id hash left right leftListed rightListed _
        have all : ∀ left ∈ forkedSpends, ∀ right ∈ forkedSpends,
            left.1 = right.1 → left.2 = right.2 := by
          decide
        obtain ⟨-, leftHeld⟩ := List.mem_ite_nil_right.mp leftListed
        obtain ⟨-, rightHeld⟩ := List.mem_ite_nil_right.mp rightListed
        obtain ⟨first, firstMember, rfl⟩ := List.mem_map.mp leftHeld
        obtain ⟨second, secondMember, rfl⟩ := List.mem_map.mp rightHeld
        obtain ⟨firstListed, firstHash⟩ := List.mem_filter.mp firstMember
        obtain ⟨secondListed, secondHash⟩ := List.mem_filter.mp secondMember
        exact all first firstListed second secondListed
          ((of_decide_eq_true firstHash).trans
            (of_decide_eq_true secondHash).symm) }

def forkedChain (branch : ℕ) (id : BlockId) : Hash :=
  if id < 4 then id + 10 else 2 * id + 100 + branch

private theorem forkedChain_true {branch : ℕ} (small : branch < 2) :
    TrueChain forkedLedger gapEnv (forkedChain branch) := by
  refine ⟨?_, ?_, ?_⟩
  · intro position
    simp only [forkedLedger, forkedChain]
    split_ifs <;> lia
  · intro id
    simp only [forkedLedger, forkedChain]
    split_ifs <;> lia
  · have all : ∀ point ∈ gapEnv.checkpoints.rows,
        point.1 < 4 ∧ point.1 + 10 = point.2 := by
      decide
    intro point member
    obtain ⟨below, same⟩ := all point member
    rw [forkedChain, if_pos below, same]

private theorem forkedBatch {branch first : ℕ} {length : ℕ}
    (small : branch < 2) (fits : first + length < 2 ^ 64) :
    Batch forkedLedger gapEnv (forkedChain branch) first
      ((List.range' first length).map (forkedChain branch)) := by
  refine ⟨forkedChain_true small, ?_, by simpa using fits⟩
  intro index element read
  rw [List.getElem?_map, Option.map_eq_some_iff] at read
  obtain ⟨height, listed, rfl⟩ := read
  obtain ⟨inside, rfl⟩ := List.getElem?_eq_some_iff.mp listed
  simp

private theorem mem_forked {id : AccountId} {hash : Hash} {spend : Spend} :
    spend ∈ forkedLedger.spent.rows id hash ↔
      id = 1 ∧ (hash, spend) ∈ forkedSpends := by
  simp only [forkedLedger, List.mem_ite_nil_right, List.mem_map,
    List.mem_filter, decide_eq_true_eq, Prod.exists]
  grind

/-- No chain has both spends. -/
private theorem forkedLedger_once : SpendsOnce forkedLedger gapEnv where
  owned := by
    intro _ _ first second _ _ left right leftListed rightListed _
    rw [(mem_forked.mp leftListed).1, (mem_forked.mp rightListed).1]
  once := by
    intro chain isTrue _ _ low high left right leftListed rightListed _
    have apart : ∀ {low high}, chain low = 108 → chain high ≠ 111 := by
      intro low high even odd
      have lowHeight : low = 4 := by
        rw [← isTrue.height_eq low, even]
        rfl
      have highHeight : high = 5 := by
        rw [← isTrue.height_eq high, odd]
        rfl
      have linked : forkedLedger.parent (chain high) = chain low := by
        rw [lowHeight, highHeight]
        exact isTrue.linked 4
      rw [even, odd] at linked
      exact absurd linked (by decide)
    obtain ⟨-, leftForked⟩ := mem_forked.mp leftListed
    obtain ⟨-, rightForked⟩ := mem_forked.mp rightListed
    simp only [forkedSpends, List.mem_cons, Prod.mk.injEq,
      List.not_mem_nil, or_false] at leftForked rightForked
    rcases leftForked with ⟨leftHash, rfl⟩ | ⟨leftHash, rfl⟩ <;>
      rcases rightForked with ⟨rightHash, rfl⟩ | ⟨rightHash, rfl⟩
    · rfl
    · exact absurd rightHash (apart leftHash)
    · exact absurd leftHash (apart rightHash)
    · rfl

/-- One account is added, and its spend on the even branch is stored. -/
private def evenCalls : List Operation :=
  [.addAccount 0 sampleAddress 7 0,
    .update 2 [12, 13, 108] [⟨1, sampleAddress, 2, [], [spendAt 4]⟩] []]

/-- Its spend on the odd branch. -/
private def oddUpdate (scanHeight : BlockId) : Operation :=
  .update 4 [109, 111] [⟨1, sampleAddress, scanHeight, [], [spendAt 5]⟩] []

private theorem oddUpdate_records (scanHeight : BlockId) :
    RecordsSpends forkedLedger gapEnv (oddUpdate scanHeight) := by
  intro _
  refine ⟨forkedChain 1, forkedBatch (by decide)
    (by decide : 4 + 2 < 2 ^ 64), ?_⟩
  intro user listed spend spent
  rw [List.mem_singleton.mp listed] at spent ⊢
  rw [List.mem_singleton.mp spent]
  exact ⟨5, by decide, mem_forked.mpr ⟨rfl, by decide⟩⟩

private theorem evenCalls_run :
    Run (fun db operation next =>
      RecordsSpends forkedLedger gapEnv operation ∧
      Regular forkedLedger gapEnv db operation ∧
      Step gapEnv db operation next) gapDb evenCalls
      (afterAll gapEnv gapDb evenCalls) := by
  refine .cons ⟨trivial, ?_, step_after (by decide)⟩
    (.cons ⟨fun _ => ⟨forkedChain 0, forkedBatch (by decide)
      (by decide : 2 + 3 < 2 ^ 64), ?_⟩, trivial, step_after (by decide)⟩
      (.nil _))
  · show wrap32 (gapDb.findLastId + 1) ≠ AccountId.invalid
    decide
  · intro user listed spend spent
    rw [List.mem_singleton.mp listed] at spent ⊢
    rw [List.mem_singleton.mp spent]
    exact ⟨4, by decide, mem_forked.mpr ⟨rfl, by decide⟩⟩

/-- A fork from the block below the spend rolls the spend back, and the one on
the other branch takes its place. -/
theorem images_mirror_spends_at_fork :
    let final := afterAll gapEnv gapDb
      (evenCalls ++ [.syncChain 3 [13, 109, 111] false, oddUpdate 3])
    (1, spendAt 4) ∉ final.spends ∧ (1, spendAt 5) ∈ final.spends ∧
      ImagesPaired final := by
  intro final
  have continues : Regular forkedLedger gapEnv
      (afterAll gapEnv gapDb evenCalls)
      (.syncChain 3 [13, 109, 111] false) := by
    refine fun _ => ⟨forkedChain 1, forkedBatch (by decide)
      (by decide : 4 + 2 < 2 ^ 64), ?_⟩
    intro row member early
    have below : row.id < 4 := early ⟨4, 108⟩ rfl
    have all : ∀ row ∈ (afterAll gapEnv gapDb evenCalls).blocks.rows,
        row.id < 4 → forkedChain 1 row.id = row.hash := by
      decide
    exact all row member below
  have synced : RecordsSpends forkedLedger gapEnv
      (.syncChain 3 [13, 109, 111] false) := trivial
  refine ⟨by decide, by decide, images_mirror_spends rfl
    (@forkedChain_true 0 (by decide)) forkedLedger_once
    (evenCalls_run.append (.cons ⟨synced, continues, step_after (by decide)⟩
      (.cons ⟨oddUpdate_records 3, trivial, step_after (by decide)⟩
        (.nil _))))⟩

/-- The same fork from genesis on: behind the hole the comparison is one block
ahead of the heights, and the block of the spend is written over. -/
theorem sync_chain_unpairs_images :
    ¬ ∀ (ledger : Ledger) (env : Env) (chain : BlockId → Hash)
      (start final : Db) (operations : List Operation),
      openNew env = .ok start → TrueChain ledger env chain →
      SpendsOnce ledger env →
      Run (fun db operation next => RecordsSpends ledger env operation ∧
        Step env db operation next) start operations final →
      ImagesPaired final := by
  intro always
  have even : Run (fun db operation next =>
      RecordsSpends forkedLedger gapEnv operation ∧
        Step gapEnv db operation next) gapDb evenCalls
      (afterAll gapEnv gapDb evenCalls) :=
    evenCalls_run.imp fun _ _ _ stepped => ⟨stepped.1, stepped.2.2⟩
  have synced : RecordsSpends forkedLedger gapEnv
      (.syncChain 0 [10, 12, 13, 108, 109] false) := trivial
  have run := even.append (.cons ⟨synced, step_after (by decide)⟩
    (.cons ⟨oddUpdate_records 4, step_after (by decide)⟩ (.nil _)))
  obtain ⟨paired, -⟩ := always _ _ _ _ _ _ rfl
    (@forkedChain_true 0 (by decide)) forkedLedger_once run
  have image := (paired ⟨0, 1⟩ 7 ⟨5, 5⟩).mpr
    ⟨1, spendAt 5, by decide, rfl, rfl, rfl⟩
  exact absurd image (by decide)

end XfoLws.Db
