import XfoLws.Db.Accounts
import XfoLws.Lib.Outcome

/-!
# What the wallet handlers read

The tables of imported key images beside the storage, the account that a
request opens, and the selection that the handlers share: which output of the
account a confirmed key image spends.
-/

namespace XfoLws.Rest

open Db

/-! ## Tables -/

/-- An imported key image with the identity of its output. -/
structure KeyImageSource where
  image : KeyImage
  source : OutputId
  txHash : Hash
  pub : PublicKey
  outIndex : ℕ
deriving DecidableEq, Repr

/-- A spend that was submitted through this server. -/
structure PendingSpend where
  source : OutputId
  txHash : Hash
  pub : PublicKey
  outIndex : ℕ
  recorded : ℕ
deriving DecidableEq, Repr

def confirmedSpendsKey (row : AccountId × KeyImage) : ℕ ×ₗ ℕ :=
  toLex (row.1, row.2)

/-- `key_image_source_compare`. -/
def importedSpendSourcesKey (row : AccountId × KeyImageSource) :
    ℕ ×ₗ ℕ ×ₗ ℕ ×ₗ ℕ :=
  toLex (row.1, toLex (row.2.image, row.2.source.order))

/-- `pending_spend_compare`. -/
def pendingSpendsKey (row : AccountId × PendingSpend) :
    ℕ ×ₗ (ℕ ×ₗ ℕ) ×ₗ ℕ ×ₗ ℕ ×ₗ ℕ :=
  toLex (row.1, toLex (row.2.source.order, toLex (row.2.txHash,
    toLex (row.2.pub, row.2.outIndex))))

/-- The storage with the tables of imported key images. -/
structure WalletDb where
  db : Db
  confirmedSpends : SortedRows confirmedSpendsKey
  importedSpendSources : SortedRows importedSpendSourcesKey
  pendingSpends : SortedRows pendingSpendsKey

/-- `get_value_stream`: the values under one table key. -/
def valueStream {κ ρ : Type} [DecidableEq κ] (rows : List (κ × ρ))
    (wanted : κ) : List ρ :=
  (rows.filter fun row => row.1 = wanted).map Prod.snd

theorem mem_valueStream {κ ρ : Type} [DecidableEq κ] {rows : List (κ × ρ)}
    {wanted : κ} {value : ρ} :
    value ∈ valueStream rows wanted ↔ (wanted, value) ∈ rows := by
  simp [valueStream]

namespace WalletDb

variable (state : WalletDb)

def getOutputs (id : AccountId) : List Output :=
  valueStream state.db.outputs.rows id

def getSpends (id : AccountId) : List Spend :=
  valueStream state.db.spends.rows id

/-- The key images of one output, of whatever account. -/
def getImages (id : OutputId) : List KeyImageLink :=
  valueStream state.db.images.rows id

def getConfirmedSpendImages (id : AccountId) : List KeyImage :=
  valueStream state.confirmedSpends.rows id

def getImportedSpendSources (id : AccountId) : List KeyImageSource :=
  valueStream state.importedSpendSources.rows id

def getPendingSpends (id : AccountId) : List PendingSpend :=
  valueStream state.pendingSpends.rows id

end WalletDb

/-! ## Requests -/

/-- Failures of the handlers; `daemon` is an error of the client. -/
inductive Failure where
  | lws (error : Error)
  | daemon
  | badDaemonResponse
  | notEnoughAmount
  /-- `std::logic_error`: the database has an unexpected sort order. -/
  | unexpectedSortOrder
  /-- `std::out_of_range`. -/
  | outOfRange
deriving DecidableEq, Repr

structure AccountCredentials where
  address : AccountAddress
  key : SecretKey
deriving DecidableEq, Repr

def keyCheck (env : Env) (creds : AccountCredentials) : Bool :=
  env.secretKeyToPublicKey creds.key = some creds.address.viewPublic

/-- `storage_reader::get_account` by the whole address. -/
def getAccount (db : Db) (address : AccountAddress) :
    Except Error (AccountStatus × Account) :=
  match db.findByAddress? address with
  | none => .error .accountNotFound
  | some byAddress =>
      if byAddress.address ≠ address then .error .accountNotFound
      else
        match db.findAccount? byAddress.lookup with
        | none => .error (.notFound .accounts .getBoth)
        | some user => .ok (byAddress.lookup.status, user)

def openAccount (env : Env) (db : Db) (creds : AccountCredentials) :
    Except Failure Account :=
  if keyCheck env creds = false then .error (.lws .badViewKey)
  else
    match getAccount db creds.address with
    | .error error => .error (.lws error)
    | .ok (status, user) =>
        if status = .hidden then .error (.lws .accountNotFound) else .ok user

/-- `get_last_block`; only the height is used. -/
def getLastBlock (db : Db) : Except Failure BlockId :=
  match db.lastBlockId with
  | .error error => .error (.lws error)
  | .ok last => .ok last

/-- The check in front of every sum that must not overflow. -/
def checkedAdd (total amount : ℕ) : Except Failure ℕ :=
  if 2 ^ 64 - 1 - total < amount then .error .badDaemonResponse
  else .ok (total + amount)

theorem checkedAdd_eq_ok {total amount sum : ℕ}
    (added : checkedAdd total amount = .ok sum) :
    sum = total + amount ∧ (total < 2 ^ 64 → sum < 2 ^ 64) := by
  unfold checkedAdd at added
  split at added
  · cases added
  · cases added
    omega

/-! ## Selecting spends -/

/-- `std::set` of key images. -/
abbrev ImageSet := SortedRows (fun image : KeyImage => image)

abbrev SourceSet := SortedRows OutputId.order

/-- `std::map` from key images; the first entry of an image is kept. -/
abbrev SourceMap := SortedRows KeyImageSource.image

def confirmedImages (images : List KeyImage) : ImageSet :=
  SortedRows.empty.addAll images

def importedSourceMap (sources : List KeyImageSource) : SourceMap :=
  SortedRows.empty.addAll sources

structure ConfirmedSpendChoice where
  spend : Spend
  spendMeta : SpendMeta
  source : OutputId
  importedSource : Bool
deriving DecidableEq, Repr

/-- The map from key images to choices. -/
abbrev ChoiceMap :=
  SortedRows fun choice : ConfirmedSpendChoice => choice.spend.image

def shouldReplaceConfirmedSpendChoice
    (current candidate : ConfirmedSpendChoice) : Bool :=
  if current.importedSource ≠ candidate.importedSource then
    candidate.importedSource
  else if current.spendMeta.amount ≠ candidate.spendMeta.amount then
    current.spendMeta.amount < candidate.spendMeta.amount
  else candidate.source.order < current.source.order

/-- An imported source names an output by all of its identity. -/
def KeyImageSource.matchesOutput (source : KeyImageSource) (output : Output) :
    Bool :=
  output.spendMeta.id = source.source &&
    output.spendMeta.index = source.outIndex &&
    output.pub = source.pub && output.link.txHash = source.txHash

def findOutputByImportedSource (outputs : List Output)
    (importedSources : SourceMap) (image : KeyImage) : Option Output :=
  match importedSources.find? image with
  | none => none
  | some source => outputs.find? source.matchesOutput

/-- The choice for a confirmed spend; `none` without an exact source. -/
def chooseSource (outputs : List Output) (importedSources : SourceMap)
    (spend : Spend) : Option ConfirmedSpendChoice :=
  match importedSources.find? spend.image with
  | none => none
  | some _ =>
      (findOutputByImportedSource outputs importedSources spend.image).map
        fun output => ⟨spend, output.spendMeta, output.spendMeta.id, true⟩

/-- A choice is taken over unless a better one is there. -/
def keepChoice (choices : ChoiceMap) (choice : ConfirmedSpendChoice) :
    ChoiceMap :=
  match choices.find? choice.spend.image with
  | none => choices.add choice
  | some existing =>
      if shouldReplaceConfirmedSpendChoice existing choice then
        choices.put choice
      else choices

structure TransactionSpend where
  spendMeta : SpendMeta
  possibleSpend : Spend
deriving DecidableEq, Repr

/-! ## The overlay of the transaction pool -/

structure TxpoolOverlayMatch where
  output : Output
deriving DecidableEq, Repr

def outputExistsInRows (rows : List Output) (candidate : TxpoolOverlayMatch) :
    Bool :=
  rows.any fun output =>
    output.link.txHash = candidate.output.link.txHash &&
      output.spendMeta.index = candidate.output.spendMeta.index

/-! ## Locked outputs -/

/-- The unlock rules of the daemon's library. -/
structure LockRules where
  maxBlockNumber : ℕ
  allowedDeltaSeconds : ℕ
  allowedDeltaBlocks : ℕ
  difficultyTarget : ℕ
  spendableAge : ℕ

/-- `std::chrono::seconds` of an unsigned value. -/
def asSeconds (value : ℕ) : ℤ :=
  if value < 2 ^ 63 then value else value - 2 ^ 64

/-- `blocks_until_unlocked`, with the clock in seconds and without overflow;
`LockRules.blocksUntilUnlocked` counts as the machine does. -/
def blocksUntilUnlocked (rules : LockRules) (clock : ℤ) (unlockTime : ℕ)
    (last txHeight : BlockId) : ℕ :=
  if rules.maxBlockNumber < unlockTime then
    let allowed := clock + rules.allowedDeltaSeconds
    if asSeconds unlockTime ≤ allowed then 0
    else
      max 1 ((asSeconds unlockTime - allowed + rules.difficultyTarget - 1) /
        rules.difficultyTarget).toNat
  else
    let allowedHeight :=
      if last = 0 then 0 else wrap64 (last - 1 + rules.allowedDeltaBlocks)
    if allowedHeight < unlockTime then unlockTime - allowedHeight
    else
      let spendableHeight := wrap64 (txHeight + rules.spendableAge)
      if spendableHeight ≤ last then 0 else spendableHeight - last

def isLocked (rules : LockRules) (clock : ℤ) (unlockTime : ℕ)
    (last txHeight : BlockId) : Bool :=
  blocksUntilUnlocked rules clock unlockTime last txHeight ≠ 0

end XfoLws.Rest
