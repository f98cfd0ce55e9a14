import XfoLws.Rest.WalletRows

/-!
# Wallet views

The handlers of `get_address_info`, `get_address_txs` and `get_unspent_outs`
on one snapshot of the database.  The answers of the daemon, the outputs found
in the transaction pool and the clock are arguments.
-/

namespace XfoLws.Rest

open Db

/-! ## get_address_info -/

/-- `get_address_info_response` without the exchange rates. -/
structure AddressInfo where
  lockedFunds : ℕ
  totalReceived : ℕ
  totalSent : ℕ
  spentStateIncomplete : Bool
  spentStateConfirmedImages : ℕ
  spentStateSelectedSpends : ℕ
  spentStateUnconfirmedSpends : ℕ
  spentStateUnconfirmedSources : ℕ
  spentStateUnconfirmedSourceAmount : ℕ
  spentStateMissingSources : ℕ
  spentStateHint : String
  scannedHeight : ℕ
  scannedBlockHeight : ℕ
  startHeight : ℕ
  transactionHeight : ℕ
  blockchainHeight : ℕ
  lookaheadFail : ℕ
  spentOutputs : List TransactionSpend
  lookahead : AddressIndex
deriving DecidableEq, Repr

/-- The hint of an incomplete spent state. -/
def incompleteHint : String :=
  "spent_state_incomplete: total_sent uses confirmed imported key images only; import key images or rescan this account before trusting available balance against wallet-rpc"

namespace AddressInfo

/-- What the loops over the outputs build. -/
structure Received where
  rows : List Output
  metaById : SortedRows fun entry : OutputId × SpendMeta => entry.1.order
  totalReceived : ℕ
  lockedFunds : ℕ
  overlayAmount : ℕ

def Received.add (received : Received) (output : Output) (locked : Bool) :
    Received :=
  { received with
    rows := received.rows ++ [output]
    metaById := received.metaById.add (output.spendMeta.id, output.spendMeta)
    totalReceived :=
      wrap64 (received.totalReceived + output.spendMeta.amount)
    lockedFunds :=
      if locked then wrap64 (received.lockedFunds + output.spendMeta.amount)
      else received.lockedFunds }

def receiveOutputs (locked : Output → Bool) (outputs : List Output) :
    Received :=
  outputs.foldl (fun received output => received.add output (locked output))
    ⟨[], .empty, 0, 0, 0⟩

def receiveOverlay (received : Received) (candidate : TxpoolOverlayMatch) :
    Except Failure Received :=
  if outputExistsInRows received.rows candidate then .ok received
  else do
    let overlayAmount ←
      checkedAdd received.overlayAmount candidate.output.spendMeta.amount
    .ok { received.add candidate.output true with overlayAmount }

/-- What the loop over the spends builds. -/
structure Spent where
  imagesPresent : ImageSet
  unconfirmedSpends : ℕ
  unconfirmedSources : SourceSet
  unconfirmedSourceAmount : ℕ
  missingSources : ℕ
  choices : ChoiceMap

def spendUnconfirmed (received : Received) (spent : Spent) (spend : Spend) :
    Except Failure Spent :=
  let spent := { spent with unconfirmedSpends := spent.unconfirmedSpends + 1 }
  match received.metaById.find? spend.source.order with
  | none => .ok spent
  | some (_, spendMeta) =>
      match spent.unconfirmedSources.putNew spend.source with
      | none => .ok spent
      | some unconfirmedSources => do
          let unconfirmedSourceAmount ←
            checkedAdd spent.unconfirmedSourceAmount spendMeta.amount
          .ok { spent with unconfirmedSources, unconfirmedSourceAmount }

def spendOne (received : Received) (confirmed : ImageSet)
    (imported : SourceMap) (spent : Spent) (spend : Spend) :
    Except Failure Spent :=
  let spent :=
    { spent with imagesPresent := spent.imagesPresent.add spend.image }
  if spend.image ∉ confirmed then spendUnconfirmed received spent spend
  else
    match chooseSource received.rows imported spend with
    | none => .ok { spent with missingSources := spent.missingSources + 1 }
    | some choice =>
        .ok { spent with choices := keepChoice spent.choices choice }

/-- The sum over imported sources without a spend is only checked. -/
def sourceWithoutSpend (received : Received) (imported : SourceMap)
    (present : ImageSet) (total : ℕ) (source : KeyImageSource) :
    Except Failure ℕ :=
  if source.image ∈ present then .ok total
  else
    match findOutputByImportedSource received.rows imported source.image with
    | none => .ok total
    | some output => checkedAdd total output.spendMeta.amount

/-- What the loop over the choices builds. -/
structure Sent where
  sources : SourceSet
  totalSent : ℕ
  spentOutputs : List TransactionSpend

def sendOne (sent : Sent) (choice : ConfirmedSpendChoice) :
    Except Failure Sent :=
  match sent.sources.putNew choice.source with
  | none => .ok sent
  | some sources => do
      let totalSent ← checkedAdd sent.totalSent choice.spendMeta.amount
      .ok
        { sources := sources
          totalSent := totalSent
          spentOutputs :=
            sent.spentOutputs ++ [⟨choice.spendMeta, choice.spend⟩] }

end AddressInfo

open AddressInfo in
/-- `get_address_info::handle`. -/
def getAddressInfo (env : Env) (rules : LockRules) (clock : ℤ)
    (state : WalletDb) (creds : AccountCredentials)
    (overlay : List TxpoolOverlayMatch) : Except Failure AddressInfo := do
  let user ← openAccount env state.db creds
  let last ← getLastBlock state.db
  let outputs := state.getOutputs user.id
  let received ← overlay.foldlM receiveOverlay (receiveOutputs
    (fun output => isLocked rules clock output.unlockTime last
      output.link.height) outputs)
  let confirmed := confirmedImages (state.getConfirmedSpendImages user.id)
  let imported := importedSourceMap (state.getImportedSpendSources user.id)
  let spent ← (state.getSpends user.id).foldlM
    (spendOne received confirmed imported) ⟨.empty, 0, .empty, 0, 0, .empty⟩
  let _ ← imported.rows.foldlM
    (sourceWithoutSpend received imported spent.imagesPresent) 0
  let sent ← spent.choices.rows.foldlM sendOne ⟨.empty, 0, []⟩
  let incomplete := 0 < spent.unconfirmedSpends || 0 < spent.missingSources
  .ok
    { lockedFunds := received.lockedFunds
      totalReceived := received.totalReceived
      totalSent := sent.totalSent
      spentStateIncomplete := incomplete
      spentStateConfirmedImages := confirmed.rows.length
      spentStateSelectedSpends := sent.sources.rows.length
      spentStateUnconfirmedSpends := spent.unconfirmedSpends
      spentStateUnconfirmedSources := spent.unconfirmedSources.rows.length
      spentStateUnconfirmedSourceAmount := spent.unconfirmedSourceAmount
      spentStateMissingSources := spent.missingSources
      spentStateHint := if incomplete then incompleteHint else ""
      scannedHeight := user.scanHeight
      scannedBlockHeight := user.scanHeight
      startHeight := user.startHeight
      transactionHeight := last
      blockchainHeight := last
      lookaheadFail := user.lookaheadFail
      spentOutputs := sent.spentOutputs
      lookahead := user.lookahead }

/-! ## get_address_txs -/

/-- `get_address_txs_response::transaction`. -/
structure AddressTx where
  info : Output
  spends : List TransactionSpend
  spent : ℕ
deriving DecidableEq, Repr

structure AddressTxs where
  totalReceived : ℕ
  scannedHeight : ℕ
  scannedBlockHeight : ℕ
  startHeight : ℕ
  transactionHeight : ℕ
  blockchainHeight : ℕ
  lookaheadFail : ℕ
  transactions : List AddressTx
  lookahead : AddressIndex
deriving DecidableEq, Repr

def linkOrder (link : TransactionLink) : ℕ ×ₗ ℕ :=
  toLex (link.height, link.txHash)

namespace AddressTxs

/-- What the loops over the outputs build. -/
structure Received where
  transactions : List AddressTx
  rows : List Output
  totalReceived : ℕ
  overlayAmount : ℕ

/-- Outputs of one transaction are added up. -/
def receiveOne (received : Received) (output : Output) :
    Except Failure Received :=
  let opened : Received :=
    { received with
      transactions := received.transactions ++ [⟨output, [], 0⟩]
      rows := received.rows ++ [output]
      totalReceived :=
        wrap64 (received.totalReceived + output.spendMeta.amount) }
  match received.transactions.getLast? with
  | none => .ok opened
  | some last =>
      if linkOrder output.link < linkOrder last.info.link then
        .error .unexpectedSortOrder
      else if last.info.link.txHash ≠ output.link.txHash then .ok opened
      else
        let spendMeta :=
          { last.info.spendMeta with
            amount := wrap64
              (last.info.spendMeta.amount + output.spendMeta.amount) }
        .ok
          { opened with
            transactions := received.transactions.dropLast ++
              [{ last with info := { last.info with spendMeta } }] }

def receiveOverlay (received : Received) (candidate : TxpoolOverlayMatch) :
    Except Failure Received :=
  if outputExistsInRows received.rows candidate then .ok received
  else do
    let overlayAmount ←
      checkedAdd received.overlayAmount candidate.output.spendMeta.amount
    .ok
      { transactions := received.transactions ++ [⟨candidate.output, [], 0⟩]
        rows := received.rows ++ [candidate.output]
        totalReceived := wrap64
          (received.totalReceived + candidate.output.spendMeta.amount)
        overlayAmount := overlayAmount }

def chooseOne (received : Received) (confirmed : ImageSet)
    (imported : SourceMap) (choices : ChoiceMap) (spend : Spend) :
    ChoiceMap :=
  if spend.image ∉ confirmed then choices
  else
    match chooseSource received.rows imported spend with
    | none => choices
    | some choice => keepChoice choices choice

/-- What the loop over the choices builds. -/
structure Sent where
  sources : SourceSet
  totalSent : ℕ
  transactions : List AddressTx

/-- The transaction of a spend without a received output. -/
def outgoing (choice : ConfirmedSpendChoice) : Output where
  link := choice.spend.link
  spendMeta :=
    { choice.spendMeta with
      amount := 0
      mixinCount := choice.spend.mixinCount }
  timestamp := choice.spend.timestamp
  unlockTime := choice.spend.unlockTime
  txPrefixHash := 0
  pub := 0
  ringctMask := 0
  extra := pack ⟨false, false⟩ choice.spend.length
  paymentId := choice.spend.paymentId
  fee := 0
  recipient := choice.spend.sender

/-- The transactions with the one of `choice`, and its index. -/
def locate (transactions : List AddressTx) (choice : ConfirmedSpendChoice) :
    List AddressTx × ℕ :=
  match transactions.findIdx? fun tx =>
      tx.info.link.txHash = choice.spend.link.txHash with
  | some index => (transactions, index)
  | none => (transactions ++ [⟨outgoing choice, [], 0⟩], transactions.length)

def sendOne (sent : Sent) (choice : ConfirmedSpendChoice) :
    Except Failure Sent :=
  match sent.sources.putNew choice.source with
  | none => .ok sent
  | some sources =>
      let (transactions, index) := locate sent.transactions choice
      match transactions[index]? with
      | none => .error .outOfRange
      | some tx => do
          let spent ← checkedAdd tx.spent choice.spendMeta.amount
          let totalSent ← checkedAdd sent.totalSent choice.spendMeta.amount
          .ok
            { sources := sources
              totalSent := totalSent
              transactions := transactions.set index
                { tx with
                  spends := tx.spends ++ [⟨choice.spendMeta, choice.spend⟩]
                  spent := spent } }

end AddressTxs

open AddressTxs in
/-- `get_address_txs::handle`. -/
def getAddressTxs (env : Env) (state : WalletDb) (creds : AccountCredentials)
    (overlay : List TxpoolOverlayMatch) : Except Failure AddressTxs := do
  let user ← openAccount env state.db creds
  let last ← getLastBlock state.db
  let received ← (state.getOutputs user.id).foldlM receiveOne ⟨[], [], 0, 0⟩
  let received ← overlay.foldlM receiveOverlay received
  let confirmed := confirmedImages (state.getConfirmedSpendImages user.id)
  let imported := importedSourceMap (state.getImportedSpendSources user.id)
  let choices := (state.getSpends user.id).foldl
    (chooseOne received confirmed imported) .empty
  let sent ← choices.rows.foldlM sendOne ⟨.empty, 0, received.transactions⟩
  .ok
    { totalReceived := received.totalReceived
      scannedHeight := user.scanHeight
      scannedBlockHeight := user.scanHeight
      startHeight := user.startHeight
      transactionHeight := last
      blockchainHeight := last
      lookaheadFail := user.lookaheadFail
      transactions := sent.transactions.mergeSort fun left right =>
        linkOrder left.info.link ≤ linkOrder right.info.link
      lookahead := user.lookahead }

/-! ## get_unspent_outs -/

structure UnspentOutsRequest where
  creds : AccountCredentials
  amount : ℕ
  mixin : Option ℕ
  useDust : Option Bool
  dustThreshold : Option ℕ
deriving DecidableEq, Repr

namespace UnspentOutsRequest

/-- The threshold after the defaults are applied. -/
def threshold (request : UnspentOutsRequest) : ℕ :=
  if request.useDust = some true then 0 else request.dustThreshold.getD 0

def minimumMixin (request : UnspentOutsRequest) : ℕ := request.mixin.getD 0

end UnspentOutsRequest

/-- The fields of `GetFeeEstimate::Response` that the handler reads. -/
structure FeeEstimate where
  estimatedBaseFee : ℕ
  feeMask : ℕ
  sizeScale : ℕ
deriving DecidableEq, Repr

/-- `GetTransactions::Response`, with the additional public keys found in the
extra field of each transaction. -/
structure TransactionsReply where
  missedHashes : List Hash
  txs : List (Hash × List PublicKey)
deriving DecidableEq, Repr

structure UnspentOutput where
  info : Output
  spendKeyImages : List KeyImage
  additionalTxPubKeys : List PublicKey
deriving DecidableEq, Repr

structure UnspentOuts where
  perByteFee : ℕ
  feeMask : ℕ
  amount : ℕ
  lookaheadFail : ℕ
  outputs : List UnspentOutput
  fees : List ℕ
  userKey : SecretKey
deriving DecidableEq, Repr

/-- `pending_spend_ttl_seconds`. -/
def pendingSpendTtlSeconds : ℕ := 24 * 60 * 60

def PendingSpend.active (pending : PendingSpend) (now : ℕ) : Bool :=
  pending.recorded ≤ now && now - pending.recorded ≤ pendingSpendTtlSeconds

def pendingSpendMatchesOutput (pending : PendingSpend) (output : Output) :
    Bool :=
  pending.source = output.spendMeta.id &&
    pending.outIndex = output.spendMeta.index &&
    pending.txHash = output.link.txHash && pending.pub = output.pub

def hasConfirmedSpendImageWithoutImportedSource (images : List KeyImageLink)
    (confirmed : ImageSet) (imported : SourceMap) : Bool :=
  images.any fun image =>
    image.value ∈ confirmed && (imported.find? image.value).isNone

namespace UnspentOuts

/-- The sources of confirmed spends: the imported one, or else the ring
member. -/
def confirmedSources (confirmed : ImageSet) (imported : SourceMap)
    (spends : List Spend) : SourceSet :=
  spends.foldl (fun sources spend =>
    if spend.image ∉ confirmed then sources
    else
      match imported.find? spend.image with
      | some found => sources.add found.source
      | none => sources.add spend.source) .empty

/-- What the loop over the outputs builds; all sums but `received` are only
checked. -/
structure Selected where
  received : ℕ
  possibleSpendCandidates : ℕ
  dustOrMixinSkipped : ℕ
  confirmedSourceSkipped : ℕ
  confirmedImageSkipped : ℕ
  pendingSourceSkipped : ℕ
  cleanReturned : ℕ
  unspent : List Output

def selectOne (state : WalletDb) (request : UnspentOutsRequest)
    (confirmed : ImageSet) (imported : SourceMap) (sources : SourceSet)
    (pending : List PendingSpend) (selected : Selected) (output : Output) :
    Except Failure Selected :=
  let amount := output.spendMeta.amount
  if amount < request.threshold ∨
      output.spendMeta.mixinCount < request.minimumMixin then do
    let dustOrMixinSkipped ← checkedAdd selected.dustOrMixinSkipped amount
    .ok { selected with dustOrMixinSkipped }
  else do
    let images := state.getImages output.spendMeta.id
    let possibleSpendCandidates ← checkedAdd selected.possibleSpendCandidates
      (if images = [] then 0 else amount)
    let selected := { selected with possibleSpendCandidates }
    if hasConfirmedSpendImageWithoutImportedSource images confirmed imported
        then do
      let confirmedImageSkipped ←
        checkedAdd selected.confirmedImageSkipped amount
      .ok { selected with confirmedImageSkipped }
    else if output.spendMeta.id ∈ sources then do
      let confirmedSourceSkipped ←
        checkedAdd selected.confirmedSourceSkipped amount
      .ok { selected with confirmedSourceSkipped }
    else if pending.any fun spend => pendingSpendMatchesOutput spend output
        then do
      let pendingSourceSkipped ←
        checkedAdd selected.pendingSourceSkipped amount
      .ok { selected with pendingSourceSkipped }
    else do
      let cleanReturned ← checkedAdd selected.cleanReturned amount
      .ok
        { selected with
          received := wrap64 (selected.received + amount)
          unspent := selected.unspent ++ [output]
          cleanReturned := cleanReturned }

/-- `fetch_additional_tx_pub_keys`; `fetch` asks the daemon for some
transactions. -/
def fetchAdditionalTxPubKeys
    (fetch : List Hash → Except Failure TransactionsReply)
    (unspent : List Output) : Except Failure (List (Hash × List PublicKey)) :=
  let hashes := (SortedRows.empty : SortedRows fun hash : Hash => hash).addAll
    (unspent.map fun output => output.link.txHash)
  if hashes.rows = [] then .ok []
  else do
    let reply ← fetch hashes.rows
    if reply.missedHashes ≠ [] then .error .badDaemonResponse
    else
      hashes.rows.mapM fun hash =>
        match reply.txs.find? fun tx => tx.1 = hash with
        | none => .error .badDaemonResponse
        | some tx => .ok (hash, tx.2)

def attachKeys (keys : List (Hash × List PublicKey)) (output : Output) :
    Except Failure UnspentOutput :=
  match keys.find? fun entry => entry.1 = output.link.txHash with
  | none => .error .badDaemonResponse
  | some entry => .ok ⟨output, [], entry.2⟩

end UnspentOuts

open UnspentOuts in
/-- `get_unspent_outs::generate_response`. -/
def getUnspentOuts (env : Env) (clock : ℤ)
    (fetch : List Hash → Except Failure TransactionsReply) (state : WalletDb)
    (rpc : Except Failure FeeEstimate) (request : UnspentOutsRequest) :
    Except Failure UnspentOuts := do
  let rpc ← rpc
  let user ← openAccount env state.db request.creds
  let confirmed := confirmedImages (state.getConfirmedSpendImages user.id)
  let imported := importedSourceMap (state.getImportedSpendSources user.id)
  let sources := confirmedSources confirmed imported (state.getSpends user.id)
  let pending := (state.getPendingSpends user.id).filter
    fun spend => spend.active clock.toNat
  let selected ← (state.getOutputs user.id).foldlM
    (selectOne state request confirmed imported sources pending)
    ⟨0, 0, 0, 0, 0, 0, 0, []⟩
  let keys ← fetchAdditionalTxPubKeys fetch selected.unspent
  let outputs ← selected.unspent.mapM (attachKeys keys)
  if selected.received < request.amount then .error .notEnoughAmount
  else if rpc.sizeScale = 0 ∨ 1024 < rpc.sizeScale ∨ rpc.feeMask = 0 then
    .error .badDaemonResponse
  else
    .ok
      { perByteFee := rpc.estimatedBaseFee / rpc.sizeScale
        feeMask := rpc.feeMask
        amount := selected.received
        lookaheadFail := user.lookaheadFail
        outputs := outputs
        fees := [rpc.estimatedBaseFee]
        userKey := request.creds.key }

end XfoLws.Rest
