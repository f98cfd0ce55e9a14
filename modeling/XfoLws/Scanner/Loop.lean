import XfoLws.Scanner.Queue
import XfoLws.Scanner.SyncFull
import XfoLws.Scanner.Transaction

/-!
# The scan loop

`scanner::loop` fetches blocks from the daemon, hands them to the accounts and
stores what they found.  One turn of the loop takes a response, the accounts
the queue hands over meanwhile, and ends in a request for other blocks or in a
call of the store callback.
-/

namespace XfoLws.Scanner

open Db (BlockId PowSync getPowWindow)

/-! ## Responses of the daemon -/

/-- `rpc::block_with_transactions`, with the hashes that the daemon's library
computes of its transactions. -/
structure BlockWithTransactions where
  block : Block
  minerTx : Transaction
  minerTxHash : Option Hash
  txHashes : List Hash
  transactions : List (Transaction × Hash)

/-- `rpc::get_blocks_fast`; the indices of a block start with those of its
coinbase. -/
structure GetBlocksFast where
  startHeight : BlockId
  blocks : List BlockWithTransactions
  outputIndices : List (List (List ℕ))

/-- Exceptions that leave the loop. -/
inductive LoopError where
  | runtime (text : String)
  | badBlockchain (text : String)
  | scan (thrown : Thrown)
  | monero (error : Error)
deriving DecidableEq, Repr

/-- How the loop ends inside a response. -/
inductive LoopExit where
  | returned (value : Bool)
  | thrown (error : LoopError)
deriving DecidableEq, Repr

def LoopExit.runtime (text : String) : LoopExit := .thrown (.runtime text)

def LoopExit.badBlockchain (text : String) : LoopExit :=
  .thrown (.badBlockchain text)

/-- The exception of the link check. -/
def prevIdMismatch : LoopExit :=
  .badBlockchain "A blocks prev_id does not match"

/-- What a loop is started with; `lastPow` is the last proof-of-work row then,
or zero. -/
structure LoopContext where
  env : Env
  crypto : Crypto
  sizes : WindowSizes
  rules : PowRules
  maxSubaddresses : ℕ
  untrustedDaemon : Bool
  lastPow : BlockId

/-! ## One block -/

/-- What the loop over the blocks of a response changes; `height` is
`fetched->start_height`. -/
structure Processing where
  users : List LwsAccount
  reader : SubaddressReader
  height : BlockId
  blockchain : List Hash
  newPow : List PowSync
  window : Window

namespace Processing

variable (context : LoopContext)

def scanTransaction (timestamp : ℕ) (txHash : Hash) (tx : Transaction)
    (outIds : List ℕ) (state : Processing) : Except LoopExit Processing :=
  let scan : Scan :=
    ⟨context.env, context.crypto, state.height, timestamp, txHash, tx, outIds⟩
  match scan.transaction state.users state.reader with
  | (_, _, some thrown) => .error (.thrown (.scan thrown))
  | (users, reader, none) => .ok { state with users, reader }

/-- The checks of an untrusted daemon; `stopped` is what `self.stop_` reads
before the long hash. -/
def verifyBlock (disk : Option Db) (stopped : BlockId → Bool) (block : Block)
    (state : Processing) : Except LoopExit Processing :=
  if state.blockchain.getLast? ≠ some block.prevId then .error prevIdMismatch
  else
    let window := state.window.trim context.sizes
    if stopped state.height then .error (.returned false)
    else if disk.isSome ∧ context.lastPow < state.height then
      if context.rules.verifyTimestamp block.timestamp
          window.medianTimestamps = false then
        .error (.badBlockchain
          "Block failed timestamp check - possible chain forgery")
      else if context.rules.checkHash block
          (window.difficulty context.rules state.height) = false then
        .error (.badBlockchain "Block had too low difficulty")
      else .ok { state with window }
    else .ok { state with window }

/-- A trusted daemon is not checked. -/
def checkBlock (disk : Option Db) (stopped : BlockId → Bool) (block : Block)
    (state : Processing) : Except LoopExit Processing :=
  if context.untrustedDaemon then
    state.verifyBlock context disk stopped block
  else .ok state

/-- One pass of the loop over the transactions of a block. -/
def scanEntry (timestamp : ℕ) (state : Processing)
    (entry : Hash × (Transaction × Hash) × List ℕ) :
    Except LoopExit Processing :=
  let (txHash, (tx, computed), outIds) := entry
  if context.untrustedDaemon ∧ computed ≠ txHash then
    .error (.badBlockchain "Hash of transaction does not match hash in block")
  else state.scanTransaction context timestamp txHash tx outIds

/-- The windows and the proof-of-work row of a verified block. -/
def recordPow (block : Block) (state : Processing) : Processing :=
  if context.untrustedDaemon then
    let cumulative := state.window.cumulative context.rules state.height
    { state with
      window := state.window.push block.timestamp cumulative
      newPow := state.newPow ++ [⟨block.timestamp, .setDifficulty cumulative⟩] }
  else state

/-- One pass of the loop over the blocks of a response. -/
def processBlock (disk : Option Db) (stopped : BlockId → Bool)
    (state : Processing) (entry : BlockWithTransactions × List (List ℕ)) :
    Except LoopExit Processing :=
  let (data, indices) := entry
  let block := data.block
  let state := { state with height := wrap64 (state.height + 1) }
  if data.txHashes.length ≠ data.transactions.length then
    .error (.runtime
      "Bad daemon response - need same number of txes and tx hashes")
  else
    match indices, data.minerTxHash with
    | [], _ => .error (.runtime
        "Bad daemon response - missing /coinbase tx indices")
    | _ :: _, none => .error (.runtime "Failed to calculate miner tx hash")
    | coinbase :: indices, some minerTxHash => do
        let state ← state.scanTransaction context block.timestamp minerTxHash
          data.minerTx coinbase
        let state ← state.checkBlock context disk stopped block
        if data.transactions.length ≠ indices.length then
          .error (.runtime
            "Bad daemon respnse - need same number of txes and indices")
        else do
          let state ← (data.txHashes.zip (data.transactions.zip indices)).foldlM
            (scanEntry context block.timestamp) state
          let state := state.recordPow context block
          .ok { state with blockchain := state.blockchain ++ [block.hash] }

end Processing

/-! ## One response -/

/-- The windows a response starts from, read from the disk if there is one. -/
def LoopContext.startWindow (context : LoopContext) (disk : Option Db)
    (height : BlockId) (window : Window) : Except LoopExit Window :=
  match context.untrustedDaemon, disk with
  | true, some db =>
      match getPowWindow context.sizes.blocksCount context.sizes.checkWindow
          db height with
      | .ok stored => .ok (.ofStored stored)
      | .error failure => .error (.thrown (.monero failure))
  | _, _ => .ok window

/-- What is scanned of a response, and the height below: the first block
overlaps with what came before, unless it is the one at height one. -/
def GetBlocksFast.scanned (response : GetBlocksFast) :
    BlockId × List (BlockWithTransactions × List (List ℕ)) :=
  let entries := response.blocks.zip response.outputIndices
  if response.startHeight ≠ 1 then (response.startHeight, entries.drop 1)
  else (0, entries)

/-- The hash list starts with the first block, skipped or not. -/
def LoopContext.begin (context : LoopContext) (disk : Option Db)
    (users : List LwsAccount) (response : GetBlocksFast) (window : Window) :
    Processing :=
  let first := response.blocks.head?.toList.map (·.block)
  { users := users
    reader := .new disk context.maxSubaddresses
    height := response.scanned.1
    blockchain := first.map (·.hash)
    newPow :=
      if context.untrustedDaemon then
        first.map fun block => ⟨block.timestamp, ⟨0, 0⟩⟩
      else []
    window := window }

/-- A response of two or more blocks, once the next ones are requested. -/
def LoopContext.processResponse (context : LoopContext) (disk : Option Db)
    (stopped : BlockId → Bool) (users : List LwsAccount) (window : Window)
    (response : GetBlocksFast) : Except LoopExit Processing :=
  if response.blocks.length ≠ response.outputIndices.length then
    .error (.runtime
      "Bad daemon response - need same number of blocks and indices")
  else do
    let window ← context.startWindow disk response.scanned.1 window
    response.scanned.2.foldlM (Processing.processBlock context disk stopped)
      (context.begin disk users response window)

/-! ## One turn -/

/-- What comes of waiting for the daemon. -/
inductive Fetched where
  /-- A timeout, an interrupt, or a reply that does not parse. -/
  | reset
  | failed (error : Error)
  | blocks (response : GetBlocksFast)

/-- How the wait for a new block at the top of the chain ends. -/
inductive Waited where
  | interrupted
  | thrown (error : LoopError)
  | done

/-- What a turn of the loop gets from outside.  Each turn sends one request at
most; an interrupted one counts as not sent. -/
structure Turn where
  stop : Bool
  fetched : Fetched
  status : QueueStatus
  waited : Waited
  sent : Except Error Bool
  disk : Option Db
  stopped : BlockId → Bool

/-- The arguments of the store callback. -/
structure StoreCall where
  chain : List Hash
  users : List LwsAccount
  pow : List PowSync

/-- What the loop keeps from turn to turn: `startHeight` is that of the last
request. -/
structure Loop where
  users : List LwsAccount
  startHeight : BlockId
  window : Window

/-- What a turn ends in.  A store that fails ends the loop; otherwise it goes
on with `next`. -/
inductive Reply where
  | left (value : Bool)
  | fetchNext (next : Loop)
  | store (call : StoreCall) (next : Loop)

/-- A reply after a request. -/
def afterSend (sent : Except Error Bool) (reply : Except LoopError Reply) :
    Except LoopError Reply :=
  match sent with
  | .error failure => .error (.monero failure)
  | .ok false => .ok (.left false)
  | .ok true => reply

/-- `std::sort` by `by_height`. -/
def sortByHeight (users : List LwsAccount) : List LwsAccount :=
  users.insertionSort fun left right => left.height ≤ right.height

/-- `users.front().scan_height()`. -/
def frontHeight (users : List LwsAccount) : BlockId :=
  (users.head?.map (·.height)).getD 0

/-- The queue handed over accounts. -/
def QueueStatus.changes (status : QueueStatus) : Bool :=
  status.replace.isSome || !status.push.isEmpty

/-- Accounts that come in bring the list into order again. -/
def QueueStatus.resort (status : QueueStatus) (users : List LwsAccount) :
    List LwsAccount :=
  if status.changes then
    sortByHeight (status.deliver users)
  else users

namespace Loop

/-- The request before the first turn.  The daemon takes a start height of
zero to mean block ids, so the genesis block is not asked for. -/
def enter (users : List LwsAccount) (sent : Except Error Bool) :
    Except LoopError Reply :=
  if users.isEmpty then .ok (.left true)
  else
    let users := sortByHeight users
    afterSend sent (.ok (.fetchNext
      { users := users
        startHeight := max 1 (frontHeight users)
        window := .empty }))

/-- Two or more blocks are scanned and stored. -/
def storeBlocks (context : LoopContext) (loop : Loop) (turn : Turn)
    (response : GetBlocksFast) : Except LoopError Reply :=
  match context.processResponse turn.disk turn.stopped loop.users loop.window
      response with
  | .error (.returned value) => .ok (.left value)
  | .error (.thrown failure) => .error failure
  | .ok final => .ok (.store ⟨final.blockchain, final.users, final.newPow⟩
      { users := final.users.map (·.updated final.height)
        startHeight := loop.startHeight
        window := final.window })

/-- One turn of the loop, up to the call of the store callback. -/
def takeTurn (context : LoopContext) (loop : Loop) (turn : Turn) :
    Except LoopError Reply :=
  if turn.stop then .ok (.left false)
  else
    match turn.fetched with
    | .reset => .ok (.left false)
    | .failed failure => .error (.monero failure)
    | .blocks response =>
        if response.blocks = [] then
          .error (.runtime "Daemon unexpectedly returned zero blocks")
        else if response.startHeight ≠ loop.startHeight then .ok (.left false)
        else if turn.status.replace.any (·.isEmpty) ∧
            turn.status.push.isEmpty then
          .ok (.left true)
        else
          let users := turn.status.resort loop.users
          if (turn.status.changes) ∧
              frontHeight users < response.startHeight then
            afterSend turn.sent (.ok (.fetchNext
              { loop with
                users := users
                startHeight := frontHeight users }))
          else
            let loop :=
              { loop with
                users := users
                startHeight :=
                  wrap64 (response.startHeight + (response.blocks.length - 1)) }
            if response.blocks.length ≤ 1 then
              match turn.waited with
              | .interrupted => .ok (.left false)
              | .thrown failure => .error failure
              | .done => afterSend turn.sent (.ok (.fetchNext loop))
            else afterSend turn.sent (loop.storeBlocks context turn response)

end Loop

end XfoLws.Scanner
