import Mathlib.Algebra.Order.Ring.Nat

/-!
# Database records

The records of `db/data.h`.  Fixed-width integers are natural numbers, wrapped
by `wrap32` and `wrap64` where the source lets them overflow.  A 32-byte value
compared with `memcmp` is the natural number it spells in big-endian order.
-/

namespace XfoLws

/-- Largest value of a 32-bit unsigned integer. -/
def maxU32 : ℕ := 2 ^ 32 - 1

def wrap32 (value : ℕ) : ℕ := value % 2 ^ 32

def wrap64 (value : ℕ) : ℕ := value % 2 ^ 64

/-- Subtraction of 64-bit unsigned integers. -/
def sub64 (left right : ℕ) : ℕ := wrap64 (left + 2 ^ 64 - right)

abbrev Hash := ℕ

abbrev PublicKey := ℕ

abbrev SecretKey := ℕ

abbrev KeyImage := ℕ

/-- The LMDB tables of the storage. -/
inductive TableName where
  | blocks
  | pows
  | accounts
  | accountsByAddress
  | accountsByHeight
  | outputs
  | spends
  | images
  | requests
  | webhooks
  | events
  | subaddressRanges
  | subaddressIndexes
deriving DecidableEq, Repr

/-- The `mdb_cursor_get` operations whose failure aborts a transaction. -/
inductive CursorOp where
  | set
  | getBoth
  | getBothRange
  | prevDup
  | nextDup
deriving DecidableEq, Repr

/-- Failures of the storage layer.  `notFound` and `keyExist` are LMDB's
`MDB_NOTFOUND` and `MDB_KEYEXIST` together with the table and the cursor
operation that raised them, as the error log records. -/
inductive Error where
  | badBlockchain
  | blockchainReorg
  | badHeight
  | badViewKey
  | badUrl
  | badWebhook
  | accountExists
  | accountMax
  | accountNotFound
  | createQueueMax
  | duplicateRequest
  | maxSubaddresses
  | schemaArray
  | systemClockInvalidRange
  | invalidArgument
  | notFound (table : TableName) (operation : CursorOp)
  | keyExist (table : TableName)
  /-- `std::out_of_range` thrown by a checked element access. -/
  | outOfRange
  /-- The loop repeats the same pass for ever; the call never returns. -/
  | diverges
deriving DecidableEq, Repr

namespace Db

/-- References an account stored in the database, faster than by address. -/
abbrev AccountId := ℕ

/-- Always represents not an account id. -/
def AccountId.invalid : AccountId := maxU32

/-- Seconds since the UNIX epoch, in 32 bits. -/
abbrev AccountTime := ℕ

/-- References a block height. -/
abbrev BlockId := ℕ

/-- Represents not-yet-a-block. -/
def BlockId.txpool : BlockId := 2 ^ 64 - 1

/-- References a global output number, as determined by the public chain. -/
structure OutputId where
  high : ℕ
  low : ℕ
deriving DecidableEq, Repr

inductive AccountStatus where
  | active
  | inactive
  | hidden
deriving DecidableEq, Repr

def AccountStatus.toNat : AccountStatus → ℕ
  | .active => 0
  | .inactive => 1
  | .hidden => 2

theorem AccountStatus.toNat_injective {left right : AccountStatus}
    (same : left.toNat = right.toNat) : left = right := by
  cases left <;> cases right <;> first | rfl | cases same

abbrev AccountFlags := ℕ

def AccountFlags.adminAccount : AccountFlags := 1

inductive Request where
  | create
  | importScan
deriving DecidableEq, Repr

def Request.toNat : Request → ℕ
  | .create => 0
  | .importScan => 1

/-- The public keys of a monero address. -/
structure AccountAddress where
  viewPublic : PublicKey
  spendPublic : PublicKey
deriving DecidableEq, Repr

/-- A specific (sub)address index. -/
structure AddressIndex where
  majI : ℕ
  minI : ℕ
deriving DecidableEq, Repr

def AddressIndex.primary : AddressIndex := ⟨0, 0⟩

def AddressIndex.isZero (index : AddressIndex) : Bool :=
  index.majI = 0 && index.minI = 0

/-- First and last minor index of a range within a major index. -/
structure IndexRange where
  first : ℕ
  last : ℕ
deriving DecidableEq, Repr

abbrev IndexRanges := List IndexRange

/-- A major index with ranges of minor indexes. -/
abbrev SubaddressDict := ℕ × IndexRanges

/-- Maps a subaddress pubkey to its index values. -/
structure SubaddressMap where
  subaddress : PublicKey
  index : AddressIndex
deriving DecidableEq, Repr

structure Account where
  id : AccountId
  access : AccountTime
  address : AccountAddress
  key : SecretKey
  scanHeight : BlockId
  startHeight : BlockId
  creation : AccountTime
  flags : AccountFlags
  lookahead : AddressIndex
  lookaheadFail : BlockId
deriving DecidableEq, Repr

/-- Used for finding `Account` instances by other indexes. -/
structure AccountLookup where
  id : AccountId
  status : AccountStatus
deriving DecidableEq, Repr

/-- Used for looking up accounts by their public address. -/
structure AccountByAddress where
  address : AccountAddress
  lookup : AccountLookup
deriving DecidableEq, Repr

structure BlockInfo where
  id : BlockId
  hash : Hash
deriving DecidableEq, Repr

structure BlockDifficulty where
  high : ℕ
  low : ℕ
deriving DecidableEq, Repr

structure BlockPow where
  id : BlockId
  timestamp : ℕ
  cumulativeDiff : BlockDifficulty
deriving DecidableEq, Repr

/-- Used during sync "check-ins" with an untrusted daemon. -/
structure PowSync where
  timestamp : ℕ
  cumulativeDiff : BlockDifficulty
deriving DecidableEq, Repr

/-- `Output`s and `Spend`s are sorted by these fields. -/
structure TransactionLink where
  height : BlockId
  txHash : Hash
deriving DecidableEq, Repr

/-- The flags of an output, `coinbase_output` and `ringct_output`. -/
structure Extra where
  coinbase : Bool
  ringct : Bool
deriving DecidableEq, Repr

def Extra.toNat (flags : Extra) : ℕ :=
  flags.coinbase.toNat + 2 * flags.ringct.toNat

/-- Flags and a payment id length in one byte. -/
def pack (flags : Extra) (length : ℕ) : ℕ :=
  flags.toNat * 64 + length % 64

def unpack (packed : ℕ) : Extra × ℕ :=
  (⟨packed / 64 % 2 = 1, packed / 128 % 2 = 1⟩, packed % 64)

theorem unpack_pack (flags : Extra) {length : ℕ} (fits : length < 64) :
    unpack (pack flags length) = (flags, length) := by
  obtain ⟨coinbase, ringct⟩ := flags
  have small : length % 64 = length := Nat.mod_eq_of_lt fits
  cases coinbase <;> cases ringct <;>
    simp only [unpack, pack, Extra.toNat, small, Bool.toNat_true,
      Bool.toNat_false, Prod.mk.injEq, Extra.mk.injEq, decide_eq_true_eq,
      decide_eq_false_iff_not] <;>
    omega

/-- The union of an 8-byte and a 32-byte payment id: `short` is the first 8
bytes, `tail` the other 24 bytes of the long id. -/
structure PaymentId where
  short : ℕ
  tail : ℕ
deriving DecidableEq, Repr

structure SpendMeta where
  id : OutputId
  amount : ℕ
  mixinCount : ℕ
  index : ℕ
  txPublic : PublicKey
deriving DecidableEq, Repr

/-- Information for an output that has been received by an account.  `extra`
is the flags and the payment id length packed into one byte. -/
structure Output where
  link : TransactionLink
  spendMeta : SpendMeta
  timestamp : ℕ
  unlockTime : ℕ
  txPrefixHash : Hash
  pub : PublicKey
  ringctMask : ℕ
  extra : ℕ
  paymentId : PaymentId
  fee : ℕ
  recipient : AddressIndex
deriving DecidableEq, Repr

/-- Information about a possible spend of a received output. -/
structure Spend where
  link : TransactionLink
  image : KeyImage
  source : OutputId
  timestamp : ℕ
  unlockTime : ℕ
  mixinCount : ℕ
  length : ℕ
  paymentId : PaymentId
  sender : AddressIndex
deriving DecidableEq, Repr

/-- Key image and info needed to retrieve primary spend data. -/
structure KeyImageLink where
  value : KeyImage
  link : TransactionLink
deriving DecidableEq, Repr

structure RequestInfo where
  address : AccountAddress
  key : SecretKey
  startHeight : BlockId
  creation : AccountTime
  creationFlags : AccountFlags
  lookahead : AddressIndex
deriving DecidableEq, Repr

inductive WebhookType where
  | txConfirmation
  | newAccount
  | txSpend
deriving DecidableEq, Repr

def WebhookType.toNat : WebhookType → ℕ
  | .txConfirmation => 0
  | .newAccount => 1
  | .txSpend => 2

theorem WebhookType.toNat_injective {left right : WebhookType}
    (same : left.toNat = right.toNat) : left = right := by
  cases left <;> cases right <;> first | rfl | cases same

/-- Key for upcoming webhooks or in-progress webhooks. -/
structure WebhookKey where
  user : AccountId
  type : WebhookType
deriving DecidableEq, Repr

/-- Webhook values used to sort by duplicate keys. -/
structure WebhookDupsort where
  paymentId : ℕ
  eventId : ℕ
deriving DecidableEq, Repr

/-- Variable length data for a webhook key/event.  Its texts are strings here,
and any bytes on the wire. -/
structure WebhookData (τ : Type := String) where
  url : τ
  token : τ
  confirmations : ℕ
deriving DecidableEq, Repr

abbrev WebhookValue (τ : Type := String) := WebhookDupsort × WebhookData τ

/-- Returned by the database when a confirmation event tripped. -/
structure WebhookTxConfirmation (τ : Type := String) where
  key : WebhookKey
  value : WebhookValue τ
  txInfo : Output
deriving DecidableEq, Repr

/-- Returned by the database when a spend event tripped. -/
structure WebhookTxSpend where
  key : WebhookKey
  value : WebhookValue
  input : Spend
  source : SpendMeta
deriving DecidableEq, Repr

/-- Returned by the database when an account creation was requested. -/
structure WebhookNewAccount where
  value : WebhookValue
  account : AccountAddress
deriving DecidableEq, Repr

/-- References a specific output that triggered a webhook. -/
structure WebhookOutput where
  tx : TransactionLink
  out : OutputId
deriving DecidableEq, Repr

/-- References all info from a webhook that triggered. -/
structure WebhookEvent where
  link : WebhookOutput
  linkWebhook : WebhookDupsort
deriving DecidableEq, Repr

/-- `lws::account` as `storage::update` reads it: the account, the height it
was scanned to and the rows the scan recorded. -/
structure ScannedAccount where
  id : AccountId
  dbAddress : AccountAddress
  scanHeight : BlockId
  outputs : List Output
  spends : List Spend
deriving DecidableEq, Repr

end Db

end XfoLws
