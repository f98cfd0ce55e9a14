import XfoLws.Db.Data
import XfoLws.Lib.SortedRows

/-!
# Tables

Every LMDB table is the set of its rows, sorted by the table key and then by
the duplicate comparator of the source.  `Db` is the content of one committed
database; a write transaction either replaces it as a whole or fails.
-/

namespace XfoLws.Db

/-! ## Sort keys -/

def Output.order (output : Output) : ℕ ×ₗ ℕ ×ₗ ℕ ×ₗ ℕ :=
  toLex (output.link.height, toLex (output.link.txHash,
    toLex (output.spendMeta.id.high, output.spendMeta.id.low)))

def Spend.order (spend : Spend) : ℕ ×ₗ ℕ ×ₗ ℕ ×ₗ ℕ ×ₗ ℕ :=
  toLex (spend.link.height, toLex (spend.link.txHash, toLex (spend.image,
    toLex (spend.source.high, spend.source.low))))

def OutputId.order (id : OutputId) : ℕ ×ₗ ℕ := toLex (id.high, id.low)

def WebhookDupsort.order (sorter : WebhookDupsort) : ℕ ×ₗ ℕ :=
  toLex (sorter.paymentId, sorter.eventId)

def WebhookOutput.order (link : WebhookOutput) : ℕ ×ₗ ℕ ×ₗ ℕ ×ₗ ℕ :=
  toLex (link.tx.height, toLex (link.tx.txHash,
    toLex (link.out.high, link.out.low)))

def accountsKey (row : AccountStatus × Account) : ℕ ×ₗ ℕ :=
  toLex (row.1.toNat, row.2.id)

/-- Only the view key is indexed. -/
def accountsByAddressKey (row : AccountByAddress) : PublicKey :=
  row.address.viewPublic

def accountsByHeightKey (row : BlockId × AccountLookup) : ℕ ×ₗ ℕ :=
  toLex (row.1, row.2.id)

def outputsKey (row : AccountId × Output) : ℕ ×ₗ ℕ ×ₗ ℕ ×ₗ ℕ ×ₗ ℕ :=
  toLex (row.1, row.2.order)

def spendsKey (row : AccountId × Spend) : ℕ ×ₗ ℕ ×ₗ ℕ ×ₗ ℕ ×ₗ ℕ ×ₗ ℕ :=
  toLex (row.1, row.2.order)

def imagesKey (row : OutputId × KeyImageLink) : (ℕ ×ₗ ℕ) ×ₗ ℕ :=
  toLex (row.1.order, row.2.value)

/-- Only the spend key is indexed. -/
def requestsKey (row : Request × RequestInfo) : ℕ ×ₗ ℕ :=
  toLex (row.1.toNat, row.2.address.spendPublic)

def webhooksKey (row : WebhookKey × WebhookValue) :
    ℕ ×ₗ ℕ ×ₗ ℕ ×ₗ ℕ :=
  toLex (row.1.user, toLex (row.1.type.toNat, row.2.1.order))

def eventsKey (row : AccountId × WebhookEvent) :
    ℕ ×ₗ (ℕ ×ₗ ℕ ×ₗ ℕ ×ₗ ℕ) ×ₗ ℕ ×ₗ ℕ :=
  toLex (row.1, toLex (row.2.link.order, row.2.linkWebhook.order))

def subaddressRangesKey (row : AccountId × SubaddressDict) : ℕ ×ₗ ℕ :=
  toLex (row.1, row.2.1)

def subaddressIndexesKey (row : AccountId × SubaddressMap) : ℕ ×ₗ ℕ :=
  toLex (row.1, row.2.subaddress)

end XfoLws.Db

namespace XfoLws

/-! ## The database -/

/-- The tables of the storage that the modelled operations use. -/
structure Db where
  blocks : SortedRows Db.BlockInfo.id
  pows : SortedRows Db.BlockPow.id
  accounts : SortedRows Db.accountsKey
  accountsByAddress : SortedRows Db.accountsByAddressKey
  accountsByHeight : SortedRows Db.accountsByHeightKey
  outputs : SortedRows Db.outputsKey
  spends : SortedRows Db.spendsKey
  images : SortedRows Db.imagesKey
  requests : SortedRows Db.requestsKey
  webhooks : SortedRows Db.webhooksKey
  events : SortedRows Db.eventsKey
  subaddressRanges : SortedRows Db.subaddressRangesKey
  subaddressIndexes : SortedRows Db.subaddressIndexesKey

/-- What the storage takes from outside: the checkpoint table, the length of
the creation queue, key derivation and URL parsing (the result is the schema).
`subaddressKey` derives the spend key of a non-primary index. -/
structure Env where
  checkpoints : SortedRows (Prod.fst : Db.BlockId × Hash → Db.BlockId)
  createQueueMax : ℕ
  secretKeyToPublicKey : SecretKey → Option PublicKey
  subaddressKey : Db.AccountAddress → SecretKey → Db.AddressIndex → PublicKey
  parseUrl : String → Option String

namespace Env

/-- `checkpoints::get_max_height`. -/
def getMaxHeight (env : Env) : Db.BlockId :=
  match env.checkpoints.last? with
  | some point => point.1
  | none => 0

end Env

namespace Db

/-- `storage::open` on a new database: genesis, the last checkpoint and the
first proof-of-work row.  Fails when the checkpoints lack a genesis hash. -/
def openNew (env : Env) : Except Error Db :=
  match env.checkpoints.rows with
  | [] => .error .badBlockchain
  | (height, hash) :: later =>
      if height ≠ 0 then .error .badBlockchain
      else .ok
        { blocks := SortedRows.empty.addAll
            (⟨height, hash⟩ :: (later.getLast?.map fun point =>
              (⟨point.1, point.2⟩ : BlockInfo)).toList)
          pows := SortedRows.empty.add ⟨0, 0, ⟨0, 1⟩⟩
          accounts := .empty
          accountsByAddress := .empty
          accountsByHeight := .empty
          outputs := .empty
          spends := .empty
          images := .empty
          requests := .empty
          webhooks := .empty
          events := .empty
          subaddressRanges := .empty
          subaddressIndexes := .empty }

/-! ## Bulk insertion -/

section BulkInsert

variable {ρ κ : Type} [LinearOrder κ] {key : ρ → κ}

/-- The loop of `bulk_insert`: put what is left, then skip the rows written
and the colliding one.  Every pass consumes a row, so `values.length` passes
are enough. -/
def bulkInsertLoop (overwrite : Bool) :
    ℕ → SortedRows key → List ρ → SortedRows key
  | 0, table, _ => table
  | _ + 1, table, [] => table
  | passes + 1, table, values =>
      let (next, written, stopped) := table.putMultiple overwrite values
      bulkInsertLoop overwrite passes next
        (values.drop (written + if stopped then 1 else 0))

def bulkInsert (table : SortedRows key) (values : List ρ)
    (overwrite : Bool) : SortedRows key :=
  bulkInsertLoop overwrite values.length table values

/-- One multi-put stores a prefix of the values; the row it stopped at is
already there. -/
private theorem putMultiple_keep (table : SortedRows key) (values : List ρ) :
    (table.putMultiple false values).1.addAll
        (values.drop ((table.putMultiple false values).2.1 +
          if (table.putMultiple false values).2.2 then 1 else 0)) =
      table.addAll values := by
  induction values generalizing table with
  | nil => rfl
  | cons value values induction =>
      simp only [SortedRows.putMultiple, Bool.false_eq_true, ↓reduceIte,
        SortedRows.addAll_cons, SortedRows.add]
      cases stored : table.putNew value with
      | none => simp
      | some next =>
          simp only [Option.getD_some]
          rw [show ∀ written extra : ℕ,
            written + 1 + extra = written + extra + 1 by omega]
          simpa using induction next

private theorem putMultiple_overwrite (table : SortedRows key)
    (values : List ρ) :
    table.putMultiple true values =
      (table.putAll values, values.length, false) := by
  induction values generalizing table with
  | nil => rfl
  | cons value values induction =>
      simp [SortedRows.putMultiple, induction]

theorem bulkInsert_overwrite (table : SortedRows key) (values : List ρ) :
    bulkInsert table values true = table.putAll values := by
  cases values with
  | nil => rfl
  | cons value values =>
      have none_left : (value :: values).drop (values.length + 1) = [] :=
        List.drop_eq_nil_of_le (by simp)
      simp only [bulkInsert, List.length_cons, bulkInsertLoop,
        putMultiple_overwrite, Bool.false_eq_true, ↓reduceIte, Nat.add_zero,
        none_left]
      cases values.length <;> rfl

private theorem bulkInsertLoop_keep (passes : ℕ) (table : SortedRows key)
    (values : List ρ) (enough : values.length ≤ passes) :
    bulkInsertLoop false passes table values = table.addAll values := by
  induction passes generalizing table values with
  | zero =>
      have none_left : values = [] := by
        exact List.length_eq_zero_iff.mp (Nat.le_zero.mp enough)
      subst values
      rfl
  | succ passes induction =>
      cases values with
      | nil => rfl
      | cons value values =>
          rw [← putMultiple_keep table (value :: values)]
          refine induction _ _ ?_
          -- a pass writes a row or stops at one, so at least one is dropped
          simp only [Bool.false_eq_true, ↓reduceIte]
          cases table.putNew value with
          | none =>
              simpa using enough
          | some next =>
              simp only [List.length_drop, List.length_cons] at enough ⊢
              omega

theorem bulkInsert_keep (table : SortedRows key) (values : List ρ) :
    bulkInsert table values false = table.addAll values :=
  bulkInsertLoop_keep _ table values le_rfl

end BulkInsert

end XfoLws.Db
