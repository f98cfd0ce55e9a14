import XfoLws.Db.Data
import XfoLws.Wire.Object
import Mathlib.Data.List.Sort
import Mathlib.Data.Prod.Lex

/-!
# Accounts of the scanner

`lws::account` is the part of a stored account that scanning needs, with the
outputs it can recognise as spent and the rows found since its last update.
Both search vectors are sorted when an account is built or read, and
`add_out` inserts at the lower bound, so the order is a field.
-/

namespace XfoLws

open Db

/-- The order of `std::pair<output_id, address_index>`. -/
def spendableKey (row : OutputId × AddressIndex) : ℕ ×ₗ ℕ ×ₗ ℕ ×ₗ ℕ :=
  toLex (row.1.high, toLex (row.1.low, toLex (row.2.majI, row.2.minI)))

theorem spendableKey_injective : Function.Injective spendableKey := by
  rintro ⟨⟨high, low⟩, ⟨major, minor⟩⟩ ⟨⟨_, _⟩, ⟨_, _⟩⟩ same
  have parts := toLex.injective same
  simp only [Prod.mk.injEq, toLex_inj] at parts
  obtain ⟨rfl, rfl, rfl, rfl⟩ := parts
  rfl

/-- `operator<` on these pairs, or equal. -/
def SpendableLe (left right : OutputId × AddressIndex) : Prop :=
  spendableKey left ≤ spendableKey right

instance : DecidableRel SpendableLe := fun left right =>
  inferInstanceAs (Decidable (spendableKey left ≤ spendableKey right))

instance : Std.Total SpendableLe :=
  ⟨fun left right => le_total (spendableKey left) (spendableKey right)⟩

instance : IsTrans (OutputId × AddressIndex) SpendableLe :=
  ⟨fun _ _ _ => le_trans⟩

instance : Std.Antisymm SpendableLe :=
  ⟨fun _ _ below above => spendableKey_injective (le_antisymm below above)⟩

/-- `account::internal`, shared by the copies of an account; `address` is the
base58 string. -/
structure LwsAccount.Internal where
  address : List (Fin 256)
  id : AccountId
  pubs : AccountAddress
  viewKey : SecretKey
deriving DecidableEq, Repr

/-- `lws::account`. -/
structure LwsAccount where
  immutable : LwsAccount.Internal
  spendable : List (OutputId × AddressIndex)
  pubs : List PublicKey
  spends : List Spend
  outputs : List Output
  height : BlockId
  spendableSorted : spendable.Pairwise SpendableLe
  pubsSorted : pubs.Pairwise (· ≤ ·)

namespace LwsAccount

/-- Both vectors are sorted on construction and after reading. -/
def ofParts (immutable : Internal) (spendable : List (OutputId × AddressIndex))
    (pubs : List PublicKey) (spends : List Spend) (outputs : List Output)
    (height : BlockId) : LwsAccount where
  immutable := immutable
  spendable := spendable.insertionSort SpendableLe
  pubs := pubs.insertionSort (· ≤ ·)
  spends := spends
  outputs := outputs
  height := height
  spendableSorted := List.pairwise_insertionSort SpendableLe spendable
  pubsSorted := List.pairwise_insertionSort (· ≤ ·) pubs

/-- Reading back what an account holds changes nothing. -/
theorem ofParts_self (user : LwsAccount) :
    ofParts user.immutable user.spendable user.pubs user.spends user.outputs
      user.height = user := by
  obtain ⟨immutable, spendable, pubs, spends, outputs, height, sorted,
    pubsSorted⟩ := user
  simp only [ofParts, mk.injEq, true_and, and_true]
  exact ⟨sorted.insertionSort_eq, pubsSorted.insertionSort_eq⟩

/-- The constructor from a stored account. -/
def ofSource (addressString : AccountAddress → List (Fin 256)) (source : Db.Account)
    (spendable : List (OutputId × AddressIndex)) (pubs : List PublicKey) :
    LwsAccount :=
  ofParts ⟨addressString source.address, source.id, source.address,
    source.key⟩ spendable pubs [] [] source.scanHeight

def id (user : LwsAccount) : AccountId := user.immutable.id

def dbAddress (user : LwsAccount) : AccountAddress := user.immutable.pubs

def spendPublic (user : LwsAccount) : PublicKey :=
  user.immutable.pubs.spendPublic

def viewKey (user : LwsAccount) : SecretKey := user.immutable.viewKey

/-- `account::get_spendable`, by the first entry not below the primary index
of `id`. -/
def getSpendable (user : LwsAccount) (id : OutputId) : Option AddressIndex :=
  match user.spendable.dropWhile fun row =>
      spendableKey row < spendableKey (id, .primary) with
  | [] => none
  | row :: _ => if row.1 ≠ id then none else some row.2

/-- `account::add_out`; false when the public key is there already. -/
def addOut (user : LwsAccount) (out : Output) : LwsAccount × Bool :=
  if (user.pubs.dropWhile (· < out.pub)).head? = some out.pub then
    (user, false)
  else
    ({ user with
      pubs := user.pubs.orderedInsert (· ≤ ·) out.pub
      spendable := user.spendable.orderedInsert SpendableLe
        (out.spendMeta.id, out.recipient)
      outputs := user.outputs ++ [out]
      pubsSorted := user.pubsSorted.orderedInsert _ _
      spendableSorted := user.spendableSorted.orderedInsert _ _ }, true)

/-- On sorted keys the lower bound is the key itself exactly if it is there. -/
theorem addOut_taken {user : LwsAccount} {pub : PublicKey} :
    (user.pubs.dropWhile (· < pub)).head? = some pub ↔ pub ∈ user.pubs := by
  have sorted := user.pubsSorted
  generalize user.pubs = pubs at sorted ⊢
  induction pubs with
  | nil => simp
  | cons first pubs induction =>
      obtain ⟨below, rest⟩ := List.pairwise_cons.mp sorted
      rw [List.dropWhile_cons]
      split
      · rename_i less
        have different : pub ≠ first := by
          intro same
          simp [same] at less
        refine (induction rest).trans ⟨List.mem_cons_of_mem _, ?_⟩
        exact fun member => (List.mem_cons.mp member).resolve_left different
      · rename_i notLess
        have above : pub ≤ first := by simpa using notLess
        constructor
        · intro found
          exact List.mem_cons.mpr (.inl (Option.some.inj found).symm)
        · intro member
          rcases List.mem_cons.mp member with rfl | later
          · rfl
          · exact congrArg some (le_antisymm (below pub later) above)

def addSpend (user : LwsAccount) (spend : Spend) : LwsAccount :=
  { user with spends := user.spends ++ [spend] }

/-- `account::updated`. -/
def updated (user : LwsAccount) (newHeight : BlockId) : LwsAccount :=
  { user with
    height := max user.height newHeight
    spends := []
    outputs := [] }

end LwsAccount

/-- An output to the third subaddress of the first account. -/
def sampleReceived : Output :=
  { link := ⟨11, 1⟩
    spendMeta := ⟨⟨0, 6⟩, 500, 15, 0, 2⟩
    timestamp := 100
    unlockTime := 0
    txPrefixHash := 9
    pub := 20
    ringctMask := 0
    extra := 0
    paymentId := ⟨0, 0⟩
    fee := 1
    recipient := ⟨0, 3⟩ }

end XfoLws
