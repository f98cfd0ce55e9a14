import XfoLws.Lib.Outcome
import XfoLws.Lib.SortedRows
import XfoLws.Wire.Json
import Mathlib.Data.List.Lex

/-!
# Multisig store

`multisig_store` keeps the transactions of multisig addresses and a list of
wallets, and writes all of them to a JSON file after each change.  The readers
bound the length of arrays; the writers do not.
-/

namespace XfoLws.Db

open Wire

structure MultisigTxRecord where
  txHash : Bytes
  amount : UInt64
  timestamp : UInt64
  context : Bytes
deriving DecidableEq, Repr

structure MultisigWalletRecord where
  walletId : Bytes
  address : Bytes
  context : Bytes
  threshold : UInt32
  total : UInt32
  participants : List Bytes
  status : Bytes
  createdAt : UInt64
deriving DecidableEq, Repr

structure MultisigAddressData where
  address : Bytes
  transactions : List MultisigTxRecord
  totalLocked : UInt64
  primaryContext : Bytes
deriving DecidableEq, Repr

def maxMultisigTxs : ℕ := 32
def maxMultisigAddresses : ℕ := 16
def maxMultisigWallets : ℕ := 64
def maxParticipants : ℕ := 8

def readU64 (value : Json) : Except Schema UInt64 :=
  UInt64.ofNat <$> readUnsigned (2 ^ 64) value

def readU32 (value : Json) : Except Schema UInt32 :=
  UInt32.ofNat <$> readUnsigned (2 ^ 32) value

namespace MultisigTxRecord

def readBytes (source : Json) : Except Schema MultisigTxRecord := do
  let fields ← readObject source
  let txHash ← required fields "tx_hash" readString
  let amount ← required fields "amount" readU64
  let timestamp ← required fields "timestamp" readU64
  let context ← required fields "context" readString
  .ok { txHash, amount, timestamp, context }

def writeBytes (self : MultisigTxRecord) : Json :=
  .object
    [("tx_hash", .string self.txHash),
      ("amount", .unsigned self.amount.toNat),
      ("timestamp", .unsigned self.timestamp.toNat),
      ("context", .string self.context)]

end MultisigTxRecord

namespace MultisigWalletRecord

def readBytes (source : Json) : Except Schema MultisigWalletRecord := do
  let fields ← readObject source
  let walletId ← required fields "wallet_id" readString
  let address ← required fields "address" readString
  let context ← required fields "context" readString
  let threshold ← required fields "threshold" readU32
  let total ← required fields "total" readU32
  let participants ←
    optionalArray fields "participants" maxParticipants readString
  let status ← required fields "status" readString
  let createdAt ← required fields "created_at" readU64
  .ok { walletId, address, context, threshold, total, participants, status,
        createdAt }

def writeBytes (self : MultisigWalletRecord) : Json :=
  .object <|
    [("wallet_id", .string self.walletId),
      ("address", .string self.address),
      ("context", .string self.context),
      ("threshold", .unsigned self.threshold.toNat),
      ("total", .unsigned self.total.toNat)] ++
    arrayField "participants" Value.string self.participants ++
    [("status", .string self.status),
      ("created_at", .unsigned self.createdAt.toNat)]

end MultisigWalletRecord

namespace MultisigAddressData

def readBytes (source : Json) : Except Schema MultisigAddressData := do
  let fields ← readObject source
  let address ← required fields "address" readString
  let transactions ← optionalArray fields "transactions" maxMultisigTxs
    MultisigTxRecord.readBytes
  let totalLocked ← required fields "total_locked" readU64
  let primaryContext ← required fields "primary_context" readString
  .ok { address, transactions, totalLocked, primaryContext }

def writeBytes (self : MultisigAddressData) : Json :=
  .object <|
    [("address", .string self.address)] ++
    arrayField "transactions" MultisigTxRecord.writeBytes self.transactions ++
    [("total_locked", .unsigned self.totalLocked.toNat),
      ("primary_context", .string self.primaryContext)]

end MultisigAddressData

/-- `multisig_snapshot_v2`. -/
structure MultisigSnapshot where
  addresses : List MultisigAddressData
  wallets : List MultisigWalletRecord
deriving DecidableEq, Repr

namespace MultisigSnapshot

/-- The format without wallets: `multisig_snapshot`. -/
def readAddresses (source : Json) :
    Except Schema (List MultisigAddressData) := do
  let fields ← readObject source
  optionalArray fields "addresses" maxMultisigAddresses
    MultisigAddressData.readBytes

def readBytes (source : Json) : Except Schema MultisigSnapshot := do
  let fields ← readObject source
  let addresses ← optionalArray fields "addresses" maxMultisigAddresses
    MultisigAddressData.readBytes
  let wallets ← optionalArray fields "wallets" maxMultisigWallets
    MultisigWalletRecord.readBytes
  .ok { addresses, wallets }

def writeBytes (self : MultisigSnapshot) : Json :=
  .object <|
    arrayField "addresses" MultisigAddressData.writeBytes self.addresses ++
    arrayField "wallets" MultisigWalletRecord.writeBytes self.wallets

end MultisigSnapshot

/-! ## The store -/

/-- The addresses, sorted as a map, and the wallets. -/
structure MultisigState where
  data : SortedRows MultisigAddressData.address
  wallets : List MultisigWalletRecord

/-- The store and its file, if it was written. -/
structure MultisigStore extends MultisigState where
  file : Option Bytes

/-- Writing the file succeeds, or leaves something else in it. -/
inductive Write where
  | done
  | failed (left : Option Bytes)
deriving DecidableEq, Repr

inductive RegisterTxResult where
  | inserted
  | updated
  | duplicate
  | invalidInput
  | overflow
  | ioError
deriving DecidableEq, Repr

namespace MultisigState

def empty : MultisigState := ⟨.empty, []⟩

def snapshot (self : MultisigState) : MultisigSnapshot :=
  ⟨self.data.rows, self.wallets⟩

end MultisigState

namespace MultisigStore

/-- `save_locked`, and whether it succeeds. -/
def saveLocked (self : MultisigState) : Write → MultisigStore × Bool
  | .done => ({ self with
      file := some (self.snapshot.writeBytes.render) }, true)
  | .failed left => ({ self with file := left }, false)

/-- The transaction of a slot that has the hash, with those before and behind
it. -/
def findTx (txHash : Bytes) : List MultisigTxRecord →
    Option (List MultisigTxRecord × MultisigTxRecord × List MultisigTxRecord)
  | [] => none
  | tx :: others =>
      if tx.txHash = txHash then some ([], tx, others)
      else (findTx txHash others).map fun (before, found, after) =>
        (tx :: before, found, after)

/-- Replace an empty text. -/
def orElse (text other : Bytes) : Bytes := if text = [] then other else text

/-- Save with a changed slot. -/
def storeSlot (self : MultisigStore) (slot : MultisigAddressData)
    (result : RegisterTxResult) (write : Write) :
    RegisterTxResult × MultisigStore :=
  let (stored, saved) :=
    saveLocked ⟨self.data.put slot, self.wallets⟩ write
  (if saved then result else .ioError, stored)

/-- `register_tx_ex`, at the time `now`. -/
def registerTxEx (self : MultisigStore) (address txHash : Bytes)
    (amount : UInt64) (context : Bytes) (now : UInt64) (write : Write) :
    RegisterTxResult × MultisigStore :=
  if address = [] ∨ txHash = [] then (.invalidInput, self)
  else
    let slot := (self.data.find? address).getD ⟨address, [], 0, []⟩
    let kept := { self with data := self.data.put slot }
    let fits := amount.toNat ≤ 2 ^ 64 - 1 - slot.totalLocked.toNat
    match findTx txHash slot.transactions with
    | some (before, tx, after) =>
        if tx.amount = 0 ∧ 0 < amount then
          if ¬ fits then (.overflow, kept)
          else
            let updated :=
              { tx with amount, context := orElse tx.context context }
            self.storeSlot
              { slot with
                transactions := before ++ updated :: after
                totalLocked := slot.totalLocked + amount
                primaryContext := orElse slot.primaryContext context }
              .updated write
        else (.duplicate, kept)
    | none =>
        if ¬ fits then (.overflow, kept)
        else
          self.storeSlot
            { slot with
              transactions := slot.transactions ++
                [⟨txHash, amount, now, context⟩]
              totalLocked := slot.totalLocked + amount
              primaryContext := orElse slot.primaryContext context }
            .inserted write

/-- The loop of `register_wallet`: replace a wallet with the same id, or
append. -/
def putWallet (wallet : MultisigWalletRecord) :
    List MultisigWalletRecord → List MultisigWalletRecord
  | [] => [wallet]
  | existing :: others =>
      if existing.walletId = wallet.walletId then wallet :: others
      else existing :: putWallet wallet others

def registerWallet (self : MultisigStore) (wallet : MultisigWalletRecord)
    (write : Write) : Bool × MultisigStore :=
  if wallet.walletId = [] ∨ wallet.address = [] then (false, self)
  else
    let (stored, saved) := saveLocked
      ⟨self.data, putWallet wallet self.wallets⟩ write
    (saved, stored)

def listWallets (self : MultisigStore) : List MultisigWalletRecord :=
  self.wallets

/-- `get_balance`; an address without a slot reads as an empty one. -/
def getBalance (self : MultisigStore) (address : Bytes) :
    MultisigAddressData :=
  (self.data.find? address).getD ⟨address, [], 0, []⟩

def getTransactions (self : MultisigStore) (address : Bytes) :
    List MultisigTxRecord :=
  ((self.data.find? address).map MultisigAddressData.transactions).getD []

/-- `load_locked`: a file that is missing or empty leaves the state. -/
def loadLocked (json : JsonParser) (file : Option Bytes)
    (state : MultisigState) : Except Schema MultisigState :=
  match file with
  | none | some [] => .ok state
  | some content =>
      -- text that is no JSON fails in every reader
      match (json.parse content).elim (.error .object)
          MultisigSnapshot.readBytes with
      | .ok snapshot =>
          .ok ⟨SortedRows.empty.addAll snapshot.addresses, snapshot.wallets⟩
      | .error _ => do
          -- the format without wallets
          let addresses ← (json.parse content).elim (.error .object)
            MultisigSnapshot.readAddresses
          .ok ⟨SortedRows.empty.addAll addresses, []⟩

end MultisigStore

/-! ## Reading back -/

@[simp] theorem readU64_unsigned (value : UInt64) :
    readU64 (.unsigned value.toNat) = .ok value := by
  have below := value.toNat_lt
  simp [readU64, readUnsigned, below]

@[simp] theorem readU32_unsigned (value : UInt32) :
    readU32 (.unsigned value.toNat) = .ok value := by
  have below := value.toNat_lt
  simp [readU32, readUnsigned, below]

theorem MultisigTxRecord.readBytes_writeBytes (self : MultisigTxRecord) :
    readBytes self.writeBytes = .ok self := by
  simp [readBytes, writeBytes, readObject, required, field?, readString,
    bind, Except.bind]

theorem MultisigWalletRecord.readBytes_writeBytes
    (self : MultisigWalletRecord) :
    readBytes self.writeBytes =
      if self.participants.length ≤ maxParticipants then .ok self
      else .error .arrayMaxElement := by
  have participants := optionalArray_arrayField_all
    [("wallet_id", .string self.walletId), ("address", .string self.address),
      ("context", .string self.context),
      ("threshold", .unsigned self.threshold.toNat),
      ("total", .unsigned self.total.toNat)]
    [("status", .string self.status),
      ("created_at", .unsigned self.createdAt.toNat)]
    "participants" maxParticipants self.participants (by simp)
    (fun item => (rfl : readString (Value.string item) = .ok item))
  unfold readBytes writeBytes
  simp only [readObject, bind, Except.bind, required, participants,
    field?_arrayField, ne_eq, String.reduceEq, not_false_eq_true]
  by_cases fits : self.participants.length ≤ maxParticipants
  · simp [fits, field?, readString]
  · simp [fits, field?, readString]

theorem MultisigAddressData.readBytes_writeBytes (self : MultisigAddressData) :
    readBytes self.writeBytes =
      if self.transactions.length ≤ maxMultisigTxs then .ok self
      else .error .arrayMaxElement := by
  have transactions := optionalArray_arrayField_all
    [("address", .string self.address)]
    [("total_locked", .unsigned self.totalLocked.toNat),
      ("primary_context", .string self.primaryContext)]
    "transactions" maxMultisigTxs self.transactions (by simp)
    MultisigTxRecord.readBytes_writeBytes
  unfold readBytes writeBytes
  simp only [readObject, bind, Except.bind, required, transactions,
    field?_arrayField, ne_eq, String.reduceEq, not_false_eq_true]
  by_cases fits : self.transactions.length ≤ maxMultisigTxs
  · simp [fits, field?, readString]
  · simp [fits, field?, readString]

/-- The reader's bounds on a snapshot. -/
structure MultisigSnapshot.WithinCaps (snapshot : MultisigSnapshot) : Prop where
  addresses : snapshot.addresses.length ≤ maxMultisigAddresses
  transactions : ∀ address ∈ snapshot.addresses,
    address.transactions.length ≤ maxMultisigTxs
  wallets : snapshot.wallets.length ≤ maxMultisigWallets
  participants : ∀ wallet ∈ snapshot.wallets,
    wallet.participants.length ≤ maxParticipants

namespace MultisigSnapshot

private theorem addresses_read (self : MultisigSnapshot) :
    optionalArray
        (arrayField "addresses" MultisigAddressData.writeBytes self.addresses ++
          arrayField "wallets" MultisigWalletRecord.writeBytes self.wallets)
        "addresses" maxMultisigAddresses MultisigAddressData.readBytes =
      if self.addresses.length ≤ maxMultisigAddresses ∧
          ∀ address ∈ self.addresses,
            address.transactions.length ≤ maxMultisigTxs then
        .ok self.addresses
      else .error .arrayMaxElement := by
  refine optionalArray_arrayField [] _ "addresses" maxMultisigAddresses
    self.addresses ?_ fun address _ => address.readBytes_writeBytes
  rw [List.nil_append]
  exact arrayField_avoids self.wallets (by simp)

private theorem wallets_read (self : MultisigSnapshot) :
    optionalArray
        (arrayField "addresses" MultisigAddressData.writeBytes self.addresses ++
          arrayField "wallets" MultisigWalletRecord.writeBytes self.wallets)
        "wallets" maxMultisigWallets MultisigWalletRecord.readBytes =
      if self.wallets.length ≤ maxMultisigWallets ∧
          ∀ wallet ∈ self.wallets,
            wallet.participants.length ≤ maxParticipants then
        .ok self.wallets
      else .error .arrayMaxElement := by
  have back := optionalArray_arrayField
    (arrayField "addresses" MultisigAddressData.writeBytes self.addresses) []
    "wallets" maxMultisigWallets self.wallets (by
      rw [List.append_nil]
      exact arrayField_avoids self.addresses (by simp))
    fun wallet _ => wallet.readBytes_writeBytes
  rwa [List.append_nil] at back

/-- The snapshot is read back within the caps and refused outside them. -/
theorem readBytes_writeBytes (self : MultisigSnapshot) :
    (self.WithinCaps → readBytes self.writeBytes = .ok self) ∧
      (¬ self.WithinCaps →
        readBytes self.writeBytes = .error .arrayMaxElement) := by
  have addresses := self.addresses_read
  have wallets := self.wallets_read
  unfold readBytes writeBytes
  simp only [readObject, bind, Except.bind, addresses, wallets]
  constructor
  · rintro ⟨few, txs, some, participants⟩
    rw [if_pos ⟨few, txs⟩, if_pos ⟨some, participants⟩]
  · intro outside
    by_cases first : self.addresses.length ≤ maxMultisigAddresses ∧
        ∀ address ∈ self.addresses,
          address.transactions.length ≤ maxMultisigTxs
    · rw [if_pos first, if_neg fun second =>
        outside ⟨first.1, first.2, second.1, second.2⟩]
    · rw [if_neg first]

/-- The format without wallets only sees the addresses. -/
theorem readAddresses_writeBytes (self : MultisigSnapshot) :
    readAddresses self.writeBytes =
      if self.addresses.length ≤ maxMultisigAddresses ∧
          ∀ address ∈ self.addresses,
            address.transactions.length ≤ maxMultisigTxs then
        .ok self.addresses
      else .error .arrayMaxElement :=
  self.addresses_read

end MultisigSnapshot

/-! ## Runs -/

inductive MultisigCall where
  | registerTx (address txHash : Bytes) (amount : UInt64) (context : Bytes)
      (now : UInt64) (write : Write)
  | registerWallet (wallet : MultisigWalletRecord) (write : Write)
deriving DecidableEq, Repr

namespace MultisigStore

/-- A store without a file. -/
def new : MultisigStore := ⟨.empty, none⟩

/-- A call, with whether it answers with success. -/
def call (self : MultisigStore) :
    MultisigCall → Bool × MultisigStore
  | .registerTx address txHash amount context now write =>
      let (result, next) :=
        self.registerTxEx address txHash amount context now write
      (result = .inserted ∨ result = .updated, next)
  | .registerWallet wallet write => self.registerWallet wallet write

def Succeeds (self : MultisigStore) (call : MultisigCall)
    (next : MultisigStore) : Prop :=
  self.call call = (true, next)

/-- The file holds the state. -/
def Saved (self : MultisigStore) : Prop :=
  self.file = some (self.snapshot.writeBytes.render)

private theorem saveLocked_saved {state : MultisigState} {write : Write}
    (saved : (saveLocked state write).2 = true) :
    Saved (saveLocked state write).1 := by
  cases write with
  | done => rfl
  | failed left => cases saved

private theorem storeSlot_saved {self : MultisigStore}
    {slot : MultisigAddressData} {result : RegisterTxResult} {write : Write}
    (answered : (self.storeSlot slot result write).1 ≠ .ioError) :
    Saved (self.storeSlot slot result write).2 := by
  cases write with
  | done => rfl
  | failed left => exact absurd rfl answered

/-- Every answer but a refusal comes with a saved state. -/
private theorem registerTxEx_saved {self : MultisigStore}
    {address txHash context : Bytes} {amount now : UInt64} {write : Write}
    (answered :
      (self.registerTxEx address txHash amount context now write).1 =
          .inserted ∨
        (self.registerTxEx address txHash amount context now write).1 =
          .updated) :
    Saved
      (self.registerTxEx address txHash amount context now write).2 := by
  unfold registerTxEx at answered ⊢
  dsimp only at answered ⊢
  split at answered
  · rcases answered with never | never <;> cases never
  rename_i valid
  rw [if_neg valid]
  split at answered
  · split at answered
    · rename_i growing
      rw [if_pos growing]
      split at answered
      · rcases answered with never | never <;> cases never
      · rename_i fits
        rw [if_neg fits]
        refine storeSlot_saved fun failed => ?_
        rw [failed] at answered
        rcases answered with never | never <;> cases never
    · rcases answered with never | never <;> cases never
  · split at answered
    · rcases answered with never | never <;> cases never
    · rename_i fits
      rw [if_neg fits]
      refine storeSlot_saved fun failed => ?_
      rw [failed] at answered
      rcases answered with never | never <;> cases never

theorem Succeeds.saved {self next : MultisigStore} {call : MultisigCall}
    (succeeds : Succeeds self call next) : Saved next := by
  cases call with
  | registerWallet wallet write =>
      change self.registerWallet wallet write = (true, next) at succeeds
      unfold registerWallet at succeeds
      split at succeeds
      · cases succeeds
      · obtain ⟨saved, rfl⟩ := Prod.mk.inj succeeds
        exact saveLocked_saved saved
  | registerTx address txHash amount context now write =>
      obtain ⟨success, rfl⟩ := Prod.mk.inj succeeds
      exact registerTxEx_saved (of_decide_eq_true success)

/-- The file is read in the current format and gives the state back. -/
def Reloads (json : JsonParser) (self : MultisigStore) : Prop :=
  (∀ content, self.file = some content → ∃ source snapshot,
    json.parse content = some source ∧
      MultisigSnapshot.readBytes source = .ok snapshot) ∧
  loadLocked json self.file .empty = .ok self.toMultisigState

/-- A saved file gives the state back exactly within the caps. -/
theorem Saved.reloads_iff {json : JsonParser} {self : MultisigStore}
    (saved : Saved self)
    (readBack : json.parse self.snapshot.writeBytes.render =
      some self.snapshot.writeBytes) :
    Reloads json self ↔ self.snapshot.WithinCaps := by
  have current := self.snapshot.readBytes_writeBytes
  have rebuilt : SortedRows.empty.addAll self.snapshot.addresses = self.data :=
    SortedRows.empty_addAll_rows self.data
  unfold Reloads loadLocked
  rw [saved]
  generalize self.snapshot.writeBytes.render = content at readBack
  cases content with
  | nil =>
      rw [json.parse_empty] at readBack
      cases readBack
  | cons first rest =>
      dsimp only
      rw [readBack, Option.elim_some]
      by_cases within : self.snapshot.WithinCaps
      · have back := current.1 within
        refine iff_of_true ⟨?_, ?_⟩ within
        · intro content stored
          cases stored
          exact ⟨_, _, readBack, back⟩
        · rw [back]
          dsimp only
          rw [rebuilt]
          rfl
      · refine iff_of_false ?_ within
        rintro ⟨readable, -⟩
        obtain ⟨source, snapshot, parsed, back⟩ := readable _ rfl
        cases readBack.symm.trans parsed
        rw [current.2 within] at back
        cases back

/-- When only the wallets exceed the caps, all of them are forgotten. -/
theorem Saved.forgets_wallets {json : JsonParser} {self : MultisigStore}
    (saved : Saved self)
    (readBack : json.parse self.snapshot.writeBytes.render =
      some self.snapshot.writeBytes)
    (beyond : ¬ self.snapshot.WithinCaps)
    (few : self.snapshot.addresses.length ≤ maxMultisigAddresses)
    (txs : ∀ address ∈ self.snapshot.addresses,
      address.transactions.length ≤ maxMultisigTxs) :
    loadLocked json self.file .empty = .ok ⟨self.data, []⟩ := by
  have current := self.snapshot.readBytes_writeBytes.2 beyond
  have older := self.snapshot.readAddresses_writeBytes
  rw [if_pos ⟨few, txs⟩] at older
  have rebuilt : SortedRows.empty.addAll self.snapshot.addresses = self.data :=
    SortedRows.empty_addAll_rows self.data
  unfold loadLocked
  rw [saved]
  generalize self.snapshot.writeBytes.render = content at readBack
  cases content with
  | nil =>
      rw [json.parse_empty] at readBack
      cases readBack
  | cons first rest =>
      dsimp only
      rw [readBack, Option.elim_some, Option.elim_some, current]
      dsimp only
      rw [older]
      show Except.ok (MultisigState.mk
        (SortedRows.empty.addAll self.snapshot.addresses) []) = _
      rw [rebuilt]

end MultisigStore

/-- A file written by successful calls can be reloaded if and only if the
state is within the reader's caps. -/
theorem multisig_store_reloads_iff {json : JsonParser} {final : MultisigStore}
    {calls : List MultisigCall}
    (run : Run MultisigStore.Succeeds MultisigStore.new calls final)
    (readBack : json.parse final.snapshot.writeBytes.render =
      some final.snapshot.writeBytes) :
    MultisigStore.Reloads json final ↔ final.snapshot.WithinCaps := by
  have saved : MultisigStore.Saved final ∨ final = MultisigStore.new :=
    run.preserves (fun store => MultisigStore.Saved store ∨ store = .new)
      (fun _ _ _ _ succeeds => .inl succeeds.saved) (.inr rfl)
  rcases saved with saved | rfl
  · exact saved.reloads_iff readBack
  · -- without a call there is no file, and the state is empty
    refine iff_of_true ⟨?_, rfl⟩ ⟨by decide, ?_, by decide, ?_⟩
    · intro content never
      cases never
    · intro address never
      cases never
    · intro wallet never
      cases never

/-- A parser that reads the text of one snapshot. -/
private def parserOf (snapshot : MultisigSnapshot) : JsonParser where
  parse content :=
    if content = snapshot.writeBytes.render then some snapshot.writeBytes
    else none
  parse_empty := by
    apply if_neg
    rw [MultisigSnapshot.writeBytes, Json.render]
    exact (List.cons_ne_nil _ _).symm

private theorem parserOf_parse (snapshot : MultisigSnapshot) :
    (parserOf snapshot).parse snapshot.writeBytes.render =
      some snapshot.writeBytes := by
  unfold parserOf
  exact if_pos rfl

/-- A wallet of the samples. -/
private def walletOf (participants : ℕ) : MultisigWalletRecord where
  walletId := [119]
  address := [97]
  context := []
  threshold := 1
  total := 1
  participants := List.replicate participants [112]
  status := []
  createdAt := 0

/-- The store after registering one wallet. -/
private def storeOf (participants : ℕ) : MultisigStore :=
  (MultisigStore.new.call (.registerWallet (walletOf participants) .done)).2

private theorem storeOf_run (participants : ℕ) :
    Run MultisigStore.Succeeds .new
      [.registerWallet (walletOf participants) .done]
      (storeOf participants) :=
  .cons rfl (.nil _)

/-- One wallet with two participants. -/
theorem multisig_store_reloads_wallet :
    MultisigStore.Reloads (parserOf (storeOf 2).snapshot) (storeOf 2) ↔
      (storeOf 2).snapshot.WithinCaps :=
  multisig_store_reloads_iff (storeOf_run 2) (parserOf_parse _)

/-- A wallet with nine participants is forgotten. -/
theorem multisig_store_forgets_wallet :
    ¬ ∀ (json : JsonParser) (calls : List MultisigCall) (final : MultisigStore),
      Run MultisigStore.Succeeds .new calls final →
      json.parse final.snapshot.writeBytes.render =
        some final.snapshot.writeBytes →
      MultisigStore.loadLocked json final.file .empty =
        .ok final.toMultisigState := by
  intro always
  have readBack := parserOf_parse (storeOf 9).snapshot
  have reloaded := always _ _ _ (storeOf_run 9) readBack
  have beyond : ¬ (storeOf 9).snapshot.WithinCaps := by
    intro within
    have few := within.participants (walletOf 9) List.mem_cons_self
    exact absurd few (by decide)
  have saved : (storeOf 9).Saved := rfl
  have forgotten := saved.forgets_wallets readBack beyond (by decide)
    (by intro address never; cases never)
  cases forgotten.symm.trans reloaded

end XfoLws.Db
