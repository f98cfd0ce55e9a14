import XfoLws.Db.MultisigStore

/-!
# The multisig ledger

What one registration does to the slot of its address, and from it what holds
after any run of registrations: the locked total is the sum of the recorded
amounts.  A registration whose file write fails is recorded all the same, so
a call is atomic only as long as it does not get to a failing write with
something to record.
-/

namespace XfoLws.Db

open Wire

/-- The sum of the recorded amounts, without overflow. -/
def lockedSum (transactions : List MultisigTxRecord) : ℕ :=
  (transactions.map fun tx => tx.amount.toNat).sum

/-- The transactions of an address are distinct and add up to its total. -/
structure MultisigAddressData.AddsUp (slot : MultisigAddressData) : Prop where
  distinct : (slot.transactions.map MultisigTxRecord.txHash).Nodup
  total : slot.totalLocked.toNat = lockedSum slot.transactions
  fits : lockedSum slot.transactions ≤ 2 ^ 64 - 1

/-- The recorded amounts that are not zero are still recorded. -/
def KeepsAmounts (earlier later : List MultisigTxRecord) : Prop :=
  ∀ tx ∈ earlier, tx.amount ≠ 0 →
    ∃ kept ∈ later, kept.txHash = tx.txHash ∧ kept.amount = tx.amount

theorem KeepsAmounts.refl (transactions : List MultisigTxRecord) :
    KeepsAmounts transactions transactions :=
  fun tx member _ => ⟨tx, member, rfl, rfl⟩

theorem KeepsAmounts.trans {earlier middle later : List MultisigTxRecord}
    (first : KeepsAmounts earlier middle) (second : KeepsAmounts middle later) :
    KeepsAmounts earlier later := by
  intro tx member nonzero
  obtain ⟨kept, keptMember, keptHash, keptAmount⟩ := first tx member nonzero
  obtain ⟨last, lastMember, lastHash, lastAmount⟩ :=
    second kept keptMember (keptAmount ▸ nonzero)
  exact ⟨last, lastMember, lastHash.trans keptHash,
    lastAmount.trans keptAmount⟩

namespace MultisigStore

/-! ## One registration -/

theorem findTx_some {txHash : Bytes}
    {transactions before after : List MultisigTxRecord}
    {tx : MultisigTxRecord}
    (found : findTx txHash transactions = some (before, tx, after)) :
    transactions = before ++ tx :: after ∧ tx.txHash = txHash := by
  induction transactions generalizing before with
  | nil => cases found
  | cons first others induction =>
      unfold findTx at found
      split at found
      · rename_i same
        cases found
        exact ⟨rfl, same⟩
      · obtain ⟨⟨front, other, back⟩, later, parts⟩ :=
          Option.map_eq_some_iff.mp found
        cases parts
        obtain ⟨rfl, same⟩ := induction later
        exact ⟨rfl, same⟩

theorem findTx_none {txHash : Bytes} {transactions : List MultisigTxRecord}
    (missing : findTx txHash transactions = none) :
    ∀ tx ∈ transactions, tx.txHash ≠ txHash := by
  induction transactions with
  | nil => simp
  | cons first others induction =>
      unfold findTx at missing
      split at missing
      · cases missing
      · rename_i different
        exact List.forall_mem_cons.mpr
          ⟨different, induction (Option.map_eq_none_iff.mp missing)⟩

/-- An amount can be added to the total of a slot. -/
def Fits (slot : MultisigAddressData) (amount : UInt64) : Prop :=
  amount.toNat ≤ 2 ^ 64 - 1 - slot.totalLocked.toNat

instance (slot : MultisigAddressData) (amount : UInt64) :
    Decidable (Fits slot amount) :=
  inferInstanceAs (Decidable (_ ≤ _))

/-- The ways `register_tx_ex` changes the slot of its address. -/
inductive SlotChanged (old : MultisigAddressData) (txHash : Bytes)
    (amount : UInt64) : MultisigAddressData → Prop where
  | backfilled {before after : List MultisigTxRecord} {tx : MultisigTxRecord}
      {context primary : Bytes} :
      old.transactions = before ++ tx :: after → tx.txHash = txHash →
      tx.amount = 0 → 0 < amount → Fits old amount →
      SlotChanged old txHash amount
        { old with
          transactions := before ++ { tx with amount, context } :: after
          totalLocked := old.totalLocked + amount
          primaryContext := primary }
  | inserted {tx : MultisigTxRecord} {primary : Bytes} :
      (∀ recorded ∈ old.transactions, recorded.txHash ≠ txHash) →
      tx.txHash = txHash → tx.amount = amount → Fits old amount →
      SlotChanged old txHash amount
        { old with
          transactions := old.transactions ++ [tx]
          totalLocked := old.totalLocked + amount
          primaryContext := primary }

/-- A call that refuses may still leave an empty slot behind. -/
inductive TxRegistered (self : MultisigStore) (address txHash : Bytes)
    (amount : UInt64) (write : Write) :
    RegisterTxResult × MultisigStore → Prop where
  | invalid : address = [] ∨ txHash = [] →
      TxRegistered self address txHash amount write (.invalidInput, self)
  | refused {result : RegisterTxResult} : address ≠ [] → txHash ≠ [] →
      result = .overflow ∧ ¬ Fits (self.getBalance address) amount ∨
        result = .duplicate ∧ (∃ before tx after,
          findTx txHash (self.getBalance address).transactions =
            some (before, tx, after) ∧ ¬ (tx.amount = 0 ∧ 0 < amount)) →
      TxRegistered self address txHash amount write (result,
        { self with data := self.data.put (self.getBalance address) })
  | recorded {slot : MultisigAddressData} {result : RegisterTxResult} :
      address ≠ [] → txHash ≠ [] →
      result = .inserted ∨ result = .updated →
      SlotChanged (self.getBalance address) txHash amount slot →
      (∀ before tx after,
        findTx txHash (self.getBalance address).transactions =
          some (before, tx, after) → tx.amount = 0 ∧ 0 < amount) →
      TxRegistered self address txHash amount write
        (self.storeSlot slot result write)

theorem registerTxEx_spec (self : MultisigStore) (address txHash : Bytes)
    (amount : UInt64) (context : Bytes) (now : UInt64) (write : Write) :
    TxRegistered self address txHash amount write
      (self.registerTxEx address txHash amount context now write) := by
  unfold registerTxEx
  split
  · exact .invalid ‹_›
  rename_i valid
  obtain ⟨named, hashed⟩ := not_or.mp valid
  dsimp only
  split
  · rename_i before tx after found
    obtain ⟨parts, same⟩ := findTx_some found
    split
    · rename_i zero
      split
      · rename_i full
        exact .refused named hashed (.inl ⟨rfl, full⟩)
      · rename_i fits
        refine .recorded named hashed (.inr rfl)
          (.backfilled parts same zero.1 zero.2 (not_not.mp fits)) ?_
        rintro _ _ _ other
        cases found.symm.trans other
        exact zero
    · rename_i recorded
      exact .refused named hashed
        (.inr ⟨rfl, before, tx, after, found, recorded⟩)
  · rename_i missing
    split
    · rename_i full
      exact .refused named hashed (.inl ⟨rfl, full⟩)
    · rename_i fits
      refine .recorded named hashed (.inl rfl)
        (@SlotChanged.inserted _ _ _ ⟨txHash, amount, now, context⟩ _
          (findTx_none missing) rfl rfl (not_not.mp fits)) ?_
      intro _ _ _ other
      cases missing.symm.trans other

/-! ## The views -/

variable {self next : MultisigStore}

theorem getBalance_address (self : MultisigStore) (address : Bytes) :
    (self.getBalance address).address = address := by
  unfold getBalance
  cases found : self.data.find? address with
  | none => rfl
  | some slot => exact (SortedRows.find?_eq_some.mp found).2

theorem getTransactions_eq (self : MultisigStore) (address : Bytes) :
    self.getTransactions address = (self.getBalance address).transactions := by
  unfold getTransactions getBalance
  cases self.data.find? address with
  | none => rfl
  | some slot => rfl

theorem getBalance_put {slot : MultisigAddressData}
    (stored : next.data = self.data.put slot) (address : Bytes) :
    next.getBalance address =
      if slot.address = address then slot else self.getBalance address := by
  unfold getBalance
  rw [stored, SortedRows.find?_put]
  split <;> rfl

theorem storeSlot_data (self : MultisigStore) (slot : MultisigAddressData)
    (result : RegisterTxResult) (write : Write) :
    (self.storeSlot slot result write).2.data = self.data.put slot := by
  cases write with
  | done => rfl
  | failed left => rfl

theorem storeSlot_wallets (self : MultisigStore) (slot : MultisigAddressData)
    (result : RegisterTxResult) (write : Write) :
    (self.storeSlot slot result write).2.wallets = self.wallets := by
  cases write with
  | done => rfl
  | failed left => rfl

theorem SlotChanged.address {old slot : MultisigAddressData} {txHash : Bytes}
    {amount : UInt64} (changed : SlotChanged old txHash amount slot) :
    slot.address = old.address := by
  cases changed with
  | backfilled => rfl
  | inserted => rfl

theorem registerTxEx_balances (self : MultisigStore)
    (address txHash : Bytes) (amount : UInt64) (context : Bytes)
    (now : UInt64) (write : Write) (other : Bytes) :
    (self.registerTxEx address txHash amount context now write).2.getBalance
        other = self.getBalance other ∨
      SlotChanged (self.getBalance other) txHash amount
        ((self.registerTxEx address txHash amount context now
          write).2.getBalance other) := by
  have spec :=
    self.registerTxEx_spec address txHash amount context now write
  generalize self.registerTxEx address txHash amount context now write =
    answered at spec
  cases spec with
  | invalid => exact .inl rfl
  | refused =>
      left
      rw [getBalance_put rfl, self.getBalance_address]
      split
      · rename_i same
        rw [same]
      · rfl
  | recorded _ _ _ changed =>
      rw [getBalance_put (self.storeSlot_data _ _ _), changed.address,
        self.getBalance_address]
      split
      · rename_i same
        exact .inr (same ▸ changed)
      · exact .inl rfl

/-! ## Sums -/

theorem lockedSum_append (left right : List MultisigTxRecord) :
    lockedSum (left ++ right) = lockedSum left + lockedSum right := by
  simp [lockedSum]

private theorem total_add {slot : MultisigAddressData} {amount : UInt64}
    (fits : Fits slot amount) :
    (slot.totalLocked + amount).toNat =
      slot.totalLocked.toNat + amount.toNat := by
  have below := slot.totalLocked.toNat_lt
  unfold Fits at fits
  rw [UInt64.toNat_add, Nat.mod_eq_of_lt (by omega)]

theorem SlotChanged.addsUp {old slot : MultisigAddressData} {txHash : Bytes}
    {amount : UInt64} (changed : SlotChanged old txHash amount slot)
    (before : old.AddsUp) : slot.AddsUp := by
  have total := before.total
  cases changed with
  | @backfilled front back tx context primary parts same zero _ fits =>
      have distinct := before.distinct
      have room := total_add fits
      have bound := (old.totalLocked + amount).toNat_lt
      rw [parts] at distinct total
      have sum : lockedSum (front ++ { tx with amount, context } :: back) =
          lockedSum (front ++ tx :: back) + amount.toNat := by
        rw [lockedSum_append, lockedSum_append]
        simp only [lockedSum, List.map_cons, List.sum_cons, zero]
        rw [UInt64.toNat_zero]
        omega
      refine ⟨?_, ?_, ?_⟩
      · simpa using distinct
      · dsimp only
        rw [sum, room, total]
      · dsimp only
        rw [sum, ← total]
        omega
  | @inserted tx primary fresh same recorded fits =>
      have room := total_add fits
      have bound := (old.totalLocked + amount).toNat_lt
      have sum : lockedSum (old.transactions ++ [tx]) =
          lockedSum old.transactions + amount.toNat := by
        rw [lockedSum_append]
        simp [lockedSum, recorded]
      refine ⟨?_, ?_, ?_⟩
      · dsimp only
        rw [List.map_append, List.nodup_append]
        refine ⟨before.distinct, by simp, ?_⟩
        intro hash member other last different
        obtain ⟨earlier, earlierMember, rfl⟩ := List.mem_map.mp member
        obtain rfl : other = tx.txHash := by simpa using last
        exact fresh earlier earlierMember (different.trans same)
      · dsimp only
        rw [sum, room, total]
      · dsimp only
        rw [sum, ← total]
        omega

theorem SlotChanged.keepsAmounts {old slot : MultisigAddressData}
    {txHash : Bytes} {amount : UInt64}
    (changed : SlotChanged old txHash amount slot) :
    KeepsAmounts old.transactions slot.transactions := by
  intro recorded member nonzero
  cases changed with
  | @backfilled front back tx _ _ parts _ zero =>
      rw [parts, List.mem_append, List.mem_cons] at member
      rcases member with early | rfl | late
      · exact ⟨recorded, by simp [early], rfl, rfl⟩
      · exact (nonzero zero).elim
      · exact ⟨recorded, by simp [late], rfl, rfl⟩
  | inserted => exact ⟨recorded, by simp [member], rfl, rfl⟩

/-! ## Runs -/

/-- A call, whatever it answers. -/
def Calls (self : MultisigStore) (call : MultisigCall)
    (next : MultisigStore) : Prop :=
  (self.call call).2 = next

/-- One call keeps what holds of a slot and is kept by its changes. -/
theorem Calls.balance {call : MultisigCall} (called : Calls self call next)
    (address : Bytes) :
    next.getBalance address = self.getBalance address ∨
      ∃ txHash amount, SlotChanged (self.getBalance address) txHash amount
        (next.getBalance address) := by
  subst called
  cases call with
  | registerTx named txHash amount context now write =>
      rcases self.registerTxEx_balances named txHash amount context now write
        address with same | changed
      · exact .inl same
      · exact .inr ⟨txHash, amount, changed⟩
  | registerWallet wallet write =>
      left
      show (self.registerWallet wallet write).2.getBalance address = _
      unfold registerWallet
      split
      · rfl
      · cases write with
        | done => rfl
        | failed left => rfl

end MultisigStore

/-- In every run of registrations the transactions of an address are distinct
and add up to its total, and an amount that is recorded stays. -/
theorem multisig_ledger_adds_up {middle final : MultisigStore}
    {calls more : List MultisigCall}
    (run : Run MultisigStore.Calls .new calls middle)
    (later : Run MultisigStore.Calls middle more final) (address : Bytes) :
    (middle.getBalance address).AddsUp ∧
      KeepsAmounts (middle.getTransactions address)
        (final.getTransactions address) := by
  constructor
  · refine run.preserves
      (fun store => (store.getBalance address).AddsUp) ?_ ?_
    · intro store call next before called
      rcases called.balance address with same | ⟨_, _, changed⟩
      · rw [same]
        exact before
      · exact changed.addsUp before
    · exact ⟨.nil, rfl, Nat.zero_le _⟩
  · refine later.preserves
      (fun store => KeepsAmounts (middle.getTransactions address)
        (store.getTransactions address)) ?_ (.refl _)
    intro store call next kept called
    refine kept.trans ?_
    rw [MultisigStore.getTransactions_eq, MultisigStore.getTransactions_eq]
    rcases called.balance address with same | ⟨_, _, changed⟩
    · rw [same]
      exact .refl _
    · exact changed.keepsAmounts

/-- A transaction recorded without its amount, and its amount behind it. -/
private def backfillCalls : List MultisigCall :=
  [.registerTx [97] [1] 0 [] 5 .done,
    .registerTx [97] [1] 30 [] 6 (.failed none)]

private theorem backfillCalls_run :
    Run MultisigStore.Calls .new backfillCalls
      (backfillCalls.foldl (fun store call => (store.call call).2) .new) :=
  .cons rfl (.cons rfl (.nil _))

/-- The backfilled amount stays when another transaction is recorded. -/
theorem multisig_ledger_adds_up_after_backfill :
    ∃ final : MultisigStore, (final.getBalance [97]).totalLocked = 37 ∧
      KeepsAmounts
        ((backfillCalls.foldl (fun store call => (store.call call).2)
          MultisigStore.new).getTransactions [97])
        (final.getTransactions [97]) :=
  ⟨_, by decide, (multisig_ledger_adds_up backfillCalls_run
    (.cons (rfl : MultisigStore.Calls _
      (.registerTx [97] [2] 7 [] 7 .done) _) (.nil _)) [97]).2⟩

/-! ## Atomicity -/

namespace MultisigCall

def write : MultisigCall → Write
  | .registerTx _ _ _ _ _ write => write
  | .registerWallet _ write => write

/-- The call made again at another time, with a file that can be written. -/
def retried (now : UInt64) : MultisigCall → MultisigCall
  | .registerTx address txHash amount context _ _ =>
      .registerTx address txHash amount context now .done
  | .registerWallet wallet _ => .registerWallet wallet .done

end MultisigCall

inductive MultisigAnswer where
  | tx (result : RegisterTxResult)
  | wallet (registered : Bool)
deriving DecidableEq, Repr

namespace MultisigStore

variable {self left right next : MultisigStore}

def answer (self : MultisigStore) : MultisigCall → MultisigAnswer
  | .registerTx address txHash amount context now write =>
      .tx (self.registerTxEx address txHash amount context now write).1
  | .registerWallet wallet write =>
      .wallet (self.registerWallet wallet write).1

/-- Both stores answer every reader alike. -/
structure SameViews (left right : MultisigStore) : Prop where
  balance : ∀ address, left.getBalance address = right.getBalance address
  transactions : ∀ address,
    left.getTransactions address = right.getTransactions address
  wallets : left.listWallets = right.listWallets

theorem SameViews.of_balance
    (balance : ∀ address, left.getBalance address = right.getBalance address)
    (wallets : left.wallets = right.wallets) : SameViews left right where
  balance := balance
  transactions := fun address => by
    rw [getTransactions_eq, getTransactions_eq, balance]
  wallets := wallets

theorem SameViews.refl (self : MultisigStore) : SameViews self self :=
  ⟨fun _ => rfl, fun _ => rfl, rfl⟩

/-- A call that does not report success leaves no trace, and succeeds like a
first call when it is made again. -/
structure AtomicAt (store : MultisigStore) (call : MultisigCall) : Prop where
  unchanged : (store.call call).1 = false →
    SameViews (store.call call).2 store
  sameAnswer : (store.call call).1 = false → ∀ now,
    (store.call call).2.answer (call.retried now) =
      store.answer (call.retried now)
  sameEffect : (store.call call).1 = false → ∀ now,
    SameViews ((store.call call).2.call (call.retried now)).2
      (store.call (call.retried now)).2
  persists : (store.call call).1 = false → ∀ now,
    (store.call (call.retried now)).1 = true →
      Saved ((store.call call).2.call (call.retried now)).2

/-- The call has something to record. -/
def Records (self : MultisigStore) : MultisigCall → Prop
  | .registerTx address txHash amount _ _ _ =>
      address ≠ [] ∧ txHash ≠ [] ∧ Fits (self.getBalance address) amount ∧
        ∀ before tx after,
          findTx txHash (self.getBalance address).transactions =
            some (before, tx, after) → tx.amount = 0 ∧ 0 < amount
  | .registerWallet wallet _ => wallet.walletId ≠ [] ∧ wallet.address ≠ [] ∧
      self.wallets.find? (fun other => other.walletId = wallet.walletId) ≠
        some wallet

/-! ### Stores that read alike -/

theorem getBalance_storeSlot (self : MultisigStore)
    (slot : MultisigAddressData) (result : RegisterTxResult) (write : Write)
    (address : Bytes) :
    (self.storeSlot slot result write).2.getBalance address =
      if slot.address = address then slot else self.getBalance address :=
  getBalance_put (self.storeSlot_data slot result write) address

/-- Stores that read alike answer a registration alike. -/
private theorem SameViews.registerTxEx (same : SameViews left right)
    (address txHash : Bytes) (amount : UInt64) (context : Bytes)
    (now : UInt64) (write : Write) :
    (left.registerTxEx address txHash amount context now write).1 =
        (right.registerTxEx address txHash amount context now write).1 ∧
      SameViews
        (left.registerTxEx address txHash amount context now write).2
        (right.registerTxEx address txHash amount context now write).2 := by
  have slots : (left.data.find? address).getD ⟨address, [], 0, []⟩ =
      (right.data.find? address).getD ⟨address, [], 0, []⟩ :=
    same.balance address
  have stored : ∀ slot result,
      (left.storeSlot slot result write).1 =
          (right.storeSlot slot result write).1 ∧
        SameViews (left.storeSlot slot result write).2
          (right.storeSlot slot result write).2 := by
    intro slot result
    refine ⟨by cases write <;> rfl, .of_balance ?_ ?_⟩
    · intro other
      rw [getBalance_storeSlot, getBalance_storeSlot, same.balance]
    · rw [storeSlot_wallets, storeSlot_wallets]
      exact same.wallets
  have kept : ∀ slot : MultisigAddressData,
      SameViews { left with data := left.data.put slot }
        { right with data := right.data.put slot } := by
    intro slot
    refine .of_balance (fun other => ?_) same.wallets
    have balance : ∀ store : MultisigStore,
        getBalance { store with data := store.data.put slot } other =
          if slot.address = other then slot else store.getBalance other :=
      fun store => getBalance_put rfl other
    rw [balance, balance, same.balance]
  unfold MultisigStore.registerTxEx
  rw [slots]
  split
  · exact ⟨rfl, same⟩
  dsimp only
  split
  · split
    · split
      · exact ⟨rfl, kept _⟩
      · exact stored _ _
    · exact ⟨rfl, kept _⟩
  · split
    · exact ⟨rfl, kept _⟩
    · exact stored _ _

private theorem SameViews.registerWallet (same : SameViews left right)
    (wallet : MultisigWalletRecord) (write : Write) :
    (left.registerWallet wallet write).1 =
        (right.registerWallet wallet write).1 ∧
      SameViews (left.registerWallet wallet write).2
        (right.registerWallet wallet write).2 := by
  have wallets : putWallet wallet left.wallets =
      putWallet wallet right.wallets :=
    congrArg (putWallet wallet) same.wallets
  unfold MultisigStore.registerWallet
  split
  · exact ⟨rfl, same⟩
  · cases write with
    | done => exact ⟨rfl, .of_balance same.balance wallets⟩
    | failed file => exact ⟨rfl, .of_balance same.balance wallets⟩

theorem SameViews.answer (same : SameViews left right) (call : MultisigCall) :
    left.answer call = right.answer call := by
  cases call with
  | registerTx address txHash amount context now write =>
      exact congrArg MultisigAnswer.tx
        (same.registerTxEx address txHash amount context now write).1
  | registerWallet wallet write =>
      exact congrArg MultisigAnswer.wallet (same.registerWallet wallet write).1

theorem SameViews.call (same : SameViews left right) (call : MultisigCall) :
    (left.call call).1 = (right.call call).1 ∧
      SameViews (left.call call).2 (right.call call).2 := by
  cases call with
  | registerTx address txHash amount context now write =>
      obtain ⟨results, views⟩ :=
        same.registerTxEx address txHash amount context now write
      refine ⟨?_, views⟩
      unfold MultisigStore.call
      dsimp only
      rw [results]
  | registerWallet wallet write => exact same.registerWallet wallet write

/-- A call that leaves the views alone can be made again. -/
theorem atomicAt_iff_unchanged {call : MultisigCall} :
    AtomicAt self call ↔
      ((self.call call).1 = false → SameViews (self.call call).2 self) := by
  constructor
  · exact AtomicAt.unchanged
  · intro unchanged
    refine ⟨unchanged, ?_, ?_, ?_⟩
    · exact fun failed now => (unchanged failed).answer _
    · exact fun failed now => ((unchanged failed).call _).2
    · intro failed now success
      have again := ((unchanged failed).call (call.retried now)).1
      exact Succeeds.saved (Prod.ext (again.trans success) rfl)

/-! ### What a failed write leaves behind -/

theorem SlotChanged.transactions_ne {old slot : MultisigAddressData}
    {txHash : Bytes} {amount : UInt64}
    (changed : SlotChanged old txHash amount slot) :
    slot.transactions ≠ old.transactions := by
  cases changed with
  | @backfilled front back tx context _ parts _ zero positive =>
      dsimp only
      rw [parts]
      intro same
      have unchanged : ({ tx with amount, context } : MultisigTxRecord) = tx :=
        (List.cons.inj (List.append_cancel_left same)).1
      have amounts : amount = tx.amount :=
        congrArg MultisigTxRecord.amount unchanged.symm |>.symm
      rw [amounts, zero] at positive
      exact UInt64.lt_irrefl 0 positive
  | inserted => simp

theorem putWallet_eq_self_iff {wallet : MultisigWalletRecord}
    {wallets : List MultisigWalletRecord} :
    putWallet wallet wallets = wallets ↔
      wallets.find? (fun other => other.walletId = wallet.walletId) =
        some wallet := by
  induction wallets with
  | nil => simp [putWallet]
  | cons first others induction =>
      unfold putWallet
      by_cases same : first.walletId = wallet.walletId
      · simp [same, eq_comm]
      · simp [same, induction]

/-- A registration that is answered with failure had nothing to record, or its
write failed. -/
private theorem registerTxEx_unchanged_iff {address txHash context : Bytes}
    {amount now : UInt64} {write : Write} :
    ((self.call (.registerTx address txHash amount context now write)).1 =
        false →
      SameViews
        (self.call (.registerTx address txHash amount context now write)).2
        self) ↔
      (self.Records (.registerTx address txHash amount context now write) →
        write = .done) := by
  have spec := self.registerTxEx_spec address txHash amount context now write
  unfold MultisigStore.call Records
  dsimp only
  generalize self.registerTxEx address txHash amount context now write =
    answered at spec
  cases spec with
  | invalid unnamed =>
      refine iff_of_true (fun _ => .refl self) ?_
      rintro ⟨named, hashed, -⟩
      exact (unnamed.elim named hashed).elim
  | refused _ _ reason =>
      refine iff_of_true (fun _ => ?_) ?_
      · refine .of_balance (fun other => ?_) rfl
        rw [getBalance_put rfl, self.getBalance_address]
        split
        · rename_i same
          rw [same]
        · rfl
      · rintro ⟨-, -, fits, growing⟩
        rcases reason with ⟨-, full⟩ | ⟨-, before, tx, after, found, recorded⟩
        · exact (full fits).elim
        · exact (recorded (growing before tx after found)).elim
  | @recorded slot result named hashed success changed growing =>
      have fits : Fits (self.getBalance address) amount := by
        cases changed with
        | backfilled _ _ _ _ fits => exact fits
        | inserted _ _ _ fits => exact fits
      have records : address ≠ [] ∧ txHash ≠ [] ∧
          Fits (self.getBalance address) amount ∧ ∀ before tx after,
            findTx txHash (self.getBalance address).transactions =
              some (before, tx, after) → tx.amount = 0 ∧ 0 < amount :=
        ⟨named, hashed, fits, growing⟩
      cases write with
      | done =>
          refine iff_of_true (fun failed => ?_) fun _ => rfl
          exact absurd success (of_decide_eq_false failed)
      | failed left =>
          refine iff_of_false ?_ fun done => nomatch done records
          intro unchanged
          have views := (unchanged rfl).transactions address
          rw [getTransactions_eq, getTransactions_eq, getBalance_storeSlot,
            changed.address, self.getBalance_address, if_pos rfl] at views
          exact changed.transactions_ne views

private theorem registerWallet_unchanged_iff {wallet : MultisigWalletRecord}
    {write : Write} :
    ((self.call (.registerWallet wallet write)).1 = false →
      SameViews (self.call (.registerWallet wallet write)).2 self) ↔
      (self.Records (.registerWallet wallet write) → write = .done) := by
  unfold MultisigStore.call MultisigStore.registerWallet Records
  dsimp only
  split
  · rename_i unnamed
    refine iff_of_true (fun _ => .refl self) ?_
    rintro ⟨named, addressed, -⟩
    exact (unnamed.elim named addressed).elim
  rename_i valid
  obtain ⟨named, addressed⟩ := not_or.mp valid
  cases write with
  | done => exact iff_of_true (fun failed => nomatch failed) fun _ => rfl
  | failed left =>
      have same : SameViews
          (saveLocked ⟨self.data, putWallet wallet self.wallets⟩
            (.failed left)).1 self ↔
          putWallet wallet self.wallets = self.wallets :=
        ⟨SameViews.wallets, fun wallets => .of_balance (fun _ => rfl) wallets⟩
      rw [putWallet_eq_self_iff] at same
      constructor
      · rintro unchanged ⟨-, -, different⟩
        exact (different (same.mp (unchanged rfl))).elim
      · intro done _
        refine same.mpr (by_contra fun different => ?_)
        cases done ⟨named, addressed, different⟩

end MultisigStore

/-- A call is atomic if and only if it has nothing to record or its write
succeeds. -/
theorem multisig_calls_atomic_iff (self : MultisigStore)
    (call : MultisigCall) :
    self.AtomicAt call ↔ (self.Records call → call.write = .done) := by
  rw [MultisigStore.atomicAt_iff_unchanged]
  cases call with
  | registerTx address txHash amount context now write =>
      exact MultisigStore.registerTxEx_unchanged_iff
  | registerWallet wallet write =>
      exact MultisigStore.registerWallet_unchanged_iff

/-- A transaction whose first write fails is a duplicate when it is registered
again. -/
theorem failed_write_keeps_transaction :
    ¬ ∀ (self : MultisigStore) (call : MultisigCall), self.AtomicAt call := by
  intro always
  have atomic := always .new (.registerTx [97] [1] 30 [] 5 (.failed none))
  have again := atomic.sameAnswer rfl 6
  exact absurd again (by decide)

end XfoLws.Db
