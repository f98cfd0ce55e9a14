import XfoLws.Db.AccountIndexes
import XfoLws.Lib.Outcome

/-!
# Migration of old tables

The constructor of `storage_internal` converts every table of an older schema
that it finds, drops it, and then checks the blocks and the proofs of work.
A handle of a dropped table is closed, and LMDB may give it out again.
-/

namespace XfoLws.Db

/-! ## Old rows -/

namespace V0

/-- Original value, no lookahead. -/
structure Account where
  id : AccountId
  access : AccountTime
  address : AccountAddress
  key : SecretKey
  scanHeight : BlockId
  startHeight : BlockId
  creation : AccountTime
  flags : AccountFlags
deriving DecidableEq, Repr

/-- Original value, with no transaction fee. -/
structure Output where
  link : TransactionLink
  spendMeta : SpendMeta
  timestamp : ℕ
  unlockTime : ℕ
  txPrefixHash : Hash
  pub : PublicKey
  ringctMask : ℕ
  extra : ℕ
  paymentId : PaymentId
deriving DecidableEq, Repr

/-- Original value, with no subaddress. -/
structure Spend where
  link : TransactionLink
  image : KeyImage
  source : OutputId
  timestamp : ℕ
  unlockTime : ℕ
  mixinCount : ℕ
  length : ℕ
  paymentId : PaymentId
deriving DecidableEq, Repr

structure RequestInfo where
  address : AccountAddress
  key : SecretKey
  startHeight : BlockId
  creation : AccountTime
  creationFlags : AccountFlags
deriving DecidableEq, Repr

end V0

namespace V1

/-- Second value, with no subaddress. -/
structure Output extends V0.Output where
  fee : ℕ
deriving DecidableEq, Repr

end V1

/-! The old bytes are copied to the front of a zeroed row. -/

def V0.Account.current (user : V0.Account) : Db.Account :=
  { user with lookahead := ⟨0, 0⟩, lookaheadFail := 0 }

def V1.Output.current (out : V1.Output) : Db.Output :=
  { out with recipient := ⟨0, 0⟩ }

def V0.Output.current (out : V0.Output) : Db.Output :=
  { out with fee := 0, recipient := ⟨0, 0⟩ }

def V0.Spend.current (spend : V0.Spend) : Db.Spend :=
  { spend with sender := ⟨0, 0⟩ }

def V0.RequestInfo.current (info : V0.RequestInfo) : Db.RequestInfo :=
  { info with lookahead := ⟨0, 0⟩ }

/-- The value of a row, under the same key. -/
def currentRow {α β γ : Type} (current : β → γ) (row : α × β) : α × γ :=
  (row.1, current row.2)

/-! The comparators of the old tables read the shared fields only. -/

def accountsV0Key (row : AccountStatus × V0.Account) : ℕ ×ₗ ℕ :=
  accountsKey (currentRow V0.Account.current row)

def outputsV0Key (row : AccountId × V0.Output) :
    ℕ ×ₗ ℕ ×ₗ ℕ ×ₗ ℕ ×ₗ ℕ :=
  outputsKey (currentRow V0.Output.current row)

def outputsV1Key (row : AccountId × V1.Output) :
    ℕ ×ₗ ℕ ×ₗ ℕ ×ₗ ℕ ×ₗ ℕ :=
  outputsKey (currentRow V1.Output.current row)

def spendsV0Key (row : AccountId × V0.Spend) :
    ℕ ×ₗ ℕ ×ₗ ℕ ×ₗ ℕ ×ₗ ℕ ×ₗ ℕ :=
  spendsKey (currentRow V0.Spend.current row)

def requestsV0Key (row : Request × V0.RequestInfo) : ℕ ×ₗ ℕ :=
  requestsKey (currentRow V0.RequestInfo.current row)

/-! ## The stored tables -/

/-- The tables of the storage, the rows of the proof-of-work table under
`pows_previous_version`, and the old tables that are present. -/
structure Stored where
  db : Db
  previousPows : SortedRows BlockPow.id
  accountsV0 : Option (SortedRows accountsV0Key)
  outputsV0 : Option (SortedRows outputsV0Key)
  outputsV1 : Option (SortedRows outputsV1Key)
  spendsV0 : Option (SortedRows spendsV0Key)
  requestsV0 : Option (SortedRows requestsV0Key)

inductive OldTable where
  | accountsV0
  | outputsV0
  | outputsV1
  | spendsV0
  | requestsV0
deriving DecidableEq, Repr

inductive OpenFault where
  /-- `operator*` of a handle that could not be opened. -/
  | noHandle
  /-- `EINVAL`: the handle is closed. -/
  | badHandle
  /-- `MDB_CORRUPTED`: the rows have another size. -/
  | corrupted
  | badBlockchain
  /-- `MDB_NOTFOUND` for the genesis block. -/
  | notFound
deriving DecidableEq, Repr

/-- A write transaction with the handles of old tables that are open in it. -/
structure Migration where
  stored : Stored
  handles : List (ℕ × OldTable)

namespace Stored

def has (stored : Stored) : OldTable → Bool
  | .accountsV0 => stored.accountsV0.isSome
  | .outputsV0 => stored.outputsV0.isSome
  | .outputsV1 => stored.outputsV1.isSome
  | .spendsV0 => stored.spendsV0.isSome
  | .requestsV0 => stored.requestsV0.isSome

/-- The rows of an old table in the current schema. -/
def oldRows {ρ ρ' κ : Type} [LinearOrder κ] {oldKey : ρ → κ}
    (convert : ρ → ρ') (old : Option (SortedRows oldKey)) : List ρ' :=
  match old with
  | none => []
  | some old => old.rows.map convert

/-- The rows of an old table put into their current table. -/
def convertRows {ρ ρ' κ κ' : Type} [LinearOrder κ] [LinearOrder κ']
    {oldKey : ρ → κ} {key : ρ' → κ'} (convert : ρ → ρ')
    (old : Option (SortedRows oldKey)) (current : SortedRows key) :
    SortedRows key :=
  current.putAll (oldRows convert old)

/-- The loop of `convert_table` over an old table, which is dropped. -/
def convert (stored : Stored) : OldTable → Stored
  | .accountsV0 =>
      { stored with
        db := { stored.db with
          accounts := convertRows (currentRow V0.Account.current)
            stored.accountsV0 stored.db.accounts }
        accountsV0 := none }
  | .outputsV0 =>
      { stored with
        db := { stored.db with
          outputs := convertRows (currentRow V0.Output.current)
            stored.outputsV0 stored.db.outputs }
        outputsV0 := none }
  | .outputsV1 =>
      { stored with
        db := { stored.db with
          outputs := convertRows (currentRow V1.Output.current)
            stored.outputsV1 stored.db.outputs }
        outputsV1 := none }
  | .spendsV0 =>
      { stored with
        db := { stored.db with
          spends := convertRows (currentRow V0.Spend.current)
            stored.spendsV0 stored.db.spends }
        spendsV0 := none }
  | .requestsV0 =>
      { stored with
        db := { stored.db with
          requests := convertRows (currentRow V0.RequestInfo.current)
            stored.requestsV0 stored.db.requests }
        requestsV0 := none }

end Stored

section Open

variable (allot : List ℕ → ℕ) (used : List ℕ)

/-- `table.open`, or `MDB_NOTFOUND`.  `allot` is the handle that LMDB gives
next to those in use. -/
def Migration.openTable (txn : Migration) (table : OldTable) :
    Option ℕ × Migration :=
  if txn.stored.has table then
    let handle := allot (txn.handles.map Prod.fst ++ used)
    (some handle, { txn with handles := (handle, table) :: txn.handles })
  else (none, txn)

/-- `convert_table` for the row type of `table`. -/
def Migration.convertTable (txn : Migration) (table : OldTable)
    (handle : ℕ) : Except OpenFault Migration :=
  match txn.handles.find? fun opened => opened.1 = handle with
  | none => .error .badHandle
  | some opened =>
      if opened.2 ≠ table then .error .corrupted
      else .ok
        { stored := txn.stored.convert table
          handles := txn.handles.erase opened }

/-- One conversion of the constructor, and the handle it opened. -/
def Migration.upgrade (txn : Migration) (table : OldTable) :
    Except OpenFault (Option ℕ × Migration) :=
  match txn.openTable allot used table with
  | (none, txn) => .ok (none, txn)
  | (some handle, txn) => do
      let txn ← txn.convertTable table handle
      .ok (some handle, txn)

/-- The conversion of the old requests uses the handle of the old accounts. -/
def Migration.upgradeRequests (txn : Migration) (accounts : Option ℕ) :
    Except OpenFault Migration :=
  match txn.openTable allot used .requestsV0 with
  | (none, txn) => .ok txn
  | (some _, txn) =>
      match accounts with
      | none => .error .noHandle
      | some handle => txn.convertTable .requestsV0 handle

end Open

/-- `check_blockchain`. -/
def checkBlockchain (env : Env) (blocks : SortedRows BlockInfo.id) :
    Except OpenFault (SortedRows BlockInfo.id) :=
  match env.checkpoints.rows with
  | [] => .error .badBlockchain
  | (height, hash) :: later =>
      if height ≠ 0 then .error .badBlockchain
      else if blocks.rows = [] then
        .ok (blocks.addAll (⟨height, hash⟩ ::
          (later.getLast?.map fun point =>
            (⟨point.1, point.2⟩ : BlockInfo)).toList))
      else
        match blocks.find? 0 with
        | none => .error .notFound
        | some genesis =>
            if genesis.hash ≠ hash then .error .badBlockchain else .ok blocks

/-- `check_pow`: the rows under the current and under the previous version. -/
def checkPow (pows previous : SortedRows BlockPow.id) :
    SortedRows BlockPow.id × SortedRows BlockPow.id :=
  if pows.rows ≠ [] then (pows, previous)
  else if previous.rows ≠ [] then
    let migrated := previous.rows
    (bulkInsert pows migrated false, previous.eraseAll (migrated.map (·.id)))
  else (pows.add ⟨0, 0, ⟨0, 1⟩⟩, previous)

/-- The constructor of `storage_internal`, after it opened the current tables
under the handles `used`. -/
def openStorage (allot : List ℕ → ℕ) (used : List ℕ) (env : Env)
    (stored : Stored) : Except OpenFault Stored := do
  let txn : Migration := ⟨stored, []⟩
  let (_, txn) ← txn.upgrade allot used .outputsV0
  let (_, txn) ← txn.upgrade allot used .outputsV1
  let (_, txn) ← txn.upgrade allot used .spendsV0
  let (accounts, txn) ← txn.upgrade allot used .accountsV0
  let txn ← txn.upgradeRequests allot used accounts
  let stored := txn.stored
  let blocks ← checkBlockchain env stored.db.blocks
  let (pows, previousPows) := checkPow stored.db.pows stored.previousPows
  .ok { stored with db := { stored.db with blocks, pows }, previousPows }

/-! ## What opening does -/

namespace Stored

private theorem convert_absent {stored : Stored} {table : OldTable}
    (absent : stored.has table = false) : stored.convert table = stored := by
  cases stored
  cases table <;>
  · cases Option.isSome_eq_false_iff.mp absent |> Option.isNone_iff_eq_none.mp
    rfl

/-- All conversions of the constructor. -/
def converted (stored : Stored) : Stored :=
  ((((stored.convert .outputsV0).convert .outputsV1).convert
    .spendsV0).convert .accountsV0).convert .requestsV0

end Stored

section Open

variable {allot : List ℕ → ℕ} {used : List ℕ}

/-- No handle of an old table stays open, so each of them gets the same. -/
private theorem upgrade_eq (stored : Stored) (table : OldTable) :
    Migration.upgrade allot used ⟨stored, []⟩ table =
      .ok (if stored.has table then some (allot used) else none,
        ⟨stored.convert table, []⟩) := by
  unfold Migration.upgrade Migration.openTable
  by_cases present : stored.has table = true
  · rw [if_pos present, if_pos present]
    simp [Migration.convertTable, bind, Except.bind]
  · rw [if_neg present, if_neg present]
    have absent := Bool.eq_false_iff.mpr present
    rw [Stored.convert_absent absent]

private theorem upgradeRequests_eq (stored : Stored) (accounts : Bool) :
    Migration.upgradeRequests allot used ⟨stored, []⟩
        (if accounts then some (allot used) else none) =
      if stored.has .requestsV0 ∧ accounts = false then .error .noHandle
      else .ok ⟨stored.convert .requestsV0, []⟩ := by
  unfold Migration.upgradeRequests Migration.openTable
  by_cases present : stored.has .requestsV0 = true
  · rw [if_pos present]
    cases accounts <;> simp [Migration.convertTable, present]
  · have absent := Bool.eq_false_iff.mpr present
    rw [if_neg present, Stored.convert_absent absent]
    simp [absent]

theorem openStorage_eq (allot : List ℕ → ℕ) (used : List ℕ) (env : Env)
    (stored : Stored) :
    openStorage allot used env stored =
      if stored.has .requestsV0 ∧ stored.has .accountsV0 = false then
        .error .noHandle
      else (fun blocks =>
        let (pows, previousPows) :=
          checkPow stored.db.pows stored.previousPows
        { stored.converted with
          db := { stored.converted.db with blocks, pows }
          previousPows }) <$> checkBlockchain env stored.db.blocks := by
  unfold openStorage
  simp only [upgrade_eq, bind, Except.bind]
  have accounts : (((stored.convert .outputsV0).convert .outputsV1).convert
      .spendsV0).has .accountsV0 = stored.has .accountsV0 := rfl
  have requests : ((((stored.convert .outputsV0).convert .outputsV1).convert
      .spendsV0).convert .accountsV0).has .requestsV0 =
        stored.has .requestsV0 := rfl
  rw [accounts, upgradeRequests_eq, requests]
  by_cases missing : stored.has .requestsV0 = true ∧
      stored.has .accountsV0 = false
  · rw [if_pos missing, if_pos missing]
  · rw [if_neg missing, if_neg missing]
    have blocks : stored.converted.db.blocks = stored.db.blocks := rfl
    unfold Stored.converted at blocks
    dsimp only
    rw [blocks]
    cases checkBlockchain env stored.db.blocks <;> rfl

end Open

/-! ## Nothing is lost -/

/-- The rows of both versions, or the first row of a new table. -/
theorem checkPow_migrates_iff (pows previous : SortedRows BlockPow.id) :
    ((∀ row, row ∈ (checkPow pows previous).1 ↔
        row ∈ pows ∨ row ∈ previous ∨
          (pows.rows = [] ∧ previous.rows = [] ∧ row = ⟨0, 0, ⟨0, 1⟩⟩)) ∧
      ∀ row, row ∉ (checkPow pows previous).2) ↔
    pows.rows = [] ∨ previous.rows = [] := by
  unfold checkPow
  by_cases stored : pows.rows = []
  · have none (row : BlockPow) : row ∉ pows := by
      rw [← SortedRows.mem_rows, stored]
      exact List.not_mem_nil
    refine iff_of_true ?_ (.inl stored)
    rw [if_neg (not_not.mpr stored)]
    by_cases older : previous.rows = []
    · have neither (row : BlockPow) : row ∉ previous := by
        rw [← SortedRows.mem_rows, older]
        exact List.not_mem_nil
      rw [if_neg (not_not.mpr older)]
      refine ⟨fun row => ?_, neither⟩
      rw [SortedRows.mem_add]
      constructor
      · rintro (member | ⟨rfl, -⟩)
        · exact .inl member
        · exact .inr (.inr ⟨stored, older, rfl⟩)
      · rintro (member | member | ⟨-, -, rfl⟩)
        · exact .inl member
        · exact absurd member (neither row)
        · exact .inr ⟨rfl, fun row member => absurd member (none row)⟩
    · rw [if_pos older]
      constructor
      · intro row
        dsimp only
        rw [bulkInsert_keep, SortedRows.mem_addAll]
        · rw [SortedRows.mem_rows]
          exact or_congr_right (or_iff_left fun new => older new.2.1).symm
        · intro first known second listed sameKey
          exact SortedRows.eq_of_key_eq (known.resolve_left (none first))
            listed sameKey
      · intro row member
        obtain ⟨listed, kept⟩ := SortedRows.mem_eraseAll.mp member
        exact kept (List.mem_map_of_mem listed)
  · -- rows of the current version keep the older ones where they are
    rw [if_pos stored, or_iff_right stored]
    constructor
    · rintro ⟨-, gone⟩
      exact List.eq_nil_iff_forall_not_mem.mpr gone
    · intro older
      have neither (row : BlockPow) : row ∉ previous := by
        rw [← SortedRows.mem_rows, older]
        exact List.not_mem_nil
      refine ⟨fun row => ⟨.inl, ?_⟩, neither⟩
      rintro (member | member | ⟨none, -, -⟩)
      · exact member
      · exact absurd member (neither row)
      · exact absurd none stored

/-- Each current table has the rows it had and those of its old tables. -/
structure Migrated (before after : Stored) : Prop where
  accounts : ∀ row, row ∈ after.db.accounts ↔
    row ∈ before.db.accounts ∨
      row ∈ Stored.oldRows (currentRow V0.Account.current) before.accountsV0
  outputs : ∀ row, row ∈ after.db.outputs ↔
    row ∈ before.db.outputs ∨
      row ∈ Stored.oldRows (currentRow V0.Output.current) before.outputsV0 ++
        Stored.oldRows (currentRow V1.Output.current) before.outputsV1
  spends : ∀ row, row ∈ after.db.spends ↔
    row ∈ before.db.spends ∨
      row ∈ Stored.oldRows (currentRow V0.Spend.current) before.spendsV0
  requests : ∀ row, row ∈ after.db.requests ↔
    row ∈ before.db.requests ∨
      row ∈ Stored.oldRows (currentRow V0.RequestInfo.current)
        before.requestsV0
  pows : ∀ row, row ∈ after.db.pows ↔
    row ∈ before.db.pows ∨ row ∈ before.previousPows ∨
      (before.db.pows.rows = [] ∧ before.previousPows.rows = [] ∧
        row = ⟨0, 0, ⟨0, 1⟩⟩)
  /-- The old tables are gone. -/
  dropped : ∀ table, after.has table = false
  previousPows : ∀ row, row ∉ after.previousPows
  /-- The other tables stay. -/
  others : after.db =
    { before.db with
      blocks := after.db.blocks
      pows := after.db.pows
      accounts := after.db.accounts
      outputs := after.db.outputs
      spends := after.db.spends
      requests := after.db.requests }

/-- Rows under one key are equal, over a table and the old rows for it. -/
def Agrees {ρ κ : Type} [LinearOrder κ] {key : ρ → κ} (table : SortedRows key)
    (rows : List ρ) : Prop :=
  ∀ stored, stored ∈ table ∨ stored ∈ rows →
    ∀ row ∈ rows, key stored = key row → stored = row

/-- When opening loses nothing. -/
structure Migrates (env : Env) (before : Stored) : Prop where
  /-- There are old accounts beside old requests. -/
  requestsHandle : before.requestsV0 = none ∨ before.accountsV0 ≠ none
  chain : ∃ blocks, checkBlockchain env before.db.blocks = .ok blocks
  accounts : Agrees before.db.accounts
    (Stored.oldRows (currentRow V0.Account.current) before.accountsV0)
  outputs : Agrees before.db.outputs
    (Stored.oldRows (currentRow V0.Output.current) before.outputsV0 ++
      Stored.oldRows (currentRow V1.Output.current) before.outputsV1)
  spends : Agrees before.db.spends
    (Stored.oldRows (currentRow V0.Spend.current) before.spendsV0)
  requests : Agrees before.db.requests
    (Stored.oldRows (currentRow V0.RequestInfo.current) before.requestsV0)
  /-- One version of the proof-of-work rows is empty. -/
  pows : before.db.pows.rows = [] ∨ before.previousPows.rows = []

/-- Opening the storage moves every old row into its current table if and only
if old requests come with old accounts, the blocks are accepted, no two rows
share a key and only one version of proof-of-work rows is there. -/
theorem storage_migrates_iff (allot : List ℕ → ℕ) (used : List ℕ) (env : Env)
    (before : Stored) :
    (∃ after, openStorage allot used env before = .ok after ∧
      Migrated before after) ↔
    Migrates env before := by
  rw [openStorage_eq]
  have outputs : before.converted.db.outputs = before.db.outputs.putAll
      (Stored.oldRows (currentRow V0.Output.current) before.outputsV0 ++
        Stored.oldRows (currentRow V1.Output.current) before.outputsV1) :=
    (List.foldl_append ..).symm
  have handle : ¬ (before.has .requestsV0 = true ∧
      before.has .accountsV0 = false) ↔
      (before.requestsV0 = none ∨ before.accountsV0 ≠ none) := by
    unfold Stored.has
    cases before.requestsV0 <;> cases before.accountsV0 <;> simp
  constructor
  · rintro ⟨after, opened, migrated⟩
    by_cases missing : before.has .requestsV0 = true ∧
        before.has .accountsV0 = false
    · rw [if_pos missing] at opened
      cases opened
    rw [if_neg missing] at opened
    obtain ⟨blocks, checked, rfl⟩ := Outcome.map_eq_ok.mp opened
    refine ⟨handle.mp missing, ⟨blocks, checked⟩,
      SortedRows.mem_putAll_union_iff.mp migrated.accounts,
      SortedRows.mem_putAll_union_iff.mp ?_,
      SortedRows.mem_putAll_union_iff.mp migrated.spends,
      SortedRows.mem_putAll_union_iff.mp migrated.requests,
      (checkPow_migrates_iff _ _).mp ⟨migrated.pows, migrated.previousPows⟩⟩
    rw [← outputs]
    exact migrated.outputs
  · rintro ⟨requestsHandle, ⟨blocks, checked⟩, accounts, agrees, spends,
      requests, pows⟩
    rw [if_neg (handle.mpr requestsHandle), checked]
    obtain ⟨migrated, gone⟩ := (checkPow_migrates_iff _ _).mpr pows
    refine ⟨_, rfl, ⟨SortedRows.mem_putAll_union_iff.mpr accounts, ?_,
      SortedRows.mem_putAll_union_iff.mpr spends,
      SortedRows.mem_putAll_union_iff.mpr requests, migrated, ?_, gone, rfl⟩⟩
    · dsimp only
      rw [outputs]
      exact SortedRows.mem_putAll_union_iff.mpr agrees
    · intro table
      cases table <;> rfl

/-- A storage with one old request and no old accounts. -/
private def oldRequest : Stored where
  db := sampleDb
  previousPows := .empty
  accountsV0 := none
  outputsV0 := none
  outputsV1 := none
  spendsV0 := none
  requestsV0 := some (SortedRows.empty.put (.create, ⟨⟨1, 2⟩, 3, 4, 5, 0⟩))

/-- Old requests without old accounts make opening fail. -/
theorem storage_open_needs_old_accounts :
    ¬ ∀ (allot : List ℕ → ℕ) (used : List ℕ) (env : Env) (before : Stored),
      (∃ blocks, checkBlockchain env before.db.blocks = .ok blocks) →
      Agrees before.db.requests (Stored.oldRows
        (currentRow V0.RequestInfo.current) before.requestsV0) →
      ∃ after, openStorage allot used env before = .ok after ∧
        Migrated before after := by
  intro always
  obtain ⟨after, opened, -⟩ := always (fun used => used.length) []
    sampleEnv oldRequest ⟨_, rfl⟩ (by
      intro stored known row listed _
      obtain rfl := List.mem_singleton.mp listed
      rcases known with never | other
      · exact absurd never (SortedRows.not_mem_empty stored)
      · exact List.mem_singleton.mp other)
  cases opened

end XfoLws.Db
