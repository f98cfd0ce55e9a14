import XfoLws.Scanner.Isolation
import XfoLws.Wire.AccountBytes

/-!
# Accounts of remote scanners

A remote scanner sends its accounts back in the bytes of `Wire.AccountBytes`.
Scanning only stores payment ids of three shapes, and an identity mask where
an output is not ringct; of these rows, the bytes keep all but the identity
masks and the short payment ids of spends.
-/

namespace XfoLws.Scanner

open Db Wire

/-! ## Rows of scanned accounts -/

/-- No payment id, a short one with nothing behind it, or a long one. -/
def Payment.Shaped (payment : Payment) : Prop :=
  payment = ⟨0, ⟨0, 0⟩⟩ ∨ (∃ short, payment = ⟨8, ⟨short, 0⟩⟩) ∨
    payment.length = 32

theorem Payment.Shaped.length_lt {payment : Payment} (shaped : payment.Shaped) :
    payment.length < 64 := by
  rcases shaped with rfl | ⟨short, rfl⟩ | long
  · decide
  · exact show 8 < 64 by decide
  · omega

/-- The ringct flag is set unless the mask is the identity. -/
def Receipt.Masked (receipt : Receipt) : Prop :=
  receipt.ext.ringct = false → receipt.ringctMask = rctIdentity

/-- What scanning leaves in the rows of an account. -/
structure RowsShaped (user : LwsAccount) : Prop where
  spends : ∀ spend ∈ user.spends,
    Payment.Shaped ⟨spend.length, spend.paymentId⟩
  outputs : ∀ output ∈ user.outputs, ∃ (payment : Payment) (flags : Extra),
    payment.Shaped ∧ output.extra = pack flags payment.length ∧
      output.paymentId = payment.value ∧
      (flags.ringct = false → output.ringctMask = rctIdentity)

theorem payment_shaped (tx : Transaction) : tx.payment.Shaped := by
  unfold Transaction.payment
  split
  · exact .inr (.inr rfl)
  · exact .inl rfl

theorem settle_shaped {crypto : Crypto} {tx : Transaction}
    {activeDerived : KeyDerivation} {payment : Payment}
    (shaped : payment.Shaped) :
    (tx.settle crypto activeDerived payment).Shaped := by
  unfold Transaction.settle
  cases tx.extraNonce with
  | none => exact shaped
  | some nonce =>
      dsimp only
      split
      · exact shaped
      · rename_i absent
        cases nonce.encryptedPaymentId with
        | none => exact shaped
        | some short =>
            rcases shaped with rfl | ⟨old, rfl⟩ | long
            · exact .inr (.inl ⟨_, rfl⟩)
            · exact absurd (show (8 : ℕ) ≠ 0 by decide) absent
            · omega

theorem settled_shaped {crypto : Crypto} {tx : Transaction} {payment : Payment}
    (shaped : payment.Shaped) (receipts : List Receipt) :
    (tx.settled crypto payment receipts).Shaped := by
  cases receipts with
  | nil => exact shaped
  | cons first receipts => exact settle_shaped shaped

namespace Scan

variable {scan : Scan}

/-- Outputs of version 2 transactions are ringct; the others get the identity
mask. -/
theorem decode_masked {ext flags : Extra} {out : TxOut}
    {activeDerived : KeyDerivation} {index amount mask : ℕ}
    (decoded : scan.decode ext out activeDerived index =
      .ok (some (amount, mask, flags)))
    (plain : flags.ringct = false) : mask = rctIdentity := by
  unfold decode at decoded
  split at decoded
  · obtain ⟨commitment, -, decoded⟩ := Outcome.bind_eq_ok.mp decoded
    obtain ⟨info, -, decoded⟩ := Outcome.bind_eq_ok.mp decoded
    split at decoded
    · cases decoded
    · cases decoded
      cases plain
  · split at decoded
    · cases decoded
      rfl
    · cases decoded
      rfl

theorem receive_masked {user : LwsAccount} {key : PublicKey}
    {derived : KeyDerivation} {additional : List KeyDerivation} {ext : Extra}
    {mixin : ℕ} {out : TxOut} {index : ℕ} {before after : SubaddressReader}
    {receipt : Receipt}
    (received : scan.receive user key derived additional ext mixin out index
      before = .ok (some receipt, after)) : receipt.Masked := by
  unfold receive at received
  split at received
  · cases received
  split at received
  · cases received
  obtain ⟨⟨found, reader⟩, -, received⟩ := Outcome.bind_eq_ok.mp received
  cases found with
  | none => cases received
  | some found =>
      obtain ⟨decoded, opened, received⟩ := Outcome.bind_eq_ok.mp received
      cases decoded with
      | none => cases received
      | some decoded =>
          obtain ⟨amount, mask, flags⟩ := decoded
          obtain ⟨low, -, received⟩ := Outcome.bind_eq_ok.mp received
          obtain ⟨index, -, received⟩ := Outcome.bind_eq_ok.mp received
          cases received
          exact decode_masked opened

theorem receipts_masked {user : LwsAccount} {key : PublicKey}
    {derived : KeyDerivation} {additional : List KeyDerivation} {mixin : ℕ}
    (outs : List (TxOut × ℕ)) (ext : Extra) (reader : SubaddressReader) :
    ∀ receipt ∈ (scan.receipts user key derived additional mixin outs ext
      reader).1, receipt.Masked := by
  induction outs generalizing ext reader with
  | nil => exact List.forall_mem_nil _
  | cons out outs induction =>
      rw [receipts]
      cases received : scan.receive user key derived additional ext mixin
          out.1 out.2 reader with
      | error thrown => exact List.forall_mem_nil _
      | ok result =>
          obtain ⟨receipt, reader⟩ := result
          cases receipt with
          | none => exact induction ext reader
          | some receipt =>
              exact List.forall_mem_cons.mpr
                ⟨receive_masked received, induction receipt.ext reader⟩

theorem findings_masked (key : PublicKey) (user : LwsAccount)
    (reader : SubaddressReader) :
    ∀ receipt ∈ (scan.findings key user reader).receipts, receipt.Masked := by
  unfold findings
  split
  · exact nofun
  cases scan.crypto.generateKeyDerivation key user.viewKey with
  | none => exact nofun
  | some derived =>
      cases inputFlags scan.tx.vin ⟨false, false⟩ 0 with
      | mk flags thrown =>
          cases thrown with
          | some thrown => exact nofun
          | none => exact receipts_masked _ _ _

theorem freshReceipts_subset (pubs : List PublicKey)
    (receipts : List Receipt) : freshReceipts pubs receipts ⊆ receipts := by
  induction receipts generalizing pubs with
  | nil => exact List.nil_subset _
  | cons receipt receipts induction =>
      rw [freshReceipts]
      split
      · exact List.subset_cons_of_subset _ (induction pubs)
      · exact List.cons_subset_cons _ (induction _)

/-- One account keeps its rows in shape. -/
theorem record_shaped {user : LwsAccount} {payment : Payment}
    {members : List RingMember} {receipts : List Receipt}
    (rows : RowsShaped user) (shaped : payment.Shaped)
    (masked : ∀ receipt ∈ receipts, receipt.Masked) :
    RowsShaped (scan.record user payment members receipts) := by
  obtain ⟨outputs, spends⟩ := Prod.mk.inj
    (record_rows user payment members receipts)
  constructor
  · intro spend stored
    rw [spends] at stored
    rcases List.mem_append.mp stored with old | new
    · exact rows.spends spend old
    · obtain ⟨member, -, rfl⟩ := List.mem_map.mp new
      exact shaped
  · intro output stored
    rw [outputs] at stored
    rcases List.mem_append.mp stored with old | new
    · exact rows.outputs output old
    · obtain ⟨receipt, fresh, rfl⟩ := List.mem_map.mp new
      exact ⟨_, receipt.ext, settled_shaped shaped receipts, rfl, rfl,
        masked receipt (freshReceipts_subset _ _ fresh)⟩

theorem accounts_shaped {key : PublicKey} {users : List LwsAccount}
    {shared : Shared} (rederived : scan.Rederived shared)
    (shaped : shared.payment.Shaped) (rows : ∀ user ∈ users, RowsShaped user) :
    ∀ user ∈ (scan.accounts key users shared).1, RowsShaped user := by
  induction users generalizing shared with
  | nil => exact nofun
  | cons first users induction =>
      obtain ⟨firstRows, otherRows⟩ := List.forall_mem_cons.mp rows
      obtain ⟨recorded, payment, -⟩ := account_eq key first rederived
      have kept := account_rederived key first rederived
      have head : RowsShaped (scan.account key first shared).1.1 := by
        rw [recorded]
        exact record_shaped firstRows shaped (findings_masked key first _)
      rw [accounts]
      cases passed : scan.account key first shared with
      | mk result thrown =>
          rw [passed] at head payment kept
          cases thrown with
          | some thrown => exact List.forall_mem_cons.mpr ⟨head, otherRows⟩
          | none =>
              have next : result.2.payment.Shaped :=
                payment ▸ settled_shaped shaped _
              exact List.forall_mem_cons.mpr
                ⟨head, induction kept next otherRows⟩

theorem transaction_shaped {users : List LwsAccount}
    (reader : SubaddressReader) (rows : ∀ user ∈ users, RowsShaped user) :
    ∀ user ∈ (scan.transaction users reader).1, RowsShaped user := by
  unfold transaction
  split
  · exact rows
  cases scan.tx.txPubKey with
  | none => exact rows
  | some key => exact accounts_shaped (.inl rfl) (payment_shaped _) rows

end Scan

/-! ## Accounts that are sent -/

/-- An account as it leaves a scanner: without rows at first, then with those
of confirmed transactions. -/
inductive Built : LwsAccount → Prop where
  | fresh {user : LwsAccount} (outputs : user.outputs = [])
      (spends : user.spends = []) : Built user
  | scanned {users : List LwsAccount} (scan : Scan)
      (confirmed : scan.height ≠ BlockId.txpool) (reader : SubaddressReader)
      (each : ∀ user ∈ users, Built user) {user : LwsAccount}
      (member : user ∈ (scan.transaction users reader).1) : Built user

theorem Built.rowsShaped {user : LwsAccount} (built : Built user) :
    RowsShaped user := by
  induction built with
  | fresh outputs spends =>
      refine ⟨?_, ?_⟩
      · rw [spends]
        exact nofun
      · rw [outputs]
        exact nofun
  | scanned scan confirmed reader each member induction =>
      exact Scan.transaction_shaped reader induction _ member

/-- The rows that the bytes keep: every output is ringct, and no spend has a
short payment id. -/
structure Transparent (user : LwsAccount) : Prop where
  outputs : ∀ output ∈ user.outputs, (unpack output.extra).1.ringct = true
  spends : ∀ spend ∈ user.spends, spend.length ≠ 8

theorem reloadSpend_eq_iff {spend : Spend}
    (shaped : Payment.Shaped ⟨spend.length, spend.paymentId⟩) :
    reloadSpend spend = spend ↔ spend.length ≠ 8 := by
  obtain ⟨link, image, source, timestamp, unlockTime, mixinCount, length,
    paymentId, sender⟩ := spend
  simp only [Payment.Shaped, Payment.mk.injEq] at shaped
  rcases shaped with ⟨rfl, rfl⟩ | ⟨short, rfl, rfl⟩ | rfl <;>
    simp [reloadSpend]

theorem reloadOutput_eq_iff {output : Output} {payment : Payment}
    {flags : Extra} (shaped : payment.Shaped)
    (extra : output.extra = pack flags payment.length)
    (paymentId : output.paymentId = payment.value)
    (masked : flags.ringct = false → output.ringctMask = rctIdentity) :
    reloadOutput output = output ↔
      (unpack output.extra).1.ringct = true := by
  obtain ⟨link, spendMeta, timestamp, unlockTime, txPrefixHash, pub, ringctMask,
    _, _, fee, recipient⟩ := output
  subst extra paymentId
  dsimp only at masked
  have unpacked := unpack_pack flags shaped.length_lt
  have kept : (if payment.length = 32 then payment.value
      else if payment.length = 8 then ⟨payment.value.short, 0⟩
      else ⟨0, 0⟩) = payment.value ∧
      (if payment.length = 32 ∨ payment.length = 8 then payment.length
        else 0) = payment.length := by
    rcases shaped with rfl | ⟨short, rfl⟩ | long
    · decide
    · exact ⟨rfl, rfl⟩
    · rw [if_pos long, if_pos (.inl long)]
      exact ⟨rfl, rfl⟩
  simp only [reloadOutput, unpacked, kept.1, kept.2, Output.mk.injEq, true_and,
    and_true]
  cases ringct : flags.ringct with
  | true => simp
  | false =>
      rw [masked ringct]
      decide

private theorem map_eq_self {α : Type} {image : α → α} {items : List α} :
    items.map image = items ↔ ∀ item ∈ items, image item = item := by
  conv_lhs => rhs; rw [← List.map_id items]
  exact List.map_eq_map_iff

theorem reloadAccount_eq_iff {user : LwsAccount} (rows : RowsShaped user) :
    reloadAccount user = user ↔ Transparent user := by
  have spends : user.spends.map reloadSpend = user.spends ↔
      ∀ spend ∈ user.spends, spend.length ≠ 8 := by
    rw [map_eq_self]
    exact forall₂_congr fun spend stored =>
      reloadSpend_eq_iff (rows.spends spend stored)
  have outputs : user.outputs.map reloadOutput = user.outputs ↔
      ∀ output ∈ user.outputs, (unpack output.extra).1.ringct = true := by
    rw [map_eq_self]
    refine forall₂_congr fun output stored => ?_
    obtain ⟨payment, flags, shaped, extra, paymentId, masked⟩ :=
      rows.outputs output stored
    exact reloadOutput_eq_iff shaped extra paymentId masked
  constructor
  · intro same
    exact ⟨outputs.mp (congrArg LwsAccount.outputs same),
      spends.mp (congrArg LwsAccount.spends same)⟩
  · intro transparent
    unfold reloadAccount
    rw [spends.mpr transparent.spends, outputs.mpr transparent.outputs]

/-- A scanned account survives being sent exactly when no vector is too long
for its count, every output is ringct and no spend has a short payment id. -/
theorem accountBytes_transparent_iff {user : LwsAccount} (built : Built user)
    (fits : AccountFits user) :
    (∃ bytes, writeAccountBytes user = .ok bytes ∧
      ∀ rest, readAccountBytes (bytes ++ rest) = .ok (user, rest)) ↔
      Countable user ∧ Transparent user := by
  rw [← reloadAccount_eq_iff built.rowsShaped, ← writeAccountBytes_isOk fits]
  constructor
  · rintro ⟨bytes, written, read⟩
    refine ⟨⟨bytes, written⟩, ?_⟩
    have back := readAccountBytes_written fits written []
    rw [read []] at back
    exact (Prod.mk.inj (Except.ok.inj back)).1.symm
  · rintro ⟨⟨bytes, written⟩, same⟩
    refine ⟨bytes, written, fun rest => ?_⟩
    rw [readAccountBytes_written fits written rest, same]

/-! ## Outputs before ringct -/

/-- The receiver of a transaction after it was scanned alone. -/
def received (scan : Scan) : LwsAccount :=
  (scan.transaction [receiverAccount] (.new none 0)).1.headD receiverAccount

/-- A miner's reward in a version 1 transaction. -/
def rewardScan : Scan :=
  { paymentScan with
    tx :=
      { paymentScan.tx with
        version := 1
        vin := [.gen]
        extraNonce := none
        vout := [⟨600, some 214, none⟩] } }

theorem received_built {scan : Scan} (confirmed : scan.height ≠ BlockId.txpool)
    (one : (scan.transaction [receiverAccount] (.new none 0)).1.length = 1) :
    Built (received scan) := by
  refine .scanned scan confirmed (.new none 0) (?_ : ∀ user ∈ [receiverAccount], _)
    ?_
  · intro user member
    obtain rfl := List.mem_singleton.mp member
    exact .fresh rfl rfl
  · obtain ⟨user, same⟩ := List.length_eq_one_iff.mp one
    unfold received
    rw [same]
    exact List.mem_singleton_self user

private theorem received_fits {scan : Scan} {output : Output}
    (rows : (received scan).rows = ([output], []))
    (immutable : (received scan).immutable = receiverAccount.immutable)
    (height : (received scan).height = receiverAccount.height)
    (spendable : (received scan).spendable =
      [(output.spendMeta.id, output.recipient)])
    (pubs : (received scan).pubs = [output.pub]) (fits : OutputFits output) :
    AccountFits (received scan) := by
  obtain ⟨outputs, spends⟩ := Prod.mk.inj rows
  constructor
  · rw [LwsAccount.id, immutable]
    decide
  · rw [LwsAccount.dbAddress, immutable]
    decide
  · rw [LwsAccount.dbAddress, immutable]
    decide
  · rw [LwsAccount.viewKey, immutable]
    decide
  · rw [height]
    decide
  · rw [spendable]
    exact List.forall_mem_singleton.mpr ⟨fits.id, fits.recipient⟩
  · rw [pubs]
    exact List.forall_mem_singleton.mpr fits.pub
  · rw [spends]
    exact nofun
  · rw [outputs]
    exact List.forall_mem_singleton.mpr fits

/-- The receiver's output under ringct survives with its payment id. -/
theorem payment_transparent :
    ∃ bytes, writeAccountBytes (received paymentScan) = .ok bytes ∧
      ∀ rest, readAccountBytes (bytes ++ rest) =
        .ok (received paymentScan, rest) := by
  refine (accountBytes_transparent_iff
    (received_built (by decide) (by decide)) ?_).mpr ⟨?_, ?_⟩
  · refine @received_fits _
      (paymentScan.output ⟨8, ⟨20, 0⟩⟩
        ⟨⟨14, 10, .primary⟩, ⟨0, 41⟩, 16, 1, 1, 215, 2000, ⟨false, true⟩⟩)
      (by decide) (by decide) (by decide) (by decide) (by decide) ?_
    constructor <;> decide
  · constructor <;> decide
  · constructor <;> decide

/-- The identity mask of the reward comes back as zero. -/
theorem reward_mask_lost :
    ¬ ∀ user, Built user → AccountFits user →
      ∃ bytes, writeAccountBytes user = .ok bytes ∧
        ∀ rest, readAccountBytes (bytes ++ rest) = .ok (user, rest) := by
  intro always
  have fits : AccountFits (received rewardScan) := by
    refine @received_fits _
      (rewardScan.output ⟨0, ⟨0, 0⟩⟩
        ⟨⟨14, 10, .primary⟩, ⟨600, 40⟩, 600, 0, 0, 214, rctIdentity,
          ⟨true, false⟩⟩)
      (by decide) (by decide) (by decide) (by decide) (by decide) ?_
    constructor <;> decide
  obtain ⟨bytes, written, read⟩ := always (received rewardScan)
    (received_built (by decide) (by decide)) fits
  have back := readAccountBytes_written fits written []
  rw [read []] at back
  have same := (Prod.mk.inj (Except.ok.inj back)).1
  exact absurd (congrArg LwsAccount.outputs same) (by decide)

end XfoLws.Scanner
