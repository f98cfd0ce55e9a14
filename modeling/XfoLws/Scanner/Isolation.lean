import XfoLws.Db.AccountIndexes
import XfoLws.Scanner.Independence

/-!
# When the accounts ahead do not show

Two runs over a transaction, on a whole list of accounts and on one of them
alone, give that account the same rows unless an account ahead of it decrypts
the payment id first, refreshes a stale subaddress snapshot or throws.
-/

namespace XfoLws.Scanner

open Db

namespace Scan

variable {scan : Scan}

/-! ## Rows and payment ids -/

theorem addOut_fresh (scan : Scan) {user : LwsAccount} {receipt : Receipt}
    (payment : Payment) (fresh : receipt.pub ∉ user.pubs) :
    ((user.addOut (scan.output payment receipt)).1.outputs =
        user.outputs ++ [scan.output payment receipt]) ∧
      (user.addOut (scan.output payment receipt)).1.spends = user.spends ∧
      ∀ pub, pub ∈ (user.addOut (scan.output payment receipt)).1.pubs ↔
        pub ∈ receipt.pub :: user.pubs := by
  have absent : ¬ (user.pubs.dropWhile (· <
      (scan.output payment receipt).pub)).head? =
        some (scan.output payment receipt).pub :=
    fun taken => fresh (LwsAccount.addOut_taken.mp taken)
  unfold LwsAccount.addOut
  rw [if_neg absent]
  refine ⟨rfl, rfl, fun pub => ?_⟩
  exact (List.mem_orderedInsert _).trans List.mem_cons.symm

theorem addOut_duplicate {user : LwsAccount} {receipt : Receipt}
    (payment : Payment) (taken : receipt.pub ∈ user.pubs) :
    (user.addOut (scan.output payment receipt)).1 = user := by
  have found : (user.pubs.dropWhile (· <
      (scan.output payment receipt).pub)).head? =
        some (scan.output payment receipt).pub :=
    LwsAccount.addOut_taken.mpr taken
  unfold LwsAccount.addOut
  rw [if_pos found]

/-- The fresh receipts become output rows, in order. -/
theorem addAll_rows (payment : Payment) (receipts : List Receipt)
    {user : LwsAccount} {pubs : List PublicKey}
    (samePubs : ∀ pub, pub ∈ user.pubs ↔ pub ∈ pubs) :
    (receipts.foldl (fun user receipt =>
        (user.addOut (scan.output payment receipt)).1) user).rows =
      (user.outputs ++
        (freshReceipts pubs receipts).map (scan.output payment),
        user.spends) := by
  induction receipts generalizing user pubs with
  | nil => simp [freshReceipts, LwsAccount.rows]
  | cons receipt receipts induction =>
      rw [List.foldl_cons]
      by_cases taken : receipt.pub ∈ pubs
      · rw [addOut_duplicate payment ((samePubs _).mpr taken),
          induction samePubs, freshReceipts, if_pos taken]
      · obtain ⟨outputs, spends, members⟩ := addOut_fresh scan payment
          (mt (samePubs _).mp taken)
        have nextPubs : ∀ pub, pub ∈ (user.addOut
            (scan.output payment receipt)).1.pubs ↔
              pub ∈ receipt.pub :: pubs := by
          intro pub
          rw [members, List.mem_cons, List.mem_cons, samePubs]
        rw [induction nextPubs, outputs, spends, freshReceipts,
          if_neg taken]
        simp

theorem record_rows (user : LwsAccount) (payment : Payment)
    (members : List RingMember) (receipts : List Receipt) :
    (scan.record user payment members receipts).rows =
      (user.outputs ++ (freshReceipts user.pubs receipts).map (scan.output
          (scan.tx.settled scan.crypto payment receipts)),
        user.spends ++ members.map (scan.spendRow payment)) :=
  addAll_rows _ receipts fun _ => Iff.rfl

/-- A row carries its payment id. -/
theorem output_eq_iff {first second : Payment} (firstShort : first.length < 64)
    (secondShort : second.length < 64) {left right : Receipt} :
    scan.output first left = scan.output second right ↔
      scan.output ⟨0, ⟨0, 0⟩⟩ left = scan.output ⟨0, ⟨0, 0⟩⟩ right ∧
        first = second := by
  have flags : ∀ {length other : ℕ}, length < 64 → other < 64 →
      (pack left.ext length = pack right.ext other ↔
        left.ext = right.ext ∧ length = other) := by
    intro length other fits otherFits
    refine ⟨fun same => ?_, fun ⟨same, equal⟩ => by rw [same, equal]⟩
    have unpacked := congrArg unpack same
    rw [unpack_pack _ fits, unpack_pack _ otherFits] at unpacked
    exact Prod.mk.inj unpacked
  obtain ⟨length, value⟩ := first
  obtain ⟨otherLength, otherValue⟩ := second
  simp only [output, Output.mk.injEq, flags firstShort secondShort,
    flags (show 0 < 64 by decide) (show 0 < 64 by decide),
    Payment.mk.injEq, true_and, and_true]
  tauto

theorem outputs_eq_iff {first second : Payment} (firstShort : first.length < 64)
    (secondShort : second.length < 64) {left right : List Receipt} :
    left.map (scan.output first) = right.map (scan.output second) ↔
      left.map (scan.output ⟨0, ⟨0, 0⟩⟩) =
          right.map (scan.output ⟨0, ⟨0, 0⟩⟩) ∧
        (right = [] ∨ first = second) := by
  induction left generalizing right with
  | nil => cases right <;> simp
  | cons receipt left induction =>
      cases right with
      | nil => simp
      | cons other right =>
          simp only [List.map_cons, List.cons.injEq, induction,
            output_eq_iff firstShort secondShort, reduceCtorEq, false_or]
          tauto

theorem spends_eq_iff {first second : Payment} {members : List RingMember} :
    members.map (scan.spendRow first) = members.map (scan.spendRow second) ↔
      members = [] ∨ first = second := by
  cases members with
  | nil => simp
  | cons member members =>
      simp only [reduceCtorEq, false_or]
      constructor
      · intro same
        have head := (List.cons.inj same).1
        simp only [spendRow, spend, Spend.mk.injEq, true_and, and_true]
          at head
        obtain ⟨length, value⟩ := first
        obtain ⟨otherLength, otherValue⟩ := second
        exact congrArg₂ Payment.mk head.1 head.2
      · intro same
        rw [same]

end Scan

/-- The encrypted payment id, when there is no plain one. -/
def Transaction.encrypted (tx : Transaction) : Option ℕ :=
  match tx.extraNonce with
  | some ⟨none, some short⟩ => some short
  | _ => none

/-- An encrypted payment id as the first of some received outputs reads it. -/
def Transaction.decrypted (crypto : Crypto) (short : ℕ)
    (receipts : List Receipt) : Option ℕ :=
  receipts.head?.map fun first =>
    crypto.decryptPaymentId short first.found.activeDerived

theorem Transaction.settled_of_encrypted {crypto : Crypto} {tx : Transaction}
    {short : ℕ} (encrypted : tx.encrypted = some short)
    (receipts : List Receipt) :
    tx.settled crypto tx.payment receipts =
      match decrypted crypto short receipts with
      | none => tx.payment
      | some value => ⟨8, ⟨value, 0⟩⟩ := by
  unfold Transaction.encrypted at encrypted
  split at encrypted
  · rename_i other nonce
    cases encrypted
    cases receipts <;>
      simp [settled, settle, payment, decrypted, nonce]
  · cases encrypted

theorem Transaction.settled_of_plain {crypto : Crypto} {tx : Transaction}
    (plain : tx.encrypted = none) (receipts : List Receipt) :
    tx.settled crypto tx.payment receipts = tx.payment := by
  cases receipts with
  | nil => rfl
  | cons first receipts =>
      unfold Transaction.encrypted at plain
      unfold settled settle payment
      cases nonce : tx.extraNonce with
      | none => rfl
      | some nonce' =>
          obtain ⟨long, short⟩ := nonce'
          rw [nonce] at plain
          cases long with
          | some long => simp
          | none =>
              cases short with
              | none => simp
              | some short => cases plain

namespace Scan

variable (scan : Scan) (key : PublicKey) (reader : SubaddressReader)
  (ahead : List LwsAccount) (user : LwsAccount)

/-- What the account finds when it is scanned alone. -/
def findingsAlone : Findings := scan.findings key user reader

/-- What the account finds at its turn, with the reader of those ahead. -/
def findingsAtTurn : Findings :=
  scan.findings key user (scan.findingsAhead key ahead reader).reader

/-- The account's new outputs, payment ids aside. -/
def newOutputs (found : Findings) : List Output :=
  (freshReceipts user.pubs found.receipts).map (scan.output ⟨0, ⟨0, 0⟩⟩)

/-- The account finds no spend and no new output. -/
def FindsNothing : Prop :=
  (scan.findingsAlone key reader user).members = [] ∧
    scan.newOutputs user (scan.findingsAlone key reader user) = []

/-- Nothing that an account ahead changed reaches the rows of the account. -/
structure Untouched : Prop where
  /-- Nobody ahead received an output under an encrypted payment id, or the
  account spends nothing. -/
  spends : ∀ short ∈ scan.tx.encrypted,
    (scan.findingsAhead key ahead reader).receipts = [] ∨
      (scan.findingsAlone key reader user).members = []
  /-- The derivation that decrypts the payment id reads what the account's
  own reads, or the account receives nothing. -/
  outputs : ∀ short ∈ scan.tx.encrypted,
    scan.newOutputs user (scan.findingsAlone key reader user) = [] ∨
      Transaction.decrypted scan.crypto short
          ((scan.findingsAhead key ahead reader).receipts ++
            (scan.findingsAtTurn key reader ahead user).receipts) =
        Transaction.decrypted scan.crypto short
          (scan.findingsAlone key reader user).receipts
  /-- The snapshot shows the account's rows as they are on disk, or a refresh
  does not change which outputs are recognised. -/
  recognised : reader.Shows user.id ∨
    scan.newOutputs user (scan.findingsAtTurn key reader ahead user) =
      scan.newOutputs user (scan.findingsAlone key reader user)

/-- The condition for a transaction that is scanned at all: an account behind
one that throws is not reached. -/
def Undisturbed : Prop :=
  scan.tx.version ≤ 2 → ∀ key ∈ scan.tx.txPubKey,
    if (scan.findingsAhead key ahead reader).thrown.isSome then
      scan.FindsNothing key reader user
    else scan.Untouched key reader ahead user

variable {scan key reader ahead user}

theorem settled_eq_iff {short : ℕ} (encrypted : scan.tx.encrypted = some short)
    (first second : List Receipt) :
    scan.tx.settled scan.crypto scan.tx.payment first =
        scan.tx.settled scan.crypto scan.tx.payment second ↔
      Transaction.decrypted scan.crypto short first =
        Transaction.decrypted scan.crypto short second := by
  have absent : scan.tx.payment.length = 0 := by
    have none_there := @Transaction.settled_of_encrypted scan.crypto _ _
      encrypted
    unfold Transaction.encrypted at encrypted
    split at encrypted
    · rename_i nonce
      simp [Transaction.payment, nonce]
    · cases encrypted
  rw [Transaction.settled_of_encrypted encrypted,
    Transaction.settled_of_encrypted encrypted]
  cases Transaction.decrypted scan.crypto short first <;>
    cases Transaction.decrypted scan.crypto short second
  · simp
  · simp only [reduceCtorEq, iff_false]
    intro same
    rw [same] at absent
    cases absent
  · simp only [reduceCtorEq, iff_false]
    intro same
    rw [← same] at absent
    cases absent
  · simp

theorem settled_length (receipts : List Receipt) :
    (scan.tx.settled scan.crypto scan.tx.payment receipts).length < 64 := by
  have start : scan.tx.payment.length < 64 := by
    unfold Transaction.payment
    split
    · exact show 32 < 64 by decide
    · exact show 0 < 64 by decide
  cases encrypted : scan.tx.encrypted with
  | none =>
      rw [Transaction.settled_of_plain encrypted]
      exact start
  | some short =>
      rw [Transaction.settled_of_encrypted encrypted]
      split
      · exact start
      · exact show 8 < 64 by decide

/-- With a current snapshot an account finds at its turn what it finds
alone. -/
theorem newOutputs_turn (distinct : ∀ other ∈ ahead, other.id ≠ user.id)
    (owned : reader.Owned (ahead ++ [user])) (shows : reader.Shows user.id) :
    scan.newOutputs user (scan.findingsAtTurn key reader ahead user) =
      scan.newOutputs user (scan.findingsAlone key reader user) := by
  have view := @findingsAhead_view scan _ _ distinct key _ shows
    fun db stored other member => owned db stored other (by simp [member])
  obtain ⟨-, same, -⟩ := findings_view scan view
    (fun db stored other member => owned db stored other (by simp_all)) key
  simp only [newOutputs, findingsAtTurn, findingsAlone, same]

/-- The rows of an account that is reached. -/
theorem untouched_iff (distinct : ∀ other ∈ ahead, other.id ≠ user.id)
    (owned : reader.Owned (ahead ++ [user])) :
    (scan.record user
        (scan.tx.settled scan.crypto scan.tx.payment
          (scan.findingsAhead key ahead reader).receipts)
        (scan.findingsAtTurn key reader ahead user).members
        (scan.findingsAtTurn key reader ahead user).receipts).rows =
      (scan.record user scan.tx.payment
        (scan.findingsAlone key reader user).members
        (scan.findingsAlone key reader user).receipts).rows ↔
      scan.Untouched key reader ahead user := by
  have members : (scan.findingsAtTurn key reader ahead user).members =
      (scan.findingsAlone key reader user).members :=
    findings_members scan key user _ _
  have current := @newOutputs_turn scan key _ _ _ distinct owned
  have fresh : freshReceipts user.pubs
        (scan.findingsAlone key reader user).receipts = [] ↔
      scan.newOutputs user (scan.findingsAlone key reader user) = [] := by
    simp [newOutputs]
  rw [record_rows, record_rows, settled_append, Prod.mk.injEq,
    List.append_cancel_left_eq, List.append_cancel_left_eq, members,
    spends_eq_iff, outputs_eq_iff (settled_length _) (settled_length _), fresh]
  have start : scan.tx.settled scan.crypto scan.tx.payment [] =
      scan.tx.payment := rfl
  cases encrypted : scan.tx.encrypted with
  | none =>
      simp only [Transaction.settled_of_plain encrypted, or_true, and_true]
      constructor
      · intro same
        exact ⟨by simp [encrypted], by simp [encrypted], .inr same⟩
      · intro untouched
        exact untouched.recognised.elim current id
  | some short =>
      rw [settled_eq_iff encrypted]
      nth_rewrite 2 [← start]
      rw [settled_eq_iff encrypted]
      have nobody : Transaction.decrypted scan.crypto short
            (scan.findingsAhead key ahead reader).receipts =
          Transaction.decrypted scan.crypto short [] ↔
          (scan.findingsAhead key ahead reader).receipts = [] := by
        simp [Transaction.decrypted]
      rw [nobody]
      constructor
      · rintro ⟨⟨same, outputs⟩, spends⟩
        refine ⟨?_, ?_, .inr same⟩
        · intro other found
          exact spends.symm
        · intro other found
          obtain rfl := Option.some.inj (encrypted.symm.trans found)
          exact outputs
      · intro untouched
        exact ⟨⟨untouched.recognised.elim current id,
          untouched.outputs short encrypted⟩,
          (untouched.spends short encrypted).symm⟩

/-- An account gets the same rows from the whole list as alone exactly when
nothing that an account ahead changed reaches it. -/
theorem transaction_independent_iff (scan : Scan) (reader : SubaddressReader)
    (ahead behind : List LwsAccount) (user : LwsAccount)
    (distinct : (ahead ++ user :: behind).Pairwise
      fun left right => left.id ≠ right.id)
    (owned : reader.Owned (ahead ++ user :: behind)) :
    ((scan.transaction (ahead ++ user :: behind) reader).1[ahead.length]?).map
        LwsAccount.rows =
      ((scan.transaction [user] reader).1[0]?).map LwsAccount.rows ↔
      scan.Undisturbed reader ahead user := by
  have apart : ∀ other ∈ ahead, other.id ≠ user.id := fun other member =>
    (List.pairwise_append.mp distinct).2.2 other member user (by simp)
  have ownedAhead : reader.Owned (ahead ++ [user]) :=
    fun db stored other member => owned db stored other (by
      simp only [List.mem_append, List.mem_cons] at member ⊢
      tauto)
  unfold transaction Undisturbed
  by_cases version : 2 < scan.tx.version
  · simp [version]
  simp only [if_neg version]
  cases scan.tx.txPubKey with
  | none => simp
  | some key =>
      have start : scan.Rederived ⟨scan.tx.payment, [], reader⟩ := .inl rfl
      have turn := accounts_turn key ahead behind user start
      have alone := accounts_turn key [] [] user start
      dsimp only at turn
      dsimp only [List.nil_append, List.length_nil, findingsAhead] at alone
      rw [turn, alone]
      have supported : scan.tx.version ≤ 2 := Nat.le_of_not_lt version
      simp only [supported, forall_const, Option.mem_some_iff, forall_eq',
        Option.map_some, Option.some.injEq, Option.isSome_none,
        Bool.false_eq_true, if_false]
      by_cases threw : (scan.findingsAhead key ahead reader).thrown.isSome
      · simp only [if_pos threw]
        rw [record_rows, LwsAccount.rows, Prod.mk.injEq,
          List.self_eq_append_right, List.self_eq_append_right,
          List.map_eq_nil_iff, List.map_eq_nil_iff, FindsNothing, newOutputs,
          List.map_eq_nil_iff, and_comm]
        rfl
      · simp only [if_neg threw]
        exact untouched_iff apart ownedAhead

end Scan

/-! ## A payment between hosted accounts -/

/-- Derivations are sums, and so is what they hide. -/
def sumCrypto : Crypto where
  generateKeyDerivation := fun key viewKey => some (key + viewKey)
  outCanBeToAcc := fun _ _ _ => true
  deriveSubaddressPublicKey := fun pub derived index =>
    if derived + index ≤ pub then some (pub - (derived + index)) else none
  decodeAmount := fun commitment info derived _ _ =>
    if commitment = info.mask + info.amount then
      some (info.amount - derived, info.mask)
    else none
  decryptPaymentId := fun short derived => wrap64 (short + derived)

/-- The change goes to the sender, an account with view key 3 and spend key
100, the payment with its encrypted id to one with keys 4 and 200. -/
def paymentScan : Scan where
  env := sampleEnv
  crypto := sumCrypto
  height := 5
  timestamp := 60
  txHash := 77
  tx :=
    { version := 2
      unlockTime := 0
      vin := [.toKey 0 [3, 2] 9]
      vout := [⟨0, some 113, none⟩, ⟨0, some 215, none⟩]
      rctType := 5
      outPk := [1020, 2030]
      ecdhInfo := [⟨1000, 20⟩, ⟨2000, 30⟩]
      txPubKey := some 10
      extraNonce := some ⟨none, some 6⟩
      additionalTxPubKeys := []
      prefixHash := 78
      fee := 1 }
  outIds := [40, 41]

def senderAccount : LwsAccount :=
  .ofParts ⟨[115], 1, ⟨3, 100⟩, 3⟩ [(⟨0, 5⟩, .primary)] [99] [] [] 4

def receiverAccount : LwsAccount :=
  .ofParts ⟨[114], 2, ⟨4, 200⟩, 4⟩ [] [] [] [] 4

/-- The receiver gets its payment id undisturbed when it is scanned first. -/
theorem receiver_first_undisturbed :
    paymentScan.Undisturbed (.new (some sampleDb) 10) [] receiverAccount := by
  refine (Scan.transaction_independent_iff paymentScan
    (.new (some sampleDb) 10) [] [senderAccount] receiverAccount ?_ ?_).mp ?_
  · decide
  · rintro db ⟨⟩ user - entry found
    cases found
  · decide

/-- Behind the sender, the receiver gets a payment id that was decrypted with
the derivation of the change. -/
theorem sender_decrypts_payment_id :
    ¬ ∀ (scan : Scan) (reader : SubaddressReader)
      (ahead behind : List LwsAccount) (user : LwsAccount),
      (ahead ++ user :: behind).Pairwise
        (fun left right => left.id ≠ right.id) →
      reader.Owned (ahead ++ user :: behind) →
      ((scan.transaction (ahead ++ user :: behind)
          reader).1[ahead.length]?).map LwsAccount.rows =
        ((scan.transaction [user] reader).1[0]?).map LwsAccount.rows := by
  intro always
  have same := always paymentScan (.new (some sampleDb) 10) [senderAccount] []
    receiverAccount (by decide) (by
      rintro db ⟨⟩ user - entry found
      cases found)
  exact absurd same (by decide)

end XfoLws.Scanner
