import Mathlib.Data.List.Induction
import XfoLws.Lib.Outcome
import XfoLws.Wire.ScanAccount

/-!
# Payment ids of received outputs

`read_bytes` of an output keeps the length of the payment id in eight bits
before it is checked, so it accepts lengths that only look like a valid one.
-/

namespace XfoLws.Wire

open Db Msgpack

/-! ## Payment ids of a valid length -/

theorem toBytes_ofBytes {width : ℕ} {bytes : Bytes} (length : bytes.length = width) :
    toBytes width (Msgpack.ofBytes bytes) = bytes := by
  subst length
  induction bytes using List.reverseRecOn with
  | nil => rfl
  | append_singleton bytes byte induction =>
      have value : Msgpack.ofBytes (bytes ++ [byte]) =
          Msgpack.ofBytes bytes * 256 + byte.val := by
        simp only [Msgpack.ofBytes, List.foldl_append, List.foldl_cons, List.foldl_nil]
      have high : (Msgpack.ofBytes bytes * 256 + byte.val) / 256 =
          Msgpack.ofBytes bytes := by
        have small := byte.isLt
        omega
      have low : (Msgpack.ofBytes bytes * 256 + byte.val) % 256 = byte.val := by
        have small := byte.isLt
        omega
      rw [List.length_append, List.length_singleton, toBytes, value, high, induction]
      congr 2
      exact Fin.ext low

/-- The lengths that a payment id can have. -/
def ValidLength (length : ℕ) : Prop := length = 0 ∨ length = 8 ∨ length = 32

instance (length : ℕ) : Decidable (ValidLength length) :=
  inferInstanceAs (Decidable (_ ∨ _))

/-- An output that holds a payment id of some bytes, and writes it again; an
empty one is not written. -/
structure HoldsPayment (output : Output) (bytes : Bytes) : Prop where
  valid : ValidLength bytes.length
  length : (unpack output.extra).2 = bytes.length
  held : PaymentId.bytes output.paymentId bytes.length = bytes
  written : Output.paymentBytes output = if bytes = [] then none else some bytes

theorem bytes_ofBytes {bytes : Bytes} (valid : ValidLength bytes.length) :
    PaymentId.bytes (PaymentId.ofBytes bytes) bytes.length = bytes := by
  rcases valid with empty | short | long
  · rw [List.length_eq_zero_iff.mp empty]
    rfl
  · have whole : bytes.take 8 = bytes := List.take_of_length_le short.le
    rw [short, PaymentId.bytes, PaymentId.ofBytes, whole, toBytes_ofBytes short,
      List.take_append_of_le_length short.ge, whole]
  · have first : (bytes.take 8).length = 8 := by
      rw [List.length_take]
      omega
    have last : ((bytes.drop 8).take 24).length = 24 := by
      rw [List.length_take, List.length_drop]
      omega
    have rest : (bytes.drop 8).take 24 = bytes.drop 8 := by
      refine List.take_of_length_le ?_
      rw [List.length_drop]
      omega
    rw [long, PaymentId.bytes, PaymentId.ofBytes, toBytes_ofBytes first,
      toBytes_ofBytes last, rest, List.take_append_drop]
    exact List.take_of_length_le long.le

/-! ## What is accepted -/

/-- An output that was read holds what the reader took for the length. -/
theorem readOutput_payment {fields : List (ℕ × Value ℕ)} {output : Output}
    {bytes : Bytes} (given : optional fields 9 readBytes = .ok (some bytes))
    (accepted : readOutput (.object fields) = .ok output) :
    ValidLength (bytes.length % 256) ∧
      ∃ flags, output.extra = pack flags (bytes.length % 256) ∧
        output.paymentId = PaymentId.ofBytes (bytes.take (bytes.length % 256)) := by
  simp only [readOutput, readObject, Outcome.bind_eq_ok] at accepted
  obtain ⟨_, same, _, -, _, -, _, -, _, -, _, -, _, -, _, -, _, -, mask, -,
    paymentId, found, _, -, _, -, coinbase, -, _, -, _, -, _, -, accepted⟩ := accepted
  cases same
  rw [given] at found
  cases found
  split at accepted
  · cases accepted
  · rename_i valid
    cases accepted
    refine ⟨?_, ⟨coinbase, mask.isSome⟩, rfl, rfl⟩
    unfold ValidLength
    simp only [Option.getD_some] at valid
    omega

theorem holdsPayment_of_lt {fields : List (ℕ × Value ℕ)} {output : Output}
    {bytes : Bytes} (given : optional fields 9 readBytes = .ok (some bytes))
    (accepted : readOutput (.object fields) = .ok output)
    (small : bytes.length < 256) : HoldsPayment output bytes := by
  obtain ⟨valid, flags, extra, paymentId⟩ := readOutput_payment given accepted
  rw [Nat.mod_eq_of_lt small] at valid extra paymentId
  rw [List.take_length] at paymentId
  have fits : bytes.length < 64 := by
    unfold ValidLength at valid
    omega
  have length : (unpack output.extra).2 = bytes.length := by
    rw [extra, unpack_pack flags fits]
  have held : PaymentId.bytes output.paymentId bytes.length = bytes := by
    rw [paymentId, bytes_ofBytes valid]
  refine ⟨valid, length, held, ?_⟩
  rw [Output.paymentBytes, length, held]
  by_cases empty : bytes = []
  · simp [empty]
  · have positive := List.length_pos_iff.mpr empty
    have written : bytes.length = 32 ∨ bytes.length = 8 := by
      unfold ValidLength at valid
      omega
    rw [if_pos written, if_neg empty]

/-! ## A message with any payment id -/

/-- The fields of an output without payment id, and some bytes for it. -/
def fieldsWith (bytes : Bytes) : List (ℕ × Value ℕ) :=
  present (outputEntries sampleReceived) ++ [(9, .binary bytes)]

theorem fieldsWith_payment (bytes : Bytes) :
    optional (fieldsWith bytes) 9 readBytes = .ok (some bytes) := rfl

theorem readOutput_fieldsWith {bytes : Bytes}
    (valid : ValidLength (bytes.length % 256)) :
    readOutput (.object (fieldsWith bytes)) = .ok
      { sampleReceived with
        extra := pack ⟨false, false⟩ (bytes.length % 256)
        paymentId := PaymentId.ofBytes (bytes.take (bytes.length % 256)) } := by
  have invalid : ¬ (bytes.length % 256 ≠ 0 ∧ bytes.length % 256 ≠ 8 ∧
      bytes.length % 256 ≠ 32) := by
    unfold ValidLength at valid
    omega
  have reads : readOutput (.object (fieldsWith bytes)) =
      if bytes.length % 256 ≠ 0 ∧ bytes.length % 256 ≠ 8 ∧
          bytes.length % 256 ≠ 32 then .error .binary
      else .ok
        { sampleReceived with
          extra := pack ⟨false, false⟩ (bytes.length % 256)
          paymentId := PaymentId.ofBytes (bytes.take (bytes.length % 256)) } := rfl
  rw [reads, if_neg invalid]

/-- A byte string is only held as it was given when its length is not taken for
another one. -/
theorem payment_id_held_iff (bytes : Bytes) :
    (∀ fields output, optional fields 9 readBytes = .ok (some bytes) →
      readOutput (.object fields) = .ok output → HoldsPayment output bytes) ↔
      ¬ (256 ≤ bytes.length ∧ ValidLength (bytes.length % 256)) := by
  constructor
  · rintro holds ⟨long, valid⟩
    have held := holds (fieldsWith bytes) _ (fieldsWith_payment bytes)
      (readOutput_fieldsWith valid)
    have length := held.valid
    unfold ValidLength at length
    omega
  · intro apart fields output given accepted
    have valid := (readOutput_payment given accepted).1
    have small : bytes.length < 256 := by
      by_contra long
      exact apart ⟨not_lt.mp long, valid⟩
    exact holdsPayment_of_lt given accepted small

/-- Eight bytes more than 256 are accepted, and the first eight are kept. -/
theorem long_payment_id_accepted :
    ∃ output,
      optional (fieldsWith (List.replicate 264 7)) 9 readBytes =
        .ok (some (List.replicate 264 7)) ∧
      readOutput (.object (fieldsWith (List.replicate 264 7))) = .ok output ∧
      Output.paymentBytes output = some (List.replicate 8 7) ∧
      ¬ HoldsPayment output (List.replicate 264 7) := by
  have length : (List.replicate 264 (7 : Byte)).length % 256 = 8 := by
    rw [List.length_replicate]
  have kept : (List.replicate 264 (7 : Byte)).take 8 = List.replicate 8 7 := by
    rw [List.take_replicate]
    rfl
  have valid : ValidLength ((List.replicate 264 (7 : Byte)).length % 256) :=
    length ▸ .inr (.inl rfl)
  refine ⟨_, rfl, readOutput_fieldsWith valid, ?_, ?_⟩
  · rw [length, kept]
    decide
  · intro held
    have allowed := held.valid
    rw [List.length_replicate] at allowed
    exact absurd allowed (by decide)

end XfoLws.Wire
