import XfoLws.Wire.ScanAccount

/-!
# Bytes of scanner accounts

The records that a scanner account is made of are within the limits of the
reader, and the writer only rejects vectors and strings with too many
elements for a 32-bit count.  So the bytes of an account are read back as the
account its value stands for.
-/

namespace XfoLws.Wire

open Db Msgpack

/-! ## Within the limits of the reader -/

theorem readable_present {depth : ℕ}
    {entries : List (ℕ × Option (Value ℕ))}
    (keys : ∀ entry ∈ entries, entry.1 < 2 ^ 32)
    (each : ∀ entry ∈ entries, ∀ value, entry.2 = some value →
      Readable depth value) :
    Readable (depth + 1) (.object (present entries)) :=
  .object (fun _ member => keys _ (mem_present.mp member))
    fun field member => each _ (mem_present.mp member) field.2 rfl

theorem readable_blob (depth width value : ℕ) :
    Readable depth (blob width value) :=
  .binary depth _

private theorem readable_outputId (depth : ℕ) (id : OutputId) :
    Readable (depth + 1) (outputIdValue id) := by
  apply readable_present
  · simp [outputIdEntries]
  · simp [outputIdEntries, Readable.unsigned]

private theorem readable_addressIndex (depth : ℕ) (index : AddressIndex) :
    Readable (depth + 1) (addressIndexValue index) := by
  apply readable_present
  · simp [addressIndexEntries]
  · simp [addressIndexEntries, Readable.unsigned]

private theorem readable_accountAddress (depth : ℕ) (address : AccountAddress) :
    Readable (depth + 1) (accountAddressValue address) := by
  apply readable_present
  · simp [accountAddressEntries]
  · simp [accountAddressEntries, readable_blob]

private theorem readable_spendable (depth : ℕ)
    (row : OutputId × AddressIndex) :
    Readable (depth + 2) (spendableValue row) := by
  apply readable_present
  · simp [spendableEntries]
  · simp [spendableEntries, readable_outputId, readable_addressIndex]

private theorem readable_spend (depth : ℕ) (spend : Spend) :
    Readable (depth + 2) (spendValue spend) := by
  apply readable_present
  · simp [spendEntries]
  · simp [spendEntries, readable_blob, readable_outputId,
      readable_addressIndex, Readable.unsigned, Readable.binary]

private theorem readable_output (depth : ℕ) (output : Output) :
    Readable (depth + 2) (outputValue output) := by
  apply readable_present
  · simp [outputEntries]
  · intro entry member value written
    simp only [outputEntries, List.mem_cons, List.not_mem_nil,
      or_false] at member
    rcases member with rfl | rfl | rfl | rfl | rfl | rfl | rfl | rfl | rfl |
      rfl | rfl | rfl | rfl | rfl | rfl | rfl <;>
      simp only [Option.ite_none_right_eq_some, Option.some.injEq,
        Option.map_eq_some_iff] at written <;>
      grind [readable_blob, readable_outputId, readable_addressIndex,
        Readable]

private theorem readable_internal (depth : ℕ)
    (immutable : LwsAccount.Internal) :
    Readable (depth + 2) (internalValue immutable) := by
  apply readable_present
  · simp [internalEntries]
  · simp [internalEntries, readable_blob, readable_accountAddress,
      Readable.string, Readable.unsigned]

theorem readable_trustedArray {α : Type} {depth : ℕ}
    {write : α → Value ℕ} {items : List α} {value : Value ℕ}
    (each : ∀ item, Readable depth (write item))
    (written : trustedArray write items = some value) :
    Readable (depth + 1) value := by
  unfold trustedArray at written
  split at written
  · cases written
  · cases written
    refine .array fun _ member => ?_
    obtain ⟨item, -, rfl⟩ := List.mem_map.mp member
    exact each item

theorem readable_account_at (depth : ℕ) (user : LwsAccount) :
    Readable (depth + 4) (accountValue user) := by
  apply readable_present
  · simp [accountEntries]
  · simp only [accountEntries, List.forall_mem_cons]
    refine ⟨?_, ?_, ?_, ?_, ?_, ?_, List.forall_mem_nil _⟩
    · rintro _ ⟨⟩
      exact readable_internal (depth + 1) _
    · intro value written
      exact readable_trustedArray (readable_spendable depth) written
    · intro value written
      exact readable_trustedArray (readable_blob (depth + 2) 32) written
    · intro value written
      exact readable_trustedArray (readable_spend depth) written
    · intro value written
      exact readable_trustedArray (readable_output depth) written
    · rintro _ ⟨⟩
      exact .unsigned (depth + 3) _

theorem readable_account (user : LwsAccount) :
    Readable (maxReadDepth - 1) (accountValue user) :=
  readable_account_at 95 user

/-! ## Within the limits of the writer -/

theorem writable_present {entries : List (ℕ × Option (Value ℕ))}
    (few : entries.length < 2 ^ 32)
    (keys : ∀ entry ∈ entries, entry.1 < 2 ^ 64) :
    Writable (.object (present entries)) ↔
      ∀ entry ∈ entries, ∀ value, entry.2 = some value → Writable value := by
  rw [writable_object, and_iff_right ((length_present entries).trans_lt few)]
  constructor
  · rintro each ⟨key, _⟩ member value rfl
    exact (each (key, value) (mem_present.mpr member)).2
  · intro each field member
    have entry := mem_present.mp member
    exact ⟨keys _ entry, each _ entry field.2 rfl⟩

theorem writable_blob {width : ℕ} (fits : width < 2 ^ 32)
    (value : ℕ) : Writable (blob width value) := by
  simpa [blob] using fits

private theorem writable_outputId {id : OutputId} (fits : OutputIdFits id) :
    Writable (outputIdValue id) := by
  refine (writable_present (by simp [outputIdEntries])
    (by simp [outputIdEntries])).mpr ?_
  simpa [outputIdEntries, OutputIdFits] using fits

private theorem writable_addressIndex {index : AddressIndex}
    (fits : AddressIndexFits index) : Writable (addressIndexValue index) := by
  refine (writable_present (by simp [addressIndexEntries])
    (by simp [addressIndexEntries])).mpr ?_
  unfold AddressIndexFits at fits
  simp [addressIndexEntries]
  omega

private theorem writable_accountAddress (address : AccountAddress) :
    Writable (accountAddressValue address) := by
  refine (writable_present (by simp [accountAddressEntries])
    (by simp [accountAddressEntries])).mpr ?_
  simp [accountAddressEntries, writable_blob]

private theorem writable_spendable {row : OutputId × AddressIndex}
    (first : OutputIdFits row.1) (second : AddressIndexFits row.2) :
    Writable (spendableValue row) := by
  refine (writable_present (by simp [spendableEntries])
    (by simp [spendableEntries])).mpr ?_
  simp [spendableEntries, writable_outputId first,
    writable_addressIndex second]

private theorem writable_spend {spend : Spend} (fits : SpendFits spend) :
    Writable (spendValue spend) := by
  refine (writable_present (by simp [spendEntries])
    (by simp [spendEntries])).mpr ?_
  have mixinCount : spend.mixinCount < 2 ^ 64 :=
    fits.mixinCount.trans (by decide)
  have long : (PaymentId.bytes spend.paymentId 32).length < 2 ^ 32 := by
    simp [PaymentId.bytes]
  simpa [spendEntries, writable_blob, writable_outputId fits.source,
    writable_addressIndex fits.sender] using
    ⟨fits.height, fits.timestamp, fits.unlockTime, mixinCount,
      fun _ => long⟩

private theorem writable_output {output : Output} (fits : OutputFits output) :
    Writable (outputValue output) := by
  refine (writable_present (by simp [outputEntries])
    (by simp [outputEntries])).mpr ?_
  have payment : ∀ bytes, Output.paymentBytes output = some bytes →
      bytes.length < 2 ^ 32 := by
    intro bytes written
    unfold Output.paymentBytes at written
    dsimp only at written
    split at written
    · cases written
      refine (List.length_take_le' _ _).trans_lt ?_
      simp
    · cases written
  have index : output.spendMeta.index < 2 ^ 64 :=
    fits.index.trans (by decide)
  have mixinCount : output.spendMeta.mixinCount < 2 ^ 64 :=
    fits.mixinCount.trans (by decide)
  simpa [outputEntries, writable_blob, writable_outputId fits.id,
    writable_addressIndex fits.recipient] using
    ⟨fun _ => fits.height, index, fits.amount, fits.timestamp, payment,
      fits.unlockTime, mixinCount, fits.fee⟩

private theorem writable_internal {immutable : LwsAccount.Internal}
    (id : immutable.id < 2 ^ 32) :
    Writable (internalValue immutable) ↔
      immutable.address.length < 2 ^ 32 := by
  refine (writable_present (by simp [internalEntries])
    (by simp [internalEntries])).trans ?_
  simp [internalEntries, writable_blob, writable_accountAddress]
  exact fun _ => id.trans (by decide)

theorem writable_trustedArray {α : Type} {write : α → Value ℕ}
    {items : List α} (each : ∀ item ∈ items, Writable (write item)) :
    (∀ value, trustedArray write items = some value → Writable value) ↔
      items.length < 2 ^ 32 := by
  unfold trustedArray
  split
  · rename_i empty
    subst empty
    simp
  · simpa using fun _ => each

/-- Every vector and the address have less than 2^32 elements. -/
structure Countable (user : LwsAccount) : Prop where
  address : user.immutable.address.length < 2 ^ 32
  spendable : user.spendable.length < 2 ^ 32
  pubs : user.pubs.length < 2 ^ 32
  spends : user.spends.length < 2 ^ 32
  outputs : user.outputs.length < 2 ^ 32

theorem writable_account {user : LwsAccount} (fits : AccountFits user) :
    Writable (accountValue user) ↔ Countable user := by
  refine (writable_present (by simp [accountEntries])
    (by simp [accountEntries])).trans ?_
  have immutable := writable_internal fits.id
  have spendable := writable_trustedArray fun row member =>
    writable_spendable (fits.spendable row member).1
      (fits.spendable row member).2
  have pubs := @writable_trustedArray _ _ user.pubs fun pub _ =>
    writable_blob (show 32 < 2 ^ 32 by decide) pub
  have spends := writable_trustedArray fun spend member =>
    writable_spend (fits.spends spend member)
  have outputs := writable_trustedArray fun output member =>
    writable_output (fits.outputs output member)
  simp only [accountEntries, List.forall_mem_cons, spendable, pubs, spends,
    outputs, Option.some.injEq, forall_eq', immutable, writable_unsigned,
    fits.height]
  constructor
  · rintro ⟨address, spendable, pubs, spends, outputs, -, -⟩
    exact ⟨address, spendable, pubs, spends, outputs⟩
  · rintro ⟨address, spendable, pubs, spends, outputs⟩
    exact ⟨address, spendable, pubs, spends, outputs, trivial, nofun⟩

/-! ## Reading back -/

/-- Writing fails for accounts with too many rows only. -/
theorem writeAccountBytes_isOk {user : LwsAccount} (fits : AccountFits user) :
    (∃ bytes, writeAccountBytes user = .ok bytes) ↔ Countable user :=
  writable_account fits

/-- What was written is read back as the account after being sent, whatever
follows. -/
theorem readAccountBytes_written {user : LwsAccount} (fits : AccountFits user)
    {bytes : Bytes} (written : writeAccountBytes user = .ok bytes)
    (rest : Bytes) :
    readAccountBytes (bytes ++ rest) = .ok (reloadAccount user, rest) := by
  obtain ⟨-, spendable, pubs, spends, outputs⟩ :=
    (writeAccountBytes_isOk fits).mp ⟨bytes, written⟩
  have value := readValue_writeValue (readable_account user) written rest
  have account := readAccount_value fits (by omega) (by omega) (by omega)
    (by omega)
  simp only [readAccountBytes, value, account, bind, Except.bind]

end XfoLws.Wire
