import XfoLws.Db.Chain

/-!
# Proof-of-work hashes

`get_block_longhash` keys the RandomX hash of a block with the hash of an
earlier block, the seed.  A caller that verifies a batch hands over the hashes
of the batch so far; older seeds are read from the database.
-/

namespace XfoLws.Util

open Db (BlockId)

/-- What the Monero library does for a proof of work; `β` is the type of
hashing blobs. -/
structure PowHashing (β : Type) where
  rxBlockVersion : ℕ
  rxSeedheight : BlockId → BlockId
  rxSlowHash : Hash → β → Hash
  cnSlowHash : β → ℕ → BlockId → Hash

/-- What `get_block_longhash` throws. -/
inductive LonghashError where
  /-- "invalid seed_height for cache or DB" -/
  | seedHeight
  | disk (error : Error)
deriving DecidableEq, Repr

def longhash202612 : Hash :=
  0x84f64766475d51837ac9efbef1926486e58563c95a19fef4aec3254f03000000

namespace PowHashing

variable {β : Type} (hashing : PowHashing β)

/-- The seed of the block at `height`; `cached` are the hashes from
`cachedStart` on. -/
def seedHash (disk : Db) (cachedStart : BlockId) (cached : List Hash)
    (height : BlockId) : Except LonghashError Hash :=
  let seedHeight := hashing.rxSeedheight height
  if cachedStart ≤ seedHeight then
    match cached[seedHeight - cachedStart]? with
    | none => .error .seedHeight
    | some hash => .ok hash
  else
    match disk.blocks.find? seedHeight with
    | none => .error (.disk (.notFound .blocks .getBoth))
    | some row => .ok row.hash

/-- The hash of a block is keyed with a seed. -/
def UsesSeed (height : BlockId) (majorVersion : ℕ) : Prop :=
  height ≠ 202612 ∧ hashing.rxBlockVersion ≤ majorVersion ∧ height ≠ 0

instance (height : BlockId) (majorVersion : ℕ) :
    Decidable (hashing.UsesSeed height majorVersion) :=
  inferInstanceAs (Decidable (_ ∧ _ ∧ _))

/-- `get_block_longhash`. -/
def getBlockLonghash (bd : β) (height : BlockId) (majorVersion : ℕ)
    (disk : Db) (cachedStart : BlockId) (cached : List Hash) :
    Except LonghashError Hash :=
  -- block 202612 bug workaround
  if height = 202612 then .ok longhash202612
  else if hashing.rxBlockVersion ≤ majorVersion then
    if height ≠ 0 then do
      let hash ← hashing.seedHash disk cachedStart cached height
      .ok (hashing.rxSlowHash hash bd)
    else .ok (hashing.rxSlowHash 0 bd)
  else
    let powVariant := if 7 ≤ majorVersion then majorVersion - 6 else 0
    .ok (hashing.cnSlowHash bd powVariant height)

variable {hashing} {disk : Db} {cachedStart height : BlockId}
  {cached : List Hash}

/-- The block behind the cached ones finds its seed among these or, if all
lower heights are stored, in the database. -/
theorem seedHash_found (below : hashing.rxSeedheight height < height)
    (behind : height = cachedStart + cached.length)
    (stored : ∀ lower < cachedStart, ∃ row ∈ disk.blocks, row.id = lower) :
    ∃ hash, hashing.seedHash disk cachedStart cached height = .ok hash ∧
      ((∃ index, hashing.rxSeedheight height = cachedStart + index ∧
          cached[index]? = some hash) ∨
        hashing.rxSeedheight height < cachedStart ∧
          ⟨hashing.rxSeedheight height, hash⟩ ∈ disk.blocks) := by
  unfold seedHash
  generalize hashing.rxSeedheight height = seed at below
  dsimp only
  by_cases inside : cachedStart ≤ seed
  · rw [if_pos inside]
    have read := List.getElem?_eq_getElem
      (show seed - cachedStart < cached.length by lia)
    rw [read]
    exact ⟨_, rfl, .inl ⟨_, (Nat.add_sub_cancel' inside).symm, read⟩⟩
  · rw [if_neg inside]
    obtain ⟨row, member, rfl⟩ := stored seed (Nat.lt_of_not_le inside)
    rw [SortedRows.find?_eq_some.mpr ⟨member, rfl⟩]
    exact ⟨_, rfl, .inr ⟨Nat.lt_of_not_le inside, member⟩⟩

theorem getBlockLonghash_keyed {bd : β} {majorVersion : ℕ} {hash : Hash}
    (keyed : hashing.UsesSeed height majorVersion)
    (found : hashing.seedHash disk cachedStart cached height = .ok hash) :
    hashing.getBlockLonghash bd height majorVersion disk cachedStart cached =
      .ok (hashing.rxSlowHash hash bd) := by
  obtain ⟨plain, randomx, positive⟩ := keyed
  unfold getBlockLonghash
  rw [if_neg plain, if_pos randomx, if_pos positive, found]
  rfl

end PowHashing

end XfoLws.Util
