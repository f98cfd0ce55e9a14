import XfoLws.Lib.SortedRows

/-!
# A table and its mirror

One table holds exactly the images of the rows of another, under a key of its
own.  Rows are added to both and taken from both one by one; what keeps the
two in step is that the key of an image tells where it comes from.
-/

section Mirrors

variable {ρ σ κ ι : Type} [LinearOrder κ] [LinearOrder ι] {key : ρ → κ}
  {imageKey : σ → ι} {project : ρ → σ} {table : SortedRows key}
  {mirror : SortedRows imageKey}

/-- `mirror` holds the images of the rows of `table` and nothing else. -/
def Mirrors (project : ρ → σ) (table : SortedRows key)
    (mirror : SortedRows imageKey) : Prop :=
  ∀ image, image ∈ mirror ↔ ∃ row ∈ table, project row = image

/-- The key of an image tells the row it comes from. -/
def Identifies (imageKey : σ → ι) (project : ρ → σ)
    (table : SortedRows key) : Prop :=
  ∀ left ∈ table, ∀ right ∈ table,
    imageKey (project left) = imageKey (project right) → left = right

namespace Mirrors

theorem find (mirrors : Mirrors project table mirror) {row : ρ}
    (member : row ∈ table) :
    mirror.find? (imageKey (project row)) = some (project row) :=
  SortedRows.find?_eq_some.mpr ⟨(mirrors _).mpr ⟨row, member, rfl⟩, rfl⟩

/-- A row and its image are erased together. -/
theorem erase (mirrors : Mirrors project table mirror)
    (identified : Identifies imageKey project table) {row : ρ}
    (member : row ∈ table) :
    Mirrors project (table.erase (key row))
      (mirror.erase (imageKey (project row))) := by
  intro image
  rw [SortedRows.mem_erase, mirrors]
  constructor
  · rintro ⟨⟨other, otherMember, rfl⟩, different⟩
    refine ⟨other, SortedRows.mem_erase.mpr ⟨otherMember, ?_⟩, rfl⟩
    intro sameKey
    exact different (by
      rw [SortedRows.eq_of_key_eq otherMember member sameKey])
  · rintro ⟨other, remains, rfl⟩
    obtain ⟨otherMember, different⟩ := SortedRows.mem_erase.mp remains
    refine ⟨⟨other, otherMember, rfl⟩, ?_⟩
    intro sameKey
    exact different (congrArg key
      (identified other otherMember row member sameKey))

/-- Rows and their images are added together, while those under one key have
one image. -/
theorem addAll (mirrors : Mirrors project table mirror) {rows : List ρ}
    (keyed : ∀ left right, key left = key right →
      project left = project right)
    (identified : ∀ left, left ∈ table ∨ left ∈ rows → ∀ right,
      right ∈ table ∨ right ∈ rows →
      imageKey (project left) = imageKey (project right) →
        project left = project right) :
    Mirrors project (table.addAll rows)
      (mirror.addAll (rows.map project)) := by
  intro image
  constructor
  · intro member
    rcases SortedRows.mem_of_mem_addAll member with old | new
    · obtain ⟨row, stored, rfl⟩ := (mirrors image).mp old
      exact ⟨row, SortedRows.mem_addAll_of_mem stored, rfl⟩
    · obtain ⟨row, listed, rfl⟩ := List.mem_map.mp new
      obtain ⟨stored, storedMember, sameKey⟩ :=
        SortedRows.exists_key_addAll table listed
      exact ⟨stored, storedMember, keyed _ _ sameKey⟩
  · rintro ⟨row, member, rfl⟩
    rcases SortedRows.mem_of_mem_addAll member with old | new
    · exact SortedRows.mem_addAll_of_mem
        ((mirrors _).mpr ⟨row, old, rfl⟩)
    · -- an image that is there under the key is the same one
      have listed : project row ∈ rows.map project :=
        List.mem_map_of_mem new
      obtain ⟨image, imageMember, sameKey⟩ :=
        SortedRows.exists_key_addAll mirror listed
      have same : image = project row := by
        rcases SortedRows.mem_of_mem_addAll imageMember with old | added
        · obtain ⟨other, stored, rfl⟩ := (mirrors image).mp old
          exact identified other (.inl stored) row (.inr new) sameKey
        · obtain ⟨other, otherNew, rfl⟩ := List.mem_map.mp added
          exact identified other (.inr otherNew) row (.inr new) sameKey
      rwa [← same]

end Mirrors

end Mirrors
