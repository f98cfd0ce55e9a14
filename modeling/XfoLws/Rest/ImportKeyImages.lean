import XfoLws.Db.AccountIndexes
import XfoLws.Rest.WalletRows
import Mathlib.Data.Finset.Card
import Mathlib.Data.List.Induction

/-!
# Importing key images

`storage::import_key_images` confirms the images that the account is known to
have spent, and files for each of them the output that the wallet names as its
source.  A source replaces every other one of its image, so no image ever has
two.
-/

namespace XfoLws.Rest

open Db

/-- `storage::import_key_images_result`. -/
structure ImportKeyImagesResult where
  imported : ℕ
  confirmedSpends : ℕ
  unconfirmed : ℕ
  uniqueInputs : ℕ
  knownSpendInputs : ℕ
  alreadyConfirmed : ℕ
  exactSourceCandidates : ℕ
  exactSourceKnownSpend : ℕ
  exactSourceUnknownSpend : ℕ
  exactSourceMatchedOutput : ℕ
  exactSourceMissingOutput : ℕ
  exactSourceInserted : ℕ
  exactSourceAlreadyPresent : ℕ
  exactSourceReplaced : ℕ
deriving DecidableEq, Repr

namespace ImportKeyImagesResult

def zero : ImportKeyImagesResult := ⟨0, 0, 0, 0, 0, 0, 0, 0, 0, 0, 0, 0, 0, 0⟩

end ImportKeyImagesResult

/-- The output has the low id and the identity of a source; the amount bucket
is not compared. -/
def KeyImageSource.names (source : KeyImageSource) (output : Output) : Bool :=
  output.spendMeta.id.low = source.source.low &&
    output.spendMeta.index = source.outIndex &&
    output.link.txHash = source.txHash && output.pub = source.pub

/-- The source with the whole id of its output. -/
def KeyImageSource.resolved (source : KeyImageSource) (output : Output) :
    KeyImageSource :=
  { source with source := output.spendMeta.id }

namespace WalletDb

abbrev ConfirmedSpends := SortedRows confirmedSpendsKey

abbrev ImportedSpendSources := SortedRows importedSpendSourcesKey

/-- The images of the stored spends. -/
def knownSpends (state : WalletDb) (id : AccountId) : ImageSet :=
  SortedRows.empty.addAll ((state.getSpends id).map Spend.image)

/-- One pass of the loop over the unique images. -/
def confirmImage (id : AccountId) (knownSpends : ImageSet)
    (state : ImportKeyImagesResult × ConfirmedSpends) (image : KeyImage) :
    ImportKeyImagesResult × ConfirmedSpends :=
  let (out, confirmed) := state
  if (knownSpends.find? image).isNone then
    ({ out with unconfirmed := out.unconfirmed + 1 }, confirmed)
  else
    let out :=
      { out with
        knownSpendInputs := out.knownSpendInputs + 1
        confirmedSpends := out.confirmedSpends + 1 }
    match confirmed.putNew (id, image) with
    | some confirmed => ({ out with imported := out.imported + 1 }, confirmed)
    | none =>
        ({ out with alreadyConfirmed := out.alreadyConfirmed + 1 }, confirmed)

/-- Delete one of the sources collected, if it is still there. -/
def eraseSource (id : AccountId)
    (state : ImportKeyImagesResult × ImportedSpendSources)
    (existing : KeyImageSource) :
    ImportKeyImagesResult × ImportedSpendSources :=
  let (out, table) := state
  match table.find? (importedSpendSourcesKey (id, existing)) with
  | none => (out, table)
  | some _ =>
      ({ out with exactSourceReplaced := out.exactSourceReplaced + 1 },
        table.erase (importedSpendSourcesKey (id, existing)))

/-- Store a resolved source in place of the others of its image. -/
def storeSource (id : AccountId)
    (state : ImportKeyImagesResult × ImportedSpendSources)
    (resolved : KeyImageSource) :
    ImportKeyImagesResult × ImportedSpendSources :=
  let existingSources := (valueStream state.2.rows id).filter fun existing =>
    existing.image = resolved.image
  if resolved ∈ existingSources then
    ({ state.1 with
      exactSourceAlreadyPresent := state.1.exactSourceAlreadyPresent + 1 },
      state.2)
  else
    let (out, table) := existingSources.foldl (eraseSource id) state
    match table.putNew (id, resolved) with
    | some table =>
        ({ out with exactSourceInserted := out.exactSourceInserted + 1 },
          table)
    | none =>
        ({ out with
          exactSourceAlreadyPresent := out.exactSourceAlreadyPresent + 1 },
          table)

/-- One pass of the loop over the sources: the first output that a source
names counts. -/
def importSource (id : AccountId) (knownSpends : ImageSet)
    (outputRows : List Output)
    (state : ImportKeyImagesResult × ImportedSpendSources)
    (imported : KeyImageSource) :
    ImportKeyImagesResult × ImportedSpendSources :=
  let (out, table) := state
  let out :=
    { out with exactSourceCandidates := out.exactSourceCandidates + 1 }
  if (knownSpends.find? imported.image).isNone then
    ({ out with exactSourceUnknownSpend := out.exactSourceUnknownSpend + 1 },
      table)
  else
    let out :=
      { out with exactSourceKnownSpend := out.exactSourceKnownSpend + 1 }
    match outputRows.find? imported.names with
    | none =>
        ({ out with
          exactSourceMissingOutput := out.exactSourceMissingOutput + 1 },
          table)
    | some output =>
        storeSource id
          ({ out with
            exactSourceMatchedOutput := out.exactSourceMatchedOutput + 1 },
            table)
          (imported.resolved output)

/-- `storage::import_key_images`. -/
def importKeyImages (state : WalletDb) (id : AccountId)
    (images : List KeyImage) (sources : List KeyImageSource) :
    ImportKeyImagesResult × WalletDb :=
  let knownSpends := state.knownSpends id
  let uniqueInput : ImageSet := SortedRows.empty.addAll images
  let (out, confirmed) := uniqueInput.rows.foldl (confirmImage id knownSpends)
    ({ ImportKeyImagesResult.zero with
      uniqueInputs := uniqueInput.rows.length }, state.confirmedSpends)
  let (out, imported) :=
    if sources ≠ [] then
      sources.foldl (importSource id knownSpends (state.getOutputs id))
        (out, state.importedSpendSources)
    else (out, state.importedSpendSources)
  (out,
    { state with
      confirmedSpends := confirmed
      importedSpendSources := imported })

/-! ## One source for each image -/

/-- No image has two sources under one account. -/
def OneSource (table : ImportedSpendSources) : Prop :=
  ∀ first ∈ table, ∀ second ∈ table, first.1 = second.1 →
    first.2.image = second.2.image → first = second

/-- What storing a source amounts to. -/
def replaceSource (id : AccountId) (table : ImportedSpendSources)
    (resolved : KeyImageSource) : ImportedSpendSources :=
  (table.filter fun row => ¬ (row.1 = id ∧ row.2.image = resolved.image)).put
    (id, resolved)

section Sources

variable {id : AccountId} {table : ImportedSpendSources}
  {resolved : KeyImageSource} {out : ImportKeyImagesResult}
  {row : AccountId × KeyImageSource}

theorem mem_replaceSource :
    row ∈ replaceSource id table resolved ↔ row = (id, resolved) ∨
      (row ∈ table ∧ ¬ (row.1 = id ∧ row.2.image = resolved.image)) := by
  unfold replaceSource
  rw [SortedRows.mem_put, SortedRows.mem_filter, decide_eq_true_eq]
  refine or_congr_right ⟨And.left, fun kept => ⟨kept, fun same => ?_⟩⟩
  obtain ⟨owner, rest⟩ := Prod.mk.inj (toLex.injective same)
  exact kept.2 ⟨owner, (Prod.mk.inj (toLex.injective rest)).1⟩

theorem OneSource.replace (one : OneSource table) :
    OneSource (replaceSource id table resolved) := by
  intro first firstMember second secondMember owner image
  rcases mem_replaceSource.mp firstMember with rfl | ⟨firstOld, firstOther⟩
  · rcases mem_replaceSource.mp secondMember with rfl | ⟨-, secondOther⟩
    · rfl
    · exact (secondOther ⟨owner.symm, image.symm⟩).elim
  · rcases mem_replaceSource.mp secondMember with rfl | ⟨secondOld, -⟩
    · exact (firstOther ⟨owner, image⟩).elim
    · exact one first firstOld second secondOld owner image

theorem eraseSources_table (existing : List KeyImageSource) :
    (existing.foldl (eraseSource id) (out, table)).2 =
      table.eraseAll (existing.map fun source =>
        importedSpendSourcesKey (id, source)) := by
  induction existing generalizing out table with
  | nil => rfl
  | cons source existing induction =>
      rw [List.foldl_cons, List.map_cons, SortedRows.eraseAll_cons]
      cases found : table.find? (importedSpendSourcesKey (id, source)) with
      | none =>
          have missing : table.erase (importedSpendSourcesKey (id, source)) =
              table := by
            refine SortedRows.ext_mem fun other => ?_
            rw [SortedRows.mem_erase]
            exact and_iff_left_of_imp
              (SortedRows.find?_eq_none.mp found other)
          have skipped : eraseSource id (out, table) source = (out, table) := by
            simp only [eraseSource, found]
          rw [skipped, induction, missing]
      | some stored =>
          have erased : eraseSource id (out, table) source =
              ({ out with exactSourceReplaced := out.exactSourceReplaced + 1 },
                table.erase (importedSpendSourcesKey (id, source))) := by
            simp only [eraseSource, found]
          rw [erased, induction]

theorem storeSource_table (one : OneSource table) :
    (storeSource id (out, table) resolved).2 =
      replaceSource id table resolved := by
  unfold storeSource
  dsimp only
  have listed : ∀ source, source ∈ ((valueStream table.rows id).filter
      fun existing => existing.image = resolved.image) ↔
        (id, source) ∈ table ∧ source.image = resolved.image := by
    intro source
    rw [List.mem_filter, mem_valueStream, decide_eq_true_eq]
    rfl
  split
  · rename_i present
    obtain ⟨stored, -⟩ := (listed resolved).mp present
    refine SortedRows.ext_mem fun row => ?_
    rw [mem_replaceSource]
    constructor
    · intro member
      by_cases own : row.1 = id ∧ row.2.image = resolved.image
      · exact .inl (one row member _ stored own.1 own.2)
      · exact .inr ⟨member, own⟩
    · rintro (rfl | ⟨member, -⟩)
      · exact stored
      · exact member
  · rename_i absent
    have erased := @eraseSources_table id table out
      ((valueStream table.rows id).filter fun existing =>
        existing.image = resolved.image)
    generalize ((valueStream table.rows id).filter fun existing =>
        existing.image = resolved.image).foldl (eraseSource id) (out, table) =
      cleared at erased
    obtain ⟨counted, cleared⟩ := cleared
    dsimp only at erased ⊢
    have kept : ∀ row, row ∈ cleared ↔
        row ∈ table ∧ ¬ (row.1 = id ∧ row.2.image = resolved.image) := by
      intro row
      rw [erased, SortedRows.mem_eraseAll, List.mem_map]
      refine and_congr_right fun member => not_congr ⟨?_, ?_⟩
      · rintro ⟨source, found, same⟩
        obtain ⟨stored, image⟩ := (listed source).mp found
        rw [← SortedRows.eq_of_key_eq stored member same]
        exact ⟨rfl, image⟩
      · rintro ⟨rfl, image⟩
        exact ⟨row.2, (listed row.2).mpr ⟨member, image⟩, rfl⟩
    have fresh : cleared.putNew (id, resolved) =
        some (cleared.put (id, resolved)) := by
      refine SortedRows.putNew_eq_some.mpr ⟨fun other member same => ?_, rfl⟩
      obtain ⟨owner, rest⟩ := Prod.mk.inj (toLex.injective same)
      exact ((kept other).mp member).2
        ⟨owner, (Prod.mk.inj (toLex.injective rest)).1⟩
    rw [fresh]
    refine SortedRows.ext_mem fun row => ?_
    rw [SortedRows.mem_put, mem_replaceSource, kept]
    refine or_congr_right ⟨And.left, fun left => ⟨left, fun same => ?_⟩⟩
    obtain ⟨owner, rest⟩ := Prod.mk.inj (toLex.injective same)
    exact left.2 ⟨owner, (Prod.mk.inj (toLex.injective rest)).1⟩

end Sources

/-! ## The loop over the sources -/

/-- What is stored for a source: nothing for an image that is not spent, or
without an output. -/
def resolve (knownSpends : ImageSet) (outputRows : List Output)
    (imported : KeyImageSource) : Option KeyImageSource :=
  if (knownSpends.find? imported.image).isNone then none
  else (outputRows.find? imported.names).map imported.resolved

section Loop

variable {id : AccountId} {knownSpends : ImageSet} {outputRows : List Output}
  {table : ImportedSpendSources} {out : ImportKeyImagesResult}

theorem importSource_table (one : OneSource table)
    (imported : KeyImageSource) :
    (importSource id knownSpends outputRows (out, table) imported).2 =
      (resolve knownSpends outputRows imported).elim table
        (replaceSource id table) := by
  unfold importSource resolve
  dsimp only
  split
  · rfl
  · split
    · rename_i missing
      rw [missing]
      rfl
    · rename_i output matched
      rw [matched]
      exact storeSource_table one

/-- The loop stores the resolved sources one after the other. -/
theorem importSources_table (one : OneSource table)
    (sources : List KeyImageSource) :
    (sources.foldl (importSource id knownSpends outputRows) (out, table)).2 =
        (sources.filterMap (resolve knownSpends outputRows)).foldl
          (replaceSource id) table ∧
      OneSource ((sources.filterMap (resolve knownSpends outputRows)).foldl
        (replaceSource id) table) := by
  induction sources generalizing out table with
  | nil => exact ⟨rfl, one⟩
  | cons imported sources induction =>
      rw [List.foldl_cons]
      have stored := @importSource_table id knownSpends outputRows table out one
        imported
      generalize importSource id knownSpends outputRows (out, table)
        imported = next at stored
      obtain ⟨counted, next⟩ := next
      dsimp only at stored
      subst stored
      cases found : resolve knownSpends outputRows imported with
      | none =>
          rw [List.filterMap_cons_none found]
          exact induction one
      | some resolved =>
          rw [List.filterMap_cons_some found, List.foldl_cons]
          exact induction one.replace

/-- After the loop an image has the last source resolved for it, or what it
had before. -/
theorem mem_replaceSources {sources : List KeyImageSource}
    {row : AccountId × KeyImageSource} :
    row ∈ sources.foldl (replaceSource id) table ↔
      (row.1 = id ∧ sources.reverse.find? (fun source =>
          source.image = row.2.image) = some row.2) ∨
        (row ∈ table ∧ ¬ (row.1 = id ∧
          ∃ source ∈ sources, source.image = row.2.image)) := by
  induction sources using List.reverseRecOn with
  | nil => simp
  | append_singleton sources last induction =>
      rw [List.foldl_append, List.foldl_cons, List.foldl_nil,
        mem_replaceSource, induction, List.reverse_append,
        List.reverse_singleton, List.singleton_append, List.find?_cons]
      have listed : (∃ source ∈ sources ++ [last],
            source.image = row.2.image) ↔
          (∃ source ∈ sources, source.image = row.2.image) ∨
            last.image = row.2.image := by
        simp [or_and_right, exists_or]
      have here : row = (id, last) ↔ row.1 = id ∧ last = row.2 := by
        rw [Prod.ext_iff, eq_comm (a := last)]
      rw [listed, here]
      clear listed here induction
      generalize (∃ source ∈ sources, source.image = row.2.image) = earlier
      generalize sources.reverse.find? (fun source =>
        source.image = row.2.image) = found
      by_cases own : row.1 = id
      · by_cases same : last.image = row.2.image
        · simp [own, same]
        · have other : last ≠ row.2 := fun equality =>
            same (congrArg KeyImageSource.image equality)
          simp [own, same, other, Ne.symm same]
      · simp [own]

theorem replaceSources_idempotent (sources : List KeyImageSource) :
    sources.foldl (replaceSource id) (sources.foldl (replaceSource id) table) =
      sources.foldl (replaceSource id) table := by
  refine SortedRows.ext_mem fun row => ?_
  rw [mem_replaceSources, mem_replaceSources]
  constructor
  · rintro (last | ⟨last | kept, -⟩)
    · exact .inl last
    · exact .inl last
    · exact .inr kept
  · rintro (last | kept)
    · exact .inl last
    · exact .inr ⟨.inr kept, kept.2⟩

end Loop

/-! ## The loop over the images -/

section Images

variable {id : AccountId} {knownSpends : ImageSet}

/-- What the counters of the first loop add up to. -/
structure Counted (images : ℕ) (out : ImportKeyImagesResult) : Prop where
  inputs : out.knownSpendInputs + out.unconfirmed = images
  known : out.imported + out.alreadyConfirmed = out.knownSpendInputs

theorem confirmImage_counted {images : ℕ} {out : ImportKeyImagesResult}
    {confirmed : ConfirmedSpends} (counted : Counted images out)
    (image : KeyImage) :
    Counted (images + 1)
      (confirmImage id knownSpends (out, confirmed) image).1 := by
  obtain ⟨inputs, known⟩ := counted
  unfold confirmImage
  dsimp only
  split
  · exact ⟨by dsimp only; omega, known⟩
  · split <;> exact ⟨by dsimp only; omega, by dsimp only; omega⟩

theorem confirmImage_unique {out : ImportKeyImagesResult}
    {confirmed : ConfirmedSpends} (image : KeyImage) :
    (confirmImage id knownSpends (out, confirmed) image).1.uniqueInputs =
      out.uniqueInputs := by
  unfold confirmImage
  dsimp only
  split
  · rfl
  · split <;> rfl

theorem confirmImages_counted {before : ℕ} {out : ImportKeyImagesResult}
    {confirmed : ConfirmedSpends} (counted : Counted before out)
    (images : List KeyImage) :
    Counted (before + images.length)
        (images.foldl (confirmImage id knownSpends) (out, confirmed)).1 ∧
      (images.foldl (confirmImage id knownSpends)
        (out, confirmed)).1.uniqueInputs = out.uniqueInputs := by
  induction images generalizing before out confirmed with
  | nil => exact ⟨counted, rfl⟩
  | cons image images induction =>
      rw [List.foldl_cons]
      have here := @confirmImage_counted id knownSpends _ out confirmed counted
        image
      have unique := @confirmImage_unique id knownSpends out confirmed image
      generalize confirmImage id knownSpends (out, confirmed) image = next
        at here unique
      obtain ⟨counting, next⟩ := next
      obtain ⟨later, same⟩ := induction here
      rw [List.length_cons, Nat.add_comm images.length, ← Nat.add_assoc]
      exact ⟨later, same.trans unique⟩

private theorem confirmed_of_taken {confirmed : ConfirmedSpends}
    {row : AccountId × KeyImage} (taken : confirmed.putNew row = none) :
    row ∈ confirmed := by
  by_contra absent
  have fresh : ∀ other ∈ confirmed,
      confirmedSpendsKey other ≠ confirmedSpendsKey row := by
    intro other member same
    have equality : other = row := toLex.injective same
    exact absent (equality ▸ member)
  rw [SortedRows.putNew_eq_some.mpr ⟨fresh, rfl⟩] at taken
  cases taken

theorem mem_confirmImage {out : ImportKeyImagesResult}
    {confirmed : ConfirmedSpends} {image : KeyImage}
    {row : AccountId × KeyImage} :
    row ∈ (confirmImage id knownSpends (out, confirmed) image).2 ↔
      row ∈ confirmed ∨
        (row = (id, image) ∧ (knownSpends.find? image).isSome = true) := by
  unfold confirmImage
  dsimp only
  split
  · rename_i unknown
    simp only [Option.isNone_iff_eq_none.mp unknown, Option.isSome_none,
      Bool.false_eq_true, and_false, or_false]
  · rename_i known
    have found : (knownSpends.find? image).isSome = true := by
      simpa [Option.isSome_iff_ne_none] using known
    rw [and_iff_left found]
    cases stored : confirmed.putNew (id, image) with
    | some next =>
        obtain ⟨fresh, rfl⟩ := SortedRows.putNew_eq_some.mp stored
        dsimp only
        rw [SortedRows.mem_put, or_comm]
        exact or_congr_left (and_iff_left_of_imp (fresh row))
    | none =>
        refine ⟨.inl, fun either => either.elim (fun old => old) ?_⟩
        rintro rfl
        exact confirmed_of_taken stored

/-- Confirming adds as many rows as it counts. -/
theorem confirmImage_grows {out : ImportKeyImagesResult}
    {confirmed : ConfirmedSpends} (image : KeyImage) :
    (confirmImage id knownSpends (out, confirmed) image).2.rows.length +
        out.imported = confirmed.rows.length +
      (confirmImage id knownSpends (out, confirmed) image).1.imported := by
  unfold confirmImage
  dsimp only
  split
  · rfl
  · split
    · rename_i stored
      obtain ⟨fresh, rfl⟩ := SortedRows.putNew_eq_some.mp stored
      rw [SortedRows.length_put fresh]
      dsimp only
      omega
    · rfl

theorem mem_confirmImages {out : ImportKeyImagesResult}
    {confirmed : ConfirmedSpends} {images : List KeyImage}
    {row : AccountId × KeyImage} :
    row ∈ (images.foldl (confirmImage id knownSpends) (out, confirmed)).2 ↔
      row ∈ confirmed ∨ (row.1 = id ∧ row.2 ∈ images ∧
        (knownSpends.find? row.2).isSome = true) := by
  induction images generalizing out confirmed with
  | nil => simp
  | cons image images induction =>
      have here := @mem_confirmImage id knownSpends out confirmed image row
      rw [List.foldl_cons]
      generalize confirmImage id knownSpends (out, confirmed) image = next
        at here ⊢
      obtain ⟨counting, next⟩ := next
      rw [induction, here, or_assoc]
      refine or_congr_right ?_
      rw [List.mem_cons, Prod.ext_iff]
      constructor
      · rintro (⟨⟨owner, rfl⟩, known⟩ | ⟨owner, later, known⟩)
        · exact ⟨owner, .inl rfl, known⟩
        · exact ⟨owner, .inr later, known⟩
      · rintro ⟨owner, rfl | later, known⟩
        · exact .inl ⟨⟨owner, rfl⟩, known⟩
        · exact .inr ⟨owner, later, known⟩

theorem confirmImages_grow {out : ImportKeyImagesResult}
    {confirmed : ConfirmedSpends} (images : List KeyImage) :
    (images.foldl (confirmImage id knownSpends)
          (out, confirmed)).2.rows.length + out.imported =
      confirmed.rows.length + (images.foldl (confirmImage id knownSpends)
        (out, confirmed)).1.imported := by
  induction images generalizing out confirmed with
  | nil => rfl
  | cons image images induction =>
      have here := @confirmImage_grows id knownSpends out confirmed image
      rw [List.foldl_cons]
      generalize confirmImage id knownSpends (out, confirmed) image = next
        at here ⊢
      obtain ⟨counting, next⟩ := next
      have later := @induction counting next
      dsimp only at here
      omega

end Images

/-! ## Counters -/

/-- The counters of the first loop. -/
structure SameImages (left right : ImportKeyImagesResult) : Prop where
  imported : left.imported = right.imported
  unconfirmed : left.unconfirmed = right.unconfirmed
  uniqueInputs : left.uniqueInputs = right.uniqueInputs
  knownSpendInputs : left.knownSpendInputs = right.knownSpendInputs
  alreadyConfirmed : left.alreadyConfirmed = right.alreadyConfirmed

theorem SameImages.trans {left middle right : ImportKeyImagesResult}
    (first : SameImages left middle) (second : SameImages middle right) :
    SameImages left right :=
  ⟨first.imported.trans second.imported,
    first.unconfirmed.trans second.unconfirmed,
    first.uniqueInputs.trans second.uniqueInputs,
    first.knownSpendInputs.trans second.knownSpendInputs,
    first.alreadyConfirmed.trans second.alreadyConfirmed⟩

section Counters

variable {id : AccountId} {knownSpends : ImageSet} {outputRows : List Output}
  {state : ImportKeyImagesResult × ImportedSpendSources}

theorem eraseSources_images (existing : List KeyImageSource) :
    SameImages (existing.foldl (eraseSource id) state).1 state.1 := by
  induction existing generalizing state with
  | nil => exact ⟨rfl, rfl, rfl, rfl, rfl⟩
  | cons source existing induction =>
      refine induction.trans ?_
      unfold eraseSource
      dsimp only
      split <;> exact ⟨rfl, rfl, rfl, rfl, rfl⟩

theorem storeSource_images (resolved : KeyImageSource) :
    SameImages (storeSource id state resolved).1 state.1 := by
  have erased := @eraseSources_images id state
    ((valueStream state.2.rows id).filter fun existing =>
      existing.image = resolved.image)
  unfold storeSource
  dsimp only
  split
  · exact ⟨rfl, rfl, rfl, rfl, rfl⟩
  · split <;>
      exact ⟨erased.imported, erased.unconfirmed, erased.uniqueInputs,
        erased.knownSpendInputs, erased.alreadyConfirmed⟩

theorem importSource_images (imported : KeyImageSource) :
    SameImages (importSource id knownSpends outputRows state imported).1
      state.1 := by
  unfold importSource
  dsimp only
  split
  · exact ⟨rfl, rfl, rfl, rfl, rfl⟩
  · split
    · exact ⟨rfl, rfl, rfl, rfl, rfl⟩
    · exact (storeSource_images _).trans ⟨rfl, rfl, rfl, rfl, rfl⟩

theorem importSources_images (sources : List KeyImageSource) :
    SameImages
      (sources.foldl (importSource id knownSpends outputRows) state).1
      state.1 :=
  Outcome.foldl_preserves
    (fun next : ImportKeyImagesResult × ImportedSpendSources =>
      SameImages next.1 state.1)
    (fun _ imported _ same => (importSource_images imported).trans same)
    ⟨rfl, rfl, rfl, rfl, rfl⟩

end Counters

/-! ## The call -/

section Call

variable (state : WalletDb) (id : AccountId) (images : List KeyImage)
  (sources : List KeyImageSource)

/-- The sources in the order of the call, as they are stored. -/
def resolvedSources : List KeyImageSource :=
  sources.filterMap (resolve (state.knownSpends id) (state.getOutputs id))

/-- A stored spend of the account has the image. -/
def Spent (image : KeyImage) : Prop :=
  ∃ spend ∈ state.getSpends id, spend.image = image

/-- A spent image names as its source an output of the account, and the row
has the whole id of that. -/
def Resolves (imported : KeyImageSource) (row : AccountId × KeyImageSource) :
    Prop :=
  state.Spent id imported.image ∧ ∃ output ∈ state.getOutputs id,
    output.spendMeta.id.low = imported.source.low ∧
    output.spendMeta.index = imported.outIndex ∧
    output.link.txHash = imported.txHash ∧ output.pub = imported.pub ∧
    row = (id, { imported with source := output.spendMeta.id })

variable {state}

theorem mem_imageSet {image : KeyImage} :
    image ∈ (SortedRows.empty.addAll images : ImageSet) ↔ image ∈ images := by
  rw [SortedRows.mem_addAll fun _ _ _ _ same => same,
    or_iff_right (SortedRows.not_mem_empty image)]

theorem find?_imageSet {image : KeyImage} :
    ((SortedRows.empty.addAll images : ImageSet).find? image).isSome = true ↔
      image ∈ images := by
  rw [Option.isSome_iff_exists, ← mem_imageSet]
  constructor
  · rintro ⟨found, read⟩
    obtain ⟨member, rfl⟩ := SortedRows.find?_eq_some.mp read
    exact member
  · exact fun member => ⟨image, SortedRows.find?_eq_some.mpr ⟨member, rfl⟩⟩

theorem imageSet_length :
    (SortedRows.empty.addAll images : ImageSet).rows.length =
      images.toFinset.card := by
  rw [← List.toFinset_card_of_nodup (SortedRows.rows_nodup _)]
  congr 1
  ext image
  rw [List.mem_toFinset, List.mem_toFinset, SortedRows.mem_rows, mem_imageSet]

theorem knownSpends_iff {image : KeyImage} :
    ((state.knownSpends id).find? image).isSome = true ↔
      state.Spent id image := by
  rw [knownSpends, find?_imageSet, List.mem_map]
  rfl

theorem resolves_of_resolve {imported resolved : KeyImageSource}
    (found : resolve (state.knownSpends id) (state.getOutputs id) imported =
      some resolved) : state.Resolves id imported (id, resolved) := by
  unfold resolve at found
  split at found
  · cases found
  · rename_i known
    have spent : state.Spent id imported.image :=
      (knownSpends_iff id).mp (by
        simpa [Option.isSome_iff_ne_none] using known)
    obtain ⟨output, matched, rfl⟩ := Option.map_eq_some_iff.mp found
    have named := List.find?_some matched
    simp only [KeyImageSource.names, Bool.and_eq_true, decide_eq_true_eq]
      at named
    exact ⟨spent, output, List.mem_of_find?_eq_some matched, named.1.1.1,
      named.1.1.2, named.1.2, named.2, rfl⟩

theorem Resolves.resolve {imported : KeyImageSource}
    {row : AccountId × KeyImageSource}
    (resolves : state.Resolves id imported row) :
    ∃ resolved, resolve (state.knownSpends id) (state.getOutputs id) imported =
      some resolved ∧ resolved.image = imported.image := by
  obtain ⟨spent, output, member, low, index, txHash, pub, -⟩ := resolves
  have named : imported.names output = true := by
    simp [KeyImageSource.names, low, index, txHash, pub]
  have known := (knownSpends_iff id).mpr spent
  obtain ⟨first, matched⟩ := Option.isSome_iff_exists.mp
    (List.find?_isSome.mpr ⟨output, member, named⟩)
  refine ⟨imported.resolved first, ?_, rfl⟩
  rw [WalletDb.resolve, if_neg
    (by simpa [Option.isSome_iff_ne_none] using known), matched]
  rfl

theorem importKeyImages_sources (one : OneSource state.importedSpendSources) :
    (state.importKeyImages id images sources).2.importedSpendSources =
        (state.resolvedSources id sources).foldl (replaceSource id)
          state.importedSpendSources ∧
      OneSource
        (state.importKeyImages id images sources).2.importedSpendSources := by
  have looped : ∀ out, (sources.foldl (importSource id (state.knownSpends id)
      (state.getOutputs id)) (out, state.importedSpendSources)).2 =
        (state.importKeyImages id images sources).2.importedSpendSources →
      (state.importKeyImages id images sources).2.importedSpendSources =
          (state.resolvedSources id sources).foldl (replaceSource id)
            state.importedSpendSources ∧
        OneSource
          (state.importKeyImages id images sources).2.importedSpendSources := by
    intro out same
    obtain ⟨table, kept⟩ := @importSources_table id (state.knownSpends id)
      (state.getOutputs id) _ out one sources
    rw [← same, table]
    exact ⟨rfl, kept⟩
  unfold importKeyImages at looped ⊢
  dsimp only at looped ⊢
  by_cases some : sources ≠ []
  · rw [if_pos some] at looped ⊢
    exact looped _ rfl
  · rw [if_neg some]
    obtain rfl := not_not.mp some
    exact ⟨rfl, one⟩

/-- The first loop, with the counters it starts from. -/
def confirmed (state : WalletDb) (id : AccountId) (images : List KeyImage) :
    ImportKeyImagesResult × ConfirmedSpends :=
  let uniqueInput : ImageSet := SortedRows.empty.addAll images
  uniqueInput.rows.foldl (confirmImage id (state.knownSpends id))
    ({ ImportKeyImagesResult.zero with
      uniqueInputs := uniqueInput.rows.length }, state.confirmedSpends)

/-- The counters and the table of the first loop are final. -/
theorem importKeyImages_confirmed :
    SameImages (state.importKeyImages id images sources).1
        (confirmed state id images).1 ∧
      (state.importKeyImages id images sources).2.confirmedSpends =
        (confirmed state id images).2 := by
  unfold importKeyImages confirmed
  dsimp only
  split
  · exact ⟨importSources_images sources, rfl⟩
  · exact ⟨⟨rfl, rfl, rfl, rfl, rfl⟩, rfl⟩

theorem confirmed_counted :
    Counted (confirmed state id images).1.uniqueInputs
        (confirmed state id images).1 ∧
      (confirmed state id images).1.uniqueInputs = images.toFinset.card := by
  obtain ⟨counted, unique⟩ := @confirmImages_counted id (state.knownSpends id)
    0 { ImportKeyImagesResult.zero with uniqueInputs :=
      (SortedRows.empty.addAll images : ImageSet).rows.length }
    state.confirmedSpends ⟨rfl, rfl⟩
    (SortedRows.empty.addAll images : ImageSet).rows
  unfold confirmed
  dsimp only
  rw [unique, ← imageSet_length]
  rw [Nat.zero_add] at counted
  exact ⟨counted, rfl⟩

end Call

/-! ## Idempotence and consistency -/

/-- What an import of images and sources leaves and reports. -/
structure ImportsConsistently (state : WalletDb) (id : AccountId)
    (images : List KeyImage) (sources : List KeyImageSource)
    (out : ImportKeyImagesResult) (next : WalletDb) : Prop where
  oneSource : OneSource next.importedSpendSources
  resolved : ∀ row ∈ next.importedSpendSources,
    row ∉ state.importedSpendSources →
    ∃ imported ∈ sources, state.Resolves id imported row
  -- a source that resolves is filed, or a later one of its image is
  filed : ∀ imported ∈ sources, ∀ row, state.Resolves id imported row →
    ∃ other ∈ sources, ∃ stored ∈ next.importedSpendSources,
      stored.2.image = imported.image ∧ state.Resolves id other stored
  kept : ∀ row ∈ state.importedSpendSources,
    (∀ imported ∈ sources, ∀ other, state.Resolves id imported other →
      other.1 = row.1 → other.2.image ≠ row.2.image) →
    row ∈ next.importedSpendSources
  confirmed : ∀ row, row ∈ next.confirmedSpends ↔
    row ∈ state.confirmedSpends ∨
      (row.1 = id ∧ row.2 ∈ images ∧ state.Spent id row.2)
  imports : next.confirmedSpends.rows.length =
    state.confirmedSpends.rows.length + out.imported
  again : (next.importKeyImages id images sources).2 = next
  importsNone : (next.importKeyImages id images sources).1.imported = 0
  distinct : out.uniqueInputs = images.toFinset.card
  uniqueInputs : out.uniqueInputs = out.knownSpendInputs + out.unconfirmed
  knownSpendInputs :
    out.knownSpendInputs = out.imported + out.alreadyConfirmed

/-- A call of `import_key_images`, or one that leaves the imported sources
alone. -/
inductive WalletCall where
  | importKeyImages (id : AccountId) (images : List KeyImage)
      (sources : List KeyImageSource)
  | other

def WalletStep (state : WalletDb) : WalletCall → WalletDb → Prop
  | .importKeyImages id images sources, next =>
      next = (state.importKeyImages id images sources).2
  | .other, next => next.importedSpendSources = state.importedSpendSources

section Runs

variable {start state : WalletDb} {calls : List WalletCall}

theorem oneSource_of_run (run : Run WalletStep start calls state)
    (new : start.importedSpendSources = .empty) :
    OneSource state.importedSpendSources := by
  refine run.preserves (fun state => OneSource state.importedSpendSources)
    ?_ ?_
  · intro state call next one step
    cases call with
    | importKeyImages id images sources =>
        subst step
        exact (importKeyImages_sources id images sources one).2
    | other =>
        show OneSource next.importedSpendSources
        rw [show next.importedSpendSources = state.importedSpendSources from
          step]
        exact one
  · rw [new]
    intro first member
    exact (SortedRows.not_mem_empty first member).elim

private theorem walletDb_eq {left right : WalletDb} (db : left.db = right.db)
    (confirmed : left.confirmedSpends = right.confirmedSpends)
    (sources : left.importedSpendSources = right.importedSpendSources)
    (pending : left.pendingSpends = right.pendingSpends) : left = right := by
  cases left
  cases right
  cases db
  cases confirmed
  cases sources
  cases pending
  rfl

theorem mem_confirmed {id : AccountId} {images : List KeyImage}
    {row : AccountId × KeyImage} :
    row ∈ (confirmed state id images).2 ↔ row ∈ state.confirmedSpends ∨
      (row.1 = id ∧ row.2 ∈ images ∧ state.Spent id row.2) := by
  unfold confirmed
  dsimp only
  rw [mem_confirmImages, SortedRows.mem_rows, mem_imageSet, knownSpends_iff]

theorem confirmed_grows {id : AccountId} {images : List KeyImage} :
    (confirmed state id images).2.rows.length =
      state.confirmedSpends.rows.length +
        (confirmed state id images).1.imported := by
  have grown := @confirmImages_grow id (state.knownSpends id)
    { ImportKeyImagesResult.zero with uniqueInputs :=
      (SortedRows.empty.addAll images : ImageSet).rows.length }
    state.confirmedSpends (SortedRows.empty.addAll images : ImageSet).rows
  exact grown

/-- A second import confirms nothing and files nothing. -/
theorem importKeyImages_again (one : OneSource state.importedSpendSources)
    (id : AccountId) (images : List KeyImage)
    (sources : List KeyImageSource) :
    let next := (state.importKeyImages id images sources).2
    (next.importKeyImages id images sources).2 = next ∧
      (next.importKeyImages id images sources).1.imported = 0 := by
  intro next
  obtain ⟨table, kept⟩ := importKeyImages_sources id images sources one
  obtain ⟨secondTable, -⟩ :=
    @importKeyImages_sources next id images sources kept
  have first := (@importKeyImages_confirmed state id images sources).2
  obtain ⟨counters, second⟩ := @importKeyImages_confirmed next id images sources
  have confirms : (confirmed next id images).2 = next.confirmedSpends := by
    refine SortedRows.ext_mem fun row => ?_
    rw [mem_confirmed, first, mem_confirmed]
    exact or_iff_left_of_imp .inr
  have imports : (confirmed next id images).1.imported = 0 := by
    have grown := @confirmed_grows next id images
    rw [confirms] at grown
    omega
  refine ⟨?_, counters.imported.trans imports⟩
  refine walletDb_eq rfl (second.trans confirms) ?_ rfl
  rw [secondTable, table]
  exact replaceSources_idempotent _

/-- In every state reached, an import is idempotent and consistent. -/
theorem import_key_images_consistent (run : Run WalletStep start calls state)
    (new : start.importedSpendSources = .empty) (id : AccountId)
    (images : List KeyImage) (sources : List KeyImageSource) :
    ImportsConsistently state id images sources
      (state.importKeyImages id images sources).1
      (state.importKeyImages id images sources).2 := by
  have one := oneSource_of_run run new
  obtain ⟨table, kept⟩ := importKeyImages_sources id images sources one
  obtain ⟨counters, confirms⟩ :=
    @importKeyImages_confirmed state id images sources
  obtain ⟨counted, distinct⟩ := @confirmed_counted state id images
  obtain ⟨again, importsNone⟩ := importKeyImages_again one id images sources
  have listed : ∀ {resolved}, resolved ∈ state.resolvedSources id sources →
      ∃ imported ∈ sources, state.Resolves id imported (id, resolved) := by
    intro resolved member
    obtain ⟨imported, importedMember, found⟩ := List.mem_filterMap.mp member
    exact ⟨imported, importedMember, resolves_of_resolve id found⟩
  have stored : ∀ row,
      row ∈ (state.importKeyImages id images sources).2.importedSpendSources ↔
        (row.1 = id ∧ (state.resolvedSources id sources).reverse.find?
            (fun source => source.image = row.2.image) = some row.2) ∨
          (row ∈ state.importedSpendSources ∧ ¬ (row.1 = id ∧
            ∃ source ∈ state.resolvedSources id sources,
              source.image = row.2.image)) := by
    intro row
    rw [table]
    exact mem_replaceSources
  constructor
  case oneSource => exact kept
  case resolved =>
    intro row member fresh
    rcases (stored row).mp member with ⟨owner, last⟩ | ⟨old, -⟩
    · have resolved := List.mem_reverse.mp (List.mem_of_find?_eq_some last)
      rw [show row = (id, row.2) from Prod.ext owner rfl]
      exact listed resolved
    · exact absurd old fresh
  case filed =>
    intro imported member row resolves
    obtain ⟨resolved, found, image⟩ := resolves.resolve
    have present : resolved ∈ state.resolvedSources id sources :=
      List.mem_filterMap.mpr ⟨imported, member, found⟩
    obtain ⟨last, read⟩ : ∃ last, (state.resolvedSources id
        sources).reverse.find? (fun source => source.image =
          imported.image) = some last :=
      Option.isSome_iff_exists.mp (List.find?_isSome.mpr
        ⟨resolved, List.mem_reverse.mpr present, decide_eq_true image⟩)
    have lastImage : last.image = imported.image := by
      simpa using List.find?_some read
    obtain ⟨other, otherMember, otherResolves⟩ :=
      listed (List.mem_reverse.mp (List.mem_of_find?_eq_some read))
    refine ⟨other, otherMember, (id, last), (stored _).mpr (.inl ⟨rfl, ?_⟩),
      lastImage, otherResolves⟩
    rw [← lastImage] at read
    exact read
  case kept =>
    intro row member apart
    refine (stored row).mpr (.inr ⟨member, ?_⟩)
    rintro ⟨owner, source, sourceMember, same⟩
    obtain ⟨imported, importedMember, resolves⟩ := listed sourceMember
    exact apart imported importedMember _ resolves owner.symm same
  case confirmed =>
    intro row
    rw [confirms, mem_confirmed]
  case imports =>
    rw [confirms, counters.imported]
    exact confirmed_grows
  case again => exact again
  case importsNone => exact importsNone
  case distinct => exact counters.uniqueInputs.trans distinct
  case uniqueInputs =>
    rw [counters.uniqueInputs, counters.knownSpendInputs,
      counters.unconfirmed]
    exact counted.inputs.symm
  case knownSpendInputs =>
    rw [counters.knownSpendInputs, counters.imported,
      counters.alreadyConfirmed]
    exact counted.known.symm

end Runs

/-- One output that a stored spend may spend, with the image 9. -/
private def spentWallet : WalletDb where
  db :=
    { sampleDb with
      outputs := SortedRows.empty.add (1,
        ⟨⟨5, 3⟩, ⟨⟨0, 4⟩, 20, 2, 0, 6⟩, 0, 0, 0, 7, 0, 0, ⟨0, 0⟩, 0, .primary⟩)
      spends := SortedRows.empty.add (1,
        ⟨⟨6, 8⟩, 9, ⟨0, 4⟩, 0, 0, 2, 0, ⟨0, 0⟩, .primary⟩) }
  confirmedSpends := .empty
  importedSpendSources := .empty
  pendingSpends := .empty

/-- The wallet names the output by a wrong amount. -/
private def misnamed : KeyImageSource := ⟨9, ⟨20, 4⟩, 3, 7, 0⟩

/-- The image is confirmed and its source filed with the whole id, beside one
that is not known; a second import changes nothing. -/
theorem import_key_images_consistent_again :
    let (out, next) := spentWallet.importKeyImages 1 [9, 8, 9] [misnamed]
    out.uniqueInputs = 2 ∧ out.imported = 1 ∧ out.unconfirmed = 1 ∧
      (1, 9) ∈ next.confirmedSpends ∧
      (1, { misnamed with source := ⟨0, 4⟩ }) ∈ next.importedSpendSources ∧
      ImportsConsistently spentWallet 1 [9, 8, 9] [misnamed] out next ∧
      ImportsConsistently next 1 [9, 8, 9] [misnamed]
        (next.importKeyImages 1 [9, 8, 9] [misnamed]).1
        (next.importKeyImages 1 [9, 8, 9] [misnamed]).2 := by
  refine ⟨by decide, by decide, by decide, by decide, by decide, ?_, ?_⟩
  · exact import_key_images_consistent (.nil _) rfl 1 [9, 8, 9] [misnamed]
  · exact @import_key_images_consistent spentWallet _
      [.importKeyImages 1 [9, 8, 9] [misnamed]] (.cons rfl (.nil _)) rfl 1
      [9, 8, 9] [misnamed]

end WalletDb

end XfoLws.Rest
