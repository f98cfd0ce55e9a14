import XfoLws.Db.AccountIndexes
import XfoLws.Rest.WalletViews

/-!
# The wallet views agree

`get_address_info` and `get_address_txs` see the same rows, choose the same
sources and so report the same totals; `get_unspent_outs` returns none of these
sources, and all other outputs when every confirmed key image has one.
-/

namespace XfoLws.Rest

open Db

private theorem order_injective : Function.Injective OutputId.order := by
  rintro ⟨high, low⟩ ⟨_, _⟩ same
  obtain ⟨rfl, rfl⟩ := Prod.mk.inj (toLex.injective same)
  rfl

/-! ## Received outputs -/

/-- What the two loops over the outputs have in common. -/
structure SameReceived (info : AddressInfo.Received)
    (txs : AddressTxs.Received) : Prop where
  rows : info.rows = txs.rows
  totalReceived : info.totalReceived = txs.totalReceived
  spent : (txs.transactions.map AddressTx.spent).sum = 0

theorem receiveOne_same {info : AddressInfo.Received}
    {txs next : AddressTxs.Received} (same : SameReceived info txs)
    {output : Output} (locked : Bool)
    (received : AddressTxs.receiveOne txs output = .ok next) :
    SameReceived (info.add output locked) next := by
  have opened : SameReceived (info.add output locked)
      { txs with
        transactions := txs.transactions ++ [⟨output, [], 0⟩]
        rows := txs.rows ++ [output]
        totalReceived :=
          wrap64 (txs.totalReceived + output.spendMeta.amount) } := by
    refine ⟨?_, ?_, ?_⟩
    · exact congrArg (· ++ [output]) same.rows
    · exact congrArg (fun total => wrap64 (total + output.spendMeta.amount))
        same.totalReceived
    · simp [same.spent]
  unfold AddressTxs.receiveOne at received
  dsimp only at received
  cases found : txs.transactions.getLast? with
  | none =>
      rw [found] at received
      cases received
      exact opened
  | some last =>
      rw [found] at received
      dsimp only at received
      split at received
      · cases received
      · split at received
        · cases received
          exact opened
        · cases received
          refine ⟨opened.rows, opened.totalReceived, ?_⟩
          obtain ⟨front, split⟩ := List.getLast?_eq_some_iff.mp found
          have spent := same.spent
          rw [split] at spent
          simpa [split] using spent

theorem receiveOutputs_same (locked : Output → Bool) (outputs : List Output)
    {info : AddressInfo.Received} {txs next : AddressTxs.Received}
    (same : SameReceived info txs)
    (received : outputs.foldlM AddressTxs.receiveOne txs = .ok next) :
    SameReceived
      (outputs.foldl (fun info output => info.add output (locked output)) info)
      next := by
  induction outputs generalizing info txs with
  | nil =>
      cases received
      exact same
  | cons output outputs induction =>
      rw [List.foldlM_cons] at received
      obtain ⟨middle, first, rest⟩ := Outcome.bind_eq_ok.mp received
      exact induction (receiveOne_same same (locked output) first) rest

theorem receiveOverlay_same {info infoNext : AddressInfo.Received}
    {txs txsNext : AddressTxs.Received} {candidate : TxpoolOverlayMatch}
    (same : SameReceived info txs)
    (infoStep : AddressInfo.receiveOverlay info candidate = .ok infoNext)
    (txsStep : AddressTxs.receiveOverlay txs candidate = .ok txsNext) :
    SameReceived infoNext txsNext := by
  unfold AddressInfo.receiveOverlay at infoStep
  unfold AddressTxs.receiveOverlay at txsStep
  rw [← same.rows] at txsStep
  split at infoStep
  · rename_i known
    rw [if_pos known] at txsStep
    cases infoStep
    cases txsStep
    exact same
  · rename_i unknown
    rw [if_neg unknown] at txsStep
    obtain ⟨_, -, infoStep⟩ := Outcome.bind_eq_ok.mp infoStep
    obtain ⟨_, -, txsStep⟩ := Outcome.bind_eq_ok.mp txsStep
    cases infoStep
    cases txsStep
    refine ⟨rfl, ?_, ?_⟩
    · exact congrArg
        (fun total => wrap64 (total + candidate.output.spendMeta.amount))
        same.totalReceived
    · simp [same.spent]

/-! ## Choices -/

theorem spendUnconfirmed_choices {received : AddressInfo.Received}
    {spent next : AddressInfo.Spent} {spend : Spend}
    (stepped : AddressInfo.spendUnconfirmed received spent spend =
      .ok next) : next.choices = spent.choices := by
  unfold AddressInfo.spendUnconfirmed at stepped
  dsimp only at stepped
  split at stepped
  · cases stepped
    rfl
  · split at stepped
    · cases stepped
      rfl
    · obtain ⟨_, -, stepped⟩ := Outcome.bind_eq_ok.mp stepped
      cases stepped
      rfl

theorem spendOne_choices {info : AddressInfo.Received}
    {txs : AddressTxs.Received} (same : info.rows = txs.rows)
    {confirmed : ImageSet} {imported : SourceMap}
    {spent next : AddressInfo.Spent} {spend : Spend}
    (stepped : AddressInfo.spendOne info confirmed imported spent spend =
      .ok next) :
    next.choices =
      AddressTxs.chooseOne txs confirmed imported spent.choices spend := by
  unfold AddressInfo.spendOne at stepped
  unfold AddressTxs.chooseOne
  dsimp only at stepped
  rw [← same]
  split at stepped
  · rename_i unconfirmed
    rw [if_pos unconfirmed, spendUnconfirmed_choices stepped]
  · rename_i isConfirmed
    rw [if_neg isConfirmed]
    cases chosen : chooseSource info.rows imported spend with
    | none =>
        rw [chosen] at stepped
        cases stepped
        rfl
    | some choice =>
        rw [chosen] at stepped
        cases stepped
        rfl

theorem choices_same {info : AddressInfo.Received} {txs : AddressTxs.Received}
    (same : info.rows = txs.rows) {confirmed : ImageSet} {imported : SourceMap}
    {spends : List Spend} {start final : AddressInfo.Spent}
    (looped : spends.foldlM (AddressInfo.spendOne info confirmed imported)
      start = .ok final) :
    final.choices = spends.foldl
      (AddressTxs.chooseOne txs confirmed imported) start.choices := by
  induction spends generalizing start with
  | nil =>
      cases looped
      rfl
  | cons spend spends induction =>
      rw [List.foldlM_cons] at looped
      obtain ⟨middle, first, rest⟩ := Outcome.bind_eq_ok.mp looped
      rw [induction rest, spendOne_choices same first, List.foldl_cons]

/-! ## Sent amounts -/

private theorem sum_set {α : Type} (items : List α) (value : α → ℕ)
    (index : ℕ) {old : α} (found : items[index]? = some old) (new : α) :
    ((items.set index new).map value).sum + value old =
      (items.map value).sum + value new := by
  induction items generalizing index with
  | nil => cases found
  | cons first items induction =>
      cases index with
      | zero =>
          obtain rfl : first = old := by simpa using found
          simp only [List.set_cons_zero, List.map_cons, List.sum_cons]
          omega
      | succ index =>
          have rest := induction index (by simpa using found)
          simp only [List.set_cons_succ, List.map_cons, List.sum_cons]
          omega

theorem locate_spent (transactions : List AddressTx)
    (choice : ConfirmedSpendChoice) :
    ((AddressTxs.locate transactions choice).1.map AddressTx.spent).sum =
      (transactions.map AddressTx.spent).sum := by
  unfold AddressTxs.locate
  split
  · rfl
  · simp

/-- What the two loops over the choices have in common. -/
structure SameSent (info : AddressInfo.Sent) (txs : AddressTxs.Sent) :
    Prop where
  sources : info.sources = txs.sources
  totalSent : info.totalSent = txs.totalSent
  spent : (txs.transactions.map AddressTx.spent).sum = txs.totalSent

theorem sendOne_same {info infoNext : AddressInfo.Sent}
    {txs txsNext : AddressTxs.Sent} {choice : ConfirmedSpendChoice}
    (same : SameSent info txs)
    (infoStep : AddressInfo.sendOne info choice = .ok infoNext)
    (txsStep : AddressTxs.sendOne txs choice = .ok txsNext) :
    SameSent infoNext txsNext := by
  unfold AddressInfo.sendOne at infoStep
  unfold AddressTxs.sendOne at txsStep
  rw [← same.sources] at txsStep
  cases fresh : info.sources.putNew choice.source with
  | none =>
      rw [fresh] at infoStep txsStep
      cases infoStep
      cases txsStep
      exact same
  | some sources =>
      rw [fresh] at infoStep txsStep
      dsimp only at infoStep txsStep
      obtain ⟨infoTotal, infoAdded, infoStep⟩ :=
        Outcome.bind_eq_ok.mp infoStep
      cases infoStep
      split at txsStep
      · cases txsStep
      · rename_i tx found
        obtain ⟨spent, spentAdded, txsStep⟩ := Outcome.bind_eq_ok.mp txsStep
        obtain ⟨txsTotal, txsAdded, txsStep⟩ := Outcome.bind_eq_ok.mp txsStep
        cases txsStep
        obtain ⟨infoSum, -⟩ := checkedAdd_eq_ok infoAdded
        obtain ⟨spentSum, -⟩ := checkedAdd_eq_ok spentAdded
        obtain ⟨txsSum, -⟩ := checkedAdd_eq_ok txsAdded
        refine ⟨rfl, ?_, ?_⟩
        · show infoTotal = txsTotal
          rw [infoSum, txsSum, same.totalSent]
        · have balance := sum_set _ AddressTx.spent _ found
            { tx with
              spends := tx.spends ++ [⟨choice.spendMeta, choice.spend⟩]
              spent := spent }
          rw [locate_spent, same.spent] at balance
          dsimp only at balance ⊢
          omega

/-! ## What the choices are -/

/-- A choice for a confirmed image, with the output its imported source
names. -/
structure Chosen (outputs : List Output) (confirmed : ImageSet)
    (imported : SourceMap) (spends : List Spend)
    (choice : ConfirmedSpendChoice) : Prop where
  listed : choice.spend ∈ spends
  confirmed : choice.spend.image ∈ confirmed
  found : ∃ output, findOutputByImportedSource outputs imported
      choice.spend.image = some output ∧ choice.spendMeta = output.spendMeta
  source : choice.source = choice.spendMeta.id

theorem chooseSource_eq_some {outputs : List Output} {imported : SourceMap}
    {spend : Spend} {choice : ConfirmedSpendChoice}
    (chosen : chooseSource outputs imported spend = some choice) :
    choice.spend = spend ∧ choice.source = choice.spendMeta.id ∧
      ∃ output, findOutputByImportedSource outputs imported spend.image =
        some output ∧ choice.spendMeta = output.spendMeta := by
  unfold chooseSource at chosen
  split at chosen
  · cases chosen
  · obtain ⟨output, found, rfl⟩ := Option.map_eq_some_iff.mp chosen
    exact ⟨rfl, rfl, output, found, rfl⟩

theorem findOutput_eq_some {outputs : List Output} {imported : SourceMap}
    {image : KeyImage} {output : Output}
    (found : findOutputByImportedSource outputs imported image =
      some output) :
    output ∈ outputs ∧ ∃ source, imported.find? image = some source ∧
      source.source = output.spendMeta.id := by
  unfold findOutputByImportedSource at found
  split at found
  · cases found
  · rename_i source stored
    refine ⟨List.mem_of_find?_eq_some found, source, stored, ?_⟩
    have fits := List.find?_some found
    simp only [KeyImageSource.matchesOutput, Bool.and_eq_true,
      decide_eq_true_eq] at fits
    exact fits.1.1.1.symm

theorem mem_keepChoice {choices : ChoiceMap}
    {choice other : ConfirmedSpendChoice}
    (member : other ∈ keepChoice choices choice) :
    other ∈ choices ∨ other = choice := by
  unfold keepChoice at member
  split at member
  · rcases SortedRows.mem_add.mp member with old | ⟨rfl, -⟩
    · exact .inl old
    · exact .inr rfl
  · split at member
    · rcases SortedRows.mem_put.mp member with rfl | ⟨old, -⟩
      · exact .inr rfl
      · exact .inl old
    · exact .inl member

/-- Choices are replaced by choices for the same image only. -/
theorem exists_keepChoice {choices : ChoiceMap} (choice : ConfirmedSpendChoice)
    {image : KeyImage}
    (there : image = choice.spend.image ∨
      ∃ other ∈ choices, other.spend.image = image) :
    ∃ other ∈ keepChoice choices choice, other.spend.image = image := by
  unfold keepChoice
  split
  · rcases there with rfl | ⟨other, member, same⟩
    · exact SortedRows.exists_key_add choices choice
    · exact ⟨other, SortedRows.mem_add_of_mem member, same⟩
  · rename_i existing found
    obtain ⟨stored, sameImage⟩ := SortedRows.find?_eq_some.mp found
    split
    · rcases there with rfl | ⟨other, member, same⟩
      · exact ⟨choice, SortedRows.mem_put.mpr (.inl rfl), rfl⟩
      · by_cases again : other.spend.image = choice.spend.image
        · exact ⟨choice, SortedRows.mem_put.mpr (.inl rfl),
            again.symm.trans same⟩
        · exact ⟨other, SortedRows.mem_put.mpr (.inr ⟨member, again⟩), same⟩
    · rcases there with rfl | old
      · exact ⟨existing, stored, sameImage⟩
      · exact old

theorem choices_chosen {received : AddressTxs.Received} {confirmed : ImageSet}
    {imported : SourceMap} {spends : List Spend} :
    ∀ choice ∈ spends.foldl (AddressTxs.chooseOne received confirmed imported)
      .empty, Chosen received.rows confirmed imported spends choice := by
  refine Outcome.foldl_preserves (fun choices : ChoiceMap =>
    ∀ choice ∈ choices, Chosen received.rows confirmed imported spends choice)
    ?_ fun choice never => absurd never (SortedRows.not_mem_empty choice)
  intro choices spend listed known choice member
  unfold AddressTxs.chooseOne at member
  split at member
  · exact known choice member
  · rename_i isConfirmed
    cases chosen : chooseSource received.rows imported spend with
    | none =>
        rw [chosen] at member
        exact known choice member
    | some new =>
        rw [chosen] at member
        rcases mem_keepChoice member with old | rfl
        · exact known choice old
        · obtain ⟨rfl, source, found⟩ := chooseSource_eq_some chosen
          exact ⟨listed, not_not.mp isConfirmed, found, source⟩

theorem exists_choice {received : AddressTxs.Received} {confirmed : ImageSet}
    {imported : SourceMap} {spends : List Spend} :
    ∀ spend ∈ spends, spend.image ∈ confirmed →
      (findOutputByImportedSource received.rows imported
        spend.image).isSome →
      ∃ choice ∈ spends.foldl
        (AddressTxs.chooseOne received confirmed imported) .empty,
        choice.spend.image = spend.image := by
  have consumed := @Outcome.foldl_consumes _ _
    (AddressTxs.chooseOne received confirmed imported)
    (fun choices rest => ∀ spend ∈ spends,
      spend.image ∈ confirmed → (findOutputByImportedSource received.rows
        imported spend.image).isSome → spend ∈ rest ∨
        ∃ choice ∈ choices, choice.spend.image = spend.image) ?_
    spends .empty fun spend listed _ _ => .inl listed
  · intro spend listed isConfirmed found
    exact (consumed spend listed isConfirmed found).resolve_left
      List.not_mem_nil
  intro choices first rest known spend listed isConfirmed found
  unfold AddressTxs.chooseOne
  have there := known spend listed isConfirmed found
  by_cases firstConfirmed : first.image ∈ confirmed
  · rw [if_neg (not_not.mpr firstConfirmed)]
    cases chosen : chooseSource received.rows imported first with
    | none =>
        refine there.imp_left fun among => ?_
        rcases List.mem_cons.mp among with rfl | later
        · obtain ⟨output, output_found⟩ := Option.isSome_iff_exists.mp found
          obtain ⟨-, source, stored, -⟩ := findOutput_eq_some output_found
          simp [chooseSource, stored, output_found] at chosen
        · exact later
    | some choice =>
        obtain ⟨same, -, -⟩ := chooseSource_eq_some chosen
        rcases there with among | old
        · rcases List.mem_cons.mp among with rfl | later
          · exact .inr (exists_keepChoice choice (.inl (by rw [same])))
          · exact .inl later
        · exact .inr (exists_keepChoice choice (.inr old))
  · rw [if_pos firstConfirmed]
    refine there.imp_left fun among => ?_
    rcases List.mem_cons.mp among with rfl | later
    · exact absurd isConfirmed firstConfirmed
    · exact later

/-! ## Outputs counted as sent -/

/-- The outputs counted as sent, each source once. -/
structure Counted (choices : List ConfirmedSpendChoice)
    (sent : AddressInfo.Sent) : Prop where
  chosen : ∀ spent ∈ sent.spentOutputs,
    ∃ choice ∈ choices, spent.spendMeta = choice.spendMeta
  sources : ∀ id, id ∈ sent.sources ↔
    ∃ spent ∈ sent.spentOutputs, spent.spendMeta.id = id
  once : (sent.spentOutputs.map fun spent => spent.spendMeta.id).Nodup
  total : sent.totalSent =
    (sent.spentOutputs.map fun spent => spent.spendMeta.amount).sum
  bounded : sent.totalSent < 2 ^ 64

private theorem putNew_source {sources : SourceSet} {id : OutputId} :
    sources.putNew id = none ∧ id ∈ sources ∨
      ∃ next, sources.putNew id = some next ∧ id ∉ sources ∧
        ∀ other, other ∈ next ↔ other = id ∨ other ∈ sources := by
  cases found : sources.putNew id with
  | some next =>
      obtain ⟨fresh, rfl⟩ := SortedRows.putNew_eq_some.mp found
      refine .inr ⟨_, rfl, fun member => fresh id member rfl, fun other => ?_⟩
      rw [SortedRows.mem_put]
      exact or_congr_right (and_iff_left_of_imp (fresh other))
  | none =>
      refine .inl ⟨rfl, ?_⟩
      by_contra absent
      have fresh : ∀ other ∈ sources, other.order ≠ id.order :=
        fun other member same => absent (order_injective same ▸ member)
      rw [SortedRows.putNew_eq_some.mpr ⟨fresh, rfl⟩] at found
      cases found

theorem sendOne_counted {choices : List ConfirmedSpendChoice}
    {sent next : AddressInfo.Sent} {choice : ConfirmedSpendChoice}
    (member : choice ∈ choices) (source : choice.source = choice.spendMeta.id)
    (counted : Counted choices sent)
    (stepped : AddressInfo.sendOne sent choice = .ok next) :
    Counted choices next ∧ choice.source ∈ next.sources ∧
      ∀ id ∈ sent.sources, id ∈ next.sources := by
  unfold AddressInfo.sendOne at stepped
  rcases @putNew_source sent.sources choice.source with
    ⟨taken, known⟩ | ⟨sources, put, fresh, members⟩
  · rw [taken] at stepped
    cases stepped
    exact ⟨counted, known, fun _ old => old⟩
  · rw [put] at stepped
    obtain ⟨total, added, stepped⟩ := Outcome.bind_eq_ok.mp stepped
    cases stepped
    obtain ⟨sum, small⟩ := checkedAdd_eq_ok added
    refine ⟨⟨?_, ?_, ?_, ?_, small counted.bounded⟩,
      (members _).mpr (.inl rfl), fun id old => (members id).mpr (.inr old)⟩
    · intro spent listed
      rcases List.mem_append.mp listed with old | new
      · exact counted.chosen spent old
      · rw [List.mem_singleton.mp new]
        exact ⟨choice, member, rfl⟩
    · intro id
      rw [members, counted.sources, source]
      simp only [List.mem_append, List.mem_singleton, or_and_right, exists_or,
        exists_eq_left]
      rw [or_comm, eq_comm]
    · rw [List.map_append, List.nodup_append]
      refine ⟨counted.once, List.nodup_singleton _, ?_⟩
      rintro _ old _ new rfl
      obtain ⟨spent, listed, same⟩ := List.mem_map.mp old
      rw [List.map_singleton, List.mem_singleton, ← source] at new
      exact fresh ((counted.sources _).mpr ⟨spent, listed, same.trans new⟩)
    · rw [sum, counted.total]
      simp

theorem sent_counted {choices : List ConfirmedSpendChoice}
    (sources : ∀ choice ∈ choices, choice.source = choice.spendMeta.id)
    {sent : AddressInfo.Sent}
    (looped : choices.foldlM AddressInfo.sendOne ⟨.empty, 0, []⟩ =
      .ok sent) :
    Counted choices sent ∧ ∀ choice ∈ choices,
      choice.source ∈ sent.sources := by
  have start : Counted choices ⟨.empty, 0, []⟩ := by
    refine ⟨nofun, fun id => ?_, List.nodup_nil, rfl, by decide⟩
    exact iff_of_false (SortedRows.not_mem_empty id) (by simp)
  have consumed := Outcome.foldlM_consumes
    (fun (sent : AddressInfo.Sent) rest => Counted choices sent ∧
      (∀ choice ∈ rest, choice ∈ choices) ∧ ∀ choice ∈ choices,
        choice ∈ rest ∨ choice.source ∈ sent.sources) ?_
    ⟨start, fun _ listed => listed, fun _ listed => .inl listed⟩ looped
  · obtain ⟨counted, -, covered⟩ := consumed
    exact ⟨counted, fun choice listed =>
      (covered choice listed).resolve_left List.not_mem_nil⟩
  rintro sent first rest next ⟨counted, listed, covered⟩ stepped
  have member := listed first List.mem_cons_self
  obtain ⟨kept, now, before⟩ :=
    sendOne_counted member (sources first member) counted stepped
  refine ⟨kept, fun choice later => listed choice (.tail _ later), ?_⟩
  intro choice among
  rcases covered choice among with left | old
  · rcases List.mem_cons.mp left with rfl | later
    · exact .inr now
    · exact .inl later
  · exact .inr (before _ old)

/-! ## Unspent outputs -/

/-- The source of a confirmed spend in `get_unspent_outs`. -/
def spendSource (confirmed : ImageSet) (imported : SourceMap)
    (spend : Spend) : Option OutputId :=
  if spend.image ∉ confirmed then none
  else some ((imported.find? spend.image).elim spend.source (·.source))

theorem mem_confirmedSources {confirmed : ImageSet} {imported : SourceMap}
    {spends : List Spend} {id : OutputId} :
    id ∈ UnspentOuts.confirmedSources confirmed imported spends ↔
      ∃ spend ∈ spends, spendSource confirmed imported spend = some id := by
  have collected : UnspentOuts.confirmedSources confirmed imported spends =
      SortedRows.empty.addAll
        (spends.filterMap (spendSource confirmed imported)) := by
    unfold UnspentOuts.confirmedSources
    generalize (SortedRows.empty : SourceSet) = sources
    induction spends generalizing sources with
    | nil => rfl
    | cons spend spends induction =>
        rw [List.foldl_cons, induction, List.filterMap_cons]
        unfold spendSource
        by_cases isConfirmed : spend.image ∈ confirmed
        · rw [if_neg (not_not.mpr isConfirmed),
            if_neg (not_not.mpr isConfirmed)]
          cases imported.find? spend.image <;> rfl
        · rw [if_pos isConfirmed, if_pos isConfirmed]
  rw [collected, SortedRows.mem_addAll,
    or_iff_right (SortedRows.not_mem_empty id), List.mem_filterMap]
  exact fun _ _ _ _ same => order_injective same

/-- One output is returned, or left out for one of four reasons. -/
theorem selectOne_cases {state : WalletDb} {request : UnspentOutsRequest}
    {confirmed : ImageSet} {imported : SourceMap} {sources : SourceSet}
    {pending : List PendingSpend} {selected next : UnspentOuts.Selected}
    {output : Output}
    (stepped : UnspentOuts.selectOne state request confirmed imported sources
      pending selected output = .ok next) :
    (next.unspent = selected.unspent ∧ next.received = selected.received ∧
      (output.spendMeta.amount < request.threshold ∨
        output.spendMeta.mixinCount < request.minimumMixin ∨
        hasConfirmedSpendImageWithoutImportedSource
          (state.getImages output.spendMeta.id) confirmed imported = true ∨
        output.spendMeta.id ∈ sources ∨
        ∃ spend ∈ pending, pendingSpendMatchesOutput spend output = true)) ∨
      next.unspent = selected.unspent ++ [output] ∧
        next.received =
          wrap64 (selected.received + output.spendMeta.amount) ∧
        output.spendMeta.id ∉ sources := by
  unfold UnspentOuts.selectOne at stepped
  dsimp only at stepped
  split at stepped
  · rename_i skipped
    obtain ⟨_, -, stepped⟩ := Outcome.bind_eq_ok.mp stepped
    cases stepped
    exact .inl ⟨rfl, rfl, skipped.imp_right .inl⟩
  obtain ⟨_, -, stepped⟩ := Outcome.bind_eq_ok.mp stepped
  split at stepped
  · rename_i imageThere
    obtain ⟨_, -, stepped⟩ := Outcome.bind_eq_ok.mp stepped
    cases stepped
    exact .inl ⟨rfl, rfl, .inr (.inr (.inl imageThere))⟩
  split at stepped
  · rename_i sourceThere
    obtain ⟨_, -, stepped⟩ := Outcome.bind_eq_ok.mp stepped
    cases stepped
    exact .inl ⟨rfl, rfl, .inr (.inr (.inr (.inl sourceThere)))⟩
  rename_i notSource
  split at stepped
  · rename_i pendingThere
    obtain ⟨_, -, stepped⟩ := Outcome.bind_eq_ok.mp stepped
    cases stepped
    exact .inl ⟨rfl, rfl, .inr (.inr (.inr (.inr
      (List.any_eq_true.mp pendingThere))))⟩
  · obtain ⟨_, -, stepped⟩ := Outcome.bind_eq_ok.mp stepped
    cases stepped
    exact .inr ⟨rfl, rfl, notSource⟩

/-- Without dust, pending spends and images that lack a source, exactly the
outputs that are no source are returned. -/
theorem select_all {state : WalletDb} {request : UnspentOutsRequest}
    {confirmed : ImageSet} {imported : SourceMap} {sources : SourceSet}
    {outputs : List Output} (threshold : request.threshold = 0)
    (mixin : request.minimumMixin = 0)
    (imaged : ∀ id, hasConfirmedSpendImageWithoutImportedSource
      (state.getImages id) confirmed imported = false)
    {start final : UnspentOuts.Selected} (small : start.received < 2 ^ 64)
    (looped : outputs.foldlM (UnspentOuts.selectOne state request confirmed
      imported sources []) start = .ok final) :
    final.unspent =
        start.unspent ++ outputs.filter (·.spendMeta.id ∉ sources) ∧
      final.received = wrap64 (start.received +
        ((outputs.filter (·.spendMeta.id ∉ sources)).map
          (·.spendMeta.amount)).sum) := by
  induction outputs generalizing start with
  | nil =>
      cases looped
      have kept : wrap64 final.received = final.received :=
        Nat.mod_eq_of_lt small
      simp [kept]
  | cons output outputs induction =>
      rw [List.foldlM_cons] at looped
      obtain ⟨middle, first, rest⟩ := Outcome.bind_eq_ok.mp looped
      rcases selectOne_cases first with
        ⟨unspent, received, reason⟩ | ⟨unspent, received, notSource⟩
      · have source : output.spendMeta.id ∈ sources := by
          rw [threshold, mixin, imaged] at reason
          simpa using reason
        obtain ⟨later, sum⟩ := induction (received ▸ small) rest
        rw [later, sum, unspent, received]
        simp [source]
      · have bounded : middle.received < 2 ^ 64 :=
          received ▸ Nat.mod_lt _ (by decide)
        obtain ⟨later, sum⟩ := induction bounded rest
        rw [later, sum, unspent, received]
        simp [notSource, wrap64, Nat.add_assoc]

/-! ## The handlers taken apart -/

/-- The totals of `get_address_info` and where they come from. -/
structure InfoParts (env : Env) (state : WalletDb) (user : Account)
    (overlay : List TxpoolOverlayMatch) (locked : Output → Bool)
    (info : AddressInfo) where
  received : AddressInfo.Received
  spent : AddressInfo.Spent
  sent : AddressInfo.Sent
  overlaid : overlay.foldlM AddressInfo.receiveOverlay
    (AddressInfo.receiveOutputs locked (state.getOutputs user.id)) =
      .ok received
  looped : (state.getSpends user.id).foldlM (AddressInfo.spendOne received
    (confirmedImages (state.getConfirmedSpendImages user.id))
    (importedSourceMap (state.getImportedSpendSources user.id)))
      ⟨.empty, 0, .empty, 0, 0, .empty⟩ = .ok spent
  summed : spent.choices.rows.foldlM AddressInfo.sendOne ⟨.empty, 0, []⟩ =
    .ok sent
  totalReceived : info.totalReceived = received.totalReceived
  totalSent : info.totalSent = sent.totalSent
  spentOutputs : info.spentOutputs = sent.spentOutputs

theorem info_parts {env : Env} {rules : LockRules} {clock : ℤ}
    {state : WalletDb} {creds : AccountCredentials}
    {overlay : List TxpoolOverlayMatch} {user : Account} {info : AddressInfo}
    (opened : openAccount env state.db creds = .ok user)
    (reported : getAddressInfo env rules clock state creds overlay =
      .ok info) :
    ∃ locked, Nonempty (InfoParts env state user overlay locked info) := by
  unfold getAddressInfo at reported
  rw [opened] at reported
  obtain ⟨_, ⟨⟩, reported⟩ := Outcome.bind_eq_ok.mp reported
  obtain ⟨last, -, reported⟩ := Outcome.bind_eq_ok.mp reported
  obtain ⟨received, overlaid, reported⟩ := Outcome.bind_eq_ok.mp reported
  obtain ⟨spent, looped, reported⟩ := Outcome.bind_eq_ok.mp reported
  obtain ⟨_, -, reported⟩ := Outcome.bind_eq_ok.mp reported
  obtain ⟨sent, summed, reported⟩ := Outcome.bind_eq_ok.mp reported
  cases reported
  exact ⟨_, ⟨received, spent, sent, overlaid, looped, summed, rfl, rfl, rfl⟩⟩

theorem txs_parts {env : Env} {state : WalletDb} {creds : AccountCredentials}
    {overlay : List TxpoolOverlayMatch} {user : Account} {txs : AddressTxs}
    (opened : openAccount env state.db creds = .ok user)
    (reported : getAddressTxs env state creds overlay = .ok txs) :
    ∃ first received : AddressTxs.Received, ∃ sent : AddressTxs.Sent,
      (state.getOutputs user.id).foldlM AddressTxs.receiveOne
          ⟨[], [], 0, 0⟩ = .ok first ∧
        overlay.foldlM AddressTxs.receiveOverlay first = .ok received ∧
        ((state.getSpends user.id).foldl (AddressTxs.chooseOne received
            (confirmedImages (state.getConfirmedSpendImages user.id))
            (importedSourceMap (state.getImportedSpendSources user.id)))
          .empty).rows.foldlM AddressTxs.sendOne
            ⟨.empty, 0, received.transactions⟩ = .ok sent ∧
        txs.totalReceived = received.totalReceived ∧
        txs.transactions.Perm sent.transactions := by
  unfold getAddressTxs at reported
  rw [opened] at reported
  obtain ⟨_, ⟨⟩, reported⟩ := Outcome.bind_eq_ok.mp reported
  obtain ⟨last, -, reported⟩ := Outcome.bind_eq_ok.mp reported
  obtain ⟨first, looped, reported⟩ := Outcome.bind_eq_ok.mp reported
  obtain ⟨received, overlaid, reported⟩ := Outcome.bind_eq_ok.mp reported
  obtain ⟨sent, summed, reported⟩ := Outcome.bind_eq_ok.mp reported
  cases reported
  exact ⟨first, received, sent, looped, overlaid, summed, rfl,
    List.mergeSort_perm _ _⟩

theorem unspent_parts {env : Env} {clock : ℤ}
    {fetch : List Hash → Except Failure TransactionsReply} {state : WalletDb}
    {rpc : Except Failure FeeEstimate} {request : UnspentOutsRequest}
    {user : Account} {unspent : UnspentOuts}
    (opened : openAccount env state.db request.creds = .ok user)
    (reported : getUnspentOuts env clock fetch state rpc request =
      .ok unspent) :
    ∃ selected : UnspentOuts.Selected,
      (state.getOutputs user.id).foldlM (UnspentOuts.selectOne state request
          (confirmedImages (state.getConfirmedSpendImages user.id))
          (importedSourceMap (state.getImportedSpendSources user.id))
          (UnspentOuts.confirmedSources
            (confirmedImages (state.getConfirmedSpendImages user.id))
            (importedSourceMap (state.getImportedSpendSources user.id))
            (state.getSpends user.id))
          ((state.getPendingSpends user.id).filter
            fun spend => spend.active clock.toNat))
          ⟨0, 0, 0, 0, 0, 0, 0, []⟩ = .ok selected ∧
        unspent.amount = selected.received ∧
        ∀ returned ∈ unspent.outputs, returned.info ∈ selected.unspent := by
  unfold getUnspentOuts at reported
  obtain ⟨rpc, -, reported⟩ := Outcome.bind_eq_ok.mp reported
  rw [opened] at reported
  obtain ⟨_, ⟨⟩, reported⟩ := Outcome.bind_eq_ok.mp reported
  obtain ⟨selected, looped, reported⟩ := Outcome.bind_eq_ok.mp reported
  obtain ⟨keys, -, reported⟩ := Outcome.bind_eq_ok.mp reported
  obtain ⟨outputs, attached, reported⟩ := Outcome.bind_eq_ok.mp reported
  split at reported
  · cases reported
  split at reported
  · cases reported
  cases reported
  refine ⟨selected, looped, rfl, fun returned member => ?_⟩
  obtain ⟨output, listed, made⟩ := Outcome.mem_mapM attached member
  unfold UnspentOuts.attachKeys at made
  split at made
  · cases made
  · cases made
    exact listed

namespace InfoParts

variable {env : Env} {state : WalletDb} {user : Account}
  {overlay : List TxpoolOverlayMatch} {locked : Output → Bool}
  {info : AddressInfo}

/-- The rows behind the choices, as `get_address_txs` collects them. -/
theorem choices_eq (parts : InfoParts env state user overlay locked info) :
    parts.spent.choices = (state.getSpends user.id).foldl
      (AddressTxs.chooseOne ⟨[], parts.received.rows, 0, 0⟩
        (confirmedImages (state.getConfirmedSpendImages user.id))
        (importedSourceMap (state.getImportedSpendSources user.id)))
      .empty :=
  choices_same rfl parts.looped

theorem chosen (parts : InfoParts env state user overlay locked info) :
    ∀ choice ∈ parts.spent.choices.rows, Chosen parts.received.rows
      (confirmedImages (state.getConfirmedSpendImages user.id))
      (importedSourceMap (state.getImportedSpendSources user.id))
      (state.getSpends user.id) choice := by
  rw [parts.choices_eq]
  exact choices_chosen

theorem counted (parts : InfoParts env state user overlay locked info) :
    Counted parts.spent.choices.rows parts.sent ∧
      ∀ choice ∈ parts.spent.choices.rows,
        choice.source ∈ parts.sent.sources :=
  sent_counted (fun choice member => (parts.chosen choice member).source)
    parts.summed

theorem source (parts : InfoParts env state user overlay locked info)
    {spent : TransactionSpend} (listed : spent ∈ parts.sent.spentOutputs) :
    spent.spendMeta.id ∈ UnspentOuts.confirmedSources
      (confirmedImages (state.getConfirmedSpendImages user.id))
      (importedSourceMap (state.getImportedSpendSources user.id))
      (state.getSpends user.id) := by
  obtain ⟨choice, member, same⟩ := parts.counted.1.chosen spent listed
  obtain ⟨spend, confirmed, ⟨output, found, sameMeta⟩, -⟩ :=
    parts.chosen choice member
  obtain ⟨-, source, stored, sourceId⟩ := findOutput_eq_some found
  refine mem_confirmedSources.mpr ⟨choice.spend, spend, ?_⟩
  rw [spendSource, if_neg (not_not.mpr confirmed), stored, same, sameMeta]
  exact congrArg some sourceId

end InfoParts

/-! ## The amount that is left -/

theorem receiveOutputs_eq (locked : Output → Bool) (outputs : List Output) :
    (AddressInfo.receiveOutputs locked outputs).rows = outputs ∧
      (AddressInfo.receiveOutputs locked outputs).totalReceived =
        wrap64 (outputs.map (·.spendMeta.amount)).sum := by
  have general : ∀ start : AddressInfo.Received,
      start.totalReceived < 2 ^ 64 →
      let final := outputs.foldl
        (fun received output => received.add output (locked output)) start
      final.rows = start.rows ++ outputs ∧
        final.totalReceived = wrap64 (start.totalReceived +
          (outputs.map (·.spendMeta.amount)).sum) := by
    induction outputs with
    | nil =>
        intro start small
        have kept : wrap64 start.totalReceived = start.totalReceived :=
          Nat.mod_eq_of_lt small
        simp [kept]
    | cons output outputs induction =>
        intro start small
        obtain ⟨rows, total⟩ := induction (start.add output (locked output))
          (Nat.mod_lt _ (by decide))
        dsimp only at rows total ⊢
        rw [List.foldl_cons, rows, total]
        simp [AddressInfo.Received.add, wrap64, Nat.add_assoc]
  have whole := general ⟨[], .empty, 0, 0, 0⟩ (by decide)
  unfold AddressInfo.receiveOutputs
  simpa using whole

private theorem nodup_spendMeta {α : Type} {items : List α}
    {spendMeta : α → SpendMeta}
    (ids : (items.map fun item => (spendMeta item).id).Nodup) :
    (items.map spendMeta).Nodup := by
  have through : items.map (fun item => (spendMeta item).id) =
      (items.map spendMeta).map SpendMeta.id := by
    rw [List.map_map]
    rfl
  rw [through] at ids
  exact ids.of_map

/-- Without an overlay the rows are the stored outputs. -/
theorem InfoParts.received_eq {env : Env} {state : WalletDb} {user : Account}
    {locked : Output → Bool} {info : AddressInfo}
    (parts : InfoParts env state user [] locked info) :
    parts.received.rows = state.getOutputs user.id ∧
      parts.received.totalReceived =
        wrap64 ((state.getOutputs user.id).map (·.spendMeta.amount)).sum := by
  have same : AddressInfo.receiveOutputs locked (state.getOutputs user.id) =
      parts.received := Except.ok.inj parts.overlaid
  rw [← same]
  exact receiveOutputs_eq locked _

/-- With an exact source for every confirmed image, the outputs counted as
sent are those whose id is a source. -/
theorem InfoParts.spent_perm {env : Env} {state : WalletDb} {user : Account}
    {locked : Output → Bool} {info : AddressInfo}
    (parts : InfoParts env state user [] locked info)
    (distinct : ((state.getOutputs user.id).map (·.spendMeta.id)).Nodup)
    (exact : ∀ image ∈ state.getConfirmedSpendImages user.id,
      (findOutputByImportedSource (state.getOutputs user.id)
        (importedSourceMap (state.getImportedSpendSources user.id))
        image).isSome) :
    (parts.sent.spentOutputs.map (·.spendMeta)).Perm
      (((state.getOutputs user.id).filter fun output =>
        output.spendMeta.id ∈ UnspentOuts.confirmedSources
          (confirmedImages (state.getConfirmedSpendImages user.id))
          (importedSourceMap (state.getImportedSpendSources user.id))
          (state.getSpends user.id)).map (·.spendMeta)) := by
  have received := parts.received_eq.1
  obtain ⟨counted, covered⟩ := parts.counted
  have once := nodup_spendMeta counted.once
  have apart := nodup_spendMeta distinct
  refine (List.perm_ext_iff_of_nodup once
    (apart.sublist (List.filter_sublist.map _))).mpr fun spendMeta => ?_
  simp only [List.mem_map, List.mem_filter, decide_eq_true_eq]
  constructor
  · rintro ⟨spent, listed, rfl⟩
    obtain ⟨choice, member, same⟩ := counted.chosen spent listed
    obtain ⟨output, found, sameMeta⟩ := (parts.chosen choice member).found
    rw [received] at found
    exact ⟨output, ⟨(findOutput_eq_some found).1,
      sameMeta ▸ same ▸ parts.source listed⟩, sameMeta ▸ same.symm⟩
  · rintro ⟨output, ⟨stored, isSource⟩, rfl⟩
    obtain ⟨spend, listed, found⟩ := mem_confirmedSources.mp isSource
    unfold spendSource at found
    split at found
    · cases found
    rename_i isConfirmed
    have isConfirmed := not_not.mp isConfirmed
    have image : spend.image ∈ state.getConfirmedSpendImages user.id :=
      (SortedRows.mem_of_mem_addAll isConfirmed).resolve_left
        (SortedRows.not_mem_empty _)
    have some := exact spend.image image
    obtain ⟨other, otherFound⟩ := Option.isSome_iff_exists.mp some
    obtain ⟨otherStored, source, known, sourceId⟩ :=
      findOutput_eq_some otherFound
    rw [known] at found
    have sameId : other.spendMeta.id = output.spendMeta.id :=
      sourceId.symm.trans (Option.some.inj found)
    obtain rfl : other = output :=
      List.inj_on_of_nodup_map distinct otherStored stored sameId
    obtain ⟨choice, member, sameImage⟩ := @exists_choice
      ⟨[], parts.received.rows, 0, 0⟩
      (confirmedImages (state.getConfirmedSpendImages user.id))
      (importedSourceMap (state.getImportedSpendSources user.id)) _
      spend listed isConfirmed (by rw [received]; exact some)
    rw [← parts.choices_eq] at member
    have facts := parts.chosen choice member
    have chosen := facts.found
    rw [received, sameImage, otherFound] at chosen
    obtain ⟨_, ⟨⟩, sameMeta⟩ := chosen
    have sent := covered choice member
    rw [facts.source, sameMeta] at sent
    obtain ⟨spent, among, spentId⟩ := (counted.sources _).mp sent
    refine ⟨spent, among, ?_⟩
    obtain ⟨choice, member, same⟩ := counted.chosen spent among
    obtain ⟨last, lastFound, lastMeta⟩ := (parts.chosen choice member).found
    rw [received] at lastFound
    rw [same, lastMeta] at spentId ⊢
    rw [List.inj_on_of_nodup_map distinct (findOutput_eq_some lastFound).1
      stored spentId]

theorem InfoParts.totals_agree {env : Env} {state : WalletDb}
    {creds : AccountCredentials} {overlay : List TxpoolOverlayMatch}
    {user : Account} {locked : Output → Bool} {info : AddressInfo}
    (parts : InfoParts env state user overlay locked info)
    (opened : openAccount env state.db creds = .ok user) {txs : AddressTxs}
    (reported : getAddressTxs env state creds overlay = .ok txs) :
    txs.totalReceived = info.totalReceived ∧
      (txs.transactions.map AddressTx.spent).sum = info.totalSent := by
  obtain ⟨first, received, sent, looped, overlaid, summed, total, perm⟩ :=
    txs_parts opened reported
  have start : SameReceived ⟨[], .empty, 0, 0, 0⟩ ⟨[], [], 0, 0⟩ :=
    ⟨rfl, rfl, rfl⟩
  have same : SameReceived parts.received received := by
    refine Outcome.foldlM_relates SameReceived ?_
      (receiveOutputs_same locked _ start looped) parts.overlaid overlaid
    intro _ _ _ _ _ agree infoStep txsStep
    exact receiveOverlay_same agree infoStep txsStep
  rw [← choices_same same.rows parts.looped] at summed
  have sentSame : SameSent parts.sent sent := by
    refine Outcome.foldlM_relates SameSent ?_ ⟨rfl, rfl, same.spent⟩
      parts.summed summed
    intro _ _ _ _ _ agree infoStep txsStep
    exact sendOne_same agree infoStep txsStep
  constructor
  · rw [total, parts.totalReceived, same.totalReceived]
  · rw [(perm.map AddressTx.spent).sum_nat, sentSame.spent,
      ← sentSame.totalSent, parts.totalSent]

theorem unspent_notSource {env : Env} {clock : ℤ}
    {fetch : List Hash → Except Failure TransactionsReply} {state : WalletDb}
    {rpc : Except Failure FeeEstimate} {request : UnspentOutsRequest}
    {user : Account} {unspent : UnspentOuts}
    (opened : openAccount env state.db request.creds = .ok user)
    (reported : getUnspentOuts env clock fetch state rpc request =
      .ok unspent) :
    ∀ returned ∈ unspent.outputs,
      returned.info.spendMeta.id ∉ UnspentOuts.confirmedSources
        (confirmedImages (state.getConfirmedSpendImages user.id))
        (importedSourceMap (state.getImportedSpendSources user.id))
        (state.getSpends user.id) := by
  obtain ⟨selected, looped, -, returnedFrom⟩ := unspent_parts opened reported
  have notSource := Outcome.foldlM_preserves
    (fun selected : UnspentOuts.Selected => ∀ output ∈ selected.unspent,
      output.spendMeta.id ∉ UnspentOuts.confirmedSources
        (confirmedImages (state.getConfirmedSpendImages user.id))
        (importedSourceMap (state.getImportedSpendSources user.id))
        (state.getSpends user.id)) ?_ (by simp) looped
  · exact fun returned member =>
      notSource returned.info (returnedFrom returned member)
  intro selected output next _ kept stepped
  rcases selectOne_cases stepped with ⟨same, -⟩ | ⟨same, -, fresh⟩
  · rw [same]
    exact kept
  · rw [same]
    intro other member
    rcases List.mem_append.mp member with old | new
    · exact kept other old
    · rw [List.mem_singleton.mp new]
      exact fresh

/-- A confirmed image with an exact source hides no output by itself. -/
theorem noImage_withoutSource {state : WalletDb} {id : AccountId}
    (exact : ∀ image ∈ state.getConfirmedSpendImages id,
      (findOutputByImportedSource (state.getOutputs id)
        (importedSourceMap (state.getImportedSpendSources id)) image).isSome)
    (images : List KeyImageLink) :
    hasConfirmedSpendImageWithoutImportedSource images
      (confirmedImages (state.getConfirmedSpendImages id))
      (importedSourceMap (state.getImportedSpendSources id)) = false := by
  refine List.any_eq_false.mpr fun image _ => ?_
  simp only [Bool.and_eq_true, decide_eq_true_eq, not_and]
  intro isConfirmed
  have there := (SortedRows.mem_of_mem_addAll isConfirmed).resolve_left
    (SortedRows.not_mem_empty _)
  obtain ⟨output, found⟩ :=
    Option.isSome_iff_exists.mp (exact image.value there)
  obtain ⟨-, source, known, -⟩ := findOutput_eq_some found
  simp [known]

/-- What is not a source is what was received but not sent. -/
theorem InfoParts.amount_left {env : Env} {state : WalletDb} {user : Account}
    {locked : Output → Bool} {info : AddressInfo}
    (parts : InfoParts env state user [] locked info)
    (distinct : ((state.getOutputs user.id).map (·.spendMeta.id)).Nodup)
    (exact : ∀ image ∈ state.getConfirmedSpendImages user.id,
      (findOutputByImportedSource (state.getOutputs user.id)
        (importedSourceMap (state.getImportedSpendSources user.id))
        image).isSome) {left : ℕ}
    (leftEq : left = (((state.getOutputs user.id).filter fun output =>
      output.spendMeta.id ∉ UnspentOuts.confirmedSources
        (confirmedImages (state.getConfirmedSpendImages user.id))
        (importedSourceMap (state.getImportedSpendSources user.id))
        (state.getSpends user.id)).map (·.spendMeta.amount)).sum) :
    wrap64 left = sub64 info.totalReceived info.totalSent ∧
      (((state.getOutputs user.id).map (·.spendMeta.amount)).sum < 2 ^ 64 →
        wrap64 left + info.totalSent = info.totalReceived) := by
  have total := parts.totalReceived.trans parts.received_eq.2
  obtain ⟨-, -, -, counted, bounded⟩ := parts.counted.1
  have sent := ((parts.spent_perm distinct exact).map SpendMeta.amount).sum_nat
  rw [List.map_map, List.map_map] at sent
  rw [← parts.totalSent] at counted bounded
  have split := ((List.filter_append_perm (fun output : Output =>
    decide (output.spendMeta.id ∈ UnspentOuts.confirmedSources
      (confirmedImages (state.getConfirmedSpendImages user.id))
      (importedSourceMap (state.getImportedSpendSources user.id))
      (state.getSpends user.id))) (state.getOutputs user.id)).map
        (·.spendMeta.amount)).sum_nat
  rw [List.map_append, List.sum_append_nat] at split
  simp only [Function.comp_def] at sent
  simp only [← decide_not] at split
  rw [sent] at counted
  rw [← counted, ← leftEq] at split
  rw [total, ← split]
  simp only [wrap64, sub64]
  omega

/-- The views agree: both totals of the two reports; no output counted as sent
is returned as unspent; and the unspent amount is what was received but not
sent, when every confirmed image has an exact source and nothing else is left
out. -/
theorem walletViews_agree (env : Env) (rules : LockRules)
    (state : WalletDb) (creds : AccountCredentials)
    (overlay : List TxpoolOverlayMatch) (user : Account)
    (opened : openAccount env state.db creds = .ok user)
    (distinct : ((state.getOutputs user.id).map (·.spendMeta.id)).Nodup)
    (clock : ℤ) (info : AddressInfo)
    (infoReported : getAddressInfo env rules clock state creds overlay =
      .ok info) :
    (∀ txs, getAddressTxs env state creds overlay = .ok txs →
      txs.totalReceived = info.totalReceived ∧
        (txs.transactions.map AddressTx.spent).sum = info.totalSent) ∧
    info.totalSent = (info.spentOutputs.map (·.spendMeta.amount)).sum ∧
    ∀ unspentClock fetch rpc request unspent, request.creds = creds →
      getUnspentOuts env unspentClock fetch state rpc request = .ok unspent →
      (∀ spent ∈ info.spentOutputs, ∀ returned ∈ unspent.outputs,
        returned.info.spendMeta.id ≠ spent.spendMeta.id) ∧
      ((∀ image ∈ state.getConfirmedSpendImages user.id,
          (findOutputByImportedSource (state.getOutputs user.id)
            (importedSourceMap (state.getImportedSpendSources user.id))
            image).isSome) →
        (∀ pending ∈ state.getPendingSpends user.id,
          pending.active unspentClock.toNat = false) →
        overlay = [] → request.threshold = 0 → request.minimumMixin = 0 →
        unspent.amount = sub64 info.totalReceived info.totalSent ∧
          (((state.getOutputs user.id).map (·.spendMeta.amount)).sum <
              2 ^ 64 →
            unspent.amount + info.totalSent = info.totalReceived)) := by
  obtain ⟨locked, ⟨parts⟩⟩ := info_parts opened infoReported
  refine ⟨fun txs => parts.totals_agree opened, ?_, ?_⟩
  · rw [parts.totalSent, parts.spentOutputs]
    exact parts.counted.1.total
  intro unspentClock fetch rpc request unspent sameAccount unspentReported
  rw [← sameAccount] at opened
  constructor
  · intro spent listed returned member same
    rw [parts.spentOutputs] at listed
    exact unspent_notSource opened unspentReported returned member
      (same ▸ parts.source listed)
  · intro exactSources inactive noOverlay threshold mixin
    subst overlay
    obtain ⟨selected, looped, amount, -⟩ :=
      unspent_parts opened unspentReported
    have noPending : (state.getPendingSpends user.id).filter
        (fun spend => spend.active unspentClock.toNat) = [] :=
      List.filter_eq_nil_iff.mpr fun pending stored => by
        rw [inactive pending stored]
        decide
    rw [noPending] at looped
    obtain ⟨-, received⟩ := select_all threshold mixin
      (fun _ => noImage_withoutSource exactSources _) (by decide) looped
    rw [amount, received]
    exact parts.amount_left distinct exactSources (Nat.zero_add _)

/-! ## One wallet -/

/-- Two outputs; a ring lists both, and its image was imported with the first
as its source. -/
def sampleWallet : WalletDb where
  db :=
    { sampleDb with
      accounts := SortedRows.empty.add
        (.active, ⟨1, 0, sampleAddress, 7, 0, 0, 0, 0, .primary, 0⟩)
      accountsByAddress := SortedRows.empty.add
        ⟨sampleAddress, ⟨1, .active⟩⟩
      outputs := SortedRows.empty.addAll
        [(1, ⟨⟨1, 50⟩, ⟨⟨0, 5⟩, 30, 1, 0, 9⟩, 0, 0, 51, 60, 61, 128, ⟨0, 0⟩,
            0, .primary⟩),
          (1, ⟨⟨1, 52⟩, ⟨⟨0, 6⟩, 12, 1, 1, 9⟩, 0, 0, 53, 62, 63, 128, ⟨0, 0⟩,
            0, .primary⟩)]
      spends := SortedRows.empty.addAll
        [(1, ⟨⟨2, 54⟩, 70, ⟨0, 5⟩, 0, 0, 1, 0, ⟨0, 0⟩, .primary⟩),
          (1, ⟨⟨2, 54⟩, 70, ⟨0, 6⟩, 0, 0, 1, 0, ⟨0, 0⟩, .primary⟩)]
      images := SortedRows.empty.addAll
        [(⟨0, 5⟩, ⟨70, ⟨2, 54⟩⟩), (⟨0, 6⟩, ⟨70, ⟨2, 54⟩⟩)] }
  confirmedSpends := SortedRows.empty.add (1, 70)
  importedSpendSources := SortedRows.empty.add (1, ⟨70, ⟨0, 5⟩, 50, 60, 0⟩)
  pendingSpends := .empty

def sampleLockRules : LockRules := ⟨500000000, 120, 1, 120, 10⟩

def sampleUnspentRequest : UnspentOutsRequest :=
  ⟨⟨sampleAddress, 7⟩, 0, none, none, none⟩

/-- The daemon knows the transactions. -/
def sampleFetch (_ : List Hash) : Except Failure TransactionsReply :=
  .ok ⟨[], [(50, []), (52, [])]⟩

/-- The first output is sent, and the second is left. -/
theorem sampleWallet_views :
    ∃ info txs unspent, getAddressInfo sampleEnv sampleLockRules 0 sampleWallet
        ⟨sampleAddress, 7⟩ [] = .ok info ∧
      getAddressTxs sampleEnv sampleWallet ⟨sampleAddress, 7⟩ [] = .ok txs ∧
      getUnspentOuts sampleEnv 0 sampleFetch sampleWallet (.ok ⟨1000, 1, 1⟩)
        sampleUnspentRequest = .ok unspent ∧
      info.totalReceived = 42 ∧ info.totalSent = 30 ∧
      txs.totalReceived = info.totalReceived ∧
      (txs.transactions.map AddressTx.spent).sum = info.totalSent ∧
      unspent.amount = sub64 info.totalReceived info.totalSent := by
  refine ⟨_, _, _, rfl, rfl, rfl, rfl, rfl, ?_⟩
  obtain ⟨totals, -, left⟩ := walletViews_agree sampleEnv sampleLockRules
    sampleWallet ⟨sampleAddress, 7⟩ [] _ rfl (by decide) 0 _ rfl
  obtain ⟨received, sent⟩ := totals _ rfl
  obtain ⟨-, amounts⟩ := left 0 sampleFetch (.ok ⟨1000, 1, 1⟩)
    sampleUnspentRequest _ rfl rfl
  exact ⟨received, sent, (amounts (by decide) (by decide) rfl rfl rfl).1⟩

end XfoLws.Rest
