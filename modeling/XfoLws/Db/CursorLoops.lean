import XfoLws.Db.Chain
import XfoLws.Db.Webhooks
import XfoLws.Lib.Cursor
import XfoLws.Lib.LowerBound

/-!
# The loops of the storage

The storage reads and deletes row by row, under a cursor that it moves on.
These are its loops.  Each comes to the database of the operation on whole
tables that has its name.
-/

namespace XfoLws.Db.Cursors

/-! ## Rollback -/

/-- All blocks are duplicates of `blocks_version`. -/
abbrev BlocksCursor := Cursor BlockInfo.id fun _ => ()

/-- The body of a loop that only deletes. -/
def deleted {ρ : Type} (_ : Unit) (_ : ρ) : Except Error Unit := .ok ()

/-- The row of the image goes before the spend. -/
def dropImage (images : SortedRows imagesKey) (row : AccountId × Spend) :
    Except Error (SortedRows imagesKey) :=
  let image : OutputId × KeyImageLink :=
    (row.2.source, ⟨row.2.image, row.2.link⟩)
  match images.find? (imagesKey image) with
  | none => .error (.notFound .images .getBoth)
  | some _ => .ok (images.erase (imagesKey image))

/-- `rollback_spends`. -/
def rollbackSpends (db : Db) (user : AccountId) (height : BlockId) :
    Except Error Db := do
  let (images, spends) ← Cursor.eraseDups Prod.fst
    (fun row => row.1 = user ∧ height ≤ row.2.link.height) dropImage
    db.spends db.images
  .ok { db with
    images := images
    spends := spends }

/-- `rollback_outputs`. -/
def rollbackOutputs (db : Db) (user : AccountId) (height : BlockId) :
    Except Error Db := do
  let ((), outputs) ← Cursor.eraseDups Prod.fst
    (fun row => row.1 = user ∧ height ≤ row.2.link.height) deleted
    db.outputs ()
  .ok { db with outputs := outputs }

/-- The account is scanned again from below `height`. -/
def restarted (height : BlockId) (user : Account) : Account :=
  { user with
    scanHeight := rollbackHeight height
    startHeight := min (rollbackHeight height) user.startHeight }

/-- One pass of the loop in `rollback_accounts`; `new_by_heights` grows
beside the database. -/
def rollbackAccount (height : BlockId) (state : Db × List AccountLookup)
    (row : BlockId × AccountLookup) :
    Except Error (Db × List AccountLookup) :=
  let db := state.1
  match db.accounts.find? (toLex (row.2.status.toNat, row.2.id)) with
  | none => .error (.notFound .accounts .getBoth)
  | some (_, user) => do
      let user := restarted height user
      let db := { db with accounts := db.accounts.put (row.2.status, user) }
      let db ← rollbackOutputs db user.id height
      let db ← rollbackSpends db user.id height
      .ok (db, state.2 ++ [⟨user.id, row.2.status⟩])

/-- `rollback_accounts`. -/
def rollbackAccounts (db : Db) (height : BlockId) : Except Error Db := do
  let ((db, newByHeights), accountsByHeight) ← Cursor.eraseGroups Prod.fst
    (fun row => height ≤ row.1) (rollbackAccount height) db.accountsByHeight
    (db, [])
  .ok { db with
    accountsByHeight := bulkInsert accountsByHeight
      (newByHeights.map fun lookup => (rollbackHeight height, lookup)) false }

/-- `rollback_events`: from the last event back, and on to the user before at
the first one below `height`. -/
def rollbackEvents (db : Db) (height : BlockId) : Db :=
  { db with
    events := Cursor.eraseLast Prod.fst db.events fun row =>
      row.2.link.tx.height < height }

/-- `rollback_chain`, from the block that the cursor stands on. -/
def rollbackChain (db : Db) (cursor : BlocksCursor) (height : BlockId) :
    Except Error Db := do
  let ((), blocks) ← cursor.eraseEach Cursor.nextDup Cursor.nextDup_shorter
    deleted ()
  let ((), pows) ← Cursor.eraseFrom
    (Cursor.nextDup : Cursor BlockPow.id (fun _ => ()) → _)
    Cursor.nextDup_shorter (fun row => row.id = height) deleted db.pows ()
  let db ← rollbackAccounts
    { db with
      blocks := blocks
      pows := pows } height
  .ok (rollbackEvents db height)

/-- `storage::rollback`. -/
def rollback (db : Db) (height : BlockId) : Except Error Db :=
  match (Cursor.seek db.blocks fun row => row.id = height :
      Option BlocksCursor) with
  | none => .ok db
  | some cursor => rollbackChain db cursor height

/-! ## The rows that rollback takes -/

section RollbackRows

variable {db : Db} {user : AccountId} {height : BlockId}

/-- Under a user the rows are sorted by height. -/
theorem user_upward {ρ κ : Type} [LinearOrder κ] {order : ρ → ℕ ×ₗ κ}
    {first second : AccountId × ρ}
    (below : toLex (first.1, order first.2) < toLex (second.1, order second.2))
    (wanted : first.1 = user ∧ height ≤ (ofLex (order first.2)).1) :
    (second.1 = user ∧ height ≤ (ofLex (order second.2)).1) ↔
      second.1 = first.1 := by
  obtain ⟨owner, high⟩ := wanted
  constructor
  · intro both
    exact both.1.trans owner.symm
  · intro same
    refine ⟨same.trans owner, high.trans ?_⟩
    rcases Prod.Lex.toLex_lt_toLex.mp below with earlier | ⟨-, later⟩
    · exact absurd same earlier.ne'
    · exact (Prod.Lex.lt_iff.mp later).elim le_of_lt fun equal => equal.1.le

theorem fst_le {α κ : Type} [LinearOrder α] [LinearOrder κ]
    {first second : α} {left right : κ}
    (below : toLex (first, left) < toLex (second, right)) : first ≤ second :=
  (Prod.Lex.toLex_lt_toLex.mp below).elim le_of_lt fun equal => equal.1.le

theorem foldlM_deleted {ρ : Type} (rows : List ρ) :
    rows.foldlM deleted () = .ok () := by
  induction rows with
  | nil => rfl
  | cons row rows induction => exact induction

theorem rollbackOutputs_eq (db : Db) (user : AccountId) (height : BlockId) :
    rollbackOutputs db user height = .ok (db.rollbackOutputs user height) := by
  rw [rollbackOutputs, Cursor.eraseDups_eq, foldlM_deleted]
  · simp only [Except.map, bind, Except.bind, Db.rollbackOutputs, decide_not]
  · exact fun first second below => fst_le below
  · intro first second below wanted
    simp only [decide_eq_true_eq] at wanted ⊢
    exact user_upward below wanted

/-- The image goes from one table, and the spend from the other. -/
theorem dropSpend_eq (db : Db) (images : SortedRows imagesKey)
    (spends : SortedRows spendsKey) (row : AccountId × Spend) :
    { db with
      images := images
      spends := spends }.dropSpend row =
      (dropImage images row).map fun images =>
        { db with
          images := images
          spends := spends.erase (spendsKey row) } := by
  unfold dropSpend dropImage
  dsimp only
  cases images.find? (imagesKey (row.2.source, ⟨row.2.image, row.2.link⟩)) with
  | none => rfl
  | some image => rfl

theorem rollbackSpends_eq (db : Db) (user : AccountId) (height : BlockId) :
    rollbackSpends db user height = db.rollbackSpends user height := by
  have split := Cursor.foldlM_erase (fun images spends row =>
    dropSpend_eq db images spends row) (db.spendsFrom user height) db.images
    db.spends
  rw [rollbackSpends, Cursor.eraseDups_eq, Db.rollbackSpends, split, spendsFrom,
    Cursor.eraseAll_filter]
  · cases (db.spends.rows.filter fun row =>
      row.1 = user ∧ height ≤ row.2.link.height).foldlM dropImage db.images with
    | error error => rfl
    | ok images => rfl
  · exact fun first second below => fst_le below
  · intro first second below wanted
    simp only [decide_eq_true_eq] at wanted ⊢
    exact user_upward below wanted

/-- The spends go before the index row of the account. -/
theorem rollbackSpends_erase (db : Db) (table : SortedRows accountsByHeightKey)
    (row : BlockId × AccountLookup) (lookups : List AccountLookup)
    (user : AccountId) (height : BlockId) :
    ({ db with accountsByHeight := table }.rollbackSpends user height >>=
      fun db => .ok
        { db with
          accountsByHeight := db.accountsByHeight.erase
            (accountsByHeightKey row) }) =
    (rollbackSpends db user height >>= fun db => .ok (db, lookups)).map
      fun state =>
        { state.1 with
          accountsByHeight := table.erase (accountsByHeightKey row) } := by
  rw [← rollbackSpends_eq]
  unfold rollbackSpends
  dsimp only
  cases Cursor.eraseDups Prod.fst
      (fun row => row.1 = user ∧ height ≤ row.2.link.height) dropImage
      db.spends db.images with
  | error error => rfl
  | ok rows => rfl

theorem rollbackAccount_eq (height : BlockId)
    (state : Db × List AccountLookup)
    (table : SortedRows accountsByHeightKey)
    (row : BlockId × AccountLookup) :
    Db.rollbackAccount height { state.1 with accountsByHeight := table } row =
      (rollbackAccount height state row).map fun state =>
        { state.1 with
          accountsByHeight := table.erase (accountsByHeightKey row) } := by
  unfold Db.rollbackAccount rollbackAccount
  dsimp only
  cases state.1.accounts.find? (toLex (row.2.status.toNat, row.2.id)) with
  | none => rfl
  | some account =>
      obtain ⟨status, user⟩ := account
      dsimp only
      rw [rollbackOutputs_eq]
      exact rollbackSpends_erase
        ({ state.1 with
            accounts := state.1.accounts.put
              (row.2.status, restarted height user) }.rollbackOutputs
          user.id height) table row _ user.id height

theorem rollbackAccount_lookups {height : BlockId}
    {state next : Db × List AccountLookup} {row : BlockId × AccountLookup}
    (done : rollbackAccount height state row = .ok next) :
    next.2 = state.2 ++ [row.2] := by
  unfold rollbackAccount at done
  cases found : state.1.accounts.find?
      (toLex (row.2.status.toNat, row.2.id)) with
  | none =>
      simp only [found] at done
      cases done
  | some account =>
      obtain ⟨status, user⟩ := account
      have keyed := (SortedRows.find?_eq_some.mp found).2
      have named : user.id = row.2.id := congrArg (fun key => (ofLex key).2) keyed
      simp only [found] at done
      obtain ⟨middle, -, done⟩ := Outcome.bind_eq_ok.mp done
      obtain ⟨last, -, done⟩ := Outcome.bind_eq_ok.mp done
      cases done
      change state.2 ++ [⟨user.id, row.2.status⟩] = _
      rw [named]

theorem rollbackAccounts_lookups {height : BlockId}
    {rows : List (BlockId × AccountLookup)}
    {state last : Db × List AccountLookup}
    (done : rows.foldlM (rollbackAccount height) state = .ok last) :
    last.2 = state.2 ++ rows.map Prod.snd := by
  induction rows generalizing state with
  | nil =>
      cases done
      rw [List.map_nil, List.append_nil]
  | cons row rows induction =>
      rw [List.foldlM_cons] at done
      obtain ⟨next, first, rest⟩ := Outcome.bind_eq_ok.mp done
      rw [induction rest, rollbackAccount_lookups first, List.map_cons,
        List.append_assoc, List.singleton_append]

theorem rollbackAccounts_eq (db : Db) (height : BlockId) :
    rollbackAccounts db height = db.rollbackAccounts height := by
  have split := Cursor.foldlM_erase (rollbackAccount_eq height)
    (db.scannedFrom height) (db, []) db.accountsByHeight
  change (db.scannedFrom height).foldlM (Db.rollbackAccount height) db = _
    at split
  rw [rollbackAccounts, Cursor.eraseGroups_eq, Db.rollbackAccounts, split]
  · unfold scannedFrom
    cases done : (db.accountsByHeight.rows.filter fun row =>
        height ≤ row.1).foldlM (rollbackAccount height) (db, []) with
    | error error => rfl
    | ok last =>
        have lookups := rollbackAccounts_lookups done
        dsimp only [Except.map, bind, Except.bind]
        rw [Cursor.eraseAll_filter, lookups, List.nil_append, List.map_map]
        rfl
  · intro first second below wanted
    simp only [decide_eq_true_eq] at wanted ⊢
    exact wanted.trans (fst_le below)

theorem rollbackEvents_eq (db : Db) (height : BlockId) :
    rollbackEvents db height = db.rollbackEvents height := by
  rw [rollbackEvents, Cursor.eraseLast_eq]
  · rfl
  · intro first second below same kept
    simp only [decide_eq_true_eq] at kept ⊢
    rcases Prod.Lex.toLex_lt_toLex.mp below with earlier | ⟨-, later⟩
    · exact absurd same earlier.ne
    · have links := Prod.Lex.le_iff.mp (fst_le later)
      have heights := links.elim le_of_lt fun equal => equal.1.le
      exact heights.trans_lt kept

/-- Under a single key the rows from the cursor on go. -/
theorem eraseEach_onward {ρ κ : Type} [LinearOrder κ] {key : ρ → κ}
    {cursor : Cursor key fun _ => ()} {row : ρ}
    (here : cursor.here = some row) :
    cursor.eraseEach Cursor.nextDup Cursor.nextDup_shorter deleted () =
      .ok ((), cursor.table.filter fun other => key other < key row) := by
  have left := Cursor.leftDups_eq (fun _ _ _ => le_rfl) here rfl
  rw [Cursor.eraseEach_dups here, foldlM_deleted, left]
  simp only [Except.map, true_and, not_le]

theorem rollbackChain_eq (db : Db) {cursor : BlocksCursor} {row : BlockInfo}
    (stored : cursor.table = db.blocks) (here : cursor.here = some row)
    (height : BlockId) :
    rollbackChain db cursor height = db.rollbackChain row.id height := by
  have pows : Cursor.eraseFrom
      (Cursor.nextDup : Cursor BlockPow.id (fun _ => ()) → _)
      Cursor.nextDup_shorter (fun row => row.id = height) deleted db.pows () =
        .ok ((), (db.dropBlocks row.id height).pows) := by
    unfold Cursor.eraseFrom dropBlocks
    dsimp only
    cases sought : (Cursor.seek db.pows fun row => row.id = height :
        Option (Cursor BlockPow.id fun _ => ())) with
    | none =>
        rw [Cursor.seek_key_eq_none sought]
        rfl
    | some cursor =>
        obtain ⟨same, first, stands, named, found⟩ :=
          Cursor.seek_key_eq_some sought
        dsimp only
        rw [eraseEach_onward stands, same, named, found]
        rfl
  rw [rollbackChain, eraseEach_onward here, pows, stored]
  dsimp only [bind, Except.bind]
  rw [rollbackAccounts_eq]
  unfold Db.rollbackChain
  simp only [rollbackEvents_eq]
  rfl

theorem rollback_eq (db : Db) (height : BlockId) :
    rollback db height = db.rollback height := by
  unfold rollback Db.rollback
  cases sought : (Cursor.seek db.blocks fun row => row.id = height :
      Option BlocksCursor) with
  | none => rw [Cursor.seek_key_eq_none sought]
  | some cursor =>
      obtain ⟨stored, row, here, named, found⟩ :=
        Cursor.seek_key_eq_some sought
      rw [found]
      dsimp only
      rw [rollbackChain_eq db stored here, named]

end RollbackRows

/-! ## Extending the chain -/

/-- Where the walk over the blocks stopped, with the cursor on the stored
block that differs, if one does. -/
structure WalkStop where
  current : BlockId
  chain : List Hash
  mismatch : Option BlocksCursor

/-- The comparison loop of `sync_chain`. -/
def syncChainWalk (cursor : BlocksCursor) (current : BlockId) :
    List Hash → WalkStop
  | [] => ⟨current, [], none⟩
  | hash :: chain =>
      match cursor.nextDup with
      | none => ⟨current, hash :: chain, none⟩
      | some next =>
          if next.here.map BlockInfo.hash ≠ some hash then
            ⟨current, hash :: chain, some next⟩
          else syncChainWalk next (wrap64 (current + 1)) chain

/-- `storage::sync_chain`. -/
def syncChain (env : Env) (db : Db) (height : BlockId) (hashes : List Hash)
    (regtest : Bool) : Except Error Db :=
  match hashes with
  | [] => .error .invalidArgument
  | first :: chain =>
      match (Cursor.seek db.blocks fun row => row.id = height :
          Option BlocksCursor) with
      | none => .error (.notFound .blocks .getBoth)
      | some cursor =>
          if cursor.here.map BlockInfo.hash ≠ some first then
            .error .badBlockchain
          else
            let stop := syncChainWalk cursor (wrap64 (height + 1)) chain
            match stop.mismatch with
            | none => .ok (db.appendBlockHashes stop.current stop.chain)
            | some cursor =>
                if !regtest && stop.current ≤ env.getMaxHeight then
                  .error .badBlockchain
                else do
                  let db ← rollbackChain db cursor stop.current
                  .ok (db.appendBlockHashes stop.current stop.chain)

/-- The comparison loop of `sync_pow`. -/
def syncPowWalk (env : Env) (cursor : BlocksCursor) (current : BlockId) :
    List Hash → Except Error WalkStop
  | [] => .ok ⟨current, [], none⟩
  | hash :: chain =>
      if missesCheckpoint env current hash then .error .badBlockchain
      else match cursor.nextDup with
        | none => .ok ⟨current, hash :: chain, none⟩
        | some next =>
            if next.here.map BlockInfo.id ≠ some current then
              .ok ⟨current, hash :: chain, none⟩
            else if next.here.map BlockInfo.hash ≠ some hash then
              if current ≤ env.getMaxHeight then .error .badBlockchain
              else .ok ⟨current, hash :: chain, some next⟩
            else syncPowWalk env next (wrap64 (current + 1)) chain

/-- The rollback of `sync_pow`, if its walk stopped at a mismatch. -/
def rollbackMismatch (db : Db) (stop : WalkStop) : Except Error Db :=
  match stop.mismatch with
  | none => .ok db
  | some cursor => rollbackChain db cursor stop.current

/-- `storage::sync_pow`. -/
def syncPow (env : Env) (db : Db) (height : BlockId) (hashes : List Hash)
    (pow : List PowSync) : Except Error Db :=
  match hashes with
  | [] => .error .invalidArgument
  | first :: chain =>
      if hashes.length ≠ pow.length then .error .invalidArgument
      else match (Cursor.seek db.blocks fun row => row.id = height :
          Option BlocksCursor) with
        | none => .error (.notFound .blocks .getBoth)
        | some cursor =>
            if cursor.here.map BlockInfo.hash ≠ some first then
              .error .badBlockchain
            else do
              let stop ← syncPowWalk env cursor (wrap64 (height + 1)) chain
              let db ← rollbackMismatch db stop
              -- scan checkpoints, this is hardened mode
              if (numbered stop.current stop.chain).any fun entry =>
                  missesCheckpoint env entry.1 entry.2 then
                .error .badBlockchain
              else
                let firstPow := hashes.length - stop.chain.length
                .ok ((db.appendBlockHashes stop.current stop.chain).appendPow
                  stop.current (pow.drop firstPow))

/-! ## The rows that extending compares -/

section Extending

variable {db : Db} {cursor : BlocksCursor} {row : BlockInfo}

/-- The two loops stopped at the same place: the cursor stands on the row that
differs. -/
structure Meets (db : Db) (stop : WalkStop) (ended : WalkEnd) : Prop where
  current : stop.current = ended.current
  chain : stop.chain = ended.chain
  mismatch : Option.Rel (fun (cursor : BlocksCursor) row =>
    cursor.table = db.blocks ∧ cursor.here = some row) stop.mismatch
      ended.mismatch

/-- All blocks are duplicates. -/
theorem nextDup_blocks (cursor : BlocksCursor) :
    cursor.nextDup = cursor.next := by
  unfold Cursor.nextDup
  cases cursor.next with
  | none => rfl
  | some next => simp

theorem next_blocks_none (ended : cursor.nextDup = none) :
    cursor.after = [] := by
  rw [nextDup_blocks] at ended
  exact Cursor.forward_eq_none ended

theorem next_blocks_some {next : BlocksCursor}
    (stored : cursor.table = db.blocks)
    (moved : cursor.nextDup = some next) :
    ∃ row, cursor.after = row :: next.after ∧ next.here = some row ∧
      next.table = db.blocks := by
  rw [nextDup_blocks] at moved
  obtain ⟨row, behind, -, here, -⟩ := Cursor.next_eq_some moved
  exact ⟨row, behind, here, (Cursor.next_table moved).trans stored⟩

theorem after_blocks (stored : cursor.table = db.blocks)
    (here : cursor.here = some row) :
    cursor.after = db.blocksAfter row.id := by
  rw [Cursor.after_eq here, stored]
  rfl

theorem syncChainWalk_eq (stored : cursor.table = db.blocks)
    (current : BlockId) (chain : List Hash) :
    Meets db (syncChainWalk cursor current chain)
      (Db.syncChainWalk cursor.after current chain) := by
  induction chain generalizing cursor current with
  | nil =>
      cases cursor.after with
      | nil => exact ⟨rfl, rfl, .none⟩
      | cons row rows => exact ⟨rfl, rfl, .none⟩
  | cons hash chain induction =>
      rw [syncChainWalk]
      cases moved : cursor.nextDup with
      | none =>
          rw [next_blocks_none moved]
          exact ⟨rfl, rfl, .none⟩
      | some next =>
          obtain ⟨row, behind, here, same⟩ := next_blocks_some stored moved
          rw [behind, Db.syncChainWalk]
          dsimp only
          rw [here, Option.map_some]
          by_cases equal : row.hash = hash
          · rw [if_neg (by simp [equal]), if_neg (not_not_intro equal)]
            exact induction same _
          · rw [if_pos (by simpa using equal), if_pos equal]
            exact ⟨rfl, rfl, .some ⟨same, here⟩⟩

theorem syncPowWalk_eq (env : Env) (stored : cursor.table = db.blocks)
    (current : BlockId) (chain : List Hash) :
    (∃ error, syncPowWalk env cursor current chain = .error error ∧
      Db.syncPowWalk env cursor.after current chain = .error error) ∨
    ∃ stop ended, syncPowWalk env cursor current chain = .ok stop ∧
      Db.syncPowWalk env cursor.after current chain = .ok ended ∧
      Meets db stop ended := by
  induction chain generalizing cursor current with
  | nil =>
      refine .inr ⟨⟨current, [], none⟩, ⟨current, [], none⟩, rfl, ?_,
        ⟨rfl, rfl, .none⟩⟩
      rw [Db.syncPowWalk]
  | cons hash chain induction =>
      rw [syncPowWalk]
      by_cases misses : missesCheckpoint env current hash
      · refine .inl ⟨.badBlockchain, if_pos misses, ?_⟩
        cases cursor.after with
        | nil => rw [Db.syncPowWalk, if_pos misses]
        | cons row rows => rw [Db.syncPowWalk, if_pos misses]
      rw [if_neg misses]
      cases moved : cursor.nextDup with
      | none =>
          rw [next_blocks_none moved, Db.syncPowWalk, if_neg misses]
          exact .inr ⟨_, _, rfl, rfl, ⟨rfl, rfl, .none⟩⟩
      | some next =>
          obtain ⟨row, behind, here, same⟩ := next_blocks_some stored moved
          rw [behind, Db.syncPowWalk, if_neg misses]
          dsimp only
          simp only [here, Option.map_some, ne_eq, Option.some.injEq]
          by_cases ahead : row.id = current
          · by_cases equal : row.hash = hash
            · simp only [ahead, equal, not_true_eq_false, if_false]
              exact induction same _
            · simp only [ahead, equal, not_true_eq_false, not_false_eq_true,
                if_false, if_true]
              split
              · exact .inl ⟨_, rfl, rfl⟩
              · exact .inr ⟨_, _, rfl, rfl, ⟨rfl, rfl, .some ⟨same, here⟩⟩⟩
          · simp only [ahead, not_false_eq_true, if_true]
            exact .inr ⟨_, _, rfl, rfl, ⟨rfl, rfl, .none⟩⟩

theorem syncChain_eq (env : Env) (db : Db) (height : BlockId)
    (hashes : List Hash) (regtest : Bool) :
    syncChain env db height hashes regtest =
      Db.syncChain env db height hashes regtest := by
  unfold syncChain Db.syncChain
  cases hashes with
  | nil => rfl
  | cons first chain =>
      dsimp only
      cases sought : (Cursor.seek db.blocks fun row => row.id = height :
          Option BlocksCursor) with
      | none => rw [Cursor.seek_key_eq_none sought]
      | some cursor =>
          obtain ⟨stored, row, here, named, found⟩ :=
            Cursor.seek_key_eq_some sought
          have walked := syncChainWalk_eq stored (wrap64 (height + 1)) chain
          rw [after_blocks stored here, named] at walked
          rw [found]
          simp only [here, Option.map_some, ne_eq, Option.some.injEq]
          generalize syncChainWalk cursor (wrap64 (height + 1)) chain = stop
            at walked
          generalize Db.syncChainWalk (db.blocksAfter height)
              (wrap64 (height + 1)) chain = ended
            at walked
          obtain ⟨current, rest, mismatch⟩ := stop
          obtain ⟨_, _, differing⟩ := ended
          obtain ⟨rfl, rfl, same⟩ := walked
          dsimp only at same ⊢
          cases same with
          | none => rfl
          | some both =>
              dsimp only
              rw [rollbackChain_eq db both.1 both.2]

theorem rollbackMismatch_eq {stop : WalkStop} {ended : WalkEnd}
    (meets : Meets db stop ended) :
    rollbackMismatch db stop = db.rollbackMismatch ended := by
  obtain ⟨current, rest, mismatch⟩ := stop
  obtain ⟨_, _, differing⟩ := ended
  obtain ⟨rfl, rfl, same⟩ := meets
  unfold rollbackMismatch Db.rollbackMismatch
  dsimp only at same ⊢
  cases same with
  | none => rfl
  | some both => exact rollbackChain_eq db both.1 both.2 _

theorem syncPow_eq (env : Env) (db : Db) (height : BlockId)
    (hashes : List Hash) (pow : List PowSync) :
    syncPow env db height hashes pow = Db.syncPow env db height hashes pow := by
  unfold syncPow Db.syncPow
  cases hashes with
  | nil => rfl
  | cons first chain =>
      dsimp only
      cases sought : (Cursor.seek db.blocks fun row => row.id = height :
          Option BlocksCursor) with
      | none => rw [Cursor.seek_key_eq_none sought]
      | some cursor =>
          obtain ⟨stored, row, here, named, found⟩ :=
            Cursor.seek_key_eq_some sought
          have walked := syncPowWalk_eq env stored (wrap64 (height + 1)) chain
          rw [after_blocks stored here, named] at walked
          rw [found]
          simp only [here, Option.map_some, ne_eq, Option.some.injEq]
          rcases walked with ⟨error, failed, also⟩ |
            ⟨stop, ended, stopped, also, meets⟩
          · rw [failed, also]
            rfl
          · rw [stopped, also]
            dsimp only [bind, Except.bind]
            rw [rollbackMismatch_eq meets, meets.current, meets.chain]

end Extending

/-! ## Webhooks -/

/-- `storage::clear_webhooks` on event ids. -/
def clearWebhookIds (db : Db) (ids : List ℕ) : Db :=
  if ids.isEmpty then db
  else
    let ids := ids.mergeSort
    { db with
      webhooks := Cursor.eraseRows (fun row => row.1) db.webhooks fun row =>
        LowerBound.binarySearch row.2.1.eventId ids
      events := Cursor.eraseRows Prod.fst db.events fun row =>
        LowerBound.binarySearch row.2.linkWebhook.eventId ids }

theorem clearWebhookIds_eq (db : Db) (ids : List ℕ) :
    clearWebhookIds db ids = db.clearWebhookIds ids := by
  have search : ∀ id, LowerBound.binarySearch id ids.mergeSort =
      decide (id ∈ ids) := by
    intro id
    have sorted := List.pairwise_mergeSort' (· ≤ ·) ids
    rw [LowerBound.binarySearch_eq sorted]
    simp
  unfold clearWebhookIds Db.clearWebhookIds
  simp only [Cursor.eraseRows_eq, search]
  split
  · rename_i empty
    simp [List.isEmpty_iff.mp empty]
  · simp

end XfoLws.Db.Cursors
