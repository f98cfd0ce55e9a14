import XfoLws.Scanner.LoopFrames

/-!
# The chain a scan loop stores

The store callback takes its height from the first account and the hashes by
position.  They fit while the smallest scan height is the start height of the
response in flight, or is zero when that is one.
-/

namespace XfoLws.Scanner

open Db (BlockId)

/-- The accounts are in the order of `by_height`. -/
def Ascending (users : List LwsAccount) : Prop :=
  (scanHeights users).Pairwise (· ≤ ·)

theorem frontHeight_eq (users : List LwsAccount) :
    frontHeight users = (scanHeights users).head?.getD 0 := by
  rw [frontHeight, scanHeights, List.head?_map]

/-- The first account has the smallest scan height. -/
theorem Ascending.frontHeight_le {users : List LwsAccount}
    (ascending : Ascending users) {user : LwsAccount} (member : user ∈ users) :
    frontHeight users ≤ user.height := by
  cases users with
  | nil => cases member
  | cons first rest =>
      rcases List.mem_cons.mp member with rfl | later
      · exact le_rfl
      · exact (List.pairwise_cons.mp ascending).1 user.height
          (List.mem_map_of_mem later)

theorem ascending_sort (users : List LwsAccount) :
    Ascending (sortByHeight users) := by
  have total : Std.Total fun left right : LwsAccount =>
      left.height ≤ right.height := ⟨fun _ _ => le_total _ _⟩
  have transitive : IsTrans LwsAccount fun left right =>
      left.height ≤ right.height := ⟨fun _ _ _ => le_trans⟩
  exact List.pairwise_map.mpr (List.pairwise_insertionSort _ users)

theorem Ascending.resort {status : QueueStatus} {users : List LwsAccount}
    (ascending : Ascending users) : Ascending (status.resort users) := by
  unfold QueueStatus.resort
  split
  · exact ascending_sort _
  · exact ascending

theorem updated_front {users : List LwsAccount} {height : BlockId}
    (nonempty : users ≠ []) (below : frontHeight users ≤ height) :
    frontHeight (users.map (·.updated height)) = height := by
  cases users with
  | nil => exact absurd rfl nonempty
  | cons first rest => exact max_eq_right below

theorem Ascending.updated {users : List LwsAccount} (height : BlockId)
    (ascending : Ascending users) :
    Ascending (users.map (·.updated height)) := by
  unfold Ascending scanHeights at ascending ⊢
  rw [List.map_map, List.pairwise_map]
  exact (List.pairwise_map.mp ascending).imp
    fun below => max_le_max_right height below

/-! ## One turn -/

/-- The ways a turn goes on with the response it asked for. -/
inductive TurnTaken (context : LoopContext) (loop : Loop) (turn : Turn)
    (users : List LwsAccount) (response : GetBlocksFast) : Reply → Prop where
  | older : turn.status.changes = true →
      frontHeight users < response.startHeight →
      TurnTaken context loop turn users response (.fetchNext
        { loop with users := users, startHeight := frontHeight users })
  | top : ¬ (turn.status.changes = true ∧
        frontHeight users < response.startHeight) →
      response.blocks.length = 1 →
      TurnTaken context loop turn users response (.fetchNext
        { loop with
          users := users
          startHeight := wrap64 response.startHeight })
  | stored {final : Processing} : ¬ (turn.status.changes = true ∧
        frontHeight users < response.startHeight) →
      2 ≤ response.blocks.length →
      context.processResponse turn.disk turn.stopped users loop.window
        response = .ok final →
      TurnTaken context loop turn users response (.store
        ⟨final.blockchain, final.users, final.newPow⟩
        { users := final.users.map (·.updated final.height)
          startHeight :=
            wrap64 (response.startHeight + (response.blocks.length - 1))
          window := final.window })

theorem afterSend_ok {sent : Except Error Bool}
    {reply : Except LoopError Reply} {result : Reply}
    (success : afterSend sent reply = .ok result) :
    result = .left false ∨ reply = .ok result := by
  unfold afterSend at success
  split at success
  · cases success
  · cases success
    exact .inl rfl
  · exact .inr success

/-- A turn that does not leave the loop took the response it asked for. -/
theorem takeTurn_ok {context : LoopContext} {loop : Loop} {turn : Turn}
    {reply : Reply} (success : loop.takeTurn context turn = .ok reply) :
    (∃ value, reply = .left value) ∨
    ∃ response, turn.fetched = .blocks response ∧
      response.startHeight = loop.startHeight ∧
      ¬ (turn.status.replace.any (·.isEmpty) ∧ turn.status.push.isEmpty) ∧
      TurnTaken context loop turn (turn.status.resort loop.users) response
        reply := by
  unfold Loop.takeTurn at success
  split at success
  · cases success
    exact .inl ⟨_, rfl⟩
  split at success
  · cases success
    exact .inl ⟨_, rfl⟩
  · cases success
  rename_i response fetched
  split at success
  · cases success
  rename_i nonempty
  split at success
  · cases success
    exact .inl ⟨_, rfl⟩
  rename_i asked
  split at success
  · cases success
    exact .inl ⟨_, rfl⟩
  rename_i work
  dsimp only at success
  split at success
  · rename_i behind
    rcases afterSend_ok success with rfl | taken
    · exact .inl ⟨_, rfl⟩
    · cases taken
      exact .inr ⟨response, fetched, not_not.mp asked, work,
        .older behind.1 behind.2⟩
  rename_i ahead
  split at success
  · rename_i short
    split at success
    · cases success
      exact .inl ⟨_, rfl⟩
    · cases success
    · rcases afterSend_ok success with rfl | taken
      · exact .inl ⟨_, rfl⟩
      · cases taken
        have one : response.blocks.length = 1 :=
          le_antisymm short (List.length_pos_iff.mpr nonempty)
        have top := @TurnTaken.top context loop turn
          (turn.status.resort loop.users) response ahead one
        rw [one]
        exact .inr ⟨response, fetched, not_not.mp asked, work, top⟩
  · rename_i long
    rcases afterSend_ok success with rfl | taken
    · exact .inl ⟨_, rfl⟩
    · unfold Loop.storeBlocks at taken
      split at taken
      · cases taken
        exact .inl ⟨_, rfl⟩
      · cases taken
      · rename_i final processed
        cases taken
        exact .inr ⟨response, fetched, not_not.mp asked, work,
          .stored ahead (Nat.lt_of_not_le long) processed⟩

/-! ## The blocks of a response -/

/-- A response shows the blocks of a chain from its start height on. -/
def Answers (daemon : BlockId → Hash) (response : GetBlocksFast) : Prop :=
  ∀ index data, response.blocks[index]? = some data →
    data.block.hash = daemon (response.startHeight + index)

theorem processBlocks_frame {context : LoopContext} {disk : Option Db}
    {stopped : BlockId → Bool}
    {entries : List (BlockWithTransactions × List (List ℕ))}
    {state final : Processing} (fits : state.height + entries.length < 2 ^ 64)
    (success : entries.foldlM (Processing.processBlock context disk stopped)
      state = .ok final) :
    final.height = state.height + entries.length ∧
      final.blockchain = state.blockchain ++
        entries.map (·.1.block.hash) ∧
      scanHeights final.users = scanHeights state.users := by
  induction entries generalizing state with
  | nil =>
      cases success
      exact ⟨rfl, (List.append_nil _).symm, rfl⟩
  | cons entry entries induction =>
      rw [List.foldlM_cons, Outcome.bind_eq_ok] at success
      obtain ⟨middle, stepped, rest⟩ := success
      obtain ⟨height, appended, heights, -⟩ :=
        Processing.processBlock_ok stepped
      rw [List.length_cons] at fits ⊢
      have unwrapped : middle.height = state.height + 1 := by
        rw [height, wrap64, Nat.mod_eq_of_lt (by lia)]
      obtain ⟨last, all, same⟩ := induction (by lia) rest
      refine ⟨by lia, ?_, same.trans heights⟩
      rw [all, appended, List.append_assoc]
      rfl

/-- The scanned blocks follow the height below them on the chain. -/
theorem Answers.scanned {daemon : BlockId → Hash} {response : GetBlocksFast}
    (answers : Answers daemon response) {index : ℕ}
    {entry : BlockWithTransactions × List (List ℕ)}
    (read : response.scanned.2[index]? = some entry) :
    entry.1.block.hash = daemon (response.scanned.1 + 1 + index) := by
  unfold GetBlocksFast.scanned at read ⊢
  dsimp only at read ⊢
  split at read
  · rename_i overlaps
    rw [List.getElem?_drop] at read
    obtain ⟨block, -⟩ := List.getElem?_zip_eq_some.mp read
    rw [if_pos overlaps, answers _ _ block]
    congr 1
    lia
  · rename_i atOne
    obtain ⟨block, -⟩ := List.getElem?_zip_eq_some.mp read
    rw [if_neg atOne, answers _ _ block, not_not.mp atOne]

/-- A store call fits the response: the hashes stand at their heights on the
chain, and every block that an account is moved over was scanned. -/
structure StoresScanned (daemon : BlockId → Hash) (response : GetBlocksFast)
    (call : StoreCall) : Prop where
  ascending : Ascending call.users
  hashes : ∀ index hash, call.chain[index]? = some hash →
    0 < index ∨ 0 < frontHeight call.users →
    hash = daemon (frontHeight call.users + index)
  scanned : ∀ user ∈ call.users, ∀ height, user.height < height →
    height ≤ frontHeight call.users + (call.chain.length - 1) →
    ∃ index < response.scanned.2.length,
      height = response.scanned.1 + 1 + index

theorem scanned_last {response : GetBlocksFast}
    (lengths : response.blocks.length = response.outputIndices.length)
    (nonempty : 0 < response.blocks.length) :
    response.scanned.1 + response.scanned.2.length =
      response.startHeight + (response.blocks.length - 1) := by
  unfold GetBlocksFast.scanned
  dsimp only
  split
  · simp [lengths]
  · rename_i atOne
    rw [not_not.mp atOne, List.length_zip, ← lengths]
    lia

section Stored

variable {context : LoopContext} {disk : Option Db}
  {stopped : BlockId → Bool} {users : List LwsAccount} {window : Window}
  {response : GetBlocksFast} {final : Processing}

theorem processed_frame (nonempty : 0 < response.blocks.length)
    (fits : response.startHeight + response.blocks.length ≤ 2 ^ 64)
    (processed : context.processResponse disk stopped users window response =
      .ok final) :
    final.height = response.startHeight + (response.blocks.length - 1) ∧
      (∃ first, response.blocks.head? = some first ∧
        final.blockchain = first.block.hash ::
          response.scanned.2.map (·.1.block.hash)) ∧
      scanHeights final.users = scanHeights users := by
  obtain ⟨lengths, started, folded⟩ := processResponse_ok processed
  have last := scanned_last lengths nonempty
  obtain ⟨height, chain, heights⟩ := processBlocks_frame
    (show response.scanned.1 + response.scanned.2.length < 2 ^ 64 by lia)
    folded
  refine ⟨height.trans last, ?_, heights⟩
  obtain ⟨first, rest, blocks⟩ := List.exists_cons_of_length_pos nonempty
  refine ⟨first, by rw [blocks]; rfl, chain.trans ?_⟩
  simp [LoopContext.begin, blocks]

theorem stores_scanned (ascending : Ascending users)
    (front : frontHeight users = response.scanned.1)
    (nonempty : 0 < response.blocks.length)
    (fits : response.startHeight + response.blocks.length ≤ 2 ^ 64)
    (processed : context.processResponse disk stopped users window response =
      .ok final) {daemon : BlockId → Hash} (answers : Answers daemon response) :
    StoresScanned daemon response
      ⟨final.blockchain, final.users, final.newPow⟩ := by
  obtain ⟨-, ⟨first, found, chain⟩, heights⟩ :=
    processed_frame nonempty fits processed
  have finalAscending : Ascending final.users := by
    unfold Ascending
    rw [heights]
    exact ascending
  have finalFront : frontHeight final.users = response.scanned.1 := by
    rw [frontHeight_eq, heights, ← frontHeight_eq, front]
  refine ⟨finalAscending, ?_, ?_⟩
  · intro index hash read positive
    dsimp only at read positive ⊢
    rw [chain] at read
    rw [finalFront] at positive ⊢
    cases index with
    | zero =>
        -- the first block is the one at the front height, unless that is zero
        have above := positive.resolve_left (Nat.lt_irrefl 0)
        have overlaps : response.startHeight ≠ 1 := by
          intro atOne
          simp [GetBlocksFast.scanned, atOne] at above
        cases read
        rw [answers 0 first (by rw [← List.head?_eq_getElem?, found])]
        simp [GetBlocksFast.scanned, overlaps]
    | succ index =>
        rw [List.getElem?_cons_succ, List.getElem?_map] at read
        obtain ⟨entry, entryRead, rfl⟩ := Option.map_eq_some_iff.mp read
        rw [answers.scanned entryRead]
        congr 1
        lia
  · intro user member height above below
    have least := finalAscending.frontHeight_le member
    dsimp only at below
    rw [finalFront] at below least
    rw [chain, List.length_cons, List.length_map] at below
    exact ⟨height - (response.scanned.1 + 1), by lia, by lia⟩

end Stored

/-! ## Whole runs -/

/-- The accounts of a loop go with the request in flight. -/
structure Tracking (loop : Loop) : Prop where
  nonempty : loop.users ≠ []
  ascending : Ascending loop.users
  coupled : loop.startHeight = frontHeight loop.users ∨
    frontHeight loop.users = 0 ∧ loop.startHeight = 1

/-- A turn keeps pace: accounts that come in are not all ahead of the response
in flight, and block one is not stored over accounts scanned to it. -/
structure KeepsPace (loop : Loop) (turn : Turn) : Prop where
  behind : turn.status.changes = true →
    frontHeight (turn.status.resort loop.users) ≤ loop.startHeight
  notOne : ∀ response, turn.fetched = .blocks response →
    2 ≤ response.blocks.length → loop.startHeight = 1 →
    frontHeight (turn.status.resort loop.users) ≠ 1

/-- Heights of blocks have 64 bits. -/
def Turn.Fits (turn : Turn) : Prop :=
  ∀ response, turn.fetched = .blocks response →
    response.startHeight + response.blocks.length ≤ 2 ^ 64

/-- A turn after which the loop goes on. -/
def Loop.Step (context : LoopContext) (loop : Loop) (turn : Turn)
    (next : Loop) : Prop :=
  loop.takeTurn context turn = .ok (.fetchNext next) ∨
    ∃ call, loop.takeTurn context turn = .ok (.store call next)

theorem Tracking.enter {users : List LwsAccount} {sent : Except Error Bool}
    {loop : Loop} (entered : Loop.enter users sent = .ok (.fetchNext loop)) :
    Tracking loop := by
  unfold Loop.enter at entered
  split at entered
  · cases entered
  rename_i some
  rcases afterSend_ok entered with left | taken
  · cases left
  cases taken
  refine ⟨?_, ascending_sort users, ?_⟩
  · intro empty
    have length := congrArg List.length empty
    rw [sortByHeight, List.length_insertionSort] at length
    exact some (by simpa using length)
  · dsimp only
    lia

theorem Tracking.resorted {loop : Loop} {turn : Turn}
    (tracking : Tracking loop)
    (work : ¬ (turn.status.replace.any (·.isEmpty) ∧
      turn.status.push.isEmpty)) :
    turn.status.resort loop.users ≠ [] ∧
      Ascending (turn.status.resort loop.users) := by
  refine ⟨?_, tracking.ascending.resort⟩
  unfold QueueStatus.resort
  split
  · intro empty
    have length := congrArg List.length empty
    rw [sortByHeight, List.length_insertionSort] at length
    have nothing : turn.status.deliver loop.users = [] := by simpa using length
    obtain ⟨replaced, pushed⟩ := List.append_eq_nil_iff.mp nothing
    cases replace : turn.status.replace with
    | none =>
        rw [replace] at replaced
        exact tracking.nonempty replaced
    | some users =>
        rw [replace] at replaced
        exact work ⟨by simpa [replace] using replaced, by simpa using pushed⟩
  · exact tracking.nonempty

/-- Where the accounts stand when a response is taken up. -/
theorem Tracking.front {loop : Loop} {turn : Turn} {response : GetBlocksFast}
    (tracking : Tracking loop) (pace : KeepsPace loop turn)
    (asked : response.startHeight = loop.startHeight)
    (ahead : ¬ (turn.status.changes = true ∧
      frontHeight (turn.status.resort loop.users) < response.startHeight)) :
    loop.startHeight = frontHeight (turn.status.resort loop.users) ∨
      frontHeight (turn.status.resort loop.users) = 0 ∧
        loop.startHeight = 1 := by
  by_cases changed : turn.status.changes = true
  · have below := pace.behind changed
    have above : ¬ frontHeight (turn.status.resort loop.users) <
        response.startHeight := fun less => ahead ⟨changed, less⟩
    exact .inl (by lia)
  · rw [QueueStatus.resort, if_neg changed]
    exact tracking.coupled

theorem Tracking.taken {context : LoopContext} {loop next : Loop}
    {turn : Turn} {response : GetBlocksFast} {reply : Reply}
    (tracking : Tracking loop) (pace : KeepsPace loop turn)
    (fits : response.startHeight + response.blocks.length ≤ 2 ^ 64)
    (asked : response.startHeight = loop.startHeight)
    (work : ¬ (turn.status.replace.any (·.isEmpty) ∧
      turn.status.push.isEmpty))
    (taken : TurnTaken context loop turn (turn.status.resort loop.users)
      response reply)
    (goesOn : reply = .fetchNext next ∨ ∃ call, reply = .store call next) :
    Tracking next := by
  obtain ⟨nonempty, ascending⟩ := tracking.resorted work
  cases taken with
  | older changed behind =>
      obtain rfl : _ = next := by simpa using goesOn
      exact ⟨nonempty, ascending, .inl rfl⟩
  | top ahead one =>
      have front := tracking.front pace asked ahead
      obtain rfl : _ = next := by simpa using goesOn
      refine ⟨nonempty, ascending, ?_⟩
      dsimp only
      rw [wrap64, Nat.mod_eq_of_lt (by lia), asked]
      exact front
  | @stored final ahead long processed =>
      have front := tracking.front pace asked ahead
      obtain rfl : _ = next := by simpa using goesOn
      obtain ⟨height, -, heights⟩ := processed_frame (by lia) fits processed
      have some : final.users ≠ [] := by
        intro empty
        rw [empty] at heights
        exact nonempty (List.map_eq_nil_iff.mp heights.symm)
      have finalFront : frontHeight final.users =
          frontHeight (turn.status.resort loop.users) := by
        rw [frontHeight_eq, heights, ← frontHeight_eq]
      have finalAscending : Ascending final.users := by
        unfold Ascending
        rw [heights]
        exact ascending
      refine ⟨by simpa using some, finalAscending.updated _, .inl ?_⟩
      dsimp only
      rw [updated_front some (by lia), height, wrap64,
        Nat.mod_eq_of_lt (by lia)]

theorem Tracking.step {context : LoopContext} {loop next : Loop} {turn : Turn}
    (tracking : Tracking loop) (pace : KeepsPace loop turn)
    (fits : turn.Fits) (stepped : loop.Step context turn next) :
    Tracking next := by
  obtain ⟨reply, success, goesOn⟩ : ∃ reply,
      loop.takeTurn context turn = .ok reply ∧
        (reply = .fetchNext next ∨ ∃ call, reply = .store call next) := by
    rcases stepped with fetched | ⟨call, stored⟩
    · exact ⟨_, fetched, .inl rfl⟩
    · exact ⟨_, stored, .inr ⟨call, rfl⟩⟩
  rcases takeTurn_ok success with
    ⟨value, rfl⟩ | ⟨response, fetched, asked, work, taken⟩
  · simp at goesOn
  · exact tracking.taken pace (fits response fetched) asked work taken goesOn

/-- In a run whose turns keep pace, every store call has its hashes at their
heights, and moves accounts over scanned blocks only. -/
theorem store_calls_scanned {context : LoopContext} {users : List LwsAccount}
    {sent : Except Error Bool} {start loop next : Loop} {turns : List Turn}
    {turn : Turn} {call : StoreCall}
    (entered : Loop.enter users sent = .ok (.fetchNext start))
    (run : Run (fun loop turn next => KeepsPace loop turn ∧ turn.Fits ∧
      loop.Step context turn next) start turns loop)
    (pace : KeepsPace loop turn) (fits : turn.Fits)
    (stored : loop.takeTurn context turn = .ok (.store call next)) :
    ∃ response, turn.fetched = .blocks response ∧
      ∀ daemon, Answers daemon response →
        StoresScanned daemon response call := by
  have tracking : Tracking loop := run.preserves Tracking
    (fun _ _ _ before stepped =>
      before.step stepped.1 stepped.2.1 stepped.2.2)
    (.enter entered)
  rcases takeTurn_ok stored with
    ⟨value, left⟩ | ⟨response, fetched, asked, work, taken⟩
  · cases left
  refine ⟨response, fetched, fun daemon answers => ?_⟩
  cases taken with
  | stored ahead long processed =>
      have front := tracking.front pace asked ahead
      have notOne := pace.notOne response fetched long
      refine stores_scanned (tracking.resorted work).2 ?_ (by lia)
        (fits response fetched) processed answers
      unfold GetBlocksFast.scanned
      dsimp only
      split
      · dsimp only
        lia
      · dsimp only
        lia

/-! ## Concrete runs -/

/-- A loop that trusts the daemon. -/
def trustedContext : LoopContext :=
  { untrustedContext with untrustedDaemon := false }

/-- A response arrives, and no accounts do. -/
def plainTurn (start : BlockId) (size : ℕ) : Turn where
  stop := false
  fetched := .blocks (plainResponse start size)
  status := ⟨none, [], 1⟩
  waited := .done
  sent := .ok true
  disk := some Db.sampleDb
  stopped := fun _ => false

theorem plainResponse_answers (start : BlockId) (size : ℕ) :
    Answers plainChain (plainResponse start size) := by
  intro index data read
  rw [plainResponse, List.getElem?_map, Option.map_eq_some_iff] at read
  obtain ⟨height, listed, rfl⟩ := read
  obtain ⟨inside, rfl⟩ := List.getElem?_eq_some_iff.mp listed
  simp [plainBlock, plainResponse]

private theorem plainTurn_fits {start : BlockId} {size : ℕ}
    (fits : start + size ≤ 2 ^ 64) : (plainTurn start size).Fits := by
  rintro response ⟨⟩
  simpa [plainResponse] using fits

private theorem plainTurn_pace {loop : Loop} {start : BlockId} {size : ℕ}
    (above : loop.startHeight ≠ 1) : KeepsPace loop (plainTurn start size) :=
  ⟨nofun, fun _ _ _ atOne => absurd atOne above⟩

/-- The second response of an account scanned to height two. -/
theorem store_calls_scanned_at_three :
    ∃ loop call next,
      Loop.takeTurn trustedContext loop (plainTurn 3 2) =
        .ok (.store call next) ∧ loop.startHeight = 3 ∧
      ∃ response, (plainTurn 3 2).fetched = .blocks response ∧
        ∀ daemon, Answers daemon response →
          StoresScanned daemon response call := by
  refine ⟨⟨[scannedUser 3], 3, .empty⟩, _, _, rfl, rfl,
    @store_calls_scanned trustedContext [scannedUser 2] (.ok true) _
      ⟨[scannedUser 3], 3, .empty⟩ _ [plainTurn 2 2] _ _ rfl
      (.cons ⟨plainTurn_pace (by decide), plainTurn_fits (by decide),
        .inr ⟨_, rfl⟩⟩ (.nil _))
      (plainTurn_pace (by decide)) (plainTurn_fits (by decide)) rfl⟩

/-- An account scanned to height one is stored with block one twice. -/
theorem store_calls_repeat_block_one :
    ¬ ∀ (context : LoopContext) (users : List LwsAccount)
      (sent : Except Error Bool) (start loop next : Loop) (turns : List Turn)
      (turn : Turn) (call : StoreCall),
      Loop.enter users sent = .ok (.fetchNext start) →
      Run (fun loop turn next => turn.Fits ∧ loop.Step context turn next)
        start turns loop →
      turn.Fits → loop.takeTurn context turn = .ok (.store call next) →
      ∃ response, turn.fetched = .blocks response ∧
        ∀ daemon, Answers daemon response →
          StoresScanned daemon response call := by
  intro always
  obtain ⟨response, fetched, stores⟩ := always trustedContext [scannedUser 1]
    (.ok true) _ _ _ [] (plainTurn 1 2) _ rfl (.nil _)
    (plainTurn_fits (by decide)) rfl
  cases fetched
  have hashes := (stores plainChain (plainResponse_answers 1 2)).hashes 1
    11 rfl (.inl Nat.one_pos)
  exact absurd hashes (by decide)

end XfoLws.Scanner
