import Mathlib.Data.List.Chain
import Mathlib.Data.List.Lex
import Mathlib.Order.Fin.Basic
import XfoLws.Lib.LowerBound
import XfoLws.Wire.Json

/-!
# Endpoints of the REST server

`get_endpoint` picks one of two tables by the start of a URI and searches it by
halving, although one entry of the first table is out of order.
-/

namespace XfoLws.Rest

open Wire

structure Endpoint where
  name : Bytes
  maxSize : ℕ
  isAsync : Bool
deriving DecidableEq

def endpoint (name : String) (maxSize : ℕ) (isAsync : Bool) : Endpoint :=
  ⟨asciiBytes name.toList, maxSize, isAsync⟩

def endpoints : List Endpoint :=
  [endpoint "/daemon_status" 1024 true,
    endpoint "/get_address_info" (2 * 1024) false,
    endpoint "/get_address_txs" (2 * 1024) false,
    endpoint "/get_random_outs" (2 * 1024) true,
    endpoint "/get_subaddrs" (2 * 1024) false,
    endpoint "/get_txt_records" 0 false,
    endpoint "/get_unspent_outs" (2 * 1024) true,
    endpoint "/get_version" 1024 false,
    endpoint "/import_key_images" (64 * 1024) false,
    endpoint "/import_wallet_request" (2 * 1024) false,
    endpoint "/login" (2 * 1024) false,
    endpoint "/multisig/balance" (2 * 1024) false,
    endpoint "/multisig/kex/finalize" (4 * 1024) false,
    endpoint "/multisig/kex/submit" (64 * 1024) false,
    endpoint "/multisig/kex/status" (2 * 1024) false,
    endpoint "/multisig/register_tx" (4 * 1024) false,
    endpoint "/multisig/register_wallet" (4 * 1024) false,
    endpoint "/multisig/transactions" (2 * 1024) false,
    endpoint "/multisig/txsets/register" (512 * 1024) false,
    endpoint "/multisig/txsets/signature" (512 * 1024) false,
    endpoint "/multisig/txsets/submit" (4 * 1024) false,
    endpoint "/multisig/wallets" 1024 false,
    endpoint "/provision_subaddrs" (2 * 1024) false,
    endpoint "/request_rescan" (2 * 1024) false,
    endpoint "/submit_raw_tx" (512 * 1024) true,
    endpoint "/upsert_subaddrs" (10 * 1024) false]

def adminEndpoints : List Endpoint :=
  [endpoint "/accept_requests" (50 * 1024) false,
    endpoint "/add_account" (50 * 1024) false,
    endpoint "/list_accounts" 100 false,
    endpoint "/list_requests" 100 false,
    endpoint "/modify_account_status" (50 * 1024) false,
    endpoint "/reject_requests" (50 * 1024) false,
    endpoint "/rescan" (50 * 1024) false,
    endpoint "/validate" (50 * 1024) false,
    endpoint "/webhook_add" (50 * 1024) false,
    endpoint "/webhook_delete" (50 * 1024) false,
    endpoint "/webhook_delete_uuid" (50 * 1024) false,
    endpoint "/webhook_list" 100 false]

/-- The URIs that a port serves. -/
structure RestServer where
  standard : Option Bytes
  admin : Option Bytes
deriving DecidableEq

/-- What follows the start of a URI. -/
def rest? (start : Option Bytes) (uri : Bytes) : Option Bytes :=
  match start with
  | none => none
  | some start =>
      if start.isPrefixOf uri then some (uri.drop start.length) else none

/-- The table that is selected, with the rest of the URI. -/
def RestServer.handlers (server : RestServer) (uri : Bytes) :
    Option (List Endpoint × Bytes) :=
  match rest? server.admin uri with
  | some rest => some (adminEndpoints, rest)
  | none =>
      match rest? server.standard uri with
      | some rest => some (endpoints, rest)
      | none => none

/-- The search of a table, with `by_name`. -/
def findHandler (handlers : List Endpoint) (uri : Bytes) : Option Endpoint :=
  let handler := LowerBound.position (fun entry => entry.name < uri) handlers
  match handlers[handler]? with
  | none => none
  | some entry => if entry.name ≠ uri then none else some entry

def RestServer.getEndpoint (server : RestServer) (uri : Bytes) : Option Endpoint :=
  match server.handlers uri with
  | none => none
  | some (handlers, rest) => findHandler handlers rest

/-- The entry of the selected table with the name. -/
def RestServer.linearEndpoint (server : RestServer) (uri : Bytes) : Option Endpoint :=
  match server.handlers uri with
  | none => none
  | some (handlers, rest) => handlers.find? fun entry => entry.name = rest

def kexSubmit : Endpoint := endpoint "/multisig/kex/submit" (64 * 1024) false

def kexStatus : Endpoint := endpoint "/multisig/kex/status" (2 * 1024) false

/-! ## Sorted parts of the tables -/

/-- The entries before the first probe. -/
def earlyEndpoints : List Endpoint := endpoints.take 13

/-- The entries behind the one that is out of order. -/
def laterEndpoints : List Endpoint := endpoints.drop 15

theorem endpoints_split :
    endpoints = earlyEndpoints ++ kexSubmit :: kexStatus :: laterEndpoints := rfl

theorem sorted_of_chain {entries : List Endpoint}
    (chain : entries.IsChain fun first second => first.name < second.name) :
    entries.Pairwise fun first second => first.name < second.name := by
  have names : (entries.map Endpoint.name).IsChain (· < ·) :=
    (List.isChain_map _).mpr chain
  exact List.pairwise_map.mp names.pairwise

/-- Of distinct names the first entry of a name is the only one. -/
theorem find?_name {entries : List Endpoint} {entry : Endpoint}
    (distinct : (entries.map Endpoint.name).Nodup) (member : entry ∈ entries) :
    (entries.find? fun other => other.name = entry.name) = some entry := by
  cases found : entries.find? fun other => other.name = entry.name with
  | none => simpa using List.find?_eq_none.mp found entry member
  | some other =>
      have same : other.name = entry.name := by simpa using List.find?_some found
      have inside := List.mem_of_find?_eq_some found
      rw [List.inj_on_of_nodup_map distinct inside member same]

theorem adminEndpoints_sorted :
    adminEndpoints.Pairwise fun first second => first.name < second.name :=
  sorted_of_chain (by decide +kernel)

/-- Sorted, once the entry out of order is before its neighbour. -/
theorem swapped_sorted :
    (earlyEndpoints ++ kexStatus :: kexSubmit :: laterEndpoints).Pairwise
      fun first second => first.name < second.name :=
  sorted_of_chain (by decide +kernel)

theorem earlyEndpoints_sorted :
    (earlyEndpoints ++ [kexSubmit]).Pairwise fun first second =>
      first.name < second.name := by
  refine List.Pairwise.sublist ?_ swapped_sorted
  apply (List.Sublist.refl earlyEndpoints).append
  exact .cons _ (.cons_cons _ (List.nil_sublist _))

theorem laterEndpoints_sorted :
    (kexStatus :: laterEndpoints).Pairwise fun first second =>
      first.name < second.name := by
  refine List.Pairwise.sublist ?_ swapped_sorted
  refine List.Sublist.trans ?_ (List.sublist_append_right _ _)
  exact .cons_cons _ (.cons _ (.refl _))

theorem kexStatus_lt_kexSubmit : kexStatus.name < kexSubmit.name := by
  have behind := (List.pairwise_append.mp swapped_sorted).2.1
  exact List.rel_of_pairwise_cons behind List.mem_cons_self

theorem early_lt_kexSubmit : ∀ entry ∈ earlyEndpoints, entry.name < kexSubmit.name := by
  intro entry member
  apply (List.pairwise_append.mp earlyEndpoints_sorted).2.2 entry member
  exact List.mem_singleton_self _

theorem earlyEndpoints_le :
    ∀ entry ∈ earlyEndpoints ++ [kexSubmit], ¬ kexSubmit.name < entry.name := by
  intro entry member
  rcases List.mem_append.mp member with early | submit
  · exact (early_lt_kexSubmit entry early).asymm
  · rw [List.mem_singleton.mp submit]
    exact lt_irrefl _

theorem kexSubmit_lt_later : ∀ entry ∈ laterEndpoints, kexSubmit.name < entry.name := by
  intro entry member
  have behind := (List.pairwise_append.mp swapped_sorted).2.1
  exact List.rel_of_pairwise_cons (List.pairwise_cons.mp behind).2 member

theorem kexStatus_ne_early :
    ∀ entry ∈ earlyEndpoints ++ [kexSubmit], entry.name ≠ kexStatus.name := by
  intro entry member
  rcases List.mem_append.mp member with early | submit
  · apply ne_of_lt
    exact (List.pairwise_append.mp swapped_sorted).2.2 entry early _ List.mem_cons_self
  · rw [List.mem_singleton.mp submit]
    exact kexStatus_lt_kexSubmit.ne'

theorem endpoints_distinct : (endpoints.map Endpoint.name).Nodup := by
  have swapped : (earlyEndpoints ++ kexStatus :: kexSubmit :: laterEndpoints).Perm
      endpoints := (List.Perm.swap _ _ _).append_left _
  apply (swapped.map Endpoint.name).nodup
  exact (List.pairwise_map.mpr swapped_sorted).imp ne_of_lt

theorem adminEndpoints_distinct : (adminEndpoints.map Endpoint.name).Nodup :=
  (List.pairwise_map.mpr adminEndpoints_sorted).imp ne_of_lt

section

variable {uri : Bytes}

theorem findHandler_eq (handlers : List Endpoint) (uri : Bytes) :
    findHandler handlers uri =
      (handlers[LowerBound.position (fun entry => entry.name < uri) handlers]?).filter
        fun entry => entry.name = uri := by
  unfold findHandler
  dsimp only
  cases handlers[LowerBound.position (fun entry => entry.name < uri) handlers]? with
  | none => rfl
  | some entry =>
      by_cases same : entry.name = uri
      · simp [Option.filter, same]
      · simp [Option.filter, same]

theorem findHandler_sorted {handlers : List Endpoint}
    (sorted : handlers.Pairwise fun first second => first.name < second.name) :
    findHandler handlers uri = handlers.find? fun entry => entry.name = uri := by
  rw [findHandler_eq]
  exact LowerBound.getElem?_position_filter sorted

/-- The first probe is the entry before the one at the wrong place. -/
theorem position_endpoints (before : Endpoint → Bool) :
    LowerBound.position before endpoints =
      if before kexSubmit then
        LowerBound.search (fun index => (endpoints[index]?).any before) 25 14 12
      else LowerBound.search (fun index => (endpoints[index]?).any before) 25 0 13 := by
  have probe : (endpoints[13]?).any before = before kexSubmit := rfl
  have whole : endpoints.length = 25 + 1 := rfl
  rw [LowerBound.position, whole, LowerBound.search_succ (by decide)]
  simp only [Nat.reduceAdd, Nat.reduceDiv, Nat.reduceSub, Nat.zero_add, probe]

theorem findHandler_above (above : kexSubmit.name < uri) :
    findHandler endpoints uri =
      (kexStatus :: laterEndpoints).find? fun entry => entry.name = uri := by
  have partitioned := LowerBound.partitioned_of_sorted laterEndpoints_sorted uri
  have segment := partitioned.search_segment (earlyEndpoints ++ [kexSubmit]) []
    (show _ ≤ 25 by decide)
  have border := LowerBound.getElem?_border (fun entry => entry.name < uri)
    (earlyEndpoints ++ [kexSubmit]) (kexStatus :: laterEndpoints) []
  have position : LowerBound.position (fun entry => entry.name < uri) endpoints =
      14 + ((kexStatus :: laterEndpoints).takeWhile fun entry =>
        entry.name < uri).length := by
    rw [position_endpoints, if_pos (decide_eq_true above)]
    exact segment
  simp only [List.append_nil] at border
  rw [findHandler_eq, position]
  apply Eq.trans (congrArg _ border)
  exact LowerBound.head?_dropWhile_filter laterEndpoints_sorted

/-- Left of the probe, and at it, the search finds what is listed there. -/
theorem findHandler_below (below : ¬ kexSubmit.name < uri) :
    findHandler endpoints uri =
      (earlyEndpoints ++ [kexSubmit]).find? fun entry => entry.name = uri := by
  have partitioned := LowerBound.partitioned_of_sorted
    (List.pairwise_append.mp earlyEndpoints_sorted).1 uri
  have segment := partitioned.search_segment []
    (kexSubmit :: kexStatus :: laterEndpoints) (show _ ≤ 25 by decide)
  have border := LowerBound.getElem?_border (fun entry => entry.name < uri)
    [] earlyEndpoints (kexSubmit :: kexStatus :: laterEndpoints)
  have position : LowerBound.position (fun entry => entry.name < uri) endpoints =
      0 + (earlyEndpoints.takeWhile fun entry => entry.name < uri).length := by
    rw [position_endpoints, if_neg (by simpa using below)]
    exact segment
  have concat : ((earlyEndpoints ++ [kexSubmit]).dropWhile fun entry =>
      entry.name < uri) =
        (earlyEndpoints.dropWhile fun entry => entry.name < uri) ++ [kexSubmit] := by
    rw [List.dropWhile_append]
    split
    · rename_i none_left
      rw [List.isEmpty_iff.mp none_left,
        List.dropWhile_cons_of_neg (by simpa using below)]
      rfl
    · rfl
  rw [findHandler_eq, position]
  apply Eq.trans (congrArg _ border)
  rw [← LowerBound.head?_dropWhile_filter earlyEndpoints_sorted, concat]
  cases earlyEndpoints.dropWhile fun entry => entry.name < uri with
  | nil => rfl
  | cons entry entries => rfl

theorem find?_endpoints (uri : Bytes) :
    (endpoints.find? fun entry => entry.name = uri) =
      ((earlyEndpoints ++ [kexSubmit]).find? fun entry => entry.name = uri).or
        ((kexStatus :: laterEndpoints).find? fun entry => entry.name = uri) := by
  rw [← List.find?_append, List.append_assoc]
  rfl

theorem findHandler_kexStatus : findHandler endpoints kexStatus.name = none := by
  rw [findHandler_below kexStatus_lt_kexSubmit.asymm, List.find?_eq_none]
  simpa using kexStatus_ne_early

theorem kexStatus_mem_endpoints : kexStatus ∈ endpoints := by
  rw [endpoints_split]
  simp

/-- Only the entry out of order is missed. -/
theorem findHandler_endpoints_iff :
    findHandler endpoints uri = (endpoints.find? fun entry => entry.name = uri) ↔
      uri ≠ kexStatus.name := by
  by_cases status : uri = kexStatus.name
  · subst status
    apply iff_of_false _ (not_not.mpr rfl)
    rw [findHandler_kexStatus, find?_name endpoints_distinct kexStatus_mem_endpoints]
    exact nofun
  · apply iff_of_true _ status
    rw [find?_endpoints]
    by_cases above : kexSubmit.name < uri
    · have early : (earlyEndpoints ++ [kexSubmit]).find?
          (fun entry => entry.name = uri) = none := by
        rw [List.find?_eq_none]
        intro entry member same
        obtain rfl := of_decide_eq_true same
        exact earlyEndpoints_le entry member above
      rw [findHandler_above above, early, Option.none_or]
    · have late : (kexStatus :: laterEndpoints).find?
          (fun entry => entry.name = uri) = none := by
        rw [List.find?_cons_of_neg (by simpa using Ne.symm status), List.find?_eq_none]
        intro entry member same
        obtain rfl := of_decide_eq_true same
        exact above (kexSubmit_lt_later entry member)
      rw [findHandler_below above, late, Option.or_none]

theorem findHandler_name {handlers : List Endpoint} {entry : Endpoint}
    (found : findHandler handlers uri = some entry) : entry.name = uri := by
  rw [findHandler_eq, Option.filter_eq_some_iff] at found
  exact of_decide_eq_true found.2

end

/-! ## Lookup -/

section

variable {server : RestServer} {uri rest : Bytes} {handlers : List Endpoint}

theorem RestServer.handlers_cases (selected : server.handlers uri = some (handlers, rest)) :
    handlers = adminEndpoints ∨ handlers = endpoints := by
  unfold RestServer.handlers at selected
  cases admin : rest? server.admin uri with
  | some others =>
      rw [admin] at selected
      cases selected
      exact .inl rfl
  | none =>
      rw [admin] at selected
      cases standard : rest? server.standard uri with
      | some others =>
          rw [standard] at selected
          cases selected
          exact .inr rfl
      | none =>
          rw [standard] at selected
          cases selected

theorem adminEndpoints_ne_endpoints : adminEndpoints ≠ endpoints := by
  intro same
  exact absurd (congrArg List.length same) (by decide)

theorem kexStatus_not_mem_admin : kexStatus ∉ adminEndpoints := by
  intro member
  have sizes : ∀ entry ∈ adminEndpoints, entry.maxSize ≠ kexStatus.maxSize := by
    decide
  exact sizes kexStatus member rfl

theorem RestServer.getEndpoint_iff (server : RestServer) (uri : Bytes) :
    server.getEndpoint uri = server.linearEndpoint uri ↔
      server.handlers uri ≠ some (endpoints, kexStatus.name) := by
  unfold RestServer.getEndpoint RestServer.linearEndpoint
  cases selected : server.handlers uri with
  | none => exact iff_of_true rfl (by simp)
  | some table =>
      obtain ⟨handlers, rest⟩ := table
      dsimp only
      rcases RestServer.handlers_cases selected with rfl | rfl
      · apply iff_of_true (findHandler_sorted adminEndpoints_sorted)
        intro same
        exact adminEndpoints_ne_endpoints (congrArg Prod.fst (Option.some.inj same))
      · rw [findHandler_endpoints_iff]
        simp

theorem RestServer.getEndpoint_ne_kexStatus (server : RestServer) (uri : Bytes) :
    server.getEndpoint uri ≠ some kexStatus := by
  unfold RestServer.getEndpoint
  cases selected : server.handlers uri with
  | none => simp
  | some table =>
      obtain ⟨handlers, rest⟩ := table
      intro found
      obtain rfl := findHandler_name found
      dsimp only at found
      rcases RestServer.handlers_cases selected with rfl | rfl
      · rw [findHandler_sorted adminEndpoints_sorted] at found
        exact kexStatus_not_mem_admin (List.mem_of_find?_eq_some found)
      · rw [findHandler_kexStatus] at found
        cases found

theorem getEndpoint_endpoints : ∀ entry ∈ endpoints, entry ≠ kexStatus →
    (⟨some [], none⟩ : RestServer).getEndpoint entry.name = some entry := by
  intro entry member other
  have named : entry.name ≠ kexStatus.name := fun same =>
    other (List.inj_on_of_nodup_map endpoints_distinct member
      kexStatus_mem_endpoints same)
  have listed := findHandler_endpoints_iff.mpr named
  rw [find?_name endpoints_distinct member] at listed
  exact listed

theorem getEndpoint_adminEndpoints : ∀ entry ∈ adminEndpoints,
    (⟨none, some []⟩ : RestServer).getEndpoint entry.name = some entry := by
  intro entry member
  have listed := @findHandler_sorted entry.name _ adminEndpoints_sorted
  rw [find?_name adminEndpoints_distinct member] at listed
  exact listed

end

/-- The search agrees with a linear one except on one name, whose entry is the
only one that no URI finds. -/
theorem getEndpoint_linear_iff (server : RestServer) (uri : Bytes) :
    (server.getEndpoint uri = server.linearEndpoint uri ↔
      server.handlers uri ≠ some (endpoints, kexStatus.name)) ∧
    ∀ entry ∈ endpoints ++ adminEndpoints,
      (∃ (server : RestServer) (uri : Bytes), server.getEndpoint uri = some entry) ↔
        entry ≠ kexStatus := by
  refine ⟨server.getEndpoint_iff uri, ?_⟩
  intro entry member
  constructor
  · rintro ⟨server, uri, found⟩ rfl
    exact server.getEndpoint_ne_kexStatus uri found
  · intro other
    rcases List.mem_append.mp member with standard | admin
    · exact ⟨_, _, getEndpoint_endpoints entry standard other⟩
    · exact ⟨_, _, getEndpoint_adminEndpoints entry admin⟩

/-- The status of a key exchange is asked for without a prefix. -/
theorem kexStatus_unreachable :
    (⟨some [], none⟩ : RestServer).getEndpoint kexStatus.name = none ∧
      (⟨some [], none⟩ : RestServer).linearEndpoint kexStatus.name =
        some kexStatus :=
  ⟨findHandler_kexStatus, find?_name endpoints_distinct kexStatus_mem_endpoints⟩

end XfoLws.Rest
