import MinorityViewport.Algorithms.Events

/-!
# The ids of the clients

An id that was handed out is either that of one registered client, or it
waits once in the queue of available ids.  `issuedIds` lists them.
`Step.issuedIds` says that an event moves an id between the two places or
adds a drawn one, and `identified_of_reachable` follows from it by induction
over the run.
-/

namespace MinorityViewport

open Exec Json

namespace ClientsList

/-- The ids of the registered clients. -/
def clientIds (list : ClientsList) : List Nat := list.rawClientList.map Client.id

/-- The ids in use and the ids that wait. -/
def issuedIds (list : ClientsList) : List Nat := list.clientIds ++ list.avaliableIDs

/-- No id is registered twice, or queued twice, or both. -/
def Distinct (list : ClientsList) : Prop := (list.clientIds ++ list.avaliableIDs).Nodup

/-- Every id identifies one client: registered ids are distinct and in
range, no queued id is registered, and `At` finds the client of an id. -/
structure Identified (list : ClientsList) : Prop where
  registered : list.clientIds.Nodup
  inRange : ∀ id ∈ list.clientIds, 1 ≤ id ∧ id ≤ 1000
  queued : list.avaliableIDs.Nodup
  apart : ∀ id ∈ list.avaliableIDs, id ∉ list.clientIds
  denotes : ∀ id client, list.find id = some client ↔
    client ∈ list.rawClientList ∧ client.id = id

/-- Different numbers from 1 to 1000 are at most 1000. -/
theorem length_le_of_inRange {ids : List Nat} (hnodup : ids.Nodup)
    (hrange : ∀ id ∈ ids, 1 ≤ id ∧ id ≤ 1000) : ids.length ≤ 1000 := by
  have hsub : ids ⊆ List.range' 1 1000 := by
    intro id hid
    have hid := hrange id hid
    exact List.mem_range'_1.mpr ⟨hid.1, by omega⟩
  have hle := (List.subperm_of_subset hnodup hsub).length_le
  rwa [List.length_range'] at hle

theorem drawId_spec {list : ClientsList} {draws : List Nat} {id : Nat}
    (h : list.drawId draws = .ok id) : id ∉ list.clientIds ∧ 1 ≤ id ∧ id ≤ 1000 := by
  induction draws with
  | nil => cases h
  | cons draw rest ih =>
    rw [drawId] at h
    split_ifs at h with hprev
    · exact ih h
    · obtain rfl := Except.ok.inj h
      have hnew : draw % 1000 + 1 ∉ list.clientIds := by
        simpa [clientIdIsPrevAssigned, clientIds] using hprev
      exact ⟨hnew, by omega, by omega⟩

/-- A client that is added gets the first id of the queue, or a drawn one. -/
theorem addClient_cases {list list' : ClientsList} {draws : List Nat} {loc ip : Str} {id : Nat}
    (h : list.addClient draws loc ip = .ok (id, list')) :
    list'.clientIds = list.clientIds ++ [id] ∧
      (list.avaliableIDs = id :: list'.avaliableIDs ∨
        list.avaliableIDs = [] ∧ list'.avaliableIDs = [] ∧ id ∉ list.clientIds ∧
          1 ≤ id ∧ id ≤ 1000) := by
  refine ⟨?_, ?_⟩
  · rw [clientIds, rawClientList_addClient h, List.map_append]
    rfl
  obtain ⟨⟨newId, next⟩, hgen, h⟩ := bind_eq_ok_iff.mp h
  obtain ⟨rfl, rfl⟩ := Prod.mk.inj (Except.ok.inj h)
  unfold generateNextClientId at hgen
  cases hq : list.avaliableIDs with
  | cons front rest =>
    rw [hq] at hgen
    obtain ⟨rfl, rfl⟩ := Prod.mk.inj (Except.ok.inj hgen)
    exact Or.inl rfl
  | nil =>
    rw [hq] at hgen
    cases hdraw : list.drawId draws with
    | error fault =>
      rw [hdraw] at hgen
      cases hgen
    | ok drawn =>
      rw [hdraw] at hgen
      obtain ⟨rfl, rfl⟩ := Prod.mk.inj (Except.ok.inj hgen)
      exact Or.inr ⟨rfl, hq, drawId_spec hdraw⟩

/-- A registration takes an id from the queue, or issues a new one. -/
theorem issuedIds_addClient {list list' : ClientsList} {draws : List Nat} {loc ip : Str}
    {id : Nat} (h : list.addClient draws loc ip = .ok (id, list')) :
    list'.issuedIds.Perm list.issuedIds ∨
      ∃ id, id ∉ list.issuedIds ∧ (1 ≤ id ∧ id ≤ 1000) ∧
        list'.issuedIds.Perm (id :: list.issuedIds) := by
  obtain ⟨hids, hqueue | ⟨hempty, hempty', hnew, hrange⟩⟩ := addClient_cases h
  · refine Or.inl ?_
    rw [issuedIds, issuedIds, hids, hqueue, List.append_assoc]
    exact .refl _
  · refine Or.inr ⟨id, ?_, hrange, ?_⟩
    · rwa [issuedIds, hempty, List.append_nil]
    · rw [issuedIds, issuedIds, hids, hempty, hempty', List.append_nil, List.append_nil]
      exact List.perm_append_singleton id _

/-- A client that is added gets an id that no client has. -/
theorem addClient_new {list list' : ClientsList} {draws : List Nat} {loc ip : Str} {id : Nat}
    (hd : list.Distinct) (h : list.addClient draws loc ip = .ok (id, list')) :
    id ∉ list.clientIds ∧ list'.clientIds = list.clientIds ++ [id] ∧ list'.Distinct := by
  obtain ⟨hids, hcases⟩ := addClient_cases h
  refine ⟨?_, hids, ?_⟩
  · rcases hcases with hqueue | ⟨_, _, hnew, _⟩
    · intro hmem
      rw [Distinct, hqueue] at hd
      exact (List.disjoint_of_nodup_append hd) hmem List.mem_cons_self
    · exact hnew
  · rcases issuedIds_addClient h with hperm | ⟨id, hnew, _, hperm⟩
    · exact hperm.nodup_iff.mpr hd
    · exact hperm.nodup_iff.mpr (List.nodup_cons.mpr ⟨hnew, hd⟩)

theorem Distinct.find_eq_some_iff {list : ClientsList} (h : list.Distinct) (id : Nat)
    (client : Client) :
    list.find id = some client ↔ client ∈ list.rawClientList ∧ client.id = id := by
  constructor
  · intro hfind
    exact ⟨mem_of_find hfind, by simpa using List.find?_some hfind⟩
  · rintro ⟨hmem, rfl⟩
    cases hfind : list.find client.id with
    | none => exact absurd rfl (find_eq_none_iff.mp hfind client hmem)
    | some other =>
      have hid : other.id = client.id := by simpa using List.find?_some hfind
      exact congrArg some
        (List.inj_on_of_nodup_map (List.nodup_append.mp h).1 (mem_of_find hfind) hmem hid)

theorem Distinct.identified {list : ClientsList} (h : list.Distinct)
    (hrange : ∀ id ∈ list.issuedIds, 1 ≤ id ∧ id ≤ 1000) : list.Identified where
  registered := (List.nodup_append.mp h).1
  inRange id hid := hrange id (List.mem_append_left _ hid)
  queued := (List.nodup_append.mp h).2.1
  apart _ hid hid' := (List.disjoint_of_nodup_append h) hid' hid
  denotes := h.find_eq_some_iff

end ClientsList

variable {K : Type}

namespace Viewport

/-- The id of a client moves to the queue when it is deregistered. -/
theorem issuedIds_withoutClient {σ : Viewport K} {clientId : Nat} {client : Client}
    (hfind : σ.clients.find clientId = some client) :
    (σ.withoutClient clientId client).clients.issuedIds.Perm σ.clients.issuedIds := by
  obtain ⟨before, behind, hsplit, _, herase⟩ := exists_split_of_find hfind
  have hid : client.id = clientId := by
    simpa using List.find?_some hfind
  rw [ClientsList.issuedIds, ClientsList.issuedIds, ClientsList.clientIds, ClientsList.clientIds,
    hsplit]
  show ((σ.clients.rawClientList.eraseP (·.id = clientId)).map Client.id ++
    (σ.clients.avaliableIDs ++ [clientId])).Perm _
  rw [herase]
  simp only [List.map_append, List.map_cons, hid, List.append_assoc, List.cons_append]
  rw [← List.append_assoc (behind.map _), ← List.append_assoc (before.map _) (_ ++ _)]
  exact (List.perm_append_singleton clientId _).trans List.perm_middle.symm

/-- The client that a registration returns the id of is new, and `At` finds
it. -/
theorem find_of_run_registerClient {σ σ' : Viewport K} (hd : σ.clients.Distinct)
    {draws : List Nat} {phyLocation ipAddr : Str} {id : Nat}
    (h : (registerClient draws phyLocation ipAddr).run σ = .ok id σ') :
    σ.clients.find id = none ∧
      σ'.clients.find id = some (Client.new id phyLocation ipAddr) := by
  rw [registerClient, run_get_bind_eq_ok_iff] at h
  obtain ⟨⟨newId, clients⟩, σ₁, hadd, hset⟩ := run_bind_eq_ok_iff.mp h
  obtain ⟨hadd, rfl⟩ := run_ofExcept_eq_ok_iff.mp hadd
  obtain ⟨_, σ₂, hset, hpure⟩ := run_bind_eq_ok_iff.mp hset
  obtain ⟨rfl, rfl⟩ := run_pure_eq_ok_iff.mp hpure
  cases hset
  obtain ⟨hnew, _, hd'⟩ := ClientsList.addClient_new hd hadd
  refine ⟨ClientsList.find_eq_none_iff.mpr fun client hclient hid => hnew ?_, ?_⟩
  · exact hid ▸ List.mem_map_of_mem hclient
  · refine (hd'.find_eq_some_iff _ _).mpr ⟨?_, rfl⟩
    rw [ClientsList.rawClientList_addClient hadd]
    exact List.mem_append_right _ (List.mem_singleton_self _)

end Viewport

section Runs

variable [Field K] [LinearOrder K] [Json.Machine]

/-- An event moves ids between the list and the queue, or issues a new one. -/
theorem Step.issuedIds {σ σ' : Viewport K} {e : Event K} (hwf : WellFormed σ)
    (hstep : Step σ e σ') :
    σ'.clients.issuedIds.Perm σ.clients.issuedIds ∨
      ∃ id, id ∉ σ.clients.issuedIds ∧ (1 ≤ id ∧ id ≤ 1000) ∧
        σ'.clients.issuedIds.Perm (id :: σ.clients.issuedIds) := by
  cases hstep.effect hwf with
  | registered hadd => exact ClientsList.issuedIds_addClient hadd
  | enrolled henr =>
    refine Or.inl ?_
    rw [ClientsList.issuedIds, ClientsList.clientIds, henr.ids, henr.queue]
    exact .refl _
  | deregistered hfind => exact Or.inl (Viewport.issuedIds_withoutClient hfind)
  | unregistered | unknown | accepted | refused => exact Or.inl (.refl _)
  | recalibrated ht | quiet _ ht =>
    rw [ht.clients]
    exact Or.inl (.refl _)

theorem distinct_of_reachable {σ : Viewport K} (h : Reachable σ) : σ.clients.Distinct := by
  induction h with
  | start => exact List.nodup_nil
  | step hreach hstep ih =>
    rcases hstep.issuedIds (wellFormed_of_reachable hreach) with hperm | ⟨id, hnew, _, hperm⟩
    · exact hperm.nodup_iff.mpr ih
    · exact hperm.nodup_iff.mpr (List.nodup_cons.mpr ⟨hnew, ih⟩)

theorem inRange_of_reachable {σ : Viewport K} (h : Reachable σ) :
    ∀ id ∈ σ.clients.issuedIds, 1 ≤ id ∧ id ≤ 1000 := by
  induction h with
  | start => exact fun _ hid => absurd hid List.not_mem_nil
  | step hreach hstep ih =>
    rcases hstep.issuedIds (wellFormed_of_reachable hreach) with hperm | ⟨id, _, hrange, hperm⟩
    · exact fun id hid => ih id (hperm.mem_iff.mp hid)
    · intro id' hid'
      rcases List.mem_cons.mp (hperm.mem_iff.mp hid') with rfl | hid'
      · exact hrange
      · exact ih id' hid'

/-- In every reachable state each id identifies one client, and a
registration returns an id that identifies the new one. -/
theorem identified_of_reachable {σ : Viewport K} (h : Reachable σ) :
    σ.clients.Identified ∧
      ∀ draws phyLocation ipAddr id σ',
        (Viewport.registerClient draws phyLocation ipAddr).run σ = .ok id σ' →
          σ.clients.find id = none ∧
            σ'.clients.find id = some (Client.new id phyLocation ipAddr) :=
  ⟨(distinct_of_reachable h).identified (inRange_of_reachable h),
    fun _ _ _ _ _ hrun => Viewport.find_of_run_registerClient (distinct_of_reachable h) hrun⟩

end Runs

/-- Two clients of which the first one leaves again. -/
def comeAndGo : List (Event ℚ) :=
  [.registerClient [0] [] [], .registerClient [0, 999] [] [], .deregisterClient 1]

/-- The next client gets the id of the one that left. -/
theorem identified_of_reachable_comeAndGo :
    (stateAfter Viewport.start comeAndGo).clients.Identified ∧
      (stateAfter Viewport.start comeAndGo).clients.find 1 = none ∧
      (after (Viewport.registerClient [] [] []) (stateAfter Viewport.start comeAndGo)).clients.find
        1 = some (Client.new 1 [] []) := by
  have hreach : Reachable (stateAfter Viewport.start comeAndGo) :=
    Reachable.start.stateAfter (by decide +kernel)
  obtain ⟨hids, hreturned⟩ := identified_of_reachable hreach
  exact ⟨hids, hreturned [] [] [] 1 _ (run_eq_ok_of_value? (by decide +kernel))⟩

end MinorityViewport
