import MinorityViewport.Algorithms.Deregistration

/-!
# When a registration can complete

The ids are the numbers from 1 to 1000, and one that no client has is drawn
again and again.  `canComplete_iff` says for a reachable state that there is
one exactly when there are fewer than 1000 clients, and
`run_canComplete_iff` carries it over runs.  A client that does not
deregister keeps its id, so a run comes to 1000 clients with one registration
for each of them (`full`).
-/

namespace MinorityViewport

open Exec Viewport

namespace ClientsList

/-- `RAND_MAX`. -/
def randMax : Nat := 32767

/-- An id is queued, or some draw of `rand()` ends the retry loop. -/
def CanComplete (list : ClientsList) : Prop :=
  list.avaliableIDs ≠ [] ∨
    ∃ draw ≤ randMax, ¬ list.clientIdIsPrevAssigned (draw % 1000 + 1)

/-- The only fault of a registration. -/
theorem drawId_error {list : ClientsList} {draws : List Nat} {fault : Fault}
    (h : list.drawId draws = .error fault) : fault = .endlessLoop := by
  induction draws with
  | nil => exact (Except.error.inj h).symm
  | cons draw rest ih =>
    rw [drawId] at h
    split_ifs at h with hprev
    exact ih h

theorem addClient_error {list : ClientsList} {draws : List Nat} {loc ip : Str} {fault : Fault}
    (h : list.addClient draws loc ip = .error fault) : fault = .endlessLoop := by
  cases hqueue : list.avaliableIDs with
  | cons id rest =>
    rw [addClient_of_front hqueue] at h
    cases h
  | nil =>
    rw [addClient, generateNextClientId, hqueue] at h
    cases hdraw : list.drawId draws with
    | error fault' =>
      rw [hdraw] at h
      obtain rfl : fault' = fault := Except.error.inj h
      exact drawId_error hdraw
    | ok id =>
      rw [hdraw] at h
      cases h

/-- A free draw is taken where no id is queued. -/
theorem addClient_of_draw {list : ClientsList} (hqueue : list.avaliableIDs = []) {draw : Nat}
    (hfree : ¬ list.clientIdIsPrevAssigned (draw % 1000 + 1)) (loc ip : Str) :
    list.addClient [draw] loc ip = .ok (draw % 1000 + 1,
      { list with rawClientList :=
          list.rawClientList ++ [Client.new (draw % 1000 + 1) loc ip] }) := by
  have hgen : list.generateNextClientId [draw] = .ok (draw % 1000 + 1, list) := by
    rw [generateNextClientId, hqueue, drawId]
    simp only [if_neg hfree]
    rfl
  rw [addClient, hgen]
  rfl

/-- What this says of `AddClient`. -/
theorem canComplete_iff_addClient (list : ClientsList) (loc ip : Str) :
    list.CanComplete ↔
      ∃ draws, (∀ draw ∈ draws, draw ≤ randMax) ∧ IsOk (list.addClient draws loc ip) := by
  simp only [addClient_isOk_iff]
  constructor
  · intro h
    rcases h with hqueue | ⟨draw, hle, hfree⟩
    · exact ⟨[], fun _ h => absurd h List.not_mem_nil, Or.inl hqueue⟩
    · exact ⟨[draw], by simpa using hle, Or.inr ⟨draw, List.mem_singleton_self _, hfree⟩⟩
  · intro h
    obtain ⟨draws, hle, hqueue | ⟨draw, hmem, hfree⟩⟩ := h
    · exact Or.inl hqueue
    · exact Or.inr ⟨draw, hle draw hmem, hfree⟩

theorem clientIdIsPrevAssigned_iff (list : ClientsList) (id : Nat) :
    list.clientIdIsPrevAssigned id ↔ id ∈ list.clientIds := by
  simp [clientIdIsPrevAssigned, clientIds]

theorem length_clientIds (list : ClientsList) : list.clientIds.length = list.size :=
  List.length_map _

/-- Fewer than 1000 clients leave an id free. -/
theorem exists_free {list : ClientsList} (h : list.size < 1000) :
    ∃ draw ≤ randMax, ¬ list.clientIdIsPrevAssigned (draw % 1000 + 1) := by
  by_contra hall
  have hsub : List.range' 1 1000 ⊆ list.clientIds := by
    intro id hid
    have hid := List.mem_range'_1.mp hid
    by_contra hnot
    refine hall ⟨id - 1, ?_, ?_⟩
    · unfold randMax
      omega
    · have hdraw : (id - 1) % 1000 + 1 = id := by omega
      rwa [hdraw, clientIdIsPrevAssigned_iff]
  have hle := (List.subperm_of_subset (List.nodup_range' _) hsub).length_le
  rw [List.length_range', length_clientIds] at hle
  omega

/-- Where ids are distinct and in range, one can be given out as long as
there are fewer than 1000 clients. -/
theorem canComplete_iff_of_distinct {list : ClientsList} (hd : list.Distinct)
    (hrange : ∀ id ∈ list.issuedIds, 1 ≤ id ∧ id ≤ 1000) :
    list.CanComplete ↔ list.size < 1000 := by
  constructor
  · intro h
    rcases h with hqueue | ⟨draw, _, hfree⟩
    · have hle := length_le_of_inRange hd hrange
      rw [List.length_append, length_clientIds] at hle
      have hpos := List.length_pos_of_ne_nil hqueue
      omega
    · -- the drawn id is one more number in the range
      rw [clientIdIsPrevAssigned_iff] at hfree
      have hcons : ((draw % 1000 + 1) :: list.clientIds).Nodup :=
        List.nodup_cons.mpr ⟨hfree, (List.nodup_append.mp hd).1⟩
      have hle := length_le_of_inRange hcons fun id hid => by
        rcases List.mem_cons.mp hid with rfl | hid
        · omega
        · exact hrange id (List.mem_append_left _ hid)
      rw [List.length_cons, length_clientIds] at hle
      omega
  · intro h
    exact Or.inr (exists_free h)

end ClientsList

variable {K : Type} [Field K] [LinearOrder K]

theorem canComplete_iff {σ : Viewport K} (h : Reachable σ) :
    σ.clients.CanComplete ↔ σ.clients.size < 1000 :=
  ClientsList.canComplete_iff_of_distinct (distinct_of_reachable h) (inRange_of_reachable h)

/-! ## Runs -/

omit [Field K] [LinearOrder K] in
/-- A client is registered where fewer than 999 are. -/
def LeavesRoom (σ : Viewport K) : Event K → Prop
  | .registerClient .. => σ.clients.size < 999
  | _ => True

instance (σ : Viewport K) (e : Event K) : Decidable (LeavesRoom σ e) :=
  match e with
  | .registerClient .. => inferInstanceAs (Decidable (σ.clients.size < 999))
  | .registerSensors .. | .deregisterClient .. | .processSensorData .. | .calibrateSceneOrder
  | .calibrateScenes .. | .getGlobalScene .. | .clear .. => isTrue trivial

theorem run_call_registerClient (σ : Viewport K) (draws : List Nat) (phyLocation ipAddr : Str) :
    (Event.call (.registerClient draws phyLocation ipAddr)).run σ =
      match σ.clients.addClient draws phyLocation ipAddr with
      | .ok (_, clients) => .ok ⟨⟩ { σ with clients := clients }
      | .error fault => .error fault σ := by
  unfold Event.call Viewport.registerClient
  simp only [EStateM.run_bind, EStateM.run_get]
  cases σ.clients.addClient draws phyLocation ipAddr <;> rfl

/-- A registration that returns adds one client. -/
theorem Step.size_registerClient {σ σ' : Viewport K} {draws : List Nat}
    {phyLocation ipAddr : Str} (h : Step σ (.registerClient draws phyLocation ipAddr) σ') :
    σ'.clients.size = σ.clients.size + 1 := by
  have hrun := run_call_registerClient σ draws phyLocation ipAddr
  cases hadd : σ.clients.addClient draws phyLocation ipAddr with
  | ok r =>
    rw [hadd] at hrun
    rw [← h.after_eq, after, hrun]
    show r.2.rawClientList.length = _
    rw [ClientsList.rawClientList_addClient hadd, List.length_append]
    rfl
  | error fault =>
    -- a search that goes on for ever is no step
    obtain rfl := ClientsList.addClient_error hadd
    rw [hadd] at hrun
    exact absurd (h.isException hrun) (by decide)

/-- No other event adds one. -/
theorem Step.size_le {σ σ' : Viewport K} {e : Event K} (hwf : WellFormed σ) (h : Step σ e σ')
    (hother : ∀ draws phyLocation ipAddr, e ≠ .registerClient draws phyLocation ipAddr) :
    σ'.clients.size ≤ σ.clients.size := by
  cases h.effect hwf with
  | registered | unregistered => exact absurd rfl (hother _ _ _)
  | enrolled henr =>
    rw [← ClientsList.length_clientIds, ← ClientsList.length_clientIds, ClientsList.clientIds,
      ClientsList.clientIds, henr.ids]
  | deregistered hfind => exact List.length_eraseP_le
  | unknown | accepted | refused => exact Nat.le_refl _
  | recalibrated ht | quiet _ ht => rw [ht.clients]

theorem canComplete_step_iff {σ σ' : Viewport K} {e : Event K}
    (h : Reachable σ ∧ σ.clients.size < 1000) (hstep : Step σ e σ') :
    (σ'.clients.CanComplete ↔ LeavesRoom σ e) ∧
      (LeavesRoom σ e → Reachable σ' ∧ σ'.clients.size < 1000) := by
  have hnext : Reachable σ' := h.1.step hstep
  rw [canComplete_iff hnext]
  by_cases hreg : ∃ draws phyLocation ipAddr, e = .registerClient draws phyLocation ipAddr
  · obtain ⟨draws, phyLocation, ipAddr, rfl⟩ := hreg
    have hiff : σ'.clients.size < 1000 ↔ σ.clients.size < 999 := by
      rw [hstep.size_registerClient]
      omega
    exact ⟨hiff, fun hroom => ⟨hnext, hiff.mpr hroom⟩⟩
  · have hother : ∀ draws phyLocation ipAddr, e ≠ .registerClient draws phyLocation ipAddr :=
      fun draws phyLocation ipAddr he => hreg ⟨draws, phyLocation, ipAddr, he⟩
    have hlt : σ'.clients.size < 1000 :=
      Nat.lt_of_le_of_lt (hstep.size_le (wellFormed_of_reachable h.1) hother) h.2
    have hroom : LeavesRoom σ e := by
      cases e with
      | registerClient => exact absurd rfl (hother _ _ _)
      | _ => trivial
    exact ⟨iff_of_true hlt hroom, fun _ => ⟨hnext, hlt⟩⟩

/-- In a run from the start, a registration can complete in every state
exactly when every step leaves room for one. -/
theorem run_canComplete_iff {trace : List (Event K × Viewport K)} (hrun : Run start trace) :
    (∀ p ∈ trace, p.2.clients.CanComplete) ↔ StepsMeet LeavesRoom start trace :=
  hrun.forall_iff (I := fun σ => Reachable σ ∧ σ.clients.size < 1000)
    (P := fun σ => σ.clients.CanComplete)
    (fun _ _ _ _ h hstep => canComplete_step_iff h hstep) wellFormed_start
    ⟨.start, Nat.succ_pos _⟩

/-- One client comes, goes and comes again. -/
def comesAgain : List (Event ℚ) :=
  [.registerClient [6] [] [], .deregisterClient 7, .registerClient [] [] []]

theorem run_canComplete_again :
    AllReturn start comesAgain ∧ ∀ p ∈ trail start comesAgain, p.2.clients.CanComplete :=
  have hreturn : AllReturn start comesAgain := by decide +kernel
  ⟨hreturn, (run_canComplete_iff (run_trail hreturn)).mpr (by decide +kernel)⟩

omit [Field K] [LinearOrder K] in
/-- The viewport with the clients 1 to `n`. -/
def full (n : Nat) : Viewport K :=
  { start with clients := ⟨[], (List.range' 1 n).map fun id => Client.new id [] []⟩ }

omit [Field K] [LinearOrder K] in
theorem clientIds_full (n : Nat) : (full n : Viewport K).clients.clientIds = List.range' 1 n := by
  show ((List.range' 1 n).map fun id => Client.new id [] []).map Client.id = _
  rw [List.map_map]
  exact List.map_id _

/-- One more client is registered, with the draw that is its id less one. -/
theorem step_full {n : Nat} (hn : n < 1000) :
    Step (full n : Viewport K) (.registerClient [n] [] []) (full (n + 1)) := by
  have hid : n % 1000 + 1 = n + 1 := by omega
  have hfree : ¬ (full n : Viewport K).clients.clientIdIsPrevAssigned (n + 1) := by
    rw [ClientsList.clientIdIsPrevAssigned_iff, clientIds_full, List.mem_range'_1]
    omega
  have hraw : (full n : Viewport K).clients.rawClientList ++ [Client.new (n + 1) [] []] =
      (full (n + 1) : Viewport K).clients.rawClientList := by
    show (List.range' 1 n).map (Client.new · [] []) ++ [Client.new (n + 1) [] []] =
      (List.range' 1 (n + 1)).map (Client.new · [] [])
    rw [List.range'_1_concat, List.map_append, Nat.add_comm 1 n]
    rfl
  have hadd : (full n : Viewport K).clients.addClient [n] [] [] =
      .ok (n + 1, (full (n + 1) : Viewport K).clients) := by
    rw [ClientsList.addClient_of_draw rfl (hid.symm ▸ hfree), hid, hraw]
    rfl
  refine Or.inl ?_
  rw [run_call_registerClient, hadd]
  rfl

theorem reachable_full {n : Nat} (hn : n ≤ 1000) : Reachable (full n : Viewport K) := by
  induction n with
  | zero => exact .start
  | succ n ih => exact (ih (Nat.le_of_succ_le hn)).step (step_full hn)

/-- With 1000 clients every draw is the id of one of them. -/
theorem registerClient_stuck :
    ∃ σ : Viewport ℚ, Reachable σ ∧ σ.clients.size = 1000 ∧ ¬ σ.clients.CanComplete := by
  refine ⟨full 1000, reachable_full (Nat.le_refl _), ?_, fun h => ?_⟩
  · rw [← ClientsList.length_clientIds, clientIds_full, List.length_range']
  · rcases h with hqueue | ⟨draw, _, hfree⟩
    · exact hqueue rfl
    · rw [ClientsList.clientIdIsPrevAssigned_iff, clientIds_full, List.mem_range'_1] at hfree
      omega

end MinorityViewport
