import MinorityViewport.Lib.EraseLoop
import MinorityViewport.Lib.FreeList
import MinorityViewport.Algorithms.ClientIds
import MinorityViewport.Algorithms.SceneOwners

/-!
# What a deregistration removes

There are three groups.

* The loops.  `deregisterClientLoops` runs the loops of the source as they
  stand: iterators that erase as they go, and a position that is counted in
  an `unsigned int` from minus one on.  `run_deregisterClientLoops` says that
  it does what `deregisterClient` does, as there are at most 1000 clients.
* What is gone.  `Removed` says what a deregistration takes out of the state,
  and that the rest is as it was.
* The ids.  The queue of available ids is a free list
  (`Step.freeList`), so a later run hands its ids out in their order.
-/

namespace MinorityViewport

open Exec Viewport

variable {K : Type}

/-! ## The loops -/

namespace ClientsList

/-- `ClientsList::RemoveClient` with its counter `removedIdx`. -/
def removeClientLoop (id : Nat) : EStateM Fault (Heap K × ClientsList) PUnit := do
  let (scenes, list) ← get
  let deleted := (list.find id).elim [] Client.scenes
  let removedIdx := EraseLoop.countTo (2 ^ 32) (·.id = id) (2 ^ 32 - 1) list.rawClientList
  if removedIdx < list.size then
    set (scenes.free deleted,
      ({ rawClientList := list.rawClientList.eraseIdx removedIdx
         avaliableIDs := list.avaliableIDs ++ [id] } : ClientsList))
  else throw .invalidIterator

/-- With fewer clients than the counter has values, it ends where the client
is, or else at the last one. -/
theorem run_removeClientLoop (scenes : Heap K) {list : ClientsList} (hsize : list.size < 2 ^ 32)
    (id : Nat) :
    (removeClientLoop id).run (scenes, list) = (removeClient id).run (scenes, list) := by
  cases h : list.find id with
  | some client =>
    obtain ⟨i, hi, herase⟩ := exists_findIdx?_of_find h
    have hlt : i < list.size := (List.findIdx?_eq_some_iff_findIdx_eq.mp hi).1
    have hcount :
        EraseLoop.countTo (2 ^ 32) (·.id = id) (2 ^ 32 - 1) list.rawClientList = i := by
      rw [EraseLoop.countTo_of_findIdx? hi]
      omega
    rw [run_removeClient scenes h, herase, removeClientLoop]
    simp only [EStateM.run_bind, EStateM.run_get, hcount, hlt, if_true, h]
    rfl
  | none =>
    have hidx : list.rawClientList.findIdx? (·.id = id) = none := by
      simpa [List.findIdx?_eq_none_iff] using find_eq_none_iff.mp h
    have hcount : EraseLoop.countTo (2 ^ 32) (·.id = id) (2 ^ 32 - 1) list.rawClientList =
        (2 ^ 32 - 1 + list.size) % 2 ^ 32 :=
      EraseLoop.countTo_of_none hidx (by decide)
    unfold removeClientLoop removeClient
    simp only [EStateM.run_bind, EStateM.run_get, hcount, h, hidx]
    by_cases hempty : list.size = 0
    · -- the position is the largest number of all
      rw [if_neg (by omega), if_pos hempty]
    · have hlast : (2 ^ 32 - 1 + list.size) % 2 ^ 32 = list.size - 1 := by omega
      rw [hlast, if_pos (by omega), if_neg hempty]
      rfl

end ClientsList

namespace Viewport

/-- The two inner loops of `DeregisterClient`. -/
def forgetLoops (σ : Viewport K) (scenePtr : Addr) : Viewport K :=
  { σ with
    orderedScenes := EraseLoop.eraseFrom (· = scenePtr) σ.orderedScenes 0
    scenesSet := σ.scenesSet.eraseLoop scenePtr }

theorem forgetLoops_eq_forget : forgetLoops (K := K) = forget := by
  funext σ scenePtr
  rw [forgetLoops, forget, EraseLoop.eraseFrom_zero, OrdMap.eraseLoop_eq_erase]
  congr 1
  exact List.filter_congr fun a _ => by simp

/-- `DeregisterClient` with the loops of the source. -/
def deregisterClientLoops (clientId : Nat) : EStateM Fault (Viewport K) PUnit := do
  let σ ← get
  match σ.clients.find clientId with
  | none => throw .nullPointer
  | some clientToBeRm => do
    modify fun σ => clientToBeRm.scenes.foldl forgetLoops σ
    zoom (fun σ => (σ.scenes, σ.clients))
      (fun p σ => { σ with scenes := p.1, clients := p.2 })
      (ClientsList.removeClientLoop clientId)

theorem run_deregisterClientLoops_of_size {σ : Viewport K} (hsize : σ.clients.size < 2 ^ 32)
    (clientId : Nat) :
    (deregisterClientLoops clientId).run σ = (deregisterClient clientId).run σ := by
  unfold deregisterClientLoops deregisterClient
  simp only [EStateM.run_bind, EStateM.run_get, forgetLoops_eq_forget]
  cases hfind : σ.clients.find clientId with
  | none => rfl
  | some client =>
    simp only [EStateM.run_bind, EStateM.run_modify, foldl_forget, run_zoom,
      ClientsList.run_removeClientLoop σ.scenes hsize]

end Viewport

/-- The ids of the clients are different numbers up to 1000. -/
theorem size_of_reachable [Field K] [LinearOrder K] {σ : Viewport K} (h : Reachable σ) :
    σ.clients.size ≤ 1000 := by
  obtain ⟨hids, _⟩ := identified_of_reachable h
  have hle := ClientsList.length_le_of_inRange hids.registered hids.inRange
  rwa [ClientsList.clientIds, List.length_map] at hle

/-- In every reachable state the loops of the source do what the model does. -/
theorem run_deregisterClientLoops [Field K] [LinearOrder K] {σ : Viewport K} (h : Reachable σ)
    (clientId : Nat) :
    (deregisterClientLoops clientId).run σ = (deregisterClient clientId).run σ :=
  run_deregisterClientLoops_of_size (Nat.lt_of_le_of_lt (size_of_reachable h) (by decide)) clientId

/-! ## What is gone -/

/-- The client is gone, and what its sensors own; all the rest is the same. -/
structure Removed (client : Client) (σ σ' : Viewport K) : Prop where
  clients : ∃ before behind, σ.clients.rawClientList = before ++ client :: behind ∧
    σ'.clients.rawClientList = before ++ behind ∧
      ∀ other ∈ before ++ behind, other.id ≠ client.id
  ordered : σ'.orderedScenes = σ.orderedScenes.filter (· ∉ client.scenes)
  set : σ'.scenesSet.keys = σ.scenesSet.keys.filter (· ∉ client.scenes)
  others : ∀ other ∈ σ'.clients.rawClientList, ∀ a ∈ other.scenes, a ∉ client.scenes
  scenes : ∀ a ∉ client.scenes, σ'.scenes.find? a = σ.scenes.find? a
  globalScene : σ'.globalScene = σ.globalScene
  queue : σ'.clients.avaliableIDs = σ.clients.avaliableIDs ++ [client.id]

theorem removed_withoutClient {σ : Viewport K} (hwf : WellFormed σ) (hd : σ.clients.Distinct)
    {id : Nat} {client : Client} (hfind : σ.clients.find id = some client) :
    Removed client σ (σ.withoutClient id client) := by
  obtain ⟨_, hid⟩ := (hd.find_eq_some_iff id client).mp hfind
  obtain ⟨before, behind, hsplit, _, herase⟩ := exists_split_of_find hfind
  have hids : σ.clients.clientIds.Nodup := (List.nodup_append.mp hd).1
  rw [ClientsList.clientIds, hsplit, List.map_append, List.map_cons] at hids
  obtain ⟨hnot, _⟩ := List.nodup_cons.mp (List.nodup_middle.mp hids)
  rw [← List.map_append] at hnot
  have howned := List.nodup_append.mp ((perm_owned_withoutClient hfind).nodup_iff.mp hwf.nodup)
  refine ⟨⟨before, behind, hsplit, herase, fun other hother heq => ?_⟩, rfl, ?_,
    fun other hother a ha hc => ?_, fun a ha => ?_, rfl, ?_⟩
  · exact hnot (heq ▸ List.mem_map_of_mem hother)
  · show (client.scenes.foldl OrdMap.erase σ.scenesSet).entries.map Prod.fst = _
    rw [OrdMap.entries_foldl_erase, OrdMap.keys, List.filter_map]
    rfl
  · exact howned.2.2 a hc a (List.mem_flatMap.mpr ⟨other, hother, ha⟩) rfl
  · show (σ.scenes.free client.scenes).find? a = _
    rw [Heap.find?_free, if_neg ha]
  · rw [hid]
    rfl

/-! ## The ids -/

theorem value?_registerClient {σ : Viewport K} {draws : List Nat} {phyLocation ipAddr : Str}
    {id : Nat} {clients : ClientsList}
    (h : σ.clients.addClient draws phyLocation ipAddr = .ok (id, clients)) :
    value? (Viewport.registerClient draws phyLocation ipAddr) σ = some id := by
  unfold value? Viewport.registerClient
  simp only [EStateM.run_bind, EStateM.run_get, h]
  rfl

/-- A registration hands out the id in front of the queue, whatever is drawn. -/
theorem value?_registerClient_of_front {σ : Viewport K} {id : Nat}
    (h : σ.clients.avaliableIDs.head? = some id) (draws : List Nat) (phyLocation ipAddr : Str) :
    value? (Viewport.registerClient draws phyLocation ipAddr) σ = some id := by
  obtain ⟨rest, hrest⟩ := List.head?_eq_some_iff.mp h
  exact value?_registerClient (ClientsList.addClient_of_front hrest draws phyLocation ipAddr)

variable [Field K] [LinearOrder K]

/-- What an event does with the ids. -/
def Event.idOp (σ : Viewport K) : Event K → FreeList.Op Nat
  | .registerClient draws phyLocation ipAddr =>
    (value? (Viewport.registerClient draws phyLocation ipAddr) σ).elim .idle .handOut
  | .deregisterClient clientId =>
    if (σ.clients.find clientId).isSome then .giveBack clientId else .idle
  | _ => .idle

/-- What the steps of a run do with the ids. -/
def idOps : Viewport K → List (Event K × Viewport K) → List (FreeList.Op Nat)
  | _, [] => []
  | σ, (e, σ') :: trace => e.idOp σ :: idOps σ' trace

/-- The ids that the registrations of a run hand out. -/
def idsHandedOut (σ : Viewport K) (trace : List (Event K × Viewport K)) : List Nat :=
  FreeList.handedOut (idOps σ trace)

/-- The state that a run ends in. -/
def endOf : Viewport K → List (Event K × Viewport K) → Viewport K
  | σ, [] => σ
  | _, (_, σ') :: trace => endOf σ' trace

theorem freeList_registerClient (σ : Viewport K) (draws : List Nat) (phyLocation ipAddr : Str) :
    FreeList.Step σ.clients.avaliableIDs (Event.idOp σ (.registerClient draws phyLocation ipAddr))
      (after (Event.call (.registerClient draws phyLocation ipAddr)) σ).clients.avaliableIDs := by
  rw [Event.idOp, Event.call, after_bind_pure]
  cases hadd : σ.clients.addClient draws phyLocation ipAddr with
  | error fault =>
    unfold value? after Viewport.registerClient
    simp only [EStateM.run_bind, EStateM.run_get, hadd]
    exact .idle _
  | ok r =>
    rw [value?_registerClient hadd, after, Viewport.registerClient]
    simp only [EStateM.run_bind, EStateM.run_get, hadd]
    show FreeList.Step _ (.handOut r.1) r.2.avaliableIDs
    obtain ⟨_, hqueue | ⟨hempty, hempty', _⟩⟩ := ClientsList.addClient_cases hadd
    · rw [hqueue]
      exact .front _ _
    · rw [hempty, hempty']
      exact .fresh _

omit [Field K] [LinearOrder K] in
theorem Event.idOp_of_quiet {σ : Viewport K} {e : Event K} (h : ¬ e.Loud) :
    e.idOp σ = .idle := by
  cases e with
  | registerClient | deregisterClient => exact absurd trivial h
  | _ => rfl

/-- An event treats the queue of ids as a free list. -/
theorem Step.freeList {σ σ' : Viewport K} {e : Event K} (hwf : WellFormed σ)
    (hstep : Step σ e σ') :
    FreeList.Step σ.clients.avaliableIDs (e.idOp σ) σ'.clients.avaliableIDs := by
  have hregister : ∀ draws phyLocation ipAddr, e = .registerClient draws phyLocation ipAddr →
      FreeList.Step σ.clients.avaliableIDs (e.idOp σ) σ'.clients.avaliableIDs := by
    rintro draws phyLocation ipAddr rfl
    have h := freeList_registerClient σ draws phyLocation ipAddr
    rwa [hstep.after_eq] at h
  cases hstep.effect hwf with
  | registered | unregistered => exact hregister _ _ _ rfl
  | enrolled henr =>
    rw [henr.queue]
    exact .idle _
  | deregistered hfind =>
    rw [Event.idOp, hfind]
    exact .giveBack _ _
  | unknown hfind =>
    rw [Event.idOp, hfind]
    exact .idle _
  | accepted | refused => exact .idle _
  | recalibrated ht =>
    rw [ht.clients]
    exact .idle _
  | quiet hquiet ht =>
    rw [ht.clients, Event.idOp_of_quiet hquiet]
    exact .idle _

theorem Run.freeList {σ : Viewport K} {trace : List (Event K × Viewport K)} (hwf : WellFormed σ)
    (hrun : Run σ trace) :
    FreeList.Steps σ.clients.avaliableIDs (idOps σ trace)
      (endOf σ trace).clients.avaliableIDs := by
  induction hrun with
  | nil σ => exact .nil _
  | cons hstep _ ih => exact .cons (hstep.freeList hwf) (ih (hwf.step hstep))

/-- The ids that wait here are handed out in their order by every run, and
none is drawn before the last of them is gone. -/
structure HandsOutInOrder (σ : Viewport K) : Prop where
  inOrder : ∀ trace, Run σ trace → ∀ i, i < σ.clients.avaliableIDs.length →
    i < (idsHandedOut σ trace).length →
      (idsHandedOut σ trace)[i]? = σ.clients.avaliableIDs[i]?
  undrawn : ∀ trace, Run σ trace →
    (idsHandedOut σ trace).length < σ.clients.avaliableIDs.length →
      ∀ draws phyLocation ipAddr,
        value? (Viewport.registerClient draws phyLocation ipAddr) (endOf σ trace) =
          σ.clients.avaliableIDs[(idsHandedOut σ trace).length]?

theorem handsOutInOrder_of_wellFormed {σ : Viewport K} (hwf : WellFormed σ) :
    HandsOutInOrder σ where
  inOrder _ hrun _ hi hout := (hrun.freeList hwf).handedOut_getElem? hi hout
  undrawn trace hrun hlt draws phyLocation ipAddr := by
    have hfront : (endOf σ trace).clients.avaliableIDs.head? =
        σ.clients.avaliableIDs[(idsHandedOut σ trace).length]? :=
      (hrun.freeList hwf).head?_eq hlt
    rw [List.getElem?_eq_getElem hlt] at hfront ⊢
    exact value?_registerClient_of_front hfront draws phyLocation ipAddr

/-- A deregistration takes one client out of a reachable state, with its
scenes, and its id is the last one to be handed out again. -/
theorem deregisterClient_removes {σ : Viewport K} (h : Reachable σ) {id : Nat}
    (hid : id ∈ σ.clients.clientIds) :
    ∃ client σ', client.id = id ∧ (deregisterClient id).run σ = .ok ⟨⟩ σ' ∧
      (deregisterClientLoops id).run σ = .ok ⟨⟩ σ' ∧
        Removed client σ σ' ∧ HandsOutInOrder σ' := by
  have hwf := wellFormed_of_reachable h
  have hd := distinct_of_reachable h
  obtain ⟨client, hmem, rfl⟩ := List.mem_map.mp hid
  have hfind : σ.clients.find client.id = some client :=
    (hd.find_eq_some_iff client.id client).mpr ⟨hmem, rfl⟩
  refine ⟨client, σ.withoutClient client.id client, rfl, run_deregisterClient hfind, ?_,
    removed_withoutClient hwf hd hfind, handsOutInOrder_of_wellFormed (hwf.withoutClient hfind)⟩
  rw [run_deregisterClientLoops h, run_deregisterClient hfind]

/-- Of two clients the first one leaves, whose sensor is in the set of
scenes. -/
theorem deregisterClient_removes_first :
    ∃ client σ', client.id = 1 ∧
      (deregisterClient 1).run (stateAfter start leaveAfterRefusal.dropLast) = .ok ⟨⟩ σ' ∧
      (deregisterClientLoops 1).run (stateAfter start leaveAfterRefusal.dropLast) = .ok ⟨⟩ σ' ∧
        Removed client (stateAfter start leaveAfterRefusal.dropLast) σ' ∧ HandsOutInOrder σ' :=
  deregisterClient_removes (Reachable.start.stateAfter (by decide +kernel)) (by decide +kernel)

end MinorityViewport
