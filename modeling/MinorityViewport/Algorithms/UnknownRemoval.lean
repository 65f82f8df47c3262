import MinorityViewport.Algorithms.Deregistration

/-!
# Removing a client that is not there

The position that `RemoveClient` erases is counted while it searches, and it
erases and queues without asking whether the search has ended at a client.
`run_removeClientLoop_of_unknown` says what comes of it: from an empty list
the iterator is invalid, and from any other list some client is dropped.  An
id that is removed in vain twice waits twice in the queue, and goes to two
clients (`addClient_twice`).
-/

namespace MinorityViewport

open Exec

variable {K : Type}

namespace ClientsList

/-- The position that an unsuccessful search has counted to. -/
def missIdx (list : ClientsList) : Nat := (2 ^ 32 - 1 + list.size) % 2 ^ 32

theorem missIdx_lt {list : ClientsList} (h : list.rawClientList ≠ []) :
    list.missIdx < list.size := by
  have hpos : 0 < list.size := List.length_pos_of_ne_nil h
  unfold missIdx
  omega

/-- The list without the client at the position, and with the id queued. -/
def dropped (list : ClientsList) (id : Nat) : ClientsList where
  avaliableIDs := list.avaliableIDs ++ [id]
  rawClientList := list.rawClientList.eraseIdx list.missIdx

theorem dropped_ne (list : ClientsList) (id : Nat) : list.dropped id ≠ list := by
  intro heq
  have hlen := congrArg (fun l => l.avaliableIDs.length) heq
  simp only [dropped, List.length_append, List.length_singleton] at hlen
  omega

theorem size_dropped {list : ClientsList} (h : list.rawClientList ≠ []) (id : Nat) :
    (list.dropped id).size + 1 = list.size := by
  have hlt := missIdx_lt h
  show (list.rawClientList.eraseIdx list.missIdx).length + 1 = list.size
  rw [List.length_eraseIdx_of_lt hlt]
  show list.size - 1 + 1 = list.size
  omega

theorem unknown_dropped {list : ClientsList} {id : Nat}
    (h : ∀ client ∈ list.rawClientList, client.id ≠ id) :
    ∀ client ∈ (list.dropped id).rawClientList, client.id ≠ id :=
  fun client hmem => h client (List.mem_of_mem_eraseIdx hmem)

/-- What a removal of an unknown id does, to any list. -/
theorem run_removeClientLoop_of_unknown (scenes : Heap K) {list : ClientsList} {id : Nat}
    (h : ∀ client ∈ list.rawClientList, client.id ≠ id) :
    (removeClientLoop id).run (scenes, list) =
      if list.rawClientList = [] then .error .invalidIterator (scenes, list)
      else .ok ⟨⟩ (scenes.free [], list.dropped id) := by
  have hfind : list.find id = none := find_eq_none_iff.mpr h
  have hidx : list.rawClientList.findIdx? (·.id = id) = none := by
    simpa [List.findIdx?_eq_none_iff] using h
  have hcount : EraseLoop.countTo (2 ^ 32) (·.id = id) (2 ^ 32 - 1) list.rawClientList =
      list.missIdx :=
    EraseLoop.countTo_of_none hidx (by decide)
  unfold removeClientLoop
  simp only [EStateM.run_bind, EStateM.run_get, hcount, hfind]
  by_cases hnil : list.rawClientList = []
  · -- minus one is no position of an empty list
    have hsize : list.size = 0 := congrArg List.length hnil
    have hmiss : ¬ list.missIdx < list.size := by
      rw [hsize]
      exact Nat.not_lt_zero _
    rw [if_neg hmiss, if_pos hnil]
    rfl
  · rw [if_pos (missIdx_lt hnil), if_neg hnil]
    rfl

/-- The removal returns, and the list and the queue are as they were. -/
def Harmless (scenes : Heap K) (list : ClientsList) (id : Nat) : Prop :=
  ∃ scenes', (removeClientLoop id).run (scenes, list) = .ok ⟨⟩ (scenes', list)

/-- No removal of an unknown id is harmless. -/
theorem not_harmless_removeClient (scenes : Heap K) (list : ClientsList) (id : Nat)
    (h : ∀ client ∈ list.rawClientList, client.id ≠ id) :
    ¬ Harmless scenes list id := by
  rintro ⟨scenes', hrun⟩
  rw [run_removeClientLoop_of_unknown scenes h] at hrun
  by_cases hnil : list.rawClientList = []
  · rw [if_pos hnil] at hrun
    cases hrun
  · rw [if_neg hnil] at hrun
    injection hrun with _ hstate
    exact dropped_ne list id (Prod.mk.inj hstate).2

def twoClients : ClientsList := ⟨[], [Client.new 1 [] [], Client.new 2 [] []]⟩

theorem not_harmless_removeClient_seven : ¬ Harmless (OrdMap.empty : Heap ℚ) twoClients 7 :=
  not_harmless_removeClient OrdMap.empty twoClients 7 (by decide)

/-- A removal of client 7, which is not there, drops client 2. -/
theorem removeClient_drops_another :
    (∀ client ∈ twoClients.rawClientList, client.id ≠ 7) ∧
      ¬ Harmless (OrdMap.empty : Heap ℚ) twoClients 7 ∧
      ∃ scenes list, (removeClientLoop 7).run ((OrdMap.empty : Heap ℚ), twoClients) =
        .ok ⟨⟩ (scenes, list) ∧ list.clientIds = [1] ∧ list.avaliableIDs = [7] := by
  have hunknown : ∀ client ∈ twoClients.rawClientList, client.id ≠ 7 := by decide
  have hrun := run_removeClientLoop_of_unknown (OrdMap.empty : Heap ℚ) hunknown
  rw [if_neg (show twoClients.rawClientList ≠ [] from List.cons_ne_nil _ _)] at hrun
  refine ⟨hunknown, ?_, _, _, hrun, rfl, rfl⟩
  intro hharmless
  obtain ⟨scenes', hsame⟩ := hharmless
  rw [hrun] at hsame
  injection hsame with _ hstate
  exact dropped_ne twoClients 7 (Prod.mk.inj hstate).2

/-! ## The ids that are handed out twice -/

/-- Removed in vain twice, an id waits twice behind the ones that wait. -/
theorem run_removeClientLoop_twice (scenes : Heap K) {list : ClientsList} {id : Nat}
    (h : ∀ client ∈ list.rawClientList, client.id ≠ id) (hsize : 2 ≤ list.size) :
    ∃ scenes', (do removeClientLoop id; removeClientLoop id).run (scenes, list) =
        .ok ⟨⟩ (scenes', (list.dropped id).dropped id) ∧
      ((list.dropped id).dropped id).avaliableIDs = list.avaliableIDs ++ [id, id] := by
  have hne : list.rawClientList ≠ [] := by
    intro hnil
    have hzero : list.size = 0 := congrArg List.length hnil
    omega
  have hdropped := size_dropped hne id
  have hne' : (list.dropped id).rawClientList ≠ [] := by
    intro hnil
    have hzero : (list.dropped id).size = 0 := congrArg List.length hnil
    omega
  refine ⟨(scenes.free []).free [], ?_, ?_⟩
  · rw [EStateM.run_bind, run_removeClientLoop_of_unknown scenes h, if_neg hne]
    show (removeClientLoop id).run _ = _
    rw [run_removeClientLoop_of_unknown _ (unknown_dropped h), if_neg hne']
  · show list.avaliableIDs ++ [id] ++ [id] = _
    rw [List.append_assoc]
    rfl

/-- The next two clients get the same id, whatever is drawn for them. -/
theorem addClient_twice {list : ClientsList} (hqueue : list.avaliableIDs = []) (id : Nat)
    (draws draws' : List Nat) (loc ip loc' ip' : Str) :
    ∃ list₁ list₂, ((list.dropped id).dropped id).addClient draws loc ip = .ok (id, list₁) ∧
      list₁.addClient draws' loc' ip' = .ok (id, list₂) := by
  have hboth : ((list.dropped id).dropped id).avaliableIDs = [id, id] := by
    show list.avaliableIDs ++ [id] ++ [id] = _
    rw [hqueue]
    rfl
  exact ⟨_, _, addClient_of_front hboth draws loc ip, addClient_of_front rfl draws' loc' ip'⟩

end ClientsList
end MinorityViewport
