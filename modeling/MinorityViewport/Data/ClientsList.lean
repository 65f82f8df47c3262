import MinorityViewport.Data.Client

/-!
# The list of clients

`Data/ClientsList.cpp`.  An id is the front of the queue of available ids,
or else the first draw that no client has.  The draws of `rand()` are a
list, and a search that has spent them goes on for ever.

`removeClient` is written with the index arithmetic of the source: where no
client has the id, the index is that of the last client.
-/

namespace MinorityViewport

open Exec

variable {K : Type}

structure ClientsList where
  avaliableIDs : List Nat
  rawClientList : List Client

namespace ClientsList

def empty : ClientsList := ⟨[], []⟩

def size (list : ClientsList) : Nat := list.rawClientList.length

/-- `ClientsList::At`. -/
def find (list : ClientsList) (id : Nat) : Option Client :=
  list.rawClientList.find? (·.id = id)

/-- `ClientsList::ClientIdIsPrevAssigned`. -/
def clientIdIsPrevAssigned (list : ClientsList) (id : Nat) : Bool :=
  list.rawClientList.any (·.id = id)

/-- The retry loop of `GenerateNextClientId`. -/
def drawId (list : ClientsList) : List Nat → Except Fault Nat
  | [] => .error .endlessLoop
  | draw :: rest =>
    let assignedId := draw % 1000 + 1
    if list.clientIdIsPrevAssigned assignedId then list.drawId rest
    else .ok assignedId

/-- `ClientsList::GenerateNextClientId`. -/
def generateNextClientId (list : ClientsList) (draws : List Nat) :
    Except Fault (Nat × ClientsList) :=
  match list.avaliableIDs with
  | id :: rest => .ok (id, { list with avaliableIDs := rest })
  | [] => (fun id => (id, list)) <$> list.drawId draws

/-- `ClientsList::AddClient`. -/
def addClient (list : ClientsList) (draws : List Nat) (physicalLoc ipAddr : Str) :
    Except Fault (Nat × ClientsList) := do
  let (newClientId, list) ← list.generateNextClientId draws
  let newClient := Client.new newClientId physicalLoc ipAddr
  pure (newClientId, { list with rawClientList := list.rawClientList ++ [newClient] })

/-- `ClientsList::RemoveClient`.  The client that has the id is deleted, and
its scenes with it. -/
def removeClient (id : Nat) : EStateM Fault (Heap K × ClientsList) PUnit := do
  let (scenes, list) ← get
  match list.rawClientList.findIdx? (·.id = id) with
  | some removedIdx =>
    let deleted := (list.rawClientList[removedIdx]?).elim [] Client.scenes
    set (scenes.free deleted,
      ({ rawClientList := list.rawClientList.eraseIdx removedIdx
         avaliableIDs := list.avaliableIDs ++ [id] } : ClientsList))
  | none =>
    if list.size = 0 then throw .invalidIterator
    else
      set (scenes,
        ({ rawClientList := list.rawClientList.eraseIdx (list.size - 1)
           avaliableIDs := list.avaliableIDs ++ [id] } : ClientsList))

/-! ## Lookups -/

theorem find_eq_none_iff {list : ClientsList} {id : Nat} :
    list.find id = none ↔ ∀ client ∈ list.rawClientList, client.id ≠ id := by
  simp [find]

theorem mem_of_find {list : ClientsList} {id : Nat} {client : Client}
    (h : list.find id = some client) : client ∈ list.rawClientList :=
  List.mem_of_find?_eq_some h

theorem drawId_isOk_iff (list : ClientsList) (draws : List Nat) :
    IsOk (list.drawId draws) ↔
      ∃ draw ∈ draws, ¬ list.clientIdIsPrevAssigned (draw % 1000 + 1) := by
  induction draws with
  | nil => simp [drawId]
  | cons draw rest ih =>
    unfold drawId
    by_cases h : list.clientIdIsPrevAssigned (draw % 1000 + 1)
    · simp [h, ih]
    · simp [h]

/-- An id is found exactly when one is queued or drawn. -/
theorem addClient_isOk_iff (list : ClientsList) (draws : List Nat) (loc ip : Str) :
    IsOk (list.addClient draws loc ip) ↔
      list.avaliableIDs ≠ [] ∨
        ∃ draw ∈ draws, ¬ list.clientIdIsPrevAssigned (draw % 1000 + 1) := by
  have hrest : IsOk (list.addClient draws loc ip) ↔
      IsOk (list.generateNextClientId draws) := by
    rw [addClient, isOk_bind_iff_and (C := True) fun _ => iff_of_true (isOk_pure _) trivial,
      and_true]
  rw [hrest, generateNextClientId]
  cases hq : list.avaliableIDs with
  | nil => simp [drawId_isOk_iff]
  | cons id rest => simp

/-- The id in front of the queue is taken, whatever is drawn. -/
theorem addClient_of_front {list : ClientsList} {id : Nat} {rest : List Nat}
    (h : list.avaliableIDs = id :: rest) (draws : List Nat) (loc ip : Str) :
    list.addClient draws loc ip =
      .ok (id, ⟨rest, list.rawClientList ++ [Client.new id loc ip]⟩) := by
  rw [addClient, generateNextClientId, h]
  rfl

/-- A client that is added comes last. -/
theorem rawClientList_addClient {list list' : ClientsList} {draws : List Nat}
    {loc ip : Str} {id : Nat} (h : list.addClient draws loc ip = .ok (id, list')) :
    list'.rawClientList = list.rawClientList ++ [Client.new id loc ip] := by
  obtain ⟨⟨newId, next⟩, hgen, h⟩ := bind_eq_ok_iff.mp h
  have hraw : next.rawClientList = list.rawClientList := by
    unfold generateNextClientId at hgen
    cases hq : list.avaliableIDs with
    | nil =>
      rw [hq] at hgen
      cases hdraw : list.drawId draws with
      | error e =>
        rw [hdraw] at hgen
        cases hgen
      | ok drawn =>
        rw [hdraw] at hgen
        obtain ⟨_, rfl⟩ := Prod.mk.inj (Except.ok.inj hgen)
        rfl
    | cons front rest =>
      rw [hq] at hgen
      obtain ⟨_, rfl⟩ := Prod.mk.inj (Except.ok.inj hgen)
      rfl
  obtain ⟨rfl, rfl⟩ := Prod.mk.inj (Except.ok.inj h)
  exact congrArg (· ++ _) hraw

/-- A client that is found is erased at its position. -/
theorem exists_findIdx?_of_find {list : ClientsList} {id : Nat} {client : Client}
    (h : list.find id = some client) :
    ∃ i, list.rawClientList.findIdx? (·.id = id) = some i ∧
      list.rawClientList.eraseP (·.id = id) = list.rawClientList.eraseIdx i := by
  obtain ⟨i, hi⟩ : ∃ i, list.rawClientList.findIdx? (·.id = id) = some i := by
    rw [← Option.isSome_iff_exists, List.findIdx?_isSome, List.any_eq_true]
    have hid := List.find?_some h
    exact ⟨client, mem_of_find h, hid⟩
  exact ⟨i, hi, by rw [List.eraseP_eq_eraseIdx, hi]⟩

/-- The run of a removal of a client that is there. -/
theorem run_removeClient (scenes : Heap K) {list : ClientsList} {id : Nat}
    {client : Client} (h : list.find id = some client) :
    (removeClient id).run (scenes, list) = .ok ⟨⟩ (scenes.free client.scenes,
      { rawClientList := list.rawClientList.eraseP (·.id = id)
        avaliableIDs := list.avaliableIDs ++ [id] }) := by
  obtain ⟨i, hi, herase⟩ := exists_findIdx?_of_find h
  have hget : list.rawClientList[i]? = some client := by
    have hbind : list.rawClientList.find? (·.id = id) = _ :=
      List.find?_eq_bind_findIdx?_getElem?
    rw [hi] at hbind
    exact hbind.symm.trans h
  rw [herase]
  show EStateM.run (match list.rawClientList.findIdx? (·.id = id) with
    | some _ => _
    | none => _) _ = _
  rw [hi]
  show EStateM.Result.ok _ (scenes.free ((list.rawClientList[i]?).elim [] Client.scenes), _) =
    _
  rw [hget]
  rfl

end ClientsList

end MinorityViewport
