import MinorityViewport.Data.ClientsList

/-!
# The viewport: registry and ingest

The state of `MinorityViewportAlgo` and its operations on clients, sensors
and incoming data.  A pointer member of the source is an address into
`scenes`, the heap of the live scenes of sensors.  The global scene is never
deleted, so it is a field of its own.

Every operation is a computation in `EStateM Fault (Viewport K)`.  What the
outside world decides is a parameter: the draws of `rand()`, the addresses
that `new` answers, and the timer readings.
-/

namespace MinorityViewport

open Exec Json

variable {K : Type}

structure Viewport (K : Type) where
  clients : ClientsList
  scenes : Heap K
  globalScene : Scene K
  orderedScenes : List Addr
  scenesSet : OrdMap Addr PUnit

namespace Viewport

/-- `MinorityViewportAlgo::MinorityViewportAlgo` on an empty list of
clients. -/
def start : Viewport K where
  clients := .empty
  scenes := .empty
  globalScene := Scene.ofDimensions 10 10 10
  orderedScenes := []
  scenesSet := .empty

/-- The scenes that belong to a sensor of a registered client. -/
def owned (σ : Viewport K) : List Addr := σ.clients.rawClientList.flatMap Client.scenes

/-! ## Clients -/

/-- `RegisterClient`. -/
def registerClient (draws : List Nat) (phyLocation ipAddr : Str) :
    EStateM Fault (Viewport K) Nat := do
  let σ ← get
  let (clientId, clients) ← ofExcept (σ.clients.addClient draws phyLocation ipAddr)
  set { σ with clients := clients }
  pure clientId

/-- `GetClientListing`. -/
def getClientListing (σ : Viewport K) : Except Fault Str := do
  let clients ← σ.clients.rawClientList.mapM (Client.toJSON σ.scenes)
  pure ("\x7b".toList ++ "\"clients\":".toList ++ "[".toList ++
    List.intercalate ",".toList clients ++ "]".toList ++ "\x7d".toList)

/-- One round of the sensor loop of `DeregisterClient`. -/
def forget (σ : Viewport K) (scenePtr : Addr) : Viewport K :=
  { σ with
    orderedScenes := σ.orderedScenes.filter (· ≠ scenePtr)
    scenesSet := σ.scenesSet.erase scenePtr }

/-- `DeregisterClient`.  The client comes from a lookup that may answer
`NULL`. -/
def deregisterClient (clientId : Nat) : EStateM Fault (Viewport K) PUnit := do
  let σ ← get
  match σ.clients.find clientId with
  | none => throw .nullPointer
  | some clientToBeRm => do
    modify fun σ => clientToBeRm.scenes.foldl forget σ
    zoom (fun σ => (σ.scenes, σ.clients))
      (fun p σ => { σ with scenes := p.1, clients := p.2 })
      (ClientsList.removeClient clientId)

/-- Write back the client that a lookup has found. -/
def setClient (clients : ClientsList) (clientId : Nat) (client : Client) : ClientsList :=
  { clients with
    rawClientList := clients.rawClientList.set
      (clients.rawClientList.findIdx (·.id = clientId)) client }

/-- `RegisterSensors`. -/
def registerSensors [Machine] (alloc : Allocator) (clientId : Nat) (rawSensorsList : Str) :
    EStateM Fault (Viewport K) PUnit := do
  let σ ← get
  match σ.clients.find clientId with
  | none => throw .nullPointer
  | some extractedClient =>
    zoom (fun σ => (σ.scenes, extractedClient))
      (fun p σ => { σ with
        scenes := p.1, clients := setClient σ.clients clientId p.2 })
      (Client.initialSensorsList alloc rawSensorsList)

/-- `GetLocalSceneBySensorId`. -/
def getLocalSceneBySensorId (σ : Viewport K) (sensorId : Str) : Option Addr :=
  σ.clients.rawClientList.findSome? fun client =>
    client.sensors.entries.findSome? fun entry =>
      if entry.1 = sensorId then some entry.2.scene else none

/-! ## Sensor data -/

/-- Write to a live scene. -/
def write (σ : Viewport K) (scenePtr : Addr) (f : Scene K → Scene K) : Viewport K :=
  { σ with scenes := σ.scenes.modifyAt scenePtr f }

/-- A member function that writes to a scene, called through a pointer. -/
def writeScene (scenePtr : Addr) (f : Scene K → Scene K) :
    EStateM Fault (Viewport K) PUnit := do
  let σ ← get
  let _ ← ofExcept (σ.scenes.deref scenePtr)
  set (σ.write scenePtr f)

/-- `Sensor::UpdateScene`. -/
def updateScene (sensor : Sensor) (person : Skeleton K) (now : Int) :
    EStateM Fault (Viewport K) PUnit :=
  writeScene sensor.scene (·.update person.skeletonId person now)

/-- `LoadSkeleton`. -/
def loadSkeleton (newSkeleton : Skeleton K) (now : Int) :
    EStateM Fault (Viewport K) PUnit := do
  let σ ← get
  match σ.clients.find newSkeleton.clientId with
  | none => pure ⟨⟩
  | some client => do
    let sensor ← ofExcept (client.extractSensor newSkeleton.sensorId)
    match sensor with
    | none => throw .nullPointer
    | some sensor => updateScene sensor newSkeleton now

/-- `ProcessSensorData`.  `now i` is the timer reading when skeleton `i` of
the datagram is stored. -/
def processSensorData [Machine] [Field K] (now : Nat → Int) (sensorData : Str) :
    EStateM Fault (Viewport K) PUnit :=
  match sensorData with
  | [] => pure ⟨⟩
  | _ :: _ => do
    let root ← ofExcept (Reader.read sensorData)
    match root with
    | none => pure ⟨⟩
    | some root => do
      let timeStamp ← ofExcept (root.get "TIME_STAMP" (.string "0".toList))
      let timeStamp ← ofExcept timeStamp.asDouble
      let skeletonsJson ← ofExcept (root.member "SENSOR_JSON")
      forElements skeletonsJson (fun i skeletonJson _ => do
        let newSkeleton ← ofExcept (Skeleton.ofJson skeletonJson (Value.truncate timeStamp))
        loadSkeleton newSkeleton (now i)) ⟨⟩

/-! ## The outcomes of the operations on clients -/

theorem run_writeScene {σ : Viewport K} {a : Addr} (h : (σ.scenes.find? a).isSome)
    (f : Scene K → Scene K) :
    (writeScene a f).run σ = .ok ⟨⟩ (σ.write a f) := by
  obtain ⟨scene, hscene⟩ := Option.isSome_iff_exists.mp h
  unfold writeScene
  simp only [EStateM.run_bind, EStateM.run_get, Heap.deref_eq_ok_iff.mpr hscene]
  rfl

theorem run_writeScene_of_none {σ : Viewport K} {a : Addr} (h : σ.scenes.find? a = none)
    (f : Scene K → Scene K) : (writeScene a f).run σ = .error .danglingPointer σ := by
  have hderef : σ.scenes.deref a = .error .danglingPointer := by rw [Heap.deref, h]
  unfold writeScene
  simp only [EStateM.run_bind, EStateM.run_get, hderef]
  rfl

theorem after_writeScene_bind {α : Type} {σ : Viewport K} {a : Addr}
    (h : (σ.scenes.find? a).isSome) (f : Scene K → Scene K)
    (x : PUnit → EStateM Fault (Viewport K) α) :
    after (writeScene a f >>= x) σ = after (x ⟨⟩) (σ.write a f) := by
  rw [after_bind, run_writeScene h]

theorem run_writeScene_eq_ok_iff {σ σ' : Viewport K} {a : Addr} {f : Scene K → Scene K} :
    (writeScene a f).run σ = .ok ⟨⟩ σ' ↔
      (σ.scenes.find? a).isSome ∧ σ' = σ.write a f := by
  cases h : σ.scenes.find? a with
  | none =>
    rw [run_writeScene_of_none h]
    simp
  | some scene =>
    rw [run_writeScene (by rw [h]; rfl)]
    simp [eq_comm]

theorem foldl_forget (addrs : List Addr) (σ : Viewport K) :
    addrs.foldl forget σ =
      { σ with
        orderedScenes := σ.orderedScenes.filter (· ∉ addrs)
        scenesSet := addrs.foldl OrdMap.erase σ.scenesSet } := by
  induction addrs generalizing σ with
  | nil => simp
  | cons a rest ih =>
    rw [List.foldl_cons, ih, forget]
    simp only [List.filter_filter, List.foldl_cons, List.mem_cons, not_or]
    congr 2
    funext b
    simp [Bool.and_comm]

/-- A client that a lookup finds is written back and removed in its place. -/
theorem exists_split_of_find {clients : ClientsList} {clientId : Nat} {client : Client}
    (h : clients.find clientId = some client) :
    ∃ before behind, clients.rawClientList = before ++ client :: behind ∧
      (∀ client', (setClient clients clientId client').rawClientList =
        before ++ client' :: behind) ∧
      clients.rawClientList.eraseP (·.id = clientId) = before ++ behind := by
  obtain ⟨hid, before, behind, hsplit, hbefore⟩ := List.find?_eq_some_iff_append.mp h
  have hidx : clients.rawClientList.findIdx (·.id = clientId) = before.length := by
    rw [hsplit, List.findIdx_append, List.findIdx_eq_length.mpr (by simpa using hbefore),
      if_neg (lt_irrefl _), List.findIdx_cons, hid]
    exact Nat.zero_add _
  refine ⟨before, behind, hsplit, fun client' => ?_, ?_⟩
  · show clients.rawClientList.set _ _ = _
    rw [hidx, hsplit]
    simp
  · rw [hsplit, List.eraseP_append_right _ (by simpa using hbefore)]
    exact congrArg (before ++ ·) (List.eraseP_cons_of_pos hid)

/-- The state after a client and its sensors are gone. -/
def withoutClient (σ : Viewport K) (clientId : Nat) (client : Client) : Viewport K where
  clients :=
    { rawClientList := σ.clients.rawClientList.eraseP (·.id = clientId)
      avaliableIDs := σ.clients.avaliableIDs ++ [clientId] }
  scenes := σ.scenes.free client.scenes
  globalScene := σ.globalScene
  orderedScenes := σ.orderedScenes.filter (· ∉ client.scenes)
  scenesSet := client.scenes.foldl OrdMap.erase σ.scenesSet

theorem run_deregisterClient {σ : Viewport K} {clientId : Nat} {client : Client}
    (h : σ.clients.find clientId = some client) :
    (deregisterClient clientId).run σ = .ok ⟨⟩ (σ.withoutClient clientId client) := by
  have hbody : (deregisterClient clientId).run σ =
      (do modify fun σ => client.scenes.foldl forget σ
          zoom (fun σ => (σ.scenes, σ.clients))
            (fun p σ => { σ with scenes := p.1, clients := p.2 })
            (ClientsList.removeClient clientId) :
        EStateM Fault (Viewport K) PUnit).run σ := by
    unfold deregisterClient
    simp only [EStateM.run_bind, EStateM.run_get, h]
  have hrun := ClientsList.run_removeClient σ.scenes h
  rw [hbody]
  simp only [EStateM.run_bind, EStateM.run_modify, foldl_forget, run_zoom, hrun]
  rfl

theorem not_returns_deregisterClient {σ : Viewport K} {clientId : Nat}
    (h : σ.clients.find clientId = none) :
    (deregisterClient clientId).run σ = .error .nullPointer σ := by
  unfold deregisterClient
  simp only [EStateM.run_bind, EStateM.run_get, h]
  rfl

end Viewport

end MinorityViewport
