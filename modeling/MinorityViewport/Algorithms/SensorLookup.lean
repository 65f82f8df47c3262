import MinorityViewport.Algorithms.ClientIds
import MinorityViewport.Algorithms.Ingest

/-!
# The two ways to find a sensor

A skeleton goes to a scene by the client and the sensor that it names.  A
browser asks for a scene by the sensor alone, and the first client that has
such a sensor answers.

* `agree_iff` says for one state that the two find the same scene exactly
  when no two clients have a sensor id in common (`Exclusive`).
* `sensors_registerSensors` says what a registration of sensors adds to the
  ids of its client, also when an exception ends it early.
* `run_agree_iff` carries the first over runs with the second.
-/

namespace MinorityViewport

open Exec Json Viewport

variable {K : Type}

namespace Viewport

/-- The scene of the sensor that `LoadSkeleton` looks up. -/
def loadScene (σ : Viewport K) (clientId : Nat) (sensorId : Str) : Option Addr :=
  ((σ.clients.find clientId).bind (·.sensors.find? sensorId)).map Sensor.scene

/-- The scene of every registered sensor is found by the id of the sensor
alone, and it is the one that `LoadSkeleton` updates. -/
def Agree (σ : Viewport K) : Prop :=
  ∀ client ∈ σ.clients.rawClientList, ∀ sensorId ∈ client.sensors.keys,
    ∃ scenePtr, σ.getLocalSceneBySensorId sensorId = some scenePtr ∧
      σ.loadScene client.id sensorId = some scenePtr ∧
      ∀ (skeleton : Skeleton K) (now : Int), skeleton.clientId = client.id →
        skeleton.sensorId = sensorId →
          (loadSkeleton skeleton now).run σ =
            .ok ⟨⟩ (σ.write scenePtr (·.update skeleton.skeletonId skeleton now))

/-- No two clients have a sensor id in common. -/
def Exclusive (σ : Viewport K) : Prop :=
  ∀ client ∈ σ.clients.rawClientList, ∀ other ∈ σ.clients.rawClientList,
    client.id ≠ other.id → ∀ sensorId ∈ client.sensors.keys, sensorId ∉ other.sensors.keys

/-! ## One state -/

/-- The sensor map of a client, searched as `GetLocalSceneBySensorId` does. -/
theorem findSome?_sensors (client : Client) (sensorId : Str) :
    (client.sensors.entries.findSome? fun entry =>
      if entry.1 = sensorId then some entry.2.scene else none) =
        (client.sensors.find? sensorId).map Sensor.scene := by
  show _ = (OrdMap.findEntry sensorId client.sensors.entries).map Sensor.scene
  induction client.sensors.entries with
  | nil => rfl
  | cons entry rest ih =>
    rw [List.findSome?_cons, OrdMap.findEntry]
    by_cases hid : sensorId = entry.1
    · rw [if_pos hid, if_pos hid.symm]
      rfl
    · rw [if_neg hid, if_neg (Ne.symm hid)]
      exact ih

/-- The first client that has the sensor answers. -/
theorem getLocalSceneBySensorId_eq_some {σ : Viewport K} {sensorId : Str} {scenePtr : Addr}
    (h : σ.getLocalSceneBySensorId sensorId = some scenePtr) :
    ∃ client ∈ σ.clients.rawClientList,
      (client.sensors.find? sensorId).map Sensor.scene = some scenePtr := by
  obtain ⟨client, hmem, hentry⟩ := List.exists_of_findSome?_eq_some h
  exact ⟨client, hmem, (findSome?_sensors client sensorId).symm.trans hentry⟩

theorem getLocalSceneBySensorId_isSome {σ : Viewport K} {client : Client}
    (hmem : client ∈ σ.clients.rawClientList) {sensorId : Str}
    (h : sensorId ∈ client.sensors.keys) : (σ.getLocalSceneBySensorId sensorId).isSome := by
  refine List.findSome?_isSome_iff.mpr ⟨client, hmem, ?_⟩
  rw [findSome?_sensors, Option.isSome_map]
  exact OrdMap.isSome_find?_iff.mpr h

/-- Where a client has the sensor, `LoadSkeleton` updates its scene. -/
theorem run_loadSkeleton_of_loadScene {σ : Viewport K} (hwf : WellFormed σ) {scenePtr : Addr}
    {skeleton : Skeleton K}
    (h : σ.loadScene skeleton.clientId skeleton.sensorId = some scenePtr) (now : Int) :
    (loadSkeleton skeleton now).run σ =
      .ok ⟨⟩ (σ.write scenePtr (·.update skeleton.skeletonId skeleton now)) := by
  obtain ⟨sensor, hsensor, rfl⟩ := Option.map_eq_some_iff.mp h
  obtain ⟨client, hfind, hkey⟩ := Option.bind_eq_some_iff.mp hsensor
  refine (run_loadSkeleton_eq_ok_iff hwf skeleton now).mpr ⟨fun other hother => ?_, ?_⟩
  · obtain rfl := Option.some.inj (hfind.symm.trans hother)
    rw [hkey]
    rfl
  · rw [store, sensorOf, hsensor]
    rfl

/-- A scene belongs to one client. -/
theorem eq_of_mem_scenes {σ : Viewport K} (hwf : WellFormed σ) {client other : Client}
    (hclient : client ∈ σ.clients.rawClientList) (hother : other ∈ σ.clients.rawClientList)
    {scenePtr : Addr} (h : scenePtr ∈ client.scenes) (h' : scenePtr ∈ other.scenes) :
    client = other := by
  by_contra hne
  have hapart := (List.nodup_flatMap.mp hwf.nodup).2
  have hsymm : Std.Symm (Function.onFun List.Disjoint Client.scenes) :=
    ⟨fun _ _ hd => List.Disjoint.symm hd⟩
  exact hapart.forall hclient hother hne h h'

theorem mem_scenes_of_find? {client : Client} {sensorId : Str} {scenePtr : Addr}
    (h : (client.sensors.find? sensorId).map Sensor.scene = some scenePtr) :
    scenePtr ∈ client.scenes := by
  obtain ⟨sensor, hsensor, rfl⟩ := Option.map_eq_some_iff.mp h
  exact List.mem_map_of_mem (List.mem_map.mpr ⟨_, OrdMap.find?_eq_some_iff.mp hsensor, rfl⟩)

theorem loadScene_eq {σ : Viewport K} (hd : σ.clients.Distinct) {client : Client}
    (hclient : client ∈ σ.clients.rawClientList) (sensorId : Str) :
    σ.loadScene client.id sensorId = (client.sensors.find? sensorId).map Sensor.scene := by
  rw [loadScene, (hd.find_eq_some_iff client.id client).mpr ⟨hclient, rfl⟩, Option.bind_some]

theorem agree_iff {σ : Viewport K} (hwf : WellFormed σ) (hd : σ.clients.Distinct) :
    Agree σ ↔ Exclusive σ := by
  constructor
  · intro h client hclient other hother hne sensorId hkey hkey'
    obtain ⟨scenePtr, hlocal, hload, _⟩ := h client hclient sensorId hkey
    obtain ⟨scenePtr', hlocal', hload', _⟩ := h other hother sensorId hkey'
    obtain rfl : scenePtr = scenePtr' := Option.some.inj (hlocal.symm.trans hlocal')
    rw [loadScene_eq hd hclient] at hload
    rw [loadScene_eq hd hother] at hload'
    exact hne (congrArg Client.id (eq_of_mem_scenes hwf hclient hother
      (mem_scenes_of_find? hload) (mem_scenes_of_find? hload')))
  · intro h client hclient sensorId hkey
    obtain ⟨scenePtr, hlocal⟩ :=
      Option.isSome_iff_exists.mp (getLocalSceneBySensorId_isSome hclient hkey)
    obtain ⟨other, hother, hfind⟩ := getLocalSceneBySensorId_eq_some hlocal
    -- the client that answers is the one that has registered the sensor
    have hid : client.id = other.id := by
      by_contra hne
      refine h client hclient other hother hne sensorId hkey (OrdMap.isSome_find?_iff.mp ?_)
      rw [← Option.isSome_map, hfind]
      rfl
    have hload : σ.loadScene client.id sensorId = some scenePtr := by
      rw [hid, loadScene_eq hd hother]
      exact hfind
    refine ⟨scenePtr, hlocal, hload, fun skeleton now hc hs => ?_⟩
    rw [← hc, ← hs] at hload
    exact run_loadSkeleton_of_loadScene hwf hload now

end Viewport

/-! ## What a registration adds -/

namespace Client

/-- The id that a registration reads from an element. -/
def idOfJson (sensorJson : Value) : Except Fault Str := do
  let id ← sensorJson.get "id" .zero
  id.asString

/-- The ids that a registration stores: those before the first element that
has none. -/
def listedIds (rawSensorsJson : Str) : List Str :=
  match Reader.parse rawSensorsJson with
  | none => []
  | some root =>
    match root.get "Sensors" .zero with
    | .ok sensorsJson => readings idOfJson sensorsJson.elements
    | .error _ => []

theorem after_initialSensorsList (alloc : Allocator) (rawSensorsJson : Str)
    {s : Heap K × Client}
    (hleft : ∀ s', (initialSensorsList alloc rawSensorsJson).run s ≠ .error .endlessLoop s') :
    after (initialSensorsList alloc rawSensorsJson) s =
      (listedIds rawSensorsJson).foldl (fun s id => addSensor alloc id s) s := by
  have hround : (fun (_ : Nat) (sensorJson : Value) (_ : PUnit) => (do
      let id ← ofExcept (sensorJson.get "id" .zero)
      let id ← ofExcept id.asString
      modify (addSensor alloc id) : EStateM Fault (Heap K × Client) PUnit)) =
        fun _ sensorJson _ => writeRound idOfJson (addSensor alloc) sensorJson := by
    funext _ sensorJson _
    unfold writeRound idOfJson
    cases sensorJson.get "id" .zero <;> rfl
  rw [initialSensorsList, hround] at hleft
  rw [initialSensorsList, hround, listedIds]
  cases hparse : Reader.parse rawSensorsJson with
  | none =>
    rw [Reader.read_of_parse hparse]
    rfl
  | some root =>
    simp only [Reader.read_of_parse hparse, ofExcept_ok_bind] at hleft ⊢
    cases hget : root.get "Sensors" .zero with
    | error fault => rfl
    | ok sensorsJson =>
      rw [hget] at hleft
      exact after_forElements_written sensorsJson idOfJson (addSensor alloc) hleft

theorem mem_keys_addSensor (alloc : Allocator) (id sensorId : Str) (s : Heap K × Client) :
    sensorId ∈ (addSensor alloc id s).2.sensors.keys ↔
      sensorId ∈ s.2.sensors.keys ∨ sensorId = id := by
  show sensorId ∈ (s.2.sensors.insert id _).keys ↔ _
  rw [← OrdMap.isSome_find?_iff, ← OrdMap.isSome_find?_iff, OrdMap.find?_insert]
  by_cases hid : sensorId = id
  · subst hid
    cases s.2.sensors.find? sensorId <;> simp
  · simp [hid]

theorem mem_keys_foldl_addSensor (alloc : Allocator) (ids : List Str) (sensorId : Str)
    (s : Heap K × Client) :
    sensorId ∈ (ids.foldl (fun s id => addSensor alloc id s) s).2.sensors.keys ↔
      sensorId ∈ s.2.sensors.keys ∨ sensorId ∈ ids := by
  induction ids generalizing s with
  | nil => simp
  | cons id rest ih =>
    rw [List.foldl_cons, ih, mem_keys_addSensor, List.mem_cons, or_assoc]

theorem id_foldl_addSensor (alloc : Allocator) (ids : List Str) (s : Heap K × Client) :
    (ids.foldl (fun s id => addSensor alloc id s) s).2.id = s.2.id := by
  induction ids generalizing s with
  | nil => rfl
  | cons id rest ih => exact ih _

end Client

namespace Viewport

/-- A registration changes the sensors of its client only. -/
structure Registers (clientId : Nat) (ids : List Str) (client client' : Client)
    (σ σ' : Viewport K) : Prop where
  before : client ∈ σ.clients.rawClientList ∧ client.id = clientId
  behind : client' ∈ σ'.clients.rawClientList ∧ client'.id = clientId
  keys : ∀ sensorId, sensorId ∈ client'.sensors.keys ↔
    sensorId ∈ client.sensors.keys ∨ sensorId ∈ ids
  others : ∀ other, other.id ≠ clientId →
    (other ∈ σ'.clients.rawClientList ↔ other ∈ σ.clients.rawClientList)

variable [Field K] [LinearOrder K]

/-- A registration that is a step has found its client, and its loop was left. -/
theorem find_of_registerSensors {σ σ' : Viewport K} {alloc : Allocator} {clientId : Nat}
    {raw : Str} (hstep : Step σ (.registerSensors alloc clientId raw) σ') :
    ∃ client, σ.clients.find clientId = some client ∧
      ∀ s', (Client.initialSensorsList alloc raw).run (σ.scenes, client) ≠
        .error .endlessLoop s' := by
  cases hfind : σ.clients.find clientId with
  | none =>
    have hrun : (Event.registerSensors alloc clientId raw).call.run σ = .error .nullPointer σ := by
      unfold Event.call Viewport.registerSensors
      simp only [EStateM.run_bind, EStateM.run_get, hfind]
      rfl
    exact absurd (hstep.isException hrun) (by decide)
  | some client =>
    refine ⟨client, rfl, fun s' hloop => ?_⟩
    have hrun : (Event.registerSensors alloc clientId raw).call.run σ =
        .error .endlessLoop
          { σ with scenes := s'.1, clients := setClient σ.clients clientId s'.2 } := by
      unfold Event.call Viewport.registerSensors
      simp only [EStateM.run_bind, EStateM.run_get, hfind, run_zoom, hloop]
    exact absurd (hstep.isException hrun) (by decide)

theorem sensors_registerSensors {σ σ' : Viewport K} {alloc : Allocator} {clientId : Nat}
    {raw : Str} (hstep : Step σ (.registerSensors alloc clientId raw) σ') :
    ∃ client client', Registers clientId (Client.listedIds raw) client client' σ σ' := by
  obtain ⟨client, hfind, hleft⟩ := find_of_registerSensors hstep
  have hafter := hstep.after_eq
  rw [Event.call, Viewport.registerSensors, after_get_bind] at hafter
  simp only [hfind, after_zoom] at hafter
  rw [Client.after_initialSensorsList alloc raw hleft] at hafter
  obtain ⟨before, behind, hsplit, hset, _⟩ := exists_split_of_find hfind
  have hid : client.id = clientId := by simpa using List.find?_some hfind
  have hid' := (Client.id_foldl_addSensor alloc (Client.listedIds raw)
    (σ.scenes, client)).trans hid
  have hkeys := fun sensorId =>
    Client.mem_keys_foldl_addSensor alloc (Client.listedIds raw) sensorId (σ.scenes, client)
  generalize (Client.listedIds raw).foldl _ (σ.scenes, client) = p at hafter hid' hkeys
  have hraw : σ'.clients.rawClientList = before ++ p.2 :: behind := by
    rw [← hafter]
    exact hset p.2
  refine ⟨client, p.2, ⟨ClientsList.mem_of_find hfind, hid⟩, ⟨?_, hid'⟩, hkeys, ?_⟩
  · rw [hraw]
    exact List.mem_append_right _ List.mem_cons_self
  · intro other hother
    have hne : other ≠ client := fun heq => hother (heq ▸ hid)
    have hne' : other ≠ p.2 := fun heq => hother (heq ▸ hid')
    rw [hraw, hsplit]
    simp only [List.mem_append, List.mem_cons, hne, hne', false_or]

omit [Field K] [LinearOrder K] in
/-- A registration keeps the clients exclusive exactly when it lists no id of
another client. -/
theorem Registers.exclusive_iff {σ σ' : Viewport K} {clientId : Nat} {ids : List Str}
    {client client' : Client} (h : Registers clientId ids client client' σ σ')
    (hd' : σ'.clients.Distinct) (hex : Exclusive σ) :
    Exclusive σ' ↔
      ∀ other ∈ σ.clients.rawClientList, other.id ≠ clientId →
        ∀ sensorId ∈ ids, sensorId ∉ other.sensors.keys := by
  have hunique : ∀ other ∈ σ'.clients.rawClientList, other.id = clientId → other = client' := by
    intro other hother hid
    have hfind := (hd'.find_eq_some_iff clientId other).mpr ⟨hother, hid⟩
    exact Option.some.inj (hfind.symm.trans ((hd'.find_eq_some_iff clientId client').mpr h.behind))
  constructor
  · intro h' other hother hne sensorId hlisted
    refine h' client' h.behind.1 other ((h.others other hne).mpr hother) ?_ sensorId
      ((h.keys sensorId).mpr (Or.inr hlisted))
    rw [h.behind.2]
    exact Ne.symm hne
  · intro hlist
    -- the keys of the client are apart from those of every other one
    have hnew : ∀ other ∈ σ'.clients.rawClientList, other.id ≠ clientId →
        ∀ sensorId ∈ client'.sensors.keys, sensorId ∉ other.sensors.keys := by
      intro other hother hne sensorId hkey
      have hother := (h.others other hne).mp hother
      rcases (h.keys sensorId).mp hkey with hold | hlisted
      · refine hex client h.before.1 other hother ?_ sensorId hold
        rw [h.before.2]
        exact Ne.symm hne
      · exact hlist other hother hne sensorId hlisted
    intro one hone other hother hne sensorId hkey hkey'
    by_cases hid : one.id = clientId
    · obtain rfl := hunique one hone hid
      exact hnew other hother (fun h => hne (hid.trans h.symm)) sensorId hkey hkey'
    by_cases hid' : other.id = clientId
    · obtain rfl := hunique other hother hid'
      exact hnew one hone hid sensorId hkey' hkey
    · exact hex one ((h.others one hid).mp hone) other ((h.others other hid').mp hother) hne
        sensorId hkey hkey'

/-! ## Runs -/

/-- The sensors that are registered for a client have ids that no other
client has. -/
def RegistersNewIds (σ : Viewport K) : Event K → Prop
  | .registerSensors _ clientId rawSensorsList =>
    ∀ other ∈ σ.clients.rawClientList, other.id ≠ clientId →
      ∀ sensorId ∈ Client.listedIds rawSensorsList, sensorId ∉ other.sensors.keys
  | _ => True

/-- Every other event keeps the clients exclusive. -/
theorem Exclusive.step {σ σ' : Viewport K} {e : Event K} (h : Exclusive σ) (hwf : WellFormed σ)
    (hstep : Step σ e σ')
    (hother : ∀ alloc clientId raw, e ≠ .registerSensors alloc clientId raw) : Exclusive σ' := by
  have hsub : ∀ {clients : List Client}, σ'.clients.rawClientList = clients →
      (∀ client ∈ clients, client ∈ σ.clients.rawClientList ∨ client.sensors.keys = []) →
        Exclusive σ' := by
    intro clients hclients hmem client hclient other hother hne sensorId hkey hkey'
    rw [hclients] at hclient hother
    rcases hmem client hclient with hin | hnil
    · rcases hmem other hother with hin' | hnil'
      · exact h client hin other hin' hne sensorId hkey hkey'
      · rw [hnil'] at hkey'
        cases hkey'
    · rw [hnil] at hkey
      cases hkey
  cases hstep.effect hwf with
  | registered hadd =>
    refine hsub (ClientsList.rawClientList_addClient hadd) fun client hmem => ?_
    rcases List.mem_append.mp hmem with hmem | hmem
    · exact Or.inl hmem
    · obtain rfl := List.mem_singleton.mp hmem
      exact Or.inr rfl
  | enrolled => exact absurd rfl (hother _ _ _)
  | deregistered hfind => exact hsub rfl fun client hmem => Or.inl (List.mem_of_mem_eraseP hmem)
  | unregistered | unknown => exact h
  | accepted | refused => exact hsub rfl fun client hmem => Or.inl hmem
  | recalibrated ht | quiet _ ht =>
    refine hsub rfl fun client hmem => Or.inl ?_
    rwa [ht.clients] at hmem

theorem agree_step_iff {σ σ' : Viewport K} {e : Event K} (h : Reachable σ ∧ Exclusive σ)
    (hstep : Step σ e σ') :
    (Agree σ' ↔ RegistersNewIds σ e) ∧ (RegistersNewIds σ e → Reachable σ' ∧ Exclusive σ') := by
  have hnext : Reachable σ' := h.1.step hstep
  have hd' := distinct_of_reachable hnext
  have hkept : Exclusive σ' ↔ RegistersNewIds σ e := by
    by_cases hreg : ∃ alloc clientId raw, e = .registerSensors alloc clientId raw
    · obtain ⟨alloc, clientId, raw, rfl⟩ := hreg
      obtain ⟨client, client', hregisters⟩ := sensors_registerSensors hstep
      exact hregisters.exclusive_iff hd' h.2
    · have hother : ∀ alloc clientId raw, e ≠ .registerSensors alloc clientId raw :=
        fun alloc clientId raw he => hreg ⟨alloc, clientId, raw, he⟩
      refine iff_of_true (h.2.step (wellFormed_of_reachable h.1) hstep hother) ?_
      cases e with
      | registerSensors => exact absurd rfl (hother _ _ _)
      | _ => trivial
  rw [agree_iff (wellFormed_of_reachable hnext) hd']
  exact ⟨hkept, fun hnew => ⟨hnext, hkept.mpr hnew⟩⟩

/-- In a run from the start, the two ways to find a sensor agree in every
state exactly when every registration brings new ids. -/
theorem run_agree_iff {trace : List (Event K × Viewport K)} (hrun : Run start trace) :
    (∀ p ∈ trace, Agree p.2) ↔ StepsMeet RegistersNewIds start trace :=
  hrun.forall_iff (I := fun σ => Reachable σ ∧ Exclusive σ)
    (fun _ _ _ _ h hstep => agree_step_iff h hstep) wellFormed_start
    ⟨.start, fun _ h => absurd h List.not_mem_nil⟩

instance (σ : Viewport K) (e : Event K) : Decidable (RegistersNewIds σ e) :=
  match e with
  | .registerSensors _ clientId rawSensorsList => inferInstanceAs (Decidable
      (∀ other ∈ σ.clients.rawClientList, other.id ≠ clientId →
        ∀ sensorId ∈ Client.listedIds rawSensorsList, sensorId ∉ other.sensors.keys))
  | .registerClient .. | .deregisterClient .. | .processSensorData .. | .calibrateSceneOrder
  | .calibrateScenes .. | .getGlobalScene .. | .clear .. => isTrue trivial

/-- A client with one sensor, and a second client with another one. -/
def otherSensor : List (Event ℚ) :=
  registration ++
    [.registerClient [1] [] [],
      .registerSensors .next 2 "\x7b\"Sensors\":[\x7b\"id\":\"b\"\x7d]\x7d".toList]

theorem run_agree_twoSensors :
    AllReturn start otherSensor ∧ ∀ p ∈ trail start otherSensor, Agree p.2 :=
  have hreturn : AllReturn start otherSensor := by decide +kernel
  ⟨hreturn, (run_agree_iff (run_trail hreturn)).mpr (by decide +kernel)⟩

/-- A second client with a sensor of the same id. -/
def sameSensor : List (Event ℚ) :=
  registration ++
    [.registerClient [1] [] [],
      .registerSensors .next 2 "\x7b\"Sensors\":[\x7b\"id\":\"a\"\x7d]\x7d".toList]

/-- The skeletons of client 2 go to a scene that the id does not lead to. -/
theorem not_agree_sameSensor :
    Reachable (stateAfter start sameSensor) ∧
      (stateAfter start sameSensor).getLocalSceneBySensorId "a".toList = some 1 ∧
        (stateAfter start sameSensor).loadScene 2 "a".toList = some 2 ∧
          ¬ Agree (stateAfter start sameSensor) := by
  have hfacts : (stateAfter start sameSensor).getLocalSceneBySensorId "a".toList = some 1 ∧
      (stateAfter start sameSensor).loadScene 2 "a".toList = some 2 ∧
        ∃ client ∈ (stateAfter start sameSensor).clients.rawClientList,
          client.id = 2 ∧ "a".toList ∈ client.sensors.keys := by
    decide +kernel
  obtain ⟨hlocal, hload, client, hmem, hid, hkey⟩ := hfacts
  refine ⟨Reachable.start.stateAfter (by decide +kernel), hlocal, hload, fun h => ?_⟩
  obtain ⟨scenePtr, hlocal', hload', _⟩ := h client hmem "a".toList hkey
  rw [hid, hload] at hload'
  rw [hlocal] at hlocal'
  exact absurd (hlocal'.trans hload'.symm) (by decide)

end Viewport

end MinorityViewport
