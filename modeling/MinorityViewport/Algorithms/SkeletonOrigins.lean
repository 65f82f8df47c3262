import MinorityViewport.Algorithms.Landing
import MinorityViewport.Algorithms.SensorLookup
import MinorityViewport.Algorithms.MergeWrites

/-!
# Where the skeletons of a scene come from

A scene of a sensor holds nothing but skeletons that a datagram has reported
for this sensor and this client, each under its own number.  That holds in
every run, with clients that come and go, with scenes at addresses that were
in use before, and with datagrams that end in an exception half way.

`Origins` is the invariant.  It speaks of a property of skeletons, which is
to have been reported, so that it survives every step that only moves
skeletons around (`Origins.step`) and datagrams with such skeletons
(`moves_processSensorData_origins`).
-/

namespace MinorityViewport

open Exec Json Viewport

variable {K : Type}

/-! ## Loops over the elements of a value -/

section Loops

variable {ε σ β : Type} {R : σ → σ → Prop} [IsPreorder σ R]

theorem moves_ofExcept_bind {α : Type} {r : Except ε α} {f : α → EStateM ε σ β}
    (hf : ∀ a, r = .ok a → Moves R (f a)) : Moves R (ofExcept r >>= f) := by
  intro s
  rw [after_ofExcept_bind]
  cases r with
  | ok a => exact hf a rfl s
  | error e => exact refl_of R s

theorem moves_countLoop_of_lt (modulus size : Nat) {endless : EStateM ε σ β}
    (hendless : Moves R endless) {body : Nat → β → EStateM ε σ β}
    (hbody : ∀ i b, i < size → Moves R (body i b)) (fuel : Nat) :
    ∀ i b, Moves R (countLoop modulus size endless body fuel i b) := by
  induction fuel with
  | zero => exact fun _ _ => hendless
  | succ fuel ih =>
    intro i b
    unfold countLoop
    exact moves_ite (fun hi => moves_bind (hbody i b hi) fun b' => ih _ b') fun _ => moves_pure b

/-- A round of the loop sees an element of the value. -/
theorem mem_elements_of_atIndex {v element : Value} {i : Nat} (hi : i < v.size)
    (h : v.atIndex i = .ok element) : element ∈ v.elements := by
  cases v with
  | null => exact absurd hi (Nat.not_lt_zero i)
  | array xs =>
    have hlt : i < xs.length := hi
    obtain rfl := Except.ok.inj ((Value.atIndex_of_lt (v := .array xs) hlt).symm.trans h)
    exact List.getElem_mem hlt
  | _ => cases h

theorem moves_forElements_of_mem {R : σ → σ → Prop} [IsPreorder σ R] (v : Value)
    {body : Nat → Value → β → EStateM Fault σ β}
    (hbody : ∀ i e b, e ∈ v.elements → Moves R (body i e b)) (b : β) :
    Moves R (forElements v body b) := by
  refine moves_countLoop_of_lt _ _ (moves_throw _) (fun i b hi => ?_) _ _ b
  cases hat : v.atIndex i with
  | ok element => exact hbody i element b (mem_elements_of_atIndex hi hat)
  | error fault => exact moves_throw fault

end Loops

/-! ## The invariant -/

/-- Each skeleton has the property, and is under its own number in a scene of
the client and the sensor that it names. -/
def Scene.Genuine (P : Skeleton K → Prop) (clientId : Nat) (sensorId : Str) (s : Scene K) : Prop :=
  ∀ p ∈ s.skeletons.entries, p.1 = p.2.skeletonId ∧ p.2.clientId = clientId ∧
    p.2.sensorId = sensorId ∧ P p.2

theorem Scene.genuine_of_entries_eq_nil {P : Skeleton K → Prop} {clientId : Nat} {sensorId : Str}
    {s : Scene K} (h : s.skeletons.entries = []) : s.Genuine P clientId sensorId := by
  intro p hp
  rw [h] at hp
  cases hp

theorem Scene.Genuine.mono {P Q : Skeleton K → Prop} {clientId : Nat} {sensorId : Str}
    {s s' : Scene K} (h : s.Genuine P clientId sensorId) (hPQ : ∀ p, P p → Q p)
    (hsub : s'.skeletons.entries ⊆ s.skeletons.entries) : s'.Genuine Q clientId sensorId :=
  fun p hp => (h p (hsub hp)).imp_right fun ⟨hclient, hsensor, hP⟩ => ⟨hclient, hsensor, hPQ _ hP⟩

/-- No skeleton comes into the scene. -/
def Scene.OnlyLoses (s s' : Scene K) : Prop := s'.skeletons.entries ⊆ s.skeletons.entries

instance : IsPreorder (Scene K) Scene.OnlyLoses where
  refl _ := List.Subset.refl _
  trans _ _ _ h h' := List.Subset.trans h' h

/-- The scenes of the registered sensors are genuine. -/
def Origins (P : Skeleton K → Prop) (σ : Viewport K) : Prop :=
  ∀ client ∈ σ.clients.rawClientList, ∀ entry ∈ client.sensors.entries,
    ∀ s, σ.scenes.find? entry.2.scene = some s → s.Genuine P client.id entry.1

variable {P Q : Skeleton K → Prop} {σ σ' : Viewport K}

theorem origins_start : Origins P (start : Viewport K) := fun _ h => absurd h List.not_mem_nil

theorem Origins.mono (h : Origins P σ) (hPQ : ∀ p, P p → Q p) : Origins Q σ :=
  fun client hclient entry hentry s hs =>
    (h client hclient entry hentry s hs).mono hPQ (List.Subset.refl _)

/-- The clients stay, and no scene gets a skeleton. -/
theorem Origins.of_related (h : Origins P σ) (hclients : σ'.clients = σ.clients)
    (hscenes : Heap.Related Scene.OnlyLoses σ.scenes σ'.scenes) : Origins P σ' := by
  intro client hclient entry hentry s' hs'
  rw [hclients] at hclient
  obtain ⟨s, hs, hsub⟩ := hscenes.find?_back hs'
  exact (h client hclient entry hentry s hs).mono (fun _ hP => hP) hsub

/-! ## Sensor data -/

theorem mem_scenes_of_mem {client : Client} {entry : Str × Sensor}
    (h : entry ∈ client.sensors.entries) : entry.2.scene ∈ client.scenes :=
  List.mem_map_of_mem (List.mem_map_of_mem h)

/-- A scene belongs to one sensor of one client. -/
theorem WellFormed.eq_of_scene_eq (hwf : WellFormed σ) {client other : Client}
    (hclient : client ∈ σ.clients.rawClientList) (hother : other ∈ σ.clients.rawClientList)
    {entry entry' : Str × Sensor} (h : entry ∈ client.sensors.entries)
    (h' : entry' ∈ other.sensors.entries) (heq : entry.2.scene = entry'.2.scene) :
    client = other ∧ entry = entry' := by
  have hmem := mem_scenes_of_mem h
  obtain rfl := eq_of_mem_scenes hwf hclient hother hmem (heq ▸ mem_scenes_of_mem h')
  have hnodup : (client.sensors.entries.map fun e => e.2.scene).Nodup := by
    have hscenes := (List.nodup_flatMap.mp hwf.nodup).1 client hclient
    rwa [Client.scenes, OrdMap.values, List.map_map] at hscenes
  exact ⟨rfl, List.inj_on_of_nodup_map hnodup h h' heq⟩

/-- A skeleton gets into the scene of the sensor that it names. -/
theorem Origins.update (h : Origins P σ) (hwf : WellFormed σ) {p : Skeleton K} (hp : P p)
    {client : Client} (hclient : σ.clients.find p.clientId = some client) {sensor : Sensor}
    (hsensor : client.sensors.find? p.sensorId = some sensor) (now : Int) :
    Origins P (σ.write sensor.scene (·.update p.skeletonId p now)) := by
  intro other hother entry hentry s' hs'
  have hmem := ClientsList.mem_of_find hclient
  have hnamed := OrdMap.find?_eq_some_iff.mp hsensor
  rw [Viewport.write, Heap.find?_modifyAt] at hs'
  split_ifs at hs' with ha
  · obtain ⟨s, hs, rfl⟩ := Option.map_eq_some_iff.mp hs'
    obtain ⟨rfl, rfl⟩ := hwf.eq_of_scene_eq hother hmem hentry hnamed ha
    intro q hq
    rw [Scene.skeletons_update] at hq
    rcases OrdMap.mem_place hq with rfl | hold
    · have hid : other.id = p.clientId := by simpa using List.find?_some hclient
      exact ⟨rfl, hid.symm, rfl, hp⟩
    · exact h other hother _ hentry s hs q hold
  · exact h other hother entry hentry s' hs'

theorem find?_of_extractSensor {client : Client} {sensorId : Str} {sensor : Sensor}
    (h : client.extractSensor sensorId = .ok (some sensor)) :
    client.sensors.find? sensorId = some sensor := by
  unfold Client.extractSensor at h
  split_ifs at h
  · cases hfind : client.sensors.find? sensorId with
    | none =>
      rw [hfind] at h
      cases h
    | some found =>
      rw [hfind] at h
      rw [Option.some.inj (Except.ok.inj h)]
  · cases h

/-- The invariant of the runs. -/
def Sourced (P : Skeleton K → Prop) (σ : Viewport K) : Prop := WellFormed σ ∧ Origins P σ

theorem moves_loadSkeleton_origins {p : Skeleton K} (hp : P p) (now : Int) :
    Moves (Keeping (Sourced P)) (loadSkeleton p now) := by
  refine moves_get_bind fun σ => ?_
  cases hclient : σ.clients.find p.clientId with
  | none => exact moves_pure _ σ
  | some client =>
    dsimp only
    rw [after_ofExcept_bind]
    cases hextract : client.extractSensor p.sensorId with
    | error fault => exact id
    | ok sensor =>
      cases sensor with
      | none => exact id
      | some sensor =>
        have hsensor := find?_of_extractSensor hextract
        rintro ⟨hwf, horigins⟩
        show Sourced P (after (writeScene sensor.scene _) σ)
        rw [after, run_writeScene (hwf.live _ (scene_mem_owned hclient hsensor))]
        refine ⟨hwf.quiet ?_, horigins.update hwf hp hclient hsensor now⟩
        exact (touches_write (fun s => s.sameFrame_update p.skeletonId p now) σ
          sensor.scene).quiet_of_sameFrame

section Datagrams

variable [Field K]

/-- The skeletons in a datagram. -/
def reported (sensorData : Str) : List (Skeleton K) :=
  match Reader.parse sensorData with
  | some root => (rawSkeletons root).filterMap fun raw =>
      (Skeleton.ofJson raw (timeStampOf root)).toOption
  | none => []

theorem moves_processSensorData_origins (now : Nat → Int) {sensorData : Str}
    (h : ∀ p ∈ reported sensorData, P p) :
    Moves (Keeping (Sourced P)) (processSensorData (K := K) now sensorData) := by
  cases sensorData with
  | nil => exact moves_pure _
  | cons c rest =>
    refine moves_ofExcept_bind fun root hread => ?_
    cases root with
    | none => exact moves_pure _
    | some root =>
      refine moves_ofExcept_bind fun stamp hstamp => moves_ofExcept_bind fun timeStamp htime =>
        moves_ofExcept_bind fun skeletonsJson hskeletons => ?_
      refine moves_forElements_of_mem _ (fun i raw _ hraw =>
        moves_ofExcept_bind fun newSkeleton hdecoded => ?_) _
      refine moves_loadSkeleton_origins (h newSkeleton ?_) _
      obtain ⟨_, rfl⟩ := Value.get_eq_ok_iff.mp hstamp
      obtain ⟨_, rfl⟩ := Value.get_eq_ok_iff.mp hskeletons
      simp only [reported, Reader.parse_of_read hread]
      refine List.mem_filterMap.mpr ⟨raw, hraw, ?_⟩
      rw [timeStampOf, htime]
      show (Skeleton.ofJson raw (Value.truncate timeStamp)).toOption = _
      rw [hdecoded]
      rfl

end Datagrams

/-! ## Registrations -/

/-- The heap and the client while sensors are added: what is new on the heap
is empty. -/
structure Enrolling (P : Skeleton K → Prop) (scenes : Heap K) (client : Client)
    (p : Heap K × Client) : Prop where
  id : p.2.id = client.id
  new : ∀ a s, p.1.find? a = some s → scenes.find? a = some s ∨ s.skeletons.entries = []
  genuine : ∀ entry ∈ p.2.sensors.entries, ∀ s, p.1.find? entry.2.scene = some s →
    s.Genuine P client.id entry.1

theorem Enrolling.addSensor {scenes : Heap K} {client : Client} {p : Heap K × Client}
    (h : Enrolling P scenes client p) (alloc : Allocator) (id : Str) :
    Enrolling P scenes client (Client.addSensor alloc id p) where
  id := h.id
  new a s hs := by
    rw [Client.find?_addSensor] at hs
    split_ifs at hs
    · obtain rfl := Option.some.inj hs
      exact Or.inr rfl
    · exact h.new a s hs
  genuine entry hentry s hs := by
    rw [Client.find?_addSensor] at hs
    split_ifs at hs with hnew
    · obtain rfl := Option.some.inj hs
      exact Scene.genuine_of_entries_eq_nil rfl
    · refine h.genuine entry ?_ s hs
      obtain ⟨sensorId, sensor⟩ := entry
      have hfind := OrdMap.find?_eq_some_iff.mpr hentry
      rw [show (Client.addSensor alloc id p).2.sensors =
        p.2.sensors.insert id ⟨id, alloc.pick p.1.keys⟩ from rfl, OrdMap.find?_insert] at hfind
      split_ifs at hfind
      · obtain rfl := Option.some.inj hfind
        exact absurd rfl hnew
      · exact OrdMap.find?_eq_some_iff.mp hfind

theorem moves_initialSensorsList_enrolling (alloc : Allocator) (rawSensorsJson : Str)
    (scenes : Heap K) (client : Client) :
    Moves (Keeping (Enrolling P scenes client))
      (Client.initialSensorsList alloc rawSensorsJson) := by
  refine moves_bind (moves_ofExcept _) fun root => ?_
  cases root with
  | none => exact moves_pure _
  | some root =>
    refine moves_bind (moves_ofExcept _) fun sensorsJson => ?_
    refine moves_forElements _ (fun _ sensorJson _ => ?_) _
    exact moves_bind (moves_ofExcept _) fun id => moves_bind (moves_ofExcept _) fun id =>
      moves_modify fun p h => h.addSensor alloc id

theorem Origins.registerSensors (h : Origins P σ) (alloc : Allocator) (clientId : Nat)
    (rawSensorsList : Str) :
    Origins P (after (Viewport.registerSensors alloc clientId rawSensorsList) σ) := by
  rw [Viewport.registerSensors, after_get_bind]
  cases hfind : σ.clients.find clientId with
  | none => exact h
  | some client =>
    obtain ⟨before, behind, hsplit, hset, -⟩ := exists_split_of_find hfind
    have hclient : client ∈ σ.clients.rawClientList := ClientsList.mem_of_find hfind
    dsimp only
    rw [after_zoom]
    have henrolling := moves_initialSensorsList_enrolling (P := P) alloc rawSensorsList σ.scenes
      client (σ.scenes, client)
      ⟨rfl, fun _ _ hs => Or.inl hs, fun entry hentry s hs => h client hclient entry hentry s hs⟩
    generalize after (Client.initialSensorsList alloc rawSensorsList) (σ.scenes, client) = p
      at henrolling
    intro other hother entry hentry s hs
    change other ∈ (setClient σ.clients clientId p.2).rawClientList at hother
    rw [hset, List.mem_append, List.mem_cons] at hother
    have hold : other ∈ σ.clients.rawClientList → s.Genuine P other.id entry.1 := by
      intro hmem
      rcases henrolling.new _ _ hs with hkept | hempty
      · exact h other hmem entry hentry s hkept
      · exact Scene.genuine_of_entries_eq_nil hempty
    rcases hother with hbefore | rfl | hbehind
    · exact hold (hsplit ▸ List.mem_append_left _ hbefore)
    · rw [henrolling.id]
      exact henrolling.genuine entry hentry s hs
    · exact hold (hsplit ▸ List.mem_append_right _ (List.mem_cons_of_mem _ hbehind))

/-! ## Runs -/

section Runs

variable [Field K] [LinearOrder K]

/-- The skeletons that an event brings. -/
def Event.reports : Event K → List (Skeleton K)
  | .processSensorData _ sensorData => reported sensorData
  | _ => []

/-- No step but a datagram makes a skeleton, and a datagram only what it has. -/
theorem Origins.step {e : Event K} (hwf : WellFormed σ) (h : Origins P σ) (hstep : Step σ e σ')
    (hreports : ∀ p ∈ e.reports, P p) : Origins P σ' := by
  have hafter := hstep.after_eq
  cases hstep.effect hwf with
  | registered hadd =>
    intro client hclient entry hentry s hs
    rw [ClientsList.rawClientList_addClient hadd, List.mem_append] at hclient
    rcases hclient with hold | hnew
    · exact h client hold entry hentry s hs
    · obtain rfl := List.mem_singleton.mp hnew
      cases hentry
  | unregistered => exact h
  | enrolled =>
    rw [← hafter]
    exact h.registerSensors _ _ _
  | deregistered hfind =>
    intro client hclient entry hentry s hs
    have hscenes : (σ.scenes.free _).find? _ = some s := hs
    rw [Heap.find?_free] at hscenes
    split_ifs at hscenes
    exact h client (List.mem_of_mem_eraseP hclient) entry hentry s hscenes
  | unknown => exact h
  | accepted =>
    refine h.of_related rfl (σ.related_acceptedOrder.mono fun s s' hsame => ?_)
    rw [hsame]
    exact refl_of Scene.OnlyLoses s
  | refused => exact h
  | recalibrated htouches =>
    refine h.of_related htouches.clients (htouches.scenes.mono fun s s' hsame => ?_)
    rw [hsame]
    exact refl_of Scene.OnlyLoses s
  | quiet hquiet =>
    rw [← hafter]
    cases e with
    | processSensorData now sensorData =>
      exact (moves_processSensorData_origins now hreports σ ⟨hwf, h⟩).2
    | getGlobalScene rand now =>
      rw [Event.call, after_bind_pure, after_getGlobalScene]
      split_ifs
      · exact h
      · refine h.of_related rfl (Heap.related_writeAll (refl_of Scene.OnlyLoses)
          (fun _ _ _ => trans_of Scene.OnlyLoses) (fun w hw s => ?_) _)
        obtain ⟨r, _, rfl⟩ := List.mem_map.mp hw
        exact fun _ hp => List.mem_of_mem_filter hp
    | clear scenePtr =>
      exact h.of_related rfl (Heap.related_modifyAt (refl_of Scene.OnlyLoses)
        (fun s => show Scene.OnlyLoses s s.manualClear from List.nil_subset _) _ _)
    | registerClient | registerSensors | deregisterClient | calibrateSceneOrder
    | calibrateScenes => exact absurd trivial hquiet

theorem Run.origins {trace : List (Event K × Viewport K)} (hrun : Run σ trace)
    (hwf : WellFormed σ) (h : Origins P σ) :
    ∀ before last behind, trace = before ++ last :: behind →
      Origins (fun p => P p ∨ ∃ step ∈ before ++ [last], p ∈ step.1.reports) last.2 := by
  induction hrun generalizing P with
  | nil => exact fun before _ _ heq => absurd heq.symm (by simp)
  | @cons σ σ' e trace hstep _ ih =>
    intro before last behind heq
    -- the skeletons that were there, and the ones that the step brings
    have hnext : Origins (fun p => P p ∨ p ∈ e.reports) σ' :=
      (h.mono fun _ hP => Or.inl hP).step hwf hstep fun _ hp => Or.inr hp
    cases before with
    | nil =>
      obtain ⟨rfl, -⟩ := List.cons.inj heq
      exact hnext.mono fun p hp =>
        hp.imp_right fun hreported => ⟨(e, σ'), List.mem_singleton_self _, hreported⟩
    | cons first before =>
      obtain ⟨rfl, hrest⟩ := List.cons.inj heq
      refine (ih (hwf.step hstep) hnext before last behind hrest).mono fun p hp => ?_
      rcases hp with (hP | hreported) | ⟨step, hmem, hreported⟩
      · exact Or.inl hP
      · exact Or.inr ⟨_, List.mem_cons_self, hreported⟩
      · exact Or.inr ⟨step, List.mem_cons_of_mem _ hmem, hreported⟩

/-- Whatever a scene of a sensor holds in a run, a datagram of the run has
reported before, for this sensor of this client. -/
theorem run_origins {trace : List (Event K × Viewport K)} (hrun : Run start trace)
    {before behind : List (Event K × Viewport K)} {e : Event K} {σ : Viewport K}
    (heq : trace = before ++ (e, σ) :: behind) :
    ∀ client ∈ σ.clients.rawClientList, ∀ entry ∈ client.sensors.entries,
      ∀ s, σ.scenes.find? entry.2.scene = some s → ∀ p ∈ s.skeletons.entries,
        p.1 = p.2.skeletonId ∧ p.2.clientId = client.id ∧ p.2.sensorId = entry.1 ∧
          ∃ now sensorData τ, (.processSensorData now sensorData, τ) ∈ before ++ [(e, σ)] ∧
            p.2 ∈ reported sensorData := by
  intro client hclient entry hentry s hs p hp
  obtain ⟨hkey, hid, hsensor, hsource⟩ :=
    hrun.origins (P := fun _ => False) wellFormed_start origins_start before (e, σ) behind heq
      client hclient entry hentry s hs p hp
  refine ⟨hkey, hid, hsensor, ?_⟩
  rcases hsource with hnone | ⟨⟨event, τ⟩, hmem, hreported⟩
  · exact hnone.elim
  · cases event with
    | processSensorData now sensorData => exact ⟨now, sensorData, τ, hmem, hreported⟩
    | _ => exact absurd hreported List.not_mem_nil

theorem trail_append (σ : Viewport K) (xs ys : List (Event K)) :
    trail σ (xs ++ ys) = trail σ xs ++ trail (stateAfter σ xs) ys := by
  induction xs generalizing σ with
  | nil => rfl
  | cons e rest ih => exact congrArg _ (ih _)

end Runs

/-- Two persons are seen. -/
def sighting : Event ℚ := .processSensorData (fun _ => 5) twoPersons

theorem run_origins_twoPersons :
    let σ := after sighting.call (stateAfter start registration)
    ∀ client ∈ σ.clients.rawClientList, ∀ entry ∈ client.sensors.entries,
      ∀ s, σ.scenes.find? entry.2.scene = some s → ∀ p ∈ s.skeletons.entries,
        p.1 = p.2.skeletonId ∧ p.2.clientId = client.id ∧ p.2.sensorId = entry.1 ∧
          ∃ now sensorData τ, (.processSensorData now sensorData, τ) ∈
              trail start registration ++ [(sighting, σ)] ∧
            p.2 ∈ reported sensorData := by
  have hall : AllReturn start (registration ++ [sighting]) := by decide +kernel
  exact run_origins (run_trail hall) (trail_append start registration [sighting])

end MinorityViewport
