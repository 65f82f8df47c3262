import MinorityViewport.Algorithms.CallReturns
import MinorityViewport.Json.Strings
import MinorityViewport.Lib.PrintedJson

/-!
# The listing of the clients

`Viewport.listing` is the document that says what is registered, and
`Viewport.Listed` that the text of `GetClientListing` is JSON for it.

Only the sensor ids are escaped, and only their backslashes.  A client without
sensors has no last sensor for the comma, and the call does not return.  So
the text is right exactly if `Listable` holds of every client.
-/

namespace MinorityViewport

open Exec Json
open StrictJson (Doc Member Plain Renders printArray printMember printObject)

variable {K : Type}

/-! ## What the listing says -/

/-- A string as the bytes that it has. -/
def stringDoc (s : Str) : Doc := .string (s.map Char.toNat)

/-- A name and its value. -/
def memberDoc (name : String) (doc : Doc) : List Nat × Doc := (name.toList.map Char.toNat, doc)

def Sensor.listing (scenes : Heap K) (sensor : Sensor) : Doc :=
  match scenes.find? sensor.scene with
  | some scene =>
    .object [memberDoc "id" (stringDoc sensor.id),
      memberDoc "calibrated"
        (stringDoc (if scene.calibrated then "true".toList else "false".toList)),
      memberDoc "ordering" (stringDoc (toStringNat scene.ordering))]
  | none => .null

def Client.listing (scenes : Heap K) (client : Client) : Doc :=
  .object [memberDoc "id" (.number (toStringNat client.id)),
    memberDoc "location" (stringDoc client.location),
    memberDoc "address" (stringDoc client.ipAddr),
    memberDoc "sensors" (.array (client.sensors.values.map (Sensor.listing scenes)))]

def Viewport.listing (σ : Viewport K) : Doc :=
  .object [memberDoc "clients" (.array (σ.clients.rawClientList.map (Client.listing σ.scenes)))]

/-- The listing is a JSON text that says what is registered. -/
def Viewport.Listed (σ : Viewport K) : Prop :=
  ∃ text, σ.getClientListing = .ok text ∧ StrictJson.parse text = some σ.listing

/-! ## Sensor ids -/

/-- An id that the escape of the emitters spells. -/
def Sensor.Listable (sensor : Sensor) : Prop :=
  Spaced sensor.id ∧ ∀ c ∈ sensor.id, c ≠ '"' ∧ 0x20 ≤ c.toNat

/-- A client with sensors, and with nothing to escape but their spaced
backslashes. -/
structure Client.Listable (client : Client) : Prop where
  sensors_ne : client.sensors.size ≠ 0
  location : Plain client.location
  ipAddr : Plain client.ipAddr
  sensors : ∀ sensor ∈ client.sensors.values, sensor.Listable

instance (sensor : Sensor) : Decidable sensor.Listable :=
  have := List.decidableBAll (fun c => c ≠ '"' ∧ 0x20 ≤ c.toNat) sensor.id
  inferInstanceAs (Decidable (_ ∧ _))

instance (client : Client) : Decidable client.Listable :=
  decidable_of_iff (client.sensors.size ≠ 0 ∧ Plain client.location ∧ Plain client.ipAddr ∧
      ∀ sensor ∈ client.sensors.values, sensor.Listable)
    ⟨fun h => ⟨h.1, h.2.1, h.2.2.1, h.2.2.2⟩,
      fun h => ⟨h.sensors_ne, h.location, h.ipAddr, h.sensors⟩⟩

theorem chars_backslash (rest : Str) :
    StrictJson.chars ('\\' :: '\\' :: rest) =
      (StrictJson.chars rest).map fun p => ('\\'.toNat :: p.1, p.2) := by
  rw [StrictJson.chars, if_neg (by decide), if_pos rfl]
  · cases StrictJson.chars rest <;> rfl
  · decide

theorem chars_escapeFrom {skip : Nat} {cs : Str} (hspaced : SpacedFrom skip cs)
    (hcs : ∀ c ∈ cs, c ≠ '"' ∧ 0x20 ≤ c.toNat) (rest : Str) :
    StrictJson.chars (escapeFrom skip cs ++ '"' :: rest) = some (cs.map Char.toNat, rest) := by
  induction cs generalizing skip with
  | nil =>
    cases skip <;> exact StrictJson.chars_quote rest
  | cons c cs ih =>
    obtain ⟨⟨hquote, hcontrol⟩, hcs⟩ := List.forall_mem_cons.mp hcs
    cases skip with
    | zero =>
      unfold SpacedFrom at hspaced
      unfold escapeFrom
      by_cases hescape : c = '\\'
      · rw [if_pos hescape] at hspaced ⊢
        rw [List.cons_append, List.cons_append, chars_backslash, ih hspaced hcs, hescape]
        rfl
      · rw [if_neg hescape] at hspaced ⊢
        rw [List.cons_append, StrictJson.chars_char hquote hescape (by omega), ih hspaced hcs]
        rfl
    | succ skip =>
      obtain ⟨hescape, hspaced⟩ := hspaced
      rw [escapeFrom, List.cons_append, StrictJson.chars_char hquote hescape (by omega),
        ih hspaced hcs]
      rfl

/-- A backslash takes two characters of a string, and so does a quote or a
control character, which the escape leaves as it is. -/
theorem length_add_count_le (cs : Str) :
    cs.length + cs.count '\\' ≤ StrictJson.pointsWeight (cs.map Char.toNat) ∧
      (StrictJson.pointsWeight (cs.map Char.toNat) ≤ cs.length + cs.count '\\' →
        ∀ c ∈ cs, c ≠ '"' ∧ 0x20 ≤ c.toNat) := by
  induction cs with
  | nil => exact ⟨le_rfl, fun _ c hc => by cases hc⟩
  | cons c cs ih =>
    rw [List.map_cons, StrictJson.pointsWeight_cons, List.length_cons, List.count_cons]
    by_cases hescape : c = '\\'
    · rw [StrictJson.pointWeight_of_not fun h => h.2.1 hescape, hescape, beq_self_eq_true,
        if_pos rfl]
      refine ⟨by omega, fun h => ?_⟩
      exact List.forall_mem_cons.mpr ⟨by decide, ih.2 (by omega)⟩
    · rw [if_neg (by simpa using hescape)]
      by_cases hc : c ≠ '"' ∧ 0x20 ≤ c.toNat
      · rw [StrictJson.pointWeight_of_ne hc.1 hescape (by omega)]
        exact ⟨by omega, fun h => List.forall_mem_cons.mpr ⟨hc, ih.2 (by omega)⟩⟩
      · rw [StrictJson.pointWeight_of_not fun h => hc ⟨h.1, h.2.2⟩]
        exact ⟨by omega, fun h => absurd h (by omega)⟩

/-- An escaped sensor id between quotes. -/
theorem renders_sensorId (sensor : Sensor) :
    Renders ('"' :: escapeSensorId sensor.id ++ ['"']) (stringDoc sensor.id) sensor.Listable := by
  have hlen := length_escapeFrom 0 sensor.id
  have hweight := length_add_count_le sensor.id
  rw [escapeSensorId_eq]
  refine Renders.string (fun hok rest => ?_) (by omega) (fun hle => ?_)
  · exact chars_escapeFrom ((spacedFrom_zero_iff _).mpr hok.1) hok.2 rest
  · exact ⟨(spacedFrom_zero_iff _).mp (hlen.2 (by omega)), hweight.2 (by omega)⟩

/-! ## The text that is printed -/

/-- The scenes of the registered sensors are live. -/
theorem WellFormed.scene_live {σ : Viewport K} (hwf : WellFormed σ) {client : Client}
    (hclient : client ∈ σ.clients.rawClientList) :
    ∀ sensor ∈ client.sensors.values, (σ.scenes.find? sensor.scene).isSome := by
  intro sensor hsensor
  exact hwf.live _ (List.mem_flatMap.mpr ⟨client, hclient, List.mem_map_of_mem hsensor⟩)

/-- The members of a printed sensor. -/
def Sensor.members (sensor : Sensor) (scene : Scene K) : List Member :=
  [⟨"id".toList, '"' :: escapeSensorId sensor.id ++ ['"'], stringDoc sensor.id, sensor.Listable⟩,
    ⟨"calibrated".toList,
      '"' :: (if scene.calibrated then "true".toList else "false".toList) ++ ['"'],
      stringDoc (if scene.calibrated then "true".toList else "false".toList), True⟩,
    ⟨"ordering".toList, '"' :: toStringNat scene.ordering ++ ['"'],
      stringDoc (toStringNat scene.ordering), True⟩]

/-- A sensor as `Client::ToJSON` prints it. -/
def Sensor.printed (scenes : Heap K) (sensor : Sensor) : Str :=
  match scenes.find? sensor.scene with
  | some scene => printObject ((sensor.members scene).map fun m => (m.name, m.text))
  | none => []

theorem sensorToJSON_eq_ok {scenes : Heap K} {sensor : Sensor}
    (h : (scenes.find? sensor.scene).isSome) :
    Client.sensorToJSON scenes sensor = .ok (sensor.printed scenes) := by
  obtain ⟨scene, hscene⟩ := Option.isSome_iff_exists.mp h
  have hprinted : sensor.printed scenes =
      printObject ((sensor.members scene).map fun m => (m.name, m.text)) := by
    rw [Sensor.printed, hscene]
  rw [hprinted]
  unfold Client.sensorToJSON Sensor.members
  rw [Heap.deref_eq_ok_iff.mpr hscene]
  refine congrArg Except.ok ?_
  generalize toStringNat scene.ordering = ordering
  generalize escapeSensorId sensor.id = id
  cases scene.calibrated <;> simp [printObject, printMember]

theorem renders_sensor {scenes : Heap K} {sensor : Sensor}
    (h : (scenes.find? sensor.scene).isSome) :
    Renders (sensor.printed scenes) (sensor.listing scenes) sensor.Listable := by
  obtain ⟨scene, hscene⟩ := Option.isSome_iff_exists.mp h
  have hobject : Renders (printObject ((sensor.members scene).map fun m => (m.name, m.text)))
      (.object ((sensor.members scene).map Member.meant)) (∀ m ∈ sensor.members scene, m.ok) := by
    refine Renders.object fun m hm => ?_
    rcases List.mem_cons.mp hm with rfl | hm
    · exact ⟨(by decide : Plain "id".toList), renders_sensorId sensor⟩
    rcases List.mem_cons.mp hm with rfl | hm
    · exact ⟨(by decide : Plain "calibrated".toList),
        Renders.plain (by cases scene.calibrated <;> decide)⟩
    · obtain rfl := List.mem_singleton.mp hm
      exact ⟨(by decide : Plain "ordering".toList), Renders.plain (StrictJson.plain_toDigits _)⟩
  have hok : (∀ m ∈ sensor.members scene, m.ok) ↔ sensor.Listable := by
    simp [Sensor.members]
  rw [hok] at hobject
  rwa [Sensor.printed, Sensor.listing, hscene]

/-- The members of a printed client. -/
def Client.members (scenes : Heap K) (client : Client) : List Member :=
  [⟨"id".toList, toStringNat client.id, .number (toStringNat client.id), True⟩,
    ⟨"location".toList, '"' :: client.location ++ ['"'], stringDoc client.location,
      Plain client.location⟩,
    ⟨"address".toList, '"' :: client.ipAddr ++ ['"'], stringDoc client.ipAddr,
      Plain client.ipAddr⟩,
    ⟨"sensors".toList, printArray (client.sensors.values.map (Sensor.printed scenes)),
      .array (client.sensors.values.map (Sensor.listing scenes)),
      ∀ sensor ∈ client.sensors.values, sensor.Listable⟩]

/-- A client as `Client::ToJSON` prints it. -/
def Client.printed (scenes : Heap K) (client : Client) : Str :=
  printObject ((client.members scenes).map fun m => (m.name, m.text))

theorem toJSON_eq_ok {scenes : Heap K} {client : Client} (hsize : client.sensors.size ≠ 0)
    (h : ∀ sensor ∈ client.sensors.values, (scenes.find? sensor.scene).isSome) :
    client.toJSON scenes = .ok (client.printed scenes) := by
  have hsensors : client.sensors.values.mapM (Client.sensorToJSON scenes) =
      .ok (client.sensors.values.map (Sensor.printed scenes)) :=
    mapM_eq_ok fun sensor hsensor => sensorToJSON_eq_ok (h sensor hsensor)
  unfold Client.toJSON Client.printed Client.members
  rw [if_neg hsize, hsensors]
  refine congrArg Except.ok ?_
  generalize toStringNat client.id = id
  generalize client.sensors.values.map (Sensor.printed scenes) = sensors
  simp [printObject, printMember, printArray]

theorem renders_client {scenes : Heap K} {client : Client}
    (h : ∀ sensor ∈ client.sensors.values, (scenes.find? sensor.scene).isSome) :
    Renders (client.printed scenes) (client.listing scenes)
      (Plain client.location ∧ Plain client.ipAddr ∧
        ∀ sensor ∈ client.sensors.values, sensor.Listable) := by
  have hobject : Renders (client.printed scenes)
      (.object ((client.members scenes).map Member.meant))
      (∀ m ∈ client.members scenes, m.ok) := by
    refine Renders.object fun m hm => ?_
    rcases List.mem_cons.mp hm with rfl | hm
    · exact ⟨(by decide : Plain "id".toList), Renders.natural client.id⟩
    rcases List.mem_cons.mp hm with rfl | hm
    · exact ⟨(by decide : Plain "location".toList), Renders.raw client.location⟩
    rcases List.mem_cons.mp hm with rfl | hm
    · exact ⟨(by decide : Plain "address".toList), Renders.raw client.ipAddr⟩
    · obtain rfl := List.mem_singleton.mp hm
      exact ⟨(by decide : Plain "sensors".toList),
        Renders.array fun sensor hsensor => renders_sensor (h sensor hsensor)⟩
  have hok : (∀ m ∈ client.members scenes, m.ok) ↔
      Plain client.location ∧ Plain client.ipAddr ∧
        ∀ sensor ∈ client.sensors.values, sensor.Listable := by
    simp [Client.members]
  rwa [hok] at hobject

namespace Viewport

/-- The member of the printed listing. -/
def members (σ : Viewport K) : List Member :=
  [⟨"clients".toList, printArray (σ.clients.rawClientList.map (Client.printed σ.scenes)),
    .array (σ.clients.rawClientList.map (Client.listing σ.scenes)),
    ∀ client ∈ σ.clients.rawClientList, Plain client.location ∧ Plain client.ipAddr ∧
      ∀ sensor ∈ client.sensors.values, sensor.Listable⟩]

/-- The text of `GetClientListing`. -/
def printed (σ : Viewport K) : Str := printObject (σ.members.map fun m => (m.name, m.text))

theorem getClientListing_eq_ok {σ : Viewport K} (hwf : WellFormed σ)
    (hsize : ∀ client ∈ σ.clients.rawClientList, client.sensors.size ≠ 0) :
    σ.getClientListing = .ok σ.printed := by
  have hclients : σ.clients.rawClientList.mapM (Client.toJSON σ.scenes) =
      .ok (σ.clients.rawClientList.map (Client.printed σ.scenes)) :=
    mapM_eq_ok fun client hclient =>
      toJSON_eq_ok (hsize client hclient) (hwf.scene_live hclient)
  unfold getClientListing printed members
  rw [hclients]
  refine congrArg Except.ok ?_
  generalize σ.clients.rawClientList.map (Client.printed σ.scenes) = clients
  simp [printObject, printMember, printArray]

theorem renders_printed {σ : Viewport K} (hwf : WellFormed σ) :
    Renders σ.printed σ.listing (∀ client ∈ σ.clients.rawClientList,
      Plain client.location ∧ Plain client.ipAddr ∧
        ∀ sensor ∈ client.sensors.values, sensor.Listable) := by
  have hobject : Renders σ.printed (.object (σ.members.map Member.meant))
      (∀ m ∈ σ.members, m.ok) := by
    refine Renders.object fun m hm => ?_
    obtain rfl := List.mem_singleton.mp hm
    exact ⟨(by decide : Plain "clients".toList),
      Renders.array fun client hclient => renders_client (hwf.scene_live hclient)⟩
  rwa [members, List.forall_mem_singleton] at hobject

/-- The listing says what is registered exactly if every client can be
listed. -/
theorem listed_iff [Field K] [LinearOrder K] {σ : Viewport K} (h : Reachable σ) :
    σ.Listed ↔ ∀ client ∈ σ.clients.rawClientList, client.Listable := by
  have hwf := wellFormed_of_reachable h
  have hparse := (renders_printed hwf).parse_iff
  constructor
  · rintro ⟨text, htext, hdoc⟩
    have hsize := (getClientListing_isOk_iff hwf).mp ⟨text, htext⟩
    rw [getClientListing_eq_ok hwf hsize] at htext
    obtain rfl := Except.ok.inj htext
    intro client hclient
    obtain ⟨hlocation, hipAddr, hsensors⟩ := hparse.mp hdoc client hclient
    exact ⟨hsize client hclient, hlocation, hipAddr, hsensors⟩
  · intro hall
    have hok := getClientListing_eq_ok hwf fun client hclient => (hall client hclient).sensors_ne
    refine ⟨_, hok, hparse.mpr fun client hclient => ?_⟩
    have hclient := hall client hclient
    exact ⟨hclient.location, hclient.ipAddr, hclient.sensors⟩

theorem listed_registration : (stateAfter start registration).Listed :=
  (listed_iff reachable_registration).mpr (by decide +kernel)

/-- A client that has not registered a sensor yet. -/
def withoutSensors : List (Event ℚ) := [.registerClient [0] [] []]

/-- A client at a place with a quote in its name. -/
def quotedLocation : List (Event ℚ) :=
  [.registerClient [0] "the \"lab\"".toList [],
    .registerSensors .next 1 "\x7b\"Sensors\":[\x7b\"id\":\"a\"\x7d]\x7d".toList]

/-- The listing of the first does not return, and the listing of the second
is not JSON for it. -/
theorem not_listed_withoutSensors_quotedLocation :
    (Reachable (stateAfter start withoutSensors) ∧ ¬ (stateAfter start withoutSensors).Listed) ∧
      Reachable (stateAfter start quotedLocation) ∧
        ¬ (stateAfter start quotedLocation).Listed := by
  have hwithout : Reachable (stateAfter start withoutSensors) :=
    Reachable.start.stateAfter (by decide +kernel)
  have hquoted : Reachable (stateAfter start quotedLocation) :=
    Reachable.start.stateAfter (by decide +kernel)
  refine ⟨⟨hwithout, ?_⟩, hquoted, ?_⟩
  · rintro ⟨text, htext, _⟩
    have hsize := (getClientListing_isOk_iff (wellFormed_of_reachable hwithout)).mp ⟨text, htext⟩
    exact absurd hsize (by decide +kernel)
  · rintro ⟨text, htext, hdoc⟩
    have hwf := wellFormed_of_reachable hquoted
    have hsize := (getClientListing_isOk_iff hwf).mp ⟨text, htext⟩
    rw [getClientListing_eq_ok hwf hsize] at htext
    obtain rfl := Except.ok.inj htext
    have hplain : ∀ client ∈ (stateAfter start quotedLocation).clients.rawClientList,
        Plain client.location := fun client hclient =>
      ((renders_printed hwf).parse_iff.mp hdoc client hclient).1
    exact absurd hplain (by decide +kernel)

end Viewport

end MinorityViewport
