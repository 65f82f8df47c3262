import MinorityViewport.Algorithms.Ingest

/-!
# Where sensor data lands

A skeleton goes to the scene of the sensor that it names, under its skeleton
id.  The id is a 32-bit number in the datagram and a 16-bit number in the
skeleton, and the scene is a map of capacity three.

`skeletons_foldl_storeJson` follows a whole datagram: the skeletons of a
scene are those that the datagram places there, whatever it has for others.
`processSensorData_landed_iff` says when no skeleton of a valid datagram is
lost.
-/

namespace MinorityViewport.Viewport

open Exec Json

variable {K : Type}

/-! ## The skeletons for a scene -/

/-- The scene of the sensor that a value names. -/
def target (clients : ClientsList) (raw : Value) : Option Addr := do
  let clientId ← (raw.memberD "client_id" .zero).asUInt.toOption
  let sensorId ← (raw.memberD "sensor_id" .zero).asString.toOption
  let client ← clients.find clientId
  let sensor ← client.sensors.find? sensorId
  pure sensor.scene

/-- The skeleton id that a value has. -/
def sentId (raw : Value) : Nat := (raw.memberD "skeleton_id" .zero).asUInt.toOption.getD 0

/-- The values for a scene. -/
def sentTo (clients : ClientsList) (a : Addr) (raws : List Value) : List Value :=
  raws.filter fun raw => target clients raw = some a

section

variable [Field K]

/-- The skeletons for a scene. -/
def skeletonsFor (clients : ClientsList) (timeStamp : Int) (a : Addr) (raws : List Value) :
    List (Skeleton K) :=
  (sentTo clients a raws).filterMap fun raw => (Skeleton.ofJson raw timeStamp).toOption

/-- The skeletons for a scene, each under its skeleton id. -/
def entriesFor (clients : ClientsList) (timeStamp : Int) (a : Addr) (raws : List Value) :
    List (Nat × Skeleton K) :=
  (skeletonsFor clients timeStamp a raws).map fun s => (s.skeletonId, s)

theorem entriesFor_cons (clients : ClientsList) (timeStamp : Int) (a : Addr) (raw : Value)
    (rest : List Value) :
    (entriesFor clients timeStamp a (raw :: rest) : List (Nat × Skeleton K)) =
      entriesFor clients timeStamp a [raw] ++ entriesFor clients timeStamp a rest := by
  rw [entriesFor, skeletonsFor, sentTo, ← List.singleton_append, List.filter_append,
    List.filterMap_append, List.map_append]
  rfl

/-- The scene of a value is the scene of the sensor of its skeleton. -/
theorem target_of_ofJson {σ : Viewport K} {raw : Value} {timeStamp : Int} {s : Skeleton K}
    (h : Skeleton.ofJson raw timeStamp = .ok s) :
    target σ.clients raw = (σ.sensorOf s).map Sensor.scene := by
  obtain ⟨hclient, hsensor, _⟩ := Skeleton.ids_of_ofJson h
  rw [target, hclient, hsensor, sensorOf]
  cases hfind : σ.clients.find s.clientId with
  | none => simp [Except.toOption, hfind]
  | some client => cases hs : client.sensors.find? s.sensorId <;> simp [Except.toOption, hfind, hs]

theorem skeletonId_of_ofJson {raw : Value} {timeStamp : Int} {s : Skeleton K}
    (h : Skeleton.ofJson raw timeStamp = .ok s) : s.skeletonId = sentId raw % 65536 := by
  obtain ⟨_, _, skeletonId, hid, hs⟩ := Skeleton.ids_of_ofJson h
  rw [hs, sentId, hid]
  rfl

/-- The skeletons for a scene have the ids that were sent, cut to 16 bits. -/
theorem map_skeletonId_skeletonsFor (clients : ClientsList) (timeStamp : Int) (a : Addr)
    {raws : List Value} (hraws : ∀ raw ∈ raws, Skeleton.Decodes raw) :
    (skeletonsFor clients timeStamp a raws : List (Skeleton K)).map Skeleton.skeletonId =
      (sentTo clients a raws).map (sentId · % 65536) := by
  have hsent : ∀ raw ∈ sentTo clients a raws, Skeleton.Decodes raw := fun raw hraw =>
    hraws raw (List.mem_filter.mp hraw).1
  unfold skeletonsFor
  generalize sentTo clients a raws = sent at hsent
  induction sent with
  | nil => rfl
  | cons raw rest ih =>
    obtain ⟨hraw, hrest⟩ := List.forall_mem_cons.mp hsent
    obtain ⟨s, hs⟩ := (Skeleton.ofJson_isOk_iff (K := K) raw timeStamp).mpr hraw
    rw [List.filterMap_cons_some (by rw [hs]; rfl), List.map_cons, List.map_cons, ih hrest,
      skeletonId_of_ofJson hs]

/-! ## What a datagram leaves in a scene -/

theorem entriesFor_of_ofJson {clients : ClientsList} {timeStamp : Int} {raw : Value}
    {s : Skeleton K} (h : Skeleton.ofJson raw timeStamp = .ok s) (a : Addr) :
    entriesFor clients timeStamp a [raw] =
      if target clients raw = some a then [(s.skeletonId, s)] else [] := by
  have hsome : (Skeleton.ofJson (K := K) raw timeStamp).toOption = some s := by rw [h]; rfl
  unfold entriesFor skeletonsFor sentTo
  by_cases ha : target clients raw = some a <;> simp [ha, hsome]

theorem entriesFor_of_error {timeStamp : Int} {raw : Value} {e : Fault}
    (h : Skeleton.ofJson (K := K) raw timeStamp = .error e) (clients : ClientsList) (a : Addr) :
    (entriesFor clients timeStamp a [raw] : List (Nat × Skeleton K)) = [] := by
  have hnone : (Skeleton.ofJson (K := K) raw timeStamp).toOption = none := by rw [h]; rfl
  unfold entriesFor skeletonsFor sentTo
  by_cases ha : target clients raw = some a <;> simp [ha, hnone]

/-- One skeleton is placed in its scene. -/
theorem skeletons_storeJson (timeStamp : Int) (now : Nat → Int) (σ : Viewport K)
    (p : Value × Nat) (a : Addr) :
    ((storeJson timeStamp now σ p).scenes.find? a).map Scene.skeletons =
      (σ.scenes.find? a).map fun s =>
        s.skeletons.placeAll 3 (entriesFor σ.clients timeStamp a [p.1]) := by
  unfold storeJson
  cases hs : Skeleton.ofJson (K := K) p.1 timeStamp with
  | error e =>
    rw [entriesFor_of_error hs]
    rfl
  | ok s =>
    rw [entriesFor_of_ofJson hs, target_of_ofJson hs]
    show ((σ.store s (now p.2)).scenes.find? a).map Scene.skeletons = _
    unfold store
    cases hsensor : σ.sensorOf s with
    | none => rfl
    | some sensor =>
      show ((σ.scenes.modifyAt sensor.scene _).find? a).map Scene.skeletons = _
      rw [Heap.find?_modifyAt]
      by_cases ha : a = sensor.scene
      · simp [ha, OrdMap.placeAll, Scene.skeletons_update, Function.comp_def]
      · simp [ha, Ne.symm ha, OrdMap.placeAll]

/-- The skeletons of a scene after the rounds.  The registered clients stay,
so a value has the same scene in every round. -/
theorem skeletons_foldl_storeJson (timeStamp : Int) (now : Nat → Int) (a : Addr)
    (ps : List (Value × Nat)) (σ : Viewport K) :
    ((ps.foldl (storeJson timeStamp now) σ).scenes.find? a).map Scene.skeletons =
      (σ.scenes.find? a).map fun s =>
        s.skeletons.placeAll 3 (entriesFor σ.clients timeStamp a (ps.map Prod.fst)) := by
  induction ps generalizing σ with
  | nil => rfl
  | cons p rest ih =>
    have hclients := (touches_storeJson timeStamp now σ p).quiet_of_sameFrame.clients
    have hstep := skeletons_storeJson timeStamp now σ p a
    rw [List.foldl_cons, ih, hclients, List.map_cons, entriesFor_cons]
    rw [← Function.comp_def (fun m : OrdMap Nat (Skeleton K) => m.placeAll 3 _) Scene.skeletons,
      ← Option.map_map, hstep, Option.map_map]
    simp only [Function.comp_def, OrdMap.placeAll, List.foldl_append]

/-! ## Valid datagrams -/

/-- The skeletons of a datagram. -/
def rawSkeletons (root : Value) : List Value := (root.memberD "SENSOR_JSON" .null).elements

/-- The time stamp of a datagram. -/
def timeStampOf (root : Value) : Int :=
  Value.truncate ((root.memberD "TIME_STAMP" (.string "0".toList)).asDouble.toOption.getD 0)

omit [Field K] in
/-- A well-formed datagram whose skeletons all name a sensor of a registered
client.  The scenes it is for are empty, and each of them gets at most three
skeletons, with different ids. -/
structure ValidDatagram (σ : Viewport K) (sensorData : Str) (root : Value) : Prop where
  parses : Reader.parse sensorData = some root
  isObject : root.isObject
  time : (root.memberD "TIME_STAMP" (.string "0".toList)).convertsToDouble
  isArray : (root.memberD "SENSOR_JSON" .null).isArray
  decodes : ∀ raw ∈ rawSkeletons root, Skeleton.Decodes raw
  registered : ∀ raw ∈ rawSkeletons root, (target σ.clients raw).isSome
  empty : ∀ a, sentTo σ.clients a (rawSkeletons root) ≠ [] →
    ∀ s, σ.scenes.find? a = some s → s.skeletons = .empty
  few : ∀ a, (sentTo σ.clients a (rawSkeletons root)).length ≤ 3
  distinct : ∀ a, ((sentTo σ.clients a (rawSkeletons root)).map sentId).Nodup

/-- The call returns.  Every scene that the datagram is for then has an entry
for each of its skeletons, and all other scenes have the skeletons that they
had. -/
def Landed (now : Nat → Int) (σ : Viewport K) (sensorData : Str) (root : Value) : Prop :=
  ∃ σ', (processSensorData now sensorData).run σ = .ok ⟨⟩ σ' ∧
    (∀ a, sentTo σ.clients a (rawSkeletons root) ≠ [] → ∃ s', σ'.scenes.find? a = some s' ∧
      (skeletonsFor σ.clients (timeStampOf root) a (rawSkeletons root)).Subperm
        s'.skeletons.values) ∧
    ∀ a, sentTo σ.clients a (rawSkeletons root) = [] →
      (σ'.scenes.find? a).map Scene.skeletons = (σ.scenes.find? a).map Scene.skeletons

omit [Field K] in
theorem lands_of_target {σ : Viewport K} {raw : Value} (h : (target σ.clients raw).isSome)
    {clientId : Nat} {sensorId : Str}
    (hclient : (raw.memberD "client_id" .zero).asUInt = .ok clientId)
    (hsensor : (raw.memberD "sensor_id" .zero).asString = .ok sensorId) :
    Lands σ.clients clientId sensorId := by
  intro client hfind
  rw [target, hclient, hsensor] at h
  cases hs : client.sensors.find? sensorId with
  | none => simp [Except.toOption, hfind, hs] at h
  | some sensor => rfl

omit [Field K] in
/-- A scene that a value is for belongs to a registered sensor. -/
theorem mem_owned_of_target {σ : Viewport K} {raw : Value} {a : Addr}
    (h : target σ.clients raw = some a) : a ∈ σ.owned := by
  simp only [target, Option.bind_eq_bind, Option.bind_eq_some_iff, Option.pure_def,
    Option.some.injEq] at h
  obtain ⟨clientId, _, sensorId, _, client, hclient, sensor, hsensor, rfl⟩ := h
  exact scene_mem_owned hclient hsensor

/-- A valid datagram is processed as soon as the loop over its skeletons
ends. -/
theorem ValidDatagram.run_iff {σ σ' : Viewport K} (hwf : WellFormed σ) {sensorData : Str}
    {root : Value} (h : ValidDatagram σ sensorData root) (now : Nat → Int) :
    (processSensorData now sensorData).run σ = .ok ⟨⟩ σ' ↔
      (rawSkeletons root).length < 65536 ∧
        σ' = (rawSkeletons root).zipIdx.foldl (storeJson (timeStampOf root) now) σ := by
  obtain ⟨timeStamp, htime⟩ := (Value.asDouble_isOk_iff _).mpr h.time
  have hstamp : timeStampOf root = Value.truncate timeStamp := by
    rw [timeStampOf, htime]
    rfl
  have haccepts : AcceptsRoot σ.clients root ↔ (rawSkeletons root).length < 65536 := by
    have hsize := Value.size_of_isArray h.isArray
    constructor
    · intro haccepts
      rw [rawSkeletons, ← hsize]
      exact haccepts.2.2.1.1
    · intro hlt
      rw [rawSkeletons, ← hsize] at hlt
      refine ⟨h.isObject, h.time, ⟨hlt, Or.inr h.isArray⟩, fun raw hraw => ?_⟩
      exact ⟨h.decodes raw hraw, fun _ _ hclient hsensor =>
        lands_of_target (h.registered raw hraw) hclient hsensor⟩
  have hparse := h.parses
  cases sensorData with
  | nil => cases hparse
  | cons c rest =>
    refine (run_processSensorData_root now hwf (Reader.read_of_parse hparse)).trans ?_
    simp only [haccepts, ingest, hparse, htime, hstamp]
    rfl

/-- The skeletons of the empty scene that some values are for all get an
entry exactly when their ids differ in 16 bits. -/
theorem subperm_skeletonsFor_iff {clients : ClientsList} {timeStamp : Int} {a : Addr}
    {raws : List Value} (hraws : ∀ raw ∈ raws, Skeleton.Decodes raw)
    (hfew : (sentTo clients a raws).length ≤ 3) :
    (skeletonsFor clients timeStamp a raws : List (Skeleton K)).Subperm
        (OrdMap.empty.placeAll 3 (entriesFor clients timeStamp a raws)).values ↔
      ((sentTo clients a raws).map (sentId · % 65536)).Nodup := by
  have hlen : (entriesFor clients timeStamp a raws : List (Nat × Skeleton K)).length ≤ 3 := by
    rw [entriesFor, List.length_map]
    exact (List.length_filterMap_le _ _).trans hfew
  have hiff := OrdMap.subperm_values_placeAll_iff hlen
  have hfst : (entriesFor clients timeStamp a raws : List (Nat × Skeleton K)).map Prod.fst =
      (sentTo clients a raws).map (sentId · % 65536) := by
    rw [← map_skeletonId_skeletonsFor (K := K) clients timeStamp a hraws, entriesFor,
      List.map_map]
    rfl
  have hsnd : (entriesFor clients timeStamp a raws : List (Nat × Skeleton K)).map Prod.snd =
      skeletonsFor clients timeStamp a raws := by
    rw [entriesFor, List.map_map]
    exact List.map_id _
  rwa [hfst, hsnd] at hiff

/-- A valid datagram lands exactly when it has fewer than `65536` skeletons
and the ids for each scene differ in their lower 16 bits. -/
theorem processSensorData_landed_iff [LinearOrder K] {σ : Viewport K} (h : Reachable σ)
    {sensorData : Str} {root : Value} (hvalid : ValidDatagram σ sensorData root)
    (now : Nat → Int) :
    Landed now σ sensorData root ↔
      (rawSkeletons root).length < 65536 ∧
        ∀ a, ((sentTo σ.clients a (rawSkeletons root)).map (sentId · % 65536)).Nodup := by
  have hwf := wellFormed_of_reachable h
  have hskeletons : ∀ a, (((rawSkeletons root).zipIdx.foldl
      (storeJson (timeStampOf root) now) σ).scenes.find? a).map Scene.skeletons =
        (σ.scenes.find? a).map fun s => s.skeletons.placeAll 3
          (entriesFor σ.clients (timeStampOf root) a (rawSkeletons root)) := fun a => by
    rw [skeletons_foldl_storeJson, List.zipIdx_map_fst]
  constructor
  · rintro ⟨σ', hrun, hkept, _⟩
    obtain ⟨hlt, rfl⟩ := (hvalid.run_iff hwf now).mp hrun
    refine ⟨hlt, fun a => ?_⟩
    by_cases hsent : sentTo σ.clients a (rawSkeletons root) = []
    · rw [hsent]
      exact List.nodup_nil
    · obtain ⟨s', hs', hsub⟩ := hkept a hsent
      have hplaced := hskeletons a
      rw [hs', Option.map_some, eq_comm, Option.map_eq_some_iff] at hplaced
      obtain ⟨s, hs, hplaced⟩ := hplaced
      rw [← hplaced, hvalid.empty a hsent s hs] at hsub
      exact (subperm_skeletonsFor_iff hvalid.decodes (hvalid.few a)).mp hsub
  · rintro ⟨hlt, hnodup⟩
    refine ⟨_, (hvalid.run_iff hwf now).mpr ⟨hlt, rfl⟩, fun a hsent => ?_, fun a hsent => ?_⟩
    · obtain ⟨raw, hraw⟩ := List.exists_mem_of_ne_nil _ hsent
      have htarget : target σ.clients raw = some a := by
        simpa using (List.mem_filter.mp hraw).2
      obtain ⟨s, hs⟩ := Option.isSome_iff_exists.mp (hwf.live a (mem_owned_of_target htarget))
      have hplaced := hskeletons a
      rw [hs, Option.map_some, Option.map_eq_some_iff] at hplaced
      obtain ⟨s', hs', hplaced⟩ := hplaced
      refine ⟨s', hs', ?_⟩
      rw [hplaced, hvalid.empty a hsent s hs]
      exact (subperm_skeletonsFor_iff hvalid.decodes (hvalid.few a)).mpr (hnodup a)
    · have hentries : (entriesFor σ.clients (timeStampOf root) a (rawSkeletons root) :
          List (Nat × Skeleton K)) = [] := by
        rw [entriesFor, skeletonsFor, hsent]
        rfl
      rw [hskeletons, hentries]
      rfl

omit [Field K] in
/-- Three skeletons with different ids are few enough for any scene. -/
theorem validDatagram_of_three {σ : Viewport K} {sensorData : Str} {root : Value}
    (hparses : Reader.parse sensorData = some root)
    (hroot : root.isObject ∧ (root.memberD "TIME_STAMP" (.string "0".toList)).convertsToDouble ∧
      (root.memberD "SENSOR_JSON" .null).isArray)
    (hraws : ∀ raw ∈ rawSkeletons root, Skeleton.Decodes raw ∧ (target σ.clients raw).isSome)
    (hempty : ∀ p ∈ σ.scenes.entries, p.2.skeletons.size = 0)
    (hfew : (rawSkeletons root).length ≤ 3) (hdistinct : ((rawSkeletons root).map sentId).Nodup) :
    ValidDatagram σ sensorData root where
  parses := hparses
  isObject := hroot.1
  time := hroot.2.1
  isArray := hroot.2.2
  decodes raw hraw := (hraws raw hraw).1
  registered raw hraw := (hraws raw hraw).2
  empty a _ s hs := by
    have hsize := hempty (a, s) (OrdMap.find?_eq_some_iff.mp hs)
    exact OrdMap.ext_entries (List.eq_nil_of_length_eq_zero hsize)
  few _ := (List.length_filter_le _ _).trans hfew
  distinct _ := hdistinct.sublist (List.filter_sublist.map sentId)

/-- Two skeletons of one sensor, with the given ids. -/
def pair (i j : String) : Str :=
  "\x7b\"TIME_STAMP\":1,\"SENSOR_JSON\":[\x7b\"client_id\":1,\"sensor_id\":\"a\",".toList ++
    "\"skeleton_id\":".toList ++ i.toList ++
    "\x7d,\x7b\"client_id\":1,\"sensor_id\":\"a\",\"skeleton_id\":".toList ++ j.toList ++
    "\x7d]\x7d".toList

/-- The root of these datagrams. -/
def pairRoot (i j : String) : Value := (Reader.parse (pair i j)).getD .null

omit [Field K] in
theorem parse_pair {i j : String} (h : (Reader.parse (pair i j)).isSome) :
    Reader.parse (pair i j) = some (pairRoot i j) := by
  obtain ⟨root, hroot⟩ := Option.isSome_iff_exists.mp h
  rw [pairRoot, hroot]
  rfl

/-- What the datagram has to say in the state behind `registration`. -/
theorem validDatagram_pair {i j : String}
    (h : (Reader.parse (pair i j)).isSome ∧ (pairRoot i j).isObject ∧
      ((pairRoot i j).memberD "TIME_STAMP" (.string "0".toList)).convertsToDouble ∧
      ((pairRoot i j).memberD "SENSOR_JSON" .null).isArray ∧
      (∀ raw ∈ rawSkeletons (pairRoot i j), Skeleton.Decodes raw ∧
        (target (stateAfter start registration).clients raw).isSome) ∧
      (rawSkeletons (pairRoot i j)).length ≤ 3 ∧
      ((rawSkeletons (pairRoot i j)).map sentId).Nodup) :
    ValidDatagram (stateAfter start registration) (pair i j) (pairRoot i j) := by
  obtain ⟨hparses, hobject, htime, harray, hraws, hfew, hdistinct⟩ := h
  exact validDatagram_of_three (parse_pair hparses) ⟨hobject, htime, harray⟩ hraws
    (by decide +kernel) hfew hdistinct

theorem processSensorData_landed_iff_pair :
    Landed (fun _ => 5) (stateAfter start registration) (pair "1" "2") (pairRoot "1" "2") := by
  have hvalid := validDatagram_pair (i := "1") (j := "2") (by decide +kernel)
  refine (processSensorData_landed_iff reachable_registration hvalid _).mpr ⟨by decide +kernel, ?_⟩
  intro a
  refine List.Nodup.sublist (List.filter_sublist.map _) ?_
  decide +kernel

/-- The ids `1` and `65537` are the same 16-bit number. -/
theorem not_landed_sameField :
    Reachable (stateAfter start registration) ∧
      ValidDatagram (stateAfter start registration) (pair "1" "65537") (pairRoot "1" "65537") ∧
      ¬ Landed (fun _ => 5) (stateAfter start registration) (pair "1" "65537")
        (pairRoot "1" "65537") := by
  refine ⟨reachable_registration, ?_, ?_⟩
  · exact validDatagram_pair (by decide +kernel)
  · rintro ⟨σ', hrun, hkept, _⟩
    have hone : ((after (processSensorData (fun _ => 5) (pair "1" "65537"))
        (stateAfter start registration)).scenes.find? 1).map (·.skeletons.size) = some 1 := by
      decide +kernel
    have htwo : (skeletonsFor (K := ℚ) (stateAfter start registration).clients
        (timeStampOf (pairRoot "1" "65537")) 1 (rawSkeletons (pairRoot "1" "65537"))).length =
          2 := by decide +kernel
    obtain ⟨s', hs', hsub⟩ := hkept 1 (by
      refine List.ne_nil_of_length_pos ?_
      decide +kernel)
    rw [after_of_ok hrun, hs', Option.map_some, Option.some.injEq] at hone
    have hle := hsub.length_le
    rw [htwo, OrdMap.values, List.length_map] at hle
    unfold OrdMap.size at hone
    omega

end

end MinorityViewport.Viewport
