import MinorityViewport.Algorithms.ClientListing
import MinorityViewport.Algorithms.SensorLookup

/-!
# The text of a sensor id

Three emitters print a sensor id, and each runs the same loop over it before.
`escapes_escapeSensorId` says that the loop ends for every id, and
`parse_quotedId_iff` for which ids the text between the quotes is a JSON
string that spells the id.
-/

namespace MinorityViewport

open Json
open StrictJson (Renders)

/-! ## The loop -/

/-- A run of the loop of the emitters, from the position where the search
goes on to its end. -/
inductive Escapes : Str → Nat → Str → Prop
  | done {sensorId : Str} {pos : Nat} :
    findFrom sensorId '\\' pos = none → Escapes sensorId pos sensorId
  | round {sensorId escaped : Str} {pos i : Nat} :
    findFrom sensorId '\\' pos = some i →
    Escapes (sensorId.take i ++ '\\' :: '\\' :: sensorId.drop (i + 1)) (i + 4) escaped →
    Escapes sensorId pos escaped

theorem findFrom_bounds {s : Str} {c : Char} {pos i : Nat} (h : findFrom s c pos = some i) :
    pos ≤ i ∧ i < s.length := by
  obtain ⟨j, hj, rfl⟩ := Option.map_eq_some_iff.mp h
  have hlt := (List.findIdx?_eq_some_iff_findIdx_eq.mp hj).1
  rw [List.length_drop] at hlt
  exact ⟨Nat.le_add_left pos j, by omega⟩

/-- A round takes three characters from what the search has before it. -/
theorem escapes_escapeLoop {fuel : Nat} {sensorId : Str} {pos : Nat}
    (h : sensorId.length < pos + fuel) : Escapes sensorId pos (escapeLoop fuel sensorId pos) := by
  induction fuel generalizing sensorId pos with
  | zero =>
    refine .done ?_
    rw [findFrom, List.drop_eq_nil_of_le (by omega)]
    rfl
  | succ fuel ih =>
    unfold escapeLoop
    cases hfind : findFrom sensorId '\\' pos with
    | none => exact .done hfind
    | some i =>
      have hi := findFrom_bounds hfind
      refine .round hfind (ih ?_)
      simp only [List.length_append, List.length_cons, List.length_take, List.length_drop]
      omega

theorem escapes_escapeSensorId (sensorId : Str) :
    Escapes sensorId 0 (escapeSensorId sensorId) :=
  escapes_escapeLoop (by omega)

/-! ## The quoted text -/

/-- The id as it is printed. -/
def quotedId (sensorId : Str) : Str := "\"".toList ++ escapeSensorId sensorId ++ "\"".toList

/-- The text starts with `before` and the quoted id. -/
def Prints (before sensorId text : Str) : Prop :=
  ∃ behind, text = before ++ quotedId sensorId ++ ",".toList ++ behind

variable {K : Type}

section

variable [Field K] [LinearOrder K] [FloorRing K]

theorem prints_sceneToJSON (scene : Scene K) :
    Prints ("\x7b".toList ++ "\"sensorId\":".toList) scene.sensorId scene.toJSON := by
  unfold Prints Scene.toJSON quotedId
  simp only [List.append_assoc]
  exact ⟨_, rfl⟩

theorem prints_skeletonToJSON (skeleton : Skeleton K) :
    Prints ("\x7b".toList ++ "\"id\":".toList ++ toStringNat skeleton.skeletonId ++
        ",".toList ++ "\"client_id\":".toList ++ toStringNat skeleton.clientId ++ ",".toList ++
        "\"sensor_id\":".toList)
      skeleton.sensorId skeleton.toJSON := by
  unfold Prints Skeleton.toJSON quotedId
  simp only [List.append_assoc]
  exact ⟨_, rfl⟩

end

theorem prints_sensorToJSON {scenes : Heap K} {sensor : Sensor} {text : Str}
    (h : Client.sensorToJSON scenes sensor = .ok text) :
    Prints ("\x7b".toList ++ "\"id\":".toList) sensor.id text := by
  obtain ⟨scene, _, h⟩ := Exec.bind_eq_ok_iff.mp h
  rw [← Except.ok.inj h]
  unfold Prints quotedId
  simp only [List.append_assoc]
  exact ⟨_, rfl⟩

/-- What a JSON string can spell after the loop: spaced backslashes, and
nothing else that would have to be escaped. -/
def ReadsBack (sensorId : Str) : Prop :=
  Spaced sensorId ∧ ∀ c ∈ sensorId, c ≠ '"' ∧ 0x20 ≤ c.toNat

theorem parse_quotedId_iff (sensorId : Str) :
    StrictJson.parse (quotedId sensorId) = some (stringDoc sensorId) ↔ ReadsBack sensorId :=
  (renders_sensorId ⟨sensorId, 0⟩).parse_iff

/-- The three emitters print the same text for an id. -/
structure PrintedAlike (K : Type) [Field K] [LinearOrder K] [FloorRing K] (sensorId : Str) :
    Prop where
  scene : ∀ scene : Scene K, scene.sensorId = sensorId →
    Prints ("\x7b".toList ++ "\"sensorId\":".toList) sensorId scene.toJSON
  skeleton : ∀ skeleton : Skeleton K, skeleton.sensorId = sensorId →
    Prints ("\x7b".toList ++ "\"id\":".toList ++ toStringNat skeleton.skeletonId ++
        ",".toList ++ "\"client_id\":".toList ++ toStringNat skeleton.clientId ++ ",".toList ++
        "\"sensor_id\":".toList) sensorId skeleton.toJSON
  sensor : ∀ (scenes : Heap K) (sensor : Sensor) (text : Str), sensor.id = sensorId →
    Client.sensorToJSON scenes sensor = .ok text →
      Prints ("\x7b".toList ++ "\"id\":".toList) sensorId text

/-- The loop ends for every id, and what is printed is a JSON string for the
id exactly if it reads back. -/
theorem sensorId_readsBack_iff (K : Type) [Field K] [LinearOrder K] [FloorRing K]
    (sensorId : Str) :
    PrintedAlike K sensorId ∧ Escapes sensorId 0 (escapeSensorId sensorId) ∧
      (StrictJson.parse (quotedId sensorId) = some (stringDoc sensorId) ↔
        ReadsBack sensorId) := by
  refine ⟨⟨?_, ?_, ?_⟩, escapes_escapeSensorId sensorId, parse_quotedId_iff sensorId⟩
  · intro scene hid
    rw [← hid]
    exact prints_sceneToJSON scene
  · intro skeleton hid
    rw [← hid]
    exact prints_skeletonToJSON skeleton
  · intro scenes sensor text hid htext
    rw [← hid]
    exact prints_sensorToJSON htext

/-- A registration that stores an id with one character between its two
backslashes. -/
def closeBackslashes : Str := "\x7b\"Sensors\":[\x7b\"id\":\"a\\\\b\\\\c\"\x7d]\x7d".toList

theorem not_readsBack_closeBackslashes :
    Client.listedIds closeBackslashes = ["a\\b\\c".toList] ∧
      quotedId "a\\b\\c".toList = "\"a\\\\b\\c\"".toList ∧
        StrictJson.parse (quotedId "a\\b\\c".toList) ≠ some (stringDoc "a\\b\\c".toList) := by
  refine ⟨by decide +kernel, by decide +kernel, fun h => ?_⟩
  have hspaced := ((parse_quotedId_iff _).mp h).1
  exact absurd hspaced (by decide)

end MinorityViewport
