import MinorityViewport.Algorithms.ClientListing
import MinorityViewport.Data.EncodedSkeleton
import MinorityViewport.Lib.PrintedNumbers
import MinorityViewport.Json.StrictNumbers

/-!
# The text of a scene

`Scene::ToJSON` is what `data.json` answers with, and the browser reads it as
JSON.  `Scene.document` says what the text of a scene means, and
`Scene.parse_toJSON_iff` when it means this: only the sensor ids of the scene
and of its skeletons can be printed wrongly, and coordinates that are infinite
or no number.

The documents keep the names of the source, so the type of a joint stands
under `type:`, and they keep the numbers as they are printed.
-/

namespace MinorityViewport

open Json
open StrictJson (Doc IsFraction Member Plain Renders printArray printObject)

variable {K : Type}

/-! ## Sensor ids and numbers -/

/-- An id that the escape of the emitters spells. -/
def Printable (sensorId : Str) : Prop :=
  Spaced sensorId ∧ ∀ c ∈ sensorId, c ≠ '"' ∧ 0x20 ≤ c.toNat

instance (sensorId : Str) : Decidable (Printable sensorId) :=
  have := List.decidableBAll (fun c => c ≠ '"' ∧ 0x20 ≤ c.toNat) sensorId
  inferInstanceAs (Decidable (_ ∧ _))

theorem renders_id (sensorId : Str) :
    Renders ('"' :: escapeSensorId sensorId ++ ['"']) (stringDoc sensorId) (Printable sensorId) :=
  renders_sensorId ⟨sensorId, 0⟩

theorem renders_int (i : Int) :
    Renders (toStringInt i) (.number (toStringInt i)) True := by
  rw [toStringInt]
  split_ifs
  · simpa [toStringNat] using Renders.decimal (Or.inr rfl) i.natAbs (Or.inl rfl)
  · exact Renders.natural i.natAbs

theorem renders_double [Field K] [LinearOrder K] [FloorRing K] (x : K) :
    Renders (toStringDouble x) (.number (toStringDouble x)) True := by
  have hfraction : ∀ m k : Nat, IsFraction ('.' :: (List.replicate k '0' ++ toStringNat m)) := by
    intro m k
    refine Or.inr ⟨_, rfl, ?_, fun c hc => Reader.isDigit_of_mem_padded hc⟩
    exact List.append_ne_nil_of_right_ne_nil _ Nat.toDigits_ne_nil
  rw [toStringDouble]
  split_ifs
  · exact Renders.decimal (Or.inr rfl) _ (hfraction _ _)
  · exact Renders.decimal (Or.inl rfl) _ (hfraction _ _)

/-- The coordinate is printed as a number. -/
def PrintsNumber {C : Type} [Coordinate C] (c : C) : Prop :=
  Renders (Coordinate.text c) (.number (Coordinate.text c)) True

theorem printsNumber_field [Field K] [LinearOrder K] [FloorRing K] (x : K) : PrintsNumber x :=
  renders_double x

/-! ## Documents -/

section Documents

variable {C : Type} [Coordinate C]

def Joint.document (j : Joint C) : Doc :=
  .object [memberDoc "type:" (.number (toStringNat j.type)),
    memberDoc "X" (.number (Coordinate.text j.x)),
    memberDoc "Y" (.number (Coordinate.text j.y)),
    memberDoc "Z" (.number (Coordinate.text j.z))]

def Skeleton.document (s : Skeleton C) : Doc :=
  .object [memberDoc "id" (.number (toStringNat s.skeletonId)),
    memberDoc "client_id" (.number (toStringNat s.clientId)),
    memberDoc "sensor_id" (stringDoc s.sensorId),
    memberDoc "time_stamp" (.number (toStringInt s.timeStamp)),
    memberDoc "shared" (stringDoc (if s.shared then "true".toList else "false".toList)),
    memberDoc "pos_x" (.number (Coordinate.text s.posX)),
    memberDoc "pos_y" (.number (Coordinate.text s.posY)),
    memberDoc "pos_z" (.number (Coordinate.text s.posZ)),
    memberDoc "joints" (.array (s.joints.map Joint.document))]

/-- The calibration is the number that a Boolean converts to. -/
def Scene.document (scene : Scene C) : Doc :=
  .object [memberDoc "sensorId" (stringDoc scene.sensorId),
    memberDoc "dimensionX" (.number (toStringNat scene.dimensionX)),
    memberDoc "dimensionY" (.number (toStringNat scene.dimensionY)),
    memberDoc "dimensionZ" (.number (toStringNat scene.dimensionZ)),
    memberDoc "ordering" (.number (toStringNat scene.ordering)),
    memberDoc "calibrated" (.number (toStringNat scene.calibrated.toNat)),
    memberDoc "skeletons" (.array (scene.skeletons.values.map Skeleton.document))]

/-! ## Printed members -/

/-- A member that is read in any case. -/
def sureMember (name : String) (text : Str) (doc : Doc) : Member := ⟨name.toList, text, doc, True⟩

def idMember (name : String) (sensorId : Str) : Member :=
  ⟨name.toList, '"' :: escapeSensorId sensorId ++ ['"'], stringDoc sensorId, Printable sensorId⟩

def Joint.printedMembers (j : Joint C) : List Member :=
  [sureMember "type:" (toStringNat j.type) (.number (toStringNat j.type)),
    sureMember "X" (Coordinate.text j.x) (.number (Coordinate.text j.x)),
    sureMember "Y" (Coordinate.text j.y) (.number (Coordinate.text j.y)),
    sureMember "Z" (Coordinate.text j.z) (.number (Coordinate.text j.z))]

theorem Joint.renders {j : Joint C} (h : ∀ i, PrintsNumber (j.position i)) :
    Renders j.toJSON j.document True := by
  have hobject : Renders (printObject (j.printedMembers.map fun m => (m.name, m.text)))
      (.object (j.printedMembers.map Member.meant)) (∀ m ∈ j.printedMembers, m.ok) := by
    refine Renders.object ?_
    simp only [printedMembers, sureMember, List.forall_mem_cons]
    exact ⟨⟨by decide, Renders.natural _⟩, ⟨by decide, h 0⟩, ⟨by decide, h 1⟩,
      ⟨by decide, h 2⟩, fun _ h => absurd h List.not_mem_nil⟩
  have hok : (∀ m ∈ j.printedMembers, m.ok) ↔ True := by
    simp [printedMembers, sureMember]
  rw [hok] at hobject
  rw [toJSON_eq]
  exact hobject

def Skeleton.printedMembers (s : Skeleton C) : List Member :=
  [sureMember "id" (toStringNat s.skeletonId) (.number (toStringNat s.skeletonId)),
    sureMember "client_id" (toStringNat s.clientId) (.number (toStringNat s.clientId)),
    idMember "sensor_id" s.sensorId,
    sureMember "time_stamp" (toStringInt s.timeStamp) (.number (toStringInt s.timeStamp)),
    sureMember "shared" (quoted (if s.shared then "true".toList else "false".toList))
      (stringDoc (if s.shared then "true".toList else "false".toList)),
    sureMember "pos_x" (Coordinate.text s.posX) (.number (Coordinate.text s.posX)),
    sureMember "pos_y" (Coordinate.text s.posY) (.number (Coordinate.text s.posY)),
    sureMember "pos_z" (Coordinate.text s.posZ) (.number (Coordinate.text s.posZ)),
    sureMember "joints" (printArray (s.joints.map Joint.toJSON))
      (.array (s.joints.map Joint.document))]

theorem Skeleton.renders {s : Skeleton C} (h : ∀ p ∈ s.points, ∀ i, PrintsNumber (p i)) :
    Renders s.toJSON s.document (Printable s.sensorId) := by
  obtain ⟨hposition, hpoints⟩ := List.forall_mem_cons.mp h
  have hjoints : Renders (printArray (s.joints.map Joint.toJSON))
      (.array (s.joints.map Joint.document)) True := by
    have harray := Renders.array fun j (hj : j ∈ s.joints) =>
      Joint.renders (hpoints _ (List.mem_map_of_mem hj))
    simpa using harray
  have hobject : Renders (printObject (s.printedMembers.map fun m => (m.name, m.text)))
      (.object (s.printedMembers.map Member.meant)) (∀ m ∈ s.printedMembers, m.ok) := by
    refine Renders.object ?_
    simp only [printedMembers, sureMember, idMember, List.forall_mem_cons]
    exact ⟨⟨by decide, Renders.natural _⟩, ⟨by decide, Renders.natural _⟩,
      ⟨by decide, renders_id _⟩, ⟨by decide, renders_int _⟩,
      ⟨by decide, Renders.plain (by cases s.shared <;> decide)⟩, ⟨by decide, hposition 0⟩,
      ⟨by decide, hposition 1⟩, ⟨by decide, hposition 2⟩, ⟨by decide, hjoints⟩,
      fun _ h => absurd h List.not_mem_nil⟩
  have hok : (∀ m ∈ s.printedMembers, m.ok) ↔ Printable s.sensorId := by
    simp [printedMembers, sureMember, idMember]
  rw [hok] at hobject
  rw [toJSON_eq, members, ← escapeSensorId_eq]
  exact hobject

/-! ## Scenes -/

namespace Scene

def printedMembers (scene : Scene C) : List Member :=
  [idMember "sensorId" scene.sensorId,
    sureMember "dimensionX" (toStringNat scene.dimensionX) (.number (toStringNat scene.dimensionX)),
    sureMember "dimensionY" (toStringNat scene.dimensionY) (.number (toStringNat scene.dimensionY)),
    sureMember "dimensionZ" (toStringNat scene.dimensionZ) (.number (toStringNat scene.dimensionZ)),
    sureMember "ordering" (toStringNat scene.ordering) (.number (toStringNat scene.ordering)),
    sureMember "calibrated" (toStringNat scene.calibrated.toNat)
      (.number (toStringNat scene.calibrated.toNat)),
    ⟨"skeletons".toList, printArray (scene.skeletons.values.map Skeleton.toJSON),
      .array (scene.skeletons.values.map Skeleton.document),
      ∀ s ∈ scene.skeletons.values, Printable s.sensorId⟩]

theorem toJSON_eq (scene : Scene C) :
    scene.toJSON = printObject (scene.printedMembers.map fun m => (m.name, m.text)) := by
  have hcalibrated : (if scene.calibrated then "1".toList else "0".toList) =
      toStringNat scene.calibrated.toNat := by
    cases scene.calibrated <;> decide
  unfold toJSON printedMembers sureMember idMember printObject
  rw [hcalibrated]
  simp [StrictJson.printMember, printArray]

omit [Coordinate C] in
/-- The ids that a scene prints. -/
def Printable (scene : Scene C) : Prop :=
  MinorityViewport.Printable scene.sensorId ∧
    ∀ s ∈ scene.skeletons.values, MinorityViewport.Printable s.sensorId

theorem renders {scene : Scene C}
    (h : ∀ s ∈ scene.skeletons.values, ∀ p ∈ s.points, ∀ i, PrintsNumber (p i)) :
    Renders scene.toJSON scene.document scene.Printable := by
  have hobject : Renders (printObject (scene.printedMembers.map fun m => (m.name, m.text)))
      (.object (scene.printedMembers.map Member.meant)) (∀ m ∈ scene.printedMembers, m.ok) := by
    refine Renders.object ?_
    simp only [printedMembers, sureMember, idMember, List.forall_mem_cons]
    exact ⟨⟨by decide, renders_id _⟩, ⟨by decide, Renders.natural _⟩,
      ⟨by decide, Renders.natural _⟩, ⟨by decide, Renders.natural _⟩,
      ⟨by decide, Renders.natural _⟩, ⟨by decide, Renders.natural _⟩,
      ⟨by decide, Renders.array fun s hs => Skeleton.renders (h s hs)⟩,
      fun _ h => absurd h List.not_mem_nil⟩
  have hok : (∀ m ∈ scene.printedMembers, m.ok) ↔ scene.Printable := by
    simp [printedMembers, sureMember, idMember, Printable]
  rw [hok] at hobject
  rw [toJSON_eq]
  exact hobject

/-! ## Infinite coordinates -/

/-- A document of the scene names each of its coordinates as a number. -/
theorem exists_numeral_of_numeric {scene : Scene C} (h : scene.document.Numeric)
    {s : Skeleton C} (hs : s ∈ scene.skeletons.values) {p : Fin 3 → C} (hp : p ∈ s.points)
    (i : Fin 3) : ∃ n : StrictJson.Numeral, n.print = Coordinate.text (p i) := by
  have hskeleton : s.document.Numeric := by
    have hskeletons := StrictJson.numericMembers_iff.mp h
      (memberDoc "skeletons" (.array (scene.skeletons.values.map Skeleton.document)))
      (by simp [memberDoc])
    exact StrictJson.numericElements_iff.mp hskeletons _ (List.mem_map_of_mem hs)
  have hmembers := StrictJson.numericMembers_iff.mp hskeleton
  rcases List.mem_cons.mp hp with rfl | hp
  · fin_cases i
    · exact hmembers (memberDoc "pos_x" (.number (Coordinate.text s.posX))) (by simp [memberDoc])
    · exact hmembers (memberDoc "pos_y" (.number (Coordinate.text s.posY))) (by simp [memberDoc])
    · exact hmembers (memberDoc "pos_z" (.number (Coordinate.text s.posZ))) (by simp [memberDoc])
  · obtain ⟨j, hj, rfl⟩ := List.mem_map.mp hp
    have hjoints := hmembers (memberDoc "joints" (.array (s.joints.map Joint.document)))
      (by simp [memberDoc])
    have hjoint := StrictJson.numericElements_iff.mp hjoints _ (List.mem_map_of_mem hj)
    have hcoordinates := StrictJson.numericMembers_iff.mp hjoint
    fin_cases i
    · exact hcoordinates (memberDoc "X" (.number (Coordinate.text j.x))) (by simp [memberDoc])
    · exact hcoordinates (memberDoc "Y" (.number (Coordinate.text j.y))) (by simp [memberDoc])
    · exact hcoordinates (memberDoc "Z" (.number (Coordinate.text j.z))) (by simp [memberDoc])

end Scene

end Documents

section Doubles

variable [Field K] [LinearOrder K] [FloorRing K]

/-- The coordinates of an exact scene are all finite. -/
theorem Scene.parse_exact_iff (scene : Scene K) :
    StrictJson.parse scene.toJSON = some scene.document ↔ scene.Printable :=
  (Scene.renders fun _ _ _ _ _ => printsNumber_field _).parse_iff

def Double.IsFinite (c : Double K) : Prop := ∃ x, c = .finite x

theorem Double.IsFinite.printsNumber {c : Double K} (h : c.IsFinite) : PrintsNumber c := by
  obtain ⟨x, rfl⟩ := h
  exact renders_double x

/-- What is printed as a number is finite. -/
theorem Double.isFinite_of_numeral {c : Double K} {n : StrictJson.Numeral}
    (h : n.print = Coordinate.text c) : c.IsFinite := by
  have hletter : ∀ letter : Char, ¬ Reader.isNumberChar letter → letter ∉ Coordinate.text c :=
    fun letter hletter hmem => hletter (Reader.isNumberChar_of_mem_print (h ▸ hmem))
  have hnot := hletter 'n' (by decide)
  cases c with
  | finite x => exact ⟨x, rfl⟩
  | infinite negative | nan negative =>
    cases negative <;> simp [Coordinate.text, text] at hnot

/-- No coordinate of the scene is infinite, or no number. -/
def Scene.Finite (scene : Scene (Double K)) : Prop :=
  ∀ s ∈ scene.skeletons.values, ∀ p ∈ s.points, ∀ i, (p i).IsFinite

/-- The text of a scene is JSON for the scene exactly if its ids can be
printed and its coordinates are finite. -/
theorem Scene.parse_toJSON_iff (scene : Scene (Double K)) :
    StrictJson.parse scene.toJSON = some scene.document ↔ scene.Printable ∧ scene.Finite := by
  by_cases hfinite : scene.Finite
  · rw [and_iff_left hfinite]
    exact (renders fun s hs p hp i => (hfinite s hs p hp i).printsNumber).parse_iff
  · refine iff_of_false (fun hparse => hfinite fun s hs p hp i => ?_) fun h => hfinite h.2
    obtain ⟨n, hn⟩ := exists_numeral_of_numeric (StrictJson.numeric_of_parse hparse) hs hp i
    exact Double.isFinite_of_numeral hn

end Doubles

end MinorityViewport
