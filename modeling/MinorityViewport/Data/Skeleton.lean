import MinorityViewport.Json.Elements
import MinorityViewport.Lib.DynMat
import Mathlib.LinearAlgebra.Matrix.Notation

/-!
# Skeletons and their joints

`Data/Joint.cpp` and `Data/Skeleton.cpp`.  Coordinates are elements of an
ordered field `K` with exact arithmetic, where the source has `double`.  What
is said of printed skeletons is also said of those with a `Double K`, which
may be infinite.

* `ofJson` is the constructor that decodes a JSON value.  `Decodes` says
  which values it accepts, field by field, and `ofJson_isOk_iff` is the
  proof.
* `getCompletePointsVectorMatrix` and `convertVectorMatrixtoSkeletonPoints`
  carry the points of a skeleton, one point a row, into a matrix and back.
  `points` is the list of these rows and `withPoints` replaces it.
-/

namespace MinorityViewport

open Exec Json

/-! ## Joints -/

/-- `Joint::Mode`. -/
inductive Joint.Mode where
  | tracked
  | notTracked
  | inferred
  deriving DecidableEq, Repr

/-- The mode is `none` where the source leaves the variable unassigned. -/
structure Joint (K : Type) where
  type : Nat
  x : K
  y : K
  z : K
  trackingMode : Option Joint.Mode
  deriving DecidableEq

namespace Joint

variable {K : Type}

/-- The point of a joint. -/
def position (j : Joint K) : Fin 3 → K := ![j.x, j.y, j.z]

/-- Move a joint. -/
def moveTo (j : Joint K) (p : Fin 3 → K) : Joint K :=
  { j with x := p 0, y := p 1, z := p 2 }

@[simp]
theorem position_moveTo (j : Joint K) (p : Fin 3 → K) : (j.moveTo p).position = p := by
  funext i
  fin_cases i <;> rfl

section Json

variable [Field K]

/-- The mode that a text names. -/
def modeOfText (text : Str) : Option Mode :=
  if text = "Tracked".toList then some .tracked
  else if text = "NotTracked".toList then some .notTracked
  else if text = "Inferred".toList then some .inferred
  else none

/-- The mode of a joint, from the member `trackedMode`. -/
def modeOfJson (trackingModeJoint : Value) : Except Fault (Option Mode) :=
  if trackingModeJoint.notNull then modeOfText <$> trackingModeJoint.asString
  else pure (some .notTracked)

/-- One coordinate of a joint. -/
def coordinateOfJson (raw : Value) (key : String) : Except Fault ℚ := do
  let coordinate ← raw.get key .zero
  coordinate.asDouble

/-- One round of the joint loop in the constructor of a skeleton. -/
def ofJson (index : Nat) (raw : Value) : Except Fault (Joint K) := do
  let trackingModeJoint ← raw.get "trackedMode" .zero
  let mode ← modeOfJson trackingModeJoint
  let x ← coordinateOfJson raw "X"
  let y ← coordinateOfJson raw "Y"
  let z ← coordinateOfJson raw "Z"
  pure ⟨index, x, y, z, mode⟩

/-- The values that decode to a joint. -/
def Decodes (raw : Value) : Prop :=
  raw.isObject ∧
    ((raw.memberD "trackedMode" .zero).notNull →
      (raw.memberD "trackedMode" .zero).convertsToString) ∧
    (raw.memberD "X" .zero).convertsToDouble ∧
    (raw.memberD "Y" .zero).convertsToDouble ∧
    (raw.memberD "Z" .zero).convertsToDouble

instance (raw : Value) : Decidable (Decodes raw) := inferInstanceAs (Decidable (_ ∧ _))

omit [Field K] in
theorem modeOfJson_isOk_iff (v : Value) :
    IsOk (modeOfJson v) ↔ (v.notNull → v.convertsToString) := by
  unfold modeOfJson
  split_ifs with hnull
  · rw [isOk_map_iff, Value.asString_isOk_iff]
    exact (imp_iff_right hnull).symm
  · exact iff_of_true (isOk_pure _) fun h => absurd h hnull

omit [Field K] in
theorem coordinateOfJson_isOk_iff (raw : Value) (key : String) :
    IsOk (coordinateOfJson raw key) ↔
      raw.isObject ∧ (raw.memberD key .zero).convertsToDouble := by
  rw [coordinateOfJson, Value.isOk_get_bind_iff, Value.asDouble_isOk_iff]

theorem ofJson_isOk_iff (index : Nat) (raw : Value) :
    IsOk (ofJson index raw : Except Fault (Joint K)) ↔ Decodes raw := by
  rw [ofJson, Value.isOk_get_bind_iff]
  refine and_congr_right fun hobj =>
    (isOk_bind_iff_and fun mode =>
    (isOk_bind_iff_and fun x =>
    (isOk_bind_iff_and fun y =>
    (isOk_bind_iff_and fun z => iff_of_true (isOk_pure _) trivial)))).trans ?_
  simp only [modeOfJson_isOk_iff, coordinateOfJson_isOk_iff, hobj, true_and, and_true]

end Json

def toJSON [Coordinate K] (j : Joint K) : Str :=
  "\x7b".toList ++ "\"type:\":".toList ++ toStringNat j.type ++ ",".toList ++
    "\"X\":".toList ++ Coordinate.text j.x ++ ",".toList ++
    "\"Y\":".toList ++ Coordinate.text j.y ++ ",".toList ++
    "\"Z\":".toList ++ Coordinate.text j.z ++ "\x7d".toList

end Joint

/-! ## Skeletons -/

/-- `Skeleton::Tracked`, the type of the field `TrackingMode`. -/
inductive Skeleton.Tracked where
  | positionOnly
  | tracked
  deriving DecidableEq, Repr

structure Skeleton (K : Type) where
  clientId : Nat
  skeletonId : Nat
  sensorId : Str
  timeStamp : Int
  shared : Bool
  posX : K
  posY : K
  posZ : K
  trackingMode : Skeleton.Tracked
  joints : List (Joint K)
  deriving DecidableEq

namespace Skeleton

variable {K : Type}

def setShared (s : Skeleton K) : Skeleton K := { s with shared := true }

def unsetShared (s : Skeleton K) : Skeleton K := { s with shared := false }

/-! ## Decoding -/

section Json

variable [Field K]

/-- The tracking mode, from the member `trackingMode`. -/
def trackingOfJson (trackingMode : Value) : Except Fault Tracked :=
  if trackingMode.notNull then
    (fun text => if text = "Tracked".toList then .tracked else .positionOnly)
      <$> trackingMode.asString
  else pure .positionOnly

/-- `Skeleton::Skeleton(Json::Value, long)`. -/
def ofJson (raw : Value) (timeStamp : Int) : Except Fault (Skeleton K) := do
  let jointsJson ← raw.get "joints" .zero
  let clientId ← raw.get "client_id" .zero
  let posX ← raw.get "pos_x" .zero
  let posY ← raw.get "pos_y" .zero
  let posZ ← raw.get "pos_z" .zero
  let sensorId ← raw.get "sensor_id" .zero
  let skeletonId ← raw.get "skeleton_id" .zero
  let trackingMode ← raw.get "trackingMode" .zero
  let joints ← appending (forElements jointsJson (fun index element joints => do
    let newJoint ← Joint.ofJson index element
    pure (joints ++ [newJoint])) [])
  let mode ← trackingOfJson trackingMode
  let clientId ← clientId.asUInt
  let posX ← posX.asDouble
  let posY ← posY.asDouble
  let posZ ← posZ.asDouble
  let skeletonId ← skeletonId.asUInt
  let sensorId ← sensorId.asString
  pure {
    clientId := clientId
    -- the field is an `unsigned short`
    skeletonId := skeletonId % 65536
    sensorId := sensorId
    timeStamp := timeStamp
    shared := false
    posX := posX
    posY := posY
    posZ := posZ
    trackingMode := mode
    joints := joints }

/-- The values that decode to a skeleton. -/
def Decodes (raw : Value) : Prop :=
  raw.isObject ∧
    (raw.memberD "joints" .zero).Loops ∧
    (∀ element ∈ (raw.memberD "joints" .zero).elements, Joint.Decodes element) ∧
    ((raw.memberD "trackingMode" .zero).notNull →
      (raw.memberD "trackingMode" .zero).convertsToString) ∧
    (raw.memberD "client_id" .zero).convertsToUInt ∧
    (raw.memberD "pos_x" .zero).convertsToDouble ∧
    (raw.memberD "pos_y" .zero).convertsToDouble ∧
    (raw.memberD "pos_z" .zero).convertsToDouble ∧
    (raw.memberD "skeleton_id" .zero).convertsToUInt ∧
    (raw.memberD "sensor_id" .zero).convertsToString

instance (raw : Value) : Decidable (Decodes raw) := inferInstanceAs (Decidable (_ ∧ _))

omit [Field K] in
theorem trackingOfJson_isOk_iff (v : Value) :
    IsOk (trackingOfJson v) ↔ (v.notNull → v.convertsToString) := by
  unfold trackingOfJson
  split_ifs with hnull
  · rw [isOk_map_iff, Value.asString_isOk_iff]
    exact (imp_iff_right hnull).symm
  · exact iff_of_true (isOk_pure _) fun h => absurd h hnull

/-- The joint loop returns when every element decodes. -/
theorem forElements_joints_isOk_iff (v : Value) :
    IsOk (forElements v (fun index element joints => do
        let newJoint ← Joint.ofJson index element
        pure (joints ++ [newJoint])) ([] : List (Joint K))) ↔
      v.Loops ∧ ∀ element ∈ v.elements, Joint.Decodes element := by
  rw [forElements_isOk_iff, isOk_foldlM_iff (C := fun p => Joint.Decodes p.1)]
  · exact and_congr_right fun _ => Value.forall_mem_zipIdx_elements
  · intro joints p _
    rw [isOk_bind_iff_and fun _ => iff_of_true (isOk_pure _) trivial, and_true]
    exact Joint.ofJson_isOk_iff p.2 p.1

theorem ofJson_isOk_iff (raw : Value) (timeStamp : Int) :
    IsOk (ofJson raw timeStamp : Except Fault (Skeleton K)) ↔ Decodes raw := by
  by_cases hobj : raw.isObject
  · simp only [ofJson, Decodes, Value.isOk_get_bind_iff, hobj, true_and]
    refine (isOk_bind_iff_and fun joints =>
      (isOk_bind_iff_and fun mode =>
      (isOk_bind_iff_and fun clientId =>
      (isOk_bind_iff_and fun posX =>
      (isOk_bind_iff_and fun posY =>
      (isOk_bind_iff_and fun posZ =>
      (isOk_bind_iff_and fun skeletonId =>
      (isOk_bind_iff_and fun sensorId => iff_of_true (isOk_pure _) trivial)))))))).trans ?_
    simp only [isOk_appending_iff, forElements_joints_isOk_iff, trackingOfJson_isOk_iff,
      Value.asUInt_isOk_iff, Value.asDouble_isOk_iff, Value.asString_isOk_iff, and_true, and_assoc]
  · refine iff_of_false ?_ fun h => hobj h.1
    rw [ofJson, Value.isOk_get_bind_iff]
    exact fun h => hobj h.1

/-- The ids of a skeleton are the members of the value.  The skeleton id is
cut to 16 bits. -/
theorem ids_of_ofJson {raw : Value} {timeStamp : Int} {s : Skeleton K}
    (h : ofJson raw timeStamp = .ok s) :
    (raw.memberD "client_id" .zero).asUInt = .ok s.clientId ∧
      (raw.memberD "sensor_id" .zero).asString = .ok s.sensorId ∧
      ∃ skeletonId, (raw.memberD "skeleton_id" .zero).asUInt = .ok skeletonId ∧
        s.skeletonId = skeletonId % 65536 := by
  have hobj : raw.isObject := ((ofJson_isOk_iff raw timeStamp).mp ⟨s, h⟩).1
  simp only [ofJson, Value.get_of_isObject hobj, ok_bind] at h
  obtain ⟨joints, _, h⟩ := bind_eq_ok_iff.mp h
  obtain ⟨mode, _, h⟩ := bind_eq_ok_iff.mp h
  obtain ⟨clientId, hclient, h⟩ := bind_eq_ok_iff.mp h
  obtain ⟨posX, _, h⟩ := bind_eq_ok_iff.mp h
  obtain ⟨posY, _, h⟩ := bind_eq_ok_iff.mp h
  obtain ⟨posZ, _, h⟩ := bind_eq_ok_iff.mp h
  obtain ⟨skeletonId, hskeleton, h⟩ := bind_eq_ok_iff.mp h
  obtain ⟨sensorId, hsensor, hs⟩ := bind_eq_ok_iff.mp h
  obtain rfl := Except.ok.inj hs
  exact ⟨hclient, hsensor, skeletonId, hskeleton, rfl⟩

end Json

/-- No joint has a coordinate that is zero. -/
def checkFullSetOfJoints [Zero K] [DecidableEq K] (s : Skeleton K) : Bool :=
  s.joints.all fun j => !(j.x = 0 || j.y = 0 || j.z = 0)

/-! ## The points of a skeleton -/

/-- The point of the skeleton itself. -/
def position (s : Skeleton K) : Fin 3 → K := ![s.posX, s.posY, s.posZ]

/-- The position and the joints, in this order. -/
def points (s : Skeleton K) : List (Fin 3 → K) :=
  s.position :: s.joints.map Joint.position

theorem points_ne_nil (s : Skeleton K) : s.points ≠ [] := List.cons_ne_nil _ _

/-- Move every point of a skeleton and keep the rest. -/
def mapPoints (f : (Fin 3 → K) → (Fin 3 → K)) (s : Skeleton K) : Skeleton K :=
  { s with
    posX := f s.position 0
    posY := f s.position 1
    posZ := f s.position 2
    joints := s.joints.map fun j => j.moveTo (f j.position) }

@[simp]
theorem position_mapPoints (f : (Fin 3 → K) → (Fin 3 → K)) (s : Skeleton K) :
    (s.mapPoints f).position = f s.position := by
  funext i
  fin_cases i <;> rfl

@[simp]
theorem points_mapPoints (f : (Fin 3 → K) → (Fin 3 → K)) (s : Skeleton K) :
    (s.mapPoints f).points = s.points.map f := by
  rw [points, position_mapPoints, points, List.map_cons, mapPoints, List.map_map,
    List.map_map]
  refine congrArg _ (List.map_congr_left fun j _ => ?_)
  exact Joint.position_moveTo j _

section Matrix

variable [Zero K]

/-- `Skeleton::GetCompletePointsVectorMatrix`: a row for the position, and
then a row for each joint. -/
def getCompletePointsVectorMatrix (s : Skeleton K) : Except Fault (DynMat K) :=
  s.joints.foldlM
    (fun vectorMatrix joint =>
      cvCall (vectorMatrix.pushBack? (DynMat.ofRows 3 [joint.position])))
    (DynMat.ofRows 3 [s.position])

/-- One round of the loop below.  Row `0` is the position and row `r + 1`
is joint `r`. -/
def setPoint (s : Skeleton K) (row : Nat) (p : Fin 3 → K) :
    Except Fault (Skeleton K) :=
  match row with
  | 0 => pure { s with posX := p 0, posY := p 1, posZ := p 2 }
  | r + 1 =>
    match s.joints[r]? with
    | some joint => pure { s with joints := s.joints.set r (joint.moveTo p) }
    | none => throw .outOfRange

/-- `Skeleton::ConvertVectorMatrixtoSkeletonPoints`. -/
def convertVectorMatrixtoSkeletonPoints (s : Skeleton K) (vectorMatrix : DynMat K) :
    Except Fault (Skeleton K) :=
  (List.range vectorMatrix.rows).foldlM
    (fun s row => s.setPoint row (vectorMatrix.row 3 row)) s

/-- The rows of the matrix are the points. -/
theorem getCompletePointsVectorMatrix_eq (s : Skeleton K) :
    s.getCompletePointsVectorMatrix = .ok (DynMat.ofRows 3 s.points) := by
  have hloop : ∀ (joints : List (Joint K)) (rows : List (Fin 3 → K)), rows ≠ [] →
      joints.foldlM (fun vectorMatrix joint =>
          cvCall (vectorMatrix.pushBack? (DynMat.ofRows 3 [joint.position])))
        (DynMat.ofRows 3 rows) =
      .ok (DynMat.ofRows 3 (rows ++ joints.map Joint.position)) := by
    intro joints
    induction joints with
    | nil =>
      intro rows _
      rw [List.map_nil, List.append_nil]
      rfl
    | cons joint rest ih =>
      intro rows hrows
      rw [List.foldlM_cons, DynMat.pushBack?_ofRows hrows]
      have hnext := ih (rows ++ [joint.position]) (by simp)
      rw [List.append_assoc, List.singleton_append] at hnext
      exact hnext
  exact hloop s.joints [s.position] (by simp)

/-- The joints that the first rounds of the loop have moved. -/
theorem setPoint_prefix (f : (Fin 3 → K) → (Fin 3 → K)) (s : Skeleton K) (n : Nat)
    (hn : n ≤ s.joints.length) :
    (List.range (n + 1)).foldlM
        (fun s' row => s'.setPoint row ((DynMat.ofRows 3 (s.points.map f)).row 3 row)) s =
      .ok { s.mapPoints f with
        joints := (s.mapPoints f).joints.take n ++ s.joints.drop n } := by
  induction n with
  | zero =>
    rw [zero_add, List.range_one, List.foldlM_cons, DynMat.ofRows_row 3 _ (by simp [points])]
    rfl
  | succ n ih =>
    have hlt : n < s.joints.length := hn
    rw [List.range_succ, List.foldlM_append, ih (Nat.le_of_lt hlt), ok_bind]
    have hrow : (DynMat.ofRows 3 (s.points.map f)).row 3 (n + 1) =
        f (s.joints[n]).position := by
      rw [DynMat.ofRows_row 3 _ (by simpa [points] using hlt)]
      simp [points]
    have hlen : ((s.mapPoints f).joints.take n).length = n := by
      simpa [mapPoints] using Nat.le_of_lt hlt
    have hget : ((s.mapPoints f).joints.take n ++ s.joints.drop n)[n]? =
        some s.joints[n] := by
      rw [List.getElem?_append_right (by omega), hlen, Nat.sub_self,
        List.getElem?_drop, Nat.add_zero, List.getElem?_eq_getElem hlt]
    have hset : ((s.mapPoints f).joints.take n ++ s.joints.drop n).set n
          ((s.joints[n]).moveTo (f (s.joints[n]).position)) =
        (s.mapPoints f).joints.take (n + 1) ++ s.joints.drop (n + 1) := by
      rw [List.set_append_right _ _ (by omega), hlen, Nat.sub_self,
        List.drop_eq_getElem_cons hlt, List.set_cons_zero,
        List.take_succ_eq_append_getElem (by simpa [mapPoints] using hlt),
        List.append_assoc, List.singleton_append]
      simp [mapPoints]
    rw [List.foldlM_cons, hrow, setPoint, hget]
    simp only [hset]
    rfl

/-- Storing the rows of moved points moves the points. -/
theorem convertVectorMatrixtoSkeletonPoints_eq (f : (Fin 3 → K) → (Fin 3 → K))
    (s : Skeleton K) :
    s.convertVectorMatrixtoSkeletonPoints (DynMat.ofRows 3 (s.points.map f)) =
      .ok (s.mapPoints f) := by
  have hrows : (DynMat.ofRows 3 (s.points.map f)).rows = s.joints.length + 1 := by
    simp [points]
  rw [convertVectorMatrixtoSkeletonPoints, hrows, setPoint_prefix f s _ le_rfl,
    List.drop_length, List.append_nil]
  have hall : (s.mapPoints f).joints.take s.joints.length = (s.mapPoints f).joints :=
    List.take_of_length_le (by simp [mapPoints])
  rw [hall]

end Matrix

/-! ## Encoding -/

/-- `Skeleton::ToJSON`. -/
def toJSON [Coordinate K] (s : Skeleton K) : Str :=
  "\x7b".toList ++ "\"id\":".toList ++ toStringNat s.skeletonId ++ ",".toList ++
    "\"client_id\":".toList ++ toStringNat s.clientId ++ ",".toList ++
    "\"sensor_id\":".toList ++ "\"".toList ++ escapeSensorId s.sensorId ++
      "\"".toList ++ ",".toList ++
    "\"time_stamp\":".toList ++ toStringInt s.timeStamp ++ ",".toList ++
    "\"shared\":".toList ++
      (if s.shared then "\"true\"".toList else "\"false\"".toList) ++ ",".toList ++
    "\"pos_x\":".toList ++ Coordinate.text s.posX ++ ",".toList ++
    "\"pos_y\":".toList ++ Coordinate.text s.posY ++ ",".toList ++
    "\"pos_z\":".toList ++ Coordinate.text s.posZ ++ ",".toList ++
    "\"joints\":".toList ++ "[".toList ++
      List.intercalate ",".toList (s.joints.map Joint.toJSON) ++ "]".toList ++
    "\x7d".toList

end Skeleton

/-- A skeleton without joints. -/
def standingAt {K : Type} (p : Fin 3 → K) : Skeleton K where
  clientId := 0
  skeletonId := 0
  sensorId := []
  timeStamp := 0
  shared := false
  posX := p 0
  posY := p 1
  posZ := p 2
  trackingMode := .positionOnly
  joints := []

theorem points_standingAt {K : Type} (p : Fin 3 → K) : (standingAt p).points = [p] := by
  have hpos : (standingAt p).position = p := by
    funext i
    fin_cases i <;> rfl
  rw [Skeleton.points, hpos]
  rfl

end MinorityViewport
