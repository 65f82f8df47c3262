import MinorityViewport.Data.Skeleton
import MinorityViewport.Lib.BoundedMap
import MinorityViewport.Lib.Frame

/-!
# Scenes

`Data/Scene.cpp`.  A scene keeps at most three skeletons under the keys that
its caller chooses, its place in the order of the sensors, and the
calibration against the scene on its left.

* `Link` is a pointer to a neighbour.  The constructor of the source leaves
  both pointers unassigned, and `getLeftFrame` faults on such a pointer.
* `rAndT` is the pair of matrices that `SetRAndT` assigns.  It assigns both
  at once, a `3 × 3` and a `3 × 1` matrix, so the pair is one optional
  field, and `getRMatrix` and `getTMatrix` show the empty matrix before the
  first assignment.
* `update`, `remove` and `manualClear` are the operations on the skeletons.
  The refresh thread `Scene::Clear` empties the scene from time to time.
  One of its rounds is `manualClear`.

The locks, the refresh rate and the pointer `calibrationSkeleton`, which
nothing reads, are left out.
-/

namespace MinorityViewport

/-- The address of a scene. -/
abbrev Addr := Nat

/-- A pointer to a scene, as a member that a constructor may skip. -/
inductive Link where
  | unset
  | null
  | scene (addr : Addr)
  deriving DecidableEq, Repr

namespace Link

/-- Read the pointer. -/
def read : Link → Except Fault (Option Addr)
  | unset => .error .unassignedPointer
  | null => .ok none
  | scene addr => .ok (some addr)

/-- The pointer with a given value. -/
def ofOption : Option Addr → Link
  | none => null
  | some addr => scene addr

theorem read_eq_ok_iff {l : Link} {o : Option Addr} : l.read = .ok o ↔ l = ofOption o := by
  cases l <;> cases o <;> simp [read, ofOption]

end Link

/-- A rotation and a translation into the scene on the left. -/
abbrev RAndT (K : Type) := Frame (Fin 3) K

structure Scene (K : Type) where
  sensorId : Str
  skeletons : OrdMap Nat (Skeleton K)
  dimensionX : Nat
  dimensionY : Nat
  dimensionZ : Nat
  ordering : Nat
  calibrated : Bool
  left : Link
  right : Link
  rAndT : Option (RAndT K)
  firstSkeletonObservedTime : Int

namespace Scene

variable {K : Type}

/-- `Scene::Scene(string, Timer*)`, the scene of a sensor. -/
def ofSensor (sensorId : Str) : Scene K where
  sensorId := sensorId
  skeletons := .empty
  dimensionX := 0
  dimensionY := 0
  dimensionZ := 0
  ordering := 0
  calibrated := false
  left := .unset
  right := .unset
  rAndT := none
  firstSkeletonObservedTime := 0

/-- `Scene::Scene(unsigned, unsigned, unsigned, Timer*)`. -/
def ofDimensions (x y z : Nat) : Scene K :=
  { ofSensor [] with dimensionX := x, dimensionY := y, dimensionZ := z }

/-! ## The skeletons -/

/-- `Scene::Update` at the timer reading `now`. -/
def update (scene : Scene K) (serverSkeletonId : Nat) (newPerson : Skeleton K)
    (now : Int) : Scene K :=
  let scene :=
    if scene.firstSkeletonObservedTime = 0 ∧ scene.skeletons.size = 0 then
      { scene with firstSkeletonObservedTime := now }
    else scene
  let rest := scene.skeletons.erase serverSkeletonId
  { scene with
    skeletons :=
      if rest.size < 3 then rest.insert serverSkeletonId newPerson else rest }

/-- `Scene::Remove`. -/
def remove (scene : Scene K) (serverSkeletonId : Nat) : Scene K :=
  { scene with skeletons := scene.skeletons.erase serverSkeletonId }

/-- `Scene::ManualClear`, and one round of `Scene::Clear`. -/
def manualClear (scene : Scene K) : Scene K := { scene with skeletons := .empty }

/-- The two scenes differ at most in what `Update`, `Remove` and
`ManualClear` write. -/
def SameFrame (s s' : Scene K) : Prop :=
  s'.sensorId = s.sensorId ∧ s'.ordering = s.ordering ∧
    s'.calibrated = s.calibrated ∧ s'.left = s.left ∧ s'.right = s.right ∧
    s'.rAndT = s.rAndT

theorem SameFrame.refl (s : Scene K) : SameFrame s s := ⟨rfl, rfl, rfl, rfl, rfl, rfl⟩

theorem SameFrame.trans {s₁ s₂ s₃ : Scene K} (h : SameFrame s₁ s₂)
    (h' : SameFrame s₂ s₃) : SameFrame s₁ s₃ :=
  ⟨h'.1.trans h.1, h'.2.1.trans h.2.1, h'.2.2.1.trans h.2.2.1,
    h'.2.2.2.1.trans h.2.2.2.1, h'.2.2.2.2.1.trans h.2.2.2.2.1,
    h'.2.2.2.2.2.trans h.2.2.2.2.2⟩

theorem SameFrame.symm {s s' : Scene K} (h : SameFrame s s') : SameFrame s' s :=
  ⟨h.1.symm, h.2.1.symm, h.2.2.1.symm, h.2.2.2.1.symm, h.2.2.2.2.1.symm, h.2.2.2.2.2.symm⟩

instance : IsPreorder (Scene K) SameFrame where
  refl := SameFrame.refl
  trans _ _ _ := SameFrame.trans

theorem sameFrame_update (s : Scene K) (key : Nat) (p : Skeleton K) (now : Int) :
    SameFrame s (s.update key p now) := by
  unfold update
  split_ifs <;> exact .refl s

theorem sameFrame_remove (s : Scene K) (key : Nat) : SameFrame s (s.remove key) := .refl s

theorem sameFrame_manualClear (s : Scene K) : SameFrame s s.manualClear := .refl s

/-- The skeletons are a map of capacity three. -/
theorem skeletons_update (s : Scene K) (key : Nat) (p : Skeleton K) (now : Int) :
    (s.update key p now).skeletons = s.skeletons.place 3 key p := by
  have hinsert : (s.skeletons.erase key).insert key p =
      (s.skeletons.erase key).assign key p := by
    rw [OrdMap.insert, OrdMap.find?_erase, if_pos rfl]
  rw [OrdMap.place, ← hinsert, update]
  split_ifs <;> simp_all

/-! ## The order and the calibration -/

def setOrdering (scene : Scene K) (order : Nat) : Scene K :=
  { scene with ordering := order }

def setCalibration (scene : Scene K) (calibrated : Bool) : Scene K :=
  { scene with calibrated := calibrated }

def setRAndT (scene : Scene K) (rAndT : RAndT K) : Scene K :=
  { scene with rAndT := some rAndT }

/-- The two scenes differ at most in what `SetRAndT` and `SetCalibration`
write. -/
def SameExceptCalibration (s s' : Scene K) : Prop :=
  s' = { s with calibrated := s'.calibrated, rAndT := s'.rAndT }

instance : IsPreorder (Scene K) SameExceptCalibration where
  refl _ := rfl
  trans _ _ _ h h' := by
    rw [SameExceptCalibration, h', h]

theorem sameExceptCalibration_setRAndT (rAndT : RAndT K) (s : Scene K) :
    SameExceptCalibration s (s.setRAndT rAndT) := rfl

theorem sameExceptCalibration_setCalibration (calibrated : Bool) (s : Scene K) :
    SameExceptCalibration s (s.setCalibration calibrated) := rfl

def setLeftRightScene (scene : Scene K) (left right : Option Addr) : Scene K :=
  { scene with left := .ofOption left, right := .ofOption right }

/-- The two scenes differ at most in what `SetOrdering` and
`SetLeftRightScene` write. -/
def SameExceptOrder (s s' : Scene K) : Prop :=
  s' = { s with ordering := s'.ordering, left := s'.left, right := s'.right }

instance : IsPreorder (Scene K) SameExceptOrder where
  refl _ := rfl
  trans _ _ _ h h' := by
    rw [SameExceptOrder, h', h]

theorem sameExceptOrder_setOrdering (order : Nat) (s : Scene K) :
    SameExceptOrder s (s.setOrdering order) := rfl

theorem sameExceptOrder_setLeftRightScene (left right : Option Addr) (s : Scene K) :
    SameExceptOrder s (s.setLeftRightScene left right) := rfl

/-- `Scene::GetLeftFrame`. -/
def getLeftFrame (scene : Scene K) : Except Fault (Option Addr) := scene.left.read

section Matrix

variable [Zero K]

/-- `Scene::GetRMatrix`. -/
def getRMatrix (scene : Scene K) : DynMat K :=
  match scene.rAndT with
  | some rAndT => .ofMatrix rAndT.R
  | none => .empty

/-- `Scene::GetTMatrix`. -/
def getTMatrix (scene : Scene K) : DynMat K :=
  match scene.rAndT with
  | some rAndT => .ofMatrix (Matrix.of fun i (_ : Fin 1) => rAndT.T i)
  | none => .empty

end Matrix

/-! ## Encoding -/

/-- `Scene::ToJSON`. -/
def toJSON [Coordinate K] (scene : Scene K) : Str :=
  "\x7b".toList ++
    "\"sensorId\":".toList ++ "\"".toList ++ escapeSensorId scene.sensorId ++
      "\"".toList ++ ",".toList ++
    "\"dimensionX\":".toList ++ toStringNat scene.dimensionX ++ ",".toList ++
    "\"dimensionY\":".toList ++ toStringNat scene.dimensionY ++ ",".toList ++
    "\"dimensionZ\":".toList ++ toStringNat scene.dimensionZ ++ ",".toList ++
    "\"ordering\":".toList ++ toStringNat scene.ordering ++ ",".toList ++
    "\"calibrated\":".toList ++ (if scene.calibrated then "1".toList else "0".toList) ++
      ",".toList ++
    "\"skeletons\":".toList ++ "[".toList ++
      List.intercalate ",".toList (scene.skeletons.values.map Skeleton.toJSON) ++
      "]".toList ++
    "\x7d".toList

end Scene

end MinorityViewport
