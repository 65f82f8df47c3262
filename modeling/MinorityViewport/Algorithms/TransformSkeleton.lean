import MinorityViewport.Data.Scene

/-!
# Moving a skeleton into another frame

`TransformSkeletonMatrix` works on the matrix of the points of a skeleton,
one point a row.  `transformSkeletonMatrix_ofRows` says that it applies the
frame to each row, and `moveSkeleton_eq` is the sequence of three calls that
the merge makes to move a skeleton.  `moveSkeleton_pointwise` says what this
is for matrices of the right sizes, and that two such moves are one.
-/

namespace MinorityViewport

open Exec

variable {K : Type} [Field K]

/-- `MinorityViewportAlgo::TransformSkeletonMatrix`. -/
def transformSkeletonMatrix (bodyFramesSkeleton R T : DynMat K) :
    Except Fault (DynMat K) := do
  let Bt := bodyFramesSkeleton.transpose
  let Tt := T.transpose
  let TResized ← cvCall (Tt.pushBackTimes? Tt (Bt.cols - 1))
  let TResized := TResized.transpose
  let RmulBt ← cvCall (R.mul? Bt)
  let transformedMatrix ← cvCall (RmulBt.add? TResized)
  pure transformedMatrix.transpose

/-- The points of a skeleton are transformed and stored back. -/
def moveSkeleton (skeleton : Skeleton K) (R T : DynMat K) :
    Except Fault (Skeleton K) := do
  let points ← skeleton.getCompletePointsVectorMatrix
  let transformedSkeletonMatrix ← transformSkeletonMatrix points R T
  skeleton.convertVectorMatrixtoSkeletonPoints transformedSkeletonMatrix

/-- The frame that a `3 × 3` and a `3 × 1` matrix make. -/
def frameOf (R T : DynMat K) : RAndT K := ⟨R.toMatrix 3 3, fun i => T.entry i 0⟩

theorem frameOf_getMatrices {scene : Scene K} {rAndT : RAndT K}
    (h : scene.rAndT = some rAndT) :
    frameOf scene.getRMatrix scene.getTMatrix = rAndT := by
  rw [Scene.getRMatrix, Scene.getTMatrix, h]
  refine Frame.ext_parts (DynMat.toMatrix_ofMatrix rAndT.R) (funext fun i => ?_)
  exact congrFun (congrFun (DynMat.toMatrix_ofMatrix
    (Matrix.of fun i (_ : Fin 1) => rAndT.T i)) i) 0

theorem getMatrices_none {scene : Scene K} (h : scene.rAndT = none) :
    scene.getRMatrix = .empty ∧ scene.getTMatrix = .empty := by
  rw [Scene.getRMatrix, Scene.getTMatrix, h]
  exact ⟨rfl, rfl⟩

theorem getMatrices_hasSize {scene : Scene K} {F : RAndT K} (h : scene.rAndT = some F) :
    scene.getRMatrix.HasSize 3 3 ∧ scene.getTMatrix.HasSize 3 1 := by
  rw [Scene.getRMatrix, Scene.getTMatrix, h]
  exact ⟨⟨rfl, rfl⟩, ⟨rfl, rfl⟩⟩

theorem transformSkeletonMatrix_ofRows {R T : DynMat K} (hR : R.HasSize 3 3)
    (hT : T.HasSize 3 1) {ps : List (Fin 3 → K)} (hps : ps ≠ []) :
    transformSkeletonMatrix (DynMat.ofRows 3 ps) R T =
      .ok (DynMat.ofRows 3 (ps.map (frameOf R T).apply)) := by
  have hlen : ps.length ≠ 0 := fun h => hps (List.eq_nil_of_length_eq_zero h)
  have hTt : T.transpose = DynMat.ofRows 3 [fun i => T.entry i 0] :=
    DynMat.eq_ofRows_singleton hT.transpose
  have hrep : T.transpose.pushBackTimes? T.transpose (ps.length - 1) =
      some (DynMat.ofRows 3 (List.replicate ps.length fun i => T.entry i 0)) := by
    rw [hTt, DynMat.pushBackTimes?_ofRows, Nat.sub_add_cancel (by omega)]
  have hBt : (DynMat.ofRows 3 ps).transpose.HasSize 3 ps.length := ⟨rfl, rfl⟩
  have hTR : (DynMat.ofRows 3 (List.replicate ps.length
      fun i => T.entry i 0)).transpose.HasSize 3 ps.length :=
    ⟨rfl, List.length_replicate⟩
  obtain ⟨C, hC, hCsize, hCmat⟩ := DynMat.mul?_of_hasSize (by decide) (by decide) hR hBt
  obtain ⟨D, hD, hDsize, hDmat⟩ := DynMat.add?_of_hasSize (by decide) hlen hCsize hTR
  have hcols : (DynMat.ofRows 3 ps).transpose.cols = ps.length := rfl
  unfold transformSkeletonMatrix
  simp only [hcols, hrep, cvCall, ok_bind, hC, hD]
  refine congrArg Except.ok (DynMat.eq_ofRows ?_ hDsize.1 fun i hi => ?_)
  · rw [List.length_map]
    exact hDsize.2
  · have hi' : i < ps.length := by simpa using hi
    funext j
    have hentry := congrFun (congrFun hDmat j) ⟨i, hi'⟩
    rw [Matrix.add_apply, hCmat, Matrix.mul_apply] at hentry
    have hpoint := DynMat.ofRows_row 3 ps hi'
    have hshift := DynMat.ofRows_row 3
      (List.replicate ps.length fun i => T.entry i 0) (i := i) (by simpa using hi')
    rw [List.getElem_map, Frame.apply, Pi.add_apply, ← hpoint]
    rw [List.getElem_replicate] at hshift
    refine hentry.trans (congrArg₂ _ rfl ?_)
    exact congrFun hshift j

theorem moveSkeleton_eq {R T : DynMat K} (hR : R.HasSize 3 3) (hT : T.HasSize 3 1)
    (skeleton : Skeleton K) :
    moveSkeleton skeleton R T = .ok (skeleton.mapPoints (frameOf R T).apply) := by
  rw [moveSkeleton, Skeleton.getCompletePointsVectorMatrix_eq, ok_bind,
    transformSkeletonMatrix_ofRows hR hT skeleton.points_ne_nil, ok_bind,
    Skeleton.convertVectorMatrixtoSkeletonPoints_eq]

/-! ## The rigid map of two matrices -/

theorem frameOf_ofMatrix (R : Matrix (Fin 3) (Fin 3) K) (T : Matrix (Fin 3) (Fin 1) K) :
    frameOf (DynMat.ofMatrix R) (DynMat.ofMatrix T) = ⟨R, fun i => T i 0⟩ := by
  refine Frame.ext_parts (DynMat.toMatrix_ofMatrix R) (funext fun i => ?_)
  exact congrFun (congrFun (DynMat.toMatrix_ofMatrix T) i) 0

/-- The frame of two matrices applied after that of two others. -/
theorem frameOf_comp (R R' : Matrix (Fin 3) (Fin 3) K) (T T' : Matrix (Fin 3) (Fin 1) K) :
    (frameOf (DynMat.ofMatrix R') (DynMat.ofMatrix T')).comp
        (frameOf (DynMat.ofMatrix R) (DynMat.ofMatrix T)) =
      frameOf (DynMat.ofMatrix (R' * R)) (DynMat.ofMatrix (R' * T + T')) := by
  rw [frameOf_ofMatrix, frameOf_ofMatrix, frameOf_ofMatrix]
  rfl

omit [Field K] in
theorem Skeleton.mapPoints_mapPoints (f g : (Fin 3 → K) → (Fin 3 → K)) (s : Skeleton K) :
    (s.mapPoints f).mapPoints g = s.mapPoints (g ∘ f) := by
  have hjoints : (s.joints.map fun j => j.moveTo (f j.position)).map
      (fun j => j.moveTo (g j.position)) = s.joints.map fun j => j.moveTo (g (f j.position)) := by
    rw [List.map_map]
    refine List.map_congr_left fun j _ => ?_
    show (j.moveTo _).moveTo (g (j.moveTo _).position) = _
    rw [Joint.position_moveTo]
    rfl
  show ({ s.mapPoints f with
    posX := g (s.mapPoints f).position 0
    posY := g (s.mapPoints f).position 1
    posZ := g (s.mapPoints f).position 2
    joints := (s.joints.map fun j => j.moveTo (f j.position)).map
      fun j => j.moveTo (g j.position) } : Skeleton K) = _
  rw [Skeleton.position_mapPoints, hjoints]
  rfl

/-- The position and every joint of `s` have become `R p + T`, each in its
place, and nothing else is different. -/
structure RigidlyMoved (R : Matrix (Fin 3) (Fin 3) K) (T : Matrix (Fin 3) (Fin 1) K)
    (s s' : Skeleton K) : Prop where
  position : s'.position = R.mulVec s.position + fun i => T i 0
  length : s'.joints.length = s.joints.length
  joints : ∀ (i : Nat) (j j' : Joint K), s.joints[i]? = some j → s'.joints[i]? = some j' →
    j'.position = (R.mulVec j.position + fun i => T i 0) ∧
      j'.type = j.type ∧ j'.trackingMode = j.trackingMode
  ids : s'.clientId = s.clientId ∧ s'.skeletonId = s.skeletonId ∧ s'.sensorId = s.sensorId
  rest : s'.timeStamp = s.timeStamp ∧ s'.shared = s.shared ∧ s'.trackingMode = s.trackingMode

theorem rigidlyMoved_mapPoints (R : Matrix (Fin 3) (Fin 3) K) (T : Matrix (Fin 3) (Fin 1) K)
    (s : Skeleton K) :
    RigidlyMoved R T s
      (s.mapPoints (frameOf (DynMat.ofMatrix R) (DynMat.ofMatrix T)).apply) where
  position := by
    rw [Skeleton.position_mapPoints, frameOf_ofMatrix]
    rfl
  length := List.length_map _
  joints i j j' hj hj' := by
    have hmap : (s.joints.map fun j => j.moveTo
        ((frameOf (DynMat.ofMatrix R) (DynMat.ofMatrix T)).apply j.position))[i]? = some j' := hj'
    rw [List.getElem?_map, hj] at hmap
    obtain rfl := Option.some.inj hmap
    rw [Joint.position_moveTo, frameOf_ofMatrix]
    exact ⟨rfl, rfl, rfl⟩
  ids := ⟨rfl, rfl, rfl⟩
  rest := ⟨rfl, rfl, rfl⟩

/-- To move a skeleton always succeeds, applies the rigid map to its points
and to nothing else, and two moves are one by the composed map. -/
theorem moveSkeleton_pointwise (skeleton : Skeleton K) (R : Matrix (Fin 3) (Fin 3) K)
    (T : Matrix (Fin 3) (Fin 1) K) :
    ∃ moved, moveSkeleton skeleton (DynMat.ofMatrix R) (DynMat.ofMatrix T) = .ok moved ∧
      RigidlyMoved R T skeleton moved ∧
        ∀ (R' : Matrix (Fin 3) (Fin 3) K) (T' : Matrix (Fin 3) (Fin 1) K),
          moveSkeleton moved (DynMat.ofMatrix R') (DynMat.ofMatrix T') =
            moveSkeleton skeleton (DynMat.ofMatrix (R' * R))
              (DynMat.ofMatrix (R' * T + T')) := by
  have hmove : ∀ (s : Skeleton K) (R : Matrix (Fin 3) (Fin 3) K) (T : Matrix (Fin 3) (Fin 1) K),
      moveSkeleton s (DynMat.ofMatrix R) (DynMat.ofMatrix T) =
        .ok (s.mapPoints (frameOf (DynMat.ofMatrix R) (DynMat.ofMatrix T)).apply) :=
    fun s R T => moveSkeleton_eq (DynMat.ofMatrix_hasSize R) (DynMat.ofMatrix_hasSize T) s
  refine ⟨_, hmove skeleton R T, rigidlyMoved_mapPoints R T skeleton, fun R' T' => ?_⟩
  have hcomp : (frameOf (DynMat.ofMatrix R') (DynMat.ofMatrix T')).apply ∘
      (frameOf (DynMat.ofMatrix R) (DynMat.ofMatrix T)).apply =
        (frameOf (DynMat.ofMatrix (R' * R)) (DynMat.ofMatrix (R' * T + T'))).apply := by
    rw [← frameOf_comp]
    exact funext fun p => (Frame.apply_comp _ _ p).symm
  rw [hmove, hmove, Skeleton.mapPoints_mapPoints, hcomp]

end MinorityViewport
