import MinorityViewport.Algorithms.CallReturns
import MinorityViewport.Algorithms.NeighbourCalibration

/-!
# Calls that fail half-way

Two calls change the state before they know that they fail.

* `CalibrateScenes` assigns the matrices of the body scene and looks up the
  reference scene after that.  `HalfAssigned` are the calls that throw in
  between, and `calibrateScenes_failure_iff` says that they are the failed
  calls that change something.
* `CalibrateSceneOrder` clears the order before it looks whether every scene
  has observed a skeleton.  `calibrateSceneOrder_refusal_iff` says what is
  left to lose.
-/

namespace MinorityViewport

open Exec Json Viewport

variable {K : Type}

/-! ## A failed calibration -/

/-- What a calibration is there to set. -/
def Heap.calibration (scenes : Heap K) (a : Addr) : Option (Option (RAndT K) × Bool) :=
  (scenes.find? a).map fun scene => (scene.rAndT, scene.calibrated)

theorem calibration_modifyAt_setRAndT (scenes : Heap K) (body : Addr) (F : RAndT K) :
    (∀ a, (scenes.modifyAt body (·.setRAndT F)).calibration a = scenes.calibration a) ↔
      ∀ scene, scenes.find? body = some scene → scene.rAndT = some F := by
  constructor
  · intro h scene hscene
    have hbody := h body
    rw [Heap.calibration, Heap.calibration, Heap.find?_modifyAt, if_pos rfl, hscene] at hbody
    exact (Prod.mk.inj (Option.some.inj hbody)).1.symm
  · intro h a
    rw [Heap.calibration, Heap.calibration, Heap.find?_modifyAt]
    split_ifs with ha
    · subst ha
      cases hscene : scenes.find? a with
      | none => rfl
      | some scene =>
        rw [Option.map_some, Option.map_some, Option.map_some, h scene hscene]
        rfl
    · rfl

section Calibration

variable [Field K] [DecidableEq K]

namespace Viewport

/-- A call that does not return true leaves the matrices and the flags of
all scenes. -/
def FailureChangesNothing (svd : SvdCompute K) (σ : Viewport K) (sceneAOrder : Nat)
    (skeletonsA : Str) (sceneBOrder : Nat) (skeletonsB : Str) : Prop :=
  let call := calibrateScenes svd sceneAOrder skeletonsA sceneBOrder skeletonsB
  value? call σ ≠ some true → ∀ a, (after call σ).scenes.calibration a = σ.scenes.calibration a

/-- The skeletons have a fit, one order is in range, and the other one is
zero. -/
def HalfAssigned (σ : Viewport K) (sceneAOrder : Nat) (skeletonsA : Str) (sceneBOrder : Nat)
    (skeletonsB : Str) : Prop :=
  min sceneAOrder sceneBOrder = 0 ∧
    (1 ≤ max sceneAOrder sceneBOrder ∧
      max sceneAOrder sceneBOrder ≤ σ.orderedScenes.length) ∧
    Fits K skeletonsA skeletonsB

/-- The scene that is written already has these matrices. -/
def HoldsFit (svd : SvdCompute K) (σ : Viewport K) (sceneAOrder : Nat) (skeletonsA : Str)
    (sceneBOrder : Nat) (skeletonsB : Str) : Prop :=
  ∀ c, σ.assignment svd sceneAOrder skeletonsA sceneBOrder skeletonsB = some c →
    ∀ scene, σ.scenes.find? c.body = some scene → scene.rAndT = some c.rAndT

theorem assignment_eq_some_iff {σ : Viewport K} {svd : SvdCompute K}
    {sceneAOrder sceneBOrder : Nat} {skeletonsA skeletonsB : Str} {c : Assignment K} :
    σ.assignment svd sceneAOrder skeletonsA sceneBOrder skeletonsB = some c ↔
      ∃ m, assemble sceneAOrder skeletonsA sceneBOrder skeletonsB = .ok (some m) ∧
        rigidFit svd m.A m.B = .ok c.rAndT ∧
          σ.sceneAt (max sceneAOrder sceneBOrder) = .ok c.body ∧
            c.ref = (σ.sceneAt (min sceneAOrder sceneBOrder)).toOption := by
  obtain ⟨body, ref, F⟩ := c
  constructor
  · intro h
    unfold assignment at h
    split_ifs at h
    split at h
    next m hm =>
      obtain ⟨href, hbody⟩ := orders_of_assemble hm
      rw [href, hbody] at h
      split at h
      next hF hat =>
        obtain ⟨rfl, rfl, rfl⟩ := Assignment.mk.inj (Option.some.inj h)
        exact ⟨m, hm, hF, hat, rfl⟩
      next => cases h
    next => cases h
  · intro ⟨m, hm, hF, hat, href⟩
    obtain ⟨hrefOrder, hbodyOrder⟩ := orders_of_assemble hm
    unfold assignment
    rw [if_pos (List.length_pos_of_mem (mem_of_sceneAt hat)), hm]
    simp only [hrefOrder, hbodyOrder, hF, hat]
    rw [← href]

theorem exists_assignment_iff {σ : Viewport K} (svd : SvdCompute K)
    {sceneAOrder sceneBOrder : Nat} {skeletonsA skeletonsB : Str} :
    (∃ c, σ.assignment svd sceneAOrder skeletonsA sceneBOrder skeletonsB = some c) ↔
      (1 ≤ max sceneAOrder sceneBOrder ∧
        max sceneAOrder sceneBOrder ≤ σ.orderedScenes.length) ∧
      Fits K skeletonsA skeletonsB := by
  rw [← sceneAt_isOk_iff, fits_iff svd sceneAOrder skeletonsA sceneBOrder skeletonsB]
  constructor
  · intro ⟨c, h⟩
    obtain ⟨m, hm, hF, hat, _⟩ := assignment_eq_some_iff.mp h
    exact ⟨⟨c.body, hat⟩, m, hm, c.rAndT, hF⟩
  · intro ⟨⟨body, hat⟩, m, hm, F, hF⟩
    exact ⟨⟨body, _, F⟩, assignment_eq_some_iff.mpr ⟨m, hm, hF, hat, rfl⟩⟩

/-- The reference scene is missing when its order is zero. -/
theorem ref_eq_none_iff {σ : Viewport K} {svd : SvdCompute K} {sceneAOrder sceneBOrder : Nat}
    {skeletonsA skeletonsB : Str} {c : Assignment K}
    (h : σ.assignment svd sceneAOrder skeletonsA sceneBOrder skeletonsB = some c) :
    c.ref = none ↔ σ.HalfAssigned sceneAOrder skeletonsA sceneBOrder skeletonsB := by
  obtain ⟨m, _, _, hat, href⟩ := assignment_eq_some_iff.mp h
  have hbody := (sceneAt_isOk_iff σ _).mp ⟨c.body, hat⟩
  rw [HalfAssigned, ← exists_assignment_iff svd, and_iff_left ⟨c, h⟩, href]
  have hmin := (sceneAt_isOk_iff σ (min sceneAOrder sceneBOrder)).not
  have hnone : (σ.sceneAt (min sceneAOrder sceneBOrder)).toOption = none ↔
      ¬ IsOk (σ.sceneAt (min sceneAOrder sceneBOrder)) := by
    cases σ.sceneAt (min sceneAOrder sceneBOrder) with
    | error e => exact iff_of_true rfl (not_isOk_error e)
    | ok a => exact iff_of_false (fun h => by cases h) fun h => h (isOk_ok a)
  rw [hnone, hmin]
  omega

/-- A call returns true when it finds the reference scene too. -/
theorem value?_eq_true_iff {σ : Viewport K}
    (hlive : ∀ a ∈ σ.orderedScenes, (σ.scenes.find? a).isSome) {svd : SvdCompute K}
    {sceneAOrder sceneBOrder : Nat} {skeletonsA skeletonsB : Str} {c : Assignment K}
    (h : σ.assignment svd sceneAOrder skeletonsA sceneBOrder skeletonsB = some c) :
    value? (calibrateScenes svd sceneAOrder skeletonsA sceneBOrder skeletonsB) σ = some true ↔
      c.ref ≠ none := by
  obtain ⟨m, hm, hF, hat, href⟩ := assignment_eq_some_iff.mp h
  obtain ⟨hrefOrder, hbodyOrder⟩ := orders_of_assemble hm
  constructor
  · intro hvalue hnone
    rcases calibrateScenes_cases (run_eq_ok_of_value? hvalue) with ⟨hfalse, _⟩ | ⟨_, hrun⟩
    · cases hfalse
    · obtain ⟨m', F, body, ref, hm', _, _, hat', _⟩ := hrun
      obtain rfl : m = m' := Option.some.inj (Except.ok.inj (hm.symm.trans hm'))
      rw [hrefOrder] at hat'
      rw [href, hat'] at hnone
      cases hnone
  · intro hsome
    cases hat' : σ.sceneAt (min sceneAOrder sceneBOrder) with
    | error e =>
      rw [href, hat'] at hsome
      exact absurd rfl hsome
    | ok ref =>
      rw [value?, run_calibrateScenes hm hF (hbodyOrder ▸ hat) (hrefOrder ▸ hat')
        (hlive _ (mem_of_sceneAt hat)) (hlive _ (mem_of_sceneAt hat'))]

end Viewport

/-- A failed call changes something exactly when it throws between the two
lookups and the body scene had other matrices. -/
theorem calibrateScenes_failure_iff (svd : SvdCompute K) {σ : Viewport K}
    (hlive : ∀ a ∈ σ.orderedScenes, (σ.scenes.find? a).isSome) (sceneAOrder : Nat)
    (skeletonsA : Str) (sceneBOrder : Nat) (skeletonsB : Str) :
    FailureChangesNothing svd σ sceneAOrder skeletonsA sceneBOrder skeletonsB ↔
      (σ.HalfAssigned sceneAOrder skeletonsA sceneBOrder skeletonsB →
        HoldsFit svd σ sceneAOrder skeletonsA sceneBOrder skeletonsB) := by
  unfold FailureChangesNothing
  simp only [after_calibrateScenes hlive]
  cases hc : σ.assignment svd sceneAOrder skeletonsA sceneBOrder skeletonsB with
  | none =>
    refine iff_of_true (fun _ _ => rfl) fun hhalf => ?_
    obtain ⟨c, hsome⟩ := (exists_assignment_iff svd).mpr hhalf.2
    rw [hc] at hsome
    cases hsome
  | some c =>
    rw [ne_eq, value?_eq_true_iff hlive hc, not_not, Option.elim_some]
    rw [← ref_eq_none_iff hc]
    refine forall_congr' fun hnone => ?_
    have hassign : σ.assign c = σ.write c.body (·.setRAndT c.rAndT) := by
      rw [assign, hnone]
      rfl
    rw [hassign, HoldsFit, hc]
    simp only [Option.some.injEq, forall_eq']
    exact calibration_modifyAt_setRAndT σ.scenes c.body c.rAndT

end Calibration

/-- One skeleton at the origin. -/
def oneSkeleton : Str := "\x7b\"skeletons\":[\x7b\"sensor_id\":\"s\"\x7d]\x7d".toList

/-- The second order is behind the list. -/
theorem calibrateScenes_failure_iff_behind :
    FailureChangesNothing (fun _ => ⟨0, 1, 1⟩) (stateAfter start (calibrationsOf []))
      1 oneSkeleton 7 oneSkeleton :=
  (calibrateScenes_failure_iff _ (by decide +kernel) 1 oneSkeleton 7 oneSkeleton).mpr
    fun h => absurd h.1 (by decide)

/-- A scene that is in no order has the number zero. -/
theorem not_failureChangesNothing_zero :
    Reachable (stateAfter start (calibrationsOf [])) ∧
      ¬ FailureChangesNothing (fun _ => ⟨0, 1, 1⟩) (stateAfter start (calibrationsOf []))
        0 oneSkeleton 1 oneSkeleton := by
  refine ⟨ordered_calibrationsOf_nil.1, fun h => ?_⟩
  obtain ⟨hfailed, hbefore, hafter⟩ :
      value? (calibrateScenes (fun _ => ⟨0, 1, 1⟩) 0 oneSkeleton 1 oneSkeleton)
          (stateAfter start (calibrationsOf [])) ≠ some true ∧
        ((stateAfter start (calibrationsOf [])).scenes.calibration 1).map
          (fun p => p.1.isSome) = some false ∧
        ((after (calibrateScenes (fun _ => ⟨0, 1, 1⟩) 0 oneSkeleton 1 oneSkeleton)
          (stateAfter start (calibrationsOf []))).scenes.calibration 1).map
          (fun p => p.1.isSome) = some true := by
    decide +kernel
  rw [h hfailed 1, hbefore] at hafter
  cases hafter

/-! ## A refused order -/

/-- What an order is there to set. -/
def Heap.place (scenes : Heap K) (a : Addr) : Option (Nat × Link × Link) :=
  (scenes.find? a).map fun scene => (scene.ordering, scene.left, scene.right)

section Refusal

variable [Field K] [LinearOrder K]

/-- A call of `CalibrateSceneOrder` that returns false leaves the order, the
numbers and the links, and with them the global view. -/
def RefusalKeepsOrder (σ : Viewport K) : Prop :=
  value? calibrateSceneOrder σ = some false →
    (after calibrateSceneOrder σ).orderedScenes = σ.orderedScenes ∧
      (∀ a, (after calibrateSceneOrder σ).scenes.place a = σ.scenes.place a) ∧
      ∀ rand now, value? (getGlobalScene rand now) σ = some true →
        value? (getGlobalScene rand now) (after calibrateSceneOrder σ) = some true

theorem value?_getGlobalScene_of_nil {σ : Viewport K} (h : σ.orderedScenes = [])
    (rand : Nat → Nat) (now : Int) : value? (getGlobalScene rand now) σ = some false := by
  have hrun : (getGlobalScene rand now).run σ = .ok false σ := by
    rw [getGlobalScene, run_get_bind_eq_ok_iff, if_neg (by simp [h])]
    exact run_pure_eq_ok_iff.mpr ⟨rfl, rfl⟩
  rw [value?, hrun]

/-- A refused call throws the order away, so nothing is lost exactly when
there was none. -/
theorem calibrateSceneOrder_refusal_iff {σ : Viewport K}
    (hlive : ∀ a ∈ σ.owned, (σ.scenes.find? a).isSome) :
    RefusalKeepsOrder σ ↔
      ((∃ a ∈ σ.owned, ¬ 0 < σ.scenes.firstObserved a) → σ.orderedScenes = []) := by
  have hall : (∃ a ∈ σ.owned, ¬ 0 < σ.scenes.firstObserved a) ↔
      ¬ ∀ a ∈ σ.owned, 0 < σ.scenes.firstObserved a := by
    simp only [not_forall, exists_prop]
  have hrun := run_calibrateSceneOrder hlive
  rw [RefusalKeepsOrder, hall, value?]
  split_ifs at hrun with hobserved
  · rw [hrun]
    exact iff_of_true (fun h => by cases h) fun h => absurd hobserved h
  · rw [hrun, after_of_ok hrun]
    constructor
    · intro h _
      exact (h rfl).1.symm
    · intro h _
      have hnil := h hobserved
      refine ⟨hnil.symm, fun a => rfl, fun rand now hview => ?_⟩
      rw [value?_getGlobalScene_of_nil hnil] at hview
      cases hview

end Refusal

/-- A sensor that has not been seen yet, before the first order. -/
theorem calibrateSceneOrder_refusal_iff_first :
    value? calibrateSceneOrder (stateAfter start (joinsUnseen.take 2)) = some false ∧
      RefusalKeepsOrder (stateAfter start (joinsUnseen.take 2)) :=
  ⟨by decide +kernel,
    (calibrateSceneOrder_refusal_iff (by decide +kernel)).mpr fun _ => by decide +kernel⟩

/-- A sensor that joins after the order. -/
theorem not_refusalKeepsOrder_joins :
    Reachable (stateAfter start joinsUnseen.dropLast) ∧
      ¬ RefusalKeepsOrder (stateAfter start joinsUnseen.dropLast) := by
  have hruns : AllReturn start joinsUnseen.dropLast := by decide +kernel
  refine ⟨Reachable.start.stateAfter hruns, fun h => ?_⟩
  obtain ⟨hrefused, hbefore, hafter⟩ :
      value? calibrateSceneOrder (stateAfter start joinsUnseen.dropLast) = some false ∧
        (stateAfter start joinsUnseen.dropLast).orderedScenes = [1] ∧
        (after calibrateSceneOrder
          (stateAfter start joinsUnseen.dropLast)).orderedScenes = [] := by
    decide +kernel
  rw [(h hrefused).1, hbefore] at hafter
  cases hafter

end MinorityViewport
