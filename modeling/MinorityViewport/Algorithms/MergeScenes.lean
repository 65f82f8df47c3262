import MinorityViewport.Algorithms.Viewport
import MinorityViewport.Algorithms.TransformSkeleton

/-!
# Merging the scenes

`MergeScenes` walks the ordered scenes from the right end to the left.  For
each calibrated scene it publishes skeletons into the global scene, and
where a skeleton coincides with one of the scene on the left, it removes the
one on the left.

One round of the walk is `visitScene`.  It first reads everything it needs
into a `View`, and only then writes, so a round either throws without a
write or publishes all it has to.

The state of the walk is the viewport together with a history: a `Visit` for
each calibrated scene, the latest first, with its view and the calls of
`Update` on the global scene.  The source has no such variable.  It is there
to speak about the calls, and `getGlobalScene` drops it.

* `combine_isOk_iff` and `frameOf_combine` describe the accumulated
  matrices.
* `View.publications` and `View.leave` are what a round publishes and the
  heap that it leaves, as functions of the view, and `run_visitScene` is the
  proof.
-/

namespace MinorityViewport

open Exec

variable {K : Type} [Field K] [LinearOrder K]

/-! ## The reading part of a round -/

/-- One round of the loop that accumulates `Combi_R` and `Combi_T`. -/
def combineStep (scenes : Heap K) (combi : DynMat K × DynMat K) (prevScene : Addr) :
    Except Fault (DynMat K × DynMat K) := do
  let scene ← scenes.deref prevScene
  let left ← scene.getLeftFrame
  match left with
  | some _ => do
    let combiR ← cvCall (combi.1.mul? scene.getRMatrix)
    let combiT ← cvCall (combi.2.add? scene.getTMatrix)
    pure (combiR, combiT)
  | none => pure combi

/-- `Combi_R` and `Combi_T`, accumulated from a scene to the left end. -/
def combine (scenes : Heap K) (toLeftEnd : List Addr) :
    Except Fault (DynMat K × DynMat K) :=
  toLeftEnd.foldlM (combineStep scenes) (DynMat.eye 3, DynMat.zeros 3 1)

/-- What a round reads: the skeletons of the scene, the accumulated
matrices, its own matrices, and the skeletons of the scene on its left. -/
structure View (K : Type) [Zero K] where
  people : OrdMap Nat (Skeleton K)
  combiR : DynMat K
  combiT : DynMat K
  R : DynMat K
  T : DynMat K
  left : Option (Addr × OrdMap Nat (Skeleton K))

/-- The skeletons of the scene on the left. -/
def readLeft (scenes : Heap K) :
    Option Addr → Except Fault (Option (Addr × OrdMap Nat (Skeleton K)))
  | none => .ok none
  | some left => do
    let leftScene ← scenes.deref left
    pure (some (left, leftScene.skeletons))

/-- The reads of a round.  `none` stands for a scene that is not
calibrated. -/
def readView (scenes : Heap K) (orderedScene : Addr) (toLeftEnd : List Addr) :
    Except Fault (Option (View K)) := do
  let scene ← scenes.deref orderedScene
  if scene.calibrated then do
    let leftScenePtr ← scene.getLeftFrame
    let combi ← combine scenes (orderedScene :: toLeftEnd)
    let left ← readLeft scenes leftScenePtr
    pure (some {
      people := scene.skeletons
      combiR := combi.1
      combiT := combi.2
      R := scene.getRMatrix
      T := scene.getTMatrix
      left := left })
  else pure none

/-! ## The writing part of a round -/

/-- A call of `Update` on the global scene, for one entry of the snapshot. -/
structure Publication (K : Type) where
  source : Nat × Skeleton K
  key : Nat
  skeleton : Skeleton K
  deriving DecidableEq

/-- A calibrated scene that the walk has come to. -/
structure Visit (K : Type) [Zero K] where
  scene : Addr
  view : View K
  updates : List (Publication K)

abbrev MergeState (K : Type) [Zero K] := Viewport K × List (Visit K)

/-- Append to the updates of the latest visit. -/
def logUpdate (p : Publication K) : List (Visit K) → List (Visit K)
  | [] => []
  | visit :: rest => { visit with updates := visit.updates ++ [p] } :: rest

/-- `_globalScene->Update`. -/
def publish (now : Int) (p : Publication K) : EStateM Fault (MergeState K) PUnit :=
  modify fun s =>
    ({ s.1 with globalScene := s.1.globalScene.update p.key p.skeleton now },
      logUpdate p s.2)

/-- The comparison of a skeleton of the left scene with the transformed
skeleton: the threshold is `0.04`. -/
def deemedSame (refFrame matching : Skeleton K) : Bool :=
  |refFrame.posX - matching.posX| < 4 / 100 || |refFrame.posY - matching.posY| < 4 / 100 ||
    |refFrame.posZ - matching.posZ| < 4 / 100

omit [LinearOrder K] in
/-- The threshold by its name. -/
def threshold : K := 4 / 100

/-- The body of the loop for the first scene: no transformation. -/
def publishUnmoved (now : Int) (key : Nat) (body : Nat × Skeleton K) :
    EStateM Fault (MergeState K) PUnit :=
  publish now ⟨body, key, body.2.unsetShared⟩

/-- The body of the loop for a scene whose left scene is empty. -/
def publishMoved (now : Int) (key : Nat) (v : View K) (body : Nat × Skeleton K) :
    EStateM Fault (MergeState K) PUnit := do
  let skeleton ← ofExcept (moveSkeleton body.2.unsetShared v.combiR v.combiT)
  publish now ⟨body, key, skeleton⟩

/-- The body of the loop for a scene whose left scene has skeletons.  The
inner loop leaves at the first skeleton that is deemed the same, and without
one nothing happens. -/
def publishMatched (now : Int) (key : Nat) (v : View K) (leftScene : Addr)
    (leftFrameSkeletons : OrdMap Nat (Skeleton K)) (body : Nat × Skeleton K) :
    EStateM Fault (MergeState K) PUnit := do
  let matchingSkeleton ← ofExcept (moveSkeleton body.2 v.R v.T)
  match leftFrameSkeletons.entries.find? fun ref => deemedSame ref.2 matchingSkeleton with
  | none => pure ⟨⟩
  | some ref => do
    modify fun s => (s.1.write leftScene (·.remove ref.1), s.2)
    let skeleton ← ofExcept (moveSkeleton body.2.setShared v.combiR v.combiT)
    publish now ⟨body, key, skeleton⟩

/-- The three cases of a round. -/
def publishPeople (now : Int) (key : Nat) (v : View K) :
    EStateM Fault (MergeState K) PUnit :=
  match v.left with
  | none => v.people.entries.forM (publishUnmoved now key)
  | some (leftScene, leftFrameSkeletons) =>
    if leftFrameSkeletons.size = 0 then v.people.entries.forM (publishMoved now key v)
    else v.people.entries.forM (publishMatched now key v leftScene leftFrameSkeletons)

/-- One round of the walk.  It answers whether the scene is calibrated,
because only such a round draws a key. -/
def visitScene (now : Int) (key : Nat) (orderedScene : Addr) (toLeftEnd : List Addr) :
    EStateM Fault (MergeState K) Bool := do
  let s ← get
  let view ← ofExcept (readView s.1.scenes orderedScene toLeftEnd)
  match view with
  | none => pure false
  | some v => do
    modify fun s => (s.1, ⟨orderedScene, v, []⟩ :: s.2)
    publishPeople now key v
    pure true

/-- The walk.  `rand i` is the value of call `i` of `rand()`. -/
def mergeLoop (rand : Nat → Nat) (now : Int) :
    Nat → List Addr → EStateM Fault (MergeState K) PUnit
  | _, [] => pure ⟨⟩
  | drawn, orderedScene :: toLeftEnd => do
    let calibrated ← visitScene now (rand drawn % 100) orderedScene toLeftEnd
    mergeLoop rand now (if calibrated then drawn + 1 else drawn) toLeftEnd

/-- `MergeScenes`. -/
def mergeScenes (rand : Nat → Nat) (now : Int) : EStateM Fault (MergeState K) PUnit := do
  modify fun s => ({ s.1 with globalScene := s.1.globalScene.manualClear }, s.2)
  let s ← get
  mergeLoop rand now 0 s.1.orderedScenes.reverse

/-- `GetGlobalScene`.  The answer is whether the pointer is not `NULL`. -/
def Viewport.getGlobalScene (rand : Nat → Nat) (now : Int) :
    EStateM Fault (Viewport K) Bool := do
  let σ ← get
  if σ.orderedScenes.length ≠ 0 then do
    zoom (fun σ => (σ, [])) (fun s _ => s.1) (mergeScenes rand now)
    pure true
  else pure false

/-! ## The accumulated matrices -/

/-- What the accumulation asks of a scene. -/
def Combinable (scenes : Heap K) (a : Addr) : Prop :=
  ∃ scene, scenes.find? a = some scene ∧ scene.left ≠ .unset ∧
    (scene.left ≠ .null → scene.rAndT.isSome)

/-- The frame that the accumulation absorbs at a scene. -/
def absorbScene (scenes : Heap K) (acc : RAndT K) (a : Addr) : RAndT K :=
  match scenes.find? a with
  | some scene =>
    if scene.left = .null then acc
    else (scene.rAndT).elim acc acc.absorb
  | none => acc

def CombiSize (combi : DynMat K × DynMat K) : Prop :=
  combi.1.HasSize 3 3 ∧ combi.2.HasSize 3 1

omit [Field K] [LinearOrder K] in
theorem combinable_iff_of_find? {scenes : Heap K} {a : Addr} {scene : Scene K}
    (h : scenes.find? a = some scene) :
    Combinable scenes a ↔ scene.left ≠ .unset ∧ (scene.left ≠ .null → scene.rAndT.isSome) := by
  constructor
  · intro hc
    obtain ⟨s, hs, hparts⟩ := hc
    obtain rfl := Option.some.inj (h.symm.trans hs)
    exact hparts
  · exact fun hparts => ⟨scene, h, hparts⟩

omit [LinearOrder K] in
/-- The two operations of a step with the matrices of a frame. -/
theorem absorb_getMatrices {combi : DynMat K × DynMat K} (hsize : CombiSize combi)
    {scene : Scene K} {F : RAndT K} (hF : scene.rAndT = some F) :
    ∃ C D, combi.1.mul? scene.getRMatrix = some C ∧ combi.2.add? scene.getTMatrix = some D ∧
      CombiSize (C, D) ∧ frameOf C D = (frameOf combi.1 combi.2).absorb F := by
  obtain ⟨hR, hT⟩ := getMatrices_hasSize hF
  obtain ⟨C, hC, hCsize, hCmat⟩ := DynMat.mul?_of_hasSize (by decide) (by decide) hsize.1 hR
  obtain ⟨D, hD, hDsize, hDmat⟩ := DynMat.add?_of_hasSize (by decide) (by decide) hsize.2 hT
  refine ⟨C, D, hC, hD, ⟨hCsize, hDsize⟩, ?_⟩
  have hframe := frameOf_getMatrices hF
  refine Frame.ext_parts ?_ (funext fun i => ?_)
  · rw [← hframe]
    exact hCmat
  · have hcol := congrFun (congrFun hDmat i) 0
    rw [← hframe]
    exact hcol

omit [LinearOrder K] in
/-- A step absorbs the frame of its scene, or throws. -/
theorem combineStep_spec (scenes : Heap K) {combi : DynMat K × DynMat K}
    (hsize : CombiSize combi) (a : Addr) :
    (Combinable scenes a ∧ ∃ combi', combineStep scenes combi a = .ok combi' ∧
      CombiSize combi' ∧
      frameOf combi'.1 combi'.2 = absorbScene scenes (frameOf combi.1 combi.2) a) ∨
    (¬ Combinable scenes a ∧ ¬ IsOk (combineStep scenes combi a)) := by
  unfold combineStep absorbScene
  cases hfind : scenes.find? a with
  | none =>
    refine Or.inr ⟨?_, ?_⟩
    · rintro ⟨s, hs, _⟩
      rw [hfind] at hs
      cases hs
    · rw [Heap.deref, hfind]
      exact not_isOk_error _
  | some scene =>
    have hderef : scenes.deref a = .ok scene := Heap.deref_eq_ok_iff.mpr hfind
    rw [hderef, ok_bind, Scene.getLeftFrame, combinable_iff_of_find? hfind]
    cases hleft : scene.left with
    | unset => exact Or.inr ⟨fun h => h.1 rfl, not_isOk_error _⟩
    | null =>
      exact Or.inl ⟨⟨Link.noConfusion, fun h => absurd rfl h⟩, combi, rfl, hsize,
        by simp [hleft]⟩
    | scene l =>
      cases hF : scene.rAndT with
      | none =>
        refine Or.inr ⟨fun h => ?_, ?_⟩
        · cases h.2 Link.noConfusion
        · show ¬ IsOk (cvCall (combi.1.mul? scene.getRMatrix) >>= _)
          rw [(getMatrices_none hF).1,
            DynMat.mul?_empty _ (by rw [hsize.1.2]; decide)]
          exact not_isOk_error _
      | some F =>
        obtain ⟨C, D, hC, hD, hsize', hframe⟩ := absorb_getMatrices hsize hF
        refine Or.inl ⟨⟨Link.noConfusion, fun _ => rfl⟩, (C, D), ?_, hsize', ?_⟩
        · show cvCall (combi.1.mul? scene.getRMatrix) >>= _ = _
          rw [hC, hD]
          rfl
        · simp only [hleft, hF, reduceCtorEq, if_false, Option.elim_some]
          exact hframe

omit [LinearOrder K] in
theorem combine_start : CombiSize (DynMat.eye 3, DynMat.zeros (K := K) 3 1) :=
  ⟨DynMat.eye_hasSize 3, DynMat.zeros_hasSize 3 1⟩

omit [LinearOrder K] in
/-- The accumulation returns when every scene on the way allows it. -/
theorem combine_isOk_iff (scenes : Heap K) (toLeftEnd : List Addr) :
    IsOk (combine scenes toLeftEnd) ↔ ∀ a ∈ toLeftEnd, Combinable scenes a := by
  refine isOk_foldlM_iff_of_inv (I := CombiSize) ?_ ?_ combine_start
  · intro combi hsize a _
    rcases combineStep_spec scenes hsize a with ⟨h, combi', hok, _⟩ | ⟨h, hno⟩
    · exact iff_of_true ⟨combi', hok⟩ h
    · exact iff_of_false hno h
  · intro combi hsize a _ combi' hok
    rcases combineStep_spec scenes hsize a with ⟨_, c, hc, hcsize, _⟩ | ⟨_, hno⟩
    · obtain rfl := Except.ok.inj (hc.symm.trans hok)
      exact hcsize
    · exact absurd ⟨combi', hok⟩ hno

omit [LinearOrder K] in
/-- The accumulated frame. -/
theorem frameOf_combine {scenes : Heap K} {toLeftEnd : List Addr}
    {combi : DynMat K × DynMat K} (h : combine scenes toLeftEnd = .ok combi) :
    CombiSize combi ∧
      frameOf combi.1 combi.2 = toLeftEnd.foldl (absorbScene scenes) Frame.unit := by
  have hstart : frameOf (DynMat.eye 3) (DynMat.zeros (K := K) 3 1) = Frame.unit :=
    Frame.ext_parts (DynMat.toMatrix_eye 3) (funext fun i =>
      congrFun (congrFun (DynMat.toMatrix_zeros 3 1) i) 0)
  have hloop : ∀ (l : List Addr) (c : DynMat K × DynMat K), CombiSize c →
      l.foldlM (combineStep scenes) c = .ok combi → CombiSize combi ∧
        frameOf combi.1 combi.2 = l.foldl (absorbScene scenes) (frameOf c.1 c.2) := by
    intro l
    induction l with
    | nil =>
      intro c hc hrun
      obtain rfl := Except.ok.inj hrun
      exact ⟨hc, rfl⟩
    | cons a rest ih =>
      intro c hc hrun
      rw [List.foldlM_cons] at hrun
      obtain ⟨c', hstep, hrest⟩ := bind_eq_ok_iff.mp hrun
      rcases combineStep_spec scenes hc a with ⟨_, d, hd, hdsize, hframe⟩ | ⟨_, hno⟩
      · obtain rfl := Except.ok.inj (hd.symm.trans hstep)
        rw [List.foldl_cons, ← hframe]
        exact ih d hdsize hrest
      · exact absurd ⟨c', hstep⟩ hno
  have := hloop toLeftEnd _ combine_start h
  rwa [hstart] at this

end MinorityViewport
