import MinorityViewport.Lib.EraseLoop
import Mathlib.Data.List.Nodup

/-!
# Drawing the next frame

`ReconstructFn` of `Web/JS/index.js` and of `Web/JS/calibration.js`.  Both
take the skeletons of the last frame out of the scene of a canvas and put in
those of the last answer.  Seven objects, which `initCanvasObj` has added,
stay for good.

A canvas is the array `children` of its scene.  THREE keeps an object there
once: `add` takes it out of its parent before, and `remove` does nothing for
an object that is not there.

`removeSkeletons_eq` says what the loop that removes leaves behind, and
`drawsLatest_iff` what comes of it over the frames, by induction over them.
-/

namespace MinorityViewport

variable {α : Type} [DecidableEq α]

/-- The objects of a scene, each once. -/
structure Canvas (α : Type) where
  children : List α
  nodup : children.Nodup

namespace Canvas

/-- `THREE.Object3D.remove`.  The object may be `undefined`. -/
def remove (canvas : Canvas α) : Option α → Canvas α
  | some object => ⟨canvas.children.erase object, canvas.nodup.erase object⟩
  | none => canvas

/-- `THREE.Object3D.add`. -/
def add (canvas : Canvas α) (object : α) : Canvas α where
  children := canvas.children.erase object ++ [object]
  nodup := List.nodup_append_comm.mp
    (List.nodup_cons.mpr ⟨canvas.nodup.not_mem_erase, canvas.nodup.erase object⟩)

/-- The objects that `initCanvasObj` adds: axes, light, sky box, grid and
three arrows. -/
def fixedObjects : Nat := 7

/-- The loop of both pages.  The number of children is taken before it. -/
def removeSkeletons (canvas : Canvas α) : Canvas α :=
  (List.range' fixedObjects (canvas.children.length - fixedObjects)).foldl
    (fun canvas child => canvas.remove canvas.children[child]?) canvas

/-- The skeletons of an answer are added. -/
def addAll (canvas : Canvas α) (skeletons : List α) : Canvas α := skeletons.foldl add canvas

end Canvas

/-- `IndexPage.ReconstructFn`, with the objects of the skeletons of the global
scene if there is one. -/
def IndexPage.reconstructFn (glScene : Canvas α) (globalScene : Option (List α)) : Canvas α :=
  match globalScene with
  | some skeletons => glScene.removeSkeletons.addAll skeletons
  | none => glScene

/-- `CalibrationPage.ReconstructFn`. -/
def CalibrationPage.reconstructFn (glScene : Canvas α) (scene : Option (List α)) : Canvas α :=
  match scene with
  | some skeletons => glScene.removeSkeletons.addAll skeletons
  | none => glScene.removeSkeletons

namespace Canvas

/-! ## One frame -/

theorem children_remove_getElem? (canvas : Canvas α) (child : Nat) :
    (canvas.remove canvas.children[child]?).children = canvas.children.eraseIdx child := by
  by_cases h : child < canvas.children.length
  · rw [List.getElem?_eq_getElem h]
    exact canvas.nodup.erase_getElem child h
  · rw [List.getElem?_eq_none (Nat.le_of_not_lt h), List.eraseIdx_of_length_le (Nat.le_of_not_lt h)]
    rfl

theorem children_removeSkeletons (canvas : Canvas α) :
    canvas.removeSkeletons.children =
      EraseLoop.eraseRounds canvas.children fixedObjects
        (canvas.children.length - fixedObjects) := by
  unfold removeSkeletons EraseLoop.eraseRounds
  generalize List.range' fixedObjects (canvas.children.length - fixedObjects) = positions
  induction positions generalizing canvas with
  | nil => rfl
  | cons child rest ih => rw [List.foldl_cons, ih, List.foldl_cons, children_remove_getElem?]

/-- The loop leaves every second skeleton. -/
theorem removeSkeletons_eq {canvas : Canvas α} {fixed skeletons : List α}
    (hchildren : canvas.children = fixed ++ skeletons) (hfixed : fixed.length = fixedObjects) :
    canvas.removeSkeletons.children = fixed ++ EraseLoop.everySecond skeletons := by
  rw [children_removeSkeletons, hchildren, List.length_append, hfixed, ← hfixed]
  exact EraseLoop.eraseRounds_eq fixed skeletons (by omega)

/-- Objects that are not there yet come last. -/
theorem children_addAll {canvas : Canvas α} {skeletons : List α}
    (h : (canvas.children ++ skeletons).Nodup) :
    (canvas.addAll skeletons).children = canvas.children ++ skeletons := by
  induction skeletons generalizing canvas with
  | nil => exact (List.append_nil _).symm
  | cons object rest ih =>
    have hnot : object ∉ canvas.children := fun hmem =>
      (List.nodup_append.mp h).2.2 object hmem object List.mem_cons_self rfl
    have hadd : (canvas.add object).children = canvas.children ++ [object] := by
      show canvas.children.erase object ++ [object] = _
      rw [List.erase_of_not_mem hnot]
    show ((canvas.add object).addAll rest).children = _
    rw [ih, hadd, List.append_assoc, List.singleton_append]
    rwa [hadd, List.append_assoc, List.singleton_append]

/-- Nothing is left exactly when there was at most one skeleton. -/
theorem removeSkeletons_iff {canvas : Canvas α} {fixed skeletons : List α}
    (hchildren : canvas.children = fixed ++ skeletons) (hfixed : fixed.length = fixedObjects) :
    canvas.removeSkeletons.children = fixed ↔ skeletons.length ≤ 1 := by
  rw [removeSkeletons_eq hchildren hfixed, List.append_right_eq_self,
    EraseLoop.everySecond_eq_nil_iff]

/-! ## All frames -/

/-- After each frame the canvas shows the answer of that frame. -/
def DrawsLatest (reconstructFn : Canvas α → Option (List α) → Canvas α) (fixed : List α) :
    Canvas α → List (List α) → Prop
  | _, [] => True
  | canvas, answer :: rest =>
    (reconstructFn canvas (some answer)).children = fixed ++ answer ∧
      DrawsLatest reconstructFn fixed (reconstructFn canvas (some answer)) rest

/-- What a page does with an answer. -/
def Redraws (reconstructFn : Canvas α → Option (List α) → Canvas α) : Prop :=
  ∀ canvas skeletons, reconstructFn canvas (some skeletons) =
    canvas.removeSkeletons.addAll skeletons

theorem redraws_indexPage : Redraws (IndexPage.reconstructFn (α := α)) := fun _ _ => rfl

theorem redraws_calibrationPage : Redraws (CalibrationPage.reconstructFn (α := α)) :=
  fun _ _ => rfl

/-- The objects of the frames are all new. -/
theorem drawsLatest_iff {reconstructFn : Canvas α → Option (List α) → Canvas α}
    (hpage : Redraws reconstructFn) {canvas : Canvas α} {fixed skeletons : List α}
    (hchildren : canvas.children = fixed ++ skeletons) (hfixed : fixed.length = fixedObjects)
    {answers : List (List α)} (hnew : (fixed ++ skeletons ++ answers.flatten).Nodup) :
    DrawsLatest reconstructFn fixed canvas answers ↔
      ∀ drawn ∈ (skeletons :: answers).dropLast, drawn.length ≤ 1 := by
  induction answers generalizing canvas skeletons with
  | nil => exact iff_of_true trivial fun _ h => absurd h List.not_mem_nil
  | cons answer rest ih =>
    have hleft := removeSkeletons_eq hchildren hfixed
    rw [List.flatten_cons, ← List.append_assoc] at hnew
    have hfresh : (canvas.removeSkeletons.children ++ answer).Nodup := by
      rw [hleft]
      exact (List.nodup_append.mp hnew).1.sublist
        (((List.Sublist.refl fixed).append (EraseLoop.everySecond_sublist skeletons)).append
          (.refl answer))
    have hdrawn : (reconstructFn canvas (some answer)).children =
        fixed ++ EraseLoop.everySecond skeletons ++ answer := by
      rw [hpage, children_addAll hfresh, hleft]
    have hiff : (reconstructFn canvas (some answer)).children = fixed ++ answer ↔
        skeletons.length ≤ 1 := by
      rw [hdrawn, List.append_left_inj, List.append_right_eq_self,
        EraseLoop.everySecond_eq_nil_iff]
    have hnext : (fixed ++ answer ++ rest.flatten).Nodup :=
      hnew.sublist (((List.sublist_append_left fixed skeletons).append (.refl answer)).append
        (.refl _))
    rw [DrawsLatest, List.dropLast_cons_of_ne_nil (List.cons_ne_nil _ _), List.forall_mem_cons,
      hiff]
    refine and_congr_right fun hone => ih (hiff.mpr hone) hnext

/-- The loop removes all skeletons exactly when there is at most one of them,
and both pages show the latest answer in every frame exactly when no earlier
one has two. -/
theorem redraw_iff {canvas : Canvas α} {fixed skeletons : List α}
    (hchildren : canvas.children = fixed ++ skeletons) (hfixed : fixed.length = fixedObjects) :
    (canvas.removeSkeletons.children = fixed ↔ skeletons.length ≤ 1) ∧
      ∀ answers : List (List α), (fixed ++ skeletons ++ answers.flatten).Nodup →
        (DrawsLatest IndexPage.reconstructFn fixed canvas answers ↔
          ∀ drawn ∈ (skeletons :: answers).dropLast, drawn.length ≤ 1) ∧
        (DrawsLatest CalibrationPage.reconstructFn fixed canvas answers ↔
          ∀ drawn ∈ (skeletons :: answers).dropLast, drawn.length ≤ 1) :=
  ⟨removeSkeletons_iff hchildren hfixed, fun _ hnew =>
    ⟨drawsLatest_iff redraws_indexPage hchildren hfixed hnew,
      drawsLatest_iff redraws_calibrationPage hchildren hfixed hnew⟩⟩

/-- A canvas with objects that are numbered from zero. -/
def numbered (n : Nat) : Canvas Nat := ⟨List.range n, List.nodup_range⟩

theorem redraw_iff_oneSkeleton :
    ((numbered 8).removeSkeletons.children = List.range 7 ↔ [7].length ≤ 1) ∧
      ∀ answers : List (List Nat), (List.range 7 ++ [7] ++ answers.flatten).Nodup →
        (DrawsLatest IndexPage.reconstructFn (List.range 7) (numbered 8) answers ↔
          ∀ drawn ∈ ([7] :: answers).dropLast, drawn.length ≤ 1) ∧
        (DrawsLatest CalibrationPage.reconstructFn (List.range 7) (numbered 8) answers ↔
          ∀ drawn ∈ ([7] :: answers).dropLast, drawn.length ≤ 1) :=
  redraw_iff rfl rfl

/-- Of two skeletons the second one stays, and is drawn with the next answer
on both pages. -/
theorem removeSkeletons_misses :
    (numbered 9).removeSkeletons.children = List.range 7 ++ [8] ∧
      (IndexPage.reconstructFn (numbered 9) (some [9])).children = List.range 7 ++ [8, 9] ∧
        (CalibrationPage.reconstructFn (numbered 9) (some [9])).children =
          List.range 7 ++ [8, 9] := by
  decide

end Canvas

end MinorityViewport
