import MinorityViewport.Algorithms.Viewport
import Mathlib.Data.List.Sort
import Mathlib.Data.Set.Function
import Mathlib.Order.Interval.Set.Defs

/-!
# The order of the scenes

`RefreshScenesSet` and `CalibrateSceneOrder`.  The order is built in three
passes over the heap: the ordering numbers are set to zero, each time stamp
of the sorted list picks the scenes that were first observed then, and the
neighbours of the resulting list are linked.

Each pass is a list of writes to the heap, and `inOrder` is the list of
scenes that the second pass leaves.  A stamp that `k` scenes share picks all
of them, and it picks them `k` times.

* `run_calibrateSceneOrder` is the outcome of the whole function.
* `live_of_run_calibrateSceneOrder` says what a run that returns has checked.
-/

namespace MinorityViewport

open Exec

variable {K : Type}

namespace Viewport

/-! ## The passes -/

/-- `RefreshScenesSet`. -/
def refreshScenesSet (σ : Viewport K) : Viewport K :=
  { σ with
    scenesSet := σ.clients.rawClientList.foldl
      (fun scenesSet client => client.sensors.values.foldl
        (fun scenesSet sensor => scenesSet.insert sensor.scene ⟨⟩) scenesSet) .empty }

/-- The body of the nested loop that matches scenes to time stamps. -/
def placeScene (timeStamp : Int) (s : Viewport K × Nat) (scenePtr : Addr) :
    Viewport K × Nat :=
  let (σ, order) := s
  if σ.scenes.firstObserved scenePtr = timeStamp then
    ({ σ with
        scenes := σ.scenes.modifyAt scenePtr (·.setOrdering order)
        orderedScenes := σ.orderedScenes ++ [scenePtr] }, order + 1)
  else (σ, order)

/-- The nested loop. -/
def placeScenes (sortedTimeStamp : List Int) (scenesSet : List Addr) (σ : Viewport K) :
    Viewport K :=
  (sortedTimeStamp.foldl
    (fun s timeStamp => scenesSet.foldl (placeScene timeStamp) s) (σ, 1)).1

/-- One round of the loop that sets the neighbours of scene `i`. -/
def linkScene (orderedScenes : List Addr) (scenes : Heap K) (p : Addr × Nat) : Heap K :=
  let (scenePtr, i) := p
  if orderedScenes.length > 1 then
    if i = 0 then
      scenes.modifyAt scenePtr (·.setLeftRightScene none orderedScenes[i + 1]?)
    else if i = orderedScenes.length - 1 then
      scenes.modifyAt scenePtr (·.setLeftRightScene orderedScenes[i - 1]? none)
    else
      scenes.modifyAt scenePtr
        (·.setLeftRightScene orderedScenes[i - 1]? orderedScenes[i + 1]?)
  else scenes

def linkScenes (σ : Viewport K) : Viewport K :=
  { σ with
    scenes := σ.orderedScenes.zipIdx.foldl (linkScene σ.orderedScenes) σ.scenes }

/-- `CalibrateSceneOrder`.  The first loop over the set follows every
pointer, so a pointer to a deleted scene faults there. -/
def calibrateSceneOrder : EStateM Fault (Viewport K) Bool := do
  modify refreshScenesSet
  modify fun σ => { σ with orderedScenes := [] }
  let σ ← get
  let scenesSet := σ.scenesSet.keys
  let observed ← ofExcept (scenesSet.mapM σ.scenes.deref)
  let times := observed.map Scene.firstSkeletonObservedTime
  if times.countP (0 < ·) < scenesSet.length then
    pure false
  else do
    modify fun σ =>
      { σ with scenes := σ.scenes.writeAll (scenesSet.map fun a => (a, (·.setOrdering 0))) }
    let sortedTimeStamp := times.insertionSort (· ≤ ·)
    modify (placeScenes sortedTimeStamp scenesSet)
    modify linkScenes
    modify fun σ => { σ with scenesSet := .empty }
    pure true

/-! ## The set of scenes -/

theorem mem_foldl_insert (sensors : List Sensor) (set : OrdMap Addr PUnit) (a : Addr) :
    a ∈ (sensors.foldl (fun set sensor => set.insert sensor.scene ⟨⟩) set).keys ↔
      a ∈ set.keys ∨ a ∈ sensors.map Sensor.scene := by
  induction sensors generalizing set with
  | nil => simp
  | cons sensor rest ih =>
    rw [List.foldl_cons, ih, List.map_cons, List.mem_cons, ← or_assoc]
    refine or_congr_left ?_
    rw [← OrdMap.isSome_find?_iff, ← OrdMap.isSome_find?_iff, OrdMap.find?_insert]
    by_cases ha : a = sensor.scene
    · subst ha
      cases set.find? sensor.scene <;> simp
    · simp [ha]

/-- The set holds the scenes of the registered sensors. -/
theorem mem_keys_refreshScenesSet {σ : Viewport K} {a : Addr} :
    a ∈ σ.refreshScenesSet.scenesSet.keys ↔ a ∈ σ.owned := by
  have hfold : ∀ (clients : List Client) (set : OrdMap Addr PUnit),
      a ∈ (clients.foldl (fun set client => client.sensors.values.foldl
        (fun set sensor => set.insert sensor.scene ⟨⟩) set) set).keys ↔
      a ∈ set.keys ∨ a ∈ clients.flatMap Client.scenes := by
    intro clients
    induction clients with
    | nil => intro set; simp
    | cons client rest ih =>
      intro set
      rw [List.foldl_cons, ih, mem_foldl_insert, List.flatMap_cons, List.mem_append,
        or_assoc]
      rfl
  rw [refreshScenesSet, hfold, owned]
  simp [OrdMap.keys]

/-! ## The list of scenes -/

/-- The scenes of the set that the sorted time stamps pick. -/
def inOrder (firstObserved : Addr → Int) (scenesSet : List Addr) : List Addr :=
  ((scenesSet.map firstObserved).insertionSort (· ≤ ·)).flatMap fun timeStamp =>
    scenesSet.filter (firstObserved · = timeStamp)

/-- The writes that number a list of scenes from `order` on. -/
def orderingWrites (order : Nat) (scenes : List Addr) :
    List (Addr × (Scene K → Scene K)) :=
  (scenes.zipIdx order).map fun p => (p.1, (·.setOrdering p.2))

theorem firstObserved_writeAll_orderingWrites (scenes : Heap K) (order : Nat)
    (placed : List Addr) :
    (scenes.writeAll (orderingWrites order placed)).firstObserved =
      scenes.firstObserved := by
  refine Heap.firstObserved_writeAll (fun w hw s => ?_) scenes
  obtain ⟨p, _, rfl⟩ := List.mem_map.mp hw
  rfl

theorem foldl_placeScene (timeStamp : Int) (scenesSet : List Addr) (σ : Viewport K)
    (order : Nat) :
    scenesSet.foldl (placeScene timeStamp) (σ, order) =
      let placed := scenesSet.filter (σ.scenes.firstObserved · = timeStamp)
      ({ σ with
          scenes := σ.scenes.writeAll (orderingWrites order placed)
          orderedScenes := σ.orderedScenes ++ placed }, order + placed.length) := by
  induction scenesSet generalizing σ order with
  | nil => simp [orderingWrites, Heap.writeAll]
  | cons a rest ih =>
    rw [List.foldl_cons, placeScene]
    by_cases h : σ.scenes.firstObserved a = timeStamp
    · have hsame : (σ.scenes.modifyAt a (·.setOrdering order)).firstObserved =
          σ.scenes.firstObserved :=
        firstObserved_writeAll_orderingWrites σ.scenes order [a]
      simp only [h, if_true, ih, hsame, List.filter_cons, decide_true]
      refine Prod.ext ?_ (by simp; omega)
      simp [orderingWrites, Heap.writeAll]
    · simp only [h, if_false, ih, List.filter_cons, decide_false, Bool.false_eq_true]

/-- The nested loop appends the scenes in order and numbers them. -/
theorem placeScenes_eq (sortedTimeStamp : List Int) (scenesSet : List Addr)
    (σ : Viewport K) (hempty : σ.orderedScenes = []) :
    placeScenes sortedTimeStamp scenesSet σ =
      let placed := sortedTimeStamp.flatMap fun timeStamp =>
        scenesSet.filter (σ.scenes.firstObserved · = timeStamp)
      { σ with
        scenes := σ.scenes.writeAll (orderingWrites 1 placed)
        orderedScenes := placed } := by
  have hfold : ∀ (times : List Int) (τ : Viewport K) (order : Nat),
      times.foldl (fun s timeStamp => scenesSet.foldl (placeScene timeStamp) s)
          (τ, order) =
        let placed := times.flatMap fun timeStamp =>
          scenesSet.filter (τ.scenes.firstObserved · = timeStamp)
        ({ τ with
            scenes := τ.scenes.writeAll (orderingWrites order placed)
            orderedScenes := τ.orderedScenes ++ placed }, order + placed.length) := by
    intro times
    induction times with
    | nil => intro τ order; simp [orderingWrites, Heap.writeAll]
    | cons t rest ih =>
      intro τ order
      rw [List.foldl_cons, foldl_placeScene, ih]
      simp only [firstObserved_writeAll_orderingWrites, List.flatMap_cons]
      refine Prod.ext ?_ (by simp [Nat.add_assoc])
      simp only [List.append_assoc, ← Heap.writeAll_append, orderingWrites,
        List.zipIdx_append, List.map_append]
  rw [placeScenes, hfold, hempty]
  simp

/-! ## The links -/

/-- The neighbours of index `i`. -/
def prevOf (orderedScenes : List Addr) (i : Nat) : Option Addr :=
  if i = 0 then none else orderedScenes[i - 1]?

/-- The writes that link a list of scenes. -/
def linkWrites (orderedScenes : List Addr) : List (Addr × (Scene K → Scene K)) :=
  if orderedScenes.length > 1 then
    orderedScenes.zipIdx.map fun p =>
      (p.1, (·.setLeftRightScene (prevOf orderedScenes p.2) orderedScenes[p.2 + 1]?))
  else []

theorem linkScenes_eq (σ : Viewport K) :
    σ.linkScenes =
      { σ with scenes := σ.scenes.writeAll (linkWrites σ.orderedScenes) } := by
  unfold linkScenes
  congr 1
  by_cases hlen : σ.orderedScenes.length > 1
  · have hround : ∀ p ∈ σ.orderedScenes.zipIdx, ∀ scenes : Heap K,
        linkScene σ.orderedScenes scenes p =
          scenes.modifyAt p.1 (·.setLeftRightScene (prevOf σ.orderedScenes p.2)
            σ.orderedScenes[p.2 + 1]?) := by
      rintro ⟨a, i⟩ hp scenes
      have hi : i < σ.orderedScenes.length := by
        simpa using (List.mem_zipIdx hp).2.1
      unfold linkScene prevOf
      simp only [hlen, if_true]
      split_ifs with h0 hlast
      · rfl
      · rw [List.getElem?_eq_none (l := σ.orderedScenes) (i := i + 1) (by omega)]
      · rfl
    rw [linkWrites, if_pos hlen, Heap.writeAll, List.foldl_map]
    exact List.foldl_ext _ _ _ fun scenes p hp => hround p hp scenes
  · have hround : ∀ (scenes : Heap K) (p : Addr × Nat),
        linkScene σ.orderedScenes scenes p = scenes := by
      intro scenes p
      simp [linkScene, hlen]
    rw [linkWrites, if_neg hlen, Heap.writeAll, List.foldl_nil]
    generalize σ.orderedScenes.zipIdx = ps
    induction ps with
    | nil => rfl
    | cons p rest ih => rw [List.foldl_cons, hround, ih]

/-! ## The outcome -/

/-- The state after an order that is refused. -/
def refusedOrder (σ : Viewport K) : Viewport K :=
  { σ.refreshScenesSet with orderedScenes := [] }

/-- The order that the scenes of the registered sensors get. -/
def newOrder (σ : Viewport K) : List Addr :=
  inOrder σ.scenes.firstObserved σ.refreshScenesSet.scenesSet.keys

/-- The writes of the three passes. -/
def orderWrites (σ : Viewport K) : List (Addr × (Scene K → Scene K)) :=
  σ.refreshScenesSet.scenesSet.keys.map (fun a => (a, (·.setOrdering 0))) ++
    orderingWrites 1 σ.newOrder ++ linkWrites σ.newOrder

/-- The state after an order that is accepted. -/
def acceptedOrder (σ : Viewport K) : Viewport K :=
  { σ with
    scenes := σ.scenes.writeAll σ.orderWrites
    orderedScenes := σ.newOrder
    scenesSet := .empty }

/-- The passes write the numbers and the links. -/
theorem related_writeAll_orderWrites (σ : Viewport K) (scenes : Heap K) :
    Heap.Related Scene.SameExceptOrder scenes (scenes.writeAll σ.orderWrites) := by
  refine Heap.related_writeAll (refl_of _) (fun _ _ _ => trans_of _) (fun w hw s => ?_) scenes
  rw [orderWrites, List.mem_append, List.mem_append, linkWrites] at hw
  rcases hw with (hw | hw) | hw
  · obtain ⟨a, _, rfl⟩ := List.mem_map.mp hw
    exact Scene.sameExceptOrder_setOrdering 0 s
  · obtain ⟨p, _, rfl⟩ := List.mem_map.mp hw
    exact Scene.sameExceptOrder_setOrdering p.2 s
  · split_ifs at hw
    · obtain ⟨p, _, rfl⟩ := List.mem_map.mp hw
      exact Scene.sameExceptOrder_setLeftRightScene _ _ s
    · cases hw

theorem firstObserved_reset (scenes : Heap K) (scenesSet : List Addr) :
    (scenes.writeAll (scenesSet.map fun a => (a, (·.setOrdering 0)))).firstObserved =
      scenes.firstObserved := by
  refine Heap.firstObserved_writeAll (fun w hw s => ?_) scenes
  obtain ⟨a, _, rfl⟩ := List.mem_map.mp hw
  rfl

/-- The scenes that the first loop of the call follows its pointers to. -/
theorem mapM_deref_refreshed {σ : Viewport K}
    (hlive : ∀ a ∈ σ.owned, (σ.scenes.find? a).isSome) :
    ∃ refreshed : List (Scene K),
      σ.refreshScenesSet.scenesSet.keys.mapM σ.scenes.deref = .ok refreshed ∧
        refreshed.map Scene.firstSkeletonObservedTime =
          σ.refreshScenesSet.scenesSet.keys.map σ.scenes.firstObserved := by
  refine ⟨σ.refreshScenesSet.scenesSet.keys.map fun a =>
    (σ.scenes.find? a).getD (Scene.ofSensor []), mapM_eq_ok fun a ha => ?_, ?_⟩
  · obtain ⟨scene, hscene⟩ := Option.isSome_iff_exists.mp
      (hlive a (mem_keys_refreshScenesSet.mp ha))
    rw [Heap.deref_eq_ok_iff, hscene, Option.getD_some]
  · rw [List.map_map]
    refine List.map_congr_left fun a _ => ?_
    rw [Function.comp_apply, Heap.firstObserved]
    cases σ.scenes.find? a <;> rfl

/-- The test of the call: not all times that are counted are positive. -/
theorem countP_firstObserved_lt_iff (σ : Viewport K) :
    (σ.refreshScenesSet.scenesSet.keys.map σ.scenes.firstObserved).countP (0 < ·) <
        σ.refreshScenesSet.scenesSet.keys.length ↔
      ¬ ∀ a ∈ σ.owned, 0 < σ.scenes.firstObserved a := by
  have hle := List.countP_le_length (p := fun t : Int => decide (0 < t))
    (l := σ.refreshScenesSet.scenesSet.keys.map σ.scenes.firstObserved)
  have heq := List.countP_eq_length (p := fun t : Int => decide (0 < t))
    (l := σ.refreshScenesSet.scenesSet.keys.map σ.scenes.firstObserved)
  rw [List.length_map] at hle heq
  rw [Nat.lt_iff_le_and_ne, and_iff_right hle, ne_eq, heq]
  simp [mem_keys_refreshScenesSet]

/-- With every scene alive the call answers whether each has observed a
skeleton. -/
theorem run_calibrateSceneOrder {σ : Viewport K}
    (hlive : ∀ a ∈ σ.owned, (σ.scenes.find? a).isSome) :
    calibrateSceneOrder.run σ =
      if ∀ a ∈ σ.owned, 0 < σ.scenes.firstObserved a then .ok true σ.acceptedOrder
      else .ok false σ.refusedOrder := by
  obtain ⟨refreshed, hderef, htimes⟩ := mapM_deref_refreshed hlive
  have hcount := countP_firstObserved_lt_iff σ
  have hscenes : σ.refreshScenesSet.scenes = σ.scenes := rfl
  unfold calibrateSceneOrder
  simp only [EStateM.run_bind, EStateM.run_modify, EStateM.run_get, hscenes, hderef]
  show EStateM.run (ite _ _ _) _ = _
  simp only [htimes]
  by_cases hpos : ∀ a ∈ σ.owned, 0 < σ.scenes.firstObserved a
  · rw [if_neg (fun h => hcount.mp h hpos), if_pos hpos]
    simp only [EStateM.run_bind, EStateM.run_modify, EStateM.run_pure]
    rw [placeScenes_eq _ _ _ rfl, linkScenes_eq]
    simp only [firstObserved_reset]
    rw [acceptedOrder, orderWrites, newOrder, inOrder, Heap.writeAll_append,
      Heap.writeAll_append]
    rfl
  · rw [if_pos (hcount.mpr hpos), if_neg hpos]
    rfl

/-- The first loop follows the pointer to every scene. -/
theorem live_of_run_calibrateSceneOrder {σ σ' : Viewport K} {b : Bool}
    (h : calibrateSceneOrder.run σ = .ok b σ') :
    ∀ a ∈ σ.owned, (σ.scenes.find? a).isSome := by
  have hscenes : σ.refreshScenesSet.scenes = σ.scenes := rfl
  unfold calibrateSceneOrder at h
  simp only [EStateM.run_bind, EStateM.run_modify, EStateM.run_get, hscenes] at h
  have hok : IsOk (σ.refreshScenesSet.scenesSet.keys.mapM σ.scenes.deref) := by
    cases hm : σ.refreshScenesSet.scenesSet.keys.mapM σ.scenes.deref with
    | ok observed => exact isOk_ok observed
    | error e =>
      rw [hm] at h
      cases h
  rw [isOk_mapM_iff] at hok
  intro a ha
  obtain ⟨scene, hscene⟩ := hok a (mem_keys_refreshScenesSet.mpr ha)
  rw [Heap.deref_eq_ok_iff] at hscene
  rw [hscene]
  rfl

end Viewport

end MinorityViewport
