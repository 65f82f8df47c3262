import MinorityViewport.Basic
import Mathlib.Data.Fin.VecNotation

/-!
# The calibration page

`Web/JS/calibration.js`: two canvases, each with the sensor that is selected
for it and the last scene that came from that sensor, and the skeletons that
are captured while the page is locking.  The page keeps both in the local
storage of the browser.  It never clears the captured skeletons except to
lock again, not even when it is loaded.

* The handlers are the functions of the source, without what they display.
  An answer may come from any sensor at any time, so stopping a worker is no
  event of its own.
* A `Session` is the page with the orderings that it has heard of.  The
  ordering of a sensor is the one in the last scene that came from it.
* `Consistent` is the invariant: on a canvas that shows a scene, the scene has
  the ordering of every sensor whose skeletons would be sent.

Selecting another sensor keeps the captured skeletons, and the next scene of
that sensor puts its own ordering beside them.  `Suits` says that an answer
does not do so.
-/

namespace MinorityViewport.CalibrationPage

variable {J : Type}

/-! ## The page -/

/-- A skeleton in an answer of the server. -/
structure SkeletonData (J : Type) where
  sensorId : Str
  joints : List J

/-- A scene in an answer of the server. -/
structure SceneData (J : Type) where
  sensorId : Str
  ordering : Nat
  skeletons : List (SkeletonData J)

/-- An entry of `scenes`. -/
structure Slot (J : Type) where
  sensorId : Option Str
  scene : Option (SceneData J)

/-- A captured skeleton with the sensor of the scene that it was taken from.
The page keeps the skeleton only. -/
structure Capture (J : Type) where
  sensorId : Str
  skeleton : SkeletonData J

structure Page (J : Type) where
  scenes : Fin 2 → Slot J
  lockingMode : Bool
  lockedSkeletons : Option (Fin 2 → List (Capture J))
  lockBtnToggle : Bool
  numOfSkeletonsScanned : Nat
  numOfSkeletonsRequired : Nat

namespace Page

/-- `Init`.  The local storage may hold skeletons from an earlier visit. -/
def init (stored : Option (Fin 2 → List (Capture J))) : Page J where
  scenes _ := ⟨none, none⟩
  lockingMode := false
  lockedSkeletons := stored
  lockBtnToggle := false
  numOfSkeletonsScanned := 0
  numOfSkeletonsRequired := 35

/-- `SensorSelectionHandler`.  The scene stays until the next one comes. -/
def sensorSelectionHandler (p : Page J) (sceneId : Fin 2) (text : Str) : Page J :=
  { p with
    scenes := Function.update p.scenes sceneId { p.scenes sceneId with sensorId := some text } }

/-- A canvas takes the scenes of the sensor that is selected for it. -/
def Takes (p : Page J) (sceneNo : Fin 2) (sceneFromServer : SceneData J) : Prop :=
  (p.scenes sceneNo).sensorId = some sceneFromServer.sensorId

instance (p : Page J) (sceneNo : Fin 2) (scene : SceneData J) : Decidable (p.Takes sceneNo scene) :=
  inferInstanceAs (Decidable (_ = _))

/-- The loop of `NetworkHandler` over the canvases. -/
def putScene (p : Page J) (sceneFromServer : SceneData J) : Page J :=
  { p with
    scenes := fun sceneNo =>
      if p.Takes sceneNo sceneFromServer then
        { p.scenes sceneNo with scene := some sceneFromServer }
      else p.scenes sceneNo }

/-- The skeleton that a canvas offers: the first of its scene, if it has
enough joints. -/
def offered (p : Page J) (sceneNo : Fin 2) : Option (Capture J) :=
  match (p.scenes sceneNo).scene with
  | some scene =>
    match scene.skeletons with
    | skeleton :: _ =>
      if 20 ≤ skeleton.joints.length then some ⟨scene.sensorId, skeleton⟩ else none
    | [] => none
  | none => none

/-- The end of `NetworkHandler` in the locking mode: one skeleton from each
canvas, or none at all. -/
def lockSkeletons (p : Page J) : Page J :=
  match p.offered 0, p.offered 1, p.lockedSkeletons with
  | some a, some b, some locked =>
    { p with lockedSkeletons := some fun sceneNo => locked sceneNo ++ [![a, b] sceneNo] }
  | _, _, _ => p

/-- `NetworkHandler` with the data of an answer, which is empty for a sensor
that the server does not know. -/
def networkHandler (p : Page J) : Option (SceneData J) → Page J
  | some sceneFromServer =>
    let p := p.putScene sceneFromServer
    if p.lockingMode then p.lockSkeletons else p
  | none => { p with scenes := fun sceneNo => { p.scenes sceneNo with scene := none } }

/-- `LockBtnHandler`. -/
def lockBtnHandler (p : Page J) : Page J :=
  if !p.lockBtnToggle then
    { p with
      lockBtnToggle := true
      lockingMode := true
      lockedSkeletons := some fun _ => []
      numOfSkeletonsScanned := 0 }
  else { p with lockBtnToggle := false, lockingMode := false }

/-- `AutomaticSceneLockingHandler`. -/
def automaticSceneLockingHandler (p : Page J) : Page J :=
  match p.lockedSkeletons with
  | some locked =>
    let p := { p with numOfSkeletonsScanned := (locked 0).length }
    if p.numOfSkeletonsRequired ≤ p.numOfSkeletonsScanned then { p with lockingMode := false }
    else p
  | none => p

/-- The arguments of `calibrateScene`: the two orders, and the two lists of
skeletons. -/
structure Request (J : Type) where
  order : Fin 2 → Nat
  skeletons : Fin 2 → List (Capture J)

/-- `CalibrateBtnHandler`, which throws if a scene or the list of captured
skeletons is `null`. -/
def calibrateBtnHandler (p : Page J) : Option (Request J) :=
  match p.lockedSkeletons, (p.scenes 0).scene, (p.scenes 1).scene with
  | some locked, some sceneA, some sceneB =>
    if 0 < (locked 0).length ∧ 0 < (locked 1).length then
      some ⟨![sceneA.ordering, sceneB.ordering],
        fun sceneNo => (locked sceneNo).take p.numOfSkeletonsRequired⟩
    else none
  | _, _, _ => none

end Page

inductive Event (J : Type) where
  | select (sceneId : Fin 2) (sensorId : Str)
  | response (responseData : Option (SceneData J))
  | lock
  | timer
  | calibrate

/-- The page after an event.  The timer runs while the lock is on. -/
def Page.step (p : Page J) : Event J → Page J
  | .select sceneId sensorId => p.sensorSelectionHandler sceneId sensorId
  | .response responseData => p.networkHandler responseData
  | .lock => p.lockBtnHandler
  | .timer => if p.lockBtnToggle then p.automaticSceneLockingHandler else p
  | .calibrate => p

/-! ## Sessions -/

/-- The page, and the ordering in the last scene from each sensor. -/
structure Session (J : Type) where
  page : Page J
  ordering : Str → Option Nat

namespace Session

def init (stored : Option (Fin 2 → List (Capture J))) : Session J := ⟨.init stored, fun _ => none⟩

def step (s : Session J) (e : Event J) : Session J where
  page := s.page.step e
  ordering := match e with
    | .response (some scene) => Function.update s.ordering scene.sensorId (some scene.ordering)
    | _ => s.ordering

def run (s : Session J) (events : List (Event J)) : Session J := events.foldl step s

/-- A request that the button sends now has the ordering of every sensor from
which its skeletons were captured. -/
def Describes (s : Session J) : Prop :=
  ∀ request, s.page.calibrateBtnHandler = some request →
    ∀ sceneNo, ∀ capture ∈ request.skeletons sceneNo,
      s.ordering capture.sensorId = some (request.order sceneNo)

/-- Every request of the run does. -/
def AlwaysDescribes (s : Session J) (events : List (Event J)) : Prop :=
  ∀ before after, events = before ++ .calibrate :: after → (s.run before).Describes

end Session

namespace Page

/-- The skeletons that would be sent for a canvas. -/
def toSend (p : Page J) (sceneNo : Fin 2) : List (Capture J) :=
  match p.lockedSkeletons with
  | some locked => (locked sceneNo).take p.numOfSkeletonsRequired
  | none => []

theorem calibrateBtnHandler_eq_some {p : Page J} {request : Request J}
    (h : p.calibrateBtnHandler = some request) (sceneNo : Fin 2) :
    request.skeletons sceneNo = p.toSend sceneNo ∧
      ∃ scene, (p.scenes sceneNo).scene = some scene ∧ request.order sceneNo = scene.ordering := by
  unfold calibrateBtnHandler at h
  split at h
  · next locked sceneA sceneB hlocked hA hB =>
    split_ifs at h
    obtain rfl := Option.some.inj h
    refine ⟨?_, ?_⟩
    · rw [toSend, hlocked]
    · match sceneNo with
      | 0 => exact ⟨sceneA, hA, rfl⟩
      | 1 => exact ⟨sceneB, hB, rfl⟩
  · cases h

/-- What a canvas shows behind a scene that has come. -/
theorem scene_putScene (p : Page J) (scene : SceneData J) (sceneNo : Fin 2) :
    ((p.putScene scene).scenes sceneNo).scene =
      if p.Takes sceneNo scene then some scene else (p.scenes sceneNo).scene := by
  unfold putScene
  dsimp only
  split_ifs <;> rfl

theorem offered_eq_some {p : Page J} {sceneNo : Fin 2} {capture : Capture J}
    (h : p.offered sceneNo = some capture) :
    ∃ scene, (p.scenes sceneNo).scene = some scene ∧ capture.sensorId = scene.sensorId := by
  unfold offered at h
  split at h
  · next scene hscene =>
    split at h
    · split_ifs at h
      obtain rfl := Option.some.inj h
      exact ⟨scene, hscene, rfl⟩
    · cases h
  · cases h

/-- Locking adds what the canvases offer and changes nothing else. -/
theorem lockSkeletons_cases (p : Page J) :
    p.lockSkeletons = p ∨
      ∃ (captures : Fin 2 → Capture J) (locked : Fin 2 → List (Capture J)),
        (∀ sceneNo, p.offered sceneNo = some (captures sceneNo)) ∧
        p.lockedSkeletons = some locked ∧
        p.lockSkeletons =
          { p with
            lockedSkeletons := some fun sceneNo => locked sceneNo ++ [captures sceneNo] } := by
  unfold lockSkeletons
  split
  · next a b locked ha hb hlocked =>
    refine Or.inr ⟨![a, b], locked, fun sceneNo => ?_, hlocked, rfl⟩
    match sceneNo with
    | 0 => exact ha
    | 1 => exact hb
  · exact Or.inl rfl

theorem scenes_lockSkeletons (p : Page J) : p.lockSkeletons.scenes = p.scenes := by
  rcases p.lockSkeletons_cases with h | ⟨_, _, _, _, h⟩ <;> rw [h]

/-- A skeleton that would be sent after locking would have been sent before,
or is what the canvas offers. -/
theorem mem_toSend_lockSkeletons {p : Page J} {sceneNo : Fin 2} {capture : Capture J}
    (h : capture ∈ p.lockSkeletons.toSend sceneNo) :
    capture ∈ p.toSend sceneNo ∨
      (∀ sceneNo, (p.offered sceneNo).isSome) ∧ p.offered sceneNo = some capture := by
  rcases p.lockSkeletons_cases with heq | ⟨captures, locked, hoffered, hlocked, heq⟩
  · rw [heq] at h
    exact Or.inl h
  · have hsend : p.lockSkeletons.toSend sceneNo =
        (locked sceneNo ++ [captures sceneNo]).take p.numOfSkeletonsRequired := by
      rw [heq]
      rfl
    rw [hsend, List.take_append, List.mem_append] at h
    rcases h with h | h
    · refine Or.inl ?_
      rwa [toSend, hlocked]
    · obtain rfl := List.mem_singleton.mp (List.mem_of_mem_take h)
      exact Or.inr ⟨fun sceneNo => by rw [hoffered]; rfl, hoffered sceneNo⟩

end Page

/-! ## When the requests are right -/

namespace Session

/-- A canvas that shows a scene shows the ordering of every sensor whose
skeletons would be sent for it. -/
def Consistent (s : Session J) : Prop :=
  ∀ sceneNo, ∀ scene ∈ (s.page.scenes sceneNo).scene, ∀ capture ∈ s.page.toSend sceneNo,
    s.ordering capture.sensorId = some scene.ordering

/-- What is asked of an answer.  On a canvas that takes the scene, the
skeletons to send come from its sensor or from one with the same ordering.  On
the others, no sensor whose skeletons are to be sent comes with another
ordering than the canvas shows, and a skeleton is captured only from a scene
that has the last ordering of its sensor. -/
structure Suits (s : Session J) (scene : SceneData J) : Prop where
  taken : ∀ sceneNo, s.page.Takes sceneNo scene → ∀ capture ∈ s.page.toSend sceneNo,
    capture.sensorId = scene.sensorId ∨ s.ordering capture.sensorId = some scene.ordering
  kept : ∀ sceneNo, ¬ s.page.Takes sceneNo scene → ∀ shown ∈ (s.page.scenes sceneNo).scene,
    ∀ capture ∈ s.page.toSend sceneNo, capture.sensorId = scene.sensorId →
      shown.ordering = scene.ordering
  locked : s.page.lockingMode = true →
    (∀ sceneNo, ((s.page.putScene scene).offered sceneNo).isSome) →
    ∀ sceneNo, ¬ s.page.Takes sceneNo scene → ∀ shown ∈ (s.page.scenes sceneNo).scene,
      Function.update s.ordering scene.sensorId (some scene.ordering) shown.sensorId =
        some shown.ordering

/-- Every answer of the run suits the session that it comes to. -/
def Suited : Session J → List (Event J) → Prop
  | _, [] => True
  | s, .response (some scene) :: rest =>
    s.Suits scene ∧ Suited (s.step (.response (some scene))) rest
  | s, e :: rest => Suited (s.step e) rest

theorem consistent_init (stored : Option (Fin 2 → List (Capture J))) :
    (init stored).Consistent := by
  rintro sceneNo scene ⟨⟩

theorem Consistent.describes {s : Session J} (h : s.Consistent) : s.Describes := by
  intro request hrequest sceneNo capture hcapture
  obtain ⟨hskeletons, scene, hscene, horder⟩ :=
    Page.calibrateBtnHandler_eq_some hrequest sceneNo
  rw [hskeletons] at hcapture
  rw [horder]
  exact h sceneNo scene hscene capture hcapture

/-- Events that put no scene on a canvas and capture nothing. -/
theorem Consistent.of_le {s s' : Session J} (h : s.Consistent)
    (hordering : s'.ordering = s.ordering)
    (hscenes : ∀ sceneNo, ∀ scene ∈ (s'.page.scenes sceneNo).scene,
      scene ∈ (s.page.scenes sceneNo).scene)
    (hsend : ∀ sceneNo, ∀ capture ∈ s'.page.toSend sceneNo, capture ∈ s.page.toSend sceneNo) :
    s'.Consistent := by
  intro sceneNo scene hscene capture hcapture
  rw [hordering]
  exact h sceneNo scene (hscenes sceneNo scene hscene) capture (hsend sceneNo capture hcapture)

/-- The orderings behind an answer. -/
theorem ordering_response (s : Session J) (scene : SceneData J) :
    (s.step (.response (some scene))).ordering =
      Function.update s.ordering scene.sensorId (some scene.ordering) := rfl

/-- The skeletons from before the answer. -/
theorem Consistent.putScene {s : Session J} (h : s.Consistent) {scene : SceneData J}
    (hsuits : s.Suits scene) {sceneNo : Fin 2} {shown : SceneData J}
    (hshown : shown ∈ ((s.page.putScene scene).scenes sceneNo).scene) {capture : Capture J}
    (hcapture : capture ∈ s.page.toSend sceneNo) :
    (s.step (.response (some scene))).ordering capture.sensorId = some shown.ordering := by
  rw [ordering_response]
  rw [Page.scene_putScene] at hshown
  split_ifs at hshown with htakes
  · obtain rfl := Option.some.inj hshown
    by_cases heq : capture.sensorId = scene.sensorId
    · rw [heq, Function.update_self]
    · rw [Function.update_of_ne heq]
      exact (hsuits.taken sceneNo htakes capture hcapture).resolve_left heq
  · by_cases heq : capture.sensorId = scene.sensorId
    · rw [heq, Function.update_self, hsuits.kept sceneNo htakes shown hshown capture hcapture heq]
    · rw [Function.update_of_ne heq]
      exact h sceneNo shown hshown capture hcapture

/-- The skeletons that are captured with the answer. -/
theorem Suits.ordering_offered {s : Session J} {scene : SceneData J} (hsuits : s.Suits scene)
    (hlocking : s.page.lockingMode = true)
    (hoffered : ∀ sceneNo, ((s.page.putScene scene).offered sceneNo).isSome) {sceneNo : Fin 2}
    {shown : SceneData J} (hshown : shown ∈ ((s.page.putScene scene).scenes sceneNo).scene)
    {capture : Capture J} (hcapture : (s.page.putScene scene).offered sceneNo = some capture) :
    (s.step (.response (some scene))).ordering capture.sensorId = some shown.ordering := by
  obtain ⟨shown', hshown', hsensor⟩ := Page.offered_eq_some hcapture
  obtain rfl : shown' = shown := Option.some.inj (hshown'.symm.trans hshown)
  rw [hsensor, ordering_response]
  rw [Page.scene_putScene] at hshown
  split_ifs at hshown with htakes
  · obtain rfl := Option.some.inj hshown
    exact Function.update_self _ _ _
  · exact hsuits.locked hlocking hoffered sceneNo htakes shown' hshown

theorem Consistent.response {s : Session J} (h : s.Consistent) {scene : SceneData J}
    (hsuits : s.Suits scene) : (s.step (.response (some scene))).Consistent := by
  have hpage : (s.step (.response (some scene))).page =
      if s.page.lockingMode then (s.page.putScene scene).lockSkeletons
      else s.page.putScene scene := rfl
  intro sceneNo shown hshown capture hcapture
  rw [hpage] at hshown hcapture
  split_ifs at hshown hcapture with hlocking
  · rw [Page.scenes_lockSkeletons] at hshown
    rcases Page.mem_toSend_lockSkeletons hcapture with hold | ⟨hall, hoffered⟩
    · exact h.putScene hsuits hshown hold
    · exact hsuits.ordering_offered hlocking hall hshown hoffered
  · exact h.putScene hsuits hshown hcapture

theorem Consistent.select {s : Session J} (h : s.Consistent) (sceneId : Fin 2) (sensorId : Str) :
    (s.step (.select sceneId sensorId)).Consistent := by
  refine h.of_le rfl (fun sceneNo scene hscene => ?_) (fun _ _ => id)
  have hsame : (Function.update s.page.scenes sceneId
      { s.page.scenes sceneId with sensorId := some sensorId } sceneNo).scene =
        (s.page.scenes sceneNo).scene := by
    by_cases heq : sceneNo = sceneId
    · rw [heq, Function.update_self]
    · rw [Function.update_of_ne heq]
  exact hsame ▸ hscene

theorem Consistent.lock {s : Session J} (h : s.Consistent) : (s.step .lock).Consistent := by
  have hpage : (s.step .lock).page = s.page.lockBtnHandler := rfl
  refine h.of_le rfl ?_ ?_
  · rw [hpage, Page.lockBtnHandler]
    split_ifs <;> exact fun _ _ => id
  · rw [hpage, Page.lockBtnHandler]
    split_ifs
    · intro sceneNo capture hcapture
      cases List.mem_of_mem_take hcapture
    · exact fun _ _ => id

theorem Consistent.timer {s : Session J} (h : s.Consistent) : (s.step .timer).Consistent := by
  have hpage : (s.step .timer).page.scenes = s.page.scenes ∧
      ∀ sceneNo, (s.step .timer).page.toSend sceneNo = s.page.toSend sceneNo := by
    have hstep : (s.step .timer).page =
        if s.page.lockBtnToggle then s.page.automaticSceneLockingHandler else s.page := rfl
    rw [hstep]
    unfold Page.automaticSceneLockingHandler
    split_ifs
    · split
      · dsimp only
        split_ifs <;> exact ⟨rfl, fun _ => rfl⟩
      · exact ⟨rfl, fun _ => rfl⟩
    · exact ⟨rfl, fun _ => rfl⟩
  refine h.of_le rfl ?_ ?_
  · rw [hpage.1]
    exact fun _ _ => id
  · intro sceneNo capture hcapture
    rwa [hpage.2] at hcapture

theorem Consistent.empty {s : Session J} (h : s.Consistent) :
    (s.step (.response none)).Consistent := by
  refine h.of_le rfl ?_ (fun _ _ => id)
  rintro sceneNo scene ⟨⟩

/-- The invariant along a run. -/
theorem Consistent.run {s : Session J} (h : s.Consistent) {before after : List (Event J)}
    (hsuited : s.Suited (before ++ after)) : (s.run before).Consistent := by
  induction before generalizing s with
  | nil => exact h
  | cons e before ih =>
    cases e with
    | select sceneId sensorId => exact ih (h.select sceneId sensorId) hsuited
    | response responseData =>
      cases responseData with
      | some scene => exact ih (h.response hsuited.1) hsuited.2
      | none => exact ih h.empty hsuited
    | lock => exact ih h.lock hsuited
    | timer => exact ih h.timer hsuited
    | calibrate => exact ih h hsuited

/-- In a run whose answers suit, every request has the orderings of the
sensors from which its skeletons were captured. -/
theorem alwaysDescribes_of_suited (stored : Option (Fin 2 → List (Capture J)))
    (events : List (Event J)) (h : (init stored).Suited events) :
    (init stored).AlwaysDescribes events := by
  rintro before after rfl
  exact ((consistent_init stored).run h).describes

/-- A scene with one skeleton. -/
def onePerson (sensorId : String) (ordering : Nat) : SceneData Unit :=
  ⟨sensorId.toList, ordering, [⟨sensorId.toList, List.replicate 20 ()⟩]⟩

/-- A skeleton is captured from each of two sensors. -/
def capturing : List (Event Unit) :=
  [.select 0 "a".toList, .select 1 "b".toList, .lock, .response (some (onePerson "a" 1)),
    .response (some (onePerson "b" 2)), .lock]

theorem alwaysDescribes_of_suited_capturing :
    (init none).AlwaysDescribes (capturing ++ [.calibrate]) ∧
      ((init none).run capturing).page.calibrateBtnHandler.isSome :=
  ⟨alwaysDescribes_of_suited none _
    ⟨⟨by decide, by decide, by decide⟩, ⟨by decide, by decide, by decide⟩, trivial⟩, by decide⟩

/-- Another sensor is selected for the first canvas behind the capture, and
the request sends its ordering with the skeleton of `a`. -/
theorem not_alwaysDescribes_selectedLater :
    ¬ (init none).AlwaysDescribes (capturing ++ [.select 0 "c".toList,
      .response (some (onePerson "c" 3)), .calibrate]) := by
  intro h
  have hdescribes := h (capturing ++ [.select 0 "c".toList, .response (some (onePerson "c" 3))]) []
    rfl _ rfl 0 _ List.mem_cons_self
  exact absurd hdescribes (by decide)

end Session

end MinorityViewport.CalibrationPage
