import MinorityViewport.Algorithms.NeighbourCalibration
import MinorityViewport.Algorithms.NeighbourLinks
import MinorityViewport.Algorithms.MergeSources
import MinorityViewport.Algorithms.SkeletonOrigins
import MinorityViewport.Lib.Poses

/-!
# The global view of a room

The sensors stand in a room, and a `Placement` says where.  The viewport
does not know it: what it has is the matrices that `CalibrateScenes` computes
from pairs of captured skeletons.

`Surveyed` are the states of an installation that is set up as intended:
the order is linked, each calibration is against the left neighbour, and the
two sensors of a calibration have seen the same places.  `Measured` holds in
each of them, and says that the matrices are the way from one sensor to the
other.  `globalScene_of_surveyed` is what follows for the view: every
skeleton in the global scene, read from the place of the first sensor, lies
where the sensor that reported it has seen it.
-/

namespace MinorityViewport

open Exec Viewport

variable {K : Type} [Field K] [LinearOrder K]

/-- Where the sensor of each scene stands. -/
abbrev Placement (K : Type) [Field K] := Addr → Pose (Fin 3) K

/-! ## Calibrations that see the room -/

/-- The two sensors have seen the same places, which do not lie in a plane,
and `SVD::compute` returns a decomposition. -/
structure Surveys (place : Placement K) (svd : SvdCompute K) (m : Operands K)
    (body ref : Addr) : Prop where
  decomposes : (svd m.crossCov).Decomposes m.crossCov
  samePlaces : ∀ i, (place ref).apply (m.refPoints i) = (place body).apply (m.bodyPoints i)
  spans : m.crossCov.det ≠ 0

/-- A call of `CalibrateScenes` gets the skeletons that its two sensors have
captured of the same places. -/
def SurveysRoom (place : Placement K) (σ : Viewport K) : Event K → Prop
  | .calibrateScenes svd sceneAOrder skeletonsA sceneBOrder skeletonsB =>
    ∀ m body ref, assemble sceneAOrder skeletonsA sceneBOrder skeletonsB = .ok (some m) →
      σ.sceneAt m.bodyFrameOrder = .ok body → σ.sceneAt m.refFrameOrder = .ok ref →
        Surveys place svd m body ref
  | _ => True

/-- A scene with a reference scene holds the way from its own place to the
place of the reference scene. -/
def Measured (place : Placement K) (σ : Viewport K) (refs : Refs) : Prop :=
  ∀ a b, refs a = some b → (σ.scenes.find? b).isSome ∧
    ∃ s, σ.scenes.find? a = some s ∧ s.rAndT = some (Pose.between (place b) (place a))

omit [LinearOrder K] in
theorem Measured.mono {place : Placement K} {σ σ' : Viewport K} {refs refs' : Refs}
    (h : Measured place σ refs)
    (hrefs : ∀ a b, refs' a = some b → refs a = some b ∧ (σ'.scenes.find? b).isSome ∧
      ∀ s, σ.scenes.find? a = some s →
        ∃ s', σ'.scenes.find? a = some s' ∧ s'.rAndT = s.rAndT) :
    Measured place σ' refs' := by
  intro a b href
  obtain ⟨hold, hlive, hscenes⟩ := hrefs a b href
  obtain ⟨_, s, hs, hmatrices⟩ := h a b hold
  obtain ⟨s', hs', hmatrices'⟩ := hscenes s hs
  exact ⟨hlive, s', hs', hmatrices'.trans hmatrices⟩

/-- What a call assigns is the way between the two places. -/
theorem rAndT_of_assignment [IsStrictOrderedRing K] {place : Placement K} {σ : Viewport K}
    {svd : SvdCompute K}
    {sceneAOrder sceneBOrder : Nat} {skeletonsA skeletonsB : Str} {c : Assignment K} {b : Addr}
    (h : σ.assignment svd sceneAOrder skeletonsA sceneBOrder skeletonsB = some c)
    (hsurveys : SurveysRoom place σ
      (.calibrateScenes svd sceneAOrder skeletonsA sceneBOrder skeletonsB))
    (hb : c.ref = some b) : c.rAndT = Pose.between (place b) (place c.body) := by
  unfold assignment at h
  split_ifs at h
  split at h
  · rename_i m hm
    split at h
    · rename_i F body hF hbody
      obtain rfl := Option.some.inj h
      obtain ⟨ref, href⟩ : ∃ ref, σ.sceneAt m.refFrameOrder = .ok ref := by
        cases hat : σ.sceneAt m.refFrameOrder with
        | error e =>
          rw [hat] at hb
          cases hb
        | ok ref => exact ⟨ref, rfl⟩
      rw [href] at hb
      obtain rfl := Option.some.inj hb
      obtain ⟨hsvd, hsame, hspans⟩ := hsurveys m body ref hm hbody href
      obtain ⟨h0, _, _, rfl⟩ := rigidFit_of_assemble hm hF
      have hne : Nonempty (Fin m.count) := ⟨⟨0, Nat.pos_of_ne_zero h0⟩⟩
      exact Procrustes.fit_eq_of_exact hsvd (Pose.orthogonal_between _ _)
        (fun i => Pose.eq_apply_between_iff.mpr (hsame i)) hspans
    · cases h
  · cases h

/-! ## The steps -/

omit [LinearOrder K] in
/-- Only the places of the live scenes matter. -/
theorem Measured.place_congr {place place' : Placement K} {σ : Viewport K} {refs : Refs}
    (h : Measured place σ refs)
    (hplace : ∀ a, (σ.scenes.find? a).isSome → place' a = place a) :
    Measured place' σ refs := by
  intro a b hab
  obtain ⟨hb, s, hs, hway⟩ := h a b hab
  refine ⟨hb, s, hs, ?_⟩
  rw [hplace b hb, hplace a (Option.isSome_of_eq_some hs)]
  exact hway

omit [LinearOrder K] in
/-- An event that keeps the scenes and the matrices. -/
theorem Measured.related {R : Scene K → Scene K → Prop} {place : Placement K}
    {σ σ' : Viewport K} {refs : Refs} (h : Measured place σ refs)
    (hrel : Heap.Related R σ.scenes σ'.scenes) (hR : ∀ s s', R s s' → s'.rAndT = s.rAndT) :
    Measured place σ' refs := by
  refine h.mono fun a b hab => ⟨hab, ?_, fun s hs => ?_⟩
  · rw [hrel.isSome b]
    exact (h a b hab).1
  · obtain ⟨s', hs', hsame⟩ := hrel.find? hs
    exact ⟨s', hs', hR s s' hsame⟩

omit [LinearOrder K] in
theorem Measured.assign {place : Placement K} {σ : Viewport K} {refs : Refs} {c : Assignment K}
    (h : Measured place σ refs)
    (hordered : ∀ a ∈ σ.orderedScenes, (σ.scenes.find? a).isSome)
    (hbody : c.body ∈ σ.orderedScenes) (href : ∀ b, c.ref = some b → b ∈ σ.orderedScenes ∧
      c.rAndT = Pose.between (place b) (place c.body)) :
    Measured place (σ.assign c) (Function.update refs c.body c.ref) := by
  have hlive : ∀ b, (σ.scenes.find? b).isSome → ((σ.assign c).scenes.find? b).isSome := by
    intro b hb
    obtain ⟨s, hs⟩ := Option.isSome_iff_exists.mp hb
    obtain ⟨s', hs', _⟩ := find?_assign c hs
    exact Option.isSome_of_eq_some hs'
  intro a b hab
  by_cases ha : a = c.body
  · subst ha
    rw [Function.update_self] at hab
    obtain ⟨hb, hway⟩ := href b hab
    obtain ⟨s, hs⟩ := Option.isSome_iff_exists.mp (hordered c.body hbody)
    obtain ⟨s', hs', _, hmatrices⟩ := find?_assign c hs
    rw [if_pos rfl, hway] at hmatrices
    exact ⟨hlive b (hordered b hb), s', hs', hmatrices⟩
  · rw [Function.update_of_ne ha] at hab
    obtain ⟨hb, s, hs, hway⟩ := h a b hab
    obtain ⟨s', hs', _, hmatrices⟩ := find?_assign c hs
    rw [if_neg ha] at hmatrices
    exact ⟨hlive b hb, s', hs', hmatrices.trans hway⟩

theorem Measured.step [IsStrictOrderedRing K] {place : Placement K} {σ σ' : Viewport K}
    {e : Event K} {refs : Refs} (h : Measured place σ refs) (hwf : WellFormed σ)
    (hstep : Step σ e σ') (hsurveys : SurveysRoom place σ e) :
    Measured place σ' (refs.after σ e) := by
  have hordered : ∀ a ∈ σ.orderedScenes, (σ.scenes.find? a).isSome :=
    fun a ha => hwf.live a (hwf.ordered a ha)
  cases hstep.effect hwf with
  | registered | unregistered | refused => exact h
  | enrolled henr =>
    refine h.mono fun a b hab => ⟨hab, ?_, fun s hs => ⟨s, henr.kept a s hs, rfl⟩⟩
    obtain ⟨s, hs⟩ := Option.isSome_iff_exists.mp (h a b hab).1
    exact Option.isSome_of_eq_some (henr.kept b s hs)
  | deregistered hfind =>
    refine h.mono fun a b hab => ?_
    rw [Refs.after_deregisterClient hfind] at hab
    split_ifs at hab with hin
    obtain ⟨hold, hstay⟩ := Option.filter_eq_some_iff.mp hab
    refine ⟨hold, ?_, fun s hs => ⟨s, find?_withoutClient.mpr ⟨hin, hs⟩, rfl⟩⟩
    obtain ⟨s, hs⟩ := Option.isSome_iff_exists.mp (h a b hold).1
    exact Option.isSome_of_eq_some (find?_withoutClient.mpr ⟨by simpa using hstay, hs⟩)
  | unknown hfind =>
    rw [Refs.after, hfind]
    exact h
  | accepted =>
    refine h.related σ.related_acceptedOrder fun s s' hs => ?_
    rw [hs]
  | recalibrated =>
    rw [← hstep.after_eq, Event.call, after_bind_pure, after_calibrateScenes hordered, Refs.after]
    cases hc : σ.assignment _ _ _ _ _ with
    | none => exact h
    | some c =>
      obtain ⟨hbody, href⟩ := mem_of_assignment hc
      exact h.assign hordered hbody fun b hb => ⟨href b hb, rAndT_of_assignment hc hsurveys hb⟩
  | quiet he ht =>
    have hsame : refs.after σ e = refs := by
      cases e <;> first | rfl | exact absurd trivial he
    rw [hsame]
    exact h.related ht.scenes fun s s' hs => hs.2.2.2.2.2

/-! ## Installations -/

variable {P : Skeleton K → Prop}

/-- The states of an installation that is set up as intended, and whose
sensors report skeletons with a property.  A sensor keeps its place while
its scene lives. -/
inductive Surveyed (P : Skeleton K → Prop) : Placement K → Viewport K → Refs → Prop
  | start (place : Placement K) : Surveyed P place start fun _ => none
  | step {place : Placement K} {σ σ' : Viewport K} {refs : Refs} {e : Event K} :
    Surveyed P place σ refs → Step σ e σ' → KeepsLinks σ e → KeepsToLeft σ refs e →
      SurveysRoom place σ e → (∀ s ∈ e.reports, P s) → Surveyed P place σ' (refs.after σ e)
  | install {place place' : Placement K} {σ : Viewport K} {refs : Refs} :
    Surveyed P place σ refs → (∀ a, (σ.scenes.find? a).isSome → place' a = place a) →
      Surveyed P place' σ refs

theorem Surveyed.stateAfter {place : Placement K} {σ : Viewport K} {refs : Refs}
    (h : Surveyed P place σ refs) {events : List (Event K)} (hall : AllReturn σ events)
    (hlinks : StepsMeet KeepsLinks σ (trail σ events))
    (hleft : StepsKeepToLeft σ refs (trail σ events))
    (hsurveys : StepsMeet (SurveysRoom place) σ (trail σ events))
    (hreports : ∀ e ∈ events, ∀ s ∈ e.reports, P s) :
    ∃ refs', Surveyed P place (stateAfter σ events) refs' := by
  induction events generalizing σ refs with
  | nil => exact ⟨refs, h⟩
  | cons e rest ih =>
    obtain ⟨u, hu⟩ := Option.isSome_iff_exists.mp hall.1
    rw [List.forall_mem_cons] at hreports
    exact ih (h.step (Or.inl (run_eq_ok_of_value? hu)) hlinks.1 hleft.1 hsurveys.1 hreports.1)
      hall.2 hlinks.2 hleft.2 hsurveys.2 hreports.2

/-- What holds in such a state. -/
structure SetUp (P : Skeleton K → Prop) (place : Placement K) (σ : Viewport K) (refs : Refs) :
    Prop where
  wellFormed : WellFormed σ
  linked : Linked σ
  known : Known σ refs
  toLeft : ToLeft σ refs
  measured : Measured place σ refs
  origins : Origins P σ

theorem Surveyed.setUp [IsStrictOrderedRing K] {place : Placement K} {σ : Viewport K}
    {refs : Refs} (h : Surveyed P place σ refs) : SetUp P place σ refs := by
  induction h with
  | start place =>
    exact ⟨wellFormed_start, linked_of_nil rfl, (fun _ _ href => nomatch href),
      (fun _ _ _ _ hb => nomatch hb), (fun _ _ href => nomatch href), origins_start⟩
  | step _ hstep hlinks hleft hsurveys hreports ih =>
    obtain ⟨hwf, hlinked, hknown, htoLeft, hmeasured, horigins⟩ := ih
    exact ⟨hwf.step hstep, (linked_step_iff hwf hlinked hstep).mpr hlinks,
      hknown.step hwf hstep, (toLeft_step_iff htoLeft hwf hknown hstep).mpr hleft,
      hmeasured.step hwf hstep hsurveys, horigins.step hwf hstep hreports⟩
  | install _ hplace ih =>
    exact { ih with measured := ih.measured.place_congr hplace }

omit [LinearOrder K] in
/-- The calibrated scenes of an installation form the chain of their
places. -/
theorem SetUp.calibratedChain {place : Placement K} {σ : Viewport K} {refs : Refs}
    (h : SetUp P place σ refs) (hcal : ∀ a ∈ σ.orderedScenes, σ.isCalibrated a) :
    CalibratedChain σ.scenes σ.orderedScenes (Pose.chain (σ.orderedScenes.map place)) := by
  refine ⟨by rw [Pose.length_chain, List.length_map], fun i a ha => ?_⟩
  obtain ⟨s, hs, hleft, _⟩ := h.linked i a ha
  have hflag : s.calibrated = true := by
    rw [← isCalibrated_of_find? hs]
    exact hcal a (List.mem_of_getElem? ha)
  refine ⟨s, hs, hflag, hleft, fun hi => ?_⟩
  obtain ⟨i, rfl⟩ := Nat.exists_eq_succ_of_ne_zero hi.ne'
  have hlt : i < σ.orderedScenes.length := by
    have := (List.getElem?_eq_some_iff.mp ha).1
    omega
  have hb : σ.orderedScenes[i]? = some σ.orderedScenes[i] := List.getElem?_eq_getElem hlt
  obtain ⟨_, t, ht, hway⟩ := h.measured _ _ (h.toLeft i _ a s hb ha hs hflag).2
  obtain rfl := Option.some.inj (hs.symm.trans ht)
  rw [hway, Nat.succ_sub_one]
  refine (Pose.getElem?_chain ?_ ?_).symm
  · rw [List.getElem?_map, hb]
    rfl
  · rw [List.getElem?_map, ha]
    rfl

/-! ## The view -/

theorem run_getGlobalScene {rand : Nat → Nat} {now : Int} {σ : Viewport K}
    (hne : σ.orderedScenes ≠ []) (hready : AllReady σ.scenes σ.orderedScenes.reverse) :
    (getGlobalScene rand now).run σ = .ok true (σ.merged rand now) := by
  rw [getGlobalScene]
  simp only [EStateM.run_bind, EStateM.run_get, ne_eq, List.length_eq_zero_iff, hne,
    not_false_eq_true, if_true, run_zoom, run_mergeScenes hready]
  rfl

/-- Every entry of the global scene has been published in a round. -/
theorem exists_visit_of_mem_globalScene {rand : Nat → Nat} {now : Int} {σ : Viewport K}
    {shown : Skeleton K} (h : shown ∈ (σ.merged rand now).globalScene.skeletons.values) :
    ∃ visit ∈ σ.visits rand, ∃ u ∈ visit.updates, u.skeleton = shown := by
  rw [skeletons_globalScene_merged] at h
  obtain ⟨e, he, rfl⟩ := List.mem_map.mp h
  obtain ⟨u, hu, rfl⟩ := List.mem_map.mp (OrdMap.mem_placeAll he)
  obtain ⟨visit, hvisit, hu⟩ := List.mem_flatMap.mp hu
  exact ⟨visit, hvisit, u, hu, rfl⟩

/-- What a round publishes is a skeleton of its scene, and read from the
first place it lies where the scene sees it. -/
theorem SetUp.exists_source {place : Placement K} {σ : Viewport K} {refs : Refs}
    (h : SetUp P place σ refs) (hcal : ∀ a ∈ σ.orderedScenes, σ.isCalibrated a)
    (haligned : Frame.Aligned (Pose.chain (σ.orderedScenes.map place))) {first : Addr}
    (hfirst : σ.orderedScenes[0]? = some first) {rand : Nat → Nat} {visit : Visit K}
    (hvisit : visit ∈ σ.visits rand) {u : Publication K} (hu : u ∈ visit.updates) :
    visit.scene ∈ σ.orderedScenes ∧ ∃ s, σ.scenes.find? visit.scene = some s ∧
      ∃ body ∈ s.skeletons.values, body.SameDetails u.skeleton ∧
        u.skeleton.points.map (place first).apply =
          body.points.map (place visit.scene).apply := by
  have hchain := h.calibratedChain hcal
  obtain ⟨i, scene, hstems⟩ := stemsFrom_of_mem_visits hchain.leftLinked hvisit hu
  refine ⟨List.mem_of_getElem? hstems.ordered, scene, hstems.live, u.source.2,
    List.mem_map_of_mem hstems.before, hstems.details, ?_⟩
  -- the accumulated frame is the composed one, and this leads to the first place
  have hcompose := Frame.accumulate_eq_compose_iff.mpr haligned _
    (List.take_prefix i (Pose.chain (σ.orderedScenes.map place)))
  rw [points_of_visit hchain hstems.ordered hvisit hu, hcompose, List.map_map]
  refine List.map_congr_left fun p _ => ?_
  refine Pose.apply_compose_chain ?_ ?_ p
  · rw [List.getElem?_map, hfirst]
    rfl
  · rw [List.getElem?_map, hstems.ordered]
    rfl

theorem SetUp.run_getGlobalScene {place : Placement K} {σ : Viewport K} {refs : Refs}
    (h : SetUp P place σ refs) (hcal : ∀ a ∈ σ.orderedScenes, σ.isCalibrated a) {first : Addr}
    (hfirst : σ.orderedScenes[0]? = some first) (rand : Nat → Nat) (now : Int) :
    (getGlobalScene rand now).run σ = .ok true (σ.merged rand now) := by
  refine MinorityViewport.run_getGlobalScene (fun hnil => ?_) (h.calibratedChain hcal).allReady
  rw [hnil] at hfirst
  cases hfirst

/-- In an installation whose ordered scenes are all calibrated and whose
places are aligned, a look at the global scene returns, and shows only
skeletons that a sensor sees now, each where it sees it. -/
theorem globalScene_of_surveyed [IsStrictOrderedRing K] {place : Placement K} {σ : Viewport K}
    {refs : Refs} (h : Surveyed P place σ refs) (hcal : ∀ a ∈ σ.orderedScenes, σ.isCalibrated a)
    (haligned : Frame.Aligned (Pose.chain (σ.orderedScenes.map place))) {first : Addr}
    (hfirst : σ.orderedScenes[0]? = some first) (rand : Nat → Nat) (now : Int) :
    ∃ σ', (getGlobalScene rand now).run σ = .ok true σ' ∧
      ∀ shown ∈ σ'.globalScene.skeletons.values,
        ∃ a ∈ σ.orderedScenes, ∃ s, σ.scenes.find? a = some s ∧
          ∃ body ∈ s.skeletons.values, body.SameDetails shown ∧
            shown.points.map (place first).apply = body.points.map (place a).apply := by
  refine ⟨_, h.setUp.run_getGlobalScene hcal hfirst rand now, fun shown hshown => ?_⟩
  obtain ⟨visit, hvisit, u, hu, rfl⟩ := exists_visit_of_mem_globalScene hshown
  obtain ⟨hmem, hsource⟩ := h.setUp.exists_source hcal haligned hfirst hvisit hu
  exact ⟨visit.scene, hmem, hsource⟩

/-! ## Two sensors, one above the other -/

/-- The second sensor is two steps above the first. -/
def above : Placement ℚ := fun a =>
  ⟨⟨1, if a = 2 then ![0, 0, 2] else 0⟩, by rw [Matrix.transpose_one, Matrix.one_mul]⟩

/-- A person at the height that is given, as a sensor sees it. -/
def personAt (sensorId height : String) : Str :=
  ("\x7b\"TIME_STAMP\":1,\"SENSOR_JSON\":[\x7b\"client_id\":1,\"sensor_id\":\"" ++ sensorId ++
    "\",\"pos_z\":" ++ height ++ "\x7d]\x7d").toList

/-- The sensors are registered, both see a person, and they are ordered. -/
def arranged : List (Event ℚ) :=
  [.registerClient [0] [] [], .registerSensors .next 1
      "\x7b\"Sensors\":[\x7b\"id\":\"a\"\x7d,\x7b\"id\":\"b\"\x7d]\x7d".toList,
    .processSensorData (fun _ => 5) (personAt "a" "0"),
    .processSensorData (fun _ => 6) (personAt "b" "-2"), .calibrateSceneOrder]

/-- Both have seen the corners of one tetrahedron. -/
def tetrahedronCaptured : Event ℚ :=
  .calibrateScenes (tetrahedronSvd 1) 1 (tetrahedron "3" "1") 2 (tetrahedron "1" "-1")

def installed : Viewport ℚ := after tetrahedronCaptured.call (stateAfter start arranged)

theorem tetrahedronOperands_above : ∃ m, tetrahedronOperands "3" "1" = .ok (some m) ∧
    IsTetrahedron 1 m ∧ ∀ i, m.refPoints i = m.bodyPoints i + ![0, 0, 2] :=
  exists_of_any (by decide +kernel)

theorem surveys_tetrahedronCaptured {σ : Viewport ℚ} (hordered : σ.orderedScenes = [1, 2]) :
    SurveysRoom above σ tetrahedronCaptured := by
  intro m body ref hm hbody href
  obtain ⟨m', hm', htetra, hsame⟩ := tetrahedronOperands_above
  obtain rfl : m = m' := Option.some.inj (Except.ok.inj (hm.symm.trans hm'))
  rw [htetra.2.2.2.2, sceneAt, hordered] at hbody
  rw [htetra.2.2.2.1, sceneAt, hordered] at href
  obtain rfl := Except.ok.inj hbody
  obtain rfl := Except.ok.inj href
  refine ⟨tetrahedronSvd_decomposes (by norm_num) htetra.1, fun i => ?_, ?_⟩
  · rw [hsame]
    simp [above, Frame.apply]
  · rw [htetra.1, Matrix.det_diagonal, Fin.prod_univ_three]
    show (4 * 4 * (4 * 1) : ℚ) ≠ 0
    norm_num

theorem arranged_spec : AllReturn start arranged ∧
    StepsMeet KeepsLinks start (trail start arranged) ∧
    StepsKeepToLeft start (fun _ => none) (trail start arranged) ∧
      (stateAfter start arranged).orderedScenes = [1, 2] := by
  decide +kernel

theorem clients_installed : installed.clients = (stateAfter start arranged).clients := by
  rw [installed, tetrahedronCaptured, Event.call, after_bind_pure]
  exact (moves_calibrateScenes _ _ _ _ _ (stateAfter start arranged)).clients

theorem surveyed_installed {P : Skeleton ℚ → Prop}
    (hreports : ∀ e ∈ arranged, ∀ s ∈ e.reports, P s) :
    (∃ refs, Surveyed P above installed refs) ∧ installed.orderedScenes = [1, 2] ∧
      ∀ a ∈ [1, 2], installed.isCalibrated a := by
  obtain ⟨hall, hlinks, hleft, hordered⟩ := arranged_spec
  obtain ⟨refs, h⟩ := (Surveyed.start above).stateAfter hall hlinks hleft
    ⟨trivial, trivial, trivial, trivial, trivial, trivial⟩ hreports
  obtain ⟨hreturns, hleft, hinstalled⟩ :
      (value? tetrahedronCaptured.call (stateAfter start arranged)).isSome ∧
        KeepsToLeft (stateAfter start arranged) (fun _ => none) tetrahedronCaptured ∧
          installed.orderedScenes = [1, 2] ∧ ∀ a ∈ [1, 2], installed.isCalibrated a := by
    decide +kernel
  obtain ⟨u, hu⟩ := Option.isSome_iff_exists.mp hreturns
  exact ⟨⟨_, h.step (Or.inl (run_eq_ok_of_value? hu)) trivial hleft
    (surveys_tetrahedronCaptured hordered) fun s hs => absurd hs List.not_mem_nil⟩, hinstalled⟩

/-- Both sensors look in the same direction. -/
theorem globalScene_of_surveyed_installed :
    ∃ σ', (getGlobalScene (fun _ => 7) 9).run installed = .ok true σ' ∧
      ∀ shown ∈ σ'.globalScene.skeletons.values,
        ∃ a ∈ installed.orderedScenes, ∃ s, installed.scenes.find? a = some s ∧
          ∃ body ∈ s.skeletons.values, body.SameDetails shown ∧
            shown.points.map (above 1).apply = body.points.map (above a).apply := by
  have hreports : ∀ e ∈ arranged, ∀ s ∈ e.reports, True := fun _ _ _ _ => trivial
  obtain ⟨⟨refs, h⟩, hordered, hcal⟩ := surveyed_installed hreports
  refine globalScene_of_surveyed h (hordered ▸ hcal) ?_ (by rw [hordered]; rfl) _ _
  refine Pose.aligned_chain_of_parallel fun P hP Q hQ => ?_
  obtain ⟨a, _, rfl⟩ := List.mem_map.mp hP
  obtain ⟨b, _, rfl⟩ := List.mem_map.mp hQ
  rfl

end MinorityViewport
