import MinorityViewport.Algorithms.MergeKeys

/-!
# Where the entries of the global scene come from

A merge clears the global scene and fills it with copies of skeletons that
it has transformed.  `Skeleton.SameDetails` is what a copy keeps, and
`StemsFrom` says which skeleton of which scene an entry is a copy of, where
the transformation has taken it, and what a mark as shared tells.

* `combine_congr` takes the accumulated matrices of a round to the heap
  before the merge, because no round changes a link or a matrix.
* `mergeScenes_inventsNothing` collects what holds of every entry.
-/

namespace MinorityViewport

open Exec Viewport

variable {K : Type}

/-! ## What a copy keeps -/

/-- All but the points and the mark as shared. -/
structure Skeleton.SameDetails (s s' : Skeleton K) : Prop where
  clientId : s'.clientId = s.clientId
  sensorId : s'.sensorId = s.sensorId
  skeletonId : s'.skeletonId = s.skeletonId
  timeStamp : s'.timeStamp = s.timeStamp
  trackingMode : s'.trackingMode = s.trackingMode
  joints : s'.joints.map (fun j => (j.type, j.trackingMode)) =
    s.joints.map fun j => (j.type, j.trackingMode)

namespace Skeleton

theorem sameDetails_unsetShared (s : Skeleton K) : s.SameDetails s.unsetShared :=
  ⟨rfl, rfl, rfl, rfl, rfl, rfl⟩

theorem sameDetails_setShared (s : Skeleton K) : s.SameDetails s.setShared :=
  ⟨rfl, rfl, rfl, rfl, rfl, rfl⟩

theorem SameDetails.mapPoints {s s' : Skeleton K} (h : s.SameDetails s')
    (f : (Fin 3 → K) → (Fin 3 → K)) : s.SameDetails (s'.mapPoints f) := by
  refine ⟨h.clientId, h.sensorId, h.skeletonId, h.timeStamp, h.trackingMode, ?_⟩
  rw [← h.joints, Skeleton.mapPoints, List.map_map]
  rfl

end Skeleton

variable [Field K] [LinearOrder K]

/-! ## The accumulated matrices before the merge -/

omit [LinearOrder K] in
theorem combineStep_congr {scenes scenes' : Heap K}
    (h : Heap.Related Scene.SameFrame scenes scenes') (combi : DynMat K × DynMat K)
    (a : Addr) : combineStep scenes' combi a = combineStep scenes combi a := by
  rw [combineStep, combineStep]
  cases hs : scenes.find? a with
  | none =>
    have hnone : scenes'.find? a = none := by
      have := h.isSome a
      rwa [hs, Option.isSome_none, Option.isSome_eq_false_iff, Option.isNone_iff_eq_none] at this
    rw [Heap.deref, Heap.deref, hs, hnone]
  | some s =>
    obtain ⟨s', hs', _, _, _, hleft, _, hframe⟩ := h.find? hs
    rw [Heap.deref_eq_ok_iff.mpr hs, Heap.deref_eq_ok_iff.mpr hs', ok_bind, ok_bind,
      Scene.getLeftFrame, Scene.getLeftFrame, Scene.getRMatrix, Scene.getRMatrix,
      Scene.getTMatrix, Scene.getTMatrix, hleft, hframe]

omit [LinearOrder K] in
/-- The accumulation does not look at the skeletons. -/
theorem combine_congr {scenes scenes' : Heap K}
    (h : Heap.Related Scene.SameFrame scenes scenes') (toLeftEnd : List Addr) :
    combine scenes' toLeftEnd = combine scenes toLeftEnd := by
  rw [combine, combine]
  refine congrArg (fun step => toLeftEnd.foldlM step _) ?_
  funext combi a
  exact combineStep_congr h combi a

/-! ## The source of an entry -/

/-- `shown` is what the merge makes of `body`, a skeleton in the snapshot of
the calibrated scene `scene` at index `i` of the order. -/
structure StemsFrom (σ : Viewport K) (visit : Visit K) (i : Nat) (scene : Scene K)
    (body : Nat × Skeleton K) (shown : Skeleton K) : Prop where
  ordered : σ.orderedScenes[i]? = some visit.scene
  live : σ.scenes.find? visit.scene = some scene
  calibrated : scene.calibrated = true
  snapshot : body ∈ visit.view.people.entries
  before : body ∈ scene.skeletons.entries
  details : body.2.SameDetails shown
  first : i = 0 → shown.points = body.2.points
  moved : i ≠ 0 → ∃ combi,
    combine σ.scenes (σ.orderedScenes.take (i + 1)).reverse = .ok combi ∧
      shown.points = body.2.points.map (frameOf combi.1 combi.2).apply
  shared : shown.shared = true → ∃ l left F ref,
    prevOf σ.orderedScenes i = some l ∧ σ.scenes.find? l = some left ∧
      scene.rAndT = some F ∧ ref ∈ left.skeletons.entries ∧
        deemedSame ref.2 (body.2.mapPoints F.apply)

/-- What a removal keeps: the links and the matrices, and it adds nobody. -/
def Shrinks (s s' : Scene K) : Prop :=
  Scene.SameFrame s s' ∧ ∀ e ∈ s'.skeletons.entries, e ∈ s.skeletons.entries

instance : IsPreorder (Scene K) Shrinks where
  refl s := ⟨.refl s, fun _ he => he⟩
  trans _ _ _ h h' := ⟨h.1.trans h'.1, fun e he => h.2 e (h'.2 e he)⟩

omit [Field K] [LinearOrder K] in
theorem shrinks_remove (s : Scene K) (key : Nat) : Shrinks s (s.remove key) :=
  ⟨s.sameFrame_remove key, fun _ he => List.mem_of_mem_filter he⟩

theorem sameDetails_of_shown {v : View K} {body s : Skeleton K} (h : v.shown body = some s) :
    body.SameDetails s := by
  rcases View.shown_cases h with ⟨_, heq⟩ | ⟨_, _, _, _, heq⟩ | ⟨_, _, _, _, _, _, heq⟩
  · exact heq ▸ body.sameDetails_unsetShared
  · exact heq ▸ body.sameDetails_unsetShared.mapPoints _
  · exact heq ▸ body.sameDetails_setShared.mapPoints _

theorem stemsFrom_of_mem_visits {rand : Nat → Nat} {σ : Viewport K}
    (hlinked : LeftLinked σ.scenes σ.orderedScenes) {visit : Visit K}
    (hvisit : visit ∈ σ.visits rand) {u : Publication K} (hu : u ∈ visit.updates) :
    ∃ i scene, StemsFrom σ visit i scene u.source u.skeleton := by
  obtain ⟨pre, rest, scenes', key, hsplit, hrel, hview, hup⟩ :=
    exists_round_of_mem_plan (R := Shrinks) shrinks_remove hvisit
  obtain ⟨hget, htake⟩ := reverse_eq_append_cons hsplit
  obtain ⟨scene', o, combi, hscene', hcal, hleft, hcombi, hpeople, hcR, hcT, hR, hT, hnone,
    hsome⟩ := readView_eq_some hview
  obtain ⟨scene, hscene, hshrinks⟩ := hrel.find?_back hscene'
  rw [hup] at hu
  obtain ⟨hbody, _, hshown⟩ := mem_publications hu
  -- the left link of the scene names the scene before it
  obtain ⟨s, hs, hprev⟩ := hlinked rest.length visit.scene hget
  obtain rfl := Option.some.inj (hscene.symm.trans hs)
  have ho : o = prevOf σ.orderedScenes rest.length :=
    Link.ofOption_inj (hleft.symm.trans (hshrinks.1.2.2.2.1.trans hprev))
  have hlt : rest.length < σ.orderedScenes.length := (List.getElem?_eq_some_iff.mp hget).1
  have hfirst : rest.length = 0 ↔ visit.view.left = none := by
    rw [← prevOf_eq_none_iff hlt, ← ho]
    cases o with
    | none => exact iff_of_true rfl (hnone rfl)
    | some l =>
      obtain ⟨left, _, hl⟩ := hsome l rfl
      exact iff_of_false (fun h => by cases h) fun h => by rw [hl] at h; cases h
  refine ⟨rest.length, scene, hget, hscene, hshrinks.1.2.2.1 ▸ hcal, hbody,
    hshrinks.2 _ (hpeople ▸ hbody), sameDetails_of_shown hshown, fun hi => ?_,
    fun hi => ⟨combi, ?_, ?_⟩, fun hshared => ?_⟩
  · rw [View.shown, hfirst.mp hi] at hshown
    rw [← Option.some.inj hshown]
    rfl
  · rw [← htake, ← combine_congr (hrel.mono fun _ _ h => h.1), hcombi]
  · rw [points_shown (fun h => absurd (hfirst.mpr h) hi) hshown, View.combi, hcR, hcT]
  · obtain ⟨l, left, ref, hvl, href⟩ := View.exists_partner_of_shared hshown hshared
    obtain ⟨hF, _⟩ := rAndT_of_readView hview (by rw [hvl]; simp) hscene'
    obtain ⟨hlink, left', hfind', rfl⟩ := left_of_readView hview hvl
    obtain ⟨left, hfind, hsub⟩ := hrel.find?_back hfind'
    have hl : prevOf σ.orderedScenes rest.length = some l :=
      Link.ofOption_inj ((hshrinks.1.2.2.2.1.trans hprev).symm.trans (hlink scene' hscene'))
    exact ⟨l, left, visit.view.own, ref, hl, hfind, hshrinks.1.2.2.2.2.2 ▸ hF,
      hsub.2 _ (View.partner_eq_some href).1, (View.partner_eq_some href).2⟩

/-! ## All entries of the global scene -/

/-- The merge returns, the global scene has at most three entries, each
entry stems from a skeleton of a calibrated scene, and the entries do not
depend on what was in the global scene. -/
def InventsNothing (rand : Nat → Nat) (now : Int) (σ : Viewport K) : Prop :=
  ∃ σ' visits, (mergeScenes rand now).run (σ, []) = .ok ⟨⟩ (σ', visits) ∧
    σ'.globalScene.skeletons.size ≤ 3 ∧
    (∀ shown ∈ σ'.globalScene.skeletons.values,
      ∃ visit ∈ visits, ∃ i scene body, StemsFrom σ visit i scene body shown) ∧
    ∀ previous, (after (mergeScenes rand now)
      ({ σ with globalScene := previous }, [])).1.globalScene.skeletons =
        σ'.globalScene.skeletons

theorem skeletons_globalScene_merged (rand : Nat → Nat) (now : Int) (σ : Viewport K) :
    (σ.merged rand now).globalScene.skeletons =
      OrdMap.empty.placeAll 3
        (((σ.visits rand).flatMap (·.updates)).map fun u => (u.key, u.skeleton)) :=
  Scene.skeletons_updateAll now σ.globalScene.manualClear _

/-- A merge of linked scenes that have their matrices invents nothing. -/
theorem mergeScenes_inventsNothing (rand : Nat → Nat) (now : Int) {σ : Viewport K}
    (hlinked : LeftLinked σ.scenes σ.orderedScenes)
    (hframes : ∀ a ∈ σ.orderedScenes, ∀ s, σ.scenes.find? a = some s →
      s.left ≠ .null → s.rAndT.isSome) :
    InventsNothing rand now σ := by
  refine ⟨_, _, run_mergeScenes (hlinked.allReady hframes), ?_, fun shown hmem => ?_,
    fun previous => ?_⟩
  · rw [skeletons_globalScene_merged]
    exact OrdMap.size_placeAll_le_cap _
  · rw [skeletons_globalScene_merged] at hmem
    obtain ⟨e, he, rfl⟩ := List.mem_map.mp hmem
    obtain ⟨u, hu, rfl⟩ := List.mem_map.mp (OrdMap.mem_placeAll he)
    obtain ⟨visit, hvisit, hu⟩ := List.mem_flatMap.mp hu
    obtain ⟨i, scene, hstems⟩ := stemsFrom_of_mem_visits hlinked hvisit hu
    exact ⟨visit, List.mem_reverse.mpr hvisit, i, scene, u.source, hstems⟩
  · rw [after_mergeScenes, skeletons_globalScene_merged, skeletons_globalScene_merged]
    rfl

/-- Three calibrated sensors, one of which sees a person. -/
theorem mergeScenes_inventsNothing_threeSensors : InventsNothing (fun _ => 7) 5 threeSensors :=
  mergeScenes_inventsNothing _ _ (calibratedChain_chainViewport turnThenStep 2 _).leftLinked
    (calibratedChain_chainViewport turnThenStep 2 _).rAndT_isSome

end MinorityViewport
