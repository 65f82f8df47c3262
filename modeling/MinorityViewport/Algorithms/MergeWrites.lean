import MinorityViewport.Algorithms.MergeCoverage
import MinorityViewport.Algorithms.MergeKeys

/-!
# What a merge writes to the scenes

A request for the global scene is meant to read the scenes of the sensors.
The merge works on copies of their skeletons, with one exception: where a
skeleton coincides with one on the left, the one on the left is removed from
the live scene.

`ReadOnly` is the property that nobody notices a request.  The first removal
of a walk always takes a skeleton away, because its round sees the scenes as
they were.  So `Unclaimed`, which is about the scenes before the walk, is
the exact condition, and `getGlobalScene_readOnly_iff` says this.
-/

namespace MinorityViewport

open Exec Viewport

variable {K : Type} [Field K] [LinearOrder K]

/-! ## Removals -/

omit [Field K] [LinearOrder K] in
/-- What is removed stays away while other skeletons are removed. -/
theorem notMem_keys_of_mem_removals {scenes : Heap K} {removals : List (Addr × Nat)}
    {r : Addr × Nat} (hr : r ∈ removals) {s : Scene K}
    (hs : (scenes.writeAll (removalWrites removals)).find? r.1 = some s) :
    r.2 ∉ s.skeletons.keys := by
  have hkeys : ∀ (t : Scene K) (k : Nat), r.2 ∈ (t.remove k).skeletons.keys ↔
      r.2 ∈ t.skeletons.keys ∧ r.2 ≠ k := by
    intro t k
    rw [Scene.remove, ← OrdMap.isSome_find?_iff, ← OrdMap.isSome_find?_iff, OrdMap.find?_erase]
    split_ifs with hk <;> simp [hk]
  obtain ⟨before, behind, rfl⟩ := List.append_of_mem hr
  rw [removalWrites, List.map_append, List.map_cons, Heap.writeAll_append] at hs
  set mid := scenes.writeAll (before.map fun r => (r.1, (·.remove r.2))) with hmid
  change ((mid.modifyAt r.1 (·.remove r.2)).writeAll (removalWrites behind)).find? r.1 = _ at hs
  have hbehind : ∀ w ∈ removalWrites behind, ∀ t : Scene K,
      r.2 ∉ t.skeletons.keys → r.2 ∉ (w.2 t).skeletons.keys := by
    intro w hw t ht hk
    obtain ⟨q, _, rfl⟩ := List.mem_map.mp hw
    exact ht ((hkeys t q.2).mp hk).1
  have hrel := Heap.related_writeAll
    (R := fun t t' : Scene K => r.2 ∉ t.skeletons.keys → r.2 ∉ t'.skeletons.keys)
    (fun _ h => h) (fun _ _ _ h h' hk => h' (h hk)) hbehind (mid.modifyAt r.1 (·.remove r.2))
  obtain ⟨t, ht, hgone⟩ := hrel.find?_back hs
  refine hgone fun hk => ?_
  rw [Heap.find?_modifyAt, if_pos rfl, Option.map_eq_some_iff] at ht
  obtain ⟨u, _, rfl⟩ := ht
  exact ((hkeys u r.2).mp hk).2 rfl

/-! ## Claims -/

omit [Field K] [LinearOrder K] in
/-- The scene that the left link of a scene names. -/
def Heap.leftOf (scenes : Heap K) (s : Scene K) : Option (Scene K) :=
  match s.left with
  | .scene l => scenes.find? l
  | _ => none

/-- A round removes what its scene claims on the left. -/
theorem removals_of_readView {scenes : Heap K} {a : Addr} {toLeftEnd : List Addr} {v : View K}
    (hview : readView scenes a toLeftEnd = .ok (some v)) :
    ∃ s, scenes.find? a = some s ∧
      (v.removals = [] ↔ s.claims (scenes.leftOf s) = []) ∧
        ∀ r ∈ v.removals, ∃ left, scenes.find? r.1 = some left ∧ r.2 ∈ left.skeletons.keys := by
  obtain ⟨s, o, combi, hs, hcal, hleft, hcombi, hpeople, _, _, hR, hT, hnone, hl⟩ :=
    readView_eq_some hview
  refine ⟨s, hs, ?_⟩
  cases o with
  | none =>
    have hleftOf : scenes.leftOf s = none := by
      rw [Heap.leftOf, hleft]
      rfl
    rw [View.removals, hnone rfl, Scene.claims, hleftOf]
    simp
  | some l =>
    obtain ⟨left, hfind, hvl⟩ := hl l rfl
    obtain ⟨hown, _⟩ := rAndT_of_readView hview (by rw [hvl]; simp) hs
    have hleftOf : scenes.leftOf s = some left := by
      rw [Heap.leftOf, hleft]
      exact hfind
    have hpartner : v.partner left.skeletons = s.partnerIn left := by
      funext body
      rw [View.partner, Scene.partnerIn, hown]
      rfl
    rw [View.removals_eq_claims hvl hpartner hcal hpeople, hleftOf, List.map_eq_nil_iff]
    refine ⟨Iff.rfl, fun r hr => ?_⟩
    obtain ⟨k, hk, rfl⟩ := List.mem_map.mp hr
    rw [Scene.claims, if_pos hcal] at hk
    obtain ⟨body, _, hsome⟩ := List.mem_filterMap.mp hk
    obtain ⟨ref, href, rfl⟩ := Option.map_eq_some_iff.mp hsome
    exact ⟨left, hfind, List.mem_map_of_mem (List.mem_of_find?_eq_some href)⟩

/-- As far as the walk comes, no calibrated scene claims a skeleton of the
scene that its left link names. -/
def Unclaimed (scenes : Heap K) : List Addr → Prop
  | [] => True
  | a :: toLeftEnd => Ready scenes a toLeftEnd →
      (∀ s, scenes.find? a = some s → s.claims (scenes.leftOf s) = []) ∧
        Unclaimed scenes toLeftEnd

/-- Either the walk removes nothing, or it removes a skeleton that was there
before. -/
theorem removals_plan (rand : Nat → Nat) (toLeftEnd : List Addr) :
    ∀ (drawn : Nat) (scenes : Heap K),
      let removals := (plan rand drawn scenes toLeftEnd).flatMap (·.view.removals)
      (Unclaimed scenes toLeftEnd ∧ removals = []) ∨
        ¬ Unclaimed scenes toLeftEnd ∧ ∃ r ∈ removals, ∃ s,
          scenes.find? r.1 = some s ∧ r.2 ∈ s.skeletons.keys := by
  induction toLeftEnd with
  | nil => exact fun drawn scenes => Or.inl ⟨trivial, rfl⟩
  | cons a rest ih =>
    intro drawn scenes
    rw [plan, Unclaimed, ← readView_isOk_iff]
    cases hview : readView scenes a rest with
    | error e => exact Or.inl ⟨fun h => absurd h (not_isOk_error e), rfl⟩
    | ok view =>
      cases view with
      | none =>
        obtain ⟨s, hs, hcal⟩ := readView_eq_none_iff.mp hview
        have hclaims : ∀ t, scenes.find? a = some t → t.claims (scenes.leftOf t) = [] := by
          intro t ht
          obtain rfl := Option.some.inj (hs.symm.trans ht)
          rw [Scene.claims, hcal]
          rfl
        simp only [isOk_ok, true_implies, and_iff_right hclaims]
        exact ih drawn scenes
      | some v =>
        obtain ⟨s, hs, hiff, hthere⟩ := removals_of_readView hview
        simp only [isOk_ok, true_implies, hs, Option.some.injEq, forall_eq', List.flatMap_cons]
        by_cases hremovals : v.removals = []
        · have hleave : v.leave scenes = scenes := by
            rw [View.leave, hremovals]
            rfl
          rw [and_iff_right (hiff.mp hremovals), hremovals, hleave, List.nil_append]
          exact ih (drawn + 1) scenes
        · refine Or.inr ⟨fun h => hremovals (hiff.mpr h.1), ?_⟩
          obtain ⟨r, hr⟩ := List.exists_mem_of_ne_nil _ hremovals
          exact ⟨r, List.mem_append_left _ hr, hthere r hr⟩

/-! ## Requests for the global scene -/

theorem after_getGlobalScene (rand : Nat → Nat) (now : Int) (σ : Viewport K) :
    after (getGlobalScene rand now) σ =
      if σ.orderedScenes = [] then σ else σ.merged rand now := by
  rw [getGlobalScene, after_get_bind]
  by_cases hnil : σ.orderedScenes = []
  · rw [if_neg (by simp [hnil]), if_pos hnil]
    rfl
  · rw [if_pos (by simpa using hnil), if_neg hnil, after_bind_pure, after_zoom, after_mergeScenes]

/-- What a request for a single sensor reads. -/
def Viewport.localScene (σ : Viewport K) (sensorId : Str) : Option (Scene K) :=
  (σ.getLocalSceneBySensorId sensorId).bind σ.scenes.find?

/-- A request for the global scene leaves the skeletons of every scene, a
second one with the same draws publishes the same, and a request for a
single sensor does not notice it. -/
structure ReadOnly (rand : Nat → Nat) (now : Int) (σ : Viewport K) : Prop where
  scenes : ∀ a, ((after (getGlobalScene rand now) σ).scenes.find? a).map Scene.skeletons =
    (σ.scenes.find? a).map Scene.skeletons
  again : ∀ now', (after (getGlobalScene rand now')
      (after (getGlobalScene rand now) σ)).globalScene.skeletons =
    (after (getGlobalScene rand now) σ).globalScene.skeletons
  locally : ∀ sensorId, (after (getGlobalScene rand now) σ).localScene sensorId =
    σ.localScene sensorId

/-- A merge that removes nothing changes only the global scene. -/
theorem merged_of_removals_eq_nil {rand : Nat → Nat} {σ : Viewport K}
    (h : (σ.visits rand).flatMap (·.view.removals) = []) (now : Int) :
    σ.merged rand now = { σ with
      globalScene := σ.globalScene.manualClear.updateAll now
        ((σ.visits rand).flatMap (·.updates)) } := by
  rw [merged, emit, h]
  rfl

theorem readOnly_of_removals_eq_nil {rand : Nat → Nat} {σ : Viewport K} (now : Int)
    (h : (σ.visits rand).flatMap (·.view.removals) = []) : ReadOnly rand now σ := by
  by_cases hnil : σ.orderedScenes = []
  · have hafter : ∀ now, after (getGlobalScene rand now) σ = σ := fun now => by
      rw [after_getGlobalScene, if_pos hnil]
    exact ⟨fun a => by rw [hafter], fun now' => by rw [hafter, hafter],
      fun sensorId => by rw [hafter]⟩
  · have hafter : after (getGlobalScene rand now) σ = σ.merged rand now := by
      rw [after_getGlobalScene, if_neg hnil]
    rw [merged_of_removals_eq_nil h] at hafter
    refine ⟨fun a => by rw [hafter], fun now' => ?_, fun sensorId => by rw [hafter]; rfl⟩
    -- the second walk sees the scenes of the first one
    rw [hafter, after_getGlobalScene, if_neg hnil, merged_of_removals_eq_nil (by exact h)]
    simp only [Scene.skeletons_updateAll]
    rfl

/-- A request for the global scene goes unnoticed exactly when no calibrated
scene that it comes to claims a skeleton on its left. -/
theorem getGlobalScene_readOnly_iff (rand : Nat → Nat) (now : Int) (σ : Viewport K) :
    ReadOnly rand now σ ↔ Unclaimed σ.scenes σ.orderedScenes.reverse := by
  rcases removals_plan rand σ.orderedScenes.reverse 0 σ.scenes with
    ⟨hfree, hnone⟩ | ⟨hclaimed, r, hr, s, hs, hkey⟩
  · exact iff_of_true (readOnly_of_removals_eq_nil now hnone) hfree
  · refine iff_of_false (fun h => ?_) hclaimed
    have hne : σ.orderedScenes ≠ [] := by
      intro hnil
      rw [hnil] at hr
      cases hr
    have hscenes := h.scenes r.1
    rw [after_getGlobalScene, if_neg hne, hs] at hscenes
    obtain ⟨s', hs', hsame⟩ := Option.map_eq_some_iff.mp hscenes
    refine notMem_keys_of_mem_removals hr hs' ?_
    rw [hsame]
    exact hkey

/-- Two sensors see the same person, and the request takes the person away
from the scene of the first one. -/
theorem not_readOnly_samePlace : ¬ ReadOnly (fun _ => 0) 0 (sideBySide 0 0) := by
  intro h
  have hgone : ((after (getGlobalScene (fun _ => 0) 0) (sideBySide 0 0)).scenes.find? 1).map
      (fun s => s.skeletons.size) = some 0 := by decide +kernel
  have hthere := congrArg (Option.map OrdMap.size) (h.scenes 1)
  rw [Option.map_map] at hthere
  exact absurd (hgone.symm.trans hthere) (by decide)

end MinorityViewport
