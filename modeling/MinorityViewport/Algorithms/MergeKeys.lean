import MinorityViewport.Algorithms.GlobalFrame

/-!
# The keys of the global scene

A merge draws one key for each calibrated scene and stores every skeleton of
the scene under it.  `Update` first erases what is there, so of several
skeletons under one key the last one stays.

`mergeScenes_allKept_iff` says when every published skeleton stays, for a
merge that publishes no more than the global scene holds: no scene publishes
two skeletons, and the scenes that publish one draw different keys.
-/

namespace MinorityViewport

open Exec Viewport

variable {K : Type}

/-! ## Lists of updates -/

namespace Scene

/-- The updates in the order in which they are made. -/
def updateAll (now : Int) (scene : Scene K) (us : List (Publication K)) : Scene K :=
  us.foldl (fun scene u => scene.update u.key u.skeleton now) scene

/-- The published skeletons with their keys. -/
theorem skeletons_updateAll (now : Int) (scene : Scene K) (us : List (Publication K)) :
    (scene.updateAll now us).skeletons =
      scene.skeletons.placeAll 3 (us.map fun u => (u.key, u.skeleton)) := by
  induction us generalizing scene with
  | nil => rfl
  | cons u rest ih =>
    rw [updateAll, List.foldl_cons, List.map_cons, OrdMap.placeAll, List.foldl_cons,
      ← skeletons_update scene u.key u.skeleton now]
    exact ih _

/-- Within the capacity, all skeletons stay exactly when their keys differ. -/
theorem subperm_values_updateAll_iff (now : Int) {scene : Scene K}
    (hempty : scene.skeletons = .empty) {us : List (Publication K)} (hlen : us.length ≤ 3) :
    (us.map Publication.skeleton).Subperm (scene.updateAll now us).skeletons.values ↔
      (us.map Publication.key).Nodup := by
  have hes : (us.map fun u => (u.key, u.skeleton)).length ≤ 3 := by rwa [List.length_map]
  have hiff := OrdMap.subperm_values_placeAll_iff hes
  rw [List.map_map, List.map_map] at hiff
  rw [skeletons_updateAll, hempty]
  exact hiff

end Scene

/-! ## How many skeletons the rounds publish -/

variable [Field K] [LinearOrder K]

/-- How many skeletons a round publishes. -/
def View.headcount (v : View K) : Nat :=
  v.people.entries.countP fun body => (v.shown body.2).isSome

/-- The headcounts of the calibrated scenes, from the right end.  The list
stops where the walk throws. -/
def headcounts : Heap K → List Addr → List Nat
  | _, [] => []
  | scenes, a :: toLeftEnd =>
    match readView scenes a toLeftEnd with
    | .ok (some v) => v.headcount :: headcounts (v.leave scenes) toLeftEnd
    | .ok none => headcounts scenes toLeftEnd
    | .error _ => []

theorem length_publications (v : View K) (key : Nat) :
    (v.publications key).length = v.headcount := by
  rw [View.publications, List.length_filterMap_eq_countP, View.headcount]
  refine List.countP_congr fun body _ => ?_
  rw [Option.isSome_map]

theorem map_key_publications (v : View K) (key : Nat) :
    (v.publications key).map Publication.key = List.replicate v.headcount key := by
  refine List.eq_replicate_iff.mpr ⟨?_, fun k hk => ?_⟩
  · rw [List.length_map, length_publications]
  · obtain ⟨u, hu, rfl⟩ := List.mem_map.mp hk
    exact (mem_publications hu).2.1

/-- The keys of a walk: the key of each scene, once for each skeleton. -/
theorem keys_plan (rand : Nat → Nat) (toLeftEnd : List Addr) :
    ∀ (drawn : Nat) (scenes : Heap K),
      ((plan rand drawn scenes toLeftEnd).flatMap (·.updates)).map Publication.key =
        ((headcounts scenes toLeftEnd).zipIdx drawn).flatMap fun p =>
          List.replicate p.1 (rand p.2 % 100) := by
  induction toLeftEnd with
  | nil => exact fun _ _ => rfl
  | cons a rest ih =>
    intro drawn scenes
    unfold plan headcounts
    cases readView scenes a rest with
    | error e => rfl
    | ok view =>
      cases view with
      | none => exact ih drawn scenes
      | some v =>
        rw [List.flatMap_cons, List.map_append, map_key_publications, ih, List.zipIdx_cons,
          List.flatMap_cons]

/-- No scene publishes two skeletons, and the scenes that publish one draw
different keys. -/
def KeysApart (rand : Nat → Nat) (headcounts : List Nat) : Prop :=
  (∀ c ∈ headcounts, c ≤ 1) ∧
    ∀ i j, i < j → headcounts[i]? = some 1 → headcounts[j]? = some 1 →
      rand i % 100 ≠ rand j % 100

theorem nodup_replicate_iff (rand : Nat → Nat) (counts : List Nat) :
    (counts.zipIdx.flatMap fun p => List.replicate p.1 (rand p.2 % 100)).Nodup ↔
      KeysApart rand counts := by
  rw [List.nodup_flatMap, KeysApart]
  have hsingle : (∀ p ∈ counts.zipIdx, (List.replicate p.1 (rand p.2 % 100)).Nodup) ↔
      ∀ c ∈ counts, c ≤ 1 := by
    simp only [List.nodup_replicate]
    constructor
    · intro h c hc
      obtain ⟨i, hi⟩ := List.mem_iff_getElem?.mp hc
      exact h (c, i) (List.mem_zipIdx_iff_getElem?.mpr hi)
    · rintro h ⟨c, i⟩ hp
      exact h c (List.mem_of_getElem? (List.mem_zipIdx_iff_getElem?.mp hp))
  rw [hsingle]
  refine and_congr_right fun hle => ?_
  rw [List.pairwise_iff_getElem]
  have hdisjoint : ∀ c c' k k' : Nat,
      List.Disjoint (List.replicate c k) (List.replicate c' k') ↔ (0 < c → 0 < c' → k ≠ k') := by
    intro c c' k k'
    simp only [List.Disjoint, List.mem_replicate]
    constructor
    · rintro h hc hc' rfl
      exact h ⟨hc.ne', rfl⟩ ⟨hc'.ne', rfl⟩
    · rintro h k₀ ⟨hc, rfl⟩ ⟨hc', rfl⟩
      exact h (Nat.pos_of_ne_zero hc) (Nat.pos_of_ne_zero hc') rfl
  constructor
  · intro h i j hij hi hj
    obtain ⟨hi', hgi⟩ := List.getElem?_eq_some_iff.mp hi
    obtain ⟨hj', hgj⟩ := List.getElem?_eq_some_iff.mp hj
    have hd := h i j (by simpa using hi') (by simpa using hj') hij
    rw [Function.onFun, List.getElem_zipIdx, List.getElem_zipIdx, hdisjoint, hgi, hgj] at hd
    simpa using hd
  · intro h i j hi hj hij
    rw [List.length_zipIdx] at hi hj
    rw [Function.onFun, List.getElem_zipIdx, List.getElem_zipIdx, hdisjoint]
    intro hci hcj
    have hone : ∀ k (hk : k < counts.length), 0 < counts[k] → counts[k]? = some 1 := by
      intro k hk hpos
      rw [List.getElem?_eq_getElem hk]
      exact congrArg some (le_antisymm (hle _ (List.getElem_mem hk)) hpos)
    simpa using h i j hij (hone i hi hci) (hone j hj hcj)

/-! ## When everybody stays -/

/-- The headcounts of a merge. -/
def Viewport.headcounts (σ : Viewport K) : List Nat :=
  MinorityViewport.headcounts σ.scenes σ.orderedScenes.reverse

/-- If the merge updates the global scene at most three times, then each
published skeleton has an entry of its own afterwards. -/
def AllKept (rand : Nat → Nat) (now : Int) (σ : Viewport K) : Prop :=
  let s := after (mergeScenes rand now) (σ, [])
  let updates := s.2.reverse.flatMap (·.updates)
  updates.length ≤ 3 →
    (updates.map Publication.skeleton).Subperm s.1.globalScene.skeletons.values

theorem keys_visits (rand : Nat → Nat) (σ : Viewport K) :
    ((σ.visits rand).flatMap (·.updates)).map Publication.key =
      σ.headcounts.zipIdx.flatMap fun p => List.replicate p.1 (rand p.2 % 100) :=
  keys_plan rand σ.orderedScenes.reverse 0 σ.scenes

theorem length_visits (rand : Nat → Nat) (σ : Viewport K) :
    ((σ.visits rand).flatMap (·.updates)).length = σ.headcounts.sum := by
  rw [← List.length_map Publication.key, keys_visits, List.length_flatMap]
  have hfst : (fun p : Nat × Nat => (List.replicate p.1 (rand p.2 % 100)).length) = Prod.fst := by
    funext p
    exact List.length_replicate
  rw [hfst, List.zipIdx_map_fst]

theorem allKept_iff_nodup (rand : Nat → Nat) (now : Int) (σ : Viewport K) :
    AllKept rand now σ ↔ (σ.headcounts.sum ≤ 3 →
      (((σ.visits rand).flatMap (·.updates)).map Publication.key).Nodup) := by
  rw [AllKept, after_mergeScenes, ← length_visits rand]
  simp only [List.reverse_reverse]
  refine imp_congr_right fun hlen => ?_
  have hempty : σ.globalScene.manualClear.skeletons = .empty := rfl
  rw [← Scene.subperm_values_updateAll_iff now hempty hlen]
  rfl

/-- A merge of at most three skeletons keeps them all exactly when their
scenes draw different keys and no scene publishes two. -/
theorem mergeScenes_allKept_iff (rand : Nat → Nat) (now : Int) (σ : Viewport K) :
    AllKept rand now σ ↔ (σ.headcounts.sum ≤ 3 → KeysApart rand σ.headcounts) := by
  rw [allKept_iff_nodup, keys_visits, nodup_replicate_iff]

/-- One calibrated sensor that sees two people. -/
def twoPeople : Viewport ℚ :=
  chainViewport [] 0 ((OrdMap.empty.assign 0 (standingAt 0)).assign 1 (standingAt 1))

theorem headcounts_twoPeople : twoPeople.headcounts = [2] := by
  have hread : ∃ v, readView twoPeople.scenes 0 [] = .ok (some v) ∧ v.left = none ∧
      v.people = (OrdMap.empty.assign 0 (standingAt 0)).assign 1 (standingAt 1) :=
    ⟨_, rfl, rfl, rfl⟩
  obtain ⟨v, hread, hleft, hpeople⟩ := hread
  have hcount : v.headcount = 2 := by
    rw [View.headcount, hpeople]
    simp only [View.shown, hleft]
    rfl
  show MinorityViewport.headcounts twoPeople.scenes [0] = [2]
  rw [MinorityViewport.headcounts, hread]
  exact congrArg (· :: []) hcount

/-- Both people are stored under the same key, and one of them is gone. -/
theorem not_allKept_twoPeople : ¬ AllKept (fun _ => 7) 0 twoPeople := by
  rw [allKept_iff_nodup, keys_visits, headcounts_twoPeople]
  decide

end MinorityViewport
