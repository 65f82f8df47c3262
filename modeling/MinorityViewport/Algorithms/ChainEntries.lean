import MinorityViewport.Algorithms.MergeChain
import MinorityViewport.Algorithms.MergeSources

/-!
# A chain of sensors in the global scene

The global scene holds three entries.  With a key of its own for each scene,
the first three scenes of the walk that publish somebody have an entry
there, and the others have none: `mem_globalScene_iff`.

So the entries that a run of scenes with one person each has depend on what
it publishes, which is in `Algorithms/MergeChain`, and on how many scenes on
its right publish somebody: `mergeScenes_publishedOnce_iff`.
-/

namespace MinorityViewport

open Exec Viewport

variable {K : Type} [Field K] [LinearOrder K]

/-! ## The keys of the visits -/

/-- No two visits publish under the same key. -/
def NoCollision (visits : List (Visit K)) : Prop :=
  visits.Pairwise fun v w => ∀ u ∈ v.updates, ∀ u' ∈ w.updates, u.key ≠ u'.key

instance (visits : List (Visit K)) : Decidable (NoCollision visits) :=
  inferInstanceAs (Decidable (List.Pairwise _ _))

/-- The key of a visit that publishes somebody. -/
def Visit.keys (visit : Visit K) : List Nat := (visit.updates.map Publication.key).eraseDups

/-- A visit publishes everything under one key. -/
theorem length_keys {rand : Nat → Nat} {σ : Viewport K} {visit : Visit K}
    (hvisit : visit ∈ σ.visits rand) :
    visit.keys.length = if 0 < visit.updates.length then 1 else 0 := by
  obtain ⟨_, _, _, key, _, _, _, hup⟩ := ofWalk_of_mem_plan hvisit
  rw [Visit.keys, hup, map_key_publications, length_publications]
  cases visit.view.headcount with
  | zero => rfl
  | succ n => simp [List.replicate_succ, List.eraseDups_cons]

omit [LinearOrder K] in
theorem keys_of_length_le_one {visit : Visit K} (h : visit.updates.length ≤ 1) :
    visit.keys = visit.updates.map Publication.key := by
  rw [Visit.keys]
  rcases hup : visit.updates with _ | ⟨u, rest⟩
  · rfl
  · rw [hup, List.length_cons] at h
    obtain rfl : rest = [] := List.length_eq_zero_iff.mp (by omega)
    rfl

omit [LinearOrder K] in
theorem NoCollision.eraseDups_keys {visits : List (Visit K)} (h : NoCollision visits) :
    ((visits.flatMap (·.updates)).map Publication.key).eraseDups =
      visits.flatMap Visit.keys := by
  rw [List.map_flatMap]
  refine OrdMap.eraseDups_flatMap (h.imp fun hne k hk hk' => ?_)
  obtain ⟨u, hu, rfl⟩ := List.mem_map.mp hk
  obtain ⟨u', hu', heq⟩ := List.mem_map.mp hk'
  exact hne u hu u' hu' heq.symm

/-- The number of visits that publish somebody. -/
theorem length_flatMap_keys {rand : Nat → Nat} {σ : Viewport K} {visits : List (Visit K)}
    (h : ∀ visit ∈ visits, visit ∈ σ.visits rand) :
    (visits.flatMap Visit.keys).length = visits.countP (0 < ·.updates.length) := by
  induction visits with
  | nil => rfl
  | cons visit rest ih =>
    obtain ⟨hvisit, hrest⟩ := List.forall_mem_cons.mp h
    rw [List.flatMap_cons, List.length_append, ih hrest, length_keys hvisit, List.countP_cons]
    rw [Nat.add_comm]
    simp only [decide_eq_true_eq]

/-! ## The visits around a run -/

/-- How many people of a scene are shown, when the scenes on its right have
had their turns. -/
def Viewport.shownOf (σ : Viewport K) (a : Addr) : Nat :=
  publishedAt [a] [] (σ.placed σ.orderedScenes.reverse)

/-- How many of the scenes show somebody. -/
def Viewport.showing (σ : Viewport K) (scenes : List Addr) : Nat :=
  scenes.countP fun a => 0 < σ.shownOf a

section Around

variable {rand : Nat → Nat} {σ : Viewport K} {before run behind : List Addr}

theorem updatesAt_singleton (hlinked : LeftLinked σ.scenes σ.orderedScenes)
    (hready : AllReady σ.scenes σ.orderedScenes.reverse) {visit : Visit K}
    (hvisit : visit ∈ σ.visits rand) : updatesAt [visit.scene] (σ.visits rand) = visit.updates := by
  have hscenes := map_scene_plan rand 0 hready
  have hnodup : ((σ.visits rand).map Visit.scene).Nodup := by
    rw [visits, hscenes]
    exact (List.nodup_reverse.mpr hlinked.nodup).filter _
  obtain ⟨pre, post, hsplit⟩ := List.append_of_mem hvisit
  rw [hsplit, List.map_append, List.map_cons, List.nodup_append, List.nodup_cons] at hnodup
  obtain ⟨-, ⟨hpost, -⟩, hpre⟩ := hnodup
  have hnone : ∀ l : List (Visit K), visit.scene ∉ l.map Visit.scene →
      l.filter (·.scene ∈ [visit.scene]) = [] := by
    intro l hl
    refine List.filter_eq_nil_iff.mpr fun w hw hscene => hl ?_
    have heq : w.scene = visit.scene := by simpa using hscene
    exact List.mem_map.mpr ⟨w, hw, heq⟩
  have hpre' : visit.scene ∉ pre.map Visit.scene := fun h =>
    hpre _ h _ List.mem_cons_self rfl
  rw [updatesAt, hsplit, List.filter_append, List.filter_cons_of_pos (by simp), hnone pre hpre',
    hnone post hpost]
  simp

theorem shownOf_of_mem_visits (hlinked : LeftLinked σ.scenes σ.orderedScenes)
    (hready : AllReady σ.scenes σ.orderedScenes.reverse) {visit : Visit K}
    (hvisit : visit ∈ σ.visits rand) : σ.shownOf visit.scene = visit.updates.length := by
  rw [shownOf, ← length_updatesAt_eq rand hlinked hready, updatesAt_singleton hlinked hready hvisit]

/-- A scene that is not calibrated shows nobody. -/
theorem shownOf_of_not_isCalibrated (hlinked : LeftLinked σ.scenes σ.orderedScenes)
    (hready : AllReady σ.scenes σ.orderedScenes.reverse) {a : Addr}
    (hcal : σ.scenes.isCalibrated a = false) : σ.shownOf a = 0 := by
  rw [shownOf, ← length_updatesAt_eq (fun _ => 0) hlinked hready, updatesAt,
    List.length_eq_zero_iff, List.flatMap_eq_nil_iff]
  intro visit hvisit
  obtain ⟨hvisit, hscene⟩ := List.mem_filter.mp hvisit
  have hmem : visit.scene ∈ σ.orderedScenes.reverse.filter σ.scenes.isCalibrated := by
    rw [← map_scene_plan (fun _ => 0) 0 hready]
    exact List.mem_map_of_mem hvisit
  have heq : visit.scene = a := by simpa using hscene
  rw [heq, List.mem_filter, hcal] at hmem
  cases hmem.2

/-- The visits to the scenes behind the run, to the run, and before it. -/
theorem exists_visits_around (h : OnePerson σ before run behind)
    (hready : AllReady σ.scenes σ.orderedScenes.reverse) :
    ∃ right own left, σ.visits rand = right ++ (own ++ left) ∧
      right.map Visit.scene = behind.reverse.filter σ.scenes.isCalibrated ∧
      own.map Visit.scene = run.reverse ∧
      left.map Visit.scene = before.reverse.filter σ.scenes.isCalibrated := by
  have hrun : run.reverse.filter σ.scenes.isCalibrated = run.reverse := by
    refine List.filter_eq_self.mpr fun a ha => ?_
    obtain ⟨s, _, _, hs, honly⟩ := h.alone a (List.mem_reverse.mp ha)
    rw [Heap.isCalibrated, hs]
    exact honly.calibrated
  have hscenes := map_scene_plan rand 0 hready
  rw [h.ordered, List.reverse_append, List.reverse_append, List.filter_append, List.filter_append,
    hrun, List.map_eq_append_iff] at hscenes
  obtain ⟨right, rest, hsplit, hright, hrest⟩ := hscenes
  obtain ⟨own, left, rfl, hown, hleft⟩ := List.map_eq_append_iff.mp hrest
  refine ⟨right, own, left, ?_, hright, hown, hleft⟩
  rw [visits, h.ordered]
  simpa using hsplit

/-- The scenes behind the run that show somebody are the visits there that
publish somebody. -/
theorem countP_visits_right (hlinked : LeftLinked σ.scenes σ.orderedScenes)
    (hready : AllReady σ.scenes σ.orderedScenes.reverse) {right : List (Visit K)}
    (hvisits : ∀ visit ∈ right, visit ∈ σ.visits rand)
    (hright : right.map Visit.scene = behind.reverse.filter σ.scenes.isCalibrated) :
    right.countP (0 < ·.updates.length) = σ.showing behind := by
  have hshown : right.countP (0 < ·.updates.length) =
      (right.map Visit.scene).countP fun a => 0 < σ.shownOf a := by
    rw [List.countP_map]
    refine List.countP_congr fun visit hvisit => ?_
    rw [Function.comp_apply, shownOf_of_mem_visits hlinked hready (hvisits visit hvisit)]
  rw [hshown, hright, List.countP_filter, List.countP_reverse, showing]
  refine List.countP_congr fun a _ => ?_
  cases hcal : σ.scenes.isCalibrated a with
  | true => simp
  | false => simp [shownOf_of_not_isCalibrated hlinked hready hcal]

/-- A scene of the run publishes at most one skeleton. -/
theorem OnePerson.length_updates_le_one (h : OnePerson σ before run behind) {visit : Visit K}
    (hvisit : visit ∈ σ.visits rand) (hscene : visit.scene ∈ run) : visit.updates.length ≤ 1 := by
  obtain ⟨_, _, _, key, _, hrel, hview, hup⟩ :=
    exists_round_of_mem_plan (R := Shrinks) shrinks_remove hvisit
  obtain ⟨scene', _, _, hscene', _, _, _, hpeople, _⟩ := readView_eq_some hview
  obtain ⟨scene, hfind, hshrinks⟩ := hrel.find?_back hscene'
  obtain ⟨s, only, person, hs, honly⟩ := h.alone visit.scene hscene
  obtain rfl := Option.some.inj (hfind.symm.trans hs)
  have hkeys : ∀ e ∈ visit.view.people.entries, e.1 = only := by
    intro e he
    have hmem := hshrinks.2 e (hpeople ▸ he)
    rw [honly.entries, List.mem_singleton] at hmem
    rw [hmem]
  rw [hup, length_publications]
  exact List.countP_le_length.trans (OrdMap.length_entries_le_one hkeys)

end Around

/-! ## The entries of a run -/

/-- The first entries of a list that a map keeps, from a place on. -/
theorem mem_take_map_iff {α : Type} {f : α → Nat} {before behind : List Nat} {l : List α}
    (hnodup : (before ++ (l.map f ++ behind)).Nodup) (cap : Nat) {x : α} (hx : x ∈ l) :
    f x ∈ (before ++ (l.map f ++ behind)).take cap ↔ x ∈ l.take (cap - before.length) := by
  obtain ⟨-, hrest, hbefore⟩ := List.nodup_append.mp hnodup
  obtain ⟨hl, -, hbehind⟩ := List.nodup_append.mp hrest
  have hfx : f x ∈ l.map f := List.mem_map_of_mem hx
  have hnot : f x ∉ before.take cap := fun hmem =>
    hbefore _ (List.mem_of_mem_take hmem) _ (List.mem_append_left _ hfx) rfl
  have hnot' : ∀ n, f x ∉ behind.take n := fun n hmem =>
    hbehind _ hfx _ (List.mem_of_mem_take hmem) rfl
  rw [List.take_append, List.take_append, List.mem_append, List.mem_append, or_iff_right hnot,
    or_iff_left (hnot' _), ← List.map_take]
  constructor
  · intro hmem
    obtain ⟨y, hy, heq⟩ := List.mem_map.mp hmem
    rwa [← List.inj_on_of_nodup_map hl (List.mem_of_mem_take hy) hx heq]
  · exact List.mem_map_of_mem

/-- Exactly one of the entries is kept if exactly one place is. -/
theorem existsUnique_kept_iff {α β : Type} {f : α → β} {l : List α} {kept : β → Prop} {n : Nat}
    (hnodup : (l.map f).Nodup) (hkept : ∀ x ∈ l, kept (f x) ↔ x ∈ l.take n) :
    (∃! e, kept e ∧ ∃ x ∈ l, e = f x) ↔ (l.take n).length = 1 := by
  have htake : (l.take n).Nodup := hnodup.of_map.sublist (List.take_sublist n l)
  rw [List.length_eq_one_iff]
  constructor
  · rintro ⟨_, ⟨hk, x, hx, rfl⟩, hunique⟩
    have hmem := (hkept x hx).mp hk
    refine ⟨x, List.perm_singleton.mp
      ((List.perm_ext_iff_of_nodup htake (List.nodup_singleton x)).mpr fun y => ?_)⟩
    rw [List.mem_singleton]
    constructor
    · intro hy
      have hyl := List.mem_of_mem_take hy
      have heq : f y = f x := hunique _ ⟨(hkept y hyl).mpr hy, y, hyl, rfl⟩
      exact List.inj_on_of_nodup_map hnodup hyl hx heq
    · rintro rfl
      exact hmem
  · rintro ⟨x, hx⟩
    have hmem : x ∈ l.take n := hx ▸ List.mem_singleton_self x
    have hxl := List.mem_of_mem_take hmem
    refine ⟨f x, ⟨(hkept x hxl).mpr hmem, x, hxl, rfl⟩, ?_⟩
    rintro _ ⟨hk, y, hy, rfl⟩
    have hy' := (hkept y hy).mp hk
    rw [hx, List.mem_singleton] at hy'
    rw [hy']

/-- The merge returns, and the global scene then holds exactly one entry that
is published for the scenes of the run. -/
def PublishedOnce (rand : Nat → Nat) (now : Int) (σ : Viewport K) (run : List Addr) : Prop :=
  ∃ σ' visits, (mergeScenes rand now).run (σ, []) = .ok ⟨⟩ (σ', visits) ∧
    ∃! e, e ∈ σ'.globalScene.skeletons.entries ∧
      ∃ u ∈ updatesAt run visits, e = (u.key, u.skeleton)

section Entries

variable {rand : Nat → Nat} {σ : Viewport K} {before run behind : List Addr}

omit [LinearOrder K] in
theorem mem_updatesAt_reverse {visits : List (Visit K)} {u : Publication K} :
    u ∈ updatesAt run visits.reverse ↔ u ∈ updatesAt run visits :=
  (((List.reverse_perm visits).filter _).flatMap_right _).mem_iff

/-- The updates of the run are those of the visits to it. -/
theorem updatesAt_around (hlinked : LeftLinked σ.scenes σ.orderedScenes)
    (h : OnePerson σ before run behind) {right own left : List (Visit K)}
    (hright : right.map Visit.scene = behind.reverse.filter σ.scenes.isCalibrated)
    (hown : own.map Visit.scene = run.reverse)
    (hleft : left.map Visit.scene = before.reverse.filter σ.scenes.isCalibrated) :
    updatesAt run (right ++ (own ++ left)) = own.flatMap (·.updates) := by
  have hnodup := hlinked.nodup
  rw [h.ordered, List.nodup_append, List.nodup_append] at hnodup
  obtain ⟨⟨-, -, hbefore⟩, -, hbehind⟩ := hnodup
  have hright' : right.filter (·.scene ∈ run) = [] := by
    refine List.filter_eq_nil_iff.mpr fun visit hvisit hscene => ?_
    have hmem := List.mem_map_of_mem (f := Visit.scene) hvisit
    rw [hright] at hmem
    exact hbehind _ (List.mem_append_right _ (of_decide_eq_true hscene)) _
      (List.mem_reverse.mp (List.mem_of_mem_filter hmem)) rfl
  have hown' : own.filter (·.scene ∈ run) = own := by
    refine List.filter_eq_self.mpr fun visit hvisit => decide_eq_true ?_
    have hmem := List.mem_map_of_mem (f := Visit.scene) hvisit
    rw [hown] at hmem
    exact List.mem_reverse.mp hmem
  have hleft' : left.filter (·.scene ∈ run) = [] := by
    refine List.filter_eq_nil_iff.mpr fun visit hvisit hscene => ?_
    have hmem := List.mem_map_of_mem (f := Visit.scene) hvisit
    rw [hleft] at hmem
    exact hbefore _ (List.mem_reverse.mp (List.mem_of_mem_filter hmem)) _
      (of_decide_eq_true hscene) rfl
  rw [updatesAt, List.filter_append, List.filter_append, hright', hown', hleft', List.nil_append,
    List.append_nil]

/-- An update of the run has its key for itself. -/
theorem OnePerson.eq_of_key_eq (h : OnePerson σ before run behind)
    (hkeys : NoCollision (σ.visits rand)) {u u' : Publication K}
    (hu : u ∈ updatesAt run (σ.visits rand))
    (hu' : u' ∈ (σ.visits rand).flatMap (·.updates)) (hkey : u'.key = u.key) : u' = u := by
  obtain ⟨v, hv, huv⟩ := List.mem_flatMap.mp hu
  obtain ⟨v', hv', huv'⟩ := List.mem_flatMap.mp hu'
  obtain ⟨hv, hscene⟩ := List.mem_filter.mp hv
  have hsymm : Std.Symm fun v w : Visit K =>
      ∀ u ∈ v.updates, ∀ u' ∈ w.updates, u.key ≠ u'.key :=
    ⟨fun _ _ hne u hu u' hu' => (hne u' hu' u hu).symm⟩
  by_cases hvv : v' = v
  · subst hvv
    have hle := h.length_updates_le_one hv (of_decide_eq_true hscene)
    obtain ⟨w, hw⟩ := List.length_eq_one_iff.mp
      (le_antisymm hle (List.length_pos_of_mem huv))
    rw [hw, List.mem_singleton] at huv huv'
    rw [huv, huv']
  · exact absurd hkey (hkeys.forall hv' hv hvv u' huv' u huv)

/-- The keys in the order of their first updates: one for each scene behind the
run that shows somebody, then those of the run. -/
theorem exists_firstKeys (hlinked : LeftLinked σ.scenes σ.orderedScenes)
    (h : OnePerson σ before run behind) (hready : AllReady σ.scenes σ.orderedScenes.reverse)
    (hkeys : NoCollision (σ.visits rand)) :
    ∃ early late, (((σ.visits rand).flatMap (·.updates)).map Publication.key).eraseDups =
        early ++ ((updatesAt run (σ.visits rand)).map Publication.key ++ late) ∧
      early.length = σ.showing behind := by
  obtain ⟨right, own, left, hsplit, hright, hown, hleft⟩ :=
    exists_visits_around h hready
  have hupdates : updatesAt run (σ.visits rand) = own.flatMap (·.updates) := by
    rw [hsplit, updatesAt_around hlinked h hright hown hleft]
  have hownKeys : own.flatMap Visit.keys =
      (updatesAt run (σ.visits rand)).map Publication.key := by
    rw [hupdates, List.map_flatMap]
    refine List.flatMap_congr fun visit hvisit => keys_of_length_le_one ?_
    have hmem := List.mem_map_of_mem (f := Visit.scene) hvisit
    rw [hown] at hmem
    have hvisits : visit ∈ σ.visits rand := by
      rw [hsplit]
      exact List.mem_append_right _ (List.mem_append_left _ hvisit)
    exact h.length_updates_le_one hvisits (List.mem_reverse.mp hmem)
  refine ⟨right.flatMap Visit.keys, left.flatMap Visit.keys, ?_, ?_⟩
  · rw [hkeys.eraseDups_keys, ← hownKeys, hsplit, List.flatMap_append, List.flatMap_append]
  · have hvisits : ∀ visit ∈ right, visit ∈ σ.visits rand := fun visit hvisit => by
      rw [hsplit]
      exact List.mem_append_left _ hvisit
    rw [length_flatMap_keys hvisits, countP_visits_right hlinked hready hvisits hright]

/-- With keys of their own, the scenes of the run have the places that the
scenes behind it leave. -/
theorem existsUnique_entry_iff (hlinked : LeftLinked σ.scenes σ.orderedScenes)
    (h : OnePerson σ before run behind) (hready : AllReady σ.scenes σ.orderedScenes.reverse)
    (hkeys : NoCollision (σ.visits rand)) (now : Int) :
    (∃! e, e ∈ (σ.merged rand now).globalScene.skeletons.entries ∧
        ∃ u ∈ updatesAt run (σ.visits rand), e = (u.key, u.skeleton)) ↔
      min (3 - σ.showing behind) (updatesAt run (σ.visits rand)).length = 1 := by
  obtain ⟨early, late, hfirsts, hplaces⟩ := exists_firstKeys hlinked h hready hkeys
  have hnodup := OrdMap.nodup_eraseDups
    (((σ.visits rand).flatMap (·.updates)).map Publication.key)
  rw [hfirsts] at hnodup
  have hkept : ∀ u ∈ updatesAt run (σ.visits rand),
      (u.key, u.skeleton) ∈ (σ.merged rand now).globalScene.skeletons.entries ↔
        u ∈ (updatesAt run (σ.visits rand)).take (3 - σ.showing behind) := by
    intro u hu
    have hmem : u ∈ (σ.visits rand).flatMap (·.updates) := by
      obtain ⟨visit, hvisit, huv⟩ := List.mem_flatMap.mp hu
      exact List.mem_flatMap.mpr ⟨visit, List.mem_of_mem_filter hvisit, huv⟩
    rw [skeletons_globalScene_merged, OrdMap.mem_entries_placeAll_iff (List.mem_map_of_mem hmem),
      List.map_map, ← hplaces, ← mem_take_map_iff hnodup 3 hu, ← hfirsts]
    · rfl
    · intro e he hkey
      obtain ⟨u', hu', rfl⟩ := List.mem_map.mp he
      rw [h.eq_of_key_eq hkeys hu hu' hkey]
  have hentries : ((updatesAt run (σ.visits rand)).map fun u => (u.key, u.skeleton)).Nodup := by
    refine List.Nodup.of_map Prod.fst ?_
    rw [List.map_map]
    exact (List.nodup_append.mp (List.nodup_append.mp hnodup).2.1).1
  rw [existsUnique_kept_iff hentries hkept, List.length_take]

/-- The person has one entry exactly when the merge returns, and either two
scenes behind the run show somebody, who leave one place, or less do, and the
run has two scenes, or three of which the last one has lost its person. -/
theorem mergeScenes_publishedOnce_iff (hlinked : LeftLinked σ.scenes σ.orderedScenes)
    (h : OnePerson σ before run behind) (hkeys : NoCollision (σ.visits rand)) (now : Int) :
    PublishedOnce rand now σ run ↔
      AllReady σ.scenes σ.orderedScenes.reverse ∧
        (σ.showing behind = 2 ∨ σ.showing behind < 2 ∧
          (run.length = 2 ∨ run.length = 3 ∧ LastClaimed σ run behind)) := by
  have htwo := h.two
  have hiff : AllReady σ.scenes σ.orderedScenes.reverse →
      (min (3 - σ.showing behind) (updatesAt run (σ.visits rand)).length = 1 ↔
        σ.showing behind = 2 ∨ σ.showing behind < 2 ∧
          (run.length = 2 ∨ run.length = 3 ∧ LastClaimed σ run behind)) := by
    intro hready
    rcases length_updatesAt_visits rand hlinked h hready with ⟨hclaimed, hlen⟩ | ⟨hfree, hlen⟩
    · rw [hlen, and_iff_left hclaimed]
      omega
    · rw [hlen, iff_false_intro hfree, and_false, or_false]
      omega
  constructor
  · rintro ⟨σ', visits, hrun, hone⟩
    have hready := (returns_mergeScenes_iff rand now σ).mp ⟨_, _, hrun⟩
    obtain ⟨rfl, rfl⟩ : σ' = σ.merged rand now ∧ visits = (σ.visits rand).reverse :=
      Prod.mk.inj ((after_of_ok hrun).symm.trans (after_mergeScenes rand now σ))
    simp only [mem_updatesAt_reverse] at hone
    exact ⟨hready, (hiff hready).mp ((existsUnique_entry_iff hlinked h hready hkeys now).mp hone)⟩
  · rintro ⟨hready, hplaces⟩
    refine ⟨_, _, run_mergeScenes hready, ?_⟩
    simp only [mem_updatesAt_reverse]
    exact (existsUnique_entry_iff hlinked h hready hkeys now).mpr ((hiff hready).mpr hplaces)

end Entries

/-! ## A row of sensors before one person -/

/-- A scene of a row of sensors in the same frame. -/
abbrev rowScene (left : Option Addr) (rAndT : Option (RAndT ℚ)) : Scene ℚ :=
  calibratedScene (OrdMap.empty.assign 0 (standingAt 0)) left rAndT

theorem hasOnly_rowScene (left : Option Addr) (rAndT : Option (RAndT ℚ)) :
    (rowScene left rAndT).HasOnly 0 (standingAt 0) := ⟨rfl, rfl⟩

theorem sees_rowScene (left left' : Option Addr) (rAndT : Option (RAndT ℚ)) :
    (rowScene left (some Frame.unit)).Sees (rowScene left' rAndT) := by
  refine ⟨Frame.unit, rfl, fun ref href body hbody => ?_⟩
  obtain rfl := List.mem_singleton.mp href
  obtain rfl := List.mem_singleton.mp hbody
  simp [mapPoints_standingAt, Scene.Near, threshold]

theorem onePerson_sideBySide : OnePerson (sideBySide 0 0) [] [1, 2] [] where
  ordered := rfl
  two := le_rfl
  alone a ha := by
    rcases List.mem_pair.mp ha with rfl | rfl
    · exact ⟨_, _, _, rfl, hasOnly_rowScene _ _⟩
    · exact ⟨_, _, _, rfl, hasOnly_rowScene _ _⟩
  sees := by
    refine List.isChain_pair.mpr fun l s hl hs => ?_
    obtain rfl := Option.some.inj hl
    obtain rfl := Option.some.inj hs
    exact sees_rowScene _ _ _
  edge b hb := by cases hb

/-- Two sensors before one person. -/
theorem mergeScenes_publishedOnce_iff_sideBySide : PublishedOnce id 0 (sideBySide 0 0) [1, 2] :=
  (mergeScenes_publishedOnce_iff (leftLinked_sideBySide 0 0) onePerson_sideBySide
    (by decide +kernel) 0).mpr ⟨allReady_sideBySide 0 0, Or.inr ⟨by decide, Or.inl rfl⟩⟩

def threeInARow : Viewport ℚ :=
  { sideBySide 0 0 with
    scenes := (sideBySide 0 0).scenes.assign 3 (rowScene (some 2) (some Frame.unit))
    orderedScenes := [1, 2, 3] }

theorem leftLinked_threeInARow : LeftLinked threeInARow.scenes threeInARow.orderedScenes := by
  intro i a ha
  match i with
  | 0 => cases ha; exact ⟨_, rfl, rfl⟩
  | 1 => cases ha; exact ⟨_, rfl, rfl⟩
  | 2 => cases ha; exact ⟨_, rfl, rfl⟩
  | _ + 3 => cases ha

theorem onePerson_threeInARow : OnePerson threeInARow [] [1, 2, 3] [] where
  ordered := rfl
  two := by decide
  alone a ha := by
    simp only [List.mem_cons, List.not_mem_nil, or_false] at ha
    rcases ha with rfl | rfl | rfl
    · exact ⟨_, _, _, rfl, hasOnly_rowScene _ _⟩
    · exact ⟨_, _, _, rfl, hasOnly_rowScene _ _⟩
    · exact ⟨_, _, _, rfl, hasOnly_rowScene _ _⟩
  sees := by
    refine List.isChain_cons_cons.mpr ⟨fun l s hl hs => ?_,
      List.isChain_pair.mpr fun l s hl hs => ?_⟩
    · obtain rfl := Option.some.inj hl
      obtain rfl := Option.some.inj hs
      exact sees_rowScene _ _ _
    · obtain rfl := Option.some.inj hl
      obtain rfl := Option.some.inj hs
      exact sees_rowScene _ _ _
  edge b hb := by cases hb

theorem allReady_threeInARow : AllReady threeInARow.scenes threeInARow.orderedScenes.reverse := by
  refine leftLinked_threeInARow.allReady fun a ha s hs hne => ?_
  simp only [threeInARow, List.mem_cons, List.not_mem_nil, or_false] at ha
  rcases ha with rfl | rfl | rfl <;> obtain rfl := Option.some.inj hs
  · exact absurd rfl hne
  · rfl
  · rfl

/-- Three sensors before one person, with draws that differ.  The merge
returns, and the person has the entry of the third and that of the first. -/
theorem not_publishedOnce_threeInARow :
    LeftLinked threeInARow.scenes threeInARow.orderedScenes ∧
      OnePerson threeInARow [] [1, 2, 3] [] ∧ NoCollision (threeInARow.visits id) ∧
      Returns (mergeScenes id 0) (threeInARow, []) ∧
      ¬ PublishedOnce id 0 threeInARow [1, 2, 3] := by
  have hkeys : NoCollision (threeInARow.visits id) := by decide +kernel
  refine ⟨leftLinked_threeInARow, onePerson_threeInARow, hkeys,
    (returns_mergeScenes_iff id 0 threeInARow).mpr allReady_threeInARow, ?_⟩
  rintro ⟨σ', visits, hrun, hone⟩
  obtain ⟨rfl, rfl⟩ : σ' = threeInARow.merged id 0 ∧ visits = (threeInARow.visits id).reverse :=
    Prod.mk.inj ((after_of_ok hrun).symm.trans (after_mergeScenes id 0 threeInARow))
  simp only [mem_updatesAt_reverse] at hone
  rw [existsUnique_entry_iff leftLinked_threeInARow onePerson_threeInARow allReady_threeInARow
    hkeys] at hone
  have htwice : (updatesAt [1, 2, 3] (threeInARow.visits id)).length = 2 := by
    decide +kernel
  rw [htwice] at hone
  cases hone

end MinorityViewport
