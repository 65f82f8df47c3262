import MinorityViewport.Algorithms.RoomView
import MinorityViewport.Algorithms.MergeChain

/-!
# A person before two sensors

A person stands still in a room with two sensors, and each sensor that sees
the person reports the same points under the same number every time.

Data come in, scenes are cleared and looked at in any order, and a look even
takes the person out of the scene on the left.  `onePerson_of_surveyed` says
that this does no harm: as long as one of the two scenes holds the person, a
look shows one skeleton, where the person stands, and one of the scenes holds
the person afterwards.
-/

namespace MinorityViewport

open Exec Viewport

variable {K : Type} [Field K] [LinearOrder K]

/-- The skeleton is what its sensor reports of the person: the number and
the points are given for each sensor of each client. -/
def Sighting (view : Nat → Str → Nat × List (Fin 3 → K)) (s : Skeleton K) : Prop :=
  (s.skeletonId, s.points) = view s.clientId s.sensorId

instance (view : Nat → Str → Nat × List (Fin 3 → K)) : DecidablePred (Sighting view) :=
  fun _ => inferInstanceAs (Decidable (_ = _))

/-- Two sensors see nobody but one person, whose points in the room are
given. -/
structure Standing (place : Placement K) (σ : Viewport K) (l r : Addr)
    (person : List (Fin 3 → K)) : Prop where
  ordered : σ.orderedScenes = [l, r]
  calibrated : ∀ a ∈ σ.orderedScenes, σ.isCalibrated a
  alone : ∀ a ∈ σ.orderedScenes, ∀ s, σ.scenes.find? a = some s →
    s.skeletons.entries.length ≤ 1 ∧
      ∀ body ∈ s.skeletons.values, body.points.map (place a).apply = person

/-- An ordered scene holds somebody. -/
def Seen (σ : Viewport K) : Prop :=
  ∃ a ∈ σ.orderedScenes, ∃ s, σ.scenes.find? a = some s ∧ s.skeletons.entries ≠ []

section Standing

variable {P : Skeleton K → Prop} {place : Placement K} {σ : Viewport K} {refs : Refs}
  {l r : Addr} {person : List (Fin 3 → K)}

/-! ## The scenes -/

omit [LinearOrder K] in
/-- What the sensors have reported is the person. -/
theorem standing_of_setUp {view : Nat → Str → Nat × List (Fin 3 → K)}
    (h : SetUp (Sighting view) place σ refs) (hordered : σ.orderedScenes = [l, r])
    (hcal : ∀ a ∈ σ.orderedScenes, σ.isCalibrated a)
    (hview : ∀ client ∈ σ.clients.rawClientList, ∀ entry ∈ client.sensors.entries,
      entry.2.scene ∈ σ.orderedScenes →
        (view client.id entry.1).2.map (place entry.2.scene).apply = person) :
    Standing place σ l r person := by
  refine ⟨hordered, hcal, fun a ha s hs => ?_⟩
  obtain ⟨client, hclient, hscene⟩ := List.mem_flatMap.mp (h.wellFormed.ordered a ha)
  obtain ⟨sensor, hsensor, rfl⟩ := List.mem_map.mp hscene
  obtain ⟨entry, hentry, rfl⟩ := List.mem_map.mp hsensor
  have hgenuine := h.origins client hclient entry hentry s hs
  have hsighting : ∀ p ∈ s.skeletons.entries, p.1 = (view client.id entry.1).1 ∧
      p.2.points = (view client.id entry.1).2 := by
    intro p hp
    obtain ⟨hkey, hid, hname, hP⟩ := hgenuine p hp
    rw [Sighting, hid, hname] at hP
    rw [← hP]
    exact ⟨hkey, rfl⟩
  refine ⟨OrdMap.length_entries_le_one fun p hp => (hsighting p hp).1, fun body hbody => ?_⟩
  obtain ⟨p, hp, rfl⟩ := List.mem_map.mp hbody
  rw [(hsighting p hp).2]
  exact hview client hclient entry hentry ha

omit [LinearOrder K] in
theorem Standing.exists_scenes (h : Standing place σ l r person) (hsetUp : SetUp P place σ refs) :
    ∃ left right, σ.scenes.find? l = some left ∧ left.calibrated ∧
      left.left = .null ∧ σ.scenes.find? r = some right ∧ right.calibrated ∧
        right.left = .scene l ∧
          right.rAndT = some (Pose.between (place l) (place r)) := by
  have hchain := (hsetUp.calibratedChain h.calibrated).2
  rw [h.ordered] at hchain
  obtain ⟨left, hleft, hcalLeft, hnull, _⟩ := hchain 0 l rfl
  obtain ⟨right, hright, hcalRight, hlink, hframe⟩ := hchain 1 r rfl
  exact ⟨left, right, hleft, hcalLeft, hnull, hright, hcalRight, hlink, hframe Nat.one_pos⟩

omit [Field K] [LinearOrder K] in
/-- A scene with at most one person is empty or has this person only. -/
theorem Scene.eq_nil_or_hasOnly {s : Scene K} (hcal : s.calibrated)
    (h : s.skeletons.entries.length ≤ 1) :
    s.skeletons.entries = [] ∨ ∃ key person, s.HasOnly key person := by
  cases hentries : s.skeletons.entries with
  | nil => exact Or.inl rfl
  | cons e rest =>
    rw [hentries, List.length_cons] at h
    obtain rfl : rest = [] := List.length_eq_zero_iff.mp (by omega)
    exact Or.inr ⟨e.1, e.2, hcal, hentries⟩

/-- What the right sensor sees is where the left one sees it. -/
theorem sees_of_standing [IsStrictOrderedRing K] {left right : Scene K}
    (hframe : right.rAndT = some (Pose.between (place l) (place r)))
    (hl : ∀ body ∈ left.skeletons.values, body.points.map (place l).apply = person)
    (hr : ∀ body ∈ right.skeletons.values, body.points.map (place r).apply = person) :
    right.Sees left := by
  refine ⟨_, hframe, fun ref href body hbody => ?_⟩
  have hpoints := (hl ref href).trans (hr body hbody).symm
  rw [Skeleton.points, Skeleton.points, List.map_cons, List.map_cons] at hpoints
  have hposition := Pose.eq_apply_between_iff.mpr (List.cons.inj hpoints).1
  have hzero : ∀ i, |ref.position i -
      (body.mapPoints (Pose.between (place l) (place r)).apply).position i| < threshold := by
    intro i
    rw [Skeleton.position_mapPoints, hposition, sub_self, abs_zero, threshold]
    positivity
  exact ⟨hzero 0, hzero 1, hzero 2⟩

/-! ## The updates of a look -/

omit [Field K] [LinearOrder K] in
theorem removeAll_nil (s : Scene K) : s.removeAll [] = s := rfl

/-- The rounds of a look publish one skeleton, unless both scenes are
empty. -/
theorem publishedAt_of_sees {left right : Scene K}
    (hleft : left.skeletons.entries = [] ∨ ∃ key person, left.HasOnly key person)
    (hright : right.skeletons.entries = [] ∨ ∃ key person, right.HasOnly key person)
    (hsees : right.Sees left) :
    publishedAt [l, r] [] [(r, right), (l, left)] =
      if left.skeletons.entries = [] ∧ right.skeletons.entries = [] then 0 else 1 := by
  simp only [publishedAt, removeAll_nil, List.mem_cons, true_or, or_true, if_true, List.head?_cons,
    List.head?_nil, Option.map_some, Option.map_none, Nat.add_zero]
  rcases hright with hnone | ⟨key, person, honly⟩
  · -- the right scene neither publishes nor claims
    obtain ⟨hcount, hclaims⟩ := Scene.shownCount_of_entries_eq_nil hnone (some left)
    rw [hcount, hclaims, removeAll_nil, hnone]
    rcases hleft with hnone' | ⟨key', person', honly'⟩
    · rw [(Scene.shownCount_of_entries_eq_nil hnone' none).1, hnone']
      rfl
    · have hne : ¬ (left.skeletons.entries = [] ∧ [] = ([] : List (Nat × Skeleton K))) := by
        rw [honly'.entries]
        exact fun h => List.cons_ne_nil _ _ h.1
      rw [honly'.shownCount_of_empty fun _ h => (by cases h), if_neg hne]
  · rw [if_neg fun h => by rw [honly.entries] at h; cases h.2]
    rcases hleft with hnone' | ⟨key', person', honly'⟩
    · have hrest : (left.removeAll (right.claims (some left))).skeletons.entries = [] := by
        rw [Scene.entries_removeAll, hnone', List.filter_nil]
      have hsize : left.skeletons.size = 0 := congrArg List.length hnone'
      rw [honly.shownCount_of_empty fun s hs => Option.some.inj hs ▸ hsize,
        (Scene.shownCount_of_entries_eq_nil hrest none).1]
    · obtain ⟨hcount, hclaims⟩ := honly.shownCount_of_sees honly' hsees
      have hrest := honly'.entries_removeAll (List.mem_singleton_self key')
      rw [hcount, hclaims, (Scene.shownCount_of_entries_eq_nil hrest none).1]

/-- All updates are made for ordered scenes. -/
theorem updatesAt_orderedScenes (rand : Nat → Nat) (σ : Viewport K) :
    updatesAt σ.orderedScenes (σ.visits rand) = (σ.visits rand).flatMap (·.updates) := by
  refine congrArg (List.flatMap _) (List.filter_eq_self.mpr fun visit hvisit => ?_)
  obtain ⟨pre, rest, _, _, hsplit, _⟩ := ofWalk_of_mem_plan hvisit
  have hmem : visit.scene ∈ σ.orderedScenes.reverse := by
    rw [hsplit]
    exact List.mem_append_right _ List.mem_cons_self
  exact decide_eq_true (List.mem_reverse.mp hmem)

omit [LinearOrder K] in
theorem Standing.seen_iff (h : Standing place σ l r person) {left right : Scene K}
    (hleft : σ.scenes.find? l = some left) (hright : σ.scenes.find? r = some right) :
    Seen σ ↔ ¬ (left.skeletons.entries = [] ∧ right.skeletons.entries = []) := by
  rw [Seen, h.ordered]
  simp only [List.mem_cons, List.not_mem_nil, or_false, exists_eq_or_imp, exists_eq_left, hleft,
    hright, Option.some.injEq, exists_eq_left']
  exact (not_and_or).symm

/-- A look makes one update if somebody is seen, and none otherwise. -/
theorem Standing.length_updates [IsStrictOrderedRing K] (h : Standing place σ l r person)
    (hsetUp : SetUp P place σ refs) (rand : Nat → Nat) :
    (Seen σ → ∃ u, (σ.visits rand).flatMap (·.updates) = [u]) ∧
      (¬ Seen σ → (σ.visits rand).flatMap (·.updates) = []) := by
  obtain ⟨left, right, hleft, hcalLeft, _, hright, hcalRight, _, hframe⟩ := h.exists_scenes hsetUp
  obtain ⟨hlenLeft, hpointsLeft⟩ := h.alone l (by rw [h.ordered]; simp) left hleft
  obtain ⟨hlenRight, hpointsRight⟩ := h.alone r (by rw [h.ordered]; simp) right hright
  have hready := (hsetUp.calibratedChain h.calibrated).allReady
  have hcount := @length_updatesAt_plan K _ _ rand σ.scenes [l, r]
    (h.ordered ▸ hsetUp.linked.leftLinked) [l, r] [(r, right), (l, left)]
    (List.forall_mem_cons.mpr ⟨hright, List.forall_mem_singleton.mpr hleft⟩) [] rfl _ [] 0
    (ahead_refl _ _) (by rwa [h.ordered] at hready)
  rw [publishedAt_of_sees (Scene.eq_nil_or_hasOnly hcalLeft hlenLeft)
    (Scene.eq_nil_or_hasOnly hcalRight hlenRight)
    (sees_of_standing hframe hpointsLeft hpointsRight)] at hcount
  rw [h.seen_iff hleft hright, ← updatesAt_orderedScenes, Viewport.visits, h.ordered]
  refine ⟨fun hseen => ?_, fun hnone => ?_⟩
  · rw [if_neg hseen] at hcount
    exact List.length_eq_one_iff.mp hcount
  · rw [if_pos (not_not.mp hnone)] at hcount
    exact List.length_eq_zero_iff.mp hcount

/-- The skeleton that a look shows is where the person stands. -/
theorem Standing.points_of_shown [IsStrictOrderedRing K] (h : Standing place σ l r person)
    (hsetUp : SetUp P place σ refs) {rand : Nat → Nat} {u : Publication K}
    (hu : u ∈ (σ.visits rand).flatMap (·.updates)) :
    u.skeleton.points.map (place l).apply = person := by
  obtain ⟨visit, hvisit, hu⟩ := List.mem_flatMap.mp hu
  have haligned : Frame.Aligned (Pose.chain (σ.orderedScenes.map place)) :=
    Pose.aligned_chain_of_length_le_two (by rw [h.ordered]; rfl)
  obtain ⟨hmem, s, hs, body, hbody, _, hpoints⟩ :=
    hsetUp.exists_source h.calibrated haligned (by rw [h.ordered]; rfl) hvisit hu
  rw [hpoints]
  exact (h.alone visit.scene hmem s hs).2 body hbody

/-! ## What a look leaves -/

/-- Only the right scene takes persons out of a scene, and only out of the
left one. -/
theorem Standing.removals (h : Standing place σ l r person) (hsetUp : SetUp P place σ refs)
    {rand : Nat → Nat} {rm : Addr × Nat}
    (hrm : rm ∈ (σ.visits rand).flatMap (·.view.removals)) :
    rm.1 = l ∧ ∃ right, σ.scenes.find? r = some right ∧ right.skeletons.entries ≠ [] := by
  obtain ⟨left, right, hleft, _, hnull, hright, _, hlink, _⟩ := h.exists_scenes hsetUp
  obtain ⟨visit, hvisit, hrm⟩ := List.mem_flatMap.mp hrm
  obtain ⟨pre, rest, scenes', key, hsplit, hrel, hview, _⟩ :=
    exists_round_of_mem_plan shrinks_remove hvisit
  unfold View.removals at hrm
  cases hl : visit.view.left with
  | none =>
    rw [hl] at hrm
    exact absurd hrm List.not_mem_nil
  | some p =>
    obtain ⟨a, snapshot⟩ := p
    rw [hl] at hrm
    obtain ⟨hleftLink, _⟩ := left_of_readView hview hl
    obtain ⟨scene', o, combi, hscene', _, _, _, hpeople, _⟩ := readView_eq_some hview
    obtain ⟨scene, hscene, hshrinks⟩ := hrel.find?_back hscene'
    have hleftScene : scene.left = .scene a :=
      hshrinks.1.2.2.2.1.symm.trans (hleftLink scene' hscene')
    have hmem : visit.scene ∈ σ.orderedScenes.reverse := by
      rw [hsplit]
      exact List.mem_append_right _ List.mem_cons_self
    rw [List.mem_reverse, h.ordered] at hmem
    rcases List.mem_pair.mp hmem with heq | heq
    · -- the left scene has no scene on its left
      rw [heq, hleft] at hscene
      obtain rfl := Option.some.inj hscene
      rw [hnull] at hleftScene
      cases hleftScene
    · rw [heq, hright] at hscene
      obtain rfl := Option.some.inj hscene
      obtain rfl : l = a := Link.scene.inj (hlink.symm.trans hleftScene)
      simp only at hrm
      split_ifs at hrm
      · exact absurd hrm List.not_mem_nil
      · obtain ⟨body, hbody, hpartner⟩ := List.mem_filterMap.mp hrm
        obtain ⟨ref, _, rfl⟩ := Option.map_eq_some_iff.mp hpartner
        rw [hpeople] at hbody
        exact ⟨rfl, right, hright, List.ne_nil_of_mem (hshrinks.2 _ hbody)⟩

/-- Whoever is seen before a look is seen after it. -/
theorem Standing.seen_merged (h : Standing place σ l r person) (hsetUp : SetUp P place σ refs)
    (hseen : Seen σ) (rand : Nat → Nat) (now : Int) : Seen (σ.merged rand now) := by
  obtain ⟨_, right, _, _, _, hright, _⟩ := h.exists_scenes hsetUp
  have hscenes : (σ.merged rand now).scenes = σ.scenes.writeAll
      (removalWrites ((σ.visits rand).flatMap (·.view.removals))) := rfl
  by_cases hnone : right.skeletons.entries = []
  · -- then nobody is taken out
    have hremovals : (σ.visits rand).flatMap (·.view.removals) = [] := by
      refine List.eq_nil_iff_forall_not_mem.mpr fun rm hrm => ?_
      obtain ⟨_, right', hright', hne⟩ := h.removals hsetUp hrm
      obtain rfl := Option.some.inj (hright.symm.trans hright')
      exact hne hnone
    rw [Seen, hscenes, hremovals]
    exact hseen
  · have hne : r ≠ l := by
      have hnodup := hsetUp.linked.leftLinked.nodup
      rw [h.ordered] at hnodup
      exact fun heq => (List.nodup_cons.mp hnodup).1 (List.mem_singleton.mpr heq.symm)
    have hkept : (σ.merged rand now).scenes.find? r = some right := by
      rw [hscenes, Heap.find?_writeAll_of_notMem, hright]
      intro hmem
      obtain ⟨w, hw, hr⟩ := List.mem_map.mp hmem
      obtain ⟨rm, hrm, rfl⟩ := List.mem_map.mp hw
      exact hne (hr.symm.trans (h.removals hsetUp hrm).1)
    have hordered : (σ.merged rand now).orderedScenes = [l, r] := h.ordered
    exact ⟨r, by rw [hordered]; simp, right, hkept, hnone⟩

end Standing

/-! ## Every state of an installation -/

/-- Two sensors before a person who stands still.  Whatever the order of
data, clears and looks, the next look returns.  It shows one skeleton, where
the person stands, if a scene holds the person, who is then still there after
the look, and nobody otherwise. -/
theorem onePerson_of_surveyed [IsStrictOrderedRing K]
    {view : Nat → Str → Nat × List (Fin 3 → K)} {place : Placement K} {σ : Viewport K}
    {refs : Refs} (h : Surveyed (Sighting view) place σ refs) {l r : Addr}
    (hordered : σ.orderedScenes = [l, r]) (hcal : ∀ a ∈ σ.orderedScenes, σ.isCalibrated a)
    {person : List (Fin 3 → K)}
    (hview : ∀ client ∈ σ.clients.rawClientList, ∀ entry ∈ client.sensors.entries,
      entry.2.scene ∈ σ.orderedScenes →
        (view client.id entry.1).2.map (place entry.2.scene).apply = person)
    (rand : Nat → Nat) (now : Int) :
    ∃ σ', (getGlobalScene rand now).run σ = .ok true σ' ∧
      (Seen σ → (∃ shown, σ'.globalScene.skeletons.values = [shown] ∧
        shown.points.map (place l).apply = person) ∧ Seen σ') ∧
      (¬ Seen σ → σ'.globalScene.skeletons.values = []) := by
  have hstanding := standing_of_setUp h.setUp hordered hcal hview
  obtain ⟨hone, hnone⟩ := hstanding.length_updates h.setUp rand
  refine ⟨_, h.setUp.run_getGlobalScene hcal (by rw [hordered]; rfl) rand now,
    fun hseen => ⟨?_, hstanding.seen_merged h.setUp hseen rand now⟩, fun hunseen => ?_⟩
  · obtain ⟨u, hu⟩ := hone hseen
    refine ⟨u.skeleton, by rw [skeletons_globalScene_merged, hu]; rfl, ?_⟩
    exact hstanding.points_of_shown h.setUp (hu ▸ List.mem_singleton_self u)
  · rw [skeletons_globalScene_merged, hnone hunseen]
    rfl

/-- What the two sensors report of a person at the origin. -/
def viewOfOrigin (_clientId : Nat) (sensorId : Str) : Nat × List (Fin 3 → ℚ) :=
  (0, [if sensorId = ['b'] then ![0, 0, -2] else 0])

theorem seen_installed : Seen installed := by
  have hany : installed.orderedScenes.any (fun a =>
      (installed.scenes.find? a).any fun s => decide (s.skeletons.entries.length ≠ 0)) = true := by
    decide +kernel
  obtain ⟨a, ha, hscene⟩ := List.any_eq_true.mp hany
  obtain ⟨s, hs, hlength⟩ := (Option.any_eq_true _ _).mp hscene
  exact ⟨a, ha, s, hs, fun hnil => of_decide_eq_true hlength (by rw [hnil]; rfl)⟩

/-- Both sensors see the person. -/
theorem onePerson_of_surveyed_installed :
    ∃ σ' shown, (getGlobalScene (fun _ => 7) 9).run installed = .ok true σ' ∧
      σ'.globalScene.skeletons.values = [shown] ∧
        shown.points.map (above 1).apply = [0] ∧ Seen σ' := by
  have hreports : ∀ e ∈ arranged, ∀ s ∈ e.reports, Sighting viewOfOrigin s := by decide +kernel
  obtain ⟨⟨refs, h⟩, hordered, hcal⟩ := surveyed_installed hreports
  have hview : ∀ client ∈ installed.clients.rawClientList, ∀ entry ∈ client.sensors.entries,
      entry.2.scene ∈ installed.orderedScenes →
        (viewOfOrigin client.id entry.1).2.map (above entry.2.scene).apply = [0] := by
    rw [clients_installed, hordered]
    decide +kernel
  obtain ⟨σ', hrun, hseen, -⟩ :=
    onePerson_of_surveyed h hordered (hordered ▸ hcal) hview (fun _ => 7) 9
  obtain ⟨⟨shown, hvalues, hpoints⟩, hstays⟩ := hseen seen_installed
  exact ⟨σ', shown, hrun, hvalues, hpoints, hstays⟩

end MinorityViewport
