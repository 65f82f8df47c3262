import MinorityViewport.Algorithms.GlobalFrame

/-!
# Who is published

A calibrated scene publishes its whole snapshot when it is the first one or
when the scene on its left is empty.  Otherwise it publishes the skeletons
that have a partner on the left, and drops the others.

The snapshot of a scene is what the scene on its right has left of it.
`MatchedFrom` follows this from the right end to the left end on the scenes
before the merge, and `mergeScenes_nobodyDropped_iff` says that it is exactly
the condition under which nobody is dropped.
-/

namespace MinorityViewport

open Exec Viewport

variable {K : Type} [Field K] [LinearOrder K]

/-! ## Partners on the left -/

namespace Scene

/-- The first skeleton on the left that a skeleton of the scene is deemed to
be. -/
def partnerIn (scene left : Scene K) (body : Skeleton K) : Option (Nat × Skeleton K) :=
  left.skeletons.entries.find? fun ref =>
    deemedSame ref.2 (body.mapPoints (scene.rAndT.getD Frame.unit).apply)

omit [Field K] [LinearOrder K] in
/-- `Remove` for a list of skeletons. -/
def removeAll (scene : Scene K) (keys : List Nat) : Scene K := keys.foldl remove scene

omit [Field K] [LinearOrder K] in
theorem skeletons_removeAll (scene : Scene K) (keys : List Nat) :
    (scene.removeAll keys).skeletons = keys.foldl OrdMap.erase scene.skeletons := by
  induction keys generalizing scene with
  | nil => rfl
  | cons k rest ih => exact ih (scene.remove k)

omit [Field K] [LinearOrder K] in
theorem sameFrame_removeAll (scene : Scene K) (keys : List Nat) :
    SameFrame scene (scene.removeAll keys) := by
  induction keys generalizing scene with
  | nil => exact .refl scene
  | cons k rest ih => exact (sameFrame_remove scene k).trans (ih (scene.remove k))

/-- The skeletons on the left that the scene claims for itself. -/
def claims (scene : Scene K) (left : Option (Scene K)) : List Nat :=
  if scene.calibrated then
    left.elim [] fun left =>
      scene.skeletons.entries.filterMap fun body => (scene.partnerIn left body.2).map Prod.fst
  else []

/-- Everybody in the scene has a partner, unless there is nobody on the
left. -/
def Matched (scene : Scene K) (left : Option (Scene K)) : Prop :=
  scene.calibrated = true → ∀ l ∈ left, l.skeletons.size ≠ 0 →
    ∀ body ∈ scene.skeletons.entries, (scene.partnerIn l body.2).isSome

end Scene

/-- Every scene is matched with the scene on its left, when each scene loses
what the scene on its right claims.  The scenes come from the right end, and
`claimed` is already claimed from the first one. -/
def MatchedFrom (claimed : List Nat) : List (Scene K) → Prop
  | [] => True
  | scene :: toLeftEnd =>
    (scene.removeAll claimed).Matched toLeftEnd.head? ∧
      MatchedFrom ((scene.removeAll claimed).claims toLeftEnd.head?) toLeftEnd

/-! ## The publications of a round -/

namespace View

theorem isSome_shown_iff {v : View K} {body : Skeleton K} :
    (v.shown body).isSome ↔
      ∀ l left, v.left = some (l, left) → left.size ≠ 0 → (v.partner left body).isSome := by
  unfold shown
  cases hleft : v.left with
  | none => simp
  | some l =>
    obtain ⟨l, left⟩ := l
    simp only [Option.some.injEq, Prod.mk.injEq]
    split_ifs with hsize
    · refine iff_of_true rfl ?_
      rintro _ _ ⟨rfl, rfl⟩ hne
      exact absurd hsize hne
    · rw [Option.isSome_map]
      constructor
      · rintro h _ _ ⟨rfl, rfl⟩ _
        exact h
      · exact fun h => h l left ⟨rfl, rfl⟩ hsize

theorem map_source_publications (v : View K) (key : Nat) :
    (v.publications key).map Publication.source =
      v.people.entries.filter fun body => (v.shown body.2).isSome := by
  rw [publications, List.map_filterMap, ← List.filterMap_eq_filter]
  refine List.filterMap_congr fun body _ => ?_
  cases hshown : v.shown body.2 <;> simp [Option.guard, hshown]

/-- Each skeleton of the snapshot is published once when each is shown. -/
theorem perm_publications_iff (v : View K) (key : Nat) :
    ((v.publications key).map Publication.source).Perm v.people.entries ↔
      ∀ body ∈ v.people.entries, (v.shown body.2).isSome := by
  rw [map_source_publications, ← List.length_filter_eq_length_iff]
  refine ⟨fun h => h.length_eq, fun h => ?_⟩
  rw [List.length_filter_eq_length_iff] at h
  rw [List.filter_eq_self.mpr h]

/-- A skeleton without a partner that is published all the same is moved and
not shared. -/
theorem skeleton_of_partner_none {v : View K} {key : Nat} {u : Publication K}
    (hu : u ∈ v.publications key) {l : Addr} {left : OrdMap Nat (Skeleton K)}
    (hleft : v.left = some (l, left)) (hnone : v.partner left u.source.2 = none) :
    u.skeleton = u.source.2.unsetShared.mapPoints v.combi.apply := by
  have hshown := (mem_publications hu).2.2
  rw [shown, hleft] at hshown
  simp only [hnone, Option.map_none] at hshown
  split_ifs at hshown with hsize
  exact (Option.some.inj hshown).symm

end View

/-! ## The heap between the rounds -/

omit [Field K] [LinearOrder K] in
theorem find?_writeAll_removals (scenes : Heap K) (l : Addr) (keys : List Nat) (a : Addr) :
    (scenes.writeAll (removalWrites (keys.map fun k => (l, k)))).find? a =
      if a = l then (scenes.find? a).map (·.removeAll keys) else scenes.find? a := by
  induction keys generalizing scenes with
  | nil =>
    have hid : (fun s : Scene K => s.removeAll []) = id := rfl
    rw [hid, Option.map_id]
    split_ifs <;> rfl
  | cons k rest ih =>
    show ((scenes.modifyAt l (·.remove k)).writeAll
      (removalWrites (rest.map fun k => (l, k)))).find? a = _
    rw [ih, Heap.find?_modifyAt]
    split_ifs with ha
    · rw [Option.map_map]
      rfl
    · rfl

/-- The part of the heap that the walk has not come to: the next scene has
lost what is claimed, and the others are as they were. -/
def Ahead (scenes scenes' : Heap K) (claimed : List Nat) : List Addr → Prop
  | [] => True
  | a :: rest => scenes'.find? a = (scenes.find? a).map (·.removeAll claimed) ∧
      ∀ b ∈ rest, scenes'.find? b = scenes.find? b

omit [Field K] [LinearOrder K] in
theorem ahead_of_eq {scenes scenes' : Heap K} {toLeftEnd : List Addr}
    (h : ∀ b ∈ toLeftEnd, scenes'.find? b = scenes.find? b) :
    Ahead scenes scenes' [] toLeftEnd := by
  cases toLeftEnd with
  | nil => trivial
  | cons a rest =>
    refine ⟨?_, fun b hb => h b (List.mem_cons_of_mem _ hb)⟩
    have hid : (fun s : Scene K => s.removeAll []) = id := rfl
    rw [hid, Option.map_id, h a List.mem_cons_self]
    rfl

omit [Field K] [LinearOrder K] in
theorem ahead_writeAll_removals {scenes scenes' : Heap K} {l : Addr} {rest : List Addr}
    (h : ∀ b ∈ l :: rest, scenes'.find? b = scenes.find? b) (hnotMem : l ∉ rest)
    (keys : List Nat) :
    Ahead scenes (scenes'.writeAll (removalWrites (keys.map fun k => (l, k)))) keys
      (l :: rest) := by
  refine ⟨?_, fun b hb => ?_⟩
  · rw [find?_writeAll_removals, if_pos rfl, h l List.mem_cons_self]
  · rw [find?_writeAll_removals, if_neg (by rintro rfl; exact hnotMem hb),
      h b (List.mem_cons_of_mem _ hb)]

theorem prevOf_eq_head? {ordered pre rest : List Addr} {a : Addr}
    (h : ordered.reverse = pre ++ a :: rest) : prevOf ordered rest.length = rest.head? := by
  cases rest with
  | nil => rfl
  | cons b rest =>
    rw [List.length_cons, prevOf_succ,
      (reverse_eq_append_cons (h.trans (List.append_cons pre a (b :: rest)))).1]
    rfl

/-! ## The rounds of linked scenes -/

/-- A view of a scene whose left link names the next scene of the walk. -/
theorem view_of_linked {scenes scenes' : Heap K} {ordered pre rest : List Addr} {a : Addr}
    {claimed : List Nat} {s : Scene K} {v : View K} (hlinked : LeftLinked scenes ordered)
    (hsplit : ordered.reverse = pre ++ a :: rest)
    (hahead : Ahead scenes scenes' claimed (a :: rest)) (hs : scenes.find? a = some s)
    (hview : readView scenes' a rest = .ok (some v)) :
    (s.removeAll claimed).calibrated = true ∧
      v.people = (s.removeAll claimed).skeletons ∧ (rest = [] → v.left = none) ∧
      ∀ l rest' t, rest = l :: rest' → scenes.find? l = some t →
        v.left = some (l, t.skeletons) ∧
          v.partner t.skeletons = (s.removeAll claimed).partnerIn t := by
  have hs' : scenes'.find? a = some (s.removeAll claimed) := by
    rw [hahead.1, hs]
    rfl
  have hsame : Scene.SameFrame s (s.removeAll claimed) := s.sameFrame_removeAll claimed
  obtain ⟨scene, o, combi, hscene, hcal, hleft, hcombi, hpeople, _, _, hR, hT, hnone, hl⟩ :=
    readView_eq_some hview
  obtain rfl := Option.some.inj (hs'.symm.trans hscene)
  obtain ⟨s₀, hs₀, hprev⟩ := hlinked rest.length a (reverse_eq_append_cons hsplit).1
  obtain rfl := Option.some.inj (hs.symm.trans hs₀)
  have ho : o = rest.head? := by
    rw [← prevOf_eq_head? hsplit]
    exact Link.ofOption_inj (hleft.symm.trans (hsame.2.2.2.1.trans hprev))
  refine ⟨hcal, hpeople, fun hrest => hnone (by rw [ho, hrest]; rfl), ?_⟩
  rintro l rest' t rfl ht
  obtain ⟨t', ht', hvl⟩ := hl l ho
  rw [hahead.2 l List.mem_cons_self, ht] at ht'
  obtain rfl := Option.some.inj ht'
  refine ⟨hvl, ?_⟩
  obtain ⟨hown, _⟩ := rAndT_of_readView hview (by rw [hvl]; simp) hs'
  funext body
  rw [View.partner, Scene.partnerIn, hown]
  rfl

/-- A skeleton of a scene is shown when it has a partner on the left, or
when there is nobody on the left. -/
def Scene.Shows (scene : Scene K) (left : Option (Scene K)) (body : Skeleton K) : Prop :=
  ∀ l ∈ left, l.skeletons.size ≠ 0 → (scene.partnerIn l body).isSome

instance (scene : Scene K) (left : Option (Scene K)) (body : Skeleton K) :
    Decidable (scene.Shows left body) :=
  inferInstanceAs (Decidable (∀ l ∈ left, l.skeletons.size ≠ 0 → _))

section

variable {v : View K} {scene left : Scene K} {l : Addr} (hleft : v.left = some (l, left.skeletons))
  (hpartner : v.partner left.skeletons = scene.partnerIn left)

include hleft hpartner

/-- A round that finds the partners of its scene removes what the scene
claims. -/
theorem View.removals_eq_claims (hcal : scene.calibrated = true)
    (hpeople : v.people = scene.skeletons) :
    v.removals = (scene.claims (some left)).map fun k => (l, k) := by
  rw [View.removals, hleft, Scene.claims, if_pos hcal, ← hpeople]
  simp only [hpartner, Option.elim_some, List.map_filterMap, Option.map_map]
  split_ifs with hsize
  · have hempty : left.skeletons.entries = [] := List.eq_nil_of_length_eq_zero hsize
    simp [Scene.partnerIn, hempty]
  · rfl

theorem View.isSome_shown_iff_shows (body : Skeleton K) :
    (v.shown body).isSome ↔ scene.Shows (some left) body := by
  rw [View.isSome_shown_iff, Scene.Shows]
  constructor
  · intro h l' hl' hsize
    obtain rfl := Option.some.inj hl'
    rw [← hpartner]
    exact h l _ hleft hsize
  · intro h l' left' hl' hsize
    obtain ⟨rfl, rfl⟩ := Prod.mk.inj (Option.some.inj (hleft.symm.trans hl'))
    rw [hpartner]
    exact h left rfl hsize

end

section

variable {scenes scenes' : Heap K} {ordered pre rest : List Addr} {a : Addr} {s : Scene K}
  {ss : List (Scene K)} {claimed : List Nat} {v : View K}
  (hlinked : LeftLinked scenes ordered) (hsplit : ordered.reverse = pre ++ a :: rest)
  (hs : scenes.find? a = some s)
  (hss : List.Forall₂ (fun a s => scenes.find? a = some s) rest ss)
  (hahead : Ahead scenes scenes' claimed (a :: rest))
  (hview : readView scenes' a rest = .ok (some v))

include hlinked hsplit hs hss hahead hview

/-- A round of a linked scene leaves its claims ahead. -/
theorem ahead_leave :
    Ahead scenes (v.leave scenes') ((s.removeAll claimed).claims ss.head?) rest := by
  obtain ⟨hcal, hpeople, _, hsome⟩ := view_of_linked hlinked hsplit hahead hs hview
  cases hss with
  | nil => trivial
  | @cons l t rest' ss' ht hss' =>
    obtain ⟨hleft, hpartner⟩ := hsome l rest' t rfl ht
    have hnodup : (l :: rest').Nodup := by
      have := List.nodup_reverse.mpr hlinked.nodup
      rw [hsplit.trans (List.append_cons pre a (l :: rest'))] at this
      exact (List.nodup_append.mp this).2.1
    rw [View.leave, View.removals_eq_claims hleft hpartner hcal hpeople]
    exact ahead_writeAll_removals hahead.2 (List.nodup_cons.mp hnodup).1 _

theorem isSome_shown_iff_shows_head? (body : Skeleton K) :
    (v.shown body).isSome ↔ (s.removeAll claimed).Shows ss.head? body := by
  obtain ⟨_, _, hnone, hsome⟩ := view_of_linked hlinked hsplit hahead hs hview
  cases hss with
  | nil =>
    rw [View.isSome_shown_iff, Scene.Shows, hnone rfl]
    exact iff_of_true (fun _ _ h => by cases h) fun l hl => by cases hl
  | @cons l t rest' ss' ht hss' =>
    obtain ⟨hleft, hpartner⟩ := hsome l rest' t rfl ht
    exact View.isSome_shown_iff_shows hleft hpartner body

end

/-- The plan of a walk whose first scene is linked: nothing for a scene that
is not calibrated, and otherwise a round that shows what the scene shows.
The rest of the walk finds what the scene claims gone. -/
theorem plan_round (rand : Nat → Nat) {scenes scenes' : Heap K} {ordered pre rest : List Addr}
    {a : Addr} {s : Scene K} {ss : List (Scene K)} (hlinked : LeftLinked scenes ordered)
    (hsplit : ordered.reverse = pre ++ a :: rest) (hs : scenes.find? a = some s)
    (hss : List.Forall₂ (fun a s => scenes.find? a = some s) rest ss) {claimed : List Nat}
    (drawn : Nat) (hahead : Ahead scenes scenes' claimed (a :: rest))
    (hready : AllReady scenes' (a :: rest)) :
    ∃ drawn' scenes'', Ahead scenes scenes'' ((s.removeAll claimed).claims ss.head?) rest ∧
      AllReady scenes'' rest ∧
      (((s.removeAll claimed).calibrated = false ∧
          plan rand drawn scenes' (a :: rest) = plan rand drawn' scenes'' rest) ∨
        ∃ v key, (s.removeAll claimed).calibrated = true ∧
          plan rand drawn scenes' (a :: rest) =
            ⟨a, v, v.publications key⟩ :: plan rand drawn' scenes'' rest ∧
          v.people = (s.removeAll claimed).skeletons ∧
          ∀ body, (v.shown body).isSome ↔ (s.removeAll claimed).Shows ss.head? body) := by
  obtain ⟨view, hview⟩ := (readView_isOk_iff _ _ _).mpr hready.1
  rw [plan, hview]
  cases view with
  | none =>
    obtain ⟨s', hs', hcal⟩ := readView_eq_none_iff.mp hview
    rw [hahead.1, hs] at hs'
    obtain rfl := Option.some.inj hs'
    have hclaims : (s.removeAll claimed).claims ss.head? = [] := by
      rw [Scene.claims, hcal]
      rfl
    rw [hclaims]
    exact ⟨drawn, scenes', ahead_of_eq hahead.2, hready.2, Or.inl ⟨hcal, rfl⟩⟩
  | some v =>
    obtain ⟨hcal, hpeople, _⟩ := view_of_linked hlinked hsplit hahead hs hview
    exact ⟨drawn + 1, v.leave scenes', ahead_leave hlinked hsplit hs hss hahead hview,
      hready.2.of_related (related_leave v scenes'), Or.inr ⟨v, _, hcal, rfl, hpeople,
        isSome_shown_iff_shows_head? hlinked hsplit hs hss hahead hview⟩⟩

/-- The rounds show everybody exactly when the scenes are matched. -/
theorem plan_shown_iff (rand : Nat → Nat) {scenes : Heap K} {ordered : List Addr}
    (hlinked : LeftLinked scenes ordered) {toLeftEnd : List Addr} {ss : List (Scene K)}
    (hss : List.Forall₂ (fun a s => scenes.find? a = some s) toLeftEnd ss) :
    ∀ {pre : List Addr}, ordered.reverse = pre ++ toLeftEnd →
      ∀ {scenes' : Heap K} {claimed : List Nat} (drawn : Nat),
        Ahead scenes scenes' claimed toLeftEnd → AllReady scenes' toLeftEnd →
          ((∀ visit ∈ plan rand drawn scenes' toLeftEnd,
              ∀ body ∈ visit.view.people.entries, (visit.view.shown body.2).isSome) ↔
            MatchedFrom claimed ss) := by
  induction hss with
  | nil =>
    intro _ _ _ _ _ _ _
    exact iff_of_true (fun _ h => absurd h List.not_mem_nil) trivial
  | @cons a s rest ss hs hss ih =>
    intro pre hsplit scenes' claimed drawn hahead hready
    obtain ⟨drawn', scenes'', hahead', hready', hround⟩ :=
      plan_round rand hlinked hsplit hs hss drawn hahead hready
    have hrest := ih (hsplit.trans (List.append_cons pre a rest)) drawn' hahead' hready'
    rw [MatchedFrom, ← hrest, Scene.Matched]
    rcases hround with ⟨hcal, hplan⟩ | ⟨v, key, hcal, hplan, hpeople, hshown⟩
    · rw [hplan, hcal]
      exact (and_iff_right fun h => by cases h).symm
    · rw [hplan, hcal]
      simp only [List.forall_mem_cons, hshown, hpeople, true_implies]
      exact and_congr_left fun _ => ⟨fun h l hl hsize body hbody => h body hbody l hl hsize,
        fun h body hbody l hl hsize => h l hl hsize body hbody⟩

/-! ## The scenes that are visited -/

/-- The calibration flag of the scene at an address. -/
def Heap.isCalibrated (scenes : Heap K) (a : Addr) : Bool :=
  (scenes.find? a).any Scene.calibrated

omit [Field K] [LinearOrder K] in
theorem Heap.isCalibrated_eq_of_related {scenes scenes' : Heap K}
    (h : Heap.Related Scene.SameFrame scenes scenes') :
    scenes'.isCalibrated = scenes.isCalibrated := by
  funext a
  rw [isCalibrated, isCalibrated]
  cases hs : scenes.find? a with
  | none =>
    have hnone := h.isSome a
    rw [hs, Option.isSome_none, Option.isSome_eq_false_iff, Option.isNone_iff_eq_none] at hnone
    rw [hnone]
  | some s =>
    obtain ⟨s', hs', _, _, hcal, _⟩ := h.find? hs
    rw [hs']
    exact hcal

/-- A walk that returns visits the calibrated scenes. -/
theorem map_scene_plan (rand : Nat → Nat) {toLeftEnd : List Addr} :
    ∀ {scenes : Heap K} (drawn : Nat), AllReady scenes toLeftEnd →
      (plan rand drawn scenes toLeftEnd).map Visit.scene =
        toLeftEnd.filter scenes.isCalibrated := by
  induction toLeftEnd with
  | nil => exact fun _ _ => rfl
  | cons a rest ih =>
    intro scenes drawn hready
    obtain ⟨view, hread⟩ := (readView_isOk_iff _ _ _).mpr hready.1
    rw [plan, hread]
    cases view with
    | none =>
      obtain ⟨s, hs, hcal⟩ := readView_eq_none_iff.mp hread
      rw [List.filter_cons_of_neg (by rw [Heap.isCalibrated, hs]; simp [hcal])]
      exact ih drawn hready.2
    | some v =>
      obtain ⟨s, _, _, hs, hcal, _⟩ := readView_eq_some hread
      have hrel := related_leave v scenes
      rw [List.filter_cons_of_pos (by rw [Heap.isCalibrated, hs]; exact hcal), List.map_cons,
        ← Heap.isCalibrated_eq_of_related hrel, ← ih (drawn + 1) (hready.2.of_related hrel)]

/-! ## When nobody is dropped -/

/-- The merge returns, visits the calibrated scenes, and publishes each
skeleton of the snapshot of each visit once.  A skeleton without a partner
in the scene on the left is moved and not shared. -/
def NobodyDropped (rand : Nat → Nat) (now : Int) (σ : Viewport K) : Prop :=
  ∃ σ' visits, (mergeScenes rand now).run (σ, []) = .ok ⟨⟩ (σ', visits) ∧
    visits.map Visit.scene = σ.orderedScenes.filter σ.scenes.isCalibrated ∧
    ∀ visit ∈ visits, (visit.updates.map Publication.source).Perm visit.view.people.entries ∧
      ∀ u ∈ visit.updates, ∀ l left, visit.view.left = some (l, left) →
        visit.view.partner left u.source.2 = none →
          u.skeleton = u.source.2.unsetShared.mapPoints visit.view.combi.apply

/-- The ordered scenes from the right end. -/
def Viewport.rightToLeft (σ : Viewport K) : List (Scene K) :=
  σ.orderedScenes.reverse.filterMap σ.scenes.find?

omit [Field K] [LinearOrder K] in
theorem LeftLinked.live {scenes : Heap K} {ordered : List Addr} (h : LeftLinked scenes ordered) :
    ∀ a ∈ ordered, ∃ s, scenes.find? a = some s := by
  intro a ha
  obtain ⟨i, hi⟩ := List.mem_iff_getElem?.mp ha
  obtain ⟨s, hs, _⟩ := h i a hi
  exact ⟨s, hs⟩

omit [Field K] [LinearOrder K] in
theorem LeftLinked.forall₂_rightToLeft {σ : Viewport K}
    (h : LeftLinked σ.scenes σ.orderedScenes) :
    List.Forall₂ (fun a s => σ.scenes.find? a = some s) σ.orderedScenes.reverse
      σ.rightToLeft := by
  have hlive : ∀ a ∈ σ.orderedScenes.reverse, ∃ s, σ.scenes.find? a = some s :=
    fun a ha => h.live a (List.mem_reverse.mp ha)
  unfold Viewport.rightToLeft
  generalize σ.orderedScenes.reverse = addrs at hlive
  induction addrs with
  | nil => exact .nil
  | cons a rest ih =>
    obtain ⟨s, hs⟩ := hlive a List.mem_cons_self
    rw [List.filterMap_cons_some hs]
    exact .cons hs (ih fun b hb => hlive b (List.mem_cons_of_mem _ hb))

omit [Field K] [LinearOrder K] in
theorem ahead_refl (scenes : Heap K) (toLeftEnd : List Addr) :
    Ahead scenes scenes [] toLeftEnd := ahead_of_eq fun _ _ => rfl

/-- The visits of linked scenes publish their snapshots exactly when the
scenes are matched. -/
theorem visits_perm_iff (rand : Nat → Nat) {σ : Viewport K}
    (hlinked : LeftLinked σ.scenes σ.orderedScenes)
    (hready : AllReady σ.scenes σ.orderedScenes.reverse) :
    (∀ visit ∈ σ.visits rand,
        (visit.updates.map Publication.source).Perm visit.view.people.entries) ↔
      MatchedFrom [] σ.rightToLeft := by
  have hsplit : σ.orderedScenes.reverse = [] ++ σ.orderedScenes.reverse := rfl
  rw [← plan_shown_iff rand hlinked hlinked.forall₂_rightToLeft hsplit 0
    (ahead_refl _ _) hready]
  refine forall₂_congr fun visit hvisit => ?_
  obtain ⟨_, _, _, key, _, _, _, hup⟩ := ofWalk_of_mem_plan hvisit
  rw [hup, View.perm_publications_iff]

theorem NobodyDropped.matched {rand : Nat → Nat} {now : Int} {σ : Viewport K}
    (h : NobodyDropped rand now σ) (hlinked : LeftLinked σ.scenes σ.orderedScenes) :
    AllReady σ.scenes σ.orderedScenes.reverse ∧ MatchedFrom [] σ.rightToLeft := by
  obtain ⟨σ', visits, hrun, _, hall⟩ := h
  have hready : AllReady σ.scenes σ.orderedScenes.reverse :=
    (returns_mergeScenes_iff rand now σ).mp ⟨_, _, hrun⟩
  obtain rfl : visits = (σ.visits rand).reverse :=
    congrArg Prod.snd ((after_of_ok hrun).symm.trans (after_mergeScenes rand now σ))
  refine ⟨hready, (visits_perm_iff rand hlinked hready).mp fun visit hvisit => ?_⟩
  exact (hall visit (List.mem_reverse.mpr hvisit)).1

/-- The merge of linked scenes drops nobody exactly when the scenes have the
matrices that the walk needs and every scene is matched with the scene on
its left. -/
theorem mergeScenes_nobodyDropped_iff {σ : Viewport K}
    (hlinked : LeftLinked σ.scenes σ.orderedScenes) (rand : Nat → Nat) (now : Int) :
    NobodyDropped rand now σ ↔
      AllReady σ.scenes σ.orderedScenes.reverse ∧ MatchedFrom [] σ.rightToLeft := by
  constructor
  · exact fun h => h.matched hlinked
  · rintro ⟨hready, hmatched⟩
    refine ⟨_, _, run_mergeScenes hready, ?_, fun visit hvisit => ?_⟩
    · rw [List.map_reverse, Viewport.visits, map_scene_plan rand 0 hready, List.filter_reverse,
        List.reverse_reverse]
    · rw [List.mem_reverse] at hvisit
      refine ⟨(visits_perm_iff rand hlinked hready).mpr hmatched visit hvisit, ?_⟩
      obtain ⟨_, _, _, key, _, _, _, hup⟩ := ofWalk_of_mem_plan hvisit
      rw [hup]
      exact fun u hu l left hleft hnone => View.skeleton_of_partner_none hu hleft hnone

theorem mapPoints_standingAt (p : Fin 3 → ℚ) :
    (standingAt p).mapPoints (Frame.unit : RAndT ℚ).apply = standingAt p := by
  simp [Skeleton.mapPoints, standingAt, Skeleton.position]

/-- Two calibrated sensors in the same frame, and a person before each. -/
def sideBySide (left right : Fin 3 → ℚ) : Viewport ℚ :=
  { Viewport.start with
    scenes :=
      (OrdMap.empty.assign 1
        (calibratedScene (OrdMap.empty.assign 0 (standingAt left)) none none)).assign 2
          (calibratedScene (OrdMap.empty.assign 0 (standingAt right)) (some 1)
            (some Frame.unit))
    orderedScenes := [1, 2] }

section SideBySide

variable (left right : Fin 3 → ℚ)

theorem leftLinked_sideBySide :
    LeftLinked (sideBySide left right).scenes (sideBySide left right).orderedScenes := by
  intro i a ha
  match i with
  | 0 => cases ha; exact ⟨_, rfl, rfl⟩
  | 1 => cases ha; exact ⟨_, rfl, rfl⟩
  | _ + 2 => cases ha

theorem allReady_sideBySide :
    AllReady (sideBySide left right).scenes (sideBySide left right).orderedScenes.reverse := by
  have hleft : Combinable (sideBySide left right).scenes 1 :=
    ⟨_, rfl, (fun h => by cases h), fun h => absurd rfl h⟩
  have hright : Combinable (sideBySide left right).scenes 2 :=
    ⟨_, rfl, (fun h => by cases h), fun _ => rfl⟩
  refine ⟨⟨_, rfl, fun _ => ⟨?_, ?_⟩⟩, ⟨_, rfl, fun _ => ⟨?_, ?_⟩⟩, trivial⟩
  · intro b hb
    rcases List.mem_pair.mp hb with rfl | rfl
    · exact hright
    · exact hleft
  · rintro l hl
    cases hl
    rfl
  · intro b hb
    rw [List.mem_singleton.mp hb]
    exact hleft
  · rintro l hl
    cases hl

/-- The person on the right has a partner when it is the person on the left. -/
theorem matchedFrom_sideBySide_iff :
    MatchedFrom [] (sideBySide left right).rightToLeft ↔
      deemedSame (standingAt left) (standingAt right) := by
  have hcases : ∀ s l : Scene ℚ, MatchedFrom [] [s, l] ↔ s.Matched (some l) := by
    intro s l
    simp [MatchedFrom, Scene.removeAll, Scene.Matched]
  have hlist : (sideBySide left right).rightToLeft = [_, _] := rfl
  have hpartner : ((calibratedScene (OrdMap.empty.assign 0 (standingAt right)) (some 1)
      (some Frame.unit)).partnerIn
        (calibratedScene (OrdMap.empty.assign 0 (standingAt left)) none none)
          (standingAt right)).isSome ↔ deemedSame (standingAt left) (standingAt right) := by
    show (List.find? _ [(0, standingAt left)]).isSome ↔ _
    rw [List.find?_isSome]
    show (∃ ref ∈ [(0, standingAt left)], deemedSame ref.2
      ((standingAt right).mapPoints (Frame.unit : RAndT ℚ).apply)) ↔ _
    rw [mapPoints_standingAt]
    simp
  rw [hlist, hcases, ← hpartner]
  constructor
  · exact fun h => h rfl _ rfl Nat.one_ne_zero (0, standingAt right) List.mem_cons_self
  · rintro h _ l hl _ body hbody
    obtain rfl := Option.some.inj hl
    obtain rfl := List.mem_singleton.mp hbody
    exact h

end SideBySide

/-- Both sensors see a person at the same place. -/
theorem mergeScenes_nobodyDropped_iff_samePlace :
    NobodyDropped (fun _ => 0) 0 (sideBySide 0 0) := by
  refine (mergeScenes_nobodyDropped_iff (leftLinked_sideBySide _ _) _ _).mpr
    ⟨allReady_sideBySide _ _, (matchedFrom_sideBySide_iff _ _).mpr ?_⟩
  simp [deemedSame, standingAt]

/-- The sensors see different people, and the one on the right is dropped. -/
theorem not_nobodyDropped_apart :
    LeftLinked (sideBySide 0 1).scenes (sideBySide 0 1).orderedScenes ∧
      ¬ NobodyDropped (fun _ => 0) 0 (sideBySide 0 1) := by
  refine ⟨leftLinked_sideBySide _ _, fun h => ?_⟩
  have hsame := (matchedFrom_sideBySide_iff _ _).mp (h.matched (leftLinked_sideBySide _ _)).2
  revert hsame
  norm_num [deemedSame, standingAt]

end MinorityViewport
