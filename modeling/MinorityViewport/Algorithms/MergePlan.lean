import MinorityViewport.Algorithms.MergeScenes

/-!
# The plan of a merge

What a round of `MergeScenes` publishes and removes is a function of its
view.  `plan` is the list of all rounds of a walk, computed from the heap
and the draws alone, without the global scene and without the loops over
single skeletons.  `after_mergeScenes` says that the walk refines the plan,
also where it throws, and `returns_mergeScenes_iff` says when it returns:
that depends on the links, the flags and the matrices of the scenes, and not
on the skeletons.
-/

namespace MinorityViewport

open Exec

variable {K : Type} [Field K] [LinearOrder K]

/-! ## A round as a function of its view -/

namespace View

/-- The accumulated frame. -/
def combi (v : View K) : RAndT K := frameOf v.combiR v.combiT

/-- The frame of the scene itself. -/
def own (v : View K) : RAndT K := frameOf v.R v.T

/-- The first skeleton of the left scene that is deemed the same. -/
def partner (v : View K) (left : OrdMap Nat (Skeleton K)) (body : Skeleton K) :
    Option (Nat × Skeleton K) :=
  left.entries.find? fun ref => deemedSame ref.2 (body.mapPoints v.own.apply)

theorem partner_eq_some {v : View K} {left : OrdMap Nat (Skeleton K)} {body : Skeleton K}
    {ref : Nat × Skeleton K} (h : v.partner left body = some ref) :
    ref ∈ left.entries ∧ deemedSame ref.2 (body.mapPoints v.own.apply) := by
  unfold partner at h
  exact ⟨List.mem_of_find?_eq_some h, by simpa using List.find?_some h⟩

/-- The skeleton that is published for a skeleton of the snapshot. -/
def shown (v : View K) (body : Skeleton K) : Option (Skeleton K) :=
  match v.left with
  | none => some body.unsetShared
  | some (_, left) =>
    if left.size = 0 then some (body.unsetShared.mapPoints v.combi.apply)
    else (v.partner left body).map fun _ => body.setShared.mapPoints v.combi.apply

/-- A skeleton is published in one of three ways. -/
theorem shown_cases {v : View K} {body s : Skeleton K} (h : v.shown body = some s) :
    v.left = none ∧ s = body.unsetShared ∨
      (∃ l left, v.left = some (l, left) ∧ left.size = 0 ∧
        s = body.unsetShared.mapPoints v.combi.apply) ∨
      ∃ l left ref, v.left = some (l, left) ∧ left.size ≠ 0 ∧ v.partner left body = some ref ∧
        s = body.setShared.mapPoints v.combi.apply := by
  unfold shown at h
  cases hleft : v.left with
  | none =>
    rw [hleft] at h
    exact Or.inl ⟨rfl, (Option.some.inj h).symm⟩
  | some l =>
    obtain ⟨l, left⟩ := l
    rw [hleft] at h
    simp only at h
    split_ifs at h with hsize
    · exact Or.inr (Or.inl ⟨l, left, rfl, hsize, (Option.some.inj h).symm⟩)
    · obtain ⟨ref, href, hs⟩ := Option.map_eq_some_iff.mp h
      exact Or.inr (Or.inr ⟨l, left, ref, rfl, hsize, href, hs.symm⟩)

/-- A skeleton that is published as shared has a partner. -/
theorem exists_partner_of_shared {v : View K} {body s : Skeleton K} (h : v.shown body = some s)
    (hshared : s.shared = true) :
    ∃ l left ref, v.left = some (l, left) ∧ v.partner left body = some ref := by
  rcases shown_cases h with ⟨_, heq⟩ | ⟨_, _, _, _, heq⟩ | ⟨l, left, ref, hleft, _, href, _⟩
  · rw [heq] at hshared
    cases hshared
  · rw [heq] at hshared
    cases hshared
  · exact ⟨l, left, ref, hleft, href⟩

/-- The calls of `Update` on the global scene. -/
def publications (v : View K) (key : Nat) : List (Publication K) :=
  v.people.entries.filterMap fun body => (v.shown body.2).map fun s => ⟨body, key, s⟩

/-- The calls of `Remove` on the left scene. -/
def removals (v : View K) : List (Addr × Nat) :=
  match v.left with
  | none => []
  | some (leftScene, left) =>
    if left.size = 0 then []
    else v.people.entries.filterMap fun body =>
      (v.partner left body.2).map fun ref => (leftScene, ref.1)

/-- The sizes of the matrices of a view. -/
structure Sized (v : View K) : Prop where
  combi : v.combiR.HasSize 3 3 ∧ v.combiT.HasSize 3 1
  own : v.left ≠ none → v.R.HasSize 3 3 ∧ v.T.HasSize 3 1

end View

def removalWrites (removals : List (Addr × Nat)) : List (Addr × (Scene K → Scene K)) :=
  removals.map fun r => (r.1, (·.remove r.2))

/-- The state after some removals and some updates. -/
def emit (now : Int) (removals : List (Addr × Nat)) (updates : List (Publication K))
    (σ : Viewport K) : Viewport K :=
  { σ with
    scenes := σ.scenes.writeAll (removalWrites removals)
    globalScene := updates.foldl (fun g p => g.update p.key p.skeleton now) σ.globalScene }

omit [Field K] [LinearOrder K] in
theorem emit_append (now : Int) (r r' : List (Addr × Nat)) (u u' : List (Publication K))
    (σ : Viewport K) :
    emit now r' u' (emit now r u σ) = emit now (r ++ r') (u ++ u') σ := by
  simp [emit, removalWrites, Heap.writeAll_append, List.foldl_append]

omit [LinearOrder K] in
/-- A loop over the snapshot whose rounds emit emits everything. -/
theorem run_forM_emit (now : Int) (a : Addr) (v : View K) (older : List (Visit K))
    {f : Nat × Skeleton K → EStateM Fault (MergeState K) PUnit}
    (removed : Nat × Skeleton K → Option (Addr × Nat))
    (published : Nat × Skeleton K → Option (Publication K))
    (hf : ∀ body σ us, (f body).run (σ, ⟨a, v, us⟩ :: older) =
      .ok ⟨⟩ (emit now (removed body).toList (published body).toList σ,
        ⟨a, v, us ++ (published body).toList⟩ :: older))
    (bodies : List (Nat × Skeleton K)) (σ : Viewport K) (us : List (Publication K)) :
    (bodies.forM f).run (σ, ⟨a, v, us⟩ :: older) =
      .ok ⟨⟩ (emit now (bodies.filterMap removed) (bodies.filterMap published) σ,
        ⟨a, v, us ++ bodies.filterMap published⟩ :: older) := by
  induction bodies generalizing σ us with
  | nil =>
    rw [List.filterMap_nil, List.filterMap_nil, List.append_nil]
    rfl
  | cons body rest ih =>
    have hcons : ∀ {β : Type} (g : Nat × Skeleton K → Option β),
        (body :: rest).filterMap g = (g body).toList ++ rest.filterMap g := by
      intro β g
      rw [List.filterMap_cons]
      cases g body <;> rfl
    show (f body >>= fun _ => rest.forM f).run _ = _
    rw [EStateM.run_bind, hf]
    simp only
    rw [ih, emit_append, hcons, hcons, List.append_assoc]

omit [LinearOrder K] in
theorem run_publish (now : Int) (p : Publication K) (σ : Viewport K) (a : Addr) (v : View K)
    (us : List (Publication K)) (older : List (Visit K)) :
    (publish now p).run (σ, ⟨a, v, us⟩ :: older) =
      .ok ⟨⟩ (emit now [] [p] σ, ⟨a, v, us ++ [p]⟩ :: older) := rfl

/-! ## The rounds -/

omit [LinearOrder K] in
theorem run_publishMoved {v : View K} (hv : v.Sized) (now : Int) (key : Nat)
    (body : Nat × Skeleton K) (σ : Viewport K) (a : Addr) (us : List (Publication K))
    (older : List (Visit K)) :
    (publishMoved now key v body).run (σ, ⟨a, v, us⟩ :: older) =
      .ok ⟨⟩
        (emit now [] [⟨body, key, body.2.unsetShared.mapPoints v.combi.apply⟩] σ,
          ⟨a, v, us ++ [⟨body, key, body.2.unsetShared.mapPoints v.combi.apply⟩]⟩ ::
            older) := by
  rw [publishMoved, moveSkeleton_eq hv.combi.1 hv.combi.2]
  rfl

theorem run_publishMatched {v : View K} (hv : v.Sized) (now : Int) (key : Nat)
    {leftScene : Addr} {left : OrdMap Nat (Skeleton K)}
    (hleft : v.left = some (leftScene, left)) (body : Nat × Skeleton K) (σ : Viewport K)
    (a : Addr) (us : List (Publication K)) (older : List (Visit K)) :
    (publishMatched now key v leftScene left body).run (σ, ⟨a, v, us⟩ :: older) =
      let removed := (v.partner left body.2).map fun ref => (leftScene, ref.1)
      let published := (v.partner left body.2).map fun _ =>
        (⟨body, key, body.2.setShared.mapPoints v.combi.apply⟩ : Publication K)
      .ok ⟨⟩ (emit now removed.toList published.toList σ,
        ⟨a, v, us ++ published.toList⟩ :: older) := by
  have hown := hv.own (by rw [hleft]; simp)
  have hfind : left.entries.find?
      (fun ref => deemedSame ref.2 (body.2.mapPoints (frameOf v.R v.T).apply)) =
        v.partner left body.2 := rfl
  rw [publishMatched, moveSkeleton_eq hown.1 hown.2, moveSkeleton_eq hv.combi.1 hv.combi.2]
  refine run_bind_eq_ok_iff.mpr ⟨body.2.mapPoints (frameOf v.R v.T).apply, _,
    run_ofExcept_eq_ok_iff.mpr ⟨rfl, rfl⟩, ?_⟩
  simp only [hfind]
  cases v.partner left body.2 with
  | none =>
    simp only [Option.map_none, Option.toList_none, List.append_nil]
    rfl
  | some ref => rfl

/-- The three kinds of rounds emit what the view says. -/
theorem run_publishPeople {v : View K} (hv : v.Sized) (now : Int) (key : Nat) (a : Addr)
    (σ : Viewport K) (older : List (Visit K)) :
    (publishPeople now key v).run (σ, ⟨a, v, []⟩ :: older) =
      .ok ⟨⟩ (emit now v.removals (v.publications key) σ,
        ⟨a, v, v.publications key⟩ :: older) := by
  unfold publishPeople View.publications View.removals
  cases hleft : v.left with
  | none =>
    have hshown : ∀ body, v.shown body = some body.unsetShared := by
      intro body
      rw [View.shown, hleft]
    have hloop := run_forM_emit now a v older (f := publishUnmoved now key)
      (fun _ => none) (fun body => some ⟨body, key, body.2.unsetShared⟩)
      (fun body σ us => run_publish now ⟨body, key, body.2.unsetShared⟩ σ a v us older)
      v.people.entries σ []
    simp only [hshown, Option.map_some]
    simpa using hloop
  | some l =>
    obtain ⟨leftScene, left⟩ := l
    by_cases hsize : left.size = 0
    · have hshown : ∀ body, v.shown body =
          some (body.unsetShared.mapPoints v.combi.apply) := by
        intro body
        rw [View.shown, hleft]
        exact if_pos hsize
      have hloop := run_forM_emit now a v older
        (fun _ => none)
        (fun body => some ⟨body, key, body.2.unsetShared.mapPoints v.combi.apply⟩)
        (fun body σ us => run_publishMoved hv now key body σ a us older)
        v.people.entries σ []
      simp only [hsize, if_true, hshown, Option.map_some]
      simpa using hloop
    · have hshown : ∀ body, v.shown body =
          (v.partner left body).map fun _ => body.setShared.mapPoints v.combi.apply := by
        intro body
        rw [View.shown, hleft]
        exact if_neg hsize
      have hloop := run_forM_emit now a v older
        (fun body => (v.partner left body.2).map fun ref => (leftScene, ref.1))
        (fun body => (v.partner left body.2).map fun _ =>
          ⟨body, key, body.2.setShared.mapPoints v.combi.apply⟩)
        (fun body σ us => run_publishMatched hv now key hleft body σ a us older)
        v.people.entries σ []
      simp only [hsize, if_false, hshown, Option.map_map]
      simpa [Function.comp_def] using hloop

/-- What a round with the view `v` does. -/
theorem run_visitScene {now : Int} {key : Nat} {a : Addr} {toLeftEnd : List Addr}
    {v : View K} {σ : Viewport K} {older : List (Visit K)}
    (h : readView σ.scenes a toLeftEnd = .ok (some v)) (hv : v.Sized) :
    (visitScene now key a toLeftEnd).run (σ, older) =
      .ok true (emit now v.removals (v.publications key) σ,
        ⟨a, v, v.publications key⟩ :: older) := by
  rw [visitScene, run_get_bind_eq_ok_iff]
  refine run_bind_eq_ok_iff.mpr ⟨some v, _, run_ofExcept_eq_ok_iff.mpr ⟨h, rfl⟩, ?_⟩
  refine run_bind_eq_ok_iff.mpr ⟨PUnit.unit, (σ, ⟨a, v, []⟩ :: older), rfl, ?_⟩
  exact run_bind_eq_ok_iff.mpr ⟨PUnit.unit, _, run_publishPeople hv now key a σ older, rfl⟩

/-! ## The views -/

omit [LinearOrder K] in
/-- What a view holds. -/
theorem readView_eq_some {scenes : Heap K} {a : Addr} {toLeftEnd : List Addr} {v : View K}
    (h : readView scenes a toLeftEnd = .ok (some v)) :
    ∃ scene o combi, scenes.find? a = some scene ∧ scene.calibrated = true ∧
      scene.left = .ofOption o ∧ combine scenes (a :: toLeftEnd) = .ok combi ∧
      v.people = scene.skeletons ∧ v.combiR = combi.1 ∧ v.combiT = combi.2 ∧
      v.R = scene.getRMatrix ∧ v.T = scene.getTMatrix ∧
      (o = none → v.left = none) ∧
      (∀ l, o = some l → ∃ left, scenes.find? l = some left ∧
        v.left = some (l, left.skeletons)) := by
  unfold readView at h
  obtain ⟨scene, hscene, h⟩ := bind_eq_ok_iff.mp h
  rw [Heap.deref_eq_ok_iff] at hscene
  split_ifs at h with hcal
  · obtain ⟨o, ho, h⟩ := bind_eq_ok_iff.mp h
    obtain ⟨combi, hcombi, h⟩ := bind_eq_ok_iff.mp h
    have hleft : scene.left = .ofOption o := Link.read_eq_ok_iff.mp ho
    obtain ⟨left, hl, h⟩ := bind_eq_ok_iff.mp h
    obtain rfl := Option.some.inj (Except.ok.inj h)
    refine ⟨scene, o, combi, hscene, hcal, hleft, hcombi, rfl, rfl, rfl, rfl, rfl, ?_⟩
    cases o with
    | none => exact ⟨fun _ => (Except.ok.inj hl).symm, fun l hl => by cases hl⟩
    | some l =>
      obtain ⟨leftScene, hls, hl⟩ := bind_eq_ok_iff.mp hl
      refine ⟨fun h => (by cases h), fun l' hl' => ?_⟩
      cases hl'
      exact ⟨leftScene, Heap.deref_eq_ok_iff.mp hls, (Except.ok.inj hl).symm⟩
  · cases h

omit [LinearOrder K] in
/-- The left scene of a view, and its snapshot. -/
theorem left_of_readView {scenes : Heap K} {a : Addr} {toLeftEnd : List Addr} {v : View K}
    (h : readView scenes a toLeftEnd = .ok (some v)) {l : Addr}
    {left : OrdMap Nat (Skeleton K)} (hleft : v.left = some (l, left)) :
    (∀ s, scenes.find? a = some s → s.left = .scene l) ∧
      ∃ leftScene, scenes.find? l = some leftScene ∧ left = leftScene.skeletons := by
  obtain ⟨scene, o, _, hs, _, hlink, _, _, _, _, _, _, hnone, hsome⟩ := readView_eq_some h
  cases o with
  | none =>
    rw [hnone rfl] at hleft
    cases hleft
  | some l' =>
    obtain ⟨leftScene, hfind, hl⟩ := hsome l' rfl
    obtain ⟨rfl, rfl⟩ := Prod.mk.inj (Option.some.inj (hleft.symm.trans hl))
    refine ⟨fun s hs' => ?_, leftScene, hfind, rfl⟩
    obtain rfl := Option.some.inj (hs.symm.trans hs')
    exact hlink

omit [LinearOrder K] in
theorem readView_eq_none_iff {scenes : Heap K} {a : Addr} {toLeftEnd : List Addr} :
    readView scenes a toLeftEnd = .ok none ↔
      ∃ scene, scenes.find? a = some scene ∧ scene.calibrated = false := by
  constructor
  · intro h
    unfold readView at h
    obtain ⟨scene, hscene, h⟩ := bind_eq_ok_iff.mp h
    split_ifs at h with hcal
    · obtain ⟨o, _, h⟩ := bind_eq_ok_iff.mp h
      obtain ⟨combi, _, h⟩ := bind_eq_ok_iff.mp h
      obtain ⟨left, _, h⟩ := bind_eq_ok_iff.mp h
      cases h
    · exact ⟨scene, Heap.deref_eq_ok_iff.mp hscene, by simpa using hcal⟩
  · rintro ⟨scene, hscene, hcal⟩
    rw [readView, Heap.deref_eq_ok_iff.mpr hscene, ok_bind, hcal]
    rfl

/-- What a round asks of the scenes. -/
def Ready (scenes : Heap K) (a : Addr) (toLeftEnd : List Addr) : Prop :=
  ∃ scene, scenes.find? a = some scene ∧
    (scene.calibrated = true → (∀ b ∈ a :: toLeftEnd, Combinable scenes b) ∧
      ∀ l, scene.left = .scene l → (scenes.find? l).isSome)

omit [LinearOrder K] in
theorem readView_isOk_iff (scenes : Heap K) (a : Addr) (toLeftEnd : List Addr) :
    IsOk (readView scenes a toLeftEnd) ↔ Ready scenes a toLeftEnd := by
  constructor
  · rintro ⟨view, h⟩
    cases view with
    | none =>
      obtain ⟨scene, hscene, hcal⟩ := readView_eq_none_iff.mp h
      exact ⟨scene, hscene, fun h => by rw [hcal] at h; cases h⟩
    | some v =>
      obtain ⟨scene, o, combi, hscene, _, hleft, hcombi, _, _, _, _, _, _, hl⟩ :=
        readView_eq_some h
      refine ⟨scene, hscene, fun _ => ⟨(combine_isOk_iff scenes _).mp ⟨combi, hcombi⟩, ?_⟩⟩
      intro l hsl
      obtain ⟨left, hfind, _⟩ := hl l (by
        rw [hleft] at hsl
        cases o with
        | none => cases hsl
        | some l' => exact congrArg some (Link.scene.inj hsl))
      rw [hfind]
      rfl
  · rintro ⟨scene, hscene, hcond⟩
    rw [readView, Heap.deref_eq_ok_iff.mpr hscene, ok_bind]
    by_cases hcal : scene.calibrated = true
    · obtain ⟨hcomb, hl⟩ := hcond hcal
      rw [if_pos hcal]
      obtain ⟨combi, hcombi⟩ := (combine_isOk_iff scenes _).mpr hcomb
      obtain ⟨s, hs, hunset, _⟩ := hcomb a List.mem_cons_self
      obtain rfl := Option.some.inj (hscene.symm.trans hs)
      rw [Scene.getLeftFrame, hcombi]
      cases hleft : scene.left with
      | unset => exact absurd hleft hunset
      | null => exact isOk_ok _
      | scene l =>
        obtain ⟨left, hfind⟩ := Option.isSome_iff_exists.mp (hl l hleft)
        show IsOk (readLeft scenes (some l) >>= _)
        rw [readLeft, Heap.deref_eq_ok_iff.mpr hfind]
        exact isOk_ok _
    · rw [if_neg hcal]
      exact isOk_ok _

omit [LinearOrder K] in
/-- A view with a scene on the left has the frame of its own scene. -/
theorem rAndT_of_readView {scenes : Heap K} {a : Addr} {toLeftEnd : List Addr} {v : View K}
    (h : readView scenes a toLeftEnd = .ok (some v)) (hne : v.left ≠ none) {scene : Scene K}
    (hscene : scenes.find? a = some scene) :
    scene.rAndT = some v.own ∧ v.R = scene.getRMatrix ∧ v.T = scene.getTMatrix := by
  obtain ⟨s, o, combi, hs, _, hleft, hcombi, _, _, _, hR, hT, hnone, _⟩ := readView_eq_some h
  obtain rfl := Option.some.inj (hscene.symm.trans hs)
  obtain ⟨s, hs', _, hsome⟩ := (combine_isOk_iff scenes _).mp ⟨combi, hcombi⟩ a
    List.mem_cons_self
  obtain rfl := Option.some.inj (hscene.symm.trans hs')
  obtain ⟨F, hF⟩ := Option.isSome_iff_exists.mp (hsome (by
    intro hnull
    rw [hleft] at hnull
    cases o with
    | none => exact hne (hnone rfl)
    | some l => cases hnull))
  refine ⟨?_, hR, hT⟩
  rw [View.own, hR, hT, frameOf_getMatrices hF, hF]

omit [LinearOrder K] in
theorem sized_of_readView {scenes : Heap K} {a : Addr} {toLeftEnd : List Addr} {v : View K}
    (h : readView scenes a toLeftEnd = .ok (some v)) : v.Sized := by
  obtain ⟨scene, _, combi, hscene, _, _, hcombi, _, hcR, hcT, _⟩ := readView_eq_some h
  refine ⟨?_, fun hne => ?_⟩
  · rw [hcR, hcT]
    exact (frameOf_combine hcombi).1
  · obtain ⟨hF, hR, hT⟩ := rAndT_of_readView h hne hscene
    rw [hR, hT]
    exact getMatrices_hasSize hF

/-! ## The plan -/

/-- The heap that a round leaves. -/
def View.leave (v : View K) (scenes : Heap K) : Heap K :=
  scenes.writeAll (removalWrites v.removals)

/-- The rounds of a walk over calibrated scenes, in the order of the walk. -/
def plan (rand : Nat → Nat) : Nat → Heap K → List Addr → List (Visit K)
  | _, _, [] => []
  | drawn, scenes, a :: toLeftEnd =>
    match readView scenes a toLeftEnd with
    | .ok (some v) =>
      ⟨a, v, v.publications (rand drawn % 100)⟩ ::
        plan rand (drawn + 1) (v.leave scenes) toLeftEnd
    | .ok none => plan rand drawn scenes toLeftEnd
    | .error _ => []

theorem run_visitScene_none {now : Int} {key : Nat} {a : Addr} {toLeftEnd : List Addr}
    {σ : Viewport K} {older : List (Visit K)}
    (h : readView σ.scenes a toLeftEnd = .ok none) :
    (visitScene now key a toLeftEnd).run (σ, older) = .ok false (σ, older) := by
  rw [visitScene, run_get_bind_eq_ok_iff]
  exact run_bind_eq_ok_iff.mpr ⟨none, _, run_ofExcept_eq_ok_iff.mpr ⟨h, rfl⟩, rfl⟩

theorem run_visitScene_error {now : Int} {key : Nat} {a : Addr} {toLeftEnd : List Addr}
    {σ : Viewport K} {older : List (Visit K)} {e : Fault}
    (h : readView σ.scenes a toLeftEnd = .error e) :
    (visitScene now key a toLeftEnd).run (σ, older) = .error e (σ, older) := by
  unfold visitScene
  simp only [EStateM.run_bind, EStateM.run_get, h]
  rfl

/-- The walk leaves what the plan says, whether or not it throws. -/
theorem after_mergeLoop (rand : Nat → Nat) (now : Int) (toLeftEnd : List Addr) :
    ∀ (drawn : Nat) (σ : Viewport K) (older : List (Visit K)),
      after (mergeLoop rand now drawn toLeftEnd) (σ, older) =
        let visits := plan rand drawn σ.scenes toLeftEnd
        (emit now (visits.flatMap (·.view.removals)) (visits.flatMap (·.updates)) σ,
          visits.reverse ++ older) := by
  induction toLeftEnd with
  | nil =>
    intro drawn σ older
    rfl
  | cons a rest ih =>
    intro drawn σ older
    rw [mergeLoop, after_bind, plan]
    cases hview : readView σ.scenes a rest with
    | error e => rw [run_visitScene_error hview]; rfl
    | ok view =>
      cases view with
      | none =>
        rw [run_visitScene_none hview]
        exact ih drawn σ older
      | some v =>
        rw [run_visitScene hview (sized_of_readView hview)]
        simp only [if_true]
        rw [ih]
        simp only [List.flatMap_cons, List.reverse_cons, List.append_assoc,
          List.singleton_append]
        rw [← emit_append]
        rfl

/-! ## When the walk returns -/

theorem related_leave (v : View K) (scenes : Heap K) :
    Heap.Related Scene.SameFrame scenes (v.leave scenes) := by
  refine Heap.related_writeAll Scene.SameFrame.refl (fun _ _ _ => Scene.SameFrame.trans)
    (fun w hw s => ?_) scenes
  obtain ⟨r, _, rfl⟩ := List.mem_map.mp hw
  exact Scene.sameFrame_remove s r.2

omit [LinearOrder K] [Field K] in
theorem Combinable.of_related {scenes scenes' : Heap K}
    (h : Heap.Related Scene.SameFrame scenes scenes') {a : Addr}
    (ha : Combinable scenes a) : Combinable scenes' a := by
  obtain ⟨s, hs, hunset, hsome⟩ := ha
  obtain ⟨s', hs', _, _, _, hleft, _, hframe⟩ := h.find? hs
  exact ⟨s', hs', by rwa [hleft], by rwa [hleft, hframe]⟩

omit [LinearOrder K] [Field K] in
theorem Ready.of_related {scenes scenes' : Heap K}
    (h : Heap.Related Scene.SameFrame scenes scenes') {a : Addr} {toLeftEnd : List Addr}
    (ha : Ready scenes a toLeftEnd) : Ready scenes' a toLeftEnd := by
  obtain ⟨s, hs, hcond⟩ := ha
  obtain ⟨s', hs', _, _, hcal, hleft, _, _⟩ := h.find? hs
  refine ⟨s', hs', fun hc => ?_⟩
  obtain ⟨hcomb, hl⟩ := hcond (by rwa [← hcal])
  refine ⟨fun b hb => (hcomb b hb).of_related h, fun l hsl => ?_⟩
  rw [h.isSome]
  exact hl l (by rwa [← hleft])

/-- What a walk asks of the scenes. -/
def AllReady (scenes : Heap K) : List Addr → Prop
  | [] => True
  | a :: toLeftEnd => Ready scenes a toLeftEnd ∧ AllReady scenes toLeftEnd

omit [LinearOrder K] [Field K] in
theorem AllReady.of_related {scenes scenes' : Heap K}
    (h : Heap.Related Scene.SameFrame scenes scenes') {toLeftEnd : List Addr}
    (ha : AllReady scenes toLeftEnd) : AllReady scenes' toLeftEnd := by
  induction toLeftEnd with
  | nil => trivial
  | cons a rest ih => exact ⟨ha.1.of_related h, ih ha.2⟩

omit [LinearOrder K] [Field K] in
theorem allReady_congr {scenes scenes' : Heap K}
    (h : Heap.Related Scene.SameFrame scenes scenes') (toLeftEnd : List Addr) :
    AllReady scenes' toLeftEnd ↔ AllReady scenes toLeftEnd :=
  ⟨.of_related (h.symm fun _ _ => .symm), .of_related h⟩

/-- Whether the walk returns depends on the links, the flags and the
matrices, which no round changes. -/
theorem returns_mergeLoop_iff (rand : Nat → Nat) (now : Int) (toLeftEnd : List Addr) :
    ∀ (drawn : Nat) (σ : Viewport K) (older : List (Visit K)),
      Returns (mergeLoop rand now drawn toLeftEnd) (σ, older) ↔
        AllReady σ.scenes toLeftEnd := by
  induction toLeftEnd with
  | nil => exact fun drawn σ older => iff_of_true (returns_pure _ _) trivial
  | cons a rest ih =>
    intro drawn σ older
    rw [mergeLoop, returns_bind_iff, AllReady, ← readView_isOk_iff]
    cases hview : readView σ.scenes a rest with
    | error e =>
      rw [run_visitScene_error hview]
      refine iff_of_false ?_ fun h => not_isOk_error e h.1
      rintro ⟨b, s, h, _⟩
      cases h
    | ok view =>
      rw [and_iff_right (isOk_ok view)]
      cases view with
      | none =>
        rw [run_visitScene_none hview, ← ih drawn σ older]
        constructor
        · rintro ⟨b, s, h, hret⟩
          cases h
          exact hret
        · exact fun hret => ⟨false, _, rfl, hret⟩
      | some v =>
        rw [run_visitScene hview (sized_of_readView hview),
          ← allReady_congr (related_leave v σ.scenes)]
        constructor
        · rintro ⟨b, s, h, hret⟩
          cases h
          exact (ih _ _ _).mp hret
        · exact fun hready => ⟨true, _, rfl, (ih _ _ _).mpr hready⟩

/-! ## The whole merge -/

/-- The rounds of a merge, in the order of the walk. -/
def Viewport.visits (rand : Nat → Nat) (σ : Viewport K) : List (Visit K) :=
  plan rand 0 σ.scenes σ.orderedScenes.reverse

/-- The state that a merge leaves. -/
def Viewport.merged (rand : Nat → Nat) (now : Int) (σ : Viewport K) : Viewport K :=
  emit now ((σ.visits rand).flatMap (·.view.removals)) ((σ.visits rand).flatMap (·.updates))
    { σ with globalScene := σ.globalScene.manualClear }

theorem after_mergeScenes (rand : Nat → Nat) (now : Int) (σ : Viewport K) :
    after (mergeScenes rand now) (σ, []) = (σ.merged rand now, (σ.visits rand).reverse) := by
  have hloop := after_mergeLoop rand now σ.orderedScenes.reverse 0
    { σ with globalScene := σ.globalScene.manualClear } []
  simp only [List.append_nil] at hloop
  exact hloop

theorem returns_mergeScenes_iff (rand : Nat → Nat) (now : Int) (σ : Viewport K) :
    Returns (mergeScenes rand now) (σ, []) ↔
      AllReady σ.scenes σ.orderedScenes.reverse :=
  returns_mergeLoop_iff rand now σ.orderedScenes.reverse 0
    { σ with globalScene := σ.globalScene.manualClear } []

theorem run_mergeScenes {rand : Nat → Nat} {now : Int} {σ : Viewport K}
    (h : AllReady σ.scenes σ.orderedScenes.reverse) :
    (mergeScenes rand now).run (σ, []) =
      .ok ⟨⟩ (σ.merged rand now, (σ.visits rand).reverse) := by
  obtain ⟨u, s, hrun⟩ := (returns_mergeScenes_iff rand now σ).mpr h
  rw [hrun, ← after_of_ok hrun, after_mergeScenes]

end MinorityViewport
