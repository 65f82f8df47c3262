import MinorityViewport.Algorithms.MergeCoverage

/-!
# The rounds of a merge

`ComesTo` lists the calls of `visitScene` that a merge makes, each with the
state in which it is made.  A property of all rounds is a property of the
views that they read, and `EachView` finds these views from the heap before
the merge.  `forall_rounds_iff` is the connection: it is enough to know for a
single round what the property asks of its view.

`Removes` is how a round that removes a skeleton of the left scene is
observed, and `removes_publishMatched_iff` says that this is the first one
that is deemed the same.
-/

namespace MinorityViewport

open Exec Viewport

variable {K : Type} [Field K] [LinearOrder K]

/-! ## The rounds -/

/-- A call of `visitScene`. -/
structure Round (K : Type) [Zero K] where
  key : Nat
  scene : Addr
  toLeftEnd : List Addr
  state : MergeState K

namespace Round

/-- What the round reads, if the scene is calibrated. -/
def Reads (r : Round K) (v : View K) : Prop :=
  readView r.state.1.scenes r.scene r.toLeftEnd = .ok (some v)

/-- The state that the round leaves. -/
def leaves (r : Round K) (now : Int) : MergeState K :=
  after (visitScene now r.key r.scene r.toLeftEnd) r.state

/-- The updates of the global scene that the round makes. -/
def updates (r : Round K) (now : Int) : List (Publication K) :=
  (r.leaves now).2.head?.elim [] Visit.updates

end Round

/-- The walk comes to a round. -/
inductive ComesTo (rand : Nat → Nat) (now : Int) :
    Nat → List Addr → MergeState K → Round K → Prop
  | here (drawn : Nat) (a : Addr) (toLeftEnd : List Addr) (s : MergeState K) :
      ComesTo rand now drawn (a :: toLeftEnd) s ⟨rand drawn % 100, a, toLeftEnd, s⟩
  | later {drawn : Nat} {a : Addr} {toLeftEnd : List Addr} {s s' : MergeState K}
      {calibrated : Bool} {r : Round K}
      (hround : (visitScene now (rand drawn % 100) a toLeftEnd).run s = .ok calibrated s')
      (hlater : ComesTo rand now (if calibrated then drawn + 1 else drawn) toLeftEnd s' r) :
      ComesTo rand now drawn (a :: toLeftEnd) s r

/-- A round of the merge of `σ`. -/
def Viewport.HasRound (rand : Nat → Nat) (now : Int) (σ : Viewport K) (r : Round K) : Prop :=
  ComesTo rand now 0 σ.orderedScenes.reverse
    ({ σ with globalScene := σ.globalScene.manualClear }, []) r

/-- The views that a walk reads have the property `C`. -/
def EachView (C : View K → Prop) : Heap K → List Addr → Prop
  | _, [] => True
  | scenes, a :: toLeftEnd =>
    match readView scenes a toLeftEnd with
    | .ok (some v) => C v ∧ EachView C (v.leave scenes) toLeftEnd
    | .ok none => EachView C scenes toLeftEnd
    | .error _ => True

/-- The rounds of a walk are its first one and those of the rest. -/
theorem forall_comesTo_cons_iff {Q : Round K → Prop} {rand : Nat → Nat} {now : Int} {drawn : Nat}
    {a : Addr} {rest : List Addr} {s : MergeState K} :
    (∀ r, ComesTo rand now drawn (a :: rest) s r → Q r) ↔
      Q ⟨rand drawn % 100, a, rest, s⟩ ∧
        ∀ calibrated s', (visitScene now (rand drawn % 100) a rest).run s = .ok calibrated s' →
          ∀ r, ComesTo rand now (if calibrated then drawn + 1 else drawn) rest s' r → Q r := by
  constructor
  · exact fun h => ⟨h _ (.here drawn a rest s),
      fun _ _ hrun r hr => h r (.later hrun hr)⟩
  · intro h r hr
    cases hr with
    | here => exact h.1
    | later hrun hr => exact h.2 _ _ hrun r hr

/-- A property of the rounds and their views that comes to `C` holds of all
rounds exactly when the walk reads views with `C`. -/
theorem forall_comesTo_iff {P : Round K → View K → Prop} {C : View K → Prop}
    (hP : ∀ r v, Round.Reads r v → (P r v ↔ C v)) (rand : Nat → Nat) (now : Int)
    (toLeftEnd : List Addr) :
    ∀ (drawn : Nat) (s : MergeState K),
      (∀ r, ComesTo rand now drawn toLeftEnd s r → ∀ v, r.Reads v → P r v) ↔
        EachView C s.1.scenes toLeftEnd := by
  induction toLeftEnd with
  | nil => exact fun drawn s => iff_of_true (fun r h => by cases h) trivial
  | cons a rest ih =>
    intro drawn s
    rw [forall_comesTo_cons_iff, EachView]
    simp only [ih]
    cases hview : readView s.1.scenes a rest with
    | error e =>
      refine iff_of_true ⟨fun v hv => ?_, fun calibrated s' hrun => ?_⟩ trivial
      · rw [Round.Reads, hview] at hv
        cases hv
      · rw [run_visitScene_error hview] at hrun
        cases hrun
    | ok view =>
      cases view with
      | none =>
        rw [run_visitScene_none hview]
        refine ⟨fun h => h.2 _ _ rfl, fun h => ⟨fun v hv => ?_, fun calibrated s' hrun => ?_⟩⟩
        · rw [Round.Reads, hview] at hv
          cases hv
        · cases hrun
          exact h
      | some v =>
        show _ ↔ C v ∧ EachView C (v.leave s.1.scenes) rest
        rw [run_visitScene hview (sized_of_readView hview),
          ← hP ⟨rand drawn % 100, a, rest, s⟩ v hview]
        constructor
        · exact fun h => ⟨h.1 v hview, h.2 _ _ rfl⟩
        · intro h
          refine ⟨fun v' hv' => ?_, fun calibrated s' hrun => ?_⟩
          · rw [Round.Reads, hview] at hv'
            cases hv'
            exact h.1
          · cases hrun
            exact h.2

theorem forall_rounds_iff {P : Round K → View K → Prop} {C : View K → Prop}
    (hP : ∀ r v, Round.Reads r v → (P r v ↔ C v)) (rand : Nat → Nat) (now : Int)
    (σ : Viewport K) :
    (∀ r, σ.HasRound rand now r → ∀ v, r.Reads v → P r v) ↔
      EachView C σ.scenes σ.orderedScenes.reverse :=
  forall_comesTo_iff hP rand now _ 0 _

/-- What a round leaves. -/
theorem Round.leaves_eq {r : Round K} {v : View K} (h : r.Reads v) (now : Int) :
    r.leaves now = (emit now v.removals (v.publications r.key) r.state.1,
      ⟨r.scene, v, v.publications r.key⟩ :: r.state.2) :=
  after_of_ok (run_visitScene h (sized_of_readView h))

theorem Round.updates_eq {r : Round K} {v : View K} (h : r.Reads v) (now : Int) :
    r.updates now = v.publications r.key := by
  rw [Round.updates, Round.leaves_eq h]
  rfl

/-! ## The removal of a skeleton of the left scene -/

/-- Whatever the scenes hold, the scene at `l` has no skeleton under `k`
after the computation. -/
def Removes (x : EStateM Fault (MergeState K) PUnit) (l : Addr) (k : Nat) : Prop :=
  ∀ s scene, (after x s).1.scenes.find? l = some scene → k ∉ scene.skeletons.keys

/-- The heap after the body of the loop. -/
theorem scenes_after_publishMatched {v : View K} (hv : v.Sized) (now : Int) (key : Nat)
    {l : Addr} {left : OrdMap Nat (Skeleton K)} (hleft : v.left = some (l, left))
    (body : Nat × Skeleton K) (s : MergeState K) :
    (after (publishMatched now key v l left body) s).1.scenes =
      match v.partner left body.2 with
      | none => s.1.scenes
      | some ref => s.1.scenes.modifyAt l (·.remove ref.1) := by
  have hown := hv.own (by rw [hleft]; simp)
  have hfind : left.entries.find?
      (fun ref => deemedSame ref.2 (body.2.mapPoints (frameOf v.R v.T).apply)) =
        v.partner left body.2 := rfl
  rw [publishMatched, moveSkeleton_eq hown.1 hown.2, moveSkeleton_eq hv.combi.1 hv.combi.2,
    after_ofExcept_bind]
  simp only [hfind]
  cases v.partner left body.2 <;> rfl

/-- The body of the loop removes the first skeleton that is deemed the
same. -/
theorem removes_publishMatched_iff {v : View K} (hv : v.Sized) (now : Int) (key : Nat)
    {l : Addr} {left : OrdMap Nat (Skeleton K)} (hleft : v.left = some (l, left))
    (body : Nat × Skeleton K) (k : Nat) :
    Removes (publishMatched now key v l left body) l k ↔
      ∃ ref, v.partner left body.2 = some ref ∧ ref.1 = k := by
  constructor
  · intro h
    -- a scene at `l` that has a skeleton under `k`
    let crowd : Scene K := calibratedScene (OrdMap.empty.assign k body.2) none none
    let s : MergeState K :=
      ({ Viewport.start with scenes := OrdMap.empty.assign l crowd }, [])
    have hs : s.1.scenes.find? l = some crowd := OrdMap.find?_assign_self _ _ _
    have hthere : k ∈ crowd.skeletons.keys := by
      rw [← OrdMap.isSome_find?_iff]
      show (((OrdMap.empty : OrdMap Nat (Skeleton K)).assign k body.2).find? k).isSome
      rw [OrdMap.find?_assign_self]
      rfl
    have hafter := h s
    rw [scenes_after_publishMatched hv now key hleft] at hafter
    cases hpartner : v.partner left body.2 with
    | none =>
      rw [hpartner] at hafter
      exact absurd hthere (hafter crowd hs)
    | some ref =>
      refine ⟨ref, rfl, ?_⟩
      by_contra hne
      rw [hpartner] at hafter
      refine hafter (crowd.remove ref.1) ?_ ?_
      · simp only [Heap.find?_modifyAt, if_true, hs, Option.map_some]
      · rw [Scene.remove, ← OrdMap.isSome_find?_iff, OrdMap.find?_erase, if_neg (Ne.symm hne),
          OrdMap.isSome_find?_iff]
        exact hthere
  · rintro ⟨ref, hpartner, rfl⟩ s scene hscene
    rw [scenes_after_publishMatched hv now key hleft, hpartner] at hscene
    simp only [Heap.find?_modifyAt, if_true, Option.map_eq_some_iff] at hscene
    obtain ⟨before, _, rfl⟩ := hscene
    rw [Scene.remove, ← OrdMap.isSome_find?_iff, OrdMap.find?_erase, if_pos rfl]
    exact Bool.false_ne_true

end MinorityViewport
