import MinorityViewport.Algorithms.MergePlan
import MinorityViewport.Algorithms.SceneOrder
import Mathlib.Data.List.Nodup

/-!
# The frame of the global scene

A calibrated chain of scenes carries a frame for each scene but the first.
A skeleton of the scene at index `i` belongs into the frame of the first
scene, which is where `Frame.compose` of the first `i` frames takes it.  The
merge moves it by `Frame.accumulate` of these frames instead.

* `LeftLinked` and `CalibratedChain` describe the scenes that a merge walks.
* `frameOf_combine_chain` identifies the accumulated matrices.
* `mergeScenes_firstFrame_iff` says on which chains the two agree for every
  content of the scenes: the aligned ones.
-/

namespace MinorityViewport

open Exec Viewport

variable {K : Type} [Field K] [LinearOrder K]

/-! ## Chains of scenes -/

/-- The left link of each ordered scene names the scene before it. -/
def LeftLinked (scenes : Heap K) (ordered : List Addr) : Prop :=
  ∀ i a, ordered[i]? = some a →
    ∃ s, scenes.find? a = some s ∧ s.left = .ofOption (prevOf ordered i)

theorem prevOf_succ (ordered : List Addr) (i : Nat) : prevOf ordered (i + 1) = ordered[i]? :=
  rfl

theorem prevOf_eq_none_iff {ordered : List Addr} {i : Nat} (hi : i < ordered.length) :
    prevOf ordered i = none ↔ i = 0 := by
  cases i with
  | zero => exact iff_of_true rfl rfl
  | succ i =>
    rw [prevOf_succ, List.getElem?_eq_getElem (by omega)]
    simp

theorem Link.ofOption_inj {o o' : Option Addr} (h : Link.ofOption o = Link.ofOption o') :
    o = o' := by
  cases o <;> cases o' <;> simp_all [Link.ofOption]

omit [Field K] [LinearOrder K] in
theorem LeftLinked.prevOf_eq {scenes : Heap K} {ordered : List Addr}
    (h : LeftLinked scenes ordered) {i j : Nat} {a : Addr} (hi : ordered[i]? = some a)
    (hj : ordered[j]? = some a) : prevOf ordered i = prevOf ordered j := by
  obtain ⟨s, hs, hleft⟩ := h i a hi
  obtain ⟨s', hs', hleft'⟩ := h j a hj
  obtain rfl := Option.some.inj (hs.symm.trans hs')
  exact Link.ofOption_inj (hleft.symm.trans hleft')

omit [Field K] [LinearOrder K] in
/-- Links to the scene before leave no room for a repetition. -/
theorem LeftLinked.index_inj {scenes : Heap K} {ordered : List Addr}
    (h : LeftLinked scenes ordered) {i j : Nat} {a : Addr} (hi : ordered[i]? = some a)
    (hj : ordered[j]? = some a) : i = j := by
  have hlti : i < ordered.length := (List.getElem?_eq_some_iff.mp hi).1
  have hltj : j < ordered.length := (List.getElem?_eq_some_iff.mp hj).1
  have hprev := h.prevOf_eq hi hj
  induction i generalizing j a with
  | zero => exact ((prevOf_eq_none_iff hltj).mp hprev.symm).symm
  | succ i ih =>
    have hget : ordered[i]? = some ordered[i] := List.getElem?_eq_getElem (by omega)
    rw [prevOf_succ, hget] at hprev
    cases j with
    | zero => cases hprev
    | succ j =>
      have hget' : ordered[j]? = some ordered[i] := hprev.symm
      exact congrArg (· + 1) (ih hget hget' (by omega) (by omega) (h.prevOf_eq hget hget'))

omit [Field K] [LinearOrder K] in
theorem LeftLinked.nodup {scenes : Heap K} {ordered : List Addr}
    (h : LeftLinked scenes ordered) : ordered.Nodup := by
  rw [List.nodup_iff_injective_get]
  intro i j hij
  refine Fin.ext (h.index_inj (List.getElem?_eq_getElem i.isLt) ?_)
  rw [List.getElem?_eq_getElem j.isLt]
  exact congrArg some hij.symm

/-- The ordered scenes are calibrated and linked, and `chain` lists the
frames of all but the first. -/
def CalibratedChain (scenes : Heap K) (ordered : List Addr) (chain : List (RAndT K)) : Prop :=
  chain.length = ordered.length - 1 ∧
    ∀ i a, ordered[i]? = some a → ∃ s, scenes.find? a = some s ∧ s.calibrated = true ∧
      s.left = .ofOption (prevOf ordered i) ∧ (0 < i → s.rAndT = chain[i - 1]?)

omit [Field K] [LinearOrder K] in
theorem CalibratedChain.of_related {scenes scenes' : Heap K} {ordered : List Addr}
    {chain : List (RAndT K)} (hrel : Heap.Related Scene.SameFrame scenes scenes')
    (h : CalibratedChain scenes ordered chain) : CalibratedChain scenes' ordered chain := by
  refine ⟨h.1, fun i a ha => ?_⟩
  obtain ⟨s, hs, hcal, hleft, hframe⟩ := h.2 i a ha
  obtain ⟨s', hs', _, _, hcal', hleft', _, hframe'⟩ := hrel.find? hs
  exact ⟨s', hs', hcal'.trans hcal, hleft'.trans hleft, fun hi => hframe'.trans (hframe hi)⟩

/-! ## The accumulated frame -/

omit [LinearOrder K] in
/-- The walk to the left end absorbs the frames of the chain from the far
end. -/
theorem foldl_absorbScene {scenes : Heap K} {ordered : List Addr} {chain : List (RAndT K)}
    (h : CalibratedChain scenes ordered chain) (i : Nat) (hi : i < ordered.length)
    (acc : RAndT K) :
    (ordered.take (i + 1)).reverse.foldl (absorbScene scenes) acc =
      (chain.take i).reverse.foldl Frame.absorb acc := by
  induction i generalizing acc with
  | zero =>
    obtain ⟨s, hs, _, hleft, _⟩ := h.2 0 ordered[0] (List.getElem?_eq_getElem hi)
    rw [List.take_succ_eq_append_getElem hi, List.take_zero, List.take_zero,
      List.nil_append, List.reverse_singleton, List.foldl_cons, absorbScene, hs]
    exact if_pos hleft
  | succ i ih =>
    have hlen : i < chain.length := by rw [h.1]; omega
    obtain ⟨s, hs, _, hleft, hframe⟩ := h.2 (i + 1) ordered[i + 1] (List.getElem?_eq_getElem hi)
    have hnull : s.left ≠ .null := by
      rw [hleft, prevOf_succ, List.getElem?_eq_getElem (by omega)]
      exact fun hl => by cases hl
    have hF : s.rAndT = some chain[i] :=
      (hframe (Nat.succ_pos i)).trans (List.getElem?_eq_getElem hlen)
    have hstep : absorbScene scenes acc ordered[i + 1] = acc.absorb chain[i] := by
      rw [absorbScene, hs]
      simp only [hnull, if_false, hF, Option.elim_some]
    rw [List.take_succ_eq_append_getElem hi, List.reverse_concat, List.foldl_cons, hstep,
      ih (by omega), List.take_succ_eq_append_getElem hlen, List.reverse_concat,
      List.foldl_cons]

/-- The scenes from index `i` to the left end. -/
theorem reverse_eq_append_cons {ordered pre rest : List Addr} {a : Addr}
    (h : ordered.reverse = pre ++ a :: rest) :
    ordered[rest.length]? = some a ∧ a :: rest = (ordered.take (rest.length + 1)).reverse := by
  have hordered : ordered = rest.reverse ++ a :: pre.reverse := by
    have := congrArg List.reverse h
    simpa using this
  have htake : ordered.take (rest.length + 1) = rest.reverse ++ [a] := by
    rw [hordered, List.append_cons,
      List.take_append_of_le_length (by simp), List.take_of_length_le (by simp)]
  refine ⟨?_, ?_⟩
  · rw [hordered, List.getElem?_append_right (by simp)]
    simp
  · rw [htake, List.reverse_concat, List.reverse_reverse]

theorem reverse_eq_of_getElem? {ordered : List Addr} {i : Nat} {a : Addr}
    (h : ordered[i]? = some a) :
    ordered.reverse = (ordered.drop (i + 1)).reverse ++ a :: (ordered.take i).reverse := by
  obtain ⟨hi, rfl⟩ := List.getElem?_eq_some_iff.mp h
  rw [← List.reverse_concat, ← List.reverse_append, List.append_assoc, List.singleton_append,
    List.getElem_cons_drop, List.take_append_drop]

omit [LinearOrder K] in
/-- A view of the scene at index `i` of a chain. -/
theorem view_of_chain {scenes : Heap K} {ordered pre rest : List Addr}
    {chain : List (RAndT K)} {a : Addr} {v : View K}
    (h : CalibratedChain scenes ordered chain) (hsplit : ordered.reverse = pre ++ a :: rest)
    (hview : readView scenes a rest = .ok (some v)) :
    v.combi = Frame.accumulate (chain.take rest.length) ∧
      (v.left = none → rest.length = 0) := by
  obtain ⟨hget, htake⟩ := reverse_eq_append_cons hsplit
  have hlt : rest.length < ordered.length := (List.getElem?_eq_some_iff.mp hget).1
  obtain ⟨scene, o, combi, hscene, _, hleft, hcombi, _, hR, hT, _, _, _, hl⟩ :=
    readView_eq_some hview
  refine ⟨?_, fun hnone => ?_⟩
  · rw [View.combi, hR, hT, (frameOf_combine hcombi).2, htake, foldl_absorbScene h _ hlt,
      Frame.accumulate]
  · obtain ⟨s, hs, _, hprev, _⟩ := h.2 rest.length a hget
    obtain rfl := Option.some.inj (hscene.symm.trans hs)
    have ho : o = prevOf ordered rest.length := Link.ofOption_inj (hleft.symm.trans hprev)
    rw [← prevOf_eq_none_iff hlt, ← ho]
    cases o with
    | none => rfl
    | some l =>
      obtain ⟨left, _, hvl⟩ := hl l rfl
      rw [hvl] at hnone
      cases hnone

/-! ## The points of the published skeletons -/

/-- The points that a round publishes for a skeleton are its points in the
accumulated frame. -/
theorem points_shown {v : View K} (hfirst : v.left = none → v.combi = Frame.unit)
    {body s : Skeleton K} (h : v.shown body = some s) :
    s.points = body.points.map v.combi.apply := by
  rcases View.shown_cases h with ⟨hleft, rfl⟩ | ⟨_, _, _, _, rfl⟩ | ⟨_, _, _, _, _, _, rfl⟩
  · have hid : (Frame.unit : RAndT K).apply = id := funext Frame.apply_unit
    rw [hfirst hleft, hid, List.map_id]
    rfl
  · exact Skeleton.points_mapPoints _ _
  · exact Skeleton.points_mapPoints _ _

theorem mem_publications {v : View K} {key : Nat} {u : Publication K}
    (h : u ∈ v.publications key) :
    u.source ∈ v.people.entries ∧ u.key = key ∧ v.shown u.source.2 = some u.skeleton := by
  obtain ⟨body, hbody, hu⟩ := List.mem_filterMap.mp h
  obtain ⟨s, hs, rfl⟩ := Option.map_eq_some_iff.mp hu
  exact ⟨hbody, rfl, hs⟩

/-! ## The visits of a merge -/

/-- The visit reads a heap that the walk has left, and publishes what its
view says. -/
def Visit.OfWalk (visit : Visit K) (scenes : Heap K) (toLeftEnd : List Addr) : Prop :=
  ∃ pre rest scenes' key, toLeftEnd = pre ++ visit.scene :: rest ∧
    Heap.Related Scene.SameFrame scenes scenes' ∧
    readView scenes' visit.scene rest = .ok (some visit.view) ∧
    visit.updates = visit.view.publications key

/-- Each visit reads a heap that is related to the first one by everything
that a removal keeps. -/
theorem exists_round_of_mem_plan {R : Scene K → Scene K → Prop} [IsPreorder (Scene K) R]
    (hremove : ∀ s k, R s (s.remove k)) {rand : Nat → Nat} {toLeftEnd : List Addr} :
    ∀ {drawn : Nat} {scenes : Heap K} {visit : Visit K},
      visit ∈ plan rand drawn scenes toLeftEnd →
        ∃ pre rest scenes' key, toLeftEnd = pre ++ visit.scene :: rest ∧
          Heap.Related R scenes scenes' ∧
          readView scenes' visit.scene rest = .ok (some visit.view) ∧
          visit.updates = visit.view.publications key := by
  induction toLeftEnd with
  | nil => exact fun h => absurd h List.not_mem_nil
  | cons a rest ih =>
    intro drawn scenes visit h
    have hlater : ∀ {drawn : Nat} {scenes' : Heap K}, Heap.Related R scenes scenes' →
        visit ∈ plan rand drawn scenes' rest →
          ∃ pre rest' scenes' key, a :: rest = pre ++ visit.scene :: rest' ∧
            Heap.Related R scenes scenes' ∧
            readView scenes' visit.scene rest' = .ok (some visit.view) ∧
            visit.updates = visit.view.publications key := by
      intro drawn scenes' hrel hmem
      obtain ⟨pre, rest', scenes'', key, hsplit, hrel', hview, hup⟩ := ih hmem
      exact ⟨a :: pre, rest', scenes'', key, by rw [hsplit]; rfl,
        Heap.Related.trans (R := R) (fun _ _ _ h h' => trans_of R h h') hrel hrel', hview,
        hup⟩
    have hsame : Heap.Related R scenes scenes := .refl (refl_of R) _
    unfold plan at h
    cases hread : readView scenes a rest with
    | error e =>
      rw [hread] at h
      exact absurd h List.not_mem_nil
    | ok view =>
      rw [hread] at h
      cases view with
      | none => exact hlater hsame h
      | some v =>
        rcases List.mem_cons.mp h with rfl | h
        · exact ⟨[], rest, scenes, _, rfl, hsame, hread, rfl⟩
        · refine hlater (Heap.related_writeAll (R := R) (refl_of R)
            (fun _ _ _ h h' => trans_of R h h') (fun w hw s => ?_) scenes) h
          obtain ⟨r, _, rfl⟩ := List.mem_map.mp hw
          exact hremove s r.2

theorem ofWalk_of_mem_plan {rand : Nat → Nat} {toLeftEnd : List Addr} {drawn : Nat}
    {scenes : Heap K} {visit : Visit K} (h : visit ∈ plan rand drawn scenes toLeftEnd) :
    visit.OfWalk scenes toLeftEnd :=
  exists_round_of_mem_plan Scene.sameFrame_remove h

/-- A scene is visited as it is, when the scenes on its right are empty. -/
theorem mem_plan_of_empty (rand : Nat → Nat) {scenes : Heap K} {pre rest : List Addr}
    {a : Addr} {v : View K} (hready : AllReady scenes (pre ++ a :: rest))
    (hempty : ∀ b ∈ pre, ∃ s, scenes.find? b = some s ∧ s.skeletons = .empty)
    (hview : readView scenes a rest = .ok (some v)) (drawn : Nat) :
    ∃ key, ⟨a, v, v.publications key⟩ ∈ plan rand drawn scenes (pre ++ a :: rest) := by
  induction pre generalizing drawn with
  | nil =>
    rw [List.nil_append, plan, hview]
    exact ⟨_, List.mem_cons_self⟩
  | cons b pre ih =>
    have hrest := fun drawn => ih hready.2 (fun c hc => hempty c (List.mem_cons_of_mem _ hc)) drawn
    obtain ⟨view, hread⟩ := (readView_isOk_iff _ _ _).mpr hready.1
    show ∃ key, _ ∈ plan rand drawn scenes (b :: (pre ++ a :: rest))
    change readView scenes b (pre ++ a :: rest) = _ at hread
    rw [plan, hread]
    cases view with
    | none => exact hrest drawn
    | some w =>
      obtain ⟨s, hs, hnone⟩ := hempty b List.mem_cons_self
      obtain ⟨s', o, combi, hs', _, _, _, hpeople, _⟩ := readView_eq_some hread
      obtain rfl := Option.some.inj (hs.symm.trans hs')
      have hremovals : w.removals = [] := by
        rw [View.removals, hpeople, hnone]
        cases w.left <;> simp
      have hleave : w.leave scenes = scenes := by
        rw [View.leave, hremovals]
        rfl
      obtain ⟨key, hkey⟩ := hrest (drawn + 1)
      refine ⟨key, List.mem_cons_of_mem _ ?_⟩
      rwa [hleave]

omit [Field K] [LinearOrder K] in
theorem AllReady.of_append {scenes : Heap K} {pre rest : List Addr}
    (h : AllReady scenes (pre ++ rest)) : AllReady scenes rest := by
  induction pre with
  | nil => exact h
  | cons a pre ih => exact ih h.2

omit [Field K] [LinearOrder K] in
/-- A merge can walk linked scenes that have the frames it accumulates. -/
theorem LeftLinked.allReady {scenes : Heap K} {ordered : List Addr}
    (h : LeftLinked scenes ordered)
    (hframes : ∀ a ∈ ordered, ∀ s, scenes.find? a = some s → s.left ≠ .null → s.rAndT.isSome) :
    AllReady scenes ordered.reverse := by
  have hcomb : ∀ a ∈ ordered, Combinable scenes a := by
    intro a ha
    obtain ⟨i, hi, rfl⟩ := List.getElem_of_mem ha
    obtain ⟨s, hs, hleft⟩ := h i _ (List.getElem?_eq_getElem hi)
    refine ⟨s, hs, ?_, hframes _ ha s hs⟩
    rw [hleft]
    cases prevOf ordered i <;> exact fun hl => by cases hl
  have hlive : ∀ (i : Nat) (a : Addr), ordered[i]? = some a → ∀ s l, scenes.find? a = some s →
      s.left = .scene l → (scenes.find? l).isSome := by
    intro i a ha s l hs hl
    obtain ⟨s', hs', hleft⟩ := h i a ha
    obtain rfl := Option.some.inj (hs.symm.trans hs')
    have hprev : prevOf ordered i = some l := Link.ofOption_inj (hleft.symm.trans hl)
    cases i with
    | zero => cases hprev
    | succ i =>
      obtain ⟨t, ht, _⟩ := h i l hprev
      rw [ht]
      rfl
  have hsuffix : ∀ rest pre, ordered.reverse = pre ++ rest → AllReady scenes rest := by
    intro rest
    induction rest with
    | nil => exact fun _ _ => trivial
    | cons a rest ih =>
      intro pre hsplit
      obtain ⟨hget, _⟩ := reverse_eq_append_cons hsplit
      obtain ⟨s, hs, _⟩ := h _ a hget
      refine ⟨⟨s, hs, fun _ => ⟨fun b hb => hcomb b ?_, fun l => hlive _ a hget s l hs⟩⟩,
        ih (pre ++ [a]) (by rw [hsplit]; simp)⟩
      rw [← List.mem_reverse, hsplit]
      exact List.mem_append_right _ hb
  exact hsuffix _ [] rfl

omit [Field K] [LinearOrder K] in
theorem CalibratedChain.leftLinked {scenes : Heap K} {ordered : List Addr}
    {chain : List (RAndT K)} (h : CalibratedChain scenes ordered chain) :
    LeftLinked scenes ordered := by
  intro i a ha
  obtain ⟨s, hs, _, hleft, _⟩ := h.2 i a ha
  exact ⟨s, hs, hleft⟩

omit [Field K] [LinearOrder K] in
theorem CalibratedChain.rAndT_isSome {scenes : Heap K} {ordered : List Addr}
    {chain : List (RAndT K)} (h : CalibratedChain scenes ordered chain) :
    ∀ a ∈ ordered, ∀ s, scenes.find? a = some s → s.left ≠ .null → s.rAndT.isSome := by
  intro a ha s hs hnull
  obtain ⟨i, hi, rfl⟩ := List.getElem_of_mem ha
  obtain ⟨s', hs', _, hleft, hframe⟩ := h.2 i _ (List.getElem?_eq_getElem hi)
  obtain rfl := Option.some.inj (hs.symm.trans hs')
  have hpos : 0 < i := by
    refine Nat.pos_of_ne_zero fun h0 => hnull ?_
    rw [hleft, (prevOf_eq_none_iff hi).mpr h0]
    rfl
  have hlen : i - 1 < chain.length := by rw [h.1]; omega
  rw [hframe hpos, List.getElem?_eq_getElem hlen]
  rfl

omit [Field K] [LinearOrder K] in
theorem CalibratedChain.allReady {scenes : Heap K} {ordered : List Addr}
    {chain : List (RAndT K)} (h : CalibratedChain scenes ordered chain) :
    AllReady scenes ordered.reverse :=
  h.leftLinked.allReady h.rAndT_isSome

/-! ## When the published skeletons are in the first frame -/

/-- The merge returns, and what it publishes for the scene at index `i` has
its points where the first `i` frames of the chain take them one after the
other. -/
def PublishedInFirstFrame (rand : Nat → Nat) (now : Int) (σ : Viewport K)
    (chain : List (RAndT K)) : Prop :=
  ∃ σ' visits, (mergeScenes rand now).run (σ, []) = .ok ⟨⟩ (σ', visits) ∧
    ∀ i a, σ.orderedScenes[i]? = some a → ∀ visit ∈ visits, visit.scene = a →
      ∀ u ∈ visit.updates,
        u.skeleton.points = u.source.2.points.map (Frame.compose (chain.take i)).apply

/-- The merge uses the accumulated frames. -/
theorem points_of_visit {σ : Viewport K} {chain : List (RAndT K)} {rand : Nat → Nat}
    (h : CalibratedChain σ.scenes σ.orderedScenes chain) {i : Nat} {visit : Visit K}
    (hi : σ.orderedScenes[i]? = some visit.scene) (hvisit : visit ∈ σ.visits rand)
    {u : Publication K} (hu : u ∈ visit.updates) :
    u.skeleton.points =
      u.source.2.points.map (Frame.accumulate (chain.take i)).apply := by
  obtain ⟨pre, rest, scenes', key, hsplit, hrel, hview, hup⟩ := ofWalk_of_mem_plan hvisit
  obtain ⟨hget, _⟩ := reverse_eq_append_cons hsplit
  obtain rfl := h.leftLinked.index_inj hi hget
  obtain ⟨hcombi, hfirst⟩ := view_of_chain (h.of_related hrel) hsplit hview
  rw [hup] at hu
  rw [← hcombi]
  refine points_shown (fun hnone => ?_) (mem_publications hu).2.2
  rw [hcombi, hfirst hnone]
  rfl

/-- A calibrated scene. -/
def calibratedScene (people : OrdMap Nat (Skeleton K)) (left : Option Addr)
    (rAndT : Option (RAndT K)) : Scene K where
  sensorId := []
  skeletons := people
  dimensionX := 0
  dimensionY := 0
  dimensionZ := 0
  ordering := 0
  calibrated := true
  left := .ofOption left
  right := .null
  rAndT := rAndT
  firstSkeletonObservedTime := 0

/-- A scene of a chain whose only skeletons are at index `busy`. -/
def chainScene (chain : List (RAndT K)) (busy : Nat) (people : OrdMap Nat (Skeleton K))
    (k : Nat) : Scene K :=
  calibratedScene (if k = busy then people else .empty)
    (if k = 0 then none else some (k - 1)) (if k = 0 then none else chain[k - 1]?)

omit [Field K] [LinearOrder K] in
theorem left_chainScene (chain : List (RAndT K)) (busy : Nat)
    (people : OrdMap Nat (Skeleton K)) (k : Nat) :
    (chainScene chain busy people k).left =
      .ofOption (if k = 0 then none else some (k - 1)) := rfl

omit [Field K] [LinearOrder K] in
theorem skeletons_chainScene_self (chain : List (RAndT K)) (busy : Nat)
    (people : OrdMap Nat (Skeleton K)) :
    (chainScene chain busy people busy).skeletons = people := if_pos rfl

omit [Field K] [LinearOrder K] in
theorem skeletons_chainScene_of_ne (chain : List (RAndT K)) {busy : Nat}
    (people : OrdMap Nat (Skeleton K)) {k : Nat} (h : k ≠ busy) :
    (chainScene chain busy people k).skeletons = .empty := if_neg h

/-- The viewport with these scenes. -/
def chainViewport (chain : List (RAndT K)) (busy : Nat) (people : OrdMap Nat (Skeleton K)) :
    Viewport K :=
  { Viewport.start with
    scenes :=
      { entries := (List.range (chain.length + 1)).map fun k =>
          (k, chainScene chain busy people k)
        sorted := List.pairwise_map.mpr List.pairwise_lt_range }
    orderedScenes := List.range (chain.length + 1) }

section ChainViewport

variable (chain : List (RAndT K)) (busy : Nat) (people : OrdMap Nat (Skeleton K))

omit [Field K] [LinearOrder K] in
theorem find?_chainViewport {k : Nat} (hk : k < chain.length + 1) :
    (chainViewport chain busy people).scenes.find? k =
      some (chainScene chain busy people k) := by
  rw [OrdMap.find?_eq_some_iff]
  exact List.mem_map.mpr ⟨k, List.mem_range.mpr hk, rfl⟩

omit [Field K] [LinearOrder K] in
theorem calibratedChain_chainViewport :
    CalibratedChain (chainViewport chain busy people).scenes
      (chainViewport chain busy people).orderedScenes chain := by
  refine ⟨by simp [chainViewport], fun i a ha => ?_⟩
  obtain ⟨hi, rfl⟩ := List.getElem?_eq_some_iff.mp ha
  have hlt : i < chain.length + 1 := by simpa [chainViewport] using hi
  have hget : (chainViewport chain busy people).orderedScenes[i] = i := by
    simp [chainViewport]
  rw [hget]
  refine ⟨_, find?_chainViewport chain busy people hlt, rfl, ?_, fun hpos => ?_⟩
  · rw [left_chainScene, prevOf]
    split_ifs with h0
    · rfl
    · show _ = Link.ofOption (List.range (chain.length + 1))[i - 1]?
      rw [List.getElem?_range (by omega)]
  · unfold chainScene
    exact if_neg (by omega)

omit [Field K] [LinearOrder K] in
/-- The scenes behind the busy one are empty. -/
theorem skeletons_of_mem_behind {b : Addr}
    (hb : b ∈ ((chainViewport chain busy people).orderedScenes.drop (busy + 1)).reverse) :
    ∃ s, (chainViewport chain busy people).scenes.find? b = some s ∧ s.skeletons = .empty := by
  have hordered : (chainViewport chain busy people).orderedScenes =
      List.range (chain.length + 1) := rfl
  rw [List.mem_reverse, List.mem_drop_iff_getElem, hordered] at hb
  obtain ⟨j, hj, rfl⟩ := hb
  rw [List.length_range] at hj
  rw [List.getElem_range]
  exact ⟨_, find?_chainViewport chain busy people (by omega),
    skeletons_chainScene_of_ne chain people (by omega)⟩

/-- The visit of the busy scene shows all its skeletons: the scene on its
left has none to match them with. -/
theorem shown_of_readView_chainViewport (hbusy : busy < chain.length + 1) {toLeftEnd : List Addr}
    {v : View K}
    (hread : readView (chainViewport chain busy people).scenes busy toLeftEnd = .ok (some v)) :
    v.people = people ∧ ∀ person, ∃ sk, v.shown person = some sk := by
  obtain ⟨s, o, combi, hs, _, hleft, _, hpeople, _, _, _, _, hnone, hl⟩ :=
    readView_eq_some hread
  obtain rfl := Option.some.inj ((find?_chainViewport chain busy people hbusy).symm.trans hs)
  refine ⟨by rw [hpeople, skeletons_chainScene_self], fun person => ?_⟩
  unfold View.shown
  cases o with
  | none =>
    rw [hnone rfl]
    exact ⟨_, rfl⟩
  | some l =>
    obtain ⟨left, hfl, hvl⟩ := hl l rfl
    have hl' : (if busy = 0 then none else some (busy - 1)) = some l :=
      Link.ofOption_inj (by rw [← left_chainScene, hleft])
    have hlb : (l : Nat) ≠ busy ∧ (l : Nat) < chain.length + 1 := by
      split_ifs at hl' with h0
      have hsub : busy - 1 = (l : Nat) := Option.some.inj hl'
      refine ⟨fun h => ?_, hsub ▸ lt_of_le_of_lt (Nat.sub_le busy 1) hbusy⟩
      rw [h] at hsub
      omega
    obtain rfl := Option.some.inj ((find?_chainViewport chain busy people hlb.2).symm.trans hfl)
    rw [hvl]
    simp [skeletons_chainScene_of_ne chain people hlb.1]

/-- The merge of such a viewport publishes every skeleton. -/
theorem exists_publication_chainViewport (rand : Nat → Nat) (hbusy : busy < chain.length + 1)
    (body : Nat × Skeleton K) (hbody : body ∈ people.entries) :
    ∃ v key sk, (⟨busy, v, v.publications key⟩ : Visit K) ∈
        (chainViewport chain busy people).visits rand ∧
      (⟨body, key, sk⟩ : Publication K) ∈ v.publications key := by
  have hget : (chainViewport chain busy people).orderedScenes[busy]? = some busy :=
    List.getElem?_range hbusy
  have hready := (calibratedChain_chainViewport chain busy people).allReady
  rw [reverse_eq_of_getElem? hget] at hready
  obtain ⟨view, hread⟩ := (readView_isOk_iff _ _ _).mpr hready.of_append.1
  cases view with
  | none =>
    obtain ⟨s, hs, hcal⟩ := readView_eq_none_iff.mp hread
    obtain rfl := Option.some.inj ((find?_chainViewport chain busy people hbusy).symm.trans hs)
    cases hcal
  | some v =>
    -- the busy scene is the only one with skeletons, so its visit finds them all
    obtain ⟨key, hvisit⟩ := mem_plan_of_empty rand hready
      (fun b hb => skeletons_of_mem_behind chain busy people hb) hread 0
    rw [← reverse_eq_of_getElem? hget] at hvisit
    obtain ⟨hpeople, hshown⟩ := shown_of_readView_chainViewport chain busy people hbusy hread
    obtain ⟨sk, hsk⟩ := hshown body.2
    refine ⟨v, key, sk, hvisit, List.mem_filterMap.mpr ⟨body, ?_, by rw [hsk]; rfl⟩⟩
    rw [hpeople]
    exact hbody

/-- So the frame of the busy scene is the accumulated one. -/
theorem points_of_publishedInFirstFrame {rand : Nat → Nat} {now : Int}
    (hbusy : busy < chain.length + 1)
    (h : PublishedInFirstFrame rand now (chainViewport chain busy people) chain)
    (body : Nat × Skeleton K) (hbody : body ∈ people.entries) :
    body.2.points.map (Frame.accumulate (chain.take busy)).apply =
      body.2.points.map (Frame.compose (chain.take busy)).apply := by
  have hget : (chainViewport chain busy people).orderedScenes[busy]? = some busy :=
    List.getElem?_range hbusy
  obtain ⟨v, key, sk, hvisit, hpub⟩ :=
    exists_publication_chainViewport chain busy people rand hbusy body hbody
  obtain ⟨σ', visits, hrun, hall⟩ := h
  have hvisits : visits = ((chainViewport chain busy people).visits rand).reverse :=
    congrArg Prod.snd ((after_of_ok hrun).symm.trans (after_mergeScenes rand now _))
  have hcompose := hall busy busy hget ⟨busy, v, v.publications key⟩
    (by rw [hvisits, List.mem_reverse]; exact hvisit) rfl _ hpub
  have haccumulate :=
    points_of_visit (calibratedChain_chainViewport chain busy people) hget hvisit hpub
  exact haccumulate.symm.trans hcompose

end ChainViewport

/-- The merge publishes every skeleton of a calibrated chain in the frame of
the first scene, whatever the scenes hold, exactly when the chain is
aligned. -/
theorem mergeScenes_firstFrame_iff (chain : List (RAndT K)) :
    (∀ σ : Viewport K, CalibratedChain σ.scenes σ.orderedScenes chain →
      ∀ rand now, PublishedInFirstFrame rand now σ chain) ↔ Frame.Aligned chain := by
  rw [← Frame.accumulate_eq_compose_iff]
  constructor
  · intro h part hpart
    have hle : part.length ≤ chain.length := hpart.length_le
    have htake : chain.take part.length = part := (List.prefix_iff_eq_take.mp hpart).symm
    refine Frame.ext_apply fun p => ?_
    have hpoints := points_of_publishedInFirstFrame chain part.length
      (OrdMap.empty.assign 0 (standingAt p)) (Nat.lt_succ_of_le hle)
      (h _ (calibratedChain_chainViewport chain part.length _) (fun _ => 0) 0)
      (0, standingAt p) List.mem_cons_self
    rw [htake, points_standingAt] at hpoints
    exact (List.cons.inj hpoints).1
  · intro h σ hchain rand now
    refine ⟨_, _, run_mergeScenes hchain.allReady, fun i a hi visit hvisit ha u hu => ?_⟩
    subst ha
    rw [points_of_visit hchain hi (List.mem_reverse.mp hvisit) hu,
      h _ (List.take_prefix i chain)]

/-- The second sensor is turned by a right angle, and the third stands one
step beside it. -/
def turnThenStep : List (RAndT ℚ) :=
  [⟨!![0, -1, 0; 1, 0, 0; 0, 0, 1], 0⟩, ⟨1, ![1, 0, 0]⟩]

/-- One person, where the third sensor stands. -/
def threeSensors : Viewport ℚ :=
  chainViewport turnThenStep 2 (OrdMap.empty.assign 0 (standingAt 0))

/-- The person is one step away from the first sensor along the second axis,
and the merge publishes the first axis. -/
theorem not_publishedInFirstFrame_threeSensors :
    CalibratedChain threeSensors.scenes threeSensors.orderedScenes turnThenStep ∧
      ¬ PublishedInFirstFrame (fun _ => 0) 0 threeSensors turnThenStep := by
  refine ⟨calibratedChain_chainViewport _ _ _, fun h => ?_⟩
  have hpoints := points_of_publishedInFirstFrame turnThenStep 2 _ (by decide) h
    (0, standingAt 0) List.mem_cons_self
  rw [points_standingAt] at hpoints
  have hfirst := congrFun (List.cons.inj hpoints).1 0
  revert hfirst
  simp [turnThenStep, Frame.accumulate, Frame.absorb, Frame.compose, Frame.comp, Frame.unit,
    Frame.apply, Matrix.vecHead]

end MinorityViewport
