import MinorityViewport.Algorithms.OrderNumbers

/-!
# Calibration against the left neighbour

`MergeScenes` takes the matrices of a calibrated scene for the way into the
scene on its left in the order.  Nothing in the state says which scene the
matrices were computed against, so a run is followed together with `Refs`,
which `Refs.after` brings up to date at every event.

* `assignment` reads off a call of `CalibrateScenes` which scene gets
  matrices, and against which reference scene, and
  `after_calibrateScenes` is the whole effect in its terms.
* `Known` holds in every run: a scene with a reference scene is calibrated
  and holds matrices.
* `ToLeft` is the property, `KeepsToLeft` the condition on an event, and
  `run_toLeft_iff` says that the condition is exact.
-/

namespace MinorityViewport

open Exec Viewport
open Neighbours (LeftOf leftOf_iff_append leftOf_iff_getElem? eq_take_append_of_getElem?
  exists_gap_of_leftOf_filter)

variable {K : Type}

/-! ## What a call assigns -/

/-- The scene that gets matrices, and the reference scene, unless its order
is out of range. -/
structure Assignment (K : Type) where
  body : Addr
  ref : Option Addr
  rAndT : RAndT K

namespace Viewport

/-- The assignment of a call that gets as far. -/
def assignment [Field K] [DecidableEq K] (σ : Viewport K) (svd : SvdCompute K)
    (sceneAOrder : Nat) (skeletonsA : Str) (sceneBOrder : Nat) (skeletonsB : Str) :
    Option (Assignment K) :=
  if σ.orderedScenes.length > 0 then
    match assemble sceneAOrder skeletonsA sceneBOrder skeletonsB with
    | .ok (some m) =>
      match rigidFit svd m.A m.B, σ.sceneAt m.bodyFrameOrder with
      | .ok rAndT, .ok body => some ⟨body, (σ.sceneAt m.refFrameOrder).toOption, rAndT⟩
      | _, _ => none
    | _ => none
  else none

/-- The matrices go to the body scene before the reference scene is looked
up, and the flags to both after it. -/
def assign (σ : Viewport K) (c : Assignment K) : Viewport K :=
  let σ := σ.write c.body (·.setRAndT c.rAndT)
  c.ref.elim σ fun ref =>
    (σ.write c.body (·.setCalibration true)).write ref (·.setCalibration true)

theorem mem_of_sceneAt {σ : Viewport K} {order : Nat} {a : Addr}
    (h : σ.sceneAt order = .ok a) : a ∈ σ.orderedScenes := by
  cases order with
  | zero => cases h
  | succ i =>
    rw [sceneAt] at h
    cases hget : σ.orderedScenes[i]? with
    | none =>
      rw [hget] at h
      cases h
    | some b =>
      rw [hget] at h
      obtain rfl := Except.ok.inj h
      exact List.mem_of_getElem? hget

section Assignment

variable [Field K] [DecidableEq K]

theorem mem_of_assignment {σ : Viewport K} {svd : SvdCompute K} {sceneAOrder sceneBOrder : Nat}
    {skeletonsA skeletonsB : Str} {c : Assignment K}
    (h : σ.assignment svd sceneAOrder skeletonsA sceneBOrder skeletonsB = some c) :
    c.body ∈ σ.orderedScenes ∧ ∀ ref, c.ref = some ref → ref ∈ σ.orderedScenes := by
  unfold assignment at h
  split_ifs at h
  split at h
  · rename_i m _
    split at h
    · rename_i hbody
      obtain rfl := Option.some.inj h
      refine ⟨mem_of_sceneAt hbody, fun ref href => ?_⟩
      cases hat : σ.sceneAt m.refFrameOrder with
      | error e =>
        rw [hat] at href
        cases href
      | ok r =>
        rw [hat] at href
        obtain rfl := Option.some.inj href
        exact mem_of_sceneAt hat
    · cases h
  · cases h

theorem after_calibrateScenes {σ : Viewport K}
    (hlive : ∀ a ∈ σ.orderedScenes, (σ.scenes.find? a).isSome) (svd : SvdCompute K)
    (sceneAOrder : Nat) (skeletonsA : Str) (sceneBOrder : Nat) (skeletonsB : Str) :
    after (calibrateScenes svd sceneAOrder skeletonsA sceneBOrder skeletonsB) σ =
      (σ.assignment svd sceneAOrder skeletonsA sceneBOrder skeletonsB).elim σ σ.assign := by
  rw [calibrateScenes, after_get_bind, assignment]
  split_ifs with hpos
  · rw [after_ofExcept_bind]
    cases assemble (K := K) sceneAOrder skeletonsA sceneBOrder skeletonsB with
    | error e => rfl
    | ok assembled =>
      cases assembled with
      | none => rfl
      | some m =>
        simp only [after_ofExcept_bind]
        cases hfit : rigidFit svd m.A m.B with
        | error e => rfl
        | ok rAndT =>
          cases hbody : σ.sceneAt m.bodyFrameOrder with
          | error e => rfl
          | ok body =>
            have hbodyLive := hlive body (mem_of_sceneAt hbody)
            simp only [after_writeScene_bind hbodyLive, after_ofExcept_bind]
            cases href : σ.sceneAt m.refFrameOrder with
            | error e => rfl
            | ok ref =>
              have hrefLive := hlive ref (mem_of_sceneAt href)
              show after (writeScene body _ >>= _) _ = _
              rw [after_writeScene_bind (by simpa [write] using hbodyLive),
                after_writeScene_bind (by simpa [write] using hrefLive)]
              rfl
  · rfl

end Assignment

/-- The calibrated flag of a live scene. -/
def isCalibrated (σ : Viewport K) (a : Addr) : Bool :=
  (σ.scenes.find? a).elim false Scene.calibrated

theorem isCalibrated_of_find? {σ : Viewport K} {a : Addr} {s : Scene K}
    (hs : σ.scenes.find? a = some s) : σ.isCalibrated a = s.calibrated := by
  rw [isCalibrated, hs]
  rfl

theorem isCalibrated_related {R : Scene K → Scene K → Prop} {σ σ' : Viewport K}
    (hrel : Heap.Related R σ.scenes σ'.scenes)
    (hR : ∀ s s', R s s' → s'.calibrated = s.calibrated) (a : Addr) :
    σ'.isCalibrated a = σ.isCalibrated a := by
  cases hs : σ.scenes.find? a with
  | some s =>
    obtain ⟨s', hs', hsame⟩ := hrel.find? hs
    rw [isCalibrated_of_find? hs, isCalibrated_of_find? hs', hR s s' hsame]
  | none =>
    have hnone := hrel.isSome a
    rw [hs, Option.isSome_none, Option.isSome_eq_false_iff, Option.isNone_iff_eq_none] at hnone
    rw [isCalibrated, isCalibrated, hs, hnone]

/-- The body scene gets the matrices, and both scenes get the flag if the
reference scene is found. -/
theorem find?_assign {σ : Viewport K} {a : Addr} {s : Scene K} (c : Assignment K)
    (hs : σ.scenes.find? a = some s) :
    ∃ s', (σ.assign c).scenes.find? a = some s' ∧
      (s'.calibrated ↔ s.calibrated ∨ ∃ ref, c.ref = some ref ∧ (a = c.body ∨ a = ref)) ∧
      s'.rAndT = if a = c.body then some c.rAndT else s.rAndT := by
  obtain ⟨body, ref, rAndT⟩ := c
  cases ref with
  | none =>
    simp only [assign, write, Option.elim_none, Heap.find?_modifyAt, hs]
    split_ifs <;> simp [Scene.setRAndT]
  | some ref =>
    simp only [assign, write, Option.elim_some, Heap.find?_modifyAt, hs]
    split_ifs <;> simp_all [Scene.setRAndT, Scene.setCalibration]

end Viewport

/-! ## The reference scenes of a run -/

/-- The reference scene that the matrices of each scene were last computed
against. -/
abbrev Refs := Addr → Option Addr

/-- A call that assigns matrices records its reference scene.  The scenes of
a client that leaves are forgotten. -/
def Refs.after [Field K] [LinearOrder K] (refs : Refs) (σ : Viewport K) : Event K → Refs
  | .calibrateScenes svd sceneAOrder skeletonsA sceneBOrder skeletonsB =>
    match σ.assignment svd sceneAOrder skeletonsA sceneBOrder skeletonsB with
    | some c => Function.update refs c.body c.ref
    | none => refs
  | .deregisterClient clientId =>
    match σ.clients.find clientId with
    | some client => fun a =>
      if a ∈ client.scenes then none else (refs a).filter (· ∉ client.scenes)
    | none => refs
  | _ => refs

theorem Refs.after_deregisterClient [Field K] [LinearOrder K] {σ : Viewport K} {clientId : Nat}
    {client : Client} (hfind : σ.clients.find clientId = some client) (refs : Refs) (a : Addr) :
    refs.after σ (.deregisterClient clientId) a =
      if a ∈ client.scenes then none else (refs a).filter (· ∉ client.scenes) := by
  simp only [Refs.after, hfind]

/-- A scene with a reference scene is calibrated and holds matrices. -/
def Known (σ : Viewport K) (refs : Refs) : Prop :=
  ∀ a ref, refs a = some ref →
    ∃ s, σ.scenes.find? a = some s ∧ s.calibrated ∧ s.rAndT.isSome

/-- The event keeps the calibrated scenes calibrated, and their matrices. -/
theorem Known.mono {σ σ' : Viewport K} {refs refs' : Refs} (h : Known σ refs)
    (hrefs : ∀ a ref, refs' a = some ref → refs a = some ref ∧
      ∀ s, σ.scenes.find? a = some s →
        ∃ s', σ'.scenes.find? a = some s' ∧ s'.calibrated = s.calibrated ∧ s'.rAndT = s.rAndT) :
    Known σ' refs' := by
  intro a ref href
  obtain ⟨hold, hscenes⟩ := hrefs a ref href
  obtain ⟨s, hs, hflag, hmatrices⟩ := h a ref hold
  obtain ⟨s', hs', hflag', hmatrices'⟩ := hscenes s hs
  exact ⟨s', hs', hflag'.trans hflag, hmatrices'.symm ▸ hmatrices⟩

theorem Known.related {R : Scene K → Scene K → Prop} {σ σ' : Viewport K} {refs : Refs}
    (h : Known σ refs) (hrel : Heap.Related R σ.scenes σ'.scenes)
    (hR : ∀ s s', R s s' → s'.calibrated = s.calibrated ∧ s'.rAndT = s.rAndT) :
    Known σ' refs := by
  refine h.mono fun a ref href => ⟨href, fun s hs => ?_⟩
  obtain ⟨s', hs', hsame⟩ := hrel.find? hs
  exact ⟨s', hs', hR s s' hsame⟩

theorem Known.assign {σ : Viewport K} {refs : Refs} (h : Known σ refs) {c : Assignment K}
    (hbody : (σ.scenes.find? c.body).isSome) :
    Known (σ.assign c) (Function.update refs c.body c.ref) := by
  intro a ref href
  by_cases ha : a = c.body
  · subst ha
    obtain ⟨s, hs⟩ := Option.isSome_iff_exists.mp hbody
    obtain ⟨s', hs', hflag, hmatrices⟩ := find?_assign c hs
    rw [Function.update_self] at href
    refine ⟨s', hs', hflag.mpr (Or.inr ⟨ref, href, Or.inl rfl⟩), ?_⟩
    rw [hmatrices, if_pos rfl]
    rfl
  · rw [Function.update_of_ne ha] at href
    obtain ⟨s, hs, hcal, hsome⟩ := h a ref href
    obtain ⟨s', hs', hflag, hmatrices⟩ := find?_assign c hs
    refine ⟨s', hs', hflag.mpr (Or.inl hcal), ?_⟩
    rw [hmatrices, if_neg ha]
    exact hsome

theorem Known.step [Field K] [LinearOrder K] {σ σ' : Viewport K} {e : Event K} {refs : Refs}
    (h : Known σ refs) (hwf : WellFormed σ) (hstep : Step σ e σ') :
    Known σ' (refs.after σ e) := by
  cases hstep.effect hwf with
  | registered | unregistered | refused => exact h
  | enrolled henr =>
    exact h.mono fun a ref href => ⟨href, fun s hs => ⟨s, henr.kept a s hs, rfl, rfl⟩⟩
  | deregistered hfind =>
    refine h.mono fun a ref href => ?_
    rw [Refs.after_deregisterClient hfind] at href
    split_ifs at href with hin
    refine ⟨(Option.filter_eq_some_iff.mp href).1, fun s hs => ⟨s, ?_, rfl, rfl⟩⟩
    exact find?_withoutClient.mpr ⟨hin, hs⟩
  | unknown hfind =>
    rw [Refs.after, hfind]
    exact h
  | accepted =>
    refine h.related σ.related_acceptedOrder fun s s' hs => ?_
    rw [hs]
    exact ⟨rfl, rfl⟩
  | recalibrated =>
    rw [← hstep.after_eq, Event.call, after_bind_pure,
      after_calibrateScenes fun a ha => hwf.live a (hwf.ordered a ha), Refs.after]
    cases hc : σ.assignment _ _ _ _ _ with
    | none => exact h
    | some c => exact h.assign (hwf.live _ (hwf.ordered _ (mem_of_assignment hc).1))
  | quiet he ht =>
    have hsame : refs.after σ e = refs := by
      cases e <;> first | rfl | exact absurd trivial he
    rw [hsame]
    exact h.related ht.scenes fun s s' hs => ⟨hs.2.2.1, hs.2.2.2.2.2⟩

/-! ## The property -/

/-- A `3 × 3` rotation and a `3 × 1` translation. -/
def Scene.HoldsMatrices [Zero K] (s : Scene K) : Prop :=
  s.getRMatrix.HasSize 3 3 ∧ s.getTMatrix.HasSize 3 1

theorem Scene.holdsMatrices_of_isSome [Zero K] {s : Scene K} (h : s.rAndT.isSome) :
    s.HoldsMatrices := by
  obtain ⟨F, hF⟩ := Option.isSome_iff_exists.mp h
  rw [HoldsMatrices, getRMatrix, getTMatrix, hF]
  exact ⟨⟨rfl, rfl⟩, rfl, rfl⟩

variable [Field K]

/-- Every calibrated scene from the second place on holds matrices that were
computed against the scene before it. -/
def ToLeft (σ : Viewport K) (refs : Refs) : Prop :=
  ∀ i b a s, σ.orderedScenes[i]? = some b → σ.orderedScenes[i + 1]? = some a →
    σ.scenes.find? a = some s → s.calibrated → s.HoldsMatrices ∧ refs a = some b

theorem toLeft_iff {σ : Viewport K} {refs : Refs} (hwf : WellFormed σ) (hk : Known σ refs) :
    ToLeft σ refs ↔
      ∀ b a, LeftOf σ.orderedScenes b a → σ.isCalibrated a → refs a = some b := by
  constructor
  · intro h b a hba hcal
    obtain ⟨i, hb, ha⟩ := leftOf_iff_getElem?.mp hba
    obtain ⟨s, hs⟩ := Option.isSome_iff_exists.mp (hwf.live a (hwf.ordered a hba.right_mem))
    rw [isCalibrated_of_find? hs] at hcal
    exact (h i b a s hb ha hs hcal).2
  · intro h i b a s hb ha hs hcal
    have href := h b a (leftOf_iff_getElem?.mpr ⟨i, hb, ha⟩) (by rwa [isCalibrated_of_find? hs])
    obtain ⟨t, ht, _, hmatrices⟩ := hk a b href
    obtain rfl := Option.some.inj (hs.symm.trans ht)
    exact ⟨Scene.holdsMatrices_of_isSome hmatrices, href⟩

/-- An event that keeps the order, and the flags of the ordered scenes. -/
theorem ToLeft.congr {σ σ' : Viewport K} {refs : Refs} (h : ToLeft σ refs)
    (hwf : WellFormed σ) (hk : Known σ refs) (hwf' : WellFormed σ') (hk' : Known σ' refs)
    (hordered : σ'.orderedScenes = σ.orderedScenes)
    (hscenes : ∀ a ∈ σ.orderedScenes, σ'.isCalibrated a = σ.isCalibrated a) :
    ToLeft σ' refs := by
  rw [toLeft_iff hwf' hk', hordered]
  intro b a hba hcal
  rw [hscenes a hba.right_mem] at hcal
  exact (toLeft_iff hwf hk).mp h b a hba hcal

/-! ## A call that assigns matrices -/

/-- Wherever the body scene is calibrated and stands behind a scene, this is
the reference scene.  A reference scene that is flagged for the first time
is the body scene itself or stands behind no scene. -/
def AssignsToLeft (σ : Viewport K) (c : Assignment K) : Prop :=
  (c.ref.isSome ∨ σ.isCalibrated c.body →
      ∀ b, LeftOf σ.orderedScenes b c.body → c.ref = some b) ∧
    ∀ ref, c.ref = some ref → ref ≠ c.body → ¬ σ.isCalibrated ref →
      ∀ b, ¬ LeftOf σ.orderedScenes b ref

theorem toLeft_assign_iff {σ : Viewport K} {refs : Refs} {c : Assignment K} (h : ToLeft σ refs)
    (hwf : WellFormed σ) (hk : Known σ refs) (hwf' : WellFormed (σ.assign c))
    (hk' : Known (σ.assign c) (Function.update refs c.body c.ref)) :
    ToLeft (σ.assign c) (Function.update refs c.body c.ref) ↔ AssignsToLeft σ c := by
  have hordered : (σ.assign c).orderedScenes = σ.orderedScenes := by
    unfold assign
    cases c.ref <;> rfl
  have hflag : ∀ a ∈ σ.orderedScenes, (σ.assign c).isCalibrated a ↔
      σ.isCalibrated a ∨ ∃ ref, c.ref = some ref ∧ (a = c.body ∨ a = ref) := by
    intro a ha
    obtain ⟨s, hs⟩ := Option.isSome_iff_exists.mp (hwf.live a (hwf.ordered a ha))
    obtain ⟨s', hs', hflag, _⟩ := find?_assign c hs
    rw [isCalibrated_of_find? hs, isCalibrated_of_find? hs', hflag]
  rw [toLeft_iff hwf hk] at h
  rw [toLeft_iff hwf' hk', hordered]
  constructor
  · refine fun h' => ⟨fun hbody b hb => ?_, fun ref href hne hcal b hb => hcal ?_⟩
    · have hcal : (σ.assign c).isCalibrated c.body := by
        refine (hflag _ hb.right_mem).mpr (hbody.symm.imp_right fun hsome => ?_)
        obtain ⟨ref, href⟩ := Option.isSome_iff_exists.mp hsome
        exact ⟨ref, href, Or.inl rfl⟩
      simpa using h' b c.body hb hcal
    · have hrefs := h' b ref hb ((hflag _ hb.right_mem).mpr (Or.inr ⟨ref, href, Or.inr rfl⟩))
      rw [Function.update_of_ne hne] at hrefs
      obtain ⟨s, hs, hcal, _⟩ := hk ref b hrefs
      rwa [isCalibrated_of_find? hs]
  · rintro ⟨hbody, href⟩ b a hba hcal
    rw [hflag a hba.right_mem] at hcal
    by_cases ha : a = c.body
    · subst ha
      rw [Function.update_self]
      refine hbody (hcal.symm.imp_left fun ⟨ref, href, _⟩ => ?_) b hba
      rw [href]
      rfl
    · rw [Function.update_of_ne ha]
      by_cases hold : σ.isCalibrated a
      · exact h b a hba hold
      · obtain ⟨ref, hsome, hor⟩ := hcal.resolve_left hold
        obtain rfl := hor.resolve_left ha
        exact absurd hba (href a hsome ha hold b)

/-! ## A client that leaves -/

/-- A calibrated scene that stays keeps the scene on its left, unless
everything before it goes. -/
def KeepsLeft (σ : Viewport K) (client : Client) : Prop :=
  ∀ i b a, σ.orderedScenes[i]? = some b → σ.orderedScenes[i + 1]? = some a →
    σ.isCalibrated a → a ∉ client.scenes → b ∈ client.scenes →
      ∀ x ∈ σ.orderedScenes.take i, x ∈ client.scenes

omit [Field K] in
theorem isCalibrated_withoutClient {σ : Viewport K} {client : Client} {a : Addr}
    (ha : a ∉ client.scenes) (clientId : Nat) :
    (σ.withoutClient clientId client).isCalibrated a = σ.isCalibrated a := by
  rw [isCalibrated, isCalibrated]
  show Option.elim ((σ.scenes.free client.scenes).find? a) _ _ = _
  rw [Heap.find?_free, if_neg ha]

variable [LinearOrder K]

/-- Over the states before the client leaves. -/
theorem toLeft_withoutClient_iff {σ : Viewport K} {refs : Refs} {clientId : Nat}
    {client : Client} (hfind : σ.clients.find clientId = some client)
    (hwf : WellFormed σ)
    (hk' : Known (σ.withoutClient clientId client) (refs.after σ (.deregisterClient clientId))) :
    ToLeft (σ.withoutClient clientId client) (refs.after σ (.deregisterClient clientId)) ↔
      ∀ b a, LeftOf (σ.orderedScenes.filter (· ∉ client.scenes)) b a → σ.isCalibrated a →
        refs a = some b := by
  rw [toLeft_iff (hwf.withoutClient hfind) hk']
  have hordered : (σ.withoutClient clientId client).orderedScenes =
      σ.orderedScenes.filter (· ∉ client.scenes) := rfl
  rw [hordered]
  refine forall₃_congr fun b a hba => ?_
  have hout : ∀ {x}, x ∈ σ.orderedScenes.filter (· ∉ client.scenes) → x ∉ client.scenes :=
    fun hx => by simpa using (List.mem_filter.mp hx).2
  rw [isCalibrated_withoutClient (hout hba.right_mem),
    Refs.after_deregisterClient hfind, if_neg (hout hba.right_mem), Option.filter_eq_some_iff]
  refine forall_congr' fun _ => and_iff_left ?_
  simpa using hout hba.left_mem

theorem toLeft_withoutClient_iff_keepsLeft {σ : Viewport K} {refs : Refs} {clientId : Nat}
    {client : Client} (hfind : σ.clients.find clientId = some client) (h : ToLeft σ refs)
    (hwf : WellFormed σ) (hk : Known σ refs)
    (hk' : Known (σ.withoutClient clientId client) (refs.after σ (.deregisterClient clientId))) :
    ToLeft (σ.withoutClient clientId client) (refs.after σ (.deregisterClient clientId)) ↔
      KeepsLeft σ client := by
  rw [toLeft_withoutClient_iff hfind hwf hk']
  rw [toLeft_iff hwf hk] at h
  constructor
  · intro h' i b a hb ha hcal haout hbin
    have hba := leftOf_iff_getElem?.mpr ⟨i, hb, ha⟩
    -- otherwise the last scene that stays before `b` comes to stand before `a`
    by_contra hstays
    have hne : (σ.orderedScenes.take i).filter (· ∉ client.scenes) ≠ [] := by
      simpa [List.filter_eq_nil_iff] using hstays
    obtain ⟨rest, x, hx⟩ := (List.eq_nil_or_concat' _).resolve_left hne
    have hxa : LeftOf (σ.orderedScenes.filter (· ∉ client.scenes)) x a := by
      rw [leftOf_iff_append, eq_take_append_of_getElem? hb ha, List.filter_append, hx,
        List.filter_cons_of_neg (by simpa using hbin),
        List.filter_cons_of_pos (by simpa using haout)]
      exact ⟨rest, _, List.append_assoc _ _ _⟩
    have hbx : b = x := Option.some.inj ((h b a hba hcal).symm.trans (h' x a hxa hcal))
    have hxout := (List.mem_filter.mp hxa.left_mem).2
    rw [← hbx] at hxout
    exact absurd hbin (by simpa using hxout)
  · intro hkeeps b a hba hcal
    obtain ⟨before, gap, behind, hsplit, hb, ha, hgap⟩ := exists_gap_of_leftOf_filter hba
    rcases List.eq_nil_or_concat' gap with rfl | ⟨rest, x, rfl⟩
    · exact h b a (leftOf_iff_append.mpr ⟨before, behind, by simpa using hsplit⟩) hcal
    · -- the scene before `a` goes, and `b` before it stays
      obtain ⟨front, hfront, hmem⟩ : ∃ front, σ.orderedScenes = front ++ x :: a :: behind ∧
          b ∈ front := ⟨before ++ b :: rest, by simpa using hsplit, by simp⟩
      refine absurd (hkeeps front.length x a ?_ ?_ hcal (by simpa using ha)
        (by simpa using hgap x (by simp)) b ?_) (by simpa using hb)
      · rw [hfront]
        simp
      · rw [hfront]
        simp
      · rwa [hfront, List.take_left]

/-! ## Steps and runs -/

/-- A new order in which every calibrated scene was first observed right after
its reference scene, the end of a client that takes no left neighbour away,
and a call that assigns matrices against the left neighbour. -/
def KeepsToLeft (σ : Viewport K) (refs : Refs) : Event K → Prop
  | .calibrateSceneOrder =>
    (∀ a ∈ σ.owned, 0 < σ.scenes.firstObserved a) →
      ∀ b a, StampedNext σ.scenes.firstObserved σ.owned b a → σ.isCalibrated a →
        refs a = some b
  | .deregisterClient clientId =>
    ∀ client, σ.clients.find clientId = some client → KeepsLeft σ client
  | .calibrateScenes svd sceneAOrder skeletonsA sceneBOrder skeletonsB =>
    ∀ c, σ.assignment svd sceneAOrder skeletonsA sceneBOrder skeletonsB = some c →
      AssignsToLeft σ c
  | _ => True

instance (σ : Viewport K) (client : Client) : Decidable (KeepsLeft σ client) :=
  decidable_of_iff (∀ i ∈ List.range σ.orderedScenes.length, ∀ b ∈ σ.orderedScenes[i]?,
      ∀ a ∈ σ.orderedScenes[i + 1]?, σ.isCalibrated a → a ∉ client.scenes → b ∈ client.scenes →
        ∀ x ∈ σ.orderedScenes.take i, x ∈ client.scenes)
    ⟨fun h i b a hb => h i (List.mem_range.mpr (List.getElem?_eq_some_iff.mp hb).1) b hb a,
      fun h i _ b hb a => h i b a hb⟩

instance (σ : Viewport K) (c : Assignment K) : Decidable (AssignsToLeft σ c) :=
  decidable_of_iff ((c.ref.isSome ∨ σ.isCalibrated c.body →
      ∀ b, LeftOf σ.orderedScenes b c.body → c.ref = some b) ∧
    ∀ ref ∈ c.ref, ref ≠ c.body → ¬ σ.isCalibrated ref →
      ∀ b, LeftOf σ.orderedScenes b ref → False) Iff.rfl

instance (σ : Viewport K) (refs : Refs) (e : Event K) : Decidable (KeepsToLeft σ refs e) :=
  match e with
  | .calibrateSceneOrder => decidable_of_iff
      ((∀ a ∈ σ.owned, 0 < σ.scenes.firstObserved a) →
        ∀ b ∈ σ.owned, ∀ a ∈ σ.owned, StampedNext σ.scenes.firstObserved σ.owned b a →
          σ.isCalibrated a → refs a = some b)
      ⟨fun h hpos b a hb => h hpos b hb.1 a hb.2.1 hb, fun h hpos b _ a _ => h hpos b a⟩
  | .deregisterClient clientId => inferInstanceAs (Decidable
      (∀ client ∈ σ.clients.find clientId, KeepsLeft σ client))
  | .calibrateScenes svd sceneAOrder skeletonsA sceneBOrder skeletonsB =>
    inferInstanceAs (Decidable
      (∀ c ∈ σ.assignment svd sceneAOrder skeletonsA sceneBOrder skeletonsB, AssignsToLeft σ c))
  | .registerClient .. | .registerSensors .. | .processSensorData .. | .getGlobalScene ..
  | .clear .. => isTrue trivial

/-- One step from a state that is calibrated to the left. -/
theorem toLeft_step_iff {σ σ' : Viewport K} {e : Event K} {refs : Refs} (h : ToLeft σ refs)
    (hwf : WellFormed σ) (hk : Known σ refs) (hstep : Step σ e σ') :
    ToLeft σ' (refs.after σ e) ↔ KeepsToLeft σ refs e := by
  have hwf' := hwf.step hstep
  have hk' := hk.step hwf hstep
  cases hstep.effect hwf with
  | registered | unregistered => exact iff_of_true h trivial
  | enrolled henr =>
    refine iff_of_true (h.congr hwf hk hwf' hk' henr.ordered fun a ha => ?_) trivial
    obtain ⟨s, hs⟩ := Option.isSome_iff_exists.mp (hwf.live a (hwf.ordered a ha))
    rw [isCalibrated_of_find? hs, isCalibrated_of_find? (henr.kept a s hs)]
  | deregistered hfind =>
    rw [toLeft_withoutClient_iff_keepsLeft hfind h hwf hk hk', KeepsToLeft]
    simp only [hfind, Option.some.injEq, forall_eq']
  | unknown hfind =>
    simp only [Refs.after, KeepsToLeft, hfind]
    exact iff_of_true h fun client hc => by cases hc
  | accepted hpos =>
    have hflag := isCalibrated_related σ.related_acceptedOrder fun s s' hs => by rw [hs]
    have hordered : σ.acceptedOrder.orderedScenes = σ.newOrder := rfl
    rw [toLeft_iff hwf' hk', KeepsToLeft, hordered]
    simp only [hflag, leftOf_newOrder_iff]
    exact ⟨fun h' _ => h', fun h' => h' hpos⟩
  | refused hpos =>
    refine iff_of_true (fun i b a s hb => ?_) fun hall => absurd hall hpos
    have hordered : σ.refusedOrder.orderedScenes = [] := rfl
    rw [hordered] at hb
    cases hb
  | recalibrated =>
    rw [← hstep.after_eq, Event.call, after_bind_pure,
      after_calibrateScenes fun a ha => hwf.live a (hwf.ordered a ha)] at hwf' hk' ⊢
    rw [Refs.after] at hk' ⊢
    rw [KeepsToLeft]
    cases hc : σ.assignment _ _ _ _ _ with
    | none => exact iff_of_true h fun c hsome => by cases hsome
    | some c =>
      rw [hc] at hwf' hk'
      simp only [Option.elim_some, Option.some.injEq, forall_eq']
      exact toLeft_assign_iff h hwf hk hwf' hk'
  | quiet he ht =>
    have hsame : refs.after σ e = refs := by
      cases e <;> first | rfl | exact absurd trivial he
    rw [hsame] at hk' ⊢
    refine iff_of_true (h.congr hwf hk hwf' hk' ht.ordered fun a _ => ?_) ?_
    · exact isCalibrated_related ht.scenes (fun s s' hs => hs.2.2.1) a
    · cases e <;> first | trivial | exact absurd trivial he

/-- Every state of a run is calibrated to the left. -/
def StaysToLeft : Viewport K → Refs → List (Event K × Viewport K) → Prop
  | _, _, [] => True
  | σ, refs, (e, σ') :: trace =>
    ToLeft σ' (refs.after σ e) ∧ StaysToLeft σ' (refs.after σ e) trace

/-- Every step of a run keeps the calibration to the left. -/
def StepsKeepToLeft : Viewport K → Refs → List (Event K × Viewport K) → Prop
  | _, _, [] => True
  | σ, refs, (e, σ') :: trace =>
    KeepsToLeft σ refs e ∧ StepsKeepToLeft σ' (refs.after σ e) trace

instance : (σ : Viewport K) → (refs : Refs) → (trace : List (Event K × Viewport K)) →
    Decidable (StepsKeepToLeft σ refs trace)
  | _, _, [] => isTrue trivial
  | σ, refs, (e, σ') :: trace =>
    have := instDecidableStepsKeepToLeft σ' (refs.after σ e) trace
    inferInstanceAs (Decidable
      (KeepsToLeft σ refs e ∧ StepsKeepToLeft σ' (refs.after σ e) trace))

theorem StaysToLeft.exists_refs {σ : Viewport K} {refs : Refs}
    {trace : List (Event K × Viewport K)} (h : StaysToLeft σ refs trace) :
    ∀ p ∈ trace, ∃ refs, ToLeft p.2 refs := by
  induction trace generalizing σ refs with
  | nil => exact fun _ hp => absurd hp List.not_mem_nil
  | cons p rest ih => exact List.forall_mem_cons.mpr ⟨⟨_, h.1⟩, ih h.2⟩

theorem Run.toLeft_iff {σ : Viewport K} {trace : List (Event K × Viewport K)}
    (hrun : Run σ trace) {refs : Refs} (h : ToLeft σ refs) (hwf : WellFormed σ)
    (hk : Known σ refs) : StaysToLeft σ refs trace ↔ StepsKeepToLeft σ refs trace := by
  induction hrun generalizing refs with
  | nil σ => exact Iff.rfl
  | cons hstep _ ih =>
    rw [StaysToLeft, StepsKeepToLeft, ← toLeft_step_iff h hwf hk hstep]
    exact and_congr_right fun h' => ih h' (hwf.step hstep) (hk.step hwf hstep)

/-- In a run from the start, every state is calibrated to the left exactly
when every step keeps it so. -/
theorem run_toLeft_iff {trace : List (Event K × Viewport K)} (hrun : Run start trace) :
    StaysToLeft start (fun _ => none) trace ↔ StepsKeepToLeft start (fun _ => none) trace :=
  hrun.toLeft_iff (fun _ _ _ _ hb => by cases hb) wellFormed_start fun _ _ href => by cases href

/-- Three sensors in order, and calibrations of the given pairs of orders
with one pair of skeletons each. -/
def calibrationsOf (pairs : List (Nat × Nat)) : List (Event ℚ) :=
  let skeletons := "\x7b\"skeletons\":[\x7b\"sensor_id\":\"s\"\x7d]\x7d".toList
  orderOf "\x7b\"Sensors\":[\x7b\"id\":\"a\"\x7d,\x7b\"id\":\"b\"\x7d,\x7b\"id\":\"c\"\x7d]\x7d"
      [(5, "a"), (6, "b"), (7, "c")] ++
    pairs.map fun p => .calibrateScenes (fun _ => ⟨0, 1, 1⟩) p.1 skeletons p.2 skeletons

/-- Before any calibration the three sensors are in order. -/
theorem ordered_calibrationsOf_nil :
    Reachable (stateAfter start (calibrationsOf [])) ∧
      (stateAfter start (calibrationsOf [])).orderedScenes = [1, 2, 3] := by
  obtain ⟨hruns, hordered⟩ : AllReturn start (calibrationsOf []) ∧
      (stateAfter start (calibrationsOf [])).orderedScenes = [1, 2, 3] := by
    decide +kernel
  exact ⟨Reachable.start.stateAfter hruns, hordered⟩

/-- Calibrations from the left to the right. -/
theorem run_toLeft_iff_inOrder :
    (∀ a ∈ [1, 2, 3], (stateAfter start (calibrationsOf [(1, 2), (3, 2)])).isCalibrated a) ∧
      StaysToLeft start (fun _ => none) (trail start (calibrationsOf [(1, 2), (3, 2)])) :=
  ⟨by decide +kernel, (run_toLeft_iff (run_trail (by decide +kernel))).mpr (by decide +kernel)⟩

/-- The third scene is calibrated against the second one, which is flagged
too and has no matrices. -/
theorem not_staysToLeft_secondFirst :
    Run start (trail start (calibrationsOf [(2, 3)])) ∧
      ¬ StaysToLeft start (fun _ => none) (trail start (calibrationsOf [(2, 3)])) := by
  obtain ⟨hruns, hlast⟩ : AllReturn start (calibrationsOf [(2, 3)]) ∧
      ∃ p ∈ trail start (calibrationsOf [(2, 3)]), p.2.orderedScenes = [1, 2, 3] ∧
        (p.2.scenes.find? 2).map (fun s => (s.calibrated, s.rAndT.isSome)) =
          some (true, false) := by
    decide +kernel
  refine ⟨run_trail hruns, fun h => ?_⟩
  obtain ⟨p, hp, hordered, hflag⟩ := hlast
  obtain ⟨s, hs, hflag⟩ := Option.map_eq_some_iff.mp hflag
  obtain ⟨hcal, hnone⟩ := Prod.mk.inj hflag
  obtain ⟨refs, hleft⟩ := h.exists_refs p hp
  obtain ⟨⟨⟨hrows, _⟩, _⟩, _⟩ :=
    hleft 0 1 2 s (by rw [hordered]; rfl) (by rw [hordered]; rfl) hs hcal
  have hempty : s.rAndT = none := by simpa using hnone
  rw [Scene.getRMatrix, hempty] at hrows
  cases hrows

end MinorityViewport
