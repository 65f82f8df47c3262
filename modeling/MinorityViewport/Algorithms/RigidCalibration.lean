import MinorityViewport.Algorithms.CalibrateScenes

/-!
# What a calibration assigns

`calibrateScenes_cases` reads the outcome of a call that returns off its
definition: nothing has changed, or the body scene has got the fit of the
points and both scenes are calibrated.

* `calibrateScenes_least_squares` is the optimality of the assigned pair, for
  the calls that succeed and for those that throw after the assignment.
* `rotation_proper_iff` says for which points every decomposition gives a
  rotation that keeps orientation: the determinant of the cross covariance
  must be positive.
-/

namespace MinorityViewport

open Exec Json

variable {K : Type} [Field K]

/-! ## The sizes of the matrices -/

theorem assemble_size [Machine] [DecidableEq K] {sceneAOrder sceneBOrder : Nat} {textA textB : Str}
    {m : Operands K}
    (h : assemble sceneAOrder textA sceneBOrder textB = .ok (some m)) :
    (m.A = .empty ∨ m.A.HasSize m.A.rows 3) ∧ (m.B = .empty ∨ m.B.HasSize m.B.rows 3) := by
  have hoperands : ∀ {sA sB : List (Skeleton K)},
      operands sceneAOrder sA sceneBOrder sB = .ok m →
      (m.A = .empty ∨ m.A.HasSize m.A.rows 3) ∧
        (m.B = .empty ∨ m.B.HasSize m.B.rows 3) := by
    intro sA sB hm
    unfold operands at hm
    split_ifs at hm
    all_goals
      obtain ⟨A, hA, hm⟩ := bind_eq_ok_iff.mp hm
      obtain ⟨B, hB, hm⟩ := bind_eq_ok_iff.mp hm
      obtain rfl := Except.ok.inj hm
      exact ⟨stackPoints_size hA, stackPoints_size hB⟩
  obtain ⟨rootA, rootB, hA, hB⟩ := read_of_assemble h
  rw [assemble_of_read hA hB] at h
  obtain ⟨jA, _, h⟩ := bind_eq_ok_iff.mp h
  obtain ⟨jB, _, h⟩ := bind_eq_ok_iff.mp h
  obtain ⟨⟨sA, sB⟩, _, h⟩ := bind_eq_ok_iff.mp h
  cases hm : operands sceneAOrder sA sceneBOrder sB with
  | ok m' =>
    rw [hm] at h
    obtain rfl := Option.some.inj (Except.ok.inj h)
    exact hoperands hm
  | error e =>
    rw [hm] at h
    cases h

/-- The fit is computed when there is a pair of points and the two matrices
have the same number of rows. -/
theorem rigidFit_isOk_iff (svd : SvdCompute K) {A B : DynMat K}
    (hA : A = .empty ∨ A.HasSize A.rows 3) (hB : B = .empty ∨ B.HasSize B.rows 3) :
    IsOk (rigidFit svd A B) ↔ A.rows ≠ 0 ∧ B.rows = A.rows := by
  have hnone : ∀ {X : DynMat K}, X.rows = 0 → X.reduceAvg? = none := by
    intro X hX
    exact if_neg fun h => h.1 hX
  have hshape : ∀ {X : DynMat K}, X = .empty ∨ X.HasSize X.rows 3 → X.rows ≠ 0 →
      X.HasSize X.rows 3 := by
    rintro X (rfl | h) hX
    · exact absurd rfl hX
    · exact h
  by_cases hA0 : A.rows = 0
  · rw [rigidFit, hnone hA0]
    exact iff_of_false (not_isOk_error _) fun h => h.1 hA0
  by_cases hB0 : B.rows = 0
  · refine iff_of_false ?_ fun h => hA0 (h.2.symm.trans hB0)
    rw [rigidFit, hnone hB0]
    obtain ⟨C, hC, _⟩ := DynMat.reduceAvg?_of_hasSize hA0 (by decide) (hshape hA hA0)
    rw [hC]
    exact not_isOk_error _
  by_cases hrows : B.rows = A.rows
  · refine iff_of_true ?_ ⟨hA0, hrows⟩
    have hBsize := hshape hB hB0
    rw [hrows] at hBsize
    rw [rigidFit_eq svd hA0 (hshape hA hA0) hBsize]
    exact isOk_ok _
  · refine iff_of_false ?_ fun h => hrows h.2
    obtain ⟨C, hC, hCsize, _⟩ :=
      DynMat.reduceAvg?_of_hasSize hA0 (by decide) (hshape hA hA0)
    obtain ⟨D, hD, hDsize, _⟩ :=
      DynMat.reduceAvg?_of_hasSize hB0 (by decide) (hshape hB hB0)
    have hsub : ∀ x : Fin 3 → K, B.sub?
        (DynMat.ofRows 3 (List.replicate (A.rows - 1 + 1) x)) = none := by
      intro x
      refine if_neg fun h => hrows ?_
      rw [h.2.2.1, DynMat.ofRows_rows, List.length_replicate]
      omega
    rw [rigidFit, hC, hD, DynMat.eq_ofRows_singleton hCsize,
      DynMat.eq_ofRows_singleton hDsize]
    simp only [cvCall, ok_bind, DynMat.pushBackTimes?_ofRows, hsub]
    exact not_isOk_error _

/-- A fit that is computed is the fit of the families of rows. -/
theorem rigidFit_of_assemble [DecidableEq K] {svd : SvdCompute K}
    {sceneAOrder sceneBOrder : Nat} {textA textB : Str} {m : Operands K}
    (h : assemble sceneAOrder textA sceneBOrder textB = .ok (some m)) {F : RAndT K}
    (hF : rigidFit svd m.A m.B = .ok F) :
    m.count ≠ 0 ∧ m.A.HasSize m.count 3 ∧ m.B.HasSize m.count 3 ∧
      F = Procrustes.fit (svd m.crossCov).U (svd m.crossCov).Vt m.bodyPoints m.refPoints := by
  obtain ⟨hA, hB⟩ := assemble_size h
  obtain ⟨h0, hrows⟩ := (rigidFit_isOk_iff svd hA hB).mp ⟨F, hF⟩
  have hAsize : m.A.HasSize m.count 3 := by
    rcases hA with hA | hA
    · exact absurd (congrArg DynMat.rows hA) h0
    · exact hA
  have hBsize : m.B.HasSize m.count 3 := by
    rcases hB with hB | hB
    · exact absurd (hrows.symm.trans (congrArg DynMat.rows hB)) h0
    · exact ⟨hrows, hB.2⟩
  rw [rigidFit_eq svd h0 hAsize hBsize] at hF
  exact ⟨h0, hAsize, hBsize, (Except.ok.inj hF).symm⟩

/-! ## The outcome of a call -/

namespace Viewport

omit [Field K] in
theorem sceneAt_eq_ok_iff {σ : Viewport K} {order : Nat} {a : Addr} :
    σ.sceneAt order = .ok a ↔ 0 < order ∧ σ.orderedScenes[order - 1]? = some a := by
  cases order with
  | zero => simp [sceneAt]
  | succ i =>
    rw [sceneAt, Nat.add_sub_cancel]
    cases σ.orderedScenes[i]? <;> simp

/-- The state after the assignment of a fit. -/
def assignFit (σ : Viewport K) (body ref : Addr) (F : RAndT K) : Viewport K :=
  ((σ.write body (·.setRAndT F)).write body (·.setCalibration true)).write ref
    (·.setCalibration true)

/-- A call that returns has changed nothing, or has assigned a fit. -/
theorem calibrateScenes_cases [Machine] [DecidableEq K] {svd : SvdCompute K}
    {sceneAOrder sceneBOrder : Nat} {textA textB : Str} {σ σ' : Viewport K} {b : Bool}
    (h : (calibrateScenes svd sceneAOrder textA sceneBOrder textB).run σ = .ok b σ') :
    (b = false ∧ σ' = σ) ∨
      (b = true ∧ ∃ m F body ref,
        assemble sceneAOrder textA sceneBOrder textB = .ok (some m) ∧
        rigidFit svd m.A m.B = .ok F ∧
        σ.sceneAt m.bodyFrameOrder = .ok body ∧ σ.sceneAt m.refFrameOrder = .ok ref ∧
        (σ.scenes.find? body).isSome ∧ (σ.scenes.find? ref).isSome ∧
        σ' = σ.assignFit body ref F) := by
  rw [calibrateScenes, run_get_bind_eq_ok_iff] at h
  split_ifs at h
  · obtain ⟨assembled, s, hrun, h⟩ := run_bind_eq_ok_iff.mp h
    obtain ⟨hasm, rfl⟩ := run_ofExcept_eq_ok_iff.mp hrun
    cases assembled with
    | none =>
      obtain ⟨rfl, rfl⟩ := run_pure_eq_ok_iff.mp h
      exact Or.inl ⟨rfl, rfl⟩
    | some m =>
      obtain ⟨F, s₁, hrun₁, h⟩ := run_bind_eq_ok_iff.mp h
      obtain ⟨hF, rfl⟩ := run_ofExcept_eq_ok_iff.mp hrun₁
      obtain ⟨body, s₂, hrun₂, h⟩ := run_bind_eq_ok_iff.mp h
      obtain ⟨hbody, rfl⟩ := run_ofExcept_eq_ok_iff.mp hrun₂
      obtain ⟨_, s₃, hset, h⟩ := run_bind_eq_ok_iff.mp h
      obtain ⟨hlive, rfl⟩ := run_writeScene_eq_ok_iff.mp hset
      obtain ⟨ref, s₄, hrun₄, h⟩ := run_bind_eq_ok_iff.mp h
      obtain ⟨href, rfl⟩ := run_ofExcept_eq_ok_iff.mp hrun₄
      obtain ⟨_, s₅, hcal, h⟩ := run_bind_eq_ok_iff.mp h
      obtain ⟨_, rfl⟩ := run_writeScene_eq_ok_iff.mp hcal
      obtain ⟨_, s₆, hcal', h⟩ := run_bind_eq_ok_iff.mp h
      obtain ⟨hlive', rfl⟩ := run_writeScene_eq_ok_iff.mp hcal'
      obtain ⟨rfl, rfl⟩ := run_pure_eq_ok_iff.mp h
      simp only [write, Heap.isSome_find?_modifyAt] at hlive'
      exact Or.inr ⟨rfl, m, F, body, ref, hasm, hF, hbody, href, hlive, hlive', rfl⟩
  · obtain ⟨rfl, rfl⟩ := run_pure_eq_ok_iff.mp h
    exact Or.inl ⟨rfl, rfl⟩

omit [Field K] in
/-- The body scene holds the fit that was assigned to it. -/
theorem find?_assignFit {σ : Viewport K} {body : Addr}
    (h : (σ.scenes.find? body).isSome) (ref : Addr) (F : RAndT K) :
    ∃ scene, (σ.assignFit body ref F).scenes.find? body = some scene ∧
      scene.rAndT = some F := by
  obtain ⟨s, hs⟩ := Option.isSome_iff_exists.mp h
  simp only [assignFit, write, Heap.find?_modifyAt, if_true, hs]
  split_ifs
  · exact ⟨_, rfl, rfl⟩
  · exact ⟨_, rfl, rfl⟩

/-- The call finds a fit, and the scene to store it in. -/
def Assigns [Machine] [DecidableEq K] (svd : SvdCompute K) (σ : Viewport K)
    (sceneAOrder : Nat) (textA : Str) (sceneBOrder : Nat) (textB : Str) : Prop :=
  ∃ m body, assemble sceneAOrder textA sceneBOrder textB = .ok (some m) ∧
    IsOk (rigidFit svd m.A m.B) ∧ σ.sceneAt m.bodyFrameOrder = .ok body ∧
      (σ.scenes.find? body).isSome

theorem assigns_of_ok [Machine] [DecidableEq K] {svd : SvdCompute K}
    {sceneAOrder sceneBOrder : Nat} {textA textB : Str} {σ σ' : Viewport K}
    (h : (calibrateScenes svd sceneAOrder textA sceneBOrder textB).run σ = .ok true σ') :
    σ.Assigns svd sceneAOrder textA sceneBOrder textB := by
  rcases calibrateScenes_cases h with ⟨hb, _⟩ | ⟨_, m, F, body, _, hm, hF, hbody, _, hlive, _⟩
  · cases hb
  · exact ⟨m, body, hm, ⟨F, hF⟩, hbody, hlive⟩

/-- The scene is alive and holds these matrices. -/
def Holds (body : Addr) (F : RAndT K) (σ : Viewport K) : Prop :=
  ∃ scene, σ.scenes.find? body = some scene ∧ scene.rAndT = some F

omit [Field K] in
theorem Holds.write {σ : Viewport K} {body : Addr} {F : RAndT K} (h : Holds body F σ) (a : Addr)
    {f : Scene K → Scene K} (hf : ∀ scene, (f scene).rAndT = scene.rAndT) :
    Holds body F (σ.write a f) := by
  obtain ⟨scene, hscene, hF⟩ := h
  simp only [Holds, Viewport.write, Heap.find?_modifyAt, hscene]
  split_ifs
  · exact ⟨f scene, rfl, (hf scene).trans hF⟩
  · exact ⟨scene, rfl, hF⟩

omit [Field K] in
theorem holds_write {σ : Viewport K} {body : Addr} (h : (σ.scenes.find? body).isSome)
    (F : RAndT K) : Holds body F (σ.write body (·.setRAndT F)) := by
  obtain ⟨scene, hscene⟩ := Option.isSome_iff_exists.mp h
  refine ⟨scene.setRAndT F, ?_, rfl⟩
  rw [Viewport.write, Heap.find?_modifyAt, if_pos rfl, hscene]
  rfl

omit [Field K] in
theorem moves_setCalibration (body a : Addr) (F : RAndT K) (flag : Bool) :
    Moves (Keeping (Holds body F)) (writeScene (K := K) a (·.setCalibration flag)) := by
  intro σ h
  cases hfind : σ.scenes.find? a with
  | none =>
    rw [after, run_writeScene_of_none hfind]
    exact h
  | some scene =>
    rw [after, run_writeScene (by rw [hfind]; rfl)]
    exact h.write a fun _ => rfl

/-- A call that finds them has stored the fit, whatever comes after that. -/
theorem holds_after_calibrateScenes [Machine] [DecidableEq K] {svd : SvdCompute K}
    {sceneAOrder sceneBOrder : Nat} {textA textB : Str} {σ : Viewport K} {m : Operands K}
    {F : RAndT K} {body : Addr}
    (hm : assemble sceneAOrder textA sceneBOrder textB = .ok (some m))
    (hF : rigidFit svd m.A m.B = .ok F) (hbody : σ.sceneAt m.bodyFrameOrder = .ok body)
    (hlive : (σ.scenes.find? body).isSome) :
    Holds body F (after (calibrateScenes svd sceneAOrder textA sceneBOrder textB) σ) := by
  have hpos : σ.orderedScenes.length > 0 := by
    have hget := (sceneAt_eq_ok_iff.mp hbody).2
    exact List.length_pos_of_mem (List.mem_of_getElem? hget)
  have hrest : Moves (Keeping (Holds body F)) (do
      let refFrameScene ← ofExcept (σ.sceneAt m.refFrameOrder)
      writeScene body (·.setCalibration true)
      writeScene refFrameScene (·.setCalibration true)
      pure true : EStateM Fault (Viewport K) Bool) :=
    moves_bind (moves_ofExcept _) fun ref => moves_bind (moves_setCalibration body body F true)
      fun _ => moves_bind (moves_setCalibration body ref F true) fun _ => moves_pure true
  rw [calibrateScenes, after_get_bind, if_pos hpos, hm, ofExcept_ok_bind]
  simp only [hF, hbody, ofExcept_ok_bind, after_writeScene_bind hlive]
  exact hrest _ (holds_write hlive F)

/-- The conditions of `calibrateScenes_cases` are enough. -/
theorem run_calibrateScenes [Machine] [DecidableEq K] {svd : SvdCompute K}
    {sceneAOrder sceneBOrder : Nat} {textA textB : Str} {σ : Viewport K} {m : Operands K}
    {F : RAndT K} {body ref : Addr}
    (hm : assemble sceneAOrder textA sceneBOrder textB = .ok (some m))
    (hF : rigidFit svd m.A m.B = .ok F) (hbody : σ.sceneAt m.bodyFrameOrder = .ok body)
    (href : σ.sceneAt m.refFrameOrder = .ok ref)
    (hlive : (σ.scenes.find? body).isSome) (hlive' : (σ.scenes.find? ref).isSome) :
    (calibrateScenes svd sceneAOrder textA sceneBOrder textB).run σ =
      .ok true (σ.assignFit body ref F) := by
  have hpos : σ.orderedScenes.length > 0 := by
    have hget := (sceneAt_eq_ok_iff.mp hbody).2
    exact List.length_pos_of_mem (List.mem_of_getElem? hget)
  have hset := run_writeScene hlive (·.setRAndT F)
  have hcal := run_writeScene (σ := σ.write body (·.setRAndT F)) (a := body)
    (by simpa [write] using hlive) (·.setCalibration true)
  have hcal' := run_writeScene
    (σ := (σ.write body (·.setRAndT F)).write body (·.setCalibration true)) (a := ref)
    (by simpa [write] using hlive') (·.setCalibration true)
  rw [calibrateScenes, run_get_bind_eq_ok_iff, if_pos hpos]
  refine run_bind_eq_ok_iff.mpr ⟨some m, σ, run_ofExcept_eq_ok_iff.mpr ⟨hm, rfl⟩, ?_⟩
  refine run_bind_eq_ok_iff.mpr ⟨F, σ, run_ofExcept_eq_ok_iff.mpr ⟨hF, rfl⟩, ?_⟩
  refine run_bind_eq_ok_iff.mpr ⟨body, σ, run_ofExcept_eq_ok_iff.mpr ⟨hbody, rfl⟩, ?_⟩
  refine run_bind_eq_ok_iff.mpr ⟨_, _, hset, ?_⟩
  refine run_bind_eq_ok_iff.mpr ⟨ref, _, run_ofExcept_eq_ok_iff.mpr ⟨href, rfl⟩, ?_⟩
  refine run_bind_eq_ok_iff.mpr ⟨_, _, hcal, ?_⟩
  exact run_bind_eq_ok_iff.mpr ⟨_, _, hcal', rfl⟩

end Viewport

/-! ## The least-squares fit -/

variable [LinearOrder K] [IsStrictOrderedRing K]

/-- `U`, `S` and `Vt` are a singular value decomposition of `H`. -/
def Svd.Decomposes (d : Svd K) (H : Matrix (Fin 3) (Fin 3) K) : Prop :=
  Procrustes.IsSvd H d.U d.S d.Vt

/-- The scene holds the rigid map with the least sum of squared distances
between the moved body points and the reference points. -/
structure LeastSquares (m : Operands K) (scene : Scene K) (F : RAndT K) : Prop where
  assigned : scene.rAndT = some F
  orthogonal : F.R.transpose * F.R = 1
  centroid : F.apply (Procrustes.mean m.bodyPoints) = Procrustes.mean m.refPoints
  optimal : ∀ G : RAndT K, G.R.transpose * G.R = 1 →
    Procrustes.cost F m.bodyPoints m.refPoints ≤ Procrustes.cost G m.bodyPoints m.refPoints
  exact : ∀ G : RAndT K, G.R.transpose * G.R = 1 →
    (∀ i, m.refPoints i = G.apply (m.bodyPoints i)) →
    transformSkeletonMatrix m.B scene.getRMatrix scene.getTMatrix = .ok m.A

/-- A scene that holds the fit of a decomposition holds the least-squares
fit. -/
theorem leastSquares_fit {m : Operands K} {d : Svd K} {scene : Scene K}
    (h0 : m.count ≠ 0) (hA : m.A.HasSize m.count 3) (hB : m.B.HasSize m.count 3)
    (hd : d.Decomposes m.crossCov)
    (hscene : scene.rAndT = some (Procrustes.fit d.U d.Vt m.bodyPoints m.refPoints)) :
    LeastSquares m scene (Procrustes.fit d.U d.Vt m.bodyPoints m.refPoints) := by
  have hne : Nonempty (Fin m.count) := ⟨⟨0, Nat.pos_of_ne_zero h0⟩⟩
  refine ⟨hscene, Procrustes.orthogonal_fit hd, Procrustes.fit_apply_mean _ _ _ _,
    fun G hG => Procrustes.cost_fit_le hd hG, fun G hG hexact => ?_⟩
  have hrows : m.B = DynMat.ofRows 3 (List.ofFn m.bodyPoints) :=
    DynMat.eq_ofRows (by rw [List.length_ofFn]; exact hB.1) hB.2 fun i hi => by
      rw [List.getElem_ofFn]
      rfl
  have hne' : List.ofFn m.bodyPoints ≠ [] := by
    rw [ne_eq, List.ofFn_eq_nil_iff]
    exact h0
  obtain ⟨hR, hT⟩ := getMatrices_hasSize hscene
  conv_lhs => rw [hrows]
  rw [transformSkeletonMatrix_ofRows hR hT hne', frameOf_getMatrices hscene]
  refine congrArg Except.ok (DynMat.eq_ofRows ?_ hA.2 fun i hi => ?_).symm
  · rw [List.length_map, List.length_ofFn]
    rfl
  · have hi' : i < m.count := by simpa using hi
    rw [List.getElem_map, List.getElem_ofFn,
      Procrustes.fit_apply_of_exact hd hG hexact ⟨i, hi'⟩]
    rfl

/-- Whatever decomposition is returned, a call that succeeds, or throws after
it has stored its matrices, leaves the least-squares fit in the body scene. -/
theorem calibrateScenes_least_squares {svd : SvdCompute K}
    {sceneAOrder sceneBOrder : Nat} {textA textB : Str} {σ σ' : Viewport K}
    (hrun : (Viewport.calibrateScenes svd sceneAOrder textA sceneBOrder textB).run σ =
        .ok true σ' ∨
      (∃ fault, (Viewport.calibrateScenes svd sceneAOrder textA sceneBOrder textB).run σ =
        .error fault σ') ∧ σ.Assigns svd sceneAOrder textA sceneBOrder textB)
    (hsvd : ∀ m, assemble sceneAOrder textA sceneBOrder textB = .ok (some m) →
      (svd m.crossCov).Decomposes m.crossCov) :
    ∃ m body scene F, assemble sceneAOrder textA sceneBOrder textB = .ok (some m) ∧
      1 ≤ m.count ∧ σ.sceneAt m.bodyFrameOrder = .ok body ∧
      σ'.scenes.find? body = some scene ∧ LeastSquares m scene F := by
  have hafter :
      after (Viewport.calibrateScenes svd sceneAOrder textA sceneBOrder textB) σ = σ' := by
    rcases hrun with hrun | ⟨⟨fault, hrun⟩, -⟩ <;> rw [after, hrun]
  obtain ⟨m, body, hm, ⟨F, hF⟩, hbody, hlive⟩ :
      σ.Assigns svd sceneAOrder textA sceneBOrder textB := by
    rcases hrun with hrun | ⟨-, hassigns⟩
    · exact Viewport.assigns_of_ok hrun
    · exact hassigns
  obtain ⟨h0, hA, hB, rfl⟩ := rigidFit_of_assemble hm hF
  obtain ⟨scene, hscene, hassigned⟩ := Viewport.holds_after_calibrateScenes hm hF hbody hlive
  rw [hafter] at hscene
  exact ⟨m, body, scene, _, hm, Nat.one_le_iff_ne_zero.mpr h0, hbody, hscene,
    leastSquares_fit h0 hA hB (hsvd m hm) hassigned⟩

/-! ## The orientation -/

/-- The rotation of the body scene keeps orientation. -/
def ProperRotation (σ σ' : Viewport K) (m : Operands K) : Prop :=
  ∃ body scene F, σ.sceneAt m.bodyFrameOrder = .ok body ∧
    σ'.scenes.find? body = some scene ∧ scene.rAndT = some F ∧ F.R.det = 1

omit [IsStrictOrderedRing K] in
/-- The rotation that a call stores has the determinant of the product of
the transposes. -/
theorem properRotation_iff_det {svd : SvdCompute K} {sceneAOrder sceneBOrder : Nat}
    {textA textB : Str} {σ σ' : Viewport K} {m : Operands K}
    (hm : assemble sceneAOrder textA sceneBOrder textB = .ok (some m))
    (hrun : (Viewport.calibrateScenes svd sceneAOrder textA sceneBOrder textB).run σ =
      .ok true σ') :
    ProperRotation σ σ' m ↔
      ((svd m.crossCov).Vt.transpose * (svd m.crossCov).U.transpose).det = 1 := by
  rcases Viewport.calibrateScenes_cases hrun with ⟨hb, _⟩ |
    ⟨_, m', F, body, ref, hm', hF, hbody, _, hlive, _, rfl⟩
  · cases hb
  · obtain rfl : m = m' := Option.some.inj (Except.ok.inj (hm.symm.trans hm'))
    obtain ⟨_, _, _, rfl⟩ := rigidFit_of_assemble hm hF
    obtain ⟨scene, hscene, hassigned⟩ := Viewport.find?_assignFit hlive ref _
    constructor
    · rintro ⟨body', scene', F', hbody', hscene', hF', hdet⟩
      obtain rfl : body = body' := Except.ok.inj (hbody.symm.trans hbody')
      obtain rfl : scene = scene' := Option.some.inj (hscene.symm.trans hscene')
      obtain rfl := Option.some.inj (hassigned.symm.trans hF')
      exact hdet
    · exact fun hdet => ⟨body, scene, _, hbody, hscene, hassigned, hdet⟩

omit [LinearOrder K] [IsStrictOrderedRing K] in
/-- Whether a call succeeds does not depend on the decomposition. -/
theorem calibrateScenes_svd_irrel [DecidableEq K] {svd : SvdCompute K}
    {sceneAOrder sceneBOrder : Nat} {textA textB : Str} {σ σ' : Viewport K}
    (hrun : (Viewport.calibrateScenes svd sceneAOrder textA sceneBOrder textB).run σ =
      .ok true σ') (svd' : SvdCompute K) :
    ∃ σ'', (Viewport.calibrateScenes svd' sceneAOrder textA sceneBOrder textB).run σ =
      .ok true σ'' := by
  rcases Viewport.calibrateScenes_cases hrun with ⟨hb, _⟩ |
    ⟨_, m, F, body, ref, hm, hF, hbody, href, hlive, hlive', _⟩
  · cases hb
  · obtain ⟨hA, hB⟩ := assemble_size hm
    obtain ⟨F', hF'⟩ := (rigidFit_isOk_iff svd' hA hB).mpr
      ((rigidFit_isOk_iff svd hA hB).mp ⟨F, hF⟩)
    exact ⟨_, Viewport.run_calibrateScenes hm hF' hbody href hlive hlive'⟩

/-- Every decomposition gives a proper rotation exactly when the cross
covariance of the points has a positive determinant. -/
theorem rotation_proper_iff {sceneAOrder sceneBOrder : Nat} {textA textB : Str}
    {σ σ₀ : Viewport K} {m : Operands K} {d : Svd K}
    (hm : assemble sceneAOrder textA sceneBOrder textB = .ok (some m))
    (hd : d.Decomposes m.crossCov)
    (hrun : (Viewport.calibrateScenes (fun _ => d) sceneAOrder textA sceneBOrder
      textB).run σ = .ok true σ₀) :
    (∀ svd : SvdCompute K, (svd m.crossCov).Decomposes m.crossCov → ∀ σ',
      (Viewport.calibrateScenes svd sceneAOrder textA sceneBOrder textB).run σ =
        .ok true σ' → ProperRotation σ σ' m) ↔
      0 < m.crossCov.det := by
  constructor
  · intro hall
    have hone : ∀ d' : Svd K, d'.Decomposes m.crossCov →
        (d'.Vt.transpose * d'.U.transpose).det = 1 := by
      intro d' hd'
      obtain ⟨σ', hσ'⟩ := calibrateScenes_svd_irrel hrun fun _ => d'
      exact (properRotation_iff_det hm hσ').mp (hall _ hd' σ' hσ')
    by_cases hdet : m.crossCov.det = 0
    · obtain ⟨U', hU', hneg⟩ := Procrustes.exists_det_neg hd hdet
      have hpos : (d.Vt.transpose * U'.transpose).det = 1 := hone ⟨d.S, U', d.Vt⟩ hU'
      rw [hneg] at hpos
      linarith
    · exact (Procrustes.det_fit_eq_one_iff hd hdet).mp (hone d hd)
  · intro hpos svd hsvd σ' hσ'
    exact (properRotation_iff_det hm hσ').mpr
      ((Procrustes.det_fit_eq_one_iff hsvd (ne_of_gt hpos)).mpr hpos)

/-! ## A calibration of four points -/

/-- One skeleton at the corners of a tetrahedron, with the upper and the
lower height given. -/
def tetrahedron (upper lower : String) : Str :=
  ("\x7b\"skeletons\":[\x7b\"sensor_id\":\"s\",\"pos_x\":1,\"pos_y\":1,\"pos_z\":" ++ upper ++
    ",\"joints\":[\x7b\"X\":1,\"Y\":-1,\"Z\":" ++ lower ++
    "\x7d,\x7b\"X\":-1,\"Y\":1,\"Z\":" ++ lower ++
    "\x7d,\x7b\"X\":-1,\"Y\":-1,\"Z\":" ++ upper ++ "\x7d]\x7d]\x7d").toList

/-- Two scenes in order, the first the reference of the second. -/
def twoOrderedScenes : Viewport ℚ :=
  { Viewport.start with
    scenes := (OrdMap.empty.assign 1 (Scene.ofSensor ['a'])).assign 2
      (Scene.ofSensor ['b'])
    orderedScenes := [1, 2] }

/-- The calibration of the body points against the reference points, which
are mirrored at the plane of the floor when `z` is `-1`. -/
def tetrahedronSvd (z : ℚ) : SvdCompute ℚ := fun _ =>
  ⟨fun _ => 4, Matrix.diagonal ![1, 1, z], 1⟩

def tetrahedronOperands (upper lower : String) : Except Fault (Option (Operands ℚ)) :=
  assemble 1 (tetrahedron upper lower) 2 (tetrahedron "1" "-1")

/-- The operands of four points with a diagonal cross covariance. -/
def IsTetrahedron (z : ℚ) (m : Operands ℚ) : Prop :=
  m.crossCov = Matrix.diagonal ![4, 4, 4 * z] ∧ m.A.rows = 4 ∧ m.B.rows = 4 ∧
    m.refFrameOrder = 1 ∧ m.bodyFrameOrder = 2

instance (z : ℚ) (m : Operands ℚ) : Decidable (IsTetrahedron z m) :=
  inferInstanceAs (Decidable (_ ∧ _))

theorem exists_of_any {r : Except Fault (Option (Operands ℚ))} {P : Operands ℚ → Prop}
    [DecidablePred P] (h : (r.toOption.join.any fun m => decide (P m)) = true) :
    ∃ m, r = .ok (some m) ∧ P m := by
  cases r with
  | error e => cases h
  | ok assembled =>
    cases assembled with
    | none => cases h
    | some m => exact ⟨m, rfl, of_decide_eq_true h⟩

theorem tetrahedronOperands_equal :
    ∃ m, tetrahedronOperands "1" "-1" = .ok (some m) ∧ IsTetrahedron 1 m :=
  exists_of_any (by decide +kernel)

theorem tetrahedronOperands_mirrored :
    ∃ m, tetrahedronOperands "-1" "1" = .ok (some m) ∧ IsTetrahedron (-1) m :=
  exists_of_any (by decide +kernel)

/-- The order zero is in front of the first scene. -/
theorem assemble_tetrahedron_zero :
    ∃ m, assemble 0 (tetrahedron "1" "-1") 1 (tetrahedron "1" "-1") = .ok (some m) ∧
      m.crossCov = Matrix.diagonal ![4, 4, 4 * (1 : ℚ)] ∧ m.A.rows = 4 ∧ m.B.rows = 4 ∧
        m.refFrameOrder = 0 ∧ m.bodyFrameOrder = 1 :=
  exists_of_any (by decide +kernel)

theorem tetrahedronSvd_decomposes {z : ℚ} (hz : z * z = 1) {m : Operands ℚ}
    (hm : m.crossCov = Matrix.diagonal ![4, 4, 4 * z]) :
    (tetrahedronSvd z 0).Decomposes m.crossCov := by
  have hsq : (Matrix.diagonal ![1, 1, z] : Matrix (Fin 3) (Fin 3) ℚ).transpose *
      Matrix.diagonal ![1, 1, z] = 1 := by
    rw [Matrix.diagonal_transpose, Matrix.diagonal_mul_diagonal, ← Matrix.diagonal_one]
    refine congrArg Matrix.diagonal (funext fun i => ?_)
    fin_cases i <;> simp [hz]
  rw [hm]
  refine ⟨hsq, ?_, fun i => ?_, ?_⟩
  · rw [Procrustes.IsOrthogonal, tetrahedronSvd, Matrix.transpose_one, Matrix.one_mul]
  · norm_num [tetrahedronSvd]
  · rw [tetrahedronSvd, Matrix.mul_one, Matrix.diagonal_mul_diagonal]
    refine congrArg Matrix.diagonal (funext fun i => ?_)
    fin_cases i <;> simp [mul_comm]

/-- The calibration of the two scenes succeeds. -/
theorem run_tetrahedron {upper lower : String} {z : ℚ} {m : Operands ℚ}
    (h : tetrahedronOperands upper lower = .ok (some m)) (hm : IsTetrahedron z m)
    (svd : SvdCompute ℚ) :
    ∃ σ', (Viewport.calibrateScenes svd 1 (tetrahedron upper lower) 2
      (tetrahedron "1" "-1")).run twoOrderedScenes = .ok true σ' := by
  obtain ⟨_, hA, hB, href, hbody⟩ := hm
  obtain ⟨hAsize, hBsize⟩ := assemble_size h
  obtain ⟨F, hF⟩ := (rigidFit_isOk_iff svd hAsize hBsize).mpr
    ⟨by rw [hA]; decide, hB.trans hA.symm⟩
  have hbody' : twoOrderedScenes.sceneAt m.bodyFrameOrder = .ok 2 := by
    rw [hbody]
    rfl
  have href' : twoOrderedScenes.sceneAt m.refFrameOrder = .ok 1 := by
    rw [href]
    rfl
  exact ⟨_, Viewport.run_calibrateScenes h hF hbody' href' rfl rfl⟩

/-- With the order zero the matrices of the first scene are stored, and the
call throws. -/
theorem run_tetrahedron_zero (svd : SvdCompute ℚ) :
    ∃ fault σ', (Viewport.calibrateScenes svd 0 (tetrahedron "1" "-1") 1
        (tetrahedron "1" "-1")).run twoOrderedScenes = .error fault σ' ∧
      twoOrderedScenes.Assigns svd 0 (tetrahedron "1" "-1") 1 (tetrahedron "1" "-1") := by
  obtain ⟨m, hm, _, hA, hB, href, hbody⟩ := assemble_tetrahedron_zero
  obtain ⟨hAsize, hBsize⟩ := assemble_size hm
  have hfit := (rigidFit_isOk_iff svd hAsize hBsize).mpr
    ⟨by rw [hA]; decide, hB.trans hA.symm⟩
  have hbody' : twoOrderedScenes.sceneAt m.bodyFrameOrder = .ok 1 := by
    rw [hbody]
    rfl
  have hassigns : twoOrderedScenes.Assigns svd 0 (tetrahedron "1" "-1") 1
      (tetrahedron "1" "-1") := ⟨m, 1, hm, hfit, hbody', rfl⟩
  cases hrun : (Viewport.calibrateScenes svd 0 (tetrahedron "1" "-1") 1
      (tetrahedron "1" "-1")).run twoOrderedScenes with
  | error fault σ' => exact ⟨fault, σ', rfl, hassigns⟩
  | ok b σ' =>
    obtain ⟨F, hF⟩ := hfit
    obtain ⟨scene, hscene, hassigned⟩ := Viewport.holds_after_calibrateScenes hm hF hbody' rfl
    rw [after_of_ok hrun] at hscene
    rcases Viewport.calibrateScenes_cases hrun with ⟨_, rfl⟩ | ⟨_, m', _, _, _, hm', _, _, href', _⟩
    · obtain rfl := Option.some.inj hscene
      cases hassigned
    · obtain rfl : m = m' := Option.some.inj (Except.ok.inj (hm.symm.trans hm'))
      rw [href] at href'
      cases href'

/-- Four pairs of equal points, in a call that succeeds and in one that throws
after the assignment. -/
theorem calibrateScenes_least_squares_tetrahedron :
    (∃ m body scene F σ', tetrahedronOperands "1" "-1" = .ok (some m) ∧ 1 ≤ m.count ∧
      (Viewport.calibrateScenes (tetrahedronSvd 1) 1 (tetrahedron "1" "-1") 2
        (tetrahedron "1" "-1")).run twoOrderedScenes = .ok true σ' ∧
      twoOrderedScenes.sceneAt m.bodyFrameOrder = .ok body ∧
      σ'.scenes.find? body = some scene ∧ LeastSquares m scene F) ∧
    ∃ m body scene F fault σ', 1 ≤ m.count ∧
      (Viewport.calibrateScenes (tetrahedronSvd 1) 0 (tetrahedron "1" "-1") 1
        (tetrahedron "1" "-1")).run twoOrderedScenes = .error fault σ' ∧
      twoOrderedScenes.sceneAt m.bodyFrameOrder = .ok body ∧
      σ'.scenes.find? body = some scene ∧ LeastSquares m scene F := by
  constructor
  · obtain ⟨m, hm, htetra⟩ := tetrahedronOperands_equal
    obtain ⟨σ', hrun⟩ := run_tetrahedron hm htetra (tetrahedronSvd 1)
    obtain ⟨m', body, scene, F, hm', hcount, hbody, hscene, hfit⟩ :=
      calibrateScenes_least_squares (Or.inl hrun) fun m' hm' => by
        obtain rfl : m = m' := Option.some.inj (Except.ok.inj (hm.symm.trans hm'))
        exact tetrahedronSvd_decomposes (by norm_num) htetra.1
    exact ⟨m', body, scene, F, σ', hm', hcount, hrun, hbody, hscene, hfit⟩
  · obtain ⟨m, hm, hcov, _⟩ := assemble_tetrahedron_zero
    obtain ⟨fault, σ', hrun, hassigns⟩ := run_tetrahedron_zero (tetrahedronSvd 1)
    obtain ⟨m', body, scene, F, _, hcount, hbody, hscene, hfit⟩ :=
      calibrateScenes_least_squares (Or.inr ⟨⟨fault, hrun⟩, hassigns⟩) fun m' hm' => by
        obtain rfl : m = m' := Option.some.inj (Except.ok.inj (hm.symm.trans hm'))
        exact tetrahedronSvd_decomposes (by norm_num) hcov
    exact ⟨m', body, scene, F, fault, σ', hcount, hrun, hbody, hscene, hfit⟩

/-- The cross covariance of equal points has a positive determinant. -/
theorem rotation_proper_iff_tetrahedron :
    ∃ m, tetrahedronOperands "1" "-1" = .ok (some m) ∧
      ((∀ svd : SvdCompute ℚ, (svd m.crossCov).Decomposes m.crossCov → ∀ σ',
        (Viewport.calibrateScenes svd 1 (tetrahedron "1" "-1") 2
          (tetrahedron "1" "-1")).run twoOrderedScenes = .ok true σ' →
        ProperRotation twoOrderedScenes σ' m) ↔ 0 < m.crossCov.det) := by
  obtain ⟨m, hm, htetra⟩ := tetrahedronOperands_equal
  obtain ⟨σ', hrun⟩ := run_tetrahedron hm htetra fun _ => tetrahedronSvd 1 0
  exact ⟨m, hm, rotation_proper_iff hm (tetrahedronSvd_decomposes (by norm_num) htetra.1) hrun⟩

/-- Points whose partners are mirrored: a valid decomposition mirrors the
body scene. -/
theorem not_properRotation_mirrored :
    ∃ m σ', tetrahedronOperands "-1" "1" = .ok (some m) ∧
      (tetrahedronSvd (-1) m.crossCov).Decomposes m.crossCov ∧
      (Viewport.calibrateScenes (tetrahedronSvd (-1)) 1 (tetrahedron "-1" "1") 2
        (tetrahedron "1" "-1")).run twoOrderedScenes = .ok true σ' ∧
      ¬ ProperRotation twoOrderedScenes σ' m := by
  obtain ⟨m, hm, htetra⟩ := tetrahedronOperands_mirrored
  obtain ⟨σ', hrun⟩ := run_tetrahedron hm htetra (tetrahedronSvd (-1))
  refine ⟨m, σ', hm, tetrahedronSvd_decomposes (by norm_num) htetra.1, hrun, ?_⟩
  rw [properRotation_iff_det hm hrun, tetrahedronSvd, Matrix.transpose_one,
    Matrix.one_mul, Matrix.diagonal_transpose, Matrix.det_diagonal, Fin.prod_univ_three]
  show ¬ (1 * 1 * -1 : ℚ) = 1
  norm_num

end MinorityViewport
