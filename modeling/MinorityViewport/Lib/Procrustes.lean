import MinorityViewport.Lib.Frame
import Mathlib.LinearAlgebra.Matrix.DotProduct
import Mathlib.LinearAlgebra.Matrix.Trace
import Mathlib.LinearAlgebra.Matrix.NonsingularInverse
import Mathlib.Algebra.Order.Field.Basic
import Mathlib.Tactic.Ring
import Mathlib.Tactic.Linarith

/-!
# The least-squares fit of a rigid map

Two families of points `b` and `a` over the same indices are given, and a
frame with an orthogonal rotation part is wanted that takes each `b i` close
to `a i`.  `cost` is the sum of the squared distances that is to be made
small.

The answer comes from a singular value decomposition `H = U S Vt` of the
cross covariance `H` of the two families, each taken around its mean.  `fit`
is the frame with `R = Vt‾ U‾` (transposes) that takes the mean of `b` to the
mean of `a`.

* `cost_eq` splits the cost of any frame with an orthogonal rotation part
  into a part without the frame, a trace, and the distance between the mean
  of `a` and the image of the mean of `b`.
* `trace_mul_le` bounds the trace, and `fit` reaches the bound.
  `cost_fit_le` puts the two together.
* `fit_apply_of_exact` is the case of points that some rigid map matches
  exactly, and `fit_eq_of_exact` says when there is only one such map.
* `det_fit_eq_one_iff` says which sign the determinant of the rotation part
  has, and `exists_det_neg` that a singular `H` leaves it open.

Arithmetic is exact in a linearly ordered field.
-/

namespace Procrustes

open Matrix

variable {ι n K : Type} [Fintype ι] [Fintype n] [DecidableEq n]
variable [Field K] [LinearOrder K] [IsStrictOrderedRing K]

def IsOrthogonal (R : Matrix n n K) : Prop := R.transpose * R = 1

/-- `H = U diag(s) Vt` with orthogonal `U` and `Vt` and `s` not negative. -/
structure IsSvd (H U : Matrix n n K) (s : n → K) (Vt : Matrix n n K) : Prop where
  left : IsOrthogonal U
  right : IsOrthogonal Vt
  nonneg : ∀ i, 0 ≤ s i
  product : H = U * diagonal s * Vt

/-- The mean of a family of points. -/
def mean (x : ι → n → K) : n → K := (Fintype.card ι : K)⁻¹ • ∑ i, x i

/-- The sum of the products of the centred points. -/
def crossCov (b a : ι → n → K) : Matrix n n K :=
  ∑ i, vecMulVec (b i - mean b) (a i - mean a)

/-- The sum of the squared distances between the moved and the wanted
points. -/
def cost (F : Frame n K) (b a : ι → n → K) : K :=
  ∑ i, (F.apply (b i) - a i) ⬝ᵥ (F.apply (b i) - a i)

/-- The fit that a decomposition gives. -/
def fit (U Vt : Matrix n n K) (b a : ι → n → K) : Frame n K where
  R := Vt.transpose * U.transpose
  T := mean a - (Vt.transpose * U.transpose).mulVec (mean b)

/-! ## Orthogonal matrices -/

section Orthogonal

omit [LinearOrder K] [IsStrictOrderedRing K]

theorem IsOrthogonal.transpose {R : Matrix n n K} (h : IsOrthogonal R) :
    IsOrthogonal R.transpose := by
  rw [IsOrthogonal, transpose_transpose]
  exact mul_eq_one_comm.mp h

theorem IsOrthogonal.mul {R S : Matrix n n K} (hR : IsOrthogonal R)
    (hS : IsOrthogonal S) : IsOrthogonal (R * S) := by
  have hR' : R.transpose * R = 1 := hR
  rw [IsOrthogonal, transpose_mul]
  calc S.transpose * R.transpose * (R * S)
      = S.transpose * (R.transpose * R) * S := by simp only [Matrix.mul_assoc]
    _ = 1 := by rw [hR', Matrix.mul_one]; exact hS

theorem IsOrthogonal.dotProduct_mulVec {R : Matrix n n K} (h : IsOrthogonal R)
    (x y : n → K) : R.mulVec x ⬝ᵥ R.mulVec y = x ⬝ᵥ y := by
  have h' : R.transpose * R = 1 := h
  rw [Matrix.dotProduct_mulVec, ← mulVec_transpose, mulVec_mulVec, h', one_mulVec]

theorem IsOrthogonal.det_sq {R : Matrix n n K} (h : IsOrthogonal R) :
    R.det * R.det = 1 := by
  have h' : R.transpose * R = 1 := h
  have hdet := congrArg det h'
  rwa [det_mul, det_transpose, det_one] at hdet

end Orthogonal

/-- No entry on the diagonal of an orthogonal matrix is above one. -/
theorem IsOrthogonal.diag_le_one {R : Matrix n n K} (h : IsOrthogonal R) (i : n) :
    R i i ≤ 1 := by
  have h' : R.transpose * R = 1 := h
  have hsum : ∑ k, R k i * R k i = 1 := by
    have hentry := congrFun (congrFun h' i) i
    rwa [mul_apply, one_apply_eq] at hentry
  have hle : R i i * R i i ≤ 1 := by
    rw [← hsum]
    exact Finset.single_le_sum (f := fun k => R k i * R k i)
      (fun k _ => mul_self_nonneg (R k i)) (Finset.mem_univ i)
  nlinarith [mul_self_nonneg (R i i - 1)]

/-! ## The trace -/

/-- The trace against an orthogonal matrix is at most the sum of the
singular values. -/
theorem trace_mul_le {H U Vt R : Matrix n n K} {s : n → K} (hsvd : IsSvd H U s Vt)
    (hR : IsOrthogonal R) : (R * H).trace ≤ ∑ i, s i := by
  have hcycle : (R * H).trace = (Vt * R * U * diagonal s).trace := by
    rw [hsvd.product, ← Matrix.mul_assoc, trace_mul_comm, ← Matrix.mul_assoc,
      ← Matrix.mul_assoc]
  have horth : IsOrthogonal (Vt * R * U) := (hsvd.right.mul hR).mul hsvd.left
  rw [hcycle, trace]
  refine Finset.sum_le_sum fun i _ => ?_
  rw [diag_apply, mul_diagonal]
  exact mul_le_of_le_one_left (hsvd.nonneg i) (horth.diag_le_one i)

omit [IsStrictOrderedRing K] in
/-- The rotation of the fit reaches the bound. -/
theorem trace_fit {H U Vt : Matrix n n K} {s : n → K} (hsvd : IsSvd H U s Vt) :
    (Vt.transpose * U.transpose * H).trace = ∑ i, s i := by
  have hU : U.transpose * U = 1 := hsvd.left
  have hVt : Vt * Vt.transpose = 1 := mul_eq_one_comm.mp hsvd.right
  have hsimp : Vt.transpose * U.transpose * H = Vt.transpose * diagonal s * Vt := by
    calc Vt.transpose * U.transpose * H
        = Vt.transpose * (U.transpose * U) * diagonal s * Vt := by
          rw [hsvd.product]; simp only [Matrix.mul_assoc]
      _ = Vt.transpose * diagonal s * Vt := by rw [hU, Matrix.mul_one]
  rw [hsimp, trace_mul_comm, ← Matrix.mul_assoc, hVt, Matrix.one_mul, trace_diagonal]

/-! ## The cost -/

section Cost

omit [LinearOrder K] [IsStrictOrderedRing K]

omit [Fintype n] [DecidableEq n] in
theorem sum_sub_mean [Nonempty ι] [CharZero K] (x : ι → n → K) :
    ∑ i, (x i - mean x) = 0 := by
  have hcard : (Fintype.card ι : K) ≠ 0 := Nat.cast_ne_zero.mpr Fintype.card_ne_zero
  rw [Finset.sum_sub_distrib, Finset.sum_const, Finset.card_univ, mean,
    ← Nat.cast_smul_eq_nsmul K, smul_smul, mul_inv_cancel₀ hcard, one_smul, sub_self]

omit [DecidableEq n] in
theorem trace_mul_crossCov (R : Matrix n n K) (b a : ι → n → K) :
    (R * crossCov b a).trace = ∑ i, R.mulVec (b i - mean b) ⬝ᵥ (a i - mean a) := by
  rw [crossCov, Matrix.mul_sum, trace_sum]
  refine Finset.sum_congr rfl fun i _ => ?_
  rw [mul_vecMulVec, trace_vecMulVec]

/-- The cost of a frame with an orthogonal rotation part. -/
theorem cost_eq [Nonempty ι] [CharZero K] {F : Frame n K} (hF : IsOrthogonal F.R)
    (b a : ι → n → K) :
    cost F b a =
      (∑ i, (b i - mean b) ⬝ᵥ (b i - mean b)) + (∑ i, (a i - mean a) ⬝ᵥ (a i - mean a)) -
        2 * (F.R * crossCov b a).trace +
        Fintype.card ι * ((F.apply (mean b) - mean a) ⬝ᵥ (F.apply (mean b) - mean a)) := by
  obtain ⟨d, hd⟩ : ∃ d, d = F.apply (mean b) - mean a := ⟨_, rfl⟩
  have hsplit : ∀ i, F.apply (b i) - a i =
      F.R.mulVec (b i - mean b) - (a i - mean a) + d := by
    intro i
    rw [hd, Frame.apply, Frame.apply, mulVec_sub]
    abel
  have hcentre : ∑ i, (F.R.mulVec (b i - mean b) - (a i - mean a)) = 0 := by
    rw [Finset.sum_sub_distrib, ← mulVec_sum, sum_sub_mean, sum_sub_mean, mulVec_zero,
      sub_zero]
  have hterm : ∀ i, (F.apply (b i) - a i) ⬝ᵥ (F.apply (b i) - a i) =
      (b i - mean b) ⬝ᵥ (b i - mean b) + (a i - mean a) ⬝ᵥ (a i - mean a) -
        2 * (F.R.mulVec (b i - mean b) ⬝ᵥ (a i - mean a)) +
        2 * ((F.R.mulVec (b i - mean b) - (a i - mean a)) ⬝ᵥ d) + d ⬝ᵥ d := by
    intro i
    rw [hsplit i, ← hF.dotProduct_mulVec (b i - mean b) (b i - mean b)]
    generalize F.R.mulVec (b i - mean b) = u
    generalize a i - mean a = v
    simp only [add_dotProduct, dotProduct_add, sub_dotProduct, dotProduct_sub]
    rw [dotProduct_comm v u, dotProduct_comm d u, dotProduct_comm d v]
    ring
  have hcross : ∑ i, 2 * ((F.R.mulVec (b i - mean b) - (a i - mean a)) ⬝ᵥ d) = 0 := by
    rw [← Finset.mul_sum, ← sum_dotProduct, hcentre, zero_dotProduct, mul_zero]
  have hconst : ∑ _i : ι, d ⬝ᵥ d = (Fintype.card ι : K) * (d ⬝ᵥ d) := by
    rw [Finset.sum_const, Finset.card_univ, nsmul_eq_mul]
  rw [← hd, cost, Finset.sum_congr rfl fun i _ => hterm i]
  simp only [Finset.sum_add_distrib, Finset.sum_sub_distrib]
  rw [hcross, hconst, trace_mul_crossCov, Finset.mul_sum, add_zero]

end Cost

/-! ## The fit -/

section Fit

variable {H U Vt : Matrix n n K} {s : n → K} {b a : ι → n → K}

omit [IsStrictOrderedRing K] in
theorem orthogonal_fit (hsvd : IsSvd H U s Vt) : IsOrthogonal (fit U Vt b a).R :=
  hsvd.right.transpose.mul hsvd.left.transpose

omit [DecidableEq n] [LinearOrder K] [IsStrictOrderedRing K] in
/-- The fit takes one mean to the other. -/
theorem fit_apply_mean (U Vt : Matrix n n K) (b a : ι → n → K) :
    (fit U Vt b a).apply (mean b) = mean a := by
  unfold Frame.apply fit
  simp

/-- No frame with an orthogonal rotation part costs less than the fit. -/
theorem cost_fit_le [Nonempty ι] (hsvd : IsSvd (crossCov b a) U s Vt)
    {F : Frame n K} (hF : IsOrthogonal F.R) :
    cost (fit U Vt b a) b a ≤ cost F b a := by
  have htrace : (F.R * crossCov b a).trace ≤
      ((fit U Vt b a).R * crossCov b a).trace := by
    rw [fit, trace_fit hsvd]
    exact trace_mul_le hsvd hF
  have hcard : (0 : K) ≤ Fintype.card ι := Nat.cast_nonneg _
  have hdist : 0 ≤ (F.apply (mean b) - mean a) ⬝ᵥ (F.apply (mean b) - mean a) :=
    Finset.sum_nonneg fun i _ => mul_self_nonneg _
  rw [cost_eq (orthogonal_fit hsvd) b a, cost_eq hF b a, fit_apply_mean, sub_self,
    zero_dotProduct, mul_zero]
  have := mul_nonneg hcard hdist
  linarith

/-- Points that some rigid map matches exactly are matched by the fit. -/
theorem fit_apply_of_exact [Nonempty ι] (hsvd : IsSvd (crossCov b a) U s Vt)
    {F : Frame n K} (hF : IsOrthogonal F.R) (hexact : ∀ i, a i = F.apply (b i)) (i : ι) :
    (fit U Vt b a).apply (b i) = a i := by
  have hzero : cost F b a = 0 := by
    unfold cost
    refine Finset.sum_eq_zero fun j _ => ?_
    rw [hexact j, sub_self, zero_dotProduct]
  have hnonneg : ∀ j ∈ Finset.univ, 0 ≤
      ((fit U Vt b a).apply (b j) - a j) ⬝ᵥ ((fit U Vt b a).apply (b j) - a j) :=
    fun j _ => Finset.sum_nonneg fun k _ => mul_self_nonneg _
  have hle := cost_fit_le hsvd hF
  rw [hzero] at hle
  have hall := (Finset.sum_eq_zero_iff_of_nonneg hnonneg).mp
    (le_antisymm hle (Finset.sum_nonneg hnonneg))
  exact sub_eq_zero.mp (dotProduct_self_eq_zero.mp (hall i (Finset.mem_univ i)))

/-! ## Uniqueness -/

omit [DecidableEq n] [LinearOrder K] [IsStrictOrderedRing K] in
/-- A frame takes the mean of some points to the mean of their images. -/
theorem apply_mean [Nonempty ι] [CharZero K] (F : Frame n K) (x : ι → n → K) :
    F.apply (mean x) = mean fun i => F.apply (x i) := by
  have hcard : (Fintype.card ι : K) ≠ 0 := Nat.cast_ne_zero.mpr Fintype.card_ne_zero
  simp only [mean, Frame.apply]
  rw [mulVec_smul, mulVec_sum, Finset.sum_add_distrib, Finset.sum_const, Finset.card_univ,
    smul_add, ← Nat.cast_smul_eq_nsmul K, smul_smul, inv_mul_cancel₀ hcard, one_smul]

/-- Points that span the space are matched exactly by one frame only. -/
theorem fit_eq_of_exact [Nonempty ι] (hsvd : IsSvd (crossCov b a) U s Vt)
    {F : Frame n K} (hF : IsOrthogonal F.R) (hexact : ∀ i, a i = F.apply (b i))
    (hdet : (crossCov b a).det ≠ 0) : fit U Vt b a = F := by
  have hmean : F.apply (mean b) = mean a := by
    rw [apply_mean]
    exact congrArg mean (funext fun i => (hexact i).symm)
  have hfitMean := fit_apply_mean U Vt b a
  have hzero : ((fit U Vt b a).R - F.R) * crossCov b a = 0 := by
    rw [crossCov, Matrix.mul_sum]
    refine Finset.sum_eq_zero fun i _ => ?_
    have hi : (fit U Vt b a).apply (b i) = F.apply (b i) :=
      (fit_apply_of_exact hsvd hF hexact i).trans (hexact i)
    have hcentred : ∀ G : Frame n K, G.R.mulVec (b i - mean b) =
        G.apply (b i) - G.apply (mean b) := fun G => by
      rw [mulVec_sub, Frame.apply, Frame.apply, add_sub_add_right_eq_sub]
    rw [mul_vecMulVec, sub_mulVec, hcentred, hcentred, hi, hfitMean, hmean, sub_self,
      zero_vecMulVec]
  have hR : (fit U Vt b a).R = F.R := by
    have hinv := mul_nonsing_inv (crossCov b a) (isUnit_iff_ne_zero.mpr hdet)
    refine sub_eq_zero.mp ?_
    calc (fit U Vt b a).R - F.R
        = ((fit U Vt b a).R - F.R) * crossCov b a * (crossCov b a)⁻¹ := by
          rw [Matrix.mul_assoc, hinv, Matrix.mul_one]
      _ = 0 := by rw [hzero, Matrix.zero_mul]
  refine Frame.ext_parts hR ?_
  have h := hfitMean.trans hmean.symm
  rw [Frame.apply, Frame.apply, hR] at h
  exact add_left_cancel h

/-! ## The sign of the determinant -/

omit [IsStrictOrderedRing K] in
theorem det_mul_det_fit (hsvd : IsSvd H U s Vt) :
    (Vt.transpose * U.transpose).det * H.det = ∏ i, s i := by
  have hU := hsvd.left.det_sq
  have hVt := hsvd.right.det_sq
  rw [hsvd.product, det_mul, det_mul, det_mul, det_transpose, det_transpose, det_diagonal]
  calc Vt.det * U.det * (U.det * (∏ i, s i) * Vt.det)
      = (Vt.det * Vt.det) * (U.det * U.det) * ∏ i, s i := by ring
    _ = ∏ i, s i := by rw [hU, hVt, one_mul, one_mul]

/-- Of a regular `H`, the rotation part has the sign of its determinant. -/
theorem det_fit_eq_one_iff (hsvd : IsSvd H U s Vt) (hdet : H.det ≠ 0) :
    (Vt.transpose * U.transpose).det = 1 ↔ 0 < H.det := by
  have horth : IsOrthogonal (Vt.transpose * U.transpose) :=
    hsvd.right.transpose.mul hsvd.left.transpose
  have hprod := det_mul_det_fit hsvd
  have hnonneg : 0 ≤ ∏ i, s i := Finset.prod_nonneg fun i _ => hsvd.nonneg i
  rcases mul_self_eq_one_iff.mp horth.det_sq with hone | hneg
  · rw [hone, one_mul] at hprod
    exact iff_of_true hone (lt_of_le_of_ne (hprod ▸ hnonneg) (Ne.symm hdet))
  · rw [hneg, neg_one_mul] at hprod
    refine iff_of_false ?_ ?_
    · rw [hneg]
      exact fun h => by linarith
    · exact fun hpos => by linarith

/-- A singular `H` with a decomposition has one whose rotation part reverses
orientation: the column of a zero singular value may be negated. -/
theorem exists_det_neg (hsvd : IsSvd H U s Vt) (hdet : H.det = 0) :
    ∃ U', IsSvd H U' s Vt ∧ (Vt.transpose * U'.transpose).det = -1 := by
  have hprod := det_mul_det_fit hsvd
  rw [hdet, mul_zero] at hprod
  obtain ⟨i, _, hi⟩ := Finset.prod_eq_zero_iff.mp hprod.symm
  have horth : IsOrthogonal (Vt.transpose * U.transpose) :=
    hsvd.right.transpose.mul hsvd.left.transpose
  rcases mul_self_eq_one_iff.mp horth.det_sq with hone | hneg
  · obtain ⟨d, hd⟩ : ∃ d : n → K, d = fun j => if j = i then -1 else 1 := ⟨_, rfl⟩
    have hdd : ∀ j, d j * d j = 1 := by
      intro j
      rw [hd]
      dsimp only
      split_ifs <;> norm_num
    have hds : ∀ j, d j * s j = s j := by
      intro j
      rw [hd]
      dsimp only
      split_ifs with hj
      · rw [hj, hi, mul_zero]
      · rw [one_mul]
    have hflip : IsOrthogonal (diagonal d) := by
      rw [IsOrthogonal, diagonal_transpose, diagonal_mul_diagonal, ← diagonal_one]
      exact congrArg diagonal (funext hdd)
    have hdetd : (diagonal d).det = -1 := by
      rw [det_diagonal, hd, Finset.prod_ite_eq' Finset.univ i fun _ => (-1 : K)]
      simp
    refine ⟨U * diagonal d, ⟨hsvd.left.mul hflip, hsvd.right, hsvd.nonneg, ?_⟩, ?_⟩
    · rw [Matrix.mul_assoc U, diagonal_mul_diagonal, funext hds]
      exact hsvd.product
    · rw [det_mul] at hone
      rw [transpose_mul, diagonal_transpose, det_mul, det_mul, hdetd, mul_left_comm, hone,
        mul_one]
  · exact ⟨U, hsvd, hneg⟩

end Fit

end Procrustes
