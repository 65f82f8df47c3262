import Mathlib.Algebra.Order.Round
import Mathlib.Tactic.Positivity

/-!
# Rounding to a fixed point

`rounded scale x` is the multiple of `1 / scale` that is next to `x`.  A half
is rounded away from zero, so the rounding commutes with the sign
(`rounded_neg`), and every fact needs a proof for the nonnegative numbers
only.

`rounded_natCast_div` says that a multiple stays what it is, and with
`exists_rounded_eq` it follows that rounding twice is rounding once.
-/

namespace FixedPoint

variable {K : Type} [Field K] [LinearOrder K] [IsStrictOrderedRing K] [FloorRing K]

def rounded (scale : ℕ) (x : K) : K :=
  if x < 0 then -((round (-x * scale) : ℤ) / scale) else (round (x * scale) : ℤ) / scale

omit [IsStrictOrderedRing K] in
theorem rounded_of_nonneg (scale : ℕ) {x : K} (hx : 0 ≤ x) :
    rounded scale x = (round (x * scale) : ℤ) / scale :=
  if_neg (not_lt.mpr hx)

@[simp]
theorem rounded_zero (scale : ℕ) : rounded scale (0 : K) = 0 := by
  rw [rounded_of_nonneg scale le_rfl, zero_mul, round_zero, Int.cast_zero, zero_div]

theorem rounded_neg (scale : ℕ) (x : K) : rounded scale (-x) = -rounded scale x := by
  rcases lt_trichotomy x 0 with hneg | rfl | hpos
  · rw [rounded_of_nonneg scale (neg_nonneg.mpr hneg.le), rounded, if_pos hneg, neg_neg]
  · rw [neg_zero, rounded_zero, neg_zero]
  · rw [rounded, if_pos (neg_neg_of_pos hpos), neg_neg, rounded_of_nonneg scale hpos.le]

omit [FloorRing K] in
/-- What holds of the nonnegative numbers, and of a number with its negative,
holds of all. -/
theorem induction_on_sign {P : K → Prop} (hneg : ∀ x, P x → P (-x)) (hpos : ∀ x, 0 ≤ x → P x)
    (x : K) : P x := by
  rcases le_total 0 x with hx | hx
  · exact hpos x hx
  · have hminus := hneg (-x) (hpos (-x) (neg_nonneg.mpr hx))
    rwa [neg_neg] at hminus

/-- A multiple stays what it is. -/
theorem rounded_natCast_div {scale : ℕ} (hscale : 0 < scale) (m : ℕ) :
    rounded scale ((m : K) / scale) = m / scale := by
  have hne : (scale : K) ≠ 0 := Nat.cast_ne_zero.mpr hscale.ne'
  rw [rounded_of_nonneg scale (by positivity), div_mul_cancel₀ _ hne, round_natCast,
    Int.cast_natCast]

theorem exists_rounded_eq (scale : ℕ) {x : K} (hx : 0 ≤ x) :
    ∃ m : ℕ, rounded scale x = m / scale := by
  have hnonneg : 0 ≤ round (x * scale) := by
    rw [round_eq]
    exact Int.floor_nonneg.mpr (by positivity)
  obtain ⟨m, hm⟩ := Int.eq_ofNat_of_zero_le hnonneg
  exact ⟨m, by rw [rounded_of_nonneg scale hx, hm, Int.cast_natCast]⟩

@[simp]
theorem rounded_rounded {scale : ℕ} (hscale : 0 < scale) (x : K) :
    rounded scale (rounded scale x) = rounded scale x := by
  induction x using induction_on_sign with
  | hneg x ih => rw [rounded_neg, rounded_neg, ih]
  | hpos x hx =>
    obtain ⟨m, hm⟩ := exists_rounded_eq scale hx
    rw [hm, rounded_natCast_div hscale]

end FixedPoint
