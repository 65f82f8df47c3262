import MinorityViewport.Lib.Frame
import Mathlib.LinearAlgebra.Matrix.NonsingularInverse

/-!
# Poses

A `Pose` says where an observer stands: it takes the coordinates of the
observer into those of the room, and its rotation part is orthogonal.

`between P Q` takes the coordinates of `Q` into those of `P`, and
`chain` lists these frames for the neighbours in a list of observers.
`apply_compose_chain` says that the composition of the chain up to an
observer takes what it sees to where the first observer sees it.

The chain of two observers, and of observers who all look in the same
direction, is aligned.
-/

structure Pose (n K : Type) [Fintype n] [DecidableEq n] [CommRing K] extends Frame n K where
  orthogonal : R.transpose * R = 1

namespace Pose

variable {n K : Type} [Fintype n] [DecidableEq n] [CommRing K]

/-- The frame that takes the coordinates of `Q` into those of `P`. -/
def between (P Q : Pose n K) : Frame n K :=
  ⟨P.R.transpose * Q.R, P.R.transpose.mulVec (Q.T - P.T)⟩

theorem mul_transpose (P : Pose n K) : P.R * P.R.transpose = 1 :=
  mul_eq_one_comm.mp P.orthogonal

/-- Both observers speak about the same place. -/
@[simp]
theorem apply_between (P Q : Pose n K) (p : n → K) :
    P.apply ((between P Q).apply p) = Q.apply p := by
  simp only [Frame.apply, between]
  rw [Matrix.mulVec_add, Matrix.mulVec_mulVec, Matrix.mulVec_mulVec, ← Matrix.mul_assoc,
    P.mul_transpose, Matrix.one_mul, Matrix.one_mulVec, add_assoc, sub_add_cancel]

theorem apply_injective (P : Pose n K) : Function.Injective P.apply := by
  intro p q h
  have hmul : P.R.mulVec p = P.R.mulVec q := add_right_cancel h
  have := congrArg P.R.transpose.mulVec hmul
  rwa [Matrix.mulVec_mulVec, Matrix.mulVec_mulVec, P.orthogonal, Matrix.one_mulVec,
    Matrix.one_mulVec] at this

theorem eq_apply_between_iff {P Q : Pose n K} {p q : n → K} :
    q = (between P Q).apply p ↔ P.apply q = Q.apply p := by
  rw [← apply_between P Q, P.apply_injective.eq_iff]

theorem orthogonal_between (P Q : Pose n K) :
    (between P Q).R.transpose * (between P Q).R = 1 := by
  simp only [between]
  calc (P.R.transpose * Q.R).transpose * (P.R.transpose * Q.R)
      = Q.R.transpose * (P.R * P.R.transpose) * Q.R := by
        rw [Matrix.transpose_mul, Matrix.transpose_transpose]
        simp only [Matrix.mul_assoc]
    _ = 1 := by rw [P.mul_transpose, Matrix.mul_one, Q.orthogonal]

/-! ## Lists of observers -/

/-- The frames between neighbours. -/
def chain (poses : List (Pose n K)) : List (Frame n K) :=
  List.zipWith between poses poses.tail

theorem length_chain (poses : List (Pose n K)) : (chain poses).length = poses.length - 1 := by
  rw [chain, List.length_zipWith, List.length_tail]
  omega

theorem getElem?_chain {poses : List (Pose n K)} {i : Nat} {P Q : Pose n K}
    (hP : poses[i]? = some P) (hQ : poses[i + 1]? = some Q) :
    (chain poses)[i]? = some (between P Q) := by
  rw [chain, List.getElem?_zipWith, List.getElem?_tail, hP, hQ]

theorem exists_of_mem_chain {poses : List (Pose n K)} {F : Frame n K} (h : F ∈ chain poses) :
    ∃ P ∈ poses, ∃ Q ∈ poses, F = between P Q := by
  rw [chain, ← List.map_uncurry_zip_eq_zipWith] at h
  obtain ⟨⟨P, Q⟩, hmem, rfl⟩ := List.mem_map.mp h
  obtain ⟨hP, hQ⟩ := List.of_mem_zip hmem
  exact ⟨P, hP, Q, List.mem_of_mem_tail hQ, rfl⟩

/-- What an observer sees is where the first one sees it through the frames
between them. -/
theorem apply_compose_chain {poses : List (Pose n K)} {P Q : Pose n K}
    (hP : poses[0]? = some P) {i : Nat} (hQ : poses[i]? = some Q) (p : n → K) :
    P.apply ((Frame.compose ((chain poses).take i)).apply p) = Q.apply p := by
  induction i generalizing Q p with
  | zero =>
    obtain rfl := Option.some.inj (hP.symm.trans hQ)
    simp [Frame.compose]
  | succ i ih =>
    have hlt : i < poses.length := by
      have := (List.getElem?_eq_some_iff.mp hQ).1
      omega
    have hR : poses[i]? = some poses[i] := List.getElem?_eq_getElem hlt
    rw [List.take_add_one, getElem?_chain hR hQ, Option.toList_some, Frame.compose_concat,
      Frame.apply_comp, ih hR, apply_between]

/-! ## Aligned chains -/

/-- A chain whose initial parts turn nothing. -/
theorem aligned_of_unturned {l : List (Frame n K)}
    (h : ∀ before F after, l = before ++ F :: after → (Frame.compose before).R = 1) :
    Frame.Aligned l := by
  intro before F after hsplit
  rw [h before F after hsplit]
  exact ⟨by rw [Matrix.mul_one, Matrix.one_mul], Matrix.one_mulVec _⟩

theorem aligned_of_length_le_one {l : List (Frame n K)} (h : l.length ≤ 1) :
    Frame.Aligned l := by
  refine aligned_of_unturned fun before F after hsplit => ?_
  rw [hsplit, List.length_append, List.length_cons] at h
  obtain rfl : before = [] := List.length_eq_zero_iff.mp (by omega)
  rfl

theorem rotation_compose_eq_one {l : List (Frame n K)} (h : ∀ F ∈ l, F.R = 1) :
    (Frame.compose l).R = 1 := by
  induction l with
  | nil => rfl
  | cons F rest ih =>
    obtain ⟨hF, hrest⟩ := List.forall_mem_cons.mp h
    rw [Frame.compose, Frame.comp, hF, ih hrest, Matrix.mul_one]

/-- Two observers. -/
theorem aligned_chain_of_length_le_two {poses : List (Pose n K)} (h : poses.length ≤ 2) :
    Frame.Aligned (chain poses) :=
  aligned_of_length_le_one (by rw [length_chain]; omega)

/-- Observers who look in the same direction. -/
theorem aligned_chain_of_parallel {poses : List (Pose n K)}
    (h : ∀ P ∈ poses, ∀ Q ∈ poses, P.R = Q.R) : Frame.Aligned (chain poses) := by
  refine aligned_of_unturned fun before F after hsplit => rotation_compose_eq_one fun G hG => ?_
  have hmem : G ∈ chain poses := by
    rw [hsplit]
    exact List.mem_append_left _ hG
  obtain ⟨P, hP, Q, hQ, rfl⟩ := exists_of_mem_chain hmem
  rw [between, h P hP Q hQ]
  exact Q.orthogonal

end Pose
