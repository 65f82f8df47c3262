import Mathlib.Data.Matrix.Mul
import Mathlib.LinearAlgebra.Matrix.Notation
import Mathlib.LinearAlgebra.Matrix.ToLin

/-!
# Changes of frame

A `Frame` is a rotation part `R` and a translation part `T`, and it takes a
point `p` to `R p + T`.  `comp` is the change of frame that applies its
second argument first, and `compose` is the composition of a chain of
frames, the outermost first.

`accumulate` is the shortcut that multiplies the rotation parts in the
order in which the chain is walked from its far end, and adds the
translation parts as they are.  `accumulate_eq_compose_iff` says on which
chains the shortcut is right at every stage: each rotation commutes with
the product of the rotations before it, and that product fixes each
translation.
-/

structure Frame (n K : Type) where
  R : Matrix n n K
  T : n → K

namespace Frame

variable {n K : Type} [Fintype n] [DecidableEq n] [CommRing K]

omit [Fintype n] [DecidableEq n] [CommRing K] in
theorem ext_parts {F G : Frame n K} (hR : F.R = G.R) (hT : F.T = G.T) : F = G := by
  cases F
  cases G
  simp_all

def apply (F : Frame n K) (p : n → K) : n → K := F.R.mulVec p + F.T

/-- The frame that moves nothing. -/
def unit : Frame n K := ⟨1, 0⟩

/-- First `G`, then `F`. -/
def comp (F G : Frame n K) : Frame n K := ⟨F.R * G.R, F.R.mulVec G.T + F.T⟩

@[simp]
theorem apply_unit (p : n → K) : (unit : Frame n K).apply p = p := by
  simp [apply, unit]

omit [DecidableEq n] in
@[simp]
theorem apply_comp (F G : Frame n K) (p : n → K) :
    (F.comp G).apply p = F.apply (G.apply p) := by
  simp only [apply, comp, Matrix.mulVec_add, Matrix.mulVec_mulVec, add_assoc]

/-- A frame is given by what it does to the points. -/
theorem ext_apply {F G : Frame n K} (h : ∀ p, F.apply p = G.apply p) : F = G := by
  have hT : F.T = G.T := by
    have h0 := h 0
    simpa [apply] using h0
  have hR : F.R = G.R := by
    refine Matrix.ext_of_mulVec_single fun i => ?_
    have hi := h (Pi.single i 1)
    rw [apply, apply, hT] at hi
    exact add_right_cancel hi
  exact ext_parts hR hT

/-! ## Chains -/

/-- The frame that applies the last frame of the chain first. -/
def compose : List (Frame n K) → Frame n K
  | [] => unit
  | F :: rest => F.comp (compose rest)

/-- One step of the walk along a chain from its far end. -/
def absorb (acc F : Frame n K) : Frame n K := ⟨acc.R * F.R, acc.T + F.T⟩

/-- The walk over the whole chain. -/
def accumulate (chain : List (Frame n K)) : Frame n K :=
  chain.reverse.foldl absorb unit

theorem compose_concat (chain : List (Frame n K)) (F : Frame n K) :
    compose (chain ++ [F]) = (compose chain).comp F := by
  refine ext_apply fun p => ?_
  induction chain with
  | nil => simp [compose]
  | cons G rest ih => rw [List.cons_append, compose, compose, apply_comp, ih]; simp

/-- The walk meets a frame at the far end of the chain first, so its
rotation ends up leftmost. -/
theorem accumulate_concat (chain : List (Frame n K)) (F : Frame n K) :
    accumulate (chain ++ [F]) =
      ⟨F.R * (accumulate chain).R, (accumulate chain).T + F.T⟩ := by
  have hfold : ∀ (l : List (Frame n K)) (acc : Frame n K),
      l.foldl absorb acc =
        ⟨acc.R * (l.foldl absorb unit).R, acc.T + (l.foldl absorb unit).T⟩ := by
    intro l
    induction l with
    | nil => intro acc; simp [unit]
    | cons G rest ih =>
      intro acc
      rw [List.foldl_cons, List.foldl_cons, ih (absorb acc G), ih (absorb unit G)]
      simp [absorb, unit, mul_assoc, add_assoc]
  rw [accumulate, List.reverse_concat, List.foldl_cons, hfold]
  refine ext_parts ?_ ?_
  · simp [absorb, unit, accumulate]
  · simp [absorb, unit, accumulate, add_comm]

/-- The frames of the chain, taken one after the other, commute with the
composition of the frames before them and are not moved by it. -/
def Aligned (chain : List (Frame n K)) : Prop :=
  ∀ before F after, chain = before ++ F :: after →
    F.R * (compose before).R = (compose before).R * F.R ∧
      (compose before).R.mulVec F.T = F.T

theorem aligned_nil : Aligned ([] : List (Frame n K)) := by
  intro before F after h
  simp at h

theorem aligned_concat_iff {chain : List (Frame n K)} {F : Frame n K} :
    Aligned (chain ++ [F]) ↔
      Aligned chain ∧ F.R * (compose chain).R = (compose chain).R * F.R ∧
        (compose chain).R.mulVec F.T = F.T := by
  constructor
  · intro h
    refine ⟨fun before G after hsplit => ?_, h chain F [] rfl⟩
    exact h before G (after ++ [F]) (by simp [hsplit])
  · rintro ⟨hchain, hlast⟩ before G after hsplit
    rcases List.eq_nil_or_concat after with rfl | ⟨after', last, rfl⟩
    · obtain ⟨rfl, h⟩ := List.append_inj' hsplit rfl
      obtain rfl := (List.cons.inj h).1
      exact hlast
    · have hsplit' : chain ++ [F] = (before ++ G :: after') ++ [last] := by
        simpa using hsplit
      exact hchain before G after' (List.append_inj' hsplit' rfl).1

/-- The shortcut gives the composition of every initial part of the chain
exactly when the chain is aligned. -/
theorem accumulate_eq_compose_iff {chain : List (Frame n K)} :
    (∀ part, part <+: chain → accumulate part = compose part) ↔ Aligned chain := by
  induction chain using List.reverseRecOn with
  | nil =>
    refine iff_of_true ?_ aligned_nil
    intro part hpart
    rw [List.prefix_nil.mp hpart]
    rfl
  | append_singleton chain F ih =>
    rw [aligned_concat_iff, ← ih]
    have hparts : (∀ part, part <+: chain ++ [F] → accumulate part = compose part) ↔
        (∀ part, part <+: chain → accumulate part = compose part) ∧
          accumulate (chain ++ [F]) = compose (chain ++ [F]) := by
      simp only [List.prefix_concat_iff]
      constructor
      · exact fun h => ⟨fun part hp => h part (Or.inr hp), h _ (Or.inl rfl)⟩
      · rintro ⟨hall, hlast⟩ part (rfl | hp)
        · exact hlast
        · exact hall part hp
    rw [hparts]
    refine and_congr_right fun hall => ?_
    have hchain : accumulate chain = compose chain := hall chain List.prefix_rfl
    rw [accumulate_concat, compose_concat, hchain]
    constructor
    · intro h
      refine ⟨congrArg R h, ?_⟩
      have hT : (compose chain).T + F.T =
          (compose chain).R.mulVec F.T + (compose chain).T := congrArg T h
      rw [add_comm] at hT
      exact (add_right_cancel hT).symm
    · rintro ⟨hR, hT⟩
      refine ext_parts hR ?_
      show (compose chain).T + F.T = (compose chain).R.mulVec F.T + (compose chain).T
      rw [hT, add_comm]

end Frame
