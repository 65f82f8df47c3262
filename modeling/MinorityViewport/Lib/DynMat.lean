import Mathlib.Algebra.BigOperators.Group.Finset.Basic
import Mathlib.Algebra.BigOperators.Fin
import Mathlib.Algebra.Field.Basic
import Mathlib.Data.Matrix.Mul

/-!
# Matrices whose sizes are run-time values

`DynMat K` is a matrix of a library such as OpenCV: the numbers of rows and
columns are fields, and an operation on sizes that do not fit fails.  The
entries are a function of two indices that is zero outside the sizes, and
the structure carries that as a field.  Two matrices are therefore equal
exactly when their sizes and their entries inside the sizes are.

The partial operations are `mul?`, `add?`, `sub?`, `reduceAvg?` and
`pushBack?`.  They answer `none` on a size mismatch.  `toMatrix m n` reads a
matrix of known sizes as a matrix of Mathlib, and the `toMatrix_*` lemmas
carry each operation over.
-/

/-- A matrix with run-time sizes. -/
structure DynMat (K : Type) [Zero K] where
  rows : Nat
  cols : Nat
  entry : Nat → Nat → K
  support : ∀ i j, rows ≤ i ∨ cols ≤ j → entry i j = 0

namespace DynMat

variable {K : Type}

section Shape

variable [Zero K]

/-- The matrix that no constructor has filled. -/
def empty : DynMat K := ⟨0, 0, fun _ _ => 0, fun _ _ _ => rfl⟩

instance : Inhabited (DynMat K) := ⟨empty⟩

/-- `m` rows and `n` columns. -/
def HasSize (A : DynMat K) (m n : Nat) : Prop := A.rows = m ∧ A.cols = n

instance (A : DynMat K) (m n : Nat) : Decidable (A.HasSize m n) :=
  inferInstanceAs (Decidable (_ ∧ _))

/-- The matrix with given sizes and entries. -/
def build (m n : Nat) (f : Nat → Nat → K) : DynMat K where
  rows := m
  cols := n
  entry i j := if i < m ∧ j < n then f i j else 0
  support i j h := if_neg (by omega)

@[simp]
theorem build_rows (m n : Nat) (f : Nat → Nat → K) : (build m n f).rows = m := rfl

@[simp]
theorem build_cols (m n : Nat) (f : Nat → Nat → K) : (build m n f).cols = n := rfl

@[simp]
theorem build_hasSize (m n : Nat) (f : Nat → Nat → K) : (build m n f).HasSize m n :=
  ⟨rfl, rfl⟩

theorem build_entry {m n : Nat} (f : Nat → Nat → K) {i j : Nat} (hi : i < m)
    (hj : j < n) : (build m n f).entry i j = f i j :=
  if_pos ⟨hi, hj⟩

theorem ext_entry {A B : DynMat K} (hr : A.rows = B.rows) (hc : A.cols = B.cols)
    (h : ∀ i j, i < A.rows → j < A.cols → A.entry i j = B.entry i j) : A = B := by
  have hentry : A.entry = B.entry := by
    funext i j
    by_cases hin : i < A.rows ∧ j < A.cols
    · exact h i j hin.1 hin.2
    · rw [A.support i j (by omega), B.support i j (by omega)]
  cases A
  cases B
  simp_all

/-- The rows of `A`, followed by the rows of `B`.  A matrix without rows
takes the size of `B`. -/
def pushBack? (A B : DynMat K) : Option (DynMat K) :=
  if A.rows = 0 then some B
  else if A.cols = B.cols then
    some (build (A.rows + B.rows) A.cols fun i j =>
      if i < A.rows then A.entry i j else B.entry (i - A.rows) j)
  else none

def transpose (A : DynMat K) : DynMat K where
  rows := A.cols
  cols := A.rows
  entry i j := A.entry j i
  support i j h := A.support j i h.symm

@[simp]
theorem transpose_rows (A : DynMat K) : A.transpose.rows = A.cols := rfl

@[simp]
theorem transpose_cols (A : DynMat K) : A.transpose.cols = A.rows := rfl

@[simp]
theorem transpose_entry (A : DynMat K) (i j : Nat) :
    A.transpose.entry i j = A.entry j i := rfl

theorem HasSize.transpose {A : DynMat K} {m n : Nat} (h : A.HasSize m n) :
    A.transpose.HasSize n m := ⟨h.2, h.1⟩

/-- The entries of the `m × n` part, as a matrix of Mathlib. -/
def toMatrix (A : DynMat K) (m n : Nat) : Matrix (Fin m) (Fin n) K :=
  Matrix.of fun i j => A.entry i j

@[simp]
theorem toMatrix_apply (A : DynMat K) (m n : Nat) (i : Fin m) (j : Fin n) :
    A.toMatrix m n i j = A.entry i j := rfl

/-- A matrix of Mathlib as a matrix with run-time sizes. -/
def ofMatrix {m n : Nat} (M : Matrix (Fin m) (Fin n) K) : DynMat K :=
  build m n fun i j => if h : i < m ∧ j < n then M ⟨i, h.1⟩ ⟨j, h.2⟩ else 0

@[simp]
theorem ofMatrix_hasSize {m n : Nat} (M : Matrix (Fin m) (Fin n) K) :
    (ofMatrix M).HasSize m n := ⟨rfl, rfl⟩

@[simp]
theorem toMatrix_ofMatrix {m n : Nat} (M : Matrix (Fin m) (Fin n) K) :
    (ofMatrix M).toMatrix m n = M := by
  ext i j
  simp [ofMatrix, build]

@[simp]
theorem toMatrix_transpose (A : DynMat K) (m n : Nat) :
    A.transpose.toMatrix n m = (A.toMatrix m n).transpose := rfl

end Shape

section Rows

variable [Zero K]

/-- The `n × k` matrix whose rows are the given vectors. -/
def ofRows (k : Nat) (xs : List (Fin k → K)) : DynMat K :=
  build xs.length k fun i j =>
    match xs[i]? with
    | some x => if h : j < k then x ⟨j, h⟩ else 0
    | none => 0

@[simp]
theorem ofRows_rows (k : Nat) (xs : List (Fin k → K)) : (ofRows k xs).rows = xs.length :=
  rfl

@[simp]
theorem ofRows_cols (k : Nat) (xs : List (Fin k → K)) : (ofRows k xs).cols = k := rfl

/-- Row `i` of the matrix, as a vector of length `k`. -/
def row (A : DynMat K) (k i : Nat) : Fin k → K := fun j => A.entry i j

theorem ofRows_row (k : Nat) (xs : List (Fin k → K)) {i : Nat} (hi : i < xs.length) :
    (ofRows k xs).row k i = xs[i] := by
  funext j
  simp [row, ofRows, build, hi]

/-- A matrix is given by its rows. -/
theorem eq_ofRows {A : DynMat K} {k : Nat} {xs : List (Fin k → K)}
    (hr : A.rows = xs.length) (hc : A.cols = k)
    (h : ∀ i (hi : i < xs.length), A.row k i = xs[i]) : A = ofRows k xs := by
  refine ext_entry hr hc fun i j hi hj => ?_
  have hi' : i < xs.length := hr ▸ hi
  have hj' : j < k := hc ▸ hj
  have hrow := congrFun ((h i hi').trans (ofRows_row k xs hi').symm) ⟨j, hj'⟩
  exact hrow

theorem pushBack?_ofRows {k : Nat} {xs ys : List (Fin k → K)} (hx : xs ≠ []) :
    (ofRows k xs).pushBack? (ofRows k ys) = some (ofRows k (xs ++ ys)) := by
  have hlen : xs.length ≠ 0 := fun h => hx (List.eq_nil_of_length_eq_zero h)
  rw [pushBack?, ofRows_rows, if_neg hlen, ofRows_cols, ofRows_cols, if_pos rfl]
  refine congrArg some (eq_ofRows (by simp) rfl ?_)
  intro i hi
  funext j
  have hi' : i < xs.length + ys.length := by simpa using hi
  rw [row, build_entry _ (by simpa using hi') j.isLt]
  split_ifs with hlt
  · rw [List.getElem_append_left hlt]
    exact congrFun (ofRows_row k xs hlt) j
  · rw [List.getElem_append_right (by omega)]
    exact congrFun (ofRows_row k ys (by omega)) j

/-- Append `B` again and again. -/
def pushBackTimes? (A B : DynMat K) (n : Nat) : Option (DynMat K) :=
  (List.range n).foldlM (fun A _ => A.pushBack? B) A

theorem pushBackTimes?_ofRows {k : Nat} (x : Fin k → K) (n : Nat) :
    (ofRows k [x]).pushBackTimes? (ofRows k [x]) n =
      some (ofRows k (List.replicate (n + 1) x)) := by
  induction n with
  | zero => rfl
  | succ n ih =>
    rw [pushBackTimes?] at ih ⊢
    rw [List.range_succ, List.foldlM_append, ih, Option.bind_eq_bind, Option.bind_some,
      List.foldlM_cons, pushBack?_ofRows (by simp), ← List.replicate_succ']
    rfl

/-- A matrix of one row. -/
theorem eq_ofRows_singleton {A : DynMat K} {k : Nat} (h : A.HasSize 1 k) :
    A = ofRows k [A.row k 0] := by
  refine eq_ofRows h.1 h.2 fun i hi => ?_
  obtain rfl : i = 0 := by simpa using hi
  rfl

end Rows

section Arithmetic

variable [Semiring K]

/-- The identity matrix. -/
def eye (n : Nat) : DynMat K := build n n fun i j => if i = j then 1 else 0

/-- The matrix with every entry zero. -/
def zeros (m n : Nat) : DynMat K := build m n fun _ _ => 0

def mul? (A B : DynMat K) : Option (DynMat K) :=
  if A.rows ≠ 0 ∧ A.cols ≠ 0 ∧ A.cols = B.rows then
    some (build A.rows B.cols fun i j =>
      ∑ k ∈ Finset.range A.cols, A.entry i k * B.entry k j)
  else none

def add? (A B : DynMat K) : Option (DynMat K) :=
  if A.rows ≠ 0 ∧ A.cols ≠ 0 ∧ A.rows = B.rows ∧ A.cols = B.cols then
    some (build A.rows A.cols fun i j => A.entry i j + B.entry i j)
  else none

def sub? {K : Type} [Ring K] (A B : DynMat K) : Option (DynMat K) :=
  if A.rows ≠ 0 ∧ A.cols ≠ 0 ∧ A.rows = B.rows ∧ A.cols = B.cols then
    some (build A.rows A.cols fun i j => A.entry i j - B.entry i j)
  else none

/-- The row of the averages of the columns. -/
def reduceAvg? {K : Type} [Field K] (A : DynMat K) : Option (DynMat K) :=
  if A.rows ≠ 0 ∧ A.cols ≠ 0 then
    some (build 1 A.cols fun _ j => (∑ i ∈ Finset.range A.rows, A.entry i j) / A.rows)
  else none

theorem eye_hasSize (n : Nat) : (eye n : DynMat K).HasSize n n := ⟨rfl, rfl⟩

theorem zeros_hasSize (m n : Nat) : (zeros m n : DynMat K).HasSize m n := ⟨rfl, rfl⟩

@[simp]
theorem toMatrix_eye (n : Nat) : (eye n : DynMat K).toMatrix n n = 1 := by
  ext i j
  simp [eye, build, Matrix.one_apply, Fin.ext_iff]

@[simp]
theorem toMatrix_zeros (m n : Nat) : (zeros m n : DynMat K).toMatrix m n = 0 := by
  ext i j
  simp [zeros, build]

/-- A product of matrices whose sizes fit. -/
theorem mul?_of_hasSize {A B : DynMat K} {m k n : Nat} (hm : m ≠ 0) (hk : k ≠ 0)
    (hA : A.HasSize m k) (hB : B.HasSize k n) :
    ∃ C, A.mul? B = some C ∧ C.HasSize m n ∧
      C.toMatrix m n = A.toMatrix m k * B.toMatrix k n := by
  obtain ⟨rfl, rfl⟩ := hA
  obtain ⟨hk', rfl⟩ := hB
  refine ⟨_, if_pos ⟨hm, hk, hk'.symm⟩, ⟨rfl, rfl⟩, ?_⟩
  ext i j
  simp [build, Matrix.mul_apply, Finset.sum_range]

/-- A sum of matrices whose sizes fit. -/
theorem add?_of_hasSize {A B : DynMat K} {m n : Nat} (hm : m ≠ 0) (hn : n ≠ 0)
    (hA : A.HasSize m n) (hB : B.HasSize m n) :
    ∃ C, A.add? B = some C ∧ C.HasSize m n ∧
      C.toMatrix m n = A.toMatrix m n + B.toMatrix m n := by
  obtain ⟨rfl, rfl⟩ := hA
  refine ⟨_, if_pos ⟨hm, hn, hB.1.symm, hB.2.symm⟩, ⟨rfl, rfl⟩, ?_⟩
  ext i j
  simp [build]

/-- A difference of matrices whose sizes fit. -/
theorem sub?_of_hasSize {K : Type} [Ring K] {A B : DynMat K} {m n : Nat} (hm : m ≠ 0)
    (hn : n ≠ 0) (hA : A.HasSize m n) (hB : B.HasSize m n) :
    ∃ C, A.sub? B = some C ∧ C.HasSize m n ∧
      C.toMatrix m n = A.toMatrix m n - B.toMatrix m n := by
  obtain ⟨rfl, rfl⟩ := hA
  refine ⟨_, if_pos ⟨hm, hn, hB.1.symm, hB.2.symm⟩, ⟨rfl, rfl⟩, ?_⟩
  ext i j
  simp [build]

/-- The averages of the columns. -/
theorem reduceAvg?_of_hasSize {K : Type} [Field K] {A : DynMat K} {m n : Nat}
    (hm : m ≠ 0) (hn : n ≠ 0) (hA : A.HasSize m n) :
    ∃ C, A.reduceAvg? = some C ∧ C.HasSize 1 n ∧
      C.row n 0 = (m : K)⁻¹ • ∑ i : Fin m, A.row n i := by
  obtain ⟨rfl, rfl⟩ := hA
  refine ⟨_, if_pos ⟨hm, hn⟩, ⟨rfl, rfl⟩, ?_⟩
  funext j
  rw [row, build_entry _ Nat.one_pos j.isLt, Pi.smul_apply, Finset.sum_apply,
    Finset.sum_range, smul_eq_mul, div_eq_inv_mul]
  rfl

/-- A matrix without entries is no factor. -/
theorem mul?_empty (A : DynMat K) (hA : A.cols ≠ 0) :
    A.mul? empty = none := by
  have : ¬ (A.rows ≠ 0 ∧ A.cols ≠ 0 ∧ A.cols = (empty : DynMat K).rows) :=
    fun h => hA h.2.2
  rw [mul?, if_neg this]

end Arithmetic

end DynMat
