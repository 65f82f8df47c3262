import Mathlib.Data.List.Basic

/-!
# Values that are given back and handed out again

A free list is a queue of the values that wait.  A value that is given back
goes to its end.  A value that is handed out comes from its front, and only
an empty queue lets a fresh value out.

`Steps.conserve` is the law of the queue, by induction over the operations:
as long as no more values were handed out than waited, what waited and what
was given back is what was handed out and what waits now, in this order.
-/

namespace FreeList

variable {α : Type}

inductive Op (α : Type) where
  | giveBack (x : α)
  | handOut (x : α)
  | idle

/-- An operation takes the waiting values to the ones that wait after it. -/
inductive Step : List α → Op α → List α → Prop
  | giveBack (waiting : List α) (x : α) : Step waiting (.giveBack x) (waiting ++ [x])
  | front (x : α) (waiting : List α) : Step (x :: waiting) (.handOut x) waiting
  | fresh (x : α) : Step [] (.handOut x) []
  | idle (waiting : List α) : Step waiting .idle waiting

inductive Steps : List α → List (Op α) → List α → Prop
  | nil (waiting : List α) : Steps waiting [] waiting
  | cons {waiting waiting' waiting'' : List α} {op : Op α} {ops : List (Op α)} :
      Step waiting op waiting' → Steps waiting' ops waiting'' → Steps waiting (op :: ops) waiting''

/-- The values that the operations hand out, from the first on. -/
def handedOut : List (Op α) → List α
  | [] => []
  | .handOut x :: ops => x :: handedOut ops
  | .giveBack _ :: ops | .idle :: ops => handedOut ops

/-- The values that the operations give back, from the first on. -/
def givenBack : List (Op α) → List α
  | [] => []
  | .giveBack x :: ops => x :: givenBack ops
  | .handOut _ :: ops | .idle :: ops => givenBack ops

/-- What waited and what came back was handed out, or waits. -/
theorem Steps.conserve {waiting waiting' : List α} {ops : List (Op α)}
    (h : Steps waiting ops waiting') (hle : (handedOut ops).length ≤ waiting.length) :
    waiting ++ givenBack ops = handedOut ops ++ waiting' := by
  induction h with
  | nil waiting => exact List.append_nil waiting
  | cons hstep _ ih =>
    cases hstep with
    | giveBack waiting x =>
      have hnext := ih (by
        unfold handedOut at hle
        rw [List.length_append]
        omega)
      rw [List.append_assoc] at hnext
      exact hnext
    | front x waiting =>
      have hnext := ih (by
        rw [handedOut, List.length_cons, List.length_cons] at hle
        omega)
      exact congrArg (x :: ·) hnext
    | fresh x =>
      rw [handedOut, List.length_cons, List.length_nil] at hle
      omega
    | idle waiting => exact ih hle

/-- The values that wait are handed out in their order, before any other. -/
theorem Steps.handedOut_getElem? {waiting waiting' : List α} {ops : List (Op α)}
    (h : Steps waiting ops waiting') {i : Nat} (hi : i < waiting.length)
    (hout : i < (handedOut ops).length) : (handedOut ops)[i]? = waiting[i]? := by
  induction h generalizing i with
  | nil waiting => exact absurd hout (Nat.not_lt_zero i)
  | cons hstep _ ih =>
    cases hstep with
    | giveBack waiting x =>
      have hnext := ih (by
        rw [List.length_append]
        omega) hout
      rw [List.getElem?_append_left hi] at hnext
      exact hnext
    | front x waiting =>
      cases i with
      | zero => rfl
      | succ i => exact ih (Nat.lt_of_succ_lt_succ hi) (Nat.lt_of_succ_lt_succ hout)
    | fresh x => exact absurd hi (Nat.not_lt_zero i)
    | idle waiting => exact ih hi hout

/-- As long as a value that waited is left, the next one is in front. -/
theorem Steps.head?_eq {waiting waiting' : List α} {ops : List (Op α)}
    (h : Steps waiting ops waiting') (hlt : (handedOut ops).length < waiting.length) :
    waiting'.head? = waiting[(handedOut ops).length]? := by
  have hkept := h.conserve (Nat.le_of_lt hlt)
  calc waiting'.head?
      = (handedOut ops ++ waiting')[(handedOut ops).length]? := by
        rw [List.getElem?_append_right (Nat.le_refl _), Nat.sub_self, List.head?_eq_getElem?]
    _ = waiting[(handedOut ops).length]? := by
        rw [← hkept, List.getElem?_append_left hlt]

end FreeList
