import Mathlib.Data.List.Forall2

/-!
# Computations in lockstep

Two computations over different states agree when both return or both throw
the same.  `Simulates` says that they do so from related states, and that the
states and the results are related again.  The rules follow the monad:
`simulates_pure`, `simulates_bind`, and `simulates_mapM` for a list of
computations in turn.
-/

namespace Simulation

variable {ε σ τ α β γ δ ι : Type}

/-- Both outcomes are results, related and in related states, or both are the
same error. -/
inductive Agrees (R : σ → τ → Prop) (Q : α → β → Prop) :
    EStateM.Result ε σ α → EStateM.Result ε τ β → Prop
  | ok {a : α} {b : β} {s : σ} {t : τ} (state : R s t) (value : Q a b) :
    Agrees R Q (.ok a s) (.ok b t)
  | error (e : ε) (s : σ) (t : τ) : Agrees R Q (.error e s) (.error e t)

/-- From related states, the computations agree. -/
def Simulates (R : σ → τ → Prop) (Q : α → β → Prop) (x : EStateM ε σ α) (y : EStateM ε τ β) :
    Prop :=
  ∀ s t, R s t → Agrees R Q (x.run s) (y.run t)

variable {R : σ → τ → Prop} {Q : α → β → Prop}

theorem simulates_pure {a : α} {b : β} (h : Q a b) :
    Simulates R Q (pure a : EStateM ε σ α) (pure b : EStateM ε τ β) :=
  fun _ _ hR => .ok hR h

theorem simulates_bind {Q' : γ → δ → Prop} {x : EStateM ε σ α} {y : EStateM ε τ β}
    {f : α → EStateM ε σ γ} {g : β → EStateM ε τ δ} (h : Simulates R Q x y)
    (hrest : ∀ a b, Q a b → Simulates R Q' (f a) (g b)) :
    Simulates R Q' (x >>= f) (y >>= g) := by
  intro s t hR
  rw [EStateM.run_bind, EStateM.run_bind]
  have hfirst := h s t hR
  generalize x.run s = r at hfirst
  generalize y.run t = r' at hfirst
  cases hfirst with
  | ok hstate hvalue => exact hrest _ _ hvalue _ _ hstate
  | error e s t => exact .error e s t

/-- Computations that agree one by one agree in turn. -/
theorem simulates_mapM {f : ι → EStateM ε σ α} {g : ι → EStateM ε τ β} (xs : List ι)
    (h : ∀ i ∈ xs, Simulates R Q (f i) (g i)) :
    Simulates R (List.Forall₂ Q) (xs.mapM f) (xs.mapM g) := by
  induction xs with
  | nil => exact simulates_pure .nil
  | cons i xs ih =>
    obtain ⟨hi, hxs⟩ := List.forall_mem_cons.mp h
    rw [List.mapM_cons, List.mapM_cons]
    refine simulates_bind hi fun a b hab => simulates_bind (ih hxs) fun as bs hrest => ?_
    exact simulates_pure (.cons hab hrest)

end Simulation
