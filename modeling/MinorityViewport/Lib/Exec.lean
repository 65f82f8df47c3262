import Mathlib.Data.List.Basic
import Mathlib.Order.Defs.Unbundled

/-!
# Computations that keep their state when they throw

`EStateM ε σ` is a computation over a state `σ` that can throw an `ε`.  A
throw keeps the writes that were made before it, as an exception of an
imperative program does, so both outcomes leave a state.

Three observations are enough for the developments that use this file.

* `after x s` is the state that `x` leaves, on either outcome.
* `Moves R x` says that `R` relates every start state to the state that
  `x` leaves.  With `R s s' := I s → I s'` it says that `x` keeps the
  invariant `I`, and with an equation between two projections it is a
  frame condition.  The rules below ask that `R` is a preorder.
* `Returns x s` says that `x` does not throw from `s`.  `returns_foldlM_iff`
  is the rule for a loop whose test for a throw does not change along the
  way.

The second half is about a counting loop whose counter is narrower than
its bound.  `countLoop` wraps its counter at `modulus`, and it runs the
computation `endless` when its fuel is spent.  A bound below `modulus`
gives the fold over the indices, and a bound above it never returns.
-/

namespace Exec

variable {ε σ α β : Type}

/-! ## The state that a computation leaves -/

def after (x : EStateM ε σ α) (s : σ) : σ :=
  match x.run s with
  | .ok _ s' => s'
  | .error _ s' => s'

theorem after_of_ok {x : EStateM ε σ α} {s s' : σ} {a : α}
    (h : x.run s = .ok a s') : after x s = s' := by
  rw [after, h]

@[simp]
theorem after_pure (a : α) (s : σ) : after (pure a : EStateM ε σ α) s = s := rfl

@[simp]
theorem after_throw (e : ε) (s : σ) : after (throw e : EStateM ε σ α) s = s := rfl

@[simp]
theorem after_modify (f : σ → σ) (s : σ) :
    after (modify f : EStateM ε σ PUnit) s = f s := rfl

@[simp]
theorem after_get_bind (f : σ → EStateM ε σ α) (s : σ) :
    after (get >>= f) s = after (f s) s := rfl

@[simp]
theorem after_ofExcept (r : Except ε α) (s : σ) :
    after (ofExcept r : EStateM ε σ α) s = s := by
  cases r <;> rfl

@[simp]
theorem after_ofExcept_bind (r : Except ε α) (f : α → EStateM ε σ β) (s : σ) :
    after (ofExcept r >>= f) s =
      match r with
      | .ok a => after (f a) s
      | .error _ => s := by
  cases r <;> rfl

@[simp]
theorem ofExcept_ok_bind (a : α) (f : α → EStateM ε σ β) :
    ((ofExcept (.ok a) : EStateM ε σ α) >>= f) = f a := rfl

theorem after_bind (x : EStateM ε σ α) (f : α → EStateM ε σ β) (s : σ) :
    after (x >>= f) s =
      match x.run s with
      | .ok a s' => after (f a) s'
      | .error _ s' => s' := by
  simp only [after, EStateM.run_bind]
  cases x.run s <;> rfl

/-- A result that is thrown away does not change what is left. -/
@[simp]
theorem after_bind_pure (x : EStateM ε σ α) (b : β) (s : σ) :
    after (x >>= fun _ => pure b) s = after x s := by
  rw [after_bind, after]
  cases x.run s <;> rfl

/-! ## The results of the steps of a run -/

theorem run_bind_eq_ok_iff {x : EStateM ε σ α} {f : α → EStateM ε σ β} {s s'' : σ} {b : β} :
    (x >>= f).run s = .ok b s'' ↔ ∃ a s', x.run s = .ok a s' ∧ (f a).run s' = .ok b s'' := by
  rw [EStateM.run_bind]
  cases x.run s with
  | ok a s' =>
    constructor
    · exact fun h => ⟨a, s', rfl, h⟩
    · rintro ⟨a', s₁, hx, h⟩
      cases hx
      exact h
  | error e s' =>
    constructor
    · exact fun h => by cases h
    · rintro ⟨a', s₁, hx, _⟩
      cases hx

theorem run_get_bind_eq_ok_iff {f : σ → EStateM ε σ α} {s s' : σ} {a : α} :
    (get >>= f).run s = .ok a s' ↔ (f s).run s = .ok a s' := Iff.rfl

theorem run_ofExcept_eq_ok_iff {r : Except ε α} {s s' : σ} {a : α} :
    (ofExcept r : EStateM ε σ α).run s = .ok a s' ↔ r = .ok a ∧ s' = s := by
  cases r with
  | ok b =>
    constructor
    · exact fun h => by cases h; exact ⟨rfl, rfl⟩
    · rintro ⟨h, rfl⟩
      cases h
      rfl
  | error e =>
    constructor
    · exact fun h => by cases h
    · rintro ⟨h, _⟩
      cases h

theorem run_pure_eq_ok_iff {s s' : σ} {a b : α} :
    (pure a : EStateM ε σ α).run s = .ok b s' ↔ b = a ∧ s' = s := by
  constructor
  · exact fun h => by cases h; exact ⟨rfl, rfl⟩
  · rintro ⟨rfl, rfl⟩
    rfl

theorem not_run_throw_eq_ok {e : ε} {s s' : σ} {a : α} :
    (throw e : EStateM ε σ α).run s ≠ .ok a s' := fun h => by cases h

/-- The value of a run that returns. -/
def value? (x : EStateM ε σ α) (s : σ) : Option α :=
  match x.run s with
  | .ok a _ => some a
  | .error _ _ => none

theorem run_eq_ok_of_value? {x : EStateM ε σ α} {s : σ} {a : α} (h : value? x s = some a) :
    x.run s = .ok a (after x s) := by
  unfold value? at h
  unfold after
  cases hrun : x.run s with
  | ok b s' =>
    rw [hrun] at h
    cases h
    rfl
  | error e s' =>
    rw [hrun] at h
    cases h

/-! ## Relations between the two ends of a run -/

/-- `R` relates every state to the state that `x` leaves from it. -/
def Moves (R : σ → σ → Prop) (x : EStateM ε σ α) : Prop :=
  ∀ s, R s (after x s)

section Moves

variable {R : σ → σ → Prop} [IsPreorder σ R]

theorem moves_pure (a : α) : Moves R (pure a : EStateM ε σ α) :=
  fun s => refl_of R s

theorem moves_throw (e : ε) : Moves R (throw e : EStateM ε σ α) :=
  fun s => refl_of R s

theorem moves_ofExcept (r : Except ε α) : Moves R (ofExcept r : EStateM ε σ α) := by
  intro s
  rw [after_ofExcept]
  exact refl_of R s

theorem moves_bind {x : EStateM ε σ α} {f : α → EStateM ε σ β}
    (hx : Moves R x) (hf : ∀ a, Moves R (f a)) : Moves R (x >>= f) := by
  intro s
  have h := hx s
  rw [after_bind]
  unfold after at h
  cases hrun : x.run s with
  | ok a s' =>
    rw [hrun] at h
    exact trans_of R h (hf a s')
  | error e s' =>
    rw [hrun] at h
    exact h

omit [IsPreorder σ R] in
theorem moves_get_bind {f : σ → EStateM ε σ α}
    (hf : ∀ s, R s (after (f s) s)) : Moves R (get >>= f) := hf

omit [IsPreorder σ R] in
theorem moves_modify {f : σ → σ} (hf : ∀ s, R s (f s)) :
    Moves R (modify f : EStateM ε σ PUnit) := hf

omit [IsPreorder σ R] in
theorem moves_ite {c : Prop} [Decidable c] {x y : EStateM ε σ α}
    (hx : c → Moves R x) (hy : ¬c → Moves R y) :
    Moves R (if c then x else y) := by
  split_ifs with h
  · exact hx h
  · exact hy h

end Moves

/-- The relation of the runs that keep `I`. -/
def Keeping (I : σ → Prop) (s s' : σ) : Prop := I s → I s'

instance (I : σ → Prop) : IsPreorder σ (Keeping I) where
  refl _ h := h
  trans _ _ _ h h' hI := h' (h hI)

/-- An invariant of the rounds of a loop that return is one of the loop. -/
theorem inv_of_run_forM {xs : List α} {f : α → EStateM ε σ PUnit} {I : σ → Prop}
    (hstep : ∀ a s s', I s → (f a).run s = .ok ⟨⟩ s' → I s') {s s' : σ} {u : PUnit}
    (hs : I s) (h : (xs.forM f).run s = .ok u s') : I s' := by
  induction xs generalizing s with
  | nil =>
    obtain ⟨_, rfl⟩ := run_pure_eq_ok_iff.mp h
    exact hs
  | cons a rest ih =>
    have hcons : (f a >>= fun _ => rest.forM f).run s = .ok u s' := h
    obtain ⟨_, s₁, hfirst, hrest⟩ := run_bind_eq_ok_iff.mp hcons
    exact ih (hstep a s s₁ hs hfirst) hrest

/-! ## Runs that return -/

def Returns (x : EStateM ε σ α) (s : σ) : Prop := ∃ a s', x.run s = .ok a s'

@[simp]
theorem returns_pure (a : α) (s : σ) : Returns (pure a : EStateM ε σ α) s :=
  ⟨a, s, rfl⟩

@[simp]
theorem not_returns_throw (e : ε) (s : σ) : ¬ Returns (throw e : EStateM ε σ α) s := by
  rintro ⟨a, s', h⟩
  cases h

@[simp]
theorem returns_modify (f : σ → σ) (s : σ) :
    Returns (modify f : EStateM ε σ PUnit) s := ⟨_, f s, rfl⟩

@[simp]
theorem returns_get_bind (f : σ → EStateM ε σ α) (s : σ) :
    Returns (get >>= f) s ↔ Returns (f s) s := Iff.rfl

theorem returns_bind_iff {x : EStateM ε σ α} {f : α → EStateM ε σ β} {s : σ} :
    Returns (x >>= f) s ↔ ∃ a s', x.run s = .ok a s' ∧ Returns (f a) s' := by
  constructor
  · rintro ⟨b, s'', h⟩
    rw [EStateM.run_bind] at h
    cases hrun : x.run s with
    | ok a s' =>
      rw [hrun] at h
      exact ⟨a, s', rfl, b, s'', h⟩
    | error e s' =>
      rw [hrun] at h
      cases h
  · rintro ⟨a, s', hrun, b, s'', h⟩
    refine ⟨b, s'', ?_⟩
    rw [EStateM.run_bind, hrun]
    exact h

theorem returns_ofExcept_bind_iff {r : Except ε α} {f : α → EStateM ε σ β} {s : σ} :
    Returns (ofExcept r >>= f) s ↔ ∃ a, r = .ok a ∧ Returns (f a) s := by
  rw [returns_bind_iff]
  cases r with
  | ok a =>
    constructor
    · rintro ⟨a', s', h, hf⟩
      cases h
      exact ⟨a, rfl, hf⟩
    · rintro ⟨a', h, hf⟩
      cases h
      exact ⟨a, s, rfl, hf⟩
  | error e =>
    constructor
    · rintro ⟨a', s', h, _⟩
      cases h
    · rintro ⟨a', h, _⟩
      cases h

@[simp]
theorem returns_modify_bind (f : σ → σ) (g : PUnit → EStateM ε σ α) (s : σ) :
    Returns (modify f >>= g) s ↔ Returns (g ⟨⟩) (f s) := Iff.rfl

/-- A rest that always returns. -/
theorem returns_bind_iff_left {x : EStateM ε σ α} {f : α → EStateM ε σ β}
    (hf : ∀ a s, Returns (f a) s) (s : σ) : Returns (x >>= f) s ↔ Returns x s := by
  rw [returns_bind_iff]
  exact ⟨fun ⟨a, s', hrun, _⟩ => ⟨a, s', hrun⟩, fun ⟨a, s', hrun⟩ => ⟨a, s', hrun, hf a s'⟩⟩

/-- A loop that compares a key with the keys of a table runs the entry that
has it. -/
theorem forM_ite_eq_find? {κ : Type} [DecidableEq κ] {xs : List α} {key : α → κ}
    (h : (xs.map key).Nodup) (k : κ) (f : α → EStateM ε σ PUnit) :
    (xs.forM fun x => if k = key x then f x else pure ⟨⟩) =
      (xs.find? (k = key ·)).elim (pure ⟨⟩) f := by
  induction xs with
  | nil => rfl
  | cons a rest ih =>
    obtain ⟨ha, hrest⟩ := List.nodup_cons.mp h
    show ((if k = key a then f a else pure ⟨⟩) >>= fun _ =>
      rest.forM fun x => if k = key x then f x else pure ⟨⟩) = _
    by_cases hk : k = key a
    · have hnone : rest.find? (k = key ·) = none := by
        refine List.find?_eq_none.mpr fun b hb hkb => ha ?_
        rw [← hk, of_decide_eq_true hkb]
        exact List.mem_map_of_mem hb
      rw [if_pos hk, ih hrest, hnone, List.find?_cons_of_pos (by simpa using hk)]
      exact bind_pure (f a)
    · rw [if_neg hk, ih hrest, List.find?_cons_of_neg (by simpa using hk)]
      exact pure_bind _ _

/-- A fold whose steps do not test the state or what they collect. -/
theorem returns_foldlM_iff {xs : List α} {f : β → α → EStateM ε σ β} {C : α → Prop}
    (hf : ∀ b, ∀ a ∈ xs, ∀ s, Returns (f b a) s ↔ C a) (b : β) (s : σ) :
    Returns (xs.foldlM f b) s ↔ ∀ a ∈ xs, C a := by
  induction xs generalizing b s with
  | nil => exact iff_of_true (returns_pure _ s) (by simp)
  | cons a rest ih =>
    have hrest : ∀ b s, Returns (rest.foldlM f b) s ↔ ∀ a ∈ rest, C a :=
      ih fun b a ha => hf b a (List.mem_cons_of_mem _ ha)
    rw [List.foldlM_cons, List.forall_mem_cons, ← hf b a List.mem_cons_self s,
      returns_bind_iff]
    constructor
    · rintro ⟨b', s', hrun, hret⟩
      exact ⟨⟨b', s', hrun⟩, (hrest b' s').mp hret⟩
    · rintro ⟨⟨b', s', hrun⟩, hall⟩
      exact ⟨b', s', hrun, (hrest b' s').mpr hall⟩

/-! ## Computations over a part of the state -/

section Zoom

variable {τ : Type}

/-- Run `x` on what `view` shows of the state, and put the result back. -/
def zoom (view : σ → τ) (put : τ → σ → σ) (x : EStateM ε τ α) : EStateM ε σ α := fun s =>
  match x.run (view s) with
  | .ok a t => .ok a (put t s)
  | .error e t => .error e (put t s)

theorem run_zoom (view : σ → τ) (put : τ → σ → σ) (x : EStateM ε τ α) (s : σ) :
    (zoom view put x).run s =
      match x.run (view s) with
      | .ok a t => .ok a (put t s)
      | .error e t => .error e (put t s) := rfl

theorem after_zoom (view : σ → τ) (put : τ → σ → σ) (x : EStateM ε τ α) (s : σ) :
    after (zoom view put x) s = put (after x (view s)) s := by
  rw [after, after, run_zoom]
  cases x.run (view s) <;> rfl

theorem returns_zoom_iff (view : σ → τ) (put : τ → σ → σ) (x : EStateM ε τ α) (s : σ) :
    Returns (zoom view put x) s ↔ Returns x (view s) := by
  constructor
  · rintro ⟨a, s', h⟩
    rw [run_zoom] at h
    cases hrun : x.run (view s) with
    | ok b t => exact ⟨b, t, hrun⟩
    | error e t =>
      rw [hrun] at h
      cases h
  · rintro ⟨a, t, h⟩
    refine ⟨a, put t s, ?_⟩
    rw [run_zoom, h]

end Zoom

/-! ## Pure computations that return -/

def IsOk (x : Except ε α) : Prop := ∃ a, x = .ok a

@[simp]
theorem isOk_ok (a : α) : IsOk (.ok a : Except ε α) := ⟨a, rfl⟩

@[simp]
theorem isOk_pure (a : α) : IsOk (pure a : Except ε α) := ⟨a, rfl⟩

@[simp]
theorem not_isOk_error (e : ε) : ¬ IsOk (.error e : Except ε α) := by
  rintro ⟨a, h⟩
  cases h

/-- A value of which `P` holds. -/
def OkWith (x : Except ε α) (P : α → Prop) : Prop := ∃ a, x = .ok a ∧ P a

@[simp]
theorem okWith_ok {a : α} {P : α → Prop} : OkWith (.ok a : Except ε α) P ↔ P a := by
  simp [OkWith]

@[simp]
theorem not_okWith_error (e : ε) (P : α → Prop) : ¬ OkWith (.error e : Except ε α) P := by
  rintro ⟨a, h, _⟩
  cases h

instance (x : Except ε α) (P : α → Prop) [DecidablePred P] : Decidable (OkWith x P) :=
  match x with
  | .ok _ => decidable_of_iff' _ okWith_ok
  | .error e => isFalse (not_okWith_error e P)

theorem returns_ofExcept_iff (x : Except ε α) (s : σ) :
    Returns (ofExcept x : EStateM ε σ α) s ↔ IsOk x :=
  ⟨fun ⟨a, _, h⟩ => ⟨a, (run_ofExcept_eq_ok_iff.mp h).1⟩,
    fun ⟨a, h⟩ => ⟨a, s, run_ofExcept_eq_ok_iff.mpr ⟨h, rfl⟩⟩⟩

@[simp]
theorem isOk_map_iff {x : Except ε α} {f : α → β} : IsOk (f <$> x) ↔ IsOk x := by
  cases x with
  | ok a => exact iff_of_true ⟨f a, rfl⟩ ⟨a, rfl⟩
  | error e => exact iff_of_false (fun ⟨b, h⟩ => by cases h) (not_isOk_error e)

@[simp]
theorem ok_bind (a : α) (f : α → Except ε β) : (Except.ok a >>= f) = f a := rfl

@[simp]
theorem error_bind (e : ε) (f : α → Except ε β) : (Except.error e >>= f) = .error e := rfl

theorem bind_eq_ok_iff {x : Except ε α} {f : α → Except ε β} {b : β} :
    x >>= f = .ok b ↔ ∃ a, x = .ok a ∧ f a = .ok b := by
  cases x with
  | ok a =>
    constructor
    · exact fun h => ⟨a, rfl, h⟩
    · rintro ⟨a', ha, h⟩
      cases ha
      exact h
  | error e =>
    constructor
    · exact fun h => by cases h
    · rintro ⟨a', ha, _⟩
      cases ha

theorem isOk_bind_iff {x : Except ε α} {f : α → Except ε β} :
    IsOk (x >>= f) ↔ ∃ a, x = .ok a ∧ IsOk (f a) := by
  simp only [IsOk, bind_eq_ok_iff]
  exact ⟨fun ⟨b, a, hx, hf⟩ => ⟨a, hx, b, hf⟩, fun ⟨a, hx, b, hf⟩ => ⟨b, a, hx, hf⟩⟩

/-- A step whose value the rest does not test. -/
theorem isOk_bind_iff_and {x : Except ε α} {f : α → Except ε β} {C : Prop}
    (hf : ∀ a, IsOk (f a) ↔ C) : IsOk (x >>= f) ↔ IsOk x ∧ C := by
  rw [isOk_bind_iff]
  constructor
  · exact fun ⟨a, hx, h⟩ => ⟨⟨a, hx⟩, (hf a).mp h⟩
  · exact fun ⟨⟨a, hx⟩, hC⟩ => ⟨a, hx, (hf a).mpr hC⟩

/-- A fold whose steps test nothing but an invariant of what they collect. -/
theorem isOk_foldlM_iff_of_inv {xs : List α} {f : β → α → Except ε β} {I : β → Prop}
    {C : α → Prop} (hf : ∀ b, I b → ∀ a ∈ xs, (IsOk (f b a) ↔ C a))
    (hkeep : ∀ b, I b → ∀ a ∈ xs, ∀ b', f b a = .ok b' → I b') {b : β} (hb : I b) :
    IsOk (xs.foldlM f b) ↔ ∀ a ∈ xs, C a := by
  induction xs generalizing b with
  | nil => exact iff_of_true ⟨b, rfl⟩ (by simp)
  | cons a rest ih =>
    have hrest : ∀ b', I b' → (IsOk (rest.foldlM f b') ↔ ∀ a ∈ rest, C a) :=
      fun b' hb' => ih (fun b hb a ha => hf b hb a (List.mem_cons_of_mem _ ha))
        (fun b hb a ha => hkeep b hb a (List.mem_cons_of_mem _ ha)) hb'
    rw [List.foldlM_cons, List.forall_mem_cons, ← hf b hb a List.mem_cons_self,
      isOk_bind_iff]
    constructor
    · rintro ⟨b', hstep, hok⟩
      exact ⟨⟨b', hstep⟩, (hrest b' (hkeep b hb a List.mem_cons_self b' hstep)).mp hok⟩
    · rintro ⟨⟨b', hstep⟩, hall⟩
      exact ⟨b', hstep, (hrest b' (hkeep b hb a List.mem_cons_self b' hstep)).mpr hall⟩

/-- A fold whose steps do not test what they collect. -/
theorem isOk_foldlM_iff {xs : List α} {f : β → α → Except ε β} {C : α → Prop}
    (hf : ∀ b, ∀ a ∈ xs, IsOk (f b a) ↔ C a) (b : β) :
    IsOk (xs.foldlM f b) ↔ ∀ a ∈ xs, C a :=
  isOk_foldlM_iff_of_inv (I := fun _ => True) (fun b _ => hf b)
    (fun _ _ _ _ _ _ => trivial) trivial

/-- A fold whose steps collect what a function says. -/
theorem foldlM_eq_ok_iff {xs : List α} {f : β → α → Except ε β} {C : α → Prop}
    {g : β → α → β} (hf : ∀ b, ∀ a ∈ xs, ∀ b', f b a = .ok b' ↔ C a ∧ b' = g b a)
    {b b' : β} : xs.foldlM f b = .ok b' ↔ (∀ a ∈ xs, C a) ∧ b' = xs.foldl g b := by
  induction xs generalizing b with
  | nil =>
    rw [List.foldlM_nil, List.foldl_nil, and_iff_right (by simp)]
    exact ⟨fun h => (Except.ok.inj h).symm, fun h => congrArg Except.ok h.symm⟩
  | cons a rest ih =>
    have hrest : ∀ b, rest.foldlM f b = .ok b' ↔ (∀ a ∈ rest, C a) ∧ b' = rest.foldl g b :=
      fun b => ih fun b a ha => hf b a (List.mem_cons_of_mem _ ha)
    rw [List.foldlM_cons, List.foldl_cons, List.forall_mem_cons, bind_eq_ok_iff]
    constructor
    · rintro ⟨c, hstep, h⟩
      obtain ⟨ha, rfl⟩ := (hf b a List.mem_cons_self c).mp hstep
      obtain ⟨hall, h⟩ := (hrest _).mp h
      exact ⟨⟨ha, hall⟩, h⟩
    · rintro ⟨⟨ha, hall⟩, h⟩
      exact ⟨g b a, (hf b a List.mem_cons_self _).mpr ⟨ha, rfl⟩, (hrest _).mpr ⟨hall, h⟩⟩

theorem mapM_eq_ok {xs : List α} {f : α → Except ε β} {g : α → β}
    (h : ∀ a ∈ xs, f a = .ok (g a)) : xs.mapM f = .ok (xs.map g) := by
  induction xs with
  | nil => rfl
  | cons a rest ih =>
    rw [List.mapM_cons, h a List.mem_cons_self,
      ih fun b hb => h b (List.mem_cons_of_mem _ hb)]
    rfl

theorem isOk_mapM_iff {xs : List α} {f : α → Except ε β} :
    IsOk (xs.mapM f) ↔ ∀ a ∈ xs, IsOk (f a) := by
  induction xs with
  | nil => exact iff_of_true ⟨[], rfl⟩ (by simp)
  | cons a rest ih =>
    rw [List.mapM_cons, List.forall_mem_cons, ← ih]
    refine isOk_bind_iff_and fun b => ?_
    rw [isOk_bind_iff_and (C := True) fun _ => iff_of_true (isOk_pure _) trivial, and_true]

/-! ## A counting loop with a narrow counter -/

section CountLoop

variable {m : Type → Type} [Monad m]

/-- `for (i = start; i < size; i++)` with a counter that wraps at
`modulus`.  The loop makes at most `fuel` tests and then runs `endless`. -/
def countLoop (modulus size : Nat) (endless : m β) (body : Nat → β → m β) :
    (fuel start : Nat) → β → m β
  | 0, _, _ => endless
  | fuel + 1, i, b =>
    if i < size then do
      let b' ← body i b
      countLoop modulus size endless body fuel ((i + 1) % modulus) b'
    else pure b

/-- The loop from `0`.  It makes one test more than `size`, which is enough
for every loop that ends. -/
def forCounter (modulus size : Nat) (endless : m β) (body : Nat → β → m β)
    (b : β) : m β :=
  countLoop modulus size endless body (size + 1) 0 b

theorem countLoop_eq_foldlM {modulus size : Nat} (h : size < modulus)
    (endless : m β) (body : Nat → β → m β) (n : Nat) :
    ∀ i b, i + n = size →
      countLoop modulus size endless body (n + 1) i b =
        (List.range' i n).foldlM (fun b j => body j b) b := by
  induction n with
  | zero =>
    intro i b hi
    rw [countLoop, if_neg (by omega)]
    rfl
  | succ n ih =>
    intro i b hi
    rw [countLoop, if_pos (by omega), Nat.mod_eq_of_lt (by omega)]
    simp only [List.range'_succ, List.foldlM_cons]
    exact congrArg _ (funext fun b' => ih (i + 1) b' (by omega))

/-- A loop moves as its rounds do, whether or not it ends. -/
theorem moves_countLoop {R : σ → σ → Prop} [IsPreorder σ R] (modulus size : Nat)
    {endless : EStateM ε σ β} (hendless : Moves R endless)
    {body : Nat → β → EStateM ε σ β} (hbody : ∀ i b, Moves R (body i b)) (fuel : Nat) :
    ∀ i b, Moves R (countLoop modulus size endless body fuel i b) := by
  induction fuel with
  | zero => exact fun _ _ => hendless
  | succ fuel ih =>
    intro i b
    unfold countLoop
    exact moves_ite (fun _ => moves_bind (hbody i b) fun b' => ih _ b') fun _ => moves_pure b

/-- A bound that the counter can reach: the loop visits each index once. -/
theorem forCounter_eq_foldlM {modulus size : Nat} (h : size < modulus)
    (endless : m β) (body : Nat → β → m β) (b : β) :
    forCounter modulus size endless body b =
      (List.range size).foldlM (fun b j => body j b) b := by
  rw [forCounter, countLoop_eq_foldlM h endless body size 0 b (by omega),
    List.range_eq_range']

/-- A bound that the counter cannot reach: the loop comes to `endless`
after any number of tests, unless its body throws first. -/
theorem countLoop_wrap [LawfulMonad m] {modulus size : Nat} (hpos : 0 < modulus)
    (h : modulus ≤ size) (endless : m β) (body : Nat → β → m β) (fuel : Nat) :
    ∀ i b, i < modulus →
      countLoop modulus size endless body fuel i b =
        (do let _ ← (List.range fuel).foldlM
                (fun b j => body ((i + j) % modulus) b) b
            endless) := by
  induction fuel with
  | zero =>
    intro i b _
    simp [countLoop]
  | succ fuel ih =>
    intro i b hi
    rw [countLoop, if_pos (by omega), List.range_succ_eq_map]
    simp only [List.foldlM_cons, List.foldlM_map, bind_assoc, Nat.add_zero,
      Nat.mod_eq_of_lt hi]
    refine congrArg _ (funext fun b' => ?_)
    rw [ih ((i + 1) % modulus) b' (Nat.mod_lt _ hpos)]
    congr 2
    funext b j
    rw [Nat.mod_add_mod, Nat.succ_eq_add_one, show i + 1 + j = i + (j + 1) by omega]

/-- A loop over the indices of a list is the loop over the list. -/
theorem foldlM_range_eq_foldlM (xs : List α) (body : Nat → β → m β)
    (g : α → β → m β)
    (h : ∀ i (hi : i < xs.length), body i = g xs[i]) (b : β) :
    (List.range xs.length).foldlM (fun b i => body i b) b =
      xs.foldlM (fun b a => g a b) b := by
  induction xs generalizing body b with
  | nil => rfl
  | cons a rest ih =>
    rw [List.length_cons, List.range_succ_eq_map]
    simp only [List.foldlM_cons, List.foldlM_map]
    rw [h 0 (by simp)]
    refine congrArg _ (funext fun b' => ?_)
    exact ih (fun i => body (i + 1)) (fun i hi => h (i + 1) (by simpa using hi)) b'

end CountLoop

end Exec
