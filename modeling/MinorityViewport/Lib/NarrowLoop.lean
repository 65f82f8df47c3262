import MinorityViewport.Lib.Exec

/-!
# Loops with a narrow counter

`for (i = 0; i < size; i++)` where `i` wraps at `modulus`, as a transition
system.  `runFor n` makes `n` rounds and is `none` when the loop has been
left before, by its test or by a throw of its body.

* `EndsAfter` and `NeverEnds` are the two ways of a loop whose body does not
  throw.  A loop that ends has made `size` rounds, `eq_size_of_endsAfter`.
* `Tests C` says that round `i` throws unless `C i` holds, whatever the
  rounds before it have done.  For such a loop `endsAfter_iff` and
  `neverEnds_iff` say which way it goes.
* The last section connects the transition system with `forCounter`, the
  loop that runs with fuel.
-/

namespace NarrowLoop

open Exec

variable {ε σ β S : Type}

structure Loop (ε S : Type) where
  modulus : Nat
  size : Nat
  round : Nat → S → Except ε S

namespace Loop

/-- The test, a round, and the increment. -/
def step (L : Loop ε S) (c : Nat × S) : Option (Nat × S) :=
  if c.1 < L.size then
    match L.round c.1 c.2 with
    | .ok t => some ((c.1 + 1) % L.modulus, t)
    | .error _ => none
  else none

def runFor (L : Loop ε S) : Nat → Nat × S → Option (Nat × S)
  | 0, c => some c
  | n + 1, c => (L.step c).bind (L.runFor n)

/-- The test fails after `n` rounds. -/
def EndsAfter (L : Loop ε S) (n : Nat) (s t : S) : Prop :=
  ∃ i, L.runFor n (0, s) = some (i, t) ∧ ¬ i < L.size

/-- There is always another round. -/
def NeverEnds (L : Loop ε S) (s : S) : Prop :=
  ∀ n, ∃ i t, L.runFor n (0, s) = some (i, t) ∧ i < L.size

variable {L : Loop ε S}

theorem step_eq_some_iff {c c' : Nat × S} :
    L.step c = some c' ↔
      c.1 < L.size ∧ c'.1 = (c.1 + 1) % L.modulus ∧ L.round c.1 c.2 = .ok c'.2 := by
  unfold step
  split_ifs with h
  · cases L.round c.1 c.2 with
    | ok t =>
      constructor
      · intro hc
        obtain rfl := Option.some.inj hc
        exact ⟨h, rfl, rfl⟩
      · rintro ⟨_, hi, ht⟩
        obtain rfl := Except.ok.inj ht
        exact congrArg some (Prod.ext hi.symm rfl)
    | error e => exact iff_of_false (fun hc => by cases hc) fun hc => by cases hc.2.2
  · exact iff_of_false (fun hc => by cases hc) fun hc => h hc.1

theorem runFor_succ_eq_some_iff {n : Nat} {c c'' : Nat × S} :
    L.runFor (n + 1) c = some c'' ↔ ∃ c', L.step c = some c' ∧ L.runFor n c' = some c'' :=
  Option.bind_eq_some_iff

/-! ## The counter -/

/-- The counter after `n` rounds. -/
theorem counter_of_runFor (hpos : 0 < L.modulus) {n i j : Nat} {s t : S} (hi : i < L.modulus)
    (h : L.runFor n (i, s) = some (j, t)) : j = (i + n) % L.modulus := by
  induction n generalizing i s with
  | zero =>
    obtain ⟨rfl, _⟩ := Prod.mk.inj (Option.some.inj h)
    exact (Nat.mod_eq_of_lt hi).symm
  | succ n ih =>
    obtain ⟨⟨i', s'⟩, hstep, hrest⟩ := runFor_succ_eq_some_iff.mp h
    obtain ⟨_, hi', _⟩ := step_eq_some_iff.mp hstep
    obtain rfl : i' = (i + 1) % L.modulus := hi'
    rw [ih (Nat.mod_lt _ hpos) hrest, Nat.mod_add_mod, show i + 1 + n = i + (n + 1) by omega]

/-- The rounds that have been made were below the bound. -/
theorem lt_size_of_runFor (hpos : 0 < L.modulus) {n i : Nat} {s : S} (hi : i < L.modulus)
    (h : (L.runFor n (i, s)).isSome) : ∀ k < n, (i + k) % L.modulus < L.size := by
  induction n generalizing i s with
  | zero => exact fun k hk => absurd hk (Nat.not_lt_zero k)
  | succ n ih =>
    obtain ⟨c, hc⟩ := Option.isSome_iff_exists.mp h
    obtain ⟨⟨i', s'⟩, hstep, hrest⟩ := runFor_succ_eq_some_iff.mp hc
    obtain ⟨hlt, hi', _⟩ := step_eq_some_iff.mp hstep
    obtain rfl : i' = (i + 1) % L.modulus := hi'
    intro k hk
    cases k with
    | zero => rwa [Nat.add_zero, Nat.mod_eq_of_lt hi]
    | succ k =>
      have hnext := ih (Nat.mod_lt _ hpos) (Option.isSome_iff_exists.mpr ⟨c, hrest⟩) k (by omega)
      rwa [Nat.mod_add_mod, show i + 1 + k = i + (k + 1) by omega] at hnext

/-- A loop that ends has a bound that the counter can reach, and makes as
many rounds. -/
theorem eq_size_of_endsAfter (hpos : 0 < L.modulus) {n : Nat} {s t : S}
    (h : L.EndsAfter n s t) : L.size < L.modulus ∧ n = L.size := by
  obtain ⟨i, hrun, hle⟩ := h
  have hi := counter_of_runFor hpos hpos hrun
  have hlt : n % L.modulus < L.modulus := Nat.mod_lt _ hpos
  rw [Nat.zero_add] at hi
  have hsize : L.size < L.modulus := by omega
  refine ⟨hsize, ?_⟩
  by_cases hn : L.size < n
  · have hmid := lt_size_of_runFor hpos hpos (by rw [hrun]; rfl) L.size hn
    rw [Nat.zero_add, Nat.mod_eq_of_lt hsize] at hmid
    exact absurd hmid (Nat.lt_irrefl _)
  · rw [Nat.mod_eq_of_lt (by omega)] at hi
    omega

/-! ## Rounds that test their index only -/

/-- Round `i` returns exactly when `C i` holds. -/
def Tests (L : Loop ε S) (C : Nat → Prop) : Prop :=
  ∀ i < L.size, ∀ s, IsOk (L.round i s) ↔ C i

variable {C : Nat → Prop}

theorem isSome_runFor_iff (hC : L.Tests C) (hpos : 0 < L.modulus) {n i : Nat} {s : S}
    (hi : i < L.modulus) :
    (L.runFor n (i, s)).isSome ↔
      ∀ k < n, (i + k) % L.modulus < L.size ∧ C ((i + k) % L.modulus) := by
  induction n generalizing i s with
  | zero => exact iff_of_true rfl fun k hk => absurd hk (Nat.not_lt_zero k)
  | succ n ih =>
    have hshift : ∀ k, ((i + 1) % L.modulus + k) % L.modulus = (i + (k + 1)) % L.modulus := by
      intro k
      rw [Nat.mod_add_mod, show i + 1 + k = i + (k + 1) by omega]
    constructor
    · intro h
      obtain ⟨c, hc⟩ := Option.isSome_iff_exists.mp h
      obtain ⟨⟨i', s'⟩, hstep, hrest⟩ := runFor_succ_eq_some_iff.mp hc
      obtain ⟨hlt, hi', hround⟩ := step_eq_some_iff.mp hstep
      obtain rfl : i' = (i + 1) % L.modulus := hi'
      intro k hk
      cases k with
      | zero =>
        rw [Nat.add_zero, Nat.mod_eq_of_lt hi]
        exact ⟨hlt, (hC i hlt s).mp ⟨s', hround⟩⟩
      | succ k =>
        rw [← hshift]
        exact (ih (Nat.mod_lt _ hpos)).mp (Option.isSome_iff_exists.mpr ⟨c, hrest⟩) k (by omega)
    · intro h
      have hfirst := h 0 (Nat.succ_pos n)
      rw [Nat.add_zero, Nat.mod_eq_of_lt hi] at hfirst
      obtain ⟨s', hround⟩ := (hC i hfirst.1 s).mpr hfirst.2
      have hrest : (L.runFor n ((i + 1) % L.modulus, s')).isSome := by
        refine (ih (Nat.mod_lt _ hpos)).mpr fun k hk => ?_
        rw [hshift]
        exact h (k + 1) (by omega)
      obtain ⟨c, hc⟩ := Option.isSome_iff_exists.mp hrest
      exact Option.isSome_iff_exists.mpr
        ⟨c, runFor_succ_eq_some_iff.mpr
          ⟨_, step_eq_some_iff.mpr ⟨hfirst.1, rfl, hround⟩, hc⟩⟩

theorem endsAfter_iff (hC : L.Tests C) (hpos : 0 < L.modulus) {s : S} :
    (∃ t, L.EndsAfter L.size s t) ↔ L.size < L.modulus ∧ ∀ i < L.size, C i := by
  constructor
  · rintro ⟨t, h⟩
    have hsize := (eq_size_of_endsAfter hpos h).1
    obtain ⟨i, hrun, _⟩ := h
    refine ⟨hsize, fun k hk => ?_⟩
    have hround := ((isSome_runFor_iff hC hpos hpos).mp (by rw [hrun]; rfl) k hk).2
    rwa [Nat.zero_add, Nat.mod_eq_of_lt (by omega)] at hround
  · rintro ⟨hsize, hall⟩
    have hsome : (L.runFor L.size (0, s)).isSome := by
      refine (isSome_runFor_iff hC hpos hpos).mpr fun k hk => ?_
      rw [Nat.zero_add, Nat.mod_eq_of_lt (by omega)]
      exact ⟨hk, hall k hk⟩
    obtain ⟨⟨i, t⟩, hrun⟩ := Option.isSome_iff_exists.mp hsome
    refine ⟨t, i, hrun, ?_⟩
    rw [counter_of_runFor hpos hpos hrun, Nat.zero_add, Nat.mod_eq_of_lt hsize]
    exact Nat.lt_irrefl _

theorem neverEnds_iff (hC : L.Tests C) (hpos : 0 < L.modulus) {s : S} :
    L.NeverEnds s ↔ L.modulus ≤ L.size ∧ ∀ i < L.modulus, C i := by
  constructor
  · intro h
    constructor
    · obtain ⟨i, t, hrun, hlt⟩ := h L.size
      rw [counter_of_runFor hpos hpos hrun, Nat.zero_add] at hlt
      by_contra hsize
      rw [Nat.mod_eq_of_lt (by omega)] at hlt
      exact Nat.lt_irrefl _ hlt
    · intro k hk
      obtain ⟨i, t, hrun, _⟩ := h (k + 1)
      have hround :=
        ((isSome_runFor_iff hC hpos hpos).mp (by rw [hrun]; rfl) k (Nat.lt_succ_self k)).2
      rwa [Nat.zero_add, Nat.mod_eq_of_lt hk] at hround
  · rintro ⟨hsize, hall⟩ n
    have hsome : (L.runFor n (0, s)).isSome := by
      refine (isSome_runFor_iff hC hpos hpos).mpr fun k _ => ?_
      have hlt : (0 + k) % L.modulus < L.modulus := Nat.mod_lt _ hpos
      exact ⟨by omega, hall _ hlt⟩
    obtain ⟨⟨i, t⟩, hrun⟩ := Option.isSome_iff_exists.mp hsome
    have hlt : (0 + n) % L.modulus < L.modulus := Nat.mod_lt _ hpos
    rw [← counter_of_runFor hpos hpos hrun] at hlt
    exact ⟨i, t, hrun, by omega⟩

/-! ## The loop with fuel -/

theorem countLoop_of_rounds (endless : ε) (fuel : Nat) {i : Nat} {s : S}
    (h : ∀ n < fuel, ∃ j t, L.runFor n (i, s) = some (j, t) ∧ j < L.size)
    (hlast : (L.runFor fuel (i, s)).isSome) :
    countLoop L.modulus L.size (.error endless) L.round fuel i s = .error endless := by
  induction fuel generalizing i s with
  | zero => rfl
  | succ fuel ih =>
    obtain ⟨c, hc⟩ := Option.isSome_iff_exists.mp hlast
    obtain ⟨⟨i', s'⟩, hstep, hrest⟩ := runFor_succ_eq_some_iff.mp hc
    obtain ⟨hi, hi', hround⟩ := step_eq_some_iff.mp hstep
    obtain rfl : i' = (i + 1) % L.modulus := hi'
    rw [countLoop, if_pos hi, hround, ok_bind]
    refine ih (fun n hn => ?_) (Option.isSome_iff_exists.mpr ⟨c, hrest⟩)
    obtain ⟨j, t, hrun, hj⟩ := h (n + 1) (by omega)
    obtain ⟨c', hstep', hrun'⟩ := runFor_succ_eq_some_iff.mp hrun
    obtain rfl := Option.some.inj (hstep.symm.trans hstep')
    exact ⟨j, t, hrun', hj⟩

theorem forCounter_of_neverEnds (endless : ε) {s : S} (h : L.NeverEnds s) :
    forCounter L.modulus L.size (.error endless) L.round s = .error endless := by
  refine countLoop_of_rounds endless _ (fun n _ => h n) ?_
  obtain ⟨i, t, hrun, _⟩ := h (L.size + 1)
  rw [hrun]
  rfl

end Loop

/-! ## Faults that the index decides -/

/-- The value and the state of a run that returns, or the fault. -/
def observe (x : EStateM ε σ β) (s : σ) : Except ε (β × σ) :=
  match x.run s with
  | .ok b s' => .ok (b, s')
  | .error e _ => .error e

theorem isOk_observe_iff {x : EStateM ε σ β} {s : σ} : IsOk (observe x s) ↔ Returns x s := by
  unfold observe Returns
  cases x.run s with
  | ok b s' => exact iff_of_true (isOk_ok _) ⟨b, s', rfl⟩
  | error e s' =>
    refine iff_of_false (not_isOk_error e) ?_
    rintro ⟨b, s'', h⟩
    cases h

theorem observe_bind {α : Type} (x : EStateM ε σ α) (f : α → EStateM ε σ β) (s : σ) :
    observe (x >>= f) s = observe x s >>= fun p => observe (f p.1) p.2 := by
  rw [observe, observe, EStateM.run_bind]
  cases x.run s <;> rfl

/-- A loop with a state is the loop over its observations. -/
theorem observe_countLoop (modulus size : Nat) (endless : ε) (body : Nat → β → EStateM ε σ β)
    (fuel i : Nat) (b : β) (s : σ) :
    observe (countLoop modulus size (throw endless) body fuel i b) s =
      countLoop modulus size (.error endless) (fun i p => observe (body i p.1) p.2) fuel i
        (b, s) := by
  induction fuel generalizing i b s with
  | zero => rfl
  | succ fuel ih =>
    rw [countLoop, countLoop]
    split_ifs
    · rw [observe_bind]
      exact congrArg _ (funext fun p => ih _ p.1 p.2)
    · rfl

end NarrowLoop
