import MinorityViewport.Json.Value
import MinorityViewport.Lib.Exec

/-!
# The loops over a JSON array

Four functions of the server walk a JSON array with the same loop,

    for (unsigned short i = 0; i < value.size(); i++) { ... value[i] ... }

`forElements` is that loop.  The counter has 16 bits and the size has 32,
so an array of `65536` elements or more is never left, and `value[i]` runs
into an assertion when `value` is an object with members.  `Loops` names
the values for which neither happens, and `forElements_of_loops` gives the
loop over the list of elements for them.
-/

namespace MinorityViewport.Json

open Exec

namespace Value

/-- The elements of an array. -/
def elements : Value → List Value
  | .array elements => elements
  | _ => []

/-- The values whose index loop ends without an assertion. -/
def Loops (v : Value) : Prop := v.size < 65536 ∧ (v.size = 0 ∨ v.isArray)

instance (v : Value) : Decidable v.Loops := inferInstanceAs (Decidable (_ ∧ _))

theorem size_of_isArray {v : Value} (h : v.isArray) :
    v.size = v.elements.length := by
  cases v <;> simp_all [isArray, size, elements]

theorem elements_of_size_eq_zero {v : Value} (h : v.size = 0) : v.elements = [] := by
  cases v <;> simp_all [size, elements]

theorem Loops.size_eq {v : Value} (h : v.Loops) : v.size = v.elements.length := by
  rcases h.2 with h0 | harr
  · rw [h0, elements_of_size_eq_zero h0]
    rfl
  · exact size_of_isArray harr

theorem atIndex_of_lt {v : Value} {i : Nat} (h : i < v.elements.length) :
    v.atIndex i = .ok v.elements[i] := by
  cases v with
  | array xs =>
    have hi : i < xs.length := h
    simp [elements, atIndex, hi]
  | _ => exact absurd h (Nat.not_lt_zero i)

/-- A statement about the elements, with or without their indices. -/
theorem forall_mem_zipIdx_elements {v : Value} {C : Value → Prop} :
    (∀ p ∈ v.elements.zipIdx, C p.1) ↔ ∀ element ∈ v.elements, C element := by
  rw [← List.forall_mem_map (P := C), List.zipIdx_map_fst]

end Value

section

variable {m : Type → Type} [Monad m] [MonadExceptOf Fault m] {β : Type}

/-- The index loop over `v`.  The body gets the index and the element. -/
def forElements (v : Value) (body : Nat → Value → β → m β) (b : β) : m β :=
  forCounter 65536 v.size (throw .endlessLoop)
    (fun i b => match v.atIndex i with
      | .ok element => body i element b
      | .error fault => throw fault) b

/-- A loop that appends in each round fills the memory when it is not left. -/
def appending {α : Type} : Except Fault α → Except Fault α
  | .error .endlessLoop => .error .badAlloc
  | r => r

theorem appending_eq_ok_iff {α : Type} {r : Except Fault α} {a : α} :
    appending r = .ok a ↔ r = .ok a := by
  unfold appending
  split
  · exact iff_of_false (fun h => by cases h) fun h => by cases h
  · exact Iff.rfl

@[simp]
theorem isOk_appending_iff {α : Type} {r : Except Fault α} : IsOk (appending r) ↔ IsOk r :=
  exists_congr fun _ => appending_eq_ok_iff

/-- A loop that ends visits each element once, in order. -/
theorem forElements_of_loops {v : Value} (h : v.Loops)
    (body : Nat → Value → β → m β) (b : β) :
    forElements v body b =
      v.elements.zipIdx.foldlM (fun b p => body p.2 p.1 b) b := by
  rw [forElements, forCounter_eq_foldlM h.1]
  have hlen : v.size = v.elements.zipIdx.length := by
    rw [List.length_zipIdx, h.size_eq]
  rw [hlen]
  refine foldlM_range_eq_foldlM v.elements.zipIdx _ (fun p b => body p.2 p.1 b) ?_ b
  intro i hi
  have hi' : i < v.elements.length := by simpa using hi
  funext b
  simp only [Value.atIndex_of_lt hi', List.getElem_zipIdx, Nat.zero_add]

/-- A loop over an object with members fails its first time round. -/
theorem forElements_of_not_isArray {v : Value} (h0 : v.size ≠ 0) (harr : ¬ v.isArray)
    (body : Nat → Value → β → m β) (b : β)
    (hthrow : ∀ f : β → m β, ((throw .assertion : m β) >>= f) = throw .assertion) :
    forElements v body b = throw .assertion := by
  obtain ⟨n, hn⟩ : ∃ n, v.size = n + 1 := ⟨v.size - 1, by omega⟩
  have hat : v.atIndex 0 = .error .assertion := by
    cases v <;> simp_all [Value.isArray, Value.atIndex, Value.size]
  rw [forElements, forCounter, countLoop, if_pos (by omega)]
  simp only [hat]
  exact hthrow _

/-- A loop over more elements than the counter can count is never left. -/
theorem forElements_wrap {v : Value} (h : 65536 ≤ v.size)
    (body : Nat → Value → β → m β) (b : β) [LawfulMonad m] :
    ∃ x : m β, forElements v body b = (do let _ ← x; throw .endlessLoop) :=
  ⟨_, countLoop_wrap (by decide) h _ _ _ 0 b (by decide)⟩

end

/-! ## The loop in the two monads of the server -/

section

variable {β σ : Type}

theorem exists_bind_throw_iff_false {x : Except Fault β} {fault : Fault} {b : β} :
    (do let _ ← x; throw fault : Except Fault β) ≠ .ok b := by
  cases x <;> exact fun h => by cases h

/-- When the loop returns, in a function without state. -/
theorem forElements_isOk_iff {v : Value} (body : Nat → Value → β → Except Fault β) (b : β) :
    IsOk (forElements v body b) ↔
      v.Loops ∧ IsOk (v.elements.zipIdx.foldlM (fun b p => body p.2 p.1 b) b) := by
  by_cases h : v.Loops
  · simp only [forElements_of_loops h, h, true_and]
  · refine iff_of_false ?_ fun hl => h hl.1
    rintro ⟨b', hb⟩
    by_cases hsize : v.size < 65536
    · have hnot : v.size ≠ 0 ∧ ¬ v.isArray :=
        ⟨fun h0 => h ⟨hsize, Or.inl h0⟩, fun harr => h ⟨hsize, Or.inr harr⟩⟩
      rw [forElements_of_not_isArray hnot.1 hnot.2 body b fun _ => rfl] at hb
      cases hb
    · obtain ⟨x, hx⟩ := forElements_wrap (Nat.le_of_not_lt hsize) body b
      rw [hx] at hb
      exact exists_bind_throw_iff_false hb

/-- When the loop returns, in a function with state. -/
theorem returns_forElements_iff {v : Value}
    (body : Nat → Value → β → EStateM Fault σ β) (b : β) (s : σ) :
    Returns (forElements v body b) s ↔
      v.Loops ∧
        Returns (v.elements.zipIdx.foldlM (fun b p => body p.2 p.1 b) b) s := by
  by_cases h : v.Loops
  · simp only [forElements_of_loops h, h, true_and]
  · refine iff_of_false ?_ fun hl => h hl.1
    intro hret
    by_cases hsize : v.size < 65536
    · have hnot : v.size ≠ 0 ∧ ¬ v.isArray :=
        ⟨fun h0 => h ⟨hsize, Or.inl h0⟩, fun harr => h ⟨hsize, Or.inr harr⟩⟩
      rw [forElements_of_not_isArray hnot.1 hnot.2 body b fun _ => rfl] at hret
      exact not_returns_throw _ _ hret
    · obtain ⟨x, hx⟩ := forElements_wrap (Nat.le_of_not_lt hsize) body b
      rw [hx, returns_bind_iff] at hret
      obtain ⟨_, s', _, hthrow⟩ := hret
      exact not_returns_throw _ _ hthrow

theorem forElements_eq_ok_iff {v : Value} (body : Nat → Value → β → Except Fault β) {b b' : β} :
    forElements v body b = .ok b' ↔
      v.Loops ∧ v.elements.zipIdx.foldlM (fun b p => body p.2 p.1 b) b = .ok b' := by
  by_cases h : v.Loops
  · rw [forElements_of_loops h, and_iff_right h]
  · refine iff_of_false (fun hok => h ?_) fun hl => h hl.1
    exact ((forElements_isOk_iff body b).mp ⟨b', hok⟩).1

/-- What a loop that returns has run. -/
theorem run_forElements_eq_ok_iff {v : Value} (body : Nat → Value → β → EStateM Fault σ β)
    {b b' : β} {s s' : σ} :
    (forElements v body b).run s = .ok b' s' ↔
      v.Loops ∧ (v.elements.zipIdx.foldlM (fun b p => body p.2 p.1 b) b).run s = .ok b' s' := by
  by_cases h : v.Loops
  · rw [forElements_of_loops h, and_iff_right h]
  · refine iff_of_false (fun hrun => h ?_) fun hl => h hl.1
    exact ((returns_forElements_iff body b s).mp ⟨b', s', hrun⟩).1

/-- The loop moves the state as its rounds do. -/
theorem moves_forElements {R : σ → σ → Prop} [IsPreorder σ R] (v : Value)
    {body : Nat → Value → β → EStateM Fault σ β} (hbody : ∀ i e b, Moves R (body i e b))
    (b : β) : Moves R (forElements v body b) := by
  refine moves_countLoop _ _ (moves_throw _) (fun i b => ?_) _ _ b
  cases v.atIndex i with
  | ok element => exact hbody i element b
  | error fault => exact moves_throw fault

end

/-! ## Rounds that read an element and write what they have read -/

section

variable {σ α : Type}

/-- The readings before the first one that fails. -/
def readings (f : Value → Except Fault α) : List Value → List α
  | [] => []
  | element :: rest =>
    match f element with
    | .ok a => a :: readings f rest
    | .error _ => []

/-- The fault of the first reading that fails. -/
def readingFault (f : Value → Except Fault α) (xs : List Value) : Option Fault :=
  xs.findSome? fun element => match f element with
    | .ok _ => none
    | .error fault => some fault

theorem readings_append {f : Value → Except Fault α} {xs : List Value}
    (h : readingFault f xs ≠ none) (ys : List Value) : readings f (xs ++ ys) = readings f xs := by
  induction xs with
  | nil => exact absurd rfl h
  | cons element rest ih =>
    rw [List.cons_append, readings, readings]
    cases hread : f element with
    | error fault => rfl
    | ok a =>
      rw [readingFault, List.findSome?_cons, hread] at h
      exact congrArg _ (ih h)

/-- The state after readings that are written one by one. -/
def written (f : Value → Except Fault α) (g : α → σ → σ) (xs : List Value) (s : σ) : σ :=
  (readings f xs).foldl (fun s a => g a s) s

/-- A round that reads an element and writes what it has read. -/
def writeRound (f : Value → Except Fault α) (g : α → σ → σ) (element : Value) :
    EStateM Fault σ PUnit := do
  let a ← ofExcept (f element)
  modify (g a)

theorem run_foldlM_written (f : Value → Except Fault α) (g : α → σ → σ) (xs : List Value)
    (s : σ) :
    (xs.foldlM (fun _ element => writeRound f g element) PUnit.unit).run s =
      match readingFault f xs with
      | none => .ok ⟨⟩ (written f g xs s)
      | some fault => .error fault (written f g xs s) := by
  induction xs generalizing s with
  | nil => rfl
  | cons element rest ih =>
    rw [List.foldlM_cons, EStateM.run_bind, writeRound, EStateM.run_bind, written, readings,
      readingFault, List.findSome?_cons]
    cases f element with
    | error fault => rfl
    | ok a => exact ih (g a s)

theorem readingFault_eq_none_iff {f : Value → Except Fault α} {xs : List Value} :
    readingFault f xs = none ↔ ∀ element ∈ xs, IsOk (f element) := by
  rw [readingFault, List.findSome?_eq_none_iff]
  refine forall₂_congr fun element _ => ?_
  cases f element with
  | ok a => exact iff_of_true rfl ⟨a, rfl⟩
  | error fault => exact iff_of_false (fun h => by cases h) (not_isOk_error _)

/-- A loop over too many elements walks the first ones, and then nothing but
these. -/
theorem exists_rounds_of_wrap {v : Value} (harr : v.isArray) (h : 65536 ≤ v.size)
    (f : Value → Except Fault α) (g : α → σ → σ) :
    ∃ first rest : List Value, (∀ element ∈ first ++ rest, element ∈ first) ∧
      v.elements = first ++ v.elements.drop 65536 ∧
        forElements v (fun _ element _ => writeRound f g element) PUnit.unit =
          (do
            let _ ← (first ++ rest).foldlM (fun _ element => writeRound f g element) PUnit.unit
            throw Fault.endlessLoop) := by
  have hlen : v.size = v.elements.length := Value.size_of_isArray harr
  have hfirst : ((List.range 65536).map fun j => v.elements.getD (j % 65536) .null) =
      v.elements.take 65536 := by
    refine List.ext_getElem (by simp; omega) fun i hi _ => ?_
    have hi : i < 65536 := by simpa using hi
    have hin : i < v.elements.length := by omega
    rw [List.getElem_map, List.getElem_range, List.getElem_take, Nat.mod_eq_of_lt hi,
      List.getD_eq_getElem?_getD, List.getElem?_eq_getElem hin, Option.getD_some]
  refine ⟨v.elements.take 65536,
    (List.range (v.size + 1 - 65536)).map fun j => v.elements.getD (j % 65536) .null,
    fun element hmem => ?_, (List.take_append_drop _ _).symm, ?_⟩
  · rcases List.mem_append.mp hmem with hmem | hmem
    · exact hmem
    · obtain ⟨j, _, rfl⟩ := List.mem_map.mp hmem
      rw [← hfirst]
      exact List.mem_map.mpr ⟨j % 65536, List.mem_range.mpr (Nat.mod_lt _ (by decide)),
        by rw [Nat.mod_mod]⟩
  · have hrange : (List.range (v.size + 1)).map (fun j => v.elements.getD (j % 65536) .null) =
        v.elements.take 65536 ++ (List.range (v.size + 1 - 65536)).map
          fun j => v.elements.getD (j % 65536) .null := by
      have hsum : v.size + 1 = 65536 + (v.size + 1 - 65536) := by omega
      conv_lhs => rw [hsum, List.range_add, List.map_append, List.map_map, hfirst]
      refine congrArg _ (List.map_congr_left fun j _ => ?_)
      rw [Function.comp_apply, Nat.add_mod_left]
    rw [forElements, forCounter, countLoop_wrap (by decide) h _ _ _ 0 _ (by decide), ← hrange,
      List.foldlM_map]
    refine congrArg (· >>= fun _ => throw Fault.endlessLoop)
      (congrArg (fun r => List.foldlM r PUnit.unit _) ?_)
    funext b j
    have hj : j % 65536 < v.elements.length := by omega
    simp only [Nat.zero_add, Value.atIndex_of_lt hj, List.getD_eq_getElem?_getD,
      List.getElem?_eq_getElem hj, Option.getD_some]

/-- A loop that is left, by its test or by a throw, has written the readings
before the first one that fails.  A counter that wraps makes no difference:
the loop is left in its first pass, or never. -/
theorem after_forElements_written (v : Value) (f : Value → Except Fault α) (g : α → σ → σ)
    {s : σ}
    (hleft : ∀ s', (forElements v (fun _ element _ => writeRound f g element) PUnit.unit).run s ≠
      .error .endlessLoop s') :
    after (forElements v (fun _ element _ => writeRound f g element) PUnit.unit) s =
      written f g v.elements s := by
  have hfold : ∀ xs : List Value,
      after (xs.foldlM (fun _ element => writeRound f g element) PUnit.unit) s =
        written f g xs s := by
    intro xs
    rw [after, run_foldlM_written]
    cases readingFault f xs <;> rfl
  by_cases hloops : v.Loops
  · have hmap : v.elements.zipIdx.foldlM (fun _ p => writeRound f g p.1) PUnit.unit =
        v.elements.foldlM (fun _ element => writeRound f g element) PUnit.unit := by
      conv_rhs => rw [← List.zipIdx_map_fst 0 v.elements, List.foldlM_map]
    rw [forElements_of_loops hloops, hmap, hfold]
  by_cases harr : v.isArray
  · have hwrap : 65536 ≤ v.size := Nat.le_of_not_lt fun hsize => hloops ⟨hsize, Or.inr harr⟩
    obtain ⟨first, rest, hfirst, hsplit, hrounds⟩ := exists_rounds_of_wrap harr hwrap f g
    have hrun := run_foldlM_written f g (first ++ rest) s
    have hnot := hleft (written f g (first ++ rest) s)
    rw [hrounds, EStateM.run_bind, hrun] at hnot
    rw [hrounds, after, EStateM.run_bind, hrun]
    cases hfault : readingFault f (first ++ rest) with
    | none =>
      rw [hfault] at hnot
      exact absurd rfl hnot
    | some fault =>
      have hnone : readingFault f first ≠ none := by
        intro hnone
        have hall : readingFault f (first ++ rest) = none :=
          readingFault_eq_none_iff.mpr fun element hmem =>
            readingFault_eq_none_iff.mp hnone element (hfirst element hmem)
        rw [hfault] at hall
        cases hall
      show written f g (first ++ rest) s = _
      rw [written, written, readings_append hnone, hsplit, readings_append hnone]
  · have hsize : v.size ≠ 0 := fun h0 => hloops ⟨by omega, Or.inl h0⟩
    have hnil : v.elements = [] := by
      cases v with
      | array elements => exact absurd rfl harr
      | _ => rfl
    rw [forElements_of_not_isArray hsize harr _ _ fun _ => rfl, hnil]
    rfl

end

end MinorityViewport.Json
