import MinorityViewport.Lib.OrdMap

/-!
# Loops that erase while they iterate

`eraseFrom` is the loop `if (p(*it)) it = xs.erase(it); else ++it;` with the
position of the iterator.  `countTo` is a search that counts the elements it
has looked at, modulo the size of its counter, from one below zero on.

`eraseFrom_zero` says that the loop misses nothing, and
`countTo_of_findIdx?` that the counter ends at the element.

`eraseRounds` is the loop `for (i = start; i < n; i++) xs.erase(i);` with the
bound `n` taken before, and `eraseRounds_eq` says that it misses every second
element.
-/

namespace EraseLoop

variable {α : Type}

/-- Erase from position `i` on.  The position stays where an element goes. -/
def eraseFrom (p : α → Bool) (xs : List α) (i : Nat) : List α :=
  if h : i < xs.length then
    if p xs[i] then eraseFrom p (xs.eraseIdx i) i else eraseFrom p xs (i + 1)
  else xs
termination_by xs.length - i
decreasing_by
  · rw [List.length_eraseIdx_of_lt h]
    omega
  · omega

/-- The positions before `i` are left alone. -/
theorem eraseFrom_eq (p : α → Bool) (xs : List α) (i : Nat) :
    eraseFrom p xs i = xs.take i ++ (xs.drop i).filter (! p ·) := by
  fun_induction eraseFrom p xs i with
  | case1 xs i h hp ih =>
    have hlen : (xs.take i).length = i := List.length_take_of_le (Nat.le_of_lt h)
    rw [ih, List.drop_eq_getElem_cons h, List.filter_cons_of_neg (by simp [hp]),
      List.eraseIdx_eq_take_drop_succ, List.take_left' hlen, List.drop_left' hlen]
  | case2 xs i h hp ih =>
    rw [ih, List.drop_eq_getElem_cons h, List.filter_cons_of_pos (by simp [hp]),
      List.take_succ_eq_append_getElem h, List.append_assoc, List.singleton_append]
  | case3 xs i h =>
    rw [List.take_of_length_le (Nat.not_lt.mp h), List.drop_of_length_le (Nat.not_lt.mp h)]
    exact (List.append_nil xs).symm

theorem eraseFrom_zero (p : α → Bool) (xs : List α) :
    eraseFrom p xs 0 = xs.filter (! p ·) :=
  eraseFrom_eq p xs 0

/-- The counter `c`, of size `m`, of a search for an element. -/
def countTo (m : Nat) (p : α → Bool) (c : Nat) : List α → Nat
  | [] => c
  | x :: rest => if p x then (c + 1) % m else countTo m p ((c + 1) % m) rest

theorem countTo_of_findIdx? {m : Nat} {p : α → Bool} {xs : List α} {i : Nat}
    (h : xs.findIdx? p = some i) (c : Nat) : countTo m p c xs = (c + 1 + i) % m := by
  induction xs generalizing i c with
  | nil => cases h
  | cons x rest ih =>
    rw [List.findIdx?_cons] at h
    unfold countTo
    by_cases hx : p x
    · rw [if_pos hx] at h
      rw [if_pos hx, ← Option.some.inj h, Nat.add_zero]
    · rw [if_neg hx] at h
      rw [if_neg hx]
      obtain ⟨j, hj, rfl⟩ := Option.map_eq_some_iff.mp h
      rw [ih hj, Nat.add_assoc, Nat.mod_add_mod, Nat.add_comm 1 j]

/-- Without such an element the counter counts them all. -/
theorem countTo_of_none {m : Nat} {p : α → Bool} {xs : List α}
    (h : xs.findIdx? p = none) {c : Nat} (hc : c < m) :
    countTo m p c xs = (c + xs.length) % m := by
  induction xs generalizing c with
  | nil => exact (Nat.mod_eq_of_lt hc).symm
  | cons x rest ih =>
    rw [List.findIdx?_cons] at h
    unfold countTo
    by_cases hx : p x
    · rw [if_pos hx] at h
      cases h
    · rw [if_neg hx] at h
      have hpos : 0 < m := Nat.lt_of_le_of_lt (Nat.zero_le c) hc
      rw [if_neg hx, ih (Option.map_eq_none_iff.mp h) (Nat.mod_lt _ hpos), Nat.mod_add_mod,
        List.length_cons, Nat.add_assoc, Nat.add_comm 1]

/-! ## A loop whose bound was taken before -/

/-- The rounds of the loop from position `i` on.  A position that is not
there any more is skipped. -/
def eraseRounds (xs : List α) (i rounds : Nat) : List α :=
  (List.range' i rounds).foldl List.eraseIdx xs

/-- Every second element, the first one left out. -/
def everySecond : List α → List α
  | _ :: b :: rest => b :: everySecond rest
  | _ => []

theorem eraseRounds_of_le {xs : List α} {i : Nat} (h : xs.length ≤ i) (rounds : Nat) :
    eraseRounds xs i rounds = xs := by
  induction rounds generalizing i with
  | zero => rfl
  | succ rounds ih =>
    show eraseRounds (xs.eraseIdx i) (i + 1) rounds = xs
    rw [List.eraseIdx_of_length_le h]
    exact ih (by omega)

/-- An element moves to the position that the loop has just left, and stays. -/
theorem eraseRounds_eq (before xs : List α) {rounds : Nat} (h : xs.length ≤ rounds) :
    eraseRounds (before ++ xs) before.length rounds = before ++ everySecond xs := by
  fun_induction everySecond xs generalizing before rounds with
  | case1 a b rest ih =>
    obtain ⟨left, rfl⟩ : ∃ left, rounds = left + 1 := ⟨rounds - 1, by simp at h; omega⟩
    have herase : (before ++ a :: b :: rest).eraseIdx before.length = (before ++ [b]) ++ rest := by
      rw [List.eraseIdx_append_of_length_le (Nat.le_refl _), Nat.sub_self, List.append_assoc]
      rfl
    show eraseRounds ((before ++ a :: b :: rest).eraseIdx before.length) (before.length + 1) left =
      _
    have hleft : rest.length ≤ left := by
      rw [List.length_cons, List.length_cons] at h
      omega
    have hnext := ih (before ++ [b]) hleft
    rw [List.length_append, List.append_assoc _ _ (everySecond rest)] at hnext
    rw [herase]
    exact hnext
  | case2 xs hshort =>
    match xs, hshort with
    | [], _ => rw [List.append_nil, eraseRounds_of_le (Nat.le_refl _)]
    | [a], _ =>
      obtain ⟨left, rfl⟩ : ∃ left, rounds = left + 1 := ⟨rounds - 1, by simp at h; omega⟩
      show eraseRounds ((before ++ [a]).eraseIdx before.length) (before.length + 1) left = _
      rw [List.eraseIdx_append_of_length_le (Nat.le_refl _), Nat.sub_self, List.append_nil]
      show eraseRounds (before ++ []) _ _ = _
      rw [List.append_nil, eraseRounds_of_le (Nat.le_succ _)]
    | a :: b :: rest, hshort => exact absurd rfl (hshort a b rest)

theorem everySecond_eq_nil_iff {xs : List α} : everySecond xs = [] ↔ xs.length ≤ 1 := by
  match xs with
  | [] => exact iff_of_true rfl (Nat.zero_le 1)
  | [a] => exact iff_of_true rfl (Nat.le_refl 1)
  | a :: b :: rest =>
    refine iff_of_false (List.cons_ne_nil _ _) ?_
    simp

theorem everySecond_sublist (xs : List α) : (everySecond xs).Sublist xs := by
  fun_induction everySecond xs with
  | case1 a b rest ih => exact (ih.cons_cons b).cons a
  | case2 xs hshort => exact List.nil_sublist xs

end EraseLoop

namespace OrdMap

variable {κ ν : Type} [LinearOrder κ]

theorem eraseFrom_entries (m : OrdMap κ ν) (k : κ) :
    EraseLoop.eraseFrom (·.1 = k) m.entries 0 = (m.erase k).entries := by
  rw [EraseLoop.eraseFrom_zero, erase]
  exact List.filter_congr fun e _ => by simp

/-- Erase the entries of a key, one after the other. -/
def eraseLoop (m : OrdMap κ ν) (k : κ) : OrdMap κ ν :=
  ⟨EraseLoop.eraseFrom (·.1 = k) m.entries 0, by
    rw [eraseFrom_entries]
    exact (m.erase k).sorted⟩

theorem eraseLoop_eq_erase (m : OrdMap κ ν) (k : κ) : m.eraseLoop k = m.erase k :=
  ext_entries (eraseFrom_entries m k)

end OrdMap
