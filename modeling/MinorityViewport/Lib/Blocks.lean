import Mathlib.Data.List.Nodup

/-!
# Concatenated blocks

A list that is put together from one block for each entry of another list.
`blockLabels` says for every place of it which block it belongs to and which
place of the block it is.  Two such lists over the same entries have the
same labels exactly when all their blocks are equally long, which the
lengths of the two lists alone do not tell.
-/

namespace Blocks

variable {α β κ : Type} {key : α → κ} {block : α → List β} {xs : List α}

/-- The key of the block and the place in it. -/
def blockLabels (key : α → κ) (block : α → List β) (xs : List α) : List (κ × Nat) :=
  xs.flatMap fun x => (List.range (block x).length).map fun j => (key x, j)

theorem mem_blockLabels {l : κ × Nat} :
    l ∈ blockLabels key block xs ↔ ∃ x ∈ xs, l.1 = key x ∧ l.2 < (block x).length := by
  simp only [blockLabels, List.mem_flatMap, List.mem_map, List.mem_range]
  constructor
  · rintro ⟨x, hx, j, hj, rfl⟩
    exact ⟨x, hx, rfl, hj⟩
  · rintro ⟨x, hx, hkey, hj⟩
    exact ⟨x, hx, l.2, hj, Prod.ext hkey.symm rfl⟩

/-- Every block has a place. -/
theorem exists_mem_blockLabels_iff (hblock : ∀ x, block x ≠ []) {k : κ} :
    (∃ j, (k, j) ∈ blockLabels key block xs) ↔ k ∈ xs.map key := by
  simp only [mem_blockLabels, List.mem_map]
  constructor
  · rintro ⟨j, x, hx, hkey, _⟩
    exact ⟨x, hx, hkey.symm⟩
  · rintro ⟨x, hx, hkey⟩
    exact ⟨0, x, hx, hkey.symm, List.length_pos_of_ne_nil (hblock x)⟩

/-- There is a label for each place. -/
theorem length_blockLabels : (blockLabels key block xs).length = (xs.flatMap block).length := by
  simp [blockLabels, List.length_flatMap]

/-- The label names the entry that stands there. -/
theorem exists_of_getElem?_blockLabels {r : Nat} {l : κ × Nat}
    (h : (blockLabels key block xs)[r]? = some l) :
    ∃ x ∈ xs, key x = l.1 ∧ (xs.flatMap block)[r]? = (block x)[l.2]? := by
  induction xs generalizing r with
  | nil => cases h
  | cons x rest ih =>
    rw [blockLabels, List.flatMap_cons] at h
    rw [List.flatMap_cons]
    by_cases hr : r < (block x).length
    · rw [List.getElem?_append_left (by simpa using hr), List.getElem?_map,
        List.getElem?_range hr] at h
      obtain rfl := Option.some.inj h
      exact ⟨x, List.mem_cons_self, rfl, List.getElem?_append_left hr⟩
    · have hle := Nat.le_of_not_lt hr
      rw [List.getElem?_append_right (by simpa using hle), List.length_map,
        List.length_range] at h
      obtain ⟨y, hy, hkey, hat⟩ := ih h
      refine ⟨y, List.mem_cons_of_mem x hy, hkey, ?_⟩
      rw [List.getElem?_append_right hle, hat]

theorem blockLabels_eq_iff {γ : Type} {block' : α → List γ} (hkeys : (xs.map key).Nodup) :
    blockLabels key block xs = blockLabels key block' xs ↔
      ∀ x ∈ xs, (block x).length = (block' x).length := by
  constructor
  · intro h x hx
    -- the places in the block of `x` are the labels with its key
    have hplaces : ∀ {δ : Type} {b : α → List δ} (j : Nat),
        (key x, j) ∈ blockLabels key b xs ↔ j < (b x).length := by
      intro δ b j
      rw [mem_blockLabels]
      constructor
      · rintro ⟨y, hy, hkey, hj⟩
        obtain rfl : x = y := List.inj_on_of_nodup_map hkeys hx hy hkey
        exact hj
      · exact fun hj => ⟨x, hx, rfl, hj⟩
    refine Nat.le_antisymm (Nat.le_of_not_lt fun hlt => ?_) (Nat.le_of_not_lt fun hlt => ?_)
    · have hmem := (hplaces (b := block) _).mpr hlt
      rw [h, hplaces] at hmem
      exact Nat.lt_irrefl _ hmem
    · have hmem := (hplaces (b := block') _).mpr hlt
      rw [← h, hplaces] at hmem
      exact Nat.lt_irrefl _ hmem
  · intro h
    rw [blockLabels, blockLabels]
    refine List.flatMap_congr fun x hx => ?_
    rw [h x hx]

end Blocks
