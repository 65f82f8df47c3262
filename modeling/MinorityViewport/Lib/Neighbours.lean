import Mathlib.Data.List.Sort
import Mathlib.Data.List.Infix

/-!
# Neighbours in a list

`LeftOf l b a` says that `b` stands directly before `a` somewhere in `l`.
`leftOf_append_iff` and `leftOf_flatMap_iff` follow the list, and
`exists_gap_of_leftOf_filter` is what a filter does.

In a sorted list the neighbours are the entries with nothing between them
(`leftOf_iff_of_sorted`), and the entries that are there twice
(`leftOf_self_iff_of_sorted`).
-/

namespace Neighbours

variable {α β : Type}

/-- `b` stands directly before `a`. -/
def LeftOf (l : List α) (b a : α) : Prop := [b, a] <:+: l

instance [DecidableEq α] (l : List α) (b a : α) : Decidable (LeftOf l b a) :=
  inferInstanceAs (Decidable (_ <:+: _))

theorem leftOf_iff_append {l : List α} {b a : α} :
    LeftOf l b a ↔ ∃ before behind, l = before ++ b :: a :: behind := by
  simp [LeftOf, List.IsInfix, eq_comm]

theorem eq_take_append_of_getElem? {l : List α} {i : Nat} {b a : α} (hb : l[i]? = some b)
    (ha : l[i + 1]? = some a) : l = l.take i ++ b :: a :: l.drop (i + 2) := by
  obtain ⟨hi, rfl⟩ := List.getElem?_eq_some_iff.mp hb
  obtain ⟨hi', rfl⟩ := List.getElem?_eq_some_iff.mp ha
  rw [← List.drop_eq_getElem_cons hi', ← List.drop_eq_getElem_cons hi, List.take_append_drop]

theorem leftOf_iff_getElem? {l : List α} {b a : α} :
    LeftOf l b a ↔ ∃ i, l[i]? = some b ∧ l[i + 1]? = some a := by
  rw [leftOf_iff_append]
  constructor
  · rintro ⟨before, behind, rfl⟩
    exact ⟨before.length, by simp, by simp⟩
  · rintro ⟨i, hb, ha⟩
    exact ⟨_, _, eq_take_append_of_getElem? hb ha⟩

theorem LeftOf.left_mem {l : List α} {b a : α} (h : LeftOf l b a) : b ∈ l :=
  h.subset (by simp)

theorem LeftOf.right_mem {l : List α} {b a : α} (h : LeftOf l b a) : a ∈ l :=
  h.subset (by simp)

instance [DecidableEq α] (l : List α) (a : α) (p : α → Prop) [DecidablePred p] :
    Decidable (∀ b, LeftOf l b a → p b) :=
  decidable_of_iff (∀ b ∈ l, LeftOf l b a → p b)
    ⟨fun h b hb => h b hb.left_mem hb, fun h b _ => h b⟩

/-- Only removed entries stand between neighbours of a filtered list. -/
theorem exists_gap_of_leftOf_filter {l : List α} {p : α → Bool} {b a : α}
    (h : LeftOf (l.filter p) b a) :
    ∃ before gap behind, l = before ++ b :: gap ++ a :: behind ∧ p b ∧ p a ∧
      ∀ x ∈ gap, ¬ p x := by
  obtain ⟨before, behind, h⟩ := leftOf_iff_append.mp h
  obtain ⟨l₁, l₂, rfl, _, h₂⟩ := List.filter_eq_append_iff.mp h
  obtain ⟨u, l₃, rfl, _, hb, h₃⟩ := List.filter_eq_cons_iff.mp h₂
  obtain ⟨gap, w, rfl, hgap, ha, _⟩ := List.filter_eq_cons_iff.mp h₃
  exact ⟨l₁ ++ u, gap, w, by simp, hb, ha, hgap⟩

/-! ## The structure of the list -/

theorem leftOf_nil {b a : α} : ¬ LeftOf [] b a := fun h => List.not_mem_nil h.left_mem

theorem leftOf_cons_iff {x b a : α} {l : List α} :
    LeftOf (x :: l) b a ↔ x = b ∧ l.head? = some a ∨ LeftOf l b a := by
  rw [LeftOf, List.infix_cons_iff, List.cons_prefix_cons, eq_comm]
  refine or_congr_left (and_congr_right fun _ => ?_)
  cases l with
  | nil => simp
  | cons y l => simp [eq_comm]

theorem leftOf_append_iff {l m : List α} {b a : α} :
    LeftOf (l ++ m) b a ↔
      LeftOf l b a ∨ l.getLast? = some b ∧ m.head? = some a ∨ LeftOf m b a := by
  induction l with
  | nil => simp [leftOf_nil]
  | cons x l ih =>
    rw [List.cons_append, leftOf_cons_iff, leftOf_cons_iff, ih]
    cases l with
    | nil => simp [leftOf_nil]
    | cons y l =>
      rw [List.cons_append, List.head?_cons, List.head?_cons, List.getLast?_cons_cons]
      tauto

/-- Neighbours are in one part, or the last of one and the first of the next. -/
theorem leftOf_flatMap_iff {l : List α} {f : α → List β} (hf : ∀ x ∈ l, f x ≠ []) {b a : β} :
    LeftOf (l.flatMap f) b a ↔
      (∃ x ∈ l, LeftOf (f x) b a) ∨
        ∃ x y, LeftOf l x y ∧ (f x).getLast? = some b ∧ (f y).head? = some a := by
  induction l with
  | nil => simp [leftOf_nil]
  | cons x l ih =>
    obtain ⟨-, hrest⟩ := List.forall_mem_cons.mp hf
    rw [List.flatMap_cons, leftOf_append_iff, ih hrest]
    have hhead : (l.flatMap f).head? = some a ↔ ∃ y, l.head? = some y ∧ (f y).head? = some a := by
      cases l with
      | nil => simp
      | cons y l =>
        obtain ⟨z, zs, hz⟩ := List.exists_cons_of_ne_nil (hrest y List.mem_cons_self)
        simp [hz]
    simp only [hhead, leftOf_cons_iff, List.exists_mem_cons_iff]
    constructor
    · rintro (hx | ⟨hlast, y, hy, hfirst⟩ | ⟨z, hz, hleft⟩ | ⟨u, v, hleft, hends⟩)
      · exact Or.inl (Or.inl hx)
      · exact Or.inr ⟨x, y, Or.inl ⟨rfl, hy⟩, hlast, hfirst⟩
      · exact Or.inl (Or.inr ⟨z, hz, hleft⟩)
      · exact Or.inr ⟨u, v, Or.inr hleft, hends⟩
    · rintro ((hx | hrest) | ⟨u, v, ⟨rfl, hv⟩ | hleft, hlast, hfirst⟩)
      · exact Or.inl hx
      · exact Or.inr (Or.inr (Or.inl hrest))
      · exact Or.inr (Or.inl ⟨hlast, v, hv, hfirst⟩)
      · exact Or.inr (Or.inr (Or.inr ⟨u, v, hleft, hlast, hfirst⟩))

/-! ## Sorted lists -/

section Sorted

variable [LinearOrder α] {l : List α} {b a : α}

theorem head?_eq_some_iff_of_sorted (h : l.Pairwise (· ≤ ·)) :
    l.head? = some a ↔ a ∈ l ∧ ∀ c ∈ l, a ≤ c := by
  cases l with
  | nil => simp
  | cons x l =>
    have hx : ∀ c ∈ x :: l, x ≤ c :=
      List.forall_mem_cons.mpr ⟨le_rfl, (List.pairwise_cons.mp h).1⟩
    rw [List.head?_cons, Option.some.injEq]
    constructor
    · rintro rfl
      exact ⟨List.mem_cons_self, hx⟩
    · rintro ⟨hmem, hle⟩
      exact le_antisymm (hx a hmem) (hle x List.mem_cons_self)

theorem getLast?_eq_some_iff_of_sorted (h : l.Pairwise (· ≤ ·)) :
    l.getLast? = some b ↔ b ∈ l ∧ ∀ c ∈ l, c ≤ b := by
  rcases List.eq_nil_or_concat' l with rfl | ⟨l, x, rfl⟩
  · simp
  · have hx : ∀ c ∈ l ++ [x], c ≤ x := by
      intro c hc
      rcases List.mem_append.mp hc with hc | hc
      · exact (List.pairwise_append.mp h).2.2 c hc x (List.mem_singleton_self x)
      · exact (List.mem_singleton.mp hc).le
    rw [List.getLast?_concat, Option.some.injEq]
    constructor
    · rintro rfl
      exact ⟨List.mem_concat_self, hx⟩
    · rintro ⟨hmem, hle⟩
      exact le_antisymm (hle x List.mem_concat_self) (hx b hmem)

/-- Neighbours of a sorted list that differ have nothing between them. -/
theorem leftOf_iff_of_sorted (h : l.Pairwise (· ≤ ·)) (hne : b ≠ a) :
    LeftOf l b a ↔ b ∈ l ∧ a ∈ l ∧ b < a ∧ ∀ c ∈ l, ¬ (b < c ∧ c < a) := by
  induction l with
  | nil => simp [leftOf_nil]
  | cons x l ih =>
    obtain ⟨hx, hl⟩ := List.pairwise_cons.mp h
    rw [leftOf_cons_iff, ih hl, head?_eq_some_iff_of_sorted hl]
    constructor
    · rintro (⟨rfl, ha, hfirst⟩ | ⟨hb, ha, hlt, hnone⟩)
      · refine ⟨List.mem_cons_self, List.mem_cons_of_mem _ ha, lt_of_le_of_ne (hx a ha) hne, ?_⟩
        refine List.forall_mem_cons.mpr ⟨fun h => lt_irrefl x h.1, fun c hc h => ?_⟩
        exact absurd h.2 (not_lt.mpr (hfirst c hc))
      · refine ⟨List.mem_cons_of_mem _ hb, List.mem_cons_of_mem _ ha, hlt, ?_⟩
        exact List.forall_mem_cons.mpr ⟨fun h => absurd h.1 (not_lt.mpr (hx b hb)), hnone⟩
    · rintro ⟨hb, ha, hlt, hnone⟩
      have hal : a ∈ l := by
        refine (List.mem_cons.mp ha).resolve_left fun hax => ?_
        rcases List.mem_cons.mp hb with hbx | hbl
        · exact hne (hbx.trans hax.symm)
        · exact absurd hlt (not_lt.mpr (hax ▸ hx b hbl))
      by_cases hbl : b ∈ l
      · exact Or.inr ⟨hbl, hal, hlt, fun c hc => hnone c (List.mem_cons_of_mem _ hc)⟩
      · obtain rfl := (List.mem_cons.mp hb).resolve_right hbl
        refine Or.inl ⟨rfl, hal, fun c hc => ?_⟩
        have hbc : b < c := lt_of_le_of_ne (hx c hc) fun heq => hbl (heq ▸ hc)
        exact not_lt.mp fun hca => hnone c (List.mem_cons_of_mem _ hc) ⟨hbc, hca⟩

theorem leftOf_self_iff_of_sorted (h : l.Pairwise (· ≤ ·)) :
    LeftOf l a a ↔ 2 ≤ l.count a := by
  induction l with
  | nil => simp [leftOf_nil]
  | cons x l ih =>
    obtain ⟨hx, hl⟩ := List.pairwise_cons.mp h
    rw [leftOf_cons_iff, ih hl, head?_eq_some_iff_of_sorted hl, List.count_cons]
    by_cases hxa : x = a
    · subst hxa
      have hcount : 2 ≤ l.count x + 1 ↔ x ∈ l := by
        rw [← List.count_pos_iff]
        omega
      rw [beq_self_eq_true, if_pos rfl, hcount]
      constructor
      · rintro (⟨-, hmem, -⟩ | htwo)
        · exact hmem
        · exact List.count_pos_iff.mp (by omega)
      · exact fun hmem => Or.inl ⟨rfl, hmem, hx⟩
    · simp [hxa]

theorem leftOf_iff_of_strictlySorted (h : l.Pairwise (· < ·)) :
    LeftOf l b a ↔ b ∈ l ∧ a ∈ l ∧ b < a ∧ ∀ c ∈ l, ¬ (b < c ∧ c < a) := by
  have hsorted : l.Pairwise (· ≤ ·) := h.imp le_of_lt
  by_cases hba : b = a
  · subst hba
    have hnodup : l.Nodup := h.imp ne_of_lt
    have hle := List.nodup_iff_count_le_one.mp hnodup b
    rw [leftOf_self_iff_of_sorted hsorted]
    exact iff_of_false (by omega) fun hall => lt_irrefl b hall.2.2.1
  · exact leftOf_iff_of_sorted hsorted hba

end Sorted

end Neighbours
