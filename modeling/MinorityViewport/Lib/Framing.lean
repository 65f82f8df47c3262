import Mathlib.Data.List.Basic

/-!
# Texts in lines

A text is cut at the first occurrence of a delimiter, and a head is a run of
lines up to an empty line.  When the first symbol of the delimiter occurs in
no line, both find exactly what was printed: `cut_append` for one line, and
`head_append` for a head, whatever follows it.
-/

namespace Framing

variable {α : Type}

/-- The text before the first delimiter, and the text after it. -/
def cut [DecidableEq α] (d : List α) : List α → Option (List α × List α)
  | [] => if d = [] then some ([], []) else none
  | c :: text =>
    if d.isPrefixOf (c :: text) then some ([], (c :: text).drop d.length)
    else (cut d text).map fun parts => (c :: parts.1, parts.2)

theorem cut_append [DecidableEq α] {a : α} {d line : List α} (hline : a ∉ line) (rest : List α) :
    cut (a :: d) (line ++ (a :: d) ++ rest) = some (line, rest) := by
  induction line with
  | nil =>
    have hprefix : (a :: d).isPrefixOf (a :: (d ++ rest)) = true := by
      rw [List.isPrefixOf_iff_prefix]
      exact List.prefix_append (a :: d) rest
    show cut (a :: d) (a :: (d ++ rest)) = _
    rw [cut, if_pos hprefix]
    simp
  | cons c line ih =>
    rw [List.mem_cons, not_or] at hline
    have hprefix : ¬ (a :: d).isPrefixOf (c :: (line ++ (a :: d) ++ rest)) = true := by
      rw [List.isPrefixOf_iff_prefix, List.cons_prefix_cons]
      exact fun h => hline.1 h.1
    show cut (a :: d) (c :: (line ++ (a :: d) ++ rest)) = _
    rw [cut, if_neg hprefix, ih hline.2]
    rfl

/-- The lines up to the empty one, and the text after it. -/
def head [DecidableEq α] (d : List α) : Nat → List α → Option (List (List α) × List α)
  | 0, _ => none
  | fuel + 1, text =>
    match cut d text with
    | none => none
    | some ([], rest) => some ([], rest)
    | some (line, rest) => (head d fuel rest).map fun parts => (line :: parts.1, parts.2)

theorem head_append [DecidableEq α] {a : α} {d : List α} {lines : List (List α)}
    (hlines : ∀ line ∈ lines, line ≠ [] ∧ a ∉ line) {fuel : Nat} (hfuel : lines.length < fuel)
    (rest : List α) :
    head (a :: d) fuel (lines.flatMap (· ++ (a :: d)) ++ (a :: d) ++ rest) =
      some (lines, rest) := by
  induction lines generalizing fuel with
  | nil =>
    obtain ⟨fuel, rfl⟩ := Nat.exists_eq_add_of_lt hfuel
    show head (a :: d) (_ + 1) ([] ++ (a :: d) ++ rest) = _
    rw [head, cut_append List.not_mem_nil]
  | cons line lines ih =>
    obtain ⟨hline, hlines⟩ := List.forall_mem_cons.mp hlines
    cases fuel with
    | zero => exact absurd hfuel (Nat.not_lt_zero _)
    | succ fuel =>
      have hrest := ih hlines (Nat.lt_of_succ_lt_succ hfuel)
      rw [List.flatMap_cons, List.append_assoc, List.append_assoc, head, cut_append hline.2,
        ← List.append_assoc]
      cases line with
      | nil => exact absurd rfl hline.1
      | cons c line =>
        show (head (a :: d) fuel _).map _ = _
        rw [hrest]
        rfl

/-- A printed head is longer than the number of its lines. -/
theorem length_lt_print (a : α) (d : List α) (lines : List (List α)) (rest : List α) :
    lines.length < (lines.flatMap (· ++ (a :: d)) ++ (a :: d) ++ rest).length := by
  induction lines with
  | nil => simp
  | cons line lines ih =>
    simp only [List.flatMap_cons, List.length_append, List.length_cons] at ih ⊢
    omega

end Framing
