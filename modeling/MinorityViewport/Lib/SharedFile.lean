import Mathlib.Data.List.Basic
import Mathlib.Data.List.Infix

/-!
# A file that several parties write and read back

The parties `ι` of a shared file truncate it, write a text to its start, and
read all of it.  A write does not shorten the file, so what a shorter text
does not cover stays.

* `layers` are the writes of a history since its last truncation, and `laid`
  is the content that they leave.  `laid_layers_cons` is the step.
* `OnTop i` says that the newest layer is by `i` and covers the others.  Then
  `i` reads its own text (`laid_of_onTop`), and where no text of another
  party starts the text of `i`, this is the only way (`onTop_of_laid`).
* `Undisturbed` says that every read of a history finds the reader on top.

A history is a list with its newest access in front.
-/

namespace SharedFile

variable {ι α : Type}

/-- An access to the file.  With `pass` a party leaves it alone. -/
inductive Access (α : Type) where
  | truncate
  | write (text : List α)
  | read (body : List α)
  | pass
  deriving DecidableEq, Repr

/-- A text at the start of a file, over what stands there. -/
def overlay (text content : List α) : List α := text ++ content.drop text.length

/-- The content after an access. -/
def Access.apply (content : List α) : Access α → List α
  | truncate => []
  | write text => overlay text content
  | read _ | pass => content

@[simp]
theorem overlay_nil (text : List α) : overlay text [] = text := by
  rw [overlay, List.drop_nil, List.append_nil]

theorem length_overlay (text content : List α) :
    (overlay text content).length = max text.length content.length := by
  rw [overlay, List.length_append, List.length_drop]
  omega

/-! ## Layers -/

/-- The writes since the last truncation. -/
def layers : List (ι × Access α) → List (ι × List α)
  | [] => []
  | (i, access) :: older =>
    match access with
    | .truncate => []
    | .write text => (i, text) :: layers older
    | .read _ | .pass => layers older

/-- The content that layers leave. -/
def laid (ls : List (ι × List α)) : List α := ls.foldr (fun l content => overlay l.2 content) []

@[simp]
theorem laid_cons (l : ι × List α) (ls : List (ι × List α)) :
    laid (l :: ls) = overlay l.2 (laid ls) := rfl

/-- An access changes the layers as it changes the content. -/
theorem laid_layers_cons (i : ι) (access : Access α) (older : List (ι × Access α)) :
    laid (layers ((i, access) :: older)) = access.apply (laid (layers older)) := by
  cases access <;> rfl

theorem mem_layers_cons {l : ι × List α} {i : ι} {access : Access α}
    {older : List (ι × Access α)} (h : l ∈ layers ((i, access) :: older)) :
    l ∈ layers older ∨ l.1 = i ∧ access = .write l.2 := by
  cases access with
  | truncate => cases h
  | write text =>
    rcases List.mem_cons.mp h with rfl | h
    · exact Or.inr ⟨rfl, rfl⟩
    · exact Or.inl h
  | read body => exact Or.inl h
  | pass => exact Or.inl h

theorem length_le_laid {ls : List (ι × List α)} {l : ι × List α} (h : l ∈ ls) :
    l.2.length ≤ (laid ls).length := by
  induction ls with
  | nil => cases h
  | cons l' rest ih =>
    rw [laid_cons, length_overlay]
    rcases List.mem_cons.mp h with rfl | h
    · exact le_max_left _ _
    · exact le_trans (ih h) (le_max_right _ _)

theorem laid_length_le {ls : List (ι × List α)} {n : Nat} (h : ∀ l ∈ ls, l.2.length ≤ n) :
    (laid ls).length ≤ n := by
  induction ls with
  | nil => exact Nat.zero_le n
  | cons l rest ih =>
    rw [laid_cons, length_overlay]
    exact max_le (h l List.mem_cons_self) (ih fun l hl => h l (List.mem_cons_of_mem _ hl))

/-! ## The layer on top -/

/-- The newest layer is by `i`, and no layer under it is longer. -/
def OnTop (i : ι) : List (ι × List α) → Prop
  | [] => False
  | (j, text) :: rest => j = i ∧ ∀ l ∈ rest, l.2.length ≤ text.length

instance [DecidableEq ι] (i : ι) : (ls : List (ι × List α)) → Decidable (OnTop i ls)
  | [] => inferInstanceAs (Decidable False)
  | (j, text) :: rest =>
    inferInstanceAs (Decidable (j = i ∧ ∀ l ∈ rest, l.2.length ≤ text.length))

/-- The party on top reads its own text. -/
theorem laid_of_onTop {i : ι} {ls : List (ι × List α)} (h : OnTop i ls) :
    ∃ text, (i, text) ∈ ls ∧ laid ls = text := by
  cases ls with
  | nil => cases h
  | cons l rest =>
    obtain ⟨j, text⟩ := l
    obtain ⟨rfl, hlen⟩ := h
    refine ⟨text, List.mem_cons_self, ?_⟩
    rw [laid_cons, overlay, List.drop_eq_nil_of_le (laid_length_le hlen), List.append_nil]

/-- A party that reads its own text is on top, when every layer that starts
its text is its own. -/
theorem onTop_of_laid {i : ι} {text : List α} {ls : List (ι × List α)} (hne : text ≠ [])
    (hstarts : ∀ l ∈ ls, l.2 <+: text → l = (i, text)) (hlaid : laid ls = text) :
    OnTop i ls := by
  cases ls with
  | nil => exact absurd hlaid.symm hne
  | cons l rest =>
    obtain rfl := hstarts l List.mem_cons_self (hlaid ▸ List.prefix_append l.2 _)
    refine ⟨rfl, fun l hl => le_trans (length_le_laid hl) ?_⟩
    -- what stands under the top layer does not show
    have hlen := congrArg List.length hlaid
    rw [laid_cons, length_overlay] at hlen
    exact hlen ▸ le_max_right _ _

/-- Every read finds its reader on top. -/
def Undisturbed : List (ι × Access α) → Prop
  | [] => True
  | (i, access) :: older =>
    match access with
    | .read _ => OnTop i (layers older) ∧ Undisturbed older
    | _ => Undisturbed older

instance decidableUndisturbed [DecidableEq ι] :
    (history : List (ι × Access α)) → Decidable (Undisturbed history)
  | [] => inferInstanceAs (Decidable True)
  | (i, .read _) :: older =>
    have := decidableUndisturbed older
    inferInstanceAs (Decidable (OnTop i (layers older) ∧ Undisturbed older))
  | (_, .truncate) :: older => decidableUndisturbed older
  | (_, .write _) :: older => decidableUndisturbed older
  | (_, .pass) :: older => decidableUndisturbed older

end SharedFile
