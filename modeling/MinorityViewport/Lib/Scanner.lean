import Mathlib.Data.List.Basic

/-!
# Scanners that read one symbol at a time

A scanner is a step function.  A step moves on to a state, or it ends the
scan with an outcome.  `scan` runs the step over a text and stops where the
scan ends.

* `scan_append` cuts a text, and with it `feed_eq_scan` says that a text that
  comes in pieces is scanned as the whole.
* A state that collects symbols until a delimiter comes is a loop.
  `IsLoop.scan_word` runs it over a word, and `IsLoop.exists_of_ended` finds
  the word in a text whose scan ends.
* `pending_iff_viable` and `ended_bad_iff` are about scanners that can be
  led to a good outcome from every state of an invariant.  Such a scanner
  moves on as long as some continuation of the text is good, and it ends at
  the first symbol that leaves no such continuation.
-/

namespace Scanner

variable {σ β ω : Type}

inductive Step (σ ω : Type) where
  | more (s : σ)
  | done (outcome : ω)
  deriving DecidableEq

/-- A scan is pending at the end of its text, or it has ended in a state with
an outcome and what follows of the text is not read. -/
inductive Scan (σ β ω : Type) where
  | pending (s : σ)
  | ended (s : σ) (outcome : ω) (rest : List β)
  deriving DecidableEq

def scan (step : σ → β → Step σ ω) : σ → List β → Scan σ β ω
  | s, [] => .pending s
  | s, b :: text =>
    match step s b with
    | .more s' => scan step s' text
    | .done outcome => .ended s outcome text

variable {step : σ → β → Step σ ω}

@[simp]
theorem scan_nil (s : σ) : scan step s [] = .pending s := rfl

theorem scan_cons_of_more {s s' : σ} {b : β} (h : step s b = .more s') (text : List β) :
    scan step s (b :: text) = scan step s' text := by
  rw [scan, h]

theorem scan_cons_of_done {s : σ} {b : β} {outcome : ω} (h : step s b = .done outcome)
    (text : List β) : scan step s (b :: text) = .ended s outcome text := by
  rw [scan, h]

/-! ## Texts that come in pieces -/

/-- More text after a scan. -/
def Scan.extend (step : σ → β → Step σ ω) : Scan σ β ω → List β → Scan σ β ω
  | .pending s, text => scan step s text
  | .ended s outcome rest, text => .ended s outcome (rest ++ text)

theorem scan_append (s : σ) (u v : List β) :
    scan step s (u ++ v) = (scan step s u).extend step v := by
  induction u generalizing s with
  | nil => rfl
  | cons b u ih =>
    rw [List.cons_append, scan, scan]
    cases step s b with
    | more s' => exact ih s'
    | done outcome => rfl

/-- The pieces are scanned one after another until the scan ends. -/
def feed (step : σ → β → Step σ ω) : σ → List (List β) → Scan σ β ω
  | s, [] => .pending s
  | s, piece :: pieces =>
    match scan step s piece with
    | .pending s' => feed step s' pieces
    | .ended s' outcome rest => .ended s' outcome (rest ++ pieces.flatten)

theorem feed_eq_scan (s : σ) (pieces : List (List β)) :
    feed step s pieces = scan step s pieces.flatten := by
  induction pieces generalizing s with
  | nil => rfl
  | cons piece pieces ih =>
    rw [feed, List.flatten_cons, scan_append]
    cases scan step s piece with
    | pending s' => exact ih s'
    | ended s' outcome rest => rfl

/-- A scan that ends has read up to one symbol, and it is pending before. -/
theorem scan_eq_ended_iff {s s' : σ} {outcome : ω} {text rest : List β} :
    scan step s text = .ended s' outcome rest ↔
      ∃ u b, text = u ++ b :: rest ∧ scan step s u = .pending s' ∧
        step s' b = .done outcome := by
  constructor
  · intro h
    induction text generalizing s with
    | nil => cases h
    | cons b text ih =>
      cases hstep : step s b with
      | more s₁ =>
        rw [scan_cons_of_more hstep] at h
        obtain ⟨u, c, rfl, hu, hc⟩ := ih h
        exact ⟨b :: u, c, rfl, by rw [scan_cons_of_more hstep, hu], hc⟩
      | done outcome' =>
        rw [scan_cons_of_done hstep] at h
        cases h
        exact ⟨[], b, rfl, rfl, hstep⟩
  · rintro ⟨u, b, rfl, hu, hb⟩
    rw [scan_append, hu]
    exact scan_cons_of_done hb rest

/-- An invariant of the steps is an invariant of the scans. -/
theorem invariant_of_pending {Inv : σ → Prop}
    (hstep : ∀ s b s', Inv s → step s b = .more s' → Inv s') {s s' : σ} {text : List β}
    (hs : Inv s) (h : scan step s text = .pending s') : Inv s' := by
  induction text generalizing s with
  | nil =>
    cases h
    exact hs
  | cons b text ih =>
    cases hb : step s b with
    | more s₁ =>
      rw [scan_cons_of_more hb] at h
      exact ih (hstep s b s₁ hs hb) h
    | done outcome =>
      rw [scan_cons_of_done hb] at h
      cases h

/-! ## Loops -/

section Loops

variable {α : Type} [DecidableEq β] {state next : α → σ} {take : α → β → Except ω α} {d : β}

/-- A loop collects symbols until its delimiter comes.  A symbol that it does
not take ends the scan. -/
def IsLoop (step : σ → β → Step σ ω) (state next : α → σ) (take : α → β → Except ω α)
    (d : β) : Prop :=
  ∀ a b, step (state a) b =
    if b = d then .more (next a)
    else match take a b with
      | .ok a' => .more (state a')
      | .error outcome => .done outcome

theorem IsLoop.scan_taken (h : IsLoop step state next take d) {a a' : α} {word : List β}
    (hd : d ∉ word) (htake : word.foldlM take a = .ok a') (rest : List β) :
    scan step (state a) (word ++ rest) = scan step (state a') rest := by
  induction word generalizing a with
  | nil =>
    cases htake
    rfl
  | cons b word ih =>
    rw [List.mem_cons, not_or] at hd
    rw [List.foldlM_cons] at htake
    cases hb : take a b with
    | error outcome =>
      rw [hb] at htake
      cases htake
    | ok a₁ =>
      rw [hb] at htake
      have hstep : step (state a) b = .more (state a₁) := by
        rw [h, if_neg (Ne.symm hd.1), hb]
      rw [List.cons_append, scan_cons_of_more hstep]
      exact ih hd.2 htake

theorem IsLoop.scan_word (h : IsLoop step state next take d) {a a' : α} {word : List β}
    (hd : d ∉ word) (htake : word.foldlM take a = .ok a') (rest : List β) :
    scan step (state a) (word ++ d :: rest) = scan step (next a') rest := by
  rw [h.scan_taken hd htake]
  exact scan_cons_of_more (by rw [h, if_pos rfl]) rest

/-- A scan that ends has left the loop at the delimiter, or it ends in the
loop. -/
theorem IsLoop.exists_of_ended (h : IsLoop step state next take d) {a : α} {s : σ}
    {outcome : ω} {text rest : List β} (hscan : scan step (state a) text = .ended s outcome rest) :
    ∃ word a', d ∉ word ∧ word.foldlM take a = .ok a' ∧
      ((∃ text', text = word ++ d :: text' ∧
          scan step (next a') text' = .ended s outcome rest) ∨
        ∃ b, text = word ++ b :: rest ∧ b ≠ d ∧ take a' b = .error outcome) := by
  induction text generalizing a with
  | nil => cases hscan
  | cons b text ih =>
    by_cases hb : b = d
    · subst hb
      rw [scan_cons_of_more (by rw [h, if_pos rfl])] at hscan
      exact ⟨[], a, List.not_mem_nil, rfl, Or.inl ⟨text, rfl, hscan⟩⟩
    · cases htake : take a b with
      | error outcome' =>
        rw [scan_cons_of_done (by rw [h, if_neg hb, htake])] at hscan
        cases hscan
        exact ⟨[], a, List.not_mem_nil, rfl, Or.inr ⟨b, rfl, hb, htake⟩⟩
      | ok a₁ =>
        rw [scan_cons_of_more (by rw [h, if_neg hb, htake])] at hscan
        obtain ⟨word, a', hword, hfold, hrest⟩ := ih hscan
        refine ⟨b :: word, a', ?_, ?_, ?_⟩
        · exact List.not_mem_cons_of_ne_of_not_mem (Ne.symm hb) hword
        · rw [List.foldlM_cons, htake]
          exact hfold
        · rcases hrest with ⟨text', rfl, hnext⟩ | ⟨c, rfl, hc, hbad⟩
          · exact Or.inl ⟨text', rfl, hnext⟩
          · exact Or.inr ⟨c, rfl, hc, hbad⟩

end Loops

/-- A loop that tests each symbol by itself takes the words of the symbols
that pass. -/
theorem foldlM_guard_eq_ok_iff {α : Type} {p : β → Bool} {push : α → β → α} {outcome : ω}
    {a a' : α} {word : List β} :
    word.foldlM (fun a b => if p b then Except.ok (push a b) else .error outcome) a = .ok a' ↔
      (∀ b ∈ word, p b = true) ∧ a' = word.foldl push a := by
  induction word generalizing a with
  | nil =>
    simp only [List.foldlM_nil, List.foldl_nil, List.not_mem_nil, false_implies, implies_true,
      true_and]
    exact ⟨fun h => by cases h; rfl, fun h => by rw [h]; rfl⟩
  | cons b word ih =>
    rw [List.foldlM_cons, List.forall_mem_cons, List.foldl_cons]
    by_cases hb : p b = true
    · simp only [hb, if_true, true_and]
      exact ih
    · rw [if_neg hb]
      refine iff_of_false (fun h => ?_) fun h => hb h.1.1
      cases h

/-! ## Viable texts -/

/-- The text is read to its end, and the outcome is good. -/
def Accepts (step : σ → β → Step σ ω) (good : ω → Prop) (s : σ) (text : List β) : Prop :=
  ∃ s' outcome, scan step s text = .ended s' outcome [] ∧ good outcome

/-- Some continuation of the text is accepted. -/
def Viable (step : σ → β → Step σ ω) (good : ω → Prop) (s : σ) (text : List β) : Prop :=
  ∃ more, Accepts step good s (text ++ more)

section Viable

variable {good : ω → Prop} {Inv : σ → Prop}

theorem not_pending_of_accepts {s s' : σ} {text : List β} (h : Accepts step good s text) :
    scan step s text ≠ .pending s' := by
  rcases h with ⟨s'', outcome, hscan, -⟩
  intro hpending
  rw [hscan] at hpending
  cases hpending

/-- What follows an accepted text is never read. -/
theorem not_accepts_append {s : σ} {text more : List β} (h : Accepts step good s text)
    (hmore : more ≠ []) : ¬ Accepts step good s (text ++ more) := by
  rcases h with ⟨s', outcome, hscan, -⟩
  rintro ⟨s'', outcome', hlong, -⟩
  rw [scan_append, hscan] at hlong
  injection hlong with _ _ hrest
  exact hmore hrest

/-- A scanner that can always be led to a good outcome is pending on exactly
the texts that are viable and not accepted yet. -/
theorem pending_iff_viable (hstep : ∀ s b s', Inv s → step s b = .more s' → Inv s')
    (hfinish : ∀ s, Inv s → ∃ text, Accepts step good s text) {s : σ} (hs : Inv s)
    (text : List β) :
    (∃ s', scan step s text = .pending s') ↔
      Viable step good s text ∧ ¬ Accepts step good s text := by
  constructor
  · rintro ⟨s', hpending⟩
    refine ⟨?_, fun haccept => not_pending_of_accepts haccept hpending⟩
    obtain ⟨more, s'', outcome, hscan, hgood⟩ :=
      hfinish s' (invariant_of_pending hstep hs hpending)
    refine ⟨more, s'', outcome, ?_, hgood⟩
    rw [scan_append, hpending]
    exact hscan
  · rintro ⟨⟨more, s'', outcome, hscan, hgood⟩, hnot⟩
    rw [scan_append] at hscan
    cases htext : scan step s text with
    | pending s' => exact ⟨s', rfl⟩
    | ended s' outcome' rest =>
      rw [htext] at hscan
      injection hscan with _ houtcome hrest
      -- nothing can follow an outcome, so the text itself is accepted
      refine absurd ⟨s', outcome', ?_, houtcome ▸ hgood⟩ hnot
      rw [htext, (List.append_eq_nil_iff.mp hrest).1]

/-- Such a scanner ends without a good outcome at the first symbol that
leaves no good continuation. -/
theorem ended_bad_iff (hstep : ∀ s b s', Inv s → step s b = .more s' → Inv s')
    (hfinish : ∀ s, Inv s → ∃ text, Accepts step good s text) {s : σ} (hs : Inv s)
    (text rest : List β) :
    (∃ s' outcome, scan step s text = .ended s' outcome rest ∧ ¬ good outcome) ↔
      ∃ u b, text = u ++ b :: rest ∧ Viable step good s u ∧ ¬ Accepts step good s u ∧
        ¬ Viable step good s (u ++ [b]) := by
  constructor
  · rintro ⟨s', outcome, hscan, hbad⟩
    obtain ⟨u, b, rfl, hu, hb⟩ := scan_eq_ended_iff.mp hscan
    have hlast : scan step s (u ++ [b]) = .ended s' outcome [] := by
      rw [scan_append, hu]
      exact scan_cons_of_done hb []
    obtain ⟨hviable, hnot⟩ := (pending_iff_viable hstep hfinish hs u).mp ⟨s', hu⟩
    refine ⟨u, b, rfl, hviable, hnot, ?_⟩
    rintro ⟨more, s'', outcome', haccept, hgood⟩
    rw [scan_append, hlast] at haccept
    injection haccept with _ houtcome _
    exact hbad (houtcome ▸ hgood)
  · rintro ⟨u, b, rfl, hviable, hnot, hdead⟩
    obtain ⟨s', hu⟩ := (pending_iff_viable hstep hfinish hs u).mpr ⟨hviable, hnot⟩
    have hlast : scan step s (u ++ [b]) = scan step s' [b] := by
      rw [scan_append, hu]
      rfl
    cases hb : step s' b with
    | more s'' =>
      have hpending : scan step s (u ++ [b]) = .pending s'' := by
        rw [hlast, scan_cons_of_more hb, scan_nil]
      exact absurd ((pending_iff_viable hstep hfinish hs _).mp ⟨s'', hpending⟩).1 hdead
    | done outcome =>
      refine ⟨s', outcome, scan_eq_ended_iff.mpr ⟨u, b, rfl, hu, hb⟩, fun hgood => hdead ?_⟩
      exact ⟨[], s', outcome, by rw [List.append_nil, hlast, scan_cons_of_done hb], hgood⟩

end Viable

end Scanner
