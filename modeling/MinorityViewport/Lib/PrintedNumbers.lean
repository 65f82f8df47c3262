import MinorityViewport.Lib.PrintedJson

/-!
# Printed numbers with a sign or a fraction

A number that is printed in decimal digits, behind a minus sign or not, and
with a fraction or not, is a JSON number.  `Renders.decimal` is the rule for
it beside those of `PrintedJson`.
-/

namespace StrictJson

/-- No fraction, or a point and some digits. -/
def IsFraction (cs : List Char) : Prop :=
  cs = [] ∨ ∃ ds, cs = '.' :: ds ∧ ds ≠ [] ∧ ∀ c ∈ ds, c.isDigit

theorem digits_of_ends {rest : List Char} (hrest : Ends rest) :
    rest.takeWhile Char.isDigit = [] ∧ rest.dropWhile Char.isDigit = rest := by
  cases rest with
  | nil => exact ⟨rfl, rfl⟩
  | cons c rest => rcases hrest c rfl with rfl | rfl | rfl <;> exact ⟨rfl, rfl⟩

theorem exponent_of_ends {rest : List Char} (hrest : Ends rest) (text : List Char) :
    exponent text rest = some (text, rest) := by
  cases rest with
  | nil => rfl
  | cons c rest => rcases hrest c rfl with rfl | rfl | rfl <;> rfl

theorem fraction_of_isFraction {cs rest : List Char} (h : IsFraction cs) (hrest : Ends rest)
    (text : List Char) : fraction text (cs ++ rest) = some (text ++ cs, rest) := by
  rcases h with rfl | ⟨ds, rfl, hne, hds⟩
  · rw [List.append_nil]
    exact fraction_of_ends hrest text
  · obtain ⟨htake, hdrop⟩ := digits_of_ends hrest
    show fraction text ('.' :: (ds ++ rest)) = _
    rw [fraction, List.takeWhile_append_of_pos hds, List.dropWhile_append_of_pos hds, htake, hdrop,
      List.append_nil]
    simp only [if_neg hne]
    exact exponent_of_ends hrest _

/-- A fraction does not go on with a digit. -/
theorem digits_of_isFraction {cs rest : List Char} (h : IsFraction cs) (hrest : Ends rest) :
    (cs ++ rest).takeWhile Char.isDigit = [] ∧
      (cs ++ rest).dropWhile Char.isDigit = cs ++ rest := by
  rcases h with rfl | ⟨ds, rfl, -, -⟩
  · exact digits_of_ends hrest
  · exact ⟨rfl, rfl⟩

/-- The digits of a natural number, as the grammar wants them. -/
theorem exists_whole (n : Nat) :
    ∃ d ds, Nat.toDigits 10 n = d :: ds ∧ d.isDigit ∧ (∀ c ∈ ds, c.isDigit) ∧
      (d = '0' → ds = []) := by
  have hall : ∀ c ∈ Nat.toDigits 10 n, c.isDigit := fun c =>
    Nat.isDigit_of_mem_toDigits (by decide) (by decide)
  obtain ⟨d, ds, heq, hzero⟩ := exists_head_toDigits n
  rw [heq] at hall
  obtain ⟨hd, hds⟩ := List.forall_mem_cons.mp hall
  refine ⟨d, ds, heq, hd, hds, fun h => ?_⟩
  rw [hzero h, h, Nat.toDigits_zero] at heq
  exact (List.cons.inj heq).2.symm

theorem splitSign_append {sign : List Char} (hsign : sign = [] ∨ sign = ['-']) {d : Char}
    (hd : d.isDigit) (cs : List Char) : splitSign ['-'] (sign ++ d :: cs) = (sign, d :: cs) := by
  rcases hsign with rfl | rfl
  · refine if_neg ?_
    rw [List.mem_singleton]
    rintro rfl
    cases hd
  · rfl

theorem number_decimal {sign cs rest : List Char} (hsign : sign = [] ∨ sign = ['-']) (n : Nat)
    (h : IsFraction cs) (hrest : Ends rest) :
    number (sign ++ Nat.toDigits 10 n ++ cs ++ rest) =
      some (sign ++ Nat.toDigits 10 n ++ cs, rest) := by
  obtain ⟨d, ds, heq, hd, hds, hzero⟩ := exists_whole n
  obtain ⟨htake, hdrop⟩ := digits_of_isFraction h hrest
  rw [heq, List.append_assoc, List.append_assoc, List.cons_append, number,
    splitSign_append hsign hd]
  dsimp only
  by_cases hd0 : d = '0'
  · rw [if_pos hd0, hzero hd0, List.nil_append, fraction_of_isFraction h hrest, hd0]
  · rw [if_neg hd0, if_pos hd, List.takeWhile_append_of_pos hds, List.dropWhile_append_of_pos hds,
      htake, hdrop, List.append_nil, fraction_of_isFraction h hrest]

/-- A value that starts like a number is one. -/
theorem value_number {c : Char} (hc : c = '-' ∨ c.isDigit) (fuel : Nat) (cs : List Char) :
    value (fuel + 1) (c :: cs) = (number (c :: cs)).map fun p => (.number p.1, p.2) := by
  rcases hc with rfl | hd
  · unfold value
    rfl
  · exact value_digit hd fuel cs

theorem Renders.decimal {sign cs : List Char} (hsign : sign = [] ∨ sign = ['-']) (n : Nat)
    (h : IsFraction cs) :
    Renders (sign ++ Nat.toDigits 10 n ++ cs) (.number (sign ++ Nat.toDigits 10 n ++ cs)) True where
  reads _ fuel rest hrest hfuel := by
    obtain ⟨fuel, rfl⟩ : ∃ f, fuel = f + 1 := ⟨fuel - 1, by omega⟩
    have hnumber := number_decimal hsign n h hrest
    have hhead : ∃ c tail, sign ++ Nat.toDigits 10 n ++ cs ++ rest = c :: tail ∧
        (c = '-' ∨ c.isDigit) := by
      obtain ⟨d, ds, heq, hd, -⟩ := exists_whole n
      rcases hsign with rfl | rfl
      · exact ⟨d, ds ++ cs ++ rest, by simp [heq], Or.inr hd⟩
      · exact ⟨'-', d :: ds ++ cs ++ rest, by simp [heq], Or.inl rfl⟩
    obtain ⟨c, tail, htext, hc⟩ := hhead
    rw [htext] at hnumber ⊢
    rw [value_number hc, hnumber]
    rfl
  short := le_rfl
  tight _ := trivial

end StrictJson
