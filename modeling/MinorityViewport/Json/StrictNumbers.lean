import MinorityViewport.Json.Printed
import MinorityViewport.Lib.JsonLeaves

/-!
# Numbers of strict JSON

`decodeNumber` reads every JSON number as the number that it denotes:
`decodeNumber_print`.  Whether it becomes an integer or a real is what
`numberValue` says.
-/

namespace MinorityViewport.Json.Reader

open StrictJson (Numeral Exponent digitsNat printSign printFraction printExponent)

theorem digitsNat_eq (digits : Str) : digitsNat digits = digitsValue digits :=
  (digitsValue_eq digits).symm

/-- A whole number is kept as an integer while one more digit would still
fit.  Every other number is read as a real. -/
def numberValue (n : Numeral) : Value :=
  let whole := digitsNat n.whole
  if ¬ n.IsWhole then .real n.value
  else if n.negative then
    if whole / 10 < 214748364 then .int (-whole) else .real n.value
  else
    if whole / 10 < 429496729 then if whole ≤ 2147483647 then .int whole else .uint whole
    else .real n.value

/-! ## Digits -/

theorem digit_le {c : Char} (h : c.isDigit) : c.toNat - '0'.toNat ≤ 9 := by
  obtain ⟨-, hle⟩ := Char.isDigit_iff_toNat.mp h
  exact Nat.sub_le_sub_right hle '0'.toNat

/-- The digit loop gives up when the digits before the last one reach the
threshold. -/
theorem decodeDigits_eq (text : Str) (threshold : Nat) (finish : Nat → Value) {cs : Str}
    (hcs : ∀ c ∈ cs, c.isDigit) (n : Nat) :
    decodeDigits text threshold finish n cs =
      if cs = [] ∨ Nat.ofDigitChars 10 cs n / 10 < threshold then
        some (finish (Nat.ofDigitChars 10 cs n))
      else decodeDouble text := by
  induction cs generalizing n with
  | nil => rw [decodeDigits, if_pos (Or.inl rfl), Nat.ofDigitChars_nil]
  | cons c cs ih =>
    obtain ⟨hc, hcs⟩ := List.forall_mem_cons.mp hcs
    have hdigit := digit_le hc
    have hstep : Nat.ofDigitChars 10 (c :: cs) n =
        Nat.ofDigitChars 10 cs (n * 10 + (c.toNat - '0'.toNat)) := by
      rw [Nat.ofDigitChars_cons, Nat.mul_comm]
    rw [decodeDigits, if_neg (not_not.mpr hc), hstep, ih hcs]
    have hgrow : n * 10 + (c.toNat - '0'.toNat) ≤
        Nat.ofDigitChars 10 cs (n * 10 + (c.toNat - '0'.toNat)) := by
      rw [Nat.ofDigitChars_eq_ofDigitChars_zero]
      exact (Nat.le_mul_of_pos_left _ (Nat.pow_pos (by omega))).trans (Nat.le_add_right _ _)
    by_cases hthreshold : threshold ≤ n
    · rw [if_pos hthreshold, if_neg]
      rintro (h | h)
      · cases h
      · omega
    · rw [if_neg hthreshold]
      refine if_congr ?_ rfl rfl
      cases cs with
      | nil =>
        rw [Nat.ofDigitChars_nil]
        refine ⟨fun _ => Or.inr (by omega), fun _ => Or.inl rfl⟩
      | cons d cs => exact or_congr (by simp) Iff.rfl

/-! ## Reals -/

theorem takeWhile_digits {digits rest : Str} (h : ∀ c ∈ digits, c.isDigit)
    (hrest : ∀ c ∈ rest.head?, ¬ c.isDigit) :
    (digits ++ rest).takeWhile Char.isDigit = digits ∧
      (digits ++ rest).dropWhile Char.isDigit = rest := by
  rw [List.takeWhile_append_of_pos h, List.dropWhile_append_of_pos h]
  cases rest with
  | nil => exact ⟨List.append_nil _, rfl⟩
  | cons c rest =>
    have hc := hrest c rfl
    rw [List.takeWhile_cons_of_neg hc, List.dropWhile_cons_of_neg hc]
    exact ⟨List.append_nil _, rfl⟩

/-- The sign of a number, and what follows it. -/
def splitSign (text : Str) : Bool × Str :=
  match text with
  | '-' :: rest => (true, rest)
  | '+' :: rest => (false, rest)
  | _ => (false, text)

/-- The digits behind a point, and what follows them. -/
def splitFraction (cs : Str) : Str × Str :=
  match cs with
  | '.' :: rest => (rest.takeWhile Char.isDigit, rest.dropWhile Char.isDigit)
  | rest => ([], rest)

/-- The sign and the digits of an exponent. -/
def splitExponent (cs : Str) : Bool × Str :=
  match cs with
  | 'e' :: '-' :: rest | 'E' :: '-' :: rest => (true, rest.takeWhile Char.isDigit)
  | 'e' :: '+' :: rest | 'E' :: '+' :: rest => (false, rest.takeWhile Char.isDigit)
  | 'e' :: rest | 'E' :: rest => (false, rest.takeWhile Char.isDigit)
  | _ => (false, [])

/-- The real that the parts of a text make up. -/
def realValue (negative : Bool) (whole fraction : Str) (exponent : Bool × Str) : ℚ :=
  let mantissa : ℚ := digitsValue (whole ++ fraction) / 10 ^ fraction.length
  let magnitude : ℚ :=
    if exponent.1 then mantissa / 10 ^ digitsValue exponent.2
    else mantissa * 10 ^ digitsValue exponent.2
  if negative then -magnitude else magnitude

/-- `decodeDouble`, cut into its stages. -/
theorem decodeDouble_eq (text : Str) :
    decodeDouble text =
      let body := (splitSign text).2
      let whole := body.takeWhile Char.isDigit
      let fraction := splitFraction (body.dropWhile Char.isDigit)
      if whole = [] ∧ fraction.1 = [] then none
      else some (.real (realValue (splitSign text).1 whole fraction.1
        (splitExponent fraction.2))) := rfl

theorem splitSign_printSign (negative : Bool) {d : Char} (hd : d.isDigit) (cs : Str) :
    splitSign (printSign negative ++ d :: cs) = (negative, d :: cs) := by
  cases negative with
  | true => rfl
  | false =>
    obtain ⟨hminus, hplus⟩ := ne_sign_of_isDigit hd
    show splitSign (d :: cs) = (false, d :: cs)
    unfold splitSign
    split
    · next heq => exact absurd (List.cons.inj heq).1 hminus
    · next heq => exact absurd (List.cons.inj heq).1 hplus
    · rfl

theorem decodeDouble_printed (negative : Bool) {whole rest : Str} (hne : whole ≠ [])
    (hwhole : ∀ c ∈ whole, c.isDigit) (hrest : ∀ c ∈ rest.head?, ¬ c.isDigit) :
    decodeDouble (printSign negative ++ whole ++ rest) =
      some (.real (realValue negative whole (splitFraction rest).1
        (splitExponent (splitFraction rest).2))) := by
  obtain ⟨htake, hdrop⟩ := takeWhile_digits hwhole hrest
  obtain ⟨d, ds, rfl⟩ := List.exists_cons_of_ne_nil hne
  have hsign := splitSign_printSign negative (hwhole d List.mem_cons_self) (ds ++ rest)
  rw [List.append_assoc, decodeDouble_eq, List.cons_append, hsign]
  dsimp only
  rw [← List.cons_append, htake, hdrop, if_neg fun h => hne h.1]

theorem splitExponent_print (e : Option Exponent) :
    splitExponent (printExponent e) =
      e.elim (false, []) fun e => (e.sign = ['-'], e.digits) := by
  cases e with
  | none => rfl
  | some e =>
    obtain ⟨letter, sign, digits, hletter, hsign, hne, hdigits⟩ := e
    obtain ⟨d, ds, rfl⟩ := List.exists_cons_of_ne_nil hne
    obtain ⟨hminus, hplus⟩ := ne_sign_of_isDigit (hdigits d List.mem_cons_self)
    have htake : (d :: ds).takeWhile Char.isDigit = d :: ds :=
      List.takeWhile_eq_self_iff.mpr hdigits
    rcases hletter with rfl | rfl <;> rcases hsign with rfl | rfl | rfl <;>
      simp [splitExponent, printExponent, Exponent.print, htake, hminus, hplus]

/-- What stands behind the digits starts with no digit. -/
theorem head?_printExponent (e : Option Exponent) :
    ∀ c ∈ (printExponent e).head?, c = 'e' ∨ c = 'E' := by
  cases e with
  | none => rintro c ⟨⟩
  | some e =>
    rintro c ⟨⟩
    exact e.letter_eq

theorem splitFraction_print {digits : Str} (h : ∀ c ∈ digits, c.isDigit) (e : Option Exponent) :
    splitFraction (printFraction digits ++ printExponent e) = (digits, printExponent e) := by
  have hhead := head?_printExponent e
  by_cases hdigits : digits = []
  · rw [printFraction, if_pos hdigits, List.nil_append, hdigits]
    unfold splitFraction
    split
    · next heq =>
      rw [heq] at hhead
      exact absurd (hhead '.' rfl) (by decide)
    · rfl
  · obtain ⟨htake, hdrop⟩ := @takeWhile_digits digits (printExponent e) h fun c hc => by
      rcases hhead c hc with rfl | rfl <;> decide
    rw [printFraction, if_neg hdigits, List.cons_append, splitFraction, htake, hdrop]

theorem realValue_eq (n : Numeral) :
    realValue n.negative n.whole n.fraction
      (n.exponent.elim (false, []) fun e => (decide (e.sign = ['-']), e.digits)) = n.value := by
  unfold realValue Numeral.value Numeral.magnitude
  rw [digitsNat_eq]
  cases n.exponent with
  | none => simp [digitsValue]
  | some e => simp [Exponent.scale, digitsNat_eq]

theorem decodeDouble_print (n : Numeral) : decodeDouble n.print = some (.real n.value) := by
  have hhead : ∀ c ∈ (printFraction n.fraction ++ printExponent n.exponent).head?,
      ¬ c.isDigit := by
    intro c hc
    by_cases hdigits : n.fraction = []
    · rw [printFraction, if_pos hdigits, List.nil_append] at hc
      rcases head?_printExponent _ c hc with rfl | rfl <;> decide
    · rw [printFraction, if_neg hdigits, List.cons_append] at hc
      cases hc
      decide
  rw [Numeral.print, List.append_assoc,
    decodeDouble_printed n.negative n.whole_ne_nil n.isDigit_whole hhead,
    splitFraction_print n.isDigit_fraction]
  dsimp only
  rw [splitExponent_print, realValue_eq]

/-! ## Numbers -/

/-- What sends a number to `decodeDouble`. -/
def LooksReal (text : Str) : Prop :=
  (∃ c ∈ text, c = '.' ∨ c = 'e' ∨ c = 'E' ∨ c = '+') ∨ '-' ∈ text.tail

theorem isDouble_iff (text : Str) :
    (text.any (fun c => c = '.' || c = 'e' || c = 'E' || c = '+') ||
      text.tail.any (· = '-')) = true ↔ LooksReal text := by
  simp [LooksReal, or_assoc]

theorem isNumberChar_of_mem_print {n : Numeral} {c : Char} (h : c ∈ n.print) : isNumberChar c := by
  have hdigit : ∀ {d : Char}, d.isDigit → isNumberChar d :=
    fun hd => isNumberChar_of_digit (.inl hd)
  unfold Numeral.print at h
  simp only [List.mem_append] at h
  rcases h with ((h | h) | h) | h
  · unfold StrictJson.printSign at h
    split_ifs at h
    · rw [List.mem_singleton.mp h]
      rfl
    · cases h
  · exact hdigit (n.isDigit_whole c h)
  · unfold StrictJson.printFraction at h
    split_ifs at h
    · cases h
    · rcases List.mem_cons.mp h with rfl | h
      · rfl
      · exact hdigit (n.isDigit_fraction c h)
  · cases he : n.exponent with
    | none =>
      rw [he] at h
      cases h
    | some e =>
      rw [he] at h
      change c ∈ e.letter :: e.sign ++ e.digits at h
      rcases List.mem_append.mp h with h | h
      · rcases List.mem_cons.mp h with rfl | h
        · rcases e.letter_eq with he | he <;> rw [he] <;> rfl
        · rcases e.sign_eq with he | he | he <;> rw [he] at h
          · cases h
          · rw [List.mem_singleton.mp h]
            rfl
          · rw [List.mem_singleton.mp h]
            rfl
      · exact hdigit (e.isDigit c h)

theorem Numeral.print_of_isWhole {n : Numeral} (h : n.IsWhole) :
    n.print = printSign n.negative ++ n.whole := by
  rw [Numeral.print, h.1, h.2]
  simp [printFraction, printExponent]

theorem looksReal_print (n : Numeral) : LooksReal n.print ↔ ¬ n.IsWhole := by
  constructor
  · intro hreal hwhole
    rw [Numeral.print_of_isWhole hwhole] at hreal
    have hnot : ∀ c, ¬ c.isDigit → c ∉ n.whole := fun c hc hmem => hc (n.isDigit_whole c hmem)
    rcases hreal with ⟨c, hmem, hc⟩ | hmem
    · rcases List.mem_append.mp hmem with hmem | hmem
      · cases hsign : n.negative with
        | true =>
          rw [hsign] at hmem
          rw [List.mem_singleton.mp hmem] at hc
          revert hc
          decide
        | false =>
          rw [hsign] at hmem
          cases hmem
      · rcases hc with rfl | rfl | rfl | rfl <;> exact hnot _ (by decide) hmem
    · refine hnot '-' (by decide) ?_
      cases hsign : n.negative with
      | true =>
        rw [hsign] at hmem
        exact hmem
      | false =>
        rw [hsign] at hmem
        exact List.mem_of_mem_tail hmem
  · intro hwhole
    left
    by_cases hdigits : n.fraction = []
    · cases he : n.exponent with
      | none => exact absurd ⟨hdigits, he⟩ hwhole
      | some e =>
        refine ⟨e.letter, ?_, Or.inr (e.letter_eq.imp_right Or.inl)⟩
        rw [Numeral.print, he]
        exact List.mem_append_right _ List.mem_cons_self
    · refine ⟨'.', ?_, Or.inl rfl⟩
      rw [Numeral.print, printFraction, if_neg hdigits]
      exact List.mem_append_left _ (List.mem_append_right _ List.mem_cons_self)

theorem head?_print (n : Numeral) : n.print.head? = some '-' ↔ n.negative = true := by
  obtain ⟨d, ds, hwhole⟩ := List.exists_cons_of_ne_nil n.whole_ne_nil
  have hd := n.isDigit_whole d (by rw [hwhole]; exact List.mem_cons_self)
  cases hsign : n.negative with
  | true =>
    rw [Numeral.print, hsign]
    exact ⟨fun _ => rfl, fun _ => rfl⟩
  | false =>
    rw [Numeral.print, hsign, hwhole]
    refine ⟨fun h => ?_, fun h => ?_⟩
    · exact absurd (Option.some.inj h) (ne_sign_of_isDigit hd).1
    · cases h

/-- Every JSON number is read as the number that it denotes. -/
theorem decodeNumber_print (n : Numeral) : decodeNumber n.print = some (numberValue n) := by
  have hdigits : ∀ threshold (finish : Nat → Value),
      decodeDigits n.print threshold finish 0 n.whole =
        if digitsNat n.whole / 10 < threshold then some (finish (digitsNat n.whole))
        else some (.real n.value) := by
    intro threshold finish
    rw [decodeDigits_eq _ _ _ n.isDigit_whole, decodeDouble_print]
    exact if_congr (or_iff_right n.whole_ne_nil) rfl rfl
  unfold decodeNumber numberValue
  simp only [isDouble_iff, looksReal_print, head?_print]
  by_cases hwhole : n.IsWhole
  · have hprint := Numeral.print_of_isWhole hwhole
    rw [if_neg (not_not.mpr hwhole), if_neg (not_not.mpr hwhole)]
    cases hsign : n.negative with
    | true =>
      rw [if_pos rfl, if_pos rfl]
      have htail : n.print.tail = n.whole := by
        rw [hprint, hsign]
        rfl
      rw [htail, hdigits]
      exact (apply_ite some _ _ _).symm
    | false =>
      rw [if_neg Bool.false_ne_true, if_neg Bool.false_ne_true]
      have hself : n.print = n.whole := by
        rw [hprint, hsign]
        rfl
      have hread := hdigits (4294967295 / 10)
        fun n => if n ≤ 2147483647 then .int n else .uint n
      nth_rewrite 2 [hself]
      rw [hread]
      exact (apply_ite some _ _ _).symm
  · rw [if_pos hwhole, if_pos hwhole, decodeDouble_print]

theorem value_of_isWhole {n : Numeral} (h : n.IsWhole) :
    n.value = if n.negative then -(digitsNat n.whole : ℚ) else digitsNat n.whole := by
  unfold Numeral.value Numeral.magnitude
  rw [h.1, h.2]
  simp

theorem asDouble_numberValue (n : Numeral) : (numberValue n).asDouble = .ok n.value := by
  unfold numberValue
  dsimp only
  split_ifs with hwhole hnegative hsmall hsmall hint
  · rw [value_of_isWhole hwhole, if_pos hnegative]
    simp [Value.asDouble]
  · rfl
  · rw [value_of_isWhole hwhole, if_neg hnegative]
    simp [Value.asDouble]
  · rw [value_of_isWhole hwhole, if_neg hnegative]
    simp [Value.asDouble]
  · rfl
  · rfl

end MinorityViewport.Json.Reader
