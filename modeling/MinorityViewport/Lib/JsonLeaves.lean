import MinorityViewport.Lib.StrictJson
import Mathlib.Algebra.Order.Field.Rat
import Mathlib.Data.Nat.Digits.Defs

/-!
# What the leaves of a document denote

`Numeral` holds the parts of a number text, and `Numeral.value` is the
rational number that they denote.  `exists_numeral` finds the parts in every
text that the grammar takes for a number.

The points of a string are UTF-16 units where they were spelled as escapes.
`joinSurrogates` makes one point of each surrogate pair, and `Doc.Paired`
says that it can do so for every string of a document.

`numeric_of_parse` says that a document that was read has no other numbers.
-/

namespace StrictJson

def digitsNat (digits : List Char) : Nat := Nat.ofDigitChars 10 digits 0

structure Exponent where
  letter : Char
  sign : List Char
  digits : List Char
  letter_eq : letter = 'e' ∨ letter = 'E'
  sign_eq : sign = [] ∨ sign = ['-'] ∨ sign = ['+']
  digits_ne_nil : digits ≠ []
  isDigit : ∀ c ∈ digits, c.isDigit

/-- The parts of a number.  A number without a point has no digits behind
it. -/
structure Numeral where
  negative : Bool
  whole : List Char
  fraction : List Char
  exponent : Option Exponent
  whole_ne_nil : whole ≠ []
  isDigit_whole : ∀ c ∈ whole, c.isDigit
  isDigit_fraction : ∀ c ∈ fraction, c.isDigit

def printSign (negative : Bool) : List Char := if negative then ['-'] else []

def Exponent.print (e : Exponent) : List Char := e.letter :: e.sign ++ e.digits

def printExponent (e : Option Exponent) : List Char := e.elim [] Exponent.print

def printFraction (digits : List Char) : List Char := if digits = [] then [] else '.' :: digits

def Numeral.print (n : Numeral) : List Char :=
  printSign n.negative ++ n.whole ++ printFraction n.fraction ++ printExponent n.exponent

def Exponent.scale (e : Exponent) (q : ℚ) : ℚ :=
  if e.sign = ['-'] then q / 10 ^ digitsNat e.digits else q * 10 ^ digitsNat e.digits

/-- The number without its sign. -/
def Numeral.magnitude (n : Numeral) : ℚ :=
  let mantissa : ℚ := digitsNat (n.whole ++ n.fraction) / 10 ^ n.fraction.length
  n.exponent.elim mantissa (·.scale mantissa)

def Numeral.value (n : Numeral) : ℚ := if n.negative then -n.magnitude else n.magnitude

/-- Neither a fraction nor an exponent. -/
def Numeral.IsWhole (n : Numeral) : Prop := n.fraction = [] ∧ n.exponent = none

instance (n : Numeral) : Decidable n.IsWhole := by
  unfold Numeral.IsWhole
  infer_instance

/-! ## The parts of a text -/

theorem isDigit_of_mem_takeWhile {c : Char} {cs : List Char}
    (h : c ∈ cs.takeWhile Char.isDigit) : c.isDigit :=
  List.mem_takeWhile_imp h

theorem splitSign_fst (signs cs : List Char) :
    (splitSign signs cs).1 = [] ∨ ∃ c ∈ signs, (splitSign signs cs).1 = [c] := by
  unfold splitSign
  split
  · next c rest =>
    by_cases hc : c ∈ signs
    · exact Or.inr ⟨c, hc, by rw [if_pos hc]⟩
    · exact Or.inl (by rw [if_neg hc])
  · exact Or.inl rfl

theorem exists_exponent {text cs text' rest : List Char}
    (h : exponent text cs = some (text', rest)) :
    ∃ e : Option Exponent, text' = text ++ printExponent e := by
  unfold exponent at h
  split at h
  · next c cs =>
    dsimp only at h
    split_ifs at h with hletter hdigits
    · obtain ⟨rfl, -⟩ := Prod.mk.inj (Option.some.inj h)
      refine ⟨some ⟨c, (splitSign ['+', '-'] cs).1, _, hletter, ?_, hdigits,
        fun _ => isDigit_of_mem_takeWhile⟩, ?_⟩
      · rcases splitSign_fst ['+', '-'] cs with hsign | ⟨d, hd, hsign⟩
        · exact Or.inl hsign
        · rcases List.mem_pair.mp hd with rfl | rfl
          · exact Or.inr (Or.inr hsign)
          · exact Or.inr (Or.inl hsign)
      · rw [List.append_assoc]
        rfl
    · obtain ⟨rfl, -⟩ := Prod.mk.inj (Option.some.inj h)
      exact ⟨none, (List.append_nil _).symm⟩
  · obtain ⟨rfl, -⟩ := Prod.mk.inj (Option.some.inj h)
    exact ⟨none, (List.append_nil _).symm⟩

theorem exists_fraction {text cs text' rest : List Char}
    (h : fraction text cs = some (text', rest)) :
    ∃ (digits : List Char) (e : Option Exponent), (∀ c ∈ digits, c.isDigit) ∧
      text' = text ++ printFraction digits ++ printExponent e := by
  unfold fraction at h
  split at h
  · dsimp only at h
    split_ifs at h with hdigits
    obtain ⟨e, rfl⟩ := exists_exponent h
    exact ⟨_, e, fun _ => isDigit_of_mem_takeWhile, by rw [printFraction, if_neg hdigits]⟩
  · obtain ⟨e, rfl⟩ := exists_exponent h
    exact ⟨[], e, List.forall_mem_nil _, by rw [printFraction, if_pos rfl, List.append_nil]⟩

/-- A text that the grammar takes for a number has the parts of one. -/
theorem exists_numeral {cs text rest : List Char} (h : number cs = some (text, rest)) :
    ∃ n : Numeral, n.print = text := by
  have hsign : ∃ negative : Bool, (splitSign ['-'] cs).1 = printSign negative := by
    rcases splitSign_fst ['-'] cs with hsign | ⟨c, hc, hsign⟩
    · exact ⟨false, hsign⟩
    · exact ⟨true, by rw [hsign, List.mem_singleton.mp hc]; rfl⟩
  obtain ⟨negative, hsign⟩ := hsign
  unfold number at h
  dsimp only at h
  rw [hsign] at h
  split at h
  · cases h
  · next d cs _ =>
    split_ifs at h with hzero hdigit
    · obtain ⟨digits, e, hdigits, rfl⟩ := exists_fraction h
      refine ⟨⟨negative, ['0'], digits, e, List.cons_ne_nil _ _, ?_, hdigits⟩, rfl⟩
      exact List.forall_mem_singleton.mpr rfl
    · obtain ⟨digits, e, hdigits, rfl⟩ := exists_fraction h
      refine ⟨⟨negative, _, digits, e, List.cons_ne_nil _ _, ?_, hdigits⟩, rfl⟩
      exact List.forall_mem_cons.mpr ⟨hdigit, fun _ => isDigit_of_mem_takeWhile⟩

/-! ## Strings -/

def IsHigh (n : Nat) : Prop := 0xD800 ≤ n ∧ n ≤ 0xDBFF

def IsLow (n : Nat) : Prop := 0xDC00 ≤ n ∧ n ≤ 0xDFFF

instance (n : Nat) : Decidable (IsHigh n) := by
  unfold IsHigh
  infer_instance

instance (n : Nat) : Decidable (IsLow n) := by
  unfold IsLow
  infer_instance

/-- The point that two surrogates stand for. -/
def pairPoint (high low : Nat) : Nat := 0x10000 + (high - 0xD800) * 0x400 + (low - 0xDC00)

/-- The points of a string, if every high surrogate has its low one. -/
def joinSurrogates : List Nat → Option (List Nat)
  | [] => some []
  | [n] => if IsHigh n then none else some [n]
  | n :: m :: points =>
    if IsHigh n then
      if IsLow m then (joinSurrogates points).map (pairPoint n m :: ·) else none
    else (joinSurrogates (m :: points)).map (n :: ·)

theorem joinSurrogates_of_not_high {n : Nat} (h : ¬ IsHigh n) (points : List Nat) :
    joinSurrogates (n :: points) = (joinSurrogates points).map (n :: ·) := by
  cases points with
  | nil => simp [joinSurrogates, h]
  | cons m points => rw [joinSurrogates, if_neg h]

theorem exists_low_of_joinSurrogates {n : Nat} {points joined : List Nat} (hn : IsHigh n)
    (h : joinSurrogates (n :: points) = some joined) :
    ∃ m points' joined', points = m :: points' ∧ IsLow m ∧
      joinSurrogates points' = some joined' ∧ joined = pairPoint n m :: joined' := by
  cases points with
  | nil =>
    rw [joinSurrogates, if_pos hn] at h
    cases h
  | cons m points =>
    rw [joinSurrogates, if_pos hn] at h
    split_ifs at h with hm
    obtain ⟨joined', hjoined, rfl⟩ := Option.map_eq_some_iff.mp h
    exact ⟨m, points, joined', rfl, hm, hjoined, rfl⟩

mutual

/-- The surrogates of every string come in pairs. -/
def Doc.Paired : Doc → Prop
  | .string points => joinSurrogates points ≠ none
  | .array elements => PairedElements elements
  | .object members => PairedMembers members
  | _ => True

def PairedElements : List Doc → Prop
  | [] => True
  | doc :: docs => doc.Paired ∧ PairedElements docs

def PairedMembers : List (List Nat × Doc) → Prop
  | [] => True
  | (name, doc) :: members => joinSurrogates name ≠ none ∧ doc.Paired ∧ PairedMembers members

end

/-! ## The numbers of a document -/

mutual

/-- Every number has the parts of one. -/
def Doc.Numeric : Doc → Prop
  | .number text => ∃ n : Numeral, n.print = text
  | .array elements => NumericElements elements
  | .object members => NumericMembers members
  | _ => True

def NumericElements : List Doc → Prop
  | [] => True
  | doc :: docs => doc.Numeric ∧ NumericElements docs

def NumericMembers : List (List Nat × Doc) → Prop
  | [] => True
  | (_, doc) :: members => doc.Numeric ∧ NumericMembers members

end

theorem numericElements_iff {docs : List Doc} :
    NumericElements docs ↔ ∀ doc ∈ docs, doc.Numeric := by
  induction docs with
  | nil => exact iff_of_true trivial (List.forall_mem_nil _)
  | cons doc docs ih => rw [NumericElements, ih, List.forall_mem_cons]

theorem numericMembers_iff {members : List (List Nat × Doc)} :
    NumericMembers members ↔ ∀ m ∈ members, m.2.Numeric := by
  induction members with
  | nil => exact iff_of_true trivial (List.forall_mem_nil _)
  | cons m members ih => rw [NumericMembers, ih, List.forall_mem_cons]

/-- With this fuel, only numbers are read as numbers. -/
structure ReadsNumbers (fuel : Nat) : Prop where
  value : ∀ cs doc rest, value fuel cs = some (doc, rest) → doc.Numeric
  elements : ∀ before cs doc rest, elements fuel before cs = some (doc, rest) →
    NumericElements before → doc.Numeric
  members : ∀ before cs doc rest, members fuel before cs = some (doc, rest) →
    NumericMembers before → doc.Numeric

theorem ReadsNumbers.value_succ {fuel : Nat} (ih : ReadsNumbers fuel) {cs rest : List Char}
    {doc : Doc} (h : StrictJson.value (fuel + 1) cs = some (doc, rest)) : doc.Numeric := by
  unfold StrictJson.value at h
  split at h
  · obtain ⟨p, -, hp⟩ := Option.map_eq_some_iff.mp h
    obtain ⟨rfl, -⟩ := Prod.mk.inj hp
    trivial
  · split at h
    · obtain ⟨rfl, -⟩ := Prod.mk.inj (Option.some.inj h)
      trivial
    · exact ih.elements _ _ _ _ h trivial
  · split at h
    · obtain ⟨rfl, -⟩ := Prod.mk.inj (Option.some.inj h)
      trivial
    · exact ih.members _ _ _ _ h trivial
  · obtain ⟨rfl, -⟩ := Prod.mk.inj (Option.some.inj h)
    trivial
  · obtain ⟨rfl, -⟩ := Prod.mk.inj (Option.some.inj h)
    trivial
  · obtain ⟨rfl, -⟩ := Prod.mk.inj (Option.some.inj h)
    trivial
  · obtain ⟨p, hp, h⟩ := Option.map_eq_some_iff.mp h
    obtain ⟨rfl, -⟩ := Prod.mk.inj h
    exact exists_numeral hp

theorem ReadsNumbers.elements_succ {fuel : Nat} (ih : ReadsNumbers fuel) {before : List Doc}
    {cs rest : List Char} {doc : Doc}
    (h : StrictJson.elements (fuel + 1) before cs = some (doc, rest))
    (hbefore : NumericElements before) : doc.Numeric := by
  unfold StrictJson.elements at h
  split at h
  · cases h
  · next first behind hv =>
    have hnext : NumericElements (before ++ [first]) := by
      rw [numericElements_iff] at hbefore ⊢
      exact List.forall_mem_append.mpr
        ⟨hbefore, List.forall_mem_singleton.mpr (ih.value _ _ _ hv)⟩
    split at h
    · exact ih.elements _ _ _ _ h hnext
    · obtain ⟨rfl, -⟩ := Prod.mk.inj (Option.some.inj h)
      exact hnext
    · cases h

theorem ReadsNumbers.members_succ {fuel : Nat} (ih : ReadsNumbers fuel)
    {before : List (List Nat × Doc)} {cs rest : List Char} {doc : Doc}
    (h : StrictJson.members (fuel + 1) before cs = some (doc, rest))
    (hbefore : NumericMembers before) : doc.Numeric := by
  unfold StrictJson.members at h
  split at h
  · split at h
    · cases h
    · next name behind _ =>
      split at h
      · split at h
        · cases h
        · next first behind' hv =>
          have hnext : NumericMembers (before ++ [(name, first)]) := by
            rw [numericMembers_iff] at hbefore ⊢
            exact List.forall_mem_append.mpr
              ⟨hbefore, List.forall_mem_singleton.mpr (ih.value _ _ _ hv)⟩
          split at h
          · exact ih.members _ _ _ _ h hnext
          · obtain ⟨rfl, -⟩ := Prod.mk.inj (Option.some.inj h)
            exact hnext
          · cases h
      · cases h
  · cases h

theorem readsNumbers (fuel : Nat) : ReadsNumbers fuel := by
  induction fuel with
  | zero =>
    refine ⟨fun cs doc rest h => ?_, fun before cs doc rest h => ?_,
      fun before cs doc rest h => ?_⟩
    · unfold value at h
      cases h
    · unfold elements at h
      cases h
    · unfold members at h
      cases h
  | succ fuel ih =>
    exact ⟨fun _ _ _ => ih.value_succ, fun _ _ _ _ => ih.elements_succ,
      fun _ _ _ _ => ih.members_succ⟩

theorem numeric_of_parse {text : List Char} {doc : Doc} (h : parse text = some doc) :
    doc.Numeric := by
  unfold parse at h
  split at h
  · next hv =>
    split_ifs at h
    obtain rfl := Option.some.inj h
    exact (readsNumbers _).value _ _ _ hv
  · cases h

end StrictJson
