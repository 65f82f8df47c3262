import Mathlib.Algebra.Order.BigOperators.Group.List
import Mathlib.Algebra.Order.Group.Nat
import MinorityViewport.Lib.StrictJson

/-!
# Printed JSON

`Renders text doc ok` is how a text that somebody has printed is shown to be
read as meant, or not.  Under `ok` the reader takes it for the document.  The
text is no longer than the weight of the document, and is shorter unless `ok`
holds.  The rules compose such facts along the structure of the document:
`Renders.string`, `Renders.natural`, `Renders.array` and `Renders.object`.
`Renders.parse_iff` draws the conclusion for the whole text.
-/

namespace StrictJson

/-! ## Printed texts -/

def printArray (elements : List (List Char)) : List Char :=
  '[' :: List.intercalate [','] elements ++ [']']

def printMember (name text : List Char) : List Char := '"' :: name ++ '"' :: ':' :: text

def printObject (members : List (List Char × List Char)) : List Char :=
  '{' :: List.intercalate [','] (members.map fun m => printMember m.1 m.2) ++ ['}']

/-- Nothing in the text has to be escaped. -/
def Plain (cs : List Char) : Prop := ∀ c ∈ cs, c ≠ '"' ∧ c ≠ '\\' ∧ 0x20 ≤ c.toNat

instance (cs : List Char) : Decidable (Plain cs) :=
  List.decidableBAll (fun c => c ≠ '"' ∧ c ≠ '\\' ∧ 0x20 ≤ c.toNat) cs

/-- What may be behind a value. -/
def Ends (rest : List Char) : Prop := ∀ c ∈ rest.head?, c = ',' ∨ c = ']' ∨ c = '}'

/-- The reader takes the text for the document and leaves what follows. -/
def Reads (text : List Char) (doc : Doc) : Prop :=
  ∀ (fuel : Nat) (rest : List Char), Ends rest → 2 * text.length + 1 ≤ fuel →
    value fuel (text ++ rest) = some (doc, rest)

/-- The text is read as the document exactly under the condition. -/
structure Renders (text : List Char) (doc : Doc) (ok : Prop) : Prop where
  reads : ok → Reads text doc
  short : text.length ≤ doc.weight
  tight : doc.weight ≤ text.length → ok

theorem number_head {c : Char} {cs : List Char} {p : List Char × List Char}
    (h : number (c :: cs) = some p) : c = '-' ∨ c.isDigit := by
  by_cases hminus : c = '-'
  · exact Or.inl hminus
  · refine Or.inr ?_
    have hsign : splitSign ['-'] (c :: cs) = ([], c :: cs) := if_neg (by simpa using hminus)
    rw [number, hsign] at h
    dsimp only at h
    split_ifs at h with hzero hdigit
    · rw [hzero]
      rfl
    · exact hdigit

/-- A value starts neither with a space nor with the end of an array. -/
theorem value_head {fuel : Nat} {cs : List Char} {p : Doc × List Char}
    (h : value fuel cs = some p) : skipWs cs = cs ∧ ∀ c ∈ cs.head?, c ≠ ']' := by
  have hstart : ∃ c rest, cs = c :: rest ∧
      c ≠ ' ' ∧ c ≠ '\t' ∧ c ≠ '\n' ∧ c ≠ '\r' ∧ c ≠ ']' := by
    cases fuel with
    | zero =>
      unfold value at h
      cases h
    | succ fuel =>
      unfold value at h
      split at h
      · exact ⟨_, _, rfl, by decide⟩
      · exact ⟨_, _, rfl, by decide⟩
      · exact ⟨_, _, rfl, by decide⟩
      · exact ⟨_, _, rfl, by decide⟩
      · exact ⟨_, _, rfl, by decide⟩
      · exact ⟨_, _, rfl, by decide⟩
      · obtain ⟨q, hq, -⟩ := Option.map_eq_some_iff.mp h
        cases cs with
        | nil => cases hq
        | cons c cs =>
          have hc : c = '-' ∨ c.isDigit := number_head hq
          refine ⟨c, cs, rfl, ?_, ?_, ?_, ?_, ?_⟩ <;>
            · rintro rfl
              simp at hc
  obtain ⟨c, rest, rfl, hspace, htab, hnew, hreturn, hclose⟩ := hstart
  refine ⟨List.dropWhile_cons_of_neg (by simp [hspace, htab, hnew, hreturn]), ?_⟩
  rintro d ⟨⟩
  exact hclose

theorem Reads.head {text rest : List Char} {doc : Doc} (h : Reads text doc) (hrest : Ends rest) :
    skipWs (text ++ rest) = text ++ rest ∧ ∀ c ∈ (text ++ rest).head?, c ≠ ']' :=
  value_head (h (2 * text.length + 1) rest hrest le_rfl)

theorem parse_of_reads {text : List Char} {doc : Doc} (h : Reads text doc) :
    parse text = some doc := by
  have hend : Ends [] := by
    rintro c ⟨⟩
  have hread := h (2 * text.length + 1) [] hend le_rfl
  have hskip := (h.head hend).1
  rw [List.append_nil] at hread hskip
  rw [parse, hskip, hread]
  rfl

theorem Renders.parse_iff {text : List Char} {doc : Doc} {ok : Prop} (h : Renders text doc ok) :
    parse text = some doc ↔ ok := by
  constructor
  · intro hparse
    exact h.tight (weight_le_of_parse hparse)
  · intro hok
    exact parse_of_reads (h.reads hok)

/-! ## Numbers and strings -/

theorem length_le_pointsWeight (points : List Nat) : points.length ≤ pointsWeight points := by
  induction points with
  | nil => exact le_rfl
  | cons n points ih =>
    have hone : 1 ≤ pointWeight n := by
      unfold pointWeight
      split <;> omega
    rw [pointsWeight_cons, List.length_cons]
    omega

/-- Only a plain text is as long as the string that it spells. -/
theorem pointsWeight_le_iff (cs : List Char) :
    pointsWeight (cs.map Char.toNat) ≤ cs.length ↔ Plain cs := by
  induction cs with
  | nil => exact iff_of_true le_rfl fun c hc => absurd hc List.not_mem_nil
  | cons c cs ih =>
    have hle := length_le_pointsWeight (cs.map Char.toNat)
    rw [List.length_map] at hle
    have hcons : Plain (c :: cs) ↔ (c ≠ '"' ∧ c ≠ '\\' ∧ 0x20 ≤ c.toNat) ∧ Plain cs :=
      List.forall_mem_cons
    rw [hcons, ← ih, List.map_cons, pointsWeight_cons, List.length_cons]
    by_cases hc : c ≠ '"' ∧ c ≠ '\\' ∧ 0x20 ≤ c.toNat
    · rw [pointWeight_of_ne hc.1 hc.2.1 (by omega), and_iff_right hc]
      omega
    · rw [pointWeight_of_not hc]
      exact iff_of_false (by omega) fun h => hc h.1

theorem chars_plain {cs : List Char} (h : Plain cs) (rest : List Char) :
    chars (cs ++ '"' :: rest) = some (cs.map Char.toNat, rest) := by
  induction cs with
  | nil => exact chars_quote rest
  | cons c cs ih =>
    obtain ⟨⟨hquote, hescape, hcontrol⟩, hcs⟩ := List.forall_mem_cons.mp h
    rw [List.cons_append, chars_char hquote hescape (by omega), ih hcs]
    rfl

/-- A string between quotes. -/
theorem Renders.string {body : List Char} {points : List Nat} {ok : Prop}
    (reads : ok → ∀ rest, chars (body ++ '"' :: rest) = some (points, rest))
    (short : body.length ≤ pointsWeight points) (tight : pointsWeight points ≤ body.length → ok) :
    Renders ('"' :: body ++ ['"']) (.string points) ok where
  reads hok fuel rest _ hfuel := by
    obtain ⟨fuel, rfl⟩ : ∃ f, fuel = f + 1 := ⟨fuel - 1, by omega⟩
    rw [List.append_assoc, List.singleton_append, List.cons_append, value, reads hok]
    rfl
  short := by
    rw [Doc.weight, List.length_append, List.length_cons, List.length_singleton]
    omega
  tight hle := by
    rw [Doc.weight, List.length_append, List.length_cons, List.length_singleton] at hle
    exact tight (by omega)

/-- A string that is printed as it is. -/
theorem Renders.raw (cs : List Char) :
    Renders ('"' :: cs ++ ['"']) (.string (cs.map Char.toNat)) (Plain cs) := by
  refine Renders.string (fun h => chars_plain h) ?_ (pointsWeight_le_iff cs).mp
  have hle := length_le_pointsWeight (cs.map Char.toNat)
  rwa [List.length_map] at hle

theorem Renders.plain {cs : List Char} (h : Plain cs) :
    Renders ('"' :: cs ++ ['"']) (.string (cs.map Char.toNat)) True := by
  have hraw := Renders.raw cs
  rwa [eq_true h] at hraw

theorem plain_toDigits (n : Nat) : Plain (Nat.toDigits 10 n) := by
  intro c hc
  have hdigit : c.isDigit := Nat.isDigit_of_mem_toDigits (by decide) (by decide) hc
  refine ⟨?_, ?_, ?_⟩
  · rintro rfl
    cases hdigit
  · rintro rfl
    cases hdigit
  · have hlow : 0x30 ≤ c.toNat := (Char.isDigit_iff_toNat.mp hdigit).1
    omega

theorem fraction_of_ends {rest : List Char} (hrest : Ends rest) (text : List Char) :
    fraction text rest = some (text, rest) := by
  cases rest with
  | nil => rfl
  | cons c rest => rcases hrest c rfl with rfl | rfl | rfl <;> rfl

/-- Digits behind a digit other than zero. -/
theorem number_digits {d : Char} {ds rest : List Char} (hd : d.isDigit) (hzero : d = '0' → ds = [])
    (hds : ∀ c ∈ ds, c.isDigit) (hrest : Ends rest) :
    number (d :: ds ++ rest) = some (d :: ds, rest) := by
  have hminus : d ≠ '-' := by
    rintro rfl
    cases hd
  have hsign : splitSign ['-'] (d :: ds ++ rest) = ([], d :: (ds ++ rest)) :=
    if_neg (by simpa using hminus)
  rw [number, hsign]
  dsimp only
  by_cases h : d = '0'
  · rw [if_pos h, hzero h, h]
    exact fraction_of_ends hrest _
  · have hstop : rest.takeWhile Char.isDigit = [] ∧ rest.dropWhile Char.isDigit = rest := by
      cases rest with
      | nil => exact ⟨rfl, rfl⟩
      | cons c rest => rcases hrest c rfl with rfl | rfl | rfl <;> exact ⟨rfl, rfl⟩
    rw [if_neg h, if_pos hd, List.takeWhile_append_of_pos hds, List.dropWhile_append_of_pos hds,
      hstop.1, hstop.2, List.append_nil]
    exact fraction_of_ends hrest _

theorem value_digit {d : Char} (hd : d.isDigit) (fuel : Nat) (cs : List Char) :
    value (fuel + 1) (d :: cs) = (number (d :: cs)).map fun p => (.number p.1, p.2) := by
  have hne : ∀ c : Char, ¬ c.isDigit → d ≠ c := by
    rintro c hc rfl
    exact hc hd
  unfold value
  split
  · next h => exact absurd (List.cons.inj h).1 (hne _ (by decide))
  · next h => exact absurd (List.cons.inj h).1 (hne _ (by decide))
  · next h => exact absurd (List.cons.inj h).1 (hne _ (by decide))
  · next h => exact absurd (List.cons.inj h).1 (hne _ (by decide))
  · next h => exact absurd (List.cons.inj h).1 (hne _ (by decide))
  · next h => exact absurd (List.cons.inj h).1 (hne _ (by decide))
  · rfl

/-- The decimal digits of a number do not start with a zero. -/
theorem exists_head_toDigits (n : Nat) :
    ∃ d ds, Nat.toDigits 10 n = d :: ds ∧ (d = '0' → n = 0) := by
  induction n using Nat.strongRecOn with
  | ind n ih =>
    by_cases hn : n < 10
    · have hchar : ∀ m : Fin 10, m.val.digitChar = '0' → m.val = 0 := by decide
      exact ⟨n.digitChar, [], Nat.toDigits_of_lt_base hn, hchar ⟨n, hn⟩⟩
    · obtain ⟨d, ds, heq, hzero⟩ := ih (n / 10) (by omega)
      refine ⟨d, ds ++ [(n % 10).digitChar], ?_, fun h => ?_⟩
      · rw [Nat.toDigits_of_base_le (by decide) (by omega), heq, List.cons_append]
      · have := hzero h
        omega

/-- A natural number in decimal digits. -/
theorem Renders.natural (n : Nat) :
    Renders (Nat.toDigits 10 n) (.number (Nat.toDigits 10 n)) True where
  reads _ fuel rest hrest hfuel := by
    obtain ⟨fuel, rfl⟩ : ∃ f, fuel = f + 1 := ⟨fuel - 1, by omega⟩
    have hall : ∀ c ∈ Nat.toDigits 10 n, c.isDigit := fun c =>
      Nat.isDigit_of_mem_toDigits (by decide) (by decide)
    obtain ⟨d, ds, heq, hzero⟩ := exists_head_toDigits n
    have hnil : d = '0' → ds = [] := by
      intro h
      rw [hzero h, h, Nat.toDigits_zero] at heq
      exact (List.cons.inj heq).2.symm
    rw [heq] at hall ⊢
    obtain ⟨hd, hds⟩ := List.forall_mem_cons.mp hall
    rw [List.cons_append, value_digit hd, ← List.cons_append, number_digits hd hnil hds hrest]
    rfl
  short := le_rfl
  tight _ := trivial

/-! ## Arrays and objects -/

theorem length_intercalate {texts : List (List Char)} (hne : texts ≠ []) :
    (List.intercalate [','] texts).length + 1 = (texts.map fun text => text.length + 1).sum := by
  induction texts with
  | nil => exact absurd rfl hne
  | cons text texts ih =>
    cases texts with
    | nil => simp
    | cons text' texts =>
      rw [List.intercalate_cons_cons, List.map_cons, List.sum_cons, ← ih (List.cons_ne_nil _ _)]
      simp only [List.length_append, List.length_singleton]
      omega

theorem elementsWeight_eq_sum (docs : List Doc) :
    elementsWeight docs = (docs.map fun doc => doc.weight + 1).sum := by
  induction docs with
  | nil => rfl
  | cons doc docs ih => rw [elementsWeight, ih, List.map_cons, List.sum_cons]

theorem membersWeight_eq_sum (members : List (List Nat × Doc)) :
    membersWeight members = (members.map fun m => pointsWeight m.1 + 3 + m.2.weight + 1).sum := by
  induction members with
  | nil => rfl
  | cons m members ih => rw [membersWeight, ih, List.map_cons, List.sum_cons]

section

variable {ι : Type} {text : ι → List Char} {weight : ι → Nat} {xs : List ι}

/-- Separated texts are as short as their weights allow. -/
theorem length_separated_le (hle : ∀ x ∈ xs, (text x).length ≤ weight x) :
    (List.intercalate [','] (xs.map text)).length ≤
      max (xs.map fun x => weight x + 1).sum 1 - 1 := by
  by_cases hne : xs = []
  · rw [hne]
    exact Nat.zero_le _
  · have htexts : xs.map text ≠ [] := mt List.map_eq_nil_iff.mp hne
    have hlen := length_intercalate htexts
    have hsum := List.sum_le_sum fun x hx => Nat.succ_le_succ (hle x hx)
    rw [List.map_map] at hlen
    simp only [Function.comp_def] at hlen
    simp only [Nat.succ_eq_add_one] at hsum
    omega

theorem weight_le_of_separated (hle : ∀ x ∈ xs, (text x).length ≤ weight x)
    (h : max (xs.map fun x => weight x + 1).sum 1 - 1 ≤
      (List.intercalate [','] (xs.map text)).length) :
    ∀ x ∈ xs, weight x ≤ (text x).length := by
  intro x hx
  by_contra hlt
  have htexts : xs.map text ≠ [] := mt List.map_eq_nil_iff.mp (List.ne_nil_of_mem hx)
  have hlen := length_intercalate htexts
  have hsum := List.sum_lt_sum _ _ (fun x hx => Nat.succ_le_succ (hle x hx))
    ⟨x, hx, Nat.succ_lt_succ (Nat.lt_of_not_le hlt)⟩
  rw [List.map_map] at hlen
  simp only [Function.comp_def] at hlen
  simp only [Nat.succ_eq_add_one] at hsum
  omega

theorem ends_comma (rest : List Char) : Ends (',' :: rest) := by
  rintro c ⟨⟩
  exact Or.inl rfl

theorem ends_bracket (rest : List Char) : Ends (']' :: rest) := by
  rintro c ⟨⟩
  exact Or.inr (Or.inl rfl)

theorem ends_brace (rest : List Char) : Ends ('}' :: rest) := by
  rintro c ⟨⟩
  exact Or.inr (Or.inr rfl)

theorem head_printed {doc : ι → Doc} (hreads : ∀ x ∈ xs, Reads (text x) (doc x)) (hne : xs ≠ [])
    (rest : List Char) :
    skipWs (List.intercalate [','] (xs.map text) ++ ']' :: rest) =
        List.intercalate [','] (xs.map text) ++ ']' :: rest ∧
      ∀ c ∈ (List.intercalate [','] (xs.map text) ++ ']' :: rest).head?, c ≠ ']' := by
  cases xs with
  | nil => exact absurd rfl hne
  | cons x xs =>
    have hx := hreads x List.mem_cons_self
    cases xs with
    | nil =>
      rw [List.map_singleton, List.intercalate_singleton]
      exact hx.head (ends_bracket rest)
    | cons x' xs =>
      rw [List.map_cons, List.map_cons, List.intercalate_cons_cons, List.append_assoc,
        List.append_assoc, List.singleton_append]
      exact hx.head (ends_comma _)

/-! The reader goes through the printed elements from the first to the last. -/

theorem elements_printed {doc : ι → Doc} (hreads : ∀ x ∈ xs, Reads (text x) (doc x)) (hne : xs ≠ [])
    (before : List Doc) (fuel : Nat) (rest : List Char)
    (hfuel : 2 * (List.intercalate [','] (xs.map text)).length + 2 ≤ fuel) :
    elements fuel before (List.intercalate [','] (xs.map text) ++ ']' :: rest) =
      some (.array (before ++ xs.map doc), rest) := by
  induction xs generalizing before fuel with
  | nil => exact absurd rfl hne
  | cons x xs ih =>
    obtain ⟨hx, hxs⟩ := List.forall_mem_cons.mp hreads
    obtain ⟨fuel, rfl⟩ : ∃ f, fuel = f + 1 := ⟨fuel - 1, by omega⟩
    cases xs with
    | nil =>
      rw [List.map_singleton, List.intercalate_singleton] at hfuel ⊢
      rw [elements, hx fuel _ (ends_bracket rest) (by omega)]
      rfl
    | cons x' xs =>
      rw [List.map_cons, List.map_cons, List.intercalate_cons_cons] at hfuel ⊢
      simp only [List.length_append, List.length_singleton] at hfuel
      rw [List.append_assoc, List.append_assoc, List.singleton_append]
      have hrest := ih hxs (List.cons_ne_nil _ _) (before ++ [doc x]) fuel (by
        rw [List.map_cons]
        omega)
      have hhead := head_printed hxs (List.cons_ne_nil _ _) rest
      rw [List.map_cons] at hrest hhead
      rw [elements, hx fuel _ (ends_comma _) (by omega)]
      show elements fuel (before ++ [doc x]) (skipWs _) = _
      rw [hhead.1, hrest]
      simp

/-- An array is read back when its elements are. -/
theorem Renders.array {doc : ι → Doc} {ok : ι → Prop}
    (h : ∀ x ∈ xs, Renders (text x) (doc x) (ok x)) :
    Renders (printArray (xs.map text)) (.array (xs.map doc)) (∀ x ∈ xs, ok x) where
  reads hok fuel rest _ hfuel := by
    have hreads : ∀ x ∈ xs, Reads (text x) (doc x) := fun x hx => (h x hx).reads (hok x hx)
    obtain ⟨fuel, rfl⟩ : ∃ f, fuel = f + 1 := ⟨fuel - 1, by omega⟩
    rw [printArray, List.length_append, List.length_cons, List.length_singleton] at hfuel
    rw [printArray, List.append_assoc, List.singleton_append, List.cons_append, value]
    by_cases hne : xs = []
    · rw [hne]
      rfl
    · have hhead := head_printed hreads hne rest
      have hprinted := elements_printed hreads hne [] fuel rest (by omega)
      rw [hhead.1]
      split
      · next heq =>
        rw [heq] at hhead
        exact absurd rfl (hhead.2 _ rfl)
      · exact hprinted
  short := by
    have hlen := length_separated_le fun x hx => (h x hx).short
    rw [printArray, List.length_append, List.length_cons, List.length_singleton, Doc.weight,
      elementsWeight_eq_sum, List.map_map]
    simp only [Function.comp_def]
    omega
  tight hle := by
    rw [printArray, List.length_append, List.length_cons, List.length_singleton, Doc.weight,
      elementsWeight_eq_sum, List.map_map] at hle
    simp only [Function.comp_def] at hle
    have htight : ∀ x ∈ xs, (doc x).weight ≤ (text x).length :=
      weight_le_of_separated (fun x hx => (h x hx).short) (by omega)
    exact fun x hx => (h x hx).tight (htight x hx)

end

/-- A member of a printed object. -/
structure Member where
  name : List Char
  text : List Char
  doc : Doc
  ok : Prop

def Member.printed (m : Member) : List Char := printMember m.name m.text

/-- The member of the document. -/
def Member.meant (m : Member) : List Nat × Doc := (m.name.map Char.toNat, m.doc)

def Member.weight (m : Member) : Nat := pointsWeight (m.name.map Char.toNat) + 3 + m.doc.weight

theorem Member.length_printed (m : Member) :
    m.printed.length = m.name.length + 3 + m.text.length := by
  simp only [printed, printMember, List.length_append, List.length_cons]
  omega

/-- The reader at the first of several members. -/
theorem members_member {m : Member} (hname : Plain m.name) (hreads : Reads m.text m.doc)
    {fuel : Nat} (hfuel : 2 * m.text.length + 1 ≤ fuel) {before : List (List Nat × Doc)}
    {rest : List Char} (hrest : Ends rest) :
    members (fuel + 1) before (m.printed ++ rest) =
      match skipWs rest with
      | ',' :: rest => members fuel (before ++ [m.meant]) (skipWs rest)
      | '}' :: rest => some (.object (before ++ [m.meant]), rest)
      | _ => none := by
  have hcolon : skipWs (':' :: (m.text ++ rest)) = ':' :: (m.text ++ rest) := rfl
  rw [Member.printed, printMember, List.append_assoc, List.cons_append, List.cons_append,
    List.cons_append, members]
  simp only [chars_plain hname, hcolon, (hreads.head hrest).1, hreads fuel rest hrest hfuel]
  rfl

theorem head_members {ms : List Member} (hne : ms ≠ []) (rest : List Char) :
    skipWs (List.intercalate [','] (ms.map Member.printed) ++ rest) =
        List.intercalate [','] (ms.map Member.printed) ++ rest ∧
      ∀ c ∈ (List.intercalate [','] (ms.map Member.printed) ++ rest).head?, c ≠ '}' := by
  have hquote : ∃ tail, List.intercalate [','] (ms.map Member.printed) ++ rest = '"' :: tail := by
    cases ms with
    | nil => exact absurd rfl hne
    | cons m ms =>
      cases ms with
      | nil =>
        rw [List.map_singleton, List.intercalate_singleton]
        exact ⟨_, rfl⟩
      | cons m' ms =>
        rw [List.map_cons, List.map_cons, List.intercalate_cons_cons]
        exact ⟨_, rfl⟩
  obtain ⟨tail, heq⟩ := hquote
  rw [heq]
  refine ⟨rfl, ?_⟩
  rintro c ⟨⟩
  decide

theorem members_printed {ms : List Member} (hms : ∀ m ∈ ms, Plain m.name ∧ Reads m.text m.doc)
    (hne : ms ≠ []) (before : List (List Nat × Doc)) (fuel : Nat) (rest : List Char)
    (hfuel : 2 * (List.intercalate [','] (ms.map Member.printed)).length + 2 ≤ fuel) :
    members fuel before (List.intercalate [','] (ms.map Member.printed) ++ '}' :: rest) =
      some (.object (before ++ ms.map Member.meant), rest) := by
  induction ms generalizing before fuel with
  | nil => exact absurd rfl hne
  | cons m ms ih =>
    obtain ⟨⟨hname, hreads⟩, hms⟩ := List.forall_mem_cons.mp hms
    have hlen := m.length_printed
    obtain ⟨fuel, rfl⟩ : ∃ f, fuel = f + 1 := ⟨fuel - 1, by omega⟩
    cases ms with
    | nil =>
      rw [List.map_singleton, List.intercalate_singleton] at hfuel ⊢
      rw [members_member hname hreads (by omega) (ends_brace rest)]
      rfl
    | cons m' ms =>
      rw [List.map_cons, List.map_cons, List.intercalate_cons_cons] at hfuel ⊢
      simp only [List.length_append, List.length_singleton] at hfuel
      rw [List.append_assoc, List.append_assoc, List.singleton_append]
      have hrest := ih hms (List.cons_ne_nil _ _) (before ++ [m.meant]) fuel (by
        rw [List.map_cons]
        omega)
      rw [List.map_cons] at hrest
      have hhead := head_members (List.cons_ne_nil m' ms) ('}' :: rest)
      rw [List.map_cons] at hrest hhead
      rw [members_member hname hreads (by omega) (ends_comma _)]
      show members fuel (before ++ [m.meant]) (skipWs _) = _
      rw [hhead.1, hrest]
      simp

theorem reads_members {ms : List Member} (hms : ∀ m ∈ ms, Plain m.name ∧ Reads m.text m.doc) :
    Reads ('{' :: List.intercalate [','] (ms.map Member.printed) ++ ['}'])
      (.object (ms.map Member.meant)) := by
  intro fuel rest _ hfuel
  obtain ⟨fuel, rfl⟩ : ∃ f, fuel = f + 1 := ⟨fuel - 1, by omega⟩
  rw [List.length_append, List.length_cons, List.length_singleton] at hfuel
  rw [List.append_assoc, List.singleton_append, List.cons_append, value]
  by_cases hne : ms = []
  · rw [hne]
    rfl
  · have hhead := head_members hne ('}' :: rest)
    have hprinted := members_printed hms hne [] fuel rest (by omega)
    rw [hhead.1]
    split
    · next heq =>
      rw [heq] at hhead
      exact absurd rfl (hhead.2 _ rfl)
    · exact hprinted

/-- An object is read back when its members are. -/
theorem Renders.object {ms : List Member}
    (h : ∀ m ∈ ms, Plain m.name ∧ Renders m.text m.doc m.ok) :
    Renders (printObject (ms.map fun m => (m.name, m.text))) (.object (ms.map Member.meant))
      (∀ m ∈ ms, m.ok) := by
  have hprint : printObject (ms.map fun m => (m.name, m.text)) =
      '{' :: List.intercalate [','] (ms.map Member.printed) ++ ['}'] := by
    rw [printObject, List.map_map]
    rfl
  have hweight : (Doc.object (ms.map Member.meant)).weight =
      max (ms.map fun m => m.weight + 1).sum 1 + 1 := by
    rw [Doc.weight, membersWeight_eq_sum, List.map_map]
    rfl
  have hshort : ∀ m ∈ ms, m.printed.length ≤ m.weight := by
    intro m hm
    have hname := length_le_pointsWeight (m.name.map Char.toNat)
    have htext := (h m hm).2.short
    rw [List.length_map] at hname
    rw [m.length_printed, Member.weight]
    omega
  rw [hprint]
  constructor
  · intro hok
    exact reads_members fun m hm => ⟨(h m hm).1, (h m hm).2.reads (hok m hm)⟩
  · have hlen := length_separated_le hshort
    rw [List.length_append, List.length_cons, List.length_singleton, hweight]
    omega
  · intro hle m hm
    rw [List.length_append, List.length_cons, List.length_singleton, hweight] at hle
    have htight := weight_le_of_separated hshort (by omega) m hm
    have hname := length_le_pointsWeight (m.name.map Char.toNat)
    rw [List.length_map] at hname
    rw [m.length_printed, Member.weight] at htight
    exact (h m hm).2.tight (by omega)

end StrictJson
