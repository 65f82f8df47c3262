import Mathlib.Algebra.BigOperators.Group.List.Basic
import Mathlib.Algebra.Ring.Nat
import Mathlib.Data.List.TakeWhile

/-!
# Strict JSON

The JSON grammar, and nothing besides it: no comments, no trailing commas, no
unescaped control characters, nothing behind the root.  A `Doc` keeps the
text of a number, and a string as the list of its code points.

`Doc.weight` is the least number of characters that spell a document, because
a quote, a backslash and a control character take at least two.  So a text
that is too short is not read as the document: `weight_le_of_parse`.
-/

namespace StrictJson

inductive Doc where
  | null
  | bool (value : Bool)
  | number (text : List Char)
  | string (points : List Nat)
  | array (elements : List Doc)
  | object (members : List (List Nat × Doc))

/-! ## The reader -/

def skipWs (cs : List Char) : List Char :=
  cs.dropWhile fun c => c = ' ' || c = '\t' || c = '\n' || c = '\r'

def hexDigit (c : Char) : Option Nat :=
  if '0' ≤ c ∧ c ≤ '9' then some (c.toNat - '0'.toNat)
  else if 'a' ≤ c ∧ c ≤ 'f' then some (c.toNat - 'a'.toNat + 10)
  else if 'A' ≤ c ∧ c ≤ 'F' then some (c.toNat - 'A'.toNat + 10)
  else none

def hexNumber (a b c d : Char) : Option Nat := do
  let a ← hexDigit a
  let b ← hexDigit b
  let c ← hexDigit c
  let d ← hexDigit d
  pure (((a * 16 + b) * 16 + c) * 16 + d)

def escaped : Char → Option Nat
  | '"' => some 0x22
  | '\\' => some 0x5C
  | '/' => some 0x2F
  | 'b' => some 0x08
  | 'f' => some 0x0C
  | 'n' => some 0x0A
  | 'r' => some 0x0D
  | 't' => some 0x09
  | _ => none

/-- The code points up to the closing quote, and what is behind it. -/
def chars : List Char → Option (List Nat × List Char)
  | [] => none
  | c :: rest =>
    if c = '"' then some ([], rest)
    else if c = '\\' then
      match rest with
      | [] => none
      | 'u' :: rest =>
        match rest with
        | a :: b :: c :: d :: rest => do
          let n ← hexNumber a b c d
          let (points, rest) ← chars rest
          pure (n :: points, rest)
        | _ => none
      | e :: rest => do
        let n ← escaped e
        let (points, rest) ← chars rest
        pure (n :: points, rest)
    else if c.toNat < 0x20 then none
    else (chars rest).map fun p => (c.toNat :: p.1, p.2)

/-- A sign in front of a number, if there is one, and what is behind it. -/
def splitSign (signs cs : List Char) : List Char × List Char :=
  match cs with
  | c :: rest => if c ∈ signs then ([c], rest) else ([], cs)
  | [] => ([], [])

/-- The exponent of a number, whose text so far is `text`. -/
def exponent (text cs : List Char) : Option (List Char × List Char) :=
  match cs with
  | c :: rest =>
    if c = 'e' ∨ c = 'E' then
      let (sign, rest) := splitSign ['+', '-'] rest
      let digits := rest.takeWhile Char.isDigit
      if digits = [] then none
      else some (text ++ c :: sign ++ digits, rest.dropWhile Char.isDigit)
    else some (text, cs)
  | [] => some (text, cs)

def fraction (text cs : List Char) : Option (List Char × List Char) :=
  match cs with
  | '.' :: rest =>
    let digits := rest.takeWhile Char.isDigit
    if digits = [] then none
    else exponent (text ++ '.' :: digits) (rest.dropWhile Char.isDigit)
  | cs => exponent text cs

/-- The text of a number, and what is behind it. -/
def number (cs : List Char) : Option (List Char × List Char) :=
  let (sign, body) := splitSign ['-'] cs
  match body with
  | [] => none
  | d :: rest =>
    if d = '0' then fraction (sign ++ ['0']) rest
    else if d.isDigit then
      fraction (sign ++ d :: rest.takeWhile Char.isDigit) (rest.dropWhile Char.isDigit)
    else none

mutual

def value : Nat → List Char → Option (Doc × List Char)
  | 0, _ => none
  | fuel + 1, cs =>
    match cs with
    | '"' :: rest => (chars rest).map fun p => (.string p.1, p.2)
    | '[' :: rest =>
      match skipWs rest with
      | ']' :: rest => some (.array [], rest)
      | rest => elements fuel [] rest
    | '{' :: rest =>
      match skipWs rest with
      | '}' :: rest => some (.object [], rest)
      | rest => members fuel [] rest
    | 't' :: 'r' :: 'u' :: 'e' :: rest => some (.bool true, rest)
    | 'f' :: 'a' :: 'l' :: 's' :: 'e' :: rest => some (.bool false, rest)
    | 'n' :: 'u' :: 'l' :: 'l' :: rest => some (.null, rest)
    | cs => (number cs).map fun p => (.number p.1, p.2)

def elements : Nat → List Doc → List Char → Option (Doc × List Char)
  | 0, _, _ => none
  | fuel + 1, before, cs =>
    match value fuel cs with
    | none => none
    | some (doc, rest) =>
      match skipWs rest with
      | ',' :: rest => elements fuel (before ++ [doc]) (skipWs rest)
      | ']' :: rest => some (.array (before ++ [doc]), rest)
      | _ => none

def members : Nat → List (List Nat × Doc) → List Char → Option (Doc × List Char)
  | 0, _, _ => none
  | fuel + 1, before, cs =>
    match cs with
    | '"' :: rest =>
      match chars rest with
      | none => none
      | some (name, rest) =>
        match skipWs rest with
        | ':' :: rest =>
          match value fuel (skipWs rest) with
          | none => none
          | some (doc, rest) =>
            match skipWs rest with
            | ',' :: rest => members fuel (before ++ [(name, doc)]) (skipWs rest)
            | '}' :: rest => some (.object (before ++ [(name, doc)]), rest)
            | _ => none
        | _ => none
    | _ => none

end

/-- The document that a text is.  Every call of the reader takes a character
from the text or closes one, so the fuel is enough. -/
def parse (text : List Char) : Option Doc :=
  match value (2 * text.length + 1) (skipWs text) with
  | some (doc, rest) => if skipWs rest = [] then some doc else none
  | none => none

/-! ## Weight -/

/-- Quotes, backslashes and control characters have to be escaped. -/
def pointWeight (n : Nat) : Nat := if n = 0x22 ∨ n = 0x5C ∨ n < 0x20 then 2 else 1

def pointsWeight (points : List Nat) : Nat := (points.map pointWeight).sum

mutual

/-- The least number of characters that spell a document. -/
def Doc.weight : Doc → Nat
  | .null => 4
  | .bool value => if value then 4 else 5
  | .number text => text.length
  | .string points => pointsWeight points + 2
  | .array elements => max (elementsWeight elements) 1 + 1
  | .object members => max (membersWeight members) 1 + 1

/-- Each element with the character behind it. -/
def elementsWeight : List Doc → Nat
  | [] => 0
  | doc :: docs => doc.weight + 1 + elementsWeight docs

def membersWeight : List (List Nat × Doc) → Nat
  | [] => 0
  | (name, doc) :: members => pointsWeight name + 3 + doc.weight + 1 + membersWeight members

end

theorem pointsWeight_cons (n : Nat) (points : List Nat) :
    pointsWeight (n :: points) = pointWeight n + pointsWeight points := by
  rw [pointsWeight, List.map_cons, List.sum_cons, pointsWeight]

theorem pointWeight_le (n : Nat) : pointWeight n ≤ 2 := by
  unfold pointWeight
  split <;> omega

theorem pointWeight_of_ne {c : Char} (hquote : c ≠ '"') (hescape : c ≠ '\\')
    (hcontrol : ¬ c.toNat < 0x20) : pointWeight c.toNat = 1 := by
  refine if_neg ?_
  rintro (h | h | h)
  · exact hquote (Char.toNat_inj.mp h)
  · exact hescape (Char.toNat_inj.mp h)
  · exact hcontrol h

theorem pointWeight_of_not {c : Char} (h : ¬ (c ≠ '"' ∧ c ≠ '\\' ∧ 0x20 ≤ c.toNat)) :
    pointWeight c.toNat = 2 := by
  refine if_pos ?_
  by_contra hnot
  rw [not_or, not_or] at hnot
  refine h ⟨?_, ?_, by omega⟩
  · rintro rfl
    exact hnot.1 rfl
  · rintro rfl
    exact hnot.2.1 rfl

theorem length_skipWs_le (cs : List Char) : (skipWs cs).length ≤ cs.length :=
  List.length_dropWhile_le _ _

theorem chars_quote (rest : List Char) : chars ('"' :: rest) = some ([], rest) := by
  rw [chars.eq_def]
  simp only [if_pos]

theorem chars_control {c : Char} (hcontrol : c.toNat < 0x20) (rest : List Char) :
    chars (c :: rest) = none := by
  rw [chars.eq_def]
  have hquote : c ≠ '"' := by
    rintro rfl
    exact absurd hcontrol (by decide)
  have hescape : c ≠ '\\' := by
    rintro rfl
    exact absurd hcontrol (by decide)
  simp only [if_neg hquote, if_neg hescape, if_pos hcontrol]

theorem chars_char {c : Char} (hquote : c ≠ '"') (hescape : c ≠ '\\')
    (hcontrol : ¬ c.toNat < 0x20) (rest : List Char) :
    chars (c :: rest) = (chars rest).map fun p => (c.toNat :: p.1, p.2) := by
  rw [chars.eq_def]
  simp only [if_neg hquote, if_neg hescape, if_neg hcontrol]

/-- An escape takes two characters and its point has at most this weight. -/
theorem weight_le_of_escape {point : Option Nat} {cs rest : List Char} {points : List Nat}
    (h : (point.bind fun n => (chars cs).bind fun p => some (n :: p.1, p.2)) = some (points, rest))
    (ih : ∀ {points}, chars cs = some (points, rest) →
      pointsWeight points + 1 + rest.length ≤ cs.length) :
    pointsWeight points + 1 + rest.length ≤ cs.length + 2 := by
  obtain ⟨n, -, h⟩ := Option.bind_eq_some_iff.mp h
  obtain ⟨p, hp, h⟩ := Option.bind_eq_some_iff.mp h
  obtain ⟨rfl, rfl⟩ := Prod.mk.inj (Option.some.inj h)
  have hweight := pointWeight_le n
  have hrest := ih hp
  rw [pointsWeight_cons]
  omega

theorem weight_le_of_chars {cs rest : List Char} {points : List Nat}
    (h : chars cs = some (points, rest)) : pointsWeight points + 1 + rest.length ≤ cs.length := by
  induction cs using chars.induct generalizing points with
  | case1 => cases h
  | case2 cs =>
    rw [chars_quote] at h
    obtain ⟨rfl, rfl⟩ := Prod.mk.inj (Option.some.inj h)
    rw [List.length_cons, Nat.add_comm cs.length]
    exact le_rfl
  | case3 => cases h
  | case4 a b c d cs hquote ih =>
    rw [chars, if_neg hquote, if_pos rfl] at h
    have hle := weight_le_of_escape h ih
    simp only [List.length_cons]
    omega
  | case5 cs hshort hquote =>
    rw [chars, if_neg hquote, if_pos rfl] at h
    · cases h
    · exact hshort
  | case6 e cs hu hquote ih =>
    rw [chars, if_neg hquote, if_pos rfl] at h
    · exact weight_le_of_escape h ih
    · exact hu
  | case7 c cs hquote hescape hcontrol =>
    rw [chars_control hcontrol] at h
    cases h
  | case8 c cs hquote hescape hcontrol ih =>
    rw [chars_char hquote hescape hcontrol] at h
    obtain ⟨p, hp, h⟩ := Option.map_eq_some_iff.mp h
    obtain ⟨rfl, rfl⟩ := Prod.mk.inj h
    have hrest := ih hp
    rw [pointsWeight_cons, pointWeight_of_ne hquote hescape hcontrol, List.length_cons]
    omega

/-! The text of a number is what the reader takes. -/

theorem append_splitSign (signs cs : List Char) :
    (splitSign signs cs).1 ++ (splitSign signs cs).2 = cs := by
  unfold splitSign
  split
  · split <;> rfl
  · rfl

theorem append_of_exponent {text cs text' rest : List Char}
    (h : exponent text cs = some (text', rest)) : text' ++ rest = text ++ cs := by
  unfold exponent at h
  split at h
  · next c cs =>
    have hsign := append_splitSign ['+', '-'] cs
    generalize splitSign ['+', '-'] cs = p at h hsign
    dsimp only at h
    split_ifs at h
    · obtain ⟨rfl, rfl⟩ := Prod.mk.inj (Option.some.inj h)
      rw [List.append_assoc, List.takeWhile_append_dropWhile, List.append_assoc, List.cons_append,
        hsign]
    · obtain ⟨rfl, rfl⟩ := Prod.mk.inj (Option.some.inj h)
      rfl
  · obtain ⟨rfl, rfl⟩ := Prod.mk.inj (Option.some.inj h)
    rfl

theorem append_of_fraction {text cs text' rest : List Char}
    (h : fraction text cs = some (text', rest)) : text' ++ rest = text ++ cs := by
  unfold fraction at h
  split at h
  · dsimp only at h
    split_ifs at h
    rw [append_of_exponent h, List.append_assoc, List.cons_append,
      List.takeWhile_append_dropWhile]
  · exact append_of_exponent h

theorem append_of_number {cs text rest : List Char} (h : number cs = some (text, rest)) :
    text ++ rest = cs := by
  unfold number at h
  have hsign := append_splitSign ['-'] cs
  generalize splitSign ['-'] cs = p at h hsign
  obtain ⟨sign, body⟩ := p
  cases body with
  | nil => cases h
  | cons d body =>
    dsimp only at h hsign
    split_ifs at h with hzero
    · rw [append_of_fraction h, ← hsign, hzero, List.append_assoc, List.singleton_append]
    · rw [append_of_fraction h, ← hsign, List.append_assoc, List.cons_append,
        List.takeWhile_append_dropWhile]

/-- What is read takes at least its weight from the text. -/
structure Weighs (fuel : Nat) : Prop where
  value : ∀ cs doc rest, value fuel cs = some (doc, rest) → doc.weight + rest.length ≤ cs.length
  elements : ∀ before cs doc rest, elements fuel before cs = some (doc, rest) →
    ∃ docs, doc = .array (before ++ docs) ∧ 0 < elementsWeight docs ∧
      elementsWeight docs + rest.length ≤ cs.length
  members : ∀ before cs doc rest, members fuel before cs = some (doc, rest) →
    ∃ ms, doc = .object (before ++ ms) ∧ 0 < membersWeight ms ∧
      membersWeight ms + rest.length ≤ cs.length

theorem Weighs.value_succ {fuel : Nat} (hweighs : Weighs fuel) {cs rest : List Char} {doc : Doc}
    (h : StrictJson.value (fuel + 1) cs = some (doc, rest)) :
    doc.weight + rest.length ≤ cs.length := by
  unfold StrictJson.value at h
  split at h
  · obtain ⟨p, hp, h⟩ := Option.map_eq_some_iff.mp h
    obtain ⟨rfl, rfl⟩ := Prod.mk.inj h
    have hchars := weight_le_of_chars hp
    rw [Doc.weight, List.length_cons]
    omega
  · next cs =>
    have hskip := length_skipWs_le cs
    split at h
    · next hws =>
      obtain ⟨rfl, rfl⟩ := Prod.mk.inj (Option.some.inj h)
      rw [hws] at hskip
      simp only [Doc.weight, elementsWeight, List.length_cons] at hskip ⊢
      omega
    · obtain ⟨docs, rfl, hpos, hle⟩ := hweighs.elements _ _ _ _ h
      rw [Doc.weight, List.nil_append, List.length_cons]
      omega
  · next cs =>
    have hskip := length_skipWs_le cs
    split at h
    · next hws =>
      obtain ⟨rfl, rfl⟩ := Prod.mk.inj (Option.some.inj h)
      rw [hws] at hskip
      simp only [Doc.weight, membersWeight, List.length_cons] at hskip ⊢
      omega
    · obtain ⟨ms, rfl, hpos, hle⟩ := hweighs.members _ _ _ _ h
      rw [Doc.weight, List.nil_append, List.length_cons]
      omega
  · obtain ⟨rfl, rfl⟩ := Prod.mk.inj (Option.some.inj h)
    simp only [Doc.weight, if_pos, List.length_cons]
    omega
  · obtain ⟨rfl, rfl⟩ := Prod.mk.inj (Option.some.inj h)
    simp only [Doc.weight, Bool.false_eq_true, if_false, List.length_cons]
    omega
  · obtain ⟨rfl, rfl⟩ := Prod.mk.inj (Option.some.inj h)
    simp only [Doc.weight, List.length_cons]
    omega
  · obtain ⟨p, hp, h⟩ := Option.map_eq_some_iff.mp h
    obtain ⟨rfl, rfl⟩ := Prod.mk.inj h
    rw [Doc.weight, ← List.length_append, append_of_number hp]

theorem Weighs.elements_succ {fuel : Nat} (hweighs : Weighs fuel) {before : List Doc}
    {cs rest : List Char} {doc : Doc}
    (h : StrictJson.elements (fuel + 1) before cs = some (doc, rest)) :
    ∃ docs, doc = .array (before ++ docs) ∧ 0 < elementsWeight docs ∧
      elementsWeight docs + rest.length ≤ cs.length := by
  unfold StrictJson.elements at h
  cases hv : StrictJson.value fuel cs with
  | none =>
    rw [hv] at h
    cases h
  | some p =>
    obtain ⟨first, behind⟩ := p
    rw [hv] at h
    dsimp only at h
    have hfirst := hweighs.value _ _ _ hv
    have hskip := length_skipWs_le behind
    split at h
    · next cs' hws =>
      obtain ⟨docs, rfl, hpos, hle⟩ := hweighs.elements _ _ _ _ h
      have hskip' := length_skipWs_le cs'
      rw [hws, List.length_cons] at hskip
      refine ⟨first :: docs, by simp, ?_, ?_⟩
      · unfold elementsWeight
        omega
      · unfold elementsWeight
        omega
    · next hws =>
      obtain ⟨rfl, rfl⟩ := Prod.mk.inj (Option.some.inj h)
      rw [hws, List.length_cons] at hskip
      refine ⟨[first], rfl, ?_, ?_⟩
      · unfold elementsWeight
        omega
      · unfold elementsWeight elementsWeight
        omega
    · cases h

theorem Weighs.members_succ {fuel : Nat} (hweighs : Weighs fuel)
    {before : List (List Nat × Doc)} {cs rest : List Char} {doc : Doc}
    (h : StrictJson.members (fuel + 1) before cs = some (doc, rest)) :
    ∃ ms, doc = .object (before ++ ms) ∧ 0 < membersWeight ms ∧
      membersWeight ms + rest.length ≤ cs.length := by
  unfold StrictJson.members at h
  split at h
  · next cs =>
    split at h
    · cases h
    · next name behind hname =>
      have hchars := weight_le_of_chars hname
      have hskip₁ := length_skipWs_le behind
      split at h
      · next body hcolon =>
        have hskip₂ := length_skipWs_le body
        rw [hcolon, List.length_cons] at hskip₁
        split at h
        · cases h
        · next first behind' hv =>
          have hfirst := hweighs.value _ _ _ hv
          have hskip₃ := length_skipWs_le behind'
          split at h
          · next cs' hws =>
            obtain ⟨ms, rfl, hpos, hle⟩ := hweighs.members _ _ _ _ h
            have hskip₄ := length_skipWs_le cs'
            rw [hws, List.length_cons] at hskip₃
            refine ⟨(name, first) :: ms, by simp, ?_, ?_⟩
            · unfold membersWeight
              omega
            · rw [membersWeight, List.length_cons]
              omega
          · next hws =>
            obtain ⟨rfl, rfl⟩ := Prod.mk.inj (Option.some.inj h)
            rw [hws, List.length_cons] at hskip₃
            refine ⟨[(name, first)], rfl, ?_, ?_⟩
            · unfold membersWeight
              omega
            · rw [membersWeight, membersWeight, List.length_cons]
              omega
          · cases h
      · cases h
  · cases h

theorem weighs (fuel : Nat) : Weighs fuel := by
  induction fuel with
  | zero =>
    refine ⟨fun cs doc rest h => ?_, fun before cs doc rest h => ?_,
      fun before cs doc rest h => ?_⟩
    · unfold value at h
      cases h
    · unfold elements at h
      cases h
    · unfold members at h
      cases h
  | succ fuel ih =>
    exact ⟨fun _ _ _ => ih.value_succ, fun _ _ _ _ => ih.elements_succ,
      fun _ _ _ _ => ih.members_succ⟩

theorem weight_le_of_parse {text : List Char} {doc : Doc} (h : parse text = some doc) :
    doc.weight ≤ text.length := by
  unfold parse at h
  have hskip := length_skipWs_le text
  split at h
  · next hv =>
    split_ifs at h
    obtain rfl := Option.some.inj h
    have hle := (weighs _).value _ _ _ hv
    omega
  · cases h

end StrictJson
