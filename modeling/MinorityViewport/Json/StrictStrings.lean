import MinorityViewport.Json.Strings
import MinorityViewport.Lib.JsonLeaves

/-!
# Strings of strict JSON

`Reader::parse` works on bytes, and JSON on characters.  `utf8` is what
stands between them, with the encoder that the reader has for its escapes.

`Spells` says that the reader decodes a string and stops behind its closing
quote.  There is a rule for each way to spell a character, and
`spells_of_chars` composes them: an escape becomes the bytes of its point, a
surrogate pair the bytes of the point it stands for, and every other
character stays as it is.
-/

namespace MinorityViewport.Json.Reader

open StrictJson (joinSurrogates pairPoint IsHigh IsLow chars)

/-! ## Bytes -/

def utf8Points (points : List Nat) : Str := points.flatMap codePointToUTF8

def utf8 (text : List Char) : Str := utf8Points (text.map Char.toNat)

theorem utf8_cons (c : Char) (cs : List Char) :
    utf8 (c :: cs) = codePointToUTF8 c.toNat ++ utf8 cs := rfl

theorem toNat_ofNat {n : Nat} (h : n < 0xD800) : (Char.ofNat n).toNat = n := by
  rw [Char.ofNat, dif_pos (Or.inl h)]
  rfl

theorem codePointToUTF8_ascii {c : Char} (h : c.toNat ≤ 0x7F) :
    codePointToUTF8 c.toNat = [c] := by
  rw [codePointToUTF8, if_pos h, Char.ofNat_toNat]

theorem utf8_ascii {c : Char} (h : c.toNat ≤ 0x7F) (cs : List Char) :
    utf8 (c :: cs) = c :: utf8 cs := by
  rw [utf8_cons, codePointToUTF8_ascii h]
  rfl

theorem wide_cons {m : Nat} {bytes : Str} (hlow : 0x80 ≤ m) (hhigh : m < 0x100)
    (h : ∀ b ∈ bytes, 0x7F < b.toNat) : ∀ b ∈ Char.ofNat m :: bytes, 0x7F < b.toNat := by
  refine List.forall_mem_cons.mpr ⟨?_, h⟩
  rw [toNat_ofNat (by omega)]
  omega

/-- The bytes of a character beyond ASCII are beyond ASCII, and there is at
least one. -/
theorem codePointToUTF8_wide {n : Nat} (hn : 0x7F < n) (hle : n ≤ 0x10FFFF) :
    codePointToUTF8 n ≠ [] ∧ ∀ b ∈ codePointToUTF8 n, 0x7F < b.toNat := by
  have htail : ∀ k : Nat, 0x80 ≤ 0x80 + k % 64 ∧ 0x80 + k % 64 < 0x100 := by
    intro k
    omega
  have hnil : ∀ b ∈ ([] : Str), 0x7F < b.toNat := List.forall_mem_nil _
  have hlast := wide_cons (htail n).1 (htail n).2 hnil
  have hlast₂ := wide_cons (htail (n / 64)).1 (htail (n / 64)).2 hlast
  have hlast₃ := wide_cons (htail (n / 4096)).1 (htail (n / 4096)).2 hlast₂
  unfold codePointToUTF8
  rw [if_neg (by omega)]
  split_ifs
  · exact ⟨List.cons_ne_nil _ _, wide_cons (by omega) (by omega) hlast⟩
  · exact ⟨List.cons_ne_nil _ _, wide_cons (by omega) (by omega) hlast₂⟩
  · exact ⟨List.cons_ne_nil _ _, wide_cons (by omega) (by omega) hlast₃⟩

theorem toNat_lt (c : Char) : c.toNat < 0xD800 ∨ 0xDFFF < c.toNat ∧ c.toNat < 0x110000 := c.valid

theorem not_isHigh_toNat (c : Char) : ¬ IsHigh c.toNat := by
  have hvalid := toNat_lt c
  unfold IsHigh
  omega

theorem not_isLow_toNat (c : Char) : ¬ IsLow c.toNat := by
  have hvalid := toNat_lt c
  unfold IsLow
  omega

/-- The first byte is the character, or none that JSON knows. -/
theorem exists_head_utf8 (c : Char) (cs : List Char) :
    ∃ b rest, utf8 (c :: cs) = b :: rest ∧ (b = c ∨ 0x7F < b.toNat) ∧
      (c.toNat ≤ 0x7F → b = c ∧ rest = utf8 cs) := by
  by_cases hc : c.toNat ≤ 0x7F
  · exact ⟨c, utf8 cs, utf8_ascii hc cs, Or.inl rfl, fun _ => ⟨rfl, rfl⟩⟩
  · obtain ⟨hne, hwide⟩ := codePointToUTF8_wide (n := c.toNat) (by omega) (by
      have hvalid := toNat_lt c
      omega)
    obtain ⟨b, bs, hbytes⟩ := List.exists_cons_of_ne_nil hne
    refine ⟨b, bs ++ utf8 cs, by rw [utf8_cons, hbytes, List.cons_append], Or.inr ?_,
      fun h => absurd h hc⟩
    exact hwide b (by rw [hbytes]; exact List.mem_cons_self)

/-! ## Strings -/

/-- The text spells `decoded` up to its closing quote, and `rest` is behind
it. -/
def Spells (cs rest : List Char) (decoded : Str) : Prop :=
  ∃ body, StringBody body ∧ utf8 cs = body ++ '"' :: utf8 rest ∧ decodeChars body = some decoded

theorem spells_quote (rest : List Char) : Spells ('"' :: rest) rest [] :=
  ⟨[], .nil, utf8_ascii (by decide) rest, rfl⟩

theorem decodeChars_append {bytes : Str} (h : ∀ b ∈ bytes, b ≠ '"' ∧ b ≠ '\\') (cs : Str) :
    decodeChars (bytes ++ cs) = (decodeChars cs).map (bytes ++ ·) := by
  induction bytes with
  | nil => exact Option.map_id'.symm
  | cons b bytes ih =>
    obtain ⟨⟨hquote, hescape⟩, hbytes⟩ := List.forall_mem_cons.mp h
    rw [List.cons_append, decodeChars_char hquote hescape, ih hbytes, Option.map_map]
    rfl

theorem stringBody_append {bytes body : Str} (h : ∀ b ∈ bytes, b ≠ '"' ∧ b ≠ '\\')
    (hbody : StringBody body) : StringBody (bytes ++ body) := by
  induction bytes with
  | nil => exact hbody
  | cons b bytes ih =>
    obtain ⟨⟨hquote, hescape⟩, hbytes⟩ := List.forall_mem_cons.mp h
    exact .char hquote hescape (ih hbytes)

theorem spells_char {c : Char} (hquote : c ≠ '"') (hescape : c ≠ '\\') {cs rest : List Char}
    {decoded : Str} (h : Spells cs rest decoded) :
    Spells (c :: cs) rest (codePointToUTF8 c.toNat ++ decoded) := by
  obtain ⟨body, hbody, htext, hdecoded⟩ := h
  have hbytes : ∀ b ∈ codePointToUTF8 c.toNat, b ≠ '"' ∧ b ≠ '\\' := by
    by_cases hc : c.toNat ≤ 0x7F
    · rw [codePointToUTF8_ascii hc, List.forall_mem_singleton]
      exact ⟨hquote, hescape⟩
    · intro b hb
      have hvalid := toNat_lt c
      have hwide := (codePointToUTF8_wide (n := c.toNat) (by omega) (by omega)).2 b hb
      refine ⟨?_, ?_⟩ <;>
        · rintro rfl
          exact absurd hwide (by decide)
  refine ⟨_, stringBody_append hbytes hbody, ?_, ?_⟩
  · rw [utf8_cons, htext, List.append_assoc]
  · rw [decodeChars_append hbytes, hdecoded, Option.map_some]

theorem decodeChars_letter {e c : Char} (hu : e ≠ 'u') (he : simpleEscape e = some c) (cs : Str) :
    decodeChars ('\\' :: e :: cs) = (decodeChars cs).map (c :: ·) := by
  rw [decodeChars.eq_def]
  simp only [Char.reduceEq, if_false, ne_eq, not_true_eq_false, he]

theorem simpleEscape_of_escaped {e : Char} {n : Nat} (h : StrictJson.escaped e = some n) :
    e ≠ 'u' ∧ e.toNat ≤ 0x7F ∧ ∃ c, simpleEscape e = some c ∧ codePointToUTF8 n = [c] := by
  unfold StrictJson.escaped at h
  split at h
  case h_9 => cases h
  all_goals
    obtain rfl := Option.some.inj h
    exact ⟨by decide, by decide, _, rfl, rfl⟩

theorem spells_letter {e : Char} {n : Nat} (he : StrictJson.escaped e = some n)
    {cs rest : List Char} {decoded : Str} (h : Spells cs rest decoded) :
    Spells ('\\' :: e :: cs) rest (codePointToUTF8 n ++ decoded) := by
  obtain ⟨body, hbody, htext, hdecoded⟩ := h
  obtain ⟨hu, hascii, c, hc, hbyte⟩ := simpleEscape_of_escaped he
  refine ⟨_, .escape (d := e) hbody, ?_, ?_⟩
  · rw [utf8_ascii (by decide), utf8_ascii hascii, htext]
    rfl
  · rw [decodeChars_letter hu hc, hdecoded, hbyte]
    rfl

/-! ### Escapes by number -/

theorem hexDigit_char {c : Char} {n : Nat} (h : hexDigit c = some n) :
    c.toNat ≤ 0x7F ∧ c ≠ '"' ∧ c ≠ '\\' := by
  have hrange : c.toNat ≤ 0x66 ∧ c.toNat ≠ 0x22 ∧ c.toNat ≠ 0x5C := by
    unfold hexDigit at h
    split_ifs at h with hdigit hlower hupper
    · have hlow : 0x30 ≤ c.toNat := hdigit.1
      have hhigh : c.toNat ≤ 0x39 := hdigit.2
      omega
    · have hlow : 0x61 ≤ c.toNat := hlower.1
      have hhigh : c.toNat ≤ 0x66 := hlower.2
      omega
    · have hlow : 0x41 ≤ c.toNat := hupper.1
      have hhigh : c.toNat ≤ 0x46 := hupper.2
      omega
  refine ⟨by omega, ?_, ?_⟩
  · rintro rfl
    exact hrange.2.1 rfl
  · rintro rfl
    exact hrange.2.2 rfl

/-- Four hexadecimal digits. -/
def HexText (digits : List Char) (n : Nat) : Prop :=
  ∃ a b c d, digits = [a, b, c, d] ∧ decodeUnicodeEscapeSequence a b c d = some n

theorem HexText.chars {digits : List Char} {n : Nat} (h : HexText digits n) :
    ∀ c ∈ digits, c.toNat ≤ 0x7F ∧ c ≠ '"' ∧ c ≠ '\\' := by
  obtain ⟨a, b, c, d, rfl, hn⟩ := h
  unfold decodeUnicodeEscapeSequence at hn
  obtain ⟨x, ha, hn⟩ := Option.bind_eq_some_iff.mp hn
  obtain ⟨y, hb, hn⟩ := Option.bind_eq_some_iff.mp hn
  obtain ⟨z, hc, hn⟩ := Option.bind_eq_some_iff.mp hn
  obtain ⟨w, hd, hn⟩ := Option.bind_eq_some_iff.mp hn
  intro x hx
  simp only [List.mem_cons, List.not_mem_nil, or_false] at hx
  rcases hx with rfl | rfl | rfl | rfl
  exacts [hexDigit_char ha, hexDigit_char hb, hexDigit_char hc, hexDigit_char hd]

theorem utf8_append_ascii {cs : List Char} (h : ∀ c ∈ cs, c.toNat ≤ 0x7F) (rest : List Char) :
    utf8 (cs ++ rest) = cs ++ utf8 rest := by
  induction cs with
  | nil => rfl
  | cons c cs ih =>
    obtain ⟨hc, hcs⟩ := List.forall_mem_cons.mp h
    rw [List.cons_append, utf8_ascii hc, ih hcs, List.cons_append]

/-- An escape of this text keeps a body a body. -/
theorem HexText.body {digits : List Char} {n : Nat} (h : HexText digits n) {cs rest : List Char}
    {body : Str} (hbody : StringBody body) (htext : utf8 cs = body ++ '"' :: utf8 rest) :
    StringBody ('\\' :: 'u' :: (digits ++ body)) ∧
      utf8 ('\\' :: 'u' :: (digits ++ cs)) =
        '\\' :: 'u' :: (digits ++ body) ++ '"' :: utf8 rest := by
  constructor
  · exact .escape (stringBody_append (fun c hc => (h.chars c hc).2) hbody)
  · rw [utf8_ascii (by decide), utf8_ascii (by decide),
      utf8_append_ascii fun c hc => (h.chars c hc).1, htext]
    simp only [List.cons_append, List.append_assoc]

theorem spells_point {digits : List Char} {n : Nat} (hn : HexText digits n) (hhigh : ¬ IsHigh n)
    {cs rest : List Char} {decoded : Str} (h : Spells cs rest decoded) :
    Spells ('\\' :: 'u' :: (digits ++ cs)) rest (codePointToUTF8 n ++ decoded) := by
  obtain ⟨body, hbody, htext, hdecoded⟩ := h
  obtain ⟨hbody', htext'⟩ := hn.body hbody htext
  refine ⟨_, hbody', htext', ?_⟩
  obtain ⟨a, b, c, d, rfl, hn⟩ := hn
  show decodeChars ('\\' :: 'u' :: a :: b :: c :: d :: body) = _
  rw [decodeChars.eq_def]
  simp only [hn, hdecoded]
  exact if_neg hhigh

theorem spells_pair {digits digits' : List Char} {n m : Nat} (hn : HexText digits n)
    (hm : HexText digits' m) (hhigh : IsHigh n) (hlow : IsLow m) {cs rest : List Char}
    {decoded : Str} (h : Spells cs rest decoded) :
    Spells ('\\' :: 'u' :: (digits ++ '\\' :: 'u' :: (digits' ++ cs))) rest
      (codePointToUTF8 (pairPoint n m) ++ decoded) := by
  obtain ⟨body, hbody, htext, hdecoded⟩ := h
  obtain ⟨hbody₁, htext₁⟩ := hm.body hbody htext
  obtain ⟨hbody₂, htext₂⟩ := hn.body hbody₁ htext₁
  refine ⟨_, hbody₂, htext₂, ?_⟩
  have hpoint : 0x10000 + n % 0x400 * 0x400 + m % 0x400 = pairPoint n m := by
    unfold IsHigh at hhigh
    unfold IsLow at hlow
    unfold pairPoint
    omega
  obtain ⟨a, b, c, d, rfl, hn⟩ := hn
  obtain ⟨e, f, g, k, rfl, hm⟩ := hm
  show decodeChars ('\\' :: 'u' :: a :: b :: c :: d :: '\\' :: 'u' :: e :: f :: g :: k :: body) = _
  rw [decodeChars.eq_def]
  simp only [hn, hm, hdecoded]
  rw [← hpoint]
  exact if_pos hhigh

/-- What the first character of a string can be. -/
theorem chars_cases {cs rest : List Char} {points : List Nat}
    (h : chars cs = some (points, rest)) :
    (cs = '"' :: rest ∧ points = []) ∨
    (∃ c cs' ps, cs = c :: cs' ∧ c ≠ '"' ∧ c ≠ '\\' ∧ points = c.toNat :: ps ∧
      chars cs' = some (ps, rest)) ∨
    (∃ e cs' n ps, cs = '\\' :: e :: cs' ∧ StrictJson.escaped e = some n ∧ points = n :: ps ∧
      chars cs' = some (ps, rest)) ∨
    ∃ digits cs' n ps, cs = '\\' :: 'u' :: (digits ++ cs') ∧ HexText digits n ∧
      points = n :: ps ∧ chars cs' = some (ps, rest) := by
  fun_cases chars cs with
  | case1 => cases h
  | case2 cs =>
    rw [StrictJson.chars_quote] at h
    obtain ⟨rfl, rfl⟩ := Prod.mk.inj (Option.some.inj h)
    exact Or.inl ⟨rfl, rfl⟩
  | case3 => cases h
  | case4 a b c d cs hquote =>
    obtain ⟨n, hn, h⟩ := Option.bind_eq_some_iff.mp h
    obtain ⟨p, hp, h⟩ := Option.bind_eq_some_iff.mp h
    obtain ⟨rfl, rfl⟩ := Prod.mk.inj (Option.some.inj h)
    exact Or.inr (Or.inr (Or.inr
      ⟨[a, b, c, d], cs, n, p.1, rfl, ⟨a, b, c, d, rfl, hn⟩, rfl, hp⟩))
  | case5 cs hshort hquote =>
    rw [chars, if_neg hquote, if_pos rfl] at h
    · cases h
    · exact hshort
  | case6 e cs hu hquote =>
    rw [chars, if_neg hquote, if_pos rfl] at h
    · obtain ⟨n, hn, h⟩ := Option.bind_eq_some_iff.mp h
      obtain ⟨p, hp, h⟩ := Option.bind_eq_some_iff.mp h
      obtain ⟨rfl, rfl⟩ := Prod.mk.inj (Option.some.inj h)
      exact Or.inr (Or.inr (Or.inl ⟨e, cs, n, p.1, rfl, hn, rfl, hp⟩))
    · exact hu
  | case7 c cs hquote hescape hcontrol =>
    rw [StrictJson.chars_control hcontrol] at h
    cases h
  | case8 c cs hquote hescape hcontrol =>
    rw [StrictJson.chars_char hquote hescape hcontrol] at h
    obtain ⟨p, hp, h⟩ := Option.map_eq_some_iff.mp h
    obtain ⟨rfl, rfl⟩ := Prod.mk.inj h
    exact Or.inr (Or.inl ⟨c, cs, p.1, rfl, hquote, hescape, rfl, hp⟩)

theorem escaped_lt {e : Char} {n : Nat} (h : StrictJson.escaped e = some n) :
    n < 0x80 := by
  unfold StrictJson.escaped at h
  split at h
  case h_9 => cases h
  all_goals
    obtain rfl := Option.some.inj h
    decide

/-- A low surrogate is spelled by its number. -/
theorem exists_hex_of_isLow {cs rest : List Char} {n : Nat} {ps : List Nat}
    (h : chars cs = some (n :: ps, rest)) (hlow : IsLow n) :
    ∃ digits cs', cs = '\\' :: 'u' :: (digits ++ cs') ∧ HexText digits n ∧
      chars cs' = some (ps, rest) := by
  rcases chars_cases h with ⟨-, h⟩ | ⟨c, cs', ps', rfl, -, -, h, -⟩ |
    ⟨e, cs', n', ps', rfl, he, h, -⟩ | ⟨digits, cs', n', ps', rfl, hn, h, hrest⟩
  · cases h
  · obtain ⟨rfl, -⟩ := List.cons.inj h
    exact absurd hlow (not_isLow_toNat c)
  · obtain ⟨rfl, -⟩ := List.cons.inj h
    have hlt := escaped_lt he
    unfold IsLow at hlow
    omega
  · obtain ⟨rfl, rfl⟩ := List.cons.inj h
    exact ⟨digits, cs', rfl, hn, hrest⟩

/-- The reader decodes every string of JSON. -/
theorem spells_of_chars {cs rest : List Char} {points joined : List Nat}
    (h : chars cs = some (points, rest)) (hjoined : joinSurrogates points = some joined) :
    Spells cs rest (utf8Points joined) := by
  induction hlen : cs.length using Nat.strong_induction_on generalizing cs points joined with
  | _ len ih =>
    subst hlen
    have hsimple : ∀ {n : Nat} {ps : List Nat}, ¬ IsHigh n → points = n :: ps →
        ∃ joined', joinSurrogates ps = some joined' ∧ joined = n :: joined' := by
      rintro n ps hn rfl
      rw [StrictJson.joinSurrogates_of_not_high hn] at hjoined
      obtain ⟨joined', hjoined', rfl⟩ := Option.map_eq_some_iff.mp hjoined
      exact ⟨joined', hjoined', rfl⟩
    rcases chars_cases h with ⟨rfl, rfl⟩ | ⟨c, cs', ps, rfl, hquote, hescape, hpoints, hrest⟩ |
      ⟨e, cs', n, ps, rfl, he, hpoints, hrest⟩ | ⟨digits, cs', n, ps, rfl, hn, hpoints, hrest⟩
    · obtain rfl := Option.some.inj hjoined
      exact spells_quote rest
    · obtain ⟨joined', hjoined', rfl⟩ := hsimple (not_isHigh_toNat c) hpoints
      exact spells_char hquote hescape (ih _ (by simp) hrest hjoined' rfl)
    · have hhigh : ¬ IsHigh n := by
        have hlt := escaped_lt he
        unfold IsHigh
        omega
      obtain ⟨joined', hjoined', rfl⟩ := hsimple hhigh hpoints
      refine spells_letter he (ih _ ?_ hrest hjoined' rfl)
      simp only [List.length_cons]
      omega
    · by_cases hhigh : IsHigh n
      · subst hpoints
        obtain ⟨m, ps', joined', rfl, hlow, hjoined', rfl⟩ :=
          StrictJson.exists_low_of_joinSurrogates hhigh hjoined
        obtain ⟨digits', cs'', rfl, hm, hrest'⟩ := exists_hex_of_isLow hrest hlow
        refine spells_pair hn hm hhigh hlow (ih _ ?_ hrest' hjoined' rfl)
        simp only [List.length_cons, List.length_append]
        omega
      · obtain ⟨joined', hjoined', rfl⟩ := hsimple hhigh hpoints
        refine spells_point hn hhigh (ih _ ?_ hrest hjoined' rfl)
        simp only [List.length_cons, List.length_append]
        omega

end MinorityViewport.Json.Reader
