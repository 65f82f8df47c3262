import Mathlib.Data.Bool.AllAny
import MinorityViewport.Json.StrictNumbers
import MinorityViewport.Json.Machine
import MinorityViewport.Json.StrictStrings
import MinorityViewport.Json.Provenance

/-!
# Strict JSON is read

`Means` says which values a document means.  A number text means
`numberValue` of its parts, which is an integer while it fits and converts to
the number that the text denotes.  A member whose name comes again replaces
the earlier one, and a name ends at a zero character, because the names are C
strings.

`Faithful` follows the grammar with the reader, one constructor at a time.
`parse_utf8` and `read_utf8` are the result: the reader takes the bytes of
every JSON text for a value that the text means, if the surrogates of its
strings come in pairs and the text keeps to the limits of the machine.
-/

namespace MinorityViewport.Json.Reader

open Value
open StrictJson (Doc Numeral joinSurrogates skipWs chars PairedElements PairedMembers)

/-! ## Meaning -/

mutual

def Means : Doc → Value → Prop
  | .null, v => v = .null
  | .bool b, v => v = .boolean b
  | .number text, v =>
    ∃ n : Numeral, n.print = text ∧ v = numberValue n ∧ v.asDouble = .ok n.value
  | .string points, v =>
    ∃ joined, joinSurrogates points = some joined ∧ v = .string (utf8Points joined)
  | .array docs, v => ∃ vs, MeanElements docs vs ∧ v = .array vs
  | .object ms, v =>
    ∃ entries fields, MeanMembers ms entries ∧ v = .object fields ∧
      (fields.map Prod.fst).Nodup ∧
      -- the last of the members that share a name
      ∀ key, findMember key fields = findMember key entries.reverse

def MeanElements : List Doc → List Value → Prop
  | [], vs => vs = []
  | doc :: docs, vs => ∃ v vs', Means doc v ∧ MeanElements docs vs' ∧ vs = v :: vs'

def MeanMembers : List (List Nat × Doc) → List (Str × Value) → Prop
  | [], entries => entries = []
  | (name, doc) :: ms, entries =>
    ∃ joined v entries', joinSurrogates name = some joined ∧ Means doc v ∧
      MeanMembers ms entries' ∧ entries = (cStr (utf8Points joined), v) :: entries'

end

/-! ## Members -/

theorem findMember_setMember (key name : Str) (v : Value) (members : List (Str × Value)) :
    findMember key (setMember name v members) =
      if name = key then some v else findMember key members := by
  induction members with
  | nil => rfl
  | cons m members ih =>
    obtain ⟨name', old⟩ := m
    rw [setMember]
    split_ifs with hname hkey hkey
    · rw [findMember, if_pos (hname.trans hkey)]
    · rw [findMember, if_neg (hname ▸ hkey), findMember, if_neg (hname ▸ hkey)]
    · rw [findMember, if_neg (hkey ▸ hname), ih, if_pos hkey]
    · rw [findMember, findMember, ih, if_neg hkey]

theorem fst_setMember (name : Str) (v : Value) (members : List (Str × Value)) :
    (setMember name v members).map Prod.fst =
      if name ∈ members.map Prod.fst then members.map Prod.fst
      else members.map Prod.fst ++ [name] := by
  induction members with
  | nil => rfl
  | cons m members ih =>
    obtain ⟨name', old⟩ := m
    rw [setMember]
    by_cases hname : name' = name
    · rw [if_pos hname, if_pos (by rw [List.map_cons, hname]; exact List.mem_cons_self)]
      rfl
    · rw [if_neg hname, List.map_cons, ih, List.map_cons]
      by_cases hmem : name ∈ members.map Prod.fst
      · rw [if_pos hmem, if_pos (List.mem_cons_of_mem _ hmem)]
      · rw [if_neg hmem, if_neg fun h => (List.mem_cons.mp h).elim (fun h => hname h.symm) hmem,
          List.cons_append]

/-- The members that are read so far, and the map that they have become. -/
structure Holds (entries fields : List (Str × Value)) : Prop where
  nodup : (fields.map Prod.fst).Nodup
  find : ∀ key, findMember key fields = findMember key entries.reverse

theorem holds_nil : Holds [] [] := ⟨List.nodup_nil, fun _ => rfl⟩

theorem Holds.setMember {entries fields : List (Str × Value)} (h : Holds entries fields)
    (name : Str) (v : Value) : Holds (entries ++ [(name, v)]) (setMember name v fields) where
  nodup := by
    rw [fst_setMember]
    split_ifs with hmem
    · exact h.nodup
    · exact List.nodup_append.mpr ⟨h.nodup, List.pairwise_singleton _ name, fun a ha b hb hab =>
        hmem (List.mem_singleton.mp hb ▸ hab ▸ ha)⟩
  find key := by
    rw [findMember_setMember, List.reverse_append, List.reverse_singleton, List.singleton_append,
      findMember, h.find]

/-! ## Spaces and ends -/

theorem skipSpaces_utf8 (cs : List Char) : skipSpaces (utf8 cs) = utf8 (skipWs cs) := by
  induction cs with
  | nil => rfl
  | cons c cs ih =>
    by_cases hc : c = ' ' ∨ c = '\t' ∨ c = '\r' ∨ c = '\n'
    · have hascii : c.toNat ≤ 0x7F := by
        rcases hc with rfl | rfl | rfl | rfl <;> decide
      have hskip : skipWs (c :: cs) = skipWs cs := by
        rcases hc with rfl | rfl | rfl | rfl <;> rfl
      have hskip' : skipSpaces (c :: utf8 cs) = skipSpaces (utf8 cs) := by
        rcases hc with rfl | rfl | rfl | rfl <;> rfl
      rw [utf8_ascii hascii, hskip', ih, hskip]
    · have hskip : skipWs (c :: cs) = c :: cs :=
        List.dropWhile_cons_of_neg (by
          simp only [Bool.or_eq_true, decide_eq_true_eq]
          tauto)
      obtain ⟨b, bs, hbytes, hb, -⟩ := exists_head_utf8 c cs
      rw [hskip, hbytes]
      refine skipSpaces_of_head ?_ bs
      rcases hb with rfl | hwide
      · exact hc
      · rintro (rfl | rfl | rfl | rfl) <;> exact absurd hwide (by decide)

theorem readToken_utf8 (cs : List Char) : readToken (utf8 cs) = readToken (utf8 (skipWs cs)) := by
  rw [← skipSpaces_utf8, readToken_skipSpaces]

/-- Behind a value there are spaces, or what goes on with the array or the
object around it. -/
theorem delimited_utf8 {cs : List Char}
    (h : ∀ c ∈ (skipWs cs).head?, c = ',' ∨ c = ']' ∨ c = '}') : Delimited (utf8 cs) := by
  cases cs with
  | nil => rintro c ⟨⟩
  | cons c cs =>
    have hc : c = ' ' ∨ c = '\t' ∨ c = '\r' ∨ c = '\n' ∨ c = ',' ∨ c = ']' ∨ c = '}' := by
      by_cases hspace : c = ' ' ∨ c = '\t' ∨ c = '\n' ∨ c = '\r'
      · tauto
      · have hskip : skipWs (c :: cs) = c :: cs :=
          List.dropWhile_cons_of_neg (by
            simp only [Bool.or_eq_true, decide_eq_true_eq]
            tauto)
        have hend := h c (by rw [hskip]; rfl)
        tauto
    have hascii : c.toNat ≤ 0x7F := by
      rcases hc with rfl | rfl | rfl | rfl | rfl | rfl | rfl <;> decide
    rw [utf8_ascii hascii]
    rintro d ⟨⟩
    rcases hc with rfl | rfl | rfl | rfl | rfl | rfl | rfl <;> decide

/-! ## Leaves -/

/-- With fuel enough, the reader takes a value and leaves `rest`. -/
def ReadsAs (cs : Str) (v : Value) (rest : Str) : Prop :=
  ∃ enough, ∀ fuel ≥ enough, readValue fuel cs = some (v, rest)

theorem readsAs_of_succ {cs rest : Str} {v : Value}
    (h : ∀ fuel, readValue (fuel + 1) cs = some (v, rest)) : ReadsAs cs v rest := by
  refine ⟨1, fun fuel hfuel => ?_⟩
  obtain ⟨fuel, rfl⟩ : ∃ f, fuel = f + 1 := ⟨fuel - 1, by omega⟩
  exact h fuel

theorem readToken_word {c : Char} {word : Str} {type : TokenType} {cs rest : List Char}
    (hcs : skipWs cs = c :: word ++ rest) (hascii : ∀ d ∈ c :: word, d.toNat ≤ 0x7F)
    (hc : ¬ (c = ' ' ∨ c = '\t' ∨ c = '\r' ∨ c = '\n'))
    (hscan : scanToken c (word ++ utf8 rest) = (type, utf8 rest)) :
    readToken (utf8 cs) = (⟨type, c :: word⟩, utf8 rest) := by
  rw [readToken_utf8, hcs, utf8_append_ascii hascii]
  exact readToken_of_scan hc word hscan

theorem readToken_name {cs body rest : List Char} {decoded : Str} (hcs : skipWs cs = '"' :: body)
    (h : Spells body rest decoded) :
    ∃ text, readToken (utf8 cs) = (⟨.string, '"' :: text ++ ['"']⟩, utf8 rest) ∧
      decodeChars text = some decoded := by
  obtain ⟨text, htext, hbody, hdecoded⟩ := h
  refine ⟨text, ?_, hdecoded⟩
  rw [readToken_utf8, hcs, utf8_ascii (by decide), hbody]
  exact readToken_string htext _

theorem readsAs_string {cs body rest : List Char} {decoded : Str}
    (hcs : skipWs cs = '"' :: body) (h : Spells body rest decoded) :
    ReadsAs (utf8 cs) (.string decoded) (utf8 rest) := by
  obtain ⟨text, htoken, hdecoded⟩ := readToken_name hcs h
  refine readsAs_of_succ fun fuel => ?_
  rw [readValue, skipCommentTokens_of_type htoken (by simp)]
  simp only [decodeString_token, hdecoded, Option.map_some]

theorem readsAs_true {cs rest : List Char} (hcs : skipWs cs = 't' :: 'r' :: 'u' :: 'e' :: rest) :
    ReadsAs (utf8 cs) (.boolean true) (utf8 rest) := by
  have htoken : readToken (utf8 cs) = (⟨.true, 't' :: "rue".toList⟩, utf8 rest) :=
    readToken_word hcs (List.all_iff_forall_prop.mp rfl) (by decide) rfl
  refine readsAs_of_succ fun fuel => ?_
  rw [readValue, skipCommentTokens_of_type htoken (by simp)]

theorem readsAs_false {cs rest : List Char}
    (hcs : skipWs cs = 'f' :: 'a' :: 'l' :: 's' :: 'e' :: rest) :
    ReadsAs (utf8 cs) (.boolean false) (utf8 rest) := by
  have htoken : readToken (utf8 cs) = (⟨.false, 'f' :: "alse".toList⟩, utf8 rest) :=
    readToken_word hcs (List.all_iff_forall_prop.mp rfl) (by decide) rfl
  refine readsAs_of_succ fun fuel => ?_
  rw [readValue, skipCommentTokens_of_type htoken (by simp)]

theorem readsAs_null {cs rest : List Char} (hcs : skipWs cs = 'n' :: 'u' :: 'l' :: 'l' :: rest) :
    ReadsAs (utf8 cs) .null (utf8 rest) := by
  have htoken : readToken (utf8 cs) = (⟨.null, 'n' :: "ull".toList⟩, utf8 rest) :=
    readToken_word hcs (List.all_iff_forall_prop.mp rfl) (by decide) rfl
  refine readsAs_of_succ fun fuel => ?_
  rw [readValue, skipCommentTokens_of_type htoken (by simp)]

theorem ascii_of_isNumberChar {c : Char} (h : isNumberChar c) : c.toNat ≤ 0x7F := by
  unfold isNumberChar at h
  simp only [Bool.or_eq_true, decide_eq_true_eq] at h
  rcases h with ((((h | rfl) | rfl) | rfl) | rfl) | rfl
  · exact (Char.isDigit_iff_toNat.mp h).2.trans (by decide)
  all_goals decide

theorem exists_head_print (n : Numeral) :
    ∃ c tail, n.print = c :: tail ∧ (c.isDigit ∨ c = '-') := by
  obtain ⟨d, ds, hwhole⟩ := List.exists_cons_of_ne_nil n.whole_ne_nil
  cases hsign : n.negative with
  | true =>
    rw [Numeral.print, hsign]
    exact ⟨'-', _, rfl, Or.inr rfl⟩
  | false =>
    rw [Numeral.print, hsign, hwhole]
    exact ⟨d, _, rfl, Or.inl (n.isDigit_whole d (by rw [hwhole]; exact List.mem_cons_self))⟩

theorem readsAs_number {cs text rest : List Char}
    (hcs : StrictJson.number (skipWs cs) = some (text, rest)) (hrest : Delimited (utf8 rest)) :
    ∃ v, Means (.number text) v ∧ ReadsAs (utf8 cs) v (utf8 rest) := by
  obtain ⟨n, rfl⟩ := StrictJson.exists_numeral hcs
  obtain ⟨c, tail, hprint, hc⟩ := exists_head_print n
  have hread := decodeNumber_print n
  have hchars : ∀ d ∈ n.print, isNumberChar d := fun d => isNumberChar_of_mem_print
  have htext := StrictJson.append_of_number hcs
  have htoken : readToken (utf8 cs) = (⟨.number, n.print⟩, utf8 rest) := by
    rw [readToken_utf8, ← htext, utf8_append_ascii fun d hd => ascii_of_isNumberChar (hchars d hd)]
    rw [hprint] at hchars ⊢
    exact readToken_number hc (fun d hd => hchars d (List.mem_cons_of_mem _ hd)) hrest
  refine ⟨numberValue n, ⟨n, rfl, rfl, asDouble_numberValue n⟩, readsAs_of_succ fun fuel => ?_⟩
  rw [readValue, skipCommentTokens_of_type htoken (by simp)]
  simp only [hread, Option.map_some]

/-! ## Arrays and objects -/

/-- A token of one character, behind spaces or not. -/
theorem readToken_mark {c : Char} {cs rest : List Char} (type : TokenType)
    (hcs : skipWs cs = c :: rest) (hascii : c.toNat ≤ 0x7F)
    (hc : ¬ (c = ' ' ∨ c = '\t' ∨ c = '\r' ∨ c = '\n'))
    (hscan : scanToken c (utf8 rest) = (type, utf8 rest)) :
    readToken (utf8 cs) = (⟨type, [c]⟩, utf8 rest) :=
  @readToken_word c [] type cs rest hcs (List.forall_mem_singleton.mpr hascii) hc hscan

theorem head?_skipSpaces_utf8 (cs : List Char) :
    (skipSpaces (utf8 cs)).head? = some ']' ↔ (skipWs cs).head? = some ']' := by
  rw [skipSpaces_utf8]
  cases skipWs cs with
  | nil => exact Iff.rfl
  | cons c cs =>
    obtain ⟨b, bs, hbytes, hb, hascii⟩ := exists_head_utf8 c cs
    rw [hbytes]
    simp only [List.head?_cons, Option.some.injEq]
    constructor
    · rintro rfl
      rcases hb with rfl | hwide
      · rfl
      · exact absurd hwide (by decide)
    · rintro rfl
      exact (hascii (by decide)).1

section

variable {f : Nat} {cs rest more : Str} {v : Value}

theorem readArray_more (hread : readValue f cs = some (v, rest))
    (hcomma : readToken rest = (⟨.arraySeparator, [',']⟩, more)) (acc : List Value) :
    readArray (f + 1) acc cs = readArray f (acc ++ [v]) more := by
  rw [readArray, hread]
  dsimp only
  rw [skipCommentTokens_of_type hcomma (by simp)]
  exact if_neg (by simp)

theorem readArray_last (hread : readValue f cs = some (v, rest))
    (hclose : readToken rest = (⟨.arrayEnd, [']']⟩, more)) (acc : List Value) :
    readArray (f + 1) acc cs = some (.array (acc ++ [v]), more) := by
  rw [readArray, hread]
  dsimp only
  rw [skipCommentTokens_of_type hclose (by simp)]
  exact if_pos rfl

variable {body name : Str} {behind behindColon : Str}
  (hname : readToken cs = (⟨.string, '"' :: body ++ ['"']⟩, behind))
  (hdecoded : decodeChars body = some name)
  (hcolon : readToken behind = (⟨.memberSeparator, [':']⟩, behindColon))
  (hread : readValue f behindColon = some (v, rest))

include hname hdecoded hcolon hread

theorem readObject_more (hcomma : readToken rest = (⟨.arraySeparator, [',']⟩, more)) (last : Str)
    (fields : List (Str × Value)) :
    readObject (f + 1) last fields cs =
      readObject f name (setMember (cStr name) v fields) more := by
  rw [readObject, skipCommentTokens_of_type hname (by simp)]
  simp only [decodeString_token, hdecoded, hcolon, hread, hcomma,
    skipCommentTokens_of_type hcomma (by simp)]
  simp

theorem readObject_last (hclose : readToken rest = (⟨.objectEnd, ['}']⟩, more)) (last : Str)
    (fields : List (Str × Value)) :
    readObject (f + 1) last fields cs =
      some (.object (setMember (cStr name) v fields), more) := by
  rw [readObject, skipCommentTokens_of_type hname (by simp)]
  simp only [decodeString_token, hdecoded, hcolon, hread, hclose,
    skipCommentTokens_of_type hclose (by simp)]
  simp

end

/-- What the reader makes of what the grammar takes. -/
structure Faithful (fuel : Nat) : Prop where
  value : ∀ cs doc rest, StrictJson.value fuel (skipWs cs) = some (doc, rest) →
    Delimited (utf8 rest) → doc.Paired → ∃ v, Means doc v ∧ ReadsAs (utf8 cs) v (utf8 rest)
  elements : ∀ before cs doc rest,
    StrictJson.elements fuel before (skipWs cs) = some (doc, rest) →
    ∃ docs, doc = .array (before ++ docs) ∧ (PairedElements docs → ∃ vs, MeanElements docs vs ∧
      ∃ enough, ∀ acc, ∀ fuel ≥ enough,
        readArray fuel acc (utf8 cs) = some (.array (acc ++ vs), utf8 rest))
  members : ∀ before cs doc rest,
    StrictJson.members fuel before (skipWs cs) = some (doc, rest) →
    ∃ ms, doc = .object (before ++ ms) ∧ (PairedMembers ms → ∃ entries, MeanMembers ms entries ∧
      ∃ enough, ∀ name done fields, Holds done fields → ∃ fields', Holds (done ++ entries) fields' ∧
        ∀ fuel ≥ enough, readObject fuel name fields (utf8 cs) = some (.object fields', utf8 rest))

theorem Faithful.elements_succ {fuel : Nat} (hfaithful : Faithful fuel) {before : List Doc}
    {cs rest : List Char} {doc : Doc}
    (h : StrictJson.elements (fuel + 1) before (skipWs cs) = some (doc, rest)) :
    ∃ docs, doc = .array (before ++ docs) ∧ (PairedElements docs → ∃ vs, MeanElements docs vs ∧
      ∃ enough, ∀ acc, ∀ fuel ≥ enough,
        readArray fuel acc (utf8 cs) = some (.array (acc ++ vs), utf8 rest)) := by
  unfold StrictJson.elements at h
  split at h
  · cases h
  next first behind hfirst =>
  split at h
  · next more hcomma =>
    have hdelimited : Delimited (utf8 behind) := by
      refine delimited_utf8 ?_
      rw [hcomma]
      rintro c ⟨⟩
      exact Or.inl rfl
    obtain ⟨docs, rfl, hdocs⟩ := hfaithful.elements _ _ _ _ h
    refine ⟨first :: docs, by rw [List.append_assoc]; rfl, ?_⟩
    rintro ⟨hpaired, hrest⟩
    obtain ⟨v, hv, enough₁, hread₁⟩ := hfaithful.value _ _ _ hfirst hdelimited hpaired
    obtain ⟨vs, hvs, enough₂, hread₂⟩ := hdocs hrest
    refine ⟨v :: vs, ⟨v, vs, hv, hvs, rfl⟩, max enough₁ enough₂ + 1, fun acc f hf => ?_⟩
    obtain ⟨f, rfl⟩ : ∃ g, f = g + 1 := ⟨f - 1, by omega⟩
    have htoken := readToken_mark .arraySeparator hcomma (by decide) (by decide) rfl
    rw [readArray_more (hread₁ f (by omega)) htoken, hread₂ (acc ++ [v]) f (by omega),
      List.append_assoc]
    rfl
  · next hclose =>
    obtain ⟨rfl, rfl⟩ := Prod.mk.inj (Option.some.inj h)
    have hdelimited : Delimited (utf8 behind) := by
      refine delimited_utf8 ?_
      rw [hclose]
      rintro c ⟨⟩
      exact Or.inr (Or.inl rfl)
    refine ⟨[first], rfl, ?_⟩
    rintro ⟨hpaired, -⟩
    obtain ⟨v, hv, enough, hread⟩ := hfaithful.value _ _ _ hfirst hdelimited hpaired
    refine ⟨[v], ⟨v, [], hv, rfl, rfl⟩, enough + 1, fun acc f hf => ?_⟩
    obtain ⟨f, rfl⟩ : ∃ g, f = g + 1 := ⟨f - 1, by omega⟩
    have htoken := readToken_mark .arrayEnd hclose (by decide) (by decide) rfl
    exact readArray_last (hread f (by omega)) htoken acc
  · cases h

theorem Faithful.members_succ {fuel : Nat} (hfaithful : Faithful fuel)
    {before : List (List Nat × Doc)} {cs rest : List Char} {doc : Doc}
    (h : StrictJson.members (fuel + 1) before (skipWs cs) = some (doc, rest)) :
    ∃ ms, doc = .object (before ++ ms) ∧ (PairedMembers ms → ∃ entries, MeanMembers ms entries ∧
      ∃ enough, ∀ name done fields, Holds done fields → ∃ fields', Holds (done ++ entries) fields' ∧
        ∀ fuel ≥ enough,
          readObject fuel name fields (utf8 cs) = some (.object fields', utf8 rest)) := by
  unfold StrictJson.members at h
  split at h
  · next body hcs =>
    split at h
    · cases h
    next points behind hchars =>
    split at h
    · next behindColon hcolon =>
      split at h
      · cases h
      next first behindValue hfirst =>
      have hcolonToken :=
        readToken_mark .memberSeparator hcolon (by decide) (by decide) rfl
      split at h
      · next more hcomma =>
        have hdelimited : Delimited (utf8 behindValue) := by
          refine delimited_utf8 ?_
          rw [hcomma]
          rintro c ⟨⟩
          exact Or.inl rfl
        obtain ⟨ms, rfl, hms⟩ := hfaithful.members _ _ _ _ h
        refine ⟨(points, first) :: ms, by rw [List.append_assoc]; rfl, ?_⟩
        rintro ⟨hname, hpaired, hrest⟩
        obtain ⟨joined, hjoined⟩ := Option.ne_none_iff_exists'.mp hname
        obtain ⟨v, hv, enough₁, hread₁⟩ := hfaithful.value _ _ _ hfirst hdelimited hpaired
        obtain ⟨entries, hentries, enough₂, hread₂⟩ := hms hrest
        obtain ⟨text, hnameToken, hdecoded⟩ := readToken_name hcs (spells_of_chars hchars hjoined)
        have hcommaToken :=
          readToken_mark .arraySeparator hcomma (by decide) (by decide) rfl
        refine ⟨_, ⟨joined, v, entries, hjoined, hv, hentries, rfl⟩, max enough₁ enough₂ + 1, ?_⟩
        intro last done fields hholds
        obtain ⟨fields', hholds', hread'⟩ :=
          hread₂ (utf8Points joined) _ _ (hholds.setMember (cStr (utf8Points joined)) v)
        refine ⟨fields', by rwa [List.append_assoc] at hholds', fun f hf => ?_⟩
        obtain ⟨f, rfl⟩ : ∃ g, f = g + 1 := ⟨f - 1, by omega⟩
        rw [readObject_more hnameToken hdecoded hcolonToken (hread₁ f (by omega)) hcommaToken]
        exact hread' f (by omega)
      · next hclose =>
        obtain ⟨rfl, rfl⟩ := Prod.mk.inj (Option.some.inj h)
        have hdelimited : Delimited (utf8 behindValue) := by
          refine delimited_utf8 ?_
          rw [hclose]
          rintro c ⟨⟩
          exact Or.inr (Or.inr rfl)
        refine ⟨[(points, first)], rfl, ?_⟩
        rintro ⟨hname, hpaired, -⟩
        obtain ⟨joined, hjoined⟩ := Option.ne_none_iff_exists'.mp hname
        obtain ⟨v, hv, enough, hread⟩ := hfaithful.value _ _ _ hfirst hdelimited hpaired
        obtain ⟨text, hnameToken, hdecoded⟩ := readToken_name hcs (spells_of_chars hchars hjoined)
        have hcloseToken := readToken_mark .objectEnd hclose (by decide) (by decide) rfl
        refine ⟨_, ⟨joined, v, [], hjoined, hv, rfl, rfl⟩, enough + 1, ?_⟩
        intro last done fields hholds
        refine ⟨_, hholds.setMember (cStr (utf8Points joined)) v, fun f hf => ?_⟩
        obtain ⟨f, rfl⟩ : ∃ g, f = g + 1 := ⟨f - 1, by omega⟩
        exact readObject_last hnameToken hdecoded hcolonToken (hread f (by omega)) hcloseToken
          last fields
      · cases h
    · cases h
  · cases h

theorem Faithful.value_succ {fuel : Nat} (hfaithful : Faithful fuel) {cs rest : List Char}
    {doc : Doc} (h : StrictJson.value (fuel + 1) (skipWs cs) = some (doc, rest))
    (hrest : Delimited (utf8 rest)) (hpaired : doc.Paired) :
    ∃ v, Means doc v ∧ ReadsAs (utf8 cs) v (utf8 rest) := by
  unfold StrictJson.value at h
  split at h
  · next body hcs =>
    obtain ⟨p, hp, h⟩ := Option.map_eq_some_iff.mp h
    obtain ⟨rfl, rfl⟩ := Prod.mk.inj h
    obtain ⟨joined, hjoined⟩ := Option.ne_none_iff_exists'.mp hpaired
    exact ⟨_, ⟨joined, hjoined, rfl⟩, readsAs_string hcs (spells_of_chars hp hjoined)⟩
  · next body hcs =>
    have hopen := readToken_mark .arrayBegin hcs (by decide) (by decide) rfl
    split at h
    · next hempty =>
      obtain ⟨rfl, rfl⟩ := Prod.mk.inj (Option.some.inj h)
      have hclose := readToken_mark .arrayEnd hempty (by decide) (by decide) rfl
      refine ⟨_, ⟨[], rfl, rfl⟩, readsAs_of_succ fun fuel => ?_⟩
      rw [readValue, skipCommentTokens_of_type hopen (by simp)]
      dsimp only
      rw [if_pos ((head?_skipSpaces_utf8 body).mpr (by rw [hempty]; rfl)), hclose]
    · next hnonempty =>
      obtain ⟨docs, rfl, hdocs⟩ := hfaithful.elements _ _ _ _ h
      obtain ⟨vs, hvs, enough, hread⟩ := hdocs hpaired
      refine ⟨_, ⟨vs, hvs, rfl⟩, enough + 1, fun f hf => ?_⟩
      obtain ⟨f, rfl⟩ : ∃ g, f = g + 1 := ⟨f - 1, by omega⟩
      have hhead : (skipSpaces (utf8 body)).head? ≠ some ']' := by
        rw [Ne, head?_skipSpaces_utf8]
        intro hhead
        cases hbody : skipWs body with
        | nil =>
          rw [hbody] at hhead
          cases hhead
        | cons c tail =>
          rw [hbody] at hhead
          exact hnonempty tail (by rw [hbody, Option.some.inj hhead])
      rw [readValue, skipCommentTokens_of_type hopen (by simp)]
      dsimp only
      rw [if_neg hhead]
      exact hread [] f (by omega)
  · next body hcs =>
    have hopen := readToken_mark .objectBegin hcs (by decide) (by decide) rfl
    split at h
    · next hempty =>
      obtain ⟨rfl, rfl⟩ := Prod.mk.inj (Option.some.inj h)
      have hclose := readToken_mark .objectEnd hempty (by decide) (by decide) rfl
      refine ⟨_, ⟨[], [], rfl, rfl, holds_nil.nodup, holds_nil.find⟩, 2, fun f hf => ?_⟩
      obtain ⟨f, rfl⟩ : ∃ g, f = g + 2 := ⟨f - 2, by omega⟩
      rw [readValue, skipCommentTokens_of_type hopen (by simp)]
      dsimp only
      rw [readObject, skipCommentTokens_of_type hclose (by simp)]
      exact if_pos ⟨rfl, rfl⟩
    · obtain ⟨ms, rfl, hms⟩ := hfaithful.members _ _ _ _ h
      obtain ⟨entries, hentries, enough, hread⟩ := hms hpaired
      obtain ⟨fields, hholds, hread⟩ := hread [] [] [] holds_nil
      refine ⟨_, ⟨entries, fields, hentries, rfl, hholds.nodup, hholds.find⟩, enough + 1,
        fun f hf => ?_⟩
      obtain ⟨f, rfl⟩ : ∃ g, f = g + 1 := ⟨f - 1, by omega⟩
      rw [readValue, skipCommentTokens_of_type hopen (by simp)]
      exact hread f (by omega)
  · next hcs =>
    obtain ⟨rfl, rfl⟩ := Prod.mk.inj (Option.some.inj h)
    exact ⟨_, rfl, readsAs_true hcs⟩
  · next hcs =>
    obtain ⟨rfl, rfl⟩ := Prod.mk.inj (Option.some.inj h)
    exact ⟨_, rfl, readsAs_false hcs⟩
  · next hcs =>
    obtain ⟨rfl, rfl⟩ := Prod.mk.inj (Option.some.inj h)
    exact ⟨_, rfl, readsAs_null hcs⟩
  · obtain ⟨p, hp, h⟩ := Option.map_eq_some_iff.mp h
    obtain ⟨rfl, rfl⟩ := Prod.mk.inj h
    exact readsAs_number hp hrest

theorem faithful (fuel : Nat) : Faithful fuel := by
  induction fuel with
  | zero =>
    refine ⟨fun cs doc rest h => ?_, fun before cs doc rest h => ?_,
      fun before cs doc rest h => ?_⟩
    · unfold StrictJson.value at h
      cases h
    · unfold StrictJson.elements at h
      cases h
    · unfold StrictJson.members at h
      cases h
  | succ fuel ih =>
    exact ⟨fun _ _ _ => ih.value_succ, fun _ _ _ _ => ih.elements_succ,
      fun _ _ _ _ => ih.members_succ⟩

/-- The reader takes the bytes of every JSON text for a value that the text
means. -/
theorem parse_utf8 (text : List Char) (doc : Doc) (h : StrictJson.parse text = some doc)
    (hpaired : doc.Paired) : ∃ v, Means doc v ∧ parse (utf8 text) = some v := by
  unfold StrictJson.parse at h
  split at h
  · next doc' rest hvalue =>
    split_ifs at h with hend
    obtain rfl := Option.some.inj h
    have hdelimited : Delimited (utf8 rest) := by
      refine delimited_utf8 ?_
      rw [hend]
      rintro c ⟨⟩
    obtain ⟨v, hv, enough, hread⟩ :=
      (faithful _).value _ _ _ hvalue hdelimited hpaired
    refine ⟨v, hv, ?_⟩
    rw [readValue_fuel (utf8 text) (Nat.le_max_left _ enough), hread _ (Nat.le_max_right _ _)]
    rfl
  · cases h

/-- On a machine with limits this holds of every text that keeps to them. -/
theorem read_utf8 [Machine] (text : List Char) (doc : Doc) (h : StrictJson.parse text = some doc)
    (hpaired : doc.Paired) (htame : Tame Machine.stack (utf8 text)) :
    ∃ v, Means doc v ∧ read (utf8 text) = .ok (some v) := by
  obtain ⟨v, hv, hparse⟩ := parse_utf8 text doc h hpaired
  exact ⟨v, hv, by rw [read_of_tame htame, hparse]⟩

/-- A number and a string with a surrogate pair. -/
def pairText : List Char := "[1.5,\"\\ud83d\\ude00\"]".toList

def pairDoc : Doc := .array [.number "1.5".toList, .string [0xD83D, 0xDE00]]

theorem parse_pairText : StrictJson.parse pairText = some pairDoc := by
  have hskip : skipWs pairText = '[' :: pairText.tail := by decide +kernel
  have hfirst : skipWs pairText.tail = '1' :: pairText.tail.tail := by decide +kernel
  have hnumber : StrictJson.number ('1' :: pairText.tail.tail) =
      some ("1.5".toList, ',' :: '"' :: "\\ud83d\\ude00\"]".toList) := by
    decide +kernel
  have hchars : chars "\\ud83d\\ude00\"]".toList = some ([0xD83D, 0xDE00], [']']) := by
    decide +kernel
  have hcomma : skipWs (',' :: '"' :: "\\ud83d\\ude00\"]".toList) =
      ',' :: '"' :: "\\ud83d\\ude00\"]".toList := by
    decide +kernel
  have hquote : skipWs ('"' :: "\\ud83d\\ude00\"]".toList) =
      '"' :: "\\ud83d\\ude00\"]".toList := by
    decide +kernel
  obtain ⟨fuel, hfuel⟩ : ∃ f, 2 * pairText.length + 1 = f + 4 := ⟨_, rfl⟩
  have helements : StrictJson.elements (fuel + 3) [] ('1' :: pairText.tail.tail) =
      some (pairDoc, []) := by
    rw [StrictJson.elements, StrictJson.value_digit (by decide), hnumber]
    simp only [Option.map_some, hcomma, hquote]
    rw [StrictJson.elements, StrictJson.value, hchars]
    rfl
  have hvalue : StrictJson.value (fuel + 4) ('[' :: pairText.tail) = some (pairDoc, []) := by
    rw [StrictJson.value, hfirst]
    split
    · next heq => exact absurd (List.cons.inj heq).1 (by decide)
    · exact helements
  unfold StrictJson.parse
  rw [hfuel, hskip, hvalue]
  rfl

theorem tame_pairText : Tame (some 64) (utf8 pairText) where
  nested := by decide +kernel
  short token htoken hlength := by
    have hle := htoken.length_le
    have htext : (utf8 pairText).length = 20 := by decide +kernel
    rw [hlength, htext] at hle
    exact absurd hle (by decide)

theorem read_utf8_pairText :
    letI := Machine.small
    ∃ v, Means pairDoc v ∧ read (utf8 pairText) = .ok (some v) :=
  letI := Machine.small
  read_utf8 pairText pairDoc parse_pairText
    ⟨trivial, (by show joinSurrogates [0xD83D, 0xDE00] ≠ none; decide), trivial⟩ tame_pairText

end MinorityViewport.Json.Reader
