import MinorityViewport.Json.Strings
import Mathlib.Data.List.DropRight

/-!
# Where a string comes from

The reader takes its input from the left and leaves a suffix of it:
`readValue_suffix`.  So every string that is a member of the root was spelled
between two quotes somewhere in the document, and what follows it there goes
on with the object or closes it: `fromToken_of_parse`.
-/

namespace MinorityViewport.Json.Reader

open Value

/-! ## String tokens -/

theorem skipSpaces_skipSpaces (cs : Str) : skipSpaces (skipSpaces cs) = skipSpaces cs :=
  List.dropWhile_idempotent _ cs

theorem readToken_skipSpaces (cs : Str) : readToken (skipSpaces cs) = readToken cs := by
  rw [readToken, readToken, skipSpaces_skipSpaces]

theorem scanToken_string {c : Char} {cs : Str} (h : (scanToken c cs).1 = .string) :
    c = '"' ∧ (readString cs).1 = true := by
  have hmatch : ∀ (type : TokenType) (scan : Bool × Str), type ≠ .string →
      (if scan.1 then type else .error) ≠ TokenType.string := by
    intro type scan htype
    split_ifs
    · exact htype
    · exact fun h => by cases h
  unfold scanToken at h
  split at h
  case h_5 =>
    refine ⟨rfl, ?_⟩
    by_contra hread
    simp only [if_neg hread] at h
    cases h
  case h_6 | h_7 | h_8 | h_9 => exact absurd h (hmatch _ _ (by decide))
  case h_13 => split_ifs at h
  all_goals cases h

/-- A string token is a body between quotes. -/
theorem exists_body_of_readToken {cs : Str} (h : (readToken cs).1.type = .string) :
    ∃ body, StringBody body ∧ (readToken cs).1.text = '"' :: body ++ ['"'] ∧
      '"' :: body ++ '"' :: (readToken cs).2 <:+ cs := by
  have hskip : skipSpaces cs <:+ cs := List.dropWhile_suffix _
  rw [← readToken_skipSpaces] at h ⊢
  cases hcs : skipSpaces cs with
  | nil =>
    rw [hcs] at h
    cases h
  | cons c rest =>
    have hidem : skipSpaces (c :: rest) = c :: rest := by rw [← hcs, skipSpaces_skipSpaces]
    rw [hcs] at h
    simp only [readToken, hidem] at h
    obtain ⟨rfl, hread⟩ := scanToken_string h
    obtain ⟨body, hbody, hrest⟩ := exists_body_of_readString (Prod.ext hread rfl)
    rw [hcs] at hskip
    rw [hrest, ← List.cons_append] at hskip ⊢
    rw [readToken_string hbody]
    exact ⟨body, hbody, rfl, hskip⟩

theorem exists_readToken_of_skipComments (n : Nat) (cs : Str) :
    ∃ mid, mid <:+ cs ∧ readToken mid = skipComments n cs := by
  induction n generalizing cs with
  | zero => exact ⟨cs, List.suffix_refl cs, rfl⟩
  | succ n ih =>
    unfold skipComments
    simp only
    split_ifs
    · obtain ⟨mid, hmid, heq⟩ := ih (readToken cs).2
      exact ⟨mid, hmid.trans (readToken_suffix cs), heq⟩
    · exact ⟨cs, List.suffix_refl cs, rfl⟩

/-! ## Values by their kind -/

/-- The three kinds of numbers. -/
def IsNumber (v : Value) : Prop := v.convertsToDouble ∧ ¬ v.convertsToString

theorem isNumber_of_decodeDouble {text : Str} {v : Value} (h : decodeDouble text = some v) :
    IsNumber v := by
  unfold decodeDouble at h
  simp only [Option.ite_none_left_eq_some] at h
  rw [← Option.some.inj h.2]
  exact ⟨rfl, Bool.false_ne_true⟩

theorem isNumber_of_decodeDigits {text : Str} {threshold : Nat} {finish : Nat → Value}
    (hfinish : ∀ m, IsNumber (finish m)) {cs : Str} {v : Value} {n : Nat}
    (h : decodeDigits text threshold finish n cs = some v) : IsNumber v := by
  induction cs generalizing n with
  | nil =>
    rw [← Option.some.inj h]
    exact hfinish n
  | cons c cs ih =>
    unfold decodeDigits at h
    split_ifs at h
    · exact isNumber_of_decodeDouble h
    · exact ih h

theorem isNumber_of_decodeNumber {text : Str} {v : Value} (h : decodeNumber text = some v) :
    IsNumber v := by
  rw [decodeNumber] at h
  split_ifs at h
  · exact isNumber_of_decodeDouble h
  · refine isNumber_of_decodeDigits (fun m => ?_) h
    exact ⟨rfl, Bool.false_ne_true⟩
  · refine isNumber_of_decodeDigits (fun m => ?_) h
    split_ifs
    · exact ⟨rfl, Bool.false_ne_true⟩
    · exact ⟨rfl, Bool.false_ne_true⟩

theorem readArray_array {fuel : Nat} {elements : List Value} {cs rest : Str} {v : Value}
    (h : readArray fuel elements cs = some (v, rest)) : ∃ es, v = .array es := by
  induction fuel generalizing elements cs with
  | zero => simp [readArray] at h
  | succ fuel ih =>
    unfold readArray at h
    split at h
    · cases h
    · simp only at h
      split_ifs at h
      · obtain ⟨rfl, _⟩ := Prod.mk.inj (Option.some.inj h)
        exact ⟨_, rfl⟩
      · exact ih h

theorem readObject_object {fuel : Nat} {name : Str} {members : List (Str × Value)} {cs rest : Str}
    {v : Value} (h : readObject fuel name members cs = some (v, rest)) : ∃ ms, v = .object ms := by
  induction fuel generalizing name members cs with
  | zero => simp [readObject] at h
  | succ fuel ih =>
    unfold readObject at h
    simp only at h
    split at h
    · obtain ⟨rfl, _⟩ := Prod.mk.inj (Option.some.inj h)
      exact ⟨_, rfl⟩
    split at h
    · cases h
    split at h
    · cases h
    split at h
    · cases h
    split at h
    · cases h
    split_ifs at h
    · obtain ⟨rfl, _⟩ := Prod.mk.inj (Option.some.inj h)
      exact ⟨_, rfl⟩
    · exact ih h

/-- A string was spelled right before the rest. -/
theorem exists_body_of_readValue {fuel : Nat} {cs rest r : Str}
    (h : readValue fuel cs = some (.string r, rest)) :
    ∃ body, StringBody body ∧ decodeChars body = some r ∧ '"' :: body ++ '"' :: rest <:+ cs := by
  cases fuel with
  | zero => simp [readValue] at h
  | succ fuel =>
    obtain ⟨mid, hmid, hskip⟩ := exists_readToken_of_skipComments cs.length cs
    rw [readValue, skipCommentTokens, ← hskip] at h
    simp only at h
    split at h
    case h_1 =>
      obtain ⟨ms, hms⟩ := readObject_object h
      cases hms
    case h_2 =>
      split_ifs at h
      · cases h
      · obtain ⟨es, hes⟩ := readArray_array h
        cases hes
    case h_3 =>
      obtain ⟨w, hw, heq⟩ := Option.map_eq_some_iff.mp h
      obtain ⟨rfl, _⟩ := Prod.mk.inj heq
      exact absurd rfl (isNumber_of_decodeNumber hw).2
    case h_4 htype =>
      obtain ⟨body, hbody, htext, hsuffix⟩ := exists_body_of_readToken htype
      obtain ⟨w, hw, heq⟩ := Option.map_eq_some_iff.mp h
      obtain ⟨hr, rfl⟩ := Prod.mk.inj heq
      obtain rfl := Value.string.inj hr
      rw [htext, decodeString_token] at hw
      exact ⟨body, hbody, hw, hsuffix.trans hmid⟩
    all_goals cases h

/-! ## The members of the root -/

/-- The object goes on or ends here, as far as one token shows. -/
def EndsMember (rest : Str) : Prop :=
  (readToken rest).1.type = .objectEnd ∨ (readToken rest).1.type = .arraySeparator ∨
    (readToken rest).1.type = .comment

/-- The string is spelled in the text as the value of a member. -/
def FromToken (cs r : Str) : Prop :=
  ∃ body rest, StringBody body ∧ decodeChars body = some r ∧
    '"' :: body ++ '"' :: rest <:+ cs ∧ EndsMember rest

theorem FromToken.of_suffix {cs cs' r : Str} (h : FromToken cs r) (hsuffix : cs <:+ cs') :
    FromToken cs' r := by
  obtain ⟨body, rest, hbody, hr, hcs, hends⟩ := h
  exact ⟨body, rest, hbody, hr, hcs.trans hsuffix, hends⟩

theorem mem_setMember {key name : Str} {v w : Value} {members : List (Str × Value)}
    (h : (name, w) ∈ setMember key v members) : (name, w) ∈ members ∨ w = v := by
  induction members with
  | nil =>
    rw [setMember, List.mem_singleton] at h
    exact Or.inr (Prod.mk.inj h).2
  | cons m members ih =>
    unfold setMember at h
    split_ifs at h
    · rcases List.mem_cons.mp h with heq | h
      · exact Or.inr (Prod.mk.inj heq).2
      · exact Or.inl (List.mem_cons_of_mem m h)
    · rcases List.mem_cons.mp h with heq | h
      · exact Or.inl (heq ▸ List.mem_cons_self)
      · exact (ih h).imp_left (List.mem_cons_of_mem m)

theorem mem_of_findMember {key : Str} {v : Value} {members : List (Str × Value)}
    (h : findMember key members = some v) : (key, v) ∈ members := by
  induction members with
  | nil => cases h
  | cons m members ih =>
    unfold findMember at h
    split_ifs at h with hkey
    · rw [← hkey, ← Option.some.inj h]
      exact List.mem_cons_self
    · exact List.mem_cons_of_mem m (ih h)

theorem fromToken_of_readObject {fuel : Nat} {name : Str} {members ms : List (Str × Value)}
    {cs rest : Str} (h : readObject fuel name members cs = some (.object ms, rest)) {key r : Str}
    (hmem : (key, .string r) ∈ ms) : (key, .string r) ∈ members ∨ FromToken cs r := by
  induction fuel generalizing name members cs with
  | zero => simp [readObject] at h
  | succ fuel ih =>
    have hsuffix := skipCommentTokens_suffix cs
    unfold readObject at h
    simp only at h
    split at h
    · obtain ⟨hms, _⟩ := Prod.mk.inj (Option.some.inj h)
      rw [← Value.object.inj hms] at hmem
      exact Or.inl hmem
    split at h
    · cases h
    split at h
    · cases h
    split at h
    · cases h
    split at h
    · cases h
    rename_i value rest' hvalue
    have hmid := (readToken_suffix (skipCommentTokens cs).2).trans hsuffix
    have hrest := ((allLeave fuel).value _ _ _ hvalue).1.trans hmid
    -- a member is old, or it is the value that was read here
    have hold : ∀ {k : Str}, (key, .string r) ∈ setMember k value members →
        EndsMember rest' → (key, .string r) ∈ members ∨ FromToken cs r := by
      intro k hset hends
      refine (mem_setMember hset).imp_right fun heq => ?_
      rw [← heq] at hvalue
      obtain ⟨body, hbody, hr, hcs⟩ := exists_body_of_readValue hvalue
      exact ⟨body, rest', hbody, hr, hcs.trans hmid, hends⟩
    split_ifs at h with hends hclose
    · obtain ⟨hms, _⟩ := Prod.mk.inj (Option.some.inj h)
      rw [← Value.object.inj hms] at hmem
      exact hold hmem (by simpa only [EndsMember, not_and_or, not_not] using hends)
    · rcases ih h with hset | hfrom
      · exact hold hset (by simpa only [EndsMember, not_and_or, not_not] using hends)
      · exact Or.inr (hfrom.of_suffix ((skipCommentTokens_suffix rest').trans hrest))

/-- Every string member of the root is spelled in the document. -/
theorem fromToken_of_parse {document : Str} {root default : Value}
    (h : parse document = some root) {key : String} {r : Str}
    (hmember : root.memberD key default = .string r) (hdefault : default ≠ .string r) :
    FromToken document r := by
  obtain ⟨⟨v, rest⟩, hread, rfl⟩ := Option.map_eq_some_iff.mp h
  cases v with
  | object ms =>
    have hmem : (key.toList, .string r) ∈ ms := by
      rw [memberD] at hmember
      cases hfind : findMember key.toList ms with
      | none =>
        rw [hfind] at hmember
        exact absurd hmember hdefault
      | some w =>
        rw [hfind] at hmember
        exact mem_of_findMember (hmember ▸ hfind)
    rw [readValue] at hread
    simp only at hread
    split at hread
    case h_1 =>
      rcases fromToken_of_readObject hread hmem with hnil | hfrom
      · cases hnil
      · exact hfrom.of_suffix (skipCommentTokens_suffix document)
    case h_2 =>
      split_ifs at hread
      · cases hread
      · obtain ⟨es, hes⟩ := readArray_array hread
        cases hes
    case h_3 =>
      obtain ⟨w, hw, heq⟩ := Option.map_eq_some_iff.mp hread
      obtain ⟨rfl, _⟩ := Prod.mk.inj heq
      cases (isNumber_of_decodeNumber hw).1
    case h_4 =>
      obtain ⟨w, hw, heq⟩ := Option.map_eq_some_iff.mp hread
      cases (Prod.mk.inj heq).1
    all_goals cases hread
  | _ => exact absurd hmember hdefault

/-! ## The place of a sensor id -/

theorem mem_of_mem_cStr {c : Char} {r : Str} (h : c ∈ cStr r) : c ∈ r ∧ c ≠ '\x00' :=
  ⟨(List.takeWhile_sublist _).subset h, by simpa using List.mem_takeWhile_imp h⟩

theorem weight_cStr_le (r : Str) : weight (cStr r) ≤ weight r := by
  have hsub : (cStr r).Sublist r := List.takeWhile_sublist _
  have hlen := hsub.length_le
  have hquote := hsub.count_le '"'
  have hescape := hsub.count_le '\\'
  unfold weight
  omega

/-- A body without backslashes is what it spells, and has no quote. -/
theorem StringBody.decodeChars_of_notMem {body : Str} (h : StringBody body)
    (hnot : '\\' ∉ body) : decodeChars body = some body ∧ '"' ∉ body := by
  induction h with
  | nil => exact ⟨rfl, List.not_mem_nil⟩
  | @char c cs hquote hescape _ ih =>
    obtain ⟨hdecode, hcs⟩ := ih fun hmem => hnot (List.mem_cons_of_mem c hmem)
    rw [decodeChars_char hquote hescape, hdecode, List.mem_cons, not_or]
    exact ⟨rfl, Ne.symm hquote, hcs⟩
  | escape => exact absurd List.mem_cons_self hnot

/-- A body with a backslash lies within the only part of the text that has
backslashes. -/
theorem StringBody.length_le_of_mem {body rest before spelled after : Str} (h : StringBody body)
    (hescape : '\\' ∈ body) (hbefore : '\\' ∉ before) (hafter : '\\' ∉ after)
    (hrest : rest ≠ after)
    (heq : '"' :: body ++ '"' :: rest <:+
      before ++ '"' :: spelled ++ '"' :: ',' :: '"' :: after) :
    body.length ≤ spelled.length := by
  obtain ⟨front, hfront⟩ := heq
  have hwithin : ∀ part : Str, part.length ≤ spelled.length →
      body ++ '"' :: rest = part ++ '"' :: ',' :: '"' :: after → body.length ≤ spelled.length :=
    fun part hle hpart => ((h.length_le_or hpart).resolve_right hrest).trans hle
  have hbehind : '\\' ∉ '"' :: ',' :: '"' :: after := by simpa using hafter
  rw [List.append_assoc, List.cons_append, List.cons_append] at hfront
  rcases List.append_eq_append_iff.mp hfront with ⟨mid, hmid, htail⟩ | ⟨mid, hmid, htail⟩
  · cases mid with
    | nil => exact hwithin _ le_rfl (List.cons.inj htail).2
    | cons c mid =>
      -- the body begins before the spelled part, and ends there too
      have hnot : '\\' ∉ mid := fun hmem => hbefore (by simp [hmid, hmem])
      have hstops := h.stops_at_quote hnot (List.cons.inj htail).2
      exact absurd (hstops.subset hescape) hnot
  · cases mid with
    | nil => exact hwithin _ le_rfl (List.cons.inj htail).2.symm
    | cons c mid =>
      rcases List.append_eq_append_iff.mp (List.cons.inj htail).2 with
        ⟨part, _, hpart⟩ | ⟨part, hspelled, hpart⟩
      · rw [hpart] at hbehind
        exact absurd (by simp [hescape]) hbehind
      · cases part with
        | nil =>
          rw [List.nil_append] at hpart
          rw [← hpart] at hbehind
          exact absurd (by simp [hescape]) hbehind
        | cons d part =>
          refine hwithin part ?_ (List.cons.inj hpart).2
          simp [hspelled]
          omega

/-- A member that spells a sensor id can be found only in its own place, if
the rest of the document has no backslash.  So the id has no quote, no NUL,
and no backslash that stays single. -/
theorem plain_of_fromToken {before after sensorId r : Str} (hbefore : '\\' ∉ before)
    (hafter : '\\' ∉ after) (hnext : ¬ EndsMember after)
    (h : FromToken (before ++ '"' :: escapeFrom 0 sensorId ++ '"' :: ',' :: '"' :: after) r)
    (hr : cStr r = sensorId) : '"' ∉ sensorId ∧ '\x00' ∉ sensorId ∧ Spaced sensorId := by
  obtain ⟨body, rest, hbody, hdecode, hplace, hends⟩ := h
  have hnul : '\x00' ∉ sensorId := fun hmem => (mem_of_mem_cStr (hr ▸ hmem)).2 rfl
  by_cases hescape : '\\' ∈ body
  · have hrest : rest ≠ after := fun heq => hnext (heq ▸ hends)
    have hle := hbody.length_le_of_mem hescape hbefore hafter hrest hplace
    have hweight := (weight_cStr_le r).trans ((weight_le_of_decodeChars hdecode).trans hle)
    rw [hr] at hweight
    obtain ⟨hquote, hspaced⟩ := plain_of_weight_le hweight
    exact ⟨hquote, hnul, hspaced⟩
  · obtain ⟨hsame, hquote⟩ := hbody.decodeChars_of_notMem hescape
    obtain rfl := Option.some.inj (hsame.symm.trans hdecode)
    have hsub : ∀ {c : Char}, c ∈ sensorId → c ∈ body := fun hmem =>
      (mem_of_mem_cStr (hr ▸ hmem)).1
    exact ⟨fun hmem => hquote (hsub hmem), hnul, fun i j _ hi _ =>
      absurd (hsub (List.mem_of_getElem? hi)) hescape⟩

end MinorityViewport.Json.Reader
