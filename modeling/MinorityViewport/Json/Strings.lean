import MinorityViewport.Json.Reader

/-!
# Strings in JSON texts

The emitters double the backslashes of a sensor id and leave everything else
as it is.  After a backslash that they double they skip two characters, so
one that follows too closely stays single.  `Spaced` says that there is none,
and `escape` is the loop of the emitters as a recursion.

`StringBody` is a text between two quotes.  `weight` is the least number of
characters that spell a string between quotes, because a quote and a
backslash take two: `weight_le_of_decodeChars`.
-/

namespace MinorityViewport

/-! ## The escape of the emitters -/

/-- Double backslashes, but none in the first `skip` characters. -/
def escapeFrom : Nat → Str → Str
  | _, [] => []
  | skip + 1, c :: cs => c :: escapeFrom skip cs
  | 0, c :: cs =>
    if c = '\\' then '\\' :: '\\' :: escapeFrom 2 cs else c :: escapeFrom 0 cs

/-- Any two backslashes have two characters between them. -/
def Spaced (cs : Str) : Prop :=
  ∀ i j, i < j → cs[i]? = some '\\' → cs[j]? = some '\\' → i + 3 ≤ j

/-- Spaced, and no backslash in the first `skip` characters. -/
def SpacedFrom : Nat → Str → Prop
  | _, [] => True
  | skip + 1, c :: cs => c ≠ '\\' ∧ SpacedFrom skip cs
  | 0, c :: cs => SpacedFrom (if c = '\\' then 2 else 0) cs

instance : (skip : Nat) → (cs : Str) → Decidable (SpacedFrom skip cs)
  | _, [] => isTrue trivial
  | skip + 1, c :: cs =>
    have := instDecidableSpacedFrom skip cs
    inferInstanceAs (Decidable (c ≠ '\\' ∧ SpacedFrom skip cs))
  | 0, c :: cs => instDecidableSpacedFrom (if c = '\\' then 2 else 0) cs

theorem escapeFrom_of_notMem {cs : Str} (h : '\\' ∉ cs) (skip : Nat) :
    escapeFrom skip cs = cs := by
  induction cs generalizing skip with
  | nil => cases skip <;> rfl
  | cons c cs ih =>
    rw [List.mem_cons, not_or] at h
    cases skip with
    | zero => rw [escapeFrom, if_neg (Ne.symm h.1), ih h.2]
    | succ skip => rw [escapeFrom, ih h.2]

theorem escapeFrom_append {as : Str} (h : '\\' ∉ as) (cs : Str) :
    escapeFrom 0 (as ++ cs) = as ++ escapeFrom 0 cs := by
  induction as with
  | nil => rfl
  | cons a as ih =>
    rw [List.mem_cons, not_or] at h
    rw [List.cons_append, escapeFrom, if_neg (Ne.symm h.1), ih h.2, List.cons_append]

theorem escapeFrom_eq_take_append (skip : Nat) (cs : Str) :
    escapeFrom skip cs = cs.take skip ++ escapeFrom 0 (cs.drop skip) := by
  induction skip generalizing cs with
  | zero => rfl
  | succ skip ih =>
    cases cs with
    | nil => rfl
    | cons c cs => rw [escapeFrom, ih, List.take_succ_cons, List.drop_succ_cons, List.cons_append]

/-- The text around the first backslash. -/
theorem split_of_findIdx? {cs : Str} {i : Nat} (h : cs.findIdx? (· = '\\') = some i) :
    ∃ as bs, cs = as ++ '\\' :: bs ∧ '\\' ∉ as ∧ as.length = i := by
  obtain ⟨hi, hget, hbefore⟩ := List.findIdx?_eq_some_iff_getElem.mp h
  refine ⟨cs.take i, cs.drop (i + 1), ?_, ?_, List.length_take_of_le hi.le⟩
  · rw [← of_decide_eq_true hget, ← List.drop_eq_getElem_cons hi, List.take_append_drop]
  · intro hmem
    obtain ⟨j, hj, heq⟩ := List.getElem_of_mem hmem
    rw [List.length_take] at hj
    rw [List.getElem_take] at heq
    exact absurd heq (by simpa using hbefore j (by omega))

/-- The search starts beyond the end. -/
theorem escapeLoop_of_length_le (fuel : Nat) {cs : Str} {pos : Nat} (h : cs.length ≤ pos) :
    escapeLoop fuel cs pos = cs := by
  cases fuel with
  | zero => rfl
  | succ fuel =>
    rw [escapeLoop, findFrom, List.drop_eq_nil_of_le h]
    rfl

/-- The loop of the emitters, from a position on. -/
theorem escapeLoop_eq (fuel : Nat) (done cs : Str) (h : cs.length < fuel) :
    escapeLoop fuel (done ++ cs) done.length = done ++ escapeFrom 0 cs := by
  induction fuel generalizing done cs with
  | zero => exact absurd h (Nat.not_lt_zero _)
  | succ fuel ih =>
    rw [escapeLoop, findFrom, List.drop_left]
    cases hfind : cs.findIdx? (· = '\\') with
    | none =>
      have hnot : '\\' ∉ cs := by
        intro hmem
        exact absurd (List.findIdx?_eq_none_iff.mp hfind _ hmem) (by simp)
      rw [escapeFrom_of_notMem hnot]
      rfl
    | some i =>
      obtain ⟨as, bs, rfl, hnot, rfl⟩ := split_of_findIdx? hfind
      rw [escapeFrom_append hnot, escapeFrom, if_pos rfl, escapeFrom_eq_take_append]
      simp only [Option.map_some]
      have htake : (done ++ (as ++ '\\' :: bs)).take (as.length + done.length) = done ++ as := by
        rw [← List.append_assoc, Nat.add_comm, ← List.length_append, List.take_left]
      have hdrop : (done ++ (as ++ '\\' :: bs)).drop (as.length + done.length + 1) = bs := by
        rw [← List.append_assoc, Nat.add_comm as.length, ← List.length_append, ← List.drop_drop,
          List.drop_left]
        rfl
      rw [htake, hdrop]
      rw [List.length_append, List.length_cons] at h
      by_cases htwo : 2 ≤ bs.length
      · have hparts : done ++ as ++ '\\' :: '\\' :: bs =
            (done ++ as ++ '\\' :: '\\' :: bs.take 2) ++ bs.drop 2 := by simp
        have hpos : as.length + done.length + 4 =
            (done ++ as ++ '\\' :: '\\' :: bs.take 2).length := by
          simp only [List.length_append, List.length_cons, List.length_take]
          omega
        rw [hparts, hpos, ih _ _ (by rw [List.length_drop]; omega)]
        simp
      · have hend : bs.drop 2 = [] := List.drop_eq_nil_of_le (by omega)
        have hlen : (done ++ as ++ '\\' :: '\\' :: bs).length ≤ as.length + done.length + 4 := by
          simp only [List.length_append, List.length_cons]
          omega
        rw [escapeLoop_of_length_le fuel hlen, hend, escapeFrom, List.append_nil,
          List.take_of_length_le (by omega), List.append_assoc]

theorem escapeSensorId_eq (sensorId : Str) : escapeSensorId sensorId = escapeFrom 0 sensorId :=
  escapeLoop_eq (sensorId.length + 1) [] sensorId (Nat.lt_succ_self _)

theorem spacedFrom_iff (skip : Nat) (cs : Str) :
    SpacedFrom skip cs ↔ (∀ j, cs[j]? = some '\\' → skip ≤ j) ∧ Spaced cs := by
  induction cs generalizing skip with
  | nil => simp [SpacedFrom, Spaced]
  | cons c cs ih =>
    have hcons : Spaced (c :: cs) ↔
        (c = '\\' → ∀ j, cs[j]? = some '\\' → 2 ≤ j) ∧ Spaced cs := by
      constructor
      · intro h
        refine ⟨fun hc j hj => ?_, fun i j hij hi hj => ?_⟩
        · have := h 0 (j + 1) (Nat.succ_pos j) (by rw [hc]; rfl) hj
          omega
        · have := h (i + 1) (j + 1) (Nat.succ_lt_succ hij) hi hj
          omega
      · rintro ⟨hfirst, hrest⟩ i j hij hi hj
        obtain ⟨j, rfl⟩ : ∃ k, j = k + 1 := ⟨j - 1, by omega⟩
        cases i with
        | zero =>
          have := hfirst (Option.some.inj hi) j hj
          omega
        | succ i =>
          have := hrest i j (Nat.lt_of_succ_lt_succ hij) hi hj
          omega
    rw [hcons]
    cases skip with
    | zero =>
      rw [SpacedFrom, ih]
      by_cases hc : c = '\\' <;> simp [hc]
    | succ skip =>
      rw [SpacedFrom, ih]
      constructor
      · rintro ⟨hc, hfirst, hspaced⟩
        refine ⟨fun j hj => ?_, fun h => absurd h hc, hspaced⟩
        cases j with
        | zero => exact absurd (Option.some.inj hj) hc
        | succ j => exact Nat.succ_le_succ (hfirst j hj)
      · rintro ⟨hfirst, _, hspaced⟩
        refine ⟨fun hc => ?_, fun j hj => ?_, hspaced⟩
        · exact absurd (hfirst 0 (by rw [hc]; rfl)) (by omega)
        · exact Nat.le_of_succ_le_succ (hfirst (j + 1) hj)

theorem spacedFrom_zero_iff (cs : Str) : SpacedFrom 0 cs ↔ Spaced cs := by
  rw [spacedFrom_iff]
  exact and_iff_right fun j _ => Nat.zero_le j

instance (cs : Str) : Decidable (Spaced cs) := decidable_of_iff _ (spacedFrom_zero_iff cs)

/-- Every backslash is doubled exactly when the text is spaced. -/
theorem length_escapeFrom (skip : Nat) (cs : Str) :
    (escapeFrom skip cs).length ≤ cs.length + cs.count '\\' ∧
      (cs.length + cs.count '\\' ≤ (escapeFrom skip cs).length → SpacedFrom skip cs) := by
  induction cs generalizing skip with
  | nil => cases skip <;> simp [escapeFrom, SpacedFrom]
  | cons c cs ih =>
    cases skip with
    | zero =>
      rw [escapeFrom, SpacedFrom, List.count_cons]
      by_cases hc : c = '\\'
      · have := ih 2
        simp only [hc, if_pos, List.length_cons, beq_self_eq_true]
        refine ⟨by omega, fun h => this.2 (by omega)⟩
      · have := ih 0
        simp only [hc, if_neg, List.length_cons, beq_iff_eq, not_false_eq_true]
        refine ⟨by omega, fun h => this.2 (by omega)⟩
    | succ skip =>
      have := ih skip
      rw [escapeFrom, SpacedFrom, List.count_cons, List.length_cons, List.length_cons]
      by_cases hc : c = '\\'
      · simp only [hc, beq_self_eq_true, if_pos]
        exact ⟨by omega, fun h => by omega⟩
      · simp only [beq_iff_eq, hc, if_neg, not_false_eq_true]
        exact ⟨by omega, fun h => ⟨hc, this.2 (by omega)⟩⟩

namespace Json.Reader

/-! ## The text between two quotes -/

/-- A text without a quote that no backslash hides, and that hides nothing
behind it. -/
inductive StringBody : Str → Prop
  | nil : StringBody []
  | char {c : Char} {cs : Str} (hquote : c ≠ '"') (hescape : c ≠ '\\') :
    StringBody cs → StringBody (c :: cs)
  | escape {d : Char} {cs : Str} : StringBody cs → StringBody ('\\' :: d :: cs)

/-- The reader stops at the end of the body. -/
theorem readString_of_body {body : Str} (h : StringBody body) (rest : Str) :
    readString (body ++ '"' :: rest) = (true, rest) := by
  induction h with
  | nil => cases rest <;> simp [readString]
  | @char c cs hquote hescape _ ih =>
    obtain ⟨d, ds, hds⟩ : ∃ d ds, cs ++ '"' :: rest = d :: ds :=
      List.exists_cons_of_ne_nil (by simp)
    rw [hds] at ih
    rw [List.cons_append, hds, readString, if_neg hescape, if_neg hquote, ih]
  | escape _ ih => rw [List.cons_append, List.cons_append, readString, if_pos rfl, ih]

/-- Every string token has a body. -/
theorem exists_body_of_readString {cs rest : Str} (h : readString cs = (true, rest)) :
    ∃ body, StringBody body ∧ cs = body ++ '"' :: rest := by
  induction cs using readString.induct with
  | case1 => cases h
  | case2 c =>
    unfold readString at h
    obtain ⟨hc, rfl⟩ := Prod.mk.inj h
    exact ⟨[], .nil, by simpa using hc⟩
  | case3 d cs ih =>
    rw [readString, if_pos rfl] at h
    obtain ⟨body, hbody, rfl⟩ := ih h
    exact ⟨_, .escape (d := d) hbody, rfl⟩
  | case4 d cs hne =>
    rw [readString, if_neg hne, if_pos rfl] at h
    obtain ⟨_, rfl⟩ := Prod.mk.inj h
    exact ⟨[], .nil, rfl⟩
  | case5 c d cs h1 h2 ih =>
    rw [readString, if_neg h1, if_neg h2] at h
    obtain ⟨body, hbody, hsplit⟩ := ih h
    exact ⟨_, .char h2 h1 hbody, congrArg (c :: ·) hsplit⟩

/-- A body that starts in a text without backslashes ends at the first quote
there. -/
theorem StringBody.stops_at_quote {body before rest after : Str} (h : StringBody body)
    (hbefore : '\\' ∉ before) (heq : body ++ '"' :: rest = before ++ '"' :: after) :
    body <+: before := by
  induction h generalizing before with
  | nil => exact List.nil_prefix
  | @char c cs hquote _ _ ih =>
    cases before with
    | nil => exact absurd (List.cons.inj heq).1 hquote
    | cons b before =>
      obtain ⟨rfl, htail⟩ := List.cons.inj heq
      exact List.cons_prefix_cons.mpr
        ⟨rfl, ih (fun hmem => hbefore (List.mem_cons_of_mem _ hmem)) htail⟩
  | escape _ ih =>
    cases before with
    | nil => exact absurd (List.cons.inj heq).1 (by decide)
    | cons b before => exact absurd ((List.cons.inj heq).1 ▸ List.mem_cons_self) hbefore

/-- A body that reaches across the quote behind `cs` ends at the next
quote. -/
theorem StringBody.length_le_or {body cs rest after : Str} (h : StringBody body)
    (heq : body ++ '"' :: rest = cs ++ '"' :: ',' :: '"' :: after) :
    body.length ≤ cs.length ∨ rest = after := by
  induction h generalizing cs with
  | nil => exact Or.inl (Nat.zero_le _)
  | @char c body hquote hescape _ ih =>
    cases cs with
    | nil => exact absurd (List.cons.inj heq).1 hquote
    | cons b cs => exact (ih (List.cons.inj heq).2).imp_left Nat.succ_le_succ
  | @escape d body hbody ih =>
    cases cs with
    | nil => exact absurd (List.cons.inj heq).1 (by decide)
    | cons b cs =>
      rw [List.cons_append, List.cons_append, List.cons_append, List.cons.injEq] at heq
      obtain ⟨_, heq⟩ := heq
      cases cs with
      | nil =>
        obtain ⟨_, htail⟩ := List.cons.inj heq
        have hle : body.length ≤ [','].length :=
          (hbody.stops_at_quote (by decide) htail).length_le
        match body, hle, htail with
        | [], _, htail => exact absurd (List.cons.inj htail).1 (by decide)
        | [_], _, htail => exact Or.inr (List.cons.inj (List.cons.inj htail).2).2
      | cons e cs =>
        rw [List.cons_append, List.cons.injEq] at heq
        exact (ih heq.2).imp_left fun hle => Nat.succ_le_succ (Nat.succ_le_succ hle)

/-! ## String tokens -/

theorem skipSpaces_of_head {c : Char} (hc : ¬ (c = ' ' ∨ c = '\t' ∨ c = '\r' ∨ c = '\n'))
    (cs : Str) : skipSpaces (c :: cs) = c :: cs := by
  rw [skipSpaces, List.dropWhile_cons_of_neg (by simpa [or_assoc] using hc)]

theorem readToken_of_scan {c : Char} (hc : ¬ (c = ' ' ∨ c = '\t' ∨ c = '\r' ∨ c = '\n'))
    {type : TokenType} (cs : Str) {rest : Str} (hscan : scanToken c (cs ++ rest) = (type, rest)) :
    readToken (c :: cs ++ rest) = (⟨type, c :: cs⟩, rest) := by
  rw [readToken, List.cons_append, skipSpaces_of_head hc]
  simp only [hscan, List.length_append]
  have hlen : cs.length + rest.length + 1 - rest.length = (c :: cs).length := by
    rw [List.length_cons]
    omega
  rw [hlen, ← List.cons_append, List.take_left]

theorem readToken_string {body : Str} (h : StringBody body) (rest : Str) :
    readToken ('"' :: body ++ '"' :: rest) = (⟨.string, '"' :: body ++ ['"']⟩, rest) := by
  have hscan : scanToken '"' ((body ++ ['"']) ++ rest) = (.string, rest) := by
    rw [List.append_assoc, List.singleton_append, scanToken, readString_of_body h]
    rfl
  have htoken := readToken_of_scan (by decide) _ hscan
  rwa [List.cons_append, List.append_assoc, List.singleton_append] at htoken

theorem decodeString_token (body : Str) :
    decodeString ('"' :: body ++ ['"']) = decodeChars body := by
  rw [decodeString, List.cons_append, List.tail_cons, List.dropLast_concat]

/-! ## Decoded texts -/

/-- The characters that spell a string, with an escape for each quote and
each backslash. -/
def weight (text : Str) : Nat := text.length + text.count '"' + text.count '\\'

theorem weight_append (as bs : Str) : weight (as ++ bs) = weight as + weight bs := by
  simp only [weight, List.length_append, List.count_append]
  omega

theorem weight_singleton_le (c : Char) : weight [c] ≤ 2 := by
  rw [weight, List.count_singleton, List.count_singleton, List.length_singleton]
  by_cases hquote : c = '"'
  · simp [hquote]
  · split_ifs <;> simp_all

theorem weight_singleton {c : Char} (hquote : c ≠ '"') (hescape : c ≠ '\\') : weight [c] = 1 := by
  simp [weight, hquote, hescape]

theorem weight_cons_byte {n : Nat} (hlow : 0x80 ≤ n) (hhigh : n < 0x100) (cs : Str) :
    weight (Char.ofNat n :: cs) = weight cs + 1 := by
  have hcode : (Char.ofNat n).toNat = n := by
    rw [Char.ofNat, dif_pos (Or.inl (by omega))]
    rfl
  have hne : ∀ c : Char, c.toNat < 0x80 → Char.ofNat n ≠ c := by
    rintro c hc rfl
    omega
  rw [← List.singleton_append, weight_append,
    weight_singleton (hne '"' (by decide)) (hne '\\' (by decide)), Nat.add_comm]

theorem weight_codePointToUTF8 (cp : Nat) : weight (codePointToUTF8 cp) ≤ 4 := by
  unfold codePointToUTF8
  split_ifs
  · exact (weight_singleton_le _).trans (by omega)
  · simp (disch := omega) only [weight_cons_byte]
    decide
  · simp (disch := omega) only [weight_cons_byte]
    decide
  · simp (disch := omega) only [weight_cons_byte]
    decide
  · exact Nat.zero_le 4

/-! ## Characters of a string -/

theorem decodeChars_char {c : Char} (hquote : c ≠ '"') (hescape : c ≠ '\\') (cs : Str) :
    decodeChars (c :: cs) = (decodeChars cs).map (c :: ·) := by
  rw [decodeChars.eq_def]
  simp [hquote, hescape]

theorem decodeChars_backslash (cs : Str) :
    decodeChars ('\\' :: '\\' :: cs) = (decodeChars cs).map ('\\' :: ·) := by
  rw [decodeChars.eq_def]
  simp [simpleEscape]

/-- No text spells a string in fewer characters than its weight. -/
theorem weight_le_of_decodeChars {text decoded : Str} (h : decodeChars text = some decoded) :
    weight decoded ≤ text.length := by
  fun_induction decodeChars text generalizing decoded with
  | case1 =>
    obtain rfl := Option.some.inj h
    exact Nat.le_refl 0
  | case2 cs =>
    obtain rfl := Option.some.inj h
    exact Nat.zero_le _
  | case3 c cs hquote hescape ih =>
    obtain ⟨r, hr, rfl⟩ := Option.map_eq_some_iff.mp h
    have := ih hr
    rw [← List.singleton_append, weight_append, weight_singleton hquote hescape, List.length_cons]
    omega
  | case4 => cases h
  | case5 c _ _ a b c' d rest ihPair ih =>
    simp only [Option.bind_eq_bind, Option.bind_eq_some_iff] at h
    obtain ⟨unicode, _, h⟩ := h
    split_ifs at h with hsurrogate
    · split at h
      · simp only [Option.bind_eq_some_iff, Option.pure_def, Option.some.injEq] at h
        obtain ⟨pair, _, r, hr, rfl⟩ := h
        have := ihPair hr
        have := weight_codePointToUTF8 (0x10000 + unicode % 0x400 * 0x400 + pair % 0x400)
        rw [weight_append]
        simp only [List.length_cons]
        omega
      · cases h
    · simp only [Option.bind_eq_some_iff, Option.pure_def, Option.some.injEq] at h
      obtain ⟨r, hr, rfl⟩ := h
      have := ih hr
      have := weight_codePointToUTF8 unicode
      rw [weight_append]
      simp only [List.length_cons]
      omega
  | case6 => cases h
  | case7 c _ _ e rest _ c' _ ih =>
    obtain ⟨r, hr, rfl⟩ := Option.map_eq_some_iff.mp h
    have := ih hr
    have := weight_singleton_le c'
    rw [← List.singleton_append, weight_append, List.length_cons, List.length_cons]
    omega
  | case8 => cases h

/-! ## Spaced ids -/

theorem body_escapeFrom {sensorId : Str} (hquote : '"' ∉ sensorId) (skip : Nat)
    (h : SpacedFrom skip sensorId) : StringBody (escapeFrom skip sensorId) := by
  induction sensorId generalizing skip with
  | nil => cases skip <;> exact .nil
  | cons c cs ih =>
    rw [List.mem_cons, not_or] at hquote
    cases skip with
    | zero =>
      unfold SpacedFrom at h
      unfold escapeFrom
      split_ifs at h ⊢ with hc
      · exact .escape (ih hquote.2 2 h)
      · exact .char (Ne.symm hquote.1) hc (ih hquote.2 0 h)
    | succ skip => exact .char (Ne.symm hquote.1) h.1 (ih hquote.2 skip h.2)

theorem decodeChars_escapeFrom {sensorId : Str} (hquote : '"' ∉ sensorId) (skip : Nat)
    (h : SpacedFrom skip sensorId) : decodeChars (escapeFrom skip sensorId) = some sensorId := by
  induction sensorId generalizing skip with
  | nil => cases skip <;> rfl
  | cons c cs ih =>
    rw [List.mem_cons, not_or] at hquote
    have hnot : c ≠ '"' := Ne.symm hquote.1
    cases skip with
    | zero =>
      unfold SpacedFrom at h
      unfold escapeFrom
      split_ifs at h ⊢ with hc
      · rw [decodeChars_backslash, ih hquote.2 2 h, hc]
        rfl
      · rw [decodeChars_char hnot hc, ih hquote.2 0 h]
        rfl
    | succ skip =>
      rw [escapeFrom, decodeChars_char hnot h.1, ih hquote.2 skip h.2]
      rfl

/-- A string that is spelled between the quotes of an escaped id, and is the
id, has no quote and is spaced. -/
theorem plain_of_weight_le {sensorId : Str}
    (h : weight sensorId ≤ (escapeFrom 0 sensorId).length) : '"' ∉ sensorId ∧ Spaced sensorId := by
  obtain ⟨hle, hspaced⟩ := length_escapeFrom 0 sensorId
  unfold weight at h
  refine ⟨?_, (spacedFrom_zero_iff sensorId).mp (hspaced (by omega))⟩
  rw [← List.count_eq_zero]
  omega

end Json.Reader

end MinorityViewport
