import MinorityViewport.Json.Machine
import MinorityViewport.Json.Strings
import MinorityViewport.Lib.PrintedJson
import Mathlib.Data.List.TakeWhile
import Mathlib.Data.Rat.Cast.Order

/-!
# Reading printed texts

`ReadsIn room text v` says that the reader takes the text for the value,
whatever follows, where the stack has this room.  Numbers, strings, arrays and
objects that are printed without spaces are read back: `readsIn_decimal`,
`readsIn_string`, `readsIn_printArray` and `readsIn_printObject`.  An array and
an object need room for one value more than what they hold, and the token of a
number has to fit into the buffer of `decodeDouble`.

`Reads` is the reader without limits.
-/

namespace MinorityViewport.Json.Reader

open Value
open StrictJson (printArray printMember printObject)

/-! ## Tokens -/

theorem skipCommentTokens_of_type {cs rest : Str} {token : Token}
    (h : readToken cs = (token, rest)) (hcomment : token.type ≠ .comment) :
    skipCommentTokens cs = (token, rest) := by
  unfold skipCommentTokens
  cases cs.length with
  | zero => exact h
  | succ n =>
    rw [skipComments, h]
    exact if_neg hcomment

/-- A text that no number goes on with. -/
def Delimited (rest : Str) : Prop := ∀ c ∈ rest.head?, ¬ isNumberChar c

theorem delimited_nil : Delimited [] := by rintro c ⟨⟩

theorem delimited_cons {c : Char} (hc : ¬ isNumberChar c) (cs : Str) : Delimited (c :: cs) := by
  rintro _ ⟨⟩
  exact hc

theorem readToken_number {c : Char} {cs rest : Str} (hc : c.isDigit ∨ c = '-')
    (hcs : ∀ d ∈ cs, isNumberChar d) (hrest : Delimited rest) :
    readToken (c :: cs ++ rest) = (⟨.number, c :: cs⟩, rest) := by
  have hscan : scanToken c (cs ++ rest) = (.number, (cs ++ rest).dropWhile isNumberChar) := by
    unfold scanToken
    split <;> simp_all
  refine readToken_of_scan ?_ _ ?_
  · rintro (rfl | rfl | rfl | rfl) <;> simp at hc
  · rw [hscan, List.dropWhile_append_of_pos (by simpa using hcs)]
    cases rest with
    | nil => rfl
    | cons d rest => rw [List.dropWhile_cons_of_neg (hrest d rfl)]

/-! ## Numbers -/

/-- A number as the emitters print it: a digit, and then digits and points,
perhaps behind a sign. -/
inductive IsDecimal : Str → Prop
  | positive {d : Char} {ds : Str} (hd : d.isDigit) (hds : ∀ c ∈ ds, c.isDigit ∨ c = '.') :
    IsDecimal (d :: ds)
  | negative {d : Char} {ds : Str} (hd : d.isDigit) (hds : ∀ c ∈ ds, c.isDigit ∨ c = '.') :
    IsDecimal ('-' :: d :: ds)

theorem isDigit_of_mem_toStringNat {n : Nat} {c : Char} (hc : c ∈ toStringNat n) : c.isDigit :=
  Nat.isDigit_of_mem_toDigits (by decide) (by decide) hc

theorem digitsValue_eq (ds : Str) : digitsValue ds = Nat.ofDigitChars 10 ds 0 := by
  rw [Nat.ofDigitChars_eq_foldl, digitsValue]
  simp only [Nat.mul_comm 10]

theorem digitsValue_toStringNat (n : Nat) : digitsValue (toStringNat n) = n := by
  rw [digitsValue_eq, toStringNat, Nat.ofDigitChars_ten_toDigits]

theorem exists_digit_toStringNat (n : Nat) :
    ∃ d ds, toStringNat n = d :: ds ∧ d.isDigit ∧ ∀ c ∈ ds, c.isDigit := by
  obtain ⟨d, ds, hds⟩ : ∃ d ds, toStringNat n = d :: ds :=
    List.exists_cons_of_ne_nil Nat.toDigits_ne_nil
  have hall : ∀ c ∈ d :: ds, c.isDigit := fun c hc => isDigit_of_mem_toStringNat (hds ▸ hc)
  exact ⟨d, ds, hds, List.forall_mem_cons.mp hall⟩

theorem isDecimal_toStringNat (n : Nat) : IsDecimal (toStringNat n) := by
  obtain ⟨d, ds, hn, hd, hds⟩ := exists_digit_toStringNat n
  rw [hn]
  exact .positive hd fun c hc => Or.inl (hds c hc)

theorem isDecimal_toStringInt (i : Int) : IsDecimal (toStringInt i) := by
  obtain ⟨d, ds, hn, hd, hds⟩ := exists_digit_toStringNat i.natAbs
  rw [toStringInt, hn]
  split_ifs
  · exact .negative hd fun c hc => Or.inl (hds c hc)
  · exact .positive hd fun c hc => Or.inl (hds c hc)

/-- The fraction that `toStringDouble` prints. -/
theorem isDigit_of_mem_padded {m k : Nat} {c : Char}
    (hc : c ∈ List.replicate k '0' ++ toStringNat m) : c.isDigit := by
  rcases List.mem_append.mp hc with hc | hc
  · rw [List.eq_of_mem_replicate hc]
    rfl
  · exact isDigit_of_mem_toStringNat hc

theorem isDecimal_toStringDouble {K : Type} [Field K] [LinearOrder K] [FloorRing K] (x : K) :
    IsDecimal (toStringDouble x) := by
  rw [toStringDouble]
  generalize ⌊(if x < 0 then -x else x) * 1000000 + 1 / 2⌋.toNat = millionths
  obtain ⟨d, ds, hn, hd, hds⟩ := exists_digit_toStringNat (millionths / 1000000)
  have hrest : ∀ c ∈ ds ++ '.' :: (List.replicate
      (6 - (toStringNat (millionths % 1000000)).length) '0' ++
        toStringNat (millionths % 1000000)), c.isDigit ∨ c = '.' := by
    intro c hc
    rcases List.mem_append.mp hc with hc | hc
    · exact Or.inl (hds c hc)
    · rcases List.mem_cons.mp hc with rfl | hc
      · exact Or.inr rfl
      · exact Or.inl (isDigit_of_mem_padded hc)
  rw [hn]
  split_ifs
  · exact .negative hd hrest
  · exact .positive hd hrest

theorem isNumberChar_of_digit {c : Char} (h : c.isDigit ∨ c = '.') : isNumberChar c := by
  rcases h with h | rfl
  · simp [isNumberChar, h]
  · rfl

theorem readToken_decimal {text rest : Str} (h : IsDecimal text) (hrest : Delimited rest) :
    readToken (text ++ rest) = (⟨.number, text⟩, rest) := by
  cases h with
  | positive hd hds =>
    exact readToken_number (Or.inl hd) (fun c hc => isNumberChar_of_digit (hds c hc)) hrest
  | negative hd hds =>
    refine readToken_number (Or.inr rfl) (fun c hc => ?_) hrest
    rcases List.mem_cons.mp hc with rfl | hc
    · exact isNumberChar_of_digit (Or.inl hd)
    · exact isNumberChar_of_digit (hds c hc)

theorem ne_sign_of_isDigit {d : Char} (hd : d.isDigit) : d ≠ '-' ∧ d ≠ '+' := by
  constructor
  all_goals
    intro heq
    rw [heq] at hd
    cases hd

theorem decodeDouble_of_decimal {text : Str} (h : IsDecimal text) :
    ∃ q, decodeDouble text = some (.real q) := by
  cases h with
  | @positive d ds hd hds =>
    have hne : (d :: ds).takeWhile Char.isDigit ≠ [] := by
      rw [List.takeWhile_cons_of_pos hd]
      exact List.cons_ne_nil _ _
    obtain ⟨hminus, hplus⟩ := ne_sign_of_isDigit hd
    unfold decodeDouble
    simp [hne, hminus, hplus]
  | @negative d ds hd hds =>
    have hne : (d :: ds).takeWhile Char.isDigit ≠ [] := by
      rw [List.takeWhile_cons_of_pos hd]
      exact List.cons_ne_nil _ _
    unfold decodeDouble
    simp [hne]

/-- The digit loop reads the number, or leaves it to `decodeDouble`. -/
theorem decodeDigits_eq_or (text : Str) (threshold : Nat) (finish : Nat → Value) {cs : Str}
    (hcs : ∀ c ∈ cs, c.isDigit) (n : Nat) :
    decodeDigits text threshold finish n cs =
        some (finish (cs.foldl (fun n c => n * 10 + (c.toNat - '0'.toNat)) n)) ∨
      decodeDigits text threshold finish n cs = decodeDouble text := by
  induction cs generalizing n with
  | nil => exact Or.inl rfl
  | cons c cs ih =>
    rw [List.forall_mem_cons] at hcs
    rw [decodeDigits, if_neg (not_not.mpr hcs.1)]
    split_ifs
    · exact Or.inr rfl
    · exact ih hcs.2 _

theorem exists_decodeDigits {text : Str} (h : IsDecimal text) (threshold : Nat)
    (finish : Nat → Value) {cs : Str} (hcs : ∀ c ∈ cs, c.isDigit) :
    ∃ v, decodeDigits text threshold finish 0 cs = some v := by
  rcases decodeDigits_eq_or text threshold finish hcs 0 with heq | heq
  · exact ⟨_, heq⟩
  · obtain ⟨q, hq⟩ := decodeDouble_of_decimal h
    exact ⟨_, heq.trans hq⟩

/-- Without a point there are digits only, behind the sign. -/
theorem digits_of_noPoint {d : Char} {ds : Str} (hd : d.isDigit)
    (hds : ∀ c ∈ ds, c.isDigit ∨ c = '.') (hpoint : '.' ∉ ds) : ∀ c ∈ d :: ds, c.isDigit := by
  refine List.forall_mem_cons.mpr ⟨hd, fun c hc => (hds c hc).resolve_right fun heq => ?_⟩
  exact hpoint (heq ▸ hc)

/-- Every decimal number is read. -/
theorem decodeNumber_of_decimal {text : Str} (h : IsDecimal text) :
    ∃ v, decodeNumber text = some v := by
  rw [decodeNumber]
  split_ifs with hdouble hminus
  · obtain ⟨q, hq⟩ := decodeDouble_of_decimal h
    exact ⟨_, hq⟩
  all_goals
    have hpoint : '.' ∉ text := by
      intro hmem
      refine hdouble ?_
      rw [Bool.or_eq_true, List.any_eq_true]
      exact Or.inl ⟨'.', hmem, rfl⟩
    refine exists_decodeDigits h _ _ ?_
  · cases h with
    | positive hd hds => exact absurd (Option.some.inj hminus) (ne_sign_of_isDigit hd).1
    | negative hd hds =>
      refine digits_of_noPoint hd hds fun hmem => hpoint ?_
      exact List.mem_cons_of_mem _ (List.mem_cons_of_mem _ hmem)
  · cases h with
    | positive hd hds =>
      exact digits_of_noPoint hd hds fun hmem => hpoint (List.mem_cons_of_mem _ hmem)
    | negative hd hds => exact absurd rfl hminus

theorem decodeDouble_toStringNat (n : Nat) : decodeDouble (toStringNat n) = some (.real n) := by
  have hvalue := digitsValue_toStringNat n
  have hall : ∀ c ∈ toStringNat n, c.isDigit := fun c => isDigit_of_mem_toStringNat
  obtain ⟨d, ds, hn, hd, hds⟩ := exists_digit_toStringNat n
  rw [hn] at hvalue hall ⊢
  have htake : (d :: ds).takeWhile Char.isDigit = d :: ds :=
    List.takeWhile_eq_self_iff.mpr hall
  have hdrop : (d :: ds).dropWhile Char.isDigit = [] :=
    List.dropWhile_eq_nil_iff.mpr hall
  obtain ⟨hminus, hplus⟩ := ne_sign_of_isDigit hd
  have hvalue₀ : digitsValue [] = 0 := rfl
  unfold decodeDouble
  simp [hminus, hplus, htake, hdrop, hvalue, hvalue₀]

/-- A number with a decimal point. -/
theorem decodeDouble_point {whole fraction : Str} (hne : whole ≠ [])
    (hwhole : ∀ c ∈ whole, c.isDigit) (hfraction : ∀ c ∈ fraction, c.isDigit)
    (negative : Prop) [Decidable negative] :
    decodeDouble ((if negative then ['-'] else []) ++ whole ++ '.' :: fraction) =
      some (.real ((if negative then -1 else 1) *
        (digitsValue (whole ++ fraction) / 10 ^ fraction.length))) := by
  obtain ⟨d, ds, rfl⟩ := List.exists_cons_of_ne_nil hne
  have htake : ((d :: ds) ++ '.' :: fraction).takeWhile Char.isDigit = d :: ds := by
    rw [List.takeWhile_append_of_pos hwhole, List.takeWhile_cons_of_neg (by decide),
      List.append_nil]
  have hdrop : ((d :: ds) ++ '.' :: fraction).dropWhile Char.isDigit = '.' :: fraction := by
    rw [List.dropWhile_append_of_pos hwhole, List.dropWhile_cons_of_neg (by decide)]
  have htake' : fraction.takeWhile Char.isDigit = fraction :=
    List.takeWhile_eq_self_iff.mpr hfraction
  have hdrop' : fraction.dropWhile Char.isDigit = [] :=
    List.dropWhile_eq_nil_iff.mpr hfraction
  have hd := hwhole d List.mem_cons_self
  obtain ⟨hminus, hplus⟩ := ne_sign_of_isDigit hd
  have hzero : digitsValue [] = 0 := rfl
  rw [List.cons_append] at htake hdrop
  unfold decodeDouble
  split_ifs with hnegative
  · simp [htake, hdrop, htake', hdrop', hzero]
  · simp [htake, hdrop, htake', hdrop', hzero, hminus, hplus]

theorem length_decimals_le (m : Nat) : (toStringNat (m % 1000000)).length ≤ 6 := by
  rw [toStringNat, Nat.length_toDigits_le_iff (by decide) (by decide)]
  exact Nat.mod_lt _ (by decide)

/-- The fraction is padded to six digits. -/
theorem digitsValue_padded (m : Nat) :
    digitsValue (toStringNat (m / 1000000) ++
      (List.replicate (6 - (toStringNat (m % 1000000)).length) '0' ++
        toStringNat (m % 1000000))) = m := by
  have hpow : 10 ^ (toStringNat (m % 1000000)).length *
      10 ^ (6 - (toStringNat (m % 1000000)).length) = 1000000 := by
    rw [← Nat.pow_add, Nat.add_sub_cancel' (length_decimals_le m)]
  have hwhole := digitsValue_toStringNat (m / 1000000)
  have hrest := digitsValue_toStringNat (m % 1000000)
  rw [digitsValue_eq] at hwhole hrest ⊢
  rw [Nat.ofDigitChars_append, Nat.ofDigitChars_append, hwhole, Nat.ofDigitChars_replicate_zero,
    Nat.ofDigitChars_eq_ofDigitChars_zero, hrest, ← Nat.mul_assoc, hpow]
  exact Nat.div_add_mod m 1000000

/-- A printed coordinate is read back. -/
theorem decodeNumber_toStringDouble {K : Type} [Field K] [LinearOrder K] [FloorRing K] (x : K) :
    decodeNumber (toStringDouble x) = some (.real (printedDouble x)) := by
  rw [toStringDouble, printedDouble]
  generalize ⌊(if x < 0 then -x else x) * 1000000 + 1 / 2⌋.toNat = millionths
  have hne : toStringNat (millionths / 1000000) ≠ [] := Nat.toDigits_ne_nil
  have hlen : (List.replicate (6 - (toStringNat (millionths % 1000000)).length) '0' ++
      toStringNat (millionths % 1000000)).length = 6 := by
    rw [List.length_append, List.length_replicate,
      Nat.sub_add_cancel (length_decimals_le millionths)]
  rw [decodeNumber, if_pos]
  · rw [decodeDouble_point hne (fun c => isDigit_of_mem_toStringNat)
      (fun c => isDigit_of_mem_padded), digitsValue_padded, hlen]
    norm_num
  · rw [Bool.or_eq_true, List.any_eq_true]
    exact Or.inl ⟨'.', List.mem_append_right _ List.mem_cons_self, rfl⟩

/-- A 32-bit number is read back. -/
theorem decodeNumber_toStringNat {n : Nat} (h : n < 2 ^ 32) :
    ∃ v, decodeNumber (toStringNat n) = some v ∧ v.asUInt = .ok n := by
  have hvalue := digitsValue_toStringNat n
  have hall : ∀ c ∈ toStringNat n, c.isDigit := fun c => isDigit_of_mem_toStringNat
  have hnot : ∀ c ∈ toStringNat n, ∀ d, ¬ d.isDigit → c ≠ d := by
    rintro c hc d hd rfl
    exact hd (hall c hc)
  rw [decodeNumber, if_neg, if_neg]
  · rcases decodeDigits_eq_or (toStringNat n) (4294967295 / 10)
      (fun n => if n ≤ 2147483647 then .int n else .uint n) hall 0 with heq | heq
    · refine ⟨_, heq, ?_⟩
      unfold digitsValue at hvalue
      rw [hvalue]
      split_ifs
      · simp [asUInt]
      · rfl
    · refine ⟨_, heq.trans (decodeDouble_toStringNat n), ?_⟩
      have hle : (n : ℚ) ≤ (maxUInt : ℚ) := by
        unfold maxUInt
        exact_mod_cast (by omega : n ≤ 4294967295)
      rw [asUInt, if_pos ⟨Nat.cast_nonneg n, hle⟩]
      simp
  · intro hhead
    exact hnot _ (List.mem_of_head? hhead) '-' (by decide) rfl
  · simp only [Bool.or_eq_true, List.any_eq_true, decide_eq_true_eq, not_or, not_exists, not_and]
    refine ⟨fun c hc => ?_, fun c hc => hnot c (List.mem_of_mem_tail hc) '-' (by decide)⟩
    exact ⟨⟨⟨hnot c hc '.' (by decide), hnot c hc 'e' (by decide)⟩,
      hnot c hc 'E' (by decide)⟩, hnot c hc '+' (by decide)⟩

/-! ## Values -/

/-- The reader takes the text for the value and leaves what follows. -/
def ReadsIn (room : Option Nat) (text : Str) (v : Value) : Prop :=
  ∀ (fuel : Nat) (rest : Str), Delimited rest → 2 * text.length + 1 ≤ fuel →
    readValueIn room fuel (text ++ rest) = .ok (v, rest)

/-- Reading without limits. -/
abbrev Reads : Str → Value → Prop := ReadsIn none

/-- The room behind an opening bracket. -/
def inner (room : Option Nat) : Option Nat := room.map (· - 1)

/-- There is room for so many values inside each other. -/
def Deep (n : Nat) (room : Option Nat) : Prop := ∀ m ∈ room, n ≤ m

theorem deep_none (n : Nat) : Deep n none := fun _ h => by cases h

theorem deep_some (n k : Nat) : Deep n (some (k + n)) := by
  rintro m ⟨⟩
  omega

theorem Deep.ne_zero {n : Nat} {room : Option Nat} (h : Deep (n + 1) room) : room ≠ some 0 := by
  rintro rfl
  exact absurd (h 0 rfl) (by omega)

theorem Deep.inner {n : Nat} {room : Option Nat} (h : Deep (n + 1) room) :
    Deep n (inner room) := by
  intro m hm
  obtain ⟨k, hk, rfl⟩ := Option.map_eq_some_iff.mp hm
  have hle := h k hk
  omega

/-- The token fits into the buffer of `decodeDouble`. -/
def FitsBuffer (room : Option Nat) (text : Str) : Prop := room ≠ none → ¬ Overruns text

theorem fitsBuffer_none (text : Str) : FitsBuffer none text := fun h => absurd rfl h

theorem fitsBuffer_of_length {text : Str} (h : text.length ≠ bufferSize) (room : Option Nat) :
    FitsBuffer room text := fun _ hoverruns => h hoverruns.2

theorem FitsBuffer.inner {room : Option Nat} {text : Str} (h : FitsBuffer room text) :
    FitsBuffer (inner room) text := by
  refine fun hroom => h fun hnone => hroom ?_
  rw [hnone]
  rfl

theorem parseIn_of_readsIn {room : Option Nat} {text : Str} {v : Value}
    (h : ReadsIn room text v) : parseIn room text = .ok (some v) := by
  have hread := h (2 * text.length + 1) [] delimited_nil le_rfl
  rw [List.append_nil] at hread
  rw [parseIn, hread]

theorem parse_of_reads {text : Str} {v : Value} (h : Reads text v) : parse text = some v :=
  parse_of_parseIn (parseIn_of_readsIn h)

theorem decodeNumberIn_of_fits {room : Option Nat} {text : Str} (h : FitsBuffer room text) :
    decodeNumberIn room text = Stop.ofOption (decodeNumber text) := by
  rw [decodeNumberIn, if_neg]
  rintro ⟨hroom, hoverruns⟩
  exact h (Option.isSome_iff_ne_none.mp hroom) hoverruns

section

variable {room : Option Nat} (hroom : room ≠ some 0)

include hroom

theorem readsIn_decimal {text : Str} {v : Value} (h : IsDecimal text) (hfits : FitsBuffer room text)
    (hv : decodeNumber text = some v) : ReadsIn room text v := by
  intro fuel rest hrest hfuel
  obtain ⟨fuel, rfl⟩ : ∃ f, fuel = f + 1 := ⟨fuel - 1, by omega⟩
  rw [readValueIn, if_neg hroom, skipCommentTokens_of_type (readToken_decimal h hrest) (by simp)]
  simp only [decodeNumberIn_of_fits hfits, hv]
  rfl

theorem readsIn_string {body decoded : Str} (h : StringBody body)
    (hdecoded : decodeChars body = some decoded) :
    ReadsIn room ('"' :: body ++ ['"']) (.string decoded) := by
  intro fuel rest _ hfuel
  obtain ⟨fuel, rfl⟩ : ∃ f, fuel = f + 1 := ⟨fuel - 1, by omega⟩
  rw [List.append_assoc, List.singleton_append, readValueIn, if_neg hroom,
    skipCommentTokens_of_type (readToken_string h rest) (by simp)]
  simp only [decodeString_token, hdecoded]
  rfl

end

theorem reads_string {body decoded : Str} (h : StringBody body)
    (hdecoded : decodeChars body = some decoded) :
    Reads ('"' :: body ++ ['"']) (.string decoded) := readsIn_string (by simp) h hdecoded

/-- The tokens of one character. -/
theorem readToken_char (c : Char) {type : TokenType}
    (hc : ¬ (c = ' ' ∨ c = '\t' ∨ c = '\r' ∨ c = '\n')) (rest : Str)
    (hscan : scanToken c rest = (type, rest)) :
    readToken (c :: rest) = (⟨type, [c]⟩, rest) :=
  readToken_of_scan hc [] hscan

/-! ## Arrays -/

/-- What is read as a value does not close an array. -/
theorem head?_ne_of_readsIn {room : Option Nat} {text : Str} {v : Value}
    (h : ReadsIn room text v) (rest : Str) (hrest : Delimited rest) :
    (skipSpaces (text ++ rest)).head? ≠ some ']' := by
  intro hhead
  have hread := h (2 * text.length + 1) rest hrest le_rfl
  obtain ⟨tail, htail⟩ : ∃ tail, skipSpaces (text ++ rest) = ']' :: tail := by
    cases hskip : skipSpaces (text ++ rest) with
    | nil =>
      rw [hskip] at hhead
      cases hhead
    | cons c tail =>
      rw [hskip] at hhead
      exact ⟨tail, by rw [Option.some.inj hhead]⟩
  have htoken : ∃ token rest', readToken (text ++ rest) = (token, rest') ∧
      token.type = .arrayEnd := by
    refine ⟨_, _, rfl, ?_⟩
    simp only [htail]
    rfl
  obtain ⟨token, rest', htoken, htype⟩ := htoken
  rw [readValueIn, skipCommentTokens_of_type htoken (by simp [htype])] at hread
  split at hread
  · cases hread
  · simp [htype] at hread

theorem readArrayIn_printed {room : Option Nat} (es : List (Str × Value))
    (hes : ∀ e ∈ es, ReadsIn room e.1 e.2)
    (hne : es ≠ []) (acc : List Value) (fuel : Nat) (rest : Str)
    (hfuel : 2 * (List.intercalate [','] (es.map Prod.fst)).length + 2 ≤ fuel) :
    readArrayIn room fuel acc (List.intercalate [','] (es.map Prod.fst) ++ ']' :: rest) =
      .ok (.array (acc ++ es.map Prod.snd), rest) := by
  induction es generalizing acc fuel with
  | nil => exact absurd rfl hne
  | cons e es ih =>
    obtain ⟨he, hes⟩ := List.forall_mem_cons.mp hes
    obtain ⟨fuel, rfl⟩ : ∃ f, fuel = f + 1 := ⟨fuel - 1, by omega⟩
    cases es with
    | nil =>
      rw [List.map_singleton, List.intercalate_singleton] at hfuel ⊢
      have hread := he fuel (']' :: rest) (delimited_cons (by decide) _) (by omega)
      have hclose : skipCommentTokens (']' :: rest) = (⟨.arrayEnd, [']']⟩, rest) :=
        skipCommentTokens_of_type (readToken_char _ (by decide) _ rfl) (by simp)
      rw [readArrayIn, hread]
      simp [hclose]
    | cons e' es =>
      rw [List.map_cons, List.map_cons, List.intercalate_cons_cons] at hfuel ⊢
      simp only [List.length_append, List.length_singleton] at hfuel
      simp only [List.append_assoc, List.cons_append, List.nil_append]
      have hread := he fuel (',' :: (List.intercalate [','] (e'.1 :: es.map Prod.fst) ++
        ']' :: rest)) (delimited_cons (by decide) _) (by omega)
      have hcomma := fun cs : Str => skipCommentTokens_of_type
        (readToken_char ',' (by decide) cs rfl) (by simp)
      have hrest := ih hes (List.cons_ne_nil _ _) (acc ++ [e.2]) fuel (by
        rw [List.map_cons]
        omega)
      rw [readArrayIn, hread]
      simp only [hcomma]
      rw [if_neg (by simp)]
      simpa using hrest

/-- Printed arrays are read back. -/
theorem readsIn_printArray {room : Option Nat} (hroom : room ≠ some 0)
    {es : List (Str × Value)} (hes : ∀ e ∈ es, ReadsIn (inner room) e.1 e.2) :
    ReadsIn room (printArray (es.map Prod.fst)) (.array (es.map Prod.snd)) := by
  intro fuel rest _ hfuel
  obtain ⟨fuel, rfl⟩ : ∃ f, fuel = f + 1 := ⟨fuel - 1, by omega⟩
  have hopen := fun cs : Str => skipCommentTokens_of_type
    (readToken_char '[' (by decide) cs rfl) (by simp)
  rw [printArray, List.append_assoc, List.singleton_append, List.cons_append, readValueIn,
    if_neg hroom, hopen]
  unfold printArray at hfuel
  simp only [List.length_append, List.length_cons, List.length_nil] at hfuel
  simp only
  cases es with
  | nil =>
    have hclose : readToken (']' :: rest) = (⟨.arrayEnd, [']']⟩, rest) :=
      readToken_char _ (by decide) _ rfl
    simp [List.intercalate, skipSpaces, hclose]
  | cons e es =>
    have hhead : (skipSpaces (List.intercalate [','] ((e :: es).map Prod.fst) ++
        ']' :: rest)).head? ≠ some ']' := by
      have hread := hes e List.mem_cons_self
      cases es with
      | nil =>
        rw [List.map_singleton, List.intercalate_singleton]
        exact head?_ne_of_readsIn hread _ (delimited_cons (by decide) _)
      | cons e' es =>
        rw [List.map_cons, List.map_cons, List.intercalate_cons_cons, List.append_assoc,
          List.append_assoc]
        exact head?_ne_of_readsIn hread _ (delimited_cons (by decide) _)
    rw [if_neg hhead, ← inner, readArrayIn_printed (e :: es) hes
      (List.cons_ne_nil _ _) [] fuel rest (by omega), List.nil_append]

theorem reads_printArray {es : List (Str × Value)} (hes : ∀ e ∈ es, Reads e.1 e.2) :
    Reads (printArray (es.map Prod.fst)) (.array (es.map Prod.snd)) :=
  readsIn_printArray (by simp) hes

/-! ## Objects -/

/-- A member name without anything to escape. -/
def PlainKey (key : Str) : Prop := ∀ c ∈ key, c ≠ '"' ∧ c ≠ '\\' ∧ c ≠ '\x00'

instance (key : Str) : Decidable (PlainKey key) :=
  List.decidableBAll (fun c => c ≠ '"' ∧ c ≠ '\\' ∧ c ≠ '\x00') key

theorem PlainKey.body {key : Str} (h : PlainKey key) : StringBody key := by
  induction key with
  | nil => exact .nil
  | cons c cs ih =>
    obtain ⟨⟨hquote, hescape, _⟩, hcs⟩ := List.forall_mem_cons.mp h
    exact .char hquote hescape (ih hcs)

theorem PlainKey.decodeChars {key : Str} (h : PlainKey key) : decodeChars key = some key := by
  induction key with
  | nil => rfl
  | cons c cs ih =>
    obtain ⟨⟨hquote, hescape, _⟩, hcs⟩ := List.forall_mem_cons.mp h
    rw [decodeChars_char hquote hescape, ih hcs]
    rfl

theorem PlainKey.cStr {key : Str} (h : PlainKey key) : cStr key = key :=
  cStr_eq_self fun hmem => (h _ hmem).2.2 rfl

theorem setMember_of_notMem {key : Str} {members : List (Str × Value)}
    (h : key ∉ members.map Prod.fst) (v : Value) :
    setMember key v members = members ++ [(key, v)] := by
  induction members with
  | nil => rfl
  | cons m members ih =>
    rw [List.map_cons, List.mem_cons, not_or] at h
    rw [setMember, if_neg (Ne.symm h.1), ih h.2, List.cons_append]

/-- The head of a member. -/
theorem readObjectIn_key {room : Option Nat} {fuel : Nat} {name : Str}
    {members : List (Str × Value)} {key text : Str} (hkey : PlainKey key) (rest : Str) :
    readObjectIn room (fuel + 1) name members (printMember key text ++ rest) =
      (readValueIn room fuel (text ++ rest)).bind fun element =>
        let members := setMember key element.1 members
        let comma := (readToken element.2).1
        if comma.type ≠ .objectEnd ∧ comma.type ≠ .arraySeparator ∧ comma.type ≠ .comment then
          .error .error
        else if (skipCommentTokens element.2).1.type = .objectEnd then
          .ok (.object members, (skipCommentTokens element.2).2)
        else readObjectIn room fuel key members (skipCommentTokens element.2).2 := by
  have hname : skipCommentTokens (printMember key text ++ rest) =
      (⟨.string, '"' :: key ++ ['"']⟩, ':' :: (text ++ rest)) := by
    rw [printMember, List.append_assoc, List.cons_append, List.cons_append]
    exact skipCommentTokens_of_type (readToken_string hkey.body _) (by simp)
  have hcolon : readToken (':' :: (text ++ rest)) = (⟨.memberSeparator, [':']⟩, text ++ rest) :=
    readToken_char _ (by decide) _ rfl
  rw [readObjectIn, hname]
  simp only [decodeString_token, hkey.decodeChars, hcolon, hkey.cStr]
  rw [if_neg (by simp), if_neg (by simp), if_neg (by simp)]
  cases readValueIn room fuel (text ++ rest) <;> rfl

theorem readObjectIn_member {room : Option Nat} {fuel : Nat} {name : Str}
    {members : List (Str × Value)} {key text : Str} {v : Value} (hkey : PlainKey key)
    (hread : ReadsIn room text v) {rest : Str} (hrest : Delimited rest)
    (hfuel : 2 * text.length + 1 ≤ fuel) :
    readObjectIn room (fuel + 1) name members (printMember key text ++ rest) =
      let members := setMember key v members
      let comma := (readToken rest).1
      if comma.type ≠ .objectEnd ∧ comma.type ≠ .arraySeparator ∧ comma.type ≠ .comment then
        .error .error
      else if (skipCommentTokens rest).1.type = .objectEnd then
        .ok (.object members, (skipCommentTokens rest).2)
      else readObjectIn room fuel key members (skipCommentTokens rest).2 := by
  rw [readObjectIn_key hkey, hread fuel rest hrest hfuel]
  rfl

theorem readObjectIn_printed {room : Option Nat} (ms : List (Str × Str × Value))
    (hms : ∀ m ∈ ms, PlainKey m.1 ∧ ReadsIn room m.2.1 m.2.2) (hne : ms ≠ []) (name : Str)
    (members : List (Str × Value)) (hnodup : (members.map Prod.fst ++ ms.map Prod.fst).Nodup)
    (fuel : Nat) (rest : Str)
    (hfuel : 2 * (List.intercalate [','] (ms.map fun m => printMember m.1 m.2.1)).length + 2 ≤
      fuel) :
    readObjectIn room fuel name members
        (List.intercalate [','] (ms.map fun m => printMember m.1 m.2.1) ++ '}' :: rest) =
      .ok (.object (members ++ ms.map fun m => (m.1, m.2.2)), rest) := by
  induction ms generalizing name members fuel with
  | nil => exact absurd rfl hne
  | cons m ms ih =>
    obtain ⟨⟨hkey, hread⟩, hms⟩ := List.forall_mem_cons.mp hms
    have hnew : m.1 ∉ members.map Prod.fst := fun hmem =>
      (List.nodup_append.mp hnodup).2.2 _ hmem _ List.mem_cons_self rfl
    obtain ⟨fuel, rfl⟩ : ∃ f, fuel = f + 1 := ⟨fuel - 1, by omega⟩
    have hlen : (printMember m.1 m.2.1).length = m.1.length + m.2.1.length + 3 := by
      simp only [printMember, List.length_append, List.length_cons]
      omega
    cases ms with
    | nil =>
      rw [List.map_singleton, List.intercalate_singleton] at hfuel ⊢
      have hclose : readToken ('}' :: rest) = (⟨.objectEnd, ['}']⟩, rest) :=
        readToken_char _ (by decide) _ rfl
      rw [readObjectIn_member hkey hread (delimited_cons (by decide) _) (by omega), hclose,
        skipCommentTokens_of_type hclose (by simp), setMember_of_notMem hnew]
      simp
    | cons m' ms =>
      rw [List.map_cons, List.map_cons, List.intercalate_cons_cons] at hfuel ⊢
      simp only [List.length_append, List.length_singleton] at hfuel
      simp only [List.append_assoc, List.cons_append, List.nil_append]
      have hcomma := fun cs : Str => readToken_char ',' (by decide) cs rfl
      have hrest := ih hms (List.cons_ne_nil _ _) m.1 (members ++ [(m.1, m.2.2)])
        (by simpa using hnodup) fuel (by
          rw [List.map_cons]
          omega)
      rw [readObjectIn_member hkey hread (delimited_cons (by decide) _) (by omega), hcomma,
        skipCommentTokens_of_type (hcomma _) (by simp), setMember_of_notMem hnew]
      simpa using hrest

/-- Printed objects are read back. -/
theorem readsIn_printObject {room : Option Nat} (hroom : room ≠ some 0)
    (ms : List (Str × Str × Value)) (hne : ms ≠ []) (hnodup : (ms.map Prod.fst).Nodup)
    (hms : ∀ m ∈ ms, PlainKey m.1 ∧ ReadsIn (inner room) m.2.1 m.2.2) :
    ReadsIn room (printObject (ms.map fun m => (m.1, m.2.1)))
      (.object (ms.map fun m => (m.1, m.2.2))) := by
  intro fuel rest _ hfuel
  obtain ⟨fuel, rfl⟩ : ∃ f, fuel = f + 1 := ⟨fuel - 1, by omega⟩
  have hopen := fun cs : Str => skipCommentTokens_of_type
    (readToken_char '{' (by decide) cs rfl) (by simp)
  rw [printObject, List.map_map] at hfuel ⊢
  rw [List.append_assoc, List.singleton_append, List.cons_append, readValueIn,
    if_neg hroom, hopen]
  simp only [List.length_append, List.length_cons, List.length_nil] at hfuel
  exact readObjectIn_printed ms hms hne [] [] hnodup fuel rest (by
    simp only [Function.comp_def] at hfuel
    omega)

theorem reads_printObject (ms : List (Str × Str × Value)) (hne : ms ≠ [])
    (hnodup : (ms.map Prod.fst).Nodup) (hms : ∀ m ∈ ms, PlainKey m.1 ∧ Reads m.2.1 m.2.2) :
    Reads (printObject (ms.map fun m => (m.1, m.2.1)))
      (.object (ms.map fun m => (m.1, m.2.2))) :=
  readsIn_printObject (by simp) ms hne hnodup hms

theorem reads_member {key text : Str} {v : Value} (hkey : PlainKey key) (h : Reads text v) :
    Reads (printObject [(key, text)]) (.object [(key, v)]) := by
  refine reads_printObject [(key, text, v)] (List.cons_ne_nil _ _)
    (List.pairwise_singleton _ key) ?_
  rw [List.forall_mem_singleton]
  exact ⟨hkey, h⟩

/-- The same element again and again. -/
theorem reads_replicate {text : Str} {v : Value} (h : Reads text v) (n : Nat) :
    Reads (printArray (List.replicate n text)) (.array (List.replicate n v)) := by
  have hes : ∀ e ∈ List.replicate n (text, v), Reads e.1 e.2 := by
    intro e he
    rw [List.eq_of_mem_replicate he]
    exact h
  have harray := reads_printArray hes
  rwa [List.map_replicate, List.map_replicate] at harray

end MinorityViewport.Json.Reader
