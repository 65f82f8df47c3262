import MinorityViewport.Json.Value

/-!
# The JSON reader

`Reader::parse` of `Data/JSON/json_reader.cpp`, with the features that the
default constructor turns on: comments are skipped and the root may be any
value.  `parse` answers `none` where the source answers `false`.  What the
source does after an error (`recoverFromError`) only moves the read
position, and every caller passes the `false` on, so it is left out, and so
are the error texts and the collected comments.

The reader is more tolerant than JSON.  `readArray` takes any token as a
separator, because its test for a bad token asks for two types at once, and
`parse` does not look at what follows the root value.

The readers of nested values take fuel.  `parse` gives twice the length of
the document and one more, which is enough (`readValue_fuel`).
-/

namespace MinorityViewport.Json.Reader

inductive TokenType where
  | endOfStream
  | objectBegin
  | objectEnd
  | arrayBegin
  | arrayEnd
  | string
  | number
  | true
  | false
  | null
  | arraySeparator
  | memberSeparator
  | comment
  | error
  deriving DecidableEq, Repr

/-- A token with the text from its start to its end. -/
structure Token where
  type : TokenType
  text : Str
  deriving DecidableEq, Repr

/-! ## Tokens -/

def skipSpaces (cs : Str) : Str :=
  cs.dropWhile fun c => c = ' ' || c = '\t' || c = '\r' || c = '\n'

/-- Skip `pattern`, or fail without moving. -/
def matchText (pattern cs : Str) : Bool × Str :=
  if pattern.isPrefixOf cs then (true, cs.drop pattern.length) else (false, cs)

/-- The rest of a C comment, after its opening. -/
def readCStyleComment : Str → Bool × Str
  | [] => (false, [])
  | c :: cs =>
    if c = '*' ∧ cs.head? = some '/' then (true, cs.tail) else readCStyleComment cs

/-- The rest of a line comment. -/
def readCppStyleComment : Str → Str
  | [] => []
  | c :: cs => if c = '\r' ∨ c = '\n' then cs else readCppStyleComment cs

/-- What follows a `/`. -/
def readComment : Str → Bool × Str
  | [] => (false, [])
  | c :: cs =>
    if c = '*' then readCStyleComment cs
    else if c = '/' then (true, readCppStyleComment cs)
    else (false, cs)

def isNumberChar (c : Char) : Bool :=
  c.isDigit || c = '.' || c = 'e' || c = 'E' || c = '+' || c = '-'

/-- What follows an opening quote: up to the quote that no backslash hides. -/
def readString : Str → Bool × Str
  | [] => (false, [])
  | [c] => (c = '"', [])
  | c :: d :: cs =>
    if c = '\\' then readString cs
    else if c = '"' then (true, d :: cs)
    else readString (d :: cs)

/-- The type of the token that starts with `c`, and the position after it. -/
def scanToken (c : Char) (cs : Str) : TokenType × Str :=
  let orError (type : TokenType) (scan : Bool × Str) : TokenType × Str :=
    (if scan.1 then type else .error, scan.2)
  match c with
  | '{' => (.objectBegin, cs)
  | '}' => (.objectEnd, cs)
  | '[' => (.arrayBegin, cs)
  | ']' => (.arrayEnd, cs)
  | '"' => orError .string (readString cs)
  | '/' => orError .comment (readComment cs)
  | 't' => orError .true (matchText "rue".toList cs)
  | 'f' => orError .false (matchText "alse".toList cs)
  | 'n' => orError .null (matchText "ull".toList cs)
  | ',' => (.arraySeparator, cs)
  | ':' => (.memberSeparator, cs)
  | '\x00' => (.endOfStream, cs)
  | _ =>
    if c.isDigit || c = '-' then (.number, cs.dropWhile isNumberChar)
    else (.error, cs)

def readToken (cs : Str) : Token × Str :=
  match skipSpaces cs with
  | [] => (⟨.endOfStream, []⟩, [])
  | c :: rest =>
    let (type, rest') := scanToken c rest
    (⟨type, (c :: rest).take (rest.length + 1 - rest'.length)⟩, rest')

/-- Read tokens until one is no comment. -/
def skipComments : Nat → Str → Token × Str
  | 0, cs => readToken cs
  | fuel + 1, cs =>
    let (token, rest) := readToken cs
    if token.type = .comment then skipComments fuel rest else (token, rest)

def skipCommentTokens (cs : Str) : Token × Str := skipComments cs.length cs

/-! ## Numbers -/

/-- `sscanf` with `%lf`: the longest prefix that is a decimal number. -/
def decodeDouble (text : Str) : Option Value :=
  let (negative, body) := match text with
    | '-' :: rest => (true, rest)
    | '+' :: rest => (false, rest)
    | _ => (false, text)
  let whole := body.takeWhile Char.isDigit
  let (fraction, rest) := match body.dropWhile Char.isDigit with
    | '.' :: rest => (rest.takeWhile Char.isDigit, rest.dropWhile Char.isDigit)
    | rest => ([], rest)
  if whole = [] ∧ fraction = [] then none
  else
    let (expNegative, expDigits) := match rest with
      | 'e' :: '-' :: rest | 'E' :: '-' :: rest => (true, rest.takeWhile Char.isDigit)
      | 'e' :: '+' :: rest | 'E' :: '+' :: rest => (false, rest.takeWhile Char.isDigit)
      | 'e' :: rest | 'E' :: rest => (false, rest.takeWhile Char.isDigit)
      | _ => (false, [])
    let mantissa : ℚ := digitsValue (whole ++ fraction) / 10 ^ fraction.length
    let magnitude : ℚ :=
      if expNegative then mantissa / 10 ^ digitsValue expDigits
      else mantissa * 10 ^ digitsValue expDigits
    some (.real (if negative then -magnitude else magnitude))

/-- The digit loop of `decodeNumber`.  A value that reaches `threshold`
before its last digit is read as a real. -/
def decodeDigits (text : Str) (threshold : Nat) (finish : Nat → Value) :
    Nat → Str → Option Value
  | value, [] => some (finish value)
  | value, c :: cs =>
    if ¬ c.isDigit then none
    else if threshold ≤ value then decodeDouble text
    else decodeDigits text threshold finish (value * 10 + (c.toNat - '0'.toNat)) cs

def decodeNumber (text : Str) : Option Value :=
  let isDouble := text.any (fun c => c = '.' || c = 'e' || c = 'E' || c = '+') ||
    text.tail.any (· = '-')
  if isDouble then decodeDouble text
  else if text.head? = some '-' then
    decodeDigits text (2147483648 / 10) (fun n => .int (-n)) 0 text.tail
  else
    decodeDigits text (4294967295 / 10)
      (fun n => if n ≤ 2147483647 then .int n else .uint n) 0 text

/-! ## Strings -/

def hexDigit (c : Char) : Option Nat :=
  if '0' ≤ c ∧ c ≤ '9' then some (c.toNat - '0'.toNat)
  else if 'a' ≤ c ∧ c ≤ 'f' then some (c.toNat - 'a'.toNat + 10)
  else if 'A' ≤ c ∧ c ≤ 'F' then some (c.toNat - 'A'.toNat + 10)
  else none

/-- The number that four hexadecimal digits spell. -/
def decodeUnicodeEscapeSequence (a b c d : Char) : Option Nat := do
  let a ← hexDigit a
  let b ← hexDigit b
  let c ← hexDigit c
  let d ← hexDigit d
  pure (((a * 16 + b) * 16 + c) * 16 + d)

def codePointToUTF8 (cp : Nat) : Str :=
  if cp ≤ 0x7F then [Char.ofNat cp]
  else if cp ≤ 0x7FF then
    [Char.ofNat (0xC0 + cp / 64 % 32), Char.ofNat (0x80 + cp % 64)]
  else if cp ≤ 0xFFFF then
    [Char.ofNat (0xE0 + cp / 4096 % 16), Char.ofNat (0x80 + cp / 64 % 64),
      Char.ofNat (0x80 + cp % 64)]
  else if cp ≤ 0x10FFFF then
    [Char.ofNat (0xF0 + cp / 262144 % 8), Char.ofNat (0x80 + cp / 4096 % 64),
      Char.ofNat (0x80 + cp / 64 % 64), Char.ofNat (0x80 + cp % 64)]
  else []

/-- The escapes of one letter. -/
def simpleEscape (c : Char) : Option Char :=
  match c with
  | '"' => some '"'
  | '/' => some '/'
  | '\\' => some '\\'
  | 'b' => some '\x08'
  | 'f' => some '\x0c'
  | 'n' => some '\n'
  | 'r' => some '\r'
  | 't' => some '\t'
  | _ => none

/-- The text between the quotes of a string token, with its escapes
resolved. -/
def decodeChars : Str → Option Str
  | [] => some []
  | c :: rest =>
    if c = '"' then some []
    else if c ≠ '\\' then (decodeChars rest).map (c :: ·)
    else match rest with
      | [] => none
      | 'u' :: rest =>
        match rest with
        | a :: b :: c :: d :: rest => do
          let unicode ← decodeUnicodeEscapeSequence a b c d
          if 0xD800 ≤ unicode ∧ unicode ≤ 0xDBFF then
            -- the second half of a surrogate pair must follow
            match rest with
            | '\\' :: 'u' :: e :: f :: g :: h :: rest => do
              let surrogatePair ← decodeUnicodeEscapeSequence e f g h
              let decoded ← decodeChars rest
              pure (codePointToUTF8
                (0x10000 + unicode % 0x400 * 0x400 + surrogatePair % 0x400) ++ decoded)
            | _ => none
          else
            let decoded ← decodeChars rest
            pure (codePointToUTF8 unicode ++ decoded)
        | _ => none
      | e :: rest =>
        match simpleEscape e with
        | some c => (decodeChars rest).map (c :: ·)
        | none => none

def decodeString (text : Str) : Option Str := decodeChars text.tail.dropLast

/-! ## Values -/

mutual

def readValue : Nat → Str → Option (Value × Str)
  | 0, _ => none
  | fuel + 1, cs =>
    let (token, rest) := skipCommentTokens cs
    match token.type with
    | .objectBegin => readObject fuel [] [] rest
    | .arrayBegin =>
      if (skipSpaces rest).head? = some ']' then
        some (.array [], (readToken rest).2)
      else readArray fuel [] rest
    | .number => (decodeNumber token.text).map (·, rest)
    | .string => (decodeString token.text).map fun decoded => (.string decoded, rest)
    | .true => some (.boolean true, rest)
    | .false => some (.boolean false, rest)
    | .null => some (.null, rest)
    | _ => none

/-- The member loop, with the last member name and the members so far. -/
def readObject : Nat → Str → List (Str × Value) → Str → Option (Value × Str)
  | 0, _, _, _ => none
  | fuel + 1, name, members, cs =>
    let (tokenName, rest) := skipCommentTokens cs
    if tokenName.type = .objectEnd ∧ name = [] then some (.object members, rest)
    else if tokenName.type ≠ .string then none
    else match decodeString tokenName.text with
      | none => none
      | some name =>
        let (colon, rest) := readToken rest
        if colon.type ≠ .memberSeparator then none
        else match readValue fuel rest with
          | none => none
          | some (value, rest) =>
            let members := Value.setMember (cStr name) value members
            let comma := (readToken rest).1
            if comma.type ≠ .objectEnd ∧ comma.type ≠ .arraySeparator ∧
                comma.type ≠ .comment then none
            else
              let (comma, rest) := skipCommentTokens rest
              if comma.type = .objectEnd then some (.object members, rest)
              else readObject fuel name members rest

/-- The element loop.  Any token but `]` separates two elements. -/
def readArray : Nat → List Value → Str → Option (Value × Str)
  | 0, _, _ => none
  | fuel + 1, elements, cs =>
    match readValue fuel cs with
    | none => none
    | some (value, rest) =>
      let (token, rest) := skipCommentTokens rest
      if token.type = .arrayEnd then some (.array (elements ++ [value]), rest)
      else readArray fuel (elements ++ [value]) rest

end

/-- `Reader::parse`. -/
def parse (document : Str) : Option Value :=
  (readValue (2 * document.length + 1) document).map (·.1)

/-! ## What the reader leaves -/

theorem readCStyleComment_suffix (cs : Str) : (readCStyleComment cs).2 <:+ cs := by
  induction cs with
  | nil => exact List.suffix_refl _
  | cons c cs ih =>
    unfold readCStyleComment
    split_ifs
    · exact (List.tail_suffix cs).trans (List.suffix_cons c cs)
    · exact ih.trans (List.suffix_cons c cs)

theorem readCppStyleComment_suffix (cs : Str) : readCppStyleComment cs <:+ cs := by
  induction cs with
  | nil => exact List.suffix_refl _
  | cons c cs ih =>
    unfold readCppStyleComment
    split_ifs
    · exact List.suffix_cons c cs
    · exact ih.trans (List.suffix_cons c cs)

theorem readComment_suffix (cs : Str) : (readComment cs).2 <:+ cs := by
  cases cs with
  | nil => exact List.suffix_refl _
  | cons c cs =>
    rw [readComment]
    split_ifs
    · exact (readCStyleComment_suffix cs).trans (List.suffix_cons c cs)
    · exact (readCppStyleComment_suffix cs).trans (List.suffix_cons c cs)
    · exact List.suffix_cons c cs

theorem readString_suffix (cs : Str) : (readString cs).2 <:+ cs := by
  induction cs using readString.induct with
  | case1 => exact List.suffix_refl _
  | case2 c => exact List.nil_suffix
  | case3 d cs ih =>
    rw [readString, if_pos rfl]
    exact ih.trans ((List.suffix_cons d cs).trans (List.suffix_cons _ _))
  | case4 d cs h =>
    rw [readString, if_neg h, if_pos rfl]
    exact List.suffix_cons _ _
  | case5 c d cs h1 h2 ih =>
    rw [readString, if_neg h1, if_neg h2]
    exact ih.trans (List.suffix_cons c _)

theorem matchText_suffix (pattern cs : Str) : (matchText pattern cs).2 <:+ cs := by
  unfold matchText
  split_ifs
  · exact List.drop_suffix _ _
  · exact List.suffix_refl _

theorem scanToken_suffix (c : Char) (cs : Str) : (scanToken c cs).2 <:+ cs := by
  unfold scanToken
  split <;> first
    | exact List.suffix_refl _
    | exact readString_suffix cs
    | exact readComment_suffix cs
    | exact matchText_suffix _ cs
    | (split_ifs; exacts [List.dropWhile_suffix _, List.suffix_refl _])

theorem readToken_suffix (cs : Str) : (readToken cs).2 <:+ cs := by
  have hskip : skipSpaces cs <:+ cs := List.dropWhile_suffix _
  unfold readToken
  split
  · exact List.nil_suffix
  · rename_i c rest heq
    rw [heq] at hskip
    exact (scanToken_suffix c rest).trans ((List.suffix_cons c rest).trans hskip)

theorem skipComments_suffix (n : Nat) (cs : Str) : (skipComments n cs).2 <:+ cs := by
  induction n generalizing cs with
  | zero => exact readToken_suffix cs
  | succ n ih =>
    unfold skipComments
    simp only
    split_ifs
    · exact (ih _).trans (readToken_suffix cs)
    · exact readToken_suffix cs

theorem skipCommentTokens_suffix (cs : Str) : (skipCommentTokens cs).2 <:+ cs :=
  skipComments_suffix cs.length cs

/-- The reader leaves `rest` of `cs` and has moved on. -/
def Leaves (rest cs : Str) : Prop := rest <:+ cs ∧ rest.length < cs.length

theorem Leaves.of_suffix {rest mid cs : Str} (h : rest <:+ mid) (h' : Leaves mid cs) :
    Leaves rest cs := ⟨h.trans h'.1, h.length_le.trans_lt h'.2⟩

theorem Leaves.trans_suffix {rest mid cs : Str} (h : Leaves rest mid) (h' : mid <:+ cs) :
    Leaves rest cs := ⟨h.1.trans h', h.2.trans_le h'.length_le⟩

/-- A token that is not the end of the document takes a character. -/
theorem readToken_leaves {cs : Str} (h : (readToken cs).1.type ≠ .endOfStream) :
    Leaves (readToken cs).2 cs := by
  refine ⟨readToken_suffix cs, ?_⟩
  have hskip : skipSpaces cs <:+ cs := List.dropWhile_suffix _
  rw [readToken] at h ⊢
  split at h
  · exact absurd rfl h
  · rename_i c rest heq
    rw [heq] at hskip
    have hlen := hskip.length_le
    have hscan := (scanToken_suffix c rest).length_le
    rw [List.length_cons] at hlen
    simp only
    omega

theorem skipComments_leaves (n : Nat) {cs : Str}
    (h : (skipComments n cs).1.type ≠ .endOfStream) : Leaves (skipComments n cs).2 cs := by
  induction n generalizing cs with
  | zero => exact readToken_leaves h
  | succ n ih =>
    rw [skipComments] at h ⊢
    simp only at h ⊢
    split_ifs at h ⊢
    · exact (ih h).trans_suffix (readToken_suffix cs)
    · exact readToken_leaves h

theorem skipCommentTokens_leaves {cs : Str}
    (h : (skipCommentTokens cs).1.type ≠ .endOfStream) : Leaves (skipCommentTokens cs).2 cs :=
  skipComments_leaves cs.length h

/-- Whatever is read takes a character. -/
structure AllLeave (fuel : Nat) : Prop where
  value : ∀ cs v rest, readValue fuel cs = some (v, rest) → Leaves rest cs
  object : ∀ name members cs v rest,
    readObject fuel name members cs = some (v, rest) → Leaves rest cs
  array : ∀ elements cs v rest, readArray fuel elements cs = some (v, rest) → Leaves rest cs

theorem AllLeave.value_succ {fuel : Nat} (hleave : AllLeave fuel) {cs rest : Str} {v : Value}
    (h : readValue (fuel + 1) cs = some (v, rest)) : Leaves rest cs := by
  unfold readValue at h
  simp only at h
  split at h
  case h_1 => exact (hleave.object _ _ _ _ _ h).trans_suffix (skipCommentTokens_suffix cs)
  case h_2 heq =>
    split_ifs at h
    · obtain ⟨_, rfl⟩ := Prod.mk.inj (Option.some.inj h)
      exact .of_suffix (readToken_suffix _) (skipCommentTokens_leaves (by simp [heq]))
    · exact (hleave.array _ _ _ _ h).trans_suffix (skipCommentTokens_suffix cs)
  case h_3 heq | h_4 heq =>
    obtain ⟨w, _, hw⟩ := Option.map_eq_some_iff.mp h
    obtain ⟨_, rfl⟩ := Prod.mk.inj hw
    exact skipCommentTokens_leaves (by simp [heq])
  case h_5 heq | h_6 heq | h_7 heq =>
    obtain ⟨_, rfl⟩ := Prod.mk.inj (Option.some.inj h)
    exact skipCommentTokens_leaves (by simp [heq])
  case h_8 => cases h

theorem AllLeave.object_succ {fuel : Nat} (hleave : AllLeave fuel) {name : Str}
    {members : List (Str × Value)} {cs rest : Str} {v : Value}
    (h : readObject (fuel + 1) name members cs = some (v, rest)) : Leaves rest cs := by
  have htoken := skipCommentTokens_suffix cs
  unfold readObject at h
  simp only at h
  split at h
  · rename_i hend
    obtain ⟨_, rfl⟩ := Prod.mk.inj (Option.some.inj h)
    exact skipCommentTokens_leaves (by simp [hend.1])
  split at h
  · cases h
  split at h
  · cases h
  split at h
  · cases h
  split at h
  · cases h
  rename_i value rest' hvalue
  have hrest : Leaves rest' cs :=
    (hleave.value _ _ _ hvalue).trans_suffix ((readToken_suffix _).trans htoken)
  have hcomma : Leaves (skipCommentTokens rest').2 cs :=
    .of_suffix (skipCommentTokens_suffix rest') hrest
  split_ifs at h
  · obtain ⟨_, rfl⟩ := Prod.mk.inj (Option.some.inj h)
    exact hcomma
  · exact (hleave.object _ _ _ _ _ h).trans_suffix hcomma.1

theorem AllLeave.array_succ {fuel : Nat} (hleave : AllLeave fuel) {elements : List Value}
    {cs rest : Str} {v : Value} (h : readArray (fuel + 1) elements cs = some (v, rest)) :
    Leaves rest cs := by
  unfold readArray at h
  split at h
  · cases h
  · rename_i value rest' hvalue
    have hcomma : Leaves (skipCommentTokens rest').2 cs :=
      .of_suffix (skipCommentTokens_suffix rest') (hleave.value _ _ _ hvalue)
    simp only at h
    split_ifs at h
    · obtain ⟨_, rfl⟩ := Prod.mk.inj (Option.some.inj h)
      exact hcomma
    · exact (hleave.array _ _ _ _ h).trans_suffix hcomma.1

theorem allLeave (fuel : Nat) : AllLeave fuel := by
  induction fuel with
  | zero =>
    constructor
    · intro cs v rest h
      simp [readValue] at h
    · intro name members cs v rest h
      simp [readObject] at h
    · intro elements cs v rest h
      simp [readArray] at h
  | succ fuel ih =>
    exact ⟨fun _ _ _ => ih.value_succ, fun _ _ _ _ _ => ih.object_succ,
      fun _ _ _ _ => ih.array_succ⟩

end MinorityViewport.Json.Reader
