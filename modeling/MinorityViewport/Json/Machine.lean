import MinorityViewport.Json.Reader

/-!
# The reader on a machine

`Reader.parse` answers what a text says.  Two things can keep
`Reader::parse` from this answer.  `decodeDouble` copies a token of up to 32
characters into a buffer of 32 and writes a zero behind it, which a token of
32 characters leaves no place for.  And `readValue`, `readObject` and
`readArray` call each other without a limit, so a text that opens enough
arrays overflows the stack.

A `Machine` says how many values fit on the stack, or that there are no
limits.  `read` is `Reader::parse` on it: it answers what `parse` answers
(`parse_of_read`), or ends with a fault.  `read_of_tame` is a condition on
the text alone under which it answers.
-/

namespace MinorityViewport.Json

/-- The machine that the server runs on. -/
class Machine where
  /-- How many values the reader can have open before the stack is full, or
  `none` for a machine without limits. -/
  stack : Option Nat

/-- What is said of no machine in particular is said of one without limits. -/
instance (priority := low) Machine.unlimited : Machine := ⟨none⟩

/-- A machine with room for 64 values. -/
@[reducible] def Machine.small : Machine := ⟨some 64⟩

namespace Reader

/-! ## Reading with limits -/

/-- How reading ends without a value: the source answers `false`, or a fault
comes first. -/
inductive Stop where
  | error
  | fault (fault : Fault)

def Stop.ofOption {α : Type} : Option α → Except Stop α
  | some a => .ok a
  | none => .error .error

/-- The buffer of `decodeDouble`. -/
def bufferSize : Nat := 32

/-- The digit loop of `decodeNumber` comes to its call of `decodeDouble`. -/
def digitsReachDouble (threshold : Nat) : Nat → Str → Bool
  | _, [] => false
  | value, c :: cs =>
    c.isDigit && (threshold ≤ value ||
      digitsReachDouble threshold (value * 10 + (c.toNat - '0'.toNat)) cs)

/-- `decodeNumber` comes to a call of `decodeDouble`. -/
def reachesDouble (text : Str) : Bool :=
  let isDouble := text.any (fun c => c = '.' || c = 'e' || c = 'E' || c = '+') ||
    text.tail.any (· = '-')
  isDouble ||
    if text.head? = some '-' then digitsReachDouble (2147483648 / 10) 0 text.tail
    else digitsReachDouble (4294967295 / 10) 0 text

/-- The token fills the buffer of `decodeDouble`. -/
def Overruns (text : Str) : Prop := reachesDouble text ∧ text.length = bufferSize

instance (text : Str) : Decidable (Overruns text) := inferInstanceAs (Decidable (_ ∧ _))

/-- `decodeNumber` with its buffer.  Without limits, the buffer is taken to
be large enough. -/
def decodeNumberIn (room : Option Nat) (text : Str) : Except Stop Value :=
  if room.isSome ∧ Overruns text then .error (.fault .bufferOverrun)
  else Stop.ofOption (decodeNumber text)

mutual

/-- `readValue` where the stack has room for so many values, this one
included. -/
def readValueIn (room : Option Nat) : Nat → Str → Except Stop (Value × Str)
  | 0, _ => .error .error
  | fuel + 1, cs =>
    if room = some 0 then .error (.fault .stackOverflow)
    else
      let (token, rest) := skipCommentTokens cs
      match token.type with
      | .objectBegin => readObjectIn (room.map (· - 1)) fuel [] [] rest
      | .arrayBegin =>
        if (skipSpaces rest).head? = some ']' then
          .ok (.array [], (readToken rest).2)
        else readArrayIn (room.map (· - 1)) fuel [] rest
      | .number => (decodeNumberIn room token.text).map (·, rest)
      | .string => (Stop.ofOption (decodeString token.text)).map
          fun decoded => (.string decoded, rest)
      | .true => .ok (.boolean true, rest)
      | .false => .ok (.boolean false, rest)
      | .null => .ok (.null, rest)
      | _ => .error .error

def readObjectIn (room : Option Nat) :
    Nat → Str → List (Str × Value) → Str → Except Stop (Value × Str)
  | 0, _, _, _ => .error .error
  | fuel + 1, name, members, cs =>
    let (tokenName, rest) := skipCommentTokens cs
    if tokenName.type = .objectEnd ∧ name = [] then .ok (.object members, rest)
    else if tokenName.type ≠ .string then .error .error
    else match decodeString tokenName.text with
      | none => .error .error
      | some name =>
        let (colon, rest) := readToken rest
        if colon.type ≠ .memberSeparator then .error .error
        else match readValueIn room fuel rest with
          | .error stop => .error stop
          | .ok (value, rest) =>
            let members := Value.setMember (cStr name) value members
            let comma := (readToken rest).1
            if comma.type ≠ .objectEnd ∧ comma.type ≠ .arraySeparator ∧
                comma.type ≠ .comment then .error .error
            else
              let (comma, rest) := skipCommentTokens rest
              if comma.type = .objectEnd then .ok (.object members, rest)
              else readObjectIn room fuel name members rest

def readArrayIn (room : Option Nat) :
    Nat → List Value → Str → Except Stop (Value × Str)
  | 0, _, _ => .error .error
  | fuel + 1, elements, cs =>
    match readValueIn room fuel cs with
    | .error stop => .error stop
    | .ok (value, rest) =>
      let (token, rest) := skipCommentTokens rest
      if token.type = .arrayEnd then .ok (.array (elements ++ [value]), rest)
      else readArrayIn room fuel (elements ++ [value]) rest

end

/-- `Reader::parse` where the stack has this room. -/
def parseIn (room : Option Nat) (document : Str) : Except Fault (Option Value) :=
  match readValueIn room (2 * document.length + 1) document with
  | .ok (v, _) => .ok (some v)
  | .error .error => .ok none
  | .error (.fault fault) => .error fault

/-- `Reader::parse`, where `none` is the `false` of the source. -/
def read [Machine] (document : Str) : Except Fault (Option Value) :=
  parseIn Machine.stack document

/-! ## What is read is what the text says -/

/-- The outcome of the reader with limits is the one without, or a fault. -/
def Agrees {α : Type} (room : Option Nat) (x : Except Stop α) (y : Option α) : Prop :=
  x = Stop.ofOption y ∨ room ≠ none ∧ ∃ fault, x = .error (.fault fault)

theorem agrees_ofOption {α : Type} (room : Option Nat) (y : Option α) :
    Agrees room (Stop.ofOption y) y := Or.inl rfl

theorem Agrees.eq_some {α : Type} {room : Option Nat} {x : Except Stop α} {y : Option α} {a : α}
    (h : Agrees room x y) (hx : x = .ok a) : y = some a := by
  rcases h with h | ⟨-, fault, h⟩
  · rw [hx] at h
    cases y with
    | none => cases h
    | some b => rw [Except.ok.inj h]
  · rw [hx] at h
    cases h

theorem Agrees.eq_none {α : Type} {room : Option Nat} {x : Except Stop α} {y : Option α}
    (h : Agrees room x y) (hx : x = .error .error) : y = none := by
  rcases h with h | ⟨-, fault, h⟩
  · rw [hx] at h
    cases y with
    | none => rfl
    | some b => cases h
  · rw [hx] at h
    cases h

theorem Agrees.map {α β : Type} {room : Option Nat} {x : Except Stop α} {y : Option α}
    (h : Agrees room x y) (f : α → β) : Agrees room (x.map f) (y.map f) := by
  rcases h with rfl | ⟨hroom, fault, rfl⟩
  · cases y <;> exact Or.inl rfl
  · exact Or.inr ⟨hroom, fault, rfl⟩

theorem agrees_decodeNumberIn (room : Option Nat) (text : Str) :
    Agrees room (decodeNumberIn room text) (decodeNumber text) := by
  unfold decodeNumberIn
  split_ifs with h
  · refine Or.inr ⟨fun hnone => ?_, .bufferOverrun, rfl⟩
    rw [hnone] at h
    cases h.1
  · exact agrees_ofOption _ _

theorem Agrees.of_inner {α : Type} {room : Option Nat} {x : Except Stop α} {y : Option α}
    (h : Agrees (room.map (· - 1)) x y) : Agrees room x y := by
  refine h.imp_right (And.imp_left fun hroom hnone => hroom ?_)
  rw [hnone]
  rfl

/-- With this fuel, the readers of all kinds agree. -/
structure AllAgree (fuel : Nat) : Prop where
  value : ∀ room cs, Agrees room (readValueIn room fuel cs) (readValue fuel cs)
  object : ∀ room name members cs,
    Agrees room (readObjectIn room fuel name members cs) (readObject fuel name members cs)
  array : ∀ room elements cs,
    Agrees room (readArrayIn room fuel elements cs) (readArray fuel elements cs)

theorem AllAgree.value_succ {fuel : Nat} (h : AllAgree fuel) (room : Option Nat) (cs : Str) :
    Agrees room (readValueIn room (fuel + 1) cs) (readValue (fuel + 1) cs) := by
  rw [readValueIn, readValue]
  split
  · next hroom => exact Or.inr ⟨by rw [hroom]; simp, .stackOverflow, rfl⟩
  generalize skipCommentTokens cs = token
  obtain ⟨⟨type, text⟩, rest⟩ := token
  cases type with
  | objectBegin => exact (h.object _ _ _ _).of_inner
  | arrayBegin =>
    simp only
    split
    · exact agrees_ofOption room (some _)
    · exact (h.array _ _ _).of_inner
  | number => exact (agrees_decodeNumberIn _ _).map _
  | string => exact (agrees_ofOption room _).map _
  | true | false | null => exact agrees_ofOption room (some _)
  | _ => exact agrees_ofOption room none

theorem AllAgree.object_succ {fuel : Nat} (h : AllAgree fuel) (room : Option Nat) (name : Str)
    (members : List (Str × Value)) (cs : Str) :
    Agrees room (readObjectIn room (fuel + 1) name members cs)
      (readObject (fuel + 1) name members cs) := by
  rw [readObjectIn, readObject]
  simp only
  split
  · exact agrees_ofOption room (some _)
  split
  · exact agrees_ofOption room none
  cases decodeString (skipCommentTokens cs).1.text with
  | none => exact agrees_ofOption room none
  | some name =>
  simp only
  split
  · exact agrees_ofOption room none
  have hvalue := h.value room (readToken (skipCommentTokens cs).2).2
  rcases hvalue with hsame | ⟨hroom, fault, hfault⟩
  · rw [hsame]
    cases readValue fuel (readToken (skipCommentTokens cs).2).2 with
    | none => exact agrees_ofOption room none
    | some p =>
      simp only [Stop.ofOption]
      split
      · exact agrees_ofOption room none
      split
      · exact agrees_ofOption room (some _)
      · exact h.object _ _ _ _
  · rw [hfault]
    exact Or.inr ⟨hroom, fault, rfl⟩

theorem AllAgree.array_succ {fuel : Nat} (h : AllAgree fuel) (room : Option Nat)
    (elements : List Value) (cs : Str) :
    Agrees room (readArrayIn room (fuel + 1) elements cs) (readArray (fuel + 1) elements cs) := by
  rw [readArrayIn, readArray]
  rcases h.value room cs with hsame | ⟨hroom, fault, hfault⟩
  · rw [hsame]
    cases readValue fuel cs with
    | none => exact agrees_ofOption room none
    | some p =>
      simp only [Stop.ofOption]
      split
      · exact agrees_ofOption room (some _)
      · exact h.array _ _ _
  · rw [hfault]
    exact Or.inr ⟨hroom, fault, rfl⟩

theorem allAgree (fuel : Nat) : AllAgree fuel := by
  induction fuel with
  | zero =>
    constructor <;> intros
    · rw [readValueIn, readValue]
      exact agrees_ofOption _ none
    · rw [readObjectIn, readObject]
      exact agrees_ofOption _ none
    · rw [readArrayIn, readArray]
      exact agrees_ofOption _ none
  | succ fuel ih => exact ⟨ih.value_succ, ih.object_succ, ih.array_succ⟩

/-- What is answered is what the text says. -/
theorem parse_of_parseIn {room : Option Nat} {document : Str} {answer : Option Value}
    (h : parseIn room document = .ok answer) : parse document = answer := by
  have hagree := (allAgree (2 * document.length + 1)).value room document
  unfold parseIn at h
  rw [parse]
  split at h
  · next v rest hread =>
    rw [hagree.eq_some hread]
    exact Except.ok.inj h
  · next hread =>
    rw [hagree.eq_none hread]
    exact Except.ok.inj h
  · cases h

/-- Without limits, every text is answered. -/
@[simp]
theorem parseIn_none (document : Str) : parseIn none document = .ok (parse document) := by
  rcases (allAgree (2 * document.length + 1)).value none document with h | ⟨h, _⟩
  · rw [parseIn, h, parse]
    cases readValue (2 * document.length + 1) document <;> rfl
  · exact absurd rfl h

@[simp]
theorem read_unlimited (document : Str) :
    @read Machine.unlimited document = .ok (parse document) := parseIn_none document

theorem read_of_parse {document : Str} {answer : Option Value} (h : parse document = answer) :
    @read Machine.unlimited document = .ok answer := h ▸ read_unlimited document

theorem parse_of_read [Machine] {document : Str} {answer : Option Value}
    (h : read document = .ok answer) : parse document = answer := parse_of_parseIn h

/-! ## The fuel is enough -/

/-- On texts of this length, fuel beyond the length makes no difference. -/
structure Enough (n : Nat) : Prop where
  value : ∀ room cs f f', cs.length = n → 2 * n + 1 ≤ f → 2 * n + 1 ≤ f' →
    readValueIn room f cs = readValueIn room f' cs
  object : ∀ room name members cs f f', cs.length = n → 2 * n + 1 ≤ f → 2 * n + 1 ≤ f' →
    readObjectIn room f name members cs = readObjectIn room f' name members cs
  array : ∀ room elements cs f f', cs.length = n → 2 * n + 2 ≤ f → 2 * n + 2 ≤ f' →
    readArrayIn room f elements cs = readArrayIn room f' elements cs

theorem leaves_of_readValueIn {room : Option Nat} {fuel : Nat} {cs rest : Str} {v : Value}
    (h : readValueIn room fuel cs = .ok (v, rest)) : Leaves rest cs :=
  (allLeave fuel).value _ _ _ (((allAgree fuel).value room cs).eq_some h)

section

variable {cs : Str} (ih : ∀ m < cs.length, Enough m)

include ih

theorem readValueIn_eq_of_enough (room : Option Nat) {f f' : Nat} (hf : 2 * cs.length + 1 ≤ f)
    (hf' : 2 * cs.length + 1 ≤ f') : readValueIn room f cs = readValueIn room f' cs := by
  obtain ⟨f, rfl⟩ : ∃ g, f = g + 1 := ⟨f - 1, by omega⟩
  obtain ⟨f', rfl⟩ : ∃ g, f' = g + 1 := ⟨f' - 1, by omega⟩
  have hlt : (skipCommentTokens cs).1.type ≠ .endOfStream →
      (skipCommentTokens cs).2.length < cs.length := fun h => (skipCommentTokens_leaves h).2
  rw [readValueIn, readValueIn]
  split
  · rfl
  simp only
  split <;> try rfl
  · rename_i heq
    have hlt' := hlt (by simp [heq])
    exact (ih _ hlt').object _ _ _ _ _ _ rfl (by omega) (by omega)
  · rename_i heq
    have hlt' := hlt (by simp [heq])
    split
    · rfl
    · exact (ih _ hlt').array _ _ _ _ _ rfl (by omega) (by omega)

theorem readObjectIn_eq_of_enough (room : Option Nat) (name : Str)
    (members : List (Str × Value)) {f f' : Nat} (hf : 2 * cs.length + 1 ≤ f)
    (hf' : 2 * cs.length + 1 ≤ f') :
    readObjectIn room f name members cs = readObjectIn room f' name members cs := by
  obtain ⟨f, rfl⟩ : ∃ g, f = g + 1 := ⟨f - 1, by omega⟩
  obtain ⟨f', rfl⟩ : ∃ g, f' = g + 1 := ⟨f' - 1, by omega⟩
  rw [readObjectIn, readObjectIn]
  simp only
  split
  · rfl
  split
  · rfl
  rename_i hstring
  have hleaves : Leaves (skipCommentTokens cs).2 cs :=
    skipCommentTokens_leaves (by simp [not_not.mp hstring])
  have hlt := hleaves.2
  split
  · rfl
  have hcolon := (readToken_suffix (skipCommentTokens cs).2).length_le
  split
  · rfl
  rw [(ih (readToken (skipCommentTokens cs).2).2.length (by omega)).value room _ f f' rfl
    (by omega) (by omega)]
  split
  · rfl
  rename_i value rest hread
  have hv := (leaves_of_readValueIn hread).2
  have hcomma := (skipCommentTokens_suffix rest).length_le
  split
  · rfl
  split
  · rfl
  exact (ih (skipCommentTokens rest).2.length (by omega)).object _ _ _ _ _ _ rfl
    (by omega) (by omega)

theorem readArrayIn_eq_of_enough (room : Option Nat) (elements : List Value) {f f' : Nat}
    (hf : 2 * cs.length + 2 ≤ f) (hf' : 2 * cs.length + 2 ≤ f') :
    readArrayIn room f elements cs = readArrayIn room f' elements cs := by
  obtain ⟨f, rfl⟩ : ∃ g, f = g + 1 := ⟨f - 1, by omega⟩
  obtain ⟨f', rfl⟩ : ∃ g, f' = g + 1 := ⟨f' - 1, by omega⟩
  have hf₁ : 2 * cs.length + 1 ≤ f := by omega
  have hf₂ : 2 * cs.length + 1 ≤ f' := by omega
  rw [readArrayIn, readArrayIn, readValueIn_eq_of_enough ih room hf₁ hf₂]
  split
  · rfl
  rename_i value rest hread
  have hv := (leaves_of_readValueIn hread).2
  have htoken := (skipCommentTokens_suffix rest).length_le
  simp only
  split
  · rfl
  exact (ih (skipCommentTokens rest).2.length (by omega)).array _ _ _ _ _ rfl
    (by omega) (by omega)

end

theorem enough (n : Nat) : Enough n := by
  induction n using Nat.strong_induction_on with
  | _ n ih =>
    constructor
    · rintro room cs f f' rfl
      exact readValueIn_eq_of_enough ih room
    · rintro room name members cs f f' rfl
      exact readObjectIn_eq_of_enough ih room name members
    · rintro room elements cs f f' rfl
      exact readArrayIn_eq_of_enough ih room elements

/-- Any larger amount of fuel gives the same answer. -/
theorem parseIn_fuel (room : Option Nat) (document : Str) {fuel : Nat}
    (h : 2 * document.length + 1 ≤ fuel) :
    parseIn room document =
      match readValueIn room fuel document with
      | .ok (v, _) => .ok (some v)
      | .error .error => .ok none
      | .error (.fault fault) => .error fault := by
  rw [parseIn, (enough document.length).value room document _ fuel rfl le_rfl h]

theorem readValue_fuel (document : Str) {fuel : Nat} (h : 2 * document.length + 1 ≤ fuel) :
    parse document = (readValue fuel document).map (·.1) := by
  refine @parse_of_parseIn none _ _ ?_
  rw [parseIn_fuel none document h]
  rcases (allAgree fuel).value none document with hread | ⟨hnone, _⟩
  · rw [hread]
    cases readValue fuel document <;> rfl
  · exact absurd rfl hnone

/-! ## Texts that are read on every machine -/

/-- The brackets that open an array or an object, also those in strings. -/
def openings (text : Str) : Nat := text.countP fun c => c = '[' || c = '{'

/-- Fewer brackets are opened than values fit on the stack, and no 32
characters in a row could make up a number. -/
structure Tame (room : Option Nat) (text : Str) : Prop where
  nested : ∀ n ∈ room, openings text < n
  short : ∀ token, token <:+: text → token.length = bufferSize → ¬ ∀ c ∈ token, isNumberChar c

theorem Tame.of_suffix {room : Option Nat} {text rest : Str} (h : Tame room text)
    (hrest : rest <:+ text) : Tame room rest where
  nested n hn := (hrest.sublist.countP_le).trans_lt (h.nested n hn)
  short token htoken := h.short token (htoken.trans hrest.isInfix)

/-- Behind an opening bracket, there is one less to come. -/
theorem Tame.inner {room : Option Nat} {text rest : Str} (h : Tame room text) {c : Char}
    (hc : c = '[' ∨ c = '{') (hrest : c :: rest <:+ text) : Tame (room.map (· - 1)) rest where
  nested n hn := by
    obtain ⟨m, hm, rfl⟩ := Option.mem_map.mp hn
    have hlt := (h.of_suffix hrest).nested m hm
    rw [openings, List.countP_cons_of_pos (by simpa using hc)] at hlt
    exact Nat.lt_sub_of_add_lt hlt
  short := (h.of_suffix ((List.suffix_cons c rest).trans hrest)).short

theorem exists_suffix_of_skipComments (n : Nat) (cs : Str) :
    ∃ mid, mid <:+ cs ∧ skipComments n cs = readToken mid := by
  induction n generalizing cs with
  | zero => exact ⟨cs, List.suffix_refl cs, rfl⟩
  | succ n ih =>
    rw [skipComments]
    simp only
    split_ifs
    · obtain ⟨mid, hmid, heq⟩ := ih (readToken cs).2
      exact ⟨mid, hmid.trans (readToken_suffix cs), heq⟩
    · exact ⟨cs, List.suffix_refl cs, rfl⟩

/-- A token, by its first character. -/
theorem exists_scan_of_skipCommentTokens {cs : Str}
    (h : (skipCommentTokens cs).1.type ≠ .endOfStream) :
    ∃ c rest, c :: rest <:+ cs ∧
      scanToken c rest = ((skipCommentTokens cs).1.type, (skipCommentTokens cs).2) ∧
      (skipCommentTokens cs).1.text =
        (c :: rest).take (rest.length + 1 - (skipCommentTokens cs).2.length) := by
  obtain ⟨mid, hmid, heq⟩ := exists_suffix_of_skipComments cs.length cs
  rw [skipCommentTokens, heq] at h ⊢
  have hskip : skipSpaces mid <:+ mid := List.dropWhile_suffix _
  rw [readToken] at h ⊢
  split at h
  · exact absurd rfl h
  · next c rest hcons =>
    rw [hcons] at hskip
    exact ⟨c, rest, hskip.trans hmid, rfl, rfl⟩

/-- What a token starts with, for the tokens that matter. -/
theorem scanToken_cases (c : Char) (rest : Str) :
    ((scanToken c rest).1 = .objectBegin → c = '{' ∧ (scanToken c rest).2 = rest) ∧
      ((scanToken c rest).1 = .arrayBegin → c = '[' ∧ (scanToken c rest).2 = rest) ∧
      ((scanToken c rest).1 = .number →
        isNumberChar c ∧ (scanToken c rest).2 = rest.dropWhile isNumberChar) := by
  have hor : ∀ (type : TokenType) (scan : Bool × Str) (wanted : TokenType), type ≠ wanted →
      .error ≠ wanted → (if scan.1 then type else .error) ≠ wanted := by
    intro type scan wanted htype herror
    split_ifs
    · exact htype
    · exact herror
  unfold scanToken
  split
  · exact ⟨fun _ => ⟨rfl, rfl⟩, nofun, nofun⟩
  · exact ⟨nofun, nofun, nofun⟩
  · exact ⟨nofun, fun _ => ⟨rfl, rfl⟩, nofun⟩
  · exact ⟨nofun, nofun, nofun⟩
  iterate 5
    exact ⟨fun h => absurd h (hor _ _ _ (by decide) (by decide)),
      fun h => absurd h (hor _ _ _ (by decide) (by decide)),
      fun h => absurd h (hor _ _ _ (by decide) (by decide))⟩
  iterate 3
    exact ⟨nofun, nofun, nofun⟩
  · split_ifs with hc
    · refine ⟨nofun, nofun, fun _ => ⟨?_, rfl⟩⟩
      simp only [Bool.or_eq_true, decide_eq_true_eq] at hc
      rcases hc with hdigit | rfl
      · simp [isNumberChar, hdigit]
      · rfl
    · exact ⟨nofun, nofun, nofun⟩

/-- A number token stands in the text, and nothing in it ends a number. -/
theorem number_of_skipCommentTokens {cs : Str}
    (h : (skipCommentTokens cs).1.type = .number) :
    (skipCommentTokens cs).1.text <:+: cs ∧
      ∀ c ∈ (skipCommentTokens cs).1.text, isNumberChar c := by
  obtain ⟨c, rest, hsuffix, hscan, htext⟩ :=
    @exists_scan_of_skipCommentTokens cs (by rw [h]; decide)
  have hcases := (scanToken_cases c rest).2.2
  rw [hscan] at hcases
  obtain ⟨hc, hrest⟩ := hcases h
  rw [htext, hrest]
  refine ⟨(List.take_prefix _ _).isInfix.trans hsuffix.isInfix, fun d hd => ?_⟩
  have hlen : (rest.takeWhile isNumberChar).length + (rest.dropWhile isNumberChar).length =
      rest.length := by
    rw [← List.length_append, List.takeWhile_append_dropWhile]
  have hcount : rest.length + 1 - (rest.dropWhile isNumberChar).length =
      (rest.takeWhile isNumberChar).length + 1 := by omega
  have hprefix : rest.takeWhile isNumberChar = rest.take (rest.takeWhile isNumberChar).length :=
    List.prefix_iff_eq_take.mp (List.takeWhile_prefix _)
  rw [hcount, List.take_succ_cons, ← hprefix] at hd
  rcases List.mem_cons.mp hd with rfl | hd
  · exact hc
  · exact List.all_eq_true.mp List.all_takeWhile d hd

/-- With this fuel, tame texts are read as without limits. -/
structure AllTame (fuel : Nat) : Prop where
  value : ∀ room cs, Tame room cs → readValueIn room fuel cs = Stop.ofOption (readValue fuel cs)
  object : ∀ room name members cs, Tame room cs →
    readObjectIn room fuel name members cs = Stop.ofOption (readObject fuel name members cs)
  array : ∀ room elements cs, Tame room cs →
    readArrayIn room fuel elements cs = Stop.ofOption (readArray fuel elements cs)

theorem Tame.decodeNumberIn {room : Option Nat} {cs : Str} (h : Tame room cs)
    (htype : (skipCommentTokens cs).1.type = .number) :
    decodeNumberIn room (skipCommentTokens cs).1.text =
      Stop.ofOption (decodeNumber (skipCommentTokens cs).1.text) := by
  obtain ⟨htoken, hchars⟩ := number_of_skipCommentTokens htype
  rw [Reader.decodeNumberIn, if_neg]
  exact fun hoverruns => h.short _ htoken hoverruns.2.2 hchars

theorem AllTame.value_succ {fuel : Nat} (ih : AllTame fuel) (room : Option Nat) (cs : Str)
    (h : Tame room cs) :
    readValueIn room (fuel + 1) cs = Stop.ofOption (readValue (fuel + 1) cs) := by
  have hroom : room ≠ some 0 := fun h0 => absurd (h.nested 0 h0) (Nat.not_lt_zero _)
  have hopen : ∀ {type : TokenType}, (skipCommentTokens cs).1.type = type →
      type = .objectBegin ∨ type = .arrayBegin →
        Tame (room.map (· - 1)) (skipCommentTokens cs).2 := by
    rintro type htype hwanted
    obtain ⟨c, rest, hsuffix, hscan, -⟩ := @exists_scan_of_skipCommentTokens cs (by
      rcases hwanted with rfl | rfl <;> (rw [htype]; decide))
    have hcases := scanToken_cases c rest
    rw [hscan] at hcases
    rcases hwanted with rfl | rfl
    · obtain ⟨hc, hrest⟩ := hcases.1 htype
      rw [hrest]
      exact h.inner (Or.inr hc) hsuffix
    · obtain ⟨hc, hrest⟩ := hcases.2.1 htype
      rw [hrest]
      exact h.inner (Or.inl hc) hsuffix
  rw [readValueIn, readValue, if_neg hroom]
  simp only
  cases htype : (skipCommentTokens cs).1.type with
  | objectBegin => exact ih.object _ _ _ _ (hopen htype (Or.inl rfl))
  | arrayBegin =>
    simp only
    split
    · rfl
    · exact ih.array _ _ _ (hopen htype (Or.inr rfl))
  | number =>
    simp only [h.decodeNumberIn htype]
    cases decodeNumber (skipCommentTokens cs).1.text <;> rfl
  | string =>
    simp only
    cases decodeString (skipCommentTokens cs).1.text <;> rfl
  | _ => rfl

theorem AllTame.object_succ {fuel : Nat} (ih : AllTame fuel) (room : Option Nat) (name : Str)
    (members : List (Str × Value)) (cs : Str) (h : Tame room cs) :
    readObjectIn room (fuel + 1) name members cs =
      Stop.ofOption (readObject (fuel + 1) name members cs) := by
  have htoken := skipCommentTokens_suffix cs
  rw [readObjectIn, readObject]
  simp only
  split
  · rfl
  split
  · rfl
  cases decodeString (skipCommentTokens cs).1.text with
  | none => rfl
  | some name =>
  simp only
  split
  · rfl
  have hcolon := (readToken_suffix (skipCommentTokens cs).2).trans htoken
  rw [ih.value room _ (h.of_suffix hcolon)]
  cases hread : readValue fuel (readToken (skipCommentTokens cs).2).2 with
  | none => rfl
  | some p =>
    simp only [Stop.ofOption]
    have hrest := ((allLeave fuel).value _ _ _ hread).1.trans hcolon
    split
    · rfl
    split
    · rfl
    · exact ih.object _ _ _ _ (h.of_suffix ((skipCommentTokens_suffix _).trans hrest))

theorem AllTame.array_succ {fuel : Nat} (ih : AllTame fuel) (room : Option Nat)
    (elements : List Value) (cs : Str) (h : Tame room cs) :
    readArrayIn room (fuel + 1) elements cs =
      Stop.ofOption (readArray (fuel + 1) elements cs) := by
  rw [readArrayIn, readArray, ih.value room cs h]
  cases hread : readValue fuel cs with
  | none => rfl
  | some p =>
    simp only [Stop.ofOption]
    have hrest := ((allLeave fuel).value _ _ _ hread).1
    split
    · rfl
    · exact ih.array _ _ _ (h.of_suffix ((skipCommentTokens_suffix _).trans hrest))

theorem allTame (fuel : Nat) : AllTame fuel := by
  induction fuel with
  | zero =>
    constructor <;> intros
    · rw [readValueIn, readValue]
      rfl
    · rw [readObjectIn, readObject]
      rfl
    · rw [readArrayIn, readArray]
      rfl
  | succ fuel ih => exact ⟨ih.value_succ, ih.object_succ, ih.array_succ⟩

/-- A tame text is answered. -/
theorem parseIn_of_tame {room : Option Nat} {document : Str} (h : Tame room document) :
    parseIn room document = .ok (parse document) := by
  rw [parseIn, (allTame _).value room document h, parse]
  cases readValue (2 * document.length + 1) document <;> rfl

theorem read_of_tame [Machine] {document : Str} (h : Tame Machine.stack document) :
    read document = .ok (parse document) := parseIn_of_tame h

end Reader

end MinorityViewport.Json
