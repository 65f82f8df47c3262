import MinorityViewport.Networks.RequestParser
import MinorityViewport.Json.Printed

/-!
# The requests that the parser accepts

`RequestText` is a request as it stands on the wire, and its fields say which
texts are one: a method of token characters, a URI without spaces, two
numbers that fit an `int` with room for one more character, and header lines
whose values may go on in folded lines.  `RequestText.message` is what the
text means.

* `scan_print` says that the parser accepts such a text and reads its meaning.
* `exists_of_ended` finds the text, or the version number that is too large,
  in what made the parser end other than by refusing.
* `TooLarge` is a version number whose next digit overflows an `int`, and
  `scan_versionTooLarge` says that the run has no meaning in C++ there.
-/

namespace MinorityViewport.Http.RequestParser

open Scanner (Scan scan IsLoop scan_cons_of_more scan_cons_of_done)

/-! ## Texts -/

def newline : Str := ['\r', '\n']

/-- A version number. -/
structure Number where
  digits : Str
  digits_ne_nil : digits ≠ []
  isDigit : ∀ c ∈ digits, isDigit c = true
  /-- The source adds the code of a digit before it subtracts that of `0`. -/
  value_le : digitsValue digits ≤ 2147483647 - 48

/-- A line that continues a header value. -/
structure Fold where
  blank : Str
  text : Str
  blank_ne_nil : blank ≠ []
  blank_blank : ∀ c ∈ blank, c = ' ' ∨ c = '\t'
  text_printable : ∀ c ∈ text, isCtl c = false
  text_head : text.head? ≠ some ' '

structure HeaderText where
  name : Str
  value : Str
  folds : List Fold
  name_ne_nil : name ≠ []
  name_token : ∀ c ∈ name, isToken c = true
  value_printable : ∀ c ∈ value, isCtl c = false

structure RequestStart where
  method : Str
  uri : Str
  method_ne_nil : method ≠ []
  method_token : ∀ c ∈ method, isToken c = true
  uri_printable : ∀ c ∈ uri, c ≠ ' ' ∧ isCtl c = false

structure RequestText extends RequestStart where
  major : Number
  minor : Number
  headers : List HeaderText

def Fold.print (f : Fold) : Str := f.blank ++ f.text ++ newline

def HeaderText.print (h : HeaderText) : Str :=
  h.name ++ ": ".toList ++ h.value ++ newline ++ h.folds.flatMap Fold.print

/-- The first line without the numbers. -/
def RequestStart.print (t : RequestStart) : Str := t.method ++ ' ' :: t.uri ++ " HTTP/".toList

def RequestText.print (t : RequestText) : Str :=
  t.toRequestStart.print ++ t.major.digits ++ '.' :: t.minor.digits ++ newline ++
    t.headers.flatMap HeaderText.print ++ newline

/-! ## Their meaning -/

/-- The lines of a value are joined without a separator. -/
def HeaderText.header (h : HeaderText) : Header := ⟨h.name, h.value ++ h.folds.flatMap Fold.text⟩

def RequestText.message (t : RequestText) : Message where
  method := t.method
  uri := t.uri
  httpVersionMajor := some (digitsValue t.major.digits)
  httpVersionMinor := some (digitsValue t.minor.digits)
  headers := t.headers.map HeaderText.header

/-! ## Steps -/

/-- A state that waits for one character. -/
theorem exists_of_expect {p next s : Parser} {d : Char} {v : Verdict} {text rest : Str}
    (hstep : ∀ c, consume p c = expect d next c) (hv : v ≠ .refused)
    (h : scan consume p text = .ended s v rest) :
    ∃ text', text = d :: text' ∧ scan consume next text' = .ended s v rest := by
  cases text with
  | nil => cases h
  | cons c text =>
    by_cases hc : c = d
    · subst hc
      rw [scan_cons_of_more (by rw [hstep, expect, if_pos rfl])] at h
      exact ⟨text, rfl, h⟩
    · rw [scan_cons_of_done (by rw [hstep, expect, if_neg hc])] at h
      cases h
      exact absurd rfl hv

theorem scan_expect {p next : Parser} {d : Char}
    (hstep : ∀ c, consume p c = expect d next c) (text : Str) :
    scan consume p (d :: text) = scan consume next text :=
  scan_cons_of_more (by rw [hstep, expect, if_pos rfl]) text

/-! ## Words -/

/-- A loop that refuses the characters that fail a test. -/
def wordStep {α : Type} (p : Char → Bool) (push : α → Char → α) (a : α) (c : Char) :
    Except Verdict α :=
  if p c then .ok (push a c) else .error .refused

/-- Such a loop, when the parser does not refuse the text, has found its
delimiter. -/
theorem exists_of_word {α : Type} {state next : α → Parser} {p : Char → Bool}
    {push : α → Char → α} {d : Char}
    (hloop : IsLoop consume state next (wordStep p push) d) {a : α} {s : Parser}
    {v : Verdict} {text rest : Str} (hv : v ≠ .refused)
    (h : scan consume (state a) text = .ended s v rest) :
    ∃ word text', text = word ++ d :: text' ∧ (∀ c ∈ word, c ≠ d ∧ p c = true) ∧
      scan consume (next (word.foldl push a)) text' = .ended s v rest := by
  obtain ⟨word, a', hd, hfold, ⟨text', rfl, hnext⟩ | ⟨c, rfl, -, hbad⟩⟩ :=
    hloop.exists_of_ended h
  · rw [Scanner.foldlM_guard_eq_ok_iff.mp hfold |>.2] at hnext
    refine ⟨word, text', rfl, fun c hc => ⟨?_, ?_⟩, hnext⟩
    · exact fun hcd => hd (hcd ▸ hc)
    · exact (Scanner.foldlM_guard_eq_ok_iff.mp hfold).1 c hc
  · unfold wordStep at hbad
    split_ifs at hbad
    cases hbad
    exact absurd rfl hv

theorem scan_word {α : Type} {state next : α → Parser} {p : Char → Bool}
    {push : α → Char → α} {d : Char}
    (hloop : IsLoop consume state next (wordStep p push) d) (a : α) {word : Str}
    (hword : ∀ c ∈ word, c ≠ d ∧ p c = true) (rest : Str) :
    scan consume (state a) (word ++ d :: rest) =
      scan consume (next (word.foldl push a)) rest := by
  refine hloop.scan_word (fun hd => (hword d hd).1 rfl) ?_ rest
  exact Scanner.foldlM_guard_eq_ok_iff.mpr ⟨fun c hc => (hword c hc).2, rfl⟩

/-! ## The first line -/

theorem isLoop_method :
    IsLoop consume (fun req => ⟨.method, req⟩) (fun req => ⟨.uri, req⟩)
      (wordStep isToken pushMethod) ' ' := by
  intro req c
  cases h : isToken c <;> simp [consume, wordStep, h]

theorem isLoop_uri :
    IsLoop consume (fun req => ⟨.uri, req⟩) (fun req => ⟨.httpVersionH, req⟩)
      (wordStep (fun c => !isCtl c) pushUri) ' ' := by
  intro req c
  cases h : isCtl c <;> simp [consume, wordStep, h]

theorem foldl_pushMethod (req : Message) (word : Str) :
    word.foldl pushMethod req = { req with method := req.method ++ word } := by
  induction word generalizing req with
  | nil => simp
  | cons c word ih =>
    rw [List.foldl_cons, ih]
    simp [pushMethod]

theorem foldl_pushUri (req : Message) (word : Str) :
    word.foldl pushUri req = { req with uri := req.uri ++ word } := by
  induction word generalizing req with
  | nil => simp
  | cons c word ih =>
    rw [List.foldl_cons, ih]
    simp [pushUri]

/-- The states from `HTTP/` to the first number. -/
theorem scan_http (req : Message) (text : Str) :
    scan consume ⟨.httpVersionH, req⟩ ("HTTP/".toList ++ text) =
      scan consume ⟨.httpVersionMajorStart,
        { req with httpVersionMajor := some 0, httpVersionMinor := some 0 }⟩ text := by
  show scan consume _ ('H' :: 'T' :: 'T' :: 'P' :: '/' :: text) = _
  rw [scan_expect (fun _ => rfl), scan_expect (fun _ => rfl), scan_expect (fun _ => rfl),
    scan_expect (fun _ => rfl), scan_expect (fun _ => rfl)]

theorem exists_of_http {req : Message} {s : Parser} {v : Verdict} {text rest : Str}
    (hv : v ≠ .refused) (h : scan consume ⟨.httpVersionH, req⟩ text = .ended s v rest) :
    ∃ text', text = "HTTP/".toList ++ text' ∧
      scan consume ⟨.httpVersionMajorStart,
        { req with httpVersionMajor := some 0, httpVersionMinor := some 0 }⟩ text' =
          .ended s v rest := by
  obtain ⟨_, rfl, hT⟩ := exists_of_expect (fun _ => rfl) hv h
  obtain ⟨_, rfl, hT'⟩ := exists_of_expect (fun _ => rfl) hv hT
  obtain ⟨_, rfl, hP⟩ := exists_of_expect (fun _ => rfl) hv hT'
  obtain ⟨_, rfl, hslash⟩ := exists_of_expect (fun _ => rfl) hv hP
  obtain ⟨text', rfl, hmajor⟩ := exists_of_expect (fun _ => rfl) hv hslash
  exact ⟨text', rfl, hmajor⟩

/-- The request after its first line. -/
def lineMessage (method uri : Str) (major minor : Nat) : Message :=
  ⟨⟨uri, []⟩, method, some major, some minor⟩

theorem scan_start (t : RequestStart) (text : Str) :
    scan consume fresh (t.print ++ text) =
      scan consume ⟨.httpVersionMajorStart, lineMessage t.method t.uri 0 0⟩ text := by
  obtain ⟨c, method, hmethod⟩ := List.exists_cons_of_ne_nil t.method_ne_nil
  have htoken := t.method_token
  rw [hmethod, List.forall_mem_cons] at htoken
  have hfirst : consume fresh c = .more ⟨.method, pushMethod fresh.req c⟩ := by
    simp [consume, fresh, htoken.1]
  have hword : ∀ b ∈ method, b ≠ ' ' ∧ isToken b = true := by
    intro b hb
    refine ⟨?_, htoken.2 b hb⟩
    rintro rfl
    exact absurd (htoken.2 _ hb) (by decide)
  have huri : ∀ b ∈ t.uri, b ≠ ' ' ∧ (!isCtl b) = true := by
    intro b hb
    rw [(t.uri_printable b hb).2]
    exact ⟨(t.uri_printable b hb).1, rfl⟩
  have hprint : t.print ++ text =
      c :: (method ++ ' ' :: (t.uri ++ ' ' :: ("HTTP/".toList ++ text))) := by
    simp [RequestStart.print, hmethod]
  rw [hprint, scan_cons_of_more hfirst, scan_word isLoop_method _ hword,
    scan_word isLoop_uri _ huri, scan_http, foldl_pushMethod, foldl_pushUri, hmethod]
  rfl

theorem exists_of_start {s : Parser} {v : Verdict} {text rest : Str} (hv : v ≠ .refused)
    (h : scan consume fresh text = .ended s v rest) :
    ∃ (t : RequestStart) (text' : Str), text = t.print ++ text' ∧
      scan consume ⟨.httpVersionMajorStart, lineMessage t.method t.uri 0 0⟩ text' =
        .ended s v rest := by
  cases text with
  | nil => cases h
  | cons c text =>
    cases htoken : isToken c with
    | false =>
      have hfirst : consume fresh c = .done .refused := by
        simp [consume, fresh, htoken]
      rw [scan_cons_of_done hfirst] at h
      cases h
      exact absurd rfl hv
    | true =>
      have hfirst : consume fresh c = .more ⟨.method, pushMethod fresh.req c⟩ := by
        simp [consume, fresh, htoken]
      rw [scan_cons_of_more hfirst] at h
      obtain ⟨method, _, rfl, hmethod, hrest⟩ := exists_of_word isLoop_method hv h
      obtain ⟨uri, _, rfl, huri, hrest'⟩ := exists_of_word isLoop_uri hv hrest
      obtain ⟨text', rfl, hmajor⟩ := exists_of_http hv hrest'
      rw [foldl_pushMethod, foldl_pushUri] at hmajor
      refine ⟨⟨c :: method, uri, List.cons_ne_nil c method, ?_, ?_⟩, text', ?_, hmajor⟩
      · exact List.forall_mem_cons.mpr ⟨htoken, fun b hb => (hmethod b hb).2⟩
      · exact fun b hb => ⟨(huri b hb).1, by simpa using (huri b hb).2⟩
      · simp [RequestStart.print]

/-! ## Numbers -/

/-- A digit is added to the number before it. -/
def digitStep (n : Nat) (c : Char) : Except Verdict Nat :=
  if isDigit c then pushDigit (some n) c else .error .refused

theorem toNat_of_isDigit {c : Char} (h : isDigit c = true) : 48 ≤ c.toNat ∧ c.toNat ≤ 57 := by
  simp only [isDigit, Bool.and_eq_true, decide_eq_true_eq] at h
  exact ⟨h.1, h.2⟩

theorem digitStep_eq_ok_iff {n n' : Nat} {c : Char} :
    digitStep n c = .ok n' ↔
      isDigit c = true ∧ n' = n * 10 + (c.toNat - '0'.toNat) ∧ n' ≤ 2147483647 - 48 := by
  simp only [digitStep, pushDigit]
  by_cases hc : isDigit c = true
  · have hc' := toNat_of_isDigit hc
    have hzero : '0'.toNat = 48 := rfl
    rw [if_pos hc, hzero]
    split_ifs with hle
    · rw [Except.ok.injEq, and_iff_right hc]
      omega
    · refine iff_of_false (fun h => by cases h) ?_
      omega
  · rw [if_neg hc]
    exact iff_of_false (fun h => by cases h) fun h => hc h.1

theorem digitStep_eq_error_iff {n : Nat} {c : Char} {v : Verdict} (hv : v ≠ .refused) :
    digitStep n c = .error v ↔
      v = .overflow ∧ isDigit c = true ∧ 2147483647 < n * 10 + c.toNat := by
  simp only [digitStep, pushDigit]
  by_cases hc : isDigit c = true
  · rw [if_pos hc]
    split_ifs with hle
    · refine iff_of_false (fun h => by cases h) ?_
      omega
    · rw [Except.error.injEq, eq_comm]
      exact ⟨fun h => ⟨h, hc, by omega⟩, fun h => h.1⟩
  · rw [if_neg hc, Except.error.injEq]
    exact iff_of_false (fun h => hv h.symm) fun h => hc h.2.1

/-- The value of digits that follow a number. -/
def valueFrom (n : Nat) (digits : Str) : Nat :=
  digits.foldl (fun n c => n * 10 + (c.toNat - '0'.toNat)) n

theorem le_valueFrom (n : Nat) (digits : Str) : n ≤ valueFrom n digits := by
  induction digits generalizing n with
  | nil => exact le_rfl
  | cons c digits ih =>
    have hstep := ih (n * 10 + (c.toNat - '0'.toNat))
    rw [valueFrom, List.foldl_cons, ← valueFrom]
    omega

theorem foldlM_digitStep_eq_ok_iff {n n' : Nat} {word : Str} (hn : n ≤ 2147483647 - 48) :
    word.foldlM digitStep n = .ok n' ↔
      (∀ c ∈ word, isDigit c = true) ∧ n' = valueFrom n word ∧ n' ≤ 2147483647 - 48 := by
  induction word generalizing n with
  | nil =>
    simp only [List.foldlM_nil, List.not_mem_nil, false_implies, implies_true, true_and]
    constructor
    · intro h
      cases h
      exact ⟨rfl, hn⟩
    · exact fun h => by rw [h.1]; rfl
  | cons c word ih =>
    rw [List.foldlM_cons, List.forall_mem_cons, valueFrom, List.foldl_cons, ← valueFrom]
    cases hstep : digitStep n c with
    | ok n₁ =>
      obtain ⟨hc, rfl, hle⟩ := digitStep_eq_ok_iff.mp hstep
      show List.foldlM digitStep _ word = .ok n' ↔ _
      rw [ih hle]
      exact ⟨fun h => ⟨⟨hc, h.1⟩, h.2⟩, fun h => ⟨h.1.2, h.2⟩⟩
    | error v =>
      refine iff_of_false (fun h => by cases h) ?_
      rintro ⟨⟨hc, -⟩, rfl, hle⟩
      have hfirst := le_valueFrom (n * 10 + (c.toNat - '0'.toNat)) word
      rw [digitStep_eq_ok_iff.mpr ⟨hc, rfl, hfirst.trans hle⟩] at hstep
      cases hstep

/-- The digits of a number so far, and a digit that makes it too large. -/
structure TooLarge (digits : Str) (c : Char) : Prop where
  isDigit : ∀ b ∈ digits, isDigit b = true
  isDigit_last : Http.isDigit c = true
  value_le : digitsValue digits ≤ 2147483647 - 48
  lt_value : 2147483647 < digitsValue digits * 10 + c.toNat

section Numbers

variable {first : Parser} {loop next : Nat → Parser} {d : Char}

theorem scan_digits
    (hfirst : ∀ c, consume first c = match digitStep 0 c with
      | .ok n => .more (loop n)
      | .error v => .done v)
    (hloop : IsLoop consume loop next digitStep d) (hd : isDigit d = false) (t : Number)
    (rest : Str) :
    scan consume first (t.digits ++ rest) = scan consume (loop (digitsValue t.digits)) rest := by
  have htake := (foldlM_digitStep_eq_ok_iff (Nat.zero_le _)).mpr ⟨t.isDigit, rfl, t.value_le⟩
  have hmem : d ∉ t.digits := by
    intro hmem
    rw [t.isDigit d hmem] at hd
    cases hd
  show _ = scan consume (loop (valueFrom 0 t.digits)) rest
  cases hdigits : t.digits with
  | nil => exact absurd hdigits t.digits_ne_nil
  | cons c word =>
    rw [hdigits] at htake hmem
    rw [List.foldlM_cons] at htake
    cases hstep : digitStep 0 c with
    | error v =>
      rw [hstep] at htake
      cases htake
    | ok n =>
      rw [hstep] at htake
      rw [List.cons_append, scan_cons_of_more (by rw [hfirst, hstep])]
      exact hloop.scan_taken (fun h => hmem (List.mem_cons_of_mem c h)) htake rest

theorem scan_number
    (hfirst : ∀ c, consume first c = match digitStep 0 c with
      | .ok n => .more (loop n)
      | .error v => .done v)
    (hloop : IsLoop consume loop next digitStep d) (hd : isDigit d = false) (t : Number)
    (rest : Str) :
    scan consume first (t.digits ++ d :: rest) =
      scan consume (next (digitsValue t.digits)) rest := by
  rw [scan_digits hfirst hloop hd]
  exact scan_cons_of_more (by rw [hloop, if_pos rfl]) rest

theorem TooLarge.digits_ne_nil {digits : Str} {c : Char} (h : TooLarge digits c) :
    digits ≠ [] := by
  rintro rfl
  have hlt := h.lt_value
  have hc := toNat_of_isDigit h.isDigit_last
  rw [show digitsValue [] = 0 from rfl] at hlt
  omega

theorem scan_tooLarge
    (hfirst : ∀ c, consume first c = match digitStep 0 c with
      | .ok n => .more (loop n)
      | .error v => .done v)
    (hloop : IsLoop consume loop next digitStep d) (hd : isDigit d = false) {digits : Str}
    {c : Char} (h : TooLarge digits c) (rest : Str) :
    ∃ s, scan consume first (digits ++ c :: rest) = .ended s .overflow rest := by
  have hc : c ≠ d := by
    rintro rfl
    rw [h.isDigit_last] at hd
    cases hd
  have hbad : digitStep (digitsValue digits) c = .error .overflow :=
    (digitStep_eq_error_iff (by decide)).mpr ⟨rfl, h.isDigit_last, h.lt_value⟩
  refine ⟨loop (digitsValue digits), ?_⟩
  rw [scan_digits hfirst hloop hd ⟨digits, h.digits_ne_nil, h.isDigit, h.value_le⟩]
  exact scan_cons_of_done (by rw [hloop, if_neg hc, hbad]) rest

theorem exists_of_number
    (hfirst : ∀ c, consume first c = match digitStep 0 c with
      | .ok n => .more (loop n)
      | .error v => .done v)
    (hloop : IsLoop consume loop next digitStep d) {s : Parser} {v : Verdict}
    {text rest : Str} (hv : v ≠ .refused) (h : scan consume first text = .ended s v rest) :
    (∃ (t : Number) (text' : Str), text = t.digits ++ d :: text' ∧
        scan consume (next (digitsValue t.digits)) text' = .ended s v rest) ∨
      v = .overflow ∧ ∃ digits c, text = digits ++ c :: rest ∧ TooLarge digits c := by
  cases text with
  | nil => cases h
  | cons c text =>
    cases hstep : digitStep 0 c with
    | error v' =>
      rw [scan_cons_of_done (by rw [hfirst, hstep])] at h
      cases h
      obtain ⟨-, hc, hlt⟩ := (digitStep_eq_error_iff hv).mp hstep
      have := toNat_of_isDigit hc
      omega
    | ok n =>
      have hc := (digitStep_eq_ok_iff.mp hstep).1
      rw [scan_cons_of_more (by rw [hfirst, hstep])] at h
      obtain ⟨word, n', -, hfold, hrest⟩ := hloop.exists_of_ended h
      have hword : (c :: word).foldlM digitStep 0 = .ok n' := by
        rw [List.foldlM_cons, hstep]
        exact hfold
      obtain ⟨hall, rfl, hle⟩ := (foldlM_digitStep_eq_ok_iff (Nat.zero_le _)).mp hword
      rcases hrest with ⟨text', rfl, hnext⟩ | ⟨b, rfl, -, hbad⟩
      · exact Or.inl ⟨⟨c :: word, List.cons_ne_nil c word, hall, hle⟩, text', rfl, hnext⟩
      · obtain ⟨rfl, hb, hlt⟩ := (digitStep_eq_error_iff hv).mp hbad
        exact Or.inr ⟨rfl, c :: word, b, rfl, hall, hb, hle, hlt⟩

end Numbers

theorem isLoop_major (method uri : Str) :
    IsLoop consume (fun n => ⟨.httpVersionMajor, lineMessage method uri n 0⟩)
      (fun n => ⟨.httpVersionMinorStart, lineMessage method uri n 0⟩) digitStep '.' := by
  intro n c
  simp only [consume, pushMajor, lineMessage, digitStep]
  cases isDigit c <;> cases pushDigit (some n) c <;> rfl

theorem isLoop_minor (method uri : Str) (major : Nat) :
    IsLoop consume (fun n => ⟨.httpVersionMinor, lineMessage method uri major n⟩)
      (fun n => ⟨.expectingNewline1, lineMessage method uri major n⟩) digitStep '\r' := by
  intro n c
  simp only [consume, pushMinor, lineMessage, digitStep]
  cases isDigit c <;> cases pushDigit (some n) c <;> rfl

theorem consume_majorStart (method uri : Str) (c : Char) :
    consume ⟨.httpVersionMajorStart, lineMessage method uri 0 0⟩ c =
      match digitStep 0 c with
      | .ok n => .more ⟨.httpVersionMajor, lineMessage method uri n 0⟩
      | .error v => .done v := by
  simp only [consume, pushMajor, lineMessage, digitStep]
  cases isDigit c <;> cases pushDigit (some 0) c <;> rfl

theorem consume_minorStart (method uri : Str) (major : Nat) (c : Char) :
    consume ⟨.httpVersionMinorStart, lineMessage method uri major 0⟩ c =
      match digitStep 0 c with
      | .ok n => .more ⟨.httpVersionMinor, lineMessage method uri major n⟩
      | .error v => .done v := by
  simp only [consume, pushMinor, lineMessage, digitStep]
  cases isDigit c <;> cases pushDigit (some 0) c <;> rfl

/-! ## Header lines -/

def withHeaders (req : Message) (headers : List Header) : Message :=
  { req with headers := headers }

/-- The parser at the start of a line, after some headers. -/
def atLine (req : Message) (headers : List Header) : Parser :=
  ⟨.headerLineStart, withHeaders req headers⟩

section Headers

variable {req : Message}

theorem isLoop_headerName (hs : List Header) :
    IsLoop consume (fun h => ⟨.headerName, withHeaders req (hs ++ [h])⟩)
      (fun h => ⟨.spaceBeforeHeaderValue, withHeaders req (hs ++ [h])⟩)
      (wordStep isToken fun h c => { h with name := h.name ++ [c] }) ':' := by
  intro h c
  have hpush : pushName (withHeaders req (hs ++ [h])) c =
      .ok (withHeaders req (hs ++ [{ h with name := h.name ++ [c] }])) := by
    simp [pushName, modifyBack, withHeaders]
  simp only [consume, hpush, wordStep]
  cases isToken c <;> rfl

theorem isLoop_headerValue (hs : List Header) :
    IsLoop consume (fun h => ⟨.headerValue, withHeaders req (hs ++ [h])⟩)
      (fun h => ⟨.expectingNewline2, withHeaders req (hs ++ [h])⟩)
      (wordStep (fun c => !isCtl c) fun h c => { h with value := h.value ++ [c] }) '\r' := by
  intro h c
  have hpush : pushValue (withHeaders req (hs ++ [h])) c =
      .ok (withHeaders req (hs ++ [{ h with value := h.value ++ [c] }])) := by
    simp [pushValue, modifyBack, withHeaders]
  cases hctl : isCtl c <;> simp [consume, hpush, wordStep, hctl, goOn]

theorem foldl_name (h : Header) (word : Str) :
    word.foldl (fun h c => { h with name := h.name ++ [c] }) h =
      { h with name := h.name ++ word } := by
  induction word generalizing h with
  | nil => simp
  | cons c word ih =>
    rw [List.foldl_cons, ih]
    simp

theorem foldl_value (h : Header) (word : Str) :
    word.foldl (fun h c => { h with value := h.value ++ [c] }) h =
      { h with value := h.value ++ word } := by
  induction word generalizing h with
  | nil => simp
  | cons c word ih =>
    rw [List.foldl_cons, ih]
    simp

/-- The rest of a value and the end of its line. -/
theorem scan_value (hs : List Header) (h : Header) {word : Str}
    (hword : ∀ c ∈ word, isCtl c = false) (text : Str) :
    scan consume ⟨.headerValue, withHeaders req (hs ++ [h])⟩ (word ++ newline ++ text) =
      scan consume (atLine req (hs ++ [{ h with value := h.value ++ word }])) text := by
  have hloop : ∀ c ∈ word, c ≠ '\r' ∧ (!isCtl c) = true := by
    intro c hc
    rw [hword c hc]
    refine ⟨?_, rfl⟩
    rintro rfl
    exact absurd (hword '\r' hc) (by decide)
  rw [List.append_assoc, show newline ++ text = '\r' :: '\n' :: text from rfl,
    scan_word (isLoop_headerValue hs) _ hloop, scan_expect (fun _ => rfl), foldl_value]
  rfl

theorem exists_of_value {hs : List Header} {h : Header} {s : Parser} {v : Verdict}
    {text rest : Str} (hv : v ≠ .refused)
    (hscan : scan consume ⟨.headerValue, withHeaders req (hs ++ [h])⟩ text =
      .ended s v rest) :
    ∃ word text', text = word ++ newline ++ text' ∧ (∀ c ∈ word, isCtl c = false) ∧
      scan consume (atLine req (hs ++ [{ h with value := h.value ++ word }])) text' =
        .ended s v rest := by
  obtain ⟨word, _, rfl, hword, hend⟩ := exists_of_word (isLoop_headerValue hs) hv hscan
  obtain ⟨text', rfl, hline⟩ := exists_of_expect (fun _ => rfl) hv hend
  rw [foldl_value] at hline
  exact ⟨word, text', by simp [newline], fun c hc => by simpa using (hword c hc).2, hline⟩

/-! ## Folded lines -/

/-- White space at the start of a folded line is dropped, and then the value
goes on. -/
theorem consume_headerLws {c : Char} (hc : ¬ (c = ' ' ∨ c = '\t')) (r : Message) :
    consume ⟨.headerLws, r⟩ c = consume ⟨.headerValue, r⟩ c := by
  simp [consume, hc]

theorem consume_headerLws_blank {c : Char} (hc : c = ' ' ∨ c = '\t') (r : Message) :
    consume ⟨.headerLws, r⟩ c = .more ⟨.headerLws, r⟩ := by
  rcases hc with rfl | rfl <;> rfl

theorem consume_atLine_blank {c : Char} (hc : c = ' ' ∨ c = '\t') (hs : List Header)
    (h : Header) :
    consume (atLine req (hs ++ [h])) c =
      .more ⟨.headerLws, withHeaders req (hs ++ [h])⟩ := by
  rcases hc with rfl | rfl <;> simp [consume, atLine, withHeaders]

theorem scan_blank {blank : Str} (hblank : ∀ c ∈ blank, c = ' ' ∨ c = '\t') (r : Message)
    (text : Str) :
    scan consume ⟨.headerLws, r⟩ (blank ++ text) = scan consume ⟨.headerLws, r⟩ text := by
  induction blank with
  | nil => rfl
  | cons c blank ih =>
    rw [List.cons_append,
      scan_cons_of_more (consume_headerLws_blank (hblank c List.mem_cons_self) r)]
    exact ih fun b hb => hblank b (List.mem_cons_of_mem c hb)

theorem exists_of_blank {r : Message} {s : Parser} {v : Verdict} {text rest : Str}
    (h : scan consume ⟨.headerLws, r⟩ text = .ended s v rest) :
    ∃ blank c text', text = blank ++ c :: text' ∧ (∀ c ∈ blank, c = ' ' ∨ c = '\t') ∧
      ¬ (c = ' ' ∨ c = '\t') ∧
      scan consume ⟨.headerLws, r⟩ (c :: text') = .ended s v rest := by
  induction text with
  | nil => cases h
  | cons c text ih =>
    by_cases hc : c = ' ' ∨ c = '\t'
    · rw [scan_cons_of_more (consume_headerLws_blank hc r)] at h
      obtain ⟨blank, b, text', rfl, hblank, hb, hscan⟩ := ih h
      exact ⟨c :: blank, b, text', rfl, List.forall_mem_cons.mpr ⟨hc, hblank⟩, hb, hscan⟩
    · exact ⟨[], c, text, rfl, fun b hb => (List.not_mem_nil hb).elim, hc, h⟩

variable (req) in
theorem consume_headerValue (hs : List Header) (h : Header) (c : Char) :
    (∃ p, consume ⟨.headerValue, withHeaders req (hs ++ [h])⟩ c = .more p) ∨
      (c ≠ '\r' ∧ isCtl c = true ∧
        consume ⟨.headerValue, withHeaders req (hs ++ [h])⟩ c = .done .refused) := by
  rw [isLoop_headerValue hs h c, wordStep]
  by_cases hcr : c = '\r'
  · exact Or.inl ⟨_, if_pos hcr⟩
  · rw [if_neg hcr]
    cases isCtl c with
    | true => exact Or.inr ⟨hcr, rfl, rfl⟩
    | false => exact Or.inl ⟨_, rfl⟩

/-- A text that starts with no blank is a value after white space, too. -/
theorem scan_headerLws {r : Message} {p : Parser} {c : Char} (hc : ¬ (c = ' ' ∨ c = '\t'))
    (hmore : consume ⟨.headerValue, r⟩ c = .more p) (text : Str) :
    scan consume ⟨.headerLws, r⟩ (c :: text) = scan consume ⟨.headerValue, r⟩ (c :: text) := by
  rw [scan_cons_of_more (by rw [consume_headerLws hc, hmore]), scan_cons_of_more hmore]

/-- A folded line adds its text to the value of the last header. -/
theorem scan_fold (hs : List Header) (h : Header) (f : Fold) (text : Str) :
    scan consume (atLine req (hs ++ [h])) (f.print ++ text) =
      scan consume (atLine req (hs ++ [{ h with value := h.value ++ f.text }])) text := by
  obtain ⟨b, blank, hblank⟩ := List.exists_cons_of_ne_nil f.blank_ne_nil
  have hb := f.blank_blank
  rw [hblank, List.forall_mem_cons] at hb
  have hprint : f.print ++ text = b :: (blank ++ (f.text ++ newline ++ text)) := by
    simp [Fold.print, hblank]
  rw [hprint, scan_cons_of_more (consume_atLine_blank hb.1 hs h), scan_blank hb.2,
    ← scan_value hs h f.text_printable text]
  -- the first character after the white space
  cases htext : f.text with
  | nil => exact scan_headerLws (by decide) (by rw [isLoop_headerValue hs h, if_pos rfl]) _
  | cons c word =>
    have hctl : isCtl c = false := f.text_printable c (by rw [htext]; exact List.mem_cons_self)
    have hc : ¬ (c = ' ' ∨ c = '\t') := by
      rintro (rfl | rfl)
      · exact f.text_head (by rw [htext]; rfl)
      · exact absurd hctl (by decide)
    rcases consume_headerValue req hs h c with ⟨p, hp⟩ | ⟨-, hbad, -⟩
    · exact scan_headerLws hc hp _
    · rw [hctl] at hbad
      cases hbad

theorem exists_of_fold {hs : List Header} {h : Header} {s : Parser} {v : Verdict} {b : Char}
    {text rest : Str} (hv : v ≠ .refused) (hb : b = ' ' ∨ b = '\t')
    (hscan : scan consume (atLine req (hs ++ [h])) (b :: text) = .ended s v rest) :
    ∃ (f : Fold) (text' : Str), b :: text = f.print ++ text' ∧
      scan consume (atLine req (hs ++ [{ h with value := h.value ++ f.text }])) text' =
        .ended s v rest := by
  rw [scan_cons_of_more (consume_atLine_blank hb hs h)] at hscan
  obtain ⟨blank, c, text, rfl, hblank, hc, hvalue⟩ := exists_of_blank hscan
  rcases consume_headerValue req hs h c with ⟨p, hp⟩ | ⟨-, -, hbad⟩
  · rw [scan_headerLws hc hp] at hvalue
    obtain ⟨word, text', htext, hword, hline⟩ := exists_of_value hv hvalue
    refine ⟨⟨b :: blank, word, List.cons_ne_nil b blank, ?_, hword, ?_⟩, text', ?_, hline⟩
    · exact List.forall_mem_cons.mpr ⟨hb, hblank⟩
    · intro hhead
      cases word with
      | nil => cases hhead
      | cons d word =>
        cases hhead
        injection htext with hcd
        exact hc (Or.inl hcd)
    · simp [Fold.print, htext]
  · rw [scan_cons_of_done (by rw [consume_headerLws hc, hbad])] at hvalue
    cases hvalue
    exact absurd rfl hv

/-! ## Headers -/

theorem not_blank_of_isToken {c : Char} (h : isToken c = true) :
    c ≠ '\r' ∧ ¬ (c = ' ' ∨ c = '\t') := by
  refine ⟨?_, ?_⟩
  · rintro rfl
    exact absurd h (by decide)
  · rintro (rfl | rfl) <;> exact absurd h (by decide)

theorem consume_atLine_token {c : Char} (hc : isToken c = true) (hs : List Header) :
    consume (atLine req hs) c =
      .more ⟨.headerName, withHeaders req (hs ++ [⟨[c], []⟩])⟩ := by
  obtain ⟨hcr, hblank⟩ := not_blank_of_isToken hc
  simp [consume, atLine, withHeaders, pushHeader, hcr, hblank, hc]

variable (req) in
theorem scan_headerLine (hs : List Header) {name value : Str} (hne : name ≠ [])
    (hname : ∀ c ∈ name, isToken c = true) (hvalue : ∀ c ∈ value, isCtl c = false)
    (text : Str) :
    scan consume (atLine req hs) (name ++ ": ".toList ++ value ++ newline ++ text) =
      scan consume (atLine req (hs ++ [⟨name, value⟩])) text := by
  obtain ⟨c, name, rfl⟩ := List.exists_cons_of_ne_nil hne
  have hword : ∀ b ∈ name, b ≠ ':' ∧ isToken b = true := by
    intro b hb
    have hb' := hname b (List.mem_cons_of_mem c hb)
    refine ⟨?_, hb'⟩
    rintro rfl
    exact absurd hb' (by decide)
  have hprint : c :: name ++ ": ".toList ++ value ++ newline ++ text =
      c :: (name ++ ':' :: ' ' :: (value ++ newline ++ text)) := by
    simp
  rw [hprint, scan_cons_of_more (consume_atLine_token (hname c List.mem_cons_self) hs),
    scan_word (isLoop_headerName hs) _ hword, scan_expect (fun _ => rfl), foldl_name,
    scan_value hs _ hvalue]
  rfl

/-- A line that is not folded ends the headers or starts one. -/
theorem exists_of_line {hs : List Header} {s : Parser} {v : Verdict} {c : Char}
    {text rest : Str} (hv : v ≠ .refused) (hc : hs = [] ∨ ¬ (c = ' ' ∨ c = '\t'))
    (hscan : scan consume (atLine req hs) (c :: text) = .ended s v rest) :
    (v = .accepted ∧ c :: text = newline ++ rest ∧
        s = ⟨.expectingNewline3, withHeaders req hs⟩) ∨
      ∃ name value text', name ≠ [] ∧ (∀ c ∈ name, isToken c = true) ∧
        (∀ c ∈ value, isCtl c = false) ∧
        c :: text = name ++ ": ".toList ++ value ++ newline ++ text' ∧
        scan consume (atLine req (hs ++ [⟨name, value⟩])) text' = .ended s v rest := by
  by_cases hcr : c = '\r'
  · subst hcr
    left
    have hstep : consume (atLine req hs) '\r' =
        .more ⟨.expectingNewline3, withHeaders req hs⟩ := rfl
    rw [scan_cons_of_more hstep] at hscan
    cases text with
    | nil => cases hscan
    | cons d text =>
      rw [scan_cons_of_done rfl] at hscan
      injection hscan with hstate hverdict hrest
      split_ifs at hverdict with hd
      · exact ⟨hverdict.symm, by rw [hd, hrest]; rfl, hstate.symm⟩
      · exact absurd hverdict.symm hv
  · right
    cases htoken : isToken c with
    | false =>
      have hstep : consume (atLine req hs) c = .done .refused := by
        rcases hc with rfl | hc
        · simp [consume, atLine, withHeaders, hcr, htoken]
        · simp [consume, atLine, withHeaders, hcr, htoken, hc]
      rw [scan_cons_of_done hstep] at hscan
      cases hscan
      exact absurd rfl hv
    | true =>
      rw [scan_cons_of_more (consume_atLine_token htoken hs)] at hscan
      obtain ⟨name, _, rfl, hname, hcolon⟩ := exists_of_word (isLoop_headerName hs) hv hscan
      obtain ⟨_, rfl, hspace⟩ := exists_of_expect (fun _ => rfl) hv hcolon
      rw [foldl_name] at hspace
      obtain ⟨value, text', rfl, hvalue, hline⟩ := exists_of_value hv hspace
      refine ⟨c :: name, value, text', List.cons_ne_nil c name, ?_, hvalue, by simp, hline⟩
      exact List.forall_mem_cons.mpr ⟨htoken, fun b hb => (hname b hb).2⟩

theorem scan_folds (hs : List Header) (h : Header) (folds : List Fold) (text : Str) :
    scan consume (atLine req (hs ++ [h])) (folds.flatMap Fold.print ++ text) =
      scan consume (atLine req (hs ++ [{ h with value := h.value ++ folds.flatMap Fold.text }]))
        text := by
  induction folds generalizing h with
  | nil => simp
  | cons f folds ih =>
    rw [List.flatMap_cons, List.append_assoc, scan_fold, ih]
    simp

theorem scan_headers (hs : List Header) (headers : List HeaderText) (text : Str) :
    scan consume (atLine req hs) (headers.flatMap HeaderText.print ++ text) =
      scan consume (atLine req (hs ++ headers.map HeaderText.header)) text := by
  induction headers generalizing hs with
  | nil => simp
  | cons h headers ih =>
    have hline := scan_headerLine req hs h.name_ne_nil h.name_token h.value_printable
      (h.folds.flatMap Fold.print ++ (headers.flatMap HeaderText.print ++ text))
    rw [List.flatMap_cons, HeaderText.print]
    simp only [List.append_assoc] at hline ⊢
    rw [hline, scan_folds, ih]
    simp [HeaderText.header]

/-- After a header come its folded lines and the other headers. -/
theorem exists_of_folds {hs : List Header} {h : Header} {s : Parser} {v : Verdict}
    {text rest : Str} (hv : v ≠ .refused)
    (hscan : scan consume (atLine req (hs ++ [h])) text = .ended s v rest) :
    v = .accepted ∧ ∃ (folds : List Fold) (headers : List HeaderText),
      text = folds.flatMap Fold.print ++ headers.flatMap HeaderText.print ++ newline ++ rest ∧
      s = ⟨.expectingNewline3, withHeaders req
        (hs ++ { h with value := h.value ++ folds.flatMap Fold.text } ::
          headers.map HeaderText.header)⟩ := by
  induction hlen : text.length using Nat.strong_induction_on generalizing hs h text with
  | h n ih =>
    cases text with
    | nil => cases hscan
    | cons c text =>
      by_cases hc : c = ' ' ∨ c = '\t'
      · obtain ⟨f, text', htext, hline⟩ := exists_of_fold hv hc hscan
        have hshort : text'.length < n := by
          rw [← hlen, htext, List.length_append]
          simp [Fold.print, newline]
        obtain ⟨rfl, folds, headers, rfl, rfl⟩ := ih _ hshort hline rfl
        refine ⟨rfl, f :: folds, headers, ?_, ?_⟩
        · rw [htext]
          simp
        · simp
      · rcases exists_of_line hv (Or.inr hc) hscan with
          ⟨rfl, htext, rfl⟩ | ⟨name, value, text', hne, hname, hvalue, htext, hline⟩
        · exact ⟨rfl, [], [], by simpa using htext, by simp⟩
        · have hshort : text'.length < n := by
            rw [← hlen, htext]
            simp [newline]
            omega
          obtain ⟨rfl, folds, headers, rfl, rfl⟩ := ih _ hshort hline rfl
          refine ⟨rfl, [], ⟨name, value, folds, hne, hname, hvalue⟩ :: headers, ?_, ?_⟩
          · rw [htext]
            simp [HeaderText.print]
          · simp [HeaderText.header]

/-- The headers of a text that the parser does not refuse. -/
theorem exists_of_headers {s : Parser} {v : Verdict} {text rest : Str} (hv : v ≠ .refused)
    (hscan : scan consume (atLine req []) text = .ended s v rest) :
    v = .accepted ∧ ∃ headers : List HeaderText,
      text = headers.flatMap HeaderText.print ++ newline ++ rest ∧
      s = ⟨.expectingNewline3, withHeaders req (headers.map HeaderText.header)⟩ := by
  cases text with
  | nil => cases hscan
  | cons c text =>
    rcases exists_of_line hv (Or.inl rfl) hscan with
      ⟨rfl, htext, rfl⟩ | ⟨name, value, text', hne, hname, hvalue, htext, hline⟩
    · exact ⟨rfl, [], htext, rfl⟩
    · obtain ⟨rfl, folds, headers, rfl, rfl⟩ := exists_of_folds hv hline
      refine ⟨rfl, ⟨name, value, folds, hne, hname, hvalue⟩ :: headers, ?_, ?_⟩
      · rw [htext]
        simp [HeaderText.print]
      · simp [HeaderText.header]

end Headers

/-! ## Requests -/

/-- The parser reads a request as what it means, and not a character
further. -/
theorem scan_print (t : RequestText) (rest : Str) :
    scan consume fresh (t.print ++ rest) =
      .ended ⟨.expectingNewline3, t.message⟩ .accepted rest := by
  have hprint : t.print ++ rest = t.toRequestStart.print ++ (t.major.digits ++ '.' ::
      (t.minor.digits ++ '\r' :: '\n' :: (t.headers.flatMap HeaderText.print ++
        ('\r' :: '\n' :: rest)))) := by
    simp [RequestText.print, newline]
  rw [hprint, scan_start,
    scan_number (consume_majorStart _ _) (isLoop_major _ _) (by decide),
    scan_number (consume_minorStart _ _ _) (isLoop_minor _ _ _) (by decide),
    scan_expect (fun _ => rfl)]
  exact @scan_headers (lineMessage t.method t.uri _ _) [] t.headers _

/-- A version number of the text does not fit, and the text is read up to
the character that makes it too large. -/
inductive VersionTooLarge : Str → Str → Prop where
  | major (t : RequestStart) {digits : Str} {c : Char} (rest : Str) (h : TooLarge digits c) :
      VersionTooLarge (t.print ++ digits ++ c :: rest) rest
  | minor (t : RequestStart) (n : Number) {digits : Str} {c : Char} (rest : Str)
      (h : TooLarge digits c) :
      VersionTooLarge (t.print ++ n.digits ++ '.' :: digits ++ c :: rest) rest

/-- A text that the parser does not refuse is a request, or it overflows a
version number. -/
theorem exists_of_ended {s : Parser} {v : Verdict} {text rest : Str} (hv : v ≠ .refused)
    (h : scan consume fresh text = .ended s v rest) :
    (v = .accepted ∧ ∃ t : RequestText, text = t.print ++ rest ∧
        s = ⟨.expectingNewline3, t.message⟩) ∨
      v = .overflow ∧ VersionTooLarge text rest := by
  obtain ⟨t, text, rfl, hmajor⟩ := exists_of_start hv h
  rcases exists_of_number (consume_majorStart _ _) (isLoop_major _ _) hv hmajor with
    ⟨major, text, rfl, hdot⟩ | ⟨rfl, digits, c, rfl, hlarge⟩
  · rcases exists_of_number (consume_minorStart _ _ _) (isLoop_minor _ _ _) hv hdot with
      ⟨minor, text, rfl, hcr⟩ | ⟨rfl, digits, c, rfl, hlarge⟩
    · obtain ⟨text, rfl, hline⟩ := exists_of_expect (fun _ => rfl) hv hcr
      obtain ⟨rfl, headers, rfl, rfl⟩ :=
        @exists_of_headers (lineMessage t.method t.uri _ _) _ _ _ _ hv hline
      refine Or.inl ⟨rfl, ⟨t, major, minor, headers⟩, ?_, rfl⟩
      simp [RequestText.print, newline]
    · have := VersionTooLarge.minor t major rest hlarge
      exact Or.inr ⟨rfl, by simpa using this⟩
  · have := VersionTooLarge.major t rest hlarge
    exact Or.inr ⟨rfl, by simpa using this⟩

theorem scan_versionTooLarge {text rest : Str} (h : VersionTooLarge text rest) :
    ∃ s, scan consume fresh text = .ended s .overflow rest := by
  cases h with
  | major t rest h =>
    rw [List.append_assoc, scan_start]
    exact scan_tooLarge (consume_majorStart _ _) (isLoop_major _ _) (by decide) h rest
  | minor t n rest h =>
    simp only [List.append_assoc, List.cons_append]
    rw [scan_start, scan_number (consume_majorStart _ _) (isLoop_major _ _) (by decide)]
    exact scan_tooLarge (consume_minorStart _ _ _) (isLoop_minor _ _ _) (by decide) h rest

end MinorityViewport.Http.RequestParser
