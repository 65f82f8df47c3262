import MinorityViewport.Networks.RequestGrammar

/-!
# What the parser makes of a text

The parser decides with every character whether the text can still become a
request.  The results here hold for a text that comes in any number of
pieces, as the reads of a connection deliver it.

* `accepted_iff` and `undefined_iff` are the outcomes in terms of the grammar.
* `finish` leads the parser to an accepted request from wherever it stands,
  and so `pending_iff` and `notAccepted_iff` say that it refuses a text at
  the first character after which no request is left.
* `Message.print` is a request without folded lines.  `exists_text_iff` says
  which messages a request can mean, and the printed message means the same.
-/

namespace MinorityViewport.Http.RequestParser

open Scanner (Scan scan feed Accepts Viable)

/-! ## Outcomes -/

theorem scan_eq_accepted_iff {p : Parser} {text rest : Str} :
    scan consume fresh text = .ended p .accepted rest ↔
      ∃ t : RequestText, text = t.print ++ rest ∧ p = ⟨.expectingNewline3, t.message⟩ := by
  constructor
  · intro h
    rcases exists_of_ended (by decide) h with ⟨-, ht⟩ | ⟨hv, -⟩
    · exact ht
    · cases hv
  · rintro ⟨t, rfl, rfl⟩
    exact scan_print t rest

theorem accepts_iff {text : Str} :
    Accepts consume (· = .accepted) fresh text ↔ ∃ t : RequestText, text = t.print := by
  unfold Accepts
  constructor
  · rintro ⟨p, v, h, rfl⟩
    obtain ⟨t, ht, -⟩ := scan_eq_accepted_iff.mp h
    exact ⟨t, by rw [ht, List.append_nil]⟩
  · rintro ⟨t, rfl⟩
    have h := scan_print t []
    rw [List.append_nil] at h
    exact ⟨_, _, h, rfl⟩

/-- However its bytes come, a text is accepted when a request stands at its
start. -/
theorem accepted_iff (pieces : List Str) (p : Parser) (rest : Str) :
    feed consume fresh pieces = .ended p .accepted rest ↔
      ∃ t : RequestText, pieces.flatten = t.print ++ rest ∧
        p = ⟨.expectingNewline3, t.message⟩ := by
  rw [Scanner.feed_eq_scan, scan_eq_accepted_iff]

/-- The runs of the parser without a meaning in C++ are those that come to a
version number that is too large. -/
theorem undefined_iff (pieces : List Str) (rest : Str) :
    (∃ p v, feed consume fresh pieces = .ended p v rest ∧ v ≠ .accepted ∧ v ≠ .refused) ↔
      VersionTooLarge pieces.flatten rest := by
  rw [Scanner.feed_eq_scan]
  constructor
  · rintro ⟨p, v, h, haccepted, hrefused⟩
    rcases exists_of_ended hrefused h with ⟨hv, -⟩ | ⟨-, hlarge⟩
    · exact absurd hv haccepted
    · exact hlarge
  · intro h
    obtain ⟨p, hp⟩ := scan_versionTooLarge h
    exact ⟨p, .overflow, hp, by decide, by decide⟩

/-! ## Texts that can become a request -/

/-- What a run of the parser keeps about the version numbers. -/
def Numbered (p : Parser) : Prop :=
  match p.state with
  | .httpVersionMajorStart => p.req.httpVersionMajor = some 0 ∧ p.req.httpVersionMinor = some 0
  | .httpVersionMajor | .httpVersionMinorStart => p.req.httpVersionMinor = some 0
  | _ => True

theorem numbered_fresh : Numbered fresh := trivial

theorem numbered_expect {c input : Char} {next p : Parser} (h : expect c next input = .more p)
    (hnext : Numbered next) : Numbered p := by
  unfold expect at h
  split_ifs at h
  cases h
  exact hnext

theorem numbered_goOn {state : State} {r : Except Verdict Message} {p : Parser}
    (h : goOn state r = .more p) (hr : ∀ req, r = .ok req → Numbered ⟨state, req⟩) :
    Numbered p := by
  cases r with
  | ok req =>
    cases h
    exact hr req rfl
  | error v => cases h

theorem minor_of_pushMajor {req req' : Message} {c : Char} (h : pushMajor req c = .ok req') :
    req'.httpVersionMinor = req.httpVersionMinor := by
  unfold pushMajor at h
  cases hdigit : pushDigit req.httpVersionMajor c with
  | error v =>
    rw [hdigit] at h
    cases h
  | ok n =>
    rw [hdigit] at h
    cases h
    rfl

theorem numbered_step (p : Parser) (c : Char) (p' : Parser) (hp : Numbered p)
    (h : consume p c = .more p') : Numbered p' := by
  obtain ⟨state, req⟩ := p
  cases state <;> simp only [consume] at h
  case httpVersionSlash => exact numbered_expect h ⟨rfl, rfl⟩
  case httpVersionMajorStart =>
    split_ifs at h
    exact numbered_goOn h fun r hr => (minor_of_pushMajor hr).trans hp.2
  case httpVersionMajor =>
    split_ifs at h
    · cases h
      exact hp
    · exact numbered_goOn h fun r hr => (minor_of_pushMajor hr).trans hp
  -- the other states lead to states that ask for nothing
  all_goals
    try split_ifs at h
  all_goals
    first
    | exact numbered_expect h trivial
    | exact numbered_goOn h fun _ _ => trivial
    | (cases h; trivial)

/-- A text that completes the request. -/
def finish : State → Str
  | .methodStart => "G  HTTP/0.0\r\n\r\n".toList
  | .method => "  HTTP/0.0\r\n\r\n".toList
  | .uri => " HTTP/0.0\r\n\r\n".toList
  | .httpVersionH => "HTTP/0.0\r\n\r\n".toList
  | .httpVersionT1 => "TTP/0.0\r\n\r\n".toList
  | .httpVersionT2 => "TP/0.0\r\n\r\n".toList
  | .httpVersionP => "P/0.0\r\n\r\n".toList
  | .httpVersionSlash => "/0.0\r\n\r\n".toList
  | .httpVersionMajorStart => "0.0\r\n\r\n".toList
  | .httpVersionMajor => ".0\r\n\r\n".toList
  | .httpVersionMinorStart => "0\r\n\r\n".toList
  | .httpVersionMinor => "\r\n\r\n".toList
  | .expectingNewline1 => "\n\r\n".toList
  | .headerLineStart => "\r\n".toList
  | .headerLws => "\r\n\r\n".toList
  | .headerName => ": \r\n\r\n".toList
  | .spaceBeforeHeaderValue => " \r\n\r\n".toList
  | .headerValue => "\r\n\r\n".toList
  | .expectingNewline2 => "\n\r\n".toList
  | .expectingNewline3 => "\n".toList

theorem accepts_finish (p : Parser) (hp : Numbered p) :
    Accepts consume (· = .accepted) p (finish p.state) := by
  obtain ⟨state, ⟨uri, headers⟩, method, major, minor⟩ := p
  cases state
  case httpVersionMajorStart =>
    obtain ⟨hmajor, hminor⟩ := hp
    cases hmajor
    cases hminor
    exact ⟨_, _, rfl, rfl⟩
  case httpVersionMajor | httpVersionMinorStart =>
    cases hp
    exact ⟨_, _, rfl, rfl⟩
  -- the other states read no number, or assign it before
  all_goals exact ⟨_, _, rfl, rfl⟩

/-- A text can be continued to a request, and it is not one yet. -/
def Unfinished (text : Str) : Prop :=
  ∃ (t : RequestText) (more : Str), more ≠ [] ∧ text ++ more = t.print

theorem viable_iff {text : Str} :
    Viable consume (· = .accepted) fresh text ↔
      ∃ (t : RequestText) (more : Str), text ++ more = t.print := by
  unfold Viable
  simp only [accepts_iff]
  exact exists_comm

/-- No request continues another. -/
theorem unfinished_iff {text : Str} :
    Unfinished text ↔
      Viable consume (· = .accepted) fresh text ∧
        ¬ Accepts consume (· = .accepted) fresh text := by
  rw [viable_iff]
  constructor
  · rintro ⟨t, more, hmore, ht⟩
    refine ⟨⟨t, more, ht⟩, fun h => Scanner.not_accepts_append h hmore ?_⟩
    exact accepts_iff.mpr ⟨t, ht⟩
  · rintro ⟨⟨t, more, ht⟩, hnot⟩
    refine ⟨t, more, ?_, ht⟩
    rintro rfl
    exact hnot (accepts_iff.mpr ⟨t, by rw [← ht, List.append_nil]⟩)

theorem scan_pending_iff {text : Str} :
    (∃ p, scan consume fresh text = .pending p) ↔ Unfinished text := by
  rw [unfinished_iff]
  exact Scanner.pending_iff_viable numbered_step (fun p hp => ⟨_, accepts_finish p hp⟩)
    numbered_fresh text

theorem scan_notAccepted_iff {text rest : Str} :
    (∃ p v, scan consume fresh text = .ended p v rest ∧ v ≠ .accepted) ↔
      ∃ start c, text = start ++ c :: rest ∧ Unfinished start ∧
        ∀ (t : RequestText) (more : Str), start ++ c :: more ≠ t.print := by
  rw [Scanner.ended_bad_iff numbered_step (fun p hp => ⟨_, accepts_finish p hp⟩) numbered_fresh]
  refine exists₂_congr fun start c => and_congr_right fun _ => ?_
  rw [← and_assoc, ← unfinished_iff, viable_iff]
  simp

/-- The parser waits for more exactly on the unfinished texts. -/
theorem pending_iff (pieces : List Str) :
    (∃ p, feed consume fresh pieces = .pending p) ↔ Unfinished pieces.flatten := by
  rw [Scanner.feed_eq_scan, scan_pending_iff]

/-- A text that is not accepted is read up to the first character after which
it cannot become a request. -/
theorem notAccepted_iff (pieces : List Str) (rest : Str) :
    (∃ p v, feed consume fresh pieces = .ended p v rest ∧ v ≠ .accepted) ↔
      ∃ text c, pieces.flatten = text ++ c :: rest ∧ Unfinished text ∧
        ∀ (t : RequestText) (more : Str), text ++ c :: more ≠ t.print := by
  rw [Scanner.feed_eq_scan, scan_notAccepted_iff]

/-! ## Requests without folded lines -/

/-- A message as one request. -/
def printMessage (m : Message) : Str :=
  m.method ++ ' ' :: m.uri ++ " HTTP/".toList ++ toStringNat (m.httpVersionMajor.getD 0) ++
    '.' :: toStringNat (m.httpVersionMinor.getD 0) ++ newline ++
    m.headers.flatMap (fun h => h.name ++ ": ".toList ++ h.value ++ newline) ++ newline

/-- The number without leading zeros. -/
def Number.plain (n : Number) : Number where
  digits := toStringNat (digitsValue n.digits)
  digits_ne_nil := Nat.toDigits_ne_nil
  isDigit := by
    intro c hc
    have h := Json.Reader.isDigit_of_mem_toStringNat hc
    simp only [Char.isDigit, Bool.and_eq_true, decide_eq_true_eq] at h
    simp only [Http.isDigit, Bool.and_eq_true, decide_eq_true_eq]
    exact ⟨h.1, h.2⟩
  value_le := by
    rw [Json.Reader.digitsValue_toStringNat]
    exact n.value_le

/-- The header on one line. -/
def HeaderText.plain (h : HeaderText) : HeaderText where
  name := h.name
  value := h.header.value
  folds := []
  name_ne_nil := h.name_ne_nil
  name_token := h.name_token
  value_printable := by
    intro c hc
    rcases List.mem_append.mp hc with hc | hc
    · exact h.value_printable c hc
    · obtain ⟨f, -, hcf⟩ := List.mem_flatMap.mp hc
      exact f.text_printable c hcf

def RequestText.plain (t : RequestText) : RequestText :=
  ⟨t.toRequestStart, t.major.plain, t.minor.plain, t.headers.map HeaderText.plain⟩

theorem message_plain (t : RequestText) : t.plain.message = t.message := by
  have hheader : ∀ h : HeaderText, h.plain.header = h.header := by
    intro h
    simp [HeaderText.header, HeaderText.plain]
  simp [RequestText.message, RequestText.plain, Number.plain, Json.Reader.digitsValue_toStringNat,
    hheader, Function.comp_def]

theorem print_plain (t : RequestText) : t.plain.print = printMessage t.message := by
  have hprint : ∀ h : HeaderText,
      h.plain.print = h.header.name ++ ": ".toList ++ h.header.value ++ newline := by
    intro h
    simp [HeaderText.print, HeaderText.plain, HeaderText.header]
  simp [RequestText.print, RequestText.plain, RequestText.message, RequestStart.print,
    printMessage, Number.plain, List.flatMap_map, hprint]

/-- A message that any text means is read back from its own print. -/
theorem parse_printMessage_iff (m : Message) :
    (∀ rest, parse fresh (printMessage m ++ rest) =
        .ended ⟨.expectingNewline3, m⟩ .accepted rest) ↔
      ∃ pieces p rest, feed consume fresh pieces = .ended p .accepted rest ∧ p.req = m := by
  simp only [Scanner.feed_eq_scan, scan_eq_accepted_iff]
  constructor
  · intro h
    obtain ⟨t, ht, hmessage⟩ := scan_eq_accepted_iff.mp (h [])
    exact ⟨[printMessage m], _, [], ⟨t, by simpa using ht, hmessage⟩, rfl⟩
  · rintro ⟨pieces, _, rest, ⟨t, -, rfl⟩, rfl⟩ rest'
    exact scan_eq_accepted_iff.mpr ⟨t.plain, by rw [print_plain], by rw [message_plain]⟩

end MinorityViewport.Http.RequestParser
