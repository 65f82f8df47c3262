import MinorityViewport.Networks.RequestSafety
import MinorityViewport.Lib.Framing
import MinorityViewport.Json.Printed

/-!
# Replies on the wire

`Networks/Reply.cpp`.  `Reply.toBuffers` is the list of buffers that a
connection writes, and `readReply` is a client that reads a reply: the status
line, the headers up to the empty line, and as many characters as the header
`Content-Length` says.

* `Framed` says of a reply that its headers stay on their lines and that it
  announces its length.  `readReply_bytes` is the round trip of such a reply.
* `framed_handleRequest` finds that every reply of the handler is framed, so
  nothing in a request or in a file leaves the place that it has in a reply.
-/

namespace MinorityViewport.Http

open Exec

/-! ## Writing -/

/-- `status_strings::to_buffer`. -/
def StatusType.toBuffer : StatusType → Str
  | .ok => "HTTP/1.0 200 OK\r\n".toList
  | .badRequest => "HTTP/1.0 400 Bad Request\r\n".toList
  | .notFound => "HTTP/1.0 404 Not Found\r\n".toList

/-- `misc_strings::name_value_separator`. -/
def nameValueSeparator : Str := [':', ' ']

/-- `misc_strings::crlf`. -/
def crlf : Str := ['\r', '\n']

/-- `reply::to_buffers`. -/
def Reply.toBuffers (rep : Reply) : List Str :=
  rep.status.toBuffer ::
    rep.headers.flatMap (fun h => [h.name, nameValueSeparator, h.value, crlf]) ++
    [crlf, rep.content]

/-- What `async_write` sends of them. -/
def Reply.bytes (rep : Reply) : Str := rep.toBuffers.flatten

/-! ## Reading -/

def readHeader (line : Str) : Option Header :=
  (Framing.cut nameValueSeparator line).map fun parts => ⟨parts.1, parts.2⟩

def readStatus (line : Str) : Option StatusType :=
  [StatusType.ok, .badRequest, .notFound].find? (·.toBuffer = line ++ crlf)

/-- The number in the header `Content-Length`. -/
def contentLength (headers : List Header) : Option Nat :=
  (headers.find? (·.name = "Content-Length".toList)).map fun h => digitsValue h.value

/-- A reply at the start of a text. -/
def readReply (text : Str) : Option Reply := do
  let (lines, body) ← Framing.head crlf text.length text
  let status ← readStatus (← lines.head?)
  let headers ← lines.tail.mapM readHeader
  let length ← contentLength headers
  if length ≤ body.length then some ⟨status, headers, body.take length⟩ else none

/-! ## Replies that read back -/

structure Framed (rep : Reply) : Prop where
  name_line : ∀ h ∈ rep.headers, '\r' ∉ h.name ∧ ':' ∉ h.name
  value_line : ∀ h ∈ rep.headers, '\r' ∉ h.value
  length : contentLength rep.headers = some rep.content.length

def Header.line (h : Header) : Str := h.name ++ nameValueSeparator ++ h.value

/-- The status line without its end. -/
def StatusType.text (status : StatusType) : Str := status.toBuffer.dropLast.dropLast

theorem text_append_crlf (status : StatusType) : status.text ++ crlf = status.toBuffer := by
  cases status <;> decide +kernel

theorem readStatus_text (status : StatusType) : readStatus status.text = some status := by
  cases status <;> decide +kernel

theorem text_line (status : StatusType) : status.text ≠ [] ∧ '\r' ∉ status.text := by
  cases status <;> decide +kernel

theorem bytes_eq (rep : Reply) :
    rep.bytes = (rep.status.text :: rep.headers.map Header.line).flatMap (· ++ crlf) ++ crlf ++
      rep.content := by
  have hheaders : ∀ headers : List Header,
      (headers.flatMap fun h => [h.name, nameValueSeparator, h.value, crlf]).flatten =
        (headers.map Header.line).flatMap (· ++ crlf) := by
    intro headers
    induction headers with
    | nil => rfl
    | cons h headers ih =>
      rw [List.flatMap_cons, List.flatten_append, ih]
      simp [Header.line]
  rw [Reply.bytes, Reply.toBuffers, List.flatMap_cons, text_append_crlf]
  simp [hheaders]

theorem readHeader_line {h : Header} (hname : ':' ∉ h.name) : readHeader h.line = some h := by
  rw [readHeader, Header.line, nameValueSeparator, Framing.cut_append hname]
  rfl

theorem line_ne_nil (h : Header) : h.line ≠ [] := by
  simp [Header.line, nameValueSeparator]

theorem mapM_readHeader {headers : List Header} (h : ∀ header ∈ headers, ':' ∉ header.name) :
    (headers.map Header.line).mapM readHeader = some headers := by
  induction headers with
  | nil => rfl
  | cons header headers ih =>
    obtain ⟨hheader, hrest⟩ := List.forall_mem_cons.mp h
    rw [List.map_cons, List.mapM_cons, readHeader_line hheader, ih hrest]
    rfl

/-- A framed reply is read back, and what follows it is left. -/
theorem readReply_bytes {rep : Reply} (h : Framed rep) (rest : Str) :
    readReply (rep.bytes ++ rest) = some rep := by
  have hlines : ∀ line ∈ rep.status.text :: rep.headers.map Header.line,
      line ≠ [] ∧ '\r' ∉ line := by
    refine List.forall_mem_cons.mpr ⟨text_line rep.status, fun line hline => ?_⟩
    obtain ⟨header, hheader, rfl⟩ := List.mem_map.mp hline
    refine ⟨line_ne_nil header, ?_⟩
    simp [Header.line, nameValueSeparator, (h.name_line header hheader).1,
      h.value_line header hheader]
  have hfuel := Framing.length_lt_print '\r' ['\n']
    (rep.status.text :: rep.headers.map Header.line) (rep.content ++ rest)
  have hhead := Framing.head_append (d := ['\n']) hlines hfuel (rep.content ++ rest)
  rw [← crlf, ← List.append_assoc, ← bytes_eq] at hhead
  rw [readReply, hhead]
  simp [readStatus_text, mapM_readHeader fun header hheader => (h.name_line header hheader).2,
    h.length]

/-! ## The replies of the handler -/

theorem framed_ofContent (status : StatusType) (content : Str) {mimeType : Str}
    (hmime : '\r' ∉ mimeType) : Framed (.ofContent status content mimeType) where
  name_line := by
    simp only [Reply.ofContent, List.forall_mem_cons]
    exact ⟨by decide, by decide, fun _ h => absurd h List.not_mem_nil⟩
  value_line := by
    simp only [Reply.ofContent, List.forall_mem_cons]
    refine ⟨fun h => ?_, hmime, fun _ h => absurd h List.not_mem_nil⟩
    exact absurd (Json.Reader.isDigit_of_mem_toStringNat h) (by decide)
  length := by
    rw [contentLength, Reply.ofContent, List.find?_cons_of_pos (by simp)]
    exact congrArg some (Json.Reader.digitsValue_toStringNat content.length)

theorem framed_stockReply (status : StatusType) : Framed (stockReply status) :=
  framed_ofContent status status.toStr (by decide)

theorem mimeType_line (extension : Str) : '\r' ∉ extensionToType extension := by
  have hall : ∀ mapping ∈ mappings, '\r' ∉ mapping.2.toList := by decide +kernel
  rw [extensionToType]
  cases h : mappings.find? (·.1.toList = extension) with
  | none => decide
  | some mapping => exact hall mapping (List.mem_of_find?_eq_some h)

variable {K : Type}

theorem framed_sendFile {site : Site} {requestPath : Str} {s s' : Server K} {rep : Reply}
    (h : (sendFile site requestPath).run s = .ok rep s') : Framed rep := by
  rw [sendFile, run_get_bind_eq_ok_iff] at h
  cases hread : Site.read (site.docRoot ++ requestPath) s.files with
  | none =>
    rw [hread] at h
    cases h
    exact framed_stockReply .notFound
  | some content =>
    simp only [hread] at h
    split_ifs at h
    · cases h
      exact framed_ofContent .ok content (mimeType_line _)
    · cases h
      exact framed_ofContent .ok content (mimeType_line _)

theorem framed_handleRequest [Json.Machine] [Field K] [LinearOrder K] [FloorRing K] {site : Site}
    {world : World K} {req : Request} {s s' : Server K} {rep : Reply}
    (h : (handleRequest site world req).run s = .ok rep s') : Framed rep := by
  rw [handleRequest_eq_served] at h
  cases hserved : servedPath req.uri with
  | none =>
    rw [hserved] at h
    cases h
    exact framed_stockReply .badRequest
  | some path =>
    simp only [hserved] at h
    obtain ⟨_, s₁, -, hsend⟩ := run_bind_eq_ok_iff.mp h
    exact framed_sendFile hsend

end MinorityViewport.Http
