import MinorityViewport.Networks.Http
import MinorityViewport.Lib.Scanner

/-!
# The request parser

`Networks/RequestParser.cpp`.  The parser is a state machine that gets one
character after another and fills in a request on its way.  `consume` is its
step, and `parse` runs it over what a read has left in the buffer.

The source keeps the state in the parser and the request beside it; `Parser`
is the pair.  A character stands for a byte, and a byte above 127 is a
negative `char`, which is neither an HTTP character nor a control character.

`consume` answers `true`, `false` or, by `Scanner.Step.more`, `indeterminate`.  The
other verdicts are the runs that C++ gives no meaning to.
-/

namespace MinorityViewport.Http

open Scanner (Scan)

/-- The `request` of the source: the two numbers have no value before they
are assigned. -/
structure Message extends Request where
  method : Str
  httpVersionMajor : Option Nat
  httpVersionMinor : Option Nat

/-! ## Characters -/

/-- `is_char`. -/
def isChar (c : Char) : Bool := c.toNat ≤ 127

/-- `is_ctl`. -/
def isCtl (c : Char) : Bool := c.toNat ≤ 31 || c.toNat = 127

/-- `is_tspecial`. -/
def isTspecial (c : Char) : Bool :=
  c ∈ ['(', ')', '<', '>', '@', ',', ';', ':', '\\', '"', '/', '[', ']', '?', '=', '\x7b', '\x7d',
    ' ', '\t']

/-- `is_digit`. -/
def isDigit (c : Char) : Bool := '0' ≤ c && c ≤ '9'

/-- The characters of a method and of a header name: the source refuses
`!is_char(input) || is_ctl(input) || is_tspecial(input)`. -/
def isToken (c : Char) : Bool := !(!isChar c || isCtl c || isTspecial c)

/-! ## The parser -/

namespace RequestParser

inductive State where
  | methodStart
  | method
  | uri
  | httpVersionH
  | httpVersionT1
  | httpVersionT2
  | httpVersionP
  | httpVersionSlash
  | httpVersionMajorStart
  | httpVersionMajor
  | httpVersionMinorStart
  | httpVersionMinor
  | expectingNewline1
  | headerLineStart
  | headerLws
  | headerName
  | spaceBeforeHeaderValue
  | headerValue
  | expectingNewline2
  | expectingNewline3
  deriving DecidableEq, Repr

inductive Verdict where
  | accepted
  | refused
  /-- A version number that an `int` does not hold. -/
  | overflow
  /-- A version number is read before it is assigned. -/
  | unassignedVersion
  /-- `back` of an empty vector. -/
  | emptyBack
  deriving DecidableEq, Repr

structure Parser where
  state : State
  req : Message

/-- The parser of a new connection. -/
def fresh : Parser := ⟨.methodStart, ⟨⟨[], []⟩, [], none, none⟩⟩

/-- `version * 10 + input - '0'`, computed from the left in an `int`. -/
def pushDigit (version : Option Nat) (input : Char) : Except Verdict Nat :=
  match version with
  | none => .error .unassignedVersion
  | some n =>
    if n * 10 + input.toNat ≤ 2147483647 then .ok (n * 10 + input.toNat - '0'.toNat)
    else .error .overflow

/-- A call on `headers.back()`. -/
def modifyBack (f : Header → Header) (headers : List Header) : Except Verdict (List Header) :=
  match headers.getLast? with
  | none => .error .emptyBack
  | some header => .ok (headers.dropLast ++ [f header])

def goOn (state : State) : Except Verdict Message → Scanner.Step Parser Verdict
  | .ok req => .more ⟨state, req⟩
  | .error verdict => .done verdict

def pushMethod (req : Message) (input : Char) : Message :=
  { req with method := req.method ++ [input] }

def pushUri (req : Message) (input : Char) : Message := { req with uri := req.uri ++ [input] }

def pushMajor (req : Message) (input : Char) : Except Verdict Message := do
  let major ← pushDigit req.httpVersionMajor input
  pure { req with httpVersionMajor := some major }

def pushMinor (req : Message) (input : Char) : Except Verdict Message := do
  let minor ← pushDigit req.httpVersionMinor input
  pure { req with httpVersionMinor := some minor }

def pushHeader (req : Message) (input : Char) : Message :=
  { req with headers := req.headers ++ [⟨[input], []⟩] }

def pushName (req : Message) (input : Char) : Except Verdict Message := do
  let headers ← modifyBack (fun h => { h with name := h.name ++ [input] }) req.headers
  pure { req with headers := headers }

def pushValue (req : Message) (input : Char) : Except Verdict Message := do
  let headers ← modifyBack (fun h => { h with value := h.value ++ [input] }) req.headers
  pure { req with headers := headers }

/-- A state that waits for one character. -/
def expect (c : Char) (next : Parser) (input : Char) : Scanner.Step Parser Verdict :=
  if input = c then .more next else .done .refused

/-- `request_parser::consume`. -/
def consume (p : Parser) (input : Char) : Scanner.Step Parser Verdict :=
  let req := p.req
  match p.state with
  | .methodStart =>
    if !isToken input then .done .refused else .more ⟨.method, pushMethod req input⟩
  | .method =>
    if input = ' ' then .more ⟨.uri, req⟩
    else if !isToken input then .done .refused
    else .more ⟨.method, pushMethod req input⟩
  | .uri =>
    if input = ' ' then .more ⟨.httpVersionH, req⟩
    else if isCtl input then .done .refused
    else .more ⟨.uri, pushUri req input⟩
  | .httpVersionH => expect 'H' ⟨.httpVersionT1, req⟩ input
  | .httpVersionT1 => expect 'T' ⟨.httpVersionT2, req⟩ input
  | .httpVersionT2 => expect 'T' ⟨.httpVersionP, req⟩ input
  | .httpVersionP => expect 'P' ⟨.httpVersionSlash, req⟩ input
  | .httpVersionSlash =>
    expect '/' ⟨.httpVersionMajorStart,
      { req with httpVersionMajor := some 0, httpVersionMinor := some 0 }⟩ input
  | .httpVersionMajorStart =>
    if isDigit input then goOn .httpVersionMajor (pushMajor req input) else .done .refused
  | .httpVersionMajor =>
    if input = '.' then .more ⟨.httpVersionMinorStart, req⟩
    else if isDigit input then goOn .httpVersionMajor (pushMajor req input)
    else .done .refused
  | .httpVersionMinorStart =>
    if isDigit input then goOn .httpVersionMinor (pushMinor req input) else .done .refused
  | .httpVersionMinor =>
    if input = '\r' then .more ⟨.expectingNewline1, req⟩
    else if isDigit input then goOn .httpVersionMinor (pushMinor req input)
    else .done .refused
  | .expectingNewline1 => expect '\n' ⟨.headerLineStart, req⟩ input
  | .headerLineStart =>
    if input = '\r' then .more ⟨.expectingNewline3, req⟩
    else if !req.headers.isEmpty && (input = ' ' || input = '\t') then .more ⟨.headerLws, req⟩
    else if !isToken input then .done .refused
    else .more ⟨.headerName, pushHeader req input⟩
  | .headerLws =>
    if input = '\r' then .more ⟨.expectingNewline2, req⟩
    else if input = ' ' || input = '\t' then .more ⟨.headerLws, req⟩
    else if isCtl input then .done .refused
    else goOn .headerValue (pushValue req input)
  | .headerName =>
    if input = ':' then .more ⟨.spaceBeforeHeaderValue, req⟩
    else if !isToken input then .done .refused
    else goOn .headerName (pushName req input)
  | .spaceBeforeHeaderValue => expect ' ' ⟨.headerValue, req⟩ input
  | .headerValue =>
    if input = '\r' then .more ⟨.expectingNewline2, req⟩
    else if isCtl input then .done .refused
    else goOn .headerValue (pushValue req input)
  | .expectingNewline2 => expect '\n' ⟨.headerLineStart, req⟩ input
  | .expectingNewline3 => .done (if input = '\n' then .accepted else .refused)

/-- `request_parser::parse`. -/
def parse (p : Parser) (buffer : Str) : Scan Parser Char Verdict := Scanner.scan consume p buffer

end RequestParser

end MinorityViewport.Http
