import MinorityViewport.Basic

/-!
# Requests and replies

The messages of `Networks/` as the request handler sees them, with the
functions on their texts: the decoding of a URI, the lookup of a header, the
extension of a path and its MIME type, and the stock replies.

The method and the version of a request are left out, since the handler does
not look at them, and so are the statuses that it never answers.
-/

namespace MinorityViewport.Http

structure Header where
  name : Str
  value : Str
  deriving DecidableEq

structure Request where
  uri : Str
  headers : List Header

inductive StatusType where
  | ok
  | badRequest
  | notFound
  deriving DecidableEq, Repr

structure Reply where
  status : StatusType
  headers : List Header
  content : Str
  deriving DecidableEq

/-! ## Replies -/

/-- A reply whose two headers describe its content. -/
def Reply.ofContent (status : StatusType) (content mimeType : Str) : Reply where
  status := status
  headers :=
    [⟨"Content-Length".toList, toStringNat content.length⟩,
      ⟨"Content-Type".toList, mimeType⟩]
  content := content

/-- `stock_replies::to_string`. -/
def StatusType.toStr : StatusType → Str
  | .ok => []
  | .badRequest =>
    ("<html>" ++ "<head><title>Bad Request</title></head>" ++
      "<body><h1>400 Bad Request</h1></body>" ++ "</html>").toList
  | .notFound =>
    ("<html>" ++ "<head><title>Not Found</title></head>" ++
      "<body><h1>404 Not Found</h1></body>" ++ "</html>").toList

/-- `reply::stock_reply`. -/
def stockReply (status : StatusType) : Reply :=
  .ofContent status status.toStr "text/html".toList

/-- The table `mappings` of `mime_types`. -/
def mappings : List (String × String) :=
  [("gif", "image/gif"), ("htm", "text/html"), ("html", "text/html"),
    ("jpg", "image/jpeg"), ("png", "image/png"), ("css", "text/css"),
    ("js", "application/javascript")]

/-- `mime_types::extension_to_type`. -/
def extensionToType (extension : Str) : Str :=
  match mappings.find? (·.1.toList = extension) with
  | some mapping => mapping.2.toList
  | none => "text/plain".toList

/-! ## Requests -/

/-- `request_handler::request_header_val`: the last header of the name, or
the empty text.  The number of headers is kept in an `unsigned int`. -/
def requestHeaderVal (req : Request) (requestHeader : String) : Str :=
  (req.headers.take (req.headers.length % 4294967296)).foldl
    (fun headerVal header =>
      if header.name = requestHeader.toList then header.value else headerVal) []

/-- The value of a hexadecimal digit. -/
def hexValue? (c : Char) : Option Nat :=
  if '0' ≤ c ∧ c ≤ '9' then some (c.toNat - '0'.toNat)
  else if 'a' ≤ c ∧ c ≤ 'f' then some (c.toNat - 'a'.toNat + 10)
  else if 'A' ≤ c ∧ c ≤ 'F' then some (c.toNat - 'A'.toNat + 10)
  else none

/-- `is >> std::hex >> value` on a short text: white space, a sign and the
prefix `0x` may stand before the digits, and what follows them is not
read. -/
def readHex (s : Str) : Option Int :=
  let s := s.dropWhile isSpace
  let (negative, body) := match s with
    | '-' :: rest => (true, rest)
    | '+' :: rest => (false, rest)
    | _ => (false, s)
  let body := match body with
    | '0' :: 'x' :: rest | '0' :: 'X' :: rest => rest
    | _ => body
  let digits := (body.takeWhile fun c => (hexValue? c).isSome).filterMap hexValue?
  if digits = [] then none
  else
    let value : Nat := digits.foldl (fun n d => n * 16 + d) 0
    some (if negative then -(value : Int) else value)

/-- `request_handler::url_decode`.  The value of an escape is cut to one
byte. -/
def urlDecode : Str → Option Str
  | [] => some []
  | '%' :: c :: d :: rest =>
    match readHex [c, d] with
    | some value => (Char.ofNat (toUnsigned value % 256) :: ·) <$> urlDecode rest
    | none => none
  | '%' :: _ => none
  | '+' :: rest => (' ' :: ·) <$> urlDecode rest
  | c :: rest => (c :: ·) <$> urlDecode rest

/-- `std::string::find_last_of` of one character. -/
def findLastOf (s : Str) (c : Char) : Option Nat :=
  (s.reverse.findIdx? (· = c)).map (s.length - 1 - ·)

/-- The extension of a path: what follows the last dot, when the dot comes
after the last slash. -/
def extension (requestPath : Str) : Str :=
  match findLastOf requestPath '.', findLastOf requestPath '/' with
  | some lastDotPos, some lastSlashPos =>
    if lastSlashPos < lastDotPos then requestPath.drop (lastDotPos + 1) else []
  | _, _ => []

example : urlDecode "/a%20b+c%4G".toList = some "/a b c\x04".toList := by decide +kernel

example : extension "/api.d/x.y.json".toList = "json".toList := by decide +kernel

end MinorityViewport.Http
