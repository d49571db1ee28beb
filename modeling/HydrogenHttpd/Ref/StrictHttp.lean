import HydrogenHttpd.Ref.Http

/-!
# The strict request parser (`StrictHttp.cpp`)

`StrictHttpParser.parse` judges a whole request, head and body. Its request
line and its loop over the header lines are also the two pieces that
`parseHeadersOnly` repeats word for word, so both stand here once:
`requestLine` takes the token test as an argument and `headerLoop` what is
done with one line. The body of that step, where the two copies differ, each
parser keeps as its own.

The loop's index strictly grows, so the length of the text is more fuel than
it can use.
-/

namespace HydrogenHttpd.Ref

open Base

structure HttpParseLimits where
  maxHeaderLineBytes : Nat := 4096
  maxHeaders : Nat := 100
  maxUriBytes : Nat := 2048
  maxMethodBytes : Nat := 16
  maxBodyBytes : Nat := 1024 * 1024
  deriving DecidableEq, Repr

structure HttpParseResult where
  ok : Bool := false
  status : Nat := 400
  reason : Bytes := bytes "Bad Request"
  message : Bytes := bytes "400 Bad Request\n"
  request : HttpRequest := {}
  deriving DecidableEq, Repr

def fail (status : Nat) (reason body : Bytes) : HttpParseResult :=
  { ok := false, status := status, reason := reason, message := body }

def badRequest : HttpParseResult :=
  fail 400 (bytes "Bad Request") (bytes "400 Bad Request\n")
def methodNotAllowed : HttpParseResult :=
  fail 405 (bytes "Method Not Allowed") (bytes "405 Method Not Allowed\n")
def payloadTooLarge : HttpParseResult :=
  fail 413 (bytes "Payload Too Large") (bytes "413 Payload Too Large\n")
def uriTooLong : HttpParseResult :=
  fail 414 (bytes "URI Too Long") (bytes "414 URI Too Long\n")
def headerFieldsTooLarge : HttpParseResult :=
  fail 431 (bytes "Request Header Fields Too Large")
    (bytes "431 Request Header Fields Too Large\n")
def notImplemented : HttpParseResult :=
  fail 501 (bytes "Not Implemented") (bytes "501 Not Implemented\n")
def versionNotSupported : HttpParseResult :=
  fail 505 (bytes "HTTP Version Not Supported") (bytes "505 HTTP Version Not Supported\n")

def isCtl (c : UInt8) : Bool := c < 32 || c == 127

def isDigits (value : Bytes) : Bool := !value.isEmpty && value.all isDigit

def StrictHttpParser.isToken (value : Bytes) : Bool :=
  !value.isEmpty &&
    value.all fun c => isAlnum c || (bytes "!#$%&'*+-.^_`|~").contains c

/-- `trimHeaderValue`, and the two trimming loops of `StrictHttpParser::parse`. -/
def trimHeaderValue (value : Bytes) : Bytes := trimWith isBlank value

/-- The checks on the request line, in the order both parsers make them. -/
def requestLine (isToken : Bytes → Bool) (limits : HttpParseLimits) (line : Bytes) :
    Except HttpParseResult HttpRequest :=
  let (method, rest) := readWord line
  let (target, rest) := readWord rest
  let (version, rest) := readWord rest
  if (readWord rest).1 ≠ [] then .error badRequest
  else if method = [] ∨ target = [] ∨ version = [] then .error badRequest
  else if limits.maxMethodBytes < method.length then .error methodNotAllowed
  else if isToken method = false then .error badRequest
  else if limits.maxUriBytes < target.length then .error uriTooLong
  else if version ≠ bytes "HTTP/1.1" ∧ version ≠ bytes "HTTP/1.0" then
    .error versionNotSupported
  else .ok { method := method, target := target, version := version }

/-- What the loop over the header lines carries from one line to the next. -/
structure HeaderScan where
  headers : HeaderMap := []
  headerCount : Nat := 0
  sawHost : Bool := false
  contentLength : Bytes := []
  deriving DecidableEq, Repr

/-- The tail of the loop body: the three names with rules of their own, and
the entry in the header map. `name` is already in lower case. -/
def recordHeader (st : HeaderScan) (name value : Bytes) :
    Except HttpParseResult HeaderScan :=
  if name = bytes "host" ∧ st.sawHost = true then .error badRequest
  else if name = bytes "transfer-encoding" then .error notImplemented
  else if name = bytes "content-length" ∧ st.contentLength ≠ [] ∧ st.contentLength ≠ value then
    .error badRequest
  else .ok
    { st with
      headers := put name value st.headers
      sawHost := st.sawHost || name = bytes "host"
      contentLength := if name = bytes "content-length" then value else st.contentLength }

/-- The loop over the header lines, up to what is done with one line. -/
def headerLoop (onLine : HeaderScan → Bytes → Except HttpParseResult HeaderScan)
    (limits : HttpParseLimits) (raw : Bytes) (headerEnd : Nat) :
    Nat → Nat → HeaderScan → Except HttpParseResult HeaderScan
  | 0, _, _ => .error badRequest
  | fuel + 1, start, st =>
      match findFrom crlf raw start with
      | none => .error badRequest
      | some stop =>
          if stop = start then .ok st
          else if headerEnd < stop then .error badRequest
          else if limits.maxHeaderLineBytes < stop - start then .error headerFieldsTooLarge
          else if limits.maxHeaders < st.headerCount + 1 then .error headerFieldsTooLarge
          else
            match onLine { st with headerCount := st.headerCount + 1 }
                (substr raw start (stop - start)) with
            | .error e => .error e
            | .ok st' => headerLoop onLine limits raw headerEnd fuel (stop + 2) st'

/-- One header line as `StrictHttpParser::parse` reads it. -/
def StrictHttpParser.headerLine (st : HeaderScan) (line : Bytes) :
    Except HttpParseResult HeaderScan :=
  if line.head?.any isBlank then .error badRequest
  else
    match find? [58] line with
    | none => .error badRequest
    | some colon =>
        let name := line.take colon
        let value := trimHeaderValue (line.drop (colon + 1))
        if StrictHttpParser.isToken name = false then .error badRequest
        else if value.any (fun c => isCtl c && c != tab) then .error badRequest
        else recordHeader st (lowercase name) value

/-- The part of `StrictHttpParser::parse` behind the loop: the host rule, the
declared length, and the body. `bodyOffset + len` is a `size_t` sum. -/
def StrictHttpParser.finish (limits : HttpParseLimits) (raw : Bytes) (bodyOffset : Nat)
    (request : HttpRequest) (st : HeaderScan) : HttpParseResult :=
  let request := { request with headers := st.headers }
  if request.version = bytes "HTTP/1.1" ∧ st.sawHost = false then badRequest
  else if st.contentLength = [] then
    { ok := true, status := 200, reason := bytes "OK", message := [], request := request }
  else if isDigits st.contentLength = false then badRequest
  else
    match stoull st.contentLength with
    | none => badRequest
    | some len =>
        if limits.maxBodyBytes < len then payloadTooLarge
        else if raw.length < (bodyOffset + len) % 2 ^ 64 then badRequest
        else
          { ok := true, status := 200, reason := bytes "OK", message := [],
            request := { request with
              hasContentLength := true
              contentLength := len
              body := substr raw bodyOffset len } }

def StrictHttpParser.parse (raw : Bytes) (limits : HttpParseLimits) : HttpParseResult :=
  if raw = [] then badRequest
  else
    match find? crlf2 raw with
    | none => badRequest
    | some headerEnd =>
        match find? crlf raw with
        | none => badRequest
        | some lineEnd =>
            if headerEnd < lineEnd then badRequest
            else if limits.maxHeaderLineBytes < lineEnd then headerFieldsTooLarge
            else
              match requestLine StrictHttpParser.isToken limits (substr raw 0 lineEnd) with
              | .error e => e
              | .ok request =>
                  match headerLoop StrictHttpParser.headerLine limits raw headerEnd
                      raw.length (lineEnd + 2) {} with
                  | .error e => e
                  | .ok st =>
                      StrictHttpParser.finish limits raw (headerEnd + 4) request st

end HydrogenHttpd.Ref
