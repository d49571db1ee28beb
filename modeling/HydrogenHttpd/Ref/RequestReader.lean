import HydrogenHttpd.Base.Delivery
import HydrogenHttpd.Ref.Config
import HydrogenHttpd.Ref.StrictHttp

/-!
# Reading a request off the connection (`Server.cpp`, anonymous namespace)

The helpers `handleClientStream` starts with: `readHeadersOnly`, which reads
until it has seen the header section, `parseHeadersOnly`, which judges that
section alone, and `completeRequestInMemory`, which reads the body behind it.
The last asks `parseHeaderContentLength` for the length and not the parsed
request.

A connection is a `Delivery`: the bytes the client sends, how the network cuts
them, and an error text if it does not end in an orderly close.
-/

namespace HydrogenHttpd.Ref

open Base

/-- The `SyncReadStream` the handlers read from. -/
abbrev Connection := Delivery UInt8 Bytes

/-- The limits `handleClientStream` and `makeResponse` parse with. -/
def ServerConfig.limits (config : ServerConfig) : HttpParseLimits :=
  { maxHeaderLineBytes := config.maxHeaderLineBytes
    maxHeaders := config.maxHeaders
    maxUriBytes := config.maxUriBytes
    maxMethodBytes := config.maxMethodBytes
    maxBodyBytes := config.maxBodyBytes }

/-! ## The declared length -/

/-- One line as `parseHeaderContentLength` reads it, with the length found so
far; `none` is its `return false`. -/
def contentLengthLine (found : Option Nat) (line : Bytes) : Option (Option Nat) :=
  match find? [58] line with
  | none => some found
  | some colon =>
      if lowercase (line.take colon) = bytes "content-length" then
        let text := trimHeaderValue (line.drop (colon + 1))
        if text = [] then none
        else if text.all isDigit = false then none
        else
          match stoull text with
          | none => none
          | some parsed =>
              if found.any (· ≠ parsed) then none else some (some parsed)
      else some found

/-- Its loop over the header lines. -/
def contentLengthLoop (headerPart : Bytes) : Nat → Nat → Option Nat → Option Nat
  | 0, _, found => found
  | fuel + 1, start, found =>
      match findFrom crlf headerPart start with
      | none => found
      | some stop =>
          if stop = start then found
          else
            match contentLengthLine found (substr headerPart start (stop - start)) with
            | none => none
            | some found => contentLengthLoop headerPart fuel (stop + 2) found

def parseHeaderContentLength (headerPart : Bytes) : Option Nat :=
  match find? crlf headerPart with
  | none => none
  | some start => contentLengthLoop headerPart headerPart.length (start + 2) none

/-! ## Headers -/

structure HeaderReadResult where
  headerPart : Bytes
  leftover : Bytes
  deriving DecidableEq, Repr

/-- The condition its reading loop waits for. -/
def hasBlankLine (data : Bytes) : Bool := (find? crlf2 data).isSome

def readHeadersOnly (stream : Connection) (config : ServerConfig) :
    Except Bytes HeaderReadResult × Connection :=
  match gather hasBlankLine config.maxRequestBytes 512 (stream.pending.length + 1) [] stream with
  | (.full, stream) => (.error (bytes "request headers too large"), stream)
  | (.failed e, stream) => (.error (bytes "failed to read request headers: " ++ e), stream)
  | (.complete data, stream) | (.ended data, stream) =>
      match find? crlf2 data with
      | none => (.error (bytes "incomplete HTTP headers"), stream)
      | some headerEnd =>
          (.ok { headerPart := data.take (headerEnd + 4), leftover := data.drop (headerEnd + 4) },
            stream)

/-- `localIsToken`, the same body as the strict parser's. -/
def localIsToken (value : Bytes) : Bool := StrictHttpParser.isToken value

/-- One header line as `parseHeadersOnly` reads it. Unlike the strict parser
it lowers the name before the token test, and it never looks for control
characters in the value. -/
def headerLineOnly (st : HeaderScan) (line : Bytes) : Except HttpParseResult HeaderScan :=
  if line.head?.any isBlank then .error badRequest
  else
    match find? [58] line with
    | none => .error badRequest
    | some colon =>
        let name := lowercase (line.take colon)
        let value := trimHeaderValue (line.drop (colon + 1))
        if localIsToken name = false then .error badRequest
        else recordHeader st name value

/-- The part of `parseHeadersOnly` behind the loop. -/
def finishHeadersOnly (limits : HttpParseLimits) (request : HttpRequest) (st : HeaderScan) :
    HttpParseResult :=
  let request := { request with headers := st.headers }
  if request.version = bytes "HTTP/1.1" ∧ st.sawHost = false then badRequest
  else if st.contentLength = [] then
    { ok := true, status := 200, reason := bytes "OK", request := request }
  else if st.contentLength.all isDigit = false then badRequest
  else
    match stoull st.contentLength with
    | none => badRequest
    | some len =>
        if limits.maxBodyBytes < len then payloadTooLarge
        else
          { ok := true, status := 200, reason := bytes "OK",
            request := { request with hasContentLength := true, contentLength := len } }

def parseHeadersOnly (headerPart : Bytes) (limits : HttpParseLimits) : HttpParseResult :=
  match find? crlf2 headerPart with
  | none => badRequest
  | some headerEnd =>
      match find? crlf headerPart with
      | none => badRequest
      | some lineEnd =>
          if headerEnd < lineEnd then badRequest
          else if limits.maxHeaderLineBytes < lineEnd then headerFieldsTooLarge
          else
            match requestLine localIsToken limits (substr headerPart 0 lineEnd) with
            | .error e => e
            | .ok request =>
                match headerLoop headerLineOnly limits headerPart headerEnd
                    headerPart.length (lineEnd + 2) {} with
                | .error e => e
                | .ok st => finishHeadersOnly limits request st

/-! ## Bodies -/

/-- The rest of a body of `contentLength` bytes, behind the `leftover` that was
read along with the headers. Both body readers have this loop. -/
def readBodyRest (chunk : Nat) (failure : String) (stream : Connection) (leftover : Bytes)
    (contentLength : Nat) : Except Bytes Bytes :=
  match (collect chunk (stream.pending.length + 1) (contentLength - leftover.length)
      (leftover.take contentLength) stream).1 with
  | .error e => .error (bytes failure ++ e)
  | .ok body => .ok body

def completeRequestInMemory (stream : Connection) (config : ServerConfig)
    (headers : HeaderReadResult) : Except Bytes Bytes :=
  match parseHeaderContentLength headers.headerPart with
  | none => .ok headers.headerPart
  | some contentLength =>
      if contentLength = 0 then .ok headers.headerPart
      else if config.maxBodyBytes < contentLength then .ok headers.headerPart
      else
        match readBodyRest 512 "failed to read request body: " stream headers.leftover
            contentLength with
        | .error e => .error e
        | .ok body => .ok (headers.headerPart ++ body)

end HydrogenHttpd.Ref
