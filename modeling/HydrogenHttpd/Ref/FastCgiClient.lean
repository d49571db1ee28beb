import HydrogenHttpd.Base.Assoc
import HydrogenHttpd.Base.Lines
import HydrogenHttpd.Base.Numbers
import HydrogenHttpd.Base.Path

/-!
# The FastCGI client (`FastCgiClient.cpp`)

One request over one connection: the records of the request are written at
once, and the reply is read record by record until the backend ends it or
closes the connection. The backend is a function from the bytes written to the
bytes it sends back, as it sees nothing else of the client.
-/

namespace HydrogenHttpd.Ref

open Base

structure FastCgiResponse where
  status : Int := 200
  headers : List (Bytes × Bytes) := []
  body : Bytes := []
  deriving DecidableEq, Repr

structure FastCgiRequest where
  scriptFilename : Path := {}
  requestMethod : Bytes := []
  requestUri : Bytes := []
  queryString : Bytes := []
  documentRoot : Bytes := []
  serverName : Bytes := bytes "localhost"
  serverProtocol : Bytes := bytes "HTTP/1.1"
  remoteAddr : Bytes := bytes "127.0.0.1"
  contentType : Bytes := []
  body : Bytes := []
  deriving DecidableEq, Repr

/-- What the backend sends before its connection ends, and the text of the
exception a read behind the last byte throws. -/
structure FastCgiReply where
  sent : Bytes
  ending : Bytes := bytes "read: End of file"
  deriving DecidableEq, Repr

/-- The other side of the client. -/
structure FastCgiBackend where
  /-- The order in which the parameter map yields its entries. -/
  iterate : List (Bytes × Bytes) → List (Bytes × Bytes) := id
  /-- The answer to the bytes of a request, or why there was no connection. -/
  exchange : Bytes → Except Bytes FastCgiReply

namespace FastCgiClient

def beginRequest : UInt8 := 1
def endRequest : UInt8 := 3
def params : UInt8 := 4
def stdin : UInt8 := 5
def stdout : UInt8 := 6
def stderr : UInt8 := 7
def requestId : Nat := 1

/-! ## Requests -/

def appendLength (len : Nat) : Bytes :=
  if len < 128 then [UInt8.ofNat len]
  else [UInt8.ofNat (len >>> 24 ||| 0x80), UInt8.ofNat (len >>> 16), UInt8.ofNat (len >>> 8),
    UInt8.ofNat len]

def encodeNameValuePairs (pairs : List (Bytes × Bytes)) : Bytes :=
  pairs.flatMap fun p => appendLength p.1.length ++ appendLength p.2.length ++ p.1 ++ p.2

/-- `appendRecord`, what it appends. -/
def record (type : UInt8) (requestId : Nat) (content : Bytes) : Bytes :=
  let padding := (8 - content.length % 8) % 8
  [1, type, UInt8.ofNat (requestId >>> 8), UInt8.ofNat requestId,
    UInt8.ofNat (content.length >>> 8), UInt8.ofNat content.length, UInt8.ofNat padding, 0]
    ++ content ++ List.replicate padding 0

def buildBeginRequest : Bytes := record beginRequest requestId [0, 1, 0, 0, 0, 0, 0, 0]

/-- The records of a stream: chunks of at most 65535 bytes, and an empty one. -/
def buildStream (type : UInt8) (content : Bytes) : Bytes :=
  (content.toChunks 65535).flatMap (record type requestId) ++ record type requestId []

def buildParams (pairs : List (Bytes × Bytes)) : Bytes :=
  buildStream params (encodeNameValuePairs pairs)

def buildStdin (body : Bytes) : Bytes := buildStream stdin body

/-- The parameter map of `execute`. -/
def requestParams (request : FastCgiRequest) : List (Bytes × Bytes) :=
  let script := request.scriptFilename.toBytes.map fun c => if c = 92 then slash else c
  let pairs :=
    [(bytes "GATEWAY_INTERFACE", bytes "CGI/1.1"),
     (bytes "REQUEST_METHOD", request.requestMethod),
     (bytes "SCRIPT_FILENAME", script),
     (bytes "SCRIPT_NAME", request.requestUri),
     (bytes "REQUEST_URI", request.requestUri),
     (bytes "QUERY_STRING", request.queryString),
     (bytes "DOCUMENT_ROOT", request.documentRoot),
     (bytes "SERVER_SOFTWARE", bytes "HydrogenHttpd"),
     (bytes "SERVER_PROTOCOL", request.serverProtocol),
     (bytes "SERVER_NAME", request.serverName),
     (bytes "REMOTE_ADDR", request.remoteAddr),
     (bytes "REDIRECT_STATUS", bytes "200"),
     (bytes "CONTENT_LENGTH", decimal request.body.length)]
  if request.contentType = [] then pairs
  else put (bytes "CONTENT_TYPE") request.contentType pairs

/-! ## Replies -/

/-- The loop that reads records: what arrived on standard output and on
standard error. -/
def readRecords (ending : Bytes) : Nat → Bytes → Bytes → Bytes → Except Bytes (Bytes × Bytes)
  | 0, _, out, err => .ok (out, err)
  | fuel + 1, sent, out, err =>
      if sent.length < 8 then .ok (out, err)
      else
        let field := fun i => (sent.getD i 0).toNat
        let type := sent.getD 1 0
        let contentLength := field 4 * 256 + field 5
        let paddingLength := field 6
        let rest := sent.drop 8
        if field 2 * 256 + field 3 ≠ requestId ∧ type ≠ endRequest then
          .error (bytes "FastCGI request id mismatch")
        else if rest.length < contentLength + paddingLength then .error ending
        else
          let content := rest.take contentLength
          let rest := rest.drop (contentLength + paddingLength)
          if type = stdout then readRecords ending fuel rest (out ++ content) err
          else if type = stderr then readRecords ending fuel rest out (err ++ content)
          else if type = endRequest then .ok (out, err)
          else readRecords ending fuel rest out err

def trimCrlf (s : Bytes) : Bytes := s.rdropWhile fun c => c == cr || c == lf

/-- One line of the header section of a CGI response. -/
def responseLine (response : FastCgiResponse) (line : Bytes) : FastCgiResponse :=
  let line := trimCrlf line
  match find? [58] line with
  | none => response
  | some colon =>
      let name := line.take colon
      let value := (line.drop (colon + 1)).dropWhile (· = space)
      if name = bytes "Status" then { response with status := (stoi value).getD 200 }
      else { response with headers := put name value response.headers }

def parseCgiResponse (raw : Bytes) : FastCgiResponse :=
  let separator := match find? crlf2 raw with
    | some split => some (split, 4)
    | none => (find? [lf, lf] raw).map fun split => (split, 2)
  match separator with
  | none => { body := raw }
  | some (split, sepLen) =>
      (getlines (raw.take split)).foldl responseLine { body := raw.drop (split + sepLen) }

def execute (backend : FastCgiBackend) (request : FastCgiRequest) :
    Except Bytes FastCgiResponse :=
  let wire := buildBeginRequest ++ buildParams (backend.iterate (requestParams request)) ++
    buildStdin request.body
  match backend.exchange wire with
  | .error e => .error e
  | .ok reply =>
      match readRecords reply.ending (reply.sent.length + 1) reply.sent [] [] with
      | .error e => .error e
      | .ok (out, err) =>
          if err ≠ [] ∧ out = [] then .error (bytes "FastCGI stderr: " ++ err)
          else .ok (parseCgiResponse out)

end FastCgiClient

end HydrogenHttpd.Ref
