import HydrogenHttpd.Ref.Endpoints
import HydrogenHttpd.Ref.Htaccess
import HydrogenHttpd.Ref.RequestReader

/-!
# Handling a request (`Server.cpp`)

`handleClientStream` reads the headers, takes the two guarded endpoints itself
and hands every other request, completed in memory, to `makeResponse`. The
latter parses it a second time and checks, in this order, the method, an
unexpected body, the redirect to HTTPS, the upload endpoint, and the path of
the target.

The out parameters `statusOut`, `methodOut` and `targetOut` come back in the
`Reply`. An exception ends the request without a response; what it changed in
the world stays.
-/

namespace HydrogenHttpd.Ref

open Base

/-- What a handler gives back: the response and its out parameters. -/
structure Reply where
  response : HttpResponse
  status : Int
  method : Bytes
  target : Bytes
  deriving DecidableEq, Repr

/-- `finish`: the status goes out with the response. -/
def reply (method target : Bytes) (res : HttpResponse) : Reply :=
  { response := res, status := res.status, method := method, target := target }

/-- What a handler does: it may throw, and it changes the world either way. -/
abbrev Outcome := Except Bytes Reply × World

/-! ## Paths -/

def selectDocumentRoot (config : ServerConfig) (host : Bytes) : Path :=
  (config.virtualHosts.lookup (security.normalizeHost host)).getD config.defaultRoot

def blockedNames : List Bytes :=
  ["server.conf", "server.production.conf", "cmakelists.txt", "license"].map bytes

def blockedExt : List Bytes :=
  [".conf", ".ini", ".db", ".db-wal", ".db-shm", ".key", ".pem", ".crt", ".csr", ".log", ".pid",
   ".sqlite", ".sqlite3", ".bak", ".old", ".tmp"].map bytes

/-- A component that makes `isForbiddenFile` return early. -/
def hiddenPart (config : ServerConfig) (name : Bytes) : Bool :=
  name.head? == some dot && !(config.allowDotWellKnown && name == bytes ".well-known")

def isForbiddenFile (files : Files) (config : ServerConfig) (documentRoot path : Path) :
    Except Bytes Bool :=
  match files.weaklyCanonical path with
  | .error e => .error e
  | .ok canonicalPath =>
      match files.weaklyCanonical documentRoot with
      | .error e => .error e
      | .ok canonicalRoot =>
          let rel := canonicalPath.lexicallyRelative canonicalRoot
          if config.denyHiddenFiles ∧ rel.parts.any (hiddenPart config) then .ok true
          else
            let filename := lowercase path.filename
            let ext := lowercase path.extension
            if filename = config.htaccessFilename then .ok true
            else if config.blockSensitiveFiles = false then .ok false
            else .ok (blockedNames.contains filename || blockedExt.contains ext)

def httpsRedirectLocation (config : ServerConfig) (host target : Bytes) : Bytes :=
  let normalized := security.normalizeHost host
  let normalized := if normalized = [] then bytes "localhost" else normalized
  let port := if config.publicHttpsPort ≠ 0 then config.publicHttpsPort else config.tlsPort
  bytes "https://" ++ normalized ++ (if port ≠ 443 then bytes ":" ++ decimal port else [])
    ++ (if target = [] then bytes "/" else target)

def mimeTypes : List (String × String) :=
  [(".html", "text/html; charset=utf-8"), (".htm", "text/html; charset=utf-8"),
   (".css", "text/css; charset=utf-8"), (".js", "application/javascript; charset=utf-8"),
   (".json", "application/json; charset=utf-8"), (".png", "image/png"),
   (".jpg", "image/jpeg"), (".jpeg", "image/jpeg"), (".gif", "image/gif"),
   (".svg", "image/svg+xml"), (".txt", "text/plain; charset=utf-8"),
   (".wasm", "application/wasm")]

def mimeType (path : Path) : Bytes :=
  let ext := lowercase path.extension
  match mimeTypes.find? fun row => bytes row.1 == ext with
  | some (_, type) => bytes type
  | none => bytes "application/octet-stream"

/-! ## PHP -/

/-- `handlePhpScript`: the status and the body. -/
def handlePhpScript (env : ServerEnv) (config : ServerConfig) (scriptPath : Path)
    (requestUri method body contentType : Bytes) (w : World) : (Int × Bytes) × World :=
  let (uri, query) := match find? [63] requestUri with
    | none => (requestUri, [])
    | some q => (requestUri.take q, requestUri.drop (q + 1))
  let fcgi : FastCgiRequest :=
    { scriptFilename := scriptPath
      requestMethod := method
      requestUri := uri
      queryString := query
      documentRoot := config.defaultRoot.toBytes
      body := body
      contentType := contentType }
  let w := w.call (.handlePhpScript scriptPath)
  match FastCgiClient.execute env.backend fcgi with
  | .ok response => ((response.status, response.body), w)
  | .error e =>
      ((502, bytes "502 Bad Gateway: PHP FastCGI unavailable\n"),
        w.log (.error (bytes "php_fastcgi error=\"" ++ e ++ bytes "\"")))

/-! ## Uploads -/

def uploadLimits (config : ServerConfig) : MultipartLimits :=
  { maxParts := config.maxMultipartParts
    maxFileBytes := config.maxUploadFileBytes
    maxFieldBytes := config.maxUploadFieldBytes }

/-- The response to an upload that was refused. -/
def uploadRefusal (res : HttpResponse) (result : MultipartResult) : HttpResponse :=
  let reason :=
    if result.status = 413 then bytes "Payload Too Large"
    else if result.status = 415 then bytes "Unsupported Media Type"
    else if result.status = 500 then bytes "Internal Server Error"
    else bytes "Bad Request"
  { res with
    status := result.status
    reason := reason
    body := signedDecimal result.status ++ bytes " " ++ reason ++ bytes "\n" }

def uploadedFileJson (f : MultipartSavedFile) : Bytes :=
  bytes "\x7b" ++ (bytes ",").intercalate
    [jsonText "field" f.fieldName, jsonText "original" f.originalFilename,
     jsonText "stored" f.storedFilename, jsonNumber "size" f.size] ++ bytes "\x7d"

/-- The response to an upload that was stored; only the streamed one says so. -/
def uploadAccepted (res : HttpResponse) (streamed : Bool) (files : List MultipartSavedFile) :
    HttpResponse :=
  { res with
    status := 200
    reason := bytes "OK"
    contentType := bytes "application/json; charset=utf-8"
    body := bytes "\x7b\"ok\":true," ++ (if streamed then bytes "\"streamed\":true," else [])
      ++ bytes "\"files\":[" ++ (bytes ",").intercalate (files.map uploadedFileJson)
      ++ bytes "]\x7d" }

def uploadResponse (res : HttpResponse) (streamed : Bool) (result : MultipartResult) :
    HttpResponse :=
  if result.ok then uploadAccepted res streamed result.files else uploadRefusal res result

/-- The upload endpoint of `makeResponse`. -/
def handleUploadRequest (env : ServerEnv) (config : ServerConfig) (tls : Bool)
    (req : HttpRequest) (finish : HttpResponse → Reply) (w : World) : Outcome :=
  let res := emptyResponse config tls
  if config.enableUploads = false then (.ok (finish res.notFound), w)
  else if req.method ≠ bytes "POST" then (.ok (finish res.methodNotAllowed), w)
  else
    let (decision, w) := authorizeEndpoint env config req (bytes "upload") w
    if decision.allowed = false then
      if decision.code = .InsufficientScope then
        (.ok (finish (forbiddenResponse config tls)), w)
      else (.ok (finish (unauthorizedResponse config tls (decision.code ≠ .Missing))), w)
    else
      match req.headers.lookup (bytes "content-type") with
      | none => (.ok (finish res.unsupportedMediaType), w)
      | some contentType =>
          let w := w.call (.saveUploads req.body)
          match Multipart.saveUploads env.upload req.body contentType config.uploadDirectory
              (uploadLimits config) w.uploads with
          | (.error e, uploads) => (.error e, { w with uploads := uploads })
          | (.ok result, uploads) =>
              (.ok (finish (uploadResponse res false result)), { w with uploads := uploads })

/-! ## `makeResponse` -/

/-- Its two checks on the raw request: the size, and the strict parser. -/
def acceptRequest (config : ServerConfig) (rawRequest : Bytes) : HttpParseResult :=
  if rawRequest = [] ∨ config.maxRequestBytes < rawRequest.length then badRequest
  else StrictHttpParser.parse rawRequest config.limits

def redirectResponse (config : ServerConfig) (res : HttpResponse) (host target : Bytes) :
    HttpResponse :=
  let reason :=
    if config.httpsRedirectStatus = 301 then bytes "Moved Permanently"
    else bytes "Permanent Redirect"
  { res with
    status := config.httpsRedirectStatus
    reason := reason
    body := reason ++ bytes "\n"
    extraHeaders := put (bytes "Location") (httpsRedirectLocation config host target)
      res.extraHeaders }

/-- The end of `makeResponse`: a path that may be served and is a file. -/
def serveFile (env : ServerEnv) (config : ServerConfig) (res : HttpResponse)
    (req : HttpRequest) (safePath : Path) (finish : HttpResponse → Reply) (w : World) :
    Reply × World :=
  if safePath.extension = config.phpExtension then
    if config.enablePhp = false then (finish res.forbidden, w)
    else
      let contentType := (req.headers.lookup (bytes "content-type")).getD []
      let ((phpStatus, body), w) :=
        handlePhpScript env config safePath req.target req.method req.body contentType w
      (finish { res with
          body := body
          status := phpStatus
          reason := if phpStatus = 200 then bytes "OK" else bytes "PHP FastCGI Error"
          contentType := bytes "text/html; charset=utf-8" }, w)
  else if req.method = bytes "POST" then (finish res.methodNotAllowed, w)
  else
    let res := { res with
      contentType := mimeType safePath
      cacheControl := config.staticCacheControl }
    let w := w.call (.staticFile safePath)
    let (cached, staticCache) := w.staticCache.get env.files env.hash env.cacheNow safePath
    let w := { w with staticCache := staticCache }
    match cached with
    | none =>
        (finish { res.answer 500 "Internal Server Error" "500 Internal Server Error\n" with
          cacheControl := bytes "no-store" }, w)
    | some cached =>
        let res := { res with extraHeaders := put (bytes "ETag") cached.etag res.extraHeaders }
        if req.headers.lookup (bytes "if-none-match") = some cached.etag then
          (finish { res with
            status := 304, reason := bytes "Not Modified", body := [], sharedBody := none }, w)
        else (finish { res with sharedBody := some cached.body }, w)

/-- What `makeResponse` asks the rule files, if they are enabled. -/
def accessRules (files : Files) (config : ServerConfig) (documentRoot safePath : Path) :
    Except Bytes HtaccessRules :=
  if config.enableHtaccess then
    Htaccess.evaluate files documentRoot safePath config.htaccessFilename config.maxHtaccessDepth
  else .ok {}

/-- `fs::exists(path) && fs::is_regular_file(path)` -/
def existingFile (files : Files) (path : Path) : Except Bytes Bool :=
  match files.found path with
  | .error e => .error e
  | .ok false => .ok false
  | .ok true => files.isRegularFile path

/-- `makeResponse` from the document root on. -/
def serveTarget (env : ServerEnv) (config : ServerConfig) (res : HttpResponse)
    (req : HttpRequest) (host : Bytes) (finish : HttpResponse → Reply) (w : World) : Outcome :=
  let res := { res with headOnly := req.method == bytes "HEAD" }
  let documentRoot := selectDocumentRoot config host
  match security.resolveSafePath env.files documentRoot req.target with
  | .error e => (.error e, w)
  | .ok none => (.ok (finish res.forbidden), w)
  | .ok (some safePath) =>
      match isForbiddenFile env.files config documentRoot safePath with
      | .error e => (.error e, w)
      | .ok true => (.ok (finish res.forbidden), w)
      | .ok false =>
          match accessRules env.files config documentRoot safePath with
          | .error e => (.error e, w)
          | .ok rules =>
              let res := { res with
                extraHeaders :=
                  rules.responseHeaders.foldl (fun headers h => put h.1 h.2 headers)
                    res.extraHeaders }
              if rules.denyAll then (.ok (finish res.forbidden), w)
              else
                match existingFile env.files safePath with
                | .error e => (.error e, w)
                | .ok false => (.ok (finish res.notFound), w)
                | .ok true =>
                    let (out, w) := serveFile env config res req safePath finish w
                    (.ok out, w)

/-- `makeResponse` behind its parser. -/
def routeRequest (env : ServerEnv) (config : ServerConfig) (tls : Bool) (req : HttpRequest)
    (finish : HttpResponse → Reply) (w : World) : Outcome :=
  let res := emptyResponse config tls
  if security.isMethodAllowed req.method = false then (.ok (finish res.methodNotAllowed), w)
  else if 0 < req.contentLength ∧ req.method ≠ bytes "POST" then
    (.ok (finish res.payloadTooLarge), w)
  else
    let host := (req.headers.lookup (bytes "host")).getD []
    if tls = false ∧ config.forceHttps then
      (.ok (finish (redirectResponse config res host req.target)), w)
    else if req.target = config.uploadEndpoint then
      handleUploadRequest env config tls req finish w
    else serveTarget env config res req host finish w

/-- The text of an out parameter. -/
def orDash (text : Bytes) : Bytes := if text = [] then bytes "-" else text

/-- `method` and `target` are what the out parameters hold on entry. -/
def makeResponse (env : ServerEnv) (config : ServerConfig) (rawRequest : Bytes) (tls : Bool)
    (method target : Bytes) (w : World) : Outcome :=
  let w := w.call (.makeResponse rawRequest)
  let parsed := acceptRequest config rawRequest
  if parsed.ok = false then
    (.ok (reply method target { emptyResponse config tls with
      status := parsed.status, reason := parsed.reason, body := parsed.message }), w)
  else
    let req := parsed.request
    routeRequest env config tls req (reply (orDash req.method) (orDash req.target)) w

/-! ## `handleClientStream` -/

/-- The admin endpoint of `handleClientStream`. -/
def handleAdminStatus (env : ServerEnv) (config : ServerConfig) (tls : Bool) (clientIp : Bytes)
    (req : HttpRequest) (w : World) : HttpResponse × World :=
  let res := emptyResponse config tls
  if config.enableAdminStatus = false then (res.notFound, w)
  else if req.method ≠ bytes "GET" then (res.methodNotAllowed, w)
  else
    let (decision, w) := authorizeEndpoint env config req (bytes "admin") w
    if decision.allowed = false then
      denyEndpoint config tls clientIp req.target (bytes "admin") decision w
    else
      adminStatusResponse env config tls
        (auditEndpointEvent (bytes "auth_allowed") clientIp req.target (bytes "admin")
          decision.tokenName 200 w)

def uniqueSpoolPath (directory : Path) (micros : Nat) : Path :=
  directory / Path.ofBytes (bytes "upload_spool_" ++ decimal micros ++ bytes ".tmp")

def World.writeSpool (w : World) (path : Path) (content : Bytes) : World :=
  { w with spools := put path content w.spools }

def World.removeSpool (w : World) (path : Path) : World :=
  { w with spools := w.spools.filter (·.1 ≠ path) }

/-- The upload endpoint of `handleClientStream` behind its checks: spool the
body, then parse the spool file. Every way out removes it. -/
def spoolUpload (env : ServerEnv) (config : ServerConfig) (res : HttpResponse)
    (stream : Connection) (leftover : Bytes) (req : HttpRequest) (contentType : Bytes)
    (w : World) : Except Bytes HttpResponse × World :=
  match env.createSpoolDirectory with
  | .error e => (.error e, w)
  | .ok () =>
      let spoolPath := uniqueSpoolPath config.uploadSpoolDirectory env.spoolMicros
      if env.canCreateSpool = false then
        (.error (bytes "failed to create upload spool"), w.removeSpool spoolPath)
      else
        match readBodyRest 8192 "failed to stream upload body: " stream leftover
            req.contentLength with
        | .error e => (.error e, w.removeSpool spoolPath)
        | .ok content =>
            let w := w.writeSpool spoolPath content
            if content.length ≠ req.contentLength then
              (.ok res.badRequest, w.removeSpool spoolPath)
            else
              let spool := if env.canOpenSpool then w.spools.lookup spoolPath else none
              let w := w.call (.saveUploadsFromSpoolFile spool)
              match Multipart.saveUploadsFromSpoolFile env.upload spool contentType
                  config.uploadDirectory (uploadLimits config) w.uploads with
              | (.error e, uploads) =>
                  (.error e, { w.removeSpool spoolPath with uploads := uploads })
              | (.ok result, uploads) =>
                  (.ok (uploadResponse res true result),
                    { w.removeSpool spoolPath with uploads := uploads })

/-- The upload endpoint of `handleClientStream`. -/
def handleStreamedUpload (env : ServerEnv) (config : ServerConfig) (tls : Bool)
    (clientIp : Bytes) (stream : Connection) (leftover : Bytes) (req : HttpRequest)
    (w : World) : Except Bytes HttpResponse × World :=
  let res := emptyResponse config tls
  if config.enableUploads = false then (.ok res.notFound, w)
  else if req.method ≠ bytes "POST" then (.ok res.methodNotAllowed, w)
  else
    let (decision, w) := authorizeEndpoint env config req (bytes "upload") w
    if decision.allowed = false then
      let (res, w) := denyEndpoint config tls clientIp req.target (bytes "upload") decision w
      (.ok res, w)
    else
      let w := auditEndpointEvent (bytes "auth_allowed") clientIp req.target (bytes "upload")
        decision.tokenName 200 w
      match req.headers.lookup (bytes "content-type") with
      | none => (.ok res.unsupportedMediaType, w)
      | some contentType =>
          if req.hasContentLength = false ∨ req.contentLength = 0 then (.ok res.badRequest, w)
          else if config.maxBodyBytes < req.contentLength then (.ok res.payloadTooLarge, w)
          else spoolUpload env config res stream leftover req contentType w

/-- `handleClientStream` behind `readHeadersOnly`. -/
def handleHeaders (env : ServerEnv) (config : ServerConfig) (tls : Bool) (clientIp : Bytes)
    (stream : Connection) (headers : HeaderReadResult) (w : World) : Outcome :=
  let parsed := parseHeadersOnly headers.headerPart config.limits
  if parsed.ok = false then
    (.ok (reply (bytes "-") (bytes "-") { emptyResponse config tls with
      status := parsed.status, reason := parsed.reason, body := parsed.message }), w)
  else
    let req := parsed.request
    let finish := reply (orDash req.method) (orDash req.target)
    if req.target = config.adminStatusEndpoint then
      let (res, w) := handleAdminStatus env config tls clientIp req w
      (.ok (finish res), w)
    else if req.target = config.uploadEndpoint then
      let (res, w) := handleStreamedUpload env config tls clientIp stream headers.leftover req w
      (res.map finish, w)
    else
      match completeRequestInMemory stream config headers with
      | .error e => (.error e, w)
      | .ok rawRequest =>
          makeResponse env config rawRequest tls (orDash req.method) (orDash req.target) w

def handleClientStream (env : ServerEnv) (config : ServerConfig) (tls : Bool)
    (clientIp : Bytes) (stream : Connection) (w : World) : Outcome :=
  let w := { w with calls := [] }
  match readHeadersOnly stream config with
  | (.error e, _) => (.error e, w)
  | (.ok headers, stream) => handleHeaders env config tls clientIp stream headers w

/-- What `writeHttpResponse` writes: the header block, and what it sends behind it. -/
def writeHttpResponse (response : HttpResponse) : Bytes × Bytes :=
  if response.headOnly = true ∨ response.bodySize = 0 then (response.headersToString, [])
  else (response.headersToString, response.bodyData)

end HydrogenHttpd.Ref
