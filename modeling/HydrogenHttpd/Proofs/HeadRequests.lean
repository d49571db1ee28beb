import HydrogenHttpd.Proofs.AcceptedRequests
import HydrogenHttpd.Proofs.BodyLimits
import HydrogenHttpd.Proofs.ConditionalGet

/-!
# HEAD requests

Two connections deliver the same bytes but for their request lines, one a GET
and the other a HEAD of the same target. From both the header section is read
with the same fields and the same rest behind it (`pair_sections`), and the two
requests differ in their methods (`pair_requests`). Behind the parsers they
take the same way, and `serveTarget` marks the response to HEAD as one without
a body. The answers that are given before `serveTarget` is reached are not
marked, and all of them have a text for a body: those of the two guarded
endpoints, the refusal of a body, and the redirect.
-/

namespace HydrogenHttpd.Ref

open Base Spec

/-! ## Pairs of connections -/

/-- The same bytes but for the request lines: a GET and a HEAD of one target. -/
structure GetAndHead (get head : Connection) (line line' target version rest : Bytes) : Prop where
  get_pending : get.pending = line ++ crlf ++ rest
  head_pending : head.pending = line' ++ crlf ++ rest
  failure : head.failure = get.failure
  get_line : ¬ crlf <:+: line
  head_line : ¬ crlf <:+: line'
  get_words : wordsOf line = [bytes "GET", target, version]
  head_words : wordsOf line' = [bytes "HEAD", target, version]

section Pair

variable {config : ServerConfig} {get head get' head' : Connection}
  {line line' target version rest : Bytes}
  (hpair : GetAndHead get head line line' target version rest) {h h' : HeaderReadResult}
  (hget : readHeadersOnly get config = (.ok h, get'))
  (hhead : readHeadersOnly head config = (.ok h', head'))

include hpair hget hhead

/-- The two header sections have the same fields, and the same bytes follow. -/
theorem pair_sections :
    ∃ b b' : HeaderBlock, h.headerPart = b.render ∧ h'.headerPart = b'.render ∧
      b.first = line ∧ b'.first = line' ∧ b'.fields = b.fields ∧
      h'.leftover ++ head'.pending = h.leftover ++ get'.pending ∧
      head'.failure = get'.failure := by
  obtain ⟨hend, htext, -, hfail⟩ := endsAtBlank_of_read hget
  obtain ⟨hend', htext', -, hfail'⟩ := endsAtBlank_of_read hhead
  obtain ⟨b, hrender, -, -⟩ := exists_block hend
  rw [← hrender, hpair.get_pending] at htext
  have hfirst : b.first.length = line.length := by
    have hb := render_find_crlf b (h.leftover ++ get'.pending)
    have hl := find?_crlf_append hpair.get_line rest
    rw [htext, List.append_assoc, hl] at hb
    exact (Option.some.inj hb).symm
  simp only [HeaderBlock.render, List.append_assoc] at htext
  obtain ⟨hline, hbehind⟩ := List.append_inj htext hfirst
  let b' : HeaderBlock := ⟨line', b.fields, hpair.head_line, b.fields_crlf⟩
  have hwhole : b'.render ++ (h.leftover ++ get'.pending) = head.pending := by
    rw [hpair.head_pending, List.append_assoc, ← hbehind]
    simp [HeaderBlock.render, b']
  -- Both sections end at the first empty line of one text.
  have hlength : h'.headerPart.length = b'.render.length := by
    have hfind := find?_append hend' (h'.leftover ++ head'.pending)
    have hfind' := find?_append b'.endsAtBlank (h.leftover ++ get'.pending)
    rw [htext', ← hwhole, hfind'] at hfind
    have hle := find?_length_le hend'
    have hle' := find?_length_le b'.endsAtBlank
    rw [show crlf2.length = 4 from rfl] at hle hle'
    have := Option.some.inj hfind
    omega
  obtain ⟨hsection, hrest⟩ := List.append_inj (htext'.trans hwhole.symm) hlength
  exact ⟨b, b', hrender.symm, hsection, hline, rfl, rfl, hrest,
    by rw [hfail', hfail, hpair.failure]⟩

end Pair

/-- The request line decides about the method of a request that is accepted,
and about nothing else. -/
theorem requestLine_of_words {isToken : Bytes → Bool} {limits : HttpParseLimits}
    {line method target version : Bytes} {request : HttpRequest}
    (hwords : wordsOf line = [method, target, version])
    (h : requestLine isToken limits line = .ok request) :
    request = { method := method, target := target, version := version } := by
  rw [requestLine_words, hwords] at h
  exact (requestWords_ok h).2.2.2.2

section Pair

variable {config : ServerConfig} {get head get' head' : Connection}
  {line line' target version rest : Bytes}
  (hpair : GetAndHead get head line line' target version rest) {h h' : HeaderReadResult}
  (hget : readHeadersOnly get config = (.ok h, get'))
  (hhead : readHeadersOnly head config = (.ok h', head'))
  (hok : (parseHeadersOnly h.headerPart config.limits).ok = true)
  (hok' : (parseHeadersOnly h'.headerPart config.limits).ok = true)

include hpair hget hhead hok hok'

/-- The requests of the pair differ in their methods. -/
theorem pair_requests :
    let req := (parseHeadersOnly h.headerPart config.limits).request
    req.method = bytes "GET" ∧ req.target = target ∧
      (parseHeadersOnly h'.headerPart config.limits).request =
        { req with method := bytes "HEAD" } := by
  obtain ⟨b, b', hsection, hsection', hline, hline', hfields, -⟩ := pair_sections hpair hget hhead
  rw [hsection] at hok ⊢
  rw [hsection'] at hok' ⊢
  obtain ⟨request, st, -, hrequest, hscan, hparse⟩ := parseHeadersOnly_ok b.endsAtBlank hok
  obtain ⟨request', st', -, hrequest', hscan', hparse'⟩ := parseHeadersOnly_ok b'.endsAtBlank hok'
  rw [hline] at hrequest
  rw [hline'] at hrequest'
  rw [hfields, hscan] at hscan'
  obtain rfl := Except.ok.inj hscan'
  obtain rfl := requestLine_of_words hpair.get_words hrequest
  obtain rfl := requestLine_of_words hpair.head_words hrequest'
  rw [hparse] at hok ⊢
  rw [hparse'] at hok' ⊢
  have hmade := (finishHeadersOnly_ok hok).2
  have hmade' := (finishHeadersOnly_ok hok').2
  rw [hmade, hmade']
  exact ⟨rfl, rfl, rfl⟩

/-- So do the requests that `makeResponse` parses. -/
theorem pair_accepted {raw raw' : Bytes}
    (hraw : completeRequestInMemory get' config h = .ok raw)
    (hraw' : completeRequestInMemory head' config h' = .ok raw')
    (haccept : (acceptRequest config raw).ok = true)
    (haccept' : (acceptRequest config raw').ok = true) :
    let req := (acceptRequest config raw).request
    ∃ body, req = { (parseHeadersOnly h.headerPart config.limits).request with body := body } ∧
      (acceptRequest config raw').request = { req with method := bytes "HEAD" } := by
  obtain ⟨hmethod, -, hrequest⟩ := pair_requests hpair hget hhead hok hok'
  have hend := (endsAtBlank_of_read hget).1
  have hend' := (endsAtBlank_of_read hhead).1
  have hsame : fieldsOf h'.headerPart = fieldsOf h.headerPart := by
    obtain ⟨b, b', hsection, hsection', -, -, hfields, -⟩ := pair_sections hpair hget hhead
    rw [hsection, hsection', b.fieldsOf_render, b'.fieldsOf_render, hfields]
  obtain ⟨-, -, -, -, -, -, -, hrest, hfailure⟩ := pair_sections hpair hget hhead
  rw [completeRequestInMemory_of_parsed get' h hend hok] at hraw
  rw [completeRequestInMemory_of_parsed head' h' hend' hok'] at hraw'
  simp only [hsame, hrequest, hrest, hfailure] at hraw'
  -- The same bytes were read behind both sections.
  obtain ⟨body, rfl, rfl⟩ : ∃ body, raw = h.headerPart ++ body ∧ raw' = h'.headerPart ++ body := by
    split at hraw
    next hnone =>
      rw [if_pos hnone] at hraw'
      cases hraw
      cases hraw'
      exact ⟨[], by simp, by simp⟩
    next hsome =>
      rw [if_neg hsome] at hraw'
      cases hbody : bodyOf "failed to read request body: " (h.leftover ++ get'.pending)
          get'.failure (parseHeadersOnly h.headerPart config.limits).request.contentLength with
      | error e => rw [hbody] at hraw; cases hraw
      | ok body =>
          rw [hbody] at hraw hraw'
          cases hraw
          cases hraw'
          exact ⟨body, rfl, rfl⟩
  rw [(acceptRequest_of_parsed hend hok).2 haccept,
    (acceptRequest_of_parsed hend' hok').2 haccept', hrequest]
  exact ⟨_, rfl, rfl⟩

end Pair

/-! ## Pairs of responses -/

/-- Of two outcomes, the second is the first for HEAD: where `comparable`, the
status and the header block are the same, and nothing is written behind the
header block. An exception is answered by an exception. -/
def MirroredFor (comparable : Prop) : Except Bytes Reply → Except Bytes Reply → Prop
  | .ok r, .ok r' =>
      (comparable → r'.status = r.status ∧ r'.response.status = r.response.status ∧
        (writeHttpResponse r'.response).1 = (writeHttpResponse r.response).1) ∧
      (writeHttpResponse r'.response).2 = []
  | .error _, .error _ => True
  | _, _ => False

theorem writeHttpResponse_headOnly {res : HttpResponse} (h : res.headOnly = true) :
    (writeHttpResponse res).2 = [] := by
  rw [writeHttpResponse, if_pos (Or.inl h)]

theorem writeHttpResponse_fst (res : HttpResponse) :
    (writeHttpResponse res).1 = res.headersToString := by
  rw [writeHttpResponse]
  split <;> rfl

/-- What a response without the mark writes behind its header block is its body. -/
theorem writeHttpResponse_snd {res : HttpResponse} (h : res.headOnly = false) :
    (writeHttpResponse res).2 = res.bodyData := by
  rw [writeHttpResponse]
  split
  next hempty =>
    have hsize : res.bodySize = 0 := by simpa [h] using hempty
    rw [HttpResponse.bodySize] at hsize
    rw [HttpResponse.bodyData]
    cases hshared : res.sharedBody <;> simp_all
  · rfl

/-- A response and the same with the mark. -/
theorem mirrored_marked (comparable : Prop) (m t m' t' : Bytes) (res : HttpResponse) :
    MirroredFor comparable (.ok (reply m t res))
      (.ok (reply m' t' { res with headOnly := true })) := by
  refine ⟨fun _ => ⟨rfl, rfl, ?_⟩, writeHttpResponse_headOnly rfl⟩
  rw [writeHttpResponse_fst, writeHttpResponse_fst]
  rfl

/-- A response for HEAD with a text behind its header block. -/
theorem not_mirrored (comparable : Prop) {out : Except Bytes Reply} {m t : Bytes}
    {res : HttpResponse} (hmark : res.headOnly = false) (hbody : res.bodyData ≠ []) :
    ¬ MirroredFor comparable out (.ok (reply m t res)) := by
  cases out with
  | error e => exact id
  | ok r =>
      intro h
      rw [MirroredFor, reply, writeHttpResponse_snd hmark] at h
      exact hbody h.2

/-! ## Handlers -/

section Handlers

variable {env : ServerEnv} {config : ServerConfig} {tls : Bool} {req : HttpRequest} {w w' : World}
  {m t m' t' : Bytes}

/-- Outside of PHP the response to HEAD is the one to GET, marked. -/
theorem serveFile_marked (hmethod : req.method = bytes "GET")
    (hcache : w'.staticCache = w.staticCache) (res : HttpResponse) {path : Path}
    (hstatic : path.extension ≠ config.phpExtension) :
    ∃ out : HttpResponse,
      (serveFile env config { res with headOnly := false } req path (reply m t) w).1 =
        reply m t out ∧
      (serveFile env config { res with headOnly := true } { req with method := bytes "HEAD" } path
        (reply m' t') w').1 = reply m' t' { out with headOnly := true } := by
  have hget : req.method ≠ bytes "POST" := by rw [hmethod]; decide
  have hhead : bytes "HEAD" ≠ bytes "POST" := by decide
  rw [serveFile, serveFile, if_neg hstatic, if_neg hstatic, if_neg hget, if_neg hhead]
  simp only [World.call, hcache]
  rcases w.staticCache.get env.files env.hash env.cacheNow path with ⟨found, staticCache⟩
  cases found with
  | none => exact ⟨_, rfl, rfl⟩
  | some cached =>
      simp only []
      split <;> exact ⟨_, rfl, rfl⟩

/-- The mark stays on, whatever a script answers. -/
theorem serveFile_php {res : HttpResponse} (hmark : res.headOnly = true) {path : Path}
    (hphp : path.extension = config.phpExtension) :
    (serveFile env config res req path (reply m t) w).1.response.headOnly = true := by
  rw [serveFile, if_pos hphp]
  split <;> exact hmark

theorem serveTarget_mirrored (hmethod : req.method = bytes "GET")
    (hcache : w'.staticCache = w.staticCache) (res : HttpResponse) (host : Bytes)
    {comparable : Prop}
    (hstatic : comparable → ∀ path, security.resolveSafePath env.files
      (selectDocumentRoot config host) req.target = .ok (some path) →
      path.extension ≠ config.phpExtension) :
    MirroredFor comparable (serveTarget env config res req host (reply m t) w).1
      (serveTarget env config res { req with method := bytes "HEAD" } host (reply m' t') w').1 := by
  have hget : (req.method == bytes "HEAD") = false := by rw [hmethod]; decide
  have hhead : (bytes "HEAD" == bytes "HEAD") = true := by decide
  rw [serveTarget, serveTarget]
  simp only [hget, hhead]
  cases hpath : security.resolveSafePath env.files (selectDocumentRoot config host) req.target with
  | error e => trivial
  | ok found =>
  cases found with
  | none => exact mirrored_marked comparable m t m' t' _
  | some path =>
  simp only []
  cases isForbiddenFile env.files config (selectDocumentRoot config host) path with
  | error e => trivial
  | ok forbidden =>
  cases forbidden with
  | true => exact mirrored_marked comparable m t m' t' _
  | false =>
  simp only []
  cases accessRules env.files config (selectDocumentRoot config host) path with
  | error e => trivial
  | ok rules =>
  simp only []
  split
  · exact mirrored_marked comparable m t m' t' _
  · cases existingFile env.files path with
    | error e => trivial
    | ok existing =>
    cases existing with
    | false => exact mirrored_marked comparable m t m' t' _
    | true =>
    simp only []
    by_cases hphp : path.extension = config.phpExtension
    · exact ⟨fun h => absurd hphp (hstatic h path hpath),
        writeHttpResponse_headOnly (serveFile_php rfl hphp)⟩
    · obtain ⟨out, hout, hout'⟩ := @serveFile_marked env config req w w' m t m' t' hmethod hcache
        { res with
          extraHeaders := rules.responseHeaders.foldl (fun headers h => put h.1 h.2 headers)
            res.extraHeaders } path hphp
      rw [hout, hout']
      exact mirrored_marked comparable m t m' t' out

/-- The answer to HEAD of an endpoint has a text. -/
theorem not_mirrored_answer (comparable : Prop) (out : Except Bytes Reply) (status : Int)
    (reason : String) {body : String} (hbody : bytes body ≠ []) :
    ¬ MirroredFor comparable out
      (.ok (reply m' t' ((emptyResponse config tls).answer status reason body))) :=
  not_mirrored comparable rfl hbody

/-- `makeResponse` behind its parser: only what `serveTarget` answers is marked. -/
theorem routeRequest_mirrored (hmethod : req.method = bytes "GET")
    (hcache : w'.staticCache = w.staticCache) (hupload : req.target ≠ config.uploadEndpoint)
    {comparable : Prop}
    (hstatic : comparable → ∀ path, security.resolveSafePath env.files
      (selectDocumentRoot config ((req.headers.lookup (bytes "host")).getD [])) req.target =
        .ok (some path) → path.extension ≠ config.phpExtension) :
    MirroredFor comparable (routeRequest env config tls req (reply m t) w).1
        (routeRequest env config tls { req with method := bytes "HEAD" } (reply m' t') w').1 ↔
      req.contentLength = 0 ∧ ¬ (tls = false ∧ config.forceHttps = true) := by
  have hallowed : security.isMethodAllowed req.method ≠ false := by rw [hmethod]; decide
  have hallowed' : security.isMethodAllowed (bytes "HEAD") ≠ false := by decide
  have hget : req.method ≠ bytes "POST" := by rw [hmethod]; decide
  have hhead : bytes "HEAD" ≠ bytes "POST" := by decide
  rw [routeRequest, routeRequest, if_neg hallowed, if_neg hallowed']
  by_cases hlength : 0 < req.contentLength
  · rw [if_pos ⟨hlength, hget⟩, if_pos ⟨hlength, hhead⟩]
    refine iff_of_false (not_mirrored_answer comparable _ 413 _ (by decide)) fun h => ?_
    omega
  have hbody : ¬ (0 < req.contentLength ∧ req.method ≠ bytes "POST") := fun h => hlength h.1
  have hbody' : ¬ (0 < req.contentLength ∧ bytes "HEAD" ≠ bytes "POST") := fun h => hlength h.1
  rw [if_neg hbody, if_neg hbody']
  simp only []
  by_cases htls : tls = false ∧ config.forceHttps = true
  · rw [if_pos htls, if_pos htls]
    refine iff_of_false (not_mirrored comparable rfl ?_) fun h => h.2 htls
    simp only [redirectResponse, HttpResponse.bodyData, emptyResponse]
    exact List.append_ne_nil_of_right_ne_nil _ (by decide)
  · rw [if_neg htls, if_neg htls, if_neg hupload, if_neg hupload]
    exact iff_of_true (serveTarget_mirrored hmethod hcache _ _ hstatic) ⟨by omega, htls⟩

/-- HEAD of the admin endpoint is refused with a text. -/
theorem handleAdminStatus_head (comparable : Prop) (out : Except Bytes Reply)
    (clientIp : Bytes) (hmethod : req.method = bytes "HEAD") :
    ¬ MirroredFor comparable out
      (.ok (reply m' t' (handleAdminStatus env config tls clientIp req w).1)) := by
  rw [handleAdminStatus]
  split
  · exact not_mirrored_answer comparable out 404 _ (by decide)
  · rw [if_pos (by rw [hmethod]; decide)]
    exact not_mirrored_answer comparable out 405 _ (by decide)

/-- So is HEAD of the upload endpoint. -/
theorem handleStreamedUpload_head (comparable : Prop) (out : Except Bytes Reply)
    (clientIp : Bytes) (stream : Connection) (leftover : Bytes)
    (hmethod : req.method = bytes "HEAD") :
    ¬ MirroredFor comparable out
      ((handleStreamedUpload env config tls clientIp stream leftover req w).1.map
        (reply m' t')) := by
  rw [handleStreamedUpload]
  split
  · exact not_mirrored_answer comparable out 404 _ (by decide)
  · rw [if_pos (by rw [hmethod]; decide)]
    exact not_mirrored_answer comparable out 405 _ (by decide)

end Handlers

/-! ## Whole connections -/

/-- The request in the header section of a connection. -/
def requestIn (config : ServerConfig) (stream : Connection) : HttpRequest :=
  match (readHeadersOnly stream config).1 with
  | .ok headers => (parseHeadersOnly headers.headerPart config.limits).request
  | .error _ => {}

/-- The connection delivers a request that all its parsers accept: the one of
`handleClientStream` and, unless an endpoint takes it, the one of `makeResponse`. -/
def Parses (config : ServerConfig) (stream : Connection) : Prop :=
  ∃ headers stream', readHeadersOnly stream config = (.ok headers, stream') ∧
    (parseHeadersOnly headers.headerPart config.limits).ok = true ∧
    ((requestIn config stream).target ≠ config.adminStatusEndpoint →
      (requestIn config stream).target ≠ config.uploadEndpoint →
      ∃ raw, completeRequestInMemory stream' config headers = .ok raw ∧
        (acceptRequest config raw).ok = true)

/-- The target is no endpoint and no PHP script. -/
def StaticTarget (env : ServerEnv) (config : ServerConfig) (req : HttpRequest) : Prop :=
  req.target ≠ config.adminStatusEndpoint ∧ req.target ≠ config.uploadEndpoint ∧
    ∀ path, security.resolveSafePath env.files
      (selectDocumentRoot config ((req.headers.lookup (bytes "host")).getD [])) req.target =
        .ok (some path) → path.extension ≠ config.phpExtension

/-- A GET and a HEAD of one target on one listener, both accepted: the answer
to HEAD has the status and the header block of the answer to GET (where the
target is static) and nothing behind it, exactly when `serveTarget` is reached:
the target is none of the endpoints, no body is declared, and the listener does
not redirect. -/
theorem head_mirrors_get_iff (env : ServerEnv) (config : ServerConfig) (tls : Bool)
    (clientIp : Bytes) (w : World) {get head : Connection}
    {line line' target version rest : Bytes}
    (hpair : GetAndHead get head line line' target version rest)
    (hget : Parses config get) (hhead : Parses config head) :
    MirroredFor (StaticTarget env config (requestIn config get))
        (handleClientStream env config tls clientIp get w).1
        (handleClientStream env config tls clientIp head w).1 ↔
      target ≠ config.adminStatusEndpoint ∧ target ≠ config.uploadEndpoint ∧
        (requestIn config get).contentLength = 0 ∧
        ¬ (tls = false ∧ config.forceHttps = true) := by
  obtain ⟨h, get', hread, hok, hraw⟩ := hget
  obtain ⟨h', head', hread', hok', hraw'⟩ := hhead
  obtain ⟨hmethod, htarget, hrequest⟩ := pair_requests hpair hread hread' hok hok'
  have hin : requestIn config get = (parseHeadersOnly h.headerPart config.limits).request := by
    rw [requestIn, hread]
  have hin' : requestIn config head = { requestIn config get with method := bytes "HEAD" } := by
    rw [hin, ← hrequest, requestIn, hread']
  have htarget' : (parseHeadersOnly h'.headerPart config.limits).request.target = target := by
    rw [hrequest]
    exact htarget
  rw [hin'] at hraw'
  rw [hin] at hraw hraw' ⊢
  simp only [htarget] at hraw hraw'
  by_cases hadmin : target = config.adminStatusEndpoint
  · rw [handleClientStream_admin hread' hok' (htarget'.trans hadmin)]
    exact iff_of_false (handleAdminStatus_head _ _ clientIp (by rw [hrequest])) fun h => h.1 hadmin
  by_cases hupload : target = config.uploadEndpoint
  · rw [handleClientStream_upload hread' hok' (htarget' ▸ hadmin) (htarget'.trans hupload)]
    exact iff_of_false (handleStreamedUpload_head _ _ clientIp _ _ (by rw [hrequest]))
      fun h => h.2.1 hupload
  obtain ⟨raw, hcomplete, haccept⟩ := hraw hadmin hupload
  obtain ⟨raw', hcomplete', haccept'⟩ := hraw' hadmin hupload
  obtain ⟨body, hreq, hreq'⟩ :=
    pair_accepted hpair hread hread' hok hok' hcomplete hcomplete' haccept haccept'
  rw [handleClientStream_routed hread hok (htarget ▸ hadmin) (htarget ▸ hupload),
    handleClientStream_routed hread' hok' (htarget' ▸ hadmin) (htarget' ▸ hupload)]
  simp only [hcomplete, hcomplete', makeResponse, haccept, haccept', Bool.true_eq_false, if_false]
  rw [hreq', hreq]
  have hrouted := fun m t m' t' => @routeRequest_mirrored env config tls
    { (parseHeadersOnly h.headerPart config.limits).request with body := body }
    (World.call { w with calls := [] } (.makeResponse raw))
    (World.call { w with calls := [] } (.makeResponse raw')) m t m' t' hmethod rfl
    (by simpa only [htarget] using hupload) _
    (fun hstatic : StaticTarget env config (parseHeadersOnly h.headerPart config.limits).request =>
      hstatic.2.2)
  rw [hrouted]
  exact ⟨fun h => ⟨hadmin, hupload, h⟩, fun h => h.2.2⟩

/-- A connection that asks for the page of five bytes. -/
def pageStream (method : String) : Connection :=
  { pending := bytes (method ++ " /page.html HTTP/1.1") ++ crlf ++ bytes "Host: a\r\n\r\n" }

theorem pageStream_pair :
    GetAndHead (pageStream "GET") (pageStream "HEAD") (bytes "GET /page.html HTTP/1.1")
      (bytes "HEAD /page.html HTTP/1.1") (bytes "/page.html") (bytes "HTTP/1.1")
      (bytes "Host: a\r\n\r\n") where
  get_pending := rfl
  head_pending := rfl
  failure := rfl
  get_line := by decide +kernel
  head_line := by decide +kernel
  get_words := by decide +kernel
  head_words := by decide +kernel

theorem pageStream_parses {config : ServerConfig} {method : String}
    (hread : (readHeadersOnly (pageStream method) config).1 =
      .ok ⟨(pageStream method).pending, []⟩)
    (hok : (parseHeadersOnly (pageStream method).pending config.limits).ok = true)
    (hcomplete : completeRequestInMemory (readHeadersOnly (pageStream method) config).2 config
      ⟨(pageStream method).pending, []⟩ = .ok (pageStream method).pending)
    (haccept : (acceptRequest config (pageStream method).pending).ok = true) :
    Parses config (pageStream method) :=
  ⟨_, _, Prod.ext hread rfl, hok, fun _ _ => ⟨_, hcomplete, haccept⟩⟩

theorem head_mirrors_get_iff_page :
    MirroredFor (StaticTarget pagesEnv pagesConfig (requestIn pagesConfig (pageStream "GET")))
      (handleClientStream pagesEnv pagesConfig false [] (pageStream "GET") pagesWorld).1
      (handleClientStream pagesEnv pagesConfig false [] (pageStream "HEAD") pagesWorld).1 :=
  (head_mirrors_get_iff pagesEnv pagesConfig false [] pagesWorld pageStream_pair
    (pageStream_parses (by decide +kernel) (by decide +kernel) (by decide +kernel)
      (by decide +kernel))
    (pageStream_parses (by decide +kernel) (by decide +kernel) (by decide +kernel)
      (by decide +kernel))).mpr (by decide +kernel)

def redirectingConfig : ServerConfig := { pagesConfig with forceHttps := true }

/-- The redirect of a HEAD has a text behind its header block. -/
theorem head_redirect :
    GetAndHead (pageStream "GET") (pageStream "HEAD") (bytes "GET /page.html HTTP/1.1")
      (bytes "HEAD /page.html HTTP/1.1") (bytes "/page.html") (bytes "HTTP/1.1")
      (bytes "Host: a\r\n\r\n") ∧
    Parses redirectingConfig (pageStream "GET") ∧ Parses redirectingConfig (pageStream "HEAD") ∧
    ∃ r, (handleClientStream pagesEnv redirectingConfig false [] (pageStream "HEAD")
        pagesWorld).1 = .ok r ∧
      r.status = 308 ∧ (writeHttpResponse r.response).2 = bytes "Permanent Redirect\n" ∧
      ¬ MirroredFor (StaticTarget pagesEnv redirectingConfig (requestIn redirectingConfig
          (pageStream "GET")))
        (handleClientStream pagesEnv redirectingConfig false [] (pageStream "GET") pagesWorld).1
        (handleClientStream pagesEnv redirectingConfig false [] (pageStream "HEAD")
          pagesWorld).1 := by
  refine ⟨pageStream_pair,
    pageStream_parses (by decide +kernel) (by decide +kernel) (by decide +kernel)
      (by decide +kernel),
    pageStream_parses (by decide +kernel) (by decide +kernel) (by decide +kernel)
      (by decide +kernel), ?_⟩
  have hanswer : (handleClientStream pagesEnv redirectingConfig false []
      (pageStream "HEAD") pagesWorld).1.map (fun r => decide (r.status = 308 ∧
        (writeHttpResponse r.response).2 = bytes "Permanent Redirect\n")) = .ok true := by
    decide +kernel
  cases h : (handleClientStream pagesEnv redirectingConfig false []
      (pageStream "HEAD") pagesWorld).1 with
  | error e =>
      rw [h] at hanswer
      cases hanswer
  | ok r =>
      rw [h] at hanswer
      obtain ⟨hstatus, htext⟩ := of_decide_eq_true
        (Except.ok.inj (show Except.ok _ = Except.ok true from hanswer))
      refine ⟨r, rfl, hstatus, htext, fun hmirrored => ?_⟩
      cases hget : (handleClientStream pagesEnv redirectingConfig false []
          (pageStream "GET") pagesWorld).1 with
      | error e =>
          rw [hget] at hmirrored
          exact hmirrored
      | ok r' =>
          rw [hget, MirroredFor, htext] at hmirrored
          exact absurd hmirrored.2 (by decide)

end HydrogenHttpd.Ref
