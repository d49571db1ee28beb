import HydrogenHttpd.Proofs.BodyLimits
import HydrogenHttpd.Proofs.EndpointGates

/-!
# Every decision is audited

`authorizeEndpoint` is asked in three places: for the status page, for a
streamed upload, and for the upload endpoint of `makeResponse`. The first two
write one event for each decision. The third writes none, and is never
reached: the target `makeResponse` reads is the one the header parser read
(`makeResponse_target`), and a request with the upload endpoint for its target
does not get to `makeResponse`.
-/

namespace HydrogenHttpd.Ref

open Base

/-! ## Events -/

/-- The events of a decision. -/
def endpointEvents : List Bytes :=
  ["auth_missing", "auth_invalid", "auth_expired", "auth_scope_denied", "auth_allowed"].map bytes

def isEndpointEvent : LogMessage → Bool
  | .audit message =>
      endpointEvents.any fun event => (bytes "event=" ++ event ++ bytes " ip=").isPrefixOf message
  | .error _ => false

/-- The event, the token name and the status that stand for a decision. -/
def decisionEvent (decision : AuthDecision) : Bytes × Bytes × Nat :=
  match decision.code with
  | .Allowed => (bytes "auth_allowed", decision.tokenName, 200)
  | .Missing => (bytes "auth_missing", bytes "-", 401)
  | .Invalid => (bytes "auth_invalid", bytes "unknown", 401)
  | .Expired => (bytes "auth_expired", decision.tokenName, 401)
  | .InsufficientScope => (bytes "auth_scope_denied", decision.tokenName, 403)

/-- The line of the audit log for a decision. -/
def decisionMessage (clientIp target requiredScope : Bytes) (decision : AuthDecision) :
    LogMessage :=
  let e := decisionEvent decision
  .audit (bytes "event=" ++ e.1 ++ bytes " ip=" ++ clientIp ++
    bytes " target=\"" ++ target ++ bytes "\"" ++ bytes " required_scope=" ++ requiredScope ++
    bytes " token=\"" ++ e.2.1 ++ bytes "\"" ++ bytes " status=" ++ decimal e.2.2)

theorem isEndpointEvent_decision (clientIp target requiredScope : Bytes)
    (decision : AuthDecision) :
    isEndpointEvent (decisionMessage clientIp target requiredScope decision) = true := by
  have hmem : (decisionEvent decision).1 ∈ endpointEvents := by
    cases h : decision.code <;> simp [decisionEvent, h, endpointEvents]
  refine List.any_eq_true.mpr ⟨_, hmem, ?_⟩
  rw [List.isPrefixOf_iff_prefix]
  simp only [List.append_assoc, List.prefix_append_right_inj]
  exact List.prefix_append ..

/-- Between two worlds these events were logged, among other messages. -/
def Audits (w w' : World) (events : List LogMessage) : Prop :=
  ∃ added, w'.logs = w.logs ++ added ∧ added.filter isEndpointEvent = events

section Audits

variable {w w' w'' : World} {events events' : List LogMessage}

theorem Audits.of_eq (h : w'.logs = w.logs) : Audits w w' [] :=
  ⟨[], by rw [h, List.append_nil], rfl⟩

theorem Audits.trans (h : Audits w w' events) (h' : Audits w' w'' events') :
    Audits w w'' (events ++ events') := by
  obtain ⟨added, hlogs, rfl⟩ := h
  obtain ⟨added', hlogs', rfl⟩ := h'
  exact ⟨added ++ added', by rw [hlogs', hlogs, List.append_assoc], List.filter_append ..⟩

/-- The message of a decision is its one event. -/
theorem Audits.decision (h : Audits w w' []) {clientIp target scope : Bytes}
    {decision : AuthDecision}
    (hlogs : w''.logs = w'.logs ++ [decisionMessage clientIp target scope decision]) :
    Audits w w'' [decisionMessage clientIp target scope decision] :=
  h.trans ⟨_, hlogs, by simp [isEndpointEvent_decision]⟩

end Audits

/-- What the refresh of the store logs is no such event. -/
theorem logReload_audits (reload : AuthReloadResult) (w : World) :
    Audits w (logReload reload w) [] := by
  have hreloaded : ∀ rest, isEndpointEvent
      (.audit (bytes "event=auth_store_reloaded" ++ rest)) = false := fun _ => rfl
  have hfailed : ∀ rest, isEndpointEvent
      (.audit (bytes "event=auth_store_reload_failed" ++ rest)) = false := fun _ => rfl
  have herror : ∀ message, isEndpointEvent (.error message) = false := fun _ => rfl
  rw [logReload]
  split
  · exact ⟨_, rfl, by simp [hreloaded]⟩
  · refine ⟨[_, _], by simp only [World.log, List.append_assoc]; rfl, ?_⟩
    simp only [List.filter_cons, hfailed, herror, List.filter_nil, Bool.false_eq_true, if_false]
  · exact .of_eq rfl

/-! ## Handlers -/

section Handlers

variable (env : ServerEnv) (config : ServerConfig) (tls : Bool) (clientIp : Bytes)
  (req : HttpRequest) (scope : Bytes) (w : World)

theorem authorizeEndpoint_audits :
    Audits w (authorizeEndpoint env config req scope w).2 [] := by
  rw [authorizeEndpoint]
  split
  · exact .of_eq rfl
  · exact logReload_audits _ _

theorem auditEndpointEvent_decision {decision : AuthDecision} (h : decision.allowed = true) :
    (auditEndpointEvent (bytes "auth_allowed") clientIp req.target scope decision.tokenName 200
      w).logs = w.logs ++ [decisionMessage clientIp req.target scope decision] := by
  have hcode : decision.code = .Allowed := by simpa [AuthDecision.allowed] using h
  simp [auditEndpointEvent, World.log, decisionMessage, decisionEvent, hcode]

theorem denyEndpoint_decision {decision : AuthDecision} (h : decision.allowed = false) :
    (denyEndpoint config tls clientIp req.target scope decision w).2.logs =
        w.logs ++ [decisionMessage clientIp req.target scope decision] ∧
      (denyEndpoint config tls clientIp req.target scope decision w).1.status =
        (decisionEvent decision).2.2 := by
  rw [denyEndpoint]
  cases hcode : decision.code with
  | Allowed => simp [AuthDecision.allowed, hcode] at h
  | Missing | Invalid | Expired | InsufficientScope =>
      simp [auditEndpointEvent, World.log, decisionMessage, decisionEvent, hcode,
        unauthorizedResponse, forbiddenResponse, HttpResponse.forbidden, HttpResponse.answer]

/-- The decision on the request was audited, and a denial is the response. -/
def Audited (result : Except Bytes HttpResponse) (w' : World) : Prop :=
  let decision := (authorizeEndpoint env config req scope w).1
  Audits w w' [decisionMessage clientIp req.target scope decision] ∧
    (decision.allowed = false →
      ∃ res, result = .ok res ∧ res.status = (decisionEvent decision).2.2)

theorem handleAdminStatus_audited (henabled : config.enableAdminStatus = true)
    (hmethod : req.method = bytes "GET") :
    let out := handleAdminStatus env config tls clientIp req w
    Audited env config clientIp req (bytes "admin") w (.ok out.1) out.2 := by
  have hauth := authorizeEndpoint_audits env config req (bytes "admin") w
  simp only [handleAdminStatus, henabled, hmethod, Bool.true_eq_false, if_false, ne_eq,
    not_true_eq_false]
  split
  next hdenied =>
    obtain ⟨hlogs, hstatus⟩ := denyEndpoint_decision config tls clientIp req (bytes "admin")
      (authorizeEndpoint env config req (bytes "admin") w).2 hdenied
    exact ⟨hauth.decision hlogs, fun _ => ⟨_, rfl, hstatus⟩⟩
  next hallowed =>
    simp only [Bool.not_eq_false] at hallowed
    exact ⟨hauth.decision (auditEndpointEvent_decision clientIp req (bytes "admin") _ hallowed),
      fun hdenied => by rw [hallowed] at hdenied; cases hdenied⟩

theorem handleAdminStatus_unasked
    (h : ¬ (config.enableAdminStatus = true ∧ req.method = bytes "GET")) :
    Audits w (handleAdminStatus env config tls clientIp req w).2 [] := by
  rw [handleAdminStatus]
  split
  · exact .of_eq rfl
  next henabled =>
    rw [if_pos (fun hmethod => h ⟨by simpa using henabled, hmethod⟩)]
    exact .of_eq rfl

theorem spoolUpload_logs (res : HttpResponse) (stream : Connection) (leftover contentType : Bytes) :
    (spoolUpload env config res stream leftover req contentType w).2.logs = w.logs := by
  rw [spoolUpload]
  split
  · rfl
  · simp only []
    split
    · rfl
    · split
      · rfl
      · split
        · rfl
        · split <;> rfl

theorem handleStreamedUpload_audited (stream : Connection) (leftover : Bytes)
    (henabled : config.enableUploads = true) (hmethod : req.method = bytes "POST") :
    let out := handleStreamedUpload env config tls clientIp stream leftover req w
    Audited env config clientIp req (bytes "upload") w out.1 out.2 := by
  have hauth := authorizeEndpoint_audits env config req (bytes "upload") w
  simp only [handleStreamedUpload, henabled, hmethod, Bool.true_eq_false, if_false, ne_eq,
    not_true_eq_false]
  split
  next hdenied =>
    obtain ⟨hlogs, hstatus⟩ := denyEndpoint_decision config tls clientIp req (bytes "upload")
      (authorizeEndpoint env config req (bytes "upload") w).2 hdenied
    exact ⟨hauth.decision hlogs, fun _ => ⟨_, rfl, hstatus⟩⟩
  next hallowed =>
    simp only [Bool.not_eq_false] at hallowed
    have hevent := auditEndpointEvent_decision clientIp req (bytes "upload")
      (authorizeEndpoint env config req (bytes "upload") w).2 hallowed
    refine ⟨hauth.decision ?_, fun hdenied => by rw [hallowed] at hdenied; cases hdenied⟩
    rw [← hevent]
    split
    · rfl
    · split
      · rfl
      · split
        · rfl
        · exact spoolUpload_logs ..

theorem handleStreamedUpload_unasked (stream : Connection) (leftover : Bytes)
    (h : ¬ (config.enableUploads = true ∧ req.method = bytes "POST")) :
    Audits w (handleStreamedUpload env config tls clientIp stream leftover req w).2 [] := by
  rw [handleStreamedUpload]
  split
  · exact .of_eq rfl
  next henabled =>
    rw [if_pos (fun hmethod => h ⟨by simpa using henabled, hmethod⟩)]
    exact .of_eq rfl

theorem serveFile_audits (res : HttpResponse) (path : Path) (finish : HttpResponse → Reply) :
    Audits w (serveFile env config res req path finish w).2 [] := by
  rw [serveFile]
  split
  · split
    · exact .of_eq rfl
    · simp only [handlePhpScript]
      split
      · exact .of_eq rfl
      · exact ⟨_, rfl, rfl⟩
  · split
    · exact .of_eq rfl
    · simp only []
      split
      · exact .of_eq rfl
      · split <;> exact .of_eq rfl

theorem serveTarget_audits (res : HttpResponse) (host : Bytes) (finish : HttpResponse → Reply) :
    Audits w (serveTarget env config res req host finish w).2 [] := by
  rw [serveTarget]
  split
  · exact .of_eq rfl
  · exact .of_eq rfl
  · split
    · exact .of_eq rfl
    · exact .of_eq rfl
    · split
      · exact .of_eq rfl
      · split
        · exact .of_eq rfl
        · split
          · exact .of_eq rfl
          · exact .of_eq rfl
          · exact serveFile_audits ..

/-- Without the upload endpoint for its target, a request asks for no decision. -/
theorem makeResponse_audits (rawRequest method target : Bytes)
    (hupload : (acceptRequest config rawRequest).ok = true →
      (acceptRequest config rawRequest).request.target ≠ config.uploadEndpoint) :
    Audits w (makeResponse env config rawRequest tls method target w).2 [] := by
  rw [makeResponse]
  simp only []
  split
  · exact .of_eq rfl
  next hok =>
    rw [routeRequest]
    split
    · exact .of_eq rfl
    · split
      · exact .of_eq rfl
      · simp only []
        split
        · exact .of_eq rfl
        · rw [if_neg (hupload (by simpa using hok))]
          exact serveTarget_audits ..

end Handlers

/-! ## Which requests ask for a decision -/

/-- The call in `handleUploadRequest`, for a request that `makeResponse` has
parsed. -/
def askedByMakeResponse (config : ServerConfig) (tls : Bool) (rawRequest : Bytes) :
    Option (HttpRequest × Bytes) :=
  let parsed := acceptRequest config rawRequest
  let req := parsed.request
  if parsed.ok = true ∧ security.isMethodAllowed req.method = true ∧
      ¬ (0 < req.contentLength ∧ req.method ≠ bytes "POST") ∧
      ¬ (tls = false ∧ config.forceHttps = true) ∧ req.target = config.uploadEndpoint ∧
      config.enableUploads = true ∧ req.method = bytes "POST" then
    some (req, bytes "upload")
  else none

/-- The request and the scope with which `handleClientStream` asks
`authorizeEndpoint`, in one of the three places where it does. -/
def asked (config : ServerConfig) (tls : Bool) (stream : Connection) :
    Option (HttpRequest × Bytes) :=
  match readHeadersOnly stream config with
  | (.error _, _) => none
  | (.ok headers, stream) =>
      let parsed := parseHeadersOnly headers.headerPart config.limits
      let req := parsed.request
      if parsed.ok = false then none
      else if req.target = config.adminStatusEndpoint then
        if config.enableAdminStatus = true ∧ req.method = bytes "GET" then
          some (req, bytes "admin")
        else none
      else if req.target = config.uploadEndpoint then
        if config.enableUploads = true ∧ req.method = bytes "POST" then
          some (req, bytes "upload")
        else none
      else
        match completeRequestInMemory stream config headers with
        | .error _ => none
        | .ok rawRequest => askedByMakeResponse config tls rawRequest

/-- Both parsers read the same target from a request they both accept. -/
theorem makeResponse_target {config : ServerConfig} {stream stream' : Connection}
    {headers : HeaderReadResult} {rawRequest : Bytes}
    (hread : readHeadersOnly stream config = (.ok headers, stream'))
    (hok : (parseHeadersOnly headers.headerPart config.limits).ok = true)
    (hcomplete : completeRequestInMemory stream' config headers = .ok rawRequest)
    (haccept : (acceptRequest config rawRequest).ok = true) :
    (acceptRequest config rawRequest).request.target =
      (parseHeadersOnly headers.headerPart config.limits).request.target := by
  have hend := (endsAtBlank_of_read hread).1
  obtain ⟨body, rfl⟩ : ∃ body, rawRequest = headers.headerPart ++ body := by
    rw [completeRequestInMemory_of_parsed stream' headers hend hok] at hcomplete
    split at hcomplete
    · cases hcomplete
      exact ⟨[], (List.append_nil _).symm⟩
    · cases hbody : bodyOf "failed to read request body: " (headers.leftover ++ stream'.pending)
          stream'.failure (parseHeadersOnly headers.headerPart config.limits).request.contentLength
        with
      | error e => rw [hbody] at hcomplete; cases hcomplete
      | ok body => rw [hbody] at hcomplete; cases hcomplete; exact ⟨body, rfl⟩
  rw [(acceptRequest_of_parsed hend hok).2 haccept]

/-! ## The recorded calls

With authorization enabled, `Auth::authorize` is called for exactly the
requests that ask. -/

section Recorded

variable (env : ServerEnv) (config : ServerConfig) (tls : Bool) (clientIp : Bytes)
  (req : HttpRequest) (w : World)

theorem handleAdminStatus_keeps (henabled : config.enableAdminStatus = true)
    (hmethod : req.method = bytes "GET") {c : Call}
    (hc : c ∈ (authorizeEndpoint env config req (bytes "admin") w).2.calls) :
    c ∈ (handleAdminStatus env config tls clientIp req w).2.calls := by
  simp only [handleAdminStatus, henabled, hmethod, Bool.true_eq_false, if_false, ne_eq,
    not_true_eq_false]
  split
  · rw [denyEndpoint_calls]
    exact hc
  · exact List.mem_append_left _ hc

theorem handleAdminStatus_calls_unasked
    (h : ¬ (config.enableAdminStatus = true ∧ req.method = bytes "GET")) :
    (handleAdminStatus env config tls clientIp req w).2.calls = w.calls := by
  rw [handleAdminStatus]
  split
  · rfl
  next henabled => rw [if_pos (fun hmethod => h ⟨by simpa using henabled, hmethod⟩)]

theorem handleStreamedUpload_keeps (stream : Connection) (leftover : Bytes)
    (henabled : config.enableUploads = true) (hmethod : req.method = bytes "POST") {c : Call}
    (hc : c ∈ (authorizeEndpoint env config req (bytes "upload") w).2.calls) :
    c ∈ (handleStreamedUpload env config tls clientIp stream leftover req w).2.calls := by
  simp only [handleStreamedUpload, henabled, hmethod, Bool.true_eq_false, if_false, ne_eq,
    not_true_eq_false]
  split
  · rw [denyEndpoint_calls]
    exact hc
  · split
    · exact hc
    · split
      · exact hc
      · split
        · exact hc
        · exact (spoolUpload_adds ..).mem hc

theorem handleStreamedUpload_calls_unasked (stream : Connection) (leftover : Bytes)
    (h : ¬ (config.enableUploads = true ∧ req.method = bytes "POST")) :
    (handleStreamedUpload env config tls clientIp stream leftover req w).2.calls = w.calls := by
  rw [handleStreamedUpload]
  split
  · rfl
  next henabled => rw [if_pos (fun hmethod => h ⟨by simpa using henabled, hmethod⟩)]

theorem makeResponse_unasked (rawRequest method target : Bytes)
    (hupload : (acceptRequest config rawRequest).ok = true →
      (acceptRequest config rawRequest).request.target ≠ config.uploadEndpoint) :
    Adds (·.isAuthorize = false) w
      (makeResponse env config rawRequest tls method target w).2 := by
  have hserves : ∀ (Q : Path → Prop) c, ServesFrom Q c → c.isAuthorize = false := by
    rintro Q c ⟨p, rfl | rfl, -⟩ <;> rfl
  have hcall : Adds (·.isAuthorize = false) w (w.call (.makeResponse rawRequest)) :=
    Adds.one rfl rfl
  rw [makeResponse]
  simp only []
  split
  · exact hcall
  next hok =>
    refine hcall.trans ?_
    rw [routeRequest]
    split
    · exact Adds.of_eq rfl
    · split
      · exact Adds.of_eq rfl
      · simp only []
        split
        · exact Adds.of_eq rfl
        · rw [if_neg (hupload (by simpa using hok))]
          exact (serveTarget_adds ..).mono (hserves _)

end Recorded

/-- A request that gets to `makeResponse` does not have the upload endpoint for
its target there either. -/
theorem acceptRequest_notUpload {config : ServerConfig} {stream stream' : Connection}
    {headers : HeaderReadResult} {rawRequest : Bytes}
    (hread : readHeadersOnly stream config = (.ok headers, stream'))
    (hok : (parseHeadersOnly headers.headerPart config.limits).ok = true)
    (htarget : (parseHeadersOnly headers.headerPart config.limits).request.target ≠
      config.uploadEndpoint)
    (hcomplete : completeRequestInMemory stream' config headers = .ok rawRequest)
    (haccept : (acceptRequest config rawRequest).ok = true) :
    (acceptRequest config rawRequest).request.target ≠ config.uploadEndpoint := by
  rw [makeResponse_target hread hok hcomplete haccept]
  exact htarget

theorem asked_iff_authorize (env : ServerEnv) {config : ServerConfig} (tls : Bool)
    (clientIp : Bytes) (stream : Connection) (w : World)
    (hauth : config.enableEndpointAuth = true) :
    (∃ c ∈ (handleClientStream env config tls clientIp stream w).2.calls, c.isAuthorize = true) ↔
      (asked config tls stream).isSome = true := by
  have hasked : ∀ req scope, ∃ c ∈ (authorizeEndpoint env config req scope
      { w with calls := [] }).2.calls, c.isAuthorize = true := by
    intro req scope
    obtain ⟨tokens, now, -, hcalls⟩ := authorizeEndpoint_enabled env config req scope
      { w with calls := [] } hauth
    exact ⟨_, by rw [hcalls]; exact List.mem_append_right _ (List.mem_singleton_self _), rfl⟩
  rcases hread : readHeadersOnly stream config with ⟨read, stream'⟩
  cases read with
  | error e => simp [asked, hread, handleClientStream]
  | ok headers =>
      by_cases hok : (parseHeadersOnly headers.headerPart config.limits).ok = true
      · by_cases hadmin : (parseHeadersOnly headers.headerPart config.limits).request.target =
            config.adminStatusEndpoint
        · rw [handleClientStream_admin hread hok hadmin]
          simp only [asked, hread, hok, hadmin, Bool.true_eq_false, if_false, if_true]
          by_cases hask : config.enableAdminStatus = true ∧
              (parseHeadersOnly headers.headerPart config.limits).request.method = bytes "GET"
          · obtain ⟨c, hc, hauthorize⟩ := hasked
              (parseHeadersOnly headers.headerPart config.limits).request (bytes "admin")
            rw [if_pos hask]
            exact iff_of_true ⟨c, handleAdminStatus_keeps env config tls clientIp _ _ hask.1 hask.2
              hc, hauthorize⟩ rfl
          · rw [if_neg hask, handleAdminStatus_calls_unasked env config tls clientIp _ _ hask]
            simp
        · by_cases hupload : (parseHeadersOnly headers.headerPart config.limits).request.target =
              config.uploadEndpoint
          · rw [handleClientStream_upload hread hok hadmin hupload]
            simp only [asked, hread, hok, Bool.true_eq_false, if_false]
            rw [if_neg hadmin, if_pos hupload]
            by_cases hask : config.enableUploads = true ∧
                (parseHeadersOnly headers.headerPart config.limits).request.method = bytes "POST"
            · obtain ⟨c, hc, hauthorize⟩ := hasked
                (parseHeadersOnly headers.headerPart config.limits).request (bytes "upload")
              rw [if_pos hask]
              exact iff_of_true ⟨c, handleStreamedUpload_keeps env config tls clientIp _ _ stream'
                headers.leftover hask.1 hask.2 hc, hauthorize⟩ rfl
            · rw [if_neg hask, handleStreamedUpload_calls_unasked env config tls clientIp _ _ _ _
                hask]
              simp
          · rw [handleClientStream_routed hread hok hadmin hupload]
            simp only [asked, hread, hok, Bool.true_eq_false, if_false]
            rw [if_neg hadmin, if_neg hupload]
            cases hcomplete : completeRequestInMemory stream' config headers with
            | error e => simp
            | ok rawRequest =>
                have htarget := acceptRequest_notUpload hread hok hupload hcomplete
                have hnone : askedByMakeResponse config tls rawRequest = none := by
                  rw [askedByMakeResponse, if_neg fun h => htarget h.1 h.2.2.2.2.1]
                have hadds := makeResponse_unasked env config tls { w with calls := [] } rawRequest
                  (orDash (parseHeadersOnly headers.headerPart config.limits).request.method)
                  (orDash (parseHeadersOnly headers.headerPart config.limits).request.target)
                  htarget
                refine iff_of_false ?_ (by simp [hnone])
                rintro ⟨c, hc, hauthorize⟩
                rcases hadds.of_mem hc with h | h
                · cases h
                · rw [hauthorize] at h
                  cases h
      · simp [asked, hread, handleClientStream, handleHeaders, Bool.eq_false_iff.mpr hok]

/-! ## The main result -/

/-- A request that asks for a decision has exactly one event in the audit log,
the decision's, and a denial's status is the response's; any other request has
none. With authorization enabled, those that ask are those for which
`Auth::authorize` is called. The third place, behind `makeResponse`, asks for no
decision on any request. -/
theorem decisions_audited (env : ServerEnv) (config : ServerConfig) (tls : Bool)
    (clientIp : Bytes) (stream : Connection) (w : World) :
    let out := handleClientStream env config tls clientIp stream w
    (match asked config tls stream with
      | none => Audits w out.2 []
      | some (req, scope) =>
          let decision := (authorizeEndpoint env config req scope { w with calls := [] }).1
          Audits w out.2 [decisionMessage clientIp req.target scope decision] ∧
            (decision.allowed = false → ∃ r, out.1 = .ok r ∧
              r.status = (decisionEvent decision).2.2 ∧ r.response.status = r.status ∧
              (r.status = 401 ∨ r.status = 403))) ∧
      (config.enableEndpointAuth = true →
        ((∃ c ∈ out.2.calls, c.isAuthorize = true) ↔ (asked config tls stream).isSome = true)) ∧
      ∀ headers stream' rawRequest,
        readHeadersOnly stream config = (.ok headers, stream') →
        (parseHeadersOnly headers.headerPart config.limits).ok = true →
        (parseHeadersOnly headers.headerPart config.limits).request.target ≠
          config.uploadEndpoint →
        completeRequestInMemory stream' config headers = .ok rawRequest →
        (acceptRequest config rawRequest).ok = true →
        (acceptRequest config rawRequest).request.target ≠ config.uploadEndpoint := by
  refine ⟨?_, asked_iff_authorize env tls clientIp stream w,
    fun _ _ _ => acceptRequest_notUpload⟩
  have hstatus : ∀ decision : AuthDecision, decision.allowed = false →
      ((decisionEvent decision).2.2 : Int) = 401 ∨ ((decisionEvent decision).2.2 : Int) = 403 := by
    intro decision h
    cases hcode : decision.code <;> simp [decisionEvent, hcode, AuthDecision.allowed] at h ⊢
  rcases hread : readHeadersOnly stream config with ⟨read, stream'⟩
  cases read with
  | error e =>
      simp only [asked, hread, handleClientStream]
      exact .of_eq rfl
  | ok headers =>
      by_cases hok : (parseHeadersOnly headers.headerPart config.limits).ok = true
      · by_cases hadmin : (parseHeadersOnly headers.headerPart config.limits).request.target =
            config.adminStatusEndpoint
        · rw [handleClientStream_admin hread hok hadmin]
          simp only [asked, hread, hok, hadmin, Bool.true_eq_false, if_false, if_true]
          by_cases hask : config.enableAdminStatus = true ∧
              (parseHeadersOnly headers.headerPart config.limits).request.method = bytes "GET"
          · obtain ⟨haudits, hdenied⟩ := handleAdminStatus_audited env config tls clientIp
              (parseHeadersOnly headers.headerPart config.limits).request { w with calls := [] }
              hask.1 hask.2
            rw [if_pos hask]
            refine ⟨hadmin ▸ haudits, fun h => ?_⟩
            obtain ⟨res, hres, hcode⟩ := hdenied h
            cases hres
            exact ⟨_, rfl, hcode, rfl, by rw [reply, hcode]; exact hstatus _ h⟩
          · rw [if_neg hask]
            exact handleAdminStatus_unasked env config tls clientIp _ { w with calls := [] } hask
        · by_cases hupload : (parseHeadersOnly headers.headerPart config.limits).request.target =
              config.uploadEndpoint
          · rw [handleClientStream_upload hread hok hadmin hupload]
            simp only [asked, hread, hok, Bool.true_eq_false, if_false]
            rw [if_neg hadmin, if_pos hupload]
            by_cases hask : config.enableUploads = true ∧
                (parseHeadersOnly headers.headerPart config.limits).request.method = bytes "POST"
            · obtain ⟨haudits, hdenied⟩ := handleStreamedUpload_audited env config tls clientIp
                (parseHeadersOnly headers.headerPart config.limits).request { w with calls := [] }
                stream' headers.leftover hask.1 hask.2
              rw [if_pos hask]
              refine ⟨haudits, fun h => ?_⟩
              obtain ⟨res, hres, hcode⟩ := hdenied h
              exact ⟨_, by rw [hres]; rfl, hcode, rfl, by rw [reply, hcode]; exact hstatus _ h⟩
            · rw [if_neg hask]
              exact handleStreamedUpload_unasked env config tls clientIp _ { w with calls := [] }
                stream' headers.leftover hask
          · rw [handleClientStream_routed hread hok hadmin hupload]
            simp only [asked, hread, hok, Bool.true_eq_false, if_false]
            rw [if_neg hadmin, if_neg hupload]
            cases hcomplete : completeRequestInMemory stream' config headers with
            | error e => exact .of_eq rfl
            | ok rawRequest =>
                have htarget := acceptRequest_notUpload hread hok hupload hcomplete
                have hnone : askedByMakeResponse config tls rawRequest = none := by
                  rw [askedByMakeResponse, if_neg fun h => htarget h.1 h.2.2.2.2.1]
                simp only [hnone]
                exact makeResponse_audits env config tls { w with calls := [] } rawRequest _ _
                  htarget
      · simp only [asked, hread, handleClientStream, handleHeaders,
          Bool.eq_false_iff.mpr hok, if_true]
        exact .of_eq rfl

/-- The request for the status page asks. -/
theorem decisions_audited_statusRequest :
    ∃ c ∈ (handleClientStream quietEnv statusConfig true [] statusRequest freshWorld).2.calls,
      c.isAuthorize = true :=
  ((decisions_audited quietEnv statusConfig true [] statusRequest freshWorld).2.1
    (by decide +kernel)).mpr (by decide +kernel)

end HydrogenHttpd.Ref
