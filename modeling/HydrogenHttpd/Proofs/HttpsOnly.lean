import HydrogenHttpd.Proofs.BodyLimits

/-!
# What `force_https` covers

The redirect to HTTPS is checked in `routeRequest`, behind the strict parser.
A request that gets there over plain HTTP is redirected and nothing else. The
two guarded endpoints are taken by `handleClientStream` before that, where no
redirect is checked: the status page is returned and an upload is stored over
plain HTTP as over TLS. A request that never reaches `routeRequest`, because
its body does not arrive or `makeResponse` refuses it, is not redirected either.
-/

namespace HydrogenHttpd.Ref

open Base Spec

/-- The request declares a body that its method does not take. -/
def UnexpectedBody (req : HttpRequest) : Prop :=
  0 < req.contentLength ∧ req.method ≠ bytes "POST"

instance (req : HttpRequest) : Decidable (UnexpectedBody req) :=
  inferInstanceAs (Decidable (_ ∧ _))

/-- Between the two worlds no status page was made, nothing was uploaded and no
file was looked up or handed to PHP. -/
def NothingServed (w out : World) : Prop :=
  .adminStatusResponse ∉ out.calls ∧ out.uploads = w.uploads ∧
    ∀ p, .staticFile p ∉ out.calls ∧ .handlePhpScript p ∉ out.calls

def Redirected (config : ServerConfig) (req : HttpRequest) (out : Outcome) : Prop :=
  ∃ r, out.1 = .ok r ∧ r.response = redirectResponse config (emptyResponse config false)
    ((req.headers.lookup (bytes "host")).getD []) req.target

/-- What `force_https` promises for one request over plain HTTP. -/
def HttpsForced (config : ServerConfig) (req : HttpRequest) (w : World) (out : Outcome) : Prop :=
  NothingServed w out.2 ∧
    (security.isMethodAllowed req.method = true → ¬ UnexpectedBody req → Redirected config req out)

/-! ## Responses that are no redirect -/

/-- A response that does not say where to go. -/
def NoLocation (res : HttpResponse) : Prop := res.extraHeaders.lookup (bytes "Location") = none

theorem not_redirected {config : ServerConfig} {req : HttpRequest} {out : Outcome} {r : Reply}
    (hout : out.1 = .ok r) (h : NoLocation r.response) : ¬ Redirected config req out := by
  intro ⟨r', hr', hres⟩
  rw [hout] at hr'
  cases hr'
  rw [NoLocation, hres, redirectResponse] at h
  simp at h

theorem not_redirected_of_error {config : ServerConfig} {req : HttpRequest} {out : Outcome}
    {e : Bytes} (hout : out.1 = .error e) : ¬ Redirected config req out := by
  intro ⟨r, hr, _⟩
  rw [hout] at hr
  cases hr

theorem unauthorizedResponse_noLocation (config : ServerConfig) (tls invalidToken : Bool) :
    NoLocation (unauthorizedResponse config tls invalidToken) := by
  rw [NoLocation, unauthorizedResponse]
  simp only [List.lookup_cons]
  rw [show (bytes "Location" == bytes "WWW-Authenticate") = false by decide]
  rfl

theorem denyEndpoint_noLocation (config : ServerConfig) (tls : Bool)
    (clientIp target requiredScope : Bytes) (decision : AuthDecision) (w : World) :
    NoLocation (denyEndpoint config tls clientIp target requiredScope decision w).1 := by
  rw [denyEndpoint]
  split
  · exact unauthorizedResponse_noLocation config tls false
  · rfl
  · exact unauthorizedResponse_noLocation config tls true
  · exact unauthorizedResponse_noLocation config tls true

theorem handleAdminStatus_noLocation (env : ServerEnv) (config : ServerConfig) (tls : Bool)
    (clientIp : Bytes) (req : HttpRequest) (w : World) :
    NoLocation (handleAdminStatus env config tls clientIp req w).1 := by
  rw [handleAdminStatus]
  split
  · rfl
  · split
    · rfl
    · simp only []
      split
      · exact denyEndpoint_noLocation ..
      · rfl

theorem uploadResponse_noLocation {res : HttpResponse} (h : NoLocation res) (streamed : Bool)
    (result : MultipartResult) : NoLocation (uploadResponse res streamed result) := by
  rw [uploadResponse]
  split
  · exact h
  · exact h

theorem spoolUpload_noLocation {env : ServerEnv} {config : ServerConfig} {res : HttpResponse}
    (h : NoLocation res) {stream : Connection} {leftover : Bytes} {req : HttpRequest}
    {contentType : Bytes} {w : World} {out : HttpResponse}
    (hout : (spoolUpload env config res stream leftover req contentType w).1 = .ok out) :
    NoLocation out := by
  simp only [spoolUpload] at hout
  split at hout
  · cases hout
  · split at hout
    · cases hout
    · split at hout
      · cases hout
      · split at hout
        · cases hout
          exact h
        · split at hout
          · cases hout
          · cases hout
            exact uploadResponse_noLocation h true _

theorem handleStreamedUpload_noLocation {env : ServerEnv} {config : ServerConfig} {tls : Bool}
    {clientIp : Bytes} {stream : Connection} {leftover : Bytes} {req : HttpRequest} {w : World}
    {out : HttpResponse}
    (hout : (handleStreamedUpload env config tls clientIp stream leftover req w).1 = .ok out) :
    NoLocation out := by
  simp only [handleStreamedUpload] at hout
  split at hout
  · cases hout
    rfl
  · split at hout
    · cases hout
      rfl
    · split at hout
      · cases hout
        exact denyEndpoint_noLocation ..
      · split at hout
        · cases hout
          rfl
        · split at hout
          · cases hout
            rfl
          · split at hout
            · cases hout
              rfl
            · exact spoolUpload_noLocation
                (show NoLocation (emptyResponse config tls) from rfl) hout

/-- Another method than POST stores nothing. -/
theorem handleStreamedUpload_uploads {env : ServerEnv} {config : ServerConfig} {tls : Bool}
    {clientIp : Bytes} {stream : Connection} {leftover : Bytes} {req : HttpRequest} {w : World}
    (h : req.method ≠ bytes "POST") :
    (handleStreamedUpload env config tls clientIp stream leftover req w).2 = w := by
  rw [handleStreamedUpload]
  split
  · rfl
  · rfl

/-! ## `makeResponse` over plain HTTP -/

section Plain

variable (env : ServerEnv) {config : ServerConfig} (hforce : config.forceHttps = true)

include hforce

/-- Behind the parser, nothing but the method and the body decides between the
redirect and a refusal. -/
theorem routeRequest_plain (req : HttpRequest) (finish : HttpResponse → Reply) (w : World) :
    routeRequest env config false req finish w =
      (.ok (finish (
        if security.isMethodAllowed req.method = false then
          (emptyResponse config false).methodNotAllowed
        else if UnexpectedBody req then (emptyResponse config false).payloadTooLarge
        else redirectResponse config (emptyResponse config false)
          ((req.headers.lookup (bytes "host")).getD []) req.target)), w) := by
  rw [routeRequest]
  simp only []
  by_cases hmethod : security.isMethodAllowed req.method = false
  · rw [if_pos hmethod, if_pos hmethod]
  · rw [if_neg hmethod, if_neg hmethod]
    by_cases hbody : UnexpectedBody req
    · rw [if_pos hbody, if_pos (show _ ∧ _ from hbody)]
    · rw [if_neg hbody, if_neg (show ¬ (_ ∧ _) from hbody), if_pos ⟨trivial, hforce⟩]

/-- `makeResponse` serves nothing over plain HTTP, and redirects what its
parser accepts. -/
theorem makeResponse_plain (rawRequest method target : Bytes) (w : World) (req : HttpRequest)
    (hreq : (acceptRequest config rawRequest).ok = true →
      ∃ body, (acceptRequest config rawRequest).request = { req with body := body }) :
    let out := makeResponse env config rawRequest false method target { w with calls := [] }
    NothingServed w out.2 ∧
      (security.isMethodAllowed req.method = true → ¬ UnexpectedBody req →
        (Redirected config req out ↔ (acceptRequest config rawRequest).ok = true)) := by
  simp only [makeResponse]
  by_cases hok : (acceptRequest config rawRequest).ok = true
  · obtain ⟨body, hbody⟩ := hreq hok
    rw [if_neg (by simp [hok]), routeRequest_plain env hforce, hbody]
    refine ⟨⟨by simp, rfl, by simp⟩, fun hallowed hbodyless => ⟨fun _ => hok, fun _ => ?_⟩⟩
    have hexpected : ¬ UnexpectedBody { req with body := body } := hbodyless
    rw [if_neg (by simp [hallowed]), if_neg hexpected]
    exact ⟨_, rfl, rfl⟩
  · rw [if_pos (by simpa using hok)]
    refine ⟨⟨by simp, rfl, by simp⟩, fun _ _ => ⟨fun hredirected => ?_, fun h => absurd h hok⟩⟩
    exact absurd hredirected (not_redirected rfl rfl)

end Plain

/-! ## Every route -/

/-- What the reader hands on behind a section `h` that parsed, of the bytes
`rest` that follow it on the connection. -/
def bodyReceived (config : ServerConfig) (h rest : Bytes) (broken : Option Bytes) :
    Except Bytes Bytes :=
  let req := (parseHeadersOnly h config.limits).request
  if (fieldsOf h).any emptyLength ∨ req.contentLength = 0 then .ok []
  else bodyOf "failed to read request body: " rest broken req.contentLength

/-- The request reaches `routeRequest`: its body arrives, and `makeResponse`
does not refuse it for its size, its control characters or its shortness. -/
def ReachesRouting (config : ServerConfig) (h rest : Bytes) (broken : Option Bytes) : Prop :=
  ∃ received, bodyReceived config h rest broken = .ok received ∧
    h.length + received.length ≤ config.maxRequestBytes ∧
    (∀ f ∈ fieldsOf h, hasControl f = false) ∧
    (h.length + (parseHeadersOnly h config.limits).request.contentLength) % 2 ^ 64
      ≤ h.length + received.length

/-- When `force_https` keeps its promise. -/
def CoveredByRedirect (env : ServerEnv) (config : ServerConfig) (h rest : Bytes)
    (broken : Option Bytes) (w : World) : Prop :=
  let req := (parseHeadersOnly h config.limits).request
  let refused := security.isMethodAllowed req.method = false ∨ UnexpectedBody req
  if req.target = config.adminStatusEndpoint then
    refused ∧ ¬ AdminGranted env config req { w with calls := [] }
  else if req.target = config.uploadEndpoint then refused
  else refused ∨ ReachesRouting config h rest broken

/-- Without a redirect, only a request that is refused anyway keeps the promise. -/
theorem forced_iff_of_not_redirected {config : ServerConfig} {req : HttpRequest} {w : World}
    {out : Outcome} (h : ¬ Redirected config req out) :
    HttpsForced config req w out ↔
      NothingServed w out.2 ∧
        (security.isMethodAllowed req.method = false ∨ UnexpectedBody req) := by
  constructor
  · intro ⟨hserved, hredirect⟩
    refine ⟨hserved, ?_⟩
    by_contra hrefused
    simp only [not_or, Bool.not_eq_false] at hrefused
    exact h (hredirect hrefused.1 hrefused.2)
  · intro ⟨hserved, hrefused⟩
    refine ⟨hserved, fun hallowed hexpected => ?_⟩
    rcases hrefused with hmethod | hbody
    · rw [hallowed] at hmethod
      cases hmethod
    · exact absurd hbody hexpected

theorem nothingServed_of_adds {P : Call → Prop} {w out : World}
    (hadds : Adds P { w with calls := [] } out)
    (hP : ∀ c, P c → c.isAuthorize = true ∨ c.isSpoolUpload = true)
    (huploads : out.uploads = w.uploads) : NothingServed w out := by
  have hcalls : ∀ c ∈ out.calls, c.isAuthorize = true ∨ c.isSpoolUpload = true := by
    intro c hc
    rcases hadds.of_mem hc with h | h
    · cases h
    · exact hP c h
  refine ⟨fun hc => ?_, huploads, fun p => ⟨fun hc => ?_, fun hc => ?_⟩⟩
  · simpa [Call.isAuthorize, Call.isSpoolUpload] using hcalls _ hc
  · simpa [Call.isAuthorize, Call.isSpoolUpload] using hcalls _ hc
  · simpa [Call.isAuthorize, Call.isSpoolUpload] using hcalls _ hc

section Routes

variable (env : ServerEnv) (config : ServerConfig) (clientIp : Bytes) (req : HttpRequest)
  (w : World)

theorem handleAdminStatus_nothingServed :
    NothingServed w (handleAdminStatus env config false clientIp req { w with calls := [] }).2 ↔
      ¬ AdminGranted env config req { w with calls := [] } := by
  constructor
  · intro hserved hgrant
    refine hserved.1 ?_
    rw [handleAdminStatus_granted env config false clientIp req _ hgrant]
    exact List.mem_append_right _ (by simp)
  · intro hgrant
    exact nothingServed_of_adds (handleAdminStatus_refused env config false clientIp req _ hgrant)
      (fun c hc => Or.inl hc)
      (handleAdminStatus_stores env config false clientIp req { w with calls := [] }).uploads

/-- The upload endpoint stores nothing for a request that is refused anyway. -/
theorem handleStreamedUpload_nothingServed {stream : Connection} {leftover : Bytes}
    (hrefused : security.isMethodAllowed req.method = false ∨ UnexpectedBody req) :
    NothingServed w
      (handleStreamedUpload env config false clientIp stream leftover req
        { w with calls := [] }).2 := by
  have hmethod : req.method ≠ bytes "POST" := by
    intro hpost
    rcases hrefused with h | h
    · rw [hpost] at h
      exact absurd h (by decide)
    · exact h.2 hpost
  rw [handleStreamedUpload_uploads hmethod]
  exact ⟨by simp, rfl, by simp⟩

theorem adminRoute_forced (method target : Bytes) :
    let out := handleAdminStatus env config false clientIp req { w with calls := [] }
    HttpsForced config req w (.ok (reply method target out.1), out.2) ↔
      (security.isMethodAllowed req.method = false ∨ UnexpectedBody req) ∧
        ¬ AdminGranted env config req { w with calls := [] } := by
  have hnone := handleAdminStatus_noLocation env config false clientIp req { w with calls := [] }
  simp only []
  rw [forced_iff_of_not_redirected (not_redirected rfl hnone),
    handleAdminStatus_nothingServed, and_comm]

theorem uploadRoute_forced (stream : Connection) (leftover method target : Bytes) :
    let out := handleStreamedUpload env config false clientIp stream leftover req
      { w with calls := [] }
    HttpsForced config req w (out.1.map (reply method target), out.2) ↔
      (security.isMethodAllowed req.method = false ∨ UnexpectedBody req) := by
  have hnot : ¬ Redirected config req
      ((handleStreamedUpload env config false clientIp stream leftover req
          { w with calls := [] }).1.map (reply method target),
        (handleStreamedUpload env config false clientIp stream leftover req
          { w with calls := [] }).2) := by
    cases hout : (handleStreamedUpload env config false clientIp stream leftover req
        { w with calls := [] }).1 with
    | error e => exact not_redirected_of_error rfl
    | ok res => exact not_redirected rfl (handleStreamedUpload_noLocation hout)
  simp only []
  rw [forced_iff_of_not_redirected hnot]
  exact ⟨fun h => h.2, fun h =>
    ⟨handleStreamedUpload_nothingServed env config clientIp req w h, h⟩⟩

end Routes

/-- The requests that are handed to `makeResponse`. -/
theorem plainRoute_forced (env : ServerEnv) {config : ServerConfig}
    (hforce : config.forceHttps = true) (w : World) {h rest : Bytes} (broken : Option Bytes)
    (hend : EndsAtBlank h) (hok : (parseHeadersOnly h config.limits).ok = true)
    (method target : Bytes) :
    let req := (parseHeadersOnly h config.limits).request
    HttpsForced config req w
        (match (bodyReceived config h rest broken).map (h ++ ·) with
        | .error e => (.error e, { w with calls := [] })
        | .ok rawRequest =>
            makeResponse env config rawRequest false method target { w with calls := [] }) ↔
      (security.isMethodAllowed req.method = false ∨ UnexpectedBody req) ∨
        ReachesRouting config h rest broken := by
  simp only [ReachesRouting]
  cases hreceived : bodyReceived config h rest broken with
  | error e =>
      simp only [Except.map]
      rw [forced_iff_of_not_redirected (not_redirected_of_error rfl)]
      constructor
      · intro ⟨_, hrefused⟩
        exact Or.inl hrefused
      · intro hc
        refine ⟨⟨by simp, rfl, by simp⟩, hc.resolve_right ?_⟩
        intro ⟨received, hno, _⟩
        cases hno
  | ok received =>
      simp only [Except.map, Except.ok.injEq, exists_eq_left']
      obtain ⟨haccept, hrequest⟩ := acceptRequest_of_parsed hend hok
      obtain ⟨hserved, hredirected⟩ := makeResponse_plain env hforce (h ++ received) method target w
        (parseHeadersOnly h config.limits).request fun hgood => ⟨_, hrequest hgood⟩
      rw [← haccept]
      constructor
      · intro ⟨_, hpromise⟩
        by_cases hmethod : security.isMethodAllowed
            (parseHeadersOnly h config.limits).request.method = true
        · by_cases hbody : UnexpectedBody (parseHeadersOnly h config.limits).request
          · exact Or.inl (Or.inr hbody)
          · exact Or.inr ((hredirected hmethod hbody).mp (hpromise hmethod hbody))
        · exact Or.inl (Or.inl (by simpa using hmethod))
      · intro hc
        refine ⟨hserved, fun hmethod hbody => (hredirected hmethod hbody).mpr ?_⟩
        rcases hc with (hno | hno) | hgood
        · rw [hmethod] at hno
          cases hno
        · exact absurd hno hbody
        · exact hgood

/-- Over plain HTTP with `force_https`: for which requests nothing is served and
the allowed ones are redirected. -/
theorem https_forced_iff (env : ServerEnv) {config : ServerConfig}
    (hforce : config.forceHttps = true) (clientIp : Bytes) (cuts : List Nat)
    (broken : Option Bytes) (w : World) {h rest : Bytes} (hend : EndsAtBlank h)
    (hsize : h.length ≤ config.maxRequestBytes)
    (hok : (parseHeadersOnly h config.limits).ok = true) :
    HttpsForced config (parseHeadersOnly h config.limits).request w
        (handleClientStream env config false clientIp
          { pending := h ++ rest, cuts := cuts, failure := broken } w) ↔
      CoveredByRedirect env config h rest broken w := by
  obtain ⟨leftover, stream', hread, hrest, hfail⟩ := readHeadersOnly_of_section
    { pending := h ++ rest, cuts := cuts, failure := broken } hend hsize rfl
  have hfinished := completeRequestInMemory_of_parsed stream'
    { headerPart := h, leftover := leftover } hend hok
  simp only [hrest, hfail] at hfinished
  have hcomplete : completeRequestInMemory stream' config
      { headerPart := h, leftover := leftover } =
        (bodyReceived config h rest broken).map (h ++ ·) := by
    rw [hfinished, bodyReceived]
    split
    · simp [Except.map]
    · rfl
  simp only [CoveredByRedirect]
  by_cases hadmin : (parseHeadersOnly h config.limits).request.target = config.adminStatusEndpoint
  · rw [handleClientStream_admin hread hok hadmin, if_pos hadmin]
    exact adminRoute_forced env config clientIp _ w _ _
  · by_cases hupload : (parseHeadersOnly h config.limits).request.target = config.uploadEndpoint
    · rw [handleClientStream_upload hread hok hadmin hupload, if_neg hadmin, if_pos hupload]
      exact uploadRoute_forced env config clientIp _ w _ _ _ _
    · rw [handleClientStream_routed hread hok hadmin hupload, if_neg hadmin, if_neg hupload,
        hcomplete]
      exact plainRoute_forced env hforce w broken hend hok _ _

/-- A configuration file that wants HTTPS everywhere and has a status page. -/
def httpsConf : Bytes := statusConf ++ bytes "force_https = true\n"

def httpsConfEnv : ConfigEnv := { content := fun _ => some httpsConf }

def httpsConfig : ServerConfig := { statusConfig with forceHttps := true }

def plainRequest : Bytes := bytes "GET /a.txt HTTP/1.1\r\nHost: a\r\n\r\n"

theorem https_forced_iff_plainRequest :
    HttpsForced httpsConfig (parseHeadersOnly plainRequest httpsConfig.limits).request freshWorld
      (handleClientStream quietEnv httpsConfig false []
        { pending := plainRequest ++ [], cuts := [], failure := none } freshWorld) :=
  (@https_forced_iff quietEnv httpsConfig (by decide +kernel) [] [] none freshWorld plainRequest []
    (by decide +kernel) (by decide +kernel) (by decide +kernel)).mpr
    (by
      rw [CoveredByRedirect, if_neg (by decide +kernel), if_neg (by decide +kernel)]
      exact Or.inr ⟨[], by decide +kernel, by decide +kernel, by decide +kernel,
        by decide +kernel⟩)

/-- The status page is returned over plain HTTP, to a token sent in the clear. -/
theorem status_page_in_the_clear :
    ConfigLoader.load httpsConfEnv statusConfPath = .ok httpsConfig ∧
    httpsConfig.forceHttps = true ∧
    EndsAtBlank statusRequest.pending ∧
    (parseHeadersOnly statusRequest.pending httpsConfig.limits).ok = true ∧
    ¬ HttpsForced httpsConfig
        (parseHeadersOnly statusRequest.pending httpsConfig.limits).request freshWorld
        (handleClientStream quietEnv httpsConfig false [] statusRequest freshWorld) := by
  refine ⟨by decide +kernel, by decide +kernel, by decide +kernel, by decide +kernel, ?_⟩
  intro ⟨⟨hunmade, _⟩, _⟩
  exact hunmade (by decide +kernel)

end HydrogenHttpd.Ref
