import HydrogenHttpd.Ref.Server

/-!
# Which calls a handler makes

One lemma for each handler, saying which calls it adds to those made before
and under which condition. Everything later that speaks about what a request
reaches is read off these, without opening a handler again.
-/

namespace HydrogenHttpd.Ref

open Base

/-- The calls made between two worlds come behind the earlier ones and all
satisfy `P`. -/
def Adds (P : Call → Prop) (w w' : World) : Prop :=
  ∃ cs, w'.calls = w.calls ++ cs ∧ ∀ c ∈ cs, P c

section Adds

variable {P Q : Call → Prop} {w w' w'' : World}

theorem Adds.of_eq (h : w'.calls = w.calls) : Adds P w w' :=
  ⟨[], by rw [h, List.append_nil], by simp⟩

theorem Adds.one {c : Call} (h : w'.calls = w.calls ++ [c]) (hc : P c) : Adds P w w' :=
  ⟨[c], h, by simpa using hc⟩

theorem Adds.trans (h₁ : Adds P w w') (h₂ : Adds P w' w'') : Adds P w w'' := by
  obtain ⟨cs₁, hcs₁, hP₁⟩ := h₁
  obtain ⟨cs₂, hcs₂, hP₂⟩ := h₂
  refine ⟨cs₁ ++ cs₂, by rw [hcs₂, hcs₁, List.append_assoc], fun c hc => ?_⟩
  rcases List.mem_append.mp hc with h | h
  · exact hP₁ c h
  · exact hP₂ c h

theorem Adds.mono (h : Adds P w w') (hPQ : ∀ c, P c → Q c) : Adds Q w w' := by
  obtain ⟨cs, hcs, hP⟩ := h
  exact ⟨cs, hcs, fun c hc => hPQ c (hP c hc)⟩

theorem Adds.mem {c : Call} (h : Adds P w w') (hc : c ∈ w.calls) : c ∈ w'.calls := by
  obtain ⟨cs, hcs, -⟩ := h
  rw [hcs]
  exact List.mem_append_left _ hc

/-- A call in the later world was there before or satisfies `P`. -/
theorem Adds.of_mem {c : Call} (h : Adds P w w') (hc : c ∈ w'.calls) : c ∈ w.calls ∨ P c := by
  obtain ⟨cs, hcs, hP⟩ := h
  rw [hcs] at hc
  exact (List.mem_append.mp hc).imp_right (hP c)

end Adds

@[simp] theorem World.call_calls (w : World) (c : Call) : (w.call c).calls = w.calls ++ [c] := rfl

@[simp] theorem World.call_uploads (w : World) (c : Call) : (w.call c).uploads = w.uploads := rfl

@[simp] theorem World.log_calls (w : World) (m : LogMessage) : (w.log m).calls = w.calls := rfl

@[simp] theorem World.log_uploads (w : World) (m : LogMessage) :
    (w.log m).uploads = w.uploads := rfl

/-- The two worlds hold the same uploads, the same spools and the same cached
files. -/
structure World.SameStores (w w' : World) : Prop where
  uploads : w'.uploads = w.uploads
  spools : w'.spools = w.spools
  staticCache : w'.staticCache = w.staticCache

theorem World.SameStores.refl (w : World) : w.SameStores w := ⟨rfl, rfl, rfl⟩

theorem World.SameStores.trans {w w' w'' : World} (h : w.SameStores w')
    (h' : w'.SameStores w'') : w.SameStores w'' :=
  ⟨h'.uploads.trans h.uploads, h'.spools.trans h.spools, h'.staticCache.trans h.staticCache⟩

@[simp] theorem World.writeSpool_calls (w : World) (p : Path) (content : Bytes) :
    (w.writeSpool p content).calls = w.calls := rfl

@[simp] theorem World.removeSpool_calls (w : World) (p : Path) :
    (w.removeSpool p).calls = w.calls := rfl

/-! ## Authorization -/

def Call.isAuthorize : Call → Bool
  | .authorize .. => true
  | _ => false

/-- The `Authorization` header as `authorizeEndpoint` reads it. -/
def authorizationOf (req : HttpRequest) : Bytes :=
  (req.headers.lookup (bytes "authorization")).getD []

@[simp] theorem logReload_calls (reload : AuthReloadResult) (w : World) :
    (logReload reload w).calls = w.calls := by
  rw [logReload]
  split <;> rfl

theorem logReload_stores (reload : AuthReloadResult) (w : World) :
    w.SameStores (logReload reload w) := by
  rw [logReload]
  split <;> exact ⟨rfl, rfl, rfl⟩

section Endpoints

variable (env : ServerEnv) (config : ServerConfig) (tls : Bool) (clientIp : Bytes)
  (req : HttpRequest) (scope : Bytes) (w : World)

/-- With authorization enabled, the decision is `Auth::authorize`'s on the rules
active at that moment, and that call is recorded. -/
theorem authorizeEndpoint_enabled (h : config.enableEndpointAuth = true) :
    ∃ tokens now,
      (authorizeEndpoint env config req scope w).1 =
        Auth.authorize (authorizationOf req) tokens config.authBearerToken scope now ∧
      (authorizeEndpoint env config req scope w).2.calls = w.calls ++
        [.authorize (authorizationOf req) tokens config.authBearerToken scope now] := by
  rw [authorizeEndpoint, if_neg (by simp [h])]
  exact ⟨_, _, rfl, by simp [authorizationOf]⟩

theorem authorizeEndpoint_adds :
    Adds (·.isAuthorize = true) w (authorizeEndpoint env config req scope w).2 := by
  by_cases h : config.enableEndpointAuth = true
  · obtain ⟨tokens, now, -, hcalls⟩ := authorizeEndpoint_enabled env config req scope w h
    exact Adds.one hcalls rfl
  · rw [authorizeEndpoint, if_pos (by simpa using h)]
    exact Adds.of_eq rfl

theorem authorizeEndpoint_stores :
    w.SameStores (authorizeEndpoint env config req scope w).2 := by
  rw [authorizeEndpoint]
  split
  · exact .refl w
  · refine World.SameStores.trans ?_ (logReload_stores _ _)
    exact ⟨rfl, rfl, rfl⟩

@[simp] theorem auditEndpointEvent_calls (event target tokenName : Bytes) (status : Nat) :
    (auditEndpointEvent event clientIp target scope tokenName status w).calls = w.calls := rfl

@[simp] theorem auditEndpointEvent_uploads (event target tokenName : Bytes) (status : Nat) :
    (auditEndpointEvent event clientIp target scope tokenName status w).uploads = w.uploads := rfl

@[simp] theorem denyEndpoint_calls (target : Bytes) (decision : AuthDecision) :
    (denyEndpoint config tls clientIp target scope decision w).2.calls = w.calls := by
  rw [denyEndpoint]
  split <;> rfl

theorem denyEndpoint_stores (target : Bytes) (decision : AuthDecision) :
    w.SameStores (denyEndpoint config tls clientIp target scope decision w).2 := by
  rw [denyEndpoint]
  split <;> exact ⟨rfl, rfl, rfl⟩

/-! ## The admin endpoint -/

/-- The admin endpoint answers with the status page. -/
def AdminGranted : Prop :=
  config.enableAdminStatus = true ∧ req.method = bytes "GET" ∧
    (authorizeEndpoint env config req (bytes "admin") w).1.allowed = true

theorem handleAdminStatus_granted (h : AdminGranted env config req w) :
    (handleAdminStatus env config tls clientIp req w).2.calls =
      (authorizeEndpoint env config req (bytes "admin") w).2.calls ++ [.adminStatusResponse] := by
  obtain ⟨henabled, hmethod, hallowed⟩ := h
  rw [handleAdminStatus, if_neg (by simp [henabled]), if_neg (by simp [hmethod])]
  simp only []
  rw [if_neg (by simp [hallowed])]
  rfl

/-- Without a grant the status page is not made. -/
theorem handleAdminStatus_refused (h : ¬ AdminGranted env config req w) :
    Adds (·.isAuthorize = true) w (handleAdminStatus env config tls clientIp req w).2 := by
  rw [handleAdminStatus]
  split
  · exact Adds.of_eq rfl
  · next henabled =>
      split
      · exact Adds.of_eq rfl
      · next hmethod =>
          have hdenied :
              (authorizeEndpoint env config req (bytes "admin") w).1.allowed = false := by
            by_contra hne
            exact h ⟨by simpa using henabled, by simpa using hmethod, by simpa using hne⟩
          simp only []
          rw [if_pos hdenied]
          exact (authorizeEndpoint_adds env config req (bytes "admin") w).trans
            (Adds.of_eq (by simp))

theorem handleAdminStatus_stores :
    w.SameStores (handleAdminStatus env config tls clientIp req w).2 := by
  have hauth := authorizeEndpoint_stores env config req (bytes "admin") w
  rw [handleAdminStatus]
  split
  · exact .refl w
  · split
    · exact .refl w
    · simp only []
      split
      · exact hauth.trans (denyEndpoint_stores ..)
      · exact hauth.trans ⟨rfl, rfl, rfl⟩

/-! ## The upload endpoint of `handleClientStream` -/

def Call.isSpoolUpload : Call → Bool
  | .saveUploadsFromSpoolFile _ => true
  | _ => false

variable (stream : Connection) (leftover : Bytes)

theorem spoolUpload_adds (res : HttpResponse) (contentType : Bytes) :
    Adds (·.isSpoolUpload = true) w
      (spoolUpload env config res stream leftover req contentType w).2 := by
  rw [spoolUpload]
  split
  · exact Adds.of_eq rfl
  · simp only []
    split
    · exact Adds.of_eq rfl
    · split
      · exact Adds.of_eq rfl
      · split
        · exact Adds.of_eq rfl
        · split <;> exact Adds.one rfl rfl

/-- The spool file reaches the upload parser only with a permission, and what
`authorizeEndpoint` recorded stays recorded. -/
theorem handleStreamedUpload_adds :
    Adds (fun c => c.isAuthorize = true ∨ c.isSpoolUpload = true ∧
        (authorizeEndpoint env config req (bytes "upload") w).1.allowed = true ∧
        ∀ a ∈ (authorizeEndpoint env config req (bytes "upload") w).2.calls,
          a ∈ (handleStreamedUpload env config tls clientIp stream leftover req w).2.calls)
      w (handleStreamedUpload env config tls clientIp stream leftover req w).2 := by
  have hauth := authorizeEndpoint_adds env config req (bytes "upload") w
  rw [handleStreamedUpload]
  split
  · exact Adds.of_eq rfl
  · split
    · exact Adds.of_eq rfl
    · simp only []
      split
      · exact (hauth.mono fun c hc => Or.inl hc).trans (Adds.of_eq (by simp))
      · next hallowed =>
          split
          · exact (hauth.mono fun c hc => Or.inl hc).trans (Adds.of_eq (by simp))
          · next contentType _ =>
              split
              · exact (hauth.mono fun c hc => Or.inl hc).trans (Adds.of_eq (by simp))
              · split
                · exact (hauth.mono fun c hc => Or.inl hc).trans (Adds.of_eq (by simp))
                · have hspool := spoolUpload_adds env config req
                    (auditEndpointEvent (bytes "auth_allowed") clientIp req.target (bytes "upload")
                      (authorizeEndpoint env config req (bytes "upload") w).1.tokenName 200
                      (authorizeEndpoint env config req (bytes "upload") w).2)
                    stream leftover (emptyResponse config tls) contentType
                  have hkept := fun a ha => hspool.mem (c := a)
                    (by rw [auditEndpointEvent_calls]; exact ha)
                  refine (hauth.mono fun c hc => Or.inl hc).trans
                    (Adds.trans (Adds.of_eq (by simp))
                      (hspool.mono fun c hc => Or.inr ⟨hc, ?_, hkept⟩))
                  simpa using hallowed

end Endpoints

/-! ## `makeResponse` -/

section Routing

variable (env : ServerEnv) (config : ServerConfig) (tls : Bool) (req : HttpRequest)
  (finish : HttpResponse → Reply) (w : World)

/-- A call on a path that may be served. -/
def ServesFrom (Q : Path → Prop) (c : Call) : Prop :=
  ∃ p, (c = .staticFile p ∨ c = .handlePhpScript p) ∧ Q p

def Call.isUpload : Call → Bool
  | .saveUploads _ => true
  | _ => false

/-- It stores uploads, and nothing else. -/
theorem handleUploadRequest_stores :
    (handleUploadRequest env config tls req finish w).2.spools = w.spools ∧
      (handleUploadRequest env config tls req finish w).2.staticCache = w.staticCache := by
  have hauth := authorizeEndpoint_stores env config req (bytes "upload") w
  rw [handleUploadRequest]
  split
  · exact ⟨rfl, rfl⟩
  · split
    · exact ⟨rfl, rfl⟩
    · simp only []
      split
      · split <;> exact ⟨hauth.spools, hauth.staticCache⟩
      · split
        · exact ⟨hauth.spools, hauth.staticCache⟩
        · split <;> exact ⟨hauth.spools, hauth.staticCache⟩

theorem handleUploadRequest_adds :
    Adds (fun c => c.isAuthorize = true ∨ c.isUpload = true) w
      (handleUploadRequest env config tls req finish w).2 := by
  have hauth := (authorizeEndpoint_adds env config req (bytes "upload") w).mono
    (Q := fun c => c.isAuthorize = true ∨ c.isUpload = true) fun c hc => Or.inl hc
  rw [handleUploadRequest]
  split
  · exact Adds.of_eq rfl
  · split
    · exact Adds.of_eq rfl
    · simp only []
      split
      · split <;> exact hauth
      · split
        · exact hauth
        · split <;> exact hauth.trans (Adds.one rfl (Or.inr rfl))

theorem handlePhpScript_adds (path : Path) (requestUri method body contentType : Bytes)
    {Q : Path → Prop} (hQ : Q path) :
    Adds (ServesFrom Q) w
      (handlePhpScript env config path requestUri method body contentType w).2 := by
  rw [handlePhpScript]
  split
  simp only []
  split <;> exact Adds.one rfl ⟨path, Or.inr rfl, hQ⟩

theorem serveFile_adds (res : HttpResponse) (path : Path) {Q : Path → Prop} (hQ : Q path) :
    Adds (ServesFrom Q) w (serveFile env config res req path finish w).2 := by
  rw [serveFile]
  split
  · split
    · exact Adds.of_eq rfl
    · exact handlePhpScript_adds env config w path _ _ _ _ hQ
  · split
    · exact Adds.of_eq rfl
    · simp only []
      split
      · exact Adds.one rfl ⟨path, Or.inl rfl, hQ⟩
      · split <;> exact Adds.one rfl ⟨path, Or.inl rfl, hQ⟩

/-- Only a path that was resolved and is not forbidden is served. -/
theorem serveTarget_adds (res : HttpResponse) (host : Bytes) :
    Adds (ServesFrom fun p =>
        security.resolveSafePath env.files (selectDocumentRoot config host) req.target
          = .ok (some p) ∧
        isForbiddenFile env.files config (selectDocumentRoot config host) p = .ok false)
      w (serveTarget env config res req host finish w).2 := by
  rw [serveTarget]
  simp only []
  split
  · exact Adds.of_eq rfl
  · exact Adds.of_eq rfl
  · next safePath hsafe =>
      split
      · exact Adds.of_eq rfl
      · exact Adds.of_eq rfl
      · next hallowed =>
          split
          · exact Adds.of_eq rfl
          · split
            · exact Adds.of_eq rfl
            · split
              · exact Adds.of_eq rfl
              · exact Adds.of_eq rfl
              · exact serveFile_adds env config req finish w _ safePath ⟨hsafe, hallowed⟩

/-- What `makeResponse` reaches behind its parser. -/
theorem routeRequest_adds :
    Adds (fun c => c.isAuthorize = true ∨ c.isUpload = true ∨ ServesFrom (fun p =>
        security.resolveSafePath env.files
          (selectDocumentRoot config ((req.headers.lookup (bytes "host")).getD [])) req.target
          = .ok (some p) ∧
        isForbiddenFile env.files config
          (selectDocumentRoot config ((req.headers.lookup (bytes "host")).getD [])) p =
            .ok false) c)
      w (routeRequest env config tls req finish w).2 := by
  rw [routeRequest]
  simp only []
  split
  · exact Adds.of_eq rfl
  · split
    · exact Adds.of_eq rfl
    · split
      · exact Adds.of_eq rfl
      · split
        · exact (handleUploadRequest_adds env config tls req finish w).mono fun c hc =>
            hc.imp_right Or.inl
        · exact (serveTarget_adds env config req finish w _ _).mono fun c hc => Or.inr (Or.inr hc)

theorem makeResponse_calls (rawRequest method target : Bytes) :
    ∃ cs, (makeResponse env config rawRequest tls method target w).2.calls =
        w.calls ++ .makeResponse rawRequest :: cs ∧
      ∀ c ∈ cs, c.isAuthorize = true ∨ c.isUpload = true ∨ ∃ p,
        c = .staticFile p ∨ c = .handlePhpScript p := by
  rw [makeResponse]
  simp only []
  split
  · exact ⟨[], rfl, by simp⟩
  · obtain ⟨cs, hcs, hP⟩ := routeRequest_adds env config tls
      (acceptRequest config rawRequest).request
      (reply (orDash (acceptRequest config rawRequest).request.method)
        (orDash (acceptRequest config rawRequest).request.target))
      (w.call (.makeResponse rawRequest))
    refine ⟨cs, by rw [hcs]; simp, fun c hc => ?_⟩
    rcases hP c hc with h | h | ⟨p, h, -⟩
    · exact Or.inl h
    · exact Or.inr (Or.inl h)
    · exact Or.inr (Or.inr ⟨p, h⟩)

end Routing

/-! ## `handleClientStream` -/

section Stream

variable {env : ServerEnv} {config : ServerConfig} {tls : Bool} {clientIp : Bytes}
  {stream stream' : Connection} {headers : HeaderReadResult} {w : World}
  (hread : readHeadersOnly stream config = (.ok headers, stream'))
  (hok : (parseHeadersOnly headers.headerPart config.limits).ok = true)

include hread hok

theorem handleClientStream_admin
    (htarget : (parseHeadersOnly headers.headerPart config.limits).request.target
      = config.adminStatusEndpoint) :
    let req := (parseHeadersOnly headers.headerPart config.limits).request
    let out := handleAdminStatus env config tls clientIp req { w with calls := [] }
    handleClientStream env config tls clientIp stream w =
      (.ok (reply (orDash req.method) (orDash req.target) out.1), out.2) := by
  rw [handleClientStream, hread]
  simp only [handleHeaders]
  rw [if_neg (by simp [hok]), if_pos htarget]

theorem handleClientStream_upload
    (hadmin : (parseHeadersOnly headers.headerPart config.limits).request.target
      ≠ config.adminStatusEndpoint)
    (htarget : (parseHeadersOnly headers.headerPart config.limits).request.target
      = config.uploadEndpoint) :
    let req := (parseHeadersOnly headers.headerPart config.limits).request
    let out := handleStreamedUpload env config tls clientIp stream' headers.leftover req
      { w with calls := [] }
    handleClientStream env config tls clientIp stream w =
      (out.1.map (reply (orDash req.method) (orDash req.target)), out.2) := by
  rw [handleClientStream, hread]
  simp only [handleHeaders]
  rw [if_neg (by simp [hok]), if_neg hadmin, if_pos htarget]

theorem handleClientStream_routed
    (hadmin : (parseHeadersOnly headers.headerPart config.limits).request.target
      ≠ config.adminStatusEndpoint)
    (hupload : (parseHeadersOnly headers.headerPart config.limits).request.target
      ≠ config.uploadEndpoint) :
    let req := (parseHeadersOnly headers.headerPart config.limits).request
    handleClientStream env config tls clientIp stream w =
      match completeRequestInMemory stream' config headers with
      | .error e => (.error e, { w with calls := [] })
      | .ok rawRequest =>
          makeResponse env config rawRequest tls (orDash req.method) (orDash req.target)
            { w with calls := [] } := by
  rw [handleClientStream, hread]
  simp only [handleHeaders]
  rw [if_neg (by simp [hok]), if_neg hadmin]
  exact if_neg hupload

/-- The status page is made exactly for a request to its endpoint that is
granted it. -/
theorem adminStatus_mem_iff :
    .adminStatusResponse ∈ (handleClientStream env config tls clientIp stream w).2.calls ↔
      (parseHeadersOnly headers.headerPart config.limits).request.target
        = config.adminStatusEndpoint ∧
      AdminGranted env config (parseHeadersOnly headers.headerPart config.limits).request
        { w with calls := [] } := by
  by_cases hadmin : (parseHeadersOnly headers.headerPart config.limits).request.target
      = config.adminStatusEndpoint
  · rw [handleClientStream_admin hread hok hadmin]
    refine ⟨fun hc => ⟨hadmin, ?_⟩, fun ⟨_, hgrant⟩ => ?_⟩
    · by_contra hgrant
      rcases (handleAdminStatus_refused env config tls clientIp _ _ hgrant).of_mem hc with h | h
      · simp at h
      · cases h
    · simp only [handleAdminStatus_granted env config tls clientIp _ _ hgrant]
      exact List.mem_append_right _ (by simp)
  · refine ⟨fun hc => ?_, fun h => absurd h.1 hadmin⟩
    by_cases hupload : (parseHeadersOnly headers.headerPart config.limits).request.target
        = config.uploadEndpoint
    · rw [handleClientStream_upload hread hok hadmin hupload] at hc
      rcases (handleStreamedUpload_adds env config tls clientIp _ _ _ _).of_mem hc
        with h | h | ⟨h, -⟩
      · simp at h
      · cases h
      · cases h
    · rw [handleClientStream_routed hread hok hadmin hupload] at hc
      split at hc
      · simp at hc
      · next rawRequest _ =>
          obtain ⟨cs, hcs, hP⟩ := makeResponse_calls env config tls { w with calls := [] }
            rawRequest (orDash (parseHeadersOnly headers.headerPart config.limits).request.method)
            (orDash (parseHeadersOnly headers.headerPart config.limits).request.target)
          rw [hcs, List.nil_append, List.mem_cons] at hc
          rcases hc with h | h
          · cases h
          · rcases hP _ h with h | h | ⟨p, h | h⟩ <;> cases h

/-- A spool file reaches the upload parser only for a request to the upload
endpoint that is permitted. -/
theorem spoolUpload_mem {spool : Option Bytes}
    (hc : .saveUploadsFromSpoolFile spool ∈
      (handleClientStream env config tls clientIp stream w).2.calls) :
    let req := (parseHeadersOnly headers.headerPart config.limits).request
    req.target = config.uploadEndpoint ∧
      (authorizeEndpoint env config req (bytes "upload") { w with calls := [] }).1.allowed = true ∧
      ∀ a ∈ (authorizeEndpoint env config req (bytes "upload") { w with calls := [] }).2.calls,
        a ∈ (handleClientStream env config tls clientIp stream w).2.calls := by
  by_cases hadmin : (parseHeadersOnly headers.headerPart config.limits).request.target
      = config.adminStatusEndpoint
  · rw [handleClientStream_admin hread hok hadmin] at hc
    by_cases hgrant : AdminGranted env config
        (parseHeadersOnly headers.headerPart config.limits).request { w with calls := [] }
    · simp only [handleAdminStatus_granted env config tls clientIp _ _ hgrant] at hc
      rcases List.mem_append.mp hc with h | h
      · rcases (authorizeEndpoint_adds env config _ _ _).of_mem h with h | h
        · simp at h
        · cases h
      · simp at h
    · rcases (handleAdminStatus_refused env config tls clientIp _ _ hgrant).of_mem hc with h | h
      · simp at h
      · cases h
  · by_cases hupload : (parseHeadersOnly headers.headerPart config.limits).request.target
        = config.uploadEndpoint
    · rw [handleClientStream_upload hread hok hadmin hupload] at hc ⊢
      rcases (handleStreamedUpload_adds env config tls clientIp _ _ _ _).of_mem hc
        with h | h | ⟨-, hallowed, hkept⟩
      · simp at h
      · cases h
      · exact ⟨hupload, hallowed, hkept⟩
    · rw [handleClientStream_routed hread hok hadmin hupload] at hc
      split at hc
      · simp at hc
      · next rawRequest _ =>
          obtain ⟨cs, hcs, hP⟩ := makeResponse_calls env config tls { w with calls := [] }
            rawRequest (orDash (parseHeadersOnly headers.headerPart config.limits).request.method)
            (orDash (parseHeadersOnly headers.headerPart config.limits).request.target)
          rw [hcs, List.nil_append, List.mem_cons] at hc
          rcases hc with h | h
          · cases h
          · rcases hP _ h with h | h | ⟨p, h | h⟩ <;> cases h

omit hread hok

/-- A request that makes a call has headers, and they parse. -/
theorem headers_of_call {c : Call}
    (hc : c ∈ (handleClientStream env config tls clientIp stream w).2.calls) :
    ∃ headers stream', readHeadersOnly stream config = (.ok headers, stream') ∧
      (parseHeadersOnly headers.headerPart config.limits).ok = true := by
  simp only [handleClientStream] at hc
  split at hc
  · simp at hc
  · next headers stream' hread =>
      refine ⟨headers, stream', hread, ?_⟩
      by_contra hok
      simp only [handleHeaders] at hc
      rw [if_pos (by simpa using hok)] at hc
      simp at hc

end Stream

/-! ## Surroundings in which nothing happens -/

/-- A file system without links and without files. -/
def noFiles : Files :=
  { weaklyCanonical := fun p => .ok p
    isDirectory := fun _ => .ok false
    found := fun _ => .ok false
    isRegularFile := fun _ => .ok false
    fileSize := fun _ => none
    lastWriteTime := fun _ => none
    content := fun _ => none }

def quietEnv : ServerEnv :=
  { files := noFiles
    authorization := fun _ =>
      { now := 0, steady := 0, epoch := 0
        secrets := fun _ access => match access with
          | .found => false
          | .writeTime => .error []
          | .content => none }
    upload := { micros := fun n => n }
    backend := { exchange := fun _ => .error [] } }

/-- A server that has just started, without token rules. -/
def freshWorld : World := World.initial {} { inlineTokens := [], secretsFile := [] }

end HydrogenHttpd.Ref
