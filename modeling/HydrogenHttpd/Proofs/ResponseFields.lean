import HydrogenHttpd.Proofs.Calls

/-!
# The fields of a response

`headersToString` writes a status line, the fields a response has of its own,
the extra ones, and an empty line. The own ones are always the same few, three
of them left out when the configuration or the connection has no use for them.
Where the extra ones of `makeResponse` come from is what the rest of this file
says: from the rule files, and from the redirect, the refusal of a token or the
static cache, of which at most one adds a field.
-/

namespace HydrogenHttpd.Ref

open Base

/-! ## The header block -/

/-- The line in front of the fields. -/
def HttpResponse.statusLine (res : HttpResponse) : Bytes :=
  bytes "HTTP/1.1 " ++ signedDecimal res.status ++ [space] ++ res.reason ++ crlf

/-- The fields every response has, and the three that may be missing. -/
def HttpResponse.ownFields (res : HttpResponse) : HeaderMap :=
  (if res.exposeServerHeader then [(bytes "Server", bytes "HydrogenHttpd")] else [])
    ++ [(bytes "Connection", bytes "close"),
        (bytes "Content-Length", decimal res.bodySize),
        (bytes "Content-Type", res.contentType)]
    ++ (if res.cacheControl.isEmpty then [] else [(bytes "Cache-Control", res.cacheControl)])
    ++ [(bytes "X-Content-Type-Options", bytes "nosniff"),
        (bytes "X-Frame-Options", bytes "DENY"),
        (bytes "X-XSS-Protection", bytes "0"),
        (bytes "Referrer-Policy", bytes "strict-origin-when-cross-origin"),
        (bytes "Permissions-Policy",
          bytes "geolocation=(), microphone=(), camera=(), payment=(), usb=(), interest-cohort=()"),
        (bytes "Cross-Origin-Opener-Policy", bytes "same-origin"),
        (bytes "Cross-Origin-Resource-Policy", bytes "same-origin"),
        (bytes "Content-Security-Policy",
          bytes ("default-src 'self'; object-src 'none'; frame-ancestors 'none'; " ++
            "base-uri 'self'; form-action 'self';"))]
    ++ (if res.tls then [(bytes "Strict-Transport-Security",
          bytes "max-age=31536000; includeSubDomains")] else [])

def HttpResponse.fields (res : HttpResponse) : HeaderMap := res.ownFields ++ res.extraHeaders

/-- The header block is the status line, a line for each field and an empty
line. -/
theorem headersToString_eq (res : HttpResponse) :
    res.headersToString =
      res.statusLine ++ res.fields.flatMap (fun h => headerField h.1 h.2) ++ crlf := by
  have hoptional : ∀ (b : Bool) (h : Bytes × Bytes),
      (if b then [h] else []).flatMap (fun h => headerField h.1 h.2) =
        if b then headerField h.1 h.2 else [] := by
    intro b h
    cases b <;> simp
  have hmissing : ∀ (b : Bool) (h : Bytes × Bytes),
      (if b then [] else [h]).flatMap (fun h => headerField h.1 h.2) =
        if b then [] else headerField h.1 h.2 := by
    intro b h
    cases b <;> simp
  unfold HttpResponse.headersToString HttpResponse.statusLine HttpResponse.fields
    HttpResponse.ownFields
  simp only [List.flatMap_append, List.flatMap_cons, List.flatMap_nil, hoptional, hmissing]
  -- the policy is written as two literals, and is none of the lemma's business
  generalize bytes ("default-src 'self'; object-src 'none'; frame-ancestors 'none'; " ++
    "base-uri 'self'; form-action 'self';") = policy
  simp only [List.append_assoc, List.nil_append]

theorem bodySize_eq (res : HttpResponse) : res.bodySize = res.bodyData.length := by
  rw [HttpResponse.bodySize, HttpResponse.bodyData]
  cases res.sharedBody <;> rfl

/-- The names of the own fields, by what decides about the three. -/
def ownNames (exposeServerHeader cacheControl tls : Bool) : List Bytes :=
  (if exposeServerHeader then [bytes "Server"] else [])
    ++ [bytes "Connection", bytes "Content-Length", bytes "Content-Type"]
    ++ (if cacheControl then [bytes "Cache-Control"] else [])
    ++ [bytes "X-Content-Type-Options", bytes "X-Frame-Options", bytes "X-XSS-Protection",
        bytes "Referrer-Policy", bytes "Permissions-Policy", bytes "Cross-Origin-Opener-Policy",
        bytes "Cross-Origin-Resource-Policy", bytes "Content-Security-Policy"]
    ++ (if tls then [bytes "Strict-Transport-Security"] else [])

theorem ownFields_names (res : HttpResponse) :
    res.ownFields.map (·.1) =
      ownNames res.exposeServerHeader (!res.cacheControl.isEmpty) res.tls := by
  rw [HttpResponse.ownFields, ownNames]
  cases res.exposeServerHeader <;> cases res.cacheControl.isEmpty <;> cases res.tls <;> rfl

/-! ## Where the extra fields come from -/

section Located

variable (env : ServerEnv) (config : ServerConfig) (rawRequest : Bytes) (tls : Bool)

/-- The request of a raw request that the parser accepts. -/
def requestOf : HttpRequest := (acceptRequest config rawRequest).request

/-- The request gets as far as the file system, at this path below this root. -/
structure Located (root path : Path) : Prop where
  accepted : (acceptRequest config rawRequest).ok = true
  method : security.isMethodAllowed (requestOf config rawRequest).method = true
  body : ¬ (0 < (requestOf config rawRequest).contentLength ∧
    (requestOf config rawRequest).method ≠ bytes "POST")
  direct : ¬ (tls = false ∧ config.forceHttps = true)
  target : (requestOf config rawRequest).target ≠ config.uploadEndpoint
  root_eq : root = selectDocumentRoot config
    (((requestOf config rawRequest).headers.lookup (bytes "host")).getD [])
  resolved : security.resolveSafePath env.files root (requestOf config rawRequest).target =
    .ok (some path)
  visible : isForbiddenFile env.files config root path = .ok false

/-- What is at the path is served from the static cache. -/
structure FromCache (w : World) (root path : Path) : Prop where
  allowed : ∃ rules, accessRules env.files config root path = .ok rules ∧ rules.denyAll = false
  file : existingFile env.files path = .ok true
  static : path.extension ≠ config.phpExtension
  fetched : (requestOf config rawRequest).method ≠ bytes "POST"
  cached : ((w.staticCache.get env.files env.hash env.cacheNow path).1).isSome = true

end Located

/-- The fields the rules add to a response. -/
def ruleFields (rules : HtaccessRules) : HeaderMap :=
  rules.responseHeaders.foldl (fun headers h => put h.1 h.2 headers) []

/-- A response that no rule file has a part in: at most one extra field, which
says where to go or how to come back. -/
structure OwnFraming (config : ServerConfig) (tls : Bool) (host target : Bytes)
    (res : HttpResponse) : Prop where
  tls : res.tls = tls
  server : res.exposeServerHeader = config.exposeServerHeader
  cacheControl : res.cacheControl = bytes "no-store"
  extra : res.extraHeaders = [] ∨
    res.extraHeaders = [(bytes "Location", httpsRedirectLocation config host target)] ∨
    ∃ challenge, res.extraHeaders = [(bytes "WWW-Authenticate", challenge)]

section OwnFraming

variable {env : ServerEnv} {config : ServerConfig} {tls : Bool} {host target : Bytes}

theorem emptyResponse_ownFraming (config : ServerConfig) (tls : Bool) (host target : Bytes) :
    OwnFraming config tls host target (emptyResponse config tls) :=
  ⟨rfl, rfl, rfl, Or.inl rfl⟩

/-- What a refusal sets is none of it. -/
theorem OwnFraming.of_eq {res res' : HttpResponse} (h : OwnFraming config tls host target res)
    (htls : res'.tls = res.tls) (hserver : res'.exposeServerHeader = res.exposeServerHeader)
    (hcache : res'.cacheControl = res.cacheControl)
    (hextra : res'.extraHeaders = res.extraHeaders) :
    OwnFraming config tls host target res' :=
  ⟨htls.trans h.tls, hserver.trans h.server, hcache.trans h.cacheControl, hextra ▸ h.extra⟩

theorem unauthorizedResponse_ownFraming (config : ServerConfig) (tls invalidToken : Bool)
    (host target : Bytes) :
    OwnFraming config tls host target (unauthorizedResponse config tls invalidToken) :=
  ⟨rfl, rfl, rfl, Or.inr (Or.inr ⟨_, rfl⟩)⟩

theorem uploadResponse_ownFraming {res : HttpResponse} (h : OwnFraming config tls host target res)
    (streamed : Bool) (result : MultipartResult) :
    OwnFraming config tls host target (uploadResponse res streamed result) := by
  rw [uploadResponse]
  split
  · exact h.of_eq rfl rfl rfl rfl
  · exact h.of_eq rfl rfl rfl rfl

theorem handleUploadRequest_ownFraming {req : HttpRequest} {m t : Bytes} {w : World} {r : Reply}
    (h : (handleUploadRequest env config tls req (reply m t) w).1 = .ok r) :
    OwnFraming config tls host target r.response := by
  have hempty := emptyResponse_ownFraming config tls host target
  simp only [handleUploadRequest] at h
  split at h
  · cases h
    exact hempty.of_eq rfl rfl rfl rfl
  · split at h
    · cases h
      exact hempty.of_eq rfl rfl rfl rfl
    · split at h
      · split at h
        · cases h
          exact hempty.of_eq rfl rfl rfl rfl
        · cases h
          exact unauthorizedResponse_ownFraming config tls _ host target
      · split at h
        · cases h
          exact hempty.of_eq rfl rfl rfl rfl
        · split at h
          · cases h
          · cases h
            exact uploadResponse_ownFraming hempty false _

end OwnFraming

/-- What the path of a request adds to the fields of its response: the fields of
the rules, and those of the static cache if the file comes from there. -/
structure PathFraming (env : ServerEnv) (config : ServerConfig) (rawRequest : Bytes) (tls : Bool)
    (w : World) (root path : Path) (rules : HtaccessRules) (res : HttpResponse) : Prop where
  tls : res.tls = tls
  server : res.exposeServerHeader = config.exposeServerHeader
  fromCache : FromCache env config rawRequest w root path →
    res.cacheControl = config.staticCacheControl ∧
      ∃ cached, (w.staticCache.get env.files env.hash env.cacheNow path).1 = some cached ∧
        res.extraHeaders = put (bytes "ETag") cached.etag (ruleFields rules)
  otherwise : ¬ FromCache env config rawRequest w root path →
    res.cacheControl = bytes "no-store" ∧ res.extraHeaders = ruleFields rules

section PathFraming

variable {env : ServerEnv} {config : ServerConfig} {rawRequest : Bytes} {tls : Bool} {w : World}
  {root path : Path} {rules : HtaccessRules} {res : HttpResponse}

/-- The response of a path that is not served from the cache. -/
theorem pathFraming_of_not_cached (htls : res.tls = tls)
    (hserver : res.exposeServerHeader = config.exposeServerHeader)
    (hcache : res.cacheControl = bytes "no-store") (hextra : res.extraHeaders = ruleFields rules)
    (hnot : ¬ FromCache env config rawRequest w root path) :
    PathFraming env config rawRequest tls w root path rules res :=
  ⟨htls, hserver, fun h => absurd h hnot, fun _ => ⟨hcache, hextra⟩⟩

theorem serveFile_pathFraming (hrules : accessRules env.files config root path = .ok rules)
    (hdeny : rules.denyAll = false) (hfile : existingFile env.files path = .ok true)
    (htls : res.tls = tls) (hserver : res.exposeServerHeader = config.exposeServerHeader)
    (hcache : res.cacheControl = bytes "no-store") (hextra : res.extraHeaders = ruleFields rules)
    {w' : World} (hw : w'.staticCache = w.staticCache) (m t : Bytes) :
    PathFraming env config rawRequest tls w root path rules
      (serveFile env config res (requestOf config rawRequest) path (reply m t) w').1.response := by
  rw [serveFile]
  split
  · next hphp =>
      have hnot : ¬ FromCache env config rawRequest w root path := fun h => h.static hphp
      split
      · exact pathFraming_of_not_cached htls hserver hcache hextra hnot
      · exact pathFraming_of_not_cached htls hserver hcache hextra hnot
  · next hstatic =>
      split
      · next hpost =>
          exact pathFraming_of_not_cached htls hserver hcache hextra fun h => h.fetched hpost
      · next hfetched =>
          simp only [World.call]
          rw [hw]
          cases hget : w.staticCache.get env.files env.hash env.cacheNow path with
          | mk found staticCache =>
          cases found with
          | none =>
              refine pathFraming_of_not_cached htls hserver rfl hextra fun h => ?_
              have hsome := h.cached
              rw [hget] at hsome
              cases hsome
          | some cached =>
              have hfrom : FromCache env config rawRequest w root path :=
                ⟨⟨rules, hrules, hdeny⟩, hfile, hstatic, hfetched, by rw [hget]; rfl⟩
              have hput := congrArg (put (bytes "ETag") cached.etag) hextra
              simp only []
              split
              · exact ⟨htls, hserver, fun _ => ⟨rfl, cached, by rw [hget], hput⟩,
                  fun h => absurd hfrom h⟩
              · exact ⟨htls, hserver, fun _ => ⟨rfl, cached, by rw [hget], hput⟩,
                  fun h => absurd hfrom h⟩

/-- What `serveTarget` does not refuse at once comes from a path. -/
theorem serveTarget_fields {m t host : Bytes} {w' : World} {r : Reply}
    (hempty : OwnFraming config tls host (requestOf config rawRequest).target
      (emptyResponse config tls)) (hw : w'.staticCache = w.staticCache)
    (h : (serveTarget env config (emptyResponse config tls) (requestOf config rawRequest) host
      (reply m t) w').1 = .ok r) :
    (∃ path rules,
      security.resolveSafePath env.files (selectDocumentRoot config host)
        (requestOf config rawRequest).target = .ok (some path) ∧
      isForbiddenFile env.files config (selectDocumentRoot config host) path = .ok false ∧
      accessRules env.files config (selectDocumentRoot config host) path = .ok rules ∧
      PathFraming env config rawRequest tls w (selectDocumentRoot config host) path rules
        r.response) ∨
    ((∀ path, security.resolveSafePath env.files (selectDocumentRoot config host)
        (requestOf config rawRequest).target = .ok (some path) →
      isForbiddenFile env.files config (selectDocumentRoot config host) path ≠ .ok false) ∧
      OwnFraming config tls host (requestOf config rawRequest).target r.response) := by
  simp only [serveTarget] at h
  split at h
  · cases h
  · next hnone =>
      cases h
      refine Or.inr ⟨fun path hp => ?_, hempty.of_eq rfl rfl rfl rfl⟩
      rw [hnone] at hp
      cases hp
  · next safePath hsafe =>
      split at h
      · cases h
      · next hforbidden =>
          cases h
          refine Or.inr ⟨fun path hp => ?_, hempty.of_eq rfl rfl rfl rfl⟩
          rw [hsafe] at hp
          cases hp
          rw [hforbidden]
          intro hno
          cases hno
      · next hvisible =>
          split at h
          · cases h
          · next rules hrules =>
              refine Or.inl ⟨safePath, rules, hsafe, hvisible, hrules, ?_⟩
              split at h
              · next hdenied =>
                  cases h
                  refine pathFraming_of_not_cached rfl rfl rfl rfl fun hfrom => ?_
                  obtain ⟨allowed, hallowed, hgranted⟩ := hfrom.allowed
                  rw [hrules] at hallowed
                  cases hallowed
                  rw [hgranted] at hdenied
                  cases hdenied
              · next hgranted =>
                  split at h
                  · cases h
                  · next hmissing =>
                      cases h
                      refine pathFraming_of_not_cached rfl rfl rfl rfl fun hfrom => ?_
                      have hfile := hfrom.file
                      rw [hmissing] at hfile
                      cases hfile
                  · next hfile =>
                      cases h
                      refine serveFile_pathFraming hrules (by simpa using hgranted) hfile ?_ ?_ ?_
                        ?_ hw m t
                      · rfl
                      · rfl
                      · rfl
                      · rfl

/-- A response of `makeResponse` comes from a path, or no rule file has a part
in it. -/
theorem makeResponse_fields {m t : Bytes} {r : Reply}
    (h : (makeResponse env config rawRequest tls m t w).1 = .ok r) :
    (∃ root path rules, Located env config rawRequest tls root path ∧
      accessRules env.files config root path = .ok rules ∧
      PathFraming env config rawRequest tls w root path rules r.response) ∨
    ((∀ root path, ¬ Located env config rawRequest tls root path) ∧
      OwnFraming config tls
        (((requestOf config rawRequest).headers.lookup (bytes "host")).getD [])
        (requestOf config rawRequest).target r.response) := by
  have hempty := emptyResponse_ownFraming config tls
    (((requestOf config rawRequest).headers.lookup (bytes "host")).getD [])
    (requestOf config rawRequest).target
  simp only [makeResponse] at h
  split at h
  · next hok =>
      cases h
      exact Or.inr ⟨fun _ _ hl => by simp [hl.accepted] at hok, hempty.of_eq rfl rfl rfl rfl⟩
  · next hok =>
      rw [Bool.not_eq_false] at hok
      have hreq : (acceptRequest config rawRequest).request = requestOf config rawRequest := rfl
      simp only [routeRequest, hreq] at h
      split at h
      · next hmethod =>
          cases h
          exact Or.inr ⟨fun _ _ hl => by simp [hl.method] at hmethod,
            hempty.of_eq rfl rfl rfl rfl⟩
      · next hmethod =>
          split at h
          · next hbody =>
              cases h
              exact Or.inr ⟨fun _ _ hl => hl.body hbody, hempty.of_eq rfl rfl rfl rfl⟩
          · next hbody =>
              split at h
              · next hredirect =>
                  cases h
                  exact Or.inr ⟨fun _ _ hl => hl.direct hredirect,
                    ⟨rfl, rfl, rfl, Or.inr (Or.inl rfl)⟩⟩
              · next hdirect =>
                  split at h
                  · next hupload =>
                      exact Or.inr ⟨fun _ _ hl => hl.target hupload,
                        handleUploadRequest_ownFraming h⟩
                  · next htarget =>
                      have hlocated := fun path hresolved hvisible =>
                        (⟨hok, by simpa using hmethod, hbody, hdirect, htarget, rfl, hresolved,
                          hvisible⟩ : Located env config rawRequest tls _ path)
                      have hw : (w.call (.makeResponse rawRequest)).staticCache = w.staticCache :=
                        rfl
                      rcases serveTarget_fields hempty hw h with
                        ⟨path, rules, hsafe, hvisible, hrules, hframing⟩ | ⟨hno, hown⟩
                      · exact Or.inl ⟨_, path, rules, hlocated path hsafe hvisible, hrules,
                          hframing⟩
                      · refine Or.inr ⟨fun root path hl => ?_, hown⟩
                        have hroot := hl.root_eq
                        subst hroot
                        exact hno path hl.resolved hl.visible

end PathFraming

end HydrogenHttpd.Ref
