import HydrogenHttpd.Proofs.AccessInheritance
import HydrogenHttpd.Proofs.ResponseFields

/-!
# Conditional requests

A request that names the entity tag of the cached file is answered 304, and
takes the same way through `makeResponse` as one that does not: the two part
at the last test. There the response loses its body, and with the body what
`headersToString` takes its `Content-Length` from. All other fields are the
same, so that the two describe one representation exactly when it is empty.
The answer to HEAD keeps the body for the sake of the length and sets
`headOnly`.
-/

namespace HydrogenHttpd.Ref

open Base

/-- `req'` is `req` with the field `If-None-Match: etag`. -/
structure Conditional (etag : Bytes) (req req' : HttpRequest) : Prop where
  method : req'.method = req.method
  target : req'.target = req.target
  body : req'.body = req.body
  contentLength : req'.contentLength = req.contentLength
  headers : ∀ name, name ≠ bytes "if-none-match" →
    req'.headers.lookup name = req.headers.lookup name
  ifNoneMatch : req'.headers.lookup (bytes "if-none-match") = some etag

theorem conditional_put (etag : Bytes) (req : HttpRequest) :
    Conditional etag req
      { req with headers := put (bytes "if-none-match") etag req.headers } where
  method := rfl
  target := rfl
  body := rfl
  contentLength := rfl
  headers _ hname := lookup_put_of_ne hname etag req.headers
  ifNoneMatch := lookup_put_self (bytes "if-none-match") etag req.headers

/-- What the 304 sets. -/
def HttpResponse.notModified (res : HttpResponse) : HttpResponse :=
  { res with status := 304, reason := bytes "Not Modified", body := [], sharedBody := none }

/-- The values of the fields with a name. -/
def HttpResponse.values (res : HttpResponse) (name : Bytes) : List Bytes :=
  (res.fields.filter fun h => lowercase h.1 == name).map (·.2)

/-- Every field that both responses have has the same values in both. -/
def SameFields (res res' : HttpResponse) : Prop :=
  ∀ name, res.values name ≠ [] → res'.values name ≠ [] → res.values name = res'.values name

section Route

variable {env : ServerEnv} {config : ServerConfig} {tls : Bool} {req req' : HttpRequest}
  {etag body : Bytes} {w w' : World}

/-- Given a response with a shared body, the conditional request is answered
with the 304 made from it. -/
theorem serveFile_conditional (hsame : Conditional etag req req') {res : HttpResponse}
    (hres : res.sharedBody = none) (hcache : w'.staticCache = w.staticCache) {path : Path}
    {m t : Bytes}
    (hbody : (serveFile env config res req path (reply m t) w).1.response.sharedBody = some body)
    (hetag : (serveFile env config res req path (reply m t) w).1.response.extraHeaders.lookup
      (bytes "ETag") = some etag) :
    (serveFile env config res req' path (reply m t) w').1 =
      reply m t (serveFile env config res req path (reply m t) w).1.response.notModified := by
  rw [serveFile] at hbody hetag ⊢
  rw [serveFile]
  split at hbody
  · split at hbody
    · rw [reply, HttpResponse.forbidden, HttpResponse.answer, hres] at hbody
      cases hbody
    · simp only [reply, hres] at hbody
      cases hbody
  next hstatic =>
    rw [if_neg hstatic] at hetag ⊢
    split at hbody
    · rw [reply, HttpResponse.methodNotAllowed, HttpResponse.answer, hres] at hbody
      cases hbody
    next hfetched =>
      rw [if_neg hfetched] at hetag ⊢
      rw [if_neg hstatic, if_neg (by rw [hsame.method]; exact hfetched)]
      simp only [World.call, hcache] at hbody hetag ⊢
      rcases hget : w.staticCache.get env.files env.hash env.cacheNow path with
        ⟨found, staticCache⟩
      rw [hget] at hbody hetag
      cases found with
      | none =>
          simp only [reply, HttpResponse.answer, hres] at hbody
          cases hbody
      | some cached =>
          simp only [] at hbody hetag ⊢
          split at hbody
          · cases hbody
          next hother =>
            rw [if_neg hother] at hetag ⊢
            have htag : cached.etag = etag := by
              simpa only [reply, lookup_put_self, Option.some.injEq] using hetag
            rw [if_pos (by rw [hsame.ifNoneMatch, htag])]
            rfl

theorem serveTarget_conditional (hsame : Conditional etag req req') {res : HttpResponse}
    (hres : res.sharedBody = none) (hcache : w'.staticCache = w.staticCache) {host m t : Bytes}
    {r : Reply} (h : (serveTarget env config res req host (reply m t) w).1 = .ok r)
    (hbody : r.response.sharedBody = some body)
    (hetag : r.response.extraHeaders.lookup (bytes "ETag") = some etag) :
    (serveTarget env config res req' host (reply m t) w').1 =
      .ok (reply m t r.response.notModified) := by
  have hplain : ∀ {res' : HttpResponse}, r = reply m t res' → res'.sharedBody = none → False := by
    rintro res' rfl hnone
    rw [reply, hnone] at hbody
    cases hbody
  rw [serveTarget] at h ⊢
  simp only [hsame.target, hsame.method] at h ⊢
  cases hpath : security.resolveSafePath env.files (selectDocumentRoot config host) req.target with
  | error e => rw [hpath] at h; cases h
  | ok found =>
  cases found with
  | none =>
      rw [hpath] at h
      cases h
      exact (hplain rfl hres).elim
  | some path =>
  rw [hpath] at h
  simp only [] at h ⊢
  cases hforbidden : isForbiddenFile env.files config (selectDocumentRoot config host) path with
  | error e => rw [hforbidden] at h; cases h
  | ok forbidden =>
  cases forbidden with
  | true =>
      rw [hforbidden] at h
      cases h
      exact (hplain rfl hres).elim
  | false =>
  rw [hforbidden] at h
  simp only [] at h ⊢
  cases hrules : accessRules env.files config (selectDocumentRoot config host) path with
  | error e => rw [hrules] at h; cases h
  | ok rules =>
  rw [hrules] at h
  simp only [] at h ⊢
  split at h
  · cases h
    exact (hplain rfl hres).elim
  next hdeny =>
    rw [if_neg hdeny]
    cases hfile : existingFile env.files path with
    | error e => rw [hfile] at h; cases h
    | ok existing =>
    cases existing with
    | false =>
        rw [hfile] at h
        cases h
        exact (hplain rfl hres).elim
    | true =>
        rw [hfile] at h
        cases h
        refine congrArg Except.ok (serveFile_conditional hsame ?_ hcache hbody hetag)
        exact hres

/-- `handleUploadRequest` shares no body. -/
theorem handleUploadRequest_sharedBody {m t : Bytes} {r : Reply}
    (h : (handleUploadRequest env config tls req (reply m t) w).1 = .ok r) :
    r.response.sharedBody = none := by
  rw [handleUploadRequest] at h
  split at h
  · cases h; rfl
  · split at h
    · cases h; rfl
    · simp only [] at h
      split at h
      · split at h <;> cases h <;> rfl
      · split at h
        · cases h; rfl
        · split at h
          · cases h
          next result _ _ =>
            cases h
            rw [reply, uploadResponse]
            split <;> rfl

theorem routeRequest_conditional (hsame : Conditional etag req req')
    (hcache : w'.staticCache = w.staticCache) {m t : Bytes} {r : Reply}
    (h : (routeRequest env config tls req (reply m t) w).1 = .ok r)
    (hbody : r.response.sharedBody = some body)
    (hetag : r.response.extraHeaders.lookup (bytes "ETag") = some etag) :
    (routeRequest env config tls req' (reply m t) w').1 =
      .ok (reply m t r.response.notModified) := by
  have hplain : ∀ {res' : HttpResponse}, r = reply m t res' → res'.sharedBody = none → False := by
    rintro res' rfl hnone
    rw [reply, hnone] at hbody
    cases hbody
  rw [routeRequest] at h ⊢
  simp only [hsame.method, hsame.contentLength, hsame.target,
    hsame.headers (bytes "host") (by decide)] at h ⊢
  split at h
  · cases h
    exact (hplain rfl rfl).elim
  next hmethod =>
    rw [if_neg hmethod]
    split at h
    · cases h
      exact (hplain rfl rfl).elim
    next hexpected =>
      rw [if_neg hexpected]
      split at h
      · cases h
        exact (hplain rfl rfl).elim
      next hdirect =>
        rw [if_neg hdirect]
        split at h
        · rw [handleUploadRequest_sharedBody h] at hbody
          cases hbody
        next hupload =>
          rw [if_neg hupload]
          exact serveTarget_conditional hsame rfl hcache h hbody hetag

end Route

/-! ## What the two describe -/

/-- The fields of the two differ in the length alone, which no field before it
says. -/
theorem notModified_fields (res : HttpResponse) :
    ∃ front back, res.fields = front ++ (bytes "Content-Length", decimal res.bodySize) :: back ∧
      res.notModified.fields = front ++ (bytes "Content-Length", decimal 0) :: back ∧
      ∀ h ∈ front, lowercase h.1 ≠ bytes "content-length" := by
  refine ⟨(if res.exposeServerHeader then [(bytes "Server", bytes "HydrogenHttpd")] else []) ++
    [(bytes "Connection", bytes "close")],
    res.fields.drop (if res.exposeServerHeader then 3 else 2), ?_, ?_, ?_⟩
  · cases h : res.exposeServerHeader <;> simp [HttpResponse.fields, HttpResponse.ownFields, h]
  · cases h : res.exposeServerHeader <;>
      simp [HttpResponse.fields, HttpResponse.ownFields, HttpResponse.notModified,
        HttpResponse.bodySize, h]
  · have hserver : lowercase (bytes "Server") ≠ bytes "content-length" := by decide
    have hconnection : lowercase (bytes "Connection") ≠ bytes "content-length" := by decide
    cases res.exposeServerHeader <;> simp [hserver, hconnection]

theorem notModified_values (res : HttpResponse) :
    (∀ name, name ≠ bytes "content-length" → res.notModified.values name = res.values name) ∧
      ∃ others, res.values (bytes "content-length") = decimal res.bodySize :: others ∧
        res.notModified.values (bytes "content-length") = decimal 0 :: others := by
  obtain ⟨front, back, hfields, hfields', hfront⟩ := notModified_fields res
  have hlength : lowercase (bytes "Content-Length") = bytes "content-length" := by decide
  refine ⟨fun name hname => ?_,
    (back.filter fun h => lowercase h.1 == bytes "content-length").map (·.2), ?_, ?_⟩
  · have hother : (lowercase (bytes "Content-Length") == name) = false := by
      rw [hlength]
      simpa using Ne.symm hname
    simp [HttpResponse.values, hfields, hfields', hother]
  · have hnone : (front.filter fun h => lowercase h.1 == bytes "content-length") = [] :=
      List.filter_eq_nil_iff.mpr fun h hh => by simpa using hfront h hh
    rw [HttpResponse.values, hfields, List.filter_append, hnone,
      List.filter_cons_of_pos (by simp [hlength])]
    rfl
  · have hnone : (front.filter fun h => lowercase h.1 == bytes "content-length") = [] :=
      List.filter_eq_nil_iff.mpr fun h hh => by simpa using hfront h hh
    rw [HttpResponse.values, hfields', List.filter_append, hnone,
      List.filter_cons_of_pos (by simp [hlength])]
    rfl

/-- A response with a shared body and the 304 made from it describe the same
representation when the body is empty. -/
theorem sameFields_notModified {res : HttpResponse} {body : Bytes}
    (hbody : res.sharedBody = some body) : SameFields res res.notModified ↔ body = [] := by
  obtain ⟨hother, others, hlength, hlength'⟩ := notModified_values res
  have hsize : res.bodySize = body.length := by rw [HttpResponse.bodySize, hbody]
  constructor
  · intro h
    have hsame := h (bytes "content-length") (by rw [hlength]; simp) (by rw [hlength']; simp)
    rw [hlength, hlength', List.cons.injEq] at hsame
    have hzero := decimal_injective hsame.1
    rw [hsize] at hzero
    exact List.length_eq_zero_iff.mp hzero
  · rintro rfl name - -
    by_cases hname : name = bytes "content-length"
    · rw [hname, hlength, hlength', hsize]
      rfl
    · exact (hother name hname).symm

/-! ## The main result -/

/-- A request that is answered with a body from the static cache, made
conditional on the entity tag of the answer, is answered 304 without a body. The two answers agree
in the fields they share exactly when the file is empty. -/
theorem conditional_get_iff (env : ServerEnv) (config : ServerConfig) (tls : Bool) (w : World)
    {rawRequest rawRequest' method target method' target' etag body : Bytes} {r : Reply}
    (h : (makeResponse env config rawRequest tls method target w).1 = .ok r)
    (hbody : r.response.sharedBody = some body)
    (hetag : r.response.extraHeaders.lookup (bytes "ETag") = some etag)
    (haccepted : (acceptRequest config rawRequest').ok = true)
    (hsame : Conditional etag (requestOf config rawRequest) (requestOf config rawRequest')) :
    ∃ r', (makeResponse env config rawRequest' tls method' target' w).1 = .ok r' ∧
      r'.status = 304 ∧ r'.response.status = 304 ∧ r'.response.bodyData = [] ∧
      (SameFields r.response r'.response ↔ body = []) := by
  have haccepted₀ : (acceptRequest config rawRequest).ok = true := by
    by_contra hno
    rw [makeResponse] at h
    simp only [hno, if_true] at h
    cases h
    cases hbody
  rw [makeResponse] at h
  simp only [haccepted₀, Bool.true_eq_false, if_false] at h
  have hsame : Conditional etag (acceptRequest config rawRequest).request
    (acceptRequest config rawRequest').request := hsame
  have hrouted := @routeRequest_conditional env config tls _ _ etag body
    (w.call (.makeResponse rawRequest)) (w.call (.makeResponse rawRequest')) hsame rfl _ _ _ h
    hbody hetag
  refine ⟨reply (orDash (acceptRequest config rawRequest).request.method)
    (orDash (acceptRequest config rawRequest).request.target) r.response.notModified,
    ?_, rfl, rfl, rfl, sameFields_notModified hbody⟩
  rw [makeResponse]
  simp only [haccepted, Bool.true_eq_false, if_false]
  rw [← hrouted, hsame.method, hsame.target]

/-- A site of an empty page and a page of five bytes. -/
def pagesEnv : ServerEnv :=
  { quietEnv with
    files := site [(Path.ofBytes (bytes "/www/empty.html"), []),
      (Path.ofBytes (bytes "/www/page.html"), bytes "hello")] }

def pagesConfig : ServerConfig := { defaultRoot := Path.ofBytes (bytes "/www") }

def pagesWorld : World := World.initial pagesConfig { inlineTokens := [], secretsFile := [] }

def pageGet (path headers : String) : Bytes :=
  bytes ("GET " ++ path ++ " HTTP/1.1\r\nHost: a\r\n" ++ headers ++ "\r\n")

theorem conditional_get_iff_emptyPage :
    ∃ r r',
      (makeResponse pagesEnv pagesConfig (pageGet "/empty.html" "") true [] [] pagesWorld).1 =
        .ok r ∧
      (makeResponse pagesEnv pagesConfig
        (pageGet "/empty.html" "If-None-Match: \"0-0\"\r\n") true [] [] pagesWorld).1 = .ok r' ∧
      r'.status = 304 ∧ SameFields r.response r'.response := by
  have hserved : (makeResponse pagesEnv pagesConfig (pageGet "/empty.html" "") true [] []
      pagesWorld).1.map (fun r => decide (r.response.sharedBody = some [] ∧
        r.response.extraHeaders.lookup (bytes "ETag") = some (bytes "\"0-0\""))) = .ok true := by
    decide +kernel
  have hrequest : requestOf pagesConfig (pageGet "/empty.html" "If-None-Match: \"0-0\"\r\n") =
      { requestOf pagesConfig (pageGet "/empty.html" "") with
        headers := put (bytes "if-none-match") (bytes "\"0-0\"")
          (requestOf pagesConfig (pageGet "/empty.html" "")).headers } := by
    decide +kernel
  cases h : (makeResponse pagesEnv pagesConfig (pageGet "/empty.html" "") true [] []
      pagesWorld).1 with
  | error e =>
      rw [h] at hserved
      cases hserved
  | ok r =>
      rw [h] at hserved
      obtain ⟨hbody, hetag⟩ := of_decide_eq_true
        (Except.ok.inj (show Except.ok _ = Except.ok true from hserved))
      obtain ⟨r', hr', hstatus, -, -, hiff⟩ := conditional_get_iff pagesEnv pagesConfig true
        pagesWorld h hbody hetag (by decide +kernel) (hrequest ▸ conditional_put _ _)
      exact ⟨r, r', rfl, hr', hstatus, hiff.mpr rfl⟩

/-- The 304 for a page of five bytes says that the page has none. -/
theorem conditional_length :
    ∃ r r',
      (makeResponse pagesEnv pagesConfig (pageGet "/page.html" "") true [] [] pagesWorld).1 =
        .ok r ∧
      (makeResponse pagesEnv pagesConfig
        (pageGet "/page.html" "If-None-Match: \"5-0\"\r\n") true [] [] pagesWorld).1 = .ok r' ∧
      r.status = 200 ∧ r'.status = 304 ∧
      r.response.values (bytes "etag") = [bytes "\"5-0\""] ∧
      r.response.values (bytes "content-length") = [bytes "5"] ∧
      r'.response.values (bytes "content-length") = [bytes "0"] ∧
      ¬ SameFields r.response r'.response := by
  have hfirst : (makeResponse pagesEnv pagesConfig (pageGet "/page.html" "") true [] []
      pagesWorld).1.map (fun r => decide (r.status = 200 ∧
        r.response.values (bytes "etag") = [bytes "\"5-0\""] ∧
        r.response.values (bytes "content-length") = [bytes "5"])) = .ok true := by
    decide +kernel
  have hsecond : (makeResponse pagesEnv pagesConfig
      (pageGet "/page.html" "If-None-Match: \"5-0\"\r\n") true [] [] pagesWorld).1.map
      (fun r => decide (r.status = 304 ∧
        r.response.values (bytes "content-length") = [bytes "0"])) = .ok true := by
    decide +kernel
  cases h : (makeResponse pagesEnv pagesConfig (pageGet "/page.html" "") true [] []
      pagesWorld).1 with
  | error e =>
      rw [h] at hfirst
      cases hfirst
  | ok r =>
  cases h' : (makeResponse pagesEnv pagesConfig
      (pageGet "/page.html" "If-None-Match: \"5-0\"\r\n") true [] [] pagesWorld).1 with
  | error e =>
      rw [h'] at hsecond
      cases hsecond
  | ok r' =>
      rw [h] at hfirst
      rw [h'] at hsecond
      obtain ⟨hstatus, hetag, hlength⟩ := of_decide_eq_true
        (Except.ok.inj (show Except.ok _ = Except.ok true from hfirst))
      obtain ⟨hstatus', hlength'⟩ := of_decide_eq_true
        (Except.ok.inj (show Except.ok _ = Except.ok true from hsecond))
      refine ⟨r, r', rfl, rfl, hstatus, hstatus', hetag, hlength, hlength', fun hsame => ?_⟩
      have hequal := hsame (bytes "content-length") (by rw [hlength]; simp) (by rw [hlength']; simp)
      rw [hlength, hlength'] at hequal
      exact absurd hequal (by decide)

end HydrogenHttpd.Ref
