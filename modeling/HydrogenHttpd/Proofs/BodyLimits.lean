import HydrogenHttpd.Proofs.Calls
import HydrogenHttpd.Proofs.DeclaredLength
import HydrogenHttpd.Proofs.EndpointGates

/-!
# How large a body may be

Three checks are made on the size of a request: the header section alone
against `maxRequestBytes`, the declared length against `maxBodyBytes`, and, at
the door of `makeResponse`, the two together against `maxRequestBytes` again.
So a body within its own limit is refused when the request as a whole is over
the limit that is meant for headers. Besides, the strict parser that follows
refuses control characters in header values, and a `Content-Length` line
without a value makes the reader leave the body where it is.
-/

namespace HydrogenHttpd.Ref

open Base Spec

/-- The request that reached `makeResponse` passed its checks, with this body. -/
def BodyAccepted (config : ServerConfig) (out : World) (body : Bytes) : Prop :=
  ∃ rawRequest, .makeResponse rawRequest ∈ out.calls ∧
    (acceptRequest config rawRequest).ok = true ∧
    (acceptRequest config rawRequest).request.body = body

/-- The request a call of `makeResponse` was recorded with. -/
theorem makeResponse_mem_iff {env : ServerEnv} {config : ServerConfig} {tls : Bool}
    {rawRequest method target : Bytes} {w : World} {raw : Bytes} :
    Call.makeResponse raw ∈
        (makeResponse env config rawRequest tls method target { w with calls := [] }).2.calls ↔
      raw = rawRequest := by
  obtain ⟨cs, hcs, hP⟩ := makeResponse_calls env config tls { w with calls := [] } rawRequest
    method target
  rw [hcs, List.nil_append, List.mem_cons]
  constructor
  · intro h
    rcases h with h | h
    · cases h; rfl
    · rcases hP _ h with h | h | ⟨p, h | h⟩ <;> cases h
  · intro h
    exact Or.inl (by rw [h])

/-- What `makeResponse` makes of a section that parsed and the bytes that were
read behind it: the size of both, the control characters, and whether the
bytes suffice. -/
theorem acceptRequest_of_parsed {config : ServerConfig} {h body : Bytes} (hend : EndsAtBlank h)
    (hok : (parseHeadersOnly h config.limits).ok = true) :
    let req := (parseHeadersOnly h config.limits).request
    ((acceptRequest config (h ++ body)).ok = true ↔
      h.length + body.length ≤ config.maxRequestBytes ∧
      (∀ f ∈ fieldsOf h, hasControl f = false) ∧
      (h.length + req.contentLength) % 2 ^ 64 ≤ h.length + body.length) ∧
    ((acceptRequest config (h ++ body)).ok = true →
      (acceptRequest config (h ++ body)).request =
        { req with body := body.take req.contentLength }) := by
  have hne : h ++ body ≠ [] := by
    have := find?_length_le hend
    rw [show crlf2.length = 4 from rfl] at this
    exact List.append_ne_nil_of_left_ne_nil (List.ne_nil_of_length_pos (by omega)) _
  simp only [acceptRequest]
  by_cases hsize : config.maxRequestBytes < (h ++ body).length
  · rw [if_pos (Or.inr hsize)]
    rw [List.length_append] at hsize
    exact ⟨⟨nofun, fun hgood => by omega⟩, nofun⟩
  · rw [if_neg (by simp only [hne, false_or]; exact hsize)]
    rw [List.length_append] at hsize
    by_cases hctl : ∀ f ∈ fieldsOf h, hasControl f = false
    · have hparse := parse_of_parsed hend hok hctl body
      simp only [List.length_append] at hparse
      by_cases hshort : h.length + body.length
          < (h.length + (parseHeadersOnly h config.limits).request.contentLength) % 2 ^ 64
      · rw [if_pos hshort] at hparse
        rw [hparse]
        exact ⟨⟨nofun, fun hgood => by omega⟩, nofun⟩
      · rw [if_neg hshort] at hparse
        rw [hparse]
        exact ⟨⟨fun _ => ⟨by omega, hctl, by omega⟩, fun _ => rfl⟩, fun _ => rfl⟩
    · have hrefused := parse_of_control config.limits hend (by simpa using hctl) body
      rw [hrefused]
      exact ⟨⟨nofun, fun hgood => absurd hgood.2.1 hctl⟩,
        nofun⟩

/-- A request with a body, not to one of the two endpoints, whose headers
parse and whose body arrives in full: its body is accepted exactly when the
request as a whole is within the limit for headers, no header value holds a
control character and no `Content-Length` line is without a value. -/
theorem bodies_accepted_iff (env : ServerEnv) (config : ServerConfig) (tls : Bool)
    (clientIp : Bytes) (cuts : List Nat) (broken : Option Bytes) (w : World)
    {h body more : Bytes} (hend : EndsAtBlank h) (hsize : h.length ≤ config.maxRequestBytes)
    (hok : (parseHeadersOnly h config.limits).ok = true)
    (hadmin : (parseHeadersOnly h config.limits).request.target ≠ config.adminStatusEndpoint)
    (hupload : (parseHeadersOnly h config.limits).request.target ≠ config.uploadEndpoint)
    (hlen : (parseHeadersOnly h config.limits).request.contentLength = body.length)
    (hbody : body ≠ []) :
    BodyAccepted config (handleClientStream env config tls clientIp
        { pending := h ++ (body ++ more), cuts := cuts, failure := broken } w).2 body ↔
      h.length + body.length ≤ config.maxRequestBytes ∧
      (∀ f ∈ fieldsOf h, hasControl f = false) ∧ (∀ f ∈ fieldsOf h, emptyLength f = false) := by
  obtain ⟨leftover, stream', hread, hrest, hfail⟩ := readHeadersOnly_of_section
    { pending := h ++ (body ++ more), cuts := cuts, failure := broken } hend hsize rfl
  have hpos : body.length ≠ 0 := fun h0 => hbody (List.eq_nil_of_length_eq_zero h0)
  have hcomplete := completeRequestInMemory_of_parsed stream'
    { headerPart := h, leftover := leftover } hend hok
  rw [BodyAccepted, handleClientStream_routed hread hok hadmin hupload]
  simp only [hrest, hlen, hpos, or_false] at hcomplete
  rw [hcomplete]
  by_cases hempty : (fieldsOf h).any emptyLength = true
  · -- the body is left where it is, so the request has none
    rw [if_pos hempty]
    simp only [makeResponse_mem_iff]
    obtain ⟨hiff, hrequest⟩ := acceptRequest_of_parsed hend hok
    rw [List.append_nil] at hiff hrequest
    constructor
    · intro h
      obtain ⟨raw, hraw, haccept, hsame⟩ := h
      rw [hraw] at haccept hsame
      rw [hrequest haccept] at hsame
      simp only [List.take_nil] at hsame
      exact absurd hsame.symm hbody
    · intro h
      obtain ⟨_, _, hnone⟩ := h
      obtain ⟨f, hf, he⟩ := List.any_eq_true.mp hempty
      rw [hnone f hf] at he
      cases he
  · have hbodyOf : bodyOf "failed to read request body: " (body ++ more) stream'.failure
        body.length = .ok body := by
      cases stream'.failure <;> simp [bodyOf]
    rw [if_neg hempty, hbodyOf]
    simp only [Except.map, makeResponse_mem_iff]
    obtain ⟨hiff, hrequest⟩ := acceptRequest_of_parsed hend hok
    rw [hlen] at hiff hrequest
    have hnone : ∀ f ∈ fieldsOf h, emptyLength f = false := by simpa using hempty
    have hmod : (h.length + body.length) % 2 ^ 64 ≤ h.length + body.length := Nat.mod_le _ _
    constructor
    · intro h
      obtain ⟨raw, hraw, haccept, _⟩ := h
      rw [hraw] at haccept
      obtain ⟨hle, hctl, -⟩ := hiff.mp haccept
      exact ⟨hle, hctl, hnone⟩
    · intro h
      obtain ⟨hle, hctl, _⟩ := h
      have haccept := hiff.mpr ⟨hle, hctl, hmod⟩
      refine ⟨h ++ body, rfl, haccept, ?_⟩
      rw [hrequest haccept]
      simp

/-- A configuration file with the smallest limit for headers. -/
def smallHeadersConf : Bytes := bytes "max_request_bytes = 1024\n"

def smallHeadersEnv : ConfigEnv := { content := fun _ => some smallHeadersConf }

def smallHeadersConfig : ServerConfig :=
  chooseWorkers smallHeadersEnv (resolvePaths statusConfPath.parentPath { maxRequestBytes := 1024 })

def echoHead : Bytes := bytes "POST /echo.php HTTP/1.1\r\nHost: a\r\nContent-Length: 3\r\n\r\n"

theorem bodies_accepted_iff_echo :
    BodyAccepted smallHeadersConfig (handleClientStream quietEnv smallHeadersConfig true []
        { pending := echoHead ++ (bytes "abc" ++ []), cuts := [], failure := none } freshWorld).2
      (bytes "abc") :=
  (bodies_accepted_iff quietEnv smallHeadersConfig true [] [] none freshWorld
    (h := echoHead) (by decide +kernel) (by decide +kernel)
    (by decide +kernel) (by decide +kernel) (by decide +kernel) (by decide +kernel)
    (by decide +kernel)).mpr (by decide +kernel)

def longHead : Bytes :=
  bytes "POST /echo.php HTTP/1.1\r\nHost: a\r\nContent-Length: 1000\r\n\r\n"

def longBody : Bytes := List.replicate 1000 97

/-- A body of 1000 bytes behind a header section of 59, where the limits are 1024 for
headers and the default for bodies, is refused. -/
theorem body_within_limit_refused :
    ConfigLoader.load smallHeadersEnv statusConfPath = .ok smallHeadersConfig ∧
    EndsAtBlank longHead ∧ longHead.length ≤ smallHeadersConfig.maxRequestBytes ∧
    (parseHeadersOnly longHead smallHeadersConfig.limits).ok = true ∧
    (parseHeadersOnly longHead smallHeadersConfig.limits).request.method = bytes "POST" ∧
    (parseHeadersOnly longHead smallHeadersConfig.limits).request.contentLength
      = longBody.length ∧
    longBody.length ≤ smallHeadersConfig.maxBodyBytes ∧
    ¬ BodyAccepted smallHeadersConfig (handleClientStream quietEnv smallHeadersConfig true []
        { pending := longHead ++ longBody } freshWorld).2 longBody := by
  refine ⟨by decide +kernel, by decide +kernel, by decide +kernel, by decide +kernel,
    by decide +kernel, by decide +kernel, by decide +kernel, ?_⟩
  intro ⟨rawRequest, hraw, haccept, _⟩
  have hcalls : (handleClientStream quietEnv smallHeadersConfig true []
      { pending := longHead ++ longBody } freshWorld).2.calls
        = [.makeResponse (longHead ++ longBody)] := by decide +kernel
  rw [hcalls, List.mem_singleton] at hraw
  cases hraw
  have hrefused : (acceptRequest smallHeadersConfig (longHead ++ longBody)).ok = false := by
    decide +kernel
  rw [hrefused] at haccept
  cases haccept

end HydrogenHttpd.Ref
