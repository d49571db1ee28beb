import HydrogenHttpd.Proofs.Calls

/-!
# Nothing behind a guarded endpoint without a credential

The status page and the upload parser stand behind one decision,
`Auth::authorize` on the rules that are active in the store at that moment.
`authorize_allowed` turns a positive decision into what was presented: a token
that a live rule with the scope accepts, or the legacy token. The loader makes
sure that the decision is asked for wherever the status page is enabled
(`load_admin_needs_auth`), and the handlers that it comes first
(`Proofs.Calls`). The store is arbitrary, and so is what other threads do to it
before the decision.
-/

namespace HydrogenHttpd.Ref

open Base

/-! ## Comparing secrets -/

theorem foldl_or_eq_zero {α : Type} (f : α → Nat) (l : List α) (init : Nat) :
    l.foldl (fun acc x => acc ||| f x) init = 0 ↔ init = 0 ∧ ∀ x ∈ l, f x = 0 := by
  induction l generalizing init with
  | nil => simp
  | cons x xs ih =>
      rw [List.foldl_cons, ih, Nat.or_eq_zero_iff, List.forall_mem_cons, and_assoc]

/-- The comparison that looks at every byte answers equality. -/
theorem constantTimeEquals_iff (left right : Bytes) :
    Auth.constantTimeEquals left right = true ↔ left = right := by
  rw [Auth.constantTimeEquals, beq_iff_eq, foldl_or_eq_zero, Nat.xor_eq_zero_iff]
  constructor
  · intro ⟨hlen, hbytes⟩
    refine List.ext_getElem hlen fun i h₁ h₂ => ?_
    have hi := hbytes i (List.mem_range.mpr (by omega))
    rw [← UInt8.toNat_zero, UInt8.toNat_inj, UInt8.xor_eq_zero_iff] at hi
    rwa [List.getD_eq_getElem _ _ h₁, List.getD_eq_getElem _ _ h₂] at hi
  · intro h
    subst h
    exact ⟨rfl, fun i _ => by simp⟩

theorem lowercase_hex8 (w : UInt32) : lowercase (hex8 w) = hex8 w := by
  have hdigit : ∀ d < 16, toLower (UInt8.ofNat (if d < 10 then 48 + d else 87 + d))
      = UInt8.ofNat (if d < 10 then 48 + d else 87 + d) := by decide
  rw [hex8, lowercase, List.map_map]
  exact List.map_congr_left fun shift _ => hdigit _ (Nat.mod_lt _ (by omega))

/-- The digest is written in lower case already. -/
theorem lowercase_sha256Hex (t : Bytes) : lowercase (Auth.sha256Hex t) = Auth.sha256Hex t := by
  simp only [Auth.sha256Hex, lowercase, List.map_flatMap]
  exact List.flatMap_congr fun w _ => lowercase_hex8 w

/-! ## The decision -/

/-- `rule` accepts the token `t` for `scope` at the time `now`. -/
structure Accepts (rule : AuthTokenRule) (t scope : Bytes) (now : Int) : Prop where
  secret : (rule.sha256Hex ≠ [] ∧ lowercase rule.sha256Hex = lowercase (Auth.sha256Hex t)) ∨
    (rule.sha256Hex = [] ∧ rule.plaintextToken = t)
  live : ¬ (0 < rule.expiresAtEpoch ∧ rule.expiresAtEpoch ≤ now)
  scope : scope ∈ rule.scopes ∨ bytes "*" ∈ rule.scopes

/-- A token that some rule accepts, or that is the legacy token. -/
def Credential (tokens : List AuthTokenRule) (legacy t scope : Bytes) (now : Int) : Prop :=
  (∃ rule ∈ tokens, Accepts rule t scope now) ∨ (legacy ≠ [] ∧ legacy = t)

theorem tokenMatches_secret {rule : AuthTokenRule} {t : Bytes}
    (h : tokenMatches rule t (Auth.sha256Hex t) = true) :
    (rule.sha256Hex ≠ [] ∧ lowercase rule.sha256Hex = lowercase (Auth.sha256Hex t)) ∨
      (rule.sha256Hex = [] ∧ rule.plaintextToken = t) := by
  rw [tokenMatches] at h
  split at h
  · next hhash =>
      rw [constantTimeEquals_iff] at h
      exact Or.inl ⟨hhash, by rw [h, lowercase_sha256Hex]⟩
  · next hhash =>
      split at h
      · rw [constantTimeEquals_iff] at h
        exact Or.inr ⟨by simpa using hhash, h⟩
      · cases h

theorem isExpired_iff (rule : AuthTokenRule) (now : Int) :
    Auth.isExpired rule now = true ↔ 0 < rule.expiresAtEpoch ∧ rule.expiresAtEpoch ≤ now := by
  simp [Auth.isExpired]

theorem hasScope_iff (rule : AuthTokenRule) (scope : Bytes) :
    Auth.hasScope rule scope = true ↔
      lowercase scope ∈ rule.scopes ∨ bytes "*" ∈ rule.scopes := by
  simp only [Auth.hasScope, List.any_eq_true, Bool.or_eq_true, beq_iff_eq]
  constructor
  · intro ⟨s, hs, hor⟩
    rcases hor with rfl | rfl
    · exact Or.inr hs
    · exact Or.inl hs
  · intro hor
    rcases hor with h | h
    · exact ⟨_, h, Or.inr rfl⟩
    · exact ⟨_, h, Or.inl rfl⟩

theorem authorizeLoop_allowed {t legacy scope : Bytes} {now : Int}
    (hscope : lowercase scope = scope) {tokens : List AuthTokenRule}
    (h : (authorizeLoop t (Auth.sha256Hex t) legacy scope now tokens).allowed = true) :
    Credential tokens legacy t scope now := by
  induction tokens with
  | nil =>
      rw [authorizeLoop] at h
      split at h
      · next hlegacy =>
          rw [constantTimeEquals_iff] at hlegacy
          exact Or.inr hlegacy
      · cases h
  | cons rule rest ih =>
      rw [authorizeLoop] at h
      split at h
      · refine (ih h).imp_left fun ⟨r, hr, haccepts⟩ => ⟨r, ?_, haccepts⟩
        exact List.mem_cons_of_mem rule hr
      · next hmatch =>
          split at h
          · cases h
          · next hlive =>
              split at h
              · cases h
              · next hhas =>
                  rw [Bool.not_eq_false, hasScope_iff, hscope] at hhas
                  rw [isExpired_iff] at hlive
                  exact Or.inl ⟨rule, by simp,
                    ⟨tokenMatches_secret (by simpa using hmatch), hlive, hhas⟩⟩

/-- A permission is the answer to a bearer token that is a credential. -/
theorem authorize_allowed {header legacy scope : Bytes} {now : Int}
    (hscope : lowercase scope = scope) {tokens : List AuthTokenRule}
    (h : (Auth.authorize header tokens legacy scope now).allowed = true) :
    ∃ t, t ≠ [] ∧ header = bytes "Bearer " ++ t ∧ Credential tokens legacy t scope now := by
  rw [Auth.authorize] at h
  split at h
  · cases h
  · split at h
    · cases h
    · next hfront =>
        rw [Bool.not_eq_false, List.isPrefixOf_iff_prefix] at hfront
        obtain ⟨t, rfl⟩ := hfront
        rw [show (bytes "Bearer " ++ t).drop 7 = t from rfl] at h
        simp only [] at h
        split at h
        · cases h
        · next hne => exact ⟨t, hne, rfl, authorizeLoop_allowed hscope h⟩

/-! ## The endpoints -/

/-- The request on `stream` presented a credential for `scope`, and `out`
recorded the decision on it. -/
def Presented (config : ServerConfig) (stream : Connection) (scope : Bytes) (out : World) :
    Prop :=
  ∃ headers stream' t tokens now, readHeadersOnly stream config = (.ok headers, stream') ∧
    t ≠ [] ∧
    (parseHeadersOnly headers.headerPart config.limits).request.headers.lookup
      (bytes "authorization") = some (bytes "Bearer " ++ t) ∧
    .authorize (bytes "Bearer " ++ t) tokens config.authBearerToken scope now ∈ out.calls ∧
    Credential tokens config.authBearerToken t scope now

theorem presented_of_allowed {env : ServerEnv} {config : ServerConfig} {scope : Bytes}
    {stream stream' : Connection} {headers : HeaderReadResult} {w out : World}
    (hscope : lowercase scope = scope) (hauth : config.enableEndpointAuth = true)
    (hread : readHeadersOnly stream config = (.ok headers, stream'))
    (hallowed : (authorizeEndpoint env config
      (parseHeadersOnly headers.headerPart config.limits).request scope w).1.allowed = true)
    (hkept : ∀ a ∈ (authorizeEndpoint env config
      (parseHeadersOnly headers.headerPart config.limits).request scope w).2.calls,
        a ∈ out.calls) :
    Presented config stream scope out := by
  obtain ⟨tokens, now, hdecision, hcalls⟩ := authorizeEndpoint_enabled env config
    (parseHeadersOnly headers.headerPart config.limits).request scope w hauth
  rw [hdecision] at hallowed
  obtain ⟨t, hne, hheader, hcredential⟩ := authorize_allowed hscope hallowed
  refine ⟨headers, stream', t, tokens, now, hread, hne, ?_, ?_, hcredential⟩
  · rw [authorizationOf] at hheader
    cases hlookup : (parseHeadersOnly headers.headerPart config.limits).request.headers.lookup
        (bytes "authorization") with
    | none =>
        rw [hlookup] at hheader
        exact absurd hheader.symm (by simp [bytes])
    | some value =>
        rw [hlookup] at hheader
        rw [show value = _ from hheader]
  · refine hkept _ ?_
    rw [hcalls, hheader]
    exact List.mem_append_right _ (by simp)

theorem canonicalRoots_auth {files : Files} {loaded config : ServerConfig}
    (h : canonicalRoots files loaded = .ok config) :
    config.enableAdminStatus = loaded.enableAdminStatus ∧
      config.enableEndpointAuth = loaded.enableEndpointAuth := by
  obtain ⟨root, hosts, rfl⟩ := canonicalRoots_eq h
  exact ⟨rfl, rfl⟩

/-- Under a configuration the loader accepts: a request that is answered with
the status page, or whose spool file reaches the upload parser while
authorization is enabled, presented a credential that was accepted when the
decision was made. -/
theorem protected_endpoints_gated {configEnv : ConfigEnv} {path : Path}
    {loaded config : ServerConfig} {env : ServerEnv}
    (hload : ConfigLoader.load configEnv path = .ok loaded)
    (hroots : canonicalRoots env.files loaded = .ok config)
    (tls : Bool) (clientIp : Bytes) (stream : Connection) (w : World) :
    let out := (handleClientStream env config tls clientIp stream w).2
    (.adminStatusResponse ∈ out.calls → Presented config stream (bytes "admin") out) ∧
      (config.enableEndpointAuth = true →
        ∀ spool, .saveUploadsFromSpoolFile spool ∈ out.calls →
          Presented config stream (bytes "upload") out) := by
  obtain ⟨hstatus, hguard⟩ := canonicalRoots_auth hroots
  refine ⟨fun hc => ?_, fun hauth spool hc => ?_⟩
  · obtain ⟨headers, stream', hread, hok⟩ := headers_of_call hc
    obtain ⟨hadmin, hgrant⟩ := (adminStatus_mem_iff hread hok).mp hc
    -- the page is made where it is enabled, and there the loader wants authorization
    have hauth : config.enableEndpointAuth = true := by
      rw [hguard]
      exact load_admin_needs_auth hload (hstatus ▸ hgrant.1)
    refine presented_of_allowed (by decide) hauth hread hgrant.2.2 fun a ha => ?_
    rw [handleClientStream_admin hread hok hadmin]
    simp only [handleAdminStatus_granted env config tls clientIp _ _ hgrant]
    exact List.mem_append_left _ ha
  · obtain ⟨headers, stream', hread, hok⟩ := headers_of_call hc
    obtain ⟨-, hallowed, hkept⟩ := spoolUpload_mem hread hok hc
    exact presented_of_allowed (by decide) hauth hread hallowed hkept

/-- A configuration file with a status page behind a legacy token. -/
def statusConf : Bytes :=
  bytes "enable_endpoint_auth = true\nenable_admin_status = true\nauth_bearer_token = secret\n"

def statusConfPath : Path := Path.ofBytes (bytes "/etc/server.conf")

def statusConfEnv : ConfigEnv :=
  { content := fun p => if p = statusConfPath then some statusConf else none }

/-- What the loader makes of it. -/
def statusConfig : ServerConfig :=
  chooseWorkers statusConfEnv (resolvePaths statusConfPath.parentPath
    { enableEndpointAuth := true, enableAdminStatus := true, authBearerToken := bytes "secret" })

def statusRequest : Connection :=
  { pending := bytes ("GET /__hydrogen/admin/status HTTP/1.1\r\nHost: a\r\n" ++
      "Authorization: Bearer secret\r\n\r\n") }

theorem protected_endpoints_gated_statusRequest :
    Presented statusConfig statusRequest (bytes "admin")
      (handleClientStream quietEnv statusConfig true [] statusRequest freshWorld).2 :=
  (@protected_endpoints_gated statusConfEnv statusConfPath statusConfig statusConfig quietEnv
    (by decide +kernel) (by decide +kernel) true [] statusRequest freshWorld).1
    (by decide +kernel)

end HydrogenHttpd.Ref
