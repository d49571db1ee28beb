import HydrogenHttpd.Proofs.AcceptedRequests
import HydrogenHttpd.Proofs.CacheBudget
import HydrogenHttpd.Proofs.CacheVersions
import HydrogenHttpd.Proofs.ResponseFields
import HydrogenHttpd.Spec.HeaderBlock

/-!
# No response splitting

What a client sends gets into a header block in two places only: the target and
the host of a redirect. A target is a word of the request line, so no end of
line is in it, and the strict parser refuses a value with one. The other fields
are constants, numbers, the one string of the configuration that is written
into a block, and the tag of a cached file, which is made of hexadecimal digits
whichever thread put the file into the cache. So without rule files every line
of a block is one line.
-/

namespace HydrogenHttpd.Ref

open Base Spec

/-! ## Text of one line -/

/-- No end of line is in the text, nor half of one. -/
def OneLine (text : Bytes) : Prop := cr ∉ text ∧ lf ∉ text

instance (text : Bytes) : Decidable (OneLine text) := inferInstanceAs (Decidable (_ ∧ _))

/-- CR and LF stand only in the CRLF that ends a line, and the first empty line
is the last one. -/
structure Unsplit (block : Bytes) : Prop where
  lines : ∃ lines, block = joinFields lines ∧ ∀ line ∈ lines, OneLine line
  blank : EndsAtBlank block

theorem OneLine.append {a b : Bytes} (ha : OneLine a) (hb : OneLine b) : OneLine (a ++ b) := by
  simp [OneLine, ha.1, ha.2, hb.1, hb.2]

theorem OneLine.subset {a b : Bytes} (hb : OneLine b) (h : a ⊆ b) : OneLine a :=
  ⟨fun hcr => hb.1 (h hcr), fun hlf => hb.2 (h hlf)⟩

theorem OneLine.not_crlf {text : Bytes} (h : OneLine text) : ¬ crlf <:+: text := fun hin =>
  h.1 (hin.subset (by decide))

theorem oneLine_of_unspaced {text : Bytes} (h : ∀ c ∈ text, isSpace c = false) : OneLine text :=
  ⟨fun hcr => absurd (h _ hcr) (by decide), fun hlf => absurd (h _ hlf) (by decide)⟩

theorem oneLine_decimal (n : Nat) : OneLine (decimal n) :=
  oneLine_of_unspaced fun _ hc => isSpace_of_isDigit (isDigit_of_mem_decimal hc)

theorem oneLine_signedDecimal (n : Int) : OneLine (signedDecimal n) := by
  rw [signedDecimal]
  split
  · exact OneLine.append (a := [45]) (by decide) (oneLine_decimal _)
  · exact oneLine_decimal _

theorem oneLine_lowercase {text : Bytes} (h : OneLine text) : OneLine (lowercase text) := by
  have hends : ∀ c : UInt8, (toLower c = cr → c = cr) ∧ (toLower c = lf → c = lf) := by
    decide +kernel
  constructor
  · intro hcr
    obtain ⟨c, hc, heq⟩ := List.mem_map.mp hcr
    exact h.1 ((hends c).1 heq ▸ hc)
  · intro hlf
    obtain ⟨c, hc, heq⟩ := List.mem_map.mp hlf
    exact h.2 ((hends c).2 heq ▸ hc)

theorem oneLine_readWord (text : Bytes) : OneLine (readWord text).1 := by
  refine oneLine_of_unspaced fun c hc => ?_
  have hword := List.mem_takeWhile_imp hc
  simpa using hword

theorem mem_toDigits_hex {n : Nat} {c : Char} (h : c ∈ Nat.toDigits 16 n) :
    ∃ d < 16, c = Nat.digitChar d := by
  induction n using Nat.strong_induction_on with
  | _ n ih =>
      by_cases hn : n < 16
      · rw [Nat.toDigits_of_lt_base hn, List.mem_singleton] at h
        exact ⟨n, hn, h⟩
      · rw [Nat.toDigits_of_base_le (by decide) (by omega), List.mem_append,
          List.mem_singleton] at h
        rcases h with h | h
        · exact ih (n / 16) (by omega) h
        · exact ⟨n % 16, Nat.mod_lt n (by decide), h⟩

theorem oneLine_hexadecimal (n : Nat) : OneLine (hexadecimal n) := by
  have hdigits : ∀ d < 16, OneLine [UInt8.ofNat (Nat.digitChar d).toNat] := by decide
  have hmem : ∀ c ∈ hexadecimal n, OneLine [c] := by
    intro c hc
    obtain ⟨d, hd, rfl⟩ := List.mem_map.mp hc
    obtain ⟨k, hk, rfl⟩ := mem_toDigits_hex hd
    exact hdigits k hk
  exact ⟨fun hcr => (hmem _ hcr).1 (by simp), fun hlf => (hmem _ hlf).2 (by simp)⟩

theorem oneLine_makeEtag (size : Nat) (modified : Int) : OneLine (makeEtag size modified) :=
  (((OneLine.append (a := [quote]) (by decide) (oneLine_hexadecimal _)).append
    (b := [45]) (by decide)).append (oneLine_hexadecimal _)).append (b := [quote]) (by decide)

/-! ## Responses whose fields are one line each -/

structure OneLineFields (res : HttpResponse) : Prop where
  reason : OneLine res.reason
  contentType : OneLine res.contentType
  cacheControl : OneLine res.cacheControl
  extra : ∀ h ∈ res.extraHeaders, OneLine h.1 ∧ OneLine h.2

theorem ownNames_oneLine : ∀ a b c : Bool, ∀ name ∈ ownNames a b c, OneLine name := by
  decide +kernel

theorem OneLineFields.fields {res : HttpResponse} (h : OneLineFields res) :
    ∀ field ∈ res.fields, OneLine field.1 ∧ OneLine field.2 := by
  have hvalues : ∀ field ∈ res.ownFields, OneLine field.2 := by
    simp only [HttpResponse.ownFields, List.forall_mem_append]
    refine ⟨⟨⟨⟨?_, ?_⟩, ?_⟩, by decide +kernel⟩, ?_⟩
    · split
      · decide +kernel
      · simp
    · simp only [List.forall_mem_cons]
      exact ⟨by decide, oneLine_decimal _, h.contentType, by simp⟩
    · split
      · simp
      · simpa using h.cacheControl
    · split
      · decide +kernel
      · simp
  intro field hfield
  rcases List.mem_append.mp hfield with hown | hextra
  · have hname : field.1 ∈ res.ownFields.map (·.1) := List.mem_map_of_mem hown
    rw [ownFields_names] at hname
    exact ⟨ownNames_oneLine _ _ _ _ hname, hvalues field hown⟩
  · exact h.extra field hextra

theorem OneLineFields.unsplit {res : HttpResponse} (h : OneLineFields res) :
    Unsplit res.headersToString := by
  have hstatus : OneLine (bytes "HTTP/1.1 " ++ signedDecimal res.status ++ [space] ++ res.reason) :=
    (((OneLine.append (by decide) (oneLine_signedDecimal _)).append (by decide)).append h.reason)
  have hfields : ∀ line ∈ res.fields.map fun field => field.1 ++ bytes ": " ++ field.2,
      OneLine line := by
    intro line hline
    obtain ⟨field, hfield, rfl⟩ := List.mem_map.mp hline
    obtain ⟨hname, hvalue⟩ := h.fields field hfield
    exact (hname.append (by decide)).append hvalue
  let block : HeaderBlock :=
    { first := bytes "HTTP/1.1 " ++ signedDecimal res.status ++ [space] ++ res.reason
      fields := res.fields.map fun field => field.1 ++ bytes ": " ++ field.2
      first_crlf := hstatus.not_crlf
      fields_crlf := fun line hline => by
        refine ⟨?_, (hfields line hline).not_crlf⟩
        obtain ⟨field, -, rfl⟩ := List.mem_map.mp hline
        simp [bytes] }
  have hblock : res.headersToString = block.render := by
    rw [headersToString_eq, HttpResponse.statusLine, HeaderBlock.render, joinFields,
      List.flatMap_map]
    rfl
  rw [hblock]
  refine ⟨⟨block.first :: (block.fields ++ [[]]), ?_, ?_⟩, block.endsAtBlank⟩
  · simp [HeaderBlock.render, joinFields]
  · simp only [List.forall_mem_cons, List.forall_mem_append]
    exact ⟨hstatus, hfields, by decide, by simp⟩

/-! ## What the parsers let through -/

/-- A value without control characters but tabs is one line. -/
theorem oneLine_of_printable {value : Bytes} (h : ∀ c ∈ value, isCtl c = true → c = tab) :
    OneLine value :=
  ⟨fun hcr => absurd (h _ hcr (by decide)) (by decide),
    fun hlf => absurd (h _ hlf (by decide)) (by decide)⟩

/-- A refusal gives its reason in one line, and no request. -/
def Refusal (e : HttpParseResult) : Prop := OneLine e.reason ∧ e.request = {}

instance (e : HttpParseResult) : Decidable (Refusal e) := inferInstanceAs (Decidable (_ ∧ _))

theorem requestLine_refuses {isToken : Bytes → Bool} {limits : HttpParseLimits} {line : Bytes}
    {e : HttpParseResult} (h : requestLine isToken limits line = .error e) : Refusal e := by
  simp only [requestLine] at h
  repeat' split at h
  all_goals first | (cases h; decide) | cases h

theorem requestLine_target {isToken : Bytes → Bool} {limits : HttpParseLimits} {line : Bytes}
    {request : HttpRequest} (h : requestLine isToken limits line = .ok request) :
    OneLine request.target := by
  simp only [requestLine] at h
  repeat' split at h
  all_goals first | (cases h; exact oneLine_readWord _) | cases h

theorem recordHeader_refuses {st : HeaderScan} {name value : Bytes} {e : HttpParseResult}
    (h : recordHeader st name value = .error e) : Refusal e := by
  simp only [recordHeader] at h
  repeat' split at h
  all_goals first | (cases h; decide) | cases h

theorem headerLine_refuses {st : HeaderScan} {line : Bytes} {e : HttpParseResult}
    (h : StrictHttpParser.headerLine st line = .error e) : Refusal e := by
  simp only [StrictHttpParser.headerLine] at h
  split at h
  · cases h; decide
  · split at h
    · cases h; decide
    · split at h
      · cases h; decide
      · split at h
        · cases h; decide
        · exact recordHeader_refuses h

theorem headerLineOnly_refuses {st : HeaderScan} {line : Bytes} {e : HttpParseResult}
    (h : headerLineOnly st line = .error e) : Refusal e := by
  simp only [headerLineOnly] at h
  split at h
  · cases h; decide
  · split at h
    · cases h; decide
    · split at h
      · cases h; decide
      · exact recordHeader_refuses h

/-- A line adds its own value to the map, which is one line. -/
theorem headerLine_values {st st' : HeaderScan} {line : Bytes}
    (hst : ∀ h ∈ st.headers, OneLine h.2)
    (h : StrictHttpParser.headerLine st line = .ok st') : ∀ h ∈ st'.headers, OneLine h.2 := by
  obtain ⟨name, rest, -, -, hprintable, hrecord⟩ := headerLine_ok h
  obtain ⟨-, rfl⟩ := recordHeader_ok hrecord
  intro field hfield
  rcases mem_put hfield with hnew | hold
  · rw [hnew]
    exact oneLine_of_printable hprintable
  · exact hst field hold

section Loop

variable {onLine : HeaderScan → Bytes → Except HttpParseResult HeaderScan}
  {limits : HttpParseLimits} {raw : Bytes} {headerEnd : Nat}

theorem headerLoop_refuses (honLine : ∀ st line e, onLine st line = .error e → Refusal e)
    {fuel start : Nat} {st : HeaderScan} {e : HttpParseResult}
    (h : headerLoop onLine limits raw headerEnd fuel start st = .error e) : Refusal e := by
  induction fuel generalizing start st with
  | zero => cases h; decide
  | succ fuel ih =>
      simp only [headerLoop] at h
      split at h
      · cases h; decide
      · split at h
        · cases h
        · split at h
          · cases h; decide
          · split at h
            · cases h; decide
            · split at h
              · cases h; decide
              · split at h
                · next hline =>
                    cases h
                    exact honLine _ _ _ hline
                · exact ih h

theorem headerLoop_keeps {I : HeaderScan → Prop}
    (hcount : ∀ st n, I st → I { st with headerCount := n })
    (honLine : ∀ st line st', I st → onLine st line = .ok st' → I st')
    {fuel start : Nat} {st st' : HeaderScan} (hst : I st)
    (h : headerLoop onLine limits raw headerEnd fuel start st = .ok st') : I st' := by
  induction fuel generalizing start st with
  | zero => cases h
  | succ fuel ih =>
      simp only [headerLoop] at h
      split at h
      · cases h
      · split at h
        · cases h
          exact hst
        · split at h
          · cases h
          · split at h
            · cases h
            · split at h
              · cases h
              · split at h
                · cases h
                · next hline => exact ih (honLine _ _ _ (hcount _ _ hst) hline) h

end Loop

theorem finish_cases (limits : HttpParseLimits) (raw : Bytes) (bodyOffset : Nat)
    (request : HttpRequest) (st : HeaderScan) :
    let result := StrictHttpParser.finish limits raw bodyOffset request st
    Refusal result ∨ result.reason = bytes "OK" ∧ result.request.target = request.target ∧
      result.request.headers = st.headers := by
  simp only [StrictHttpParser.finish]
  repeat' split
  all_goals first
    | exact Or.inr ⟨rfl, rfl, rfl⟩
    | exact Or.inl (by decide)

theorem finishHeadersOnly_cases (limits : HttpParseLimits) (request : HttpRequest)
    (st : HeaderScan) :
    let result := finishHeadersOnly limits request st
    Refusal result ∨ result.reason = bytes "OK" := by
  simp only [finishHeadersOnly]
  repeat' split
  all_goals first
    | exact Or.inr rfl
    | exact Or.inl (by decide)

/-- Whatever the strict parser answers: its reason is one line, and so are the
target and the values it lets through. -/
theorem parse_oneLine (raw : Bytes) (limits : HttpParseLimits) :
    let result := StrictHttpParser.parse raw limits
    OneLine result.reason ∧ OneLine result.request.target ∧
      ∀ h ∈ result.request.headers, OneLine h.2 := by
  have hrefused : ∀ e : HttpParseResult, Refusal e →
      OneLine e.reason ∧ OneLine e.request.target ∧ ∀ h ∈ e.request.headers, OneLine h.2 := by
    intro e ⟨hreason, hrequest⟩
    rw [hrequest]
    exact ⟨hreason, by decide, by simp⟩
  simp only [StrictHttpParser.parse]
  split
  · exact hrefused _ (by decide)
  · split
    · exact hrefused _ (by decide)
    · next headerEnd _ =>
      split
      · exact hrefused _ (by decide)
      · split
        · exact hrefused _ (by decide)
        · split
          · exact hrefused _ (by decide)
          · split
            · next hline => exact hrefused _ (requestLine_refuses hline)
            · next request hline =>
                split
                · next hloop =>
                    exact hrefused _ (headerLoop_refuses (fun _ _ _ => headerLine_refuses) hloop)
                · next st hloop =>
                    have hvalues : ∀ h ∈ st.headers, OneLine h.2 :=
                      headerLoop_keeps (I := fun st => ∀ h ∈ st.headers, OneLine h.2)
                        (fun _ _ hst => hst) (fun _ _ _ => headerLine_values) (by simp) hloop
                    rcases finish_cases limits raw (headerEnd + 4) request st with
                      hno | ⟨hreason, htarget, hheaders⟩
                    · exact hrefused _ hno
                    · rw [hreason, htarget, hheaders]
                      exact ⟨by decide, requestLine_target hline, hvalues⟩

theorem parseHeadersOnly_reason (headerPart : Bytes) (limits : HttpParseLimits) :
    OneLine (parseHeadersOnly headerPart limits).reason := by
  simp only [parseHeadersOnly]
  split
  · decide
  · split
    · decide
    · split
      · decide
      · split
        · decide
        · split
          · next hline => exact (requestLine_refuses hline).1
          · next request hline =>
              split
              · next hloop =>
                  exact (headerLoop_refuses (fun _ _ _ => headerLineOnly_refuses) hloop).1
              · next st _ =>
                  rcases finishHeadersOnly_cases limits request st with hno | hreason
                  · exact hno.1
                  · rw [hreason]
                    decide

/-! ## The redirect -/

theorem oneLine_normalizeHost {host : Bytes} (h : OneLine host) :
    OneLine (security.normalizeHost host) := by
  have htrim : ∀ text : Bytes, OneLine text → OneLine (trim (lowercase text)) := fun text htext =>
    (oneLine_lowercase htext).subset fun _ hc => mem_of_mem_trimWith hc
  rw [security.normalizeHost]
  split
  · exact htrim host h
  · exact htrim _ (h.subset (List.take_subset _ _))

theorem oneLine_httpsRedirectLocation (config : ServerConfig) {host target : Bytes}
    (hhost : OneLine host) (htarget : OneLine target) :
    OneLine (httpsRedirectLocation config host target) := by
  have hname := oneLine_normalizeHost hhost
  simp only [httpsRedirectLocation]
  refine ((OneLine.append (a := bytes "https://") (by decide) ?_).append ?_).append ?_
  · split
    · decide
    · exact hname
  · split <;> split
    all_goals first
      | exact OneLine.append (a := bytes ":") (by decide) (oneLine_decimal _)
      | exact (by decide : OneLine [])
  · split
    · decide
    · exact htarget

/-! ## The tags of the cache -/

/-- Every version of every file is known. -/
def anyVersion (_ : Bytes) (_ : FileVersion) : Prop := True

theorem oneLine_of_genuine {known : Bytes → FileVersion → Prop} {key : Bytes}
    {file : CachedStaticFile} (h : Genuine known key file) : OneLine file.etag := by
  obtain ⟨version, -, -, hetag⟩ := h
  rw [hetag]
  exact oneLine_makeEtag _ _

/-- What a step hands on carries the tag `makeEtag` gives it. -/
theorem tagged_step {hash : Bytes → Nat} {cache cache' : StaticFileCache}
    {phase phase' : GetPhase} {access : GetAccess}
    (hcache : cache.Holds fun key entry => Genuine anyVersion key entry.file)
    (hphase : phase.Genuine anyVersion) (h : GetStep hash cache phase access cache' phase') :
    (cache'.Holds fun key entry => Genuine anyVersion key entry.file) ∧
      phase'.Genuine anyVersion := by
  refine genuine_step hcache hphase h ?_
  intro path now size modified answer body _ _ hbody
  exact ⟨⟨body, modified⟩, trivial, rfl, (readBody_length hbody).symm, rfl⟩

theorem tagged_run {ι : Type} [DecidableEq ι] {hash : Bytes → Nat} {config : ServerConfig}
    {s : CacheState ι} (h : Reachable (Configured config) (CacheStep hash) s) :
    (s.cache.Holds fun key entry => Genuine anyVersion key entry.file) ∧
      ∀ i, (s.threads i).Genuine anyVersion := by
  induction h with
  | start hs =>
      refine ⟨fun shard hshard row hrow => ?_, fun i => ?_⟩
      · rw [hs.1] at hshard
        rw [List.eq_of_mem_replicate hshard] at hrow
        cases hrow
      · rw [hs.2 i]
        trivial
  | step _ hstep ih =>
      obtain ⟨i, access, cache, phase, hget⟩ := hstep
      obtain ⟨hcache, hphase⟩ := tagged_step ih.1 (ih.2 i) hget
      refine ⟨hcache, fun j => ?_⟩
      simp only [Function.update_apply]
      split
      · exact hphase
      · exact ih.2 j

/-- What `get` answers from such a cache. -/
theorem get_etag {cache : StaticFileCache} {files : Files} {hash : Bytes → Nat} {now : Int}
    {path : Path} {file : CachedStaticFile}
    (hcache : cache.Holds fun key entry => Genuine anyVersion key entry.file)
    (h : (cache.get files hash now path).1 = some file) : OneLine file.etag := by
  have hkeeps : ∀ s s' : StaticFileCache × GetPhase,
      ((s.1.Holds fun key entry => Genuine anyVersion key entry.file) ∧
        s.2.Genuine anyVersion) → AloneStep hash files s s' →
      (s'.1.Holds fun key entry => Genuine anyVersion key entry.file) ∧
        s'.2.Genuine anyVersion := by
    rintro s s' ⟨hcache, hphase⟩ ⟨access, -, hget⟩
    exact tagged_step hcache hphase hget
  obtain ⟨-, hreturned⟩ := (get_steps cache hash files path now).keeps hkeeps
    (fun s s' hs _ hstep => hkeeps s s' hs hstep) ⟨hcache, trivial⟩ ⟨hcache, trivial⟩
  simp only [h] at hreturned
  exact oneLine_of_genuine hreturned

/-! ## The handlers -/

section Handlers

variable {env : ServerEnv} {config : ServerConfig} {tls : Bool} {req : HttpRequest} {w : World}
  {res : HttpResponse}

theorem emptyResponse_oneLine (config : ServerConfig) (tls : Bool) :
    OneLineFields (emptyResponse config tls) where
  reason := show OneLine (bytes "OK") by decide
  contentType := show OneLine (bytes "text/plain; charset=utf-8") by decide
  cacheControl := show OneLine (bytes "no-store") by decide
  extra := by simp [emptyResponse]

theorem OneLineFields.answer (h : OneLineFields res) {status : Int} {reason body : String}
    (hreason : OneLine (bytes reason)) : OneLineFields (res.answer status reason body) :=
  ⟨hreason, h.contentType, h.cacheControl, h.extra⟩

theorem OneLineFields.notFound (h : OneLineFields res) : OneLineFields res.notFound :=
  h.answer (by decide)
theorem OneLineFields.methodNotAllowed (h : OneLineFields res) :
    OneLineFields res.methodNotAllowed := h.answer (by decide)
theorem OneLineFields.badRequest (h : OneLineFields res) : OneLineFields res.badRequest :=
  h.answer (by decide)
theorem OneLineFields.forbidden (h : OneLineFields res) : OneLineFields res.forbidden :=
  h.answer (by decide)
theorem OneLineFields.payloadTooLarge (h : OneLineFields res) :
    OneLineFields res.payloadTooLarge := h.answer (by decide)
theorem OneLineFields.unsupportedMediaType (h : OneLineFields res) :
    OneLineFields res.unsupportedMediaType := h.answer (by decide)

theorem unauthorizedResponse_oneLine (config : ServerConfig) (tls invalidToken : Bool) :
    OneLineFields (unauthorizedResponse config tls invalidToken) := by
  refine ⟨show OneLine (bytes "Unauthorized") by decide,
    (emptyResponse_oneLine config tls).contentType,
    (emptyResponse_oneLine config tls).cacheControl, ?_⟩
  simp only [unauthorizedResponse, List.forall_mem_singleton]
  cases invalidToken <;> decide

theorem denyEndpoint_oneLine (clientIp target requiredScope : Bytes) (decision : AuthDecision)
    (w : World) :
    OneLineFields (denyEndpoint config tls clientIp target requiredScope decision w).1 := by
  rw [denyEndpoint]
  split
  · exact unauthorizedResponse_oneLine config tls false
  · exact (emptyResponse_oneLine config tls).forbidden
  · exact unauthorizedResponse_oneLine config tls true
  · exact unauthorizedResponse_oneLine config tls true

theorem handleAdminStatus_oneLine (clientIp : Bytes) :
    OneLineFields (handleAdminStatus env config tls clientIp req w).1 := by
  have hempty := emptyResponse_oneLine config tls
  rw [handleAdminStatus]
  split
  · exact hempty.notFound
  · split
    · exact hempty.methodNotAllowed
    · simp only []
      split
      · exact denyEndpoint_oneLine ..
      · exact ⟨show OneLine (bytes "OK") by decide,
          show OneLine (bytes "application/json; charset=utf-8") by decide, hempty.cacheControl,
          hempty.extra⟩

theorem uploadResponse_oneLine (h : OneLineFields res) (streamed : Bool)
    (result : MultipartResult) : OneLineFields (uploadResponse res streamed result) := by
  rw [uploadResponse]
  split
  · exact ⟨show OneLine (bytes "OK") by decide,
      show OneLine (bytes "application/json; charset=utf-8") by decide, h.cacheControl, h.extra⟩
  · refine ⟨?_, h.contentType, h.cacheControl, h.extra⟩
    simp only [uploadRefusal]
    repeat' split
    all_goals decide

theorem spoolUpload_oneLine (h : OneLineFields res) {stream : Connection} {leftover : Bytes}
    {contentType : Bytes} {out : HttpResponse}
    (hout : (spoolUpload env config res stream leftover req contentType w).1 = .ok out) :
    OneLineFields out := by
  simp only [spoolUpload] at hout
  split at hout
  · cases hout
  · split at hout
    · cases hout
    · split at hout
      · cases hout
      · split at hout
        · cases hout
          exact h.badRequest
        · split at hout
          · cases hout
          · cases hout
            exact uploadResponse_oneLine h true _

theorem handleStreamedUpload_oneLine {clientIp : Bytes} {stream : Connection} {leftover : Bytes}
    {out : HttpResponse}
    (hout : (handleStreamedUpload env config tls clientIp stream leftover req w).1 = .ok out) :
    OneLineFields out := by
  have hempty := emptyResponse_oneLine config tls
  simp only [handleStreamedUpload] at hout
  split at hout
  · cases hout
    exact hempty.notFound
  · split at hout
    · cases hout
      exact hempty.methodNotAllowed
    · split at hout
      · cases hout
        exact denyEndpoint_oneLine ..
      · split at hout
        · cases hout
          exact hempty.unsupportedMediaType
        · split at hout
          · cases hout
            exact hempty.badRequest
          · split at hout
            · cases hout
              exact hempty.payloadTooLarge
            · exact spoolUpload_oneLine hempty hout

theorem handleUploadRequest_oneLine {m t : Bytes} {r : Reply}
    (h : (handleUploadRequest env config tls req (reply m t) w).1 = .ok r) :
    OneLineFields r.response := by
  have hempty := emptyResponse_oneLine config tls
  simp only [handleUploadRequest] at h
  split at h
  · cases h
    exact hempty.notFound
  · split at h
    · cases h
      exact hempty.methodNotAllowed
    · split at h
      · split at h
        · cases h
          exact hempty.forbidden
        · cases h
          exact unauthorizedResponse_oneLine config tls _
      · split at h
        · cases h
          exact hempty.unsupportedMediaType
        · split at h
          · cases h
          · cases h
            exact uploadResponse_oneLine hempty false _

theorem oneLine_mimeType (path : Path) : OneLine (mimeType path) := by
  have hrows : ∀ row ∈ mimeTypes, OneLine (bytes row.2) := by decide +kernel
  simp only [mimeType]
  split
  · next row hfind => exact hrows _ (List.mem_of_find?_eq_some hfind)
  · decide

section Served

variable (hcontrol : OneLine config.staticCacheControl)
  (hcache : w.staticCache.Holds fun key entry => Genuine anyVersion key entry.file)

include hcontrol hcache

theorem serveFile_oneLine (h : OneLineFields res) (path : Path) (m t : Bytes) {w' : World}
    (hw : w'.staticCache = w.staticCache) :
    OneLineFields (serveFile env config res req path (reply m t) w').1.response := by
  rw [serveFile]
  split
  · split
    · exact h.forbidden
    · refine ⟨?_, show OneLine (bytes "text/html; charset=utf-8") by decide, h.cacheControl,
        h.extra⟩
      simp only [reply]
      split <;> decide
  · split
    · exact h.methodNotAllowed
    · simp only [World.call]
      rw [hw]
      cases hget : w.staticCache.get env.files env.hash env.cacheNow path with
      | mk found staticCache =>
      cases found with
      | none =>
          exact ⟨show OneLine (bytes "Internal Server Error") by decide, oneLine_mimeType path,
            show OneLine (bytes "no-store") by decide, h.extra⟩
      | some cached =>
          have hextra : ∀ field ∈ put (bytes "ETag") cached.etag res.extraHeaders,
              OneLine field.1 ∧ OneLine field.2 := by
            intro field hfield
            rcases mem_put hfield with hnew | hold
            · rw [hnew]
              exact ⟨show OneLine (bytes "ETag") by decide, get_etag hcache (by rw [hget])⟩
            · exact h.extra field hold
          simp only []
          split
          · exact ⟨show OneLine (bytes "Not Modified") by decide, oneLine_mimeType path, hcontrol,
              hextra⟩
          · exact ⟨h.reason, oneLine_mimeType path, hcontrol, hextra⟩

theorem serveTarget_oneLine (hrules : config.enableHtaccess = false) (h : OneLineFields res)
    {host m t : Bytes} {w' : World} (hw : w'.staticCache = w.staticCache) {r : Reply}
    (hr : (serveTarget env config res req host (reply m t) w').1 = .ok r) :
    OneLineFields r.response := by
  have hhead : OneLineFields { res with headOnly := req.method == bytes "HEAD" } :=
    ⟨h.reason, h.contentType, h.cacheControl, h.extra⟩
  simp only [serveTarget, accessRules, hrules, Bool.false_eq_true, if_false, List.foldl_nil] at hr
  split at hr
  · cases hr
  · cases hr
    exact hhead.forbidden
  · split at hr
    · cases hr
    · cases hr
      exact hhead.forbidden
    · split at hr
      · cases hr
      · cases hr
        exact hhead.notFound
      · cases hr
        exact serveFile_oneLine hcontrol hcache hhead _ m t hw

/-- Whatever `makeResponse` answers, its fields are one line each. -/
theorem makeResponse_oneLine (hrules : config.enableHtaccess = false) {rawRequest m t : Bytes}
    {r : Reply} (h : (makeResponse env config rawRequest tls m t w).1 = .ok r) :
    OneLineFields r.response := by
  have hempty := emptyResponse_oneLine config tls
  have hparsed : OneLine (acceptRequest config rawRequest).reason ∧
      OneLine (acceptRequest config rawRequest).request.target ∧
      ∀ h ∈ (acceptRequest config rawRequest).request.headers, OneLine h.2 := by
    rw [acceptRequest]
    split
    · exact ⟨by decide, by decide, by decide⟩
    · exact parse_oneLine _ _
  obtain ⟨hreason, htarget, hvalues⟩ := hparsed
  simp only [makeResponse] at h
  split at h
  · cases h
    exact ⟨hreason, hempty.contentType, hempty.cacheControl, hempty.extra⟩
  · simp only [routeRequest] at h
    split at h
    · cases h
      exact hempty.methodNotAllowed
    · split at h
      · cases h
        exact hempty.payloadTooLarge
      · split at h
        · cases h
          refine ⟨?_, hempty.contentType, hempty.cacheControl, ?_⟩
          · simp only [reply, redirectResponse]
            split <;> decide
          · have hhost : OneLine (((acceptRequest config rawRequest).request.headers.lookup
                (bytes "host")).getD []) := by
              cases hlookup : (acceptRequest config rawRequest).request.headers.lookup
                  (bytes "host") with
              | none => decide
              | some host => exact hvalues _ (mem_of_lookup hlookup)
            simp only [reply, redirectResponse, emptyResponse, put, List.forall_mem_singleton]
            exact ⟨by decide, oneLine_httpsRedirectLocation config hhost htarget⟩
        · split at h
          · exact handleUploadRequest_oneLine h
          · have hw : (w.call (.makeResponse rawRequest)).staticCache = w.staticCache := rfl
            exact serveTarget_oneLine hcontrol hcache hrules hempty hw h

theorem handleHeaders_oneLine (hrules : config.enableHtaccess = false) {clientIp : Bytes}
    {stream : Connection} {headers : HeaderReadResult} {r : Reply}
    (h : (handleHeaders env config tls clientIp stream headers w).1 = .ok r) :
    OneLineFields r.response := by
  have hempty := emptyResponse_oneLine config tls
  simp only [handleHeaders] at h
  split at h
  · cases h
    exact ⟨parseHeadersOnly_reason _ _, hempty.contentType, hempty.cacheControl, hempty.extra⟩
  · split at h
    · cases h
      exact handleAdminStatus_oneLine clientIp
    · split at h
      · cases hout : (handleStreamedUpload env config tls clientIp stream headers.leftover
            (parseHeadersOnly headers.headerPart config.limits).request w).1 with
        | error e =>
            rw [hout] at h
            cases h
        | ok out =>
            rw [hout] at h
            cases h
            exact handleStreamedUpload_oneLine hout
      · split at h
        · cases h
        · exact makeResponse_oneLine hcontrol hcache hrules h

end Served

end Handlers

/-! ## The cache behind a request -/

/-- The cache is as it was, or as one lookup leaves it. -/
def LooksUp (env : ServerEnv) (w w' : World) : Prop :=
  w'.staticCache = w.staticCache ∨
    ∃ path, w'.staticCache = (w.staticCache.get env.files env.hash env.cacheNow path).2

section LooksUp

variable (env : ServerEnv) (config : ServerConfig) (tls : Bool) (clientIp : Bytes)
  (req : HttpRequest) (w : World)

theorem spoolUpload_staticCache (res : HttpResponse) (stream : Connection)
    (leftover contentType : Bytes) :
    (spoolUpload env config res stream leftover req contentType w).2.staticCache =
      w.staticCache := by
  simp only [spoolUpload]
  repeat' split
  all_goals rfl

theorem handleStreamedUpload_staticCache (stream : Connection) (leftover : Bytes) :
    (handleStreamedUpload env config tls clientIp stream leftover req w).2.staticCache =
      w.staticCache := by
  have hauth := (authorizeEndpoint_stores env config req (bytes "upload") w).staticCache
  simp only [handleStreamedUpload]
  split
  · rfl
  · split
    · rfl
    · split
      · exact (denyEndpoint_stores ..).staticCache.trans hauth
      · split
        · exact hauth
        · split
          · exact hauth
          · split
            · exact hauth
            · exact (spoolUpload_staticCache ..).trans hauth

theorem serveFile_looksUp (res : HttpResponse) (path : Path) (finish : HttpResponse → Reply) :
    LooksUp env w (serveFile env config res req path finish w).2 := by
  rw [serveFile]
  split
  · split
    · exact Or.inl rfl
    · refine Or.inl ?_
      simp only [handlePhpScript]
      repeat' split
      all_goals rfl
  · split
    · exact Or.inl rfl
    · refine Or.inr ⟨path, ?_⟩
      simp only [World.call]
      split
      · rfl
      · split <;> rfl

theorem serveTarget_looksUp (res : HttpResponse) (host : Bytes)
    (finish : HttpResponse → Reply) :
    LooksUp env w (serveTarget env config res req host finish w).2 := by
  simp only [serveTarget]
  split
  · exact Or.inl rfl
  · exact Or.inl rfl
  · split
    · exact Or.inl rfl
    · exact Or.inl rfl
    · split
      · exact Or.inl rfl
      · split
        · exact Or.inl rfl
        · split
          · exact Or.inl rfl
          · exact Or.inl rfl
          · exact serveFile_looksUp ..

theorem makeResponse_looksUp (rawRequest method target : Bytes) :
    LooksUp env w (makeResponse env config rawRequest tls method target w).2 := by
  simp only [makeResponse]
  split
  · exact Or.inl rfl
  · simp only [routeRequest]
    split
    · exact Or.inl rfl
    · split
      · exact Or.inl rfl
      · split
        · exact Or.inl rfl
        · split
          · exact Or.inl (handleUploadRequest_stores ..).2
          · exact serveTarget_looksUp env config _ (w.call (.makeResponse rawRequest)) ..

theorem handleClientStream_looksUp (stream : Connection) :
    LooksUp env w (handleClientStream env config tls clientIp stream w).2 := by
  simp only [handleClientStream]
  split
  · exact Or.inl rfl
  · next headers stream _ =>
      simp only [handleHeaders]
      split
      · exact Or.inl rfl
      · split
        · exact Or.inl (handleAdminStatus_stores ..).staticCache
        · split
          · exact Or.inl (handleStreamedUpload_staticCache ..)
          · split
            · exact Or.inl rfl
            · exact makeResponse_looksUp env config tls { w with calls := [] } ..

end LooksUp

/-- A request that an idle thread handles leaves a cache that the threads can
have left. -/
theorem reachable_request {ι : Type} [DecidableEq ι] {Init : CacheState ι → Prop}
    {s : CacheState ι} {env : ServerEnv} (h : Reachable Init (CacheStep env.hash) s) {i : ι}
    (hi : s.threads i = .idle) (config : ServerConfig) (tls : Bool) (clientIp : Bytes)
    (stream : Connection) {w : World} (hw : w.staticCache = s.cache) :
    Reachable Init (CacheStep env.hash)
      ⟨(handleClientStream env config tls clientIp stream w).2.staticCache, s.threads⟩ := by
  rcases handleClientStream_looksUp env config tls clientIp w stream with hsame | ⟨path, hget⟩
  · rw [hsame, hw]
    exact h
  · rw [hget, hw]
    exact reachable_get h hi env.files env.cacheNow path

/-- Without rule files, and with a `Cache-Control` value of one line, which is the
only text of the configuration that is written into a header block: whatever the
client sends, and whatever the threads have put into the cache before, no line of
the header block of the response is split. -/
theorem response_unsplit {ι : Type} [DecidableEq ι] {hash : Bytes → Nat} {config : ServerConfig}
    (hrules : config.enableHtaccess = false) (hcontrol : OneLine config.staticCacheControl)
    {s : CacheState ι} (hcache : Reachable (Configured config) (CacheStep hash) s)
    (env : ServerEnv) (tls : Bool) (clientIp : Bytes) (stream : Connection) {w : World}
    (hw : w.staticCache = s.cache) {r : Reply}
    (h : (handleClientStream env config tls clientIp stream w).1 = .ok r) :
    Unsplit r.response.headersToString := by
  have htagged := (tagged_run hcache).1
  rw [← hw] at htagged
  simp only [handleClientStream] at h
  split at h
  · cases h
  · exact (handleHeaders_oneLine (w := { w with calls := [] }) hcontrol htagged hrules h).unsplit

/-- A target that would end the line if it were decoded. -/
def encodedBreak : Bytes :=
  bytes "GET /a%0d%0aSet-Cookie:b HTTP/1.1\r\nHost: A.b:80\r\n\r\n"

def forcingConfig : ServerConfig := { forceHttps := true }

/-- It goes into the `Location` as it came. -/
theorem response_unsplit_encodedBreak :
    ∃ r, (handleClientStream quietEnv forcingConfig false []
        { pending := encodedBreak, cuts := [], failure := none } freshWorld).1 = .ok r ∧
      r.response.extraHeaders =
        [(bytes "Location", bytes "https://a.b/a%0d%0aSet-Cookie:b")] ∧
      Unsplit r.response.headersToString := by
  have hfields : (handleClientStream quietEnv forcingConfig false []
      { pending := encodedBreak, cuts := [], failure := none } freshWorld).1.map
        (fun r => decide (r.response.extraHeaders =
          [(bytes "Location", bytes "https://a.b/a%0d%0aSet-Cookie:b")])) = .ok true := by
    decide +kernel
  cases h : (handleClientStream quietEnv forcingConfig false []
      { pending := encodedBreak, cuts := [], failure := none } freshWorld).1 with
  | error e =>
      rw [h] at hfields
      cases hfields
  | ok r =>
      rw [h] at hfields
      have hlocation := of_decide_eq_true
        (Except.ok.inj (show Except.ok _ = Except.ok true from hfields))
      exact ⟨r, rfl, hlocation, response_unsplit rfl (by decide)
        (oneThread_reachable forcingConfig noFiles []) quietEnv false [] _ rfl h⟩

end HydrogenHttpd.Ref
