import HydrogenHttpd.Proofs.AcceptedRequests

/-!
# Printing a request and parsing it

A request is printed with one space between the words of its request line and
nothing around the values of its fields. What a parse yields can be printed in
any order of the fields, and is as long as what was parsed at most, so the
limits let it through again. One sum stands between the two: the strict parser
adds the declared length to the length of the section in 64 bits, and where
that overflows it accepts a request whose body is not there. Printed, the
section is shorter, the sum may no longer overflow, and the request is refused.
-/

namespace HydrogenHttpd.Ref

open Base Spec

/-! ## Printing -/

def fieldLine (h : Bytes × Bytes) : Bytes := h.1 ++ 58 :: h.2

def HttpRequest.firstLine (req : HttpRequest) : Bytes :=
  req.method ++ space :: (req.target ++ space :: req.version)

/-- The request line, the fields and the empty line. -/
def HttpRequest.head (req : HttpRequest) : Bytes :=
  req.firstLine ++ crlf ++ joinFields (req.headers.map fieldLine) ++ crlf

def HttpRequest.print (req : HttpRequest) : Bytes := req.head ++ req.body

def lowerNames (headers : HeaderMap) : HeaderMap := headers.map fun h => (lowercase h.1, h.2)

/-- What the parser answers when it succeeds. -/
def succeeds (request : HttpRequest) : HttpParseResult :=
  { ok := true, status := 200, reason := bytes "OK", message := [], request := request }

/-- Three words that the parser takes for a request line, written with one space
between them. -/
structure LineFits (limits : HttpParseLimits) (req : HttpRequest) : Prop where
  method : StrictHttpParser.isToken req.method = true
  target_ne : req.target ≠ []
  target : ∀ c ∈ req.target, isSpace c = false
  version : req.version = bytes "HTTP/1.0" ∨ req.version = bytes "HTTP/1.1"
  methodFits : req.method.length ≤ limits.maxMethodBytes
  targetFits : req.target.length ≤ limits.maxUriBytes
  fits : req.firstLine.length ≤ limits.maxHeaderLineBytes

theorem token_byte {name : Bytes} (h : StrictHttpParser.isToken name = true) :
    ∀ c ∈ name, isSpace c = false ∧ isBlank c = false ∧ c ≠ 58 := by
  have hbytes : ∀ c : UInt8, (isAlnum c || (bytes "!#$%&'*+-.^_`|~").contains c) = true →
      isSpace c = false ∧ isBlank c = false ∧ c ≠ 58 := by
    decide +kernel
  intro c hc
  simp only [StrictHttpParser.isToken, Bool.and_eq_true, List.all_eq_true] at h
  exact hbytes c (h.2 c hc)

theorem token_ne_nil {name : Bytes} (h : StrictHttpParser.isToken name = true) : name ≠ [] := by
  rintro rfl
  cases h

section Line

variable {limits : HttpParseLimits} {req : HttpRequest}

theorem LineFits.words (h : LineFits limits req) :
    wordsOf req.firstLine = [req.method, req.target, req.version] := by
  have hversion : req.version ≠ [] ∧ ∀ c ∈ req.version, isSpace c = false := by
    rcases h.version with hv | hv
    · rw [hv]
      decide +kernel
    · rw [hv]
      decide +kernel
  have hspace : isSpace space = true := by decide
  have hlast : wordsOf req.version = [req.version] := by
    have hword := wordsOf_word (s := []) hversion.1 hversion.2 (by simp)
    rwa [List.append_nil, wordsOf_nil] at hword
  rw [HttpRequest.firstLine, wordsOf_word (token_ne_nil h.method)
      (fun c hc => (token_byte h.method c hc).1) (by simpa using hspace), wordsOf_space hspace,
    wordsOf_word h.target_ne h.target (by simpa using hspace), wordsOf_space hspace, hlast]

theorem LineFits.accepted (h : LineFits limits req) :
    requestLine StrictHttpParser.isToken limits req.firstLine =
      .ok { method := req.method, target := req.target, version := req.version } := by
  rw [requestLine_words, h.words]
  simp only [requestWords]
  rw [if_neg (Nat.not_lt_of_le h.methodFits), if_neg (by simp [h.method]),
    if_neg (Nat.not_lt_of_le h.targetFits), if_neg]
  rintro ⟨h1, h0⟩
  exact h.version.elim h0 h1

theorem LineFits.no_crlf (h : LineFits limits req) : ¬ crlf <:+: req.firstLine := by
  intro hin
  have hcr : cr ∈ req.firstLine := hin.subset (by decide)
  have hversion : cr ∉ req.version := by
    rcases h.version with hv | hv
    · rw [hv]
      decide
    · rw [hv]
      decide
  have hspaced : isSpace cr = true ∧ cr ≠ space := by decide
  simp only [HttpRequest.firstLine, List.mem_append, List.mem_cons, hspaced.2, hversion,
    false_or, or_false] at hcr
  rcases hcr with hmethod | htarget
  · have hno := (token_byte h.method _ hmethod).1
    rw [hspaced.1] at hno
    cases hno
  · have hno := h.target _ htarget
    rw [hspaced.1] at hno
    cases hno

end Line

/-! ## The fields -/

theorem FieldFits.read {limits : HttpParseLimits} {field : Bytes × Bytes}
    (h : FieldFits limits field) (st : HeaderScan) :
    StrictHttpParser.headerLine st (fieldLine field) =
      recordHeader st (lowercase field.1) field.2 := by
  have hcolon : (58 : UInt8) ∉ field.1 := fun hmem => (token_byte h.token _ hmem).2.2 rfl
  have hfind : find? [58] (fieldLine field) = some field.1.length :=
    find?_elem_append hcolon field.2
  have htrim : trimHeaderValue field.2 = field.2 :=
    trimWith_eq_self_of_ends (fun c hc => h.head c hc) (fun c hc => h.last c hc)
  have hblank : ¬ (fieldLine field).head?.any isBlank = true := by
    cases hname : field.1 with
    | nil => exact absurd hname (token_ne_nil h.token)
    | cons c cs =>
        have hc := (token_byte h.token c (by simp [hname])).2.1
        simp [fieldLine, hname, hc]
  have hprintable : ¬ field.2.any (fun c => isCtl c && c != tab) = true := by
    intro hany
    obtain ⟨c, hc, hctl⟩ := List.any_eq_true.mp hany
    simp only [Bool.and_eq_true, bne_iff_ne, ne_eq] at hctl
    exact hctl.2 (h.printable c hc hctl.1)
  have hname : (fieldLine field).take field.1.length = field.1 := List.take_left
  have hvalue : (fieldLine field).drop (field.1.length + 1) = field.2 := by
    rw [fieldLine, ← List.drop_drop, List.drop_left]
    rfl
  rw [StrictHttpParser.headerLine, if_neg hblank, hfind]
  simp only [hname, hvalue, htrim]
  rw [if_neg (by simp [h.token]), if_neg hprintable]

theorem FieldFits.line {limits : HttpParseLimits} {field : Bytes × Bytes}
    (h : FieldFits limits field) :
    fieldLine field ≠ [] ∧ ¬ crlf <:+: fieldLine field ∧
      (fieldLine field).length ≤ limits.maxHeaderLineBytes := by
  refine ⟨by simp [fieldLine], fun hin => ?_, ?_⟩
  · have hcr : cr ∈ fieldLine field := hin.subset (by decide)
    have hctl : isSpace cr = true ∧ cr ≠ 58 ∧ isCtl cr = true ∧ cr ≠ tab := by decide
    simp only [fieldLine, List.mem_append, List.mem_cons, hctl.2.1, false_or] at hcr
    rcases hcr with hname | hvalue
    · have hno := (token_byte h.token _ hname).1
      rw [hctl.1] at hno
      cases hno
    · exact hctl.2.2.2 (h.printable _ hvalue hctl.2.2.1)
  · have hfits := h.fits
    simp only [fieldLine, List.length_append, List.length_cons]
    omega

/-- A field under a new name is recorded. -/
theorem recordHeader_new {headers : HeaderMap} {n : Nat} {name value : Bytes}
    (hnew : name ∉ headers.map (·.1)) (huncoded : name ≠ bytes "transfer-encoding") :
    recordHeader (scanOf headers n) name value = .ok (scanOf (headers ++ [(name, value)]) n) := by
  have hnone := lookup_eq_none_of_not_mem hnew
  rw [recordHeader, if_neg, if_neg huncoded, if_neg]
  · rw [← put_new hnew]
    exact congrArg Except.ok (scanOf_put headers n name value)
  · rintro ⟨rfl, hlength, -⟩
    exact hlength (by rw [scanOf, hnone]; rfl)
  · rintro ⟨rfl, hhost⟩
    rw [scanOf, hnone] at hhost
    cases hhost

/-- The scan of printed fields. -/
theorem scanFields_print {limits : HttpParseLimits} (headers : HeaderMap) :
    ∀ (done : HeaderMap) (n : Nat), (∀ field ∈ headers, FieldFits limits field) →
      ((done ++ lowerNames headers).map (·.1)).Nodup → n + headers.length ≤ limits.maxHeaders →
      scanFields StrictHttpParser.headerLine limits (headers.map fieldLine) (scanOf done n) =
        .ok (scanOf (done ++ lowerNames headers) (n + headers.length)) := by
  induction headers with
  | nil =>
      intro done n _ _ _
      simp [scanFields, lowerNames]
  | cons field rest ih =>
      intro done n hfields hnodup hcount
      rw [List.length_cons] at hcount
      have hfield := hfields field List.mem_cons_self
      have hsplit : done ++ lowerNames (field :: rest) =
          (done ++ [(lowercase field.1, field.2)]) ++ lowerNames rest := by
        simp [lowerNames]
      rw [hsplit] at hnodup ⊢
      have hnew : lowercase field.1 ∉ done.map (·.1) := by
        rw [List.append_assoc, List.map_append, List.nodup_append] at hnodup
        intro hmem
        exact hnodup.2.2 _ hmem _ (by simp) rfl
      have hstep : fieldStep StrictHttpParser.headerLine limits (scanOf done n) (fieldLine field) =
          .ok (scanOf (done ++ [(lowercase field.1, field.2)]) (n + 1)) := by
        have hbound : ¬ limits.maxHeaders < (scanOf done n).headerCount + 1 :=
          show ¬ limits.maxHeaders < n + 1 by omega
        rw [fieldStep, if_neg (Nat.not_lt_of_le hfield.line.2.2), if_neg hbound, hfield.read]
        exact recordHeader_new (n := n + 1) hnew hfield.uncoded
      rw [List.map_cons, scanFields, hstep]
      simp only []
      rw [ih _ (n + 1) (fun f hf => hfields f (List.mem_cons_of_mem _ hf)) hnodup (by omega),
        List.length_cons, Nat.add_right_comm n 1, Nat.add_assoc]

/-- Behind the printed head of a request the parser has the request line and the
fields, and goes on with what follows. -/
theorem parse_head {limits : HttpParseLimits} {req : HttpRequest} (hline : LineFits limits req)
    (hfields : ∀ field ∈ req.headers, FieldFits limits field)
    (hnames : ((lowerNames req.headers).map (·.1)).Nodup)
    (hcount : req.headers.length ≤ limits.maxHeaders) (rest : Bytes) :
    StrictHttpParser.parse (req.head ++ rest) limits =
      StrictHttpParser.finish limits (req.head ++ rest) req.head.length
        { method := req.method, target := req.target, version := req.version }
        (scanOf (lowerNames req.headers) req.headers.length) := by
  let block : HeaderBlock :=
    { first := req.firstLine
      fields := req.headers.map fieldLine
      first_crlf := hline.no_crlf
      fields_crlf := fun line hmem => by
        obtain ⟨field, hfield, rfl⟩ := List.mem_map.mp hmem
        exact ⟨(hfields field hfield).line.1, (hfields field hfield).line.2.1⟩ }
  have hscan := scanFields_print req.headers [] 0 hfields (by simpa using hnames) (by omega)
  rw [List.nil_append, Nat.zero_add] at hscan
  have hparse := parse_block block.endsAtBlank rest limits
  rw [if_neg (Nat.not_lt_of_le hline.fits), hline.accepted] at hparse
  simp only [] at hparse
  rw [show scanFields StrictHttpParser.headerLine limits block.fields {} =
    .ok (scanOf (lowerNames req.headers) req.headers.length) from hscan] at hparse
  exact hparse

/-! ## From a request to its text and back -/

/-- A request value that can be printed and read. A string is no longer than a
`size_t` counts. -/
structure Printable (limits : HttpParseLimits) (req : HttpRequest) : Prop where
  line : LineFits limits req
  fields : ∀ field ∈ req.headers, FieldFits limits field
  names : (req.headers.map fun h => lowercase h.1).Nodup
  count : req.headers.length ≤ limits.maxHeaders
  host : req.version = bytes "HTTP/1.1" → bytes "host" ∈ req.headers.map fun h => lowercase h.1
  length : (lowerNames req.headers).lookup (bytes "content-length") =
    if req.body = [] then none else some (decimal req.body.length)
  body : req.body.length ≤ limits.maxBodyBytes
  size : req.body.length < 2 ^ 64

theorem stoull_decimal {n : Nat} (h : n < 2 ^ 64) : stoull (decimal n) = some n := by
  rw [stoull_of_digits (decimal_ne_nil n) fun c hc => isDigit_of_mem_decimal hc,
    digitsValue_decimal, if_neg (Nat.not_le_of_lt h)]

/-- The printed request, with any bytes behind it, is read as the request. -/
theorem parse_print {limits : HttpParseLimits} {req : HttpRequest} (h : Printable limits req)
    (x : Bytes) :
    StrictHttpParser.parse (req.print ++ x) limits = succeeds { req with
      headers := lowerNames req.headers
      hasContentLength := !req.body.isEmpty
      contentLength := req.body.length } := by
  have hnames : ((lowerNames req.headers).map (·.1)).Nodup := by
    simpa [lowerNames, List.map_map, Function.comp_def] using h.names
  have hhost : ¬ (req.version = bytes "HTTP/1.1" ∧
      ((lowerNames req.headers).lookup (bytes "host")).isSome = false) := by
    rintro ⟨hversion, hnone⟩
    obtain ⟨field, hfield, hname⟩ := List.mem_map.mp (h.host hversion)
    have hmem : (bytes "host", field.2) ∈ lowerNames req.headers :=
      List.mem_map.mpr ⟨field, hfield, by rw [hname]⟩
    rw [(lookup_eq_some_iff hnames).mpr hmem] at hnone
    cases hnone
  rw [HttpRequest.print, List.append_assoc, parse_head h.line h.fields hnames h.count,
    StrictHttpParser.finish]
  simp only [scanOf, h.length]
  rw [if_neg hhost]
  by_cases hbody : req.body = []
  · rw [if_pos hbody]
    simp [succeeds, hbody]
  · have hdigits : isDigits (decimal req.body.length) = true := by
      simp only [isDigits, Bool.and_eq_true, Bool.not_eq_true', List.isEmpty_eq_false_iff,
        List.all_eq_true]
      exact ⟨decimal_ne_nil _, fun c hc => isDigit_of_mem_decimal hc⟩
    have hwhole : ¬ (req.head ++ (req.body ++ x)).length <
        (req.head.length + req.body.length) % 2 ^ 64 := by
      have hmod := Nat.mod_le (req.head.length + req.body.length) (2 ^ 64)
      simp only [List.length_append]
      omega
    have hbodyOf : substr (req.head ++ (req.body ++ x)) req.head.length req.body.length =
        req.body := by
      rw [substr, List.drop_left, List.take_left]
    rw [if_neg hbody, Option.getD_some, if_neg (decimal_ne_nil _),
      if_neg (by simp [hdigits]), stoull_decimal h.size]
    simp only []
    rw [if_neg (Nat.not_lt_of_le h.body), if_neg hwhole, hbodyOf]
    simp [succeeds, hbody]

/-! ## From a text to a request and back -/

/-- The body is there, or the declared length is so long that the sum with the
printed head overflows too. -/
def BodySent (limits : HttpParseLimits) (raw : Bytes) : Prop :=
  let request := (parseHeadersOnly (headerSection raw) limits).request
  (headerSection raw).length + request.contentLength ≤ raw.length ∨
    2 ^ 64 ≤ request.head.length + request.contentLength

instance (limits : HttpParseLimits) (raw : Bytes) : Decidable (BodySent limits raw) :=
  inferInstanceAs (Decidable (_ ∨ _))

section Accepted

variable {limits : HttpParseLimits} {raw : Bytes} {b : HeaderBlock} {body : Bytes}
  {request : HttpRequest} {st : HeaderScan}

/-- What the strict parser answers on an accepted request. -/
theorem Accepted.answer (h : Accepted limits raw b body request st)
    (hok : (StrictHttpParser.parse raw limits).ok = true) :
    ¬ (request.version = bytes "HTTP/1.1" ∧ st.sawHost = false) ∧
    (st.contentLength = [] ∧
        StrictHttpParser.parse raw limits = succeeds { request with headers := st.headers } ∨
      ∃ len, st.contentLength ≠ [] ∧ isDigits st.contentLength = true ∧
        stoull st.contentLength = some len ∧ len ≤ limits.maxBodyBytes ∧
        (b.render.length + len) % 2 ^ 64 ≤ raw.length ∧
        StrictHttpParser.parse raw limits = succeeds { request with
          headers := st.headers
          hasContentLength := true
          contentLength := len
          body := body.take len }) := by
  rw [h.parsed] at hok ⊢
  simp only [StrictHttpParser.finish] at hok ⊢
  split at hok
  · cases hok
  · next hhost =>
      rw [if_neg hhost]
      refine ⟨hhost, ?_⟩
      split at hok
      · next hnone =>
          rw [if_pos hnone]
          exact Or.inl ⟨hnone, rfl⟩
      · next hsome =>
          rw [if_neg hsome]
          split at hok
          · cases hok
          · next hdigits =>
              rw [if_neg hdigits]
              cases hlen : stoull st.contentLength with
              | none =>
                  rw [hlen] at hok
                  cases hok
              | some len =>
                  rw [hlen] at hok
                  simp only [] at hok ⊢
                  split at hok
                  · cases hok
                  · next hmax =>
                      rw [if_neg hmax]
                      split at hok
                      · cases hok
                      · next hwhole =>
                          have hsub : substr raw b.render.length len = body.take len := by
                            rw [substr, h.raw_eq, List.drop_left]
                          rw [if_neg hwhole, hsub]
                          exact Or.inr ⟨len, hsome, by simpa using hdigits, rfl,
                            Nat.le_of_not_lt hmax, Nat.le_of_not_lt hwhole, rfl⟩

/-- The header section is read alike by `parseHeadersOnly`. -/
theorem Accepted.headersOnly (h : Accepted limits raw b body request st) :
    parseHeadersOnly (headerSection raw) limits = finishHeadersOnly limits request st := by
  have hctl : ∀ f ∈ b.fields, hasControl f = false := by
    by_contra hsome
    obtain ⟨c, hc⟩ := Option.isSome_iff_exists.mp
      (List.findIdx?_isSome.trans (by simpa using hsome) :
        (b.fields.findIdx? hasControl).isSome = true)
    obtain ⟨e, hscan, -⟩ := scanFields_control limits 1 {} hc
    rw [h.scan] at hscan
    cases hscan
  rw [h.section_eq, parseHeadersOnly_block b.endsAtBlank, if_neg (Nat.not_lt_of_le h.short),
    show requestLine localIsToken limits b.first = .ok request from h.line,
    ← scanFields_eq_of_no_control hctl, h.scan]

/-- The request line, printed, fits where it came from. -/
theorem Accepted.lineFits (h : Accepted limits raw b body request st) :
    LineFits limits request := by
  obtain ⟨hwords, hchecks⟩ := requestLine_accepts h.line
  have htarget := mem_wordsOf (s := b.first) (w := request.target) (by simp [hwords])
  have hlength := length_wordsOf_le b.first
  have hshort := h.short
  simp only [hwords, List.map_cons, List.map_nil, List.sum_cons, List.sum_nil] at hlength
  obtain ⟨hmethod, htoken, huri, hversion, -⟩ := requestWords_ok hchecks
  refine ⟨htoken, htarget.1, htarget.2, hversion, hmethod, huri, ?_⟩
  simp only [HttpRequest.firstLine, List.length_append, List.length_cons]
  omega

/-- The accepted request with its fields in any order, printed: the parser has
the same request line and the same fields, and goes on with the printed body. -/
theorem Accepted.parse_print (h : Accepted limits raw b body request st) (req : HttpRequest)
    (hmethod : req.method = request.method) (htarget : req.target = request.target)
    (hversion : req.version = request.version) (hperm : req.headers.Perm st.headers) :
    StrictHttpParser.parse req.print limits =
      StrictHttpParser.finish limits (req.head ++ req.body) req.head.length request
        { st with headers := req.headers } := by
  have hscanned := scanned_fields (scanned_empty limits) h.scan
  have hkeys : (req.headers.map (·.1)).Nodup := (hperm.map (·.1)).nodup_iff.mpr hscanned.keys
  have hfields : ∀ field ∈ req.headers, FieldFits limits field ∧ lowercase field.1 = field.1 :=
    fun field hfield => hscanned.fields field (hperm.mem_iff.mp hfield)
  have hlower : lowerNames req.headers = req.headers := by
    rw [lowerNames]
    conv_rhs => rw [← List.map_id req.headers]
    exact List.map_congr_left fun field hfield => Prod.ext (hfields field hfield).2 rfl
  have hcount : req.headers.length ≤ limits.maxHeaders := by
    rw [hperm.length_eq]
    exact hscanned.count.trans hscanned.bound
  have hline : LineFits limits req := by
    obtain ⟨h1, h2, h3, h4, h5, h6, h7⟩ := h.lineFits
    rw [HttpRequest.firstLine, ← hmethod, ← htarget, ← hversion] at h7
    exact ⟨hmethod ▸ h1, htarget ▸ h2, htarget ▸ h3, hversion ▸ h4, hmethod ▸ h5, htarget ▸ h6, h7⟩
  have hrequest : { method := req.method, target := req.target, version := req.version } =
      request := by
    rw [hmethod, htarget, hversion]
    exact (requestWords_ok (requestLine_accepts h.line).2).2.2.2.2.symm
  have hscan : ∀ text offset,
      StrictHttpParser.finish limits text offset request
          (scanOf req.headers req.headers.length) =
        StrictHttpParser.finish limits text offset request { st with headers := req.headers } := by
    intro text offset
    rw [hscanned.eq]
    simp only [StrictHttpParser.finish, scanOf, lookup_perm hperm hkeys]
  rw [HttpRequest.print, parse_head hline (fun field hfield => (hfields field hfield).1)
    (by rwa [hlower]) hcount, hlower, hrequest, hscan]

end Accepted

theorem head_length_perm {req req' : HttpRequest} (hline : req'.firstLine = req.firstLine)
    (hperm : req'.headers.Perm req.headers) : req'.head.length = req.head.length := by
  have hfields := ((hperm.map fieldLine).flatMap_right (· ++ crlf)).length_eq
  simp only [HttpRequest.head, List.length_append, joinFields]
  rw [hfields, hline]

/-- The sum of a printed head and the declared length, against what there is of
the body. -/
theorem sum_within_iff {head len sent : Nat} (hlen : len < 2 ^ 64) :
    (head + len) % 2 ^ 64 ≤ head + min len sent ↔ len ≤ sent ∨ 2 ^ 64 ≤ head + len := by
  omega

/-- A request that was parsed, printed with its fields in any order, is read as
itself if and only if its body is there or the sum overflows again. -/
theorem print_parse_iff {limits : HttpParseLimits} {raw : Bytes}
    (hok : (StrictHttpParser.parse raw limits).ok = true) {headers : HeaderMap}
    (hperm : headers.Perm (StrictHttpParser.parse raw limits).request.headers) :
    let req := { (StrictHttpParser.parse raw limits).request with headers := headers }
    StrictHttpParser.parse req.print limits = succeeds req ↔ BodySent limits raw := by
  obtain ⟨b, body, request, st, h⟩ := accepted_of_ok hok
  obtain ⟨hnoBody, hnoLength, hzero⟩ := requestLine_ok h.line
  have hsection : (headerSection raw).length = b.render.length := by rw [h.section_eq]
  have hraw : raw.length = b.render.length + body.length := by rw [h.raw_eq, List.length_append]
  obtain ⟨hhost, ⟨hnone, hparse⟩ | ⟨len, hsome, hdigits, hlen, hmax, -, hparse⟩⟩ := h.answer hok
  · rw [hparse] at hperm ⊢
    have hsent : BodySent limits raw := by
      refine Or.inl ?_
      rw [h.headersOnly, hsection, hraw, finishHeadersOnly, if_neg hhost, if_pos hnone]
      simp only [hzero]
      omega
    have hprint := h.parse_print { request with headers := headers } rfl rfl rfl hperm
    refine iff_of_true ?_ hsent
    simp only [succeeds]
    rw [hprint]
    simp only [StrictHttpParser.finish]
    rw [if_neg hhost, if_pos hnone]
  · rw [hparse] at hperm ⊢
    have hall : st.contentLength.all isDigit = true := by
      simp only [isDigits, Bool.and_eq_true] at hdigits
      exact hdigits.2
    have hsize : len < 2 ^ 64 := by
      rw [stoull_of_digits hsome (by simpa using hall)] at hlen
      split at hlen
      · cases hlen
      · cases hlen
        omega
    have hhead := @head_length_perm { request with headers := st.headers }
      { request with headers := headers } rfl hperm
    have hsent : BodySent limits raw ↔ len ≤ body.length ∨
        2 ^ 64 ≤ (HttpRequest.head { request with headers := headers }).length + len := by
      rw [BodySent, h.headersOnly, hsection, hraw, finishHeadersOnly, if_neg hhost,
        if_neg hsome, if_neg (by simp [hall]), hlen]
      simp only []
      rw [if_neg (Nat.not_lt_of_le hmax), hhead]
      simp only []
      exact or_congr_left (by omega)
    have hprint := h.parse_print { request with
      headers := headers, body := body.take len, hasContentLength := true, contentLength := len }
      rfl rfl rfl hperm
    rw [hsent, ← sum_within_iff hsize]
    simp only [succeeds]
    rw [hprint]
    simp only [StrictHttpParser.finish]
    rw [if_neg hhost, if_neg hsome, if_neg (by simp [hdigits]), hlen]
    simp only []
    rw [if_neg (Nat.not_lt_of_le hmax)]
    have hhead' : (HttpRequest.head { request with
        headers := headers, body := body.take len, hasContentLength := true,
        contentLength := len }).length =
          (HttpRequest.head { request with headers := headers }).length := rfl
    rw [List.length_append, List.length_take, hhead']
    by_cases hwhole : ((HttpRequest.head { request with headers := headers }).length + len) %
        2 ^ 64 ≤ (HttpRequest.head { request with headers := headers }).length +
          min len body.length
    · rw [if_neg (Nat.not_lt_of_le hwhole), ← hhead', substr, List.drop_left, List.take_take,
        Nat.min_self]
      exact iff_of_true rfl hwhole
    · rw [if_pos (Nat.lt_of_not_le hwhole)]
      exact iff_of_false (fun hno => by cases congrArg HttpParseResult.ok hno) hwhole

/-- Printing a request and parsing it, whatever follows it, gives the request
with its names in lower case. Parsing, printing in any order of the fields and
parsing again gives the same request if and only if the body was sent. -/
theorem round_trip_iff (limits : HttpParseLimits) :
    (∀ req x, Printable limits req →
      StrictHttpParser.parse (req.print ++ x) limits = succeeds { req with
        headers := lowerNames req.headers
        hasContentLength := !req.body.isEmpty
        contentLength := req.body.length }) ∧
    ∀ raw headers, (StrictHttpParser.parse raw limits).ok = true →
      headers.Perm (StrictHttpParser.parse raw limits).request.headers →
      let req := { (StrictHttpParser.parse raw limits).request with headers := headers }
      (StrictHttpParser.parse req.print limits = succeeds req ↔ BodySent limits raw) :=
  ⟨fun _ x h => parse_print h x, fun _ _ hok hperm => print_parse_iff hok hperm⟩

/-- A request with a body that ends in an empty line. -/
def formRequest : HttpRequest :=
  { method := bytes "POST"
    target := bytes "/form"
    version := bytes "HTTP/1.1"
    headers := [(bytes "Content-Length", bytes "5"), (bytes "Host", bytes "a")]
    body := bytes "a\r\n\r\n" }

theorem formRequest_printable : Printable {} formRequest where
  line := ⟨by decide, by decide, by decide +kernel, Or.inr rfl, by decide, by decide, by decide⟩
  fields := by
    simp only [formRequest, List.forall_mem_cons]
    exact ⟨⟨by decide +kernel, by decide +kernel, by decide +kernel, by decide +kernel,
        by decide +kernel, by decide +kernel⟩,
      ⟨by decide +kernel, by decide +kernel, by decide +kernel, by decide +kernel,
        by decide +kernel, by decide +kernel⟩, by simp⟩
  names := by decide +kernel
  count := by decide
  host := by decide +kernel
  length := by decide +kernel
  body := by decide
  size := by decide

theorem round_trip_iff_formRequest :
    StrictHttpParser.parse (formRequest.print ++ crlf2) {} = succeeds { formRequest with
      headers := lowerNames formRequest.headers, hasContentLength := true, contentLength := 5 } ∧
    StrictHttpParser.parse (StrictHttpParser.parse formRequest.print {}).request.print {} =
      succeeds (StrictHttpParser.parse formRequest.print {}).request :=
  ⟨(round_trip_iff {}).1 formRequest crlf2 formRequest_printable,
    ((round_trip_iff {}).2 formRequest.print _ (by decide +kernel) (List.Perm.refl _)).mpr
      (by decide +kernel)⟩

/-- Limits that leave the length of a body open. -/
def openLimits : HttpParseLimits := { maxBodyBytes := 2 ^ 64 - 1 }

/-- A request without a body, whose declared length overflows with the length of
its section. -/
def overflowingRequest : Bytes :=
  bytes "GET / HTTP/1.0\r\nContent-Length: 18446744073709551560\r\n\r\n"

/-- It is accepted, and what was accepted is refused when it is printed. -/
theorem overflow_not_reread :
    (StrictHttpParser.parse overflowingRequest openLimits).ok = true ∧
      StrictHttpParser.parse (StrictHttpParser.parse overflowingRequest openLimits).request.print
        openLimits = badRequest := by
  decide +kernel

end HydrogenHttpd.Ref
