import HydrogenHttpd.Proofs.HeaderAgreement
import HydrogenHttpd.Proofs.RequestReading

/-!
# The declared length, read three times

Behind headers that parse, the server reads the declared length off the
section twice more: `parseHeaderContentLength` decides how much of the body is
read, and the strict parser how much of it there must be. The first gives up at
a `Content-Length` line without a value, which `parseHeadersOnly` passes over
as long as no length was declared before it. Apart from that the three agree
(`parseHeaderContentLength_of_parsed`), and the strict parser accepts the
section again unless a value holds a control character (`parse_of_parsed`).
-/

namespace HydrogenHttpd.Ref

open Base Spec

/-- A `Content-Length` line without a value. -/
def emptyLength (line : Bytes) : Bool :=
  match find? [58] line with
  | none => false
  | some colon =>
      lowercase (line.take colon) == bytes "content-length" &&
        (trimHeaderValue (line.drop (colon + 1))).isEmpty

/-! ## `parseHeaderContentLength` line by line -/

/-- Its loop, without the positions. -/
def scanLengths : List Bytes → Option Nat → Option Nat
  | [], found => found
  | line :: rest, found =>
      match contentLengthLine found line with
      | none => none
      | some found => scanLengths rest found

theorem contentLengthLoop_fields {headerPart v : Bytes} {fields : List Bytes} :
    ∀ {pre : Bytes} {found : Option Nat} {fuel : Nat},
      (∀ f ∈ fields, f ≠ [] ∧ ¬ crlf <:+: f) →
      headerPart = pre ++ (joinFields fields ++ (crlf ++ v)) → fields.length < fuel →
      contentLengthLoop headerPart fuel pre.length found = scanLengths fields found := by
  induction fields with
  | nil =>
      intro pre found fuel _ hraw hfuel
      obtain ⟨n, rfl⟩ : ∃ n, fuel = n + 1 := ⟨fuel - 1, by simp at hfuel; omega⟩
      have hfind : findFrom crlf headerPart pre.length = some pre.length := by
        rw [findFrom, hraw, List.drop_left, joinFields_nil, List.nil_append,
          show crlf ++ v = [] ++ (crlf ++ v) from rfl, find?_crlf_append (by decide)]
        simp
      rw [contentLengthLoop, hfind, scanLengths]
      simp
  | cons f fs ih =>
      intro pre found fuel hf hraw hfuel
      obtain ⟨n, rfl⟩ : ∃ n, fuel = n + 1 := ⟨fuel - 1, by simp at hfuel; omega⟩
      obtain ⟨hne, hcrlf⟩ := hf f (by simp)
      have hpos : 0 < f.length := List.length_pos_iff.mpr hne
      have htail : headerPart.drop pre.length = f ++ (crlf ++ (joinFields fs ++ (crlf ++ v))) := by
        rw [hraw, List.drop_left]
        simp
      have hfind : findFrom crlf headerPart pre.length = some (f.length + pre.length) := by
        rw [findFrom, htail, find?_crlf_append hcrlf]
        rfl
      have hline : substr headerPart pre.length f.length = f := by
        rw [substr, htail, List.take_left]
      rw [contentLengthLoop, hfind, scanLengths]
      simp only []
      rw [if_neg (show ¬ f.length + pre.length = pre.length by omega),
        show f.length + pre.length - pre.length = f.length by omega, hline]
      cases contentLengthLine found f with
      | none => rfl
      | some found' =>
          have hpre : f.length + pre.length + 2 = (pre ++ f ++ crlf).length := by
            simp [crlf]
            omega
          simp only [hpre]
          refine ih (fun g hg => hf g (by simp [hg])) ?_ (by simpa using hfuel)
          rw [hraw]
          simp

theorem parseHeaderContentLength_block (b : HeaderBlock) :
    parseHeaderContentLength b.render = scanLengths b.fields none := by
  have hcrlf := render_find_crlf b []
  rw [List.append_nil] at hcrlf
  have hlen := render_length b
  have hfields := length_le_joinFields b.fields
  rw [parseHeaderContentLength, hcrlf]
  simp only []
  rw [show b.first.length + 2 = (b.first ++ crlf).length by simp [crlf]]
  refine contentLengthLoop_fields (v := []) b.fields_crlf ?_ (by omega)
  simp [HeaderBlock.render]

/-! ## The lines of a section that parses -/

/-- The length a scan has read so far. -/
def lengthSoFar (st : HeaderScan) : Option Nat :=
  if st.contentLength = [] then none else stoull st.contentLength

/-- The declared length of a scan is a number, or there is none. -/
def LengthValid (st : HeaderScan) : Prop :=
  st.contentLength = [] ∨
    (st.contentLength.all isDigit = true ∧ (stoull st.contentLength).isSome = true)

/-- What a line does to the declared length. -/
theorem headerLineOnly_length {st st' : HeaderScan} {line : Bytes}
    (h : headerLineOnly st line = .ok st') :
    (∃ colon, find? [58] line = some colon ∧
      ((lowercase (line.take colon) = bytes "content-length" ∧
          st'.contentLength = trimHeaderValue (line.drop (colon + 1)) ∧
          (st.contentLength = [] ∨ st.contentLength = st'.contentLength)) ∨
        (lowercase (line.take colon) ≠ bytes "content-length" ∧
          st'.contentLength = st.contentLength))) := by
  simp only [headerLineOnly] at h
  split at h
  · cases h
  · split at h
    · cases h
    · next colon hcolon =>
        refine ⟨colon, hcolon, ?_⟩
        split at h
        · cases h
        · simp only [recordHeader] at h
          split at h
          · cases h
          · split at h
            · cases h
            · split at h
              · cases h
              · next hlen =>
                  cases h
                  by_cases hname : lowercase (line.take colon) = bytes "content-length"
                  · refine Or.inl ⟨hname, if_pos hname, ?_⟩
                    simp only [if_pos hname]
                    simp only [hname, true_and, not_and, not_not] at hlen
                    by_cases hst : st.contentLength = []
                    · exact Or.inl hst
                    · exact Or.inr (hlen hst)
                  · exact Or.inr ⟨hname, if_neg hname⟩

theorem fieldStep_ok {limits : HttpParseLimits} {st st' : HeaderScan} {line : Bytes}
    (h : fieldStep headerLineOnly limits st line = .ok st') :
    headerLineOnly { st with headerCount := st.headerCount + 1 } line = .ok st' := by
  simp only [fieldStep] at h
  split at h
  · cases h
  · split at h
    · cases h
    · exact h

/-- A declared length stays what it is to the end of the section. -/
theorem scanFields_length {limits : HttpParseLimits} {fields : List Bytes} :
    ∀ {st st' : HeaderScan}, scanFields headerLineOnly limits fields st = .ok st' →
      st.contentLength ≠ [] → st'.contentLength = st.contentLength := by
  induction fields with
  | nil => intro st st' h _; cases h; rfl
  | cons f fs ih =>
      intro st st' h hne
      rw [scanFields] at h
      split at h
      · cases h
      · next st₁ hstep =>
          obtain ⟨colon, -, hline⟩ := headerLineOnly_length (fieldStep_ok hstep)
          have hst₁ : st₁.contentLength = st.contentLength := by
            rcases hline with ⟨-, -, hor⟩ | ⟨-, heq⟩
            · rcases hor with hnil | heq
              · exact absurd hnil hne
              · exact heq.symm
            · exact heq
          rw [ih h (by rwa [hst₁]), hst₁]

theorem contentLengthLine_of_step {st st' : HeaderScan} {line : Bytes}
    (h : headerLineOnly st line = .ok st') (hvalid : LengthValid st') :
    contentLengthLine (lengthSoFar st) line =
      if emptyLength line then none else some (lengthSoFar st') := by
  obtain ⟨colon, hcolon, hline⟩ := headerLineOnly_length h
  have hempty : emptyLength line = (lowercase (line.take colon) == bytes "content-length" &&
      (trimHeaderValue (line.drop (colon + 1))).isEmpty) := by
    rw [emptyLength, hcolon]
  rw [contentLengthLine, hcolon, hempty]
  simp only []
  rcases hline with ⟨hname, hvalue, hor⟩ | ⟨hname, heq⟩
  · rw [if_pos hname, ← hvalue]
    by_cases hnil : st'.contentLength = []
    · rw [if_pos hnil, if_pos (by simp [hname, hnil])]
    · obtain ⟨hdigits, hsome⟩ := hvalid.resolve_left hnil
      obtain ⟨n, hn⟩ := Option.isSome_iff_exists.mp hsome
      rw [if_neg hnil, if_neg (by simp [hdigits]), hn, if_neg (by simp [hnil])]
      have hfound : (lengthSoFar st).any (· ≠ n) = false := by
        rcases hor with hst | hst
        · rw [lengthSoFar, if_pos hst]
          rfl
        · rw [lengthSoFar, hst, if_neg hnil, hn]
          simp
      simp only [hfound]
      rw [lengthSoFar, if_neg hnil, hn]
      rfl
  · rw [if_neg hname, if_neg (by simp [hname]), lengthSoFar, lengthSoFar, heq]

theorem scanLengths_of_scan {limits : HttpParseLimits} {fields : List Bytes} :
    ∀ {st st' : HeaderScan}, scanFields headerLineOnly limits fields st = .ok st' →
      LengthValid st' →
      scanLengths fields (lengthSoFar st) =
        if fields.any emptyLength then none else lengthSoFar st' := by
  induction fields with
  | nil => intro st st' h _; cases h; rfl
  | cons f fs ih =>
      intro st st' h hvalid
      rw [scanFields] at h
      split at h
      · cases h
      · next st₁ hstep =>
          have hvalid₁ : LengthValid st₁ := by
            by_cases hnil : st₁.contentLength = []
            · exact Or.inl hnil
            · rw [LengthValid, ← scanFields_length h hnil]
              exact hvalid
          have hline := contentLengthLine_of_step (fieldStep_ok hstep) hvalid₁
          rw [show lengthSoFar { st with headerCount := st.headerCount + 1 } = lengthSoFar st
            from rfl] at hline
          rw [scanLengths, hline, List.any_cons]
          cases emptyLength f with
          | true => rfl
          | false =>
              simp only [Bool.false_eq_true, if_false, Bool.false_or]
              exact ih h hvalid

/-! ## Behind headers that parse -/

theorem finishHeadersOnly_ok {limits : HttpParseLimits} {request : HttpRequest}
    {st : HeaderScan} (h : (finishHeadersOnly limits request st).ok = true) :
    LengthValid st ∧
      (finishHeadersOnly limits request st).request =
        { request with
          headers := st.headers
          hasContentLength := (lengthSoFar st).isSome || request.hasContentLength
          contentLength := (lengthSoFar st).getD request.contentLength } := by
  simp only [finishHeadersOnly] at h ⊢
  split at h
  · cases h
  · next hhost =>
      rw [if_neg hhost]
      split at h
      · next hnil =>
          rw [if_pos hnil, lengthSoFar, if_pos hnil]
          exact ⟨Or.inl hnil, rfl⟩
      · next hnil =>
          rw [if_neg hnil, lengthSoFar, if_neg hnil]
          split at h
          · cases h
          · next hall =>
              rw [if_neg hall]
              cases hn : stoull st.contentLength with
              | none => rw [hn] at h; cases h
              | some len =>
                  rw [hn] at h
                  simp only [] at h ⊢
                  split at h
                  · cases h
                  · next hmax =>
                      rw [if_neg hmax]
                      refine ⟨Or.inr ⟨by simpa using hall, by rw [hn]; rfl⟩, rfl⟩

theorem requestLine_ok {isToken : Bytes → Bool} {limits : HttpParseLimits} {line : Bytes}
    {request : HttpRequest} (h : requestLine isToken limits line = .ok request) :
    request.body = [] ∧ request.hasContentLength = false ∧ request.contentLength = 0 := by
  simp only [requestLine] at h
  repeat' split at h
  all_goals first | (cases h; exact ⟨rfl, rfl, rfl⟩) | cases h

/-- A section that parses, taken apart: its request line and its scan. -/
theorem parseHeadersOnly_ok {b : HeaderBlock} {limits : HttpParseLimits}
    (hend : EndsAtBlank b.render) (hok : (parseHeadersOnly b.render limits).ok = true) :
    ∃ request st, ¬ limits.maxHeaderLineBytes < b.first.length ∧
      requestLine localIsToken limits b.first = .ok request ∧
      scanFields headerLineOnly limits b.fields {} = .ok st ∧
      parseHeadersOnly b.render limits = finishHeadersOnly limits request st := by
  rw [parseHeadersOnly_block hend] at hok ⊢
  by_cases hlong : limits.maxHeaderLineBytes < b.first.length
  · rw [if_pos hlong] at hok
    cases hok
  · rw [if_neg hlong] at hok ⊢
    cases hreq : requestLine localIsToken limits b.first with
    | error e =>
        rw [hreq] at hok
        simp only [] at hok
        rw [requestLine_refusal hreq] at hok
        cases hok
    | ok request =>
        rw [hreq] at hok
        simp only [] at hok ⊢
        have hspec := fieldsFault_spec limits b.fields 1 {}
        cases hscan : scanFields headerLineOnly limits b.fields {} with
        | error e =>
            rw [hscan] at hok hspec
            simp only [] at hok
            rw [hspec.1] at hok
            cases hok
        | ok st => exact ⟨request, st, hlong, rfl, rfl, rfl⟩

/-- `parseHeaderContentLength` answers the declared length, unless a
`Content-Length` line has no value. -/
theorem parseHeaderContentLength_of_parsed {h : Bytes} {limits : HttpParseLimits}
    (hend : EndsAtBlank h) (hok : (parseHeadersOnly h limits).ok = true) :
    parseHeaderContentLength h =
      if (fieldsOf h).any emptyLength ∨
          (parseHeadersOnly h limits).request.hasContentLength = false then none
      else some (parseHeadersOnly h limits).request.contentLength := by
  obtain ⟨b, rfl, -, hfields⟩ := exists_block hend
  obtain ⟨request, st, -, hreq, hscan, heq⟩ := parseHeadersOnly_ok hend hok
  rw [heq] at hok ⊢
  obtain ⟨hvalid, hrequest⟩ := finishHeadersOnly_ok hok
  obtain ⟨-, hhas, hlen⟩ := requestLine_ok hreq
  rw [parseHeaderContentLength_block, show (none : Option Nat) = lengthSoFar {} from rfl,
    scanLengths_of_scan hscan hvalid, hrequest, ← hfields, hhas, hlen]
  cases hsofar : lengthSoFar st with
  | none => simp [lengthSoFar]
  | some n => cases b.fields.any emptyLength <;> simp [lengthSoFar]

/-- The declared length is within the limit, and 0 where none was declared. -/
theorem contentLength_of_parsed {h : Bytes} {limits : HttpParseLimits} (hend : EndsAtBlank h)
    (hok : (parseHeadersOnly h limits).ok = true) :
    (parseHeadersOnly h limits).request.contentLength ≤ limits.maxBodyBytes ∧
      ((parseHeadersOnly h limits).request.hasContentLength = false →
        (parseHeadersOnly h limits).request.contentLength = 0) := by
  obtain ⟨b, rfl, -, -⟩ := exists_block hend
  obtain ⟨request, st, -, hreq, -, heq⟩ := parseHeadersOnly_ok hend hok
  obtain ⟨-, hhas, hlen⟩ := requestLine_ok hreq
  rw [heq] at hok ⊢
  simp only [finishHeadersOnly] at hok ⊢
  split at hok
  · cases hok
  · next hhost =>
      rw [if_neg hhost]
      split at hok
      · next hnil =>
          rw [if_pos hnil]
          exact ⟨by simp [hlen], fun _ => hlen⟩
      · next hnil =>
          rw [if_neg hnil]
          split at hok
          · cases hok
          · next hall =>
              rw [if_neg hall]
              cases hn : stoull st.contentLength with
              | none => rw [hn] at hok; cases hok
              | some len =>
                  rw [hn] at hok
                  simp only [] at hok ⊢
                  split at hok
                  · cases hok
                  · next hmax =>
                      rw [if_neg hmax]
                      exact ⟨Nat.le_of_not_lt hmax, fun h => by cases h⟩

/-- The request `completeRequestInMemory` puts together behind headers that
parse: without a body where `parseHeaderContentLength` sees no length. -/
theorem completeRequestInMemory_of_parsed (stream : Connection) {config : ServerConfig}
    (headers : HeaderReadResult) (hend : EndsAtBlank headers.headerPart)
    (hok : (parseHeadersOnly headers.headerPart config.limits).ok = true) :
    let req := (parseHeadersOnly headers.headerPart config.limits).request
    completeRequestInMemory stream config headers =
      if (fieldsOf headers.headerPart).any emptyLength ∨ req.contentLength = 0 then
        .ok headers.headerPart
      else (bodyOf "failed to read request body: " (headers.leftover ++ stream.pending)
        stream.failure req.contentLength).map (headers.headerPart ++ ·) := by
  obtain ⟨hmax, hnone⟩ := contentLength_of_parsed hend hok
  simp only []
  rw [completeRequestInMemory, parseHeaderContentLength_of_parsed hend hok]
  by_cases hempty : (fieldsOf headers.headerPart).any emptyLength = true
  · rw [if_pos (Or.inl hempty), if_pos (Or.inl hempty)]
  · by_cases hhas : (parseHeadersOnly headers.headerPart config.limits).request.hasContentLength
        = false
    · rw [if_pos (Or.inr hhas), if_pos (Or.inr (hnone hhas))]
    · rw [if_neg (by simp [hempty, hhas])]
      by_cases hzero : (parseHeadersOnly headers.headerPart config.limits).request.contentLength = 0
      · simp only []
        rw [if_pos hzero, if_pos (Or.inr hzero)]
      · have hle : ¬ config.maxBodyBytes
            < (parseHeadersOnly headers.headerPart config.limits).request.contentLength :=
          Nat.not_lt_of_le hmax
        simp only []
        rw [if_neg hzero, if_neg hle, if_neg (by simp [hempty, hzero]),
          readBodyRest_spec (by omega)]
        cases bodyOf "failed to read request body: " (headers.leftover ++ stream.pending)
          stream.failure (parseHeadersOnly headers.headerPart config.limits).request.contentLength
          <;> rfl

/-- The strict parser on a section that parsed and some bytes behind it. -/
theorem parse_of_parsed {h : Bytes} {limits : HttpParseLimits} (hend : EndsAtBlank h)
    (hok : (parseHeadersOnly h limits).ok = true)
    (hctl : ∀ f ∈ fieldsOf h, hasControl f = false) (body : Bytes) :
    let req := (parseHeadersOnly h limits).request
    StrictHttpParser.parse (h ++ body) limits =
      if (h ++ body).length < (h.length + req.contentLength) % 2 ^ 64 then badRequest
      else
        { ok := true, status := 200, reason := bytes "OK", message := []
          request := { req with body := body.take req.contentLength } } := by
  obtain ⟨b, rfl, -, hfields⟩ := exists_block hend
  obtain ⟨request, st, hlong, hreq, hscan, heq⟩ := parseHeadersOnly_ok hend hok
  rw [heq] at hok ⊢
  obtain ⟨-, hrequest⟩ := finishHeadersOnly_ok hok
  obtain ⟨hbody, hhas, hlen⟩ := requestLine_ok hreq
  rw [parse_block hend, if_neg hlong,
    show requestLine StrictHttpParser.isToken limits b.first = .ok request from hreq,
    scanFields_eq_of_no_control (by rwa [hfields]), hscan]
  simp only [hrequest, StrictHttpParser.finish]
  simp only [finishHeadersOnly] at hok
  split at hok
  · cases hok
  · next hhost =>
      rw [if_neg hhost]
      split at hok
      · next hnil =>
          have hle : ¬ (b.render ++ body).length < (b.render.length + 0) % 2 ^ 64 := by
            have := Nat.mod_le (b.render.length + 0) (2 ^ 64)
            rw [List.length_append]
            omega
          rw [if_pos hnil, lengthSoFar, if_pos hnil, hhas, hlen]
          simp only [Option.getD_none]
          rw [if_neg hle, List.take_zero, Option.isSome_none, Bool.false_or, ← hbody, ← hhas,
            ← hlen]
      · next hnil =>
          have hdig : isDigits st.contentLength = st.contentLength.all isDigit := by
            simp [isDigits, hnil]
          rw [if_neg hnil, lengthSoFar, if_neg hnil, hdig]
          split at hok
          · cases hok
          · next hall =>
              rw [if_neg hall]
              cases hn : stoull st.contentLength with
              | none => rw [hn] at hok; cases hok
              | some len =>
                  rw [hn] at hok
                  simp only [] at hok ⊢
                  split at hok
                  · cases hok
                  · next hmax =>
                      have hsub : substr (b.render ++ body) b.render.length len
                          = body.take len := by rw [substr, List.drop_left]
                      rw [if_neg hmax, Option.getD_some, Option.isSome_some, Bool.true_or, hsub]

/-- A control character in a value, and the strict parser refuses. -/
theorem parse_of_control (limits : HttpParseLimits) {h : Bytes} (hend : EndsAtBlank h)
    (hctl : ∃ f ∈ fieldsOf h, hasControl f = true) (body : Bytes) :
    (StrictHttpParser.parse (h ++ body) limits).ok = false := by
  obtain ⟨b, rfl, -, hfields⟩ := exists_block hend
  rw [parse_block hend]
  split
  · rfl
  · cases hreq : requestLine StrictHttpParser.isToken limits b.first with
    | error e => exact requestLine_refusal hreq
    | ok request =>
        rw [← hfields] at hctl
        obtain ⟨c, hc⟩ := Option.isSome_iff_exists.mp
          (List.findIdx?_isSome.trans (by simpa using hctl) :
            (b.fields.findIdx? hasControl).isSome = true)
        obtain ⟨e, hscan, he, -⟩ := scanFields_control limits 1 {} hc
        simp only [hscan]
        exact he

end HydrogenHttpd.Ref
