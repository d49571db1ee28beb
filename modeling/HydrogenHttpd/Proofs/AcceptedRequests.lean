import HydrogenHttpd.Base.Assoc
import HydrogenHttpd.Base.Words
import HydrogenHttpd.Proofs.DeclaredLength

/-!
# Requests the strict parser accepts

An accepted raw request is a header block and what follows it, and what the
scan carries along says what the lines were: the header map holds the last
value of each name, in lower case and without surrounding blanks, and the two
other members of the scan can be read off that map (`scanOf`). So a scan is
known by its map and its count.
-/

namespace HydrogenHttpd.Ref

open Base Spec

/-! ## The request line -/

/-- The checks on the three words of a request line. -/
def requestWords (isToken : Bytes → Bool) (limits : HttpParseLimits)
    (method target version : Bytes) : Except HttpParseResult HttpRequest :=
  if limits.maxMethodBytes < method.length then .error methodNotAllowed
  else if isToken method = false then .error badRequest
  else if limits.maxUriBytes < target.length then .error uriTooLong
  else if version ≠ bytes "HTTP/1.1" ∧ version ≠ bytes "HTTP/1.0" then
    .error versionNotSupported
  else .ok { method := method, target := target, version := version }

theorem requestWords_ok {isToken : Bytes → Bool} {limits : HttpParseLimits}
    {method target version : Bytes} {request : HttpRequest}
    (h : requestWords isToken limits method target version = .ok request) :
    method.length ≤ limits.maxMethodBytes ∧ isToken method = true ∧
      target.length ≤ limits.maxUriBytes ∧
      (version = bytes "HTTP/1.0" ∨ version = bytes "HTTP/1.1") ∧
      request = { method := method, target := target, version := version } := by
  rw [requestWords] at h
  split at h
  · cases h
  · next hmethod =>
      split at h
      · cases h
      · next htoken =>
          split at h
          · cases h
          · next huri =>
              split at h
              · cases h
              · next hversion =>
                  refine ⟨Nat.le_of_not_lt hmethod, by simpa using htoken, Nat.le_of_not_lt huri,
                    ?_, (Except.ok.inj h).symm⟩
                  rw [not_and_or, not_not, not_not] at hversion
                  exact hversion.symm

/-- A request line is its words, of which there are three. -/
theorem requestLine_words (isToken : Bytes → Bool) (limits : HttpParseLimits) (line : Bytes) :
    requestLine isToken limits line =
      match wordsOf line with
      | [method, target, version] => requestWords isToken limits method target version
      | _ => .error badRequest := by
  cases h1 : readWord line with
  | mk method rest1 =>
  cases h2 : readWord rest1 with
  | mk target rest2 =>
  cases h3 : readWord rest2 with
  | mk version rest3 =>
  cases h4 : readWord rest3 with
  | mk extra rest4 =>
  have hnext : ∀ {s w rest : Bytes}, readWord s = (w, rest) →
      wordsOf s = if w = [] then [] else w :: wordsOf rest := by
    intro s w rest h
    rw [wordsOf_readWord, h]
  rw [hnext h1]
  simp only [requestLine, h1, h2, h3, h4]
  by_cases hmethod : method = []
  · rw [if_pos hmethod]
    split
    · rfl
    · exact if_pos (Or.inl hmethod)
  · rw [if_neg hmethod, hnext h2]
    by_cases htarget : target = []
    · rw [if_pos htarget]
      split
      · rfl
      · exact if_pos (Or.inr (Or.inl htarget))
    · rw [if_neg htarget, hnext h3]
      by_cases hversion : version = []
      · rw [if_pos hversion]
        split
        · rfl
        · exact if_pos (Or.inr (Or.inr hversion))
      · rw [if_neg hversion, hnext h4]
        by_cases hextra : extra = []
        · rw [if_neg (not_not.mpr hextra), if_neg (by simp [hmethod, htarget, hversion]),
            if_pos hextra]
          rfl
        · rw [if_pos hextra, if_neg hextra]

/-- The words of a request line that is accepted. -/
theorem requestLine_accepts {isToken : Bytes → Bool} {limits : HttpParseLimits} {line : Bytes}
    {request : HttpRequest} (h : requestLine isToken limits line = .ok request) :
    wordsOf line = [request.method, request.target, request.version] ∧
      requestWords isToken limits request.method request.target request.version =
        .ok request := by
  rw [requestLine_words] at h
  split at h
  · next method target version hwords =>
      obtain ⟨-, -, -, -, hrequest⟩ := requestWords_ok h
      rw [hrequest] at h ⊢
      exact ⟨hwords, h⟩
  · cases h

/-! ## A header line -/

theorem recordHeader_ok {st st' : HeaderScan} {name value : Bytes}
    (h : recordHeader st name value = .ok st') :
    name ≠ bytes "transfer-encoding" ∧ st' =
      { st with
        headers := put name value st.headers
        sawHost := st.sawHost || name = bytes "host"
        contentLength := if name = bytes "content-length" then value else st.contentLength } := by
  simp only [recordHeader] at h
  split at h
  · cases h
  · split at h
    · cases h
    · next hcoded =>
        split at h
        · cases h
        · exact ⟨hcoded, (Except.ok.inj h).symm⟩

theorem headerLine_refusal {st : HeaderScan} {line : Bytes} {e : HttpParseResult}
    (h : StrictHttpParser.headerLine st line = .error e) : e.ok = false := by
  by_cases hctl : hasControl line = true
  · rw [headerLine_control hctl] at h
    cases h
    rfl
  · rw [headerLine_eq (by simpa using hctl)] at h
    exact headerLineOnly_refusal h

theorem scanFields_refusal {limits : HttpParseLimits} {fields : List Bytes} {st : HeaderScan}
    {e : HttpParseResult}
    (h : scanFields StrictHttpParser.headerLine limits fields st = .error e) : e.ok = false := by
  induction fields generalizing st with
  | nil => cases h
  | cons line rest ih =>
      rw [scanFields] at h
      split at h
      · next hline =>
          cases h
          rw [fieldStep] at hline
          split at hline
          · cases hline
            rfl
          · split at hline
            · cases hline
              rfl
            · exact headerLine_refusal hline
      · exact ih h

/-- A line is accepted as a name and a value, of which the value is trimmed. -/
theorem headerLine_ok {st st' : HeaderScan} {line : Bytes}
    (h : StrictHttpParser.headerLine st line = .ok st') :
    ∃ name rest, line = name ++ 58 :: rest ∧ StrictHttpParser.isToken name = true ∧
      (∀ c ∈ trimHeaderValue rest, isCtl c = true → c = tab) ∧
      recordHeader st (lowercase name) (trimHeaderValue rest) = .ok st' := by
  simp only [StrictHttpParser.headerLine] at h
  split at h
  · cases h
  · split at h
    · cases h
    · next colon hcolon =>
        split at h
        · cases h
        · next htoken =>
            split at h
            · cases h
            · next hprintable =>
                refine ⟨line.take colon, line.drop (colon + 1), (find?_elem_split hcolon).2,
                  by simpa using htoken, fun c hc hctl => ?_, h⟩
                by_contra htab
                exact hprintable (List.any_eq_true.mpr ⟨c, hc, by simp [hctl, htab]⟩)

/-! ## What a scan knows -/

/-- The scan with this header map and this count. -/
def scanOf (headers : HeaderMap) (headerCount : Nat) : HeaderScan :=
  { headers := headers
    headerCount := headerCount
    sawHost := (headers.lookup (bytes "host")).isSome
    contentLength := (headers.lookup (bytes "content-length")).getD [] }

/-- The two other members follow the map. -/
theorem scanOf_put (headers : HeaderMap) (headerCount : Nat) (name value : Bytes) :
    { scanOf headers headerCount with
      headers := put name value headers
      sawHost := (scanOf headers headerCount).sawHost || name = bytes "host"
      contentLength := if name = bytes "content-length" then value
        else (scanOf headers headerCount).contentLength } =
      scanOf (put name value headers) headerCount := by
  simp only [scanOf, HeaderScan.mk.injEq, true_and]
  constructor
  · by_cases hname : name = bytes "host"
    · rw [hname, lookup_put_self]
      simp
    · rw [lookup_put_of_ne (Ne.symm hname)]
      simp [hname]
  · by_cases hname : name = bytes "content-length"
    · rw [hname, lookup_put_self, if_pos rfl]
      rfl
    · rw [lookup_put_of_ne (Ne.symm hname), if_neg hname]

/-- A name and a value as they can stand on a line: written without blanks
around the value, the line is within the limit. -/
structure FieldFits (limits : HttpParseLimits) (h : Bytes × Bytes) : Prop where
  token : StrictHttpParser.isToken h.1 = true
  uncoded : lowercase h.1 ≠ bytes "transfer-encoding"
  printable : ∀ c ∈ h.2, isCtl c = true → c = tab
  head : ∀ c ∈ h.2.head?, isBlank c = false
  last : ∀ c ∈ h.2.getLast?, isBlank c = false
  fits : h.1.length + 1 + h.2.length ≤ limits.maxHeaderLineBytes

/-- What holds of the scan of accepted lines. -/
structure Scanned (limits : HttpParseLimits) (st : HeaderScan) : Prop where
  eq : st = scanOf st.headers st.headerCount
  keys : (st.headers.map (·.1)).Nodup
  fields : ∀ h ∈ st.headers, FieldFits limits h ∧ lowercase h.1 = h.1
  count : st.headers.length ≤ st.headerCount
  bound : st.headerCount ≤ limits.maxHeaders

theorem scanned_empty (limits : HttpParseLimits) : Scanned limits {} where
  eq := rfl
  keys := List.nodup_nil
  fields h hmem := by cases hmem
  count := Nat.le_refl _
  bound := Nat.zero_le _

theorem length_trimHeaderValue_le (value : Bytes) :
    (trimHeaderValue value).length ≤ value.length :=
  ((List.rdropWhile_prefix _ _).length_le).trans (List.dropWhile_sublist _).length_le

theorem scanned_line {limits : HttpParseLimits} {st st' : HeaderScan} {line : Bytes}
    (hst : Scanned limits st)
    (h : fieldStep StrictHttpParser.headerLine limits st line = .ok st') : Scanned limits st' := by
  rw [fieldStep] at h
  split at h
  · cases h
  · next hlong =>
      split at h
      · cases h
      · next hmany =>
          obtain ⟨name, rest, rfl, htoken, hprintable, hrecord⟩ := headerLine_ok h
          obtain ⟨huncoded, rfl⟩ := recordHeader_ok hrecord
          have hlength := length_trimHeaderValue_le rest
          refine ⟨?_, nodup_keys_put hst.keys, fun field hfield => ?_, ?_, by simp only []; omega⟩
          · have hput := scanOf_put st.headers (st.headerCount + 1) (lowercase name)
              (trimHeaderValue rest)
            rw [← hput]
            simp only [HeaderScan.mk.injEq, true_and]
            rw [hst.eq]
            exact ⟨rfl, rfl, rfl⟩
          · rcases mem_put hfield with rfl | hold
            · refine ⟨⟨by rwa [isToken_lowercase], ?_, hprintable, fun c hc => trimWith_head? hc,
                fun c hc => rdropWhile_getLast? hc, ?_⟩, lowercase_idem name⟩
              · rwa [lowercase_idem]
              · simp only [List.length_append, List.length_cons] at hlong
                simp only [length_lowercase]
                omega
            · exact hst.fields field hold
          · have hcount := hst.count
            simp only [length_put]
            split <;> omega

theorem scanned_fields {limits : HttpParseLimits} {fields : List Bytes} {st st' : HeaderScan}
    (hst : Scanned limits st)
    (h : scanFields StrictHttpParser.headerLine limits fields st = .ok st') :
    Scanned limits st' := by
  induction fields generalizing st with
  | nil =>
      cases h
      exact hst
  | cons line rest ih =>
      rw [scanFields] at h
      split at h
      · cases h
      · next hline => exact ih (scanned_line hst hline) h

/-! ## A request that is accepted -/

/-- A raw request up to its first empty line. -/
def headerSection (raw : Bytes) : Bytes := raw.take ((find? crlf2 raw).getD raw.length + 4)

/-- A raw request that is accepted, taken apart. -/
structure Accepted (limits : HttpParseLimits) (raw : Bytes) (b : HeaderBlock) (body : Bytes)
    (request : HttpRequest) (st : HeaderScan) : Prop where
  section_eq : headerSection raw = b.render
  raw_eq : raw = b.render ++ body
  short : b.first.length ≤ limits.maxHeaderLineBytes
  line : requestLine StrictHttpParser.isToken limits b.first = .ok request
  scan : scanFields StrictHttpParser.headerLine limits b.fields {} = .ok st
  parsed : StrictHttpParser.parse raw limits =
    StrictHttpParser.finish limits raw b.render.length request st

theorem accepted_of_ok {limits : HttpParseLimits} {raw : Bytes}
    (hok : (StrictHttpParser.parse raw limits).ok = true) :
    ∃ b body request st, Accepted limits raw b body request st := by
  cases hfind : find? crlf2 raw with
  | none =>
      rw [StrictHttpParser.parse, hfind] at hok
      split at hok <;> cases hok
  | some i =>
      have hle := find?_length_le hfind
      rw [show crlf2.length = 4 from rfl] at hle
      have hsection : headerSection raw = raw.take (i + 4) := by
        rw [headerSection, hfind]
        rfl
      have hend : EndsAtBlank (headerSection raw) := by
        have htake : find? crlf2 (raw.take (i + 4)) = some i := find?_take hfind (Nat.le_refl _)
        rw [hsection, EndsAtBlank, htake, List.length_take, Nat.min_eq_left hle,
          Nat.add_sub_cancel]
      obtain ⟨b, hb, -, -⟩ := exists_block hend
      have hraw : raw = b.render ++ raw.drop (i + 4) := by
        rw [hb, hsection, List.take_append_drop]
      have hparse := parse_block b.endsAtBlank (raw.drop (i + 4)) limits
      rw [← hraw] at hparse
      rw [hparse] at hok
      split at hok
      · cases hok
      · next hshort =>
          cases hline : requestLine StrictHttpParser.isToken limits b.first with
          | error e =>
              rw [hline] at hok
              simp only [requestLine_refusal hline, Bool.false_eq_true] at hok
          | ok request =>
              rw [hline] at hok hparse
              cases hscan : scanFields StrictHttpParser.headerLine limits b.fields {} with
              | error e =>
                  rw [hscan] at hok
                  simp only [scanFields_refusal hscan, Bool.false_eq_true] at hok
              | ok st =>
                  refine ⟨b, raw.drop (i + 4), request, st, hb.symm, hraw,
                    Nat.le_of_not_lt hshort, hline, hscan, ?_⟩
                  rw [hparse, if_neg hshort, hscan]

end HydrogenHttpd.Ref
