import HydrogenHttpd.Proofs.AcceptedRequests

/-!
# Control characters in a header section

The strict parser looks at the bytes of a header line: the name is a token and
the value holds no control character but a tab. It does not look at those of the
request line, which it reads with stream extractions. Any white space ends a
word there, so a bare LF, a bare CR or a tab can stand where a space is meant,
and a target may hold every other control character.
-/

namespace HydrogenHttpd.Ref

open Base Spec

/-- Control characters stand only in the line ends, and as tabs behind the colon
of a header line. -/
def ControlsInPlace (text : Bytes) : Prop :=
  ∃ first fields, text = first ++ crlf ++ joinFields fields ++ crlf ∧
    (∀ c ∈ first, isCtl c = false) ∧
    ∀ f ∈ fields, ∃ name value, f = name ++ 58 :: value ∧ (∀ c ∈ name, isCtl c = false) ∧
      ∀ c ∈ value, isCtl c = true → c = tab

/-- The bytes in front of the first line end. -/
def requestLineOf (raw : Bytes) : Bytes := raw.take ((find? crlf raw).getD raw.length)

/-- The white space of the line is spaces, and its target holds no control
character. -/
structure PlainLine (line : Bytes) : Prop where
  spaces : ∀ c ∈ line, isSpace c = true → c = space
  target : ∀ target ∈ (wordsOf line)[1]?, ∀ c ∈ target, isCtl c = false

theorem space_of_not_ctl {c : UInt8} (hctl : isCtl c = false) (hspace : isSpace c = true) :
    c = space := by
  simp [isCtl, isSpace, space, UInt8.le_iff_toNat_le, UInt8.lt_iff_toNat_lt,
    ← UInt8.toNat_inj] at hctl hspace ⊢
  omega

theorem tab_of_blank {c : UInt8} (hctl : isCtl c = true) (hblank : isBlank c = true) :
    c = tab := by
  simp [isCtl, isBlank, space, tab, UInt8.lt_iff_toNat_lt, ← UInt8.toNat_inj] at hctl hblank ⊢
  omega

theorem isCtl_token {name : Bytes} (h : StrictHttpParser.isToken name = true) :
    ∀ c ∈ name, isCtl c = false := by
  have hbytes : ∀ c : UInt8, (isAlnum c || (bytes "!#$%&'*+-.^_`|~").contains c) = true →
      isCtl c = false := by
    intro c hc
    simp [isCtl, isAlnum, isDigit, isUpper, isLower, bytes, UInt8.le_iff_toNat_le,
      UInt8.lt_iff_toNat_lt, ← UInt8.toNat_inj] at hc ⊢
    omega
  intro c hc
  simp only [StrictHttpParser.isToken, Bool.and_eq_true, List.all_eq_true] at h
  exact hbytes c (h.2 c hc)

/-- A header line that was scanned has its control characters in place. -/
theorem headerLine_controls {st st' : HeaderScan} {line : Bytes}
    (h : StrictHttpParser.headerLine st line = .ok st') :
    ∃ name value, line = name ++ 58 :: value ∧ (∀ c ∈ name, isCtl c = false) ∧
      ∀ c ∈ value, isCtl c = true → c = tab := by
  obtain ⟨name, value, hline, htoken, hprintable, -⟩ := headerLine_ok h
  refine ⟨name, value, hline, isCtl_token htoken, fun c hc hctl => ?_⟩
  by_cases hblank : isBlank c = true
  · exact tab_of_blank hctl hblank
  · exact hprintable c (mem_trimWith hc (by simpa using hblank)) hctl

theorem scanFields_controls {limits : HttpParseLimits} {fields : List Bytes} {st st' : HeaderScan}
    (h : scanFields StrictHttpParser.headerLine limits fields st = .ok st') :
    ∀ f ∈ fields, ∃ name value, f = name ++ 58 :: value ∧ (∀ c ∈ name, isCtl c = false) ∧
      ∀ c ∈ value, isCtl c = true → c = tab := by
  induction fields generalizing st with
  | nil => simp
  | cons line rest ih =>
      rw [scanFields] at h
      split at h
      · cases h
      · next hstep =>
          rw [fieldStep] at hstep
          split at hstep
          · cases hstep
          · split at hstep
            · cases hstep
            · exact List.forall_mem_cons.mpr ⟨headerLine_controls hstep, ih h⟩

/-- A request line that is accepted holds a control character only between its
words or in its target. -/
theorem plainLine_iff {limits : HttpParseLimits} {line : Bytes} {request : HttpRequest}
    (h : requestLine StrictHttpParser.isToken limits line = .ok request) :
    (∀ c ∈ line, isCtl c = false) ↔ PlainLine line := by
  obtain ⟨hwords, hchecks⟩ := requestLine_accepts h
  constructor
  · intro hall
    refine ⟨fun c hc => space_of_not_ctl (hall c hc), fun target htarget c hc => ?_⟩
    have hword := List.mem_of_getElem? (Option.mem_def.mp htarget)
    exact hall c (mem_words_iff.mp ⟨target, hword, hc⟩).1
  · intro hplain c hc
    cases hspace : isSpace c with
    | true =>
        rw [hplain.spaces c hc hspace]
        decide
    | false =>
        obtain ⟨w, hw, hcw⟩ := mem_words_iff.mpr ⟨hc, hspace⟩
        rw [hwords] at hw
        simp only [List.mem_cons, List.not_mem_nil, or_false] at hw
        obtain ⟨-, htoken, -, hversion, -⟩ := requestWords_ok hchecks
        rcases hw with rfl | rfl | rfl
        · exact isCtl_token htoken c hcw
        · exact hplain.target _ (by simp [hwords]) c hcw
        · have hversions : ∀ c, c ∈ bytes "HTTP/1.0" ∨ c ∈ bytes "HTTP/1.1" → isCtl c = false := by
            intro c hc
            simp [isCtl, bytes, UInt8.lt_iff_toNat_lt, ← UInt8.toNat_inj] at hc ⊢
            omega
          rcases hversion with hv | hv
          · exact hversions c (Or.inl (hv ▸ hcw))
          · exact hversions c (Or.inr (hv ▸ hcw))

theorem ControlsInPlace.requestLine {text : Bytes} (h : ControlsInPlace text) :
    ∀ c ∈ requestLineOf text, isCtl c = false := by
  obtain ⟨first, fields, htext, hfirst, -⟩ := h
  have hnone : ¬ crlf <:+: first := fun hin =>
    absurd (hfirst cr (hin.subset (by decide))) (by decide)
  have hline : requestLineOf text = first := by
    rw [requestLineOf, htext, List.append_assoc, List.append_assoc, find?_crlf_append hnone,
      Option.getD_some, List.take_left]
  rwa [hline]

theorem requestLineOf_render (b : HeaderBlock) (v : Bytes) :
    requestLineOf (b.render ++ v) = b.first := by
  rw [requestLineOf, render_find_crlf]
  simp [HeaderBlock.render]

/-- In a request that the strict parser accepts, the control characters of the
header section are in place if and only if the request line is plain. -/
theorem controls_in_place_iff {raw : Bytes} {limits : HttpParseLimits}
    (hok : (StrictHttpParser.parse raw limits).ok = true) :
    ControlsInPlace (headerSection raw) ↔ PlainLine (requestLineOf raw) := by
  obtain ⟨b, body, request, st, h⟩ := accepted_of_ok hok
  have hline : requestLineOf raw = b.first := by rw [h.raw_eq, requestLineOf_render]
  have hsection := requestLineOf_render b []
  rw [List.append_nil] at hsection
  rw [hline, ← plainLine_iff h.line, h.section_eq]
  constructor
  · intro hplace
    rw [← hsection]
    exact hplace.requestLine
  · intro hfirst
    exact ⟨b.first, b.fields, rfl, hfirst, scanFields_controls h.scan⟩

/-- A request with a tab in front of a value. -/
def tabbedHead : Bytes := bytes "GET / HTTP/1.0\r\nAccept:\ta\r\n\r\n"

theorem controls_in_place_iff_tabbedHead : ControlsInPlace (headerSection tabbedHead) :=
  (@controls_in_place_iff tabbedHead {} (by decide +kernel)).mpr
    ⟨by decide +kernel, by decide +kernel⟩

/-- A bare LF where a space is meant. -/
def brokenLine : Bytes := bytes "GET\n/ HTTP/1.0\r\n\r\n"

theorem brokenLine_accepted :
    (StrictHttpParser.parse brokenLine {}).ok = true ∧
      ¬ ControlsInPlace (headerSection brokenLine) :=
  ⟨by decide +kernel, fun hplace =>
    absurd (hplace.requestLine lf (by decide +kernel)) (by decide)⟩

end HydrogenHttpd.Ref
