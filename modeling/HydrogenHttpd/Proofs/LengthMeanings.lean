import HydrogenHttpd.Proofs.DeclaredLength

/-!
# One length for a request

Three routines read the declared length of a header block that was accepted:
`parseHeadersOnly` itself, `parseHeaderContentLength`, which decides how much of
the body is read, and the strict parser, which judges the request again with its
body. They agree where no length is declared. Where one is, the second must not
meet a `Content-Length` line without a value and the third no control character.
-/

namespace HydrogenHttpd.Ref

open Base Spec

/-- A `Content-Length` line with a value. -/
def declaresLength (line : Bytes) : Bool :=
  match find? [58] line with
  | none => false
  | some colon =>
      lowercase (line.take colon) == bytes "content-length" &&
        !(trimHeaderValue (line.drop (colon + 1))).isEmpty

/-- The three routines give the block one length, or none. -/
structure OneMeaning (limits : HttpParseLimits) (h : Bytes) : Prop where
  declared : (parseHeaderContentLength h).isSome = true ↔
    (parseHeadersOnly h limits).request.hasContentLength = true
  same : ∀ n, parseHeaderContentLength h = some n →
    (parseHeadersOnly h limits).request.contentLength = n
  reported : ∀ n, parseHeaderContentLength h = some n → ∀ body : Bytes, n ≤ body.length →
    (StrictHttpParser.parse (h ++ body) limits).ok = true ∧
      (StrictHttpParser.parse (h ++ body) limits).request.contentLength = n

theorem headerLineOnly_declares {st st' : HeaderScan} {line : Bytes}
    (h : headerLineOnly st line = .ok st') :
    st'.contentLength ≠ [] ↔ st.contentLength ≠ [] ∨ declaresLength line = true := by
  obtain ⟨colon, hcolon, hline⟩ := headerLineOnly_length h
  rw [declaresLength, hcolon]
  rcases hline with ⟨hname, hvalue, hsame⟩ | ⟨hname, hsame⟩
  · simp only [hname, hvalue, beq_self_eq_true, Bool.true_and, Bool.not_eq_true',
      List.isEmpty_eq_false_iff]
    refine ⟨Or.inr, fun hor => hor.elim (fun hst => ?_) id⟩
    rw [← hvalue, ← hsame.resolve_left hst]
    exact hst
  · simp [hname, hsame]

/-- A scan has a length exactly if a line declares one. -/
theorem scanFields_declares {limits : HttpParseLimits} {fields : List Bytes}
    {st st' : HeaderScan} (h : scanFields headerLineOnly limits fields st = .ok st') :
    st'.contentLength ≠ [] ↔
      st.contentLength ≠ [] ∨ ∃ f ∈ fields, declaresLength f = true := by
  induction fields generalizing st with
  | nil =>
      cases h
      simp
  | cons line rest ih =>
      rw [scanFields] at h
      split at h
      · cases h
      · next hstep =>
          rw [ih h, headerLineOnly_declares (fieldStep_ok hstep), List.exists_mem_cons_iff,
            or_assoc]

theorem hasContentLength_iff {h : Bytes} {limits : HttpParseLimits} (hend : EndsAtBlank h)
    (hok : (parseHeadersOnly h limits).ok = true) :
    (parseHeadersOnly h limits).request.hasContentLength = true ↔
      ∃ f ∈ fieldsOf h, declaresLength f = true := by
  obtain ⟨b, rfl, -, hfields⟩ := exists_block hend
  obtain ⟨request, st, -, hreq, hscan, heq⟩ := parseHeadersOnly_ok hend hok
  rw [heq] at hok ⊢
  obtain ⟨hvalid, hrequest⟩ := finishHeadersOnly_ok hok
  obtain ⟨-, hhas, -⟩ := requestLine_ok hreq
  have hdeclares := scanFields_declares hscan
  rw [hrequest, ← hfields, hhas, Bool.or_false, lengthSoFar]
  simp only [ne_eq, not_true_eq_false, false_or] at hdeclares
  rw [← hdeclares]
  split
  · next hnone => simp [hnone]
  · next hsome => simp [hsome, (hvalid.resolve_left hsome).2]

/-- On a header block that `parseHeadersOnly` accepts the three agree if and only
if no line declares a length, or no `Content-Length` line is empty and no value
holds a control character. -/
theorem one_meaning_iff {h : Bytes} {limits : HttpParseLimits} (hend : EndsAtBlank h)
    (hok : (parseHeadersOnly h limits).ok = true) :
    OneMeaning limits h ↔
      (∀ f ∈ fieldsOf h, declaresLength f = false) ∨
        ∀ f ∈ fieldsOf h, emptyLength f = false ∧ hasControl f = false := by
  have hread := parseHeaderContentLength_of_parsed hend hok
  have hhas := hasContentLength_iff hend hok
  by_cases hnone : ∀ f ∈ fieldsOf h, declaresLength f = false
  · have hno : (parseHeadersOnly h limits).request.hasContentLength = false := by
      rw [← Bool.not_eq_true, hhas]
      rintro ⟨f, hf, hdeclares⟩
      rw [hnone f hf] at hdeclares
      cases hdeclares
    rw [if_pos (Or.inr hno)] at hread
    refine iff_of_true ⟨by simp [hread, hno], ?_, ?_⟩ (Or.inl hnone)
    · simp [hread]
    · simp [hread]
  · have hyes : (parseHeadersOnly h limits).request.hasContentLength = true := by
      rw [hhas]
      simpa using hnone
    rw [or_iff_right hnone]
    constructor
    · intro hone
      have hempty : ∀ f ∈ fieldsOf h, emptyLength f = false := by
        intro f hf
        by_contra hno
        have hany : (fieldsOf h).any emptyLength = true :=
          List.any_eq_true.mpr ⟨f, hf, by simpa using hno⟩
        have hsome := hone.declared.mpr hyes
        rw [hread, if_pos (Or.inl hany)] at hsome
        cases hsome
      refine fun f hf => ⟨hempty f hf, ?_⟩
      by_contra hctl
      rw [if_neg (by simpa [hyes] using hempty)] at hread
      have hreported := (hone.reported _ hread
        (List.replicate (parseHeadersOnly h limits).request.contentLength 0) (by simp)).1
      rw [parse_of_control limits hend ⟨f, hf, by simpa using hctl⟩] at hreported
      cases hreported
    · intro hclean
      rw [if_neg (by simpa [hyes] using fun f hf => (hclean f hf).1)] at hread
      refine ⟨by simp [hread, hyes], fun n hn => ?_, fun n hn body hbody => ?_⟩
      · rw [hread] at hn
        exact Option.some.inj hn
      · rw [hread] at hn
        cases hn
        have hparse := parse_of_parsed hend hok (fun f hf => (hclean f hf).2) body
        have hwhole : ¬ (h ++ body).length <
            (h.length + (parseHeadersOnly h limits).request.contentLength) % 2 ^ 64 := by
          have hmod := Nat.mod_le
            (h.length + (parseHeadersOnly h limits).request.contentLength) (2 ^ 64)
          rw [List.length_append]
          omega
        simp only [if_neg hwhole] at hparse
        rw [hparse]
        exact ⟨rfl, rfl⟩

/-- A block with the length declared twice. -/
def twiceDeclared : Bytes :=
  bytes "GET / HTTP/1.0\r\nContent-Length: 5\r\nContent-Length: 5\r\n\r\n"

theorem one_meaning_iff_twiceDeclared : OneMeaning {} twiceDeclared :=
  (@one_meaning_iff twiceDeclared {} (by decide +kernel) (by decide +kernel)).mpr
    (Or.inr (by decide +kernel))

/-- The first of the two lines has no value. -/
def emptyThenDeclared : Bytes :=
  bytes "GET / HTTP/1.0\r\nContent-Length:\r\nContent-Length: 5\r\n\r\n"

theorem emptyThenDeclared_differs :
    EndsAtBlank emptyThenDeclared ∧ (parseHeadersOnly emptyThenDeclared {}).ok = true ∧
      (parseHeadersOnly emptyThenDeclared {}).request.hasContentLength = true ∧
      parseHeaderContentLength emptyThenDeclared = none := by
  decide +kernel

end HydrogenHttpd.Ref
