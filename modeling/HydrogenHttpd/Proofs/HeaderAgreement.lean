import HydrogenHttpd.Proofs.HeaderScan

/-!
# The two header parsers, compared

`handleClientStream` judges every request by `parseHeadersOnly` and, on the
in-memory path, a second time by `StrictHttpParser::parse`. The two differ in
one check: the strict parser refuses a header value that holds a control
character, the other never looks. So they agree on a block without such a
value, and on one with such a value only by luck: when the block also breaks
a rule both share, and that rule is either answered with 400 as well or
broken before the strict parser gets to see the value.

`sharedFault` is the first rule both parsers share that a block breaks, with
the number of the line it is broken at; the request line is line 0 and the
end of the section the line behind the last.
-/

namespace HydrogenHttpd.Ref

open Base Spec

/-- The value on a header line holds a control character other than a tab. -/
def hasControl (line : Bytes) : Bool :=
  match find? [58] line with
  | none => false
  | some colon =>
      (trimHeaderValue (line.drop (colon + 1))).any fun c => isCtl c && c != tab

/-- The first header line that breaks a shared rule, and the status. -/
def fieldsFault (limits : HttpParseLimits) :
    Nat → List Bytes → HeaderScan → Except (Nat × Nat) HeaderScan
  | _, [], st => .ok st
  | k, line :: rest, st =>
      match fieldStep headerLineOnly limits st line with
      | .error e => .error (k, e.status)
      | .ok st' => fieldsFault limits (k + 1) rest st'

/-- The shared rules on the section as a whole: a host for HTTP/1.1, and a
declared length that is a number within the limit. -/
def sectionFault (limits : HttpParseLimits) (request : HttpRequest) (st : HeaderScan) :
    Option Nat :=
  if request.version = bytes "HTTP/1.1" ∧ st.sawHost = false then some 400
  else if st.contentLength = [] then none
  else if isDigits st.contentLength = false then some 400
  else
    match stoull st.contentLength with
    | none => some 400
    | some len => if limits.maxBodyBytes < len then some 413 else none

/-- The first shared rule a header section breaks: at which line, and the
status it is answered with. -/
def sharedFault (limits : HttpParseLimits) (first : Bytes) (fields : List Bytes) :
    Option (Nat × Nat) :=
  if limits.maxHeaderLineBytes < first.length then some (0, 431)
  else
    match requestLine localIsToken limits first with
    | .error e => some (0, e.status)
    | .ok request =>
        match fieldsFault limits 1 fields {} with
        | .error fault => some fault
        | .ok st => (sectionFault limits request st).map fun s => (fields.length + 1, s)

/-- Same answer: the same request, or a refusal with the same status. -/
def Agree (r₁ r₂ : HttpParseResult) : Prop :=
  (r₁.ok = true ∧ r₂.ok = true ∧
    r₁.request.method = r₂.request.method ∧ r₁.request.target = r₂.request.target ∧
    r₁.request.version = r₂.request.version ∧ r₁.request.headers = r₂.request.headers ∧
    r₁.request.hasContentLength = r₂.request.hasContentLength ∧
    r₁.request.contentLength = r₂.request.contentLength) ∨
  (r₁.ok = false ∧ r₂.ok = false ∧ r₁.status = r₂.status)

instance (r₁ r₂ : HttpParseResult) : Decidable (Agree r₁ r₂) :=
  inferInstanceAs (Decidable (_ ∨ _))

/-- No header value holds a control character, or the first shared rule that
is broken is answered with 400, or it is broken before the first such value is
read: on an earlier line, or by the size of that very line. -/
def ControlHarmless (limits : HttpParseLimits) (h : Bytes) : Prop :=
  ∀ c, (fieldsOf h).findIdx? hasControl = some c →
    ∃ k s, sharedFault limits (firstLineOf h) (fieldsOf h) = some (k, s) ∧
      (s = 400 ∨ k < c + 1 ∨ (k = c + 1 ∧ s = 431))

/-! ## One line -/

theorem isToken_byte_lower (c : UInt8) :
    (isAlnum (toLower c) || (bytes "!#$%&'*+-.^_`|~").contains (toLower c))
      = (isAlnum c || (bytes "!#$%&'*+-.^_`|~").contains c) := by
  revert c
  decide +kernel

theorem isToken_lowercase (name : Bytes) :
    StrictHttpParser.isToken (lowercase name) = StrictHttpParser.isToken name := by
  simp only [StrictHttpParser.isToken, lowercase, List.all_map, List.isEmpty_map]
  congr 2
  funext c
  exact isToken_byte_lower c

/-- Without a control character in the value the two loop bodies are the same. -/
theorem headerLine_eq {line : Bytes} (h : hasControl line = false) (st : HeaderScan) :
    StrictHttpParser.headerLine st line = headerLineOnly st line := by
  rw [StrictHttpParser.headerLine, headerLineOnly]
  split
  · rfl
  · cases hc : find? [58] line with
    | none => rfl
    | some colon =>
        rw [hasControl, hc] at h
        simp only [] at h
        simp only [localIsToken, isToken_lowercase, h]
        rfl

/-- With one the strict parser answers 400, whatever else the line holds. -/
theorem headerLine_control {line : Bytes} (h : hasControl line = true) (st : HeaderScan) :
    StrictHttpParser.headerLine st line = .error badRequest := by
  rw [StrictHttpParser.headerLine]
  split
  · rfl
  · cases hc : find? [58] line with
    | none => rfl
    | some colon =>
        rw [hasControl, hc] at h
        simp only [] at h ⊢
        rw [if_pos h]
        split <;> rfl

/-! ## Every refusal is one -/

theorem requestLine_refusal {isToken : Bytes → Bool} {limits : HttpParseLimits}
    {line : Bytes} {e : HttpParseResult} (h : requestLine isToken limits line = .error e) :
    e.ok = false := by
  simp only [requestLine] at h
  repeat' split at h
  all_goals first | (cases h; rfl) | cases h

theorem recordHeader_refusal {st : HeaderScan} {name value : Bytes} {e : HttpParseResult}
    (h : recordHeader st name value = .error e) : e.ok = false := by
  simp only [recordHeader] at h
  repeat' split at h
  all_goals first | (cases h; rfl) | cases h

theorem headerLineOnly_refusal {st : HeaderScan} {line : Bytes} {e : HttpParseResult}
    (h : headerLineOnly st line = .error e) : e.ok = false := by
  simp only [headerLineOnly] at h
  split at h
  · cases h; rfl
  · split at h
    · cases h; rfl
    · split at h
      · cases h; rfl
      · exact recordHeader_refusal h

theorem recordHeader_ne_431 {st : HeaderScan} {name value : Bytes} {e : HttpParseResult}
    (h : recordHeader st name value = .error e) : e.status ≠ 431 := by
  simp only [recordHeader] at h
  repeat' split at h
  all_goals first | (cases h; decide) | cases h

theorem headerLineOnly_ne_431 {st : HeaderScan} {line : Bytes} {e : HttpParseResult}
    (h : headerLineOnly st line = .error e) : e.status ≠ 431 := by
  simp only [headerLineOnly] at h
  split at h
  · cases h; decide
  · split at h
    · cases h; decide
    · split at h
      · cases h; decide
      · exact recordHeader_ne_431 h

theorem fieldStep_refusal {limits : HttpParseLimits} {st : HeaderScan} {line : Bytes}
    {e : HttpParseResult} (h : fieldStep headerLineOnly limits st line = .error e) :
    e.ok = false := by
  simp only [fieldStep] at h
  split at h
  · cases h; rfl
  · split at h
    · cases h; rfl
    · exact headerLineOnly_refusal h

/-! ## The lines of a block -/

/-- `fieldsFault` is the scan of `parseHeadersOnly` with line numbers. -/
theorem fieldsFault_spec (limits : HttpParseLimits) (fields : List Bytes) :
    ∀ (k : Nat) (st : HeaderScan),
      match scanFields headerLineOnly limits fields st with
      | .error e => e.ok = false ∧ ∃ j, fieldsFault limits k fields st = .error (j, e.status)
      | .ok st' => fieldsFault limits k fields st = .ok st' := by
  induction fields with
  | nil => intro k st; rfl
  | cons f fs ih =>
      intro k st
      rw [scanFields, fieldsFault]
      cases hstep : fieldStep headerLineOnly limits st f with
      | error e => exact ⟨fieldStep_refusal hstep, k, rfl⟩
      | ok st' => exact ih (k + 1) st'

theorem scanFields_eq_of_no_control {limits : HttpParseLimits} {fields : List Bytes}
    (h : ∀ f ∈ fields, hasControl f = false) :
    ∀ st : HeaderScan, scanFields StrictHttpParser.headerLine limits fields st
      = scanFields headerLineOnly limits fields st := by
  induction fields with
  | nil => intro st; rfl
  | cons f fs ih =>
      intro st
      have hstep : fieldStep StrictHttpParser.headerLine limits st f
          = fieldStep headerLineOnly limits st f := by
        rw [fieldStep, fieldStep, headerLine_eq (h f (by simp))]
      rw [scanFields, scanFields, hstep]
      split
      · rfl
      · exact ih (fun g hg => h g (by simp [hg])) _

/-- A fault at line `k` is answered before the control character on line `c`
is read. -/
def Before (c : Nat) (fault : Nat × Nat) : Prop :=
  fault.1 < c ∨ (fault.1 = c ∧ fault.2 = 431)

theorem fieldsFault_ge {limits : HttpParseLimits} {fields : List Bytes} :
    ∀ {k : Nat} {st : HeaderScan} {fault : Nat × Nat},
      fieldsFault limits k fields st = .error fault → k ≤ fault.1 := by
  induction fields with
  | nil => intro k st fault h; cases h
  | cons f fs ih =>
      intro k st fault h
      rw [fieldsFault] at h
      split at h
      · cases h; exact Nat.le_refl _
      · exact Nat.le_of_succ_le (ih h)

/-- Where the strict parser ends on a block with a control character: at the
shared fault when that comes first, with 400 otherwise. -/
theorem scanFields_control (limits : HttpParseLimits) {fields : List Bytes} :
    ∀ (k : Nat) (st : HeaderScan) {c : Nat}, fields.findIdx? hasControl = some c →
      ∃ e, scanFields StrictHttpParser.headerLine limits fields st = .error e ∧
        e.ok = false ∧
        (∀ fault, fieldsFault limits k fields st = .error fault →
          Before (k + c) fault → e.status = fault.2) ∧
        ((∀ fault, fieldsFault limits k fields st = .error fault →
          ¬ Before (k + c) fault) → e.status = 400) := by
  induction fields with
  | nil => intro k st c h; simp at h
  | cons f fs ih =>
      intro k st c h
      rw [List.findIdx?_cons] at h
      cases hctl : hasControl f with
      | true =>
          rw [hctl, if_pos rfl] at h
          obtain rfl : c = 0 := by simpa using h.symm
          rw [scanFields, fieldsFault, fieldStep, fieldStep, headerLine_control hctl]
          by_cases h1 : limits.maxHeaderLineBytes < f.length
          · simp only [if_pos h1]
            refine ⟨_, rfl, rfl, fun fault hf _ => by cases hf; rfl, fun hb => ?_⟩
            exact absurd (Or.inr ⟨rfl, rfl⟩) (hb _ rfl)
          · by_cases h2 : limits.maxHeaders < st.headerCount + 1
            · simp only [if_neg h1, if_pos h2]
              refine ⟨_, rfl, rfl, fun fault hf _ => by cases hf; rfl, fun hb => ?_⟩
              exact absurd (Or.inr ⟨rfl, rfl⟩) (hb _ rfl)
            · simp only [if_neg h1, if_neg h2]
              refine ⟨_, rfl, rfl, fun fault hf hb => ?_, fun _ => rfl⟩
              split at hf
              · next e he =>
                  -- the size checks passed, so a fault on this line is not 431
                  cases hf
                  rcases hb with hlt | ⟨-, h431⟩
                  · exact absurd hlt (Nat.lt_irrefl _)
                  · exact absurd h431 (headerLineOnly_ne_431 he)
              · have := fieldsFault_ge hf
                rcases hb with hlt | ⟨heq, -⟩ <;> omega
      | false =>
          rw [hctl, if_neg (by simp)] at h
          obtain ⟨d, hd, rfl⟩ := Option.map_eq_some_iff.mp h
          have hstep : fieldStep StrictHttpParser.headerLine limits st f
              = fieldStep headerLineOnly limits st f := by
            rw [fieldStep, fieldStep, headerLine_eq hctl]
          rw [scanFields, fieldsFault, hstep]
          cases hs : fieldStep headerLineOnly limits st f with
          | error e =>
              refine ⟨e, rfl, fieldStep_refusal hs, fun fault hf _ => by cases hf; rfl,
                fun hb => ?_⟩
              exact absurd (Or.inl (by simp)) (hb _ rfl)
          | ok st' =>
              obtain ⟨e, h1, h2, h3, h4⟩ := ih (k + 1) st' hd
              refine ⟨e, h1, h2, fun fault hf hb => h3 fault hf ?_, fun hb => h4 fun fault hf => ?_⟩
              · rwa [show k + 1 + d = k + (d + 1) by omega]
              · rw [show k + 1 + d = k + (d + 1) by omega]
                exact hb fault hf

/-! ## Behind the lines -/

/-- With the declared bytes present the two ends of the parsers answer alike. -/
theorem finish_agree {limits : HttpParseLimits} {raw : Bytes} {offset : Nat}
    {request : HttpRequest} {st : HeaderScan}
    (hbody : (finishHeadersOnly limits request st).ok = true →
      offset + (finishHeadersOnly limits request st).request.contentLength ≤ raw.length) :
    Agree (finishHeadersOnly limits request st)
      (StrictHttpParser.finish limits raw offset request st) := by
  simp only [finishHeadersOnly, StrictHttpParser.finish] at hbody ⊢
  by_cases hhost : request.version = bytes "HTTP/1.1" ∧ st.sawHost = false
  · rw [if_pos hhost, if_pos hhost]
    exact Or.inr ⟨rfl, rfl, rfl⟩
  · rw [if_neg hhost, if_neg hhost]
    rw [if_neg hhost] at hbody
    by_cases hcl : st.contentLength = []
    · rw [if_pos hcl, if_pos hcl]
      exact Or.inl ⟨rfl, rfl, rfl, rfl, rfl, rfl, rfl, rfl⟩
    · rw [if_neg hcl, if_neg hcl]
      rw [if_neg hcl] at hbody
      have hdig : isDigits st.contentLength = st.contentLength.all isDigit := by
        simp [isDigits, hcl]
      rw [hdig]
      by_cases hall : st.contentLength.all isDigit = false
      · rw [if_pos hall, if_pos hall]
        exact Or.inr ⟨rfl, rfl, rfl⟩
      · rw [if_neg hall, if_neg hall]
        rw [if_neg hall] at hbody
        cases hn : stoull st.contentLength with
        | none => exact Or.inr ⟨rfl, rfl, rfl⟩
        | some len =>
            rw [hn] at hbody
            simp only [] at hbody ⊢
            by_cases hmax : limits.maxBodyBytes < len
            · rw [if_pos hmax, if_pos hmax]
              exact Or.inr ⟨rfl, rfl, rfl⟩
            · rw [if_neg hmax, if_neg hmax]
              rw [if_neg hmax] at hbody
              have hlen : offset + len ≤ raw.length := hbody rfl
              have hmod : (offset + len) % 2 ^ 64 ≤ offset + len := Nat.mod_le _ _
              rw [if_neg (by omega)]
              exact Or.inl ⟨rfl, rfl, rfl, rfl, rfl, rfl, rfl, rfl⟩

theorem sectionFault_spec (limits : HttpParseLimits) (request : HttpRequest)
    (st : HeaderScan) :
    match sectionFault limits request st with
    | some s => (finishHeadersOnly limits request st).ok = false ∧
        (finishHeadersOnly limits request st).status = s
    | none => (finishHeadersOnly limits request st).ok = true := by
  simp only [sectionFault, finishHeadersOnly]
  by_cases hhost : request.version = bytes "HTTP/1.1" ∧ st.sawHost = false
  · rw [if_pos hhost, if_pos hhost]
    exact ⟨rfl, rfl⟩
  · rw [if_neg hhost, if_neg hhost]
    by_cases hcl : st.contentLength = []
    · rw [if_pos hcl, if_pos hcl]
    · have hdig : isDigits st.contentLength = st.contentLength.all isDigit := by
        simp [isDigits, hcl]
      rw [if_neg hcl, if_neg hcl, hdig]
      by_cases hall : st.contentLength.all isDigit = false
      · rw [if_pos hall, if_pos hall]
        exact ⟨rfl, rfl⟩
      · rw [if_neg hall, if_neg hall]
        cases hn : stoull st.contentLength with
        | none => exact ⟨rfl, rfl⟩
        | some len =>
            by_cases hmax : limits.maxBodyBytes < len
            · simp only [if_pos hmax]
              exact ⟨rfl, rfl⟩
            · simp only [if_neg hmax]

/-! ## The comparison -/

/-- The parsers agree on a block and a body of the declared length exactly
when no control character decides the strict parser's answer. -/
theorem parsers_agree_iff {h body : Bytes} (limits : HttpParseLimits) (hend : EndsAtBlank h)
    (hbody : (parseHeadersOnly h limits).ok = true →
      (parseHeadersOnly h limits).request.contentLength ≤ body.length) :
    Agree (parseHeadersOnly h limits) (StrictHttpParser.parse (h ++ body) limits) ↔
      ControlHarmless limits h := by
  obtain ⟨b, rfl, hfirst, hfields⟩ := exists_block hend
  rw [ControlHarmless, ← hfirst, ← hfields]
  rw [parseHeadersOnly_block hend] at hbody ⊢
  rw [parse_block hend]
  unfold sharedFault
  by_cases hlong : limits.maxHeaderLineBytes < b.first.length
  · simp only [if_pos hlong]
    exact ⟨fun _ c _ => ⟨0, 431, rfl, Or.inr (Or.inl (Nat.succ_pos c))⟩,
      fun _ => Or.inr ⟨rfl, rfl, rfl⟩⟩
  · simp only [if_neg hlong] at hbody ⊢
    have hline : requestLine StrictHttpParser.isToken limits b.first
        = requestLine localIsToken limits b.first := rfl
    rw [hline]
    cases hreq : requestLine localIsToken limits b.first with
    | error e =>
        have he := requestLine_refusal hreq
        exact ⟨fun _ c _ => ⟨0, e.status, rfl, Or.inr (Or.inl (Nat.succ_pos c))⟩,
          fun _ => Or.inr ⟨he, he, rfl⟩⟩
    | ok request =>
        rw [hreq] at hbody
        simp only [] at hbody ⊢
        have hshared := fieldsFault_spec limits b.fields 1 {}
        cases hctl : b.fields.findIdx? hasControl with
        | none =>
            have hnone : ∀ f ∈ b.fields, hasControl f = false := by
              simpa using List.findIdx?_eq_none_iff.mp hctl
            rw [scanFields_eq_of_no_control hnone]
            refine ⟨fun _ c hc => absurd hc (by simp), fun _ => ?_⟩
            cases hscan : scanFields headerLineOnly limits b.fields {} with
            | error e =>
                rw [hscan] at hshared
                exact Or.inr ⟨hshared.1, hshared.1, rfl⟩
            | ok st =>
                rw [hscan] at hbody
                refine finish_agree fun hok => ?_
                rw [List.length_append]
                exact Nat.add_le_add_left (hbody hok) _
        | some c =>
            obtain ⟨e, hstrict, hrefused, hbefore, hlate⟩ :=
              scanFields_control limits 1 {} hctl
            rw [hstrict]
            simp only []
            cases hscan : scanFields headerLineOnly limits b.fields {} with
            | error e' =>
                rw [hscan] at hshared
                obtain ⟨he', j, hj⟩ := hshared
                rw [hj] at hbefore hlate ⊢
                by_cases hb : Before (1 + c) (j, e'.status)
                · have hst : e.status = e'.status := hbefore _ rfl hb
                  refine ⟨fun _ d hd => ⟨j, e'.status, rfl, Or.inr ?_⟩,
                    fun _ => Or.inr ⟨he', hrefused, hst.symm⟩⟩
                  cases hd
                  rcases hb with hlt | ⟨heq, h431⟩
                  · exact Or.inl (by simpa [Nat.add_comm] using hlt)
                  · exact Or.inr ⟨by simpa [Nat.add_comm] using heq, h431⟩
                · have hst : e.status = 400 := hlate fun fault hf => by cases hf; exact hb
                  constructor
                  · rintro (⟨hok, -⟩ | ⟨-, -, heq⟩)
                    · exact absurd hok (by simp [he'])
                    · exact fun d _ => ⟨j, e'.status, rfl, Or.inl (heq.trans hst)⟩
                  · intro hcond
                    obtain ⟨k, s, hks, hor⟩ := hcond c rfl
                    cases hks
                    rcases hor with h400 | hlt | ⟨heq, h431⟩
                    · exact Or.inr ⟨he', hrefused, h400.trans hst.symm⟩
                    · exact absurd (Or.inl (by simpa [Nat.add_comm] using hlt)) hb
                    · exact absurd (Or.inr ⟨by simpa [Nat.add_comm] using heq, h431⟩) hb
            | ok st =>
                rw [hscan] at hshared
                rw [hshared] at hlate ⊢
                have hst : e.status = 400 := hlate fun fault hf => by cases hf
                have hsec := sectionFault_spec limits request st
                simp only []
                cases hfault : sectionFault limits request st with
                | none =>
                    rw [hfault] at hsec
                    constructor
                    · rintro (⟨-, hok, -⟩ | ⟨hok, -, -⟩)
                      · exact absurd hok (by simp [hrefused])
                      · exact absurd hsec (by simp [hok])
                    · intro hcond
                      obtain ⟨k, s, hks, -⟩ := hcond c rfl
                      cases hks
                | some s =>
                    rw [hfault] at hsec
                    have hc : c < b.fields.length :=
                      (List.findIdx?_eq_some_iff_findIdx_eq.mp hctl).1
                    constructor
                    · rintro (⟨-, hok, -⟩ | ⟨-, -, heq⟩)
                      · exact absurd hok (by simp [hrefused])
                      · exact fun d _ => ⟨_, s, rfl, Or.inl (hsec.2 ▸ heq.trans hst)⟩
                    · intro hcond
                      obtain ⟨k, s', hks, hor⟩ := hcond c rfl
                      cases hks
                      rcases hor with h400 | hlt | ⟨heq, -⟩
                      · exact Or.inr ⟨hsec.1, hrefused, by rw [hsec.2, hst, h400]⟩
                      · omega
                      · omega

/-- A request both parsers accept. -/
def plainGet : Bytes := bytes "GET / HTTP/1.1\r\nHost: a\r\n\r\n"

/-- The same with a 0x01 in a header value. -/
def controlGet : Bytes :=
  bytes "GET / HTTP/1.1\r\nHost: a\r\nX-Note: " ++ [1] ++ bytes "\r\n\r\n"

theorem parsers_agree_on_plainGet :
    Agree (parseHeadersOnly plainGet {}) (StrictHttpParser.parse (plainGet ++ []) {}) :=
  (parsers_agree_iff {} (by decide) (by decide)).mpr
    fun _ hc => absurd hc (by simp [show (fieldsOf plainGet).findIdx? hasControl = none by decide])

theorem parsers_disagree_on_controlGet :
    EndsAtBlank controlGet ∧
      (parseHeadersOnly controlGet {}).request.contentLength ≤ ([] : Bytes).length ∧
      ¬ Agree (parseHeadersOnly controlGet {})
        (StrictHttpParser.parse (controlGet ++ []) {}) := by
  decide

end HydrogenHttpd.Ref
