import HydrogenHttpd.Ref.Server
import HydrogenHttpd.Spec.FastCgi

/-!
# Replies, whole and broken off

`readRecords` against the record format. The records of request 1 up to the
first other one are collected (`ownRecords`); what stands behind them decides
how the loop ends (`readRecords_own`). A piece too short for a header ends it
like the end of the request, so a reply cut there is a success. A reply that a
backend sends to its end is put together again, whatever its cuts
(`reply_reassembled`).
-/

namespace HydrogenHttpd.Ref

open Base Spec FastCgiClient

/-- The records the loop collects: of request 1, and not its end. -/
def ownRecords (sent : Bytes) : List FcgiRecord × Bytes :=
  spanRecords (fun r => r.requestId = 1 ∧ r.type ≠ endRequest) sent

/-- The reply is whole: records, the last of which ends request 1. -/
def Ended (sent : Bytes) : Prop :=
  ∃ records last rest, StartsWith sent (records ++ [last]) rest ∧ last.type = endRequest ∧
    last.requestId = 1

/-- A header that is not the header of a whole record that ends a request. -/
def stopsReader (tail : Bytes) : Bool :=
  match readRecord tail with
  | none => 8 ≤ tail.length
  | some (r, _) => r.type ≠ endRequest

/-- What the records of one type hold. -/
def contentOfType (type : UInt8) (records : List FcgiRecord) : Bytes :=
  contentOf (records.filter fun r => r.type = type)

theorem contentOfType_cons (type : UInt8) (r : FcgiRecord) (records : List FcgiRecord) :
    contentOfType type (r :: records) = contentOfType type [r] ++ contentOfType type records := by
  simp only [contentOfType, contentOf, ← List.flatMap_append, ← List.filter_append,
    List.singleton_append]

/-- The collected records hold something on standard error and nothing on
standard output. -/
def OnlyErrors (sent : Bytes) : Prop :=
  contentOfType stderr (ownRecords sent).1 ≠ [] ∧ contentOfType stdout (ownRecords sent).1 = []

/-! ## The loop -/

theorem readRecord_length {stream rest : Bytes} {r : FcgiRecord}
    (h : readRecord stream = some (r, rest)) : rest.length + 8 ≤ stream.length := by
  unfold readRecord at h
  split at h
  · simp only [] at h
    split at h
    · cases h
    · simp only [Option.some.injEq, Prod.mk.injEq] at h
      rw [← h.2]
      simp
  · cases h

/-- A stream that holds a header. -/
theorem header_bytes {sent : Bytes} (h : 8 ≤ sent.length) :
    ∃ a0 a1 a2 a3 a4 a5 a6 a7 rest, sent = a0 :: a1 :: a2 :: a3 :: a4 :: a5 :: a6 :: a7 :: rest :=
  match sent, h with
  | a0 :: a1 :: a2 :: a3 :: a4 :: a5 :: a6 :: a7 :: rest, _ =>
      ⟨a0, a1, a2, a3, a4, a5, a6, a7, rest, rfl⟩

theorem readRecord_short {stream : Bytes} (h : stream.length < 8) : readRecord stream = none := by
  cases hread : readRecord stream with
  | none => rfl
  | some p =>
      have hlength := readRecord_length (r := p.1) hread
      omega

/-- One round of the loop, against the record it reads. -/
theorem readRecords_cases (ending : Bytes) (fuel : Nat) (sent out err : Bytes) :
    (sent.length < 8 ∧ readRecord sent = none ∧
      readRecords ending (fuel + 1) sent out err = .ok (out, err)) ∨
    (8 ≤ sent.length ∧ readRecord sent = none ∧
      ∃ e, readRecords ending (fuel + 1) sent out err = .error e) ∨
    (8 ≤ sent.length ∧ ∃ r rest, readRecord sent = some (r, rest) ∧
      (r.requestId ≠ 1 ∧ r.type ≠ endRequest ∧
          (∃ e, readRecords ending (fuel + 1) sent out err = .error e) ∨
        r.type = endRequest ∧ readRecords ending (fuel + 1) sent out err = .ok (out, err) ∨
        r.requestId = 1 ∧ r.type ≠ endRequest ∧
          readRecords ending (fuel + 1) sent out err =
            readRecords ending fuel rest (out ++ contentOfType stdout [r])
              (err ++ contentOfType stderr [r]))) := by
  by_cases hshort : sent.length < 8
  · exact Or.inl ⟨hshort, readRecord_short hshort, by rw [readRecords, if_pos hshort]⟩
  · right
    have hheader : 8 ≤ sent.length := by omega
    obtain ⟨a0, a1, a2, a3, a4, a5, a6, a7, rest, hsent⟩ := header_bytes hheader
    rw [readRecords, if_neg hshort]
    subst hsent
    simp only [List.getD_cons_succ, List.getD_cons_zero, List.drop_succ_cons, List.drop_zero,
      readRecord, requestId]
    by_cases hcut : rest.length < a4.toNat * 256 + a5.toNat + a6.toNat
    · left
      refine ⟨hheader, if_pos hcut, ?_⟩
      split
      · exact ⟨_, rfl⟩
      · exact ⟨_, rfl⟩
    · right
      refine ⟨hheader, _, _, if_neg hcut, ?_⟩
      simp only [contentOfType, contentOf, List.filter_cons, List.filter_nil]
      by_cases hid : a2.toNat * 256 + a3.toNat = 1
      · rw [if_neg (fun h => h.1 hid), if_neg hcut]
        by_cases hend : a1 = endRequest
        · exact Or.inr (Or.inl ⟨hend, by simp [hend, endRequest, stdout, stderr]⟩)
        · refine Or.inr (Or.inr ⟨hid, hend, ?_⟩)
          by_cases hout : a1 = stdout
          · simp [hout, stdout, stderr]
          · by_cases herr : a1 = stderr
            · simp [herr, stdout, stderr]
            · simp [hout, herr, hend]
      · by_cases hend : a1 = endRequest
        · refine Or.inr (Or.inl ⟨hend, ?_⟩)
          rw [if_neg (fun h => h.2 hend), if_neg hcut]
          simp [hend, endRequest, stdout, stderr]
        · exact Or.inl ⟨hid, hend, _, if_pos ⟨hid, hend⟩⟩

/-- The whole loop: it collects the records of request 1, and fails on what
stops the reader. -/
theorem readRecords_own (ending : Bytes) {n : Nat} (fuel : Nat) (sent : Bytes)
    (hn : sent.length ≤ n) (hfuel : sent.length < fuel) (out err : Bytes)
    {p : List FcgiRecord × Bytes}
    (hp : spanRecords.go (fun r => r.requestId = 1 ∧ r.type ≠ endRequest) n sent = p) :
    (stopsReader p.2 = true → ∃ e, readRecords ending fuel sent out err = .error e) ∧
    (stopsReader p.2 = false → readRecords ending fuel sent out err =
      .ok (out ++ contentOfType stdout p.1, err ++ contentOfType stderr p.1)) := by
  induction n generalizing fuel sent out err p with
  | zero =>
      obtain ⟨fuel, rfl⟩ : ∃ k, fuel = k + 1 := ⟨fuel - 1, by omega⟩
      rw [spanRecords.go] at hp
      subst hp
      have hshort : sent.length < 8 := by omega
      rw [readRecords, if_pos hshort]
      simp [stopsReader, readRecord_short hshort, contentOfType, contentOf]
      omega
  | succ n ih =>
      obtain ⟨fuel, rfl⟩ : ∃ k, fuel = k + 1 := ⟨fuel - 1, by omega⟩
      rcases readRecords_cases ending fuel sent out err with ⟨hshort, hnone, hrun⟩ |
        ⟨hheader, hnone, e, hrun⟩ | ⟨hheader, r, rest, hread, hrun⟩
      · simp only [spanRecords.go, hnone] at hp
        subst hp
        rw [hrun]
        simp [stopsReader, hnone, contentOfType, contentOf]
        omega
      · simp only [spanRecords.go, hnone] at hp
        subst hp
        rw [hrun]
        simp [stopsReader, hnone, hheader]
      · simp only [spanRecords.go, hread] at hp
        rcases hrun with ⟨hid, hend, e, hrun⟩ | ⟨hend, hrun⟩ | ⟨hid, hend, hrun⟩
        · rw [if_neg (by simp [hid])] at hp
          subst hp
          rw [hrun]
          simp [stopsReader, hread, hend]
        · rw [if_neg (by simp [hend])] at hp
          subst hp
          rw [hrun]
          simp [stopsReader, hread, hend, contentOfType, contentOf]
        · rw [if_pos (by simp [hid, hend])] at hp
          subst hp
          have hlength := readRecord_length hread
          have hrest := ih fuel rest (by omega) (by omega)
            (out ++ contentOfType stdout [r]) (err ++ contentOfType stderr [r]) rfl
          rw [hrun]
          refine ⟨hrest.1, fun hstop => ?_⟩
          rw [hrest.2 hstop, List.append_assoc, List.append_assoc, ← contentOfType_cons,
            ← contentOfType_cons]

/-! ## The client -/

/-- The bytes a request sends. -/
def wireOf (backend : FastCgiBackend) (request : FastCgiRequest) : Bytes :=
  buildBeginRequest ++ buildParams (backend.iterate (requestParams request)) ++
    buildStdin request.body

theorem execute_cases {backend : FastCgiBackend} {request : FastCgiRequest} {reply : FastCgiReply}
    (h : backend.exchange (wireOf backend request) = .ok reply) :
    (∃ e, execute backend request = .error e) ↔
      stopsReader (ownRecords reply.sent).2 = true ∨ OnlyErrors reply.sent := by
  have hrun := readRecords_own reply.ending (reply.sent.length + 1) reply.sent (le_refl _)
    (by omega) [] [] rfl
  rw [wireOf] at h
  rw [execute]
  simp only [h]
  cases hstop : stopsReader (ownRecords reply.sent).2 with
  | true =>
      obtain ⟨e, he⟩ := hrun.1 hstop
      rw [he]
      simp
  | false =>
      rw [hrun.2 hstop]
      simp only [List.nil_append, OnlyErrors, Bool.false_eq_true, false_or]
      change (∃ e, (if contentOfType stderr (ownRecords reply.sent).1 ≠ [] ∧
        contentOfType stdout (ownRecords reply.sent).1 = [] then _ else _) = _) ↔ _
      split
      · next herrors => simp [herrors]
      · next herrors => simp [herrors]

/-! ## Whole replies -/

/-- The records of a reply up to its end are the ones the loop collects. -/
theorem spanRecords_sent {records : List SentRecord} {last : SentRecord}
    (hrecords : ∀ r ∈ records, r.requestId = 1 ∧ (r.type = stdout ∨ r.type = stderr))
    (hlast : last.type = endRequest) (rest : Bytes) {n : Nat}
    (hn : (records.flatMap (·.bytes) ++ (last.bytes ++ rest)).length ≤ n) :
    spanRecords.go (fun r => r.requestId = 1 ∧ r.type ≠ endRequest) n
        (records.flatMap (·.bytes) ++ (last.bytes ++ rest)) =
      (records.map (·.record), last.bytes ++ rest) := by
  induction records generalizing n with
  | nil =>
      cases n with
      | zero => rfl
      | succ n =>
          rw [List.flatMap_nil, List.nil_append, spanRecords.go, readRecord_sent]
          simp [SentRecord.record, hlast]
  | cons r records ih =>
      obtain ⟨hid, htype⟩ := hrecords r List.mem_cons_self
      have hheader : 8 ≤ r.bytes.length := by simp [SentRecord.bytes]
      rw [List.flatMap_cons, List.append_assoc, List.length_append] at hn
      obtain ⟨n, rfl⟩ : ∃ k, n = k + 1 := ⟨n - 1, by omega⟩
      have hrest := ih (fun q hq => hrecords q (List.mem_cons_of_mem _ hq)) (n := n) (by omega)
      have hown : r.record.requestId = 1 ∧ r.record.type ≠ endRequest := by
        refine ⟨by simp [SentRecord.record, hid], ?_⟩
        rcases htype with h | h
        · simp [SentRecord.record, h, stdout, endRequest]
        · simp [SentRecord.record, h, stderr, endRequest]
      rw [List.flatMap_cons, List.append_assoc, spanRecords.go, readRecord_sent]
      simp only [hown, hrest, decide_true, if_true, ne_eq, not_false_eq_true, and_self,
        List.map_cons]

/-- The joined contents of the records of one type. -/
def sentOfType (type : UInt8) (records : List SentRecord) : Bytes :=
  (records.filter fun r => r.type = type).flatMap (·.content)

theorem contentOfType_sent (type : UInt8) (records : List SentRecord) :
    contentOfType type (records.map (·.record)) = sentOfType type records := by
  rw [contentOfType, contentOf, List.filter_map, List.flatMap_map]
  rfl

/-- However a backend cuts its output and its errors into records, pads and
interleaves them, the client gets the output, and nothing behind the end of the
request is read. -/
theorem reply_reassembled {backend : FastCgiBackend} {request : FastCgiRequest}
    {reply : FastCgiReply} (h : backend.exchange (wireOf backend request) = .ok reply)
    {out err : Bytes} (houtput : out ≠ [] ∨ err = []) {records : List SentRecord}
    {last : SentRecord} {rest : Bytes}
    (hrecords : ∀ r ∈ records, r.requestId = 1 ∧ (r.type = stdout ∨ r.type = stderr))
    (hout : sentOfType stdout records = out) (herr : sentOfType stderr records = err)
    (hlast : last.type = endRequest)
    (hsent : reply.sent = records.flatMap (·.bytes) ++ (last.bytes ++ rest)) :
    execute backend request = .ok (parseCgiResponse out) := by
  have hspan := spanRecords_sent hrecords hlast rest (le_refl _)
  rw [← hsent] at hspan
  have hstop : stopsReader (last.bytes ++ rest) = false := by
    simp [stopsReader, readRecord_sent, SentRecord.record, hlast]
  have hread := (readRecords_own reply.ending (reply.sent.length + 1) reply.sent (le_refl _)
    (by omega) [] [] hspan).2 hstop
  rw [contentOfType_sent, contentOfType_sent, hout, herr, List.nil_append, List.nil_append] at hread
  rw [wireOf] at h
  rw [execute]
  simp only [h, hread]
  rw [if_neg]
  rintro ⟨hsome, hnone⟩
  rcases houtput with hne | hempty
  · exact hne hnone
  · exact hsome hempty

/-- A page in two records, padded, with a warning between them. -/
def noisyRecords : List SentRecord :=
  [{ type := stdout, content := bytes "X: y\r\n\r", padding := [7, 1, 3],
     content_length := by decide, padding_length := by decide },
   { type := stderr, content := bytes "warning", content_length := by decide,
     padding_length := by decide },
   { type := stdout, content := bytes "\nhi", padding := [6], content_length := by decide,
     padding_length := by decide }]

def endRecord : SentRecord :=
  { type := endRequest, content := [0, 0, 0, 0, 0, 0, 0, 0], content_length := by decide,
    padding_length := by decide }

def noisyReply : FastCgiReply :=
  { sent := noisyRecords.flatMap (·.bytes) ++ (endRecord.bytes ++ bytes "more") }

theorem reply_reassembled_noisy :
    execute { exchange := fun _ => .ok noisyReply } {} =
      .ok (parseCgiResponse (bytes "X: y\r\n\r\nhi")) :=
  @reply_reassembled { exchange := fun _ => .ok noisyReply } {} noisyReply rfl
    (bytes "X: y\r\n\r\nhi") (bytes "warning") (Or.inl (by decide)) noisyRecords endRecord
    (bytes "more") (by decide) (by decide) (by decide) rfl rfl

/-! ## The page -/

/-- The request `handlePhpScript` makes. -/
def phpRequest (config : ServerConfig) (scriptPath : Path)
    (requestUri method body contentType : Bytes) : FastCgiRequest :=
  let (uri, query) := match find? [63] requestUri with
    | none => (requestUri, [])
    | some q => (requestUri.take q, requestUri.drop (q + 1))
  { scriptFilename := scriptPath
    requestMethod := method
    requestUri := uri
    queryString := query
    documentRoot := config.defaultRoot.toBytes
    body := body
    contentType := contentType }

/-- A request that fails is answered with 502. -/
theorem handlePhpScript_error {env : ServerEnv} {config : ServerConfig} {scriptPath : Path}
    {requestUri method body contentType e : Bytes} (w : World)
    (h : execute env.backend (phpRequest config scriptPath requestUri method body contentType) =
      .error e) :
    (handlePhpScript env config scriptPath requestUri method body contentType w).1 =
      (502, bytes "502 Bad Gateway: PHP FastCGI unavailable\n") := by
  rw [phpRequest] at h
  rw [handlePhpScript]
  cases hquery : find? [63] requestUri with
  | none =>
      simp only [hquery] at h ⊢
      rw [h]
  | some q =>
      simp only [hquery] at h ⊢
      rw [h]

/-- The client throws, and every page that made this request is a 502. -/
def FailsWith502 (backend : FastCgiBackend) (request : FastCgiRequest) : Prop :=
  (∃ e, execute backend request = .error e) ∧
  ∀ (env : ServerEnv) (config : ServerConfig) (scriptPath : Path)
    (requestUri method body contentType : Bytes) (w : World),
    env.backend = backend →
    phpRequest config scriptPath requestUri method body contentType = request →
    (handlePhpScript env config scriptPath requestUri method body contentType w).1 =
      (502, bytes "502 Bad Gateway: PHP FastCGI unavailable\n")

/-- A reply that is not whole fails if and only if there is a header behind the
collected records (one of another request, or of a record that is cut in its
content or padding), or they are nothing but error output. Otherwise it is cut
between two records or inside a header, or ended by the end of another request,
and passes for a success. -/
theorem brokenReply_fails_iff {backend : FastCgiBackend} {request : FastCgiRequest}
    {reply : FastCgiReply} (h : backend.exchange (wireOf backend request) = .ok reply) :
    (¬ Ended reply.sent → FailsWith502 backend request) ↔
      Ended reply.sent ∨ stopsReader (ownRecords reply.sent).2 = true ∨ OnlyErrors reply.sent := by
  have hfails : FailsWith502 backend request ↔ ∃ e, execute backend request = .error e := by
    refine ⟨fun hfails => hfails.1, fun herror => ⟨herror, ?_⟩⟩
    intro env config scriptPath requestUri method body contentType w hbackend hrequest
    obtain ⟨e, he⟩ := herror
    rw [← hbackend, ← hrequest] at he
    exact handlePhpScript_error w he
  rw [hfails, execute_cases h]
  tauto

/-- A backend that closes the connection without an answer. -/
def silentBackend : FastCgiBackend := { exchange := fun _ => .ok { sent := [] } }

theorem brokenReply_fails_iff_silent :
    (¬ Ended [] → FailsWith502 silentBackend {}) ↔
      Ended [] ∨ stopsReader (ownRecords []).2 = true ∨ OnlyErrors [] :=
  @brokenReply_fails_iff silentBackend {} { sent := [] } rfl

/-- The silence is a page with status 200 and no content. -/
theorem silentBackend_succeeds :
    silentBackend.exchange (wireOf silentBackend {}) = .ok { sent := [] } ∧
      execute silentBackend {} = .ok { status := 200, headers := [], body := [] } ∧
      ¬ Ended [] := by
  refine ⟨rfl, rfl, ?_⟩
  rintro ⟨records, last, rest, hstart, -, -⟩
  cases records with
  | nil =>
      obtain ⟨next, hread, -⟩ := hstart
      simp [readRecord] at hread
  | cons r records =>
      obtain ⟨next, hread, -⟩ := hstart
      simp [readRecord] at hread

end HydrogenHttpd.Ref
