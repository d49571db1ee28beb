import HydrogenHttpd.Proofs.AcceptedRequests
import HydrogenHttpd.Proofs.Calls
import HydrogenHttpd.Ref.ClientHandlers

/-!
# The access log cannot be forged

Nothing is escaped in a line of the access log, and nothing needs to be: the
method and the target are extracted with `>>` by both parsers, so that no white
space gets into them, and every way out of a handler passes them on as they are
or leaves the dashes (`handleClientStream_words`). The words of a line are then
the ones it was built from, in their order, and give the arguments back.
-/

namespace HydrogenHttpd.Ref

open Base Spec

/-- A text that a stream extracts in one piece. -/
def IsWord (text : Bytes) : Prop := text ≠ [] ∧ ∀ c ∈ text, isSpace c = false

instance (text : Bytes) : Decidable (IsWord text) :=
  inferInstanceAs (Decidable (text ≠ [] ∧ ∀ c ∈ text, isSpace c = false))

theorem isWord_dash : IsWord (bytes "-") := by simp [IsWord, bytes, isSpace]

/-! ## The words that the parsers let through -/

theorem requestLine_isWord {isToken : Bytes → Bool} {limits : HttpParseLimits} {line : Bytes}
    {request : HttpRequest} (h : requestLine isToken limits line = .ok request) :
    IsWord request.method ∧ IsWord request.target := by
  have hwords := (requestLine_accepts h).1
  exact ⟨mem_wordsOf (hwords ▸ List.mem_cons_self),
    mem_wordsOf (hwords ▸ List.mem_cons_of_mem _ List.mem_cons_self)⟩

theorem isWord_orDash {text : Bytes} (h : IsWord text) : IsWord (orDash text) := by
  rwa [orDash, if_neg h.1]

theorem finish_ok {limits : HttpParseLimits} {raw : Bytes} {bodyOffset : Nat}
    {request : HttpRequest} {st : HeaderScan}
    (h : (StrictHttpParser.finish limits raw bodyOffset request st).ok = true) :
    (StrictHttpParser.finish limits raw bodyOffset request st).request.method = request.method ∧
    (StrictHttpParser.finish limits raw bodyOffset request st).request.target =
      request.target := by
  simp only [StrictHttpParser.finish] at h ⊢
  repeat' split
  all_goals first
    | exact ⟨rfl, rfl⟩
    | simp_all [badRequest, payloadTooLarge, fail]

theorem acceptRequest_isWord {config : ServerConfig} {rawRequest : Bytes}
    (hok : (acceptRequest config rawRequest).ok = true) :
    IsWord (acceptRequest config rawRequest).request.method ∧
      IsWord (acceptRequest config rawRequest).request.target := by
  rw [acceptRequest] at hok ⊢
  split at hok
  · cases hok
  · next hfits =>
      rw [if_neg hfits]
      obtain ⟨b, body, request, st, haccepted⟩ := accepted_of_ok hok
      have hwords := requestLine_isWord haccepted.line
      rw [haccepted.parsed] at hok ⊢
      obtain ⟨hmethod, htarget⟩ := finish_ok hok
      rw [hmethod, htarget]
      exact hwords

theorem parseHeadersOnly_isWord {headerPart : Bytes} {limits : HttpParseLimits}
    (hend : EndsAtBlank headerPart) (hok : (parseHeadersOnly headerPart limits).ok = true) :
    IsWord (parseHeadersOnly headerPart limits).request.method ∧
      IsWord (parseHeadersOnly headerPart limits).request.target := by
  obtain ⟨b, rfl, -, -⟩ := exists_block hend
  obtain ⟨request, st, -, hline, -, hparsed⟩ := parseHeadersOnly_ok hend hok
  have hwords := requestLine_isWord hline
  rw [hparsed] at hok ⊢
  obtain ⟨-, hrequest⟩ := finishHeadersOnly_ok hok
  rw [hrequest]
  exact hwords

/-! ## The ways out of a handler -/

section Exits

variable {env : ServerEnv} {config : ServerConfig} {tls : Bool} {req : HttpRequest}
  {finish : HttpResponse → Reply} {out : Reply}

theorem handleUploadRequest_finish {w : World}
    (h : (handleUploadRequest env config tls req finish w).1 = .ok out) :
    ∃ res, out = finish res := by
  simp only [handleUploadRequest] at h
  repeat' split at h
  all_goals first
    | exact ⟨_, (Except.ok.inj h).symm⟩
    | cases h

theorem serveFile_finish (res : HttpResponse) (safePath : Path) (w : World) :
    ∃ res', (serveFile env config res req safePath finish w).1 = finish res' := by
  simp only [serveFile]
  repeat' split
  all_goals exact ⟨_, rfl⟩

theorem serveTarget_finish {res : HttpResponse} {host : Bytes} {w : World}
    (h : (serveTarget env config res req host finish w).1 = .ok out) :
    ∃ res, out = finish res := by
  simp only [serveTarget] at h
  repeat' split at h
  all_goals first
    | exact ⟨_, (Except.ok.inj h).symm⟩
    | cases h
  exact serveFile_finish _ _ _

theorem routeRequest_finish {w : World}
    (h : (routeRequest env config tls req finish w).1 = .ok out) : ∃ res, out = finish res := by
  simp only [routeRequest] at h
  split at h
  · exact ⟨_, (Except.ok.inj h).symm⟩
  · split at h
    · exact ⟨_, (Except.ok.inj h).symm⟩
    · split at h
      · exact ⟨_, (Except.ok.inj h).symm⟩
      · split at h
        · exact handleUploadRequest_finish h
        · exact serveTarget_finish h

theorem makeResponse_words {rawRequest method target : Bytes} {w : World}
    (hmethod : IsWord method) (htarget : IsWord target)
    (h : (makeResponse env config rawRequest tls method target w).1 = .ok out) :
    IsWord out.method ∧ IsWord out.target := by
  simp only [makeResponse] at h
  split at h
  · rw [← Except.ok.inj h]
    exact ⟨hmethod, htarget⟩
  · next hok =>
      obtain ⟨res, rfl⟩ := routeRequest_finish h
      obtain ⟨hm, ht⟩ := acceptRequest_isWord (by simpa using hok)
      exact ⟨isWord_orDash hm, isWord_orDash ht⟩

/-- What a handler passes to the log are words. -/
theorem handleClientStream_words {clientIp : Bytes} {stream : Connection} {w : World}
    (h : (handleClientStream env config tls clientIp stream w).1 = .ok out) :
    IsWord out.method ∧ IsWord out.target := by
  simp only [handleClientStream] at h
  split at h
  · cases h
  · next headers stream' hread =>
      have hend := (endsAtBlank_of_read hread).1
      simp only [handleHeaders] at h
      split at h
      · rw [← Except.ok.inj h]
        exact ⟨isWord_dash, isWord_dash⟩
      · next hok =>
          obtain ⟨hm, ht⟩ := parseHeadersOnly_isWord hend (by simpa using hok)
          have hm' := isWord_orDash hm
          have ht' := isWord_orDash ht
          split at h
          · rw [← Except.ok.inj h]
            exact ⟨hm', ht'⟩
          · split at h
            · generalize (handleStreamedUpload env config tls clientIp stream' headers.leftover
                _ _).1 = result at h
              cases result with
              | error e => cases h
              | ok res =>
                  rw [← Except.ok.inj h]
                  exact ⟨hm', ht'⟩
            · split at h
              · cases h
              · exact makeResponse_words hm' ht' h

end Exits

/-! ## The words of a line -/

/-- A line is its words, one blank between two of them, and its end. -/
theorem wordsOf_line {ws : List Bytes} (h : ∀ word ∈ ws, IsWord word) :
    wordsOf ([space].intercalate ws ++ [lf]) = ws := by
  induction ws with
  | nil => decide
  | cons word ws ih =>
      obtain ⟨hne, hword⟩ := h word List.mem_cons_self
      cases ws with
      | nil =>
          rw [List.intercalate_singleton, wordsOf_word hne hword (by simp; decide)]
          rw [wordsOf_space (by decide), wordsOf_nil]
      | cons next ws =>
          rw [List.intercalate_cons_cons, List.append_assoc, List.append_assoc,
            wordsOf_word hne hword (by simp; decide), List.singleton_append,
            wordsOf_space (by decide), ih fun v hv => h v (List.mem_cons_of_mem _ hv)]

theorem IsWord.append {u v : Bytes} (hu : IsWord u) (hv : ∀ c ∈ v, isSpace c = false) :
    IsWord (u ++ v) := by
  refine ⟨by simp [hu.1], fun c hc => ?_⟩
  rcases List.mem_append.mp hc with hc | hc
  · exact hu.2 c hc
  · exact hv c hc

theorem decimal_unspaced (n : Nat) : ∀ c ∈ decimal n, isSpace c = false :=
  fun _ hc => isSpace_of_isDigit (isDigit_of_mem_decimal hc)

theorem twoDigits_unspaced (n : Nat) : ∀ c ∈ twoDigits n, isSpace c = false := by
  intro c hc
  rw [twoDigits] at hc
  split at hc
  · rcases List.mem_cons.mp hc with rfl | hc
    · decide
    · exact decimal_unspaced n c hc
  · exact decimal_unspaced n c hc

theorem signedDecimal_unspaced (n : Int) : ∀ c ∈ signedDecimal n, isSpace c = false := by
  intro c hc
  rw [signedDecimal] at hc
  split at hc
  · rcases List.mem_cons.mp hc with rfl | hc
    · decide
    · exact decimal_unspaced _ c hc
  · exact decimal_unspaced _ c hc

theorem signedDecimal_injective : Function.Injective signedDecimal := by
  have hminus : ∀ n m : Nat, (45 : UInt8) :: decimal n ≠ decimal m := by
    intro n m h
    have hmem : (45 : UInt8) ∈ decimal m := h ▸ List.mem_cons_self
    exact absurd (isDigit_of_mem_decimal hmem) (by decide)
  intro a b h
  rw [signedDecimal, signedDecimal] at h
  split at h
  · split at h
    · have habs := decimal_injective (List.cons.inj h).2
      omega
    · exact absurd h (hminus _ _)
  · split at h
    · exact absurd h.symm (hminus _ _)
    · have habs := decimal_injective h
      omega

/-- The words that a line is built from: the date and the time, and an argument
each. -/
def lineWords (time : LocalTime) (e : AccessEntry) : List Bytes :=
  [decimal time.year ++ bytes "-" ++ twoDigits time.month ++ bytes "-" ++ twoDigits time.day,
   twoDigits time.hour ++ bytes ":" ++ twoDigits time.minute ++ bytes ":" ++
     twoDigits time.second,
   bytes "ip=" ++ e.ip, bytes "scheme=" ++ e.scheme, bytes "method=" ++ e.method,
   bytes "target=\"" ++ e.target ++ bytes "\"", bytes "status=" ++ signedDecimal e.status,
   bytes "bytes=" ++ decimal e.byteCount]

theorem line_words {time : LocalTime} {e : AccessEntry} (h : e.now = Logger.now time) :
    e.line = [space].intercalate (lineWords time e) ++ [lf] := by
  rw [AccessEntry.line, h, Logger.now, lineWords]
  simp only [List.intercalate_cons_cons, List.intercalate_singleton]
  rw [show bytes " ip=" = [space] ++ bytes "ip=" by rfl,
    show bytes " scheme=" = [space] ++ bytes "scheme=" by rfl,
    show bytes " method=" = [space] ++ bytes "method=" by rfl,
    show bytes " target=\"" = [space] ++ bytes "target=\"" by rfl,
    show bytes "\" status=" = bytes "\"" ++ [space] ++ bytes "status=" by rfl,
    show bytes " bytes=" = [space] ++ bytes "bytes=" by rfl,
    show bytes " " = [space] by rfl]
  simp only [List.append_assoc]

/-! ## The calls of `access` -/

/-- The call of `access` with which one of the two handlers ends. -/
def Logs (env : ServerEnv) (config : ServerConfig) (client : Client) (limiter : RateLimiter)
    (w : World) (e : AccessEntry) : Prop :=
  (handlePlainClient env config client limiter w).1 = .ok e ∨
    (handleTlsClient env config client limiter w).1 = .ok e

/-- The address of a client has no white space. -/
def Client.AddressUnspaced (client : Client) : Prop :=
  ∀ address, client.remoteEndpoint = .ok address → ∀ c ∈ address, isSpace c = false

/-- The arguments of a call that cannot be told from others by where the words
of its line end. -/
structure EntryFits (client : Client) (e : AccessEntry) : Prop where
  now : e.now = Logger.now client.loggedAt
  ip : client.remoteEndpoint = .ok e.ip
  scheme : IsWord e.scheme
  method : IsWord e.method
  target : IsWord e.target

variable {env : ServerEnv} {config : ServerConfig} {client : Client} {limiter : RateLimiter}
  {w : World} {e : AccessEntry}

theorem serveClient_fits {scheme clientIp : Bytes} {tls : Bool}
    (hip : client.remoteEndpoint = .ok clientIp) (hscheme : IsWord scheme)
    (h : (serveClient env config scheme tls clientIp client limiter w).1 = .ok e) :
    EntryFits client e := by
  simp only [serveClient] at h
  generalize (if config.enableRateLimiter = true then
    limiter.allow env.hash (scheme ++ bytes ":" ++ clientIp) client.limiterNow
    else (true, limiter)) = answer at h
  cases hwritten : client.written with
  | error text =>
      rw [hwritten] at h
      split at h
      · cases h
      · split at h <;> cases h
  | ok _ =>
      rw [hwritten] at h
      split at h
      · rw [← Except.ok.inj h]
        exact ⟨rfl, hip, hscheme, isWord_dash, isWord_dash⟩
      · split at h
        · cases h
        · next out w' hrun =>
            rw [← Except.ok.inj h]
            obtain ⟨hm, ht⟩ := handleClientStream_words (congrArg Prod.fst hrun)
            exact ⟨rfl, hip, hscheme, hm, ht⟩

theorem ok_of_mapError {ε δ α : Type} {f : ε → δ} {x : Except ε α} {a : α}
    (h : x.mapError f = .ok a) : x = .ok a := by
  cases x with
  | error e => cases h
  | ok b => rw [← Except.ok.inj h]

theorem Logs.fits (h : Logs env config client limiter w e) : EntryFits client e := by
  rcases h with h | h
  · rw [handlePlainClient] at h
    split at h
    · cases h
    · next clientIp hip =>
        exact serveClient_fits hip (by simp [IsWord, bytes, isSpace]) (ok_of_mapError h)
  · rw [handleTlsClient] at h
    split at h
    · cases h
    · next clientIp hip =>
        split at h
        · cases h
        · exact serveClient_fits hip (by simp [IsWord, bytes, isSpace]) (ok_of_mapError h)

theorem EntryFits.words (h : EntryFits client e) (haddress : client.AddressUnspaced) :
    ∀ word ∈ lineWords client.loggedAt e, IsWord word := by
  have hip := haddress e.ip h.ip
  have hdash : ∀ c ∈ bytes "-", isSpace c = false := by simp [bytes, isSpace]
  have hcolon : ∀ c ∈ bytes ":", isSpace c = false := by simp [bytes, isSpace]
  have hquote : ∀ c ∈ bytes "\"", isSpace c = false := by simp [bytes, isSpace]
  have htwo := twoDigits_unspaced
  have hdate : IsWord (decimal client.loggedAt.year) :=
    ⟨decimal_ne_nil _, decimal_unspaced _⟩
  have htime : IsWord (twoDigits client.loggedAt.hour) := by
    refine ⟨?_, htwo _⟩
    rw [twoDigits]
    split
    · simp
    · exact decimal_ne_nil _
  intro word hword
  simp only [lineWords, List.mem_cons, List.not_mem_nil, or_false] at hword
  rcases hword with rfl | rfl | rfl | rfl | rfl | rfl | rfl | rfl
  · exact (((hdate.append hdash).append (htwo _)).append hdash).append (htwo _)
  · exact (((htime.append hcolon).append (htwo _)).append hcolon).append (htwo _)
  · exact IsWord.append (by simp [IsWord, bytes, isSpace]) hip
  · exact IsWord.append (by simp [IsWord, bytes, isSpace]) h.scheme.2
  · exact IsWord.append (by simp [IsWord, bytes, isSpace]) h.method.2
  · exact (IsWord.append (by simp [IsWord, bytes, isSpace]) h.target.2).append hquote
  · exact IsWord.append (by simp [IsWord, bytes, isSpace]) (signedDecimal_unspaced _)
  · exact IsWord.append (by simp [IsWord, bytes, isSpace]) (decimal_unspaced _)

/-- The line feed at the end is the only one. -/
theorem EntryFits.one_lf (h : EntryFits client e) (haddress : client.AddressUnspaced) :
    ∃ text, e.line = text ++ [lf] ∧ lf ∉ text := by
  refine ⟨_, line_words h.now, fun hmem => ?_⟩
  rcases mem_intercalate hmem with hmem | ⟨word, hword, hmem⟩
  · exact absurd hmem (by decide)
  · exact absurd ((h.words haddress word hword).2 lf hmem) (by decide)

/-- No client can make a line of the access log that is not its own: a line is
one line, and two equal lines log the same. -/
theorem access_lines_unforgeable {env' : ServerEnv} {config' : ServerConfig} {client' : Client}
    {limiter' : RateLimiter} {w' : World} {e' : AccessEntry}
    (h : Logs env config client limiter w e) (h' : Logs env' config' client' limiter' w' e')
    (haddress : client.AddressUnspaced) (haddress' : client'.AddressUnspaced) :
    (∃ text, e.line = text ++ [lf] ∧ lf ∉ text) ∧
    (e.line = e'.line →
      e.ip = e'.ip ∧ e.scheme = e'.scheme ∧ e.method = e'.method ∧ e.target = e'.target ∧
        e.status = e'.status ∧ e.byteCount = e'.byteCount) := by
  refine ⟨h.fits.one_lf haddress, fun hline => ?_⟩
  have hwords := congrArg wordsOf hline
  rw [line_words h.fits.now, line_words h'.fits.now, wordsOf_line (h.fits.words haddress),
    wordsOf_line (h'.fits.words haddress')] at hwords
  simp only [lineWords, List.cons.injEq, List.append_cancel_left_eq, List.append_cancel_right_eq,
    and_true] at hwords
  obtain ⟨-, -, hip, hscheme, hmethod, htarget, hstatus, hcount⟩ := hwords
  exact ⟨hip, hscheme, hmethod, htarget, signedDecimal_injective hstatus,
    decimal_injective hcount⟩

/-- A client that asks for a method the server does not have, with a quotation
mark in its target. -/
def deletion : Client :=
  { remoteEndpoint := .ok (bytes "10.0.0.7")
    stream := { pending := bytes "DELETE /a\"b HTTP/1.0\r\n\r\n" }
    loggedAt := { year := 2024, month := 5, day := 6, hour := 7, minute := 8, second := 9 } }

def deletionEntry (scheme : String) (byteCount : Nat) : AccessEntry :=
  { now := bytes "2024-05-06 07:08:09"
    ip := bytes "10.0.0.7"
    scheme := bytes scheme
    method := bytes "DELETE"
    target := bytes "/a\"b"
    status := 405
    byteCount := byteCount }

theorem deletion_addressUnspaced : deletion.AddressUnspaced := by
  intro address h
  rw [← Except.ok.inj h]
  simp [bytes, isSpace]

theorem access_lines_unforgeable_deletion :
    (∃ text, (deletionEntry "http" 602).line = text ++ [lf] ∧ lf ∉ text) ∧
    ((deletionEntry "http" 602).line = (deletionEntry "https" 666).line →
      (deletionEntry "http" 602).ip = (deletionEntry "https" 666).ip ∧
        (deletionEntry "http" 602).scheme = (deletionEntry "https" 666).scheme ∧
        (deletionEntry "http" 602).method = (deletionEntry "https" 666).method ∧
        (deletionEntry "http" 602).target = (deletionEntry "https" 666).target ∧
        (deletionEntry "http" 602).status = (deletionEntry "https" 666).status ∧
        (deletionEntry "http" 602).byteCount = (deletionEntry "https" 666).byteCount) :=
  @access_lines_unforgeable quietEnv {} deletion (RateLimiter.construct 10 1) freshWorld
    (deletionEntry "http" 602) quietEnv {} deletion (RateLimiter.construct 10 1) freshWorld
    (deletionEntry "https" 666) (Or.inl (by decide +kernel)) (Or.inr (by decide +kernel))
    deletion_addressUnspaced deletion_addressUnspaced

end HydrogenHttpd.Ref
