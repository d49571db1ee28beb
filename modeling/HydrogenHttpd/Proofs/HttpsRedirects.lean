import HydrogenHttpd.Spec.Uri
import HydrogenHttpd.Proofs.AccessLines
import HydrogenHttpd.Proofs.DocumentRoots
import HydrogenHttpd.Proofs.HttpsOnly

/-!
# Where a redirect to HTTPS leads

`httpsRedirectLocation` puts its value together: the scheme, the Host field up
to its first colon, the port unless that is 443, and the target as the request
line has it. Nothing separates the target from the authority. A target that
begins with a slash ends the authority where it should; but the redirect stands
in front of `resolveSafePath`, whose screening asks for that slash, and there
is none in `@evil.example/`, which makes user information of all that stands
before it. Of a bracketed host the first colon leaves at most a bracket and a
group.

`KeptBy` says what the Host field and the target have to be for the authority to
be kept all the same.
-/

namespace HydrogenHttpd.Ref

open Base Spec

/-- What the authority of a redirect has to name: the host of the request in
lower case, or `localhost`. -/
def redirectHost (host : Bytes) : Bytes :=
  if host = [] then bytes "localhost" else lowercase host

def httpsPort (config : ServerConfig) : Nat :=
  if config.publicHttpsPort ≠ 0 then config.publicHttpsPort else config.tlsPort

/-- The port in front of the target. -/
def writtenPort (port : Nat) : Bytes := if port ≠ 443 then bytes ":" ++ decimal port else []

/-- What the target has in front of the first byte that ends an authority. -/
def authorityPart (target : Bytes) : Bytes := target.takeWhile fun c => !endsAuthority c

/-- Behind a host the text means this port, 443 if it does not name one. -/
def StandsFor (port : Nat) (text : Bytes) : Prop :=
  ∃ read, readPort text = some read ∧ read.getD 443 = port

def KeepsAuthority (location host : Bytes) (port : Nat) : Prop :=
  ∃ uri, Uri.parse location = some uri ∧ uri.scheme = bytes "https" ∧ uri.host = host ∧
    uri.port.getD 443 = port

/-- A target that leaves a name and its port alone: its authority part is empty,
or goes on with a port that is not written, or with a zero. -/
def LeavesPort (port : Nat) (target : Bytes) : Prop :=
  authorityPart target = [] ∨ (port = 443 ∧ StandsFor 443 (authorityPart target)) ∨
    (port = 0 ∧ ∀ c ∈ authorityPart target, c = 48)

/-- The host is a name and the target leaves it alone, or it is bracketed and
the target brings what the first colon cut off, or the target repeats the host
and the port behind an `@`. -/
def KeptBy (host : Bytes) (port : Nat) (target : Bytes) : Prop :=
  (host.head? ≠ some 91 ∧ LeavesPort port target) ∨
    (host.head? = some 91 ∧ ∃ s, StandsFor port s ∧
      writtenPort port ++ authorityPart target = (redirectHost host).dropWhile (· ≠ 58) ++ s) ∨
    ∃ u s, StandsFor port s ∧ authorityPart target = u ++ 64 :: (redirectHost host ++ s)

/-! ## Hosts in lower case -/

theorem toLower_nameByte : ∀ c, isNameByte c = true → isNameByte (toLower c) = true := by
  intro c h
  by_cases hc : isUpper c = true
  · have hlower : isLower (c + 32) = true := by
      simp only [isUpper, isLower, Bool.and_eq_true, decide_eq_true_eq, UInt8.le_iff_toNat_le,
        UInt8.toNat_add, UInt8.reduceToNat] at hc ⊢
      omega
    simp [toLower, hc, isNameByte, isUnreserved, isAlnum, hlower]
  · rw [toLower, if_neg hc]
    exact h

theorem toLower_literalByte : ∀ c, isLiteralByte c = true → isLiteralByte (toLower c) = true := by
  intro c h
  by_cases hc : isUpper c = true
  · have hdigit : isXDigit (c + 32) = true := by
      simp [isUpper, isLiteralByte, isXDigit, isDigit, dot, UInt8.le_iff_toNat_le,
        UInt8.toNat_add, ← UInt8.toNat_inj] at hc h ⊢
      omega
    simp [toLower, hc, isLiteralByte, hdigit]
  · rw [toLower, if_neg hc]
    exact h

/-- No byte of a name means anything in an authority. -/
theorem nameByte_plain : ∀ c, isNameByte c = true →
    c ≠ 58 ∧ c ≠ 64 ∧ c ≠ 91 ∧ endsAuthority c = false ∧ isSpace c = false := by
  intro c h
  simp [isNameByte, isUnreserved, isSubDelim, isAlnum, isDigit, isUpper, isLower, bytes,
    endsAuthority, isSpace, UInt8.le_iff_toNat_le, ← UInt8.toNat_inj] at h ⊢
  omega

theorem literalByte_plain : ∀ c, isLiteralByte c = true →
    c ≠ 64 ∧ c ≠ 93 ∧ endsAuthority c = false ∧ isSpace c = false := by
  intro c h
  simp [isLiteralByte, isXDigit, isDigit, dot, endsAuthority, isSpace, UInt8.le_iff_toNat_le,
    ← UInt8.toNat_inj] at h ⊢
  omega

/-- A host of a redirect is a name, or what stood in brackets stands there in
lower case. -/
theorem redirectHost_form {host : Bytes} (h : Host host) :
    (host.head? ≠ some 91 ∧ redirectHost host ≠ [] ∧
        ∀ c ∈ redirectHost host, isNameByte c = true) ∨
      host.head? = some 91 ∧ ∃ s, redirectHost host = 91 :: s ++ [93] ∧
        (∀ c ∈ s, isLiteralByte c = true) ∧ 58 ∈ s := by
  rcases h.form with hname | ⟨s, rfl, hs, hcolon⟩
  · left
    refine ⟨fun h => ?_, ?_⟩
    · exact absurd rfl (nameByte_plain 91 (hname 91 (List.mem_of_mem_head? h))).2.2.1
    · rw [redirectHost]
      split
      · simp [bytes, isNameByte, isUnreserved, isAlnum, isLower]
      · next hne =>
          refine ⟨by simpa [lowercase] using hne, fun c hc => ?_⟩
          obtain ⟨d, hd, rfl⟩ := List.mem_map.mp hc
          exact toLower_nameByte d (hname d hd)
  · right
    refine ⟨rfl, lowercase s, ?_, fun c hc => ?_, ?_⟩
    · rw [redirectHost, if_neg (by simp), lowercase, lowercase, List.map_append, List.map_cons]
      rfl
    · obtain ⟨d, hd, rfl⟩ := List.mem_map.mp hc
      exact toLower_literalByte d (hs d hd)
    · exact List.mem_map.mpr ⟨58, hcolon, by decide⟩

theorem redirectHost_delimited {host : Bytes} (h : Host host) :
    Delimited (redirectHost host) ∧ ∀ c ∈ redirectHost host, endsAuthority c = false := by
  rcases redirectHost_form h with ⟨-, -, hname⟩ | ⟨-, s, hs, hliteral, -⟩
  · refine ⟨⟨fun hat => ?_, Or.inl ⟨fun hopen => ?_, fun hcolon => ?_⟩⟩, fun c hc => ?_⟩
    · exact absurd rfl (nameByte_plain 64 (hname 64 hat)).2.1
    · exact absurd rfl (nameByte_plain 91 (hname 91 (List.mem_of_mem_head? hopen))).2.2.1
    · exact absurd rfl (nameByte_plain 58 (hname 58 hcolon)).1
    · exact (nameByte_plain c (hname c hc)).2.2.2.1
  · rw [hs]
    refine ⟨⟨fun hat => ?_, Or.inr ⟨s, rfl, fun hclose => ?_⟩⟩, fun c hc => ?_⟩
    · have hat : (64 : UInt8) ∈ s := by simpa using hat
      exact absurd rfl (literalByte_plain 64 (hliteral 64 hat)).1
    · exact absurd rfl (literalByte_plain 93 (hliteral 93 hclose)).2.1
    · simp only [List.cons_append, List.mem_cons, List.mem_append, List.not_mem_nil,
        or_false] at hc
      rcases hc with rfl | hc | rfl
      · decide
      · exact (literalByte_plain c (hliteral c hc)).2.2.1
      · decide

/-! ## The location -/

theorem normalizeHost_eq (host : Bytes) :
    security.normalizeHost host = trim (lowercase (host.takeWhile (· ≠ 58))) := by
  rw [← take_find_eq_takeWhile]
  rfl

/-- What `normalizeHost` leaves of a Host field, with its fall-back. -/
theorem normalizeHost_field {field host : Bytes} (h : HostField field host) :
    (if security.normalizeHost field = [] then bytes "localhost"
      else security.normalizeHost field) = (redirectHost host).takeWhile (· ≠ 58) := by
  have hcut : field.takeWhile (· ≠ 58) = host.takeWhile (· ≠ 58) := by
    rcases h.2 with rfl | ⟨digits, -, rfl⟩
    · rfl
    · exact takeWhile_ne_append_cons 58 host digits
  have hspace : ∀ c ∈ redirectHost host, isSpace c = false := fun c hc => by
    rcases redirectHost_form h.1 with ⟨-, -, hname⟩ | ⟨-, s, hs, hliteral, -⟩
    · exact (nameByte_plain c (hname c hc)).2.2.2.2
    · rw [hs] at hc
      simp only [List.cons_append, List.mem_cons, List.mem_append, List.not_mem_nil,
        or_false] at hc
      rcases hc with rfl | hc | rfl
      · decide
      · exact (literalByte_plain c (hliteral c hc)).2.2.2
      · decide
  by_cases hhost : host = []
  · subst hhost
    have hempty : security.normalizeHost field = [] := by
      rw [normalizeHost_eq, hcut]
      rfl
    rw [if_pos hempty]
    decide +kernel
  · have hlower : redirectHost host = lowercase host := if_neg hhost
    have hcolon : ∀ c, toLower c = 58 ↔ c = 58 := by
      intro c
      rw [toLower]
      split
      · next hc =>
          simp [isUpper, UInt8.le_iff_toNat_le, ← UInt8.toNat_inj, UInt8.toNat_add] at hc ⊢
          omega
      · rfl
    have hnormalized : security.normalizeHost field = (redirectHost host).takeWhile (· ≠ 58) := by
      have hsame : (fun c => decide (c ≠ 58)) ∘ toLower = fun c => decide (c ≠ 58) := by
        funext c
        simp [hcolon]
      have hfront : lowercase (host.takeWhile (· ≠ 58)) =
          (redirectHost host).takeWhile (· ≠ 58) := by
        rw [hlower, lowercase, lowercase, List.takeWhile_map, hsame]
      rw [normalizeHost_eq, hcut, hfront]
      refine trimWith_eq_self_of_ends (fun c hc => ?_) (fun c hc => ?_)
      · exact hspace c ((List.takeWhile_sublist _).mem (List.mem_of_mem_head? hc))
      · exact hspace c ((List.takeWhile_sublist _).mem (List.mem_of_mem_getLast? hc))
    rw [hnormalized, if_neg]
    rcases redirectHost_form h.1 with ⟨-, hne, hname⟩ | ⟨-, s, hs, -⟩
    · rw [List.takeWhile_eq_self_iff.mpr fun c hc => by
        simpa using (nameByte_plain c (hname c hc)).1]
      exact hne
    · rw [hs]
      simp

theorem writtenPort_plain (port : Nat) :
    ∀ c ∈ writtenPort port, c ≠ 64 ∧ endsAuthority c = false := by
  have hdigit : ∀ c, isDigit c = true → c ≠ 64 ∧ endsAuthority c = false := by
    intro c h
    simp [isDigit, endsAuthority, UInt8.le_iff_toNat_le, ← UInt8.toNat_inj] at h ⊢
    omega
  intro c hc
  rw [writtenPort] at hc
  split at hc
  · rcases List.mem_append.mp hc with hc | hc
    · have hcolon : c = 58 := by simpa using (show c ∈ [58] from hc)
      rw [hcolon]
      decide
    · exact hdigit c (isDigit_of_mem_decimal hc)
  · cases hc

theorem httpsRedirectLocation_field {config : ServerConfig} {field host target : Bytes}
    (hfield : HostField field host) (htarget : target ≠ []) :
    httpsRedirectLocation config field target =
      bytes "https://" ++ ((redirectHost host).takeWhile (· ≠ 58) ++
        writtenPort (httpsPort config) ++ target) := by
  simp only [httpsRedirectLocation]
  rw [normalizeHost_field hfield, if_neg htarget]
  simp only [List.append_assoc]
  rfl

/-- The authority of the location. -/
theorem location_authority {host target : Bytes} {port : Nat} (h : Host host) :
    ((redirectHost host).takeWhile (· ≠ 58) ++ writtenPort port ++ target).takeWhile
        (fun c => !endsAuthority c) =
      (redirectHost host).takeWhile (· ≠ 58) ++ (writtenPort port ++ authorityPart target) := by
  rw [List.append_assoc, List.takeWhile_append_of_pos, List.takeWhile_append_of_pos]
  · rfl
  · intro c hc
    rw [(writtenPort_plain port c hc).2]
    rfl
  · intro c hc
    rw [(redirectHost_delimited h).2 c ((List.takeWhile_sublist _).mem hc)]
    rfl

/-! ## The port -/

/-- Digits that follow a port make another one of it, zero behind zero apart. -/
theorem standsFor_writtenPort {port : Nat} {front : Bytes} :
    StandsFor port (writtenPort port ++ front) ↔
      front = [] ∨ (port = 443 ∧ StandsFor 443 front) ∨ (port = 0 ∧ ∀ c ∈ front, c = 48) := by
  by_cases hport : port = 443
  · subst hport
    have hdefault : StandsFor 443 [] := ⟨none, rfl, rfl⟩
    have hwritten : writtenPort 443 ++ front = front := rfl
    rw [hwritten]
    constructor
    · exact fun h => Or.inr (Or.inl ⟨rfl, h⟩)
    · rintro (rfl | ⟨-, h⟩ | ⟨h, -⟩)
      · exact hdefault
      · exact h
      · cases h
  · have hdecimal : (decimal port).all isDigit = true :=
      List.all_eq_true.mpr fun _ => isDigit_of_mem_decimal
    have hread : StandsFor port (writtenPort port ++ front) ↔
        front.all isDigit = true ∧ port * 10 ^ front.length + digitsValue front = port := by
      have hwritten : writtenPort port ++ front = 58 :: (decimal port ++ front) := by
        rw [writtenPort, if_pos hport]
        rfl
      rw [StandsFor, hwritten, readPort, List.all_append, hdecimal, Bool.true_and]
      by_cases hfront : front.all isDigit = true
      · rw [if_pos ⟨rfl, hfront⟩, if_neg (by simp [decimal_ne_nil]), digitsValue_append,
          digitsValue_decimal]
        simp [hfront]
      · rw [if_neg fun h => hfront h.2]
        simp [hfront]
    rw [hread]
    constructor
    · rintro ⟨hdigits, hvalue⟩
      by_cases hfront : front = []
      · exact Or.inl hfront
      · have hpow : 10 ≤ 10 ^ front.length :=
          Nat.le_self_pow (by simpa using hfront) 10
        have hzero : port = 0 := by nlinarith
        subst hzero
        rw [zero_mul, zero_add] at hvalue
        exact Or.inr (Or.inr ⟨rfl,
          (digitsValue_eq_zero_iff (List.all_eq_true.mp hdigits)).mp hvalue⟩)
    · rintro (rfl | ⟨h, -⟩ | ⟨rfl, hzeros⟩)
      · simp [digitsValue]
      · exact absurd h hport
      · have hdigits : ∀ c ∈ front, isDigit c = true := fun c hc => by
          rw [hzeros c hc]
          decide
        rw [zero_mul, zero_add]
        exact ⟨List.all_eq_true.mpr hdigits, (digitsValue_eq_zero_iff hdigits).mpr hzeros⟩

/-! ## What is kept -/

theorem keepsAuthority_iff {rest host : Bytes} {port : Nat} (hhost : Delimited host) :
    KeepsAuthority (bytes "https://" ++ rest) host port ↔
      ∃ s, StandsFor port s ∧
        (rest.takeWhile (fun c => !endsAuthority c) = host ++ s ∨
          ∃ u, rest.takeWhile (fun c => !endsAuthority c) = u ++ 64 :: (host ++ s)) := by
  rw [KeepsAuthority, Uri.parse_https]
  constructor
  · rintro ⟨uri, huri, -, rfl, hport⟩
    obtain ⟨⟨found, read⟩, hread, rfl⟩ := Option.map_eq_some_iff.mp huri
    obtain ⟨s, htext, hs⟩ := (readAuthority_eq_some_iff hhost).mp hread
    exact ⟨s, ⟨read, hs, hport⟩, htext⟩
  · rintro ⟨s, ⟨read, hs, hport⟩, htext⟩
    rw [(readAuthority_eq_some_iff hhost).mpr ⟨s, htext, hs⟩]
    exact ⟨_, rfl, rfl, rfl, hport⟩

theorem exists_append_cons_iff {α : Type} {c : α} {x y t : List α} (hx : c ∉ x) :
    (∃ u, x ++ y = u ++ c :: t) ↔ ∃ u, y = u ++ c :: t := by
  constructor
  · rintro ⟨u, h⟩
    rcases List.append_eq_append_iff.mp h with ⟨more, -, hy⟩ | ⟨more, rfl, hmore⟩
    · exact ⟨more, hy⟩
    · cases more with
      | nil => exact ⟨[], hmore.symm⟩
      | cons d more =>
          obtain rfl := (List.cons.inj hmore).1
          exact absurd (by simp) hx
  · rintro ⟨u, rfl⟩
    exact ⟨x ++ u, by simp⟩

theorem keepsAuthority_location_iff {config : ServerConfig} {field host target : Bytes}
    (hfield : HostField field host) (htarget : target ≠ []) :
    KeepsAuthority (httpsRedirectLocation config field target) (redirectHost host)
        (httpsPort config) ↔
      KeptBy host (httpsPort config) target := by
  obtain ⟨hdelimited, -⟩ := redirectHost_delimited hfield.1
  rw [httpsRedirectLocation_field hfield htarget, keepsAuthority_iff hdelimited,
    location_authority hfield.1]
  generalize httpsPort config = port
  have hbegins : ∀ s, (redirectHost host).takeWhile (· ≠ 58) ++
        (writtenPort port ++ authorityPart target) = redirectHost host ++ s ↔
      writtenPort port ++ authorityPart target =
        (redirectHost host).dropWhile (· ≠ 58) ++ s := by
    intro s
    have hsplit := List.takeWhile_append_dropWhile (p := (· ≠ (58 : UInt8)))
      (l := redirectHost host)
    conv_lhs => rhs; rw [← hsplit]
    rw [List.append_assoc, List.append_right_inj]
  have hnot : 64 ∉ (redirectHost host).takeWhile (· ≠ 58) ++ writtenPort port := by
    intro hat
    rcases List.mem_append.mp hat with hat | hat
    · exact hdelimited.1 ((List.takeWhile_sublist _).mem hat)
    · exact (writtenPort_plain port 64 hat).1 rfl
  have hbehind : ∀ s, (∃ u, (redirectHost host).takeWhile (· ≠ 58) ++
        (writtenPort port ++ authorityPart target) = u ++ 64 :: (redirectHost host ++ s)) ↔
      ∃ u, authorityPart target = u ++ 64 :: (redirectHost host ++ s) := by
    intro s
    rw [← List.append_assoc]
    exact exists_append_cons_iff hnot
  have hrepeated : (∃ s, StandsFor port s ∧
        ∃ u, authorityPart target = u ++ 64 :: (redirectHost host ++ s)) ↔
      ∃ u s, StandsFor port s ∧ authorityPart target = u ++ 64 :: (redirectHost host ++ s) :=
    ⟨fun ⟨s, hs, u, h⟩ => ⟨u, s, hs, h⟩, fun ⟨u, s, hs, h⟩ => ⟨s, hs, u, h⟩⟩
  simp only [hbegins, hbehind, and_or_left, exists_or, hrepeated]
  rw [KeptBy, ← or_assoc]
  refine or_congr_left ?_
  rcases redirectHost_form hfield.1 with ⟨hopen, -, hname⟩ | ⟨hopen, -⟩
  · have hcut : (redirectHost host).dropWhile (· ≠ 58) = [] :=
      List.dropWhile_eq_nil_iff.mpr fun c hc => by simpa using (nameByte_plain c (hname c hc)).1
    rw [hcut, LeavesPort, ← standsFor_writtenPort]
    simp [hopen]
  · simp [hopen]

/-! ## Redirected requests -/

/-- Where an answer sends the client. -/
def locationOf (out : Outcome) : Option Bytes :=
  out.1.toOption.bind fun r => r.response.extraHeaders.lookup (bytes "Location")

/-- Over plain HTTP the only location is that of the redirect. -/
theorem locationOf_makeResponse (env : ServerEnv) {config : ServerConfig}
    (hforce : config.forceHttps = true) {rawRequest method target location : Bytes} {w : World}
    (hok : (acceptRequest config rawRequest).ok = true)
    (h : locationOf (makeResponse env config rawRequest false method target w) = some location) :
    location = httpsRedirectLocation config (hostOf config rawRequest)
      (acceptRequest config rawRequest).request.target := by
  rw [makeResponse] at h
  simp only [] at h
  rw [if_neg (by simp [hok]), routeRequest_plain env hforce, locationOf] at h
  simp only [Except.toOption, Option.bind_some, reply] at h
  split at h
  · cases h
  · split at h
    · cases h
    · exact (Option.some.inj ((lookup_put_self ..).symm.trans h)).symm

/-- A redirect names the host of the request and the HTTPS port if and only if
the Host field and the target are such that nothing is lost or added. -/
theorem redirect_keeps_authority_iff (env : ServerEnv) {config : ServerConfig}
    (hforce : config.forceHttps = true) (rawRequest method target : Bytes) (w : World)
    (hok : (acceptRequest config rawRequest).ok = true) {host location : Bytes}
    (hfield : HostField (hostOf config rawRequest) host)
    (hlocation : locationOf (makeResponse env config rawRequest false method target w) =
      some location) :
    KeepsAuthority location (redirectHost host) (httpsPort config) ↔
      KeptBy host (httpsPort config) (acceptRequest config rawRequest).request.target := by
  rw [locationOf_makeResponse env hforce hok hlocation]
  exact keepsAuthority_location_iff hfield (acceptRequest_isWord hok).2.1

/-- A target without a slash in front. -/
def userInfoRequest : Bytes := bytes "GET @evil.example/ HTTP/1.1\r\nHost: a\r\n\r\n"

/-- A host that is an address in brackets. -/
def loopbackRequest : Bytes := bytes "GET / HTTP/1.1\r\nHost: [::1]\r\n\r\n"

theorem hostField_a : HostField (bytes "a") (bytes "a") :=
  ⟨.name (.char (by decide +kernel) .nil), Or.inl rfl⟩

/-- `::1` -/
theorem hostField_loopback : HostField (bytes "[::1]") (bytes "[::1]") := by
  refine ⟨.ipv6 (s := bytes "::1") (Or.inr ⟨[], [bytes "1"], 1, by simp, ?_, by decide, rfl⟩),
    Or.inl rfl⟩
  exact .group ⟨by decide, by decide, by decide +kernel⟩ .nil

theorem not_keepsAuthority {location host : Bytes} {port : Nat}
    (h : (Uri.parse location).map (·.host) ≠ some host) : ¬ KeepsAuthority location host port := by
  intro ⟨uri, huri, _, hhost, _⟩
  rw [huri] at h
  exact h (by rw [Option.map_some, hhost])

/-- The redirect leads to another host, or nowhere. -/
theorem redirect_to_another_host :
    ((acceptRequest httpsConfig userInfoRequest).ok = true ∧
      HostField (hostOf httpsConfig userInfoRequest) (bytes "a") ∧
      ∃ location,
        locationOf (makeResponse quietEnv httpsConfig userInfoRequest false [] [] freshWorld) =
          some location ∧
        (Uri.parse location).map (·.host) = some (bytes "evil.example") ∧
        ¬ KeepsAuthority location (redirectHost (bytes "a")) (httpsPort httpsConfig)) ∧
    ((acceptRequest httpsConfig loopbackRequest).ok = true ∧
      HostField (hostOf httpsConfig loopbackRequest) (bytes "[::1]") ∧
      ∃ location,
        locationOf (makeResponse quietEnv httpsConfig loopbackRequest false [] [] freshWorld) =
          some location ∧
        Uri.parse location = none ∧
        ¬ KeepsAuthority location (redirectHost (bytes "[::1]")) (httpsPort httpsConfig)) := by
  have hevil : (Uri.parse (bytes "https://a@evil.example/")).map (·.host) =
      some (bytes "evil.example") := by decide +kernel
  have hnone : Uri.parse (bytes "https://[/") = none := by decide +kernel
  refine ⟨⟨by decide +kernel, ?_, bytes "https://a@evil.example/", by decide +kernel, hevil,
    not_keepsAuthority ?_⟩, by decide +kernel, ?_, bytes "https://[/", by decide +kernel, hnone,
    not_keepsAuthority ?_⟩
  · rw [show hostOf httpsConfig userInfoRequest = bytes "a" by decide +kernel]
    exact hostField_a
  · rw [hevil]
    decide +kernel
  · rw [show hostOf httpsConfig loopbackRequest = bytes "[::1]" by decide +kernel]
    exact hostField_loopback
  · rw [hnone]
    simp

theorem redirect_keeps_authority_plainRequest :
    KeepsAuthority (bytes "https://a/a.txt") (redirectHost (bytes "a"))
        (httpsPort httpsConfig) ↔
      KeptBy (bytes "a") (httpsPort httpsConfig)
        (acceptRequest httpsConfig plainRequest).request.target :=
  redirect_keeps_authority_iff quietEnv rfl plainRequest [] [] freshWorld (by decide +kernel)
    (show HostField (bytes "a") (bytes "a") from hostField_a) (by decide +kernel)

end HydrogenHttpd.Ref
