import HydrogenHttpd.Base.Lines
import HydrogenHttpd.Base.Numbers

/-!
# Hosts and authorities

RFC 3986, section 3. A URI is taken apart at its separators, as its appendix B
does: the scheme up to the first colon, the authority behind two slashes and up
to the next slash, question mark or number sign. The authority is taken apart
once more (section 3.2): what is in front of an `@` is the user information, a
host in brackets goes up to the closing one and any other up to a colon, and
behind the host there is a port or nothing.

The hosts are those of section 3.2.2: a registered name, an IPv4 address, or an
IPv6 address in brackets.
-/

namespace HydrogenHttpd.Spec

open Base

/-! ## Taking a URI apart -/

/-- The bytes an authority ends at. -/
def endsAuthority (c : UInt8) : Bool := c == 47 || c == 63 || c == 35

structure Uri where
  scheme : Bytes
  host : Bytes
  port : Option Nat
  deriving DecidableEq, Repr

/-- What stands behind a host: nothing, or a colon and the digits of a port, of
which there may be none. -/
def readPort : Bytes → Option (Option Nat)
  | [] => some none
  | c :: digits =>
      if c = 58 ∧ digits.all isDigit then
        some (if digits = [] then none else some (digitsValue digits))
      else none

/-- A host, and what stands behind it. -/
def splitHost (text : Bytes) : Option (Bytes × Bytes) :=
  if text.head? = some 91 then
    if 93 ∈ text then
      some (text.takeWhile (· ≠ 93) ++ [93], (text.dropWhile (· ≠ 93)).drop 1)
    else none
  else some (text.takeWhile (· ≠ 58), text.dropWhile (· ≠ 58))

def readAuthority (text : Bytes) : Option (Bytes × Option Nat) :=
  match splitHost (text.rtakeWhile (· ≠ 64)) with
  | none => none
  | some (host, behind) => (readPort behind).map fun port => (host, port)

def Uri.parse (text : Bytes) : Option Uri :=
  let scheme := text.takeWhile fun c => c ≠ 58 && !endsAuthority c
  match text.drop scheme.length with
  | 58 :: 47 :: 47 :: rest =>
      (readAuthority (rest.takeWhile fun c => !endsAuthority c)).map fun (host, port) =>
        { scheme := scheme, host := host, port := port }
  | _ => none

/-! ## Hosts -/

def isUnreserved (c : UInt8) : Bool := isAlnum c || (bytes "-._~").contains c

def isSubDelim (c : UInt8) : Bool := (bytes "!$&'()*+,;=").contains c

inductive RegisteredName : Bytes → Prop
  | nil : RegisteredName []
  | char {c : UInt8} {s : Bytes} (hc : isUnreserved c = true ∨ isSubDelim c = true)
      (hs : RegisteredName s) : RegisteredName (c :: s)
  | escape {a b : UInt8} {s : Bytes} (ha : isXDigit a = true) (hb : isXDigit b = true)
      (hs : RegisteredName s) : RegisteredName (37 :: a :: b :: s)

def IPv4Address (text : Bytes) : Prop :=
  ∃ octets : List Nat, octets.length = 4 ∧ (∀ n ∈ octets, n < 256) ∧
    text = [dot].intercalate (octets.map decimal)

/-- Up to four hexadecimal digits. -/
def IsGroup (text : Bytes) : Prop :=
  text ≠ [] ∧ text.length ≤ 4 ∧ ∀ c ∈ text, isXDigit c = true

/-- Groups, and how many they count for. The last one may be an IPv4 address,
which counts for two. -/
inductive Groups : List Bytes → Nat → Prop
  | nil : Groups [] 0
  | group {g : Bytes} {gs : List Bytes} {n : Nat} (hg : IsGroup g) (hgs : Groups gs n) :
      Groups (g :: gs) (n + 1)
  | ipv4 {a : Bytes} (ha : IPv4Address a) : Groups [a] 2

/-- Eight groups, or fewer with `::` in the place of those that are missing. -/
def IPv6Address (text : Bytes) : Prop :=
  (∃ gs, Groups gs 8 ∧ text = [58].intercalate gs) ∨
    ∃ front back n, (∀ g ∈ front, IsGroup g) ∧ Groups back n ∧ front.length + n ≤ 7 ∧
      text = [58].intercalate front ++ [58, 58] ++ [58].intercalate back

inductive Host : Bytes → Prop
  | name {s : Bytes} (h : RegisteredName s) : Host s
  | ipv4 {s : Bytes} (h : IPv4Address s) : Host s
  | ipv6 {s : Bytes} (h : IPv6Address s) : Host (91 :: s ++ [93])

/-- The text of a Host field: a host, and a port or nothing. -/
def HostField (field host : Bytes) : Prop :=
  Host host ∧ (field = host ∨ ∃ digits, (∀ c ∈ digits, isDigit c = true) ∧
    field = host ++ 58 :: digits)

/-- A byte of a registered name or an IPv4 address. -/
def isNameByte (c : UInt8) : Bool := isUnreserved c || isSubDelim c || c == 37

/-- A byte of an IPv6 address. -/
def isLiteralByte (c : UInt8) : Bool := isXDigit c || c == 58 || c == dot

theorem RegisteredName.bytes {s : Bytes} (h : RegisteredName s) :
    ∀ c ∈ s, isNameByte c = true := by
  have hdigit : ∀ c, isXDigit c = true → isNameByte c = true := by decide +kernel
  induction h with
  | nil => simp
  | char hc _ ih =>
      refine List.forall_mem_cons.mpr ⟨?_, ih⟩
      rcases hc with hc | hc <;> simp [isNameByte, hc]
  | escape ha hb _ ih =>
      exact List.forall_mem_cons.mpr ⟨by decide, List.forall_mem_cons.mpr
        ⟨hdigit _ ha, List.forall_mem_cons.mpr ⟨hdigit _ hb, ih⟩⟩⟩

theorem registeredName_of_plain {s : Bytes}
    (h : ∀ c ∈ s, isUnreserved c = true ∨ isSubDelim c = true) : RegisteredName s := by
  induction s with
  | nil => exact .nil
  | cons c s ih =>
      exact .char (h c List.mem_cons_self) (ih fun d hd => h d (List.mem_cons_of_mem _ hd))

theorem IPv4Address.bytes {s : Bytes} (h : IPv4Address s) :
    ∀ c ∈ s, isDigit c = true ∨ c = dot := by
  obtain ⟨octets, -, -, rfl⟩ := h
  intro c hc
  rcases mem_intercalate hc with hdot | ⟨l, hl, hc⟩
  · exact Or.inr (List.mem_singleton.mp hdot)
  · obtain ⟨n, -, rfl⟩ := List.mem_map.mp hl
    exact Or.inl (isDigit_of_mem_decimal hc)

theorem Groups.bytes {gs : List Bytes} {n : Nat} (h : Groups gs n) :
    ∀ g ∈ gs, ∀ c ∈ g, isLiteralByte c = true := by
  have hdigit : ∀ c, isDigit c = true → isLiteralByte c = true := by decide +kernel
  induction h with
  | nil => simp
  | group hg _ ih =>
      refine List.forall_mem_cons.mpr ⟨fun c hc => ?_, ih⟩
      simp [isLiteralByte, hg.2.2 c hc]
  | ipv4 ha =>
      intro g hg c hc
      rw [List.mem_singleton.mp hg] at hc
      rcases ha.bytes c hc with h | rfl
      · exact hdigit c h
      · decide

theorem IPv6Address.bytes {s : Bytes} (h : IPv6Address s) :
    (∀ c ∈ s, isLiteralByte c = true) ∧ 58 ∈ s := by
  have hjoined : ∀ {gs : List Bytes}, (∀ g ∈ gs, ∀ c ∈ g, isLiteralByte c = true) →
      ∀ c ∈ ([58] : Bytes).intercalate gs, isLiteralByte c = true := by
    intro gs hgs c hc
    rcases mem_intercalate hc with hcolon | ⟨g, hg, hc⟩
    · rw [List.mem_singleton.mp hcolon]
      decide
    · exact hgs g hg c hc
  rcases h with ⟨gs, hgs, rfl⟩ | ⟨front, back, n, hfront, hback, -, rfl⟩
  · refine ⟨hjoined hgs.bytes, ?_⟩
    -- eight groups are more than one element
    cases hgs with
    | group _ hrest =>
        cases hrest with
        | group => simp [List.intercalate_cons_cons]
  · refine ⟨fun c hc => ?_, by simp⟩
    rcases List.mem_append.mp hc with hc | hc
    · rcases List.mem_append.mp hc with hc | hc
      · exact hjoined (fun g hg c hc => by simp [isLiteralByte, (hfront g hg).2.2 c hc]) c hc
      · have hcolon : c = 58 := by simpa using hc
        rw [hcolon]
        decide
    · exact hjoined hback.bytes c hc

/-! ## Reading a host back -/

/-- A host that ends where the port behind it begins. -/
def Delimited (host : Bytes) : Prop :=
  64 ∉ host ∧
    ((host.head? ≠ some 91 ∧ 58 ∉ host) ∨ ∃ x, host = 91 :: x ++ [93] ∧ 93 ∉ x)

theorem Host.form {host : Bytes} (h : Host host) :
    (∀ c ∈ host, isNameByte c = true) ∨
      ∃ s, host = 91 :: s ++ [93] ∧ (∀ c ∈ s, isLiteralByte c = true) ∧ 58 ∈ s := by
  have hdigit : ∀ c, isDigit c = true → isNameByte c = true := by decide +kernel
  cases h with
  | name h => exact Or.inl h.bytes
  | ipv4 h =>
      refine Or.inl fun c hc => ?_
      rcases h.bytes c hc with hc | rfl
      · exact hdigit c hc
      · decide
  | ipv6 h => exact Or.inr ⟨_, rfl, h.bytes⟩

/-! ## The separators of an authority -/

theorem not_mem_readPort {s : Bytes} {port : Option Nat} (h : readPort s = some port) :
    64 ∉ s ∧ (s = [] ∨ s.head? = some 58) := by
  cases s with
  | nil => simp
  | cons c digits =>
      rw [readPort] at h
      split at h
      · next hport =>
          obtain ⟨rfl, hdigits⟩ := hport
          refine ⟨fun hat => ?_, Or.inr rfl⟩
          rcases List.mem_cons.mp hat with hat | hat
          · cases hat
          · exact absurd (List.all_eq_true.mp hdigits 64 hat) (by decide)
      · cases h

theorem splitHost_iff {host text : Bytes} {port : Option Nat} (hhost : Delimited host) :
    (∃ s, splitHost text = some (host, s) ∧ readPort s = some port) ↔
      ∃ s, text = host ++ s ∧ readPort s = some port := by
  obtain ⟨-, ⟨hopen, hcolon⟩ | ⟨x, rfl, hclosed⟩⟩ := hhost
  · constructor
    · rintro ⟨s, hsplit, hs⟩
      rw [splitHost] at hsplit
      split at hsplit
      · next hbracket =>
          -- a host read out of brackets begins with one
          split at hsplit
          · cases text with
            | nil => cases hbracket
            | cons c cs =>
                obtain rfl : c = 91 := by simpa using hbracket
                simp only [Option.some.injEq, Prod.mk.injEq] at hsplit
                refine absurd ?_ hopen
                rw [← hsplit.1]
                simp
          · cases hsplit
      · simp only [Option.some.injEq, Prod.mk.injEq] at hsplit
        obtain ⟨rfl, rfl⟩ := hsplit
        exact ⟨_, List.takeWhile_append_dropWhile.symm, hs⟩
    · rintro ⟨s, rfl, hs⟩
      have hbehind := (not_mem_readPort hs).2
      have hbracket : (host ++ s).head? ≠ some 91 := by
        cases host with
        | nil => rcases hbehind with rfl | h <;> simp [*]
        | cons c cs => exact hopen
      refine ⟨s, ?_, hs⟩
      obtain ⟨htake, hdrop⟩ := span_ne hcolon hbehind
      rw [splitHost, if_neg hbracket, htake, hdrop]
  · constructor
    · rintro ⟨s, hsplit, hs⟩
      rw [splitHost] at hsplit
      split at hsplit
      · split at hsplit
        · next hmem =>
            simp only [Option.some.injEq, Prod.mk.injEq] at hsplit
            obtain ⟨hhost, rfl⟩ := hsplit
            refine ⟨_, ?_, hs⟩
            rw [← hhost, List.append_assoc]
            exact eq_span_of_mem hmem
        · cases hsplit
      · next hbracket =>
          simp only [Option.some.injEq, Prod.mk.injEq] at hsplit
          refine absurd ?_ hbracket
          rw [← List.takeWhile_append_dropWhile (p := (· ≠ 58)) (l := text), hsplit.1]
          rfl
    · rintro ⟨s, rfl, hs⟩
      have hnot : (93 : UInt8) ∉ 91 :: x := by simpa using hclosed
      obtain ⟨htake, hdrop⟩ := span_ne (v := 93 :: s) hnot (Or.inr rfl)
      have htext : 91 :: x ++ [93] ++ s = 91 :: x ++ 93 :: s := by simp
      refine ⟨s, ?_, hs⟩
      rw [htext, splitHost, if_pos (by simp), if_pos (by simp), htake, hdrop]
      rfl

/-- The host of an authority is where the text begins or behind an `@`, and a
port or nothing follows it. -/
theorem readAuthority_eq_some_iff {host text : Bytes} {port : Option Nat}
    (hhost : Delimited host) :
    readAuthority text = some (host, port) ↔
      ∃ s, (text = host ++ s ∨ ∃ u, text = u ++ 64 :: (host ++ s)) ∧
        readPort s = some port := by
  have hread : readAuthority text = some (host, port) ↔
      ∃ s, splitHost (text.rtakeWhile (· ≠ 64)) = some (host, s) ∧ readPort s = some port := by
    rw [readAuthority]
    split
    · next h =>
        rw [h]
        simp
    · next found behind h =>
        rw [h]
        simp only [Option.map_eq_some_iff, Option.some.injEq, Prod.mk.injEq]
        constructor
        · rintro ⟨p, hp, rfl, rfl⟩
          exact ⟨behind, ⟨rfl, rfl⟩, hp⟩
        · rintro ⟨s, ⟨rfl, rfl⟩, hs⟩
          exact ⟨port, hs, rfl, rfl⟩
  rw [hread, splitHost_iff hhost]
  refine exists_congr fun s => and_congr_left fun hs => ?_
  rw [rtakeWhile_ne_eq_iff, and_iff_right]
  simp [hhost.1, (not_mem_readPort hs).1]

theorem Uri.parse_https (rest : Bytes) :
    Uri.parse (bytes "https://" ++ rest) =
      (readAuthority (rest.takeWhile fun c => !endsAuthority c)).map fun (host, port) =>
        { scheme := bytes "https", host := host, port := port } := by
  have htext : bytes "https://" ++ rest = bytes "https" ++ 58 :: 47 :: 47 :: rest := rfl
  have hscheme : (bytes "https://" ++ rest).takeWhile
      (fun c => c ≠ 58 && !endsAuthority c) = bytes "https" := by
    rw [htext, List.takeWhile_append_of_pos (by decide +kernel),
      List.takeWhile_cons_of_neg (by simp), List.append_nil]
  rw [Uri.parse, hscheme]
  simp only []
  rw [htext, List.drop_left]
  rfl

end HydrogenHttpd.Spec
