import HydrogenHttpd.Spec.Percent
import HydrogenHttpd.Ref.Security

/-!
# `urlDecode` against RFC 3986

The two characters behind a percent sign are handed to `std::strtol`, which
passes over white space and a sign before it reads digits. A pair of digits is
therefore read as the RFC reads it, and besides these `urlDecode` takes for an
escape every pair of such a leading character and one digit: `%+5` becomes the
byte 5. As no escape of either kind has a percent sign behind its first
character, the reading stops at the same percent signs as the RFC's, and the
two decodings part exactly on the texts with a pair of that kind.
-/

namespace HydrogenHttpd.Ref.security

open Base Spec

/-! ## Pairs of characters -/

/-- The characters `std::strtol` passes over in front of the digits. -/
def leads (c : UInt8) : Bool := isSpace c || c == 43 || c == 45

/-- A pair the RFC leaves alone and `urlDecode` reads as a number. -/
def Misread (a b : UInt8) : Prop := leads a = true ∧ isXDigit b = true

theorem hexDigit?_eq (c : UInt8) :
    hexDigit? c = if isXDigit c then some (hexValue c) else none := by
  simp only [hexDigit?, isXDigit, hexValue, isDigit, isUpper, UInt8.le_iff_toNat_le,
    UInt8.reduceToNat, Bool.or_eq_true, Bool.and_eq_true, decide_eq_true_eq]
  grind

theorem not_leads_of_xdigit {c : UInt8} (h : isXDigit c = true) : leads c = false ∧ c ≠ 37 := by
  simp only [leads, isSpace, isXDigit, isDigit, UInt8.le_iff_toNat_le,
    UInt8.reduceToNat, Bool.or_eq_true, Bool.and_eq_true, decide_eq_true_eq, Bool.or_eq_false_iff,
    Bool.and_eq_false_iff, beq_eq_false_iff_ne, decide_eq_false_iff_not, ne_eq,
    ← UInt8.toNat_inj] at h ⊢
  omega

theorem escaped?_eq (a b : UInt8) :
    escaped? a b =
      if isXDigit a ∧ isXDigit b then some (UInt8.ofNat (16 * hexValue a + hexValue b))
      else none := by
  rw [escaped?, hexDigit?_eq, hexDigit?_eq]
  by_cases ha : isXDigit a = true <;> by_cases hb : isXDigit b = true <;> simp [ha, hb]

section
variable {a b : UInt8} (ha0 : a ≠ 0) (hb0 : b ≠ 0)
include ha0 hb0

theorem decodeEscape_digits (ha : isXDigit a = true) (hb : isXDigit b = true) :
    decodeEscape a b = escaped? a b := by
  obtain ⟨hlead, -⟩ := not_leads_of_xdigit ha
  simp only [leads, Bool.or_eq_false_iff, beq_eq_false_iff_ne] at hlead
  have hvalue : ((hexValue a * 16 + hexValue b : Int) % 256).toNat =
      (16 * hexValue a + hexValue b) % 256 := by omega
  have hbyte : UInt8.ofNat ((16 * hexValue a + hexValue b) % 256) =
      UInt8.ofNat (16 * hexValue a + hexValue b) := by
    rw [← UInt8.toNat_inj, UInt8.toNat_ofNat', UInt8.toNat_ofNat', Nat.mod_mod]
  rw [escaped?_eq, if_pos ⟨ha, hb⟩, ← hbyte, ← hvalue]
  simp [decodeEscape, strtol16, ha, ha0, hb, hb0, hlead, bytes]

/-- White space or a sign in front of a digit: the number is the digit's. -/
theorem decodeEscape_misread (h : Misread a b) : ∃ decoded, decodeEscape a b = some decoded := by
  obtain ⟨ha, hb⟩ := h
  obtain ⟨hlead, -⟩ := not_leads_of_xdigit hb
  simp only [leads, Bool.or_eq_false_iff, beq_eq_false_iff_ne] at hlead
  simp only [leads, Bool.or_eq_true, beq_iff_eq] at ha
  have hplus : isSpace 43 = false := by decide
  have hminus : isSpace 45 = false := by decide
  rcases ha with (ha | rfl) | rfl
  · simp [decodeEscape, strtol16, ha, ha0, hb, hb0, hlead, bytes]
  · simp [decodeEscape, strtol16, hb, hb0, bytes, hplus]
  · simp [decodeEscape, strtol16, hb, hb0, bytes, hminus]

/-- Any other pair leaves a character behind the number, or has no number. -/
theorem decodeEscape_other (h : ¬ (isXDigit a = true ∧ isXDigit b = true)) (hmis : ¬ Misread a b) :
    decodeEscape a b = none := by
  by_cases ha : leads a = true
  · have hb : isXDigit b = false := by simpa [Misread, ha] using hmis
    have hax : isXDigit a = false := by
      by_contra hax
      simp [(not_leads_of_xdigit (by simpa using hax)).1] at ha
    simp only [leads, Bool.or_eq_true, beq_iff_eq] at ha
    have hplus : isSpace 43 = false := by decide
    have hminus : isSpace 45 = false := by decide
    rcases ha with (ha | rfl) | rfl
    · by_cases hsp : isSpace b = true
      · simp [decodeEscape, strtol16, ha, ha0, hb0, hsp, bytes]
      · by_cases hsign : b = 45 ∨ b = 43
        · rcases hsign with rfl | rfl <;> simp [decodeEscape, strtol16, ha, ha0, hsp, bytes]
        · simp [decodeEscape, strtol16, ha, ha0, hb, hb0, hsp, hsign, bytes]
    · simp [decodeEscape, strtol16, hb, hb0, bytes, hplus]
    · simp [decodeEscape, strtol16, hb, hb0, bytes, hminus]
  · simp only [leads, Bool.or_eq_true, beq_iff_eq, not_or, Bool.not_eq_true] at ha
    by_cases hax : isXDigit a = true
    · have hb : isXDigit b = false := by simpa [hax] using h
      simp [decodeEscape, strtol16, ha, ha0, hb, hb0, hax, bytes]
    · simp [decodeEscape, strtol16, ha, ha0, hax, hb0, bytes]

/-- `urlDecode` takes the RFC's escapes for what they are, and the misread
pairs besides. -/
theorem decodeEscape_of_not_misread (h : ¬ Misread a b) : decodeEscape a b = escaped? a b := by
  by_cases hdigits : isXDigit a = true ∧ isXDigit b = true
  · exact decodeEscape_digits ha0 hb0 hdigits.1 hdigits.2
  · rw [decodeEscape_other ha0 hb0 hdigits h, escaped?_eq, if_neg hdigits]

end

/-! ## Texts -/

/-- Somewhere in the text a percent sign stands in front of a pair that is
misread. -/
def HasMisread (s : Bytes) : Prop := ∃ a b, [37, a, b] <:+: s ∧ Misread a b

theorem urlDecode_plain {c : UInt8} (hc : c ≠ 37) (rest : Bytes) :
    urlDecode (c :: rest) = c :: urlDecode rest := by
  match rest with
  | [] | [_] => rw [urlDecode.eq_def]; simp [urlDecode.eq_def]
  | a :: b :: rest => rw [urlDecode.eq_def]; simp only [if_neg hc]

theorem urlDecode_some {a b decoded : UInt8} (h : decodeEscape a b = some decoded) (rest : Bytes) :
    urlDecode (37 :: a :: b :: rest) = decoded :: urlDecode rest := by
  rw [urlDecode.eq_def]
  simp only [if_pos, h]

theorem urlDecode_none {a b : UInt8} (h : decodeEscape a b = none) (rest : Bytes) :
    urlDecode (37 :: a :: b :: rest) = 37 :: urlDecode (a :: b :: rest) := by
  rw [urlDecode.eq_def]
  simp only [if_pos, h]

theorem hasMisread_cons {c : UInt8} {s : Bytes} (hc : c ≠ 37) :
    HasMisread (c :: s) ↔ HasMisread s := by
  simp only [HasMisread, List.infix_cons_iff, List.cons_prefix_cons]
  constructor
  · rintro ⟨a, b, ⟨hh, -⟩ | h, hm⟩
    · exact absurd hh.symm hc
    · exact ⟨a, b, h, hm⟩
  · rintro ⟨a, b, h, hm⟩
    exact ⟨a, b, .inr h, hm⟩

theorem hasMisread_percent {a b : UInt8} {s : Bytes} :
    HasMisread (37 :: a :: b :: s) ↔ Misread a b ∨ HasMisread (a :: b :: s) := by
  simp only [HasMisread, List.infix_cons_iff, List.cons_prefix_cons]
  constructor
  · rintro ⟨x, y, ⟨-, rfl, rfl, -⟩ | h, hm⟩
    · exact .inl hm
    · exact .inr ⟨x, y, h, hm⟩
  · rintro (hm | ⟨x, y, h, hm⟩)
    · exact ⟨a, b, .inl ⟨trivial, rfl, rfl, List.nil_prefix⟩, hm⟩
    · exact ⟨x, y, .inr h, hm⟩

theorem not_hasMisread_short {s : Bytes} (h : s.length < 3) : ¬ HasMisread s := by
  rintro ⟨a, b, hin, -⟩
  have := hin.length_le
  simp at this
  omega

/-- Behind a decoded pair both decodings go on in the same place: neither
character of the pair is a percent sign. -/
theorem percentDecode_misread {a b : UInt8} (h : Misread a b) (rest : Bytes) :
    percentDecode (37 :: a :: b :: rest) = 37 :: a :: b :: percentDecode rest := by
  obtain ⟨ha, hb⟩ := h
  have hax : ¬ (isXDigit a = true ∧ isXDigit b = true) := fun hx => by
    simp [(not_leads_of_xdigit hx.1).1] at ha
  have ha37 : a ≠ 37 := by rintro rfl; exact absurd ha (by decide)
  rw [percentDecode_stray (by rw [escaped?_eq, if_neg hax]), percentDecode_plain ha37,
    percentDecode_plain (not_leads_of_xdigit hb).2]

/-- The two decodings agree on a text without misread pairs, and on any other
`urlDecode` answers fewer bytes. -/
theorem urlDecode_cases {s : Bytes} (h0 : (0 : UInt8) ∉ s) :
    (¬ HasMisread s → urlDecode s = percentDecode s) ∧
      (urlDecode s).length ≤ (percentDecode s).length ∧
      (HasMisread s → (urlDecode s).length < (percentDecode s).length) := by
  induction s using urlDecode.induct with
  | case1 a b rest decoded hd ih =>
      simp only [List.mem_cons, not_or] at h0
      obtain ⟨-, ha0, hb0, h0⟩ := h0
      obtain ⟨heq, hle, hlt⟩ := ih h0
      rw [urlDecode_some hd]
      by_cases hm : Misread a b
      · have hhas : HasMisread (37 :: a :: b :: rest) := hasMisread_percent.mpr (.inl hm)
        rw [percentDecode_misread hm]
        refine ⟨fun hno => absurd hhas hno, ?_, fun _ => ?_⟩ <;>
          simp only [List.length_cons] <;> omega
      · rw [decodeEscape_of_not_misread (Ne.symm ha0) (Ne.symm hb0) hm] at hd
        have hdigits : isXDigit a = true ∧ isXDigit b = true := by
          by_contra hno
          rw [escaped?_eq, if_neg hno] at hd
          cases hd
        have hiff : HasMisread (37 :: a :: b :: rest) ↔ HasMisread rest := by
          rw [hasMisread_percent, hasMisread_cons (not_leads_of_xdigit hdigits.1).2,
            hasMisread_cons (not_leads_of_xdigit hdigits.2).2]
          simp [hm]
        rw [percentDecode_escape hd, hiff]
        refine ⟨fun hno => by rw [heq hno], ?_, fun hhas => ?_⟩
        · simpa using hle
        · simpa using hlt hhas
  | case2 a b rest hd ih =>
      simp only [List.mem_cons, not_or] at h0 ih
      obtain ⟨-, ha0, hb0, h0⟩ := h0
      obtain ⟨heq, hle, hlt⟩ := ih ⟨ha0, hb0, h0⟩
      have hm : ¬ Misread a b := fun hm => by
        obtain ⟨decoded, hd'⟩ := decodeEscape_misread (Ne.symm ha0) (Ne.symm hb0) hm
        rw [hd] at hd'
        cases hd'
      have hstray : escaped? a b = none := by
        rw [← decodeEscape_of_not_misread (Ne.symm ha0) (Ne.symm hb0) hm, hd]
      rw [urlDecode_none hd, percentDecode_stray hstray, hasMisread_percent, or_iff_right hm]
      refine ⟨fun hno => by rw [heq hno], ?_, fun hhas => ?_⟩
      · simpa using hle
      · simpa using hlt hhas
  | case3 c a b rest hc ih =>
      obtain ⟨heq, hle, hlt⟩ := ih fun hin => h0 (List.mem_cons_of_mem _ hin)
      rw [urlDecode_plain hc, percentDecode_plain hc, hasMisread_cons hc]
      refine ⟨fun hno => by rw [heq hno], ?_, fun hhas => ?_⟩
      · simpa using hle
      · simpa using hlt hhas
  | case4 short hshort =>
      have hlen : short.length < 3 := by
        rcases short with _ | ⟨c, _ | ⟨a, _ | ⟨b, rest⟩⟩⟩
        · simp
        · simp
        · simp
        · exact (hshort c a b rest rfl).elim
      have hsame : urlDecode short = percentDecode short := by
        rw [urlDecode.eq_def, percentDecode.eq_def]
        rcases short with _ | ⟨c, _ | ⟨a, _ | ⟨b, rest⟩⟩⟩
        · rfl
        · rfl
        · rfl
        · exact (hshort c a b rest rfl).elim
      rw [hsame]
      exact ⟨fun _ => rfl, le_rfl, fun hhas => absurd hhas (not_hasMisread_short hlen)⟩

/-- An encoding is decoded to the string it encodes, whatever bytes it leaves
alone: behind its percent signs stand digits only. -/
theorem urlDecode_of_encodes {s t : Bytes} (h : Encodes s t) : urlDecode t = s := by
  induction h with
  | nil => rw [urlDecode.eq_def]
  | plain hc _ ih => rw [urlDecode_plain hc, ih]
  | @escape c a b s t h _ ih =>
      have hdigits : isXDigit a = true ∧ isXDigit b = true := by
        by_contra hno
        rw [escaped?_eq, if_neg hno] at h
        cases h
      have ha0 : a ≠ 0 := by rintro rfl; exact absurd hdigits.1 (by decide)
      have hb0 : b ≠ 0 := by rintro rfl; exact absurd hdigits.2 (by decide)
      rw [urlDecode_some ((decodeEscape_digits ha0 hb0 hdigits.1 hdigits.2).trans h), ih]

/-! ## The main result -/

/-- On a string without NUL `urlDecode` is the decoding of RFC 3986 exactly
when no percent sign in it stands in front of white space or a sign and then a
digit. Encodings have no such percent sign, and are decoded to what they
encode. -/
theorem urlDecode_percentDecode_iff (s : Bytes) :
    ((0 : UInt8) ∉ s →
      (urlDecode s = percentDecode s ↔
        ¬ ∃ a b, [37, a, b] <:+: s ∧
          (isSpace a = true ∨ a = 43 ∨ a = 45) ∧ isXDigit b = true)) ∧
      (∀ t, Encodes s t → urlDecode t = s) ∧
      ∀ keep : UInt8 → Bool, keep 37 = false → urlDecode (percentEncode keep s) = s := by
  refine ⟨fun h0 => ?_, fun t h => urlDecode_of_encodes h,
    fun keep hkeep => urlDecode_of_encodes (encodes_percentEncode hkeep s)⟩
  obtain ⟨heq, -, hlt⟩ := urlDecode_cases h0
  have hiff : HasMisread s ↔ ∃ a b, [37, a, b] <:+: s ∧
      (isSpace a = true ∨ a = 43 ∨ a = 45) ∧ isXDigit b = true := by
    simp [HasMisread, Misread, leads, or_assoc]
  rw [← hiff]
  refine ⟨fun hsame hhas => ?_, heq⟩
  have := hlt hhas
  rw [hsame] at this
  exact lt_irrefl _ this

/-- `%41` is an escape, and a text of two control characters is decoded from
its encoding. -/
theorem urlDecode_percentDecode_iff_letter :
    urlDecode (bytes "/a%41") = percentDecode (bytes "/a%41") ∧
      urlDecode [37, 48, 49, 37, 50, 53] = [1, 37] ∧
      urlDecode (percentEncode isAlnum [1, 37]) = [1, 37] := by
  have hno : ¬ ∃ a b, [37, a, b] <:+: bytes "/a%41" ∧
      (isSpace a = true ∨ a = 43 ∨ a = 45) ∧ isXDigit b = true := by
    rw [show bytes "/a%41" = [47, 97, 37, 52, 49] by decide]
    rintro ⟨a, b, hin, ha, -⟩
    simp [List.infix_cons_iff] at hin
    obtain ⟨rfl, rfl⟩ := hin
    exact absurd ha (by decide)
  exact ⟨((urlDecode_percentDecode_iff _).1 (by decide)).mpr hno,
    (urlDecode_percentDecode_iff _).2.1 _ (.escape (by decide) (.escape (by decide) .nil)),
    (urlDecode_percentDecode_iff [1, 37]).2.2 isAlnum (by decide)⟩

/-- `%+5` is no escape, and is decoded to the byte 5. -/
theorem urlDecode_sign :
    (0 : UInt8) ∉ bytes "/a%+5" ∧ percentDecode (bytes "/a%+5") = bytes "/a%+5" ∧
      urlDecode (bytes "/a%+5") = [47, 97, 5] ∧
      urlDecode (bytes "/a%+5") ≠ percentDecode (bytes "/a%+5") := by
  have hsign : decodeEscape 43 53 = some 5 := by decide
  have hvalue : urlDecode (bytes "/a%+5") = [47, 97, 5] := by
    rw [show bytes "/a%+5" = [47, 97, 37, 43, 53] by decide, urlDecode_plain (by decide),
      urlDecode_plain (by decide), urlDecode_some hsign]
    simp [urlDecode.eq_def]
  refine ⟨by decide, by decide, hvalue, ?_⟩
  rw [hvalue]
  decide

end HydrogenHttpd.Ref.security
