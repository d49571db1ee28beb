import HydrogenHttpd.Base.Numbers
import HydrogenHttpd.Base.Text
import HydrogenHttpd.Spec.Percent

/-!
# JSON texts

The grammar of JSON over byte strings, where a byte above 127 is an ordinary
character of a string. Every reading relation takes the text, the value and
what of the text is left behind it, so that the grammar reads from left to
right and nothing has to be split.

A string that holds no quote, no backslash and no control character is written
as it is. The converse is what makes texts written without escapes fail
(`Chars.raw_iff`): between quotes no other string stands for itself. Each escape
is longer than what it stands for, so a reader that has met one lags behind,
and a string that is to be read as it stands would have to reach past its own
closing quote.
-/

namespace HydrogenHttpd.Spec

open Base

inductive Json where
  | null
  | bool (b : Bool)
  | num (q : ℚ)
  | str (s : Bytes)
  | arr (vs : List Json)
  | obj (ms : List (Bytes × Json))

namespace Json

/-- The value of a member, if just one has the name. -/
def member (name : Bytes) : Json → Option Json
  | .obj ms =>
      match ms.filter (·.1 = name) with
      | [m] => some m.2
      | _ => none
  | _ => none

/-! ## The grammar -/

/-- White space. -/
def isWs (c : UInt8) : Bool := c == 32 || c == 9 || c == 10 || c == 13

def skipWs (t : Bytes) : Bytes := t.dropWhile isWs

/-- A structural character with the white space around it. -/
def Punct (c : UInt8) (t r : Bytes) : Prop := ∃ u, skipWs t = c :: u ∧ r = skipWs u

/-- A character that stands for itself in a string. -/
def Ordinary (c : UInt8) : Prop := 32 ≤ c ∧ c ≠ 34 ∧ c ≠ 92

instance (c : UInt8) : Decidable (Ordinary c) := inferInstanceAs (Decidable (_ ∧ _))

/-- The escapes of one character, and what they stand for. -/
def escapes : List (UInt8 × UInt8) :=
  [(34, 34), (92, 92), (47, 47), (98, 8), (102, 12), (110, 10), (114, 13), (116, 9)]

/-- The code unit of four hexadecimal digits. -/
def CodeUnit (ds : Bytes) (n : Nat) : Prop :=
  ds.length = 4 ∧ (∀ c ∈ ds, (hexDigit? c).isSome = true) ∧
    n = ds.foldl (fun n c => 16 * n + (hexDigit? c).getD 0) 0

/-- The characters of a string, from behind its opening quote past the closing one. -/
inductive Chars : Bytes → Bytes → Bytes → Prop
  | close {r : Bytes} : Chars (34 :: r) [] r
  | ordinary {c : UInt8} {t s r : Bytes} : Ordinary c → Chars t s r → Chars (c :: t) (c :: s) r
  | escape {e c : UInt8} {t s r : Bytes} : (e, c) ∈ escapes → Chars t s r →
      Chars (92 :: e :: t) (c :: s) r
  | unicode {ds t s r : Bytes} {n : Nat} : CodeUnit ds n → ¬ (0xD800 ≤ n ∧ n < 0xE000) →
      Chars t s r → Chars (92 :: 117 :: (ds ++ t)) (utf8 [Char.ofNat n] ++ s) r
  | pair {ds ds' t s r : Bytes} {n n' : Nat} : CodeUnit ds n → CodeUnit ds' n' →
      0xD800 ≤ n ∧ n < 0xDC00 → 0xDC00 ≤ n' ∧ n' < 0xE000 → Chars t s r →
      Chars (92 :: 117 :: (ds ++ 92 :: 117 :: (ds' ++ t)))
        (utf8 [Char.ofNat (0x10000 + (n - 0xD800) * 0x400 + (n' - 0xDC00))] ++ s) r

/-- One or more digits. -/
def Digits (t ds r : Bytes) : Prop := t = ds ++ r ∧ ds ≠ [] ∧ ∀ c ∈ ds, isDigit c = true

/-- A whole number without leading zeros. -/
def Whole (t : Bytes) (n : Nat) (r : Bytes) : Prop :=
  ∃ ds, Digits t ds r ∧ (ds.head? = some 48 → ds = [48]) ∧ n = digitsValue ds

def Fraction (t : Bytes) (q : ℚ) (r : Bytes) : Prop :=
  (t = r ∧ q = 0) ∨
    ∃ u ds, t = 46 :: u ∧ Digits u ds r ∧ q = (digitsValue ds : ℚ) / 10 ^ ds.length

def Exponent (t : Bytes) (z : ℤ) (r : Bytes) : Prop :=
  (t = r ∧ z = 0) ∨
    ∃ e u ds, (e = 69 ∨ e = 101) ∧ Digits u ds r ∧
      ((t = e :: u ∧ z = digitsValue ds) ∨ (t = e :: 43 :: u ∧ z = digitsValue ds) ∨
        (t = e :: 45 :: u ∧ z = -digitsValue ds))

inductive Number : Bytes → ℚ → Bytes → Prop
  | positive {t u u' r : Bytes} {n : Nat} {q : ℚ} {z : ℤ} : Whole t n u → Fraction u q u' →
      Exponent u' z r → Number t ((n + q) * 10 ^ z) r
  | negative {t u u' r : Bytes} {n : Nat} {q : ℚ} {z : ℤ} : Whole t n u → Fraction u q u' →
      Exponent u' z r → Number (45 :: t) (-((n + q) * 10 ^ z)) r

mutual

inductive Value : Bytes → Json → Bytes → Prop
  | litNull {r : Bytes} : Value (bytes "null" ++ r) .null r
  | litTrue {r : Bytes} : Value (bytes "true" ++ r) (.bool true) r
  | litFalse {r : Bytes} : Value (bytes "false" ++ r) (.bool false) r
  | num {t r : Bytes} {q : ℚ} : Number t q r → Value t (.num q) r
  | str {t s r : Bytes} : Chars t s r → Value (34 :: t) (.str s) r
  | arrNil {t u r : Bytes} : Punct 91 t u → Punct 93 u r → Value t (.arr []) r
  | arr {t u r : Bytes} {vs : List Json} : Punct 91 t u → Elements u vs r → Value t (.arr vs) r
  | objNil {t u r : Bytes} : Punct 123 t u → Punct 125 u r → Value t (.obj []) r
  | obj {t u r : Bytes} {ms : List (Bytes × Json)} : Punct 123 t u → Members u ms r →
      Value t (.obj ms) r

/-- The elements of an array, past its closing bracket. -/
inductive Elements : Bytes → List Json → Bytes → Prop
  | last {t u r : Bytes} {v : Json} : Value t v u → Punct 93 u r → Elements t [v] r
  | cons {t u u' r : Bytes} {v : Json} {vs : List Json} : Value t v u → Punct 44 u u' →
      Elements u' vs r → Elements t (v :: vs) r

/-- The members of an object, past its closing brace. -/
inductive Members : Bytes → List (Bytes × Json) → Bytes → Prop
  | last {t s u u' u'' r : Bytes} {v : Json} : Chars t s u → Punct 58 u u' → Value u' v u'' →
      Punct 125 u'' r → Members (34 :: t) [(s, v)] r
  | cons {t s u u' u'' u''' r : Bytes} {v : Json} {ms : List (Bytes × Json)} : Chars t s u →
      Punct 58 u u' → Value u' v u'' → Punct 44 u'' u''' → Members u''' ms r →
      Members (34 :: t) ((s, v) :: ms) r

end

/-- A whole text. -/
def Reads (t : Bytes) (v : Json) : Prop := ∃ r, Value (skipWs t) v r ∧ skipWs r = []

/-! ## Strings written as they are -/

/-- A string that can stand between quotes as it is. -/
def Plain (s : Bytes) : Prop := ∀ c ∈ s, Ordinary c

instance (s : Bytes) : Decidable (Plain s) := inferInstanceAs (Decidable (∀ c ∈ s, _))

theorem Chars.of_plain {s : Bytes} (h : Plain s) (r : Bytes) : Chars (s ++ 34 :: r) s r := by
  induction s with
  | nil => exact .close
  | cons c s ih =>
      exact .ordinary (h c List.mem_cons_self) (ih fun d hd => h d (List.mem_cons_of_mem _ hd))

/-- A plain string is read as it stands, and as nothing else. -/
theorem Chars.plain {s t s' r : Bytes} (hplain : Plain s) (h : Chars (s ++ 34 :: t) s' r) :
    s' = s ∧ r = t := by
  induction s generalizing s' with
  | nil =>
      rw [List.nil_append] at h
      cases h with
      | close => exact ⟨rfl, rfl⟩
      | ordinary hc _ => exact absurd rfl hc.2.1
  | cons c s ih =>
      have hc := hplain c List.mem_cons_self
      have hs : Plain s := fun d hd => hplain d (List.mem_cons_of_mem _ hd)
      rw [List.cons_append] at h
      generalize hu : s ++ 34 :: t = u at h
      cases h with
      | close => exact absurd rfl hc.2.1
      | ordinary _ h =>
          subst hu
          obtain ⟨rfl, rfl⟩ := ih hs h
          exact ⟨rfl, rfl⟩
      | escape _ _ => exact absurd rfl hc.2.2
      | unicode _ _ _ => exact absurd rfl hc.2.2
      | pair _ _ _ _ _ => exact absurd rfl hc.2.2

theorem utf8_single_length (c : Char) : (utf8 [c]).length ≤ 4 := by
  have hle := Char.utf8Size_le_four c
  simpa [utf8] using hle

theorem CodeUnit.no_quote {ds : Bytes} {n : Nat} (h : CodeUnit ds n) : 34 ∉ ds := by
  intro hmem
  exact absurd (h.2.1 34 hmem) (by decide)

/-- What was read and what was decoded from it leave the reader further behind. -/
theorem drop_lag {x y lag rest u : Bytes} (h : x ++ rest = lag ++ (y ++ u))
    (hlen : x.length < y.length) :
    ∃ lag', lag' ≠ [] ∧ rest = lag' ++ u ∧ lag ++ y = x ++ lag' := by
  rw [← List.append_assoc] at h
  obtain ⟨lag', hread, hrest⟩ | ⟨extra, hx, -⟩ := List.append_eq_append_iff.mp h
  · refine ⟨lag', ?_, hrest, hread⟩
    rintro rfl
    have := congrArg List.length hread
    simp at this
    omega
  · have := congrArg List.length hx
    simp at this
    omega

/-- The reader has read more than it has decoded by `lag`, which holds no
quote. If what it still decodes is what comes next, it has met no escape, and
meets none. -/
theorem Chars.lagging {u s r : Bytes} (h : Chars u s r) {lag t : Bytes}
    (hnext : s ++ 34 :: t = lag ++ u) (hlag : 34 ∉ lag) : lag = [] ∧ Plain s := by
  induction h generalizing lag with
  | close =>
      cases lag with
      | nil => exact ⟨rfl, by simp [Plain]⟩
      | cons c lag =>
          rw [List.nil_append, List.cons_append, List.cons.injEq] at hnext
          exact absurd (hnext.1 ▸ List.mem_cons_self) hlag
  | @ordinary c u s r hc _ ih =>
      cases lag with
      | nil =>
          obtain ⟨-, hs⟩ := @ih [] (by simpa using hnext) (by simp)
          exact ⟨rfl, List.forall_mem_cons.mpr ⟨hc, hs⟩⟩
      | cons d lag =>
          rw [List.cons_append, List.cons_append, List.cons.injEq] at hnext
          obtain ⟨hempty, -⟩ := @ih (lag ++ [c]) (by simpa using hnext.2)
            (by simpa [hc.2.1.symm] using fun h => hlag (List.mem_cons_of_mem _ h))
          simp at hempty
  | @escape e c u s r hmem _ ih =>
      obtain ⟨lag', hne, hrest, hread⟩ :=
        drop_lag (x := [c]) (y := [92, e]) hnext (by simp)
      refine absurd (ih hrest fun hquote => ?_).1 hne
      -- Only the escaped quote brings a quote in, and that is where it is decoded.
      have hin : 34 ∈ lag ++ [92, e] := hread ▸ List.mem_append_right _ hquote
      have he : e = 34 := by simpa [hlag, eq_comm] using hin
      have hc : c = 34 := by
        subst he
        simpa [escapes] using hmem
      cases lag with
      | nil =>
          rw [hc] at hread
          exact absurd hread (by simp)
      | cons d lag =>
          rw [List.cons_append, List.singleton_append, List.cons.injEq, hc] at hread
          exact hlag (hread.1 ▸ List.mem_cons_self)
  | @unicode ds u s r n hunit _ _ ih =>
      have hlen := utf8_single_length (Char.ofNat n)
      obtain ⟨lag', hne, hrest, hread⟩ :=
        drop_lag (y := 92 :: 117 :: ds) (by simpa using hnext) (by simp [hunit.1]; omega)
      refine absurd (ih hrest fun hquote => ?_).1 hne
      have hin : 34 ∈ lag ++ 92 :: 117 :: ds := hread ▸ List.mem_append_right _ hquote
      simp [hlag, hunit.no_quote] at hin
  | @pair ds ds' u s r n n' hunit hunit' _ _ _ ih =>
      generalize Char.ofNat (0x10000 + (n - 0xD800) * 0x400 + (n' - 0xDC00)) = code at hnext
      have hlen := utf8_single_length code
      obtain ⟨lag', hne, hrest, hread⟩ :=
        drop_lag (y := 92 :: 117 :: (ds ++ 92 :: 117 :: ds')) (by simpa using hnext)
          (by simp [hunit.1, hunit'.1]; omega)
      refine absurd (ih hrest fun hquote => ?_).1 hne
      have hin : 34 ∈ lag ++ 92 :: 117 :: (ds ++ 92 :: 117 :: ds') :=
        hread ▸ List.mem_append_right _ hquote
      simp [hlag, hunit.no_quote, hunit'.no_quote] at hin

/-- Between quotes, a string is read as itself exactly if it is plain. -/
theorem Chars.raw_iff {s t r : Bytes} : Chars (s ++ 34 :: t) s r ↔ Plain s ∧ r = t := by
  refine ⟨fun h => ?_, fun ⟨hs, hr⟩ => hr ▸ Chars.of_plain hs t⟩
  obtain ⟨-, hs⟩ : ([] : Bytes) = [] ∧ Plain s := h.lagging rfl (by simp)
  exact ⟨hs, (Chars.plain hs h).2⟩

/-! ## Reading a known text

One lemma for each way a value starts: what was read is what the first character says. -/

theorem skipWs_of_not_ws {c : UInt8} (h : isWs c = false) (t : Bytes) :
    skipWs (c :: t) = c :: t := by
  rw [skipWs, List.dropWhile_cons_of_neg (by simp [h])]

theorem punct_iff {c d : UInt8} (h : isWs d = false) {t r : Bytes} :
    Punct c (d :: t) r ↔ d = c ∧ r = skipWs t := by
  rw [Punct, skipWs_of_not_ws h]
  constructor
  · rintro ⟨u, hu, rfl⟩
    obtain ⟨rfl, rfl⟩ := List.cons.inj hu
    exact ⟨rfl, rfl⟩
  · rintro ⟨rfl, rfl⟩
    exact ⟨t, rfl, rfl⟩

theorem Digits.head {c : UInt8} {t ds r : Bytes} (h : Digits (c :: t) ds r) :
    isDigit c = true := by
  obtain ⟨htext, hne, hdigits⟩ := h
  cases ds with
  | nil => exact absurd rfl hne
  | cons d ds =>
      rw [List.cons_append, List.cons.injEq] at htext
      exact htext.1 ▸ hdigits d List.mem_cons_self

theorem Number.head {c : UInt8} {t r : Bytes} {q : ℚ} (h : Number (c :: t) q r) :
    isDigit c = true ∨ c = 45 := by
  cases h with
  | positive hwhole _ _ =>
      obtain ⟨ds, hds, -⟩ := hwhole
      exact Or.inl hds.head
  | negative _ _ _ => exact Or.inr rfl

/-- What a value is by its first character. -/
inductive Starts (c : UInt8) (t : Bytes) (v : Json) (r : Bytes) : Prop
  | literal (h : c :: t = bytes "null" ++ r ∧ v = .null ∨
      c :: t = bytes "true" ++ r ∧ v = .bool true ∨ c :: t = bytes "false" ++ r ∧ v = .bool false)
  | num {q : ℚ} (hv : v = .num q) (h : Number (c :: t) q r)
  | str {s : Bytes} (hc : c = 34) (hv : v = .str s) (h : Chars t s r)
  | arr {vs : List Json} (hc : c = 91) (hv : v = .arr vs)
      (h : vs = [] ∧ Punct 93 (skipWs t) r ∨ Elements (skipWs t) vs r)
  | obj {ms : List (Bytes × Json)} (hc : c = 123) (hv : v = .obj ms)
      (h : ms = [] ∧ Punct 125 (skipWs t) r ∨ Members (skipWs t) ms r)

theorem Value.starts {c : UInt8} {t r : Bytes} {v : Json} (h : Value (c :: t) v r)
    (hc : isWs c = false) : Starts c t v r := by
  generalize hu : c :: t = u at h
  cases h with
  | litNull => exact .literal (Or.inl ⟨hu, rfl⟩)
  | litTrue => exact .literal (Or.inr (Or.inl ⟨hu, rfl⟩))
  | litFalse => exact .literal (Or.inr (Or.inr ⟨hu, rfl⟩))
  | num h => exact .num rfl (hu ▸ h)
  | str h =>
      obtain ⟨rfl, rfl⟩ := List.cons.inj hu
      exact .str rfl rfl h
  | arrNil hopen hclose =>
      obtain ⟨rfl, rfl⟩ := (punct_iff hc).mp (hu ▸ hopen)
      exact .arr rfl rfl (Or.inl ⟨rfl, hclose⟩)
  | arr hopen h =>
      obtain ⟨rfl, rfl⟩ := (punct_iff hc).mp (hu ▸ hopen)
      exact .arr rfl rfl (Or.inr h)
  | objNil hopen hclose =>
      obtain ⟨rfl, rfl⟩ := (punct_iff hc).mp (hu ▸ hopen)
      exact .obj rfl rfl (Or.inl ⟨rfl, hclose⟩)
  | obj hopen h =>
      obtain ⟨rfl, rfl⟩ := (punct_iff hc).mp (hu ▸ hopen)
      exact .obj rfl rfl (Or.inr h)

theorem value_quote {t r : Bytes} {v : Json} (h : Value (34 :: t) v r) :
    ∃ s, v = .str s ∧ Chars t s r := by
  cases h.starts (by decide) with
  | literal h => simp [bytes] at h
  | num _ h => exact absurd h.head (by decide)
  | str _ hv h => exact ⟨_, hv, h⟩
  | arr hc _ _ | obj hc _ _ => cases hc

theorem value_true {t r : Bytes} {v : Json} (h : Value (bytes "true" ++ t) v r) :
    v = .bool true ∧ r = t := by
  cases Value.starts (show Value (116 :: (bytes "rue" ++ t)) v r from h) (by decide) with
  | literal h =>
      rcases h with ⟨h, -⟩ | ⟨h, hv⟩ | ⟨h, -⟩
      · simp [bytes] at h
      · have htext : bytes "true" ++ t = bytes "true" ++ r := h
        exact ⟨hv, (List.append_cancel_left htext).symm⟩
      · simp [bytes] at h
  | num _ h => exact absurd h.head (by decide)
  | str hc _ _ | arr hc _ _ | obj hc _ _ => cases hc

theorem isWs_of_isDigit {c : UInt8} (h : isDigit c = true) : isWs c = false := by
  have hspace := isSpace_of_isDigit h
  simp only [isSpace, isWs, Bool.or_eq_false_iff, beq_eq_false_iff_ne, Bool.and_eq_false_iff,
    decide_eq_false_iff_not] at hspace ⊢
  refine ⟨⟨⟨hspace.1, ?_⟩, ?_⟩, ?_⟩ <;> rintro rfl <;> simp at hspace

/-- The characters of numbers. -/
def isNumberByte (c : UInt8) : Bool :=
  isDigit c || c == 43 || c == 45 || c == 46 || c == 69 || c == 101

theorem Digits.consumes {t ds r : Bytes} (h : Digits t ds r) :
    t = ds ++ r ∧ ∀ c ∈ ds, isNumberByte c = true :=
  ⟨h.1, fun c hc => by simp [isNumberByte, h.2.2 c hc]⟩

theorem Number.consumes {t r : Bytes} {q : ℚ} (h : Number t q r) :
    ∃ s, t = s ++ r ∧ ∀ c ∈ s, isNumberByte c = true := by
  have hdigits : ∀ {t u u' r : Bytes} {n : Nat} {q : ℚ} {z : ℤ}, Whole t n u →
      Fraction u q u' → Exponent u' z r → ∃ s, t = s ++ r ∧ ∀ c ∈ s, isNumberByte c = true := by
    rintro t u u' r n q z ⟨ds, hds, -⟩ hfraction hexponent
    obtain ⟨rfl, hwhole⟩ := hds.consumes
    obtain ⟨fs, rfl, hfs⟩ : ∃ fs, u = fs ++ u' ∧ ∀ c ∈ fs, isNumberByte c = true := by
      rcases hfraction with ⟨rfl, -⟩ | ⟨u, fs, rfl, hfs, -⟩
      · exact ⟨[], rfl, by simp⟩
      · obtain ⟨rfl, hall⟩ := hfs.consumes
        exact ⟨46 :: fs, rfl, List.forall_mem_cons.mpr ⟨rfl, hall⟩⟩
    obtain ⟨es, rfl, hes⟩ : ∃ es, u' = es ++ r ∧ ∀ c ∈ es, isNumberByte c = true := by
      rcases hexponent with ⟨rfl, -⟩ | ⟨e, u, es, he, hes, htext⟩
      · exact ⟨[], rfl, by simp⟩
      · obtain ⟨rfl, hall⟩ := hes.consumes
        have he : isNumberByte e = true := by rcases he with rfl | rfl <;> rfl
        rcases htext with ⟨rfl, -⟩ | ⟨rfl, -⟩ | ⟨rfl, -⟩
        · exact ⟨e :: es, rfl, List.forall_mem_cons.mpr ⟨he, hall⟩⟩
        · exact ⟨e :: 43 :: es, rfl, List.forall_mem_cons.mpr
            ⟨he, List.forall_mem_cons.mpr ⟨rfl, hall⟩⟩⟩
        · exact ⟨e :: 45 :: es, rfl, List.forall_mem_cons.mpr
            ⟨he, List.forall_mem_cons.mpr ⟨rfl, hall⟩⟩⟩
    refine ⟨ds ++ (fs ++ es), by simp, fun c hc => ?_⟩
    rcases List.mem_append.mp hc with hc | hc
    · exact hwhole c hc
    · exact (List.mem_append.mp hc).elim (hfs c) (hes c)
  cases h with
  | positive hwhole hfraction hexponent => exact hdigits hwhole hfraction hexponent
  | negative hwhole hfraction hexponent =>
      obtain ⟨s, rfl, hs⟩ := hdigits hwhole hfraction hexponent
      exact ⟨45 :: s, rfl, List.forall_mem_cons.mpr ⟨rfl, hs⟩⟩

theorem number_decimal (n : Nat) (r : Bytes) : Number (decimal n ++ r) n r := by
  have hwhole : Whole (decimal n ++ r) n r := by
    refine ⟨decimal n, ⟨rfl, decimal_ne_nil n, fun c hc => isDigit_of_mem_decimal hc⟩, ?_,
      (digitsValue_decimal n).symm⟩
    intro hzero
    rcases Nat.eq_zero_or_pos n with rfl | hpos
    · decide
    · exact absurd hzero (decimal_head hpos)
  have hnumber := Number.positive hwhole (Or.inl ⟨rfl, rfl⟩) (Or.inl ⟨rfl, rfl⟩)
  simpa using hnumber

/-- A number in decimal ends where no character of a number follows. -/
theorem value_decimal {n : Nat} {c d : UInt8} {t r u : Bytes} {v : Json}
    (h : Value (decimal n ++ c :: t) v r) (hend : isNumberByte c = false) (hpunct : Punct d r u)
    (hd : isDigit d = false) : r = c :: t := by
  have hdigits : ∀ x ∈ decimal n, isDigit x = true := fun x hx => isDigit_of_mem_decimal hx
  have hnumber : ∃ q, Number (decimal n ++ c :: t) q r := by
    cases hn : decimal n with
    | nil => exact absurd hn (decimal_ne_nil n)
    | cons x xs =>
        rw [hn] at h hdigits
        have hx := hdigits x List.mem_cons_self
        have hother : ∀ y, isDigit y = false → x ≠ y := by
          rintro y hy rfl
          rw [hx] at hy
          cases hy
        cases Value.starts h (isWs_of_isDigit hx) with
        | literal h =>
            rcases h with ⟨h, -⟩ | ⟨h, -⟩ | ⟨h, -⟩
            · exact absurd (List.cons.inj h).1 (hother 110 (by decide))
            · exact absurd (List.cons.inj h).1 (hother 116 (by decide))
            · exact absurd (List.cons.inj h).1 (hother 102 (by decide))
        | num _ h => exact ⟨_, h⟩
        | str hc _ _ => exact absurd hc (hother _ (by decide))
        | arr hc _ _ => exact absurd hc (hother _ (by decide))
        | obj hc _ _ => exact absurd hc (hother _ (by decide))
  obtain ⟨q, hq⟩ := hnumber
  obtain ⟨s, htext, hs⟩ := hq.consumes
  obtain ⟨x, hx, hr⟩ | ⟨x, hx, hr⟩ := List.append_eq_append_iff.mp htext
  · -- It reads past the digits, so nothing.
    cases x with
    | nil => exact hr.symm
    | cons y x =>
        have hy := hs y (by simp [hx])
        rw [(List.cons.inj hr).1, hy] at hend
        cases hend
  · -- It stops among the digits, so not before the last one.
    cases x with
    | nil => exact hr
    | cons y x =>
        have hy := hdigits y (by simp [hx])
        rw [hr] at hpunct
        rw [((punct_iff (isWs_of_isDigit hy)).mp hpunct).1] at hy
        rw [hd] at hy
        cases hy

/-- An object that starts with a member. -/
theorem value_brace {t r : Bytes} {v : Json} (h : Value (123 :: 34 :: t) v r) :
    ∃ ms, v = .obj ms ∧ Members (34 :: t) ms r := by
  cases h.starts (by decide) with
  | literal h => simp [bytes] at h
  | num _ h => exact absurd h.head (by decide)
  | str hc _ _ | arr hc _ _ => cases hc
  | obj _ hv h =>
      rw [skipWs_of_not_ws (by decide)] at h
      rcases h with ⟨-, hclose⟩ | h
      · exact absurd ((punct_iff (by decide)).mp hclose).1 (by decide)
      · exact ⟨_, hv, h⟩

theorem value_bracket {t r : Bytes} {v : Json} (h : Value (91 :: t) v r) :
    ∃ vs, v = .arr vs ∧ (vs = [] ∧ Punct 93 (skipWs t) r ∨ Elements (skipWs t) vs r) := by
  cases h.starts (by decide) with
  | literal h => simp [bytes] at h
  | num _ h => exact absurd h.head (by decide)
  | str hc _ _ | obj hc _ _ => cases hc
  | arr _ hv h => exact ⟨_, hv, h⟩

/-! ## Members -/

/-- The first member with a name has the value that is found under it. -/
theorem member_self {name : Bytes} {v v' : Json} {ms : List (Bytes × Json)}
    (h : member name (.obj ((name, v) :: ms)) = some v') : v = v' := by
  rw [member] at h
  rw [List.filter_cons_of_pos (by simp)] at h
  split at h
  next m hm =>
    rw [← Option.some.inj h, ← (List.cons.inj hm).1]
  · cases h

theorem member_ne {name other : Bytes} (hne : other ≠ name) (v : Json)
    (ms : List (Bytes × Json)) :
    member name (.obj ((other, v) :: ms)) = member name (.obj ms) := by
  rw [member, member, List.filter_cons_of_neg (by simpa using hne)]

/-- The first member with a plain name, and what may follow it. -/
theorem members_key {name t r : Bytes} {ms : List (Bytes × Json)} (hname : Plain name)
    (h : Members (34 :: (name ++ 34 :: 58 :: t)) ms r) :
    ∃ v u, Value (skipWs t) v u ∧ (ms = [(name, v)] ∧ Punct 125 u r ∨
      ∃ u' ms', ms = (name, v) :: ms' ∧ Punct 44 u u' ∧ Members u' ms' r) := by
  generalize hu : (34 :: (name ++ 34 :: 58 :: t) : Bytes) = u at h
  cases h with
  | last hchars hcolon hvalue hclose =>
      obtain ⟨-, rfl⟩ := List.cons.inj hu
      obtain ⟨rfl, rfl⟩ := Chars.plain hname hchars
      obtain ⟨-, rfl⟩ := (punct_iff (by decide)).mp hcolon
      exact ⟨_, _, hvalue, Or.inl ⟨rfl, hclose⟩⟩
  | cons hchars hcolon hvalue hcomma hms =>
      obtain ⟨-, rfl⟩ := List.cons.inj hu
      obtain ⟨rfl, rfl⟩ := Chars.plain hname hchars
      obtain ⟨-, rfl⟩ := (punct_iff (by decide)).mp hcolon
      exact ⟨_, _, hvalue, Or.inr ⟨_, _, rfl, hcomma, hms⟩⟩

/-- A member written as `"name":"text",` is found with that text only if the
text is plain. -/
theorem members_text {name s t r : Bytes} {ms : List (Bytes × Json)} (hname : Plain name)
    (h : Members (34 :: (name ++ 34 :: 58 :: 34 :: (s ++ 34 :: 44 :: 34 :: t))) ms r)
    (hfound : member name (.obj ms) = some (.str s)) :
    Plain s ∧ ∃ ms', ms = (name, .str s) :: ms' ∧ Members (34 :: t) ms' r := by
  obtain ⟨v, u, hvalue, hrest⟩ := members_key hname h
  rw [skipWs_of_not_ws (by decide)] at hvalue
  obtain ⟨s', rfl, hchars⟩ := value_quote hvalue
  have hs : s' = s := by
    have hfirst : ∃ ms', ms = (name, .str s') :: ms' := by
      rcases hrest with ⟨hms, -⟩ | ⟨-, ms', hms, -⟩
      · exact ⟨[], hms⟩
      · exact ⟨ms', hms⟩
    obtain ⟨ms', rfl⟩ := hfirst
    exact Json.str.inj (member_self hfound)
  subst hs
  obtain ⟨hplain, rfl⟩ := Chars.raw_iff.mp hchars
  rcases hrest with ⟨-, hclose⟩ | ⟨u', ms', rfl, hcomma, hms⟩
  · exact absurd ((punct_iff (by decide)).mp hclose).1 (by decide)
  · obtain ⟨-, rfl⟩ := (punct_iff (by decide)).mp hcomma
    rw [skipWs_of_not_ws (by decide)] at hms
    exact ⟨hplain, ms', rfl, hms⟩

/-- A member written as `"name":value,` in front of others. -/
theorem Members.prepend {name t u : Bytes} {v : Json} {r : Bytes} {ms : List (Bytes × Json)}
    (hname : Plain name) (hv : Value (skipWs t) v (44 :: 34 :: u)) (hms : Members (34 :: u) ms r) :
    Members (34 :: (name ++ 34 :: 58 :: t)) ((name, v) :: ms) r := by
  refine .cons (Chars.of_plain hname _) ((punct_iff (by decide)).mpr ⟨rfl, rfl⟩) hv
    ((punct_iff (by decide)).mpr ⟨rfl, rfl⟩) ?_
  rwa [skipWs_of_not_ws (by decide)]

/-- A text between quotes. -/
theorem value_text {s : Bytes} (hs : Plain s) (t : Bytes) :
    Value (skipWs (34 :: (s ++ 34 :: t))) (.str s) t := by
  rw [skipWs_of_not_ws (by decide)]
  exact .str (Chars.of_plain hs t)

end Json

end HydrogenHttpd.Spec
