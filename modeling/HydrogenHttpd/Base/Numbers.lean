import HydrogenHttpd.Base.Bytes

/-!
# Decimal numbers as the C++ library reads and writes them

`std::to_string` on an unsigned value and the `std::sto*` family, on a
platform whose `long` and `long long` have 64 bits. The readers skip leading
white space, take one optional sign and the digits that follow, ignore
whatever comes next, and throw when there is no digit or the value does not
fit; a throw is `none` here. The unsigned readers accept a minus sign and
answer the two's complement value.
-/

namespace HydrogenHttpd.Base

/-- `std::to_string` of a non-negative value. -/
def decimal (n : Nat) : Bytes := (Nat.toDigits 10 n).map fun c => UInt8.ofNat c.toNat

/-- `std::to_string` of a signed value. -/
def signedDecimal (n : Int) : Bytes := if n < 0 then 45 :: decimal n.natAbs else decimal n.natAbs

/-- The value a run of decimal digits denotes. -/
def digitsValue (s : Bytes) : Nat := s.foldl (fun acc c => acc * 10 + (c.toNat - 48)) 0

/-- What `strtol` and its kin read: the sign, the digits, and what follows. -/
def readDecimal (s : Bytes) : Option (Bool × Nat × Bytes) :=
  let body := s.dropWhile isSpace
  let negative := body.head? == some 45
  let unsigned := if negative || body.head? == some 43 then body.drop 1 else body
  let digits := unsigned.takeWhile isDigit
  if digits.isEmpty then none
  else some (negative, digitsValue digits, unsigned.dropWhile isDigit)

/-- `std::stoull`, and `std::stoul` where `unsigned long` has 64 bits. -/
def stoull (s : Bytes) : Option Nat :=
  match readDecimal s with
  | none => none
  | some (negative, n, _) =>
      if 2 ^ 64 ≤ n then none
      else some (if negative then (2 ^ 64 - n) % 2 ^ 64 else n)

/-- The signed value of a reading, when it fits `bits` bits. -/
def signedValue (bits : Nat) (negative : Bool) (n : Nat) : Option Int :=
  if negative then (if n ≤ 2 ^ (bits - 1) then some (-(n : Int)) else none)
  else (if n < 2 ^ (bits - 1) then some (n : Int) else none)

def stoi (s : Bytes) : Option Int :=
  match readDecimal s with
  | none => none
  | some (negative, n, _) => signedValue 32 negative n

/-- `std::stoll` with the number of characters it consumed left implicit: the
second component is what it did not consume. -/
def stoll (s : Bytes) : Option (Int × Bytes) :=
  match readDecimal s with
  | none => none
  | some (negative, n, rest) => (signedValue 64 negative n).map fun v => (v, rest)

/-! ## Writing and reading back -/

theorem toNat_digitByte {c : Char} (h : c.isDigit = true) :
    (UInt8.ofNat c.toNat).toNat = c.toNat := by
  simp only [Char.isDigit, Bool.and_eq_true, decide_eq_true_eq] at h
  have hle : c.toNat ≤ 57 := h.2
  rw [UInt8.toNat_ofNat', Nat.mod_eq_of_lt (by omega)]

theorem isDigit_of_mem_decimal {n : Nat} {c : UInt8} (h : c ∈ decimal n) :
    isDigit c = true := by
  simp only [decimal, List.mem_map] at h
  obtain ⟨d, hd, rfl⟩ := h
  have hdig := Nat.isDigit_of_mem_toDigits (by decide) (by decide) hd
  simp only [isDigit, Bool.and_eq_true, decide_eq_true_eq, UInt8.le_iff_toNat_le,
    toNat_digitByte hdig]
  simp only [Char.isDigit, Bool.and_eq_true, decide_eq_true_eq] at hdig
  exact hdig

theorem digitsValue_digitBytes {ds : List Char} (h : ∀ d ∈ ds, d.isDigit = true) (acc : Nat) :
    (ds.map fun c => UInt8.ofNat c.toNat).foldl (fun acc c => acc * 10 + (c.toNat - 48)) acc =
      Nat.ofDigitChars 10 ds acc := by
  induction ds generalizing acc with
  | nil => rfl
  | cons d ds ih =>
      rw [List.map_cons, List.foldl_cons, ih (fun e he => h e (by simp [he])),
        toNat_digitByte (h d (by simp)), Nat.ofDigitChars_cons, Nat.mul_comm]
      rfl

/-- Reading the digits of a number gives the number back. -/
@[simp] theorem digitsValue_decimal (n : Nat) : digitsValue (decimal n) = n := by
  rw [digitsValue, decimal, digitsValue_digitBytes fun d hd =>
    Nat.isDigit_of_mem_toDigits (by decide) (by decide) hd]
  exact Nat.ofDigitChars_ten_toDigits

theorem decimal_ne_nil (n : Nat) : decimal n ≠ [] := by
  simp [decimal, Nat.toDigits_ne_nil]

/-- There is no leading zero. -/
theorem decimal_head {n : Nat} (hn : 0 < n) : (decimal n).head? ≠ some 48 := by
  induction n using Nat.strongRecOn with
  | ind n ih =>
      rw [decimal, Nat.toDigits_eq_if (by decide)]
      split
      next hlt =>
        interval_cases n <;> decide
      next hge =>
        have hrest := ih (n / 10) (by omega) (by omega)
        rw [List.map_append]
        change ((decimal (n / 10)) ++ _).head? ≠ _
        rwa [List.head?_append_of_ne_nil _ (decimal_ne_nil (n / 10))]

theorem decimal_injective : Function.Injective decimal := fun a b h => by
  rw [← digitsValue_decimal a, h, digitsValue_decimal]

theorem isSpace_of_isDigit {c : UInt8} (h : isDigit c = true) : isSpace c = false := by
  simp only [isDigit, Bool.and_eq_true, decide_eq_true_eq, UInt8.le_iff_toNat_le] at h
  simp only [isSpace, Bool.or_eq_false_iff, Bool.and_eq_false_iff, beq_eq_false_iff_ne,
    decide_eq_false_iff_not, UInt8.le_iff_toNat_le, ne_eq, ← UInt8.toNat_inj]
  simp only [UInt8.reduceToNat] at h ⊢
  omega

theorem readDecimal_of_digits {s : Bytes} (hne : s ≠ []) (h : ∀ c ∈ s, isDigit c = true) :
    readDecimal s = some (false, digitsValue s, []) := by
  cases s with
  | nil => exact absurd rfl hne
  | cons c cs =>
      have hc : isDigit c = true := h c (by simp)
      have hsp : isSpace c = false := isSpace_of_isDigit hc
      have hlo : 48 ≤ c.toNat := by
        simp only [isDigit, Bool.and_eq_true, decide_eq_true_eq, UInt8.le_iff_toNat_le] at hc
        simpa using hc.1
      have hminus : ¬ c = 45 := by rintro rfl; exact absurd hlo (by decide)
      have hplus : ¬ c = 43 := by rintro rfl; exact absurd hlo (by decide)
      have htake : (c :: cs).takeWhile isDigit = c :: cs :=
        List.takeWhile_eq_self_iff.mpr h
      have hdrop : (c :: cs).dropWhile isDigit = [] := List.dropWhile_eq_nil_iff.mpr h
      simp [readDecimal, hsp, hminus, hplus, htake, hdrop]

theorem readDecimal_of_minus {s : Bytes} (hne : s ≠ []) (h : ∀ c ∈ s, isDigit c = true) :
    readDecimal (45 :: s) = some (true, digitsValue s, []) := by
  have htake : s.takeWhile isDigit = s := List.takeWhile_eq_self_iff.mpr h
  have hdrop : s.dropWhile isDigit = [] := List.dropWhile_eq_nil_iff.mpr h
  have hspace : isSpace 45 = false := by decide
  simp [readDecimal, hspace, htake, hdrop, hne]

/-- On a run of digits `std::stoull` answers its value, unless that does not fit. -/
theorem stoull_of_digits {s : Bytes} (hne : s ≠ []) (h : ∀ c ∈ s, isDigit c = true) :
    stoull s = if 2 ^ 64 ≤ digitsValue s then none else some (digitsValue s) := by
  rw [stoull, readDecimal_of_digits hne h]
  rfl

theorem digitsValue_append (s t : Bytes) :
    digitsValue (s ++ t) = digitsValue s * 10 ^ t.length + digitsValue t := by
  have hfold : ∀ (t : Bytes) (acc : Nat),
      t.foldl (fun acc c => acc * 10 + (c.toNat - 48)) acc =
        acc * 10 ^ t.length + digitsValue t := by
    intro t
    induction t with
    | nil => simp [digitsValue]
    | cons c t ih =>
        intro acc
        rw [List.foldl_cons, ih, List.length_cons,
          show digitsValue (c :: t) = (c.toNat - 48) * 10 ^ t.length + digitsValue t by
            rw [digitsValue, List.foldl_cons, ih, zero_mul, zero_add]]
        ring
  rw [digitsValue, List.foldl_append, hfold]
  rfl

/-- Digits that come to nothing are zeros. -/
theorem digitsValue_eq_zero_iff {s : Bytes} (h : ∀ c ∈ s, isDigit c = true) :
    digitsValue s = 0 ↔ ∀ c ∈ s, c = 48 := by
  induction s with
  | nil => simp [digitsValue]
  | cons c s ih =>
      have hc : digitsValue [c] = 0 ↔ c = 48 := by
        have hdigit := h c List.mem_cons_self
        simp only [isDigit, Bool.and_eq_true, decide_eq_true_eq, UInt8.le_iff_toNat_le] at hdigit
        rw [← UInt8.toNat_inj]
        simp only [digitsValue, List.foldl_cons, List.foldl_nil, UInt8.reduceToNat] at hdigit ⊢
        omega
      rw [← List.singleton_append, digitsValue_append, List.singleton_append,
        List.forall_mem_cons, ← ih fun d hd => h d (List.mem_cons_of_mem _ hd), ← hc]
      simp

/-! ## Decimal integers -/

/-- The value of digits behind a sign. -/
def signedNumber (negative : Bool) (n : Nat) : Int := if negative then -(n : Int) else n

/-- The digits of a number, and nothing else. -/
def wholeDigits (s : Bytes) : Option Nat :=
  if s ≠ [] ∧ s.all isDigit = true then some (digitsValue s) else none

/-- A text that is a decimal integer in its entirety, with a sign or without. -/
def decimalInteger : Bytes → Option Int
  | 45 :: digits => (wholeDigits digits).map (signedNumber true)
  | 43 :: digits => (wholeDigits digits).map (signedNumber false)
  | digits => (wholeDigits digits).map (signedNumber false)

/-- What `readDecimal` makes of what stands behind the sign. -/
def readDigits (negative : Bool) (s : Bytes) : Option (Bool × Nat × Bytes) :=
  if (s.takeWhile isDigit).isEmpty then none
  else some (negative, digitsValue (s.takeWhile isDigit), s.dropWhile isDigit)

/-- Digits that nothing follows are the whole text. -/
theorem readDigits_whole_iff {negative sign : Bool} {s : Bytes} {n : Nat} :
    readDigits negative s = some (sign, n, []) ↔ sign = negative ∧ wholeDigits s = some n := by
  have hsplit := List.takeWhile_append_dropWhile (p := isDigit) (l := s)
  rw [readDigits, wholeDigits]
  constructor
  · intro h
    split at h
    · cases h
    · next hne =>
        simp only [Option.some.injEq, Prod.mk.injEq] at h
        obtain ⟨rfl, hvalue, hrest⟩ := h
        rw [hrest, List.append_nil] at hsplit
        rw [hsplit] at hne hvalue
        refine ⟨rfl, ?_⟩
        rw [if_pos, hvalue]
        exact ⟨by simpa using hne, by rw [← hsplit]; exact List.all_takeWhile⟩
  · rintro ⟨rfl, h⟩
    split at h
    · next hdigits =>
        have htake : s.takeWhile isDigit = s :=
          List.takeWhile_eq_self_iff.mpr (List.all_eq_true.mp hdigits.2)
        have hdrop : s.dropWhile isDigit = [] :=
          List.dropWhile_eq_nil_iff.mpr (List.all_eq_true.mp hdigits.2)
        rw [htake, hdrop, if_neg (by simpa using hdigits.1), Option.some.inj h]
    · cases h

/-- The reading of a text without blanks in front. -/
theorem readDecimal_cons {c : UInt8} {cs : Bytes} (hc : isSpace c = false) :
    readDecimal (c :: cs) =
      if c = 45 then readDigits true cs
      else if c = 43 then readDigits false cs
      else readDigits false (c :: cs) := by
  rw [readDecimal, List.dropWhile_cons_of_neg (by simp [hc])]
  by_cases hminus : c = 45
  · subst hminus
    rfl
  · by_cases hplus : c = 43
    · subst hplus
      rfl
    · have hsign : (c == 45) = false := beq_eq_false_iff_ne.mpr hminus
      simp [hminus, hplus, hsign, readDigits]

theorem decimalInteger_cons (c : UInt8) (cs : Bytes) :
    decimalInteger (c :: cs) =
      if c = 45 then (wholeDigits cs).map (signedNumber true)
      else if c = 43 then (wholeDigits cs).map (signedNumber false)
      else (wholeDigits (c :: cs)).map (signedNumber false) := by
  by_cases hminus : c = 45
  · subst hminus
    rfl
  · by_cases hplus : c = 43
    · subst hplus
      rfl
    · rw [if_neg hminus, if_neg hplus, decimalInteger]
      · exact fun digits h => hminus (List.cons.inj h).1
      · exact fun digits h => hplus (List.cons.inj h).1

/-- A text without blanks in front is a decimal integer if nothing follows what
is read of it. -/
theorem decimalInteger_eq_some_iff {v : Bytes} (hv : ∀ c ∈ v.head?, isSpace c = false) {z : Int} :
    decimalInteger v = some z ↔
      ∃ negative n, readDecimal v = some (negative, n, []) ∧ signedNumber negative n = z := by
  cases v with
  | nil => simp [decimalInteger, wholeDigits, readDecimal]
  | cons c cs =>
      rw [decimalInteger_cons, readDecimal_cons (hv c rfl)]
      split
      · simp [readDigits_whole_iff]
      · split
        · simp [readDigits_whole_iff]
        · simp [readDigits_whole_iff]

end HydrogenHttpd.Base
