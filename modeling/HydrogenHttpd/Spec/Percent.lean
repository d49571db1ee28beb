import HydrogenHttpd.Base.Bytes

/-!
# Percent encoding

RFC 3986, section 2.1: an escape is a percent sign and two hexadecimal digits
of either case, and stands for the byte the digits give. Decoding replaces the
escapes from left to right and leaves every other byte, a percent sign without
two digits behind it included, as it is. An encoding of a string writes some
of its bytes, every percent sign among them, as escapes.
-/

namespace HydrogenHttpd.Spec

open Base

/-- The value of a hexadecimal digit, `none` for any other byte. -/
def hexDigit? (c : UInt8) : Option Nat :=
  if 48 ≤ c.toNat ∧ c.toNat ≤ 57 then some (c.toNat - 48)
  else if 65 ≤ c.toNat ∧ c.toNat ≤ 70 then some (c.toNat - 55)
  else if 97 ≤ c.toNat ∧ c.toNat ≤ 102 then some (c.toNat - 87)
  else none

/-- The byte an escape with these two characters behind the percent sign
stands for. -/
def escaped? (a b : UInt8) : Option UInt8 :=
  match hexDigit? a, hexDigit? b with
  | some high, some low => some (UInt8.ofNat (16 * high + low))
  | _, _ => none

/-- Every escape of the text replaced by its byte. -/
def percentDecode : Bytes → Bytes
  | c :: a :: b :: rest =>
      match if c = 37 then escaped? a b else none with
      | some byte => byte :: percentDecode rest
      | none => c :: percentDecode (a :: b :: rest)
  | short => short

/-- `Encodes s t`: the text `t` is a percent encoding of `s`. -/
inductive Encodes : Bytes → Bytes → Prop
  | nil : Encodes [] []
  | plain {c : UInt8} {s t : Bytes} : c ≠ 37 → Encodes s t → Encodes (c :: s) (c :: t)
  | escape {c a b : UInt8} {s t : Bytes} :
      escaped? a b = some c → Encodes s t → Encodes (c :: s) (37 :: a :: b :: t)

/-- The encoding that leaves alone the bytes with the property `keep` and
writes upper case digits. -/
def percentEncode (keep : UInt8 → Bool) (s : Bytes) : Bytes :=
  s.flatMap fun c =>
    if keep c then [c]
    else
      let digit (n : Nat) : UInt8 := UInt8.ofNat (if n < 10 then 48 + n else 55 + n)
      [37, digit (c.toNat / 16), digit (c.toNat % 16)]

theorem percentDecode_plain {c : UInt8} (hc : c ≠ 37) (rest : Bytes) :
    percentDecode (c :: rest) = c :: percentDecode rest := by
  match rest with
  | [] | [_] => rfl
  | a :: b :: rest => rw [percentDecode, if_neg hc]

theorem percentDecode_escape {a b byte : UInt8} (h : escaped? a b = some byte) (rest : Bytes) :
    percentDecode (37 :: a :: b :: rest) = byte :: percentDecode rest := by
  rw [percentDecode, if_pos rfl, h]

theorem percentDecode_stray {a b : UInt8} (h : escaped? a b = none) (rest : Bytes) :
    percentDecode (37 :: a :: b :: rest) = 37 :: percentDecode (a :: b :: rest) := by
  rw [percentDecode, if_pos rfl, h]

/-- Any encoding of a string decodes to it. -/
theorem percentDecode_of_encodes {s t : Bytes} (h : Encodes s t) : percentDecode t = s := by
  induction h with
  | nil => rfl
  | plain hc _ ih => rw [percentDecode_plain hc, ih]
  | escape h _ ih => rw [percentDecode_escape h, ih]

theorem escaped?_digits (c : UInt8) :
    escaped? (UInt8.ofNat (if c.toNat / 16 < 10 then 48 + c.toNat / 16 else 55 + c.toNat / 16))
        (UInt8.ofNat (if c.toNat % 16 < 10 then 48 + c.toNat % 16 else 55 + c.toNat % 16)) =
      some c := by
  have digit : ∀ n < 16, hexDigit? (UInt8.ofNat (if n < 10 then 48 + n else 55 + n)) = some n := by
    decide
  have hc := c.toNat_lt
  have hvalue : 16 * (c.toNat / 16) + c.toNat % 16 = c.toNat := Nat.div_add_mod _ _
  rw [escaped?, digit _ (by omega), digit _ (by omega)]
  simp [hvalue]

/-- Every string has encodings: any set of bytes without the percent sign may
be left alone. -/
theorem encodes_percentEncode {keep : UInt8 → Bool} (hkeep : keep 37 = false) (s : Bytes) :
    Encodes s (percentEncode keep s) := by
  induction s with
  | nil => exact .nil
  | cons c s ih =>
      rw [percentEncode, List.flatMap_cons]
      split
      next h => exact .plain (fun hc => by simp [hc, hkeep] at h) ih
      next h => exact .escape (escaped?_digits c) ih

end HydrogenHttpd.Spec
