import HydrogenHttpd.Base.Bytes

/-!
# Bit strings

A bit string is a list of bits with the most significant one first, which is
how byte strings and words are written one behind the other. `bitsOf` writes a
number with a fixed width and `ofBits` reads it back; `bitsOf_mul` says that a
wide number is written by writing its digits of any smaller width.

`pieces` cuts a list into pieces of one length. On a list that was put
together from items of one length the cut falls between the items
(`pieces_flatMap`), whatever they consist of.
-/

namespace HydrogenHttpd.Base

/-- The low `width` bits of a number. -/
def bitsOf (width n : Nat) : List Bool := (List.range width).reverse.map n.testBit

/-- The number that a bit string writes. -/
def ofBits (bits : List Bool) : Nat := bits.foldl (fun n b => 2 * n + b.toNat) 0

@[simp] theorem bitsOf_length (width n : Nat) : (bitsOf width n).length = width := by
  simp [bitsOf]

theorem bitsOf_succ (width n : Nat) :
    bitsOf (width + 1) n = n.testBit width :: bitsOf width n := by
  simp [bitsOf, List.range_succ]

theorem bitsOf_add (high low n : Nat) :
    bitsOf (high + low) n = bitsOf high (n >>> low) ++ bitsOf low n := by
  simp only [bitsOf, Nat.add_comm high low, List.range_add, List.reverse_append, List.map_append,
    ← List.map_reverse, List.map_map]
  congr 1
  refine List.map_congr_left fun i _ => ?_
  rw [Function.comp_apply, Nat.testBit_shiftRight]

/-- A wide number, written digit by digit. -/
theorem bitsOf_mul (count width n : Nat) :
    bitsOf (count * width) n =
      (List.range count).reverse.flatMap fun i => bitsOf width (n >>> (i * width)) := by
  induction count with
  | zero => simp [bitsOf]
  | succ count ih =>
      rw [Nat.succ_mul, Nat.add_comm, bitsOf_add, ih]
      simp [List.range_succ]

/-- Bits above the width do not show. -/
theorem bitsOf_mod (width n : Nat) : bitsOf width (n % 2 ^ width) = bitsOf width n := by
  refine List.map_congr_left fun i hi => ?_
  have hlow : i < width := by simpa using hi
  simp [Nat.testBit_mod_two_pow, hlow]

theorem ofBits_cons (b : Bool) (bits : List Bool) :
    ofBits (b :: bits) = b.toNat * 2 ^ bits.length + ofBits bits := by
  have hfold : ∀ (bits : List Bool) (n : Nat),
      bits.foldl (fun n b => 2 * n + b.toNat) n = n * 2 ^ bits.length + ofBits bits := by
    intro bits
    induction bits with
    | nil => simp [ofBits]
    | cons b bits ih =>
        intro n
        rw [ofBits, List.foldl_cons, List.foldl_cons, ih, ih, List.length_cons, Nat.pow_succ]
        ring
  rw [ofBits, List.foldl_cons, hfold]
  simp

theorem ofBits_bitsOf (width n : Nat) : ofBits (bitsOf width n) = n % 2 ^ width := by
  induction width with
  | zero => simp [bitsOf, ofBits, Nat.mod_one]
  | succ width ih =>
      rw [bitsOf_succ, ofBits_cons, bitsOf_length, ih, Nat.mod_pow_succ, Nat.toNat_testBit]
      ring

/-! ## Byte strings -/

/-- The bits of a byte string. -/
def bitsOfBytes (s : Bytes) : List Bool := s.flatMap fun c => bitsOf 8 c.toNat

theorem bitsOfBytes_append (s t : Bytes) :
    bitsOfBytes (s ++ t) = bitsOfBytes s ++ bitsOfBytes t := by
  simp [bitsOfBytes]

theorem bitsOfBytes_replicate_zero (n : Nat) :
    bitsOfBytes (List.replicate n 0) = List.replicate (8 * n) false := by
  induction n with
  | zero => rfl
  | succ n ih =>
      rw [List.replicate_succ, bitsOfBytes, List.flatMap_cons]
      rw [bitsOfBytes] at ih
      rw [ih, Nat.mul_succ, Nat.add_comm, List.replicate_add]
      rfl

/-! ## Pieces -/

section Pieces

variable {α β : Type}

/-- A list cut into pieces of `n` items; a shorter rest is left out. -/
def pieces (n : Nat) (xs : List α) : List (List α) :=
  (List.range (xs.length / n)).map fun i => (xs.drop (n * i)).take n

theorem flatMap_length {f : α → List β} {k : Nat} (hf : ∀ x, (f x).length = k) (xs : List α) :
    (xs.flatMap f).length = k * xs.length := by
  induction xs with
  | nil => rfl
  | cons x xs ih =>
      rw [List.flatMap_cons, List.length_append, hf, ih, List.length_cons]
      ring

theorem flatMap_drop {f : α → List β} {k : Nat} (hf : ∀ x, (f x).length = k) (n : Nat)
    (xs : List α) : (xs.flatMap f).drop (k * n) = (xs.drop n).flatMap f := by
  induction n generalizing xs with
  | zero => rfl
  | succ n ih =>
      cases xs with
      | nil => simp
      | cons x xs =>
          rw [List.flatMap_cons, Nat.mul_succ, Nat.add_comm, ← List.drop_drop,
            List.drop_left' (hf x), ih, List.drop_succ_cons]

theorem flatMap_take {f : α → List β} {k : Nat} (hf : ∀ x, (f x).length = k) (n : Nat)
    (xs : List α) : (xs.flatMap f).take (k * n) = (xs.take n).flatMap f := by
  induction n generalizing xs with
  | zero => simp
  | succ n ih =>
      cases xs with
      | nil => simp
      | cons x xs =>
          rw [List.flatMap_cons, Nat.mul_succ, Nat.add_comm, List.take_add,
            List.take_left' (hf x), List.drop_left' (hf x), ih, List.take_succ_cons,
            List.flatMap_cons]

/-- A list put together from items of one length is cut between the items. -/
theorem pieces_flatMap {f : α → List β} {k : Nat} (hf : ∀ x, (f x).length = k) (hk : 0 < k)
    (n : Nat) (xs : List α) :
    pieces (k * n) (xs.flatMap f) = (pieces n xs).map (List.flatMap f) := by
  rw [pieces, pieces, flatMap_length hf, Nat.mul_div_mul_left _ _ hk, List.map_map]
  refine List.map_congr_left fun i _ => ?_
  rw [Function.comp_apply, Nat.mul_assoc, flatMap_drop hf, flatMap_take hf]

theorem pieces_one (xs : List α) : pieces 1 xs = xs.map fun x => [x] := by
  refine List.ext_getElem (by simp [pieces]) fun i hi hi' => ?_
  have hlt : i < xs.length := by simpa using hi'
  simp [pieces, List.take_one_drop_eq_of_lt_length hlt]

end Pieces

end HydrogenHttpd.Base
