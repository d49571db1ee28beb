import HydrogenHttpd.Base.Bits

/-!
# SHA-256

The hash function of the Secure Hash Standard on messages of fewer than
2^64 bits, as the standard words it. The message is a string of bits. It is
padded to a multiple of 512 with a one, the fewest zeros that fit, and its
length as a 64-bit number; every block of 512 bits is read as sixteen words,
extended to the 64 words of the message schedule by a recurrence, and mixed
into the chaining value in 64 rounds. Addition of words is modulo 2^32.

The constants are computed from where they come from, the roots of the first
primes.
-/

namespace HydrogenHttpd.Spec.Sha256

open Base

abbrev Word := BitVec 32

/-! ## Functions and constants -/

def ch (x y z : Word) : Word := (x &&& y) ^^^ (~~~x &&& z)

def maj (x y z : Word) : Word := (x &&& y) ^^^ (x &&& z) ^^^ (y &&& z)

/-- The capital sigmas, of the rounds. -/
def sum₀ (x : Word) : Word := x.rotateRight 2 ^^^ x.rotateRight 13 ^^^ x.rotateRight 22

def sum₁ (x : Word) : Word := x.rotateRight 6 ^^^ x.rotateRight 11 ^^^ x.rotateRight 25

/-- The small sigmas, of the message schedule. -/
def sigma₀ (x : Word) : Word := x.rotateRight 7 ^^^ x.rotateRight 18 ^^^ (x >>> 3)

def sigma₁ (x : Word) : Word := x.rotateRight 17 ^^^ x.rotateRight 19 ^^^ (x >>> 10)

/-- The first sixty-four primes. -/
def primes : List Nat :=
  [2, 3, 5, 7, 11, 13, 17, 19, 23, 29, 31, 37, 41, 43, 47, 53, 59, 61, 67, 71, 73, 79, 83, 89, 97,
   101, 103, 107, 109, 113, 127, 131, 137, 139, 149, 151, 157, 163, 167, 173, 179, 181, 191, 193,
   197, 199, 211, 223, 227, 229, 233, 239, 241, 251, 257, 263, 269, 271, 277, 281, 283, 293, 307,
   311]

theorem primes_eq : primes = (List.range 312).filter fun p => Nat.Prime p := by
  decide +kernel

/-- The first 32 bits of the fractional part of the `n`-th root of `p`. -/
def rootBits (n p : Nat) : Word := BitVec.ofNat 32 (Nat.nthRoot n (p * 2 ^ (32 * n)))

/-- The constants of the rounds, from cube roots. -/
def constants : List Word := primes.map (rootBits 3)

/-! ## Padding -/

/-- How many zeros follow the one. -/
def zeros (length : Nat) : Nat := (447 + 512 - length % 512) % 512

/-- They are the fewest that leave 64 bits to a whole block. -/
theorem zeros_least (length : Nat) :
    IsLeast {k | (length + 1 + k) % 512 = 448} (zeros length) := by
  refine ⟨?_, fun k hk => ?_⟩
  · show (length + 1 + zeros length) % 512 = 448
    rw [zeros]
    omega
  · have hfits : (length + 1 + k) % 512 = 448 := hk
    rw [zeros]
    omega

def pad (message : List Bool) : List Bool :=
  message ++ [true] ++ List.replicate (zeros message.length) false ++ bitsOf 64 message.length

/-- A padded message is whole blocks. -/
theorem pad_length (message : List Bool) : 512 ∣ (pad message).length := by
  simp only [pad, List.length_append, List.length_replicate, List.length_singleton,
    bitsOf_length]
  have hfits : (message.length + 1 + zeros message.length) % 512 = 448 :=
    (zeros_least message.length).1
  omega

/-! ## Message schedule -/

/-- The sixteen words of a block. -/
def blockWords (block : List Bool) : List Word :=
  (pieces 32 block).map fun bits => BitVec.ofNat 32 (ofBits bits)

/-- Word `t` of the message schedule. -/
def schedule (block : List Bool) (t : Nat) : Word :=
  if t < 16 then (blockWords block).getD t 0
  else
    sigma₁ (schedule block (t - 2)) + schedule block (t - 7) + sigma₀ (schedule block (t - 15)) +
      schedule block (t - 16)

/-! ## Rounds -/

/-- The eight working variables, and the eight words of a hash value. -/
structure Words where
  a : Word
  b : Word
  c : Word
  d : Word
  e : Word
  f : Word
  g : Word
  h : Word
  deriving DecidableEq

def Words.toList (s : Words) : List Word := [s.a, s.b, s.c, s.d, s.e, s.f, s.g, s.h]

def Words.add (s r : Words) : Words :=
  { a := s.a + r.a, b := s.b + r.b, c := s.c + r.c, d := s.d + r.d
    e := s.e + r.e, f := s.f + r.f, g := s.g + r.g, h := s.h + r.h }

/-- The initial hash value, from square roots. -/
def initial : Words :=
  { a := rootBits 2 2, b := rootBits 2 3, c := rootBits 2 5, d := rootBits 2 7
    e := rootBits 2 11, f := rootBits 2 13, g := rootBits 2 17, h := rootBits 2 19 }

/-- A round with its constant and its word of the schedule. -/
def round (s : Words) (k w : Word) : Words :=
  let t₁ := s.h + sum₁ s.e + ch s.e s.f s.g + k + w
  let t₂ := sum₀ s.a + maj s.a s.b s.c
  { a := t₁ + t₂, b := s.a, c := s.b, d := s.c
    e := s.d + t₁, f := s.e, g := s.f, h := s.g }

/-- The hash value after a block. -/
def compress (s : Words) (block : List Bool) : Words :=
  ((List.range 64).foldl (fun r t => round r (constants.getD t 0) (schedule block t)) s).add s

/-! ## The digest -/

/-- The hash value of a message, of 256 bits. -/
def digest (message : List Bool) : List Bool :=
  ((pieces 512 (pad message)).foldl compress initial).toList.flatMap fun w => bitsOf 32 w.toNat

theorem digest_length (message : List Bool) : (digest message).length = 256 := by
  rw [digest, flatMap_length (k := 32) fun w => bitsOf_length 32 _]
  rfl

/-- A digit of lower case hexadecimal. -/
def hexDigit (n : Nat) : UInt8 := (bytes "0123456789abcdef").getD n 0

/-- A bit string in lower case hexadecimal. -/
def hexText (bits : List Bool) : Bytes := (pieces 4 bits).map fun digit => hexDigit (ofBits digit)

theorem hexText_length (bits : List Bool) : (hexText bits).length = bits.length / 4 := by
  simp [hexText, pieces]

end HydrogenHttpd.Spec.Sha256
