import HydrogenHttpd.Ref.Auth

/-!
# `Auth::sha256Hex` with its accesses checked

The loops of the function as they run over its arrays. The padded message
grows byte by byte, `words` is an array of 64 zeros that is filled in place,
and every subscript is checked: an access out of bounds is `none`, and so is
a padding loop that does not end.
-/

namespace HydrogenHttpd.Ref

open Base

/-- `words[i] = word` -/
def storeWord (words : List UInt32) (i : Nat) (word : UInt32) : Option (List UInt32) :=
  if i < words.length then some (words.set i word) else none

/-- The loop that appends zeros up to eight bytes short of a block. -/
def padZeros : Nat → Bytes → Option Bytes
  | 0, _ => none
  | fuel + 1, message =>
      if message.length % 64 ≠ 56 then padZeros fuel (message ++ [0]) else some message

/-- The word of four bytes of the message, put in its place. -/
def loadWord (message : Bytes) (offset : Nat) (words : List UInt32) (i : Nat) :
    Option (List UInt32) := do
  let base := offset + i * 4
  let b₀ ← message[base]?
  let b₁ ← message[base + 1]?
  let b₂ ← message[base + 2]?
  let b₃ ← message[base + 3]?
  storeWord words i ((b₀.toUInt32 <<< 24) ||| (b₁.toUInt32 <<< 16) ||| (b₂.toUInt32 <<< 8) |||
    b₃.toUInt32)

/-- A word of the message schedule behind the first sixteen. -/
def extendWord (words : List UInt32) (i : Nat) : Option (List UInt32) := do
  let w₁₅ ← words[i - 15]?
  let w₂ ← words[i - 2]?
  let w₁₆ ← words[i - 16]?
  let w₇ ← words[i - 7]?
  let s0 := rotr w₁₅ 7 ^^^ rotr w₁₅ 18 ^^^ (w₁₅ >>> 3)
  let s1 := rotr w₂ 17 ^^^ rotr w₂ 19 ^^^ (w₂ >>> 10)
  storeWord words i (w₁₆ + s0 + w₇ + s1)

def checkedRound (words : List UInt32) (s : Sha256State) (i : Nat) : Option Sha256State := do
  let k ← sha256K[i]?
  let w ← words[i]?
  some (sha256Round s (k, w))

/-- The body of the loop over the blocks. -/
def checkedBlock (message : Bytes) (s : Sha256State) (offset : Nat) : Option Sha256State := do
  let words ← (List.range 16).foldlM (loadWord message offset) (List.replicate 64 0)
  let words ← (List.range 48).foldlM (fun words k => extendWord words (k + 16)) words
  let r ← (List.range 64).foldlM (checkedRound words) s
  some { a := s.a + r.a, b := s.b + r.b, c := s.c + r.c, d := s.d + r.d
         e := s.e + r.e, f := s.f + r.f, g := s.g + r.g, h := s.h + r.h }

def Auth.sha256HexChecked (input : Bytes) : Option Bytes := do
  let bitLength := input.length * 8 % 2 ^ 64
  let message ← padZeros 64 (input ++ [0x80])
  let message := message ++
    [56, 48, 40, 32, 24, 16, 8, 0].map fun shift => UInt8.ofNat (bitLength >>> shift)
  -- The offsets below the size, also when the last block is not a whole one.
  let s ← (List.range ((message.length + 63) / 64)).foldlM
    (fun s i => checkedBlock message s (i * 64)) sha256Init
  some ([s.a, s.b, s.c, s.d, s.e, s.f, s.g, s.h].flatMap hex8)

end HydrogenHttpd.Ref
