import HydrogenHttpd.Ref.Sha256
import HydrogenHttpd.Spec.Sha256

/-!
# The digest of tokens is SHA-256

Two steps. The function with checked accesses returns what the one without
returns, so that no access is out of bounds. And the one without is the hash
function of the standard, written out in hexadecimal: its padding in bytes is
the standard's in bits, its list of words is the message schedule, and its
rounds are the rounds, word for word.
-/

namespace HydrogenHttpd.Ref

open Base Spec

/-! ## No access is out of bounds -/

/-- The padding loop ends at the first size that fits. -/
theorem padZeros_eq {k fuel : Nat} {message : Bytes} (hfuel : k < fuel)
    (hstop : (message.length + k) % 64 = 56)
    (hfirst : ∀ j < k, (message.length + j) % 64 ≠ 56) :
    padZeros fuel message = some (message ++ List.replicate k 0) := by
  induction k generalizing fuel message with
  | zero =>
      obtain ⟨fuel, rfl⟩ : ∃ n, fuel = n + 1 := ⟨fuel - 1, by omega⟩
      rw [padZeros, if_neg (by simpa using hstop)]
      simp
  | succ k ih =>
      obtain ⟨fuel, rfl⟩ : ∃ n, fuel = n + 1 := ⟨fuel - 1, by omega⟩
      rw [padZeros, if_pos (by simpa using hfirst 0 (by omega)), ih (by omega)]
      · simp [List.replicate_succ]
      · rw [List.length_append, List.length_singleton]
        omega
      · intro j hj
        have := hfirst (j + 1) (by omega)
        rw [List.length_append, List.length_singleton]
        omega

/-- The array is filled from the front. -/
theorem storeWord_next {words : List UInt32} {i n : Nat} (hi : words.length = i) (hn : 0 < n)
    (word : UInt32) :
    storeWord (words ++ List.replicate n 0) i word =
      some (words ++ [word] ++ List.replicate (n - 1) 0) := by
  obtain ⟨n, rfl⟩ : ∃ m, n = m + 1 := ⟨n - 1, by omega⟩
  rw [storeWord, if_pos (by simp [hi])]
  simp [← hi, List.replicate_succ]

/-- A fold that may fail does not where every step succeeds. -/
theorem foldlM_range_some {α : Type} {f : α → Nat → Option α} {g : Nat → α} {n : Nat}
    (hstep : ∀ i < n, f (g i) i = some (g (i + 1))) :
    (List.range n).foldlM f (g 0) = some (g n) := by
  induction n with
  | zero => rfl
  | succ n ih =>
      rw [List.range_succ, List.foldlM_append, ih fun i hi => hstep i (by omega)]
      simpa using hstep n (by omega)

theorem getElem?_some_getD {α : Type} (xs : List α) {i : Nat} (hi : i < xs.length) (d : α) :
    xs[i]? = some (xs.getD i d) := by
  simp [hi]

/-- The first sixteen words of a block that is there. -/
theorem loadWords_eq {message : Bytes} {offset : Nat} (hblock : offset + 64 ≤ message.length) :
    (List.range 16).foldlM (loadWord message offset) (List.replicate 64 0) =
      some ((List.range 16).map (fun i => sha256Word message (offset + i * 4)) ++
        List.replicate 48 0) := by
  refine foldlM_range_some (g := fun n =>
    (List.range n).map (fun i => sha256Word message (offset + i * 4)) ++
      List.replicate (64 - n) 0) fun i hi => ?_
  have hbyte : ∀ j < message.length, message[j]? = some (message.getD j 0) :=
    fun j hj => getElem?_some_getD message hj 0
  rw [loadWord]
  simp only [hbyte (offset + i * 4) (by omega), hbyte (offset + i * 4 + 1) (by omega),
    hbyte (offset + i * 4 + 2) (by omega), hbyte (offset + i * 4 + 3) (by omega),
    Option.bind_eq_bind, Option.bind_some]
  rw [storeWord_next (by simp) (by omega), List.range_succ, List.map_append, Nat.sub_sub]
  rfl

/-- The list that `sha256Words` appends to, after `n` more words. -/
def wordsAfter (block : Bytes) (n : Nat) : List UInt32 :=
  (List.range n).foldl (fun words k =>
    let i := k + 16
    let w := fun j => words.getD j 0
    let s0 := rotr (w (i - 15)) 7 ^^^ rotr (w (i - 15)) 18 ^^^ (w (i - 15) >>> 3)
    let s1 := rotr (w (i - 2)) 17 ^^^ rotr (w (i - 2)) 19 ^^^ (w (i - 2) >>> 10)
    words ++ [w (i - 16) + s0 + w (i - 7) + s1])
    ((List.range 16).map fun i => sha256Word block (i * 4))

theorem wordsAfter_zero (block : Bytes) :
    wordsAfter block 0 = (List.range 16).map fun i => sha256Word block (i * 4) := rfl

theorem sha256Words_eq (block : Bytes) : sha256Words block = wordsAfter block 48 := rfl

theorem wordsAfter_succ (block : Bytes) (n : Nat) :
    wordsAfter block (n + 1) =
      let w := fun j => (wordsAfter block n).getD j 0
      let s0 := rotr (w (n + 1)) 7 ^^^ rotr (w (n + 1)) 18 ^^^ (w (n + 1) >>> 3)
      let s1 := rotr (w (n + 14)) 17 ^^^ rotr (w (n + 14)) 19 ^^^ (w (n + 14) >>> 10)
      wordsAfter block n ++ [w n + s0 + w (n + 9) + s1] := by
  rw [wordsAfter, @List.range_succ n, List.foldl_append]
  rfl

@[simp] theorem wordsAfter_length (block : Bytes) (n : Nat) :
    (wordsAfter block n).length = n + 16 := by
  induction n with
  | zero => simp [wordsAfter]
  | succ n ih =>
      rw [wordsAfter_succ, List.length_append, ih]
      rfl

/-- The other words, from the sixteen before each of them. -/
theorem extendWords_eq (block : Bytes) :
    (List.range 48).foldlM (fun words k => extendWord words (k + 16))
        (wordsAfter block 0 ++ List.replicate 48 0) = some (sha256Words block) := by
  have hwords : sha256Words block = wordsAfter block 48 ++ List.replicate (48 - 48) 0 := by
    rw [Nat.sub_self, List.replicate_zero, List.append_nil, sha256Words_eq]
  rw [hwords]
  refine foldlM_range_some (g := fun n => wordsAfter block n ++ List.replicate (48 - n) 0)
    fun n hn => ?_
  have hword : ∀ j < n + 16, (wordsAfter block n ++ List.replicate (48 - n) 0)[j]? =
      some ((wordsAfter block n).getD j 0) := fun j hj => by
    rw [List.getElem?_append_left (by simpa using hj), getElem?_some_getD _ (by simpa using hj) 0]
  rw [extendWord]
  simp only [hword (n + 16 - 15) (by omega), hword (n + 16 - 2) (by omega),
    hword (n + 16 - 16) (by omega), hword (n + 16 - 7) (by omega), Option.bind_eq_bind,
    Option.bind_some]
  rw [storeWord_next (by simp) (by omega), wordsAfter_succ, Nat.sub_sub]
  rfl

/-- The rounds read one constant and one word each. -/
theorem checkedRounds_eq {words : List UInt32} (hwords : words.length = 64) (s : Sha256State) :
    (List.range 64).foldlM (checkedRound words) s =
      some ((sha256K.zip words).foldl sha256Round s) := by
  have hall : (sha256K.zip words).take 64 = sha256K.zip words :=
    List.take_of_length_le (by simp [hwords])
  rw [← hall]
  refine foldlM_range_some (g := fun n => ((sha256K.zip words).take n).foldl sha256Round s)
    fun i hi => ?_
  have hk : i < sha256K.length := hi
  have hw : i < words.length := by omega
  rw [checkedRound, List.getElem?_eq_getElem hk, List.getElem?_eq_getElem hw]
  rw [List.take_succ_eq_append_getElem (by simp [hwords, hk, hi]), List.foldl_append]
  simp

/-- A word of the message is a word of its block. -/
theorem sha256Word_substr {message : Bytes} {i : Nat} (hi : i < 16) (offset : Nat) :
    sha256Word (substr message offset 64) (i * 4) = sha256Word message (offset + i * 4) := by
  have hbyte : ∀ j < 64, (substr message offset 64).getD j 0 = message.getD (offset + j) 0 := by
    intro j hj
    simp only [substr, List.getD_eq_getElem?_getD]
    rw [List.getElem?_take_of_lt hj, List.getElem?_drop]
  simp only [sha256Word]
  rw [hbyte _ (by omega), hbyte _ (by omega), hbyte _ (by omega), hbyte _ (by omega)]
  rfl

theorem checkedBlock_eq {message : Bytes} {offset : Nat} (hblock : offset + 64 ≤ message.length)
    (s : Sha256State) :
    checkedBlock message s offset = some (sha256Block s (substr message offset 64)) := by
  have hfirst : (List.range 16).map (fun i => sha256Word message (offset + i * 4)) =
      wordsAfter (substr message offset 64) 0 := by
    rw [wordsAfter_zero]
    exact List.map_congr_left fun i hi => (sha256Word_substr (List.mem_range.mp hi) offset).symm
  have hwords : (sha256Words (substr message offset 64)).length = 64 := by
    rw [sha256Words_eq, wordsAfter_length]
  rw [checkedBlock, loadWords_eq hblock, hfirst]
  simp only [Option.bind_eq_bind, Option.bind_some]
  rw [extendWords_eq]
  simp only [Option.bind_some]
  rw [checkedRounds_eq hwords]
  rfl

/-- The padded message is whole blocks. -/
theorem sha256Pad_length (message : Bytes) :
    (sha256Pad message).length = (message.length + 72) / 64 * 64 := by
  simp only [sha256Pad, List.length_append, List.length_replicate, List.length_map,
    List.length_cons, List.length_nil]
  omega

/-- No access is out of bounds, and the padding loop ends. -/
theorem sha256HexChecked_eq (input : Bytes) :
    Auth.sha256HexChecked input = some (Auth.sha256Hex input) := by
  have hpad : padZeros 64 (input ++ [0x80]) =
      some (input ++ [0x80] ++ List.replicate ((119 - input.length % 64) % 64) 0) := by
    refine padZeros_eq (Nat.mod_lt _ (by decide)) ?_ fun j hj => ?_
    all_goals
      rw [List.length_append, List.length_singleton]
      omega
  rw [Auth.sha256HexChecked, hpad]
  simp only [Option.bind_eq_bind, Option.bind_some]
  change ((List.range (((sha256Pad input).length + 63) / 64)).foldlM
    (fun s i => checkedBlock (sha256Pad input) s (i * 64)) sha256Init).bind _ = _
  have hlength := sha256Pad_length input
  have hcount : ((sha256Pad input).length + 63) / 64 = (sha256Pad input).length / 64 := by omega
  have hblocks := foldlM_range_some (n := (sha256Pad input).length / 64)
    (f := fun s i => checkedBlock (sha256Pad input) s (i * 64))
    (g := fun n => (List.range n).foldl
      (fun s i => sha256Block s (substr (sha256Pad input) (i * 64) 64)) sha256Init)
    fun i hi => by
      rw [checkedBlock_eq (by omega), List.range_succ, List.foldl_append]
      rfl
  rw [hcount]
  exact congrArg (Option.bind · _) hblocks

/-! ## Padding -/

theorem bitsOfBytes_length (s : Bytes) : (bitsOfBytes s).length = 8 * s.length :=
  flatMap_length (fun _ => bitsOf_length 8 _) s

/-- The eight bytes of the length are its 64 bits. -/
theorem bitsOfBytes_length64 (n : Nat) :
    bitsOfBytes ([56, 48, 40, 32, 24, 16, 8, 0].map fun shift => UInt8.ofNat (n >>> shift)) =
      bitsOf 64 n := by
  have hbyte : ∀ m : Nat, bitsOf 8 (m % 256) = bitsOf 8 m := bitsOf_mod 8
  rw [show 64 = 8 * 8 from rfl, bitsOf_mul]
  simp [bitsOfBytes, hbyte, List.range_succ]

/-- The padding in bytes is the padding in bits. -/
theorem sha256Pad_bits {message : Bytes} (h : message.length < 2 ^ 61) :
    bitsOfBytes (sha256Pad message) = Sha256.pad (bitsOfBytes message) := by
  have hlength : message.length * 8 % 2 ^ 64 = 8 * message.length := by omega
  have hzeros : Sha256.zeros (8 * message.length) = 7 + 8 * ((119 - message.length % 64) % 64) := by
    rw [Sha256.zeros]
    omega
  simp only [sha256Pad, Sha256.pad, bitsOfBytes_append, bitsOfBytes_replicate_zero,
    bitsOfBytes_length64, bitsOfBytes_length, hlength, hzeros, List.replicate_add]
  simp only [List.append_assoc]
  rfl

/-! ## Words -/

/-- Bytes shifted into their places do not overlap. -/
theorem or_bytes {a b c d : Nat} (hb : b < 256) (hc : c < 256) (hd : d < 256) :
    a <<< 24 ||| b <<< 16 ||| c <<< 8 ||| d = ((a * 256 + b) * 256 + c) * 256 + d := by
  have hor : ∀ (x : Nat) {y : Nat}, y < 256 → x <<< 8 ||| y = x * 256 + y := fun x y hy => by
    rw [← Nat.shiftLeft_add_eq_or_of_lt (i := 8) hy, Nat.shiftLeft_eq]
  rw [show a <<< 24 = (a <<< 8) <<< 16 from (Nat.shiftLeft_add a 8 16),
    ← Nat.shiftLeft_or_distrib, hor a hb,
    show (a * 256 + b) <<< 16 = ((a * 256 + b) <<< 8) <<< 8 from Nat.shiftLeft_add _ 8 8,
    ← Nat.shiftLeft_or_distrib, hor _ hc, hor _ hd]

/-- The word of four bytes. -/
theorem sha256Word_bits {block : Bytes} {base : Nat} (hbase : base + 4 ≤ block.length) :
    (sha256Word block base).toBitVec =
      BitVec.ofNat 32 (ofBits (bitsOfBytes ((block.drop base).take 4))) := by
  have hbytes : (block.drop base).take 4 =
      [block.getD base 0, block.getD (base + 1) 0, block.getD (base + 2) 0,
        block.getD (base + 3) 0] := by
    refine List.ext_getElem (by simp; omega) fun i hi hi' => ?_
    have hlt : i < 4 := hi'
    rw [List.getElem_take, List.getElem_drop]
    interval_cases i <;> exact (List.getD_eq_getElem block 0 _).symm
  rw [hbytes, sha256Word]
  generalize block.getD base 0 = b₀
  generalize block.getD (base + 1) 0 = b₁
  generalize block.getD (base + 2) 0 = b₂
  generalize block.getD (base + 3) 0 = b₃
  have h₀ := b₀.toNat_lt
  have h₁ := b₁.toNat_lt
  have h₂ := b₂.toNat_lt
  have h₃ := b₃.toNat_lt
  have hbits : bitsOfBytes [b₀, b₁, b₂, b₃] =
      bitsOf 32 (((b₀.toNat * 256 + b₁.toNat) * 256 + b₂.toNat) * 256 + b₃.toNat) := by
    have hdigit : ∀ {m n : Nat}, n % 256 = m → bitsOf 8 m = bitsOf 8 n := fun h => by
      rw [← h]
      exact bitsOf_mod 8 _
    rw [show 32 = 4 * 8 from rfl, bitsOf_mul]
    simp only [bitsOfBytes, List.flatMap_cons, List.flatMap_nil, List.range_succ, List.range_zero,
      List.nil_append, List.cons_append, List.reverse_cons, List.reverse_nil, List.append_nil,
      Nat.shiftRight_eq_div_pow]
    refine congrArg₂ (· ++ ·) (hdigit ?_) (congrArg₂ (· ++ ·) (hdigit ?_)
      (congrArg₂ (· ++ ·) (hdigit ?_) (hdigit ?_)))
    all_goals omega
  apply BitVec.eq_of_toNat_eq
  rw [hbits, ofBits_bitsOf, BitVec.toNat_ofNat, UInt32.toNat_toBitVec]
  simp only [UInt32.toNat_or, UInt32.toNat_shiftLeft, UInt8.toNat_toUInt32]
  have hfits : ∀ {b k : Nat}, b < 2 ^ 8 → k ≤ 24 → b <<< k % 2 ^ 32 = b <<< k := by
    intro b k hb hk
    refine Nat.mod_eq_of_lt ?_
    rw [Nat.shiftLeft_eq]
    calc b * 2 ^ k < 2 ^ 8 * 2 ^ k := Nat.mul_lt_mul_of_pos_right hb (Nat.two_pow_pos k)
      _ ≤ 2 ^ 8 * 2 ^ 24 := Nat.mul_le_mul_left _ (Nat.pow_le_pow_right (by decide) hk)
  rw [show (24 : UInt32).toNat % 32 = 24 from rfl, show (16 : UInt32).toNat % 32 = 16 from rfl,
    show (8 : UInt32).toNat % 32 = 8 from rfl, hfits h₀ (by decide), hfits h₁ (by decide),
    hfits h₂ (by decide), or_bytes h₁ h₂ h₃]
  omega

/-- The sixteen words of a block. -/
theorem blockWords_bits {block : Bytes} (hblock : block.length = 64) :
    Sha256.blockWords (bitsOfBytes block) =
      (List.range 16).map fun i => (sha256Word block (i * 4)).toBitVec := by
  have hcut : pieces 32 (bitsOfBytes block) = (pieces 4 block).map bitsOfBytes :=
    pieces_flatMap (fun _ => bitsOf_length 8 _) (by decide) 4 block
  rw [Sha256.blockWords, hcut, pieces, hblock, List.map_map, List.map_map]
  refine List.map_congr_left fun i hi => ?_
  have hlt : i < 16 := List.mem_range.mp hi
  rw [sha256Word_bits (by omega), Nat.mul_comm i 4]
  rfl

/-- `rotr` is the rotation. -/
theorem rotr_toBitVec (x : UInt32) {n : Nat} (hpos : 0 < n) (hlt : n < 32) :
    (rotr x (OfNat.ofNat n)).toBitVec = x.toBitVec.rotateRight n := by
  have hcount : ((OfNat.ofNat n : UInt32).toBitVec % 32).toNat = n := by
    show n % 2 ^ 32 % 32 = n
    omega
  have hrest : ((32 - (OfNat.ofNat n : UInt32)).toBitVec % 32).toNat = 32 - n := by
    show (2 ^ 32 - n % 2 ^ 32 + 32) % 2 ^ 32 % 32 = 32 - n
    omega
  rw [rotr, UInt32.toBitVec_or, UInt32.toBitVec_shiftRight, UInt32.toBitVec_shiftLeft,
    BitVec.rotateRight_def, BitVec.ushiftRight_eq', BitVec.shiftLeft_eq', hcount, hrest,
    Nat.mod_eq_of_lt hlt]

/-! ## Message schedule -/

/-- The small sigmas of the code, which it writes out. -/
theorem sigma_toBitVec (x : UInt32) :
    (rotr x 7 ^^^ rotr x 18 ^^^ (x >>> 3)).toBitVec = Sha256.sigma₀ x.toBitVec ∧
      (rotr x 17 ^^^ rotr x 19 ^^^ (x >>> 10)).toBitVec = Sha256.sigma₁ x.toBitVec := by
  constructor
  · rw [UInt32.toBitVec_xor, UInt32.toBitVec_xor, rotr_toBitVec x (by decide) (by decide),
      rotr_toBitVec x (by decide) (by decide)]
    rfl
  · rw [UInt32.toBitVec_xor, UInt32.toBitVec_xor, rotr_toBitVec x (by decide) (by decide),
      rotr_toBitVec x (by decide) (by decide)]
    rfl

/-- The words of the code are the message schedule. -/
theorem wordsAfter_schedule {block : Bytes} (hblock : block.length = 64) (n : Nat) :
    (wordsAfter block n).map UInt32.toBitVec =
      (List.range (n + 16)).map (Sha256.schedule (bitsOfBytes block)) := by
  induction n with
  | zero =>
      rw [wordsAfter_zero, List.map_map]
      refine List.map_congr_left fun i hi => ?_
      have hlt : i < 16 := by simpa using hi
      rw [Sha256.schedule, if_pos hlt, blockWords_bits hblock]
      simp [hlt]
  | succ n ih =>
      have hword : ∀ j < n + 16, ((wordsAfter block n).getD j 0).toBitVec =
          Sha256.schedule (bitsOfBytes block) j := by
        intro j hj
        have hlt : j < (wordsAfter block n).length := by simpa using hj
        have hget := List.getElem_of_eq ih (i := j) (by simpa using hj)
        rw [List.getElem_map, List.getElem_map, List.getElem_range] at hget
        rw [List.getD_eq_getElem _ _ hlt, hget]
      rw [wordsAfter_succ]
      simp only []
      rw [List.map_append, ih, show n + 1 + 16 = n + 16 + 1 by omega, @List.range_succ (n + 16),
        List.map_append, List.map_singleton, List.map_singleton, UInt32.toBitVec_add,
        UInt32.toBitVec_add, UInt32.toBitVec_add, (sigma_toBitVec _).1, (sigma_toBitVec _).2,
        hword n (by omega), hword (n + 1) (by omega), hword (n + 9) (by omega),
        hword (n + 14) (by omega), Sha256.schedule.eq_1 _ (n + 16), if_neg (by omega)]
      rw [show n + 16 - 2 = n + 14 by omega, show n + 16 - 7 = n + 9 by omega,
        show n + 16 - 15 = n + 1 by omega, Nat.add_sub_cancel]
      refine congrArg (fun w => List.map _ _ ++ [w]) ?_
      ac_rfl

/-! ## Constants -/

/-- A word is the root bits of `p` if with some number in front of it, it is
the greatest whole number below the root. -/
theorem rootBits_eq {n p m : Nat} {w : UInt32} (hle : (m * 2 ^ 32 + w.toNat) ^ n ≤ p * 2 ^ (32 * n))
    (hlt : p * 2 ^ (32 * n) < (m * 2 ^ 32 + w.toNat + 1) ^ n) :
    w.toBitVec = Sha256.rootBits n p := by
  have hw := w.toNat_lt
  apply BitVec.eq_of_toNat_eq
  rw [Sha256.rootBits, Nat.nthRoot_eq_of_le_of_lt hle hlt, BitVec.toNat_ofNat,
    UInt32.toNat_toBitVec]
  omega

theorem sha256K_roots :
    ∀ pk ∈ Sha256.primes.zip sha256K, ∃ m ∈ List.range 7,
      (m * 2 ^ 32 + pk.2.toNat) ^ 3 ≤ pk.1 * 2 ^ (32 * 3) ∧
        pk.1 * 2 ^ (32 * 3) < (m * 2 ^ 32 + pk.2.toNat + 1) ^ 3 := by
  decide +kernel

/-- The table holds the constants. -/
theorem sha256K_constants : sha256K.map UInt32.toBitVec = Sha256.constants := by
  have hprimes : (Sha256.primes.zip sha256K).map Prod.fst = Sha256.primes :=
    List.map_fst_zip (by decide)
  have hwords : (Sha256.primes.zip sha256K).map Prod.snd = sha256K :=
    List.map_snd_zip (by decide)
  rw [Sha256.constants, ← hprimes]
  nth_rewrite 1 [← hwords]
  rw [List.map_map, List.map_map]
  refine List.map_congr_left fun pk hpk => ?_
  obtain ⟨m, -, hle, hlt⟩ := sha256K_roots pk hpk
  exact rootBits_eq hle hlt

/-- The words of a state. -/
def Sha256State.words (s : Sha256State) : Sha256.Words :=
  { a := s.a.toBitVec, b := s.b.toBitVec, c := s.c.toBitVec, d := s.d.toBitVec
    e := s.e.toBitVec, f := s.f.toBitVec, g := s.g.toBitVec, h := s.h.toBitVec }

theorem sha256Init_words : sha256Init.words = Sha256.initial := by
  simp only [Sha256State.words, Sha256.initial, Sha256.Words.mk.injEq]
  exact ⟨rootBits_eq (m := 1) (by decide) (by decide), rootBits_eq (m := 1) (by decide) (by decide),
    rootBits_eq (m := 2) (by decide) (by decide), rootBits_eq (m := 2) (by decide) (by decide),
    rootBits_eq (m := 3) (by decide) (by decide), rootBits_eq (m := 3) (by decide) (by decide),
    rootBits_eq (m := 4) (by decide) (by decide), rootBits_eq (m := 4) (by decide) (by decide)⟩

/-! ## Rounds and blocks -/

/-- The capital sigmas of the code, which it writes out. -/
theorem sum_toBitVec (x : UInt32) :
    (rotr x 2 ^^^ rotr x 13 ^^^ rotr x 22).toBitVec = Sha256.sum₀ x.toBitVec ∧
      (rotr x 6 ^^^ rotr x 11 ^^^ rotr x 25).toBitVec = Sha256.sum₁ x.toBitVec := by
  constructor
  · rw [UInt32.toBitVec_xor, UInt32.toBitVec_xor, rotr_toBitVec x (by decide) (by decide),
      rotr_toBitVec x (by decide) (by decide), rotr_toBitVec x (by decide) (by decide)]
    rfl
  · rw [UInt32.toBitVec_xor, UInt32.toBitVec_xor, rotr_toBitVec x (by decide) (by decide),
      rotr_toBitVec x (by decide) (by decide), rotr_toBitVec x (by decide) (by decide)]
    rfl

theorem sha256Round_words (s : Sha256State) (k w : UInt32) :
    (sha256Round s (k, w)).words = Sha256.round s.words k.toBitVec w.toBitVec := by
  have hsum₀ := (sum_toBitVec s.a).1
  have hsum₁ := (sum_toBitVec s.e).2
  simp only [sha256Round, Sha256State.words, Sha256.round, UInt32.toBitVec_add, hsum₀, hsum₁]
  rfl

/-- The rounds of the code over zipped lists are the rounds over the indices. -/
theorem sha256Rounds_words {block : Bytes} (hblock : block.length = 64) (s : Sha256State) :
    ((sha256K.zip (sha256Words block)).foldl sha256Round s).words =
      (List.range 64).foldl (fun r t => Sha256.round r (Sha256.constants.getD t 0)
        (Sha256.schedule (bitsOfBytes block) t)) s.words := by
  have hwords : (sha256Words block).map UInt32.toBitVec =
      (List.range 64).map (Sha256.schedule (bitsOfBytes block)) := by
    rw [sha256Words_eq, wordsAfter_schedule hblock]
  have hconstants : Sha256.constants = (List.range 64).map (Sha256.constants.getD · 0) :=
    List.ext_getElem (by simp [Sha256.constants, Sha256.primes]) fun t ht _ => by
      rw [List.getElem_map, List.getElem_range, List.getD_eq_getElem _ _ ht]
  have hzip : (sha256K.zip (sha256Words block)).map
        (Prod.map UInt32.toBitVec UInt32.toBitVec) =
      (List.range 64).map fun t =>
        (Sha256.constants.getD t 0, Sha256.schedule (bitsOfBytes block) t) := by
    rw [← List.zip_map, hwords, sha256K_constants]
    nth_rewrite 1 [hconstants]
    exact List.zip_map'
  have hfold : (sha256K.zip (sha256Words block)).foldl
        (fun r kw => Sha256.round r kw.1.toBitVec kw.2.toBitVec) s.words =
      ((sha256K.zip (sha256Words block)).foldl sha256Round s).words :=
    List.foldl_hom Sha256State.words fun r kw => (sha256Round_words r kw.1 kw.2).symm
  rw [← hfold]
  calc (sha256K.zip (sha256Words block)).foldl
        (fun r kw => Sha256.round r kw.1.toBitVec kw.2.toBitVec) s.words
      = ((sha256K.zip (sha256Words block)).map
          (Prod.map UInt32.toBitVec UInt32.toBitVec)).foldl
          (fun r kw => Sha256.round r kw.1 kw.2) s.words := by
          simp only [List.foldl_map, Prod.map]
    _ = _ := by rw [hzip, List.foldl_map]

theorem sha256Block_words {block : Bytes} (hblock : block.length = 64) (s : Sha256State) :
    (sha256Block s block).words = Sha256.compress s.words (bitsOfBytes block) := by
  have hadd : ∀ r : Sha256State, r.words.add s.words =
      Sha256State.words { a := s.a + r.a, b := s.b + r.b, c := s.c + r.c, d := s.d + r.d
                          e := s.e + r.e, f := s.f + r.f, g := s.g + r.g, h := s.h + r.h } := by
    intro r
    simp only [Sha256State.words, Sha256.Words.add, UInt32.toBitVec_add, BitVec.add_comm]
  rw [Sha256.compress, ← sha256Rounds_words hblock, hadd]
  rfl

/-- The blocks of the code are the blocks of the standard. -/
theorem sha256Pad_blocks {input : Bytes} (h : input.length < 2 ^ 61) :
    pieces 512 (Sha256.pad (bitsOfBytes input)) =
      (List.range ((sha256Pad input).length / 64)).map fun i =>
        bitsOfBytes (substr (sha256Pad input) (i * 64) 64) := by
  have hcut : pieces 512 (bitsOfBytes (sha256Pad input)) =
      (pieces 64 (sha256Pad input)).map bitsOfBytes :=
    pieces_flatMap (fun _ => bitsOf_length 8 _) (by decide) 64 (sha256Pad input)
  rw [← sha256Pad_bits h, hcut, pieces, List.map_map]
  refine List.map_congr_left fun i _ => ?_
  rw [Function.comp_apply, substr, Nat.mul_comm]

/-- The loop over the blocks, for any number of those that are there. -/
theorem sha256Blocks_words {message : Bytes} {n : Nat} (hn : n ≤ message.length / 64) :
    ((List.range n).foldl (fun s i => sha256Block s (substr message (i * 64) 64))
        sha256Init).words =
      (List.range n).foldl
        (fun r i => Sha256.compress r (bitsOfBytes (substr message (i * 64) 64)))
        sha256Init.words := by
  induction n with
  | zero => rfl
  | succ n ih =>
      have hblock : (substr message (n * 64) 64).length = 64 := by
        rw [substr, List.length_take, List.length_drop]
        omega
      rw [List.range_succ, List.foldl_append, List.foldl_append, ← ih (by omega)]
      exact sha256Block_words hblock _

/-! ## The digest in hexadecimal -/

/-- A digit as the stream prints it. -/
theorem hexDigit_eq {n : Nat} (h : n < 16) :
    Sha256.hexDigit n = UInt8.ofNat (if n < 10 then 48 + n else 87 + n) := by
  interval_cases n <;> decide

/-- The digits of some words are those of their bits. -/
theorem hexText_words (ws : List UInt32) :
    Sha256.hexText (ws.flatMap fun w => bitsOf 32 w.toNat) = ws.flatMap hex8 := by
  have hbits : (ws.flatMap fun w => bitsOf 32 w.toNat) =
      (ws.flatMap fun w => [28, 24, 20, 16, 12, 8, 4, 0].map (w.toNat >>> ·)).flatMap
        (bitsOf 4) := by
    rw [List.flatMap_assoc]
    refine List.flatMap_congr fun w _ => ?_
    rw [show 32 = 8 * 4 from rfl, bitsOf_mul, List.flatMap_map]
    rfl
  have hcut := pieces_flatMap (bitsOf_length 4) (by decide) 1
    (ws.flatMap fun w => [28, 24, 20, 16, 12, 8, 4, 0].map (w.toNat >>> ·))
  rw [Nat.mul_one, ← hbits, pieces_one, List.map_map] at hcut
  rw [Sha256.hexText, hcut, List.map_map, List.map_flatMap]
  refine List.flatMap_congr fun w _ => ?_
  rw [hex8, List.map_map]
  refine List.map_congr_left fun shift _ => ?_
  simp only [Function.comp_apply, List.flatMap_singleton, ofBits_bitsOf]
  exact hexDigit_eq (Nat.mod_lt _ (by decide))

/-- Shorter than 2^61 bytes, every input is hashed as the standard says, in 64 lower case
digits, without an access out of bounds. -/
theorem sha256Hex_correct {input : Bytes} (h : input.length < 2 ^ 61) :
    Auth.sha256HexChecked input = some (Auth.sha256Hex input) ∧
      Auth.sha256Hex input = Sha256.hexText (Sha256.digest (bitsOfBytes input)) ∧
      (Auth.sha256Hex input).length = 64 := by
  have hdigest : Auth.sha256Hex input = Sha256.hexText (Sha256.digest (bitsOfBytes input)) := by
    rw [Sha256.digest, sha256Pad_blocks h, List.foldl_map, ← sha256Init_words,
      ← sha256Blocks_words (Nat.le_refl _),
      Auth.sha256Hex, ← hexText_words]
    rfl
  refine ⟨sha256HexChecked_eq input, hdigest, ?_⟩
  rw [hdigest, Sha256.hexText_length, Sha256.digest_length]

theorem sha256Hex_correct_abc :
    Auth.sha256HexChecked (bytes "abc") = some (Auth.sha256Hex (bytes "abc")) ∧
      Auth.sha256Hex (bytes "abc") = Sha256.hexText (Sha256.digest (bitsOfBytes (bytes "abc"))) ∧
      (Auth.sha256Hex (bytes "abc")).length = 64 :=
  sha256Hex_correct (by decide)

example : Auth.sha256Hex (bytes "abc") =
    bytes "ba7816bf8f01cfea414140de5dae2223b00361a396177a9cb410ff61f20015ad" := by
  decide +kernel

end HydrogenHttpd.Ref
