import HydrogenHttpd.Base.Lines

/-!
# Texts of characters, and their bytes

A script works on texts where the server works on bytes. A text here is its
list of characters, with the interpreter's notions of white space, of stripping
and of a line, each of which is wider than the C library's. `utf8` is what
writing a text to a file leaves there.

Below 128 a character and its byte are the same number, and everything above
is written in bytes above (`mem_utf8_iff`), so what looks for an ASCII character
among the characters and what looks for it among the bytes agree.
-/

namespace HydrogenHttpd.Base

abbrev Text := List Char

/-- The characters of a literal. -/
def text (s : String) : Text := s.toList

/-! ## White space and lines -/

/-- `c.isspace()`. -/
def textSpace (c : Char) : Bool :=
  let n := c.toNat
  (9 ≤ n && n ≤ 13) || (28 ≤ n && n ≤ 32) || n == 0x85 || n == 0xa0 || n == 0x1680 ||
    (0x2000 ≤ n && n ≤ 0x200a) || n == 0x2028 || n == 0x2029 || n == 0x202f || n == 0x205f ||
    n == 0x3000

/-- The characters that end a line for `splitlines`. -/
def lineBreak (c : Char) : Bool :=
  let n := c.toNat
  (10 ≤ n && n ≤ 13) || (28 ≤ n && n ≤ 30) || n == 0x85 || n == 0x2028 || n == 0x2029

/-- `s.strip()`. -/
def strip (s : Text) : Text := trimWith textSpace s

/-- `s.rstrip()`. -/
def rstrip (s : Text) : Text := s.rdropWhile textSpace

/-- A line of white space only. -/
def blank (s : Text) : Bool := s.all textSpace

/-- What reading a file in text mode makes of its line ends. -/
def universalNewlines : Text → Text
  | [] => []
  | '\r' :: '\n' :: cs => '\n' :: universalNewlines cs
  | c :: cs => (if c = '\r' then '\n' else c) :: universalNewlines cs

/-- `s.splitlines()`. -/
def splitlines : Text → List Text
  | [] => []
  | '\r' :: '\n' :: cs => [] :: splitlines cs
  | c :: cs =>
      if lineBreak c then [] :: splitlines cs
      else
        match splitlines cs with
        | [] => [[c]]
        | l :: ls => (c :: l) :: ls

/-- `"\n".join(lines)`. -/
def joinLines (ls : List Text) : Text := ['\n'].intercalate ls

theorem lineBreak_of_mem_splitlines {s l : Text} {c : Char} (hl : l ∈ splitlines s)
    (hc : c ∈ l) : lineBreak c = false := by
  fun_induction splitlines s generalizing l c with
  | case1 => cases hl
  | case2 cs ih =>
      rcases List.mem_cons.mp hl with rfl | hl
      · cases hc
      · exact ih hl hc
  | case3 d cs _ hd ih =>
      rcases List.mem_cons.mp hl with rfl | hl
      · cases hc
      · exact ih hl hc
  | case4 d cs _ hd _ =>
      obtain rfl := List.mem_singleton.mp hl
      obtain rfl := List.mem_singleton.mp hc
      simpa using hd
  | case5 d cs _ hd l' ls hls ih =>
      rw [hls] at ih
      rcases List.mem_cons.mp hl with rfl | hl
      · rcases List.mem_cons.mp hc with rfl | hc
        · simpa using hd
        · exact ih List.mem_cons_self hc
      · exact ih (List.mem_cons_of_mem _ hl) hc

theorem strip_eq_nil_iff {s : Text} : strip s = [] ↔ blank s = true := by
  rw [strip, trimWith_eq_nil_iff, blank, List.all_eq_true]

/-! ## Stripping joined lines -/

theorem joinLines_concat {ls : List Text} (hne : ls ≠ []) (l : Text) :
    joinLines (ls ++ [l]) = joinLines ls ++ '\n' :: l := by
  rw [joinLines, intercalate_append hne (by simp), List.intercalate_singleton]
  rfl

/-- Stripping the end of joined lines takes the blank lines there and the end of
the last one that is left. -/
theorem rstrip_joinLines_concat {ls : List Text} {l : Text} (hl : blank l = false) :
    rstrip (joinLines (ls ++ [l])) = joinLines (ls ++ [rstrip l]) := by
  have hall : ¬ l.all textSpace = true := Bool.not_eq_true _ ▸ hl
  cases hls : ls with
  | nil => simp [joinLines]
  | cons m ms =>
      rw [← hls, joinLines_concat (by simp [hls]), joinLines_concat (by simp [hls]), rstrip,
        rdropWhile_append, if_neg]
      · rw [show '\n' :: l = ['\n'] ++ l from rfl, rdropWhile_append, if_neg hall]
        rfl
      · simp only [List.all_cons, Bool.and_eq_true, not_and]
        exact fun _ => hall

theorem rstrip_joinLines_blank {ls : List Text} {l : Text} (hl : blank l = true) :
    rstrip (joinLines (ls ++ [l])) = rstrip (joinLines ls) := by
  cases hls : ls with
  | nil =>
      simp only [List.nil_append, joinLines, List.intercalate_singleton, rstrip]
      rw [List.rdropWhile_eq_nil_iff.mpr (by simpa [blank] using hl)]
      rfl
  | cons m ms =>
      rw [← hls, joinLines_concat (by simp [hls]), rstrip, rdropWhile_append, if_pos]
      · rfl
      · rw [List.all_cons, Bool.and_eq_true]
        exact ⟨by decide, hl⟩

/-- The lines whose joining is stripped at its end. -/
def stripEnd (ls : List Text) : List Text :=
  let kept := ls.rdropWhile blank
  kept.dropLast ++ (kept.getLast?.map rstrip).toList

theorem rstrip_joinLines (ls : List Text) : rstrip (joinLines ls) = joinLines (stripEnd ls) := by
  induction ls using List.reverseRecOn with
  | nil => rfl
  | append_singleton ls l ih =>
      rw [stripEnd, List.rdropWhile_concat]
      cases hl : blank l with
      | true => rw [rstrip_joinLines_blank hl, ih, if_pos rfl, stripEnd]
      | false =>
          rw [rstrip_joinLines_concat hl, if_neg (by simp)]
          simp

/-! ## Bytes -/

/-- The bytes a text is written in. -/
def utf8 (s : Text) : Bytes := s.flatMap String.utf8EncodeChar

@[simp] theorem utf8_nil : utf8 [] = [] := rfl

@[simp] theorem utf8_append (s t : Text) : utf8 (s ++ t) = utf8 s ++ utf8 t :=
  List.flatMap_append

theorem utf8EncodeChar_low {c : Char} (h : c.toNat < 128) :
    String.utf8EncodeChar c = [UInt8.ofNat c.toNat] := by
  have hle : c.val.toNat ≤ 0x7f := Nat.le_of_lt_succ h
  rw [String.utf8EncodeChar, if_pos hle]
  rfl

theorem utf8EncodeChar_high {c : Char} (h : 128 ≤ c.toNat) {b : UInt8}
    (hb : b ∈ String.utf8EncodeChar c) : 128 ≤ b.toNat := by
  have hgt : ¬ c.val.toNat ≤ 0x7f := Nat.not_le.mpr h
  rw [String.utf8EncodeChar, if_neg hgt] at hb
  split at hb
  · simp only [List.mem_cons, List.not_mem_nil, or_false] at hb
    rcases hb with rfl | rfl <;> rw [UInt8.toNat_ofNat'] <;> omega
  · split at hb
    · simp only [List.mem_cons, List.not_mem_nil, or_false] at hb
      rcases hb with rfl | rfl | rfl <;> rw [UInt8.toNat_ofNat'] <;> omega
    · simp only [List.mem_cons, List.not_mem_nil, or_false] at hb
      rcases hb with rfl | rfl | rfl | rfl <;> rw [UInt8.toNat_ofNat'] <;> omega

theorem byte_injective {c d : Char} (hc : c.toNat < 128) (hd : d.toNat < 128)
    (h : UInt8.ofNat c.toNat = UInt8.ofNat d.toNat) : c = d := by
  have hnat := congrArg UInt8.toNat h
  rw [UInt8.toNat_ofNat', UInt8.toNat_ofNat', Nat.mod_eq_of_lt (by omega),
    Nat.mod_eq_of_lt (by omega)] at hnat
  exact Char.toNat_inj.mp hnat

/-- An ASCII byte of a text is one of its characters. -/
theorem mem_utf8_iff {s : Text} {c : Char} (hc : c.toNat < 128) :
    UInt8.ofNat c.toNat ∈ utf8 s ↔ c ∈ s := by
  rw [utf8, List.mem_flatMap]
  constructor
  · rintro ⟨d, hd, hb⟩
    by_cases hlow : d.toNat < 128
    · rw [utf8EncodeChar_low hlow, List.mem_singleton] at hb
      exact byte_injective hc hlow hb ▸ hd
    · have hhigh := utf8EncodeChar_high (Nat.le_of_not_lt hlow) hb
      rw [UInt8.toNat_ofNat', Nat.mod_eq_of_lt (by omega)] at hhigh
      omega
  · intro h
    exact ⟨c, h, by rw [utf8EncodeChar_low hc]; exact List.mem_singleton_self _⟩

theorem utf8_eq_nil_iff {s : Text} : utf8 s = [] ↔ s = [] := by
  cases s with
  | nil => simp
  | cons c cs => simp [utf8]

/-- A text of ASCII characters only. -/
def ascii (s : Text) : Bool := s.all fun c => c.toNat < 128

theorem ascii_of_all {p : Char → Bool} (hp : ∀ c, p c = true → c.toNat < 128) {s : Text}
    (h : s.all p = true) : ascii s = true := by
  rw [ascii, List.all_eq_true]
  exact fun c hc => by simpa using hp c (List.all_eq_true.mp h c hc)

/-- What holds of each of the 128 characters holds of an ASCII character. -/
theorem forall_ascii {p : Char → Prop} (h : ∀ n < 128, p (Char.ofNat n)) {c : Char}
    (hc : c.toNat < 128) : p c := by
  rw [← Char.ofNat_toNat c]
  exact h c.toNat hc

theorem utf8_of_ascii {s : Text} (h : ascii s = true) :
    utf8 s = s.map fun c => UInt8.ofNat c.toNat := by
  induction s with
  | nil => rfl
  | cons c cs ih =>
      simp only [ascii, List.all_cons, Bool.and_eq_true, decide_eq_true_eq] at h
      rw [show c :: cs = [c] ++ cs from rfl, utf8_append, ih (by simpa [ascii] using h.2)]
      simp [utf8, utf8EncodeChar_low h.1]

/-- Literals are ASCII. -/
theorem utf8_text {s : String} (h : ascii (text s) = true) : utf8 (text s) = bytes s :=
  utf8_of_ascii h

theorem utf8_intercalate (sep : Text) (ls : List Text) :
    utf8 (sep.intercalate ls) = (utf8 sep).intercalate (ls.map utf8) := by
  induction ls with
  | nil => rfl
  | cons l ls ih =>
      cases ls with
      | nil => simp
      | cons m ms =>
          rw [List.intercalate_cons_cons, utf8_append, utf8_append, ih]
          simp [List.intercalate_cons_cons]

/-- What holds of the bytes of an ASCII class holds of every byte of a text in
that class. -/
theorem forall_mem_utf8 {p : Char → Bool} {q : UInt8 → Prop}
    (hlow : ∀ c, p c = true → c.toNat < 128)
    (h : ∀ n < 128, p (Char.ofNat n) = true → q (UInt8.ofNat n)) {s : Text}
    (hs : s.all p = true) : ∀ b ∈ utf8 s, q b := by
  rw [List.all_eq_true] at hs
  rw [utf8_of_ascii (ascii_of_all hlow (List.all_eq_true.mpr hs))]
  intro b hb
  obtain ⟨c, hc, rfl⟩ := List.mem_map.mp hb
  refine h _ (hlow c (hs c hc)) ?_
  rw [Char.ofNat_toNat]
  exact hs c hc

/-- The lines a file of joined lines is read in. -/
theorem getlines_joinLines {ls : List Text} (h : ∀ l ∈ ls, '\n' ∉ l) :
    getlines (utf8 (joinLines ls ++ ['\n'])) = (if ls = [] then [[]] else ls).map utf8 := by
  rw [utf8_append, show utf8 ['\n'] = [lf] by decide, getlines_append, joinLines,
    utf8_intercalate, show utf8 ['\n'] = [lf] by decide]
  cases hls : ls with
  | nil => rfl
  | cons l ls' =>
      rw [← hls, if_neg (by simp [hls]), List.splitOn_intercalate]
      · simp [getlines]
      · intro b hb
        obtain ⟨m, hm, rfl⟩ := List.mem_map.mp hb
        exact fun hmem => h m hm ((mem_utf8_iff (c := '\n') (by decide)).mp hmem)
      · simp [hls]

theorem utf8_injective_of_ascii {s t : Text} (hs : ascii s = true) (ht : ascii t = true)
    (h : utf8 s = utf8 t) : s = t := by
  induction s generalizing t with
  | nil => exact (utf8_eq_nil_iff.mp h.symm).symm
  | cons c cs ih =>
      cases t with
      | nil => exact utf8_eq_nil_iff.mp h
      | cons d ds =>
          rw [utf8_of_ascii hs, utf8_of_ascii ht, List.map_cons, List.map_cons] at h
          simp only [ascii, List.all_cons, Bool.and_eq_true, decide_eq_true_eq] at hs ht
          obtain ⟨hcd, htail⟩ := List.cons.inj h
          have hds : cs = ds := ih hs.2 ht.2 (by rwa [utf8_of_ascii hs.2, utf8_of_ascii ht.2])
          rw [byte_injective hs.1 ht.1 hcd, hds]

end HydrogenHttpd.Base
