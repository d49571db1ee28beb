import Mathlib

/-!
# Byte strings and the C library's view of them

A `std::string` is a list of bytes. This file fixes the few operations every
parser below is written in: the character classes of the C locale, trimming,
the search for a first occurrence, and white-space separated words.

Search is the one with any content. `find?` is stated for lists over any
type with decidable equality, and `find?_eq_some_iff` says what every caller
needs: the answer is the first position at which the pattern is a prefix of
what remains.
-/

namespace HydrogenHttpd.Base

abbrev Bytes := List UInt8

/-- The bytes of an ASCII literal. -/
def bytes (s : String) : Bytes := s.toList.map fun c => UInt8.ofNat c.toNat

def cr : UInt8 := 13
def lf : UInt8 := 10
def tab : UInt8 := 9
def space : UInt8 := 32
def quote : UInt8 := 34
def slash : UInt8 := 47
def dot : UInt8 := 46

/-- The line end of the wire formats. -/
def crlf : Bytes := [cr, lf]

/-- The empty line that closes a header section. -/
def crlf2 : Bytes := [cr, lf, cr, lf]

/-! ## Character classes of the C locale -/

def isSpace (c : UInt8) : Bool := c == 32 || (9 ≤ c && c ≤ 13)
def isDigit (c : UInt8) : Bool := 48 ≤ c && c ≤ 57
def isUpper (c : UInt8) : Bool := 65 ≤ c && c ≤ 90
def isLower (c : UInt8) : Bool := 97 ≤ c && c ≤ 122
def isAlnum (c : UInt8) : Bool := isDigit c || isUpper c || isLower c
def isXDigit (c : UInt8) : Bool :=
  isDigit c || (65 ≤ c && c ≤ 70) || (97 ≤ c && c ≤ 102)

/-- A space or a tab, the blanks of a header line. -/
def isBlank (c : UInt8) : Bool := c == space || c == tab

def toLower (c : UInt8) : UInt8 := if isUpper c then c + 32 else c

def lowercase (s : Bytes) : Bytes := s.map toLower

theorem toLower_idem (c : UInt8) : toLower (toLower c) = toLower c := by
  unfold toLower isUpper
  split
  · next h =>
      simp only [Bool.and_eq_true, decide_eq_true_eq, UInt8.le_iff_toNat_le] at h
      have h1 : (c + 32).toNat = c.toNat + 32 := by
        rw [UInt8.toNat_add]
        simp only [UInt8.reduceToNat] at h ⊢
        omega
      rw [if_neg]
      simp only [Bool.and_eq_true, decide_eq_true_eq, UInt8.le_iff_toNat_le, h1]
      simp only [UInt8.reduceToNat] at h ⊢
      omega
  · rfl

theorem lowercase_idem (s : Bytes) : lowercase (lowercase s) = lowercase s := by
  simp [lowercase, toLower_idem]

@[simp] theorem length_lowercase (s : Bytes) : (lowercase s).length = s.length := by
  simp [lowercase]

/-! ## Trimming -/

/-- Drop the elements satisfying `p` from both ends, front first. -/
def trimWith {α : Type} (p : α → Bool) (s : List α) : List α :=
  (s.dropWhile p).rdropWhile p

def trim (s : Bytes) : Bytes := trimWith isSpace s

theorem rdropWhile_of_getLast {α : Type} {p : α → Bool} {s : List α} {x : α}
    (hx : p x = false) : (s ++ [x]).rdropWhile p = s ++ [x] := by
  rw [List.rdropWhile_concat, if_neg (by simp [hx])]

/-- Trimming leaves alone what starts and ends outside the class. -/
theorem trimWith_eq_self {α : Type} {p : α → Bool} {s : List α} {x y : α}
    (hx : p x = false) (hy : p y = false) :
    trimWith p (x :: s ++ [y]) = x :: s ++ [y] := by
  rw [trimWith, List.cons_append, List.dropWhile_cons_of_neg (by simp [hx]),
    ← List.cons_append, rdropWhile_of_getLast hy]

theorem mem_of_mem_trimWith {α : Type} {p : α → Bool} {s : List α} {x : α}
    (h : x ∈ trimWith p s) : x ∈ s :=
  (List.dropWhile_sublist p).mem ((List.rdropWhile_prefix p _).sublist.mem h)

/-- Nothing outside of the class is trimmed away. -/
theorem mem_trimWith {α : Type} {p : α → Bool} {s : List α} {x : α} (hx : x ∈ s)
    (h : p x = false) : x ∈ trimWith p s := by
  have hdrop : ∀ l : List α, x ∈ l → x ∈ l.dropWhile p := by
    intro l hl
    rw [← List.takeWhile_append_dropWhile (p := p) (l := l)] at hl
    rcases List.mem_append.mp hl with htake | hrest
    · rw [List.mem_takeWhile_imp htake] at h
      cases h
    · exact hrest
  rw [trimWith, List.rdropWhile, List.mem_reverse]
  exact hdrop _ (List.mem_reverse.mpr (hdrop s hx))

theorem trimWith_eq_nil_iff {α : Type} {p : α → Bool} {s : List α} :
    trimWith p s = [] ↔ ∀ c ∈ s, p c = true := by
  rw [trimWith, List.rdropWhile_eq_nil_iff]
  constructor
  · intro h c hc
    rw [← List.takeWhile_append_dropWhile (p := p) (l := s)] at hc
    rcases List.mem_append.mp hc with hc | hc
    · exact List.mem_takeWhile_imp hc
    · exact h c hc
  · exact fun h c hc => h c ((List.dropWhile_sublist p).mem hc)

theorem rdropWhile_append {α : Type} (p : α → Bool) (u v : List α) :
    (u ++ v).rdropWhile p = if v.all p then u.rdropWhile p else u ++ v.rdropWhile p := by
  induction v using List.reverseRecOn with
  | nil => simp
  | append_singleton v x ih =>
      rw [← List.append_assoc, List.rdropWhile_concat, List.rdropWhile_concat]
      by_cases hx : p x = true
      · rw [if_pos hx, if_pos hx, ih]
        simp [hx]
      · rw [if_neg hx, if_neg hx, if_neg (by simp [hx]), List.append_assoc]

/-- What is outside of the class stays, with all that is in front of it. -/
theorem rdropWhile_behind {α : Type} {p : α → Bool} {u v : List α} {c : α} (hc : p c = false) :
    (u ++ c :: v).rdropWhile p = u ++ c :: v.rdropWhile p := by
  rw [rdropWhile_append, if_neg (by simp [hc]), ← List.singleton_append, rdropWhile_append]
  split
  · next hall =>
      rw [List.rdropWhile_singleton, if_neg (by simp [hc]), List.rdropWhile_eq_nil_iff.mpr]
      exact List.all_eq_true.mp hall
  · rfl

theorem dropWhile_rdropWhile {α : Type} (p : α → Bool) (s : List α) :
    (s.rdropWhile p).dropWhile p = (s.dropWhile p).rdropWhile p := by
  induction s with
  | nil => rfl
  | cons c s ih =>
      by_cases hc : p c = true
      · rw [List.dropWhile_cons_of_pos hc, ← ih, ← List.singleton_append, rdropWhile_append]
        split
        · next hall =>
            rw [List.rdropWhile_singleton, if_pos hc,
              List.rdropWhile_eq_nil_iff.mpr (List.all_eq_true.mp hall)]
        · rw [List.singleton_append, List.dropWhile_cons_of_pos hc]
      · have hstays : (c :: s).rdropWhile p = c :: s.rdropWhile p :=
          rdropWhile_behind (u := []) (by simpa using hc)
        rw [List.dropWhile_cons_of_neg hc, hstays, List.dropWhile_cons_of_neg hc]

theorem trimWith_dropWhile {α : Type} (p : α → Bool) (s : List α) :
    trimWith p (s.dropWhile p) = trimWith p s := by
  rw [trimWith, List.dropWhile_idempotent, trimWith]

theorem trimWith_rdropWhile {α : Type} (p : α → Bool) (s : List α) :
    trimWith p (s.rdropWhile p) = trimWith p s := by
  rw [trimWith, dropWhile_rdropWhile, List.rdropWhile_idempotent, trimWith]

/-- Trimming around something outside of the class trims what is on each side of it. -/
theorem trimWith_around {α : Type} {p : α → Bool} {u v : List α} {c : α} (hc : p c = false) :
    trimWith p (u ++ c :: v) = u.dropWhile p ++ c :: v.rdropWhile p := by
  have hfront : (u ++ c :: v).dropWhile p = u.dropWhile p ++ c :: v := by
    rw [List.dropWhile_append]
    split
    · next hnil =>
        rw [List.isEmpty_iff.mp hnil, List.dropWhile_cons_of_neg (by simp [hc])]
        rfl
    · rfl
  rw [trimWith, hfront, rdropWhile_behind hc]

/-- Trimming takes away what surrounds a text that starts and ends outside the
class. -/
theorem trimWith_surrounded {α : Type} {p : α → Bool} {l s r : List α}
    (hl : ∀ c ∈ l, p c = true) (hr : ∀ c ∈ r, p c = true)
    (hfirst : ∀ c, s.head? = some c → p c = false)
    (hlast : ∀ c, s.getLast? = some c → p c = false) : trimWith p (l ++ s ++ r) = s := by
  have hself : s.rdropWhile p = s := by
    rw [List.rdropWhile_eq_self_iff]
    intro hne hp
    rw [hlast _ (List.getLast?_eq_some_getLast hne)] at hp
    cases hp
  have hfront : (s ++ r).dropWhile p = s ++ r ∨ s = [] := by
    cases s with
    | nil => exact Or.inr rfl
    | cons c cs =>
        left
        rw [List.cons_append, List.dropWhile_cons_of_neg (by simp [hfirst c rfl])]
  rw [trimWith, List.append_assoc, List.dropWhile_append_of_pos hl]
  rcases hfront with hfront | rfl
  · rw [hfront, rdropWhile_append, if_pos (List.all_eq_true.mpr hr), hself]
  · rw [List.nil_append, List.dropWhile_eq_nil_iff.mpr hr]
    rfl

theorem trimWith_eq_self_of_ends {α : Type} {p : α → Bool} {s : List α}
    (hhead : ∀ c, s.head? = some c → p c = false)
    (hlast : ∀ c, s.getLast? = some c → p c = false) : trimWith p s = s := by
  have hdrop : s.dropWhile p = s := by
    cases s with
    | nil => rfl
    | cons c cs => rw [List.dropWhile_cons_of_neg (by simp [hhead c rfl])]
  rw [trimWith, hdrop, List.rdropWhile_eq_self_iff]
  intro hne
  simp [hlast _ (List.getLast?_eq_some_getLast hne)]

theorem rdropWhile_getLast? {α : Type} {p : α → Bool} {s : List α} {x : α}
    (h : (s.rdropWhile p).getLast? = some x) : p x = false := by
  have hne : s.rdropWhile p ≠ [] := by intro h0; rw [h0] at h; cases h
  have hlast := List.rdropWhile_last_not p s hne
  rw [List.getLast?_eq_some_getLast hne, Option.some.injEq] at h
  rw [← h]
  simpa using hlast

theorem trimWith_head? {α : Type} {p : α → Bool} {s : List α} {x : α}
    (h : (trimWith p s).head? = some x) : p x = false := by
  obtain ⟨t, ht⟩ := List.rdropWhile_prefix p (s.dropWhile p)
  have hd : (s.dropWhile p).head? = some x := by
    rw [← ht, List.head?_append]
    rw [trimWith] at h
    rw [h]
    rfl
  have hne : s.dropWhile p ≠ [] := by intro h0; rw [h0] at hd; cases hd
  have hneg := List.head_dropWhile_not p hne
  rw [List.head?_eq_some_head hne, Option.some.injEq] at hd
  rwa [hd] at hneg

/-! ## First occurrence -/

section Search

variable {α : Type} [DecidableEq α]

/-- `s.find(pat)`: the first position at which `pat` occurs. -/
def find? (pat : List α) : List α → Option Nat
  | [] => if pat = [] then some 0 else none
  | c :: cs =>
      if pat.isPrefixOf (c :: cs) then some 0
      else (find? pat cs).map (· + 1)

/-- `s.find(pat, start)`. -/
def findFrom (pat s : List α) (start : Nat) : Option Nat :=
  (find? pat (s.drop start)).map (· + start)

/-- `s.substr(pos, n)`. -/
def substr (s : List α) (pos n : Nat) : List α := (s.drop pos).take n

/-- The search answers the first position at which the pattern is a prefix of
what is left. -/
theorem find?_eq_some_iff {pat s : List α} {i : Nat} :
    find? pat s = some i ↔
      i ≤ s.length ∧ pat <+: s.drop i ∧ ∀ j < i, ¬ pat <+: s.drop j := by
  induction s generalizing i with
  | nil =>
      rw [find?]
      split
      · next h => subst h; simp; exact ⟨fun h => by simp [← h], fun h => h.1.symm⟩
      · next h => simp [h]
  | cons c cs ih =>
      rw [find?]
      split
      · next h =>
          have hp : pat <+: c :: cs := List.isPrefixOf_iff_prefix.mp h
          constructor
          · rintro ⟨⟩
            exact ⟨Nat.zero_le _, hp, fun j hj => absurd hj (Nat.not_lt_zero j)⟩
          · rintro ⟨-, -, hmin⟩
            cases i with
            | zero => rfl
            | succ i => exact absurd hp (hmin 0 (Nat.succ_pos i))
      · next h =>
          have hp : ¬ pat <+: c :: cs := fun h' => h (List.isPrefixOf_iff_prefix.mpr h')
          cases i with
          | zero => simp [hp]
          | succ i =>
              rw [Option.map_eq_some_iff]
              constructor
              · rintro ⟨k, hk, hki⟩
                obtain rfl : k = i := by omega
                obtain ⟨h1, h2, h3⟩ := ih.mp hk
                refine ⟨by simpa using h1, by simpa using h2, fun j hj => ?_⟩
                cases j with
                | zero => exact hp
                | succ j => simpa using h3 j (by omega)
              · rintro ⟨h1, h2, h3⟩
                refine ⟨i, ih.mpr ⟨by simpa using h1, by simpa using h2, fun j hj => ?_⟩, rfl⟩
                simpa using h3 (j + 1) (by omega)

theorem find?_eq_none_iff {pat s : List α} :
    find? pat s = none ↔ ∀ j ≤ s.length, ¬ pat <+: s.drop j := by
  constructor
  · intro h j hj hp
    by_contra _
    have hex : ∃ j, j ≤ s.length ∧ pat <+: s.drop j := ⟨j, hj, hp⟩
    have hfind := Nat.find_spec hex
    have hsome : find? pat s = some (Nat.find hex) :=
      (find?_eq_some_iff).mpr ⟨hfind.1, hfind.2, fun k hk hk' =>
        Nat.find_min hex hk ⟨by have := hfind.1; omega, hk'⟩⟩
    rw [h] at hsome
    cases hsome
  · intro h
    cases hf : find? pat s with
    | none => rfl
    | some i =>
        obtain ⟨h1, h2, -⟩ := (find?_eq_some_iff).mp hf
        exact absurd h2 (h i h1)

theorem find?_eq_none_iff_no_occurrence {pat s : List α} :
    find? pat s = none ↔ ¬ pat <:+: s := by
  rw [find?_eq_none_iff]
  constructor
  · rintro h ⟨u, v, rfl⟩
    refine h u.length (by simp) ?_
    rw [List.append_assoc, List.drop_left]
    exact List.prefix_append pat v
  · rintro h j - ⟨v, hv⟩
    refine h ⟨s.take j, v, ?_⟩
    rw [List.append_assoc, hv, List.take_append_drop]

/-- What the first occurrence splits a text into. -/
theorem find?_split {pat s : List α} {i : Nat} (h : find? pat s = some i) :
    s = s.take i ++ pat ++ s.drop (i + pat.length) := by
  obtain ⟨-, ⟨v, hv⟩, -⟩ := (find?_eq_some_iff).mp h
  have hd : s.drop (i + pat.length) = v := by
    rw [← List.drop_drop, ← hv, List.drop_left]
  rw [hd, List.append_assoc, hv, List.take_append_drop]

theorem find?_length_le {pat s : List α} {i : Nat} (h : find? pat s = some i) :
    i + pat.length ≤ s.length := by
  obtain ⟨h1, h2, -⟩ := (find?_eq_some_iff).mp h
  have := h2.length_le
  rw [List.length_drop] at this
  omega

/-- Text appended behind the first occurrence does not move it. -/
theorem find?_append {pat s : List α} {i : Nat} (h : find? pat s = some i)
    (t : List α) : find? pat (s ++ t) = some i := by
  obtain ⟨h1, h2, h3⟩ := (find?_eq_some_iff).mp h
  have hlen := find?_length_le h
  refine (find?_eq_some_iff).mpr ⟨by simp; omega, ?_, fun j hj hp => h3 j hj ?_⟩
  · rw [List.drop_append_of_le_length h1]
    exact h2.trans (List.prefix_append _ _)
  · rw [List.drop_append_of_le_length (by omega)] at hp
    exact List.prefix_of_prefix_length_le hp (List.prefix_append _ _)
      (by rw [List.length_drop]; omega)

/-- Nor does text cut off behind it. -/
theorem find?_take {pat s : List α} {i n : Nat} (h : find? pat s = some i)
    (hn : i + pat.length ≤ n) : find? pat (s.take n) = some i := by
  obtain ⟨h1, h2, h3⟩ := (find?_eq_some_iff).mp h
  have hlen := find?_length_le h
  refine (find?_eq_some_iff).mpr ⟨by rw [List.length_take]; omega, ?_, fun j hj hp => h3 j hj ?_⟩
  · rw [List.drop_take, List.prefix_take_iff]
    exact ⟨h2, by omega⟩
  · rw [List.drop_take, List.prefix_take_iff] at hp
    exact hp.1

/-- A single element is found where it first stands. -/
theorem find?_elem_append {c : α} {u : List α} (hu : c ∉ u) (v : List α) :
    find? [c] (u ++ c :: v) = some u.length := by
  refine (find?_eq_some_iff).mpr ⟨by simp, by simp, fun j hj hp => hu ?_⟩
  rw [List.drop_append_of_le_length (by omega), List.drop_eq_getElem_cons hj,
    List.cons_append, List.cons_prefix_cons] at hp
  exact hp.1 ▸ List.getElem_mem hj

theorem find?_elem_eq_none {c : α} {s : List α} : find? [c] s = none ↔ c ∉ s := by
  rw [find?_eq_none_iff_no_occurrence, List.singleton_infix_iff]

/-- `s.substr(0, s.find(c))` and what follows the found element. -/
theorem find?_elem_split {c : α} {s : List α} {i : Nat} (h : find? [c] s = some i) :
    c ∉ s.take i ∧ s = s.take i ++ c :: s.drop (i + 1) := by
  refine ⟨fun hmem => ?_, by simpa using find?_split h⟩
  obtain ⟨j, hj, hget⟩ := List.getElem_of_mem hmem
  rw [List.length_take] at hj
  refine ((find?_eq_some_iff).mp h).2.2 j (by omega) ?_
  rw [List.getElem_take] at hget
  rw [List.drop_eq_getElem_cons (by omega), hget]
  simp

/-- What stands in front of the first occurrence of an element, or everything. -/
theorem take_find_eq_takeWhile (c : α) (line : List α) :
    (match find? [c] line with
      | none => line
      | some i => line.take i) = line.takeWhile (· ≠ c) := by
  cases hfind : find? [c] line with
  | none =>
      refine (List.takeWhile_eq_self_iff.mpr fun d hd => ?_).symm
      have hnot : c ∉ line := (find?_elem_eq_none).mp hfind
      simp only [ne_eq, decide_eq_true_eq]
      exact fun h => hnot (h ▸ hd)
  | some i =>
      obtain ⟨hnot, hline⟩ := find?_elem_split hfind
      simp only []
      conv => rhs; rw [hline]
      rw [List.takeWhile_append_of_pos]
      · simp
      · intro d hd
        simp only [ne_eq, decide_eq_true_eq]
        exact fun h => hnot (h ▸ hd)

theorem not_mem_takeWhile_ne (c : α) (s : List α) : c ∉ s.takeWhile (· ≠ c) := fun h => by
  simpa using List.mem_takeWhile_imp h

/-- A text cut at the first occurrence of an element. -/
theorem span_ne {c : α} {u v : List α} (hu : c ∉ u) (hv : v = [] ∨ v.head? = some c) :
    (u ++ v).takeWhile (· ≠ c) = u ∧ (u ++ v).dropWhile (· ≠ c) = v := by
  have hfront : ∀ d ∈ u, decide (d ≠ c) = true := fun d hd => by
    simpa using ne_of_mem_of_not_mem hd hu
  rw [List.takeWhile_append_of_pos hfront, List.dropWhile_append_of_pos hfront]
  cases v with
  | nil => simp
  | cons d v =>
      have hd : d = c := by simpa using hv
      simp [hd]

theorem takeWhile_ne_append_cons (c : α) (u v : List α) :
    (u ++ c :: v).takeWhile (· ≠ c) = u.takeWhile (· ≠ c) := by
  induction u with
  | nil => simp
  | cons d u ih => rw [List.cons_append, List.takeWhile_cons, List.takeWhile_cons, ih]

theorem eq_span_of_mem {c : α} {s : List α} (h : c ∈ s) :
    s = s.takeWhile (· ≠ c) ++ ([c] ++ (s.dropWhile (· ≠ c)).drop 1) := by
  obtain ⟨u, v, hs, hu⟩ := List.eq_append_cons_of_mem h
  obtain ⟨htake, hdrop⟩ := span_ne (v := c :: v) hu (Or.inr rfl)
  rw [hs, htake, hdrop]
  rfl

/-- What stands behind the last occurrence of an element, or everything. -/
theorem rtakeWhile_ne_eq_iff {c : α} {s t : List α} :
    s.rtakeWhile (· ≠ c) = t ↔ c ∉ t ∧ (s = t ∨ ∃ u, s = u ++ c :: t) := by
  constructor
  · rintro rfl
    refine ⟨fun h => by simpa using List.mem_rtakeWhile_imp h, ?_⟩
    have hsplit := List.rdropWhile_append_rtakeWhile (p := (· ≠ c)) (l := s)
    by_cases hfront : s.rdropWhile (· ≠ c) = []
    · rw [hfront, List.nil_append] at hsplit
      exact Or.inl hsplit.symm
    · right
      have hlast := List.rdropWhile_last_not _ s hfront
      refine ⟨(s.rdropWhile (· ≠ c)).dropLast, ?_⟩
      conv => lhs; rw [← hsplit, ← List.dropLast_append_getLast hfront]
      simp only [ne_eq, decide_not, Bool.not_eq_true, Bool.not_eq_false',
        decide_eq_true_eq] at hlast
      simp [hlast]
  · rintro ⟨ht, rfl | ⟨u, rfl⟩⟩
    · exact List.rtakeWhile_eq_self_iff.mpr fun d hd => by
        simpa using ne_of_mem_of_not_mem hd ht
    · rw [List.rtakeWhile, List.reverse_append, List.reverse_cons, List.append_assoc,
        List.takeWhile_append_of_pos, List.singleton_append, List.takeWhile_cons_of_neg (by simp)]
      · simp
      · intro d hd
        simpa using ne_of_mem_of_not_mem (List.mem_reverse.mp hd) ht

omit [DecidableEq α] in
/-- A prefix without `c` ends before the first `c`. -/
theorem prefix_append_cons_iff {a : List α} {c : α} (hc : c ∉ a) (x y : List α) :
    a <+: x ++ c :: y ↔ a <+: x := by
  induction x generalizing a with
  | nil =>
      cases a with
      | nil => simp
      | cons d a =>
          refine iff_of_false (fun h => ?_) (by simp)
          rw [List.nil_append, List.cons_prefix_cons] at h
          exact hc (h.1 ▸ List.mem_cons_self)
  | cons d x ih =>
      cases a with
      | nil => simp
      | cons e a =>
          rw [List.cons_append, List.cons_prefix_cons, List.cons_prefix_cons,
            ih fun h => hc (List.mem_cons_of_mem _ h)]

/-- A pattern without `c` is found before a `c`, or else behind it. -/
theorem find?_beyond {a : List α} (hne : a ≠ []) {c : α} (hc : c ∉ a) (x y : List α) :
    find? a (x ++ c :: y) =
      match find? a x with
      | some i => some i
      | none => (find? a y).map (· + (x.length + 1)) := by
  induction x with
  | nil =>
      have hfirst : ¬ a.isPrefixOf (c :: y) = true := by
        rw [List.isPrefixOf_iff_prefix]
        exact fun h => hne (List.prefix_nil.mp ((prefix_append_cons_iff hc [] y).mp h))
      have hempty : find? a ([] : List α) = none := by rw [find?, if_neg hne]
      rw [List.nil_append, hempty, find?, if_neg hfirst]
      rfl
  | cons d x ih =>
      have hsame : a.isPrefixOf (d :: (x ++ c :: y)) = a.isPrefixOf (d :: x) := by
        rw [Bool.eq_iff_iff, List.isPrefixOf_iff_prefix, List.isPrefixOf_iff_prefix]
        exact prefix_append_cons_iff hc (d :: x) y
      rw [List.cons_append, find?, find?, hsame, ih]
      split
      · rfl
      · cases find? a x with
        | some i => rfl
        | none =>
            rw [Option.map_map]
            rfl

/-- A pattern `a ++ [q]` ends on the first `q` if `a` precedes it, or else it is
found behind. -/
theorem find?_closed {a x : List α} {q : α} (ha : q ∉ a) (hx : q ∉ x) (y : List α) :
    find? (a ++ [q]) (x ++ q :: y) =
      if a <:+ x then some (x.length - a.length)
      else (find? (a ++ [q]) y).map (· + (x.length + 1)) := by
  induction x with
  | nil =>
      have hfirst : (a ++ [q]).isPrefixOf (q :: y) = true ↔ a <:+ [] := by
        rw [List.isPrefixOf_iff_prefix, List.suffix_nil]
        constructor
        · rintro ⟨t, ht⟩
          cases a with
          | nil => rfl
          | cons d a => exact absurd (List.cons.inj ht).1 fun h => ha (h ▸ List.mem_cons_self)
        · rintro rfl
          simp
      rw [List.nil_append, find?]
      split
      · next h => rw [if_pos (hfirst.mp h), List.length_nil, Nat.zero_sub]
      · next h => rw [if_neg (hfirst.not.mp h)]; rfl
  | cons d x ih =>
      have hfirst : (a ++ [q]).isPrefixOf (d :: (x ++ q :: y)) = true ↔ a = d :: x := by
        rw [List.isPrefixOf_iff_prefix]
        constructor
        · rintro ⟨t, ht⟩
          rw [List.append_assoc, List.singleton_append, ← List.cons_append] at ht
          have hlen := find?_elem_append ha t
          rw [ht, find?_elem_append hx] at hlen
          exact (List.append_inj ht (Option.some.inj hlen).symm).1
        · rintro rfl
          exact ⟨y, by simp⟩
      rw [List.cons_append, find?]
      split
      · next h =>
          rw [if_pos (hfirst.mp h ▸ List.suffix_rfl), hfirst.mp h, Nat.sub_self]
      · next h =>
          rw [ih fun h => hx (List.mem_cons_of_mem _ h)]
          by_cases hax : a <:+ x
          · have hle := hax.length_le
            rw [if_pos hax, if_pos (hax.trans (List.suffix_cons d x)), Option.map_some,
              List.length_cons]
            congr 1
            omega
          · have hax' : ¬ a <:+ d :: x := by
              rw [List.suffix_cons_iff, not_or]
              exact ⟨hfirst.not.mp h, hax⟩
            rw [if_neg hax, if_neg hax', Option.map_map]
            rfl

/-- A pattern `a ++ [q]` is not found before a `q` that `a` does not precede:
the search goes on behind it. -/
theorem find?_skip {a x y : List α} {q : α} {i : Nat} (ha : q ∉ a) (hx : q ∉ x)
    (hax : ¬ a <:+ x) (hy : find? (a ++ [q]) y = some i) :
    find? (a ++ [q]) (x ++ q :: y) = some (i + (x.length + 1)) := by
  rw [find?_closed ha hx, if_neg hax, hy, Option.map_some]

end Search

/-! ## First elements -/

/-- No element has the property, or there is a first that does. -/
theorem find?_split_or_all {α : Type} (p : α → Bool) (l : List α) :
    (∀ x ∈ l, p x = false) ∨
      ∃ a x b, l = a ++ x :: b ∧ (∀ y ∈ a, p y = false) ∧ p x = true := by
  cases h : l.find? p with
  | none => exact Or.inl fun x hx => by simpa using List.find?_eq_none.mp h x hx
  | some x =>
      obtain ⟨hx, a, b, hl, ha⟩ := List.find?_eq_some_iff_append.mp h
      exact Or.inr ⟨a, x, b, hl, fun y hy => by simpa using ha y hy, hx⟩

/-! ## Line ends -/

/-- A line end does not overlap a text that holds none. -/
theorem find?_crlf_append {u : Bytes} (hu : ¬ crlf <:+: u) (v : Bytes) :
    find? crlf (u ++ (crlf ++ v)) = some u.length := by
  refine (find?_eq_some_iff).mpr ⟨by simp, by simp, fun j hj hp => ?_⟩
  rw [List.drop_append_of_le_length (by omega), List.drop_eq_getElem_cons hj] at hp
  cases hd : u.drop (j + 1) with
  | nil =>
      rw [hd] at hp
      simp only [crlf, List.cons_append, List.nil_append, List.cons_prefix_cons] at hp
      exact absurd hp.2.1 (by decide)
  | cons d ds =>
      rw [hd] at hp
      simp only [crlf, List.cons_append, List.cons_prefix_cons] at hp
      refine hu ⟨u.take j, ds, ?_⟩
      rw [crlf, hp.1, hp.2.1, List.append_assoc]
      simp only [List.cons_append, List.nil_append]
      rw [← hd, ← List.drop_eq_getElem_cons hj, List.take_append_drop]

/-! ## Words -/

/-- `stream >> word`: the next run of non-space bytes and what follows it. -/
def readWord (s : Bytes) : Bytes × Bytes :=
  let s := s.dropWhile isSpace
  (s.takeWhile (fun c => !isSpace c), s.dropWhile (fun c => !isSpace c))

end HydrogenHttpd.Base
