import HydrogenHttpd.Base.Bytes

/-!
# Cutting a text into lines

Two ways of doing it, for the two kinds of reader. `getlines` is what
repeated `std::getline` delivers: the text between line feeds, with no line
at all behind a final one. `splitCrlf` cuts at CRLF and keeps every piece, the
empty one behind a final CRLF included, so that joining the pieces gives the
text back.

Both cut without looking back: what stands before a separator never changes
how the text after it is cut (`getlines_append`, `splitCrlf_append`).
-/

namespace HydrogenHttpd.Base

/-! ## `std::getline` -/

/-- The lines `std::getline` yields, one call after another, until it fails. -/
def getlines : Bytes → List Bytes
  | [] => []
  | c :: cs =>
      if c = lf then [] :: getlines cs
      else
        match getlines cs with
        | [] => [[c]]
        | l :: ls => (c :: l) :: ls

theorem getlines_line {u : Bytes} (hu : lf ∉ u) (v : Bytes) :
    getlines (u ++ lf :: v) = u :: getlines v := by
  induction u with
  | nil => simp [getlines]
  | cons c cs ih =>
      have hc : c ≠ lf := fun h => hu (by simp [h])
      rw [List.cons_append, getlines, if_neg hc, ih (fun h => hu (by simp [h]))]

theorem getlines_last {u : Bytes} (hu : lf ∉ u) (hne : u ≠ []) : getlines u = [u] := by
  induction u with
  | nil => exact absurd rfl hne
  | cons c cs ih =>
      have hc : c ≠ lf := fun h => hu (by simp [h])
      rw [getlines, if_neg hc]
      cases cs with
      | nil => rfl
      | cons d ds => rw [ih (fun h => hu (by simp [h])) (by simp)]

/-- A text closed by a line feed yields its pieces, and then the lines of what
follows. -/
theorem getlines_append (u v : Bytes) :
    getlines (u ++ lf :: v) = u.splitOn lf ++ getlines v := by
  induction u with
  | nil => simp [getlines, List.splitOn_nil]
  | cons c cs ih =>
      rw [List.cons_append, getlines, List.splitOn_eq_splitOnP,
        List.splitOnP_cons_eq_if_modifyHead]
      by_cases hc : c = lf
      · rw [if_pos hc, if_pos (by simpa using hc), ih, List.splitOn_eq_splitOnP]
        rfl
      · rw [if_neg hc, if_neg (by simpa using hc), ih, ← List.splitOn_eq_splitOnP]
        cases hs : cs.splitOn lf with
        | nil => exact absurd hs (List.splitOn_ne_nil lf cs)
        | cons l ls => rfl

theorem getlines_ne_nil {u : Bytes} (hu : u ≠ []) : getlines u ≠ [] := by
  cases u with
  | nil => exact absurd rfl hu
  | cons c cs =>
      rw [getlines]
      split
      · simp
      · split <;> simp

/-- A byte that is no line feed goes to the end of the last piece. -/
theorem splitOn_lf_concat {x : UInt8} (hx : x ≠ lf) (u : Bytes) :
    ∃ init last, u.splitOn lf = init ++ [last] ∧
      (u ++ [x]).splitOn lf = init ++ [last ++ [x]] := by
  induction u with
  | nil => exact ⟨[], [], by simp [List.splitOn_nil], by
      simp [List.splitOn_eq_splitOnP, List.splitOnP_cons_eq_if_modifyHead, hx]⟩
  | cons c cs ih =>
      obtain ⟨init, last, h1, h2⟩ := ih
      rw [List.splitOn_eq_splitOnP] at h1 h2
      rw [List.cons_append, List.splitOn_eq_splitOnP, List.splitOn_eq_splitOnP,
        List.splitOnP_cons_eq_if_modifyHead, List.splitOnP_cons_eq_if_modifyHead, h1, h2]
      by_cases hc : c = lf
      · rw [if_pos (by simpa using hc), if_pos (by simpa using hc)]
        exact ⟨[] :: init, last, rfl, rfl⟩
      · rw [if_neg (by simpa using hc), if_neg (by simpa using hc)]
        cases init with
        | nil => exact ⟨[], c :: last, rfl, rfl⟩
        | cons l ls => exact ⟨(c :: l) :: ls, last, rfl, rfl⟩

theorem getlines_crlf {u : Bytes} (hu : lf ∉ u) (v : Bytes) :
    getlines (u ++ crlf ++ v) = (u ++ [cr]) :: getlines v := by
  rw [show u ++ crlf ++ v = u ++ [cr] ++ lf :: v by simp [crlf]]
  exact getlines_line (by simp [hu, show lf ≠ cr by decide]) v

/-! ## The size of joined lines -/

/-- The bytes of some lines, each with its line feed. -/
def lineBytes (ls : List Bytes) : Nat := (ls.map (·.length + 1)).sum

@[simp] theorem lineBytes_nil : lineBytes [] = 0 := rfl

@[simp] theorem lineBytes_cons (l : Bytes) (ls : List Bytes) :
    lineBytes (l :: ls) = l.length + 1 + lineBytes ls := rfl

@[simp] theorem lineBytes_append (ls ms : List Bytes) :
    lineBytes (ls ++ ms) = lineBytes ls + lineBytes ms := by
  simp [lineBytes]

theorem length_intercalate_lf {ls : List Bytes} (h : ls ≠ []) :
    ([lf].intercalate ls).length + 1 = lineBytes ls := by
  induction ls with
  | nil => exact absurd rfl h
  | cons l ls ih =>
      cases ls with
      | nil => simp
      | cons m ms =>
          rw [List.intercalate_cons_cons, lineBytes_cons, ← ih (by simp)]
          simp only [List.length_append, List.length_singleton]
          omega

theorem lineBytes_splitOn (u : Bytes) : lineBytes (u.splitOn lf) = u.length + 1 := by
  rw [← length_intercalate_lf (List.splitOn_ne_nil lf u), List.intercalate_splitOn]

/-! ## Cutting at CRLF -/

/-- The pieces of a text between its CRLFs. -/
def splitCrlf : Bytes → List Bytes
  | [] => [[]]
  | [c] => [[c]]
  | c :: d :: rest =>
      if c = cr ∧ d = lf then [] :: splitCrlf rest
      else (splitCrlf (d :: rest)).modifyHead (c :: ·)

theorem splitCrlf_ne_nil (s : Bytes) : splitCrlf s ≠ [] := by
  fun_induction splitCrlf s with
  | case1 => simp
  | case2 => simp
  | case3 => simp
  | case4 c d rest _ ih =>
      cases h : splitCrlf (d :: rest) with
      | nil => exact absurd h ih
      | cons => simp

/-- Joining the pieces gives the text back. -/
theorem intercalate_splitCrlf (s : Bytes) : crlf.intercalate (splitCrlf s) = s := by
  fun_induction splitCrlf s with
  | case1 => rfl
  | case2 c => simp
  | case3 c d rest h ih =>
      obtain ⟨rfl, rfl⟩ := h
      cases hs : splitCrlf rest with
      | nil => exact absurd hs (splitCrlf_ne_nil rest)
      | cons l ls =>
          rw [hs] at ih
          rw [List.intercalate_cons_cons, ih]
          rfl
  | case4 c d rest _ ih =>
      cases hs : splitCrlf (d :: rest) with
      | nil => exact absurd hs (splitCrlf_ne_nil _)
      | cons l ls =>
          rw [hs] at ih
          rw [List.modifyHead_cons]
          cases ls with
          | nil => simpa using ih
          | cons m ms =>
              rw [List.intercalate_cons_cons] at ih ⊢
              rw [List.cons_append, List.cons_append, ih]

/-- A CRLF always separates: no cut before it changes the cuts after it. -/
theorem splitCrlf_append (u v : Bytes) :
    splitCrlf (u ++ crlf ++ v) = splitCrlf u ++ splitCrlf v := by
  fun_induction splitCrlf u with
  | case1 => rfl
  | case2 c =>
      show splitCrlf (c :: cr :: lf :: v) = [c] :: splitCrlf v
      rw [splitCrlf, if_neg (fun h => absurd h.2 (by decide)), splitCrlf,
        if_pos ⟨rfl, rfl⟩, List.modifyHead_cons]
  | case3 c d rest h ih =>
      show splitCrlf (c :: d :: (rest ++ crlf ++ v)) = _
      rw [splitCrlf, if_pos h, ih]
      rfl
  | case4 c d rest h ih =>
      show splitCrlf (c :: d :: (rest ++ crlf ++ v)) = _
      rw [splitCrlf, if_neg h, show d :: (rest ++ crlf ++ v) = d :: rest ++ crlf ++ v from rfl,
        ih]
      cases hs : splitCrlf (d :: rest) with
      | nil => exact absurd hs (splitCrlf_ne_nil _)
      | cons l ls => rfl

theorem splitCrlf_of_not_mem {u : Bytes} (hu : cr ∉ u) : splitCrlf u = [u] := by
  fun_induction splitCrlf u with
  | case1 => rfl
  | case2 c => rfl
  | case3 c d rest h => exact absurd (by simp [h.1]) hu
  | case4 c d rest h ih => rw [ih (fun h => hu (by simp [h])), List.modifyHead_cons]

theorem intercalate_append {α : Type} {sep : List α} {xs ys : List (List α)} (hxs : xs ≠ [])
    (hys : ys ≠ []) :
    sep.intercalate (xs ++ ys) = sep.intercalate xs ++ (sep ++ sep.intercalate ys) := by
  induction xs with
  | nil => exact absurd rfl hxs
  | cons x xs ih =>
      cases xs with
      | nil =>
          cases ys with
          | nil => exact absurd rfl hys
          | cons y ys => simp [List.intercalate_cons_cons]
      | cons z zs =>
          rw [List.cons_append, List.cons_append, List.intercalate_cons_cons,
            List.intercalate_cons_cons, ← List.cons_append, ih (by simp)]
          simp

theorem mem_intercalate {α : Type} {sep : List α} {ls : List (List α)} {b : α}
    (h : b ∈ sep.intercalate ls) : b ∈ sep ∨ ∃ l ∈ ls, b ∈ l := by
  induction ls with
  | nil => simp at h
  | cons l ls ih =>
      cases ls with
      | nil => exact Or.inr ⟨l, List.mem_cons_self, by simpa using h⟩
      | cons m ms =>
          rw [List.intercalate_cons_cons, List.mem_append, List.mem_append] at h
          rcases h with (h | h) | h
          · exact Or.inr ⟨l, List.mem_cons_self, h⟩
          · exact Or.inl h
          · exact (ih h).imp_right fun ⟨k, hk, hb⟩ => ⟨k, List.mem_cons_of_mem _ hk, hb⟩

theorem mem_intercalate_of_mem {α : Type} (sep : List α) {ls : List (List α)} {l : List α}
    (h : l ∈ ls) {b : α} (hb : b ∈ l) : b ∈ sep.intercalate ls := by
  induction ls with
  | nil => cases h
  | cons m ms ih =>
      rcases List.mem_cons.mp h with rfl | h
      · cases ms <;> simp [hb]
      · rw [List.intercalate_cons_of_ne_nil (List.ne_nil_of_mem h), List.mem_append]
        exact Or.inr (ih h)

theorem splitCrlf_of_no_lf {u : Bytes} (hu : lf ∉ u) : splitCrlf u = [u] := by
  fun_induction splitCrlf u with
  | case1 => rfl
  | case2 c => rfl
  | case3 c d rest h => exact absurd (by simp [h.2]) hu
  | case4 c d rest h ih => rw [ih (fun h => hu (by simp [h])), List.modifyHead_cons]

/-- Lines joined by CRLF are the pieces of the text. -/
theorem splitCrlf_intercalate {ls : List Bytes} (hne : ls ≠ []) (hls : ∀ l ∈ ls, lf ∉ l) :
    splitCrlf (crlf.intercalate ls) = ls := by
  induction ls with
  | nil => exact absurd rfl hne
  | cons l ls ih =>
      have hl := splitCrlf_of_no_lf (hls l List.mem_cons_self)
      cases ls with
      | nil => rw [List.intercalate_singleton, hl]
      | cons m ms =>
          rw [List.intercalate_cons_cons, splitCrlf_append, hl,
            ih (by simp) fun k hk => hls k (List.mem_cons_of_mem _ hk), List.singleton_append]

theorem splitCrlf_cons {c : UInt8} (hc : c ≠ cr) (s : Bytes) :
    splitCrlf (c :: s) = (splitCrlf s).modifyHead (c :: ·) := by
  cases s with
  | nil => rfl
  | cons d rest => rw [splitCrlf, if_neg fun h => hc h.1]

/-- What holds no carriage return stands in the first piece as a whole. -/
theorem splitCrlf_head_front {d : Bytes} (hd : cr ∉ d) (v : Bytes) :
    ∃ l, (splitCrlf (d ++ v)).head? = some l ∧ d <+: l := by
  induction d with
  | nil =>
      cases hv : splitCrlf v with
      | nil => exact absurd hv (splitCrlf_ne_nil v)
      | cons l ls => exact ⟨l, by simp [hv], List.nil_prefix⟩
  | cons c d ih =>
      obtain ⟨l, hl, hpre⟩ := ih fun h => hd (List.mem_cons_of_mem _ h)
      have hc : c ≠ cr := fun h => hd (h ▸ List.mem_cons_self)
      refine ⟨c :: l, ?_, List.cons_prefix_cons.mpr ⟨rfl, hpre⟩⟩
      rw [List.cons_append, splitCrlf_cons hc, List.head?_modifyHead, hl]
      rfl

/-- A CRLF inside `x` ends a piece of `x`, and another one follows it there. -/
theorem splitCrlf_inside {x u rest v : Bytes} (h : x ++ crlf ++ rest = u ++ crlf ++ v)
    (hlt : u.length < x.length) :
    ∃ l ∈ (splitCrlf x).tail, (splitCrlf v).head? = some l := by
  have hpieces : splitCrlf x ++ splitCrlf rest = splitCrlf u ++ splitCrlf v := by
    rw [← splitCrlf_append, h, splitCrlf_append]
  rcases List.append_eq_append_iff.mp hpieces with ⟨more, hu, -⟩ | ⟨more, hx, hv⟩
  · -- the pieces of `u` begin with those of `x`, which makes `u` the longer text
    have hlong : x.length ≤ u.length := by
      have hxtext := intercalate_splitCrlf x
      have hutext := intercalate_splitCrlf u
      rw [hu] at hutext
      cases more with
      | nil =>
          rw [List.append_nil, hxtext] at hutext
          rw [hutext]
      | cons m ms =>
          rw [intercalate_append (splitCrlf_ne_nil x) (by simp), hxtext] at hutext
          rw [← hutext]
          simp
    omega
  · cases more with
    | nil =>
        have hxtext := intercalate_splitCrlf x
        rw [hx, List.append_nil, intercalate_splitCrlf u] at hxtext
        rw [hxtext] at hlt
        omega
    | cons l more =>
        refine ⟨l, ?_, by rw [hv]; rfl⟩
        rw [hx, List.tail_append_of_ne_nil (splitCrlf_ne_nil u)]
        simp

/-- Where the search for a CRLF and what is behind it stops: `pat` marks the
pieces it stands at the front of, and none of those in `x` is marked. -/
theorem find?_crlf_piece {pat : Bytes} (marked : Bytes → Prop)
    (hpat : ∀ v, ∃ l, (splitCrlf (pat ++ v)).head? = some l ∧ marked l) {x : Bytes}
    (hx : ∀ l ∈ (splitCrlf x).tail, ¬ marked l) (rest : Bytes) :
    find? (crlf ++ pat) (x ++ crlf ++ (pat ++ rest)) = some x.length := by
  refine find?_eq_some_iff.mpr ⟨by simp, ?_, ?_⟩
  · rw [List.append_assoc, List.drop_left, ← List.append_assoc]
    exact List.prefix_append _ rest
  · rintro j hj ⟨v, hv⟩
    have htext : x ++ crlf ++ (pat ++ rest) =
        (x ++ crlf ++ (pat ++ rest)).take j ++ crlf ++ (pat ++ v) := by
      conv => lhs; rw [← List.take_append_drop j (x ++ crlf ++ (pat ++ rest)), ← hv]
      simp
    obtain ⟨l, hl, hhead⟩ := splitCrlf_inside htext (by simp; omega)
    obtain ⟨m, hm, hmarked⟩ := hpat v
    rw [hm] at hhead
    exact hx l hl (Option.some.inj hhead ▸ hmarked)

/-- No piece holds a CRLF. -/
theorem not_crlf_infix_of_mem_splitCrlf {s l : Bytes} (h : l ∈ splitCrlf s) :
    ¬ crlf <:+: l := by
  fun_induction splitCrlf s generalizing l with
  | case1 => simp at h; subst h; decide
  | case2 c =>
      simp only [List.mem_singleton] at h
      subst h
      exact fun h => absurd h.length_le (by simp [crlf])
  | case3 c d rest hcd ih =>
      rcases List.mem_cons.mp h with rfl | h
      · decide
      · exact ih h
  | case4 c d rest hcd ih =>
      cases hs : splitCrlf (d :: rest) with
      | nil => exact absurd hs (splitCrlf_ne_nil _)
      | cons m ms =>
          rw [hs, List.modifyHead_cons] at h
          rcases List.mem_cons.mp h with rfl | h
          · intro hin
            rcases List.infix_cons_iff.mp hin with hpre | hin
            · -- the piece starts with CRLF only where the text does
              have htext : m <+: d :: rest := by
                have hj := intercalate_splitCrlf (d :: rest)
                rw [hs] at hj
                cases ms with
                | nil => rw [List.intercalate_singleton] at hj; rw [← hj]
                | cons k ks =>
                    rw [List.intercalate_cons_cons] at hj
                    exact ⟨_, by rw [← hj, List.append_assoc]⟩
              rw [crlf, List.cons_prefix_cons] at hpre
              obtain ⟨t, ht⟩ := hpre.2.trans htext
              exact hcd ⟨hpre.1.symm, (List.cons.inj ht).1.symm⟩
            · exact ih (by rw [hs]; simp) hin
          · exact ih (by rw [hs]; simp [h])

end HydrogenHttpd.Base
