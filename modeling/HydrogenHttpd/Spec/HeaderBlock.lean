import HydrogenHttpd.Base.Lines

/-!
# Header sections as lists of lines

A header section is a request line, a list of header lines and an empty line,
each ended by CRLF. `HeaderBlock` is that reading with what makes it
unambiguous as fields: no line holds a CRLF and no header line is empty. The
parsers work on the text instead, with positions; `exists_block` says the two
views are the same, for every text that ends at its first empty line.
-/

namespace HydrogenHttpd.Spec

open Base

/-- The header lines of a section, each with its line end. -/
def joinFields (fields : List Bytes) : Bytes := fields.flatMap (· ++ crlf)

structure HeaderBlock where
  first : Bytes
  fields : List Bytes
  first_crlf : ¬ crlf <:+: first
  fields_crlf : ∀ f ∈ fields, f ≠ [] ∧ ¬ crlf <:+: f

/-- The section as it stands on the wire. -/
def HeaderBlock.render (b : HeaderBlock) : Bytes :=
  b.first ++ crlf ++ joinFields b.fields ++ crlf

/-- The text ends at its first empty line. -/
def EndsAtBlank (h : Bytes) : Prop := find? crlf2 h = some (h.length - 4)

instance (h : Bytes) : Decidable (EndsAtBlank h) := inferInstanceAs (Decidable (_ = _))

/-- The request line of a section, read off its text. -/
def firstLineOf (h : Bytes) : Bytes := (splitCrlf (h.take (h.length - 4))).headD []

/-- The header lines of a section, read off its text. -/
def fieldsOf (h : Bytes) : List Bytes := (splitCrlf (h.take (h.length - 4))).tail

@[simp] theorem joinFields_nil : joinFields [] = [] := rfl

@[simp] theorem joinFields_cons (f : Bytes) (fs : List Bytes) :
    joinFields (f :: fs) = f ++ crlf ++ joinFields fs := rfl

theorem intercalate_append_crlf (l : Bytes) (ls : List Bytes) :
    crlf.intercalate (l :: ls) ++ crlf = l ++ crlf ++ joinFields ls := by
  induction ls generalizing l with
  | nil => simp
  | cons m ms ih => rw [List.intercalate_cons_cons, List.append_assoc, ih]; simp

theorem crlf2_eq : crlf2 = crlf ++ crlf := rfl

/-- Where an empty line stands among the pieces, the text holds CRLFCRLF. -/
theorem crlf2_at_empty (first : Bytes) (pre post : List Bytes) (v : Bytes) :
    ∃ i, i + 4 ≤ (first ++ crlf ++ joinFields (pre ++ [] :: post)).length ∧
      crlf2 <+: (first ++ crlf ++ joinFields (pre ++ [] :: post) ++ v).drop i := by
  have hsplit : ∃ u, first ++ crlf ++ joinFields pre = u ++ crlf := by
    rcases List.eq_nil_or_concat pre with rfl | ⟨init, last, rfl⟩
    · exact ⟨first, by simp⟩
    · exact ⟨first ++ crlf ++ joinFields init ++ last, by simp [joinFields]⟩
  obtain ⟨u, hu⟩ := hsplit
  have htext : first ++ crlf ++ joinFields (pre ++ [] :: post)
      = u ++ (crlf2 ++ joinFields post) := by
    rw [joinFields, List.flatMap_append, ← joinFields, List.flatMap_cons, ← joinFields,
      ← List.append_assoc, hu, crlf2_eq]
    simp
  refine ⟨u.length, ?_, ?_⟩
  · rw [htext]
    simp [crlf2]
  · rw [htext, List.append_assoc, List.drop_left, List.append_assoc]
    exact List.prefix_append _ _

/-- A text that ends at its first empty line is a header block, with the
lines `firstLineOf` and `fieldsOf` read. -/
theorem exists_block {h : Bytes} (hend : EndsAtBlank h) :
    ∃ b : HeaderBlock, b.render = h ∧ b.first = firstLineOf h ∧ b.fields = fieldsOf h := by
  have hle := find?_length_le hend
  have hlen : h.length - 4 + 4 = h.length := by
    rw [show crlf2.length = 4 from rfl] at hle
    omega
  obtain ⟨g, hg⟩ : ∃ g, h = g ++ crlf2 := by
    refine ⟨h.take (h.length - 4), ?_⟩
    have := find?_split hend
    rwa [show h.length - 4 + crlf2.length = h.length from hlen, List.drop_length,
      List.append_nil] at this
  have htake : h.take (h.length - 4) = g := by
    rw [hg]
    simp [crlf2]
  cases hs : splitCrlf g with
  | nil => exact absurd hs (splitCrlf_ne_nil g)
  | cons first fields =>
      have hjoin : h = first ++ crlf ++ joinFields fields ++ crlf := by
        rw [← intercalate_append_crlf, ← hs, intercalate_splitCrlf, hg, crlf2_eq,
          List.append_assoc]
      have hmem : ∀ l ∈ first :: fields, ¬ crlf <:+: l := fun l hl =>
        not_crlf_infix_of_mem_splitCrlf (hs ▸ hl)
      have hne : ∀ f ∈ fields, f ≠ [] := by
        rintro f hf rfl
        obtain ⟨pre, post, rfl⟩ := List.append_of_mem hf
        obtain ⟨i, hi, hpre⟩ := crlf2_at_empty first pre post crlf
        have hmin := (find?_eq_some_iff.mp hend).2.2 i
        rw [← hjoin] at hpre
        refine hmin ?_ hpre
        rw [hjoin, List.length_append, show crlf.length = 2 from rfl]
        omega
      refine ⟨⟨first, fields, hmem first (by simp), fun f hf =>
        ⟨hne f hf, hmem f (by simp [hf])⟩⟩, hjoin.symm, ?_, ?_⟩
      · rw [firstLineOf, htake, hs]
        rfl
      · rw [fieldsOf, htake, hs]
        rfl

/-- A line end is the one behind the line, or stands behind that. -/
theorem crlf_behind_line {u v : Bytes} (hu : ¬ crlf <:+: u) {j : Nat}
    (h : crlf <+: (u ++ (crlf ++ v)).drop j) : j = u.length ∨ u.length + 2 ≤ j := by
  have hfirst := (find?_eq_some_iff.mp (find?_crlf_append hu v)).2.2 j
  by_contra hno
  obtain rfl : j = u.length + 1 := by
    by_contra hne
    exact hfirst (by omega) h
  rw [← List.drop_drop, List.drop_left] at h
  simp [crlf, cr, lf] at h

/-- A line in front of a text that begins with another one does not hold the
empty line. -/
theorem find_crlf2_behind {u v : Bytes} (hu : ¬ crlf <:+: u) (hv : ¬ crlf <+: v) {i : Nat}
    (h : find? crlf2 v = some i) : find? crlf2 (u ++ (crlf ++ v)) = some (u.length + 2 + i) := by
  have hbehind : ∀ k, (u ++ (crlf ++ v)).drop (u.length + 2 + k) = v.drop k := by
    intro k
    rw [← List.append_assoc, show u.length + 2 + k = (u ++ crlf).length + k by simp [crlf],
      ← List.drop_drop, List.drop_left]
  obtain ⟨hle, hhere, hfirst⟩ := find?_eq_some_iff.mp h
  refine find?_eq_some_iff.mpr ⟨by simp [crlf]; omega, by rwa [hbehind], fun j hj hp => ?_⟩
  have hcrlf : crlf <+: crlf2 := by decide
  rcases crlf_behind_line hu (hcrlf.trans hp) with rfl | hlate
  · rw [List.drop_left, crlf2_eq] at hp
    exact hv ((List.prefix_append_right_inj crlf).mp hp)
  · obtain ⟨k, rfl⟩ : ∃ k, j = u.length + 2 + k := ⟨j - (u.length + 2), by omega⟩
    rw [hbehind] at hp
    exact hfirst k (by omega) hp

/-- The first empty line of a header block is the one that ends it. -/
theorem HeaderBlock.endsAtBlank (b : HeaderBlock) : EndsAtBlank b.render := by
  have hlines : ∀ (fields : List Bytes) (first : Bytes), ¬ crlf <:+: first →
      (∀ f ∈ fields, f ≠ [] ∧ ¬ crlf <:+: f) →
      find? crlf2 (first ++ (crlf ++ (joinFields fields ++ crlf))) =
        some (first.length + (joinFields fields).length) := by
    intro fields
    induction fields with
    | nil =>
        intro first hfirst _
        refine find?_eq_some_iff.mpr ⟨by simp, ?_, fun j hj hp => ?_⟩
        · rw [joinFields_nil, List.length_nil, Nat.add_zero, List.drop_left]
          exact List.prefix_refl _
        · have hcrlf : crlf <+: crlf2 := by decide
          rw [joinFields_nil, List.length_nil, Nat.add_zero] at hj
          rcases crlf_behind_line hfirst (hcrlf.trans hp) with h | h <;> omega
    | cons f fs ih =>
        intro first hfirst hfields
        obtain ⟨hne, hcrlf⟩ := hfields f List.mem_cons_self
        have hrest := ih f hcrlf fun g hg => hfields g (List.mem_cons_of_mem f hg)
        have hnext : ¬ crlf <+: f ++ (crlf ++ (joinFields fs ++ crlf)) := by
          intro hp
          rcases crlf_behind_line (j := 0) hcrlf hp with h | h
          · exact hne (List.length_eq_zero_iff.mp h.symm)
          · omega
        have hall := find_crlf2_behind hfirst hnext hrest
        rw [joinFields_cons, List.append_assoc, List.append_assoc, hall]
        simp only [List.length_append, show crlf.length = 2 from rfl]
        congr 1
        omega
  have hrender : b.render = b.first ++ (crlf ++ (joinFields b.fields ++ crlf)) := by
    simp [HeaderBlock.render]
  rw [EndsAtBlank, hrender, hlines b.fields b.first b.first_crlf b.fields_crlf]
  simp only [List.length_append, show crlf.length = 2 from rfl]
  congr 1
  omega

/-- The lines of a section are read off its text. -/
theorem joinFields_injective {fields fields' : List Bytes}
    (hfields : ∀ f ∈ fields, f ≠ [] ∧ ¬ crlf <:+: f)
    (hfields' : ∀ f ∈ fields', f ≠ [] ∧ ¬ crlf <:+: f)
    (h : joinFields fields = joinFields fields') : fields = fields' := by
  induction fields generalizing fields' with
  | nil =>
      cases fields' with
      | nil => rfl
      | cons f fs => simp [crlf] at h
  | cons f fs ih =>
      cases fields' with
      | nil => simp [crlf] at h
      | cons g gs =>
          simp only [joinFields_cons, List.append_assoc] at h
          have hf := find?_crlf_append (hfields f List.mem_cons_self).2 (joinFields fs)
          have hg := find?_crlf_append (hfields' g List.mem_cons_self).2 (joinFields gs)
          rw [h, hg] at hf
          obtain ⟨rfl, hrest⟩ := List.append_inj h (Option.some.inj hf).symm
          rw [ih (fun x hx => hfields x (List.mem_cons_of_mem _ hx))
            (fun x hx => hfields' x (List.mem_cons_of_mem _ hx)) (List.append_cancel_left hrest)]

theorem HeaderBlock.fieldsOf_render (b : HeaderBlock) : fieldsOf b.render = b.fields := by
  obtain ⟨b', hrender, -, hfields⟩ := exists_block b.endsAtBlank
  have hfirst : b'.first.length = b.first.length := by
    have h := find?_crlf_append b.first_crlf (joinFields b.fields ++ crlf)
    have h' := find?_crlf_append b'.first_crlf (joinFields b'.fields ++ crlf)
    simp only [HeaderBlock.render, List.append_assoc] at hrender
    rw [hrender, h] at h'
    exact (Option.some.inj h').symm
  simp only [HeaderBlock.render, List.append_assoc] at hrender
  have hjoin := List.append_cancel_left (List.append_inj hrender hfirst).2
  rw [← hfields, joinFields_injective b'.fields_crlf b.fields_crlf
    (List.append_cancel_right hjoin)]

end HydrogenHttpd.Spec
