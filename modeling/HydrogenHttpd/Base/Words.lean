import HydrogenHttpd.Base.Bytes

/-!
# The words of a text

`readWord` is one extraction from a stream. What the extractions yield together
are the pieces between the white space of the text, without the empty ones.
White space around the text makes no difference.
-/

namespace HydrogenHttpd.Base

/-- The pieces of a text between its white space. -/
def wordsOf (s : Bytes) : List Bytes := (s.splitOnP isSpace).filter fun word => !word.isEmpty

@[simp] theorem wordsOf_nil : wordsOf [] = [] := by
  simp [wordsOf]

theorem wordsOf_space {c : UInt8} (hc : isSpace c = true) (s : Bytes) :
    wordsOf (c :: s) = wordsOf s := by
  rw [wordsOf, List.splitOnP_cons_eq_if_modifyHead, if_pos hc]
  simp [wordsOf]

theorem wordsOf_dropWhile (s : Bytes) : wordsOf (s.dropWhile isSpace) = wordsOf s := by
  induction s with
  | nil => rfl
  | cons c cs ih =>
      cases hc : isSpace c with
      | true => rw [List.dropWhile_cons_of_pos hc, ih, wordsOf_space hc]
      | false => rw [List.dropWhile_cons_of_neg (by simp [hc])]

theorem splitOnP_concat_space {c : UInt8} (hc : isSpace c = true) (s : Bytes) :
    (s ++ [c]).splitOnP isSpace = s.splitOnP isSpace ++ [[]] := by
  induction s with
  | nil => simp [List.splitOnP_cons_eq_if_modifyHead, hc]
  | cons d ds ih =>
      rw [List.cons_append, List.splitOnP_cons_eq_if_modifyHead,
        List.splitOnP_cons_eq_if_modifyHead, ih]
      split
      · rfl
      · cases hs : ds.splitOnP isSpace with
        | nil => exact absurd hs (List.splitOnP_ne_nil _ _)
        | cons l ls => rfl

theorem wordsOf_rdropWhile (s : Bytes) : wordsOf (s.rdropWhile isSpace) = wordsOf s := by
  induction s using List.reverseRecOn with
  | nil => rfl
  | append_singleton s c ih =>
      by_cases hc : isSpace c = true
      · rw [List.rdropWhile_concat_pos _ _ _ hc, ih, wordsOf, wordsOf, splitOnP_concat_space hc]
        simp
      · rw [List.rdropWhile_concat_neg _ _ _ hc]

theorem wordsOf_trim (s : Bytes) : wordsOf (trim s) = wordsOf s := by
  rw [trim, trimWith, wordsOf_rdropWhile, wordsOf_dropWhile]

/-- A word in front of white space, or of nothing. -/
theorem splitOnP_word {w : Bytes} (hw : ∀ c ∈ w, isSpace c = false) (s : Bytes) :
    (w ++ s).splitOnP isSpace = (s.splitOnP isSpace).modifyHead (w ++ ·) := by
  induction w with
  | nil =>
      rw [List.nil_append]
      cases s.splitOnP isSpace with
      | nil => rfl
      | cons l ls => rfl
  | cons c w ih =>
      rw [List.cons_append, List.splitOnP_cons_eq_if_modifyHead,
        if_neg (by simp [hw c List.mem_cons_self]), ih fun d hd => hw d (List.mem_cons_of_mem _ hd),
        List.modifyHead_modifyHead]
      rfl

theorem wordsOf_word {w s : Bytes} (hne : w ≠ []) (hw : ∀ c ∈ w, isSpace c = false)
    (hs : ∀ c ∈ s.head?, isSpace c = true) : wordsOf (w ++ s) = w :: wordsOf s := by
  rw [wordsOf, splitOnP_word hw]
  cases s with
  | nil => simp [hne]
  | cons c cs =>
      have hc := hs c rfl
      rw [wordsOf_space hc, List.splitOnP_cons_eq_if_modifyHead, if_pos hc]
      simp [hne, wordsOf]

/-- One extraction: no word where there is none, else the first one. -/
theorem wordsOf_readWord (s : Bytes) :
    wordsOf s =
      if (readWord s).1 = [] then [] else (readWord s).1 :: wordsOf (readWord s).2 := by
  have hsplit : s.dropWhile isSpace = (readWord s).1 ++ (readWord s).2 := by
    rw [readWord]
    exact List.takeWhile_append_dropWhile.symm
  rw [← wordsOf_dropWhile s]
  split
  · next hnone =>
      have hempty : s.dropWhile isSpace = [] := by
        rw [readWord] at hnone
        cases hrest : s.dropWhile isSpace with
        | nil => rfl
        | cons c cs =>
            have hc := List.head_dropWhile_not isSpace (l := s) (by simp [hrest])
            simp only [hrest, List.head_cons] at hc
            simp [hrest, hc] at hnone
      rw [hempty, wordsOf_nil]
  · next hsome =>
      rw [hsplit]
      refine wordsOf_word hsome ?_ ?_
      · intro c hc
        have hmem := List.mem_takeWhile_imp (show c ∈ List.takeWhile _ _ from hc)
        simpa using hmem
      · intro c hc
        rw [readWord] at hc
        have hdrop := List.head?_dropWhile_not (fun c => !isSpace c) (s.dropWhile isSpace)
        simp only [] at hc
        rw [Option.mem_def.mp hc] at hdrop
        simpa using hdrop

theorem not_space_of_mem_splitOnP {s w : Bytes} (h : w ∈ s.splitOnP isSpace) :
    ∀ c ∈ w, isSpace c = false := by
  induction s generalizing w with
  | nil =>
      rw [List.splitOnP_nil, List.mem_singleton] at h
      simp [h]
  | cons d ds ih =>
      rw [List.splitOnP_cons_eq_if_modifyHead] at h
      split at h
      · rcases List.mem_cons.mp h with rfl | h
        · simp
        · exact ih h
      · next hd =>
          cases hs : ds.splitOnP isSpace with
          | nil => exact absurd hs (List.splitOnP_ne_nil _ _)
          | cons l ls =>
              rw [hs, List.modifyHead_cons] at h
              rcases List.mem_cons.mp h with rfl | h
              · intro c hc
                rcases List.mem_cons.mp hc with rfl | hc
                · simpa using hd
                · exact ih (hs ▸ List.mem_cons_self) c hc
              · exact ih (hs ▸ List.mem_cons_of_mem _ h)

/-- What is not white space is in one of the words, and the words are in the text. -/
theorem mem_words_iff {s : Bytes} {c : UInt8} :
    (∃ w ∈ wordsOf s, c ∈ w) ↔ c ∈ s ∧ isSpace c = false := by
  have hpieces : (∃ w ∈ s.splitOnP isSpace, c ∈ w) ↔ c ∈ s ∧ isSpace c = false := by
    induction s with
    | nil => simp
    | cons d ds ih =>
        rw [List.splitOnP_cons_eq_if_modifyHead, List.mem_cons]
        split
        · next hd =>
            rw [List.exists_mem_cons_iff, ih]
            constructor
            · rintro (hno | ⟨hc, hspace⟩)
              · cases hno
              · exact ⟨Or.inr hc, hspace⟩
            · rintro ⟨rfl | hc, hspace⟩
              · rw [hd] at hspace
                cases hspace
              · exact Or.inr ⟨hc, hspace⟩
        · next hd =>
            cases hs : ds.splitOnP isSpace with
            | nil => exact absurd hs (List.splitOnP_ne_nil _ _)
            | cons l ls =>
                rw [hs, List.exists_mem_cons_iff] at ih
                rw [List.modifyHead_cons, List.exists_mem_cons_iff, List.mem_cons, or_assoc, ih]
                constructor
                · rintro (rfl | ⟨hc, hspace⟩)
                  · exact ⟨Or.inl rfl, by simpa using hd⟩
                  · exact ⟨Or.inr hc, hspace⟩
                · rintro ⟨rfl | hc, hspace⟩
                  · exact Or.inl rfl
                  · exact Or.inr ⟨hc, hspace⟩
  rw [← hpieces, wordsOf]
  constructor
  · rintro ⟨w, hw, hc⟩
    exact ⟨w, List.mem_of_mem_filter hw, hc⟩
  · rintro ⟨w, hw, hc⟩
    exact ⟨w, List.mem_filter.mpr ⟨hw, by cases w <;> simp_all⟩, hc⟩

theorem mem_wordsOf {s w : Bytes} (h : w ∈ wordsOf s) :
    w ≠ [] ∧ ∀ c ∈ w, isSpace c = false := by
  rw [wordsOf, List.mem_filter] at h
  exact ⟨by simpa using h.2, not_space_of_mem_splitOnP h.1⟩

/-- The words fit into the text, each with a byte behind it but the last. -/
theorem length_wordsOf_le (s : Bytes) :
    ((wordsOf s).map fun w => w.length + 1).sum ≤ s.length + 1 := by
  have hpieces : ((s.splitOnP isSpace).map fun w => w.length + 1).sum = s.length + 1 := by
    induction s with
    | nil => simp
    | cons d ds ih =>
        rw [List.splitOnP_cons_eq_if_modifyHead]
        split
        · simp only [List.map_cons, List.sum_cons, List.length_nil, List.length_cons, ih]
          omega
        · cases hs : ds.splitOnP isSpace with
          | nil => exact absurd hs (List.splitOnP_ne_nil _ _)
          | cons l ls =>
              rw [hs, List.map_cons, List.sum_cons] at ih
              simp only [List.modifyHead_cons, List.map_cons, List.sum_cons, List.length_cons]
              omega
  rw [← hpieces, wordsOf]
  exact (List.filter_sublist.map _).sum_le_sum fun _ _ => Nat.zero_le _

end HydrogenHttpd.Base
