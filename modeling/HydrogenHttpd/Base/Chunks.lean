import Mathlib

/-!
# Cutting a list into chunks

`List.toChunks n` comes with no lemmas. What a reader of the chunks needs is
that they are not empty, no longer than `n`, and put together the list again.
-/

namespace HydrogenHttpd.Base

variable {α : Type}

/-- The loop of `toChunks`: `chunk` is the one being filled, `chunks` are full. -/
theorem toChunks_go {n : Nat} (xs : List α) (chunk : Array α) (chunks : Array (List α))
    (hpos : 0 < chunk.size) (hle : chunk.size ≤ n) :
    (List.toChunks.go n xs chunk chunks).flatten = chunks.toList.flatten ++ chunk.toList ++ xs ∧
      ∀ c ∈ List.toChunks.go n xs chunk chunks, c ∈ chunks.toList ∨
        1 ≤ c.length ∧ c.length ≤ n := by
  induction xs generalizing chunk chunks with
  | nil =>
      rw [List.toChunks.go]
      refine ⟨by simp, fun c hc => ?_⟩
      simp only [Array.toList_push, List.mem_append, List.mem_singleton] at hc
      rcases hc with hc | hc
      · exact Or.inl hc
      · right
        rw [hc, Array.length_toList]
        omega
  | cons x xs ih =>
      rw [List.toChunks.go]
      split
      · next hfull =>
          obtain ⟨hflatten, hchunks⟩ := ih ((Array.mkEmpty n).push x)
            (chunks.push chunk.toList) (by simp) (by simp; omega)
          refine ⟨by rw [hflatten]; simp, fun c hc => ?_⟩
          rcases hchunks c hc with hold | hnew
          · simp only [Array.toList_push, List.mem_append, List.mem_singleton] at hold
            rcases hold with hold | hold
            · exact Or.inl hold
            · right
              rw [hold, Array.length_toList]
              omega
          · exact Or.inr hnew
      · next hroom =>
          simp only [beq_iff_eq] at hroom
          obtain ⟨hflatten, hchunks⟩ := ih (chunk.push x) chunks (by simp)
            (by simp; omega)
          exact ⟨by rw [hflatten]; simp, hchunks⟩

/-- The chunks are not empty, not too long, and make up the list. -/
theorem toChunks_spec {n : Nat} (hn : 0 < n) (xs : List α) :
    (xs.toChunks n).flatten = xs ∧ ∀ c ∈ xs.toChunks n, 1 ≤ c.length ∧ c.length ≤ n := by
  cases xs with
  | nil =>
      rw [List.toChunks]
      simp
  | cons x xs =>
      obtain ⟨m, rfl⟩ : ∃ m, n = m + 1 := ⟨n - 1, by omega⟩
      obtain ⟨hflatten, hchunks⟩ := toChunks_go (n := m + 1) xs #[x] #[] (by simp) (by simp)
      rw [List.toChunks]
      · refine ⟨by rw [hflatten]; simp, fun c hc => ?_⟩
        rcases hchunks c hc with hc | hc
        · simp at hc
        · exact hc
      · simp

end HydrogenHttpd.Base
