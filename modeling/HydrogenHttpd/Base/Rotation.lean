import Mathlib

/-!
# Rotated records

A record of entries kept in files: one that grows, and behind it the files it
was rotated into, the youngest first. An entry that does not fit any more
starts a new file, and of the old ones only the youngest stay. Entries have a
size; what they are does not matter.

Rotating never reorders, repeats or drops an entry by itself. What is lost is
lost by whole files, the oldest first, so what is kept is always the end of
everything that was recorded (`KeepsEnd`).
-/

namespace HydrogenHttpd.Base

variable {α : Type*}

structure Rotated (α : Type*) where
  current : List α := []
  /-- The youngest first. -/
  backups : List (List α) := []

namespace Rotated

/-- The files, the oldest first. -/
def files (r : Rotated α) : List (List α) := r.backups.reverse ++ [r.current]

/-- Everything kept, the oldest first. -/
def kept (r : Rotated α) : List α := r.files.flatten

section Record

variable (size : α → Nat) (limit keep : Nat)

/-- One more entry. -/
def record (r : Rotated α) (x : α) : Rotated α :=
  if (r.current.map size).sum + size x ≤ limit then { r with current := r.current ++ [x] }
  else { current := [x], backups := (r.current :: r.backups).take keep }

/-- A file is within the limit, or a single entry makes it up. -/
def Fits (file : List α) : Prop := (file.map size).sum ≤ limit ∨ ∃ x, file = [x]

/-- What a rotated record keeps of everything recorded in it. -/
structure KeepsEnd (entries : List α) (r : Rotated α) : Prop where
  /-- What is gone went by whole files, and the rest is there in order. -/
  cut : ∃ gone : List (List α), entries = gone.flatten ++ r.kept ∧
    ∀ file ∈ gone, Fits size limit file
  fits : ∀ file ∈ r.files, Fits size limit file
  backups : r.backups.length ≤ keep
  last : entries.getLast? = r.current.getLast?

variable {size limit keep}

theorem keepsEnd_empty : KeepsEnd size limit keep [] ({} : Rotated α) where
  cut := ⟨[], rfl, nofun⟩
  fits := by
    intro file hfile
    rw [List.mem_singleton.mp hfile]
    exact Or.inl (Nat.zero_le _)
  backups := Nat.zero_le _
  last := rfl

theorem keepsEnd_record {entries : List α} {r : Rotated α}
    (h : KeepsEnd size limit keep entries r) (x : α) :
    KeepsEnd size limit keep (entries ++ [x]) (r.record size limit keep x) := by
  obtain ⟨gone, hcut, hgone⟩ := h.cut
  rw [record]
  split
  · next hroom =>
      refine ⟨⟨gone, ?_, hgone⟩, ?_, h.backups, by simp⟩
      · rw [hcut]
        simp [kept, files]
      · intro file hfile
        rcases List.mem_append.mp hfile with hold | hnew
        · exact h.fits file (List.mem_append_left _ hold)
        · rw [List.mem_singleton.mp hnew]
          left
          simpa using hroom
  · next hfull =>
      -- the files beyond the last backup go, the oldest of them first
      have hsplit : r.files = ((r.current :: r.backups).drop keep).reverse ++
          ((r.current :: r.backups).take keep).reverse := by
        rw [← List.reverse_append, List.take_append_drop, List.reverse_cons]
        rfl
      refine ⟨⟨gone ++ ((r.current :: r.backups).drop keep).reverse, ?_, ?_⟩, ?_, ?_, by simp⟩
      · rw [hcut, kept, hsplit]
        simp [kept, files]
      · intro file hfile
        rcases List.mem_append.mp hfile with hold | hnew
        · exact hgone file hold
        · exact h.fits file (by rw [hsplit]; exact List.mem_append_left _ hnew)
      · intro file hfile
        rcases List.mem_append.mp hfile with hold | hnew
        · exact h.fits file (by rw [hsplit]; exact List.mem_append_right _ hold)
        · rw [List.mem_singleton.mp hnew]
          exact Or.inr ⟨x, rfl⟩
      · exact List.length_take_le _ _

/-- Whatever is recorded, the end of it is kept. -/
theorem keepsEnd_run (size : α → Nat) (limit keep : Nat) (entries : List α) :
    KeepsEnd size limit keep entries (entries.foldl (record size limit keep) {}) := by
  induction entries using List.reverseRecOn with
  | nil => exact keepsEnd_empty
  | append_singleton entries x ih =>
      rw [List.foldl_append]
      exact keepsEnd_record ih x

end Record

end Rotated

end HydrogenHttpd.Base
