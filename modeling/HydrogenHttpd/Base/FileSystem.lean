import Mathlib

/-!
# A file system with open files

Names lead to files, and a file has its content whether or not a name leads to
it: what is open stays, under another name or none. `create` opens for writing
and truncates, `remove` takes the name away. An operation under one name, or on
the file a name leads to, is seen under that name alone (`create_entry_ne` and
the lemmas like it), as long as no two names lead to one file (`Linked`).
-/

namespace HydrogenHttpd.Base

/-- Names, and the contents of the files they lead to. Files are numbered. -/
structure FileSystem (π α : Type) where
  names : π → Option Nat
  contents : Nat → List α
  /-- No file has this number or a greater one. -/
  fresh : Nat

namespace FileSystem

variable {π α : Type}

/-- What is seen under a name: the file and its content. -/
def entry (fs : FileSystem π α) (name : π) : Option (Nat × List α) :=
  (fs.names name).map fun file => (file, fs.contents file)

/-- At most `n` elements from `pos` on. -/
def read (fs : FileSystem π α) (file pos n : Nat) : List α :=
  ((fs.contents file).drop pos).take n

/-- No two names lead to one file. -/
structure Linked (fs : FileSystem π α) : Prop where
  lt : ∀ name file, fs.names name = some file → file < fs.fresh
  inj : ∀ name name' file, fs.names name = some file → fs.names name' = some file → name = name'

variable {fs : FileSystem π α} {name name' : π} {file pos : Nat} {content data : List α}

theorem entry_eq_some :
    fs.entry name = some (file, content) ↔
      fs.names name = some file ∧ fs.contents file = content := by
  rw [entry, Option.map_eq_some_iff]
  constructor
  · rintro ⟨file', hname, heq⟩
    cases heq
    exact ⟨hname, rfl⟩
  · rintro ⟨hname, rfl⟩
    exact ⟨file, hname, rfl⟩

/-- The content of a file is seen under the name that leads to it. -/
theorem entry_congr {fs' : FileSystem π α} (hname : fs'.names name = fs.names name)
    (hcontent : ∀ file, fs.names name = some file → fs'.contents file = fs.contents file) :
    fs'.entry name = fs.entry name := by
  rw [entry, entry, hname]
  cases h : fs.names name with
  | none => rfl
  | some file => rw [Option.map_some, Option.map_some, hcontent file h]

/-! ## Contents -/

section Contents

variable [Inhabited α]

/-- The content with `data` written at `pos`. Behind the end there is a gap first. -/
def overwrite (content : List α) (pos : Nat) (data : List α) : List α :=
  (content.take pos ++ List.replicate (pos - content.length) default) ++ data ++
    content.drop (pos + data.length)

def write (fs : FileSystem π α) (file pos : Nat) (data : List α) : FileSystem π α :=
  { fs with
    contents := Function.update fs.contents file (overwrite (fs.contents file) pos data) }

theorem overwrite_end (content data : List α) :
    overwrite content content.length data = content ++ data := by
  rw [overwrite, List.take_length, Nat.sub_self, List.replicate_zero, List.append_nil,
    List.drop_eq_nil_of_le (Nat.le_add_right _ _), List.append_nil]

/-- A write at the end appends. -/
theorem write_entry (h : fs.entry name = some (file, content)) :
    (fs.write file content.length data).entry name = some (file, content ++ data) := by
  obtain ⟨hname, hcontent⟩ := entry_eq_some.mp h
  refine entry_eq_some.mpr ⟨hname, ?_⟩
  rw [write]
  simp only [Function.update_self]
  rw [hcontent, overwrite_end]

theorem write_entry_ne (h : fs.Linked) (hfile : fs.names name = some file) (hne : name' ≠ name) :
    (fs.write file pos data).entry name' = fs.entry name' := by
  refine entry_congr rfl fun file' hfile' => Function.update_of_ne ?_ _ _
  rintro rfl
  exact hne (h.inj _ _ _ hfile' hfile)

theorem write_linked (h : fs.Linked) (file pos : Nat) (data : List α) :
    (fs.write file pos data).Linked :=
  ⟨h.lt, h.inj⟩

end Contents

/-! ## Names -/

section Names

variable [DecidableEq π]

/-- Open for writing: a file that exists is truncated, any other is made. -/
def create (fs : FileSystem π α) (name : π) : Nat × FileSystem π α :=
  match fs.names name with
  | some file => (file, { fs with contents := Function.update fs.contents file [] })
  | none =>
      (fs.fresh,
        { names := Function.update fs.names name (some fs.fresh)
          contents := Function.update fs.contents fs.fresh []
          fresh := fs.fresh + 1 })

def remove (fs : FileSystem π α) (name : π) : FileSystem π α :=
  { fs with names := Function.update fs.names name none }

/-- What `create` opens is empty. -/
theorem create_entry (fs : FileSystem π α) (name : π) :
    (fs.create name).2.entry name = some ((fs.create name).1, []) := by
  rw [create]
  split
  · next file hfile => exact entry_eq_some.mpr ⟨hfile, Function.update_self ..⟩
  · exact entry_eq_some.mpr ⟨Function.update_self .., Function.update_self ..⟩

theorem create_entry_ne (h : fs.Linked) (hne : name' ≠ name) :
    (fs.create name).2.entry name' = fs.entry name' := by
  rw [create]
  split
  · next file hfile =>
      refine entry_congr rfl fun file' hfile' => Function.update_of_ne ?_ _ _
      rintro rfl
      exact hne (h.inj _ _ _ hfile' hfile)
  · refine entry_congr (Function.update_of_ne hne _ _) fun file' hfile' =>
      Function.update_of_ne ?_ _ _
    exact Nat.ne_of_lt (h.lt _ _ hfile')

/-- The names behind `create`. -/
theorem create_names_cases {file : Nat} (h : (fs.create name).2.names name' = some file) :
    fs.names name' = some file ∨ fs.names name = none ∧ name' = name ∧ file = fs.fresh := by
  rw [create] at h
  split at h
  · exact Or.inl h
  · next hnone =>
      simp only at h
      by_cases hname : name' = name
      · subst hname
        rw [Function.update_self] at h
        cases h
        exact Or.inr ⟨hnone, rfl, rfl⟩
      · rw [Function.update_of_ne hname] at h
        exact Or.inl h

theorem create_fresh (fs : FileSystem π α) (name : π) : fs.fresh ≤ (fs.create name).2.fresh ∧
    (fs.names name = none → fs.fresh < (fs.create name).2.fresh) := by
  rw [create]
  split
  · next file hfile => exact ⟨Nat.le_refl _, fun h => by rw [hfile] at h; cases h⟩
  · exact ⟨Nat.le_succ _, fun _ => Nat.lt_succ_self _⟩

theorem create_linked (h : fs.Linked) (name : π) : (fs.create name).2.Linked where
  lt a file ha := by
    rcases create_names_cases ha with hold | ⟨hnone, -, rfl⟩
    · exact Nat.lt_of_lt_of_le (h.lt _ _ hold) (create_fresh fs name).1
    · exact (create_fresh fs name).2 hnone
  inj a b file ha hb := by
    rcases create_names_cases ha with hold | ⟨-, hname, hfile⟩
    · rcases create_names_cases hb with hold' | ⟨-, -, rfl⟩
      · exact h.inj _ _ _ hold hold'
      · exact absurd (h.lt _ _ hold) (Nat.lt_irrefl _)
    · rcases create_names_cases hb with hold' | ⟨-, hname', -⟩
      · rw [hfile] at hold'
        exact absurd (h.lt _ _ hold') (Nat.lt_irrefl _)
      · rw [hname, hname']

theorem remove_entry_ne (hne : name' ≠ name) : (fs.remove name).entry name' = fs.entry name' :=
  entry_congr (Function.update_of_ne hne _ _) fun _ _ => rfl

theorem remove_linked (h : fs.Linked) (name : π) : (fs.remove name).Linked := by
  have hkept : ∀ a file, (fs.remove name).names a = some file → fs.names a = some file := by
    intro a file ha
    simp only [remove] at ha
    by_cases hname : a = name
    · subst hname
      rw [Function.update_self] at ha
      cases ha
    · rwa [Function.update_of_ne hname] at ha
  exact ⟨fun a file ha => h.lt _ _ (hkept a file ha),
    fun a b file ha hb => h.inj _ _ _ (hkept a file ha) (hkept b file hb)⟩

end Names

end FileSystem

end HydrogenHttpd.Base
