import HydrogenHttpd.Base.Lines

/-!
# POSIX paths as their components

`std::filesystem::path` compares, joins and relativizes paths by the
components its iterator yields, so a path here is that sequence: whether it
starts at the root, and its names. A trailing slash is an empty last name, as
it is for the iterator. `ofBytes` reads the text of a path and `toBytes`
writes it in its generic form.
-/

namespace HydrogenHttpd.Base

structure Path where
  absolute : Bool := false
  names : List Bytes := []
  deriving DecidableEq, Repr

namespace Path

/-- `fs::path(text)`. -/
def ofBytes (text : Bytes) : Path :=
  let names := (text.splitOn slash).filter fun name => !name.isEmpty
  { absolute := text.head? == some slash
    names :=
      if text.getLast? = some slash ∧ names ≠ [] then names ++ [[]] else names }

/-- `path.string()`. -/
def toBytes (p : Path) : Bytes :=
  (if p.absolute then [slash] else []) ++ [slash].intercalate p.names

/-- `path.empty()`. -/
def isEmpty (p : Path) : Bool := !p.absolute && p.names.isEmpty

/-- What iterating over the path yields, the root directory first. -/
def parts (p : Path) : List Bytes := (if p.absolute then [[slash]] else []) ++ p.names

/-- `operator/`. -/
def append (p q : Path) : Path :=
  let base := if p.names.getLast? = some [] then p.names.dropLast else p.names
  if q.absolute then q
  else if q.names = [] then
    if base = [] then p else { p with names := base ++ [[]] }
  else { p with names := base ++ q.names }

instance : Div Path := ⟨append⟩

/-- `path.filename()`. -/
def filename (p : Path) : Bytes := p.names.getLast?.getD []

/-- The extension of a file name: from its last dot, unless that is its first
byte or the name is `.` or `..`. -/
def extensionOf (name : Bytes) : Bytes :=
  let stem := name.rdropWhile (· ≠ dot)
  if name = [dot] ∨ name = [dot, dot] then []
  else if stem.length ≤ 1 then []
  else dot :: name.drop stem.length

/-- `path.extension()`. -/
def extension (p : Path) : Bytes := extensionOf p.filename

/-- `path.parent_path()`. -/
def parentPath (p : Path) : Path := { p with names := p.names.dropLast }

/-- The names of a path in normal form, its last one first: `.` and empty names
go, and `..` takes the name before it along. -/
def normalNames (absolute : Bool) : List Bytes → List Bytes → List Bytes
  | [], kept => kept
  | name :: rest, kept =>
      if name = [] ∨ name = [dot] then normalNames absolute rest kept
      else if name = [dot, dot] then
        match kept with
        | [] => normalNames absolute rest (if absolute then [] else [name])
        | last :: init =>
            normalNames absolute rest (if last = [dot, dot] then name :: kept else init)
      else normalNames absolute rest (name :: kept)

/-- `path.lexically_normal()`. A name that went from the end leaves its slash. -/
def lexicallyNormal (p : Path) : Path :=
  let kept := normalNames p.absolute p.names []
  if p.isEmpty then p
  else if kept = [] then { p with names := if p.absolute then [] else [[dot]] }
  else if kept.head? ≠ some [dot, dot] ∧
      (p.filename = [] ∨ p.filename = [dot] ∨ p.filename = [dot, dot]) then
    { p with names := kept.reverse ++ [[]] }
  else { p with names := kept.reverse }

/-- What two sequences of names have left behind their common prefix. -/
def mismatch : List Bytes → List Bytes → List Bytes × List Bytes
  | a :: as, b :: bs => if a = b then mismatch as bs else (a :: as, b :: bs)
  | as, bs => (as, bs)

/-- How many steps up the names of a base path are worth: `..` counts against
the others, and neither `.` nor an empty name counts. -/
def stepsUp (names : List Bytes) : Int :=
  names.foldl (fun n name =>
    if name = [dot, dot] then n - 1
    else if name ≠ [] ∧ name ≠ [dot] then n + 1
    else n) 0

/-- `path.lexically_relative(base)`; an empty path when there is no answer. -/
def lexicallyRelative (p base : Path) : Path :=
  if p.absolute ≠ base.absolute then {}
  else
    let (a, b) := mismatch p.names base.names
    let n := stepsUp b
    if a = [] ∧ b = [] then { names := [[dot]] }
    else if n = 0 ∧ (a = [] ∨ a.head? = some []) then { names := [[dot]] }
    else if n < 0 then {}
    else { names := List.replicate n.toNat [dot, dot] ++ a }

/-- `root` is a component-wise prefix of `p`. -/
def IsPrefix (root p : Path) : Prop := root.parts <+: p.parts

instance (root p : Path) : Decidable (IsPrefix root p) :=
  inferInstanceAs (Decidable (_ <+: _))

/-- The components of `p` below a root that is a prefix of it. -/
def below (root p : Path) : List Bytes := p.parts.drop root.parts.length

theorem mismatch_append (as bs : List Bytes) : mismatch (as ++ bs) as = (bs, []) := by
  induction as with
  | nil => cases bs <;> rfl
  | cons a as ih => rw [List.cons_append, mismatch, if_pos rfl, ih]

/-- Below a root that is a prefix, the relative path is what is below, or `.`
for the root itself. -/
theorem lexicallyRelative_of_prefix {root p : Path} (habs : p.absolute = root.absolute)
    {rest : List Bytes} (hnames : p.names = root.names ++ rest) :
    (lexicallyRelative p root).names = rest ∨
      ((rest = [] ∨ rest.head? = some []) ∧
        (lexicallyRelative p root).names = [[dot]]) := by
  rw [lexicallyRelative, if_neg (by simp [habs]), hnames, mismatch_append]
  simp only [stepsUp, List.foldl_nil]
  split
  · next h => exact Or.inr ⟨Or.inl h.1, rfl⟩
  · split
    · next h => exact Or.inr ⟨h.2, rfl⟩
    · exact Or.inl (by simp)

theorem parts_prefix_iff {root p : Path} (habs : root.absolute = p.absolute) :
    root.parts <+: p.parts ↔ root.names <+: p.names := by
  rw [parts, parts, habs, List.prefix_append_right_inj]

theorem ofBytes_name {name : Bytes} (hslash : slash ∉ name) (hname : name ≠ []) :
    ofBytes name = { names := [name] } := by
  have hsplit : (name.splitOn slash).filter (fun name => !name.isEmpty) = [name] := by
    rw [List.splitOn_eq_singleton hslash]
    simp [hname]
  have hhead : (name.head? == some slash) = false := by
    rw [beq_eq_false_iff_ne]
    exact fun h => hslash (List.mem_of_head? h)
  rw [ofBytes, hsplit, hhead, if_neg fun h => hslash (List.mem_of_getLast? h.1)]

/-- What stands in the names of a path stands in its text. -/
theorem mem_of_mem_names {text name : Bytes} (h : name ∈ (ofBytes text).names) {c : UInt8}
    (hc : c ∈ name) : c ∈ text := by
  have hpieces : ∀ piece ∈ (text.splitOn slash).filter fun name => !name.isEmpty,
      ∀ c ∈ piece, c ∈ text := by
    intro piece hpiece c hc
    rw [← @List.intercalate_splitOn _ text _ _ slash]
    exact mem_intercalate_of_mem [slash] (List.mem_of_mem_filter hpiece) hc
  simp only [ofBytes] at h
  split at h
  · rcases List.mem_append.mp h with h | h
    · exact hpieces name h c hc
    · rw [List.mem_singleton.mp h] at hc
      cases hc
  · exact hpieces name h c hc

theorem names_prefix {u v : Bytes} (h : u.getLast? ≠ some slash) :
    (ofBytes u).names <+: (ofBytes (u ++ slash :: v)).names := by
  simp only [ofBytes]
  rw [if_neg (fun hlast => h hlast.1), List.splitOn_append_cons_self, List.filter_append]
  split
  · exact ⟨_, (List.append_assoc _ _ _).symm⟩
  · exact List.prefix_append _ _

/-- A file of the directory itself, under this name. -/
structure IsChild (directory : Path) (name : Bytes) (p : Path) : Prop where
  ne_nil : name ≠ []
  ne_dot : name ≠ [dot]
  ne_dotdot : name ≠ [dot, dot]
  slash : slash ∉ name
  absolute : p.absolute = directory.absolute
  names : p.names = (if directory.names.getLast? = some [] then directory.names.dropLast
    else directory.names) ++ [name]

theorem isChild_append {directory : Path} {name : Bytes} (hslash : Base.slash ∉ name)
    (hname : name ≠ []) (hdot : name ≠ [dot]) (hdotdot : name ≠ [dot, dot]) :
    IsChild directory name (directory / ofBytes name) := by
  have happend : directory / ofBytes name = append directory { names := [name] } := by
    rw [ofBytes_name hslash hname]
    rfl
  exact { ne_nil := hname, ne_dot := hdot, ne_dotdot := hdotdot, slash := hslash
          absolute := by simp [happend, append]
          names := by simp [happend, append] }

/-- Two names in one directory are one when their paths are. -/
theorem append_name_injective {directory : Path} {name name' : Bytes} (hslash : slash ∉ name)
    (hname : name ≠ []) (hslash' : slash ∉ name') (hname' : name' ≠ [])
    (h : directory / ofBytes name = directory / ofBytes name') : name = name' := by
  have hlast : ∀ n : Bytes, (directory / ({ names := [n] } : Path)).names.getLast? = some n := by
    intro n
    show (append directory { names := [n] }).names.getLast? = some n
    simp [append]
  rw [ofBytes_name hslash hname, ofBytes_name hslash' hname'] at h
  have heq := hlast name
  rw [h, hlast name'] at heq
  exact (Option.some.inj heq).symm

/-! ## Extensions -/

/-- What stands in a name from its last dot on. -/
def lastExtension (name : Bytes) : Bytes :=
  if dot ∈ name then dot :: name.rtakeWhile (· ≠ dot) else []

theorem lastExtension_of_last {front behind : Bytes} (h : dot ∉ behind) :
    lastExtension (front ++ dot :: behind) = dot :: behind := by
  have hrest : (front ++ dot :: behind).rtakeWhile (· ≠ dot) = behind := by
    have hall : ∀ c ∈ behind.reverse, decide (c ≠ dot) = true := by
      intro c hc
      rw [decide_eq_true_eq]
      rintro rfl
      exact h (List.mem_reverse.mp hc)
    rw [List.rtakeWhile, List.reverse_append, List.reverse_cons, List.append_assoc,
      List.takeWhile_append_of_pos hall, List.singleton_append,
      List.takeWhile_cons_of_neg (by simp), List.append_nil, List.reverse_reverse]
  rw [lastExtension, if_pos (by simp), hrest]

/-- A name with a dot in it, cut at the last one. -/
theorem exists_last_dot {name : Bytes} (h : dot ∈ name) :
    ∃ front behind, name = front ++ dot :: behind ∧ dot ∉ behind := by
  obtain ⟨behind, front, hname, hfree⟩ := List.eq_append_cons_of_mem (List.mem_reverse.mpr h)
  refine ⟨front.reverse, behind.reverse, ?_, mt List.mem_reverse.mp hfree⟩
  rw [← List.reverse_reverse name, hname]
  simp

/-- Unless it is a hidden file, a name has the extension behind its last dot. -/
theorem extensionOf_eq {name : Bytes} (h : name.head? ≠ some dot) :
    extensionOf name = lastExtension name := by
  have hdots : ¬ (name = [dot] ∨ name = [dot, dot]) := by
    rintro (rfl | rfl)
    · exact h rfl
    · exact h rfl
  rw [extensionOf]
  simp only [if_neg hdots]
  by_cases hmem : dot ∈ name
  · obtain ⟨front, behind, rfl, hbehind⟩ := exists_last_dot hmem
    have hstem : (front ++ dot :: behind).rdropWhile (· ≠ dot) = front ++ [dot] := by
      rw [show front ++ dot :: behind = front ++ [dot] ++ behind by simp, rdropWhile_append,
        if_pos, rdropWhile_of_getLast (by simp)]
      rw [List.all_eq_true]
      intro c hc
      rw [decide_eq_true_eq]
      rintro rfl
      exact hbehind hc
    have hfront : front ≠ [] := by
      rintro rfl
      exact h rfl
    have hlength : 0 < front.length := List.length_pos_of_ne_nil hfront
    rw [hstem, List.length_append, List.length_singleton, if_neg (by omega),
      lastExtension_of_last hbehind,
      show front ++ dot :: behind = front ++ [dot] ++ behind by simp,
      show front.length + 1 = (front ++ [dot]).length by simp, List.drop_left]
  · have hstem : name.rdropWhile (· ≠ dot) = [] := by
      rw [List.rdropWhile_eq_nil_iff]
      intro c hc
      rw [decide_eq_true_eq]
      rintro rfl
      exact hmem hc
    rw [lastExtension, if_neg hmem, hstem, List.length_nil, if_pos (Nat.zero_le 1)]

/-- A name keeps its extension behind another without a dot. -/
theorem lastExtension_append {front : Bytes} (h : dot ∉ front) (name : Bytes) :
    lastExtension (front ++ name) = lastExtension name := by
  by_cases hmem : dot ∈ name
  · obtain ⟨before, behind, rfl, hbehind⟩ := exists_last_dot hmem
    rw [← List.append_assoc, lastExtension_of_last hbehind, lastExtension_of_last hbehind]
  · rw [lastExtension, lastExtension, if_neg hmem, if_neg (by simp [h, hmem])]

theorem toLower_eq_dot {c : UInt8} (h : toLower c = dot) : c = dot := by
  unfold toLower isUpper at h
  split at h
  · next hupper =>
      simp only [Bool.and_eq_true, decide_eq_true_eq, UInt8.le_iff_toNat_le] at hupper
      have hlower := congrArg UInt8.toNat h
      rw [UInt8.toNat_add] at hlower
      simp only [dot, UInt8.reduceToNat] at hupper hlower
      omega
  · exact h

theorem lowercase_lastExtension (name : Bytes) :
    lowercase (lastExtension name) = lastExtension (lowercase name) := by
  have hdot : ∀ {s : Bytes}, dot ∉ s → dot ∉ lowercase s := by
    intro s hs hmem
    obtain ⟨c, hc, hlower⟩ := List.mem_map.mp hmem
    exact hs (toLower_eq_dot hlower ▸ hc)
  by_cases hmem : dot ∈ name
  · obtain ⟨front, behind, rfl, hbehind⟩ := exists_last_dot hmem
    have hlower : lowercase (front ++ dot :: behind) =
        lowercase front ++ dot :: lowercase behind := by
      rw [lowercase, List.map_append, List.map_cons]
      rfl
    rw [hlower, lastExtension_of_last hbehind, lastExtension_of_last (hdot hbehind)]
    rfl
  · rw [lastExtension, lastExtension, if_neg hmem, if_neg (hdot hmem)]
    rfl

end Path

end HydrogenHttpd.Base
