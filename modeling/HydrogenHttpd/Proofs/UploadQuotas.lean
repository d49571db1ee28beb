import HydrogenHttpd.Proofs.UploadFidelity
import HydrogenHttpd.Ref.UploadProgram

/-!
# How much an upload stores

A run is watched through what it asks: `WriteRecord` lists the files it creates,
in order, each with what is written to it. Whatever the answers are, as long as
no write takes less than it is given, the list stays within both limits, and an
accepted run reports it as it is (`saveUploadsFromSpoolFile_tallies`).

That no file is refused too early is about two runs. Under a file limit with
room for the whole spool the run asks the same questions until the other one
refuses a file as too large, and goes on to write more than the limit to it
(`saveUploadsFromSpoolFile_tracks`).

Both are about the record, and the record is what the directory holds as long as
no stored name comes up twice (`Mirrors`).
-/

namespace HydrogenHttpd.Ref

open Base Spec

/-! ## The record -/

/-- Written behind the last of some files. -/
def addToLast (data : Bytes) : List (Bytes × Bytes) → List (Bytes × Bytes)
  | [] => []
  | [f] => [(f.1, f.2 ++ data)]
  | f :: g :: fs => f :: addToLast data (g :: fs)

theorem addToLast_concat (data : Bytes) (fs : List (Bytes × Bytes)) (f : Bytes × Bytes) :
    addToLast data (fs ++ [f]) = fs ++ [(f.1, f.2 ++ data)] := by
  induction fs with
  | nil => rfl
  | cons g fs ih =>
      cases fs with
      | nil => rfl
      | cons h fs => exact congrArg (g :: ·) ih

/-- What a run has created and written. -/
structure WriteRecord where
  /-- The files created, in order, each with what was written to it. -/
  files : List (Bytes × Bytes) := []
  /-- A write took less than it was given. -/
  short : Bool := false
  deriving DecidableEq, Repr

namespace WriteRecord

/-- A run writes to the file it created last. -/
def note (g : WriteRecord) : (q : UploadQuestion) → UploadAnswer q → WriteRecord
  | .create name, true => { g with files := g.files ++ [(name, [])] }
  | .write _ data, none => { g with files := addToLast data g.files }
  | .write .., some _ => { g with short := true }
  | .create _, false | .createDirectories, _ | .micros _, _ => g

def Asks (g : WriteRecord) : UploadQuestion → Prop
  | .write name _ => g.short = true ∨ ∃ done data, g.files = done ++ [(name, data)]
  | .create _ | .createDirectories | .micros _ => True

theorem note_short {g : WriteRecord} (h : g.short = true) (q : UploadQuestion)
    (a : UploadAnswer q) : (g.note q a).short = true := by
  cases q with
  | create name => cases a with
    | false => exact h
    | true => exact h
  | write name data => cases a with
    | none => exact h
    | some n => rfl
  | createDirectories => exact h
  | micros clean => exact h

/-- Nothing is asked of a run behind a short write. -/
theorem follows_short {α : Type} {post : WriteRecord → α → Prop}
    (hpost : ∀ g a, g.short = true → post g a) (p : UploadProgram α) {g : WriteRecord}
    (h : g.short = true) : p.Follows note Asks post g := by
  have hasks : ∀ (g : WriteRecord) (q : UploadQuestion), g.short = true → g.Asks q := by
    intro g q hg
    cases q with
    | write name data => exact Or.inl hg
    | create | createDirectories | micros => trivial
  exact Prog.Follows.of_stable hasks (fun _ q a hg => note_short hg q a) hpost p h

end WriteRecord

/-! ## Writing -/

namespace UploadProgram

open WriteRecord

section Write

variable {α : Type} {post : WriteRecord → α → Prop}
  (hpost : ∀ g a, g.short = true → post g a)

include hpost

/-- A write is recorded as a whole. -/
theorem write_records {out : OutFile} (hgood : out.good = true) {data old : Bytes}
    {g : WriteRecord} {done : List (Bytes × Bytes)} (hg : g.files = done ++ [(out.name, old)])
    {f : OutFile → UploadProgram α}
    (h : (f out).Follows note Asks post { g with files := done ++ [(out.name, old ++ data)] }) :
    ((write out data).bind f).Follows note Asks post g := by
  rw [write, if_pos hgood]
  refine ⟨Or.inr ⟨done, old, hg⟩, fun accepts => ?_⟩
  cases accepts with
  | none =>
      have hout : ({ out with good := data.length == data.length } : OutFile) = out := by
        rw [beq_self_eq_true, ← hgood]
      have hnote : g.note (.write out.name data) none =
          { g with files := done ++ [(out.name, old ++ data)] } := by
        rw [WriteRecord.note, hg, addToLast_concat]
      simp only [Prog.done_bind, hout]
      rw [hnote]
      exact h
  | some n => exact follows_short hpost _ rfl

/-- A pending line of a file that has room for it is recorded as a whole. -/
theorem storePending_records {limits : MultipartLimits} {newline : Bool} {p : PartState}
    {out : OutFile} {l : Bytes} (hpending : p.pending = some l) (hout : p.out = some out)
    (hgood : out.good = true)
    (hfit : p.bytesWritten + (l.length + if newline then 1 else 0) ≤ limits.maxFileBytes)
    (files : List MultipartSavedFile) {g : WriteRecord} {done : List (Bytes × Bytes)} {old : Bytes}
    (hg : g.files = done ++ [(out.name, old)])
    {f : Except MultipartResult PartState → UploadProgram α}
    (h : (f (.ok { p with
        bytesWritten := p.bytesWritten + (l.length + if newline then 1 else 0) })).Follows note
      Asks post { g with files := done ++ [(out.name, old ++ pendingBytes newline (some l))] }) :
    ((storePending limits files newline p).bind f).Follows note Asks post g := by
  rw [storePending, hpending]
  simp only [hout]
  rw [if_neg (Nat.not_lt.mpr hfit), Prog.bind_assoc]
  refine write_records hpost hgood hg ?_
  rw [Prog.bind_assoc]
  cases newline with
  | false =>
      simp only [pendingBytes, Bool.false_eq_true, if_false, List.append_nil, Nat.add_zero] at h
      simpa [hout, hpending] using h
  | true =>
      simp only [pendingBytes, if_true, ← List.append_assoc] at h
      refine write_records hpost hgood rfl ?_
      simpa [hout, hpending] using h

end Write

end UploadProgram

/-! ## Within the limits -/

/-- More was written to the last file, if it is open, and to no other. -/
def Extends (isOpen : Bool) (fs fs' : List (Bytes × Bytes)) : Prop :=
  fs' = fs ∨ (isOpen = true ∧ ∃ done name data more,
    fs = done ++ [(name, data)] ∧ fs' = done ++ [(name, data ++ more)])

namespace Extends

variable {isOpen : Bool} {fs fs' fs'' : List (Bytes × Bytes)}

theorem trans (h : Extends isOpen fs fs') (h' : Extends isOpen fs' fs'') :
    Extends isOpen fs fs'' := by
  rcases h with rfl | ⟨hopen, done, name, data, more, rfl, rfl⟩
  · exact h'
  · rcases h' with rfl | ⟨-, done', name', data', more', hfs, rfl⟩
    · exact Or.inr ⟨hopen, done, name, data, more, rfl, rfl⟩
    · obtain ⟨rfl, hlast⟩ := List.append_inj' hfs rfl
      cases hlast
      exact Or.inr ⟨hopen, done, name, data, more ++ more', rfl, by rw [List.append_assoc]⟩

theorem length_eq (h : Extends isOpen fs fs') : fs'.length = fs.length := by
  rcases h with rfl | ⟨-, done, name, data, more, rfl, rfl⟩
  · rfl
  · simp

end Extends

/-- The refusal of a file that is too large. -/
def TooLarge (result : MultipartResult) : Prop :=
  result.status = 413 ∧ result.error = bytes "Uploaded file too large"

theorem not_tooLarge {error : String} (h : bytes error ≠ bytes "Uploaded file too large")
    (files : List MultipartSavedFile) (status : Nat) : ¬ TooLarge (refuse files status error) :=
  fun hlarge => h hlarge.2

theorem not_tooLarge_accept (files : List MultipartSavedFile) : ¬ TooLarge (accept files) :=
  fun hlarge => absurd hlarge.1 (show ¬ 200 = 413 by decide)

/-- The recorded files are those of the result, with their sizes, and none is too
large. -/
structure Tallies (limits : MultipartLimits) (files : List MultipartSavedFile)
    (recorded : List (Bytes × Bytes)) : Prop where
  sizes : files.map (fun f => (f.storedFilename, f.size)) =
    recorded.map fun f => (f.1, f.2.length)
  small : ∀ f ∈ recorded, f.2.length ≤ limits.maxFileBytes

/-- The file of a part that is open is recorded behind those of the result. -/
def PartTallies (limits : MultipartLimits) (files : List MultipartSavedFile) (p : PartState)
    (g : WriteRecord) : Prop :=
  ∃ done, Tallies limits files done ∧
    match p.out with
    | none => g.files = done
    | some out => out.good = true ∧ out.name = p.storedName ∧
        p.bytesWritten ≤ limits.maxFileBytes ∧
        ∃ data, g.files = done ++ [(out.name, data)] ∧ data.length = p.bytesWritten

section Tallies

variable {limits : MultipartLimits} {files : List MultipartSavedFile} {p : PartState}
  {g : WriteRecord}

theorem PartTallies.small (h : PartTallies limits files p g) :
    ∀ f ∈ g.files, f.2.length ≤ limits.maxFileBytes := by
  obtain ⟨done, hdone, hp⟩ := h
  cases hout : p.out with
  | none =>
      rw [hout] at hp
      exact hp ▸ hdone.small
  | some out =>
      rw [hout] at hp
      obtain ⟨-, -, hle, data, hg, hlength⟩ := hp
      intro f hf
      rw [hg] at hf
      rcases List.mem_append.mp hf with hf | hf
      · exact hdone.small f hf
      · rw [List.mem_singleton.mp hf, hlength]
        exact hle

theorem PartTallies.within (h : PartTallies limits files p g) (hopen : p.out.isSome = true) :
    p.bytesWritten ≤ limits.maxFileBytes := by
  obtain ⟨out, hout⟩ := Option.isSome_iff_exists.mp hopen
  obtain ⟨done, -, hp⟩ := h
  rw [hout] at hp
  exact hp.2.2.1

theorem PartTallies.closed (h : PartTallies limits files p g) (uploadDirectory : Path) :
    Tallies limits (closePart uploadDirectory files p) g.files := by
  have hsmall := h.small
  obtain ⟨done, hdone, hp⟩ := h
  rw [closePart]
  cases hout : p.out with
  | none =>
      rw [hout] at hp
      exact hp ▸ hdone
  | some out =>
      rw [hout] at hp
      obtain ⟨-, hname, -, data, hg, hlength⟩ := hp
      refine ⟨?_, hsmall⟩
      rw [hg, List.map_append, List.map_append, hdone.sizes, List.map_singleton,
        List.map_singleton, hname, hlength]

end Tallies

namespace UploadProgram

open WriteRecord

section Tallies

variable {limits : MultipartLimits} {files : List MultipartSavedFile} {p : PartState}
  {g : WriteRecord}

theorem storePending_tallies (newline : Bool) (h : PartTallies limits files p g) :
    (storePending limits files newline p).Follows note Asks
      (fun g' r => g'.short = true ∨ (Extends p.out.isSome g.files g'.files ∧
        match r with
        | .error result => result.ok = false ∧ g' = g ∧ (TooLarge result → p.out.isSome = true) ∧
            (p.out.isSome = true → limits.maxFileBytes <
              p.bytesWritten + (pendingBytes newline p.pending).length)
        | .ok p' => PartTallies limits files p' g' ∧ p'.out = p.out ∧ (p.out.isSome = true →
            p'.bytesWritten = p.bytesWritten + (pendingBytes newline p.pending).length))) g := by
  cases hpending : p.pending with
  | none =>
      rw [storePending, hpending]
      exact Or.inr ⟨Or.inl rfl, h, rfl, fun _ => rfl⟩
  | some l =>
      rw [length_pendingBytes]
      cases hout : p.out with
      | none =>
          rw [storePending, hpending]
          simp only [hout]
          by_cases hfit : limits.maxFieldBytes <
              p.fieldBytes + (l.length + if newline then 1 else 0)
          · rw [if_pos hfit]
            exact Or.inr ⟨Or.inl rfl, rfl, rfl,
              fun hlarge => absurd hlarge (not_tooLarge (by decide) _ _), fun h => by cases h⟩
          · rw [if_neg hfit]
            obtain ⟨done, hdone, hp⟩ := h
            rw [hout] at hp
            exact Or.inr ⟨Or.inl rfl, ⟨done, hdone, hp⟩, rfl, fun h => by cases h⟩
      | some out =>
          by_cases hfit : p.bytesWritten + (l.length + if newline then 1 else 0) ≤
              limits.maxFileBytes
          · obtain ⟨done, hdone, hp⟩ := h
            rw [hout] at hp
            obtain ⟨hgood, hname, -, data, hg, hlength⟩ := hp
            rw [← Prog.bind_done (storePending limits files newline p)]
            refine storePending_records (fun _ _ hshort => Or.inl hshort) hpending hout hgood hfit
              files hg ?_
            refine Or.inr ⟨Or.inr ⟨rfl, done, out.name, data, _, hg, rfl⟩, ⟨done, hdone, ?_⟩, hout,
              fun _ => rfl⟩
            simp only [hout]
            refine ⟨hgood, hname, hfit, _, rfl, ?_⟩
            rw [List.length_append, hlength, length_pendingBytes]
          · rw [storePending, hpending]
            simp only [hout]
            rw [if_pos (Nat.not_le.mp hfit)]
            exact Or.inr ⟨Or.inl rfl, rfl, rfl, fun _ => rfl, fun _ => Nat.not_le.mp hfit⟩

/-- The record of a run that ends in this part. -/
def Ended (limits : MultipartLimits) (g : WriteRecord) (result : MultipartResult) : Prop :=
  (∀ f ∈ g.files, f.2.length ≤ limits.maxFileBytes) ∧
    (result.ok = true → Tallies limits result.files g.files)

theorem ended_refused {result : MultipartResult} (hok : result.ok = false)
    (hsmall : ∀ f ∈ g.files, f.2.length ≤ limits.maxFileBytes) : Ended limits g result :=
  ⟨hsmall, fun h => absurd h (by rw [hok]; decide)⟩

theorem contentLoop_tallies (uploadDirectory : Path) (delimiter : Bytes) (lines : List Bytes)
    (h : PartTallies limits files p g) :
    (contentLoop uploadDirectory limits delimiter files lines p).Follows note Asks
      (fun g' r => g'.short = true ∨ (Extends p.out.isSome g.files g'.files ∧
        match r with
        | .returned result => Ended limits g' result
        | .next files _ => Tallies limits files g'.files
        | .failed => ∀ f ∈ g'.files, f.2.length ≤ limits.maxFileBytes)) g := by
  induction lines generalizing p g with
  | nil => exact Or.inr ⟨Or.inl rfl, h.small⟩
  | cons raw rest ih =>
      rw [contentLoop]
      simp only []
      split
      · refine Prog.Follows.bind ((storePending_tallies false h).mono ?_)
        rintro g' (result | p') (hshort | ⟨hextends, hr⟩)
        · exact Or.inl hshort
        · exact Or.inr ⟨hextends, ended_refused hr.1 (by rw [hr.2.1]; exact h.small)⟩
        · exact follows_short (fun _ _ h => Or.inl h) _ hshort
        · have hclosed := hr.1.closed uploadDirectory
          simp only
          split
          · exact Or.inr ⟨hextends, hr.1.small, fun _ => hclosed⟩
          · exact Or.inr ⟨hextends, hclosed⟩
      · refine Prog.Follows.bind ((storePending_tallies true h).mono ?_)
        rintro g' (result | p') (hshort | ⟨hextends, hr⟩)
        · exact Or.inl hshort
        · exact Or.inr ⟨hextends, ended_refused hr.1 (by rw [hr.2.1]; exact h.small)⟩
        · exact follows_short (fun _ _ h => Or.inl h) _ hshort
        · refine (ih (p := { p' with pending := some (dropCr raw) }) hr.1).mono ?_
          rintro g'' r (hshort | ⟨hextends', hr'⟩)
          · exact Or.inl hshort
          · rw [show ({ p' with pending := some (dropCr raw) } : PartState).out = p.out from
              hr.2.1] at hextends'
            exact Or.inr ⟨hextends.trans hextends', hr'⟩

/-- A part that is opened as a file adds one to the record, and any other none. -/
theorem openPart_tallies (rawHeaders : Bytes) (h : Tallies limits files g.files) :
    (openPart files rawHeaders).Follows note Asks
      (fun g' r => match r with
        | .error result => result.ok = false ∧ g' = g ∧ ¬ TooLarge result
        | .ok p => PartTallies limits files p g' ∧ p.bytesWritten = 0 ∧ p.pending = none ∧
            g'.files = g.files ++ (p.out.map fun out => (out.name, [])).toList) g := by
  rw [openPart]
  generalize partNames rawHeaders = names
  simp only
  generalize Multipart.sanitizeFilename names.2 = clean
  by_cases hfile : names.2 = []
  · rw [if_pos hfile]
    exact ⟨⟨g.files, h, rfl⟩, rfl, rfl, (List.append_nil _).symm⟩
  · rw [if_neg hfile]
    cases Multipart.isSafeUploadFilename clean with
    | false => exact ⟨rfl, rfl, not_tooLarge (by decide) _ _⟩
    | true =>
        rw [if_neg (by decide)]
        refine ⟨trivial, fun micros => ⟨trivial, fun created => ?_⟩⟩
        cases created with
        | false => exact ⟨rfl, rfl, not_tooLarge (by decide) _ _⟩
        | true => exact ⟨⟨g.files, h, rfl, rfl, Nat.zero_le _, [], rfl, rfl⟩, rfl, rfl, rfl⟩

/-- A part changes nothing in front of its own file. -/
theorem prefix_of_part {p : PartState} {g g₁ : WriteRecord} {fs : List (Bytes × Bytes)}
    (hopened : g₁.files = g.files ++ (p.out.map fun out => (out.name, [])).toList)
    (h : Extends p.out.isSome g₁.files fs) :
    g.files <+: fs ∧ fs.length ≤ g.files.length + 1 := by
  have hlength := h.length_eq
  cases hout : p.out with
  | none =>
      rw [hout, Option.map_none, Option.toList_none, List.append_nil] at hopened
      rcases h with rfl | ⟨hisSome, -⟩
      · rw [hopened]
        exact ⟨List.prefix_rfl, Nat.le_succ _⟩
      · rw [hout] at hisSome
        cases hisSome
  | some out =>
      rw [hout, Option.map_some, Option.toList_some] at hopened
      refine ⟨?_, by rw [hlength, hopened, List.length_append, List.length_singleton]⟩
      rcases h with rfl | ⟨-, done, name, data, more, hfs, rfl⟩
      · rw [hopened]
        exact List.prefix_append _ _
      · rw [hopened] at hfs
        obtain ⟨rfl, -⟩ := List.append_inj' hfs rfl
        exact List.prefix_append _ _

theorem spoolLoop_tallies (uploadDirectory : Path) (delimiter : Bytes) (allowed : Nat)
    (lines : List Bytes) (h : Tallies limits files g.files) :
    (spoolLoop uploadDirectory limits delimiter allowed lines files).Follows note Asks
      (fun g' result => g'.short = true ∨ (g.files <+: g'.files ∧
        g'.files.length ≤ g.files.length + allowed ∧ Ended limits g' result)) g := by
  induction allowed generalizing lines files g with
  | zero => exact Or.inr ⟨List.prefix_rfl, le_refl _, ended_refused rfl h.small⟩
  | succ allowed ih =>
      rw [spoolLoop]
      rcases readPartHeaders lines [] with ⟨rawHeaders, rest⟩
      simp only
      split
      · exact Or.inr ⟨List.prefix_rfl, Nat.le_add_right _ _, ended_refused rfl h.small⟩
      · refine Prog.Follows.bind ((openPart_tallies rawHeaders h).mono ?_)
        rintro g₁ (result | p) hr
        · rw [hr.2.1]
          exact Or.inr ⟨List.prefix_rfl, Nat.le_add_right _ _, ended_refused hr.1 h.small⟩
        · obtain ⟨hpart, -, -, hopened⟩ := hr
          refine Prog.Follows.bind ((contentLoop_tallies uploadDirectory delimiter
            (rest.getD []) hpart).mono ?_)
          rintro g₂ (result | ⟨files, rest⟩ | _) (hshort | ⟨hextends, hr⟩)
          · exact Or.inl hshort
          · obtain ⟨hfront, hcount⟩ := prefix_of_part hopened hextends
            exact Or.inr ⟨hfront, by omega, hr⟩
          · exact follows_short (fun _ _ h => Or.inl h) _ hshort
          · obtain ⟨hfront, hcount⟩ := prefix_of_part hopened hextends
            refine (ih rest hr).mono ?_
            rintro g₃ result (hshort | ⟨hfront', hcount', hended⟩)
            · exact Or.inl hshort
            · exact Or.inr ⟨hfront.trans hfront', by omega, hended⟩
          · exact Or.inl hshort
          · obtain ⟨hfront, hcount⟩ := prefix_of_part hopened hextends
            exact Or.inr ⟨hfront, by omega, ended_refused rfl hr⟩

/-- What a run has created and written when it returns, whatever it was told. -/
theorem saveUploadsFromSpoolFile_tallies (spoolFile : Option Bytes) (contentType : Bytes)
    (uploadDirectory : Path) (limits : MultipartLimits) :
    (saveUploadsFromSpoolFile spoolFile contentType uploadDirectory limits).Follows note Asks
      (fun g r => g.short = true ∨ (g.files.length ≤ limits.maxParts ∧
        (∀ f ∈ g.files, f.2.length ≤ limits.maxFileBytes) ∧
        ∀ result, r = .ok result → Ended limits g result)) {} := by
  have hrefused : ∀ status error, ({} : WriteRecord).short = true ∨
      (({} : WriteRecord).files.length ≤ limits.maxParts ∧
        (∀ f ∈ ({} : WriteRecord).files, f.2.length ≤ limits.maxFileBytes) ∧
        ∀ result, (.ok (refuse [] status error) : Except Bytes MultipartResult) = .ok result →
          Ended limits {} result) := by
    intro status error
    refine Or.inr ⟨Nat.zero_le _, by simp, ?_⟩
    rintro _ ⟨⟩
    exact ended_refused rfl (by simp)
  rw [saveUploadsFromSpoolFile]
  cases Multipart.extractBoundary contentType with
  | none => exact hrefused _ _
  | some boundary =>
      by_cases hlimits : limits.maxParts = 0 ∨ limits.maxFileBytes = 0
      · simp only [if_pos hlimits]
        exact hrefused _ _
      · simp only [if_neg hlimits]
        cases spoolFile with
        | none => exact hrefused _ _
        | some content =>
            refine ⟨trivial, fun made => ?_⟩
            cases made with
            | error e => exact Or.inr ⟨Nat.zero_le _, by simp [note], by rintro _ ⟨⟩⟩
            | ok _ =>
                cases getlines content with
                | nil => exact hrefused _ _
                | cons first rest =>
                    by_cases hfirst : dropCr first ≠ bytes "--" ++ boundary
                    · simp only [if_pos hfirst]
                      exact hrefused _ _
                    · simp only [if_neg hfirst]
                      have hnone : Tallies limits [] ({} : WriteRecord).files := ⟨rfl, by simp⟩
                      refine Prog.Follows.map ((spoolLoop_tallies uploadDirectory
                        (bytes "--" ++ boundary) limits.maxParts rest hnone).mono ?_)
                      rintro g result (hshort | ⟨-, hcount, hended⟩)
                      · exact Or.inl hshort
                      · refine Or.inr ⟨by simpa using hcount, hended.1, ?_⟩
                        rintro _ ⟨⟩
                        exact hended

end Tallies

end UploadProgram

/-! ## A run with more room -/

/-- Every write takes all it is given. -/
def Whole : (q : UploadQuestion) → UploadAnswer q → Prop
  | .write .., accepts => accepts = none
  | .createDirectories, _ | .micros _, _ | .create _, _ => True

theorem WriteRecord.note_whole {g : WriteRecord} (q : UploadQuestion) (a : UploadAnswer q)
    (h : g.short = false) (ha : Whole q a) : (g.note q a).short = false := by
  cases q with
  | create name => cases a with
    | false => exact h
    | true => exact h
  | write name data =>
      rw [show a = none from ha]
      exact h
  | createDirectories => exact h
  | micros clean => exact h

/-- A run tracks itself, and no answer as told makes it short. -/
theorem UploadProgram.tracks_itself {α : Type} {post : WriteRecord → α → Prop} {p : UploadProgram α}
    {g : WriteRecord}
    (h : p.Follows WriteRecord.note WriteRecord.Asks (fun g a => g.short = true ∨ post g a) g)
    (hg : g.short = false) :
    p.Tracks Whole WriteRecord.note
      (fun g a rest => post g a ∧ g.short = false ∧ rest = .done a) p g := by
  have hinv : ∀ (g : WriteRecord) (q : UploadQuestion) (a : UploadAnswer q),
      (fun g : WriteRecord => g.short = false) g → Whole q a →
        (fun g : WriteRecord => g.short = false) (g.note q a) :=
    fun _ q a hg ha => WriteRecord.note_whole q a hg ha
  refine (h.tracks hinv hg).mono fun g a rest hpost => ?_
  obtain ⟨hr, hshort, hrest⟩ := hpost
  exact ⟨hr.resolve_left (by simp [hshort]), hshort, hrest⟩

/-- The last file is larger than this. -/
def LastOver (size : Nat) (fs : List (Bytes × Bytes)) : Prop :=
  ∃ done f, fs = done ++ [f] ∧ size < f.2.length

theorem LastOver.extends {size : Nat} {isOpen : Bool} {fs fs' : List (Bytes × Bytes)}
    (h : LastOver size fs) (hextends : Extends isOpen fs fs') : LastOver size fs' := by
  rcases hextends with rfl | ⟨-, done, name, data, more, rfl, rfl⟩
  · exact h
  · obtain ⟨done', f, hfs, hover⟩ := h
    obtain ⟨-, hlast⟩ := List.append_inj' hfs rfl
    cases hlast
    refine ⟨done, _, rfl, ?_⟩
    rw [List.length_append]
    exact Nat.lt_of_lt_of_le hover (Nat.le_add_right _ _)

/-- The last of some files became larger than this, and others may stand behind it. -/
def Overfull (size : Nat) (fs fs' : List (Bytes × Bytes)) : Prop :=
  ∃ done f f' tail, fs = done ++ [f] ∧ fs' = done ++ f' :: tail ∧ f'.1 = f.1 ∧ size < f'.2.length

theorem LastOver.overfull {size : Nat} {isOpen : Bool} {fs fs' : List (Bytes × Bytes)}
    (h : LastOver size fs') (hextends : Extends isOpen fs fs') : Overfull size fs fs' := by
  obtain ⟨done, f, hfs, hover⟩ := h
  rcases hextends with rfl | ⟨-, done', name, data, more, rfl, rfl⟩
  · exact ⟨done, f, f, [], hfs, hfs, rfl, hover⟩
  · obtain ⟨-, hlast⟩ := List.append_inj' hfs rfl
    cases hlast
    exact ⟨done', (name, data), _, [], rfl, rfl, rfl, hover⟩

theorem Overfull.behind {size : Nat} {fs fs' fs'' : List (Bytes × Bytes)}
    (h : Overfull size fs fs') (hfront : fs' <+: fs'') : Overfull size fs fs'' := by
  obtain ⟨done, f, f', tail, hfs, rfl, hname, hover⟩ := h
  obtain ⟨more, rfl⟩ := hfront
  exact ⟨done, f, f', tail ++ more, hfs, by simp, hname, hover⟩

/-- The limits with another one on files. -/
def roomy (limits : MultipartLimits) (room : Nat) : MultipartLimits :=
  { limits with maxFileBytes := room }

theorem lineBytes_getlines_le (s : Bytes) : lineBytes (getlines s) ≤ s.length + 1 := by
  induction s with
  | nil => exact Nat.zero_le _
  | cons c cs ih =>
      rw [getlines]
      split
      · rw [lineBytes_cons, List.length_nil, List.length_cons]
        omega
      · cases hlines : getlines cs with
        | nil => simp
        | cons l ls =>
            rw [hlines, lineBytes_cons] at ih
            simp only [lineBytes_cons, List.length_cons]
            omega

theorem lineBytes_readPartHeaders (lines : List Bytes) (raw : Bytes) :
    lineBytes ((readPartHeaders lines raw).2.getD []) ≤ lineBytes lines := by
  induction lines generalizing raw with
  | nil => exact le_refl _
  | cons l ls ih =>
      rw [readPartHeaders, lineBytes_cons]
      split
      · exact Nat.le_add_left _ _
      · exact Nat.le_trans (ih _) (Nat.le_add_left _ _)

section Room

variable {limits : MultipartLimits} {room : Nat} {files : List MultipartSavedFile} {p : PartState}
  {g : WriteRecord}

theorem Tallies.roomy (hle : limits.maxFileBytes ≤ room) {fs : List (Bytes × Bytes)}
    (h : Tallies limits files fs) : Tallies (roomy limits room) files fs :=
  ⟨h.sizes, fun f hf => Nat.le_trans (h.small f hf) hle⟩

theorem PartTallies.roomy (hle : limits.maxFileBytes ≤ room) (h : PartTallies limits files p g) :
    PartTallies (roomy limits room) files p g := by
  obtain ⟨done, hdone, hp⟩ := h
  refine ⟨done, hdone.roomy hle, ?_⟩
  cases hout : p.out with
  | none =>
      rw [hout] at hp
      exact hp
  | some out =>
      rw [hout] at hp
      exact ⟨hp.1, hp.2.1, Nat.le_trans hp.2.2.1 hle, hp.2.2.2⟩

theorem PartTallies.lastOver (h : PartTallies limits files p g) (hopen : p.out.isSome = true)
    {size : Nat} (hover : size < p.bytesWritten) : LastOver size g.files := by
  obtain ⟨out, hout⟩ := Option.isSome_iff_exists.mp hopen
  obtain ⟨done, -, hp⟩ := h
  rw [hout] at hp
  obtain ⟨-, -, -, data, hg, hlength⟩ := hp
  exact ⟨done, _, hg, by rw [hlength]; exact hover⟩

end Room

/-! ## The refused run, and the one with more room -/

namespace UploadProgram

open WriteRecord

section Room

variable {limits : MultipartLimits} {room : Nat} {files : List MultipartSavedFile} {p : PartState}
  {g : WriteRecord}

/-- A pending line for which there is room either way. -/
theorem storePending_roomy (hle : limits.maxFileBytes ≤ room) (newline : Bool)
    (hfit : p.out.isSome = true →
      p.bytesWritten + (pendingBytes newline p.pending).length ≤ limits.maxFileBytes) :
    storePending (roomy limits room) files newline p = storePending limits files newline p := by
  rw [storePending, storePending]
  cases hpending : p.pending with
  | none => rfl
  | some l =>
      cases hout : p.out with
      | none => rfl
      | some out =>
          rw [hout, hpending, length_pendingBytes] at hfit
          have hroom : p.bytesWritten + (l.length + if newline then 1 else 0) ≤
              limits.maxFileBytes := hfit rfl
          have hmore : p.bytesWritten + (l.length + if newline then 1 else 0) ≤
              (roomy limits room).maxFileBytes := Nat.le_trans hroom hle
          simp only
          rw [if_neg (Nat.not_lt.mpr hroom), if_neg (Nat.not_lt.mpr hmore)]

/-- A pending line for which there is no room in a file. -/
theorem storePending_over {newline : Bool} (hopen : p.out.isSome = true)
    (hinv : p.bytesWritten ≤ limits.maxFileBytes)
    (hover : limits.maxFileBytes < p.bytesWritten + (pendingBytes newline p.pending).length) :
    storePending limits files newline p =
      .done (.error (refuse files 413 "Uploaded file too large")) := by
  obtain ⟨out, hout⟩ := Option.isSome_iff_exists.mp hopen
  rw [storePending]
  cases hpending : p.pending with
  | none =>
      rw [hpending, pendingBytes, List.length_nil] at hover
      omega
  | some l =>
      rw [hpending, length_pendingBytes] at hover
      simp only [hout]
      rw [if_pos hover]

/-- What is left of a part once more than `size` was taken of its file. -/
def Overfills (size : Nat) (limits : MultipartLimits) (g g' : WriteRecord) (r : PartEnd) : Prop :=
  g'.short = true ∨ (Overfull size g.files g'.files ∧
    match r with
    | .returned _ | .failed => True
    | .next files _ => Tallies limits files g'.files)

/-- A file whose next line takes it over `size`, and that has room for it. -/
theorem contentLoop_overfills (uploadDirectory : Path) (delimiter : Bytes) {raw : Bytes}
    (rest : List Bytes) (h : PartTallies limits files p g) (hopen : p.out.isSome = true)
    {newline : Bool} (hnewline : newline = false ↔ IsDelimiter delimiter (dropCr raw)) {size : Nat}
    (hover : size < p.bytesWritten + (pendingBytes newline p.pending).length)
    (hroom : p.bytesWritten + (pendingBytes newline p.pending).length ≤ limits.maxFileBytes) :
    (contentLoop uploadDirectory limits delimiter files (raw :: rest) p).Follows note Asks
      (fun g' r => Overfills size limits g g' r) g := by
  have hstored := storePending_tallies newline h
  rw [contentLoop]
  simp only []
  split
  · next hd =>
      obtain rfl : newline = false := hnewline.mpr hd
      refine Prog.Follows.bind (hstored.mono ?_)
      rintro g' (result | p') (hshort | ⟨hextends, hr⟩)
      · exact Or.inl hshort
      · exact absurd (hr.2.2.2 hopen) (Nat.not_lt.mpr hroom)
      · exact follows_short (fun _ _ h => Or.inl h) _ hshort
      · have hlast : LastOver size g'.files :=
          hr.1.lastOver (by rw [hr.2.1]; exact hopen) (by rw [hr.2.2 hopen]; exact hover)
        have hclosed := hr.1.closed uploadDirectory
        simp only
        split
        · exact Or.inr ⟨hlast.overfull hextends, trivial⟩
        · exact Or.inr ⟨hlast.overfull hextends, hclosed⟩
  · next hd =>
      obtain rfl : newline = true := eq_true_of_ne_false fun h => hd (hnewline.mp h)
      refine Prog.Follows.bind (hstored.mono ?_)
      rintro g' (result | p') (hshort | ⟨hextends, hr⟩)
      · exact Or.inl hshort
      · exact absurd (hr.2.2.2 hopen) (Nat.not_lt.mpr hroom)
      · exact follows_short (fun _ _ h => Or.inl h) _ hshort
      · have hlast : LastOver size g'.files :=
          hr.1.lastOver (by rw [hr.2.1]; exact hopen) (by rw [hr.2.2 hopen]; exact hover)
        refine (contentLoop_tallies (p := { p' with pending := some (dropCr raw) })
          uploadDirectory delimiter rest hr.1).mono ?_
        rintro g'' r (hshort | ⟨hextends', hr'⟩)
        · exact Or.inl hshort
        · rw [show ({ p' with pending := some (dropCr raw) } : PartState).out = p.out from
            hr.2.1] at hextends'
          refine Or.inr ⟨(hlast.extends hextends').overfull (hextends.trans hextends'), ?_⟩
          cases r with
          | returned result => trivial
          | next files rest => exact hr'
          | failed => trivial

/-- Two runs of a part, the other with more room: they end alike, unless the one
refuses the file as too large and the other overfills it. -/
theorem contentLoop_tracks (hle : limits.maxFileBytes ≤ room) (uploadDirectory : Path)
    (delimiter : Bytes) (lines : List Bytes) (h : PartTallies limits files p g)
    (hshort : g.short = false) (hlines : lineBytes lines ≤ room)
    (hroom : p.out.isSome = true →
      p.bytesWritten + (pendingBytes true p.pending).length + lineBytes lines ≤ room) :
    (contentLoop uploadDirectory limits delimiter files lines p).Tracks Whole note
      (fun g' r rest => g'.short = false ∧
        match r with
        | .returned result => (¬ TooLarge result ∧ rest = .done r) ∨ (TooLarge result ∧
            rest.Follows note Asks
              (fun g'' r' => Overfills limits.maxFileBytes (roomy limits room) g' g'' r') g')
        | .next files lines => rest = .done r ∧ Tallies limits files g'.files ∧
            lineBytes lines ≤ room
        | .failed => rest = .done r)
      (contentLoop uploadDirectory (roomy limits room) delimiter files lines p) g := by
  induction lines generalizing p g with
  | nil => exact ⟨hshort, rfl⟩
  | cons raw rest ih =>
      rw [lineBytes_cons] at hlines hroom
      obtain ⟨newline, hnewline⟩ :
          ∃ newline, newline = false ↔ IsDelimiter delimiter (dropCr raw) :=
        ⟨!decide (IsDelimiter delimiter (dropCr raw)), by simp⟩
      by_cases hfit : p.out.isSome = true →
          p.bytesWritten + (pendingBytes newline p.pending).length ≤ limits.maxFileBytes
      · have hstored := tracks_itself (storePending_tallies newline h) hshort
        rw [contentLoop, contentLoop]
        simp only []
        split
        · next hd =>
            obtain rfl : newline = false := hnewline.mpr hd
            rw [storePending_roomy hle false hfit]
            refine Prog.Tracks.bind (hstored.mono ?_)
            rintro g' (result | p') _ ⟨hr, hshort', rfl⟩
            · obtain ⟨-, -, -, hopen, hover⟩ := hr
              refine ⟨hshort', Or.inl ⟨fun hlarge => ?_, rfl⟩⟩
              exact absurd (hover (hopen hlarge)) (Nat.not_lt.mpr (hfit (hopen hlarge)))
            · obtain ⟨-, hpart, -, -⟩ := hr
              simp only [Prog.done_bind]
              split
              · exact ⟨hshort', Or.inl ⟨not_tooLarge_accept _, rfl⟩⟩
              · exact ⟨hshort', rfl, hpart.closed uploadDirectory, by omega⟩
        · next hd =>
            obtain rfl : newline = true := eq_true_of_ne_false fun h => hd (hnewline.mp h)
            rw [storePending_roomy hle true hfit]
            refine Prog.Tracks.bind (hstored.mono ?_)
            rintro g' (result | p') _ ⟨hr, hshort', rfl⟩
            · obtain ⟨-, -, -, hopen, hover⟩ := hr
              refine ⟨hshort', Or.inl ⟨fun hlarge => ?_, rfl⟩⟩
              exact absurd (hover (hopen hlarge)) (Nat.not_lt.mpr (hfit (hopen hlarge)))
            · obtain ⟨-, hpart, hout, hwritten⟩ := hr
              have hline := length_dropCr_le raw
              refine ih (p := { p' with pending := some (dropCr raw) }) hpart hshort' (by omega) ?_
              intro hopen
              have hopen' : p.out.isSome = true := hout ▸ hopen
              have hbytes := hwritten hopen'
              have hall := hroom hopen'
              simp only [pendingBytes, if_true, List.length_append, List.length_singleton]
              omega
      · obtain ⟨hopen, hover⟩ := Classical.not_imp.mp hfit
        have hover := Nat.not_le.mp hover
        have hlength : (pendingBytes newline p.pending).length ≤
            (pendingBytes true p.pending).length := by
          cases p.pending <;> cases newline <;> simp [pendingBytes]
        have hall := hroom hopen
        have hrun : contentLoop uploadDirectory limits delimiter files (raw :: rest) p =
            .done (.returned (refuse files 413 "Uploaded file too large")) := by
          have hstop : storePending limits files newline p =
              .done (.error (refuse files 413 "Uploaded file too large")) :=
            storePending_over hopen (h.within hopen) hover
          rw [contentLoop]
          simp only []
          split
          · next hd =>
              obtain rfl : newline = false := hnewline.mpr hd
              rw [hstop]
              rfl
          · next hd =>
              obtain rfl : newline = true := eq_true_of_ne_false fun h => hd (hnewline.mp h)
              rw [hstop]
              rfl
        rw [hrun]
        exact ⟨hshort, Or.inr ⟨⟨rfl, rfl⟩, contentLoop_overfills uploadDirectory delimiter rest
          (h.roomy hle) hopen hnewline hover
          (show p.bytesWritten + (pendingBytes newline p.pending).length ≤ room by omega)⟩⟩

/-- Two runs over the parts: where the one refuses a file as too large, the other
overfills it. -/
theorem spoolLoop_tracks (hle : limits.maxFileBytes ≤ room) (uploadDirectory : Path)
    (delimiter : Bytes) (allowed : Nat) (lines : List Bytes) (h : Tallies limits files g.files)
    (hshort : g.short = false) (hlines : lineBytes lines ≤ room) :
    (spoolLoop uploadDirectory limits delimiter allowed lines files).Tracks Whole note
      (fun g' result rest => TooLarge result → rest.Follows note Asks
        (fun g'' _ => g''.short = true ∨ Overfull limits.maxFileBytes g'.files g''.files) g')
      (spoolLoop uploadDirectory (roomy limits room) delimiter allowed lines files) g := by
  induction allowed generalizing lines files g with
  | zero => exact fun hlarge => absurd hlarge (not_tooLarge (by decide) _ _)
  | succ allowed ih =>
      have hbehind := lineBytes_readPartHeaders lines []
      rw [spoolLoop, spoolLoop]
      generalize readPartHeaders lines [] = headers at hbehind ⊢
      obtain ⟨rawHeaders, rest⟩ := headers
      simp only at hbehind ⊢
      split
      · exact fun hlarge => absurd hlarge (not_tooLarge (by decide) _ _)
      · refine Prog.Tracks.bind ((tracks_itself ((openPart_tallies rawHeaders h).mono
          fun _ _ hr => Or.inr hr) hshort).mono ?_)
        rintro g₁ (result | p) _ ⟨hr, hshort₁, rfl⟩
        · exact fun hlarge => absurd hlarge hr.2.2
        · obtain ⟨hpart, hwritten, hpending, -⟩ := hr
          rw [Prog.done_bind]
          refine Prog.Tracks.bind ((contentLoop_tracks hle uploadDirectory delimiter
            (rest.getD []) hpart hshort₁ (Nat.le_trans hbehind hlines) ?_).mono ?_)
          · intro _
            rw [hwritten, hpending, pendingBytes, List.length_nil]
            omega
          · rintro g₂ (result | ⟨files, behind⟩ | _) rest₂ ⟨hshort₂, hr⟩
            · intro hlarge
              obtain ⟨-, hrest⟩ := hr.resolve_left fun h => h.1 hlarge
              refine Prog.Follows.bind (hrest.mono ?_)
              rintro g₃ (result' | ⟨files', behind'⟩ | _) (hshort₃ | ⟨hover, hr'⟩)
              · exact Or.inl hshort₃
              · exact Or.inr hover
              · exact follows_short (fun _ _ h => Or.inl h) _ hshort₃
              · refine (spoolLoop_tallies uploadDirectory delimiter allowed behind' hr').mono ?_
                rintro g₄ result' (hshort₄ | ⟨hfront, -⟩)
                · exact Or.inl hshort₄
                · exact Or.inr (hover.behind hfront)
              · exact Or.inl hshort₃
              · exact Or.inr hover
            · obtain ⟨rfl, htallies, hbehind'⟩ := hr
              exact ih behind htallies hshort₂ hbehind'
            · obtain rfl := hr
              exact fun hlarge => absurd hlarge (not_tooLarge (by decide) _ _)

/-- A whole run, and one whose file limit has room for the spool. -/
theorem saveUploadsFromSpoolFile_tracks (hle : limits.maxFileBytes ≤ room)
    {spoolFile : Option Bytes} (hroom : ∀ content, spoolFile = some content → content.length ≤ room)
    (contentType : Bytes) (uploadDirectory : Path) :
    (saveUploadsFromSpoolFile spoolFile contentType uploadDirectory limits).Tracks Whole note
      (fun g r rest => ∀ result, r = .ok result → TooLarge result → rest.Follows note Asks
        (fun g' _ => g'.short = true ∨ Overfull limits.maxFileBytes g.files g'.files) g)
      (saveUploadsFromSpoolFile spoolFile contentType uploadDirectory (roomy limits room)) {} := by
  have hrefused : ∀ {error : String}, bytes error ≠ bytes "Uploaded file too large" →
      ∀ (status : Nat) (g : WriteRecord) (rest : UploadProgram (Except Bytes MultipartResult))
        result, (.ok (refuse [] status error) : Except Bytes MultipartResult) = .ok result →
        TooLarge result → rest.Follows note Asks
          (fun g' _ => g'.short = true ∨ Overfull limits.maxFileBytes g.files g'.files) g := by
    rintro error herror status g rest _ ⟨⟩ hlarge
    exact absurd hlarge (not_tooLarge herror _ _)
  rw [saveUploadsFromSpoolFile, saveUploadsFromSpoolFile]
  cases Multipart.extractBoundary contentType with
  | none => exact hrefused (by decide) _ _ _
  | some boundary =>
      by_cases hlimits : limits.maxParts = 0 ∨ limits.maxFileBytes = 0
      · simp only [if_pos hlimits]
        exact hrefused (by decide) _ _ _
      · have hlimits' : ¬ ((roomy limits room).maxParts = 0 ∨
            (roomy limits room).maxFileBytes = 0) := by
          have hparts : (roomy limits room).maxParts = limits.maxParts := rfl
          have hbytes : (roomy limits room).maxFileBytes = room := rfl
          omega
        simp only [if_neg hlimits, if_neg hlimits']
        cases spoolFile with
        | none => exact hrefused (by decide) _ _ _
        | some content =>
            refine ⟨_, rfl, fun made _ => ?_⟩
            cases made with
            | error e => rintro _ ⟨⟩
            | ok _ =>
                have hbytes := lineBytes_getlines_le content
                cases hget : getlines content with
                | nil => exact hrefused (by decide) _ _ _
                | cons first rest =>
                    by_cases hfirst : dropCr first ≠ bytes "--" ++ boundary
                    · simp only [if_pos hfirst]
                      exact hrefused (by decide) _ _ _
                    · simp only [if_neg hfirst]
                      rw [hget, lineBytes_cons] at hbytes
                      have hcontent := hroom content rfl
                      have hnone : Tallies limits [] ({} : WriteRecord).files := ⟨rfl, by simp⟩
                      refine Prog.Tracks.map ((spoolLoop_tracks hle uploadDirectory
                        (bytes "--" ++ boundary) limits.maxParts rest hnone rfl (by omega)).mono ?_)
                      rintro g result rest hr _ ⟨⟩ hlarge
                      exact Prog.Follows.map (hr hlarge)

end Room

end UploadProgram

/-! ## The directory -/

/-- The directory holds the recorded files as they are recorded, if no name comes
up twice, and any other as it did before. -/
structure Mirrors (before : List (Bytes × Bytes)) (st : Uploads) (g : WriteRecord) : Prop where
  whole : g.short = false
  holds : (g.files.map (·.1)).Nodup → ∀ f ∈ g.files, st.dir.lookup f.1 = some f.2
  others : ∀ name ∉ g.files.map (·.1), st.dir.lookup name = before.lookup name

section Run

variable {env : UploadEnv} (hwrites : env.WritesSucceed)

include hwrites

theorem handle_whole (st : Uploads) (q : UploadQuestion) : Whole q (env.handle st q).1 := by
  cases q with
  | write name data => exact hwrites st.writes
  | create | createDirectories | micros => trivial

theorem mirrors_handle {before : List (Bytes × Bytes)} (st : Uploads) (g : WriteRecord)
    (q : UploadQuestion) (h : Mirrors before st g) (hask : g.Asks q) :
    Mirrors before (env.handle st q).2 (g.note q (env.handle st q).1) := by
  cases q with
  | createDirectories => exact h
  | micros clean => exact h
  | create name =>
      rw [UploadEnv.handle]
      cases hcreate : env.canCreate st.opened with
      | false => exact ⟨h.whole, h.holds, h.others⟩
      | true =>
          simp only [WriteRecord.note]
          constructor
          · exact h.whole
          · intro hnodup f hf
            rw [List.map_append, List.map_singleton] at hnodup
            obtain ⟨hbefore, -, hnew⟩ := List.nodup_append.mp hnodup
            simp only [if_true]
            rcases List.mem_append.mp hf with hf | hf
            · rw [lookup_put_of_ne (hnew f.1 (List.mem_map_of_mem hf) name (by simp)),
                h.holds hbefore f hf]
            · rw [List.mem_singleton.mp hf, lookup_put_self]
          · intro other hother
            rw [List.map_append, List.mem_append, not_or] at hother
            simp only [if_true]
            rw [lookup_put_of_ne (fun heq => hother.2 (by simp [heq])), h.others other hother.1]
  | write name data =>
      obtain ⟨done, old, hfiles⟩ := hask.resolve_left (by simp [h.whole])
      have hnames : (done ++ [(name, old ++ data)]).map (·.1) = g.files.map (·.1) := by
        rw [hfiles]
        simp
      rw [UploadEnv.handle, hwrites st.writes]
      simp only [WriteRecord.note, hfiles, addToLast_concat]
      constructor
      · exact h.whole
      · intro hnodup f hf
        have hold := h.holds (hnames ▸ hnodup)
        simp only
        rcases List.mem_append.mp hf with hf | hf
        · rw [List.map_append, List.map_singleton] at hnodup
          have hne := (List.nodup_append.mp hnodup).2.2 f.1 (List.mem_map_of_mem hf) name (by simp)
          rw [lookup_put_of_ne hne]
          exact hold f (by rw [hfiles]; exact List.mem_append_left _ hf)
        · rw [List.mem_singleton.mp hf, lookup_put_self,
            hold (name, old) (by rw [hfiles]; simp)]
          rfl
      · intro other hother
        rw [hnames] at hother
        have hne : other ≠ name := by
          rintro rfl
          exact hother (by rw [hfiles]; simp)
        rw [← h.others other hother]
        exact lookup_put_of_ne hne _ _

end Run

section Record

variable (env : UploadEnv) (spoolFile : Option Bytes) (contentType : Bytes)
  (uploadDirectory : Path) (limits : MultipartLimits) (st : Uploads)

/-- A run alone, and the record of it. -/
def recordedRun : Except Bytes MultipartResult × Uploads × WriteRecord :=
  (UploadProgram.saveUploadsFromSpoolFile spoolFile contentType uploadDirectory limits).exec
    (Prog.noted env.handle WriteRecord.note) (st, {})

/-- The names of the files a run creates, in order. -/
def createdNames : List Bytes :=
  (recordedRun env spoolFile contentType uploadDirectory limits st).2.2.files.map (·.1)

theorem recordedRun_eq :
    Multipart.saveUploadsFromSpoolFile env spoolFile contentType uploadDirectory limits st =
      ((recordedRun env spoolFile contentType uploadDirectory limits st).1,
        (recordedRun env spoolFile contentType uploadDirectory limits st).2.1) := by
  rw [← UploadProgram.saveUploadsFromSpoolFile_exec]
  exact Prog.exec_noted _ _ _

end Record

/-- The files created are within the limits, no other file is touched, and an
accepted run reports each with the bytes that were written to it. -/
structure WithinQuotas (limits : MultipartLimits) (before : Uploads) (created : List Bytes)
    (run : Except Bytes MultipartResult × Uploads) : Prop where
  count : created.length ≤ limits.maxParts
  others : ∀ name ∉ created, run.2.dir.lookup name = before.dir.lookup name
  small : ∀ name ∈ created, ∃ content, run.2.dir.lookup name = some content ∧
    content.length ≤ limits.maxFileBytes
  names : ∀ result, run.1 = .ok result → result.ok = true →
    result.files.map (·.storedFilename) = created
  sizes : ∀ result, run.1 = .ok result → result.ok = true → ∀ f ∈ result.files,
    ∃ content, run.2.dir.lookup f.storedFilename = some content ∧ f.size = content.length

section Quotas

variable {env : UploadEnv} (hwrites : env.WritesSucceed) (spoolFile : Option Bytes)
  (contentType : Bytes) (uploadDirectory : Path) (limits : MultipartLimits) (st : Uploads)

include hwrites

theorem recordedRun_mirrors :
    let run := recordedRun env spoolFile contentType uploadDirectory limits st
    (run.2.2.files.length ≤ limits.maxParts ∧
      (∀ f ∈ run.2.2.files, f.2.length ≤ limits.maxFileBytes) ∧
      ∀ result, run.1 = .ok result → UploadProgram.Ended limits run.2.2 result) ∧
      Mirrors st.dir run.2.1 run.2.2 := by
  have htallies := UploadProgram.saveUploadsFromSpoolFile_tallies spoolFile contentType
    uploadDirectory limits
  obtain ⟨hpost, hmirrors⟩ := htallies.exec (mirrors_handle hwrites)
    (show Mirrors st.dir st {} from ⟨rfl, by simp, fun _ _ => rfl⟩)
  exact ⟨hpost.resolve_left (by rw [hmirrors.whole]; decide), hmirrors⟩

theorem withinQuotas
    (hdistinct : (createdNames env spoolFile contentType uploadDirectory limits st).Nodup) :
    WithinQuotas limits st (createdNames env spoolFile contentType uploadDirectory limits st)
      (Multipart.saveUploadsFromSpoolFile env spoolFile contentType uploadDirectory limits st) := by
  obtain ⟨⟨hcount, hsmall, hended⟩, hmirrors⟩ := recordedRun_mirrors hwrites spoolFile contentType
    uploadDirectory limits st
  have hholds := hmirrors.holds hdistinct
  rw [recordedRun_eq]
  constructor
  · rw [createdNames, List.length_map]
    exact hcount
  · exact hmirrors.others
  · intro name hname
    obtain ⟨f, hf, rfl⟩ := List.mem_map.mp hname
    exact ⟨f.2, hholds f hf, hsmall f hf⟩
  · intro result hresult hok
    have hsizes := ((hended result hresult).2 hok).sizes
    have hnames := congrArg (List.map Prod.fst) hsizes
    rwa [List.map_map, List.map_map] at hnames
  · intro result hresult hok file hfile
    have hsizes := ((hended result hresult).2 hok).sizes
    have hmem := List.mem_map_of_mem (f := fun f => (f.storedFilename, f.size)) hfile
    rw [hsizes] at hmem
    obtain ⟨f, hf, heq⟩ := List.mem_map.mp hmem
    obtain ⟨hname, hsize⟩ := Prod.mk.inj heq
    exact ⟨f.2, hname ▸ hholds f hf, hsize.symm⟩

/-- A file is refused as too large only if the same upload, with room for it,
stores more than the limit in it. -/
theorem stores_more_with_room {result : MultipartResult}
    (hresult : (Multipart.saveUploadsFromSpoolFile env spoolFile contentType uploadDirectory limits
      st).1 = .ok result) (hlarge : TooLarge result) {room : Nat}
    (hle : limits.maxFileBytes ≤ room)
    (hroom : ∀ content, spoolFile = some content → content.length ≤ room)
    (hdistinct : (createdNames env spoolFile contentType uploadDirectory (roomy limits room)
      st).Nodup) :
    ∃ name content,
      (createdNames env spoolFile contentType uploadDirectory limits st).getLast? = some name ∧
      (Multipart.saveUploadsFromSpoolFile env spoolFile contentType uploadDirectory
        (roomy limits room) st).2.dir.lookup name = some content ∧
      limits.maxFileBytes < content.length := by
  have htracks := UploadProgram.saveUploadsFromSpoolFile_tracks hle hroom contentType
    uploadDirectory
  obtain ⟨rest, hpost, hrun⟩ := htracks.exec (handle_whole hwrites) (w := st)
  obtain ⟨-, hmirrors⟩ := recordedRun_mirrors hwrites spoolFile contentType uploadDirectory limits
    st
  rw [recordedRun_eq] at hresult
  have hcontinued : rest.Follows WriteRecord.note WriteRecord.Asks
      (fun g' _ => g'.short = true ∨ Overfull limits.maxFileBytes
        (recordedRun env spoolFile contentType uploadDirectory limits st).2.2.files g'.files)
      (recordedRun env spoolFile contentType uploadDirectory limits st).2.2 :=
    hpost result hresult hlarge
  have hroomy : recordedRun env spoolFile contentType uploadDirectory (roomy limits room) st =
      rest.exec (Prog.noted env.handle WriteRecord.note)
        (recordedRun env spoolFile contentType uploadDirectory limits st).2 := hrun
  have hboth := hcontinued.exec (mirrors_handle hwrites) hmirrors
  rw [Prod.mk.eta, ← hroomy] at hboth
  obtain ⟨hover, hmirrors'⟩ := hboth
  obtain ⟨done, f, f', tail, hfiles, hfiles', hname, hsize⟩ :=
    hover.resolve_left (by rw [hmirrors'.whole]; decide)
  refine ⟨f.1, f'.2, ?_, ?_, hsize⟩
  · rw [createdNames, hfiles]
    simp
  · rw [recordedRun_eq, ← hname]
    exact hmirrors'.holds hdistinct f' (by rw [hfiles']; simp)

/-- Files are created within the limits, and none is refused as too large that
would not have been. -/
theorem uploads_within_quotas
    (hdistinct : (createdNames env spoolFile contentType uploadDirectory limits st).Nodup) :
    let run :=
      Multipart.saveUploadsFromSpoolFile env spoolFile contentType uploadDirectory limits st
    let created := createdNames env spoolFile contentType uploadDirectory limits st
    WithinQuotas limits st created run ∧
      ∀ result, run.1 = .ok result → TooLarge result → ∀ room, limits.maxFileBytes ≤ room →
        (∀ content, spoolFile = some content → content.length ≤ room) →
        (createdNames env spoolFile contentType uploadDirectory (roomy limits room) st).Nodup →
        ∃ name content, created.getLast? = some name ∧
          (Multipart.saveUploadsFromSpoolFile env spoolFile contentType uploadDirectory
            (roomy limits room) st).2.dir.lookup name = some content ∧
          limits.maxFileBytes < content.length :=
  ⟨withinQuotas hwrites spoolFile contentType uploadDirectory limits st hdistinct,
    fun _ hresult hlarge _ hle hroom hdistinct' =>
      stores_more_with_room hwrites spoolFile contentType uploadDirectory limits st hresult hlarge
        hle hroom hdistinct'⟩

end Quotas

theorem uploads_within_quotas_textFiles :
    let spool := some (encodeForm (bytes "B") textFiles)
    let created := createdNames { micros := id } spool formType {} { maxFileBytes := 4 } {}
    WithinQuotas { maxFileBytes := 4 } {} created
        (Multipart.saveUploadsFromSpoolFile { micros := id } spool formType {}
          { maxFileBytes := 4 } {}) ∧
      ∃ name content, created.getLast? = some name ∧
        (Multipart.saveUploadsFromSpoolFile { micros := id } spool formType {}
          (roomy { maxFileBytes := 4 } 400) {}).2.dir.lookup name = some content ∧
        4 < content.length := by
  have hwrites : UploadEnv.WritesSucceed { micros := id } := fun _ => rfl
  obtain ⟨hwithin, hrefused⟩ := uploads_within_quotas hwrites
    (some (encodeForm (bytes "B") textFiles)) formType {} { maxFileBytes := 4 } {} (by decide)
  have hlarge : (Multipart.saveUploadsFromSpoolFile { micros := id }
      (some (encodeForm (bytes "B") textFiles)) formType {} { maxFileBytes := 4 } {}).1 =
      .ok (refuse [] 413 "Uploaded file too large") := by
    decide
  refine ⟨hwithin, hrefused _ hlarge ⟨rfl, rfl⟩ 400 (by decide) ?_ (by decide +kernel)⟩
  intro content hcontent
  rw [← Option.some.inj hcontent]
  decide +kernel

end HydrogenHttpd.Ref
