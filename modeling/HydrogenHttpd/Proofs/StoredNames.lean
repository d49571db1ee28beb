import HydrogenHttpd.Base.Transitions
import HydrogenHttpd.Proofs.UploadNames
import HydrogenHttpd.Ref.UploadProgram

/-!
# When stored uploads are not overwritten

A stored name is a clock reading and a clean name. One run reports the files it
created, in their order (`saveUploadsFromSpoolFile_follows`), and creates a file
only under the name it has just read the clock for. What is left is about the
readings: as long as no two of them are for one stored name, and none is for
one the directory had at the start (`FreshName`), no file is created over
another (`StoredOnce`), and no name is reported twice. Two parts of one name
and one reading are stored in one file (`equal_names_overwrite`).
-/

namespace HydrogenHttpd.Ref

open Base

/-! ## Names -/

/-- The underscore tells the reading from the clean name. -/
theorem storedName_injective {m m' : Nat} {clean clean' : Bytes}
    (h : storedName m clean = storedName m' clean') : m = m' ∧ clean = clean' := by
  have hdigits : ∀ n, (95 : UInt8) ∉ decimal n := fun n hmem =>
    absurd (isDigit_of_mem_decimal hmem) (by decide)
  simp only [storedName, show bytes "_" = [95] from rfl, List.append_assoc,
    List.singleton_append] at h
  have hlen : (decimal m).length = (decimal m').length := by
    have hfind := find?_elem_append (hdigits m) clean
    rw [h, find?_elem_append (hdigits m') clean'] at hfind
    exact (Option.some.inj hfind).symm
  obtain ⟨hm, hclean⟩ := List.append_inj h hlen
  exact ⟨decimal_injective hm, (List.cons.inj hclean).2⟩

theorem slash_not_mem_storedName {m : Nat} {clean : Bytes} (h : slash ∉ clean) :
    slash ∉ storedName m clean := by
  intro hmem
  rcases List.mem_append.mp hmem with hmem | hmem
  · rcases List.mem_append.mp hmem with hmem | hmem
    · exact absurd (isDigit_of_mem_decimal hmem) (by decide)
    · exact absurd hmem (by decide)
  · exact h hmem

theorem storedName_ne_nil (m : Nat) (clean : Bytes) : storedName m clean ≠ [] := by
  simp [storedName, show bytes "_" = [95] from rfl]

theorem slash_not_mem_sanitizeFilename (s : Bytes) : slash ∉ Multipart.sanitizeFilename s :=
  fun h => absurd ((sanitizeFilename_clean s).safe _ h) (by decide)

/-! ## What one run does -/

/-- What a run has created, and the name it has a reading for. -/
structure RunRecord where
  made : List Bytes := []
  waiting : Option Bytes := none

namespace RunRecord

def note (g : RunRecord) : (q : UploadQuestion) → UploadAnswer q → RunRecord
  | .micros clean, micros => { g with waiting := some (storedName micros clean) }
  | .create name, true => { made := g.made ++ [name], waiting := none }
  | .create _, false => { g with waiting := none }
  | .createDirectories, _ | .write .., _ => g

/-- A file is created only under the name the run has a reading for, and the
clock is read for a name without a slash. -/
def Asks (g : RunRecord) : UploadQuestion → Prop
  | .micros clean => slash ∉ clean
  | .create name => g.waiting = some name
  | .createDirectories | .write .. => True

end RunRecord

/-- The files are those of these names, in this order. -/
structure Lists (uploadDirectory : Path) (files : List MultipartSavedFile) (names : List Bytes) :
    Prop where
  names : files.map (·.storedFilename) = names
  paths : ∀ f ∈ files, f.storedPath = uploadDirectory / Path.ofBytes f.storedFilename

/-- A successful run reports what it has created. -/
def Reports (uploadDirectory : Path) (g : RunRecord) (result : MultipartResult) : Prop :=
  result.ok = true → Lists uploadDirectory result.files g.made

/-- The files created before a part, and the file of the part. -/
def partNamesMade (uploadDirectory : Path) (files : List MultipartSavedFile) (p : PartState)
    (g : RunRecord) : Prop :=
  ∃ names, Lists uploadDirectory files names ∧
    g.made = names ++ (if p.out.isSome then [p.storedName] else [])

namespace UploadProgram

theorem write_follows {α : Type} {out : OutFile} {data : Bytes} {g : RunRecord}
    {post : RunRecord → α → Prop} {f : OutFile → UploadProgram α}
    (h : ∀ out, (f out).Follows RunRecord.note RunRecord.Asks post g) :
    ((write out data).bind f).Follows RunRecord.note RunRecord.Asks post g := by
  rw [write]
  split
  · exact ⟨trivial, fun _ => h _⟩
  · exact h out

/-- A pending line changes neither the record nor the names of the part. -/
theorem storePending_follows (limits : MultipartLimits) (files : List MultipartSavedFile)
    (newline : Bool) (p : PartState) (g : RunRecord) :
    (storePending limits files newline p).Follows RunRecord.note RunRecord.Asks
      (fun g' r => g' = g ∧
        match r with
        | .error result => result.ok = false
        | .ok p' => p'.out.isSome = p.out.isSome ∧ p'.storedName = p.storedName) g := by
  rw [storePending]
  cases p.pending with
  | none => exact ⟨rfl, rfl, rfl⟩
  | some pending =>
      cases hout : p.out with
      | none =>
          simp only
          by_cases hlimit : limits.maxFieldBytes <
              p.fieldBytes + (pending.length + if newline then 1 else 0)
          · rw [if_pos hlimit]
            exact ⟨rfl, rfl⟩
          · rw [if_neg hlimit]
            exact ⟨rfl, by simp, rfl⟩
      | some out =>
          simp only
          by_cases hlimit : limits.maxFileBytes <
              p.bytesWritten + (pending.length + if newline then 1 else 0)
          · rw [if_pos hlimit]
            exact ⟨rfl, rfl⟩
          · rw [if_neg hlimit]
            refine write_follows fun out => ?_
            cases newline with
            | false => exact ⟨rfl, rfl, rfl⟩
            | true => exact write_follows fun out => ⟨rfl, rfl, rfl⟩

theorem closePart_lists {uploadDirectory : Path} {files : List MultipartSavedFile} {p : PartState}
    {g : RunRecord} (h : partNamesMade uploadDirectory files p g) :
    Lists uploadDirectory (closePart uploadDirectory files p) g.made := by
  obtain ⟨names, hfiles, hmade⟩ := h
  rw [closePart, hmade]
  cases p.out with
  | none =>
      rw [Option.isSome_none, if_neg (by decide), List.append_nil]
      exact hfiles
  | some out =>
      rw [Option.isSome_some, if_pos rfl]
      refine ⟨by rw [List.map_append, hfiles.names]; rfl, fun f hf => ?_⟩
      rcases List.mem_append.mp hf with hf | hf
      · exact hfiles.paths f hf
      · rw [List.mem_singleton.mp hf]

theorem contentLoop_follows (uploadDirectory : Path) (limits : MultipartLimits)
    (delimiter : Bytes) {files : List MultipartSavedFile} (lines : List Bytes) {p : PartState}
    {g : RunRecord} (h : partNamesMade uploadDirectory files p g) :
    (contentLoop uploadDirectory limits delimiter files lines p).Follows RunRecord.note
      RunRecord.Asks
      (fun g' r => match r with
        | .returned result => Reports uploadDirectory g' result
        | .next files _ => Lists uploadDirectory files g'.made
        | .failed => True) g := by
  induction lines generalizing p with
  | nil => trivial
  | cons raw rest ih =>
      have hkeeps : ∀ p' : PartState, p'.out.isSome = p.out.isSome → p'.storedName = p.storedName →
          partNamesMade uploadDirectory files p' g := by
        intro p' hout hname
        obtain ⟨names, hfiles, hmade⟩ := h
        exact ⟨names, hfiles, by rw [hmade, hout, hname]⟩
      rw [contentLoop]
      split
      · refine Prog.Follows.bind ((storePending_follows limits files false p g).mono ?_)
        rintro _ (result | p') ⟨rfl, hr⟩
        · exact fun hok => absurd hok (by rw [hr]; decide)
        · have hclosed := closePart_lists (hkeeps p' hr.1 hr.2)
          simp only
          split
          · exact fun _ => hclosed
          · exact hclosed
      · refine Prog.Follows.bind ((storePending_follows limits files true p g).mono ?_)
        rintro _ (result | p') ⟨rfl, hr⟩
        · exact fun hok => absurd hok (by rw [hr]; decide)
        · exact ih (hkeeps { p' with pending := _ } hr.1 hr.2)

theorem openPart_follows {uploadDirectory : Path} {files : List MultipartSavedFile}
    (rawHeaders : Bytes) {g : RunRecord} (h : Lists uploadDirectory files g.made) :
    (openPart files rawHeaders).Follows RunRecord.note RunRecord.Asks
      (fun g' r => match r with
        | .error result => result.ok = false
        | .ok p => partNamesMade uploadDirectory files p g') g := by
  have hrefused : ∀ status error, (refuse files status error).ok = false := fun _ _ => rfl
  have hslash := slash_not_mem_sanitizeFilename (partNames rawHeaders).2
  rw [openPart]
  generalize partNames rawHeaders = names at hslash ⊢
  simp only
  generalize Multipart.sanitizeFilename names.2 = clean at hslash ⊢
  by_cases hfile : names.2 = []
  · rw [if_pos hfile]
    exact ⟨g.made, h, by simp⟩
  · rw [if_neg hfile]
    cases Multipart.isSafeUploadFilename clean with
    | false => exact hrefused _ _
    | true =>
        rw [if_neg (by decide)]
        refine ⟨hslash, fun micros => ⟨rfl, fun created => ?_⟩⟩
        cases created with
        | false => exact hrefused _ _
        | true => exact ⟨g.made, h, rfl⟩

theorem spoolLoop_follows (uploadDirectory : Path) (limits : MultipartLimits) (delimiter : Bytes)
    (allowed : Nat) (lines : List Bytes) {files : List MultipartSavedFile} {g : RunRecord}
    (h : Lists uploadDirectory files g.made) :
    (spoolLoop uploadDirectory limits delimiter allowed lines files).Follows RunRecord.note
      RunRecord.Asks (Reports uploadDirectory) g := by
  have hrefused : ∀ (g : RunRecord) (files : List MultipartSavedFile) status error,
      Reports uploadDirectory g (refuse files status error) := fun _ _ _ _ hok => by cases hok
  induction allowed generalizing lines files g with
  | zero => exact hrefused _ _ _ _
  | succ allowed ih =>
      rw [spoolLoop]
      rcases readPartHeaders lines [] with ⟨rawHeaders, rest⟩
      simp only
      split
      · exact hrefused _ _ _ _
      · refine Prog.Follows.bind ((openPart_follows rawHeaders h).mono ?_)
        rintro g (result | p) hr
        · exact fun hok => absurd hok (by rw [hr]; decide)
        · refine Prog.Follows.bind ((contentLoop_follows uploadDirectory limits delimiter
            (rest.getD []) hr).mono ?_)
          rintro g (result | ⟨files, rest⟩ | _) hr
          · exact hr
          · exact ih rest hr
          · exact hrefused _ _ _ _

/-- What a run asks, and what it answers in the end, whatever it is told. -/
theorem saveUploadsFromSpoolFile_follows (spoolFile : Option Bytes) (contentType : Bytes)
    (uploadDirectory : Path) (limits : MultipartLimits) :
    (saveUploadsFromSpoolFile spoolFile contentType uploadDirectory limits).Follows RunRecord.note
      RunRecord.Asks
      (fun g r => ∀ result, r = .ok result → Reports uploadDirectory g result) {} := by
  have hrefused : ∀ (g : RunRecord) status error result,
      (.ok (refuse [] status error) : Except Bytes MultipartResult) = .ok result →
        Reports uploadDirectory g result := by
    rintro g status error _ ⟨⟩ hok
    cases hok
  rw [saveUploadsFromSpoolFile]
  cases Multipart.extractBoundary contentType with
  | none => exact hrefused _ _ _
  | some boundary =>
      by_cases hlimits : limits.maxParts = 0 ∨ limits.maxFileBytes = 0
      · simp only [if_pos hlimits]
        exact hrefused _ _ _
      · simp only [if_neg hlimits]
        cases spoolFile with
        | none => exact hrefused _ _ _
        | some content =>
            refine ⟨trivial, fun made => ?_⟩
            cases made with
            | error e => exact fun result h => by cases h
            | ok _ =>
                cases getlines content with
                | nil => exact hrefused _ _ _
                | cons first rest =>
                    by_cases hfirst : dropCr first ≠ bytes "--" ++ boundary
                    · simp only [if_pos hfirst]
                      exact hrefused _ _ _
                    · simp only [if_neg hfirst]
                      have hloop := spoolLoop_follows uploadDirectory limits
                        (bytes "--" ++ boundary) limits.maxParts rest
                        (show Lists uploadDirectory [] ({} : RunRecord).made from
                          ⟨rfl, fun f hf => by cases hf⟩)
                      refine Prog.Follows.map (hloop.mono ?_)
                      rintro g result h _ ⟨⟩
                      exact h

end UploadProgram

/-! ## What all runs do -/

section World

variable {ι : Type} [DecidableEq ι]

namespace UploadWorld

/-- The names run `i` has created, in this order. -/
def madeBy (s : UploadWorld ι) (i : ι) : List Bytes := (s.created.filter (·.1 = i)).map (·.2.1)

def record (s : UploadWorld ι) (i : ι) : RunRecord := { made := s.madeBy i, waiting := s.waiting i }

omit [DecidableEq ι] in
/-- The stored names the clock was read for. -/
def issued (s : UploadWorld ι) : List Bytes := s.readings.map fun r => storedName r.1 r.2

omit [DecidableEq ι] in
def createdNames (s : UploadWorld ι) : List Bytes := s.created.map (·.2.1)

end UploadWorld

/-- The clock reads, for a clean name, what it has read for it in no other case,
and the directory had no file of that reading and that name at the start. -/
def FreshName (start : List Bytes) (s : UploadWorld ι) :
    (q : UploadQuestion) → UploadAnswer q → Prop
  | .micros clean, micros => (micros, clean) ∉ s.readings ∧ storedName micros clean ∉ start
  | .createDirectories, _ | .create _, _ | .write .., _ => True

/-- No stored name is created twice, or over a file. -/
structure StoredOnce (start : List Bytes) (uploadDirectory : Path) (s : UploadWorld ι) : Prop where
  issued : s.issued.Nodup
  apart : ∀ name ∈ s.issued, name ∉ start ∧ name ≠ [] ∧ slash ∉ name
  names : ∀ name ∈ s.names, name ∈ start ∨ name ∈ s.createdNames
  created : s.createdNames.Nodup
  new : ∀ c ∈ s.created, c.2.2 = false ∧ c.2.1 ∈ s.issued
  waiting : ∀ i name, s.waiting i = some name →
    name ∈ s.issued ∧ name ∉ s.createdNames ∧ ∀ j, j ≠ i → s.waiting j ≠ some name
  follows : ∀ i, (s.runs i).Follows RunRecord.note RunRecord.Asks
    (fun g r => ∀ result, r = .ok result → Reports uploadDirectory g result) (s.record i)

variable {start : List Bytes} {uploadDirectory : Path}

theorem storedOnce_initial {s : UploadWorld ι} (hs : s.Initial start uploadDirectory) :
    StoredOnce start uploadDirectory s where
  issued := by simp [UploadWorld.issued, hs.readings]
  apart := by simp [UploadWorld.issued, hs.readings]
  names name hname := Or.inl (hs.names ▸ hname)
  created := by simp [UploadWorld.createdNames, hs.created]
  new := by simp [hs.created]
  waiting i name h := by
    rw [hs.waiting i] at h
    cases h
  follows i := by
    obtain ⟨spoolFile, contentType, limits, hrun⟩ := hs.runs i
    have hrecord : s.record i = {} := by
      simp [UploadWorld.record, UploadWorld.madeBy, hs.created, hs.waiting i]
    rw [hrun, hrecord]
    exact UploadProgram.saveUploadsFromSpoolFile_follows _ _ _ _

/-- An answer to one run, as far as the runs go. -/
theorem follows_answer {s s' : UploadWorld ι} (hs : StoredOnce start uploadDirectory s) {i : ι}
    {run : UploadProgram (Except Bytes MultipartResult)} {g : RunRecord}
    (hrun : run.Follows RunRecord.note RunRecord.Asks
      (fun g r => ∀ result, r = .ok result → Reports uploadDirectory g result) g)
    (hruns : s'.runs = Function.update s.runs i run) (hown : s'.record i = g)
    (hothers : ∀ j, j ≠ i → s'.record j = s.record j) (j : ι) :
    (s'.runs j).Follows RunRecord.note RunRecord.Asks
      (fun g r => ∀ result, r = .ok result → Reports uploadDirectory g result) (s'.record j) := by
  rw [hruns]
  by_cases hj : j = i
  · subst hj
    rw [Function.update_self, hown]
    exact hrun
  · rw [Function.update_of_ne hj, hothers j hj]
    exact hs.follows j

/-- A reading that is new makes a name that is new. -/
theorem storedOnce_micros {s : UploadWorld ι} (hs : StoredOnce start uploadDirectory s) {i : ι}
    {clean : Bytes} {micros : Nat} {run : UploadProgram (Except Bytes MultipartResult)}
    (hslash : slash ∉ clean) (hfresh : FreshName start s (.micros clean) micros)
    (hrun : run.Follows RunRecord.note RunRecord.Asks
      (fun g r => ∀ result, r = .ok result → Reports uploadDirectory g result)
      { s.record i with waiting := some (storedName micros clean) }) :
    StoredOnce start uploadDirectory
      { s.answer i (.micros clean) micros with runs := Function.update s.runs i run } := by
  have hnew : storedName micros clean ∉ s.issued := by
    intro h
    obtain ⟨r, hr, heq⟩ := List.mem_map.mp h
    obtain ⟨hm, hclean⟩ := storedName_injective heq
    exact hfresh.1 (by rw [← hm, ← hclean]; exact hr)
  have hissued : ({ s.answer i (.micros clean) micros with
      runs := Function.update s.runs i run } : UploadWorld ι).issued =
        s.issued ++ [storedName micros clean] := List.map_append
  have hcreated : ∀ name ∈ s.createdNames, name ∈ s.issued := by
    intro name hname
    obtain ⟨c, hc, rfl⟩ := List.mem_map.mp hname
    exact (hs.new c hc).2
  exact {
    issued := by
      rw [hissued]
      refine List.nodup_append.mpr ⟨hs.issued, List.nodup_singleton _, ?_⟩
      rintro a ha b hb rfl
      exact hnew (List.mem_singleton.mp hb ▸ ha)
    apart := by
      intro name hname
      rw [hissued] at hname
      rcases List.mem_append.mp hname with hname | hname
      · exact hs.apart name hname
      · rw [List.mem_singleton.mp hname]
        exact ⟨hfresh.2, storedName_ne_nil _ _, slash_not_mem_storedName hslash⟩
    names := hs.names
    created := hs.created
    new := by
      intro c hc
      rw [hissued]
      exact ⟨(hs.new c hc).1, List.mem_append_left _ (hs.new c hc).2⟩
    waiting := by
      intro j name hj
      rw [hissued]
      simp only [UploadWorld.answer] at hj ⊢
      by_cases hji : j = i
      · subst hji
        rw [Function.update_self] at hj
        cases hj
        refine ⟨List.mem_append_right _ (List.mem_singleton_self _),
          fun h => hnew (hcreated _ h), fun k hk h => ?_⟩
        rw [Function.update_of_ne hk] at h
        exact hnew (hs.waiting k _ h).1
      · rw [Function.update_of_ne hji] at hj
        obtain ⟨hmem, hnot, hother⟩ := hs.waiting j name hj
        refine ⟨List.mem_append_left _ hmem, hnot, fun k hk h => ?_⟩
        by_cases hki : k = i
        · subst hki
          rw [Function.update_self] at h
          cases h
          exact hnew hmem
        · rw [Function.update_of_ne hki] at h
          exact hother k hk h
    follows := by
      refine follows_answer hs hrun rfl ?_ fun j hj => ?_
      · simp [UploadWorld.record, UploadWorld.answer, UploadWorld.madeBy]
      · simp [UploadWorld.record, UploadWorld.answer, UploadWorld.madeBy,
          Function.update_of_ne hj] }

/-- The name a run waits to create is nobody else's, and no file has it. -/
theorem storedOnce_create {s : UploadWorld ι} (hs : StoredOnce start uploadDirectory s) {i : ι}
    {name : Bytes} (hwaiting : s.waiting i = some name) (created : Bool)
    {run : UploadProgram (Except Bytes MultipartResult)}
    (hrun : run.Follows RunRecord.note RunRecord.Asks
      (fun g r => ∀ result, r = .ok result → Reports uploadDirectory g result)
      ((s.record i).note (.create name) created)) :
    StoredOnce start uploadDirectory
      { s.answer i (.create name) created with runs := Function.update s.runs i run } := by
  obtain ⟨hissued, hnot, hother⟩ := hs.waiting i name hwaiting
  have hothers : ∀ j name', Function.update s.waiting i none j = some name' →
      name' ∈ s.issued ∧ name' ∉ s.createdNames ∧ name' ≠ name ∧
        ∀ k, k ≠ j → Function.update s.waiting i none k ≠ some name' := by
    intro j name' hj
    have hji : j ≠ i := by
      rintro rfl
      rw [Function.update_self] at hj
      cases hj
    rw [Function.update_of_ne hji] at hj
    obtain ⟨hmem, hnot', hother'⟩ := hs.waiting j name' hj
    refine ⟨hmem, hnot', ?_, fun k hk h => ?_⟩
    · rintro rfl
      exact hother j hji hj
    · by_cases hki : k = i
      · subst hki
        rw [Function.update_self] at h
        cases h
      · rw [Function.update_of_ne hki] at h
        exact hother' k hk h
  cases created with
  | false =>
      exact { hs with
        waiting := fun j name' hj =>
          have h := hothers j name' hj
          ⟨h.1, h.2.1, h.2.2.2⟩
        follows := by
          refine follows_answer hs hrun rfl ?_ fun j hj => ?_
          · simp [UploadWorld.record, UploadWorld.answer, UploadWorld.madeBy, RunRecord.note]
          · simp [UploadWorld.record, UploadWorld.answer, UploadWorld.madeBy,
              Function.update_of_ne hj] }
  | true =>
      have hfree : name ∉ s.names := by
        intro h
        rcases hs.names name h with h | h
        · exact (hs.apart name hissued).1 h
        · exact hnot h
      have hnames : ({ s.answer i (.create name) true with
          runs := Function.update s.runs i run } : UploadWorld ι).createdNames =
            s.createdNames ++ [name] := List.map_append
      exact {
        issued := hs.issued
        apart := hs.apart
        names := by
          intro name' hname'
          rw [hnames]
          rcases List.mem_cons.mp hname' with rfl | hname'
          · exact Or.inr (List.mem_append_right _ (List.mem_singleton_self _))
          · exact (hs.names name' hname').imp_right (List.mem_append_left _)
        created := by
          rw [hnames]
          refine List.nodup_append.mpr ⟨hs.created, List.nodup_singleton _, ?_⟩
          rintro a ha b hb rfl
          exact hnot (List.mem_singleton.mp hb ▸ ha)
        new := by
          intro c hc
          rcases List.mem_append.mp hc with hc | hc
          · exact hs.new c hc
          · rw [List.mem_singleton.mp hc]
            exact ⟨by simpa using hfree, hissued⟩
        waiting := by
          intro j name' hj
          obtain ⟨hmem, hnot', hne, hapart⟩ := hothers j name' hj
          refine ⟨hmem, ?_, hapart⟩
          rw [hnames]
          simp [hnot', hne]
        follows := by
          refine follows_answer hs hrun rfl ?_ fun j hj => ?_
          · simp [UploadWorld.record, UploadWorld.answer, UploadWorld.madeBy, RunRecord.note]
          · simp [UploadWorld.record, UploadWorld.answer, UploadWorld.madeBy,
              Function.update_of_ne hj, hj.symm] }

theorem storedOnce_step {s s' : UploadWorld ι} {q : UploadQuestion} {a : UploadAnswer q}
    (hs : StoredOnce start uploadDirectory s) (hfresh : FreshName start s q a)
    (hstep : UploadStep s q a s') : StoredOnce start uploadDirectory s' := by
  cases hstep with
  | answer i q k hask a =>
      have hfollows := hs.follows i
      rw [hask] at hfollows
      obtain ⟨hasks, hnext⟩ := hfollows
      have hnext := hnext a
      cases q with
      | micros clean => exact storedOnce_micros hs hasks hfresh hnext
      | create name => exact storedOnce_create hs hasks a hnext
      | createDirectories | write name data =>
          exact { hs with follows := follows_answer hs hnext rfl rfl fun _ _ => rfl }

/-- Run `i` came back with success, and reported this file. -/
def Reported (s : UploadWorld ι) (i : ι) (f : MultipartSavedFile) : Prop :=
  ∃ result, s.runs i = .done (.ok result) ∧ result.ok = true ∧ f ∈ result.files

section Reports

variable {s : UploadWorld ι} (hs : StoredOnce start uploadDirectory s)

include hs

theorem StoredOnce.lists {i : ι} {result : MultipartResult}
    (hrun : s.runs i = .done (.ok result)) (hok : result.ok = true) :
    Lists uploadDirectory result.files (s.madeBy i) := by
  have hfollows := hs.follows i
  rw [hrun] at hfollows
  exact hfollows result rfl hok

theorem StoredOnce.mem_made {i : ι} {f : MultipartSavedFile} (h : Reported s i f) :
    f.storedFilename ∈ s.madeBy i ∧
      f.storedPath = uploadDirectory / Path.ofBytes f.storedFilename := by
  obtain ⟨result, hrun, hok, hf⟩ := h
  have hlists := hs.lists hrun hok
  exact ⟨hlists.names ▸ List.mem_map_of_mem hf, hlists.paths f hf⟩

/-- A run made a name when it created a file of that name, where there was none. -/
theorem StoredOnce.mem_created {i : ι} {name : Bytes} (h : name ∈ s.madeBy i) :
    (i, name, false) ∈ s.created := by
  obtain ⟨c, hc, rfl⟩ := List.mem_map.mp h
  obtain ⟨hmem, hi⟩ := List.mem_filter.mp hc
  have hi : c.1 = i := by simpa using hi
  rw [← hi, ← (hs.new c hmem).1]
  exact hmem

theorem StoredOnce.path_injective {name name' : Bytes} (h : name ∈ s.createdNames)
    (h' : name' ∈ s.createdNames)
    (heq : uploadDirectory / Path.ofBytes name = uploadDirectory / Path.ofBytes name') :
    name = name' := by
  have hissued : ∀ n ∈ s.createdNames, n ∈ s.issued := by
    intro n hn
    obtain ⟨c, hc, rfl⟩ := List.mem_map.mp hn
    exact (hs.new c hc).2
  obtain ⟨-, hne, hslash⟩ := hs.apart name (hissued name h)
  obtain ⟨-, hne', hslash'⟩ := hs.apart name' (hissued name' h')
  exact Path.append_name_injective hslash hne hslash' hne' heq

theorem StoredOnce.mem_createdNames {i : ι} {name : Bytes} (h : name ∈ s.madeBy i) :
    name ∈ s.createdNames :=
  List.mem_map_of_mem (hs.mem_created h)

/-- Two runs made different names. -/
theorem StoredOnce.apart_runs {i j : ι} (hij : i ≠ j) {name : Bytes} (hi : name ∈ s.madeBy i) :
    name ∉ s.madeBy j := by
  intro hj
  have h := List.inj_on_of_nodup_map hs.created (hs.mem_created hi) (hs.mem_created hj) rfl
  exact hij (congrArg Prod.fst h)

end Reports

end World

/-- A part that stores `x` under the name `a.txt`. -/
def partOfA : Bytes :=
  bytes "--B\r\nContent-Disposition: form-data; name=\"f\"; filename=\"a.txt\"\r\n\r\nx\r\n"

/-- An empty directory, and one run on a form. -/
def oneRun (form : Bytes) : UploadWorld Unit where
  names := []
  runs _ := UploadProgram.saveUploadsFromSpoolFile (some form)
    (bytes "multipart/form-data; boundary=B") (Path.ofBytes (bytes "up")) {}

theorem oneRun_initial (form : Bytes) :
    (oneRun form).Initial [] (Path.ofBytes (bytes "up")) where
  names := rfl
  readings := rfl
  waiting _ := rfl
  created := rfl
  runs _ := ⟨some form, bytes "multipart/form-data; boundary=B", {}, rfl⟩

/-- The clock reads 5, and all goes well. -/
def fiveAnswers : (q : UploadQuestion) → UploadAnswer q
  | .createDirectories => .ok ()
  | .micros _ => (5 : Nat)
  | .create _ => true
  | .write .. => none

/-- The run has its next answer. -/
def answerFive (s : UploadWorld Unit) : UploadWorld Unit :=
  match s.runs () with
  | .done _ => s
  | .ask q k =>
      { s.answer () q (fiveAnswers q) with
        runs := Function.update s.runs () (k (fiveAnswers q)) }

theorem answerFive_cases (s : UploadWorld Unit) : answerFive s = s ∨
    ∃ q k, s.runs () = .ask q k ∧ UploadStep s q (fiveAnswers q) (answerFive s) := by
  rw [answerFive]
  split
  · exact Or.inl rfl
  · next q k hask => exact Or.inr ⟨q, k, hask, .answer () q k hask _⟩

/-- The first `n` answers to a form. -/
def answerForm (n : Nat) (form : Bytes) : UploadWorld Unit := answerFive^[n] (oneRun form)

end HydrogenHttpd.Ref
