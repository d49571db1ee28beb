import HydrogenHttpd.Base.Interaction
import HydrogenHttpd.Ref.Multipart

/-!
# Uploads that share a directory (`Multipart.cpp`)

`Multipart.saveUploadsFromSpoolFile` again, as a program that asks for what it
needs of the world: a clock reading for each stored name, the file of that
name, the writes. Alone it is the function (`saveUploadsFromSpoolFile_exec`).
Here any number of runs ask in turn (`UploadStep`), and share the names of the
upload directory. What the files hold is left out: no run reads it.

The clock is read for a name, which the question carries along. The lists
behind the runs in `UploadWorld` are a record and steer nothing.
-/

namespace HydrogenHttpd.Ref

open Base

/-- What a run asks of the world. -/
inductive UploadQuestion where
  /-- `fs::create_directories` -/
  | createDirectories
  /-- The clock, for the stored name of this clean name. -/
  | micros (clean : Bytes)
  /-- `std::ofstream out(name, binary | trunc)` -/
  | create (name : Bytes)
  /-- `out.write` -/
  | write (name data : Bytes)
  deriving DecidableEq, Repr

/-- What it is answered; of a write, how many bytes reach the file, `none` for all. -/
abbrev UploadAnswer : UploadQuestion → Type
  | .createDirectories => Except Bytes Unit
  | .micros _ => Nat
  | .create _ => Bool
  | .write .. => Option Nat

abbrev UploadProgram := Prog UploadQuestion UploadAnswer

/-- `uniquePrefix() + "_" + clean` -/
def storedName (micros : Nat) (clean : Bytes) : Bytes := decimal micros ++ bytes "_" ++ clean

namespace UploadProgram

def write (out : OutFile) (data : Bytes) : UploadProgram OutFile :=
  if out.good then
    .ask (.write out.name data) fun (accepts : Option Nat) =>
      let kept := match accepts with
        | none => data
        | some n => data.take n
      .done { out with good := kept.length == data.length }
  else .done out

def storePending (limits : MultipartLimits) (files : List MultipartSavedFile) (newline : Bool)
    (p : PartState) : UploadProgram (Except MultipartResult PartState) :=
  match p.pending with
  | none => .done (.ok p)
  | some pending =>
      let size := pending.length + (if newline then 1 else 0)
      match p.out with
      | some out =>
          if limits.maxFileBytes < p.bytesWritten + size then
            .done (.error (refuse files 413 "Uploaded file too large"))
          else
            (write out pending).bind fun out =>
              (if newline then write out [lf] else .done out).bind fun out =>
                .done (.ok { p with out := some out, bytesWritten := p.bytesWritten + size })
      | none =>
          if limits.maxFieldBytes < p.fieldBytes + size then
            .done (.error (refuse files 413 "Multipart field too large"))
          else .done (.ok { p with fieldBytes := p.fieldBytes + size })

def contentLoop (uploadDirectory : Path) (limits : MultipartLimits) (delimiter : Bytes)
    (files : List MultipartSavedFile) : List Bytes → PartState → UploadProgram PartEnd
  | [], _ => .done .failed
  | raw :: rest, p =>
      let line := dropCr raw
      if line = delimiter ∨ line = delimiter ++ bytes "--" then
        (storePending limits files false p).bind fun
          | .error result => .done (.returned result)
          | .ok p =>
              let files := closePart uploadDirectory files p
              if line = delimiter ++ bytes "--" then .done (.returned (accept files))
              else .done (.next files rest)
      else
        (storePending limits files true p).bind fun
          | .error result => .done (.returned result)
          | .ok p =>
              contentLoop uploadDirectory limits delimiter files rest
                { p with pending := some line }

def openPart (files : List MultipartSavedFile) (rawHeaders : Bytes) :
    UploadProgram (Except MultipartResult PartState) :=
  let (fieldName, originalFilename) := partNames rawHeaders
  if originalFilename = [] then .done (.ok { fieldName := fieldName })
  else
    let clean := Multipart.sanitizeFilename originalFilename
    if Multipart.isSafeUploadFilename clean = false then
      .done (.error (refuse files 415 "Upload filename or extension is not allowed"))
    else
      .ask (.micros clean) fun (micros : Nat) =>
        let storedName := storedName micros clean
        .ask (.create storedName) fun (created : Bool) =>
          if created then
            .done (.ok { fieldName := fieldName, originalFilename := originalFilename
                         storedName := storedName, out := some { name := storedName } })
          else .done (.error (refuse files 500 "Failed to create uploaded file"))

def spoolLoop (uploadDirectory : Path) (limits : MultipartLimits) (delimiter : Bytes) :
    Nat → List Bytes → List MultipartSavedFile → UploadProgram MultipartResult
  | 0, _, files => .done (refuse files 413 "Too many multipart parts")
  | allowed + 1, lines, files =>
      match readPartHeaders lines [] with
      | (rawHeaders, rest) =>
          if rest = none ∧ rawHeaders = [] then
            .done (refuse files 400 "Multipart part headers missing")
          else
            (openPart files rawHeaders).bind fun
              | .error result => .done result
              | .ok p =>
                  (contentLoop uploadDirectory limits delimiter files (rest.getD []) p).bind fun
                    | .returned result => .done result
                    | .failed => .done (refuse files 400 "Multipart terminator missing")
                    | .next files rest =>
                        spoolLoop uploadDirectory limits delimiter allowed rest files

def saveUploadsFromSpoolFile (spoolFile : Option Bytes) (contentType : Bytes)
    (uploadDirectory : Path) (limits : MultipartLimits) :
    UploadProgram (Except Bytes MultipartResult) :=
  match Multipart.extractBoundary contentType with
  | none => .done (.ok (refuse [] 415 "Unsupported Media Type"))
  | some boundary =>
      if limits.maxParts = 0 ∨ limits.maxFileBytes = 0 then
        .done (.ok (refuse [] 500 "Upload limits are invalid"))
      else
        match spoolFile with
        | none => .done (.ok (refuse [] 500 "Failed to open upload spool"))
        | some content =>
            .ask .createDirectories fun (made : Except Bytes Unit) =>
              match made with
              | .error e => .done (.error e)
              | .ok () =>
                  let delimiter := bytes "--" ++ boundary
                  match getlines content with
                  | [] => .done (.ok (refuse [] 400 "Multipart boundary not found"))
                  | first :: rest =>
                      if dropCr first ≠ delimiter then
                        .done (.ok (refuse [] 400 "Multipart boundary not found"))
                      else
                        (spoolLoop uploadDirectory limits delimiter limits.maxParts rest []).map .ok

end UploadProgram

/-! ## One run alone -/

/-- The world of the function: the environment answers, and the directory is
changed as it says. -/
def UploadEnv.handle (env : UploadEnv) (st : Uploads) :
    (q : UploadQuestion) → UploadAnswer q × Uploads
  | .createDirectories => (env.createDirectories, st)
  | .micros _ => (env.micros st.opened, st)
  | .create name =>
      (env.canCreate st.opened,
        { st with
          dir := if env.canCreate st.opened then put name [] st.dir else st.dir
          opened := st.opened + 1 })
  | .write name data =>
      (env.accepts st.writes,
        { st with
          dir := put name ((st.dir.lookup name).getD [] ++
            (match env.accepts st.writes with
              | none => data
              | some n => data.take n)) st.dir
          writes := st.writes + 1 })

namespace UploadProgram

variable {env : UploadEnv}

theorem write_exec (out : OutFile) (data : Bytes) (st : Uploads) :
    (write out data).exec env.handle st = out.write env data st := by
  rw [write, OutFile.write]
  split
  · rfl
  · rfl

theorem storePending_exec (limits : MultipartLimits) (files : List MultipartSavedFile)
    (newline : Bool) (p : PartState) (st : Uploads) :
    (storePending limits files newline p).exec env.handle st =
      Ref.storePending env limits files newline p st := by
  rw [storePending, Ref.storePending]
  cases hpending : p.pending with
  | none => rfl
  | some pending =>
      generalize hsize : pending.length + (if newline then 1 else 0) = size
      cases hout : p.out with
      | none =>
          simp only [hsize]
          by_cases hlimit : limits.maxFieldBytes < p.fieldBytes + size
          · rw [if_pos hlimit, if_pos hlimit]
            rfl
          · rw [if_neg hlimit, if_neg hlimit]
            rfl
      | some out =>
          simp only [hsize]
          by_cases hlimit : limits.maxFileBytes < p.bytesWritten + size
          · rw [if_pos hlimit, if_pos hlimit]
            rfl
          · rw [if_neg hlimit, if_neg hlimit, Prog.exec_bind, write_exec, Prog.exec_bind]
            cases newline with
            | false => rfl
            | true =>
                simp only [if_true]
                rw [write_exec]
                rfl

theorem contentLoop_exec (uploadDirectory : Path) (limits : MultipartLimits) (delimiter : Bytes)
    (files : List MultipartSavedFile) (lines : List Bytes) (p : PartState) (st : Uploads) :
    (contentLoop uploadDirectory limits delimiter files lines p).exec env.handle st =
      Ref.contentLoop env uploadDirectory limits delimiter files lines p st := by
  induction lines generalizing p st with
  | nil => rfl
  | cons raw rest ih =>
      rw [contentLoop, Ref.contentLoop]
      simp only
      split
      · rw [Prog.exec_bind, storePending_exec]
        rcases Ref.storePending env limits files false p st with ⟨result | p, st⟩
        · rfl
        · simp only
          split
          · rfl
          · rfl
      · rw [Prog.exec_bind, storePending_exec]
        rcases Ref.storePending env limits files true p st with ⟨result | p, st⟩
        · rfl
        · exact ih _ st

theorem openPart_exec (files : List MultipartSavedFile) (rawHeaders : Bytes) (st : Uploads) :
    (openPart files rawHeaders).exec env.handle st = Ref.openPart env files rawHeaders st := by
  rw [openPart, Ref.openPart]
  simp only
  split
  · rfl
  · split
    · rfl
    · simp only [Prog.exec_ask, UploadEnv.handle, Uploads.create]
      by_cases hcreate : env.canCreate st.opened = true
      · simp only [hcreate, if_true]
        rfl
      · simp only [hcreate]
        rfl

theorem spoolLoop_exec (uploadDirectory : Path) (limits : MultipartLimits) (delimiter : Bytes)
    (allowed : Nat) (lines : List Bytes) (files : List MultipartSavedFile) (st : Uploads) :
    (spoolLoop uploadDirectory limits delimiter allowed lines files).exec env.handle st =
      Ref.spoolLoop env uploadDirectory limits delimiter allowed lines files st := by
  induction allowed generalizing lines files st with
  | zero => rfl
  | succ allowed ih =>
      rw [spoolLoop, Ref.spoolLoop]
      rcases readPartHeaders lines [] with ⟨rawHeaders, rest⟩
      simp only
      split
      · rfl
      · rw [Prog.exec_bind, openPart_exec]
        rcases Ref.openPart env files rawHeaders st with ⟨result | p, st⟩
        · rfl
        · simp only
          rw [Prog.exec_bind, contentLoop_exec]
          rcases Ref.contentLoop env uploadDirectory limits delimiter files (rest.getD []) p st
            with ⟨result | ⟨files, rest⟩ | _, st⟩
          · rfl
          · exact ih rest files st
          · rfl

/-- A run that is alone is the function. -/
theorem saveUploadsFromSpoolFile_exec (spoolFile : Option Bytes) (contentType : Bytes)
    (uploadDirectory : Path) (limits : MultipartLimits) (st : Uploads) :
    (saveUploadsFromSpoolFile spoolFile contentType uploadDirectory limits).exec env.handle st =
      Multipart.saveUploadsFromSpoolFile env spoolFile contentType uploadDirectory limits st := by
  rw [saveUploadsFromSpoolFile, Multipart.saveUploadsFromSpoolFile]
  cases Multipart.extractBoundary contentType with
  | none => rfl
  | some boundary =>
      by_cases hlimits : limits.maxParts = 0 ∨ limits.maxFileBytes = 0
      · simp only [if_pos hlimits]
        rfl
      · simp only [if_neg hlimits]
        cases spoolFile with
        | none => rfl
        | some content =>
            simp only [Prog.exec_ask, UploadEnv.handle]
            cases env.createDirectories with
            | error e => rfl
            | ok _ =>
                simp only
                cases getlines content with
                | nil => rfl
                | cons first rest =>
                    by_cases hfirst : dropCr first ≠ bytes "--" ++ boundary
                    · simp only [if_pos hfirst]
                      rfl
                    · simp only [if_neg hfirst]
                      rw [Prog.exec_map, spoolLoop_exec]

end UploadProgram

/-! ## Many runs -/

structure UploadWorld (ι : Type) where
  /-- The names in the upload directory. -/
  names : List Bytes
  /-- What is left of each run. -/
  runs : ι → UploadProgram (Except Bytes MultipartResult)
  /-- The clock readings, each with the clean name it was read for. -/
  readings : List (Nat × Bytes) := []
  /-- The stored name a run has a reading for and has not asked to create yet. -/
  waiting : ι → Option Bytes := fun _ => none
  /-- The files created: by which run, under which name, and whether there was a
  file of that name. -/
  created : List (ι × Bytes × Bool) := []

section Step

variable {ι : Type} [DecidableEq ι]

/-- What an answer to run `i` changes besides the run. -/
def UploadWorld.answer (s : UploadWorld ι) (i : ι) :
    (q : UploadQuestion) → UploadAnswer q → UploadWorld ι
  | .micros clean, micros =>
      { s with
        readings := s.readings ++ [(micros, clean)]
        waiting := Function.update s.waiting i (some (storedName micros clean)) }
  | .create name, true =>
      { s with
        names := name :: s.names
        waiting := Function.update s.waiting i none
        created := s.created ++ [(i, name, s.names.contains name)] }
  | .create _, false => { s with waiting := Function.update s.waiting i none }
  | .createDirectories, _ | .write .., _ => s

/-- Run `i` is answered, whatever the answer. -/
inductive UploadStep (s : UploadWorld ι) :
    (q : UploadQuestion) → UploadAnswer q → UploadWorld ι → Prop where
  | answer (i : ι) (q : UploadQuestion)
      (k : UploadAnswer q → UploadProgram (Except Bytes MultipartResult))
      (h : s.runs i = .ask q k) (a : UploadAnswer q) :
      UploadStep s q a { s.answer i q a with runs := Function.update s.runs i (k a) }

end Step

/-- Before the first answer, with `start` in the upload directory. -/
structure UploadWorld.Initial {ι : Type} (start : List Bytes) (uploadDirectory : Path)
    (s : UploadWorld ι) : Prop where
  names : s.names = start
  readings : s.readings = []
  waiting : ∀ i, s.waiting i = none
  created : s.created = []
  runs : ∀ i, ∃ spoolFile contentType limits,
    s.runs i = UploadProgram.saveUploadsFromSpoolFile spoolFile contentType uploadDirectory limits

end HydrogenHttpd.Ref
