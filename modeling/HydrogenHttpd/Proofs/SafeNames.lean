import HydrogenHttpd.Proofs.StoredNames
import HydrogenHttpd.Proofs.UploadQuotas

/-!
# What files are stored under

A clean name that passed the check has no blocked extension: the check reads the
extension as the path has it, and that is what stands behind the last dot, since
no clean name starts with one (`Path.extensionOf_eq`). The clock reading in front
holds no dot, so the stored name has the extension that was checked
(`storedSafely`).

Both ways to store an upload create and write files under such names only: of
the spool for whatever the run is told, of the body by the loop itself.
-/

namespace HydrogenHttpd.Ref

open Base

/-! ## One name -/

/-- A name that `original` may be stored under, with one of the readings in
front. -/
structure StoredSafely (readings : Set Nat) (uploadDirectory : Path) (original name : Bytes) :
    Prop where
  prefixed : ∃ micros ∈ readings,
    name = decimal micros ++ bytes "_" ++ Multipart.sanitizeFilename original
  ne_nil : Multipart.sanitizeFilename original ≠ []
  short : (Multipart.sanitizeFilename original).length ≤ 103
  safe : ∀ c ∈ Multipart.sanitizeFilename original,
    isAlnum c = true ∨ c = dot ∨ c = 95 ∨ c = 45
  head : (Multipart.sanitizeFilename original).head? ≠ some dot
  last : (Multipart.sanitizeFilename original).getLast? ≠ some dot
  child : Path.IsChild uploadDirectory name (uploadDirectory / Path.ofBytes name)
  allowed : lowercase (Path.lastExtension name) ∉ blockedUploadExtensions
  checked : Multipart.isSafeUploadFilename (Multipart.sanitizeFilename original) = true

theorem StoredSafely.mono {readings readings' : Set Nat} {uploadDirectory : Path}
    {original name : Bytes} (h : StoredSafely readings uploadDirectory original name)
    (hsub : readings ⊆ readings') : StoredSafely readings' uploadDirectory original name := by
  obtain ⟨micros, hmem, hname⟩ := h.prefixed
  exact { h with prefixed := ⟨micros, hsub hmem, hname⟩ }

theorem CleanName.length_le {s : Bytes} (h : CleanName s) : s.length ≤ 103 := by
  rcases h.short with hshort | ⟨u, rfl, hu⟩
  · omega
  · rw [List.length_append, List.length_cons, hu]
    decide

/-- What the check says of a clean name. -/
theorem not_blocked_of_safe {clean : Bytes} (h : CleanName clean)
    (hsafe : Multipart.isSafeUploadFilename clean = true) :
    lowercase (Path.lastExtension clean) ∉ blockedUploadExtensions := by
  have hhead : (lowercase clean).head? ≠ some dot := by
    intro hdot
    rw [lowercase, List.head?_map, Option.map_eq_some_iff] at hdot
    obtain ⟨c, hc, hlower⟩ := hdot
    rw [Path.toLower_eq_dot hlower] at hc
    exact absurd (h.head dot hc) (by decide)
  rw [Path.lowercase_lastExtension, ← Path.extensionOf_eq hhead]
  rw [Multipart.isSafeUploadFilename] at hsafe
  simp only [h.sanitize_eq] at hsafe
  split at hsafe
  · cases hsafe
  · split at hsafe
    · cases hsafe
    · simpa using hsafe

theorem dot_not_mem_reading (micros : Nat) : dot ∉ decimal micros ++ bytes "_" := by
  intro h
  rcases List.mem_append.mp h with h | h
  · exact absurd (isDigit_of_mem_decimal h) (by decide)
  · exact absurd h (by decide)

/-- A name that passed the check is stored safely. -/
theorem storedSafely {readings : Set Nat} {micros : Nat} (hmicros : micros ∈ readings)
    (uploadDirectory : Path) {original : Bytes}
    (hsafe : Multipart.isSafeUploadFilename (Multipart.sanitizeFilename original) = true) :
    StoredSafely readings uploadDirectory original
      (storedName micros (Multipart.sanitizeFilename original)) := by
  have hclean := sanitizeFilename_clean original
  -- no name with an underscore in it is one of the names that go up
  have hunder : (95 : UInt8) ∈ storedName micros (Multipart.sanitizeFilename original) := by
    simp [storedName, show bytes "_" = [95] from rfl]
  constructor
  · exact ⟨micros, hmicros, rfl⟩
  · exact hclean.ne_nil
  · exact hclean.length_le
  · intro c hc
    have hbyte := hclean.safe c hc
    simp only [safeNameByte, Bool.or_eq_true, beq_iff_eq] at hbyte
    rcases hbyte with ((halnum | hdot) | hline) | hdash
    · exact Or.inl halnum
    · exact Or.inr (Or.inl hdot)
    · exact Or.inr (Or.inr (Or.inl hline))
    · exact Or.inr (Or.inr (Or.inr hdash))
  · exact fun hdot => absurd (hclean.head dot hdot) (by decide)
  · exact fun hdot => absurd (hclean.last dot hdot) (by decide)
  · refine Path.isChild_append (slash_not_mem_storedName (slash_not_mem_sanitizeFilename original))
      (storedName_ne_nil _ _) ?_ ?_
    · intro h
      rw [h] at hunder
      exact absurd hunder (by decide)
    · intro h
      rw [h] at hunder
      exact absurd hunder (by decide)
  · rw [storedName, Path.lastExtension_append (dot_not_mem_reading micros)]
    exact not_blocked_of_safe hclean hsafe
  · exact hsafe

/-- The files are stored safely, each under its name and where it says. -/
def ReportsSafely (readings : Set Nat) (uploadDirectory : Path) (files : List MultipartSavedFile) :
    Prop :=
  ∀ f ∈ files, StoredSafely readings uploadDirectory f.originalFilename f.storedFilename ∧
    f.storedPath = uploadDirectory / Path.ofBytes f.storedFilename

section Reports

variable {readings readings' : Set Nat} {uploadDirectory : Path} {files : List MultipartSavedFile}

theorem reportsSafely_nil : ReportsSafely readings uploadDirectory [] := by
  intro f hf
  cases hf

theorem ReportsSafely.concat (h : ReportsSafely readings uploadDirectory files)
    {f : MultipartSavedFile}
    (hf : StoredSafely readings uploadDirectory f.originalFilename f.storedFilename)
    (hpath : f.storedPath = uploadDirectory / Path.ofBytes f.storedFilename) :
    ReportsSafely readings uploadDirectory (files ++ [f]) := by
  intro f' hf'
  rcases List.mem_append.mp hf' with hf' | hf'
  · exact h f' hf'
  · rw [List.mem_singleton.mp hf']
    exact ⟨hf, hpath⟩

theorem ReportsSafely.mono (h : ReportsSafely readings uploadDirectory files)
    (hsub : readings ⊆ readings') : ReportsSafely readings' uploadDirectory files :=
  fun f hf => ⟨(h f hf).1.mono hsub, (h f hf).2⟩

end Reports

/-! ## The directory -/

/-- No file has changed but under a name that is stored safely. -/
def ChangesSafely (readings : Set Nat) (uploadDirectory : Path) (before after : Uploads) : Prop :=
  ∀ name, after.dir.lookup name ≠ before.dir.lookup name →
    ∃ original, StoredSafely readings uploadDirectory original name

section Changes

variable {readings : Set Nat} {uploadDirectory : Path} {st st' st'' : Uploads}

theorem ChangesSafely.refl : ChangesSafely readings uploadDirectory st st :=
  fun _ hne => absurd rfl hne

theorem ChangesSafely.trans (h : ChangesSafely readings uploadDirectory st st')
    (h' : ChangesSafely readings uploadDirectory st' st'') :
    ChangesSafely readings uploadDirectory st st'' := by
  intro name hne
  by_cases heq : st''.dir.lookup name = st'.dir.lookup name
  · exact h name (heq ▸ hne)
  · exact h' name heq

/-- One file is put under a name that is stored safely. -/
theorem changesSafely_put {original name : Bytes}
    (hname : StoredSafely readings uploadDirectory original name) {data : Bytes}
    (hdir : st'.dir = put name data st.dir) : ChangesSafely readings uploadDirectory st st' := by
  intro other hne
  by_cases heq : other = name
  · exact heq ▸ ⟨original, hname⟩
  · rw [hdir, lookup_put_of_ne heq] at hne
    exact absurd rfl hne

theorem changesSafely_write {env : UploadEnv} {original data : Bytes} {out out' : OutFile}
    (h : out.write env data st = (out', st'))
    (hname : StoredSafely readings uploadDirectory original out.name) :
    ChangesSafely readings uploadDirectory st st' := by
  rw [OutFile.write] at h
  split at h
  · cases h
    exact changesSafely_put hname rfl
  · cases h
    exact ChangesSafely.refl

theorem changesSafely_none {env : UploadEnv} {name : Bytes}
    (h : st.create env name = (none, st')) : ChangesSafely readings uploadDirectory st st' := by
  rw [Uploads.create] at h
  split at h
  · cases h
  · cases h
    exact ChangesSafely.refl

end Changes

theorem create_some {env : UploadEnv} {name : Bytes} {st st' : Uploads} {out : OutFile}
    (h : st.create env name = (some out, st')) :
    out = { name := name } ∧ st'.dir = put name [] st.dir := by
  rw [Uploads.create] at h
  split at h
  · cases h
    exact ⟨rfl, rfl⟩
  · cases h

/-! ## From memory -/

/-- What a run leaves and reports. -/
structure StoresSafely (env : UploadEnv) (uploadDirectory : Path) (st : Uploads)
    (run : Except Bytes MultipartResult × Uploads) : Prop where
  changed : ChangesSafely (Set.range env.micros) uploadDirectory st run.2
  reported : ∀ result, run.1 = .ok result →
    ReportsSafely (Set.range env.micros) uploadDirectory result.files

theorem memoryLoop_safe (env : UploadEnv) (uploadDirectory : Path) (limits : MultipartLimits)
    (body delimiter : Bytes) (allowed pos : Nat) {files : List MultipartSavedFile} (st : Uploads)
    (hfiles : ReportsSafely (Set.range env.micros) uploadDirectory files) :
    ReportsSafely (Set.range env.micros) uploadDirectory
        (memoryLoop env uploadDirectory limits body delimiter allowed pos files st).1.files ∧
      ChangesSafely (Set.range env.micros) uploadDirectory st
        (memoryLoop env uploadDirectory limits body delimiter allowed pos files st).2 := by
  fun_induction memoryLoop env uploadDirectory limits body delimiter allowed pos files st with
  | case6 | case8 =>
      -- a part that is no file
      rename_i ih
      exact ih hfiles
  | case11 =>
      rename_i st' hcreate
      exact ⟨hfiles, changesSafely_none hcreate⟩
  | case12 =>
      rename_i hsafe name out st₁ hcreate out' st₂ hwrite ih
      obtain ⟨rfl, hdir⟩ := create_some hcreate
      have hname : StoredSafely (Set.range env.micros) uploadDirectory _ name :=
        storedSafely (Set.mem_range_self _) uploadDirectory (by simpa using hsafe)
      obtain ⟨hreported, hchanged⟩ := ih (hfiles.concat hname rfl)
      have hwritten := changesSafely_write hwrite hname
      exact ⟨hreported, (changesSafely_put hname hdir).trans (hwritten.trans hchanged)⟩
  | _ => exact ⟨hfiles, ChangesSafely.refl⟩

theorem saveUploads_safe (env : UploadEnv) (body contentType : Bytes) (uploadDirectory : Path)
    (limits : MultipartLimits) (st : Uploads) :
    StoresSafely env uploadDirectory st
      (Multipart.saveUploads env body contentType uploadDirectory limits st) := by
  have hrefused : ∀ status error,
      StoresSafely env uploadDirectory st (.ok (refuse [] status error), st) := by
    intro status error
    refine ⟨ChangesSafely.refl, ?_⟩
    rintro _ ⟨⟩
    exact reportsSafely_nil
  rw [Multipart.saveUploads]
  cases Multipart.extractBoundary contentType with
  | none => exact hrefused _ _
  | some boundary =>
      by_cases hlimits : limits.maxParts = 0 ∨ limits.maxFileBytes = 0
      · simp only [if_pos hlimits]
        exact hrefused _ _
      · simp only [if_neg hlimits]
        cases env.createDirectories with
        | error e => exact ⟨ChangesSafely.refl, by rintro _ ⟨⟩⟩
        | ok _ =>
            simp only
            cases find? (bytes "--" ++ boundary) body with
            | none => exact hrefused _ _
            | some pos =>
                obtain ⟨hreported, hchanged⟩ := memoryLoop_safe env uploadDirectory limits body
                  (bytes "--" ++ boundary) limits.maxParts pos st reportsSafely_nil
                refine ⟨hchanged, ?_⟩
                rintro _ ⟨⟩
                exact hreported

/-! ## From a spool file -/

/-- A run is told readings, and asks for safely stored names with one of them. -/
def noteReading (readings : Set Nat) : (q : UploadQuestion) → UploadAnswer q → Set Nat
  | .micros _, micros => insert micros readings
  | .createDirectories, _ | .create _, _ | .write .., _ => readings

def AsksSafely (uploadDirectory : Path) (readings : Set Nat) : UploadQuestion → Prop
  | .create name | .write name _ =>
      ∃ original, StoredSafely readings uploadDirectory original name
  | .createDirectories | .micros _ => True

/-- The files so far are stored safely, and the file of the part. -/
structure PartSafe (readings : Set Nat) (uploadDirectory : Path) (files : List MultipartSavedFile)
    (p : PartState) : Prop where
  files : ReportsSafely readings uploadDirectory files
  part : ∀ out, p.out = some out → out.name = p.storedName ∧
    StoredSafely readings uploadDirectory p.originalFilename p.storedName

namespace UploadProgram

section Safe

variable {readings : Set Nat} {uploadDirectory : Path} {files : List MultipartSavedFile}
  {p : PartState}

theorem write_safe {α : Type} {out : OutFile} {data original : Bytes}
    {post : Set Nat → α → Prop} {f : OutFile → UploadProgram α}
    (hname : StoredSafely readings uploadDirectory original out.name)
    (h : ∀ out', out'.name = out.name →
      (f out').Follows noteReading (AsksSafely uploadDirectory) post readings) :
    ((write out data).bind f).Follows noteReading (AsksSafely uploadDirectory) post readings := by
  rw [write]
  split
  · exact ⟨⟨original, hname⟩, fun _ => h _ rfl⟩
  · exact h out rfl

theorem storePending_safe (limits : MultipartLimits) (newline : Bool)
    (h : PartSafe readings uploadDirectory files p) :
    (storePending limits files newline p).Follows noteReading (AsksSafely uploadDirectory)
      (fun readings' r => readings' = readings ∧
        match r with
        | .error result => ReportsSafely readings uploadDirectory result.files
        | .ok p' => PartSafe readings uploadDirectory files p') readings := by
  rw [storePending]
  cases p.pending with
  | none => exact ⟨rfl, h⟩
  | some pending =>
      cases hout : p.out with
      | none =>
          simp only
          by_cases hlimit : limits.maxFieldBytes <
              p.fieldBytes + (pending.length + if newline then 1 else 0)
          · rw [if_pos hlimit]
            exact ⟨rfl, h.files⟩
          · rw [if_neg hlimit]
            exact ⟨rfl, h.files, by rintro _ ⟨⟩⟩
      | some out =>
          obtain ⟨hname, hsafe⟩ := h.part out hout
          have hpart : ∀ (out' : OutFile) (size : Nat), out'.name = out.name →
              PartSafe readings uploadDirectory files
                { p with out := some out', bytesWritten := size, pending := some pending } := by
            intro out' size hout'
            refine ⟨h.files, ?_⟩
            rintro _ ⟨⟩
            exact ⟨hout'.trans hname, hsafe⟩
          simp only
          by_cases hlimit : limits.maxFileBytes <
              p.bytesWritten + (pending.length + if newline then 1 else 0)
          · rw [if_pos hlimit]
            exact ⟨rfl, h.files⟩
          · rw [if_neg hlimit]
            refine write_safe (hname ▸ hsafe) fun out' hout' => ?_
            cases newline with
            | false => exact ⟨rfl, hpart out' _ hout'⟩
            | true =>
                exact write_safe ((hout'.trans hname) ▸ hsafe) fun out'' hout'' =>
                  ⟨rfl, hpart out'' _ (hout''.trans hout')⟩

theorem closePart_safe (h : PartSafe readings uploadDirectory files p) :
    ReportsSafely readings uploadDirectory (closePart uploadDirectory files p) := by
  rw [closePart]
  cases hout : p.out with
  | none => exact h.files
  | some out => exact h.files.concat (h.part out hout).2 rfl

theorem contentLoop_safe (limits : MultipartLimits) (delimiter : Bytes) (lines : List Bytes)
    (h : PartSafe readings uploadDirectory files p) :
    (contentLoop uploadDirectory limits delimiter files lines p).Follows noteReading
      (AsksSafely uploadDirectory)
      (fun readings' r => readings' = readings ∧
        match r with
        | .returned result => ReportsSafely readings uploadDirectory result.files
        | .next files _ => ReportsSafely readings uploadDirectory files
        | .failed => True) readings := by
  induction lines generalizing p with
  | nil => exact ⟨rfl, trivial⟩
  | cons raw rest ih =>
      rw [contentLoop]
      simp only
      split
      · refine Prog.Follows.bind ((storePending_safe limits false h).mono ?_)
        rintro _ (result | p') ⟨rfl, hr⟩
        · exact ⟨rfl, hr⟩
        · simp only
          split
          · exact ⟨rfl, closePart_safe hr⟩
          · exact ⟨rfl, closePart_safe hr⟩
      · refine Prog.Follows.bind ((storePending_safe limits true h).mono ?_)
        rintro _ (result | p') ⟨rfl, hr⟩
        · exact ⟨rfl, hr⟩
        · exact ih (p := { p' with pending := _ }) ⟨hr.files, hr.part⟩

theorem openPart_safe (rawHeaders : Bytes) (h : ReportsSafely readings uploadDirectory files) :
    (openPart files rawHeaders).Follows noteReading (AsksSafely uploadDirectory)
      (fun readings' r => match r with
        | .error result => ReportsSafely readings' uploadDirectory result.files
        | .ok p => PartSafe readings' uploadDirectory files p) readings := by
  rw [openPart]
  generalize partNames rawHeaders = names
  have hsafe : ∀ micros,
      Multipart.isSafeUploadFilename (Multipart.sanitizeFilename names.2) = true →
      StoredSafely (insert micros readings) uploadDirectory names.2
        (storedName micros (Multipart.sanitizeFilename names.2)) :=
    fun micros => storedSafely (Set.mem_insert micros readings) uploadDirectory
  simp only
  generalize Multipart.sanitizeFilename names.2 = clean at hsafe ⊢
  by_cases hfile : names.2 = []
  · rw [if_pos hfile]
    exact ⟨h, by rintro _ ⟨⟩⟩
  · rw [if_neg hfile]
    cases hcheck : Multipart.isSafeUploadFilename clean with
    | false => exact h
    | true =>
        rw [if_neg (by decide)]
        refine ⟨trivial, fun micros => ?_⟩
        have hname := hsafe micros hcheck
        have hfiles := h.mono (Set.subset_insert micros readings)
        refine ⟨⟨names.2, hname⟩, fun created => ?_⟩
        cases created with
        | false => exact hfiles
        | true =>
            refine ⟨hfiles, ?_⟩
            rintro _ ⟨⟩
            exact ⟨rfl, hname⟩

theorem spoolLoop_safe (limits : MultipartLimits) (delimiter : Bytes) (allowed : Nat)
    (lines : List Bytes) (h : ReportsSafely readings uploadDirectory files) :
    (spoolLoop uploadDirectory limits delimiter allowed lines files).Follows noteReading
      (AsksSafely uploadDirectory)
      (fun readings' result => ReportsSafely readings' uploadDirectory result.files) readings := by
  induction allowed generalizing lines files readings with
  | zero => exact h
  | succ allowed ih =>
      rw [spoolLoop]
      rcases readPartHeaders lines [] with ⟨rawHeaders, rest⟩
      simp only
      split
      · exact h
      · refine Prog.Follows.bind ((openPart_safe rawHeaders h).mono ?_)
        rintro readings' (result | p) hr
        · exact hr
        · refine Prog.Follows.bind ((contentLoop_safe limits delimiter (rest.getD []) hr).mono ?_)
          rintro _ (result | ⟨files, rest⟩ | _) ⟨rfl, hr'⟩
          · exact hr'
          · exact ih rest hr'
          · exact hr.files

/-- What a run asks for, and what it reports, whatever it is told. -/
theorem saveUploadsFromSpoolFile_safe (spoolFile : Option Bytes) (contentType : Bytes)
    (uploadDirectory : Path) (limits : MultipartLimits) :
    (saveUploadsFromSpoolFile spoolFile contentType uploadDirectory limits).Follows noteReading
      (AsksSafely uploadDirectory)
      (fun readings r => ∀ result, r = .ok result →
        ReportsSafely readings uploadDirectory result.files) ∅ := by
  have hrefused : ∀ status error result,
      (.ok (refuse [] status error) : Except Bytes MultipartResult) = .ok result →
        ReportsSafely ∅ uploadDirectory result.files := by
    rintro status error _ ⟨⟩
    exact reportsSafely_nil
  rw [saveUploadsFromSpoolFile]
  cases Multipart.extractBoundary contentType with
  | none => exact hrefused _ _
  | some boundary =>
      by_cases hlimits : limits.maxParts = 0 ∨ limits.maxFileBytes = 0
      · simp only [if_pos hlimits]
        exact hrefused _ _
      · simp only [if_neg hlimits]
        cases spoolFile with
        | none => exact hrefused _ _
        | some content =>
            refine ⟨trivial, fun made => ?_⟩
            cases made with
            | error e => rintro _ ⟨⟩
            | ok _ =>
                cases getlines content with
                | nil => exact hrefused _ _
                | cons first rest =>
                    by_cases hfirst : dropCr first ≠ bytes "--" ++ boundary
                    · simp only [if_pos hfirst]
                      exact hrefused _ _
                    · simp only [if_neg hfirst]
                      refine Prog.Follows.map ((spoolLoop_safe limits (bytes "--" ++ boundary)
                        limits.maxParts rest reportsSafely_nil).mono ?_)
                      rintro readings result hr _ ⟨⟩
                      exact hr

end Safe

end UploadProgram

theorem map_fst_addToLast (data : Bytes) (fs : List (Bytes × Bytes)) :
    (addToLast data fs).map (·.1) = fs.map (·.1) := by
  induction fs with
  | nil => rfl
  | cons f fs ih =>
      cases fs with
      | nil => rfl
      | cons g gs => exact congrArg (f.1 :: ·) ih

/-- What a run alone leaves, when it asks for safely stored names only. -/
structure LeavesSafely (env : UploadEnv) (uploadDirectory : Path) (before : Uploads)
    (w : Uploads × WriteRecord) (readings : Set Nat) : Prop where
  readings : readings ⊆ Set.range env.micros
  changed : ChangesSafely (Set.range env.micros) uploadDirectory before w.1
  created : ∀ name ∈ w.2.files.map (·.1),
    ∃ original, StoredSafely (Set.range env.micros) uploadDirectory original name

theorem leavesSafely_handle {env : UploadEnv} {uploadDirectory : Path} {before : Uploads}
    (w : Uploads × WriteRecord) (readings : Set Nat) (q : UploadQuestion)
    (h : LeavesSafely env uploadDirectory before w readings)
    (hask : AsksSafely uploadDirectory readings q) :
    LeavesSafely env uploadDirectory before
      (Prog.noted env.handle WriteRecord.note w q).2
      (noteReading readings q (Prog.noted env.handle WriteRecord.note w q).1) := by
  obtain ⟨st, g⟩ := w
  cases q with
  | createDirectories => exact ⟨h.readings, h.changed, h.created⟩
  | micros clean =>
      refine ⟨Set.insert_subset (Set.mem_range_self _) h.readings, h.changed, h.created⟩
  | create name =>
      obtain ⟨original, hname⟩ := hask
      have hname := hname.mono h.readings
      simp only [Prog.noted, UploadEnv.handle]
      cases env.canCreate st.opened with
      | false => exact ⟨h.readings, h.changed, h.created⟩
      | true =>
          refine ⟨h.readings, h.changed.trans (changesSafely_put hname rfl), ?_⟩
          intro other hother
          simp only [WriteRecord.note, List.map_append, List.mem_append, List.map_singleton,
            List.mem_singleton] at hother
          rcases hother with hother | rfl
          · exact h.created other hother
          · exact ⟨original, hname⟩
  | write name data =>
      obtain ⟨original, hname⟩ := hask
      refine ⟨h.readings, h.changed.trans (changesSafely_put (hname.mono h.readings) rfl), ?_⟩
      intro other hother
      simp only [Prog.noted, UploadEnv.handle] at hother
      cases haccepts : env.accepts st.writes with
      | none =>
          rw [haccepts] at hother
          simp only [WriteRecord.note, map_fst_addToLast] at hother
          exact h.created other hother
      | some n =>
          rw [haccepts] at hother
          exact h.created other hother

/-- The files of a spooled upload, created and reported. -/
theorem saveUploadsFromSpoolFile_safe (env : UploadEnv) (spoolFile : Option Bytes)
    (contentType : Bytes) (uploadDirectory : Path) (limits : MultipartLimits) (st : Uploads) :
    StoresSafely env uploadDirectory st
        (Multipart.saveUploadsFromSpoolFile env spoolFile contentType uploadDirectory limits st) ∧
      ∀ name ∈ createdNames env spoolFile contentType uploadDirectory limits st,
        ∃ original, StoredSafely (Set.range env.micros) uploadDirectory original name := by
  have hfollows := UploadProgram.saveUploadsFromSpoolFile_safe spoolFile contentType
    uploadDirectory limits
  have hinit : LeavesSafely env uploadDirectory st (st, {}) ∅ :=
    ⟨Set.empty_subset _, ChangesSafely.refl, by simp⟩
  obtain ⟨hreported, hleaves⟩ := hfollows.exec leavesSafely_handle hinit
  set run := (UploadProgram.saveUploadsFromSpoolFile spoolFile contentType uploadDirectory
    limits).exec (Prog.noted (Prog.noted env.handle WriteRecord.note) noteReading) ((st, {}), ∅)
  have hrun : recordedRun env spoolFile contentType uploadDirectory limits st =
      (run.1, run.2.1) := Prog.exec_noted _ _ _
  rw [createdNames, recordedRun_eq, hrun]
  exact ⟨⟨hleaves.changed, fun result hresult => (hreported result hresult).mono hleaves.readings⟩,
    hleaves.created⟩

/-- Every file an upload stores is stored safely. -/
theorem stored_names_safe (env : UploadEnv) (contentType : Bytes) (uploadDirectory : Path)
    (limits : MultipartLimits) (st : Uploads) :
    (∀ spoolFile,
      StoresSafely env uploadDirectory st
        (Multipart.saveUploadsFromSpoolFile env spoolFile contentType uploadDirectory limits st) ∧
      ∀ name ∈ createdNames env spoolFile contentType uploadDirectory limits st,
        ∃ original, StoredSafely (Set.range env.micros) uploadDirectory original name) ∧
    (∀ body, StoresSafely env uploadDirectory st
      (Multipart.saveUploads env body contentType uploadDirectory limits st)) ∧
    ∀ original, Multipart.sanitizeFilename (Multipart.sanitizeFilename original) =
      Multipart.sanitizeFilename original :=
  ⟨fun spoolFile => saveUploadsFromSpoolFile_safe env spoolFile contentType uploadDirectory limits
      st,
    fun body => saveUploads_safe env body contentType uploadDirectory limits st,
    sanitizeFilename_idem⟩

end HydrogenHttpd.Ref
