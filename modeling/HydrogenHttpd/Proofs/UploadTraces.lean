import HydrogenHttpd.Proofs.UploadRuns

/-!
# What a failed upload leaves behind

Neither the file being written nor those written before it are removed when
the upload is refused, and the refusal keeps no record the caller acts on. So
a refused upload leaves the directory as it was only when it is refused before
the first file is created, and `failed_uploads_leave_no_trace_iff` says that
this is the whole truth: an upload never leaves a trace of a failure exactly
when reaching its first file part already means that nothing is wrong with it.
-/

namespace HydrogenHttpd.Ref

open Base Spec

/-- The same files with the same contents. -/
def SameFiles (dir dir' : List (Bytes × Bytes)) : Prop :=
  ∀ name, dir'.lookup name = dir.lookup name

/-- A refusal leaves the directory as it was. -/
def FailureLeavesNoTrace (dir : List (Bytes × Bytes))
    (run : Except Bytes MultipartResult × Uploads) : Prop :=
  ∀ result, run.1 = .ok result → result.ok = false → SameFiles dir run.2.dir

/-- No file part is reached, or nothing is wrong with the whole upload. -/
def NoFileBeforeFault (env : UploadEnv) (spoolFile : Option Bytes) (contentType : Bytes)
    (limits : MultipartLimits) (opened : Nat) : Prop :=
  ∀ delimiter lines, behindDelimiter env spoolFile contentType limits = some (delimiter, lines) →
    let parts := cutParts delimiter limits.maxParts (lines.map dropCr)
    FileReached env limits opened parts → AllAccepted env limits delimiter opened parts

theorem not_sameFiles_nil {dir : List (Bytes × Bytes)} (h : dir ≠ []) : ¬ SameFiles [] dir := by
  intro hsame
  cases dir with
  | nil => exact h rfl
  | cons entry entries =>
      have hlookup := hsame entry.1
      rw [List.lookup_cons, beq_self_eq_true] at hlookup
      cases hlookup

/-- Failed uploads of this spool leave no trace, whatever the directory held
before, exactly when no file of it is created before the first fault. -/
theorem failed_uploads_leave_no_trace_iff (env : UploadEnv) (spoolFile : Option Bytes)
    (contentType : Bytes) (uploadDirectory : Path) (limits : MultipartLimits)
    (opened writes : Nat) :
    (∀ dir, FailureLeavesNoTrace dir
      (Multipart.saveUploadsFromSpoolFile env spoolFile contentType uploadDirectory limits
        { dir := dir, opened := opened, writes := writes })) ↔
      NoFileBeforeFault env spoolFile contentType limits opened := by
  cases hbehind : behindDelimiter env spoolFile contentType limits with
  | none =>
      refine iff_of_true (fun dir result hresult hok => ?_) (fun delimiter lines h => ?_)
      · obtain ⟨answer, hrun, -⟩ := saveUploadsFromSpoolFile_early hbehind uploadDirectory
          { dir := dir, opened := opened, writes := writes }
        rw [hrun]
        exact fun name => rfl
      · rw [hbehind] at h
        cases h
  | some behind =>
      obtain ⟨delimiter, lines⟩ := behind
      simp only [saveUploadsFromSpoolFile_parts hbehind]
      constructor
      · intro h delimiter' lines' hsome parts hreached
        rw [hbehind] at hsome
        cases hsome
        by_contra hfault
        -- in an empty directory the file that was reached shows
        have hok := spoolLoop_refused uploadDirectory limits.maxParts lines []
          { dir := [], opened := opened, writes := writes } hfault
        have htouched := spoolLoop_touched uploadDirectory limits.maxParts
          lines [] { dir := [], opened := opened, writes := writes } hreached
        exact not_sameFiles_nil htouched (h [] _ rfl hok)
      · intro h dir result hresult hok
        by_cases hreached : FileReached env limits opened
            (cutParts delimiter limits.maxParts (lines.map dropCr))
        · obtain ⟨new, st', hrun, -⟩ := spoolLoop_accepted uploadDirectory
            limits.maxParts lines [] { dir := dir, opened := opened, writes := writes }
            (h delimiter lines hbehind hreached)
          rw [hrun] at hresult
          cases hresult
          cases hok
        · intro name
          simp only [spoolLoop_untouched uploadDirectory limits.maxParts
            lines [] { dir := dir, opened := opened, writes := writes } hreached]

/-- A form whose closing delimiter never arrives. -/
def unterminatedForm : Bytes :=
  bytes "--B\r\nContent-Disposition: form-data; name=\"f\"; filename=\"a.txt\"\r\n\r\nhi\r\nho\r\n"

/-- The unterminated form is refused with 400 and its file stays. -/
theorem unterminated_form_leaves_file :
    ¬ ∀ (env : UploadEnv) (spoolFile : Option Bytes) (contentType : Bytes)
      (uploadDirectory : Path) (limits : MultipartLimits) (st : Uploads),
      FailureLeavesNoTrace st.dir
        (Multipart.saveUploadsFromSpoolFile env spoolFile contentType uploadDirectory limits
          st) := by
  intro h
  have hrun := h { micros := id } (some unterminatedForm)
    (bytes "multipart/form-data; boundary=B") {} {} {}
    (refuse [] 400 "Multipart terminator missing") (by decide) rfl
  exact absurd (hrun (bytes "0_a.txt")) (by decide)

end HydrogenHttpd.Ref
