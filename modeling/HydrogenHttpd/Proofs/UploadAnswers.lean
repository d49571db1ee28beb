import HydrogenHttpd.Proofs.Calls
import HydrogenHttpd.Proofs.RequestReading
import HydrogenHttpd.Proofs.SafeNames
import HydrogenHttpd.Proofs.UploadRuns
import HydrogenHttpd.Spec.Json

/-!
# The answer to an upload

The answer is put together from texts, and the names of a file stand in it as
the client wrote them. Reading it back goes through it from left to right
(`fileJson_reads`): up to each name the text is known, and a name between
quotes is read as itself only if it is plain. So the answer says what was
stored exactly when the names of all files are plain, and these are the names
in the part headers of the request.
-/

namespace HydrogenHttpd.Ref

open Base Spec

/-- The object says of the file what was stored. -/
structure Describes (v : Json) (f : MultipartSavedFile) : Prop where
  field : v.member (bytes "field") = some (.str f.fieldName)
  original : v.member (bytes "original") = some (.str f.originalFilename)
  stored : v.member (bytes "stored") = some (.str f.storedFilename)
  size : v.member (bytes "size") = some (.num f.size)

/-- A JSON text that says `ok` and describes the files, one object for each. -/
def AnswersFiles (text : Bytes) (files : List MultipartSavedFile) : Prop :=
  ∃ v vs, Json.Reads text v ∧ v.member (bytes "ok") = some (.bool true) ∧
    v.member (bytes "files") = some (.arr vs) ∧ List.Forall₂ Describes vs files

/-! ## One file -/

/-- The names of the members. -/
theorem plain_memberName :
    ∀ name ∈ ["ok", "streamed", "files", "field", "original", "stored", "size"],
      Json.Plain (bytes name) := by
  decide +kernel

/-- The text of a file from its first name on. -/
def fileTail (f : MultipartSavedFile) (t : Bytes) : Bytes :=
  34 :: (bytes "field" ++ 34 :: 58 :: 34 :: (f.fieldName ++ 34 :: 44 ::
    34 :: (bytes "original" ++ 34 :: 58 :: 34 :: (f.originalFilename ++ 34 :: 44 ::
      34 :: (bytes "stored" ++ 34 :: 58 :: 34 :: (f.storedFilename ++ 34 :: 44 ::
        34 :: (bytes "size" ++ 34 :: 58 :: (decimal f.size ++ 125 :: t))))))))

theorem uploadedFileJson_eq (f : MultipartSavedFile) (t : Bytes) :
    uploadedFileJson f ++ t = 123 :: fileTail f t := by
  have hsize : signedDecimal (f.size : Int) = decimal f.size := rfl
  simp only [uploadedFileJson, jsonText, jsonNumber, List.intercalate_cons_cons,
    List.intercalate_singleton, List.append_assoc, hsize, fileTail]
  rfl

theorem skipWs_decimal (n : Nat) (t : Bytes) :
    Json.skipWs (decimal n ++ t) = decimal n ++ t := by
  cases hn : decimal n with
  | nil => exact absurd hn (decimal_ne_nil n)
  | cons c cs =>
      have hc : isDigit c = true := isDigit_of_mem_decimal (hn ▸ List.mem_cons_self)
      exact Json.skipWs_of_not_ws (Json.isWs_of_isDigit hc) _

/-- The text of a file describes it only if both its names are plain. -/
theorem fileJson_reads {f : MultipartSavedFile} {t u : Bytes} {v : Json}
    (h : Json.Value (uploadedFileJson f ++ t) v u) (hv : Describes v f) :
    Json.Plain f.fieldName ∧ Json.Plain f.originalFilename ∧ u = Json.skipWs t := by
  rw [uploadedFileJson_eq, fileTail] at h
  obtain ⟨ms, rfl, h₁⟩ := Json.value_brace h
  obtain ⟨hfield, ms, rfl, h₂⟩ :=
    Json.members_text (plain_memberName "field" (by decide)) h₁ hv.field
  have horiginal := hv.original
  rw [Json.member_ne (by decide)] at horiginal
  obtain ⟨hplain, ms, rfl, h₃⟩ :=
    Json.members_text (plain_memberName "original" (by decide)) h₂ horiginal
  have hstored := hv.stored
  rw [Json.member_ne (by decide), Json.member_ne (by decide)] at hstored
  obtain ⟨-, ms, rfl, h₄⟩ :=
    Json.members_text (plain_memberName "stored" (by decide)) h₃ hstored
  obtain ⟨v, r, hsize, hrest⟩ := Json.members_key (plain_memberName "size" (by decide)) h₄
  rw [skipWs_decimal] at hsize
  rcases hrest with ⟨-, hclose⟩ | ⟨u', ms', -, hcomma, -⟩
  · rw [Json.value_decimal hsize (by decide) hclose (by decide)] at hclose
    exact ⟨hfield, hplain, ((Json.punct_iff (by decide)).mp hclose).2⟩
  · rw [Json.value_decimal hsize (by decide) hcomma (by decide)] at hcomma
    exact absurd ((Json.punct_iff (by decide)).mp hcomma).1 (by decide)

/-- What the text of a file is read as. -/
def fileValue (f : MultipartSavedFile) : Json :=
  .obj [(bytes "field", .str f.fieldName), (bytes "original", .str f.originalFilename),
    (bytes "stored", .str f.storedFilename), (bytes "size", .num f.size)]

theorem fileValue_describes (f : MultipartSavedFile) : Describes (fileValue f) f where
  field := by simp [fileValue, Json.member, bytes]
  original := by simp [fileValue, Json.member, bytes]
  stored := by simp [fileValue, Json.member, bytes]
  size := by simp [fileValue, Json.member, bytes]

theorem fileJson_value {f : MultipartSavedFile} (hfield : Json.Plain f.fieldName)
    (horiginal : Json.Plain f.originalFilename) (hstored : Json.Plain f.storedFilename)
    (t : Bytes) : Json.Value (uploadedFileJson f ++ t) (fileValue f) (Json.skipWs t) := by
  rw [uploadedFileJson_eq, fileTail]
  refine .obj ((Json.punct_iff (by decide)).mpr ⟨rfl, rfl⟩) ?_
  rw [Json.skipWs_of_not_ws (by decide)]
  refine Json.Members.prepend (plain_memberName "field" (by decide))
    (Json.value_text hfield _) ?_
  refine Json.Members.prepend (plain_memberName "original" (by decide))
    (Json.value_text horiginal _) ?_
  refine Json.Members.prepend (plain_memberName "stored" (by decide))
    (Json.value_text hstored _) ?_
  have hsize : Json.Value (Json.skipWs (decimal f.size ++ 125 :: t)) (.num f.size) (125 :: t) := by
    rw [skipWs_decimal]
    exact .num (Json.number_decimal f.size (125 :: t))
  exact .last (Json.Chars.of_plain (plain_memberName "size" (by decide)) _)
    ((Json.punct_iff (by decide)).mpr ⟨rfl, rfl⟩) hsize
    ((Json.punct_iff (by decide)).mpr ⟨rfl, rfl⟩)

/-! ## All files -/

/-- The texts of some files, and what follows them. -/
def filesText (files : List MultipartSavedFile) (t : Bytes) : Bytes :=
  (bytes ",").intercalate (files.map uploadedFileJson) ++ 93 :: t

theorem filesText_one (f : MultipartSavedFile) (t : Bytes) :
    filesText [f] t = uploadedFileJson f ++ 93 :: t := by
  rw [filesText, List.map_singleton, List.intercalate_singleton]

theorem filesText_cons (f g : MultipartSavedFile) (fs : List MultipartSavedFile) (t : Bytes) :
    filesText (f :: g :: fs) t = uploadedFileJson f ++ 44 :: filesText (g :: fs) t := by
  simp only [filesText, List.map_cons, List.intercalate_cons_cons, List.append_assoc]
  rfl

theorem skipWs_filesText (f : MultipartSavedFile) (fs : List MultipartSavedFile) (t : Bytes) :
    Json.skipWs (filesText (f :: fs) t) = filesText (f :: fs) t := by
  have hstarts : ∃ u, filesText (f :: fs) t = 123 :: u := by
    cases fs with
    | nil => exact ⟨_, by rw [filesText_one, uploadedFileJson_eq]⟩
    | cons g fs => exact ⟨_, by rw [filesText_cons, uploadedFileJson_eq]⟩
  obtain ⟨u, hu⟩ := hstarts
  rw [hu, Json.skipWs_of_not_ws (by decide)]

/-- The names of the file can stand in a JSON text as they are. -/
def PlainNames (f : MultipartSavedFile) : Prop :=
  Json.Plain f.fieldName ∧ Json.Plain f.originalFilename

theorem filesText_reads {f : MultipartSavedFile} {fs : List MultipartSavedFile} {t u : Bytes}
    {vs : List Json} (h : Json.Elements (filesText (f :: fs) t) vs u)
    (hvs : List.Forall₂ Describes vs (f :: fs)) : ∀ g ∈ f :: fs, PlainNames g := by
  induction fs generalizing f vs with
  | nil =>
      rw [filesText_one] at h
      cases h with
      | last hvalue _ | cons hvalue _ _ =>
          obtain ⟨hfield, horiginal, -⟩ := fileJson_reads hvalue (List.forall₂_cons.mp hvs).1
          simpa using ⟨hfield, horiginal⟩
  | cons g fs ih =>
      rw [filesText_cons] at h
      cases h with
      | last hvalue hclose =>
          cases hvs with
          | cons _ hrest => cases hrest
      | cons hvalue hcomma helements =>
          obtain ⟨hdescribes, hrest⟩ := List.forall₂_cons.mp hvs
          obtain ⟨hfield, horiginal, rfl⟩ := fileJson_reads hvalue hdescribes
          rw [Json.skipWs_of_not_ws (by decide)] at hcomma
          obtain ⟨-, rfl⟩ := (Json.punct_iff (by decide)).mp hcomma
          rw [skipWs_filesText] at helements
          exact List.forall_mem_cons.mpr ⟨⟨hfield, horiginal⟩, ih helements hrest⟩

theorem filesText_elements {f : MultipartSavedFile} {fs : List MultipartSavedFile} (t : Bytes)
    (hplain : ∀ g ∈ f :: fs, PlainNames g ∧ Json.Plain g.storedFilename) :
    Json.Elements (filesText (f :: fs) t) ((f :: fs).map fileValue) (Json.skipWs t) := by
  induction fs generalizing f with
  | nil =>
      obtain ⟨⟨hfield, horiginal⟩, hstored⟩ := hplain f List.mem_cons_self
      rw [filesText_one]
      refine .last (fileJson_value hfield horiginal hstored _) ?_
      rw [Json.skipWs_of_not_ws (by decide)]
      exact (Json.punct_iff (by decide)).mpr ⟨rfl, rfl⟩
  | cons g fs ih =>
      obtain ⟨⟨⟨hfield, horiginal⟩, hstored⟩, hrest⟩ := List.forall_mem_cons.mp hplain
      rw [filesText_cons]
      refine .cons (fileJson_value hfield horiginal hstored _) ?_ (ih hrest)
      rw [Json.skipWs_of_not_ws (by decide)]
      exact (Json.punct_iff (by decide)).mpr ⟨rfl, (skipWs_filesText g fs t).symm⟩

/-! ## The whole answer -/

theorem uploadAccepted_body (res : HttpResponse) (files : List MultipartSavedFile) :
    (uploadAccepted res true files).body =
      123 :: 34 :: (bytes "ok" ++ 34 :: 58 :: (bytes "true" ++ 44 ::
        34 :: (bytes "streamed" ++ 34 :: 58 :: (bytes "true" ++ 44 ::
          34 :: (bytes "files" ++ 34 :: 58 :: 91 :: filesText files [125]))))) := by
  simp only [uploadAccepted, if_true, List.append_assoc, filesText]
  rfl

/-- A member with the value `true` and a comma behind it. -/
theorem members_true {name : String} {t r : Bytes} {ms : List (Bytes × Json)}
    (hname : Json.Plain (bytes name))
    (h : Json.Members (34 :: (bytes name ++ 34 :: 58 :: (bytes "true" ++ 44 :: 34 :: t))) ms r) :
    ∃ ms', ms = (bytes name, .bool true) :: ms' ∧ Json.Members (34 :: t) ms' r := by
  obtain ⟨v, u, hvalue, hrest⟩ := Json.members_key hname h
  obtain ⟨rfl, rfl⟩ := Json.value_true
    (show Json.Value (bytes "true" ++ 44 :: 34 :: t) v u from hvalue)
  rcases hrest with ⟨-, hclose⟩ | ⟨u', ms', rfl, hcomma, hms⟩
  · exact absurd ((Json.punct_iff (by decide)).mp hclose).1 (by decide)
  · obtain ⟨-, rfl⟩ := (Json.punct_iff (by decide)).mp hcomma
    rw [Json.skipWs_of_not_ws (by decide)] at hms
    exact ⟨ms', rfl, hms⟩

/-- The answer describes the files exactly if their names are plain. The names they are stored
under always are. -/
theorem uploadAccepted_answers_iff (res : HttpResponse) {files : List MultipartSavedFile}
    (hstored : ∀ f ∈ files, Json.Plain f.storedFilename) :
    AnswersFiles (uploadAccepted res true files).body files ↔ ∀ f ∈ files, PlainNames f := by
  rw [uploadAccepted_body]
  constructor
  · rintro ⟨v, vs, ⟨r, hvalue, -⟩, -, hfound, hvs⟩
    rw [Json.skipWs_of_not_ws (by decide)] at hvalue
    obtain ⟨ms, rfl, h₁⟩ := Json.value_brace hvalue
    obtain ⟨ms, rfl, h₂⟩ := members_true (plain_memberName "ok" (by decide)) h₁
    obtain ⟨ms, rfl, h₃⟩ := members_true (plain_memberName "streamed" (by decide)) h₂
    rw [Json.member_ne (by decide), Json.member_ne (by decide)] at hfound
    obtain ⟨v, u, harray, hrest⟩ := Json.members_key (plain_memberName "files" (by decide)) h₃
    have hv : v = .arr vs := by
      rcases hrest with ⟨rfl, -⟩ | ⟨u', ms', rfl, -⟩ <;> exact Json.member_self hfound
    subst hv
    rw [Json.skipWs_of_not_ws (by decide)] at harray
    cases files with
    | nil => simp
    | cons f fs =>
        obtain ⟨vs', hvs', helements⟩ := Json.value_bracket harray
        obtain rfl := Json.arr.inj hvs'
        rw [skipWs_filesText] at helements
        rcases helements with ⟨rfl, -⟩ | helements
        · cases hvs
        · exact filesText_reads helements hvs
  · intro hplain
    have htrue : ∀ t, Json.Value (Json.skipWs (bytes "true" ++ t)) (.bool true) t :=
      fun _ => .litTrue
    have harray : Json.Value (Json.skipWs (91 :: filesText files [125]))
        (.arr (files.map fileValue)) [125] := by
      rw [Json.skipWs_of_not_ws (by decide)]
      cases files with
      | nil =>
          exact .arrNil ((Json.punct_iff (by decide)).mpr ⟨rfl, rfl⟩)
            ((Json.punct_iff (by decide)).mpr ⟨rfl, rfl⟩)
      | cons f fs =>
          refine .arr ((Json.punct_iff (by decide)).mpr ⟨rfl, rfl⟩) ?_
          rw [skipWs_filesText]
          exact filesText_elements [125] fun g hg => ⟨hplain g hg, hstored g hg⟩
    refine ⟨.obj [(bytes "ok", .bool true), (bytes "streamed", .bool true),
      (bytes "files", .arr (files.map fileValue))], files.map fileValue, ⟨[], ?_, rfl⟩,
      by simp [Json.member, bytes], by simp [Json.member, bytes], ?_⟩
    · rw [Json.skipWs_of_not_ws (by decide)]
      refine .obj ((Json.punct_iff (by decide)).mpr ⟨rfl, rfl⟩) ?_
      rw [Json.skipWs_of_not_ws (by decide)]
      refine Json.Members.prepend (plain_memberName "ok" (by decide)) (htrue _) ?_
      refine Json.Members.prepend (plain_memberName "streamed" (by decide)) (htrue _) ?_
      exact .last (Json.Chars.of_plain (plain_memberName "files" (by decide)) _)
        ((Json.punct_iff (by decide)).mpr ⟨rfl, rfl⟩) harray
        ((Json.punct_iff (by decide)).mpr ⟨rfl, rfl⟩)
    · rw [List.forall₂_map_left_iff, List.forall₂_same]
      exact fun f _ => fileValue_describes f

/-! ## Accepted uploads -/

/-- A refusal does not look like a success. -/
def ShowsRefusal (result : MultipartResult) : Prop := result.ok = true ∨ result.status ≠ 200

section Refusals

variable {env : UploadEnv} {uploadDirectory : Path} {limits : MultipartLimits}
  {files : List MultipartSavedFile} {st st' : Uploads} {result : MultipartResult}

theorem refuse_shows (files : List MultipartSavedFile) {status : Nat} (error : String)
    (h : status ≠ 200) : ShowsRefusal (refuse files status error) := Or.inr h

theorem storePending_shows {newline : Bool} {p : PartState}
    (h : storePending env limits files newline p st = (.error result, st')) :
    ShowsRefusal result := by
  rw [storePending] at h
  cases hpending : p.pending with
  | none =>
      rw [hpending] at h
      cases h
  | some pending =>
      rw [hpending] at h
      simp only [] at h
      generalize pending.length + (if newline then 1 else 0) = size at h
      cases hout : p.out with
      | some out =>
          rw [hout] at h
          simp only [] at h
          split at h
          · cases h
            exact refuse_shows _ _ (by decide)
          · cases h
      | none =>
          rw [hout] at h
          simp only [] at h
          split at h
          · cases h
            exact refuse_shows _ _ (by decide)
          · cases h

theorem openPart_shows {rawHeaders : Bytes}
    (h : openPart env files rawHeaders st = (.error result, st')) : ShowsRefusal result := by
  rw [openPart] at h
  rcases partNames rawHeaders with ⟨fieldName, originalFilename⟩
  simp only [] at h
  split at h
  · cases h
  · split at h
    · cases h
      exact refuse_shows _ _ (by decide)
    · split at h
      · cases h
        exact refuse_shows _ _ (by decide)
      · cases h

theorem contentLoop_shows {delimiter : Bytes} {lines : List Bytes} {p : PartState}
    (h : contentLoop env uploadDirectory limits delimiter files lines p st =
      (.returned result, st')) : ShowsRefusal result := by
  induction lines generalizing p st with
  | nil => cases h
  | cons raw rest ih =>
      rw [contentLoop] at h
      simp only [] at h
      split at h
      · split at h
        next hstore =>
          cases h
          exact storePending_shows hstore
        · split at h
          · cases h
            exact Or.inl rfl
          · cases h
      · split at h
        next hstore =>
          cases h
          exact storePending_shows hstore
        · exact ih h

theorem spoolLoop_shows (delimiter : Bytes) (allowed : Nat) (lines : List Bytes) :
    ShowsRefusal (spoolLoop env uploadDirectory limits delimiter allowed lines files st).1 := by
  induction allowed generalizing lines files st with
  | zero => exact refuse_shows _ _ (by decide)
  | succ allowed ih =>
      rw [spoolLoop]
      simp only []
      split
      · exact refuse_shows _ _ (by decide)
      · split
        next hopen => exact openPart_shows hopen
        · split
          next hcontent => exact contentLoop_shows hcontent
          · exact refuse_shows _ _ (by decide)
          · exact ih _

theorem saveUploadsFromSpoolFile_shows {spoolFile : Option Bytes} {contentType : Bytes}
    (h : (Multipart.saveUploadsFromSpoolFile env spoolFile contentType uploadDirectory limits
      st).1 = .ok result) : ShowsRefusal result := by
  rw [Multipart.saveUploadsFromSpoolFile] at h
  split at h
  · cases h
    exact refuse_shows _ _ (by decide)
  · split at h
    · cases h
      exact refuse_shows _ _ (by decide)
    · split at h
      · cases h
        exact refuse_shows _ _ (by decide)
      · split at h
        · cases h
        · split at h
          · cases h
            exact refuse_shows _ _ (by decide)
          · simp only [] at h
            split at h
            · cases h
              exact refuse_shows _ _ (by decide)
            · cases h
              exact spoolLoop_shows _ _ _

end Refusals

/-- An accepted upload reports its file parts, under their own names. -/
theorem saveUploadsFromSpoolFile_records {env : UploadEnv} {spoolFile : Option Bytes}
    {contentType : Bytes} {uploadDirectory : Path} {limits : MultipartLimits} {st : Uploads}
    {result : MultipartResult}
    (h : (Multipart.saveUploadsFromSpoolFile env spoolFile contentType uploadDirectory limits
      st).1 = .ok result) (hok : result.ok = true) :
    result = accept result.files ∧
      List.Forall₂ (Recorded uploadDirectory)
        ((uploadedParts env spoolFile contentType limits).filter fun p => IsFile p)
        result.files := by
  rw [uploadedParts]
  cases hbehind : behindDelimiter env spoolFile contentType limits with
  | none =>
      obtain ⟨answer, hanswer, hrefused⟩ :=
        saveUploadsFromSpoolFile_early hbehind uploadDirectory st
      rw [hanswer] at h
      rw [hrefused result h] at hok
      cases hok
  | some behind =>
      obtain ⟨delimiter, lines⟩ := behind
      rw [saveUploadsFromSpoolFile_parts hbehind] at h
      have hresult := Except.ok.inj h
      by_cases hall : AllAccepted env limits delimiter st.opened
          (cutParts delimiter limits.maxParts (lines.map dropCr))
      · obtain ⟨new, st', hrun, hstored⟩ :=
          spoolLoop_accepted uploadDirectory limits.maxParts lines [] st hall
        rw [hrun] at hresult
        subst hresult
        exact ⟨rfl, hstored.recorded⟩
      · rw [← hresult, spoolLoop_refused uploadDirectory limits.maxParts lines [] st hall] at hok
        cases hok

theorem recorded_plain_iff {uploadDirectory : Path} {parts : List LinePart}
    {files : List MultipartSavedFile}
    (h : List.Forall₂ (Recorded uploadDirectory) parts files) :
    (∀ f ∈ files, PlainNames f) ↔
      ∀ p ∈ parts, Json.Plain (lineNames p).1 ∧ Json.Plain (lineNames p).2 := by
  induction h with
  | nil => simp
  | cons hfile _ ih =>
      rw [List.forall_mem_cons, List.forall_mem_cons, ih, PlainNames, hfile.fieldName,
        hfile.originalFilename]

theorem ordinary_of_alnum {c : UInt8} (h : isAlnum c = true ∨ c = dot ∨ c = 95 ∨ c = 45) :
    Json.Ordinary c := by
  simp only [isAlnum, isDigit, isUpper, isLower, Bool.or_eq_true, Bool.and_eq_true,
    decide_eq_true_eq, UInt8.le_iff_toNat_le, ← UInt8.toNat_inj, dot, UInt8.reduceToNat] at h
  simp only [Json.Ordinary, UInt8.le_iff_toNat_le, ne_eq, ← UInt8.toNat_inj, UInt8.reduceToNat]
  omega

theorem storedFilename_plain {readings : Set Nat} {uploadDirectory : Path} {original name : Bytes}
    (h : StoredSafely readings uploadDirectory original name) : Json.Plain name := by
  obtain ⟨micros, -, rfl⟩ := h.prefixed
  intro c hc
  rw [List.mem_append, List.mem_append] at hc
  rcases hc with (hc | hc) | hc
  · exact ordinary_of_alnum (Or.inl (by simp [isAlnum, isDigit_of_mem_decimal hc]))
  · exact ordinary_of_alnum (Or.inr (Or.inr (Or.inl (by simpa [bytes] using hc))))
  · exact ordinary_of_alnum (h.safe c hc)

/-! ## The upload endpoint -/

section Endpoint

variable {env : ServerEnv} {config : ServerConfig} {tls : Bool} {clientIp : Bytes}
  {stream : Connection} {req : HttpRequest} {w : World} {out : HttpResponse}

/-- What is answered 200 is the parser's result on the body of the request. -/
theorem spoolUpload_success {res : HttpResponse} {leftover contentType : Bytes}
    (h : (spoolUpload env config res stream leftover req contentType w).1 = .ok out)
    (hstatus : out.status = 200) :
    ∃ result,
      (Multipart.saveUploadsFromSpoolFile env.upload
        (some ((leftover ++ stream.pending).take req.contentLength)) contentType
        config.uploadDirectory (uploadLimits config) w.uploads).1 = .ok result ∧
      result.ok = true ∧ out = uploadAccepted res true result.files := by
  rw [spoolUpload] at h
  split at h
  · cases h
  · simp only [] at h
    split at h
    · cases h
    · split at h
      · cases h
      next content hbody =>
        have hcontent : content = (leftover ++ stream.pending).take req.contentLength := by
          rw [readBodyRest_spec (by decide)] at hbody
          simp only [bodyOf] at hbody
          split at hbody
          · exact (Except.ok.inj hbody).symm
          · split at hbody
            · exact (Except.ok.inj hbody).symm
            · cases hbody
        split at h
        · cases h
          exact absurd hstatus (show ¬ (400 : Int) = 200 by decide)
        · have huploads : ∀ c, ((w.writeSpool (uniqueSpoolPath config.uploadSpoolDirectory
              env.spoolMicros) content).call c).uploads = w.uploads := fun _ => rfl
          have hspool : (w.writeSpool (uniqueSpoolPath config.uploadSpoolDirectory
              env.spoolMicros) content).spools.lookup (uniqueSpoolPath config.uploadSpoolDirectory
              env.spoolMicros) = some content := lookup_put_self _ _ _
          rw [hspool, huploads] at h
          generalize hgiven : (if env.canOpenSpool = true then some content else none) = spool at h
          rcases hsave : Multipart.saveUploadsFromSpoolFile env.upload spool contentType
            config.uploadDirectory (uploadLimits config) w.uploads with ⟨answer, uploads⟩
          rw [hsave] at h
          cases answer with
          | error e => cases h
          | ok result =>
              have hshows := saveUploadsFromSpoolFile_shows (congrArg Prod.fst hsave)
              cases h
              have hok : result.ok = true := by
                by_contra hok
                rw [uploadResponse, if_neg hok] at hstatus
                have hrefused : (result.status : Int) = 200 := hstatus
                exact hshows.elim hok fun hne => hne (by omega)
              have hsome : spool = some content := by
                by_cases hopen : env.canOpenSpool = true
                · rw [← hgiven, if_pos hopen]
                · rw [if_neg hopen] at hgiven
                  subst hgiven
                  obtain ⟨answer, hanswer, hrefused⟩ := saveUploadsFromSpoolFile_early
                    (show behindDelimiter env.upload none contentType (uploadLimits config) =
                        none by
                      unfold behindDelimiter
                      split <;> simp_all)
                    config.uploadDirectory w.uploads
                  rw [hsave] at hanswer
                  rw [hrefused result (congrArg Prod.fst hanswer).symm] at hok
                  cases hok
              refine ⟨result, ?_, hok, by rw [uploadResponse, if_pos hok]⟩
              rw [← hcontent, ← hsome, hsave]

theorem handleStreamedUpload_success {leftover : Bytes}
    (h : (handleStreamedUpload env config tls clientIp stream leftover req w).1 = .ok out)
    (hstatus : out.status = 200) :
    ∃ contentType result,
      req.headers.lookup (bytes "content-type") = some contentType ∧
      (Multipart.saveUploadsFromSpoolFile env.upload
        (some ((leftover ++ stream.pending).take req.contentLength)) contentType
        config.uploadDirectory (uploadLimits config) w.uploads).1 = .ok result ∧
      result.ok = true ∧
      out = uploadAccepted (emptyResponse config tls) true result.files := by
  have hother : ∀ {n : Int} {reason body : String}, n ≠ 200 →
      out ≠ (emptyResponse config tls).answer n reason body := by
    rintro n reason body hn rfl
    exact hn hstatus
  have hauth := (authorizeEndpoint_stores env config req (bytes "upload") w).uploads
  rw [handleStreamedUpload] at h
  split at h
  · exact absurd (Except.ok.inj h).symm (hother (by decide))
  · split at h
    · exact absurd (Except.ok.inj h).symm (hother (by decide))
    · simp only [] at h
      split at h
      · have hdenied := Except.ok.inj h
        subst hdenied
        rw [denyEndpoint] at hstatus
        split at hstatus <;> cases hstatus
      · split at h
        · exact absurd (Except.ok.inj h).symm (hother (by decide))
        next contentType hlookup =>
          split at h
          · exact absurd (Except.ok.inj h).symm (hother (by decide))
          · split at h
            · exact absurd (Except.ok.inj h).symm (hother (by decide))
            · obtain ⟨result, hresult, hok, hout⟩ := spoolUpload_success h hstatus
              rw [auditEndpointEvent_uploads, hauth] at hresult
              exact ⟨contentType, result, hlookup, hresult, hok, hout⟩

end Endpoint

/-- The answer to an upload that is answered 200 says in JSON what was stored
exactly when the names in the headers of all its file parts are plain: no quote,
no backslash and no control character in them. -/
theorem upload_answer_iff {env : ServerEnv} {config : ServerConfig} {tls : Bool}
    {clientIp : Bytes} {stream stream' : Connection} {headers : HeaderReadResult} {w : World}
    {r : Reply} (hread : readHeadersOnly stream config = (.ok headers, stream'))
    (hok : (parseHeadersOnly headers.headerPart config.limits).ok = true)
    (hadmin : (parseHeadersOnly headers.headerPart config.limits).request.target
      ≠ config.adminStatusEndpoint)
    (htarget : (parseHeadersOnly headers.headerPart config.limits).request.target
      = config.uploadEndpoint)
    (hreply : (handleClientStream env config tls clientIp stream w).1 = .ok r)
    (hstatus : r.status = 200) :
    let req := (parseHeadersOnly headers.headerPart config.limits).request
    let body := (headers.leftover ++ stream'.pending).take req.contentLength
    ∃ contentType files,
      req.headers.lookup (bytes "content-type") = some contentType ∧
      (Multipart.saveUploadsFromSpoolFile env.upload (some body) contentType
        config.uploadDirectory (uploadLimits config) w.uploads).1 = .ok (accept files) ∧
      (AnswersFiles r.response.bodyData files ↔
        ∀ p ∈ uploadedParts env.upload (some body) contentType (uploadLimits config), IsFile p →
          Json.Plain (lineNames p).1 ∧ Json.Plain (lineNames p).2) := by
  rw [handleClientStream_upload hread hok hadmin htarget] at hreply
  cases hout : (handleStreamedUpload env config tls clientIp stream' headers.leftover
      (parseHeadersOnly headers.headerPart config.limits).request { w with calls := [] }).1 with
  | error e =>
      rw [hout] at hreply
      cases hreply
  | ok out =>
      rw [hout] at hreply
      cases hreply
      obtain ⟨contentType, result, hlookup, hresult, haccepted, rfl⟩ :=
        handleStreamedUpload_success hout hstatus
      obtain ⟨haccept, hrecorded⟩ := saveUploadsFromSpoolFile_records hresult haccepted
      have hstored : ∀ f ∈ result.files, Json.Plain f.storedFilename := fun f hf =>
        storedFilename_plain (((saveUploadsFromSpoolFile_safe env.upload _ contentType
          config.uploadDirectory (uploadLimits config) w.uploads).1.reported result hresult) f hf).1
      refine ⟨contentType, result.files, hlookup, haccept ▸ hresult, ?_⟩
      refine (uploadAccepted_answers_iff (emptyResponse config tls) hstored).trans
        ((recorded_plain_iff hrecorded).trans ?_)
      simp only [List.mem_filter, decide_eq_true_eq, and_imp]

/-- A form with one file, sent to the upload endpoint. -/
def uploadStream (header : String) : Connection :=
  let body := bytes "--B\r\nContent-Disposition: form-data; " ++ bytes header ++
    bytes "\r\n\r\nhi\r\n--B--\r\n"
  { pending := bytes "POST /__hydrogen/upload HTTP/1.1\r\nHost: a\r\n" ++
      bytes "Content-Type: multipart/form-data; boundary=B\r\nContent-Length: " ++
      decimal body.length ++ bytes "\r\n\r\n" ++ body }

def uploadsConfig : ServerConfig := { enableUploads := true }

theorem upload_answer_iff_text :
    ∃ r files, (handleClientStream quietEnv uploadsConfig false []
        (uploadStream "name=\"f\"; filename=\"a.txt\"") freshWorld).1 = .ok r ∧ r.status = 200 ∧
      AnswersFiles r.response.bodyData files := by
  have hstatus : (handleClientStream quietEnv uploadsConfig false []
      (uploadStream "name=\"f\"; filename=\"a.txt\"") freshWorld).1.map (·.status) = .ok 200 := by
    decide +kernel
  -- What the run reads: the header block, the content type and the parts.
  have hreading : (match readHeadersOnly (uploadStream "name=\"f\"; filename=\"a.txt\"")
      uploadsConfig with
    | (.ok headers, stream') =>
        let parsed := parseHeadersOnly headers.headerPart uploadsConfig.limits
        decide (parsed.ok = true ∧ parsed.request.target ≠ uploadsConfig.adminStatusEndpoint ∧
          parsed.request.target = uploadsConfig.uploadEndpoint ∧
          parsed.request.headers.lookup (bytes "content-type") =
            some (bytes "multipart/form-data; boundary=B") ∧
          ∀ p ∈ uploadedParts quietEnv.upload
              (some ((headers.leftover ++ stream'.pending).take parsed.request.contentLength))
              (bytes "multipart/form-data; boundary=B") (uploadLimits uploadsConfig),
            IsFile p → Json.Plain (lineNames p).1 ∧ Json.Plain (lineNames p).2)
    | (.error _, _) => false) = true := by
    decide +kernel
  cases h : (handleClientStream quietEnv uploadsConfig false []
      (uploadStream "name=\"f\"; filename=\"a.txt\"") freshWorld).1 with
  | error e =>
      rw [h] at hstatus
      cases hstatus
  | ok r =>
      rw [h] at hstatus
      rcases hread : readHeadersOnly (uploadStream "name=\"f\"; filename=\"a.txt\"")
        uploadsConfig with ⟨e | headers, stream'⟩
      · rw [hread] at hreading
        cases hreading
      · rw [hread] at hreading
        obtain ⟨hok, hadmin, htarget, hform, hplain⟩ := of_decide_eq_true hreading
        obtain ⟨contentType, files, hlookup, -, hiff⟩ :=
          upload_answer_iff hread hok hadmin htarget h (Except.ok.inj hstatus)
        obtain rfl := Option.some.inj (hform.symm.trans hlookup)
        exact ⟨r, files, rfl, Except.ok.inj hstatus, hiff.mpr hplain⟩

/-- A file named by its path on the client's drive is stored, and the answer is no JSON text
that says so. -/
theorem upload_answer_backslash :
    ∃ r headers stream' files,
      readHeadersOnly (uploadStream "name=\"f\"; filename=\"C:\\x.txt\"") uploadsConfig =
        (.ok headers, stream') ∧
      (handleClientStream quietEnv uploadsConfig false []
        (uploadStream "name=\"f\"; filename=\"C:\\x.txt\"") freshWorld).1 = .ok r ∧
      r.status = 200 ∧
      (Multipart.saveUploadsFromSpoolFile quietEnv.upload
        (some ((headers.leftover ++ stream'.pending).take (parseHeadersOnly headers.headerPart
          uploadsConfig.limits).request.contentLength))
        (bytes "multipart/form-data; boundary=B") uploadsConfig.uploadDirectory
        (uploadLimits uploadsConfig) freshWorld.uploads).1 = .ok (accept files) ∧
      files.map (·.originalFilename) = [bytes "C:\\x.txt"] ∧
      ¬ AnswersFiles r.response.bodyData files := by
  let saved : MultipartSavedFile :=
    { fieldName := bytes "f", originalFilename := bytes "C:\\x.txt"
      storedFilename := bytes "0_x.txt"
      storedPath := uploadsConfig.uploadDirectory / Path.ofBytes (bytes "0_x.txt"), size := 2 }
  have hanswer : (handleClientStream quietEnv uploadsConfig false []
      (uploadStream "name=\"f\"; filename=\"C:\\x.txt\"") freshWorld).1.map (fun r =>
        decide (r.status = 200 ∧ r.response.bodyData =
          (uploadAccepted (emptyResponse uploadsConfig false) true [saved]).body)) = .ok true := by
    decide +kernel
  have hreading : (match readHeadersOnly (uploadStream "name=\"f\"; filename=\"C:\\x.txt\"")
      uploadsConfig with
    | (.ok headers, stream') => decide ((Multipart.saveUploadsFromSpoolFile quietEnv.upload
        (some ((headers.leftover ++ stream'.pending).take (parseHeadersOnly headers.headerPart
          uploadsConfig.limits).request.contentLength))
        (bytes "multipart/form-data; boundary=B") uploadsConfig.uploadDirectory
        (uploadLimits uploadsConfig) freshWorld.uploads).1 = .ok (accept [saved]))
    | (.error _, _) => false) = true := by
    decide +kernel
  cases h : (handleClientStream quietEnv uploadsConfig false []
      (uploadStream "name=\"f\"; filename=\"C:\\x.txt\"") freshWorld).1 with
  | error e =>
      rw [h] at hanswer
      cases hanswer
  | ok r =>
      rw [h] at hanswer
      obtain ⟨hstatus, hbody⟩ := of_decide_eq_true
        (Except.ok.inj (show Except.ok _ = Except.ok true from hanswer))
      rcases hread : readHeadersOnly (uploadStream "name=\"f\"; filename=\"C:\\x.txt\"")
        uploadsConfig with ⟨e | headers, stream'⟩
      · rw [hread] at hreading
        cases hreading
      · rw [hread] at hreading
        refine ⟨r, headers, stream', [saved], rfl, rfl, hstatus, of_decide_eq_true hreading,
          rfl, ?_⟩
        rw [hbody, uploadAccepted_answers_iff _ (by decide +kernel)]
        exact fun h => absurd (h saved (List.mem_singleton_self _)).2 (by decide +kernel)

end HydrogenHttpd.Ref
