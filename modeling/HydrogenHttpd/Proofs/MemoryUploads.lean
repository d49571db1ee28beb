import HydrogenHttpd.Proofs.DispositionParameters
import HydrogenHttpd.Proofs.UploadWire

/-!
# What an upload from memory stores

The parser in memory takes a content out of the body byte for byte, between the
empty line of its part and the next CRLF with a delimiter behind it. No content
that keeps clear of the boundary moves either of them, so a form comes back part
by part (`memoryLoop_form`): files are stored, plain fields are only measured.
What stands in front of the form has to end its line, and what stands behind it
is not read.

The limits have the last word. A form without files is within a file limit of
zero, but no upload is accepted under one (`memory_upload_exact_iff`).
-/

namespace HydrogenHttpd.Ref

open Base Spec

/-! ## A part of a form -/

/-- What the encoder and the limits ask of a part, file or field. -/
structure WithinLimits (limits : MultipartLimits) (boundary : Bytes) (p : FormPart) : Prop where
  name : Quotable p.name
  filename : Quotable p.filename
  safe : p.filename = [] ∨ Multipart.isSafeUploadFilename p.filename = true
  size : p.content.length ≤ if p.filename = [] then limits.maxFieldBytes else limits.maxFileBytes
  avoids : AvoidsBoundary boundary p.content

/-- A piece of a text between CRLFs begins the text or stands behind a CRLF. -/
theorem piece_of_splitCrlf {s l : Bytes} (h : l ∈ splitCrlf s) : l <+: s ∨ crlf ++ l <:+: s := by
  obtain ⟨a, b, hsplit⟩ := List.append_of_mem h
  have htext := intercalate_splitCrlf s
  have hbehind : l <+: crlf.intercalate (l :: b) := by
    cases b with
    | nil => rw [List.intercalate_singleton]
    | cons m ms =>
        rw [List.intercalate_cons_cons, List.append_assoc]
        exact List.prefix_append _ _
  rw [hsplit] at htext
  by_cases ha : a = []
  · subst ha
    exact Or.inl (htext ▸ hbehind)
  · rw [intercalate_append ha (by simp)] at htext
    obtain ⟨v, hv⟩ := hbehind
    refine Or.inr ⟨crlf.intercalate a, v, ?_⟩
    rw [← htext, ← hv]
    simp

/-- A disposition with a field name alone. -/
theorem dispositionValue_field {name : Bytes} (hname : Quotable name) :
    dispositionValue (printDisposition [(bytes "name", name)]) (bytes "name") = name ∧
      dispositionValue (printDisposition [(bytes "name", name)]) (bytes "filename") = [] := by
  have hparams : QuoteFree [(bytes "name", name)] := by
    intro q hq
    rw [List.mem_singleton.mp hq]
    exact ⟨show quote ∉ bytes "name" by decide, hname.1⟩
  have hinfix : ¬ bytes "filename" ++ bytes "=" <:+: name := fun h =>
    hname.2.2.2 (List.IsInfix.trans ⟨bytes "file", [], rfl⟩ h)
  refine ⟨(dispositionValue_printed_iff (by decide) (by decide) hparams).mpr ?_,
    (dispositionValue_printed_iff (by decide) (by decide) hparams).mpr (.nowhere ?_ ?_)⟩
  · exact .name [] _ [] rfl (by simp) List.suffix_rfl rfl
  · intro q hq
    rw [List.mem_singleton.mp hq, Shows, not_or]
    exact ⟨show ¬ bytes "filename" <:+ bytes "name" by decide, fun h => hinfix h.isInfix⟩
  · intro t ht
    have hfound := List.find?_some ht
    have hmem := List.mem_of_find?_eq_some ht
    rw [decide_eq_true_eq] at hfound
    rcases List.mem_pair.mp hmem with rfl | rfl
    · exact absurd hfound (show ¬ bytes "filename" ++ bytes "=" <:+: bytes "name" by decide)
    · exact absurd hfound hinfix

/-- The header line of a plain field names the field, and no file. -/
theorem partNames_fieldHeader {p : FormPart} (hname : Quotable p.name) :
    partNames (p.fieldHeader ++ crlf) = (p.name, []) := by
  have hheader : p.fieldHeader =
      bytes "Content-Disposition: " ++ printDisposition [(bytes "name", p.name)] := by
    simp [FormPart.fieldHeader, printDisposition, printParam, bytes]
  have hcr : cr ∉ printDisposition [(bytes "name", p.name)] := by
    simp only [printDisposition, printParam, List.map_singleton, List.flatten_singleton,
      List.mem_append, not_or]
    exact ⟨by decide, ⟨⟨⟨by decide, by decide⟩, by decide⟩, hname.2.1⟩, by decide⟩
  have htext : printDisposition [(bytes "name", p.name)] =
      102 :: ((bytes "form-data; name=\"").drop 1 ++ p.name) ++ [quote] := by
    simp [printDisposition, printParam, bytes, quote]
  have htrim : trimWith isBlank (printDisposition [(bytes "name", p.name)]) =
      printDisposition [(bytes "name", p.name)] := by
    rw [htext]
    exact trimWith_eq_self (by decide) (by decide)
  obtain ⟨hread, hnone⟩ := dispositionValue_field hname
  rw [hheader, partNames_disposition hcr htrim, hread, hnone]

/-- The part with this header line, as it is read. -/
def wirePartOf (p : FormPart) (line : Bytes) : WirePart :=
  { headers := [line], content := p.content }

/-- The line stands for the part's header. -/
structure HeaderOf (p : FormPart) (line : Bytes) : Prop where
  ne_nil : line ≠ []
  no_lf : lf ∉ line
  names : partNames (line ++ crlf) = (p.name, p.filename)

section Part

variable {limits : MultipartLimits} {boundary : Bytes} {p : FormPart} {line : Bytes}
  (hline : HeaderOf p line) (hp : WithinLimits limits boundary p)

include hline hp

theorem separate_wirePartOf : (wirePartOf p line).Separate (delimiterOf boundary) where
  nonempty := by simp [wirePartOf]
  lines l hl := by
    rw [List.mem_singleton.mp hl]
    exact ⟨hline.ne_nil, hline.no_lf⟩
  clear l hl hpre := by
    rcases piece_of_splitCrlf hl with hfront | hbehind
    · exact hp.avoids.1 (hpre.trans hfront)
    · refine hp.avoids.2 (List.IsInfix.trans ?_ hbehind)
      obtain ⟨v, hv⟩ := hpre
      exact ⟨[], v, by simp [← hv]⟩

theorem names_wirePartOf : (wirePartOf p line).names = (p.name, p.filename) := by
  have h := WirePart.partNames_lines (separate_wirePartOf hline hp).toHeaded
  rw [show ((wirePartOf p line).headers.map (· ++ crlf)).flatten = line ++ crlf by
    simp [wirePartOf]] at h
  rw [← h, hline.names]

theorem fitsMemory_wirePartOf : (wirePartOf p line).FitsMemory limits := by
  have hsize := hp.size
  rw [WirePart.FitsMemory, names_wirePartOf hline hp]
  split at hsize
  · next hfield => rw [if_pos hfield]; exact fun _ => hsize
  · next hfile => rw [if_neg hfile]; exact ⟨hsize, hp.safe.resolve_left hfile⟩

theorem cutAs_wirePartOf : CutAs p (wirePartOf p line).whole :=
  ⟨by
      rw [WirePart.lineNames_whole (separate_wirePartOf hline hp).toHeaded,
        names_wirePartOf hline hp],
    WirePart.joined_whole _⟩

end Part

/-- The first part of an encoded form. -/
theorem encodesParts_cons {limits : MultipartLimits} {boundary delimiter text : Bytes}
    {p : FormPart} {ps : List FormPart} (h : EncodesParts delimiter (p :: ps) text)
    (hp : WithinLimits limits boundary p) :
    ∃ line behind, HeaderOf p line ∧ EncodesParts delimiter ps behind ∧
      text = crlf ++ ((wirePartOf p line).text ++ crlf ++ (delimiter ++ behind)) := by
  have htext : ∀ line behind : Bytes,
      crlf ++ (line ++ crlf ++ crlf ++ p.content ++ crlf) ++ delimiter ++ behind =
        crlf ++ ((wirePartOf p line).text ++ crlf ++ (delimiter ++ behind)) := by
    intro line behind
    simp [wirePartOf, WirePart.text, WirePart.head, crlf2, crlf]
  cases h with
  | part _ h =>
      refine ⟨p.header, _, ⟨?_, lf_not_mem_header hp.name hp.filename,
        partNames_header hp.name hp.filename⟩, h, htext _ _⟩
      simp [FormPart.header, quote]
  | field _ hfield h =>
      refine ⟨p.fieldHeader, _, ⟨?_, ?_, ?_⟩, h, htext _ _⟩
      · simp [FormPart.fieldHeader, quote]
      · simp only [FormPart.fieldHeader, List.mem_append, not_or]
        exact ⟨⟨by decide, hp.name.2.2.1⟩, by decide⟩
      · rw [partNames_fieldHeader hp.name, hfield]

/-! ## The form -/

section Form

variable {env : UploadEnv} {limits : MultipartLimits} {boundary : Bytes} {parts : List FormPart}

/-- The loop over a form it takes, from any delimiter of it on. -/
theorem memoryLoop_form (uploadDirectory : Path) (hcr : cr ∉ delimiterOf boundary)
    (hcreate : ∀ k, env.canCreate k = true) (hparts : ∀ p ∈ parts, WithinLimits limits boundary p)
    {text : Bytes} (htext : EncodesParts (delimiterOf boundary) parts text) {allowed : Nat}
    (hcount : parts.length ≤ allowed) {body epilogue : Bytes} {pos : Nat}
    (h : body.drop (pos + (delimiterOf boundary).length) = text ++ epilogue)
    (files : List MultipartSavedFile) (st : Uploads) :
    ∃ cut new st', List.Forall₂ CutAs parts cut ∧
      memoryLoop env uploadDirectory limits body (delimiterOf boundary) allowed pos files st =
        (accept (files ++ new), st') ∧
      UploadStored env uploadDirectory cut new st st' := by
  induction parts generalizing text allowed pos files st with
  | nil =>
      cases htext
      exact ⟨[], [], st, List.Forall₂.nil,
        by rw [memoryLoop_closing env uploadDirectory limits files st h, List.append_nil],
        uploadStored_nil env uploadDirectory st⟩
  | cons p ps ih =>
      obtain ⟨allowed, rfl⟩ : ∃ n, allowed = n + 1 :=
        ⟨allowed - 1, by rw [List.length_cons] at hcount; omega⟩
      rw [List.length_cons] at hcount
      have hp := hparts p List.mem_cons_self
      obtain ⟨line, behind, hline, hbehind, htext⟩ := encodesParts_cons htext hp
      have hbody : body.drop (pos + (delimiterOf boundary).length) =
          crlf ++ ((wirePartOf p line).text ++ crlf ++
            (delimiterOf boundary ++ (behind ++ epilogue))) := by
        rw [h, htext]
        simp
      obtain ⟨pos', new, st', hrest, hstored, hloop⟩ := memoryLoop_stores env uploadDirectory
        limits files st (by simp [delimiterOf, dashes]) hcr (separate_wirePartOf hline hp)
        (fitsMemory_wirePartOf hline hp) hbody hcreate allowed
      obtain ⟨cut, more, st'', hcut, hrun, hmore⟩ := ih
        (fun q hq => hparts q (List.mem_cons_of_mem p hq)) hbehind
        (Nat.le_of_succ_le_succ hcount) hrest (files ++ new) st'
      refine ⟨_ :: cut, new ++ more, st'', List.Forall₂.cons (cutAs_wirePartOf hline hp) hcut, ?_,
        hstored.append hmore⟩
      rw [hloop, hrun, List.append_assoc]

/-- The files among the parts are the files of the cut. -/
theorem forall₂_files {cut : List LinePart} (h : List.Forall₂ CutAs parts cut) :
    List.Forall₂ CutAs (parts.filter fun p => p.filename ≠ []) (cut.filter fun q => IsFile q) := by
  induction h with
  | nil => exact List.Forall₂.nil
  | @cons p q ps qs hpq _ ih =>
      by_cases hfile : p.filename = []
      · rw [List.filter_cons_of_neg (by simpa using hfile),
          List.filter_cons_of_neg (by simp [IsFile, hpq.1, hfile])]
        exact ih
      · rw [List.filter_cons_of_pos (by simpa using hfile),
          List.filter_cons_of_pos (by simp [IsFile, hpq.1, hfile])]
        exact List.Forall₂.cons hpq ih

/-- A preamble that ends its line does not hide the first delimiter. -/
theorem find_behind_preamble {delimiter preamble : Bytes} (hlf : lf ∉ delimiter)
    (hne : delimiter ≠ []) (hpreamble : preamble = [] ∨ crlf <:+ preamble)
    (hfree : ¬ delimiter <:+: preamble) (rest : Bytes) :
    find? delimiter (preamble ++ (delimiter ++ rest)) = some preamble.length := by
  have hfirst : find? delimiter (delimiter ++ rest) = some 0 :=
    find?_eq_some_iff.mpr ⟨Nat.zero_le _, List.prefix_append _ _, by simp⟩
  rcases hpreamble with rfl | ⟨u, rfl⟩
  · exact hfirst
  · have hnone : find? delimiter (u ++ [cr]) = none := by
      rw [find?_eq_none_iff_no_occurrence]
      exact fun h => hfree (h.trans ⟨[], [lf], by simp [crlf]⟩)
    rw [show u ++ crlf ++ (delimiter ++ rest) = (u ++ [cr]) ++ lf :: (delimiter ++ rest) by
      simp [crlf], find?_beyond hne hlf, hnone, hfirst]
    simp [crlf]

end Form

/-- A plain field. -/
def noteField : FormPart := { name := bytes "note", filename := [], content := bytes "hi" }

/-- A file with line ends, an empty line and half a delimiter in it. -/
def lettersFile : FormPart :=
  { name := bytes "f", filename := bytes "a.txt", content := bytes "one\r\n\r\n--\r\n-" }

end HydrogenHttpd.Ref
