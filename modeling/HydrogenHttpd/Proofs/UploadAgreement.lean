import HydrogenHttpd.Proofs.UploadWire

/-!
# Where the two upload parsers agree

One parser searches the body for the delimiter, the other compares whole lines,
and no rule makes them answer alike. `ReadAlike` collects the bodies they read
in step: part by part both stand at the same place, and the first refusal is
the same for both. On those the answers are the same (`uploads_agree`), by
induction on the parts (`loops_agree`).

What it leaves out is where they part: a preamble, a bare line feed for a line
end, a line that only starts with the delimiter, a part without header lines or
with no line between the empty one and the delimiter, a delimiter line behind a
bare line feed in a content, and sizes or names that only one of them minds
(`parsers_disagree`).
-/

namespace HydrogenHttpd.Ref

open Base Spec

/-! ## Bodies read in step -/

/-- Nothing, or the end of a line. -/
def LineEnds (rest : Bytes) : Prop := rest = [] ∨ rest = [cr] ∨ [lf] <+: rest ∨ crlf <+: rest

/-- Nothing, or no more than one byte of a line end. -/
def BareEnd (rest : Bytes) : Prop := rest = [] ∨ rest = [cr] ∨ rest = [lf]

/-- No empty line ends the headers, and they do not name a file that would be
refused for its name. -/
def Headless (t : Bytes) : Prop :=
  (∀ l ∈ getlines t, dropCr l ≠ []) ∧
    ((partNames ((getlines t).map fun l => dropCr l ++ crlf).flatten).2 ≠ [] →
      Multipart.isSafeUploadFilename
        (partNames ((getlines t).map fun l => dropCr l ++ crlf).flatten).2 = true)

/-- The body ends inside the part's content, and nothing is wrong with the part
up to there: the line reader has stored all lines but the last. -/
structure WirePart.Unclosed (limits : MultipartLimits) (delimiter : Bytes) (p : WirePart) : Prop
    extends p.Headed where
  unended : ¬ crlf ++ delimiter <:+: p.text
  plain : ∀ l ∈ getlines p.content, ¬ IsDelimiter delimiter (dropCr l)
  safe : p.names.2 ≠ [] → Multipart.isSafeUploadFilename p.names.2 = true
  stored : lineBytes ((getlines p.content).map dropCr).dropLast ≤
    if p.names.2 = [] then limits.maxFieldBytes else limits.maxFileBytes

/-- What stands behind a delimiter line that ends in CRLF, with so many parts
still allowed, where both parsers read the same and refuse alike. -/
inductive ReadAlike (limits : MultipartLimits) (delimiter : Bytes) : Nat → Bytes → Prop where
  /-- One part too many, and it has an end. -/
  | tooMany {t : Bytes} (hmore : crlf ++ delimiter <:+: t) : ReadAlike limits delimiter 0 t
  /-- A part without an empty line. -/
  | headless {n : Nat} {t : Bytes} (ht : Headless t) : ReadAlike limits delimiter (n + 1) t
  /-- A part without an end. -/
  | unclosed {n : Nat} {p : WirePart} (hp : p.Unclosed limits delimiter) :
      ReadAlike limits delimiter (n + 1) p.text
  /-- A part both refuse. -/
  | refused {n : Nat} {p : WirePart} {status : Nat} (hcut : p.WellCut delimiter)
      (hrefused : p.Refused limits status) (rest : Bytes) :
      ReadAlike limits delimiter (n + 1) (p.text ++ crlf ++ (delimiter ++ rest))
  /-- The last part, and the closing delimiter on a line of its own. -/
  | closing {n : Nat} {p : WirePart} (hcut : p.WellCut delimiter) (hfits : p.Fits limits)
      {rest : Bytes} (hrest : LineEnds rest) :
      ReadAlike limits delimiter (n + 1) (p.text ++ crlf ++ (delimiter ++ (dashes ++ rest)))
  /-- A part, a delimiter, and the end of the body. -/
  | cutOff {n : Nat} {p : WirePart} (hcut : p.WellCut delimiter) (hfits : p.Fits limits)
      {rest : Bytes} (hrest : BareEnd rest) :
      ReadAlike limits delimiter (n + 2) (p.text ++ crlf ++ (delimiter ++ rest))
  /-- A part and a delimiter line, and so on. -/
  | next {n : Nat} {p : WirePart} {t : Bytes} (hcut : p.WellCut delimiter)
      (hfits : p.Fits limits) (ht : ReadAlike limits delimiter n t) :
      ReadAlike limits delimiter (n + 1) (p.text ++ crlf ++ (delimiter ++ (crlf ++ t)))

/-- Behind its first delimiter the body has no part that the parser in memory
would look into. -/
def NoPart (delimiter behind : Bytes) : Prop :=
  (behind.take 2 ≠ dashes ∧ behind.take 2 ≠ crlf) ∨
    ∃ t, behind = crlf ++ t ∧
      ∀ next, find? (crlf ++ delimiter) t = some next → find? crlf2 (t.take next) = none

/-- A whole body. -/
inductive BodyReadAlike (limits : MultipartLimits) (delimiter : Bytes) : Bytes → Prop where
  /-- No delimiter at all. -/
  | absent {body : Bytes} (hbody : ¬ delimiter <:+: body) : BodyReadAlike limits delimiter body
  /-- The first line is not the delimiter, and there is no part behind the one
  that comes later. -/
  | misplaced {body : Bytes} {pos : Nat} (hpos : find? delimiter body = some pos)
      (hline : ∀ l, (getlines body).head? = some l → dropCr l ≠ delimiter)
      (hpart : NoPart delimiter (body.drop (pos + delimiter.length))) :
      BodyReadAlike limits delimiter body
  /-- A delimiter line and nothing else. -/
  | bare {rest : Bytes} (hrest : BareEnd rest) :
      BodyReadAlike limits delimiter (delimiter ++ rest)
  /-- A delimiter line and parts. -/
  | parts {t : Bytes} (ht : ReadAlike limits delimiter limits.maxParts t) :
      BodyReadAlike limits delimiter (delimiter ++ (crlf ++ t))

/-! ## The loops -/

/-- What two results are compared by. -/
def MultipartResult.summary (r : MultipartResult) : Bool × Nat × List (Bytes × Bytes) :=
  (r.ok, r.status, r.files.map MultipartSavedFile.entry)

theorem getlines_closing {w rest : Bytes} (hlf : lf ∉ w) (hcr : cr ∉ w) (hne : w ≠ [])
    (hrest : LineEnds rest) : ∃ d lines, getlines (w ++ rest) = d :: lines ∧ dropCr d = w := by
  rcases hrest with h | h | ⟨v, h⟩ | ⟨v, h⟩
  · refine ⟨w, [], by rw [h, List.append_nil, getlines_last hlf hne], ?_⟩
    exact dropCr_of_getLast? fun hlast => hcr (List.mem_of_getLast? hlast)
  · refine ⟨w ++ [cr], [], ?_, dropCr_concat_cr w⟩
    rw [h]
    exact getlines_last (by simp [hlf, show lf ≠ cr by decide]) (by simp)
  · refine ⟨w, getlines v, by rw [← h]; exact getlines_line hlf v, ?_⟩
    exact dropCr_of_getLast? fun hlast => hcr (List.mem_of_getLast? hlast)
  · refine ⟨w ++ [cr], getlines v, ?_, dropCr_concat_cr w⟩
    rw [← h, ← List.append_assoc]
    exact getlines_crlf hlf v

/-- A delimiter line and nothing behind it: one line for the one parser, and no
delimiter line for the other. -/
theorem bareEnd_lines {w rest : Bytes} (hlf : lf ∉ w) (hcr : cr ∉ w) (hne : w ≠ [])
    (hrest : BareEnd rest) :
    (∃ d, getlines (w ++ rest) = [d] ∧ dropCr d = w) ∧ rest.take 2 ≠ dashes ∧
      rest.take 2 ≠ crlf := by
  have hw : dropCr w = w := dropCr_of_getLast? fun hlast => hcr (List.mem_of_getLast? hlast)
  rcases hrest with h | h | h
  · subst h
    exact ⟨⟨w, by rw [List.append_nil, getlines_last hlf hne], hw⟩, by decide, by decide⟩
  · subst h
    have hlast : lf ∉ w ++ [cr] := by simp [hlf, show lf ≠ cr by decide]
    exact ⟨⟨w ++ [cr], getlines_last hlast (by simp), dropCr_concat_cr w⟩, by decide, by decide⟩
  · subst h
    exact ⟨⟨w, getlines_line hlf [], hw⟩, by decide, by decide⟩

theorem empty_line_of_crlf2 {t : Bytes} (h : crlf2 <:+: t) : ∃ l ∈ getlines t, dropCr l = [] := by
  obtain ⟨u, v, h⟩ := h
  have ht : t = (u ++ [cr]) ++ lf :: ([cr] ++ lf :: v) := by
    rw [← h]
    simp [crlf2]
  refine ⟨[cr], ?_, rfl⟩
  rw [ht, getlines_append, getlines_line (by decide)]
  simp

section Ends

variable (env : UploadEnv) (uploadDirectory : Path) (limits : MultipartLimits)
  {body delimiter : Bytes} {pos : Nat} (files : List MultipartSavedFile) (st : Uploads)

theorem memoryLoop_noPart (h : NoPart delimiter (body.drop (pos + delimiter.length)))
    (allowed : Nat) :
    ∃ error, memoryLoop env uploadDirectory limits body delimiter (allowed + 1) pos files st =
      (refuse files 400 error, st) := by
  rcases h with ⟨hdashes, hcrlf⟩ | ⟨t, ht, hnone⟩
  · exact ⟨_, memoryLoop_malformed env uploadDirectory limits files st rfl hdashes hcrlf _⟩
  · cases hnext : find? (crlf ++ delimiter) t with
    | none => exact ⟨_, memoryLoop_unterminated env uploadDirectory limits files st ht hnext _⟩
    | some next =>
        exact ⟨_, memoryLoop_headless env uploadDirectory limits files st ht hnext
          (hnone next hnext) _⟩

theorem noPart_headless {t : Bytes} (ht : Headless t) : NoPart delimiter (crlf ++ t) := by
  refine Or.inr ⟨t, rfl, fun next _ => ?_⟩
  rw [find?_eq_none_iff_no_occurrence]
  intro h
  obtain ⟨l, hl, hempty⟩ := empty_line_of_crlf2 (h.trans (List.take_prefix next t).isInfix)
  exact ht.1 l hl hempty

theorem noPart_unended {t : Bytes} (h : ¬ crlf ++ delimiter <:+: t) :
    NoPart delimiter (crlf ++ t) := by
  refine Or.inr ⟨t, rfl, fun next hnext => ?_⟩
  rw [find?_eq_none_iff_no_occurrence.mpr h] at hnext
  cases hnext

/-- A part that the stream ends in is refused with 400, unless its content or
its name is first. -/
theorem spoolLoop_runsOut {lines behind : List Bytes} {raw : Bytes} (rest : Option (List Bytes))
    (hread : readPartHeaders lines [] = (raw, rest)) (hbehind : rest.getD [] = behind)
    (hbody : ∀ l ∈ behind, ¬ IsDelimiter delimiter (dropCr l))
    (hsafe : (partNames raw).2 ≠ [] → Multipart.isSafeUploadFilename (partNames raw).2 = true)
    (hstored : lineBytes (behind.map dropCr).dropLast ≤
      if (partNames raw).2 = [] then limits.maxFieldBytes else limits.maxFileBytes)
    (hcreate : ∀ k, env.canCreate k = true) (allowed : Nat) :
    ∃ error st', spoolLoop env uploadDirectory limits delimiter (allowed + 1) lines files st =
      (refuse files 400 error, st') := by
  rw [spoolLoop, hread]
  simp only []
  by_cases hnothing : rest = none ∧ raw = []
  · rw [if_pos hnothing]
    exact ⟨_, _, rfl⟩
  · rw [if_neg hnothing, hbehind]
    by_cases hfile : (partNames raw).2 = []
    · rw [if_pos hfile] at hstored
      rw [openPart_field hfile]
      obtain ⟨st', hloop⟩ := contentLoop_runsOut env uploadDirectory limits files hbody
        (p := { fieldName := (partNames raw).1 }) st
        (by simpa [PartState.taken, PartState.limit, storedLines] using hstored)
      simp only [hloop]
      exact ⟨_, _, rfl⟩
    · rw [if_neg hfile] at hstored
      rw [openPart_file hfile (hsafe hfile) (hcreate _)]
      simp only []
      obtain ⟨st', hloop⟩ := contentLoop_runsOut env uploadDirectory limits files hbody
        (p := filePart env raw st.opened)
        { st with
          dir := put (filePart env raw st.opened).storedName [] st.dir
          opened := st.opened + 1 }
        (by simpa [PartState.taken, PartState.limit, storedLines, filePart] using hstored)
      rw [hloop]
      exact ⟨_, _, rfl⟩

theorem spoolLoop_headless {t : Bytes} (ht : Headless t) (hcreate : ∀ k, env.canCreate k = true)
    (allowed : Nat) :
    ∃ error st', spoolLoop env uploadDirectory limits delimiter (allowed + 1) (getlines t)
      files st = (refuse files 400 error, st') := by
  refine spoolLoop_runsOut env uploadDirectory limits files st none
    (readPartHeaders_open ht.1 []) rfl (by simp) ?_ (by simp) hcreate allowed
  simpa using ht.2

theorem spoolLoop_unclosed {p : WirePart} (hp : p.Unclosed limits delimiter)
    (hcreate : ∀ k, env.canCreate k = true) (allowed : Nat) :
    ∃ error st', spoolLoop env uploadDirectory limits delimiter (allowed + 1) (getlines p.text)
      files st = (refuse files 400 error, st') := by
  have hlines : getlines p.text =
      p.headers.map (· ++ [cr]) ++ [cr] :: getlines p.content := by
    have htext : p.text = p.head ++ crlf ++ ([] ++ crlf ++ p.content) := by
      simp [WirePart.text, crlf2, crlf]
    rw [htext, WirePart.getlines_head hp.toHeaded, getlines_crlf (by simp)]
    rfl
  have hnames := WirePart.partNames_lines hp.toHeaded
  rw [hlines]
  refine spoolLoop_runsOut env uploadDirectory limits files st (some (getlines p.content))
    (readPartHeaders_wire hp.toHeaded _) rfl hp.plain ?_ ?_ hcreate allowed
  · rw [hnames]
    exact hp.safe
  · rw [hnames]
    exact hp.stored

end Ends

/-! ## The run -/

/-- What is assumed of the world: the upload directory and its files can be
created. -/
def UploadEnv.CreatesFiles (env : UploadEnv) : Prop :=
  env.createDirectories = .ok () ∧ ∀ k, env.canCreate k = true

theorem summary_refuse {files files' : List MultipartSavedFile}
    (h : files.map MultipartSavedFile.entry = files'.map MultipartSavedFile.entry)
    (status : Nat) (error error' : String) :
    (refuse files status error).summary = (refuse files' status error').summary := by
  simp [refuse, MultipartResult.summary, h]

section Run

variable {env env' : UploadEnv} (uploadDirectory uploadDirectory' : Path)
  {limits : MultipartLimits} {body delimiter : Bytes}

/-- Behind a delimiter line both loops come to the same result, with the same
files recorded before. -/
theorem loops_agree (hne : delimiter ≠ []) (hlf : lf ∉ delimiter) (hcr : cr ∉ delimiter)
    (hcreate : ∀ k, env.canCreate k = true) (hcreate' : ∀ k, env'.canCreate k = true)
    {allowed : Nat} {t : Bytes} (h : ReadAlike limits delimiter allowed t) {pos : Nat}
    (hpos : body.drop (pos + delimiter.length) = crlf ++ t)
    {files files' : List MultipartSavedFile} (st st' : Uploads)
    (hfiles : files.map MultipartSavedFile.entry = files'.map MultipartSavedFile.entry) :
    (memoryLoop env uploadDirectory limits body delimiter allowed pos files st).1.summary =
      (spoolLoop env' uploadDirectory' limits delimiter allowed (getlines t) files'
        st').1.summary := by
  induction h generalizing pos files files' st st' with
  | @tooMany t hmore =>
      cases hnext : find? (crlf ++ delimiter) t with
      | none => exact absurd hmore (find?_eq_none_iff_no_occurrence.mp hnext)
      | some next =>
          rw [memoryLoop_tooMany env uploadDirectory limits files st hpos hnext, spoolLoop]
          exact summary_refuse hfiles 413 _ _
  | headless ht =>
      obtain ⟨error, hmemory⟩ := memoryLoop_noPart env uploadDirectory limits files st
        (hpos ▸ noPart_headless ht) _
      obtain ⟨error', st'', hspool⟩ := spoolLoop_headless env' uploadDirectory' limits files' st' ht
        hcreate' _
      rw [hmemory, hspool]
      exact summary_refuse hfiles 400 _ _
  | unclosed hp =>
      obtain ⟨error, hmemory⟩ := memoryLoop_noPart env uploadDirectory limits files st
        (hpos ▸ noPart_unended hp.unended) _
      obtain ⟨error', st'', hspool⟩ := spoolLoop_unclosed env' uploadDirectory' limits files' st' hp
        hcreate' _
      rw [hmemory, hspool]
      exact summary_refuse hfiles 400 _ _
  | refused hcut hrefused rest =>
      obtain ⟨error, hmemory⟩ := memoryLoop_refuses env uploadDirectory limits files st hne hcr hcut
        hrefused hpos _
      obtain ⟨error', st'', hspool⟩ := spoolLoop_refuses env' uploadDirectory' limits files' st' hne
        hcut hrefused rest hcreate' _
      rw [hmemory, hspool]
      exact summary_refuse hfiles _ _ _
  | @closing n p hcut hfits rest hrest =>
      obtain ⟨pos', new, st'', hdrop, hnew, hmemory⟩ := memoryLoop_fits env uploadDirectory limits
        files st hne hcr hcut hfits hpos hcreate n
      obtain ⟨d, lines, hlines, hd⟩ := getlines_closing (w := delimiter ++ dashes)
        (by simp [hlf]; decide) (by simp [hcr]; decide) (by simp [hne]) hrest
      rw [List.append_assoc] at hlines
      obtain ⟨new', st''', hnew', hspool⟩ := spoolLoop_fits env' uploadDirectory' limits files' st'
        hcut hfits hlines (Or.inr hd) hcreate' n
      rw [hmemory, hspool, if_pos hd,
        memoryLoop_closing env uploadDirectory limits _ _ hdrop]
      simp [accept, MultipartResult.summary, hfiles, hnew, hnew']
  | @cutOff n p hcut hfits rest hrest =>
      obtain ⟨pos', new, st'', hdrop, hnew, hmemory⟩ := memoryLoop_fits env uploadDirectory limits
        files st hne hcr hcut hfits hpos hcreate (n + 1)
      obtain ⟨⟨d, hlines, hd⟩, hdashes, hcrlf⟩ := bareEnd_lines hlf hcr hne hrest
      obtain ⟨new', st''', hnew', hspool⟩ := spoolLoop_fits env' uploadDirectory' limits files' st'
        hcut hfits hlines (Or.inl hd) hcreate' (n + 1)
      rw [hmemory, hspool, if_neg (by rw [hd]; simp [dashes]),
        memoryLoop_malformed env uploadDirectory limits _ _ hdrop hdashes hcrlf]
      exact summary_refuse (by simp [hfiles, hnew, hnew']) 400 _ _
  | @next n p t hcut hfits ht ih =>
      obtain ⟨pos', new, st'', hdrop, hnew, hmemory⟩ := memoryLoop_fits env uploadDirectory limits
        files st hne hcr hcut hfits hpos hcreate n
      have hlines : getlines (delimiter ++ (crlf ++ t)) = (delimiter ++ [cr]) :: getlines t := by
        rw [← List.append_assoc]
        exact getlines_crlf hlf t
      have hd := dropCr_concat_cr delimiter
      obtain ⟨new', st''', hnew', hspool⟩ := spoolLoop_fits env' uploadDirectory' limits files' st'
        hcut hfits hlines (Or.inl hd) hcreate' n
      rw [hmemory, hspool, if_neg (by rw [hd]; simp [dashes])]
      exact ih hdrop st'' st''' (by simp [hfiles, hnew, hnew'])

/-- What a run answers, but for the names and places of the stored files. -/
def answer (run : Except Bytes MultipartResult × Uploads) :
    Option (Bool × Nat × List (Bytes × Bytes)) :=
  match run.1 with
  | .error _ => none
  | .ok result => some result.summary

/-! ## The start -/

theorem getlines_head_front {s l : Bytes} (h : (getlines s).head? = some l) : l <+: s := by
  induction s generalizing l with
  | nil => cases h
  | cons c cs ih =>
      rw [getlines] at h
      split at h
      · rw [← Option.some.inj h]
        exact List.nil_prefix
      · cases hlines : getlines cs with
        | nil =>
            rw [hlines] at h
            rw [← Option.some.inj h]
            exact List.cons_prefix_cons.mpr ⟨rfl, List.nil_prefix⟩
        | cons m ms =>
            rw [hlines] at h
            rw [← Option.some.inj h]
            exact List.cons_prefix_cons.mpr ⟨rfl, ih (by rw [hlines]; rfl)⟩

theorem dropCr_front (l : Bytes) : dropCr l <+: l := by
  rw [dropCr]
  split
  · exact List.dropLast_prefix l
  · exact List.prefix_refl l

theorem find?_front {d : Bytes} (rest : Bytes) : find? d (d ++ rest) = some 0 :=
  find?_eq_some_iff.mpr ⟨Nat.zero_le _, List.prefix_append d rest, nofun⟩

section Start

variable {contentType boundary : Bytes} (hboundary : Multipart.extractBoundary contentType =
  some boundary) (hlimits : ¬ (limits.maxParts = 0 ∨ limits.maxFileBytes = 0))

include hboundary hlimits

theorem saveUploads_answer (hcreates : env.CreatesFiles) (st : Uploads) :
    answer (Multipart.saveUploads env body contentType uploadDirectory limits st) =
      match find? (delimiterOf boundary) body with
      | none => some (refuse [] 400 "Multipart boundary not found").summary
      | some pos => some (memoryLoop env uploadDirectory limits body (delimiterOf boundary)
          limits.maxParts pos [] st).1.summary := by
  rw [Multipart.saveUploads, hboundary]
  simp only []
  rw [if_neg hlimits, hcreates.1]
  simp only []
  rw [show bytes "--" ++ boundary = delimiterOf boundary from rfl]
  cases find? (delimiterOf boundary) body <;> rfl

theorem saveUploadsFromSpoolFile_answer (hcreates : env.CreatesFiles) (st : Uploads) :
    answer (Multipart.saveUploadsFromSpoolFile env (some body) contentType uploadDirectory limits
        st) =
      match getlines body with
      | [] => some (refuse [] 400 "Multipart boundary not found").summary
      | first :: rest =>
          if dropCr first ≠ delimiterOf boundary then
            some (refuse [] 400 "Multipart boundary not found").summary
          else some (spoolLoop env uploadDirectory limits (delimiterOf boundary) limits.maxParts
            rest [] st).1.summary := by
  rw [Multipart.saveUploadsFromSpoolFile, hboundary]
  simp only []
  rw [if_neg hlimits, hcreates.1]
  simp only []
  rw [show bytes "--" ++ boundary = delimiterOf boundary from rfl]
  cases getlines body with
  | nil => rfl
  | cons first rest =>
      simp only []
      split <;> rfl

end Start

/-- On a body read in step the two parsers give the same flag, the same status
and the same names, whatever they store and wherever. -/
theorem uploads_agree (hcreates : env.CreatesFiles) (hcreates' : env'.CreatesFiles)
    {contentType : Bytes}
    (hbody : ∀ boundary, Multipart.extractBoundary contentType = some boundary →
      ¬ (limits.maxParts = 0 ∨ limits.maxFileBytes = 0) →
      BodyReadAlike limits (delimiterOf boundary) body) (st st' : Uploads) :
    answer (Multipart.saveUploads env body contentType uploadDirectory limits st) =
      answer (Multipart.saveUploadsFromSpoolFile env' (some body) contentType uploadDirectory'
        limits st') := by
  cases hboundary : Multipart.extractBoundary contentType with
  | none => simp only [Multipart.saveUploads, Multipart.saveUploadsFromSpoolFile, hboundary, answer]
  | some boundary =>
      by_cases hlimits : limits.maxParts = 0 ∨ limits.maxFileBytes = 0
      · simp only [Multipart.saveUploads, Multipart.saveUploadsFromSpoolFile, hboundary, answer,
          if_pos hlimits]
      · rw [saveUploads_answer uploadDirectory hboundary hlimits hcreates,
          saveUploadsFromSpoolFile_answer uploadDirectory' hboundary hlimits hcreates']
        obtain ⟨hne, hlf, hcr⟩ := boundary_clear hboundary
        obtain ⟨n, hn⟩ : ∃ n, limits.maxParts = n + 1 := ⟨limits.maxParts - 1, by omega⟩
        have hread := hbody boundary hboundary hlimits
        generalize delimiterOf boundary = delimiter at hne hlf hcr hread ⊢
        cases hread with
        | absent habsent =>
            rw [find?_eq_none_iff_no_occurrence.mpr habsent]
            cases hlines : getlines body with
            | nil => rfl
            | cons first rest =>
                have hfirst : dropCr first ≠ delimiter := by
                  intro h
                  have hfront := getlines_head_front (s := body) (l := first)
                    (by rw [hlines]; rfl)
                  exact habsent (h ▸ ((dropCr_front first).trans hfront).isInfix)
                simp only [if_pos hfirst]
        | misplaced hpos hline hpart =>
            obtain ⟨error, hmemory⟩ := memoryLoop_noPart env uploadDirectory limits [] st hpart n
            rw [hpos, hn]
            simp only [hmemory]
            cases hlines : getlines body with
            | nil => exact congrArg some (summary_refuse rfl 400 _ _)
            | cons first rest =>
                simp only [if_pos (hline first (by rw [hlines]; rfl))]
                exact congrArg some (summary_refuse rfl 400 _ _)
        | @bare rest hrest =>
            obtain ⟨⟨d, hlines, hd⟩, hdashes, hcrlf⟩ := bareEnd_lines hlf hcr hne hrest
            have hdrop : (delimiter ++ rest).drop (0 + delimiter.length) = rest := by
              rw [Nat.zero_add, List.drop_left]
            rw [find?_front, hlines]
            simp only [hd, ne_eq, not_true_eq_false, if_false]
            rw [memoryLoop_malformed env uploadDirectory limits [] st hdrop hdashes hcrlf, hn]
            exact congrArg some (summary_refuse rfl 400 _ _)
        | @parts t ht =>
            have hlines : getlines (delimiter ++ (crlf ++ t)) =
                (delimiter ++ [cr]) :: getlines t := by
              rw [← List.append_assoc]
              exact getlines_crlf hlf t
            rw [find?_front, hlines]
            simp only [dropCr_concat_cr, ne_eq, not_true_eq_false, if_false]
            exact congrArg some (loops_agree uploadDirectory uploadDirectory' hne hlf hcr hcreates.2
              hcreates'.2 ht (by rw [Nat.zero_add, List.drop_left]) st st' rfl)

end Run

/-- A world in which every file can be created. -/
def obligingEnv : UploadEnv := { micros := id }

def titlePart : WirePart :=
  { headers := [bytes "Content-Disposition: form-data; name=\"title\""], content := bytes "hello" }

def notesPart : WirePart :=
  { headers := [bytes "Content-Disposition: form-data; name=\"file\"; filename=\"notes.txt\"",
      bytes "Content-Type: text/plain"]
    content := bytes "file-content" }

/-- A form with a field and a file. -/
def notesForm : Bytes :=
  bytes "--abc" ++ (crlf ++ (titlePart.text ++ crlf ++ (bytes "--abc" ++ (crlf ++
    (notesPart.text ++ crlf ++ (bytes "--abc" ++ (dashes ++ crlf)))))))

theorem uploads_agree_notes :
    answer (Multipart.saveUploads obligingEnv notesForm
        (bytes "multipart/form-data; boundary=abc") {} { maxParts := 4 } {}) =
      answer (Multipart.saveUploadsFromSpoolFile obligingEnv (some notesForm)
        (bytes "multipart/form-data; boundary=abc") {} { maxParts := 4 } {}) := by
  refine uploads_agree {} {} ⟨rfl, fun _ => rfl⟩ ⟨rfl, fun _ => rfl⟩ ?_ {} {}
  intro boundary hboundary _
  have habc : Multipart.extractBoundary (bytes "multipart/form-data; boundary=abc") =
      some (bytes "abc") := by decide +kernel
  rw [habc] at hboundary
  cases hboundary
  refine .parts (.next (p := titlePart) ⟨⟨by decide, by decide⟩, by decide, by decide⟩ ?_
    (.closing (p := notesPart) ⟨⟨by decide, by decide⟩, by decide, by decide⟩ ?_ ?_))
  · decide +kernel
  · decide +kernel
  · exact Or.inr (Or.inr (Or.inr (List.prefix_refl crlf)))

def fileHeader : Bytes :=
  bytes "Content-Disposition: form-data; name=\"f\"; filename=\"a.txt\"\r\n"

def unsafeHeader : Bytes :=
  bytes "Content-Disposition: form-data; name=\"f\"; filename=\"a.php\"\r\n"

/-- Bodies the two parsers read out of step, one for each way of it. -/
def outOfStep : List (MultipartLimits × Bytes) :=
  [ -- a preamble, and a form without parts
   ({}, bytes "x\r\n--b\r\n" ++ fileHeader ++ bytes "\r\nx\r\n--b--"),
   ({}, bytes "--b--"),
   -- a bare line feed behind the delimiter, and behind the header lines
   ({}, bytes "--b\n" ++ fileHeader ++ bytes "\r\nx\r\n--b--"),
   ({}, bytes "--b\r\n" ++ fileHeader ++ bytes "X: y\n\nx\r\n--b--"),
   -- lines that only start with the delimiter
   ({}, bytes "--b\r\n" ++ fileHeader ++ bytes "\r\nx\r\n--b--x"),
   ({}, bytes "--b\r\n" ++ fileHeader ++ bytes "--bx\r\n\r\nx\r\n--b--"),
   -- no header lines, and no line behind the empty one
   ({}, bytes "--b\r\n\r\nx\r\n--b--"),
   ({}, bytes "--b\r\n" ++ fileHeader ++ bytes "\r\n--b--"),
   -- a delimiter line behind a bare line feed in a content
   ({}, bytes "--b\r\n" ++ fileHeader ++ bytes "\r\nx\n--b--\r\n--b\r\n" ++ fileHeader ++
     bytes "\r\ny\r\n--b--"),
   -- a part without a disposition that is too large for a field
   ({ maxFieldBytes := 1 }, bytes "--b\r\nX: y\r\n\r\nxy\r\n--b--"),
   -- a file that is too large only with its carriage returns
   ({ maxFileBytes := 3 }, bytes "--b\r\n" ++ fileHeader ++ bytes "\r\nx\r\ny\r\n--b--"),
   -- a file both too large and of a refused name
   ({ maxFileBytes := 1 }, bytes "--b\r\n" ++ unsafeHeader ++ bytes "\r\nxy\r\n--b--"),
   -- a part without an end that is too large, of a refused name, or one too many
   ({ maxFileBytes := 1 }, bytes "--b\r\n" ++ fileHeader ++ bytes "\r\nxy\r\nz"),
   ({}, bytes "--b\r\n" ++ unsafeHeader ++ bytes "\r\nx"),
   ({ maxParts := 1 }, bytes "--b\r\n" ++ fileHeader ++ bytes "\r\nx\r\n--b\r\n")]

theorem parsers_disagree :
    outOfStep.all (fun row =>
      answer (Multipart.saveUploads obligingEnv row.2 (bytes "multipart/form-data; boundary=b")
        {} row.1 {}) ≠
      answer (Multipart.saveUploadsFromSpoolFile obligingEnv (some row.2)
        (bytes "multipart/form-data; boundary=b") {} row.1 {})) = true := by
  decide +kernel

end HydrogenHttpd.Ref
