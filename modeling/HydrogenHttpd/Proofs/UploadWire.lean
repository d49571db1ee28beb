import HydrogenHttpd.Proofs.UploadFidelity

/-!
# One part, read twice

A part as it stands between two delimiter lines, and what each parser makes of
it. On a part that is `WellCut` both find the same header lines and the same
end. They still judge it each in its own way: the parser in memory counts every
byte of a content, and nothing of a part without a disposition, where the
line reader counts a line end as one byte, whatever it was; and the one looks
at the size of a file first, the other at its name.

`Fits` is what both let through (`memoryLoop_fits`, `spoolLoop_fits`), and
`Refused` what both refuse with the same status (`memoryLoop_refuses`,
`spoolLoop_refuses`).
-/

namespace HydrogenHttpd.Ref

open Base Spec

/-- A part between two delimiter lines. -/
structure WirePart where
  headers : List Bytes
  content : Bytes
  deriving DecidableEq, Repr

namespace WirePart

/-- The header lines as they stand in the body. -/
def head (p : WirePart) : Bytes := crlf.intercalate p.headers

def text (p : WirePart) : Bytes := p.head ++ crlf2 ++ p.content

def disposition (p : WirePart) : Option Bytes :=
  (p.headers.foldl addPartHeader []).lookup (bytes "content-disposition")

/-- The field name and the file name. -/
def names (p : WirePart) : Bytes × Bytes :=
  match p.disposition with
  | none => ([], [])
  | some disposition =>
      (dispositionValue disposition (bytes "name"),
        dispositionValue disposition (bytes "filename"))

/-- The content's length as the line reader counts it. -/
def lineLength (p : WirePart) : Nat := (joined (cleanedLines p.content)).length

/-- What the part adds to the names of the result. -/
def entries (p : WirePart) : List (Bytes × Bytes) := if p.names.2 = [] then [] else [p.names]

/-- There are header lines, none of them empty or with a line feed in it. -/
structure Headed (p : WirePart) : Prop where
  nonempty : p.headers ≠ []
  lines : ∀ l ∈ p.headers, l ≠ [] ∧ lf ∉ l

/-- The parser in memory sees where the part ends: behind a CRLF the delimiter does
not occur in it. -/
structure Separate (delimiter : Bytes) (p : WirePart) : Prop extends Headed p where
  clear : ∀ l ∈ p.headers.tail ++ splitCrlf p.content, ¬ delimiter <+: l

/-- Both parsers see the same end of the part: behind a CRLF the delimiter does
not occur in it, and no line of its content, however it ends, is one. -/
structure WellCut (delimiter : Bytes) (p : WirePart) : Prop extends Headed p where
  clear : ∀ l ∈ p.headers.tail ++ splitCrlf p.content, ¬ delimiter <+: l
  plain : ∀ l ∈ cleanedLines p.content, ¬ IsDelimiter delimiter l

theorem WellCut.separate {delimiter : Bytes} {p : WirePart} (h : p.WellCut delimiter) :
    p.Separate delimiter :=
  ⟨h.toHeaded, h.clear⟩

/-- Both parsers take the part. -/
def Fits (limits : MultipartLimits) (p : WirePart) : Prop :=
  if p.names.2 = [] then
    p.lineLength ≤ limits.maxFieldBytes ∧
      (p.disposition.isSome → p.content.length ≤ limits.maxFieldBytes)
  else p.content.length ≤ limits.maxFileBytes ∧ Multipart.isSafeUploadFilename p.names.2 = true

/-- Both parsers refuse the part, with this status: a field too large for both,
a file too large for both whose name is allowed, or a file small enough for
both whose name is not. -/
def Refused (limits : MultipartLimits) (p : WirePart) (status : Nat) : Prop :=
  if p.names.2 = [] then
    p.disposition.isSome ∧ limits.maxFieldBytes < p.lineLength ∧ status = 413
  else if Multipart.isSafeUploadFilename p.names.2 then
    limits.maxFileBytes < p.lineLength ∧ status = 413
  else p.content.length ≤ limits.maxFileBytes ∧ status = 415

/-- The parser in memory takes the part. -/
def FitsMemory (limits : MultipartLimits) (p : WirePart) : Prop :=
  if p.names.2 = [] then p.disposition.isSome → p.content.length ≤ limits.maxFieldBytes
  else p.content.length ≤ limits.maxFileBytes ∧ Multipart.isSafeUploadFilename p.names.2 = true

theorem Fits.memory {limits : MultipartLimits} {p : WirePart} (h : p.Fits limits) :
    p.FitsMemory limits := by
  rw [Fits] at h
  rw [FitsMemory]
  split at h
  · next hfield => rw [if_pos hfield]; exact h.2
  · next hfile => rw [if_neg hfile]; exact h

instance (limits : MultipartLimits) (p : WirePart) : Decidable (p.Fits limits) :=
  inferInstanceAs (Decidable (if p.names.2 = [] then
      p.lineLength ≤ limits.maxFieldBytes ∧
        (p.disposition.isSome → p.content.length ≤ limits.maxFieldBytes)
    else p.content.length ≤ limits.maxFileBytes ∧
      Multipart.isSafeUploadFilename p.names.2 = true))

theorem lineLength_le (p : WirePart) : p.lineLength ≤ p.content.length := by
  have hne : cleanedLines p.content ≠ [] := by
    simp [cleanedLines, List.splitOn_ne_nil]
  have hle := lineBytes_cleanedLines_le p.content
  have hlength := length_joined hne
  rw [lineLength]
  omega

/-! ## The header lines -/

theorem parsePartHeaders_head {p : WirePart} (h : p.Headed) :
    parsePartHeaders p.head = p.headers.foldl addPartHeader [] := by
  rw [parsePartHeaders, head, splitCrlf_intercalate h.nonempty fun l hl => (h.lines l hl).2]

theorem flatten_crlf (ls : List Bytes) (hne : ls ≠ []) :
    (ls.map (· ++ crlf)).flatten = crlf.intercalate ls ++ crlf := by
  induction ls with
  | nil => exact absurd rfl hne
  | cons l ls ih =>
      cases ls with
      | nil => simp
      | cons m ms =>
          rw [List.map_cons, List.flatten_cons, ih (by simp), List.intercalate_cons_cons]
          simp

/-- The line reader's header block has one empty piece more, which says
nothing. -/
theorem parsePartHeaders_lines {p : WirePart} (h : p.Headed) :
    parsePartHeaders (p.headers.map (· ++ crlf)).flatten = p.headers.foldl addPartHeader [] := by
  rw [parsePartHeaders, flatten_crlf _ h.nonempty, ← List.append_nil (crlf.intercalate _ ++ crlf),
    splitCrlf_append, splitCrlf_intercalate h.nonempty fun l hl => (h.lines l hl).2,
    List.foldl_append]
  rfl

theorem partNames_lines {p : WirePart} (h : p.Headed) :
    partNames (p.headers.map (· ++ crlf)).flatten = p.names := by
  rw [partNames, parsePartHeaders_lines h]
  rfl

/-- The part with its content as one line. -/
def whole (p : WirePart) : LinePart := { headers := p.headers, body := [p.content], ending := none }

theorem joined_whole (p : WirePart) : joined p.whole.body = p.content :=
  List.intercalate_singleton

theorem lineNames_whole {p : WirePart} (h : p.Headed) : lineNames p.whole = p.names :=
  partNames_lines h

/-- The empty line behind the header lines is the first one. -/
theorem find_headerEnd {p : WirePart} (h : p.Headed) (rest : Bytes) :
    find? crlf2 (p.text ++ rest) = some p.head.length := by
  have hpieces : ∀ l ∈ (splitCrlf p.head).tail, l ≠ [] := by
    intro l hl
    rw [head, splitCrlf_intercalate h.nonempty fun m hm => (h.lines m hm).2] at hl
    exact (h.lines l (List.mem_of_mem_tail hl)).1
  have hblank : ∀ v, ∃ l, (splitCrlf (crlf ++ v)).head? = some l ∧ l = [] :=
    fun v => ⟨[], rfl, rfl⟩
  have hfind := find?_crlf_piece (· = []) hblank hpieces (p.content ++ rest)
  have htext : p.text ++ rest = p.head ++ crlf ++ (crlf ++ (p.content ++ rest)) := by
    simp [text, crlf2, crlf]
  rw [htext]
  exact hfind

theorem splitCrlf_text {p : WirePart} (h : p.Headed) :
    splitCrlf p.text = p.headers ++ [] :: splitCrlf p.content := by
  have htext : p.text = p.head ++ crlf ++ ([] ++ crlf ++ p.content) := by
    simp [text, crlf2, crlf]
  rw [htext, splitCrlf_append, splitCrlf_append, head,
    splitCrlf_intercalate h.nonempty fun l hl => (h.lines l hl).2]
  rfl

/-- The delimiter behind the part is the first one in front of which a CRLF
stands. -/
theorem find_next {delimiter : Bytes} (hne : delimiter ≠ []) (hcr : cr ∉ delimiter)
    {p : WirePart} (h : p.Separate delimiter) (rest : Bytes) :
    find? (crlf ++ delimiter) (p.text ++ crlf ++ (delimiter ++ rest)) = some p.text.length := by
  refine find?_crlf_piece (delimiter <+: ·) (splitCrlf_head_front hcr) ?_ rest
  intro l hl
  rw [splitCrlf_text h.toHeaded, List.tail_append_of_ne_nil h.nonempty] at hl
  rcases List.mem_append.mp hl with hl | hl
  · exact h.clear l (List.mem_append_left _ hl)
  · rcases List.mem_cons.mp hl with hl | hl
    · rw [hl]
      exact fun hpre => hne (List.prefix_nil.mp hpre)
    · exact h.clear l (List.mem_append_right _ hl)

theorem getlines_head {p : WirePart} (h : p.Headed) (v : Bytes) :
    getlines (p.head ++ crlf ++ v) = p.headers.map (· ++ [cr]) ++ getlines v := by
  rw [head, ← flatten_crlf _ h.nonempty]
  have hlines : ∀ l ∈ p.headers, lf ∉ l := fun l hl => (h.lines l hl).2
  clear h
  generalize p.headers = ls at hlines ⊢
  induction ls with
  | nil => rfl
  | cons l ls ih =>
      rw [List.map_cons, List.flatten_cons, List.append_assoc,
        getlines_crlf (hlines l List.mem_cons_self),
        ih fun m hm => hlines m (List.mem_cons_of_mem _ hm)]
      rfl

/-- The lines of the part and of what is behind it. -/
theorem getlines_text {p : WirePart} (h : p.Headed) (v : Bytes) :
    getlines (p.text ++ crlf ++ v) =
      p.headers.map (· ++ [cr]) ++ [cr] :: ((p.content ++ [cr]).splitOn lf ++ getlines v) := by
  have htext : p.text ++ crlf ++ v =
      p.head ++ crlf ++ ([] ++ crlf ++ ((p.content ++ [cr]) ++ lf :: v)) := by
    simp [text, crlf2, crlf]
  rw [htext, getlines_head h, getlines_crlf (by simp), getlines_append]
  rfl

end WirePart

/-! ## The part in memory -/

/-- What the claim on two results compares of a file. -/
def MultipartSavedFile.entry (f : MultipartSavedFile) : Bytes × Bytes :=
  (f.fieldName, f.originalFilename)

/-- The names recorded for a part that is read with the right names. -/
theorem entries_recorded {p : WirePart} {q : LinePart} (hnames : lineNames q = p.names)
    {uploadDirectory : Path} {new : List MultipartSavedFile}
    (hrecorded : List.Forall₂ (Recorded uploadDirectory) (if IsFile q then [q] else []) new) :
    new.map MultipartSavedFile.entry = p.entries := by
  rw [WirePart.entries]
  by_cases hfile : p.names.2 = []
  · rw [if_neg (by simp [IsFile, hnames, hfile])] at hrecorded
    cases hrecorded
    rw [if_pos hfile]
    rfl
  · rw [if_pos (by rw [IsFile, hnames]; exact hfile)] at hrecorded
    cases hrecorded with
    | cons hfirst hrest =>
        cases hrest
        rw [if_neg hfile, List.map_singleton, MultipartSavedFile.entry, hfirst.fieldName,
          hfirst.originalFilename, hnames]

section Memory

variable (env : UploadEnv) (uploadDirectory : Path) (limits : MultipartLimits)
  {body delimiter : Bytes} {pos : Nat} (files : List MultipartSavedFile) (st : Uploads)

theorem substr_of_drop {start : Nat} {t : Bytes} (h : body.drop start = t) (n : Nat) :
    substr body start n = t.take n := by
  rw [substr, h]

theorem memoryLoop_closing {rest : Bytes}
    (h : body.drop (pos + delimiter.length) = dashes ++ rest) (allowed : Nat) :
    memoryLoop env uploadDirectory limits body delimiter allowed pos files st =
      (accept files, st) := by
  have hdashes : substr body (pos + delimiter.length) 2 = bytes "--" := substr_of_drop h 2
  rw [memoryLoop.eq_def]
  simp only []
  rw [if_pos hdashes]

theorem memoryLoop_malformed {t : Bytes} (h : body.drop (pos + delimiter.length) = t)
    (hdashes : t.take 2 ≠ dashes) (hcrlf : t.take 2 ≠ crlf) (allowed : Nat) :
    memoryLoop env uploadDirectory limits body delimiter allowed pos files st =
      (refuse files 400 "Malformed multipart boundary", st) := by
  have ht : substr body (pos + delimiter.length) 2 = t.take 2 := substr_of_drop h 2
  rw [memoryLoop.eq_def]
  simp only []
  rw [if_neg (ht ▸ hdashes), if_pos (ht ▸ hcrlf)]

/-- Behind a CRLF the loop searches for the next delimiter. -/
theorem memory_search {t : Bytes} (h : body.drop (pos + delimiter.length) = crlf ++ t) :
    substr body (pos + delimiter.length) 2 = crlf ∧
      findFrom (crlf ++ delimiter) body (pos + delimiter.length + 2) =
        (find? (crlf ++ delimiter) t).map (· + (pos + delimiter.length + 2)) ∧
      ∀ next, substr body (pos + delimiter.length + 2)
        (next + (pos + delimiter.length + 2) - (pos + delimiter.length + 2)) = t.take next := by
  have ht : body.drop (pos + delimiter.length + 2) = t := by
    rw [← List.drop_drop, h]
    rfl
  refine ⟨substr_of_drop h 2, by rw [findFrom, ht], fun next => ?_⟩
  rw [Nat.add_sub_cancel, substr_of_drop ht]

theorem memoryLoop_unterminated {t : Bytes}
    (h : body.drop (pos + delimiter.length) = crlf ++ t)
    (hnone : find? (crlf ++ delimiter) t = none) (allowed : Nat) :
    memoryLoop env uploadDirectory limits body delimiter allowed pos files st =
      (refuse files 400 "Multipart terminator missing", st) := by
  obtain ⟨hcrlf, hfind, -⟩ := memory_search h
  rw [memoryLoop.eq_def]
  simp only []
  rw [if_neg (by rw [hcrlf]; decide), if_neg (not_not.mpr hcrlf), hfind, hnone]
  rfl

theorem memoryLoop_tooMany {t : Bytes} (h : body.drop (pos + delimiter.length) = crlf ++ t)
    {next : Nat} (hnext : find? (crlf ++ delimiter) t = some next) :
    memoryLoop env uploadDirectory limits body delimiter 0 pos files st =
      (refuse files 413 "Too many multipart parts", st) := by
  obtain ⟨hcrlf, hfind, -⟩ := memory_search h
  rw [memoryLoop.eq_def]
  simp only []
  rw [if_neg (by rw [hcrlf]; decide), if_neg (not_not.mpr hcrlf), hfind, hnext]
  rfl

theorem memoryLoop_headless {t : Bytes} (h : body.drop (pos + delimiter.length) = crlf ++ t)
    {next : Nat} (hnext : find? (crlf ++ delimiter) t = some next)
    (hnone : find? crlf2 (t.take next) = none) (allowed : Nat) :
    memoryLoop env uploadDirectory limits body delimiter (allowed + 1) pos files st =
      (refuse files 400 "Multipart part headers missing", st) := by
  obtain ⟨hcrlf, hfind, hpart⟩ := memory_search h
  rw [memoryLoop.eq_def]
  simp only []
  rw [if_neg (by rw [hcrlf]; decide), if_neg (not_not.mpr hcrlf), hfind, hnext]
  simp only [Option.map_some, hpart, hnone]

/-- What the loop finds of a part whose end it sees. -/
theorem memory_cut (hne : delimiter ≠ []) (hcr : cr ∉ delimiter) {p : WirePart}
    (hcut : p.Separate delimiter) {rest : Bytes}
    (h : body.drop (pos + delimiter.length) = crlf ++ (p.text ++ crlf ++ (delimiter ++ rest))) :
    substr body (pos + delimiter.length) 2 = crlf ∧
      findFrom (crlf ++ delimiter) body (pos + delimiter.length + 2) =
        some (p.text.length + (pos + delimiter.length + 2)) ∧
      substr body (pos + delimiter.length + 2)
        (p.text.length + (pos + delimiter.length + 2) - (pos + delimiter.length + 2)) = p.text ∧
      body.drop (p.text.length + (pos + delimiter.length + 2) + 2 + delimiter.length) = rest := by
  obtain ⟨hcrlf, hfind, hpart⟩ := memory_search h
  rw [WirePart.find_next hne hcr hcut rest] at hfind
  refine ⟨hcrlf, hfind, ?_, ?_⟩
  · rw [hpart, List.append_assoc, List.take_left]
  · have hlength : p.text.length + (pos + delimiter.length + 2) + 2 + delimiter.length =
        pos + delimiter.length + (crlf ++ p.text ++ crlf ++ delimiter).length := by
      simp [crlf]
      omega
    have htext : crlf ++ (p.text ++ crlf ++ (delimiter ++ rest)) =
        crlf ++ p.text ++ crlf ++ delimiter ++ rest := by simp
    rw [hlength, ← List.drop_drop, h, htext, List.drop_left]

theorem WirePart.text_parts (p : WirePart) :
    p.text.take p.head.length = p.head ∧ p.text.drop (p.head.length + 4) = p.content := by
  rw [WirePart.text, List.append_assoc]
  refine ⟨List.take_left, ?_⟩
  rw [← List.append_assoc]
  exact List.drop_left' (by simp [crlf2])

/-- A part the parser takes is stored if it is a file, and the loop goes on behind
it. -/
theorem memoryLoop_stores (hne : delimiter ≠ []) (hcr : cr ∉ delimiter) {p : WirePart}
    (hcut : p.Separate delimiter) (hfits : p.FitsMemory limits) {rest : Bytes}
    (h : body.drop (pos + delimiter.length) = crlf ++ (p.text ++ crlf ++ (delimiter ++ rest)))
    (hcreate : ∀ k, env.canCreate k = true) (allowed : Nat) :
    ∃ pos' new st', body.drop (pos' + delimiter.length) = rest ∧
      PartStored env uploadDirectory p.whole new st st' ∧
      memoryLoop env uploadDirectory limits body delimiter (allowed + 1) pos files st =
        memoryLoop env uploadDirectory limits body delimiter allowed pos' (files ++ new) st' := by
  obtain ⟨hcrlf, hfind, hpart, hrest⟩ := memory_cut hne hcr hcut h
  obtain ⟨htake, hdrop⟩ := p.text_parts
  have hend : find? crlf2 p.text = some p.head.length := by
    simpa using WirePart.find_headerEnd hcut.toHeaded []
  have hlineNames := WirePart.lineNames_whole hcut.toHeaded
  rw [memoryLoop.eq_def]
  simp only []
  rw [if_neg (by rw [hcrlf]; decide), if_neg (not_not.mpr hcrlf), hfind]
  simp only [hpart, hend, htake, hdrop, WirePart.parsePartHeaders_head hcut.toHeaded]
  rw [WirePart.FitsMemory] at hfits
  cases hdisposition : p.disposition with
  | none =>
      have hfield : ¬ IsFile p.whole := by
        rw [IsFile, hlineNames, WirePart.names, hdisposition]
        exact not_not.mpr rfl
      rw [WirePart.disposition] at hdisposition
      simp only [hdisposition]
      exact ⟨_, [], st, hrest, partStored_field env uploadDirectory hfield st,
        by rw [List.append_nil]⟩
  | some disposition =>
      have hnames : p.names = (dispositionValue disposition (bytes "name"),
          dispositionValue disposition (bytes "filename")) := by
        simp [WirePart.names, hdisposition]
      rw [hnames, hdisposition] at hfits
      rw [WirePart.disposition] at hdisposition
      rw [hnames] at hlineNames
      simp only [hdisposition]
      by_cases hfile : dispositionValue disposition (bytes "filename") = []
      · have hfield : ¬ IsFile p.whole := by
          rw [IsFile, hlineNames]
          exact not_not.mpr hfile
        rw [if_pos hfile] at hfits
        rw [if_pos hfile, if_neg (Nat.not_lt.mpr (hfits rfl))]
        exact ⟨_, [], st, hrest, partStored_field env uploadDirectory hfield st,
          by rw [List.append_nil]⟩
      · have hisFile : IsFile p.whole := by
          rw [IsFile, hlineNames]
          exact hfile
        have hcreatable : Creatable env st.opened p.whole := by
          rw [Creatable, hlineNames]
          rw [if_neg hfile] at hfits
          exact ⟨hfits.2, hcreate _⟩
        have hadvances := advances_write env (p := filePart env
          (p.whole.headers.map (· ++ crlf)).flatten st.opened) rfl p.content
          { st with
            dir := put (filePart env (p.whole.headers.map (· ++ crlf)).flatten
              st.opened).storedName [] st.dir
            opened := st.opened + 1 }
        rw [← p.joined_whole] at hadvances
        obtain ⟨new, hclose, hstored⟩ :=
          (opened_file hisFile hcreatable).closed hadvances uploadDirectory files
        rw [if_neg hfile] at hfits
        rw [if_neg hfile, if_neg (Nat.not_lt.mpr hfits.1)]
        simp only [isSafeUploadFilename_sanitize, hfits.2, Bool.true_eq_false, if_false,
          Uploads.create, hcreate, if_true]
        refine ⟨_, new, _, hrest, hstored, ?_⟩
        have hraw : partNames (p.whole.headers.map (· ++ crlf)).flatten = _ := hlineNames
        rw [← hclose]
        simp only [filePart, hraw]
        rw [closePart]
        simp only [Nat.zero_add, WirePart.joined_whole]
        rfl

/-- A part that fits is recorded if it is a file, and the loop goes on behind
it. -/
theorem memoryLoop_fits (hne : delimiter ≠ []) (hcr : cr ∉ delimiter) {p : WirePart}
    (hcut : p.WellCut delimiter) (hfits : p.Fits limits) {rest : Bytes}
    (h : body.drop (pos + delimiter.length) = crlf ++ (p.text ++ crlf ++ (delimiter ++ rest)))
    (hcreate : ∀ k, env.canCreate k = true) (allowed : Nat) :
    ∃ pos' new st', body.drop (pos' + delimiter.length) = rest ∧
      new.map MultipartSavedFile.entry = p.entries ∧
      memoryLoop env uploadDirectory limits body delimiter (allowed + 1) pos files st =
        memoryLoop env uploadDirectory limits body delimiter allowed pos' (files ++ new) st' := by
  obtain ⟨pos', new, st', hrest, hstored, hloop⟩ := memoryLoop_stores env uploadDirectory limits
    files st hne hcr hcut.separate hfits.memory h hcreate allowed
  exact ⟨pos', new, st', hrest,
    entries_recorded (WirePart.lineNames_whole hcut.toHeaded) hstored.recorded, hloop⟩

/-- A part refused with a status ends the loop with it. -/
theorem memoryLoop_refuses (hne : delimiter ≠ []) (hcr : cr ∉ delimiter) {p : WirePart}
    (hcut : p.WellCut delimiter) {status : Nat} (hrefused : p.Refused limits status) {rest : Bytes}
    (h : body.drop (pos + delimiter.length) = crlf ++ (p.text ++ crlf ++ (delimiter ++ rest)))
    (allowed : Nat) :
    ∃ error, memoryLoop env uploadDirectory limits body delimiter (allowed + 1) pos files st =
      (refuse files status error, st) := by
  obtain ⟨hcrlf, hfind, hpart, -⟩ := memory_cut hne hcr hcut.separate h
  obtain ⟨htake, hdrop⟩ := p.text_parts
  have hend : find? crlf2 p.text = some p.head.length := by
    simpa using WirePart.find_headerEnd hcut.toHeaded []
  have hlength := p.lineLength_le
  rw [memoryLoop.eq_def]
  simp only []
  rw [if_neg (by rw [hcrlf]; decide), if_neg (not_not.mpr hcrlf), hfind]
  simp only [hpart, hend, htake, hdrop, WirePart.parsePartHeaders_head hcut.toHeaded]
  rw [WirePart.Refused] at hrefused
  cases hdisposition : p.disposition with
  | none => simp [WirePart.names, hdisposition] at hrefused
  | some disposition =>
      have hnames : p.names = (dispositionValue disposition (bytes "name"),
          dispositionValue disposition (bytes "filename")) := by
        simp [WirePart.names, hdisposition]
      rw [hnames, hdisposition] at hrefused
      rw [WirePart.disposition] at hdisposition
      simp only [hdisposition]
      by_cases hfile : dispositionValue disposition (bytes "filename") = []
      · rw [if_pos hfile] at hrefused
        rw [if_pos hfile, if_pos (by omega), hrefused.2.2]
        exact ⟨_, rfl⟩
      · rw [if_neg hfile] at hrefused
        rw [if_neg hfile]
        split at hrefused
        · rw [if_pos (by omega), hrefused.2]
          exact ⟨_, rfl⟩
        · next hbad =>
            rw [if_neg (by omega), isSafeUploadFilename_sanitize, if_pos (by simpa using hbad),
              hrefused.2]
            exact ⟨_, rfl⟩

end Memory

/-! ## The part in the spool file -/

/-- The part as the line reader cuts it. -/
def WirePart.linePart (p : WirePart) (ending : Bytes) : LinePart :=
  { headers := p.headers, body := cleanedLines p.content, ending := some ending }

theorem lineNames_linePart {p : WirePart} (h : p.Headed) (ending : Bytes) :
    lineNames (p.linePart ending) = p.names :=
  WirePart.partNames_lines h

theorem isFile_linePart {p : WirePart} (h : p.Headed) (ending : Bytes) :
    IsFile (p.linePart ending) ↔ p.names.2 ≠ [] := by
  rw [IsFile, lineNames_linePart h]

/-- The header lines of the part are read up to the empty line. -/
theorem readPartHeaders_wire {p : WirePart} (h : p.Headed) (rest : List Bytes) :
    readPartHeaders (p.headers.map (· ++ [cr]) ++ [cr] :: rest) [] =
      ((p.headers.map (· ++ crlf)).flatten, some rest) := by
  have hheaders : ∀ l ∈ p.headers.map (· ++ [cr]), dropCr l ≠ [] := by
    intro l hl
    obtain ⟨m, hm, hl⟩ := List.mem_map.mp hl
    rw [← hl, dropCr_concat_cr]
    exact (h.lines m hm).1
  rw [readPartHeaders_closed rest hheaders rfl, List.nil_append, List.map_map]
  have hline : (fun l => dropCr l ++ crlf) ∘ (· ++ [cr]) = (· ++ crlf) := by
    funext l
    rw [Function.comp_apply, dropCr_concat_cr]
  rw [hline]

theorem openPart_badName {env : UploadEnv} {raw : Bytes} {st : Uploads}
    (h : (partNames raw).2 ≠ [])
    (hbad : Multipart.isSafeUploadFilename (partNames raw).2 = false)
    (files : List MultipartSavedFile) :
    ∃ error, openPart env files raw st = (.error (refuse files 415 error), st) := by
  rw [openPart]
  simp only [h, if_false, isSafeUploadFilename_sanitize]
  rw [if_pos hbad]
  exact ⟨_, rfl⟩

section Spool

variable (env : UploadEnv) (uploadDirectory : Path) (limits : MultipartLimits)
  {delimiter : Bytes} (files : List MultipartSavedFile) (st : Uploads)

theorem heldText_wire {p : WirePart} {ending : Bytes} {q : PartState} {st' : Uploads}
    (hopened : Opened env (p.linePart ending) st q st') :
    heldText q ((p.content ++ [cr]).splitOn lf) = joined (cleanedLines p.content) := by
  rw [heldText, hopened.pending]
  rfl

theorem limit_wire {p : WirePart} (h : p.Headed) {ending : Bytes} {q : PartState} {st' : Uploads}
    (hopened : Opened env (p.linePart ending) st q st') :
    q.limit limits = if p.names.2 = [] then limits.maxFieldBytes else limits.maxFileBytes := by
  rw [hopened.limit limits]
  by_cases hfile : p.names.2 = []
  · rw [if_neg (by simp [isFile_linePart h, hfile]), if_pos hfile]
  · rw [if_pos ((isFile_linePart h ending).mpr hfile), if_neg hfile]

/-- A part that fits is recorded if it is a file, and the loop goes on behind
it, or accepts at the closing delimiter. -/
theorem spoolLoop_fits {p : WirePart} (hcut : p.WellCut delimiter) (hfits : p.Fits limits)
    {rest d : Bytes} {lines : List Bytes} (hlines : getlines (delimiter ++ rest) = d :: lines)
    (hd : IsDelimiter delimiter (dropCr d)) (hcreate : ∀ k, env.canCreate k = true)
    (allowed : Nat) :
    ∃ new st', new.map MultipartSavedFile.entry = p.entries ∧
      spoolLoop env uploadDirectory limits delimiter (allowed + 1)
          (getlines (p.text ++ crlf ++ (delimiter ++ rest))) files st =
        if dropCr d = delimiter ++ dashes then (accept (files ++ new), st')
        else spoolLoop env uploadDirectory limits delimiter allowed lines (files ++ new) st' := by
  rw [WirePart.getlines_text hcut.toHeaded, hlines, spoolLoop, readPartHeaders_wire hcut.toHeaded]
  simp only [reduceCtorEq, false_and, if_false, Option.getD_some]
  rw [WirePart.Fits] at hfits
  have hlength := p.lineLength_le
  rcases openPart_cases env files (p.linePart (dropCr d)) st with
    ⟨hfile, hcreatable, -⟩ | ⟨q, st', hopen, hopened⟩
  · rw [isFile_linePart hcut.toHeaded] at hfile
    rw [if_neg hfile] at hfits
    refine absurd ⟨?_, hcreate _⟩ hcreatable
    rw [lineNames_linePart hcut.toHeaded]
    exact hfits.2
  · have hfit : q.taken + (heldText q ((p.content ++ [cr]).splitOn lf)).length ≤
        q.limit limits := by
      rw [hopened.taken, heldText_wire env st hopened,
        limit_wire env limits st hcut.toHeaded hopened, ← WirePart.lineLength]
      split at hfits
      · next hfield => rw [if_pos hfield]; omega
      · next hfile => rw [if_neg hfile]; omega
    obtain ⟨q', st'', hadv, hloop⟩ := contentLoop_closes env uploadDirectory limits files
      (fun l hl => hcut.plain _ (List.mem_map_of_mem hl)) hd lines st' hfit
    rw [heldText_wire env st hopened] at hadv
    obtain ⟨new, hclose, hstored⟩ := hopened.closed hadv uploadDirectory files
    refine ⟨new, st'', entries_recorded (lineNames_linePart hcut.toHeaded _) hstored.recorded, ?_⟩
    have hopen' : openPart env files (p.headers.map (· ++ crlf)).flatten st = (.ok q, st') := hopen
    simp only [hopen', hloop, hclose]
    by_cases hclosing : dropCr d = delimiter ++ dashes
    · rw [if_pos hclosing, if_pos hclosing]
    · rw [if_neg hclosing, if_neg hclosing]

/-- A part refused with a status ends the loop with it, whatever line is behind
the part. -/
theorem spoolLoop_refuses (hne : delimiter ≠ []) {p : WirePart} (hcut : p.WellCut delimiter)
    {status : Nat} (hrefused : p.Refused limits status) (rest : Bytes)
    (hcreate : ∀ k, env.canCreate k = true) (allowed : Nat) :
    ∃ error st', spoolLoop env uploadDirectory limits delimiter (allowed + 1)
        (getlines (p.text ++ crlf ++ (delimiter ++ rest))) files st =
      (refuse files status error, st') := by
  obtain ⟨d, lines, hlines⟩ : ∃ d lines, getlines (delimiter ++ rest) = d :: lines :=
    List.exists_cons_of_ne_nil (getlines_ne_nil (by simp [hne]))
  rw [WirePart.getlines_text hcut.toHeaded, hlines, spoolLoop, readPartHeaders_wire hcut.toHeaded]
  simp only [reduceCtorEq, false_and, if_false, Option.getD_some]
  rw [WirePart.Refused] at hrefused
  have hpartNames := WirePart.partNames_lines hcut.toHeaded
  by_cases hbad : p.names.2 ≠ [] ∧ Multipart.isSafeUploadFilename p.names.2 = false
  · obtain ⟨error, hopen⟩ := openPart_badName
      (by rw [hpartNames]; exact hbad.1) (by rw [hpartNames]; exact hbad.2) files
    rw [if_neg hbad.1, if_neg (by simp [hbad.2])] at hrefused
    rw [hopen, hrefused.2]
    exact ⟨error, st, rfl⟩
  · rcases openPart_cases env files (p.linePart (dropCr d)) st with
      ⟨hfile, hcreatable, -⟩ | ⟨q, st', hopen, hopened⟩
    · refine absurd ⟨?_, hcreate _⟩ hcreatable
      rw [isFile_linePart hcut.toHeaded] at hfile
      rw [lineNames_linePart hcut.toHeaded]
      simpa [hfile] using hbad
    · have hover : q.limit limits < p.lineLength ∧ status = 413 := by
        rw [limit_wire env limits st hcut.toHeaded hopened]
        split at hrefused
        · next hfield => rw [if_pos hfield]; exact hrefused.2
        · next hfile =>
            rw [if_neg hfile]
            rw [if_pos (by simpa [hfile] using hbad)] at hrefused
            exact hrefused
      obtain ⟨error, st'', hloop⟩ := contentLoop_overflows env uploadDirectory limits files d
        (fun l hl => hcut.plain _ (List.mem_map_of_mem hl)) lines (p := q) st'
        (by rw [hopened.taken]; exact Nat.zero_le _)
        (by rw [hopened.taken, heldText_wire env st hopened, ← WirePart.lineLength]; omega)
      have hopen' : openPart env files (p.headers.map (· ++ crlf)).flatten st = (.ok q, st') :=
        hopen
      simp only [hopen', hloop, hover.2]
      exact ⟨error, st'', rfl⟩

end Spool

end HydrogenHttpd.Ref
