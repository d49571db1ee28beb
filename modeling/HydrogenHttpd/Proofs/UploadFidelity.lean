import HydrogenHttpd.Proofs.UploadRuns

/-!
# What a spooled upload stores

The streaming parser puts a content back together from its lines, and a line
has lost the carriage return at its end by then. So a content comes back
exactly when it held no CRLF and no line that reads as a delimiter (`Plain`),
and a shorter one comes back otherwise. `streamed_upload_exact_iff` says so for
a whole form: every file is stored exactly when every content is plain, every
part names a file, and the size limit is not zero.

The cut of a standard form into parts is computed part by part
(`cutParts_form`). On a plain content the cut is where the encoder put the
delimiter; on any other, the part's text is shorter than the content, wherever
the cut falls.
-/

namespace HydrogenHttpd.Ref

open Base Spec

/-! ## A content cut into lines -/

theorem dropCr_concat_cr (u : Bytes) : dropCr (u ++ [cr]) = u := by
  simp [dropCr]

theorem length_dropCr_le (l : Bytes) : (dropCr l).length ≤ l.length := by
  rw [dropCr]
  split <;> simp

theorem dropCr_of_getLast? {l : Bytes} (h : l.getLast? ≠ some cr) : dropCr l = l := by
  rw [dropCr, if_neg h]

theorem lineBytes_map_dropCr_le (ls : List Bytes) : lineBytes (ls.map dropCr) ≤ lineBytes ls := by
  induction ls with
  | nil => exact le_refl _
  | cons l ls ih =>
      rw [List.map_cons, lineBytes_cons, lineBytes_cons]
      have := length_dropCr_le l
      omega

theorem lineBytes_map_dropCr_lt {ls : List Bytes} {l : Bytes} (hl : l ∈ ls)
    (hcr : l.getLast? = some cr) : lineBytes (ls.map dropCr) < lineBytes ls := by
  induction ls with
  | nil => cases hl
  | cons m ms ih =>
      rw [List.map_cons, lineBytes_cons, lineBytes_cons]
      rcases List.mem_cons.mp hl with rfl | hl
      · have hrest := lineBytes_map_dropCr_le ms
        have hlen : (dropCr l).length + 1 = l.length := by
          rw [dropCr, if_pos hcr, List.length_dropLast]
          have hne : l ≠ [] := by rintro rfl; cases hcr
          have := List.length_pos_iff.mpr hne
          omega
        omega
      · have := ih hl
        have := length_dropCr_le m
        omega

theorem length_joined_le (ls : List Bytes) : (joined ls).length ≤ lineBytes ls := by
  by_cases h : ls = []
  · subst h; exact Nat.zero_le _
  · have := length_intercalate_lf h
    rw [joined]
    omega

theorem length_joined {ls : List Bytes} (h : ls ≠ []) :
    (joined ls).length + 1 = lineBytes ls := length_intercalate_lf h

/-- The lines of a content and the CRLF behind it, as the reader cleans them. -/
def cleanedLines (content : Bytes) : List Bytes := ((content ++ [cr]).splitOn lf).map dropCr

/-- The reader's lines are the content's, but for a carriage return at the end
of any but the last. -/
theorem cleanedLines_eq (content : Bytes) :
    ∃ init last, content.splitOn lf = init ++ [last] ∧
      cleanedLines content = init.map dropCr ++ [last] := by
  obtain ⟨init, last, h1, h2⟩ := splitOn_lf_concat (show cr ≠ lf by decide) content
  exact ⟨init, last, h1, by rw [cleanedLines, h2, List.map_append, List.map_singleton,
    dropCr_concat_cr]⟩

/-- A line that ends in a carriage return, with another line behind it, is a
CRLF of the text. -/
theorem crlf_infix_of_line {content : Bytes} {init : List Bytes} {last l : Bytes}
    (h : content.splitOn lf = init ++ [last]) (hl : l ∈ init) (hcr : l.getLast? = some cr) :
    crlf <:+: content := by
  obtain ⟨a, b, rfl⟩ := List.append_of_mem hl
  have htext : [lf].intercalate (content.splitOn lf) = content := List.intercalate_splitOn lf
  rw [h, List.append_assoc, List.cons_append] at htext
  have hbehind : crlf <:+: [lf].intercalate (l :: (b ++ [last])) := by
    obtain ⟨u, hu⟩ := List.getLast?_eq_some_iff.mp hcr
    cases hb : b ++ [last] with
    | nil => simp at hb
    | cons m ms =>
        rw [List.intercalate_cons_cons, hu]
        exact ⟨u, [lf].intercalate (m :: ms), by simp [crlf]⟩
  rw [← htext]
  refine hbehind.trans ?_
  clear htext hbehind h hl
  induction a with
  | nil => exact List.infix_rfl
  | cons x xs ih =>
      refine ih.trans ?_
      cases hx : xs ++ l :: (b ++ [last]) with
      | nil => simp at hx
      | cons m ms =>
          rw [List.cons_append, hx, List.intercalate_cons_cons]
          exact (List.suffix_append _ _).isInfix

/-- A CRLF of the text ends one of its lines but the last. -/
theorem line_of_crlf {content : Bytes} (h : crlf <:+: content) :
    ∃ init last l, content.splitOn lf = init ++ [last] ∧ l ∈ init ∧ l.getLast? = some cr := by
  obtain ⟨u, v, rfl⟩ := h
  obtain ⟨init, last, -, h2⟩ := splitOn_lf_concat (show cr ≠ lf by decide) u
  obtain ⟨init', last', hv⟩ : ∃ init' last', v.splitOn lf = init' ++ [last'] := by
    obtain ⟨init', last', h1, -⟩ := splitOn_lf_concat (show cr ≠ lf by decide) v
    exact ⟨init', last', h1⟩
  have hsplit : (u ++ crlf ++ v).splitOn lf = (u ++ [cr]).splitOn lf ++ v.splitOn lf := by
    rw [show u ++ crlf ++ v = (u ++ [cr]) ++ lf :: v by simp [crlf], List.splitOn_append_cons_self]
  refine ⟨init ++ [last ++ [cr]] ++ init', last', last ++ [cr], ?_, by simp, by simp⟩
  rw [hsplit, h2, hv]
  simp

/-- Without a CRLF in the content, cleaning its lines changes nothing. -/
theorem cleanedLines_of_no_crlf {content : Bytes} (h : ¬ crlf <:+: content) :
    cleanedLines content = content.splitOn lf := by
  obtain ⟨init, last, hsplit, hclean⟩ := cleanedLines_eq content
  rw [hclean, hsplit]
  congr 1
  conv_rhs => rw [← List.map_id init]
  exact List.map_congr_left fun l hl =>
    dropCr_of_getLast? fun hcr => h (crlf_infix_of_line hsplit hl hcr)

theorem lineBytes_cleanedLines_le (content : Bytes) :
    lineBytes (cleanedLines content) ≤ content.length + 1 := by
  obtain ⟨init, last, hsplit, hclean⟩ := cleanedLines_eq content
  rw [← lineBytes_splitOn content, hsplit, hclean, lineBytes_append, lineBytes_append]
  have := lineBytes_map_dropCr_le init
  omega

/-- A content that is not plain loses bytes: its lines either hold a delimiter,
or are shorter than the content. -/
theorem not_plain {boundary content : Bytes} (h : ¬ Plain boundary content) :
    (∃ l ∈ cleanedLines content, IsDelimiter (delimiterOf boundary) l) ∨
      (joined (cleanedLines content)).length < content.length := by
  by_cases hcrlf : crlf <:+: content
  · right
    obtain ⟨init, last, l, hsplit, hl, hcr⟩ := line_of_crlf hcrlf
    obtain ⟨init', last', hsplit', hclean⟩ := cleanedLines_eq content
    rw [hsplit] at hsplit'
    obtain ⟨rfl, hlast⟩ := List.append_inj' hsplit' rfl
    cases hlast
    have hlt := lineBytes_map_dropCr_lt hl hcr
    have hall := lineBytes_splitOn content
    have hne : cleanedLines content ≠ [] := by rw [hclean]; simp
    have hlen := length_joined hne
    rw [hsplit, lineBytes_append] at hall
    rw [hclean, lineBytes_append] at hlen
    rw [hclean]
    omega
  · left
    have hline : ∃ l ∈ content.splitOn lf, IsDelimiter (delimiterOf boundary) l := by
      by_contra hno
      exact h ⟨hcrlf, fun l hl hd => hno ⟨l, hl, hd⟩⟩
    rwa [cleanedLines_of_no_crlf hcrlf]

/-! ## The lines of a form -/

/-- The lines from a delimiter on, with what may follow the form. -/
def formLines (delimiter epilogue : Bytes) (parts : List FormPart) : List Bytes :=
  getlines (delimiter ++ encodeParts delimiter parts ++ epilogue)

theorem formLines_cons {delimiter epilogue : Bytes} (hlf : lf ∉ delimiter) {p : FormPart}
    (hheader : lf ∉ p.header) (ps : List FormPart) :
    formLines delimiter epilogue (p :: ps) =
      (delimiter ++ [cr]) :: (p.header ++ [cr]) :: [cr] ::
        ((p.content ++ [cr]).splitOn lf ++ formLines delimiter epilogue ps) := by
  have hcontent : p.content ++ crlf ++ (delimiter ++ encodeParts delimiter ps ++ epilogue) =
      (p.content ++ [cr]) ++ lf :: (delimiter ++ encodeParts delimiter ps ++ epilogue) := by
    simp [crlf]
  have htext : delimiter ++ encodeParts delimiter (p :: ps) ++ epilogue =
      delimiter ++ crlf ++ (p.header ++ crlf ++ ([] ++ crlf ++ (p.content ++ crlf ++
        (delimiter ++ encodeParts delimiter ps ++ epilogue)))) := by
    simp [encodeParts, FormPart.encode]
  rw [formLines, htext, getlines_crlf hlf, getlines_crlf hheader, getlines_crlf (by simp),
    hcontent, getlines_append]
  rfl

theorem formLines_nil {delimiter epilogue : Bytes} (hlf : lf ∉ delimiter)
    (hepilogue : epilogue = [] ∨ crlf <+: epilogue) :
    ∃ d rest, formLines delimiter epilogue [] = d :: rest ∧ dropCr d = delimiter ++ dashes := by
  have hlf' : lf ∉ delimiter ++ dashes := by
    rw [List.mem_append, not_or]
    exact ⟨hlf, by decide⟩
  rw [formLines, encodeParts]
  rcases hepilogue with rfl | ⟨t, rfl⟩
  · rw [List.append_nil, getlines_last hlf' (by simp [dashes])]
    refine ⟨_, _, rfl, dropCr_of_getLast? ?_⟩
    rw [List.getLast?_append_of_ne_nil _ (by decide)]
    decide
  · rw [← List.append_assoc, getlines_crlf hlf']
    exact ⟨_, _, rfl, dropCr_concat_cr _⟩

/-- The delimiter line that stands before some parts. -/
def delimiterLine (delimiter : Bytes) (parts : List FormPart) : Bytes :=
  if parts = [] then delimiter ++ dashes else delimiter

theorem formLines_head {delimiter epilogue : Bytes} (hlf : lf ∉ delimiter)
    (hepilogue : epilogue = [] ∨ crlf <+: epilogue) (parts : List FormPart)
    (hheader : ∀ p ∈ parts, lf ∉ p.header) :
    ∃ d, formLines delimiter epilogue parts = d :: (formLines delimiter epilogue parts).tail ∧
      dropCr d = delimiterLine delimiter parts := by
  cases parts with
  | nil =>
      obtain ⟨d, rest, hlines, hd⟩ := formLines_nil hlf hepilogue
      exact ⟨d, by rw [hlines, List.tail_cons], hd⟩
  | cons p ps =>
      rw [formLines_cons hlf (hheader p (by simp))]
      exact ⟨_, rfl, dropCr_concat_cr delimiter⟩

theorem lf_not_mem_header {p : FormPart} (hname : Quotable p.name)
    (hfile : Quotable p.filename) : lf ∉ p.header := by
  simp only [FormPart.header, List.mem_append, List.mem_singleton]
  rintro ((((h | h) | h) | h) | h)
  · exact absurd h (by decide)
  · exact hname.2.2.1 h
  · exact absurd h (by decide)
  · exact hfile.2.2.1 h
  · exact absurd h (by decide)

/-! ## The form cut into parts -/

section Form

variable {boundary epilogue : Bytes} {p : FormPart} {ps : List FormPart}

/-- The cut of a form at its first part, when the content's lines fall into
some without a delimiter, a delimiter line and a rest. -/
theorem cutParts_form (hlf : lf ∉ delimiterOf boundary) (hname : Quotable p.name)
    (hfile : Quotable p.filename) {body : List Bytes} {d : Bytes} {rest : List Bytes}
    (hlines : (p.content ++ [cr]).splitOn lf ++ formLines (delimiterOf boundary) epilogue ps =
      body ++ d :: rest)
    (hbody : ∀ l ∈ body, ¬ IsDelimiter (delimiterOf boundary) (dropCr l))
    (hd : IsDelimiter (delimiterOf boundary) (dropCr d)) (n : Nat) :
    cutParts (delimiterOf boundary) (n + 1)
        ((formLines (delimiterOf boundary) epilogue (p :: ps)).tail.map dropCr) =
      { headers := [p.header], body := body.map dropCr, ending := some (dropCr d) } ::
        if dropCr d = delimiterOf boundary ++ dashes then []
        else cutParts (delimiterOf boundary) n (rest.map dropCr) := by
  have hheader : dropCr (p.header ++ [cr]) = p.header := dropCr_concat_cr _
  have hne : p.header ≠ [] := by
    intro h
    have := congrArg List.length h
    simp [FormPart.header, quote] at this
  rw [formLines_cons hlf (lf_not_mem_header hname hfile), List.tail_cons, hlines]
  have h := @cutParts_closed (delimiterOf boundary) [p.header ++ [cr]] body [cr] d n
    (fun l hl => by rw [List.mem_singleton.mp hl, hheader]; exact hne) (by decide) hbody hd rest
  rw [List.map_singleton, hheader] at h
  exact h

theorem lineNames_form (hname : Quotable p.name) (hfile : Quotable p.filename)
    (body : List Bytes) (ending : Option Bytes) :
    lineNames { headers := [p.header], body := body, ending := ending } =
      (p.name, p.filename) := by
  rw [lineNames, List.map_singleton, List.flatten_singleton]
  exact partNames_header hname hfile

/-- A plain content is cut where the encoder put the next delimiter. -/
theorem cutParts_plain (hlf : lf ∉ delimiterOf boundary) (hname : Quotable p.name)
    (hfile : Quotable p.filename) (hps : ∀ q ∈ ps, lf ∉ q.header)
    (hepilogue : epilogue = [] ∨ crlf <+: epilogue) (hplain : Plain boundary p.content)
    (n : Nat) :
    cutParts (delimiterOf boundary) (n + 1)
        ((formLines (delimiterOf boundary) epilogue (p :: ps)).tail.map dropCr) =
      { headers := [p.header], body := p.content.splitOn lf
        ending := some (delimiterLine (delimiterOf boundary) ps) } ::
        if ps = [] then []
        else cutParts (delimiterOf boundary) n
          ((formLines (delimiterOf boundary) epilogue ps).tail.map dropCr) := by
  obtain ⟨d, hd, hdrop⟩ := formLines_head hlf hepilogue ps hps
  have hclean := cleanedLines_of_no_crlf hplain.1
  have hlines : (p.content ++ [cr]).splitOn lf ++ formLines (delimiterOf boundary) epilogue ps =
      (p.content ++ [cr]).splitOn lf ++
        d :: (formLines (delimiterOf boundary) epilogue ps).tail := by rw [← hd]
  have hbody : ∀ l ∈ (p.content ++ [cr]).splitOn lf,
      ¬ IsDelimiter (delimiterOf boundary) (dropCr l) := by
    intro l hl
    refine hplain.2 (dropCr l) ?_
    rw [← hclean, cleanedLines]
    exact List.mem_map_of_mem hl
  have hdelim : IsDelimiter (delimiterOf boundary) (dropCr d) := by
    rw [hdrop, delimiterLine]
    split
    · exact Or.inr rfl
    · exact Or.inl rfl
  rw [cutParts_form hlf hname hfile hlines hbody hdelim n, hdrop,
    show ((p.content ++ [cr]).splitOn lf).map dropCr = p.content.splitOn lf from hclean]
  congr 1
  by_cases hnil : ps = []
  · rw [if_pos hnil, delimiterLine, if_pos hnil, if_pos rfl]
  · rw [if_neg hnil, delimiterLine, if_neg hnil, if_neg (by simp [dashes])]

/-- Any other content is cut to a text shorter than it. -/
theorem cutParts_not_plain (hlf : lf ∉ delimiterOf boundary) (hname : Quotable p.name)
    (hfile : Quotable p.filename) (hps : ∀ q ∈ ps, lf ∉ q.header)
    (hepilogue : epilogue = [] ∨ crlf <+: epilogue) (hplain : ¬ Plain boundary p.content)
    (n : Nat) :
    ∃ q rest, cutParts (delimiterOf boundary) (n + 1)
        ((formLines (delimiterOf boundary) epilogue (p :: ps)).tail.map dropCr) = q :: rest ∧
      lineNames q = (p.name, p.filename) ∧ (joined q.body).length < p.content.length := by
  have hle := lineBytes_cleanedLines_le p.content
  obtain ⟨d, hd, hdrop⟩ := formLines_head hlf hepilogue ps hps
  rcases find?_split_or_all (fun l => IsDelimiter (delimiterOf boundary) (dropCr l))
      ((p.content ++ [cr]).splitOn lf) with hall | ⟨a, x, b, hsplit, ha, hx⟩
  · -- no delimiter among its lines, so the lines have lost carriage returns
    have hbody : ∀ l ∈ (p.content ++ [cr]).splitOn lf,
        ¬ IsDelimiter (delimiterOf boundary) (dropCr l) := fun l hl => by simpa using hall l hl
    have hdelim : IsDelimiter (delimiterOf boundary) (dropCr d) := by
      rw [hdrop, delimiterLine]
      split
      · exact Or.inr rfl
      · exact Or.inl rfl
    have hshort : (joined (cleanedLines p.content)).length < p.content.length := by
      refine (not_plain hplain).resolve_left ?_
      rintro ⟨l, hl, hdl⟩
      obtain ⟨m, hm, rfl⟩ := List.mem_map.mp hl
      exact hbody m hm hdl
    have hlines : (p.content ++ [cr]).splitOn lf ++
        formLines (delimiterOf boundary) epilogue ps =
        (p.content ++ [cr]).splitOn lf ++
          d :: (formLines (delimiterOf boundary) epilogue ps).tail := by rw [← hd]
    exact ⟨_, _, cutParts_form hlf hname hfile hlines hbody hdelim n,
      lineNames_form hname hfile _ _, hshort⟩
  · -- the first delimiter among its lines ends the part too early
    have hlines : (p.content ++ [cr]).splitOn lf ++
        formLines (delimiterOf boundary) epilogue ps =
        a ++ x :: (b ++ formLines (delimiterOf boundary) epilogue ps) := by
      rw [hsplit, List.append_assoc, List.cons_append]
    have hx' : IsDelimiter (delimiterOf boundary) (dropCr x) := by simpa using hx
    refine ⟨_, _, cutParts_form hlf hname hfile hlines (fun l hl => by simpa using ha l hl) hx' n,
      lineNames_form hname hfile _ _, ?_⟩
    have hdelim : 2 ≤ (dropCr x).length := by
      rcases hx' with h | h <;> rw [h] <;> simp [delimiterOf, dashes]
    rw [cleanedLines, hsplit, List.map_append, List.map_cons, lineBytes_append,
      lineBytes_cons] at hle
    have := length_joined_le (a.map dropCr)
    show (joined (a.map dropCr)).length < p.content.length
    omega

end Form

/-! ## Whole forms -/

/-- What the encoder and the limits ask of a part. -/
structure Admissible (limits : MultipartLimits) (boundary : Bytes) (p : FormPart) : Prop where
  name : Quotable p.name
  filename : Quotable p.filename
  safe : Multipart.isSafeUploadFilename p.filename = true
  size : p.content.length ≤ limits.maxFileBytes
  avoids : AvoidsBoundary boundary p.content

/-- The part comes back from its lines: its names, and its whole content. -/
def ComesBack (boundary : Bytes) (p : FormPart) : Prop :=
  p.filename ≠ [] ∧ Plain boundary p.content

/-- A file of the result that is the part, stored. -/
structure StoredAs (uploadDirectory : Path) (dir : List (Bytes × Bytes)) (p : FormPart)
    (file : MultipartSavedFile) : Prop where
  fieldName : file.fieldName = p.name
  originalFilename : file.originalFilename = p.filename
  storedPath : file.storedPath = uploadDirectory / Path.ofBytes file.storedFilename
  content : dir.lookup file.storedFilename = some p.content
  size : file.size = p.content.length

/-- The upload was accepted and stored exactly the parts, each in a file of its
own, and nothing else in the directory changed. -/
def StoresExactly (uploadDirectory : Path) (dir : List (Bytes × Bytes))
    (parts : List FormPart) (run : Except Bytes MultipartResult × Uploads) : Prop :=
  ∃ result, run.1 = .ok result ∧ result.ok = true ∧
    List.Forall₂ (StoredAs uploadDirectory run.2.dir) parts result.files ∧
    (result.files.map (·.storedFilename)).Nodup ∧
    ∀ name, (∀ f ∈ result.files, name ≠ f.storedFilename) →
      run.2.dir.lookup name = dir.lookup name

/-- The cut part is the form part. -/
def CutAs (p : FormPart) (q : LinePart) : Prop :=
  lineNames q = (p.name, p.filename) ∧ joined q.body = p.content

theorem validBoundary_of_extract {contentType boundary : Bytes}
    (h : Multipart.extractBoundary contentType = some boundary) :
    ∀ c ∈ boundary, validBoundaryChar c = true := by
  have hlast : ∀ b : Bytes, (if b = [] ∨ 70 < b.length then none
      else if b.all validBoundaryChar then some b else none) = some boundary →
      ∀ c ∈ boundary, validBoundaryChar c = true := by
    intro b hb
    split at hb
    · cases hb
    · split at hb
      · next hall =>
          cases hb
          exact List.all_eq_true.mp hall
      · cases hb
  simp only [Multipart.extractBoundary] at h
  split at h
  · cases h
  · split at h
    · cases h
    · rcases ite_eq_iff.mp h with ⟨-, h⟩ | ⟨-, h⟩
      · cases h
      · exact hlast _ h

theorem lf_not_mem_delimiter {contentType boundary : Bytes}
    (h : Multipart.extractBoundary contentType = some boundary) :
    lf ∉ delimiterOf boundary := by
  rw [delimiterOf, List.mem_append, not_or]
  refine ⟨by decide, fun hmem => ?_⟩
  exact absurd (validBoundary_of_extract h lf hmem) (by decide)

theorem boundary_clear {contentType boundary : Bytes}
    (h : Multipart.extractBoundary contentType = some boundary) :
    delimiterOf boundary ≠ [] ∧ lf ∉ delimiterOf boundary ∧ cr ∉ delimiterOf boundary := by
  refine ⟨by simp [delimiterOf, dashes], lf_not_mem_delimiter h, ?_⟩
  rw [delimiterOf, List.mem_append, not_or]
  refine ⟨by decide, fun hmem => ?_⟩
  exact absurd (validBoundary_of_extract h cr hmem) (by decide)

section Whole

variable {env : UploadEnv} {limits : MultipartLimits} {boundary epilogue : Bytes}

/-- A form whose parts all come back is cut as it was encoded. -/
theorem cutParts_comesBack (hlf : lf ∉ delimiterOf boundary)
    (hepilogue : epilogue = [] ∨ crlf <+: epilogue) (hcreate : ∀ k, env.canCreate k = true)
    {parts : List FormPart} (hne : parts ≠ []) {n : Nat} (hcount : parts.length ≤ n)
    (hparts : ∀ p ∈ parts, Admissible limits boundary p)
    (hback : ∀ p ∈ parts, ComesBack boundary p) (k : Nat) :
    let cut := cutParts (delimiterOf boundary) n
      ((formLines (delimiterOf boundary) epilogue parts).tail.map dropCr)
    AllAccepted env limits (delimiterOf boundary) k cut ∧ List.Forall₂ CutAs parts cut ∧
      ∀ q ∈ cut, IsFile q := by
  induction parts generalizing n k with
  | nil => exact absurd rfl hne
  | cons p ps ih =>
      obtain ⟨n, rfl⟩ : ∃ m, n = m + 1 := ⟨n - 1, by rw [List.length_cons] at hcount; omega⟩
      have hp := hparts p (by simp)
      have hps : ∀ q ∈ ps, lf ∉ q.header := fun q hq =>
        have h := hparts q (by simp [hq])
        lf_not_mem_header h.name h.filename
      have hplain := (hback p (by simp)).2
      rw [cutParts_plain hlf hp.name hp.filename hps hepilogue hplain]
      set q : LinePart := { headers := [p.header], body := p.content.splitOn lf
                            ending := some (delimiterLine (delimiterOf boundary) ps) } with hq
      have hnames : lineNames q = (p.name, p.filename) :=
        lineNames_form hp.name hp.filename _ _
      have hjoined : joined q.body = p.content := List.intercalate_splitOn lf
      have hfile : IsFile q := by
        rw [IsFile, hnames]
        exact (hback p (by simp)).1
      have hfaultless : Faultless env limits k q := by
        refine ⟨rfl, ?_, fun _ => ⟨?_, hcreate k⟩⟩
        · rw [if_pos hfile, hjoined]
          exact hp.size
        · rw [hnames]
          exact hp.safe
      by_cases hnil : ps = []
      · subst hnil
        rw [if_pos rfl]
        refine ⟨⟨hfaultless, Or.inl rfl⟩, ?_, by simpa using hfile⟩
        exact List.Forall₂.cons ⟨hnames, hjoined⟩ List.Forall₂.nil
      · rw [if_neg hnil]
        obtain ⟨hacc, hall, hfiles⟩ := ih hnil (n := n)
          (by rw [List.length_cons] at hcount; omega)
          (fun r hr => hparts r (by simp [hr])) (fun r hr => hback r (by simp [hr]))
          (if IsFile q then k + 1 else k)
        refine ⟨⟨hfaultless, Or.inr hacc⟩, List.Forall₂.cons ⟨hnames, hjoined⟩ hall, ?_⟩
        intro r hr
        rcases List.mem_cons.mp hr with rfl | hr
        · exact hfile
        · exact hfiles r hr

/-- A file recorded for a cut part has the name and the size of the form part. -/
def SizedAs (p : FormPart) (q : LinePart) : Prop :=
  p.filename = (lineNames q).2 ∧ p.content.length = (joined q.body).length

/-- When the files of the cut have the names and sizes of the form's parts,
every part of the form came back. -/
theorem comesBack_of_sized (hlf : lf ∉ delimiterOf boundary)
    (hepilogue : epilogue = [] ∨ crlf <+: epilogue) {parts : List FormPart} {n : Nat}
    (hcount : parts.length ≤ n) (hparts : ∀ p ∈ parts, Admissible limits boundary p)
    (hsized : List.Forall₂ SizedAs parts
      ((cutParts (delimiterOf boundary) n
        ((formLines (delimiterOf boundary) epilogue parts).tail.map dropCr)).filter
          fun q => IsFile q)) :
    ∀ p ∈ parts, ComesBack boundary p := by
  induction parts generalizing n with
  | nil => simp
  | cons p ps ih =>
      obtain ⟨n, rfl⟩ : ∃ m, n = m + 1 := ⟨n - 1, by rw [List.length_cons] at hcount; omega⟩
      have hp := hparts p (by simp)
      have hps : ∀ q ∈ ps, lf ∉ q.header := fun q hq =>
        have h := hparts q (by simp [hq])
        lf_not_mem_header h.name h.filename
      -- the first file of the cut stands for `p`, so `p` names a file
      have hname : p.filename ≠ [] := by
        cases hsized' : (cutParts (delimiterOf boundary) (n + 1)
            ((formLines (delimiterOf boundary) epilogue (p :: ps)).tail.map dropCr)).filter
              fun q => IsFile q with
        | nil => rw [hsized'] at hsized; cases hsized
        | cons q qs =>
            rw [hsized'] at hsized
            cases hsized with
            | cons hq _ =>
                have hmem : q ∈ q :: qs := by simp
                rw [← hsized', List.mem_filter, decide_eq_true_eq] at hmem
                rw [hq.1]
                exact hmem.2
      have hplain : Plain boundary p.content := by
        by_contra hplain
        obtain ⟨q, rest, hcut, hnames, hshort⟩ := cutParts_not_plain hlf hp.name hp.filename
          hps hepilogue hplain n
        have hfile : IsFile q := by rw [IsFile, hnames]; exact hname
        rw [hcut, List.filter_cons_of_pos (by simpa using hfile)] at hsized
        cases hsized with
        | cons hq _ => exact absurd hq.2 (by omega)
      rw [cutParts_plain hlf hp.name hp.filename hps hepilogue hplain] at hsized
      have hfile : IsFile { headers := [p.header], body := p.content.splitOn lf
                            ending := some (delimiterLine (delimiterOf boundary) ps) } := by
        rw [IsFile, lineNames_form hp.name hp.filename]
        exact hname
      rw [List.filter_cons_of_pos (by simpa using hfile)] at hsized
      cases hsized with
      | cons _ hrest =>
          intro q hq
          rcases List.mem_cons.mp hq with rfl | hq
          · exact ⟨hname, hplain⟩
          · have hne : ps ≠ [] := by rintro rfl; cases hq
            rw [if_neg hne] at hrest
            exact ih (by rw [List.length_cons] at hcount; omega)
              (fun r hr => hparts r (by simp [hr])) hrest q hq

theorem forall₂_join {α β γ : Type} {R : α → γ → Prop} {S : β → γ → Prop} {T : α → β → Prop}
    (hjoin : ∀ a b c, R a c → S b c → T a b) {as : List α} {bs : List β} {cs : List γ}
    (hR : List.Forall₂ R as cs) (hS : List.Forall₂ S bs cs) : List.Forall₂ T as bs := by
  induction hR generalizing bs with
  | nil => cases hS; exact List.Forall₂.nil
  | cons hab _ ih =>
      cases hS with
      | cons hcb hrest => exact List.Forall₂.cons (hjoin _ _ _ hab hcb) (ih hrest)

theorem forall₂_compose {α β γ : Type} {R : α → β → Prop} {S : β → γ → Prop} {T : α → γ → Prop}
    (hcomp : ∀ a b c, R a b → S b c → T a c) {as : List α} {bs : List β} {cs : List γ}
    (hR : List.Forall₂ R as bs) (hS : List.Forall₂ S bs cs) : List.Forall₂ T as cs :=
  forall₂_join (fun a c b hab hcb => hcomp a b c hab hcb) hR hS.flip

theorem forall₂_and {α β : Type} {R S : α → β → Prop} {as : List α} {bs : List β}
    (hR : List.Forall₂ R as bs) (hS : List.Forall₂ S as bs) :
    List.Forall₂ (fun a b => R a b ∧ S a b) as bs := by
  induction hR with
  | nil => exact List.Forall₂.nil
  | cons hab _ ih =>
      cases hS with
      | cons hab' hrest => exact List.Forall₂.cons ⟨hab, hab'⟩ (ih hrest)

/-- An accepted run that stored the files of a cut has stored the parts they were
cut as. -/
theorem UploadStored.storesExactly {uploadDirectory : Path} {cut : List LinePart}
    {new : List MultipartSavedFile} {st st' : Uploads}
    (h : UploadStored env uploadDirectory cut new st st') {parts : List FormPart}
    (hcut : List.Forall₂ CutAs parts (cut.filter fun q => IsFile q)) (hwrites : env.WritesSucceed)
    (hclock : Function.Injective env.micros) :
    StoresExactly uploadDirectory st.dir parts (.ok (accept new), st') := by
  refine ⟨accept new, rfl, rfl, ?_, h.distinct hclock, h.others⟩
  have hboth := forall₂_and h.recorded (h.holds hwrites hclock)
  refine forall₂_compose (fun p q f hpq hqf => ?_) hcut hboth
  exact
    { fieldName := by rw [hqf.1.fieldName, hpq.1]
      originalFilename := by rw [hqf.1.originalFilename, hpq.1]
      storedPath := hqf.1.storedPath
      content := by rw [hqf.2, hpq.2]
      size := by rw [hqf.1.size, hpq.2] }

/-- Where the upload starts on the parts of a standard form. -/
theorem behindDelimiter_form {contentType : Bytes}
    (hboundary : Multipart.extractBoundary contentType = some boundary)
    (hdirs : env.createDirectories = .ok ()) {parts : List FormPart} (hne : parts ≠ [])
    (hheader : ∀ p ∈ parts, lf ∉ p.header) (hepilogue : epilogue = [] ∨ crlf <+: epilogue)
    (hlimits : ¬ (limits.maxParts = 0 ∨ limits.maxFileBytes = 0)) :
    behindDelimiter env (some (encodeForm boundary parts ++ epilogue)) contentType limits =
      some (delimiterOf boundary,
        (formLines (delimiterOf boundary) epilogue parts).tail) := by
  obtain ⟨d, hlines, hd⟩ := formLines_head (lf_not_mem_delimiter hboundary) hepilogue parts
    hheader
  rw [delimiterLine, if_neg hne] at hd
  have hget : getlines (encodeForm boundary parts ++ epilogue) =
      d :: (formLines (delimiterOf boundary) epilogue parts).tail := hlines
  unfold behindDelimiter
  simp only [hboundary, hdirs, hget]
  rw [if_neg (by tauto)]

/-- A form spooled in the standard encoding is stored exactly when the limit
on file sizes is not zero and every part comes back from its lines: it names a
file, its content holds no CRLF, and no line of its content reads as a
delimiter. -/
theorem streamed_upload_exact_iff {contentType : Bytes} {parts : List FormPart}
    (hboundary : Multipart.extractBoundary contentType = some boundary)
    (hne : parts ≠ []) (hcount : parts.length ≤ limits.maxParts)
    (hparts : ∀ p ∈ parts, Admissible limits boundary p)
    (hepilogue : epilogue = [] ∨ crlf <+: epilogue)
    (hdirs : env.createDirectories = .ok ()) (hcreate : ∀ k, env.canCreate k = true)
    (hwrites : env.WritesSucceed) (hclock : Function.Injective env.micros)
    (uploadDirectory : Path) (st : Uploads) :
    StoresExactly uploadDirectory st.dir parts
        (Multipart.saveUploadsFromSpoolFile env (some (encodeForm boundary parts ++ epilogue))
          contentType uploadDirectory limits st) ↔
      limits.maxFileBytes ≠ 0 ∧ ∀ p ∈ parts, ComesBack boundary p := by
  have hlf := lf_not_mem_delimiter hboundary
  have hheader : ∀ p ∈ parts, lf ∉ p.header := fun p hp =>
    lf_not_mem_header (hparts p hp).name (hparts p hp).filename
  have hpos : 0 < parts.length := List.length_pos_iff.mpr hne
  by_cases hzero : limits.maxFileBytes = 0
  · refine iff_of_false ?_ fun h => h.1 hzero
    rintro ⟨result, hresult, hok, -⟩
    have hearly : behindDelimiter env (some (encodeForm boundary parts ++ epilogue))
        contentType limits = none := by
      unfold behindDelimiter
      simp only [hboundary, hdirs, hzero, true_or, or_true, if_true]
      split <;> rfl
    obtain ⟨answer, hrun, hrefused⟩ := saveUploadsFromSpoolFile_early hearly uploadDirectory st
    rw [hrun] at hresult
    exact absurd (hrefused result hresult) (by simp [hok])
  · have hbehind := behindDelimiter_form hboundary hdirs hne
      hheader hepilogue (show ¬ (limits.maxParts = 0 ∨ limits.maxFileBytes = 0) by omega)
    rw [saveUploadsFromSpoolFile_parts hbehind]
    set lines := (formLines (delimiterOf boundary) epilogue parts).tail with hlines
    constructor
    · rintro ⟨result, hresult, hok, hstored, -, -⟩
      refine ⟨hzero, ?_⟩
      by_cases hacc : AllAccepted env limits (delimiterOf boundary) st.opened
          (cutParts (delimiterOf boundary) limits.maxParts (lines.map dropCr))
      · obtain ⟨new, st', hrun, hnew⟩ := spoolLoop_accepted uploadDirectory limits.maxParts
          lines [] st hacc
        rw [hrun] at hresult hstored
        cases hresult
        refine comesBack_of_sized hlf hepilogue hcount hparts ?_
        refine forall₂_join (fun p q f hp hq => ?_) hstored hnew.recorded
        exact ⟨hp.originalFilename.symm.trans hq.originalFilename, hp.size.symm.trans hq.size⟩
      · have hrefused := spoolLoop_refused uploadDirectory limits.maxParts lines [] st hacc
        cases hresult
        exact absurd hok (by simp [hrefused])
    · rintro ⟨-, hback⟩
      obtain ⟨hacc, hcut, hfiles⟩ := cutParts_comesBack hlf hepilogue hcreate hne
        hcount hparts hback st.opened
      obtain ⟨new, st', hrun, hnew⟩ := spoolLoop_accepted uploadDirectory limits.maxParts
        lines [] st hacc
      have hall : (cutParts (delimiterOf boundary) limits.maxParts
          (lines.map dropCr)).filter (fun q => IsFile q) =
          cutParts (delimiterOf boundary) limits.maxParts (lines.map dropCr) :=
        List.filter_eq_self.mpr fun q hq => by simpa using hfiles q hq
      rw [hrun]
      exact hnew.storesExactly (by rw [hall]; exact hcut) hwrites hclock

end Whole

/-- Two small text files. -/
def textFiles : List FormPart :=
  [{ name := bytes "f", filename := bytes "a.txt", content := bytes "one\ntwo\n" },
    { name := bytes "g", filename := bytes "b.txt", content := [] }]

/-- The type of a form with boundary `B`. -/
def formType : Bytes := bytes "multipart/form-data; boundary=B"

theorem textFiles_stored :
    StoresExactly { names := [bytes "uploads"] } [] textFiles
      (Multipart.saveUploadsFromSpoolFile { micros := id }
        (some (encodeForm (bytes "B") textFiles ++ [])) formType
        { names := [bytes "uploads"] } {} {}) := by
  refine (streamed_upload_exact_iff (by decide) (by decide) (by decide) ?_ (Or.inl rfl) rfl
    (fun _ => rfl) (fun _ => rfl) Function.injective_id _ {}).mpr
    ⟨by decide, fun p hp => ?_⟩
  · intro p hp
    have hmem : p ∈ [textFiles.head (by decide), textFiles.getLast (by decide)] := hp
    rcases List.mem_pair.mp hmem with rfl | rfl
    · exact ⟨by decide, by decide, by decide, by decide, by decide⟩
    · exact ⟨by decide, by decide, by decide, by decide, by decide⟩
  · have hmem : p ∈ [textFiles.head (by decide), textFiles.getLast (by decide)] := hp
    rcases List.mem_pair.mp hmem with rfl | rfl
    · exact ⟨by decide, by decide⟩
    · exact ⟨by decide, by decide⟩

/-- A text file with a CRLF in it. -/
def dosFile : FormPart :=
  { name := bytes "f", filename := bytes "a.txt", content := bytes "one\r\ntwo" }

/-- The CRLF of an admissible file is stored as a line feed. -/
theorem dosFile_not_stored :
    Multipart.extractBoundary formType = some (bytes "B") ∧
      Admissible {} (bytes "B") dosFile ∧
      ¬ StoresExactly {} [] [dosFile]
        (Multipart.saveUploadsFromSpoolFile { micros := id }
          (some (encodeForm (bytes "B") [dosFile])) formType {} {} {}) := by
  refine ⟨by decide, ⟨by decide, by decide, by decide, by decide, by decide⟩, ?_⟩
  have hrun : Multipart.saveUploadsFromSpoolFile { micros := id }
      (some (encodeForm (bytes "B") [dosFile])) formType {} {} {} =
      (.ok (accept [{ fieldName := bytes "f", originalFilename := bytes "a.txt"
                      storedFilename := bytes "0_a.txt"
                      storedPath := { names := [bytes "0_a.txt"] }, size := 7 }]),
        { dir := [(bytes "0_a.txt", bytes "one\ntwo")], opened := 1, writes := 3 }) := by
    decide
  rw [hrun]
  rintro ⟨result, hresult, -, hfiles, -⟩
  cases hresult
  cases hfiles with
  | cons hfile _ => exact absurd hfile.size (by decide)

end HydrogenHttpd.Ref
