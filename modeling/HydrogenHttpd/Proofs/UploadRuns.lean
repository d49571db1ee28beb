import HydrogenHttpd.Proofs.UploadParts

/-!
# Whole uploads

`spoolLoop` against `cutParts`, one part at a time. `spoolLoop_part` is the
step: on a faultless part the loop records it (`PartStored`) and goes on with
the lines behind it, on any other it returns a refusal. The run lemmas follow
by induction on the parts still allowed: `spoolLoop_accepted` says what an
accepted upload recorded and stored, `spoolLoop_refused` that every other
upload is refused, and `spoolLoop_untouched` and `spoolLoop_touched` when the
directory was written to.
-/

namespace HydrogenHttpd.Ref

open Base Spec

/-! ## The first part of some lines -/

/-- The lines of a first part: no empty line behind its headers, or no
delimiter behind its content, or a delimiter and what is left. -/
inductive FirstPart (delimiter : Bytes) : List Bytes → Prop where
  | headless (headers : List Bytes) (hheaders : ∀ l ∈ headers, dropCr l ≠ []) :
      FirstPart delimiter headers
  | unclosed (headers : List Bytes) (e : Bytes) (body : List Bytes)
      (hheaders : ∀ l ∈ headers, dropCr l ≠ []) (he : dropCr e = [])
      (hbody : ∀ l ∈ body, ¬ IsDelimiter delimiter (dropCr l)) :
      FirstPart delimiter (headers ++ e :: body)
  | closed (headers : List Bytes) (e : Bytes) (body : List Bytes) (d : Bytes)
      (rest : List Bytes) (hheaders : ∀ l ∈ headers, dropCr l ≠ []) (he : dropCr e = [])
      (hbody : ∀ l ∈ body, ¬ IsDelimiter delimiter (dropCr l))
      (hd : IsDelimiter delimiter (dropCr d)) :
      FirstPart delimiter (headers ++ e :: (body ++ d :: rest))

theorem firstPart (delimiter : Bytes) (lines : List Bytes) : FirstPart delimiter lines := by
  rcases find?_split_or_all (fun l => dropCr l = []) lines with hall |
    ⟨headers, e, behind, rfl, hheaders, he⟩
  · exact .headless lines fun l hl => by simpa using hall l hl
  · have hh : ∀ l ∈ headers, dropCr l ≠ [] := fun l hl => by simpa using hheaders l hl
    rcases find?_split_or_all (fun l => IsDelimiter delimiter (dropCr l)) behind with hall |
      ⟨body, d, rest, rfl, hbody, hd⟩
    · exact .unclosed headers e behind hh (by simpa using he) fun l hl => by simpa using hall l hl
    · exact .closed headers e body d rest hh (by simpa using he)
        (fun l hl => by simpa using hbody l hl) (by simpa using hd)

section Cut

variable {delimiter : Bytes} {headers body : List Bytes}

theorem cutParts_headless (n : Nat) (hheaders : ∀ l ∈ headers, dropCr l ≠ []) :
    cutParts delimiter (n + 1) (headers.map dropCr) =
      [{ headers := headers.map dropCr, body := [], ending := none }] := by
  have hall : ∀ l ∈ headers.map dropCr, decide (l ≠ []) = true := by
    intro l hl
    obtain ⟨m, hm, rfl⟩ := List.mem_map.mp hl
    simpa using hheaders m hm
  rw [cutParts, List.takeWhile_eq_self_iff.mpr hall, List.dropWhile_eq_nil_iff.mpr hall]
  rfl

theorem cutParts_headers {e : Bytes} (n : Nat) (hheaders : ∀ l ∈ headers, dropCr l ≠ [])
    (he : dropCr e = []) (behind : List Bytes) :
    cutParts delimiter (n + 1) ((headers ++ e :: behind).map dropCr) =
      match (behind.map dropCr).dropWhile (fun l => ¬ IsDelimiter delimiter l) with
      | [] => [{ headers := headers.map dropCr
                 body := (behind.map dropCr).takeWhile (fun l => ¬ IsDelimiter delimiter l)
                 ending := none }]
      | d :: rest =>
          { headers := headers.map dropCr
            body := (behind.map dropCr).takeWhile (fun l => ¬ IsDelimiter delimiter l)
            ending := some d } ::
            if d = delimiter ++ dashes then [] else cutParts delimiter n rest := by
  have hall : ∀ l ∈ headers.map dropCr, decide (l ≠ []) = true := by
    intro l hl
    obtain ⟨m, hm, rfl⟩ := List.mem_map.mp hl
    simpa using hheaders m hm
  rw [cutParts, List.map_append, List.map_cons, he, List.takeWhile_append_of_pos hall,
    List.dropWhile_append_of_pos hall, List.takeWhile_cons_of_neg (by simp),
    List.dropWhile_cons_of_neg (by simp), List.append_nil]
  rfl

theorem cutParts_unclosed {e : Bytes} (n : Nat) (hheaders : ∀ l ∈ headers, dropCr l ≠ [])
    (he : dropCr e = []) (hbody : ∀ l ∈ body, ¬ IsDelimiter delimiter (dropCr l)) :
    cutParts delimiter (n + 1) ((headers ++ e :: body).map dropCr) =
      [{ headers := headers.map dropCr, body := body.map dropCr, ending := none }] := by
  have hall : ∀ l ∈ body.map dropCr, decide (¬ IsDelimiter delimiter l) = true := by
    intro l hl
    obtain ⟨m, hm, rfl⟩ := List.mem_map.mp hl
    simpa using hbody m hm
  rw [cutParts_headers n hheaders he, List.takeWhile_eq_self_iff.mpr hall,
    List.dropWhile_eq_nil_iff.mpr hall]

theorem cutParts_closed {e d : Bytes} (n : Nat) (hheaders : ∀ l ∈ headers, dropCr l ≠ [])
    (he : dropCr e = []) (hbody : ∀ l ∈ body, ¬ IsDelimiter delimiter (dropCr l))
    (hd : IsDelimiter delimiter (dropCr d)) (rest : List Bytes) :
    cutParts delimiter (n + 1) ((headers ++ e :: (body ++ d :: rest)).map dropCr) =
      { headers := headers.map dropCr, body := body.map dropCr, ending := some (dropCr d) } ::
        if dropCr d = delimiter ++ dashes then []
        else cutParts delimiter n (rest.map dropCr) := by
  have hall : ∀ l ∈ body.map dropCr, decide (¬ IsDelimiter delimiter l) = true := by
    intro l hl
    obtain ⟨m, hm, rfl⟩ := List.mem_map.mp hl
    simpa using hbody m hm
  rw [cutParts_headers n hheaders he, List.map_append, List.map_cons,
    List.takeWhile_append_of_pos hall, List.dropWhile_append_of_pos hall,
    List.takeWhile_cons_of_neg (by simpa using hd),
    List.dropWhile_cons_of_neg (by simpa using hd), List.append_nil]

end Cut

/-! ## One part -/

/-- The result's entry for a file part. -/
structure Recorded (uploadDirectory : Path) (p : LinePart) (file : MultipartSavedFile) :
    Prop where
  fieldName : file.fieldName = (lineNames p).1
  originalFilename : file.originalFilename = (lineNames p).2
  storedPath : file.storedPath = uploadDirectory / Path.ofBytes file.storedFilename
  size : file.size = (joined p.body).length

/-- The file of a part holds the text of its lines. -/
def Holds (dir : List (Bytes × Bytes)) (p : LinePart) (file : MultipartSavedFile) : Prop :=
  dir.lookup file.storedFilename = some (joined p.body)

/-- What a faultless part adds to the result and does to the directory. -/
structure PartStored (env : UploadEnv) (uploadDirectory : Path) (p : LinePart)
    (new : List MultipartSavedFile) (st st' : Uploads) : Prop where
  recorded : List.Forall₂ (Recorded uploadDirectory) (if IsFile p then [p] else []) new
  names : ∀ f ∈ new, ∃ clean, f.storedFilename = storedNameAt env st.opened clean
  opened : st'.opened = if IsFile p then st.opened + 1 else st.opened
  others : ∀ name, (∀ f ∈ new, name ≠ f.storedFilename) →
    st'.dir.lookup name = st.dir.lookup name
  holds : env.WritesSucceed →
    List.Forall₂ (Holds st'.dir) (if IsFile p then [p] else []) new
  field : ¬ IsFile p → st' = st
  file : IsFile p → st'.dir ≠ []

/-- A refusal, and what it did to the directory. -/
def PartRefused (env : UploadEnv) (p : LinePart) (st : Uploads)
    (run : MultipartResult × Uploads) : Prop :=
  run.1.ok = false ∧ (st.dir ≠ [] → run.2.dir ≠ []) ∧
    if IsFile p ∧ Creatable env st.opened p then run.2.dir ≠ [] else run.2.dir = st.dir

/-- A part once it was opened, before any of its content is read. -/
structure Opened (env : UploadEnv) (p : LinePart) (st : Uploads) (q : PartState)
    (st' : Uploads) : Prop where
  creatable : IsFile p → Creatable env st.opened p
  taken : q.taken = 0
  pending : q.pending = none
  isSome : q.out.isSome = decide (IsFile p)
  fieldName : q.fieldName = (lineNames p).1
  field : ¬ IsFile p → st' = st
  original : IsFile p → q.originalFilename = (lineNames p).2
  stored : IsFile p → q.storedName =
    storedNameAt env st.opened (Multipart.sanitizeFilename (lineNames p).2)
  out : IsFile p → q.out = some { name := q.storedName }
  file : IsFile p →
    st' = { st with dir := put q.storedName [] st.dir, opened := st.opened + 1 }

section Opened

variable {env : UploadEnv} {p : LinePart} {st st' : Uploads} {q : PartState}

theorem Opened.limit (h : Opened env p st q st') (limits : MultipartLimits) :
    q.limit limits = if IsFile p then limits.maxFileBytes else limits.maxFieldBytes := by
  rw [PartState.limit, h.isSome]
  by_cases hfile : IsFile p <;> simp [hfile]

/-- A part refused after it was opened leaves its file behind, if it is one. -/
theorem Opened.refused {st'' : Uploads} {q' : PartState} {data : Bytes}
    (h : Opened env p st q st') (hadv : Advances env q q' st' st'' data)
    {result : MultipartResult} (hok : result.ok = false) :
    PartRefused env p st (result, st'') := by
  by_cases hfile : IsFile p
  · have hne : st''.dir ≠ [] := hadv.nonempty (by rw [h.file hfile]; exact put_ne_nil _ _ _)
    refine ⟨hok, fun _ => hne, ?_⟩
    rw [if_pos ⟨hfile, h.creatable hfile⟩]
    exact hne
  · have hout : q.out = none := by simpa [hfile] using h.isSome
    have hst : st'' = st := (hadv.field hout).trans (h.field hfile)
    refine ⟨hok, fun hne => by rw [hst]; exact hne, ?_⟩
    rw [if_neg fun h => hfile h.1, hst]

theorem partStored_field (env : UploadEnv) (uploadDirectory : Path) {p : LinePart}
    (hfile : ¬ IsFile p) (st : Uploads) : PartStored env uploadDirectory p [] st st where
  recorded := by rw [if_neg hfile]; exact List.Forall₂.nil
  names := by simp
  opened := by rw [if_neg hfile]
  others _ _ := rfl
  holds _ := by rw [if_neg hfile]; exact List.Forall₂.nil
  field _ := rfl
  file h := absurd h hfile

theorem opened_file (hfile : IsFile p) (hcreate : Creatable env st.opened p) :
    let q := filePart env (p.headers.map (· ++ crlf)).flatten st.opened
    Opened env p st q { st with dir := put q.storedName [] st.dir, opened := st.opened + 1 } :=
  ⟨fun _ => hcreate, rfl, rfl, by simp [filePart, hfile], rfl, absurd hfile,
    fun _ => rfl, fun _ => rfl, fun _ => rfl, fun _ => rfl⟩

/-- A part that took its whole content and is closed. -/
theorem Opened.closed {st'' : Uploads} {q' : PartState} (h : Opened env p st q st')
    (hadv : Advances env q q' st' st'' (joined p.body)) (uploadDirectory : Path)
    (files : List MultipartSavedFile) :
    ∃ new, closePart uploadDirectory files q' = files ++ new ∧
      PartStored env uploadDirectory p new st st'' := by
  by_cases hfile : IsFile p
  · have hout : ∃ o, q'.out = some o := by
      rw [← Option.isSome_iff_exists, hadv.isSome, h.isSome]
      simpa using hfile
    obtain ⟨o, ho⟩ := hout
    have hnew : ∀ old, st'.dir.lookup q.storedName = some old → old = [] := by
      intro old hold
      rw [h.file hfile] at hold
      simpa using hold.symm
    refine ⟨_, by rw [closePart, ho], ?_⟩
    refine
      { recorded := ?_, names := ?_, opened := ?_, others := ?_, holds := ?_
        field := absurd hfile
        file := fun _ => hadv.nonempty (by rw [h.file hfile]; exact put_ne_nil _ _ _) }
    · rw [if_pos hfile]
      refine List.Forall₂.cons ⟨?_, ?_, rfl, ?_⟩ List.Forall₂.nil
      · exact hadv.fieldName.trans h.fieldName
      · exact hadv.originalFilename.trans (h.original hfile)
      · have htaken := hadv.taken
        rw [h.taken, PartState.taken, ho] at htaken
        simpa using htaken
    · intro f hf
      rw [List.mem_singleton.mp hf]
      exact ⟨_, hadv.storedName.trans (h.stored hfile)⟩
    · rw [hadv.opened, h.file hfile, if_pos hfile]
    · intro name hname
      have hne : name ≠ q.storedName := by
        rw [← hadv.storedName]
        exact hname _ (List.mem_singleton.mpr rfl)
      rw [hadv.others name fun o' ho' => ?_, h.file hfile]
      · exact lookup_put_of_ne hne _ _
      · rw [h.out hfile] at ho'
        cases ho'
        exact hne
    · intro hw
      obtain ⟨-, hstores⟩ := hadv.stores hw _ (h.out hfile) rfl
      rw [if_pos hfile]
      refine List.Forall₂.cons ?_ List.Forall₂.nil
      have hempty : st'.dir.lookup q.storedName = some [] := by
        rw [h.file hfile]
        exact lookup_put_self _ _ _
      rw [Holds]
      simp only [hadv.storedName]
      exact hstores [] hempty
  · have hout : q.out = none := by simpa [hfile] using h.isSome
    have hout' : q'.out = none := by
      have := hadv.isSome
      rw [hout] at this
      simpa using this
    have hst : st'' = st := (hadv.field hout).trans (h.field hfile)
    refine ⟨[], by rw [closePart, hout', List.append_nil], ?_⟩
    subst hst
    exact partStored_field env uploadDirectory hfile st''

end Opened

section Step

variable (env : UploadEnv) (uploadDirectory : Path) (limits : MultipartLimits)
  (delimiter : Bytes) (files : List MultipartSavedFile)

/-- Opening a part, by what the part calls for. -/
theorem openPart_cases (p : LinePart) (st : Uploads) :
    (IsFile p ∧ ¬ Creatable env st.opened p ∧ ∃ result st',
      openPart env files (p.headers.map (· ++ crlf)).flatten st = (.error result, st') ∧
        result.ok = false ∧ st'.dir = st.dir) ∨
      ∃ q st', openPart env files (p.headers.map (· ++ crlf)).flatten st = (.ok q, st') ∧
        Opened env p st q st' := by
  by_cases hfile : IsFile p
  · by_cases hcreate : Creatable env st.opened p
    · exact Or.inr ⟨_, _, openPart_file hfile hcreate.1 hcreate.2 files,
        opened_file hfile hcreate⟩
    · exact Or.inl ⟨hfile, hcreate, openPart_refused hfile hcreate files⟩
  · have hname : (partNames (p.headers.map (· ++ crlf)).flatten).2 = [] := by
      simpa [IsFile, lineNames] using hfile
    refine Or.inr ⟨_, _, openPart_field hname files st, ?_⟩
    exact ⟨fun h => absurd h hfile, rfl, rfl, by simp [hfile], rfl, fun _ => rfl,
      fun h => absurd h hfile, fun h => absurd h hfile, fun h => absurd h hfile,
      fun h => absurd h hfile⟩

/-- The step of the loop over the parts, with the first of its lines' parts at
fault or without. -/
inductive PartStep (env : UploadEnv) (uploadDirectory : Path) (limits : MultipartLimits)
    (delimiter : Bytes) (allowed : Nat) (files : List MultipartSavedFile) (st : Uploads) :
    List LinePart → MultipartResult × Uploads → Prop where
  | refused (p : LinePart) (ps : List LinePart) (run : MultipartResult × Uploads)
      (hfault : ¬ Faultless env limits st.opened p) (hrun : PartRefused env p st run) :
      PartStep env uploadDirectory limits delimiter allowed files st (p :: ps) run
  | last (p : LinePart) (new : List MultipartSavedFile) (st' : Uploads)
      (hp : Faultless env limits st.opened p) (hend : p.ending = some (delimiter ++ dashes))
      (hstored : PartStored env uploadDirectory p new st st') :
      PartStep env uploadDirectory limits delimiter allowed files st [p]
        (accept (files ++ new), st')
  | next (p : LinePart) (new : List MultipartSavedFile) (st' : Uploads) (rest : List Bytes)
      (hp : Faultless env limits st.opened p) (hend : p.ending ≠ some (delimiter ++ dashes))
      (hstored : PartStored env uploadDirectory p new st st') :
      PartStep env uploadDirectory limits delimiter allowed files st
        (p :: cutParts delimiter allowed (rest.map dropCr))
        (spoolLoop env uploadDirectory limits delimiter allowed rest (files ++ new) st')

/-- A part that no delimiter ends is refused, with its file behind if it has one. -/
theorem spoolLoop_unended {headers behind lines : List Bytes} (rest : Option (List Bytes))
    (allowed : Nat) (st : Uploads)
    (hread : readPartHeaders lines [] =
      ((headers.map fun l => dropCr l ++ crlf).flatten, rest))
    (hbehind : rest.getD [] = behind)
    (hbody : ∀ l ∈ behind, ¬ IsDelimiter delimiter (dropCr l)) (body : List Bytes) :
    PartRefused env { headers := headers.map dropCr, body := body, ending := none } st
      (spoolLoop env uploadDirectory limits delimiter (allowed + 1) lines files st) := by
  set p : LinePart := { headers := headers.map dropCr, body := body, ending := none } with hp
  have hraw : (headers.map fun l => dropCr l ++ crlf).flatten =
      (p.headers.map (· ++ crlf)).flatten := by
    rw [hp, List.map_map]
    rfl
  rw [spoolLoop, hread]
  simp only []
  split
  · next h =>
      have hfield : ¬ IsFile p := by
        rw [IsFile, lineNames, ← hraw, h.2]
        exact fun h => h rfl
      refine ⟨rfl, id, ?_⟩
      rw [if_neg fun h => hfield h.1]
  · rw [hraw, hbehind]
    rcases openPart_cases env files p st with
      ⟨hfile, hcreate, result, st', hopen, hok, hdir⟩ | ⟨q, st', hopen, hopened⟩
    · rw [hopen]
      refine ⟨hok, fun hne => by simpa [hdir] using hne, ?_⟩
      rw [if_neg fun h => hcreate h.2]
      exact hdir
    · rw [hopen]
      have hinv : q.taken ≤ q.limit limits := by rw [hopened.taken]; exact Nat.zero_le _
      obtain ⟨e, st'', hloop, hend⟩ := contentLoop_unclosed env uploadDirectory limits files
        hbody st' hinv
      obtain ⟨q', data, hadv⟩ := contentLoop_advances env uploadDirectory limits files delimiter
        behind st' hinv
      rw [hloop] at hadv
      simp only [hloop]
      rcases hend with rfl | ⟨result, rfl, hok⟩
      · exact hopened.refused hadv rfl
      · exact hopened.refused hadv hok

/-- What the loop does with the first part of its lines. -/
theorem spoolLoop_part (allowed : Nat) (lines : List Bytes) (st : Uploads) :
    PartStep env uploadDirectory limits delimiter allowed files st
      (cutParts delimiter (allowed + 1) (lines.map dropCr))
      (spoolLoop env uploadDirectory limits delimiter (allowed + 1) lines files st) := by
  have hunended : ∀ {headers body : List Bytes} (k : Nat),
      ¬ Faultless env limits k { headers := headers, body := body, ending := none } :=
    fun k h => by simpa using h.1
  cases firstPart delimiter lines with
  | headless headers hheaders =>
      rw [cutParts_headless allowed hheaders]
      exact .refused _ _ _ (hunended _) (spoolLoop_unended env uploadDirectory limits delimiter
        files none allowed st (readPartHeaders_open hheaders []) rfl (by simp) [])
  | unclosed headers e body hheaders he hbody =>
      rw [cutParts_unclosed allowed hheaders he hbody]
      exact .refused _ _ _ (hunended _) (spoolLoop_unended env uploadDirectory limits delimiter
        files (some body) allowed st (readPartHeaders_closed body hheaders he []) rfl hbody _)
  | closed headers e body d rest hheaders he hbody hd =>
      rw [cutParts_closed allowed hheaders he hbody hd]
      set p : LinePart :=
        { headers := headers.map dropCr, body := body.map dropCr, ending := some (dropCr d) }
        with hp
      have hraw : (headers.map fun l => dropCr l ++ crlf).flatten =
          (p.headers.map (· ++ crlf)).flatten := by
        rw [hp, List.map_map]
        rfl
      rw [spoolLoop, readPartHeaders_closed _ hheaders he []]
      simp only [List.nil_append, reduceCtorEq, false_and, if_false, Option.getD_some, hraw]
      rcases openPart_cases env files p st with
        ⟨hfile, hcreate, result, st', hopen, hok, hdir⟩ | ⟨q, st', hopen, hopened⟩
      · rw [hopen]
        refine .refused _ _ _ (fun h => hcreate (h.2.2 hfile)) ⟨hok, fun hne => ?_, ?_⟩
        · simpa [hdir] using hne
        · rw [if_neg fun h => hcreate h.2]
          exact hdir
      · rw [hopen]
        have hheld : heldText q body = joined p.body := by
          rw [heldText, hopened.pending]
          rfl
        by_cases hfit : (joined p.body).length ≤ q.limit limits
        · obtain ⟨q', st'', hadv, hloop⟩ := contentLoop_closes env uploadDirectory limits files
            hbody hd rest (p := q) st' (by rw [hopened.taken, hheld]; omega)
          rw [hheld] at hadv
          obtain ⟨new, hclose, hstored⟩ := hopened.closed hadv uploadDirectory files
          have hfaultless : Faultless env limits st.opened p :=
            ⟨rfl, by rw [← hopened.limit limits]; exact hfit, hopened.creatable⟩
          simp only [hloop, hclose]
          by_cases hfinal : dropCr d = delimiter ++ dashes
          · rw [if_pos hfinal, if_pos hfinal]
            exact .last p new st'' hfaultless (by rw [hp, hfinal]) hstored
          · rw [if_neg hfinal, if_neg hfinal]
            exact .next p new st'' rest hfaultless (by simpa [hp] using hfinal) hstored
        · have hinv : q.taken ≤ q.limit limits := by rw [hopened.taken]; exact Nat.zero_le _
          obtain ⟨error, st'', hloop⟩ := contentLoop_overflows env uploadDirectory limits files d
            hbody rest (p := q) st' hinv (by rw [hopened.taken, hheld]; omega)
          obtain ⟨q', data, hadv⟩ := contentLoop_advances env uploadDirectory limits files delimiter
            (body ++ d :: rest) st' hinv
          rw [hloop] at hadv
          simp only [hloop]
          refine .refused _ _ _ (fun h => hfit ?_) (hopened.refused hadv rfl)
          rw [hopened.limit limits]
          exact h.2.1

end Step

/-! ## All parts -/

/-- What an accepted run of parts recorded and stored. -/
structure UploadStored (env : UploadEnv) (uploadDirectory : Path) (parts : List LinePart)
    (new : List MultipartSavedFile) (st st' : Uploads) : Prop where
  recorded : List.Forall₂ (Recorded uploadDirectory) (parts.filter fun p => IsFile p) new
  names : ∀ f ∈ new, ∃ k, st.opened ≤ k ∧ ∃ clean, f.storedFilename = storedNameAt env k clean
  distinct : Function.Injective env.micros → (new.map (·.storedFilename)).Nodup
  others : ∀ name, (∀ f ∈ new, name ≠ f.storedFilename) →
    st'.dir.lookup name = st.dir.lookup name
  holds : env.WritesSucceed → Function.Injective env.micros →
    List.Forall₂ (Holds st'.dir) (parts.filter fun p => IsFile p) new

theorem filter_isFile_cons (p : LinePart) (ps : List LinePart) :
    (p :: ps).filter (fun p => IsFile p) =
      (if IsFile p then [p] else []) ++ ps.filter fun p => IsFile p := by
  by_cases hfile : IsFile p <;> simp [hfile]

theorem PartStored.distinct {env : UploadEnv} {uploadDirectory : Path} {p : LinePart}
    {new : List MultipartSavedFile} {st st' : Uploads}
    (h : PartStored env uploadDirectory p new st st') :
    (new.map (·.storedFilename)).Nodup := by
  have hlen := h.recorded.length_eq
  have hle : new.length ≤ 1 := by
    rw [← hlen]
    split <;> simp
  match new, hle with
  | [], _ => exact List.nodup_nil
  | [f], _ => exact List.nodup_singleton _

theorem uploadStored_nil (env : UploadEnv) (uploadDirectory : Path) (st : Uploads) :
    UploadStored env uploadDirectory [] [] st st where
  recorded := List.Forall₂.nil
  names := by simp
  distinct _ := List.nodup_nil
  others _ _ := rfl
  holds _ _ := List.Forall₂.nil

theorem PartStored.single {env : UploadEnv} {uploadDirectory : Path} {p : LinePart}
    {new : List MultipartSavedFile} {st st' : Uploads}
    (h : PartStored env uploadDirectory p new st st') :
    UploadStored env uploadDirectory [p] new st st' := by
  have hfilter := filter_isFile_cons p []
  rw [List.filter_nil, List.append_nil] at hfilter
  exact
    { recorded := by rw [hfilter]; exact h.recorded
      names := fun f hf => ⟨st.opened, le_refl _, h.names f hf⟩
      distinct := fun _ => h.distinct
      others := h.others
      holds := fun hw _ => by rw [hfilter]; exact h.holds hw }

/-- The files of the parts behind have other names than the file of the part
before: they come from later clock readings. -/
theorem PartStored.ne_of_later {env : UploadEnv} {uploadDirectory : Path} {p : LinePart}
    {ps : List LinePart} {new more : List MultipartSavedFile} {st st' st'' : Uploads}
    (h : PartStored env uploadDirectory p new st st')
    (h' : UploadStored env uploadDirectory ps more st' st'')
    (hclock : Function.Injective env.micros) {f g : MultipartSavedFile} (hf : f ∈ new)
    (hg : g ∈ more) : f.storedFilename ≠ g.storedFilename := by
  have hfile : IsFile p := by
    by_contra hfile
    have hrec := h.recorded
    rw [if_neg hfile] at hrec
    cases hrec
    cases hf
  obtain ⟨clean, hclean⟩ := h.names f hf
  obtain ⟨k, hk, clean', hclean'⟩ := h'.names g hg
  rw [hclean, hclean']
  rw [h.opened, if_pos hfile] at hk
  exact storedNameAt_ne hclock (by omega) _ _

theorem PartStored.append {env : UploadEnv} {uploadDirectory : Path} {p : LinePart}
    {ps : List LinePart} {new more : List MultipartSavedFile} {st st' st'' : Uploads}
    (h : PartStored env uploadDirectory p new st st')
    (h' : UploadStored env uploadDirectory ps more st' st'') :
    UploadStored env uploadDirectory (p :: ps) (new ++ more) st st'' where
  recorded := by
    rw [filter_isFile_cons]
    exact List.rel_append h.recorded h'.recorded
  names f hf := by
    rcases List.mem_append.mp hf with hf | hf
    · exact ⟨st.opened, le_refl _, h.names f hf⟩
    · obtain ⟨k, hk, hname⟩ := h'.names f hf
      refine ⟨k, Nat.le_trans ?_ hk, hname⟩
      rw [h.opened]
      split <;> omega
  distinct hclock := by
    rw [List.map_append, List.nodup_append]
    refine ⟨h.distinct, h'.distinct hclock, ?_⟩
    intro a ha b hb
    obtain ⟨f, hf, rfl⟩ := List.mem_map.mp ha
    obtain ⟨g, hg, rfl⟩ := List.mem_map.mp hb
    exact h.ne_of_later h' hclock hf hg
  others name hname := by
    rw [h'.others name fun f hf => hname f (List.mem_append_right _ hf),
      h.others name fun f hf => hname f (List.mem_append_left _ hf)]
  holds hw hclock := by
    rw [filter_isFile_cons]
    refine List.rel_append ?_ (h'.holds hw hclock)
    -- the part's own file keeps its text through the rest of the run
    have hhold := h.holds hw
    by_cases hfile : IsFile p
    · rw [if_pos hfile] at hhold ⊢
      cases hhold with
      | cons hf hnil =>
          cases hnil
          refine List.Forall₂.cons ?_ List.Forall₂.nil
          rw [Holds, h'.others _ fun g hg =>
            h.ne_of_later h' hclock (List.mem_singleton.mpr rfl) hg]
          exact hf
    · rw [if_neg hfile] at hhold ⊢
      cases hhold
      exact List.Forall₂.nil

section Run

variable {env : UploadEnv} (uploadDirectory : Path) {limits : MultipartLimits}
  {delimiter : Bytes}

/-- An upload whose parts are all faultless is accepted, and recorded and
stored as its parts stand. -/
theorem spoolLoop_accepted (allowed : Nat) (lines : List Bytes)
    (files : List MultipartSavedFile) (st : Uploads)
    (h : AllAccepted env limits delimiter st.opened
      (cutParts delimiter allowed (lines.map dropCr))) :
    ∃ new st', spoolLoop env uploadDirectory limits delimiter allowed lines files st =
        (accept (files ++ new), st') ∧
      UploadStored env uploadDirectory (cutParts delimiter allowed (lines.map dropCr)) new
        st st' := by
  induction allowed generalizing lines files st with
  | zero => exact h.elim
  | succ allowed ih =>
      have hstep := spoolLoop_part env uploadDirectory limits delimiter files allowed lines st
      generalize cutParts delimiter (allowed + 1) (lines.map dropCr) = parts at h hstep ⊢
      generalize spoolLoop env uploadDirectory limits delimiter (allowed + 1) lines files st =
        run at hstep ⊢
      cases hstep with
      | refused p ps run hfault hrun => exact absurd h.1 hfault
      | last p new st' hp hend hstored => exact ⟨new, st', rfl, hstored.single⟩
      | next p new st' rest hp hend hstored =>
          have hrest := h.2.resolve_left hend
          rw [← hstored.opened] at hrest
          obtain ⟨more, st'', hrun, hmore⟩ := ih rest (files ++ new) st' hrest
          exact ⟨new ++ more, st'', by rw [hrun, List.append_assoc], hstored.append hmore⟩

/-- Every other upload is refused. -/
theorem spoolLoop_refused (allowed : Nat) (lines : List Bytes)
    (files : List MultipartSavedFile) (st : Uploads)
    (h : ¬ AllAccepted env limits delimiter st.opened
      (cutParts delimiter allowed (lines.map dropCr))) :
    (spoolLoop env uploadDirectory limits delimiter allowed lines files st).1.ok = false := by
  induction allowed generalizing lines files st with
  | zero => rfl
  | succ allowed ih =>
      have hstep := spoolLoop_part env uploadDirectory limits delimiter files allowed lines st
      generalize cutParts delimiter (allowed + 1) (lines.map dropCr) = parts at h hstep
      generalize spoolLoop env uploadDirectory limits delimiter (allowed + 1) lines files st =
        run at hstep ⊢
      cases hstep with
      | refused p ps run hfault hrun => exact hrun.1
      | last p new st' hp hend hstored => exact absurd ⟨hp, Or.inl hend⟩ h
      | next p new st' rest hp hend hstored =>
          refine ih rest (files ++ new) st' fun hrest => h ⟨hp, Or.inr ?_⟩
          rwa [hstored.opened] at hrest

/-- No upload empties the directory. -/
theorem spoolLoop_nonempty (allowed : Nat) (lines : List Bytes)
    (files : List MultipartSavedFile) {st : Uploads} (h : st.dir ≠ []) :
    (spoolLoop env uploadDirectory limits delimiter allowed lines files st).2.dir ≠ [] := by
  induction allowed generalizing lines files st with
  | zero => exact h
  | succ allowed ih =>
      have hstep := spoolLoop_part env uploadDirectory limits delimiter files allowed lines st
      have hkept : ∀ {p new st'}, PartStored env uploadDirectory p new st st' → st'.dir ≠ [] := by
        intro p new st' hstored
        by_cases hfile : IsFile p
        · exact hstored.file hfile
        · rw [hstored.field hfile]
          exact h
      generalize cutParts delimiter (allowed + 1) (lines.map dropCr) = parts at hstep
      generalize spoolLoop env uploadDirectory limits delimiter (allowed + 1) lines files st =
        run at hstep ⊢
      cases hstep with
      | refused p ps run hfault hrun => exact hrun.2.1 h
      | last p new st' hp hend hstored => exact hkept hstored
      | next p new st' rest hp hend hstored => exact ih rest (files ++ new) (hkept hstored)

/-- An upload that reaches no file part leaves the directory as it was. -/
theorem spoolLoop_untouched (allowed : Nat) (lines : List Bytes)
    (files : List MultipartSavedFile) (st : Uploads)
    (h : ¬ FileReached env limits st.opened
      (cutParts delimiter allowed (lines.map dropCr))) :
    (spoolLoop env uploadDirectory limits delimiter allowed lines files st).2.dir = st.dir := by
  induction allowed generalizing lines files st with
  | zero => rfl
  | succ allowed ih =>
      have hstep := spoolLoop_part env uploadDirectory limits delimiter files allowed lines st
      generalize cutParts delimiter (allowed + 1) (lines.map dropCr) = parts at h hstep
      generalize spoolLoop env uploadDirectory limits delimiter (allowed + 1) lines files st =
        run at hstep ⊢
      cases hstep with
      | refused p ps run hfault hrun =>
          have hdir := hrun.2.2
          rw [if_neg fun hp => h (by rw [FileReached, if_pos hp.1]; exact hp.2)] at hdir
          exact hdir
      | last p new st' hp hend hstored =>
          have hfile : ¬ IsFile p := fun hf =>
            h (by rw [FileReached, if_pos hf]; exact hp.2.2 hf)
          show st'.dir = st.dir
          rw [hstored.field hfile]
      | next p new st' rest hp hend hstored =>
          have hfile : ¬ IsFile p := fun hf =>
            h (by rw [FileReached, if_pos hf]; exact hp.2.2 hf)
          have hst := hstored.field hfile
          subst hst
          refine ih rest (files ++ new) st' fun hrest => h ?_
          rw [FileReached, if_neg hfile]
          exact ⟨hp, hrest⟩

/-- An upload that reaches a file part leaves a file behind. -/
theorem spoolLoop_touched (allowed : Nat) (lines : List Bytes)
    (files : List MultipartSavedFile) (st : Uploads)
    (h : FileReached env limits st.opened
      (cutParts delimiter allowed (lines.map dropCr))) :
    (spoolLoop env uploadDirectory limits delimiter allowed lines files st).2.dir ≠ [] := by
  induction allowed generalizing lines files st with
  | zero => exact h.elim
  | succ allowed ih =>
      have hstep := spoolLoop_part env uploadDirectory limits delimiter files allowed lines st
      generalize cutParts delimiter (allowed + 1) (lines.map dropCr) = parts at h hstep
      generalize spoolLoop env uploadDirectory limits delimiter (allowed + 1) lines files st =
        run at hstep ⊢
      cases hstep with
      | refused p ps run hfault hrun =>
          by_cases hfile : IsFile p
          · rw [FileReached, if_pos hfile] at h
            have hdir := hrun.2.2
            rwa [if_pos ⟨hfile, h⟩] at hdir
          · rw [FileReached, if_neg hfile] at h
            exact absurd h.1 hfault
      | last p new st' hp hend hstored =>
          by_cases hfile : IsFile p
          · exact hstored.file hfile
          · rw [FileReached, if_neg hfile] at h
            exact h.2.elim
      | next p new st' rest hp hend hstored =>
          by_cases hfile : IsFile p
          · exact spoolLoop_nonempty uploadDirectory allowed rest (files ++ new)
              (hstored.file hfile)
          · rw [FileReached, if_neg hfile] at h
            have hst := hstored.field hfile
            subst hst
            exact ih rest (files ++ new) st' h.2

end Run

/-! ## The upload as it is called -/

/-- The lines behind the first delimiter, when the upload gets that far: a
boundary, limits that are not zero, a spool and a directory, and the delimiter
as the first line. -/
def behindDelimiter (env : UploadEnv) (spoolFile : Option Bytes) (contentType : Bytes)
    (limits : MultipartLimits) : Option (Bytes × List Bytes) :=
  match Multipart.extractBoundary contentType, spoolFile, env.createDirectories with
  | some boundary, some content, .ok () =>
      match getlines content with
      | [] => none
      | first :: rest =>
          if limits.maxParts = 0 ∨ limits.maxFileBytes = 0 ∨
              dropCr first ≠ delimiterOf boundary then none
          else some (delimiterOf boundary, rest)
  | _, _, _ => none

/-- The parts of an upload, as its parser cuts them. -/
def uploadedParts (env : UploadEnv) (spoolFile : Option Bytes) (contentType : Bytes)
    (limits : MultipartLimits) : List LinePart :=
  match behindDelimiter env spoolFile contentType limits with
  | some (delimiter, lines) => cutParts delimiter limits.maxParts (lines.map dropCr)
  | none => []

/-- An upload that does not get to its parts refuses or throws, and does
nothing to the directory. -/
theorem saveUploadsFromSpoolFile_early {env : UploadEnv} {spoolFile : Option Bytes}
    {contentType : Bytes} {limits : MultipartLimits}
    (h : behindDelimiter env spoolFile contentType limits = none) (uploadDirectory : Path)
    (st : Uploads) :
    ∃ answer, Multipart.saveUploadsFromSpoolFile env spoolFile contentType uploadDirectory
        limits st = (answer, st) ∧ ∀ result, answer = .ok result → result.ok = false := by
  rw [Multipart.saveUploadsFromSpoolFile]
  unfold behindDelimiter at h
  cases hboundary : Multipart.extractBoundary contentType with
  | none => exact ⟨_, rfl, by rintro _ ⟨⟩; rfl⟩
  | some boundary =>
      simp only []
      split
      · exact ⟨_, rfl, by rintro _ ⟨⟩; rfl⟩
      · next hlimits =>
          cases spoolFile with
          | none => exact ⟨_, rfl, by rintro _ ⟨⟩; rfl⟩
          | some content =>
              simp only []
              cases hdirs : env.createDirectories with
              | error e => exact ⟨_, rfl, by rintro _ ⟨⟩⟩
              | ok u =>
                  rw [hboundary, hdirs] at h
                  simp only [] at h ⊢
                  cases hlines : getlines content with
                  | nil => exact ⟨_, rfl, by rintro _ ⟨⟩; rfl⟩
                  | cons first rest =>
                      rw [hlines] at h
                      simp only [] at h ⊢
                      split at h
                      · next hbad =>
                          have hfirst : dropCr first ≠ bytes "--" ++ boundary := by tauto
                          rw [if_pos hfirst]
                          exact ⟨_, rfl, by rintro _ ⟨⟩; rfl⟩
                      · cases h

/-- An upload that gets to its parts runs the loop over them. -/
theorem saveUploadsFromSpoolFile_parts {env : UploadEnv} {spoolFile : Option Bytes}
    {contentType delimiter : Bytes} {lines : List Bytes} {limits : MultipartLimits}
    (h : behindDelimiter env spoolFile contentType limits = some (delimiter, lines))
    (uploadDirectory : Path) (st : Uploads) :
    Multipart.saveUploadsFromSpoolFile env spoolFile contentType uploadDirectory limits st =
      (.ok (spoolLoop env uploadDirectory limits delimiter limits.maxParts lines [] st).1,
        (spoolLoop env uploadDirectory limits delimiter limits.maxParts lines [] st).2) := by
  unfold behindDelimiter at h
  split at h
  · next boundary content hboundary hdirs =>
      split at h
      · cases h
      · next first rest hlines =>
          split at h
          · cases h
          · next hgood =>
              obtain ⟨rfl, rfl⟩ : delimiterOf boundary = delimiter ∧ rest = lines := by
                simpa using h
              have hlimits : ¬ (limits.maxParts = 0 ∨ limits.maxFileBytes = 0) := by tauto
              have hfirst : ¬ dropCr first ≠ bytes "--" ++ boundary := by tauto
              rw [Multipart.saveUploadsFromSpoolFile, hboundary]
              simp only [if_neg hlimits, hdirs, hlines, if_neg hfirst]
              rfl
  · cases h

end HydrogenHttpd.Ref
