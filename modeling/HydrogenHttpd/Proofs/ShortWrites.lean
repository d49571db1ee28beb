import HydrogenHttpd.Proofs.UploadRuns

/-!
# Uploads on a disk that fills up

No write of an upload is looked at once its file is open, and neither is the
close, so an upload can be answered with success and the files it reports can
hold less than it says. `OutFile.writeAll` is what the write calls of a file do
one after another: behind one that falls short no other is made.

An accepted upload comes down to storing its file parts in turn, and reports
them whatever became of the writes (`spoolLoop_stores`). So the files it reports
hold what their parts hold exactly when the writes that are not overwritten
later are taken whole (`success_means_stored_iff`): of the file parts that get
one name, all have the same text and the last one is written as a whole. Where
the clock never repeats itself, that is to say that no write falls short
(`lastWritesTaken_iff`).
-/

namespace HydrogenHttpd.Ref

open Base Spec

/-! ## Write calls -/

/-- The `n`-th write call takes all of `data`. -/
def UploadEnv.Takes (env : UploadEnv) (n : Nat) (data : Bytes) : Prop :=
  (env.accepts n).all (data.length ≤ ·) = true

instance (env : UploadEnv) (n : Nat) (data : Bytes) : Decidable (env.Takes n data) :=
  inferInstanceAs (Decidable (_ = _))

/-- The calls are taken whole, the first of them being the `n`-th. -/
def UploadEnv.TakesAll (env : UploadEnv) : Nat → List Bytes → Prop
  | _, [] => True
  | n, c :: cs => env.Takes n c ∧ env.TakesAll (n + 1) cs

/-- How many of the calls are made: none behind one that falls short. -/
def UploadEnv.callsMade (env : UploadEnv) : Nat → List Bytes → Nat
  | _, [] => 0
  | n, c :: cs => if env.Takes n c then env.callsMade (n + 1) cs + 1 else 1

/-- Write calls one after another. -/
def OutFile.writeAll (env : UploadEnv) (out : OutFile) : List Bytes → Uploads → OutFile × Uploads
  | [], st => (out, st)
  | c :: cs, st => (out.write env c st).1.writeAll env cs (out.write env c st).2

section WriteAll

variable {env : UploadEnv}

theorem UploadEnv.takesAll_append {n : Nat} {a b : List Bytes} :
    env.TakesAll n (a ++ b) ↔ env.TakesAll n a ∧ env.TakesAll (n + a.length) b := by
  induction a generalizing n with
  | nil => simp [TakesAll]
  | cons c cs ih =>
      rw [List.cons_append, TakesAll, TakesAll, ih, List.length_cons, and_assoc,
        Nat.add_right_comm, Nat.add_assoc]

theorem UploadEnv.callsMade_of_takesAll {n : Nat} {calls : List Bytes}
    (h : env.TakesAll n calls) : env.callsMade n calls = calls.length := by
  induction calls generalizing n with
  | nil => rfl
  | cons c cs ih => rw [callsMade, if_pos h.1, ih h.2, List.length_cons]

/-- A write that is taken whole leaves the stream as it was. -/
theorem OutFile.write_taken {out : OutFile} (hgood : out.good = true) {c : Bytes} {st : Uploads}
    (h : env.Takes st.writes c) :
    out.write env c st = (out, { st with
      dir := put out.name ((st.dir.lookup out.name).getD [] ++ c) st.dir
      writes := st.writes + 1 }) := by
  rw [OutFile.write, if_pos hgood]
  rw [UploadEnv.Takes] at h
  cases haccepts : env.accepts st.writes with
  | none =>
      simp only [beq_self_eq_true]
      rw [← hgood]
  | some k =>
      rw [haccepts, Option.all_some, decide_eq_true_eq] at h
      simp only [List.take_of_length_le h, beq_self_eq_true]
      rw [← hgood]

/-- One that falls short ends the stream, and something of it is missing. -/
theorem OutFile.write_short {out : OutFile} (hgood : out.good = true) {c : Bytes} {st : Uploads}
    (h : ¬ env.Takes st.writes c) :
    ∃ kept : Bytes, kept.length < c.length ∧
      out.write env c st = ({ out with good := false }, { st with
        dir := put out.name ((st.dir.lookup out.name).getD [] ++ kept) st.dir
        writes := st.writes + 1 }) := by
  rw [UploadEnv.Takes] at h
  cases haccepts : env.accepts st.writes with
  | none => exact absurd (by rw [haccepts]; rfl) h
  | some k =>
      rw [haccepts, Option.all_some, decide_eq_true_eq, Nat.not_le] at h
      have hlength : (c.take k).length < c.length := by
        rw [List.length_take]
        omega
      refine ⟨c.take k, hlength, ?_⟩
      rw [OutFile.write, if_pos hgood, haccepts]
      simp only [beq_eq_false_iff_ne.mpr (Nat.ne_of_lt hlength)]

theorem OutFile.writeAll_bad {out : OutFile} (hbad : out.good = false) (calls : List Bytes)
    (st : Uploads) : out.writeAll env calls st = (out, st) := by
  induction calls with
  | nil => rfl
  | cons c cs ih =>
      rw [writeAll, OutFile.write, if_neg (by rw [hbad]; decide)]
      exact ih

theorem OutFile.writeAll_append (out : OutFile) (a b : List Bytes) (st : Uploads) :
    out.writeAll env (a ++ b) st =
      (out.writeAll env a st).1.writeAll env b (out.writeAll env a st).2 := by
  induction a generalizing out st with
  | nil => rfl
  | cons c cs ih => exact ih _ _

theorem OutFile.writeAll_opened (out : OutFile) (calls : List Bytes) (st : Uploads) :
    (out.writeAll env calls st).2.opened = st.opened := by
  induction calls generalizing out st with
  | nil => rfl
  | cons c cs ih => exact (ih _ _).trans (OutFile.write_opened env out c st)

theorem OutFile.writeAll_others (out : OutFile) (calls : List Bytes) (st : Uploads) {name : Bytes}
    (h : name ≠ out.name) :
    (out.writeAll env calls st).2.dir.lookup name = st.dir.lookup name := by
  induction calls generalizing out st with
  | nil => rfl
  | cons c cs ih =>
      rw [writeAll, ih _ _ (by rw [OutFile.write_name]; exact h),
        OutFile.write_others env out c st h]

/-- What reaches the file is all that is written exactly if every call is taken whole. -/
theorem OutFile.writeAll_reaches {out : OutFile} (hgood : out.good = true) (calls : List Bytes)
    {st : Uploads} {old : Bytes} (hold : st.dir.lookup out.name = some old) :
    (out.writeAll env calls st).2.writes = st.writes + env.callsMade st.writes calls ∧
      ∃ kept, (out.writeAll env calls st).2.dir.lookup out.name = some (old ++ kept) ∧
        (kept = calls.flatten ↔ env.TakesAll st.writes calls) := by
  induction calls generalizing st old with
  | nil => exact ⟨rfl, [], by rw [List.append_nil]; exact hold, iff_of_true rfl trivial⟩
  | cons c cs ih =>
      rw [writeAll, UploadEnv.callsMade, UploadEnv.TakesAll, List.flatten_cons]
      by_cases htakes : env.Takes st.writes c
      · rw [OutFile.write_taken hgood htakes, if_pos htakes, hold]
        obtain ⟨hwrites, kept, hkept, hiff⟩ := @ih { st with
          dir := put out.name (old ++ c) st.dir
          writes := st.writes + 1 } _ (lookup_put_self _ _ _)
        refine ⟨?_, c ++ kept, ?_, ?_⟩
        · rw [Option.getD_some, hwrites]
          exact Nat.add_right_comm st.writes 1 _
        · rw [Option.getD_some, hkept, List.append_assoc]
        · rw [List.append_right_inj, hiff]
          exact (and_iff_right htakes).symm
      · obtain ⟨kept, hlength, hwrite⟩ := OutFile.write_short hgood htakes
        rw [hwrite, if_neg htakes, hold, OutFile.writeAll_bad rfl]
        refine ⟨rfl, kept, lookup_put_self _ _ _, iff_of_false ?_ fun h => htakes h.1⟩
        intro heq
        rw [heq, List.length_append] at hlength
        omega

end WriteAll

/-! ## The lines of a file -/

/-- The write calls for the lines of a file: a line feed goes behind each but the last. -/
def writeCalls : List Bytes → List Bytes
  | [] => []
  | [l] => [l]
  | l :: m :: ls => l :: [lf] :: writeCalls (m :: ls)

theorem flatten_writeCalls (ls : List Bytes) : (writeCalls ls).flatten = joined ls := by
  induction ls with
  | nil => rfl
  | cons l ls ih =>
      cases ls with
      | nil => simp [writeCalls, joined]
      | cons m ls =>
          rw [writeCalls, List.flatten_cons, List.flatten_cons, ih, joined, joined,
            List.intercalate_cons_cons]
          simp

/-- The write calls for a pending line. -/
def pendingCalls (newline : Bool) (pending : Option Bytes) : List Bytes :=
  match pending with
  | none => []
  | some l => l :: if newline then [[lf]] else []

/-- The write calls for what a part still holds. -/
def heldCalls (p : PartState) (body : List Bytes) : List Bytes :=
  writeCalls (p.pending.toList ++ body.map dropCr)

theorem heldCalls_nil (p : PartState) : heldCalls p [] = pendingCalls false p.pending := by
  cases h : p.pending <;> simp [heldCalls, writeCalls, pendingCalls, h]

theorem heldCalls_cons (p : PartState) (l : Bytes) (ls : List Bytes) :
    heldCalls p (l :: ls) =
      pendingCalls true p.pending ++ heldCalls { p with pending := some (dropCr l) } ls := by
  cases h : p.pending <;> simp [heldCalls, writeCalls, pendingCalls, h]

/-- The entry of a file in the result, once it took `size` bytes. -/
def PartState.entry (uploadDirectory : Path) (p : PartState) (size : Nat) : MultipartSavedFile :=
  { fieldName := p.fieldName
    originalFilename := p.originalFilename
    storedFilename := p.storedName
    storedPath := uploadDirectory / Path.ofBytes p.storedName
    size := size }

section ContentLoop

variable {env : UploadEnv} (uploadDirectory : Path) {limits : MultipartLimits}
  {delimiter : Bytes} (files : List MultipartSavedFile)

/-- The pending line of a file is written, and counted as if it were written whole. -/
theorem storePending_writes {newline : Bool} {p : PartState} {out : OutFile}
    (hout : p.out = some out) (st : Uploads)
    (hfit : p.bytesWritten + (pendingBytes newline p.pending).length ≤ limits.maxFileBytes) :
    storePending env limits files newline p st =
      (.ok { p with
          out := some (out.writeAll env (pendingCalls newline p.pending) st).1
          bytesWritten := p.bytesWritten + (pendingBytes newline p.pending).length },
        (out.writeAll env (pendingCalls newline p.pending) st).2) := by
  cases hpending : p.pending with
  | none =>
      rw [storePending, hpending]
      simp only [pendingCalls, OutFile.writeAll, pendingBytes, List.length_nil, Nat.add_zero]
      rw [← hout, ← hpending]
  | some l =>
      rw [hpending, length_pendingBytes] at hfit
      rw [storePending, hpending]
      simp only [hout]
      rw [if_neg (Nat.not_lt.mpr hfit), length_pendingBytes]
      cases newline with
      | false => rfl
      | true => rfl

/-- A file that fits is closed by its delimiter line, with the write calls for its lines
made. -/
theorem contentLoop_writes {body : List Bytes} {d : Bytes}
    (hbody : ∀ l ∈ body, ¬ IsDelimiter delimiter (dropCr l))
    (hd : IsDelimiter delimiter (dropCr d)) (rest : List Bytes) {p : PartState} {out : OutFile}
    (hout : p.out = some out) (st : Uploads)
    (hfit : p.bytesWritten + (heldText p body).length ≤ limits.maxFileBytes) :
    contentLoop env uploadDirectory limits delimiter files (body ++ d :: rest) p st =
      (let files' := files ++ [p.entry uploadDirectory (p.bytesWritten + (heldText p body).length)]
        if dropCr d = delimiter ++ dashes then .returned (accept files') else .next files' rest,
        (out.writeAll env (heldCalls p body) st).2) := by
  induction body generalizing p out st with
  | nil =>
      rw [heldText_nil] at hfit ⊢
      rw [List.nil_append, contentLoop_delimiter env uploadDirectory limits files hd,
        storePending_writes files hout st hfit, heldCalls_nil]
      rfl
  | cons l ls ih =>
      rw [heldText_cons, List.length_append, ← Nat.add_assoc] at hfit ⊢
      rw [List.cons_append, contentLoop_line env uploadDirectory limits files (hbody l (by simp)),
        storePending_writes files hout st (by omega), heldCalls_cons, OutFile.writeAll_append]
      exact ih (fun m hm => hbody m (List.mem_cons_of_mem _ hm))
        (p := { p with
          out := some (out.writeAll env (pendingCalls true p.pending) st).1
          bytesWritten := p.bytesWritten + (pendingBytes true p.pending).length
          pending := some (dropCr l) }) rfl _ hfit

/-- A plain field that fits is closed by its delimiter line, with nothing done. -/
theorem contentLoop_field {body : List Bytes} {d : Bytes}
    (hbody : ∀ l ∈ body, ¬ IsDelimiter delimiter (dropCr l))
    (hd : IsDelimiter delimiter (dropCr d)) (rest : List Bytes) {p : PartState}
    (hout : p.out = none) (st : Uploads)
    (hfit : p.fieldBytes + (heldText p body).length ≤ limits.maxFieldBytes) :
    contentLoop env uploadDirectory limits delimiter files (body ++ d :: rest) p st =
      (if dropCr d = delimiter ++ dashes then .returned (accept files) else .next files rest,
        st) := by
  have htaken : p.taken = p.fieldBytes := by simp [PartState.taken, hout]
  have hlimit : p.limit limits = limits.maxFieldBytes := by simp [PartState.limit, hout]
  obtain ⟨p', st', hadv, hloop⟩ := contentLoop_closes env uploadDirectory limits files hbody hd
    rest st (by rw [htaken, hlimit]; exact hfit)
  have hout' : p'.out = none := by
    have hsome := hadv.isSome
    rw [hout] at hsome
    simpa using hsome
  rw [hloop, closePart, hout', hadv.field hout]

end ContentLoop

/-! ## The file parts -/

/-- The name a part is stored under as the `k`-th file. -/
def storedNameOf (env : UploadEnv) (k : Nat) (p : LinePart) : Bytes :=
  storedNameAt env k (Multipart.sanitizeFilename (lineNames p).2)

/-- Storing a file part: its file is created, and the calls for its lines are made. -/
def storeFile (env : UploadEnv) (p : LinePart) (st : Uploads) : Uploads :=
  (OutFile.writeAll env { name := storedNameOf env st.opened p } (writeCalls p.body)
    { st with dir := put (storedNameOf env st.opened p) [] st.dir, opened := st.opened + 1 }).2

def storeFiles (env : UploadEnv) : List LinePart → Uploads → Uploads
  | [], st => st
  | p :: ps, st => storeFiles env ps (storeFile env p st)

/-- What the result says of file parts, the first of them the `k`-th file. -/
def savedFiles (env : UploadEnv) (uploadDirectory : Path) :
    Nat → List LinePart → List MultipartSavedFile
  | _, [] => []
  | k, p :: ps =>
      { fieldName := (lineNames p).1
        originalFilename := (lineNames p).2
        storedFilename := storedNameOf env k p
        storedPath := uploadDirectory / Path.ofBytes (storedNameOf env k p)
        size := (joined p.body).length } :: savedFiles env uploadDirectory (k + 1) ps

section Parts

variable {env : UploadEnv} (uploadDirectory : Path) {limits : MultipartLimits}
  {delimiter : Bytes}

@[simp] theorem storeFile_opened (p : LinePart) (st : Uploads) :
    (storeFile env p st).opened = st.opened + 1 :=
  OutFile.writeAll_opened _ _ _

/-- The first of some lines' parts, if it is faultless: a file is stored and a plain field read
over, and the loop goes on behind the part unless it was the last. -/
theorem spoolLoop_faultless {allowed : Nat} {lines : List Bytes} (files : List MultipartSavedFile)
    {st : Uploads} {p : LinePart} {ps : List LinePart}
    (hparts : cutParts delimiter (allowed + 1) (lines.map dropCr) = p :: ps)
    (hp : Faultless env limits st.opened p) :
    ∃ rest, ps = (if p.ending = some (delimiter ++ dashes) then []
        else cutParts delimiter allowed (rest.map dropCr)) ∧
      spoolLoop env uploadDirectory limits delimiter (allowed + 1) lines files st =
        let own := if IsFile p then [p] else []
        let files' := files ++ savedFiles env uploadDirectory st.opened own
        if p.ending = some (delimiter ++ dashes) then (accept files', storeFiles env own st)
        else spoolLoop env uploadDirectory limits delimiter allowed rest files'
          (storeFiles env own st) := by
  cases firstPart delimiter lines with
  | headless headers hheaders =>
      rw [cutParts_headless allowed hheaders] at hparts
      cases hparts
      cases hp.1
  | unclosed headers e body hheaders he hbody =>
      rw [cutParts_unclosed allowed hheaders he hbody] at hparts
      cases hparts
      cases hp.1
  | closed headers e body d rest hheaders he hbody hd =>
      rw [cutParts_closed allowed hheaders he hbody hd] at hparts
      obtain ⟨rfl, rfl⟩ := List.cons.inj hparts
      have hraw : (headers.map fun l => dropCr l ++ crlf).flatten =
          ((headers.map dropCr).map (· ++ crlf)).flatten := by
        rw [List.map_map]
        rfl
      refine ⟨rest, by simp only [Option.some.injEq], ?_⟩
      rw [spoolLoop, readPartHeaders_closed _ hheaders he []]
      simp only [List.nil_append, reduceCtorEq, false_and, if_false, Option.getD_some, hraw,
        Option.some.injEq]
      obtain ⟨-, hfit, hcreate⟩ := hp
      by_cases hfile : IsFile ⟨headers.map dropCr, body.map dropCr, some (dropCr d)⟩
      · rw [if_pos hfile] at hfit
        rw [openPart_file hfile (hcreate hfile).1 (hcreate hfile).2 files]
        have hsize : ∀ q, q = filePart env ((headers.map dropCr).map (· ++ crlf)).flatten
            st.opened → q.bytesWritten + (heldText q body).length =
              (joined (body.map dropCr)).length := by
          rintro _ rfl
          exact Nat.zero_add _
        simp only [if_pos hfile]
        rw [contentLoop_writes uploadDirectory files hbody hd rest rfl _
          ((hsize _ rfl).trans_le hfit), hsize _ rfl]
        by_cases hfinal : dropCr d = delimiter ++ dashes
        · simp only [if_pos hfinal]
          rfl
        · simp only [if_neg hfinal]
          rfl
      · rw [if_neg hfile] at hfit
        rw [openPart_field (Classical.not_not.mp hfile)]
        simp only [if_neg hfile, savedFiles, storeFiles, List.append_nil]
        rw [contentLoop_field uploadDirectory files hbody hd rest rfl st
          ((Nat.zero_add _).symm ▸ hfit)]
        by_cases hfinal : dropCr d = delimiter ++ dashes
        · simp only [if_pos hfinal]
        · simp only [if_neg hfinal]

theorem storeFiles_append (a b : List LinePart) (st : Uploads) :
    storeFiles env (a ++ b) st = storeFiles env b (storeFiles env a st) := by
  induction a generalizing st with
  | nil => rfl
  | cons p ps ih => exact ih _

theorem savedFiles_append (k : Nat) (a b : List LinePart) :
    savedFiles env uploadDirectory k (a ++ b) =
      savedFiles env uploadDirectory k a ++ savedFiles env uploadDirectory (k + a.length) b := by
  induction a generalizing k with
  | nil => rfl
  | cons p ps ih =>
      rw [List.cons_append, savedFiles, savedFiles, ih, List.length_cons, Nat.add_right_comm k,
        List.cons_append, Nat.add_assoc]

theorem storeFiles_opened (ps : List LinePart) (st : Uploads) :
    (storeFiles env ps st).opened = st.opened + ps.length := by
  induction ps generalizing st with
  | nil => rfl
  | cons p ps ih =>
      rw [storeFiles, ih, storeFile_opened, List.length_cons]
      omega

/-- An accepted upload stores its file parts one after another, and reports them all. -/
theorem spoolLoop_stores (allowed : Nat) (lines : List Bytes) (files : List MultipartSavedFile)
    (st : Uploads)
    (h : AllAccepted env limits delimiter st.opened
      (cutParts delimiter allowed (lines.map dropCr))) :
    let stored := (cutParts delimiter allowed (lines.map dropCr)).filter fun p => IsFile p
    spoolLoop env uploadDirectory limits delimiter allowed lines files st =
      (accept (files ++ savedFiles env uploadDirectory st.opened stored),
        storeFiles env stored st) := by
  induction allowed generalizing lines files st with
  | zero => exact h.elim
  | succ allowed ih =>
      cases hparts : cutParts delimiter (allowed + 1) (lines.map dropCr) with
      | nil =>
          rw [hparts] at h
          exact h.elim
      | cons p ps =>
          rw [hparts] at h
          obtain ⟨hp, hend⟩ := h
          obtain ⟨rest, hps, hrun⟩ := spoolLoop_faultless uploadDirectory files hparts hp
          simp only [hrun, filter_isFile_cons, storeFiles_append, savedFiles_append]
          by_cases hfinal : p.ending = some (delimiter ++ dashes)
          · rw [if_pos hfinal] at hps
            rw [if_pos hfinal, hps]
            simp [savedFiles, storeFiles]
          · rw [if_neg hfinal] at hps
            have hopened : (storeFiles env (if IsFile p then [p] else []) st).opened =
                if IsFile p then st.opened + 1 else st.opened := by
              rw [storeFiles_opened]
              split <;> rfl
            have hrest := hend.resolve_left hfinal
            rw [← hopened, hps] at hrest
            rw [if_neg hfinal, ih rest _ _ hrest, ← hps, storeFiles_opened, List.append_assoc]

end Parts

/-! ## What the files hold -/

/-- File parts as they should be stored: under which name, and with what text. -/
def storedTexts (env : UploadEnv) : Nat → List LinePart → List (Bytes × Bytes)
  | _, [] => []
  | k, p :: ps => (storedNameOf env k p, joined p.body) :: storedTexts env (k + 1) ps

/-- Of the file parts that get one name, all have the same text, and the write calls for the
last are taken whole. The first of the parts is the `k`-th file, and its first write call the
`n`-th. -/
def LastWritesTaken (env : UploadEnv) : Nat → Nat → List LinePart → Prop
  | _, _, [] => True
  | k, n, p :: ps =>
      (∀ e ∈ storedTexts env (k + 1) ps, e.1 = storedNameOf env k p → e.2 = joined p.body) ∧
        (storedNameOf env k p ∉ (storedTexts env (k + 1) ps).map (·.1) →
          env.TakesAll n (writeCalls p.body)) ∧
        LastWritesTaken env (k + 1) (n + env.callsMade n (writeCalls p.body)) ps

section Holds

variable {env : UploadEnv}

theorem storeFile_holds (p : LinePart) (st : Uploads) :
    (storeFile env p st).writes = st.writes + env.callsMade st.writes (writeCalls p.body) ∧
      ((storeFile env p st).dir.lookup (storedNameOf env st.opened p) = some (joined p.body) ↔
        env.TakesAll st.writes (writeCalls p.body)) := by
  obtain ⟨hwrites, kept, hkept, hiff⟩ := @OutFile.writeAll_reaches env
    { name := storedNameOf env st.opened p } rfl (writeCalls p.body)
    { st with
      dir := put (storedNameOf env st.opened p) [] st.dir
      opened := st.opened + 1 } _ (lookup_put_self _ _ _)
  rw [flatten_writeCalls] at hiff
  refine ⟨hwrites, ?_⟩
  rw [storeFile, hkept, List.nil_append, Option.some.injEq]
  exact hiff

theorem storeFile_others (p : LinePart) (st : Uploads) {name : Bytes}
    (h : name ≠ storedNameOf env st.opened p) :
    (storeFile env p st).dir.lookup name = st.dir.lookup name := by
  rw [storeFile, OutFile.writeAll_others _ _ _ h]
  exact lookup_put_of_ne h _ _

theorem storeFiles_others (ps : List LinePart) (st : Uploads) {name : Bytes}
    (h : name ∉ (storedTexts env st.opened ps).map (·.1)) :
    (storeFiles env ps st).dir.lookup name = st.dir.lookup name := by
  induction ps generalizing st with
  | nil => rfl
  | cons p ps ih =>
      rw [storedTexts, List.map_cons, List.mem_cons, not_or] at h
      rw [storeFiles, ih _ (by rw [storeFile_opened]; exact h.2), storeFile_others p st h.1]

/-- The directory holds the texts of the files exactly if the writes that last are taken whole. -/
theorem storeFiles_hold_iff (ps : List LinePart) (st : Uploads) :
    (∀ e ∈ storedTexts env st.opened ps, (storeFiles env ps st).dir.lookup e.1 = some e.2) ↔
      LastWritesTaken env st.opened st.writes ps := by
  induction ps generalizing st with
  | nil => exact iff_of_true (by simp [storedTexts]) trivial
  | cons p ps ih =>
      obtain ⟨hwrites, hholds⟩ := @storeFile_holds env p st
      have htail := ih (storeFile env p st)
      rw [storeFile_opened, hwrites] at htail
      rw [storedTexts, List.forall_mem_cons, storeFiles, LastWritesTaken, ← htail, ← and_assoc]
      refine and_congr_left fun hrest => ?_
      by_cases hlater : storedNameOf env st.opened p ∈
          (storedTexts env (st.opened + 1) ps).map (·.1)
      · obtain ⟨e, he, hname⟩ := List.mem_map.mp hlater
        rw [and_iff_left fun h => absurd hlater h]
        constructor
        · intro hhead e' he' hname'
          have hsame := hrest e' he'
          rw [hname', hhead] at hsame
          exact (Option.some.inj hsame).symm
        · intro hsame
          rw [← hname, hrest e he, hsame e he hname]
      · rw [storeFiles_others ps _ (by rw [storeFile_opened]; exact hlater), hholds]
        constructor
        · exact fun htakes => ⟨fun e he hname =>
            absurd (List.mem_map.mpr ⟨e, he, hname⟩) hlater, fun _ => htakes⟩
        · exact fun h => h.2 hlater

theorem storedTexts_name {k : Nat} {ps : List LinePart} {e : Bytes × Bytes}
    (h : e ∈ storedTexts env k ps) : ∃ j p, k ≤ j ∧ e.1 = storedNameOf env j p := by
  induction ps generalizing k with
  | nil => cases h
  | cons p ps ih =>
      rcases List.mem_cons.mp h with rfl | h
      · exact ⟨k, p, le_refl k, rfl⟩
      · obtain ⟨j, q, hj, hname⟩ := ih h
        exact ⟨j, q, by omega, hname⟩

/-- If no two files get one name, all write calls must be taken whole. -/
theorem lastWritesTaken_iff (hclock : Function.Injective env.micros) (k n : Nat)
    (ps : List LinePart) :
    LastWritesTaken env k n ps ↔ env.TakesAll n (ps.flatMap fun p => writeCalls p.body) := by
  induction ps generalizing k n with
  | nil => exact Iff.rfl
  | cons p ps ih =>
      have hne : ∀ e ∈ storedTexts env (k + 1) ps, e.1 ≠ storedNameOf env k p := by
        intro e he
        obtain ⟨j, q, hj, hname⟩ := storedTexts_name he
        rw [hname]
        exact storedNameAt_ne hclock (by omega) _ _
      have hnot : storedNameOf env k p ∉ (storedTexts env (k + 1) ps).map (·.1) := by
        intro hmem
        obtain ⟨e, he, hname⟩ := List.mem_map.mp hmem
        exact hne e he hname
      rw [LastWritesTaken, ih, List.flatMap_cons, UploadEnv.takesAll_append,
        and_iff_right fun e he hname => absurd hname (hne e he), forall_prop_of_true hnot]
      exact and_congr_right fun htakes => by rw [UploadEnv.callsMade_of_takesAll htakes]

end Holds

/-! ## Whole uploads -/

/-- If the upload succeeds, each file it reports holds the bytes of its part, and as many as it
reports. -/
def SuccessMeansStored (parts : List LinePart)
    (run : Except Bytes MultipartResult × Uploads) : Prop :=
  ∀ result, run.1 = .ok result → result.ok = true →
    List.Forall₂ (fun p f => Holds run.2.dir p f ∧ f.size = (joined p.body).length)
      (parts.filter fun p => IsFile p) result.files

/-- Something is wrong with the upload, or the writes that last are taken whole. -/
def LastingWritesTaken (env : UploadEnv) (spoolFile : Option Bytes) (contentType : Bytes)
    (limits : MultipartLimits) (opened writes : Nat) : Prop :=
  ∀ delimiter lines, behindDelimiter env spoolFile contentType limits = some (delimiter, lines) →
    let parts := cutParts delimiter limits.maxParts (lines.map dropCr)
    AllAccepted env limits delimiter opened parts →
      LastWritesTaken env opened writes (parts.filter fun p => IsFile p)

theorem forall₂_savedFiles (env : UploadEnv) (uploadDirectory : Path) (dir : List (Bytes × Bytes))
    (k : Nat) (ps : List LinePart) :
    List.Forall₂ (fun p f => Holds dir p f ∧ f.size = (joined p.body).length) ps
        (savedFiles env uploadDirectory k ps) ↔
      ∀ e ∈ storedTexts env k ps, dir.lookup e.1 = some e.2 := by
  induction ps generalizing k with
  | nil => simp [savedFiles, storedTexts]
  | cons p ps ih =>
      rw [savedFiles, storedTexts, List.forall₂_cons, List.forall_mem_cons, ih]
      exact and_congr_left fun _ => and_iff_left rfl

/-- An upload that succeeds has stored what it reports, exactly if the writes that last are taken
whole. -/
theorem success_means_stored_iff (env : UploadEnv) (spoolFile : Option Bytes)
    (contentType : Bytes) (uploadDirectory : Path) (limits : MultipartLimits) (st : Uploads) :
    SuccessMeansStored (uploadedParts env spoolFile contentType limits)
        (Multipart.saveUploadsFromSpoolFile env spoolFile contentType uploadDirectory limits st) ↔
      LastingWritesTaken env spoolFile contentType limits st.opened st.writes := by
  rw [uploadedParts]
  cases hbehind : behindDelimiter env spoolFile contentType limits with
  | none =>
      refine iff_of_true (fun result hresult hok => ?_) fun delimiter lines h => ?_
      · obtain ⟨answer, hrun, hrefused⟩ :=
          saveUploadsFromSpoolFile_early hbehind uploadDirectory st
        rw [hrun] at hresult
        rw [hrefused result hresult] at hok
        cases hok
      · rw [hbehind] at h
        cases h
  | some behind =>
      obtain ⟨delimiter, lines⟩ := behind
      rw [saveUploadsFromSpoolFile_parts hbehind]
      have hlasting : LastingWritesTaken env spoolFile contentType limits st.opened st.writes ↔
          (AllAccepted env limits delimiter st.opened
              (cutParts delimiter limits.maxParts (lines.map dropCr)) →
            LastWritesTaken env st.opened st.writes
              ((cutParts delimiter limits.maxParts (lines.map dropCr)).filter
                fun p => IsFile p)) := by
        constructor
        · exact fun h => h delimiter lines hbehind
        · intro h delimiter' lines' hsome
          rw [hbehind] at hsome
          cases hsome
          exact h
      rw [hlasting]
      by_cases hall : AllAccepted env limits delimiter st.opened
          (cutParts delimiter limits.maxParts (lines.map dropCr))
      · have hrun := spoolLoop_stores uploadDirectory limits.maxParts lines [] st hall
        simp only [List.nil_append] at hrun
        rw [forall_prop_of_true hall, ← storeFiles_hold_iff, ← forall₂_savedFiles env
          uploadDirectory, hrun]
        constructor
        · exact fun h => h _ rfl rfl
        · rintro h _ ⟨⟩ -
          exact h
      · refine iff_of_true (fun result hresult hok => ?_) fun h => absurd h hall
        have hrefused := spoolLoop_refused uploadDirectory limits.maxParts lines [] st hall
        rw [← Except.ok.inj hresult, hrefused] at hok
        cases hok

/-- No write takes anything. -/
def fullDisk : UploadEnv := { micros := id, accepts := fun _ => some 0 }

def smallFileForm : Bytes :=
  bytes "--B\r\nContent-Disposition: form-data; name=\"f\"; filename=\"a.txt\"\r\n" ++
    bytes "\r\nhi\r\n--B--\r\n"

/-- The upload of a file to a full disk succeeds, and reports two bytes that are not there. -/
theorem full_disk_upload_succeeds :
    let contentType := bytes "multipart/form-data; boundary=B"
    let run := Multipart.saveUploadsFromSpoolFile fullDisk (some smallFileForm) contentType {} {} {}
    (∃ result, run.1 = .ok result ∧ result.ok = true ∧
      result.files.map (fun f => (f.storedFilename, f.size)) = [(bytes "0_a.txt", 2)] ∧
      run.2.dir.lookup (bytes "0_a.txt") = some []) ∧
    ¬ SuccessMeansStored (uploadedParts fullDisk (some smallFileForm) contentType {}) run := by
  intro contentType run
  let saved : MultipartSavedFile :=
    { fieldName := bytes "f", originalFilename := bytes "a.txt", storedFilename := bytes "0_a.txt"
      storedPath := {} / Path.ofBytes (bytes "0_a.txt"), size := 2 }
  have hrun : run = (.ok (accept [saved]),
      { dir := [(bytes "0_a.txt", [])], opened := 1, writes := 1 }) := by
    decide +kernel
  rw [hrun]
  refine ⟨⟨_, rfl, rfl, rfl, rfl⟩, fun h => ?_⟩
  have hparts : (uploadedParts fullDisk (some smallFileForm) contentType {}).filter
      (fun p => IsFile p) =
        [⟨[bytes "Content-Disposition: form-data; name=\"f\"; filename=\"a.txt\""],
          [bytes "hi"], some (bytes "--B--")⟩] := by
    decide +kernel
  have hholds := h _ rfl rfl
  rw [hparts] at hholds
  have hfile : [(bytes "0_a.txt", ([] : Bytes))].lookup (bytes "0_a.txt") = some (bytes "hi") :=
    (List.forall₂_cons.mp hholds).1.1
  exact absurd hfile (by decide)

end HydrogenHttpd.Ref
