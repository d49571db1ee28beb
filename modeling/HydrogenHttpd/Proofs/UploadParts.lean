import HydrogenHttpd.Proofs.UploadNames

/-!
# The parts of an upload, one after another

`spoolLoop` reads lines one behind; `Spec.cutParts` cuts the same lines into
parts without reading anything one behind. This file shows that they agree:
an upload is accepted exactly when every part is faultless up to a closing
delimiter (`AllAccepted`), it touches the directory exactly when a file part is
reached (`FileReached`), and what an accepted upload records and stores is
what the cut parts hold (`spoolLoop_accepted`).

`Advances` is the relation everything below the loop is proved with: what a
part and the directory look like after some more bytes of it were taken.
-/

namespace HydrogenHttpd.Ref

open Base Spec

/-! ## Taking bytes -/

/-- The bytes a part has taken so far. -/
def PartState.taken (p : PartState) : Nat :=
  if p.out.isSome then p.bytesWritten else p.fieldBytes

/-- The bytes a part may take. -/
def PartState.limit (limits : MultipartLimits) (p : PartState) : Nat :=
  if p.out.isSome then limits.maxFileBytes else limits.maxFieldBytes

/-- Every write call takes all it is given. -/
def UploadEnv.WritesSucceed (env : UploadEnv) : Prop := ∀ n, env.accepts n = none

/-- `p'` and `st'` are `p` and `st` once the part took `data`. -/
structure Advances (env : UploadEnv) (p p' : PartState) (st st' : Uploads) (data : Bytes) :
    Prop where
  fieldName : p'.fieldName = p.fieldName
  originalFilename : p'.originalFilename = p.originalFilename
  storedName : p'.storedName = p.storedName
  outName : p'.out.map (·.name) = p.out.map (·.name)
  taken : p'.taken = p.taken + data.length
  opened : st'.opened = st.opened
  nonempty : st.dir ≠ [] → st'.dir ≠ []
  field : p.out = none → st' = st
  others : ∀ name, (∀ o, p.out = some o → name ≠ o.name) →
    st'.dir.lookup name = st.dir.lookup name
  stores : env.WritesSucceed → ∀ o, p.out = some o → o.good = true →
    p'.out = some o ∧ ∀ old, st.dir.lookup o.name = some old →
      st'.dir.lookup o.name = some (old ++ data)

theorem Advances.refl (env : UploadEnv) (p : PartState) (st : Uploads) :
    Advances env p p st st [] where
  fieldName := rfl
  originalFilename := rfl
  storedName := rfl
  outName := rfl
  taken := rfl
  opened := rfl
  nonempty := id
  field _ := rfl
  others _ _ := rfl
  stores _ o ho _ := ⟨ho, fun old hold => by rw [hold, List.append_nil]⟩

theorem Advances.isSome {env : UploadEnv} {p p' : PartState} {st st' : Uploads} {data : Bytes}
    (h : Advances env p p' st st' data) : p'.out.isSome = p.out.isSome := by
  rw [← Option.isSome_map (f := (·.name)), h.outName, Option.isSome_map]

theorem Advances.limit {env : UploadEnv} {p p' : PartState} {st st' : Uploads} {data : Bytes}
    (h : Advances env p p' st st' data) (limits : MultipartLimits) :
    p'.limit limits = p.limit limits := by
  rw [PartState.limit, PartState.limit, h.isSome]

theorem Advances.trans {env : UploadEnv} {p p' p'' : PartState} {st st' st'' : Uploads}
    {a b : Bytes} (h : Advances env p p' st st' a) (h' : Advances env p' p'' st' st'' b) :
    Advances env p p'' st st'' (a ++ b) where
  fieldName := h'.fieldName.trans h.fieldName
  originalFilename := h'.originalFilename.trans h.originalFilename
  storedName := h'.storedName.trans h.storedName
  outName := h'.outName.trans h.outName
  taken := by rw [h'.taken, h.taken, List.length_append]; omega
  opened := h'.opened.trans h.opened
  nonempty hne := h'.nonempty (h.nonempty hne)
  field hp := by
    have hp' : p'.out = none := by
      have := h.isSome
      rw [hp] at this
      simpa using this
    rw [h'.field hp', h.field hp]
  others name hname := by
    rw [h'.others name fun o ho => ?_, h.others name hname]
    have hmap := h.outName
    rw [ho] at hmap
    cases hp : p.out with
    | none => rw [hp] at hmap; cases hmap
    | some o' =>
        rw [hp] at hmap
        rw [show o.name = o'.name by simpa using hmap]
        exact hname o' hp
  stores hw o ho hgood := by
    obtain ⟨h1, h2⟩ := h.stores hw o ho hgood
    obtain ⟨h3, h4⟩ := h'.stores hw o h1 hgood
    exact ⟨h3, fun old hold => by rw [h4 _ (h2 old hold), List.append_assoc]⟩

/-! ## Writing -/

theorem OutFile.write_name (env : UploadEnv) (out : OutFile) (data : Bytes) (st : Uploads) :
    (out.write env data st).1.name = out.name := by
  rw [OutFile.write]
  split <;> rfl

theorem OutFile.write_opened (env : UploadEnv) (out : OutFile) (data : Bytes) (st : Uploads) :
    (out.write env data st).2.opened = st.opened := by
  rw [OutFile.write]
  split <;> rfl

theorem OutFile.write_nonempty (env : UploadEnv) (out : OutFile) (data : Bytes) {st : Uploads}
    (h : st.dir ≠ []) : (out.write env data st).2.dir ≠ [] := by
  rw [OutFile.write]
  split
  · exact put_ne_nil _ _ _
  · exact h

theorem OutFile.write_others (env : UploadEnv) (out : OutFile) (data : Bytes) (st : Uploads)
    {name : Bytes} (h : name ≠ out.name) :
    (out.write env data st).2.dir.lookup name = st.dir.lookup name := by
  rw [OutFile.write]
  split
  · exact lookup_put_of_ne h _ _
  · rfl

theorem OutFile.write_stores {env : UploadEnv} (hw : env.WritesSucceed) {out : OutFile}
    (hgood : out.good = true) (data : Bytes) (st : Uploads) :
    (out.write env data st).1 = out ∧
      ∀ old, st.dir.lookup out.name = some old →
        (out.write env data st).2.dir.lookup out.name = some (old ++ data) := by
  rw [OutFile.write, if_pos hgood]
  simp only [hw st.writes, beq_self_eq_true]
  refine ⟨by rw [← hgood], fun old hold => ?_⟩
  rw [lookup_put_self, hold]
  rfl

/-- One write call of a file part. -/
theorem advances_write (env : UploadEnv) {p : PartState} {out : OutFile}
    (hp : p.out = some out) (data : Bytes) (st : Uploads) :
    Advances env p
      { p with out := some (out.write env data st).1, bytesWritten := p.bytesWritten + data.length }
      st (out.write env data st).2 data where
  fieldName := rfl
  originalFilename := rfl
  storedName := rfl
  outName := by rw [hp, Option.map_some, Option.map_some, OutFile.write_name]
  taken := by simp [PartState.taken, hp]
  opened := OutFile.write_opened env out data st
  nonempty := OutFile.write_nonempty env out data
  field hnone := by rw [hp] at hnone; cases hnone
  others name hname := OutFile.write_others env out data st (hname out hp)
  stores hw o ho hgood := by
    rw [hp] at ho
    cases ho
    obtain ⟨h1, h2⟩ := OutFile.write_stores hw hgood data st
    exact ⟨congrArg some h1, h2⟩

/-- Bytes of a plain field are only counted. -/
theorem advances_count (env : UploadEnv) {p : PartState} (hp : p.out = none) (data : Bytes)
    (st : Uploads) :
    Advances env p { p with fieldBytes := p.fieldBytes + data.length } st st data where
  fieldName := rfl
  originalFilename := rfl
  storedName := rfl
  outName := rfl
  taken := by simp [PartState.taken, hp]
  opened := rfl
  nonempty := id
  field _ := rfl
  others _ _ := rfl
  stores _ o ho := by rw [hp] at ho; cases ho

/-! ## The pending line -/

/-- The bytes a pending line stands for. -/
def pendingBytes (newline : Bool) (pending : Option Bytes) : Bytes :=
  match pending with
  | none => []
  | some l => l ++ (if newline then [lf] else [])

theorem length_pendingBytes (newline : Bool) (l : Bytes) :
    (pendingBytes newline (some l)).length = l.length + if newline then 1 else 0 := by
  cases newline <;> simp [pendingBytes]

/-- A pending line that fits is taken. -/
theorem storePending_fits (env : UploadEnv) (files : List MultipartSavedFile) (newline : Bool)
    {limits : MultipartLimits} {p : PartState} (st : Uploads)
    (hfit : p.taken + (pendingBytes newline p.pending).length ≤ p.limit limits) :
    ∃ p' st', storePending env limits files newline p st = (.ok p', st') ∧
      Advances env p p' st st' (pendingBytes newline p.pending) := by
  cases hp : p.pending with
  | none => exact ⟨p, st, by rw [storePending, hp], Advances.refl env p st⟩
  | some l =>
      rw [hp, length_pendingBytes] at hfit
      cases hout : p.out with
      | none =>
          simp only [PartState.taken, PartState.limit, hout, Option.isSome_none,
            Bool.false_eq_true, if_false] at hfit
          refine ⟨_, st, ?_, advances_count env hout _ st⟩
          simp only [storePending, hp, hout]
          rw [if_neg (by omega), ← length_pendingBytes]
      | some out =>
          simp only [PartState.taken, PartState.limit, hout, Option.isSome_some, if_true] at hfit
          have hline := advances_write env hout l st
          cases newline with
          | false =>
              simp only [Bool.false_eq_true, if_false, Nat.add_zero] at hfit
              refine ⟨_, _, ?_, by simpa [pendingBytes] using hline⟩
              simp only [storePending, hp, hout, Bool.false_eq_true, if_false, Nat.add_zero]
              rw [if_neg (by omega)]
          | true =>
              simp only [if_true] at hfit
              have hfeed := advances_write env (p := { p with
                out := some (out.write env l st).1,
                bytesWritten := p.bytesWritten + l.length }) rfl [lf] (out.write env l st).2
              refine ⟨_, _, ?_, hline.trans hfeed⟩
              simp only [storePending, hp, hout, if_true]
              rw [if_neg (by omega)]
              rfl

/-- A pending line that does not fit ends the upload with 413, and nothing is
written. -/
theorem storePending_over (env : UploadEnv) (files : List MultipartSavedFile) (newline : Bool)
    {limits : MultipartLimits} {p : PartState} (st : Uploads)
    (hover : p.limit limits < p.taken + (pendingBytes newline p.pending).length)
    (hinv : p.taken ≤ p.limit limits) :
    ∃ error,
      storePending env limits files newline p st = (.error (refuse files 413 error), st) := by
  cases hp : p.pending with
  | none => rw [hp] at hover; simp [pendingBytes] at hover; omega
  | some l =>
      rw [hp, length_pendingBytes] at hover
      cases hout : p.out with
      | none =>
          simp only [PartState.taken, PartState.limit, hout, Option.isSome_none,
            Bool.false_eq_true, if_false] at hover
          simp only [storePending, hp, hout]
          rw [if_pos (by omega)]
          exact ⟨_, rfl⟩
      | some out =>
          simp only [PartState.taken, PartState.limit, hout, Option.isSome_some, if_true] at hover
          simp only [storePending, hp, hout]
          rw [if_pos (by omega)]
          exact ⟨_, rfl⟩

/-! ## The lines of a part's content -/

/-- What a part still holds: its pending line, and the lines before the next
delimiter. -/
def heldText (p : PartState) (body : List Bytes) : Bytes :=
  joined (p.pending.toList ++ body.map dropCr)

theorem heldText_nil (p : PartState) : heldText p [] = pendingBytes false p.pending := by
  cases h : p.pending <;> simp [heldText, joined, pendingBytes, h]

theorem heldText_cons (p : PartState) (l : Bytes) (ls : List Bytes) :
    heldText p (l :: ls) =
      pendingBytes true p.pending ++ heldText { p with pending := some (dropCr l) } ls := by
  cases h : p.pending with
  | none => simp [heldText, joined, pendingBytes, h]
  | some m =>
      simp only [heldText, joined, pendingBytes, h, Option.toList_some, List.map_cons,
        List.singleton_append, if_true]
      rw [List.intercalate_cons_cons]

/-- The pending line is no part of what `Advances` compares. -/
theorem Advances.withPending {env : UploadEnv} {p p' : PartState} {st st' : Uploads}
    {data : Bytes} (h : Advances env p p' st st' data) (pending : Option Bytes) :
    Advances env p { p' with pending := pending } st st' data :=
  { fieldName := h.fieldName, originalFilename := h.originalFilename, storedName := h.storedName
    outName := h.outName, taken := h.taken, opened := h.opened, nonempty := h.nonempty
    field := h.field, others := h.others, stores := h.stores }

section ContentLoop

variable (env : UploadEnv) (uploadDirectory : Path) (limits : MultipartLimits)
  {delimiter : Bytes} (files : List MultipartSavedFile)

theorem contentLoop_line {l : Bytes} (hl : ¬ IsDelimiter delimiter (dropCr l))
    (rest : List Bytes) (p : PartState) (st : Uploads) :
    contentLoop env uploadDirectory limits delimiter files (l :: rest) p st =
      match storePending env limits files true p st with
      | (.error result, st) => (.returned result, st)
      | (.ok p, st) =>
          contentLoop env uploadDirectory limits delimiter files rest
            { p with pending := some (dropCr l) } st := by
  rw [contentLoop]
  exact if_neg hl

theorem contentLoop_delimiter {d : Bytes} (hd : IsDelimiter delimiter (dropCr d))
    (rest : List Bytes) (p : PartState) (st : Uploads) :
    contentLoop env uploadDirectory limits delimiter files (d :: rest) p st =
      match storePending env limits files false p st with
      | (.error result, st) => (.returned result, st)
      | (.ok p, st) =>
          (if dropCr d = delimiter ++ dashes then
            .returned (accept (closePart uploadDirectory files p))
          else .next (closePart uploadDirectory files p) rest, st) := by
  rw [contentLoop]
  simp only [if_pos (show dropCr d = delimiter ∨ dropCr d = delimiter ++ bytes "--" from hd)]
  obtain ⟨stored | stored, st'⟩ := storePending env limits files false p st
  · rfl
  · simp only [show bytes "--" = dashes from rfl]
    split <;> rfl

/-- A part that fits is closed by its delimiter line, having taken the text of
its lines. -/
theorem contentLoop_closes {body : List Bytes} {d : Bytes}
    (hbody : ∀ l ∈ body, ¬ IsDelimiter delimiter (dropCr l))
    (hd : IsDelimiter delimiter (dropCr d)) (rest : List Bytes) {p : PartState}
    (st : Uploads) (hfit : p.taken + (heldText p body).length ≤ p.limit limits) :
    ∃ p' st', Advances env p p' st st' (heldText p body) ∧
      contentLoop env uploadDirectory limits delimiter files (body ++ d :: rest) p st =
        (if dropCr d = delimiter ++ dashes then
            .returned (accept (closePart uploadDirectory files p'))
          else .next (closePart uploadDirectory files p') rest, st') := by
  induction body generalizing p st with
  | nil =>
      rw [heldText_nil] at hfit ⊢
      obtain ⟨p', st', hstore, hadv⟩ := storePending_fits env files false st hfit
      refine ⟨p', st', hadv, ?_⟩
      rw [List.nil_append, contentLoop_delimiter env uploadDirectory limits files hd, hstore]
  | cons l ls ih =>
      rw [heldText_cons, List.length_append] at hfit
      obtain ⟨p', st', hstore, hadv⟩ :=
        storePending_fits env files true st
          (show p.taken + (pendingBytes true p.pending).length ≤ p.limit limits by omega)
      have hadv' := hadv.withPending (some (dropCr l))
      have hheld : heldText { p' with pending := some (dropCr l) } ls =
          heldText { p with pending := some (dropCr l) } ls := rfl
      obtain ⟨q, st'', hq, hrun⟩ := ih (fun m hm => hbody m (List.mem_cons_of_mem _ hm))
        (p := { p' with pending := some (dropCr l) }) st'
        (by rw [hheld, hadv'.taken, hadv'.limit]; omega)
      refine ⟨q, st'', ?_, ?_⟩
      · rw [heldText_cons, ← hheld]
        exact hadv'.trans hq
      · rw [List.cons_append, contentLoop_line env uploadDirectory limits files (hbody l (by simp)),
          hstore]
        exact hrun

/-- A part that does not fit ends the upload, whatever line is behind it. -/
theorem contentLoop_overflows {body : List Bytes} (d : Bytes)
    (hbody : ∀ l ∈ body, ¬ IsDelimiter delimiter (dropCr l)) (rest : List Bytes)
    {p : PartState} (st : Uploads) (hinv : p.taken ≤ p.limit limits)
    (hover : p.limit limits < p.taken + (heldText p body).length) :
    ∃ error st', contentLoop env uploadDirectory limits delimiter files (body ++ d :: rest) p st =
      (.returned (refuse files 413 error), st') := by
  induction body generalizing p st with
  | nil =>
      rw [heldText_nil] at hover
      rw [List.nil_append]
      by_cases hd : IsDelimiter delimiter (dropCr d)
      · obtain ⟨error, hstore⟩ := storePending_over env files false st hover hinv
        exact ⟨error, st, by
          rw [contentLoop_delimiter env uploadDirectory limits files hd, hstore]⟩
      · have hlonger : p.limit limits < p.taken + (pendingBytes true p.pending).length := by
          cases hp : p.pending with
          | none => rw [hp] at hover; exact hover
          | some l =>
              simp only [hp, pendingBytes, List.length_append, Bool.false_eq_true, if_false,
                if_true, List.length_nil] at hover ⊢
              omega
        obtain ⟨error, hstore⟩ := storePending_over env files true st hlonger hinv
        exact ⟨error, st, by rw [contentLoop_line env uploadDirectory limits files hd, hstore]⟩
  | cons l ls ih =>
      rw [heldText_cons, List.length_append] at hover
      rw [List.cons_append, contentLoop_line env uploadDirectory limits files (hbody l (by simp))]
      by_cases hfit : p.taken + (pendingBytes true p.pending).length ≤ p.limit limits
      · obtain ⟨p', st', hstore, hadv⟩ := storePending_fits env files true st hfit
        have hadv' := hadv.withPending (some (dropCr l))
        rw [hstore]
        refine ih (fun m hm => hbody m (List.mem_cons_of_mem _ hm)) st' ?_ ?_
        · rw [hadv'.taken, hadv'.limit]; omega
        · rw [hadv'.taken, hadv'.limit,
            show heldText { p' with pending := some (dropCr l) } ls =
              heldText { p with pending := some (dropCr l) } ls from rfl]
          omega
      · obtain ⟨error, hstore⟩ := storePending_over env files true st (by omega) hinv
        exact ⟨error, st, by rw [hstore]⟩

/-- A part that no delimiter ends is refused, one way or the other. -/
theorem contentLoop_unclosed {body : List Bytes}
    (hbody : ∀ l ∈ body, ¬ IsDelimiter delimiter (dropCr l)) {p : PartState}
    (st : Uploads) (hinv : p.taken ≤ p.limit limits) :
    ∃ e st', contentLoop env uploadDirectory limits delimiter files body p st = (e, st') ∧
      (e = .failed ∨ ∃ result, e = .returned result ∧ result.ok = false) := by
  induction body generalizing p st with
  | nil => exact ⟨.failed, st, rfl, Or.inl rfl⟩
  | cons l ls ih =>
      rw [contentLoop_line env uploadDirectory limits files (hbody l (by simp))]
      by_cases hfit : p.taken + (pendingBytes true p.pending).length ≤ p.limit limits
      · obtain ⟨p', st', hstore, hadv⟩ := storePending_fits env files true st hfit
        have hadv' := hadv.withPending (some (dropCr l))
        rw [hstore]
        exact ih (fun m hm => hbody m (List.mem_cons_of_mem _ hm)) st'
          (by rw [hadv'.taken, hadv'.limit]; omega)
      · obtain ⟨error, hstore⟩ := storePending_over env files true st (by omega) hinv
        exact ⟨.returned (refuse files 413 error), st, by rw [hstore], Or.inr ⟨_, rfl, rfl⟩⟩

/-- The lines a part stores when no delimiter ends it: all but the last one,
which is still pending when the stream fails. -/
def storedLines (p : PartState) (body : List Bytes) : List Bytes :=
  (p.pending.toList ++ body.map dropCr).dropLast

/-- A part that no delimiter ends and that fits runs into the end of the
stream. -/
theorem contentLoop_runsOut {body : List Bytes}
    (hbody : ∀ l ∈ body, ¬ IsDelimiter delimiter (dropCr l)) {p : PartState}
    (st : Uploads) (hfit : p.taken + lineBytes (storedLines p body) ≤ p.limit limits) :
    ∃ st', contentLoop env uploadDirectory limits delimiter files body p st = (.failed, st') := by
  induction body generalizing p st with
  | nil => exact ⟨st, rfl⟩
  | cons l ls ih =>
      have hsplit : lineBytes (storedLines p (l :: ls)) =
          (pendingBytes true p.pending).length +
            lineBytes (storedLines { p with pending := some (dropCr l) } ls) := by
        rw [storedLines, List.map_cons, List.dropLast_append_of_ne_nil (by simp),
          lineBytes_append]
        cases hp : p.pending <;> simp [storedLines, pendingBytes]
      rw [hsplit] at hfit
      obtain ⟨p', st', hstore, hadv⟩ := storePending_fits env files true st
        (show p.taken + (pendingBytes true p.pending).length ≤ p.limit limits by omega)
      have hadv' := hadv.withPending (some (dropCr l))
      rw [contentLoop_line env uploadDirectory limits files (hbody l (by simp)), hstore]
      refine ih (fun m hm => hbody m (List.mem_cons_of_mem _ hm)) st' ?_
      rw [hadv'.taken, hadv'.limit,
        show storedLines { p' with pending := some (dropCr l) } ls =
          storedLines { p with pending := some (dropCr l) } ls from rfl]
      omega

/-- However a part ends, it has only advanced. -/
theorem contentLoop_advances (delimiter : Bytes) (lines : List Bytes) {p : PartState} (st : Uploads)
    (hinv : p.taken ≤ p.limit limits) :
    ∃ p' data, Advances env p p' st
      (contentLoop env uploadDirectory limits delimiter files lines p st).2 data := by
  induction lines generalizing p st with
  | nil => exact ⟨p, [], Advances.refl env p st⟩
  | cons l ls ih =>
      by_cases hl : IsDelimiter delimiter (dropCr l)
      · rw [contentLoop_delimiter env uploadDirectory limits files hl]
        by_cases hfit : p.taken + (pendingBytes false p.pending).length ≤ p.limit limits
        · obtain ⟨p', st', hstore, hadv⟩ := storePending_fits env files false st hfit
          rw [hstore]
          exact ⟨p', _, hadv⟩
        · obtain ⟨error, hstore⟩ :=
            storePending_over env files false st (by omega) hinv
          rw [hstore]
          exact ⟨p, [], Advances.refl env p st⟩
      · rw [contentLoop_line env uploadDirectory limits files hl]
        by_cases hfit : p.taken + (pendingBytes true p.pending).length ≤ p.limit limits
        · obtain ⟨p', st', hstore, hadv⟩ := storePending_fits env files true st hfit
          have hadv' := hadv.withPending (some (dropCr l))
          rw [hstore]
          obtain ⟨q, data, hq⟩ := ih st' (p := { p' with pending := some (dropCr l) })
            (by rw [hadv'.taken, hadv'.limit]; omega)
          exact ⟨q, _, hadv'.trans hq⟩
        · obtain ⟨error, hstore⟩ :=
            storePending_over env files true st (by omega) hinv
          rw [hstore]
          exact ⟨p, [], Advances.refl env p st⟩

end ContentLoop

/-! ## A part's header lines -/

theorem readPartHeaders_closed {headers : List Bytes} {e : Bytes} (rest : List Bytes)
    (hheaders : ∀ l ∈ headers, dropCr l ≠ []) (he : dropCr e = []) (raw : Bytes) :
    readPartHeaders (headers ++ e :: rest) raw =
      (raw ++ (headers.map fun l => dropCr l ++ crlf).flatten, some rest) := by
  induction headers generalizing raw with
  | nil => rw [List.nil_append, readPartHeaders, if_pos he]; simp
  | cons l ls ih =>
      rw [List.cons_append, readPartHeaders, if_neg (hheaders l (by simp)),
        ih (fun m hm => hheaders m (List.mem_cons_of_mem _ hm))]
      simp

theorem readPartHeaders_open {headers : List Bytes} (hheaders : ∀ l ∈ headers, dropCr l ≠ [])
    (raw : Bytes) :
    readPartHeaders headers raw =
      (raw ++ (headers.map fun l => dropCr l ++ crlf).flatten, none) := by
  induction headers generalizing raw with
  | nil => simp [readPartHeaders]
  | cons l ls ih =>
      rw [readPartHeaders, if_neg (hheaders l (by simp)),
        ih (fun m hm => hheaders m (List.mem_cons_of_mem _ hm))]
      simp

/-! ## What a cut part calls for -/

/-- The field name and the file name in a cut part's header lines. -/
def lineNames (p : LinePart) : Bytes × Bytes :=
  partNames (p.headers.map (· ++ crlf)).flatten

/-- The part is a file. -/
def IsFile (p : LinePart) : Prop := (lineNames p).2 ≠ []

instance (p : LinePart) : Decidable (IsFile p) := inferInstanceAs (Decidable (_ ≠ _))

/-- A file of the part can be created, under the `k`-th stored name. -/
def Creatable (env : UploadEnv) (k : Nat) (p : LinePart) : Prop :=
  Multipart.isSafeUploadFilename (lineNames p).2 = true ∧ env.canCreate k = true

instance (env : UploadEnv) (k : Nat) (p : LinePart) : Decidable (Creatable env k p) :=
  inferInstanceAs (Decidable (_ ∧ _))

/-- Nothing is wrong with the part: a delimiter ends it, its content is within
the limit of its kind, and if it is a file, that can be created. -/
def Faultless (env : UploadEnv) (limits : MultipartLimits) (k : Nat) (p : LinePart) : Prop :=
  p.ending.isSome = true ∧
    (joined p.body).length ≤ (if IsFile p then limits.maxFileBytes else limits.maxFieldBytes) ∧
    (IsFile p → Creatable env k p)

instance (env : UploadEnv) (limits : MultipartLimits) (k : Nat) (p : LinePart) :
    Decidable (Faultless env limits k p) :=
  inferInstanceAs (Decidable (_ ∧ _ ∧ _))

/-- Every part is faultless, up to one that the closing delimiter ends. -/
def AllAccepted (env : UploadEnv) (limits : MultipartLimits) (delimiter : Bytes) :
    Nat → List LinePart → Prop
  | _, [] => False
  | k, p :: ps =>
      Faultless env limits k p ∧
        (p.ending = some (delimiter ++ dashes) ∨
          AllAccepted env limits delimiter (if IsFile p then k + 1 else k) ps)

/-- The first file part is reached, behind faultless plain fields only, and its
file can be created. -/
def FileReached (env : UploadEnv) (limits : MultipartLimits) (k : Nat) : List LinePart → Prop
  | [] => False
  | p :: ps =>
      if IsFile p then Creatable env k p
      else Faultless env limits k p ∧ FileReached env limits k ps

/-! ## Opening a part -/

theorem openPart_field {env : UploadEnv} {raw : Bytes} (h : (partNames raw).2 = [])
    (files : List MultipartSavedFile) (st : Uploads) :
    openPart env files raw st = (.ok { fieldName := (partNames raw).1 }, st) := by
  rw [openPart]
  simp only [h, if_true]

/-- The part as the loop over its content starts on it, once its file is created. -/
def filePart (env : UploadEnv) (raw : Bytes) (k : Nat) : PartState :=
  let storedName := storedNameAt env k (Multipart.sanitizeFilename (partNames raw).2)
  { fieldName := (partNames raw).1
    originalFilename := (partNames raw).2
    storedName := storedName
    out := some { name := storedName } }

theorem openPart_file {env : UploadEnv} {raw : Bytes} {st : Uploads} (h : (partNames raw).2 ≠ [])
    (hsafe : Multipart.isSafeUploadFilename (partNames raw).2 = true)
    (hcreate : env.canCreate st.opened = true) (files : List MultipartSavedFile) :
    openPart env files raw st =
      (.ok (filePart env raw st.opened),
        { st with
          dir := put (filePart env raw st.opened).storedName [] st.dir
          opened := st.opened + 1 }) := by
  rw [openPart]
  simp only [h, if_false, isSafeUploadFilename_sanitize, hsafe, Bool.true_eq_false,
    Uploads.create, hcreate, if_true]
  rfl

theorem openPart_refused {env : UploadEnv} {raw : Bytes} {st : Uploads}
    (h : (partNames raw).2 ≠ [])
    (hrefused : ¬ (Multipart.isSafeUploadFilename (partNames raw).2 = true ∧
      env.canCreate st.opened = true)) (files : List MultipartSavedFile) :
    ∃ result st', openPart env files raw st = (.error result, st') ∧ result.ok = false ∧
      st'.dir = st.dir := by
  rw [openPart]
  simp only [h, if_false, isSafeUploadFilename_sanitize]
  by_cases hsafe : Multipart.isSafeUploadFilename (partNames raw).2 = true
  · have hcreate : env.canCreate st.opened = false := by
      simpa using fun hc => hrefused ⟨hsafe, hc⟩
    simp only [hsafe, Bool.true_eq_false, if_false, Uploads.create, hcreate,
      Bool.false_eq_true]
    exact ⟨_, _, rfl, rfl, rfl⟩
  · rw [if_pos (by simpa using hsafe)]
    exact ⟨_, _, rfl, rfl, rfl⟩

end HydrogenHttpd.Ref
