import HydrogenHttpd.Proofs.Calls
import HydrogenHttpd.Ref.SpoolProgram

/-!
# No upload leaves its spool file behind

The record `leftBehind` of a run of the upload branch holds the spool files it
has opened and not removed since; an open that fails counts, as it may have
created the file. Whatever the branch is told by the file system, the
connection and the parser, the record is empty when it returns or throws
(`spoolUpload_leaves`): one of the removals stands on every way out. So on any
host that brings a file about only where the branch opens one, and removes what
it is told to remove, no file of the request remains, while the other requests
do what they like with their own (`spoolUpload_host`).

`handleClientStream` runs the branch on its own connection
(`spoolUpload_exec`), and leaves the spool directory as it was.
-/

namespace HydrogenHttpd.Ref

open Base

namespace SpoolProgram

/-! ## What a run has left behind so far -/

def leftBehind (g : List Path) : (q : SpoolQuestion) → SpoolAnswer q → List Path
  | .openSpool path, _ => path :: g
  | .remove path, _ => g.filter (· ≠ path)
  | _, _ => g

/-- A program that keeps to `post` between the record and the answer, whatever
it is told. -/
abbrev Leaves {α : Type} (post : List Path → α → Prop) (p : SpoolProgram α) (g : List Path) :
    Prop :=
  p.Follows leftBehind (fun _ _ => True) post g

theorem writeLeftover_leaves (path : Path) (leftover : Bytes) (contentLength : Nat)
    (g : List Path) :
    Leaves (fun g' _ => g' = g) (writeLeftover path leftover contentLength) g := by
  rw [writeLeftover]
  split
  · exact rfl
  · exact ⟨trivial, fun _ => rfl⟩

theorem receiveLoop_leaves (path : Path) (contentLength written : Nat) (g : List Path) :
    Leaves (fun g' _ => g' = g) (receiveLoop path contentLength written) g := by
  fun_induction receiveLoop with
  | case1 written hlt ih =>
      refine ⟨trivial, fun answer => ?_⟩
      cases answer with
      | eof => exact rfl
      | failed e => exact rfl
      | data first rest => exact ⟨trivial, fun _ => ih first rest⟩
  | case2 written hge => exact rfl

/-- The `try` block leaves nothing behind when it returns, and at most the
spool file when it throws. -/
theorem spoolTry_leaves (res : HttpResponse) (leftover : Bytes) (contentLength : Nat)
    (path : Path) :
    Leaves
      (fun g r => match r with | .ok _ => g = [] | .error _ => g = [path])
      (spoolTry res leftover contentLength path) [] := by
  have hremoved : [path].filter (· ≠ path) = [] := by simp
  refine ⟨trivial, fun (opened : Bool) => ?_⟩
  cases opened with
  | false => exact rfl
  | true =>
      refine Prog.Follows.bind ((writeLeftover_leaves path leftover contentLength _).mono ?_)
      rintro g written rfl
      refine Prog.Follows.bind ((receiveLoop_leaves path contentLength written _).mono ?_)
      rintro g received rfl
      cases received with
      | error e => exact rfl
      | ok written =>
          refine ⟨trivial, fun _ => ?_⟩
          split
          · exact ⟨trivial, fun _ => hremoved⟩
          · refine ⟨trivial, fun (saved : Except Bytes MultipartResult) => ?_⟩
            cases saved with
            | error e => exact rfl
            | ok result => exact ⟨trivial, fun _ => hremoved⟩

/-- Nothing is left behind, whatever the branch is told. -/
theorem spoolUpload_leaves (config : ServerConfig) (res : HttpResponse) (leftover : Bytes)
    (contentLength : Nat) :
    Leaves (fun g _ => g = []) (spoolUpload config res leftover contentLength) [] := by
  refine ⟨trivial, fun (made : Except Bytes Unit) => ?_⟩
  cases made with
  | error e => exact rfl
  | ok _ =>
      refine ⟨trivial, fun (micros : Nat) => ?_⟩
      refine Prog.Follows.bind ((spoolTry_leaves res leftover contentLength _).mono ?_)
      intro g r hr
      cases r with
      | ok res => exact hr
      | error e =>
          refine ⟨trivial, fun _ => ?_⟩
          have hremoved :
              g.filter (· ≠ uniqueSpoolPath config.uploadSpoolDirectory micros) = [] := by
            rw [show g = _ from hr]
            simp
          exact hremoved

/-! ## Hosts -/

/-- A host of the branch among other requests: `found` says which files there
are, and `others` which paths the other requests use. Between two questions the
others may have done anything under their paths. -/
structure Hosts {W : Type} (handle : W → (q : SpoolQuestion) → SpoolAnswer q × W)
    (found : W → Path → Prop) (others : Path → Prop) : Prop where
  opened : ∀ w q p, found (handle w q).2 p → found w p ∨ q = .openSpool p ∨ others p
  removed : ∀ w p, found (handle w (.remove p)).2 p → others p

/-- A file that is there in the end was there before, or is another request's. -/
theorem spoolUpload_host {W : Type} {handle : W → (q : SpoolQuestion) → SpoolAnswer q × W}
    {found : W → Path → Prop} {others : Path → Prop} (hhost : Hosts handle found others)
    (config : ServerConfig) (res : HttpResponse) (leftover : Bytes) (contentLength : Nat)
    (w : W) {p : Path} (hp : ¬ others p)
    (h : found ((spoolUpload config res leftover contentLength).exec handle w).2 p) :
    found w p := by
  have hkeep : ∀ w' g q, (∀ p, ¬ others p → found w' p → found w p ∨ p ∈ g) → True →
      ∀ p, ¬ others p → found (handle w' q).2 p →
        found w p ∨ p ∈ leftBehind g q (handle w' q).1 := by
    intro w' g q hinv _ p hp hfound
    have hbefore := hhost.opened w' q p hfound
    cases q with
    | openSpool path =>
        rcases hbefore with hb | hb | hb
        · exact (hinv p hp hb).imp_right fun hg => List.mem_cons_of_mem _ hg
        · cases hb
          exact .inr (List.mem_cons_self ..)
        · exact absurd hb hp
    | remove path =>
        have hne : p ≠ path := by
          rintro rfl
          exact hp (hhost.removed w' p hfound)
        rcases hbefore with hb | hb | hb
        · exact (hinv p hp hb).imp_right fun hg => List.mem_filter.mpr ⟨hg, by simpa using hne⟩
        · cases hb
        · exact absurd hb hp
    | createDirectories | micros | write | readSome | close | saveUploadsFromSpoolFile =>
        rcases hbefore with hb | hb | hb
        · exact hinv p hp hb
        · cases hb
        · exact absurd hb hp
  obtain ⟨hpost, hinv⟩ := Prog.Follows.exec hkeep
    (spoolUpload_leaves config res leftover contentLength) (fun p _ hfound => .inl hfound)
  rw [@Prog.exec_noted _ _ _ _ _ handle leftBehind _ w []] at h
  rcases hinv p hp h with hfound | hg
  · exact hfound
  · rw [hpost] at hg
    cases hg

end SpoolProgram

/-! ## The branch on its own connection -/

@[simp] theorem World.writeSpool_writeSpool (w : World) (path : Path) (content content' : Bytes) :
    (w.writeSpool path content).writeSpool path content' = w.writeSpool path content' := by
  rw [World.writeSpool, World.writeSpool, World.writeSpool]
  simp only [put_put]

@[simp] theorem World.lookup_writeSpool (w : World) (path : Path) (content : Bytes) :
    (w.writeSpool path content).spools.lookup path = some content :=
  lookup_put_self path content w.spools

@[simp] theorem World.removeSpool_writeSpool (w : World) (path : Path) (content : Bytes) :
    (w.writeSpool path content).removeSpool path = w.removeSpool path := by
  have hfilter : ∀ m : List (Path × Bytes),
      (put path content m).filter (·.1 ≠ path) = m.filter (·.1 ≠ path) := by
    intro m
    induction m with
    | nil => simp [put]
    | cons entry m ih =>
        rw [put]
        split
        next h => simp [h]
        next h => simp only [List.filter_cons, ih]
  rw [World.writeSpool, World.removeSpool, World.removeSpool]
  simp only [hfilter]

/-- The session of one request is a host without others. -/
theorem SpoolSession.hosts (env : ServerEnv) (config : ServerConfig) (contentType : Bytes) :
    SpoolProgram.Hosts (SpoolSession.answer env config contentType)
      (fun s p => p ∈ s.world.spools.map (·.1)) (fun _ => False) where
  opened s q p h := by
    cases q with
    | createDirectories | micros | close => exact .inl h
    | openSpool path =>
        simp only [SpoolSession.answer] at h
        split at h
        · exact (mem_keys_put.mp h).symm.imp_right fun h => .inl (by rw [h])
        · exact .inl h
    | write path data =>
        simp only [SpoolSession.answer] at h
        split at h
        · exact .inl h
        next content hcontent =>
            rcases mem_keys_put.mp h with rfl | h
            · exact .inl (List.mem_map_of_mem (mem_of_lookup hcontent))
            · exact .inl h
    | readSome size =>
        simp only [SpoolSession.answer] at h
        split at h <;> exact .inl h
    | saveUploadsFromSpoolFile path => exact .inl h
    | remove path =>
        obtain ⟨entry, hentry, rfl⟩ := List.mem_map.mp h
        exact .inl (List.mem_map_of_mem (List.mem_filter.mp hentry).1)
  removed s p h := by
    obtain ⟨entry, hentry, rfl⟩ := List.mem_map.mp h
    simpa using (List.mem_filter.mp hentry).2

/-- The loop receives what `collect` reads, and puts it behind what is in the file. -/
theorem receiveLoop_exec (env : ServerEnv) (config : ServerConfig) (contentType : Bytes)
    (path : Path) (contentLength : Nat) (w : World) {fuel : Nat} (content : Bytes)
    (stream : Connection) (hfuel : stream.pending.length < fuel) :
    ∃ stream' content',
      (SpoolProgram.receiveLoop path contentLength content.length).exec
          (SpoolSession.answer env config contentType) ⟨stream, w.writeSpool path content⟩ =
        (match (collect 8192 fuel (contentLength - content.length) content stream).1 with
          | .ok body => .ok body.length
          | .error e => .error (bytes "failed to stream upload body: " ++ e),
          ⟨stream', w.writeSpool path content'⟩) ∧
      ∀ body, (collect 8192 fuel (contentLength - content.length) content stream).1 = .ok body →
        content' = body := by
  induction fuel generalizing content stream with
  | zero => exact absurd hfuel (Nat.not_lt_zero _)
  | succ fuel ih =>
      rw [SpoolProgram.receiveLoop, collect]
      by_cases hlt : content.length < contentLength
      · rw [if_pos hlt, if_neg (by omega)]
        by_cases hs : stream.pending = []
        · have hread := Delivery.readSome_of_empty hs (min 8192 (contentLength - content.length))
          cases hf : stream.failure with
          | none =>
              rw [hf] at hread
              refine ⟨stream, content, ?_, ?_⟩ <;>
                simp [SpoolSession.answer, hread]
          | some e =>
              rw [hf] at hread
              refine ⟨stream, content, ?_, ?_⟩ <;>
                simp [SpoolSession.answer, hread]
        · obtain ⟨n, stream', hread, hpos, hsize, hlen, hrest, -⟩ :=
            Delivery.readSome_of_pending hs
              (show 0 < min 8192 (contentLength - content.length) by omega)
          obtain ⟨first, rest, hpiece⟩ : ∃ first rest, stream.pending.take n = first :: rest := by
            cases hp : stream.pending.take n with
            | nil => simp [hs] at hp; omega
            | cons first rest => exact ⟨first, rest, rfl⟩
          have htake : (first :: rest).take (min 8192 (contentLength - content.length)) =
              first :: rest := by
            rw [← hpiece, List.take_take, Nat.min_eq_right hsize]
          have hnext := ih (content ++ stream.pending.take n) stream'
            (by rw [hrest, List.length_drop]; omega)
          rw [List.length_append, ← Nat.sub_sub] at hnext
          rw [hpiece] at hread hnext
          simp only [hread, Prog.exec_ask, SpoolSession.answer, htake, World.lookup_writeSpool,
            World.writeSpool_writeSpool]
          exact hnext
      · rw [if_neg hlt, if_pos (by omega)]
        exact ⟨stream, content, rfl, fun body hbody => by cases hbody; rfl⟩

theorem writeLeftover_exec (env : ServerEnv) (config : ServerConfig) (contentType : Bytes)
    (path : Path) (leftover : Bytes) (contentLength : Nat) (stream : Connection) (w : World) :
    (SpoolProgram.writeLeftover path leftover contentLength).exec
        (SpoolSession.answer env config contentType) ⟨stream, w.writeSpool path []⟩ =
      ((leftover.take contentLength).length,
        ⟨stream, w.writeSpool path (leftover.take contentLength)⟩) := by
  rw [SpoolProgram.writeLeftover]
  split
  next h => simp [h]
  next h => simp [SpoolSession.answer, Nat.min_comm]

/-- Alone, the branch is `spoolUpload`. -/
theorem spoolUpload_exec (env : ServerEnv) (config : ServerConfig) (res : HttpResponse)
    (stream : Connection) (leftover : Bytes) (req : HttpRequest) (contentType : Bytes)
    (w : World) :
    let out := (SpoolProgram.spoolUpload config res leftover req.contentLength).exec
      (SpoolSession.answer env config contentType) ⟨stream, w⟩
    (out.1, out.2.world) = spoolUpload env config res stream leftover req contentType w := by
  intro out
  simp only [out, SpoolProgram.spoolUpload, Prog.exec_ask, SpoolSession.answer, spoolUpload]
  cases env.createSpoolDirectory with
  | error e => rfl
  | ok _ =>
      simp only [Prog.exec_ask, SpoolSession.answer, Prog.exec_bind, SpoolProgram.spoolTry]
      cases env.canCreateSpool with
      | false => rfl
      | true =>
          simp only [if_true, Bool.true_eq_false, if_false, Prog.exec_bind, writeLeftover_exec]
          have hmissing : req.contentLength - (leftover.take req.contentLength).length =
              req.contentLength - leftover.length := by
            rw [List.length_take]
            omega
          obtain ⟨stream', content', hexec, hcontent⟩ := receiveLoop_exec env config contentType
            (uniqueSpoolPath config.uploadSpoolDirectory env.spoolMicros) req.contentLength w
            (leftover.take req.contentLength) stream (Nat.lt_succ_self _)
          rw [hmissing] at hexec hcontent
          rw [hexec]
          simp only [readBodyRest]
          cases hread : (collect 8192 (stream.pending.length + 1)
              (req.contentLength - leftover.length) (leftover.take req.contentLength) stream).1 with
          | error e => simp [SpoolSession.answer]
          | ok body =>
              obtain rfl := hcontent body hread
              simp only [Prog.exec_ask, SpoolSession.answer]
              by_cases hshort : content'.length ≠ req.contentLength
              · simp [hshort, SpoolSession.answer]
              · simp only [ne_eq, not_not] at hshort
                simp only [hshort, ne_eq, not_true_eq_false, if_false, Prog.exec_ask,
                  SpoolSession.answer, World.lookup_writeSpool]
                rcases hsaved : Multipart.saveUploadsFromSpoolFile env.upload
                    (if env.canOpenSpool then some content' else none) contentType
                    config.uploadDirectory (uploadLimits config)
                    ((w.writeSpool (uniqueSpoolPath config.uploadSpoolDirectory env.spoolMicros)
                      content').call (.saveUploadsFromSpoolFile
                        (if env.canOpenSpool then some content' else none))).uploads with
                  ⟨saved, uploads⟩
                cases saved <;> simp [SpoolSession.answer, World.removeSpool]

/-! ## Every other handler -/

section
variable (env : ServerEnv) (config : ServerConfig) (tls : Bool) (req : HttpRequest) (w : World)

@[simp] theorem World.call_spools (c : Call) : (w.call c).spools = w.spools := rfl

@[simp] theorem World.log_spools (m : LogMessage) : (w.log m).spools = w.spools := rfl

theorem handlePhpScript_spools (path : Path) (target method body contentType : Bytes) :
    (handlePhpScript env config path target method body contentType w).2.spools = w.spools := by
  simp only [handlePhpScript]
  split <;> rfl

theorem serveFile_spools (res : HttpResponse) (path : Path) (finish : HttpResponse → Reply) :
    (serveFile env config res req path finish w).2.spools = w.spools := by
  rw [serveFile]
  split
  · split
    · rfl
    · exact handlePhpScript_spools ..
  · split
    · rfl
    · simp only []
      split
      · rfl
      · split <;> rfl

theorem serveTarget_spools (res : HttpResponse) (host : Bytes) (finish : HttpResponse → Reply) :
    (serveTarget env config res req host finish w).2.spools = w.spools := by
  rw [serveTarget]
  split
  · rfl
  · rfl
  · split
    · rfl
    · rfl
    · split
      · rfl
      · split
        · rfl
        · split
          · rfl
          · rfl
          · exact serveFile_spools ..

theorem makeResponse_spools (rawRequest method target : Bytes) :
    (makeResponse env config rawRequest tls method target w).2.spools = w.spools := by
  rw [makeResponse]
  simp only []
  split
  · rfl
  · rw [routeRequest]
    split
    · rfl
    · split
      · rfl
      · simp only []
        split
        · rfl
        · split
          · exact (handleUploadRequest_stores ..).1
          · exact serveTarget_spools ..

end

/-! ## The upload branch in place -/

theorem spoolUpload_spools (env : ServerEnv) (config : ServerConfig) (res : HttpResponse)
    (stream : Connection) (leftover : Bytes) (req : HttpRequest) (contentType : Bytes)
    {w : World}
    (hfresh : uniqueSpoolPath config.uploadSpoolDirectory env.spoolMicros ∉ w.spools.map (·.1)) :
    (spoolUpload env config res stream leftover req contentType w).2.spools = w.spools := by
  have hremove : (w.removeSpool
      (uniqueSpoolPath config.uploadSpoolDirectory env.spoolMicros)).spools = w.spools := by
    rw [World.removeSpool, List.filter_eq_self]
    intro entry hentry
    have : entry.1 ≠ uniqueSpoolPath config.uploadSpoolDirectory env.spoolMicros := fun h =>
      hfresh (h ▸ List.mem_map_of_mem hentry)
    simpa using this
  have hwritten : ∀ content, ((w.writeSpool
      (uniqueSpoolPath config.uploadSpoolDirectory env.spoolMicros) content).removeSpool
        (uniqueSpoolPath config.uploadSpoolDirectory env.spoolMicros)).spools = w.spools := by
    intro content
    rw [World.removeSpool_writeSpool, hremove]
  rw [spoolUpload]
  split
  · rfl
  · simp only []
    split
    · exact hremove
    · split
      · exact hremove
      · split
        · exact hwritten _
        · split <;> exact hwritten _

theorem handleStreamedUpload_spools (env : ServerEnv) (config : ServerConfig) (tls : Bool)
    (clientIp : Bytes) (stream : Connection) (leftover : Bytes) (req : HttpRequest) {w : World}
    (hfresh : uniqueSpoolPath config.uploadSpoolDirectory env.spoolMicros ∉ w.spools.map (·.1)) :
    (handleStreamedUpload env config tls clientIp stream leftover req w).2.spools = w.spools := by
  have hauth := (authorizeEndpoint_stores env config req (bytes "upload") w).spools
  rw [handleStreamedUpload]
  split
  · rfl
  · split
    · rfl
    · simp only []
      split
      · exact (denyEndpoint_stores ..).spools.trans hauth
      · split
        · exact hauth
        · split
          · exact hauth
          · split
            · exact hauth
            · rw [spoolUpload_spools _ _ _ _ _ _ _ (by
                rw [auditEndpointEvent, World.log_spools, hauth]
                exact hfresh)]
              exact hauth

/-! ## The main result -/

/-- Whatever the file system, the connection and the parser do, and whatever
other requests do under other paths, no file of the request remains when the
upload branch returns or throws. As part of `handleClientStream` on any
connection, it leaves the files that were in the spool directory, and no other. -/
theorem spool_files_removed :
    (∀ (W : Type) (handle : W → (q : SpoolQuestion) → SpoolAnswer q × W)
        (found : W → Path → Prop) (others : Path → Prop) (config : ServerConfig)
        (res : HttpResponse) (leftover : Bytes) (contentLength : Nat) (w : W) (p : Path),
      SpoolProgram.Hosts handle found others → ¬ others p →
        found ((SpoolProgram.spoolUpload config res leftover contentLength).exec handle w).2 p →
        found w p) ∧
      ∀ (env : ServerEnv) (config : ServerConfig) (tls : Bool) (clientIp : Bytes)
        (stream : Connection) (w : World),
        uniqueSpoolPath config.uploadSpoolDirectory env.spoolMicros ∉ w.spools.map (·.1) →
        (handleClientStream env config tls clientIp stream w).2.spools = w.spools := by
  refine ⟨fun W handle found others config res leftover contentLength w p hhost hp h =>
    SpoolProgram.spoolUpload_host hhost config res leftover contentLength w hp h, ?_⟩
  intro env config tls clientIp stream w hfresh
  rw [handleClientStream]
  split
  · rfl
  · rw [handleHeaders]
    simp only []
    split
    · rfl
    · split
      · exact (handleAdminStatus_stores ..).spools
      · split
        · exact handleStreamedUpload_spools env config tls clientIp _ _ _ hfresh
        · split
          · rfl
          · exact makeResponse_spools ..

/-- A form of one field, sent to a server that takes uploads. -/
def formStream : Connection :=
  { pending := bytes "POST /upload HTTP/1.1\r\nHost: a\r\nContent-Type: text/plain\r\n" ++
      bytes "Content-Length: 4\r\n\r\nabcd" }

theorem spool_files_removed_form :
    ¬ uniqueSpoolPath (Path.ofBytes (bytes "spool")) 0 ∈
        ((SpoolProgram.spoolUpload {} (emptyResponse {} false) (bytes "abcd") 4).exec
          (SpoolSession.answer quietEnv {} (bytes "text/plain"))
          ⟨{ pending := [] }, freshWorld⟩).2.world.spools.map (·.1) ∧
      (handleClientStream quietEnv { enableUploads := true } false [] formStream
        freshWorld).2.spools = [] :=
  ⟨fun h => absurd (spool_files_removed.1 _ _ _ _ _ _ _ _ _ _
      (SpoolSession.hosts quietEnv {} (bytes "text/plain")) id h) (by decide),
    spool_files_removed.2 quietEnv { enableUploads := true } false [] formStream freshWorld
      (by decide)⟩

end HydrogenHttpd.Ref
