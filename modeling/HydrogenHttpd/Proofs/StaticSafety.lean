import HydrogenHttpd.Proofs.Calls

/-!
# Only public files are served

A target is screened, decoded once, joined to the document root and resolved by
the file system; what comes out is compared with the root, component by
component, and filtered by name. None of the steps before the resolution
matters for the result: both tests look at the path the file system answers, so
whatever spelling led there, a path that passes them is below the root and has
no name that is withheld.

All that is asked of the file system is that canonical paths are absolute and
their own canonical form.
-/

namespace HydrogenHttpd.Ref

open Base

/-- What `weakly_canonical` promises of the paths it answers. -/
structure CanonicalPaths (files : Files) : Prop where
  absolute : ∀ {p q}, files.weaklyCanonical p = .ok q → q.absolute = true
  idempotent : ∀ {p q}, files.weaklyCanonical p = .ok q → files.weaklyCanonical q = .ok q

/-- A path that may be served from a document root: below its canonical form,
without hidden components on the way, and no sensitive file. -/
structure PublicFile (files : Files) (config : ServerConfig) (documentRoot p : Path) : Prop where
  contained : ∃ root, files.weaklyCanonical documentRoot = .ok root ∧ root.IsPrefix p ∧
    (config.denyHiddenFiles = true → ∀ name ∈ Path.below root p, name.head? = some dot →
      config.allowDotWellKnown = true ∧ name = bytes ".well-known")
  notSensitive : config.blockSensitiveFiles = true →
    lowercase p.filename ∉ blockedNames ∧ lowercase p.extension ∉ blockedExt

/-- A path that was resolved is canonical and below the canonical root. -/
theorem resolveSafePath_some {files : Files} (hfiles : CanonicalPaths files)
    {documentRoot p : Path} {target : Bytes}
    (h : security.resolveSafePath files documentRoot target = .ok (some p)) :
    ∃ root, files.weaklyCanonical documentRoot = .ok root ∧ files.weaklyCanonical p = .ok p ∧
      root.absolute = true ∧ p.absolute = true ∧ root.IsPrefix p := by
  simp only [security.resolveSafePath] at h
  split at h
  · cases h
  · split at h
    · cases h
    · split at h
      · cases h
      · next root hroot =>
          split at h
          · cases h
          · next candidate hcandidate =>
              have hsame := hfiles.idempotent hcandidate
              rw [security.startsWithPath, hsame] at h
              simp only [hfiles.idempotent hroot] at h
              by_cases hinside : root.IsPrefix candidate
              · rw [decide_eq_true hinside] at h
                cases h
                exact ⟨root, hroot, hsame, hfiles.absolute hroot, hfiles.absolute hcandidate,
                  hinside⟩
              · rw [decide_eq_false hinside] at h
                cases h

/-- What the name filter lets through. -/
theorem isForbiddenFile_false {files : Files} {config : ServerConfig} {documentRoot root p : Path}
    (hroot : files.weaklyCanonical documentRoot = .ok root)
    (hp : files.weaklyCanonical p = .ok p)
    (h : isForbiddenFile files config documentRoot p = .ok false) :
    (config.denyHiddenFiles = true →
      ∀ name ∈ (p.lexicallyRelative root).parts, hiddenPart config name = false) ∧
    (config.blockSensitiveFiles = true →
      lowercase p.filename ∉ blockedNames ∧ lowercase p.extension ∉ blockedExt) := by
  simp only [isForbiddenFile, hp, hroot] at h
  split at h
  · cases h
  · next hhidden =>
      refine ⟨fun hdeny name hname => ?_, fun hblock => ?_⟩
      · by_contra hne
        exact hhidden ⟨hdeny, List.any_eq_true.mpr ⟨name, hname, by simpa using hne⟩⟩
      · split at h
        · cases h
        · rw [if_neg (by simp [hblock])] at h
          simpa [not_or] using h

/-- The components below the root are those of the relative path, unless the
filter has refused the relative path as `.` already. -/
theorem relative_parts_inside {root p : Path} (hroot : root.absolute = true)
    (hp : p.absolute = true) (hinside : root.IsPrefix p) :
    (p.lexicallyRelative root).parts = Path.below root p ∨
      [dot] ∈ (p.lexicallyRelative root).parts := by
  have habs : root.absolute = p.absolute := hroot.trans hp.symm
  obtain ⟨rest, hrest⟩ := (Path.parts_prefix_iff habs).mp hinside
  have hbelow : Path.below root p = rest := by
    simp only [Path.below, Path.parts, hroot, hp, ← hrest]
    simp
  have hmem : ∀ name ∈ (p.lexicallyRelative root).names, name ∈ (p.lexicallyRelative root).parts :=
    fun name hname => List.mem_append_right _ hname
  have hrelative : (p.lexicallyRelative root).absolute = false := by
    rw [Path.lexicallyRelative]
    split
    · rfl
    · simp only []
      split
      · rfl
      · split
        · rfl
        · split <;> rfl
  rcases Path.lexicallyRelative_of_prefix habs.symm hrest.symm with h | ⟨-, h⟩
  · left
    rw [Path.parts, hrelative, h, hbelow]
    rfl
  · right
    exact hmem _ (by simp [h])

theorem publicFile_of_served {files : Files} (hfiles : CanonicalPaths files)
    {config : ServerConfig} {documentRoot p : Path} {target : Bytes}
    (hsafe : security.resolveSafePath files documentRoot target = .ok (some p))
    (hallowed : isForbiddenFile files config documentRoot p = .ok false) :
    PublicFile files config documentRoot p := by
  obtain ⟨root, hroot, hp, habsRoot, habs, hinside⟩ := resolveSafePath_some hfiles hsafe
  obtain ⟨hhidden, hsensitive⟩ := isForbiddenFile_false hroot hp hallowed
  refine ⟨⟨root, hroot, hinside, fun hdeny name hname hdot => ?_⟩, hsensitive⟩
  rcases relative_parts_inside habsRoot habs hinside with hparts | hself
  · have hvisible := hhidden hdeny name (hparts ▸ hname)
    rw [hiddenPart, hdot] at hvisible
    simpa using hvisible
  · -- the root itself is refused as a hidden name
    have hvisible := hhidden hdeny _ hself
    rw [hiddenPart] at hvisible
    exact absurd hvisible (by simp [show ([dot] : Bytes) ≠ bytes ".well-known" by decide])

/-- What a request is served from has been resolved from its target and let
through by the name filter. -/
theorem served_path {env : ServerEnv} {config : ServerConfig} {rawRequest : Bytes} {tls : Bool}
    {method target : Bytes} {w : World} {p : Path}
    (hp : Call.staticFile p ∈
        (makeResponse env config rawRequest tls method target { w with calls := [] }).2.calls ∨
      Call.handlePhpScript p ∈
        (makeResponse env config rawRequest tls method target { w with calls := [] }).2.calls) :
    security.resolveSafePath env.files
        (selectDocumentRoot config
          (((acceptRequest config rawRequest).request.headers.lookup (bytes "host")).getD []))
        (acceptRequest config rawRequest).request.target = .ok (some p) ∧
      isForbiddenFile env.files config
        (selectDocumentRoot config
          (((acceptRequest config rawRequest).request.headers.lookup (bytes "host")).getD [])) p =
        .ok false := by
  have hcall : ∃ c, (c = Call.staticFile p ∨ c = Call.handlePhpScript p) ∧ c ∈
      (makeResponse env config rawRequest tls method target { w with calls := [] }).2.calls := by
    rcases hp with h | h
    · exact ⟨_, Or.inl rfl, h⟩
    · exact ⟨_, Or.inr rfl, h⟩
  obtain ⟨c, hc, hmem⟩ := hcall
  simp only [makeResponse] at hmem
  split at hmem
  · simp only [World.call_calls, List.nil_append, List.mem_singleton] at hmem
    rcases hc with rfl | rfl <;> cases hmem
  · rcases (routeRequest_adds env config tls _ _ _).of_mem hmem with h | h | h | ⟨q, hq, hserve⟩
    · simp only [World.call_calls, List.nil_append, List.mem_singleton] at h
      rcases hc with rfl | rfl <;> cases h
    · rcases hc with rfl | rfl <;> cases h
    · rcases hc with rfl | rfl <;> cases h
    · have hpq : p = q := by
        rcases hc with rfl | rfl <;> rcases hq with h | h <;> cases h <;> rfl
      rw [hpq]
      exact hserve

/-- Whatever is requested, every path that `makeResponse` looks up in the static
cache or hands to PHP may be served from the document root of the request. -/
theorem static_files_safe {env : ServerEnv} (hfiles : CanonicalPaths env.files)
    (config : ServerConfig) (rawRequest : Bytes) (tls : Bool) (method target : Bytes)
    (w : World) {p : Path}
    (hp : Call.staticFile p ∈
        (makeResponse env config rawRequest tls method target { w with calls := [] }).2.calls ∨
      Call.handlePhpScript p ∈
        (makeResponse env config rawRequest tls method target { w with calls := [] }).2.calls) :
    PublicFile env.files config
      (selectDocumentRoot config
        (((acceptRequest config rawRequest).request.headers.lookup (bytes "host")).getD [])) p :=
  publicFile_of_served hfiles (served_path hp).1 (served_path hp).2

/-- A file system with the single file `/srv/www/a.txt`. -/
def oneFile : Files :=
  let file := Path.ofBytes (bytes "/srv/www/a.txt")
  { noFiles with
    weaklyCanonical := fun p => .ok { p with absolute := true }
    found := fun p => .ok (p == file)
    isRegularFile := fun p => .ok (p == file)
    fileSize := fun p => if p = file then some 2 else none
    lastWriteTime := fun _ => some 0
    content := fun p => if p = file then some (bytes "hi") else none }

theorem oneFile_canonicalPaths : CanonicalPaths oneFile where
  absolute h := by cases h; rfl
  idempotent h := by cases h; rfl

theorem static_files_safe_oneFile :
    PublicFile oneFile { defaultRoot := Path.ofBytes (bytes "/srv/www") }
      (selectDocumentRoot { defaultRoot := Path.ofBytes (bytes "/srv/www") } (bytes "a"))
      (Path.ofBytes (bytes "/srv/www/a.txt")) :=
  @static_files_safe { quietEnv with files := oneFile } oneFile_canonicalPaths
    { defaultRoot := Path.ofBytes (bytes "/srv/www") }
    (bytes "GET /a.txt HTTP/1.1\r\nHost: a\r\n\r\n") true [] [] freshWorld _
    (Or.inl (by decide +kernel))

end HydrogenHttpd.Ref
