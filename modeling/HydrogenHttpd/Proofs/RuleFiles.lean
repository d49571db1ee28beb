import HydrogenHttpd.Proofs.AccessLines
import HydrogenHttpd.Proofs.CacheEviction
import HydrogenHttpd.Proofs.DocumentRoots
import HydrogenHttpd.Proofs.RequestRoundTrip
import HydrogenHttpd.Proofs.ResponseFields
import HydrogenHttpd.Proofs.StaticSafety

/-!
# Rule files as pages

`isForbiddenFile` compares the name of the file in lower case with
`htaccess_filename` as it is configured. A configured name with an upper case
letter is never equal to that, and the rule files of that name are pages like
any other, unless something else keeps them back: the filters for hidden and
sensitive files, the extension of the scripts, or limits under which no page
can be asked for at all.

For such a configuration there are files and a request that show it: the index
page of the site is a link to the rule file.
-/

namespace HydrogenHttpd.Ref

open Base Spec

/-- The names in the paths the file system answers are names of files. -/
structure FileNames (files : Files) : Prop where
  clean : ∀ {p q}, files.weaklyCanonical p = .ok q → ∀ name ∈ q.names, slash ∉ name ∧ 0 ∉ name

/-- The response has the bytes of the file at `p`. -/
def ReturnsFile (env : ServerEnv) (config : ServerConfig) (rawRequest : Bytes) (tls : Bool)
    (method target : Bytes) (w : World) (p : Path) : Prop :=
  Call.staticFile p ∈
      (makeResponse env config rawRequest tls method target { w with calls := [] }).2.calls ∧
    ∃ r body, (makeResponse env config rawRequest tls method target { w with calls := [] }).1 =
        .ok r ∧
      r.response.sharedBody = some body

/-- On no file system is a file of the configured name returned. -/
def RuleFilesKept (loaded : ServerConfig) : Prop :=
  ∀ (env : ServerEnv) (config : ServerConfig), CanonicalPaths env.files → FileNames env.files →
    canonicalRoots env.files loaded = .ok config →
    ∀ (rawRequest : Bytes) (tls : Bool) (method target : Bytes) (w : World) (p : Path),
      ReturnsFile env config rawRequest tls method target w p →
      p.filename ≠ config.htaccessFilename

/-- Neither GET nor a target that is not the upload endpoint is within the limits. -/
def NoPages (config : ServerConfig) : Prop :=
  config.maxMethodBytes < 3 ∨ config.uploadEndpoint = [slash] ∧ config.maxUriBytes < 2

/-- What keeps the files of the configured name back. -/
def KeepsRuleFiles (config : ServerConfig) : Prop :=
  lowercase config.htaccessFilename = config.htaccessFilename ∨
    (slash ∈ config.htaccessFilename ∨ 0 ∈ config.htaccessFilename) ∨
    (config.denyHiddenFiles = true ∧ hiddenPart config config.htaccessFilename = true) ∨
    (config.blockSensitiveFiles = true ∧
      (lowercase config.htaccessFilename ∈ blockedNames ∨
        lowercase (Path.extensionOf config.htaccessFilename) ∈ blockedExt)) ∨
    Path.extensionOf config.htaccessFilename = config.phpExtension ∨
    NoPages config

instance (config : ServerConfig) : Decidable (NoPages config) :=
  inferInstanceAs (Decidable (_ ∨ _ ∧ _))

instance (config : ServerConfig) : Decidable (KeepsRuleFiles config) :=
  inferInstanceAs (Decidable (_ ∨ (_ ∨ _) ∨ (_ ∧ _) ∨ (_ ∧ (_ ∨ _)) ∨ _ ∨ _))

/-! ## What is opened -/

section Opened

variable {env : ServerEnv} {config : ServerConfig} {tls : Bool} {req : HttpRequest}
  {finish : HttpResponse → Reply} {w : World}

theorem handlePhpScript_opens (path : Path) (requestUri method body contentType : Bytes) :
    Adds (fun c => ∀ p, c ≠ .staticFile p) w
      (handlePhpScript env config path requestUri method body contentType w).2 := by
  rw [handlePhpScript]
  split
  simp only []
  split <;> exact Adds.one rfl (by simp)

theorem serveFile_opens (res : HttpResponse) (path : Path) :
    Adds (fun c => ∀ p, c = .staticFile p → p = path ∧ path.extension ≠ config.phpExtension) w
      (serveFile env config res req path finish w).2 := by
  rw [serveFile]
  split
  · split
    · exact Adds.of_eq rfl
    · exact (handlePhpScript_opens path _ _ _ _).mono fun c hc p hp => absurd hp (hc p)
  · next hstatic =>
      have hopened : ∀ p, Call.staticFile path = .staticFile p →
          p = path ∧ path.extension ≠ config.phpExtension := by
        rintro p ⟨⟩
        exact ⟨rfl, hstatic⟩
      split
      · exact Adds.of_eq rfl
      · simp only []
        split
        · exact Adds.one rfl hopened
        · split <;> exact Adds.one rfl hopened

theorem serveTarget_opens (res : HttpResponse) (host : Bytes) :
    Adds (fun c => ∀ p, c = .staticFile p →
        security.resolveSafePath env.files (selectDocumentRoot config host) req.target =
          .ok (some p) ∧
        isForbiddenFile env.files config (selectDocumentRoot config host) p = .ok false ∧
        p.extension ≠ config.phpExtension) w
      (serveTarget env config res req host finish w).2 := by
  rw [serveTarget]
  simp only []
  split
  · exact Adds.of_eq rfl
  · exact Adds.of_eq rfl
  · next safePath hsafe =>
      split
      · exact Adds.of_eq rfl
      · exact Adds.of_eq rfl
      · next hallowed =>
          split
          · exact Adds.of_eq rfl
          · split
            · exact Adds.of_eq rfl
            · split
              · exact Adds.of_eq rfl
              · exact Adds.of_eq rfl
              · refine (serveFile_opens _ safePath).mono fun c hc p hp => ?_
                obtain ⟨rfl, hstatic⟩ := hc p hp
                exact ⟨hsafe, hallowed, hstatic⟩

/-- A file that is opened is one the request gets to. -/
theorem makeResponse_opens {rawRequest method target : Bytes} {p : Path}
    (hp : Call.staticFile p ∈
      (makeResponse env config rawRequest tls method target { w with calls := [] }).2.calls) :
    Located env config rawRequest tls (selectDocumentRoot config
        (((requestOf config rawRequest).headers.lookup (bytes "host")).getD [])) p ∧
      p.extension ≠ config.phpExtension := by
  have hstart : Call.staticFile p ∉
      (World.call { w with calls := [] } (.makeResponse rawRequest)).calls := by
    simp [World.call]
  simp only [makeResponse] at hp
  split at hp
  · exact absurd hp hstart
  · next hok =>
      have hreq : (acceptRequest config rawRequest).request = requestOf config rawRequest := rfl
      simp only [routeRequest, hreq] at hp
      split at hp
      · exact absurd hp hstart
      · next hmethod =>
          split at hp
          · exact absurd hp hstart
          · next hbody =>
              split at hp
              · exact absurd hp hstart
              · next hdirect =>
                  split at hp
                  · rcases (handleUploadRequest_adds env config tls _ _ _).of_mem hp with h | h | h
                    · exact absurd h hstart
                    · cases h
                    · cases h
                  · next htarget =>
                      rcases (serveTarget_opens _ _).of_mem hp with h | h
                      · exact absurd h hstart
                      · obtain ⟨hresolved, hvisible, hstatic⟩ := h p rfl
                        exact ⟨⟨by simpa using hok, by simpa using hmethod, hbody, hdirect,
                          htarget, rfl, hresolved, hvisible⟩, hstatic⟩

end Opened

/-! ## Files that are kept back -/

/-- What the loader has checked of the limits of a request. -/
theorem load_requestLimits {env : ConfigEnv} {confPath : Path} {config : ServerConfig}
    (hload : ConfigLoader.load env confPath = .ok config) :
    config.htaccessFilename ≠ [] ∧ 1024 ≤ config.maxRequestBytes ∧
      256 ≤ config.maxHeaderLineBytes ∧ config.maxHeaders ≠ 0 ∧ config.maxUriBytes ≠ 0 := by
  have hfaults := load_faultless hload
  have h1 := hfaults
    (config.htaccessFilename.isEmpty, bytes "htaccess_filename cannot be empty")
    (by simp [configFaults])
  have h2 := hfaults
    (decide (config.maxRequestBytes < 1024), bytes "max_request_bytes is too small")
    (by simp [configFaults])
  have h3 := hfaults
    (decide (config.maxHeaderLineBytes < 256), bytes "max_header_line_bytes is too small")
    (by simp [configFaults])
  have h4 := hfaults (config.maxHeaders == 0, bytes "max_headers must be greater than 0")
    (by simp [configFaults])
  have h5 := hfaults (config.maxUriBytes == 0, bytes "max_uri_bytes must be greater than 0")
    (by simp [configFaults])
  simp only [List.isEmpty_eq_false_iff, decide_eq_false_iff_not, Nat.not_lt,
    beq_eq_false_iff_ne] at h1 h2 h3 h4 h5
  exact ⟨h1, h2, h3, h4, h5⟩

theorem canonicalRoots_keeps {files : Files} {loaded config : ServerConfig}
    (h : canonicalRoots files loaded = .ok config) :
    config.htaccessFilename = loaded.htaccessFilename ∧
      (KeepsRuleFiles config ↔ KeepsRuleFiles loaded) ∧
      config.maxRequestBytes = loaded.maxRequestBytes ∧ config.limits = loaded.limits := by
  obtain ⟨root, hosts, rfl⟩ := canonicalRoots_eq h
  exact ⟨rfl, Iff.rfl, rfl, rfl⟩

section Kept

variable {env : ServerEnv} {config : ServerConfig} {rawRequest : Bytes} {tls : Bool}
  {root p : Path}

/-- The words of an accepted request are within their limits. -/
theorem acceptRequest_fits (hok : (acceptRequest config rawRequest).ok = true) :
    (requestOf config rawRequest).method.length ≤ config.maxMethodBytes ∧
      (requestOf config rawRequest).target.length ≤ config.maxUriBytes := by
  rw [requestOf]
  rw [acceptRequest] at hok ⊢
  split at hok
  · cases hok
  · next hfits =>
      rw [if_neg hfits]
      obtain ⟨b, body, request, st, haccepted⟩ := accepted_of_ok hok
      rw [haccepted.parsed] at hok ⊢
      obtain ⟨hmethod, htarget⟩ := finish_ok hok
      obtain ⟨hmethodFits, -, htargetFits, -⟩ :=
        requestWords_ok (requestLine_accepts haccepted.line).2
      rw [hmethod, htarget]
      exact ⟨hmethodFits, htargetFits⟩

/-- A target that is resolved starts with a slash. -/
theorem resolveSafePath_target {files : Files} {documentRoot p : Path} {target : Bytes}
    (h : security.resolveSafePath files documentRoot target = .ok (some p)) :
    target.head? = some slash := by
  by_contra hne
  have hsuspicious : security.hasSuspiciousTarget target = true := by
    rw [security.hasSuspiciousTarget]
    split
    · rfl
    · split
      · rfl
      · rfl
  rw [security.resolveSafePath, security.decodedTarget, if_pos hsuspicious] at h
  cases h

/-- A request that gets to a file has a method and a target within the limits. -/
theorem Located.not_noPages (hlocated : Located env config rawRequest tls root p) :
    ¬ NoPages config := by
  obtain ⟨hmethodFits, htargetFits⟩ := acceptRequest_fits hlocated.accepted
  rintro (hshort | ⟨hupload, hshort⟩)
  · have hmethod := hlocated.method
    simp only [security.isMethodAllowed, Bool.or_eq_true, beq_iff_eq] at hmethod
    have hlong : 3 ≤ (requestOf config rawRequest).method.length := by
      rcases hmethod with (h | h) | h <;> rw [h] <;> decide
    omega
  · obtain ⟨rest, hrest⟩ := List.head?_eq_some_iff.mp (resolveSafePath_target hlocated.resolved)
    rw [hrest, List.length_cons] at htargetFits
    have hnil : rest = [] := List.length_eq_zero_iff.mp (by omega)
    exact hlocated.target (by rw [hrest, hnil, hupload])

/-- The last component below a root is the name of the file. -/
theorem filename_mem_relative (habsRoot : root.absolute = true) (habs : p.absolute = true)
    (hinside : root.IsPrefix p) :
    p.filename ∈ (p.lexicallyRelative root).parts ∨
      [dot] ∈ (p.lexicallyRelative root).parts := by
  by_cases hsame : p.names = root.names
  · -- the root itself
    refine Or.inr ?_
    have hself : Path.mismatch p.names root.names = ([], []) := by
      rw [hsame]
      simpa using Path.mismatch_append root.names []
    rw [Path.lexicallyRelative, if_neg (by simp [habs, habsRoot]), hself]
    exact List.mem_append_right _ List.mem_cons_self
  · refine (relative_parts_inside habsRoot habs hinside).imp_left fun hparts => ?_
    obtain ⟨rest, hrest⟩ := (Path.parts_prefix_iff (habsRoot.trans habs.symm)).mp hinside
    have hne : rest ≠ [] := by
      rintro rfl
      exact hsame (by rw [← hrest, List.append_nil])
    have hbelow : Path.below root p = rest := by
      simp only [Path.below, Path.parts, habsRoot, habs, ← hrest]
      simp
    have hlast : p.filename = rest.getLast hne := by
      rw [Path.filename, ← hrest, List.getLast?_append_of_ne_nil _ hne,
        List.getLast?_eq_getLast_of_ne_nil hne, Option.getD_some]
    rw [hparts, hbelow, hlast]
    exact List.getLast_mem hne

/-- A file with a name that the filters let through. -/
theorem Located.filters (hfiles : CanonicalPaths env.files)
    (hlocated : Located env config rawRequest tls root p)
    (hname : p.filename = config.htaccessFilename) :
    lowercase config.htaccessFilename ≠ config.htaccessFilename ∧
      (config.denyHiddenFiles = true → hiddenPart config config.htaccessFilename = false) ∧
      (config.blockSensitiveFiles = true →
        lowercase config.htaccessFilename ∉ blockedNames ∧
          lowercase (Path.extensionOf config.htaccessFilename) ∉ blockedExt) := by
  obtain ⟨canonicalRoot, hroot, hself, habsRoot, habs, hinside⟩ :=
    resolveSafePath_some hfiles hlocated.resolved
  have hvisible := hlocated.visible
  obtain ⟨hhidden, hsensitive⟩ := isForbiddenFile_false hroot hself hvisible
  refine ⟨fun hlower => ?_, fun hdeny => ?_, fun hblock => ?_⟩
  · simp only [isForbiddenFile, hroot, hself, hname, hlower] at hvisible
    split at hvisible
    · cases hvisible
    · cases hvisible
  · rcases filename_mem_relative habsRoot habs hinside with hmem | hdot
    · rw [← hname]
      exact hhidden hdeny _ hmem
    · have hno := hhidden hdeny _ hdot
      simp [hiddenPart, show ([dot] : Bytes) ≠ bytes ".well-known" by decide] at hno
  · have hboth := hsensitive hblock
    rwa [Path.extension, hname] at hboth

/-- A configuration that keeps the rule files back returns none. -/
theorem ReturnsFile.name_ne {method target : Bytes} {w : World}
    (h : ReturnsFile env config rawRequest tls method target w p)
    (hfiles : CanonicalPaths env.files) (hnames : FileNames env.files)
    (hne : config.htaccessFilename ≠ []) (hkeeps : KeepsRuleFiles config) :
    p.filename ≠ config.htaccessFilename := by
  intro hname
  obtain ⟨hlocated, hstatic⟩ := makeResponse_opens h.1
  obtain ⟨hlower, hhidden, hsensitive⟩ := hlocated.filters hfiles hname
  obtain ⟨-, -, hself, -⟩ := resolveSafePath_some hfiles hlocated.resolved
  have hfile : p.filename ∈ p.names := by
    cases hlast : p.names.getLast? with
    | none =>
        rw [Path.filename, hlast] at hname
        exact absurd hname.symm hne
    | some last =>
        rw [Path.filename, hlast]
        exact List.mem_of_getLast? hlast
  obtain ⟨hslash, hnul⟩ := hnames.clean hself _ hfile
  rw [hname] at hslash hnul
  rw [Path.extension, hname] at hstatic
  rcases hkeeps with h | (h | h) | ⟨hdeny, h⟩ | ⟨hblock, h⟩ | h | h
  · exact hlower h
  · exact hslash h
  · exact hnul h
  · rw [hhidden hdeny] at h
    cases h
  · exact h.elim (hsensitive hblock).1 (hsensitive hblock).2
  · exact hstatic h
  · exact hlocated.not_noPages h

end Kept

/-! ## A file that is returned -/

section Returned

variable {env : ServerEnv} {config : ServerConfig} {rawRequest : Bytes} {tls : Bool}
  {root p : Path} {w : World}

/-- What a request gets to is returned, unless it is denied, a script or gone. -/
theorem Located.returned (hlocated : Located env config rawRequest tls root p)
    (hmethod : (requestOf config rawRequest).method = bytes "GET")
    (hunconditional : (requestOf config rawRequest).headers.lookup (bytes "if-none-match") = none)
    {rules : HtaccessRules} (hrules : accessRules env.files config root p = .ok rules)
    (hgranted : rules.denyAll = false) (hfile : existingFile env.files p = .ok true)
    (hstatic : p.extension ≠ config.phpExtension) {cached : CachedStaticFile}
    (hcached : (w.staticCache.get env.files env.hash env.cacheNow p).1 = some cached)
    (method target : Bytes) : ReturnsFile env config rawRequest tls method target w p := by
  have hserved : ∃ r w', makeResponse env config rawRequest tls method target
      { w with calls := [] } = (.ok r, w') ∧ r.response.sharedBody = some cached.body ∧
      Call.staticFile p ∈ w'.calls := by
    have hreq : (acceptRequest config rawRequest).request = requestOf config rawRequest := rfl
    have hroot := hlocated.root_eq
    subst hroot
    rw [makeResponse]
    simp only [hreq, hlocated.accepted, Bool.true_eq_false, if_false]
    rw [routeRequest]
    simp only []
    rw [if_neg (by simp [hlocated.method]), if_neg hlocated.body, if_neg hlocated.direct,
      if_neg hlocated.target, serveTarget]
    simp only [hlocated.resolved, hlocated.visible, hrules, hgranted, Bool.false_eq_true, if_false,
      hfile]
    rw [serveFile, if_neg hstatic, if_neg (by rw [hmethod]; decide)]
    simp only [World.call]
    rcases hget : w.staticCache.get env.files env.hash env.cacheNow p with ⟨found, staticCache⟩
    rw [hget] at hcached
    simp only [] at hcached
    subst hcached
    simp only [hunconditional, reduceCtorEq, if_false]
    exact ⟨_, _, rfl, rfl, by simp⟩
  obtain ⟨r, w', hresponse, hbody, hcall⟩ := hserved
  rw [ReturnsFile, hresponse]
  exact ⟨hcall, r, cached.body, rfl, hbody⟩

/-- A file that a new cache is asked for is read. -/
theorem get_new {files : Files} {p : Path} {content : Bytes}
    (hcontent : files.content p = some content) (hsize : files.fileSize p = some content.length)
    (hash : Bytes → Nat) (now : Int) (enabled : Bool)
    (shardCount maxEntries maxBytes maxFileBytes milliseconds : Nat) :
    ∃ cached, ((StaticFileCache.construct enabled shardCount maxEntries maxBytes maxFileBytes
      milliseconds).get files hash now p).1 = some cached := by
  have hnone : ∀ i, ((StaticFileCache.construct enabled shardCount maxEntries maxBytes
      maxFileBytes milliseconds).shards.getD i {}).entries.lookup p.toBytes = none := by
    intro i
    rw [construct_entries]
    rfl
  have hread : StaticFileCache.readBody (files.content p) content.length = some content := by
    rw [hcontent, StaticFileCache.readBody, if_neg (lt_irrefl _), List.take_length]
  rw [StaticFileCache.get]
  obtain ⟨entry, hfound, -⟩ | hfirst := firstSection (StaticFileCache.construct enabled shardCount
    maxEntries maxBytes maxFileBytes milliseconds) hash p now
  · rw [hnone] at hfound
    cases hfound
  · simp only [hfirst, hsize]
    obtain ⟨entry, hfound, -⟩ | hsecond := secondSection (StaticFileCache.construct enabled
      shardCount maxEntries maxBytes maxFileBytes milliseconds) hash p now content.length
      ((files.lastWriteTime p).getD minFileTime)
    · rw [hnone] at hfound
      cases hfound
    · simp only [hsecond, StaticFileCache.readThrough, hread]
      split <;> exact ⟨_, rfl⟩

end Returned

/-! ## The index page is a link -/

/-- A site with an index page that is a link to the rule file beside it. -/
def linkedFiles (site filename : Bytes) : Files :=
  let root : Path := { absolute := true, names := [site] }
  let page : Path := { absolute := true, names := [site, bytes "index.html"] }
  let file : Path := { absolute := true, names := [site, filename] }
  { weaklyCanonical := fun p => .ok (if p = page ∨ p = file then file else root)
    isDirectory := fun p => .ok (p == root)
    found := fun p => .ok (p == root || p == page || p == file)
    isRegularFile := fun p => .ok (p == page || p == file)
    fileSize := fun p => if p = page ∨ p = file then some 1 else none
    lastWriteTime := fun p => if p = page ∨ p = file then some 0 else none
    content := fun p => if p = page ∨ p = file then some (bytes "#") else none }

section Linked

variable {site filename : Bytes}

theorem linkedFiles_sound (hsite : slash ∉ site ∧ 0 ∉ site)
    (hfilename : slash ∉ filename ∧ 0 ∉ filename) :
    CanonicalPaths (linkedFiles site filename) ∧ FileNames (linkedFiles site filename) := by
  have hcases : ∀ {p q}, (linkedFiles site filename).weaklyCanonical p = .ok q →
      q = { absolute := true, names := [site, filename] } ∨
        q = { absolute := true, names := [site] } := by
    intro p q h
    simp only [linkedFiles] at h
    cases h
    split
    · exact Or.inl rfl
    · exact Or.inr rfl
  refine ⟨⟨fun h => ?_, fun h => ?_⟩, ⟨fun h name hname => ?_⟩⟩
  · rcases hcases h with rfl | rfl <;> rfl
  · rcases hcases h with rfl | rfl <;> simp [linkedFiles]
  · rcases hcases h with rfl | rfl
    · rcases List.mem_pair.mp hname with rfl | rfl
      · exact hsite
      · exact hfilename
    · rw [List.mem_singleton.mp hname]
      exact hsite

/-- A target that stands for the index page leads to the rule file. -/
theorem linkedFiles_resolved (hne : site ≠ []) {target : Bytes}
    (htarget : security.decodedTarget target = some (bytes "index.html")) :
    security.resolveSafePath (linkedFiles site filename) { absolute := true, names := [site] }
        target = .ok (some { absolute := true, names := [site, filename] }) := by
  have hpage : ({ absolute := true, names := [site] } : Path) / Path.ofBytes (bytes "index.html") =
      { absolute := true, names := [site, bytes "index.html"] } := by
    rw [Path.ofBytes_name (by decide) (by decide)]
    show Path.append _ _ = _
    simp [Path.append, hne]
  rw [security.resolveSafePath, htarget]
  simp only [hpage]
  simp [linkedFiles, security.startsWithPath, Path.IsPrefix, Path.parts]

/-- No filter keeps the file back, if the configuration does not. -/
theorem linkedFiles_visible {config : ServerConfig} (hkeeps : ¬ KeepsRuleFiles config) :
    isForbiddenFile (linkedFiles site config.htaccessFilename) config
        { absolute := true, names := [site] }
        { absolute := true, names := [site, config.htaccessFilename] } = .ok false := by
  simp only [KeepsRuleFiles, not_or, not_and] at hkeeps
  obtain ⟨hlower, -, hhidden, hsensitive, -⟩ := hkeeps
  have hself : (linkedFiles site config.htaccessFilename).weaklyCanonical
      { absolute := true, names := [site, config.htaccessFilename] } =
        .ok { absolute := true, names := [site, config.htaccessFilename] } := by
    simp [linkedFiles]
  have hroot : (linkedFiles site config.htaccessFilename).weaklyCanonical
      { absolute := true, names := [site] } = .ok { absolute := true, names := [site] } := by
    simp [linkedFiles]
  have hrelative : (Path.lexicallyRelative
      { absolute := true, names := [site, config.htaccessFilename] }
      { absolute := true, names := [site] }).parts = [config.htaccessFilename] := by
    have hne : config.htaccessFilename ≠ [] := by
      intro hnil
      rw [hnil] at hlower
      exact hlower rfl
    simp [Path.lexicallyRelative, Path.mismatch, Path.stepsUp, Path.parts, hne]
  simp only [isForbiddenFile, hself, hroot, hrelative]
  rw [if_neg, if_neg]
  · split
    · rfl
    · next hblock =>
        obtain ⟨hname, hextension⟩ := hsensitive (by simpa using hblock)
        simp only [Path.filename, Path.extension, List.getLast?_cons_cons, List.getLast?_singleton,
          Option.getD_some]
        simp [hname, hextension]
  · exact hlower
  · simpa using hhidden

/-- The rule file denies nothing. -/
theorem linkedFiles_granted (hne : filename ≠ []) (hslash : slash ∉ filename) (hsite : site ≠ [])
    {config : ServerConfig} (hname : config.htaccessFilename = filename) :
    ∃ rules, accessRules (linkedFiles site filename) config { absolute := true, names := [site] }
        { absolute := true, names := [site, filename] } = .ok rules ∧ rules.denyAll = false := by
  have hroot : (linkedFiles site filename).weaklyCanonical
      { absolute := true, names := [site] } = .ok { absolute := true, names := [site] } := by
    simp [linkedFiles]
  have hparent : ({ absolute := true, names := [site, filename] } : Path).parentPath =
      { absolute := true, names := [site] } := rfl
  have hfile : ({ absolute := true, names := [site] } : Path) / Path.ofBytes filename =
      { absolute := true, names := [site, filename] } := by
    rw [Path.ofBytes_name hslash hne]
    show Path.append _ _ = _
    simp [Path.append, hsite]
  rw [accessRules]
  split
  · have hdirectory : (linkedFiles site filename).isDirectory
        { absolute := true, names := [site, filename] } = .ok false := by
      simp [linkedFiles]
    have hclimb : ∀ depth, Htaccess.climb { absolute := true, names := [site] } depth
        { absolute := true, names := [site] } [] = [] ∨
        Htaccess.climb { absolute := true, names := [site] } depth
          { absolute := true, names := [site] } [] = [{ absolute := true, names := [site] }] := by
      intro depth
      cases depth with
      | zero => exact Or.inl rfl
      | succ depth =>
          rw [Htaccess.climb]
          simp only []
          split
          · exact Or.inl rfl
          · exact Or.inr rfl
    rw [Htaccess.evaluate, hroot, hdirectory]
    simp only [Bool.false_eq_true, if_false, hparent, hroot, hname]
    rcases hclimb config.maxHtaccessDepth with hnone | hone
    · rw [hnone]
      exact ⟨{}, rfl, rfl⟩
    · rw [hone, Htaccess.applyRules]
      simp only [hfile]
      refine ⟨Htaccess.override {} (Htaccess.parseFile (some (bytes "#"))), ?_, by decide +kernel⟩
      simp [linkedFiles, Htaccess.applyRules]
  · exact ⟨{}, rfl, rfl⟩

end Linked

/-- A name that is not in use. -/
theorem exists_fresh_name (names : List Bytes) :
    ∃ site : Bytes, site ≠ [] ∧ (slash ∉ site ∧ 0 ∉ site) ∧ site ∉ names := by
  have hletters : ∀ (k : Nat) (c : UInt8), c ∈ List.replicate k (97 : UInt8) → c = 97 :=
    fun k c hc => List.eq_of_mem_replicate hc
  refine ⟨List.replicate ((names.map List.length).sum + 1) 97, by simp, ⟨fun h => ?_, fun h => ?_⟩,
    fun h => ?_⟩
  · exact absurd (hletters _ _ h) (by decide)
  · exact absurd (hletters _ _ h) (by decide)
  · have hle := List.single_le_sum (fun x _ => Nat.zero_le x) _
      (List.mem_map_of_mem (f := List.length) h)
    rw [List.length_replicate] at hle
    omega

/-- Every root of a configuration has a canonical path. -/
theorem canonicalRoots_total {files : Files} (h : ∀ p, ∃ q, files.weaklyCanonical p = .ok q)
    (loaded : ServerConfig) : ∃ config, canonicalRoots files loaded = .ok config := by
  have hhosts : ∃ hosts, (loaded.virtualHosts.mapM fun host =>
      (files.weaklyCanonical host.2).map fun root => (host.1, root)) = .ok hosts := by
    induction loaded.virtualHosts with
    | nil => exact ⟨[], rfl⟩
    | cons host rest ih =>
        obtain ⟨hosts, hhosts⟩ := ih
        obtain ⟨root, hroot⟩ := h host.2
        refine ⟨(host.1, root) :: hosts, ?_⟩
        rw [List.mapM_cons, hhosts]
        simp only [hroot]
        rfl
  obtain ⟨hosts, hhosts⟩ := hhosts
  obtain ⟨root, hroot⟩ := h loaded.defaultRoot
  refine ⟨{ loaded with defaultRoot := root, virtualHosts := hosts }, ?_⟩
  simp only [canonicalRoots, hroot]
  split
  · next e he => cases he.symm.trans hhosts
  · next found hfound => rw [Except.ok.inj (hfound.symm.trans hhosts)]

def indexRequest (target : Bytes) : HttpRequest :=
  { method := bytes "GET"
    target := target
    version := bytes "HTTP/1.1"
    headers := [(bytes "Host", bytes "a")] }

theorem indexRequest_printable {limits : HttpParseLimits} {target : Bytes}
    (htarget : target = bytes "/" ∨ target = bytes "//") (hmethod : 3 ≤ limits.maxMethodBytes)
    (hline : 256 ≤ limits.maxHeaderLineBytes) (hheaders : limits.maxHeaders ≠ 0)
    (huri : target.length ≤ limits.maxUriBytes) : Printable limits (indexRequest target) := by
  have hclosed : target ≠ [] ∧ (∀ c ∈ target, isSpace c = false) ∧
      (indexRequest target).firstLine.length ≤ 256 := by
    rcases htarget with rfl | rfl <;> decide +kernel
  have hget : StrictHttpParser.isToken (bytes "GET") = true := by decide +kernel
  have hhost : bytes "host" ∈ [lowercase (bytes "Host")] := by decide +kernel
  have hlength :
      [(lowercase (bytes "Host"), bytes "a")].lookup (bytes "content-length") = none := by
    decide +kernel
  have hfield : FieldFits limits (bytes "Host", bytes "a") :=
    ⟨by decide +kernel, by decide +kernel, by decide +kernel, by decide +kernel,
      by decide +kernel, le_trans (by decide +kernel) hline⟩
  exact
    { line := ⟨hget, hclosed.1, hclosed.2.1, Or.inr rfl, hmethod, huri,
        hclosed.2.2.trans hline⟩
      fields := fun field hmem => List.mem_singleton.mp hmem ▸ hfield
      names := List.nodup_singleton _
      count := Nat.one_le_iff_ne_zero.mpr hheaders
      host := fun _ => hhost
      length := hlength
      body := Nat.zero_le _
      size := Nat.two_pow_pos 64 }

/-- There is a target for the index page: where `/` is the upload endpoint, `//` is none. -/
theorem exists_indexRequest {config : ServerConfig} (hpages : ¬ NoPages config)
    (hrequest : 1024 ≤ config.maxRequestBytes) (hline : 256 ≤ config.maxHeaderLineBytes)
    (hheaders : config.maxHeaders ≠ 0) (huri : config.maxUriBytes ≠ 0) :
    ∃ target, security.decodedTarget target = some (bytes "index.html") ∧
      target ≠ config.uploadEndpoint ∧
      acceptRequest config (indexRequest target).print =
        succeeds { indexRequest target with headers := [(bytes "host", bytes "a")] } := by
  rw [NoPages, not_or, not_and] at hpages
  have haccepted : ∀ target, target = bytes "/" ∨ target = bytes "//" →
      target.length ≤ config.maxUriBytes →
      acceptRequest config (indexRequest target).print =
        succeeds { indexRequest target with headers := [(bytes "host", bytes "a")] } := by
    intro target htarget hfits
    have hlength : (indexRequest target).print ≠ [] ∧
        (indexRequest target).print.length ≤ 1024 := by
      rcases htarget with rfl | rfl <;> decide +kernel
    have hparsed := parse_print (@indexRequest_printable config.limits _ htarget
      (Nat.not_lt.mp hpages.1) hline hheaders hfits) []
    rw [List.append_nil] at hparsed
    rw [acceptRequest, if_neg, hparsed]
    · rfl
    · rintro (h | h)
      · exact hlength.1 h
      · omega
  by_cases hupload : config.uploadEndpoint = [slash]
  · have hmore := hpages.2 hupload
    refine ⟨bytes "//", by decide +kernel, by rw [hupload]; decide, haccepted _ (Or.inr rfl) ?_⟩
    rw [show (bytes "//").length = 2 by decide]
    omega
  · refine ⟨bytes "/", by decide +kernel, fun h => hupload h.symm, haccepted _ (Or.inl rfl) ?_⟩
    rw [show (bytes "/").length = 1 by decide]
    omega

/-- Whatever root a request is for, it is the one of the site. -/
theorem linkedFiles_root {site filename : Bytes} {loaded config : ServerConfig}
    (hdefault : site ∉ loaded.defaultRoot.names)
    (hhosts : ∀ host ∈ loaded.virtualHosts, site ∉ host.2.names)
    (hroots : canonicalRoots (linkedFiles site filename) loaded = .ok config) (host : Bytes) :
    selectDocumentRoot config host = { absolute := true, names := [site] } := by
  have hroot : ∀ {p q : Path}, site ∉ p.names →
      (linkedFiles site filename).weaklyCanonical p = .ok q →
      q = { absolute := true, names := [site] } := by
    intro p q hp hq
    simp only [linkedFiles] at hq
    cases hq
    rw [if_neg]
    rintro (rfl | rfl)
    · exact hp List.mem_cons_self
    · exact hp List.mem_cons_self
  obtain ⟨hcanonical, hlookup⟩ := canonicalRoots_lookup hroots
  rw [selectDocumentRoot]
  obtain ⟨-, hnone⟩ | ⟨root, root', hmem, hcanonical', hsome⟩ :=
    hlookup (security.normalizeHost host)
  · rw [hnone]
    exact hroot hdefault hcanonical
  · rw [hsome]
    exact hroot (hhosts _ (mem_of_lookup hmem)) hcanonical'

/-- A configuration that does not keep the rule files back returns one. -/
theorem exists_returnsFile {loaded : ServerConfig} (hkeeps : ¬ KeepsRuleFiles loaded)
    (hne : loaded.htaccessFilename ≠ []) (hrequest : 1024 ≤ loaded.maxRequestBytes)
    (hline : 256 ≤ loaded.limits.maxHeaderLineBytes) (hheaders : loaded.limits.maxHeaders ≠ 0)
    (huri : loaded.limits.maxUriBytes ≠ 0) : ¬ RuleFilesKept loaded := by
  intro hkept
  obtain ⟨site, hsite, hclean, hunused⟩ := exists_fresh_name
    (loaded.defaultRoot.names ++ loaded.virtualHosts.flatMap fun host => host.2.names)
  rw [List.mem_append, not_or, List.mem_flatMap] at hunused
  obtain ⟨config, hroots⟩ := @canonicalRoots_total
    (linkedFiles site loaded.htaccessFilename) (fun p => ⟨_, rfl⟩) loaded
  obtain ⟨hname, hsame, hmax, hlimits⟩ := canonicalRoots_keeps hroots
  have hroot := linkedFiles_root hunused.1 (fun host hmem hin => hunused.2 ⟨host, hmem, hin⟩) hroots
  rw [← hname] at hroots hne
  rw [← hmax] at hrequest
  rw [← hlimits] at hline hheaders huri
  rw [← hsame] at hkeeps
  have hfilename : slash ∉ config.htaccessFilename ∧ 0 ∉ config.htaccessFilename := by
    simp only [KeepsRuleFiles, not_or] at hkeeps
    exact hkeeps.2.1
  have hpages : ¬ NoPages config := by
    simp only [KeepsRuleFiles, not_or] at hkeeps
    exact hkeeps.2.2.2.2.2
  have hextension : Path.extensionOf config.htaccessFilename ≠ config.phpExtension := by
    simp only [KeepsRuleFiles, not_or] at hkeeps
    exact hkeeps.2.2.2.2.1
  obtain ⟨target, hdecoded, htarget, haccepted⟩ :=
    exists_indexRequest hpages hrequest hline hheaders huri
  obtain ⟨hfiles, hnames⟩ := linkedFiles_sound hclean hfilename
  obtain ⟨rules, hrules, hgranted⟩ := linkedFiles_granted hne hfilename.1 hsite rfl
  have hreq : requestOf config (indexRequest target).print =
      { indexRequest target with headers := [(bytes "host", bytes "a")] } := by
    rw [requestOf, haccepted]
    rfl
  have hlocated : Located { quietEnv with files := linkedFiles site config.htaccessFilename }
      config (indexRequest target).print true { absolute := true, names := [site] }
      { absolute := true, names := [site, config.htaccessFilename] } :=
    { accepted := by rw [haccepted]; rfl
      method := by rw [hreq]; exact (by decide : security.isMethodAllowed (bytes "GET") = true)
      body := by rw [hreq]; exact fun h => absurd h.1 (lt_irrefl 0)
      direct := fun h => absurd h.1 (by decide)
      target := by rw [hreq]; exact htarget
      root_eq := (hroot _).symm
      resolved := by rw [hreq]; exact linkedFiles_resolved hsite hdecoded
      visible := linkedFiles_visible hkeeps }
  have hcontent : (linkedFiles site config.htaccessFilename).content
      { absolute := true, names := [site, config.htaccessFilename] } = some (bytes "#") := by
    simp [linkedFiles]
  obtain ⟨cached, hcached⟩ := get_new hcontent (by simp [linkedFiles]; decide)
    quietEnv.hash quietEnv.cacheNow config.enableStaticCache config.staticCacheShards
    config.staticCacheMaxEntries config.staticCacheMaxBytes config.staticCacheMaxFileBytes
    config.staticCacheRevalidateMs
  have hplain : (requestOf config (indexRequest target).print).headers.lookup
      (bytes "if-none-match") = none := by
    rw [hreq]
    exact (by decide +kernel : [(bytes "host", bytes "a")].lookup (bytes "if-none-match") = none)
  refine hkept _ config hfiles hnames hroots _ true [] [] _ _
    (hlocated.returned (w := World.initial config { inlineTokens := [], secretsFile := [] })
      (by rw [hreq]; rfl) hplain hrules hgranted ?_ hextension hcached [] []) rfl
  simp [existingFile, linkedFiles]

/-- The rule files are kept back by a configuration whose name for them is in
lower case, is no file name or is withheld for another reason, and by none
else. -/
theorem rule_files_kept_iff {env : ConfigEnv} {confPath : Path} {loaded : ServerConfig}
    (hload : ConfigLoader.load env confPath = .ok loaded) :
    RuleFilesKept loaded ↔ KeepsRuleFiles loaded := by
  obtain ⟨hne, hrequest, hline, hheaders, huri⟩ := load_requestLimits hload
  constructor
  · intro hkept
    by_contra hkeeps
    exact exists_returnsFile hkeeps hne hrequest hline hheaders huri hkept
  · intro hkeeps env config hfiles hnames hroots rawRequest tls method target w p hreturns
    obtain ⟨hname, hsame, -⟩ := canonicalRoots_keeps hroots
    exact hreturns.name_ne hfiles hnames (hname ▸ hne) (hsame.mpr hkeeps)

/-- Rule files under a name with a capital letter. -/
def upperConf : Bytes := bytes "htaccess_filename = Rules.txt\n"

def upperEnv : ConfigEnv := { content := fun _ => some upperConf }

def upperConfig : ServerConfig :=
  chooseWorkers upperEnv (resolvePaths statusConfPath.parentPath
    { htaccessFilename := bytes "Rules.txt" })

/-- The server on a site whose index page is a link to its rule file. -/
def upperServer : ServerConfig :=
  { upperConfig with defaultRoot := Path.ofBytes (bytes "/srv") }

theorem upper_loaded : ConfigLoader.load upperEnv statusConfPath = .ok upperConfig := by
  decide +kernel

theorem rule_file_returned :
    ConfigLoader.load upperEnv statusConfPath = .ok upperConfig ∧
      canonicalRoots (linkedFiles (bytes "srv") (bytes "Rules.txt")) upperConfig = .ok upperServer ∧
      ReturnsFile { quietEnv with files := linkedFiles (bytes "srv") (bytes "Rules.txt") }
        upperServer (bytes "GET / HTTP/1.1\r\nHost: a\r\n\r\n") true [] [] freshWorld
        (Path.ofBytes (bytes "/srv/Rules.txt")) ∧
      (Path.ofBytes (bytes "/srv/Rules.txt")).filename = upperServer.htaccessFilename := by
  refine ⟨upper_loaded, by decide +kernel, ⟨by decide +kernel, ?_⟩, by decide +kernel⟩
  have hbody : ((makeResponse
      { quietEnv with files := linkedFiles (bytes "srv") (bytes "Rules.txt") } upperServer
      (bytes "GET / HTTP/1.1\r\nHost: a\r\n\r\n") true [] []
      { freshWorld with calls := [] }).1.toOption.bind fun r => r.response.sharedBody) =
        some (bytes "#") := by
    decide +kernel
  obtain ⟨r, hr, hshared⟩ := Option.bind_eq_some_iff.mp hbody
  refine ⟨r, bytes "#", ?_, hshared⟩
  cases hresponse : (makeResponse
      { quietEnv with files := linkedFiles (bytes "srv") (bytes "Rules.txt") } upperServer
      (bytes "GET / HTTP/1.1\r\nHost: a\r\n\r\n") true [] []
      { freshWorld with calls := [] }).1 with
  | error e =>
      rw [hresponse] at hr
      cases hr
  | ok r' =>
      rw [hresponse] at hr
      cases hr
      rfl

theorem rule_files_kept_iff_upper : RuleFilesKept upperConfig ↔ KeepsRuleFiles upperConfig :=
  @rule_files_kept_iff upperEnv statusConfPath upperConfig upper_loaded

end HydrogenHttpd.Ref
