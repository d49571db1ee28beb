import HydrogenHttpd.Proofs.FastCgiReplies
import HydrogenHttpd.Proofs.StaticSafety

/-!
# What PHP is told about the document root

A script is found below the root of its virtual host, and `handlePhpScript`
names the default root beside it. `FastCgiClient::execute` then writes the path
of the script with slashes for backslashes, and the root as it is. So the two
parameters belong together exactly if the request is for the default root and
that root has no backslash in its name.

The roots are those the constructor leaves: canonical paths.
-/

namespace HydrogenHttpd.Ref

open Base
open FastCgiClient (requestParams)

/-- The paths the file system answers are what their texts are read as. -/
structure TextPaths (files : Files) : Prop where
  text : ∀ {p q}, files.weaklyCanonical p = .ok q → Path.ofBytes q.toBytes = q

/-- The two parameters: the root is the one chosen for the host, and the script
is below it. -/
def ConsistentRoot (config : ServerConfig) (host : Bytes) (params : List (Bytes × Bytes)) :
    Prop :=
  ∃ root script, params.lookup (bytes "DOCUMENT_ROOT") = some root ∧
    params.lookup (bytes "SCRIPT_FILENAME") = some script ∧
    root = (selectDocumentRoot config host).toBytes ∧
    (Path.ofBytes root).IsPrefix (Path.ofBytes script)

/-! ## The roots -/

/-- What the constructor makes of the roots. -/
theorem canonicalRoots_lookup {files : Files} {loaded config : ServerConfig}
    (h : canonicalRoots files loaded = .ok config) :
    files.weaklyCanonical loaded.defaultRoot = .ok config.defaultRoot ∧
      ∀ host, loaded.virtualHosts.lookup host = none ∧ config.virtualHosts.lookup host = none ∨
        ∃ root root', loaded.virtualHosts.lookup host = some root ∧
          files.weaklyCanonical root = .ok root' ∧
          config.virtualHosts.lookup host = some root' := by
  simp only [canonicalRoots] at h
  split at h
  · cases h
  · next root hroot =>
      split at h
      · cases h
      · next hosts hhosts =>
          cases h
          exact ⟨hroot, lookup_mapM hhosts⟩

/-- Whatever root is selected is canonical. -/
theorem canonical_selected {files : Files} {loaded config : ServerConfig}
    (h : canonicalRoots files loaded = .ok config) (host : Bytes) :
    ∃ p, files.weaklyCanonical p = .ok (selectDocumentRoot config host) := by
  obtain ⟨hdefault, hhosts⟩ := canonicalRoots_lookup h
  rw [selectDocumentRoot]
  obtain ⟨-, hnone⟩ | ⟨root, root', -, hcanonical, hsome⟩ := hhosts (security.normalizeHost host)
  · rw [hnone]
    exact ⟨_, hdefault⟩
  · rw [hsome]
    exact ⟨root, hcanonical⟩

/-! ## The parameters -/

/-- `std::replace` of backslashes. -/
def slashed (text : Bytes) : Bytes := text.map fun c => if c = 92 then slash else c

theorem backslash_not_mem_slashed (text : Bytes) : 92 ∉ slashed text := by
  intro hmem
  obtain ⟨c, -, hc⟩ := List.mem_map.mp hmem
  split at hc
  · cases hc
  · next hne => exact hne hc

theorem slashed_of_not_mem {text : Bytes} (h : 92 ∉ text) : slashed text = text := by
  have hsame : text.map (fun c => if c = 92 then slash else c) = text.map id := by
    refine List.map_congr_left fun c hc => if_neg ?_
    rintro rfl
    exact h hc
  rw [slashed, hsame, List.map_id]

theorem lookup_requestParams (request : FastCgiRequest) :
    (requestParams request).lookup (bytes "DOCUMENT_ROOT") = some request.documentRoot ∧
      (requestParams request).lookup (bytes "SCRIPT_FILENAME") =
        some (slashed request.scriptFilename.toBytes) := by
  rw [requestParams]
  split
  · exact ⟨rfl, rfl⟩
  · rw [lookup_put_of_ne (by decide), lookup_put_of_ne (by decide)]
    exact ⟨rfl, rfl⟩

/-- A path has an empty name at its end alone. -/
theorem nil_not_mem_front {text : Bytes} {names rest : List Bytes}
    (h : (Path.ofBytes text).names = names ++ rest) (hrest : rest ≠ []) : [] ∉ names := by
  intro hmem
  have hpieces : [] ∉ (text.splitOn slash).filter fun name => !name.isEmpty := by
    simp [List.mem_filter]
  simp only [Path.ofBytes] at h
  split at h
  · have hfront := congrArg List.dropLast h
    rw [List.dropLast_concat, List.dropLast_append_of_ne_nil hrest] at hfront
    exact hpieces (hfront ▸ List.mem_append_left _ hmem)
  · exact hpieces (h ▸ List.mem_append_left _ hmem)

/-- A root without a backslash stays in front of the script. -/
theorem isPrefix_slashed {root p : Path} (hroot : Path.ofBytes root.toBytes = root)
    (hp : Path.ofBytes p.toBytes = p) (habs : root.absolute = true) (habs' : p.absolute = true)
    (hinside : root.IsPrefix p) (hclear : 92 ∉ root.toBytes) :
    root.IsPrefix (Path.ofBytes (slashed p.toBytes)) := by
  obtain ⟨rest, hrest⟩ := (Path.parts_prefix_iff (habs.trans habs'.symm)).mp hinside
  have htext : p.toBytes = slash :: [slash].intercalate p.names := by
    rw [Path.toBytes, if_pos habs']
    rfl
  have hfirst : (Path.ofBytes (slashed p.toBytes)).absolute = true := by
    rw [htext]
    rfl
  rw [Path.IsPrefix, Path.parts_prefix_iff (habs.trans hfirst.symm)]
  by_cases hempty : rest = []
  · -- the script is the root
    have hsame : p = root := by
      rw [hempty, List.append_nil] at hrest
      cases p
      cases root
      exact congrArg₂ Base.Path.mk (habs'.trans habs.symm) hrest.symm
    rw [hsame, slashed_of_not_mem hclear, hroot]
  · by_cases hnames : root.names = []
    · rw [hnames]
      exact List.nil_prefix
    · have hjoin : p.toBytes = root.toBytes ++ slash :: [slash].intercalate rest := by
        rw [htext, ← hrest, Path.toBytes, if_pos habs, intercalate_append hnames hempty]
        simp
      have hlast : root.toBytes.getLast? ≠ some slash := by
        intro hlast
        have hmem : [] ∈ root.names := by
          have hread := congrArg Path.names hroot
          simp only [Path.ofBytes] at hread
          split at hread
          · rw [← hread]
            exact List.mem_append_right _ List.mem_cons_self
          · next hend =>
              rw [not_and_not_right] at hend
              rw [hend hlast] at hread
              exact absurd hread.symm hnames
        exact nil_not_mem_front ((congrArg Path.names hp).trans hrest.symm) hempty hmem
      have hprefix := Path.names_prefix (v := slashed ([slash].intercalate rest)) hlast
      rw [hroot] at hprefix
      have hslashed : slashed p.toBytes =
          root.toBytes ++ slash :: slashed ([slash].intercalate rest) := by
        conv_rhs => rw [← slashed_of_not_mem hclear]
        rw [hjoin, slashed, List.map_append]
        rfl
      rw [hslashed]
      exact hprefix

/-- A root with a backslash has a name that the script's path has not. -/
theorem not_isPrefix_slashed {root p : Path} (habs : root.absolute = true)
    (hback : 92 ∈ root.toBytes) : ¬ root.IsPrefix (Path.ofBytes (slashed p.toBytes)) := by
  intro hinside
  rw [Path.toBytes, if_pos habs, List.mem_append] at hback
  rcases hback with hback | hback
  · exact absurd (List.mem_singleton.mp hback) (by decide)
  · rcases mem_intercalate hback with hback | ⟨name, hname, hback⟩
    · exact absurd (List.mem_singleton.mp hback) (by decide)
    · have hpart : name ∈ (Path.ofBytes (slashed p.toBytes)).parts :=
        hinside.subset (List.mem_append_right _ hname)
      rcases List.mem_append.mp hpart with hroot | hnames
      · split at hroot
        · rw [List.mem_singleton.mp hroot] at hback
          exact absurd (List.mem_singleton.mp hback) (by decide)
        · cases hroot
      · exact backslash_not_mem_slashed _ (Path.mem_of_mem_names hnames hback)

/-! ## The requests -/

/-- The value of the Host field of the request that is answered. -/
def hostOf (config : ServerConfig) (rawRequest : Bytes) : Bytes :=
  ((acceptRequest config rawRequest).request.headers.lookup (bytes "host")).getD []

/-- The parameters of the request that `handlePhpScript` makes for a script. -/
def phpParams (config : ServerConfig) (rawRequest : Bytes) (script : Path) :
    List (Bytes × Bytes) :=
  let req := (acceptRequest config rawRequest).request
  requestParams (phpRequest config script req.target req.method req.body
    ((req.headers.lookup (bytes "content-type")).getD []))

theorem phpParams_lookup (config : ServerConfig) (rawRequest : Bytes) (script : Path) :
    (phpParams config rawRequest script).lookup (bytes "DOCUMENT_ROOT") =
        some config.defaultRoot.toBytes ∧
      (phpParams config rawRequest script).lookup (bytes "SCRIPT_FILENAME") =
        some (slashed script.toBytes) := by
  rw [phpParams]
  obtain ⟨hroot, hscript⟩ := lookup_requestParams (phpRequest config script
    (acceptRequest config rawRequest).request.target
    (acceptRequest config rawRequest).request.method
    (acceptRequest config rawRequest).request.body
    (((acceptRequest config rawRequest).request.headers.lookup (bytes "content-type")).getD []))
  rw [hroot, hscript, phpRequest]
  exact ⟨rfl, rfl⟩

/-- Of all requests that reach a script, those for the default root are told a
root that fits it, if that root has no backslash in its path. -/
theorem php_root_consistent_iff {env : ServerEnv} (hfiles : CanonicalPaths env.files)
    (htexts : TextPaths env.files) {loaded config : ServerConfig}
    (hroots : canonicalRoots env.files loaded = .ok config) (rawRequest : Bytes) (tls : Bool)
    (method target : Bytes) (w : World) {script : Path}
    (hscript : Call.handlePhpScript script ∈
      (makeResponse env config rawRequest tls method target { w with calls := [] }).2.calls) :
    ConsistentRoot config (hostOf config rawRequest) (phpParams config rawRequest script) ↔
      selectDocumentRoot config (hostOf config rawRequest) = config.defaultRoot ∧
        92 ∉ config.defaultRoot.toBytes := by
  have hdefault := (canonicalRoots_lookup hroots).1
  obtain ⟨selected, hselected⟩ := canonical_selected hroots (hostOf config rawRequest)
  obtain ⟨root, hroot, hself, -, habs, hinside⟩ :=
    resolveSafePath_some hfiles (served_path (Or.inr hscript)).1
  rw [← hostOf, hfiles.idempotent hselected] at hroot
  cases hroot
  obtain ⟨hsent, hsentScript⟩ := phpParams_lookup config rawRequest script
  have hreadDefault := htexts.text hdefault
  have hreadSelected := htexts.text hselected
  have habsDefault := hfiles.absolute hdefault
  constructor
  · rintro ⟨root, path, hrootParam, hscriptParam, hchosen, hbelow⟩
    rw [hsent] at hrootParam
    rw [hsentScript] at hscriptParam
    cases hrootParam
    cases hscriptParam
    refine ⟨?_, fun hback => ?_⟩
    · rw [← hreadSelected, ← hchosen, hreadDefault]
    · rw [hreadDefault] at hbelow
      exact not_isPrefix_slashed habsDefault hback hbelow
  · rintro ⟨hsame, hclear⟩
    rw [hsame] at hinside
    refine ⟨_, _, hsent, hsentScript, by rw [hsame], ?_⟩
    rw [hreadDefault]
    exact isPrefix_slashed hreadDefault (htexts.text hself) habsDefault habs hinside hclear

/-- Two roots, and a script below one of them. -/
def phpFiles (script : Path) : Files :=
  { noFiles with
    weaklyCanonical := fun p =>
      .ok (if p ∈ [Path.ofBytes (bytes "/srv/www"), Path.ofBytes (bytes "/srv/shop")] then p
        else script)
    found := fun p => .ok (p == script)
    isRegularFile := fun p => .ok (p == script) }

theorem phpFiles_sound {script : Path} (habs : script.absolute = true)
    (htext : Path.ofBytes script.toBytes = script) :
    CanonicalPaths (phpFiles script) ∧ TextPaths (phpFiles script) := by
  have hroots : ∀ p ∈ [Path.ofBytes (bytes "/srv/www"), Path.ofBytes (bytes "/srv/shop")],
      p.absolute = true ∧ Path.ofBytes p.toBytes = p := by decide +kernel
  have hcases : ∀ {p q}, (phpFiles script).weaklyCanonical p = .ok q →
      q ∈ [Path.ofBytes (bytes "/srv/www"), Path.ofBytes (bytes "/srv/shop")] ∨ q = script := by
    intro p q h
    simp only [phpFiles] at h
    split at h
    · next hmem =>
        cases h
        exact Or.inl hmem
    · cases h
      exact Or.inr rfl
  refine ⟨⟨fun h => ?_, fun h => ?_⟩, ⟨fun h => ?_⟩⟩
  · rcases hcases h with hmem | rfl
    · exact (hroots _ hmem).1
    · exact habs
  · rcases hcases h with hmem | rfl
    · simp only [phpFiles, if_pos hmem]
    · simp only [phpFiles, ite_self]
  · rcases hcases h with hmem | rfl
    · exact (hroots _ hmem).2
    · exact htext

/-- A site of its own for one host. -/
def shopConfig : ServerConfig :=
  { defaultRoot := Path.ofBytes (bytes "/srv/www")
    virtualHosts := [(bytes "shop", Path.ofBytes (bytes "/srv/shop"))]
    enablePhp := true }

/-- The script of the host `shop` is told the default root. -/
theorem php_root_of_another_host :
    let env := { quietEnv with files := phpFiles (Path.ofBytes (bytes "/srv/shop/a.php")) }
    let request := bytes "GET /a.php HTTP/1.1\r\nHost: shop\r\n\r\n"
    canonicalRoots env.files shopConfig = .ok shopConfig ∧
      Call.handlePhpScript (Path.ofBytes (bytes "/srv/shop/a.php")) ∈
        (makeResponse env shopConfig request true [] [] freshWorld).2.calls ∧
      ¬ ConsistentRoot shopConfig (hostOf shopConfig request)
        (phpParams shopConfig request (Path.ofBytes (bytes "/srv/shop/a.php"))) := by
  refine ⟨by decide +kernel, by decide +kernel, ?_⟩
  rintro ⟨root, script, hroot, -, hchosen, -⟩
  rw [(phpParams_lookup _ _ _).1] at hroot
  cases hroot
  exact absurd hchosen (by decide +kernel)

theorem php_root_consistent_default :
    ConsistentRoot shopConfig
        (hostOf shopConfig (bytes "GET /a.php HTTP/1.1\r\nHost: www\r\n\r\n"))
        (phpParams shopConfig (bytes "GET /a.php HTTP/1.1\r\nHost: www\r\n\r\n")
          (Path.ofBytes (bytes "/srv/www/a.php"))) ↔
      selectDocumentRoot shopConfig
          (hostOf shopConfig (bytes "GET /a.php HTTP/1.1\r\nHost: www\r\n\r\n")) =
          shopConfig.defaultRoot ∧
        92 ∉ shopConfig.defaultRoot.toBytes :=
  @php_root_consistent_iff
    { quietEnv with files := phpFiles (Path.ofBytes (bytes "/srv/www/a.php")) }
    (phpFiles_sound rfl (by decide +kernel)).1 (phpFiles_sound rfl (by decide +kernel)).2
    shopConfig shopConfig
    (by decide +kernel) (bytes "GET /a.php HTTP/1.1\r\nHost: www\r\n\r\n") true [] [] freshWorld
    (Path.ofBytes (bytes "/srv/www/a.php")) (by decide +kernel)

end HydrogenHttpd.Ref
