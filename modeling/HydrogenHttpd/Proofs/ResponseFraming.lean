import HydrogenHttpd.Proofs.AccessInheritance
import HydrogenHttpd.Proofs.ResponseFields

/-!
# Framing under rule files

A rule file may add fields to a response. The code leaves out four names that
frame a message, in the one spelling it writes them; whatever other name a
directive has goes out next to the fields the response has of its own. So two
fields of a response are never confused, read without case, exactly if that
holds of the names the directives give: among themselves, against the own
names, against `Transfer-Encoding` and against the `ETag` of the static cache.
-/

namespace HydrogenHttpd.Ref

open Base Spec Htaccess

/-! ## What is asked of a header block -/

/-- A response whose fields leave no doubt about where it ends. -/
structure WellFramed (res : HttpResponse) : Prop where
  distinct : (res.fields.map fun h => lowercase h.1).Nodup
  length : res.fields.filter (fun h => lowercase h.1 = bytes "content-length") =
    [(bytes "Content-Length", decimal res.bodyData.length)]
  connection : (res.fields.filter fun h => lowercase h.1 = bytes "connection").length = 1
  unencoded : ∀ h ∈ res.fields, lowercase h.1 ≠ bytes "transfer-encoding"

theorem ownNames_nodup :
    ∀ a b c : Bool, ((ownNames a b c).map lowercase).Nodup := by
  decide +kernel

theorem ownNames_unencoded :
    ∀ a b c : Bool, bytes "transfer-encoding" ∉ (ownNames a b c).map lowercase := by
  decide +kernel

/-- With distinct names the fields that every response has settle the rest. -/
theorem wellFramed_iff (res : HttpResponse) :
    WellFramed res ↔ (res.fields.map fun h => lowercase h.1).Nodup ∧
      ∀ h ∈ res.fields, lowercase h.1 ≠ bytes "transfer-encoding" := by
  refine ⟨fun h => ⟨h.distinct, h.unencoded⟩, fun ⟨hdistinct, hunencoded⟩ => ?_⟩
  have honly : ∀ h ∈ res.fields, ∀ name, lowercase h.1 = name →
      res.fields.filter (fun h => lowercase h.1 = name) = [h] := by
    intro h hmem name hname
    subst hname
    exact filter_eq_singleton (fun h : Bytes × Bytes => lowercase h.1) hdistinct hmem
  have hown : ∀ h ∈ res.ownFields, h ∈ res.fields := fun h hmem => List.mem_append_left _ hmem
  have hlength : (bytes "Content-Length", decimal res.bodySize) ∈ res.ownFields := by
    simp [HttpResponse.ownFields]
  have hconnection : (bytes "Connection", bytes "close") ∈ res.ownFields := by
    simp [HttpResponse.ownFields]
  refine ⟨hdistinct, ?_, ?_, hunencoded⟩
  · rw [← bodySize_eq]
    exact honly _ (hown _ hlength) _ (show lowercase (bytes "Content-Length") = _ by decide)
  · rw [honly _ (hown _ hconnection) _ (show lowercase (bytes "Connection") = _ by decide),
      List.length_singleton]

/-! ## What a rule file names -/

/-- The name may be set: it is spelled like one, and not as the code spells the
names it withholds. -/
def settable (name : Bytes) : Bool :=
  (name.all fun c => isAlnum c || c == 45) && !criticalHeaders.contains name

/-- The field the words of a line set, if they set one. -/
def fieldWords : List Bytes → Option Bytes
  | first :: action :: name :: _ =>
      if first = bytes "Header" ∧ action = bytes "set" ∧ settable name then some name else none
  | _ => none

/-- The field a line of a rule file sets. -/
def fieldSet (line : Bytes) : Option Bytes := fieldWords (wordsOf (line.takeWhile (· ≠ 35)))

/-- The fields a rule file sets. -/
def fieldsSet (text : Bytes) : List Bytes := (getlines text).filterMap fieldSet

theorem setHeader_names {name rest n : Bytes} (hname : name ≠ []) (rules : HtaccessRules) :
    n ∈ (setHeader name rest rules).responseHeaders.map (·.1) ↔
      n ∈ rules.responseHeaders.map (·.1) ∨ settable name ∧ name = n := by
  have hsafe : ((!name.isEmpty && name.all fun c => isAlnum c || c == 45) = true ∧
      name ∉ criticalHeaders) ↔ settable name = true := by
    simp [settable, hname]
  rw [setHeader]
  simp only [hsafe]
  split
  · next h => rw [mem_keys_put, or_comm, and_iff_right h, eq_comm]
  · next h => rw [or_iff_left fun hno => h hno.1]

/-- What a text sets, by its first three words. -/
theorem fieldWords_readWord (text : Bytes) {first second third rest1 rest2 rest3 : Bytes}
    (h1 : readWord text = (first, rest1)) (h2 : readWord rest1 = (second, rest2))
    (h3 : readWord rest2 = (third, rest3)) :
    fieldWords (wordsOf text) =
      if first = bytes "Header" ∧ second = bytes "set" ∧ third ≠ [] ∧ settable third then
        some third
      else none := by
  have hnil : ¬ ([] = bytes "Header") ∧ ¬ ([] = bytes "set") := by decide
  rw [wordsOf_readWord text, h1]
  simp only []
  split
  · next hfirst => simp [hfirst, hnil, fieldWords]
  · rw [wordsOf_readWord rest1, h2]
    simp only []
    split
    · next hsecond => simp [hsecond, hnil, fieldWords]
    · rw [wordsOf_readWord rest2, h3]
      simp only []
      split
      · next hthird => simp [hthird, fieldWords]
      · next hthird => simp [hthird, fieldWords]

/-- A line adds the field it sets to those of the lines above it. -/
theorem parseLine_names (line : Bytes) (rules : HtaccessRules) (n : Bytes) :
    n ∈ (parseLine line rules).responseHeaders.map (·.1) ↔
      n ∈ rules.responseHeaders.map (·.1) ∨ fieldSet line = some n := by
  rw [fieldSet, ← wordsOf_trim, ← take_find_eq_takeWhile, parseLine]
  generalize trim _ = text
  simp only []
  cases h1 : readWord text with
  | mk first rest1 =>
  cases h2 : readWord rest1 with
  | mk second rest2 =>
  cases h3 : readWord rest2 with
  | mk third rest3 =>
  rw [fieldWords_readWord text h1 h2 h3]
  simp only []
  by_cases hheader : first = bytes "Header"
  · have htext : text ≠ [] := by
      intro hempty
      rw [hempty] at h1
      exact absurd (hheader ▸ (Prod.mk.inj h1).1) (by decide)
    have hother : bytes "Header" ≠ bytes "Require" ∧ bytes "Header" ≠ bytes "Options" := by decide
    rw [if_neg htext, if_neg (hheader ▸ hother.1), if_neg (hheader ▸ hother.2), if_pos hheader]
    by_cases hset : second = bytes "set" ∧ third ≠ []
    · rw [if_pos hset, setHeader_names hset.2]
      simp [hheader, hset]
    · rw [if_neg hset, if_neg fun h => hset ⟨h.2.1, h.2.2.1⟩]
      simp
  · simp only [hheader, false_and, if_false, reduceCtorEq, or_false]
    split
    · rfl
    · split
      · split <;> split <;> rfl
      · split
        · split <;> rfl
        · rfl

theorem parseFile_names (text n : Bytes) :
    n ∈ (parseFile (some text)).responseHeaders.map (·.1) ↔ n ∈ fieldsSet text := by
  have hlines : ∀ (lines : List Bytes) (rules : HtaccessRules),
      n ∈ (lines.foldl (fun rules line => parseLine line rules) rules).responseHeaders.map (·.1) ↔
        n ∈ rules.responseHeaders.map (·.1) ∨ n ∈ lines.filterMap fieldSet := by
    intro lines
    induction lines with
    | nil => simp
    | cons line lines ih =>
        intro rules
        rw [List.foldl_cons, ih, parseLine_names, List.mem_filterMap, List.mem_filterMap]
        simp [or_assoc]
  rw [parseFile, hlines, fieldsSet]
  simp

/-! ## What the rule files of a path name -/

/-- The rule file of a directory sets the field. -/
def SetsField (files : Files) (filename : Bytes) (name : Bytes) (dir : Path) : Prop :=
  files.found (dir / Path.ofBytes filename) = .ok true ∧
    files.isRegularFile (dir / Path.ofBytes filename) = .ok true ∧
    ∃ text, files.content (dir / Path.ofBytes filename) = some text ∧ name ∈ fieldsSet text

theorem applyRules_names {files : Files} {filename n : Bytes} (dirs : List Path)
    {result r : HtaccessRules} (h : applyRules files filename dirs result = .ok r) :
    n ∈ r.responseHeaders.map (·.1) ↔
      n ∈ result.responseHeaders.map (·.1) ∨ ∃ dir ∈ dirs, SetsField files filename n dir := by
  induction dirs generalizing result with
  | nil =>
      cases h
      simp
  | cons dir dirs ih =>
      simp only [applyRules] at h
      rw [List.exists_mem_cons_iff]
      split at h
      · cases h
      · next hfound =>
          rw [ih h, SetsField, hfound]
          simp
      · next hfound =>
          split at h
          · cases h
          · next hregular =>
              rw [ih h, SetsField, hregular]
              simp
          · next hregular =>
              rw [ih h, override, mem_keys_foldl_put, SetsField, hfound, hregular, or_assoc]
              cases hcontent : files.content (dir / Path.ofBytes filename) with
              | none => simp [parseFile]
              | some text => simp [parseFile_names]

/-- A rule file on the way to the path sets the field. -/
def RulesSet (files : Files) (documentRoot requestedPath : Path) (filename : Bytes)
    (maxDepth : Nat) (name : Bytes) : Prop :=
  ∃ root directory current, files.weaklyCanonical documentRoot = .ok root ∧
    files.isDirectory requestedPath = .ok directory ∧
    files.weaklyCanonical (if directory then requestedPath else requestedPath.parentPath) =
      .ok current ∧
    ∃ dir ∈ climb root maxDepth current [], SetsField files filename name dir

theorem evaluate_names {files : Files} {documentRoot requestedPath : Path} {filename n : Bytes}
    {maxDepth : Nat} {r : HtaccessRules}
    (h : evaluate files documentRoot requestedPath filename maxDepth = .ok r) :
    n ∈ r.responseHeaders.map (·.1) ↔
      RulesSet files documentRoot requestedPath filename maxDepth n := by
  rw [evaluate] at h
  split at h
  · cases h
  · next root hroot =>
      split at h
      · cases h
      · next directory hdirectory =>
          split at h
          · cases h
          · next current hcurrent =>
              rw [applyRules_names _ h, RulesSet]
              constructor
              · intro hn
                exact ⟨root, directory, current, hroot, hdirectory, hcurrent,
                  hn.resolve_left (by simp)⟩
              · rintro ⟨root', directory', current', hroot', hdirectory', hcurrent', hdirs⟩
                rw [hroot] at hroot'
                cases hroot'
                rw [hdirectory] at hdirectory'
                cases hdirectory'
                rw [hcurrent] at hcurrent'
                cases hcurrent'
                exact Or.inr hdirs

/-! ## Framing -/

section Framing

variable (env : ServerEnv) (config : ServerConfig) (rawRequest : Bytes) (tls : Bool) (w : World)

/-- The response of the path gets a field of this name, from a rule file or from
the static cache. -/
def AddsField (root path : Path) (name : Bytes) : Prop :=
  config.enableHtaccess = true ∧
      RulesSet env.files root path config.htaccessFilename config.maxHtaccessDepth name ∨
    FromCache env config rawRequest w root path ∧ name = bytes "ETag"

/-- Read without case, the names that are added differ from each other, from
those of the fields the response has of its own, and from the one that would
replace the length. -/
structure ClearNames (root path : Path) : Prop where
  distinct : ∀ a b, AddsField env config rawRequest w root path a →
    AddsField env config rawRequest w root path b → lowercase a = lowercase b → a = b
  new : ∀ a, AddsField env config rawRequest w root path a →
    lowercase a ∉ (ownNames config.exposeServerHeader false tls).map lowercase
  caching : ∀ a, AddsField env config rawRequest w root path a →
    lowercase a = bytes "cache-control" →
      FromCache env config rawRequest w root path ∧ config.staticCacheControl = []
  unencoded : ∀ a, AddsField env config rawRequest w root path a →
    lowercase a ≠ bytes "transfer-encoding"

end Framing

theorem mem_ownNames (exposeServerHeader cacheControl tls : Bool) (n : Bytes) :
    n ∈ (ownNames exposeServerHeader cacheControl tls).map lowercase ↔
      n ∈ (ownNames exposeServerHeader false tls).map lowercase ∨
        cacheControl = true ∧ n = bytes "cache-control" := by
  have hlower : lowercase (bytes "Cache-Control") = bytes "cache-control" := by decide
  simp only [ownNames, List.map_append, List.mem_append]
  cases cacheControl with
  | false => simp
  | true =>
      simp only [if_true, List.map_cons, List.map_nil, List.mem_singleton, hlower,
        Bool.false_eq_true, if_false, List.not_mem_nil, true_and]
      tauto

/-- A response is well framed if its extra names are clear of the own ones and
of each other. -/
theorem wellFramed_extra_iff {res : HttpResponse} (hkeys : (res.extraHeaders.map (·.1)).Nodup) :
    WellFramed res ↔
      (∀ a ∈ res.extraHeaders.map (·.1), ∀ b ∈ res.extraHeaders.map (·.1),
        lowercase a = lowercase b → a = b) ∧
      (∀ a ∈ res.extraHeaders.map (·.1), lowercase a ∉
        (ownNames res.exposeServerHeader (!res.cacheControl.isEmpty) res.tls).map lowercase) ∧
      ∀ a ∈ res.extraHeaders.map (·.1), lowercase a ≠ bytes "transfer-encoding" := by
  have hnames : (res.fields.map fun h => lowercase h.1) =
      (ownNames res.exposeServerHeader (!res.cacheControl.isEmpty) res.tls).map lowercase ++
        (res.extraHeaders.map (·.1)).map lowercase := by
    rw [← ownFields_names, HttpResponse.fields, List.map_append, List.map_map, List.map_map]
    rfl
  have hunencoded : (∀ h ∈ res.fields, lowercase h.1 ≠ bytes "transfer-encoding") ↔
      bytes "transfer-encoding" ∉ (res.extraHeaders.map (·.1)).map lowercase := by
    have hmap : (∀ h ∈ res.fields, lowercase h.1 ≠ bytes "transfer-encoding") ↔
        bytes "transfer-encoding" ∉ res.fields.map fun h => lowercase h.1 := by
      simp
    rw [hmap, hnames, List.mem_append, or_iff_right (ownNames_unencoded _ _ _)]
  rw [wellFramed_iff, hunencoded, hnames, List.nodup_append,
    and_iff_right (ownNames_nodup _ _ _), List.nodup_map_iff_inj_on hkeys, and_assoc]
  refine and_congr_right fun _ => and_congr ?_ ?_
  · constructor
    · intro hdisjoint a ha hown
      exact hdisjoint _ hown _ (List.mem_map_of_mem ha) rfl
    · intro hnew a ha b hb hab
      obtain ⟨c, hc, rfl⟩ := List.mem_map.mp hb
      exact hnew c hc (hab ▸ ha)
  · constructor
    · intro hnot a ha heq
      exact hnot (heq ▸ List.mem_map_of_mem ha)
    · intro hall hmem
      obtain ⟨a, ha, heq⟩ := List.mem_map.mp hmem
      exact hall a ha heq

/-- The extra fields that no rule file has a part in are clear of the others. -/
theorem OwnFraming.wellFramed {config : ServerConfig} {tls : Bool} {host target : Bytes}
    {res : HttpResponse} (h : OwnFraming config tls host target res) : WellFramed res := by
  have hlone : ∀ name ∈ [bytes "Location", bytes "WWW-Authenticate"],
      (∀ a b c : Bool, lowercase name ∉ (ownNames a b c).map lowercase) ∧
        lowercase name ≠ bytes "transfer-encoding" := by
    decide +kernel
  rcases h.extra with hextra | hextra | ⟨challenge, hextra⟩
  · refine (wellFramed_extra_iff ?_).mpr ?_
    · simp [hextra]
    · simp [hextra]
  · have hclear := hlone (bytes "Location") (by simp)
    refine (wellFramed_extra_iff ?_).mpr ?_
    · simp [hextra]
    · simp only [hextra, List.map_cons, List.map_nil, List.forall_mem_singleton]
      exact ⟨fun _ => trivial, hclear.1 _ _ _, hclear.2⟩
  · have hclear := hlone (bytes "WWW-Authenticate") (by simp)
    refine (wellFramed_extra_iff ?_).mpr ?_
    · simp [hextra]
    · simp only [hextra, List.map_cons, List.map_nil, List.forall_mem_singleton]
      exact ⟨fun _ => trivial, hclear.1 _ _ _, hclear.2⟩

section Paths

variable {env : ServerEnv} {config : ServerConfig} {rawRequest : Bytes} {tls : Bool} {w : World}
  {root path : Path} {rules : HtaccessRules} {res : HttpResponse}

theorem ruleFields_names (hrules : accessRules env.files config root path = .ok rules)
    (n : Bytes) :
    n ∈ (ruleFields rules).map (·.1) ↔ config.enableHtaccess = true ∧
      RulesSet env.files root path config.htaccessFilename config.maxHtaccessDepth n := by
  rw [ruleFields, mem_keys_foldl_put, List.map_nil, or_iff_right List.not_mem_nil]
  rw [accessRules] at hrules
  split at hrules
  · next henabled => rw [evaluate_names hrules, and_iff_right henabled]
  · next hdisabled =>
      cases hrules
      simp [hdisabled]

theorem PathFraming.names (h : PathFraming env config rawRequest tls w root path rules res)
    (hrules : accessRules env.files config root path = .ok rules) :
    (res.extraHeaders.map (·.1)).Nodup ∧ ∀ n, n ∈ res.extraHeaders.map (·.1) ↔
      AddsField env config rawRequest w root path n := by
  have hkeys : ((ruleFields rules).map (·.1)).Nodup :=
    nodup_keys_foldl_put _ List.nodup_nil
  by_cases hfrom : FromCache env config rawRequest w root path
  · obtain ⟨-, cached, -, hextra⟩ := h.fromCache hfrom
    rw [hextra]
    refine ⟨nodup_keys_put hkeys, fun n => ?_⟩
    rw [mem_keys_put, ruleFields_names hrules, AddsField, and_iff_right hfrom, or_comm]
  · rw [(h.otherwise hfrom).2]
    refine ⟨hkeys, fun n => ?_⟩
    rw [ruleFields_names hrules, AddsField, or_iff_left fun hno => hfrom hno.1]

/-- When the `Cache-Control` field is written. -/
theorem PathFraming.cacheControl (h : PathFraming env config rawRequest tls w root path rules res) :
    (!res.cacheControl.isEmpty) = false ↔
      FromCache env config rawRequest w root path ∧ config.staticCacheControl = [] := by
  by_cases hfrom : FromCache env config rawRequest w root path
  · rw [(h.fromCache hfrom).1, and_iff_right hfrom]
    simp
  · rw [(h.otherwise hfrom).1, iff_false_right fun hno => hfrom hno.1]
    decide

theorem PathFraming.wellFramed_iff
    (h : PathFraming env config rawRequest tls w root path rules res)
    (hrules : accessRules env.files config root path = .ok rules) :
    WellFramed res ↔ ClearNames env config rawRequest tls w root path := by
  obtain ⟨hkeys, hnames⟩ := h.names hrules
  have hsplit : ∀ a, lowercase a ∉
      (ownNames res.exposeServerHeader (!res.cacheControl.isEmpty) res.tls).map lowercase ↔
        lowercase a ∉ (ownNames config.exposeServerHeader false tls).map lowercase ∧
          ((!res.cacheControl.isEmpty) = true → lowercase a ≠ bytes "cache-control") := by
    intro a
    rw [mem_ownNames, h.server, h.tls, not_or, not_and]
  rw [wellFramed_extra_iff hkeys]
  simp only [hnames, hsplit]
  constructor
  · rintro ⟨hdistinct, hnew, hunencoded⟩
    refine ⟨fun a b ha hb => hdistinct a ha b hb, fun a ha => (hnew a ha).1, fun a ha hname => ?_,
      hunencoded⟩
    rw [← h.cacheControl]
    by_contra hwritten
    exact (hnew a ha).2 (by simpa using hwritten) hname
  · intro hclear
    refine ⟨fun a ha b hb => hclear.distinct a b ha hb, fun a ha => ⟨hclear.new a ha, ?_⟩,
      hclear.unencoded⟩
    intro hwritten hname
    rw [h.cacheControl.mpr (hclear.caching a ha hname)] at hwritten
    cases hwritten

end Paths

/-- The header block of a response of `makeResponse` has one line for each field.
The fields are well framed if and only if the request ends before the file
system, or the names that the rule files and the cache add for its path are
clear. -/
theorem framed_iff (env : ServerEnv) (config : ServerConfig) (rawRequest : Bytes) (tls : Bool)
    (method target : Bytes) (w : World) {r : Reply}
    (h : (makeResponse env config rawRequest tls method target w).1 = .ok r) :
    r.response.headersToString = r.response.statusLine ++
        r.response.fields.flatMap (fun h => headerField h.1 h.2) ++ crlf ∧
      (WellFramed r.response ↔ ∀ root path, Located env config rawRequest tls root path →
        ClearNames env config rawRequest tls w root path) := by
  refine ⟨headersToString_eq r.response, ?_⟩
  rcases makeResponse_fields h with ⟨root, path, rules, hlocated, hrules, hframing⟩ | ⟨hno, hown⟩
  · rw [hframing.wellFramed_iff hrules]
    refine ⟨fun hclear root' path' hlocated' => ?_, fun hall => hall root path hlocated⟩
    have hroot : root' = root := hlocated'.root_eq.trans hlocated.root_eq.symm
    subst hroot
    have hpath := hlocated'.resolved
    rw [hlocated.resolved] at hpath
    cases hpath
    exact hclear
  · exact iff_of_true hown.wellFramed fun root path hlocated => absurd hlocated (hno root path)

/-- A page next to a rule file that sets the length in lower case. -/
def lengthSite : List (Path × Bytes) :=
  [(Path.ofBytes (bytes "/www/.htaccess"), bytes "Header set content-length 0\n"),
   (Path.ofBytes (bytes "/www/page.html"), bytes "hello")]

def rulesConfig : ServerConfig :=
  { defaultRoot := Path.ofBytes (bytes "/www"), enableHtaccess := true }

def rulesWorld : World := World.initial rulesConfig { inlineTokens := [], secretsFile := [] }

def pageRequest : Bytes := bytes "GET /page.html HTTP/1.1\r\nHost: a\r\n\r\n"

def lengthEnv : ServerEnv := { quietEnv with files := site lengthSite }

/-- The page is served, under two lengths. -/
theorem lengthPage_served :
    ∃ r, (makeResponse lengthEnv rulesConfig pageRequest true [] [] rulesWorld).1 = .ok r ∧
      r.response.bodyData = bytes "hello" ∧
      (bytes "Content-Length", bytes "5") ∈ r.response.fields ∧
      (bytes "content-length", bytes "0") ∈ r.response.fields ∧
      ¬ (r.response.fields.map fun h => lowercase h.1).Nodup := by
  have hfields : (makeResponse lengthEnv rulesConfig pageRequest true [] [] rulesWorld).1.map
      (fun r => decide (r.response.bodyData = bytes "hello" ∧
        (bytes "Content-Length", bytes "5") ∈ r.response.fields ∧
        (bytes "content-length", bytes "0") ∈ r.response.fields ∧
        ¬ (r.response.fields.map fun h => lowercase h.1).Nodup)) = .ok true := by
    decide +kernel
  cases h : (makeResponse lengthEnv rulesConfig pageRequest true [] [] rulesWorld).1 with
  | error e =>
      rw [h] at hfields
      cases hfields
  | ok r =>
      rw [h] at hfields
      exact ⟨r, rfl,
        of_decide_eq_true (Except.ok.inj (show Except.ok _ = Except.ok true from hfields))⟩

theorem framed_iff_lengthPage :
    ∃ r, (makeResponse lengthEnv rulesConfig pageRequest true [] [] rulesWorld).1 = .ok r ∧
      (WellFramed r.response ↔ ∀ root path,
        Located lengthEnv rulesConfig pageRequest true root path →
        ClearNames lengthEnv rulesConfig pageRequest true rulesWorld root path) := by
  obtain ⟨r, hr, -⟩ := lengthPage_served
  exact ⟨r, hr, (framed_iff lengthEnv rulesConfig pageRequest true [] [] rulesWorld hr).2⟩

/-- A rule file that spells the name in lower case sets the length again. -/
theorem length_set_twice :
    ∃ r, (makeResponse lengthEnv rulesConfig pageRequest true [] [] rulesWorld).1 = .ok r ∧
      r.response.bodyData = bytes "hello" ∧
      (bytes "Content-Length", bytes "5") ∈ r.response.fields ∧
      (bytes "content-length", bytes "0") ∈ r.response.fields ∧
      ¬ WellFramed r.response := by
  obtain ⟨r, hr, hbody, hlength, hset, htwice⟩ := lengthPage_served
  exact ⟨r, hr, hbody, hlength, hset, fun hframed => htwice hframed.distinct⟩

end HydrogenHttpd.Ref
