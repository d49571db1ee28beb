import HydrogenHttpd.Ref.Htaccess
import HydrogenHttpd.Spec.AccessRules

/-!
# Access rules down a chain of directories

`parseFile` keeps of a rule file whether its last word on access is a denial,
so a file that says nothing about it looks like one that grants
(`parseFile_denyAll`). `applyRules` therefore answers what the deepest file
says, and not what the deepest file with an opinion says; the two part where a
silent file lies below a denying one. Which directories are asked at all is
decided by the climb: the ancestors of the path, up to the depth, unless the
name of the first one below the root starts with two dots (`climb_eq`).
-/

namespace HydrogenHttpd.Ref

open Base Spec Htaccess

/-! ## One line, one file -/

theorem setHeader_denyAll (name rest : Bytes) (rules : HtaccessRules) :
    (setHeader name rest rules).denyAll = rules.denyAll := by
  rw [setHeader]
  split <;> rfl

/-- What a text says about access, by its first three words. An extraction
that fails yields no word, and none of the words that matter is empty. -/
theorem accessWords_readWord (text : Bytes) {first second third rest1 rest2 rest3 : Bytes}
    (h1 : readWord text = (first, rest1)) (h2 : readWord rest1 = (second, rest2))
    (h3 : readWord rest2 = (third, rest3)) :
    accessWords (wordsOf text) =
      if first = bytes "Require" ∧ second = bytes "all" ∧ third = bytes "denied" then some true
      else if first = bytes "Require" ∧ second = bytes "all" ∧ third = bytes "granted" then
        some false
      else none := by
  have hnil : ¬ ([] = bytes "Require") ∧ ¬ ([] = bytes "all") ∧ ¬ ([] = bytes "denied") ∧
      ¬ ([] = bytes "granted") := by decide
  rw [wordsOf_readWord text, h1]
  simp only []
  split
  · next hfirst => simp [hfirst, hnil, accessWords]
  · rw [wordsOf_readWord rest1, h2]
    simp only []
    split
    · next hsecond => simp [hsecond, hnil, accessWords]
    · rw [wordsOf_readWord rest2, h3]
      simp only []
      split
      · next hthird => simp [hthird, hnil, accessWords]
      · rfl

/-- A line changes the verdict to what it says, if it says something. -/
theorem parseLine_denyAll (line : Bytes) (rules : HtaccessRules) :
    (parseLine line rules).denyAll = (accessLine line).getD rules.denyAll := by
  rw [accessLine, ← wordsOf_trim, ← take_find_eq_takeWhile, parseLine]
  generalize trim _ = text
  simp only []
  cases h1 : readWord text with
  | mk first rest1 =>
  cases h2 : readWord rest1 with
  | mk second rest2 =>
  cases h3 : readWord rest2 with
  | mk third rest3 =>
  rw [accessWords_readWord text h1 h2 h3]
  simp only []
  by_cases hrequire : first = bytes "Require"
  · have htext : text ≠ [] := by
      intro hempty
      rw [hempty] at h1
      exact absurd (hrequire ▸ (Prod.mk.inj h1).1) (by decide)
    have hgranted : bytes "granted" ≠ bytes "denied" := by decide
    rw [if_neg htext, if_pos hrequire]
    by_cases hdenied : second = bytes "all" ∧ third = bytes "denied"
    · simp [hrequire, hdenied, hgranted.symm]
    · by_cases hall : second = bytes "all" ∧ third = bytes "granted"
      · simp [hrequire, hall, hgranted]
      · simp [hrequire, hdenied, hall]
  · simp only [hrequire, false_and, if_false, Option.getD_none]
    split
    · rfl
    · split
      · split <;> rfl
      · split
        · split
          · exact setHeader_denyAll _ _ _
          · rfl
        · rfl

theorem foldl_parseLine_denyAll (lines : List Bytes) (rules : HtaccessRules) :
    (lines.foldl (fun rules line => parseLine line rules) rules).denyAll =
      ((lines.filterMap accessLine).getLast?).getD rules.denyAll := by
  induction lines generalizing rules with
  | nil => rfl
  | cons line lines ih =>
      rw [List.foldl_cons, ih, parseLine_denyAll, List.filterMap_cons]
      cases haccess : accessLine line with
      | none => rfl
      | some denied =>
          rw [List.getLast?_cons]
          cases ((lines.filterMap accessLine).getLast?) <;> rfl

theorem parseFile_denyAll (text : Bytes) :
    (parseFile (some text)).denyAll = (decision text).getD false :=
  foldl_parseLine_denyAll (getlines text) {}

/-! ## The climb -/

/-- The directory some names below the root lead to. -/
def dirAt (root : Path) (names : List Bytes) : Path := { root with names := root.names ++ names }

/-- The first of the names starts with two dots. -/
def dotted (names : List Bytes) : Bool := names.head?.any fun name => (bytes "..").isPrefixOf name

theorem dots_prefix_intercalate {name : Bytes} (hname : name ≠ []) (rest : List Bytes) :
    (bytes "..").isPrefixOf ([slash].intercalate (name :: rest)) =
      (bytes "..").isPrefixOf name := by
  have hdots : bytes ".." = [dot, dot] := by decide
  have hslash : (dot == slash) = false := by decide
  rw [hdots]
  cases rest with
  | nil => rw [List.intercalate_singleton]
  | cons next rest =>
      rw [List.intercalate_cons_cons]
      match name with
      | [c] => simp [List.isPrefixOf, hslash]
      | c :: d :: cs => simp [List.isPrefixOf]

/-- What stops the climb: below the root the relative path consists of the names
of the directory, and its text starts with two dots if the first name does. -/
theorem climb_stops_iff (root : Path) {names : List Bytes} (hnames : [] ∉ names) :
    ((dirAt root names).lexicallyRelative root).isEmpty ∨
        (bytes "..").isPrefixOf ((dirAt root names).lexicallyRelative root).toBytes ↔
      dotted names = true := by
  cases names with
  | nil =>
      have hself : (dirAt root []).lexicallyRelative root = { names := [[dot]] } := by
        have hmismatch : Path.mismatch root.names root.names = ([], []) := by
          simpa using Path.mismatch_append root.names []
        simp [dirAt, Path.lexicallyRelative, hmismatch]
      rw [hself]
      decide
  | cons name rest =>
      have hname : name ≠ [] := fun h => hnames (h ▸ List.mem_cons_self)
      have hbelow : (dirAt root (name :: rest)).lexicallyRelative root =
          { names := name :: rest } := by
        simp [dirAt, Path.lexicallyRelative, Path.mismatch_append, Path.stepsUp, hname]
      rw [hbelow]
      simp [Path.isEmpty, Path.toBytes, dots_prefix_intercalate hname, dotted]

theorem climb_eq (root : Path) {names : List Bytes} (hnames : [] ∉ names) (depth : Nat)
    (dirs : List Path) :
    climb root depth (dirAt root names) dirs =
      if dotted names then dirs
      else (names.inits.map (dirAt root)).drop (names.length + 1 - depth) ++ dirs := by
  induction depth generalizing names dirs with
  | zero =>
      rw [climb, Nat.sub_zero, List.drop_of_length_le (by simp)]
      simp
  | succ depth ih =>
      rw [climb]
      simp only [climb_stops_iff root hnames]
      cases hdotted : dotted names with
      | true => simp
      | false =>
          simp only [Bool.false_eq_true, if_false]
          rcases List.eq_nil_or_concat names with hnil | ⟨init, name, hconcat⟩
          · subst hnil
            simp [dirAt]
          · rw [List.concat_eq_append] at hconcat
            subst hconcat
            have hroot : dirAt root (init ++ [name]) ≠ root := by
              intro h
              have hlength := congrArg (fun p : Path => p.names.length) h
              simp [dirAt] at hlength
            have hparent : (dirAt root (init ++ [name])).parentPath = dirAt root init := by
              simp [Path.parentPath, dirAt, ← List.append_assoc]
            have hinit : dotted init = false := by
              cases init with
              | nil => rfl
              | cons c cs => exact hdotted
            rw [if_neg hroot, hparent,
              ih (fun h => hnames (List.mem_append_left _ h)), hinit, List.inits_append]
            have hle : init.length + 1 - depth ≤ (init.inits.map (dirAt root)).length := by
              simp
            have hsub : (init ++ [name]).length + 1 - (depth + 1) = init.length + 1 - depth := by
              simp
            rw [List.map_append, hsub, List.drop_append_of_le_length hle]
            simp

/-! ## The rules of a chain -/

/-- What the file system says about the rule file of a directory. -/
def RuleFile (files : Files) (filename : Bytes) (dir : Path) : Option Bytes → Prop
  | none => files.found (dir / Path.ofBytes filename) = .ok false
  | some text =>
      files.found (dir / Path.ofBytes filename) = .ok true ∧
        files.isRegularFile (dir / Path.ofBytes filename) = .ok true ∧
        files.content (dir / Path.ofBytes filename) = some text

/-- The verdict is that of the last file, if there is one. -/
theorem applyRules_denyAll {α : Type} {files : Files} {filename : Bytes} {dirOf : α → Path}
    {rules : α → Option Bytes} (chain : List α)
    (h : ∀ d ∈ chain, RuleFile files filename (dirOf d) (rules d)) (result : HtaccessRules) :
    ∃ r, applyRules files filename (chain.map dirOf) result = .ok r ∧
      r.denyAll = match (chain.filterMap rules).getLast? with
        | none => result.denyAll
        | some text => (decision text).getD false := by
  induction chain generalizing result with
  | nil => exact ⟨result, rfl, rfl⟩
  | cons d chain ih =>
      have hdir := h d List.mem_cons_self
      have hchain := ih fun e he => h e (List.mem_cons_of_mem _ he)
      rw [List.map_cons]
      cases hrules : rules d with
      | none =>
          rw [hrules, RuleFile] at hdir
          obtain ⟨r, hr, hdeny⟩ := hchain result
          refine ⟨r, ?_, ?_⟩
          · simp only [applyRules, hdir, hr]
          · rw [hdeny, List.filterMap_cons_none hrules]
      | some text =>
          rw [hrules, RuleFile] at hdir
          obtain ⟨hfound, hregular, hcontent⟩ := hdir
          obtain ⟨r, hr, hdeny⟩ := hchain (override result (parseFile (some text)))
          refine ⟨r, ?_, ?_⟩
          · simp only [applyRules, hfound, hregular, hcontent, hr]
          · rw [hdeny, List.filterMap_cons_some hrules, List.getLast?_cons]
            cases (chain.filterMap rules).getLast? with
            | none => exact parseFile_denyAll text
            | some last => rfl

/-- A path below a document root, as the file system sees it: the directories
on the way down, by their names below the root, and the rule file of each. -/
structure AccessChain (files : Files) (documentRoot requestedPath : Path) (filename : Bytes) where
  root : Path
  names : List Bytes
  rules : List Bytes → Option Bytes
  directory : Bool
  rootCanonical : files.weaklyCanonical documentRoot = .ok root
  kind : files.isDirectory requestedPath = .ok directory
  directoryCanonical :
    files.weaklyCanonical (if directory then requestedPath else requestedPath.parentPath) =
      .ok (dirAt root names)
  named : [] ∉ names
  ruleFiles : ∀ above, above <+: names → RuleFile files filename (dirAt root above) (rules above)

section Chains

variable {files : Files} {documentRoot requestedPath : Path} {filename : Bytes}

/-- The rule files of the chain, from the root down. -/
def AccessChain.contents (chain : AccessChain files documentRoot requestedPath filename) :
    List (Option Bytes) := chain.names.inits.map chain.rules

/-- The directories the climb reaches, from the highest one down. -/
def AccessChain.reached (chain : AccessChain files documentRoot requestedPath filename)
    (maxDepth : Nat) : List (List Bytes) :=
  if dotted chain.names then [] else chain.names.inits.drop (chain.names.length + 1 - maxDepth)

/-- What is evaluated: the last rule file that is reached, as if it granted
where it says nothing. -/
theorem evaluate_denyAll (chain : AccessChain files documentRoot requestedPath filename)
    (maxDepth : Nat) :
    ∃ r, evaluate files documentRoot requestedPath filename maxDepth = .ok r ∧
      r.denyAll = match ((chain.reached maxDepth).filterMap chain.rules).getLast? with
        | none => false
        | some text => (decision text).getD false := by
  have hclimb : climb chain.root maxDepth (dirAt chain.root chain.names) [] =
      (chain.reached maxDepth).map (dirAt chain.root) := by
    rw [climb_eq chain.root chain.named, AccessChain.reached]
    split
    · rfl
    · rw [List.append_nil, List.map_drop]
  have hreached : ∀ d ∈ chain.reached maxDepth,
      RuleFile files filename (dirAt chain.root d) (chain.rules d) := by
    intro d hd
    rw [AccessChain.reached] at hd
    split at hd
    · cases hd
    · exact chain.ruleFiles d ((List.mem_inits _ _).mp (List.mem_of_mem_drop hd))
  obtain ⟨r, hr, hdeny⟩ := applyRules_denyAll (chain.reached maxDepth) hreached {}
  refine ⟨r, ?_, hdeny⟩
  simp only [evaluate, chain.rootCanonical, chain.kind, chain.directoryCanonical, hclimb, hr]

/-! ## Inheritance -/

theorem deepestFile_contents (chain : AccessChain files documentRoot requestedPath filename) :
    deepestFile chain.contents = (chain.names.inits.filterMap chain.rules).getLast? := by
  rw [deepestFile, AccessChain.contents, List.filterMap_map]
  rfl

theorem inherited_eq (chain : List (Option Bytes)) :
    inherited chain = (((chain.filterMap id).filterMap decision).getLast?).getD false := by
  rw [inherited, List.filterMap_filterMap]
  rfl

theorem inherited_of_no_file {chain : List (Option Bytes)} (h : deepestFile chain = none) :
    inherited chain = false := by
  rw [deepestFile, List.getLast?_eq_none_iff] at h
  rw [inherited_eq, h]
  rfl

/-- The deepest file decides if it says anything. -/
theorem inherited_of_deepest {chain : List (Option Bytes)} {text : Bytes} {denied : Bool}
    (h : deepestFile chain = some text) (hdecision : decision text = some denied) :
    inherited chain = denied := by
  rw [deepestFile, List.getLast?_eq_some_iff] at h
  obtain ⟨above, hfiles⟩ := h
  rw [inherited_eq, hfiles, List.filterMap_append, List.filterMap_cons_some hdecision]
  simp

/-- The verdict is the inherited one in every chain that does not deny. In one
that denies it is if and only if the climb is not stopped by a name with two
dots in front, and the deepest rule file says something about access. -/
theorem denyAll_inherited_iff (chain : AccessChain files documentRoot requestedPath filename)
    {maxDepth : Nat} (hdepth : chain.names.length + 1 < maxDepth) :
    (∃ r, evaluate files documentRoot requestedPath filename maxDepth = .ok r ∧
      r.denyAll = inherited chain.contents) ↔
    inherited chain.contents = false ∨
      dotted chain.names = false ∧
        ∃ text, deepestFile chain.contents = some text ∧ (decision text).isSome := by
  obtain ⟨r, hr, hdeny⟩ := evaluate_denyAll chain maxDepth
  have hverdict : (∃ r, evaluate files documentRoot requestedPath filename maxDepth = .ok r ∧
      r.denyAll = inherited chain.contents) ↔ r.denyAll = inherited chain.contents := by
    rw [hr]
    simp
  rw [hverdict, hdeny, AccessChain.reached]
  cases hdotted : dotted chain.names with
  | true =>
      refine ⟨fun h => Or.inl h.symm, fun h => ?_⟩
      rcases h with h | ⟨h, -⟩
      · exact h.symm
      · cases h
  | false =>
      rw [if_neg Bool.false_ne_true, Nat.sub_eq_zero_of_le (by omega), List.drop_zero,
        ← deepestFile_contents]
      cases hfile : deepestFile chain.contents with
      | none => simp [inherited_of_no_file hfile]
      | some text =>
          cases hdecision : decision text with
          | none =>
              refine ⟨fun h => Or.inl (by simpa [hdecision] using h.symm), fun h => ?_⟩
              rcases h with h | ⟨-, other, hother, hsome⟩
              · simp [hdecision, h]
              · rw [← Option.some.inj hother, hdecision] at hsome
                cases hsome
          | some denied => simp [hdecision, inherited_of_deepest hfile hdecision]

end Chains

/-- A file system that holds these files, and the directories they are in. -/
def site (held : List (Path × Bytes)) : Files where
  weaklyCanonical p := .ok p.lexicallyNormal
  isDirectory p := .ok (held.any fun f => p ≠ f.1 ∧ p.IsPrefix f.1)
  found p := .ok (held.any fun f => p.IsPrefix f.1)
  isRegularFile p := .ok (held.any fun f => p = f.1)
  fileSize p := (held.lookup p).map List.length
  lastWriteTime _ := some 0
  content p := held.lookup p

/-- The rule files of the root and of one directory in it. -/
theorem ruleFiles_one {files : Files} {filename name : Bytes} {root : Path}
    {rules : List Bytes → Option Bytes}
    (hroot : RuleFile files filename (dirAt root []) (rules []))
    (hname : RuleFile files filename (dirAt root [name]) (rules [name])) :
    ∀ above, above <+: [name] → RuleFile files filename (dirAt root above) (rules above) := by
  intro above habove
  rcases List.prefix_cons_iff.mp habove with h | ⟨rest, h, hrest⟩
  · rw [h]
    exact hroot
  · rw [h, List.prefix_nil.mp hrest]
    exact hname

/-- A page in a directory whose own rule file is about something else than
access, below a root that denies it. -/
def silentSite : List (Path × Bytes) :=
  [(Path.ofBytes (bytes "/www/.htaccess"), bytes "Require all denied\n"),
   (Path.ofBytes (bytes "/www/sub/.htaccess"), bytes "Options -Indexes\n"),
   (Path.ofBytes (bytes "/www/sub/page.html"), bytes "secret")]

def silentChain : AccessChain (site silentSite) (Path.ofBytes (bytes "/www"))
    (Path.ofBytes (bytes "/www/sub/page.html")) (bytes ".htaccess") where
  root := Path.ofBytes (bytes "/www")
  names := [bytes "sub"]
  rules names :=
    if names = [] then some (bytes "Require all denied\n") else some (bytes "Options -Indexes\n")
  directory := false
  rootCanonical := by decide
  kind := by decide
  directoryCanonical := by decide
  named := by decide
  ruleFiles := ruleFiles_one (by exact ⟨by decide, by decide, by decide⟩)
    (by exact ⟨by decide, by decide, by decide⟩)

theorem denyAll_inherited_iff_silent :
    (∃ r, evaluate (site silentSite) (Path.ofBytes (bytes "/www"))
        (Path.ofBytes (bytes "/www/sub/page.html")) (bytes ".htaccess") 8 = .ok r ∧
      r.denyAll = inherited silentChain.contents) ↔
    inherited silentChain.contents = false ∨
      dotted silentChain.names = false ∧
        ∃ text, deepestFile silentChain.contents = some text ∧ (decision text).isSome :=
  denyAll_inherited_iff silentChain (by decide)

/-- The denial is inherited, and the page is not denied. -/
theorem silentFile_grants :
    inherited silentChain.contents = true ∧
      evaluate (site silentSite) (Path.ofBytes (bytes "/www"))
        (Path.ofBytes (bytes "/www/sub/page.html")) (bytes ".htaccess") 8 =
          .ok { denyAll := false, optionsIndexesDisabled := true, responseHeaders := [] } := by
  decide +kernel

/-! ## Denied subtrees -/

section Subtrees

variable {files : Files} {documentRoot requestedPath : Path} {filename : Bytes}

theorem inits_drop_denied (above : List Bytes) {k : Nat} (hk : k ≤ above.length) :
    ∃ higher, above.inits.drop k = higher ++ [above] := by
  rcases List.eq_nil_or_concat above with hnil | ⟨init, name, hconcat⟩
  · subst hnil
    rw [Nat.le_zero.mp hk]
    exact ⟨[], rfl⟩
  · rw [List.concat_eq_append] at hconcat
    rw [hconcat, List.inits_append,
      List.drop_append_of_le_length (by simp [hconcat] at hk ⊢; omega)]
    exact ⟨_, rfl⟩

/-- Where a directory denies access and no rule file stands below it, the files
below are denied if and only if the climb from them gets as far as that
directory: at most `maxDepth` directories up, itself included. -/
theorem deniedSubtree_iff (chain : AccessChain files documentRoot requestedPath filename)
    {above sub : List Bytes} {text : Bytes} (hnames : chain.names = above ++ sub)
    (htext : chain.rules above = some text) (hdenied : decision text = some true)
    (hsilent : ∀ s, s <+: sub → s ≠ [] → chain.rules (above ++ s) = none)
    (hdots : dotted chain.names = false) (maxDepth : Nat) :
    (∃ r, evaluate files documentRoot requestedPath filename maxDepth = .ok r ∧
      r.denyAll = true) ↔ sub.length < maxDepth := by
  obtain ⟨r, hr, hdeny⟩ := evaluate_denyAll chain maxDepth
  have hverdict : (∃ r, evaluate files documentRoot requestedPath filename maxDepth = .ok r ∧
      r.denyAll = true) ↔ r.denyAll = true := by
    rw [hr]
    simp
  have hbelow : ∀ d ∈ sub.inits.tail.map (above ++ ·), chain.rules d = none := by
    intro d hd
    obtain ⟨s, hs, hd⟩ := List.mem_map.mp hd
    rw [← hd]
    refine hsilent s ((List.mem_inits _ _).mp (List.mem_of_mem_tail hs)) fun hnil => ?_
    cases sub with
    | nil => simp at hs
    | cons name sub => simp [hnil] at hs
  rw [hverdict, hdeny, AccessChain.reached, hdots, if_neg Bool.false_ne_true, hnames,
    List.inits_append]
  by_cases hdepth : sub.length < maxDepth
  · have hk : (above ++ sub).length + 1 - maxDepth ≤ above.length := by
      rw [List.length_append]
      omega
    obtain ⟨higher, hhigher⟩ := inits_drop_denied above hk
    rw [List.drop_append_of_le_length (by simp at hk ⊢; omega), hhigher, List.filterMap_append,
      List.filterMap_eq_nil_iff.mpr hbelow, List.append_nil, List.filterMap_append,
      List.filterMap_cons_some htext]
    simp [hdenied, hdepth]
  · have hk : above.inits.length ≤ (above ++ sub).length + 1 - maxDepth := by
      rw [List.length_append, List.length_inits]
      omega
    rw [List.drop_append, List.drop_of_length_le hk, List.nil_append,
      List.filterMap_eq_nil_iff.mpr fun d hd => hbelow d (List.mem_of_mem_drop hd)]
    simp [hdepth]

end Subtrees

/-- A page one directory below a root that denies access. -/
def deniedSite : List (Path × Bytes) :=
  [(Path.ofBytes (bytes "/www/.htaccess"), bytes "Require all denied\n"),
   (Path.ofBytes (bytes "/www/sub/page.html"), bytes "secret")]

def deniedChain : AccessChain (site deniedSite) (Path.ofBytes (bytes "/www"))
    (Path.ofBytes (bytes "/www/sub/page.html")) (bytes ".htaccess") where
  root := Path.ofBytes (bytes "/www")
  names := [bytes "sub"]
  rules names := if names = [] then some (bytes "Require all denied\n") else none
  directory := false
  rootCanonical := by decide
  kind := by decide
  directoryCanonical := by decide
  named := by decide
  ruleFiles := ruleFiles_one (by exact ⟨by decide, by decide, by decide⟩)
    (show _ = _ by decide)

theorem deniedSubtree_iff_page :
    (∃ r, evaluate (site deniedSite) (Path.ofBytes (bytes "/www"))
        (Path.ofBytes (bytes "/www/sub/page.html")) (bytes ".htaccess") 8 = .ok r ∧
      r.denyAll = true) ↔ [bytes "sub"].length < 8 :=
  deniedSubtree_iff deniedChain (show deniedChain.names = [] ++ [bytes "sub"] from rfl) rfl
    (by decide) (fun _ _ hs => if_neg hs) (by decide) 8

/-- With a climb of one directory the root is out of reach, and the page is not
denied. -/
theorem deniedPage_out_of_reach :
    deniedChain.rules [] = some (bytes "Require all denied\n") ∧
      decision (bytes "Require all denied\n") = some true ∧
      deniedChain.rules [bytes "sub"] = none ∧
      evaluate (site deniedSite) (Path.ofBytes (bytes "/www"))
        (Path.ofBytes (bytes "/www/sub/page.html")) (bytes ".htaccess") 1 =
          .ok { denyAll := false, optionsIndexesDisabled := true, responseHeaders := [] } := by
  decide +kernel

end HydrogenHttpd.Ref
