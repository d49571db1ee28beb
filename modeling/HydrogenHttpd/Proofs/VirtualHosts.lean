import HydrogenHttpd.Proofs.DocumentRoots
import HydrogenHttpd.Proofs.HttpsRedirects
import HydrogenHttpd.Proofs.NumericSettings

/-!
# Which root a virtual host has

The loader keeps the name of a virtual host as the line has it, and the name of
a request is put into lower case before it is looked up. So a name is found if
it has no capital letter. It also has to survive the reading of its line, which
ends a key at the first equals sign: a registered name may hold one. A name that
is not found is served from the default root.
-/

namespace HydrogenHttpd.Ref

open Base Spec

/-- A line `vhost.<name> = <dir>`, with blanks around its parts or without, and
with a comment behind it or none. -/
def VhostLine (line name dir : Bytes) : Prop :=
  ∃ key value comment, line = key ++ 61 :: (value ++ comment) ∧ 35 ∉ key ++ value ∧
    (comment = [] ∨ comment.head? = some 35) ∧
    trim key = bytes "vhost." ++ name ∧ trim value = dir

/-- A Host field with this name in any letter case, and a port or none. -/
def NamesHost (field name : Bytes) : Prop :=
  ∃ host, lowercase host = lowercase name ∧
    (field = host ∨ ∃ digits, (∀ c ∈ digits, isDigit c = true) ∧ field = host ++ 58 :: digits)

/-- What relative directories of a configuration are relative to. -/
def configBase (env : ConfigEnv) (path : Path) : Path :=
  (if path.absolute then path else env.currentPath / path).parentPath

/-- The name is found as it is written: in lower case, and without an equals
sign. -/
def KeptName (name : Bytes) : Prop := lowercase name = name ∧ 61 ∉ name

instance (name : Bytes) : Decidable (KeptName name) := inferInstanceAs (Decidable (_ ∧ _))

/-! ## The lines -/

/-- The loader splits a line at its first equals sign. -/
theorem configEntry_eq_some_iff {line key v : Bytes} :
    configEntry line = some (key, v) ↔
      ∃ front behind, line.takeWhile (· ≠ 35) = front ++ 61 :: behind ∧ 61 ∉ front ∧
        trim front = key ∧ trim behind = v := by
  have hread : ∀ {front behind : Bytes}, line.takeWhile (· ≠ 35) = front ++ 61 :: behind →
      61 ∉ front → configEntry line = some (trim front, trim behind) := by
    intro front behind hline hfront
    have hblank : 61 ∉ front.dropWhile isSpace :=
      fun h => hfront ((List.dropWhile_sublist _).mem h)
    simp only [configEntry]
    rw [hline, trim, trimWith_around (by decide), find?_elem_append hblank]
    have hdrop : (front.dropWhile isSpace ++ 61 :: behind.rdropWhile isSpace).drop
        ((front.dropWhile isSpace).length + 1) = behind.rdropWhile isSpace := by
      simp [List.drop_append]
    simp only [hdrop, List.take_left, trim, trimWith_dropWhile, trimWith_rdropWhile]
  constructor
  · intro h
    have hmem : 61 ∈ line.takeWhile (· ≠ 35) := by
      by_contra hno
      have hnone : find? [61] (trim (line.takeWhile (· ≠ 35))) = none :=
        find?_elem_eq_none.mpr fun h => hno (mem_of_mem_trimWith h)
      simp only [configEntry, hnone] at h
      cases h
    obtain ⟨front, behind, hline, hfront⟩ := List.eq_append_cons_of_mem hmem
    rw [hread hline hfront] at h
    cases h
    exact ⟨front, behind, hline, hfront, rfl, rfl⟩
  · rintro ⟨front, behind, hline, hfront, rfl, rfl⟩
    exact hread hline hfront

/-! ## The settings -/

/-- A row of the table leaves the virtual hosts alone. -/
def KeepsHosts (row : String × Setting) : Prop :=
  ∀ v c c', row.2 v c = .ok c' → c'.virtualHosts = c.virtualHosts

section Rows

variable {key : String}

theorem keepsHosts_bool {set : ServerConfig → Bool → ServerConfig}
    (hset : ∀ c x, (set c x).virtualHosts = c.virtualHosts) :
    KeepsHosts (key, fun v c => boolKey v c set) := by
  intro v c c' h
  cases h
  exact hset c _

theorem keepsHosts_text {set : ServerConfig → Bytes → ServerConfig}
    (hset : ∀ c x, (set c x).virtualHosts = c.virtualHosts) :
    KeepsHosts (key, fun v c => textKey v c set) := by
  intro v c c' h
  cases h
  exact hset c _

theorem keepsHosts_path {set : ServerConfig → Path → ServerConfig}
    (hset : ∀ c x, (set c x).virtualHosts = c.virtualHosts) :
    KeepsHosts (key, fun v c => pathKey v c set) := by
  intro v c c' h
  cases h
  exact hset c _

theorem keepsHosts_int {set : ServerConfig → Int → ServerConfig}
    (hset : ∀ c x, (set c x).virtualHosts = c.virtualHosts) :
    KeepsHosts (key, fun v c => intKey v c set) := by
  intro v c c' h
  simp only [intKey] at h
  split at h
  · cases h
  · cases h
    exact hset c _

theorem keepsHosts_ushort {set : ServerConfig → Nat → ServerConfig}
    (hset : ∀ c x, (set c x).virtualHosts = c.virtualHosts) :
    KeepsHosts (key, fun v c => ushortKey v c set) :=
  keepsHosts_int fun c _ => hset c _

theorem keepsHosts_size {set : ServerConfig → Nat → ServerConfig}
    (hset : ∀ c x, (set c x).virtualHosts = c.virtualHosts) :
    KeepsHosts (key, fun v c => sizeKey v c set) := by
  intro v c c' h
  simp only [sizeKey] at h
  split at h
  · cases h
  · cases h
    exact hset c _

theorem keepsHosts_uint {set : ServerConfig → Nat → ServerConfig}
    (hset : ∀ c x, (set c x).virtualHosts = c.virtualHosts) :
    KeepsHosts (key, fun v c => uintKey v c set) := by
  intro v c c' h
  simp only [uintKey] at h
  split at h
  · cases h
  · cases h
    exact hset c _

end Rows

theorem settings_keepHosts : ∀ row ∈ settings, KeepsHosts row := by
  simp only [settings, List.forall_mem_cons]
  refine ⟨keepsHosts_ushort fun _ _ => rfl, keepsHosts_bool fun _ _ => rfl,
    keepsHosts_ushort fun _ _ => rfl, keepsHosts_ushort fun _ _ => rfl,
    keepsHosts_path fun _ _ => rfl, keepsHosts_path fun _ _ => rfl, keepsHosts_bool fun _ _ => rfl,
    keepsHosts_int fun _ _ => rfl, keepsHosts_bool fun _ _ => rfl, keepsHosts_path fun _ _ => rfl,
    keepsHosts_path fun _ _ => rfl, keepsHosts_path fun _ _ => rfl, keepsHosts_path fun _ _ => rfl,
    keepsHosts_size fun _ _ => rfl, keepsHosts_size fun _ _ => rfl, keepsHosts_path fun _ _ => rfl,
    keepsHosts_bool fun _ _ => rfl, keepsHosts_uint fun _ _ => rfl, keepsHosts_size fun _ _ => rfl,
    keepsHosts_size fun _ _ => rfl, keepsHosts_size fun _ _ => rfl, keepsHosts_size fun _ _ => rfl,
    keepsHosts_size fun _ _ => rfl, keepsHosts_size fun _ _ => rfl, keepsHosts_bool fun _ _ => rfl,
    keepsHosts_size fun _ _ => rfl, keepsHosts_size fun _ _ => rfl, keepsHosts_uint fun _ _ => rfl,
    keepsHosts_size fun _ _ => rfl, keepsHosts_size fun _ _ => rfl, keepsHosts_size fun _ _ => rfl,
    keepsHosts_size fun _ _ => rfl, keepsHosts_int fun _ _ => rfl, keepsHosts_bool fun _ _ => rfl,
    keepsHosts_bool fun _ _ => rfl, keepsHosts_int fun _ _ => rfl, keepsHosts_int fun _ _ => rfl,
    keepsHosts_bool fun _ _ => rfl, keepsHosts_bool fun _ _ => rfl, keepsHosts_size fun _ _ => rfl,
    keepsHosts_size fun _ _ => rfl, keepsHosts_uint fun _ _ => rfl, keepsHosts_bool fun _ _ => rfl,
    keepsHosts_size fun _ _ => rfl, keepsHosts_size fun _ _ => rfl, keepsHosts_size fun _ _ => rfl,
    keepsHosts_size fun _ _ => rfl, keepsHosts_uint fun _ _ => rfl, keepsHosts_text fun _ _ => rfl,
    keepsHosts_bool fun _ _ => rfl, keepsHosts_bool fun _ _ => rfl, keepsHosts_bool fun _ _ => rfl,
    keepsHosts_bool fun _ _ => rfl, keepsHosts_text fun _ _ => rfl, keepsHosts_size fun _ _ => rfl,
    keepsHosts_bool fun _ _ => rfl, keepsHosts_text fun _ _ => rfl, keepsHosts_text fun _ _ => rfl,
    keepsHosts_ushort fun _ _ => rfl, keepsHosts_uint fun _ _ => rfl,
    keepsHosts_uint fun _ _ => rfl, keepsHosts_bool fun _ _ => rfl, keepsHosts_path fun _ _ => rfl,
    keepsHosts_bool fun _ _ => rfl, keepsHosts_text fun _ _ => rfl, keepsHosts_path fun _ _ => rfl,
    keepsHosts_path fun _ _ => rfl, keepsHosts_size fun _ _ => rfl, keepsHosts_size fun _ _ => rfl,
    keepsHosts_size fun _ _ => rfl, keepsHosts_bool fun _ _ => rfl, keepsHosts_text fun _ _ => rfl,
    keepsHosts_bool fun _ _ => rfl, keepsHosts_text fun _ _ => rfl, ?_⟩
  simp

theorem settings_noHosts :
    ∀ a ∈ settings.map (·.1), (bytes "vhost.").isPrefixOf (bytes a) = false := by
  decide +kernel

/-- A setting gives a virtual host its directory, and leaves every other one
alone. -/
theorem applySetting_virtualHosts {key v : Bytes} {c c' : ServerConfig}
    (h : applySetting key v c = .ok c') (name : Bytes) :
    c'.virtualHosts.lookup name =
      if key = bytes "vhost." ++ name then some (Path.ofBytes v)
      else c.virtualHosts.lookup name := by
  rw [applySetting] at h
  split at h
  · next setting set hfind =>
      have hmem := List.mem_of_find?_eq_some hfind
      have hkey : bytes setting = key := by simpa using List.find?_some hfind
      have hother : key ≠ bytes "vhost." ++ name := by
        intro hsame
        have hno := settings_noHosts setting (List.mem_map_of_mem hmem)
        rw [hkey, hsame, List.isPrefixOf_iff_prefix.mpr (List.prefix_append _ _)] at hno
        cases hno
      rw [if_neg hother, settings_keepHosts _ hmem v c c' h]
  · split at h
    · next htoken =>
        have hother : key ≠ bytes "vhost." ++ name := by
          rintro rfl
          exact absurd htoken (by simp [bytes])
        rw [if_neg hother]
        cases hrule : Auth.parseTokenRule (key.drop 11) v false with
        | error e =>
            rw [hrule] at h
            cases h
        | ok rule =>
            rw [hrule] at h
            cases h
            rfl
    · split at h
      · next hvhost =>
          obtain ⟨host, rfl⟩ := List.isPrefixOf_iff_prefix.mp hvhost
          cases h
          have hdrop : (bytes "vhost." ++ host).drop 6 = host :=
            show (bytes "vhost." ++ host).drop (bytes "vhost.").length = host from List.drop_left
          rw [hdrop]
          by_cases hname : host = name
          · rw [hname, lookup_put_self, if_pos rfl]
          · rw [lookup_put_of_ne (Ne.symm hname), if_neg (by simpa using hname)]
      · next hvhost =>
          cases h
          rw [if_neg]
          rintro rfl
          exact hvhost (List.isPrefixOf_iff_prefix.mpr (List.prefix_append _ _))

/-- Behind the loop a virtual host has the directory of the last line that
names it. -/
theorem configLoop_virtualHosts {lines : List Bytes} {c c' : ServerConfig}
    (h : configLoop lines c = .ok c') (name : Bytes) :
    c'.virtualHosts.lookup name =
      match lastValue (bytes "vhost." ++ name) (lines.filterMap configEntry) with
      | none => c.virtualHosts.lookup name
      | some v => some (Path.ofBytes v) := by
  induction lines generalizing c with
  | nil =>
      cases h
      rfl
  | cons line lines ih =>
      rw [configLoop, configLine_eq] at h
      cases hentry : configEntry line with
      | none =>
          rw [hentry] at h
          rw [List.filterMap_cons_none hentry]
          exact ih h
      | some entry =>
          obtain ⟨key, v⟩ := entry
          rw [hentry] at h
          simp only [] at h
          split at h
          · cases h
          · next c₁ hset =>
              rw [ih h, applySetting_virtualHosts hset, List.filterMap_cons_some hentry,
                lastValue_cons]
              cases lastValue (bytes "vhost." ++ name) (lines.filterMap configEntry) with
              | none =>
                  by_cases hkey : key = bytes "vhost." ++ name
                  · simp only [if_pos hkey]
                  · simp only [if_neg hkey]
              | some w => rfl

/-! ## The line of a name -/

theorem lastValue_eq_none {key : Bytes} {entries : List (Bytes × Bytes)}
    (h : ∀ e ∈ entries, e.1 ≠ key) : lastValue key entries = none := by
  have hnone : entries.filter (·.1 = key) = [] :=
    List.filter_eq_nil_iff.mpr fun e he => by simpa using h e he
  rw [lastValue, hnone]
  rfl

/-- The value of the only entry with its key. -/
theorem lastValue_only {key v : Bytes} {before after : List (Bytes × Bytes)}
    (h : ∀ e ∈ before ++ after, e.1 ≠ key) :
    lastValue key (before ++ (key, v) :: after) = some v := by
  induction before with
  | nil =>
      rw [List.nil_append] at h ⊢
      rw [lastValue_cons, lastValue_eq_none h, if_pos rfl]
  | cons e before ih =>
      rw [List.cons_append, lastValue_cons, ih fun d hd => h d (List.mem_cons_of_mem _ hd)]

/-- What is read as a virtual host is a line for it. -/
theorem vhostLine_of_entry {line name v : Bytes}
    (h : configEntry line = some (bytes "vhost." ++ name, v)) : VhostLine line name v := by
  obtain ⟨front, behind, hline, -, hkey, hvalue⟩ := configEntry_eq_some_iff.mp h
  have hnot := not_mem_takeWhile_ne 35 line
  rw [hline] at hnot
  refine ⟨front, behind, line.dropWhile (· ≠ 35), ?_, fun h => hnot ?_, ?_, hkey, hvalue⟩
  · rw [← List.cons_append, ← List.append_assoc, ← hline, List.takeWhile_append_dropWhile]
  · exact List.mem_append.mpr ((List.mem_append.mp h).imp_right (List.mem_cons_of_mem _))
  · cases hrest : line.dropWhile (· ≠ 35) with
    | nil => exact Or.inl rfl
    | cons c rest =>
        have hc := List.head?_dropWhile_not (· ≠ (35 : UInt8)) line
        rw [hrest] at hc
        exact Or.inr (by simpa using hc)

/-- A line for a name without an equals sign is read as that. -/
theorem entry_of_vhostLine {line name v : Bytes} (h : VhostLine line name v)
    (hname : 61 ∉ name) : configEntry line = some (bytes "vhost." ++ name, v) := by
  obtain ⟨key, value, comment, rfl, hnot, hcomment, hkey, hvalue⟩ := h
  refine configEntry_eq_some_iff.mpr ⟨key, value, ?_, fun hmem => ?_, hkey, hvalue⟩
  · have hfront : 35 ∉ key ++ 61 :: value := by
      simp only [List.mem_append, List.mem_cons, not_or] at hnot ⊢
      exact ⟨hnot.1, by decide, hnot.2⟩
    rw [← List.cons_append, ← List.append_assoc]
    exact (span_ne hfront hcomment).1
  · have htrimmed : 61 ∈ trim key := mem_trimWith hmem (by decide)
    rw [hkey] at htrimmed
    rcases List.mem_append.mp htrimmed with h | h
    · exact absurd h (by decide)
    · exact hname h

/-- A line for a name that is not kept is no line for it in lower case. -/
theorem entry_ne_of_vhostLine {line name dir : Bytes} (h : VhostLine line name dir)
    (hkept : ¬ KeptName name) (v : Bytes) :
    configEntry line ≠ some (bytes "vhost." ++ lowercase name, v) := by
  intro hentry
  obtain ⟨front, -, -, hfront, hkey, -⟩ := configEntry_eq_some_iff.mp hentry
  have hequals : 61 ∉ name := by
    intro hmem
    refine hfront (mem_of_mem_trimWith (p := isSpace) ?_)
    rw [← trim, hkey]
    exact List.mem_append_right _ (List.mem_map.mpr ⟨61, hmem, by decide⟩)
  have hsame := (entry_of_vhostLine h hequals).symm.trans hentry
  simp only [Option.some.injEq, Prod.mk.injEq, List.append_cancel_left_eq] at hsame
  exact hkept ⟨hsame.1.symm, hequals⟩

/-! ## The name of a request -/

theorem normalizeHost_named {field name : Bytes} (hname : ∀ c ∈ name, isNameByte c = true)
    (h : NamesHost field name) : security.normalizeHost field = lowercase name := by
  obtain ⟨host, hlower, hfield⟩ := h
  have hhost : ∀ c ∈ host, isNameByte c = true := by
    have hback : ∀ c, isNameByte (toLower c) = true → isNameByte c = true := by decide +kernel
    intro c hc
    refine hback c ?_
    have hmem : toLower c ∈ lowercase name := hlower ▸ List.mem_map_of_mem hc
    obtain ⟨d, hd, hsame⟩ := List.mem_map.mp hmem
    rw [← hsame]
    exact toLower_nameByte d (hname d hd)
  have hcut : field.takeWhile (· ≠ 58) = host := by
    have hcolon : 58 ∉ host := fun h => (nameByte_plain 58 (hhost 58 h)).1 rfl
    rcases hfield with rfl | ⟨digits, -, rfl⟩
    · simpa using (span_ne (v := []) hcolon (Or.inl rfl)).1
    · exact (span_ne hcolon (Or.inr rfl)).1
  have hspace : ∀ c ∈ lowercase host, isSpace c = false := by
    intro c hc
    obtain ⟨d, hd, rfl⟩ := List.mem_map.mp hc
    exact (nameByte_plain _ (toLower_nameByte d (hhost d hd))).2.2.2.2
  rw [normalizeHost_eq, hcut, ← hlower]
  exact trimWith_eq_self_of_ends (fun c hc => hspace c (List.mem_of_mem_head? hc))
    (fun c hc => hspace c (List.mem_of_mem_getLast? hc))

/-! ## The root -/

theorem chooseWorkers_virtualHosts (env : ConfigEnv) (c : ServerConfig) :
    (chooseWorkers env c).virtualHosts = c.virtualHosts := by
  rw [chooseWorkers]
  split <;> rfl

/-- The configuration of a file with a line for a virtual host. -/
structure HostConfigured (env : ConfigEnv) (confPath : Path) (files : Files) (name dir : Bytes)
    (loaded config : ServerConfig) : Prop where
  named : RegisteredName name ∨ IPv4Address name
  line : ∃ content before line after, env.content confPath = some content ∧
    getlines content = before ++ line :: after ∧ VhostLine line name dir ∧
    ∀ l ∈ before ++ after, ∀ name' dir', VhostLine l name' dir' →
      lowercase name' ≠ lowercase name
  load : ConfigLoader.load env confPath = .ok loaded
  roots : canonicalRoots files loaded = .ok config

namespace HostConfigured

variable {env : ConfigEnv} {confPath : Path} {files : Files} {name dir : Bytes}
  {loaded config : ServerConfig}

/-- The directory is found under the name in lower case if that is the name. -/
theorem lookup (h : HostConfigured env confPath files name dir loaded config) :
    loaded.virtualHosts.lookup (lowercase name) =
      if KeptName name then some (resolvePath (configBase env confPath) (Path.ofBytes dir))
      else none := by
  obtain ⟨content, before, line, after, hcontent, hlines, hline, hothers⟩ := h.line
  obtain ⟨parsed, hloop, hloaded⟩ := load_loop h.load hcontent
  have hresolved : loaded.virtualHosts.lookup (lowercase name) =
      (parsed.virtualHosts.lookup (lowercase name)).map
        (resolvePath (configBase env confPath)) := by
    have hhosts : loaded.virtualHosts = parsed.virtualHosts.map fun host =>
        (host.1, resolvePath (configBase env confPath) host.2) := by
      rw [hloaded, chooseWorkers_virtualHosts]
      rfl
    rw [hhosts, lookup_map_snd]
  have hrest : ∀ e ∈ (before ++ after).filterMap configEntry,
      e.1 ≠ bytes "vhost." ++ lowercase name := by
    rintro ⟨key, v⟩ he rfl
    obtain ⟨l, hl, hentry⟩ := List.mem_filterMap.mp he
    exact hothers l hl _ v (vhostLine_of_entry hentry) (lowercase_idem name)
  rw [hresolved, configLoop_virtualHosts hloop, hlines, List.filterMap_append]
  rw [List.filterMap_append] at hrest
  by_cases hkept : KeptName name
  · rw [hkept.1] at hrest ⊢
    rw [if_pos hkept, List.filterMap_cons_some (entry_of_vhostLine hline hkept.2),
      lastValue_only hrest]
    rfl
  · have hnone : ∀ e ∈ before.filterMap configEntry ++ (line :: after).filterMap configEntry,
        e.1 ≠ bytes "vhost." ++ lowercase name := by
      intro e he
      rw [← List.filterMap_append] at he
      obtain ⟨l, hl, hentry⟩ := List.mem_filterMap.mp he
      rcases List.mem_append.mp hl with hl | hl
      · exact hrest e (List.mem_append_left _ (List.mem_filterMap.mpr ⟨l, hl, hentry⟩))
      · rcases List.mem_cons.mp hl with rfl | hl
        · rintro hkey
          exact entry_ne_of_vhostLine hline hkept e.2 (hentry.trans (by rw [← hkey]))
        · exact hrest e (List.mem_append_right _ (List.mem_filterMap.mpr ⟨l, hl, hentry⟩))
    rw [if_neg hkept, lastValue_eq_none hnone]
    rfl

end HostConfigured

/-- A virtual host gets the root of its line if and only if its name has no
capital letter and no equals sign, or that root is the default one. -/
theorem virtual_host_root_iff {env : ConfigEnv} {confPath : Path} {files : Files}
    {name dir : Bytes} {loaded config : ServerConfig}
    (h : HostConfigured env confPath files name dir loaded config) {field : Bytes}
    (hhost : NamesHost field name) :
    files.weaklyCanonical (resolvePath (configBase env confPath) (Path.ofBytes dir)) =
        .ok (selectDocumentRoot config field) ↔
      KeptName name ∨
        files.weaklyCanonical (resolvePath (configBase env confPath) (Path.ofBytes dir)) =
          files.weaklyCanonical loaded.defaultRoot := by
  have hbytes : ∀ c ∈ name, isNameByte c = true := by
    have hdigit : ∀ c, isDigit c = true ∨ c = dot → isNameByte c = true := by decide +kernel
    rcases h.named with hname | hname
    · exact hname.bytes
    · exact fun c hc => hdigit c (hname.bytes c hc)
  obtain ⟨hdefault, hroots⟩ := canonicalRoots_lookup h.roots
  have hlookup := h.lookup
  rw [selectDocumentRoot, normalizeHost_named hbytes hhost, hdefault]
  by_cases hkept : KeptName name
  · rw [if_pos hkept] at hlookup
    obtain ⟨hnone, -⟩ | ⟨root, root', hsome, hcanonical, hroot⟩ := hroots (lowercase name)
    · rw [hlookup] at hnone
      cases hnone
    · rw [hlookup] at hsome
      cases hsome
      rw [hroot, hcanonical]
      exact iff_of_true rfl (Or.inl hkept)
  · rw [if_neg hkept] at hlookup
    obtain ⟨-, hnone⟩ | ⟨root, root', hsome, -, -⟩ := hroots (lowercase name)
    · rw [hnone, Option.getD_none, or_iff_right hkept]
    · rw [hlookup] at hsome
      cases hsome

/-- A name that is written with a capital letter. -/
def capitalConf : Bytes := bytes "vhost.Example.com = /srv/example\n"

def capitalEnv : ConfigEnv := { content := fun _ => some capitalConf }

def capitalConfig : ServerConfig :=
  chooseWorkers capitalEnv (resolvePaths statusConfPath.parentPath
    { virtualHosts := [(bytes "Example.com", Path.ofBytes (bytes "/srv/example"))] })

def capitalRequest : Bytes := bytes "GET / HTTP/1.1\r\nHost: Example.com\r\n\r\n"

theorem capital_configured :
    HostConfigured capitalEnv statusConfPath noFiles (bytes "Example.com") (bytes "/srv/example")
      capitalConfig capitalConfig where
  named := Or.inl (registeredName_of_plain (by decide +kernel))
  line := ⟨capitalConf, [], bytes "vhost.Example.com = /srv/example", [], rfl, by decide +kernel,
    ⟨bytes "vhost.Example.com ", bytes " /srv/example", [], by decide +kernel, by decide +kernel,
      Or.inl rfl, by decide +kernel, by decide +kernel⟩, by simp⟩
  load := by decide +kernel
  roots := by decide +kernel

/-- The host is served from the default root. -/
theorem virtual_host_not_found :
    HostConfigured capitalEnv statusConfPath noFiles (bytes "Example.com") (bytes "/srv/example")
        capitalConfig capitalConfig ∧
      (acceptRequest capitalConfig capitalRequest).ok = true ∧
      NamesHost (hostOf capitalConfig capitalRequest) (bytes "Example.com") ∧
      selectDocumentRoot capitalConfig (hostOf capitalConfig capitalRequest) =
        Path.ofBytes (bytes "/etc/www") ∧
      noFiles.weaklyCanonical (resolvePath (configBase capitalEnv statusConfPath)
          (Path.ofBytes (bytes "/srv/example"))) ≠
        .ok (selectDocumentRoot capitalConfig (hostOf capitalConfig capitalRequest)) :=
  ⟨capital_configured, by decide +kernel,
    ⟨bytes "Example.com", rfl, Or.inl (by decide +kernel)⟩, by decide +kernel, by decide +kernel⟩

theorem virtual_host_root_iff_capital :
    noFiles.weaklyCanonical (resolvePath (configBase capitalEnv statusConfPath)
          (Path.ofBytes (bytes "/srv/example"))) =
        .ok (selectDocumentRoot capitalConfig (bytes "Example.com")) ↔
      KeptName (bytes "Example.com") ∨
        noFiles.weaklyCanonical (resolvePath (configBase capitalEnv statusConfPath)
            (Path.ofBytes (bytes "/srv/example"))) =
          noFiles.weaklyCanonical capitalConfig.defaultRoot :=
  virtual_host_root_iff capital_configured ⟨bytes "Example.com", rfl, Or.inl rfl⟩

end HydrogenHttpd.Ref
