import HydrogenHttpd.Proofs.AuthStore

/-!
# Changes of the secrets file under the store

One client of the store, first its constructor and then any number of
refreshes, and others that replace or delete the file between any two of its
accesses. Every replacement has a modification time no version had before, so
a time stands for one version: `FileHistory` keeps the times used.

What carries the argument is `InStep`: if the file's present version has the
time the store remembers, the store has that version's rules. A refresh
keeps it under any interleaving, because it reads the time before the content.
The constructor reads them the other way round, and keeps it only when the
file is not replaced in between (`CarefulStep`); `construct_misses_change` is
a run where it was.
-/

namespace HydrogenHttpd.Ref

open Base

/-! ## The file -/

structure SecretsVersion where
  writeTime : Int
  content : Bytes
  deriving DecidableEq, Repr

/-- The present version of the secrets file, and the modification times of all
versions so far. -/
structure FileHistory where
  current : Option SecretsVersion
  times : List Int
  listed : ∀ v, current = some v → v.writeTime ∈ times

/-- What the accesses find. -/
def FileHistory.view (f : FileHistory) : SecretsView
  | .found => f.current.isSome
  | .writeTime =>
      match f.current with
      | none => .error (bytes "No such file or directory")
      | some v => .ok v.writeTime
  | .content => f.current.map (·.content)

/-- A change of the file: it is deleted, or atomically replaced by a version
with a time of its own. -/
inductive FileChange : FileHistory → FileHistory → Prop where
  | replace (f : FileHistory) (v : SecretsVersion) (hfresh : v.writeTime ∉ f.times) :
      FileChange f
        { current := some v
          times := v.writeTime :: f.times
          listed := fun v' h => by cases h; simp }
  | delete (f : FileHistory) :
      FileChange f { current := none, times := f.times, listed := fun v h => by cases h }

/-- Any number of changes. -/
abbrev FileChanges : FileHistory → FileHistory → Prop := Relation.ReflTransGen FileChange

/-- A time that was used stays used, and a version that is current behind some
changes under an old time was current before them. -/
theorem FileChanges.old {f f' : FileHistory} (h : FileChanges f f') {t : Int}
    (ht : t ∈ f.times) :
    t ∈ f'.times ∧ ∀ v, f'.current = some v → v.writeTime = t → f.current = some v := by
  induction h with
  | refl => exact ⟨ht, fun v hv _ => hv⟩
  | tail _ hstep ih =>
      obtain ⟨hmem, hold⟩ := ih
      cases hstep with
      | replace v hfresh =>
          refine ⟨List.mem_cons_of_mem _ hmem, ?_⟩
          intro v' hv' htime
          cases hv'
          exact absurd (htime ▸ hmem) hfresh
      | delete =>
          refine ⟨hmem, ?_⟩
          intro v hv
          cases hv

/-! ## The store and the file -/

/-- The rules of a version that the store can use with its inline ones. -/
def UsableRules (s : AuthRuntimeStore) (v : SecretsVersion) (rules : List AuthTokenRule) : Prop :=
  Auth.loadSecretsFile s.secretsFile (some v.content) = .ok rules ∧
    ((s.inlineTokens ++ rules).map (·.name)).Nodup

/-- The store has the rules of the file's present version, if that has the time
the store remembers. -/
structure InStep (f : FileHistory) (s : AuthRuntimeStore) : Prop where
  active : s.activeTokens = s.inlineTokens ++ s.fileTokens
  inlineNames : (s.inlineTokens.map (·.name)).Nodup
  unknown : s.hadFile = false → s.fileTokens = []
  time : s.hadFile = true → s.lastWriteTime ∈ f.times
  known : s.hadFile = true → ∀ v, f.current = some v → v.writeTime = s.lastWriteTime →
    ∀ rules, UsableRules s v rules → s.fileTokens = rules

/-- Changes of the file leave a store in step. -/
theorem InStep.later {f f' : FileHistory} {s : AuthRuntimeStore} (h : InStep f s)
    (hchanges : FileChanges f f') : InStep f' s where
  active := h.active
  inlineNames := h.inlineNames
  unknown := h.unknown
  time hhad := (hchanges.old (h.time hhad)).1
  known hhad v hv htime :=
    h.known hhad v ((hchanges.old (h.time hhad)).2 v hv htime) htime

/-- The store's check time is no part of it. -/
theorem InStep.checked {f : FileHistory} {s : AuthRuntimeStore} (h : InStep f s) (now : Int) :
    InStep f { s with lastCheck := now } :=
  { active := h.active, inlineNames := h.inlineNames, unknown := h.unknown
    time := h.time, known := h.known }

/-- Forgetting the file keeps the store in step with any. -/
theorem InStep.forget {f : FileHistory} {s : AuthRuntimeStore} (h : InStep f s) (epoch : Int)
    (result : AuthReloadResult) : InStep f (s.forget epoch result).2 := by
  have hok : combineAndValidate s.inlineTokens [] = .ok s.inlineTokens :=
    combineAndValidate_ok.mpr (by rw [List.append_nil]; exact ⟨rfl, h.inlineNames⟩)
  rw [AuthRuntimeStore.forget, hok]
  exact
    { active := by simp
      inlineNames := h.inlineNames
      unknown := fun _ => rfl
      time := fun hhad => by cases hhad
      known := fun hhad => by cases hhad }

/-- Loading a content keeps the store in step, when the time that goes with it
was read no later than the content: should the file's present version have
that time, then it is the content's. -/
theorem InStep.load {f : FileHistory} {s : AuthRuntimeStore} (h : InStep f s)
    (epoch : Int) {writeTime : Int} {content : Option Bytes} (result : AuthReloadResult)
    (htime : writeTime ∈ f.times)
    (hcontent : ∀ v, f.current = some v → v.writeTime = writeTime → content = some v.content) :
    InStep f (s.load epoch writeTime content result).2 := by
  -- a version that is refused has no usable rules
  have hrefused : (∀ rules, Auth.loadSecretsFile s.secretsFile content = .ok rules →
      ¬ ((s.inlineTokens ++ rules).map (·.name)).Nodup) →
      InStep f { s with lastWriteTime := writeTime, hadFile := true } := by
    intro hno
    refine
      { active := h.active, inlineNames := h.inlineNames, unknown := fun hhad => by cases hhad
        time := fun _ => htime, known := ?_ }
    intro _ v hv hvtime rules husable
    rw [hcontent v hv hvtime] at hno
    exact absurd husable.2 (hno rules husable.1)
  rw [AuthRuntimeStore.load]
  cases hload : Auth.loadSecretsFile s.secretsFile content with
  | error e =>
      refine hrefused ?_
      intro rules hrules
      rw [hload] at hrules
      cases hrules
  | ok rules =>
      simp only []
      cases hcombine : combineAndValidate s.inlineTokens rules with
      | error e =>
          refine hrefused ?_
          intro rules' hrules hnames
          rw [hload] at hrules
          cases hrules
          rw [combineAndValidate_ok.mpr ⟨rfl, hnames⟩] at hcombine
          cases hcombine
      | ok combined =>
          obtain ⟨hactive, -⟩ := combineAndValidate_ok.mp hcombine
          refine
            { active := hactive, inlineNames := h.inlineNames
              unknown := fun hhad => by cases hhad
              time := fun _ => htime, known := ?_ }
          intro _ v hv hvtime rules' husable
          have husable' := husable.1
          rw [← hcontent v hv hvtime] at husable'
          have hsame := hload.symm.trans husable'
          cases hsame
          rfl

/-! ## Programs among changes -/

/-- While a refresh is under way the file may change in any way. -/
def anyChange (_ : Option SecretsAccess) : FileHistory → FileHistory → Prop := FileChanges

/-- While the constructor waits to read the modification time, the file may be
deleted but not replaced; before and after, anything goes. -/
def noReplacement : Option SecretsAccess → FileHistory → FileHistory → Prop
  | some .writeTime => fun f f' => FileChanges f f' ∧ (f'.current = none ∨ f'.current = f.current)
  | _ => FileChanges

/-- The constructor's answer, if it is a store, is one in step. -/
def ConstructedInStep (f : FileHistory) (answer : Except Bytes AuthRuntimeStore) : Prop :=
  ∀ s, answer = .ok s → InStep f s

/-- The store behind a refresh is in step. -/
def RefreshedInStep (f : FileHistory) (answer : AuthReloadResult × AuthRuntimeStore) : Prop :=
  InStep f answer.2

/-- A refresh of a store in step ends in step, whatever happens to the file
between its accesses. -/
theorem refresh_ensures {f : FileHistory} {s : AuthRuntimeStore} (h : InStep f s)
    (force : Bool) (now epoch : Int) :
    (s.refresh force now epoch).Ensures anyChange FileHistory.view RefreshedInStep f := by
  have hdone : ∀ {f : FileHistory} {s : AuthRuntimeStore} (result : AuthReloadResult),
      InStep f s → Prog.Ensures anyChange FileHistory.view RefreshedInStep
        (.done (result, s)) f := by
    intro f s result h f' hchanges
    exact h.later hchanges
  rw [AuthRuntimeStore.refresh]
  split
  · exact hdone _ h
  · split
    · exact hdone _ h
    · split
      · exact hdone _ h
      · intro f₁ hf₁
        have h₁ := (h.later hf₁).checked now
        simp only []
        split
        · split
          · exact hdone _ h₁
          · exact hdone _ (h₁.forget epoch _)
        · intro f₂ hf₂
          have h₂ := h₁.later hf₂
          simp only [FileHistory.view]
          cases hv : f₂.current with
          | none => exact hdone _ h₂
          | some v =>
              simp only []
              split
              · exact hdone _ h₂
              · intro f₃ hf₃
                have htime := (FileChanges.old hf₃ (f₂.listed v hv)).1
                refine hdone _ ((h₂.later hf₃).load epoch _ htime ?_)
                intro v' hv' _
                show f₃.current.map (·.content) = some v'.content
                rw [hv']
                rfl

/-- The constructor ends in step, when the file is not replaced between its
reading the content and the time. -/
theorem construct_ensures (f : FileHistory) (inlineTokens : List AuthTokenRule)
    (secretsFile : Bytes) (hotReload : Bool) (reloadIntervalSeconds : Nat) (now epoch : Int) :
    (AuthRuntimeStore.construct inlineTokens secretsFile hotReload reloadIntervalSeconds now
      epoch).Ensures noReplacement FileHistory.view ConstructedInStep f := by
  have hstart : ∀ {f : FileHistory} {fileTokens : List AuthTokenRule} {lastWriteTime : Int}
      {hadFile : Bool},
      (hadFile = false → fileTokens = []) → (hadFile = true → lastWriteTime ∈ f.times) →
      (hadFile = true → ∀ v, f.current = some v → v.writeTime = lastWriteTime →
        Auth.loadSecretsFile secretsFile (some v.content) = .ok fileTokens) →
      Prog.Ensures noReplacement FileHistory.view ConstructedInStep
        (.done (AuthRuntimeStore.start inlineTokens secretsFile hotReload reloadIntervalSeconds
          now epoch fileTokens lastWriteTime hadFile)) f := by
    intro f fileTokens lastWriteTime hadFile hunknown htime hknown f' hchanges s hs
    refine InStep.later ?_ hchanges
    rw [AuthRuntimeStore.start] at hs
    cases hcombine : combineAndValidate inlineTokens fileTokens with
    | error e => rw [hcombine] at hs; cases hs
    | ok activeTokens =>
        rw [hcombine] at hs
        cases hs
        obtain ⟨hactive, hnames⟩ := combineAndValidate_ok.mp hcombine
        rw [List.map_append, List.nodup_append] at hnames
        refine
          { active := hactive, inlineNames := hnames.1, unknown := hunknown, time := htime
            known := ?_ }
        intro hhad v hv hvtime rules husable
        have hsame := (hknown hhad v hv hvtime).symm.trans husable.1
        cases hsame
        rfl
  have hfail : ∀ {f : FileHistory} (e : Bytes),
      Prog.Ensures noReplacement FileHistory.view ConstructedInStep (.done (.error e)) f := by
    intro f e f' _ s hs
    cases hs
  rw [AuthRuntimeStore.construct]
  split
  · exact hstart (fun _ => rfl) (fun h => by cases h) (fun h => by cases h)
  · intro f₁ hf₁
    simp only []
    split
    · exact hfail _
    · intro f₂ hf₂
      cases hload : Auth.loadSecretsFile secretsFile (f₂.current.map (·.content)) with
      | error e =>
          simp only [FileHistory.view, hload]
          exact hfail _
      | ok fileTokens =>
          simp only [FileHistory.view, hload]
          intro f₃ hf₃
          obtain ⟨hchanges, hcurrent⟩ : FileChanges f₂ f₃ ∧
            (f₃.current = none ∨ f₃.current = f₂.current) := hf₃
          simp only [FileHistory.view]
          cases hv : f₃.current with
          | none => exact hfail _
          | some v =>
              have hsame : f₂.current = some v := by
                rcases hcurrent with h | h
                · rw [hv] at h
                  cases h
                · rw [← h, hv]
              refine hstart (fun h => by cases h) (fun _ => f₃.listed v hv) ?_
              intro _ v' hv' _
              rw [hv] at hv'
              cases hv'
              rw [hsame] at hload
              exact hload

/-! ## The system -/

/-- The one that calls the store. -/
inductive StoreClient where
  | constructing (p : SecretsProg (Except Bytes AuthRuntimeStore))
  | failed
  | idle (s : AuthRuntimeStore)
  | refreshing (p : SecretsProg (AuthReloadResult × AuthRuntimeStore))

structure StoreWorld where
  file : FileHistory
  client : StoreClient

/-- One access of the client, or its going on behind the last. -/
inductive ClientAccess : StoreWorld → StoreWorld → Prop where
  | construct (f : FileHistory) (q : SecretsAccess)
      (k : SecretsAnswer q → SecretsProg (Except Bytes AuthRuntimeStore)) :
      ClientAccess ⟨f, .constructing (.ask q k)⟩ ⟨f, .constructing (k (f.view q))⟩
  | constructed (f : FileHistory) (s : AuthRuntimeStore) :
      ClientAccess ⟨f, .constructing (.done (.ok s))⟩ ⟨f, .idle s⟩
  | threw (f : FileHistory) (e : Bytes) :
      ClientAccess ⟨f, .constructing (.done (.error e))⟩ ⟨f, .failed⟩
  | refresh (f : FileHistory) (q : SecretsAccess)
      (k : SecretsAnswer q → SecretsProg (AuthReloadResult × AuthRuntimeStore)) :
      ClientAccess ⟨f, .refreshing (.ask q k)⟩ ⟨f, .refreshing (k (f.view q))⟩
  | refreshed (f : FileHistory) (result : AuthReloadResult) (s : AuthRuntimeStore) :
      ClientAccess ⟨f, .refreshing (.done (result, s))⟩ ⟨f, .idle s⟩

/-- A step of the whole: an access, a new call of `refresh`, or a change of the
file by others. -/
inductive StoreStep : StoreWorld → StoreWorld → Prop where
  | access {w w' : StoreWorld} (h : ClientAccess w w') : StoreStep w w'
  | call (f : FileHistory) (s : AuthRuntimeStore) (force : Bool) (now epoch : Int) :
      StoreStep ⟨f, .idle s⟩ ⟨f, .refreshing (s.refresh force now epoch)⟩
  | change {f f' : FileHistory} (client : StoreClient) (h : FileChange f f') :
      StoreStep ⟨f, client⟩ ⟨f', client⟩

/-- The constructor has read the content and waits to read the time. -/
def AwaitsTime (w : StoreWorld) : Prop :=
  ∃ k, w.client = .constructing (.ask .writeTime k)

/-- A step that does not replace the file between the constructor's reading its
content and its time. -/
def CarefulStep (w w' : StoreWorld) : Prop :=
  StoreStep w w' ∧
    (AwaitsTime w → w'.file.current = none ∨ w'.file.current = w.file.current)

/-- A store is about to be constructed. -/
def StoreWorld.begin (f : FileHistory) (inlineTokens : List AuthTokenRule) (secretsFile : Bytes)
    (hotReload : Bool) (reloadIntervalSeconds : Nat) (now epoch : Int) : StoreWorld :=
  { file := f
    client := .constructing (AuthRuntimeStore.construct inlineTokens secretsFile hotReload
      reloadIntervalSeconds now epoch) }

/-- The client is in step with the file, or will be when it is done. -/
def StoreWorld.InStep (w : StoreWorld) : Prop :=
  match w.client with
  | .constructing p =>
      p.Ensures noReplacement FileHistory.view ConstructedInStep w.file
  | .failed => True
  | .idle s => Ref.InStep w.file s
  | .refreshing p =>
      p.Ensures anyChange FileHistory.view RefreshedInStep w.file

theorem anyChange_refl (q : Option SecretsAccess) (f : FileHistory) : anyChange q f f := .refl

theorem noReplacement_refl (q : Option SecretsAccess) (f : FileHistory) :
    noReplacement q f f := by
  rcases q with _ | q
  · exact .refl
  · cases q with
    | found => exact .refl
    | writeTime => exact ⟨.refl, Or.inr rfl⟩
    | content => exact .refl

theorem noReplacement_trans (q : Option SecretsAccess) (f f' f'' : FileHistory)
    (h : noReplacement q f f') (h' : noReplacement q f' f'') : noReplacement q f f'' := by
  rcases q with _ | q
  · exact Relation.ReflTransGen.trans h h'
  · cases q with
    | found => exact Relation.ReflTransGen.trans h h'
    | writeTime =>
        refine ⟨h.1.trans h'.1, ?_⟩
        rcases h'.2 with hnone | hsame
        · exact Or.inl hnone
        · rw [hsame]
          exact h.2
    | content => exact Relation.ReflTransGen.trans h h'

/-- A careful step keeps the client in step. -/
theorem CarefulStep.inStep {w w' : StoreWorld} (h : CarefulStep w w') (hw : w.InStep) :
    w'.InStep := by
  obtain ⟨hstep, hcareful⟩ := h
  cases hstep with
  | access haccess =>
      cases haccess with
      | construct f q k => exact Prog.Ensures.next noReplacement_refl hw
      | constructed f s =>
          have hdone : Prog.Ensures noReplacement FileHistory.view ConstructedInStep
            (.done (.ok s)) f := hw
          exact hdone.answer noReplacement_refl s rfl
      | threw f e => trivial
      | refresh f q k => exact Prog.Ensures.next anyChange_refl hw
      | refreshed f result s =>
          have hdone : Prog.Ensures anyChange FileHistory.view RefreshedInStep
            (.done (result, s)) f := hw
          exact hdone.answer anyChange_refl
  | call f s force now epoch => exact refresh_ensures hw force now epoch
  | change client hchange =>
      rename_i f f'
      cases client with
      | constructing p =>
          refine Prog.Ensures.later noReplacement_trans hw ?_
          cases p with
          | done answer => exact .single hchange
          | ask q k =>
              cases q with
              | found => exact .single hchange
              | writeTime => exact ⟨.single hchange, hcareful ⟨k, rfl⟩⟩
              | content => exact .single hchange
      | failed => trivial
      | idle s => exact Ref.InStep.later hw (.single hchange)
      | refreshing p =>
          exact Prog.Ensures.later (fun _ _ _ _ => Relation.ReflTransGen.trans) hw
            (.single hchange)

/-- A careful run from a constructor keeps the client in step. -/
theorem inStep_of_reach {f : FileHistory} {inlineTokens : List AuthTokenRule} {secretsFile : Bytes}
    {hotReload : Bool} {reloadIntervalSeconds : Nat} {now epoch : Int} {w : StoreWorld}
    (h : Relation.ReflTransGen CarefulStep
      (StoreWorld.begin f inlineTokens secretsFile hotReload reloadIntervalSeconds now epoch) w) :
    w.InStep := by
  induction h with
  | refl =>
      exact construct_ensures f inlineTokens secretsFile hotReload reloadIntervalSeconds now epoch
  | tail _ hstep ih => exact hstep.inStep ih

/-! ## A refresh on a file that no longer changes -/

/-- Accesses of a refresh without a change in between compute its run. -/
theorem refresh_of_accesses {f : FileHistory}
    {p : SecretsProg (AuthReloadResult × AuthRuntimeStore)} {w : StoreWorld}
    (h : Relation.ReflTransGen ClientAccess ⟨f, .refreshing p⟩ w) :
    (∃ p', w = ⟨f, .refreshing p'⟩ ∧ p'.run f.view = p.run f.view) ∨
      w = ⟨f, .idle (p.run f.view).2⟩ := by
  induction h with
  | refl => exact Or.inl ⟨p, rfl, rfl⟩
  | tail _ hstep ih =>
      rcases ih with ⟨p', rfl, hrun⟩ | rfl
      · cases hstep with
        | refresh f q k => exact Or.inl ⟨k (f.view q), rfl, hrun⟩
        | refreshed f result s =>
            right
            rw [← hrun]
            rfl
      · cases hstep

/-- The rules in force that the file calls for: the inline ones, and the
present version's when it can be used. -/
def FollowsFile (f : FileHistory) (s s' : AuthRuntimeStore) : Prop :=
  (f.current = none → s'.activeTokens = s.inlineTokens) ∧
    ∀ v, f.current = some v → ∀ rules, UsableRules s v rules →
      s'.activeTokens = s.inlineTokens ++ rules

/-- A refresh of a store in step follows the file. -/
theorem InStep.followsFile {f : FileHistory} {s : AuthRuntimeStore} (h : InStep f s)
    (hhot : s.hotReload = true) (hinterval : s.reloadIntervalSeconds = 0)
    (hpath : s.secretsFile ≠ []) (now epoch : Int) :
    FollowsFile f s ((s.refresh false now epoch).run f.view).2 := by
  have hlooks : s.Looks false now :=
    ⟨Or.inl hhot, hpath, Or.inr (by rw [AuthRuntimeStore.checkIntervalElapsed, hinterval]; rfl)⟩
  have hcases := refresh_cases s false now epoch f.view
  generalize ((s.refresh false now epoch).run f.view).1.code = code at hcases
  generalize ((s.refresh false now epoch).run f.view).2 = s' at hcases ⊢
  have hnone : SecretsView.found f.view = false → f.current = none := by
    intro hfound
    cases hv : f.current with
    | none => rfl
    | some v =>
        rw [SecretsView.found, FileHistory.view, hv] at hfound
        cases hfound
  have hsome : ∀ {t : Int}, SecretsView.writeTime f.view = .ok t →
      ∃ v, f.current = some v ∧ v.writeTime = t := by
    intro t htime
    rw [SecretsView.writeTime, FileHistory.view] at htime
    cases hv : f.current with
    | none => rw [hv] at htime; cases htime
    | some v =>
        rw [hv] at htime
        cases htime
        exact ⟨v, rfl, rfl⟩
  have hrules : ∀ {v : SecretsVersion}, f.current = some v →
      SecretsView.rules f.view s.secretsFile =
        Auth.loadSecretsFile s.secretsFile (some v.content) := by
    intro v hv
    rw [SecretsView.rules, SecretsView.content, FileHistory.view, hv]
    rfl
  cases hcases with
  | skipped hskip => exact absurd hlooks hskip
  | stillAbsent _ hfound hhad =>
      have hcurrent := hnone hfound
      refine ⟨fun _ => ?_, fun v hv => absurd (hcurrent.symm.trans hv) (by simp)⟩
      show s.activeTokens = s.inlineTokens
      rw [h.active, h.unknown hhad, List.append_nil]
  | removed _ hfound =>
      have hcurrent := hnone hfound
      exact ⟨fun _ => rfl, fun v hv => absurd (hcurrent.symm.trans hv) (by simp)⟩
  | notRemoved _ _ _ hnames => exact absurd h.inlineNames hnames
  | noTime _ hfound e htime =>
      refine ⟨fun hcurrent => ?_, fun v hv => ?_⟩
      · rw [SecretsView.found, FileHistory.view, hcurrent] at hfound
        cases hfound
      · rw [SecretsView.writeTime, FileHistory.view, hv] at htime
        cases htime
  | known _ _ writeTime htime hknown =>
      obtain ⟨v, hv, hvtime⟩ := hsome htime
      refine ⟨fun hcurrent => absurd (hcurrent.symm.trans hv) (by simp), ?_⟩
      intro v' hv' rules husable
      rw [hv] at hv'
      cases hv'
      show s.activeTokens = s.inlineTokens ++ rules
      rw [h.active, h.known hknown.2.1 v hv (hvtime.trans hknown.2.2) rules husable]
  | notLoaded _ _ writeTime htime _ hno =>
      obtain ⟨v, hv, -⟩ := hsome htime
      refine ⟨fun hcurrent => absurd (hcurrent.symm.trans hv) (by simp), ?_⟩
      intro v' hv' rules husable
      exact absurd husable.2 (hno rules ((hrules hv').trans husable.1))
  | loaded _ _ writeTime htime _ rules hloaded =>
      obtain ⟨v, hv, -⟩ := hsome htime
      refine ⟨fun hcurrent => absurd (hcurrent.symm.trans hv) (by simp), ?_⟩
      intro v' hv' rules' husable
      have hsame := hloaded.symm.trans ((hrules hv').trans husable.1)
      cases hsame
      rfl

/-- In every run in which the file is not replaced between the constructor's
reading its content and its time: a refresh that begins when the file no longer
changes leaves in force what the file says. -/
theorem changes_never_missed {f : FileHistory} {inlineTokens : List AuthTokenRule}
    {secretsFile : Bytes} {hotReload : Bool} {reloadIntervalSeconds : Nat} {now epoch : Int}
    {w w' : StoreWorld} {s s' : AuthRuntimeStore}
    (hreach : Relation.ReflTransGen CarefulStep
      (StoreWorld.begin f inlineTokens secretsFile hotReload reloadIntervalSeconds now epoch) w)
    (hidle : w.client = .idle s) (hhot : s.hotReload = true)
    (hinterval : s.reloadIntervalSeconds = 0) (hpath : s.secretsFile ≠ []) (now' epoch' : Int)
    (hrefresh : Relation.ReflTransGen ClientAccess
      ⟨w.file, .refreshing (s.refresh false now' epoch')⟩ w')
    (hdone : w'.client = .idle s') : FollowsFile w.file s s' := by
  have hinStep := inStep_of_reach hreach
  rw [StoreWorld.InStep, hidle] at hinStep
  have hfollows := InStep.followsFile hinStep hhot hinterval hpath now' epoch'
  rcases refresh_of_accesses hrefresh with ⟨p', rfl, -⟩ | rfl
  · cases hdone
  · cases hdone
    exact hfollows

/-! ## Two runs -/

/-- The constructor, waiting to read the time of a file it has loaded. -/
def readTime (inlineTokens : List AuthTokenRule) (secretsFile : Bytes) (hotReload : Bool)
    (reloadIntervalSeconds : Nat) (now epoch : Int) (fileTokens : List AuthTokenRule) :
    SecretsProg (Except Bytes AuthRuntimeStore) :=
  .ask .writeTime fun (writeTime : Except Bytes Int) =>
    match writeTime with
    | .error e => .done (.error e)
    | .ok lastWriteTime =>
        .done (AuthRuntimeStore.start inlineTokens secretsFile hotReload reloadIntervalSeconds
          now epoch fileTokens lastWriteTime true)

section Construct

variable (f : FileHistory) {v : SecretsVersion} (inlineTokens : List AuthTokenRule)
  {fileTokens : List AuthTokenRule} {secretsFile : Bytes} (hotReload : Bool)
  (reloadIntervalSeconds : Nat) (now epoch : Int)

/-- A constructor's access, by what it goes on with. -/
theorem construct_access {q : SecretsAccess}
    {k : SecretsAnswer q → SecretsProg (Except Bytes AuthRuntimeStore)}
    {p : SecretsProg (Except Bytes AuthRuntimeStore)} (h : k (f.view q) = p) :
    ClientAccess ⟨f, .constructing (.ask q k)⟩ ⟨f, .constructing p⟩ :=
  h ▸ .construct f q k

/-- A constructor that finds a file it can load gets to reading its time. -/
theorem construct_readsTime (hpath : secretsFile ≠ []) (hv : f.current = some v)
    (hload : Auth.loadSecretsFile secretsFile (some v.content) = .ok fileTokens) :
    Relation.ReflTransGen ClientAccess
      (StoreWorld.begin f inlineTokens secretsFile hotReload reloadIntervalSeconds now epoch)
      ⟨f, .constructing (readTime inlineTokens secretsFile hotReload reloadIntervalSeconds now
        epoch fileTokens)⟩ := by
  rw [StoreWorld.begin, AuthRuntimeStore.construct, if_neg hpath]
  refine .head (.construct f _ _) (.head ?_ .refl)
  have hcontent : f.view .content = some v.content := by
    simp only [FileHistory.view, hv, Option.map_some]
  have hfound : ¬ f.view .found = false := by simp [FileHistory.view, hv]
  rw [if_neg hfound]
  refine construct_access f ?_
  simp only [hcontent, hload]
  rfl

/-- It is done when it finds the file again. -/
theorem construct_done {s : AuthRuntimeStore} (hv : f.current = some v)
    (hs : AuthRuntimeStore.start inlineTokens secretsFile hotReload reloadIntervalSeconds now
      epoch fileTokens v.writeTime true = .ok s) :
    Relation.ReflTransGen ClientAccess
      ⟨f, .constructing (readTime inlineTokens secretsFile hotReload reloadIntervalSeconds now
        epoch fileTokens)⟩ ⟨f, .idle s⟩ := by
  refine .head (.construct f _ _) ?_
  have htime : f.view .writeTime = .ok v.writeTime := by simp only [FileHistory.view, hv]
  simp only [htime, hs]
  exact .single (.constructed f s)

end Construct

theorem ClientAccess.refresh_run (f : FileHistory)
    (p : SecretsProg (AuthReloadResult × AuthRuntimeStore)) :
    Relation.ReflTransGen ClientAccess ⟨f, .refreshing p⟩ ⟨f, .idle (p.run f.view).2⟩ := by
  induction p with
  | done answer => exact .single (.refreshed f answer.1 answer.2)
  | ask q k ih => exact .head (.refresh f q k) (ih (f.view q))

/-- Accesses are careful steps. -/
theorem careful_of_accesses {w w' : StoreWorld} (h : Relation.ReflTransGen ClientAccess w w') :
    Relation.ReflTransGen CarefulStep w w' := by
  induction h with
  | refl => exact .refl
  | tail _ hstep ih =>
      refine .tail ih ⟨.access hstep, fun _ => Or.inr ?_⟩
      cases hstep <;> rfl

/-- A version without rules and one with a rule, and the file with each. -/
def emptyVersion (writeTime : Int) : SecretsVersion := { writeTime := writeTime, content := [] }

def ruleVersion (writeTime : Int) : SecretsVersion :=
  { writeTime := writeTime
    content := bytes "token.a = sha256:" ++ someDigest ++ bytes " | admin | never\n" }

/-- The file with a single version so far. -/
def newFile (v : SecretsVersion) : FileHistory :=
  { current := some v, times := [v.writeTime], listed := fun v' h => by cases h; simp }

/-- The file replaced. -/
def replacedFile (v v' : SecretsVersion) : FileHistory :=
  { current := some v', times := [v'.writeTime, v.writeTime]
    listed := fun v'' h => by cases h; simp }

theorem ruleVersion_loads (writeTime : Int) :
    Auth.loadSecretsFile (bytes "auth.tokens") (some (ruleVersion writeTime).content) =
      .ok oneRuleStore.fileTokens := by
  show Auth.loadSecretsFile (bytes "auth.tokens") (some (ruleVersion 0).content) =
    .ok oneRuleStore.fileTokens
  decide +kernel

/-- The store a constructor makes of a file without rules. -/
def emptyStore : AuthRuntimeStore :=
  { inlineTokens := [], secretsFile := bytes "auth.tokens", lastWriteTime := 1, hadFile := true
    generation := 1 }

/-- A rule that arrives once the store is there is in force behind the next
refresh. -/
theorem changes_never_missed_added :
    FollowsFile (replacedFile (emptyVersion 1) (ruleVersion 2)) emptyStore
      ((emptyStore.refresh false 1 1).run
        (replacedFile (emptyVersion 1) (ruleVersion 2)).view).2 := by
  have hstart : Relation.ReflTransGen CarefulStep
      (StoreWorld.begin (newFile (emptyVersion 1)) [] (bytes "auth.tokens") true 0 0 0)
      ⟨newFile (emptyVersion 1), .idle emptyStore⟩ :=
    careful_of_accesses ((construct_readsTime _ _ _ _ _ _ (by decide) rfl
      (show Auth.loadSecretsFile _ (some []) = .ok [] from rfl)).trans
        (construct_done _ _ _ _ _ _ rfl rfl))
  have hchange : CarefulStep ⟨newFile (emptyVersion 1), .idle emptyStore⟩
      ⟨replacedFile (emptyVersion 1) (ruleVersion 2), .idle emptyStore⟩ := by
    refine ⟨.change _ (.replace _ (ruleVersion 2) (by decide)), ?_⟩
    rintro ⟨k, hk⟩
    cases hk
  exact changes_never_missed (hstart.tail hchange) rfl rfl rfl (by decide) 1 1
    (ClientAccess.refresh_run _ _) rfl

/-- A file replaced while the constructor has read its content but not its time:
the rule it no longer holds stays in force. -/
theorem construct_misses_change :
    ¬ ∀ (f : FileHistory) (w w' : StoreWorld) (s s' : AuthRuntimeStore),
      Relation.ReflTransGen StoreStep (StoreWorld.begin f [] (bytes "auth.tokens") true 0 0 0) w →
      w.client = .idle s →
      Relation.ReflTransGen ClientAccess ⟨w.file, .refreshing (s.refresh false 1 1)⟩ w' →
      w'.client = .idle s' → FollowsFile w.file s s' := by
  intro h
  have haccess : ∀ {w w' : StoreWorld}, Relation.ReflTransGen ClientAccess w w' →
      Relation.ReflTransGen StoreStep w w' := by
    intro w w' hsteps
    induction hsteps with
    | refl => exact .refl
    | tail _ hstep ih => exact ih.tail (.access hstep)
  have hread := haccess (construct_readsTime (newFile (ruleVersion 1)) [] true 0 0 0 (by decide)
    rfl (ruleVersion_loads 1))
  have hchange := hread.tail (.change _ (.replace _ (emptyVersion 2) (by decide)))
  have hdone := haccess (construct_done (replacedFile (ruleVersion 1) (emptyVersion 2)) []
    true 0 0 0 rfl (show AuthRuntimeStore.start _ (bytes "auth.tokens") _ _ _ _
      oneRuleStore.fileTokens 2 true = .ok { oneRuleStore with lastWriteTime := 2 } from rfl))
  have hfollows := h _ _ _ _ _ (hchange.trans hdone) rfl
    (ClientAccess.refresh_run _ _) rfl
  have hrules := hfollows.2 (emptyVersion 2) rfl [] ⟨rfl, by decide⟩
  exact absurd hrules (by decide)

end HydrogenHttpd.Ref
