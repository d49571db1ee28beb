import HydrogenHttpd.Ref.AuthRuntimeStore

/-!
# Runs of the token store

`refresh_cases` says once everything a refresh can do. From it, the invariant
of whole runs: the active tokens are the inline ones and the file's, under
distinct names; the file's are those of the version accepted last since the
file was last seen absent; and the generation counts the reloads. The run
carries the two things the invariant compares with, the number of reloads and
the rules that ought to be in force, in its own state (`StoreRun`), computed
from what each call saw and answered and not from the store's lists.

The generation is a 64-bit counter, so its equation is one between 64-bit
values.
-/

namespace HydrogenHttpd.Ref

open Base

/-! ## Combining -/

theorem appendTokens_ok {tokens acc combined : List AuthTokenRule}
    (hacc : (acc.map (·.name)).Nodup) :
    appendTokens tokens acc = .ok combined ↔
      combined = acc ++ tokens ∧ ((acc ++ tokens).map (·.name)).Nodup := by
  induction tokens generalizing acc with
  | nil =>
      simp only [appendTokens, Except.ok.injEq, List.append_nil]
      constructor
      · intro h
        exact ⟨h.symm, hacc⟩
      · intro h
        exact h.1.symm
  | cons token rest ih =>
      rw [appendTokens]
      by_cases hmem : token.name ∈ acc.map (·.name)
      · rw [if_pos hmem]
        constructor
        · intro h
          cases h
        · intro h
          have hnodup := h.2
          rw [List.map_append, List.nodup_append] at hnodup
          exact absurd rfl (hnodup.2.2 token.name hmem token.name (by simp))
      · rw [if_neg hmem]
        have hacc' : ((acc ++ [token]).map (·.name)).Nodup := by
          rw [List.map_append, List.nodup_append]
          refine ⟨hacc, by simp, ?_⟩
          intro a ha b hb hab
          have hb' : b = token.name := by simpa using hb
          exact hmem (by rwa [← hb', ← hab])
        rw [ih hacc', List.append_assoc, List.singleton_append]

/-- The combined list, when the names are distinct, is one after the other. -/
theorem combineAndValidate_ok {inlineTokens fileTokens combined : List AuthTokenRule} :
    combineAndValidate inlineTokens fileTokens = .ok combined ↔
      combined = inlineTokens ++ fileTokens ∧
        ((inlineTokens ++ fileTokens).map (·.name)).Nodup := by
  rw [combineAndValidate]
  cases hinline : appendTokens inlineTokens [] with
  | error e =>
      constructor
      · intro h
        cases h
      · intro h
        have hnodup := h.2
        rw [List.map_append, List.nodup_append] at hnodup
        have hok : appendTokens inlineTokens [] = .ok inlineTokens :=
          (appendTokens_ok (by simp)).mpr ⟨rfl, hnodup.1⟩
        rw [hinline] at hok
        cases hok
  | ok combined' =>
      obtain ⟨heq, hnodup⟩ := (appendTokens_ok (by simp)).mp hinline
      rw [List.nil_append] at heq hnodup
      subst heq
      exact appendTokens_ok hnodup

/-! ## What a refresh can do -/

/-- The refresh gets to look at the file. -/
def AuthRuntimeStore.Looks (s : AuthRuntimeStore) (force : Bool) (now : Int) : Prop :=
  (s.hotReload = true ∨ force = true) ∧ s.secretsFile ≠ [] ∧
    (force = true ∨ s.checkIntervalElapsed now = true)

instance (s : AuthRuntimeStore) (force : Bool) (now : Int) : Decidable (s.Looks force now) :=
  inferInstanceAs (Decidable (_ ∧ _ ∧ _))

/-- The version is one the store knows: it is not loaded again. -/
def AuthRuntimeStore.Knows (s : AuthRuntimeStore) (force : Bool) (writeTime : Int) : Prop :=
  force = false ∧ s.hadFile = true ∧ writeTime = s.lastWriteTime

instance (s : AuthRuntimeStore) (force : Bool) (writeTime : Int) :
    Decidable (s.Knows force writeTime) := inferInstanceAs (Decidable (_ ∧ _ ∧ _))

/-- The answers one call gets. -/
abbrev SecretsView := (q : SecretsAccess) → SecretsAnswer q

def SecretsView.found (view : SecretsView) : Bool := view SecretsAccess.found
def SecretsView.writeTime (view : SecretsView) : Except Bytes Int := view SecretsAccess.writeTime
def SecretsView.content (view : SecretsView) : Option Bytes := view SecretsAccess.content

/-- The rules of the content, when it parses. -/
def SecretsView.rules (view : SecretsView) (path : Bytes) : Except Bytes (List AuthTokenRule) :=
  Auth.loadSecretsFile path view.content

/-- A refresh whose accesses all see one state of the file. -/
theorem refresh_run (s : AuthRuntimeStore) (force : Bool) (now epoch : Int)
    (view : SecretsView) :
    (s.refresh force now epoch).run view =
      let result : AuthReloadResult :=
        { tokenCount := s.activeTokens.length, generation := s.generation }
      if ¬ s.Looks force now then (result, s)
      else
        let s := { s with lastCheck := now }
        if view.found = false then
          if s.hadFile = false then (result, s) else s.forget epoch result
        else
          match view.writeTime with
          | .error e => ({ result with code := .Failed, message := e }, s)
          | .ok writeTime =>
              if s.Knows force writeTime then (result, s)
              else s.load epoch writeTime view.content result := by
  rw [AuthRuntimeStore.refresh]
  by_cases hlooks : s.Looks force now
  · obtain ⟨hswitch, hpath, hinterval⟩ := id hlooks
    rw [if_neg fun h => by rcases hswitch with h' | h' <;> simp [h'] at h, if_neg hpath,
      if_neg fun h => by rcases hinterval with h' | h' <;> simp [h'] at h]
    simp only [Prog.run_ask, hlooks, not_true_eq_false, if_false]
    by_cases hfound : view.found = false
    · rw [if_pos hfound, if_pos (show view SecretsAccess.found = false from hfound)]
      split <;> rfl
    · rw [if_neg hfound, if_neg (show ¬ view SecretsAccess.found = false from hfound)]
      simp only [Prog.run_ask]
      rw [SecretsView.writeTime]
      cases view SecretsAccess.writeTime with
      | error e => rfl
      | ok writeTime =>
          by_cases hknown : s.Knows force writeTime
          · exact (congrArg (Prog.run view) (if_pos hknown)).trans (if_pos hknown).symm
          · exact (congrArg (Prog.run view) (if_neg hknown)).trans (if_neg hknown).symm
  · simp only [hlooks, not_false_eq_true, if_true]
    split
    · rfl
    · next h1 =>
        split
        · rfl
        · next h2 =>
            split
            · rfl
            · next h3 =>
                refine absurd ⟨?_, h2, ?_⟩ hlooks
                · cases hr : s.hotReload <;> cases hf : force <;> simp_all
                · cases hf : force <;> cases hi : s.checkIntervalElapsed now <;> simp_all

/-- Everything a refresh can do, and when. -/
inductive RefreshOutcome (s : AuthRuntimeStore) (force : Bool) (now epoch : Int)
    (view : SecretsView) : AuthReloadCode → AuthRuntimeStore → Prop where
  | skipped (hlooks : ¬ s.Looks force now) :
      RefreshOutcome s force now epoch view .NoChange s
  | stillAbsent (hlooks : s.Looks force now) (hfound : view.found = false)
      (hhad : s.hadFile = false) :
      RefreshOutcome s force now epoch view .NoChange { s with lastCheck := now }
  | removed (hlooks : s.Looks force now) (hfound : view.found = false)
      (hhad : s.hadFile = true) (hnames : (s.inlineTokens.map (·.name)).Nodup) :
      RefreshOutcome s force now epoch view .Reloaded
        { s with
          fileTokens := []
          activeTokens := s.inlineTokens
          hadFile := false
          lastWriteTime := 0
          lastCheck := now
          generation := s.generation + 1
          lastSuccessfulReloadEpoch := epoch }
  | notRemoved (hlooks : s.Looks force now) (hfound : view.found = false)
      (hhad : s.hadFile = true) (hnames : ¬ (s.inlineTokens.map (·.name)).Nodup) :
      RefreshOutcome s force now epoch view .Failed
        { s with fileTokens := [], lastCheck := now }
  | noTime (hlooks : s.Looks force now) (hfound : view.found = true) (e : Bytes)
      (htime : view.writeTime = .error e) :
      RefreshOutcome s force now epoch view .Failed { s with lastCheck := now }
  | known (hlooks : s.Looks force now) (hfound : view.found = true) (writeTime : Int)
      (htime : view.writeTime = .ok writeTime) (hknown : s.Knows force writeTime) :
      RefreshOutcome s force now epoch view .NoChange { s with lastCheck := now }
  | notLoaded (hlooks : s.Looks force now) (hfound : view.found = true) (writeTime : Int)
      (htime : view.writeTime = .ok writeTime) (hknown : ¬ s.Knows force writeTime)
      (hrules : ∀ rules, view.rules s.secretsFile = .ok rules →
        ¬ ((s.inlineTokens ++ rules).map (·.name)).Nodup) :
      RefreshOutcome s force now epoch view .Failed
        { s with lastWriteTime := writeTime, hadFile := true, lastCheck := now }
  | loaded (hlooks : s.Looks force now) (hfound : view.found = true) (writeTime : Int)
      (htime : view.writeTime = .ok writeTime) (hknown : ¬ s.Knows force writeTime)
      (rules : List AuthTokenRule) (hrules : view.rules s.secretsFile = .ok rules)
      (hnames : ((s.inlineTokens ++ rules).map (·.name)).Nodup) :
      RefreshOutcome s force now epoch view .Reloaded
        { s with
          fileTokens := rules
          activeTokens := s.inlineTokens ++ rules
          lastWriteTime := writeTime
          hadFile := true
          lastCheck := now
          generation := s.generation + 1
          lastSuccessfulReloadEpoch := epoch }

/-- A refresh does one of these things. -/
theorem refresh_cases (s : AuthRuntimeStore) (force : Bool) (now epoch : Int)
    (view : SecretsView) :
    RefreshOutcome s force now epoch view ((s.refresh force now epoch).run view).1.code
      ((s.refresh force now epoch).run view).2 := by
  rw [refresh_run]
  simp only []
  split
  · next hlooks => exact .skipped hlooks
  · next hlooks =>
      have hlooks := not_not.mp hlooks
      split
      · next hfound =>
          split
          · next hhad => exact .stillAbsent hlooks hfound hhad
          · next hhad =>
              have hhad : s.hadFile = true := by simpa using hhad
              rw [AuthRuntimeStore.forget]
              cases hcombine : combineAndValidate s.inlineTokens [] with
              | error e =>
                  refine .notRemoved hlooks hfound hhad fun hnames => ?_
                  have hok : combineAndValidate s.inlineTokens [] = .ok s.inlineTokens :=
                    combineAndValidate_ok.mpr (by rw [List.append_nil]; exact ⟨rfl, hnames⟩)
                  rw [hcombine] at hok
                  cases hok
              | ok activeTokens =>
                  have hok := combineAndValidate_ok.mp hcombine
                  rw [List.append_nil] at hok
                  rw [hok.1]
                  exact .removed hlooks hfound hhad hok.2
      · next hfound =>
          have hfound : view.found = true := by simpa using hfound
          cases htime : view.writeTime with
          | error e => exact .noTime hlooks hfound e htime
          | ok writeTime =>
              simp only []
              split
              · next hknown => exact .known hlooks hfound writeTime htime hknown
              · next hknown =>
                  rw [AuthRuntimeStore.load]
                  simp only []
                  cases hrules : Auth.loadSecretsFile s.secretsFile view.content with
                  | error e =>
                      refine .notLoaded hlooks hfound writeTime htime hknown fun rules h => ?_
                      rw [SecretsView.rules, hrules] at h
                      cases h
                  | ok rules =>
                      simp only []
                      cases hcombine : combineAndValidate s.inlineTokens rules with
                      | error e =>
                          refine .notLoaded hlooks hfound writeTime htime hknown
                            fun rules' h hnames => ?_
                          rw [SecretsView.rules, hrules] at h
                          cases h
                          rw [combineAndValidate_ok.mpr ⟨rfl, hnames⟩] at hcombine
                          cases hcombine
                      | ok combined =>
                          have hok := combineAndValidate_ok.mp hcombine
                          rw [hok.1]
                          exact .loaded hlooks hfound writeTime htime hknown rules hrules hok.2

/-! ## Runs -/

/-- A call of the store. -/
inductive StoreCall where
  | refresh (force : Bool)
  | authorize (authorizationHeader legacyPlaintextToken requiredScope : Bytes) (nowEpoch : Int)
  deriving DecidableEq, Repr

/-- The clocks and the file, as one call finds them. -/
structure CallWorld where
  now : Int
  epoch : Int
  view : SecretsView

/-- The call forces a reload. -/
def StoreCall.force : StoreCall → Bool
  | .refresh force => force
  | .authorize .. => false

/-- What the call reports of its refresh, and the store behind it. -/
def StoreCall.run (c : StoreCall) (w : CallWorld) (s : AuthRuntimeStore) :
    AuthReloadResult × AuthRuntimeStore :=
  match c with
  | .refresh force => (s.refresh force w.now w.epoch).run w.view
  | .authorize header legacy scope nowEpoch =>
      ((s.authorize w.now w.epoch header legacy scope nowEpoch).run w.view).2

/-- An `authorize` refreshes like an unforced refresh. -/
theorem StoreCall.run_eq (c : StoreCall) (w : CallWorld) (s : AuthRuntimeStore) :
    c.run w s = (s.refresh c.force w.now w.epoch).run w.view := by
  cases c with
  | refresh force => rfl
  | authorize header legacy scope nowEpoch =>
      rw [StoreCall.run, AuthRuntimeStore.authorize, Prog.run_map]
      rfl

/-- A run of the store so far: the store, how many calls reloaded it, and the
rules of the version accepted last since the file was last seen absent. -/
structure StoreRun where
  store : AuthRuntimeStore
  reloads : Nat := 0
  accepted : List AuthTokenRule

/-- The rules in force behind a call that reported `code`. -/
def acceptedAfter (s : AuthRuntimeStore) (force : Bool) (w : CallWorld) (code : AuthReloadCode)
    (accepted : List AuthTokenRule) : List AuthTokenRule :=
  if ¬ s.Looks force w.now then accepted
  else if w.view.found = false then []
  else if code = .Reloaded then (w.view.rules s.secretsFile).toOption.getD accepted
  else accepted

def StoreRun.step (r : StoreRun) (call : StoreCall × CallWorld) : StoreRun :=
  let (result, s) := call.1.run call.2 r.store
  { store := s
    reloads := if result.code = .Reloaded then r.reloads + 1 else r.reloads
    accepted := acceptedAfter r.store call.1.force call.2 result.code r.accepted }

/-- The run behind some calls, one after another. -/
def StoreRun.calls (r : StoreRun) (calls : List (StoreCall × CallWorld)) : StoreRun :=
  calls.foldl StoreRun.step r

/-- The run as the constructor leaves it: the version it loaded, if there is a
file to load, counts as accepted. -/
def StoreRun.begin (store : AuthRuntimeStore) (view : SecretsView) : StoreRun :=
  { store := store
    accepted :=
      if store.secretsFile = [] then [] else (view.rules store.secretsFile).toOption.getD [] }

/-- What holds between any two calls. The last field is what makes the rest an
invariant: a store that remembers no file has no rules of one. -/
structure StoreRun.Sound (inlineTokens : List AuthTokenRule) (r : StoreRun) : Prop where
  inline : r.store.inlineTokens = inlineTokens
  active : r.store.activeTokens = r.store.inlineTokens ++ r.store.fileTokens
  names : (r.store.activeTokens.map (·.name)).Nodup
  file : r.store.fileTokens = r.accepted
  generation : r.store.generation = 1 + UInt64.ofNat r.reloads
  hadFile : r.store.hadFile = false → r.store.fileTokens = []

/-- The fields a call that does not reload leaves alone. -/
structure SameTokens (s s' : AuthRuntimeStore) : Prop where
  inline : s'.inlineTokens = s.inlineTokens
  file : s'.fileTokens = s.fileTokens
  active : s'.activeTokens = s.activeTokens
  generation : s'.generation = s.generation
  epoch : s'.lastSuccessfulReloadEpoch = s.lastSuccessfulReloadEpoch

/-- The constructor leaves a sound run. -/
theorem construct_sound {inlineTokens : List AuthTokenRule} {secretsFile : Bytes}
    {hotReload : Bool} {reloadIntervalSeconds : Nat} {now epoch : Int} {view : SecretsView}
    {store : AuthRuntimeStore}
    (h : (AuthRuntimeStore.construct inlineTokens secretsFile hotReload reloadIntervalSeconds
      now epoch).run view = .ok store) :
    (StoreRun.begin store view).Sound inlineTokens := by
  have hstart : ∀ fileTokens lastWriteTime hadFile,
      AuthRuntimeStore.start inlineTokens secretsFile hotReload reloadIntervalSeconds now epoch
        fileTokens lastWriteTime hadFile = .ok store →
      (if secretsFile = [] then [] else (view.rules secretsFile).toOption.getD []) = fileTokens →
      (hadFile = false → fileTokens = []) →
      (StoreRun.begin store view).Sound inlineTokens := by
    intro fileTokens lastWriteTime hadFile hstart haccepted hnone
    rw [AuthRuntimeStore.start] at hstart
    cases hcombine : combineAndValidate inlineTokens fileTokens with
    | error e => rw [hcombine] at hstart; cases hstart
    | ok activeTokens =>
        rw [hcombine] at hstart
        cases hstart
        obtain ⟨hactive, hnames⟩ := combineAndValidate_ok.mp hcombine
        exact
          { inline := rfl
            active := hactive
            names := by rw [← hactive] at hnames; exact hnames
            file := haccepted.symm
            generation := rfl
            hadFile := hnone }
  simp only [AuthRuntimeStore.construct] at h
  by_cases hpath : secretsFile = []
  · rw [if_pos hpath] at h
    exact hstart [] 0 false h (if_pos hpath) fun _ => rfl
  · rw [if_neg hpath] at h
    simp only [Prog.run_ask] at h
    split at h
    · cases h
    · simp only [Prog.run_ask] at h
      cases hrules : view.rules secretsFile with
      | error e =>
          have hload := hrules
          rw [SecretsView.rules, SecretsView.content] at hload
          rw [hload] at h
          cases h
      | ok fileTokens =>
          have hload := hrules
          rw [SecretsView.rules, SecretsView.content] at hload
          rw [hload] at h
          simp only [Prog.run_ask] at h
          cases htime : view SecretsAccess.writeTime with
          | error e => rw [htime] at h; cases h
          | ok lastWriteTime =>
              rw [htime] at h
              refine hstart fileTokens lastWriteTime true h ?_ (fun hfalse => by cases hfalse)
              rw [if_neg hpath, hrules]
              rfl

/-- A call that does not reload leaves the tokens alone. The one refresh that
clears them without reloading needs clashing inline names. -/
theorem StoreRun.Sound.same {inlineTokens : List AuthTokenRule} {r : StoreRun}
    (hsound : r.Sound inlineTokens) (c : StoreCall) (w : CallWorld)
    (hcode : (c.run w r.store).1.code ≠ .Reloaded) :
    SameTokens r.store (c.run w r.store).2 := by
  rw [StoreCall.run_eq] at hcode ⊢
  have hinline : (r.store.inlineTokens.map (·.name)).Nodup := by
    have hnames := hsound.names
    rw [hsound.active, List.map_append, List.nodup_append] at hnames
    exact hnames.1
  have hcases := refresh_cases r.store c.force w.now w.epoch w.view
  generalize ((r.store.refresh c.force w.now w.epoch).run w.view).1.code = code at hcases hcode
  generalize ((r.store.refresh c.force w.now w.epoch).run w.view).2 = s' at hcases
  cases hcases with
  | skipped => exact ⟨rfl, rfl, rfl, rfl, rfl⟩
  | stillAbsent => exact ⟨rfl, rfl, rfl, rfl, rfl⟩
  | removed => exact absurd rfl hcode
  | notRemoved hlooks hfound hhad hnames => exact absurd hinline hnames
  | noTime => exact ⟨rfl, rfl, rfl, rfl, rfl⟩
  | known => exact ⟨rfl, rfl, rfl, rfl, rfl⟩
  | notLoaded => exact ⟨rfl, rfl, rfl, rfl, rfl⟩
  | loaded => exact absurd rfl hcode

section AcceptedAfter

variable {s : AuthRuntimeStore} {force : Bool} {w : CallWorld} {code : AuthReloadCode}
  {accepted : List AuthTokenRule}

theorem acceptedAfter_absent (hlooks : s.Looks force w.now) (hfound : w.view.found = false) :
    acceptedAfter s force w code accepted = [] := by
  rw [acceptedAfter, if_neg (not_not.mpr hlooks), if_pos hfound]

theorem acceptedAfter_kept (hlooks : s.Looks force w.now) (hfound : w.view.found = true)
    (hcode : code ≠ .Reloaded) : acceptedAfter s force w code accepted = accepted := by
  have hfound : ¬ w.view.found = false := by simp [hfound]
  rw [acceptedAfter, if_neg (not_not.mpr hlooks), if_neg hfound, if_neg hcode]

theorem acceptedAfter_loaded (hlooks : s.Looks force w.now) (hfound : w.view.found = true)
    {rules : List AuthTokenRule} (hrules : w.view.rules s.secretsFile = .ok rules) :
    acceptedAfter s force w .Reloaded accepted = rules := by
  have hfound : ¬ w.view.found = false := by simp [hfound]
  rw [acceptedAfter, if_neg (not_not.mpr hlooks), if_neg hfound, if_pos rfl, hrules]
  rfl

end AcceptedAfter

/-- A call keeps a run sound. -/
theorem StoreRun.Sound.step {inlineTokens : List AuthTokenRule} {r : StoreRun}
    (hsound : r.Sound inlineTokens) (call : StoreCall × CallWorld) :
    (r.step call).Sound inlineTokens := by
  obtain ⟨c, w⟩ := call
  have hinline : (r.store.inlineTokens.map (·.name)).Nodup := by
    have hnames := hsound.names
    rw [hsound.active, List.map_append, List.nodup_append] at hnames
    exact hnames.1
  have hcases := refresh_cases r.store c.force w.now w.epoch w.view
  simp only [StoreRun.step, StoreCall.run_eq]
  generalize ((r.store.refresh c.force w.now w.epoch).run w.view).1.code = code at hcases ⊢
  generalize ((r.store.refresh c.force w.now w.epoch).run w.view).2 = s' at hcases ⊢
  obtain ⟨h1, h2, h3, h4, h5, hhad⟩ := hsound
  have hgeneration : r.store.generation + 1 = 1 + UInt64.ofNat (r.reloads + 1) := by
    rw [h5, UInt64.ofNat_add, UInt64.add_assoc]
    rfl
  cases hcases with
  | skipped hlooks =>
      refine ⟨h1, h2, h3, ?_, h5, hhad⟩
      exact h4.trans (if_pos hlooks).symm
  | stillAbsent hlooks hfound hnone =>
      refine ⟨h1, h2, h3, ?_, h5, hhad⟩
      exact (hhad hnone).trans (acceptedAfter_absent hlooks hfound).symm
  | removed hlooks hfound hsome hnames =>
      refine ⟨h1, by simp, hnames, ?_, hgeneration, fun _ => rfl⟩
      exact (acceptedAfter_absent hlooks hfound).symm
  | notRemoved hlooks hfound hsome hnames => exact absurd hinline hnames
  | noTime hlooks hfound e htime =>
      refine ⟨h1, h2, h3, ?_, h5, hhad⟩
      exact h4.trans (acceptedAfter_kept hlooks hfound (by decide)).symm
  | known hlooks hfound writeTime htime hknown =>
      refine ⟨h1, h2, h3, ?_, h5, hhad⟩
      exact h4.trans (acceptedAfter_kept hlooks hfound (by decide)).symm
  | notLoaded hlooks hfound writeTime htime hknown hrules =>
      refine ⟨h1, h2, h3, ?_, h5, fun h => by cases h⟩
      exact h4.trans (acceptedAfter_kept hlooks hfound (by decide)).symm
  | loaded hlooks hfound writeTime htime hknown rules hrules hnames =>
      refine ⟨h1, rfl, hnames, ?_, hgeneration, fun h => by cases h⟩
      exact (acceptedAfter_loaded hlooks hfound hrules).symm

theorem StoreRun.Sound.calls {inlineTokens : List AuthTokenRule} {r : StoreRun}
    (hsound : r.Sound inlineTokens) (calls : List (StoreCall × CallWorld)) :
    (r.calls calls).Sound inlineTokens := by
  induction calls generalizing r with
  | nil => exact hsound
  | cons call rest ih => exact ih (hsound.step call)

/-- In every run of a store, between any two calls: the active tokens are the
inline and the file's, under distinct names; the file's are those of the
version accepted last since the file was last seen absent; the generation
counts the reloads; and the next call, unless it reloads, leaves them alone. -/
theorem token_store_runs {inlineTokens : List AuthTokenRule} {secretsFile : Bytes}
    {hotReload : Bool} {reloadIntervalSeconds : Nat} {now epoch : Int} {view : SecretsView}
    {store : AuthRuntimeStore}
    (h : (AuthRuntimeStore.construct inlineTokens secretsFile hotReload reloadIntervalSeconds
      now epoch).run view = .ok store) (calls : List (StoreCall × CallWorld)) :
    let r := (StoreRun.begin store view).calls calls
    r.Sound inlineTokens ∧
      ∀ (c : StoreCall) (w : CallWorld), (c.run w r.store).1.code ≠ .Reloaded →
        SameTokens r.store (c.run w r.store).2 := by
  have hsound := (construct_sound h).calls calls
  exact ⟨hsound, fun c w hcode => hsound.same c w hcode⟩

/-- The digest of a token. -/
def someDigest : Bytes :=
  bytes "ba7816bf8f01cfea414140de5dae2223b00361a396177a9cb410ff61f20015ad"

/-- A file with one rule, as every access finds it. -/
def oneRuleView (writeTime : Int) : SecretsView
  | .found => true
  | .writeTime => .ok writeTime
  | .content => some (bytes "token.a = sha256:" ++ someDigest ++ bytes " | admin | never\n")

/-- A file that does not parse. -/
def malformedView (writeTime : Int) : SecretsView
  | .found => true
  | .writeTime => .ok writeTime
  | .content => some (bytes "token.a\n")

def absentView : SecretsView
  | .found => false
  | .writeTime => .error (bytes "No such file or directory")
  | .content => none

/-- The store that loaded the one rule. -/
def oneRuleStore : AuthRuntimeStore :=
  let rule : AuthTokenRule :=
    { name := bytes "a", sha256Hex := someDigest, scopes := [bytes "admin"] }
  { inlineTokens := [], fileTokens := [rule], activeTokens := [rule]
    secretsFile := bytes "auth.tokens", lastWriteTime := 1, hadFile := true, generation := 1 }

/-- A good file, then malformed, removed, malformed and good again. -/
def editedFile : List (StoreCall × CallWorld) :=
  [(.refresh false, ⟨1, 1, malformedView 2⟩), (.refresh false, ⟨2, 2, absentView⟩),
    (.authorize [] [] [] 3, ⟨3, 3, malformedView 4⟩), (.refresh true, ⟨4, 4, oneRuleView 5⟩)]

theorem token_store_runs_edited :
    ((StoreRun.begin oneRuleStore (oneRuleView 1)).calls editedFile).Sound [] :=
  (token_store_runs
    (show (AuthRuntimeStore.construct [] (bytes "auth.tokens") true 0 0 0).run (oneRuleView 1) =
      .ok oneRuleStore by decide +kernel) editedFile).1

end HydrogenHttpd.Ref
