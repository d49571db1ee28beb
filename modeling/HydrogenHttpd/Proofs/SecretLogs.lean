import HydrogenHttpd.Proofs.Calls
import HydrogenHttpd.Proofs.SecretLines

/-!
# Secrets stay out of the logs

Two runs of `authorizeEndpoint` on the same requests, in surroundings that
differ in the secrets file only, and there only behind the keys of its lines.
While every reload ends the same way in both, the two stores differ in their
rules and in nothing else (`refresh_same`), so the audit log is the same. The
error log also quotes why a reload failed: it is the same as well, as long as
the failed reloads stop at the same line with the same sentence.

What the rules are, and so what the requests are answered, need not be the same
for that.
-/

namespace HydrogenHttpd.Ref

open Base

/-! ## What may differ -/

/-- Two stores that differ in their rules only. -/
def SameStore (s₁ s₂ : AuthRuntimeStore) : Prop :=
  ∃ file active, s₂ = { s₁ with fileTokens := file, activeTokens := active }

/-- Two answers to each access that differ behind the keys of the file's lines only. -/
structure ViewsAgree (view₁ view₂ : SecretsView) : Prop where
  found : view₁.found = view₂.found
  writeTime : view₁.writeTime = view₂.writeTime
  content : ContentsAgree view₁.content view₂.content

/-- Two surroundings of one authorization. What other threads do between the two
halves may depend on the rules, and keeps everything else the same. -/
structure MomentsAgree (m₁ m₂ : AuthMoment) : Prop where
  now : m₁.now = m₂.now
  steady : m₁.steady = m₂.steady
  epoch : m₁.epoch = m₂.epoch
  secrets : ∀ n, ViewsAgree (m₁.secrets n) (m₂.secrets n)
  others : ∀ s₁ s₂, SameStore s₁ s₂ → SameStore (m₁.others s₁) (m₂.others s₂)

def EnvsAgree (env₁ env₂ : ServerEnv) : Prop :=
  ∀ n, MomentsAgree (env₁.authorization n) (env₂.authorization n)

theorem SameStore.refl (s : AuthRuntimeStore) : SameStore s s :=
  ⟨s.fileTokens, s.activeTokens, rfl⟩

/-! ## One refresh -/

/-- What a refresh sees: each access is made once at most, in this order. -/
def seen (worlds : Nat → SecretsView) : SecretsView
  | .found => worlds 0 .found
  | .writeTime => worlds 1 .writeTime
  | .content => worlds 2 .content

theorem refresh_replay (s : AuthRuntimeStore) (force : Bool) (now epoch : Int)
    (worlds : Nat → SecretsView) :
    (s.refresh force now epoch).replay worlds = (s.refresh force now epoch).run (seen worlds) := by
  rw [AuthRuntimeStore.refresh]
  split
  · rfl
  · split
    · rfl
    · split
      · rfl
      · simp only [Prog.replay, Prog.run_ask]
        change (if worlds 0 .found = false then _ else _ : SecretsProg _).replay _ =
          (if worlds 0 .found = false then _ else _ : SecretsProg _).run _
        by_cases hfound : worlds 0 .found = false
        · rw [if_pos hfound]
          split <;> rfl
        · rw [if_neg hfound]
          simp only [Prog.replay, Prog.run_ask, seen]
          cases worlds 1 .writeTime with
          | error e => rfl
          | ok writeTime =>
              simp only []
              split <;> rfl

/-- The refresh gets to read the file. -/
def AuthRuntimeStore.Reads (s : AuthRuntimeStore) (now : Int) (view : SecretsView) : Prop :=
  s.Looks false now ∧ view.found = true ∧
    ∃ writeTime, view.writeTime = .ok writeTime ∧ ¬ s.Knows false writeTime

/-- How a load ends: with the rules in force, or with a message. -/
theorem load_eq (s : AuthRuntimeStore) (epoch writeTime : Int) (content : Option Bytes)
    (result : AuthReloadResult) :
    (∃ e, loadAnswer s.inlineTokens s.secretsFile content = .error e ∧
      s.load epoch writeTime content result =
        ({ result with code := .Failed, message := e },
          { s with lastWriteTime := writeTime, hadFile := true })) ∨
    ∃ rules combined, s.load epoch writeTime content result =
      ({ code := .Reloaded
         message := bytes "auth secrets reloaded"
         tokenCount := combined.length
         generation := s.generation + 1 },
        { s with
          fileTokens := rules
          activeTokens := combined
          lastWriteTime := writeTime
          hadFile := true
          generation := s.generation + 1
          lastSuccessfulReloadEpoch := epoch }) := by
  rw [AuthRuntimeStore.load, loadAnswer]
  cases Auth.loadSecretsFile s.secretsFile content with
  | error e => exact Or.inl ⟨e, rfl, rfl⟩
  | ok rules =>
      simp only []
      cases combineAndValidate s.inlineTokens rules with
      | error e => exact Or.inl ⟨e, rfl, rfl⟩
      | ok combined => exact Or.inr ⟨rules, combined, rfl⟩

/-- What two outcomes have in common: the stores differ in their rules only, and
when both fail under `line`, with the same sentence, they fail with the same words. -/
structure SameOutcome (line : Prop) (o₁ o₂ : AuthReloadResult × AuthRuntimeStore) : Prop where
  store : SameStore o₁.2 o₂.2
  message : o₁.1.code = .Failed → line → sentence o₁.1.message = sentence o₂.1.message →
    o₁.1.message = o₂.1.message

theorem load_same (s : AuthRuntimeStore) (file active : List AuthTokenRule)
    {content₁ content₂ : Option Bytes} (hcontent : ContentsAgree content₁ content₂)
    (epoch writeTime : Int) (r₁ r₂ : AuthReloadResult)
    (hcode : (s.load epoch writeTime content₁ r₁).1.code =
      (AuthRuntimeStore.load { s with fileTokens := file, activeTokens := active } epoch
        writeTime content₂ r₂).1.code) :
    SameOutcome (refusedAt content₁ = refusedAt content₂) (s.load epoch writeTime content₁ r₁)
      (AuthRuntimeStore.load { s with fileTokens := file, activeTokens := active } epoch
        writeTime content₂ r₂) := by
  rcases load_eq s epoch writeTime content₁ r₁ with
    ⟨e₁, hload₁, heq₁⟩ | ⟨rules₁, combined₁, heq₁⟩
  · rcases load_eq { s with fileTokens := file, activeTokens := active } epoch writeTime
      content₂ r₂ with ⟨e₂, hload₂, heq₂⟩ | ⟨rules₂, combined₂, heq₂⟩
    · rw [heq₁, heq₂]
      exact ⟨⟨file, active, rfl⟩, fun _ hline hsentence =>
        load_message_eq hcontent hload₁ hload₂ hline hsentence⟩
    · rw [heq₁, heq₂] at hcode
      cases hcode
  · rcases load_eq { s with fileTokens := file, activeTokens := active } epoch writeTime
      content₂ r₂ with ⟨e₂, hload₂, heq₂⟩ | ⟨rules₂, combined₂, heq₂⟩
    · rw [heq₁, heq₂] at hcode
      cases hcode
    · rw [heq₁, heq₂]
      exact ⟨⟨rules₂, combined₂, rfl⟩, fun hfailed => by cases hfailed⟩

theorem SameOutcome.mono {line line' : Prop} {o₁ o₂ : AuthReloadResult × AuthRuntimeStore}
    (h : SameOutcome line o₁ o₂) (hline : line' → line) : SameOutcome line' o₁ o₂ :=
  ⟨h.store, fun hfailed hl => h.message hfailed (hline hl)⟩

/-- While two refreshes end the same way, the stores go on differing in their rules
only; and when they fail at the same line with the same sentence, they fail with
the same words. -/
theorem refresh_same {s₁ s₂ : AuthRuntimeStore} (hs : SameStore s₁ s₂) {view₁ view₂ : SecretsView}
    (hviews : ViewsAgree view₁ view₂) (now epoch : Int)
    (hcode : ((s₁.refresh false now epoch).run view₁).1.code =
      ((s₂.refresh false now epoch).run view₂).1.code) :
    SameOutcome (s₁.Reads now view₁ → refusedAt view₁.content = refusedAt view₂.content)
      ((s₁.refresh false now epoch).run view₁) ((s₂.refresh false now epoch).run view₂) := by
  obtain ⟨file, active, rfl⟩ := hs
  obtain ⟨hfound, htime, hcontent⟩ := hviews
  rw [refresh_run, refresh_run, ← hfound, ← htime] at hcode ⊢
  simp only [] at hcode ⊢
  by_cases hlooks : s₁.Looks false now
  · have hlooks₂ : AuthRuntimeStore.Looks
        { s₁ with fileTokens := file, activeTokens := active } false now := hlooks
    rw [if_neg (not_not.mpr hlooks), if_neg (not_not.mpr hlooks₂)] at hcode ⊢
    by_cases hf : view₁.found = false
    · rw [if_pos hf, if_pos hf]
      by_cases hhad : s₁.hadFile = false
      · rw [if_pos hhad, if_pos hhad]
        exact ⟨⟨file, active, rfl⟩, fun hfailed => by cases hfailed⟩
      · rw [if_neg hhad, if_neg hhad, AuthRuntimeStore.forget, AuthRuntimeStore.forget]
        simp only []
        cases combineAndValidate s₁.inlineTokens [] with
        | error e => exact ⟨⟨[], active, rfl⟩, fun _ _ _ => rfl⟩
        | ok combined => exact ⟨⟨[], combined, rfl⟩, fun hfailed => by cases hfailed⟩
    · rw [if_neg hf, if_neg hf] at hcode ⊢
      cases htime₁ : view₁.writeTime with
      | error e => exact ⟨⟨file, active, rfl⟩, fun _ _ _ => rfl⟩
      | ok writeTime =>
          rw [htime₁] at hcode
          simp only [] at hcode ⊢
          by_cases hknown : s₁.Knows false writeTime
          · have hknown₁ : AuthRuntimeStore.Knows { s₁ with lastCheck := now } false writeTime :=
              hknown
            have hknown₂ : AuthRuntimeStore.Knows
                { s₁ with fileTokens := file, activeTokens := active, lastCheck := now }
                false writeTime := hknown
            rw [if_pos hknown₁, if_pos hknown₂]
            exact ⟨⟨file, active, rfl⟩, fun hfailed => by cases hfailed⟩
          · have hknown₁ : ¬ AuthRuntimeStore.Knows { s₁ with lastCheck := now } false writeTime :=
              hknown
            have hknown₂ : ¬ AuthRuntimeStore.Knows
                { s₁ with fileTokens := file, activeTokens := active, lastCheck := now }
                false writeTime := hknown
            have hreads : s₁.Reads now view₁ :=
              ⟨hlooks, by simpa using hf, writeTime, htime₁, hknown⟩
            rw [if_neg hknown₁, if_neg hknown₂] at hcode ⊢
            exact (load_same { s₁ with lastCheck := now } file active hcontent epoch writeTime _ _
              hcode).mono fun hline => hline hreads
  · have hlooks₂ : ¬ AuthRuntimeStore.Looks
        { s₁ with fileTokens := file, activeTokens := active } false now := hlooks
    rw [if_pos hlooks, if_pos hlooks₂]
    exact ⟨⟨file, active, rfl⟩, fun hfailed => by cases hfailed⟩

/-! ## Runs -/

/-- What the reload of the next authorization answers. -/
def reloadOf (env : ServerEnv) (w : World) : AuthReloadResult :=
  let moment := env.authorization w.authorizations
  ((w.authStore.refresh false moment.steady moment.epoch).replay moment.secrets).1

/-- The world behind some authorizations, one after another. -/
def authorizeAll (env : ServerEnv) (config : ServerConfig) :
    List (HttpRequest × Bytes) → World → World
  | [], w => w
  | (req, requiredScope) :: rest, w =>
      authorizeAll env config rest (authorizeEndpoint env config req requiredScope w).2

/-- A relation between the two worlds holds at every authorization of two runs. -/
def Along (env₁ env₂ : ServerEnv) (config : ServerConfig) (related : World → World → Prop) :
    List (HttpRequest × Bytes) → World → World → Prop
  | [], _, _ => True
  | (req, requiredScope) :: rest, w₁, w₂ =>
      related w₁ w₂ ∧
        Along env₁ env₂ config related rest
          (authorizeEndpoint env₁ config req requiredScope w₁).2
          (authorizeEndpoint env₂ config req requiredScope w₂).2

/-- The reloads answer the same code, generation and token count. -/
def SameReload (env₁ env₂ : ServerEnv) (w₁ w₂ : World) : Prop :=
  (reloadOf env₁ w₁).code = (reloadOf env₂ w₂).code ∧
    (reloadOf env₁ w₁).generation = (reloadOf env₂ w₂).generation ∧
      (reloadOf env₁ w₁).tokenCount = (reloadOf env₂ w₂).tokenCount

instance (env₁ env₂ : ServerEnv) (w₁ w₂ : World) : Decidable (SameReload env₁ env₂ w₁ w₂) :=
  inferInstanceAs (Decidable (_ ∧ _ ∧ _))

/-- Reloads that fail, fail at the same line, if they read the file, and with a
message that starts with the same sentence. -/
def SameCheck (env₁ env₂ : ServerEnv) (w₁ w₂ : World) : Prop :=
  let view₁ := seen (env₁.authorization w₁.authorizations).secrets
  let view₂ := seen (env₂.authorization w₂.authorizations).secrets
  (reloadOf env₁ w₁).code = .Failed →
    (w₁.authStore.Reads (env₁.authorization w₁.authorizations).steady view₁ →
      refusedAt view₁.content = refusedAt view₂.content) ∧
    sentence (reloadOf env₁ w₁).message = sentence (reloadOf env₂ w₂).message

/-- The audit log's messages. -/
def audits (logs : List LogMessage) : List LogMessage :=
  logs.filter fun | .audit _ => true | .error _ => false

/-- Two worlds that differ in the rules of their stores, and in what they have
called, only. -/
structure WorldsAgree (w₁ w₂ : World) : Prop where
  store : SameStore w₁.authStore w₂.authStore
  authorizations : w₁.authorizations = w₂.authorizations

theorem ViewsAgree.seen {worlds₁ worlds₂ : Nat → SecretsView}
    (h : ∀ n, ViewsAgree (worlds₁ n) (worlds₂ n)) : ViewsAgree (seen worlds₁) (seen worlds₂) where
  found := (h 0).found
  writeTime := (h 1).writeTime
  content := (h 2).content

theorem authorizeEndpoint_logs (env : ServerEnv) {config : ServerConfig}
    (h : config.enableEndpointAuth = true) (req : HttpRequest) (requiredScope : Bytes) (w : World) :
    (authorizeEndpoint env config req requiredScope w).2.logs =
      (logReload (reloadOf env w) w).logs := by
  rw [authorizeEndpoint, if_neg (by simp [h])]
  simp only [logReload, reloadOf]
  split <;> rfl

theorem authorizeEndpoint_world (env : ServerEnv) {config : ServerConfig}
    (h : config.enableEndpointAuth = true) (req : HttpRequest) (requiredScope : Bytes) (w : World) :
    (authorizeEndpoint env config req requiredScope w).2.authorizations = w.authorizations + 1 ∧
      (authorizeEndpoint env config req requiredScope w).2.authStore =
        (env.authorization w.authorizations).others
          ((w.authStore.refresh false (env.authorization w.authorizations).steady
            (env.authorization w.authorizations).epoch).replay
              (env.authorization w.authorizations).secrets).2 := by
  rw [authorizeEndpoint, if_neg (by simp [h])]
  simp only [logReload]
  split <;> exact ⟨rfl, rfl⟩

section Step

variable {env₁ env₂ : ServerEnv} {config : ServerConfig} {w₁ w₂ : World}

/-- The outcomes of the two reloads. -/
theorem reload_same (henv : EnvsAgree env₁ env₂) (hw : WorldsAgree w₁ w₂)
    (hcode : (reloadOf env₁ w₁).code = (reloadOf env₂ w₂).code) :
    let moment₁ := env₁.authorization w₁.authorizations
    let moment₂ := env₂.authorization w₂.authorizations
    SameOutcome
      (w₁.authStore.Reads moment₁.steady (seen moment₁.secrets) →
        refusedAt (seen moment₁.secrets).content = refusedAt (seen moment₂.secrets).content)
      ((w₁.authStore.refresh false moment₁.steady moment₁.epoch).replay moment₁.secrets)
      ((w₂.authStore.refresh false moment₂.steady moment₂.epoch).replay moment₂.secrets) := by
  have hmoment := henv w₁.authorizations
  simp only [reloadOf, ← hw.authorizations, ← hmoment.steady, ← hmoment.epoch,
    refresh_replay] at hcode ⊢
  exact refresh_same hw.store (ViewsAgree.seen hmoment.secrets) _ _ hcode

theorem authorizeEndpoint_agree (henv : EnvsAgree env₁ env₂) (hw : WorldsAgree w₁ w₂)
    (hreload : config.enableEndpointAuth = true → SameReload env₁ env₂ w₁ w₂) (req : HttpRequest)
    (requiredScope : Bytes) :
    WorldsAgree (authorizeEndpoint env₁ config req requiredScope w₁).2
      (authorizeEndpoint env₂ config req requiredScope w₂).2 := by
  by_cases h : config.enableEndpointAuth = true
  · have hstore := (reload_same henv hw (hreload h).1).store
    have hmoment := henv w₁.authorizations
    obtain ⟨hcount₁, hstore₁⟩ := authorizeEndpoint_world env₁ h req requiredScope w₁
    obtain ⟨hcount₂, hstore₂⟩ := authorizeEndpoint_world env₂ h req requiredScope w₂
    refine ⟨?_, by rw [hcount₁, hcount₂, hw.authorizations]⟩
    rw [hstore₁, hstore₂]
    rw [← hw.authorizations] at hstore ⊢
    exact hmoment.others _ _ hstore
  · rw [authorizeEndpoint, authorizeEndpoint, if_pos (by simpa using h), if_pos (by simpa using h)]
    exact hw

theorem audits_logReload {r₁ r₂ : AuthReloadResult} (hcode : r₁.code = r₂.code)
    (hgeneration : r₁.generation = r₂.generation) (hcount : r₁.tokenCount = r₂.tokenCount)
    (hlogs : audits w₁.logs = audits w₂.logs) :
    audits (logReload r₁ w₁).logs = audits (logReload r₂ w₂).logs := by
  simp only [logReload, hcode, hgeneration, hcount]
  rw [audits, audits] at hlogs
  cases r₂.code <;> simp [audits, World.log, hlogs]

theorem logReload_eq {r₁ r₂ : AuthReloadResult} (hcode : r₁.code = r₂.code)
    (hgeneration : r₁.generation = r₂.generation) (hcount : r₁.tokenCount = r₂.tokenCount)
    (hmessage : r₁.code = .Failed → r₁.message = r₂.message) (hlogs : w₁.logs = w₂.logs) :
    (logReload r₁ w₁).logs = (logReload r₂ w₂).logs := by
  simp only [logReload, ← hcode, hgeneration, hcount]
  cases hfailed : r₁.code with
  | NoChange => exact hlogs
  | Reloaded => simp [World.log, hlogs]
  | Failed => simp [World.log, hlogs, hmessage hfailed]

end Step

/-- Secrets never reach the logs. In two runs on the same requests, on secrets files
that agree up to the keys of their lines, whose reloads give the same code,
generation and token count throughout, the audit log is the same; and where the
failed reloads also stop at the same line with the same sentence, so is the error
log, word for word. -/
theorem secrets_not_logged {env₁ env₂ : ServerEnv} {config : ServerConfig}
    {requests : List (HttpRequest × Bytes)} {w₁ w₂ : World} (henv : EnvsAgree env₁ env₂)
    (hw : WorldsAgree w₁ w₂) (hlogs : w₁.logs = w₂.logs)
    (hreloads : Along env₁ env₂ config
      (fun w₁ w₂ => config.enableEndpointAuth = true → SameReload env₁ env₂ w₁ w₂)
      requests w₁ w₂) :
    audits (authorizeAll env₁ config requests w₁).logs =
        audits (authorizeAll env₂ config requests w₂).logs ∧
      (Along env₁ env₂ config
          (fun w₁ w₂ => config.enableEndpointAuth = true → SameCheck env₁ env₂ w₁ w₂)
          requests w₁ w₂ →
        (authorizeAll env₁ config requests w₁).logs =
          (authorizeAll env₂ config requests w₂).logs) := by
  -- the two logs are followed apart: the audit log never depends on the error log
  have haudits : audits w₁.logs = audits w₂.logs := congrArg audits hlogs
  constructor
  · clear hlogs
    induction requests generalizing w₁ w₂ with
    | nil => exact haudits
    | cons request rest ih =>
        obtain ⟨req, requiredScope⟩ := request
        obtain ⟨hreload, hrest⟩ := hreloads
        refine ih (authorizeEndpoint_agree henv hw hreload req requiredScope) hrest ?_
        by_cases h : config.enableEndpointAuth = true
        · obtain ⟨hcode, hgeneration, hcount⟩ := hreload h
          rw [authorizeEndpoint_logs env₁ h, authorizeEndpoint_logs env₂ h]
          exact audits_logReload hcode hgeneration hcount haudits
        · rw [authorizeEndpoint, authorizeEndpoint, if_pos (by simpa using h),
            if_pos (by simpa using h)]
          exact haudits
  · clear haudits
    intro hchecks
    induction requests generalizing w₁ w₂ with
    | nil => exact hlogs
    | cons request rest ih =>
        obtain ⟨req, requiredScope⟩ := request
        obtain ⟨hreload, hrest⟩ := hreloads
        obtain ⟨hcheck, hchecks⟩ := hchecks
        refine ih (authorizeEndpoint_agree henv hw hreload req requiredScope) ?_ hrest hchecks
        by_cases h : config.enableEndpointAuth = true
        · obtain ⟨hcode, hgeneration, hcount⟩ := hreload h
          rw [authorizeEndpoint_logs env₁ h, authorizeEndpoint_logs env₂ h]
          refine logReload_eq hcode hgeneration hcount (fun hfailed => ?_) hlogs
          obtain ⟨hline, hsentence⟩ := hcheck h hfailed
          exact (reload_same henv hw hcode).message hfailed hline hsentence
        · rw [authorizeEndpoint, authorizeEndpoint, if_pos (by simpa using h),
            if_pos (by simpa using h)]
          exact hlogs

/-- Two servers started on secrets files that agree up to the keys of their lines. -/
theorem construct_same {inlineTokens : List AuthTokenRule} {secretsFile : Bytes}
    {hotReload : Bool} {reloadIntervalSeconds : Nat} {now epoch : Int} {view₁ view₂ : SecretsView}
    {s₁ s₂ : AuthRuntimeStore} (hviews : ViewsAgree view₁ view₂)
    (h₁ : (AuthRuntimeStore.construct inlineTokens secretsFile hotReload reloadIntervalSeconds
      now epoch).run view₁ = .ok s₁)
    (h₂ : (AuthRuntimeStore.construct inlineTokens secretsFile hotReload reloadIntervalSeconds
      now epoch).run view₂ = .ok s₂) : SameStore s₁ s₂ := by
  have hstart : ∀ {file₁ file₂ : List AuthTokenRule} {lastWriteTime : Int} {hadFile : Bool},
      AuthRuntimeStore.start inlineTokens secretsFile hotReload reloadIntervalSeconds now epoch
        file₁ lastWriteTime hadFile = .ok s₁ →
      AuthRuntimeStore.start inlineTokens secretsFile hotReload reloadIntervalSeconds now epoch
        file₂ lastWriteTime hadFile = .ok s₂ → SameStore s₁ s₂ := by
    intro file₁ file₂ lastWriteTime hadFile h₁ h₂
    rw [AuthRuntimeStore.start] at h₁ h₂
    split at h₁
    · cases h₁
    · split at h₂
      · cases h₂
      · next combined₂ _ =>
          obtain rfl := Except.ok.inj h₁
          obtain rfl := Except.ok.inj h₂
          exact ⟨file₂, combined₂, rfl⟩
  simp only [AuthRuntimeStore.construct] at h₁ h₂
  by_cases hpath : secretsFile = []
  · rw [if_pos hpath] at h₁ h₂
    exact hstart h₁ h₂
  · rw [if_neg hpath] at h₁ h₂
    have hfound : view₁ .found = view₂ .found := hviews.found
    have htime : view₁ .writeTime = view₂ .writeTime := hviews.writeTime
    simp only [Prog.run_ask, ← hfound] at h₁ h₂
    split at h₁
    · cases h₁
    · next hexists =>
        rw [if_neg hexists] at h₂
        simp only [Prog.run_ask] at h₁ h₂
        split at h₁
        · cases h₁
        · split at h₂
          · cases h₂
          · simp only [Prog.run_ask, ← htime] at h₁ h₂
            cases hwrite : view₁ .writeTime with
            | error e =>
                rw [hwrite] at h₁
                cases h₁
            | ok lastWriteTime =>
                rw [hwrite] at h₁ h₂
                exact hstart h₁ h₂

/-- A server whose secrets file is replaced by this text before its first
authorization. -/
def replacedEnv (text : Bytes) : ServerEnv :=
  { quietEnv with
    authorization := fun _ =>
      { now := 0, steady := 0, epoch := 0
        secrets := fun _ access => match access with
          | .found => true
          | .writeTime => .ok 2
          | .content => some text } }

/-- A server with no inline rules and a secrets file it has not read yet. -/
def secretsWorld : World :=
  World.initial {} { inlineTokens := [], secretsFile := bytes "auth.tokens" }

def guardedConfig : ServerConfig := { enableEndpointAuth := true }

/-- Two texts of one line that agree up to the key. -/
theorem replacedEnv_agree {tail₁ tail₂ : Bytes} (h₁ : AfterKey tail₁) (h₂ : AfterKey tail₂)
    (hlf₁ : lf ∉ tail₁) (hlf₂ : lf ∉ tail₂) :
    EnvsAgree (replacedEnv (bytes "token.admin" ++ tail₁))
      (replacedEnv (bytes "token.admin" ++ tail₂)) := by
  have hfront : KeyFront (bytes "token.admin") (bytes "admin") :=
    @KeyFront.mk [] (bytes "admin") (by simp) (by decide +kernel)
  have hkey : lf ∉ bytes "token.admin" := by decide
  have hlines : ∀ tail, lf ∉ tail →
      getlines (bytes "token.admin" ++ tail) = [bytes "token.admin" ++ tail] := fun tail htail =>
    getlines_last (by simp [hkey, htail]) (by simp [bytes])
  intro n
  refine ⟨rfl, rfl, rfl, fun k => ⟨rfl, rfl, .texts ?_⟩, fun s₁ s₂ hs => hs⟩
  rw [TextsAgree, hlines tail₁ hlf₁, hlines tail₂ hlf₂]
  exact .cons (.keyed hfront h₁ h₂) .nil

/-- A plaintext token in a secrets file is refused without being quoted. -/
theorem plaintext_not_logged :
    (authorizeAll (replacedEnv (bytes "token.admin" ++ bytes " = hunter2 | admin")) guardedConfig
        [({}, bytes "admin")] secretsWorld).logs =
      (authorizeAll (replacedEnv (bytes "token.admin" ++ bytes " = letmein | admin"))
        guardedConfig [({}, bytes "admin")] secretsWorld).logs :=
  (@secrets_not_logged (replacedEnv (bytes "token.admin" ++ bytes " = hunter2 | admin"))
    (replacedEnv (bytes "token.admin" ++ bytes " = letmein | admin")) guardedConfig
    [({}, bytes "admin")] secretsWorld secretsWorld
    (replacedEnv_agree (by decide) (by decide) (by decide) (by decide)) ⟨.refl _, rfl⟩ rfl
    ⟨fun _ => by decide +kernel, trivial⟩).2
    ⟨fun _ _ => ⟨fun _ => by decide +kernel, by decide +kernel⟩, trivial⟩

/-- The error log says which check failed: two texts that agree up to the key, and the
same code, generation, token count and decision, but two messages. -/
theorem check_logged :
    ∃ tail₁ tail₂ : Bytes,
      EnvsAgree (replacedEnv (bytes "token.admin" ++ tail₁))
        (replacedEnv (bytes "token.admin" ++ tail₂)) ∧
      SameReload (replacedEnv (bytes "token.admin" ++ tail₁))
        (replacedEnv (bytes "token.admin" ++ tail₂)) secretsWorld secretsWorld ∧
      (authorizeEndpoint (replacedEnv (bytes "token.admin" ++ tail₁)) guardedConfig {}
          (bytes "admin") secretsWorld).1 =
        (authorizeEndpoint (replacedEnv (bytes "token.admin" ++ tail₂)) guardedConfig {}
          (bytes "admin") secretsWorld).1 ∧
      (authorizeEndpoint (replacedEnv (bytes "token.admin" ++ tail₁)) guardedConfig {}
          (bytes "admin") secretsWorld).2.logs ≠
        (authorizeEndpoint (replacedEnv (bytes "token.admin" ++ tail₂)) guardedConfig {}
          (bytes "admin") secretsWorld).2.logs :=
  ⟨bytes " = hunter2 | admin", bytes " = sha256:00 | admin",
    replacedEnv_agree (by decide) (by decide) (by decide) (by decide), by decide +kernel,
    by decide +kernel, by decide +kernel⟩

end HydrogenHttpd.Ref
