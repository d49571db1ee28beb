import HydrogenHttpd.Ref.AuthRuntimeStore

/-!
# The order of the token rules

`authorize` lets the first rule whose secret matches the presented token
decide, and reports what is wrong with that rule when there is something; the
rules behind it are not looked at. Rules are told apart by their names only, so
two of them may have one secret, as an inline rule and a rule of the file
during a migration; the order then decides between them. Reordering the rules
never changes a decision exactly when all matching rules get the same verdict,
which they do when no two of them match.
-/

namespace HydrogenHttpd.Ref

open Base

/-! ## First matches -/

section
variable {α β : Type} (matched : α → Bool) (verdict : α → β) (default : β)

/-- What the first matching element of a list decides. -/
def firstVerdict (l : List α) : β :=
  match l.find? matched with
  | some a => verdict a
  | none => default

variable {matched verdict default}

theorem firstVerdict_cons {a : α} (h : matched a = true) (l : List α) :
    firstVerdict matched verdict default (a :: l) = verdict a := by
  rw [firstVerdict, List.find?_cons_of_pos h]

theorem firstVerdict_of_agree {l l' : List α} (hperm : l.Perm l')
    (hagree : ∀ a ∈ l, ∀ b ∈ l, matched a = true → matched b = true → verdict a = verdict b) :
    firstVerdict matched verdict default l' = firstVerdict matched verdict default l := by
  have hnone : l'.find? matched = none ↔ l.find? matched = none := by
    simp only [List.find?_eq_none, hperm.mem_iff]
  rw [firstVerdict, firstVerdict]
  cases h : l.find? matched with
  | none => rw [hnone.mpr h]
  | some a =>
      cases h' : l'.find? matched with
      | none => rw [hnone.mp h'] at h; cases h
      | some b =>
          exact hagree b (hperm.mem_iff.mpr (List.mem_of_find?_eq_some h')) a
            (List.mem_of_find?_eq_some h) (List.find?_some h') (List.find?_some h)

/-- The order does not matter exactly when all matching elements agree. -/
theorem firstVerdict_perm_iff {l : List α} :
    (∀ l', l.Perm l' →
        firstVerdict matched verdict default l' = firstVerdict matched verdict default l) ↔
      ∀ a ∈ l, ∀ b ∈ l, matched a = true → matched b = true → verdict a = verdict b := by
  refine ⟨fun hall => ?_, fun hagree l' hperm => firstVerdict_of_agree hperm hagree⟩
  -- Any matching element can be brought to the front.
  have hfirst : ∀ a ∈ l, matched a = true →
      firstVerdict matched verdict default l = verdict a := fun a ha hm => by
    obtain ⟨s, t, rfl⟩ := List.append_of_mem ha
    rw [← hall _ List.perm_middle, firstVerdict_cons hm]
  exact fun a ha b hb hma hmb => (hfirst a ha hma).symm.trans (hfirst b hb hmb)

end

/-! ## Decisions -/

/-- The token an `Authorization` header presents. -/
def presentedToken (authorizationHeader : Bytes) : Option Bytes :=
  if (bytes "Bearer ").isPrefixOf authorizationHeader = true ∧ authorizationHeader.drop 7 ≠ [] then
    some (authorizationHeader.drop 7)
  else none

/-- The secret of the rule is the presented token's. -/
def matchedBy (presented : Bytes) (token : AuthTokenRule) : Bool :=
  tokenMatches token presented (Auth.sha256Hex presented)

/-- What a matching rule decides. -/
def ruleVerdict (requiredScope : Bytes) (nowEpochSeconds : Int) (token : AuthTokenRule) :
    AuthDecisionCode :=
  if Auth.isExpired token nowEpochSeconds then .Expired
  else if Auth.hasScope token requiredScope = false then .InsufficientScope
  else .Allowed

/-- What is decided when no rule matches. -/
def legacyVerdict (legacyPlaintextToken presented : Bytes) : AuthDecisionCode :=
  if legacyPlaintextToken ≠ [] ∧
      Auth.constantTimeEquals legacyPlaintextToken presented = true then .Allowed
  else .Invalid

theorem authorizeLoop_code (presented legacyPlaintextToken requiredScope : Bytes)
    (nowEpochSeconds : Int) (tokens : List AuthTokenRule) :
    (authorizeLoop presented (Auth.sha256Hex presented) legacyPlaintextToken requiredScope
        nowEpochSeconds tokens).code =
      firstVerdict (matchedBy presented) (ruleVerdict requiredScope nowEpochSeconds)
        (legacyVerdict legacyPlaintextToken presented) tokens := by
  induction tokens with
  | nil =>
      rw [authorizeLoop, firstVerdict, List.find?_nil, legacyVerdict]
      split <;> rfl
  | cons token rest ih =>
      rw [authorizeLoop]
      split
      next hno =>
          rw [ih, firstVerdict, firstVerdict, List.find?_cons_of_neg (by simp [matchedBy, hno])]
      next hmatch =>
          rw [firstVerdict_cons (by simpa [matchedBy] using hmatch), ruleVerdict]
          split
          · rfl
          · split <;> rfl

theorem authorize_code (authorizationHeader : Bytes) (tokens : List AuthTokenRule)
    (legacyPlaintextToken requiredScope : Bytes) (nowEpochSeconds : Int) :
    (Auth.authorize authorizationHeader tokens legacyPlaintextToken requiredScope
        nowEpochSeconds).code =
      match presentedToken authorizationHeader with
      | none => if authorizationHeader = [] then .Missing else .Invalid
      | some presented =>
          firstVerdict (matchedBy presented) (ruleVerdict requiredScope nowEpochSeconds)
            (legacyVerdict legacyPlaintextToken presented) tokens := by
  rw [Auth.authorize, presentedToken]
  by_cases hempty : authorizationHeader = []
  · subst hempty
    rfl
  · rw [if_neg hempty, if_neg hempty]
    by_cases hbearer : (bytes "Bearer ").isPrefixOf authorizationHeader = true
    · by_cases hpresented : authorizationHeader.drop 7 = []
      · simp [hbearer, hpresented]
      · simp [hbearer, hpresented, authorizeLoop_code]
    · simp [hbearer]

/-! ## The main result -/

/-- The first matching rule decides. The decision is the same for every order
of the rules exactly when all rules matching the presented token get the same
verdict; it is then `Allowed` if one of them is unexpired and has the scope. -/
theorem authorize_order (authorizationHeader : Bytes) (tokens : List AuthTokenRule)
    (legacyPlaintextToken requiredScope : Bytes) (nowEpochSeconds : Int) :
    let code (tokens : List AuthTokenRule) : AuthDecisionCode :=
      (Auth.authorize authorizationHeader tokens legacyPlaintextToken requiredScope
        nowEpochSeconds).code
    let Agreed : Prop := ∀ presented, presentedToken authorizationHeader = some presented →
      ∀ a ∈ tokens, ∀ b ∈ tokens, matchedBy presented a = true → matchedBy presented b = true →
        ruleVerdict requiredScope nowEpochSeconds a = ruleVerdict requiredScope nowEpochSeconds b
    ((∀ tokens', tokens.Perm tokens' → code tokens' = code tokens) ↔ Agreed) ∧
      (∀ presented token, presentedToken authorizationHeader = some presented →
        tokens.find? (matchedBy presented) = some token →
        code tokens = ruleVerdict requiredScope nowEpochSeconds token) ∧
      (Agreed → ∀ presented, presentedToken authorizationHeader = some presented →
        ∀ token ∈ tokens, matchedBy presented token = true →
          Auth.isExpired token nowEpochSeconds = false →
          Auth.hasScope token requiredScope = true → code tokens = .Allowed) := by
  intro code Agreed
  have hcode (tokens : List AuthTokenRule) := authorize_code authorizationHeader tokens
    legacyPlaintextToken requiredScope nowEpochSeconds
  have hfirst : ∀ presented token, presentedToken authorizationHeader = some presented →
      tokens.find? (matchedBy presented) = some token →
      code tokens = ruleVerdict requiredScope nowEpochSeconds token := by
    intro presented token hp hfind
    rw [show code tokens = _ from hcode tokens, hp]
    simp only [firstVerdict, hfind]
  refine ⟨?_, hfirst, fun hagree presented hp token htoken hmatch hfresh hscope => ?_⟩
  · simp only [code, hcode, Agreed]
    cases presentedToken authorizationHeader with
    | none => simp
    | some presented => simpa using firstVerdict_perm_iff
  · obtain ⟨first, hfind⟩ := Option.isSome_iff_exists.mp
      (List.find?_isSome.mpr ⟨token, htoken, hmatch⟩)
    rw [hfirst presented first hp hfind,
      hagree presented hp first (List.mem_of_find?_eq_some hfind) token htoken
        (List.find?_some hfind) hmatch, ruleVerdict]
    simp [hfresh, hscope]

/-- The rules of a rotation: the secret `s` with a scope for uploads, inline,
and with a scope for the status page, from the file. -/
def inlineRule : AuthTokenRule :=
  { name := bytes "ci", plaintextToken := bytes "s", scopes := [bytes "upload"] }

def fileRule : AuthTokenRule :=
  { name := bytes "ops", plaintextToken := bytes "s", scopes := [bytes "admin"] }

/-- Another rule, with a secret of its own. -/
def otherRule : AuthTokenRule :=
  { name := bytes "dev", plaintextToken := bytes "t", scopes := [bytes "admin"] }

/-- With different secrets either order allows the upload. -/
theorem authorize_order_distinct :
    (Auth.authorize (bytes "Bearer s") [otherRule, inlineRule] [] (bytes "upload") 5).code =
        (Auth.authorize (bytes "Bearer s") [inlineRule, otherRule] [] (bytes "upload") 5).code ∧
      (Auth.authorize (bytes "Bearer s") [inlineRule, otherRule] [] (bytes "upload") 5).code =
        .Allowed := by
  have horder := authorize_order (bytes "Bearer s") [inlineRule, otherRule] [] (bytes "upload") 5
  have hpresented : presentedToken (bytes "Bearer s") = some (bytes "s") := by decide
  have hother : matchedBy (bytes "s") otherRule = false := by decide
  have hagreed : ∀ presented, presentedToken (bytes "Bearer s") = some presented →
      ∀ a ∈ [inlineRule, otherRule], ∀ b ∈ [inlineRule, otherRule],
        matchedBy presented a = true → matchedBy presented b = true →
          ruleVerdict (bytes "upload") 5 a = ruleVerdict (bytes "upload") 5 b := by
    rw [hpresented]
    rintro presented ⟨⟩
    simp [hother]
  exact ⟨horder.1.mpr hagreed _ (.swap ..),
    horder.2.2 hagreed (bytes "s") hpresented inlineRule (by simp) (by decide) (by decide)
      (by decide)⟩

/-- With one secret the upload is allowed or refused by the order, and the
store takes the rules in either. -/
theorem authorize_shared_secret :
    combineAndValidate [inlineRule] [fileRule] = .ok [inlineRule, fileRule] ∧
      combineAndValidate [fileRule] [inlineRule] = .ok [fileRule, inlineRule] ∧
      (Auth.authorize (bytes "Bearer s") [inlineRule, fileRule] [] (bytes "upload") 5).code =
        .Allowed ∧
      (Auth.authorize (bytes "Bearer s") [fileRule, inlineRule] [] (bytes "upload") 5).code =
        .InsufficientScope := by
  decide

end HydrogenHttpd.Ref
