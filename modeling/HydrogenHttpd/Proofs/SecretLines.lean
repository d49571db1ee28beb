import HydrogenHttpd.Proofs.AuthStore

/-!
# What an error in a secrets file tells

Every exception the secrets file can raise ends up in the error log. This file
compares two texts that agree line by line up to the end of a key, and says how
far their exceptions agree.

The exceptions about what stands behind a key are fixed sentences
(`ruleMessages`), so they tell which check failed and nothing else; the one
about a line without an equals sign quotes the line, which here is the key
alone, and the one about a name quotes a key. Two exceptions at the same line
that start with the same sentence, up to their first colon, are therefore the
same (`load_message_eq`).

Left out are lines whose key is followed, in front of any comment, by something
that is neither white space nor an equals sign: the code quotes those as a whole.
-/

namespace HydrogenHttpd.Ref

open Base

/-! ## Texts that agree up to their keys -/

/-- The front of a line up to the end of its key. -/
inductive KeyFront : Bytes → Bytes → Prop where
  | mk {blanks name : Bytes} (hblanks : ∀ b ∈ blanks, isSpace b = true)
      (hname : ∀ b ∈ name, isSpace b = false ∧ b ≠ 35 ∧ b ≠ 61) :
      KeyFront (blanks ++ (bytes "token." ++ name)) name

/-- What may follow a key: up to a comment, white space only, or an equals sign
behind white space and then anything. -/
def AfterKey (tail : Bytes) : Prop :=
  ((tail.takeWhile (· ≠ 35)).dropWhile isSpace).head? = none ∨
    ((tail.takeWhile (· ≠ 35)).dropWhile isSpace).head? = some 61

instance (tail : Bytes) : Decidable (AfterKey tail) := inferInstanceAs (Decidable (_ ∨ _))

/-- Two lines that differ at most behind their key. -/
inductive LinesAgree : Bytes → Bytes → Prop where
  | same (line : Bytes) : LinesAgree line line
  | keyed {front name tail₁ tail₂ : Bytes} (hfront : KeyFront front name)
      (h₁ : AfterKey tail₁) (h₂ : AfterKey tail₂) : LinesAgree (front ++ tail₁) (front ++ tail₂)

/-- Two texts whose lines differ at most behind their keys. -/
def TextsAgree (text₁ text₂ : Bytes) : Prop :=
  List.Forall₂ LinesAgree (getlines text₁) (getlines text₂)

/-- The same of what opening the file gives. -/
inductive ContentsAgree : Option Bytes → Option Bytes → Prop where
  | closed : ContentsAgree none none
  | texts {text₁ text₂ : Bytes} (h : TextsAgree text₁ text₂) :
      ContentsAgree (some text₁) (some text₂)

/-! ## The exceptions of a line -/

/-- What `parseTokenRule` and `parseExpiry` say. -/
def ruleMessages : List Bytes :=
  [bytes "token rule must use: secret | scopes | expires_epoch", bytes "stoll",
    bytes "token expiry must be 0, never, or a Unix epoch timestamp",
    bytes "sha256 token hash must contain exactly 64 hexadecimal characters",
    bytes "secrets file tokens must use sha256:<64-hex-hash>", bytes "token name cannot be empty",
    bytes "token scopes cannot be empty", bytes "token secret cannot be empty"]

/-- The sentence a message starts with, up to its first colon. -/
def sentence (message : Bytes) : Bytes := message.takeWhile (· ≠ 58)

theorem parseExpiry_message {value e : Bytes} (h : parseExpiry value = .error e) :
    e ∈ ruleMessages := by
  simp only [parseExpiry] at h
  split at h
  · cases h
  · split at h
    · obtain rfl := Except.error.inj h
      simp [ruleMessages]
    · split at h
      · obtain rfl := Except.error.inj h
        simp [ruleMessages]
      · cases h

/-- A rule is refused with one of the fixed sentences, or has the name it was given. -/
inductive RuleOutcome (name : Bytes) : Except Bytes AuthTokenRule → Prop where
  | refused {e : Bytes} (he : e ∈ ruleMessages) : RuleOutcome name (.error e)
  | rule {rule : AuthTokenRule} (hname : rule.name = trim name) : RuleOutcome name (.ok rule)

theorem RuleOutcome.check {name e : Bytes} {c : Prop} [Decidable c]
    {x : Except Bytes AuthTokenRule} (he : e ∈ ruleMessages) (hx : RuleOutcome name x) :
    RuleOutcome name (if c then .error e else x) := by
  split
  · exact .refused he
  · exact hx

theorem parseTokenRule_outcome (name value : Bytes) (requireHashedSecret : Bool) :
    RuleOutcome name (Auth.parseTokenRule name value requireHashedSecret) := by
  simp only [Auth.parseTokenRule]
  refine .check (by simp [ruleMessages]) ?_
  split
  · next e hexpiry =>
      split at hexpiry
      · exact .refused (parseExpiry_message hexpiry)
      · cases hexpiry
  · exact .check (by simp [ruleMessages]) <| .check (by simp [ruleMessages]) <|
      .check (by simp [ruleMessages]) <| .check (by simp [ruleMessages]) <|
      .check (by simp [ruleMessages]) <| .rule rfl

/-! ## One line -/

/-- The exception about a line that has a key and no equals sign. -/
def keyMessage (name : Bytes) : Bytes :=
  bytes "invalid auth secrets line: " ++ (bytes "token." ++ name)

/-- A line with a key is refused for its key or with one of the fixed sentences, or
gives a rule of that name. -/
inductive LineOutcome (name : Bytes) : Except Bytes (Option AuthTokenRule) → Prop where
  | refused {e : Bytes} (he : e ∈ keyMessage name :: ruleMessages) : LineOutcome name (.error e)
  | rule {rule : AuthTokenRule} (hname : rule.name = trim name) : LineOutcome name (.ok (some rule))

/-- The code looks at a line up to its comment. -/
theorem secretsLine_uncommented (line : Bytes) :
    secretsLine line = secretsLine (line.takeWhile (· ≠ 35)) := by
  cases hfind : find? [35] line with
  | none =>
      have hall : line.takeWhile (· ≠ 35) = line := by
        rw [List.takeWhile_eq_self_iff]
        intro b hb
        rw [decide_eq_true_eq]
        rintro rfl
        exact find?_elem_eq_none.mp hfind hb
      rw [hall]
  | some comment =>
      obtain ⟨hfront, hline⟩ := find?_elem_split hfind
      have htake : line.takeWhile (· ≠ 35) = line.take comment := by
        conv => lhs; rw [hline]
        rw [List.takeWhile_append_of_pos, List.takeWhile_cons_of_neg (by simp), List.append_nil]
        intro b hb
        rw [decide_eq_true_eq]
        rintro rfl
        exact hfront hb
      simp only [secretsLine]
      rw [htake, hfind, find?_elem_eq_none.mpr hfront]

theorem keyBytes {name : Bytes} (hname : ∀ b ∈ name, isSpace b = false ∧ b ≠ 35 ∧ b ≠ 61) :
    ∀ b ∈ bytes "token." ++ name, isSpace b = false ∧ b ≠ 35 ∧ b ≠ 61 := by
  have hprefix : ∀ b ∈ bytes "token.", isSpace b = false ∧ b ≠ 35 ∧ b ≠ 61 := by
    simp [bytes, isSpace]
  intro b hb
  rcases List.mem_append.mp hb with hb | hb
  · exact hprefix b hb
  · exact hname b hb

theorem secretsLine_keyed {front name tail : Bytes} (hfront : KeyFront front name)
    (htail : AfterKey tail) : LineOutcome name (secretsLine (front ++ tail)) := by
  obtain ⟨hblanks, hname⟩ := hfront
  rename_i blanks
  have hkey := keyBytes hname
  have hkeyTrim : ∀ r, (∀ b ∈ r, isSpace b = true) →
      trim (bytes "token." ++ name ++ r) = bytes "token." ++ name := fun r hr =>
    trimWith_surrounded (l := []) (by simp) hr (fun b hb => (hkey b (List.mem_of_mem_head? hb)).1)
      fun b hb => (hkey b (List.mem_of_mem_getLast? hb)).1
  have hcomment : (blanks ++ (bytes "token." ++ name) ++ tail).takeWhile (· ≠ 35) =
      blanks ++ (bytes "token." ++ name) ++ tail.takeWhile (· ≠ 35) := by
    rw [List.takeWhile_append_of_pos]
    intro b hb
    rw [decide_eq_true_eq]
    rintro rfl
    rcases List.mem_append.mp hb with hb | hb
    · exact absurd (hblanks 35 hb) (by decide)
    · exact (hkey 35 hb).2.1 rfl
  have hnot : (35 : UInt8) ∉ blanks ++ (bytes "token." ++ name) ++ tail.takeWhile (· ≠ 35) := by
    rw [← hcomment]
    exact not_mem_takeWhile_ne 35 _
  rw [secretsLine_uncommented, hcomment, secretsLine, find?_elem_eq_none.mpr hnot]
  rw [AfterKey] at htail
  generalize tail.takeWhile (· ≠ 35) = behind at *
  cases hbehind : behind.dropWhile isSpace with
  | nil =>
      -- white space only: the line is its key
      have htrim :
          trim (blanks ++ (bytes "token." ++ name) ++ behind) = bytes "token." ++ name := by
        refine trimWith_surrounded hblanks (List.dropWhile_eq_nil_iff.mp hbehind)
          (fun b hb => (hkey b (List.mem_of_mem_head? hb)).1)
          fun b hb => (hkey b (List.mem_of_mem_getLast? hb)).1
      have hequals : (61 : UInt8) ∉ bytes "token." ++ name := fun h => (hkey 61 h).2.2 rfl
      simp only [htrim]
      rw [if_neg (by simp [bytes]), find?_elem_eq_none.mpr hequals]
      exact .refused List.mem_cons_self
  | cons d value =>
      obtain rfl : d = 61 := by
        rw [hbehind] at htail
        simpa using htail
      have hspace : ∀ b ∈ behind.takeWhile isSpace, isSpace b = true := fun b hb =>
        List.mem_takeWhile_imp hb
      have hbehind' : behind = behind.takeWhile isSpace ++ 61 :: value := by
        rw [← hbehind, List.takeWhile_append_dropWhile]
      have hfront : (bytes "token." ++ name ++ behind.takeWhile isSpace).dropWhile isSpace =
          bytes "token." ++ name ++ behind.takeWhile isSpace := by
        rw [List.append_assoc]
        exact List.dropWhile_cons_of_neg (by decide)
      have htrim : trim (blanks ++ (bytes "token." ++ name) ++ behind) =
          bytes "token." ++ name ++ behind.takeWhile isSpace ++ 61 :: value.rdropWhile isSpace := by
        conv_lhs => rw [hbehind', ← List.append_assoc]
        rw [trim, trimWith_around (by decide), List.append_assoc blanks,
          List.dropWhile_append_of_pos hblanks, hfront]
      have hequals : (61 : UInt8) ∉ bytes "token." ++ name ++ behind.takeWhile isSpace := by
        intro h
        rcases List.mem_append.mp h with h | h
        · exact (hkey 61 h).2.2 rfl
        · exact absurd (hspace 61 h) (by decide)
      have hprefix : (bytes "token.").isPrefixOf (bytes "token." ++ name) = true :=
        List.isPrefixOf_iff_prefix.mpr (List.prefix_append _ _)
      have hdrop : (bytes "token." ++ name).drop 6 = name :=
        show (bytes "token." ++ name).drop (bytes "token.").length = name from List.drop_left
      simp only [htrim]
      rw [if_neg (by simp), find?_elem_append hequals]
      simp only [List.take_left, hkeyTrim _ hspace, hprefix, Bool.true_eq_false, if_false, hdrop]
      generalize trim _ = text
      have houtcome := parseTokenRule_outcome name text true
      generalize Auth.parseTokenRule name text true = answer at houtcome ⊢
      cases houtcome with
      | refused he => exact .refused (List.mem_cons_of_mem _ he)
      | rule hname => exact .rule hname

/-- The sentences of a line's exceptions tell them apart. -/
theorem sentence_inj {name e₁ e₂ : Bytes} (h₁ : e₁ ∈ keyMessage name :: ruleMessages)
    (h₂ : e₂ ∈ keyMessage name :: ruleMessages) (h : sentence e₁ = sentence e₂) : e₁ = e₂ := by
  have hkey : sentence (keyMessage name) = bytes "invalid auth secrets line" := rfl
  have hother : ∀ e ∈ ruleMessages, sentence e ≠ bytes "invalid auth secrets line" := by
    decide +kernel
  have hrules : ∀ e₁ ∈ ruleMessages, ∀ e₂ ∈ ruleMessages,
      sentence e₁ = sentence e₂ → e₁ = e₂ := by
    decide +kernel
  rcases List.mem_cons.mp h₁ with rfl | h₁
  · rcases List.mem_cons.mp h₂ with rfl | h₂
    · rfl
    · exact absurd (hkey ▸ h.symm) (hother e₂ h₂)
  · rcases List.mem_cons.mp h₂ with rfl | h₂
    · exact absurd (hkey ▸ h) (hother e₁ h₁)
    · exact hrules e₁ h₁ e₂ h₂ h

/-- Two lines that agree up to their keys and are both refused, with the same
sentence, are refused with the same words. -/
theorem LinesAgree.message {line₁ line₂ e₁ e₂ : Bytes} (h : LinesAgree line₁ line₂)
    (h₁ : secretsLine line₁ = .error e₁) (h₂ : secretsLine line₂ = .error e₂)
    (hsentence : sentence e₁ = sentence e₂) : e₁ = e₂ := by
  cases h with
  | same line => exact Except.error.inj (h₁.symm.trans h₂)
  | keyed hfront htail₁ htail₂ =>
      have houtcome₁ := secretsLine_keyed hfront htail₁
      have houtcome₂ := secretsLine_keyed hfront htail₂
      rw [h₁] at houtcome₁
      rw [h₂] at houtcome₂
      cases houtcome₁ with
      | refused he₁ =>
          cases houtcome₂ with
          | refused he₂ => exact sentence_inj he₁ he₂ hsentence

/-- Two lines that agree up to their keys and are both accepted give rules of one
name, or both none. -/
theorem LinesAgree.names {line₁ line₂ : Bytes} {rule₁ rule₂ : Option AuthTokenRule}
    (h : LinesAgree line₁ line₂) (h₁ : secretsLine line₁ = .ok rule₁)
    (h₂ : secretsLine line₂ = .ok rule₂) : rule₁.map (·.name) = rule₂.map (·.name) := by
  cases h with
  | same line =>
      obtain rfl := Except.ok.inj (h₁.symm.trans h₂)
      rfl
  | keyed hfront htail₁ htail₂ =>
      have houtcome₁ := secretsLine_keyed hfront htail₁
      have houtcome₂ := secretsLine_keyed hfront htail₂
      rw [h₁] at houtcome₁
      rw [h₂] at houtcome₂
      cases houtcome₁ with
      | rule hname₁ =>
          cases houtcome₂ with
          | rule hname₂ => simp [hname₁, hname₂]

/-! ## The whole file -/

/-- The line a text is refused at, the number of its lines when it is not. -/
def refusedLine (text : Bytes) : Nat :=
  (getlines text).findIdx fun line => (secretsLine line).toOption.isNone

theorem secretsLoop_error {lines : List Bytes} {tokens : List AuthTokenRule} {e : Bytes}
    (h : secretsLoop lines tokens = .error e) :
    ∃ line, lines[lines.findIdx fun line => (secretsLine line).toOption.isNone]? = some line ∧
      secretsLine line = .error e := by
  induction lines generalizing tokens with
  | nil => cases h
  | cons line rest ih =>
      rw [secretsLoop] at h
      rw [List.findIdx_cons]
      cases hline : secretsLine line with
      | error e' =>
          rw [hline] at h
          obtain rfl := Except.error.inj h
          exact ⟨line, by simp [Except.toOption], hline⟩
      | ok rule =>
          rw [hline] at h
          have hrest : ∃ tokens, secretsLoop rest tokens = .error e := by
            cases rule with
            | none => exact ⟨_, h⟩
            | some rule => exact ⟨_, h⟩
          obtain ⟨tokens', htokens⟩ := hrest
          obtain ⟨bad, hget, hbad⟩ := ih htokens
          exact ⟨bad, by simpa [Except.toOption] using hget, hbad⟩

theorem secretsLoop_ok {lines : List Bytes} {tokens rules : List AuthTokenRule}
    (h : secretsLoop lines tokens = .ok rules) :
    (lines.findIdx fun line => (secretsLine line).toOption.isNone) = lines.length := by
  induction lines generalizing tokens with
  | nil => rfl
  | cons line rest ih =>
      rw [secretsLoop] at h
      rw [List.findIdx_cons]
      cases hline : secretsLine line with
      | error e' =>
          rw [hline] at h
          cases h
      | ok rule =>
          rw [hline] at h
          have hrest : ∃ tokens, secretsLoop rest tokens = .ok rules := by
            cases rule with
            | none => exact ⟨_, h⟩
            | some rule => exact ⟨_, h⟩
          obtain ⟨tokens', htokens⟩ := hrest
          simp only [Except.toOption, Option.isNone_some, cond_false, List.length_cons]
          exact congrArg (· + 1) (ih htokens)

theorem forall₂_getElem? {α β : Type} {r : α → β → Prop} {as : List α} {bs : List β}
    (h : List.Forall₂ r as bs) {i : Nat} {a : α} {b : β} (ha : as[i]? = some a)
    (hb : bs[i]? = some b) : r a b := by
  obtain ⟨hi, rfl⟩ := List.getElem?_eq_some_iff.mp ha
  obtain ⟨hj, rfl⟩ := List.getElem?_eq_some_iff.mp hb
  exact (List.forall₂_iff_get.mp h).2 i hi hj

/-- Lines that agree and are all accepted give rules of the same names. -/
theorem secretsLoop_names {lines₁ lines₂ : List Bytes} (h : List.Forall₂ LinesAgree lines₁ lines₂)
    {tokens₁ tokens₂ rules₁ rules₂ : List AuthTokenRule}
    (htokens : tokens₁.map (·.name) = tokens₂.map (·.name))
    (h₁ : secretsLoop lines₁ tokens₁ = .ok rules₁) (h₂ : secretsLoop lines₂ tokens₂ = .ok rules₂) :
    rules₁.map (·.name) = rules₂.map (·.name) := by
  induction h generalizing tokens₁ tokens₂ with
  | nil =>
      obtain rfl := Except.ok.inj h₁
      obtain rfl := Except.ok.inj h₂
      exact htokens
  | cons hline _ ih =>
      rw [secretsLoop] at h₁ h₂
      split at h₁
      · cases h₁
      · next hline₁ =>
          split at h₂
          · cases h₂
          · exact ih htokens h₁ h₂
          · next hline₂ => cases hline.names hline₁ hline₂
      · next rule₁ hline₁ =>
          split at h₂
          · cases h₂
          · next hline₂ => cases hline.names hline₁ hline₂
          · next rule₂ hline₂ =>
              have hname := hline.names hline₁ hline₂
              refine ih ?_ h₁ h₂
              rw [List.map_append, List.map_append, htokens]
              simpa using hname

/-- Which name stands twice is a matter of the names. -/
theorem appendTokens_message {tokens₁ tokens₂ combined₁ combined₂ : List AuthTokenRule}
    {e₁ e₂ : Bytes} (htokens : tokens₁.map (·.name) = tokens₂.map (·.name))
    (hcombined : combined₁.map (·.name) = combined₂.map (·.name))
    (h₁ : appendTokens tokens₁ combined₁ = .error e₁)
    (h₂ : appendTokens tokens₂ combined₂ = .error e₂) : e₁ = e₂ := by
  induction tokens₁ generalizing tokens₂ combined₁ combined₂ with
  | nil => cases h₁
  | cons token₁ rest₁ ih =>
      cases tokens₂ with
      | nil => cases h₂
      | cons token₂ rest₂ =>
          have hname : token₁.name = token₂.name := (List.cons.inj htokens).1
          have hrest := (List.cons.inj htokens).2
          rw [appendTokens] at h₁ h₂
          rw [hname, hcombined] at h₁
          split at h₁
          · next hmem =>
              rw [if_pos hmem] at h₂
              exact (Except.error.inj h₁).symm.trans (Except.error.inj h₂)
          · next hmem =>
              rw [if_neg hmem] at h₂
              exact ih hrest (by rw [List.map_append, List.map_append, hcombined]; simp [hname])
                h₁ h₂

/-- Loading a file and combining it with the inline rules, as a reload does. -/
def loadAnswer (inlineTokens : List AuthTokenRule) (secretsFile : Bytes) (content : Option Bytes) :
    Except Bytes (List AuthTokenRule) :=
  match Auth.loadSecretsFile secretsFile content with
  | .error e => .error e
  | .ok rules => combineAndValidate inlineTokens rules

theorem combineAndValidate_message {inlineTokens rules₁ rules₂ : List AuthTokenRule}
    {e₁ e₂ : Bytes} (h : rules₁.map (·.name) = rules₂.map (·.name))
    (h₁ : combineAndValidate inlineTokens rules₁ = .error e₁)
    (h₂ : combineAndValidate inlineTokens rules₂ = .error e₂) : e₁ = e₂ := by
  rw [combineAndValidate] at h₁ h₂
  cases hinline : appendTokens inlineTokens [] with
  | error e =>
      rw [hinline] at h₁ h₂
      exact (Except.error.inj h₁).symm.trans (Except.error.inj h₂)
  | ok combined =>
      rw [hinline] at h₁ h₂
      exact appendTokens_message h rfl h₁ h₂

/-- The line a file is refused at. -/
def refusedAt (content : Option Bytes) : Nat := (content.map refusedLine).getD 0

/-- Two contents that agree up to their keys and are refused at the same line, with
the same sentence, are refused with the same words. -/
theorem load_message_eq {inlineTokens : List AuthTokenRule} {secretsFile : Bytes}
    {content₁ content₂ : Option Bytes} {e₁ e₂ : Bytes} (h : ContentsAgree content₁ content₂)
    (h₁ : loadAnswer inlineTokens secretsFile content₁ = .error e₁)
    (h₂ : loadAnswer inlineTokens secretsFile content₂ = .error e₂)
    (hline : refusedAt content₁ = refusedAt content₂)
    (hsentence : sentence e₁ = sentence e₂) : e₁ = e₂ := by
  cases h with
  | closed => exact Except.error.inj (h₁.symm.trans h₂)
  | @texts text₁ text₂ htexts =>
      have hlength := htexts.length_eq
      have hline : refusedLine text₁ = refusedLine text₂ := hline
      rw [refusedLine, refusedLine] at hline
      simp only [loadAnswer, Auth.loadSecretsFile] at h₁ h₂
      cases hload₁ : secretsLoop (getlines text₁) [] with
      | error e =>
          rw [hload₁] at h₁
          obtain rfl := Except.error.inj h₁
          obtain ⟨line₁, hget₁, hline₁⟩ := secretsLoop_error hload₁
          cases hload₂ : secretsLoop (getlines text₂) [] with
          | error e =>
              rw [hload₂] at h₂
              obtain rfl := Except.error.inj h₂
              obtain ⟨line₂, hget₂, hline₂⟩ := secretsLoop_error hload₂
              rw [← hline] at hget₂
              exact (forall₂_getElem? htexts hget₁ hget₂).message hline₁ hline₂ hsentence
          | ok rules =>
              have hbound := (List.getElem?_eq_some_iff.mp hget₁).1
              rw [hline, secretsLoop_ok hload₂] at hbound
              omega
      | ok rules₁ =>
          cases hload₂ : secretsLoop (getlines text₂) [] with
          | error e =>
              obtain ⟨line₂, hget₂, -⟩ := secretsLoop_error hload₂
              have hbound := (List.getElem?_eq_some_iff.mp hget₂).1
              rw [← hline, secretsLoop_ok hload₁] at hbound
              omega
          | ok rules₂ =>
              rw [hload₁] at h₁
              rw [hload₂] at h₂
              exact combineAndValidate_message (secretsLoop_names htexts rfl hload₁ hload₂) h₁ h₂

end HydrogenHttpd.Ref
