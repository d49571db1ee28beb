import HydrogenHttpd.Ref.TokenTool

/-!
# What the token tool keeps

`load_entries` accepts a file line by line. What it has accepted is `Kept`: the
preserved lines are white space, a comment, or white space in front of one, and
the dictionary holds entries that `serialize` writes in ASCII, under their own
names. Both commands keep it, and what they add is in the same form.

An expiry is the only value the tool takes in any length. It reads a number as
the text it is, and never as a number.
-/

namespace HydrogenHttpd.Ref

open Base

/-! ## The form of an entry -/

/-- A digit of a digest the tool writes. -/
def lowerHexDigit (c : Char) : Bool := asciiDigit c || ('a' ≤ c && c ≤ 'f')

/-- A text `expires` can be: `never`, or a number in decimal. -/
inductive ExpiryText : Text → Prop where
  | never : ExpiryText (text "never")
  | epoch {digits : Text} (hne : digits ≠ []) (hdigits : digits.all asciiDigit = true) :
      ExpiryText digits
  | negative {digits : Text} (hne : digits ≠ []) (hdigits : digits.all asciiDigit = true)
      (hpos : 0 < digitsValue (utf8 digits)) : ExpiryText ('-' :: digits)

/-- An entry as `serialize` can write it. -/
structure ValidEntry (e : TokenEntry) : Prop where
  name_ne : e.name ≠ []
  name : e.name.all nameChar = true
  digest_length : e.digest.length = 64
  digest : e.digest.all lowerHexDigit = true
  scopes_ne : e.scopes ≠ []
  scope_ne : ∀ scope ∈ e.scopes, scope ≠ []
  scope : ∀ scope ∈ e.scopes, scope.all scopeChar = true
  scope_lower : ∀ scope ∈ e.scopes, lower scope = scope
  expires : ExpiryText e.expires

/-- A line `load_entries` preserves. -/
structure PreservedLine (raw : Text) : Prop where
  unbroken : ∀ c ∈ raw, lineBreak c = false
  front : ∀ c ∈ raw.takeWhile (· ≠ '#'), textSpace c = true

/-- What `load_entries` answers. -/
structure Kept (preserved : List Text) (entries : TokenEntries) : Prop where
  lines : ∀ raw ∈ preserved, PreservedLine raw
  valid : ∀ p ∈ entries, p.1 = p.2.name ∧ ValidEntry p.2
  names : (entries.map (·.1)).Nodup

/-! ## Characters -/

theorem lt_of_hexDigit {c : Char} (h : hexDigit c = true) : c.toNat < 128 := by
  simp only [hexDigit, asciiDigit, Bool.or_eq_true, Bool.and_eq_true, decide_eq_true_eq] at h
  rcases h with (h | h) | h
  · exact Nat.lt_of_le_of_lt (show c.toNat ≤ 57 from h.2) (by decide)
  · exact Nat.lt_of_le_of_lt (show c.toNat ≤ 70 from h.2) (by decide)
  · exact Nat.lt_of_le_of_lt (show c.toNat ≤ 102 from h.2) (by decide)

theorem lt_of_scopeChar {c : Char} (h : scopeChar c = true) : c.toNat < 128 := by
  simp only [scopeChar, nameChar, asciiAlnum, asciiDigit, Bool.or_eq_true, Bool.and_eq_true,
    decide_eq_true_eq, beq_iff_eq] at h
  rcases h with (((((h | h) | h) | rfl) | rfl) | rfl) | rfl
  · exact Nat.lt_of_le_of_lt (show c.toNat ≤ 57 from h.2) (by decide)
  · exact Nat.lt_of_le_of_lt (show c.toNat ≤ 90 from h.2) (by decide)
  · exact Nat.lt_of_le_of_lt (show c.toNat ≤ 122 from h.2) (by decide)
  all_goals decide

theorem lowerChar_idem (c : Char) : lowerChar (lowerChar c) = lowerChar c := by
  by_cases hc : c.toNat < 128
  · exact forall_ascii (p := fun c => lowerChar (lowerChar c) = lowerChar c) (by decide) hc
  · have hup : ¬ ('A' ≤ c ∧ c ≤ 'Z') := fun h =>
      hc (Nat.lt_of_le_of_lt (show c.toNat ≤ 90 from h.2) (by decide))
    by_cases hk : c.toNat = 0x212a
    · rw [show lowerChar c = 'k' by rw [lowerChar, if_neg hup, if_pos hk]]
      decide
    · have hself : lowerChar c = c := by rw [lowerChar, if_neg hup, if_neg hk]
      rw [hself, hself]

theorem lower_idem (s : Text) : lower (lower s) = lower s := by
  simp [lower, lowerChar_idem]

theorem lower_of_digits {s : Text} (h : s.all asciiDigit = true) : lower s = s := by
  rw [List.all_eq_true] at h
  rw [lower]
  conv => rhs; rw [← List.map_id s]
  refine List.map_congr_left fun c hc => ?_
  have hdigit : hexDigit c = true := by simp [hexDigit, h c hc]
  exact forall_ascii (p := fun c => asciiDigit c = true → lowerChar c = id c) (by decide)
    (lt_of_hexDigit hdigit) (h c hc)

/-- Lowering a hexadecimal digit gives one of those the tool writes. -/
theorem lowerHexDigit_lowerChar {c : Char} (h : hexDigit c = true) :
    lowerHexDigit (lowerChar c) = true :=
  forall_ascii (p := fun c => hexDigit c = true → lowerHexDigit (lowerChar c) = true)
    (by decide) (lt_of_hexDigit h) h

/-! ## Scopes and the expression -/

theorem lower_eq_nil_iff {s : Text} : lower s = [] ↔ s = [] := List.map_eq_nil_iff

theorem parseScopes_ok {value : Text} {scopes : List Text}
    (h : parseScopes value = .ok scopes) :
    scopes ≠ [] ∧ (∀ scope ∈ scopes, scope ≠ []) ∧
      (∀ scope ∈ scopes, scope.all scopeChar = true) ∧
        ∀ scope ∈ scopes, lower scope = scope := by
  simp only [parseScopes] at h
  split at h
  · cases h
  · next hne =>
      split at h
      · cases h
      · next hall =>
          obtain rfl := Except.ok.inj h
          refine ⟨hne, ?_, ?_, ?_⟩
          · intro scope hscope
            obtain ⟨piece, hpiece, rfl⟩ := List.mem_map.mp hscope
            rw [ne_eq, lower_eq_nil_iff]
            simpa using (List.mem_filter.mp hpiece).2
          · intro scope hscope
            by_contra hbad
            exact hall (List.any_eq_true.mpr ⟨scope, hscope, by simpa using hbad⟩)
          · intro scope hscope
            obtain ⟨piece, -, rfl⟩ := List.mem_map.mp hscope
            exact lower_idem _

theorem validateName_ok {name value : Text} (h : validateName name = .ok value) :
    value = strip name ∧ value ≠ [] ∧ value.all nameChar = true := by
  rw [validateName] at h
  split at h
  · next hok =>
      obtain rfl := Except.ok.inj h
      exact ⟨rfl, hok⟩
  · cases h

/-- What the groups of `TOKEN_RE` can be. -/
theorem matchToken_some {raw name digest scopes expires : Text}
    (h : matchToken raw = some (name, digest, scopes, expires)) :
    (name ≠ [] ∧ name.all nameChar = true) ∧
      (digest.length = 64 ∧ digest.all hexDigit = true) ∧
        (expires = text "never" ∨ expires ≠ [] ∧ expires.all asciiDigit = true) := by
  simp only [matchToken, Option.bind_eq_bind, Option.bind_eq_some_iff] at h
  obtain ⟨front, -, _, hname, _, -, tail, -, _, hdigest, _, -, _, -, last, -, _, hexpires,
    hgroups⟩ := h
  obtain ⟨rfl, rfl, -, rfl⟩ : _ ∧ _ ∧ _ ∧ _ := by simpa using hgroups
  refine ⟨⟨(Option.guard_eq_some' _).mp hname, List.all_eq_true.mpr fun c hc => ?_⟩,
    (Option.guard_eq_some' _).mp hdigest, (Option.guard_eq_some' _).mp hexpires⟩
  exact List.mem_takeWhile_imp hc

/-! ## Lines -/

/-- A line that is white space, or a comment behind white space, is white space
up to its comment. -/
theorem space_before_comment {raw : Text}
    (h : strip raw = [] ∨ (text "#").isPrefixOf (strip raw) = true) :
    ∀ c ∈ raw.takeWhile (· ≠ '#'), textSpace c = true := by
  rcases h with h | h
  · have hblank := strip_eq_nil_iff.mp h
    rw [blank, List.all_eq_true] at hblank
    exact fun c hc => hblank c ((List.takeWhile_sublist _).mem hc)
  · -- behind the white space in front comes the comment
    obtain ⟨v, hv⟩ := List.isPrefixOf_iff_prefix.mp h
    obtain ⟨w, hw⟩ := List.rdropWhile_prefix textSpace (raw.dropWhile textSpace)
    have hdrop : raw.dropWhile textSpace = '#' :: (v ++ w) := by
      rw [← hw]
      change strip raw ++ w = _
      rw [← hv]
      rfl
    have hraw : raw = raw.takeWhile textSpace ++ '#' :: (v ++ w) := by
      rw [← hdrop, List.takeWhile_append_dropWhile]
    have hfront : ∀ c ∈ raw.takeWhile textSpace, textSpace c = true := fun c hc =>
      List.mem_takeWhile_imp hc
    intro c hc
    rw [hraw, List.takeWhile_append_of_pos fun c hc => ?_, List.takeWhile_cons_of_neg (by simp),
      List.append_nil] at hc
    · exact hfront c hc
    · have hspace := hfront c hc
      rw [decide_eq_true_eq]
      rintro rfl
      exact absurd hspace (by decide)

theorem ExpiryText.of_group {expires : Text}
    (h : expires = text "never" ∨ expires ≠ [] ∧ expires.all asciiDigit = true) :
    ExpiryText (lower expires) := by
  rcases h with rfl | ⟨hne, hdigits⟩
  · exact (show lower (text "never") = text "never" by decide) ▸ .never
  · rw [lower_of_digits hdigits]
    exact .epoch hne hdigits

theorem Kept.put {preserved : List Text} {entries : TokenEntries} (h : Kept preserved entries)
    {e : TokenEntry} (he : ValidEntry e) : Kept preserved (put e.name e entries) where
  lines := h.lines
  valid := fun p hp => by
    rcases mem_put hp with rfl | hold
    · exact ⟨rfl, he⟩
    · exact h.valid p hold
  names := nodup_keys_put h.names

/-- Every line that is accepted keeps what has been read in this form. -/
theorem loadLine_kept {path raw : Text} {lineNumber : Nat} {preserved preserved' : List Text}
    {entries entries' : TokenEntries} (hraw : ∀ c ∈ raw, lineBreak c = false)
    (hkept : Kept preserved entries)
    (h : loadLine path lineNumber raw preserved entries = .ok (preserved', entries')) :
    Kept preserved' entries' := by
  simp only [loadLine] at h
  split at h
  · next hcomment =>
      obtain ⟨rfl, rfl⟩ := Prod.mk.inj (Except.ok.inj h)
      refine ⟨fun line hline => ?_, hkept.valid, hkept.names⟩
      rcases List.mem_append.mp hline with hline | hline
      · exact hkept.lines line hline
      · obtain rfl := List.mem_singleton.mp hline
        exact ⟨hraw, space_before_comment hcomment⟩
  · split at h
    · cases h
    · next name digest scopesText expires hmatch =>
        split at h
        · cases h
        · split at h
          · cases h
          · next scopes hscopes =>
              obtain ⟨rfl, rfl⟩ := Prod.mk.inj (Except.ok.inj h)
              obtain ⟨hname, hdigest, hexpires⟩ := matchToken_some hmatch
              obtain ⟨hne, hempty, hchars, hlower⟩ := parseScopes_ok hscopes
              exact hkept.put (e := ⟨name, lower digest, scopes, lower expires⟩)
                { name_ne := hname.1
                  name := hname.2
                  digest_length := by simpa [lower] using hdigest.1
                  digest := by
                    rw [List.all_eq_true]
                    intro d hd
                    obtain ⟨c, hc, rfl⟩ := List.mem_map.mp hd
                    exact lowerHexDigit_lowerChar (List.all_eq_true.mp hdigest.2 c hc)
                  scopes_ne := hne
                  scope_ne := hempty
                  scope := hchars
                  scope_lower := hlower
                  expires := .of_group hexpires }

theorem loadLoop_kept {path : Text} {lines : List Text} {lineNumber : Nat}
    {preserved preserved' : List Text} {entries entries' : TokenEntries}
    (hlines : ∀ raw ∈ lines, ∀ c ∈ raw, lineBreak c = false) (hkept : Kept preserved entries)
    (h : loadLoop path lineNumber lines preserved entries = .ok (preserved', entries')) :
    Kept preserved' entries' := by
  induction lines generalizing lineNumber preserved entries with
  | nil =>
      obtain ⟨rfl, rfl⟩ := Prod.mk.inj (Except.ok.inj h)
      exact hkept
  | cons raw lines ih =>
      rw [loadLoop] at h
      split at h
      · cases h
      · next preserved₁ entries₁ hline =>
          have hkept₁ := loadLine_kept (hlines raw List.mem_cons_self) hkept hline
          exact ih (fun r hr => hlines r (List.mem_cons_of_mem _ hr)) hkept₁ h

/-- Whatever `load_entries` accepts is in this form. -/
theorem loadEntries_kept {path : Text} {file : Option Text} {preserved : List Text}
    {entries : TokenEntries} (h : loadEntries path file = .ok (preserved, entries)) :
    Kept preserved entries := by
  have hnone : Kept [] [] := ⟨by simp, by simp, by simp⟩
  cases file with
  | none =>
      obtain ⟨rfl, rfl⟩ := Prod.mk.inj (Except.ok.inj h)
      exact hnone
  | some content =>
      exact loadLoop_kept (fun raw hraw c hc => lineBreak_of_mem_splitlines hraw hc) hnone h

/-! ## Commands -/

/-- The bytes `hex8` writes are the digits the tool writes. -/
theorem lowerHexDigit_of_mem_hex8 {w : UInt32} {b : UInt8} (h : b ∈ hex8 w) :
    b.toNat < 128 ∧ lowerHexDigit (Char.ofNat b.toNat) = true := by
  obtain ⟨shift, -, rfl⟩ := List.mem_map.mp h
  have hall : ∀ digit < 16,
      (UInt8.ofNat (if digit < 10 then 48 + digit else 87 + digit)).toNat < 128 ∧
        lowerHexDigit (Char.ofNat
          (UInt8.ofNat (if digit < 10 then 48 + digit else 87 + digit)).toNat) = true := by
    decide
  exact hall _ (Nat.mod_lt _ (by decide))

theorem lowerHexDigit_hexdigest (plaintext : Text) :
    (hexdigest plaintext).all lowerHexDigit = true := by
  rw [List.all_eq_true]
  intro c hc
  obtain ⟨b, hb, rfl⟩ := List.mem_map.mp hc
  obtain ⟨w, -, hw⟩ := List.mem_flatMap.mp hb
  exact (lowerHexDigit_of_mem_hex8 hw).2

theorem length_hexdigest (plaintext : Text) : (hexdigest plaintext).length = 64 := by
  simp [hexdigest, Auth.sha256Hex, hex8]

theorem asciiDigit_of_mem_toDigits {n : Nat} : (Nat.toDigits 10 n).all asciiDigit = true := by
  rw [List.all_eq_true]
  intro c hc
  have hdigit := Nat.isDigit_of_mem_toDigits (by decide) (by decide) hc
  simpa [Char.isDigit, asciiDigit, Char.le_def] using hdigit

theorem lt_of_asciiDigit {c : Char} (h : asciiDigit c = true) : c.toNat < 128 :=
  lt_of_hexDigit (by simp [hexDigit, h])

/-- The digits of a number are written as `std::to_string` writes them. -/
theorem utf8_toDigits (n : Nat) : utf8 (Nat.toDigits 10 n) = decimal n :=
  utf8_of_ascii (ascii_of_all (fun _ => lt_of_asciiDigit) asciiDigit_of_mem_toDigits)

/-- The expiry `rotate` writes. -/
theorem expiryText_intText {n : Int} (hn : n ≠ 0) : ExpiryText (intText n) := by
  have hne : Nat.toDigits 10 n.natAbs ≠ [] := Nat.toDigits_ne_nil
  rw [intText]
  split
  · refine .negative hne asciiDigit_of_mem_toDigits ?_
    rw [utf8_toDigits, digitsValue_decimal]
    exact Int.natAbs_pos.mpr hn
  · exact .epoch hne asciiDigit_of_mem_toDigits

theorem change_kept {preserved : List Text} {entries entries' : TokenEntries}
    {command : TokenCommand} (hkept : Kept preserved entries)
    (h : command.change entries = .ok entries') : Kept preserved entries' := by
  cases command with
  | rotate name scopes tokenBytes ttlDays plaintext now =>
      simp only [TokenCommand.change, commandRotate] at h
      split at h
      · cases h
      · next value hvalue =>
          split at h
          · cases h
          · next scopes' hscopes =>
              split at h
              · cases h
              · split at h
                · cases h
                · obtain rfl := Except.ok.inj h
                  obtain ⟨-, hne, hname⟩ := validateName_ok hvalue
                  obtain ⟨hscopesNe, hempty, hchars, hlower⟩ := parseScopes_ok hscopes
                  refine hkept.put (e := ⟨value, hexdigest plaintext, scopes', _⟩)
                    ⟨hne, hname, length_hexdigest plaintext, lowerHexDigit_hexdigest plaintext,
                      hscopesNe, hempty, hchars, hlower, ?_⟩
                  by_cases hepoch : (if ttlDays = 0 then 0 else now + ttlDays * 86400) = 0
                  · rw [if_pos hepoch]
                    exact .never
                  · rw [if_neg hepoch]
                    exact expiryText_intText hepoch
  | revoke name =>
      simp only [TokenCommand.change, commandRevoke] at h
      split at h
      · cases h
      · split at h
        · cases h
        · obtain rfl := Except.ok.inj h
          exact ⟨hkept.lines, fun p hp => hkept.valid p (List.mem_filter.mp hp).1,
            hkept.names.sublist ((List.filter_sublist).map _)⟩

/-- What a command writes is made of what `load_entries` accepted and the
command's own entry. -/
theorem runCommand_ok {path : Text} {file : Option Text} {command : TokenCommand}
    {step : TokenStep} (h : runCommand path file command = .ok step) :
    ∃ preserved entries, loadEntries path file = .ok (preserved, entries) ∧
      command.change entries = .ok step.entries ∧
      step.written = atomicWrite preserved step.entries ∧ step.before = file ∧
      step.command = command := by
  rw [runCommand] at h
  split at h
  · cases h
  · next preserved entries hload =>
      split at h
      · cases h
      · next changed hchange =>
          obtain rfl := Except.ok.inj h
          exact ⟨preserved, entries, hload, hchange, rfl, rfl, rfl⟩

/-- Every step of a run is one run of the script on the file it found. -/
theorem mem_runCommands {path : Text} {file : Option Text} {commands : List TokenCommand}
    {steps : List TokenStep} (h : runCommands path file commands = .ok steps) :
    ∀ step ∈ steps, runCommand path step.before step.command = .ok step := by
  induction commands generalizing file steps with
  | nil =>
      obtain rfl := Except.ok.inj h
      simp
  | cons command commands ih =>
      rw [runCommands] at h
      split at h
      · cases h
      · next first hfirst =>
          split at h
          · cases h
          · next rest hrest =>
              obtain rfl := Except.ok.inj h
              intro step hstep
              rcases List.mem_cons.mp hstep with rfl | hstep
              · obtain ⟨_, _, _, _, _, hbefore, hcommand⟩ := runCommand_ok hfirst
                rw [hbefore, hcommand, hfirst]
              · exact ih hrest step hstep

end HydrogenHttpd.Ref
