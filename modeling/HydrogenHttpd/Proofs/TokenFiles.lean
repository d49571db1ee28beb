import HydrogenHttpd.Proofs.AuthStore
import HydrogenHttpd.Proofs.TokenEntries

/-!
# The token tool and the server read the same file

The tool writes the lines it preserved and a line for every entry, and the
server reads the bytes of that. Line by line: an entry is read as its own rule,
unless its expiry is a number the server has no room for
(`secretsLine_serialize`); a preserved line is read as nothing, unless what
stands in front of its comment is white space for the script and not for the
server (`secretsLine_preserved`). Nothing else can go wrong, and the
two conditions together are exactly when the server reads the file as the
dictionary (`served_iff`).
-/

namespace HydrogenHttpd.Ref

open Base

/-! ## What the file says -/

/-- The expiry a text denotes, zero for none. -/
def denotedExpiry (expires : Text) : Int :=
  if expires = text "never" then 0
  else if expires.head? = some '-' then -(digitsValue (utf8 expires.tail) : Int)
  else digitsValue (utf8 expires)

/-- The rule an entry stands for. -/
def TokenEntry.rule (e : TokenEntry) : AuthTokenRule :=
  { name := utf8 e.name
    sha256Hex := utf8 e.digest
    scopes := e.scopes.map utf8
    expiresAtEpoch := denotedExpiry e.expires }

/-- The server accepts the file and has one rule for each entry of the
dictionary, under its lower-case digest, and no other. -/
def Served (secretsFile : Bytes) (entries : TokenEntries) (written : Text) : Prop :=
  (∀ p ∈ entries, lower p.2.digest = p.2.digest) ∧
    ∃ rules, Auth.loadSecretsFile secretsFile (some (utf8 written)) = .ok rules ∧
      combineAndValidate [] rules = .ok rules ∧ rules.Perm (entries.map (·.2.rule))

/-- An expiry the server has room for. -/
def ExpiryFits (epoch : Int) : Prop := 0 ≤ epoch ∧ epoch < 2 ^ 63

/-- Only spaces and tabs stand in front of a line's comment. -/
def CommentReadable (raw : Text) : Prop := ∀ c ∈ raw.takeWhile (· ≠ '#'), c = ' ' ∨ c = '\t'

instance (epoch : Int) : Decidable (ExpiryFits epoch) :=
  inferInstanceAs (Decidable (_ ∧ _))

instance (raw : Text) : Decidable (CommentReadable raw) :=
  inferInstanceAs (Decidable (∀ c ∈ _, _))

/-! ## Preserved lines -/

theorem not_mem_front (raw : Text) : (35 : UInt8) ∉ utf8 (raw.takeWhile (· ≠ '#')) := fun h => by
  have hmem := (mem_utf8_iff (c := '#') (by decide)).mp h
  simpa using List.mem_takeWhile_imp hmem

theorem comment_split (raw : Text) :
    raw.takeWhile (· ≠ '#') = raw ∨
      ∃ comment, raw = raw.takeWhile (· ≠ '#') ++ '#' :: comment := by
  cases hrest : raw.dropWhile (· ≠ '#') with
  | nil =>
      left
      conv => rhs; rw [← List.takeWhile_append_dropWhile (p := (· ≠ '#')) (l := raw), hrest]
      simp
  | cons d comment =>
      right
      have hd : d = '#' := by
        have hhead := List.head?_dropWhile_not (· ≠ '#') raw
        rw [hrest] at hhead
        simpa using hhead
      refine ⟨comment, ?_⟩
      conv => lhs; rw [← List.takeWhile_append_dropWhile (p := (· ≠ '#')) (l := raw), hrest, hd]

/-- The server looks at a line up to its comment. -/
theorem secretsLine_front (raw : Text) :
    secretsLine (utf8 raw) = secretsLine (utf8 (raw.takeWhile (· ≠ '#'))) := by
  have hfront := not_mem_front raw
  rcases comment_split raw with hraw | ⟨comment, hraw⟩
  · rw [hraw]
  · have hbytes : utf8 raw = utf8 (raw.takeWhile (· ≠ '#')) ++ 35 :: utf8 comment := by
      conv => lhs; rw [hraw]
      rw [utf8_append]
      rfl
    have htake : (utf8 raw).take (utf8 (raw.takeWhile (· ≠ '#'))).length =
        utf8 (raw.takeWhile (· ≠ '#')) := by
      rw [hbytes, List.take_left]
    simp only [secretsLine]
    rw [find?_elem_eq_none.mpr hfront, hbytes, find?_elem_append hfront, ← hbytes]
    simp only [htake]

theorem isSpace_utf8_of_blank {u : Text} (h : ∀ c ∈ u, c = ' ' ∨ c = '\t') :
    ∀ b ∈ utf8 u, isSpace b = true := by
  intro b hb
  obtain ⟨c, hc, hbc⟩ := List.mem_flatMap.mp hb
  rcases h c hc with rfl | rfl
  · rw [List.mem_singleton.mp hbc]
    rfl
  · rw [List.mem_singleton.mp hbc]
    rfl

/-- White space the server does not know has a byte that is none. -/
theorem exists_not_isSpace {c : Char} (hspace : textSpace c = true) (hbreak : lineBreak c = false)
    (hblank : ¬ (c = ' ' ∨ c = '\t')) :
    ∃ b ∈ String.utf8EncodeChar c, isSpace b = false := by
  by_cases hc : c.toNat < 128
  · have hall : ∀ n < 128, textSpace (Char.ofNat n) = true → lineBreak (Char.ofNat n) = false →
        ¬ (Char.ofNat n = ' ' ∨ Char.ofNat n = '\t') → isSpace (UInt8.ofNat n) = false := by
      decide
    refine ⟨UInt8.ofNat c.toNat, by rw [utf8EncodeChar_low hc]; exact List.mem_singleton_self _, ?_⟩
    have := hall c.toNat hc
    rw [Char.ofNat_toNat] at this
    exact this hspace hbreak hblank
  · obtain ⟨b, hb⟩ : ∃ b, b ∈ String.utf8EncodeChar c :=
      List.exists_mem_of_ne_nil _ (by
        intro hnil
        have := utf8_eq_nil_iff (s := [c])
        simp [utf8, hnil] at this)
    refine ⟨b, hb, ?_⟩
    have hhigh := utf8EncodeChar_high (Nat.le_of_not_lt hc) hb
    simp only [isSpace, Bool.or_eq_false_iff, Bool.and_eq_false_iff, beq_eq_false_iff_ne,
      decide_eq_false_iff_not, UInt8.le_iff_toNat_le, ne_eq, ← UInt8.toNat_inj]
    simp only [UInt8.reduceToNat]
    omega

/-- A preserved line is read as nothing, or refused. -/
theorem secretsLine_preserved {raw : Text} (h : PreservedLine raw)
    {rule : Option AuthTokenRule} :
    secretsLine (utf8 raw) = .ok rule ↔ CommentReadable raw ∧ rule = none := by
  rw [secretsLine_front, secretsLine, find?_elem_eq_none.mpr (not_mem_front raw)]
  by_cases hread : CommentReadable raw
  · have htrim : trim (utf8 (raw.takeWhile (· ≠ '#'))) = [] :=
      trimWith_eq_nil_iff.mpr (isSpace_utf8_of_blank hread)
    simp only [htrim, if_true]
    constructor
    · intro hok
      exact ⟨hread, (Except.ok.inj hok).symm⟩
    · rintro ⟨-, rfl⟩
      rfl
  · have hbad : ∃ c ∈ raw.takeWhile (· ≠ '#'), ¬ (c = ' ' ∨ c = '\t') := by
      simpa only [CommentReadable, not_forall, exists_prop] using hread
    obtain ⟨c, hc, hblank⟩ := hbad
    obtain ⟨b, hb, hbspace⟩ := exists_not_isSpace (h.front c hc)
      (h.unbroken c ((List.takeWhile_sublist _).mem hc)) hblank
    have htrim : trim (utf8 (raw.takeWhile (· ≠ '#'))) ≠ [] := fun hnil => by
      rw [trimWith_eq_nil_iff.mp hnil b (List.mem_flatMap.mpr ⟨c, hc, hb⟩)] at hbspace
      cases hbspace
    -- no white space is an equals sign
    have hequals : (61 : UInt8) ∉ trim (utf8 (raw.takeWhile (· ≠ '#'))) := fun hmem => by
      have hmem' := (mem_utf8_iff (c := '=') (by decide)).mp (mem_of_mem_trimWith hmem)
      exact absurd (h.front '=' hmem') (by decide)
    simp only [if_neg htrim]
    rw [find?_elem_eq_none.mpr hequals]
    constructor
    · intro hok
      cases hok
    · rintro ⟨hok, -⟩
      exact absurd hok hread

/-! ## The line of an entry -/

/-- A byte that neither separates nor ends anything in a rule's line. -/
def PlainByte (b : UInt8) : Prop :=
  isSpace b = false ∧ b ≠ 35 ∧ b ≠ 44 ∧ b ≠ 61 ∧ b ≠ 124

instance (b : UInt8) : Decidable (PlainByte b) := inferInstanceAs (Decidable (_ ∧ _))

theorem plainByte_of_scopeChar {s : Text} (h : s.all scopeChar = true) :
    ∀ b ∈ utf8 s, PlainByte b :=
  forall_mem_utf8 (fun _ => lt_of_scopeChar) (by decide) h

theorem all_scopeChar {p : Char → Bool} (hlow : ∀ c, p c = true → c.toNat < 128)
    (h : ∀ n < 128, p (Char.ofNat n) = true → scopeChar (Char.ofNat n) = true) {s : Text}
    (hs : s.all p = true) : s.all scopeChar = true := by
  rw [List.all_eq_true] at hs ⊢
  intro c hc
  exact forall_ascii (p := fun c => p c = true → scopeChar c = true) h (hlow c (hs c hc)) (hs c hc)

theorem lt_of_nameChar {c : Char} (h : nameChar c = true) : c.toNat < 128 :=
  lt_of_scopeChar (by simp [scopeChar, h])

theorem lt_of_lowerHexDigit {c : Char} (h : lowerHexDigit c = true) : c.toNat < 128 := by
  refine lt_of_hexDigit ?_
  simp only [lowerHexDigit, Bool.or_eq_true] at h
  rcases h with h | h
  · simp [hexDigit, h]
  · simp only [Bool.and_eq_true, decide_eq_true_eq] at h
    simp [hexDigit, h]

theorem ExpiryText.scopeChars {expires : Text} (h : ExpiryText expires) :
    expires.all scopeChar = true := by
  cases h with
  | never => decide
  | epoch _ hdigits => exact all_scopeChar (fun _ => lt_of_asciiDigit) (by decide) hdigits
  | negative _ hdigits _ =>
      rw [List.all_cons, all_scopeChar (fun _ => lt_of_asciiDigit) (by decide) hdigits]
      decide

theorem ExpiryText.ne_nil {expires : Text} (h : ExpiryText expires) : expires ≠ [] := by
  cases h with
  | never => decide
  | epoch hne _ => exact hne
  | negative _ _ _ => simp

/-- Trimming takes blanks from around a text that holds none. -/
theorem trim_unspaced {l s r : Bytes} (hl : ∀ b ∈ l, isSpace b = true)
    (hr : ∀ b ∈ r, isSpace b = true) (hs : ∀ b ∈ s, isSpace b = false) :
    trim (l ++ s ++ r) = s :=
  trimWith_surrounded hl hr (fun b hb => hs b (List.mem_of_mem_head? hb))
    fun b hb => hs b (List.mem_of_mem_getLast? hb)

theorem trim_word {s : Bytes} (hs : ∀ b ∈ s, PlainByte b) : trim s = s := by
  simpa using trim_unspaced (l := []) (r := []) (by simp) (by simp) fun b hb => (hs b hb).1

theorem lowercase_utf8 {s : Text} (hall : s.all scopeChar = true) (hlower : lower s = s) :
    lowercase (utf8 s) = utf8 s := by
  have hself : ∀ c ∈ s, lowerChar c = c := by
    have hmap : s.map lowerChar = s.map id := by rw [List.map_id]; exact hlower
    exact fun c hc => List.map_inj_left.mp hmap c hc
  rw [utf8_of_ascii (ascii_of_all (fun _ => lt_of_scopeChar) hall), lowercase, List.map_map]
  refine List.map_congr_left fun c hc => ?_
  exact forall_ascii
    (p := fun c => lowerChar c = c → toLower (UInt8.ofNat c.toNat) = UInt8.ofNat c.toNat)
    (by decide) (lt_of_scopeChar (List.all_eq_true.mp hall c hc)) (hself c hc)

theorem lower_digest {s : Text} (h : s.all lowerHexDigit = true) : lower s = s := by
  rw [List.all_eq_true] at h
  rw [lower]
  conv => rhs; rw [← List.map_id s]
  refine List.map_congr_left fun c hc => ?_
  exact forall_ascii (p := fun c => lowerHexDigit c = true → lowerChar c = id c) (by decide)
    (lt_of_lowerHexDigit (h c hc)) (h c hc)

theorem isHex64_utf8 {s : Text} (hlength : s.length = 64) (h : s.all lowerHexDigit = true) :
    isHex64 (utf8 s) = true := by
  have hascii := ascii_of_all (fun _ => lt_of_lowerHexDigit) h
  have hbytes : ∀ b ∈ utf8 s, isXDigit b = true :=
    forall_mem_utf8 (fun _ => lt_of_lowerHexDigit) (by decide) h
  simp only [isHex64, Bool.and_eq_true, beq_iff_eq, List.all_eq_true]
  exact ⟨by rw [utf8_of_ascii hascii, List.length_map, hlength], hbytes⟩

theorem ExpiryText.lower_eq {expires : Text} (h : ExpiryText expires) :
    lower expires = expires := by
  cases h with
  | never => decide
  | epoch _ hdigits => exact lower_of_digits hdigits
  | negative _ hdigits _ =>
      rw [lower, List.map_cons]
      exact congrArg _ (lower_of_digits hdigits)

/-- What `parseExpiry` reads is the text as it stands. -/
theorem ExpiryText.normalized {expires : Text} (h : ExpiryText expires) :
    lowercase (trim (utf8 expires)) = utf8 expires := by
  rw [trim_word (plainByte_of_scopeChar h.scopeChars), lowercase_utf8 h.scopeChars h.lower_eq]

theorem isDigit_utf8 {digits : Text} (h : digits.all asciiDigit = true) :
    ∀ b ∈ utf8 digits, isDigit b = true :=
  forall_mem_utf8 (fun _ => lt_of_asciiDigit) (by decide) h

theorem denotedExpiry_digits {digits : Text} (h : digits.all asciiDigit = true) :
    denotedExpiry digits = digitsValue (utf8 digits) := by
  have hnever : digits ≠ text "never" := by
    rintro rfl
    exact absurd h (by decide)
  have hminus : digits.head? ≠ some '-' := fun hhead =>
    absurd (List.all_eq_true.mp h '-' (List.mem_of_mem_head? hhead)) (by decide)
  rw [denotedExpiry, if_neg hnever, if_neg hminus]

theorem denotedExpiry_negative (digits : Text) :
    denotedExpiry ('-' :: digits) = -(digitsValue (utf8 digits) : Int) := by
  have hnever : '-' :: digits ≠ text "never" := fun h => absurd (List.cons.inj h).1 (by decide)
  rw [denotedExpiry, if_neg hnever, if_pos (List.head?_cons ..), List.tail_cons]

/-- The expiry `rotate` writes denotes the time it was made from. -/
theorem denotedExpiry_intText {n : Int} : denotedExpiry (intText n) = n := by
  rw [intText]
  split
  · next hneg =>
      rw [denotedExpiry_negative, utf8_toDigits, digitsValue_decimal]
      omega
  · next hpos =>
      rw [denotedExpiry_digits asciiDigit_of_mem_toDigits, utf8_toDigits, digitsValue_decimal]
      omega

/-- An expiry is read as what it denotes, where there is room for it. -/
theorem parseExpiry_utf8 {expires : Text} (h : ExpiryText expires) {epoch : Int} :
    parseExpiry (utf8 expires) = .ok epoch ↔
      ExpiryFits (denotedExpiry expires) ∧ epoch = denotedExpiry expires := by
  simp only [parseExpiry]
  rw [h.normalized]
  cases h with
  | never =>
      rw [show utf8 (text "never") = bytes "never" from rfl, if_pos (by simp),
        show denotedExpiry (text "never") = 0 from rfl]
      simp [ExpiryFits, eq_comm]
  | epoch hne hdigits =>
      have hbytes := isDigit_utf8 hdigits
      have hsome : utf8 expires ≠ [] := fun hnil => hne (utf8_eq_nil_iff.mp hnil)
      have hnever : utf8 expires ≠ bytes "never" := fun heq =>
        absurd (hbytes 110 (by rw [heq]; decide)) (by decide)
      rw [denotedExpiry_digits hdigits]
      by_cases hzero : utf8 expires = bytes "0"
      · rw [if_pos (Or.inr (Or.inl hzero)), hzero,
          show digitsValue (bytes "0") = 0 by decide]
        simp [ExpiryFits, eq_comm]
      · rw [if_neg (by simp [hsome, hzero, hnever]), stoll,
          readDecimal_of_digits hsome hbytes]
        simp only [signedValue, ExpiryFits]
        by_cases hfits : digitsValue (utf8 expires) < 2 ^ 63
        · rw [if_neg (by simp), if_pos hfits]
          simp only [Option.map_some, ne_eq, not_true_eq_false, false_or]
          rw [if_neg (by omega), Except.ok.injEq, eq_comm]
          exact ⟨fun heq => ⟨⟨by omega, by omega⟩, heq⟩, fun heq => heq.2⟩
        · rw [if_neg (by simp), if_neg hfits]
          simp only [Option.map_none, reduceCtorEq, false_iff, not_and]
          omega
  | @negative digits hne hdigits hpos =>
      have hsome : utf8 digits ≠ [] := fun hnil => hne (utf8_eq_nil_iff.mp hnil)
      have hutf8 : utf8 ('-' :: digits) = 45 :: utf8 digits := rfl
      have hother : ¬ (45 :: utf8 digits = [] ∨ 45 :: utf8 digits = bytes "0" ∨
          45 :: utf8 digits = bytes "never") := by
        rintro (h | h | h)
        · cases h
        · exact absurd (List.cons.inj h).1 (by decide)
        · exact absurd (List.cons.inj h).1 (by decide)
      rw [denotedExpiry_negative, hutf8, if_neg hother, stoll,
        readDecimal_of_minus hsome (isDigit_utf8 hdigits)]
      simp only [signedValue, ExpiryFits]
      constructor
      · -- a number below zero is refused, whether there is room for it or not
        intro hok
        split at hok
        · cases hok
        · next parsed rest hread =>
            rw [if_pos trivial] at hread
            split at hread
            · obtain ⟨rfl, rfl⟩ := Prod.mk.inj (Option.some.inj hread)
              rw [if_pos (Or.inr (by omega))] at hok
              cases hok
            · cases hread
      · rintro ⟨⟨hnonneg, -⟩, -⟩
        omega

theorem split_bar {a b c : Bytes} (ha : (124 : UInt8) ∉ a) (hb : (124 : UInt8) ∉ b)
    (hc : (124 : UInt8) ∉ c) (hne : c ≠ []) :
    split (a ++ 124 :: (b ++ 124 :: c)) 124 = [trim a, trim b, trim c] := by
  have hpieces : (a ++ 124 :: (b ++ 124 :: c)).splitOn 124 = [a, b, c] := by
    have hjoin : a ++ 124 :: (b ++ 124 :: c) = [124].intercalate [a, b, c] := by
      simp [List.intercalate_cons_cons]
    rw [hjoin, List.splitOn_intercalate]
    · simp [ha, hb, hc]
    · simp
  simp [split, hpieces, hne]

theorem splitScopes_utf8 {scopes : List Text} (hne : scopes ≠ [])
    (hempty : ∀ scope ∈ scopes, scope ≠ [])
    (hchars : ∀ scope ∈ scopes, scope.all scopeChar = true)
    (hlower : ∀ scope ∈ scopes, lower scope = scope) :
    splitScopes ([44].intercalate (scopes.map utf8)) = scopes.map utf8 := by
  have hpieces : ([44].intercalate (scopes.map utf8)).splitOn 44 = scopes.map utf8 := by
    rw [List.splitOn_intercalate]
    · intro s hs
      obtain ⟨scope, hscope, rfl⟩ := List.mem_map.mp hs
      exact fun hmem => (plainByte_of_scopeChar (hchars scope hscope) 44 hmem).2.2.1 rfl
    · simpa using hne
  have hlast : (scopes.map utf8).getLast? ≠ some [] := by
    intro hlast
    obtain ⟨scope, hscope, hnil⟩ := List.mem_map.mp (List.mem_of_mem_getLast? hlast)
    exact hempty scope hscope (utf8_eq_nil_iff.mp hnil)
  have hsame : ((scopes.map utf8).map trim).map lowercase = scopes.map utf8 := by
    rw [List.map_map, List.map_map]
    refine List.map_congr_left fun scope hscope => ?_
    rw [Function.comp_apply, Function.comp_apply,
      trim_word (plainByte_of_scopeChar (hchars scope hscope))]
    exact lowercase_utf8 (hchars scope hscope) (hlower scope hscope)
  rw [splitScopes, split, hpieces, if_neg hlast, hsame, List.filter_eq_self]
  intro s hs
  obtain ⟨scope, hscope, rfl⟩ := List.mem_map.mp hs
  simpa [utf8_eq_nil_iff] using hempty scope hscope

/-- The bytes behind an entry's equals sign. -/
def TokenEntry.valueBytes (e : TokenEntry) : Bytes :=
  bytes "sha256:" ++ utf8 e.digest ++ [32] ++
    124 :: ([32] ++ [44].intercalate (e.scopes.map utf8) ++ [32] ++ 124 :: ([32] ++ utf8 e.expires))

theorem utf8_serialize (e : TokenEntry) :
    utf8 e.serialize =
      bytes "token." ++ utf8 e.name ++ [32] ++ 61 :: ([32] ++ e.valueBytes) := by
  simp only [TokenEntry.serialize, TokenEntry.valueBytes, utf8_append, utf8_intercalate]
  rw [show utf8 (text "token.") = bytes "token." from rfl,
    show utf8 (text " = sha256:") = [32] ++ 61 :: ([32] ++ bytes "sha256:") from rfl,
    show utf8 (text " | ") = [32] ++ 124 :: [32] from rfl, show utf8 [','] = [44] from rfl]
  simp

/-- Nothing in a scope list is read as white space, a comment or the end of the
list. -/
theorem scopeList_bytes {scopes : List Text}
    (hchars : ∀ scope ∈ scopes, scope.all scopeChar = true) :
    ∀ b ∈ ([44] : Bytes).intercalate (scopes.map utf8),
      isSpace b = false ∧ b ≠ 35 ∧ b ≠ 124 := by
  intro b hb
  rcases mem_intercalate hb with hb | ⟨s, hs, hb⟩
  · rw [List.mem_singleton.mp hb]
    decide
  · obtain ⟨scope, hscope, rfl⟩ := List.mem_map.mp hs
    have hplain := plainByte_of_scopeChar (hchars scope hscope) b hb
    exact ⟨hplain.1, hplain.2.1, hplain.2.2.2.2⟩

namespace ValidEntry

variable {e : TokenEntry} (h : ValidEntry e)

include h

theorem nameBytes : ∀ b ∈ utf8 e.name, PlainByte b :=
  plainByte_of_scopeChar (all_scopeChar (fun _ => lt_of_nameChar) (by decide) h.name)

theorem digestBytes : ∀ b ∈ bytes "sha256:" ++ utf8 e.digest, PlainByte b := by
  intro b hb
  rcases List.mem_append.mp hb with hb | hb
  · exact plainByte_of_scopeChar (s := text "sha256:") (by decide) b hb
  · exact plainByte_of_scopeChar
      (all_scopeChar (fun _ => lt_of_lowerHexDigit) (by decide) h.digest) b hb

theorem expiresBytes : ∀ b ∈ utf8 e.expires, PlainByte b :=
  plainByte_of_scopeChar h.expires.scopeChars

end ValidEntry

/-- The three parts of an entry's value, as the server splits it. -/
theorem split_serialize {e : TokenEntry} (h : ValidEntry e) :
    split e.valueBytes 124 =
      [bytes "sha256:" ++ utf8 e.digest, [44].intercalate (e.scopes.map utf8),
        utf8 e.expires] := by
  have hspace : ∀ b ∈ ([32] : Bytes), isSpace b = true := by simp [isSpace]
  have hdigest : trim (bytes "sha256:" ++ utf8 e.digest ++ [32]) =
      bytes "sha256:" ++ utf8 e.digest :=
    trim_unspaced (l := []) (by simp) hspace fun b hb => (h.digestBytes b hb).1
  have hscopes : trim ([32] ++ [44].intercalate (e.scopes.map utf8) ++ [32]) =
      [44].intercalate (e.scopes.map utf8) :=
    trim_unspaced hspace hspace fun b hb => (scopeList_bytes h.scope b hb).1
  have hexpires : trim ([32] ++ utf8 e.expires) = utf8 e.expires := by
    simpa using trim_unspaced (r := []) hspace (by simp) fun b hb => (h.expiresBytes b hb).1
  rw [TokenEntry.valueBytes, split_bar, hdigest, hscopes, hexpires]
  · intro hmem
    rcases List.mem_append.mp hmem with hmem | hmem
    · exact (h.digestBytes 124 hmem).2.2.2.2 rfl
    · exact absurd hmem (by decide)
  · intro hmem
    rcases List.mem_append.mp hmem with hmem | hmem
    · rcases List.mem_append.mp hmem with hmem | hmem
      · exact absurd hmem (by decide)
      · exact (scopeList_bytes h.scope 124 hmem).2.2 rfl
    · exact absurd hmem (by decide)
  · intro hmem
    rcases List.mem_append.mp hmem with hmem | hmem
    · exact absurd hmem (by decide)
    · exact (h.expiresBytes 124 hmem).2.2.2.2 rfl
  · simp

/-- The rule of an entry, read from the text behind the equals sign. -/
theorem parseTokenRule_serialize {e : TokenEntry} (h : ValidEntry e) {rule : AuthTokenRule} :
    Auth.parseTokenRule (utf8 e.name) e.valueBytes true = .ok rule ↔
      ExpiryFits (denotedExpiry e.expires) ∧ rule = e.rule := by
  have hprefix : (bytes "sha256:").isPrefixOf (bytes "sha256:" ++ utf8 e.digest) = true :=
    List.isPrefixOf_iff_prefix.mpr (List.prefix_append _ _)
  have hdrop : (bytes "sha256:" ++ utf8 e.digest).drop 7 = utf8 e.digest :=
    show (bytes "sha256:" ++ utf8 e.digest).drop (bytes "sha256:").length = _ from List.drop_left
  have hdigest : lowercase (utf8 e.digest) = utf8 e.digest :=
    lowercase_utf8 (all_scopeChar (fun _ => lt_of_lowerHexDigit) (by decide) h.digest)
      (lower_digest h.digest)
  have hhex := isHex64_utf8 h.digest_length h.digest
  have hname : utf8 e.name ≠ [] := fun hnil => h.name_ne (utf8_eq_nil_iff.mp hnil)
  have hscopes : e.scopes.map utf8 ≠ [] := by simpa using h.scopes_ne
  simp only [Auth.parseTokenRule, split_serialize h, List.getD_cons_zero, List.getD_cons_succ,
    splitScopes_utf8 h.scopes_ne h.scope_ne h.scope h.scope_lower,
    trim_word h.digestBytes, trim_word h.nameBytes, hprefix, hdrop, hdigest]
  rw [if_neg (by simp), if_pos (by simp)]
  cases hread : parseExpiry (utf8 e.expires) with
  | error message =>
      constructor
      · intro hok
        cases hok
      · rintro ⟨hfits, -⟩
        rw [(parseExpiry_utf8 h.expires).mpr ⟨hfits, rfl⟩] at hread
        cases hread
  | ok epoch =>
      obtain ⟨hfits, rfl⟩ := (parseExpiry_utf8 h.expires).mp hread
      have hdigestNe : utf8 e.digest ≠ [] := fun hnil => by
        have hlength := h.digest_length
        rw [utf8_eq_nil_iff.mp hnil] at hlength
        cases hlength
      simp only [if_true, true_and, hhex, hname, hscopes, hdigestNe, hfits,
        false_and, and_false, if_false, Bool.true_eq_false, Except.ok.injEq]
      exact eq_comm

theorem key_bytes {e : TokenEntry} (h : ValidEntry e) :
    ∀ b ∈ bytes "token." ++ utf8 e.name, PlainByte b := by
  intro b hb
  rcases List.mem_append.mp hb with hb | hb
  · exact plainByte_of_scopeChar (s := text "token.") (by decide) b hb
  · exact h.nameBytes b hb

/-- An entry's line and its value end in its expiry, which is no white space. -/
theorem last_expires {e : TokenEntry} (h : ValidEntry e) (front : Bytes) (b : UInt8)
    (hb : (front ++ utf8 e.expires).getLast? = some b) : isSpace b = false := by
  have hne : utf8 e.expires ≠ [] := fun hnil => h.expires.ne_nil (utf8_eq_nil_iff.mp hnil)
  rw [List.getLast?_append_of_ne_nil _ hne] at hb
  exact (h.expiresBytes b (List.mem_of_mem_getLast? hb)).1

theorem valueBytes_split (e : TokenEntry) :
    ∃ front, e.valueBytes = bytes "sha256:" ++ front ++ utf8 e.expires :=
  ⟨utf8 e.digest ++ [32] ++ 124 :: ([32] ++ [44].intercalate (e.scopes.map utf8) ++ [32] ++
    124 :: [32]), by simp [TokenEntry.valueBytes]⟩

/-- An entry's line holds its three separators and otherwise no white space and no
comment. -/
theorem serialize_bytes {e : TokenEntry} (h : ValidEntry e) {b : UInt8}
    (hb : b ∈ utf8 e.serialize) :
    b = 32 ∨ b = 61 ∨ b = 124 ∨ isSpace b = false ∧ b ≠ 35 := by
  rw [utf8_serialize, TokenEntry.valueBytes] at hb
  simp only [List.mem_append, List.mem_cons, List.not_mem_nil, or_false] at hb
  have hkey := fun hmem => And.imp_right And.left (key_bytes h b hmem)
  have hdigest := fun hmem => And.imp_right And.left (h.digestBytes b hmem)
  have hscopes := fun hmem => And.imp_right And.left (scopeList_bytes h.scope b hmem)
  have hexpires := fun hmem => And.imp_right And.left (h.expiresBytes b hmem)
  simp only [List.mem_append] at hkey hdigest
  tauto

theorem no_comment_serialize {e : TokenEntry} (h : ValidEntry e) :
    (35 : UInt8) ∉ utf8 e.serialize := fun hmem => by
  rcases serialize_bytes h hmem with hb | hb | hb | hb
  · cases hb
  · cases hb
  · cases hb
  · exact hb.2 rfl

theorem no_newline_serialize {e : TokenEntry} (h : ValidEntry e) : '\n' ∉ e.serialize := by
  intro hmem
  rcases serialize_bytes h ((mem_utf8_iff (c := '\n') (by decide)).mpr hmem) with hb | hb | hb | hb
  · cases hb
  · cases hb
  · cases hb
  · cases hb.1

/-- An entry's line is read as its rule, or refused. -/
theorem secretsLine_serialize {e : TokenEntry} (h : ValidEntry e)
    {rule : Option AuthTokenRule} :
    secretsLine (utf8 e.serialize) = .ok rule ↔
      ExpiryFits (denotedExpiry e.expires) ∧ rule = some e.rule := by
  obtain ⟨front, hfront⟩ := valueBytes_split e
  have hspace : ∀ b ∈ ([32] : Bytes), isSpace b = true := by simp [isSpace]
  have hequals : (61 : UInt8) ∉ bytes "token." ++ utf8 e.name ++ [32] := by
    intro hmem
    rcases List.mem_append.mp hmem with hmem | hmem
    · exact (key_bytes h 61 hmem).2.2.2.1 rfl
    · exact absurd hmem (by decide)
  have hkey : trim (bytes "token." ++ utf8 e.name ++ [32]) = bytes "token." ++ utf8 e.name :=
    trim_unspaced (l := []) (by simp) hspace fun b hb => (key_bytes h b hb).1
  have hvalue : trim ([32] ++ e.valueBytes) = e.valueBytes := by
    have htrim := trimWith_surrounded (p := isSpace) (l := [32]) (s := e.valueBytes) (r := [])
      hspace (by simp) (fun b hb => by
        rw [hfront] at hb
        rw [← Option.some.inj hb]
        rfl)
      (fun b hb => last_expires h (bytes "sha256:" ++ front) b (by rw [← hfront, hb]))
    rwa [List.append_nil] at htrim
  have hline : trim (utf8 e.serialize) = utf8 e.serialize := by
    have htrim := trimWith_surrounded (p := isSpace) (l := []) (s := utf8 e.serialize) (r := [])
      (by simp) (by simp) (fun b hb => by
        rw [utf8_serialize] at hb
        rw [← Option.some.inj hb]
        rfl)
      (fun b hb => by
        rw [utf8_serialize, hfront] at hb
        refine last_expires h (bytes "token." ++ utf8 e.name ++ [32] ++
          61 :: ([32] ++ (bytes "sha256:" ++ front))) b ?_
        rw [← hb]
        simp)
    rwa [List.append_nil, List.nil_append] at htrim
  rw [secretsLine, find?_elem_eq_none.mpr (no_comment_serialize h)]
  simp only [hline]
  rw [utf8_serialize, if_neg (by simp), find?_elem_append hequals]
  simp only [List.take_left, hkey]
  have hbehind : (bytes "token." ++ utf8 e.name ++ [32] ++ 61 :: ([32] ++ e.valueBytes)).drop
      ((bytes "token." ++ utf8 e.name ++ [32]).length + 1) = [32] ++ e.valueBytes := by
    rw [← List.drop_drop, List.drop_left, List.drop_one, List.tail_cons]
  have hname : (bytes "token." ++ utf8 e.name).drop 6 = utf8 e.name :=
    show (bytes "token." ++ utf8 e.name).drop (bytes "token.").length = _ from List.drop_left
  have hprefix : (bytes "token.").isPrefixOf (bytes "token." ++ utf8 e.name) = true :=
    List.isPrefixOf_iff_prefix.mpr (List.prefix_append _ _)
  rw [hbehind, hvalue, hname, hprefix, if_neg (by simp)]
  cases hrule : Auth.parseTokenRule (utf8 e.name) e.valueBytes true with
  | error message =>
      constructor
      · intro hok
        cases hok
      · rintro ⟨hfits, -⟩
        rw [(parseTokenRule_serialize h).mpr ⟨hfits, rfl⟩] at hrule
        cases hrule
  | ok found =>
      obtain ⟨hfits, rfl⟩ := (parseTokenRule_serialize h).mp hrule
      constructor
      · intro hok
        exact ⟨hfits, (Except.ok.inj hok).symm⟩
      · rintro ⟨-, rfl⟩
        rfl

/-! ## The loop over the lines -/

theorem secretsLoop_append {ls ms : List Bytes} {tokens rules : List AuthTokenRule} :
    secretsLoop (ls ++ ms) tokens = .ok rules ↔
      ∃ front, secretsLoop ls tokens = .ok front ∧ secretsLoop ms front = .ok rules := by
  induction ls generalizing tokens with
  | nil => simp [secretsLoop]
  | cons l ls ih =>
      rw [List.cons_append, secretsLoop, secretsLoop]
      cases secretsLine l with
      | error e => simp
      | ok rule =>
          cases rule with
          | none => exact ih
          | some rule => exact ih

/-- Lines that are each read as a known rule or refused, under a condition of their
own, are read under all the conditions. -/
theorem secretsLoop_ok_iff {α : Type} {f : α → Bytes} {readable : α → Prop}
    {g : α → Option AuthTokenRule} {ls : List α}
    (h : ∀ l ∈ ls, ∀ r, secretsLine (f l) = .ok r ↔ readable l ∧ r = g l)
    {tokens rules : List AuthTokenRule} :
    secretsLoop (ls.map f) tokens = .ok rules ↔
      (∀ l ∈ ls, readable l) ∧ rules = tokens ++ ls.filterMap g := by
  induction ls generalizing tokens with
  | nil => simp [secretsLoop, eq_comm]
  | cons l ls ih =>
      have hl := h l List.mem_cons_self
      have hls := fun m hm => h m (List.mem_cons_of_mem l hm)
      rw [List.map_cons, secretsLoop, List.forall_mem_cons]
      cases hread : secretsLine (f l) with
      | error e =>
          constructor
          · intro hok
            cases hok
          · rintro ⟨⟨hreadable, -⟩, -⟩
            rw [(hl (g l)).mpr ⟨hreadable, rfl⟩] at hread
            cases hread
      | ok found =>
          obtain ⟨hreadable, rfl⟩ := (hl found).mp hread
          cases hrule : g l with
          | none =>
              rw [List.filterMap_cons_none hrule]
              simp only [ih hls, hreadable, true_and]
          | some r =>
              rw [List.filterMap_cons_some hrule, List.append_cons]
              simp only [ih hls, hreadable, true_and]

theorem secretsLoop_preserved {ls : List Text} (h : ∀ raw ∈ ls, PreservedLine raw)
    {tokens rules : List AuthTokenRule} :
    secretsLoop (ls.map utf8) tokens = .ok rules ↔
      (∀ raw ∈ ls, CommentReadable raw) ∧ rules = tokens := by
  rw [secretsLoop_ok_iff (g := fun _ => none) fun raw hraw _ =>
    secretsLine_preserved (h raw hraw)]
  simp

theorem secretsLoop_entries {es : List TokenEntry} (h : ∀ e ∈ es, ValidEntry e)
    {tokens rules : List AuthTokenRule} :
    secretsLoop ((es.map TokenEntry.serialize).map utf8) tokens = .ok rules ↔
      (∀ e ∈ es, ExpiryFits (denotedExpiry e.expires)) ∧
        rules = tokens ++ es.map TokenEntry.rule := by
  rw [List.map_map, secretsLoop_ok_iff (f := utf8 ∘ TokenEntry.serialize)
    (g := fun e => some e.rule) fun e he r => secretsLine_serialize (h e he)]
  simp

/-! ## The whole file -/

/-- The preserved lines that are still there when the file is written: behind them
come the entries, or the end of the file takes the blank ones. -/
def keptLines (preserved : List Text) (entries : TokenEntries) : List Text :=
  if entries = [] then preserved.rdropWhile blank else preserved

theorem PreservedLine.no_newline {raw : Text} (h : PreservedLine raw) : '\n' ∉ raw :=
  fun hmem => absurd (h.unbroken _ hmem) (by decide)

/-- A preserved line that is not blank has a comment, and the end of the file takes
nothing from in front of it. -/
theorem takeWhile_rstrip {raw : Text} (h : PreservedLine raw) (hblank : blank raw = false) :
    (rstrip raw).takeWhile (· ≠ '#') = raw.takeWhile (· ≠ '#') := by
  have hfront := h.front
  rcases comment_split raw with hraw | ⟨comment, hraw⟩
  · rw [hraw] at hfront
    rw [show blank raw = true from List.all_eq_true.mpr hfront] at hblank
    cases hblank
  · -- stripping stops at the comment sign at the latest
    obtain ⟨rest, hrest⟩ : ∃ rest, rstrip raw = raw.takeWhile (· ≠ '#') ++ '#' :: rest := by
      have hsign : ('#' :: comment).all textSpace = false := by
        rw [List.all_cons, show textSpace '#' = false by decide, Bool.false_and]
      conv => enter [1, rest]; lhs; rw [hraw]
      rw [rstrip, rdropWhile_append, if_neg (by simp [hsign]),
        show '#' :: comment = ['#'] ++ comment from rfl, rdropWhile_append]
      split
      · exact ⟨[], rfl⟩
      · exact ⟨comment.rdropWhile textSpace, rfl⟩
    rw [hrest, List.takeWhile_append_of_pos fun c hc =>
      List.mem_takeWhile_imp (p := fun c => decide (c ≠ '#')) hc]
    simp

theorem PreservedLine.rstrip {raw : Text} (h : PreservedLine raw) (hblank : blank raw = false) :
    PreservedLine (rstrip raw) where
  unbroken := fun c hc => h.unbroken c ((List.rdropWhile_prefix _ _).sublist.mem hc)
  front := fun c hc => h.front c (takeWhile_rstrip h hblank ▸ hc)

/-- Where the file has no entries, its lines are the preserved ones up to the last
that is not blank. -/
theorem stripEnd_preserved {preserved : List Text} (h : ∀ raw ∈ preserved, PreservedLine raw) :
    (∀ raw ∈ stripEnd preserved, PreservedLine raw) ∧
      ((∀ raw ∈ stripEnd preserved, CommentReadable raw) ↔
        ∀ raw ∈ preserved.rdropWhile blank, CommentReadable raw) := by
  have hkept : ∀ raw ∈ preserved.rdropWhile blank, PreservedLine raw := fun raw hraw =>
    h raw ((List.rdropWhile_prefix _ _).sublist.mem hraw)
  simp only [stripEnd]
  rcases List.eq_nil_or_concat (preserved.rdropWhile blank) with hnil | ⟨front, last, hfront⟩
  · rw [hnil]
    simp
  · rw [List.concat_eq_append] at hfront
    have hblank : blank last = false := by
      have hnot := List.rdropWhile_last_not blank preserved (by simp [hfront])
      simpa [hfront] using hnot
    rw [hfront] at hkept ⊢
    have hlast := hkept last (by simp)
    have hsame : CommentReadable (rstrip last) ↔ CommentReadable last := by
      rw [CommentReadable, CommentReadable, takeWhile_rstrip hlast hblank]
    rw [List.dropLast_concat, List.getLast?_concat, Option.map_some, Option.toList_some]
    constructor
    · intro raw hraw
      rcases List.mem_append.mp hraw with hraw | hraw
      · exact hkept raw (List.mem_append_left _ hraw)
      · exact List.mem_singleton.mp hraw ▸ hlast.rstrip hblank
    · rw [List.forall_mem_append, List.forall_mem_append, List.forall_mem_singleton,
        List.forall_mem_singleton, hsame]

/-- A line that does not end in white space ends the file as it stands. -/
theorem stripEnd_concat {ls : List Text} {l : Text} (hne : l ≠ [])
    (hlast : ∀ c, l.getLast? = some c → textSpace c = false) :
    stripEnd (ls ++ [l]) = ls ++ [l] := by
  have hself : rstrip l = l := by
    rw [rstrip, List.rdropWhile_eq_self_iff]
    intro hne hspace
    rw [hlast _ (List.getLast?_eq_some_getLast hne)] at hspace
    cases hspace
  have hblank : blank l = false := by
    rw [blank, List.all_eq_false]
    exact ⟨l.getLast hne, List.getLast_mem hne, by
      simp [hlast _ (List.getLast?_eq_some_getLast hne)]⟩
  rw [stripEnd, List.rdropWhile_concat_neg _ _ _ (by simp [hblank])]
  simp [hself]

theorem serialize_last {e : TokenEntry} (h : ValidEntry e) {c : Char}
    (hc : e.serialize.getLast? = some c) : textSpace c = false := by
  rw [TokenEntry.serialize, List.getLast?_append_of_ne_nil _ h.expires.ne_nil] at hc
  have hscope := List.all_eq_true.mp h.expires.scopeChars c (List.mem_of_mem_getLast? hc)
  exact forall_ascii (p := fun c => scopeChar c = true → textSpace c = false) (by decide)
    (lt_of_scopeChar hscope) hscope

theorem sortedEntries_perm (entries : TokenEntries) :
    (sortedEntries entries).Perm (entries.map (·.2)) :=
  (List.perm_insertionSort _ entries).map _

/-- The preserved lines with the empty one that may stand behind them. -/
def separated (preserved : List Text) : List Text :=
  if (preserved.getLast?.any fun last => strip last ≠ []) then preserved ++ [[]] else preserved

theorem separated_lines {preserved : List Text} (h : ∀ raw ∈ preserved, PreservedLine raw) :
    (∀ raw ∈ separated preserved, PreservedLine raw) ∧
      ((∀ raw ∈ separated preserved, CommentReadable raw) ↔
        ∀ raw ∈ preserved, CommentReadable raw) := by
  rw [separated]
  split
  · rw [List.forall_mem_append, List.forall_mem_append, List.forall_mem_singleton,
      List.forall_mem_singleton]
    exact ⟨⟨h, ⟨by simp, by simp⟩⟩, and_iff_left (by simp [CommentReadable])⟩
  · exact ⟨h, Iff.rfl⟩

theorem stripEnd_separated (preserved : List Text) :
    stripEnd (separated preserved) = stripEnd preserved := by
  rw [separated]
  split
  · rw [stripEnd, stripEnd, List.rdropWhile_concat_pos _ _ _ rfl]
  · rfl

/-- When the server accepts what the tool wrote, and with which rules. -/
theorem loadSecretsFile_iff {preserved : List Text} {entries : TokenEntries}
    (h : Kept preserved entries) (secretsFile : Bytes) {rules : List AuthTokenRule} :
    Auth.loadSecretsFile secretsFile (some (utf8 (atomicWrite preserved entries))) = .ok rules ↔
      ((∀ raw ∈ keptLines preserved entries, CommentReadable raw) ∧
        ∀ p ∈ entries, ExpiryFits (denotedExpiry p.2.expires)) ∧
          rules = (sortedEntries entries).map TokenEntry.rule := by
  have hvalid : ∀ e ∈ sortedEntries entries, ValidEntry e := by
    intro e he
    obtain ⟨p, hp, rfl⟩ := List.mem_map.mp ((sortedEntries_perm entries).mem_iff.mp he)
    exact (h.valid p hp).2
  have hfits : (∀ e ∈ sortedEntries entries, ExpiryFits (denotedExpiry e.expires)) ↔
      ∀ p ∈ entries, ExpiryFits (denotedExpiry p.2.expires) := by
    simp only [(sortedEntries_perm entries).mem_iff, List.mem_map]
    constructor
    · exact fun hall p hp => hall p.2 ⟨p, hp, rfl⟩
    · rintro hall _ ⟨p, hp, rfl⟩
      exact hall p hp
  have hwritten : writtenLines preserved entries =
      separated preserved ++ (sortedEntries entries).map TokenEntry.serialize := rfl
  rw [Auth.loadSecretsFile, atomicWrite, rstrip_joinLines, show text "\n" = ['\n'] from rfl]
  rcases List.eq_nil_or_concat (sortedEntries entries) with hnil | ⟨front, last, hfront⟩
  · -- no entries: the end of the file goes up to the last comment
    have hentries : entries = [] := by
      have hperm := sortedEntries_perm entries
      rw [hnil] at hperm
      simpa using hperm.nil_eq
    obtain ⟨hlines, hreadable⟩ := stripEnd_preserved h.lines
    rw [hwritten, hnil, List.map_nil, List.append_nil, stripEnd_separated,
      getlines_joinLines fun l hl => (hlines l hl).no_newline, keptLines, if_pos hentries,
      ← hreadable, hentries]
    by_cases hempty : stripEnd preserved = []
    · rw [if_pos hempty, hempty]
      simp [secretsLoop, secretsLine, find?, trim, trimWith, eq_comm]
    · rw [if_neg hempty, secretsLoop_preserved hlines]
      simp
  · rw [List.concat_eq_append] at hfront
    have hlast := hvalid last (by simp [hfront])
    have hentries : entries ≠ [] := by
      rintro rfl
      simp [sortedEntries] at hfront
    obtain ⟨hlines, hreadable⟩ := separated_lines h.lines
    have hstrip : stripEnd (writtenLines preserved entries) = writtenLines preserved entries := by
      rw [hwritten, hfront, List.map_append, ← List.append_assoc]
      exact stripEnd_concat (by simp [TokenEntry.serialize, text])
        fun c hc => serialize_last hlast hc
    have hnewline : ∀ l ∈ writtenLines preserved entries, '\n' ∉ l := by
      intro l hl
      rw [hwritten] at hl
      rcases List.mem_append.mp hl with hl | hl
      · exact (hlines l hl).no_newline
      · obtain ⟨e, he, rfl⟩ := List.mem_map.mp hl
        exact no_newline_serialize (hvalid e he)
    have hne : writtenLines preserved entries ≠ [] := by simp [hwritten, hfront]
    rw [hstrip, getlines_joinLines hnewline, if_neg hne, hwritten, List.map_append,
      secretsLoop_append, keptLines, if_neg hentries, ← hreadable, ← hfits]
    simp only [secretsLoop_preserved hlines, secretsLoop_entries hvalid]
    constructor
    · rintro ⟨_, ⟨hread, rfl⟩, hroom, rfl⟩
      exact ⟨⟨hread, hroom⟩, by simp⟩
    · rintro ⟨⟨hread, hroom⟩, rfl⟩
      exact ⟨[], ⟨hread, rfl⟩, hroom, by simp⟩

/-- The names of the rules are the keys of the dictionary. -/
theorem rule_names_nodup {preserved : List Text} {entries : TokenEntries}
    (h : Kept preserved entries) :
    (((sortedEntries entries).map TokenEntry.rule).map (·.name)).Nodup := by
  have hperm := ((sortedEntries_perm entries).map TokenEntry.rule).map (·.name)
  have hnames : ((entries.map (·.2)).map TokenEntry.rule).map (·.name) =
      (entries.map (·.1)).map utf8 := by
    simp only [List.map_map]
    refine List.map_congr_left fun p hp => ?_
    simp only [Function.comp_apply, TokenEntry.rule, (h.valid p hp).1]
  rw [hperm.nodup_iff, hnames]
  refine h.names.map_on ?_
  intro x hx y hy heq
  have hascii : ∀ x ∈ entries.map (·.1), ascii x = true := by
    intro x hx
    obtain ⟨p, hp, rfl⟩ := List.mem_map.mp hx
    rw [(h.valid p hp).1]
    exact ascii_of_all (fun _ => lt_of_nameChar) (h.valid p hp).2.name
  exact utf8_injective_of_ascii (hascii x hx) (hascii y hy) heq

/-- What the tool wrote is served exactly where the server can read the lines that
are kept and has room for every expiry. -/
theorem served_iff {preserved : List Text} {entries : TokenEntries} (h : Kept preserved entries)
    (secretsFile : Bytes) :
    Served secretsFile entries (atomicWrite preserved entries) ↔
      (∀ raw ∈ keptLines preserved entries, CommentReadable raw) ∧
        ∀ p ∈ entries, ExpiryFits (denotedExpiry p.2.expires) := by
  constructor
  · rintro ⟨-, rules, hload, -, -⟩
    exact ((loadSecretsFile_iff h secretsFile).mp hload).1
  · intro hreadable
    refine ⟨fun p hp => lower_digest (h.valid p hp).2.digest,
      (sortedEntries entries).map TokenEntry.rule,
      (loadSecretsFile_iff h secretsFile).mpr ⟨hreadable, rfl⟩,
      combineAndValidate_ok.mpr ⟨rfl, rule_names_nodup h⟩, ?_⟩
    have hperm := (sortedEntries_perm entries).map TokenEntry.rule
    rwa [List.map_map] at hperm

/-! ## Commands -/

/-- What a command must meet for the server to read what it writes: the expiry it
adds and those it leaves, and the preserved lines it keeps. -/
def CommandReadable (preserved : List Text) (entries : TokenEntries) : TokenCommand → Prop
  | .rotate name _ _ ttlDays _ now =>
      (ttlDays = 0 ∨ ExpiryFits (now + ttlDays * 86400)) ∧
        (∀ p ∈ entries, p.1 ≠ strip name → ExpiryFits (denotedExpiry p.2.expires)) ∧
          ∀ raw ∈ preserved, CommentReadable raw
  | .revoke name =>
      (∀ p ∈ entries, p.1 ≠ strip name → ExpiryFits (denotedExpiry p.2.expires)) ∧
        ∀ raw ∈ if entries.all (·.1 = strip name) then preserved.rdropWhile blank else preserved,
          CommentReadable raw

/-- The same of a run of the script on a file. -/
def StepReadable (path : Text) (before : Option Text) (command : TokenCommand) : Prop :=
  ∀ preserved entries, loadEntries path before = .ok (preserved, entries) →
    CommandReadable preserved entries command

/-- The expiry `rotate` writes denotes the time it is for, none for zero. -/
theorem denotedExpiry_rotated (epoch : Int) :
    denotedExpiry (if epoch = 0 then text "never" else intText epoch) = epoch := by
  by_cases h : epoch = 0
  · rw [if_pos h, h]
    rfl
  · rw [if_neg h, denotedExpiry_intText]

/-- What a command leaves is readable exactly where the command and what it found
were. -/
theorem change_readable {preserved : List Text} {entries changed : TokenEntries}
    {command : TokenCommand} (hkept : Kept preserved entries)
    (h : command.change entries = .ok changed) :
    ((∀ raw ∈ keptLines preserved changed, CommentReadable raw) ∧
        ∀ p ∈ changed, ExpiryFits (denotedExpiry p.2.expires)) ↔
      CommandReadable preserved entries command := by
  cases command with
  | rotate name scopes tokenBytes ttlDays plaintext now =>
      simp only [TokenCommand.change, commandRotate] at h
      split at h
      · cases h
      · next value hvalue =>
          split at h
          · cases h
          · split at h
            · cases h
            · split at h
              · cases h
              · obtain rfl := Except.ok.inj h
                obtain ⟨rfl, -⟩ := validateName_ok hvalue
                have hepoch : ExpiryFits (if ttlDays = 0 then 0 else now + ttlDays * 86400) ↔
                    ttlDays = 0 ∨ ExpiryFits (now + ttlDays * 86400) := by
                  by_cases hzero : ttlDays = 0
                  · simp [hzero, ExpiryFits]
                  · simp [hzero]
                rw [keptLines, if_neg (put_ne_nil _ _ _), CommandReadable, ← hepoch]
                simp only [mem_put_iff hkept.names, or_imp, forall_and, forall_eq,
                  denotedExpiry_rotated, and_imp]
                tauto
  | revoke name =>
      simp only [TokenCommand.change, commandRevoke] at h
      split at h
      · cases h
      · next value hvalue =>
          split at h
          · cases h
          · obtain rfl := Except.ok.inj h
            obtain ⟨rfl, -⟩ := validateName_ok hvalue
            have hempty : entries.filter (·.1 ≠ strip name) = [] ↔
                entries.all (·.1 = strip name) = true := by
              simp [List.filter_eq_nil_iff]
            simp only [CommandReadable, keptLines, hempty, List.mem_filter, decide_eq_true_eq,
              and_imp]
            exact and_comm

theorem runCommand_served {path : Text} {file : Option Text} {command : TokenCommand}
    {step : TokenStep} (h : runCommand path file command = .ok step) (secretsFile : Bytes) :
    Served secretsFile step.entries step.written ↔ StepReadable path file command := by
  obtain ⟨preserved, entries, hload, hchange, hwritten, -, -⟩ := runCommand_ok h
  have hkept := loadEntries_kept hload
  rw [hwritten, served_iff (change_kept hkept hchange), change_readable hkept hchange,
    StepReadable]
  constructor
  · intro hreadable preserved' entries' hload'
    obtain ⟨rfl, rfl⟩ := Prod.mk.inj (Except.ok.inj (hload.symm.trans hload'))
    exact hreadable
  · intro hreadable
    exact hreadable preserved entries hload

/-- Each run of the script in a sequence of them writes what the server reads as the
script's dictionary, exactly where the command and the file it found are
readable. -/
theorem token_files_served {path : Text} {file : Option Text} {commands : List TokenCommand}
    {steps : List TokenStep} (h : runCommands path file commands = .ok steps)
    (secretsFile : Bytes) :
    ∀ step ∈ steps, Served secretsFile step.entries step.written ↔
      StepReadable path step.before step.command :=
  fun step hstep => runCommand_served (mem_runCommands h step hstep) secretsFile

/-- A token made for thirty days, in a file that was not there. -/
theorem rotated_file_served :
    ∃ step, runCommands (text "auth.tokens") none
        [.rotate (text "admin") (text "upload, Admin") 32 30 (text "plaintext") 1700000000] =
          .ok [step] ∧
      Served (bytes "auth.tokens") step.entries step.written := by
  have hrun : runCommands (text "auth.tokens") none
      [.rotate (text "admin") (text "upload, Admin") 32 30 (text "plaintext") 1700000000] =
        .ok [_] := rfl
  refine ⟨_, hrun, ?_⟩
  refine (token_files_served hrun (bytes "auth.tokens") _ List.mem_cons_self).mpr ?_
  intro preserved entries hload
  obtain ⟨rfl, rfl⟩ := Prod.mk.inj (Except.ok.inj hload)
  exact ⟨Or.inr (by decide), by simp, by simp⟩

/-- A secrets file with a comment behind a no-break space, and two tokens. -/
def spacedFile : Text :=
  Char.ofNat 0xa0 :: text "# tokens\ntoken.a = sha256:" ++ List.replicate 64 '0' ++
    text " | upload | never\ntoken.b = sha256:" ++ List.replicate 64 '1' ++
    text " | upload | never\n"

/-- What the tool reads there. -/
def spacedEntries : TokenEntries :=
  [(text "a", ⟨text "a", List.replicate 64 '0', [text "upload"], text "never"⟩),
    (text "b", ⟨text "b", List.replicate 64 '1', [text "upload"], text "never"⟩)]

theorem loadEntries_spaced :
    loadEntries (text "auth.tokens") (some spacedFile) =
      .ok ([Char.ofNat 0xa0 :: text "# tokens"], spacedEntries) := by
  decide +kernel

/-- The server refuses the whole file behind a token for so many days that it has no
room for the expiry, and behind the revocation of a token in a file whose comment
has white space in front that only the script knows. -/
theorem written_file_refused :
    (∃ step, runCommands (text "auth.tokens") none
        [.rotate (text "admin") (text "admin") 32 200000000000000 (text "plaintext") 1700000000] =
          .ok [step] ∧
      ¬ Served (bytes "auth.tokens") step.entries step.written) ∧
    ∃ step, runCommands (text "auth.tokens") (some spacedFile) [.revoke (text "b")] =
        .ok [step] ∧
      ¬ Served (bytes "auth.tokens") step.entries step.written := by
  constructor
  · have hrun : runCommand (text "auth.tokens") none
        (.rotate (text "admin") (text "admin") 32 200000000000000 (text "plaintext")
          1700000000) = .ok _ := rfl
    refine ⟨_, by rw [runCommands, hrun]; rfl, fun hserved => ?_⟩
    obtain ⟨hepoch, -⟩ := (runCommand_served hrun _).mp hserved [] [] rfl
    exact absurd hepoch (by decide)
  · have hchange : (TokenCommand.revoke (text "b")).change spacedEntries =
        .ok (spacedEntries.take 1) := by decide
    have hrun : runCommand (text "auth.tokens") (some spacedFile) (.revoke (text "b")) =
        .ok { before := some spacedFile
              command := .revoke (text "b")
              entries := spacedEntries.take 1
              written := atomicWrite [Char.ofNat 0xa0 :: text "# tokens"]
                (spacedEntries.take 1) } := by
      rw [runCommand, loadEntries_spaced]
      simp only [hchange]
    refine ⟨_, by rw [runCommands, hrun]; rfl, fun hserved => ?_⟩
    obtain ⟨-, hlines⟩ := (runCommand_served hrun _).mp hserved _ _ loadEntries_spaced
    rw [if_neg (by decide)] at hlines
    exact absurd (hlines _ List.mem_cons_self (Char.ofNat 0xa0) (by decide)) (by decide)

end HydrogenHttpd.Ref
