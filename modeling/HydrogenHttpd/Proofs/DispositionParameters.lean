import HydrogenHttpd.Base.Assoc
import HydrogenHttpd.Ref.Multipart
import HydrogenHttpd.Spec.FormData

/-!
# Parameters read by a search

`dispositionValue` looks for the key, an equals sign and a quote, wherever they
first stand in the disposition. So the end of a longer name passes for the key,
and so does the end of a value, whose closing quote then opens another
(`Shows`). Only where none does is the key searched without the quote, up to a
semicolon, and then it may be found inside a name or a value.

`ReadsRight` goes through these cases, and says when each of them still gives
the value of the parameter of that name, or nothing if there is none. The text
is taken piece by piece, from quote to quote: no key holds a quote, so none
reaches over one (`quotedValue_piece`, `behindKey_piece`).
-/

namespace HydrogenHttpd.Ref

open Base Spec

/-! ## What is found for a key -/

/-- The name of the parameter ends in the key, or its value in the key and an
equals sign. -/
def Shows (key : Bytes) (p : Bytes × Bytes) : Prop :=
  key <:+ p.1 ∨ key ++ bytes "=" <:+ p.2

instance (key : Bytes) (p : Bytes × Bytes) : Decidable (Shows key p) :=
  inferInstanceAs (Decidable (_ ∨ _))

/-- The value of the parameter of this name, empty if there is none. -/
def namedValue (key : Bytes) (params : List (Bytes × Bytes)) : Bytes :=
  (params.lookup key).getD []

/-- What stands between a closing quote and the next opening one. -/
def opening : List (Bytes × Bytes) → Bytes
  | [] => []
  | p :: _ => bytes "; " ++ p.1 ++ bytes "="

/-- A semicolon stands behind the first key and equals sign of the text. -/
def SemicolonBehind (key t : Bytes) : Prop :=
  ∃ pos, find? (key ++ bytes "=") t = some pos ∧ t[pos + (key.length + 1)]? = some 59

/-- What is found for the key is the value of the parameter of that name. -/
inductive ReadsRight (key : Bytes) (params : List (Bytes × Bytes)) : Prop where
  /-- The first that shows the key does so by its name. -/
  | name (before : List (Bytes × Bytes)) (p : Bytes × Bytes) (after : List (Bytes × Bytes))
      (hparams : params = before ++ p :: after) (hbefore : ∀ q ∈ before, ¬ Shows key q)
      (hname : key <:+ p.1) (hvalue : p.2 = namedValue key params)
  /-- It does so by its value, and what follows that up to a quote is the value. -/
  | value (before : List (Bytes × Bytes)) (p : Bytes × Bytes) (after : List (Bytes × Bytes))
      (hparams : params = before ++ p :: after) (hbefore : ∀ q ∈ before, ¬ Shows key q)
      (hname : ¬ key <:+ p.1) (hshows : key ++ bytes "=" <:+ p.2)
      (hvalue : opening after = namedValue key params)
  /-- None shows it, and the first name or value with the key and an equals sign
  in it has a semicolon there. -/
  | nowhere (hparams : ∀ q ∈ params, ¬ Shows key q)
      (hplain : ∀ t, (params.flatMap fun p => [p.1, p.2]).find?
        (fun t => decide (key ++ bytes "=" <:+: t)) = some t → SemicolonBehind key t)

/-! ## The two searches -/

/-- The text in front of its first quote; nothing if there is no quote. -/
def upToQuote (s : Bytes) : Bytes :=
  match find? [quote] s with
  | none => []
  | some stop => s.take stop

/-- The search with the quote. -/
def quotedValue (key s : Bytes) : Option Bytes :=
  (find? (key ++ bytes "=\"") s).map fun pos => upToQuote (s.drop (pos + key.length + 2))

/-- The search without it. -/
def plainValue (key s : Bytes) : Bytes :=
  match find? (key ++ bytes "=") s with
  | none => []
  | some pos =>
      let rest := s.drop (pos + key.length + 1)
      match find? [59] rest with
      | none => rest
      | some stop => rest.take stop

theorem dispositionValue_eq (s key : Bytes) :
    dispositionValue s key = (quotedValue key s).getD (plainValue key s) := by
  rw [dispositionValue, quotedValue]
  cases find? (key ++ bytes "=\"") s with
  | some pos => rfl
  | none => rfl

theorem upToQuote_append {x : Bytes} (hx : quote ∉ x) (y : Bytes) :
    upToQuote (x ++ quote :: y) = x := by
  rw [upToQuote, find?_elem_append hx]
  exact List.take_left

theorem drop_append_cons {α : Type} (x : List α) (c : α) (y : List α) (n : Nat) :
    (x ++ c :: y).drop (x.length + 1 + n) = y.drop n := by
  rw [← List.drop_drop, List.append_cons, show x.length + 1 = (x ++ [c]).length by simp,
    List.drop_left]

section Key

variable {key : Bytes} (hquote : quote ∉ key)

include hquote

/-- The quoted search, past one quote. -/
theorem quotedValue_piece {x : Bytes} (hx : quote ∉ x) (y : Bytes) :
    quotedValue key (x ++ quote :: y) =
      if key ++ bytes "=" <:+ x then some (upToQuote y) else quotedValue key y := by
  have hkey : quote ∉ key ++ bytes "=" := by
    rw [List.mem_append, not_or]
    exact ⟨hquote, by decide⟩
  have hneedle : key ++ bytes "=\"" = key ++ bytes "=" ++ [quote] := by
    rw [List.append_assoc]
    rfl
  have hlength : (key ++ bytes "=").length = key.length + 1 := by simp [bytes]
  rw [quotedValue, quotedValue, hneedle, find?_closed hkey hx]
  split
  · next h =>
      have hle := h.length_le
      rw [Option.map_some, show x.length - (key ++ bytes "=").length + key.length + 2 =
        x.length + 1 + 0 by omega, drop_append_cons, List.drop_zero]
  · rw [Option.map_map]
    congr 1
    funext i
    rw [Function.comp_apply, show i + (x.length + 1) + key.length + 2 =
      x.length + 1 + (i + key.length + 2) by omega, drop_append_cons]

omit hquote in
theorem quotedValue_of_not_mem {x : Bytes} (hx : quote ∉ x) : quotedValue key x = none := by
  have hnone : find? (key ++ bytes "=\"") x = none := by
    rw [find?_eq_none_iff_no_occurrence]
    intro h
    exact hx (h.subset (List.mem_append_right key (by decide)))
  rw [quotedValue, hnone]
  rfl

end Key

/-! ## The printed parameters -/

theorem printParam_append (p : Bytes × Bytes) (front behind : Bytes) :
    front ++ (printParam p ++ behind) =
      (front ++ bytes ";" ++ space :: (p.1 ++ bytes "=")) ++
        quote :: (p.2 ++ quote :: ([] ++ behind)) := by
  simp [printParam, bytes, quote, space]

/-- The key has no space in it, so it does not reach over the one in front of a
name. -/
theorem suffix_behind_space {key : Bytes} (hspace : space ∉ key) (front name : Bytes) :
    key ++ bytes "=" <:+ front ++ space :: (name ++ bytes "=") ↔ key <:+ name := by
  have hcut : front ++ space :: (name ++ bytes "=") = (front ++ space :: name) ++ bytes "=" := by
    simp
  rw [hcut, List.suffix_append_inj_of_length_eq rfl]
  constructor
  · rintro ⟨hkey, -⟩
    rcases List.suffix_or_suffix_of_suffix hkey (List.suffix_append front (space :: name)) with
      hkey | hname
    · rcases List.suffix_cons_iff.mp hkey with hkey | hkey
      · exact absurd (hkey ▸ List.mem_cons_self) hspace
      · exact hkey
    · exact absurd (hname.mem List.mem_cons_self) hspace
  · intro h
    exact ⟨List.suffix_append_of_suffix (h.trans (List.suffix_cons _ _)), rfl⟩

/-- The value of the first parameter that shows the key, or what is taken for it. -/
def shownValue (key : Bytes) : List (Bytes × Bytes) → Option Bytes
  | [] => none
  | p :: ps =>
      if key <:+ p.1 then some p.2
      else if key ++ bytes "=" <:+ p.2 then some (opening ps)
      else shownValue key ps

theorem shownValue_skip {key : Bytes} {before : List (Bytes × Bytes)}
    (hbefore : ∀ q ∈ before, ¬ Shows key q) (params : List (Bytes × Bytes)) :
    shownValue key (before ++ params) = shownValue key params := by
  induction before with
  | nil => rfl
  | cons q qs ih =>
      have hq := not_or.mp (hbefore q List.mem_cons_self)
      rw [List.cons_append, shownValue, if_neg hq.1, if_neg hq.2]
      exact ih fun r hr => hbefore r (List.mem_cons_of_mem q hr)

theorem firstShown (key : Bytes) (params : List (Bytes × Bytes)) :
    (∀ q ∈ params, ¬ Shows key q) ∨ ∃ before p after, params = before ++ p :: after ∧
      (∀ q ∈ before, ¬ Shows key q) ∧ Shows key p := by
  rcases find?_split_or_all (fun q => decide (Shows key q)) params with
    hall | ⟨before, p, after, hsplit, hbefore, hp⟩
  · exact Or.inl fun q hq => by simpa using hall q hq
  · exact Or.inr ⟨before, p, after, hsplit, fun q hq => by simpa using hbefore q hq,
      by simpa using hp⟩

/-- The parameter of that name would show the key. -/
theorem namedValue_of_not_shows {key : Bytes} {params : List (Bytes × Bytes)}
    (hshows : ∀ q ∈ params, ¬ Shows key q) : namedValue key params = [] := by
  have hnone : params.lookup key = none := by
    refine lookup_eq_none_of_not_mem fun hmem => ?_
    obtain ⟨p, hp, hname⟩ := List.mem_map.mp hmem
    exact hshows p hp (Or.inl (hname ▸ List.suffix_rfl))
  rw [namedValue, hnone]
  rfl

/-- No quote in the names or values. -/
def QuoteFree (params : List (Bytes × Bytes)) : Prop :=
  ∀ p ∈ params, quote ∉ p.1 ∧ quote ∉ p.2

instance (params : List (Bytes × Bytes)) : Decidable (QuoteFree params) :=
  inferInstanceAs (Decidable (∀ p ∈ params, _))

theorem upToQuote_params {params : List (Bytes × Bytes)} (hparams : QuoteFree params) :
    upToQuote (params.map printParam).flatten = opening params := by
  cases params with
  | nil => rfl
  | cons p ps =>
      have hopening : quote ∉ bytes "; " ++ p.1 ++ bytes "=" := by
        simp only [List.mem_append, not_or]
        exact ⟨⟨by decide, (hparams p List.mem_cons_self).1⟩, by decide⟩
      have htext : ((p :: ps).map printParam).flatten =
          (bytes "; " ++ p.1 ++ bytes "=") ++
            quote :: (p.2 ++ quote :: (ps.map printParam).flatten) := by
        simp [printParam, bytes, quote]
      rw [htext, upToQuote_append hopening]
      rfl

section Printed

variable {key : Bytes} (hquote : quote ∉ key) (hspace : space ∉ key)

include hquote hspace

/-- The quoted search over printed parameters. -/
theorem quotedValue_params {params : List (Bytes × Bytes)} (hparams : QuoteFree params)
    {front : Bytes} (hfront : quote ∉ front) :
    quotedValue key (front ++ (params.map printParam).flatten) = shownValue key params := by
  induction params generalizing front with
  | nil =>
      rw [List.map_nil, List.flatten_nil, List.append_nil]
      exact quotedValue_of_not_mem hfront
  | cons p ps ih =>
      obtain ⟨hname, hvalue⟩ := hparams p List.mem_cons_self
      have hps : QuoteFree ps := fun q hq => hparams q (List.mem_cons_of_mem p hq)
      have hpiece : quote ∉ front ++ bytes ";" ++ space :: (p.1 ++ bytes "=") := by
        simp only [List.mem_append, List.mem_cons, not_or]
        exact ⟨⟨hfront, by decide⟩, by decide, hname, by decide⟩
      rw [List.map_cons, List.flatten_cons, printParam_append, quotedValue_piece hquote hpiece,
        quotedValue_piece hquote hvalue, ih hps (by simp), shownValue, upToQuote_append hvalue,
        List.nil_append, upToQuote_params hps]
      simp only [suffix_behind_space hspace]

end Printed

/-! ## The search without the quote -/

/-- The byte behind the first key and equals sign. -/
def behindKey (key s : Bytes) : Option (Option UInt8) :=
  (find? (key ++ bytes "=") s).map fun pos => s[pos + (key.length + 1)]?

theorem plainValue_eq_nil_iff (key s : Bytes) :
    plainValue key s = [] ↔ ∀ c, behindKey key s = some c → c = none ∨ c = some 59 := by
  rw [plainValue, behindKey]
  cases find? (key ++ bytes "=") s with
  | none => simp
  | some pos =>
      have hhead : s[pos + (key.length + 1)]? = (s.drop (pos + key.length + 1)).head? := by
        rw [List.head?_drop, Nat.add_assoc]
      simp only [Option.map_some, Option.some.injEq, forall_eq', hhead]
      cases hrest : s.drop (pos + key.length + 1) with
      | nil => simp [find?]
      | cons c cs =>
          rw [find?]
          by_cases hc : c = 59
          · simp [hc]
          · have hfirst : ¬ [(59 : UInt8)].isPrefixOf (c :: cs) = true := by
              rw [List.isPrefixOf_iff_prefix, List.cons_prefix_cons]
              exact fun h => hc h.1.symm
            rw [if_neg hfirst]
            cases find? [59] cs with
            | none => simp [hc]
            | some stop => simp [hc]

theorem behindKey_ne_none {key s : Bytes} (h : key ++ bytes "=" <:+: s) :
    behindKey key s ≠ none := by
  rw [behindKey, Ne, Option.map_eq_none_iff, find?_eq_none_iff_no_occurrence]
  exact not_not.mpr h

/-- What is found but does not end a text stops before its end. -/
theorem find?_before_end {a x : Bytes} {i : Nat} (hfind : find? a x = some i) (hx : ¬ a <:+ x) :
    i + a.length < x.length := by
  refine lt_of_le_of_ne (find?_length_le hfind) fun heq => hx ?_
  have hsplit := find?_split hfind
  rw [heq, List.drop_length, List.append_nil] at hsplit
  exact ⟨_, hsplit.symm⟩

/-- The plain search, past a byte that the key does not have. -/
theorem behindKey_piece {key x : Bytes} {c : UInt8} (hc : c ∉ key ++ bytes "=")
    (hx : ¬ key ++ bytes "=" <:+ x) (y : Bytes) :
    behindKey key (x ++ c :: y) = (behindKey key x).or (behindKey key y) := by
  have hlength : (key ++ bytes "=").length = key.length + 1 := by simp [bytes]
  rw [behindKey, behindKey, behindKey, find?_beyond (by simp [bytes]) hc]
  cases hfind : find? (key ++ bytes "=") x with
  | some i =>
      have hlt := find?_before_end hfind hx
      rw [hlength] at hlt
      simp only [Option.map_some, Option.some_or]
      rw [List.getElem?_append_left hlt]
  | none =>
      simp only [Option.map_none, Option.none_or, Option.map_map]
      congr 1
      funext i
      rw [Function.comp_apply, show i + (x.length + 1) + (key.length + 1) =
        x.length + 1 + (i + (key.length + 1)) by omega, ← List.getElem?_drop,
        drop_append_cons x c y 0, List.drop_zero]

theorem behindKey_eq_none {key s : Bytes} (h : ¬ key ++ bytes "=" <:+: s) :
    behindKey key s = none := by
  rw [behindKey, find?_eq_none_iff_no_occurrence.mpr h]
  rfl

theorem behindKey_eq_semicolon_iff {key t : Bytes} :
    behindKey key t = some (some 59) ↔ SemicolonBehind key t := by
  rw [behindKey, Option.map_eq_some_iff]
  rfl

/-- A value that does not end in the key and an equals sign. -/
theorem behindKey_value {key value : Bytes} (hvalue : ¬ key ++ bytes "=" <:+ value)
    (hin : key ++ bytes "=" <:+: value) : ∃ c, behindKey key value = some (some c) := by
  cases hfind : find? (key ++ bytes "=") value with
  | none => exact absurd hin (find?_eq_none_iff_no_occurrence.mp hfind)
  | some i =>
      have hlt := find?_before_end hfind hvalue
      rw [show (key ++ bytes "=").length = key.length + 1 by simp [bytes]] at hlt
      rw [behindKey, hfind, Option.map_some, List.getElem?_eq_getElem hlt]
      exact ⟨_, rfl⟩

/-- An equals sign behind a name that does not end in the key changes nothing
about a semicolon in it. -/
theorem behindKey_name {key name : Bytes} (hname : ¬ key <:+ name) :
    (¬ key ++ bytes "=" <:+: name → behindKey key (name ++ bytes "=") = none) ∧
      (key ++ bytes "=" <:+: name → ∃ c, behindKey key (name ++ bytes "=") = some (some c) ∧
        (c = 59 ↔ SemicolonBehind key name)) := by
  have hlength : (key ++ bytes "=").length = key.length + 1 := by simp [bytes]
  constructor
  · intro h
    refine behindKey_eq_none fun hinfix => ?_
    rw [show name ++ bytes "=" = name.concat 61 by simp [bytes], List.concat_eq_append,
      List.infix_concat_iff] at hinfix
    rcases hinfix with hsuffix | hinfix
    · refine hname ?_
      rw [show name ++ [61] = name ++ bytes "=" from rfl,
        List.suffix_append_inj_of_length_eq rfl] at hsuffix
      exact hsuffix.1
    · exact h hinfix
  · intro h
    obtain ⟨i, hfind⟩ := Option.ne_none_iff_exists'.mp
      (not_not.mpr h |> mt find?_eq_none_iff_no_occurrence.mp)
    have hle := find?_length_le hfind
    rw [← behindKey_eq_semicolon_iff, behindKey, behindKey, find?_append hfind, hfind]
    simp only [Option.map_some, Option.some.injEq]
    rcases Nat.lt_or_ge (i + (key.length + 1)) name.length with hlt | hge
    · rw [List.getElem?_append_left hlt, List.getElem?_eq_getElem hlt]
      exact ⟨_, rfl, by simp⟩
    · have heq : i + (key.length + 1) = name.length := by omega
      rw [heq, List.getElem?_append_right (le_refl _), Nat.sub_self,
        List.getElem?_eq_none (le_refl _)]
      exact ⟨61, rfl, by decide⟩

section Printed

variable {key : Bytes} (hquote : quote ∉ key) (hspace : space ∉ key)

include hquote hspace

/-- The plain search over printed parameters that do not show the key. -/
theorem plainValue_params {params : List (Bytes × Bytes)}
    (hshows : ∀ q ∈ params, ¬ Shows key q) {front : Bytes} (hfront : (61 : UInt8) ∉ front) :
    plainValue key (front ++ (params.map printParam).flatten) = [] ↔
      ∀ t, (params.flatMap fun p => [p.1, p.2]).find?
        (fun t => decide (key ++ bytes "=" <:+: t)) = some t → SemicolonBehind key t := by
  rw [plainValue_eq_nil_iff]
  have hequals : ∀ {s : Bytes}, (61 : UInt8) ∉ s → ¬ key ++ bytes "=" <:+: s :=
    fun hs h => hs (h.subset (List.mem_append_right key (by decide)))
  induction params generalizing front with
  | nil =>
      rw [List.map_nil, List.flatten_nil, List.append_nil,
        behindKey_eq_none (hequals hfront)]
      simp
  | cons p ps ih =>
      obtain ⟨hname, hvalue⟩ := not_or.mp (hshows p List.mem_cons_self)
      have hquoteKey : quote ∉ key ++ bytes "=" := by
        rw [List.mem_append, not_or]
        exact ⟨hquote, by decide⟩
      have hspaceKey : space ∉ key ++ bytes "=" := by
        rw [List.mem_append, not_or]
        exact ⟨hspace, by decide⟩
      have hfront' : (61 : UInt8) ∉ front ++ bytes ";" := by
        rw [List.mem_append, not_or]
        exact ⟨hfront, by decide⟩
      obtain ⟨hplain, hfound⟩ := behindKey_name hname
      rw [List.map_cons, List.flatten_cons, printParam_append,
        behindKey_piece hquoteKey ((suffix_behind_space hspace _ _).not.mpr hname),
        behindKey_piece hquoteKey hvalue,
        behindKey_piece hspaceKey (fun h => hequals hfront' h.isInfix),
        behindKey_eq_none (hequals hfront'), Option.none_or, List.flatMap_cons]
      by_cases hin : key ++ bytes "=" <:+: p.1
      · obtain ⟨c, hc, hsemicolon⟩ := hfound hin
        rw [hc, List.cons_append, List.find?_cons_of_pos (by simpa using hin)]
        simpa using hsemicolon
      · rw [hplain hin, Option.none_or, List.cons_append,
          List.find?_cons_of_neg (by simpa using hin), List.singleton_append]
        by_cases hin' : key ++ bytes "=" <:+: p.2
        · rw [List.find?_cons_of_pos (by simpa using hin')]
          obtain ⟨c, hc⟩ := behindKey_value hvalue hin'
          simp [← behindKey_eq_semicolon_iff, hc]
        · rw [behindKey_eq_none hin', Option.none_or,
            List.find?_cons_of_neg (by simpa using hin')]
          exact ih (fun q hq => hshows q (List.mem_cons_of_mem p hq)) (by simp)

/-! ## The disposition as it is printed -/

/-- When the key is read right, over all parameters without quotes. -/
theorem dispositionValue_printed_iff {params : List (Bytes × Bytes)} (hparams : QuoteFree params) :
    dispositionValue (printDisposition params) key = namedValue key params ↔
      ReadsRight key params := by
  rw [dispositionValue_eq, printDisposition,
    quotedValue_params hquote hspace hparams (show quote ∉ bytes "form-data" by decide)]
  constructor
  · intro h
    rcases firstShown key params with hshows | ⟨before, p, after, hsplit, hbefore, hp⟩
    · have hnone : shownValue key params = none := by
        have hskip := shownValue_skip hshows []
        rwa [List.append_nil] at hskip
      rw [hnone, Option.getD_none, namedValue_of_not_shows hshows] at h
      exact .nowhere hshows ((plainValue_params hquote hspace hshows (by decide)).mp h)
    · have hshown : shownValue key params = shownValue key (p :: after) := by
        rw [hsplit, shownValue_skip hbefore]
      rw [hshown, shownValue] at h
      by_cases hname : key <:+ p.1
      · rw [if_pos hname] at h
        exact .name before p after hsplit hbefore hname h
      · have hvalue := hp.resolve_left hname
        rw [if_neg hname, if_pos hvalue] at h
        exact .value before p after hsplit hbefore hname hvalue h
  · intro h
    cases h with
    | name before p after hsplit hbefore hname hvalue =>
        have hshown : shownValue key params = some p.2 := by
          rw [hsplit, shownValue_skip hbefore, shownValue, if_pos hname]
        rw [hshown]
        exact hvalue
    | value before p after hsplit hbefore hname hshows hvalue =>
        have hshown : shownValue key params = some (opening after) := by
          rw [hsplit, shownValue_skip hbefore, shownValue, if_neg hname, if_pos hshows]
        rw [hshown]
        exact hvalue
    | nowhere hshows hplain =>
        have hnone : shownValue key params = none := by
          have hskip := shownValue_skip hshows []
          rwa [List.append_nil] at hskip
        rw [hnone, Option.getD_none, namedValue_of_not_shows hshows]
        exact (plainValue_params hquote hspace hshows (by decide)).mpr hplain

end Printed

/-- Both names that an upload asks a disposition for are read right. -/
theorem parameters_read_by_name_iff {params : List (Bytes × Bytes)} (hparams : QuoteFree params) :
    (dispositionValue (printDisposition params) (bytes "name") =
          namedValue (bytes "name") params ∧
        dispositionValue (printDisposition params) (bytes "filename") =
          namedValue (bytes "filename") params) ↔
      ReadsRight (bytes "name") params ∧ ReadsRight (bytes "filename") params := by
  rw [dispositionValue_printed_iff (by decide) (by decide) hparams,
    dispositionValue_printed_iff (by decide) (by decide) hparams]

/-- The parameters of a file part as browsers write them. -/
theorem parameters_read_by_name_iff_filePart :
    dispositionValue (bytes "form-data; name=\"f\"; filename=\"a.txt\"") (bytes "name") =
        bytes "f" ∧
      dispositionValue (bytes "form-data; name=\"f\"; filename=\"a.txt\"") (bytes "filename") =
        bytes "a.txt" :=
  (@parameters_read_by_name_iff
    [(bytes "name", bytes "f"), (bytes "filename", bytes "a.txt")] (by decide)).mpr
    ⟨.name [] _ _ rfl (by simp) (by decide) (by decide),
      .name [(bytes "name", bytes "f")] _ _ rfl (by decide) (by decide) (by decide)⟩

/-- The file name in front of the field name is taken for it. -/
theorem filename_read_as_name :
    ¬ ∀ params : List (Bytes × Bytes), (params.map (·.1)).Nodup →
      (∀ p ∈ params, ∀ s ∈ [p.1, p.2], quote ∉ s ∧ cr ∉ s ∧ lf ∉ s) →
      ∀ key ∈ [bytes "name", bytes "filename"],
        dispositionValue (printDisposition params) key = namedValue key params := by
  intro h
  have hread := h [(bytes "filename", bytes "a.txt"), (bytes "name", bytes "f")] (by decide)
    (by decide) (bytes "name") (by simp)
  exact absurd hread (by decide)

end HydrogenHttpd.Ref
