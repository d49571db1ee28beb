import HydrogenHttpd.Ref.FastCgiClient
import HydrogenHttpd.Spec.Cgi

/-!
# The output of a script, read back

`parseCgiResponse` against `CgiHeaders.print`. Field by field the reader undoes
the printer (`responseLine_field`), whichever way the lines end, as it trims a
carriage return. The two part at the end of the fields. The reader looks for
CRLFCRLF in all of the output, and for two line feeds only where there is none.
Fields that end with CRLF are followed by the first CRLFCRLF of the output.
Behind fields that end with bare line feeds the first one, if any, is in the
content, and the content up to there is taken for fields.
-/

namespace HydrogenHttpd.Ref

open Base Spec FastCgiClient

/-! ## One field -/

theorem trimCrlf_eq_self {l : Bytes} (hcr : cr ∉ l) (hlf : lf ∉ l) : trimCrlf l = l := by
  rw [trimCrlf, List.rdropWhile_eq_self_iff]
  intro hne
  have hmem := List.getLast_mem hne
  simp only [Bool.or_eq_true, beq_iff_eq, not_or]
  exact ⟨fun h => hcr (h ▸ hmem), fun h => hlf (h ▸ hmem)⟩

/-- A carriage return at the end of a line is not seen. -/
theorem responseLine_cr (r : FastCgiResponse) (l : Bytes) :
    responseLine r (l ++ [cr]) = responseLine r l := by
  have htrim : trimCrlf (l ++ [cr]) = trimCrlf l := by
    rw [trimCrlf, List.rdropWhile_concat_pos _ _ _ (by decide), trimCrlf]
  rw [responseLine, responseLine, htrim]

/-- The digits of a number are read as the number, whatever stands behind them. -/
theorem stoi_decimal {n : Nat} (hn : n < 2 ^ 31) {rest : Bytes}
    (hrest : ∀ c ∈ rest.head?, isDigit c = false) : stoi (decimal n ++ rest) = some (n : Int) := by
  obtain ⟨c, cs, hcs⟩ := List.exists_cons_of_ne_nil (decimal_ne_nil n)
  have hmem : c ∈ decimal n := by
    rw [hcs]
    exact List.mem_cons_self
  have hc : isDigit c = true := isDigit_of_mem_decimal hmem
  have hminus : c ≠ 45 := by
    rintro rfl
    exact absurd hc (by decide)
  have hplus : c ≠ 43 := by
    rintro rfl
    exact absurd hc (by decide)
  have htake : (decimal n ++ rest).takeWhile isDigit = decimal n := by
    rw [List.takeWhile_append_of_pos fun d hd => isDigit_of_mem_decimal hd]
    cases rest with
    | nil => simp
    | cons d ds => rw [List.takeWhile_cons_of_neg (by simp [hrest d rfl]), List.append_nil]
  have hread : readDecimal (decimal n ++ rest) =
      some (false, n, (decimal n ++ rest).dropWhile isDigit) := by
    rw [hcs, List.cons_append, readDecimal_cons (isSpace_of_isDigit hc), if_neg hminus,
      if_neg hplus, ← List.cons_append, ← hcs, readDigits, htake, digitsValue_decimal, if_neg]
    simp [decimal_ne_nil]
  rw [stoi, hread]
  simp only [signedValue, Bool.false_eq_true, if_false]
  rw [if_pos (by omega)]

theorem name_fits {f : CgiField} (h : f.Fits) : 58 ∉ f.name ∧ cr ∉ f.name ∧ lf ∉ f.name := by
  cases f with
  | status blanks code reason =>
      show 58 ∉ bytes "Status" ∧ cr ∉ bytes "Status" ∧ lf ∉ bytes "Status"
      decide
  | other name blanks value => exact h.2.1

theorem value_fits {f : CgiField} (h : f.Fits) :
    cr ∉ f.value ∧ lf ∉ f.value ∧ f.value.head? ≠ some space := by
  cases f with
  | status blanks code reason =>
      have hdigits : ∀ c ∈ decimal code, isDigit c = true := fun c hc => isDigit_of_mem_decimal hc
      have hout : ∀ c, isDigit c = false → c ∉ decimal code := fun c hc hmem => by
        rw [hdigits c hmem] at hc
        cases hc
      obtain ⟨-, hcr, hlf⟩ := h
      obtain ⟨c, cs, hcs⟩ := List.exists_cons_of_ne_nil (decimal_ne_nil code)
      simp only [CgiField.value, List.mem_append, List.mem_cons, not_or]
      refine ⟨⟨hout _ (by decide), by decide, hcr⟩, ⟨hout _ (by decide), by decide, hlf⟩, ?_⟩
      rw [hcs]
      intro hhead
      exact hout space (by decide) (by rw [hcs, Option.some.inj hhead]; exact List.mem_cons_self)
  | other name blanks value => exact h.2.2

theorem line_fits {f : CgiField} (h : f.Fits) : cr ∉ f.line ∧ lf ∉ f.line := by
  obtain ⟨-, hcr, hlf⟩ := name_fits h
  obtain ⟨hvcr, hvlf, -⟩ := value_fits h
  have hblank : ∀ c, c ≠ space → c ∉ List.replicate f.blanks space := fun c hc hmem =>
    hc (List.eq_of_mem_replicate hmem)
  simp only [CgiField.line, List.mem_append, List.mem_cons, not_or]
  exact ⟨⟨hcr, by decide, hblank _ (by decide), hvcr⟩, ⟨hlf, by decide, hblank _ (by decide), hvlf⟩⟩

theorem line_ne_nil (f : CgiField) : f.line ≠ [] := by
  simp [CgiField.line]

/-- What a field makes of the response. -/
def noteCgiField (r : FastCgiResponse) : CgiField → FastCgiResponse
  | .status _ code _ => { r with status := code }
  | .other name _ value => { r with headers := put name value r.headers }

theorem responseLine_field (r : FastCgiResponse) {f : CgiField} (h : f.Fits) :
    responseLine r f.line = noteCgiField r f := by
  obtain ⟨hcr, hlf⟩ := line_fits h
  obtain ⟨hcolon, -, -⟩ := name_fits h
  obtain ⟨-, -, hhead⟩ := value_fits h
  have hvalue : (List.replicate f.blanks space ++ f.value).dropWhile (· = space) = f.value := by
    rw [List.dropWhile_append_of_pos fun c hc => by simpa using List.eq_of_mem_replicate hc]
    cases hv : f.value with
    | nil => rfl
    | cons c cs =>
        rw [hv] at hhead
        exact List.dropWhile_cons_of_neg (by simpa using fun hc => hhead (by rw [hc]; rfl))
  have hbehind : f.line.drop (f.name.length + 1) = List.replicate f.blanks space ++ f.value := by
    rw [CgiField.line, ← List.drop_drop, List.drop_left, List.drop_one, List.tail_cons]
  rw [responseLine, trimCrlf_eq_self hcr hlf]
  rw [CgiField.line, find?_elem_append hcolon]
  simp only [List.take_left]
  rw [← CgiField.line, hbehind, hvalue]
  split
  · next hname =>
      cases f with
      | status blanks code reason =>
          have hstoi : stoi (decimal code ++ space :: reason) = some (code : Int) :=
            stoi_decimal (by have := h.1.2; omega) (by simp; decide)
          rw [CgiField.value, hstoi]
          rfl
      | other name blanks value => exact absurd hname h.1
  · next hname =>
      cases f with
      | status blanks code reason => exact absurd rfl hname
      | other name blanks value => rfl

/-! ## All fields -/

theorem statusOf_eq_none {fields : List CgiField}
    (h : bytes "Status" ∉ fields.map (·.name)) : statusOf fields = none := by
  induction fields with
  | nil => rfl
  | cons f fields ih =>
      rw [List.map_cons, List.mem_cons, not_or] at h
      cases f with
      | status blanks code reason => exact absurd rfl h.1
      | other name blanks value => exact ih h.2

theorem noteCgiFields {fields : List CgiField} (hnodup : (fields.map (·.name)).Nodup)
    (hfits : ∀ f ∈ fields, f.Fits) (r : FastCgiResponse)
    (hnew : ∀ f ∈ fields, f.name ∉ r.headers.map (·.1)) :
    fields.foldl noteCgiField r =
      { status := ((statusOf fields).map Int.ofNat).getD r.status
        headers := r.headers ++ othersOf fields
        body := r.body } := by
  induction fields generalizing r with
  | nil => simp [statusOf, othersOf]
  | cons f fields ih =>
      rw [List.map_cons, List.nodup_cons] at hnodup
      have hrest : ∀ g ∈ fields, g.Fits := fun g hg => hfits g (List.mem_cons_of_mem _ hg)
      cases f with
      | status blanks code reason =>
          -- no field behind this one is a status
          have hnone : statusOf fields = none := statusOf_eq_none hnodup.1
          rw [List.foldl_cons, ih hnodup.2 hrest]
          · simp [noteCgiField, statusOf, othersOf, hnone]
          · exact fun g hg => hnew g (List.mem_cons_of_mem _ hg)
      | other name blanks value =>
          have hname : name ∉ r.headers.map (·.1) := hnew _ List.mem_cons_self
          rw [List.foldl_cons, ih hnodup.2 hrest]
          · simp [noteCgiField, statusOf, othersOf, put_new hname]
          · intro g hg
            simp only [noteCgiField, put_new hname, List.map_append, List.mem_append, not_or]
            refine ⟨hnew g (List.mem_cons_of_mem _ hg), ?_⟩
            rintro hsame
            exact hnodup.1 (List.mem_map.mpr ⟨g, hg, by simpa [CgiField.name] using hsame⟩)

/-! ## The end of the fields -/

/-- The lines of the fields, without the last line end. -/
def fieldText (headers : CgiHeaders) (ending : LineEnding) : Bytes :=
  ending.bytes.intercalate (headers.fields.map (·.line))

theorem print_eq (headers : CgiHeaders) (ending : LineEnding) (body : Bytes) :
    headers.print ending body =
      fieldText headers ending ++ ending.bytes ++ (ending.bytes ++ body) := by
  have hlines : ∀ fields : List CgiField, fields ≠ [] →
      fields.flatMap (fun f => f.line ++ ending.bytes) =
        ending.bytes.intercalate (fields.map (·.line)) ++ ending.bytes := by
    intro fields hne
    induction fields with
    | nil => exact absurd rfl hne
    | cons f fields ih =>
        cases fields with
        | nil => simp
        | cons g fields =>
            rw [List.flatMap_cons, ih (by simp), List.map_cons (a := f), List.map_cons,
              List.intercalate_cons_cons]
            simp
  rw [CgiHeaders.print, hlines _ headers.nonempty, fieldText, List.append_assoc]

/-- The fields are read off their text. -/
theorem foldl_text (ending : LineEnding) {fields : List CgiField} (hne : fields ≠ [])
    (hfits : ∀ f ∈ fields, f.Fits) (r : FastCgiResponse) :
    (getlines (ending.bytes.intercalate (fields.map (·.line)))).foldl responseLine r =
      fields.foldl noteCgiField r := by
  induction fields generalizing r with
  | nil => exact absurd rfl hne
  | cons f fields ih =>
      have hf := hfits f List.mem_cons_self
      have hlf := (line_fits hf).2
      cases fields with
      | nil =>
          rw [List.map_singleton, List.intercalate_singleton, getlines_last hlf (line_ne_nil f),
            List.foldl_cons, responseLine_field r hf]
          rfl
      | cons g fields =>
          have hrest := ih (by simp) fun g hg => hfits g (List.mem_cons_of_mem _ hg)
          rw [List.map_cons, List.map_cons, List.intercalate_cons_cons, ← List.map_cons,
            List.foldl_cons, ← responseLine_field r hf]
          cases ending with
          | crlf =>
              rw [LineEnding.bytes, getlines_crlf hlf, List.foldl_cons, responseLine_cr]
              exact hrest _
          | lf =>
              rw [LineEnding.bytes, List.append_assoc, List.singleton_append, getlines_line hlf,
                List.foldl_cons]
              exact hrest _

theorem lines_fit {headers : CgiHeaders} :
    ∀ l ∈ headers.fields.map (·.line), l ≠ [] ∧ cr ∉ l ∧ lf ∉ l := by
  intro l hl
  obtain ⟨f, hf, rfl⟩ := List.mem_map.mp hl
  exact ⟨line_ne_nil f, line_fits (headers.fits f hf)⟩

/-- An empty line ends the fields, and none stands between them. -/
theorem find_crlf2_fields (headers : CgiHeaders) (body : Bytes) :
    find? crlf2 (headers.print .crlf body) = some (fieldText headers .crlf).length := by
  have hsplit : splitCrlf (fieldText headers .crlf) = headers.fields.map (·.line) :=
    splitCrlf_intercalate (by simpa using headers.nonempty) fun l hl => (lines_fit l hl).2.2
  rw [print_eq, LineEnding.bytes, show crlf2 = crlf ++ crlf from rfl]
  refine find?_crlf_piece (· = []) (fun v => ⟨[], ?_, rfl⟩) ?_ body
  · rw [show crlf ++ v = [] ++ crlf ++ v from rfl, splitCrlf_append]
    rfl
  · intro l hl
    rw [hsplit] at hl
    exact (lines_fit l (List.mem_of_mem_tail hl)).1

/-- Two line feeds in a row, behind a line that is not empty. -/
theorem find_lf2_line {l : Bytes} (hne : l ≠ []) (hlf : lf ∉ l) {v : Bytes} {i : Nat}
    (h : find? [lf, lf] (lf :: v) = some i) :
    find? [lf, lf] (l ++ lf :: v) = some (l.length + i) := by
  induction l with
  | nil => exact absurd rfl hne
  | cons c cs ih =>
      rw [List.mem_cons, not_or] at hlf
      have hfirst : ¬ [lf, lf].isPrefixOf (c :: (cs ++ lf :: v)) = true := by
        rw [List.isPrefixOf_iff_prefix, List.cons_prefix_cons]
        exact fun hp => hlf.1 hp.1
      rw [List.cons_append, find?, if_neg hfirst]
      cases cs with
      | nil =>
          rw [List.nil_append, h, List.length_singleton, Option.map_some, Nat.add_comm]
      | cons d ds =>
          rw [ih (by simp) hlf.2, Option.map_some, List.length_cons (a := c)]
          congr 1
          omega

theorem find_lf2_fields (headers : CgiHeaders) (body : Bytes) :
    find? [lf, lf] (headers.print .lf body) = some (fieldText headers .lf).length := by
  have hlines : ∀ ls : List Bytes, ls ≠ [] → (∀ l ∈ ls, l ≠ [] ∧ cr ∉ l ∧ lf ∉ l) →
      find? [lf, lf] ([lf].intercalate ls ++ lf :: (lf :: body)) =
        some ([lf].intercalate ls).length := by
    intro ls hne hfit
    induction ls with
    | nil => exact absurd rfl hne
    | cons l ls ih =>
        obtain ⟨hl, -, hlf⟩ := hfit l List.mem_cons_self
        cases ls with
        | nil =>
            rw [List.intercalate_singleton]
            exact find_lf2_line hl hlf (i := 0) (by rw [find?, if_pos (by simp)])
        | cons m ms =>
            have hrest := ih (by simp) fun k hk => hfit k (List.mem_cons_of_mem _ hk)
            obtain ⟨hm, -, hmlf⟩ := hfit m (List.mem_cons_of_mem _ List.mem_cons_self)
            obtain ⟨c, cs, rfl⟩ := List.exists_cons_of_ne_nil hm
            have hc : lf ≠ c := fun h => hmlf (h ▸ List.mem_cons_self)
            -- the line feed behind `l` is followed by the first byte of a line
            have hnext : find? [lf, lf] (lf :: ([lf].intercalate ((c :: cs) :: ms) ++
                lf :: (lf :: body))) = some (([lf].intercalate ((c :: cs) :: ms)).length + 1) := by
              rw [find?, if_neg, hrest, Option.map_some]
              rw [List.isPrefixOf_iff_prefix, List.cons_prefix_cons]
              rintro ⟨-, t, ht⟩
              cases ms with
              | nil => simp [hc] at ht
              | cons k ks => simp [List.intercalate_cons_cons, hc] at ht
            rw [List.intercalate_cons_cons, List.append_assoc, List.append_assoc,
              List.singleton_append, find_lf2_line hl hlf hnext]
            simp
  rw [print_eq, LineEnding.bytes, List.singleton_append, List.append_assoc, List.singleton_append]
  exact hlines _ (by simpa using headers.nonempty) lines_fit

/-- CRLFCRLF is not found before the first carriage return. -/
theorem crlf2_behind {u v : Bytes} (hu : cr ∉ u) {i : Nat} (h : find? crlf2 (u ++ v) = some i) :
    u.length ≤ i := by
  by_contra hlt
  have hp := (find?_eq_some_iff.mp h).2.1
  rw [List.drop_append_of_le_length (by omega), List.drop_eq_getElem_cons (by omega),
    List.cons_append] at hp
  refine hu ?_
  rw [(List.cons_prefix_cons.mp hp).1]
  exact List.getElem_mem _

theorem cr_notMem_lines (headers : CgiHeaders) : cr ∉ fieldText headers .lf ++ [lf] ++ [lf] := by
  intro h
  rw [List.mem_append, List.mem_append] at h
  rcases h with (h | h) | h
  · rcases mem_intercalate h with h | ⟨l, hl, h⟩
    · exact absurd h (by decide)
    · exact (lines_fit l hl).2.1 h
  · exact absurd h (by decide)
  · exact absurd h (by decide)

/-- What the printed response says. -/
def responseOf (headers : CgiHeaders) (body : Bytes) : FastCgiResponse :=
  { status := ((statusOf headers.fields).map Int.ofNat).getD 200
    headers := othersOf headers.fields
    body := body }

theorem responseLine_body (r : FastCgiResponse) (l : Bytes) : (responseLine r l).body = r.body := by
  rw [responseLine]
  split
  · rfl
  · simp only []
    split <;> rfl

theorem foldl_responseLine_body (ls : List Bytes) (r : FastCgiResponse) :
    (ls.foldl responseLine r).body = r.body := by
  induction ls generalizing r with
  | nil => rfl
  | cons l ls ih => rw [List.foldl_cons, ih, responseLine_body]

/-- Once the end of the fields is found, everything is read back. -/
theorem foldl_fieldText (headers : CgiHeaders) (ending : LineEnding) (body : Bytes) :
    (getlines (fieldText headers ending)).foldl responseLine { body := body } =
      responseOf headers body := by
  rw [fieldText, foldl_text ending headers.nonempty headers.fits,
    noteCgiFields headers.distinct headers.fits _ (by simp)]
  rfl

/-! ## The whole output -/

/-- The output is read back if and only if its lines end with CRLF or no
CRLFCRLF stands in the content. Otherwise the content is cut short. -/
theorem cgi_output_undone_iff (headers : CgiHeaders) (ending : LineEnding) (body : Bytes) :
    parseCgiResponse (headers.print ending body) = responseOf headers body ↔
      ending = .crlf ∨ ¬ crlf2 <:+: body := by
  have hfields := foldl_fieldText headers ending body
  have hprint := print_eq headers ending body
  cases ending with
  | crlf =>
      refine iff_of_true ?_ (Or.inl rfl)
      rw [parseCgiResponse, find_crlf2_fields, hprint, LineEnding.bytes]
      simp only []
      rw [List.append_assoc, List.take_left, ← List.drop_drop, List.drop_left]
      exact hfields
  | lf =>
      have hlines := cr_notMem_lines headers
      have htext : headers.print .lf body = fieldText headers .lf ++ [lf] ++ [lf] ++ body := by
        rw [hprint, LineEnding.bytes]
        simp
      cases hfind : find? crlf2 (headers.print .lf body) with
      | none =>
          have hnone := find?_eq_none_iff_no_occurrence.mp hfind
          refine iff_of_true ?_ (Or.inr fun h => hnone ?_)
          · rw [parseCgiResponse, hfind, find_lf2_fields, hprint, LineEnding.bytes]
            simp only [Option.map_some]
            rw [List.append_assoc, List.take_left, ← List.drop_drop, List.drop_left]
            exact hfields
          · rw [htext]
            exact h.trans (List.suffix_append _ body).isInfix
      | some split =>
          have hbehind : (fieldText headers .lf ++ [lf] ++ [lf]).length ≤ split :=
            crlf2_behind hlines (htext ▸ hfind)
          have hin : crlf2 <:+: body := by
            have hp := (find?_eq_some_iff.mp hfind).2.1
            rw [htext, List.drop_append, List.drop_eq_nil_of_le hbehind, List.nil_append] at hp
            exact hp.isInfix.trans (List.drop_suffix _ body).isInfix
          refine iff_of_false (fun h => ?_) (by simp [hin])
          -- the content that is answered is shorter
          have hbody := congrArg FastCgiResponse.body h
          rw [parseCgiResponse, hfind] at hbody
          simp only [foldl_responseLine_body, responseOf] at hbody
          have hlength := congrArg List.length hbody
          have hle := find?_length_le hfind
          rw [show crlf2.length = 4 from rfl] at hle
          rw [List.length_drop] at hlength
          rw [htext, List.length_append] at hlength hle
          omega

/-- Fields with bare line feeds, and content that begins with two CRLF. -/
def lineFeedOutput : CgiHeaders where
  fields := [.other (bytes "X") 1 (bytes "y")]
  nonempty := by decide
  fits := by decide
  distinct := by decide

/-- The content is lost. -/
theorem lineFeedOutput_cut :
    parseCgiResponse (lineFeedOutput.print .lf crlf2) =
        { status := 200, headers := [(bytes "X", bytes "y")], body := [] } ∧
      parseCgiResponse (lineFeedOutput.print .lf crlf2) ≠ responseOf lineFeedOutput crlf2 := by
  decide

end HydrogenHttpd.Ref
