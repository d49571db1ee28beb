import HydrogenHttpd.Ref.RequestReader
import HydrogenHttpd.Spec.HeaderBlock

/-!
# Both parsers read a header block line by line

The two parsers walk the text with positions; a `HeaderBlock` is a list of
lines. This file trades the first for the second, once: `headerLoop_fields`
says the position loop makes the same steps as `scanFields`, a plain
recursion over the lines, and `parseHeadersOnly_block` and `parse_block` lift
that to the two parsers. Every later fact about either of them is a fact
about `scanFields`.
-/

namespace HydrogenHttpd.Ref

open Base Spec

/-- One pass of the loop body: the two size checks, then the line itself. -/
def fieldStep (onLine : HeaderScan → Bytes → Except HttpParseResult HeaderScan)
    (limits : HttpParseLimits) (st : HeaderScan) (line : Bytes) :
    Except HttpParseResult HeaderScan :=
  if limits.maxHeaderLineBytes < line.length then .error headerFieldsTooLarge
  else if limits.maxHeaders < st.headerCount + 1 then .error headerFieldsTooLarge
  else onLine { st with headerCount := st.headerCount + 1 } line

/-- The loop over the header lines, without the positions. -/
def scanFields (onLine : HeaderScan → Bytes → Except HttpParseResult HeaderScan)
    (limits : HttpParseLimits) : List Bytes → HeaderScan → Except HttpParseResult HeaderScan
  | [], st => .ok st
  | line :: rest, st =>
      match fieldStep onLine limits st line with
      | .error e => .error e
      | .ok st' => scanFields onLine limits rest st'

theorem length_le_joinFields (fields : List Bytes) :
    fields.length ≤ (joinFields fields).length := by
  induction fields with
  | nil => simp
  | cons f fs ih =>
      simp only [joinFields_cons, List.length_append, List.length_cons,
        show crlf.length = 2 from rfl]
      omega

theorem headerLoop_fields
    {onLine : HeaderScan → Bytes → Except HttpParseResult HeaderScan}
    {limits : HttpParseLimits} {raw v : Bytes} {headerEnd : Nat} {fields : List Bytes} :
    ∀ {pre : Bytes} {st : HeaderScan} {fuel : Nat},
      (∀ f ∈ fields, f ≠ [] ∧ ¬ crlf <:+: f) →
      raw = pre ++ (joinFields fields ++ (crlf ++ v)) →
      headerEnd + 2 = pre.length + (joinFields fields).length →
      fields.length < fuel →
      headerLoop onLine limits raw headerEnd fuel pre.length st
        = scanFields onLine limits fields st := by
  induction fields with
  | nil =>
      intro pre st fuel _ hraw _ hfuel
      obtain ⟨n, rfl⟩ : ∃ n, fuel = n + 1 := ⟨fuel - 1, by simp at hfuel; omega⟩
      have hfind : findFrom crlf raw pre.length = some pre.length := by
        rw [findFrom, hraw, List.drop_left, joinFields_nil, List.nil_append,
          show crlf ++ v = [] ++ (crlf ++ v) from rfl, find?_crlf_append (by decide)]
        simp
      rw [headerLoop, hfind, scanFields]
      simp
  | cons f fs ih =>
      intro pre st fuel hf hraw hend hfuel
      obtain ⟨n, rfl⟩ : ∃ n, fuel = n + 1 := ⟨fuel - 1, by simp at hfuel; omega⟩
      obtain ⟨hne, hcrlf⟩ := hf f (by simp)
      have hpos : 0 < f.length := List.length_pos_iff.mpr hne
      have htail : raw.drop pre.length = f ++ (crlf ++ (joinFields fs ++ (crlf ++ v))) := by
        rw [hraw, List.drop_left]
        simp
      have hfind : findFrom crlf raw pre.length = some (f.length + pre.length) := by
        rw [findFrom, htail, find?_crlf_append hcrlf]
        rfl
      have hline : substr raw pre.length f.length = f := by
        rw [substr, htail, List.take_left]
      have hlen : (joinFields (f :: fs)).length = f.length + 2 + (joinFields fs).length := by
        simp [crlf]
        omega
      rw [headerLoop, hfind, scanFields]
      simp only []
      rw [if_neg (show ¬ f.length + pre.length = pre.length by omega),
        if_neg (show ¬ headerEnd < f.length + pre.length by omega),
        show f.length + pre.length - pre.length = f.length by omega, hline, fieldStep]
      split
      · rfl
      · split
        · rfl
        · cases onLine { st with headerCount := st.headerCount + 1 } f with
          | error e => rfl
          | ok st' =>
              have hpre : f.length + pre.length + 2 = (pre ++ f ++ crlf).length := by
                simp [crlf]
                omega
              rw [hpre]
              refine ih (fun g hg => hf g (by simp [hg])) ?_ ?_ ?_
              · rw [hraw]
                simp
              · simp only [List.length_append, show crlf.length = 2 from rfl]
                omega
              · simpa using hfuel

/-! ## The two parsers on a block -/

theorem render_length (b : HeaderBlock) :
    b.render.length = b.first.length + (joinFields b.fields).length + 4 := by
  simp [HeaderBlock.render, crlf]
  omega

theorem render_find_crlf (b : HeaderBlock) (v : Bytes) :
    find? crlf (b.render ++ v) = some b.first.length := by
  have : b.render ++ v = b.first ++ (crlf ++ (joinFields b.fields ++ (crlf ++ v))) := by
    simp [HeaderBlock.render]
  rw [this, find?_crlf_append b.first_crlf]

theorem render_substr_first (b : HeaderBlock) (v : Bytes) :
    substr (b.render ++ v) 0 b.first.length = b.first := by
  simp [substr, HeaderBlock.render]

theorem headerLoop_block
    (onLine : HeaderScan → Bytes → Except HttpParseResult HeaderScan)
    (limits : HttpParseLimits) (b : HeaderBlock) (v : Bytes) {fuel : Nat}
    (hfuel : b.render.length ≤ fuel) :
    headerLoop onLine limits (b.render ++ v) (b.render.length - 4) fuel
        (b.first.length + 2) {} = scanFields onLine limits b.fields {} := by
  have hlen := render_length b
  rw [show b.first.length + 2 = (b.first ++ crlf).length by simp [crlf]]
  refine headerLoop_fields (v := v) b.fields_crlf ?_ ?_ ?_
  · simp [HeaderBlock.render]
  · simp only [List.length_append, show crlf.length = 2 from rfl]
    omega
  · have := length_le_joinFields b.fields
    omega

/-- `parseHeadersOnly` as a walk over the lines of the block. -/
theorem parseHeadersOnly_block {b : HeaderBlock} (hend : EndsAtBlank b.render)
    (limits : HttpParseLimits) :
    parseHeadersOnly b.render limits =
      if limits.maxHeaderLineBytes < b.first.length then headerFieldsTooLarge
      else
        match requestLine localIsToken limits b.first with
        | .error e => e
        | .ok request =>
            match scanFields headerLineOnly limits b.fields {} with
            | .error e => e
            | .ok st => finishHeadersOnly limits request st := by
  have hlen := render_length b
  have hcrlf := render_find_crlf b []
  have hfirst := render_substr_first b []
  have hloop := headerLoop_block headerLineOnly limits b []
    (Nat.le_refl b.render.length)
  rw [List.append_nil] at hcrlf hfirst hloop
  rw [EndsAtBlank] at hend
  rw [parseHeadersOnly, hend]
  simp only [hcrlf, hfirst, hloop]
  exact if_neg (show ¬ b.render.length - 4 < b.first.length by omega)

/-- `StrictHttpParser::parse` on a block and a body. -/
theorem parse_block {b : HeaderBlock} (hend : EndsAtBlank b.render) (body : Bytes)
    (limits : HttpParseLimits) :
    StrictHttpParser.parse (b.render ++ body) limits =
      if limits.maxHeaderLineBytes < b.first.length then headerFieldsTooLarge
      else
        match requestLine StrictHttpParser.isToken limits b.first with
        | .error e => e
        | .ok request =>
            match scanFields StrictHttpParser.headerLine limits b.fields {} with
            | .error e => e
            | .ok st =>
                StrictHttpParser.finish limits (b.render ++ body) b.render.length request st := by
  have hlen := render_length b
  have hne : b.render ++ body ≠ [] :=
    List.append_ne_nil_of_left_ne_nil (List.ne_nil_of_length_pos (by omega)) body
  have hend' : find? crlf2 (b.render ++ body) = some (b.render.length - 4) :=
    find?_append hend body
  rw [StrictHttpParser.parse, if_neg hne, hend']
  simp only [render_find_crlf, render_substr_first,
    headerLoop_block _ limits b body (show b.render.length ≤ (b.render ++ body).length by simp)]
  rw [show b.render.length - 4 + 4 = b.render.length by omega]
  exact if_neg (show ¬ b.render.length - 4 < b.first.length by omega)

end HydrogenHttpd.Ref
