import HydrogenHttpd.Ref.RequestReader
import HydrogenHttpd.Spec.HeaderBlock

/-!
# What the readers make of a connection

`readHeadersOnly` stops wherever the piece that completed the header section
ended, so it has read some of the body too. What it answers is still decided
by the bytes alone, up to how they are split between `leftover` and the
connection (`readHeadersOnly_spec`); and the body readers undo that split
(`readBodyRest_spec`).
-/

namespace HydrogenHttpd.Ref

open Base Spec

theorem hasBlankLine_append (a b : Bytes) (h : hasBlankLine a = true) :
    hasBlankLine (a ++ b) = true := by
  obtain ⟨i, hi⟩ := Option.isSome_iff_exists.mp h
  rw [hasBlankLine, find?_append hi]
  rfl

/-- How `readHeadersOnly` fails when no header section ends within the limit. -/
def headerFailure (config : ServerConfig) (stream : Connection) : Bytes :=
  if config.maxRequestBytes ≤ stream.pending.length then bytes "request headers too large"
  else
    match stream.failure with
    | none => bytes "incomplete HTTP headers"
    | some e => bytes "failed to read request headers: " ++ e

/-- Everything `readHeadersOnly` does: it finds the first empty line within the
limit, or fails as the bytes and their end determine. -/
theorem readHeadersOnly_spec (stream : Connection) (config : ServerConfig) :
    match find? crlf2 (stream.pending.take config.maxRequestBytes) with
    | some i =>
        ∃ leftover stream', readHeadersOnly stream config =
            (.ok { headerPart := stream.pending.take (i + 4), leftover := leftover }, stream') ∧
          leftover ++ stream'.pending = stream.pending.drop (i + 4) ∧
          stream'.failure = stream.failure
    | none => (readHeadersOnly stream config).1 = .error (headerFailure config stream) := by
  have hgather := gather_spec hasBlankLine_append config.maxRequestBytes
    (show 0 < 512 by omega) [] stream (Nat.lt_succ_self _) (Nat.zero_le _)
  simp only [List.nil_append] at hgather
  cases hfind : find? crlf2 (stream.pending.take config.maxRequestBytes) with
  | some i =>
      rw [hasBlankLine, hfind, Option.isSome_some, if_pos rfl] at hgather
      obtain ⟨n, stream', hread, hn, hstop, hrest, hfail⟩ := hgather
      obtain ⟨j, hj⟩ := Option.isSome_iff_exists.mp hstop
      -- the section ends in what was read, at the same place
      have hij : j = i := by
        have hwithin : stream.pending.take n
            = (stream.pending.take config.maxRequestBytes).take n := by
          rw [List.take_take, Nat.min_eq_left hn]
        have h := find?_append hj ((stream.pending.take config.maxRequestBytes).drop n)
        rw [hwithin, List.take_append_drop, hfind] at h
        exact (Option.some.inj h).symm
      subst hij
      have hlen := find?_length_le hj
      rw [List.length_take, show crlf2.length = 4 from rfl] at hlen
      refine ⟨(stream.pending.take n).drop (j + 4), stream', ?_, ?_, hfail⟩
      · rw [readHeadersOnly, hread]
        simp only [hj]
        rw [List.take_take, Nat.min_eq_left (by omega)]
      · rw [hrest, List.drop_take, show stream.pending.drop n
          = (stream.pending.drop (j + 4)).drop (n - (j + 4)) by
            rw [List.drop_drop]; congr 1; omega, List.take_append_drop]
  | none =>
      rw [hasBlankLine, hfind, Option.isSome_none, if_neg Bool.false_ne_true] at hgather
      simp only [headerFailure]
      by_cases hfull : config.maxRequestBytes ≤ stream.pending.length
      · rw [if_pos hfull] at hgather ⊢
        rw [readHeadersOnly]
        split
        · rfl
        · next h => rw [h] at hgather; cases hgather
        · next h => rw [h] at hgather; cases hgather
        · next h => rw [h] at hgather; cases hgather
      · rw [if_neg hfull] at hgather ⊢
        rw [List.take_of_length_le (by omega)] at hfind
        cases hend : stream.failure with
        | none =>
            rw [hend] at hgather
            rw [readHeadersOnly]
            split
            · next h => rw [h] at hgather; cases hgather
            · next h => rw [h] at hgather; cases hgather
            · next h => rw [h] at hgather; cases hgather
            · next h => rw [h] at hgather; cases hgather; rw [hfind]
        | some e =>
            rw [hend] at hgather
            rw [readHeadersOnly]
            split
            · next h => rw [h] at hgather; cases hgather
            · next h => rw [h] at hgather; cases hgather; rfl
            · next h => rw [h] at hgather; cases hgather
            · next h => rw [h] at hgather; cases hgather

/-- A header section that was read ends at its first empty line. -/
theorem endsAtBlank_of_read {stream : Connection} {config : ServerConfig}
    {headers : HeaderReadResult} {stream' : Connection}
    (h : readHeadersOnly stream config = (.ok headers, stream')) :
    EndsAtBlank headers.headerPart ∧
      headers.headerPart ++ (headers.leftover ++ stream'.pending) = stream.pending ∧
      headers.headerPart.length ≤ config.maxRequestBytes ∧
      stream'.failure = stream.failure := by
  have hspec := readHeadersOnly_spec stream config
  cases hfind : find? crlf2 (stream.pending.take config.maxRequestBytes) with
  | none =>
      rw [hfind, h] at hspec
      cases hspec
  | some i =>
      rw [hfind] at hspec
      obtain ⟨leftover, stream'', hread, hrest, hfail⟩ := hspec
      rw [h] at hread
      cases hread
      have hlen := find?_length_le hfind
      rw [List.length_take, show crlf2.length = 4 from rfl] at hlen
      have hend : find? crlf2 (stream.pending.take (i + 4)) = some i := by
        have := find?_take hfind (n := i + 4) (Nat.le_refl _)
        rwa [List.take_take, Nat.min_eq_left (by omega)] at this
      refine ⟨?_, ?_, ?_, hfail⟩
      · rw [EndsAtBlank, hend, List.length_take, Nat.min_eq_left (by omega), Nat.add_sub_cancel]
      · rw [hrest, List.take_append_drop]
      · rw [List.length_take]
        omega

/-- A section within the limit is read, whatever follows it. -/
theorem readHeadersOnly_of_section (stream : Connection) {config : ServerConfig} {h rest : Bytes}
    (hend : EndsAtBlank h) (hsize : h.length ≤ config.maxRequestBytes)
    (hsent : stream.pending = h ++ rest) :
    ∃ leftover stream', readHeadersOnly stream config =
        (.ok { headerPart := h, leftover := leftover }, stream') ∧
      leftover ++ stream'.pending = rest ∧ stream'.failure = stream.failure := by
  have hlen := find?_length_le hend
  rw [show crlf2.length = 4 from rfl] at hlen
  have hfind : find? crlf2 (stream.pending.take config.maxRequestBytes) = some (h.length - 4) := by
    rw [hsent]
    exact find?_take (find?_append hend rest)
      (by rw [show crlf2.length = 4 from rfl]; omega)
  have hspec := readHeadersOnly_spec stream config
  rw [hfind] at hspec
  obtain ⟨leftover, stream', hread, hrest, hfail⟩ := hspec
  rw [show h.length - 4 + 4 = h.length by omega, hsent, List.take_left] at hread
  rw [show h.length - 4 + 4 = h.length by omega, hsent, List.drop_left] at hrest
  exact ⟨leftover, stream', hread, hrest, hfail⟩

/-- What the body readers answer: the declared bytes, all there are if the
connection closes early, or the error it breaks with. -/
def bodyOf (failure : String) (rest : Bytes) (broken : Option Bytes) (contentLength : Nat) :
    Except Bytes Bytes :=
  match broken with
  | none => .ok (rest.take contentLength)
  | some e =>
      if contentLength ≤ rest.length then .ok (rest.take contentLength)
      else .error (bytes failure ++ e)

theorem readBodyRest_spec {chunk : Nat} (hchunk : 0 < chunk) (failure : String)
    (stream : Connection) (leftover : Bytes) (contentLength : Nat) :
    readBodyRest chunk failure stream leftover contentLength =
      bodyOf failure (leftover ++ stream.pending) stream.failure contentLength := by
  have hcollect := collect_spec hchunk (contentLength - leftover.length)
    (leftover.take contentLength) stream (Nat.lt_succ_self _)
  have htake : leftover.take contentLength ++ stream.pending.take (contentLength - leftover.length)
      = (leftover ++ stream.pending).take contentLength := List.take_append.symm
  have hiff : contentLength - leftover.length ≤ stream.pending.length ↔
      contentLength ≤ (leftover ++ stream.pending).length := by
    rw [List.length_append]
    omega
  rw [readBodyRest, hcollect]
  simp only [bodyOf]
  cases stream.failure with
  | none => simp only [htake]
  | some e =>
      simp only [htake, hiff]
      by_cases hle : contentLength ≤ (leftover ++ stream.pending).length
      · simp only [if_pos hle]
      · simp only [if_neg hle]

end HydrogenHttpd.Ref
