import Mathlib

/-!
# Reading what arrives in pieces

A peer sends a text and then closes the connection, or the connection breaks.
A read delivers some of what is left, at least one element and at most as many
as were asked for; how many is not the reader's choice. `Delivery` keeps the
three things apart: the text, how it is cut, and how it ends.

Two loops cover the readers of a server. `gather` reads until what it has
passes a test, within a limit, and `collect` reads a known number of elements.
What they answer depends on the text and its end and not on the cuts
(`gather_spec`, `collect_spec`), with one reservation: `gather` may have read
more than the test needed.
-/

namespace HydrogenHttpd.Base

variable {α ε : Type}

/-- What a peer still sends, how much each read delivers of it at most, and
the failure it ends in, if it does not end in an orderly close. -/
structure Delivery (α ε : Type) where
  pending : List α
  cuts : List Nat := []
  failure : Option ε := none

/-- What one read answers. -/
inductive ReadResult (α ε : Type) where
  | data (piece : List α)
  | eof
  | failed (e : ε)

namespace Delivery

/-- One read of at most `size` elements. -/
def readSome (s : Delivery α ε) (size : Nat) : ReadResult α ε × Delivery α ε :=
  if s.pending.isEmpty then
    match s.failure with
    | none => (.eof, s)
    | some e => (.failed e, s)
  else
    let n := min size (max 1 (s.cuts.headD size))
    (.data (s.pending.take n), { s with pending := s.pending.drop n, cuts := s.cuts.tail })

/-- A read delivers something while there is something left. -/
theorem readSome_of_pending {s : Delivery α ε} {size : Nat} (hs : s.pending ≠ [])
    (hsize : 0 < size) :
    ∃ n s', s.readSome size = (.data (s.pending.take n), s') ∧ 0 < n ∧ n ≤ size ∧
      n ≤ s.pending.length ∧ s'.pending = s.pending.drop n ∧ s'.failure = s.failure := by
  have hpos : 0 < s.pending.length := List.length_pos_iff.mpr hs
  have hempty : s.pending.isEmpty = false := by simpa using hs
  refine ⟨min (min size (max 1 (s.cuts.headD size))) s.pending.length,
    { s with
      pending := s.pending.drop (min size (max 1 (s.cuts.headD size)))
      cuts := s.cuts.tail }, ?_, by omega, by omega, by omega, ?_, rfl⟩
  · rw [readSome, hempty, ← List.take_eq_take_min]
    rfl
  · rw [List.drop_eq_drop_min]

theorem readSome_of_empty {s : Delivery α ε} (hs : s.pending = []) (size : Nat) :
    s.readSome size = ((match s.failure with | none => .eof | some e => .failed e), s) := by
  rw [readSome, hs, List.isEmpty_nil, if_pos rfl]
  cases s.failure <;> rfl

end Delivery

/-! ## Reading until a test passes -/

/-- How `gather` ends. -/
inductive Gathered (α ε : Type) where
  /-- The test passed. -/
  | complete (data : List α)
  /-- The limit was reached first. -/
  | full
  /-- The text ended first. -/
  | ended (data : List α)
  /-- The connection broke first. -/
  | failed (e : ε)

/-- Read in chunks until `stop` holds of what was read, never more than `limit`. -/
def gather (stop : List α → Bool) (limit chunk : Nat) :
    Nat → List α → Delivery α ε → Gathered α ε × Delivery α ε
  | 0, _, s => (.full, s)
  | fuel + 1, data, s =>
      if stop data then (.complete data, s)
      else if limit ≤ data.length then (.full, s)
      else
        match s.readSome (min chunk (limit - data.length)) with
        | (.data piece, s) => gather stop limit chunk fuel (data ++ piece) s
        | (.eof, s) => (.ended data, s)
        | (.failed e, s) => (.failed e, s)

/-- What `gather` answers is decided by the text within the limit, but for
where in the text it stopped. -/
theorem gather_spec {stop : List α → Bool} (hmono : ∀ a b, stop a → stop (a ++ b))
    (limit : Nat) {chunk : Nat} (hchunk : 0 < chunk) :
    ∀ {fuel : Nat} (data : List α) (s : Delivery α ε), s.pending.length < fuel →
      data.length ≤ limit →
      let text := data ++ s.pending
      if stop (text.take limit) then
        ∃ n s', gather stop limit chunk fuel data s = (.complete (text.take n), s') ∧
          n ≤ limit ∧ stop (text.take n) ∧ s'.pending = text.drop n ∧ s'.failure = s.failure
      else if limit ≤ text.length then
        (gather stop limit chunk fuel data s).1 = .full
      else (gather stop limit chunk fuel data s).1 =
        match s.failure with
        | none => .ended text
        | some e => .failed e := by
  intro fuel
  induction fuel with
  | zero => intro data s hfuel; exact absurd hfuel (Nat.not_lt_zero _)
  | succ fuel ih =>
      intro data s hfuel hdata
      have hwithin : (data ++ s.pending).take limit
          = data ++ s.pending.take (limit - data.length) := by
        rw [List.take_append, List.take_of_length_le hdata]
      simp only [gather]
      by_cases hstop : stop data = true
      · rw [if_pos hstop]
        rw [if_pos (by rw [hwithin]; exact hmono _ _ hstop)]
        exact ⟨data.length, s, by rw [List.take_left], hdata, by rwa [List.take_left],
          by rw [List.drop_left], rfl⟩
      · rw [if_neg hstop]
        by_cases hfull : limit ≤ data.length
        · -- what is within the limit has been read, and it does not pass
          have htake : (data ++ s.pending).take limit = data := by
            rw [hwithin, Nat.sub_eq_zero_of_le hfull, List.take_zero, List.append_nil]
          rw [if_pos hfull, htake, if_neg hstop, if_pos (by simp; omega)]
        · rw [if_neg hfull]
          by_cases hs : s.pending = []
          · rw [Delivery.readSome_of_empty hs, hs, List.append_nil, List.take_of_length_le hdata,
              if_neg hstop, if_neg hfull]
            cases s.failure <;> rfl
          · obtain ⟨n, s', hread, hpos, hsize, hlen, hrest, hfail⟩ :=
              Delivery.readSome_of_pending hs (show 0 < min chunk (limit - data.length) by omega)
            have htext : data ++ s.pending.take n ++ s'.pending = data ++ s.pending := by
              rw [hrest, List.append_assoc, List.take_append_drop]
            have hstep := ih (data ++ s.pending.take n) s'
              (by rw [hrest, List.length_drop]; omega)
              (by rw [List.length_append, List.length_take]; omega)
            simp only [hread]
            simp only [htext, hfail] at hstep
            exact hstep

/-! ## Reading a number of elements -/

/-- Read in chunks until nothing is missing. An early end is no failure. -/
def collect (chunk : Nat) : Nat → Nat → List α → Delivery α ε →
    Except ε (List α) × Delivery α ε
  | 0, _, data, s => (.ok data, s)
  | fuel + 1, missing, data, s =>
      if missing = 0 then (.ok data, s)
      else
        match s.readSome (min chunk missing) with
        | (.data piece, s) => collect chunk fuel (missing - piece.length) (data ++ piece) s
        | (.eof, s) => (.ok data, s)
        | (.failed e, s) => (.error e, s)

/-- `collect` answers the next elements of the text, and all there are when an
orderly end comes too early. -/
theorem collect_spec {chunk : Nat} (hchunk : 0 < chunk) :
    ∀ {fuel : Nat} (missing : Nat) (data : List α) (s : Delivery α ε), s.pending.length < fuel →
      (collect chunk fuel missing data s).1 =
        match s.failure with
        | none => .ok (data ++ s.pending.take missing)
        | some e =>
            if missing ≤ s.pending.length then .ok (data ++ s.pending.take missing)
            else .error e := by
  intro fuel
  induction fuel with
  | zero => intro missing data s hfuel; exact absurd hfuel (Nat.not_lt_zero _)
  | succ fuel ih =>
      intro missing data s hfuel
      rw [collect]
      by_cases hmissing : missing = 0
      · rw [if_pos hmissing, hmissing]
        cases s.failure <;> simp
      · rw [if_neg hmissing]
        by_cases hs : s.pending = []
        · rw [Delivery.readSome_of_empty hs]
          cases s.failure with
          | none => simp [hs]
          | some e => simp [hs, hmissing]
        · obtain ⟨n, s', hread, hpos, hsize, hlen, hrest, hfail⟩ :=
            Delivery.readSome_of_pending hs (show 0 < min chunk missing by omega)
          have htake : s.pending.take n ++ s'.pending.take (missing - n)
              = s.pending.take missing := by
            rw [hrest, ← List.take_add, Nat.add_sub_cancel' (by omega)]
          have hiff : missing - n ≤ s'.pending.length ↔ missing ≤ s.pending.length := by
            rw [hrest, List.length_drop]
            omega
          have hstep := ih (missing - n) (data ++ s.pending.take n) s'
            (by rw [hrest, List.length_drop]; omega)
          simp only [hread, List.length_take, Nat.min_eq_left hlen]
          simp only [hfail, List.append_assoc, htake, hiff] at hstep
          exact hstep

end HydrogenHttpd.Base
