import Mathlib

/-!
# Counting in fixed windows

A counter that accepts at most `limit` calls in a window. A window starts with
the call that opens it and lasts until the first call `span` or more after
that, which opens the next one. Times are numbers and need not be distinct.

In a window at most `limit` calls are accepted by construction. A stretch of
time as long as a window meets two windows at most (`starts_in_span`), so no
such stretch sees more than twice the limit accepted, whatever its alignment.
-/

namespace HydrogenHttpd.Base

structure Window where
  start : Nat
  count : Nat
  deriving DecidableEq, Repr

/-- A call, the window it fell in, and its answer. -/
structure WindowCall where
  time : Nat
  start : Nat
  accepted : Bool
  deriving DecidableEq, Repr

namespace Window

variable (span limit : Nat)

/-- The window a call falls in. -/
def enter (now : Nat) : Option Window → Window
  | none => { start := now, count := 0 }
  | some w => if span ≤ now - w.start then { start := now, count := 0 } else w

/-- The call's answer, and the window behind it. -/
def ask (now : Nat) (w : Option Window) : Bool × Window :=
  let w := enter span now w
  if limit ≤ w.count then (false, w) else (true, { w with count := w.count + 1 })

/-- The calls at these times. -/
def trace : List Nat → Option Window → List WindowCall
  | [], _ => []
  | now :: times, w =>
      let (accepted, w) := ask span limit now w
      { time := now, start := w.start, accepted := accepted } :: trace times (some w)

variable {span limit}

theorem ask_start (now : Nat) (w : Option Window) :
    (ask span limit now w).2.start = (enter span now w).start := by
  rw [ask]
  split <;> rfl

/-- A window that opened `span` ago is as good as none. -/
theorem ask_stale {now : Nat} {w : Window} (h : span ≤ now - w.start) :
    ask span limit now (some w) = ask span limit now none := by
  have henter : enter span now (some w) = enter span now none := if_pos h
  rw [ask, ask, henter]

/-- Calls of one window are in its time, and another window is a `span` away. -/
structure Spaced (span : Nat) (calls : List WindowCall) : Prop where
  within : ∀ c ∈ calls, c.start ≤ c.time ∧ c.time < c.start + span
  apart : calls.Pairwise fun c d => c.start = d.start ∨ c.start + span ≤ d.start

/-- How many calls of the window that starts there are accepted. -/
def acceptedIn (start : Nat) (calls : List WindowCall) : Nat :=
  calls.countP fun c => c.start == start && c.accepted

/-- How many calls in that stretch of time are accepted. -/
def acceptedBetween (t span : Nat) (calls : List WindowCall) : Nat :=
  calls.countP fun c => decide (t ≤ c.time ∧ c.time < t + span) && c.accepted

theorem acceptedIn_cons (start : Nat) (c : WindowCall) (calls : List WindowCall) :
    acceptedIn start (c :: calls) =
      acceptedIn start calls + if c.start = start ∧ c.accepted = true then 1 else 0 := by
  rw [acceptedIn, List.countP_cons, ← acceptedIn]
  simp only [Bool.and_eq_true, beq_iff_eq]

/-- What a window has accepted already. -/
def used (start : Nat) : Option Window → Nat
  | none => 0
  | some w => if w.start = start then w.count else 0

/-- The window of a call is the one before, or starts a `span` later and is
empty. -/
theorem enter_cases (hspan : 0 < span) {now : Nat} {w : Option Window}
    (hw : ∀ v, w = some v → v.start ≤ now) :
    (enter span now w).start ≤ now ∧ now < (enter span now w).start + span ∧
      (w = some (enter span now w) ∨
        (enter span now w).count = 0 ∧
          ∀ v, w = some v → v.start + span ≤ (enter span now w).start) := by
  cases w with
  | none => exact ⟨le_refl _, by simp [enter, hspan], Or.inr ⟨rfl, nofun⟩⟩
  | some v =>
      have hstart := hw v rfl
      rw [enter]
      split
      · next hover =>
          refine ⟨le_refl _, by simp [hspan], Or.inr ⟨rfl, ?_⟩⟩
          rintro u ⟨⟩
          simp only
          omega
      · next hopen => exact ⟨hstart, by omega, Or.inl rfl⟩

theorem ask_eq (now : Nat) (w : Option Window) :
    ask span limit now w = (decide ((enter span now w).count < limit),
      { start := (enter span now w).start
        count := (enter span now w).count +
          if (enter span now w).count < limit then 1 else 0 }) := by
  simp only [ask]
  split
  · next h => simp [Nat.not_lt.mpr h]
  · next h => simp [Nat.not_le.mp h]

/-- What is known of a trace, given the window it starts in. -/
structure Traced (span limit : Nat) (w : Option Window) (calls : List WindowCall) : Prop where
  spaced : Spaced span calls
  after : ∀ v, w = some v → ∀ c ∈ calls, c.start = v.start ∨ v.start + span ≤ c.start
  counted : ∀ start, used start w + acceptedIn start calls ≤ limit

theorem traced (hspan : 0 < span) {times : List Nat} {w : Option Window}
    (hmono : times.Pairwise (· ≤ ·))
    (hw : ∀ v, w = some v → v.count ≤ limit ∧ ∀ now ∈ times, v.start ≤ now) :
    Traced span limit w (trace span limit times w) := by
  induction times generalizing w with
  | nil =>
      refine ⟨⟨nofun, List.Pairwise.nil⟩, fun _ _ => nofun, fun start => ?_⟩
      cases w with
      | none => exact Nat.zero_le _
      | some v =>
          simp only [used, trace, acceptedIn, List.countP_nil, Nat.add_zero]
          split
          · exact (hw v rfl).1
          · exact Nat.zero_le _
  | cons now times ih =>
      rw [List.pairwise_cons] at hmono
      obtain ⟨hstart, hend, hcases⟩ := enter_cases (w := w) hspan
        fun v hv => (hw v hv).2 now List.mem_cons_self
      have hcount : (enter span now w).count ≤ limit := by
        rcases hcases with hsame | ⟨hnew, -⟩
        · exact (hw _ hsame).1
        · omega
      rw [trace, ask_eq]
      dsimp only
      generalize enter span now w = e at hstart hend hcases hcount
      have hrest := ih (w := some { start := e.start
                                    count := e.count + if e.count < limit then 1 else 0 })
        hmono.2 (by
          rintro v ⟨⟩
          refine ⟨by simp only; split <;> omega, fun t ht => ?_⟩
          exact le_trans hstart (hmono.1 t ht))
      have hafter := hrest.after _ rfl
      have hnext := hrest.counted
      have hspaced := hrest.spaced
      generalize trace span limit times _ = rest at hafter hnext hspaced ⊢
      simp only [used] at hafter hnext
      refine ⟨⟨?_, ?_⟩, ?_, ?_⟩
      · intro c hc
        rcases List.mem_cons.mp hc with rfl | hc
        · exact ⟨hstart, hend⟩
        · exact hspaced.within c hc
      · refine List.pairwise_cons.mpr ⟨fun d hd => ?_, hspaced.apart⟩
        rcases hafter d hd with heq | hlater
        · exact Or.inl heq.symm
        · exact Or.inr hlater
      · intro v hv c hc
        have hbetween : e.start = v.start ∨ v.start + span ≤ e.start := by
          rcases hcases with hsame | ⟨-, hnew⟩
          · rw [hv] at hsame
            exact Or.inl (congrArg Window.start (Option.some.inj hsame)).symm
          · exact Or.inr (hnew v hv)
        rcases List.mem_cons.mp hc with rfl | hc
        · exact hbetween
        · have := hafter c hc
          omega
      · intro start
        have hnext := hnext start
        rw [acceptedIn_cons]
        by_cases he : e.start = start
        · have hused : used start w ≤ e.count := by
            rcases hcases with hsame | ⟨-, hnew⟩
            · rw [hsame, used, if_pos he]
            · cases w with
              | none => exact Nat.zero_le _
              | some v =>
                  have := hnew v rfl
                  rw [used, if_neg (by omega)]
                  exact Nat.zero_le _
          rw [if_pos he] at hnext
          simp only [he, true_and, decide_eq_true_eq]
          omega
        · rw [if_neg he] at hnext
          simp only [he, false_and, if_false]
          by_cases hold : used start w = 0
          · omega
          · -- the window before is over, so nothing more counts in it
            cases w with
            | none => exact absurd rfl hold
            | some v =>
                rw [used] at hold ⊢
                split at hold
                · next hv =>
                    have hnone : acceptedIn start rest = 0 := by
                      refine List.countP_eq_zero.mpr fun c hc hcount => ?_
                      have hlater := hafter c hc
                      have hover : v.start + span ≤ e.start := by
                        rcases hcases with hsame | ⟨-, hnew⟩
                        · rw [← Option.some.inj hsame] at he
                          exact absurd hv he
                        · exact hnew v rfl
                      simp only [Bool.and_eq_true, beq_iff_eq] at hcount
                      omega
                    have := (hw v rfl).1
                    rw [if_pos hv, hnone]
                    omega
                · exact absurd rfl hold

/-- Two starts that are apart, in either order. -/
theorem Spaced.starts {calls : List WindowCall} (h : Spaced span calls) {c d : WindowCall}
    (hc : c ∈ calls) (hd : d ∈ calls) :
    c.start = d.start ∨ c.start + span ≤ d.start ∨ d.start + span ≤ c.start := by
  have hforth : calls.Pairwise fun c d =>
      c.start = d.start ∨ c.start + span ≤ d.start ∨ d.start + span ≤ c.start :=
    h.apart.imp fun hcd => hcd.imp_right Or.inl
  have hback : calls.Pairwise (flip fun c d =>
      c.start = d.start ∨ c.start + span ≤ d.start ∨ d.start + span ≤ c.start) :=
    h.apart.imp fun hcd => hcd.imp Eq.symm Or.inr
  exact hforth.forall_of_forall_of_flip (by intro c _; exact Or.inl rfl) hback hc hd

/-- The calls in a stretch of time as long as a window are in two windows. -/
theorem starts_in_span {calls : List WindowCall} (h : Spaced span calls) (t : Nat) :
    ∃ first second, ∀ c ∈ calls, t ≤ c.time → c.time < t + span →
      c.start = first ∨ c.start = second := by
  by_cases hone : ∃ c ∈ calls, t ≤ c.time ∧ c.time < t + span
  · obtain ⟨c, hc, hct, hcs⟩ := hone
    by_cases htwo : ∃ d ∈ calls, (t ≤ d.time ∧ d.time < t + span) ∧ d.start ≠ c.start
    · obtain ⟨d, hd, ⟨hdt, hds⟩, hne⟩ := htwo
      refine ⟨c.start, d.start, fun e he het hes => ?_⟩
      -- three windows would make the stretch longer than a span
      have hwc := h.within c hc
      have hwd := h.within d hd
      have hwe := h.within e he
      have hcd := h.starts hc hd
      have hce := h.starts hc he
      have hde := h.starts hd he
      omega
    · refine ⟨c.start, c.start, fun e he het hes => Or.inl ?_⟩
      by_contra hne
      exact htwo ⟨e, he, ⟨het, hes⟩, hne⟩
  · exact ⟨0, 0, fun e he het hes => absurd ⟨e, he, het, hes⟩ hone⟩

/-- In a stretch of time as long as a window no more is accepted than in two. -/
theorem acceptedBetween_le (hspan : 0 < span) {times : List Nat} (hmono : times.Pairwise (· ≤ ·))
    (t : Nat) : acceptedBetween t span (trace span limit times none) ≤ 2 * limit := by
  have htraced : Traced span limit none _ := traced hspan hmono nofun
  obtain ⟨first, second, hstarts⟩ := starts_in_span htraced.spaced t
  have hfirst := htraced.counted first
  have hsecond := htraced.counted second
  have hle : acceptedBetween t span (trace span limit times none) ≤
      acceptedIn first (trace span limit times none) +
        acceptedIn second (trace span limit times none) := by
    generalize trace span limit times none = calls at hstarts
    induction calls with
    | nil => exact Nat.zero_le _
    | cons c calls ih =>
        have hrest := ih fun d hd => hstarts d (List.mem_cons_of_mem _ hd)
        have hc := hstarts c List.mem_cons_self
        rw [acceptedBetween, List.countP_cons, ← acceptedBetween, acceptedIn_cons, acceptedIn_cons]
        by_cases hcount : (decide (t ≤ c.time ∧ c.time < t + span) && c.accepted) = true
        · rw [if_pos hcount]
          simp only [Bool.and_eq_true, decide_eq_true_eq] at hcount
          rcases hc hcount.1.1 hcount.1.2 with hstart | hstart
          · rw [if_pos ⟨hstart, hcount.2⟩]
            omega
          · rw [if_pos (show c.start = second ∧ c.accepted = true from ⟨hstart, hcount.2⟩)]
            omega
        · rw [if_neg hcount]
          omega
  omega

end Window

end HydrogenHttpd.Base
