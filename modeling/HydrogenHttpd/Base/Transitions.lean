import Mathlib

/-!
# Transition systems

States, where a system starts, and what one step may do. `Reachable` is what
any order of steps leads to. An invariant is established once, at the start,
and kept by every step (`Reachable.invariant`); a fact that, once it holds, is
never lost is kept along any continuation (`Later.keeps`).
-/

namespace HydrogenHttpd.Base

variable {σ : Type*} {Init : σ → Prop} {Step : σ → σ → Prop}

/-- The states a run can be in. -/
inductive Reachable (Init : σ → Prop) (Step : σ → σ → Prop) : σ → Prop where
  | start {s : σ} (h : Init s) : Reachable Init Step s
  | step {s s' : σ} (h : Reachable Init Step s) (hstep : Step s s') : Reachable Init Step s'

/-- What holds at the start and is kept by every step holds in every run. -/
theorem Reachable.invariant {I : σ → Prop} (hinit : ∀ s, Init s → I s)
    (hstep : ∀ s s', I s → Step s s' → I s') {s : σ} (h : Reachable Init Step s) : I s := by
  induction h with
  | start h => exact hinit _ h
  | step _ hs ih => exact hstep _ _ ih hs

theorem Reachable.mono {Init' : σ → Prop} (hinit : ∀ s, Init s → Init' s) {s : σ}
    (h : Reachable Init Step s) : Reachable Init' Step s := by
  induction h with
  | start h => exact .start (hinit _ h)
  | step _ hs ih => exact ih.step hs

/-- The run goes on from one state to the other. -/
abbrev Later (Step : σ → σ → Prop) : σ → σ → Prop := Relation.ReflTransGen Step

theorem Reachable.later {s s' : σ} (h : Reachable Init Step s) (hlater : Later Step s s') :
    Reachable Init Step s' := by
  induction hlater with
  | refl => exact h
  | tail _ hs ih => exact ih.step hs

/-- What every step keeps in a run is kept however the run goes on. -/
theorem Later.keeps {I P : σ → Prop} (hinv : ∀ s s', I s → Step s s' → I s')
    (hstep : ∀ s s', I s → P s → Step s s' → P s') {s s' : σ} (hlater : Later Step s s')
    (hI : I s) (hP : P s) : P s' := by
  have hboth : I s' ∧ P s' := by
    induction hlater with
    | refl => exact ⟨hI, hP⟩
    | tail _ hs ih => exact ⟨hinv _ _ ih.1 hs, hstep _ _ ih.1 ih.2 hs⟩
  exact hboth.2

end HydrogenHttpd.Base
