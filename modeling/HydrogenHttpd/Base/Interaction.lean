import Mathlib

/-!
# Programs that ask

A program that reads something others may be changing is a tree: it asks one
question at a time and goes on with the answer. `run` answers every question
from one and the same state of the world, which is what the program computes
when nothing changes under it. `next` answers a single question, so that a
system can let other steps happen between two of them; answering question by
question without any change in between is running (`run_next`).

A program that changes what it asks runs alone by `exec`. `Follows` says what
it may ask and answer in view of what it has done, whatever it is told, and
`Tracks` that one program asks what another does for as long as that one lasts.

`Ensures` is the rule for a program among others. It says what a program guarantees
when others change the world between its questions, as far as the relation
`rely` lets them; the relation may depend on the question that is waiting.
-/

namespace HydrogenHttpd.Base

/-- A program that asks questions in `Q` and answers in `α`. -/
inductive Prog (Q : Type) (A : Q → Type) (α : Type) where
  | done (a : α)
  | ask (q : Q) (k : A q → Prog Q A α)

namespace Prog

variable {Q : Type} {A : Q → Type} {α β : Type}

/-- The program's answer when the world does not change. -/
def run (answer : (q : Q) → A q) : Prog Q A α → α
  | .done a => a
  | .ask q k => (k (answer q)).run answer

/-- The program behind its next question. -/
def next (answer : (q : Q) → A q) : Prog Q A α → Prog Q A α
  | .done a => .done a
  | .ask q k => k (answer q)

/-- The program's answer when each question meets a world of its own: `worlds n`
answers the `n`-th. -/
def replay (worlds : Nat → (q : Q) → A q) : Prog Q A α → α
  | .done a => a
  | .ask q k => (k (worlds 0 q)).replay fun n => worlds (n + 1)

/-- The program with its answer changed. -/
def map (f : α → β) : Prog Q A α → Prog Q A β
  | .done a => .done (f a)
  | .ask q k => .ask q fun a => (k a).map f

@[simp] theorem run_done (answer : (q : Q) → A q) (a : α) :
    (done a : Prog Q A α).run answer = a := rfl

@[simp] theorem run_ask (answer : (q : Q) → A q) (q : Q) (k : A q → Prog Q A α) :
    (ask q k).run answer = (k (answer q)).run answer := rfl

theorem run_next (answer : (q : Q) → A q) (p : Prog Q A α) :
    (p.next answer).run answer = p.run answer := by
  cases p <;> rfl

/-- Running is the replay in which nothing changes. -/
theorem replay_const (answer : (q : Q) → A q) (p : Prog Q A α) :
    p.replay (fun _ => answer) = p.run answer := by
  induction p with
  | done a => rfl
  | ask q k ih => exact ih (answer q)

theorem run_map (answer : (q : Q) → A q) (f : α → β) (p : Prog Q A α) :
    (p.map f).run answer = f (p.run answer) := by
  induction p with
  | done a => rfl
  | ask q k ih => exact ih (answer q)

/-- One program and then another. -/
def bind (p : Prog Q A α) (f : α → Prog Q A β) : Prog Q A β :=
  match p with
  | .done a => f a
  | .ask q k => .ask q fun a => (k a).bind f

@[simp] theorem done_bind (a : α) (f : α → Prog Q A β) : (done a : Prog Q A α).bind f = f a := rfl

@[simp] theorem ask_bind (q : Q) (k : A q → Prog Q A α) (f : α → Prog Q A β) :
    (ask q k).bind f = ask q fun a => (k a).bind f := rfl

theorem bind_assoc {γ : Type} (p : Prog Q A α) (f : α → Prog Q A β) (f' : β → Prog Q A γ) :
    (p.bind f).bind f' = p.bind fun a => (f a).bind f' := by
  induction p with
  | done a => rfl
  | ask q k ih => exact congrArg (ask q) (funext ih)

theorem bind_done (p : Prog Q A α) : p.bind done = p := by
  induction p with
  | done a => rfl
  | ask q k ih => exact congrArg (ask q) (funext ih)

/-! ## Programs alone -/

/-- The program's answer, and the world it leaves, when nobody else changes the
world and `handle` answers and changes it. -/
def exec {W : Type} (handle : W → (q : Q) → A q × W) : Prog Q A α → W → α × W
  | .done a, w => (a, w)
  | .ask q k, w => (k (handle w q).1).exec handle (handle w q).2

section Exec

variable {W : Type} {handle : W → (q : Q) → A q × W}

@[simp] theorem exec_done (a : α) (w : W) : (done a : Prog Q A α).exec handle w = (a, w) := rfl

@[simp] theorem exec_ask (q : Q) (k : A q → Prog Q A α) (w : W) :
    (ask q k).exec handle w = (k (handle w q).1).exec handle (handle w q).2 := rfl

theorem exec_bind (p : Prog Q A α) (f : α → Prog Q A β) (w : W) :
    (p.bind f).exec handle w = (f (p.exec handle w).1).exec handle (p.exec handle w).2 := by
  induction p generalizing w with
  | done a => rfl
  | ask q k ih => exact ih _ _

theorem exec_map (f : α → β) (p : Prog Q A α) (w : W) :
    (p.map f).exec handle w = (f (p.exec handle w).1, (p.exec handle w).2) := by
  induction p generalizing w with
  | done a => rfl
  | ask q k ih => exact ih _ _

end Exec

/-! ## What a program has done -/

section Follows

variable {G : Type} (note : G → (q : Q) → A q → G) (pre : G → Q → Prop) (post : G → α → Prop)

/-- With `g` for what the program has done so far, and `note` to go on with it,
it asks only what `pre` allows, and answers what `post` says. -/
def Follows : Prog Q A α → G → Prop
  | .done a, g => post g a
  | .ask q k, g => pre g q ∧ ∀ a, (k a).Follows (note g q a)

variable {note pre post}

theorem Follows.bind {f : β → Prog Q A α} {p : Prog Q A β} {g : G}
    (h : p.Follows note pre (fun g b => (f b).Follows note pre post g) g) :
    (p.bind f).Follows note pre post g := by
  induction p generalizing g with
  | done b => exact h
  | ask q k ih => exact ⟨h.1, fun a => ih a (h.2 a)⟩

theorem Follows.map {f : β → α} {p : Prog Q A β} {g : G}
    (h : p.Follows note pre (fun g b => post g (f b)) g) :
    (p.map f).Follows note pre post g := by
  induction p generalizing g with
  | done b => exact h
  | ask q k ih => exact ⟨h.1, fun a => ih a (h.2 a)⟩

theorem Follows.mono {post' : G → α → Prop} {p : Prog Q A α} {g : G}
    (h : p.Follows note pre post g) (hpost : ∀ g a, post g a → post' g a) :
    p.Follows note pre post' g := by
  induction p generalizing g with
  | done a => exact hpost g a h
  | ask q k ih => exact ⟨h.1, fun a => ih a (h.2 a)⟩

/-- Where every question keeps `inv`, and `inv` is all there is to say, any
program follows. -/
theorem Follows.of_stable {inv : G → Prop} (hpre : ∀ g q, inv g → pre g q)
    (hnote : ∀ g q a, inv g → inv (note g q a)) (hpost : ∀ g a, inv g → post g a)
    (p : Prog Q A α) {g : G} (hg : inv g) : p.Follows note pre post g := by
  induction p generalizing g with
  | done a => exact hpost g a hg
  | ask q k ih => exact ⟨hpre g q hg, fun a => ih a (hnote g q a hg)⟩

end Follows

/-! ## Programs alone, with a record -/

section Noted

variable {W G : Type} (handle : W → (q : Q) → A q × W) (note : G → (q : Q) → A q → G)

/-- A world with a record of what was done in it. -/
def noted (w : W × G) (q : Q) : A q × (W × G) :=
  ((handle w.1 q).1, (handle w.1 q).2, note w.2 q (handle w.1 q).1)

variable {handle note}

/-- The record changes nothing about the run. -/
theorem exec_noted (p : Prog Q A α) (w : W) (g : G) :
    p.exec handle w =
      ((p.exec (noted handle note) (w, g)).1, (p.exec (noted handle note) (w, g)).2.1) := by
  induction p generalizing w g with
  | done a => rfl
  | ask q k ih => exact ih _ _ _

/-- A program alone leaves the record it follows, and keeps what its questions
keep between the world and the record. -/
theorem Follows.exec {pre : G → Q → Prop} {post : G → α → Prop} {inv : W → G → Prop}
    (hinv : ∀ w g q, inv w g → pre g q → inv (handle w q).2 (note g q (handle w q).1))
    {p : Prog Q A α} {w : W} {g : G} (h : p.Follows note pre post g) (hw : inv w g) :
    post (p.exec (noted handle note) (w, g)).2.2 (p.exec (noted handle note) (w, g)).1 ∧
      inv (p.exec (noted handle note) (w, g)).2.1 (p.exec (noted handle note) (w, g)).2.2 := by
  induction p generalizing w g with
  | done a => exact ⟨h, hw⟩
  | ask q k ih => exact ih _ (h.2 _) (hinv w g q hw h.1)

end Noted

/-! ## One program behind another -/

section Tracks

variable {G : Type} (told : (q : Q) → A q → Prop) (note : G → (q : Q) → A q → G)
  (post : G → α → Prog Q A β → Prop)

/-- As long as the answers are `told`, `p'` asks what `p` asks until `p` is done,
and `post` holds of the record then, of the answer of `p`, and of what is left of
`p'`. -/
def Tracks : Prog Q A α → Prog Q A β → G → Prop
  | .done a, p', g => post g a p'
  | .ask q k, p', g => ∃ k', p' = .ask q k' ∧ ∀ a, told q a → (k a).Tracks (k' a) (note g q a)

variable {told note post}

theorem Tracks.bind {γ δ : Type} {f : γ → Prog Q A α} {f' : δ → Prog Q A β} {p : Prog Q A γ}
    {p' : Prog Q A δ} {g : G}
    (h : p.Tracks told note (fun g c rest => (f c).Tracks told note post (rest.bind f') g) p' g) :
    (p.bind f).Tracks told note post (p'.bind f') g := by
  induction p generalizing p' g with
  | done c => exact h
  | ask q k ih =>
      obtain ⟨k', rfl, hk⟩ := h
      exact ⟨_, rfl, fun a ha => ih a (hk a ha)⟩

theorem Tracks.mono {post' : G → α → Prog Q A β → Prop} {p : Prog Q A α} {p' : Prog Q A β} {g : G}
    (h : p.Tracks told note post p' g) (hpost : ∀ g a rest, post g a rest → post' g a rest) :
    p.Tracks told note post' p' g := by
  induction p generalizing p' g with
  | done a => exact hpost g a p' h
  | ask q k ih =>
      obtain ⟨k', rfl, hk⟩ := h
      exact ⟨k', rfl, fun a ha => ih a (hk a ha)⟩

theorem Tracks.map {γ δ : Type} {f : γ → α} {f' : δ → β} {p : Prog Q A γ} {p' : Prog Q A δ} {g : G}
    (h : p.Tracks told note (fun g c rest => post g (f c) (rest.map f')) p' g) :
    (p.map f).Tracks told note post (p'.map f') g := by
  induction p generalizing p' g with
  | done c => exact h
  | ask q k ih =>
      obtain ⟨k', rfl, hk⟩ := h
      exact ⟨_, rfl, fun a ha => ih a (hk a ha)⟩

/-- A program tracks itself, as far as it follows, and keeps what the answers keep. -/
theorem Follows.tracks {pre : G → Q → Prop} {post : G → α → Prop} {inv : G → Prop}
    (hinv : ∀ g q a, inv g → told q a → inv (note g q a)) {p : Prog Q A α} {g : G}
    (h : p.Follows note pre post g) (hg : inv g) :
    p.Tracks told note (fun g a rest => post g a ∧ inv g ∧ rest = .done a) p g := by
  induction p generalizing g with
  | done a => exact ⟨h, hg, rfl⟩
  | ask q k ih => exact ⟨k, rfl, fun a ha => ih a (h.2 a) (hinv g q a hg ha)⟩

/-- Run alone, the one ends where the other goes on from. -/
theorem Tracks.exec {W : Type} {handle : W → (q : Q) → A q × W}
    (htold : ∀ w q, told q (handle w q).1) {p : Prog Q A α} {p' : Prog Q A β} {w : W} {g : G}
    (h : p.Tracks told note post p' g) :
    ∃ rest, post (p.exec (noted handle note) (w, g)).2.2 (p.exec (noted handle note) (w, g)).1
        rest ∧
      p'.exec (noted handle note) (w, g) =
        rest.exec (noted handle note) (p.exec (noted handle note) (w, g)).2 := by
  induction p generalizing p' w g with
  | done a => exact ⟨p', h, rfl⟩
  | ask q k ih =>
      obtain ⟨k', rfl, hk⟩ := h
      exact ih _ (hk _ (htold w q))

end Tracks

/-! ## Programs among others -/

/-- The question a program waits to ask, if it is not done. -/
def pending : Prog Q A α → Option Q
  | .done _ => none
  | .ask q _ => some q

section Ensures

variable {W : Type} (rely : Option Q → W → W → Prop) (view : W → (q : Q) → A q)
  (post : W → α → Prop)

/-- However the others change the world within `rely` between the program's
questions, and after its last, the program's answer satisfies `post`. -/
def Ensures : Prog Q A α → W → Prop
  | .done a, w => ∀ w', rely none w w' → post w' a
  | .ask q k, w => ∀ w', rely (some q) w w' → (k (view w' q)).Ensures w'

variable {rely view post}

/-- Others may go on changing the world. -/
theorem Ensures.later (htrans : ∀ q w w' w'', rely q w w' → rely q w' w'' → rely q w w'')
    {p : Prog Q A α} {w w' : W} (h : p.Ensures rely view post w) (hw : rely p.pending w w') :
    p.Ensures rely view post w' := by
  cases p with
  | done a =>
      intro w'' hw'
      exact h w'' (htrans _ _ _ _ hw hw')
  | ask q k =>
      intro w'' hw'
      exact h w'' (htrans _ _ _ _ hw hw')

/-- The program may ask its question. -/
theorem Ensures.next (hrefl : ∀ q w, rely q w w) {p : Prog Q A α} {w : W}
    (h : p.Ensures rely view post w) : (p.next (view w)).Ensures rely view post w := by
  cases p with
  | done a => exact h
  | ask q k => exact h w (hrefl _ w)

/-- The program may answer. -/
theorem Ensures.answer (hrefl : ∀ q w, rely q w w) {a : α} {w : W}
    (h : (done a : Prog Q A α).Ensures rely view post w) : post w a :=
  h w (hrefl _ w)

end Ensures

end Prog

end HydrogenHttpd.Base
