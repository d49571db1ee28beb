import HydrogenHttpd.Ref.AccessLog

/-!
# The access log loses no line

`Moves` is what one thread can do while the log is open and asynchronous, and
`Happens` what one event can do; the invariants are derived from these two.
`Conserved` says where the lines are. `ShutDown` is what the destructor rests
on: the writer leaves its loop only from an empty queue with `stopping_` set,
and no call of `access` can fill the queue after that.
-/

namespace HydrogenHttpd.Ref

open Base

/-! ## One step -/

/-- The log is open and has a writer. -/
structure AccessLog.Asynchronous (log : AccessLog) : Prop where
  async : log.asyncAccessLog = true
  enabled : log.enableAccessLog = true
  isOpen : log.accessOpen = true

/-- The steps of a thread of an open, asynchronous log. -/
inductive Moves (log : AccessLog) : LogPhase → LogPhase → AccessLog → Prop where
  | push (line : AccessLine) (h : log.accessQueue.length < log.accessQueueCapacity) :
      Moves log (.logging line) .logged
        { log with
          accessQueue := log.accessQueue ++ [line]
          enqueued := log.enqueued ++ [line] }
  | drop (line : AccessLine) (h : log.accessQueueCapacity ≤ log.accessQueue.length) :
      Moves log (.logging line) .logged
        { log with
          droppedAccessLogs := (log.droppedAccessLogs + 1) % 2 ^ 64
          dropped := log.dropped ++ [line] }
  | exit (batch : List AccessLine) (hstop : log.stopping = true) (hqueue : log.accessQueue = []) :
      Moves log (.waiting batch) .exited
        { log with accessQueue := batch, accessWriterReturned := true }
  | take (batch : List AccessLine) :
      Moves log (.waiting batch) (.swapped .accessWriterLoop log.accessQueue)
        { log with accessQueue := batch }
  | join (h : log.accessWriterReturned = true) : Moves log .joining (.flushing .destructor) log
  | swap (who : BatchOwner) :
      Moves log (.flushing who) (.swapped who log.accessQueue) { log with accessQueue := [] }
  | skip (who : BatchOwner) : Moves log (.swapped who []) who.resume log
  | lock (who : BatchOwner) (batch : List AccessLine) :
      Moves log (.swapped who batch) (.writing who batch) { log with accessFileLocked := true }
  | write (who : BatchOwner) (line : AccessLine) (rest : List AccessLine) :
      Moves log (.writing who (line :: rest)) (.writing who rest) (log.write line)
  | unlock (who : BatchOwner) :
      Moves log (.writing who []) who.resume { log with accessFileLocked := false }
  | finish (who : BatchOwner) : Moves log (.written who) (.flushed who) log

theorem moves_of_next {log log' : AccessLog} {phase phase' : LogPhase} (h : log.Asynchronous)
    (hnext : phase.next log = some (phase', log')) : Moves log phase phase' log' := by
  cases phase with
  | logging line =>
      rw [LogPhase.next, if_pos h.async] at hnext
      cases hnext
      rw [AccessLog.push]
      split
      · next hfull => exact .drop line hfull
      · next hspace => exact .push line (Nat.lt_of_not_le hspace)
  | logged => cases hnext
  | waiting batch =>
      rw [LogPhase.next, AccessLog.takeBatch] at hnext
      split at hnext
      · next hstop => cases hnext; exact .exit batch hstop.1 hstop.2
      · cases hnext; exact .take batch
  | exited => cases hnext
  | joining =>
      rw [LogPhase.next] at hnext
      split at hnext
      · next hreturned => cases hnext; exact .join hreturned
      · cases hnext
  | flushing who =>
      rw [LogPhase.next, if_pos h.async] at hnext
      cases hnext
      exact .swap who
  | swapped who batch =>
      rw [LogPhase.next] at hnext
      split at hnext
      · next hempty => cases hnext; subst hempty; exact .skip who
      · split at hnext
        · cases hnext
        · rw [if_neg (by rw [h.isOpen]; decide)] at hnext
          cases hnext
          exact .lock who batch
  | writing who rest =>
      cases rest with
      | nil => cases hnext; exact .unlock who
      | cons line rest => cases hnext; exact .write who line rest
  | written who =>
      rw [LogPhase.next] at hnext
      split at hnext
      · cases hnext
      · cases hnext; exact .finish who
  | flushed who => cases hnext

/-- The events of an open, asynchronous log. -/
inductive Happens (s : LogState) : LogEvent → LogState → Prop where
  /-- A call of `access` that is not sampled. -/
  | skip (e : AccessEntry) (counter : Nat) (h : s.destroying = false) :
      Happens s (.access e)
        { s with log := { s.log with accessCounter := counter }, calls := s.calls + 1 }
  | sample (e : AccessEntry) (counter : Nat) (h : s.destroying = false) :
      Happens s (.access e)
        { s with
          log := { s.log with accessCounter := counter }
          threads := s.threads ++ [.logging { call := s.calls, text := e.line }]
          calls := s.calls + 1
          sampled := s.sampled ++ [{ call := s.calls, text := e.line }] }
  | flushAccess :
      Happens s .flushAccess
        { s with threads := s.threads ++ [.flushing (.flushAccess s.log.enqueued)] }
  | destroy (h : s.destroying = false) (hidle : ∀ phase ∈ s.threads, phase.logs = false) :
      Happens s .destroy
        { s with
          log := { s.log with stopping := true }
          threads := s.threads ++ [.joining]
          destroying := true }
  | next (n : Nat) (phase phase' : LogPhase) (log : AccessLog) (h : s.threads[n]? = some phase)
      (hmove : Moves s.log phase phase' log) :
      Happens s (.next n) { s with log := log, threads := s.threads.set n phase' }

theorem happens_of_step {s s' : LogState} {e : LogEvent} (h : s.log.Asynchronous)
    (hstep : s.step e = some s') : Happens s e s' := by
  cases e with
  | access entry =>
      rw [LogState.step, LogState.access] at hstep
      split at hstep
      · cases hstep
      · next hrunning =>
          have hrunning : s.destroying = false := by simpa using hrunning
          rw [AccessLog.sample, if_neg (by rw [h.enabled]; decide)] at hstep
          simp only at hstep
          split at hstep
          · next hskip =>
              split at hskip
              · cases hskip
                cases hstep
                exact .skip entry _ hrunning
              · cases hskip
          · next hsample =>
              split at hsample
              · cases hsample
              · cases hsample
                cases hstep
                exact .sample entry _ hrunning
  | flushAccess =>
      rw [LogState.step, LogState.flushAccess, h.enabled] at hstep
      cases hstep
      exact .flushAccess
  | destroy =>
      rw [LogState.step, LogState.destroy] at hstep
      split at hstep
      · cases hstep
      · next hbegin =>
          rw [if_pos ⟨h.enabled, h.async⟩] at hstep
          cases hstep
          simp only [not_or, Bool.not_eq_true, List.any_eq_false] at hbegin
          exact .destroy hbegin.1 hbegin.2
  | next n =>
      rw [LogState.step, LogState.next] at hstep
      split at hstep
      · cases hstep
      · next phase hphase =>
          split at hstep
          · cases hstep
          · next phase' log hnext =>
              cases hstep
              exact .next n phase phase' log hphase (moves_of_next h hnext)

theorem Moves.asynchronous {log log' : AccessLog} {phase phase' : LogPhase}
    (h : Moves log phase phase' log') (hlog : log.Asynchronous) : log'.Asynchronous := by
  cases h with
  | push | drop | exit | take | join | swap | skip | lock | write | unlock | finish =>
      exact ⟨hlog.async, hlog.enabled, hlog.isOpen⟩

theorem Happens.asynchronous {s s' : LogState} {e : LogEvent} (h : Happens s e s')
    (hlog : s.log.Asynchronous) : s'.log.Asynchronous := by
  cases h with
  | skip | sample | flushAccess | destroy => exact ⟨hlog.async, hlog.enabled, hlog.isOpen⟩
  | next n phase phase' log _ hmove => exact hmove.asynchronous hlog

/-- What every event keeps is kept by a sequence of events. -/
theorem run_keeps {I : LogState → Prop} {events : List LogEvent} {s s' : LogState}
    (hstep : ∀ e ∈ events, ∀ s s', s.log.Asynchronous → I s → Happens s e s' → I s')
    (hlog : s.log.Asynchronous) (hs : I s) (hrun : s.run events = some s') : I s' := by
  induction events generalizing s with
  | nil => cases hrun; exact hs
  | cons e rest ih =>
      obtain ⟨s₁, hfirst, hrest⟩ := Option.bind_eq_some_iff.mp hrun
      have hhappens := happens_of_step hlog hfirst
      exact ih (fun e he => hstep e (List.mem_cons_of_mem _ he)) (hhappens.asynchronous hlog)
        (hstep e List.mem_cons_self s s₁ hlog hs hhappens) hrest

/-! ## Where the lines are -/

/-- The lines that no thread has. -/
def AccessLog.lines (log : AccessLog) : List AccessLine :=
  log.dropped ++ log.accessQueue ++ log.accessFile

@[simp] theorem held_resume (who : BatchOwner) : who.resume.held = [] := by cases who <;> rfl

/-- A step moves lines between the thread and the members. -/
theorem moves_lines {log log' : AccessLog} {phase phase' : LogPhase}
    (h : Moves log phase phase' log') :
    (phase'.held ++ log'.lines).Perm (phase.held ++ log.lines) := by
  rw [List.perm_iff_count]
  intro a
  cases h with
  | exit batch hstop hqueue =>
      simp only [AccessLog.lines, LogPhase.held, hqueue, List.count_append, List.count_nil]
      omega
  | skip who | unlock who =>
      rw [held_resume]
      rfl
  | push | drop | take | swap | write =>
      simp only [AccessLog.lines, AccessLog.write, LogPhase.held, List.count_append,
        List.count_cons, List.count_nil]
      omega
  | join | lock | finish => rfl

/-- Where the lines are, and that no two are one. -/
structure Conserved (s : LogState) : Prop where
  places : s.sampled.Perm (s.threads.flatMap LogPhase.held ++ s.log.lines)
  numbered : ∀ line ∈ s.sampled, line.call < s.calls
  nodup : s.sampled.Nodup
  counted : s.log.droppedAccessLogs = s.log.dropped.length % 2 ^ 64
  bound : s.log.accessQueue.length ≤ s.log.accessQueueCapacity
  waiting : ∀ batch, .waiting batch ∈ s.threads → batch = []

theorem conserved_construct (rate capacity : Nat) :
    Conserved (LogState.construct true true rate capacity true) where
  places := List.Perm.nil
  numbered line h := by cases h
  nodup := List.nodup_nil
  counted := rfl
  bound := Nat.zero_le _
  waiting batch h := by
    have hone : LogPhase.waiting batch ∈ [LogPhase.waiting []] := h
    simpa using hone

/-- A step of one thread keeps the lines. -/
theorem conserved_next {s : LogState} (hs : Conserved s) {n : Nat} {phase phase' : LogPhase}
    {log : AccessLog} (hphase : s.threads[n]? = some phase) (h : Moves s.log phase phase' log) :
    Conserved { s with log := log, threads := s.threads.set n phase' } := by
  have hplaces : s.sampled.Perm ((s.threads.set n phase').flatMap LogPhase.held ++ log.lines) := by
    have hset := @perm_flatMap_set _ _ LogPhase.held _ _ _ hphase phase'
    have hmove := moves_lines h
    have hall := hs.places
    rw [List.perm_iff_count] at hset hmove hall ⊢
    intro a
    have h1 := hset a
    have h2 := hmove a
    have h3 := hall a
    simp only [List.count_append] at h1 h2 h3 ⊢
    omega
  have hwaiting : ∀ batch, .waiting batch ∈ s.threads.set n phase' → batch = [] := by
    intro batch hbatch
    rcases mem_set_cases hbatch with rfl | ⟨m, -, hget⟩
    · generalize hwait : LogPhase.waiting batch = next at h
      cases h with
      | skip who | unlock who =>
          cases who with
          | accessWriterLoop => cases hwait; rfl
          | flushAccess => cases hwait
          | destructor => cases hwait
      | push | drop | exit | take | join | swap | lock | write | finish => cases hwait
    · exact hs.waiting batch (List.mem_of_getElem? hget)
  have hempty : ∀ batch, phase = .waiting batch → batch = [] := fun batch heq =>
    hs.waiting batch (List.mem_of_getElem? (heq ▸ hphase))
  cases h with
  | push line hspace =>
      exact { hs with
        places := hplaces
        bound := by simpa using hspace
        waiting := hwaiting }
  | drop line hfull =>
      exact { hs with
        places := hplaces
        counted := by simp [hs.counted]
        waiting := hwaiting }
  | exit batch | take batch =>
      exact { hs with
        places := hplaces
        bound := by simp [hempty batch rfl]
        waiting := hwaiting }
  | swap who => exact { hs with places := hplaces, bound := Nat.zero_le _, waiting := hwaiting }
  | join | skip | lock | write | unlock | finish =>
      exact { hs with places := hplaces, waiting := hwaiting }

/-- A thread that comes in with the lines that come in. -/
theorem places_append {s : LogState} (hs : Conserved s) (phase : LogPhase) :
    (s.sampled ++ phase.held).Perm
      ((s.threads ++ [phase]).flatMap LogPhase.held ++ s.log.lines) := by
  rw [List.flatMap_append, List.flatMap_singleton, List.append_assoc]
  refine (hs.places.append_right _).trans ?_
  rw [List.append_assoc]
  exact List.perm_append_comm.append_left _

theorem waiting_append {s : LogState} (hs : Conserved s) {phase : LogPhase}
    (hphase : ∀ batch, phase ≠ .waiting batch) (batch : List AccessLine)
    (h : .waiting batch ∈ s.threads ++ [phase]) : batch = [] := by
  rcases List.mem_append.mp h with h | h
  · exact hs.waiting batch h
  · exact absurd (List.mem_singleton.mp h).symm (hphase batch)

theorem conserved_happens {s s' : LogState} {e : LogEvent} (hs : Conserved s)
    (h : Happens s e s') : Conserved s' := by
  cases h with
  | skip =>
      exact { hs with numbered := fun line hline => Nat.lt_succ_of_lt (hs.numbered line hline) }
  | sample e =>
      exact { hs with
        places := places_append hs (.logging { call := s.calls, text := e.line })
        numbered := by
          intro line hline
          rcases List.mem_append.mp hline with hline | hline
          · exact Nat.lt_succ_of_lt (hs.numbered line hline)
          · rw [List.mem_singleton.mp hline]
            exact Nat.lt_succ_self _
        nodup := by
          refine List.nodup_append.mpr ⟨hs.nodup, List.nodup_singleton _, ?_⟩
          intro a ha b hb heq
          have hlt := hs.numbered a ha
          rw [heq, List.mem_singleton.mp hb] at hlt
          exact absurd hlt (Nat.lt_irrefl _)
        waiting := waiting_append hs (by simp) }
  | flushAccess =>
      have hplaces : (s.sampled ++ []).Perm _ :=
        places_append hs (.flushing (.flushAccess s.log.enqueued))
      rw [List.append_nil] at hplaces
      exact { hs with places := hplaces, waiting := waiting_append hs (by simp) }
  | destroy =>
      have hplaces : (s.sampled ++ []).Perm _ := places_append hs .joining
      rw [List.append_nil] at hplaces
      exact { hs with places := hplaces, waiting := waiting_append hs (by simp) }
  | next n phase phase' log hphase hmove => exact conserved_next hs hphase hmove

/-! ## The destructor -/

/-- What a thread is for. -/
inductive LogRole where
  | access
  | writer
  | flush
  | destructor
  deriving DecidableEq

def BatchOwner.role : BatchOwner → LogRole
  | .accessWriterLoop => .writer
  | .flushAccess _ => .flush
  | .destructor => .destructor

def LogPhase.role : LogPhase → LogRole
  | .logging _ | .logged => .access
  | .waiting _ | .exited => .writer
  | .joining => .destructor
  | .flushing who | .swapped who _ | .writing who _ | .written who | .flushed who => who.role

@[simp] theorem role_resume (who : BatchOwner) : who.resume.role = who.role := by cases who <;> rfl

theorem Moves.role {log log' : AccessLog} {phase phase' : LogPhase}
    (h : Moves log phase phase' log') : phase'.role = phase.role := by
  cases h with
  | skip who | unlock who => exact role_resume who
  | push | drop | exit | take | join | swap | lock | write | finish => rfl

def LogState.roles (s : LogState) : List LogRole := s.threads.map (·.role)

/-- Two threads of a role that occurs once are one. -/
theorem role_unique {s : LogState} {r : LogRole} (h : s.roles.count r ≤ 1) {m n : Nat}
    {p q : LogPhase} (hp : s.threads[m]? = some p) (hq : s.threads[n]? = some q) (hpr : p.role = r)
    (hqr : q.role = r) : m = n :=
  eq_of_count_le_one h (by rw [LogState.roles, List.getElem?_map, hp, Option.map_some, hpr])
    (by rw [LogState.roles, List.getElem?_map, hq, Option.map_some, hqr])

/-- How far the destructor and the writer are. -/
structure ShutDown (s : LogState) : Prop where
  writers : s.roles.count .writer ≤ 1
  destructors : s.roles.count .destructor ≤ if s.destroying then 1 else 0
  stopping : s.log.stopping = true → s.destroying = true
  idle : s.destroying = true → ∀ phase ∈ s.threads, phase.logs = false
  /-- The writer leaves its loop from an empty queue, and nothing is put in after that. -/
  returned : s.log.accessWriterReturned = true → s.destroying = true ∧ s.log.accessQueue = [] ∧
    ∀ phase ∈ s.threads, phase.role = .writer → phase.held = []
  joined : ∀ phase ∈ s.threads, phase.role = .destructor →
    phase = .joining ∨ s.log.accessWriterReturned = true

theorem shutDown_construct (rate capacity : Nat) :
    ShutDown (LogState.construct true true rate capacity true) where
  writers := Nat.le_refl 1
  destructors := Nat.le_refl 0
  stopping h := by cases h
  idle h := by cases h
  returned h := by cases h
  joined phase hphase hrole := by
    have hone : phase ∈ [LogPhase.waiting []] := hphase
    rw [List.mem_singleton.mp hone] at hrole
    cases hrole

/-- A step of one thread: what is left to show is about the members and the thread itself. -/
theorem shutDown_next {s : LogState} (hc : Conserved s) (hs : ShutDown s) {n : Nat}
    {phase phase' : LogPhase} {log : AccessLog} (hphase : s.threads[n]? = some phase)
    (h : Moves s.log phase phase' log) :
    ShutDown { s with log := log, threads := s.threads.set n phase' } := by
  have hmem : phase ∈ s.threads := List.mem_of_getElem? hphase
  have hroles : LogState.roles { s with log := log, threads := s.threads.set n phase' } = s.roles :=
    map_set_of_eq hphase h.role
  have hlogs : phase.logs = false → phase'.logs = false := by
    intro hquiet
    cases h with
    | push | drop => rfl
    | skip who | unlock who => cases who <;> rfl
    | exit | take | join | swap | lock | write | finish => rfl
  have hstopping : log.stopping = s.log.stopping := by
    cases h <;> rfl
  have hreturned : s.log.accessWriterReturned = true → log.accessWriterReturned = true := by
    intro hbefore
    cases h with
    | exit => rfl
    | push | drop | take | join | swap | skip | lock | write | unlock | finish => exact hbefore
  -- the writer has just left its loop, or had left it before
  have hafter : log.accessWriterReturned = true →
      s.destroying = true ∧ log.accessQueue = [] ∧ (phase'.role = .writer → phase'.held = []) ∧
        ∀ m p, m ≠ n → s.threads[m]? = some p → p.role = .writer → p.held = [] := by
    intro hnow
    by_cases hbefore : s.log.accessWriterReturned = true
    · obtain ⟨hdestroying, hqueue, hheld⟩ := hs.returned hbefore
      have hquiet := hs.idle hdestroying phase hmem
      refine ⟨hdestroying, ?_, ?_, fun m p _ hp => hheld p (List.mem_of_getElem? hp)⟩
      · cases h with
        | push | drop => cases hquiet
        | exit batch | take batch => exact hc.waiting batch hmem
        | swap => rfl
        | join | skip | lock | write | unlock | finish => exact hqueue
      · intro hrole
        have hbatch := hheld phase hmem (h.role ▸ hrole)
        cases h with
        | push | drop => cases hquiet
        | take | swap => exact hqueue
        | skip who | unlock who => exact held_resume who
        | lock => exact hbatch
        | write => cases hbatch
        | exit | join | finish => rfl
    · cases h with
      | exit batch hstop hqueue =>
          refine ⟨hs.stopping hstop, hc.waiting batch hmem, fun _ => rfl, ?_⟩
          intro m p hm hp hrole
          exact absurd (role_unique hs.writers hp hphase hrole rfl) hm
      | push | drop | take | join | swap | skip | lock | write | unlock | finish =>
          exact absurd hnow hbefore
  exact {
    writers := by rw [hroles]; exact hs.writers
    destructors := by rw [hroles]; exact hs.destructors
    stopping := fun hstop => hs.stopping (hstopping ▸ hstop)
    idle := by
      intro hdestroying p hp
      rcases mem_set_cases hp with rfl | ⟨m, -, hget⟩
      · exact hlogs (hs.idle hdestroying phase hmem)
      · exact hs.idle hdestroying p (List.mem_of_getElem? hget)
    returned := by
      intro hnow
      obtain ⟨hdestroying, hqueue, hown, hothers⟩ := hafter hnow
      refine ⟨hdestroying, hqueue, fun p hp hrole => ?_⟩
      rcases mem_set_cases hp with rfl | ⟨m, hm, hget⟩
      · exact hown hrole
      · exact hothers m p hm hget hrole
    joined := by
      intro p hp hrole
      rcases mem_set_cases hp with rfl | ⟨m, -, hget⟩
      · rcases hs.joined phase hmem (h.role ▸ hrole) with rfl | hbefore
        · cases h with
          | join hjoined => exact Or.inr hjoined
        · exact Or.inr (hreturned hbefore)
      · exact (hs.joined p (List.mem_of_getElem? hget) hrole).imp_right hreturned }

theorem shutDown_append {s : LogState} (hs : ShutDown s) (phase : LogPhase)
    (hrole : phase.role = .access ∨ phase.role = .flush)
    (hlogs : s.destroying = true → phase.logs = false) :
    ShutDown { s with threads := s.threads ++ [phase] } := by
  have hwriter : phase.role ≠ .writer := by rcases hrole with h | h <;> rw [h] <;> decide
  have hdestructor : phase.role ≠ .destructor := by rcases hrole with h | h <;> rw [h] <;> decide
  have hmem : ∀ p ∈ s.threads ++ [phase], p ∈ s.threads ∨ p = phase := fun p hp => by
    simpa using hp
  exact { hs with
    writers := by simpa [LogState.roles, List.count_singleton, hwriter] using hs.writers
    destructors := by
      simpa [LogState.roles, List.count_singleton, hdestructor] using hs.destructors
    idle := by
      intro hdestroying p hp
      rcases hmem p hp with hp | rfl
      · exact hs.idle hdestroying p hp
      · exact hlogs hdestroying
    returned := by
      intro hreturned
      obtain ⟨hdestroying, hqueue, hheld⟩ := hs.returned hreturned
      refine ⟨hdestroying, hqueue, fun p hp hwrites => ?_⟩
      rcases hmem p hp with hp | rfl
      · exact hheld p hp hwrites
      · exact absurd hwrites hwriter
    joined := by
      intro p hp hdestroys
      rcases hmem p hp with hp | rfl
      · exact hs.joined p hp hdestroys
      · exact absurd hdestroys hdestructor }

theorem shutDown_happens {s s' : LogState} {e : LogEvent} (hc : Conserved s) (hs : ShutDown s)
    (h : Happens s e s') : ShutDown s' := by
  cases h with
  | skip => exact { hs with }
  | sample e counter hrunning =>
      have happend := shutDown_append hs (.logging { call := s.calls, text := e.line })
        (Or.inl rfl) (by rw [hrunning]; intro h; cases h)
      exact { happend with }
  | flushAccess =>
      exact shutDown_append hs (.flushing (.flushAccess s.log.enqueued)) (Or.inr rfl) fun _ => rfl
  | destroy hrunning hidle =>
      have hmem : ∀ p ∈ s.threads ++ [.joining], p ∈ s.threads ∨ p = .joining := fun p hp => by
        simpa using hp
      have hnone : s.roles.count .destructor = 0 := by
        have h := hs.destructors
        rw [hrunning] at h
        simpa using h
      exact {
        writers := by simpa [LogState.roles, LogPhase.role] using hs.writers
        destructors := by
          simp only [LogState.roles, List.map_append, List.map_cons, List.map_nil,
            List.count_append, if_true] at hnone ⊢
          rw [hnone]
          decide
        stopping := fun _ => rfl
        idle := by
          intro _ p hp
          rcases hmem p hp with hp | rfl
          · exact hidle p hp
          · rfl
        returned := by
          intro hreturned
          obtain ⟨hdestroying, -⟩ := hs.returned hreturned
          rw [hrunning] at hdestroying
          cases hdestroying
        joined := by
          intro p hp hrole
          rcases hmem p hp with hp | rfl
          · exact hs.joined p hp hrole
          · exact Or.inl rfl }
  | next n phase phase' log hphase hmove => exact shutDown_next hc hs hphase hmove

/-! ## One place for each line -/

/-- Where a line can be. -/
inductive LogPlace where
  | dropped
  | queue
  /-- With the thread of this number. -/
  | thread (n : Nat)
  | written
  deriving DecidableEq

def LogState.content (s : LogState) : LogPlace → List AccessLine
  | .dropped => s.log.dropped
  | .queue => s.log.accessQueue
  | .thread n => (s.threads[n]?).elim [] LogPhase.held
  | .written => s.log.accessFile

theorem mem_content_thread {s : LogState} {n : Nat} {line : AccessLine} :
    line ∈ s.content (.thread n) ↔ ∃ phase, s.threads[n]? = some phase ∧ line ∈ phase.held := by
  rw [LogState.content]
  cases s.threads[n]? with
  | none => simp
  | some phase => simp

/-- A sampled line is dropped, in the queue, with a thread or in the file: in one
of them, once. -/
theorem existsUnique_logPlace {s : LogState} (hs : Conserved s) {line : AccessLine}
    (hline : line ∈ s.sampled) : ∃! place, line ∈ s.content place := by
  have hall := hs.places.nodup_iff.mp hs.nodup
  obtain ⟨hheld, hlines, hapart⟩ := List.nodup_append.mp hall
  obtain ⟨hfront, -, hfile⟩ := List.nodup_append.mp hlines
  obtain ⟨-, -, hqueue⟩ := List.nodup_append.mp hfront
  have hwith : ∀ n, line ∈ s.content (.thread n) → line ∈ s.threads.flatMap LogPhase.held := by
    intro n hn
    obtain ⟨phase, hphase, hmem⟩ := mem_content_thread.mp hn
    exact List.mem_flatMap.mpr ⟨phase, List.mem_of_getElem? hphase, hmem⟩
  have hwithout : ∀ place, (∀ n, place ≠ .thread n) → line ∈ s.content place →
      line ∈ s.log.lines := by
    intro place hplace hmem
    cases place with
    | dropped => exact List.mem_append_left _ (List.mem_append_left _ hmem)
    | queue => exact List.mem_append_left _ (List.mem_append_right _ hmem)
    | written => exact List.mem_append_right _ hmem
    | thread n => exact absurd rfl (hplace n)
  have hmem := hs.places.mem_iff.mp hline
  rcases List.mem_append.mp hmem with hmem | hmem
  · obtain ⟨n, hn, honly⟩ := existsUnique_holder hheld hmem
    refine ⟨.thread n, mem_content_thread.mpr hn, fun place hplace => ?_⟩
    cases place with
    | thread m => rw [honly m (mem_content_thread.mp hplace)]
    | dropped | queue | written =>
        exact absurd rfl (hapart line hmem line (hwithout _ (by simp) hplace))
  · rcases List.mem_append.mp hmem with hleft | hwritten
    · rcases List.mem_append.mp hleft with hdropped | hqueued
      · refine ⟨.dropped, hdropped, fun place hplace => ?_⟩
        cases place with
        | dropped => rfl
        | queue => exact absurd rfl (hqueue line hdropped line hplace)
        | thread n => exact absurd rfl (hapart line (hwith n hplace) line hmem)
        | written => exact absurd rfl (hfile line hleft line hplace)
      · refine ⟨.queue, hqueued, fun place hplace => ?_⟩
        cases place with
        | dropped => exact absurd rfl (hqueue line hplace line hqueued)
        | queue => rfl
        | thread n => exact absurd rfl (hapart line (hwith n hplace) line hmem)
        | written => exact absurd rfl (hfile line hleft line hplace)
    · refine ⟨.written, hwritten, fun place hplace => ?_⟩
      cases place with
      | dropped => exact absurd rfl (hfile line (List.mem_append_left _ hplace) line hwritten)
      | queue => exact absurd rfl (hfile line (List.mem_append_right _ hplace) line hwritten)
      | thread n => exact absurd rfl (hapart line (hwith n hplace) line hmem)
      | written => rfl

/-- Behind the destructor a line is dropped, in the file, or with a call of
`flushAccess` that has not come back. -/
theorem lines_after_destructor {s : LogState} (hc : Conserved s) (hs : ShutDown s)
    {phase : LogPhase} (hphase : phase ∈ s.threads) (hdone : phase = .flushed .destructor)
    {line : AccessLine} (hline : line ∈ s.sampled) :
    line ∈ s.log.dropped ∨ line ∈ s.log.accessFile ∨
      ∃ p ∈ s.threads, p.role = .flush ∧ line ∈ p.held := by
  subst hdone
  obtain ⟨n, hn⟩ := List.mem_iff_getElem?.mp hphase
  have hreturned := (hs.joined _ hphase rfl).resolve_left (by simp)
  obtain ⟨hdestroying, hqueue, hwriter⟩ := hs.returned hreturned
  rcases List.mem_append.mp (hc.places.mem_iff.mp hline) with hheld | hlines
  · obtain ⟨p, hp, hmem⟩ := List.mem_flatMap.mp hheld
    obtain ⟨m, hm⟩ := List.mem_iff_getElem?.mp hp
    cases hrole : p.role with
    | access =>
        have hquiet := hs.idle hdestroying p hp
        cases p with
        | logging => cases hquiet
        | logged => cases hmem
        | waiting | exited | joining => cases hrole
        | flushing who | swapped who | writing who | written who | flushed who =>
            cases who <;> cases hrole
    | writer => rw [hwriter p hp hrole] at hmem; cases hmem
    | flush => exact Or.inr (Or.inr ⟨p, hp, hrole, hmem⟩)
    | destructor =>
        have hone : s.roles.count .destructor ≤ 1 := by
          have h := hs.destructors
          rwa [hdestroying] at h
        obtain rfl := role_unique hone hm hn hrole rfl
        rw [hn] at hm
        cases hm
        cases hmem
  · rw [AccessLog.lines, hqueue, List.append_nil] at hlines
    exact (List.mem_append.mp hlines).imp_right Or.inl

end HydrogenHttpd.Ref
