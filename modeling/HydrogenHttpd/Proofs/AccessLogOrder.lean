import HydrogenHttpd.Proofs.AccessLogRuns

/-!
# The order of the access log

A batch leaves the queue before it reaches the file, and who takes the next
batch may be first at the file. As long as a batch is taken only while no other
thread has one (`Orderly`), the file is in the order of the queue (`Ordered`),
and `flushAccess` is a barrier (`flush_is_barrier`). That is so where only the
destructor calls `flushAccess`, which waits for the writer first
(`orderly_of_unflushed`); it is not so in every run (`flush_overtakes`).
-/

namespace HydrogenHttpd.Ref

open Base

/-! ## The order of the file -/

/-- A batch is taken only while no other thread has one; an empty batch the
writer may take at any time. -/
def LogState.Orderly (s : LogState) : LogEvent → Prop
  | .next n =>
      match s.threads[n]? with
      | some (.flushing _) => Alone LogPhase.batch s.threads n
      | some (.waiting _) => s.log.accessQueue = [] ∨ Alone LogPhase.batch s.threads n
      | _ => True
  | _ => True

/-- The file, then the batch of the one thread that has one, then the queue. -/
structure Ordered (s : LogState) : Prop where
  order : s.log.enqueued =
    s.log.accessFile ++ s.threads.flatMap LogPhase.batch ++ s.log.accessQueue
  alone : ∃ n, Alone LogPhase.batch s.threads n

@[simp] theorem batch_resume (who : BatchOwner) : who.resume.batch = [] := by cases who <;> rfl

theorem batch_of_held {phase : LogPhase} (h : phase.held = []) : phase.batch = [] := by
  cases phase with
  | logging | logged | exited | joining | flushing | written | flushed => rfl
  | waiting batch | swapped who batch | writing who rest => exact h

theorem ordered_construct (rate capacity : Nat) :
    Ordered (LogState.construct true true rate capacity true) where
  order := rfl
  alone := by
    refine ⟨0, fun m p hm hp => ?_⟩
    have hone : [LogPhase.waiting []][m]? = some p := hp
    cases m with
    | zero => exact absurd rfl hm
    | succ m => cases hone

section Order

variable {s : LogState} {n : Nat} {phase phase' : LogPhase} {log : AccessLog}

/-- A step that takes nothing out of the queue and writes nothing. -/
theorem ordered_of_batch_eq (hs : Ordered s) (hphase : s.threads[n]? = some phase)
    (hbatch : phase'.batch = phase.batch)
    (horder : log.enqueued =
      log.accessFile ++ s.threads.flatMap LogPhase.batch ++ log.accessQueue) :
    Ordered { s with log := log, threads := s.threads.set n phase' } where
  order := by rw [flatMap_set_of_eq hphase hbatch]; exact horder
  alone := hs.alone.imp fun _ h => h.set_of_eq hphase hbatch

/-- A step of the only thread with a batch. -/
theorem ordered_of_alone (hphase : s.threads[n]? = some phase)
    (halone : Alone LogPhase.batch s.threads n)
    (horder : log.enqueued = log.accessFile ++ phase'.batch ++ log.accessQueue) :
    Ordered { s with log := log, threads := s.threads.set n phase' } where
  order := by
    rw [halone.flatMap_set (List.getElem?_eq_some_iff.mp hphase).1]
    exact horder
  alone := ⟨n, halone.set phase'⟩

/-- What was put in the queue, while one thread alone has a batch. -/
theorem Ordered.enqueued (hs : Ordered s) (hphase : s.threads[n]? = some phase)
    (halone : Alone LogPhase.batch s.threads n) :
    s.log.enqueued = s.log.accessFile ++ phase.batch ++ s.log.accessQueue := by
  rw [hs.order, halone.flatMap hphase]

theorem ordered_next (hc : Conserved s) (hs : Ordered s) (horderly : s.Orderly (.next n))
    (hphase : s.threads[n]? = some phase) (h : Moves s.log phase phase' log) :
    Ordered { s with log := log, threads := s.threads.set n phase' } := by
  rw [LogState.Orderly, hphase] at horderly
  have hempty : ∀ batch, phase = .waiting batch → batch = [] := fun batch heq =>
    hc.waiting batch (List.mem_of_getElem? (heq ▸ hphase))
  cases h with
  | push line =>
      refine ordered_of_batch_eq hs hphase rfl ?_
      rw [hs.order, List.append_assoc _ s.log.accessQueue]
  | drop | join | lock | finish => exact ordered_of_batch_eq hs hphase rfl hs.order
  | skip who | unlock who => exact ordered_of_batch_eq hs hphase (batch_resume who) hs.order
  | exit batch hstop hqueue =>
      obtain rfl := hempty batch rfl
      exact ordered_of_batch_eq hs hphase rfl (hqueue ▸ hs.order)
  | take batch =>
      obtain rfl := hempty batch rfl
      rcases horderly with hqueue | halone
      · rw [hqueue]
        exact ordered_of_batch_eq hs hphase rfl (hqueue ▸ hs.order)
      · refine ordered_of_alone hphase halone ?_
        rw [hs.enqueued hphase halone]
        simp [LogPhase.batch, LogPhase.held]
  | swap who =>
      refine ordered_of_alone hphase horderly ?_
      rw [hs.enqueued hphase horderly]
      simp [LogPhase.batch, LogPhase.held]
  | write who line rest =>
      obtain ⟨k, halone⟩ := hs.alone
      obtain rfl : n = k := by
        by_contra hne
        exact absurd (halone n _ hne hphase) (List.cons_ne_nil line rest)
      refine ordered_of_alone hphase halone ?_
      rw [AccessLog.write, hs.enqueued hphase halone]
      simp [LogPhase.batch, LogPhase.held]

/-- A thread comes in without a batch. -/
theorem ordered_append (hs : Ordered s) (hbatch : phase.batch = []) :
    Ordered { s with threads := s.threads ++ [phase] } where
  order := by
    rw [List.flatMap_append, List.flatMap_singleton, hbatch, List.append_nil]
    exact hs.order
  alone := hs.alone.imp fun _ h => h.append hbatch

theorem ordered_happens {s' : LogState} {e : LogEvent} (hc : Conserved s) (hs : Ordered s)
    (horderly : s.Orderly e) (h : Happens s e s') : Ordered s' := by
  cases h with
  | skip => exact { hs with }
  | sample e =>
      have happend := @ordered_append s (.logging { call := s.calls, text := e.line }) hs rfl
      exact { happend with }
  | flushAccess => exact ordered_append hs rfl
  | destroy =>
      have happend := @ordered_append s .joining hs rfl
      exact { happend with }
  | next n phase phase' log hphase hmove => exact ordered_next hc hs horderly hphase hmove

end Order

theorem Ordered.file_leads {s : LogState} (hs : Ordered s) :
    s.log.accessFile <+: s.log.enqueued := by
  rw [hs.order, List.append_assoc]
  exact List.prefix_append _ _

/-! ## Without other calls of `flushAccess` -/

/-- Nobody but the destructor calls `flushAccess`. -/
def Unflushed (s : LogState) : Prop :=
  ∀ phase ∈ s.threads, phase.role ≠ .flush ∧ phase ≠ .flushing .accessWriterLoop

theorem unflushed_happens {s s' : LogState} {e : LogEvent} (hs : Unflushed s)
    (he : e ≠ .flushAccess) (h : Happens s e s') : Unflushed s' := by
  cases h with
  | skip => exact hs
  | sample | destroy =>
      intro p hp
      rcases List.mem_append.mp hp with hp | hp
      · exact hs p hp
      · rw [List.mem_singleton.mp hp]
        exact ⟨by simp [LogPhase.role], by simp⟩
  | flushAccess => exact absurd rfl he
  | next n phase phase' log hphase hmove =>
      intro p hp
      rcases mem_set_cases hp with rfl | ⟨m, -, hget⟩
      · refine ⟨hmove.role ▸ (hs phase (List.mem_of_getElem? hphase)).1, ?_⟩
        intro heq
        cases hmove with
        | skip who | unlock who => cases who <;> cases heq
        | push | drop | exit | take | join | swap | lock | write | finish => cases heq
      · exact hs p (List.mem_of_getElem? hget)

/-- A thread that takes a batch is then the only one to have one: the writer is
one thread, and the destructor waits for it. -/
theorem orderly_of_unflushed {s : LogState} {e : LogEvent} (hs : ShutDown s) (hu : Unflushed s) :
    s.Orderly e := by
  have hdestructor : s.roles.count .destructor ≤ 1 := by
    have h := hs.destructors
    split at h
    · exact h
    · exact h.trans (Nat.zero_le 1)
  cases e with
  | access | flushAccess | destroy => trivial
  | next n =>
      rw [LogState.Orderly]
      split
      · next who hphase =>
          have hmem := List.mem_of_getElem? hphase
          cases who with
          | accessWriterLoop => exact absurd rfl (hu _ hmem).2
          | flushAccess before => exact absurd rfl (hu _ hmem).1
          | destructor =>
              have hreturned := (hs.joined _ hmem rfl).resolve_left (by simp)
              intro m p hm hp
              cases hrole : p.role with
              | access =>
                  cases p with
                  | logging | logged => rfl
                  | waiting | exited | joining => cases hrole
                  | flushing who | swapped who | writing who | written who | flushed who =>
                      cases who <;> cases hrole
              | writer =>
                  exact batch_of_held
                    ((hs.returned hreturned).2.2 p (List.mem_of_getElem? hp) hrole)
              | flush => exact absurd hrole (hu p (List.mem_of_getElem? hp)).1
              | destructor => exact absurd (role_unique hdestructor hp hphase hrole rfl) hm
      · next batch hphase =>
          by_cases hreturned : s.log.accessWriterReturned = true
          · exact Or.inl (hs.returned hreturned).2.1
          · right
            intro m p hm hp
            have hmem := List.mem_of_getElem? hp
            cases hrole : p.role with
            | access =>
                cases p with
                | logging | logged => rfl
                | waiting | exited | joining => cases hrole
                | flushing who | swapped who | writing who | written who | flushed who =>
                    cases who <;> cases hrole
            | writer => exact absurd (role_unique hs.writers hp hphase hrole rfl) hm
            | flush => exact absurd hrole (hu p hmem).1
            | destructor =>
                rw [(hs.joined p hmem hrole).resolve_right hreturned]
                rfl
      · trivial

/-! ## The whole run -/

theorem asynchronous_construct (rate capacity : Nat) :
    (LogState.construct true true rate capacity true).log.Asynchronous :=
  ⟨rfl, rfl, rfl⟩

theorem conserved_run {rate capacity : Nat} {events : List LogEvent} {s : LogState}
    (hrun : (LogState.construct true true rate capacity true).run events = some s) :
    Conserved s ∧ ShutDown s :=
  @run_keeps (fun s => Conserved s ∧ ShutDown s) _ _ _
    (fun _ _ _ _ _ hs h => ⟨conserved_happens hs.1 h, shutDown_happens hs.1 hs.2 h⟩)
    (asynchronous_construct rate capacity)
    ⟨conserved_construct rate capacity, shutDown_construct rate capacity⟩ hrun

theorem ordered_run {rate capacity : Nat} {events : List LogEvent} {s : LogState}
    (hevents : .flushAccess ∉ events)
    (hrun : (LogState.construct true true rate capacity true).run events = some s) : Ordered s := by
  have hunflushed : Unflushed (LogState.construct true true rate capacity true) := by
    intro p hp
    have hone : p ∈ [LogPhase.waiting []] := hp
    rw [List.mem_singleton.mp hone]
    exact ⟨by decide, by decide⟩
  have hall := @run_keeps (fun s => (Conserved s ∧ ShutDown s) ∧ Unflushed s ∧ Ordered s) _ _ _
    (fun e he _ _ _ hs h => ⟨⟨conserved_happens hs.1.1 h, shutDown_happens hs.1.1 hs.1.2 h⟩,
      unflushed_happens hs.2.1 (fun heq => hevents (heq ▸ he)) h,
      ordered_happens hs.1.1 hs.2.2 (orderly_of_unflushed hs.1.2 hs.2.1) h⟩)
    (asynchronous_construct rate capacity)
    ⟨⟨conserved_construct rate capacity, shutDown_construct rate capacity⟩, hunflushed,
      ordered_construct rate capacity⟩ hrun
  exact hall.2.2

/-- In every run of an open, asynchronous log: a sampled line is dropped, in the
queue, with one thread or in the file, and nowhere twice; the queue is within
its capacity; behind the destructor, and once no call of `flushAccess` is under
way, what was not dropped is in the file; and where only the destructor calls
`flushAccess`, the file is in the order of the queue. -/
theorem access_log_conserves {rate capacity : Nat} {events : List LogEvent} {s : LogState}
    (hrun : (LogState.construct true true rate capacity true).run events = some s) :
    (∀ line ∈ s.sampled, ∃! place, line ∈ s.content place) ∧
      s.log.accessFile.Nodup ∧
      s.log.droppedAccessLogs = s.log.dropped.length % 2 ^ 64 ∧
      s.log.accessQueue.length ≤ s.log.accessQueueCapacity ∧
      (.flushed .destructor ∈ s.threads →
        (∀ phase ∈ s.threads, phase.role = .flush → ∃ before, phase = .flushed before) →
          ∀ line ∈ s.sampled, line ∉ s.log.dropped → line ∈ s.log.accessFile) ∧
      (.flushAccess ∉ events → s.log.accessFile <+: s.log.enqueued) := by
  obtain ⟨hc, hs⟩ := conserved_run hrun
  refine ⟨fun line hline => existsUnique_logPlace hc hline, ?_, hc.counted, hc.bound, ?_,
    fun hevents => (ordered_run hevents hrun).file_leads⟩
  · have hall := hc.places.nodup_iff.mp hc.nodup
    exact (List.nodup_append.mp (List.nodup_append.mp hall).2.1).2.1
  · intro hdone hback line hline hkept
    rcases lines_after_destructor hc hs hdone rfl hline with h | h | ⟨p, hp, hrole, hmem⟩
    · exact absurd h hkept
    · exact h
    · obtain ⟨before, rfl⟩ := hback p hp hrole
      cases hmem

/-- A request for `/`. -/
def rootEntry : AccessEntry where
  now := bytes "2026-01-01 00:00:00"
  ip := bytes "127.0.0.1"
  scheme := bytes "http"
  method := bytes "GET"
  target := bytes "/"
  status := 200
  byteCount := 123

/-- One line, and the destructor. -/
theorem access_log_conserves_oneLine :
    ∃ s, (LogState.construct true true 1 8 true).run
        ([.access rootEntry, .next 1, .destroy, .next 0, .next 0, .next 0, .next 0, .next 0] ++
          [.next 2, .next 2, .next 2, .next 2]) = some s ∧
      s.sampled = [{ call := 0, text := rootEntry.line }] ∧
      ∀ line ∈ s.sampled, line ∉ s.log.dropped → line ∈ s.log.accessFile := by
  have hrun : (LogState.construct true true 1 8 true).run
      ([.access rootEntry, .next 1, .destroy, .next 0, .next 0, .next 0, .next 0, .next 0] ++
        [.next 2, .next 2, .next 2, .next 2]) =
      some
        { log :=
            { accessQueueCapacity := 8
              accessCounter := 1
              stopping := true
              accessWriterReturned := true
              accessFile := [{ call := 0, text := rootEntry.line }]
              enqueued := [{ call := 0, text := rootEntry.line }] }
          threads := [.exited, .logged, .flushed .destructor]
          calls := 1
          sampled := [{ call := 0, text := rootEntry.line }]
          destroying := true } := by decide +kernel
  refine ⟨_, hrun, rfl, (access_log_conserves hrun).2.2.2.2.1 (by simp) ?_⟩
  intro phase hphase hrole
  fin_cases hphase
  · cases hrole
  · cases hrole
  · exact ⟨_, rfl⟩

/-! ## The barrier -/

/-- What a call of `flushAccess` has achieved for the lines before it. -/
def Secured (log : AccessLog) : LogPhase → Prop
  | .flushing (.flushAccess before) => ∀ line ∈ before, line ∈ log.enqueued
  | .swapped (.flushAccess before) batch => ∀ line ∈ before, line ∈ log.accessFile ∨ line ∈ batch
  | .writing (.flushAccess before) rest => ∀ line ∈ before, line ∈ log.accessFile ∨ line ∈ rest
  | .written (.flushAccess before) => ∀ line ∈ before, line ∈ log.accessFile
  | .flushed (.flushAccess before) => ∀ line ∈ before, line ∈ log.accessFile
  | _ => True

/-- Nothing is taken back from the file or from the record of the queue. -/
theorem Moves.grows {log log' : AccessLog} {phase phase' : LogPhase}
    (h : Moves log phase phase' log') :
    (∀ line ∈ log.enqueued, line ∈ log'.enqueued) ∧
      ∀ line ∈ log.accessFile, line ∈ log'.accessFile := by
  cases h with
  | push => exact ⟨fun _ => List.mem_append_left _, fun _ h => h⟩
  | write => exact ⟨fun _ h => h, fun _ => List.mem_append_left _⟩
  | drop | exit | take | join | swap | skip | lock | unlock | finish =>
      exact ⟨fun _ h => h, fun _ h => h⟩

theorem Secured.grows {log log' : AccessLog} {phase : LogPhase} (h : Secured log phase)
    (hqueue : ∀ line ∈ log.enqueued, line ∈ log'.enqueued)
    (hfile : ∀ line ∈ log.accessFile, line ∈ log'.accessFile) : Secured log' phase := by
  cases phase with
  | logging | logged | waiting | exited | joining => trivial
  | flushing who =>
      cases who with
      | flushAccess before => exact fun line hline => hqueue line (h line hline)
      | accessWriterLoop | destructor => trivial
  | swapped who batch | writing who batch =>
      cases who with
      | flushAccess before => exact fun line hline => (h line hline).imp_left (hfile line)
      | accessWriterLoop | destructor => trivial
  | written who | flushed who =>
      cases who with
      | flushAccess before => exact fun line hline => hfile line (h line hline)
      | accessWriterLoop | destructor => trivial

/-- A step of a call brings its lines nearer to the file. -/
theorem secured_next {s : LogState} (hs : Ordered s) {n : Nat} {phase phase' : LogPhase}
    {log : AccessLog} (horderly : s.Orderly (.next n)) (hphase : s.threads[n]? = some phase)
    (h : Moves s.log phase phase' log) (hbefore : Secured s.log phase) : Secured log phase' := by
  rw [LogState.Orderly, hphase] at horderly
  cases h with
  | push | drop | exit | take | join => trivial
  | swap who =>
      cases who with
      | flushAccess before =>
          intro line hline
          have hall := hbefore line hline
          rw [hs.enqueued hphase horderly] at hall
          simpa [LogPhase.batch, LogPhase.held] using hall
      | accessWriterLoop | destructor => trivial
  | lock who | finish who =>
      cases who with
      | flushAccess before => exact hbefore
      | accessWriterLoop | destructor => trivial
  | skip who | unlock who =>
      cases who with
      | flushAccess before =>
          exact fun line hline => (hbefore line hline).resolve_right List.not_mem_nil
      | accessWriterLoop | destructor => trivial
  | write who line rest =>
      cases who with
      | flushAccess before =>
          intro a ha
          have hall := hbefore a ha
          simp only [AccessLog.write, List.mem_append, List.mem_cons] at hall ⊢
          tauto
      | accessWriterLoop | destructor => trivial

def Barrier (s : LogState) : Prop := ∀ phase ∈ s.threads, Secured s.log phase

theorem barrier_happens {s s' : LogState} {e : LogEvent} (hs : Ordered s) (hb : Barrier s)
    (horderly : s.Orderly e) (h : Happens s e s') : Barrier s' := by
  cases h with
  | skip => exact fun p hp => (hb p hp).grows (fun _ h => h) fun _ h => h
  | sample | destroy =>
      intro p hp
      rcases List.mem_append.mp hp with hp | hp
      · exact (hb p hp).grows (fun _ h => h) fun _ h => h
      · rw [List.mem_singleton.mp hp]
        trivial
  | flushAccess =>
      intro p hp
      rcases List.mem_append.mp hp with hp | hp
      · exact hb p hp
      · rw [List.mem_singleton.mp hp]
        exact fun _ h => h
  | next n phase phase' log hphase hmove =>
      intro p hp
      rcases mem_set_cases hp with rfl | ⟨m, -, hget⟩
      · exact secured_next hs horderly hphase hmove (hb phase (List.mem_of_getElem? hphase))
      · exact (hb p (List.mem_of_getElem? hget)).grows hmove.grows.1 hmove.grows.2

/-- While a batch is taken only when no other thread has one, `flushAccess` comes
back to a file with every line that was put in the queue before the call, and
the file is in the order of the queue. -/
theorem flush_is_barrier {rate capacity : Nat} {s : LogState}
    (hrun : Reachable (· = LogState.construct true true rate capacity true)
      (fun s s' => ∃ e, s.Orderly e ∧ s.step e = some s') s) :
    (∀ before, .flushed (.flushAccess before) ∈ s.threads →
        ∀ line ∈ before, line ∈ s.log.accessFile) ∧
      s.log.accessFile <+: s.log.enqueued := by
  have hall : s.log.Asynchronous ∧ Conserved s ∧ Ordered s ∧ Barrier s := by
    refine @Reachable.invariant _ _ _
      (fun s => s.log.Asynchronous ∧ Conserved s ∧ Ordered s ∧ Barrier s) ?_ ?_ s hrun
    · rintro _ rfl
      refine ⟨asynchronous_construct rate capacity, conserved_construct rate capacity,
        ordered_construct rate capacity, ?_⟩
      intro p hp
      have hone : p ∈ [LogPhase.waiting []] := hp
      rw [List.mem_singleton.mp hone]
      trivial
    · rintro s s' ⟨hlog, hc, hs, hb⟩ ⟨e, horderly, hstep⟩
      have hhappens := happens_of_step hlog hstep
      exact ⟨hhappens.asynchronous hlog, conserved_happens hc hhappens,
        ordered_happens hc hs horderly hhappens, barrier_happens hs hb horderly hhappens⟩
  obtain ⟨-, -, hs, hb⟩ := hall
  exact ⟨fun before hbefore line hline => hb _ hbefore line hline, hs.file_leads⟩

/-- One line, and a call of `flushAccess` that takes it. -/
theorem flush_is_barrier_oneLine :
    ∃ s : LogState,
      .flushed (.flushAccess [{ call := 0, text := rootEntry.line }]) ∈ s.threads ∧
        { call := 0, text := rootEntry.line } ∈ s.log.accessFile := by
  have alone : ∀ log threads calls sampled destroying,
      threads = [LogPhase.waiting [], .logged, .flushing (.flushAccess log.enqueued)] →
      LogState.Orderly { log, threads, calls, sampled, destroying } (.next 2) := by
    rintro log _ calls sampled destroying rfl m p hm hp
    match m with
    | 0 | 1 => cases hp; rfl
    | 2 => exact absurd rfl hm
    | m + 3 => cases hp
  have begun : Reachable (· = LogState.construct true true 1 8 true)
      (fun s s' => ∃ e, s.Orderly e ∧ s.step e = some s') _ := .start rfl
  have pushed := (begun.step ⟨.access rootEntry, trivial, rfl⟩).step ⟨.next 1, trivial, rfl⟩
  have called := pushed.step ⟨.flushAccess, trivial, rfl⟩
  have swapped := called.step ⟨.next 2, alone _ _ _ _ _ rfl, rfl⟩
  have written := (swapped.step ⟨.next 2, trivial, rfl⟩).step ⟨.next 2, trivial, rfl⟩
  have back := (written.step ⟨.next 2, trivial, rfl⟩).step ⟨.next 2, trivial, rfl⟩
  have hback : LogPhase.flushed (.flushAccess [{ call := 0, text := rootEntry.line }]) ∈
      [LogPhase.waiting [], .logged,
        .flushed (.flushAccess [{ call := 0, text := rootEntry.line }])] := by simp
  exact ⟨_, hback, (flush_is_barrier back).1 _ hback _ List.mem_cons_self⟩

/-- A call of `flushAccess` while the writer has a batch: the line in the batch is
not in the file when the call comes back, and a later line is. -/
theorem flush_overtakes :
    ∃ s s', (LogState.construct true true 1 8 true).run
        ([.access rootEntry, .next 1, .next 0, .flushAccess, .access rootEntry, .next 3] ++
          [.next 2, .next 2, .next 2, .next 2, .next 2]) = some s ∧
      .flushed (.flushAccess [{ call := 0, text := rootEntry.line }]) ∈ s.threads ∧
      { call := 0, text := rootEntry.line } ∉ s.log.accessFile ∧
      s.run [.next 0, .next 0] = some s' ∧
      s'.log.enqueued.map (·.call) = [0, 1] ∧ s'.log.accessFile.map (·.call) = [1, 0] := by
  let first : AccessLine := { call := 0, text := rootEntry.line }
  let second : AccessLine := { call := 1, text := rootEntry.line }
  refine ⟨
    { log :=
        { accessQueueCapacity := 8
          accessCounter := 2
          accessFile := [second]
          enqueued := [first, second] }
      threads := [.swapped .accessWriterLoop [first], .logged, .flushed (.flushAccess [first]),
        .logged]
      calls := 2
      sampled := [first, second] }, _, ?_, ?_, ?_, rfl, rfl, rfl⟩
  · decide +kernel
  · simp [first]
  · simp [second]

end HydrogenHttpd.Ref
