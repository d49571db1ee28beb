import HydrogenHttpd.Proofs.ThreadPoolRuns
import HydrogenHttpd.Ref.ServerLifetime

/-!
# What outlives the tasks

The members declared before the pool are still there while its destructor
waits for the workers; that much the order of the declarations gives
(`earlier_member_outlives`). The static cache is declared behind the pool. It
is gone before the workers are asked to stop, so whatever task is queued or in
hand when the destruction starts may run without it, and the schedules in which
none does are exactly those of a pool that is at rest (`tasks_guarded_iff`).
-/

namespace HydrogenHttpd.Ref

open Base

variable {ι α : Type}

/-- Where a member that the tasks use is destroyed, no task runs. -/
def TasksGuarded (s : ServerLife ι α) : Prop :=
  (∃ m ∈ Server.usedByTasks, m ∉ s.alive) → ∀ task, .running task ∉ s.pool.workers

/-- A worker that is going to call a task, or is calling it. -/
def WorkerPhase.busy {τ : Type} : WorkerPhase τ → Prop
  | .taken _ | .running _ => True
  | _ => False

/-- No task is queued, in the hands of a worker before its end, or on its way
into the queue. -/
structure AtRest (s : PoolState ι α) : Prop where
  empty : s.pool.tasks = []
  free : ∀ w ∈ s.workers, ¬ w.busy
  silent : ∀ i task, s.callers i ≠ .enqueueing task

/-! ## A pool at rest stays so -/

/-- A worker in the middle of the others that moves on to something else than a
task. -/
theorem free_moved {before after : List (WorkerPhase (PoolTask α))}
    {w w' : WorkerPhase (PoolTask α)} (h : ∀ v ∈ before ++ w :: after, ¬ v.busy) (hw : ¬ w'.busy) :
    ∀ v ∈ before ++ w' :: after, ¬ v.busy := by
  intro v hv
  rcases List.mem_append.mp hv with hv | hv
  · exact h v (List.mem_append_left _ hv)
  · rcases List.mem_cons.mp hv with rfl | hv
    · exact hw
    · exact h v (List.mem_append_right _ (List.mem_cons_of_mem _ hv))

theorem atRest_step [DecidableEq ι] {s s' : PoolState ι α} (hs : AtRest s) (h : PoolStep s s')
    (hsilent : ∀ i task, s'.callers i ≠ .enqueueing task) : AtRest s' := by
  have hfree := hs.free
  cases h with
  | enter i body h => exact absurd (Function.update_self ..) (hsilent i _)
  | enqueue i task h => exact absurd h (hs.silent i task)
  | answer i task result h => exact ⟨hs.empty, hfree, hsilent⟩
  | callShutdown i h => exact ⟨hs.empty, hfree, hsilent⟩
  | shutdown i h =>
      refine ⟨?_, hfree, hsilent⟩
      rw [shutdown_pool]
      exact hs.empty
  | join i joined h hworker => exact ⟨hs.empty, hfree, hsilent⟩
  | joined i h => exact ⟨hs.empty, hfree, hsilent⟩
  | wake before after h =>
      rw [h] at hfree
      exact ⟨hs.empty, free_moved hfree id, hsilent⟩
  | take before after h =>
      rw [h] at hfree
      obtain ⟨-, -, htake⟩ | ⟨-, -, htake⟩ | ⟨task, rest, htasks, -⟩ := take_cases s.pool
      · rw [htake] at hsilent ⊢
        exact ⟨hs.empty, free_moved hfree id, hsilent⟩
      · rw [htake] at hsilent ⊢
        exact ⟨hs.empty, free_moved hfree id, hsilent⟩
      · rw [hs.empty] at htasks
        cases htasks
  | call before after task h =>
      rw [h] at hfree
      exact absurd trivial (hfree (.taken task) (by simp))
  | finish before after task outcome h =>
      rw [h] at hfree
      exact ⟨hs.empty, free_moved hfree id, hsilent⟩
  | deactivate before after task h =>
      rw [h] at hfree
      exact ⟨hs.empty, free_moved hfree id, hsilent⟩
  | complete before after task h =>
      rw [h] at hfree
      exact ⟨hs.empty, free_moved hfree id, hsilent⟩

/-! ## A busy pool calls a task -/

section Busy

variable [DecidableEq ι]

/-- One step of a worker. -/
def WorkStep (s s' : PoolState ι α) : Prop := PoolStep s s' ∧ s'.callers = s.callers

variable {s : PoolState ι α} {before after : List (WorkerPhase (PoolTask α))}

/-- Some task is running a few steps of the workers later. -/
def WillRun (s : PoolState ι α) : Prop :=
  ∃ s' task, Later WorkStep s s' ∧ .running task ∈ s'.workers

theorem WillRun.step {s' : PoolState ι α} (hstep : PoolStep s s')
    (hcallers : s'.callers = s.callers) (h : WillRun s') : WillRun s := by
  obtain ⟨last, task, hlater, hrunning⟩ := h
  exact ⟨last, task, hlater.head ⟨hstep, hcallers⟩, hrunning⟩

theorem willRun_of_taken {task : PoolTask α} (h : s.workers = before ++ .taken task :: after) :
    WillRun s := by
  refine WillRun.step (.call s before after task h) rfl ⟨_, task, .refl, ?_⟩
  simp

/-- A worker that asks the queue for a task gets one. -/
theorem willRun_of_locking (h : s.workers = before ++ .locking :: after)
    (htasks : s.pool.tasks ≠ []) : WillRun s := by
  refine WillRun.step (.take s before after h) rfl ?_
  obtain ⟨hempty, -, -⟩ | ⟨hempty, -, -⟩ | ⟨task, rest, -, htake⟩ := take_cases s.pool
  · exact absurd hempty htasks
  · exact absurd hempty htasks
  · rw [htake]
    exact willRun_of_taken rfl

/-- Wherever a worker is, it comes to a task if there is one. -/
theorem willRun_of_not_atRest (hs : PoolInvariant s)
    (h : s.pool.tasks ≠ [] ∨ ∃ w ∈ s.workers, w.busy) : WillRun s := by
  rcases h with htasks | ⟨w, hw, hbusy⟩
  · obtain ⟨w, hw⟩ := List.exists_mem_of_ne_nil _ hs.staffed
    obtain ⟨before, after, h⟩ := List.append_of_mem hw
    cases w with
    | locking => exact willRun_of_locking h htasks
    | waiting => exact .step (.wake s before after h) rfl (willRun_of_locking rfl htasks)
    | taken task => exact willRun_of_taken h
    | running task => exact ⟨s, task, .refl, hw⟩
    | ended task =>
        exact .step (.deactivate s before after task h) rfl
          (.step (.complete _ before after task rfl) rfl (willRun_of_locking rfl htasks))
    | inactive task =>
        exact .step (.complete s before after task h) rfl (willRun_of_locking rfl htasks)
    | returned => exact absurd (hs.accounted.drained hw).2 htasks
  · obtain ⟨before, after, h⟩ := List.append_of_mem hw
    cases w with
    | taken task => exact willRun_of_taken h
    | running task => exact ⟨s, task, .refl, hw⟩
    | locking | waiting | ended task | inactive task | returned => exact absurd hbusy id

end Busy

/-! ## Runs of the server -/

section Life

variable [DecidableEq ι] {main : ι} {enableTls : Bool} {s s' : ServerLife ι α}

/-- What every run keeps: the pool is in a run of its own, and the members that
are left are the first ones; the pool goes only when its workers have returned. -/
structure LifeInvariant (enableTls : Bool) (s : ServerLife ι α) : Prop where
  pool : Reachable PoolState.Initial PoolStep s.pool
  alive : s.alive <+: Server.members enableTls
  whole : s.destroying = false → s.alive = Server.members enableTls
  joined : .workers ∉ s.alive → ∀ w ∈ s.pool.workers, w = .returned

theorem workers_mem_members (enableTls : Bool) : .workers ∈ Server.members enableTls := by
  cases enableTls <;> decide

/-- Workers that have all returned stay where they are. -/
theorem returned_step {p p' : PoolState ι α} (h : PoolStep p p')
    (hreturned : ∀ w ∈ p.workers, w = .returned) : ∀ w ∈ p'.workers, w = .returned := by
  cases h with
  | wake before after h | take before after h | call before after task h
  | finish before after task outcome h | deactivate before after task h
  | complete before after task h =>
      rw [h] at hreturned
      exact nomatch hreturned _ (List.mem_append_right _ List.mem_cons_self)
  | enter | enqueue | answer | callShutdown | shutdown | join | joined => exact hreturned

theorem lifeInvariant_step (hs : LifeInvariant enableTls s) (h : LifeStep main s s') :
    LifeInvariant enableTls s' := by
  cases h with
  | work pool h hcallers =>
      exact { hs with
        pool := hs.pool.step h
        joined := fun hgone => returned_step h (hs.joined hgone) }
  | accept pool hserving h hcallers =>
      exact { hs with
        pool := hs.pool.step h
        joined := fun hgone => returned_step h (hs.joined hgone) }
  | leave hserving hcallers => exact { hs with whole := fun hno => nomatch hno }
  | destroy rest m hdestroying h hm =>
      have hprefix := hs.alive
      rw [h] at hprefix
      refine {
        pool := hs.pool
        alive := (List.prefix_append rest [m]).trans hprefix
        whole := fun hno => by simp [hdestroying] at hno
        joined := fun hgone => hs.joined ?_ }
      rw [h, List.mem_append, List.mem_singleton]
      exact fun hmem => hmem.elim hgone fun heq => hm heq.symm
  | shutdown rest pool hdestroying halive h hmain hcallers =>
      exact { hs with
        pool := hs.pool.step h
        joined := fun hgone => returned_step h (hs.joined hgone) }
  | joined rest hdestroying halive h =>
      have hprefix := hs.alive
      rw [halive] at hprefix
      have hsettled := (poolInvariant_run hs.pool).joined main
      rw [h] at hsettled
      exact {
        pool := hs.pool
        alive := (List.prefix_append rest [.workers]).trans hprefix
        whole := fun hno => by simp [hdestroying] at hno
        joined := fun _ => hsettled }

theorem lifeInvariant_run (h : Reachable (ServerLife.Initial enableTls) (LifeStep main) s) :
    LifeInvariant enableTls s := by
  refine h.invariant (fun s hs => ?_) fun _ _ hs hstep => lifeInvariant_step hs hstep
  obtain ⟨hpool, halive, -⟩ := hs
  refine ⟨.start hpool, by rw [halive], fun _ => halive, fun hgone => ?_⟩
  rw [halive] at hgone
  exact absurd (workers_mem_members enableTls) hgone

/-- The members declared in front of the pool. -/
def declaredBefore (enableTls : Bool) : List Member :=
  [.io, .plainAcceptor] ++ (if enableTls then [.tlsContext, .tlsAcceptor] else []) ++
    [.config, .authStore, .logger, .rateLimiter]

/-- The members in front of the pool are still there while a worker is. -/
theorem earlier_member_outlives
    (hrun : Reachable (ServerLife.Initial enableTls) (LifeStep main) s) {m : Member}
    (hused : m ∈ Server.usedByTasks) (hm : m ≠ .staticCache) (hgone : m ∉ s.alive) :
    ∀ w ∈ s.pool.workers, w = .returned := by
  have hs := lifeInvariant_run hrun
  refine hs.joined fun hworkers => hgone ?_
  have hfront : declaredBefore enableTls <+: Server.members enableTls :=
    ⟨[.workers, .staticCache, .sqlite, .startedAt], by cases enableTls <;> rfl⟩
  have hmem : ∀ b : Bool, .workers ∉ declaredBefore b ∧
      ∀ m ∈ Server.usedByTasks, m ≠ .staticCache → m ∈ declaredBefore b := by
    decide
  rcases List.prefix_or_prefix_of_prefix hs.alive hfront with hfew | hmany
  · exact absurd (hfew.mem hworkers) (hmem enableTls).1
  · exact hmany.mem ((hmem enableTls).2 m hused hm)

/-! ## The destruction -/

/-- What the workers do is what they do in the server. -/
theorem later_work {p p' : PoolState ι α} (alive : List Member) (destroying : Bool)
    (h : Later WorkStep p p') :
    Later (LifeStep main) { pool := p, alive := alive, destroying := destroying }
      { pool := p', alive := alive, destroying := destroying } := by
  induction h with
  | refl => exact .refl
  | tail _ hstep ih => exact ih.tail (.work _ _ hstep.1 hstep.2)

/-- The members behind the pool are destroyed without a word to the workers. -/
theorem later_cacheDestroyed (main : ι) (enableTls : Bool) (pool : PoolState ι α) :
    ∃ alive, .staticCache ∉ alive ∧
      Later (LifeStep main)
        { pool := pool, alive := Server.members enableTls, destroying := true }
        { pool := pool, alive := alive, destroying := true } := by
  refine ⟨declaredBefore enableTls ++ [.workers], ?_, ?_⟩
  · cases enableTls <;> decide
  · have hstarted : LifeStep main
        { pool := pool, alive := Server.members enableTls, destroying := true }
        { pool := pool, alive := declaredBefore enableTls ++ [.workers, .staticCache, .sqlite],
          destroying := true } :=
      .destroy _ _ .startedAt rfl (by cases enableTls <;> rfl) (by decide)
    have hsqlite : LifeStep main
        { pool := pool, alive := declaredBefore enableTls ++ [.workers, .staticCache, .sqlite],
          destroying := true }
        { pool := pool, alive := declaredBefore enableTls ++ [.workers, .staticCache],
          destroying := true } :=
      .destroy _ _ .sqlite rfl (by cases enableTls <;> rfl) (by decide)
    have hcache : LifeStep main
        { pool := pool, alive := declaredBefore enableTls ++ [.workers, .staticCache],
          destroying := true }
        { pool := pool, alive := declaredBefore enableTls ++ [.workers], destroying := true } :=
      .destroy _ _ .staticCache rfl (by cases enableTls <;> rfl) (by decide)
    exact ((Relation.ReflTransGen.single hstarted).tail hsqlite).tail hcache

/-- While the server is destroyed, a pool at rest stays so. -/
theorem atRest_lifeStep (hdestroying : s.destroying = true) (hs : AtRest s.pool)
    (h : LifeStep main s s') : s'.destroying = true ∧ AtRest s'.pool := by
  cases h with
  | work pool h hcallers =>
      exact ⟨hdestroying, atRest_step hs h fun i task => hcallers ▸ hs.silent i task⟩
  | accept pool hserving h hcallers =>
      rw [hdestroying] at hserving
      cases hserving
  | leave hserving hcallers => exact ⟨rfl, hs⟩
  | destroy rest m hd h hm => exact ⟨hdestroying, hs⟩
  | shutdown rest pool hd halive h hmain hcallers =>
      refine ⟨hdestroying, atRest_step hs h fun i task hi => ?_⟩
      by_cases him : i = main
      · subst him
        rw [hi] at hmain
        exact hmain
      · rw [hcallers i him] at hi
        exact hs.silent i task hi
  | joined rest hd halive h => exact ⟨hdestroying, hs⟩

/-- However the run goes on when the destruction starts, no task runs without a
member it uses: this holds if and only if the pool is at rest by then. -/
theorem tasks_guarded_iff
    (hrun : Reachable (ServerLife.Initial enableTls) (LifeStep main) s)
    (hserving : s.destroying = false) (hcallers : ∀ i, s.pool.callers i = .idle) :
    (∀ s', Later (LifeStep main) { s with destroying := true } s' → TasksGuarded s') ↔
      s.pool.pool.tasks = [] ∧ ∀ w ∈ s.pool.workers, ¬ w.busy := by
  have hs := lifeInvariant_run hrun
  constructor
  · intro hguarded
    by_contra hbusy
    have hwill : WillRun s.pool := by
      refine willRun_of_not_atRest (poolInvariant_run hs.pool) ?_
      by_contra hno
      simp only [not_or, not_not, not_exists, not_and] at hno
      exact hbusy hno
    obtain ⟨pool, task, hwork, hrunning⟩ := hwill
    obtain ⟨alive, hgone, hdestroyed⟩ := later_cacheDestroyed main enableTls s.pool
    rw [hs.whole hserving] at hguarded
    refine hguarded _ (hdestroyed.trans (later_work alive true hwork)) ?_ task hrunning
    exact ⟨.staticCache, by decide, hgone⟩
  · rintro ⟨hempty, hfree⟩ s' hlater -
    have hrest : AtRest s.pool := ⟨hempty, hfree, fun i task hi => by
      rw [hcallers i] at hi
      cases hi⟩
    have hend : s'.destroying = true ∧ AtRest s'.pool :=
      hlater.keeps (I := fun _ => True) (P := fun s' => s'.destroying = true ∧ AtRest s'.pool)
        (fun _ _ h _ => h) (fun _ _ _ ht hstep => atRest_lifeStep ht.1 ht.2 hstep) trivial
        ⟨rfl, hrest⟩
    exact fun task hrunning => hend.2.free _ hrunning trivial

end Life

/-- A server with one worker, which nobody has connected to. -/
def smallServer : ServerLife Unit Unit where
  pool := { pool := { maxQueueSize := 1 }, workers := [.locking], callers := fun _ => .idle }
  alive := Server.members true

theorem smallServer_reachable :
    Reachable (ServerLife.Initial true) (LifeStep ()) smallServer :=
  .start ⟨⟨1, 1, _, _, rfl, rfl⟩, rfl, rfl⟩

theorem tasks_guarded_iff_smallServer :
    (∀ s', Later (LifeStep ()) { smallServer with destroying := true } s' → TasksGuarded s') ↔
      smallServer.pool.pool.tasks = [] ∧ ∀ w ∈ smallServer.pool.workers, ¬ w.busy :=
  tasks_guarded_iff smallServer_reachable rfl fun _ => rfl

/-- The pool behind the first connection. -/
def connectedPool : PoolState Unit Unit where
  pool := { maxQueueSize := 1, tasks := [{ call := 0, body := () }] }
  workers := [.locking]
  callers := fun _ => .idle
  calls := 1
  answers := [({ call := 0, body := () }, true)]
  results := [({ call := 0, body := () }, true)]

/-- A connection is accepted, the server is told to stop, and the task is called
when the static cache is gone. -/
theorem task_outlives_cache :
    ∃ s s' : ServerLife Unit Unit, Reachable (ServerLife.Initial true) (LifeStep ()) s ∧
      s.destroying = false ∧ (∀ i, s.pool.callers i = .idle) ∧
      Later (LifeStep ()) { s with destroying := true } s' ∧
      .staticCache ∉ s'.alive ∧ .running { call := 0, body := () } ∈ s'.pool.workers := by
  have entered := smallServer_reachable.step (.accept _ _ rfl (.enter _ () () rfl) fun _ => id)
  have queued := entered.step
    (.accept _ _ rfl (.enqueue _ () { call := 0, body := () } rfl) fun _ => id)
  have accepted := queued.step
    (.accept _ _ rfl (.answer _ () { call := 0, body := () } true rfl) fun _ => id)
  obtain ⟨alive, hgone, hdestroyed⟩ := later_cacheDestroyed () true connectedPool
  have hcalled := (hdestroyed.tail (.work _ _ (.take _ [] [] rfl) rfl)).tail
    (.work _ _ (.call _ [] [] { call := 0, body := () } rfl) rfl)
  exact ⟨_, _, accepted, rfl, fun _ => rfl, hcalled, hgone, List.mem_singleton_self _⟩

end HydrogenHttpd.Ref
