import HydrogenHttpd.Base.Transitions

/-!
# The worker pool (`ThreadPool.cpp`)

`ThreadPool` holds the members that threads share. What a thread does with
them while it has the mutex is one function (`enqueue`, `shutdown`, `take`);
the three counters are atomic, so each change of one is a step by itself.

`PoolStep` interleaves any number of calling threads with the workers. A
caller's `notify_one` or `notify_all` changes no member: a worker that waits
may wake at any time, since the condition variable allows it, and tests again.
A task is told apart from every other by the call that brought it. The lists
at the end of `PoolState` are a record of the run and steer nothing.
-/

namespace HydrogenHttpd.Ref

open Base

structure ThreadPool (τ : Type) where
  maxQueueSize : Nat
  /-- The queue, the front first. -/
  tasks : List τ := []
  stopping : Bool := false
  active : Nat := 0
  completed : Nat := 0
  rejected : Nat := 0

/-- Where a worker is in `workerLoop`. -/
inductive WorkerPhase (τ : Type) where
  /-- It is about to have the mutex, to test and to take. -/
  | locking
  /-- It waits on the condition variable. -/
  | waiting
  /-- It has a task and has left the mutex. -/
  | taken (task : τ)
  /-- `active_` counts it, and the task is being called. -/
  | running (task : τ)
  /-- The task returned, or what it threw was caught. -/
  | ended (task : τ)
  /-- `active_` does not count it any more. -/
  | inactive (task : τ)
  | returned

namespace WorkerPhase

variable {τ : Type}

/-- The task a worker holds. -/
def task : WorkerPhase τ → Option τ
  | .taken t | .running t | .ended t | .inactive t => some t
  | _ => none

/-- The task a worker holds and has called. -/
def called : WorkerPhase τ → Option τ
  | .running t | .ended t | .inactive t => some t
  | _ => none

/-- The task a worker holds while `active_` counts it. -/
def counted : WorkerPhase τ → Option τ
  | .running t | .ended t => some t
  | _ => none

end WorkerPhase

namespace ThreadPool

variable {τ : Type}

/-- The constructor, which starts `workerCount` workers. -/
def construct (workerCount maxQueueSize : Nat) :
    Except String (ThreadPool τ × List (WorkerPhase τ)) :=
  if workerCount = 0 then .error "ThreadPool workerCount must be greater than 0"
  else if maxQueueSize = 0 then .error "ThreadPool maxQueueSize must be greater than 0"
  else .ok ({ maxQueueSize := maxQueueSize }, List.replicate workerCount .locking)

/-- `enqueue` under the mutex, and what it will return. -/
def enqueue (pool : ThreadPool τ) (task : τ) : Bool × ThreadPool τ :=
  if pool.stopping ∨ pool.maxQueueSize ≤ pool.tasks.length then
    (false, { pool with rejected := pool.rejected + 1 })
  else (true, { pool with tasks := pool.tasks ++ [task] })

/-- `shutdown` under the mutex, and whether it goes on to join the workers. -/
def shutdown (pool : ThreadPool τ) : Bool × ThreadPool τ :=
  if pool.stopping then (false, pool) else (true, { pool with stopping := true })

/-- `workerLoop` under the mutex: the predicate of the wait, the exit test, and
the front of the queue. -/
def take (pool : ThreadPool τ) : WorkerPhase τ × ThreadPool τ :=
  if pool.stopping = false ∧ pool.tasks.isEmpty then (.waiting, pool)
  else
    match pool.tasks with
    | [] => (.returned, pool)
    | task :: rest => (.taken task, { pool with tasks := rest })

end ThreadPool

/-- A task and the number of the call that brought it. -/
structure PoolTask (α : Type) where
  call : Nat
  body : α

/-- Where a thread is that uses the pool. -/
inductive CallerPhase (α : Type) where
  | idle
  /-- Inside `enqueue`, before the mutex. -/
  | enqueueing (task : PoolTask α)
  /-- Inside `enqueue`, behind the mutex. -/
  | answering (task : PoolTask α) (answer : Bool)
  /-- Inside `shutdown`, before the mutex. -/
  | stopping
  /-- Inside `shutdown`, with so many workers joined. -/
  | joining (joined : Nat)
  /-- Back from a `shutdown` that joined all workers. -/
  | stopped

structure PoolState (ι α : Type) where
  pool : ThreadPool (PoolTask α)
  workers : List (WorkerPhase (PoolTask α))
  callers : ι → CallerPhase α
  /-- How many calls of `enqueue` there were. -/
  calls : Nat := 0
  /-- What the calls were answered, in the order of the mutex. -/
  answers : List (PoolTask α × Bool) := []
  /-- What the calls that came back returned. -/
  results : List (PoolTask α × Bool) := []
  /-- The tasks taken from the queue, in this order. -/
  taken : List (PoolTask α) := []
  /-- Every call of a task. -/
  runs : List (PoolTask α) := []
  /-- The tasks that `completed_` counts. -/
  done : List (PoolTask α) := []

namespace PoolState

variable {ι α : Type}

def accepted (s : PoolState ι α) : List (PoolTask α) := (s.answers.filter (·.2)).map (·.1)

def refused (s : PoolState ι α) : List (PoolTask α) := (s.answers.filter (!·.2)).map (·.1)

/-- The tasks the workers hold. -/
def held (s : PoolState ι α) : List (PoolTask α) := s.workers.filterMap (·.task)

/-- Where a task can be: at a position of the queue, with one of the workers, or
among those `completed_` counts. -/
inductive Place where
  | queue (n : Nat)
  | worker (n : Nat)
  | done (n : Nat)

def content (s : PoolState ι α) : Place → Option (PoolTask α)
  | .queue n => s.pool.tasks[n]?
  | .worker n => (s.workers[n]?).bind (·.task)
  | .done n => s.done[n]?

/-- A pool that was just constructed, and threads that have not used it yet. -/
def Initial (s : PoolState ι α) : Prop :=
  ∃ workerCount maxQueueSize pool workers,
    ThreadPool.construct workerCount maxQueueSize = .ok (pool, workers) ∧
      s = { pool := pool, workers := workers, callers := fun _ => .idle }

end PoolState

section Step

variable {ι α : Type} [DecidableEq ι]

/-- One step of one thread. -/
inductive PoolStep : PoolState ι α → PoolState ι α → Prop where
  | enter (s : PoolState ι α) (i : ι) (body : α) (h : s.callers i = .idle) :
      PoolStep s { s with
        calls := s.calls + 1
        callers := Function.update s.callers i (.enqueueing { call := s.calls, body := body }) }
  | enqueue (s : PoolState ι α) (i : ι) (task : PoolTask α)
      (h : s.callers i = .enqueueing task) :
      PoolStep s { s with
        pool := (s.pool.enqueue task).2
        answers := s.answers ++ [(task, (s.pool.enqueue task).1)]
        callers := Function.update s.callers i (.answering task (s.pool.enqueue task).1) }
  | answer (s : PoolState ι α) (i : ι) (task : PoolTask α) (result : Bool)
      (h : s.callers i = .answering task result) :
      PoolStep s { s with
        results := s.results ++ [(task, result)]
        callers := Function.update s.callers i .idle }
  | callShutdown (s : PoolState ι α) (i : ι) (h : s.callers i = .idle) :
      PoolStep s { s with callers := Function.update s.callers i .stopping }
  | shutdown (s : PoolState ι α) (i : ι) (h : s.callers i = .stopping) :
      PoolStep s { s with
        pool := s.pool.shutdown.2
        callers := Function.update s.callers i
          (if s.pool.shutdown.1 then .joining 0 else .idle) }
  | join (s : PoolState ι α) (i : ι) (joined : Nat) (h : s.callers i = .joining joined)
      (hworker : s.workers[joined]? = some .returned) :
      PoolStep s { s with callers := Function.update s.callers i (.joining (joined + 1)) }
  | joined (s : PoolState ι α) (i : ι) (h : s.callers i = .joining s.workers.length) :
      PoolStep s { s with callers := Function.update s.callers i .stopped }
  | wake (s : PoolState ι α) (before after : List (WorkerPhase (PoolTask α)))
      (h : s.workers = before ++ .waiting :: after) :
      PoolStep s { s with workers := before ++ .locking :: after }
  | take (s : PoolState ι α) (before after : List (WorkerPhase (PoolTask α)))
      (h : s.workers = before ++ .locking :: after) :
      PoolStep s { s with
        pool := s.pool.take.2
        workers := before ++ s.pool.take.1 :: after
        taken := s.taken ++ s.pool.take.1.task.toList }
  | call (s : PoolState ι α) (before after : List (WorkerPhase (PoolTask α)))
      (task : PoolTask α) (h : s.workers = before ++ .taken task :: after) :
      PoolStep s { s with
        pool := { s.pool with active := s.pool.active + 1 }
        workers := before ++ .running task :: after
        runs := s.runs ++ [task] }
  /-- The outcome of the task makes no difference. -/
  | finish (s : PoolState ι α) (before after : List (WorkerPhase (PoolTask α)))
      (task : PoolTask α) (outcome : Except String Unit)
      (h : s.workers = before ++ .running task :: after) :
      PoolStep s { s with workers := before ++ .ended task :: after }
  | deactivate (s : PoolState ι α) (before after : List (WorkerPhase (PoolTask α)))
      (task : PoolTask α) (h : s.workers = before ++ .ended task :: after) :
      PoolStep s { s with
        pool := { s.pool with active := s.pool.active - 1 }
        workers := before ++ .inactive task :: after }
  | complete (s : PoolState ι α) (before after : List (WorkerPhase (PoolTask α)))
      (task : PoolTask α) (h : s.workers = before ++ .inactive task :: after) :
      PoolStep s { s with
        pool := { s.pool with completed := s.pool.completed + 1 }
        workers := before ++ .locking :: after
        done := s.done ++ [task] }

end Step

end HydrogenHttpd.Ref
