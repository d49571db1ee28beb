import HydrogenHttpd.Ref.ThreadPool

/-!
# The end of a server (`Server.hpp`, `Application.cpp`)

`runHydrogenHttpd` leaves the scope of its `Server` when the event loop has
been stopped and the I/O threads are joined. The members are then destroyed by
the main thread, the last declared first. `workers_` is one of them: its
destructor is a call of `shutdown`, which lets the workers empty the queue and
joins them. The workers go on by themselves until then, whatever has been
destroyed in the meantime.

No other call of `shutdown` exists, so the one of the destructor always joins.
-/

namespace HydrogenHttpd.Ref

open Base

/-- The data members of `Server`. -/
inductive Member where
  | io
  | plainAcceptor
  | tlsContext
  | tlsAcceptor
  | config
  | authStore
  | logger
  | rateLimiter
  | workers
  | staticCache
  | sqlite
  | startedAt
  deriving DecidableEq, Repr

namespace Server

/-- The order they are declared in; two of them are left out of a build without
TLS. -/
def members (enableTls : Bool) : List Member :=
  [.io, .plainAcceptor] ++ (if enableTls then [.tlsContext, .tlsAcceptor] else []) ++
    [.config, .authStore, .logger, .rateLimiter, .workers, .staticCache, .sqlite, .startedAt]

/-- The members that `handlePlainClient` and `handleTlsClient` use. -/
def usedByTasks : List Member := [.config, .authStore, .logger, .rateLimiter, .staticCache]

end Server

structure ServerLife (ι α : Type) where
  pool : PoolState ι α
  /-- The members that are not destroyed yet, in the order of their declaration. -/
  alive : List Member
  /-- The main thread is in the destructor. -/
  destroying : Bool := false

/-- A thread inside the `shutdown` of the destructor. -/
def CallerPhase.inShutdown {α : Type} : CallerPhase α → Prop
  | .stopping | .joining _ | .stopped => True
  | _ => False

namespace ServerLife

variable {ι α : Type}

/-- A server that was just constructed. -/
def Initial (enableTls : Bool) (s : ServerLife ι α) : Prop :=
  s.pool.Initial ∧ s.alive = Server.members enableTls ∧ s.destroying = false

end ServerLife

section Step

variable {ι α : Type} [DecidableEq ι]

/-- One step of one thread. -/
inductive LifeStep (main : ι) : ServerLife ι α → ServerLife ι α → Prop where
  /-- A worker, which changes nothing of the other threads. -/
  | work (s : ServerLife ι α) (pool : PoolState ι α) (h : PoolStep s.pool pool)
      (hcallers : pool.callers = s.pool.callers) :
      LifeStep main s { s with pool := pool }
  /-- An I/O thread, in the handler of an accepted connection. -/
  | accept (s : ServerLife ι α) (pool : PoolState ι α) (hserving : s.destroying = false)
      (h : PoolStep s.pool pool) (hcallers : ∀ i, ¬ (pool.callers i).inShutdown) :
      LifeStep main s { s with pool := pool }
  /-- The event loop is stopped and the I/O threads are joined. -/
  | leave (s : ServerLife ι α) (hserving : s.destroying = false)
      (hcallers : ∀ i, s.pool.callers i = .idle) :
      LifeStep main s { s with destroying := true }
  /-- A member other than the pool is destroyed. -/
  | destroy (s : ServerLife ι α) (rest : List Member) (m : Member)
      (hdestroying : s.destroying = true) (h : s.alive = rest ++ [m]) (hm : m ≠ .workers) :
      LifeStep main s { s with alive := rest }
  /-- The destructor of the pool goes on with its `shutdown`. -/
  | shutdown (s : ServerLife ι α) (rest : List Member) (pool : PoolState ι α)
      (hdestroying : s.destroying = true) (halive : s.alive = rest ++ [.workers])
      (h : PoolStep s.pool pool) (hmain : (pool.callers main).inShutdown)
      (hcallers : ∀ i, i ≠ main → pool.callers i = s.pool.callers i) :
      LifeStep main s { s with pool := pool }
  /-- The workers are joined, and the pool is destroyed. -/
  | joined (s : ServerLife ι α) (rest : List Member) (hdestroying : s.destroying = true)
      (halive : s.alive = rest ++ [.workers]) (h : s.pool.callers main = .stopped) :
      LifeStep main s { s with alive := rest }

end Step

end HydrogenHttpd.Ref
