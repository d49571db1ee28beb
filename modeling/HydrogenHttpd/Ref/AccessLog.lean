import HydrogenHttpd.Base.Holders
import HydrogenHttpd.Base.Numbers
import HydrogenHttpd.Base.Transitions

/-!
# The access log (`Logger.cpp`)

`AccessLog` holds the members of `Logger` behind `access`, `flushAccess` and
the writer thread. What a thread does while it has the mutex of the queue is
one step. The mutex of the file is a member of its own, since a batch is
written line by line and its holder can be overtaken in between.

Threads stand in a list, each with the place it has reached (`LogPhase`).
`LogPhase.next` is the next step of a thread, and `LogState.step` interleaves
them with the calls that begin. The writer's wait has a time limit, so that it
may go on at any time and tests again; the notifications change no member and
are left out. A line is told apart from every other by the call that brought
it. The lists at the end of `AccessLog` are a record of the run and steer
nothing.
-/

namespace HydrogenHttpd.Ref

open Base

/-- A line of the log, and the number of the call of `access` that made it. -/
structure AccessLine where
  call : Nat
  text : Bytes
  deriving DecidableEq, Repr

/-- The arguments of `access`, behind the text of `now()`. -/
structure AccessEntry where
  now : Bytes
  ip : Bytes
  scheme : Bytes
  method : Bytes
  target : Bytes
  status : Int
  byteCount : Nat
  deriving DecidableEq, Repr

namespace AccessEntry

def line (e : AccessEntry) : Bytes :=
  e.now ++ bytes " ip=" ++ e.ip ++ bytes " scheme=" ++ e.scheme ++ bytes " method=" ++ e.method ++
    bytes " target=\"" ++ e.target ++ bytes "\" status=" ++ signedDecimal e.status ++
    bytes " bytes=" ++ decimal e.byteCount ++ [lf]

end AccessEntry

structure AccessLog where
  asyncAccessLog : Bool := true
  enableAccessLog : Bool := true
  accessLogSampleRate : Nat := 1
  accessQueueCapacity : Nat := 65536
  /-- `access_` is open. -/
  accessOpen : Bool := true
  /-- A 64-bit counter. -/
  accessCounter : Nat := 0
  /-- A 64-bit counter. -/
  droppedAccessLogs : Nat := 0
  /-- The queue, the front first. -/
  accessQueue : List AccessLine := []
  stopping : Bool := false
  /-- A thread has the mutex of the file. -/
  accessFileLocked : Bool := false
  /-- The writer thread has returned, so that `join` does. -/
  accessWriterReturned : Bool := false
  /-- What was written to `access_`. -/
  accessFile : List AccessLine := []
  /-- The lines that came to the mutex of the queue and were put in. -/
  enqueued : List AccessLine := []
  /-- The lines that came to a full queue. -/
  dropped : List AccessLine := []
  deriving DecidableEq, Repr

/-- Who calls `writeAccessBatch`. -/
inductive BatchOwner where
  | accessWriterLoop
  /-- A call of `flushAccess`, with what had been put in the queue before it. -/
  | flushAccess (before : List AccessLine)
  /-- The call of `flushAccess` in the destructor. -/
  | destructor
  deriving DecidableEq, Repr

/-- Where a thread is. -/
inductive LogPhase where
  /-- Inside `access`, with its line. -/
  | logging (line : AccessLine)
  /-- Back from `access`. -/
  | logged
  /-- The writer, before the mutex of the queue. -/
  | waiting (batch : List AccessLine)
  /-- The writer has left its loop. -/
  | exited
  /-- The destructor, in `join`. -/
  | joining
  /-- Inside `flushAccess`, before the mutex of the queue. -/
  | flushing (who : BatchOwner)
  /-- With a batch, before the mutex of the file. -/
  | swapped (who : BatchOwner) (batch : List AccessLine)
  /-- Inside the loop of `writeAccessBatch`, with what is left of the batch. -/
  | writing (who : BatchOwner) (rest : List AccessLine)
  /-- Inside `flushAccess`, behind `writeAccessBatch`. -/
  | written (who : BatchOwner)
  /-- Back from `flushAccess`. -/
  | flushed (who : BatchOwner)
  deriving DecidableEq, Repr

namespace LogPhase

/-- The lines of a thread that are not in the file yet. -/
def held : LogPhase → List AccessLine
  | .logging line => [line]
  | .waiting batch => batch
  | .swapped _ batch => batch
  | .writing _ rest => rest
  | _ => []

/-- The thread is inside `access`. -/
def logs : LogPhase → Bool
  | .logging _ => true
  | _ => false

/-- The lines that a thread has taken out of the queue. -/
def batch : LogPhase → List AccessLine
  | .logging _ => []
  | phase => phase.held

end LogPhase

/-- Behind `writeAccessBatch`. The writer clears its batch. -/
def BatchOwner.resume : BatchOwner → LogPhase
  | .accessWriterLoop => .waiting []
  | who => .written who

namespace AccessLog

/-- The constructor, and the writer it starts. -/
def construct (asyncAccessLog enableAccessLog : Bool)
    (accessLogSampleRate accessQueueCapacity : Nat) (accessOpen : Bool) :
    AccessLog × List LogPhase :=
  ({ asyncAccessLog := asyncAccessLog
     enableAccessLog := enableAccessLog
     accessLogSampleRate := if accessLogSampleRate = 0 then 1 else accessLogSampleRate
     accessQueueCapacity := if accessQueueCapacity = 0 then 1 else accessQueueCapacity
     accessOpen := accessOpen },
    if enableAccessLog ∧ asyncAccessLog then [.waiting []] else [])

/-- `access` up to its line, if there is to be one. -/
def sample (log : AccessLog) (call : Nat) (e : AccessEntry) : Option AccessLine × AccessLog :=
  if log.enableAccessLog = false then (none, log)
  else
    let sequence := log.accessCounter
    let log := { log with accessCounter := (sequence + 1) % 2 ^ 64 }
    if sequence % log.accessLogSampleRate ≠ 0 then (none, log)
    else (some { call := call, text := e.line }, log)

/-- `access` under the mutex of the queue. -/
def push (log : AccessLog) (line : AccessLine) : AccessLog :=
  if log.accessQueueCapacity ≤ log.accessQueue.length then
    { log with
      droppedAccessLogs := (log.droppedAccessLogs + 1) % 2 ^ 64
      dropped := log.dropped ++ [line] }
  else
    { log with
      accessQueue := log.accessQueue ++ [line]
      enqueued := log.enqueued ++ [line] }

/-- `access << line`. -/
def write (log : AccessLog) (line : AccessLine) : AccessLog :=
  { log with accessFile := log.accessFile ++ [line] }

/-- `accessWriterLoop` under the mutex of the queue. -/
def takeBatch (log : AccessLog) (batch : List AccessLine) : LogPhase × AccessLog :=
  let swapped := log.accessQueue
  let log := { log with accessQueue := batch }
  if log.stopping ∧ swapped = [] then (.exited, { log with accessWriterReturned := true })
  else (.swapped .accessWriterLoop swapped, log)

end AccessLog

/-- The next step of a thread; `none` where it waits for another or is back. -/
def LogPhase.next (log : AccessLog) : LogPhase → Option (LogPhase × AccessLog)
  | .logging line =>
      if log.asyncAccessLog then some (.logged, log.push line)
      else if log.accessFileLocked then none
      else some (.logged, if log.accessOpen then log.write line else log)
  | .waiting batch => some (log.takeBatch batch)
  | .joining => if log.accessWriterReturned then some (.flushing .destructor, log) else none
  | .flushing who =>
      if log.asyncAccessLog then some (.swapped who log.accessQueue, { log with accessQueue := [] })
      else some (.written who, log)
  | .swapped who batch =>
      if batch = [] then some (who.resume, log)
      else if log.accessFileLocked then none
      else if log.accessOpen = false then some (who.resume, log)
      else some (.writing who batch, { log with accessFileLocked := true })
  | .writing who (line :: rest) => some (.writing who rest, log.write line)
  | .writing who [] => some (who.resume, { log with accessFileLocked := false })
  | .written who => if log.accessFileLocked then none else some (.flushed who, log)
  | .logged | .exited | .flushed _ => none

structure LogState where
  log : AccessLog
  threads : List LogPhase
  /-- How many calls of `access` there were. -/
  calls : Nat := 0
  /-- The lines the calls made. -/
  sampled : List AccessLine := []
  /-- The destructor has begun. -/
  destroying : Bool := false
  deriving DecidableEq, Repr

/-- What can happen next. -/
inductive LogEvent where
  | access (e : AccessEntry)
  | flushAccess
  /-- The destructor begins. -/
  | destroy
  /-- The thread of this number makes its next step. -/
  | next (n : Nat)
  deriving DecidableEq, Repr

namespace LogState

/-- A logger that was just constructed. -/
def construct (asyncAccessLog enableAccessLog : Bool)
    (accessLogSampleRate accessQueueCapacity : Nat) (accessOpen : Bool) : LogState :=
  let (log, threads) := AccessLog.construct asyncAccessLog enableAccessLog accessLogSampleRate
    accessQueueCapacity accessOpen
  { log := log, threads := threads }

/-- A call of `access` begins. None does once the destructor has begun. -/
def access (s : LogState) (e : AccessEntry) : Option LogState :=
  if s.destroying then none
  else
    match s.log.sample s.calls e with
    | (none, log) => some { s with log := log, calls := s.calls + 1 }
    | (some line, log) =>
        some { s with
               log := log
               threads := s.threads ++ [.logging line]
               calls := s.calls + 1
               sampled := s.sampled ++ [line] }

/-- A call of `flushAccess` begins. -/
def flushAccess (s : LogState) : LogState :=
  let who : BatchOwner := .flushAccess s.log.enqueued
  { s with threads := s.threads ++ [if s.log.enableAccessLog then .flushing who else .flushed who] }

/-- The destructor begins, when no call of `access` is under way. -/
def destroy (s : LogState) : Option LogState :=
  if s.destroying ∨ s.threads.any (·.logs) then none
  else if s.log.enableAccessLog ∧ s.log.asyncAccessLog then
    some { s with
           log := { s.log with stopping := true }
           threads := s.threads ++ [.joining]
           destroying := true }
  else
    some { s with
           threads := s.threads ++
             [if s.log.enableAccessLog then .flushing .destructor else .flushed .destructor]
           destroying := true }

/-- The thread at `n` makes its next step. -/
def next (s : LogState) (n : Nat) : Option LogState :=
  match s.threads[n]? with
  | none => none
  | some phase =>
      match phase.next s.log with
      | none => none
      | some (phase, log) => some { s with log := log, threads := s.threads.set n phase }

def step (s : LogState) : LogEvent → Option LogState
  | .access e => s.access e
  | .flushAccess => some s.flushAccess
  | .destroy => s.destroy
  | .next n => s.next n

/-- A sequence of events. -/
def run (s : LogState) : List LogEvent → Option LogState
  | [] => some s
  | e :: rest => (s.step e).bind fun s => s.run rest

end LogState

end HydrogenHttpd.Ref
