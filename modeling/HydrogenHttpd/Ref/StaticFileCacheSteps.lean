import HydrogenHttpd.Base.Transitions
import HydrogenHttpd.Ref.StaticFileCache

/-!
# The cache among several threads

`GetStep` takes `get` apart into what other threads may come between: the three
sections under the shard's lock and the three accesses to the file. `AloneStep`
is such a step where nothing comes between and the files do not change.

`CacheStep` lets any number of threads take such steps in any order, with
whatever the accesses answer.
-/

namespace HydrogenHttpd.Ref

open Base

/-- Where a thread is in `get`; `now` is what it took from the clock first. -/
inductive GetPhase where
  | idle
  | looking (path : Path) (now : Int)
  | sizing (path : Path) (now : Int)
  | timing (path : Path) (now : Int) (size : Nat)
  | revalidating (path : Path) (now : Int) (size : Nat) (modified : Int)
  | reading (path : Path) (now : Int) (size : Nat) (modified : Int)
  | inserting (path : Path) (now : Int) (file : CachedStaticFile) (modified : Int)
  | returned (path : Path) (now : Int) (result : Option CachedStaticFile)

/-- What a step asks of the world outside of the cache, and the answer. -/
inductive GetAccess where
  /-- The call, and the time it takes. -/
  | call (path : Path) (now : Int)
  | fileSize (path : Path) (answer : Option Nat)
  | lastWriteTime (path : Path) (answer : Option Int)
  | content (path : Path) (answer : Option Bytes)
  /-- A section under the lock, or the way back to the caller. -/
  | nothing

namespace StaticFileCache

variable (cache : StaticFileCache) (hash : Bytes → Nat)

def look (path : Path) (now : Int) : GetPhase × StaticFileCache :=
  if cache.enabled then
    match cache.freshEntry (cache.shardIndex hash path.toBytes) path.toBytes now with
    | (some file, cache) => (.returned path now (some file), cache)
    | (none, cache) => (.sizing path now, cache)
  else (.sizing path now, cache)

def recheck (path : Path) (now : Int) (size : Nat) (modified : Int) :
    GetPhase × StaticFileCache :=
  if cache.enabled then
    match cache.revalidate (cache.shardIndex hash path.toBytes) path.toBytes size modified now with
    | (some file, cache) => (.returned path now (some file), cache)
    | (none, cache) => (.reading path now size modified, cache)
  else (.reading path now size modified, cache)

/-- The reading, with the count of the misses before it. -/
def fetch (path : Path) (now : Int) (size : Nat) (modified : Int) (answer : Option Bytes) :
    GetPhase × StaticFileCache :=
  let cache := { cache with misses := cache.misses + 1 }
  match readBody answer size with
  | none => (.returned path now none, cache)
  | some body =>
      let cached : CachedStaticFile :=
        { body := body, etag := makeEtag size modified, size := size }
      if cache.Uncacheable size then (.returned path now (some cached), cache)
      else (.inserting path now cached modified, cache)

end StaticFileCache

/-- One step of one call. -/
inductive GetStep (hash : Bytes → Nat) :
    StaticFileCache → GetPhase → GetAccess → StaticFileCache → GetPhase → Prop where
  | call (cache : StaticFileCache) (path : Path) (now : Int) :
      GetStep hash cache .idle (.call path now) cache (.looking path now)
  | look (cache : StaticFileCache) (path : Path) (now : Int) :
      GetStep hash cache (.looking path now) .nothing (cache.look hash path now).2
        (cache.look hash path now).1
  | fileSize (cache : StaticFileCache) (path : Path) (now : Int) (answer : Option Nat) :
      GetStep hash cache (.sizing path now) (.fileSize path answer) cache
        (match answer with
          | none => .returned path now none
          | some size => .timing path now size)
  | lastWriteTime (cache : StaticFileCache) (path : Path) (now : Int) (size : Nat)
      (answer : Option Int) :
      GetStep hash cache (.timing path now size) (.lastWriteTime path answer) cache
        (.revalidating path now size (answer.getD minFileTime))
  | recheck (cache : StaticFileCache) (path : Path) (now : Int) (size : Nat) (modified : Int) :
      GetStep hash cache (.revalidating path now size modified) .nothing
        (cache.recheck hash path now size modified).2
        (cache.recheck hash path now size modified).1
  | content (cache : StaticFileCache) (path : Path) (now : Int) (size : Nat) (modified : Int)
      (answer : Option Bytes) :
      GetStep hash cache (.reading path now size modified) (.content path answer)
        (cache.fetch path now size modified answer).2
        (cache.fetch path now size modified answer).1
  | insert (cache : StaticFileCache) (path : Path) (now : Int) (file : CachedStaticFile)
      (modified : Int) :
      GetStep hash cache (.inserting path now file modified) .nothing
        (cache.insert (cache.shardIndex hash path.toBytes) path.toBytes file modified now)
        (.returned path now (some file))
  | back (cache : StaticFileCache) (path : Path) (now : Int)
      (result : Option CachedStaticFile) :
      GetStep hash cache (.returned path now result) .nothing cache .idle

/-! ## Alone -/

/-- What one and the same file system answers. -/
def GetAccess.AnsweredBy (files : Files) : GetAccess → Prop
  | .fileSize path answer => answer = files.fileSize path
  | .lastWriteTime path answer => answer = files.lastWriteTime path
  | .content path answer => answer = files.content path
  | _ => True

/-- One step of a call that nothing comes between. -/
def AloneStep (hash : Bytes → Nat) (files : Files) (s s' : StaticFileCache × GetPhase) : Prop :=
  ∃ access, access.AnsweredBy files ∧ GetStep hash s.1 s.2 access s'.1 s'.2

/-! ## Among others -/

structure CacheState (ι : Type) where
  cache : StaticFileCache
  threads : ι → GetPhase

/-- A cache that was just constructed, and threads that have not called it. -/
def CacheState.Initial {ι : Type} (s : CacheState ι) : Prop :=
  ∃ enabled shardCount maxEntries maxBytes maxFileBytes revalidateMilliseconds,
    s.cache = StaticFileCache.construct enabled shardCount maxEntries maxBytes maxFileBytes
      revalidateMilliseconds ∧
    ∀ i, s.threads i = .idle

/-- One thread takes one step. -/
inductive CacheStep {ι : Type} [DecidableEq ι] (hash : Bytes → Nat) :
    CacheState ι → CacheState ι → Prop where
  | thread (s : CacheState ι) (i : ι) (access : GetAccess) (cache : StaticFileCache)
      (phase : GetPhase) (h : GetStep hash s.cache (s.threads i) access cache phase) :
      CacheStep hash s { cache := cache, threads := Function.update s.threads i phase }

end HydrogenHttpd.Ref
