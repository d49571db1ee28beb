import HydrogenHttpd.Ref.Security
import HydrogenHttpd.Base.Assoc

/-!
# The static file cache (`StaticFileCache.cpp`)

The shards are a list and a file's shard is chosen by the hash of its path,
which the library leaves open. `get` takes the lock of that shard up to three
times; what it does under each lock is a definition of its own, and `get` is
their sequence with the file accesses between them.

Times of the steady clock are in nanoseconds, and the counters are the relaxed
atomics of the source. The access clock counts insertions and is taken not to
run out, so `oldest` starts above every entry's access.
-/

namespace HydrogenHttpd.Ref

open Base

structure CachedStaticFile where
  body : Bytes
  etag : Bytes
  size : Nat := 0
  deriving DecidableEq, Repr

structure CacheEntry where
  file : CachedStaticFile
  modified : Int
  validatedAt : Int
  lastAccess : Nat := 0
  deriving DecidableEq, Repr

structure Shard where
  entries : List (Bytes × CacheEntry) := []
  bytes : Nat := 0
  deriving DecidableEq, Repr

structure StaticFileCache where
  enabled : Bool
  maxEntries : Nat
  maxBytes : Nat
  maxFileBytes : Nat
  revalidateInterval : Nat
  shards : List Shard
  clock : Nat := 0
  hits : Nat := 0
  misses : Nat := 0
  evictions : Nat := 0
  bytes : Nat := 0
  entries : Nat := 0
  deriving DecidableEq, Repr

def StaticFileCache.construct (enabled : Bool) (shardCount maxEntries maxBytes maxFileBytes
    revalidateMilliseconds : Nat) : StaticFileCache :=
  { enabled := enabled
    maxEntries := maxEntries
    maxBytes := maxBytes
    maxFileBytes := maxFileBytes
    revalidateInterval := revalidateMilliseconds
    shards := List.replicate (max 1 shardCount) {} }

/-- A number with `std::hex`. -/
def hexadecimal (n : Nat) : Bytes := (Nat.toDigits 16 n).map fun c => UInt8.ofNat c.toNat

/-- `modified` is printed as a `std::uint64_t`. -/
def makeEtag (size : Nat) (modified : Int) : Bytes :=
  [quote] ++ hexadecimal size ++ [45] ++ hexadecimal (modified % 2 ^ 64).toNat ++ [quote]

/-- `fs::file_time_type::min()` -/
def minFileTime : Int := -2 ^ 63

namespace StaticFileCache

variable (cache : StaticFileCache)

def shardIndex (hash : Bytes → Nat) (key : Bytes) : Nat := hash key % cache.shards.length

/-! ## Eviction -/

/-- The loop that looks for the oldest entry; `oldest` is that of the victim. -/
def oldestEntry : List (Bytes × CacheEntry) → Option (Bytes × CacheEntry) →
    Option (Bytes × CacheEntry)
  | [], victim => victim
  | row :: rest, none => oldestEntry rest (some row)
  | row :: rest, some victim =>
      if row.2.lastAccess < victim.2.lastAccess then oldestEntry rest (some row)
      else oldestEntry rest (some victim)

/-- The loop of `evictIfNeeded`; each round removes an entry. -/
def evictLoop (shardMaxEntries shardMaxBytes : Nat) :
    Nat → Shard → StaticFileCache → Shard × StaticFileCache
  | 0, shard, cache => (shard, cache)
  | fuel + 1, shard, cache =>
      if shard.entries = [] ∨
          (shard.entries.length ≤ shardMaxEntries ∧ shard.bytes ≤ shardMaxBytes) then
        (shard, cache)
      else
        match oldestEntry shard.entries none with
        | none => (shard, cache)
        | some (key, entry) =>
            evictLoop shardMaxEntries shardMaxBytes fuel
              { entries := shard.entries.filter (·.1 ≠ key)
                bytes := shard.bytes - entry.file.size }
              { cache with
                bytes := cache.bytes - entry.file.size
                entries := cache.entries - 1
                evictions := cache.evictions + 1 }

def evictIfNeeded (shard : Shard) (shardMaxEntries shardMaxBytes : Nat) :
    Shard × StaticFileCache :=
  evictLoop shardMaxEntries shardMaxBytes (shard.entries.length + 1) shard cache

/-! ## The sections under the shard's lock -/

/-- The first section: an entry that was validated within the interval. -/
def freshEntry (i : Nat) (key : Bytes) (now : Int) : Option CachedStaticFile × StaticFileCache :=
  match ((cache.shards.getD i {}).entries.lookup key) with
  | none => (none, cache)
  | some entry =>
      if now - entry.validatedAt < cache.revalidateInterval * 1000000 then
        (some entry.file, { cache with hits := cache.hits + 1 })
      else (none, cache)

/-- The second section: an entry whose file has not changed. -/
def revalidate (i : Nat) (key : Bytes) (size : Nat) (modified now : Int) :
    Option CachedStaticFile × StaticFileCache :=
  let shard := cache.shards.getD i {}
  match shard.entries.lookup key with
  | none => (none, cache)
  | some entry =>
      if modified = entry.modified ∧ size = entry.file.size then
        (some entry.file,
          { cache with
            shards := cache.shards.set i
              { shard with entries := put key { entry with validatedAt := now } shard.entries }
            hits := cache.hits + 1 })
      else (none, cache)

/-- The share of a shard in a limit, rounded up in 64 bits, and at least one. -/
def shardLimit (limit count : Nat) : Nat := max 1 ((limit + count - 1) % 2 ^ 64 / count)

/-- The third section up to the eviction: the new entry in its shard, and the counters. -/
def place (i : Nat) (key : Bytes) (file : CachedStaticFile) (modified now : Int) :
    Shard × StaticFileCache :=
  let shard := cache.shards.getD i {}
  let (oldSize, added) := match shard.entries.lookup key with
    | some existing => (existing.file.size, 0)
    | none => (0, 1)
  let entry : CacheEntry :=
    { file := file, modified := modified, validatedAt := now, lastAccess := cache.clock + 1 }
  ({ entries := put key entry shard.entries, bytes := shard.bytes - oldSize + file.size },
    { cache with
      clock := cache.clock + 1
      bytes := cache.bytes - oldSize + file.size
      entries := cache.entries + added })

/-- The third section. -/
def insert (i : Nat) (key : Bytes) (file : CachedStaticFile) (modified now : Int) :
    StaticFileCache :=
  let shardMaxEntries := shardLimit cache.maxEntries cache.shards.length
  let shardMaxBytes := shardLimit cache.maxBytes cache.shards.length
  let (shard, cache) := cache.place i key file modified now
  let (shard, cache) := cache.evictIfNeeded shard shardMaxEntries shardMaxBytes
  { cache with shards := cache.shards.set i shard }

/-- What reading `size` bytes of a file gives: nothing when it is shorter. -/
def readBody (content : Option Bytes) (size : Nat) : Option Bytes :=
  match content with
  | none => none
  | some content => if content.length < size then none else some (content.take size)

/-- A file of this size is not kept. -/
def Uncacheable (size : Nat) : Prop :=
  cache.enabled = false ∨ cache.maxEntries = 0 ∨ cache.maxBytes = 0 ∨
    cache.maxFileBytes < size ∨ cache.maxBytes < size

instance (size : Nat) : Decidable (cache.Uncacheable size) := inferInstanceAs (Decidable (_ ∨ _))

/-- `get` on a miss: read the file, and keep it if it fits. -/
def readThrough (files : Files) (path : Path) (i : Nat) (size : Nat) (modified now : Int) :
    Option CachedStaticFile × StaticFileCache :=
  let cache := { cache with misses := cache.misses + 1 }
  match readBody (files.content path) size with
  | none => (none, cache)
  | some body =>
      let cached : CachedStaticFile :=
        { body := body, etag := makeEtag size modified, size := size }
      if cache.Uncacheable size then (some cached, cache)
      else (some cached, cache.insert i path.toBytes cached modified now)

def get (files : Files) (hash : Bytes → Nat) (now : Int) (path : Path) :
    Option CachedStaticFile × StaticFileCache :=
  let key := path.toBytes
  let i := cache.shardIndex hash key
  match (if cache.enabled then cache.freshEntry i key now else (none, cache)) with
  | (some file, cache) => (some file, cache)
  | (none, cache) =>
      match files.fileSize path with
      | none => (none, cache)
      | some size =>
          let modified := (files.lastWriteTime path).getD minFileTime
          match (if cache.enabled then cache.revalidate i key size modified now
            else (none, cache)) with
          | (some file, cache) => (some file, cache)
          | (none, cache) => cache.readThrough files path i size modified now

end StaticFileCache

end HydrogenHttpd.Ref
