import HydrogenHttpd.Base.Assoc
import HydrogenHttpd.Base.Bytes

/-!
# The rate limiter (`RateLimiter.cpp`)

Times are readings of the steady clock in nanoseconds; zero is the reading
that a `Bucket` starts with and that `allow` takes for "no window yet". A call
is one step: it holds the mutex of its shard from the clock reading on.
`std::hash` is a parameter. `operations` is counted without wrapping, which
its remainder does not notice, since 4096 divides 2^64.
-/

namespace HydrogenHttpd.Ref

open Base

structure RateBucket where
  count : Nat := 0
  windowStart : Nat := 0
  lastSeen : Nat := 0
  deriving DecidableEq, Repr

structure RateShard where
  buckets : List (Bytes × RateBucket) := []
  operations : Nat := 0
  deriving DecidableEq, Repr

structure RateLimiter where
  maxPerMinute : Nat
  shards : List RateShard
  deriving DecidableEq, Repr

/-- The clock readings in a second. -/
def nanosPerSecond : Nat := 1000000000

/-- The clock readings in a minute. -/
def nanosPerMinute : Nat := 60 * nanosPerSecond

namespace RateLimiter

/-- The constructor. -/
def construct (maxPerMinute shardCount : Nat) : RateLimiter :=
  { maxPerMinute := maxPerMinute
    shards := List.replicate (if shardCount = 0 then 1 else shardCount) {} }

def cleanupShard (shard : RateShard) (now : Nat) : RateShard :=
  { shard with
    buckets := shard.buckets.filter fun row => !(5 ≤ (now - row.2.lastSeen) / nanosPerMinute) }

/-- `allow` on the bucket of its key. -/
def allowBucket (maxPerMinute : Nat) (bucket : RateBucket) (now : Nat) : Bool × RateBucket :=
  let bucket :=
    if bucket.windowStart = 0 then { bucket with windowStart := now, count := 0 } else bucket
  let bucket := { bucket with lastSeen := now }
  let bucket :=
    if 60 ≤ (now - bucket.windowStart) / nanosPerSecond then
      { bucket with windowStart := now, count := 0 }
    else bucket
  if maxPerMinute ≤ bucket.count then (false, bucket)
  else (true, { bucket with count := bucket.count + 1 })

/-- `allow` on the shard of its key, under the shard's mutex. -/
def allowShard (maxPerMinute : Nat) (shard : RateShard) (key : Bytes) (now : Nat) :
    Bool × RateShard :=
  let shard := { shard with operations := shard.operations + 1 }
  let shard := if shard.operations % 4096 = 0 then cleanupShard shard now else shard
  let (allowed, bucket) := allowBucket maxPerMinute ((shard.buckets.lookup key).getD {}) now
  (allowed, { shard with buckets := put key bucket shard.buckets })

/-- The place of a key's shard. -/
def shardIndex (limiter : RateLimiter) (hash : Bytes → Nat) (key : Bytes) : Nat :=
  hash key % limiter.shards.length

def allow (limiter : RateLimiter) (hash : Bytes → Nat) (key : Bytes) (now : Nat) :
    Bool × RateLimiter :=
  if limiter.maxPerMinute = 0 then (false, limiter)
  else
    let index := limiter.shardIndex hash key
    let (allowed, shard) := allowShard limiter.maxPerMinute (limiter.shards.getD index {}) key now
    (allowed, { limiter with shards := limiter.shards.set index shard })

/-- The bucket of a key, if there is one. -/
def bucket (limiter : RateLimiter) (hash : Bytes → Nat) (key : Bytes) : Option RateBucket :=
  (limiter.shards.getD (limiter.shardIndex hash key) {}).buckets.lookup key

end RateLimiter

/-- A call of `allow`: its key, the clock, where the key's window starts behind
it, and the answer. -/
structure RateCall where
  key : Bytes
  now : Nat
  windowStart : Nat
  allowed : Bool
  deriving DecidableEq, Repr

/-- The calls of `allow` for these keys at these times. -/
def rateRun (hash : Bytes → Nat) : List (Bytes × Nat) → RateLimiter → List RateCall
  | [], _ => []
  | (key, now) :: calls, limiter =>
      let (allowed, limiter) := limiter.allow hash key now
      { key := key
        now := now
        windowStart := ((limiter.bucket hash key).getD {}).windowStart
        allowed := allowed } :: rateRun hash calls limiter

end HydrogenHttpd.Ref
