import HydrogenHttpd.Base.FixedWindow
import HydrogenHttpd.Ref.RateLimiter

/-!
# Every client has a window of its own

A key's bucket is a counter in fixed windows of a minute. Other keys share its
shard, its mutex and the operation counter, and a cleanup they trigger may
delete the bucket. It deletes a bucket that no call has asked for in five
minutes, whose window is over by then, so a call that finds the bucket gone
and one that finds it old both open a new window (`ask_stale`). What a limiter
knows of a key is therefore always as good as the key's own counter
(`Tracks`), and the run follows it (`rateRun_trace`).
-/

namespace HydrogenHttpd.Ref

open Base

/-- The bucket is as good as the counter at the clock reading `now`: it has the
counter's window, or there is none and the counter's window is over. -/
def Tracks (now : Nat) : Option RateBucket → Option Window → Prop
  | some bucket, w =>
      w = some { start := bucket.windowStart, count := bucket.count } ∧
        0 < bucket.windowStart ∧ bucket.windowStart ≤ bucket.lastSeen ∧ bucket.lastSeen ≤ now
  | none, w => ∀ v, w = some v → v.start + nanosPerMinute ≤ now

theorem Tracks.later {now later : Nat} {bucket : Option RateBucket} {w : Option Window}
    (h : Tracks now bucket w) (hle : now ≤ later) : Tracks later bucket w := by
  cases bucket with
  | none => exact fun v hv => le_trans (h v hv) hle
  | some bucket => exact ⟨h.1, h.2.1, h.2.2.1, le_trans h.2.2.2 hle⟩

/-- A bucket that a cleanup deletes was good for nothing. -/
theorem Tracks.cleaned {now : Nat} {bucket : Option RateBucket} {w : Option Window}
    (h : Tracks now bucket w) :
    Tracks now (bucket.filter fun b => !(5 ≤ (now - b.lastSeen) / nanosPerMinute)) w := by
  cases bucket with
  | none => exact h
  | some bucket =>
      rw [Option.filter_some]
      split
      · exact h
      · next hold =>
          obtain ⟨rfl, -, hseen, -⟩ := h
          rintro v ⟨⟩
          have hidle : 5 ≤ (now - bucket.lastSeen) / nanosPerMinute := by simpa using hold
          rw [Nat.le_div_iff_mul_le (show 0 < nanosPerMinute by decide), nanosPerMinute,
            nanosPerSecond] at hidle
          simp only [nanosPerMinute, nanosPerSecond]
          omega

/-- `allow` on a bucket is a call of its counter. -/
theorem allowBucket_spec (limit : Nat) {before now : Nat} {bucket : Option RateBucket}
    {w : Option Window} (h : Tracks before bucket w) (hle : before ≤ now) (hpos : 0 < now) :
    let out := RateLimiter.allowBucket limit (bucket.getD {}) now
    Window.ask nanosPerMinute limit now w =
        (out.1, { start := out.2.windowStart, count := out.2.count }) ∧
      Tracks now (some out.2) (some { start := out.2.windowStart, count := out.2.count }) := by
  have hminute (start : Nat) : 60 ≤ (now - start) / nanosPerSecond ↔
      nanosPerMinute ≤ now - start := by
    rw [Nat.le_div_iff_mul_le (show 0 < nanosPerSecond by decide), nanosPerMinute]
  cases bucket with
  | none =>
      have hask : Window.ask nanosPerMinute limit now w =
          Window.ask nanosPerMinute limit now none := by
        cases w with
        | none => rfl
        | some v =>
            have hover := h v rfl
            exact Window.ask_stale (by omega)
      rw [hask, Window.ask, Window.enter]
      simp only [RateLimiter.allowBucket, Option.getD_none, if_true, Nat.sub_self, Nat.zero_div]
      rw [if_neg (show ¬ 60 ≤ 0 by decide)]
      split
      · exact ⟨rfl, rfl, hpos, le_refl _, le_refl _⟩
      · exact ⟨rfl, rfl, hpos, le_refl _, le_refl _⟩
  | some bucket =>
      obtain ⟨rfl, hstart, hseen, hbefore⟩ := h
      rw [Window.ask, Window.enter]
      simp only [RateLimiter.allowBucket, Option.getD_some, if_neg (Nat.ne_of_gt hstart), hminute]
      by_cases hover : nanosPerMinute ≤ now - bucket.windowStart
      · simp only [if_pos hover]
        split
        · exact ⟨rfl, rfl, hpos, le_refl _, le_refl _⟩
        · exact ⟨rfl, rfl, hpos, le_refl _, le_refl _⟩
      · simp only [if_neg hover]
        split
        · exact ⟨rfl, rfl, hstart, by simp only; omega, le_refl _⟩
        · exact ⟨rfl, rfl, hstart, by simp only; omega, le_refl _⟩

/-! ## The limiter -/

/-- There are shards, and no key stands twice in one of them. -/
structure RateLimiter.Sound (limiter : RateLimiter) : Prop where
  shards : 0 < limiter.shards.length
  keys : ∀ shard ∈ limiter.shards, (shard.buckets.map (·.1)).Nodup

theorem sound_construct (limit shardCount : Nat) :
    (RateLimiter.construct limit shardCount).Sound where
  shards := by
    simp only [RateLimiter.construct, List.length_replicate]
    split <;> omega
  keys shard hshard := by
    rw [List.eq_of_mem_replicate hshard]
    exact List.nodup_nil

/-- The shard of a key behind its `++operations`, cleaned if that is due. -/
def RateLimiter.cleaned (shard : RateShard) (now : Nat) : RateShard :=
  let shard := { shard with operations := shard.operations + 1 }
  if shard.operations % 4096 = 0 then RateLimiter.cleanupShard shard now else shard

/-- What a cleanup that is due or not leaves of a key's bucket. -/
theorem lookup_cleaned {shard : RateShard} (h : (shard.buckets.map (·.1)).Nodup) (now : Nat)
    (key : Bytes) :
    (RateLimiter.cleaned shard now).buckets.lookup key = shard.buckets.lookup key ∨
      (RateLimiter.cleaned shard now).buckets.lookup key = (shard.buckets.lookup key).filter
        fun b => !(5 ≤ (now - b.lastSeen) / nanosPerMinute) := by
  simp only [RateLimiter.cleaned]
  split
  · right
    rw [RateLimiter.cleanupShard]
    exact lookup_filter h key
  · exact Or.inl rfl

theorem nodup_cleaned {shard : RateShard} (h : (shard.buckets.map (·.1)).Nodup) (now : Nat) :
    ((RateLimiter.cleaned shard now).buckets.map (·.1)).Nodup := by
  simp only [RateLimiter.cleaned]
  split
  · exact h.sublist (List.filter_sublist.map _)
  · exact h

section Allow

variable {limiter : RateLimiter} {hash : Bytes → Nat} {key : Bytes} {before now : Nat}

/-- The shard of a key. -/
def RateLimiter.shardOf (limiter : RateLimiter) (hash : Bytes → Nat) (key : Bytes) : RateShard :=
  limiter.shards.getD (limiter.shardIndex hash key) {}

theorem RateLimiter.Sound.shardIndex_lt (h : limiter.Sound) (hash : Bytes → Nat) (key : Bytes) :
    limiter.shardIndex hash key < limiter.shards.length :=
  Nat.mod_lt _ h.shards

theorem RateLimiter.Sound.shardOf_nodup (h : limiter.Sound) (hash : Bytes → Nat) (key : Bytes) :
    ((limiter.shardOf hash key).buckets.map (·.1)).Nodup := by
  refine h.keys _ ?_
  rw [RateLimiter.shardOf, List.getD_eq_getElem _ _ (h.shardIndex_lt hash key)]
  exact List.getElem_mem _

/-- `allow` works on the key's bucket in the key's shard, behind the cleanup. -/
theorem allow_eq (hlimit : 0 < limiter.maxPerMinute) (hash : Bytes → Nat) (key : Bytes)
    (now : Nat) :
    let shard := RateLimiter.cleaned (limiter.shardOf hash key) now
    let out := RateLimiter.allowBucket limiter.maxPerMinute ((shard.buckets.lookup key).getD {}) now
    limiter.allow hash key now = (out.1, { limiter with
      shards := limiter.shards.set (limiter.shardIndex hash key)
        { shard with buckets := put key out.2 shard.buckets } }) := by
  rw [RateLimiter.allow, if_neg (Nat.ne_of_gt hlimit)]
  rfl

theorem sound_allow (h : limiter.Sound) (hlimit : 0 < limiter.maxPerMinute)
    (hash : Bytes → Nat) (key : Bytes) (now : Nat) :
    (limiter.allow hash key now).2.Sound ∧
      (limiter.allow hash key now).2.maxPerMinute = limiter.maxPerMinute := by
  rw [allow_eq hlimit]
  refine ⟨⟨by simpa using h.shards, fun shard hshard => ?_⟩, rfl⟩
  rcases List.mem_or_eq_of_mem_set hshard with hold | hnew
  · exact h.keys shard hold
  · rw [hnew]
    exact nodup_keys_put (nodup_cleaned (h.shardOf_nodup hash key) now)

/-- The bucket of any key behind a call. -/
theorem bucket_allow (h : limiter.Sound) (hlimit : 0 < limiter.maxPerMinute) (other : Bytes) :
    let shard := RateLimiter.cleaned (limiter.shardOf hash key) now
    let out := RateLimiter.allowBucket limiter.maxPerMinute ((shard.buckets.lookup key).getD {}) now
    (limiter.allow hash key now).2.bucket hash other =
      if limiter.shardIndex hash other = limiter.shardIndex hash key then
        (put key out.2 shard.buckets).lookup other
      else limiter.bucket hash other := by
  have hindex := h.shardIndex_lt hash key
  rw [allow_eq hlimit]
  by_cases hsame : limiter.shardIndex hash other = limiter.shardIndex hash key
  · simp only [if_pos hsame]
    simp only [RateLimiter.bucket, RateLimiter.shardIndex, List.length_set] at hsame hindex ⊢
    rw [hsame, List.getD_eq_getElem _ _ (by rw [List.length_set]; exact hindex),
      List.getElem_set_self]
  · simp only [if_neg hsame]
    simp only [RateLimiter.bucket, RateLimiter.shardIndex, List.length_set] at hsame ⊢
    rw [List.getD_eq_getElem?_getD, List.getElem?_set_ne fun heq => hsame heq.symm,
      ← List.getD_eq_getElem?_getD]

/-- A call that finds the key's bucket tracked answers as its counter does. -/
theorem allow_spec (h : limiter.Sound) (hlimit : 0 < limiter.maxPerMinute) {w : Option Window}
    (htracks : Tracks before (limiter.bucket hash key) w) (hle : before ≤ now) (hpos : 0 < now) :
    let out := limiter.allow hash key now
    let next : Window := (Window.ask nanosPerMinute limiter.maxPerMinute now w).2
    out.1 = (Window.ask nanosPerMinute limiter.maxPerMinute now w).1 ∧
      ((out.2.bucket hash key).getD {}).windowStart = next.start ∧
      Tracks now (out.2.bucket hash key) (some next) := by
  have hclean : Tracks now
      ((RateLimiter.cleaned (limiter.shardOf hash key) now).buckets.lookup key) w := by
    rcases lookup_cleaned (h.shardOf_nodup hash key) now key with hkept | hdropped
    · rw [hkept]
      exact htracks.later hle
    · rw [hdropped]
      exact (htracks.later hle).cleaned
  obtain ⟨hask, hnext⟩ := allowBucket_spec limiter.maxPerMinute hclean (le_refl now) hpos
  simp only [bucket_allow h hlimit, if_true, lookup_put_self, hask, Option.getD_some]
  refine ⟨?_, trivial, hnext⟩
  rw [allow_eq hlimit]

/-- Another key keeps its bucket, or loses it to a cleanup. -/
theorem tracks_allow_other (h : limiter.Sound) (hlimit : 0 < limiter.maxPerMinute)
    {other : Bytes} (hne : other ≠ key) {w : Option Window}
    (htracks : Tracks before (limiter.bucket hash other) w) (hle : before ≤ now) :
    Tracks now ((limiter.allow hash key now).2.bucket hash other) w := by
  rw [bucket_allow h hlimit]
  split
  · next hsame =>
      rw [lookup_put_of_ne hne]
      have hbucket : limiter.bucket hash other =
          (limiter.shardOf hash key).buckets.lookup other := by
        rw [RateLimiter.bucket, RateLimiter.shardOf, hsame]
      rw [hbucket] at htracks
      rcases lookup_cleaned (h.shardOf_nodup hash key) now other with hkept | hdropped
      · rw [hkept]
        exact htracks.later hle
      · rw [hdropped]
        exact (htracks.later hle).cleaned
  · exact htracks.later hle

end Allow

/-! ## Runs -/

/-- The calls of one key, as calls of its counter. -/
def callsOf (key : Bytes) (calls : List RateCall) : List WindowCall :=
  (calls.filter (·.key == key)).map fun call =>
    { time := call.now, start := call.windowStart, accepted := call.allowed }

/-- The times at which a key is asked for. -/
def timesOf (key : Bytes) (calls : List (Bytes × Nat)) : List Nat :=
  (calls.filter (·.1 == key)).map (·.2)

/-- In a run of the limiter a key's calls are those of its own counter. -/
theorem rateRun_trace {limiter : RateLimiter} (h : limiter.Sound)
    (hlimit : 0 < limiter.maxPerMinute) (hash : Bytes → Nat) (key : Bytes)
    {calls : List (Bytes × Nat)} {before : Nat} (hpos : ∀ call ∈ calls, 0 < call.2)
    (hbefore : ∀ call ∈ calls, before ≤ call.2) (hmono : calls.Pairwise (·.2 ≤ ·.2))
    {w : Option Window} (htracks : Tracks before (limiter.bucket hash key) w) :
    callsOf key (rateRun hash calls limiter) =
      Window.trace nanosPerMinute limiter.maxPerMinute (timesOf key calls) w := by
  induction calls generalizing limiter before w with
  | nil => rfl
  | cons call calls ih =>
      obtain ⟨called, now⟩ := call
      rw [List.pairwise_cons] at hmono
      have hnow := hbefore (called, now) List.mem_cons_self
      obtain ⟨hsound, hsame⟩ := sound_allow h hlimit hash called now
      have hrest {w : Option Window} := ih (w := w) hsound (by rw [hsame]; exact hlimit)
        (fun c hc => hpos c (List.mem_cons_of_mem _ hc)) hmono.1 hmono.2
      rw [hsame] at hrest
      simp only [rateRun]
      by_cases hkey : called = key
      · subst hkey
        obtain ⟨hanswer, hstart, hnext⟩ := allow_spec h hlimit htracks hnow
          (hpos (called, now) List.mem_cons_self)
        have htail := hrest hnext
        simp only [callsOf, timesOf, List.filter_cons, beq_self_eq_true, if_true,
          List.map_cons] at htail ⊢
        rw [htail, Window.trace, hanswer, hstart]
      · have htail := hrest (tracks_allow_other h hlimit (Ne.symm hkey) htracks hnow)
        simp only [callsOf, timesOf, List.filter_cons, beq_false_of_ne hkey, Bool.false_eq_true,
          if_false] at htail ⊢
        exact htail

/-- A fresh limiter knows no key. -/
theorem bucket_construct (limit shardCount : Nat) (hash : Bytes → Nat) (key : Bytes) :
    (RateLimiter.construct limit shardCount).bucket hash key = none := by
  have hindex := (sound_construct limit shardCount).shardIndex_lt hash key
  rw [RateLimiter.bucket, List.getD_eq_getElem _ _ hindex]
  simp only [RateLimiter.construct, List.getElem_replicate]
  rfl

theorem fresh_trace (limit shardCount : Nat) (hlimit : 0 < limit) (hash : Bytes → Nat)
    (key : Bytes) {calls : List (Bytes × Nat)} (hpos : ∀ call ∈ calls, 0 < call.2)
    (hmono : calls.Pairwise (·.2 ≤ ·.2)) :
    callsOf key (rateRun hash calls (RateLimiter.construct limit shardCount)) =
      Window.trace nanosPerMinute limit (timesOf key calls) none :=
  rateRun_trace (sound_construct limit shardCount) hlimit hash key hpos
    (fun _ _ => Nat.zero_le _) hmono
    (by rw [bucket_construct]; exact nofun)

/-- Rate limiting is per client and bounded: a key's answers are the same in any
two runs that ask for it at the same times; in any minute it is let through at
most twice as often as the limit says, and in each of its windows at most as
often. -/
theorem rate_limits {limit : Nat} (hlimit : 1 ≤ limit) (key : Bytes) :
    (∀ (shardCount shardCount' : Nat) (hash hash' : Bytes → Nat)
        (calls calls' : List (Bytes × Nat)), (∀ call ∈ calls, 0 < call.2) →
        calls.Pairwise (·.2 ≤ ·.2) → (∀ call ∈ calls', 0 < call.2) →
        calls'.Pairwise (·.2 ≤ ·.2) → timesOf key calls = timesOf key calls' →
        callsOf key (rateRun hash calls (RateLimiter.construct limit shardCount)) =
          callsOf key (rateRun hash' calls' (RateLimiter.construct limit shardCount'))) ∧
    ∀ (shardCount : Nat) (hash : Bytes → Nat) (calls : List (Bytes × Nat)),
      (∀ call ∈ calls, 0 < call.2) → calls.Pairwise (·.2 ≤ ·.2) →
      let answered := callsOf key (rateRun hash calls (RateLimiter.construct limit shardCount))
      (∀ t, Window.acceptedBetween t nanosPerMinute answered ≤ 2 * limit) ∧
        Window.Spaced nanosPerMinute answered ∧
        ∀ start, Window.acceptedIn start answered ≤ limit := by
  refine ⟨?_, ?_⟩
  · intro shardCount shardCount' hash hash' calls calls' hpos hmono hpos' hmono' htimes
    rw [fresh_trace limit shardCount hlimit hash key hpos hmono,
      fresh_trace limit shardCount' hlimit hash' key hpos' hmono', htimes]
  · intro shardCount hash calls hpos hmono
    have hminute : 0 < nanosPerMinute := by decide
    have htimes : (timesOf key calls).Pairwise (· ≤ ·) :=
      List.pairwise_map.mpr (hmono.sublist List.filter_sublist)
    have htraced : Window.Traced nanosPerMinute limit none _ :=
      Window.traced hminute htimes nofun
    simp only [fresh_trace limit shardCount hlimit hash key hpos hmono]
    refine ⟨Window.acceptedBetween_le hminute htimes, htraced.spaced, fun start => ?_⟩
    have hcount := htraced.counted start
    rwa [Window.used, Nat.zero_add] at hcount

def sharedCalls : List (Bytes × Nat) :=
  [(bytes "a", 1), (bytes "b", 2), (bytes "a", 3), (bytes "b", 3), (bytes "a", 4)]

def loneCalls : List (Bytes × Nat) := [(bytes "a", 1), (bytes "a", 3), (bytes "a", 4)]

/-- Two clients in one shard, and one of them alone in another limiter. -/
theorem rate_limits_shared :
    callsOf (bytes "a") (rateRun (fun _ => 0) sharedCalls (RateLimiter.construct 2 1)) =
        callsOf (bytes "a") (rateRun List.length loneCalls (RateLimiter.construct 2 64)) ∧
      Window.acceptedBetween 1 nanosPerMinute
        (callsOf (bytes "a") (rateRun (fun _ => 0) sharedCalls (RateLimiter.construct 2 1))) ≤
          2 * 2 :=
  ⟨(rate_limits (show 1 ≤ 2 by decide) (bytes "a")).1 1 64 (fun _ => 0) List.length sharedCalls
      loneCalls (by decide) (by decide) (by decide) (by decide) (by decide),
    ((rate_limits (show 1 ≤ 2 by decide) (bytes "a")).2 1 (fun _ => 0) sharedCalls (by decide)
      (by decide)).1 1⟩

/-- The third call in a window is refused. -/
example : (callsOf (bytes "a") (rateRun (fun _ => 0) sharedCalls
    (RateLimiter.construct 2 1))).map (·.accepted) = [true, true, false] := by
  decide

end HydrogenHttpd.Ref
