import HydrogenHttpd.Proofs.CacheAccounting
import HydrogenHttpd.Proofs.EndpointGates

/-!
# The budget of the whole cache

The limits of the configuration are enforced per shard, each with its share
rounded up and at least one. So the whole cache is within the shards' limits
taken together (`totals_within`), and within the configured ones where rounding
up adds nothing. Where it does, the cache can hold more than was configured.
-/

namespace HydrogenHttpd.Ref

open Base

/-- The server's cache before its first request. -/
def Configured {ι : Type} (config : ServerConfig) (s : CacheState ι) : Prop :=
  s.cache = (World.initial config { inlineTokens := [], secretsFile := [] }).staticCache ∧
    ∀ i, s.threads i = .idle

/-- What one shard may hold at most, entries and bytes: a shard with so many
entries has no more bytes than these files can have. -/
def shardMostEntries (config : ServerConfig) : Nat :=
  StaticFileCache.shardLimit config.staticCacheMaxEntries (max 1 config.staticCacheShards)

def shardMostBytes (config : ServerConfig) : Nat :=
  min (StaticFileCache.shardLimit config.staticCacheMaxBytes (max 1 config.staticCacheShards))
    (shardMostEntries config * config.staticCacheMaxFileBytes)

/-- The cache is off, or the shards together may hold no more than the
configuration allows. -/
def FitsBudget (config : ServerConfig) : Prop :=
  config.enableStaticCache = false ∨
    max 1 config.staticCacheShards * shardMostEntries config ≤ config.staticCacheMaxEntries ∧
      max 1 config.staticCacheShards * shardMostBytes config ≤ config.staticCacheMaxBytes

/-- The shards' limits, taken together. -/
theorem totals_within {cache : StaticFileCache} (h : Books cache) :
    cache.entries ≤ cache.shards.length *
        StaticFileCache.shardLimit cache.maxEntries cache.shards.length ∧
      cache.bytes ≤ cache.shards.length *
        min (StaticFileCache.shardLimit cache.maxBytes cache.shards.length)
          (StaticFileCache.shardLimit cache.maxEntries cache.shards.length
            * cache.maxFileBytes) := by
  constructor
  · have hsum := List.sum_le_card_nsmul (cache.shards.map (·.entries.length))
      (StaticFileCache.shardLimit cache.maxEntries cache.shards.length) (by
        intro n hn
        obtain ⟨shard, hshard, hlength⟩ := List.mem_map.mp hn
        rw [← hlength]
        exact (h.within shard hshard).1)
    rw [h.accounted.entries]
    simpa using hsum
  · have hsum := List.sum_le_card_nsmul (cache.shards.map (·.bytes))
      (min (StaticFileCache.shardLimit cache.maxBytes cache.shards.length)
        (StaticFileCache.shardLimit cache.maxEntries cache.shards.length * cache.maxFileBytes)) (by
        intro n hn
        obtain ⟨shard, hshard, hbytes⟩ := List.mem_map.mp hn
        rw [← hbytes]
        obtain ⟨hentries, hlimit⟩ := h.within shard hshard
        have hfiles := List.sum_le_card_nsmul (shard.entries.map fun row => row.2.file.size)
          cache.maxFileBytes (by
            intro m hm
            obtain ⟨row, hrow, hsize⟩ := List.mem_map.mp hm
            rw [← hsize]
            exact (h.sound shard hshard row hrow).2)
        rw [← (h.accounted.shards shard hshard).bytes, List.length_map, smul_eq_mul] at hfiles
        exact le_min hlimit (hfiles.trans (Nat.mul_le_mul_right _ hentries)))
    rw [h.accounted.bytes]
    simpa using hsum

section Runs

variable {ι : Type} [DecidableEq ι] {hash : Bytes → Nat} {config : ServerConfig}
  {s : CacheState ι}

/-- Nothing is cached and nobody is about to. -/
def Untouched (s : CacheState ι) : Prop :=
  s.cache.Holds (fun _ _ => False) ∧
    ∀ i path now file modified, s.threads i ≠ .inserting path now file modified

/-- A step of a call to a cache that is off. -/
theorem untouched_getStep {cache cache' : StaticFileCache} {phase phase' : GetPhase}
    {access : GetAccess} (hoff : cache.enabled = false) (hempty : cache.Holds fun _ _ => False)
    (hphase : ∀ path now file modified, phase ≠ .inserting path now file modified)
    (h : GetStep hash cache phase access cache' phase') :
    cache'.Holds (fun _ _ => False) ∧
      ∀ path now file modified, phase' ≠ .inserting path now file modified := by
  cases h with
  | call path now => exact ⟨hempty, by simp⟩
  | look path now =>
      rw [StaticFileCache.look, if_neg (by simp [hoff])]
      exact ⟨hempty, by simp⟩
  | fileSize path now answer => cases answer <;> exact ⟨hempty, by simp⟩
  | lastWriteTime path now size answer => exact ⟨hempty, by simp⟩
  | recheck path now size modified =>
      rw [StaticFileCache.recheck, if_neg (by simp [hoff])]
      exact ⟨hempty, by simp⟩
  | content path now size modified answer =>
      obtain ⟨hcache, ⟨-, hphase'⟩ | ⟨body, -, ⟨-, hphase'⟩ | ⟨hkeep, -⟩⟩⟩ :=
        fetch_cases cache path now size modified answer
      · rw [hcache, hphase']
        exact ⟨hempty, by simp⟩
      · rw [hcache, hphase']
        exact ⟨hempty, by simp⟩
      · exact absurd (Or.inl hoff) hkeep
  | insert path now file modified => exact absurd rfl (hphase path now file modified)
  | back path now result => exact ⟨hempty, by simp⟩

theorem settings_run (h : Reachable (Configured config) (CacheStep hash) s) :
    SameSettings (World.initial config { inlineTokens := [], secretsFile := [] }).staticCache
      s.cache := by
  induction h with
  | start hs =>
      rw [hs.1]
      exact ⟨rfl, rfl, rfl, rfl, rfl, rfl⟩
  | step _ hstep ih =>
      obtain ⟨i, access, cache, phase, hget⟩ := hstep
      exact ih.trans (sameSettings_step hget)

theorem untouched_run (hoff : config.enableStaticCache = false)
    (h : Reachable (Configured config) (CacheStep hash) s) : Untouched s := by
  induction h with
  | start hs =>
      refine ⟨fun shard hshard row hrow => ?_, fun i path now file modified hphase => ?_⟩
      · rw [hs.1] at hshard
        rw [List.eq_of_mem_replicate hshard] at hrow
        cases hrow
      · rw [hs.2 i] at hphase
        cases hphase
  | step hrun hstep ih =>
      obtain ⟨i, access, cache, phase, hget⟩ := hstep
      obtain ⟨hempty, hphase⟩ := untouched_getStep ((settings_run hrun).enabled.trans hoff) ih.1
        (ih.2 i) hget
      refine ⟨hempty, fun j => ?_⟩
      simp only [Function.update_apply]
      split
      · exact hphase
      · exact ih.2 j

/-- What an empty cache counts. -/
theorem counters_of_empty {cache : StaticFileCache} (h : Books cache)
    (hempty : cache.Holds fun _ _ => False) : cache.entries = 0 ∧ cache.bytes = 0 := by
  have hnone : ∀ shard ∈ cache.shards, shard.entries = [] := fun shard hshard =>
    List.eq_nil_iff_forall_not_mem.mpr fun row hrow => hempty shard hshard row hrow
  rw [h.accounted.entries, h.accounted.bytes, List.sum_eq_zero_iff, List.sum_eq_zero_iff]
  constructor
  · intro n hn
    obtain ⟨shard, hshard, hlength⟩ := List.mem_map.mp hn
    rw [← hlength, hnone shard hshard, List.length_nil]
  · intro n hn
    obtain ⟨shard, hshard, hbytes⟩ := List.mem_map.mp hn
    rw [← hbytes, (h.accounted.shards shard hshard).bytes, hnone shard hshard]
    rfl

/-- In every run of the cache under a configuration whose shards together fit
the budget, the cache is within the budget, whatever the hash does. -/
theorem cache_budget (hfits : FitsBudget config)
    (h : Reachable (Configured config) (CacheStep hash) s) :
    s.cache.entries ≤ config.staticCacheMaxEntries ∧
      s.cache.bytes ≤ config.staticCacheMaxBytes := by
  have hbooks := (books_run (h.mono fun s hs => ⟨_, _, _, _, _, _, hs.1, hs.2⟩)).1
  have hsettings := settings_run h
  rcases hfits with hoff | ⟨hentries, hbytes⟩
  · obtain ⟨hnone, hzero⟩ := counters_of_empty hbooks (untouched_run hoff h).1
    rw [hnone, hzero]
    exact ⟨Nat.zero_le _, Nat.zero_le _⟩
  · have hcount : s.cache.shards.length = max 1 config.staticCacheShards :=
      hsettings.shardCount.trans List.length_replicate
    obtain ⟨htotalEntries, htotalBytes⟩ := totals_within hbooks
    rw [hcount, hsettings.maxEntries] at htotalEntries
    rw [hcount, hsettings.maxEntries, hsettings.maxBytes, hsettings.maxFileBytes] at htotalBytes
    exact ⟨htotalEntries.trans hentries, htotalBytes.trans hbytes⟩

end Runs

/-- A configuration of two shards and one entry. -/
def oneEntryConf : Bytes := bytes "static_cache_shards = 2\nstatic_cache_max_entries = 1\n"

def oneEntryEnv : ConfigEnv := { content := fun _ => some oneEntryConf }

def oneEntryConfig : ServerConfig :=
  chooseWorkers oneEntryEnv (resolvePaths statusConfPath.parentPath
    { staticCacheShards := 2, staticCacheMaxEntries := 1 })

/-- The cache after a call for each of the paths. -/
def afterCalls {ι : Type} (hash : Bytes → Nat) (files : Files) (now : Int) :
    List Path → CacheState ι → CacheState ι
  | [], s => s
  | path :: rest, s =>
      afterCalls hash files now rest ⟨(s.cache.get files hash now path).2, s.threads⟩

theorem reachable_afterCalls {ι : Type} [DecidableEq ι] {Init : CacheState ι → Prop}
    {hash : Bytes → Nat} {s : CacheState ι} (h : Reachable Init (CacheStep hash) s) {i : ι}
    (hi : s.threads i = .idle) (files : Files) (now : Int) (paths : List Path) :
    Reachable Init (CacheStep hash) (afterCalls hash files now paths s) := by
  induction paths generalizing s with
  | nil => exact h
  | cons path rest ih => exact ih (reachable_get h hi files now path) hi

instance (config : ServerConfig) : Decidable (FitsBudget config) :=
  inferInstanceAs (Decidable (_ ∨ _ ∧ _))

/-- The cache of a configuration, with one thread. -/
def oneThread (config : ServerConfig) : CacheState Unit :=
  ⟨(World.initial config { inlineTokens := [], secretsFile := [] }).staticCache, fun _ => .idle⟩

theorem oneThread_reachable (config : ServerConfig) (files : Files) (paths : List Path) :
    Reachable (Configured config) (CacheStep fun key => key.length)
      (afterCalls (fun key => key.length) files 0 paths (oneThread config)) :=
  reachable_afterCalls (.start ⟨rfl, fun _ => rfl⟩) (i := ()) rfl files 0 paths

def twoPaths : List Path := [Path.ofBytes (bytes "/a"), Path.ofBytes (bytes "/bc")]

theorem cache_budget_default :
    (afterCalls (fun key => key.length) (sameFile (bytes "first")) 0 twoPaths
        (oneThread {})).cache.entries ≤ 4096 ∧
      (afterCalls (fun key => key.length) (sameFile (bytes "first")) 0 twoPaths
        (oneThread {})).cache.bytes ≤ 268435456 :=
  cache_budget (by decide +kernel) (oneThread_reachable {} _ twoPaths)

/-- Two files whose paths fall into different shards are both kept. -/
theorem cache_over_budget :
    ConfigLoader.load oneEntryEnv statusConfPath = .ok oneEntryConfig ∧
      ∃ s : CacheState Unit, Reachable (Configured oneEntryConfig)
          (CacheStep fun key => key.length) s ∧
        (∀ i, s.threads i = .idle) ∧ ¬ s.cache.entries ≤ oneEntryConfig.staticCacheMaxEntries :=
  ⟨by decide +kernel, _, oneThread_reachable oneEntryConfig (sameFile (bytes "first")) twoPaths,
    fun _ => rfl, by decide +kernel⟩

end HydrogenHttpd.Ref
