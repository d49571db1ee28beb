import HydrogenHttpd.Proofs.CacheSections

/-!
# The cache's books

A shard's `bytes` is the sum over its entries, and the two global counters are
sums over the shards. An insertion takes the size of what it replaces from
three sums and an eviction the size of the victim; `Balanced` is what both
keep, one shard against the rest. What is subtracted is written down beside
the loop (`evictSubtractions`), since a subtraction of naturals does not show
that it went below zero.

The eviction loop always ends within the shard's limits: with an entry left it
finds a victim, and without entries there is nothing to count.
-/

namespace HydrogenHttpd.Ref

open Base
open StaticFileCache (oldestEntry evictLoop)

/-- The books of one shard. -/
structure Shard.Accounted (shard : Shard) : Prop where
  nodup : (shard.entries.map (·.1)).Nodup
  bytes : shard.bytes = (shard.entries.map fun row => row.2.file.size).sum

def Shard.Within (shard : Shard) (maxEntries maxBytes : Nat) : Prop :=
  shard.entries.length ≤ maxEntries ∧ shard.bytes ≤ maxBytes

/-- The counters against one shard in hand and what the others hold. -/
structure Balanced (restBytes restEntries : Nat) (shard : Shard) (cache : StaticFileCache) :
    Prop where
  own : shard.Accounted
  bytes : cache.bytes = shard.bytes + restBytes
  entries : cache.entries = shard.entries.length + restEntries

/-! ## Eviction -/

theorem oldestEntry_mem {rows : List (Bytes × CacheEntry)} {victim : Option (Bytes × CacheEntry)}
    {row : Bytes × CacheEntry} (h : oldestEntry rows victim = some row) :
    row ∈ rows ∨ victim = some row := by
  induction rows generalizing victim with
  | nil => exact Or.inr h
  | cons first rest ih =>
      cases victim with
      | none =>
          rw [oldestEntry] at h
          rcases ih h with hmem | heq
          · exact Or.inl (List.mem_cons_of_mem _ hmem)
          · cases heq
            exact Or.inl List.mem_cons_self
      | some victim =>
          rw [oldestEntry] at h
          split at h
          · rcases ih h with hmem | heq
            · exact Or.inl (List.mem_cons_of_mem _ hmem)
            · cases heq
              exact Or.inl List.mem_cons_self
          · exact (ih h).imp_left (List.mem_cons_of_mem _)

/-- With an entry there is a victim. -/
theorem oldestEntry_isSome {rows : List (Bytes × CacheEntry)}
    (victim : Option (Bytes × CacheEntry)) (h : rows ≠ [] ∨ victim ≠ none) :
    ∃ row, oldestEntry rows victim = some row := by
  induction rows generalizing victim with
  | nil =>
      rw [oldestEntry]
      exact Option.ne_none_iff_exists'.mp (h.resolve_left (by simp))
  | cons first rest ih =>
      cases victim with
      | none => exact ih _ (Or.inr (by simp))
      | some victim =>
          rw [oldestEntry]
          split
          · exact ih _ (Or.inr (by simp))
          · exact ih _ (Or.inr (by simp))

/-- What the loop subtracts in turn, and what it subtracts it from. -/
def evictSubtractions (shardMaxEntries shardMaxBytes : Nat) :
    Nat → Shard → StaticFileCache → List (Nat × Nat)
  | 0, _, _ => []
  | fuel + 1, shard, cache =>
      if shard.entries = [] ∨
          (shard.entries.length ≤ shardMaxEntries ∧ shard.bytes ≤ shardMaxBytes) then []
      else
        match oldestEntry shard.entries none with
        | none => []
        | some (key, entry) =>
            (shard.bytes, entry.file.size) :: (cache.bytes, entry.file.size) :: (cache.entries, 1)
              :: evictSubtractions shardMaxEntries shardMaxBytes fuel
                { entries := shard.entries.filter (·.1 ≠ key)
                  bytes := shard.bytes - entry.file.size }
                { cache with
                  bytes := cache.bytes - entry.file.size
                  entries := cache.entries - 1
                  evictions := cache.evictions + 1 }

section Evict

variable {shard : Shard} {cache : StaticFileCache} {restBytes restEntries : Nat}
  {shardMaxEntries shardMaxBytes : Nat}

/-- The victim's share of the counters. -/
theorem victim_counted (h : Balanced restBytes restEntries shard cache) {key : Bytes}
    {entry : CacheEntry} (hmem : (key, entry) ∈ shard.entries) :
    entry.file.size ≤ shard.bytes ∧ entry.file.size ≤ cache.bytes ∧ 1 ≤ cache.entries := by
  have hsize := List.le_sum_of_mem (List.mem_map.mpr ⟨_, hmem, rfl⟩ :
    entry.file.size ∈ shard.entries.map fun row => row.2.file.size)
  have hlength := List.length_pos_of_mem hmem
  rw [← h.own.bytes] at hsize
  have hbytes := h.bytes
  have hentries := h.entries
  omega

/-- One round keeps the balance. -/
theorem balanced_evict (h : Balanced restBytes restEntries shard cache) {key : Bytes}
    {entry : CacheEntry} (hmem : (key, entry) ∈ shard.entries) :
    Balanced restBytes restEntries
      { entries := shard.entries.filter (·.1 ≠ key), bytes := shard.bytes - entry.file.size }
      { cache with
        bytes := cache.bytes - entry.file.size
        entries := cache.entries - 1
        evictions := cache.evictions + 1 } := by
  obtain ⟨hshard, hcache, hcount⟩ := victim_counted h hmem
  have hsum := sum_erase_key (fun row => row.2.file.size) h.own.nodup hmem
  have hlength := sum_erase_key (fun _ => 1) h.own.nodup hmem
  simp only [List.map_const', List.sum_replicate, smul_eq_mul, mul_one] at hsum hlength
  have hbytes := h.bytes
  have hentries := h.entries
  have hown := h.own.bytes
  exact {
    own := {
      nodup := h.own.nodup.sublist (List.filter_sublist.map _)
      bytes := by
        simp only []
        omega }
    bytes := by
      simp only []
      omega
    entries := by
      simp only []
      omega }

/-- The loop keeps the balance, ends within the limits, and subtracts nothing
that is not there. -/
theorem evictLoop_spec {fuel : Nat} (h : Balanced restBytes restEntries shard cache)
    (hfuel : shard.entries.length < fuel) :
    let out := evictLoop shardMaxEntries shardMaxBytes fuel shard cache
    Balanced restBytes restEntries out.1 out.2 ∧
      out.1.Within shardMaxEntries shardMaxBytes ∧
      ∀ p ∈ evictSubtractions shardMaxEntries shardMaxBytes fuel shard cache, p.2 ≤ p.1 := by
  induction fuel generalizing shard cache with
  | zero => omega
  | succ fuel ih =>
      rw [evictLoop, evictSubtractions]
      split
      · next hend =>
          refine ⟨h, ?_, by simp⟩
          rcases hend with hempty | hwithin
          · rw [Shard.Within, h.own.bytes, hempty]
            simp
          · exact hwithin
      · next hmore =>
          obtain ⟨⟨key, entry⟩, hvictim⟩ := oldestEntry_isSome none
            (Or.inl fun hempty => hmore (Or.inl hempty))
          have hmem : (key, entry) ∈ shard.entries :=
            (oldestEntry_mem hvictim).resolve_right (by simp)
          have hless : (shard.entries.filter (·.1 ≠ key)).length < fuel := by
            have hdrop : (shard.entries.filter (·.1 ≠ key)).length < shard.entries.length :=
              List.length_filter_lt_length_iff_exists.mpr ⟨_, hmem, by simp⟩
            omega
          rw [hvictim]
          obtain ⟨hbalanced, hwithin, hsubtractions⟩ := ih (balanced_evict h hmem) hless
          refine ⟨hbalanced, hwithin, ?_⟩
          obtain ⟨hshard, hcache, hcount⟩ := victim_counted h hmem
          intro p hp
          simp only [List.mem_cons] at hp
          rcases hp with hp | hp | hp | hp
          · rw [hp]
            exact hshard
          · rw [hp]
            exact hcache
          · rw [hp]
            exact hcount
          · exact hsubtractions p hp

end Evict

/-! ## Insertion -/

/-- The books of the whole cache. -/
structure StaticFileCache.Accounted (cache : StaticFileCache) : Prop where
  shards : ∀ shard ∈ cache.shards, shard.Accounted
  bytes : cache.bytes = (cache.shards.map (·.bytes)).sum
  entries : cache.entries = (cache.shards.map (·.entries.length)).sum

/-- What an insertion subtracts, and from what. -/
def insertSubtractions (cache : StaticFileCache) (i : Nat) (key : Bytes)
    (file : CachedStaticFile) (modified now : Int) : List (Nat × Nat) :=
  let shard := cache.shards.getD i {}
  let replaced := match shard.entries.lookup key with
    | some existing => [(shard.bytes, existing.file.size), (cache.bytes, existing.file.size)]
    | none => []
  let placed := cache.place i key file modified now
  replaced ++ evictSubtractions (StaticFileCache.shardLimit cache.maxEntries cache.shards.length)
    (StaticFileCache.shardLimit cache.maxBytes cache.shards.length)
    (placed.1.entries.length + 1) placed.1 placed.2

section Insert

variable {cache : StaticFileCache} {i : Nat} {key : Bytes} {file : CachedStaticFile}
  {modified now : Int}

/-- The counters against the shard at `i`. -/
theorem balanced_of_accounted (h : cache.Accounted) (hi : i < cache.shards.length) :
    ∃ restBytes restEntries,
      Balanced restBytes restEntries (cache.shards.getD i {}) cache ∧
      ∀ shard : Shard, ((cache.shards.set i shard).map (·.bytes)).sum = shard.bytes + restBytes ∧
        ((cache.shards.set i shard).map (·.entries.length)).sum
          = shard.entries.length + restEntries := by
  have hget : cache.shards.getD i {} = cache.shards[i] := by
    simp [List.getD_eq_getElem?_getD, hi]
  have hbytes := sum_map_set (fun shard : Shard => shard.bytes) hi
  have hentries := sum_map_set (fun shard : Shard => shard.entries.length) hi
  have hmem := List.getElem_mem hi
  have hownBytes := List.le_sum_of_mem (List.mem_map.mpr ⟨_, hmem, rfl⟩ :
    cache.shards[i].bytes ∈ cache.shards.map (·.bytes))
  have hownEntries := List.le_sum_of_mem (List.mem_map.mpr ⟨_, hmem, rfl⟩ :
    cache.shards[i].entries.length ∈ cache.shards.map (·.entries.length))
  have hsumBytes := h.bytes
  have hsumEntries := h.entries
  refine ⟨cache.bytes - cache.shards[i].bytes, cache.entries - cache.shards[i].entries.length,
    ?_, fun shard => ?_⟩
  · rw [hget]
    exact {
      own := h.shards _ hmem
      bytes := by omega
      entries := by omega }
  · have hb := hbytes shard
    have he := hentries shard
    omega

/-- The new entry in its shard, the books still balanced against the others. -/
theorem balanced_place {restBytes restEntries : Nat}
    (h : Balanced restBytes restEntries (cache.shards.getD i {}) cache) :
    Balanced restBytes restEntries (cache.place i key file modified now).1
      (cache.place i key file modified now).2 := by
  have hsum := sum_put (fun entry : CacheEntry => entry.file.size) key
    { file := file, modified := modified, validatedAt := now, lastAccess := cache.clock + 1 }
    (cache.shards.getD i {}).entries
  have hlength := length_put key
    ({ file := file, modified := modified, validatedAt := now, lastAccess := cache.clock + 1 } :
      CacheEntry) (cache.shards.getD i {}).entries
  have hnodup := nodup_keys_put (k := key) (v :=
    ({ file := file, modified := modified, validatedAt := now, lastAccess := cache.clock + 1 } :
      CacheEntry)) h.own.nodup
  have hbytes := h.bytes
  have hentries := h.entries
  have hown := h.own.bytes
  rw [StaticFileCache.place]
  cases hlookup : (cache.shards.getD i {}).entries.lookup key with
  | none =>
      simp only [hlookup, Option.map_none, Option.getD_none, Option.isSome_none,
        Bool.false_eq_true, if_false] at hsum hlength ⊢
      exact {
        own := {
          nodup := hnodup
          bytes := by
            simp only []
            omega }
        bytes := by
          simp only []
          omega
        entries := by
          simp only []
          omega }
  | some existing =>
      simp only [hlookup, Option.map_some, Option.getD_some, Option.isSome_some,
        if_true] at hsum hlength ⊢
      have hcounted := (victim_counted h (mem_of_lookup hlookup)).1
      exact {
        own := {
          nodup := hnodup
          bytes := by
            simp only []
            omega }
        bytes := by
          simp only []
          omega
        entries := by
          simp only []
          omega }

/-- An insertion keeps the books, ends within the shard's limits, and subtracts
nothing that is not there. -/
theorem insert_spec (h : cache.Accounted) (hi : i < cache.shards.length) :
    (cache.insert i key file modified now).Accounted ∧
      (∃ shard, (cache.insert i key file modified now).shards = cache.shards.set i shard ∧
        shard.Within (StaticFileCache.shardLimit cache.maxEntries cache.shards.length)
          (StaticFileCache.shardLimit cache.maxBytes cache.shards.length)) ∧
      ∀ p ∈ insertSubtractions cache i key file modified now, p.2 ≤ p.1 := by
  obtain ⟨restBytes, restEntries, hbalanced, hset⟩ := balanced_of_accounted h hi
  obtain ⟨hout, hwithin, hsubtractions⟩ := evictLoop_spec
    (balanced_place hbalanced)
    (Nat.lt_succ_self _)
  have hsame := (evictLoop_frame
    (StaticFileCache.shardLimit cache.maxEntries cache.shards.length)
    (StaticFileCache.shardLimit cache.maxBytes cache.shards.length)
    ((cache.place i key file modified now).1.entries.length + 1)
    (cache.place i key file modified now).1 (cache.place i key file modified now).2).2
  rw [StaticFileCache.insert]
  simp only [StaticFileCache.evictIfNeeded]
  generalize StaticFileCache.evictLoop _ _ _ _ _ = out at hout hwithin hsame ⊢
  obtain ⟨shard, cache'⟩ := out
  have hshards : cache'.shards = cache.shards := by
    have hfield := congrArg StaticFileCache.shards hsame
    exact hfield
  obtain ⟨hsumBytes, hsumEntries⟩ := hset shard
  refine ⟨{ shards := ?_, bytes := ?_, entries := ?_ }, ⟨shard, by rw [hshards], hwithin⟩, ?_⟩
  · intro other hother
    rw [hshards] at hother
    rcases List.mem_or_eq_of_mem_set hother with hold | hnew
    · exact h.shards other hold
    · rw [hnew]
      exact hout.own
  · rw [hshards, hsumBytes]
    exact hout.bytes
  · rw [hshards, hsumEntries]
    exact hout.entries
  · intro p hp
    rw [insertSubtractions] at hp
    rcases List.mem_append.mp hp with hreplaced | hevicted
    · cases hlookup : (cache.shards.getD i {}).entries.lookup key with
      | none =>
          rw [hlookup] at hreplaced
          cases hreplaced
      | some existing =>
          rw [hlookup] at hreplaced
          obtain ⟨hshard, hcache, -⟩ := victim_counted hbalanced (mem_of_lookup hlookup)
          simp only [List.mem_cons, List.not_mem_nil, or_false] at hreplaced
          rcases hreplaced with hp | hp
          · rw [hp]
            exact hshard
          · rw [hp]
            exact hcache
    · exact hsubtractions p hevicted

/-- Renewing an entry's validation changes no sum. -/
theorem accounted_recheck {cache' : StaticFileCache} (h : cache.Accounted)
    (hi : i < cache.shards.length) {entry : CacheEntry}
    (hlookup : (cache.shards.getD i {}).entries.lookup key = some entry)
    (hcache : cache' = { cache with
      shards := cache.shards.set i
        { cache.shards.getD i {} with
          entries := put key { entry with validatedAt := now } (cache.shards.getD i {}).entries }
      hits := cache.hits + 1 }) :
    cache'.Accounted ∧ ∃ shard, cache'.shards = cache.shards.set i shard ∧
      shard.entries.length = (cache.shards.getD i {}).entries.length ∧
      shard.bytes = (cache.shards.getD i {}).bytes := by
  obtain ⟨restBytes, restEntries, hbalanced, hset⟩ := balanced_of_accounted h hi
  have hsum := sum_put (fun entry : CacheEntry => entry.file.size) key
    { entry with validatedAt := now } (cache.shards.getD i {}).entries
  have hlength := length_put key { entry with validatedAt := now }
    (cache.shards.getD i {}).entries
  rw [hlookup] at hsum hlength
  simp only [Option.map_some, Option.getD_some, Option.isSome_some, if_true] at hsum hlength
  have hnodup := nodup_keys_put (k := key) (v := { entry with validatedAt := now })
    hbalanced.own.nodup
  have hown := hbalanced.own.bytes
  have hbytes := hbalanced.bytes
  have hentries := hbalanced.entries
  subst hcache
  refine ⟨{ shards := ?_, bytes := ?_, entries := ?_ }, _, rfl, hlength, rfl⟩
  · intro other hother
    rcases List.mem_or_eq_of_mem_set hother with hold | hnew
    · exact h.shards other hold
    · rw [hnew]
      refine ⟨hnodup, ?_⟩
      simp only []
      omega
  · simp only []
    rw [(hset _).1]
    exact hbytes
  · simp only []
    rw [(hset _).2, hlength]
    exact hentries

end Insert

/-! ## Runs -/

/-- What is cached has the size on record, and is not too large. -/
def Sound (maxFileBytes : Nat) (file : CachedStaticFile) : Prop :=
  file.body.length = file.size ∧ file.size ≤ maxFileBytes

/-- The books of the cache are right, and every shard is within its limits. -/
structure Books (cache : StaticFileCache) : Prop where
  accounted : cache.Accounted
  within : ∀ shard ∈ cache.shards, shard.Within
    (StaticFileCache.shardLimit cache.maxEntries cache.shards.length)
    (StaticFileCache.shardLimit cache.maxBytes cache.shards.length)
  sound : cache.Holds fun _ entry => Sound cache.maxFileBytes entry.file
  staffed : 0 < cache.shards.length

/-- What a thread is about to insert is sound. -/
def GetPhase.Sound (maxFileBytes : Nat) : GetPhase → Prop
  | .inserting _ _ file _ => Ref.Sound maxFileBytes file
  | _ => True

section Step

variable {hash : Bytes → Nat} {cache : StaticFileCache}

theorem shardIndex_lt (h : Books cache) (key : Bytes) :
    cache.shardIndex hash key < cache.shards.length := Nat.mod_lt _ h.staffed

theorem readBody_length {content : Option Bytes} {size : Nat} {body : Bytes}
    (h : StaticFileCache.readBody content size = some body) : body.length = size := by
  cases content with
  | none => cases h
  | some content =>
      rw [StaticFileCache.readBody] at h
      split at h
      · cases h
      · next hlong =>
          cases h
          rw [List.length_take]
          omega

/-- A read that leads to an insertion has read as much as is on record. -/
theorem fetch_sound (path : Path) (now : Int) (size : Nat) (modified : Int)
    (answer : Option Bytes) :
    (cache.fetch path now size modified answer).1.Sound cache.maxFileBytes := by
  obtain ⟨-, ⟨-, hphase⟩ | ⟨body, hbody, ⟨-, hphase⟩ | ⟨hkeep, hphase⟩⟩⟩ :=
    fetch_cases cache path now size modified answer
  · rw [hphase]
    trivial
  · rw [hphase]
    trivial
  · rw [hphase]
    simp only [StaticFileCache.Uncacheable, not_or, Nat.not_lt] at hkeep
    exact ⟨readBody_length hbody, hkeep.2.2.2.1⟩

/-- A change of the cache that leaves its entries and settings alone. -/
theorem books_of_same {cache' : StaticFileCache} (h : Books cache)
    (hsame : SameSettings cache cache') (hshards : cache'.shards = cache.shards)
    (hbytes : cache'.bytes = cache.bytes) (hentries : cache'.entries = cache.entries) :
    Books cache' where
  accounted := {
    shards := hshards ▸ h.accounted.shards
    bytes := by rw [hbytes, hshards, h.accounted.bytes]
    entries := by rw [hentries, hshards, h.accounted.entries] }
  within := by
    rw [hsame.maxEntries, hsame.maxBytes, hshards]
    exact h.within
  sound := by
    intro shard hshard
    rw [hsame.maxFileBytes]
    exact h.sound shard (hshards ▸ hshard)
  staffed := by
    rw [hshards]
    exact h.staffed

theorem books_recheck (h : Books cache) (path : Path) (now : Int) (size : Nat) (modified : Int) :
    Books (cache.recheck hash path now size modified).2 := by
  obtain ⟨entry, hlookup, -, -, hfound⟩ | hnone := recheck_cases cache hash path now size modified
  · rw [hfound]
    obtain ⟨haccounted, shard, hshards, hlength, hbytes⟩ :=
      accounted_recheck h.accounted (shardIndex_lt h _) hlookup rfl
    refine { accounted := haccounted, within := ?_, sound := ?_, staffed := ?_ }
    · intro other hother
      rw [hshards] at hother ⊢
      rw [List.length_set]
      rcases List.mem_or_eq_of_mem_set hother with hold | hnew
      · exact h.within other hold
      · rw [hnew, Shard.Within, hlength, hbytes]
        rcases getD_shard_mem cache (cache.shardIndex hash path.toBytes) with hmem | hempty
        · exact h.within _ hmem
        · rw [hempty] at hlookup
          cases hlookup
    · have hentry : Sound cache.maxFileBytes entry.file := h.sound.lookup hlookup
      exact h.sound.recheck rfl hentry
    · simpa using h.staffed
  · rw [hnone]
    exact h

theorem books_step {cache' : StaticFileCache} {phase phase' : GetPhase} {access : GetAccess}
    (h : Books cache) (hphase : phase.Sound cache.maxFileBytes)
    (hstep : GetStep hash cache phase access cache' phase') :
    Books cache' ∧ phase'.Sound cache'.maxFileBytes := by
  have hsame := sameSettings_step hstep
  cases hstep with
  | call path now => exact ⟨h, trivial⟩
  | look path now =>
      obtain ⟨entry, -, -, hfound⟩ | hnone := look_cases cache hash path now
      · rw [hfound] at hsame ⊢
        exact ⟨books_of_same h hsame rfl rfl rfl, trivial⟩
      · rw [hnone]
        exact ⟨h, trivial⟩
  | fileSize path now answer => cases answer <;> exact ⟨h, trivial⟩
  | lastWriteTime path now size answer => exact ⟨h, trivial⟩
  | recheck path now size modified =>
      refine ⟨books_recheck h path now size modified, ?_⟩
      obtain ⟨entry, -, -, -, hfound⟩ | hnone := recheck_cases cache hash path now size modified
      · rw [hfound]
        trivial
      · rw [hnone]
        trivial
  | content path now size modified answer =>
      have hcache := (fetch_cases cache path now size modified answer).1
      refine ⟨?_, ?_⟩
      · rw [hcache]
        rw [hcache] at hsame
        exact books_of_same h hsame rfl rfl rfl
      · rw [hcache]
        exact fetch_sound path now size modified answer
  | insert path now file modified =>
      obtain ⟨haccounted, ⟨shard, hshards, hwithin⟩, -⟩ := insert_spec
        h.accounted (shardIndex_lt h _)
      refine ⟨{ accounted := haccounted, within := ?_, sound := ?_, staffed := ?_ }, trivial⟩
      · intro other hother
        rw [hsame.maxEntries, hsame.maxBytes, hsame.shardCount]
        rw [hshards] at hother
        rcases List.mem_or_eq_of_mem_set hother with hold | hnew
        · exact h.within other hold
        · rw [hnew]
          exact hwithin
      · rw [hsame.maxFileBytes]
        exact h.sound.insert hphase
      · rw [hsame.shardCount]
        exact h.staffed
  | back path now result => exact ⟨h, trivial⟩

end Step

section Runs

variable {ι : Type} [DecidableEq ι] {hash : Bytes → Nat} {s : CacheState ι}

theorem books_construct (enabled : Bool)
    (shardCount maxEntries maxBytes maxFileBytes milliseconds : Nat) :
    Books (StaticFileCache.construct enabled shardCount maxEntries maxBytes maxFileBytes
      milliseconds) := by
  have hempty : ∀ shard ∈ List.replicate (max 1 shardCount) ({} : Shard), shard = {} :=
    fun shard hshard => List.eq_of_mem_replicate hshard
  rw [StaticFileCache.construct]
  exact {
    accounted := {
      shards := fun shard hshard => by
        rw [hempty shard hshard]
        exact ⟨List.nodup_nil, rfl⟩
      bytes := by simp
      entries := by simp }
    within := fun shard hshard => by
      rw [hempty shard hshard]
      exact ⟨Nat.zero_le _, Nat.zero_le _⟩
    sound := fun shard hshard row hrow => by
      rw [hempty shard hshard] at hrow
      cases hrow
    staffed := by
      rw [List.length_replicate]
      omega }

theorem books_run (h : Reachable CacheState.Initial (CacheStep hash) s) :
    Books s.cache ∧ ∀ i, (s.threads i).Sound s.cache.maxFileBytes := by
  refine h.invariant (I := fun s : CacheState ι =>
    Books s.cache ∧ ∀ i, (s.threads i).Sound s.cache.maxFileBytes) ?_ ?_
  · intro s hs
    obtain ⟨enabled, shardCount, maxEntries, maxBytes, maxFileBytes, milliseconds, hcache, hidle⟩ :=
      hs
    refine ⟨hcache ▸ books_construct .., fun i => ?_⟩
    rw [hidle i]
    trivial
  · intro s s' hs hstep
    cases hstep with
    | thread i access cache phase hget =>
        obtain ⟨hbooks, hphase⟩ := books_step hs.1 (hs.2 i) hget
        refine ⟨hbooks, fun j => ?_⟩
        simp only [Function.update_apply]
        split
        · exact hphase
        · rw [(sameSettings_step hget).maxFileBytes]
          exact hs.2 j

/-- Without overflow a shard's limit is its share, rounded up, or one. -/
theorem shardLimit_of_lt {limit count : Nat} (h : limit + count - 1 < 2 ^ 64) :
    StaticFileCache.shardLimit limit count = max 1 (limit ⌈/⌉ count) := by
  rw [StaticFileCache.shardLimit, Nat.mod_eq_of_lt h, Nat.ceilDiv_eq_add_pred_div]

/-- In every run of any number of threads, whatever the accesses to the files
answer: each shard's bytes and the two global counters are what the entries add
up to; nothing is subtracted that is not there; every cached body has the size
on record, within the limit for a file; and where the rounding does not
overflow, no shard holds more than its share. -/
theorem cache_accounting (h : Reachable CacheState.Initial (CacheStep hash) s) :
    (∀ shard ∈ s.cache.shards,
      shard.bytes = (shard.entries.map fun row => row.2.file.size).sum) ∧
    s.cache.bytes = (s.cache.shards.map (·.bytes)).sum ∧
    s.cache.entries = (s.cache.shards.map (·.entries.length)).sum ∧
    (∀ i path now file modified, s.threads i = .inserting path now file modified →
      ∀ p ∈ insertSubtractions s.cache (s.cache.shardIndex hash path.toBytes) path.toBytes file
        modified now, p.2 ≤ p.1) ∧
    (∀ shard ∈ s.cache.shards, ∀ row ∈ shard.entries,
      row.2.file.body.length = row.2.file.size ∧ row.2.file.size ≤ s.cache.maxFileBytes) ∧
    (s.cache.maxEntries + s.cache.shards.length - 1 < 2 ^ 64 →
      s.cache.maxBytes + s.cache.shards.length - 1 < 2 ^ 64 →
      ∀ shard ∈ s.cache.shards,
        shard.entries.length ≤ max 1 (s.cache.maxEntries ⌈/⌉ s.cache.shards.length) ∧
        shard.bytes ≤ max 1 (s.cache.maxBytes ⌈/⌉ s.cache.shards.length)) := by
  obtain ⟨hbooks, -⟩ := books_run h
  refine ⟨fun shard hshard => (hbooks.accounted.shards shard hshard).bytes,
    hbooks.accounted.bytes, hbooks.accounted.entries, ?_, hbooks.sound, ?_⟩
  · intro i path now file modified _
    exact (insert_spec hbooks.accounted (shardIndex_lt hbooks _)).2.2
  · intro hentries hbytes shard hshard
    have hwithin := hbooks.within shard hshard
    rw [shardLimit_of_lt hentries, shardLimit_of_lt hbytes] at hwithin
    exact hwithin

/-! ## Whole calls -/

/-- A call that nothing comes between, in one of the threads. -/
theorem later_of_alone {files : Files} {i : ι} {threads : ι → GetPhase}
    {a b : StaticFileCache × GetPhase} (h : Later (AloneStep hash files) a b) :
    Later (CacheStep hash) ⟨a.1, Function.update threads i a.2⟩
      ⟨b.1, Function.update threads i b.2⟩ := by
  induction h with
  | refl => exact .refl
  | @tail b c _ hstep ih =>
      obtain ⟨access, -, hget⟩ := hstep
      have hnext := CacheStep.thread ⟨b.1, Function.update threads i b.2⟩ i access
        c.1 c.2 (by simpa using hget)
      rw [Function.update_idem] at hnext
      exact ih.tail hnext

/-- The state after a whole call, made while the thread is idle. -/
theorem reachable_get {Init : CacheState ι → Prop} (h : Reachable Init (CacheStep hash) s) {i : ι}
    (hi : s.threads i = .idle) (files : Files) (now : Int) (path : Path) :
    Reachable Init (CacheStep hash) ⟨(s.cache.get files hash now path).2, s.threads⟩ := by
  have hcall := h.step (CacheStep.thread s i (.call path now) s.cache (.looking path now)
    (by rw [hi]; exact .call ..))
  have hreturned : Reachable Init (CacheStep hash) ⟨(s.cache.get files hash now path).2,
      Function.update s.threads i (.returned path now (s.cache.get files hash now path).1)⟩ :=
    hcall.later (later_of_alone (get_steps s.cache hash files path now))
  have hback := hreturned.step (CacheStep.thread _ i .nothing _ .idle (by
    simp only [Function.update_self]
    exact .back ..))
  rw [Function.update_idem, ← hi, Function.update_eq_self] at hback
  exact hback

end Runs

/-- A file system in which every path is a file with this content. -/
def sameFile (content : Bytes) : Files :=
  { weaklyCanonical := fun p => .ok p
    isDirectory := fun _ => .ok false
    found := fun _ => .ok true
    isRegularFile := fun _ => .ok true
    fileSize := fun _ => some content.length
    lastWriteTime := fun _ => some 0
    content := fun _ => some content }

/-- A cache after its first call. -/
def firstCall : CacheState Unit :=
  ⟨((StaticFileCache.construct true 4 16 1048576 1024 0).get (sameFile (bytes "first"))
    (fun key => key.length) 0 (Path.ofBytes (bytes "/index.txt"))).2, fun _ => .idle⟩

theorem firstCall_reachable :
    Reachable CacheState.Initial (CacheStep fun key => key.length) firstCall := by
  have hstart : Reachable CacheState.Initial (CacheStep fun key => key.length)
      (⟨StaticFileCache.construct true 4 16 1048576 1024 0, fun _ => .idle⟩ : CacheState Unit) :=
    .start ⟨true, 4, 16, 1048576, 1024, 0, rfl, fun _ => rfl⟩
  exact reachable_get hstart (i := ()) rfl (sameFile (bytes "first")) 0
    (Path.ofBytes (bytes "/index.txt"))

theorem cache_accounting_firstCall :
    firstCall.cache.bytes = 5 ∧
      firstCall.cache.bytes = (firstCall.cache.shards.map (·.bytes)).sum :=
  ⟨by decide +kernel, (cache_accounting firstCall_reachable).2.1⟩

end HydrogenHttpd.Ref
