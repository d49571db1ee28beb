import HydrogenHttpd.Ref.StaticFileCacheSteps

/-!
# What the sections of the cache do

The first two sections under the lock find an entry or change nothing, and the
third puts one entry into one shard and removes others. So what holds of every
entry goes on to hold when it holds of the one that is put (`Holds`).

Read as steps of a call that nothing comes between, with a file that does not
change, the sections and accesses make up `get` (`get_steps`).
-/

namespace HydrogenHttpd.Ref

open Base

/-! ## The first two sections -/

section Alone

variable (cache : StaticFileCache) (hash : Bytes → Nat) (files : Files) (path : Path) (now : Int)

/-- The first section finds an entry that is fresh, or changes nothing. -/
theorem freshEntry_cases (i : Nat) (key : Bytes) :
    (∃ entry, (cache.shards.getD i {}).entries.lookup key = some entry ∧
      now - entry.validatedAt < cache.revalidateInterval * 1000000 ∧
      cache.freshEntry i key now = (some entry.file, { cache with hits := cache.hits + 1 })) ∨
    cache.freshEntry i key now = (none, cache) := by
  rw [StaticFileCache.freshEntry]
  cases hlookup : (cache.shards.getD i {}).entries.lookup key with
  | none => exact Or.inr rfl
  | some entry =>
      by_cases hfresh : now - entry.validatedAt < cache.revalidateInterval * 1000000
      · exact Or.inl ⟨entry, rfl, hfresh, if_pos hfresh⟩
      · exact Or.inr (if_neg hfresh)

/-- The second section finds the entry of an unchanged file, or changes nothing. -/
theorem revalidate_cases (i : Nat) (key : Bytes) (size : Nat) (modified : Int) :
    (∃ entry, (cache.shards.getD i {}).entries.lookup key = some entry ∧
      modified = entry.modified ∧ size = entry.file.size ∧
      cache.revalidate i key size modified now =
        (some entry.file,
          { cache with
            shards := cache.shards.set i
              { cache.shards.getD i {} with
                entries := put key { entry with validatedAt := now }
                  (cache.shards.getD i {}).entries }
            hits := cache.hits + 1 })) ∨
    cache.revalidate i key size modified now = (none, cache) := by
  rw [StaticFileCache.revalidate]
  simp only []
  cases hlookup : (cache.shards.getD i {}).entries.lookup key with
  | none => exact Or.inr rfl
  | some entry =>
      by_cases hsame : modified = entry.modified ∧ size = entry.file.size
      · exact Or.inl ⟨entry, rfl, hsame.1, hsame.2, if_pos hsame⟩
      · exact Or.inr (if_neg hsame)

/-- The first section, where it is entered, finds a fresh entry or changes nothing. -/
theorem firstSection :
    (∃ entry, (cache.shards.getD (cache.shardIndex hash path.toBytes) {}).entries.lookup
        path.toBytes = some entry ∧
      now - entry.validatedAt < cache.revalidateInterval * 1000000 ∧
      (if cache.enabled then
          cache.freshEntry (cache.shardIndex hash path.toBytes) path.toBytes now
        else (none, cache)) = (some entry.file, { cache with hits := cache.hits + 1 })) ∨
    (if cache.enabled then
        cache.freshEntry (cache.shardIndex hash path.toBytes) path.toBytes now
      else (none, cache)) = (none, cache) := by
  split
  · exact freshEntry_cases ..
  · exact Or.inr rfl

/-- So does the second, with the entry of an unchanged file. -/
theorem secondSection (size : Nat) (modified : Int) :
    (∃ entry, (cache.shards.getD (cache.shardIndex hash path.toBytes) {}).entries.lookup
        path.toBytes = some entry ∧
      modified = entry.modified ∧ size = entry.file.size ∧
      (if cache.enabled then
          cache.revalidate (cache.shardIndex hash path.toBytes) path.toBytes size modified now
        else (none, cache)) = (some entry.file, { cache with
          shards := cache.shards.set (cache.shardIndex hash path.toBytes)
            { cache.shards.getD (cache.shardIndex hash path.toBytes) {} with
              entries := put path.toBytes { entry with validatedAt := now }
                (cache.shards.getD (cache.shardIndex hash path.toBytes) {}).entries }
          hits := cache.hits + 1 })) ∨
    (if cache.enabled then
        cache.revalidate (cache.shardIndex hash path.toBytes) path.toBytes size modified now
      else (none, cache)) = (none, cache) := by
  split
  · exact revalidate_cases ..
  · exact Or.inr rfl

/-- The first section as a step. -/
theorem look_eq :
    cache.look hash path now =
      match (if cache.enabled then
          cache.freshEntry (cache.shardIndex hash path.toBytes) path.toBytes now
        else (none, cache)) with
      | (some file, cache) => (.returned path now (some file), cache)
      | (none, cache) => (.sizing path now, cache) := by
  rw [StaticFileCache.look]
  split <;> rfl

theorem recheck_eq (size : Nat) (modified : Int) :
    cache.recheck hash path now size modified =
      match (if cache.enabled then
          cache.revalidate (cache.shardIndex hash path.toBytes) path.toBytes size modified now
        else (none, cache)) with
      | (some file, cache) => (.returned path now (some file), cache)
      | (none, cache) => (.reading path now size modified, cache) := by
  rw [StaticFileCache.recheck]
  split <;> rfl

/-- The call is answered from a fresh entry, or goes on. -/
theorem look_cases :
    (∃ entry, (cache.shards.getD (cache.shardIndex hash path.toBytes) {}).entries.lookup
        path.toBytes = some entry ∧
      now - entry.validatedAt < cache.revalidateInterval * 1000000 ∧
      cache.look hash path now =
        (.returned path now (some entry.file), { cache with hits := cache.hits + 1 })) ∨
    cache.look hash path now = (.sizing path now, cache) := by
  rw [look_eq]
  obtain ⟨entry, hlookup, hfresh, hfound⟩ | hnone := firstSection cache hash path now
  · rw [hfound]
    exact Or.inl ⟨entry, hlookup, hfresh, rfl⟩
  · rw [hnone]
    exact Or.inr rfl

theorem recheck_cases (size : Nat) (modified : Int) :
    (∃ entry, (cache.shards.getD (cache.shardIndex hash path.toBytes) {}).entries.lookup
        path.toBytes = some entry ∧
      modified = entry.modified ∧ size = entry.file.size ∧
      cache.recheck hash path now size modified =
        (.returned path now (some entry.file),
          { cache with
            shards := cache.shards.set (cache.shardIndex hash path.toBytes)
              { cache.shards.getD (cache.shardIndex hash path.toBytes) {} with
                entries := put path.toBytes { entry with validatedAt := now }
                  (cache.shards.getD (cache.shardIndex hash path.toBytes) {}).entries }
            hits := cache.hits + 1 })) ∨
    cache.recheck hash path now size modified = (.reading path now size modified, cache) := by
  rw [recheck_eq]
  obtain ⟨entry, hlookup, hmodified, hsize, hfound⟩ | hnone :=
    secondSection cache hash path now size modified
  · rw [hfound]
    exact Or.inl ⟨entry, hlookup, hmodified, hsize, rfl⟩
  · rw [hnone]
    exact Or.inr rfl

/-- What a miss leads to: nothing was read, or a file is handed out, or it is
handed to the third section. -/
theorem fetch_cases (size : Nat) (modified : Int) (answer : Option Bytes) :
    (cache.fetch path now size modified answer).2 = { cache with misses := cache.misses + 1 } ∧
      (StaticFileCache.readBody answer size = none ∧
          (cache.fetch path now size modified answer).1 = .returned path now none ∨
        ∃ body, StaticFileCache.readBody answer size = some body ∧
          (cache.Uncacheable size ∧ (cache.fetch path now size modified answer).1 = .returned path
              now (some { body := body, etag := makeEtag size modified, size := size }) ∨
            ¬ cache.Uncacheable size ∧
              (cache.fetch path now size modified answer).1 = .inserting path now
                { body := body, etag := makeEtag size modified, size := size } modified)) := by
  rw [StaticFileCache.fetch]
  cases hbody : StaticFileCache.readBody answer size with
  | none => exact ⟨rfl, Or.inl ⟨rfl, rfl⟩⟩
  | some body =>
      simp only []
      split
      · next hout => exact ⟨rfl, Or.inr ⟨body, rfl, Or.inl ⟨hout, rfl⟩⟩⟩
      · next hkeep => exact ⟨rfl, Or.inr ⟨body, rfl, Or.inr ⟨hkeep, rfl⟩⟩⟩

/-! ## `get` as steps -/

theorem readThrough_steps (size : Nat) (modified : Int) :
    Later (AloneStep hash files) (cache, .reading path now size modified)
      ((cache.readThrough files path (cache.shardIndex hash path.toBytes) size modified now).2,
        .returned path now
          (cache.readThrough files path (cache.shardIndex hash path.toBytes) size modified
            now).1) := by
  have hread : AloneStep hash files (cache, .reading path now size modified)
      ((cache.fetch path now size modified (files.content path)).2,
        (cache.fetch path now size modified (files.content path)).1) :=
    ⟨.content path (files.content path), rfl, .content ..⟩
  rw [StaticFileCache.readThrough]
  rw [StaticFileCache.fetch] at hread
  cases hbody : StaticFileCache.readBody (files.content path) size with
  | none =>
      rw [hbody] at hread
      exact .single hread
  | some body =>
      rw [hbody] at hread
      simp only [] at hread ⊢
      split
      · next hout =>
          rw [if_pos hout] at hread
          exact .single hread
      · next hkeep =>
          rw [if_neg hkeep] at hread
          exact (Relation.ReflTransGen.single hread).tail ⟨.nothing, trivial, .insert ..⟩

/-- `get`, when nothing comes between its steps, is these steps. -/
theorem get_steps :
    Later (AloneStep hash files) (cache, .looking path now)
      ((cache.get files hash now path).2,
        .returned path now (cache.get files hash now path).1) := by
  have hlook : AloneStep hash files (cache, .looking path now)
      ((cache.look hash path now).2, (cache.look hash path now).1) :=
    ⟨.nothing, trivial, .look ..⟩
  rw [StaticFileCache.get]
  obtain ⟨entry, -, -, hfirst⟩ | hfirst := firstSection cache hash path now
  · rw [look_eq, hfirst] at hlook
    simp only [hfirst]
    exact .single hlook
  · rw [look_eq, hfirst] at hlook
    simp only [hfirst]
    have hsized : AloneStep hash files (cache, .sizing path now)
        (cache, _) :=
      ⟨.fileSize path (files.fileSize path), rfl, .fileSize cache path now _⟩
    refine .head hlook ?_
    cases hsize : files.fileSize path with
    | none =>
        rw [hsize] at hsized
        exact .single hsized
    | some size =>
        rw [hsize] at hsized
        have htimed : AloneStep hash files (cache, .timing path now size)
            (cache, .revalidating path now size
              ((files.lastWriteTime path).getD minFileTime)) :=
          ⟨.lastWriteTime path (files.lastWriteTime path), rfl, .lastWriteTime ..⟩
        have hrecheck : AloneStep hash files
            (cache, .revalidating path now size ((files.lastWriteTime path).getD minFileTime))
            ((cache.recheck hash path now size ((files.lastWriteTime path).getD minFileTime)).2,
              (cache.recheck hash path now size
                ((files.lastWriteTime path).getD minFileTime)).1) :=
          ⟨.nothing, trivial, .recheck ..⟩
        obtain ⟨entry, -, -, -, hsecond⟩ | hsecond := secondSection cache hash path now size
          ((files.lastWriteTime path).getD minFileTime)
        · rw [recheck_eq, hsecond] at hrecheck
          simp only [hsecond]
          exact .head hsized (.head htimed (.single hrecheck))
        · rw [recheck_eq, hsecond] at hrecheck
          simp only [hsecond]
          exact .head hsized (.head htimed (.head hrecheck (readThrough_steps ..)))

end Alone

/-! ## What holds of every entry -/

/-- `P` of every key and its entry, in every shard. -/
def StaticFileCache.Holds (cache : StaticFileCache) (P : Bytes → CacheEntry → Prop) : Prop :=
  ∀ shard ∈ cache.shards, ∀ row ∈ shard.entries, P row.1 row.2

/-- The parameters of the cache are as they were. -/
structure SameSettings (cache cache' : StaticFileCache) : Prop where
  enabled : cache'.enabled = cache.enabled
  maxEntries : cache'.maxEntries = cache.maxEntries
  maxBytes : cache'.maxBytes = cache.maxBytes
  maxFileBytes : cache'.maxFileBytes = cache.maxFileBytes
  revalidateInterval : cache'.revalidateInterval = cache.revalidateInterval
  shardCount : cache'.shards.length = cache.shards.length

theorem SameSettings.trans {a b c : StaticFileCache} (h : SameSettings a b)
    (h' : SameSettings b c) : SameSettings a c where
  enabled := h'.enabled.trans h.enabled
  maxEntries := h'.maxEntries.trans h.maxEntries
  maxBytes := h'.maxBytes.trans h.maxBytes
  maxFileBytes := h'.maxFileBytes.trans h.maxFileBytes
  revalidateInterval := h'.revalidateInterval.trans h.revalidateInterval
  shardCount := h'.shardCount.trans h.shardCount

section Holds

variable {P : Bytes → CacheEntry → Prop} {cache : StaticFileCache} {i : Nat} {key : Bytes}

theorem getD_shard_mem (cache : StaticFileCache) (i : Nat) :
    cache.shards.getD i {} ∈ cache.shards ∨ (cache.shards.getD i {}).entries = [] := by
  rw [List.getD_eq_getElem?_getD]
  cases hget : cache.shards[i]? with
  | none => exact Or.inr rfl
  | some shard => exact Or.inl (List.mem_of_getElem? hget)

theorem StaticFileCache.Holds.mem (h : cache.Holds P) {row : Bytes × CacheEntry}
    (hrow : row ∈ (cache.shards.getD i {}).entries) : P row.1 row.2 := by
  rcases getD_shard_mem cache i with hmem | hempty
  · exact h _ hmem row hrow
  · rw [hempty] at hrow
    cases hrow

theorem StaticFileCache.Holds.lookup (h : cache.Holds P) {entry : CacheEntry}
    (hlookup : (cache.shards.getD i {}).entries.lookup key = some entry) : P key entry :=
  h.mem (mem_of_lookup hlookup)

/-- One shard is replaced by one whose entries are known. -/
theorem StaticFileCache.Holds.set (h : cache.Holds P) {cache' : StaticFileCache} {shard : Shard}
    (hshards : cache'.shards = cache.shards.set i shard)
    (hshard : ∀ row ∈ shard.entries, P row.1 row.2) : cache'.Holds P := by
  intro other hother
  rw [hshards] at hother
  rcases List.mem_or_eq_of_mem_set hother with hold | hnew
  · exact h other hold
  · rw [hnew]
    exact hshard

theorem StaticFileCache.Holds.recheck (h : cache.Holds P) {cache' : StaticFileCache}
    {entry : CacheEntry} {shard : Shard}
    (hshards : cache'.shards = cache.shards.set i
      { shard with entries := put key entry (cache.shards.getD i {}).entries })
    (hentry : P key entry) : cache'.Holds P := by
  refine h.set hshards fun row hrow => ?_
  rcases mem_put hrow with hnew | hold
  · rw [hnew]
    exact hentry
  · exact h.mem hold

/-- The loop removes entries and changes three counters. -/
theorem evictLoop_frame (shardMaxEntries shardMaxBytes fuel : Nat) (shard : Shard)
    (cache : StaticFileCache) :
    let out := StaticFileCache.evictLoop shardMaxEntries shardMaxBytes fuel shard cache
    (∀ row ∈ out.1.entries, row ∈ shard.entries) ∧
      out.2 = { cache with
        bytes := out.2.bytes, entries := out.2.entries, evictions := out.2.evictions } := by
  induction fuel generalizing shard cache with
  | zero => exact ⟨fun row hrow => hrow, rfl⟩
  | succ fuel ih =>
      rw [StaticFileCache.evictLoop]
      split
      · exact ⟨fun row hrow => hrow, rfl⟩
      · split
        · exact ⟨fun row hrow => hrow, rfl⟩
        · obtain ⟨hsub, hsame⟩ := ih _ _
          refine ⟨fun row hrow => List.mem_of_mem_filter (hsub row hrow), ?_⟩
          simp only [] at hsame ⊢
          rw [hsame]

/-- The third section puts the new entry into its shard, removes others from
it, and leaves the other shards and the parameters alone. -/
theorem insert_frame (cache : StaticFileCache) (i : Nat) (key : Bytes)
    (file : CachedStaticFile) (modified now : Int) :
    SameSettings cache (cache.insert i key file modified now) ∧
      ∃ shard, (cache.insert i key file modified now).shards = cache.shards.set i shard ∧
        ∀ row ∈ shard.entries, row ∈ put key
          { file := file, modified := modified, validatedAt := now, lastAccess := cache.clock + 1 }
          (cache.shards.getD i {}).entries := by
  obtain ⟨hsub, hsame⟩ := evictLoop_frame
    (StaticFileCache.shardLimit cache.maxEntries cache.shards.length)
    (StaticFileCache.shardLimit cache.maxBytes cache.shards.length)
    ((cache.place i key file modified now).1.entries.length + 1)
    (cache.place i key file modified now).1 (cache.place i key file modified now).2
  rw [StaticFileCache.insert]
  simp only [StaticFileCache.evictIfNeeded]
  rw [hsame]
  exact ⟨⟨rfl, rfl, rfl, rfl, rfl, List.length_set⟩, _, rfl, hsub⟩

theorem StaticFileCache.Holds.insert (h : cache.Holds P) {file : CachedStaticFile}
    {modified now : Int}
    (hnew : P key
      { file := file, modified := modified, validatedAt := now, lastAccess := cache.clock + 1 }) :
    (cache.insert i key file modified now).Holds P := by
  obtain ⟨-, shard, hshards, hsub⟩ := insert_frame cache i key file modified now
  refine h.set hshards fun row hrow => ?_
  rcases mem_put (hsub row hrow) with hrow | hold
  · rw [hrow]
    exact hnew
  · exact h.mem hold

/-- No step of a call changes a parameter. -/
theorem sameSettings_step {hash : Bytes → Nat} {cache' : StaticFileCache}
    {phase phase' : GetPhase} {access : GetAccess}
    (h : GetStep hash cache phase access cache' phase') : SameSettings cache cache' := by
  cases h with
  | call path now => exact ⟨rfl, rfl, rfl, rfl, rfl, rfl⟩
  | look path now =>
      obtain ⟨entry, -, -, hfound⟩ | hnone := look_cases cache hash path now
      · rw [hfound]
        exact ⟨rfl, rfl, rfl, rfl, rfl, rfl⟩
      · rw [hnone]
        exact ⟨rfl, rfl, rfl, rfl, rfl, rfl⟩
  | fileSize path now answer => exact ⟨rfl, rfl, rfl, rfl, rfl, rfl⟩
  | lastWriteTime path now size answer => exact ⟨rfl, rfl, rfl, rfl, rfl, rfl⟩
  | recheck path now size modified =>
      obtain ⟨entry, -, -, -, hfound⟩ | hnone := recheck_cases cache hash path now size modified
      · rw [hfound]
        exact ⟨rfl, rfl, rfl, rfl, rfl, List.length_set⟩
      · rw [hnone]
        exact ⟨rfl, rfl, rfl, rfl, rfl, rfl⟩
  | content path now size modified answer =>
      rw [(fetch_cases cache path now size modified answer).1]
      exact ⟨rfl, rfl, rfl, rfl, rfl, rfl⟩
  | insert path now file modified => exact (insert_frame ..).1
  | back path now result => exact ⟨rfl, rfl, rfl, rfl, rfl, rfl⟩

end Holds

end HydrogenHttpd.Ref
