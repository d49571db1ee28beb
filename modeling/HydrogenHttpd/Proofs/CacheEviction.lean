import HydrogenHttpd.Proofs.CacheBudget

/-!
# What an insertion leaves of a shard

The victims of the eviction loop are the oldest entries, one after the other,
until the shard is within its limits. As every insertion gives out a stamp that
no entry of the shard has (`Stamped`), the order of the stamps is strict, and
the loop can be read off the shard it starts with: an entry goes if and only if
it and the entries with a later stamp are over the limits together
(`evictLoop_kept`).

The entry just inserted has the last stamp. So it goes if it is over the limits
all by itself, and then everything has gone before it.
-/

namespace HydrogenHttpd.Ref

open Base
open StaticFileCache (oldestEntry evictLoop shardLimit)

/-- What a shard holds. -/
abbrev CacheRows := List (Bytes × CacheEntry)

/-- What makes `evictIfNeeded` go on. -/
def OverBudget (maxEntries maxBytes : Nat) (rows : CacheRows) : Prop :=
  maxEntries < rows.length ∨ maxBytes < (rows.map fun row => row.2.file.size).sum

instance (maxEntries maxBytes : Nat) (rows : CacheRows) :
    Decidable (OverBudget maxEntries maxBytes rows) := inferInstanceAs (Decidable (_ ∨ _))

/-- An entry and those with a later stamp. -/
def stampedFrom (rows : CacheRows) (row : Bytes × CacheEntry) : CacheRows :=
  rows.filter fun other => row.2.lastAccess ≤ other.2.lastAccess

theorem OverBudget.mono {maxEntries maxBytes : Nat} {rows rows' : CacheRows}
    (h : OverBudget maxEntries maxBytes rows) (hsub : rows.Sublist rows') :
    OverBudget maxEntries maxBytes rows' := by
  rcases h with h | h
  · exact Or.inl (h.trans_le hsub.length_le)
  · exact Or.inr (h.trans_le ((hsub.map _).sum_le_sum fun _ _ => Nat.zero_le _))

/-- An entry with an earlier stamp has more entries from it on. -/
theorem stampedFrom_sublist {rows : CacheRows} {a b : Bytes × CacheEntry}
    (h : a.2.lastAccess ≤ b.2.lastAccess) :
    (stampedFrom rows b).Sublist (stampedFrom rows a) := by
  refine List.monotone_filter_right rows fun row hrow => ?_
  simp only [decide_eq_true_eq] at hrow ⊢
  exact h.trans hrow

/-! ## The loop -/

/-- The victim is the oldest. -/
theorem oldestEntry_le {rows : CacheRows} {victim : Option (Bytes × CacheEntry)}
    {row : Bytes × CacheEntry} (h : oldestEntry rows victim = some row) :
    (∀ other ∈ rows, row.2.lastAccess ≤ other.2.lastAccess) ∧
      ∀ v, victim = some v → row.2.lastAccess ≤ v.2.lastAccess := by
  induction rows generalizing victim with
  | nil =>
      rw [oldestEntry] at h
      subst h
      exact ⟨by simp, fun v hv => (Option.some.inj hv) ▸ le_refl _⟩
  | cons first rest ih =>
      cases victim with
      | none =>
          rw [oldestEntry] at h
          obtain ⟨hrest, hfirst⟩ := ih h
          refine ⟨fun other hother => ?_, by simp⟩
          rcases List.mem_cons.mp hother with rfl | hother
          · exact hfirst _ rfl
          · exact hrest other hother
      | some victim =>
          rw [oldestEntry] at h
          split at h
          · next hless =>
              obtain ⟨hrest, hfirst⟩ := ih h
              have hle := hfirst _ rfl
              refine ⟨fun other hother => ?_, fun v hv => ?_⟩
              · rcases List.mem_cons.mp hother with rfl | hother
                · exact hle
                · exact hrest other hother
              · cases hv
                omega
          · next hless =>
              obtain ⟨hrest, hvictim⟩ := ih h
              have hle := hvictim _ rfl
              refine ⟨fun other hother => ?_, fun v hv => ?_⟩
              · rcases List.mem_cons.mp hother with rfl | hother
                · omega
                · exact hrest other hother
              · cases hv
                exact hle

/-- What the loop leaves: the entries that fit together with all later ones. -/
theorem evictLoop_kept {maxEntries maxBytes fuel : Nat} {shard : Shard} {cache : StaticFileCache}
    (h : shard.Accounted) (hstamps : (shard.entries.map (·.2.lastAccess)).Nodup)
    (hfuel : shard.entries.length < fuel) {row : Bytes × CacheEntry} :
    row ∈ (evictLoop maxEntries maxBytes fuel shard cache).1.entries ↔
      row ∈ shard.entries ∧ ¬ OverBudget maxEntries maxBytes (stampedFrom shard.entries row) := by
  induction fuel generalizing shard cache with
  | zero => omega
  | succ fuel ih =>
      rw [evictLoop]
      split
      · next hend =>
          refine ⟨fun hrow => ⟨hrow, fun hover => ?_⟩, And.left⟩
          have hall : OverBudget maxEntries maxBytes shard.entries :=
            hover.mono List.filter_sublist
          rw [OverBudget, ← h.bytes] at hall
          rcases hend with hempty | hwithin
          · rw [hempty] at hrow
            cases hrow
          · omega
      · next hmore =>
          obtain ⟨victim, hvictim⟩ := oldestEntry_isSome none
            (Or.inl fun hempty => hmore (Or.inl hempty))
          have hmem : victim ∈ shard.entries := (oldestEntry_mem hvictim).resolve_right (by simp)
          have holdest := (oldestEntry_le hvictim).1
          have hless : (shard.entries.filter (·.1 ≠ victim.1)).length < fuel := by
            have hdrop : (shard.entries.filter (·.1 ≠ victim.1)).length < shard.entries.length :=
              List.length_filter_lt_length_iff_exists.mpr ⟨_, hmem, by simp⟩
            omega
          have hsum := sum_erase_key (fun row => row.2.file.size) h.nodup hmem
          have haccounted : Shard.Accounted
              { entries := shard.entries.filter (·.1 ≠ victim.1)
                bytes := shard.bytes - victim.2.file.size } :=
            ⟨h.nodup.sublist (List.filter_sublist.map _), by
              have hbytes := h.bytes
              simp only []
              omega⟩
          have hrest := @ih
            { entries := shard.entries.filter (·.1 ≠ victim.1)
              bytes := shard.bytes - victim.2.file.size }
            { cache with
              bytes := cache.bytes - victim.2.file.size
              entries := cache.entries - 1
              evictions := cache.evictions + 1 } haccounted
            (hstamps.sublist (List.filter_sublist.map _)) hless
          rw [hvictim]
          simp only []
          rw [hrest]
          -- the victim goes, and the rows counted for another do not include it
          have hover : OverBudget maxEntries maxBytes (stampedFrom shard.entries victim) := by
            have hall : stampedFrom shard.entries victim = shard.entries :=
              List.filter_eq_self.mpr fun other hother => by simpa using holdest other hother
            rw [hall, OverBudget, ← h.bytes]
            rw [not_or, not_and_or, Nat.not_le, Nat.not_le] at hmore
            exact hmore.2
          have hsame : ∀ row ∈ shard.entries, row.1 ≠ victim.1 →
              stampedFrom (shard.entries.filter (·.1 ≠ victim.1)) row =
                stampedFrom shard.entries row := by
            intro row hrow hne
            rw [stampedFrom, stampedFrom, List.filter_filter]
            refine List.filter_congr fun other hother => ?_
            rw [Bool.and_eq_left_iff_imp]
            intro hle
            simp only [decide_eq_true_eq, ne_eq] at hle ⊢
            intro hkey
            have hvic : other = victim := List.inj_on_of_nodup_map h.nodup hother hmem hkey
            rw [hvic] at hle
            have hequal : row = victim := List.inj_on_of_nodup_map hstamps hrow hmem
              (Nat.le_antisymm hle (holdest row hrow))
            exact hne (congrArg Prod.fst hequal)
          rw [List.mem_filter]
          constructor
          · rintro ⟨⟨hrow, hne⟩, hfits⟩
            rw [hsame row hrow (by simpa using hne)] at hfits
            exact ⟨hrow, hfits⟩
          · rintro ⟨hrow, hfits⟩
            have hne : row.1 ≠ victim.1 := by
              intro hkey
              rw [List.inj_on_of_nodup_map h.nodup hrow hmem hkey] at hfits
              exact hfits hover
            rw [hsame row hrow hne]
            exact ⟨⟨hrow, by simpa using hne⟩, hfits⟩

theorem evictLoop_sublist (maxEntries maxBytes fuel : Nat) (shard : Shard)
    (cache : StaticFileCache) :
    (evictLoop maxEntries maxBytes fuel shard cache).1.entries.Sublist shard.entries := by
  induction fuel generalizing shard cache with
  | zero => exact List.Sublist.refl _
  | succ fuel ih =>
      rw [evictLoop]
      split
      · exact List.Sublist.refl _
      · split
        · exact List.Sublist.refl _
        · exact (ih _ _).trans List.filter_sublist

/-! ## The stamps -/

/-- The stamps of a shard are different, and none is ahead of the clock. -/
structure Stamped (cache : StaticFileCache) : Prop where
  distinct : ∀ shard ∈ cache.shards, (shard.entries.map (·.2.lastAccess)).Nodup
  past : cache.Holds fun _ entry => entry.lastAccess ≤ cache.clock

section Stamped

variable {cache : StaticFileCache} {i : Nat} {key : Bytes}

theorem Stamped.shard_distinct (h : Stamped cache) (i : Nat) :
    ((cache.shards.getD i {}).entries.map (·.2.lastAccess)).Nodup := by
  rcases getD_shard_mem cache i with hmem | hempty
  · exact h.distinct _ hmem
  · rw [hempty]
    exact List.nodup_nil

theorem Stamped.of_same {cache' : StaticFileCache} (h : Stamped cache)
    (hshards : cache'.shards = cache.shards) (hclock : cache'.clock = cache.clock) :
    Stamped cache' where
  distinct := hshards ▸ h.distinct
  past := by
    intro shard hshard
    rw [hclock]
    exact h.past shard (hshards ▸ hshard)

/-- A validation gives out no stamp. -/
theorem stamped_recheck {hash : Bytes → Nat} (h : Stamped cache) (path : Path) (now : Int)
    (size : Nat) (modified : Int) : Stamped (cache.recheck hash path now size modified).2 := by
  obtain ⟨entry, hlookup, -, -, hfound⟩ | hnone := recheck_cases cache hash path now size modified
  · rw [hfound]
    refine ⟨?_, ?_⟩
    · intro shard hshard
      rcases List.mem_or_eq_of_mem_set hshard with hold | hnew
      · exact h.distinct shard hold
      · rw [hnew]
        have hmap := map_put_of_lookup (fun row : Bytes × CacheEntry => row.2.lastAccess) hlookup
          (v := { entry with validatedAt := now }) rfl
        simp only []
        rw [hmap]
        exact h.shard_distinct _
    · have hentry : entry.lastAccess ≤ cache.clock := h.past.lookup hlookup
      exact h.past.recheck rfl hentry
  · rw [hnone]
    exact h

/-- An insertion gives out the next one. -/
theorem stamped_place (h : Stamped cache) (file : CachedStaticFile) (modified now : Int) :
    ((cache.place i key file modified now).1.entries.map (·.2.lastAccess)).Nodup := by
  rw [StaticFileCache.place]
  refine nodup_map_put (fun e : CacheEntry => e.lastAccess) (h.shard_distinct i) ?_
  intro hmem
  obtain ⟨row, hrow, hstamp⟩ := List.mem_map.mp hmem
  have hpast := h.past.mem hrow
  simp only [] at hstamp
  omega

/-- What an insertion does: the clock goes on, one shard gets the new entry, and
of that shard an entry stays if it fits with all later ones. -/
theorem insert_kept (haccounted : cache.Accounted) (h : Stamped cache)
    (hi : i < cache.shards.length) (file : CachedStaticFile) (modified now : Int) :
    (cache.insert i key file modified now).clock = cache.clock + 1 ∧
      ∃ shard, (cache.insert i key file modified now).shards = cache.shards.set i shard ∧
        shard.entries.Sublist (cache.place i key file modified now).1.entries ∧
        ∀ row, row ∈ shard.entries ↔
          row ∈ (cache.place i key file modified now).1.entries ∧
            ¬ OverBudget (shardLimit cache.maxEntries cache.shards.length)
              (shardLimit cache.maxBytes cache.shards.length)
              (stampedFrom (cache.place i key file modified now).1.entries row) := by
  obtain ⟨restBytes, restEntries, hbalanced, -⟩ := balanced_of_accounted haccounted hi
  have hplaced : (cache.place i key file modified now).1.Accounted :=
    (balanced_place hbalanced).own
  have hsame := (evictLoop_frame (shardLimit cache.maxEntries cache.shards.length)
    (shardLimit cache.maxBytes cache.shards.length)
    ((cache.place i key file modified now).1.entries.length + 1)
    (cache.place i key file modified now).1 (cache.place i key file modified now).2).2
  rw [StaticFileCache.insert]
  simp only [StaticFileCache.evictIfNeeded]
  rw [hsame]
  exact ⟨rfl, _, rfl, evictLoop_sublist .., fun row =>
    evictLoop_kept hplaced (stamped_place h file modified now) (Nat.lt_succ_self _)⟩

theorem stamped_insert (haccounted : cache.Accounted) (h : Stamped cache)
    (hi : i < cache.shards.length) (file : CachedStaticFile) (modified now : Int) :
    Stamped (cache.insert i key file modified now) := by
  obtain ⟨hclock, shard, hshards, hsub, -⟩ := @insert_kept cache i key haccounted h hi file
    modified now
  refine ⟨?_, ?_⟩
  · intro other hother
    rw [hshards] at hother
    rcases List.mem_or_eq_of_mem_set hother with hold | hnew
    · exact h.distinct other hold
    · rw [hnew]
      exact (stamped_place h file modified now).sublist (hsub.map _)
  · rw [hclock]
    have hpast : cache.Holds fun _ entry => entry.lastAccess ≤ cache.clock + 1 :=
      fun other hother row hrow => (h.past other hother row hrow).trans (Nat.le_succ _)
    exact hpast.insert (le_refl _)

end Stamped

section Runs

variable {ι : Type} [DecidableEq ι] {hash : Bytes → Nat} {cache : StaticFileCache}

theorem construct_entries (enabled : Bool)
    (shardCount maxEntries maxBytes maxFileBytes milliseconds i : Nat) :
    ((StaticFileCache.construct enabled shardCount maxEntries maxBytes maxFileBytes
      milliseconds).shards.getD i {}).entries = [] := by
  rcases getD_shard_mem (StaticFileCache.construct enabled shardCount maxEntries maxBytes
    maxFileBytes milliseconds) i with hmem | hnone
  · rw [List.eq_of_mem_replicate hmem]
  · rw [hnone]

theorem stamped_construct (enabled : Bool)
    (shardCount maxEntries maxBytes maxFileBytes milliseconds : Nat) :
    Stamped (StaticFileCache.construct enabled shardCount maxEntries maxBytes maxFileBytes
      milliseconds) := by
  have hempty : ∀ shard ∈ List.replicate (max 1 shardCount) ({} : Shard), shard = {} :=
    fun shard hshard => List.eq_of_mem_replicate hshard
  refine ⟨fun shard hshard => ?_, fun shard hshard row hrow => ?_⟩
  · rw [hempty shard hshard]
    exact List.nodup_nil
  · rw [hempty shard hshard] at hrow
    cases hrow

theorem stamped_step {cache' : StaticFileCache} {phase phase' : GetPhase} {access : GetAccess}
    (hbooks : Books cache) (h : Stamped cache)
    (hstep : GetStep hash cache phase access cache' phase') : Stamped cache' := by
  cases hstep with
  | call path now => exact h
  | look path now =>
      obtain ⟨entry, -, -, hfound⟩ | hnone := look_cases cache hash path now
      · rw [hfound]
        exact h.of_same rfl rfl
      · rw [hnone]
        exact h
  | fileSize path now answer => exact h
  | lastWriteTime path now size answer => exact h
  | recheck path now size modified => exact stamped_recheck h path now size modified
  | content path now size modified answer =>
      rw [(fetch_cases cache path now size modified answer).1]
      exact h.of_same rfl rfl
  | insert path now file modified =>
      exact stamped_insert hbooks.accounted h (shardIndex_lt hbooks _) file modified now
  | back path now result => exact h

theorem stamped_run {s : CacheState ι}
    (h : Reachable CacheState.Initial (CacheStep hash) s) : Stamped s.cache := by
  induction h with
  | start hs =>
      obtain ⟨enabled, shardCount, maxEntries, maxBytes, maxFileBytes, milliseconds, hcache, -⟩ :=
        hs
      rw [hcache]
      exact stamped_construct ..
  | step hrun hstep ih =>
      cases hstep with
      | thread i access cache phase hget => exact stamped_step (books_run hrun).1 ih hget

end Runs

/-! ## Whole calls -/

section Calls

variable (cache : StaticFileCache) (hash : Bytes → Nat) (files : Files) (path : Path) (now : Int)

/-- What `get` leaves: an entry was found, and validated again or not; or
nothing is kept; or an entry is inserted. -/
theorem get_outcome :
    (∃ entry, (cache.shards.getD (cache.shardIndex hash path.toBytes) {}).entries.lookup
        path.toBytes = some entry ∧
      ((cache.get files hash now path).2 = { cache with hits := cache.hits + 1 } ∨
        (cache.get files hash now path).2 = { cache with
          shards := cache.shards.set (cache.shardIndex hash path.toBytes)
            { cache.shards.getD (cache.shardIndex hash path.toBytes) {} with
              entries := put path.toBytes { entry with validatedAt := now }
                (cache.shards.getD (cache.shardIndex hash path.toBytes) {}).entries }
          hits := cache.hits + 1 })) ∨
    files.fileSize path = none ∧ (cache.get files hash now path).2 = cache ∨
    ∃ size, files.fileSize path = some size ∧
      ((StaticFileCache.readBody (files.content path) size = none ∨ cache.Uncacheable size) ∧
          (cache.get files hash now path).2 = { cache with misses := cache.misses + 1 } ∨
        ∃ body modified, StaticFileCache.readBody (files.content path) size = some body ∧
          (cache.get files hash now path).2 =
            { cache with misses := cache.misses + 1 }.insert
              (cache.shardIndex hash path.toBytes) path.toBytes
              { body := body, etag := makeEtag size modified, size := size } modified now) := by
  rw [StaticFileCache.get]
  obtain ⟨entry, hlookup, -, hfound⟩ | hnone := firstSection cache hash path now
  · simp only [hfound]
    exact Or.inl ⟨entry, hlookup, Or.inl trivial⟩
  · simp only [hnone]
    cases hsize : files.fileSize path with
    | none => exact Or.inr (Or.inl ⟨rfl, rfl⟩)
    | some size =>
        simp only []
        obtain ⟨entry, hlookup, -, -, hfound⟩ | hmiss := secondSection cache hash path now size
          ((files.lastWriteTime path).getD minFileTime)
        · simp only [hfound]
          exact Or.inl ⟨entry, hlookup, Or.inr rfl⟩
        · simp only [hmiss]
          refine Or.inr (Or.inr ⟨size, rfl, ?_⟩)
          rw [StaticFileCache.readThrough]
          cases hbody : StaticFileCache.readBody (files.content path) size with
          | none => exact Or.inl ⟨Or.inl rfl, rfl⟩
          | some body =>
              simp only []
              split
              · next hout => exact Or.inl ⟨Or.inr hout, rfl⟩
              · exact Or.inr ⟨body, (files.lastWriteTime path).getD minFileTime, rfl, rfl⟩

end Calls

/-! ## A miss -/

/-- The entries of a shard that are as old as `row` or later, but for the one
under `key`. -/
def othersFrom (key : Bytes) (rows : CacheRows) (row : Bytes × CacheEntry) : CacheRows :=
  rows.filter fun other => other.1 ≠ key ∧ row.2.lastAccess ≤ other.2.lastAccess

/-- The file is in the cache behind the call, and what else has gone from its
shard did not fit into the shard's budget any more, together with the file and
what was inserted later. No other shard has lost an entry. -/
structure StaysCached (hash : Bytes → Nat) (cache cache' : StaticFileCache) (path : Path)
    (content : Bytes) : Prop where
  kept : ∃ entry, (cache'.shards.getD (cache.shardIndex hash path.toBytes) {}).entries.lookup
    path.toBytes = some entry ∧ entry.file.body = content
  needed : ∀ j, ∀ row ∈ (cache.shards.getD j {}).entries,
    row ∉ (cache'.shards.getD j {}).entries → row.1 ≠ path.toBytes →
      j = cache.shardIndex hash path.toBytes ∧
      (shardLimit cache.maxEntries cache.shards.length <
          (othersFrom path.toBytes (cache.shards.getD j {}).entries row).length + 1 ∨
        shardLimit cache.maxBytes cache.shards.length <
          ((othersFrom path.toBytes (cache.shards.getD j {}).entries row).map
            fun other => other.2.file.size).sum + content.length)

section Miss

variable {cache : StaticFileCache} {i : Nat} {key : Bytes}

/-- The entry that `place` puts. -/
abbrev newEntry (cache : StaticFileCache) (file : CachedStaticFile) (modified now : Int) :
    CacheEntry :=
  { file := file, modified := modified, validatedAt := now, lastAccess := cache.clock + 1 }

theorem nodup_keys_shard (hbooks : Books cache) (i : Nat) :
    ((cache.shards.getD i {}).entries.map (·.1)).Nodup := by
  rcases getD_shard_mem cache i with hmem | hempty
  · exact (hbooks.accounted.shards _ hmem).nodup
  · rw [hempty]
    exact List.nodup_nil

/-- The entries from a stamp on, behind `place`. -/
theorem stampedFrom_place (hbooks : Books cache) (file : CachedStaticFile) (modified now : Int)
    {row : Bytes × CacheEntry} (hrow : row.2.lastAccess ≤ cache.clock + 1) :
    (stampedFrom (cache.place i key file modified now).1.entries row).Perm
      ((key, newEntry cache file modified now) ::
        othersFrom key (cache.shards.getD i {}).entries row) := by
  have hput := (put_perm (k := key) (v := newEntry cache file modified now)
    (nodup_keys_shard hbooks i)).filter fun other => row.2.lastAccess ≤ other.2.lastAccess
  rw [List.filter_cons_of_pos (by simpa using hrow), List.filter_filter] at hput
  refine hput.trans (List.Perm.of_eq (congrArg _ (List.filter_congr fun other _ => ?_)))
  rw [Bool.decide_and, Bool.and_comm]

/-- The new entry is the only one with its stamp or a later one. -/
theorem othersFrom_new (h : Stamped cache) (file : CachedStaticFile) (modified now : Int) :
    othersFrom key (cache.shards.getD i {}).entries (key, newEntry cache file modified now) =
      [] := by
  rw [othersFrom, List.filter_eq_nil_iff]
  intro other hother
  have hpast := h.past.mem hother
  simp only [decide_eq_true_eq, not_and]
  intro _
  omega

/-- A file that is inserted stays if and only if it alone is within its shard's
budget. -/
theorem staysCached_insert_iff {hash : Bytes → Nat} {path : Path} (hbooks : Books cache)
    (h : Stamped cache) {file : CachedStaticFile} {content : Bytes} (hbody : file.body = content)
    (hsize : file.size = content.length) (modified now : Int) :
    StaysCached hash cache
        (cache.insert (cache.shardIndex hash path.toBytes) path.toBytes file modified now) path
        content ↔
      content.length ≤ shardLimit cache.maxBytes cache.shards.length := by
  have hi := @shardIndex_lt hash _ hbooks path.toBytes
  obtain ⟨-, shard, hshards, hsub, hkept⟩ := @insert_kept cache _ path.toBytes hbooks.accounted h
    hi file modified now
  have hplace : (cache.place (cache.shardIndex hash path.toBytes) path.toBytes file modified
      now).1.entries = put path.toBytes (newEntry cache file modified now)
        (cache.shards.getD (cache.shardIndex hash path.toBytes) {}).entries := rfl
  have hshard : (cache.insert (cache.shardIndex hash path.toBytes) path.toBytes file modified
      now).shards.getD (cache.shardIndex hash path.toBytes) {} = shard := by
    rw [hshards]
    simp [List.getD_eq_getElem?_getD, hi]
  have hnew : (path.toBytes, newEntry cache file modified now) ∈ shard.entries ↔
      content.length ≤ shardLimit cache.maxBytes cache.shards.length := by
    have hpos : 1 ≤ shardLimit cache.maxEntries cache.shards.length := Nat.le_max_left _ _
    have hmem := mem_put_self path.toBytes (newEntry cache file modified now)
      (cache.shards.getD (cache.shardIndex hash path.toBytes) {}).entries
    rw [hkept, OverBudget, (stampedFrom_place hbooks file modified now (le_refl _)).length_eq,
      ((stampedFrom_place hbooks file modified now (le_refl _)).map _).sum_eq, othersFrom_new h,
      hplace]
    simp only [hmem, true_and, List.length_singleton, List.map_cons, List.map_nil, List.sum_cons,
      List.sum_nil, hsize, add_zero]
    omega
  have hkeys := nodup_keys_shard hbooks (cache.shardIndex hash path.toBytes)
  constructor
  · rintro ⟨⟨entry, hlookup, -⟩, -⟩
    rw [hshard] at hlookup
    have hmem := mem_of_lookup hlookup
    have hplaced := ((hkept _).mp hmem).1
    rw [hplace, mem_put_iff hkeys] at hplaced
    rcases hplaced with hsame | ⟨-, hne⟩
    · exact hnew.mp (hsame ▸ hmem)
    · exact absurd rfl hne
  · intro hfits
    refine ⟨⟨newEntry cache file modified now, ?_, hbody⟩, ?_⟩
    · rw [hshard, lookup_eq_some_iff ((nodup_keys_put hkeys).sublist (hsub.map _))]
      exact hnew.mpr hfits
    · intro j row hrow hgone hne
      by_cases hj : j = cache.shardIndex hash path.toBytes
      · subst hj
        rw [hshard, hkept, hplace, not_and_not_right] at hgone
        have hover := hgone (mem_put_of_ne hrow hne)
        have hpast : row.2.lastAccess ≤ cache.clock := h.past.mem hrow
        have hperm := @stampedFrom_place cache (cache.shardIndex hash path.toBytes) path.toBytes
          hbooks file modified now row (hpast.trans (Nat.le_succ _))
        rw [hplace] at hperm
        rw [OverBudget, hperm.length_eq, (hperm.map _).sum_eq] at hover
        simp only [List.length_cons, List.map_cons, List.sum_cons, hsize] at hover
        refine ⟨rfl, hover.imp_right fun hbytes => ?_⟩
        omega
      · refine absurd ?_ hgone
        rw [hshards, List.getD_eq_getElem?_getD, List.getElem?_set_ne (Ne.symm hj),
          ← List.getD_eq_getElem?_getD]
        exact hrow

end Miss

/-- What the loader has checked of the cache. -/
theorem load_cacheLimits {env : ConfigEnv} {confPath : Path} {config : ServerConfig}
    (hload : ConfigLoader.load env confPath = .ok config) :
    config.staticCacheShards ≠ 0 ∧
      (config.enableStaticCache = true →
        config.staticCacheMaxEntries ≠ 0 ∧ config.staticCacheMaxBytes ≠ 0) ∧
      config.staticCacheMaxFileBytes ≤ config.staticCacheMaxBytes := by
  have hfaults := load_faultless hload
  have hcount := hfaults
    (config.staticCacheShards == 0, bytes "static_cache_shards must be greater than 0")
    (by simp [configFaults])
  have hlimits := hfaults
    (config.enableStaticCache && (config.staticCacheMaxEntries == 0 || config.staticCacheMaxBytes == 0),
      bytes "static cache limits must be greater than 0 when enabled") (by simp [configFaults])
  have hsmall := hfaults
    (decide (config.staticCacheMaxFileBytes > config.staticCacheMaxBytes),
      bytes "static_cache_max_file_bytes must be <= static_cache_max_bytes")
    (by simp [configFaults])
  simp only [beq_eq_false_iff_ne, Bool.and_eq_false_iff, Bool.or_eq_false_iff,
    decide_eq_false_iff_not, Nat.not_lt] at hcount hlimits hsmall
  refine ⟨hcount, fun hon => ?_, hsmall⟩
  exact hlimits.resolve_left (by simp [hon])

/-- A file of five bytes, and a cache that is set up to keep files of up to eight. -/
def eightByteConf : Bytes :=
  bytes "static_cache_shards = 2\nstatic_cache_max_bytes = 8\nstatic_cache_max_file_bytes = 8\n"

def eightByteEnv : ConfigEnv := { content := fun _ => some eightByteConf }

def eightByteConfig : ServerConfig :=
  chooseWorkers eightByteEnv (resolvePaths statusConfPath.parentPath
    { staticCacheShards := 2, staticCacheMaxBytes := 8, staticCacheMaxFileBytes := 8 })

end HydrogenHttpd.Ref
