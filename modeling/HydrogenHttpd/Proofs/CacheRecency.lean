import HydrogenHttpd.Proofs.CacheEviction

/-!
# Which files are evicted

`lastAccess` is written when an entry is inserted and never again: a hit leaves
it as it is, on the fast path and on the way through the validation. So the
entry that goes first is the one that was inserted first.

That is the entry whose last `get` is the longest ago as long as every call that
hits asks for the entry of its shard that was inserted last: then the order of
the stamps is the order of the calls (`Recent`).
-/

namespace HydrogenHttpd.Ref

open Base
open StaticFileCache (shardLimit)

/-- A cache, with the calls so far and when each key was asked for last. -/
structure CacheHistory where
  cache : StaticFileCache
  calls : Nat := 0
  lastGet : Bytes → Nat := fun _ => 0

def CacheHistory.Initial (s : CacheHistory) : Prop :=
  ∃ enabled shardCount maxEntries maxBytes maxFileBytes revalidateMilliseconds,
    s = { cache := StaticFileCache.construct enabled shardCount maxEntries maxBytes maxFileBytes
            revalidateMilliseconds }

def CacheHistory.get (s : CacheHistory) (files : Files) (hash : Bytes → Nat) (now : Int)
    (path : Path) : CacheHistory :=
  { cache := (s.cache.get files hash now path).2
    calls := s.calls + 1
    lastGet := Function.update s.lastGet path.toBytes (s.calls + 1) }

/-- One call after the other, on files that do not change. -/
inductive GetCall (files : Files) (hash : Bytes → Nat)
    (Allowed : StaticFileCache → Path → Prop) : CacheHistory → CacheHistory → Prop where
  | get (s : CacheHistory) (now : Int) (path : Path) (h : Allowed s.cache path) :
      GetCall files hash Allowed s (s.get files hash now path)

def StaticFileCache.keysOf (cache : StaticFileCache) (j : Nat) : List Bytes :=
  (cache.shards.getD j {}).entries.map (·.1)

/-- The key was in the shard or has just been inserted, and is not there any more. -/
def Evicted (hash : Bytes → Nat) (cache cache' : StaticFileCache) (path : Path) (j : Nat)
    (key : Bytes) : Prop :=
  (key ∈ cache.keysOf j ∨
      cache'.clock ≠ cache.clock ∧ j = cache.shardIndex hash path.toBytes ∧ key = path.toBytes) ∧
    key ∉ cache'.keysOf j

instance (hash : Bytes → Nat) (cache cache' : StaticFileCache) (path : Path) (j : Nat)
    (key : Bytes) : Decidable (Evicted hash cache cache' path j key) :=
  inferInstanceAs (Decidable ((_ ∨ _ ∧ _ ∧ _) ∧ _))

/-- Whatever the call evicts from a shard was asked for before whatever it
leaves there. -/
def EvictsLeastRecent (hash : Bytes → Nat) (path : Path) (s s' : CacheHistory) : Prop :=
  ∀ j e f, Evicted hash s.cache s'.cache path j e → f ∈ s'.cache.keysOf j →
    s'.lastGet e < s'.lastGet f

/-- An entry under this key is the one of its shard that was inserted last. -/
def HitsNewest (hash : Bytes → Nat) (cache : StaticFileCache) (path : Path) : Prop :=
  ∀ row ∈ (cache.shards.getD (cache.shardIndex hash path.toBytes) {}).entries,
    row.1 = path.toBytes →
    ∀ other ∈ (cache.shards.getD (cache.shardIndex hash path.toBytes) {}).entries,
      other.2.lastAccess ≤ row.2.lastAccess

instance (hash : Bytes → Nat) (cache : StaticFileCache) (path : Path) :
    Decidable (HitsNewest hash cache path) :=
  inferInstanceAs (Decidable (∀ row ∈ _, _ → ∀ other ∈ _, _))

/-- The calls are in the order of the stamps. -/
structure Recent (hash : Bytes → Nat) (s : CacheHistory) : Prop where
  placed : ∀ j, ∀ row ∈ (s.cache.shards.getD j {}).entries, s.cache.shardIndex hash row.1 = j
  ordered : ∀ j, ∀ a ∈ (s.cache.shards.getD j {}).entries,
    ∀ b ∈ (s.cache.shards.getD j {}).entries,
      a.2.lastAccess < b.2.lastAccess → s.lastGet a.1 < s.lastGet b.1
  past : ∀ key, s.lastGet key ≤ s.calls

section Step

variable {files : Files} {hash : Bytes → Nat} {s : CacheHistory} {now : Int} {path : Path}

/-- A call that evicts nothing, or an insertion. -/
theorem get_inserts (cache : StaticFileCache) (files : Files) (hash : Bytes → Nat) (now : Int)
    (path : Path) :
    ((cache.get files hash now path).2.clock = cache.clock ∧
      (cache.get files hash now path).2.shards.length = cache.shards.length ∧
      ∀ j, ((cache.get files hash now path).2.shards.getD j {}).entries.map
          (fun row => (row.1, row.2.lastAccess)) =
        (cache.shards.getD j {}).entries.map fun row => (row.1, row.2.lastAccess)) ∨
    ∃ file modified, (cache.get files hash now path).2 =
      { cache with misses := cache.misses + 1 }.insert (cache.shardIndex hash path.toBytes)
        path.toBytes file modified now := by
  obtain ⟨entry, hlookup, hhit | hhit⟩ | ⟨-, hnone⟩ |
      ⟨size, -, ⟨-, hmiss⟩ | ⟨body, modified, -, hinsert⟩⟩ :=
    get_outcome cache hash files path now
  · rw [hhit]
    exact Or.inl ⟨rfl, rfl, fun _ => rfl⟩
  · rw [hhit]
    refine Or.inl ⟨rfl, List.length_set, fun j => ?_⟩
    simp only [List.getD_eq_getElem?_getD, List.getElem?_set]
    split
    · next hj =>
        split
        · rw [← hj]
          exact map_put_of_lookup (fun row : Bytes × CacheEntry => (row.1, row.2.lastAccess))
            hlookup rfl
        · next hlong => simp [← hj, hlong]
    · rfl
  · rw [hnone]
    exact Or.inl ⟨rfl, rfl, fun _ => rfl⟩
  · rw [hmiss]
    exact Or.inl ⟨rfl, rfl, fun _ => rfl⟩
  · exact Or.inr ⟨_, modified, hinsert⟩

theorem get_shardCount :
    (s.get files hash now path).cache.shards.length = s.cache.shards.length := by
  obtain ⟨-, hcount, -⟩ | ⟨file, modified, hinsert⟩ := get_inserts s.cache files hash now path
  · exact hcount
  · rw [CacheHistory.get, hinsert]
    exact (insert_frame _ _ path.toBytes file modified now).1.shardCount

/-- An entry behind a call was there before, with the same stamp, or is new. -/
theorem row_after (hbooks : Books s.cache) {j : Nat} {row : Bytes × CacheEntry}
    (hrow : row ∈ ((s.get files hash now path).cache.shards.getD j {}).entries) :
    (∃ old ∈ (s.cache.shards.getD j {}).entries,
        old.1 = row.1 ∧ old.2.lastAccess = row.2.lastAccess) ∨
      j = s.cache.shardIndex hash path.toBytes ∧ row.1 = path.toBytes ∧
        row.2.lastAccess = s.cache.clock + 1 := by
  rw [CacheHistory.get] at hrow
  simp only [] at hrow
  obtain ⟨-, -, hsame⟩ | ⟨file, modified, hinsert⟩ := get_inserts s.cache files hash now path
  · have hmem := List.mem_map_of_mem (f := fun row => (row.1, row.2.lastAccess)) hrow
    rw [hsame] at hmem
    obtain ⟨old, hold, hshown⟩ := List.mem_map.mp hmem
    obtain ⟨hkey, hstamp⟩ := Prod.mk.inj hshown
    exact Or.inl ⟨old, hold, hkey, hstamp⟩
  · obtain ⟨-, shard, hshards, hrows⟩ :=
      insert_frame { s.cache with misses := s.cache.misses + 1 }
        (s.cache.shardIndex hash path.toBytes) path.toBytes file modified now
    have hi := @shardIndex_lt hash _ hbooks path.toBytes
    rw [hinsert, hshards, List.getD_eq_getElem?_getD] at hrow
    by_cases hj : s.cache.shardIndex hash path.toBytes = j
    · rw [← hj, List.getElem?_set_self hi, Option.getD_some] at hrow
      rcases mem_put (hrows row hrow) with hnew | hold
      · rw [hnew]
        exact Or.inr ⟨hj.symm, rfl, rfl⟩
      · exact Or.inl ⟨row, hj ▸ hold, rfl, rfl⟩
    · rw [List.getElem?_set_ne hj, ← List.getD_eq_getElem?_getD] at hrow
      exact Or.inl ⟨row, hrow, rfl, rfl⟩

/-- A call that does not hit an older entry keeps the order. -/
theorem recent_get (hbooks : Books s.cache) (hstamped : Stamped s.cache)
    (hbooks' : Books (s.get files hash now path).cache) (h : Recent hash s)
    (hnewest : HitsNewest hash s.cache path) : Recent hash (s.get files hash now path) where
  placed := by
    intro j row hrow
    rw [StaticFileCache.shardIndex, get_shardCount, ← StaticFileCache.shardIndex]
    obtain ⟨old, hold, hkey, -⟩ | ⟨hj, hkey, -⟩ := row_after hbooks hrow
    · rw [← hkey]
      exact h.placed j old hold
    · rw [hkey, hj]
  ordered := by
    intro j a ha b hb hlt
    have hlate : ∀ key, s.lastGet key < s.calls + 1 := fun key => Nat.lt_succ_of_le (h.past key)
    simp only [CacheHistory.get, Function.update_apply]
    obtain ⟨a', ha', hakey, hastamp⟩ | ⟨-, hakey, hastamp⟩ := row_after hbooks ha
    · rw [← hakey]
      rw [← hastamp] at hlt
      obtain ⟨b', hb', hbkey, hbstamp⟩ | ⟨hj, hbkey, -⟩ := row_after hbooks hb
      · -- both were there: the order holds, unless the call asked for the older one
        rw [← hbstamp] at hlt
        have holder : a'.1 ≠ path.toBytes := by
          intro hpath
          have hj : s.cache.shardIndex hash path.toBytes = j := hpath ▸ h.placed j a' ha'
          have hle := hnewest a' (hj.symm ▸ ha') hpath b' (hj.symm ▸ hb')
          omega
        rw [← hbkey, if_neg holder]
        split
        · exact hlate _
        · exact h.ordered j a' ha' b' hb' hlt
      · -- the file asked for is the last one, and there is one entry for it
        have hne : a'.1 ≠ path.toBytes := by
          intro hpath
          have hsame : a = b := List.inj_on_of_nodup_map (nodup_keys_shard hbooks' j) ha hb
            ((hakey.symm.trans hpath).trans hbkey.symm)
          rw [hastamp, hsame] at hlt
          exact lt_irrefl _ hlt
        rw [hbkey, if_neg hne, if_pos rfl]
        exact hlate _
    · have hbpast : b.2.lastAccess ≤ s.cache.clock + 1 := by
        obtain ⟨b', hb', -, hbstamp⟩ | ⟨-, -, hbstamp⟩ := row_after hbooks hb
        · rw [← hbstamp]
          exact (hstamped.past.mem hb').trans (Nat.le_succ _)
        · exact hbstamp.le
      omega
  past := by
    intro key
    simp only [CacheHistory.get, Function.update_apply]
    split
    · exact le_refl _
    · exact (h.past key).trans (Nat.le_succ _)

/-- A row that goes was stamped before one that stays. -/
theorem stamp_lt_of_kept {maxEntries maxBytes : Nat} {rows : CacheRows}
    {e f : Bytes × CacheEntry} (he : OverBudget maxEntries maxBytes (stampedFrom rows e))
    (hf : ¬ OverBudget maxEntries maxBytes (stampedFrom rows f)) :
    e.2.lastAccess < f.2.lastAccess := by
  by_contra hle
  exact hf (he.mono (stampedFrom_sublist (Nat.not_lt.mp hle)))

/-- Where the order holds, the next call evicts in its order. -/
theorem evictsLeastRecent_get (hbooks : Books s.cache) (hstamped : Stamped s.cache)
    (h : Recent hash s) : EvictsLeastRecent hash path s (s.get files hash now path) := by
  rintro j e f ⟨he, hgone⟩ hf
  have hlate : ∀ key, s.lastGet key < s.calls + 1 := fun key => Nat.lt_succ_of_le (h.past key)
  simp only [CacheHistory.get, StaticFileCache.keysOf] at he hgone hf ⊢
  obtain ⟨hclock, -, hsame⟩ | ⟨file, modified, hinsert⟩ := get_inserts s.cache files hash now path
  · -- nothing is evicted
    have hkeys := congrArg (List.map Prod.fst) (hsame j)
    rw [List.map_map, List.map_map] at hkeys
    rcases he with hheld | ⟨hmoved, -⟩
    · exact absurd (hkeys ▸ hheld) hgone
    · exact absurd hclock hmoved
  · have hsettings : SameSettings s.cache { s.cache with misses := s.cache.misses + 1 } :=
      ⟨rfl, rfl, rfl, rfl, rfl, rfl⟩
    have hi := @shardIndex_lt hash _ hbooks path.toBytes
    obtain ⟨-, shard, hshards, hsub, hkept⟩ := @insert_kept
      { s.cache with misses := s.cache.misses + 1 } (s.cache.shardIndex hash path.toBytes)
      path.toBytes (books_of_same hbooks hsettings rfl rfl rfl).accounted
      (hstamped.of_same rfl rfl) hi file modified now
    rw [hinsert, hshards, List.getD_eq_getElem?_getD] at hgone hf
    by_cases hj : s.cache.shardIndex hash path.toBytes = j
    · subst hj
      rw [List.getElem?_set_self hi, Option.getD_some] at hgone hf
      obtain ⟨rowf, hrowf, rfl⟩ := List.mem_map.mp hf
      obtain ⟨hplacedf, hfits⟩ := (hkept rowf).mp hrowf
      have hovere : ∀ row, row.1 = e → row ∈ put path.toBytes
          (newEntry s.cache file modified now)
          (s.cache.shards.getD (s.cache.shardIndex hash path.toBytes) {}).entries →
          row.2.lastAccess < rowf.2.lastAccess := by
        intro row hkey hrow
        refine stamp_lt_of_kept ?_ hfits
        by_contra hstays
        exact hgone (List.mem_map.mpr ⟨row, (hkept row).mpr ⟨hrow, hstays⟩, hkey⟩)
      have hpast : ∀ row ∈ (s.cache.shards.getD (s.cache.shardIndex hash path.toBytes)
          {}).entries, row.2.lastAccess ≤ s.cache.clock := fun row hrow => hstamped.past.mem hrow
      -- the new entry is the last one, so it goes with all others or not at all
      have hold : e ≠ path.toBytes := by
        intro hpath
        have hlt := hovere _ hpath.symm (mem_put_self _ _ _)
        rcases mem_put hplacedf with hnew | hrow
        · rw [hnew] at hlt
          exact lt_irrefl _ hlt
        · have hle := hpast rowf hrow
          simp only [] at hlt
          omega
      obtain ⟨rowe, hrowe, hkey⟩ := List.mem_map.mp (he.resolve_right fun hnew => hold hnew.2.2)
      have hlt := hovere rowe hkey (mem_put_of_ne hrowe (hkey.symm ▸ hold))
      rw [Function.update_of_ne hold, Function.update_apply]
      split
      · exact hlate e
      · next hother =>
          rcases mem_put hplacedf with hnew | hrow
          · exact absurd (congrArg Prod.fst hnew) hother
          · rw [← hkey]
            exact h.ordered _ rowe hrowe rowf hrow hlt
    · rw [List.getElem?_set_ne hj, ← List.getD_eq_getElem?_getD] at hgone
      rcases he with hheld | ⟨-, hsame, -⟩
      · exact absurd hheld hgone
      · exact absurd hsame.symm hj

end Step

/-- A sequence of calls is a run of one thread. -/
theorem reachable_history {files : Files} {hash : Bytes → Nat}
    {Allowed : StaticFileCache → Path → Prop} {s : CacheHistory}
    (h : Reachable CacheHistory.Initial (GetCall files hash Allowed) s) :
    Reachable CacheState.Initial (CacheStep hash)
      (⟨s.cache, fun _ => .idle⟩ : CacheState Unit) := by
  induction h with
  | start hs =>
      obtain ⟨enabled, shardCount, maxEntries, maxBytes, maxFileBytes, milliseconds, rfl⟩ := hs
      exact .start ⟨_, _, _, _, _, _, rfl, fun _ => rfl⟩
  | step _ hstep ih =>
      cases hstep with
      | get now path _ => exact reachable_get ih (i := ()) rfl files now path

theorem recent_initial (hash : Bytes → Nat) {s : CacheHistory} (h : CacheHistory.Initial s) :
    Recent hash s := by
  obtain ⟨enabled, shardCount, maxEntries, maxBytes, maxFileBytes, milliseconds, rfl⟩ := h
  refine ⟨fun j row hrow => ?_, fun j a ha => ?_, fun _ => le_refl _⟩
  · rw [construct_entries] at hrow
    cases hrow
  · rw [construct_entries] at ha
    cases ha

theorem recent_run {files : Files} {hash : Bytes → Nat} {s : CacheHistory}
    (h : Reachable CacheHistory.Initial (GetCall files hash (HitsNewest hash)) s) :
    Recent hash s := by
  induction h with
  | start hs => exact recent_initial hash hs
  | step hrun hstep ih =>
      have hbooks' := (books_run (reachable_history (hrun.step hstep))).1
      have hbefore := reachable_history hrun
      cases hstep with
      | get now path hnewest =>
          exact recent_get (books_run hbefore).1 (stamped_run hbefore) hbooks' ih hnewest

/-- Where no call so far has hit an older entry, the next one evicts what was
asked for the longest time ago. -/
theorem evicts_least_recent {files : Files} {hash : Bytes → Nat} {s : CacheHistory}
    (h : Reachable CacheHistory.Initial (GetCall files hash (HitsNewest hash)) s) (now : Int)
    (path : Path) : EvictsLeastRecent hash path s (s.get files hash now path) :=
  evictsLeastRecent_get (books_run (reachable_history h)).1 (stamped_run (reachable_history h))
    (recent_run h)

def fileNamed (name : String) : Path := Path.ofBytes (bytes name)

/-- A cache of one shard and two entries, behind a call for each of the paths. -/
def askedFor (paths : List Path) : CacheHistory :=
  paths.foldl (fun s path => s.get (sameFile (bytes "first")) (fun key => key.length) 0 path)
    { cache := StaticFileCache.construct true 1 2 16 16 1000 }

/-- The calls are for `a`, `b`, `a` and `c`. The third is a hit, and the fourth evicts `a`. -/
theorem recently_hit_evicted :
    ∃ s, Reachable CacheHistory.Initial
        (GetCall (sameFile (bytes "first")) (fun key => key.length) fun _ _ => True) s ∧
      ∃ now path, ¬ EvictsLeastRecent (fun key => key.length) path s
        (s.get (sameFile (bytes "first")) (fun key => key.length) now path) := by
  refine ⟨askedFor [fileNamed "/a", fileNamed "/b", fileNamed "/a"], ?_, 0, fileNamed "/c",
    fun h => ?_⟩
  · exact .step (.step (.step (.start ⟨true, 1, 2, 16, 16, 1000, rfl⟩) (.get _ 0 _ trivial))
      (.get _ 0 _ trivial)) (.get _ 0 _ trivial)
  · exact absurd (h 0 (bytes "/a") (bytes "/b") (by decide +kernel) (by decide +kernel))
      (by decide +kernel)

theorem evicts_least_recent_newest :
    EvictsLeastRecent (fun key => key.length) (fileNamed "/c")
      (askedFor [fileNamed "/a", fileNamed "/b", fileNamed "/b"])
      ((askedFor [fileNamed "/a", fileNamed "/b", fileNamed "/b"]).get (sameFile (bytes "first"))
        (fun key => key.length) 0 (fileNamed "/c")) :=
  evicts_least_recent (.step (.step (.step (.start ⟨true, 1, 2, 16, 16, 1000, rfl⟩)
    (.get _ 0 _ (by decide +kernel))) (.get _ 0 _ (by decide +kernel)))
    (.get _ 0 _ (by decide +kernel))) 0 (fileNamed "/c")

end HydrogenHttpd.Ref
