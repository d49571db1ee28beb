import Mathlib

/-!
# Association lists for the standard maps

`std::map` and `std::unordered_map` as lists of pairs in insertion order:
`put` is `m[k] = v`, `List.lookup` is `m.find(k)`. A key stands at most once
in a list built by `put`, and a second `put` keeps the key's place.
-/

namespace HydrogenHttpd.Base

variable {α β : Type} [DecidableEq α]

/-- `m[k] = v`. -/
def put (k : α) (v : β) : List (α × β) → List (α × β)
  | [] => [(k, v)]
  | p :: ps => if p.1 = k then (k, v) :: ps else p :: put k v ps

theorem put_put (k : α) (v w : β) (m : List (α × β)) :
    put k v (put k w m) = put k v m := by
  induction m with
  | nil => simp [put]
  | cons p ps ih =>
      by_cases h : p.1 = k
      · simp [put, h]
      · simp [put, h, ih]

theorem put_ne_nil (k : α) (v : β) (m : List (α × β)) : put k v m ≠ [] := by
  cases m with
  | nil => simp [put]
  | cons p ps => rw [put]; split <;> simp

section Lookup

variable [BEq α] [LawfulBEq α]

@[simp] theorem lookup_put_self (k : α) (v : β) (m : List (α × β)) :
    (put k v m).lookup k = some v := by
  induction m with
  | nil => simp [put]
  | cons p ps ih =>
      rw [put]
      split
      · simp
      · next h => rw [List.lookup_cons, beq_false_of_ne (Ne.symm h), ih]

theorem lookup_put_of_ne {k k' : α} (hne : k' ≠ k) (v : β) (m : List (α × β)) :
    (put k v m).lookup k' = m.lookup k' := by
  induction m with
  | nil => rw [put, List.lookup_cons, beq_false_of_ne hne]
  | cons p ps ih =>
      rw [put]
      split
      · next h =>
          subst h
          rw [List.lookup_cons, List.lookup_cons, beq_false_of_ne hne]
      · rw [List.lookup_cons, List.lookup_cons, ih]

theorem put_of_lookup {k : α} {v : β} {m : List (α × β)} (h : m.lookup k = some v) :
    put k v m = m := by
  induction m with
  | nil => cases h
  | cons p ps ih =>
      rw [List.lookup_cons] at h
      by_cases hk : p.1 = k
      · subst hk
        simp only [beq_self_eq_true, Option.some.injEq] at h
        subst h
        rw [put, if_pos rfl]
      · rw [beq_false_of_ne (Ne.symm hk)] at h
        rw [put, if_neg hk, ih h]

theorem mem_of_lookup {k : α} {v : β} {m : List (α × β)} (h : m.lookup k = some v) :
    (k, v) ∈ m := by
  induction m with
  | nil => cases h
  | cons p ps ih =>
      rw [List.lookup_cons] at h
      by_cases hk : k = p.1
      · subst hk
        simp only [beq_self_eq_true, Option.some.injEq] at h
        subst h
        exact List.mem_cons_self
      · rw [beq_false_of_ne hk] at h
        exact List.mem_cons_of_mem _ (ih h)

/-- What `put` adds to a sum over the values, and what it replaces. -/
theorem sum_put (f : β → Nat) (k : α) (v : β) (m : List (α × β)) :
    ((put k v m).map fun p => f p.2).sum + ((m.lookup k).map f).getD 0 =
      (m.map fun p => f p.2).sum + f v := by
  induction m with
  | nil => simp [put]
  | cons p ps ih =>
      rw [put, List.lookup_cons]
      by_cases hk : p.1 = k
      · subst hk
        simp only [if_pos, beq_self_eq_true, List.map_cons, List.sum_cons, Option.map_some,
          Option.getD_some]
        omega
      · rw [if_neg hk, beq_false_of_ne (Ne.symm hk)]
        simp only [List.map_cons, List.sum_cons]
        omega

theorem length_put (k : α) (v : β) (m : List (α × β)) :
    (put k v m).length = m.length + if (m.lookup k).isSome then 0 else 1 := by
  induction m with
  | nil => simp [put]
  | cons p ps ih =>
      rw [put, List.lookup_cons]
      by_cases hk : p.1 = k
      · subst hk
        simp
      · rw [if_neg hk, beq_false_of_ne (Ne.symm hk)]
        simp only [List.length_cons, ih]
        omega

end Lookup

/-- A new key goes to the end. -/
theorem put_new {k : α} {v : β} {m : List (α × β)} (h : k ∉ m.map (·.1)) :
    put k v m = m ++ [(k, v)] := by
  induction m with
  | nil => rfl
  | cons p ps ih =>
      rw [List.map_cons, List.mem_cons, not_or] at h
      rw [put, if_neg (Ne.symm h.1), ih h.2, List.cons_append]

section Filter

variable [BEq α] [LawfulBEq α]

/-- Where the keys are distinct, the search finds every entry. -/
theorem lookup_eq_some_iff {k : α} {v : β} {m : List (α × β)} (h : (m.map (·.1)).Nodup) :
    m.lookup k = some v ↔ (k, v) ∈ m := by
  refine ⟨mem_of_lookup, fun hmem => ?_⟩
  cases hk : m.lookup k with
  | none =>
      rw [List.lookup_eq_none_iff] at hk
      exact absurd (hk _ hmem) (by simp)
  | some w =>
      have hsame : (k, w) = (k, v) := List.inj_on_of_nodup_map h (mem_of_lookup hk) hmem rfl
      rw [(Prod.mk.inj hsame).2]

/-- Their order does not matter then. -/
theorem lookup_perm {m m' : List (α × β)} (hperm : m.Perm m') (h : (m.map (·.1)).Nodup) (k : α) :
    m.lookup k = m'.lookup k := by
  have h' : (m'.map (·.1)).Nodup := (hperm.map (·.1)).nodup_iff.mp h
  refine Option.ext fun v => ?_
  rw [lookup_eq_some_iff h, lookup_eq_some_iff h', hperm.mem_iff]

theorem lookup_eq_none_of_not_mem {k : α} {m : List (α × β)} (h : k ∉ m.map (·.1)) :
    m.lookup k = none := by
  cases hk : m.lookup k with
  | none => rfl
  | some v => exact absurd (List.mem_map.mpr ⟨_, mem_of_lookup hk, rfl⟩) h

/-- Where the keys are distinct, filtering leaves an entry or takes it. -/
theorem lookup_filter {p : α × β → Bool} {m : List (α × β)} (h : (m.map (·.1)).Nodup) (k : α) :
    (m.filter p).lookup k = (m.lookup k).filter fun v => p (k, v) := by
  induction m with
  | nil => rfl
  | cons q qs ih =>
      obtain ⟨key, value⟩ := q
      rw [List.map_cons, List.nodup_cons] at h
      rw [List.filter_cons]
      by_cases hk : k = key
      · subst hk
        split
        · next hp =>
            rw [List.lookup_cons_self, List.lookup_cons_self, Option.filter_some, if_pos hp]
        · next hp =>
            rw [ih h.2, lookup_eq_none_of_not_mem h.1, List.lookup_cons_self, Option.filter_some,
              if_neg hp]
            rfl
      · rw [List.lookup_cons, beq_false_of_ne hk]
        split
        · rw [List.lookup_cons, beq_false_of_ne hk]
          exact ih h.2
        · exact ih h.2

end Filter

/-- An entry behind a `put` is the new one or an old one. -/
theorem mem_put {k : α} {v : β} {m : List (α × β)} {p : α × β} (h : p ∈ put k v m) :
    p = (k, v) ∨ p ∈ m := by
  induction m with
  | nil => exact Or.inl (List.mem_singleton.mp h)
  | cons q qs ih =>
      rw [put] at h
      split at h
      · rcases List.mem_cons.mp h with h | h
        · exact Or.inl h
        · exact Or.inr (List.mem_cons_of_mem _ h)
      · rcases List.mem_cons.mp h with h | h
        · exact Or.inr (h ▸ List.mem_cons_self)
        · exact (ih h).imp_right (List.mem_cons_of_mem _)

theorem nodup_keys_put {k : α} {v : β} {m : List (α × β)} (h : (m.map (·.1)).Nodup) :
    ((put k v m).map (·.1)).Nodup := by
  induction m with
  | nil => simp [put]
  | cons q qs ih =>
      rw [List.map_cons, List.nodup_cons] at h
      rw [put]
      split
      · next hk =>
          rw [List.map_cons, List.nodup_cons]
          exact ⟨hk ▸ h.1, h.2⟩
      · next hk =>
          rw [List.map_cons, List.nodup_cons]
          refine ⟨fun hmem => ?_, ih h.2⟩
          obtain ⟨p, hp, hpk⟩ := List.mem_map.mp hmem
          rcases mem_put hp with hnew | hold
          · rw [hnew] at hpk
            exact hk hpk.symm
          · exact h.1 (List.mem_map.mpr ⟨p, hold, hpk⟩)

/-- What a value is replaced by shows nothing where both show the same. -/
theorem map_put_of_lookup {γ : Type} [BEq α] [LawfulBEq α] (f : α × β → γ) {k : α} {v w : β}
    {m : List (α × β)} (h : m.lookup k = some w) (hf : f (k, v) = f (k, w)) :
    (put k v m).map f = m.map f := by
  induction m with
  | nil => cases h
  | cons q qs ih =>
      rw [List.lookup_cons] at h
      by_cases hk : q.1 = k
      · rw [beq_iff_eq.mpr hk.symm] at h
        have hq : q = (k, w) := Prod.ext hk (Option.some.inj h)
        rw [put, if_pos hk, List.map_cons, List.map_cons, hf, hq]
      · rw [beq_false_of_ne (Ne.symm hk)] at h
        rw [put, if_neg hk, List.map_cons, List.map_cons, ih h]

/-- A value that shows something new keeps what is shown apart. -/
theorem nodup_map_put {γ : Type} (f : β → γ) {k : α} {v : β} {m : List (α × β)}
    (h : (m.map fun p => f p.2).Nodup) (hv : f v ∉ m.map fun p => f p.2) :
    ((put k v m).map fun p => f p.2).Nodup := by
  induction m with
  | nil => simp [put]
  | cons q qs ih =>
      rw [List.map_cons, List.nodup_cons] at h
      rw [List.map_cons, List.mem_cons, not_or] at hv
      rw [put]
      split
      · rw [List.map_cons, List.nodup_cons]
        exact ⟨hv.2, h.2⟩
      · rw [List.map_cons, List.nodup_cons]
        refine ⟨fun hmem => ?_, ih h.2 hv.2⟩
        obtain ⟨p, hp, hsame⟩ := List.mem_map.mp hmem
        rcases mem_put hp with rfl | hold
        · exact hv.1 hsame
        · exact h.1 (List.mem_map.mpr ⟨p, hold, hsame⟩)

theorem mem_put_self (k : α) (v : β) (m : List (α × β)) : (k, v) ∈ put k v m := by
  induction m with
  | nil => exact List.mem_singleton_self _
  | cons q qs ih =>
      rw [put]
      split
      · exact List.mem_cons_self
      · exact List.mem_cons_of_mem _ ih

theorem mem_put_of_ne {k : α} {v : β} {m : List (α × β)} {p : α × β} (hp : p ∈ m)
    (hne : p.1 ≠ k) : p ∈ put k v m := by
  induction m with
  | nil => cases hp
  | cons q qs ih =>
      rw [put]
      split
      · next hq =>
          rcases List.mem_cons.mp hp with rfl | hp
          · exact absurd hq hne
          · exact List.mem_cons_of_mem _ hp
      · rcases List.mem_cons.mp hp with rfl | hp
        · exact List.mem_cons_self
        · exact List.mem_cons_of_mem _ (ih hp)

/-- The entries behind a `put` are the new one and those under other keys. -/
theorem mem_put_iff {k : α} {v : β} {m : List (α × β)} {p : α × β}
    (h : (m.map (·.1)).Nodup) : p ∈ put k v m ↔ p = (k, v) ∨ p ∈ m ∧ p.1 ≠ k := by
  constructor
  · intro hp
    by_cases hk : p.1 = k
    · left
      refine Prod.ext hk ?_
      exact (List.inj_on_of_nodup_map (nodup_keys_put h) hp (mem_put_self k v m) hk ▸ rfl)
    · exact (mem_put hp).imp_right fun hold => ⟨hold, hk⟩
  · rintro (rfl | ⟨hp, hk⟩)
    · exact mem_put_self k v m
    · exact mem_put_of_ne hp hk

/-- In any order, they are the new one in front of the others. -/
theorem put_perm {k : α} {v : β} {m : List (α × β)} (h : (m.map (·.1)).Nodup) :
    (put k v m).Perm ((k, v) :: m.filter (·.1 ≠ k)) := by
  induction m with
  | nil => exact List.Perm.refl _
  | cons q qs ih =>
      rw [List.map_cons, List.nodup_cons] at h
      rw [put]
      split
      · next hk =>
          have hall : qs.filter (·.1 ≠ k) = qs := by
            rw [List.filter_eq_self]
            intro r hr
            have hne : r.1 ≠ k := fun heq => h.1 (List.mem_map.mpr ⟨r, hr, heq.trans hk.symm⟩)
            simpa using hne
          rw [List.filter_cons_of_neg (by simpa using hk), hall]
      · next hk =>
          rw [List.filter_cons_of_pos (by simpa using hk)]
          exact ((ih h.2).cons q).trans (List.Perm.swap _ _ _)

theorem mem_keys_put {k n : α} {v : β} {m : List (α × β)} :
    n ∈ (put k v m).map (·.1) ↔ n = k ∨ n ∈ m.map (·.1) := by
  constructor
  · intro hn
    obtain ⟨p, hp, rfl⟩ := List.mem_map.mp hn
    rcases mem_put hp with rfl | hold
    · exact Or.inl rfl
    · exact Or.inr (List.mem_map_of_mem hold)
  · intro hn
    by_cases hk : n = k
    · subst hk
      exact List.mem_map.mpr ⟨_, mem_put_self n v m, rfl⟩
    · obtain ⟨p, hp, rfl⟩ := List.mem_map.mp (hn.resolve_left hk)
      exact List.mem_map_of_mem (mem_put_of_ne hp hk)

/-- Where a projection tells the elements apart, it selects one of them. -/
theorem filter_eq_singleton {γ δ : Type} [DecidableEq δ] (f : γ → δ) {l : List γ}
    (h : (l.map f).Nodup) {x : γ} (hx : x ∈ l) : (l.filter fun y => f y = f x) = [x] := by
  induction l with
  | nil => cases hx
  | cons y l ih =>
      rw [List.map_cons, List.nodup_cons] at h
      rcases List.mem_cons.mp hx with rfl | hx
      · rw [List.filter_cons_of_pos (by simp), List.filter_eq_nil_iff.mpr]
        intro z hz hfz
        exact h.1 (List.mem_map.mpr ⟨z, hz, by simpa using hfz⟩)
      · rw [List.filter_cons_of_neg, ih h.2 hx]
        intro hfy
        exact h.1 (List.mem_map.mpr ⟨x, hx, (by simpa using hfy : f y = f x).symm⟩)

/-! ### Entering one map into another -/

theorem mem_keys_foldl_put {n : α} (entries m : List (α × β)) :
    n ∈ (entries.foldl (fun m e => put e.1 e.2 m) m).map (·.1) ↔
      n ∈ m.map (·.1) ∨ n ∈ entries.map (·.1) := by
  induction entries generalizing m with
  | nil => simp
  | cons e entries ih =>
      rw [List.foldl_cons, ih, mem_keys_put, List.map_cons, List.mem_cons]
      tauto

theorem nodup_keys_foldl_put (entries : List (α × β)) {m : List (α × β)}
    (h : (m.map (·.1)).Nodup) :
    ((entries.foldl (fun m e => put e.1 e.2 m) m).map (·.1)).Nodup := by
  induction entries generalizing m with
  | nil => exact h
  | cons e entries ih => exact ih (nodup_keys_put h)

/-- What erasing a key takes from a sum over the entries. -/
theorem sum_erase_key (f : α × β → Nat) {p : α × β} {m : List (α × β)}
    (hnodup : (m.map (·.1)).Nodup) (hp : p ∈ m) :
    ((m.filter (·.1 ≠ p.1)).map f).sum + f p = (m.map f).sum := by
  induction m with
  | nil => cases hp
  | cons q qs ih =>
      rw [List.map_cons, List.nodup_cons] at hnodup
      rcases List.mem_cons.mp hp with rfl | hmem
      · have hall : qs.filter (·.1 ≠ p.1) = qs := by
          rw [List.filter_eq_self]
          intro r hr
          have hne : r.1 ≠ p.1 := fun heq => hnodup.1 (List.mem_map.mpr ⟨r, hr, heq⟩)
          simpa using hne
        rw [List.filter_cons_of_neg (by simp), hall, List.map_cons, List.sum_cons]
        exact Nat.add_comm _ _
      · have hne : q.1 ≠ p.1 := fun heq => hnodup.1 (List.mem_map.mpr ⟨p, hmem, heq.symm⟩)
        rw [List.filter_cons_of_pos (by simpa using hne)]
        simp only [List.map_cons, List.sum_cons]
        have hrest := ih hnodup.2 hmem
        omega

/-- What replacing one element does to a sum. -/
theorem sum_map_set {γ : Type} (f : γ → Nat) {l : List γ} {i : Nat} (hi : i < l.length) (x : γ) :
    ((l.set i x).map f).sum + f l[i] = (l.map f).sum + f x := by
  induction l generalizing i with
  | nil => cases hi
  | cons y ys ih =>
      cases i with
      | zero =>
          simp only [List.set_cons_zero, List.map_cons, List.sum_cons, List.getElem_cons_zero]
          omega
      | succ i =>
          have hrest := ih (i := i) (by simpa using hi)
          simp only [List.set_cons_succ, List.map_cons, List.sum_cons, List.getElem_cons_succ]
          omega

theorem lookup_map_snd {α β γ : Type} [BEq α] (f : β → γ) (m : List (α × β)) (k : α) :
    (m.map fun p => (p.1, f p.2)).lookup k = (m.lookup k).map f := by
  induction m with
  | nil => rfl
  | cons p m ih =>
      rw [List.map_cons, List.lookup_cons, List.lookup_cons, ih]
      cases k == p.1 <;> rfl

/-- Where the values are computed one after the other, every key keeps its own. -/
theorem lookup_mapM {α β γ ε : Type} [BEq α] {g : β → Except ε γ} {m : List (α × β)}
    {m' : List (α × γ)}
    (h : (m.mapM fun (k, v) => (g v).map fun w => (k, w)) = .ok m') (k : α) :
    m.lookup k = none ∧ m'.lookup k = none ∨
      ∃ v w, m.lookup k = some v ∧ g v = .ok w ∧ m'.lookup k = some w := by
  induction m generalizing m' with
  | nil =>
      cases h
      exact Or.inl ⟨rfl, rfl⟩
  | cons p m ih =>
      obtain ⟨key, v⟩ := p
      rw [List.mapM_cons] at h
      simp only [] at h
      cases hw : g v with
      | error e =>
          rw [hw] at h
          cases h
      | ok w =>
          rw [hw] at h
          cases hrest : m.mapM fun (k, v) => (g v).map fun w => (k, w) with
          | error e =>
              rw [hrest] at h
              cases h
          | ok rest =>
              rw [hrest] at h
              cases h
              rw [List.lookup_cons, List.lookup_cons]
              cases hk : k == key with
              | true => exact Or.inr ⟨v, w, rfl, hw, rfl⟩
              | false => exact ih hrest

end HydrogenHttpd.Base
