import Mathlib

/-!
# Things in the hands of several parties

Parties stand in a list, and each of them holds a list of things. When one of
them gives way to another, what all of them hold changes by what these two hold
(`perm_flatMap_set`). Where the things are distinct, a thing has one holder
(`existsUnique_holder`). Where only one party holds anything, what all of them
hold is in the order in which that one has it (`Alone.flatMap_set`).
-/

namespace HydrogenHttpd.Base

variable {β α : Type*} {held : β → List α} {parties : List β} {n : Nat} {p : β}

theorem perm_flatMap_set (h : parties[n]? = some p) (q : β) :
    (held p ++ (parties.set n q).flatMap held).Perm (held q ++ parties.flatMap held) := by
  induction parties generalizing n with
  | nil => cases h
  | cons first rest ih =>
      cases n with
      | zero =>
          obtain rfl : first = p := by simpa using h
          rw [List.set_cons_zero, List.flatMap_cons, List.flatMap_cons]
          exact List.perm_append_comm_assoc _ _ _
      | succ n =>
          rw [List.set_cons_succ, List.flatMap_cons, List.flatMap_cons]
          refine (List.perm_append_comm_assoc _ _ _).trans ?_
          refine ((ih h).append_left (held first)).trans ?_
          exact List.perm_append_comm_assoc _ _ _

/-- A thing among distinct things has one holder. -/
theorem existsUnique_holder (hnodup : (parties.flatMap held).Nodup) {a : α}
    (ha : a ∈ parties.flatMap held) : ∃! n : Nat, ∃ p, parties[n]? = some p ∧ a ∈ held p := by
  induction parties with
  | nil => cases ha
  | cons first rest ih =>
      rw [List.flatMap_cons] at hnodup ha
      obtain ⟨-, hrest, hapart⟩ := List.nodup_append.mp hnodup
      rcases List.mem_append.mp ha with hfirst | htail
      · refine ⟨0, ⟨first, rfl, hfirst⟩, ?_⟩
        rintro m ⟨p, hp, hmem⟩
        cases m with
        | zero => rfl
        | succ m =>
            have hrestp : p ∈ rest := List.mem_of_getElem? (i := m) (by simpa using hp)
            have hagain := List.mem_flatMap.mpr ⟨p, hrestp, hmem⟩
            exact absurd rfl (hapart a hfirst a hagain)
      · obtain ⟨n, ⟨p, hp, hmem⟩, honly⟩ := ih hrest htail
        refine ⟨n + 1, ⟨p, hp, hmem⟩, ?_⟩
        rintro m ⟨p', hp', hmem'⟩
        cases m with
        | zero =>
            obtain rfl : first = p' := by simpa using hp'
            exact absurd rfl (hapart a hmem' a htail)
        | succ m => rw [honly m ⟨p', hp', hmem'⟩]

theorem map_set_of_eq {γ : Type*} {f : β → γ} (h : parties[n]? = some p) {q : β} (hq : f q = f p) :
    (parties.set n q).map f = parties.map f := by
  rw [List.map_set, hq]
  refine List.ext_getElem? fun m => ?_
  by_cases hm : n = m
  · subst hm
    rw [List.getElem?_set_self', List.getElem?_map, h]
    rfl
  · rw [List.getElem?_set_ne hm]

/-- Nothing changes hands when a party gives way to one with the same things. -/
theorem flatMap_set_of_eq (h : parties[n]? = some p) {q : β} (hq : held q = held p) :
    (parties.set n q).flatMap held = parties.flatMap held := by
  rw [List.flatMap_def, map_set_of_eq h hq, List.flatMap_def]

/-- What a party of a list with an exchanged party is. -/
theorem getElem?_set_cases {m : Nat} {q r : β} (h : (parties.set n q)[m]? = some r) :
    (m = n ∧ r = q) ∨ (m ≠ n ∧ parties[m]? = some r) := by
  by_cases hm : m = n
  · subst hm
    rw [List.getElem?_set_self'] at h
    cases hget : parties[m]? with
    | none => rw [hget] at h; cases h
    | some p =>
        rw [hget] at h
        cases h
        exact Or.inl ⟨rfl, rfl⟩
  · rw [List.getElem?_set_ne (Ne.symm hm)] at h
    exact Or.inr ⟨hm, h⟩

theorem mem_set_cases {q r : β} (h : r ∈ parties.set n q) :
    r = q ∨ ∃ m, m ≠ n ∧ parties[m]? = some r := by
  obtain ⟨m, hm⟩ := List.mem_iff_getElem?.mp h
  rcases getElem?_set_cases hm with ⟨-, rfl⟩ | ⟨hne, hget⟩
  · exact Or.inl rfl
  · exact Or.inr ⟨m, hne, hget⟩

/-- What occurs at most once has one position. -/
theorem eq_of_count_le_one [DecidableEq β] {m : Nat} (h : parties.count p ≤ 1)
    (hm : parties[m]? = some p) (hn : parties[n]? = some p) : m = n := by
  induction parties generalizing m n with
  | nil => cases hm
  | cons first rest ih =>
      rw [List.count_cons] at h
      cases m with
      | zero =>
          cases n with
          | zero => rfl
          | succ n =>
              obtain rfl : first = p := by simpa using hm
              have hmem : first ∈ rest := List.mem_of_getElem? (i := n) (by simpa using hn)
              have hpos := List.count_pos_iff.mpr hmem
              simp only [beq_self_eq_true, if_true] at h
              omega
      | succ m =>
          cases n with
          | zero =>
              obtain rfl : first = p := by simpa using hn
              have hmem : first ∈ rest := List.mem_of_getElem? (i := m) (by simpa using hm)
              have hpos := List.count_pos_iff.mpr hmem
              simp only [beq_self_eq_true, if_true] at h
              omega
          | succ n =>
              exact congrArg Nat.succ (ih (by omega) (by simpa using hm) (by simpa using hn))

/-- Nobody but the party at `n` holds anything. -/
def Alone (held : β → List α) (parties : List β) (n : Nat) : Prop :=
  ∀ (m : Nat) (p : β), m ≠ n → parties[m]? = some p → held p = []

namespace Alone

theorem set (h : Alone held parties n) (q : β) : Alone held (parties.set n q) n := by
  intro m p hm hp
  rw [List.getElem?_set_ne hm.symm] at hp
  exact h m p hm hp

theorem set_of_eq {k : Nat} (h : Alone held parties k) (hp : parties[n]? = some p) {q : β}
    (hq : held q = held p) : Alone held (parties.set n q) k := by
  intro m r hm hr
  rcases getElem?_set_cases hr with ⟨rfl, rfl⟩ | ⟨-, hr⟩
  · rw [hq]
    exact h m p hm hp
  · exact h m r hm hr

theorem append (h : Alone held parties n) {q : β} (hq : held q = []) :
    Alone held (parties ++ [q]) n := by
  intro m r hm hr
  rw [List.getElem?_append] at hr
  split at hr
  · exact h m r hm hr
  · obtain rfl : r = q := List.mem_singleton.mp (List.mem_of_getElem? hr)
    exact hq

theorem flatMap_set (h : Alone held parties n) (hn : n < parties.length) (q : β) :
    (parties.set n q).flatMap held = held q := by
  induction parties generalizing n with
  | nil => cases hn
  | cons first rest ih =>
      cases n with
      | zero =>
          have hrest : rest.flatMap held = [] := by
            rw [List.flatMap_eq_nil_iff]
            intro p hp
            obtain ⟨m, hm⟩ := List.mem_iff_getElem?.mp hp
            exact h (m + 1) p (by omega) hm
          rw [List.set_cons_zero, List.flatMap_cons, hrest, List.append_nil]
      | succ n =>
          have hfirst := h 0 first (by omega) rfl
          have htail := ih (fun m p hm hp => h (m + 1) p (by omega) hp) (Nat.lt_of_succ_lt_succ hn)
          rw [List.set_cons_succ, List.flatMap_cons, hfirst, htail, List.nil_append]

theorem flatMap (h : Alone held parties n) (hp : parties[n]? = some p) :
    parties.flatMap held = held p := by
  obtain ⟨hn, hget⟩ := List.getElem?_eq_some_iff.mp hp
  have hset := h.flatMap_set hn p
  rw [← hget, List.set_getElem_self] at hset
  rw [hset, hget]

end Alone

end HydrogenHttpd.Base
