import HydrogenHttpd.Ref.ThreadPool

/-!
# The worker pool loses and duplicates nothing

Three invariants of whole runs. `Accounted` says where the accepted tasks are:
the queue is what is left of them behind those taken, those taken are with a
worker or done, and the counters count. Its last clause is the one shutdown
rests on: a worker returns only from an empty queue with `stopping_` set, and
after that nothing is accepted, so the queue stays empty. `Numbered` says that
no two calls bring the same task, and `Joined` that `shutdown` comes back only
when every worker has returned.
-/

namespace HydrogenHttpd.Ref

open Base

variable {ι α : Type}

/-! ## Under the mutex -/

section Pool

variable {τ : Type} {pool : ThreadPool τ}

theorem enqueue_refused {task : τ}
    (h : pool.stopping = true ∨ pool.maxQueueSize ≤ pool.tasks.length) :
    pool.enqueue task = (false, { pool with rejected := pool.rejected + 1 }) := by
  rw [ThreadPool.enqueue, if_pos h]

theorem enqueue_accepted {task : τ}
    (h : ¬ (pool.stopping = true ∨ pool.maxQueueSize ≤ pool.tasks.length)) :
    pool.enqueue task = (true, { pool with tasks := pool.tasks ++ [task] }) := by
  rw [ThreadPool.enqueue, if_neg h]

/-- A worker waits, returns from an empty queue, or has the front of it. -/
theorem take_cases (pool : ThreadPool τ) :
    (pool.tasks = [] ∧ pool.stopping = false ∧ pool.take = (.waiting, pool)) ∨
    (pool.tasks = [] ∧ pool.stopping = true ∧ pool.take = (.returned, pool)) ∨
    ∃ task rest, pool.tasks = task :: rest ∧
      pool.take = (.taken task, { pool with tasks := rest }) := by
  rw [ThreadPool.take]
  cases htasks : pool.tasks with
  | nil =>
      cases hstop : pool.stopping with
      | false => exact Or.inl ⟨rfl, rfl, if_pos ⟨rfl, rfl⟩⟩
      | true => exact Or.inr (Or.inl ⟨rfl, rfl, if_neg (by simp)⟩)
  | cons task rest => exact Or.inr (Or.inr ⟨task, rest, rfl, if_neg (by simp)⟩)

/-- `shutdown` changes nothing but `stopping_`, and sets it. -/
theorem shutdown_pool (pool : ThreadPool τ) :
    pool.shutdown.2 = { pool with stopping := true } := by
  rw [ThreadPool.shutdown]
  split
  · next h =>
      cases pool
      simp only [ThreadPool.mk.injEq, true_and, and_true]
      exact h
  · rfl

end Pool

/-! ## Where the tasks are -/

namespace PoolState

theorem accepted_append (s : PoolState ι α) (task : PoolTask α) (result : Bool) :
    { s with answers := s.answers ++ [(task, result)] }.accepted =
      if result then s.accepted ++ [task] else s.accepted := by
  cases result <;> simp [accepted]

theorem refused_append (s : PoolState ι α) (task : PoolTask α) (result : Bool) :
    { s with answers := s.answers ++ [(task, result)] }.refused =
      if result then s.refused else s.refused ++ [task] := by
  cases result <;> simp [refused]

end PoolState

/-- What the lists of the run and the counters say about each other. -/
structure Accounted (s : PoolState ι α) : Prop where
  order : s.accepted = s.taken ++ s.pool.tasks
  held : s.taken.Perm (s.held ++ s.done)
  runs : s.runs.Perm (s.workers.filterMap (·.called) ++ s.done)
  active : s.pool.active = (s.workers.filterMap (·.counted)).length
  completed : s.pool.completed = s.done.length
  rejected : s.pool.rejected = s.refused.length
  bound : s.pool.tasks.length ≤ s.pool.maxQueueSize
  drained : .returned ∈ s.workers → s.pool.stopping = true ∧ s.pool.tasks = []

/-- An element that leaves the middle of one list for the end of the other. -/
theorem perm_moved {τ : Type} {l a b c : List τ} {t : τ} (h : l.Perm (a ++ t :: b ++ c)) :
    l.Perm (a ++ b ++ (c ++ [t])) := by
  refine h.trans ?_
  rw [List.append_assoc, List.cons_append, ← List.append_assoc (a ++ b), List.append_assoc a b]
  exact List.perm_middle.trans (List.perm_append_singleton t _).symm

/-- An element that comes in at the end of one list and in the middle of the other. -/
theorem perm_inserted {τ : Type} {l a b c : List τ} (t : τ) (h : l.Perm (a ++ b ++ c)) :
    (l ++ [t]).Perm (a ++ t :: b ++ c) := by
  refine (List.perm_append_singleton t l).trans ?_
  rw [List.append_assoc, List.cons_append]
  refine (h.cons t).trans ?_
  rw [List.append_assoc]
  exact List.perm_middle.symm

section Step

variable {s : PoolState ι α} {before after : List (WorkerPhase (PoolTask α))}

theorem accounted_enqueue [DecidableEq ι] (hs : Accounted s) (i : ι) (task : PoolTask α) :
    Accounted { s with
      pool := (s.pool.enqueue task).2
      answers := s.answers ++ [(task, (s.pool.enqueue task).1)]
      callers := Function.update s.callers i (.answering task (s.pool.enqueue task).1) } := by
  by_cases hfull : s.pool.stopping = true ∨ s.pool.maxQueueSize ≤ s.pool.tasks.length
  · rw [enqueue_refused hfull]
    have hsame := s.accepted_append task false
    have hmore := s.refused_append task false
    exact { hs with
      order := hsame.trans hs.order
      rejected := by
        have hcount : s.pool.rejected + 1 = (s.refused ++ [task]).length := by
          rw [hs.rejected, List.length_append, List.length_singleton]
        exact hcount.trans (congrArg List.length hmore.symm) }
  · rw [enqueue_accepted hfull]
    have hmore := s.accepted_append task true
    have hsame := s.refused_append task true
    simp only [not_or, Bool.not_eq_true] at hfull
    exact { hs with
      order := by
        have horder : s.accepted ++ [task] = s.taken ++ (s.pool.tasks ++ [task]) := by
          rw [hs.order, List.append_assoc]
        exact hmore.trans horder
      rejected := hs.rejected.trans (congrArg List.length hsame.symm)
      bound := by
        simp only [List.length_append, List.length_singleton]
        omega
      drained := by
        intro hreturned
        have hstop := (hs.drained hreturned).1
        rw [hfull.1] at hstop
        cases hstop }

/-- The workers after one of them has moved on: another one has returned, or it has. -/
theorem returned_of_moved {w w' : WorkerPhase (PoolTask α)} (h : s.workers = before ++ w :: after)
    (hw : w' ≠ .returned) (hmem : .returned ∈ before ++ w' :: after) : .returned ∈ s.workers := by
  rw [h]
  simp only [List.mem_append, List.mem_cons] at hmem ⊢
  rcases hmem with hmem | hmem | hmem
  · exact Or.inl hmem
  · exact absurd hmem.symm hw
  · exact Or.inr (Or.inr hmem)

/-- A worker that moves on with the task it has, counted as before. -/
theorem accounted_move {w w' : WorkerPhase (PoolTask α)} (hs : Accounted s)
    (h : s.workers = before ++ w :: after) (htask : w'.task = w.task)
    (hcalled : w'.called = w.called) (hcounted : w'.counted = w.counted) (hw : w' ≠ .returned) :
    Accounted { s with workers := before ++ w' :: after } := by
  have hheld := hs.held
  have hruns := hs.runs
  have hactive := hs.active
  simp only [PoolState.held, h, List.filterMap_append, List.filterMap_cons, ← htask, ← hcalled,
    ← hcounted] at hheld hruns hactive
  exact { hs with
    held := by simpa only [PoolState.held, List.filterMap_append, List.filterMap_cons] using hheld
    runs := by simpa only [List.filterMap_append, List.filterMap_cons] using hruns
    active := by simpa only [List.filterMap_append, List.filterMap_cons] using hactive
    drained := fun hmem => hs.drained (returned_of_moved h hw hmem) }

theorem accounted_take (hs : Accounted s) (h : s.workers = before ++ .locking :: after) :
    Accounted { s with
      pool := s.pool.take.2
      workers := before ++ s.pool.take.1 :: after
      taken := s.taken ++ s.pool.take.1.task.toList } := by
  have hheld := hs.held
  have hruns := hs.runs
  have hactive := hs.active
  simp only [PoolState.held, h, List.filterMap_append, List.filterMap_cons, WorkerPhase.task,
    WorkerPhase.called, WorkerPhase.counted] at hheld hruns hactive
  obtain ⟨hempty, hstop, htake⟩ | ⟨hempty, hstop, htake⟩ | ⟨task, rest, htasks, htake⟩ :=
    take_cases s.pool
  · rw [htake]
    exact {
      order := hs.order.trans (by simp [WorkerPhase.task])
      held := by simpa [PoolState.held, WorkerPhase.task] using hheld
      runs := by simpa [WorkerPhase.called] using hruns
      active := by simpa [WorkerPhase.counted] using hactive
      completed := hs.completed
      rejected := hs.rejected
      bound := hs.bound
      drained := fun hmem => hs.drained (returned_of_moved h (by simp) hmem) }
  · rw [htake]
    exact {
      order := hs.order.trans (by simp [WorkerPhase.task])
      held := by simpa [PoolState.held, WorkerPhase.task] using hheld
      runs := by simpa [WorkerPhase.called] using hruns
      active := by simpa [WorkerPhase.counted] using hactive
      completed := hs.completed
      rejected := hs.rejected
      bound := hs.bound
      drained := fun _ => ⟨hstop, hempty⟩ }
  · rw [htake]
    have horder := hs.order
    rw [htasks] at horder
    have hlength := hs.bound
    rw [htasks, List.length_cons] at hlength
    exact {
      order := by
        simp only [WorkerPhase.task, Option.toList_some, List.append_assoc, List.singleton_append]
        exact horder
      held := by
        simp only [PoolState.held, WorkerPhase.task, List.filterMap_append, List.filterMap_cons,
          Option.toList_some]
        exact perm_inserted task hheld
      runs := by simpa [WorkerPhase.called] using hruns
      active := by simpa [WorkerPhase.counted] using hactive
      completed := hs.completed
      rejected := hs.rejected
      bound := Nat.le_of_succ_le hlength
      drained := by
        intro hmem
        have hempty := (hs.drained (returned_of_moved h (by simp) hmem)).2
        rw [htasks] at hempty
        cases hempty }

theorem accounted_call (hs : Accounted s) {task : PoolTask α}
    (h : s.workers = before ++ .taken task :: after) :
    Accounted { s with
      pool := { s.pool with active := s.pool.active + 1 }
      workers := before ++ .running task :: after
      runs := s.runs ++ [task] } := by
  have hheld := hs.held
  have hruns := hs.runs
  have hactive := hs.active
  simp only [PoolState.held, h, List.filterMap_append, List.filterMap_cons, WorkerPhase.task,
    WorkerPhase.called, WorkerPhase.counted] at hheld hruns hactive
  exact { hs with
    held := by simpa [PoolState.held, WorkerPhase.task] using hheld
    runs := by
      simp only [WorkerPhase.called, List.filterMap_append, List.filterMap_cons]
      exact perm_inserted task hruns
    active := by
      simp only [WorkerPhase.counted, List.filterMap_append, List.filterMap_cons,
        List.length_append, List.length_cons] at hactive ⊢
      omega
    drained := fun hmem => hs.drained (returned_of_moved h (by simp) hmem) }

/-- Where a task has ended, `active_` is not zero yet. -/
theorem active_pos (hs : Accounted s) {task : PoolTask α}
    (h : s.workers = before ++ .ended task :: after) : 0 < s.pool.active := by
  rw [hs.active, h]
  simp [WorkerPhase.counted]

theorem accounted_deactivate (hs : Accounted s) {task : PoolTask α}
    (h : s.workers = before ++ .ended task :: after) :
    Accounted { s with
      pool := { s.pool with active := s.pool.active - 1 }
      workers := before ++ .inactive task :: after } := by
  have hheld := hs.held
  have hruns := hs.runs
  have hactive := hs.active
  simp only [PoolState.held, h, List.filterMap_append, List.filterMap_cons, WorkerPhase.task,
    WorkerPhase.called, WorkerPhase.counted] at hheld hruns hactive
  exact { hs with
    held := by simpa [PoolState.held, WorkerPhase.task] using hheld
    runs := by simpa [WorkerPhase.called] using hruns
    active := by
      simp only [WorkerPhase.counted, List.filterMap_append, List.filterMap_cons,
        List.length_append, List.length_cons] at hactive ⊢
      omega
    drained := fun hmem => hs.drained (returned_of_moved h (by simp) hmem) }

theorem accounted_complete (hs : Accounted s) {task : PoolTask α}
    (h : s.workers = before ++ .inactive task :: after) :
    Accounted { s with
      pool := { s.pool with completed := s.pool.completed + 1 }
      workers := before ++ .locking :: after
      done := s.done ++ [task] } := by
  have hheld := hs.held
  have hruns := hs.runs
  have hactive := hs.active
  simp only [PoolState.held, h, List.filterMap_append, List.filterMap_cons, WorkerPhase.task,
    WorkerPhase.called, WorkerPhase.counted] at hheld hruns hactive
  exact { hs with
    held := by
      simp only [PoolState.held, WorkerPhase.task, List.filterMap_append, List.filterMap_cons]
      exact perm_moved hheld
    runs := by
      simp only [WorkerPhase.called, List.filterMap_append, List.filterMap_cons]
      exact perm_moved hruns
    active := by simpa [WorkerPhase.counted] using hactive
    completed := by
      simp only [List.length_append, List.length_singleton]
      rw [hs.completed]
    drained := fun hmem => hs.drained (returned_of_moved h (by simp) hmem) }

end Step

theorem accounted_step [DecidableEq ι] {s s' : PoolState ι α} (hs : Accounted s)
    (h : PoolStep s s') : Accounted s' := by
  cases h with
  | enter i body h => exact { hs with }
  | enqueue i task h => exact accounted_enqueue hs i task
  | answer i task result h => exact { hs with }
  | callShutdown i h => exact { hs with }
  | shutdown i h =>
      rw [shutdown_pool]
      exact { hs with drained := fun hmem => ⟨rfl, (hs.drained hmem).2⟩ }
  | join i joined h hworker => exact { hs with }
  | joined i h => exact { hs with }
  | wake before after h => exact accounted_move hs h rfl rfl rfl (by simp)
  | take before after h => exact accounted_take hs h
  | call before after task h => exact accounted_call hs h
  | finish before after task outcome h => exact accounted_move hs h rfl rfl rfl (by simp)
  | deactivate before after task h => exact accounted_deactivate hs h
  | complete before after task h => exact accounted_complete hs h

/-! ## Which task is which -/

/-- Every call has its own task, also those that are not answered yet. -/
structure Numbered (s : PoolState ι α) : Prop where
  lt : ∀ p ∈ s.answers, p.1.call < s.calls
  nodup : (s.answers.map (·.1.call)).Nodup
  entered : ∀ i t, s.callers i = .enqueueing t →
    t.call < s.calls ∧ ∀ p ∈ s.answers, p.1.call ≠ t.call
  apart : ∀ i j t u, s.callers i = .enqueueing t → s.callers j = .enqueueing u →
    t.call = u.call → i = j
  answered : ∀ i t b, s.callers i = .answering t b → (t, b) ∈ s.answers
  results : ∀ p ∈ s.results, p ∈ s.answers

section Callers

variable [DecidableEq ι] {s : PoolState ι α}

/-- A caller that goes on to something that is not a call of `enqueue`. -/
theorem numbered_move (hs : Numbered s) (i : ι) (phase : CallerPhase α)
    (henqueue : ∀ t, phase ≠ .enqueueing t) (hanswer : ∀ t b, phase ≠ .answering t b) :
    Numbered { s with callers := Function.update s.callers i phase } := by
  have hold : ∀ j t, Function.update s.callers i phase j = .enqueueing t →
      s.callers j = .enqueueing t := by
    intro j t hj
    rw [Function.update_apply] at hj
    split at hj
    · exact absurd hj (henqueue t)
    · exact hj
  exact { hs with
    entered := fun j t hj => hs.entered j t (hold j t hj)
    apart := fun j k t u hj hk => hs.apart j k t u (hold j t hj) (hold k u hk)
    answered := by
      intro j t b hj
      simp only [Function.update_apply] at hj
      split at hj
      · exact absurd hj (hanswer t b)
      · exact hs.answered j t b hj }

theorem numbered_enter (hs : Numbered s) (i : ι) (body : α) :
    Numbered { s with
      calls := s.calls + 1
      callers := Function.update s.callers i (.enqueueing { call := s.calls, body := body }) } where
  lt p hp := Nat.lt_succ_of_lt (hs.lt p hp)
  nodup := hs.nodup
  entered j t hj := by
    simp only [Function.update_apply] at hj
    split at hj
    · cases hj
      exact ⟨Nat.lt_succ_self _, fun p hp => Nat.ne_of_lt (hs.lt p hp)⟩
    · obtain ⟨hlt, hne⟩ := hs.entered j t hj
      exact ⟨Nat.lt_succ_of_lt hlt, hne⟩
  apart j k t u hj hk htu := by
    simp only [Function.update_apply] at hj hk
    split at hj
    · next hji =>
        split at hk
        · next hki => rw [hji, hki]
        · cases hj
          exact absurd htu.symm (Nat.ne_of_lt (hs.entered k u hk).1)
    · split at hk
      · cases hk
        exact absurd htu (Nat.ne_of_lt (hs.entered j t hj).1)
      · exact hs.apart j k t u hj hk htu
  answered j t b hj := by
    simp only [Function.update_apply] at hj
    split at hj
    · cases hj
    · exact hs.answered j t b hj
  results := hs.results

theorem numbered_enqueue (hs : Numbered s) (i : ι) (task : PoolTask α) (result : Bool)
    (pool : ThreadPool (PoolTask α)) (h : s.callers i = .enqueueing task) :
    Numbered { s with
      pool := pool
      answers := s.answers ++ [(task, result)]
      callers := Function.update s.callers i (.answering task result) } := by
  obtain ⟨hlt, hne⟩ := hs.entered i task h
  exact {
    lt := by
      intro p hp
      rcases List.mem_append.mp hp with hp | hp
      · exact hs.lt p hp
      · rw [List.mem_singleton.mp hp]
        exact hlt
    nodup := by
      rw [List.map_append, List.nodup_append]
      refine ⟨hs.nodup, by simp, ?_⟩
      intro a ha b hb
      obtain ⟨p, hp, hpa⟩ := List.mem_map.mp ha
      rw [List.map_singleton, List.mem_singleton] at hb
      rw [← hpa, hb]
      exact hne p hp
    entered := by
      intro j t hj
      simp only [Function.update_apply] at hj
      split at hj
      · cases hj
      · next hji =>
          obtain ⟨hlt', hne'⟩ := hs.entered j t hj
          refine ⟨hlt', fun p hp => ?_⟩
          rcases List.mem_append.mp hp with hp | hp
          · exact hne' p hp
          · rw [List.mem_singleton.mp hp]
            exact fun hsame => hji (hs.apart j i t task hj h hsame.symm)
    apart := by
      intro j k t u hj hk
      simp only [Function.update_apply] at hj hk
      split at hj
      · cases hj
      · split at hk
        · cases hk
        · exact hs.apart j k t u hj hk
    answered := by
      intro j t b hj
      simp only [Function.update_apply] at hj
      split at hj
      · cases hj
        exact List.mem_append_right _ (List.mem_singleton_self _)
      · exact List.mem_append_left _ (hs.answered j t b hj)
    results := fun p hp => List.mem_append_left _ (hs.results p hp) }

theorem numbered_answer (hs : Numbered s) (i : ι) (task : PoolTask α) (result : Bool)
    (h : s.callers i = .answering task result) :
    Numbered { s with
      results := s.results ++ [(task, result)]
      callers := Function.update s.callers i .idle } := by
  have hmoved := numbered_move hs i .idle (by simp) (by simp)
  exact { hmoved with
    results := by
      intro p hp
      rcases List.mem_append.mp hp with hp | hp
      · exact hs.results p hp
      · rw [List.mem_singleton.mp hp]
        exact hs.answered i task result h }

theorem numbered_step {s' : PoolState ι α} (hs : Numbered s) (h : PoolStep s s') :
    Numbered s' := by
  cases h with
  | enter i body h => exact numbered_enter hs i body
  | enqueue i task h => exact numbered_enqueue hs i task _ _ h
  | answer i task result h => exact numbered_answer hs i task result h
  | callShutdown i h => exact numbered_move hs i _ (by simp) (by simp)
  | shutdown i h =>
      have hmoved := numbered_move hs i
        (if s.pool.shutdown.1 then .joining 0 else .idle)
        (by intro t; split <;> simp) (by intro t b; split <;> simp)
      exact { hmoved with }
  | join i joined h hworker => exact numbered_move hs i _ (by simp) (by simp)
  | joined i h => exact numbered_move hs i _ (by simp) (by simp)
  | wake before after h => exact { hs with }
  | take before after h => exact { hs with }
  | call before after task h => exact { hs with }
  | finish before after task outcome h => exact { hs with }
  | deactivate before after task h => exact { hs with }
  | complete before after task h => exact { hs with }

end Callers

theorem Numbered.accepted_nodup {s : PoolState ι α} (hs : Numbered s) : s.accepted.Nodup := by
  have hsub : (s.accepted.map (·.call)).Sublist (s.answers.map (·.1.call)) := by
    rw [PoolState.accepted, List.map_map]
    exact List.filter_sublist.map _
  exact List.Nodup.of_map _ (hsub.nodup hs.nodup)

/-! ## One place for each task -/

/-- In a list whose chosen elements are distinct, each of them has one position. -/
theorem existsUnique_position {β τ : Type} {f : β → Option τ} {l : List β} {t : τ}
    (hnodup : (l.filterMap f).Nodup) (hmem : t ∈ l.filterMap f) :
    ∃! n : Nat, (l[n]?).bind f = some t := by
  obtain ⟨b, hb, hf⟩ := List.mem_filterMap.mp hmem
  obtain ⟨n, hn, hget⟩ := List.mem_iff_getElem.mp hb
  refine ⟨n, by simp [List.getElem?_eq_getElem hn, hget, hf], ?_⟩
  intro m hm
  obtain ⟨b', hb', hf'⟩ := Option.bind_eq_some_iff.mp hm
  obtain ⟨hm', hget'⟩ := List.getElem?_eq_some_iff.mp hb'
  have hpair := List.pairwise_iff_getElem.mp (List.pairwise_filterMap.mp hnodup)
  rcases Nat.lt_trichotomy m n with hlt | heq | hgt
  · exact absurd rfl (hpair m n hm' hn hlt t (by rw [hget', hf']) t (by rw [hget, hf]))
  · exact heq
  · exact absurd rfl (hpair n m hn hm' hgt t (by rw [hget, hf]) t (by rw [hget', hf']))

theorem mem_of_position {β τ : Type} {f : β → Option τ} {l : List β} {t : τ} {n : Nat}
    (h : (l[n]?).bind f = some t) : t ∈ l.filterMap f := by
  obtain ⟨b, hb, hf⟩ := Option.bind_eq_some_iff.mp h
  exact List.mem_filterMap.mpr ⟨b, List.mem_of_getElem? hb, hf⟩

/-- An accepted task is in the queue, with a worker or done: in one of them, once. -/
theorem existsUnique_place {s : PoolState ι α} (hs : Accounted s) (hn : Numbered s)
    {task : PoolTask α} (htask : task ∈ s.accepted) : ∃! p, s.content p = some task := by
  have hperm : s.accepted.Perm (s.held ++ s.done ++ s.pool.tasks) := by
    rw [hs.order]
    exact hs.held.append_right _
  have hall := hperm.nodup_iff.mp hn.accepted_nodup
  obtain ⟨hfront, hqueue, hapart⟩ := List.nodup_append.mp hall
  obtain ⟨hheld, hdone, hapart'⟩ := List.nodup_append.mp hfront
  have hinQueue : ∀ n, s.content (.queue n) = some task →
      (s.pool.tasks[n]?).bind some = some task ∧ task ∈ s.pool.tasks := fun n hp =>
    ⟨by simpa [PoolState.content] using hp, List.mem_of_getElem? hp⟩
  have hinWorker : ∀ n, s.content (.worker n) = some task →
      (s.workers[n]?).bind (·.task) = some task ∧ task ∈ s.held := fun n hp =>
    ⟨hp, mem_of_position hp⟩
  have hinDone : ∀ n, s.content (.done n) = some task →
      (s.done[n]?).bind some = some task ∧ task ∈ s.done := fun n hp =>
    ⟨by simpa [PoolState.content] using hp, List.mem_of_getElem? hp⟩
  have hmem := hperm.mem_iff.mp htask
  rw [List.mem_append, List.mem_append] at hmem
  rcases hmem with (hmem | hmem) | hmem
  · obtain ⟨n, hposition, honly⟩ := existsUnique_position hheld hmem
    refine ⟨.worker n, hposition, ?_⟩
    intro p hp
    cases p with
    | queue m => exact absurd rfl (hapart _ (List.mem_append_left _ hmem) _ (hinQueue _ hp).2)
    | worker m => rw [honly m (hinWorker _ hp).1]
    | done m => exact absurd rfl (hapart' _ hmem _ (hinDone _ hp).2)
  · obtain ⟨n, hposition, honly⟩ := existsUnique_position (f := some) (l := s.done)
      (by simpa using hdone) (by simpa using hmem)
    refine ⟨.done n, by simpa [PoolState.content] using hposition, ?_⟩
    intro p hp
    cases p with
    | queue m => exact absurd rfl (hapart _ (List.mem_append_right _ hmem) _ (hinQueue _ hp).2)
    | worker m => exact absurd rfl (hapart' _ (hinWorker _ hp).2 _ hmem)
    | done m => rw [honly m (hinDone _ hp).1]
  · obtain ⟨n, hposition, honly⟩ := existsUnique_position (f := some) (l := s.pool.tasks)
      (by simpa using hqueue) (by simpa using hmem)
    refine ⟨.queue n, by simpa [PoolState.content] using hposition, ?_⟩
    intro p hp
    cases p with
    | queue m => rw [honly m (hinQueue _ hp).1]
    | worker m => exact absurd rfl (hapart _ (List.mem_append_left _ (hinWorker _ hp).2) _ hmem)
    | done m => exact absurd rfl (hapart _ (List.mem_append_right _ (hinDone _ hp).2) _ hmem)

/-! ## Stopping -/

section Stopping

variable [DecidableEq ι] {s s' : PoolState ι α}

/-- `stopping_` is never reset, and while it is set nothing is accepted. -/
theorem stopping_step (h : PoolStep s s') (hstop : s.pool.stopping = true) :
    s'.pool.stopping = true ∧ s'.accepted = s.accepted := by
  cases h with
  | enqueue i task h =>
      have hsame := s.accepted_append task false
      rw [enqueue_refused (Or.inl hstop)]
      exact ⟨hstop, hsame⟩
  | shutdown i h =>
      rw [shutdown_pool]
      exact ⟨rfl, rfl⟩
  | take before after h =>
      obtain ⟨-, -, htake⟩ | ⟨-, -, htake⟩ | ⟨_, _, -, htake⟩ := take_cases s.pool
      · rw [htake]
        exact ⟨hstop, rfl⟩
      · rw [htake]
        exact ⟨hstop, rfl⟩
      · rw [htake]
        exact ⟨hstop, rfl⟩
  | enter i body h => exact ⟨hstop, rfl⟩
  | answer i task result h => exact ⟨hstop, rfl⟩
  | callShutdown i h => exact ⟨hstop, rfl⟩
  | join i joined h hworker => exact ⟨hstop, rfl⟩
  | joined i h => exact ⟨hstop, rfl⟩
  | wake before after h => exact ⟨hstop, rfl⟩
  | call before after task h => exact ⟨hstop, rfl⟩
  | finish before after task outcome h => exact ⟨hstop, rfl⟩
  | deactivate before after task h => exact ⟨hstop, rfl⟩
  | complete before after task h => exact ⟨hstop, rfl⟩

theorem stopping_later (hlater : Later PoolStep s s') (hstop : s.pool.stopping = true) :
    s'.pool.stopping = true ∧ s'.accepted = s.accepted := by
  refine hlater.keeps (I := fun _ => True) (P := fun t =>
    t.pool.stopping = true ∧ t.accepted = s.accepted) (fun _ _ h _ => h) ?_ trivial ⟨hstop, rfl⟩
  intro t t' _ ht hstep
  obtain ⟨hstop', hsame⟩ := stopping_step hstep ht.1
  exact ⟨hstop', hsame.trans ht.2⟩

/-- There is a worker, and the pool keeps its workers. -/
theorem workers_ne_nil_step (h : PoolStep s s') (hs : s.workers ≠ []) : s'.workers ≠ [] := by
  cases h with
  | wake | take | call | finish | deactivate | complete => simp
  | _ => exact hs

end Stopping

/-! ## `shutdown` waits for the workers -/

/-- The workers this caller has joined have returned. -/
def CallerPhase.Settled (workers : List (WorkerPhase (PoolTask α))) : CallerPhase α → Prop
  | .joining n => ∀ w ∈ workers.take n, w = .returned
  | .stopped => ∀ w ∈ workers, w = .returned
  | _ => True

def Joined (s : PoolState ι α) : Prop := ∀ i, (s.callers i).Settled s.workers

section Joined

variable {s : PoolState ι α}

/-- A worker that has not returned is not among those joined. -/
theorem joined_move (hs : Joined s) {before after : List (WorkerPhase (PoolTask α))}
    {w : WorkerPhase (PoolTask α)} (w' : WorkerPhase (PoolTask α))
    (h : s.workers = before ++ w :: after) (hw : w ≠ .returned) (i : ι) :
    (s.callers i).Settled (before ++ w' :: after) := by
  have hi := hs i
  rw [h] at hi
  cases hcaller : s.callers i with
  | joining n =>
      rw [hcaller, CallerPhase.Settled] at hi
      have hn : n ≤ before.length := by
        by_contra hlt
        refine hw (hi w ?_)
        rw [List.take_append, List.mem_append]
        right
        obtain ⟨k, hk⟩ : ∃ k, n - before.length = k + 1 := ⟨n - before.length - 1, by omega⟩
        rw [hk, List.take_succ_cons]
        exact List.mem_cons_self
      rw [List.take_append_of_le_length hn] at hi
      rw [CallerPhase.Settled, List.take_append_of_le_length hn]
      exact hi
  | stopped =>
      rw [hcaller, CallerPhase.Settled] at hi
      exact absurd (hi w (by simp)) hw
  | idle | enqueueing | answering | stopping => trivial

theorem joined_update [DecidableEq ι] (hs : Joined s) (i : ι) {phase : CallerPhase α}
    (hphase : phase.Settled s.workers) :
    Joined { s with callers := Function.update s.callers i phase } := by
  intro j
  simp only [Function.update_apply]
  split
  · exact hphase
  · exact hs j

theorem joined_step [DecidableEq ι] {s' : PoolState ι α} (hs : Joined s) (h : PoolStep s s') :
    Joined s' := by
  cases h with
  | enter i body h => exact joined_update hs i trivial
  | enqueue i task h => exact joined_update hs i trivial
  | answer i task result h => exact joined_update hs i trivial
  | callShutdown i h => exact joined_update hs i trivial
  | shutdown i h =>
      refine joined_update hs i ?_
      cases s.pool.shutdown.1 with
      | true => simp [CallerPhase.Settled]
      | false => trivial
  | join i n h hworker =>
      refine joined_update hs i ?_
      have hi := hs i
      rw [h, CallerPhase.Settled] at hi
      simp only [CallerPhase.Settled, List.take_add_one, hworker, Option.toList_some,
        List.mem_append, List.mem_singleton]
      intro w hw
      exact hw.elim (hi w) id
  | joined i h =>
      refine joined_update hs i ?_
      have hi := hs i
      rw [h] at hi
      simpa [CallerPhase.Settled] using hi
  | wake before after h => exact joined_move hs _ h (by simp)
  | take before after h => exact joined_move hs _ h (by simp)
  | call before after task h => exact joined_move hs _ h (by simp)
  | finish before after task outcome h => exact joined_move hs _ h (by simp)
  | deactivate before after task h => exact joined_move hs _ h (by simp)
  | complete before after task h => exact joined_move hs _ h (by simp)

end Joined

/-! ## Runs -/

section Runs

variable {s : PoolState ι α}

structure PoolInvariant (s : PoolState ι α) : Prop where
  accounted : Accounted s
  numbered : Numbered s
  joined : Joined s
  staffed : s.workers ≠ []

theorem poolInvariant_initial (h : s.Initial) : PoolInvariant s := by
  obtain ⟨workerCount, maxQueueSize, pool, workers, hconstruct, hs⟩ := h
  rw [ThreadPool.construct] at hconstruct
  split at hconstruct
  · cases hconstruct
  · next hcount =>
      split at hconstruct
      · cases hconstruct
      · cases hconstruct
        rw [hs]
        have hnone : ∀ f : WorkerPhase (PoolTask α) → Option (PoolTask α), f .locking = none →
            (List.replicate workerCount .locking).filterMap f = [] := by
          intro f hf
          rw [List.filterMap_eq_nil_iff]
          intro w hw
          rw [List.eq_of_mem_replicate hw, hf]
        exact {
          accounted := {
            order := rfl
            held := by
              rw [PoolState.held, hnone _ rfl]
              exact List.Perm.nil
            runs := by
              rw [hnone _ rfl]
              exact List.Perm.nil
            active := by
              rw [hnone _ rfl]
              rfl
            completed := rfl
            rejected := rfl
            bound := Nat.zero_le _
            drained := fun hmem => nomatch List.eq_of_mem_replicate hmem }
          numbered := {
            lt := by simp
            nodup := by simp
            entered := by simp
            apart := by simp
            answered := by simp
            results := by simp }
          joined := fun _ => trivial
          staffed := by simpa using hcount }

theorem poolInvariant_step [DecidableEq ι] {s' : PoolState ι α} (hs : PoolInvariant s)
    (h : PoolStep s s') : PoolInvariant s' where
  accounted := accounted_step hs.accounted h
  numbered := numbered_step hs.numbered h
  joined := joined_step hs.joined h
  staffed := workers_ne_nil_step h hs.staffed

theorem poolInvariant_run [DecidableEq ι] (h : Reachable PoolState.Initial PoolStep s) :
    PoolInvariant s :=
  h.invariant (fun _ hs => poolInvariant_initial hs) fun _ _ hs hstep => poolInvariant_step hs hstep

/-- Everything accepted has been called and counted, and nobody is at work. -/
structure Drained (s : PoolState ι α) : Prop where
  empty : s.pool.tasks = []
  runs : s.runs.Perm s.accepted
  once : s.runs.Nodup
  completed : s.pool.completed = s.accepted.length
  rejected : s.pool.rejected = s.refused.length
  active : s.pool.active = 0

theorem drained_of_returned (hs : PoolInvariant s) (h : ∀ w ∈ s.workers, w = .returned) :
    Drained s := by
  obtain ⟨w, hw⟩ := List.exists_mem_of_ne_nil _ hs.staffed
  have hempty := (hs.accounted.drained (h w hw ▸ hw)).2
  have hnone : ∀ f : WorkerPhase (PoolTask α) → Option (PoolTask α), f .returned = none →
      s.workers.filterMap f = [] := by
    intro f hf
    rw [List.filterMap_eq_nil_iff]
    intro w hw
    rw [h w hw, hf]
  have htaken : s.accepted = s.taken := by
    rw [hs.accounted.order, hempty, List.append_nil]
  have hdone : s.accepted.Perm s.done := by
    have hheld := hs.accounted.held
    rw [PoolState.held, hnone _ rfl, List.nil_append] at hheld
    exact htaken ▸ hheld
  have hruns : s.runs.Perm s.accepted := by
    have hcalled := hs.accounted.runs
    rw [hnone _ rfl, List.nil_append] at hcalled
    exact hcalled.trans hdone.symm
  exact {
    empty := hempty
    runs := hruns
    once := hruns.nodup_iff.mpr hs.numbered.accepted_nodup
    completed := hs.accounted.completed.trans hdone.length_eq.symm
    rejected := hs.accounted.rejected
    active := by rw [hs.accounted.active, hnone _ rfl, List.length_nil] }

/-- A `shutdown` that joined the workers leaves nothing behind. -/
theorem shutdown_drains [DecidableEq ι] (hrun : Reachable PoolState.Initial PoolStep s) {i : ι}
    (h : s.callers i = .stopped) : Drained s := by
  have hs := poolInvariant_run hrun
  have hjoined := hs.joined i
  rw [h] at hjoined
  exact drained_of_returned hs hjoined

theorem mem_accepted {task : PoolTask α} : task ∈ s.accepted ↔ (task, true) ∈ s.answers := by
  simp [PoolState.accepted]

/-- In every run of the pool: a task whose call returned true is accepted, and an
accepted task is in exactly one place; the queue is within its bound; the tasks
are taken in the order they were accepted in; once `stopping_` is set nothing
more is accepted, and a call made after that never returns true; and when all
workers have returned, every accepted task has run exactly once and the
counters say so. -/
theorem pool_runs [DecidableEq ι] (hrun : Reachable PoolState.Initial PoolStep s) :
    (∀ task, (task, true) ∈ s.results → task ∈ s.accepted) ∧
    (∀ task ∈ s.accepted, ∃! p, s.content p = some task) ∧
    s.pool.tasks.length ≤ s.pool.maxQueueSize ∧
    s.accepted = s.taken ++ s.pool.tasks ∧
    (s.pool.stopping = true → ∀ s', Later PoolStep s s' →
      s'.accepted = s.accepted ∧
        ∀ task, s.calls ≤ task.call → (task, true) ∉ s'.results) ∧
    ((∀ w ∈ s.workers, w = .returned) → Drained s) := by
  have hs := poolInvariant_run hrun
  refine ⟨fun task htask => mem_accepted.mpr (hs.numbered.results _ htask),
    fun task htask => existsUnique_place hs.accounted hs.numbered htask,
    hs.accounted.bound, hs.accounted.order, ?_, drained_of_returned hs⟩
  · intro hstop s' hlater
    have hsame := (stopping_later hlater hstop).2
    refine ⟨hsame, fun task hcall htask => ?_⟩
    have hs' := poolInvariant_run (hrun.later hlater)
    have hmem := mem_accepted.mpr (hs'.numbered.results _ htask)
    rw [hsame] at hmem
    have hlt := hs.numbered.lt _ (mem_accepted.mp hmem)
    exact absurd hlt (Nat.not_lt.mpr hcall)

end Runs

/-- One thread brings one task to one worker and shuts the pool down. -/
theorem pool_runs_oneTask :
    ∃ s : PoolState Unit Unit, Reachable PoolState.Initial PoolStep s ∧
      s.runs = [{ call := 0, body := () }] ∧ Drained s := by
  have idle : Reachable PoolState.Initial PoolStep
      ({ pool := { maxQueueSize := 1 }, workers := [.locking], callers := fun _ => .idle } :
        PoolState Unit Unit) := .start ⟨1, 1, _, _, rfl, rfl⟩
  have entered := idle.step (.enter _ () () rfl)
  have queued := entered.step (.enqueue _ () { call := 0, body := () } rfl)
  have accepted := queued.step (.answer _ () { call := 0, body := () } true rfl)
  have taken := accepted.step (.take _ [] [] rfl)
  have running := taken.step (.call _ [] [] { call := 0, body := () } rfl)
  have ended := running.step (.finish _ [] [] { call := 0, body := () } (.ok ()) rfl)
  have inactive := ended.step (.deactivate _ [] [] { call := 0, body := () } rfl)
  have done := inactive.step (.complete _ [] [] { call := 0, body := () } rfl)
  have stopping := (done.step (.callShutdown _ () rfl)).step (.shutdown _ () rfl)
  have returned := stopping.step (.take _ [] [] rfl)
  have hreturned := (pool_runs returned).2.2.2.2.2 (by
    intro w hw
    exact List.mem_singleton.mp hw)
  exact ⟨_, returned, rfl, hreturned⟩

end HydrogenHttpd.Ref
