import VServer.Pool.ThreadPool

/-!
# Nobody waits in vain

A worker sleeps on `m_cond_notempty` only while every queued task has a worker that was signalled and
is on its way, and a producer on `m_cond_notfull` only while every free slot has such a producer. Each
push and each pop sends one signal, which covers one more of them (`CondVar.Covers.signal`); a thread
that gets the mutex costs one signal at most, and then it uses up a task or a slot, or finds none.
Behind `stop()` nobody sleeps at all.
-/

namespace VServer

namespace ThreadPool

open Machine

variable {ι τ : Type} [Fintype ι]

section Places

variable {p : Place τ}

theorem notEmpty_asleep_of_none (h : p.notEmptyWait = none) : notEmpty.asleep p = false := by
  simp [notEmpty, h]

theorem notEmpty_signalled_of_none (h : p.notEmptyWait = none) :
    notEmpty.signalled p = false := by
  simp [notEmpty, h]

theorem notFull_asleep_of_none (h : p.notFullWait = none) : notFull.asleep p = false := by
  simp [notFull, h]

theorem notFull_signalled_of_none (h : p.notFullWait = none) : notFull.signalled p = false := by
  simp [notFull, h]

theorem notEmpty_apart : (notEmpty : CondVar (Place τ)).Apart notFull := by
  intro p
  cases p <;> exact ⟨rfl, rfl⟩

theorem notFull_apart : (notFull : CondVar (Place τ)).Apart notEmpty := by
  intro p
  cases p <;> exact ⟨rfl, rfl⟩

end Places

/-- No task is lost, and both condition variables cover what their waiters wait for. -/
structure Covered (maxWaits : Nat) (s : ThreadPool ι τ) : Prop where
  queue : s.accepted = s.taken ++ s.tasks
  bound : 0 < maxWaits → s.tasks.length ≤ maxWaits
  workers : s.running = true → notEmpty.Covers s.tasks.length s.threads
  producers : s.running = true → notFull.Covers (maxWaits - s.tasks.length) s.threads

variable {maxWaits : Nat} {worker : ι → Bool} {s s' : ThreadPool ι τ}

theorem init_covered : Covered maxWaits (init : ThreadPool ι τ) where
  queue := rfl
  bound _ := Nat.zero_le _
  workers _ := CondVar.covers_zero
  producers _ hsleep := by
    obtain ⟨i, hi⟩ := hsleep
    rw [CondVar.mem_threadsAt] at hi
    cases hi

variable [DecidableEq ι]

/-! ## The steps -/

theorem Covered.move (h : Covered maxWaits s) {who : ι} {p : Place τ}
    (hempty : notEmpty.asleep p = false) (hfull : notFull.asleep p = false)
    (hwasEmpty : notEmpty.signalled (s.threads who) = false)
    (hwasFull : notFull.signalled (s.threads who) = false) : Covered maxWaits (s.move who p) where
  queue := h.queue
  bound := h.bound
  workers hrunning := (h.workers hrunning).pass hempty hwasEmpty
  producers hrunning := (h.producers hrunning).pass hfull hwasFull

theorem Covered.move_of_stopped (h : Covered maxWaits s) (hstopped : s.running = false) (who : ι)
    (p : Place τ) : Covered maxWaits (s.move who p) := by
  have hnot : ¬s.running = true := by simp [hstopped]
  exact ⟨h.queue, h.bound, fun hrunning => absurd hrunning hnot,
    fun hrunning => absurd hrunning hnot⟩

theorem signal_inv {c : CondVar (Place τ)} {woken : Finset ι} (h : s.signal c woken = .ok s') :
    c.Legal woken s.threads ∧ s' = { s with threads := c.signal woken s.threads } := by
  unfold signal at h
  split at h
  · rename_i hlegal
    exact ⟨hlegal, (Except.ok.inj h).symm⟩
  · cases h

theorem signal_self {c : CondVar (Place τ)} {woken : Finset ι} {who : ι} {f : ι → Place τ}
    (hlegal : c.Legal woken f) (hawake : c.asleep (f who) = false) :
    c.signal woken f who = f who := by
  have hnot : who ∉ woken := by
    intro hmem
    have hasleep := CondVar.mem_threadsAt.mp (hlegal.1 hmem)
    rw [hawake] at hasleep
    cases hasleep
  rw [CondVar.signal, if_neg hnot]

theorem addTask_covered (h : Covered maxWaits s) {who : ι} {task : Option τ} {woken : Finset ι}
    (hplace : (s.threads who).notEmptyWait = none)
    (hadd : s.addTask maxWaits who task woken = .ok s') : Covered maxWaits s' := by
  unfold addTask at hadd
  split at hadd
  · rename_i hfull
    simp only [isFull, Bool.and_eq_true, decide_eq_true_eq] at hfull
    cases hadd
    refine ⟨h.queue, h.bound, fun hrunning => ?_, fun _ => ?_⟩
    · exact (h.workers hrunning).pass rfl (notEmpty_signalled_of_none hplace)
    · have hnone : maxWaits - s.tasks.length = 0 := by omega
      show notFull.Covers (maxWaits - s.tasks.length) _
      rw [hnone]
      exact CondVar.covers_zero
  · rename_i hfull
    split at hadd
    · rename_i hrunning
      obtain ⟨signalled, hsignal, hok⟩ := bind_eq_ok hadd
      obtain ⟨hlegal, rfl⟩ := signal_inv hsignal
      cases hok
      have hself := signal_self hlegal (notEmpty_asleep_of_none hplace)
      refine ⟨?_, fun hpos => ?_, fun _ => ?_, fun _ => ?_⟩
      · show s.accepted ++ [task] = s.taken ++ (s.tasks ++ [task])
        rw [h.queue, List.append_assoc]
      · show (s.tasks ++ [task]).length ≤ maxWaits
        simp only [isFull, hrunning, Bool.and_true, decide_eq_true_eq, not_and] at hfull
        have hroom := hfull hpos
        rw [List.length_append, List.length_singleton]
        omega
      · show notEmpty.Covers (s.tasks ++ [task]).length (Function.update _ who .idle)
        rw [List.length_append, List.length_singleton]
        refine ((h.workers hrunning).signal hlegal).pass rfl ?_
        rw [hself]
        exact notEmpty_signalled_of_none hplace
      · show notFull.Covers (maxWaits - (s.tasks ++ [task]).length) (Function.update _ who .idle)
        have hless := ((h.producers hrunning).signal_other notFull_apart woken).leave who
          (rfl : notFull.asleep (Place.idle : Place τ) = false)
        refine hless.mono ?_
        rw [List.length_append, List.length_singleton]
        omega
    · rename_i hstopped
      cases hadd
      exact h.move_of_stopped (by simpa using hstopped) who .idle

theorem getTask_covered (h : Covered maxWaits s) {who : ι} {woken : Finset ι}
    (hplace : (s.threads who).notFullWait = none)
    (hget : s.getTask maxWaits who woken = .ok s') : Covered maxWaits s' := by
  unfold getTask at hget
  split at hget
  · rename_i htasks
    split at hget
    · cases hget
      refine ⟨h.queue, h.bound, fun _ => ?_, fun hrunning => ?_⟩
      · show notEmpty.Covers s.tasks.length _
        rw [htasks]
        exact CondVar.covers_zero
      · exact (h.producers hrunning).pass rfl (notFull_signalled_of_none hplace)
    · rename_i hstopped
      cases hget
      exact h.move_of_stopped (by simpa using hstopped) who .head
  · rename_i task tasks htasks
    have hlength : s.tasks.length = tasks.length + 1 := by rw [htasks, List.length_cons]
    obtain ⟨p, hempty, hfull, hp⟩ : ∃ p : Place τ, notEmpty.asleep p = false ∧
        notFull.asleep p = false ∧ p = if task.isSome then .idle else .head := by
      cases task with
      | none => exact ⟨.head, rfl, rfl, rfl⟩
      | some f => exact ⟨.idle, rfl, rfl, rfl⟩
    rw [← hp] at hget
    have hqueue : s.accepted = s.taken ++ [task] ++ tasks := by
      rw [h.queue, htasks, List.append_assoc, List.singleton_append]
    have hbound : 0 < maxWaits → tasks.length ≤ maxWaits := fun hpos => by
      have hold := h.bound hpos
      omega
    dsimp only at hget
    split at hget
    · obtain ⟨popped, hsignal, hok⟩ := bind_eq_ok hget
      obtain ⟨hlegal, rfl⟩ := signal_inv hsignal
      cases hok
      have hself := signal_self hlegal (notFull_asleep_of_none hplace)
      refine ⟨hqueue, hbound, fun hrunning => ?_, fun hrunning => ?_⟩
      · have hless := ((h.workers hrunning).signal_other notEmpty_apart woken).leave who hempty
        rw [hlength] at hless
        exact hless
      · have hmore := ((h.producers hrunning).signal hlegal).pass hfull
          (hself ▸ notFull_signalled_of_none hplace)
        refine hmore.mono ?_
        show maxWaits - tasks.length ≤ _
        omega
    · rename_i hunbounded
      cases hget
      refine ⟨hqueue, hbound, fun hrunning => ?_, fun _ => ?_⟩
      · have hless := (h.workers hrunning).leave who hempty
        rw [hlength] at hless
        exact hless
      · have hnone : maxWaits - tasks.length = 0 := by omega
        show notFull.Covers (maxWaits - tasks.length) _
        rw [hnone]
        exact CondVar.covers_zero

/-- **Every step keeps the tasks and the signals together.** -/
theorem step_covered (h : Covered maxWaits s) {label : Label ι τ}
    (hstep : step maxWaits worker s label = .ok s') : Covered maxWaits s' := by
  cases label with
  | call who task =>
    simp only [step] at hstep
    split at hstep
    · rename_i hplace
      split at hstep
      · cases hstep
        exact h
      · cases hstep
        exact h.move rfl rfl (by rw [hplace]; rfl) (by rw [hplace]; rfl)
    · cases hstep
  | addTask who woken =>
    simp only [step] at hstep
    split at hstep
    case h_4 => cases hstep
    all_goals
      rename_i hplace
      exact addTask_covered h (by rw [hplace]; rfl) hstep
  | ret who =>
    simp only [step] at hstep
    split at hstep
    · rename_i hplace
      cases hstep
      exact h.move rfl rfl (by rw [hplace]; rfl) (by rw [hplace]; rfl)
    · cases hstep
  | test who =>
    simp only [step] at hstep
    split at hstep
    · rename_i hplace
      cases hstep
      refine h.move ?_ ?_ (by rw [hplace]; rfl) (by rw [hplace]; rfl)
      · split <;> rfl
      · split <;> rfl
    · cases hstep
  | getTask who woken =>
    simp only [step] at hstep
    split at hstep
    case h_4 => cases hstep
    all_goals
      rename_i hplace
      exact getTask_covered h (by rw [hplace]; rfl) hstep
  | spurious who =>
    simp only [step] at hstep
    split at hstep
    case h_3 => cases hstep
    all_goals
      rename_i hplace
      cases hstep
      exact h.move rfl rfl (by rw [hplace]; rfl) (by rw [hplace]; rfl)
  | stop =>
    cases hstep
    exact ⟨h.queue, h.bound, nofun, nofun⟩

/-! ## Runs -/

theorem run_covered {labels : List (Label ι τ)} (hrun : run (step maxWaits worker) init labels = .ok s) :
    Covered maxWaits s :=
  run_inv (fun _ _ _ h _ hstep => step_covered h hstep) init_covered
    (along_of_forall (fun _ _ => trivial) labels) hrun

theorem length_tasks_le {labels : List (Label ι τ)} (hpos : 0 < maxWaits)
    (hrun : run (step maxWaits worker) init labels = .ok s) : s.tasks.length ≤ maxWaits :=
  (run_covered hrun).bound hpos

/-- **No task is lost and nobody waits in vain.** While the pool runs the accepted tasks are those
that were taken and those in the queue; while a worker sleeps every queued task has a signalled
worker, and while a producer sleeps every free slot has a signalled producer. -/
theorem tasks_and_wakeups_kept {labels : List (Label ι τ)}
    (hrun : run (step maxWaits worker) init labels = .ok s) (hrunning : s.running = true) :
    s.accepted = s.taken ++ s.tasks ∧
      ((notEmpty.sleepers s.threads).Nonempty →
        s.tasks.length ≤ (notEmpty.signalledThreads s.threads).card) ∧
      ((notFull.sleepers s.threads).Nonempty →
        maxWaits - s.tasks.length ≤ (notFull.signalledThreads s.threads).card) := by
  have hcovered := run_covered hrun
  exact ⟨hcovered.queue, hcovered.workers hrunning, hcovered.producers hrunning⟩

/-- Two workers sleep, and the signal of `addTask` has woken one of them. -/
theorem tasks_and_wakeups_kept_signal :
    ∃ s : ThreadPool (Fin 3) Nat,
      run (step 1 fun who => decide (who ≠ 2)) init
          [.ret 0, .test 0, .getTask 0 ∅, .ret 1, .test 1, .getTask 1 ∅, .call 2 (some 7),
            .addTask 2 {0}] = .ok s ∧
        s.running = true ∧ s.tasks = [some 7] ∧
        s.accepted = s.taken ++ s.tasks ∧
        ((notEmpty.sleepers s.threads).Nonempty →
          s.tasks.length ≤ (notEmpty.signalledThreads s.threads).card) ∧
        ((notFull.sleepers s.threads).Nonempty →
          1 - s.tasks.length ≤ (notFull.signalledThreads s.threads).card) := by
  obtain ⟨s, hrun, hstate⟩ : ∃ s : ThreadPool (Fin 3) Nat,
      run (step 1 fun who => decide (who ≠ 2)) init
          [.ret 0, .test 0, .getTask 0 ∅, .ret 1, .test 1, .getTask 1 ∅, .call 2 (some 7),
            .addTask 2 {0}] = .ok s ∧ (s.running, s.tasks) = (true, [some 7]) :=
    eq_ok_of_toOption (by decide)
  obtain ⟨hrunning, htasks⟩ := Prod.mk.inj hstate
  exact ⟨s, hrun, hrunning, htasks, tasks_and_wakeups_kept hrun hrunning⟩

/-! ## Behind `stop()` -/

def Roused (s : ThreadPool ι τ) : Prop :=
  s.running = false → ∀ who,
    notEmpty.asleep (s.threads who) = false ∧ notFull.asleep (s.threads who) = false

omit [Fintype ι] in
theorem Roused.move (h : Roused s) {who : ι} {p : Place τ}
    (hp : s.running = false → notEmpty.asleep p = false ∧ notFull.asleep p = false) :
    Roused (s.move who p) := by
  intro hstopped j
  by_cases hj : j = who
  · subst hj
    show notEmpty.asleep (Function.update s.threads j p j) = false ∧
      notFull.asleep (Function.update s.threads j p j) = false
    rw [Function.update_self]
    exact hp hstopped
  · show notEmpty.asleep (Function.update s.threads who p j) = false ∧
      notFull.asleep (Function.update s.threads who p j) = false
    rw [Function.update_of_ne hj]
    exact h hstopped j

theorem Roused.signal (h : Roused s) {c : CondVar (Place τ)} {woken : Finset ι}
    (hc : c = notEmpty ∨ c = notFull) (hsignal : s.signal c woken = .ok s') : Roused s' := by
  obtain ⟨hlegal, rfl⟩ := signal_inv hsignal
  intro hstopped j
  have hawake : c.asleep (s.threads j) = false := by
    rcases hc with rfl | rfl
    · exact (h hstopped j).1
    · exact (h hstopped j).2
  show notEmpty.asleep (c.signal woken s.threads j) = false ∧
    notFull.asleep (c.signal woken s.threads j) = false
  rw [signal_self hlegal hawake]
  exact h hstopped j

theorem addTask_roused (h : Roused s) {who : ι} {task : Option τ} {woken : Finset ι}
    (hadd : s.addTask maxWaits who task woken = .ok s') : Roused s' := by
  unfold addTask at hadd
  split at hadd
  · rename_i hfull
    cases hadd
    rw [Bool.and_eq_true] at hfull
    refine h.move fun hstopped => ?_
    rw [hstopped] at hfull
    cases hfull.2
  · split at hadd
    · obtain ⟨signalled, hsignal, hok⟩ := bind_eq_ok hadd
      cases hok
      have hpushed : Roused { s with
          tasks := s.tasks ++ [task]
          accepted := s.accepted ++ [task] } := h
      exact (hpushed.signal (.inl rfl) hsignal).move fun _ => ⟨rfl, rfl⟩
    · cases hadd
      exact h.move fun _ => ⟨rfl, rfl⟩

theorem getTask_roused (h : Roused s) {who : ι} {woken : Finset ι}
    (hget : s.getTask maxWaits who woken = .ok s') : Roused s' := by
  unfold getTask at hget
  split at hget
  · split at hget
    · rename_i hrunning
      cases hget
      refine h.move fun hstopped => ?_
      rw [hstopped] at hrunning
      cases hrunning
    · cases hget
      exact h.move fun _ => ⟨rfl, rfl⟩
  · rename_i task tasks htasks
    have hplace : notEmpty.asleep (if task.isSome then .idle else .head : Place τ) = false ∧
        notFull.asleep (if task.isSome then .idle else .head : Place τ) = false := by
      split <;> exact ⟨rfl, rfl⟩
    have hpopped : Roused { s with tasks := tasks, taken := s.taken ++ [task] } := h
    dsimp only at hget
    split at hget
    · obtain ⟨signalled, hsignal, hok⟩ := bind_eq_ok hget
      cases hok
      exact (hpopped.signal (.inr rfl) hsignal).move fun _ => hplace
    · cases hget
      exact hpopped.move fun _ => hplace

theorem step_roused (h : Roused s) {label : Label ι τ}
    (hstep : step maxWaits worker s label = .ok s') : Roused s' := by
  cases label with
  | addTask who woken =>
    simp only [step] at hstep
    split at hstep
    case h_4 => cases hstep
    all_goals exact addTask_roused h hstep
  | getTask who woken =>
    simp only [step] at hstep
    split at hstep
    case h_4 => cases hstep
    all_goals exact getTask_roused h hstep
  | call who task =>
    simp only [step] at hstep
    split at hstep
    · split at hstep
      · cases hstep
        exact h
      · cases hstep
        exact h.move fun _ => ⟨rfl, rfl⟩
    · cases hstep
  | ret who =>
    simp only [step] at hstep
    split at hstep
    · cases hstep
      exact h.move fun _ => ⟨rfl, rfl⟩
    · cases hstep
  | test who =>
    simp only [step] at hstep
    split at hstep
    · cases hstep
      refine h.move fun _ => ?_
      split <;> exact ⟨rfl, rfl⟩
    · cases hstep
  | spurious who =>
    simp only [step] at hstep
    split at hstep
    case h_3 => cases hstep
    all_goals
      cases hstep
      exact h.move fun _ => ⟨rfl, rfl⟩
  | stop =>
    cases hstep
    intro _ j
    have hempty : j ∉ notEmpty.sleepers (notFull.broadcast (notEmpty.broadcast s.threads)) := by
      rw [CondVar.broadcast, CondVar.sleepers_signal_other notEmpty_apart,
        CondVar.sleepers_broadcast]
      exact Finset.notMem_empty j
    have hfull : j ∉ notFull.sleepers (notFull.broadcast (notEmpty.broadcast s.threads)) := by
      rw [CondVar.sleepers_broadcast]
      exact Finset.notMem_empty j
    rw [CondVar.mem_threadsAt, Bool.not_eq_true] at hempty hfull
    exact ⟨hempty, hfull⟩

/-- **No thread sleeps through `stop()`**, so that the join of it waits for tasks only. -/
theorem none_asleep_of_stopped {labels : List (Label ι τ)}
    (hrun : run (step maxWaits worker) init labels = .ok s) (hstopped : s.running = false) :
    notEmpty.sleepers s.threads = ∅ ∧ notFull.sleepers s.threads = ∅ := by
  have hroused : Roused s :=
    run_inv (fun _ _ _ h _ hstep => step_roused h hstep) (fun h => by cases h)
      (along_of_forall (fun _ _ => trivial) labels) hrun
  constructor
  · ext j
    simp [(hroused hstopped j).1]
  · ext j
    simp [(hroused hstopped j).2]

end ThreadPool

end VServer
