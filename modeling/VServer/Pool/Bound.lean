import VServer.Pool.Waiters

/-!
# The bound of the queue

`addTask` keeps the queue within the field `m_max_waits`, and a thread sleeps there only when the
field is not zero. The constructor does not put its parameter into the field, so the queue keeps the
bound that was asked for only when the memory of the pool happened to hold one that is as good.
-/

namespace VServer

namespace ThreadPool

open Machine

variable {ι τ : Type} [Fintype ι] [DecidableEq ι] {maxWaits : Nat} {worker : ι → Bool}
  {s s' : ThreadPool ι τ}

/-! ## An unbounded queue -/

/-- Nobody is in the wait of `addTask`. -/
def NoneBlocked (s : ThreadPool ι τ) : Prop := ∀ who, (s.threads who).notFullWait = none

omit [Fintype ι] in
theorem NoneBlocked.move (h : NoneBlocked s) {who : ι} {p : Place τ} (hp : p.notFullWait = none) :
    NoneBlocked (s.move who p) := by
  intro j
  show (Function.update s.threads who p j).notFullWait = none
  by_cases hj : j = who
  · subst hj
    rwa [Function.update_self]
  · rw [Function.update_of_ne hj]
    exact h j

omit [Fintype ι] in
theorem NoneBlocked.signal (h : NoneBlocked s) {c : CondVar (Place τ)} (woken : Finset ι)
    (hwake : ∀ p, p.notFullWait = none → (c.wake p).notFullWait = none) :
    NoneBlocked { s with threads := c.signal woken s.threads } := by
  intro j
  show (c.signal woken s.threads j).notFullWait = none
  unfold CondVar.signal
  split
  · exact hwake _ (h j)
  · exact h j

theorem notEmpty_wake {p : Place τ} (hp : p.notFullWait = none) :
    (notEmpty.wake p).notFullWait = none := by
  cases p <;> first | rfl | exact hp

theorem notFull_wake {p : Place τ} (hp : p.notFullWait = none) :
    (notFull.wake p).notFullWait = none := by
  cases p <;> first | rfl | cases hp

theorem addTask_noneBlocked (h : NoneBlocked s) {who : ι} {task : Option τ} {woken : Finset ι}
    (hadd : s.addTask 0 who task woken = .ok s') : NoneBlocked s' := by
  unfold addTask at hadd
  have hroom : s.isFull 0 = false := by simp [isFull]
  rw [hroom, Bool.false_and, if_neg Bool.false_ne_true] at hadd
  split at hadd
  · obtain ⟨signalled, hsignal, hok⟩ := bind_eq_ok hadd
    obtain ⟨-, rfl⟩ := signal_inv hsignal
    cases hok
    have hpushed : NoneBlocked { s with
        tasks := s.tasks ++ [task]
        accepted := s.accepted ++ [task] } := h
    exact (hpushed.signal woken fun _ => notEmpty_wake).move rfl
  · cases hadd
    exact h.move rfl

theorem getTask_noneBlocked (h : NoneBlocked s) {who : ι} {woken : Finset ι}
    (hget : s.getTask 0 who woken = .ok s') : NoneBlocked s' := by
  unfold getTask at hget
  split at hget
  · split at hget <;> cases hget <;> exact h.move rfl
  · rename_i task tasks htasks
    have hpopped : NoneBlocked { s with tasks := tasks, taken := s.taken ++ [task] } := h
    dsimp only at hget
    rw [if_neg (Nat.lt_irrefl 0)] at hget
    cases hget
    refine hpopped.move ?_
    split <;> rfl

theorem step_noneBlocked (h : NoneBlocked s) {label : Label ι τ}
    (hstep : step 0 worker s label = .ok s') : NoneBlocked s' := by
  cases label with
  | addTask who woken =>
    simp only [step] at hstep
    split at hstep
    case h_4 => cases hstep
    all_goals exact addTask_noneBlocked h hstep
  | getTask who woken =>
    simp only [step] at hstep
    split at hstep
    case h_4 => cases hstep
    all_goals exact getTask_noneBlocked h hstep
  | call who task =>
    simp only [step] at hstep
    split at hstep
    · split at hstep
      · cases hstep
        exact h
      · cases hstep
        exact h.move rfl
    · cases hstep
  | ret who =>
    simp only [step] at hstep
    split at hstep
    · cases hstep
      exact h.move rfl
    · cases hstep
  | test who =>
    simp only [step] at hstep
    split at hstep
    · cases hstep
      refine h.move ?_
      split <;> rfl
    · cases hstep
  | spurious who =>
    simp only [step] at hstep
    split at hstep
    · rename_i task hplace
      have hnone := h who
      rw [hplace] at hnone
      cases hnone
    · cases hstep
      exact h.move rfl
    · cases hstep
  | stop =>
    cases hstep
    have hworkers : NoneBlocked { s with threads := notEmpty.broadcast s.threads } :=
      h.signal _ fun _ => notEmpty_wake
    exact hworkers.signal _ fun _ => notFull_wake

theorem run_noneBlocked {labels : List (Label ι τ)}
    (hrun : run (step 0 worker) init labels = .ok s) : NoneBlocked s :=
  run_inv (fun _ _ _ h _ hstep => step_noneBlocked h hstep) (fun _ => rfl)
    (along_of_forall (fun _ _ => trivial) labels) hrun

/-! ## A queue that is filled -/

/-- Every thread is outside of the pool, and `n` tasks were added. -/
def filled (n : Nat) : ThreadPool ι τ :=
  { init with tasks := List.replicate n none, accepted := List.replicate n none }

def asking (who : ι) (n : Nat) : ThreadPool ι τ := (filled n).move who (.adding none)

omit [Fintype ι] in
theorem asking_threads_self (who : ι) (n : Nat) :
    (asking who n : ThreadPool ι τ).threads who = .adding none := Function.update_self ..

theorem step_call (hworker : ∃ i, worker i = true) (who : ι) (n : Nat) :
    step maxWaits worker (filled n : ThreadPool ι τ) (.call who none) = .ok (asking who n) := by
  obtain ⟨i, hi⟩ := hworker
  have hsome : ¬∀ i, worker i = false := fun hnone => by
    rw [hnone i] at hi
    cases hi
  show (if ∀ i, worker i = false then _ else _) = _
  rw [if_neg hsome]
  rfl

theorem signal_asking (who : ι) (n : Nat) (tasks : List (Option τ)) :
    ({ asking who n with tasks := tasks, accepted := tasks } : ThreadPool ι τ).signal notEmpty ∅ =
      .ok { asking who n with tasks := tasks, accepted := tasks } := by
  have hnone : notEmpty.sleepers (asking who n : ThreadPool ι τ).threads = ∅ := by
    ext j
    by_cases hj : j = who
    · subst hj
      simp [asking_threads_self, notEmpty, Place.notEmptyWait]
    · simp [asking, move, hj, filled, init, notEmpty, Place.notEmptyWait]
  have hlegal : notEmpty.Legal ∅ (asking who n : ThreadPool ι τ).threads :=
    ⟨Finset.empty_subset _, fun hsleep => absurd hnone hsleep.ne_empty⟩
  exact if_pos hlegal

theorem step_addTask (who : ι) {n : Nat} (hroom : maxWaits = 0 ∨ n < maxWaits) :
    step maxWaits worker (asking who n : ThreadPool ι τ) (.addTask who ∅) = .ok (filled (n + 1)) := by
  have hnot : (asking who n : ThreadPool ι τ).isFull maxWaits = false := by
    simp only [isFull, asking, move, filled, List.length_replicate, decide_eq_false_iff_not]
    omega
  have htasks : List.replicate n (none : Option τ) ++ [none] = List.replicate (n + 1) none :=
    List.replicate_succ'.symm
  have hback : (asking who n : ThreadPool ι τ).move who .idle = filled n := by
    simp [asking, move, filled, init]
  simp only [step, asking_threads_self]
  unfold addTask
  rw [hnot, Bool.false_and, if_neg Bool.false_ne_true]
  show (do
    let s ← ({ asking who n with
      tasks := List.replicate n none ++ [none]
      accepted := List.replicate n none ++ [none] } : ThreadPool ι τ).signal notEmpty ∅
    return s.move who .idle) = _
  rw [htasks, signal_asking]
  show Except.ok { (asking who n).move who .idle with
    tasks := List.replicate (n + 1) none
    accepted := List.replicate (n + 1) none } = _
  rw [hback]
  rfl

theorem step_addTask_full (who : ι) (hpos : 0 < maxWaits) :
    step maxWaits worker (asking who maxWaits : ThreadPool ι τ) (.addTask who ∅) =
      .ok ((asking who maxWaits).move who (.notFull .asleep none)) := by
  have hfull : (asking who maxWaits : ThreadPool ι τ).isFull maxWaits = true := by
    simp [isFull, asking, move, filled, hpos]
  simp only [step, asking_threads_self]
  unfold addTask
  rw [hfull]
  rfl

theorem run_filled (hworker : ∃ i, worker i = true) {n : Nat} (hroom : maxWaits = 0 ∨ n ≤ maxWaits) :
    ∃ labels, run (step maxWaits worker) (init : ThreadPool ι τ) labels = .ok (filled n) := by
  induction n with
  | zero => exact ⟨[], rfl⟩
  | succ n ih =>
    obtain ⟨who, -⟩ := id hworker
    obtain ⟨labels, hrun⟩ := ih (by omega)
    refine ⟨labels ++ [.call who none, .addTask who ∅], ?_⟩
    rw [run_append_ok hrun, run_cons_ok (step_call hworker who n),
      run_cons_ok (step_addTask who (by omega)), run_nil]

/-! ## What the constructor promises -/

/-- **When the pool keeps the bound it was made with.** A bound that is not zero holds in every state
exactly when the memory of the field held a bound that is not zero and not larger; and with zero no
thread sleeps in `addTask` exactly when the memory held zero. -/
theorem tasks_bounded_iff {memory max_waits : Nat} (hworker : ∃ i, worker i = true) :
    (∀ labels (s : ThreadPool ι τ),
        run (step (constructMaxWaits memory max_waits) worker) init labels = .ok s →
          (0 < max_waits → s.tasks.length ≤ max_waits) ∧ (max_waits = 0 → NoneBlocked s)) ↔
      (0 < max_waits → 0 < memory ∧ memory ≤ max_waits) ∧ (max_waits = 0 → memory = 0) := by
  show (∀ labels s, run (step memory worker) init labels = .ok s → _) ↔ _
  constructor
  · intro hkept
    refine ⟨fun hpos => ?_, fun hzero => ?_⟩
    · by_contra hbad
      obtain ⟨labels, hrun⟩ : ∃ labels, run (step memory worker) (init : ThreadPool ι τ) labels =
          .ok (filled (max_waits + 1)) := run_filled hworker (by omega)
      have hlength := (hkept labels _ hrun).1 hpos
      simp only [filled, List.length_replicate] at hlength
      omega
    · by_contra hmemory
      obtain ⟨who, hwho⟩ := hworker
      obtain ⟨labels, hrun⟩ : ∃ labels, run (step memory worker) (init : ThreadPool ι τ) labels =
          .ok (filled memory) := run_filled ⟨who, hwho⟩ (.inr (Nat.le_refl memory))
      have hasleep := run_append_ok hrun [.call who none, .addTask who ∅]
      rw [run_cons_ok (step_call ⟨who, hwho⟩ who memory),
        run_cons_ok (step_addTask_full who (Nat.pos_of_ne_zero hmemory)), run_nil] at hasleep
      have hnone := (hkept _ _ hasleep).2 hzero who
      simp [move, Place.notFullWait] at hnone
  · rintro ⟨hbounded, hunbounded⟩ labels s hrun
    refine ⟨fun hpos => ?_, fun hzero => ?_⟩
    · obtain ⟨hmemory, hle⟩ := hbounded hpos
      exact (length_tasks_le hmemory hrun).trans hle
    · rw [hunbounded hzero] at hrun
      exact run_noneBlocked hrun

/-- A pool whose memory held what it was asked for: the second task has to wait. -/
theorem tasks_bounded_iff_same :
    ∃ s : ThreadPool (Fin 2) Nat,
      run (step (constructMaxWaits 1 1) fun who => decide (who = 0)) init
          [.call 1 (some 7), .addTask 1 ∅, .call 1 (some 8), .addTask 1 ∅] = .ok s ∧
        s.threads 1 = .notFull .asleep (some 8) ∧
        (0 < 1 → s.tasks.length ≤ 1) ∧ (1 = 0 → NoneBlocked s) := by
  obtain ⟨s, hrun, hplace⟩ : ∃ s : ThreadPool (Fin 2) Nat,
      run (step (constructMaxWaits 1 1) fun who => decide (who = 0)) init
          [.call 1 (some 7), .addTask 1 ∅, .call 1 (some 8), .addTask 1 ∅] = .ok s ∧
        s.threads 1 = .notFull .asleep (some 8) :=
    eq_ok_of_toOption (by decide)
  have hkept := (tasks_bounded_iff ⟨0, rfl⟩).mpr ⟨by decide, by decide⟩ _ s hrun
  exact ⟨s, hrun, hplace, hkept⟩

/-- **A bound nobody keeps.** The memory of the pool was zero, and the worker adds two tasks to a
queue that was to hold one. -/
theorem bound_ignored :
    ∃ s : ThreadPool (Fin 1) Nat,
      run (step (constructMaxWaits 0 1) fun _ => true) init
          [.call 0 none, .addTask 0 ∅, .call 0 none, .addTask 0 ∅] = .ok s ∧
        ¬s.tasks.length ≤ 1 :=
  ⟨_, rfl, by decide⟩

end ThreadPool

end VServer
