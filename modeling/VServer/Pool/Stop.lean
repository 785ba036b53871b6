import VServer.Pool.Waiters

/-!
# The end of the pool

`stop()` joins the workers. Behind its locked part nobody sleeps and nobody falls asleep, so each thread
is a few steps of its own from the end of `run()` or out of `addTask` (`Place.rank`), whatever the others
do. The queue is not worked off: a worker takes a task only when it was on its way to one (`stop_ends`).
-/

namespace VServer

namespace Place

variable {τ : Type}

/-- The steps a thread has left behind `stop()`, when it makes no more calls. -/
def rank : Place τ → Nat
  | .ended => 0
  | .head => 1
  | .idle => 2
  | .getting | .notEmpty _ | .adding _ | .notFull _ _ => 3

/-- In `getTask`. -/
def isGetting : Place τ → Bool
  | .getting | .notEmpty _ => true
  | _ => false

end Place

namespace ThreadPool

open Machine

variable {ι τ : Type}

/-- The thread whose step it is. -/
def Label.who : Label ι τ → Option ι
  | .call who _ | .addTask who _ | .ret who | .test who | .getTask who _ | .spurious who => some who
  | .stop => none

def Label.isCall : Label ι τ → Bool
  | .call _ _ => true
  | _ => false

variable [DecidableEq ι]

/-- The calls of `addTask` by a thread. -/
def calls (who : ι) (labels : List (Label ι τ)) : Nat :=
  labels.countP fun label => label.isCall && label.who = some who

/-- The other steps of a thread. -/
def steps (who : ι) (labels : List (Label ι τ)) : Nat :=
  labels.countP fun label => !label.isCall && label.who = some who

variable [Fintype ι] {maxWaits : Nat} {worker : ι → Bool} {s s' : ThreadPool ι τ} {label : Label ι τ}
  {labels : List (Label ι τ)}

/-- What a step does behind `stop()`: nothing, or a thread comes closer to its end, or begins a call. -/
inductive StoppedStep (s : ThreadPool ι τ) : Label ι τ → ThreadPool ι τ → Prop
  | idle {label : Label ι τ} (quiet : label.who = none ∨ label.isCall = true) : StoppedStep s label s
  | call {who : ι} {task : Option τ} (place : s.threads who = .idle) :
    StoppedStep s (.call who task) (s.move who (.adding task))
  | move {label : Label ι τ} {who : ι} {p : Place τ} (who_eq : label.who = some who)
      (other : label.isCall = false) (rank : p.rank < (s.threads who).rank)
      (away : p.isGetting = false) : StoppedStep s label (s.move who p)
  | take {who : ι} {woken : Finset ι} {task : Option τ} {tasks : List (Option τ)} {p : Place τ}
      (place : (s.threads who).isGetting = true) (tasks_eq : s.tasks = task :: tasks)
      (rank : p.rank < 3) (away : p.isGetting = false) :
    StoppedStep s (.getTask who woken)
      { s.move who p with tasks := tasks, taken := s.taken ++ [task] }

theorem rank_of_isGetting {p : Place τ} (h : p.isGetting = true) : p.rank = 3 := by
  cases p <;> first
    | rfl
    | cases h

/-- Nobody is asleep. -/
structure Stopped (s : ThreadPool ι τ) : Prop where
  stopped : s.running = false
  notEmpty : notEmpty.sleepers s.threads = ∅
  notFull : notFull.sleepers s.threads = ∅

theorem stopped_of_run (hrun : run (step maxWaits worker) init labels = .ok s)
    (hstopped : s.running = false) : Stopped s :=
  ⟨hstopped, (none_asleep_of_stopped hrun hstopped).1, (none_asleep_of_stopped hrun hstopped).2⟩

theorem addTask_stopped (h : Stopped s) {who : ι} {task : Option τ} {woken : Finset ι} :
    s.addTask maxWaits who task woken = .ok (s.move who .idle) := by
  unfold addTask
  rw [h.stopped, Bool.and_false, if_neg Bool.false_ne_true, if_neg Bool.false_ne_true]

theorem getTask_stopped (h : Stopped s) {who : ι} {woken : Finset ι}
    (hget : s.getTask maxWaits who woken = .ok s') :
    (s.tasks = [] ∧ s' = s.move who .head) ∨
      ∃ task tasks p, s.tasks = task :: tasks ∧ p.rank < 3 ∧ p.isGetting = false ∧
        s' = { s.move who p with tasks := tasks, taken := s.taken ++ [task] } := by
  unfold getTask at hget
  split at hget
  · rename_i hnil
    rw [h.stopped, if_neg Bool.false_ne_true] at hget
    exact .inl ⟨hnil, (Except.ok.inj hget).symm⟩
  · rename_i task tasks htasks
    have hplace : (if task.isSome then .idle else .head : Place τ).rank < 3 ∧
        (if task.isSome then .idle else .head : Place τ).isGetting = false := by
      split <;> exact ⟨by simp [Place.rank], rfl⟩
    refine .inr ⟨task, tasks, _, htasks, hplace.1, hplace.2, ?_⟩
    dsimp only at hget
    split at hget
    · obtain ⟨signalled, hsignal, hok⟩ := bind_eq_ok hget
      cases hok
      obtain ⟨hlegal, rfl⟩ := signal_inv hsignal
      rw [move, CondVar.signal_of_none h.notFull hlegal.1]
      rfl
    · cases hget
      rfl

theorem broadcast_stopped (h : Stopped s) :
    ThreadPool.notFull.broadcast (ThreadPool.notEmpty.broadcast s.threads) = s.threads := by
  have hfirst : ThreadPool.notEmpty.broadcast s.threads = s.threads :=
    CondVar.signal_of_none h.notEmpty (Finset.Subset.refl _)
  rw [hfirst]
  exact CondVar.signal_of_none h.notFull (Finset.Subset.refl _)

theorem step_stopped (h : Stopped s) (hstep : step maxWaits worker s label = .ok s') :
    StoppedStep s label s' := by
  cases label with
  | call who task =>
    rw [step] at hstep
    split at hstep
    · rename_i hplace
      split_ifs at hstep
      · cases hstep
        exact .idle (.inr rfl)
      · cases hstep
        exact .call hplace
    · cases hstep
  | addTask who woken =>
    have hmove : ∀ task, (s.threads who).rank = 3 → s.addTask maxWaits who task woken = .ok s' →
        StoppedStep s (.addTask who woken) s' := by
      intro task hrank hadd
      rw [addTask_stopped h] at hadd
      cases hadd
      exact .move rfl rfl (by rw [hrank]; simp [Place.rank]) rfl
    simp only [step] at hstep
    split at hstep
    case h_4 => cases hstep
    all_goals
      rename_i hplace
      exact hmove _ (by rw [hplace]; rfl) hstep
  | ret who =>
    rw [step] at hstep
    split at hstep
    · rename_i hplace
      cases hstep
      exact .move rfl rfl (by rw [hplace]; simp [Place.rank]) rfl
    · cases hstep
  | test who =>
    rw [step] at hstep
    split at hstep
    · rename_i hplace
      rw [h.stopped, if_neg Bool.false_ne_true] at hstep
      cases hstep
      exact .move rfl rfl (by rw [hplace]; simp [Place.rank]) rfl
    · cases hstep
  | getTask who woken =>
    have hget : (s.threads who).isGetting = true → s.getTask maxWaits who woken = .ok s' →
        StoppedStep s (.getTask who woken) s' := by
      intro hplace hget
      have hrank := rank_of_isGetting hplace
      rcases getTask_stopped h hget with ⟨-, rfl⟩ | ⟨task, tasks, p, htasks, hp, haway, rfl⟩
      · exact .move rfl rfl (by rw [hrank]; simp [Place.rank]) rfl
      · exact .take hplace htasks hp haway
    simp only [step] at hstep
    split at hstep
    case h_4 => cases hstep
    all_goals
      rename_i hplace
      exact hget (by rw [hplace]; rfl) hstep
  | spurious who =>
    -- a thread that is asleep: there is none
    simp only [step] at hstep
    split at hstep
    · rename_i hplace
      have hmem : who ∈ ThreadPool.notFull.sleepers s.threads := by
        rw [CondVar.mem_threadsAt, hplace]
        rfl
      rw [h.notFull] at hmem
      exact absurd hmem (Finset.notMem_empty _)
    · rename_i hplace
      have hmem : who ∈ ThreadPool.notEmpty.sleepers s.threads := by
        rw [CondVar.mem_threadsAt, hplace]
        rfl
      rw [h.notEmpty] at hmem
      exact absurd hmem (Finset.notMem_empty _)
    · cases hstep
  | stop =>
    have hsame : s' = s := by
      rw [step, broadcast_stopped h] at hstep
      cases hstep
      rw [← h.stopped]
    rw [hsame]
    exact .idle (.inl rfl)

theorem Stopped.step (h : Stopped s) (hstep : ThreadPool.step maxWaits worker s label = .ok s') :
    Stopped s' := by
  have hroused : Roused s := fun _ who => by
    have hempty : who ∉ ThreadPool.notEmpty.sleepers s.threads := by
      rw [h.notEmpty]
      exact Finset.notMem_empty _
    have hfull : who ∉ ThreadPool.notFull.sleepers s.threads := by
      rw [h.notFull]
      exact Finset.notMem_empty _
    rw [CondVar.mem_threadsAt, Bool.not_eq_true] at hempty hfull
    exact ⟨hempty, hfull⟩
  have hstopped : s'.running = false := by
    cases step_stopped h hstep <;> exact h.stopped
  have hafter := step_roused hroused hstep hstopped
  refine ⟨hstopped, ?_, ?_⟩
  · ext who
    simp [(hafter who).1]
  · ext who
    simp [(hafter who).2]

/-! ## A whole run -/

/-- The threads in `getTask`. -/
def getters (s : ThreadPool ι τ) : Finset ι := CondVar.threadsAt Place.isGetting s.threads

/-- What happens behind `stop()`: nothing is accepted, of the tasks in front of the queue at most one
is taken by each thread that was in `getTask`, and with each step a thread comes closer to its end. -/
structure Winds (s : ThreadPool ι τ) (labels : List (Label ι τ)) (t : ThreadPool ι τ) : Prop where
  accepted : t.accepted = s.accepted
  taken : ∃ new, t.taken = s.taken ++ new ∧ s.tasks = new ++ t.tasks ∧
    new.length + t.getters.card ≤ s.getters.card
  steps : ∀ who, steps who labels + (t.threads who).rank ≤ (s.threads who).rank + calls who labels

theorem Winds.refl (s : ThreadPool ι τ) : Winds s [] s :=
  ⟨rfl, ⟨[], by simp, rfl, by simp⟩, fun _ => by simp [ThreadPool.steps, calls]⟩

theorem Winds.trans {t : ThreadPool ι τ} {labels' : List (Label ι τ)} (h : Winds s labels s')
    (h' : Winds s' labels' t) : Winds s (labels ++ labels') t := by
  obtain ⟨new, htaken, htasks, hcard⟩ := h.taken
  obtain ⟨new', htaken', htasks', hcard'⟩ := h'.taken
  refine ⟨h'.accepted.trans h.accepted, ⟨new ++ new', ?_, ?_, ?_⟩, fun who => ?_⟩
  · rw [htaken', htaken, List.append_assoc]
  · rw [htasks, htasks', List.append_assoc]
  · rw [List.length_append]
    omega
  · have hsteps := h.steps who
    have hsteps' := h'.steps who
    unfold ThreadPool.steps calls at *
    rw [List.countP_append, List.countP_append]
    omega

theorem getters_move (s : ThreadPool ι τ) (who : ι) {p : Place τ} (hp : p.isGetting = false) :
    (s.move who p).getters ⊆ s.getters.erase who := CondVar.threadsAt_update hp

omit [Fintype ι] in
theorem rank_move {s : ThreadPool ι τ} {who other : ι} {p : Place τ} :
    ((s.move who p).threads other).rank = if other = who then p.rank else (s.threads other).rank := by
  show (Function.update s.threads who p other).rank = _
  split_ifs with hother
  · rw [hother, Function.update_self]
  · rw [Function.update_of_ne hother]

theorem StoppedStep.winds (h : StoppedStep s label s') : Winds s [label] s' := by
  cases h with
  | idle quiet =>
    refine ⟨rfl, ⟨[], by simp, rfl, by simp⟩, fun other => ?_⟩
    rcases quiet with hnone | hcall
    · simp [ThreadPool.steps, calls, hnone]
    · simp [ThreadPool.steps, hcall]
  | @call who task place =>
    refine ⟨rfl, ⟨[], (List.append_nil _).symm, rfl, ?_⟩, fun other => ?_⟩
    · have hcard := Finset.card_le_card (getters_move s who (p := .adding task) rfl)
      have herase := Finset.card_erase_le (s := s.getters) (a := who)
      simp only [List.length_nil]
      omega
    · rw [rank_move]
      split_ifs with hother
      · rw [hother, place]
        simp [ThreadPool.steps, calls, Label.isCall, Label.who, Place.rank]
      · simp [ThreadPool.steps, Label.isCall]
  | @move _ who p who_eq other rank away =>
    refine ⟨rfl, ⟨[], (List.append_nil _).symm, rfl, ?_⟩, fun j => ?_⟩
    · have hcard := Finset.card_le_card (getters_move s who away)
      have herase := Finset.card_erase_le (s := s.getters) (a := who)
      simp only [List.length_nil]
      omega
    · rw [rank_move]
      split_ifs with hj
      · rw [hj]
        simp [ThreadPool.steps, calls, other, who_eq]
        omega
      · simp [ThreadPool.steps, calls, other, who_eq, Ne.symm hj]
  | @take who woken task tasks p place tasks_eq rank away =>
    have hrank := rank_of_isGetting place
    refine ⟨rfl, ⟨[task], rfl, tasks_eq, ?_⟩, fun j => ?_⟩
    · have hcard := Finset.card_le_card (getters_move s who away)
      have hmem : who ∈ s.getters := CondVar.mem_threadsAt.mpr place
      have herase := Finset.card_erase_add_one hmem
      show 1 + (s.move who p).getters.card ≤ _
      omega
    · show ThreadPool.steps j _ + ((s.move who p).threads j).rank ≤ _
      rw [rank_move]
      split_ifs with hj
      · rw [hj, hrank]
        simp [ThreadPool.steps, calls, Label.isCall, Label.who]
        omega
      · simp [ThreadPool.steps, calls, Label.isCall, Label.who, Ne.symm hj]

theorem run_winds {t : ThreadPool ι τ} (h : Stopped s)
    (hrun : run (step maxWaits worker) s labels = .ok t) : Winds s labels t ∧ Stopped t := by
  induction labels generalizing s with
  | nil =>
    cases hrun
    exact ⟨.refl _, h⟩
  | cons label labels ih =>
    obtain ⟨s₁, hstep, hrest⟩ := run_cons_inv hrun
    obtain ⟨hwinds, hstopped⟩ := ih (h.step hstep) hrest
    exact ⟨(step_stopped h hstep).winds.trans hwinds, hstopped⟩

theorem Stopped.enabled (h : Stopped s) {who : ι} (hended : s.threads who ≠ .ended)
    (hwho : worker who = true ∨ s.threads who ≠ .idle) :
    ∃ label s', label.who = some who ∧ label.isCall = false ∧
      ThreadPool.step maxWaits worker s label = .ok s' := by
  have hget : ∃ s', s.getTask maxWaits who ∅ = .ok s' := by
    unfold getTask
    cases htasks : s.tasks with
    | nil => exact ⟨s.move who .head, by simp [h.stopped]⟩
    | cons task tasks =>
      have hsignal : ({ s with tasks := tasks, taken := s.taken ++ [task] } : ThreadPool ι τ).signal
          ThreadPool.notFull ∅ = .ok _ := if_pos (CondVar.legal_empty h.notFull)
      by_cases hpos : maxWaits > 0
      · simp only [hpos, if_true, hsignal]
        exact ⟨_, rfl⟩
      · simp only [hpos, if_false]
        exact ⟨_, rfl⟩
  have hadd : ∀ task, s.addTask maxWaits who task ∅ = .ok (s.move who .idle) := fun task =>
    addTask_stopped h
  cases hplace : s.threads who with
  | idle =>
    have hworker := hwho.resolve_right fun hne => hne hplace
    exact ⟨.ret who, _, rfl, rfl, by rw [ThreadPool.step, hworker, hplace]⟩
  | head => exact ⟨.test who, _, rfl, rfl, by rw [ThreadPool.step, hplace]⟩
  | ended => exact absurd hplace hended
  | getting =>
    obtain ⟨s', hs'⟩ := hget
    exact ⟨.getTask who ∅, s', rfl, rfl, by rw [ThreadPool.step, hplace, hs']⟩
  | adding task =>
    exact ⟨.addTask who ∅, _, rfl, rfl, by rw [ThreadPool.step, hplace]; exact hadd task⟩
  | notFull wait task =>
    cases wait with
    | asleep =>
      have hmem : who ∈ ThreadPool.notFull.sleepers s.threads := by
        rw [CondVar.mem_threadsAt, hplace]
        rfl
      rw [h.notFull] at hmem
      exact absurd hmem (Finset.notMem_empty _)
    | signalled | spurious =>
      exact ⟨.addTask who ∅, _, rfl, rfl, by rw [ThreadPool.step, hplace]; exact hadd task⟩
  | notEmpty wait =>
    obtain ⟨s', hs'⟩ := hget
    cases wait with
    | asleep =>
      have hmem : who ∈ ThreadPool.notEmpty.sleepers s.threads := by
        rw [CondVar.mem_threadsAt, hplace]
        rfl
      rw [h.notEmpty] at hmem
      exact absurd hmem (Finset.notMem_empty _)
    | signalled | spurious =>
      exact ⟨.getTask who ∅, s', rfl, rfl, by rw [ThreadPool.step, hplace]; exact hs'⟩

/-- **`stop()` comes to its end**, from every state it finds the pool in and however the threads are
scheduled behind it. No task is accepted any more, and of those that wait the first ones are still
taken, at most one by each thread that was in `getTask`; the others are never taken. Each thread makes
no more than three steps, and one for each call of `addTask` it goes on to make, and until it is at its
end it can always make the next, so the joins of `stop()` wait for the tasks that run and nothing
else. -/
theorem stop_ends {t : ThreadPool ι τ} {more : List (Label ι τ)}
    (hrun : run (step maxWaits worker) init labels = .ok s) (hstopped : s.running = false)
    (hmore : run (step maxWaits worker) s more = .ok t) :
    t.accepted = s.accepted ∧
      (∃ new, t.taken = s.taken ++ new ∧ s.tasks = new ++ t.tasks ∧
        new.length ≤ s.getters.card) ∧
      (∀ who, steps who more ≤ 3 + calls who more) ∧
      ∀ who, t.threads who ≠ .ended → worker who = true ∨ t.threads who ≠ .idle →
        ∃ label t', label.who = some who ∧ label.isCall = false ∧
          step maxWaits worker t label = .ok t' := by
  obtain ⟨hwinds, hafter⟩ := run_winds (stopped_of_run hrun hstopped) hmore
  obtain ⟨new, htaken, htasks, hcard⟩ := hwinds.taken
  refine ⟨hwinds.accepted, ⟨new, htaken, htasks, by omega⟩, fun who => ?_,
    fun who hended hwho => hafter.enabled hended hwho⟩
  have hsteps := hwinds.steps who
  have hrank : (s.threads who).rank ≤ 3 := by
    cases s.threads who <;> simp [Place.rank]
  omega

/-- The one worker sleeps in `getTask`, and two tasks come. -/
def twoTasks : List (Label (Fin 2) Nat) :=
  [.ret 0, .test 0, .getTask 0 ∅, .call 1 (some 7), .addTask 1 {0}, .call 1 (some 8), .addTask 1 ∅]

/-- The worker that was woken takes one of them, and the other one stays. -/
theorem stop_ends_dropped :
    ∃ s t : ThreadPool (Fin 2) Nat, run (step 0 (· = 0)) init (twoTasks ++ [.stop]) = .ok s ∧
      run (step 0 (· = 0)) s [.getTask 0 ∅, .ret 0, .test 0] = .ok t ∧
      (∃ new, t.taken = s.taken ++ new ∧ s.tasks = new ++ t.tasks ∧ new.length ≤ 1) ∧
      t.tasks = [some 8] := by
  obtain ⟨s, hs, hstate⟩ := eq_ok_of_toOption (b := (1, some [some 8]))
    (f := fun s : ThreadPool (Fin 2) Nat => (s.getters.card,
      (run (step 0 (· = 0)) s [.getTask 0 ∅, .ret 0, .test 0]).toOption.map (·.tasks)))
    (x := run (step 0 (· = 0)) init (twoTasks ++ [.stop])) (by decide +kernel)
  obtain ⟨hcard, hmore⟩ := Prod.mk.inj hstate
  obtain ⟨t, ht, htasks⟩ := eq_ok_of_toOption hmore
  have hstopped : s.running = false := by
    obtain ⟨s₁, -, hstop⟩ := run_append_inv hs
    cases hstop
    rfl
  obtain ⟨-, hnew, -⟩ := stop_ends hs hstopped ht
  rw [hcard] at hnew
  exact ⟨s, t, hs, ht, hnew, htasks⟩

end ThreadPool

end VServer
