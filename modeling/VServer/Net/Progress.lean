import VServer.Lib.Endless
import VServer.Lib.Stack
import VServer.Net.LoopThreads
import VServer.Net.Moves

/-!
# The loops come back

What a task leaves to be done is of lower rank than the task (`perform_rank`), so a thread that works
at its stack comes to its end, and goes on in `loop()`. There the lists of handlers and functors only
get shorter until the loop is through with them. So a thread that takes steps without end, and whose
user code makes only so many calls, is at `while(!m_quit)` again and again (`loop_comes_back`).
-/

namespace VServer

open Machine TaskStack

variable {ι : Type}

/-! ## Ranks -/

def ConnTask.rank : ConnTask ι → Nat
  | .handleEvent _ => 6
  | .handleRead | .connectEstablished | .forceCloseInLoop => 5
  | .handleClose | .updateTimer | .delayedClose => 4
  | .removeConnection | .connectDestroyed | .forceCloseAfter _ => 3
  | .removeConnectionInLoop | .setDisconnected | .runForceCloseAfter _ | .send _ | .shutdown
  | .forceClose => 2
  | .writeCallback | .messageCallback | .notifyDown => 1
  | .handleWrite | .handleError | .channelRemove | .sendInLoop _ _ | .shutdownInLoop
  | .setDisconnecting | .storeTimerId _ => 0

def Task.rank : Task ι → Nat
  | .conn _ t => t.rank
  | .acceptorRead => 6
  | .timerRead _ => 4
  | .runTimer _ => 3
  | .runAfter _ _ => 2
  | .queueInLoop _ _ => 1
  | .user | .wakeup _ | .quit _ | .wakeupRead _ | .addTimerInloop _ _ | .cancelInloop _ _ => 0

variable [DecidableEq ι] {who : ι} {k : Kernel}

theorem rank_runInLoop (who loop : ι) (f : Task ι) : (runInLoop who loop f).rank ≤ max 1 f.rank := by
  unfold runInLoop
  split_ifs
  · exact le_max_right _ _
  · exact le_max_left _ _

theorem rank_runInLoop_lt {n : Nat} (loop : ι) {f : Task ι} (hn : 1 < n) (hf : f.rank < n) :
    (runInLoop who loop f).rank < n :=
  lt_of_le_of_lt (rank_runInLoop who loop f) (max_lt hn hf)

omit [DecidableEq ι] in
theorem mem_eventTasks_rank {revents : BitVec 32} {t : ConnTask ι} (h : t ∈ eventTasks revents) :
    t.rank < 6 := by
  have ht : t = .handleClose ∨ t = .handleError ∨ t = .handleRead ∨ t = .writeCallback := by
    unfold eventTasks at h
    simp only [List.mem_append, List.mem_singleton] at h
    grind
  rcases ht with rfl | rfl | rfl | rfl <;> simp [ConnTask.rank]

/-- **A task of a connection leads to lower ones.** -/
theorem ConnStep.rank {base : ι} {c : Nat} {l l' : Link ι} {t : ConnTask ι}
    {events : List (ConnEvent ι)} {new : List (Task ι)} (h : ConnStep who k base c l t l' events new) :
    ∀ x ∈ new, x.rank < t.rank := by
  cases h with
  | handleEvent revents =>
    intro x hx
    obtain ⟨t, ht, rfl⟩ := List.mem_map.mp hx
    exact mem_eventTasks_rank ht
  | writeCallback hnew | delayedClose hnew =>
    rcases hnew with rfl | rfl <;> simp [Task.rank, ConnTask.rank]
  | updateTimer hnew =>
    rcases hnew with rfl | rfl
    · simp
    · intro x hx
      rcases List.mem_cons.mp hx with rfl | hx
      · exact rank_runInLoop_lt _ (by simp [ConnTask.rank]) (by simp [Task.rank, ConnTask.rank])
      · simp [List.mem_singleton.mp hx, Task.rank, ConnTask.rank]
  | send | removeConnection =>
    intro x hx
    rw [List.mem_singleton.mp hx]
    exact rank_runInLoop_lt _ (by simp [ConnTask.rank]) (by simp [Task.rank, ConnTask.rank])
  | shutdown =>
    intro x hx
    rcases List.mem_cons.mp hx with rfl | hx
    · simp [Task.rank, ConnTask.rank]
    · rw [List.mem_singleton.mp hx]
      exact rank_runInLoop_lt _ (by simp [ConnTask.rank]) (by simp [Task.rank, ConnTask.rank])
  | runForceCloseAfter timer =>
    intro x hx
    rcases List.mem_cons.mp hx with rfl | hx
    · exact rank_runInLoop_lt _ (by simp [ConnTask.rank]) (by simp [Task.rank, ConnTask.rank])
    · simp [List.mem_singleton.mp hx, Task.rank, ConnTask.rank]
  | _ => simp [Task.rank, ConnTask.rank]

/-- **Every task leads to lower ones.** -/
theorem perform_rank {t : Task ι} {w w' : World ι} {new : List (Task ι)}
    (h : perform who k w t = .ok (w', new)) : ∀ x ∈ new, x.rank < t.rank := by
  cases perform_cases h with
  | conn alive result =>
    obtain ⟨events, hstep, -⟩ := performConn_spec result
    exact hstep.rank
  | timerRead read =>
    intro x hx
    obtain ⟨timer, -, rfl⟩ := List.mem_map.mp hx
    simp [Task.rank]
  | closeTimer =>
    intro x hx
    split_ifs at hx
    · simp [List.mem_singleton.mp hx, Task.rank, ConnTask.rank]
    · cases hx
  | runAfter cb =>
    intro x hx
    rw [List.mem_singleton.mp hx]
    exact rank_runInLoop_lt _ (by simp [Task.rank]) (by simp [Task.rank])
  | acceptorRead accept result =>
    obtain ⟨loop, -, rfl⟩ := newConnection_born result
    intro x hx
    rw [List.mem_singleton.mp hx]
    exact rank_runInLoop_lt _ (by simp [Task.rank]) (by simp [Task.rank, ConnTask.rank])
  | userTimer | addTimerInloop | cancelInloop => simp [Task.rank]

/-! ## Steps of a thread -/

section

variable [Fintype ι] {σ σ' : System ι} {label : Label ι}

/-- A step in which the thread does the task on top of its stack. -/
def Label.works (who : ι) : Label ι → Prop
  | .run who' _ | .ret who' => who' = who
  | _ => False

/-- A step of the thread. -/
def Label.isOf (who : ι) : Label ι → Prop
  | .run who' _ | .call who' _ | .ret who' | .next who' | .poll who' _ => who' = who
  | .tick _ | .expire _ | .destroy _ => False

theorem step_works (h : σ.step label = .ok σ') (hworks : label.works who) :
    Works Task.rank (σ.todo who) (σ'.todo who) := by
  cases step_cases h with
  | perform todo result =>
    obtain rfl : _ = who := hworks
    exact ⟨_, _, _, todo, Function.update_self _ _ _, perform_rank result⟩
  | queueInLoop todo =>
    obtain rfl : _ = who := hworks
    refine ⟨_, _, _, todo, Function.update_self _ _ _, fun x hx => ?_⟩
    split_ifs at hx
    · simp [List.mem_singleton.mp hx, Task.rank]
    · cases hx
  | wakeup todo | quit todo | wakeupRead todo | ret todo =>
    obtain rfl : _ = who := hworks
    exact ⟨_, _, [], todo, Function.update_self _ _ _, nofun⟩
  | _ => exact hworks.elim

theorem step_leaves (h : σ.step label = .ok σ') (hworks : ¬label.works who)
    (hcall : ∀ c, label ≠ .call who c) (hnext : label ≠ .next who) : σ'.todo who = σ.todo who := by
  cases step_cases h with
  | perform | queueInLoop | wakeup | quit | wakeupRead | ret =>
    exact Function.update_of_ne (Ne.symm hworks) _ _
  | @call who' c =>
    refine Function.update_of_ne ?_ _ _
    rintro rfl
    exact hcall c rfl
  | @next loop =>
    refine Function.update_of_ne ?_ _ _
    rintro rfl
    exact hnext rfl
  | _ => rfl

theorem step_poll {active : List ActiveChannel} (h : σ.step (.poll who active) = .ok σ') :
    (σ.loops who).phase = .wait ∧ ∃ active, (σ'.loops who).phase = .events active := by
  cases step_cases h with
  | poll todo phase =>
    refine ⟨phase, active.map (·.task who), ?_⟩
    show (Function.update σ.loops who _ who).phase = _
    rw [Function.update_self]
    rfl

theorem step_phase (h : σ.step label = .ok σ') (hnext : label ≠ .next who) :
    (σ'.loops who).phase = (σ.loops who).phase ∨
      (σ.loops who).phase = .wait ∧ ∃ active, (σ'.loops who).phase = .events active := by
  have hsame : ∀ {loop : ι} {l : EventLoop (Task ι)}, l.phase = (σ.loops loop).phase →
      (Function.update σ.loops loop l who).phase = (σ.loops who).phase := by
    intro loop l hl
    by_cases hloop : who = loop
    · subst hloop
      rw [Function.update_self, hl]
    · rw [Function.update_of_ne hloop]
  cases step_cases h with
  | queueInLoop | wakeup | quit => exact .inl (hsame rfl)
  | wakeupRead todo read =>
    obtain ⟨-, rfl⟩ := EventLoop.handleRead_eq_ok read
    exact .inl (hsame rfl)
  | @next loop =>
    refine .inl (congrArg EventLoop.phase (Function.update_of_ne ?_ _ _))
    rintro rfl
    exact hnext rfl
  | @poll loop active todo phase =>
    by_cases hloop : who = loop
    · subst hloop
      exact .inr (step_poll h)
    · exact .inl (congrArg EventLoop.phase (Function.update_of_ne hloop _ _))
  | _ => exact .inl rfl

/-! ## Runs without end -/

/-- A thread that makes no calls, and does not go on in `loop()`, comes to rest: no handler and no
functor keeps it, and no queue of timers. -/
theorem comes_to_rest {states : Nat → System ι} {labels : Nat → Label ι} {N : Nat}
    (hrun : ∀ n, (states n).step (labels n) = .ok (states (n + 1)))
    (hcalls : ∀ n, N ≤ n → ∀ c, labels n ≠ .call who c) (hnext : ∀ n, N ≤ n → labels n ≠ .next who) :
    ∃ M, ∀ n, M ≤ n → ¬(labels n).isOf who := by
  -- its stack gets nothing from elsewhere, so the thread comes to its end
  have hstack : ∀ n, Works Task.rank ((states (N + n)).todo who) ((states (N + (n + 1))).todo who) ∨
      (states (N + (n + 1))).todo who = (states (N + n)).todo who := by
    intro n
    have hstep := hrun (N + n)
    by_cases hworks : (labels (N + n)).works who
    · exact .inl (step_works hstep hworks)
    · exact .inr (step_leaves hstep hworks (hcalls _ (by omega)) (hnext _ (by omega)))
  obtain ⟨M, hsettled⟩ := exists_settled hstack
  -- and all it does then is to wait in `epoll_wait`, which returns once
  have hpoll : ∀ n, N + M ≤ n → (labels n).isOf who →
      ((states n).loops who).phase = .wait ∧
        ∃ active, ((states (n + 1)).loops who).phase = .events active := by
    intro n hn hof
    have hidle := hsettled (n - N) (by omega)
    rw [show N + (n - N) = n by omega, show N + (n - N + 1) = n + 1 by omega] at hidle
    have hstep := hrun n
    cases hlabel : labels n with
    | run who' k | ret who' =>
      rw [hlabel] at hof
      exact absurd (step_works hstep (by rw [hlabel]; exact hof)) hidle
    | call who' c =>
      rw [hlabel] at hof
      obtain rfl : who' = who := hof
      exact absurd hlabel (hcalls n (by omega) c)
    | next loop =>
      rw [hlabel] at hof
      obtain rfl : loop = who := hof
      exact absurd hlabel (hnext n (by omega))
    | poll loop active =>
      rw [hlabel] at hof hstep
      obtain rfl : loop = who := hof
      exact step_poll hstep
    | tick | expire | destroy =>
      rw [hlabel] at hof
      exact hof.elim
  by_cases hrests : ∀ n, N + M ≤ n → ¬(labels n).isOf who
  · exact ⟨N + M, hrests⟩
  · obtain ⟨n₁, hn₁, hof₁⟩ : ∃ n, N + M ≤ n ∧ (labels n).isOf who := by simpa using hrests
    obtain ⟨-, active, hactive⟩ := hpoll n₁ hn₁ hof₁
    have hstays : ∀ n, n₁ + 1 ≤ n → ((states n).loops who).phase = .events active := by
      intro n hn
      induction n, hn using Nat.le_induction with
      | base => exact hactive
      | succ n hn ih =>
        rcases step_phase (hrun n) (hnext n (by omega)) with hsame | ⟨hwait, -⟩
        · rw [hsame, ih]
        · rw [ih] at hwait
          cases hwait
    refine ⟨n₁ + 1, fun n hn hof => ?_⟩
    obtain ⟨hwait, -⟩ := hpoll n (by omega) hof
    rw [hstays n hn] at hwait
    cases hwait

/-- What `loop()` lowers whenever it goes on, and nothing else raises, it does not lower for ever. -/
theorem no_descent {γ : Type} [PartialOrder γ] [WellFoundedLT γ] {f : Nat → γ} {N : Nat}
    {states : Nat → System ι} {labels : Nat → Label ι}
    (hrun : ∀ n, (states n).step (labels n) = .ok (states (n + 1)))
    (hcalls : ∃ N, ∀ n, N ≤ n → ∀ c, labels n ≠ .call who c)
    (hsteps : ∀ N, ∃ n, N ≤ n ∧ (labels n).isOf who)
    (hf : ∀ n, N ≤ n → f (n + 1) ≤ f n ∧ (labels n = .next who → f (n + 1) < f n)) : False := by
  obtain ⟨M₁, hM₁, hnext⟩ := exists_not_lt fun n hn => (hf n hn).1
  obtain ⟨M₂, hcalls⟩ := hcalls
  obtain ⟨M, hrests⟩ := @comes_to_rest _ _ who _ states labels (max M₁ M₂) hrun
    (fun n hn => hcalls n (by omega)) (fun n hn heq => hnext n (by omega) ((hf n (by omega)).2 heq))
  obtain ⟨n, hn, hof⟩ := hsteps M
  exact hrests n hn hof

/-! ## The way through `loop()` -/

theorem step_goes_on (h : σ.step (.next who) = .ok σ') :
    ∃ calls, (σ.loops who).NextStep (σ'.loops who) calls := by
  cases step_cases h with
  | @next loop l calls isLoop todo hnext =>
    refine ⟨calls, ?_⟩
    show (σ.loops who).NextStep (Function.update σ.loops who l who) calls
    rw [Function.update_self]
    exact EventLoop.next_step hnext

/-- A measure of the phase, which goes down when `epoll_wait` returns and when `loop()` goes on. -/
theorem step_measure {γ : Type} [PartialOrder γ] {f : Phase (Task ι) → γ} (h : σ.step label = .ok σ')
    (hpoll : ∀ active, f (.events active) ≤ f .wait)
    (hnext : label = .next who → ∀ calls, (σ.loops who).NextStep (σ'.loops who) calls →
      f (σ'.loops who).phase < f (σ.loops who).phase) :
    f (σ'.loops who).phase ≤ f (σ.loops who).phase ∧
      (label = .next who → f (σ'.loops who).phase < f (σ.loops who).phase) := by
  by_cases hlabel : label = .next who
  · subst hlabel
    obtain ⟨calls, hstep⟩ := step_goes_on h
    have hlt := hnext rfl calls hstep
    exact ⟨hlt.le, fun _ => hlt⟩
  · refine ⟨?_, fun heq => absurd heq hlabel⟩
    rcases step_phase h hlabel with hsame | ⟨hwait, active, hactive⟩
    · rw [hsame]
    · rw [hwait, hactive]
      exact hpoll active

/-- How far the loop is from `while(!m_quit)`. -/
def Phase.toTest {τ : Type} : Phase τ → Nat ×ₗ Nat
  | .wait => toLex (3, 0)
  | .events active => toLex (2, active.length)
  | .swap => toLex (1, 0)
  | .functors funcs => toLex (0, funcs.length)
  | .ready | .test | .ended => toLex (0, 0)

theorem EventLoop.NextStep.toTest_lt {τ : Type} {l l' : EventLoop τ} {calls : List τ}
    (h : l.NextStep l' calls) (hbefore : l.phase ≠ .test) (hafter : l'.phase ≠ .test) :
    l'.phase.toTest < l.phase.toTest := by
  cases h with
  | stop phase | sleep phase => exact absurd phase hbefore
  | enter | idle | done => exact absurd rfl hafter
  | handle phase | begin phase | swap phase | functor phase =>
    simp [phase, Phase.toTest, Prod.Lex.toLex_lt_toLex]

/-- **The loops come back.** In a run without end a thread that takes steps again and again, and whose
user code makes only so many calls, is back at `while(!m_quit)` again and again: it gets through every
batch of handlers and functors, and through every timer that has expired. -/
theorem loop_comes_back {states : Nat → System ι} {labels : Nat → Label ι}
    (hrun : ∀ n, (states n).step (labels n) = .ok (states (n + 1)))
    (hcalls : ∃ N, ∀ n, N ≤ n → ∀ c, labels n ≠ .call who c)
    (hsteps : ∀ N, ∃ n, N ≤ n ∧ (labels n).isOf who) (N : Nat) :
    ∃ n, N ≤ n ∧ ((states n).loops who).phase = .test := by
  by_contra hnever
  have hne : ∀ n, N ≤ n → ((states n).loops who).phase ≠ .test := fun n hn htest => hnever ⟨n, hn, htest⟩
  refine no_descent (f := fun n => ((states n).loops who).phase.toTest) hrun hcalls hsteps
    fun n (hn : N ≤ n) => step_measure (hrun n) (fun active => ?_) fun _ calls hstep => ?_
  · simp [Phase.toTest, Prod.Lex.toLex_le_toLex]
  · exact hstep.toTest_lt (hne n hn) (hne (n + 1) (by omega))

end

/-! A thread queues a functor in its loop before it enters it, and then nothing happens to the loop. -/

def alone (loop : EventLoop (Task (Fin 1))) (stack : List (Task (Fin 1))) : System (Fin 1) :=
  { System.start 0 [] 0 0 0 with loops := fun _ => loop, todo := fun _ => stack }

theorem update_alone {α : Type} (f : Fin 1 → α) (a : α) : Function.update f 0 a = fun _ => a := by
  funext i
  simp [Fin.fin_one_eq_zero i]

theorem alone_next {l l' : EventLoop (Task (Fin 1))} {calls : List (Task (Fin 1))}
    (h : l.next = some (l', calls)) : (alone l []).step (.next 0) = .ok (alone l' calls) := by
  have hloop : (alone l []).isLoop 0 = true := rfl
  simp only [System.step, alone, System.start, h]
  refine (if_pos hloop).trans ?_
  rw [update_alone, update_alone]

theorem alone_poll {l : EventLoop (Task (Fin 1))} (h : l.phase = .wait) :
    (alone l []).step (.poll 0 []) = .ok (alone (l.poll []) []) := by
  have henabled : (alone l []).todo 0 = [] ∧ ((alone l []).loops 0).phase = .wait ∧
      (([] : List ActiveChannel).map (·.channel)).Nodup ∧
      ([] : List ActiveChannel).all ((alone l []).reports 0) := ⟨rfl, h, List.nodup_nil, rfl⟩
  unfold System.step
  dsimp only
  rw [if_pos henabled]
  dsimp only [alone]
  rw [update_alone, List.map_nil]

def idle (phase : Phase (Task (Fin 1))) : System (Fin 1) := alone ⟨phase, false, [], false, 0⟩ []

def idlePhase : Nat → Phase (Task (Fin 1))
  | 0 => .ready
  | n + 1 => if n % 3 = 0 then .test else if n % 3 = 1 then .wait else .events []

def idleLabel (n : Nat) : Label (Fin 1) := if idlePhase n = .wait then .poll 0 [] else .next 0

theorem idle_step (n : Nat) : (idle (idlePhase n)).step (idleLabel n) = .ok (idle (idlePhase (n + 1))) := by
  cases n with
  | zero => exact alone_next rfl
  | succ n =>
    have hcases : n % 3 = 0 ∧ (n + 1) % 3 = 1 ∨ n % 3 = 1 ∧ (n + 1) % 3 = 2 ∨
        n % 3 = 2 ∧ (n + 1) % 3 = 0 := by omega
    rcases hcases with ⟨hn, hn'⟩ | ⟨hn, hn'⟩ | ⟨hn, hn'⟩
    · simp only [idleLabel, idlePhase, hn, hn']
      exact alone_next rfl
    · simp only [idleLabel, idlePhase, hn, hn']
      exact alone_poll rfl
    · simp only [idleLabel, idlePhase, hn, hn']
      exact alone_next rfl

theorem idleLabel_ne_call (n : Nat) (c : UserCall (Fin 1)) : idleLabel n ≠ .call 0 c := by
  unfold idleLabel
  split_ifs <;> simp

theorem idleLabel_isOf (n : Nat) : (idleLabel n).isOf 0 := by
  unfold idleLabel
  split_ifs <;> rfl

def servedState : Nat → System (Fin 1)
  | 0 => alone ⟨.ready, false, [], false, 0⟩ []
  | 1 => alone ⟨.ready, false, [], false, 0⟩ [.queueInLoop 0 .user]
  | 2 => alone ⟨.ready, false, [.user], false, 0⟩ []
  | 3 => alone ⟨.test, false, [.user], false, 0⟩ []
  | 4 => alone ⟨.wait, false, [.user], false, 0⟩ []
  | 5 => alone ⟨.events [], false, [.user], false, 0⟩ []
  | 6 => alone ⟨.swap, false, [.user], true, 0⟩ []
  | 7 => alone ⟨.functors [.user], false, [], true, 0⟩ []
  | 8 => alone ⟨.functors [], false, [], true, 0⟩ [.user]
  | 9 => alone ⟨.functors [], false, [], true, 0⟩ []
  | n + 10 => idle (idlePhase (n + 1))

def servedLabel : Nat → Label (Fin 1)
  | 0 => .call 0 (.queueInLoop 0)
  | 1 => .run 0 .silent
  | 4 => .poll 0 []
  | 8 => .ret 0
  | n + 10 => idleLabel (n + 1)
  | _ => .next 0

theorem served_step : ∀ n, (servedState n).step (servedLabel n) = .ok (servedState (n + 1))
  | 0 => by
    have henabled : (servedState 0).inUserCode 0 ∧ (servedState 0).world.knows (.queueInLoop (0 : Fin 1)) :=
      ⟨rfl, rfl⟩
    unfold System.step
    dsimp only [servedLabel]
    rw [if_pos henabled, update_alone]
    rfl
  | 1 => by
    show Except.ok _ = _
    rw [update_alone, update_alone]
    rfl
  | 4 => alone_poll rfl
  | 8 => by
    show Except.ok _ = _
    rw [update_alone]
    rfl
  | n + 10 => idle_step (n + 1)
  | 2 | 3 | 5 | 6 | 7 | 9 => alone_next rfl

theorem servedLabel_ne_call {n : Nat} (hn : 10 ≤ n) (c : UserCall (Fin 1)) : servedLabel n ≠ .call 0 c := by
  obtain ⟨n, rfl⟩ := Nat.exists_eq_add_of_le' hn
  exact idleLabel_ne_call (n + 1) c

theorem exists_servedLabel (N : Nat) : ∃ n, N ≤ n ∧ (servedLabel n).isOf 0 :=
  ⟨N + 10, by omega, idleLabel_isOf (N + 1)⟩

/-- The functor is on the stack of the thread. -/
theorem loop_comes_back_served : (servedState 8).todo 0 = [.user] ∧
    ∃ n, 8 ≤ n ∧ ((servedState n).loops 0).phase = .test :=
  ⟨rfl, loop_comes_back served_step ⟨10, fun _ => servedLabel_ne_call⟩ exists_servedLabel 8⟩

end VServer
