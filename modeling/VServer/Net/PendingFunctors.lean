import VServer.Net.LoopThreads

/-!
# The queue of a loop

Functors of other threads come with a write to the eventfd, and so do those that a functor queues.
A handler that queues one needs none: the loop looks at its queue before it gets back to `epoll_wait`.
So the loop never sleeps over a functor that nobody wakes it for (`no_lost_wakeup`), and it runs them
all once, in the order in which they were pushed, a batch at a time (`executed_in_order`).
-/

namespace VServer

namespace LoopThreads

variable {ι τ : Type} {s s' : LoopThreads ι τ} {label : Label ι τ} [DecidableEq ι] {owner : ι}
  {labels : List (Label ι τ)}

/-! ## Wakeups -/

/-- The thread of the loop queues nothing before it enters `loop()`. -/
def QueuesInside (owner : ι) (s : LoopThreads ι τ) : Label ι τ → Prop
  | .queueInLoop who _ =>
    match s.loop.phase with
    | .ready => who ≠ owner
    | _ => True
  | _ => True

instance (owner : ι) (s : LoopThreads ι τ) (label : Label ι τ) : Decidable (QueuesInside owner s label) := by
  unfold QueuesInside
  split
  · split
    all_goals infer_instance
  · infer_instance

/-- The loop looks at its queue before it sleeps, if it sleeps at all. -/
def looks : Phase (LoopCall τ) → Bool
  | .events _ | .swap | .ended => true
  | _ => false

def Woken (s : LoopThreads ι τ) : Prop :=
  looks s.loop.phase = true ∨ s.loop.pendingFuncs = [] ∨ 0 < s.loop.wakeups ∨ ∃ who, s.waking who = true

omit [DecidableEq ι] in
theorem Placed.phase_of_inUserCode (h : Placed owner s) (huser : s.inUserCode = true) :
    s.loop.phase.isCall = true ∨ s.loop.isOutside = true := by
  unfold inUserCode at huser
  split at huser
  · rename_i hinside
    exact .inl (h.inside (by rw [hinside]; simp))
  · cases huser
  · exact .inr huser

theorem step_woken (hplaced : Placed owner s) (hinv : s.Woken) (hquiet : QueuesInside owner s label)
    (h : s.step owner label = .ok s') : s'.Woken := by
  cases label with
  | queueInLoop who f =>
    obtain ⟨huser, rfl⟩ := queueInLoop_inv h
    by_cases heq : who = owner
    · subst heq
      unfold QueuesInside at hquiet
      dsimp only at hquiet
      have hphase := hplaced.phase_of_inUserCode (huser rfl)
      unfold EventLoop.isOutside at hphase
      unfold Woken EventLoop.push
      dsimp only
      -- it is in a handler, and looks at the queue, or in a functor, and wakes itself
      cases hp : s.loop.phase with
      | events active => exact .inl rfl
      | functors funcs =>
        refine .inr (.inr (.inr ⟨who, ?_⟩))
        rw [Function.update_self, EventLoop.wantsWakeup, hplaced.calling, hp]
        exact Bool.or_true _
      | ended => exact .inl rfl
      | ready =>
        rw [hp] at hquiet
        exact absurd rfl hquiet
      | _ =>
        rw [hp] at hphase
        rcases hphase with hphase | hphase
        all_goals cases hphase
    · refine .inr (.inr (.inr ⟨who, ?_⟩))
      dsimp only
      rw [Function.update_self, EventLoop.wantsWakeup, decide_eq_false heq]
      rfl
  | wakeup who =>
    obtain rfl := wakeup_inv h
    exact .inr (.inr (.inl (Nat.succ_pos _)))
  | quit who =>
    obtain rfl := quit_inv h
    exact hinv
  | poll active =>
    obtain ⟨-, rfl⟩ := poll_inv h
    exact .inl rfl
  | ret =>
    rcases ret_inv h with ⟨-, rfl⟩ | ⟨hread, rfl⟩
    · exact hinv
    · -- the eventfd is read among the handlers
      have hevents := hplaced.reading hread
      unfold Woken
      dsimp only
      cases hp : s.loop.phase with
      | events active => exact .inl rfl
      | _ =>
        rw [hp] at hevents
        cases hevents
  | next =>
    obtain ⟨loop, calls, -, -, hnext, hloop, -, hwaking, -⟩ := next_inv h
    unfold Woken at hinv ⊢
    rw [hloop, hwaking]
    cases hnext with
    | enter phase =>
      rw [phase] at hinv
      exact .inr (hinv.resolve_left Bool.false_ne_true)
    | stop phase quit => exact .inl rfl
    | sleep phase quit =>
      rw [phase] at hinv
      exact .inr (hinv.resolve_left Bool.false_ne_true)
    | handle phase => exact .inl rfl
    | idle phase empty => exact .inr (.inl empty)
    | begin phase => exact .inl rfl
    | swap phase => exact .inr (.inl rfl)
    | functor phase =>
      rw [phase] at hinv
      exact .inr (hinv.resolve_left Bool.false_ne_true)
    | done phase =>
      rw [phase] at hinv
      exact .inr (hinv.resolve_left Bool.false_ne_true)

/-- **No lost wakeup**: when the thread of the loop is in `epoll_wait` or on the way to it, and the
queue is not empty, there is something to read from the eventfd, or another thread is about to write
to it. -/
theorem no_lost_wakeup (hquiet : Machine.Along (step owner) (QueuesInside owner) init labels)
    (hrun : Machine.run (step owner) init labels = .ok s)
    (hsleeps : s.loop.phase = .wait ∨ s.loop.phase = .test ∧ s.loop.quit = false)
    (hpending : s.loop.pendingFuncs ≠ []) :
    0 < s.loop.wakeups ∨ ∃ who, who ≠ owner ∧ s.waking who = true := by
  obtain ⟨hplaced, hwoken⟩ := Machine.run_inv (I := fun s : LoopThreads ι τ => Placed owner s ∧ s.Woken)
    (fun _ _ _ hinv hlabel hstep => ⟨step_placed hinv.1 hstep, step_woken hinv.1 hinv.2 hlabel hstep⟩)
    ⟨init_placed owner, .inr (.inl rfl)⟩ hquiet hrun
  have hawake : looks s.loop.phase = false ∧ s.loop.phase.isCalling = false := by
    rcases hsleeps with hp | ⟨hp, -⟩
    all_goals
      rw [hp]
      exact ⟨rfl, rfl⟩
  rcases hwoken with hlooks | hempty | hwakeups | ⟨who, hwho⟩
  · rw [hawake.1] at hlooks
    cases hlooks
  · exact absurd hempty hpending
  · exact .inl hwakeups
  · refine .inr ⟨who, ?_, hwho⟩
    rintro rfl
    rw [hplaced.waking hwho] at hawake
    cases hawake.2

/-- Another thread has pushed a functor while the loop is in `epoll_wait`. -/
theorem no_lost_wakeup_pushed :
    ∃ s : LoopThreads (Fin 2) Nat, Machine.run (step 0) init [.next, .next, .queueInLoop 1 7] = .ok s ∧
      s.loop.wakeups = 0 ∧ (0 < s.loop.wakeups ∨ ∃ who, who ≠ 0 ∧ s.waking who = true) := by
  obtain ⟨s, hrun, hobserved⟩ := eq_ok_of_toOption (b := (Phase.wait, [LoopCall.func 7], 0))
    (f := fun s : LoopThreads (Fin 2) Nat => (s.loop.phase, s.loop.pendingFuncs, s.loop.wakeups))
    (x := Machine.run (step 0) init [.next, .next, .queueInLoop 1 7]) (by decide +kernel)
  obtain ⟨hphase, hrest⟩ := Prod.mk.inj hobserved
  obtain ⟨hpending, hwakeups⟩ := Prod.mk.inj hrest
  refine ⟨s, hrun, hwakeups, no_lost_wakeup (Machine.along_of_check (by decide +kernel)) hrun (.inl hphase) ?_⟩
  rw [hpending]
  exact List.cons_ne_nil _ _

/-! ## Batches -/

/-- The functors that were pushed are the ones that were called, what is left of the batch, and the
queue. Those that were called were pushed before their batch began. -/
structure Batched (s : LoopThreads ι τ) : Prop where
  split : ∃ done rest waiting, s.queued = done ++ rest ++ waiting ∧
    List.Forall₂ (fun q e => q.1 = e.1 ∧ q.2 < e.2) done s.executed ∧
    s.batch = rest.map Prod.fst ∧ (∀ q ∈ rest, q.2 < s.batches) ∧
    s.loop.pendingFuncs = waiting.map Prod.fst ∧ ∀ q ∈ waiting, q.2 ≤ s.batches
  begun : ∀ e ∈ s.executed, e.2 ≤ s.batches
  sorted : (s.executed.map Prod.snd).Pairwise (· ≤ ·)

omit [DecidableEq ι] in
theorem init_batched : (init : LoopThreads ι τ).Batched :=
  ⟨⟨[], [], [], rfl, .nil, rfl, nofun, rfl, nofun⟩, nofun, .nil⟩

omit [DecidableEq ι] in
theorem batch_of_phase (h : ∀ funcs, s.loop.phase ≠ .functors funcs) : s.batch = [] := by
  unfold batch
  split
  · rename_i funcs hphase
    exact absurd hphase (h funcs)
  · rfl

omit [DecidableEq ι] in
theorem Batched.of_same (h : s.Batched) (hqueued : s'.queued = s.queued) (hexecuted : s'.executed = s.executed)
    (hbatches : s'.batches = s.batches) (hbatch : s'.batch = s.batch)
    (hpending : s'.loop.pendingFuncs = s.loop.pendingFuncs) : s'.Batched := by
  obtain ⟨hsplit, hbegun, hsorted⟩ := h
  refine ⟨?_, ?_, ?_⟩
  · rw [hqueued, hexecuted, hbatches, hbatch, hpending]
    exact hsplit
  · rw [hexecuted, hbatches]
    exact hbegun
  · rw [hexecuted]
    exact hsorted

theorem step_batched (hinv : s.Batched) (h : s.step owner label = .ok s') : s'.Batched := by
  cases label with
  | queueInLoop who f =>
    obtain ⟨-, rfl⟩ := queueInLoop_inv h
    obtain ⟨⟨done, rest, waiting, hqueued, hdone, hrest, hbefore, hpending, hwaiting⟩, hbegun, hsorted⟩ := hinv
    refine ⟨⟨done, rest, waiting ++ [(.func f, s.batches)], ?_, hdone, hrest, hbefore, ?_, fun q hq => ?_⟩,
      hbegun, hsorted⟩
    · dsimp only
      rw [hqueued, List.append_assoc]
    · dsimp only [EventLoop.push]
      rw [hpending, List.map_append]
      rfl
    · rcases List.mem_append.mp hq with hq | hq
      · exact hwaiting q hq
      · rw [List.mem_singleton.mp hq]
  | wakeup who =>
    obtain rfl := wakeup_inv h
    exact hinv.of_same rfl rfl rfl rfl rfl
  | quit who =>
    obtain rfl := quit_inv h
    exact hinv.of_same rfl rfl rfl rfl rfl
  | poll active =>
    obtain ⟨hphase, rfl⟩ := poll_inv h
    refine hinv.of_same rfl rfl rfl ?_ rfl
    unfold batch EventLoop.poll
    rw [hphase]
  | ret =>
    rcases ret_inv h with ⟨-, rfl⟩ | ⟨-, rfl⟩
    all_goals exact hinv.of_same rfl rfl rfl rfl rfl
  | next =>
    obtain ⟨loop, calls, -, -, hnext, hloop, -, -, hqueued, hbatches, hexecuted⟩ := next_inv h
    -- only the swap and the functors themselves have to do with the queue
    have hsame : loop.pendingFuncs = s.loop.pendingFuncs →
        (∀ funcs, loop.phase ≠ .functors funcs) → (∀ funcs, s.loop.phase ≠ .functors funcs) →
        s.loop.phase ≠ .swap → s'.Batched := by
      intro hpending hphase hcalling hswap
      refine hinv.of_same hqueued ?_ ?_ ?_ (by rw [hloop, hpending])
      · rw [hexecuted]
        split
        · exact absurd ‹_› (hcalling _)
        · rfl
      · rw [hbatches]
        split
        · exact absurd ‹_› hswap
        · rfl
      · rw [batch_of_phase hcalling, batch_of_phase]
        rwa [hloop]
    cases hnext with
    | swap phase =>
      rw [phase] at hbatches hexecuted
      obtain ⟨⟨done, rest, waiting, hsplit, hdone, hrest, hbefore, hpending, hwaiting⟩, hbegun, hsorted⟩ :=
        hinv
      have hnil : rest = [] := by
        unfold batch at hrest
        rw [phase] at hrest
        exact List.map_eq_nil_iff.mp hrest.symm
      subst hnil
      refine ⟨⟨done, waiting, [], ?_, ?_, ?_, fun q hq => ?_, ?_, nofun⟩, fun e he => ?_, ?_⟩
      · rw [hqueued, hsplit, List.append_nil, List.append_nil]
      · rw [hexecuted]
        exact hdone
      · unfold batch
        rw [hloop]
        exact hpending
      · rw [hbatches]
        exact Nat.lt_succ_of_le (hwaiting q hq)
      · rw [hloop]
        rfl
      · rw [hexecuted] at he
        rw [hbatches]
        exact Nat.le_succ_of_le (hbegun e he)
      · rw [hexecuted]
        exact hsorted
    | @functor f funcs phase =>
      rw [phase] at hbatches hexecuted
      obtain ⟨⟨done, rest, waiting, hsplit, hdone, hrest, hbefore, hpending, hwaiting⟩, hbegun, hsorted⟩ :=
        hinv
      unfold batch at hrest
      rw [phase] at hrest
      -- the functor that is called is the first of the batch
      cases rest with
      | nil => cases hrest
      | cons q rest =>
        obtain ⟨hf, hfuncs⟩ := List.cons.inj hrest
        refine ⟨⟨done ++ [q], rest, waiting, ?_, ?_, ?_, fun q' hq' => ?_, ?_, fun q' hq' => ?_⟩, fun e he => ?_, ?_⟩
        · rw [hqueued, hsplit]
          simp
        · rw [hexecuted]
          exact List.rel_append hdone (.cons ⟨hf.symm, hbefore q List.mem_cons_self⟩ .nil)
        · unfold batch
          rw [hloop]
          exact hfuncs
        · rw [hbatches]
          exact hbefore q' (List.mem_cons_of_mem _ hq')
        · rw [hloop]
          exact hpending
        · rw [hbatches]
          exact hwaiting q' hq'
        · rw [hexecuted] at he
          rw [hbatches]
          rcases List.mem_append.mp he with he | he
          · exact hbegun e he
          · rw [List.mem_singleton.mp he]
        · rw [hexecuted, List.map_append]
          refine List.pairwise_append.mpr ⟨hsorted, List.pairwise_singleton _ _, fun a ha b hb => ?_⟩
          obtain ⟨e, he, rfl⟩ := List.mem_map.mp ha
          rw [List.mem_singleton.mp hb]
          exact hbegun e he
    | enter phase => exact hsame rfl nofun (by simp [phase]) (by simp [phase])
    | stop phase quit => exact hsame rfl nofun (by simp [phase]) (by simp [phase])
    | sleep phase quit => exact hsame rfl nofun (by simp [phase]) (by simp [phase])
    | handle phase => exact hsame rfl nofun (by simp [phase]) (by simp [phase])
    | idle phase empty => exact hsame rfl nofun (by simp [phase]) (by simp [phase])
    | begin phase => exact hsame rfl nofun (by simp [phase]) (by simp [phase])
    | done phase =>
      rw [phase] at hbatches hexecuted
      refine hinv.of_same hqueued (hexecuted.trans (List.append_nil _)) hbatches ?_ (by rw [hloop])
      unfold batch
      rw [hloop, phase]

theorem run_batched (hrun : Machine.run (step owner) init labels = .ok s) : s.Batched :=
  Machine.run_inv (P := fun _ _ => True) (fun _ _ _ hinv _ hstep => step_batched hinv hstep)
    init_batched (Machine.along_of_forall (fun _ _ => trivial) labels) hrun

/-- **Pending functors run once, and in order.** What was called, what is left of the batch and the
queue are what was pushed. The batches are called one after another, and a functor in a later batch
than any that had begun when it was pushed. -/
theorem executed_in_order (hrun : Machine.run (step owner) init labels = .ok s) :
    s.executed.map Prod.fst ++ s.batch ++ s.loop.pendingFuncs = s.queued.map Prod.fst ∧
      (s.executed.map Prod.snd).Pairwise (· ≤ ·) ∧
      ∀ (k : Nat) (f f' : LoopCall τ) (pushed called : Nat), s.queued[k]? = some (f, pushed) →
        s.executed[k]? = some (f', called) → f' = f ∧ pushed < called := by
  obtain ⟨⟨done, rest, waiting, hqueued, hdone, hrest, -, hpending, -⟩, -, hsorted⟩ := run_batched hrun
  refine ⟨?_, hsorted, fun k f f' pushed called hk hk' => ?_⟩
  · have hnames : done.map Prod.fst = s.executed.map Prod.fst := by
      rw [← List.forall₂_eq_eq_eq, List.forall₂_map_left_iff, List.forall₂_map_right_iff]
      exact hdone.imp fun _ _ h => h.1
    rw [hqueued, hrest, hpending, List.map_append, List.map_append, hnames]
  · obtain ⟨hlt, hcalled⟩ := List.getElem?_eq_some_iff.mp hk'
    have hlength := hdone.length_eq
    rw [hqueued, List.append_assoc, List.getElem?_append_left (by omega)] at hk
    obtain ⟨hlt', hpushed⟩ := List.getElem?_eq_some_iff.mp hk
    have hentry := hdone.get hlt' hlt
    rw [List.get_eq_getElem, List.get_eq_getElem, hcalled, hpushed] at hentry
    exact ⟨hentry.1.symm, hentry.2⟩

/-- A functor of another thread queues a functor, which runs in the batch behind its own. -/
def requeueRun : List (Label (Fin 2) Nat) :=
  [.next, .next, .queueInLoop 1 7, .wakeup 1, .poll [.handleRead], .next, .ret, .next, .next, .next,
    .queueInLoop 0 8, .wakeup 0, .ret, .next, .next, .poll [.handleRead], .next, .ret, .next, .next, .next]

theorem executed_in_order_requeue :
    ∃ s : LoopThreads (Fin 2) Nat, Machine.run (step 0) init requeueRun = .ok s ∧
      s.executed = [(.func 7, 1), (.func 8, 2)] ∧
      s.executed.map Prod.fst ++ s.batch ++ s.loop.pendingFuncs = s.queued.map Prod.fst ∧
      (s.executed.map Prod.snd).Pairwise (· ≤ ·) ∧
      ∀ (k : Nat) (f f' : LoopCall Nat) (pushed called : Nat), s.queued[k]? = some (f, pushed) →
        s.executed[k]? = some (f', called) → f' = f ∧ pushed < called := by
  obtain ⟨s, hrun, hexecuted⟩ := eq_ok_of_toOption (b := [(LoopCall.func 7, 1), (.func 8, 2)])
    (f := fun s : LoopThreads (Fin 2) Nat => s.executed) (x := Machine.run (step 0) init requeueRun)
    (by decide +kernel)
  exact ⟨s, hrun, hexecuted, executed_in_order hrun⟩

end LoopThreads

end VServer
