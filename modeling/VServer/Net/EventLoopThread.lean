import VServer.Net.LoopThreads

/-!
# The thread of a loop, and its end

`EventLoopThread` (`EventLoopThread.h`, `EventLoopThread.cc`) makes a loop on a thread of its own and
hands it out to its creator, whose destructor tells the loop to quit and joins the thread.

`quit()` is one write to `m_quit`, and nothing else. It is lost when it comes before `loop()`, which
begins with `m_quit = false` although the loop has been handed out by then, and it goes unheard when
the loop is in `epoll_wait` with nothing there that could wake it. Otherwise the loop ends without
another sleep (`quit_heard`).
-/

namespace VServer

/-- Where the creator of an `EventLoopThread` is. -/
inductive CreatorPhase where
  /-- before `startLoop` -/
  | new
  /-- in `startLoop`, at `while (m_loop == NULL)` -/
  | waiting
  /-- `startLoop` has returned the loop -/
  | started
  /-- in the destructor, which has found that `m_loop != NULL` -/
  | quitting
  /-- in the destructor, at `m_thread.join()` -/
  | joining
  /-- behind the destructor -/
  | gone
  deriving DecidableEq, Repr

structure EventLoopThread (ι τ : Type) where
  threads : LoopThreads ι τ
  creator : CreatorPhase
  /-- The thread has made its loop. -/
  constructed : Bool
  /-- `m_loop != NULL` -/
  loop : Bool
  /-- `createLoopInThread` is behind `m_loop = &loop`. -/
  handedOut : Bool
  /-- A call of `quit()` has returned. No code reads it. -/
  quitReturned : Bool

namespace EventLoopThread

variable {ι τ : Type}

inductive Label (ι τ : Type) where
  /-- `startLoop` up to the wait -/
  | startLoop
  /-- `EventLoop loop;` -/
  | construct
  /-- `m_loop = &loop` and the signal -/
  | handOut
  /-- `startLoop` returns. -/
  | returnLoop
  /-- A step of the loop, or of a thread that has a pointer to it; before `loop()`, its own thread is in
  the init callback. -/
  | threads (label : LoopThreads.Label ι τ)
  /-- The destructor looks at `m_loop`. -/
  | destruct
  /-- `m_loop->quit()` in the destructor -/
  | quit
  /-- `m_loop = NULL`, behind `loop()` -/
  | clear
  | join
  deriving DecidableEq, Repr

def init : EventLoopThread ι τ := ⟨.init, .new, false, false, false, false⟩

variable [DecidableEq ι] (owner : ι)

/-- The thread of the loop does not enter `loop()` before it has handed the loop out. -/
def mayEnter (s : EventLoopThread ι τ) : LoopThreads.Label ι τ → Bool
  | .next => s.handedOut
  | _ => true

def step (s : EventLoopThread ι τ) : Label ι τ → Except Halt (EventLoopThread ι τ)
  | .startLoop =>
    if s.creator = .new then .ok { s with creator := .waiting } else .error .disabled
  | .construct =>
    if s.creator ≠ .new ∧ s.constructed = false then .ok { s with constructed := true }
    else .error .disabled
  | .handOut =>
    if s.constructed ∧ s.handedOut = false then .ok { s with loop := true, handedOut := true }
    else .error .disabled
  | .returnLoop =>
    if s.creator = .waiting ∧ s.loop then .ok { s with creator := .started } else .error .disabled
  | .threads label =>
    if s.constructed ∧ s.mayEnter label then
      match s.threads.step owner label with
      | .ok threads =>
        .ok { s with
          threads := threads
          quitReturned := match label with
            | .quit _ => true
            | _ => s.quitReturned }
      | .error e => .error e
    else .error .disabled
  | .destruct =>
    match s.creator with
    | .new | .started => .ok { s with creator := if s.loop then .quitting else .gone }
    | _ => .error .disabled
  | .quit =>
    if s.creator = .quitting then
      .ok { s with
        threads := { s.threads with loop := { s.threads.loop with quit := true } }
        creator := .joining
        quitReturned := true }
    else .error .disabled
  | .clear =>
    match s.threads.loop.phase with
    | .ended => .ok { s with loop := false }
    | _ => .error .disabled
  | .join =>
    match s.threads.loop.phase with
    | .ended =>
      if s.creator = .joining ∧ s.loop = false then .ok { s with creator := .gone } else .error .disabled
    | _ => .error .disabled

/-- `quit()` has returned, and the loop is in `epoll_wait` with nothing that could wake it. -/
def QuitLost (s : EventLoopThread ι τ) : Prop :=
  s.quitReturned = true ∧ s.threads.loop.phase = .wait ∧ s.threads.loop.wakeups = 0 ∧
    s.threads.loop.pendingFuncs = []

/-- The loop is in `loop()`, and not asleep in `epoll_wait`. -/
def hears (loop : EventLoop (LoopCall τ)) : Bool :=
  match loop.phase with
  | .ready => false
  | .wait => loop.wakeups ≠ 0 || !loop.pendingFuncs.isEmpty
  | _ => true

/-- `quit()` is called when the loop hears it. -/
def QuitsHeard (s : EventLoopThread ι τ) : Label ι τ → Prop
  | .threads (.quit _) | .quit => hears s.threads.loop = true
  | _ => True

instance (s : EventLoopThread ι τ) (label : Label ι τ) : Decidable (QuitsHeard s label) := by
  unfold QuitsHeard
  split
  all_goals infer_instance

/-! ## Who heard of it will not sleep -/

variable {owner} {s s' : EventLoopThread ι τ} {label : Label ι τ} {labels : List (Label ι τ)}

/-- The loop has heard of `quit()`. -/
def Heard (loop : EventLoop (LoopCall τ)) : Prop := loop.quit = true ∧ hears loop = true

omit [DecidableEq ι] in
theorem hears_mono {l l' : EventLoop (LoopCall τ)} (h : hears l = true) (hphase : l'.phase = l.phase)
    (hwakeups : l.wakeups ≤ l'.wakeups) (hpending : l'.pendingFuncs = [] → l.pendingFuncs = []) :
    hears l' = true := by
  unfold hears at h ⊢
  rw [hphase]
  cases hp : l.phase with
  | wait =>
    rw [hp] at h
    dsimp only at h ⊢
    simp only [Bool.or_eq_true, decide_eq_true_eq, Bool.not_eq_true', List.isEmpty_eq_false_iff] at h ⊢
    exact h.imp (fun hw => by omega) fun hne hnil => hne (hpending hnil)
  | ready =>
    rw [hp] at h
    exact h
  | _ => rfl

theorem threads_heard {t t' : LoopThreads ι τ} {label : LoopThreads.Label ι τ}
    (hplaced : LoopThreads.Placed owner t) (hinv : Heard t.loop) (h : t.step owner label = .ok t') :
    Heard t'.loop := by
  obtain ⟨hquit, hhears⟩ := hinv
  cases label with
  | queueInLoop who f =>
    obtain ⟨-, rfl⟩ := LoopThreads.queueInLoop_inv h
    refine ⟨hquit, hears_mono hhears rfl (Nat.le_refl _) fun hnil => ?_⟩
    simp [EventLoop.push] at hnil
  | wakeup who =>
    obtain rfl := LoopThreads.wakeup_inv h
    exact ⟨hquit, hears_mono hhears rfl (Nat.le_succ _) id⟩
  | quit who =>
    obtain rfl := LoopThreads.quit_inv h
    exact ⟨rfl, hears_mono hhears rfl (Nat.le_refl _) id⟩
  | poll active =>
    obtain ⟨-, rfl⟩ := LoopThreads.poll_inv h
    exact ⟨hquit, rfl⟩
  | ret =>
    rcases LoopThreads.ret_inv h with ⟨-, rfl⟩ | ⟨hread, rfl⟩
    · exact ⟨hquit, hhears⟩
    · -- the eventfd is read among the handlers
      refine ⟨hquit, ?_⟩
      have hevents := hplaced.reading hread
      unfold hears
      dsimp only
      cases hp : t.loop.phase with
      | wait =>
        rw [hp] at hevents
        cases hevents
      | ready =>
        rw [hp] at hevents
        cases hevents
      | _ => rfl
  | next =>
    obtain ⟨loop, calls, -, -, hnext, hloop, -⟩ := LoopThreads.next_inv h
    rw [hloop]
    unfold hears at hhears
    cases hnext with
    | enter phase =>
      rw [phase] at hhears
      cases hhears
    | sleep phase quit =>
      rw [quit] at hquit
      cases hquit
    | _ => exact ⟨hquit, rfl⟩

/-- Whoever has called `quit()` was heard. -/
structure Inv (owner : ι) (s : EventLoopThread ι τ) : Prop where
  placed : LoopThreads.Placed owner s.threads
  heard : s.quitReturned = true → Heard s.threads.loop

theorem step_inv (hinv : Inv owner s) (hheard : QuitsHeard s label) (h : s.step owner label = .ok s') :
    Inv owner s' := by
  cases label with
  | threads label =>
    unfold step at h
    dsimp only at h
    split_ifs at h
    split at h
    · rename_i threads hstep
      cases h
      refine ⟨LoopThreads.step_placed hinv.placed hstep, fun hreturned => ?_⟩
      cases label with
      | quit who =>
        obtain rfl := LoopThreads.quit_inv hstep
        exact ⟨rfl, hears_mono hheard rfl (Nat.le_refl _) id⟩
      | _ => exact threads_heard hinv.placed (hinv.heard hreturned) hstep
    · cases h
  | quit =>
    unfold step at h
    dsimp only at h
    split_ifs at h
    cases h
    obtain ⟨hpending, hbatch, hcalling, hinside, hreading, hwaking⟩ := hinv.placed
    exact ⟨⟨hpending, hbatch, hcalling, hinside, hreading, hwaking⟩,
      fun _ => ⟨rfl, hears_mono hheard rfl (Nat.le_refl _) id⟩⟩
  | destruct =>
    unfold step at h
    dsimp only at h
    split at h
    · cases h
      exact ⟨hinv.placed, hinv.heard⟩
    · cases h
      exact ⟨hinv.placed, hinv.heard⟩
    · cases h
  | clear =>
    unfold step at h
    dsimp only at h
    split at h
    · cases h
      exact ⟨hinv.placed, hinv.heard⟩
    · cases h
  | join =>
    unfold step at h
    dsimp only at h
    split at h
    · split_ifs at h
      cases h
      exact ⟨hinv.placed, hinv.heard⟩
    · cases h
  | _ =>
    unfold step at h
    dsimp only at h
    split_ifs at h
    cases h
    exact ⟨hinv.placed, hinv.heard⟩

omit [DecidableEq ι] in
theorem init_inv (owner : ι) : Inv owner (init : EventLoopThread ι τ) := by
  refine ⟨LoopThreads.init_placed owner, fun h => ?_⟩
  cases h

/-- **`quit()` is heard** in every run in which it is only ever called when the loop is in `loop()` and
not asleep. -/
theorem quit_heard (hheard : Machine.Along (step owner) QuitsHeard init labels)
    (hrun : Machine.run (step owner) init labels = .ok s) : ¬ QuitLost s := by
  have hinv : Inv owner s := Machine.run_inv (fun _ _ _ hinv hlabel hstep => step_inv hinv hlabel hstep)
    (init_inv owner) hheard hrun
  rintro ⟨hreturned, hphase, hwakeups, hpending⟩
  have hhears := (hinv.heard hreturned).2
  unfold hears at hhears
  rw [hphase] at hhears
  dsimp only at hhears
  simp [hwakeups, hpending] at hhears

/-- The creator starts the loop; the loop runs up to `epoll_wait`. -/
def startRun : List (Label (Fin 2) Nat) :=
  [.startLoop, .construct, .handOut, .returnLoop, .threads .next, .threads .next]

/-- `epoll_wait` returns, and the creator goes while the loop is among its handlers. -/
theorem quit_heard_awake :
    ∃ s : EventLoopThread (Fin 2) Nat,
      Machine.run (step 0) init (startRun ++ [.threads (.poll []), .destruct, .quit, .threads .next]) = .ok s ∧
        s.quitReturned = true ∧ ¬ QuitLost s := by
  obtain ⟨s, hrun, hreturned⟩ := eq_ok_of_toOption (b := true)
    (f := fun s : EventLoopThread (Fin 2) Nat => s.quitReturned)
    (x := Machine.run (step 0) init (startRun ++ [.threads (.poll []), .destruct, .quit, .threads .next]))
    (by decide +kernel)
  exact ⟨s, hrun, hreturned, quit_heard (Machine.along_of_check (by decide +kernel)) hrun⟩

/-- The creator goes before the thread has entered `loop()`, and while the loop is asleep. -/
theorem quit_lost :
    (∃ s : EventLoopThread (Fin 2) Nat,
      Machine.run (step 0) init ([.startLoop, .construct, .handOut, .returnLoop, .destruct, .quit,
        .threads .next, .threads .next]) = .ok s ∧ QuitLost s) ∧
    ∃ s : EventLoopThread (Fin 2) Nat,
      Machine.run (step 0) init (startRun ++ [.destruct, .quit]) = .ok s ∧ QuitLost s := by
  constructor
  · obtain ⟨s, hrun, hobserved⟩ := eq_ok_of_toOption (b := (true, (Phase.wait : Phase (LoopCall Nat)), 0, []))
      (f := fun s : EventLoopThread (Fin 2) Nat => (s.quitReturned, s.threads.loop.phase,
        s.threads.loop.wakeups, s.threads.loop.pendingFuncs))
      (x := Machine.run (step 0) init ([.startLoop, .construct, .handOut, .returnLoop, .destruct, .quit,
        .threads .next, .threads .next])) (by decide +kernel)
    simp only [Prod.mk.injEq] at hobserved
    exact ⟨s, hrun, hobserved⟩
  · obtain ⟨s, hrun, hobserved⟩ := eq_ok_of_toOption (b := (true, (Phase.wait : Phase (LoopCall Nat)), 0, []))
      (f := fun s : EventLoopThread (Fin 2) Nat => (s.quitReturned, s.threads.loop.phase,
        s.threads.loop.wakeups, s.threads.loop.pendingFuncs))
      (x := Machine.run (step 0) init (startRun ++ [.destruct, .quit])) (by decide +kernel)
    simp only [Prod.mk.injEq] at hobserved
    exact ⟨s, hrun, hobserved⟩

end EventLoopThread

end VServer
