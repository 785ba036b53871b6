import VServer.Lib.Machine
import VServer.Net.EventLoop

/-!
# A loop and the threads that call it

One `EventLoop`, its own thread `owner`, and any number of other threads. Between the `push_back` of
`queueInLoop` and its `wakeup()`, between the handlers, and inside every handler and every functor
anything may happen on the other threads. `τ` are the functions the users of the loop queue, or set
as the callbacks of their channels; inside of one the thread of the loop may call the loop itself.
-/

namespace VServer

/-- What `loop()` calls. -/
inductive LoopCall (τ : Type) where
  /-- `EventLoop::handleRead`, the callback of the wakeup channel -/
  | handleRead
  | func (f : τ)
  deriving DecidableEq, Repr

def LoopCall.isHandleRead {τ : Type} : LoopCall τ → Bool
  | .handleRead => true
  | .func _ => false

structure LoopThreads (ι τ : Type) where
  loop : EventLoop (LoopCall τ)
  /-- The handler or functor the thread of the loop is in. -/
  inside : Option (LoopCall τ)
  /-- The threads that have pushed a functor, and are on the way to `wakeup()`. -/
  waking : ι → Bool
  /-- How often `doPendingFunctors` has swapped the queue. -/
  batches : Nat
  /-- The functors that were pushed, and the number of batches then. No code reads it. -/
  queued : List (LoopCall τ × Nat)
  /-- The functors that were called, and the number of the batch. No code reads it. -/
  executed : List (LoopCall τ × Nat)

namespace LoopThreads

variable {ι τ : Type}

inductive Label (ι τ : Type) where
  /-- `queueInLoop(f)` up to the `push_back` -/
  | queueInLoop (who : ι) (f : τ)
  | wakeup (who : ι)
  | quit (who : ι)
  /-- `loop()` goes on. -/
  | next
  /-- `epoll_wait` returns with these. -/
  | poll (active : List (LoopCall τ))
  /-- The handler or functor returns. -/
  | ret
  deriving DecidableEq, Repr

def init : LoopThreads ι τ := ⟨.init, none, fun _ => false, 0, [], []⟩

variable (s : LoopThreads ι τ)

def inUserCode : Bool :=
  match s.inside with
  | some (.func _) => true
  | some .handleRead => false
  | none => s.loop.isOutside

variable [DecidableEq ι] (owner : ι)

def step (s : LoopThreads ι τ) : Label ι τ → Except Halt (LoopThreads ι τ)
  | .queueInLoop who f =>
    if s.waking who = false ∧ (who = owner → s.inUserCode = true) then
      .ok { s with
        loop := s.loop.push (.func f)
        waking := Function.update s.waking who (s.loop.wantsWakeup (who = owner))
        queued := s.queued ++ [(.func f, s.batches)] }
    else .error .disabled
  | .wakeup who =>
    if s.waking who then
      .ok { s with loop := s.loop.wakeup, waking := Function.update s.waking who false }
    else .error .disabled
  | .quit who =>
    if s.waking who = false ∧ (who = owner → s.inUserCode = true) then
      .ok { s with loop := { s.loop with quit := true } }
    else .error .disabled
  | .next =>
    match s.inside, s.loop.next with
    | none, some (loop, calls) =>
      if s.waking owner = false then
        .ok { s with
          loop := loop
          inside := calls.head?
          batches := match s.loop.phase with
            | .swap => s.batches + 1
            | _ => s.batches
          executed := match s.loop.phase with
            | .functors _ => s.executed ++ calls.map (·, s.batches)
            | _ => s.executed }
      else .error .disabled
    | _, _ => .error .disabled
  | .poll active =>
    match s.loop.phase with
    | .wait =>
      -- a channel is reported once, and the wakeup channel only when there is something to read
      if active.countP LoopCall.isHandleRead ≤ min s.loop.wakeups 1 then
        .ok { s with loop := s.loop.poll active }
      else .error .disabled
    | _ => .error .disabled
  | .ret =>
    match s.inside with
    | some (.func _) => if s.waking owner = false then .ok { s with inside := none } else .error .disabled
    | some .handleRead =>
      match s.loop.handleRead with
      | .ok loop => .ok { s with loop := loop, inside := none }
      | .error f => .error (.fault f)
    | none => .error .disabled

end LoopThreads

/-! ## What `loop()` does next -/

/-- The steps of `loop()`, each with its phase. -/
inductive EventLoop.NextStep {τ : Type} (l : EventLoop τ) : EventLoop τ → List τ → Prop
  | enter (phase : l.phase = .ready) : NextStep l { l with phase := .test, quit := false } []
  | stop (phase : l.phase = .test) (quit : l.quit = true) : NextStep l { l with phase := .ended } []
  | sleep (phase : l.phase = .test) (quit : l.quit = false) : NextStep l { l with phase := .wait } []
  | handle {call : τ} {active : List τ} (phase : l.phase = .events (call :: active)) :
    NextStep l { l with phase := .events active } [call]
  | idle (phase : l.phase = .events []) (empty : l.pendingFuncs = []) :
    NextStep l { l with phase := .test } []
  | begin (phase : l.phase = .events []) :
    NextStep l { l with phase := .swap, callingPendingFuncs := true } []
  | swap (phase : l.phase = .swap) :
    NextStep l { l with phase := .functors l.pendingFuncs, pendingFuncs := [] } []
  | functor {f : τ} {funcs : List τ} (phase : l.phase = .functors (f :: funcs)) :
    NextStep l { l with phase := .functors funcs } [f]
  | done (phase : l.phase = .functors []) :
    NextStep l { l with phase := .test, callingPendingFuncs := false } []

theorem EventLoop.next_step {τ : Type} {l l' : EventLoop τ} {calls : List τ}
    (h : l.next = some (l', calls)) : l.NextStep l' calls := by
  unfold next at h
  split at h
  all_goals rename_i hphase
  · cases h
    exact .enter hphase
  · by_cases hquit : l.quit = true
    · rw [if_pos hquit] at h
      cases h
      exact .stop hphase hquit
    · rw [if_neg hquit] at h
      cases h
      exact .sleep hphase (Bool.not_eq_true _ ▸ hquit)
  · cases h
  · cases h
    exact .handle hphase
  · split_ifs at h with hempty
    · cases h
      exact .idle hphase (List.isEmpty_iff.mp hempty)
    · cases h
      exact .begin hphase
  · cases h
    exact .swap hphase
  · cases h
    exact .functor hphase
  · cases h
    exact .done hphase
  · cases h

/-! ## Where the thread of the loop is -/

namespace Phase

variable {τ : Type}

/-- In the `for` over the active channels. -/
def isEvents : Phase τ → Bool
  | .events _ => true
  | _ => false

/-- In one of the two `for`s. -/
def isCall : Phase τ → Bool
  | .events _ | .functors _ => true
  | _ => false

/-- Where `m_callingPendingFuncs` is set. -/
def isCalling : Phase τ → Bool
  | .swap | .functors _ => true
  | _ => false

end Phase

namespace LoopThreads

variable {ι τ : Type} {s s' : LoopThreads ι τ} {label : Label ι τ}

/-- What is left of the batch that `doPendingFunctors` is running. -/
def batch (s : LoopThreads ι τ) : List (LoopCall τ) :=
  match s.loop.phase with
  | .functors funcs => funcs
  | _ => []

/-- The thread of the loop is where its phase says. -/
structure Placed (owner : ι) (s : LoopThreads ι τ) : Prop where
  /-- The read of the eventfd is nobody's functor. -/
  pending : ∀ x ∈ s.loop.pendingFuncs, x.isHandleRead = false
  batch : ∀ x ∈ s.batch, x.isHandleRead = false
  calling : s.loop.callingPendingFuncs = s.loop.phase.isCalling
  inside : s.inside ≠ none → s.loop.phase.isCall = true
  reading : s.inside = some .handleRead → s.loop.phase.isEvents = true
  waking : s.waking owner = true → s.loop.phase.isCalling = true

theorem init_placed (owner : ι) : Placed owner (init : LoopThreads ι τ) :=
  ⟨nofun, nofun, rfl, fun h => absurd rfl h, nofun, nofun⟩

variable [DecidableEq ι] {owner : ι}

theorem queueInLoop_inv {who : ι} {f : τ} (h : s.step owner (.queueInLoop who f) = .ok s') :
    (who = owner → s.inUserCode = true) ∧ s' = { s with
      loop := s.loop.push (.func f)
      waking := Function.update s.waking who (s.loop.wantsWakeup (who = owner))
      queued := s.queued ++ [(.func f, s.batches)] } := by
  unfold step at h
  dsimp only at h
  split_ifs at h with hwho
  cases h
  exact ⟨hwho.2, rfl⟩

theorem wakeup_inv {who : ι} (h : s.step owner (.wakeup who) = .ok s') :
    s' = { s with loop := s.loop.wakeup, waking := Function.update s.waking who false } := by
  unfold step at h
  dsimp only at h
  split_ifs at h
  cases h
  rfl

theorem quit_inv {who : ι} (h : s.step owner (.quit who) = .ok s') :
    s' = { s with loop := { s.loop with quit := true } } := by
  unfold step at h
  dsimp only at h
  split_ifs at h
  cases h
  rfl

theorem next_inv (h : s.step owner .next = .ok s') :
    ∃ loop calls, s.inside = none ∧ s.waking owner = false ∧ s.loop.NextStep loop calls ∧
      s'.loop = loop ∧ s'.inside = calls.head? ∧ s'.waking = s.waking ∧ s'.queued = s.queued ∧
      s'.batches = (match s.loop.phase with
        | .swap => s.batches + 1
        | _ => s.batches) ∧
      s'.executed = match s.loop.phase with
        | .functors _ => s.executed ++ calls.map (·, s.batches)
        | _ => s.executed := by
  unfold step at h
  dsimp only at h
  split at h
  · rename_i loop calls hinside hnext
    split_ifs at h with hwaking
    cases h
    exact ⟨loop, calls, hinside, hwaking, EventLoop.next_step hnext, rfl, rfl, rfl, rfl, rfl, rfl⟩
  · cases h

theorem poll_inv {active : List (LoopCall τ)} (h : s.step owner (.poll active) = .ok s') :
    s.loop.phase = .wait ∧ s' = { s with loop := s.loop.poll active } := by
  unfold step at h
  dsimp only at h
  split at h
  · rename_i hphase
    split_ifs at h
    cases h
    exact ⟨hphase, rfl⟩
  · cases h

/-- What the return of a handler or functor does: nothing, or the read of the eventfd. -/
theorem ret_inv (h : s.step owner .ret = .ok s') :
    (s.waking owner = false ∧ s' = { s with inside := none }) ∨
      (s.inside = some .handleRead ∧ s' = { s with loop := { s.loop with wakeups := 0 }, inside := none }) := by
  unfold step at h
  dsimp only at h
  split at h
  · split_ifs at h with hwaking
    cases h
    exact .inl ⟨hwaking, rfl⟩
  · rename_i hinside
    split at h
    · rename_i loop hread
      unfold EventLoop.handleRead at hread
      split_ifs at hread
      cases hread
      cases h
      exact .inr ⟨hinside, rfl⟩
    · cases h
  · cases h

theorem step_placed (hinv : Placed owner s) (h : s.step owner label = .ok s') : Placed owner s' := by
  obtain ⟨hpending, hbatch, hcalling, hinside, hreading, hwaking⟩ := hinv
  cases label with
  | queueInLoop who f =>
    obtain ⟨-, rfl⟩ := queueInLoop_inv h
    refine ⟨fun x hx => ?_, hbatch, hcalling, hinside, hreading, fun hw => ?_⟩
    · rcases List.mem_append.mp hx with hx | hx
      · exact hpending x hx
      · rw [List.mem_singleton.mp hx]
        rfl
    · dsimp only at hw
      by_cases heq : who = owner
      · subst heq
        rw [Function.update_self] at hw
        exact hcalling.symm.trans (by simpa [EventLoop.wantsWakeup] using hw)
      · rw [Function.update_of_ne (Ne.symm heq)] at hw
        exact hwaking hw
  | wakeup who =>
    obtain rfl := wakeup_inv h
    refine ⟨hpending, hbatch, hcalling, hinside, hreading, fun hw => hwaking ?_⟩
    dsimp only at hw
    by_cases heq : who = owner
    · rw [heq, Function.update_self] at hw
      cases hw
    · rwa [Function.update_of_ne (Ne.symm heq)] at hw
  | quit who =>
    obtain rfl := quit_inv h
    exact ⟨hpending, hbatch, hcalling, hinside, hreading, hwaking⟩
  | poll active =>
    obtain ⟨hphase, rfl⟩ := poll_inv h
    rw [hphase] at hcalling hinside hreading hwaking
    exact ⟨hpending, nofun, hcalling, fun hne => absurd (hinside hne) nofun,
      fun hread => absurd (hreading hread) nofun, fun hw => absurd (hwaking hw) nofun⟩
  | ret =>
    rcases ret_inv h with ⟨-, rfl⟩ | ⟨-, rfl⟩
    all_goals exact ⟨hpending, hbatch, hcalling, fun hne => absurd rfl hne, nofun, hwaking⟩
  | next =>
    obtain ⟨loop, calls, hidle, hfree, hnext, hloop, hcall, hsame, -⟩ := next_inv h
    obtain ⟨loop', inside', waking', batches', queued', executed'⟩ := s'
    dsimp only at hloop hcall hsame
    subst hloop hcall hsame
    -- the thread of the loop is not on the way to `wakeup()`
    have hawake : ∀ {p : Prop}, s.waking owner = true → p := by
      intro p hw
      rw [hfree] at hw
      cases hw
    unfold batch at hbatch
    cases hnext with
    | enter phase =>
      rw [phase] at hcalling
      exact ⟨hpending, nofun, hcalling, nofun, nofun, hawake⟩
    | stop phase quit =>
      rw [phase] at hcalling
      exact ⟨hpending, nofun, hcalling, nofun, nofun, hawake⟩
    | sleep phase quit =>
      rw [phase] at hcalling
      exact ⟨hpending, nofun, hcalling, nofun, nofun, hawake⟩
    | handle phase =>
      rw [phase] at hcalling
      exact ⟨hpending, nofun, hcalling, fun _ => rfl, fun _ => rfl, hawake⟩
    | idle phase empty =>
      rw [phase] at hcalling
      exact ⟨hpending, nofun, hcalling, nofun, nofun, hawake⟩
    | begin phase => exact ⟨hpending, nofun, rfl, nofun, nofun, hawake⟩
    | swap phase =>
      rw [phase] at hcalling
      exact ⟨nofun, hpending, hcalling, nofun, nofun, hawake⟩
    | functor phase =>
      rw [phase] at hcalling hbatch
      refine ⟨hpending, fun x hx => hbatch x (List.mem_cons_of_mem _ hx), hcalling, fun _ => rfl, fun hread => ?_,
        hawake⟩
      -- a functor is no read of the eventfd
      have hfunc := hbatch _ List.mem_cons_self
      dsimp only [List.head?_cons] at hread
      rw [Option.some.inj hread] at hfunc
      cases hfunc
    | done phase => exact ⟨hpending, nofun, rfl, nofun, nofun, hawake⟩

end LoopThreads

end VServer
