import VServer.Basic

/-!
# The event loop

`EventLoop` (`Eventloop.h`, `Eventloop.cc`), for any type `τ` of functors. `loop()` is a state
machine (`Phase`, `next`): the thread of the loop is between two handlers or functors, and `next`
says which one it calls next or how its phase changes. What a handler or functor does is up to the
thread (`Net.System`). `m_activeChannels` is the list of the calls of `handleEvent` to come.
-/

namespace VServer

/-- Where the thread of the loop is in `loop()` when it is not inside a handler or a functor. -/
inductive Phase (τ : Type) where
  /-- before `loop()` -/
  | ready
  /-- at `while(!m_quit)` -/
  | test
  /-- at or in `epoll_wait` -/
  | wait
  /-- in the `for` over the active channels, with these still to come -/
  | events (active : List τ)
  /-- in `doPendingFunctors`, before the swap -/
  | swap
  /-- in `doPendingFunctors`, in the `for` over `funcs`, with these still to come -/
  | functors (funcs : List τ)
  /-- behind `loop()` -/
  | ended
  deriving DecidableEq, Repr

structure EventLoop (τ : Type) where
  phase : Phase τ
  quit : Bool
  pendingFuncs : List τ
  callingPendingFuncs : Bool
  /-- The counter of the eventfd `m_wakeupfd`. -/
  wakeups : Nat

namespace EventLoop

variable {τ : Type}

def init : EventLoop τ := ⟨.ready, false, [], false, 0⟩

variable (loop : EventLoop τ)

/-- The step of `loop()` between two calls: what is called next, if anything. -/
def next : Option (EventLoop τ × List τ) :=
  match loop.phase with
  | .ready => some ({ loop with phase := .test, quit := false }, [])
  | .test => some ({ loop with phase := if loop.quit then .ended else .wait }, [])
  | .wait => none
  | .events (call :: active) => some ({ loop with phase := .events active }, [call])
  | .events [] =>
    if loop.pendingFuncs.isEmpty then some ({ loop with phase := .test }, [])
    else some ({ loop with phase := .swap, callingPendingFuncs := true }, [])
  | .swap => some ({ loop with phase := .functors loop.pendingFuncs, pendingFuncs := [] }, [])
  | .functors (f :: funcs) => some ({ loop with phase := .functors funcs }, [f])
  | .functors [] => some ({ loop with phase := .test, callingPendingFuncs := false }, [])
  | .ended => none

/-- `epoll_wait` returns with these channels. -/
def poll (active : List τ) : EventLoop τ := { loop with phase := .events active }

/-- The `push_back` of `queueInLoop`. -/
def push (f : τ) : EventLoop τ := { loop with pendingFuncs := loop.pendingFuncs ++ [f] }

/-- Whether `queueInLoop` goes on to `wakeup()`. -/
def wantsWakeup (inLoopThread : Bool) : Bool := !inLoopThread || loop.callingPendingFuncs

def wakeup : EventLoop τ := { loop with wakeups := loop.wakeups + 1 }

def handleRead : Except Fault (EventLoop τ) :=
  if loop.wakeups = 0 then .error (.assertion .wakeupRead) else .ok { loop with wakeups := 0 }

/-- The thread of the loop is not in `loop()`. -/
def isOutside : Bool :=
  match loop.phase with
  | .ready | .ended => true
  | _ => false

/-- What the thread of the loop has still to call, in order. -/
def backlog : List τ :=
  match loop.phase with
  | .events active => active ++ loop.pendingFuncs
  | .functors funcs => funcs ++ loop.pendingFuncs
  | _ => loop.pendingFuncs

variable {loop}

theorem handleRead_eq_ok {l : EventLoop τ} (h : loop.handleRead = .ok l) :
    loop.wakeups ≠ 0 ∧ l = { loop with wakeups := 0 } := by
  unfold handleRead at h
  split_ifs at h with hzero
  cases h
  exact ⟨hzero, rfl⟩

theorem next_backlog {l : EventLoop τ} {calls : List τ} (h : loop.next = some (l, calls)) :
    calls ++ l.backlog = loop.backlog := by
  unfold next at h
  split at h
  all_goals rename_i hphase
  · cases h
    simp [backlog, hphase]
  · cases h
    rw [backlog, backlog, hphase]
    dsimp only
    split_ifs
    all_goals rfl
  · cases h
  · cases h
    simp [backlog, hphase]
  · split_ifs at h
    all_goals
      cases h
      simp [backlog, hphase]
  · cases h
    simp [backlog, hphase]
  · cases h
    simp [backlog, hphase]
  · cases h
    simp [backlog, hphase]
  · cases h

/-- `loop()` makes a call from one of its lists, or it changes its phase; then it begins with the
queue, if it begins with any functors. -/
theorem next_cases {l : EventLoop τ} {calls : List τ} (h : loop.next = some (l, calls)) :
    (∃ call active, loop.phase = .events (call :: active) ∧ l = { loop with phase := .events active } ∧
      calls = [call]) ∨
    (∃ f funcs, loop.phase = .functors (f :: funcs) ∧ l = { loop with phase := .functors funcs } ∧
      calls = [f]) ∨
    (calls = [] ∧ (∀ active, l.phase ≠ .events active) ∧
      (∀ funcs, l.phase = .functors funcs → funcs = loop.pendingFuncs) ∧
      ∀ f ∈ l.pendingFuncs, f ∈ loop.pendingFuncs) := by
  unfold next at h
  split at h
  all_goals rename_i hphase
  · cases h
    exact .inr (.inr ⟨rfl, nofun, nofun, fun _ hf => hf⟩)
  · cases h
    refine .inr (.inr ⟨rfl, fun active => ?_, fun funcs => ?_, fun _ hf => hf⟩)
    all_goals
      dsimp only
      split_ifs
      all_goals nofun
  · cases h
  · cases h
    exact .inl ⟨_, _, hphase, rfl, rfl⟩
  · split_ifs at h
    all_goals
      cases h
      exact .inr (.inr ⟨rfl, nofun, nofun, fun _ hf => hf⟩)
  · cases h
    refine .inr (.inr ⟨rfl, nofun, fun funcs hfuncs => ?_, nofun⟩)
    cases hfuncs
    rfl
  · cases h
    exact .inr (.inl ⟨_, _, hphase, rfl, rfl⟩)
  · cases h
    exact .inr (.inr ⟨rfl, nofun, nofun, fun _ hf => hf⟩)
  · cases h

@[simp] theorem push_backlog (f : τ) : (loop.push f).backlog = loop.backlog ++ [f] := by
  rw [backlog, backlog, push]
  dsimp only
  split
  all_goals simp

theorem poll_backlog (hphase : loop.phase = .wait) (active : List τ) :
    (loop.poll active).backlog = active ++ loop.backlog := by
  simp [backlog, poll, hphase]

@[simp] theorem wakeup_backlog : loop.wakeup.backlog = loop.backlog := rfl

end EventLoop

end VServer
