import VServer.Basic
import VServer.Lib.CondVar
import VServer.Lib.Machine

/-!
# The thread pool

`ThreadPool` (`Threadpool.h`, `Threadpool.cc`) behind `start()`, with any threads `ι`: those that are
`worker` run `run()`, and all of them, a worker inside of a task too, may call `addTask`. What a
thread does while it holds `m_mutex`, from the lock or from a wait to the next wait or to the unlock,
is one step. `maxWaits` is `m_max_waits`.
-/

namespace VServer

/-- Inside `pthread_cond_wait`: asleep, or awake and without the mutex, by a signal or without one. -/
inductive Wait where
  | asleep | signalled | spurious
  deriving DecidableEq, Repr

/-- Where a thread is. A `Task` is a `std::function`, and may be empty. -/
inductive Place (τ : Type) where
  /-- outside of the pool: the code of a producer, a task, `m_initCallback` -/
  | idle
  /-- at `while(m_running)` of `run` -/
  | head
  /-- in `getTask`, before the lock -/
  | getting
  /-- behind the loop of `run` -/
  | ended
  /-- in `addTask`, before the lock -/
  | adding (task : Option τ)
  /-- in the wait of `addTask` -/
  | notFull (wait : Wait) (task : Option τ)
  /-- in the wait of `getTask` -/
  | notEmpty (wait : Wait)
  deriving DecidableEq, Repr

namespace Place

variable {τ : Type}

/-- What the thread waits for on `m_cond_notfull`. -/
def notFullWait : Place τ → Option Wait
  | .notFull wait _ => some wait
  | _ => none

/-- What the thread waits for on `m_cond_notempty`. -/
def notEmptyWait : Place τ → Option Wait
  | .notEmpty wait => some wait
  | _ => none

def wakeNotFull : Place τ → Place τ
  | .notFull _ task => .notFull .signalled task
  | p => p

def wakeNotEmpty : Place τ → Place τ
  | .notEmpty _ => .notEmpty .signalled
  | p => p

end Place

structure ThreadPool (ι τ : Type) where
  running : Bool
  tasks : List (Option τ)
  threads : ι → Place τ
  /-- The tasks `addTask` has put into the queue. No code reads it. -/
  accepted : List (Option τ)
  /-- The tasks `getTask` has taken out of it. No code reads it. -/
  taken : List (Option τ)

namespace ThreadPool

variable {ι τ : Type}

/-- `m_cond_notfull` -/
def notFull : CondVar (Place τ) where
  asleep p := p.notFullWait = some .asleep
  signalled p := p.notFullWait = some .signalled
  wake := Place.wakeNotFull
  signalled_wake p hp := by cases p <;> simp_all [Place.notFullWait, Place.wakeNotFull]
  asleep_wake p := by cases p <;> simp [Place.notFullWait, Place.wakeNotFull]
  not_signalled p hp := by simp_all

/-- `m_cond_notempty` -/
def notEmpty : CondVar (Place τ) where
  asleep p := p.notEmptyWait = some .asleep
  signalled p := p.notEmptyWait = some .signalled
  wake := Place.wakeNotEmpty
  signalled_wake p hp := by cases p <;> simp_all [Place.notEmptyWait, Place.wakeNotEmpty]
  asleep_wake p := by cases p <;> simp [Place.notEmptyWait, Place.wakeNotEmpty]
  not_signalled p hp := by simp_all

inductive Label (ι τ : Type) where
  /-- A thread calls `addTask`. -/
  | call (who : ι) (task : Option τ)
  /-- It gets the mutex, first or out of the wait; a signal of its wakes `woken`. -/
  | addTask (who : ι) (woken : Finset ι)
  /-- A worker comes out of `m_initCallback` or of a task. -/
  | ret (who : ι)
  /-- `while(m_running)` -/
  | test (who : ι)
  /-- A worker gets the mutex in `getTask`. -/
  | getTask (who : ι) (woken : Finset ι)
  /-- A thread leaves its wait, and nobody has signalled. -/
  | spurious (who : ι)
  /-- The locked part of `stop()` -/
  | stop

/-- What the constructor leaves in `m_max_waits`. The initialiser is `m_max_waits(m_max_waits)`: the
field is read before it is written, so `memory`, which lay there, stays, and nobody reads the
parameter. -/
def constructMaxWaits (memory max_waits : Nat) : Nat := let _ := max_waits; memory

def init : ThreadPool ι τ where
  running := true
  tasks := []
  threads _ := .idle
  accepted := []
  taken := []

variable (maxWaits : Nat) (s : ThreadPool ι τ)

def isFull : Bool := maxWaits > 0 ∧ s.tasks.length ≥ maxWaits

variable [DecidableEq ι]

def move (who : ι) (p : Place τ) : ThreadPool ι τ :=
  { s with threads := Function.update s.threads who p }

variable [Fintype ι]

/-- `sigal()` -/
def signal (c : CondVar (Place τ)) (woken : Finset ι) : Except Halt (ThreadPool ι τ) :=
  if c.Legal woken s.threads then .ok { s with threads := c.signal woken s.threads }
  else .error .disabled

def addTask (who : ι) (task : Option τ) (woken : Finset ι) : Except Halt (ThreadPool ι τ) :=
  if s.isFull maxWaits && s.running then .ok (s.move who (.notFull .asleep task))
  else if s.running then do
    let s := { s with tasks := s.tasks ++ [task], accepted := s.accepted ++ [task] }
    let s ← s.signal notEmpty woken
    return s.move who .idle
  else .ok (s.move who .idle)

/-- `getTask`, with the mutex, and what `run` does with the task -/
def getTask (who : ι) (woken : Finset ι) : Except Halt (ThreadPool ι τ) :=
  match s.tasks with
  | [] =>
    if s.running then .ok (s.move who (.notEmpty .asleep))
    else .ok (s.move who .head)
  | task :: tasks => do
    let s := { s with tasks := tasks, taken := s.taken ++ [task] }
    let s ← if maxWaits > 0 then s.signal notFull woken else .ok s
    return s.move who (if task.isSome then .idle else .head)

variable (worker : ι → Bool)

def step (s : ThreadPool ι τ) : Label ι τ → Except Halt (ThreadPool ι τ)
  | .call who task =>
    match s.threads who with
    | .idle =>
      -- with no worker the task runs here and now
      if ∀ i, worker i = false then .ok s else .ok (s.move who (.adding task))
    | _ => .error .disabled
  | .addTask who woken =>
    match s.threads who with
    | .adding task | .notFull .signalled task | .notFull .spurious task =>
      s.addTask maxWaits who task woken
    | _ => .error .disabled
  | .ret who =>
    match worker who, s.threads who with
    | true, .idle => .ok (s.move who .head)
    | _, _ => .error .disabled
  | .test who =>
    match s.threads who with
    | .head => .ok (s.move who (if s.running then .getting else .ended))
    | _ => .error .disabled
  | .getTask who woken =>
    match s.threads who with
    | .getting | .notEmpty .signalled | .notEmpty .spurious => s.getTask maxWaits who woken
    | _ => .error .disabled
  | .spurious who =>
    match s.threads who with
    | .notFull .asleep task => .ok (s.move who (.notFull .spurious task))
    | .notEmpty .asleep => .ok (s.move who (.notEmpty .spurious))
    | _ => .error .disabled
  | .stop =>
    .ok { s with
      running := false
      threads := notFull.broadcast (notEmpty.broadcast s.threads) }

end ThreadPool

end VServer
