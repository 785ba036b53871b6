import VServer.Lib.Machine
import VServer.Net.Timer

/-!
# Timers in their loop

A `TimerManager` with what runs around it: the clock, the threads that add and cancel timers (the
loop's own thread at once, the others through the queue of the loop), the timerfd, and the handler
of the loop, which takes the expired timers and then runs their callbacks one by one. Between the
expiration, the return of `epoll_wait`, the handler and each callback anything else may happen.

A callback may run early. `resetTimerfd` multiplies the milliseconds that are left after the whole
seconds by 1000, which makes them microseconds, and stores them as nanoseconds; so the timerfd can
expire before its timer does (`le_itValue_iff`). `fillExpired` then finds nothing due and takes the
first timer nevertheless. `not_early_of_due` is what remains: callbacks run on time in every run
whose handler always finds its first timer due.
-/

namespace VServer

/-- A call that `runInLoop` brings to the loop. -/
inductive TimerCall (κ : Type) where
  | addTimerInloop (timer : Timer κ)
  | cancelInloop (id : UInt64)

structure TimerLoop (κ : Type) where
  /-- in nanoseconds -/
  clock : Nat
  /-- `Timer::count` -/
  count : UInt64
  manager : TimerManager κ
  /-- The calls of other threads, in the order of the loop's queue. -/
  queue : List (TimerCall κ)
  /-- `epoll_wait` reported the timerfd, and its handler has not run yet. -/
  polled : Bool
  /-- What is left of `m_expired_timers`. -/
  batch : List (Timer κ)
  /-- The callbacks that ran, and when. -/
  fired : List (Timer κ × Nat)

namespace TimerLoop

variable {κ : Type}

inductive Label (κ : Type) where
  | tick (duration : Nat)
  | addTimer (inLoopThread : Bool) (cb : κ) (expire interval : Nat)
  | runAfter (inLoopThread : Bool) (cb : κ) (delay : Nat)
  | cancel (inLoopThread : Bool) (id : UInt64)
  /-- The loop runs the next call of its queue. -/
  | functor
  | expire
  | poll
  | handleRead
  /-- The next callback of the batch. -/
  | run

def init (clock : Nat) (count : UInt64) : TimerLoop κ := ⟨clock, count, .init, [], false, [], []⟩

variable (s : TimerLoop κ)

def now : Nat := getCurrentTimeMS s.clock

def call : TimerCall κ → Except Fault (TimerLoop κ)
  | .addTimerInloop timer => .ok { s with manager := s.manager.addTimerInloop s.clock timer }
  | .cancelInloop id => do
    let manager ← s.manager.cancelInloop s.clock id
    return { s with manager := manager }

def runInLoop (inLoopThread : Bool) (c : TimerCall κ) : Except Fault (TimerLoop κ) :=
  if inLoopThread then s.call c else .ok { s with queue := s.queue ++ [c] }

/-- `addTimer(cb, expire, interval)` makes the timer, which takes the next id. -/
def addTimer (inLoopThread : Bool) (cb : κ) (expire interval : Nat) : Except Fault (TimerLoop κ) :=
  let timer : Timer κ := ⟨cb, expire, interval, s.count + 1⟩
  { s with count := s.count + 1 }.runInLoop inLoopThread (.addTimerInloop timer)

def handleRead : Except Fault (TimerLoop κ) := do
  let (manager, expired) ← s.manager.handleRead s.clock (s.count + 1)
  return { s with count := s.count + 1, manager := manager, polled := false, batch := expired }

def halt (r : Except Fault (TimerLoop κ)) : Except Halt (TimerLoop κ) := r.mapError .fault

def step : Label κ → Except Halt (TimerLoop κ)
  | .tick duration => .ok { s with clock := s.clock + duration }
  | .addTimer inLoopThread cb expire interval => halt (s.addTimer inLoopThread cb expire interval)
  | .runAfter inLoopThread cb delay => halt (s.addTimer inLoopThread cb (timeAdd s.now delay) 0)
  | .cancel inLoopThread id => halt (s.runInLoop inLoopThread (.cancelInloop id))
  | .functor =>
    match s.queue with
    | c :: queue =>
      if s.polled = false ∧ s.batch.isEmpty then halt ({ s with queue := queue }.call c)
      else .error .disabled
    | [] => .error .disabled
  | .expire =>
    match s.manager.timerfd.deadline with
    | some deadline =>
      if deadline ≤ s.clock then
        .ok { s with manager := { s.manager with timerfd := ⟨none, true⟩ } }
      else .error .disabled
    | none => .error .disabled
  | .poll =>
    if s.manager.timerfd.ready = true ∧ s.batch.isEmpty then .ok { s with polled := true }
    else .error .disabled
  | .handleRead =>
    if s.polled = true ∧ s.batch.isEmpty then halt s.handleRead else .error .disabled
  | .run =>
    match s.batch with
    | t :: batch => .ok { s with batch := batch, fired := s.fired ++ [(t, s.now)] }
    | [] => .error .disabled

/-! ## The arming arithmetic -/

/-- The timerfd is armed with at least the interval when that is a whole number of seconds or past,
and only then. -/
theorem le_itValue_iff (interval : Int) :
    interval * 10 ^ 6 ≤ itValue interval ↔ interval ≤ 0 ∨ 100 ≤ interval ∧ interval % 1000 = 0 := by
  unfold itValue
  by_cases hshort : interval < 100
  · have hvalue : (100 : Int) / 1000 = 0 ∧ (100 : Int) % 1000 * 1000 = 100000 := by decide
    rw [if_pos hshort]
    dsimp only
    rw [hvalue.1, hvalue.2]
    omega
  · rw [if_neg hshort]
    dsimp only
    omega

/-! ## Nothing runs before its time -/

/-- The first timer is there and due: what the comment in `fillExpired` expects of its callers. -/
def due (s : TimerLoop κ) : Bool := s.manager.timers.head?.any fun t => t.expire ≤ s.now

/-- The handler is entered with a timer that is due. -/
def OnTime (s : TimerLoop κ) : Label κ → Prop
  | .handleRead => s.due = true
  | _ => True

instance (s : TimerLoop κ) (l : Label κ) : Decidable (s.OnTime l) :=
  match l with
  | .handleRead => inferInstanceAs (Decidable (s.due = true))
  | .tick _ | .addTimer _ _ _ _ | .runAfter _ _ _ | .cancel _ _ | .functor | .expire | .poll | .run =>
    isTrue trivial

theorem fillExpired_due {tm tm' : TimerManager κ} {clock now : Nat} {fresh : UInt64}
    {expired : List (Timer κ)} (h : tm.fillExpired clock now fresh = .ok (tm', expired))
    (hhead : ∀ t, tm.timers.head? = some t → t.expire ≤ now) : ∀ t ∈ expired, t.expire ≤ now := by
  unfold TimerManager.fillExpired at h
  dsimp only at h
  split at h
  · -- nothing due: the first timer was taken
    split at h
    · cases h
    · rename_i t ts htimers
      cases h
      intro t' ht'
      rw [List.mem_singleton] at ht'
      rw [ht']
      exact hhead t (by rw [htimers]; rfl)
  · cases h
    intro t ht
    have hdue := List.all_eq_true.mp List.all_takeWhile t ht
    simp only [Bool.not_eq_true', decide_eq_false_iff_not, not_or, not_lt] at hdue
    exact hdue.1

/-- What is being run, and what has run, was due. -/
structure Timely (s : TimerLoop κ) : Prop where
  batch : ∀ t ∈ s.batch, t.expire ≤ s.now
  fired : ∀ e ∈ s.fired, e.1.expire ≤ e.2

theorem Timely.of_eq {s s' : TimerLoop κ} (h : s.Timely) (hbatch : s'.batch = s.batch)
    (hfired : s'.fired = s.fired) (hclock : s.clock ≤ s'.clock) : s'.Timely := by
  refine ⟨fun t ht => ?_, fun e he => ?_⟩
  · rw [hbatch] at ht
    exact le_trans (h.batch t ht) (Nat.div_le_div_right hclock)
  · rw [hfired] at he
    exact h.fired e he

theorem call_frame {s s' : TimerLoop κ} {c : TimerCall κ} (h : s.call c = .ok s') :
    s'.batch = s.batch ∧ s'.fired = s.fired ∧ s'.clock = s.clock := by
  cases c with
  | addTimerInloop timer =>
    cases h
    exact ⟨rfl, rfl, rfl⟩
  | cancelInloop id =>
    obtain ⟨manager, -, hreturn⟩ := bind_eq_ok h
    cases hreturn
    exact ⟨rfl, rfl, rfl⟩

theorem runInLoop_frame {s s' : TimerLoop κ} {inLoopThread : Bool} {c : TimerCall κ}
    (h : s.runInLoop inLoopThread c = .ok s') :
    s'.batch = s.batch ∧ s'.fired = s.fired ∧ s'.clock = s.clock := by
  unfold runInLoop at h
  split_ifs at h
  · exact call_frame h
  · cases h
    exact ⟨rfl, rfl, rfl⟩

theorem addTimer_frame {s s' : TimerLoop κ} {inLoopThread : Bool} {cb : κ} {expire interval : Nat}
    (h : s.addTimer inLoopThread cb expire interval = .ok s') :
    s'.batch = s.batch ∧ s'.fired = s.fired ∧ s'.clock = s.clock :=
  runInLoop_frame (s := { s with count := s.count + 1 }) h

theorem halt_eq_ok {r : Except Fault (TimerLoop κ)} {s : TimerLoop κ} (h : halt r = .ok s) :
    r = .ok s := by
  cases r with
  | error e => cases h
  | ok s' =>
    cases h
    rfl

theorem step_timely {s s' : TimerLoop κ} {l : Label κ} (hs : s.Timely) (hdue : s.OnTime l)
    (h : s.step l = .ok s') : s'.Timely := by
  have frame : ∀ {t : TimerLoop κ}, t.batch = s.batch ∧ t.fired = s.fired ∧ t.clock = s.clock →
      t.Timely := fun ht => hs.of_eq ht.1 ht.2.1 (le_of_eq ht.2.2.symm)
  cases l with
  | tick duration =>
    cases h
    exact hs.of_eq rfl rfl (Nat.le_add_right _ _)
  | addTimer inLoopThread cb expire interval => exact frame (addTimer_frame (halt_eq_ok h))
  | runAfter inLoopThread cb delay => exact frame (addTimer_frame (halt_eq_ok h))
  | cancel inLoopThread id => exact frame (runInLoop_frame (halt_eq_ok h))
  | functor =>
    simp only [step] at h
    split at h
    · split_ifs at h
      obtain ⟨hbatch, hfired, hclock⟩ := call_frame (halt_eq_ok h)
      exact frame ⟨hbatch, hfired, hclock⟩
    · cases h
  | expire =>
    simp only [step] at h
    split at h
    · split_ifs at h
      cases h
      exact frame ⟨rfl, rfl, rfl⟩
    · cases h
  | poll =>
    simp only [step] at h
    split_ifs at h
    cases h
    exact frame ⟨rfl, rfl, rfl⟩
  | handleRead =>
    simp only [step] at h
    split_ifs at h
    obtain ⟨⟨manager, expired⟩, hread, hreturn⟩ := bind_eq_ok (halt_eq_ok h)
    cases hreturn
    refine ⟨fillExpired_due hread fun t ht => ?_, hs.fired⟩
    have hdue : s.manager.timers.head?.any (fun t => t.expire ≤ s.now) = true := hdue
    have ht : s.manager.timers.head? = some t := ht
    rw [ht] at hdue
    exact of_decide_eq_true hdue
  | run =>
    simp only [step] at h
    split at h
    · rename_i t batch hbatch
      cases h
      refine ⟨fun t' ht' => hs.batch t' (by rw [hbatch]; exact List.mem_cons_of_mem t ht'), ?_⟩
      intro e he
      rcases List.mem_append.mp he with he | he
      · exact hs.fired e he
      · rw [List.mem_singleton.mp he]
        exact hs.batch t (by rw [hbatch]; exact List.mem_cons_self)
    · cases h

/-- **Callbacks run on time** in every run whose handler finds its first timer due whenever it is
entered. -/
theorem not_early_of_due (clock : Nat) (count : UInt64) (labels : List (Label κ)) (s : TimerLoop κ)
    (hdue : Machine.Along step OnTime (init clock count) labels)
    (hrun : Machine.run step (init clock count) labels = .ok s) :
    ∀ e ∈ s.fired, e.1.expire ≤ e.2 :=
  (Machine.run_inv (I := Timely) (fun _ _ _ => step_timely)
    ⟨fun _ ht => absurd ht List.not_mem_nil, fun _ he => absurd he List.not_mem_nil⟩ hdue hrun).fired

/-- A timer of two seconds: the timerfd is armed with two seconds. -/
def onTimeRun : List (Label Unit) :=
  [.runAfter true () 2000, .tick 2000000000, .expire, .poll, .handleRead, .run]

theorem not_early_of_due_twoSeconds :
    ∃ s, Machine.run step (init 0 0) onTimeRun = .ok s ∧ s.fired.length = 1 ∧
      ∀ e ∈ s.fired, e.1.expire ≤ e.2 := by
  obtain ⟨s, hs, hfired⟩ := eq_ok_of_toOption (b := 1) (f := fun s : TimerLoop Unit => s.fired.length)
    (x := Machine.run step (init 0 0) onTimeRun) (by decide +kernel)
  exact ⟨s, hs, hfired, not_early_of_due 0 0 onTimeRun s
    (Machine.along_of_check (by decide +kernel)) hs⟩

/-- A timer of one and a half seconds: the timerfd is armed with 1.0005 seconds. -/
def earlyRun : List (Label Unit) :=
  [.runAfter true () 1500, .tick 1000500000, .expire, .poll, .handleRead, .run]

/-- The callback runs half a second before its time. -/
theorem earlyRun_early :
    ¬ ∀ (clock : Nat) (count : UInt64) (labels : List (Label Unit)) (s : TimerLoop Unit),
      Machine.run step (init clock count) labels = .ok s → ∀ e ∈ s.fired, e.1.expire ≤ e.2 := by
  intro h
  obtain ⟨s, hs, hfired⟩ := eq_ok_of_toOption (b := [(1500, 1000)])
    (f := fun s : TimerLoop Unit => s.fired.map fun e => (e.1.expire, e.2))
    (x := Machine.run step (init 0 0) earlyRun) (by decide +kernel)
  obtain ⟨e, he, heq⟩ := List.mem_map.mp (hfired ▸ List.mem_singleton_self (1500, 1000))
  have hlate := h 0 0 earlyRun s hs e he
  rw [Prod.mk.injEq] at heq
  omega

end TimerLoop

end VServer
