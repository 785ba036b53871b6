import VServer.Sync.Latch

/-!
# A thread and its object

`Thread` and `ThreadData` (`Thread.h`, `Thread.cc`). The thread that was created works on the object of
its owner: through pointers it stores its id there and counts the latch down that `start()` waits for.
The object may be destroyed while the thread runs. The latch is what keeps the two apart: `start()`
does not return before the thread has used both pointers for the last time (`thread_safe`).
-/

namespace VServer

/-- The threads at `m_lacth`. -/
inductive ThreadSide where
  | owner | child
  deriving DecidableEq, Repr

instance : Fintype ThreadSide := ⟨{.owner, .child}, fun side => by cases side <;> decide⟩

/-- Where the thread is that was created. -/
inductive ChildPhase where
  /-- it was not -/
  | none
  /-- at `*m_tid = GetThreadId()` -/
  | created
  /-- at `m_latch->countDown()` -/
  | published
  /-- in `m_func()` -/
  | running
  /-- behind it -/
  | finished
  deriving DecidableEq, Repr

/-- What the system knows of `m_pthreadId`. -/
inductive Pthread where
  | none | joinable | joined | detached
  deriving DecidableEq, Repr

/-- What goes wrong with a `Thread`: the first three are its `assert`s. -/
inductive ThreadFault where
  /-- `start`: `!m_started` -/
  | startStarted
  /-- `join`: `m_started` -/
  | joinStarted
  /-- `join`: `!m_joined` -/
  | joinJoined
  /-- The thread uses an object that is gone. -/
  | dangling
  /-- `pthread_detach` on a thread that is not joinable. -/
  | detach
  deriving DecidableEq, Repr

structure Thread where
  /-- The object has not been destroyed. -/
  alive : Bool
  tid : Nat
  started : Bool
  joined : Bool
  latch : CountDownLatch ThreadSide
  /-- The owner is in `start()`, behind `pthread_create`. -/
  starting : Bool
  child : ChildPhase
  pthread : Pthread

namespace Thread

inductive Halt where
  | disabled
  | fault (f : ThreadFault)
  deriving DecidableEq, Repr

inductive Label where
  /-- `start()` up to the latch; `created` says that `pthread_create` returned 0. -/
  | start (created : Bool)
  /-- The owner in `m_lacth.wait()`: it gets the mutex, first or again. -/
  | wait
  | resume
  /-- It leaves the condition wait with no signal. -/
  | spurious
  | storeTid (tid : Nat)
  | countDown
  /-- `m_func` returns. -/
  | finish
  /-- `join()`; `done` says that `pthread_join` returned 0. -/
  | join (done : Bool)
  /-- `~Thread()` -/
  | destroy
  deriving DecidableEq, Repr

/-- `Thread(func, name)` -/
def init : Thread where
  alive := true
  tid := 0
  started := false
  joined := false
  latch := .init 1
  starting := false
  child := .none
  pthread := .none

def atLatch (s : Thread) (label : CountDownLatch.Label ThreadSide) :
    Except Halt (CountDownLatch ThreadSide) :=
  match s.latch.step label with
  | .ok latch => .ok latch
  | .error _ => .error .disabled

/-- The owner has the mutex; it returns when it does not go to sleep. -/
def waitStep (s : Thread) (label : CountDownLatch.Label ThreadSide) : Except Halt Thread :=
  if s.starting then do
    let latch ← s.atLatch label
    return { s with latch := latch, starting := latch.threads .owner ≠ .outside }
  else .error .disabled

def step (s : Thread) : Label → Except Halt Thread
  | .start created =>
    if s.alive ∧ ¬s.starting then
      if s.started then .error (.fault .startStarted)
      else if created then
        .ok { s with started := true, starting := true, child := .created, pthread := .joinable }
      else .ok s
    else .error .disabled
  | .wait => s.waitStep (.wait .owner)
  | .resume => s.waitStep (.resume .owner)
  | .spurious => s.waitStep (.spurious .owner)
  | .storeTid tid =>
    match s.child with
    | .created =>
      -- no thread has the id 0
      if tid = 0 then .error .disabled
      else if s.alive then .ok { s with tid := tid, child := .published }
      else .error (.fault .dangling)
    | _ => .error .disabled
  | .countDown =>
    match s.child with
    | .published =>
      if s.alive then do
        let latch ← s.atLatch (.countDown .child)
        return { s with latch := latch, child := .running }
      else .error (.fault .dangling)
    | _ => .error .disabled
  | .finish =>
    match s.child with
    | .running => .ok { s with child := .finished }
    | _ => .error .disabled
  | .join done =>
    if s.alive ∧ ¬s.starting then
      if s.started then
        if s.joined then .error (.fault .joinJoined)
        else if done then
          -- `pthread_join` waits for the end of the thread
          match s.child, s.pthread with
          | .finished, .joinable => .ok { s with joined := true, pthread := .joined }
          | _, _ => .error .disabled
        else .ok s
      else .error (.fault .joinStarted)
    else .error .disabled
  | .destroy =>
    if s.alive ∧ ¬s.starting then
      if s.started ∧ ¬s.joined then
        if s.pthread = .joinable then .ok { s with alive := false, pthread := .detached }
        else .error (.fault .detach)
      else .ok { s with alive := false }
    else .error .disabled

/-! ## What a step does -/

/-- The steps at the latch, and the rest. -/
inductive Step (s : Thread) : Label → Thread → Prop
  | startFailed (idle : s.starting = false) : Step s (.start false) s
  | start (alive : s.alive = true) (idle : s.starting = false) (fresh : s.started = false) :
    Step s (.start true)
      { s with started := true, starting := true, child := .created, pthread := .joinable }
  | wait {label : Label} {at_ : CountDownLatch.Label ThreadSide} {latch : CountDownLatch ThreadSide}
      (at_eq : at_ = .wait .owner ∨ at_ = .resume .owner ∨ at_ = .spurious .owner)
      (starting : s.starting = true) (latched : s.latch.step at_ = .ok latch) :
    Step s label { s with latch := latch, starting := latch.threads .owner ≠ .outside }
  | storeTid {tid : Nat} (child : s.child = .created) (pos : tid ≠ 0) (alive : s.alive = true) :
    Step s (.storeTid tid) { s with tid := tid, child := .published }
  | countDown {latch : CountDownLatch ThreadSide} (child : s.child = .published)
      (alive : s.alive = true) (latched : s.latch.step (.countDown .child) = .ok latch) :
    Step s .countDown { s with latch := latch, child := .running }
  | finish (child : s.child = .running) : Step s .finish { s with child := .finished }
  | joinFailed : Step s (.join false) s
  | join (alive : s.alive = true) (idle : s.starting = false) (child : s.child = .finished)
      (joinable : s.pthread = .joinable) :
    Step s (.join true) { s with joined := true, pthread := .joined }
  | detach (idle : s.starting = false) (joinable : s.pthread = .joinable) :
    Step s .destroy { s with alive := false, pthread := .detached }
  | destroy (idle : s.starting = false) (done : s.started = false ∨ s.joined = true) :
    Step s .destroy { s with alive := false }

variable {s s' : Thread} {label : Label}

theorem atLatch_eq_ok {at_ : CountDownLatch.Label ThreadSide} {latch : CountDownLatch ThreadSide}
    (h : s.atLatch at_ = .ok latch) : s.latch.step at_ = .ok latch := by
  unfold atLatch at h
  split at h
  · cases h
    assumption
  · cases h

theorem waitStep_inv {at_ : CountDownLatch.Label ThreadSide} (h : s.waitStep at_ = .ok s')
    (hat : at_ = .wait .owner ∨ at_ = .resume .owner ∨ at_ = .spurious .owner) : Step s label s' := by
  unfold waitStep at h
  split_ifs at h with hstarting
  obtain ⟨latch, hlatch, hs'⟩ := bind_eq_ok h
  cases hs'
  exact .wait hat hstarting (atLatch_eq_ok hlatch)

theorem step_inv (h : step s label = .ok s') : Step s label s' := by
  cases label with
  | start created =>
    rw [step] at h
    split_ifs at h with hidle hstarted hcreated
    · cases h
      subst hcreated
      exact .start hidle.1 (Bool.not_eq_true _ ▸ hidle.2) (Bool.not_eq_true _ ▸ hstarted)
    · cases h
      rw [Bool.not_eq_true] at hcreated
      subst hcreated
      exact .startFailed (Bool.not_eq_true _ ▸ hidle.2)
  | wait => exact waitStep_inv h (.inl rfl)
  | resume => exact waitStep_inv h (.inr (.inl rfl))
  | spurious => exact waitStep_inv h (.inr (.inr rfl))
  | storeTid tid =>
    rw [step] at h
    split at h
    · rename_i hchild
      split_ifs at h with hzero halive
      cases h
      exact .storeTid hchild hzero halive
    · cases h
  | countDown =>
    rw [step] at h
    split at h
    · rename_i hchild
      split_ifs at h with halive
      obtain ⟨latch, hlatch, hs'⟩ := bind_eq_ok h
      cases hs'
      exact .countDown hchild halive (atLatch_eq_ok hlatch)
    · cases h
  | finish =>
    rw [step] at h
    split at h
    · rename_i hchild
      cases h
      exact .finish hchild
    · cases h
  | join done =>
    rw [step] at h
    split_ifs at h with hidle hstarted hjoined hdone
    · split at h
      · rename_i hchild hjoinable
        cases h
        subst hdone
        exact .join hidle.1 (Bool.not_eq_true _ ▸ hidle.2) hchild hjoinable
      · cases h
    · cases h
      rw [Bool.not_eq_true] at hdone
      subst hdone
      exact .joinFailed
  | destroy =>
    rw [step] at h
    split_ifs at h with hidle hopen hjoinable
    · cases h
      exact .detach (Bool.not_eq_true _ ▸ hidle.2) hjoinable
    · cases h
      refine .destroy (Bool.not_eq_true _ ▸ hidle.2) ?_
      by_cases hstarted : s.started = true
      · exact .inr (by_contra fun hjoined => hopen ⟨hstarted, hjoined⟩)
      · exact .inl (Bool.not_eq_true _ ▸ hstarted)

/-! ## What keeps the two threads apart -/

/-- The thread is behind `m_latch->countDown()`. -/
def counted : ChildPhase → Bool
  | .running | .finished => true
  | _ => false

structure Inv (s : Thread) : Prop where
  alive : s.starting = true → s.alive = true
  started : s.starting = true → s.started = true
  /-- The thread has pointers into the object only while `start()` has not returned. -/
  pointers : s.started = true → counted s.child = false → s.starting = true
  child_none : s.child = .none ↔ s.started = false
  count : s.latch.count = if counted s.child then 0 else 1
  released : s.latch.Released
  childOutside : s.latch.threads .child = .outside
  ownerOutside : s.starting = false → s.latch.threads .owner = .outside
  tid : s.child ≠ .none → s.child ≠ .created → s.tid ≠ 0
  pthread : s.pthread = if s.started = false then .none else if s.joined then .joined
    else if s.alive then .joinable else .detached
  joined : s.joined = true → s.child = .finished

theorem init_inv : Inv init where
  alive := nofun
  started := nofun
  pointers := nofun
  child_none := iff_of_true rfl rfl
  count := rfl
  released := fun h => absurd h (by decide)
  childOutside := rfl
  ownerOutside _ := rfl
  tid h := absurd rfl h
  pthread := rfl
  joined := nofun

theorem owner_latch {latch latch' : CountDownLatch ThreadSide} {at_ : CountDownLatch.Label ThreadSide}
    (hat : at_ = .wait .owner ∨ at_ = .resume .owner ∨ at_ = .spurious .owner)
    (h : latch.step at_ = .ok latch') :
    latch'.count = latch.count ∧ latch'.threads .child = latch.threads .child ∧
      (latch'.threads .owner = .outside → latch.count ≤ 0) := by
  have hne : ThreadSide.child ≠ ThreadSide.owner := by decide
  cases CountDownLatch.step_inv h with
  | @test _ who label_eq =>
    have hwho : who = .owner := by
      rcases hat with rfl | rfl | rfl
      all_goals
        rcases label_eq with h | h
        all_goals
          cases h
          try rfl
    subst hwho
    exact ⟨rfl, latch.move_of_ne hne _, (CountDownLatch.test_outside _).mp⟩
  | @spurious who =>
    have hwho : who = .owner := by
      rcases hat with h | h | h
      all_goals
        cases h
        try rfl
    subst hwho
    refine ⟨rfl, latch.move_of_ne hne _, fun houtside => ?_⟩
    rw [latch.move_self] at houtside
    cases houtside
  | countDown => rcases hat with h | h | h <;> cases h
  | last => rcases hat with h | h | h <;> cases h

theorem child_latch {latch latch' : CountDownLatch ThreadSide} (hcount : latch.count = 1)
    (h : latch.step (.countDown .child) = .ok latch') :
    latch'.count = 0 ∧ (latch.threads .child = .outside → latch'.threads .child = .outside) := by
  cases CountDownLatch.step_inv h with
  | test label_eq => rcases label_eq with h | h <;> cases h
  | countDown outside pos => exact absurd hcount pos
  | last outside last =>
    refine ⟨rfl, fun hchild => ?_⟩
    show CountDownLatch.cond.broadcast latch.threads .child = .outside
    unfold CondVar.broadcast CondVar.signal
    rw [if_neg]
    · exact hchild
    · rw [CondVar.mem_threadsAt, hchild]
      decide

theorem Step.inv (h : Step s label s') (hs : s.Inv) : s'.Inv := by
  cases h with
  | startFailed => exact hs
  | joinFailed => exact hs
  | start alive idle fresh =>
    have hnone := hs.child_none.mpr fresh
    have hjoined : s.joined = false := by
      cases hj : s.joined with
      | false => rfl
      | true =>
        have hfinished := hs.joined hj
        rw [hnone] at hfinished
        cases hfinished
    exact {
      alive := fun _ => alive
      started := fun _ => rfl
      pointers := fun _ _ => rfl
      child_none := iff_of_false nofun nofun
      count := by
        rw [hs.count, hnone]
        rfl
      released := hs.released
      childOutside := hs.childOutside
      ownerOutside := nofun
      tid := fun _ hcreated => absurd rfl hcreated
      pthread := by simp [hjoined, alive]
      joined := fun hj => by
        rw [hjoined] at hj
        cases hj }
  | @wait _ at_ latch at_eq starting latched =>
    obtain ⟨hcount, hchild, houtside⟩ := owner_latch at_eq latched
    exact {
      alive := fun _ => hs.alive starting
      started := fun _ => hs.started starting
      pointers := fun _ huncounted => by
        -- the count is at one, so the owner goes to sleep
        rw [decide_eq_true_eq]
        intro hout
        have hzero := houtside hout
        rw [hs.count, huncounted] at hzero
        exact absurd hzero (by decide)
      child_none := hs.child_none
      count := hcount.trans hs.count
      released := (CountDownLatch.step_inv latched).released hs.released
      childOutside := hchild.trans hs.childOutside
      ownerOutside := fun hidle => by
        rw [decide_eq_false_iff_not, not_not] at hidle
        exact hidle
      tid := hs.tid
      pthread := hs.pthread
      joined := hs.joined }
  | storeTid child pos alive =>
    have hcount := hs.count
    rw [child] at hcount
    exact {
      alive := hs.alive
      started := hs.started
      pointers := fun hstarted _ => hs.pointers hstarted (by rw [child]; rfl)
      child_none := iff_of_false nofun fun hfresh => by
        have hnone := hs.child_none.mpr hfresh
        rw [child] at hnone
        cases hnone
      count := hcount
      released := hs.released
      childOutside := hs.childOutside
      ownerOutside := hs.ownerOutside
      tid := fun _ _ => pos
      pthread := hs.pthread
      joined := fun hj => by
        have hfinished := hs.joined hj
        rw [child] at hfinished
        cases hfinished }
  | countDown child alive latched =>
    have hcount := hs.count
    rw [child] at hcount
    obtain ⟨hzero, hchild⟩ := child_latch hcount latched
    have hstarted : s.started = true := by
      by_contra hfresh
      have hnone := hs.child_none.mpr (Bool.not_eq_true _ ▸ hfresh)
      rw [child] at hnone
      cases hnone
    have hstarting : s.starting = true := hs.pointers hstarted (by rw [child]; rfl)
    exact {
      alive := hs.alive
      started := hs.started
      pointers := fun _ => nofun
      child_none := iff_of_false nofun fun hfresh => by
        rw [hfresh] at hstarted
        cases hstarted
      count := hzero
      released := (CountDownLatch.step_inv latched).released hs.released
      childOutside := hchild hs.childOutside
      ownerOutside := fun hidle => by
        rw [hidle] at hstarting
        cases hstarting
      tid := fun _ _ => hs.tid (by rw [child]; nofun) (by rw [child]; nofun)
      pthread := hs.pthread
      joined := fun hj => by
        have hfinished := hs.joined hj
        rw [child] at hfinished
        cases hfinished }
  | finish child =>
    have hcount := hs.count
    rw [child] at hcount
    exact {
      alive := hs.alive
      started := hs.started
      pointers := fun _ => nofun
      child_none := iff_of_false nofun fun hfresh => by
        have hnone := hs.child_none.mpr hfresh
        rw [child] at hnone
        cases hnone
      count := hcount
      released := hs.released
      childOutside := hs.childOutside
      ownerOutside := hs.ownerOutside
      tid := fun _ _ => hs.tid (by rw [child]; nofun) (by rw [child]; nofun)
      pthread := hs.pthread
      joined := fun _ => rfl }
  | join alive idle child joinable =>
    have hstarted : s.started ≠ false := fun hfresh => by
      have hnone := hs.child_none.mpr hfresh
      rw [child] at hnone
      cases hnone
    exact { hs with
      pthread := by simp [hstarted]
      joined := fun _ => child }
  | detach idle joinable =>
    have hpthread := hs.pthread
    rw [joinable] at hpthread
    have hstate : s.started ≠ false ∧ s.joined = false := by
      split_ifs at hpthread with hfresh hjoined halive
      exact ⟨hfresh, Bool.not_eq_true _ ▸ hjoined⟩
    exact { hs with
      alive := fun hstarting => by
        rw [idle] at hstarting
        cases hstarting
      pthread := by simp [hstate] }
  | destroy idle done =>
    exact { hs with
      alive := fun hstarting => by
        rw [idle] at hstarting
        cases hstarting
      pthread := by
        rw [hs.pthread]
        rcases done with hfresh | hjoined
        · simp [hfresh]
        · simp [hjoined] }

/-! ## Every run -/

theorem waitStep_ne_fault {at_ : CountDownLatch.Label ThreadSide} {f : ThreadFault} :
    s.waitStep at_ ≠ .error (.fault f) := by
  intro h
  unfold waitStep atLatch at h
  split_ifs at h
  · split at h <;> cases h
  · cases h

/-- What can go wrong in a step. -/
theorem step_fault {f : ThreadFault} (h : step s label = .error (.fault f)) :
    (f = .startStarted ∨ f = .joinStarted ∨ f = .joinJoined) ∨
      (f = .dangling ∧ s.alive = false ∧ (s.child = .created ∨ s.child = .published)) ∨
      (f = .detach ∧ s.alive = true ∧ s.started = true ∧ s.joined = false ∧ s.pthread ≠ .joinable) := by
  cases label with
  | wait => exact absurd h waitStep_ne_fault
  | resume => exact absurd h waitStep_ne_fault
  | spurious => exact absurd h waitStep_ne_fault
  | start created =>
    rw [step] at h
    split_ifs at h
    · cases h
      exact .inl (.inl rfl)
    · cases h
  | storeTid tid =>
    rw [step] at h
    split at h
    · rename_i hchild
      split_ifs at h with hzero halive
      · cases h
      · cases h
        exact .inr (.inl ⟨rfl, Bool.not_eq_true _ ▸ halive, .inl hchild⟩)
    · cases h
  | countDown =>
    rw [step] at h
    split at h
    · rename_i hchild
      split_ifs at h with halive
      · unfold atLatch at h
        split at h <;> cases h
      · cases h
        exact .inr (.inl ⟨rfl, Bool.not_eq_true _ ▸ halive, .inr hchild⟩)
    · cases h
  | finish =>
    rw [step] at h
    split at h <;> cases h
  | join done =>
    rw [step] at h
    split_ifs at h
    · cases h
      exact .inl (.inr (.inr rfl))
    · split at h <;> cases h
    · cases h
      exact .inl (.inr (.inl rfl))
    · cases h
  | destroy =>
    rw [step] at h
    split_ifs at h with hidle hopen hjoinable
    · cases h
      exact .inr (.inr ⟨rfl, hidle.1, hopen.1, Bool.not_eq_true _ ▸ hopen.2, hjoinable⟩)
    · cases h

theorem Inv.step_ne_fault (hs : s.Inv) {f : ThreadFault} (hf : f = .dangling ∨ f = .detach) :
    step s label ≠ .error (.fault f) := by
  intro h
  rcases step_fault h with hassert | ⟨-, hgone, hchild⟩ | ⟨-, halive, hstarted, hopen, hjoinable⟩
  · rcases hf with rfl | rfl
    all_goals rcases hassert with h | h | h <;> cases h
  · have hstarted : s.started = true := by
      by_contra hfresh
      have hnone := hs.child_none.mpr (Bool.not_eq_true _ ▸ hfresh)
      rw [hnone] at hchild
      rcases hchild with h | h <;> cases h
    have huncounted : counted s.child = false := by
      rcases hchild with hchild | hchild <;> rw [hchild] <;> rfl
    have halive := hs.alive (hs.pointers hstarted huncounted)
    rw [hgone] at halive
    cases halive
  · refine hjoinable ?_
    rw [hs.pthread]
    simp [halive, hstarted, hopen]

theorem run_inv {labels : List Label} (h : Machine.run step init labels = .ok s) : s.Inv :=
  Machine.run_inv (fun _ _ _ hs _ hstep => (step_inv hstep).inv hs) init_inv
    (Machine.along_of_forall (fun _ _ => trivial) labels) h

theorem Inv.returns_of_counted (hs : s.Inv) (hstarting : s.starting = true)
    (hcounted : counted s.child = true) :
    ∃ label s', step s label = .ok s' ∧ s'.starting = false := by
  have hcount : s.latch.count = 0 := by rw [hs.count, if_pos hcounted]
  have houtside : (s.latch.test .owner).threads .owner = .outside :=
    (CountDownLatch.test_outside _).mpr hcount.le
  have hreturn : ∀ at_, s.latch.step at_ = .ok (s.latch.test .owner) →
      s.waitStep at_ = .ok { s with latch := s.latch.test .owner, starting := false } := by
    intro at_ hstep
    unfold waitStep atLatch
    rw [if_pos hstarting, hstep]
    show Except.ok { s with latch := _, starting := decide (_ ≠ _) } = _
    rw [houtside]
    rfl
  cases hplace : s.latch.threads .owner with
  | outside => exact ⟨.wait, _, hreturn _ (by rw [CountDownLatch.step, hplace]), rfl⟩
  | asleep => exact absurd hplace (hs.released hcount.le _)
  | signalled | spurious =>
    exact ⟨.resume, _, hreturn _ (by rw [CountDownLatch.step, hplace]), rfl⟩

theorem Inv.counts (hs : s.Inv) (hstarting : s.starting = true) (hchild : s.child = .published) :
    ∃ s', step s .countDown = .ok s' ∧ s'.starting = true ∧ counted s'.child = true := by
  have hcount : s.latch.count = 1 := by
    rw [hs.count, hchild]
    rfl
  have hlatch : s.latch.step (.countDown .child) =
      .ok ⟨0, CountDownLatch.cond.broadcast s.latch.threads⟩ := by
    rw [CountDownLatch.step, hs.childOutside]
    exact CountDownLatch.countDown_last hcount
  refine ⟨{ s with latch := ⟨0, CountDownLatch.cond.broadcast s.latch.threads⟩, child := .running },
    ?_, hstarting, rfl⟩
  rw [step, hchild]
  dsimp only
  rw [if_pos (hs.alive hstarting), atLatch, hlatch]
  rfl

theorem Inv.returns (hs : s.Inv) (hstarting : s.starting = true) :
    ∃ labels s', Machine.run step s labels = .ok s' ∧ s'.starting = false := by
  have hcounted : ∀ t : Thread, t.Inv → t.starting = true → counted t.child = true →
      ∃ labels t', Machine.run step t labels = .ok t' ∧ t'.starting = false := by
    intro t ht hstarting hchild
    obtain ⟨label, t', hstep, hidle⟩ := ht.returns_of_counted hstarting hchild
    exact ⟨[label], t', Machine.run_cons_ok hstep, hidle⟩
  have hpublished : ∀ t : Thread, t.Inv → t.starting = true → t.child = .published →
      ∃ labels t', Machine.run step t labels = .ok t' ∧ t'.starting = false := by
    intro t ht hstarting hchild
    obtain ⟨t₁, hstep, hstarting₁, hchild₁⟩ := ht.counts hstarting hchild
    obtain ⟨labels, t', hrun, hidle⟩ :=
      hcounted t₁ ((step_inv hstep).inv ht) hstarting₁ hchild₁
    exact ⟨.countDown :: labels, t', by rw [Machine.run_cons_ok hstep, hrun], hidle⟩
  cases hchild : s.child with
  | none =>
    have hfresh := hs.child_none.mp hchild
    exact absurd (hs.started hstarting) (by rw [hfresh]; nofun)
  | created =>
    have hstep : step s (.storeTid 1) = .ok { s with tid := 1, child := .published } := by
      rw [step, hchild]
      dsimp only
      rw [if_neg Nat.one_ne_zero, if_pos (hs.alive hstarting)]
    obtain ⟨labels, t', hrun, hidle⟩ := hpublished _ ((step_inv hstep).inv hs) hstarting rfl
    exact ⟨.storeTid 1 :: labels, t', by rw [Machine.run_cons_ok hstep, hrun], hidle⟩
  | published => exact hpublished s hs hstarting hchild
  | running | finished => exact hcounted s hs hstarting (by rw [hchild]; rfl)

/-- **The thread and its object**, in every run: however the two threads interleave, and even if the
object is destroyed while the thread runs, the thread never uses an object that is gone, and no thread
is detached that is not joinable. Once `start()` has returned, `tid()` is the id of the thread. When the
object is gone its thread, if there is one, was joined or detached. And `start()` is never stuck. -/
theorem thread_safe (labels : List Label) :
    (∀ f, f = .dangling ∨ f = .detach → Machine.run step init labels ≠ .error (.fault f)) ∧
      ∀ s, Machine.run step init labels = .ok s →
        (s.started = true → s.starting = false → s.tid ≠ 0) ∧
        (s.alive = false → s.started = true → s.pthread = if s.joined then .joined else .detached) ∧
        (s.starting = true → ∃ more s', Machine.run step s more = .ok s' ∧ s'.starting = false) := by
  refine ⟨fun f hf hrun => ?_, fun s hrun => ?_⟩
  · obtain ⟨before, label, after, t, -, hbefore, hfault⟩ := Machine.run_eq_error hrun
    exact (run_inv hbefore).step_ne_fault hf hfault
  · have hs := run_inv hrun
    refine ⟨fun hstarted hidle => ?_, fun hgone hstarted => ?_, hs.returns⟩
    · have hcounted : counted s.child = true := by
        by_contra huncounted
        have hstarting := hs.pointers hstarted (Bool.not_eq_true _ ▸ huncounted)
        rw [hidle] at hstarting
        cases hstarting
      refine hs.tid ?_ ?_
      all_goals
        intro hchild
        rw [hchild] at hcounted
        cases hcounted
    · rw [hs.pthread]
      simp [hgone, hstarted]

end Thread

end VServer
