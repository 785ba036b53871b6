import VServer.Lib.Tokens
import VServer.Net.Steps

/-!
# What a step of the machine can do

`step_cases` reads off `System.step` once, and `perform_cases` the tasks it performs. Most invariants
need less: every step is a `Move`, which tells what becomes of the tasks of the threads, and of the
connections. `Task.about` is what a task, queued or not, will do to a connection. Invariants that count
tasks use `System.total`.
-/

namespace VServer

variable {ι : Type}

/-- What the task does to connection `c`, now or when the queue comes to it. -/
def Task.about (c : Nat) : Task ι → Option (ConnTask ι)
  | .conn c' t => if c' = c then some t else none
  | .queueInLoop _ f => f.about c
  | _ => none

namespace Task

variable {c c' : Nat}

@[simp] theorem about_conn (t : ConnTask ι) : (Task.conn c t).about c = some t := if_pos rfl

theorem about_conn_of_ne (t : ConnTask ι) (h : c' ≠ c) : (Task.conn c' t).about c = none := if_neg h

@[simp] theorem about_queueInLoop (loop : ι) (f : Task ι) :
    (Task.queueInLoop loop f).about c = f.about c := rfl

@[simp] theorem about_runInLoop [DecidableEq ι] (who loop : ι) (f : Task ι) :
    (runInLoop who loop f).about c = f.about c := by
  unfold runInLoop
  split_ifs
  all_goals rfl

@[simp] theorem conn_eq_runInLoop [DecidableEq ι] {t : ConnTask ι} {who loop : ι} {x : Task ι} :
    Task.conn c t = runInLoop who loop x ↔ who = loop ∧ x = .conn c t := by
  unfold runInLoop
  split_ifs with hwho
  · exact ⟨fun h => ⟨hwho, h.symm⟩, fun h => h.2.symm⟩
  · exact ⟨nofun, fun h => absurd h.1 hwho⟩

theorem refersTo_eq (t : Task ι) : t.refersTo c = ((t.about c).map fun t => !t.isRaw).getD false := by
  induction t with
  | conn c' t =>
    by_cases hc : c' = c
    · simp [refersTo, about, hc]
    · simp [refersTo, about, hc]
  | queueInLoop loop f ih => exact ih
  | _ => rfl

end Task

/-- Clocks, counters and timers aside, the two worlds are the same. -/
structure World.SameConns (w w' : World ι) : Prop where
  conns : w'.conns = w.conns
  alive : w'.alive = w.alive
  pollers : w'.pollers = w.pollers
  server : w'.server = w.server
  log : w'.log = w.log

theorem World.SameConns.refl (w : World ι) : w.SameConns w := ⟨rfl, rfl, rfl, rfl, rfl⟩

/-- `newConnection` made connection `c` for `loop`. -/
structure Born (c : Nat) (loop : ι) (w w' : World ι) : Prop where
  fresh : c = w.server.connId
  conn : ∃ sockfd, w.isFree sockfd = true ∧ w'.conns c = .init loop sockfd w.server.delay
  conns : ∀ c', c' ≠ c → w'.conns c' = w.conns c'
  alive : w'.alive = Function.update w.alive c true
  pollers : w'.pollers = w.pollers
  connections : w'.server.connections = Function.update w.server.connections c true
  connId : w'.server.connId = c + 1
  threadPool : w.server.threadPool.SameLoops w'.server.threadPool
  log : w'.log = w.log

variable [DecidableEq ι]

inductive Move (label : Label ι) (σ σ' : System ι) : Prop
  /-- a task of a connection is performed -/
  | conn {who : ι} {k : Kernel} {c : Nat} {t : ConnTask ι} {rest new : List (Task ι)}
      {events : List (ConnEvent ι)} (run : label = .run who k) (todo : σ.todo who = .conn c t :: rest)
      (alive : σ.world.alive c = true)
      (step : ConnStep who k σ.world.server.threadPool.baseLoop c (σ.world.link c) t
        (σ'.world.link c) events new)
      (framed : Framed c σ.world σ'.world events) (loops : σ'.loops = σ.loops)
      (todo' : σ'.todo = Function.update σ.todo who (new ++ rest))
  /-- a connection is made -/
  | born {who loop : ι} {c : Nat} {rest : List (Task ι)} (todo : σ.todo who = .acceptorRead :: rest)
      (born : Born c loop σ.world σ'.world) (loops : σ'.loops = σ.loops)
      (todo' : σ'.todo = Function.update σ.todo who
        ([runInLoop who loop (.conn c .connectEstablished)] ++ rest))
  /-- a task is performed that is not of a connection -/
  | other {who : ι} {t : Task ι} {rest new : List (Task ι)} (todo : σ.todo who = t :: rest)
      (about : ∀ c, t.about c = none)
      (hnew : ∀ x ∈ new, ∀ c, x.about c = none ∨
        x = .conn c .forceClose ∧ σ.world.alive c = true)
      (world : σ.world.SameConns σ'.world)
      (phase : ∀ i, (σ'.loops i).phase = (σ.loops i).phase)
      (pendingFuncs : ∀ i, (σ'.loops i).pendingFuncs = (σ.loops i).pendingFuncs)
      (todo' : σ'.todo = Function.update σ.todo who (new ++ rest))
  | queue {who loop : ι} {f : Task ι} {rest new : List (Task ι)}
      (todo : σ.todo who = .queueInLoop loop f :: rest) (hnew : new = [] ∨ new = [.wakeup loop])
      (world : σ'.world = σ.world)
      (loops : σ'.loops = Function.update σ.loops loop ((σ.loops loop).push f))
      (todo' : σ'.todo = Function.update σ.todo who (new ++ rest))
  | call {who : ι} {call : UserCall ι} (inUserCode : σ.inUserCode who = true)
      (knows : σ.world.knows call = true) (world : σ'.world = σ.world) (loops : σ'.loops = σ.loops)
      (todo' : σ'.todo = Function.update σ.todo who (call.task who :: σ.todo who))
  | next {loop : ι} {l : EventLoop (Task ι)} {calls : List (Task ι)} (todo : σ.todo loop = [])
      (hnext : (σ.loops loop).next = some (l, calls)) (world : σ'.world = σ.world)
      (loops : σ'.loops = Function.update σ.loops loop l)
      (todo' : σ'.todo = Function.update σ.todo loop calls)
  | poll {loop : ι} {active : List ActiveChannel} (todo : σ.todo loop = [])
      (phase : (σ.loops loop).phase = .wait) (reports : ∀ a ∈ active, σ.reports loop a = true)
      (world : σ'.world = σ.world)
      (loops : σ'.loops = Function.update σ.loops loop
        ((σ.loops loop).poll (active.map (·.task loop))))
      (todo' : σ'.todo = σ.todo)
  | time (world : σ.world.SameConns σ'.world) (loops : σ'.loops = σ.loops) (todo' : σ'.todo = σ.todo)
  | destroy {c : Nat} (alive : σ.world.alive c = true)
      (refers : ∀ i, ∀ t ∈ σ.tasks i, ∀ x, t.about c = some x → x.isRaw = true)
      (conns : σ'.world.conns = σ.world.conns)
      (alive' : σ'.world.alive = Function.update σ.world.alive c false)
      (pollers : ∀ i, i ≠ (σ.world.conns c).loop → σ'.world.pollers i = σ.world.pollers i)
      (channels : (σ'.world.pollers (σ.world.conns c).loop).channels =
        (σ.world.pollers (σ.world.conns c).loop).channels)
      (epoll : (σ'.world.pollers (σ.world.conns c).loop).epoll =
        Function.update (σ.world.pollers (σ.world.conns c).loop).epoll (σ.world.conns c).channel.fd none)
      (server : σ'.world.server = σ.world.server) (log : σ'.world.log = σ.world.log)
      (loops : σ'.loops = σ.loops) (todo' : σ'.todo = σ.todo)
      (gone : σ.world.server.connections c = false)

section

variable {σ σ' : System ι} {who : ι} {k : Kernel}

omit [DecidableEq ι] in
theorem nothing_new {w : World ι} : ∀ x ∈ ([] : List (Task ι)), ∀ c, x.about c = none ∨
    x = .conn c .forceClose ∧ w.alive c = true := by
  intro x hx
  cases hx

theorem newConnection_born {w w' : World ι} {fd : Nat} {new : List (Task ι)}
    (h : newConnection who w fd = .ok (w', new)) :
    ∃ loop, Born w.server.connId loop w w' ∧
      new = [runInLoop who loop (.conn w.server.connId .connectEstablished)] := by
  unfold newConnection at h
  split_ifs at h with hwho hfree
  split at h
  · cases h
  rename_i pool loop hpool
  dsimp only at h
  split_ifs at h
  cases h
  exact ⟨loop, {
    fresh := rfl
    conn := ⟨fd, hfree, Function.update_self _ _ _⟩
    conns := fun c' hc => Function.update_of_ne hc _ _
    alive := rfl
    pollers := rfl
    connections := rfl
    connId := rfl
    threadPool := EventLoopThreadPool.getNextLoopMinConnection_sameLoops hpool
    log := rfl }, rfl⟩

/-- What `perform` can do, one kind of task after the other. -/
inductive Performed (who : ι) (k : Kernel) (w : World ι) : Task ι → World ι → List (Task ι) → Prop
  | conn {c : Nat} {t : ConnTask ι} {w' : World ι} {new : List (Task ι)} (alive : w.alive c = true)
      (result : performConn who k w c t = .ok (w', new)) : Performed who k w (.conn c t) w' new
  | timerRead {loop : ι} {timers : TimerManager TimerCallback} {expired : List (Timer TimerCallback)}
      (read : (w.timers loop).handleRead w.clock (w.count + 1) = .ok (timers, expired)) :
    Performed who k w (.timerRead loop)
      { w with count := w.count + 1, timers := Function.update w.timers loop timers }
      (expired.map fun t => .runTimer t.cb)
  | userTimer : Performed who k w (.runTimer .user) w [.user]
  | closeTimer {c : Nat} : Performed who k w (.runTimer (.weakForceClose c)) w
      (if w.alive c then [.conn c .forceClose] else [])
  | runAfter {loop : ι} {ms : Nat} {timer : Timer TimerCallback} (cb : timer.cb = .user) :
    Performed who k w (.runAfter loop ms) { w with count := w.count + 1 }
      [runInLoop who loop (.addTimerInloop loop timer)]
  | addTimerInloop {loop : ι} {timer : Timer TimerCallback} :
    Performed who k w (.addTimerInloop loop timer)
      { w with
        timers := Function.update w.timers loop ((w.timers loop).addTimerInloop w.clock timer) } []
  | cancelInloop {loop : ι} {id : UInt64} {timers : TimerManager TimerCallback}
      (cancel : (w.timers loop).cancelInloop w.clock id = .ok timers) :
    Performed who k w (.cancelInloop loop id)
      { w with timers := Function.update w.timers loop timers } []
  | acceptorRead {fd : Nat} {w' : World ι} {new : List (Task ι)} (accept : k.accept = some fd)
      (result : newConnection who w fd = .ok (w', new)) : Performed who k w .acceptorRead w' new

theorem perform_cases {t : Task ι} {w w' : World ι} {new : List (Task ι)}
    (h : perform who k w t = .ok (w', new)) : Performed who k w t w' new := by
  cases t with
  | conn c t =>
    unfold perform at h
    dsimp only at h
    split_ifs at h with halive
    exact .conn halive h
  | timerRead loop =>
    unfold perform at h
    dsimp only at h
    split at h
    · rename_i hread
      cases h
      exact .timerRead hread
    · cases h
  | runTimer cb =>
    cases cb with
    | user =>
      cases h
      exact .userTimer
    | weakForceClose c =>
      cases h
      exact .closeTimer
  | runAfter loop ms =>
    cases h
    exact .runAfter rfl
  | addTimerInloop loop timer =>
    cases h
    exact .addTimerInloop
  | cancelInloop loop id =>
    unfold perform at h
    dsimp only at h
    split at h
    · rename_i hcancel
      cases h
      exact .cancelInloop hcancel
    · cases h
  | acceptorRead =>
    unfold perform at h
    dsimp only at h
    split at h
    · cases h
    · exact .acceptorRead ‹_› h
  | user => cases h
  | queueInLoop loop f => cases h
  | wakeup loop => cases h
  | quit loop => cases h
  | wakeupRead loop => cases h

theorem perform_move {t : Task ι} {rest : List (Task ι)} {w' : World ι} {new : List (Task ι)}
    (htodo : σ.todo who = t :: rest) (h : perform who k σ.world t = .ok (w', new)) :
    Move (.run who k) σ { σ with world := w', todo := Function.update σ.todo who (new ++ rest) } := by
  -- a task that only touches timers
  have hother : ∀ {w₁ : World ι} {new₁ : List (Task ι)}, (∀ c, t.about c = none) →
      (∀ x ∈ new₁, ∀ c, x.about c = none ∨ x = .conn c .forceClose ∧ σ.world.alive c = true) →
      σ.world.SameConns w₁ →
      Move (.run who k) σ { σ with world := w₁, todo := Function.update σ.todo who (new₁ ++ rest) } :=
    fun habout hnew hsame =>
      .other htodo habout hnew hsame (fun _ => rfl) (fun _ => rfl) rfl
  cases perform_cases h with
  | conn alive result =>
    obtain ⟨events, hstep, hframed⟩ := performConn_spec result
    exact .conn rfl htodo alive hstep hframed rfl rfl
  | timerRead read =>
    refine hother (fun _ => rfl) ?_ ⟨rfl, rfl, rfl, rfl, rfl⟩
    intro x hx c
    obtain ⟨timer, -, rfl⟩ := List.mem_map.mp hx
    exact .inl rfl
  | userTimer =>
    refine hother (fun _ => rfl) ?_ (.refl _)
    intro x hx c
    rw [List.mem_singleton.mp hx]
    exact .inl rfl
  | @closeTimer c =>
    refine hother (fun _ => rfl) ?_ (.refl _)
    intro x hx c'
    split_ifs at hx with halive
    · rw [List.mem_singleton.mp hx]
      by_cases hc : c = c'
      · subst hc
        exact .inr ⟨rfl, halive⟩
      · exact .inl (Task.about_conn_of_ne _ hc)
    · cases hx
  | runAfter cb =>
    refine hother (fun _ => rfl) ?_ ⟨rfl, rfl, rfl, rfl, rfl⟩
    intro x hx c
    rw [List.mem_singleton.mp hx]
    exact .inl (Task.about_runInLoop _ _ _)
  | addTimerInloop => exact hother (fun _ => rfl) nothing_new ⟨rfl, rfl, rfl, rfl, rfl⟩
  | cancelInloop cancel => exact hother (fun _ => rfl) nothing_new ⟨rfl, rfl, rfl, rfl, rfl⟩
  | acceptorRead accept result =>
    obtain ⟨loop, hborn, rfl⟩ := newConnection_born result
    exact .born htodo hborn rfl rfl

/-- The state after a step, one kind of step after the other. -/
inductive Stepped [Fintype ι] (σ : System ι) : Label ι → System ι → Prop
  | perform {who : ι} {k : Kernel} {t : Task ι} {rest new : List (Task ι)} {w : World ι}
      (todo : σ.todo who = t :: rest) (result : VServer.perform who k σ.world t = .ok (w, new)) :
    Stepped σ (.run who k) { σ with world := w, todo := Function.update σ.todo who (new ++ rest) }
  | queueInLoop {who loop : ι} {k : Kernel} {f : Task ι} {rest : List (Task ι)}
      (todo : σ.todo who = .queueInLoop loop f :: rest) :
    Stepped σ (.run who k) { σ with
      loops := Function.update σ.loops loop ((σ.loops loop).push f)
      todo := Function.update σ.todo who
        ((if ((σ.loops loop).push f).wantsWakeup (who = loop) then [.wakeup loop] else []) ++ rest) }
  | wakeup {who loop : ι} {k : Kernel} {rest : List (Task ι)} (todo : σ.todo who = .wakeup loop :: rest) :
    Stepped σ (.run who k) { σ with
      loops := Function.update σ.loops loop (σ.loops loop).wakeup
      todo := Function.update σ.todo who rest }
  | quit {who loop : ι} {k : Kernel} {rest : List (Task ι)} (todo : σ.todo who = .quit loop :: rest) :
    Stepped σ (.run who k) { σ with
      loops := Function.update σ.loops loop { σ.loops loop with quit := true }
      todo := Function.update σ.todo who rest }
  | wakeupRead {who loop : ι} {k : Kernel} {l : EventLoop (Task ι)} {rest : List (Task ι)}
      (todo : σ.todo who = .wakeupRead loop :: rest) (read : (σ.loops loop).handleRead = .ok l) :
    Stepped σ (.run who k) { σ with
      loops := Function.update σ.loops loop l
      todo := Function.update σ.todo who rest }
  | call {who : ι} {call : UserCall ι} (inUserCode : σ.inUserCode who = true)
      (knows : σ.world.knows call = true) :
    Stepped σ (.call who call) { σ with
      todo := Function.update σ.todo who (call.task who :: σ.todo who) }
  | ret {who : ι} {rest : List (Task ι)} (todo : σ.todo who = .user :: rest) :
    Stepped σ (.ret who) { σ with todo := Function.update σ.todo who rest }
  | next {loop : ι} {l : EventLoop (Task ι)} {calls : List (Task ι)} (isLoop : σ.isLoop loop = true)
      (todo : σ.todo loop = []) (hnext : (σ.loops loop).next = some (l, calls)) :
    Stepped σ (.next loop) { σ with
      loops := Function.update σ.loops loop l
      todo := Function.update σ.todo loop calls }
  | poll {loop : ι} {active : List ActiveChannel} (todo : σ.todo loop = [])
      (phase : (σ.loops loop).phase = .wait) (nodup : (active.map (·.channel)).Nodup)
      (reports : ∀ a ∈ active, σ.reports loop a = true) :
    Stepped σ (.poll loop active) { σ with
      loops := Function.update σ.loops loop ((σ.loops loop).poll (active.map (·.task loop))) }
  | tick {duration : Nat} :
    Stepped σ (.tick duration) { σ with
      world := { σ.world with clock := σ.world.clock + duration } }
  | expire {loop : ι} {deadline : Nat}
      (armed : (σ.world.timers loop).timerfd.deadline = some deadline)
      (due : deadline ≤ σ.world.clock) :
    Stepped σ (.expire loop) { σ with world := { σ.world with
      timers := Function.update σ.world.timers loop
        { σ.world.timers loop with timerfd := ⟨none, true⟩ } } }
  | destroy {c : Nat} (alive : σ.world.alive c = true) (unreferenced : σ.unreferenced c = true) :
    Stepped σ (.destroy c) { σ with world := { σ.world with
      alive := Function.update σ.world.alive c false
      pollers := Function.update σ.world.pollers (σ.world.conns c).loop
        { σ.world.pollers (σ.world.conns c).loop with
          epoll := Function.update (σ.world.pollers (σ.world.conns c).loop).epoll
            (σ.world.conns c).channel.fd none } } }

theorem runTask_cases [Fintype ι] {t : Task ι} {rest : List (Task ι)} (htodo : σ.todo who = t :: rest)
    (h : σ.runTask who k rest t = .ok σ') : Stepped σ (.run who k) σ' := by
  cases t with
  | user => cases h
  | queueInLoop loop f =>
    cases h
    exact .queueInLoop htodo
  | wakeup loop =>
    cases h
    exact .wakeup htodo
  | quit loop =>
    cases h
    exact .quit htodo
  | wakeupRead loop =>
    unfold System.runTask at h
    dsimp only at h
    split at h
    · cases h
      exact .wakeupRead htodo ‹_›
    · cases h
  | _ =>
    unfold System.runTask at h
    dsimp only at h
    split at h
    · cases h
      exact .perform htodo ‹_›
    · cases h

/-- **What a step can do.** -/
theorem step_cases [Fintype ι] {label : Label ι} (h : σ.step label = .ok σ') : Stepped σ label σ' := by
  cases label with
  | run who k =>
    unfold System.step at h
    dsimp only at h
    split at h
    · exact runTask_cases ‹_› h
    · cases h
  | call who c =>
    unfold System.step at h
    dsimp only at h
    split_ifs at h with hcall
    cases h
    exact .call hcall.1 hcall.2
  | ret who =>
    unfold System.step at h
    dsimp only at h
    split at h
    · cases h
      exact .ret ‹_›
    · cases h
  | next loop =>
    unfold System.step at h
    dsimp only at h
    split at h
    · rename_i l calls htodo hnext
      split_ifs at h with hloop
      cases h
      exact .next hloop htodo hnext
    · cases h
  | poll loop active =>
    unfold System.step at h
    dsimp only at h
    split_ifs at h with hpoll
    cases h
    exact .poll hpoll.1 hpoll.2.1 hpoll.2.2.1 (List.all_eq_true.mp hpoll.2.2.2)
  | tick duration =>
    cases h
    exact .tick
  | expire loop =>
    unfold System.step at h
    dsimp only at h
    split at h
    · rename_i deadline harmed
      split_ifs at h with hdue
      cases h
      exact .expire harmed hdue
    · cases h
  | destroy c =>
    unfold System.step at h
    dsimp only at h
    split_ifs at h with hdestroy
    cases h
    exact .destroy hdestroy.1 hdestroy.2

/-- **Every step is a move.** -/
theorem step_move [Fintype ι] {label : Label ι} (h : σ.step label = .ok σ') : Move label σ σ' := by
  -- a task that wakes, stops or empties a loop
  have hdrop : ∀ {who loop : ι} {k : Kernel} {t : Task ι} {rest : List (Task ι)}
      {l : EventLoop (Task ι)}, σ.todo who = t :: rest → (∀ c, t.about c = none) →
      l.phase = (σ.loops loop).phase → l.pendingFuncs = (σ.loops loop).pendingFuncs →
      Move (.run who k) σ { σ with
        loops := Function.update σ.loops loop l, todo := Function.update σ.todo who rest } := by
    intro who loop k t rest l htodo habout hphase hpending
    refine .other htodo habout nothing_new (.refl _) ?_ ?_ rfl
    all_goals
      intro i
      by_cases hi : i = loop
      · subst hi
        simpa using ‹_›
      · simp [hi]
  cases step_cases h with
  | perform todo result => exact perform_move todo result
  | queueInLoop todo =>
    refine .queue todo ?_ rfl rfl rfl
    split_ifs
    · exact .inr rfl
    · exact .inl rfl
  | wakeup todo => exact hdrop todo (fun _ => rfl) rfl rfl
  | quit todo => exact hdrop todo (fun _ => rfl) rfl rfl
  | wakeupRead todo read =>
    obtain ⟨-, rfl⟩ := EventLoop.handleRead_eq_ok read
    exact hdrop todo (fun _ => rfl) rfl rfl
  | call inUserCode knows => exact .call inUserCode knows rfl rfl rfl
  | ret todo =>
    exact .other todo (fun _ => rfl) nothing_new (.refl _) (fun _ => rfl) (fun _ => rfl) rfl
  | next isLoop todo hnext => exact .next todo hnext rfl rfl rfl
  | poll todo phase nodup reports => exact .poll todo phase reports rfl rfl rfl
  | tick => exact .time ⟨rfl, rfl, rfl, rfl, rfl⟩ rfl rfl
  | expire armed due => exact .time ⟨rfl, rfl, rfl, rfl, rfl⟩ rfl rfl
  | destroy alive unreferenced =>
    refine .destroy alive ?_ rfl rfl (fun i hi => Function.update_of_ne hi _ _) ?_ ?_ rfl rfl rfl rfl ?_
    · intro i t ht x hab
      have hrefers := of_decide_eq_true (Bool.and_eq_true_iff.mp unreferenced).2 i
      have hnot := List.all_eq_true.mp hrefers t ht
      rw [Task.refersTo_eq, hab] at hnot
      simpa using hnot
    · simp
    · simp
    · simpa using (Bool.and_eq_true_iff.mp unreferenced).1

/-! ## What becomes of the tasks -/

omit [DecidableEq ι] in
theorem backlog_eq {l l' : EventLoop (Task ι)} (hphase : l'.phase = l.phase)
    (hpending : l'.pendingFuncs = l.pendingFuncs) : l'.backlog = l.backlog := by
  unfold EventLoop.backlog
  rw [hphase, hpending]

theorem tasks_exchange {todo : List (Task ι)} (htodo : σ'.todo = Function.update σ.todo who todo)
    (hbacklog : ∀ i, (σ'.loops i).backlog = (σ.loops i).backlog) :
    σ'.tasks who = todo ++ (σ.loops who).backlog ∧ ∀ i, i ≠ who → σ'.tasks i = σ.tasks i := by
  unfold System.tasks
  refine ⟨?_, fun i hi => ?_⟩
  · rw [htodo, hbacklog, Function.update_self]
  · rw [htodo, hbacklog, Function.update_of_ne hi]

theorem tasks_queue {loop : ι} {f : Task ι}
    {todo : List (Task ι)} (htodo : σ'.todo = Function.update σ.todo who todo)
    (hloops : σ'.loops = Function.update σ.loops loop ((σ.loops loop).push f)) (i : ι) :
    σ'.tasks i = (if i = who then todo ++ (σ.loops i).backlog else σ.tasks i) ++
      if i = loop then [f] else [] := by
  have hbacklog : (σ'.loops i).backlog = (σ.loops i).backlog ++ if i = loop then [f] else [] := by
    rw [hloops]
    by_cases hi : i = loop
    · subst hi
      simp
    · simp [hi]
  unfold System.tasks
  rw [hbacklog, htodo, ← List.append_assoc]
  by_cases hi : i = who
  · simp [hi]
  · simp [hi]

theorem tasks_next {loop : ι} {l : EventLoop (Task ι)} {calls : List (Task ι)}
    (htodo : σ.todo loop = []) (hnext : (σ.loops loop).next = some (l, calls))
    (hloops : σ'.loops = Function.update σ.loops loop l)
    (htodo' : σ'.todo = Function.update σ.todo loop calls) : σ'.tasks = σ.tasks := by
  funext i
  unfold System.tasks
  rw [htodo', hloops]
  by_cases hi : i = loop
  · subst hi
    rw [Function.update_self, Function.update_self, htodo, EventLoop.next_backlog hnext,
      List.nil_append]
  · rw [Function.update_of_ne hi, Function.update_of_ne hi]

theorem tasks_poll {loop : ι} {active : List (Task ι)} (htodo : σ.todo loop = [])
    (hphase : (σ.loops loop).phase = .wait)
    (hloops : σ'.loops = Function.update σ.loops loop ((σ.loops loop).poll active))
    (htodo' : σ'.todo = σ.todo) :
    σ'.tasks loop = active ++ σ.tasks loop ∧ ∀ i, i ≠ loop → σ'.tasks i = σ.tasks i := by
  unfold System.tasks
  rw [htodo', hloops]
  refine ⟨?_, fun i hi => ?_⟩
  · rw [Function.update_self, htodo, EventLoop.poll_backlog hphase]
    rfl
  · rw [Function.update_of_ne hi]

end

/-! ## Where a task comes from -/

def ConnTask.isCall : ConnTask ι → Bool
  | .send _ | .shutdown | .forceClose | .forceCloseAfter _ => true
  | _ => false

/-- What comes to a connection from outside: an event or a call. -/
def ConnTask.isIncoming : ConnTask ι → Bool
  | .handleEvent _ => true
  | t => t.isCall

/-- What a thread has to do below the topmost task of its stack. -/
def System.below (σ : System ι) (i : ι) : List (Task ι) := (σ.todo i).tail ++ (σ.loops i).backlog

def Task.isOutside (x : Task ι) : Prop :=
  ∀ c t, x.about c = some t → t.isIncoming = true ∨ t = .connectEstablished

def Task.isFresh (x : Task ι) : Prop :=
  ∀ c t, x.about c = some t → t.isCall = true ∨ t = .connectEstablished

/-- Why thread `i` has task `x` to do after a step: it had it before (`old`), its topmost task has
left it (`left`), it was handed over in `queueInLoop`, or it comes from outside, and then from the
poller if it is an event. -/
inductive Origin (old left : Prop) (σ : System ι) (i : ι) (x : Task ι) : Prop
  | old (h : old)
  | left (h : left)
  | queued {who : ι} {rest : List (Task ι)} (todo : σ.todo who = .queueInLoop i x :: rest)
  | outside (h : x.isOutside)
    (reports : ∀ c revents, x.about c = some (.handleEvent revents) →
      σ.reports i (.conn c revents) = true)

/-- A task of a connection is on top of the stack of thread `i`, and performing it leaves `new`. -/
inductive Leaves (σ σ' : System ι) (i : ι) (new : List (Task ι)) : Prop
  | mk {k : Kernel} {c : Nat} {t : ConnTask ι} {rest : List (Task ι)} {events : List (ConnEvent ι)}
      (todo : σ.todo i = .conn c t :: rest) (alive : σ.world.alive c = true)
      (step : ConnStep i k σ.world.server.threadPool.baseLoop c (σ.world.link c) t
        (σ'.world.link c) events new)

section

variable {σ σ' : System ι} {label : Label ι} {i : ι} {x : Task ι}

omit [DecidableEq ι] in
theorem isFresh_of_about (h : ∀ c, x.about c = none) : x.isFresh := by
  intro c t hab
  rw [h c] at hab
  cases hab

omit [DecidableEq ι] in
theorem isFresh_conn {c : Nat} {t : ConnTask ι} (h : t.isCall = true ∨ t = .connectEstablished) :
    (Task.conn c t).isFresh := by
  intro c' t' hab
  unfold Task.about at hab
  split_ifs at hab
  cases hab
  exact h

omit [DecidableEq ι] in
theorem Task.isFresh.isOutside (h : x.isFresh) : x.isOutside := by
  intro c t hab
  rcases h c t hab with ht | ht
  · cases t
    all_goals first
      | exact .inl rfl
      | cases ht
  · exact .inr ht

theorem Task.isFresh.origin {old left : Prop} (h : x.isFresh) : Origin old left σ i x := by
  refine .outside h.isOutside fun c revents hab => ?_
  rcases h c _ hab with ht | ht
  · cases ht
  · cases ht

theorem isFresh_call (who : ι) (call : UserCall ι) : (call.task who).isFresh := by
  cases call with
  | send c m => exact isFresh_conn (.inl rfl)
  | shutdown c => exact isFresh_conn (.inl rfl)
  | forceClose c => exact isFresh_conn (.inl rfl)
  | forceCloseAfter c ms => exact isFresh_conn (.inl rfl)
  | runInLoop loop => exact isFresh_of_about fun c => Task.about_runInLoop _ _ _
  | queueInLoop loop => exact isFresh_of_about fun c => rfl
  | runAfter loop ms => exact isFresh_of_about fun c => rfl
  | cancel loop id => exact isFresh_of_about fun c => Task.about_runInLoop _ _ _
  | quit loop => exact isFresh_of_about fun c => rfl

omit [DecidableEq ι] in
theorem isOutside_active (loop : ι) (a : ActiveChannel) : (a.task loop).isOutside := by
  cases a with
  | conn c revents =>
    intro c' t hab
    unfold ActiveChannel.task Task.about at hab
    split_ifs at hab
    cases hab
    exact .inl rfl
  | wakeup => exact (isFresh_of_about fun c => rfl).isOutside
  | timer => exact (isFresh_of_about fun c => rfl).isOutside
  | acceptor => exact (isFresh_of_about fun c => rfl).isOutside

theorem origin_active {old left : Prop} {a : ActiveChannel} (h : σ.reports i a = true) :
    Origin old left σ i (a.task i) := by
  refine .outside (isOutside_active i a) fun c revents hab => ?_
  cases a with
  | conn c' revents' =>
    unfold ActiveChannel.task Task.about at hab
    split_ifs at hab with hc
    cases hab
    rwa [← hc]
  | _ => cases hab

omit [DecidableEq ι] in
theorem top_of_userCode {who : ι} (h : σ.inUserCode who = true) {rest : List (Task ι)}
    (htodo : σ.todo who = x :: rest) : x = .user := by
  unfold System.inUserCode at h
  rw [htodo] at h
  cases x with
  | user => rfl
  | _ => cases h

theorem mem_exchange {who : ι} {T : Task ι} {rest new : List (Task ι)} (htodo : σ.todo who = T :: rest)
    (htodo' : σ'.todo = Function.update σ.todo who (new ++ rest))
    (hbacklog : ∀ i, (σ'.loops i).backlog = (σ.loops i).backlog) :
    (x ∈ σ'.tasks i → x ∈ σ.tasks i ∨ i = who ∧ x ∈ new) ∧
      (x ∈ σ'.below i → x ∈ σ.below i ∨ i = who ∧ x ∈ new.tail) := by
  unfold System.tasks System.below
  rw [htodo', hbacklog]
  by_cases hi : i = who
  · subst hi
    rw [Function.update_self, htodo, List.tail_cons]
    refine ⟨fun hx => ?_, fun hx => ?_⟩
    · rw [List.append_assoc, List.mem_append] at hx
      exact hx.elim (fun h => .inr ⟨rfl, h⟩) fun h => .inl (List.mem_cons_of_mem _ h)
    · cases new with
      | nil =>
        refine .inl ((List.mem_append.mp hx).elim (fun h => ?_) fun h => ?_)
        · exact List.mem_append_left _ (List.mem_of_mem_tail h)
        · exact List.mem_append_right _ h
      | cons a new =>
        rw [List.cons_append, List.tail_cons, List.append_assoc, List.mem_append] at hx
        exact hx.elim (fun h => .inr ⟨rfl, h⟩) .inl
  · rw [Function.update_of_ne hi]
    exact ⟨.inl, .inl⟩

/-- **Where tasks come from**: those a thread has, and those it has below the topmost one. -/
theorem Move.origins (h : Move label σ σ') :
    (x ∈ σ'.tasks i → Origin (x ∈ σ.tasks i) (∃ new, Leaves σ σ' i new ∧ x ∈ new) σ i x) ∧
      (x ∈ σ'.below i → Origin (x ∈ σ.below i) (∃ new, Leaves σ σ' i new ∧ x ∈ new.tail) σ i x) := by
  cases h with
  | @conn who k c t rest new events run todo alive step framed loops todo' =>
    obtain ⟨htasks, hbelow⟩ := mem_exchange (x := x) (i := i) todo todo' fun i => by rw [loops]
    refine ⟨fun hx => ?_, fun hx => ?_⟩
    · rcases htasks hx with hold | ⟨rfl, hnew⟩
      · exact .old hold
      · exact .left ⟨new, ⟨todo, alive, step⟩, hnew⟩
    · rcases hbelow hx with hold | ⟨rfl, hnew⟩
      · exact .old hold
      · exact .left ⟨new, ⟨todo, alive, step⟩, hnew⟩
  | @born who loop c rest todo born loops todo' =>
    obtain ⟨htasks, hbelow⟩ := mem_exchange (x := x) (i := i) todo todo' fun i => by rw [loops]
    refine ⟨fun hx => ?_, fun hx => ?_⟩
    · rcases htasks hx with hold | ⟨rfl, hnew⟩
      · exact .old hold
      · rw [List.mem_singleton.mp hnew]
        have hfresh : (runInLoop i loop (.conn c .connectEstablished) : Task ι).isFresh := by
          intro c' t hab
          rw [Task.about_runInLoop] at hab
          exact isFresh_conn (.inr rfl) c' t hab
        exact hfresh.origin
    · rcases hbelow hx with hold | ⟨rfl, hnew⟩
      · exact .old hold
      · cases hnew
  | @other who t rest new todo about hnew world phase pendingFuncs todo' =>
    obtain ⟨htasks, hbelow⟩ := mem_exchange (x := x) (i := i) todo todo'
      fun i => backlog_eq (phase i) (pendingFuncs i)
    have hfresh : x ∈ new → x.isFresh := by
      intro hmem c t hab
      rcases hnew x hmem c with hnone | ⟨rfl, -⟩
      · rw [hnone] at hab
        cases hab
      · rw [Task.about_conn] at hab
        cases hab
        exact .inl rfl
    exact ⟨fun hx => (htasks hx).elim .old fun h => (hfresh h.2).origin,
      fun hx => (hbelow hx).elim .old fun h => (hfresh (List.mem_of_mem_tail h.2)).origin⟩
  | @queue who loop f rest new todo hnew world loops todo' =>
    -- first the thread drops the functor, then the queue gets it
    let middle : System ι := { σ with todo := σ'.todo }
    have htodo : middle.todo = Function.update σ.todo who (new ++ rest) := todo'
    obtain ⟨htasks, hbelow⟩ := mem_exchange (x := x) (i := i) todo htodo fun _ => rfl
    have hpush : x ∈ (σ'.loops i).backlog → x ∈ (σ.loops i).backlog ∨ i = loop ∧ x = f := by
      intro hx
      rw [loops] at hx
      by_cases hi : i = loop
      · subst hi
        rw [Function.update_self, EventLoop.push_backlog, List.mem_append, List.mem_singleton] at hx
        exact hx.imp id fun h => ⟨rfl, h⟩
      · rw [Function.update_of_ne hi] at hx
        exact .inl hx
    have hfresh : x ∈ new → x.isFresh := by
      intro hmem
      rcases hnew with rfl | rfl
      · cases hmem
      · rw [List.mem_singleton.mp hmem]
        exact isFresh_of_about fun c => rfl
    refine ⟨fun hx => ?_, fun hx => ?_⟩
    · rcases List.mem_append.mp hx with hx | hx
      · exact (htasks (List.mem_append_left _ hx)).elim .old fun h => (hfresh h.2).origin
      · rcases hpush hx with hx | ⟨rfl, rfl⟩
        · exact .old (List.mem_append_right _ hx)
        · exact .queued todo
    · rcases List.mem_append.mp hx with hx | hx
      · exact (hbelow (List.mem_append_left _ hx)).elim .old
          fun h => (hfresh (List.mem_of_mem_tail h.2)).origin
      · rcases hpush hx with hx | ⟨rfl, rfl⟩
        · exact .old (List.mem_append_right _ hx)
        · exact .queued todo
  | @call who call inUserCode knows world loops todo' =>
    have hold : i ≠ who → σ'.todo i = σ.todo i := fun hi => by rw [todo', Function.update_of_ne hi]
    refine ⟨fun hx => ?_, fun hx => ?_⟩
    · unfold System.tasks at hx ⊢
      rw [loops] at hx
      by_cases hi : i = who
      · subst hi
        rw [todo', Function.update_self, List.cons_append, List.mem_cons] at hx
        rcases hx with rfl | hx
        · exact (isFresh_call i call).origin
        · exact .old hx
      · rw [hold hi] at hx
        exact .old hx
    · unfold System.below at hx ⊢
      rw [loops] at hx
      by_cases hi : i = who
      · subst hi
        rw [todo', Function.update_self, List.tail_cons] at hx
        rcases List.mem_append.mp hx with hx | hx
        · cases htodo : σ.todo i with
          | nil =>
            rw [htodo] at hx
            cases hx
          | cons T rest =>
            rw [htodo] at hx
            rcases List.mem_cons.mp hx with rfl | hx
            · rw [top_of_userCode inUserCode htodo]
              exact (isFresh_of_about fun c => rfl).origin
            · exact .old (List.mem_append_left _ hx)
        · exact .old (List.mem_append_right _ hx)
      · rw [hold hi] at hx
        exact .old hx
  | @next loop l calls todo hnext world loops todo' =>
    have hbacklog := EventLoop.next_backlog hnext
    unfold System.tasks System.below
    rw [todo', loops]
    by_cases hi : i = loop
    · subst hi
      rw [Function.update_self, Function.update_self, todo, hbacklog]
      refine ⟨.old, fun hx => .old ?_⟩
      rw [List.tail_nil, List.nil_append, ← hbacklog]
      exact (List.mem_append.mp hx).elim (fun h => List.mem_append_left _ (List.mem_of_mem_tail h))
        fun h => List.mem_append_right _ h
    · rw [Function.update_of_ne hi, Function.update_of_ne hi]
      exact ⟨.old, .old⟩
  | @poll loop active todo phase reports world loops todo' =>
    have hpoll : x ∈ (σ'.loops i).backlog →
        x ∈ (σ.loops i).backlog ∨ ∃ a, σ.reports i a = true ∧ x = a.task i := by
      intro hx
      rw [loops] at hx
      by_cases hi : i = loop
      · subst hi
        rw [Function.update_self, EventLoop.poll_backlog phase, List.mem_append] at hx
        refine hx.symm.imp id fun hmem => ?_
        obtain ⟨a, ha, rfl⟩ := List.mem_map.mp hmem
        exact ⟨a, reports a ha, rfl⟩
      · rw [Function.update_of_ne hi] at hx
        exact .inl hx
    unfold System.tasks System.below
    rw [todo']
    refine ⟨fun hx => ?_, fun hx => ?_⟩
    all_goals
      rcases List.mem_append.mp hx with hx | hx
      · exact .old (List.mem_append_left _ hx)
      · rcases hpoll hx with hold | ⟨a, ha, rfl⟩
        · exact .old (List.mem_append_right _ hold)
        · exact origin_active ha
  | time world loops todo' =>
    unfold System.tasks System.below
    rw [todo', loops]
    exact ⟨.old, .old⟩
  | destroy alive refers conns alive' pollers channels epoll server log loops todo' =>
    unfold System.tasks System.below
    rw [todo', loops]
    exact ⟨.old, .old⟩

omit [DecidableEq ι] in
theorem mem_tasks_of_todo {i : ι} {x : Task ι} {rest : List (Task ι)} (h : σ.todo i = x :: rest) :
    x ∈ σ.tasks i := by
  rw [System.tasks, h]
  exact List.mem_cons_self

theorem Move.loop_eq {c : Nat} (h : Move label σ σ') (hlt : c < σ.world.server.connId) :
    (σ'.world.conns c).loop = (σ.world.conns c).loop := by
  cases h with
  | @conn who k c' t rest new events run todo alive step framed loops todo' =>
    by_cases hc : c = c'
    · subst hc
      exact framed.loop
    · rw [framed.conns c hc]
  | @born who loop c' rest todo born loops todo' =>
    have hfresh := born.fresh
    rw [born.conns c (by omega)]
  | other todo about hnew world phase pendingFuncs todo' => rw [world.conns]
  | queue todo hnew world loops todo' => rw [world]
  | call inUserCode knows world loops todo' => rw [world]
  | next todo hnext world loops todo' => rw [world]
  | poll todo phase reports world loops todo' => rw [world]
  | time world loops todo' => rw [world.conns]
  | destroy alive refers conns alive' pollers channels epoll server log loops todo' => rw [conns]

end

/-! ## Counting the tasks of one connection -/

/-- The weight of a task for connection `c`. -/
def Task.weight (c : Nat) (μ : ConnTask ι → Nat) (t : Task ι) : Nat := (t.about c).elim 0 μ

section

variable {c : Nat} {μ : ConnTask ι → Nat}

omit [DecidableEq ι]

@[simp] theorem weight_conn (t : ConnTask ι) : (Task.conn c t).weight c μ = μ t := by
  rw [Task.weight, Task.about_conn]
  rfl

@[simp] theorem weight_queueInLoop (loop : ι) (f : Task ι) :
    (Task.queueInLoop loop f).weight c μ = f.weight c μ := rfl

@[simp] theorem weight_runInLoop [DecidableEq ι] (who loop : ι) (f : Task ι) :
    (runInLoop who loop f).weight c μ = f.weight c μ := by
  rw [Task.weight, Task.about_runInLoop]
  rfl

@[simp] theorem weight_user : (Task.user : Task ι).weight c μ = 0 := rfl

@[simp] theorem weight_cancelInloop (loop : ι) (id : UInt64) :
    (Task.cancelInloop loop id).weight c μ = 0 := rfl

@[simp] theorem weight_addTimerInloop (loop : ι) (timer : Timer TimerCallback) :
    (Task.addTimerInloop loop timer).weight c μ = 0 := rfl

theorem mem_eventTasks {revents : BitVec 32} {t : ConnTask ι} (h : t ∈ eventTasks revents) :
    t = .handleClose ∨ t = .handleError ∨ t = .handleRead ∨ t = .writeCallback := by
  unfold eventTasks at h
  simp only [List.mem_append, List.mem_ite_nil_right, List.mem_singleton] at h
  rcases h with ((⟨-, rfl⟩ | ⟨-, rfl⟩) | ⟨-, rfl⟩) | rfl
  all_goals simp

theorem sum_weight_eventTasks (hclose : μ .handleClose = 0) (herror : μ .handleError = 0)
    (hread : μ .handleRead = 0) (hwrite : μ .writeCallback = 0) (revents : BitVec 32) :
    (((eventTasks revents).map (Task.conn c)).map (Task.weight c μ)).sum = 0 := by
  apply List.sum_eq_zero
  intro n hn
  obtain ⟨x, hx, rfl⟩ := List.mem_map.mp hn
  obtain ⟨t, ht, rfl⟩ := List.mem_map.mp hx
  rw [weight_conn]
  rcases mem_eventTasks ht with rfl | rfl | rfl | rfl
  all_goals assumption

end

def System.total [Fintype ι] (σ : System ι) (c : Nat) (μ : ConnTask ι → Nat) : Nat :=
  Tokens.total (Task.weight c μ) σ.tasks

/-- What was seen of connection `c`. -/
def World.seen (w : World ι) (c : Nat) : List (ConnEvent ι) :=
  w.log.filterMap fun p => if p.1 = c then some p.2 else none

/-- The task of a connection that a step performs, and what the kernel answers. -/
def System.performs (σ : System ι) : Label ι → Option (Nat × ConnTask ι × Kernel)
  | .run who k =>
    match σ.todo who with
    | .conn c t :: _ => some (c, t, k)
    | _ => none
  | _ => none

omit [DecidableEq ι] in
theorem performs_of_todo {σ : System ι} {who : ι} {k : Kernel} {c : Nat} {t : ConnTask ι}
    {rest : List (Task ι)} (h : σ.todo who = .conn c t :: rest) :
    σ.performs (.run who k) = some (c, t, k) := by
  unfold System.performs
  dsimp only
  rw [h]

omit [DecidableEq ι] in
theorem performs_of_run {σ : System ι} {label : Label ι} {who : ι} {k : Kernel} {c : Nat}
    {t : ConnTask ι} {rest : List (Task ι)} (run : label = .run who k)
    (todo : σ.todo who = .conn c t :: rest) : σ.performs label = some (c, t, k) := by
  rw [run]
  exact performs_of_todo todo

omit [DecidableEq ι] in
theorem performs_eq_some {σ : System ι} {label : Label ι} {c : Nat} {t : ConnTask ι} {k : Kernel}
    (h : σ.performs label = some (c, t, k)) :
    ∃ who rest, label = .run who k ∧ σ.todo who = .conn c t :: rest := by
  cases label with
  | run who k =>
    unfold System.performs at h
    dsimp only at h
    split at h
    · rename_i rest htodo
      cases h
      exact ⟨who, rest, rfl, htodo⟩
    · cases h
  | _ => cases h

def ConnTask.one (x t : ConnTask ι) : Nat := if t = x then 1 else 0

@[simp] theorem one_self (x : ConnTask ι) : x.one x = 1 := if_pos rfl

theorem one_of_ne {x t : ConnTask ι} (h : t ≠ x) : x.one t = 0 := if_neg h

/-- How often `x` is still to be done for connection `c`. -/
def System.pending [Fintype ι] (σ : System ι) (c : Nat) (x : ConnTask ι) : Nat := σ.total c x.one

def ConnTask.isDispatch : ConnTask ι → Bool
  | .handleEvent _ | .writeCallback | .updateTimer | .delayedClose => true
  | _ => false

/-- A weight that the parts of an event and the timers do not have. -/
structure Unweighted (μ : ConnTask ι → Nat) : Prop where
  handleClose : μ .handleClose = 0
  handleError : μ .handleError = 0
  handleRead : μ .handleRead = 0
  writeCallback : μ .writeCallback = 0
  handleWrite : μ .handleWrite = 0
  forceCloseAfter : ∀ ms, μ (.forceCloseAfter ms) = 0

theorem ConnStep.sum_dispatch {who : ι} {k : Kernel} {base : ι} {c : Nat} {l l' : Link ι}
    {t : ConnTask ι} {events : List (ConnEvent ι)} {new : List (Task ι)} {μ : ConnTask ι → Nat}
    (h : ConnStep who k base c l t l' events new) (ht : t.isDispatch = true) (hμ : Unweighted μ) :
    (new.map (Task.weight c μ)).sum = 0 := by
  cases h with
  | handleEvent revents =>
    exact sum_weight_eventTasks hμ.handleClose hμ.handleError hμ.handleRead hμ.writeCallback revents
  | writeCallback hnew =>
    rcases hnew with rfl | rfl
    · simp [hμ.handleWrite]
    · rfl
  | updateTimer hnew =>
    rcases hnew with rfl | rfl
    · rfl
    · simp [hμ.forceCloseAfter]
  | delayedClose hnew =>
    rcases hnew with rfl | rfl
    · rfl
    · simp [hμ.forceCloseAfter]
  | _ => cases ht

section

variable [Fintype ι] {σ σ' : System ι} {who : ι} {k : Kernel} {c : Nat} {μ : ConnTask ι → Nat}

theorem total_use {t : Task ι} {rest new : List (Task ι)} (htodo : σ.todo who = t :: rest)
    (htodo' : σ'.todo = Function.update σ.todo who (new ++ rest))
    (hbacklog : ∀ i, (σ'.loops i).backlog = (σ.loops i).backlog) :
    σ'.total c μ + t.weight c μ = σ.total c μ + (new.map (Task.weight c μ)).sum := by
  obtain ⟨hwho, hother⟩ := tasks_exchange htodo' hbacklog
  have htasks : σ.tasks who = t :: (rest ++ (σ.loops who).backlog) := by
    rw [System.tasks, htodo, List.cons_append]
  rw [List.append_assoc] at hwho
  exact Tokens.total_use hother htasks hwho

omit [DecidableEq ι] in
theorem total_add (μ μ' : ConnTask ι → Nat) :
    σ.total c (fun t => μ t + μ' t) = σ.total c μ + σ.total c μ' := by
  have hweight : Task.weight c (fun t : ConnTask ι => μ t + μ' t) =
      fun t => Task.weight c μ t + Task.weight c μ' t := by
    funext t
    unfold Task.weight
    cases t.about c with
    | none => rfl
    | some x => rfl
  unfold System.total
  rw [hweight, Tokens.total_add]

omit [DecidableEq ι] in
theorem total_le_total {μ μ' : ConnTask ι → Nat} (h : ∀ t, μ t ≤ μ' t) :
    σ.total c μ ≤ σ.total c μ' := by
  apply Tokens.total_le_total
  intro t
  unfold Task.weight
  cases t.about c with
  | none => exact Nat.le_refl 0
  | some x => exact h x

omit [DecidableEq ι] in
theorem exists_of_total_pos (h : 0 < σ.total c μ) :
    ∃ i, ∃ x ∈ σ.tasks i, ∃ t, x.about c = some t ∧ 0 < μ t := by
  obtain ⟨i, x, hx, hpos⟩ := Tokens.exists_of_total_pos h
  unfold Task.weight at hpos
  cases hab : x.about c with
  | none =>
    rw [hab] at hpos
    cases hpos
  | some t =>
    rw [hab] at hpos
    exact ⟨i, x, hx, t, hab, hpos⟩

omit [DecidableEq ι] in
theorem le_total_of_performs {label : Label ι} {t : ConnTask ι} (μ : ConnTask ι → Nat)
    (h : σ.performs label = some (c, t, k)) : μ t ≤ σ.total c μ := by
  obtain ⟨who, rest, -, htodo⟩ := performs_eq_some h
  have hmem : Task.conn c t ∈ σ.tasks who := by
    rw [System.tasks, htodo]
    exact List.mem_cons_self
  have hle := Tokens.le_total (m := Task.weight c μ) hmem
  rwa [weight_conn] at hle

theorem one_le_pending {label : Label ι} {t : ConnTask ι} (h : σ.performs label = some (c, t, k))
    (x : ConnTask ι) : x.one t ≤ σ.pending c x := le_total_of_performs x.one h

theorem pending_pos {label : Label ι} {t : ConnTask ι} (h : σ.performs label = some (c, t, k)) :
    0 < σ.pending c t := by
  have hle := one_le_pending h t
  rwa [one_self] at hle

theorem total_queue {loop : ι} {f : Task ι} {rest new : List (Task ι)}
    (htodo : σ.todo who = .queueInLoop loop f :: rest) (hnew : new = [] ∨ new = [.wakeup loop])
    (hloops : σ'.loops = Function.update σ.loops loop ((σ.loops loop).push f))
    (htodo' : σ'.todo = Function.update σ.todo who (new ++ rest)) :
    σ'.total c μ = σ.total c μ := by
  -- first the thread drops the functor, then the queue gets it
  let middle : System ι := { σ with todo := σ'.todo }
  have hdrop : middle.total c μ + f.weight c μ = σ.total c μ + (new.map (Task.weight c μ)).sum :=
    total_use (t := .queueInLoop loop f) htodo htodo' fun _ => rfl
  have hpush : σ'.total c μ = middle.total c μ + f.weight c μ := by
    refine Tokens.total_push (i := loop) (fun j hj => ?_) ?_
    · simp [System.tasks, middle, hloops, hj]
    · simp [System.tasks, middle, hloops]
  have hweight : (new.map (Task.weight c μ)).sum = 0 := by
    rcases hnew with rfl | rfl
    · rfl
    · rfl
  omega

omit [DecidableEq ι] in
theorem total_same (htodo : σ'.todo = σ.todo) (hloops : σ'.loops = σ.loops) :
    σ'.total c μ = σ.total c μ := by
  unfold System.total System.tasks
  rw [htodo, hloops]

/-- What a step is for connection `c`: one of its own tasks, its creation, or nothing but that
something comes to it from outside. -/
inductive ConnMove (c : Nat) (label : Label ι) (σ σ' : System ι) : Prop
  | own {who : ι} {k : Kernel} {t : ConnTask ι} {rest new : List (Task ι)} {events : List (ConnEvent ι)}
      (run : label = .run who k) (todo : σ.todo who = .conn c t :: rest)
      (alive : σ.world.alive c = true)
      (step : ConnStep who k σ.world.server.threadPool.baseLoop c (σ.world.link c) t
        (σ'.world.link c) events new)
      (alive' : σ'.world.alive c = true) (connId : σ'.world.server.connId = σ.world.server.connId)
      (seen : σ'.world.seen c = σ.world.seen c ++ events)
      (total : ∀ μ, σ'.total c μ + μ t = σ.total c μ + (new.map (Task.weight c μ)).sum)
  | born {loop : ι} (fresh : c = σ.world.server.connId) (connId : σ'.world.server.connId = c + 1)
      (conn : ∃ sockfd delay, σ'.world.conns c = .init loop sockfd delay)
      (registered : σ'.world.server.connections c = true)
      (seen : σ'.world.seen c = σ.world.seen c)
      (total : ∀ μ, σ'.total c μ = σ.total c μ + μ .connectEstablished)
      (alive' : σ'.world.alive c = true)
  | idle (conn : σ'.world.conns c = σ.world.conns c)
      (registered : σ'.world.server.connections c = σ.world.server.connections c)
      (alive : σ'.world.alive c = true → σ.world.alive c = true)
      (connId : c < σ'.world.server.connId ↔ c < σ.world.server.connId)
      (seen : σ'.world.seen c = σ.world.seen c)
      (total : ∃ incoming : List (ConnTask ι), (∀ t ∈ incoming, t.isIncoming = true) ∧
        (∀ revents, .handleEvent revents ∈ incoming → ∃ i, σ.reports i (.conn c revents) = true) ∧
        ∀ μ, σ'.total c μ = σ.total c μ + (incoming.map μ).sum)

theorem forall_mem_of_either {α : Type} {P : α → Prop} {l l' : List α} (h : l = [] ∨ l = l')
    (hall : ∀ x ∈ l', P x) : ∀ x ∈ l, P x := by
  rcases h with rfl | rfl
  · exact nofun
  · exact hall

omit [Fintype ι] in
theorem ConnStep.about_other {c' : Nat} {base : ι} {l l' : Link ι} {t : ConnTask ι}
    {events : List (ConnEvent ι)} {new : List (Task ι)} (h : ConnStep who k base c' l t l' events new)
    (hc : c' ≠ c) : ∀ x ∈ new, x.about c = none := by
  have hne : ∀ t : ConnTask ι, (Task.conn c' t).about c = none := fun t => Task.about_conn_of_ne t hc
  cases h with
  | handleEvent revents =>
    intro x hx
    obtain ⟨t, -, rfl⟩ := List.mem_map.mp hx
    exact hne t
  | writeCallback hnew => exact forall_mem_of_either hnew.symm (by simp [hne])
  | updateTimer hnew =>
    refine forall_mem_of_either hnew ?_
    exact List.forall_mem_cons.mpr ⟨Task.about_runInLoop _ _ _, List.forall_mem_singleton.mpr (hne _)⟩
  | delayedClose hnew => exact forall_mem_of_either hnew (by simp [hne])
  | runForceCloseAfter timer =>
    exact List.forall_mem_cons.mpr ⟨Task.about_runInLoop _ _ _, List.forall_mem_singleton.mpr (hne _)⟩
  | _ => simp [hc, Task.about]

omit [DecidableEq ι] [Fintype ι] in
theorem sum_weight (new : List (Task ι)) :
    (new.map (Task.weight c μ)).sum = ((new.filterMap (Task.about c)).map μ).sum := by
  induction new with
  | nil => rfl
  | cons t new ih =>
    rw [List.map_cons, List.sum_cons, ih, Task.weight]
    cases hab : t.about c with
    | none => simp [hab]
    | some x => simp [hab]

omit [DecidableEq ι] [Fintype ι] in
theorem seen_append {w w' : World ι} {c' : Nat} {events : List (ConnEvent ι)}
    (hlog : w'.log = w.log ++ events.map (c', ·)) :
    w'.seen c = w.seen c ++ if c' = c then events else [] := by
  unfold World.seen
  rw [hlog, List.filterMap_append, List.filterMap_map]
  split_ifs with hc
  · subst hc
    simp
  · simp [hc]

theorem Move.of_conn {label : Label ι} (h : Move label σ σ') (c : Nat) : ConnMove c label σ σ' := by
  -- the world has not changed for the connection
  have hidle : ∀ incoming : List (Task ι), σ.world.SameConns σ'.world →
      (∀ x ∈ incoming, ∀ t, x.about c = some t → t.isIncoming = true ∧
        ∀ revents, t = .handleEvent revents → ∃ i, σ.reports i (.conn c revents) = true) →
      (∀ μ, σ'.total c μ = σ.total c μ + (incoming.map (Task.weight c μ)).sum) →
      ConnMove c label σ σ' := by
    intro incoming hsame hincoming htotal
    refine .idle (by rw [hsame.conns]) (by rw [hsame.server]) (by rw [hsame.alive]; exact id)
      (by rw [hsame.server]) (by rw [World.seen, hsame.log]; rfl)
      ⟨incoming.filterMap (Task.about c), fun t ht => ?_, fun revents hr => ?_,
        fun μ => by rw [htotal μ, sum_weight]⟩
    · obtain ⟨x, hx, hab⟩ := List.mem_filterMap.mp ht
      exact (hincoming x hx t hab).1
    · obtain ⟨x, hx, hab⟩ := List.mem_filterMap.mp hr
      exact (hincoming x hx _ hab).2 revents rfl
  have hsame : ∀ {w : World ι}, σ'.world = w → w.SameConns σ'.world := by
    intro w hw
    rw [hw]
    exact .refl w
  cases h with
  | @conn who k c' t rest new events run todo alive step framed loops todo' =>
    have htotal : ∀ μ, σ'.total c μ + (Task.conn c' t).weight c μ =
        σ.total c μ + (new.map (Task.weight c μ)).sum := fun μ =>
      total_use todo todo' fun i => by rw [loops]
    have hseen := seen_append (c := c) framed.log
    by_cases hc : c' = c
    · subst hc
      rw [if_pos rfl] at hseen
      refine .own run todo alive step ?_ framed.connId hseen fun μ => ?_
      · rw [framed.alive]
        exact alive
      · have h := htotal μ
        rwa [Task.weight, Task.about_conn] at h
    · rw [if_neg hc, List.append_nil] at hseen
      refine .idle (framed.conns c (Ne.symm hc)) (framed.connections c (Ne.symm hc))
        (by rw [framed.alive]; exact id) (by rw [framed.connId]) hseen
        ⟨[], fun t ht => (List.not_mem_nil ht).elim, nofun, fun μ => ?_⟩
      have h := htotal μ
      have hzero : (new.map (Task.weight c μ)).sum = 0 := by
        apply List.sum_eq_zero
        intro n hn
        obtain ⟨x, hx, rfl⟩ := List.mem_map.mp hn
        rw [Task.weight, step.about_other hc x hx]
        rfl
      rw [Task.weight, Task.about_conn_of_ne t hc, hzero] at h
      exact h
  | @born who loop c' rest todo born loops todo' =>
    have htotal : ∀ μ, σ'.total c μ + (Task.acceptorRead : Task ι).weight c μ = σ.total c μ +
        ([runInLoop who loop (.conn c' .connectEstablished)].map (Task.weight c μ)).sum := fun μ =>
      total_use todo todo' fun i => by rw [loops]
    have hnew : ∀ μ, ([runInLoop who loop (.conn c' .connectEstablished)].map (Task.weight c μ)).sum =
        (Task.conn c' .connectEstablished : Task ι).weight c μ := by
      intro μ
      rw [List.map_singleton, List.sum_singleton, Task.weight, Task.about_runInLoop, Task.weight]
    have hseen : σ'.world.seen c = σ.world.seen c := by
      unfold World.seen
      rw [born.log]
    by_cases hc : c' = c
    · subst hc
      obtain ⟨sockfd, -, hconn⟩ := born.conn
      refine .born born.fresh born.connId ⟨sockfd, _, hconn⟩ ?_ hseen (fun μ => ?_) ?_
      · rw [born.connections, Function.update_self]
      · have h := htotal μ
        rw [hnew, Task.weight, Task.weight, Task.about_conn] at h
        exact h
      · rw [born.alive, Function.update_self]
    · refine .idle (born.conns c (Ne.symm hc)) ?_ ?_ ?_ hseen
        ⟨[], fun t ht => (List.not_mem_nil ht).elim, nofun, fun μ => ?_⟩
      · rw [born.connections, Function.update_of_ne (Ne.symm hc)]
      · rw [born.alive, Function.update_of_ne (Ne.symm hc)]
        exact id
      · rw [born.connId, ← born.fresh]
        omega
      · have h := htotal μ
        rw [hnew, Task.weight, Task.weight, Task.about_conn_of_ne _ hc] at h
        exact h
  | @other who t rest new todo about hnew world phase pendingFuncs todo' =>
    refine hidle new world ?_ fun μ => ?_
    · intro x hx t hab
      rcases hnew x hx c with hnone | ⟨rfl, -⟩
      · rw [hnone] at hab
        cases hab
      · rw [Task.about_conn] at hab
        cases hab
        exact ⟨rfl, nofun⟩
    · have h := total_use (c := c) (μ := μ) todo todo' fun i => backlog_eq (phase i) (pendingFuncs i)
      rwa [Task.weight, about c] at h
  | queue todo hnew world loops todo' =>
    refine hidle [] (hsame world) (fun x hx => (List.not_mem_nil hx).elim) fun μ => ?_
    exact total_queue todo hnew loops todo'
  | @call who call inUserCode knows world loops todo' =>
    refine hidle [call.task who] (hsame world) ?_ fun μ => ?_
    · intro x hx t hab
      rw [List.mem_singleton.mp hx] at hab
      cases call
      all_goals simp [UserCall.task, Task.about] at hab
      all_goals
        obtain ⟨-, rfl⟩ := hab
        exact ⟨rfl, nofun⟩
    · obtain ⟨hwho, hother⟩ := tasks_exchange todo' fun i => by rw [loops]
      exact Tokens.total_front hother hwho
  | @next loop l calls todo hnext world loops todo' =>
    refine hidle [] (hsame world) (fun x hx => (List.not_mem_nil hx).elim) fun μ => ?_
    unfold System.total
    rw [tasks_next todo hnext loops todo']
    rfl
  | @poll loop active todo phase reports world loops todo' =>
    refine hidle (active.map (·.task loop)) (hsame world) ?_ fun μ => ?_
    · intro x hx t hab
      obtain ⟨a, ha, rfl⟩ := List.mem_map.mp hx
      have hreport := reports a ha
      cases a
      all_goals simp [ActiveChannel.task, Task.about] at hab
      obtain ⟨rfl, rfl⟩ := hab
      refine ⟨rfl, fun revents h => ⟨loop, ?_⟩⟩
      cases h
      exact hreport
    · obtain ⟨hloop, hother⟩ := tasks_poll todo phase loops todo'
      exact Tokens.total_front hother hloop
  | time world loops todo' =>
    refine hidle [] world (fun x hx => (List.not_mem_nil hx).elim) fun μ => ?_
    exact total_same todo' loops
  | @destroy c' alive refers conns alive' pollers channels epoll server log loops todo' =>
    refine .idle (by rw [conns]) (by rw [server]) ?_ (by rw [server]) (by rw [World.seen, log]; rfl)
      ⟨[], fun t ht => (List.not_mem_nil ht).elim, nofun, fun μ => total_same todo' loops⟩
    rw [alive']
    by_cases hc : c = c'
    · subst hc
      rw [Function.update_self]
      intro hfalse
      cases hfalse
    · rw [Function.update_of_ne hc]
      exact id

theorem step_conn_eq_ok {t : ConnTask ι} {rest : List (Task ι)}
    (htodo : σ.todo who = .conn c t :: rest) (h : σ.step (.run who k) = .ok σ') :
    σ.world.alive c = true ∧ ∃ w new, performConn who k σ.world c t = .ok (w, new) ∧
      σ' = { σ with world := w, todo := Function.update σ.todo who (new ++ rest) } := by
  cases step_cases h with
  | perform todo result =>
    obtain ⟨rfl, rfl⟩ := List.cons.inj (htodo.symm.trans todo)
    cases perform_cases result with
    | conn alive result => exact ⟨alive, _, _, result, rfl⟩
  | queueInLoop todo => cases htodo.symm.trans todo
  | wakeup todo => cases htodo.symm.trans todo
  | quit todo => cases htodo.symm.trans todo
  | wakeupRead todo read => cases htodo.symm.trans todo

theorem step_own {label : Label ι} {t : ConnTask ι} (h : σ.step label = .ok σ')
    (hperforms : σ.performs label = some (c, t, k)) :
    ∃ who new events, label = .run who k ∧ σ.world.alive c = true ∧
      ConnStep who k σ.world.server.threadPool.baseLoop c (σ.world.link c) t (σ'.world.link c)
        events new ∧
      σ'.world.server.connId = σ.world.server.connId ∧
      σ'.world.seen c = σ.world.seen c ++ events ∧
      ∀ μ, σ'.total c μ + μ t = σ.total c μ + (new.map (Task.weight c μ)).sum := by
  obtain ⟨who, rest, rfl, htodo⟩ := performs_eq_some hperforms
  obtain ⟨halive, w, new, hperform, rfl⟩ := step_conn_eq_ok htodo h
  obtain ⟨events, hstep, hframed⟩ := performConn_spec hperform
  refine ⟨who, new, events, rfl, halive, hstep, hframed.connId, ?_, fun μ => ?_⟩
  · rw [seen_append hframed.log, if_pos rfl]
  · rw [← weight_conn (c := c) (μ := μ) t]
    exact total_use htodo rfl fun _ => rfl

end

end VServer
