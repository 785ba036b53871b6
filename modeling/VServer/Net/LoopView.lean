import VServer.Net.PendingFunctors
import VServer.Net.TimerTasks

/-!
# A loop of the server

What `Net.LoopThreads` says about one loop and the threads that call it holds of each loop of the
server: a run of the server, seen from one of its loops, is a run of `LoopThreads` (`step_viewed`), in
which a task of the server is a functor and `wakeupRead` is the read of the eventfd. So a loop calls
what was queued in it in order and does not sleep over its queue, whatever the connections, the timers
and the other loops do (`queue_served`).
-/

namespace VServer

/-! ## The same loop with other functors -/

section

variable {τ τ' : Type} (f : τ → τ')

def Phase.map : Phase τ → Phase τ'
  | .ready => .ready
  | .test => .test
  | .wait => .wait
  | .events active => .events (active.map f)
  | .swap => .swap
  | .functors funcs => .functors (funcs.map f)
  | .ended => .ended

variable {f} in
theorem Phase.map_eq_ready {phase : Phase τ} (h : phase.map f = .ready) : phase = .ready := by
  cases phase with
  | ready => rfl
  | _ => cases h

variable {f} in
theorem Phase.map_eq_functors {phase : Phase τ} {funcs : List τ'} (h : phase.map f = .functors funcs) :
    ∃ funcs, phase = .functors funcs := by
  cases phase with
  | functors funcs => exact ⟨funcs, rfl⟩
  | _ => cases h

namespace EventLoop

variable (l : EventLoop τ)

def map : EventLoop τ' := ⟨l.phase.map f, l.quit, l.pendingFuncs.map f, l.callingPendingFuncs, l.wakeups⟩

/-- What is left of the batch that `doPendingFunctors` is running. -/
def batch : List τ :=
  match l.phase with
  | .functors funcs => funcs
  | _ => []

theorem map_next : (l.map f).next = l.next.map fun r => (r.1.map f, r.2.map f) := by
  obtain ⟨phase, quit, pending, calling, wakeups⟩ := l
  cases phase with
  | events active => cases active <;> cases pending <;> rfl
  | functors funcs => cases funcs <;> rfl
  | test => cases quit <;> rfl
  | _ => rfl

theorem map_isOutside : (l.map f).isOutside = l.isOutside := by
  obtain ⟨phase, quit, pending, calling, wakeups⟩ := l
  cases phase <;> rfl

theorem map_push (x : τ) : (l.push x).map f = (l.map f).push (f x) := by
  simp [map, push]

end EventLoop

end

/-! ## What lies where -/

variable {ι : Type}

def Task.isInner : Task ι → Bool
  | .wakeup _ | .wakeupRead _ => false
  | .queueInLoop _ f => f.isInner
  | _ => true

/-- The task as `LoopThreads` sees it. -/
def Task.toCall : Task ι → LoopCall (Task ι)
  | .wakeupRead _ => .handleRead
  | t => .func t

theorem toCall_inner {x : Task ι} (h : x.isInner = true) : x.toCall = .func x := by
  cases x with
  | wakeupRead loop => cases h
  | _ => rfl

theorem map_toCall {l : List (Task ι)} (h : ∀ x ∈ l, x.isInner = true) :
    l.map Task.toCall = l.map .func :=
  List.map_congr_left fun x hx => toCall_inner (h x hx)

/-- The write to an eventfd is on top of its stack, and the read of one is alone on it. -/
def StackShape (i : ι) (stack : List (Task ι)) : Prop :=
  stack = [.wakeupRead i] ∨ (∀ x ∈ stack, x.isInner = true) ∨
    ∃ loop rest, stack = .wakeup loop :: rest ∧ ∀ x ∈ rest, x.isInner = true

/-- The read of its eventfd is called from the active channels of a loop only. -/
structure LoopShape (i : ι) (l : EventLoop (Task ι)) : Prop where
  queue : ∀ x ∈ l.pendingFuncs, x.isInner = true
  functors : ∀ x ∈ l.batch, x.isInner = true
  events : ∀ active, l.phase = .events active → ∀ x ∈ active, x.isInner = true ∨ x = .wakeupRead i

structure Shape (σ : System ι) : Prop where
  stack : ∀ i, StackShape i (σ.todo i)
  loops : ∀ i, LoopShape i (σ.loops i)

section

variable [DecidableEq ι] {who : ι} {k : Kernel} {base : ι} {c : Nat} {l l' : Link ι} {t : ConnTask ι}
  {events : List (ConnEvent ι)} {new : List (Task ι)}

theorem inner_runInLoop {loop : ι} {f : Task ι} (h : f.isInner = true) :
    (runInLoop who loop f).isInner = true := by
  unfold runInLoop
  split_ifs
  · exact h
  · exact h

theorem ConnStep.inner (h : ConnStep who k base c l t l' events new) : ∀ x ∈ new, x.isInner = true := by
  cases h with
  | handleEvent revents =>
    intro x hx
    obtain ⟨t, -, rfl⟩ := List.mem_map.mp hx
    rfl
  | writeCallback hnew => exact forall_mem_of_either hnew.symm (by simp [Task.isInner])
  | updateTimer hnew =>
    refine forall_mem_of_either hnew ?_
    exact List.forall_mem_cons.mpr ⟨inner_runInLoop rfl, by simp [Task.isInner]⟩
  | delayedClose hnew => exact forall_mem_of_either hnew (by simp [Task.isInner])
  | runForceCloseAfter timer =>
    exact List.forall_mem_cons.mpr ⟨inner_runInLoop rfl, by simp [Task.isInner]⟩
  | send connected => exact List.forall_mem_singleton.mpr (inner_runInLoop rfl)
  | shutdown connected =>
    exact List.forall_mem_cons.mpr ⟨rfl, List.forall_mem_singleton.mpr (inner_runInLoop rfl)⟩
  | removeConnection => exact List.forall_mem_singleton.mpr (inner_runInLoop rfl)
  | _ => simp [Task.isInner]

theorem perform_inner {t : Task ι} {w w' : World ι} (h : VServer.perform who k w t = .ok (w', new)) :
    t.isInner = true ∧ ∀ x ∈ new, x.isInner = true := by
  cases perform_cases h with
  | conn alive result =>
    obtain ⟨events, hstep, -⟩ := performConn_spec result
    exact ⟨rfl, hstep.inner⟩
  | timerRead read =>
    refine ⟨rfl, fun x hx => ?_⟩
    obtain ⟨timer, -, rfl⟩ := List.mem_map.mp hx
    rfl
  | userTimer => simp [Task.isInner]
  | closeTimer =>
    split_ifs
    · simp [Task.isInner]
    · exact ⟨rfl, nofun⟩
  | runAfter cb => exact ⟨rfl, List.forall_mem_singleton.mpr (inner_runInLoop rfl)⟩
  | addTimerInloop => exact ⟨rfl, nofun⟩
  | cancelInloop cancel => exact ⟨rfl, nofun⟩
  | acceptorRead accept result =>
    obtain ⟨loop, -, rfl⟩ := newConnection_born result
    exact ⟨rfl, List.forall_mem_singleton.mpr (inner_runInLoop rfl)⟩

theorem inner_call (call : UserCall ι) : (call.task who).isInner = true := by
  cases call with
  | runInLoop loop => exact inner_runInLoop rfl
  | cancel loop id => exact inner_runInLoop rfl
  | _ => rfl

omit [DecidableEq ι] in
theorem inner_active (i : ι) (a : ActiveChannel) :
    (a.task i : Task ι).isInner = true ∨ a.task i = .wakeupRead i := by
  cases a with
  | wakeup => exact .inr rfl
  | _ => exact .inl rfl

end

theorem LoopShape.of_same {i : ι} {l l' : EventLoop (Task ι)} (h : LoopShape i l)
    (hphase : l'.phase = l.phase) (hpending : l'.pendingFuncs = l.pendingFuncs) : LoopShape i l' := by
  obtain ⟨hqueue, hfunctors, hevents⟩ := h
  refine ⟨by rwa [hpending], ?_, by rwa [hphase]⟩
  unfold EventLoop.batch at hfunctors ⊢
  rwa [hphase]

theorem LoopShape.push {i : ι} {l : EventLoop (Task ι)} (h : LoopShape i l) {f : Task ι}
    (hf : f.isInner = true) : LoopShape i (l.push f) := by
  refine ⟨fun x hx => ?_, h.functors, h.events⟩
  rcases List.mem_append.mp hx with hx | hx
  · exact h.queue x hx
  · rwa [List.mem_singleton.mp hx]

theorem LoopShape.next {i : ι} {l l' : EventLoop (Task ι)} {calls : List (Task ι)} (h : LoopShape i l)
    (hnext : l.NextStep l' calls) :
    LoopShape i l' ∧ (calls = [.wakeupRead i] ∨ ∀ x ∈ calls, x.isInner = true) := by
  obtain ⟨hqueue, hfunctors, hevents⟩ := h
  cases hnext with
  | @handle call active phase =>
    have hcall := hevents _ phase
    refine ⟨⟨hqueue, nofun, ?_⟩, ?_⟩
    · rintro active' ⟨⟩ x hx
      exact hcall x (List.mem_cons_of_mem _ hx)
    · rcases hcall call List.mem_cons_self with hinner | rfl
      · exact .inr (List.forall_mem_singleton.mpr hinner)
      · exact .inl rfl
  | @functor f funcs phase =>
    rw [EventLoop.batch, phase] at hfunctors
    refine ⟨⟨hqueue, fun x hx => hfunctors x (List.mem_cons_of_mem _ hx), nofun⟩, .inr ?_⟩
    exact List.forall_mem_singleton.mpr (hfunctors f List.mem_cons_self)
  | swap phase => exact ⟨⟨nofun, hqueue, nofun⟩, .inr nofun⟩
  | done phase => exact ⟨⟨hqueue, nofun, nofun⟩, .inr nofun⟩
  | _ => exact ⟨⟨hqueue, nofun, nofun⟩, .inr nofun⟩

namespace Shape

variable {σ σ' : System ι}

/-- Below the task on top are tasks of the server, and so is that one, unless it is about an eventfd. -/
theorem rest (h : Shape σ) {who : ι} {t : Task ι} {rest : List (Task ι)} (htodo : σ.todo who = t :: rest) :
    (∀ x ∈ rest, x.isInner = true) ∧
      (t.isInner = true ∨ (∃ loop, t = .wakeup loop) ∨ t = .wakeupRead who ∧ rest = []) := by
  rcases h.stack who with hread | hinner | ⟨loop, rest', hwakeup, hrest⟩
  · rw [htodo] at hread
    cases hread
    exact ⟨nofun, .inr (.inr ⟨rfl, rfl⟩)⟩
  · rw [htodo] at hinner
    exact ⟨fun x hx => hinner x (List.mem_cons_of_mem _ hx), .inl (hinner t List.mem_cons_self)⟩
  · rw [htodo] at hwakeup
    cases hwakeup
    exact ⟨hrest, .inr (.inl ⟨loop, rfl⟩)⟩

variable [DecidableEq ι]

theorem stack_update (h : Shape σ) {who : ι} {stack : List (Task ι)} (hstack : StackShape who stack) :
    ∀ i, StackShape i (Function.update σ.todo who stack i) :=
  (Function.forall_update_iff _ _).mpr ⟨hstack, fun i _ => h.stack i⟩

theorem loops_update (h : Shape σ) {loop : ι} {l : EventLoop (Task ι)} (hl : LoopShape loop l) :
    ∀ i, LoopShape i (Function.update σ.loops loop l i) :=
  (Function.forall_update_iff _ _).mpr ⟨hl, fun i _ => h.loops i⟩

theorem step [Fintype ι] {label : Label ι} (h : Shape σ) (hstep : σ.step label = .ok σ') : Shape σ' := by
  have hinner : ∀ {who : ι} {stack : List (Task ι)}, (∀ x ∈ stack, x.isInner = true) →
      StackShape who stack := fun hstack => .inr (.inl hstack)
  cases step_cases hstep with
  | perform todo result =>
    obtain ⟨-, hnew⟩ := perform_inner result
    exact ⟨h.stack_update (hinner (List.forall_mem_append.mpr ⟨hnew, (h.rest todo).1⟩)), h.loops⟩
  | @queueInLoop who loop k f rest todo =>
    obtain ⟨hrest, hf | ⟨loop', hwakeup⟩ | ⟨hread, -⟩⟩ := h.rest todo
    · refine ⟨h.stack_update ?_, h.loops_update ((h.loops loop).push hf)⟩
      split_ifs
      · exact .inr (.inr ⟨loop, rest, rfl, hrest⟩)
      · exact hinner hrest
    · cases hwakeup
    · cases hread
  | @wakeup who loop k rest todo =>
    exact ⟨h.stack_update (hinner (h.rest todo).1), h.loops_update ((h.loops loop).of_same rfl rfl)⟩
  | @quit who loop k rest todo =>
    exact ⟨h.stack_update (hinner (h.rest todo).1), h.loops_update ((h.loops loop).of_same rfl rfl)⟩
  | @wakeupRead who loop k l rest todo read =>
    obtain ⟨-, rfl⟩ := EventLoop.handleRead_eq_ok read
    exact ⟨h.stack_update (hinner (h.rest todo).1), h.loops_update ((h.loops loop).of_same rfl rfl)⟩
  | @call who call inUserCode knows =>
    refine ⟨h.stack_update (hinner ?_), h.loops⟩
    refine List.forall_mem_cons.mpr ⟨inner_call call, ?_⟩
    unfold System.inUserCode at inUserCode
    split at inUserCode
    · rename_i rest htodo
      rw [htodo]
      exact List.forall_mem_cons.mpr ⟨rfl, (h.rest htodo).1⟩
    · rename_i htodo
      rw [htodo]
      nofun
    · cases inUserCode
  | ret todo => exact ⟨h.stack_update (hinner (h.rest todo).1), h.loops⟩
  | @next loop l calls isLoop todo hnext =>
    obtain ⟨hloop, hcalls⟩ := (h.loops loop).next (EventLoop.next_step hnext)
    exact ⟨h.stack_update (hcalls.imp id .inl), h.loops_update hloop⟩
  | @poll loop active todo phase nodup reports =>
    refine ⟨h.stack, h.loops_update ⟨(h.loops loop).queue, nofun, ?_⟩⟩
    rintro active' ⟨⟩ x hx
    obtain ⟨a, -, rfl⟩ := List.mem_map.mp hx
    exact inner_active loop a
  | _ => exact ⟨h.stack, h.loops⟩

theorem start (baseLoop : ι) (ioLoops : List ι) (delay clock : Nat) (count : UInt64) :
    Shape (System.start baseLoop ioLoops delay clock count) :=
  ⟨fun _ => .inr (.inl nofun), fun _ => ⟨nofun, nofun, nofun⟩⟩

end Shape

/-! ## The view from one loop -/

open Machine

variable [DecidableEq ι]

/-- What is observed of a loop. -/
inductive LoopEvent (ι : Type) where
  /-- A thread has pushed the functor. -/
  | queued (f : Task ι)
  /-- `doPendingFunctors` has called it. -/
  | called (f : Task ι)

def LoopEvent.queued? : LoopEvent ι → Option (Task ι)
  | .queued f => some f
  | .called _ => none

def LoopEvent.called? : LoopEvent ι → Option (Task ι)
  | .queued _ => none
  | .called f => some f

def observed (i : ι) (σ : System ι) : Label ι → List (LoopEvent ι)
  | .run who _ =>
    match σ.todo who with
    | .queueInLoop loop f :: _ => if loop = i then [.queued f] else []
    | _ => []
  | .next loop =>
    match (σ.loops loop).phase with
    | .functors (f :: _) => if loop = i then [.called f] else []
    | _ => []
  | _ => []

/-- The thread of loop `i` queues nothing in it before it enters `loop()`. -/
def QueuesLate (i : ι) (σ : System ι) : Label ι → Prop
  | .run who _ =>
    match σ.todo who, (σ.loops i).phase with
    | .queueInLoop loop _ :: _, .ready => loop = i → who ≠ i
    | _, _ => True
  | _ => True

/-- Where the threads are, as loop `i` sees it. A functor may be taken for one that has not returned. -/
structure Stands (i : ι) (todo : ι → List (Task ι)) (s : LoopThreads ι (Task ι)) : Prop where
  waking : ∀ who, s.waking who = true ↔ ∃ rest, todo who = .wakeup i :: rest
  inside : todo i = [.wakeupRead i] ∧ s.inside = some .handleRead ∨
    todo i ≠ [.wakeupRead i] ∧ (s.inUserCode = true ∨ todo i = [] ∧ s.inside = none)

/-- Loop `i` of the server, and the loop of a run of `LoopThreads`. -/
structure Viewed (i : ι) (σ : System ι) (history : List (LoopEvent ι)) (s : LoopThreads ι (Task ι)) :
    Prop where
  loop : s.loop = (σ.loops i).map Task.toCall
  stands : Stands i σ.todo s
  queued : s.queued.map Prod.fst = (history.filterMap LoopEvent.queued?).map .func
  executed : s.executed.map Prod.fst = (history.filterMap LoopEvent.called?).map .func

namespace Stands

variable {i who : ι} {todo : ι → List (Task ι)} {s s' : LoopThreads ι (Task ι)} {stack : List (Task ι)}

omit [DecidableEq ι] in
theorem not_waking (h : Stands i todo s) (hne : ∀ rest, todo who ≠ .wakeup i :: rest) :
    s.waking who = false := by
  by_contra hwaking
  obtain ⟨rest, hrest⟩ := (h.waking who).mp (eq_true_of_ne_false hwaking)
  exact hne rest hrest

omit [DecidableEq ι] in
/-- The thread of the loop is in a functor or outside, when it has anything else to do than to read the
eventfd. -/
theorem user (h : Stands i todo s) (hne : todo i ≠ []) (hread : todo i ≠ [.wakeupRead i]) :
    s.inUserCode = true := by
  rcases h.inside with ⟨hreads, -⟩ | ⟨-, huser | ⟨hnil, -⟩⟩
  · exact absurd hreads hread
  · exact huser
  · exact absurd hnil hne

theorem update (h : Stands i todo s) {wakes : Bool} (hwaking : s'.waking = Function.update s.waking who wakes)
    (hwakes : wakes = true ↔ ∃ rest, stack = .wakeup i :: rest)
    (hinside : s'.inside = s.inside) (huserCode : s'.inUserCode = s.inUserCode)
    (huser : who = i → s.inUserCode = true ∧ stack ≠ [.wakeupRead i]) :
    Stands i (Function.update todo who stack) s' := by
  refine ⟨fun j => ?_, ?_⟩
  · rw [hwaking]
    by_cases hj : j = who
    · rw [hj, Function.update_self, Function.update_self, hwakes]
    · rw [Function.update_of_ne hj, Function.update_of_ne hj]
      exact h.waking j
  · rw [hinside, huserCode]
    by_cases hi : i = who
    · obtain ⟨huser, hstack⟩ := huser hi.symm
      rw [hi, Function.update_self, ← hi]
      exact .inr ⟨hstack, .inl huser⟩
    · rw [Function.update_of_ne hi]
      exact h.inside

theorem exchange (h : Stands i todo s) (hnot : s.waking who = false)
    (hstack : (¬∃ rest, stack = .wakeup i :: rest) ∧ stack ≠ [.wakeupRead i])
    (huser : who = i → s.inUserCode = true) : Stands i (Function.update todo who stack) s := by
  have hwaking : s.waking = Function.update s.waking who false := by
    rw [← hnot, Function.update_eq_self]
  exact h.update hwaking (by simp [hstack.1]) rfl rfl fun hwho => ⟨huser hwho, hstack.2⟩

end Stands

omit [DecidableEq ι] in
theorem inner_stack {stack : List (Task ι)} (h : ∀ x ∈ stack, x.isInner = true) (i : ι) :
    (¬∃ rest, stack = .wakeup i :: rest) ∧ stack ≠ [.wakeupRead i] := by
  refine ⟨?_, ?_⟩
  · rintro ⟨rest, rfl⟩
    cases h _ List.mem_cons_self
  · rintro rfl
    cases h _ List.mem_cons_self

def Tracks (i : ι) (σ σ' : System ι) (label : Label ι) (history : List (LoopEvent ι))
    (s : LoopThreads ι (Task ι)) : Prop :=
  ∃ labels s', run (LoopThreads.step i) s labels = .ok s' ∧
    Viewed i σ' (history ++ observed i σ label) s' ∧
    (QueuesLate i σ label → Along (LoopThreads.step i) (LoopThreads.QueuesInside i) s labels)

section

variable {i who loop : ι} {σ σ' : System ι} {label : Label ι} {history : List (LoopEvent ι)}
  {s s' : LoopThreads ι (Task ι)} {k : Kernel} {t f : Task ι} {rest stack : List (Task ι)}

theorem observed_run (htodo : σ.todo who = t :: rest) (hne : ∀ f, t ≠ .queueInLoop i f) :
    observed i σ (.run who k) = [] := by
  unfold observed
  dsimp only
  rw [htodo]
  split
  · rename_i loop f _ heq
    cases heq
    refine if_neg ?_
    rintro rfl
    exact hne f rfl
  · rfl

theorem Viewed.quiet (h : Viewed i σ history s) (hloops : σ'.loops i = σ.loops i)
    (hstands : Stands i σ'.todo s) (hobserved : observed i σ label = []) : Tracks i σ σ' label history s := by
  refine ⟨[], s, rfl, ?_, fun _ => trivial⟩
  rw [hobserved, List.append_nil]
  exact ⟨by rw [h.loop, hloops], hstands, h.queued, h.executed⟩

theorem Viewed.one (h : Viewed i σ history s) {l : LoopThreads.Label ι (Task ι)}
    (hstep : LoopThreads.step i s l = .ok s') (hloop : s'.loop = (σ'.loops i).map Task.toCall)
    (hstands : Stands i σ'.todo s') (hqueued : s'.queued = s.queued) (hexecuted : s'.executed = s.executed)
    (hobserved : observed i σ label = []) (hquiet : LoopThreads.QueuesInside i s l) :
    Tracks i σ σ' label history s := by
  refine ⟨[l], s', by rw [run_cons_ok hstep, run_nil], ?_, fun _ => ⟨hquiet, fun _ _ => trivial⟩⟩
  rw [hobserved, List.append_nil]
  exact ⟨hloop, hstands, by rw [hqueued, h.queued], by rw [hexecuted, h.executed]⟩

theorem Viewed.queueInLoop (h : Viewed i σ history s) (hshape : Shape σ)
    (htodo : σ.todo who = .queueInLoop loop f :: rest)
    (hloops : σ'.loops = Function.update σ.loops loop ((σ.loops loop).push f))
    (htodo' : σ'.todo = Function.update σ.todo who
      ((if ((σ.loops loop).push f).wantsWakeup (who = loop) then [.wakeup loop] else []) ++ rest)) :
    Tracks i σ σ' (.run who k) history s := by
  obtain ⟨hrest, hf | ⟨loop', hwakeup⟩ | ⟨hread, -⟩⟩ := hshape.rest htodo
  · have hnot : s.waking who = false := h.stands.not_waking fun rest' heq => by
      rw [htodo] at heq
      cases heq
    have huser : who = i → s.inUserCode = true := by
      rintro rfl
      exact h.stands.user (by simp [htodo]) (by simp [htodo])
    obtain ⟨hnowake, hnoread⟩ := inner_stack hrest i
    by_cases hloop : loop = i
    · subst hloop
      have hwants : s.loop.wantsWakeup (who = loop) = ((σ.loops loop).push f).wantsWakeup (who = loop) := by
        rw [h.loop]
        rfl
      have hstep : LoopThreads.step loop s (.queueInLoop who f) = .ok { s with
          loop := s.loop.push (.func f)
          waking := Function.update s.waking who (s.loop.wantsWakeup (who = loop))
          queued := s.queued ++ [(.func f, s.batches)] } := if_pos ⟨hnot, huser⟩
      have hobserved : observed loop σ (.run who k) = [.queued f] := by
        unfold observed
        dsimp only
        rw [htodo]
        exact if_pos rfl
      refine ⟨[.queueInLoop who f], _, by rw [run_cons_ok hstep, run_nil], ⟨?_, ?_, ?_, ?_⟩, fun hquiet => ?_⟩
      · have hfunc : f.toCall = .func f := toCall_inner hf
        rw [hloops, Function.update_self, EventLoop.map_push, hfunc, h.loop]
      · rw [htodo', ← hwants]
        refine h.stands.update rfl ?_ rfl rfl fun hwho => ⟨huser hwho, ?_⟩
        · split_ifs with hwake
          · simp [hwake]
          · simpa [hwake] using hnowake
        · split_ifs
          · simp
          · simpa using hnoread
      · dsimp only
        rw [hobserved, List.map_append, h.queued, List.filterMap_append, List.map_append]
        rfl
      · rw [hobserved, List.filterMap_append, List.map_append, ← h.executed]
        exact (List.append_nil _).symm
      · refine ⟨?_, fun _ _ => trivial⟩
        unfold LoopThreads.QueuesInside
        dsimp only
        split
        · rename_i hphase
          unfold QueuesLate at hquiet
          dsimp only at hquiet
          have hready : (σ.loops loop).phase = .ready := by
            rw [h.loop] at hphase
            exact Phase.map_eq_ready hphase
          rw [htodo, hready] at hquiet
          exact hquiet rfl
        · trivial
    · refine h.quiet ?_ ?_ ?_
      · rw [hloops, Function.update_of_ne (Ne.symm hloop)]
      · rw [htodo']
        refine h.stands.exchange hnot ⟨?_, ?_⟩ huser
        · split_ifs
          · simp [hloop]
          · simpa using hnowake
        · split_ifs
          · simp
          · simpa using hnoread
      · refine observed_run htodo fun f' heq => hloop ?_
        cases heq
        rfl
  · cases hwakeup
  · cases hread

theorem Viewed.wakeup (h : Viewed i σ history s) (hshape : Shape σ) (htodo : σ.todo who = .wakeup loop :: rest)
    (hloops : σ'.loops = Function.update σ.loops loop (σ.loops loop).wakeup)
    (htodo' : σ'.todo = Function.update σ.todo who rest) : Tracks i σ σ' (.run who k) history s := by
  have hrest := inner_stack (hshape.rest htodo).1 i
  have hobserved : observed i σ (.run who k) = [] := observed_run htodo nofun
  have huser : who = i → s.inUserCode = true := by
    rintro rfl
    exact h.stands.user (by simp [htodo]) (by simp [htodo])
  by_cases hloop : loop = i
  · subst hloop
    have hwaking : s.waking who = true := (h.stands.waking who).mpr ⟨rest, htodo⟩
    have hstep : LoopThreads.step loop s (.wakeup who) = .ok { s with
        loop := s.loop.wakeup, waking := Function.update s.waking who false } := if_pos hwaking
    refine h.one hstep ?_ ?_ rfl rfl hobserved trivial
    · rw [hloops, Function.update_self, h.loop]
      rfl
    · rw [htodo']
      exact h.stands.update rfl (by simp [hrest.1]) rfl rfl fun hwho => ⟨huser hwho, hrest.2⟩
  · refine h.quiet ?_ ?_ hobserved
    · rw [hloops, Function.update_of_ne (Ne.symm hloop)]
    · rw [htodo']
      refine h.stands.exchange (h.stands.not_waking fun rest' heq => ?_) hrest huser
      rw [htodo] at heq
      cases heq
      exact hloop rfl

theorem Viewed.quit (h : Viewed i σ history s) (hshape : Shape σ) (htodo : σ.todo who = .quit loop :: rest)
    (hloops : σ'.loops = Function.update σ.loops loop { σ.loops loop with quit := true })
    (htodo' : σ'.todo = Function.update σ.todo who rest) : Tracks i σ σ' (.run who k) history s := by
  have hrest := inner_stack (hshape.rest htodo).1 i
  have hobserved : observed i σ (.run who k) = [] := observed_run htodo nofun
  have hnot : s.waking who = false := h.stands.not_waking fun rest' heq => by
    rw [htodo] at heq
    cases heq
  have huser : who = i → s.inUserCode = true := by
    rintro rfl
    exact h.stands.user (by simp [htodo]) (by simp [htodo])
  have hstands := h.stands.exchange hnot hrest huser
  by_cases hloop : loop = i
  · subst hloop
    have hstep : LoopThreads.step loop s (.quit who) =
        .ok { s with loop := { s.loop with quit := true } } := if_pos ⟨hnot, huser⟩
    refine h.one hstep ?_ ?_ rfl rfl hobserved trivial
    · rw [hloops, Function.update_self, h.loop]
      rfl
    · rw [htodo']
      exact ⟨hstands.waking, hstands.inside⟩
  · refine h.quiet ?_ (htodo' ▸ hstands) hobserved
    rw [hloops, Function.update_of_ne (Ne.symm hloop)]

theorem Viewed.wakeupRead {l : EventLoop (Task ι)} (h : Viewed i σ history s) (hshape : Shape σ)
    (htodo : σ.todo who = .wakeupRead loop :: rest) (hread : (σ.loops loop).handleRead = .ok l)
    (hloops : σ'.loops = Function.update σ.loops loop l)
    (htodo' : σ'.todo = Function.update σ.todo who rest) : Tracks i σ σ' (.run who k) history s := by
  have hobserved : observed i σ (.run who k) = [] := observed_run htodo nofun
  have hnot : s.waking who = false := h.stands.not_waking fun rest' heq => by
    rw [htodo] at heq
    cases heq
  obtain ⟨-, hinner | ⟨loop', hwakeup⟩ | ⟨hown, rfl⟩⟩ := hshape.rest htodo
  · cases hinner
  · cases hwakeup
  obtain rfl : loop = who := by
    cases hown
    rfl
  by_cases hloop : loop = i
  · subst hloop
    obtain ⟨hwakeups, rfl⟩ := EventLoop.handleRead_eq_ok hread
    obtain ⟨-, hinside⟩ := h.stands.inside.resolve_right fun hother => hother.1 htodo
    have hstep : LoopThreads.step loop s .ret =
        .ok { s with loop := { s.loop with wakeups := 0 }, inside := none } := by
      unfold LoopThreads.step
      simp only [hinside]
      rw [EventLoop.handleRead, if_neg (by rw [h.loop]; exact hwakeups)]
    refine h.one hstep ?_ ?_ rfl rfl hobserved trivial
    · rw [hloops, Function.update_self, h.loop]
      rfl
    · rw [htodo']
      refine ⟨fun j => ?_, .inr ⟨by simp, .inr ⟨by simp, rfl⟩⟩⟩
      by_cases hj : j = loop
      · simp [hj, hnot]
      · simp [hj, h.stands.waking j]
  · refine h.quiet ?_ ?_ hobserved
    · rw [hloops, Function.update_of_ne (Ne.symm hloop)]
    · rw [htodo']
      exact h.stands.exchange hnot (by simp) fun heq => absurd heq hloop

theorem Viewed.returned (h : Viewed i σ history s) (htodo : σ.todo i = []) :
    ∃ labels, run (LoopThreads.step i) s labels = .ok { s with inside := none } ∧ ∀ l ∈ labels, l = .ret := by
  have hnot : s.waking i = false := h.stands.not_waking fun rest heq => by
    rw [htodo] at heq
    cases heq
  obtain ⟨-, huser | ⟨-, hnone⟩⟩ := h.stands.inside.resolve_left fun hread => by
    rw [htodo] at hread
    cases hread.1
  · unfold LoopThreads.inUserCode at huser
    split at huser
    · rename_i f hinside
      have hstep : LoopThreads.step i s .ret = .ok { s with inside := none } := by
        unfold LoopThreads.step
        simp only [hinside]
        exact if_pos hnot
      exact ⟨[.ret], by rw [run_cons_ok hstep, run_nil], by simp⟩
    · cases huser
    · rename_i hinside
      exact ⟨[], by rw [← hinside]; rfl, by simp⟩
  · exact ⟨[], by rw [← hnone]; rfl, by simp⟩

theorem step_next {τ : Type} {s : LoopThreads ι τ} {l : EventLoop (LoopCall τ)} {calls : List (LoopCall τ)}
    (hinside : s.inside = none) (hwaking : s.waking i = false) (hnext : s.loop.next = some (l, calls)) :
    ∃ s', LoopThreads.step i s .next = .ok s' ∧ s'.loop = l ∧ s'.inside = calls.head? ∧
      s'.waking = s.waking ∧ s'.queued = s.queued ∧
      ((∃ funcs, s.loop.phase = .functors funcs) ∧ s'.executed = s.executed ++ calls.map (·, s.batches) ∨
        (∀ funcs, s.loop.phase ≠ .functors funcs) ∧ s'.executed = s.executed) := by
  unfold LoopThreads.step
  simp only [hinside, hnext]
  rw [if_pos hwaking]
  refine ⟨_, rfl, rfl, rfl, rfl, rfl, ?_⟩
  dsimp only
  split
  · rename_i funcs hphase
    exact .inl ⟨⟨funcs, hphase⟩, rfl⟩
  · rename_i hother
    exact .inr ⟨hother, rfl⟩

theorem Viewed.next {l : EventLoop (Task ι)} {calls : List (Task ι)} (h : Viewed i σ history s)
    (hshape : Shape σ) (htodo : σ.todo loop = []) (hnext : (σ.loops loop).next = some (l, calls))
    (hloops : σ'.loops = Function.update σ.loops loop l)
    (htodo' : σ'.todo = Function.update σ.todo loop calls) : Tracks i σ σ' (.next loop) history s := by
  have hnextStep := EventLoop.next_step hnext
  have hcalls := ((hshape.loops loop).next hnextStep).2
  have hnot : s.waking loop = false := h.stands.not_waking fun rest heq => by
    rw [htodo] at heq
    cases heq
  have hnowake : ¬∃ rest, calls = .wakeup i :: rest := by
    rcases hcalls with rfl | hinner
    · simp
    · exact (inner_stack hinner i).1
  by_cases hloop : loop = i
  · subst hloop
    obtain ⟨labels, hreturned, hrets⟩ := h.returned htodo
    have hmapped : s.loop.next = some (l.map Task.toCall, calls.map Task.toCall) := by
      rw [h.loop, EventLoop.map_next, hnext]
      rfl
    obtain ⟨s', hstep, hl, hinside, hwaking, hqueued, hexecuted⟩ :=
      @step_next ι _ loop _ { s with inside := none } _ _ rfl hnot hmapped
    refine ⟨labels ++ [.next], s', by rw [run_append_ok hreturned, run_cons_ok hstep, run_nil],
      ⟨?_, ?_, ?_, ?_⟩, fun _ => ?_⟩
    · rw [hl, hloops, Function.update_self]
    · rw [htodo']
      refine ⟨fun j => ?_, ?_⟩
      · rw [hwaking]
        by_cases hj : j = loop
        · rw [hj, Function.update_self]
          exact ⟨fun hwaking => absurd (hnot.symm.trans hwaking) (by decide), fun hex => absurd hex hnowake⟩
        · rw [Function.update_of_ne hj]
          exact h.stands.waking j
      · rw [Function.update_self]
        rcases hcalls with rfl | hinner
        · exact .inl ⟨rfl, hinside⟩
        · refine .inr ⟨(inner_stack hinner loop).2, ?_⟩
          rw [map_toCall hinner] at hinside
          cases calls with
          | nil => exact .inr ⟨rfl, hinside⟩
          | cons x calls =>
            refine .inl ?_
            unfold LoopThreads.inUserCode
            rw [hinside]
            rfl
    · have hnone : (observed loop σ (.next loop)).filterMap LoopEvent.queued? = [] := by
        unfold observed
        dsimp only
        split
        · split_ifs <;> rfl
        · rfl
      rw [hqueued, h.queued, List.filterMap_append, hnone, List.append_nil]
    · rw [List.filterMap_append, List.map_append, ← h.executed]
      rcases hexecuted with ⟨⟨funcs, hphase⟩, hexecuted⟩ | ⟨hother, hexecuted⟩
      · have hbatch : ∃ funcs, (σ.loops loop).phase = .functors funcs := by
          change s.loop.phase = _ at hphase
          rw [h.loop] at hphase
          exact Phase.map_eq_functors hphase
        rw [hexecuted, List.map_append]
        refine congrArg _ ?_
        cases hnextStep with
        | @functor f funcs phase =>
          have hf : f.isInner = true := (hshape.loops loop).functors f (by simp [EventLoop.batch, phase])
          simp [observed, phase, toCall_inner hf, LoopEvent.called?]
        | done phase => simp [observed, phase]
        | _ =>
          obtain ⟨funcs, hbatch⟩ := hbatch
          simp_all
      · have hnone : observed loop σ (.next loop) = [] := by
          unfold observed
          dsimp only
          split
          · rename_i f funcs hphase
            refine absurd ?_ (hother ((f :: funcs).map Task.toCall))
            show s.loop.phase = _
            rw [h.loop, EventLoop.map, hphase]
            rfl
          · rfl
        rw [hexecuted, hnone]
        exact (List.append_nil _).symm
    · refine along_of_mem fun s l hl => ?_
      rcases List.mem_append.mp hl with hl | hl
      · rw [hrets l hl]
        trivial
      · rw [List.mem_singleton.mp hl]
        trivial
  · refine h.quiet ?_ ?_ ?_
    · rw [hloops, Function.update_of_ne (Ne.symm hloop)]
    · rw [htodo']
      refine h.stands.exchange hnot ⟨hnowake, ?_⟩ fun heq => absurd heq hloop
      rcases hcalls with rfl | hinner
      · simpa using hloop
      · exact (inner_stack hinner i).2
    · unfold observed
      dsimp only
      split
      · exact if_neg hloop
      · rfl

theorem countP_wakeup {active : List ActiveChannel} (hnodup : (active.map (·.channel)).Nodup)
    (hreports : ∀ a ∈ active, σ.reports i a = true) :
    ((active.map (·.task i)).map Task.toCall).countP LoopCall.isHandleRead ≤
      min (σ.loops i).wakeups 1 := by
  have hcount : ((active.map (·.task i)).map (Task.toCall : Task ι → _)).countP LoopCall.isHandleRead =
      (active.map (·.channel)).count .wakeup := by
    rw [List.countP_map, List.countP_map, List.count, List.countP_map]
    refine List.countP_congr fun a _ => ?_
    cases a <;> simp [ActiveChannel.task, ActiveChannel.channel, Task.toCall, LoopCall.isHandleRead]
  rw [hcount]
  refine le_min ?_ (List.nodup_iff_count_le_one.mp hnodup _)
  rcases Nat.eq_zero_or_pos ((active.map (·.channel)).count .wakeup) with hzero | hpos
  · omega
  · obtain ⟨a, ha, hchannel⟩ := List.mem_map.mp (List.count_pos_iff.mp hpos)
    cases a with
    | wakeup =>
      have hready : 0 < (σ.loops i).wakeups := of_decide_eq_true (hreports _ ha)
      have hone := List.nodup_iff_count_le_one.mp hnodup .wakeup
      omega
    | _ => cases hchannel

theorem Viewed.poll {active : List ActiveChannel} (h : Viewed i σ history s)
    (hphase : (σ.loops loop).phase = .wait) (hnodup : (active.map (·.channel)).Nodup)
    (hreports : ∀ a ∈ active, σ.reports loop a = true)
    (hloops : σ'.loops = Function.update σ.loops loop ((σ.loops loop).poll (active.map (·.task loop))))
    (htodo' : σ'.todo = σ.todo) : Tracks i σ σ' (.poll loop active) history s := by
  by_cases hloop : loop = i
  · subst hloop
    have hwait : s.loop.phase = .wait := by
      rw [h.loop, EventLoop.map, hphase]
      rfl
    have hcount := countP_wakeup hnodup hreports
    have hstep : LoopThreads.step loop s (.poll ((active.map (·.task loop)).map Task.toCall)) =
        .ok { s with loop := s.loop.poll ((active.map (·.task loop)).map Task.toCall) } := by
      unfold LoopThreads.step
      simp only [hwait]
      refine if_pos ?_
      rw [h.loop]
      exact hcount
    refine h.one hstep ?_ ?_ rfl rfl rfl trivial
    · rw [hloops, Function.update_self, h.loop]
      rfl
    · rw [htodo']
      refine ⟨h.stands.waking, h.stands.inside.imp id fun hother => ⟨hother.1, ?_⟩⟩
      refine hother.2.imp (fun huser => ?_) id
      unfold LoopThreads.inUserCode at huser ⊢
      dsimp only
      split at huser
      · simp [*]
      · cases huser
      · rw [EventLoop.isOutside, hwait] at huser
        cases huser
  · refine h.quiet ?_ ?_ rfl
    · rw [hloops, Function.update_of_ne (Ne.symm hloop)]
    · rw [htodo']
      exact h.stands

/-- **A step of the server, seen from one loop**, is some steps of `LoopThreads`. -/
theorem step_viewed [Fintype ι] (h : Viewed i σ history s) (hshape : Shape σ)
    (hstep : σ.step label = .ok σ') : Tracks i σ σ' label history s := by
  cases step_cases hstep with
  | @perform who k t rest new w todo result =>
    obtain ⟨ht, hnew⟩ := perform_inner result
    have hne : σ.todo who ≠ [.wakeupRead i] := by
      rw [todo]
      rintro ⟨⟩
      cases ht
    have hnot : s.waking who = false := h.stands.not_waking fun rest' heq => by
      rw [todo] at heq
      cases heq
      cases ht
    refine h.quiet rfl ?_ (observed_run todo ?_)
    · have hstack := List.forall_mem_append.mpr ⟨hnew, (hshape.rest todo).1⟩
      refine h.stands.exchange hnot (inner_stack hstack i) ?_
      rintro rfl
      exact h.stands.user (by simp [todo]) hne
    · rintro f rfl
      cases result
  | queueInLoop todo => exact h.queueInLoop hshape todo rfl rfl
  | wakeup todo => exact h.wakeup hshape todo rfl rfl
  | quit todo => exact h.quit hshape todo rfl rfl
  | wakeupRead todo read => exact h.wakeupRead hshape todo read rfl rfl
  | @call who call inUserCode knows =>
    unfold System.inUserCode at inUserCode
    have hstack : (∀ x ∈ σ.todo who, x.isInner = true) ∧ (who = i → s.inUserCode = true) := by
      split at inUserCode
      · rename_i rest todo
        refine ⟨?_, ?_⟩
        · rw [todo]
          exact List.forall_mem_cons.mpr ⟨rfl, (hshape.rest todo).1⟩
        · rintro rfl
          exact h.stands.user (by simp [todo]) (by simp [todo])
      · rename_i todo
        refine ⟨by simp [todo], ?_⟩
        rintro rfl
        obtain ⟨-, huser | ⟨-, hnone⟩⟩ := h.stands.inside.resolve_left fun hread => by
          rw [todo] at hread
          cases hread.1
        · exact huser
        · unfold LoopThreads.inUserCode
          rw [hnone, h.loop]
          exact (EventLoop.map_isOutside _ _).trans inUserCode
      · cases inUserCode
    refine h.quiet rfl (h.stands.exchange ?_ (inner_stack ?_ i) hstack.2) rfl
    · refine h.stands.not_waking fun rest heq => ?_
      have hwakeup := hstack.1 (.wakeup i) (by simp [heq])
      cases hwakeup
    · exact List.forall_mem_cons.mpr ⟨inner_call call, hstack.1⟩
  | @ret who rest todo =>
    refine h.quiet rfl (h.stands.exchange ?_ (inner_stack (hshape.rest todo).1 i) ?_) rfl
    · refine h.stands.not_waking fun rest' heq => ?_
      rw [todo] at heq
      cases heq
    · rintro rfl
      exact h.stands.user (by simp [todo]) (by simp [todo])
  | next isLoop todo hnext => exact h.next hshape todo hnext rfl rfl
  | poll todo phase nodup reports => exact h.poll phase nodup reports rfl rfl
  | _ => exact h.quiet rfl h.stands rfl

end

/-! ## A loop of a run -/

instance (i : ι) (σ : System ι) (label : Label ι) : Decidable (QueuesLate i σ label) := by
  unfold QueuesLate
  split
  · split
    all_goals infer_instance
  · infer_instance

theorem start_viewed (i baseLoop : ι) (ioLoops : List ι) (delay clock : Nat) (count : UInt64) :
    Viewed i (System.start baseLoop ioLoops delay clock count) [] LoopThreads.init :=
  ⟨rfl, ⟨fun who => by simp [LoopThreads.init, System.start], .inr ⟨by simp [System.start], .inr ⟨rfl, rfl⟩⟩⟩,
    rfl, rfl⟩

section

variable [Fintype ι] {baseLoop : ι} {ioLoops : List ι} {delay clock : Nat} {count : UInt64}
  {labels : List (Label ι)} {σ : System ι}

theorem run_viewed (i : ι)
    (hrun : run System.step (System.start baseLoop ioLoops delay clock count) labels = .ok σ) :
    let history := collect System.step (observed i) (System.start baseLoop ioLoops delay clock count) labels
    ∃ labels' s, run (LoopThreads.step i) .init labels' = .ok s ∧ Shape σ ∧ Viewed i σ history s := by
  refine run_history (P := fun _ _ => True) (f := observed i)
    (fun σ history => ∃ labels' s, run (LoopThreads.step i) .init labels' = .ok s ∧ Shape σ ∧
      Viewed i σ history s) ?_ ?_ (along_of_forall (fun _ _ => trivial) labels) hrun
  · rintro σ history label σ' ⟨labels₀, s, hrun₀, hshape, hviewed⟩ - hstep
    obtain ⟨labels₁, s', hrun₁, hviewed', -⟩ := step_viewed hviewed hshape hstep
    exact ⟨labels₀ ++ labels₁, s', by rw [run_append_ok hrun₀, hrun₁], hshape.step hstep, hviewed'⟩
  · exact ⟨[], .init, rfl, Shape.start .., start_viewed i ..⟩

/-- What was queued in the loop is what it has called, what is left of the batch and the queue. -/
theorem run_in_order (i : ι)
    (hrun : run System.step (System.start baseLoop ioLoops delay clock count) labels = .ok σ) :
    let history := collect System.step (observed i) (System.start baseLoop ioLoops delay clock count) labels
    history.filterMap LoopEvent.queued? =
      history.filterMap LoopEvent.called? ++ (σ.loops i).batch ++ (σ.loops i).pendingFuncs := by
  intro history
  obtain ⟨labels', s, hrun', hshape, hviewed⟩ := run_viewed i hrun
  obtain ⟨⟨done, rest, waiting, hqueued, hdone, hbatch, -, hqueue, -⟩, -, -⟩ := LoopThreads.run_batched hrun'
  have hnames : done.map Prod.fst = s.executed.map Prod.fst := by
    rw [← List.forall₂_eq_eq_eq, List.forall₂_map_left_iff, List.forall₂_map_right_iff]
    exact hdone.imp fun _ _ h => h.1
  have hrest : rest.map Prod.fst = (σ.loops i).batch.map .func := by
    rw [← hbatch, LoopThreads.batch, hviewed.loop, ← map_toCall (hshape.loops i).functors]
    unfold EventLoop.batch EventLoop.map
    cases (σ.loops i).phase <;> rfl
  have hwaiting : waiting.map Prod.fst = (σ.loops i).pendingFuncs.map .func := by
    rw [← hqueue, hviewed.loop, ← map_toCall (hshape.loops i).queue]
    rfl
  have hinjective : Function.Injective (LoopCall.func : Task ι → LoopCall (Task ι)) :=
    fun _ _ => LoopCall.func.inj
  refine hinjective.list_map ?_
  rw [← hviewed.queued, hqueued, List.map_append, List.map_append, List.map_append, List.map_append,
    hnames, hviewed.executed, hrest, hwaiting]

theorem run_awake {i : ι}
    (hrun : run System.step (System.start baseLoop ioLoops delay clock count) labels = .ok σ)
    (hlate : Along System.step (QueuesLate i) (System.start baseLoop ioLoops delay clock count) labels) :
    ∃ s, LoopThreads.Placed i s ∧ s.Woken ∧ s.loop = (σ.loops i).map Task.toCall ∧ Stands i σ.todo s := by
  obtain ⟨s, hplaced, hwoken, -, hviewed⟩ := run_history (P := QueuesLate i) (f := observed i)
    (fun σ history => ∃ s, LoopThreads.Placed i s ∧ s.Woken ∧ Shape σ ∧ Viewed i σ history s)
    (fun σ history label σ' => by
      rintro ⟨s, hplaced, hwoken, hshape, hviewed⟩ hlabel hstep
      obtain ⟨labels', s', hrun', hviewed', hquiet⟩ := step_viewed hviewed hshape hstep
      obtain ⟨hplaced', hwoken'⟩ := run_inv
        (I := fun s : LoopThreads ι (Task ι) => LoopThreads.Placed i s ∧ s.Woken)
        (fun _ _ _ hinv hl hstep => ⟨LoopThreads.step_placed hinv.1 hstep,
          LoopThreads.step_woken hinv.1 hinv.2 hl hstep⟩)
        ⟨hplaced, hwoken⟩ (hquiet hlabel) hrun'
      exact ⟨s', hplaced', hwoken', hshape.step hstep, hviewed'⟩)
    ⟨.init, LoopThreads.init_placed i, .inr (.inl rfl), Shape.start .., start_viewed i ..⟩ hlate hrun
  exact ⟨s, hplaced, hwoken, hviewed.loop, hviewed.stands⟩

/-- **Every loop of the server serves its queue.** What was queued in it is what it has called, what is
left of the batch and the queue, in order, whatever else the server does. When its thread is in
`epoll_wait` or on the way to it, and the queue is not empty, there is something to read from its
eventfd, or another thread is about to write to it. -/
theorem queue_served (i : ι)
    (hrun : run System.step (System.start baseLoop ioLoops delay clock count) labels = .ok σ) :
    let history := collect System.step (observed i) (System.start baseLoop ioLoops delay clock count) labels
    history.filterMap LoopEvent.queued? =
        history.filterMap LoopEvent.called? ++ (σ.loops i).batch ++ (σ.loops i).pendingFuncs ∧
      (Along System.step (QueuesLate i) (System.start baseLoop ioLoops delay clock count) labels →
        (σ.loops i).phase = .wait ∨ (σ.loops i).phase = .test ∧ (σ.loops i).quit = false →
        (σ.loops i).pendingFuncs ≠ [] →
        0 < (σ.loops i).wakeups ∨ ∃ who rest, who ≠ i ∧ σ.todo who = .wakeup i :: rest) := by
  refine ⟨run_in_order i hrun, fun hlate hsleeps hpending => ?_⟩
  obtain ⟨s, hplaced, hwoken, hloop, hstands⟩ := run_awake hrun hlate
  have hphase : LoopThreads.looks s.loop.phase = false ∧ s.loop.phase.isCalling = false := by
    rw [hloop, EventLoop.map]
    rcases hsleeps with hphase | ⟨hphase, -⟩
    · rw [hphase]
      exact ⟨rfl, rfl⟩
    · rw [hphase]
      exact ⟨rfl, rfl⟩
  rcases hwoken with hlooks | hempty | hwakeups | ⟨who, hwaking⟩
  · rw [hphase.1] at hlooks
    cases hlooks
  · rw [hloop] at hempty
    exact absurd (List.map_eq_nil_iff.mp hempty) hpending
  · rw [hloop] at hwakeups
    exact .inl hwakeups
  · obtain ⟨rest, htodo⟩ := (hstands.waking who).mp hwaking
    refine .inr ⟨who, rest, ?_, htodo⟩
    -- the thread of the loop writes to its own eventfd among its functors only
    rintro rfl
    have hcalling := hplaced.waking hwaking
    rw [hphase.2] at hcalling
    cases hcalling

end

/-- A thread queues a functor, which the loop calls, and then another one. -/
def queueRun : List (Label (Fin 2)) :=
  [Label.next 0, .next 0, .call 1 (.queueInLoop 0)] ++ Label.runs 1 2 ++ [Label.poll 0 [.wakeup], .next 0] ++
    Label.runs 0 1 ++ [Label.next 0, .next 0, .next 0, .ret 0, .next 0, .next 0, .call 1 (.queueInLoop 0)] ++
    Label.runs 1 1

theorem queue_served_again :
    ∃ σ, run System.step (System.start 0 [1] 0 0 0) queueRun = .ok σ ∧ (σ.loops 0).wakeups = 0 ∧
      (collect System.step (observed 0) (System.start 0 [1] 0 0 0) queueRun).filterMap LoopEvent.queued? =
        (collect System.step (observed 0) (System.start 0 [1] 0 0 0) queueRun).filterMap LoopEvent.called? ++
          (σ.loops 0).batch ++ (σ.loops 0).pendingFuncs ∧
      (0 < (σ.loops 0).wakeups ∨ ∃ who rest, who ≠ 0 ∧ σ.todo who = .wakeup 0 :: rest) := by
  obtain ⟨σ, hrun, hobserved⟩ := eq_ok_of_toOption (b := (Phase.wait, [Task.user], 0))
    (f := fun σ : System (Fin 2) => ((σ.loops 0).phase, (σ.loops 0).pendingFuncs, (σ.loops 0).wakeups))
    (x := run System.step (System.start 0 [1] 0 0 0) queueRun) (by decide +kernel)
  obtain ⟨hphase, hrest⟩ := Prod.mk.inj hobserved
  obtain ⟨hpending, hwakeups⟩ := Prod.mk.inj hrest
  obtain ⟨hserved, hawake⟩ := queue_served 0 hrun
  refine ⟨σ, hrun, hwakeups, hserved, hawake (along_of_check (by decide +kernel)) (.inl hphase) ?_⟩
  rw [hpending]
  exact List.cons_ne_nil _ _

end VServer
