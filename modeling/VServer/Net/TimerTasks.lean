import VServer.Net.Moves
import VServer.Net.TimerStore

/-!
# The timers of the loops

Every loop has a `TimerManager` that only its own thread works on: `addTimerInloop`, `cancelInloop`
and the handler of the timerfd come to that thread through `runInLoop`, or from its poller (`AtLoop`).
`Turn` is what a step does as far as timers and tasks go, and `perform_timers` what a task does to the
managers.
-/

namespace VServer

variable {ι : Type} [DecidableEq ι]

/-! ## Steps -/

def Task.isLoopTask : Task ι → Bool
  | .user | .queueInLoop _ _ | .wakeup _ | .quit _ | .wakeupRead _ => true
  | _ => false

/-- What a step does to the stacks, the backlogs and the world. -/
inductive Turn (label : Label ι) (σ σ' : System ι) : Prop
  | perform {who : ι} {k : Kernel} {t : Task ι} {rest new : List (Task ι)} {w : World ι}
      (run : label = .run who k) (todo : σ.todo who = t :: rest)
      (result : VServer.perform who k σ.world t = .ok (w, new))
      (after : σ' = { σ with world := w, todo := Function.update σ.todo who (new ++ rest) })
  /-- a task of a loop, or the return of the user's function -/
  | loop {who : ι} {t : Task ι} {rest new : List (Task ι)} (todo : σ.todo who = t :: rest)
      (loopTask : t.isLoopTask = true) (hnew : ∀ x ∈ new, ∃ loop, x = .wakeup loop)
      (backlog : ∀ i, ∀ x ∈ (σ'.loops i).backlog,
        x ∈ (σ.loops i).backlog ∨ t = .queueInLoop i x)
      (world : σ'.world = σ.world) (todo' : σ'.todo = Function.update σ.todo who (new ++ rest))
  | call {who : ι} {call : UserCall ι} (label : label = .call who call)
      (inUserCode : σ.inUserCode who = true) (world : σ'.world = σ.world)
      (loops : σ'.loops = σ.loops)
      (todo' : σ'.todo = Function.update σ.todo who (call.task who :: σ.todo who))
  | next {loop : ι} {calls : List (Task ι)} (todo : σ.todo loop = [])
      (hcalls : ∀ x ∈ calls, x ∈ (σ.loops loop).backlog)
      (backlog : ∀ i, ∀ x ∈ (σ'.loops i).backlog, x ∈ (σ.loops i).backlog)
      (world : σ'.world = σ.world) (todo' : σ'.todo = Function.update σ.todo loop calls)
  | poll {loop : ι} {active : List ActiveChannel} (todo : σ.todo loop = [])
      (backlog : ∀ i, ∀ x ∈ (σ'.loops i).backlog,
        x ∈ (σ.loops i).backlog ∨ i = loop ∧ ∃ a ∈ active, x = a.task loop)
      (world : σ'.world = σ.world) (todo' : σ'.todo = σ.todo)
  /-- the clock, a timerfd, the end of a connection -/
  | outside (clock : σ.world.clock ≤ σ'.world.clock) (conns : σ'.world.conns = σ.world.conns)
      (timers : ∀ i, (σ'.world.timers i).timers = (σ.world.timers i).timers)
      (table : ∀ i, (σ'.world.timers i).table = (σ.world.timers i).table)
      (server : σ'.world.server = σ.world.server) (loops : σ'.loops = σ.loops)
      (todo' : σ'.todo = σ.todo)

section

variable {σ σ' : System ι} {label : Label ι} {who : ι} {k : Kernel}

theorem backlog_update {loop : ι} {l : EventLoop (Task ι)} {P : Task ι → Prop}
    (hl : ∀ x ∈ l.backlog, x ∈ (σ.loops loop).backlog ∨ P x) (i : ι) :
    ∀ x ∈ (Function.update σ.loops loop l i).backlog, x ∈ (σ.loops i).backlog ∨ i = loop ∧ P x := by
  intro x hx
  by_cases hi : i = loop
  · subst hi
    rw [Function.update_self] at hx
    exact (hl x hx).imp id fun hP => ⟨rfl, hP⟩
  · rw [Function.update_of_ne hi] at hx
    exact .inl hx

/-- **Every step is a turn.** -/
theorem step_turn [Fintype ι] (h : σ.step label = .ok σ') : Turn label σ σ' := by
  have hnone : ∀ x ∈ ([] : List (Task ι)), ∃ loop, x = .wakeup loop := nofun
  -- a loop whose backlog stays
  have hloop : ∀ {who loop : ι} {k : Kernel} {t : Task ι} {rest : List (Task ι)}
      {l : EventLoop (Task ι)}, σ.todo who = t :: rest → t.isLoopTask = true →
      l.backlog = (σ.loops loop).backlog → Turn (.run who k) σ { σ with
        loops := Function.update σ.loops loop l, todo := Function.update σ.todo who rest } := by
    intro who loop k t rest l htodo ht hl
    refine .loop htodo ht hnone (fun i x hx => ?_) rfl rfl
    have hback : ∀ x ∈ l.backlog, x ∈ (σ.loops loop).backlog ∨ False := by
      rw [hl]
      exact fun x hx => .inl hx
    exact (backlog_update hback i x hx).imp id fun hfalse => hfalse.2.elim
  cases step_cases h with
  | perform todo result => exact .perform rfl todo result rfl
  | @queueInLoop who loop k f rest todo =>
    refine .loop todo rfl ?_ (fun i x hx => ?_) rfl rfl
    · intro x hx
      split_ifs at hx
      · exact ⟨loop, List.mem_singleton.mp hx⟩
      · cases hx
    · have hback : ∀ x ∈ ((σ.loops loop).push f).backlog, x ∈ (σ.loops loop).backlog ∨ x = f := by
        intro x hx
        rw [EventLoop.push_backlog, List.mem_append, List.mem_singleton] at hx
        exact hx
      refine (backlog_update hback i x hx).imp id ?_
      rintro ⟨rfl, rfl⟩
      rfl
  | wakeup todo => exact hloop todo rfl rfl
  | quit todo => exact hloop todo rfl rfl
  | wakeupRead todo read =>
    obtain ⟨-, rfl⟩ := EventLoop.handleRead_eq_ok read
    exact hloop todo rfl rfl
  | call inUserCode knows => exact .call rfl inUserCode rfl rfl rfl
  | ret todo => exact .loop todo rfl hnone (fun i x hx => .inl hx) rfl rfl
  | @next loop l calls isLoop todo hnext =>
    have hbacklog := EventLoop.next_backlog hnext
    have hback : ∀ x ∈ l.backlog, x ∈ (σ.loops loop).backlog ∨ False := fun x hx =>
      .inl (hbacklog ▸ List.mem_append_right _ hx)
    refine .next todo (fun x hx => hbacklog ▸ List.mem_append_left _ hx) (fun i x hx => ?_) rfl rfl
    exact (backlog_update hback i x hx).elim id fun hfalse => hfalse.2.elim
  | @poll loop active todo phase nodup reports =>
    have hback : ∀ x ∈ ((σ.loops loop).poll (active.map (·.task loop))).backlog,
        x ∈ (σ.loops loop).backlog ∨ ∃ a ∈ active, x = a.task loop := by
      intro x hx
      rw [EventLoop.poll_backlog phase, List.mem_append] at hx
      refine hx.symm.imp id fun hmem => ?_
      obtain ⟨a, ha, rfl⟩ := List.mem_map.mp hmem
      exact ⟨a, ha, rfl⟩
    exact .poll todo (fun i x hx => backlog_update hback i x hx) rfl rfl
  | tick => exact .outside (Nat.le_add_right _ _) rfl (fun _ => rfl) (fun _ => rfl) rfl rfl rfl
  | @expire loop deadline armed due =>
    refine .outside (Nat.le_refl _) rfl (fun i => ?_) (fun i => ?_) rfl rfl rfl
    all_goals
      by_cases hi : i = loop
      · subst hi
        simp
      · simp [hi]
  | destroy alive unreferenced =>
    exact .outside (Nat.le_refl _) rfl (fun _ => rfl) (fun _ => rfl) rfl rfl rfl

/-! ## Timers at home -/

/-- A task on the timers of a loop is on the thread of that loop. -/
def Task.AtLoop (i : ι) : Task ι → Prop
  | .addTimerInloop loop _ | .cancelInloop loop _ | .timerRead loop => loop = i
  | .queueInLoop loop f => f.AtLoop loop
  | _ => True

def TimersAtLoop (σ : System ι) : Prop := ∀ i, ∀ x ∈ σ.tasks i, x.AtLoop i

theorem atLoop_runInLoop {loop : ι} {f : Task ι} (h : f.AtLoop loop) :
    (runInLoop who loop f).AtLoop who := by
  unfold runInLoop
  split_ifs with hwho
  · rwa [hwho]
  · exact h

theorem ConnStep.atLoop {base : ι} {c : Nat} {l l' : Link ι} {t : ConnTask ι}
    {events : List (ConnEvent ι)} {new : List (Task ι)}
    (h : ConnStep who k base c l t l' events new) : ∀ x ∈ new, x.AtLoop who := by
  cases h with
  | handleEvent revents =>
    intro x hx
    obtain ⟨t, -, rfl⟩ := List.mem_map.mp hx
    trivial
  | writeCallback hnew => exact forall_mem_of_either hnew.symm (by simp [Task.AtLoop])
  | updateTimer hnew =>
    refine forall_mem_of_either hnew ?_
    exact List.forall_mem_cons.mpr ⟨atLoop_runInLoop rfl, by simp [Task.AtLoop]⟩
  | delayedClose hnew => exact forall_mem_of_either hnew (by simp [Task.AtLoop])
  | runForceCloseAfter timer =>
    exact List.forall_mem_cons.mpr ⟨atLoop_runInLoop rfl, by simp [Task.AtLoop]⟩
  | send connected => exact List.forall_mem_singleton.mpr (atLoop_runInLoop trivial)
  | shutdown connected =>
    exact List.forall_mem_cons.mpr
      ⟨trivial, List.forall_mem_singleton.mpr (atLoop_runInLoop trivial)⟩
  | removeConnection => exact List.forall_mem_singleton.mpr (atLoop_runInLoop trivial)
  | _ => simp [Task.AtLoop]

theorem perform_atLoop {t : Task ι} {w w' : World ι} {new : List (Task ι)}
    (h : VServer.perform who k w t = .ok (w', new)) : ∀ x ∈ new, x.AtLoop who := by
  cases perform_cases h with
  | conn alive result =>
    obtain ⟨events, hstep, -⟩ := performConn_spec result
    exact hstep.atLoop
  | timerRead read =>
    intro x hx
    obtain ⟨timer, -, rfl⟩ := List.mem_map.mp hx
    trivial
  | userTimer => simp [Task.AtLoop]
  | closeTimer =>
    split_ifs
    · simp [Task.AtLoop]
    · nofun
  | runAfter cb => exact List.forall_mem_singleton.mpr (atLoop_runInLoop rfl)
  | addTimerInloop => nofun
  | cancelInloop cancel => nofun
  | acceptorRead accept result =>
    obtain ⟨loop, -, rfl⟩ := newConnection_born result
    exact List.forall_mem_singleton.mpr (atLoop_runInLoop trivial)

theorem atLoop_call (call : UserCall ι) : (call.task who).AtLoop who := by
  cases call with
  | runInLoop loop => exact atLoop_runInLoop trivial
  | cancel loop id => exact atLoop_runInLoop rfl
  | _ => trivial

theorem Turn.atLoop (h : Turn label σ σ') (hinv : TimersAtLoop σ) : TimersAtLoop σ' := by
  intro i x hx
  have hback : x ∈ (σ.loops i).backlog → x.AtLoop i := fun hx => hinv i x (List.mem_append_right _ hx)
  -- the stack of one thread is exchanged
  have hstack : ∀ {who : ι} {rest new : List (Task ι)}, (∀ x ∈ rest, x ∈ σ.todo who) →
      (∀ x ∈ new, x.AtLoop who) → σ'.todo = Function.update σ.todo who (new ++ rest) →
      x ∈ σ'.todo i → x.AtLoop i := by
    intro who rest new hrest hnew htodo' hx
    rw [htodo'] at hx
    by_cases hi : i = who
    · subst hi
      rw [Function.update_self] at hx
      rcases List.mem_append.mp hx with hx | hx
      · exact hnew x hx
      · exact hinv i x (List.mem_append_left _ (hrest x hx))
    · rw [Function.update_of_ne hi] at hx
      exact hinv i x (List.mem_append_left _ hx)
  rcases List.mem_append.mp hx with hx | hx
  · cases h with
    | @perform who k t rest new w run todo result after =>
      refine hstack (fun x hx => ?_) (perform_atLoop result) (by rw [after]) hx
      rw [todo]
      exact List.mem_cons_of_mem _ hx
    | @loop who t rest new todo loopTask hnew backlog world todo' =>
      refine hstack (fun x hx => ?_) (fun x hx => ?_) todo' hx
      · rw [todo]
        exact List.mem_cons_of_mem _ hx
      · obtain ⟨loop, rfl⟩ := hnew x hx
        trivial
    | @call who call label inUserCode world loops todo' =>
      have hnew : ∀ x ∈ [call.task who], x.AtLoop who := by simpa using atLoop_call call
      exact hstack (fun x hx => hx) hnew todo' hx
    | @next loop calls todo hcalls backlog world todo' =>
      have hnew : ∀ x ∈ calls, x.AtLoop loop := fun x hx =>
        hinv loop x (List.mem_append_right _ (hcalls x hx))
      have hnil : ∀ x ∈ ([] : List (Task ι)), x ∈ σ.todo loop := nofun
      exact hstack hnil hnew (by rw [todo', List.append_nil]) hx
    | poll todo backlog world todo' =>
      rw [todo'] at hx
      exact hinv i x (List.mem_append_left _ hx)
    | outside clock conns timers table server loops todo' =>
      rw [todo'] at hx
      exact hinv i x (List.mem_append_left _ hx)
  · cases h with
    | perform run todo result after =>
      rw [after] at hx
      exact hback hx
    | @loop who t rest new todo loopTask hnew backlog world todo' =>
      rcases backlog i x hx with hx | rfl
      · exact hback hx
      · exact hinv who (.queueInLoop i x) (List.mem_append_left _ (todo ▸ List.mem_cons_self))
    | call label inUserCode world loops todo' =>
      rw [loops] at hx
      exact hback hx
    | next todo hcalls backlog world todo' => exact hback (backlog i x hx)
    | poll todo backlog world todo' =>
      rcases backlog i x hx with hx | ⟨rfl, a, -, rfl⟩
      · exact hback hx
      · cases a
        all_goals trivial
    | outside clock conns timers table server loops todo' =>
      rw [loops] at hx
      exact hback hx

/-! ## What a task does to the timers -/

theorem performConn_timers {w w' : World ι} {c : Nat} {t : ConnTask ι} {new : List (Task ι)}
    (h : performConn who k w c t = .ok (w', new)) : w'.timers = w.timers ∧ w'.clock = w.clock := by
  cases t with
  | handleRead =>
    obtain ⟨-, h⟩ := withLoop_eq_ok h
    split at h
    · cases h
    dsimp only at h
    split_ifs at h
    all_goals
      cases h
      exact ⟨rfl, rfl⟩
  | handleWrite | handleClose | connectEstablished | sendInLoop sender message =>
    obtain ⟨-, h⟩ := withLoop_eq_ok h
    obtain ⟨r, -, rfl, -⟩ := finish_eq_ok h
    exact ⟨rfl, rfl⟩
  | notifyDown | channelRemove =>
    obtain ⟨r, -, rfl, -⟩ := finish_eq_ok h
    exact ⟨rfl, rfl⟩
  | connectDestroyed | shutdownInLoop | forceCloseInLoop =>
    obtain ⟨-, h⟩ := withLoop_eq_ok h
    cases h
    exact ⟨rfl, rfl⟩
  | send message =>
    unfold performConn at h
    dsimp only at h
    split_ifs at h
    all_goals
      cases h
      exact ⟨rfl, rfl⟩
  | removeConnectionInLoop =>
    obtain ⟨-, h⟩ := withLoop_eq_ok h
    split_ifs at h
    split at h
    · cases h
      exact ⟨rfl, rfl⟩
    · cases h
  | _ =>
    cases h
    exact ⟨rfl, rfl⟩

/-- What a task does to the timers of the loop it is at. -/
inductive TimerChange (w w' : World ι) (i : ι) (t : Task ι) : Prop
  | same (timers : w'.timers i = w.timers i)
  | added {timer : Timer TimerCallback} (ht : t = .addTimerInloop i timer)
      (timers : w'.timers i = (w.timers i).addTimerInloop w.clock timer)
  | cancelled {id : UInt64} (ht : t = .cancelInloop i id)
      (cancel : (w.timers i).cancelInloop w.clock id = .ok (w'.timers i))
  | expired {now : Nat} {fresh : UInt64} {expired : List (Timer TimerCallback)} (ht : t = .timerRead i)
      (fill : (({ w.timers i with timerfd := { (w.timers i).timerfd with ready := false } } :
        TimerManager TimerCallback)).fillExpired w.clock now fresh = .ok (w'.timers i, expired))

theorem newConnection_timers {w w' : World ι} {fd : Nat} {new : List (Task ι)}
    (h : newConnection who w fd = .ok (w', new)) : w'.timers = w.timers ∧ w'.clock = w.clock := by
  unfold newConnection at h
  split_ifs at h
  split at h
  · cases h
  dsimp only at h
  split_ifs at h
  cases h
  exact ⟨rfl, rfl⟩

/-- **A task leaves the clock alone, and changes the timers of its own thread only.** -/
theorem perform_timers {t : Task ι} {w w' : World ι} {new : List (Task ι)}
    (h : VServer.perform who k w t = .ok (w', new)) (hat : t.AtLoop who) :
    w'.clock = w.clock ∧ (∀ i, i ≠ who → w'.timers i = w.timers i) ∧ TimerChange w w' who t := by
  have hsame : ∀ {t : Task ι} {w' : World ι}, w'.timers = w.timers ∧ w'.clock = w.clock →
      w'.clock = w.clock ∧ (∀ i, i ≠ who → w'.timers i = w.timers i) ∧ TimerChange w w' who t :=
    fun hworld => ⟨hworld.2, fun i _ => by rw [hworld.1], .same (by rw [hworld.1])⟩
  -- the manager of the thread is exchanged
  have hother : ∀ (timers : TimerManager TimerCallback) (i : ι), i ≠ who →
      Function.update w.timers who timers i = w.timers i := fun timers i hi =>
    Function.update_of_ne hi _ _
  cases perform_cases h with
  | conn alive result => exact hsame (performConn_timers result)
  | @timerRead loop timers expired read =>
    obtain rfl : loop = who := hat
    refine ⟨rfl, hother timers, ?_⟩
    refine @TimerChange.expired _ _ _ _ _ (getCurrentTimeMS w.clock) (w.count + 1) expired rfl ?_
    show _ = Except.ok (Function.update w.timers loop timers loop, expired)
    rw [Function.update_self]
    exact read
  | userTimer => exact hsame ⟨rfl, rfl⟩
  | closeTimer => exact hsame ⟨rfl, rfl⟩
  | runAfter cb => exact hsame ⟨rfl, rfl⟩
  | @addTimerInloop loop timer =>
    obtain rfl : loop = who := hat
    exact ⟨rfl, hother _, .added rfl (Function.update_self _ _ _)⟩
  | @cancelInloop loop id timers cancel =>
    obtain rfl : loop = who := hat
    refine ⟨rfl, hother timers, .cancelled rfl ?_⟩
    show _ = Except.ok (Function.update w.timers loop timers loop)
    rw [Function.update_self]
    exact cancel
  | acceptorRead accept result => exact hsame (newConnection_timers result)

variable {w w' : World ι} {i : ι} {t : Task ι}

/-- The id of a timer that is put into the manager is new there. -/
def FreshAt (w : World ι) : Task ι → Prop
  | .addTimerInloop loop timer => ∀ u ∈ (w.timers loop).timers, u.id ≠ timer.id
  | _ => True

instance (w : World ι) (t : Task ι) : Decidable (FreshAt w t) := by
  unfold FreshAt
  rcases t with ⟨⟩ | ⟨⟩ | ⟨⟩ | ⟨⟩ | ⟨⟩ | ⟨⟩ | ⟨⟩ | ⟨⟩ | ⟨⟩ | ⟨loop, timer⟩ | ⟨⟩ | ⟨⟩
  all_goals infer_instance

omit [DecidableEq ι] in
theorem TimerChange.indexed (h : TimerChange w w' i t) (hfresh : FreshAt w t)
    (hindexed : (w.timers i).Indexed) : (w'.timers i).Indexed := by
  cases h with
  | same timers => rwa [timers]
  | added ht timers =>
    rw [ht] at hfresh
    rw [timers]
    exact (hindexed.addTimerInloop w.clock _ hfresh).1
  | cancelled ht cancel => exact (hindexed.cancelInloop cancel).1
  | expired ht fill =>
    have hread : TimerManager.Indexed
        { w.timers i with timerfd := { (w.timers i).timerfd with ready := false } } :=
      ⟨hindexed.ids, hindexed.table⟩
    exact hread.fillExpired fill

omit [DecidableEq ι] in
theorem TimerChange.mem (h : TimerChange w w' i t) {u : Timer TimerCallback}
    (hu : u ∈ (w'.timers i).timers) : t = .addTimerInloop i u ∨ u ∈ (w.timers i).timers := by
  cases h with
  | same timers =>
    rw [timers] at hu
    exact .inr hu
  | added ht timers =>
    rw [timers, (TimerManager.addTimerInloop_spec _ _ _).1] at hu
    exact (TimerManager.mem_insertTimer hu).imp (fun h => by rw [h, ht]) id
  | cancelled ht cancel =>
    rcases TimerManager.cancelInloop_spec cancel with ⟨-, heq⟩ | ⟨target, -, -, htimers, -⟩
    · rw [heq] at hu
      exact .inr hu
    · rw [htimers] at hu
      exact .inr (List.mem_of_mem_eraseP hu)
  | expired ht fill =>
    obtain ⟨-, htimers, -⟩ := TimerManager.fillExpired_spec fill
    refine .inr ?_
    have hall : (w.timers i).timers = _ := htimers
    rw [hall]
    exact List.mem_append_right _ hu

/-- The task that the step performs puts no timer in under an id that is taken. -/
def FreshIds (σ : System ι) : Label ι → Prop
  | .run who _ =>
    match σ.todo who with
    | t :: _ => FreshAt σ.world t
    | [] => True
  | _ => True

instance (σ : System ι) (label : Label ι) : Decidable (FreshIds σ label) := by
  unfold FreshIds
  rcases label with ⟨who, k⟩ | ⟨⟩ | ⟨⟩ | ⟨⟩ | ⟨⟩ | ⟨⟩ | ⟨⟩ | ⟨⟩
  · dsimp only
    rcases σ.todo who with _ | ⟨t, rest⟩
    all_goals infer_instance
  all_goals infer_instance

omit [DecidableEq ι] in
theorem FreshIds.freshAt {t : Task ι} {rest : List (Task ι)} (h : FreshIds σ (.run who k))
    (htodo : σ.todo who = t :: rest) : FreshAt σ.world t := by
  unfold FreshIds at h
  dsimp only at h
  rwa [htodo] at h

theorem Turn.indexed (h : Turn label σ σ') (hat : TimersAtLoop σ) (hfresh : FreshIds σ label)
    (hinv : ∀ i, (σ.world.timers i).Indexed) : ∀ i, (σ'.world.timers i).Indexed := by
  intro i
  cases h with
  | @perform who k t rest new w run todo result after =>
    subst run
    have htop := hat who t (List.mem_append_left _ (todo ▸ List.mem_cons_self))
    obtain ⟨-, hother, hchange⟩ := perform_timers result htop
    rw [after]
    by_cases hi : i = who
    · subst hi
      exact hchange.indexed (hfresh.freshAt todo) (hinv i)
    · show (w.timers i).Indexed
      rw [hother i hi]
      exact hinv i
  | loop todo loopTask hnew backlog world todo' =>
    rw [world]
    exact hinv i
  | call label inUserCode world loops todo' =>
    rw [world]
    exact hinv i
  | next todo hcalls backlog world todo' =>
    rw [world]
    exact hinv i
  | poll todo backlog world todo' =>
    rw [world]
    exact hinv i
  | outside clock conns timers table server loops todo' =>
    refine ⟨?_, fun id t => ?_⟩
    · rw [timers]
      exact (hinv i).ids
    · rw [timers, table]
      exact (hinv i).table id t

end

end VServer
