import VServer.Net.IdleRenewal

/-!
# A read and the deadlines of the user

`forceCloseAfter` is the server's, for connections that have been idle for `m_delay`, and the user's,
for any time. Both leave the id of their timer in `m_timerId`, and the next one overwrites it. At a
read `updateTimer` cancels the timer that is named there, whoever made it, and arms another one for
`m_delay` from now: 0 when the server closes no connection by itself. `Rearming` follows it, whatever
other timers are pending for the connection and whatever other threads do in between.
-/

namespace VServer

variable {ι : Type}

/-- The times at which timers of the loop of connection `c` are going to close it. -/
def World.deadlines (w : World ι) (c : Nat) : List Nat :=
  (w.idleTimers c (w.conns c).loop).map (·.expire)

/-- In `w'` connection `c` is not closed earlier than the first deadline that was pending in `w`. -/
def NotHastened (c : Nat) (w w' : World ι) : Prop :=
  ∀ first, (w.deadlines c).min? = some first → ∀ deadline ∈ w'.deadlines c, first ≤ deadline

/-- `updateTimer` takes it that there is no timer, or what it arms at time `t` is not earlier than the
first deadline. -/
def KeepsPace (c : Nat) (w : World ι) (t : Nat) : Prop :=
  (w.conns c).isTimed = true → ∀ first, (w.deadlines c).min? = some first →
    first ≤ timeAdd (getCurrentTimeMS t) (w.conns c).delay

/-- A timer that was made by `updateTimer` is pending, and otherwise those that were before. -/
structure Rearmed (c : Nat) (fresh : Prop) (old : List (Timer TimerCallback)) (w : World ι)
    (timer : Timer TimerCallback) : Prop where
  pending : ∀ u ∈ w.idleTimers c (w.conns c).loop, u = timer ∨ u ∈ old
  made : fresh → timer ∈ w.idleTimers c (w.conns c).loop

/-- From `cancel(m_timerId)` on to `m_timerId = …`, with `rest` below, when the timers `old` were
pending; `fresh` if ids are not given twice. -/
inductive Rearming (c since : Nat) (fresh : Prop) (old : List (Timer TimerCallback)) (w : World ι)
    (rest : List (Task ι)) : List (Task ι) → Prop
  | cancel {id : UInt64} (isOpen : (w.conns c).isOpen = true)
      (kept : w.idleTimers c (w.conns c).loop ⊆ old) :
    Rearming c since fresh old w rest (.cancelInloop (w.conns c).loop id ::
      .conn c (.forceCloseAfter (w.conns c).delay) :: rest)
  | close (isOpen : (w.conns c).isOpen = true) (kept : w.idleTimers c (w.conns c).loop ⊆ old) :
    Rearming c since fresh old w rest (.conn c (.forceCloseAfter (w.conns c).delay) :: rest)
  | disconnect (kept : w.idleTimers c (w.conns c).loop ⊆ old) :
    Rearming c since fresh old w rest
      (.conn c .setDisconnecting :: .conn c (.runForceCloseAfter (w.conns c).delay) :: rest)
  | arm (kept : w.idleTimers c (w.conns c).loop ⊆ old) :
    Rearming c since fresh old w rest (.conn c (.runForceCloseAfter (w.conns c).delay) :: rest)
  | add {timer : Timer TimerCallback} (kept : w.idleTimers c (w.conns c).loop ⊆ old)
      (cb : timer.cb = .weakForceClose c) (made : w.MadeSince c since timer) :
    Rearming c since fresh old w rest
      (.addTimerInloop (w.conns c).loop timer :: .conn c (.storeTimerId timer.id) :: rest)
  | store {timer : Timer TimerCallback} (rearmed : Rearmed c fresh old w timer)
      (made : w.MadeSince c since timer) :
    Rearming c since fresh old w rest (.conn c (.storeTimerId timer.id) :: rest)

section

variable {c since : Nat} {fresh : Prop} {old : List (Timer TimerCallback)} {w w' : World ι}
  {rest l : List (Task ι)}

/-- What other threads leave as it is. -/
structure World.Spares (c : Nat) (w w' : World ι) : Prop where
  loop : (w'.conns c).loop = (w.conns c).loop
  delay : (w'.conns c).delay = (w.conns c).delay
  isOpen : (w.conns c).isOpen = true → (w'.conns c).isOpen = true
  clock : w.clock ≤ w'.clock
  timers : w'.idleTimers c (w.conns c).loop = w.idleTimers c (w.conns c).loop

theorem World.Spares.trans {w'' : World ι} (h : w.Spares c w') (h' : w'.Spares c w'') :
    w.Spares c w'' := by
  have htimers := h'.timers
  rw [h.loop, h.timers] at htimers
  exact ⟨h'.loop.trans h.loop, h'.delay.trans h.delay, fun ho => h'.isOpen (h.isOpen ho),
    Nat.le_trans h.clock h'.clock, htimers⟩

theorem World.MadeSince.later {timer : Timer TimerCallback} (h : w.MadeSince c since timer)
    (hdelay : (w'.conns c).delay = (w.conns c).delay) (hclock : w.clock ≤ w'.clock) :
    w'.MadeSince c since timer := by
  obtain ⟨t, hsince, hle, hexpire⟩ := h
  refine ⟨t, hsince, Nat.le_trans hle hclock, ?_⟩
  rw [hdelay]
  exact hexpire

theorem Rearmed.spares {timer : Timer TimerCallback} (h : Rearmed c fresh old w timer)
    (hspares : w.Spares c w') : Rearmed c fresh old w' timer := by
  have htimers := hspares.timers
  rw [← hspares.loop] at htimers
  refine ⟨?_, ?_⟩
  · rw [htimers, hspares.loop]
    exact h.pending
  · rw [htimers, hspares.loop]
    exact h.made

theorem Rearming.spares (h : Rearming c since fresh old w rest l) (hspares : w.Spares c w') :
    Rearming c since fresh old w' rest l := by
  have hloop := hspares.loop
  have hdelay := hspares.delay
  have hkept : w.idleTimers c (w.conns c).loop ⊆ old → w'.idleTimers c (w'.conns c).loop ⊆ old := by
    intro hkept
    rwa [hloop, hspares.timers]
  cases h with
  | cancel isOpen kept =>
    rw [← hloop, ← hdelay]
    exact .cancel (hspares.isOpen isOpen) (hkept kept)
  | close isOpen kept =>
    rw [← hdelay]
    exact .close (hspares.isOpen isOpen) (hkept kept)
  | disconnect kept =>
    rw [← hdelay]
    exact .disconnect (hkept kept)
  | arm kept =>
    rw [← hdelay]
    exact .arm (hkept kept)
  | add kept cb made =>
    rw [← hloop]
    exact .add (hkept kept) cb (made.later hdelay hspares.clock)
  | store rearmed made => exact .store (rearmed.spares hspares) (made.later hdelay hspares.clock)

theorem Rearming.top (h : Rearming c since fresh old w rest l) :
    ∃ t below, l = t :: below ∧ t.isLoopTask = false := by
  cases h
  all_goals exact ⟨_, _, rfl, rfl⟩

end

section

variable [DecidableEq ι] {c since : Nat} {fresh : Prop} {old : List (Timer TimerCallback)}
  {w w' : World ι} {who : ι} {k : Kernel} {t : Task ι} {rest below new : List (Task ι)}

/-- **The loop of the connection goes one step further**, or gets to the end. -/
theorem Rearming.step (h : Rearming c since fresh old w rest (t :: below))
    (hwho : who = (w.conns c).loop) (hfresh : fresh → FreshAt w t) (hsince : since ≤ w.clock)
    (hperform : VServer.perform who k w t = .ok (w', new)) :
    Rearming c since fresh old w' rest (new ++ below) ∨ new ++ below = rest ∧
      ∃ timer, Rearmed c fresh old w' timer ∧ w'.MadeSince c since timer := by
  subst hwho
  have hdirect : ∀ f : Task ι, runInLoop (w.conns c).loop (w.conns c).loop f = f := fun f => if_pos rfl
  cases h with
  | cancel isOpen kept =>
    have hchange := (perform_timers hperform rfl).2.2
    cases perform_cases hperform with
    | @cancelInloop _ _ timers hcancel =>
      refine .inl (.close isOpen fun u hu => kept ?_)
      have hu : u ∈ World.idleTimers _ c (w.conns c).loop := hu
      rw [mem_idleTimers] at hu ⊢
      exact ⟨(hchange.mem hu.1).resolve_left nofun, hu.2⟩
  | close isOpen kept =>
    cases perform_conn_eq_ok hperform
    rw [if_pos isOpen]
    exact .inl (.disconnect kept)
  | disconnect kept =>
    cases perform_conn_eq_ok hperform
    have hspares : w.Spares c (w.putConn c { w.conns c with state := .kDisconnecting } []) := by
      have hkeeps : w.Keeps c (w.putConn c { w.conns c with state := .kDisconnecting } []) :=
        keeps_putConn rfl rfl rfl
      exact ⟨hkeeps.loop, hkeeps.delay, fun _ => by simp [World.putConn, TcpConnection.isOpen],
        hkeeps.clock, rfl⟩
    have harm : Rearming c since fresh old w rest _ := .arm kept
    exact .inl (harm.spares hspares)
  | arm kept =>
    cases perform_conn_eq_ok hperform
    rw [hdirect]
    exact .inl (.add kept rfl ⟨w.clock, hsince, Nat.le_refl _, rfl⟩)
  | @add timer kept cb made =>
    have hchange := (perform_timers hperform rfl).2.2
    cases hperform
    refine .inl (.store ⟨fun u hu => ?_, fun hf => ?_⟩ made)
    · have hu : u ∈ World.idleTimers _ c (w.conns c).loop := hu
      rw [mem_idleTimers] at hu
      rcases hchange.mem hu.1 with heq | hold
      · cases heq
        exact .inl rfl
      · exact .inr (kept (mem_idleTimers.mpr ⟨hold, hu.2⟩))
    · show timer ∈ World.idleTimers _ c (w.conns c).loop
      rw [mem_idleTimers]
      refine ⟨?_, cb⟩
      dsimp only
      rw [Function.update_self, (TimerManager.addTimerInloop_spec _ _ _).1,
        (TimerManager.insertTimer_perm (hfresh hf)).mem_iff]
      exact List.mem_cons_self
  | @store timer rearmed made =>
    cases perform_conn_eq_ok hperform
    have hspares : w.Spares c (w.putConn c { w.conns c with timerId := timer.id } []) :=
      ⟨by simp [World.putConn], by simp [World.putConn],
        fun h => by simpa [World.putConn, TcpConnection.isOpen] using h, Nat.le_refl _, rfl⟩
    exact .inr ⟨rfl, timer, rearmed.spares hspares, made.later hspares.delay hspares.clock⟩

end

/-! ## Between all steps -/

def UpdatesAtHome (c : Nat) (σ : System ι) : Prop :=
  ∀ i, ∀ x ∈ σ.tasks i, x.about c = some .updateTimer → i = (σ.world.conns c).loop

section

variable [DecidableEq ι] {who : ι} {k : Kernel} {base : ι} {c : Nat} {l l' : Link ι} {t : ConnTask ι}
  {events : List (ConnEvent ι)} {new : List (Task ι)}

theorem ConnStep.updates (h : ConnStep who k base c l t l' events new) {x : Task ι} (hx : x ∈ new)
    (hab : x.about c = some .updateTimer) : t = .handleRead ∧ who = l.conn.loop := by
  have hnone : ∀ {new' : List (Task ι)}, new = [] ∨ new = new' →
      (∀ x ∈ new', x.about c ≠ some .updateTimer) → t = .handleRead ∧ who = l.conn.loop := by
    intro new' hnew hall
    rcases hnew with rfl | rfl
    · cases hx
    · exact absurd hab (hall x hx)
  cases h with
  | read loop readv => exact ⟨rfl, loop⟩
  | handleEvent revents =>
    refine hnone (.inr rfl) fun x hx => ?_
    obtain ⟨t, ht, rfl⟩ := List.mem_map.mp hx
    rcases mem_eventTasks ht with rfl | rfl | rfl | rfl
    all_goals simp
  | writeCallback hnew => exact hnone hnew.symm (by simp)
  | updateTimer hnew => exact hnone hnew (by simp [Task.about])
  | delayedClose hnew => exact hnone hnew (by simp)
  | _ => exact hnone (.inr rfl) (by simp [Task.about])

theorem ConnStep.delay (h : ConnStep who k base c l t l' events new) : l'.conn.delay = l.conn.delay := by
  by_cases ht : ∃ id, t = .storeTimerId id
  · obtain ⟨id, rfl⟩ := ht
    cases h
    rfl
  · exact (h.keeps_timerId fun id heq => ht ⟨id, heq⟩).2

variable [Fintype ι] {σ σ' : System ι} {label : Label ι}

theorem Move.updatesAtHome (h : Move label σ σ') (hest : EstablishInv c σ) (hrouted : Routed c σ)
    (hinv : UpdatesAtHome c σ) : UpdatesAtHome c σ' := by
  intro i x hx hab
  cases h.origins.1 hx with
  | old hx =>
    rw [h.loop_eq (hest.lt_connId hx hab rfl)]
    exact hinv i x hx hab
  | left hleft =>
    obtain ⟨new, ⟨todo, alive, step⟩, hnew⟩ := hleft
    rename_i k c' t' rest events
    by_cases hc : c' = c
    · subst hc
      obtain ⟨rfl, hwho⟩ := step.updates hnew hab
      rw [h.loop_eq (hest.lt_connId (mem_tasks_of_todo todo) (Task.about_conn _) rfl)]
      exact hwho
    · rw [step.about_other hc x hnew] at hab
      cases hab
  | @queued who rest todo =>
    cases hrouted.stack who _ (todo ▸ List.mem_cons_self) i x rfl _ hab
  | outside houtside hreports =>
    rcases houtside c _ hab with hincoming | heq
    · cases hincoming
    · cases heq

/-- What is known of connection `c` and of the timers, whatever the user does. -/
structure ReadState (c : Nat) (σ : System ι) : Prop where
  life : LifeInv c σ
  registered : Registered σ
  established : EstablishInv c σ
  routed : Routed c σ
  down : DownInv c σ
  alone : DownsAlone c σ
  atLoop : TimersAtLoop σ
  updates : UpdatesAtHome c σ

theorem start_readState (baseLoop : ι) (ioLoops : List ι) (delay clock : Nat) (count : UInt64) :
    ReadState c (System.start baseLoop ioLoops delay clock count) where
  life := start_lifeInv baseLoop ioLoops delay clock count
  registered := start_registered baseLoop ioLoops delay clock count
  established := start_establishInv baseLoop ioLoops delay clock count
  routed := start_routed baseLoop ioLoops delay clock count
  down := start_downInv baseLoop ioLoops delay clock count
  alone := start_downsAlone baseLoop ioLoops delay clock count
  atLoop := by
    intro i x hx
    cases hx
  updates := by
    intro i x hx
    cases hx

theorem step_readState (hstate : ReadState c σ) (hstep : σ.step label = .ok σ') : ReadState c σ' := by
  have hmove := step_move hstep
  exact {
    life := step_lifeInv hstate.life hstep
    registered := hmove.registered hstate.registered
    established := step_establishInv hstate.life hstate.registered hstate.established hstep
    routed := hmove.routed hstate.routed
    down := step_downInv hstate.life hstate.down hstep
    alone := hmove.downsAlone hstate.established hstate.routed hstate.down hstate.alone
    atLoop := (step_turn hstep).atLoop hstate.atLoop
    updates := hmove.updatesAtHome hstate.established hstate.routed hstate.updates }

theorem run_readState {baseLoop : ι} {ioLoops : List ι} {delay clock : Nat} {count : UInt64}
    {labels : List (Label ι)}
    (hrun : Machine.run System.step (System.start baseLoop ioLoops delay clock count) labels = .ok σ) :
    ReadState c σ :=
  Machine.run_inv (P := fun _ _ => True) (fun _ _ _ hinv _ hstep => step_readState hinv hstep)
    (start_readState baseLoop ioLoops delay clock count) (Machine.along_of_forall (fun _ _ => trivial) _)
    hrun

theorem step_delay (hstep : σ.step label = .ok σ') (hlt : c < σ.world.server.connId) :
    (σ'.world.conns c).delay = (σ.world.conns c).delay := by
  cases (step_move hstep).of_conn c with
  | own run todo alive step alive' connId seen total => exact step.delay
  | born fresh connId conn registered seen total alive' => omega
  | idle conn registered alive connId seen total => rw [conn]

omit [DecidableEq ι] [Fintype ι] in
theorem World.spares_of_eq {w w' : World ι} (h : w' = w) : w.Spares c w' := by
  rw [h]
  exact ⟨rfl, rfl, id, Nat.le_refl _, rfl⟩

/-- **The loop of the connection performs its task, or another thread spares the connection.** -/
theorem ReadState.turn (hstate : ReadState c σ) (hstep : σ.step label = .ok σ')
    (hlt : c < σ.world.server.connId) {t : Task ι} {below : List (Task ι)}
    (htop : σ.todo (σ.world.conns c).loop = t :: below) (ht : t.isLoopTask = false) :
    (∃ k new w, label = .run (σ.world.conns c).loop k ∧
        VServer.perform (σ.world.conns c).loop k σ.world t = .ok (w, new) ∧ σ' = { σ with
          world := w, todo := Function.update σ.todo (σ.world.conns c).loop (new ++ below) }) ∨
      σ.world.Spares c σ'.world ∧
        σ'.todo (σ.world.conns c).loop = σ.todo (σ.world.conns c).loop := by
  have hother : ∀ {who : ι} {tasks : List (Task ι)}, σ'.todo = Function.update σ.todo who tasks →
      (σ.world.conns c).loop ≠ who →
      σ'.todo (σ.world.conns c).loop = σ.todo (σ.world.conns c).loop := by
    intro who tasks htodo hne
    rw [htodo, Function.update_of_ne hne]
  have hmove := step_move hstep
  cases step_turn hstep with
  | @perform who k t' rest new w run todo result after =>
    by_cases hwho : who = (σ.world.conns c).loop
    · subst hwho
      obtain ⟨rfl, rfl⟩ := List.cons.inj (todo.symm.trans htop)
      exact .inl ⟨k, new, w, run, result, after⟩
    · obtain ⟨hclock, htimers, -⟩ := perform_timers result (hstate.atLoop who t' (mem_tasks_of_todo todo))
      refine .inr ⟨⟨hmove.loop_eq hlt, step_delay hstep hlt, ?_, ?_, ?_⟩,
        hother (by rw [after]) (Ne.symm hwho)⟩
      · refine step_isOpen hstep hlt fun k' hperforms => ?_
        -- `connectDestroyed` is on the loop of the connection
        obtain ⟨i, rest', hlabel, htodo⟩ := performs_eq_some hperforms
        cases run.symm.trans hlabel
        have htorn := hstate.alone who .setDisconnected (htodo ▸ List.mem_cons_self) rfl
        exact hwho (htorn.home nofun)
      · rw [after]
        exact Nat.le_of_eq hclock.symm
      · rw [after]
        unfold World.idleTimers
        dsimp only
        rw [htimers _ (Ne.symm hwho)]
  | @loop who t' rest new todo loopTask hnew backlog world todo' =>
    refine .inr ⟨World.spares_of_eq world, hother todo' ?_⟩
    rintro rfl
    obtain ⟨rfl, -⟩ := List.cons.inj (todo.symm.trans htop)
    rw [loopTask] at ht
    cases ht
  | @call who call label' inUserCode world loops todo' =>
    refine .inr ⟨World.spares_of_eq world, hother todo' ?_⟩
    rintro rfl
    rw [top_of_userCode inUserCode htop] at ht
    cases ht
  | @next loop calls todo hcalls backlog world todo' =>
    refine .inr ⟨World.spares_of_eq world, hother todo' ?_⟩
    rintro rfl
    rw [todo] at htop
    cases htop
  | @poll loop active todo backlog world todo' => exact .inr ⟨World.spares_of_eq world, by rw [todo']⟩
  | outside clock conns timers table server loops todo' =>
    obtain ⟨hkeeps, hidle⟩ := @World.keeps_of_timers _ c _ _ conns clock timers
    exact .inr ⟨⟨hkeeps.loop, hkeeps.delay, by rw [conns]; exact id, clock, hidle _⟩, by rw [todo']⟩

/-! ## From `updateTimer` to the message callback -/

/-- From `updateTimer` on, with the timers `old` pending. -/
structure UpdateInv (c since : Nat) (fresh : Prop) (old : List (Timer TimerCallback)) (delay : Nat)
    (who : ι) (rest : List (Task ι)) (σ : System ι) : Prop where
  born : c < σ.world.server.connId
  loop : who = (σ.world.conns c).loop
  delay : (σ.world.conns c).delay = delay
  clock : since ≤ σ.world.clock
  stage : Rearming c since fresh old σ.world (.conn c .messageCallback :: rest) (σ.todo who) ∨
    σ.todo who = .conn c .messageCallback :: rest ∧
      ∃ timer, Rearmed c fresh old σ.world timer ∧ σ.world.MadeSince c since timer

section

variable {since delay : Nat} {fresh : Prop} {old : List (Timer TimerCallback)} {who : ι}
  {rest : List (Task ι)}

omit [DecidableEq ι] [Fintype ι] in
theorem UpdateInv.top (hinv : UpdateInv c since fresh old delay who rest σ) :
    ∃ t below, σ.todo who = t :: below ∧ t.isLoopTask = false := by
  rcases hinv.stage with hway | ⟨hdone, -⟩
  · exact hway.top
  · exact ⟨_, _, hdone, rfl⟩

/-- **Every step up to the message callback** keeps to the renewal. -/
theorem UpdateInv.step (hstate : ReadState c σ) (hinv : UpdateInv c since fresh old delay who rest σ)
    (hfresh : fresh → FreshIds σ label) (hcallback : NoCallback c σ label)
    (hstep : σ.step label = .ok σ') : UpdateInv c since fresh old delay who rest σ' := by
  obtain ⟨t, below, htop, ht⟩ := hinv.top
  obtain ⟨hborn, rfl, rfl, hclock, hstage⟩ := hinv
  have hloop := (step_move hstep).loop_eq hborn
  have hdelay := step_delay hstep hborn
  have hborn' := step_lt_connId hstep hborn
  rcases hstate.turn hstep hborn htop ht with ⟨k, new, w, rfl, hperform, rfl⟩ | ⟨hspares, htodo⟩
  · rcases hstage with hway | ⟨hdone, -⟩
    · have hsame := (perform_timers hperform (hstate.atLoop _ t (mem_tasks_of_todo htop))).1
      refine ⟨hborn', hloop.symm, hdelay, Nat.le_trans hclock (Nat.le_of_eq hsame.symm), ?_⟩
      dsimp only
      rw [Function.update_self]
      rw [htop] at hway
      exact hway.step rfl (fun hf => (hfresh hf).freshAt htop) hclock hperform
    · unfold NoCallback at hcallback
      rw [performs_of_todo hdone] at hcallback
      exact absurd rfl hcallback
  · refine ⟨hborn', hloop.symm, hdelay, Nat.le_trans hclock hspares.clock, ?_⟩
    rw [htodo]
    exact hstage.imp (fun hway => hway.spares hspares) fun ⟨hdone, timer, hrearmed, hmade⟩ =>
      ⟨hdone, timer, hrearmed.spares hspares, hmade.later hspares.delay hspares.clock⟩

end

/-- In state `σ`, `handleRead` has received something on connection `c`, which is open, and comes to
`updateTimer`; `labels` lead to the message callback. -/
structure Updates (c : Nat) (σ : System ι) (labels : List (Label ι)) (σ' : System ι) : Prop where
  isOpen : (σ.world.conns c).isOpen = true
  run : Machine.run System.step σ labels = .ok σ'
  before : Machine.Along System.step (NoCallback c) σ labels
  updates : ∃ who k more rest, labels = .run who k :: more ∧
    σ.todo who = .conn c .updateTimer :: .conn c .messageCallback :: rest ∧
    σ'.todo who = .conn c .messageCallback :: rest

omit [DecidableEq ι] [Fintype ι] in
theorem mem_deadlines {w : World ι} {deadline : Nat} : deadline ∈ w.deadlines c ↔
    ∃ timer ∈ w.idleTimers c (w.conns c).loop, timer.expire = deadline := List.mem_map

omit [DecidableEq ι] [Fintype ι] in
theorem first_le {w : World ι} {first deadline : Nat} (hfirst : (w.deadlines c).min? = some first)
    (h : deadline ∈ w.deadlines c) : first ≤ deadline :=
  (List.min?_eq_some_iff.mp hfirst).2 deadline h

/-- While the loop is in front of the message callback, nothing happens to the timers. -/
theorem run_waiting {who : ι} {rest : List (Task ι)} {labels : List (Label ι)}
    (hstate : ReadState c σ) (hlt : c < σ.world.server.connId) (hwho : who = (σ.world.conns c).loop)
    (htodo : σ.todo who = .conn c .messageCallback :: rest)
    (hbefore : Machine.Along System.step (NoCallback c) σ labels)
    (hrun : Machine.run System.step σ labels = .ok σ') : σ.world.Spares c σ'.world := by
  have hinv := Machine.run_inv
    (I := fun τ => ReadState c τ ∧ c < τ.world.server.connId ∧
      τ.todo who = .conn c .messageCallback :: rest ∧ σ.world.Spares c τ.world)
    (fun τ label τ' hinv hcallback hstep => by
      obtain ⟨hstate, hlt, htodo, hspares⟩ := hinv
      rw [hwho, ← hspares.loop] at htodo ⊢
      refine ⟨step_readState hstate hstep, step_lt_connId hstep hlt, ?_⟩
      rcases hstate.turn hstep hlt htodo rfl with ⟨k, new, w, rfl, -, -⟩ | ⟨hnext, htodo'⟩
      · unfold NoCallback at hcallback
        rw [performs_of_todo htodo] at hcallback
        exact absurd rfl hcallback
      · exact ⟨htodo'.trans htodo, hspares.trans hnext⟩)
    ⟨hstate, hlt, htodo, World.spares_of_eq rfl⟩ hbefore hrun
  exact hinv.2.2.2

theorem update_eq_ok {who : ι} {k : Kernel} {rest : List (Task ι)}
    (htodo : σ.todo who = .conn c .updateTimer :: rest) (hstep : σ.step (.run who k) = .ok σ') :
    σ'.world = σ.world ∧ σ'.todo who =
      (if (σ.world.conns c).isTimed then
        [runInLoop who (σ.world.conns c).loop
            (.cancelInloop (σ.world.conns c).loop (σ.world.conns c).timerId),
          .conn c (.forceCloseAfter (σ.world.conns c).delay)]
      else []) ++ rest := by
  obtain ⟨-, w, new, hperform, rfl⟩ := step_conn_eq_ok htodo hstep
  cases hperform
  exact ⟨rfl, Function.update_self _ _ _⟩

theorem ReadState.rearms {who : ι} {k : Kernel} {rest : List (Task ι)} {more : List (Label ι)}
    {fresh : Prop} {σ₁ : System ι} (hstate : ReadState c σ) (hlt : c < σ.world.server.connId)
    (hwho : who = (σ.world.conns c).loop) (hopen : (σ.world.conns c).isOpen = true)
    (htimed : (σ.world.conns c).isTimed = true)
    (htodo : σ.todo who = .conn c .updateTimer :: .conn c .messageCallback :: rest)
    (hstep : σ.step (.run who k) = .ok σ₁)
    (hfresh : Machine.Along System.step (fun τ label => fresh → FreshIds τ label) σ₁ more)
    (hbefore : Machine.Along System.step (NoCallback c) σ₁ more)
    (hrun : Machine.run System.step σ₁ more = .ok σ')
    (htodo' : σ'.todo who = .conn c .messageCallback :: rest) :
    ∃ timer, Rearmed c fresh (σ.world.idleTimers c who) σ'.world timer ∧
      σ'.world.MadeSince c σ.world.clock timer ∧ (σ'.world.conns c).delay = (σ.world.conns c).delay := by
  obtain ⟨hworld, hleft⟩ := update_eq_ok htodo hstep
  have hdirect : ∀ f : Task ι, runInLoop who (σ.world.conns c).loop f = f := fun f => if_pos hwho
  have hinv₁ : UpdateInv c σ.world.clock fresh (σ.world.idleTimers c who) (σ.world.conns c).delay
      who rest σ₁ := by
    refine ⟨step_lt_connId hstep hlt, by rw [hworld, hwho], by rw [hworld],
      Nat.le_of_eq (by rw [hworld]), .inl ?_⟩
    rw [hworld, hleft, if_pos htimed, hdirect, hwho]
    exact .cancel hopen (List.Subset.refl _)
  obtain ⟨-, hinv⟩ := Machine.run_inv
    (I := fun τ => ReadState c τ ∧
      UpdateInv c σ.world.clock fresh (σ.world.idleTimers c who) (σ.world.conns c).delay who rest τ)
    (fun _ _ _ hinv hlabel hstep => ⟨step_readState hinv.1 hstep,
      hinv.2.step hinv.1 hlabel.1 hlabel.2 hstep⟩)
    ⟨step_readState hstate hstep, hinv₁⟩ (hfresh.and hbefore) hrun
  rcases hinv.stage with hway | ⟨-, timer, hrearmed, hmade⟩
  · rw [htodo'] at hway
    cases hway
  · exact ⟨timer, hrearmed, hmade, hinv.delay⟩

/-- **When a read does not hasten the forced close.** -/
theorem earliest_kept_iff {baseLoop : ι} {ioLoops : List ι} {delay clock : Nat} {count : UInt64}
    {labels more : List (Label ι)}
    (hrun : Machine.run System.step (System.start baseLoop ioLoops delay clock count) labels = .ok σ)
    (hupdates : Updates c σ more σ') :
    ∃ t, σ.world.clock ≤ t ∧ t ≤ σ'.world.clock ∧
      (KeepsPace c σ.world t → NotHastened c σ.world σ'.world) ∧
      (Machine.Along System.step FreshIds σ more → NotHastened c σ.world σ'.world →
        KeepsPace c σ.world t) := by
  have hstate : ReadState c σ := run_readState hrun
  obtain ⟨hopen, hmore, hbefore, who, k, later, rest, rfl, htodo, htodo'⟩ := hupdates
  have hmem : .conn c .updateTimer ∈ σ.tasks who := mem_tasks_of_todo htodo
  have hwho := hstate.updates who _ hmem (Task.about_conn _)
  have hlt := hstate.established.lt_connId hmem (Task.about_conn _) rfl
  obtain ⟨σ₁, hstep, hlater⟩ := Machine.run_cons_inv hmore
  by_cases htimed : (σ.world.conns c).isTimed = true
  · have hids : Machine.Along System.step FreshIds σ (.run who k :: later) →
        Machine.Along System.step FreshIds σ₁ later := fun hfresh => hfresh.2 σ₁ hstep
    obtain ⟨timer, hrearmed, ⟨t, hsince, hle, hexpire⟩, hdelay⟩ := hstate.rearms hlt hwho hopen htimed
      htodo hstep (Machine.along_imp hids) (hbefore.2 σ₁ hstep) hlater htodo'
    rw [hdelay] at hexpire
    subst hwho
    refine ⟨t, hsince, hle, fun hpace first hfirst deadline hdeadline => ?_,
      fun hfresh hkept _ first hfirst => ?_⟩
    · obtain ⟨u, hu, rfl⟩ := mem_deadlines.mp hdeadline
      rcases hrearmed.pending u hu with rfl | hold
      · rw [hexpire]
        exact hpace htimed first hfirst
      · exact first_le hfirst (mem_deadlines.mpr ⟨u, hold, rfl⟩)
    · rw [← hexpire]
      exact hkept first hfirst _ (mem_deadlines.mpr ⟨timer, hrearmed.made hfresh, rfl⟩)
  · -- nothing is done about the timers
    obtain ⟨hworld, hleft⟩ := update_eq_ok htodo hstep
    rw [if_neg htimed] at hleft
    have hspares := run_waiting (step_readState hstate hstep) (step_lt_connId hstep hlt)
      (by rw [hworld]; exact hwho) hleft (hbefore.2 σ₁ hstep) hlater
    rw [hworld] at hspares
    have hdeadlines : σ'.world.deadlines c = σ.world.deadlines c := by
      unfold World.deadlines
      rw [hspares.loop, hspares.timers]
    refine ⟨σ.world.clock, Nat.le_refl _, hspares.clock, fun _ first hfirst deadline hdeadline => ?_,
      fun _ _ htrue => absurd htrue htimed⟩
    rw [hdeadlines] at hdeadline
    exact first_le hfirst hdeadline

end

/-- The user asks in the connection callback that the connection is closed after `ms`; the loop performs
`n` tasks behind the callback. One second later two bytes arrive, and `handleRead` reads them. -/
def deadlineRun (ms n : Nat) : List (Label (Fin 1)) :=
  acceptRun ++ [Label.call 0 (.forceCloseAfter 0 ms)] ++ Label.runs 0 5 ++ [Label.ret 0] ++
    Label.runs 0 n ++ [Label.tick (10 ^ 9), .next 0, .next 0] ++
    [Label.poll 0 [.conn 0 Epoll.epollIn], .next 0] ++ Label.runs 0 1 ++
    [Label.run 0 ⟨some [1, 2], none, none⟩]

/-- The loop comes to the message callback after seven tasks, in a state that satisfies `P`. -/
def rearms (P : System (Fin 1) → Bool) (σ : System (Fin 1)) : Bool :=
  decide ((σ.world.conns 0).isOpen = true ∧
    σ.todo 0 = [.conn 0 .updateTimer, .conn 0 .messageCallback, .conn 0 .writeCallback]) &&
  Machine.check System.step (NoCallback 0) σ (Label.runs 0 7) &&
  match Machine.run System.step σ (Label.runs 0 7) with
  | .ok σ' => decide (σ'.todo 0 = [.conn 0 .messageCallback, .conn 0 .writeCallback]) && P σ'
  | .error _ => false

theorem updates_of_rearms {P : System (Fin 1) → Bool} {σ : System (Fin 1)} (h : rearms P σ = true) :
    ∃ σ', Updates 0 σ (Label.runs 0 7) σ' ∧ P σ' = true := by
  unfold rearms at h
  simp only [Bool.and_eq_true, decide_eq_true_eq] at h
  obtain ⟨⟨⟨hopen, htodo⟩, hbefore⟩, hrun⟩ := h
  split at hrun
  · rename_i σ' hσ'
    rw [Bool.and_eq_true, decide_eq_true_eq] at hrun
    exact ⟨σ', ⟨hopen, hσ', Machine.along_of_check hbefore, 0, _, _, _, rfl, htodo, hrun.1⟩, hrun.2⟩
  · cases hrun

/-- The server closes after five seconds, and the user asked for three. -/
theorem earliest_kept_iff_three :
    ∃ σ σ', Machine.run System.step (System.start (0 : Fin 1) [] 5000 0 0) (deadlineRun 3000 6) = .ok σ ∧
      Updates 0 σ (Label.runs 0 7) σ' ∧ σ.world.deadlines 0 = [3000, 5000] ∧
      NotHastened 0 σ.world σ'.world := by
  obtain ⟨σ, hrun, hobserved⟩ := eq_ok_of_toOption (b := true)
    (f := fun σ : System (Fin 1) => decide (σ.world.clock = 10 ^ 9 ∧ (σ.world.conns 0).delay = 5000 ∧
        σ.world.deadlines 0 = [3000, 5000]) && rearms (fun σ' => σ'.world.clock = 10 ^ 9) σ)
    (x := Machine.run System.step (System.start 0 [] 5000 0 0) (deadlineRun 3000 6)) (by decide +kernel)
  obtain ⟨hstate, hrearms⟩ := Bool.and_eq_true_iff.mp hobserved
  obtain ⟨hclock, hdelay, hdeadlines⟩ := of_decide_eq_true hstate
  obtain ⟨σ', hupdates, hclock'⟩ := updates_of_rearms hrearms
  obtain ⟨t, hle, hle', hkept, -⟩ := earliest_kept_iff hrun hupdates
  have ht : t = 10 ^ 9 := by
    have hclock' := of_decide_eq_true hclock'
    omega
  refine ⟨σ, σ', hrun, hupdates, hdeadlines, hkept fun _ first hfirst => ?_⟩
  rw [hdeadlines] at hfirst
  rw [ht, hdelay, ← Option.some.inj hfirst]
  decide

/-- **A read closes the connection at once.** The server closes no connection by itself, and the user
asked for five seconds. -/
theorem read_hastens :
    ∃ σ σ', Machine.run System.step (System.start (0 : Fin 1) [] 0 0 0) (deadlineRun 5000 1) = .ok σ ∧
      Updates 0 σ (Label.runs 0 7) σ' ∧ ¬ NotHastened 0 σ.world σ'.world := by
  obtain ⟨σ, hrun, hobserved⟩ := eq_ok_of_toOption (b := true)
    (f := fun σ : System (Fin 1) => decide (σ.world.deadlines 0 = [5000]) &&
      rearms (fun σ' => σ'.world.deadlines 0 = [1000]) σ)
    (x := Machine.run System.step (System.start 0 [] 0 0 0) (deadlineRun 5000 1)) (by decide +kernel)
  obtain ⟨hdeadlines, hrearms⟩ := Bool.and_eq_true_iff.mp hobserved
  obtain ⟨σ', hupdates, hdeadlines'⟩ := updates_of_rearms hrearms
  refine ⟨σ, σ', hrun, hupdates, fun hkept => ?_⟩
  have hle := hkept 5000 (by rw [of_decide_eq_true hdeadlines]; rfl) 1000
    (by rw [of_decide_eq_true hdeadlines']; exact List.mem_singleton_self _)
  omega

end VServer
