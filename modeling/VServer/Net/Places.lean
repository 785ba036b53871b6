import VServer.Net.Notifications
import VServer.Net.Ownership

/-!
# Where the tasks of a connection lie

A task of a connection is queued only if it is one of the functors the code queues (`isFunctor`), and
an active channel only calls `handleEvent` (`Routed`). What an event leads to is done on the loop of
the connection (`ClosesAtHome`). So `connectDestroyed` starts with the stack of its thread empty, and
while it waits for the connection callback, that is all that lies above it (`TornDown`): the thread of
the loop does nothing to the channel until the channel is removed.
-/

namespace VServer

variable {ι : Type}

/-! ## Queues -/

/-- The task is one that is handed to `runInLoop` or `queueInLoop`. -/
def ConnTask.isFunctor : ConnTask ι → Bool
  | .connectEstablished | .connectDestroyed | .sendInLoop _ _ | .shutdownInLoop | .forceCloseInLoop
  | .removeConnectionInLoop => true
  | _ => false

/-- What the task does to connection `c` may be done by a queue. -/
def Task.Queued (c : Nat) (x : Task ι) : Prop := ∀ t, x.about c = some t → t.isFunctor = true

def Task.Handed (c : Nat) (x : Task ι) : Prop := ∀ loop f, x = .queueInLoop loop f → f.Queued c

/-- Where the tasks of connection `c` are that are no part of a function. -/
structure Routed (c : Nat) (σ : System ι) : Prop where
  stack : ∀ i, ∀ x ∈ σ.todo i, x.Handed c
  queue : ∀ i, ∀ x ∈ (σ.loops i).pendingFuncs, x.Queued c
  functors : ∀ i funcs, (σ.loops i).phase = .functors funcs → ∀ x ∈ funcs, x.Queued c
  events : ∀ i active, (σ.loops i).phase = .events active → ∀ x ∈ active, ∃ a, x = ActiveChannel.task i a

section

variable {c : Nat} {x : Task ι}

theorem Task.Queued.handed (h : x.Queued c) : x.Handed c := by
  rintro loop f rfl t hab
  exact h t hab

theorem queued_of_about (h : x.about c = none) : x.Queued c := by
  intro t hab
  rw [h] at hab
  cases hab

theorem handed_conn {c' : Nat} (t : ConnTask ι) : (Task.conn c' t).Handed c := by
  rintro loop f ⟨⟩

theorem handed_active (i : ι) (a : ActiveChannel) : (a.task i).Handed c := by
  intro loop f h
  cases a
  all_goals cases h

theorem queued_functor {t : ConnTask ι} (h : t.isFunctor = true) : (Task.conn c t).Queued c := by
  intro t' hab
  rw [Task.about_conn] at hab
  cases hab
  exact h

variable [DecidableEq ι]

theorem handed_runInLoop {who loop : ι} (h : x.Queued c) : (runInLoop who loop x).Handed c := by
  refine Task.Queued.handed fun t hab => h t ?_
  rwa [Task.about_runInLoop] at hab

variable {who : ι} {k : Kernel} {base : ι} {l l' : Link ι} {t : ConnTask ι}
  {events : List (ConnEvent ι)} {new : List (Task ι)}

theorem ConnStep.handed (h : ConnStep who k base c l t l' events new) : ∀ x ∈ new, x.Handed c := by
  have hfunctor : ∀ {t : ConnTask ι} {loop : ι}, t.isFunctor = true →
      (runInLoop who loop (.conn c t)).Handed c := fun ht => handed_runInLoop (queued_functor ht)
  cases h with
  | handleEvent revents =>
    intro x hx
    obtain ⟨t, -, rfl⟩ := List.mem_map.mp hx
    exact handed_conn t
  | writeCallback hnew =>
    refine forall_mem_of_either hnew.symm ?_
    exact List.forall_mem_singleton.mpr (handed_conn _)
  | updateTimer hnew =>
    refine forall_mem_of_either hnew ?_
    exact List.forall_mem_cons.mpr
      ⟨handed_runInLoop (queued_of_about rfl), List.forall_mem_singleton.mpr (handed_conn _)⟩
  | delayedClose hnew =>
    refine forall_mem_of_either hnew ?_
    exact List.forall_mem_singleton.mpr (handed_conn _)
  | runForceCloseAfter timer =>
    exact List.forall_mem_cons.mpr
      ⟨handed_runInLoop (queued_of_about rfl), List.forall_mem_singleton.mpr (handed_conn _)⟩
  | send connected =>
    exact List.forall_mem_singleton.mpr (hfunctor rfl)
  | shutdown connected =>
    exact List.forall_mem_cons.mpr ⟨handed_conn _, List.forall_mem_singleton.mpr (hfunctor rfl)⟩
  | removeConnection =>
    exact List.forall_mem_singleton.mpr (hfunctor rfl)
  | forceClose isOpen =>
    refine List.forall_mem_cons.mpr ⟨handed_conn _, List.forall_mem_singleton.mpr ?_⟩
    rintro loop f ⟨⟩
    exact queued_functor rfl
  | removeConnectionInLoop loop registered =>
    refine List.forall_mem_singleton.mpr ?_
    rintro loop f ⟨⟩
    exact queued_functor rfl
  | _ => simp [Task.Handed]

theorem handed_call (who : ι) (call : UserCall ι) : (call.task who).Handed c := by
  cases call with
  | runInLoop loop => exact handed_runInLoop (queued_of_about rfl)
  | cancel loop id => exact handed_runInLoop (queued_of_about rfl)
  | queueInLoop loop =>
    rintro loop f ⟨⟩
    exact queued_of_about rfl
  | send c' m => exact handed_conn _
  | shutdown c' => exact handed_conn _
  | forceClose c' => exact handed_conn _
  | forceCloseAfter c' ms => exact handed_conn _
  | runAfter loop ms => rintro loop f ⟨⟩
  | quit loop => rintro loop f ⟨⟩

end

section

variable {σ σ' : System ι} {c : Nat}

theorem Routed.of_same (h : Routed c σ) (htodo : σ'.todo = σ.todo) (hloops : σ'.loops = σ.loops) :
    Routed c σ' := by
  obtain ⟨hstack, hqueue, hfunctors, hevents⟩ := h
  rw [← htodo] at hstack
  rw [← hloops] at hqueue hfunctors hevents
  exact ⟨hstack, hqueue, hfunctors, hevents⟩

variable [DecidableEq ι]

theorem Routed.exchange (h : Routed c σ) {who : ι} {T : Task ι} {rest new : List (Task ι)}
    (htodo : σ.todo who = T :: rest) (htodo' : σ'.todo = Function.update σ.todo who (new ++ rest))
    (hnew : ∀ x ∈ new, x.Handed c) (i : ι) : ∀ x ∈ σ'.todo i, x.Handed c := by
  intro x hx
  rw [htodo'] at hx
  by_cases hi : i = who
  · subst hi
    rw [Function.update_self] at hx
    rcases List.mem_append.mp hx with hx | hx
    · exact hnew x hx
    · exact h.stack i x (htodo ▸ List.mem_cons_of_mem _ hx)
  · rw [Function.update_of_ne hi] at hx
    exact h.stack i x hx

theorem Move.routed {label : Label ι} (h : Move label σ σ') (hinv : Routed c σ) : Routed c σ' := by
  -- the loops are as they were
  have hloops : ∀ {who : ι} {T : Task ι} {rest new : List (Task ι)}, σ.todo who = T :: rest →
      σ'.todo = Function.update σ.todo who (new ++ rest) → (∀ x ∈ new, x.Handed c) →
      (∀ i, (σ'.loops i).phase = (σ.loops i).phase) →
      (∀ i, ∀ x ∈ (σ'.loops i).pendingFuncs, x.Queued c) → Routed c σ' := by
    intro who T rest new htodo htodo' hnew hphase hqueue
    refine ⟨hinv.exchange htodo htodo' hnew, hqueue, fun i funcs hf => ?_, fun i active ha => ?_⟩
    · exact hinv.functors i funcs ((hphase i).symm.trans hf)
    · exact hinv.events i active ((hphase i).symm.trans ha)
  cases h with
  | @conn who k c' t rest new events run todo alive step framed loops todo' =>
    refine hloops todo todo' ?_ (fun i => by rw [loops]) fun i => by rw [loops]; exact hinv.queue i
    intro x hx
    by_cases hc : c' = c
    · subst hc
      exact step.handed x hx
    · exact (queued_of_about (step.about_other hc x hx)).handed
  | @born who loop c' rest todo born loops todo' =>
    refine hloops todo todo' ?_ (fun i => by rw [loops]) fun i => by rw [loops]; exact hinv.queue i
    intro x hx
    rw [List.mem_singleton.mp hx]
    by_cases hc : c' = c
    · subst hc
      exact handed_runInLoop (queued_functor rfl)
    · exact handed_runInLoop (queued_of_about (Task.about_conn_of_ne _ hc))
  | @other who t rest new todo about hnew world phase pendingFuncs todo' =>
    refine hloops todo todo' ?_ phase fun i => by rw [pendingFuncs]; exact hinv.queue i
    intro x hx
    rcases hnew x hx c with hnone | ⟨rfl, -⟩
    · exact (queued_of_about hnone).handed
    · exact handed_conn _
  | @queue who loop f rest new todo hnew world loops todo' =>
    have hf : f.Queued c := hinv.stack who _ (todo ▸ List.mem_cons_self) loop f rfl
    refine hloops todo todo' ?_ (fun i => ?_) fun i x hx => ?_
    · intro x hx
      rcases hnew with rfl | rfl
      · cases hx
      · rw [List.mem_singleton.mp hx]
        exact (queued_of_about rfl).handed
    · rw [loops]
      by_cases hi : i = loop
      · rw [hi, Function.update_self]
        rfl
      · rw [Function.update_of_ne hi]
    · rw [loops] at hx
      by_cases hi : i = loop
      · rw [hi, Function.update_self] at hx
        rcases List.mem_append.mp hx with hx | hx
        · exact hinv.queue loop x hx
        · rwa [List.mem_singleton.mp hx]
      · rw [Function.update_of_ne hi] at hx
        exact hinv.queue i x hx
  | @call who call inUserCode knows world loops todo' =>
    obtain ⟨hstack, hqueue, hfunctors, hevents⟩ := hinv
    rw [← loops] at hqueue hfunctors hevents
    refine ⟨fun i x hx => ?_, hqueue, hfunctors, hevents⟩
    rw [todo'] at hx
    by_cases hi : i = who
    · subst hi
      rw [Function.update_self] at hx
      rcases List.mem_cons.mp hx with rfl | hx
      · exact handed_call i call
      · exact hstack i x hx
    · rw [Function.update_of_ne hi] at hx
      exact hstack i x hx
  | @poll loop active todo phase reports world loops todo' =>
    refine ⟨by rw [todo']; exact hinv.stack, fun i x hx => ?_, fun i funcs hf => ?_, fun i acts ha => ?_⟩
    all_goals by_cases hi : i = loop
    · rw [loops, hi, Function.update_self] at hx
      exact hinv.queue loop x hx
    · rw [loops, Function.update_of_ne hi] at hx
      exact hinv.queue i x hx
    · rw [loops, hi, Function.update_self] at hf
      cases hf
    · rw [loops, Function.update_of_ne hi] at hf
      exact hinv.functors i funcs hf
    · rw [loops, hi, Function.update_self] at ha
      cases ha
      intro x hx
      obtain ⟨a, -, rfl⟩ := List.mem_map.mp hx
      exact ⟨a, by rw [hi]⟩
    · rw [loops, Function.update_of_ne hi] at ha
      exact hinv.events i acts ha
  | @next loop l calls todo hnext world loops todo' =>
    obtain ⟨hstack, hqueue, hfunctors, hevents⟩ := hinv
    have hloop : ∀ i, i ≠ loop → σ'.todo i = σ.todo i ∧ σ'.loops i = σ.loops i := fun i hi =>
      ⟨by rw [todo', Function.update_of_ne hi], by rw [loops, Function.update_of_ne hi]⟩
    -- what the loop goes on with, and what it calls
    have hnew : (∀ x ∈ calls, x.Handed c) ∧ (∀ x ∈ l.pendingFuncs, x.Queued c) ∧
        (∀ funcs, l.phase = .functors funcs → ∀ x ∈ funcs, x.Queued c) ∧
        ∀ active, l.phase = .events active → ∀ x ∈ active, ∃ a, x = ActiveChannel.task loop a := by
      rcases EventLoop.next_cases hnext with ⟨call, active, hphase, rfl, rfl⟩ |
        ⟨f, funcs, hphase, rfl, rfl⟩ | ⟨rfl, hnoEvents, hfirst, hpending⟩
      · refine ⟨fun x hx => ?_, hqueue loop, nofun, ?_⟩
        · obtain ⟨a, ha⟩ := hevents loop _ hphase call List.mem_cons_self
          rw [List.mem_singleton.mp hx, ha]
          exact handed_active loop a
        · rintro active ⟨⟩ x hx
          exact hevents loop _ hphase x (List.mem_cons_of_mem _ hx)
      · refine ⟨fun x hx => ?_, hqueue loop, ?_, nofun⟩
        · rw [List.mem_singleton.mp hx]
          exact (hfunctors loop _ hphase f List.mem_cons_self).handed
        · rintro funcs ⟨⟩ x hx
          exact hfunctors loop _ hphase x (List.mem_cons_of_mem _ hx)
      · refine ⟨nofun, fun x hx => hqueue loop x (hpending x hx), fun funcs hf => ?_,
          fun active ha => absurd ha (hnoEvents active)⟩
        rw [hfirst funcs hf]
        exact hqueue loop
    obtain ⟨hcalls, hpending, hfuncs, hactive⟩ := hnew
    refine ⟨fun i => ?_, fun i => ?_, fun i => ?_, fun i => ?_⟩
    all_goals by_cases hi : i = loop
    · rw [hi, todo', Function.update_self]
      exact hcalls
    · rw [(hloop i hi).1]
      exact hstack i
    · rw [hi, loops, Function.update_self]
      exact hpending
    · rw [(hloop i hi).2]
      exact hqueue i
    · rw [hi, loops, Function.update_self]
      exact hfuncs
    · rw [(hloop i hi).2]
      exact hfunctors i
    · rw [hi, loops, Function.update_self]
      exact hactive
    · rw [(hloop i hi).2]
      exact hevents i
  | time world loops todo' => exact hinv.of_same todo' loops
  | destroy alive refers conns alive' pollers channels epoll server log loops todo' =>
    exact hinv.of_same todo' loops

theorem start_routed (baseLoop : ι) (ioLoops : List ι) (delay clock : Nat) (count : UInt64) :
    Routed c (System.start baseLoop ioLoops delay clock count) := ⟨nofun, nofun, nofun, nofun⟩

omit [DecidableEq ι] in
theorem Routed.backlog (h : Routed c σ) {i : ι} {x : Task ι} (hx : x ∈ (σ.loops i).backlog) :
    x.Queued c ∨ ∃ a active, (σ.loops i).phase = .events active ∧ x = ActiveChannel.task i a := by
  unfold EventLoop.backlog at hx
  split at hx
  · rename_i active hphase
    rcases List.mem_append.mp hx with hx | hx
    · obtain ⟨a, rfl⟩ := h.events i active hphase x hx
      exact .inr ⟨a, active, hphase, rfl⟩
    · exact .inl (h.queue i x hx)
  · rename_i funcs hphase
    rcases List.mem_append.mp hx with hx | hx
    · exact .inl (h.functors i funcs hphase x hx)
    · exact .inl (h.queue i x hx)
  · exact .inl (h.queue i x hx)

omit [DecidableEq ι] in
theorem Routed.direct (h : Routed c σ) {i : ι} {x : Task ι} (hx : x ∈ σ.tasks i) {t : ConnTask ι}
    (hab : x.about c = some t) (ht : t.isFunctor = false) : x = .conn c t := by
  have hcases : x.Handed c := by
    rcases List.mem_append.mp hx with hx | hx
    · exact h.stack i x hx
    · rcases h.backlog hx with hqueued | ⟨a, -, -, rfl⟩
      · exact hqueued.handed
      · exact handed_active i a
  cases x with
  | conn c' t' =>
    unfold Task.about at hab
    split_ifs at hab with hc
    cases hab
    rw [hc]
  | queueInLoop loop f =>
    have hfunctor := hcases loop f rfl t hab
    rw [ht] at hfunctor
    cases hfunctor
  | _ => cases hab

end

/-! ## Events -/

/-- The tasks an event leads to, as far as it may close the connection. -/
def ConnTask.closes : ConnTask ι → Nat
  | .handleEvent _ | .handleRead | .handleClose => 1
  | _ => 0

theorem closes_le_one (t : ConnTask ι) : t.closes ≤ 1 := by
  cases t
  all_goals simp [ConnTask.closes]

/-- What an event leads to is left to the loop of connection `c`. -/
def ClosesAtHome (c : Nat) (σ : System ι) : Prop :=
  ∀ i, ∀ x ∈ σ.tasks i, ∀ t, x.about c = some t → t.closes = 1 → i = (σ.world.conns c).loop

theorem isFunctor_of_closes {t : ConnTask ι} : t.closes = 1 → t.isFunctor = false := by
  cases t
  all_goals first
    | exact fun _ => rfl
    | exact nofun

theorem exists_handleEvent {t : ConnTask ι} (hclose : t.closes = 1) (ht : t.isIncoming = true) :
    ∃ revents, t = .handleEvent revents := by
  cases t with
  | handleEvent revents => exact ⟨revents, rfl⟩
  | handleRead => cases ht
  | handleClose => cases ht
  | _ => cases hclose

section

variable [DecidableEq ι] {who : ι} {k : Kernel} {base : ι} {c : Nat} {l l' : Link ι} {t : ConnTask ι}
  {events : List (ConnEvent ι)} {new : List (Task ι)}

theorem ConnStep.closes (h : ConnStep who k base c l t l' events new) {x : Task ι} (hx : x ∈ new)
    {t' : ConnTask ι} (hab : x.about c = some t') (ht' : t'.closes = 1) :
    t.closes = 1 ∨ t = .forceCloseInLoop ∧ who = l.conn.loop ∧ l.conn.isOpen = true := by
  have heither : ∀ {new' : List (Task ι)}, new = [] ∨ new = new' →
      (∀ x ∈ new', ∀ t', x.about c = some t' → t'.closes = 0) → t.closes = 1 := by
    intro new' hnew hall
    rcases hnew with rfl | rfl
    · cases hx
    · have hzero := hall x hx t' hab
      omega
  cases h with
  | handleEvent revents => exact .inl rfl
  | eof loop readv empty => exact .inl rfl
  | read loop readv => exact .inl rfl
  | handleClose loop isOpen result => exact .inl rfl
  | forceCloseInLoop loop isOpen => exact .inr ⟨rfl, loop, isOpen⟩
  | writeCallback hnew =>
    refine .inl (heither hnew.symm ?_)
    simp [ConnTask.closes]
  | updateTimer hnew =>
    refine .inl (heither hnew ?_)
    simp [ConnTask.closes, Task.about]
  | delayedClose hnew =>
    refine .inl (heither hnew ?_)
    simp [ConnTask.closes]
  | _ =>
    refine .inl (heither (.inr rfl) ?_)
    simp [ConnTask.closes, Task.about]

variable [Fintype ι] {σ σ' : System ι} {label : Label ι}

omit [DecidableEq ι] in
theorem EstablishInv.lt_connId [DecidableEq ι] (h : EstablishInv c σ) {i : ι} {x : Task ι}
    (hx : x ∈ σ.tasks i) (hab : x.about c = some t) (ht : t.isLater = true) :
    c < σ.world.server.connId := by
  by_contra hlt
  have hzero := (h.unborn (by omega)).2
  have hle := Tokens.le_total (m := Task.weight c ConnTask.later) hx
  have hweight : x.weight c ConnTask.later = 1 := by
    rw [Task.weight, hab]
    exact if_pos ht
  unfold System.total at hzero
  omega

omit [DecidableEq ι] [Fintype ι] in
theorem isLater_of_closes {t : ConnTask ι} : t.closes = 1 → t.isLater = true := by
  cases t
  all_goals first
    | exact fun _ => rfl
    | exact nofun

theorem Move.closesAtHome (h : Move label σ σ') (hreg : Registered σ) (hest : EstablishInv c σ)
    (hrouted : Routed c σ) (hinv : ClosesAtHome c σ) : ClosesAtHome c σ' := by
  intro i x hx t hab ht
  have hold : ∀ {i : ι}, x ∈ σ.tasks i → (σ'.world.conns c).loop = (σ.world.conns c).loop :=
    fun hx => h.loop_eq (hest.lt_connId hx hab (isLater_of_closes ht))
  cases h.origins.1 hx with
  | old hx =>
    rw [hold hx]
    exact hinv i x hx t hab ht
  | left hleft =>
    obtain ⟨new, ⟨todo, alive, step⟩, hnew⟩ := hleft
    rename_i k c' t' rest events
    by_cases hc : c' = c
    · subst hc
      have htop := mem_tasks_of_todo todo
      have hloop : i = (σ.world.conns c').loop := by
        rcases step.closes hnew hab ht with ht' | ⟨-, hwho, -⟩
        · exact hinv i _ htop t' (Task.about_conn t') ht'
        · exact hwho
      have hlater : t'.isLater = true := by
        rcases step.closes hnew hab ht with ht' | ⟨rfl, -, -⟩
        · exact isLater_of_closes ht'
        · rfl
      rw [h.loop_eq (hest.lt_connId htop (Task.about_conn t') hlater)]
      exact hloop
    · rw [step.about_other hc x hnew] at hab
      cases hab
  | @queued who rest todo =>
    -- what an event leads to is no functor
    have hfunctor := hrouted.stack who _ (todo ▸ List.mem_cons_self) i x rfl t hab
    rw [isFunctor_of_closes ht] at hfunctor
    cases hfunctor
  | outside houtside hreports =>
    rcases houtside c t hab with hincoming | rfl
    · obtain ⟨revents, rfl⟩ := exists_handleEvent ht hincoming
      obtain ⟨halive, hloop, -⟩ := hreg.reports_iff.mp (hreports c _ hab)
      rw [h.loop_eq (hreg.born c halive)]
      exact hloop.symm
    · cases ht

end

/-! ## `connectDestroyed` -/

/-- Connection `c` is not connected once `connectDestroyed` has set it `kDisconnected`, or has gone
past that. -/
def DownInv [DecidableEq ι] [Fintype ι] (c : Nat) (σ : System ι) : Prop :=
  0 < σ.pending c .notifyDown + σ.pending c .channelRemove +
      (σ.world.life c).countP ConnEvent.isDestroyed →
    (σ.world.conns c).state ≠ .kConnected

/-- What the user may do to a connection, and what that leaves when the connection is not connected. -/
def ConnTask.isHarmless : ConnTask ι → Bool
  | .setDisconnecting | .runForceCloseAfter _ | .storeTimerId _ => true
  | t => t.isCall

def Task.Harmless (c : Nat) (x : Task ι) : Prop := ∀ t, x = .conn c t → t.isHarmless = true

/-- Thread `i` is at `t`, which is a part of `connectDestroyed`, as the functor of its loop: what lies
above comes from the connection callback. -/
structure TornDown (c : Nat) (σ : System ι) (i : ι) (t : ConnTask ι) : Prop where
  calling : ∃ funcs, (σ.loops i).phase = .functors funcs
  home : t ≠ .connectDestroyed → i = (σ.world.conns c).loop
  last : ∃ above, σ.todo i = above ++ [Task.conn c t] ∧ (t ≠ .channelRemove → above = []) ∧
    ∀ x ∈ above, x.Harmless c

/-- The parts of `connectDestroyed` are on the stacks of threads that do nothing else to connection
`c`. -/
def DownsAlone (c : Nat) (σ : System ι) : Prop :=
  ∀ i t, .conn c t ∈ σ.todo i → t.downs = 1 → TornDown c σ i t

section

variable {l l' : Link ι} {t : ConnTask ι} {c : Nat}

theorem LifeStep.connected {life : List (ConnEvent ι)} (h : LifeStep l l' t life)
    (hconnected : l'.conn.state = .kConnected) :
    l.conn.state = .kConnecting ∧ t = .connectEstablished ∨
      l.conn.state = .kConnected ∧ t ≠ .setDisconnected := by
  cases h with
  | established connecting state registered => exact .inl ⟨connecting, rfl⟩
  | closed isOpen state unwatched registered => exact .inr ⟨state ▸ hconnected, nofun⟩
  | removed registered conn gone => exact .inr ⟨conn ▸ hconnected, nofun⟩
  | disconnected state channel registered =>
    rw [hconnected] at state
    cases state
  | disconnecting state channel registered =>
    rw [hconnected] at state
    cases state
  | notified state unwatched registered => exact .inr ⟨state ▸ hconnected, nofun⟩
  | destroyed state watched registered => exact .inr ⟨state ▸ hconnected, nofun⟩
  | other ht state watched registered =>
    refine .inr ⟨state ▸ hconnected, ?_⟩
    rintro rfl
    cases ht

theorem LifeStep.countP_destroyed {life : List (ConnEvent ι)} [DecidableEq ι] (h : LifeStep l l' t life) :
    life.countP ConnEvent.isDestroyed = ConnTask.one .channelRemove t := by
  cases h with
  | other ht state watched registered =>
    rw [one_of_ne]
    · rfl
    · rintro rfl
      cases ht
  | _ => rfl

variable [DecidableEq ι] [Fintype ι] {σ σ' : System ι} {label : Label ι}

omit [Fintype ι] in
theorem start_downsAlone (baseLoop : ι) (ioLoops : List ι) (delay clock : Nat) (count : UInt64) :
    DownsAlone c (System.start baseLoop ioLoops delay clock count) := nofun

theorem start_downInv (baseLoop : ι) (ioLoops : List ι) (delay clock : Nat) (count : UInt64) :
    DownInv c (System.start baseLoop ioLoops delay clock count) := fun _ => nofun

theorem step_downInv (hlife : LifeInv c σ) (hinv : DownInv c σ) (hstep : σ.step label = .ok σ') :
    DownInv c σ' := by
  intro hpos hstate
  unfold DownInv at hinv
  have hparts := hlife.parts
  cases (step_move hstep).of_conn c with
  | @own who k t rest new events run todo alive step alive' connId seen total =>
    have hperforms : σ.performs label = some (c, t, k) := performs_of_run run todo
    have hafter : σ'.world.life c = σ.world.life c ++ events.filter ConnEvent.isLife :=
      World.life_append seen
    rw [hafter, List.countP_append, step.life.countP_destroyed] at hpos
    have hnotify := total (ConnTask.one .notifyDown)
    have hremove := total (ConnTask.one .channelRemove)
    have hpending : ∀ x, ConnTask.one x t ≤ σ.pending c x := one_le_pending hperforms
    have hnotify' := hpending .notifyDown
    have hremove' := hpending .channelRemove
    have hup : t = .connectDestroyed → (σ.world.conns c).state = .kConnected := by
      rintro rfl
      rcases step.life.connected hstate with ⟨-, ht⟩ | ⟨h, -⟩
      · cases ht
      · exact h
    rw [step.sum_notifyDown] at hnotify
    rw [step.sum_channelRemove hup] at hremove
    unfold System.pending at hpos hparts hinv hnotify' hremove'
    rcases step.life.connected hstate with ⟨hconnecting, rfl⟩ | ⟨hconnected, ht⟩
    · -- nothing was removed yet
      have hnil : σ.world.life c = [] := hlife.connecting hconnecting
      rw [hnil] at hparts hpos
      simp only [List.count_nil, List.countP_nil] at hparts hpos
      rw [one_of_ne (by simp)] at hnotify hremove hpos
      rw [one_of_ne (by simp)] at hnotify hremove
      omega
    · have hzero : ¬ 0 < σ.total c (ConnTask.one .notifyDown) + σ.total c (ConnTask.one .channelRemove) +
          (σ.world.life c).countP ConnEvent.isDestroyed := fun h => hinv h hconnected
      rw [one_of_ne ht] at hnotify
      omega
  | @born loop fresh connId conn registered seen total =>
    obtain ⟨sockfd, delay, hconn⟩ := conn
    rw [hconn] at hstate
    cases hstate
  | idle conn registered alive connId seen total =>
    obtain ⟨incoming, hincoming, -, htotal⟩ := total
    have hlife' : σ'.world.life c = σ.world.life c := World.life_eq seen
    rw [pending_incoming (x := .notifyDown) htotal hincoming rfl,
      pending_incoming (x := .channelRemove) htotal hincoming rfl, hlife'] at hpos
    rw [conn] at hstate
    exact hinv hpos hstate

omit [DecidableEq ι] [Fintype ι] in
theorem eq_connectDestroyed {t : ConnTask ι} (ht : t.downs = 1) (hfunctor : t.isFunctor = true) :
    t = .connectDestroyed := by
  cases t with
  | connectDestroyed => rfl
  | setDisconnected => cases hfunctor
  | notifyDown => cases hfunctor
  | channelRemove => cases hfunctor
  | _ => cases ht

omit [DecidableEq ι] [Fintype ι] in
theorem harmless_of_about {x : Task ι} (h : x.about c = none) : x.Harmless c := by
  rintro t rfl
  rw [Task.about_conn] at h
  cases h

omit [DecidableEq ι] [Fintype ι] in
theorem isHarmless_of_downs {t : ConnTask ι} : t.downs = 1 → t.isHarmless = false := by
  cases t
  all_goals first
    | exact fun _ => rfl
    | exact nofun

omit [DecidableEq ι] [Fintype ι] in
theorem isLater_of_downs {t : ConnTask ι} : t.downs = 1 → t.isLater = true := by
  cases t
  all_goals first
    | exact fun _ => rfl
    | exact nofun

omit [Fintype ι] in
theorem harmless_call (who : ι) (call : UserCall ι) : (call.task who).Harmless c := by
  cases call with
  | runInLoop loop => exact harmless_of_about (Task.about_runInLoop _ _ _)
  | cancel loop id => exact harmless_of_about (Task.about_runInLoop _ _ _)
  | _ =>
    rintro t ⟨⟩
    try rfl

variable {who : ι} {k : Kernel} {base : ι} {events : List (ConnEvent ι)} {new : List (Task ι)}

omit [Fintype ι] in
theorem ConnStep.harmless (h : ConnStep who k base c l t l' events new) (ht : t.isHarmless = true)
    (hstate : l.conn.state ≠ .kConnected) : ∀ x ∈ new, x.Harmless c := by
  cases h with
  | setDisconnecting => exact nofun
  | storeTimerId => exact nofun
  | sendIgnored connected => exact nofun
  | shutdownIgnored connected => exact nofun
  | forceCloseIgnored isOpen => exact nofun
  | forceCloseAfterIgnored isOpen => exact nofun
  | send connected => exact absurd connected hstate
  | shutdown connected => exact absurd connected hstate
  | forceClose isOpen => simp [Task.Harmless, ConnTask.isHarmless]
  | forceCloseAfter isOpen => simp [Task.Harmless, ConnTask.isHarmless]
  | runForceCloseAfter timer =>
    simp only [List.mem_cons, List.not_mem_nil, or_false, forall_eq_or_imp, forall_eq]
    refine ⟨harmless_of_about (Task.about_runInLoop _ _ _), ?_⟩
    rintro t ⟨⟩
    rfl
  | _ => cases ht

omit [Fintype ι] in
theorem ConnStep.tears (h : ConnStep who k base c l t l' events new) {t' : ConnTask ι}
    (hmem : .conn c t' ∈ new) (ht' : t'.downs = 1) :
    t.downs = 1 ∧ t ≠ .channelRemove ∧ (t = .connectDestroyed → who = l.conn.loop) ∧
      ∃ above, new = above ++ [.conn c t'] ∧ (t' ≠ .channelRemove → above = []) ∧
        ∀ x ∈ above, x.Harmless c := by
  have hnone : (∀ t', Task.conn c t' ∈ new → t'.downs = 0) → t.downs = 1 ∧ t ≠ .channelRemove ∧
      (t = .connectDestroyed → who = l.conn.loop) ∧ ∃ above, new = above ++ [.conn c t'] ∧
        (t' ≠ .channelRemove → above = []) ∧ ∀ x ∈ above, x.Harmless c := by
    intro hall
    have hzero := hall t' hmem
    omega
  cases h with
  | connectDestroyed loop connected =>
    cases List.mem_singleton.mp hmem
    exact ⟨rfl, nofun, fun _ => loop, [], rfl, fun _ => rfl, nofun⟩
  | connectDestroyedSilent loop connected =>
    cases List.mem_singleton.mp hmem
    exact ⟨rfl, nofun, fun _ => loop, [], rfl, fun _ => rfl, nofun⟩
  | setDisconnected =>
    cases List.mem_singleton.mp hmem
    exact ⟨rfl, nofun, nofun, [], rfl, fun _ => rfl, nofun⟩
  | notifyDown result =>
    simp only [List.mem_cons, List.not_mem_nil, or_false, reduceCtorEq, false_or] at hmem
    cases hmem
    refine ⟨rfl, nofun, nofun, [.user], rfl, fun h => absurd rfl h, ?_⟩
    simp [Task.Harmless]
  | handleEvent revents =>
    refine hnone fun t' hmem => ?_
    obtain ⟨t, ht, heq⟩ := List.mem_map.mp hmem
    cases heq
    rcases mem_eventTasks ht with rfl | rfl | rfl | rfl
    all_goals rfl
  | writeCallback hnew =>
    refine hnone ?_
    rcases hnew with rfl | rfl
    all_goals simp [ConnTask.downs]
  | updateTimer hnew =>
    refine hnone ?_
    rcases hnew with rfl | rfl
    all_goals simp [ConnTask.downs]
  | delayedClose hnew =>
    refine hnone ?_
    rcases hnew with rfl | rfl
    all_goals simp [ConnTask.downs]
  | _ =>
    refine hnone ?_
    simp [ConnTask.downs]

omit [DecidableEq ι] [Fintype ι] in
/-- What is on top of the stack is a part of `connectDestroyed`, and the last thing there, unless it
does no harm. -/
theorem TornDown.top {i : ι} (h : TornDown c σ i t) {t' : ConnTask ι} {rest : List (Task ι)}
    (htodo : σ.todo i = .conn c t' :: rest) (ht' : t'.isHarmless = false) : t' = t ∧ rest = [] := by
  obtain ⟨above, hstack, -, hharmless⟩ := h.last
  rw [htodo] at hstack
  cases above with
  | nil =>
    cases hstack
    exact ⟨rfl, rfl⟩
  | cons x above =>
    obtain ⟨rfl, -⟩ := List.cons.inj hstack
    rw [hharmless _ List.mem_cons_self t' rfl] at ht'
    cases ht'

omit [DecidableEq ι] [Fintype ι] in
theorem TornDown.below {i : ι} (h : TornDown c σ i t) {x : Task ι} {rest : List (Task ι)}
    (htodo : σ.todo i = x :: rest) (hmem : .conn c t ∈ rest) :
    t = .channelRemove ∧ x.Harmless c ∧
      ∃ above, rest = above ++ [Task.conn c t] ∧ ∀ x ∈ above, x.Harmless c := by
  obtain ⟨above, hstack, hlast, hharmless⟩ := h.last
  rw [htodo] at hstack
  cases above with
  | nil =>
    cases hstack
    cases hmem
  | cons y above =>
    obtain ⟨rfl, rfl⟩ := List.cons.inj hstack
    refine ⟨?_, hharmless _ List.mem_cons_self, above, rfl, fun y hy =>
      hharmless y (List.mem_cons_of_mem _ hy)⟩
    by_contra hne
    cases hlast hne

omit [DecidableEq ι] [Fintype ι] in
theorem TornDown.same {i : ι} (h : TornDown c σ i t) (hphase : (σ'.loops i).phase = (σ.loops i).phase)
    (hhome : (σ'.world.conns c).loop = (σ.world.conns c).loop) (htodo : σ'.todo i = σ.todo i) :
    TornDown c σ' i t := by
  obtain ⟨hcalling, hloop, hlast⟩ := h
  rw [← hphase] at hcalling
  rw [← hhome] at hloop
  rw [← htodo] at hlast
  exact ⟨hcalling, hloop, hlast⟩

omit [Fintype ι] in
theorem DownsAlone.exchange (hinv : DownsAlone c σ) {x : Task ι} {rest : List (Task ι)}
    (htodo : σ.todo who = x :: rest) (htodo' : σ'.todo = Function.update σ.todo who (new ++ rest))
    (hphase : ∀ i, (σ'.loops i).phase = (σ.loops i).phase)
    (hhome : ∀ i t, .conn c t ∈ σ.todo i → t.downs = 1 →
      (σ'.world.conns c).loop = (σ.world.conns c).loop)
    (hrest : .conn c .channelRemove ∈ rest → x.Harmless c → ∀ y ∈ new, y.Harmless c)
    (hnew : ∀ t, .conn c t ∈ new → t.downs = 1 → TornDown c σ' who t) : DownsAlone c σ' := by
  intro i t hmem ht
  rw [htodo'] at hmem
  by_cases hi : i = who
  · subst hi
    rw [Function.update_self] at hmem
    rcases List.mem_append.mp hmem with hmem | hmem
    · exact hnew t hmem ht
    · have hold : .conn c t ∈ σ.todo i := htodo ▸ List.mem_cons_of_mem _ hmem
      have htorn := hinv i t hold ht
      obtain ⟨rfl, hx, above, rfl, hharmless⟩ := htorn.below htodo hmem
      refine ⟨?_, ?_, new ++ above, ?_, fun h => absurd rfl h, fun y hy => ?_⟩
      · rw [hphase]
        exact htorn.calling
      · rw [hhome i _ hold ht]
        exact htorn.home
      · rw [htodo', Function.update_self, List.append_assoc]
      · rcases List.mem_append.mp hy with hy | hy
        · exact hrest hmem hx y hy
        · exact hharmless y hy
  · rw [Function.update_of_ne hi] at hmem
    exact (hinv i t hmem ht).same (hphase i) (hhome i t hmem ht) (by rw [htodo', Function.update_of_ne hi])

theorem Move.downsAlone (h : Move label σ σ') (hest : EstablishInv c σ) (hrouted : Routed c σ)
    (hdown : DownInv c σ) (hinv : DownsAlone c σ) : DownsAlone c σ' := by
  have hhome : ∀ i t, .conn c t ∈ σ.todo i → t.downs = 1 →
      (σ'.world.conns c).loop = (σ.world.conns c).loop := fun i t hmem ht =>
    h.loop_eq (hest.lt_connId (List.mem_append_left _ hmem) (Task.about_conn t) (isLater_of_downs ht))
  -- a thread whose stack is as it was
  have hsame : ∀ {i : ι} {t : ConnTask ι}, .conn c t ∈ σ'.todo i → t.downs = 1 →
      (σ'.loops i).phase = (σ.loops i).phase → σ'.todo i = σ.todo i → TornDown c σ' i t := by
    intro i t hmem ht hphase htodo
    rw [htodo] at hmem
    exact (hinv i t hmem ht).same hphase (hhome i t hmem ht) htodo
  -- what is new is about no connection, or a call
  have hquiet : ∀ {new : List (Task ι)}, (∀ x ∈ new, x.Harmless c) →
      ∀ i t, .conn c t ∈ new → t.downs = 1 → TornDown c σ' i t := by
    intro new hnew i t hmem ht
    have hharmless := hnew _ hmem t rfl
    rw [isHarmless_of_downs ht] at hharmless
    cases hharmless
  cases h with
  | @conn who k c' t' rest new events run todo alive step framed loops todo' =>
    have hphase : ∀ i, (σ'.loops i).phase = (σ.loops i).phase := fun i => by rw [loops]
    by_cases hc : c' = c
    · subst hc
      refine hinv.exchange todo todo' hphase hhome (fun hmem hx => ?_) fun t hmem ht => ?_
      · -- the channel is going to be removed, so the connection is not connected
        refine step.harmless (hx t' rfl) (hdown ?_)
        have hpending : .conn c' .channelRemove ∈ σ.tasks who :=
          List.mem_append_left _ (todo ▸ List.mem_cons_of_mem _ hmem)
        have hle := Tokens.le_total (m := Task.weight c' (ConnTask.one .channelRemove)) hpending
        rw [weight_conn, one_self] at hle
        unfold System.pending System.total
        omega
      · obtain ⟨ht', hne, hloop, hlast⟩ := step.tears hmem ht
        have htop : .conn c' t' ∈ σ.todo who := todo ▸ List.mem_cons_self
        have htorn := hinv who t' htop ht'
        obtain ⟨-, rfl⟩ := htorn.top todo (isHarmless_of_downs ht')
        refine ⟨?_, fun _ => ?_, ?_⟩
        · rw [hphase]
          exact htorn.calling
        · rw [hhome who t' htop ht']
          by_cases hfirst : t' = .connectDestroyed
          · exact hloop hfirst
          · exact htorn.home hfirst
        · rw [todo', Function.update_self, List.append_nil]
          exact hlast
    · have hnew : ∀ x ∈ new, x.Harmless c := fun x hx => harmless_of_about (step.about_other hc x hx)
      exact hinv.exchange todo todo' hphase hhome (fun _ _ => hnew) (hquiet hnew who)
  | @born who loop c' rest todo born loops todo' =>
    refine hinv.exchange todo todo' (fun i => by rw [loops]) hhome (fun hmem _ => ?_) fun t hmem ht => ?_
    · -- a connection that is torn down is not the one that is made
      have hlt := hest.lt_connId (List.mem_append_left _ (todo ▸ List.mem_cons_of_mem _ hmem))
        (Task.about_conn _) rfl
      have hfresh := born.fresh
      intro y hy
      rw [List.mem_singleton.mp hy]
      refine harmless_of_about ?_
      rw [Task.about_runInLoop]
      exact Task.about_conn_of_ne _ (by omega)
    · obtain ⟨-, heq⟩ := Task.conn_eq_runInLoop.mp (List.mem_singleton.mp hmem)
      cases heq
      cases ht
  | @other who t rest new todo about hnew world phase pendingFuncs todo' =>
    have hnew : ∀ x ∈ new, x.Harmless c := by
      intro x hx
      rcases hnew x hx c with hnone | ⟨rfl, -⟩
      · exact harmless_of_about hnone
      · rintro t ⟨⟩
        rfl
    exact hinv.exchange todo todo' phase hhome (fun _ _ => hnew) (hquiet hnew who)
  | @queue who loop f rest new todo hnew world loops todo' =>
    have hnew : ∀ x ∈ new, x.Harmless c := by
      rcases hnew with rfl | rfl
      · exact nofun
      · simp [Task.Harmless]
    refine hinv.exchange todo todo' (fun i => ?_) hhome (fun _ _ => hnew) (hquiet hnew who)
    rw [loops]
    by_cases hi : i = loop
    · rw [hi, Function.update_self]
      rfl
    · rw [Function.update_of_ne hi]
  | @call who call inUserCode knows world loops todo' =>
    have hcall := harmless_call (c := c) who call
    cases htodo : σ.todo who with
    | nil =>
      have hnew : ∀ y ∈ [call.task who], y.Harmless c := by simpa using hcall
      intro i t hmem ht
      by_cases hi : i = who
      · rw [hi, todo', Function.update_self, htodo] at hmem
        exact hquiet hnew i t hmem ht
      · exact hsame hmem ht (by rw [loops]) (by rw [todo', Function.update_of_ne hi])
    | cons x rest =>
      -- the call is made above the callback
      obtain rfl := top_of_userCode inUserCode htodo
      have hnew : ∀ y ∈ [call.task who, .user], y.Harmless c := by
        simpa [Task.Harmless] using hcall
      have htodo' : σ'.todo = Function.update σ.todo who ([call.task who, .user] ++ rest) := by
        rw [todo', htodo]
        rfl
      exact hinv.exchange htodo htodo' (fun i => by rw [loops]) hhome (fun _ _ => hnew) (hquiet hnew who)
  | @next loop l calls todo hnext world loops todo' =>
    intro i t hmem ht
    by_cases hi : i = loop
    · subst hi
      rw [todo', Function.update_self] at hmem
      rcases EventLoop.next_cases hnext with ⟨call, active, hphase, rfl, rfl⟩ |
        ⟨f, funcs, hphase, rfl, rfl⟩ | ⟨rfl, -⟩
      · obtain ⟨a, ha⟩ := hrouted.events i _ hphase call List.mem_cons_self
        rw [← List.mem_singleton.mp hmem] at ha
        cases a
        all_goals cases ha
        cases ht
      · -- a functor, on an empty stack, and of the parts only the first is one
        have hf : .conn c t = f := List.mem_singleton.mp hmem
        have hfunctor := hrouted.functors i _ hphase f List.mem_cons_self t (hf ▸ Task.about_conn t)
        refine ⟨⟨funcs, by rw [loops, Function.update_self]⟩,
          fun hne => absurd (eq_connectDestroyed ht hfunctor) hne, [], ?_, fun _ => rfl, nofun⟩
        rw [todo', Function.update_self, hf]
        rfl
      · cases hmem
    · exact hsame hmem ht (by rw [loops, Function.update_of_ne hi]) (by rw [todo', Function.update_of_ne hi])
  | @poll loop active todo phase reports world loops todo' =>
    intro i t hmem ht
    refine hsame hmem ht ?_ (by rw [todo'])
    by_cases hi : i = loop
    · rw [todo', hi, todo] at hmem
      cases hmem
    · rw [loops, Function.update_of_ne hi]
  | time world loops todo' => exact fun i t hmem ht => hsame hmem ht (by rw [loops]) (by rw [todo'])
  | destroy alive refers conns alive' pollers channels epoll server log loops todo' =>
    exact fun i t hmem ht => hsame hmem ht (by rw [loops]) (by rw [todo'])

end

end VServer
