import VServer.Net.Lifecycle
import VServer.Net.TimerTasks

/-!
# The idle timer of a connection

`updateTimer` cancels the timer that `m_timerId` names and arms another one: `Renewing` follows it from
the read to `m_timerId = …`, over everything that happens on other threads in between. What it starts
from is that no idle timer is pending but the one named (`TracksIdle`).
-/

namespace VServer

variable {ι : Type}

/-- The timers that are pending at loop `i` to close connection `c`. -/
def World.idleTimers (w : World ι) (c : Nat) (i : ι) : List (Timer TimerCallback) :=
  (w.timers i).timers.filter fun timer => timer.cb = .weakForceClose c

section

variable (w : World ι) (c : Nat)

def World.NoIdle : Prop := ∀ i, w.idleTimers c i = []

/-- `m_timerId` is the id of whatever idle timer is pending. -/
def World.TracksIdle : Prop :=
  ∀ i, ∀ timer ∈ w.idleTimers c i, i = (w.conns c).loop ∧ timer.id = (w.conns c).timerId

/-- This is the one idle timer that is pending. -/
structure World.OneIdle (timer : Timer TimerCallback) : Prop where
  home : w.idleTimers c (w.conns c).loop = [timer]
  away : ∀ i, i ≠ (w.conns c).loop → w.idleTimers c i = []

/-- The timer was made for connection `c` at time `since` or later. -/
def World.MadeSince (since : Nat) (timer : Timer TimerCallback) : Prop :=
  ∃ t, since ≤ t ∧ t ≤ w.clock ∧ timer.expire = timeAdd (getCurrentTimeMS t) (w.conns c).delay

end

/-- Nothing is done to the idle timer of connection `c`, unless it leaves. -/
structure World.Keeps (c : Nat) (w w' : World ι) : Prop where
  loop : (w'.conns c).loop = (w.conns c).loop
  timerId : (w'.conns c).timerId = (w.conns c).timerId
  delay : (w'.conns c).delay = (w.conns c).delay
  clock : w.clock ≤ w'.clock
  timers : ∀ i, ∀ timer ∈ w'.idleTimers c i, timer ∈ w.idleTimers c i

/-- The task leads to an idle timer of connection `c`, or has to do with one. -/
def Task.renews (c : Nat) : Task ι → Bool
  | .conn c' .updateTimer | .conn c' .delayedClose | .conn c' (.forceCloseAfter _)
  | .conn c' (.runForceCloseAfter _) | .conn c' (.storeTimerId _) => c' = c
  | .addTimerInloop _ timer => timer.cb = .weakForceClose c
  | .queueInLoop _ f => f.renews c
  | _ => false

/-- From `updateTimer` on to `m_timerId = …`, with `rest` below; `opened` if the connection is known to
be open, so that `forceCloseAfter` will not do without the timer. -/
inductive Renewing (c since : Nat) (opened : Prop) (w : World ι) (rest : List (Task ι)) :
    List (Task ι) → Prop
  | update (isOpen : opened → (w.conns c).isOpen = true) (timed : (w.conns c).isTimed = true)
      (tracks : w.TracksIdle c) : Renewing c since opened w rest (.conn c .updateTimer :: rest)
  | cancel (isOpen : opened → (w.conns c).isOpen = true) (tracks : w.TracksIdle c) :
    Renewing c since opened w rest (.cancelInloop (w.conns c).loop (w.conns c).timerId ::
      .conn c (.forceCloseAfter (w.conns c).delay) :: rest)
  | close (isOpen : opened → (w.conns c).isOpen = true) (none : w.NoIdle c) :
    Renewing c since opened w rest (.conn c (.forceCloseAfter (w.conns c).delay) :: rest)
  | disconnect (none : w.NoIdle c) :
    Renewing c since opened w rest
      (.conn c .setDisconnecting :: .conn c (.runForceCloseAfter (w.conns c).delay) :: rest)
  | arm (none : w.NoIdle c) :
    Renewing c since opened w rest (.conn c (.runForceCloseAfter (w.conns c).delay) :: rest)
  | add {timer : Timer TimerCallback} (none : w.NoIdle c) (cb : timer.cb = .weakForceClose c)
      (made : w.MadeSince c since timer) :
    Renewing c since opened w rest
      (.addTimerInloop (w.conns c).loop timer :: .conn c (.storeTimerId timer.id) :: rest)
  | store {timer : Timer TimerCallback} (one : w.OneIdle c timer) (made : w.MadeSince c since timer) :
    Renewing c since opened w rest (.conn c (.storeTimerId timer.id) :: rest)

/-- What `updateTimer` and the function it calls leave. -/
structure Renewed (c since : Nat) (opened : Prop) (w : World ι) : Prop where
  tracks : w.TracksIdle c
  renewed : opened → ∃ timer, w.OneIdle c timer ∧ w.MadeSince c since timer

section

variable {c since : Nat} {opened : Prop} {w w' : World ι} {rest l : List (Task ι)}
  {timer : Timer TimerCallback} {i : ι}

theorem mem_idleTimers : timer ∈ w.idleTimers c i ↔
    timer ∈ (w.timers i).timers ∧ timer.cb = .weakForceClose c := by
  unfold World.idleTimers
  rw [List.mem_filter, decide_eq_true_eq]

theorem World.NoIdle.tracks (h : w.NoIdle c) : w.TracksIdle c := by
  intro i timer htimer
  rw [h i] at htimer
  cases htimer

theorem World.Keeps.refl (c : Nat) (w : World ι) : w.Keeps c w :=
  ⟨rfl, rfl, rfl, Nat.le_refl _, fun _ _ h => h⟩

theorem World.keeps_of_timers (hconns : w'.conns = w.conns) (hclock : w.clock ≤ w'.clock)
    (htimers : ∀ i, (w'.timers i).timers = (w.timers i).timers) :
    w.Keeps c w' ∧ ∀ i, w'.idleTimers c i = w.idleTimers c i := by
  have hidle : ∀ i, w'.idleTimers c i = w.idleTimers c i := by
    intro i
    unfold World.idleTimers
    rw [htimers]
  refine ⟨⟨by rw [hconns], by rw [hconns], by rw [hconns], hclock, fun i timer htimer => ?_⟩, hidle⟩
  rwa [hidle i] at htimer

theorem World.Keeps.isTimed (h : w.Keeps c w') : (w'.conns c).isTimed = (w.conns c).isTimed := by
  unfold TcpConnection.isTimed
  rw [h.timerId]

theorem World.NoIdle.keeps (h : w.NoIdle c) (hkeeps : w.Keeps c w') : w'.NoIdle c := by
  intro i
  refine List.eq_nil_iff_forall_not_mem.mpr fun timer htimer => ?_
  have hold := hkeeps.timers i timer htimer
  rw [h i] at hold
  cases hold

theorem World.TracksIdle.keeps (h : w.TracksIdle c) (hkeeps : w.Keeps c w') : w'.TracksIdle c := by
  intro i timer htimer
  rw [hkeeps.loop, hkeeps.timerId]
  exact h i timer (hkeeps.timers i timer htimer)

theorem World.OneIdle.keeps (h : w.OneIdle c timer) (hkeeps : w.Keeps c w')
    (hhome : w'.idleTimers c (w.conns c).loop = w.idleTimers c (w.conns c).loop) :
    w'.OneIdle c timer := by
  refine ⟨?_, fun i hi => ?_⟩
  · rw [hkeeps.loop, hhome, h.home]
  · rw [hkeeps.loop] at hi
    refine List.eq_nil_iff_forall_not_mem.mpr fun u hu => ?_
    have hold := hkeeps.timers i u hu
    rw [h.away i hi] at hold
    cases hold

theorem World.MadeSince.keeps (h : w.MadeSince c since timer) (hkeeps : w.Keeps c w') :
    w'.MadeSince c since timer := by
  obtain ⟨t, hsince, hclock, hexpire⟩ := h
  refine ⟨t, hsince, Nat.le_trans hclock hkeeps.clock, ?_⟩
  rw [hkeeps.delay]
  exact hexpire

theorem Renewed.keeps (h : Renewed c since opened w) (hkeeps : w.Keeps c w')
    (hhome : w'.idleTimers c (w.conns c).loop = w.idleTimers c (w.conns c).loop) :
    Renewed c since opened w' := by
  refine ⟨h.tracks.keeps hkeeps, fun hopened => ?_⟩
  obtain ⟨timer, hone, hmade⟩ := h.renewed hopened
  exact ⟨timer, hone.keeps hkeeps hhome, hmade.keeps hkeeps⟩

theorem Renewing.keeps (h : Renewing c since opened w rest l) (hkeeps : w.Keeps c w')
    (hhome : w'.idleTimers c (w.conns c).loop = w.idleTimers c (w.conns c).loop)
    (hopen : opened → (w.conns c).isOpen = true → (w'.conns c).isOpen = true) :
    Renewing c since opened w' rest l := by
  have hloop := hkeeps.loop
  have hdelay := hkeeps.delay
  have htimerId := hkeeps.timerId
  cases h with
  | update isOpen timed tracks =>
    refine .update (fun ho => hopen ho (isOpen ho)) ?_ (tracks.keeps hkeeps)
    rw [hkeeps.isTimed, timed]
  | cancel isOpen tracks =>
    rw [← hloop, ← hdelay, ← htimerId]
    exact .cancel (fun ho => hopen ho (isOpen ho)) (tracks.keeps hkeeps)
  | close isOpen none =>
    rw [← hdelay]
    exact .close (fun ho => hopen ho (isOpen ho)) (none.keeps hkeeps)
  | disconnect none =>
    rw [← hdelay]
    exact .disconnect (none.keeps hkeeps)
  | arm none =>
    rw [← hdelay]
    exact .arm (none.keeps hkeeps)
  | add none cb made =>
    rw [← hloop]
    exact .add (none.keeps hkeeps) cb (made.keeps hkeeps)
  | store one made => exact .store (one.keeps hkeeps hhome) (made.keeps hkeeps)

theorem Renewing.top (h : Renewing c since opened w rest l) :
    ∃ t below, l = t :: below ∧ t.isLoopTask = false := by
  cases h
  all_goals exact ⟨_, _, rfl, rfl⟩

end

/-! ## One thread after another -/

section

variable [DecidableEq ι] {c since : Nat} {opened : Prop} {w w' : World ι} {who : ι} {k : Kernel}
  {t : Task ι} {rest below new : List (Task ι)} {timer : Timer TimerCallback}

theorem perform_conn_eq_ok {t : ConnTask ι} (h : VServer.perform who k w (.conn c t) = .ok (w', new)) :
    performConn who k w c t = .ok (w', new) := by
  cases perform_cases h with
  | conn alive result => exact result

omit [DecidableEq ι] in
theorem keeps_putConn {conn : TcpConnection ι} {events : List (ConnEvent ι)}
    (hloop : conn.loop = (w.conns c).loop) (htimerId : conn.timerId = (w.conns c).timerId)
    (hdelay : conn.delay = (w.conns c).delay) : w.Keeps c (w.putConn c conn events) where
  loop := by simp [World.putConn, hloop]
  timerId := by simp [World.putConn, htimerId]
  delay := by simp [World.putConn, hdelay]
  clock := Nat.le_refl _
  timers _ _ h := h

theorem World.TracksIdle.cancelled (htracks : w.TracksIdle c) (hindexed : ∀ i, (w.timers i).Indexed)
    {timers : TimerManager TimerCallback}
    (hcancel : (w.timers (w.conns c).loop).cancelInloop w.clock (w.conns c).timerId = .ok timers) :
    World.NoIdle { w with timers := Function.update w.timers (w.conns c).loop timers } c := by
  intro i
  refine List.eq_nil_iff_forall_not_mem.mpr fun timer htimer => ?_
  rw [mem_idleTimers] at htimer
  obtain ⟨-, hperm, hid⟩ := (hindexed _).cancelInloop hcancel
  by_cases hi : i = (w.conns c).loop
  · subst hi
    have hleft : timer ∈ timers.timers := by simpa using htimer.1
    have hold : timer ∈ (w.timers (w.conns c).loop).timers :=
      hperm.symm.subset (List.mem_append_right _ hleft)
    exact hid timer hleft (htracks _ timer (mem_idleTimers.mpr ⟨hold, htimer.2⟩)).2
  · have hold : timer ∈ (w.timers i).timers := by simpa [hi] using htimer.1
    exact hi (htracks i timer (mem_idleTimers.mpr ⟨hold, htimer.2⟩)).1

theorem World.NoIdle.added (hnone : w.NoIdle c) (hcb : timer.cb = .weakForceClose c)
    (hindexed : ∀ i, (w.timers i).Indexed)
    (hfresh : ∀ u ∈ (w.timers (w.conns c).loop).timers, u.id ≠ timer.id) :
    World.OneIdle
      { w with
        timers := Function.update w.timers (w.conns c).loop
          ((w.timers (w.conns c).loop).addTimerInloop w.clock timer) }
      c timer := by
  obtain ⟨-, hperm⟩ := (hindexed (w.conns c).loop).addTimerInloop w.clock timer hfresh
  have hold : (w.timers (w.conns c).loop).timers.filter (fun u => u.cb = .weakForceClose c) = [] :=
    hnone (w.conns c).loop
  refine ⟨?_, fun i hi => ?_⟩
  · have hfilter := hperm.filter fun u => decide (u.cb = .weakForceClose c)
    rw [List.filter_cons, if_pos (decide_eq_true hcb), hold, List.perm_singleton] at hfilter
    simpa [World.idleTimers] using hfilter
  · have hother : i ≠ (w.conns c).loop := hi
    simpa [World.idleTimers, hother] using hnone i

/-- **The loop of the connection goes one step further**, or gets to the end. -/
theorem Renewing.step (h : Renewing c since opened w rest (t :: below)) (hwho : who = (w.conns c).loop)
    (hindexed : ∀ i, (w.timers i).Indexed) (hfresh : FreshAt w t) (hsince : since ≤ w.clock)
    (hperform : VServer.perform who k w t = .ok (w', new)) :
    Renewing c since opened w' rest (new ++ below) ∨ new ++ below = rest ∧ Renewed c since opened w' := by
  subst hwho
  have hdirect : ∀ f : Task ι, runInLoop (w.conns c).loop (w.conns c).loop f = f := fun f => if_pos rfl
  cases h with
  | update isOpen timed tracks =>
    cases perform_conn_eq_ok hperform
    rw [timed, if_pos rfl, hdirect]
    exact .inl (.cancel isOpen tracks)
  | cancel isOpen tracks =>
    cases perform_cases hperform with
    | cancelInloop hcancel => exact .inl (.close isOpen (tracks.cancelled hindexed hcancel))
  | close isOpen none =>
    cases perform_conn_eq_ok hperform
    split_ifs with hopen
    · exact .inl (.disconnect none)
    · exact .inr ⟨rfl, none.tracks, fun ho => absurd (isOpen ho) hopen⟩
  | disconnect none =>
    cases perform_conn_eq_ok hperform
    have hkeeps : w.Keeps c (w.putConn c { w.conns c with state := .kDisconnecting } []) :=
      keeps_putConn rfl rfl rfl
    have harm : Renewing c since opened _ rest _ := .arm (none.keeps hkeeps)
    rw [hkeeps.delay] at harm
    exact .inl harm
  | arm none =>
    cases perform_conn_eq_ok hperform
    rw [hdirect]
    exact .inl (.add none rfl ⟨w.clock, hsince, Nat.le_refl _, rfl⟩)
  | add none cb made =>
    cases hperform
    exact .inl (.store (none.added cb hindexed hfresh) made)
  | @store timer one made =>
    cases perform_conn_eq_ok hperform
    have hconn : (w.putConn c { w.conns c with timerId := timer.id } []).conns c =
        { w.conns c with timerId := timer.id } := Function.update_self _ _ _
    refine .inr ⟨rfl, fun i u hu => ?_, fun _ => ⟨timer, ⟨?_, fun i hi => ?_⟩, ?_⟩⟩
    · have hold : u ∈ w.idleTimers c i := hu
      rw [hconn]
      by_cases hi : i = (w.conns c).loop
      · subst hi
        rw [one.home, List.mem_singleton] at hold
        rw [hold]
        exact ⟨rfl, rfl⟩
      · rw [one.away i hi] at hold
        cases hold
    · rw [hconn]
      exact one.home
    · rw [hconn] at hi
      exact one.away i hi
    · unfold World.MadeSince
      rw [hconn]
      exact made

end

/-! ## What leaves the idle timer alone -/

section

variable [DecidableEq ι] {c : Nat} {w w' : World ι} {who : ι} {k : Kernel} {new : List (Task ι)}

theorem ConnStep.keeps_timerId {base : ι} {l l' : Link ι} {t : ConnTask ι}
    {events : List (ConnEvent ι)} (h : ConnStep who k base c l t l' events new)
    (ht : ∀ id, t ≠ .storeTimerId id) :
    l'.conn.timerId = l.conn.timerId ∧ l'.conn.delay = l.conn.delay := by
  cases h with
  | handleWrite loop result =>
    obtain ⟨out, -, -, -, hconn, -⟩ := TcpConnection.handleWrite_spec result
    exact ⟨by rw [hconn], by rw [hconn]⟩
  | sendInLoop loop result =>
    obtain ⟨out, -, -, -, hconn, -⟩ := TcpConnection.sendInLoop_spec result
    exact ⟨by rw [hconn], by rw [hconn]⟩
  | storeTimerId => exact absurd rfl (ht _)
  | _ => exact ⟨rfl, rfl⟩

theorem perform_keeps {t : Task ι} (h : VServer.perform who k w t = .ok (w', new))
    (hat : t.AtLoop who) (ht : t.renews c = false)
    (hborn : t = .acceptorRead → w.server.connId ≠ c) :
    w.Keeps c w' ∧ ∀ i, i ≠ who → w'.idleTimers c i = w.idleTimers c i := by
  obtain ⟨hclock, hother, hchange⟩ := perform_timers h hat
  have hconn : (w'.conns c).loop = (w.conns c).loop ∧ (w'.conns c).timerId = (w.conns c).timerId ∧
      (w'.conns c).delay = (w.conns c).delay := by
    have hsame : w'.conns c = w.conns c → (w'.conns c).loop = (w.conns c).loop ∧
        (w'.conns c).timerId = (w.conns c).timerId ∧ (w'.conns c).delay = (w.conns c).delay := by
      intro heq
      rw [heq]
      exact ⟨rfl, rfl, rfl⟩
    cases perform_cases h with
    | @conn c' t w' new alive result =>
      obtain ⟨events, hstep, hframed⟩ := performConn_spec result
      by_cases hc : c = c'
      · subst hc
        refine ⟨hframed.loop, hstep.keeps_timerId ?_⟩
        rintro id rfl
        simp [Task.renews] at ht
      · exact hsame (hframed.conns c hc)
    | acceptorRead accept result =>
      obtain ⟨loop, hborn', -⟩ := newConnection_born result
      exact hsame (hborn'.conns c (Ne.symm (hborn rfl)))
    | _ => exact hsame rfl
  obtain ⟨hloop, htimerId, hdelay⟩ := hconn
  refine ⟨⟨hloop, htimerId, hdelay, Nat.le_of_eq hclock.symm, fun i timer htimer => ?_⟩, fun i hi => ?_⟩
  · rw [mem_idleTimers] at htimer ⊢
    refine ⟨?_, htimer.2⟩
    by_cases hi : i = who
    · subst hi
      rcases hchange.mem htimer.1 with rfl | hold
      · rw [Task.renews, decide_eq_false_iff_not] at ht
        exact absurd htimer.2 ht
      · exact hold
    · rw [← hother i hi]
      exact htimer.1
  · unfold World.idleTimers
    rw [hother i hi]

@[simp] theorem renews_runInLoop (who loop : ι) (f : Task ι) :
    (runInLoop who loop f).renews c = f.renews c := by
  unfold runInLoop
  split_ifs
  all_goals rfl

/-- Only a read and `connectEstablished` lead to the timer, and they are on the loop of the
connection. -/
theorem perform_renews {t : Task ι} (h : VServer.perform who k w t = .ok (w', new))
    (ht : t.renews c = false) :
    (∀ x ∈ new, x.renews c = false) ∨ who = (w.conns c).loop ∧
      (t = .conn c .handleRead ∧ new = [.conn c .updateTimer, .conn c .messageCallback] ∨
        t = .conn c .connectEstablished ∧ (w.conns c).state = .kConnecting ∧
          new = [.user, .conn c .delayedClose]) := by
  cases perform_cases h with
  | @conn c' t w' new alive result =>
    obtain ⟨events, hstep, -⟩ := performConn_spec result
    generalize w'.link c' = l' at hstep
    cases hstep with
    | read loop readv =>
      by_cases hc : c' = c
      · subst hc
        exact .inr ⟨loop, .inl ⟨rfl, rfl⟩⟩
      · exact .inl (by simp [Task.renews, hc])
    | connectEstablished loop connecting result =>
      by_cases hc : c' = c
      · subst hc
        exact .inr ⟨loop, .inr ⟨rfl, connecting, rfl⟩⟩
      · exact .inl (by simp [Task.renews, hc])
    | handleEvent revents =>
      refine .inl fun x hx => ?_
      obtain ⟨t, ht, rfl⟩ := List.mem_map.mp hx
      rcases mem_eventTasks ht with rfl | rfl | rfl | rfl
      all_goals rfl
    | writeCallback hnew => exact .inl (forall_mem_of_either hnew.symm (by simp [Task.renews]))
    | updateTimer hnew =>
      have hc : c' ≠ c := by simpa [Task.renews] using ht
      refine .inl (forall_mem_of_either hnew ?_)
      simp [Task.renews, hc]
    | delayedClose hnew =>
      have hc : c' ≠ c := by simpa [Task.renews] using ht
      exact .inl (forall_mem_of_either hnew (by simp [Task.renews, hc]))
    | runForceCloseAfter timer =>
      have hc : c' ≠ c := by simpa [Task.renews] using ht
      have hnew := (Prod.mk.inj (Except.ok.inj result)).2
      rw [← hnew]
      exact .inl (by simp [Task.renews, hc])
    | forceCloseAfter isOpen =>
      have hc : c' ≠ c := by simpa [Task.renews] using ht
      exact .inl (by simp [Task.renews, hc])
    | _ => exact .inl (by simp [Task.renews])
  | timerRead read =>
    refine .inl fun x hx => ?_
    obtain ⟨timer, -, rfl⟩ := List.mem_map.mp hx
    rfl
  | userTimer => exact .inl (by simp [Task.renews])
  | closeTimer =>
    refine .inl ?_
    split_ifs
    · simp [Task.renews]
    · exact nofun
  | runAfter cb => exact .inl (by simp [Task.renews, cb])
  | addTimerInloop => exact .inl nofun
  | cancelInloop cancel => exact .inl nofun
  | acceptorRead accept result =>
    obtain ⟨loop, -, rfl⟩ := newConnection_born result
    exact .inl (by simp [Task.renews])

theorem renews_call {call : UserCall ι} (h : ∀ ms, call ≠ .forceCloseAfter c ms) :
    (call.task who).renews c = false := by
  cases call with
  | runInLoop loop => exact renews_runInLoop _ _ _
  | cancel loop id => exact renews_runInLoop _ _ _
  | forceCloseAfter c' ms =>
    refine decide_eq_false ?_
    rintro rfl
    exact h ms rfl
  | _ => rfl

omit [DecidableEq ι] in
theorem renews_active (loop : ι) (a : ActiveChannel) : (a.task loop).renews c = false := by
  cases a
  all_goals rfl

end

end VServer
