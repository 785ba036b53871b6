import VServer.Net.TimerRuns

/-!
# The handler and an empty set

`fillExpired` takes the first timer when none is due, and dereferences `end()` when there is none.
The timerfd expires only while timers wait, and cancelling the last one disarms it and drops an
expiration nobody has read (`Clocked`). But `epoll_wait` may have reported it by then: a handler of
the same batch of channels that cancels the last timer leaves `handleRead` with an empty set
(`lastCancelled_undefined`). `handleRead_nonempty_iff` says when that happens: of the timers that
waited when the timerfd was reported and those added since, none is left uncancelled.
-/

namespace VServer

namespace TimerManager

variable {κ : Type} {tm tm' : TimerManager κ} {clock now : Nat} {fresh : UInt64} {c : TimerCall κ}
  {timer : Timer κ} {expired : List (Timer κ)}

theorem exists_same_insertTimer (timer : Timer κ) (timers : List (Timer κ)) :
    ∃ t ∈ insertTimer timer timers, timer.same t = true := by
  induction timers with
  | nil => exact ⟨timer, List.mem_cons_self, Timer.same_refl timer⟩
  | cons u timers ih =>
    unfold insertTimer
    split_ifs with hbefore hafter
    · exact ⟨timer, List.mem_cons_self, Timer.same_refl timer⟩
    · obtain ⟨t, ht, hsame⟩ := ih
      exact ⟨t, List.mem_cons_of_mem u ht, hsame⟩
    · exact ⟨u, List.mem_cons_self, by simp [Timer.same, hbefore, hafter]⟩

theorem perform_sorted (h : Sorted tm.timers) (hperform : tm.perform clock c = .ok tm') :
    Sorted tm'.timers := by
  cases c with
  | addTimerInloop timer =>
    cases hperform
    rw [(addTimerInloop_spec tm clock timer).1]
    exact sorted_insertTimer h
  | cancelInloop id =>
    rcases cancelInloop_spec hperform with ⟨-, rfl⟩ | ⟨target, -, -, htimers, -⟩
    · exact h
    · rw [htimers]
      exact h.sublist List.eraseP_sublist

theorem same_of_mem_eraseP {timers : List (Timer κ)} (h : Sorted timers) {target t : Timer κ}
    (ht : t ∈ timers.eraseP target.same) : target.same t = false := by
  induction timers with
  | nil => cases ht
  | cons u timers ih =>
    obtain ⟨hu, htail⟩ := List.pairwise_cons.mp h
    by_cases hsame : target.same u = true
    · rw [List.eraseP_cons_of_pos hsame] at ht
      have hbefore := Timer.before_iff.mp (hu t ht)
      rw [Timer.same_iff, ← UInt64.toNat_inj] at hsame
      rw [← Bool.not_eq_true, Timer.same_iff, ← UInt64.toNat_inj]
      omega
    · rw [List.eraseP_cons_of_neg hsame] at ht
      rcases List.mem_cons.mp ht with rfl | ht
      · exact Bool.eq_false_iff.mpr hsame
      · exact ih htail ht

theorem mem_of_perform (h : Sorted tm.timers) (hperform : tm.perform clock c = .ok tm') {t : Timer κ}
    (ht : t ∈ tm'.timers) :
    (t ∈ tm.timers ∧ (tm.found c).any (·.same t) = false) ∨ c.timer? = some t := by
  cases c with
  | addTimerInloop timer =>
    cases hperform
    rw [(addTimerInloop_spec tm clock timer).1] at ht
    rcases mem_insertTimer ht with rfl | ht
    · exact .inr rfl
    · exact .inl ⟨ht, rfl⟩
  | cancelInloop id =>
    rcases cancelInloop_spec hperform with ⟨hnone, rfl⟩ | ⟨target, hlookup, hany, htimers, -⟩
    · exact .inl ⟨ht, by rw [found, hnone]; rfl⟩
    · rw [htimers] at ht
      refine .inl ⟨List.mem_of_mem_eraseP ht, ?_⟩
      rw [found, hlookup, Option.any_some]
      exact same_of_mem_eraseP h ht

theorem exists_same_perform (hperform : tm.perform clock c = .ok tm') {t : Timer κ}
    (ht : c.timer? = some t ∨
      (tm.found c).any (·.same t) = false ∧ ∃ u ∈ tm.timers, t.same u = true) :
    ∃ u ∈ tm'.timers, t.same u = true := by
  cases c with
  | addTimerInloop timer =>
    cases hperform
    rw [(addTimerInloop_spec tm clock timer).1]
    rcases ht with ht | ⟨-, u, hu, hsame⟩
    · cases ht
      exact exists_same_insertTimer _ _
    · exact ⟨u, mem_insertTimer_of_mem hu, hsame⟩
  | cancelInloop id =>
    obtain ht | ⟨hstays, u, hu, hsame⟩ := ht
    · cases ht
    · rcases cancelInloop_spec hperform with ⟨-, rfl⟩ | ⟨target, hlookup, -, htimers, -⟩
      · exact ⟨u, hu, hsame⟩
      · rw [found, hlookup, Option.any_some] at hstays
        have hother : ¬ target.same u = true := by
          rw [← Bool.not_eq_true, Timer.same_iff] at hstays
          rw [Timer.same_iff] at hsame ⊢
          rwa [← hsame.1, ← hsame.2]
        rw [htimers]
        exact ⟨u, (List.mem_eraseP_of_neg hother).mpr hu, hsame⟩

/-- With no timer the timerfd is disarmed, and nothing is there to be read. -/
def Unarmed (tm : TimerManager κ) : Prop := tm.timers = [] → tm.timerfd = ⟨none, false⟩

theorem unarmed_of_rearmed (h : tm.timerfd = rearmed clock tm.timers) : tm.Unarmed := by
  intro hnil
  rw [h, hnil]
  rfl

theorem perform_unarmed (h : tm.Unarmed) (hperform : tm.perform clock c = .ok tm') : tm'.Unarmed := by
  cases c with
  | addTimerInloop timer =>
    cases hperform
    intro hnil
    rw [(addTimerInloop_spec tm clock timer).1] at hnil
    exact absurd hnil insertTimer_ne_nil
  | cancelInloop id =>
    rcases cancelInloop_spec hperform with ⟨-, rfl⟩ | ⟨target, -, -, -, -, ⟨-, hset⟩ | ⟨-, -, -, hne⟩⟩
    · exact h
    · exact unarmed_of_rearmed hset
    · exact fun hnil => absurd hnil hne

end TimerManager

namespace TimerLoop

variable {κ : Type} {s s' : TimerLoop κ} {l : Label κ} {labels : List (Label κ)}

def Stays (s : TimerLoop κ) (t : Timer κ) (labels : List (Label κ)) : Prop :=
  Machine.Along step (fun s l => (s.cancels l).any (·.same t) = false) s labels

/-- Of the timers that wait at first and of those that are added, one is not cancelled afterwards. -/
def KeepsOne (s : TimerLoop κ) (labels : List (Label κ)) : Prop :=
  (∃ t ∈ s.manager.timers, s.Stays t labels) ∨
    ∃ as l bs s₁ s₂ t, labels = as ++ l :: bs ∧ Machine.run step s as = .ok s₁ ∧
      step s₁ l = .ok s₂ ∧ s₁.adds l = some t ∧ s₂.Stays t bs

/-- The set is in order, it is not empty while the timerfd is armed or readable, and no batch is being
run while the handler is still to come. -/
structure Ready (s : TimerLoop κ) : Prop where
  sorted : Sorted s.manager.timers
  unarmed : s.manager.Unarmed
  idle : s.polled = true → s.batch = []

theorem init_ready (clock : Nat) (count : UInt64) : (init (κ := κ) clock count).Ready :=
  ⟨List.Pairwise.nil, fun _ => rfl, fun _ => rfl⟩

theorem acts_ready (hs : s.Ready) (h : s.Acts l s') : s'.Ready := by
  cases h with
  | tick | send => exact ⟨hs.sorted, hs.unarmed, hs.idle⟩
  | call _ _ _ hperform =>
    exact ⟨TimerManager.perform_sorted hs.sorted hperform,
      TimerManager.perform_unarmed hs.unarmed hperform, hs.idle⟩
  | functor _ _ _ hperform =>
    exact ⟨TimerManager.perform_sorted hs.sorted hperform,
      TimerManager.perform_unarmed hs.unarmed hperform, hs.idle⟩
  | expire hdeadline =>
    refine ⟨hs.sorted, fun hnil => ?_, hs.idle⟩
    rw [hs.unarmed hnil] at hdeadline
    cases hdeadline
  | poll _ hbatch => exact ⟨hs.sorted, hs.unarmed, fun _ => hbatch⟩
  | @handleRead manager expired _ hread =>
    obtain ⟨-, htimers, -, hset⟩ := TimerManager.fillExpired_spec hread
    have htimers : s.manager.timers = expired ++ manager.timers := htimers
    have hsorted := hs.sorted
    rw [htimers] at hsorted
    exact ⟨(List.pairwise_append.mp hsorted).2.1, TimerManager.unarmed_of_rearmed hset, nofun⟩
  | run hbatch =>
    refine ⟨hs.sorted, hs.unarmed, fun hpolled => ?_⟩
    rw [hs.idle hpolled] at hbatch
    cases hbatch

/-- What the handler leaves alone: a timer waits after another step if it waited before and was not
cancelled, or is added. -/
theorem acts_mem (hs : s.Ready) (h : s.Acts l s') (hl : l ≠ .handleRead) {t : Timer κ}
    (ht : t ∈ s'.manager.timers) :
    (t ∈ s.manager.timers ∧ (s.cancels l).any (·.same t) = false) ∨ s.adds l = some t := by
  cases h with
  | call _ _ hperforms hperform =>
    rw [cancels, adds, hperforms, Option.bind_some, Option.bind_some]
    exact TimerManager.mem_of_perform hs.sorted hperform ht
  | functor hqueue _ _ hperform =>
    rw [cancels, adds, performs, hqueue, List.head?_cons, Option.bind_some, Option.bind_some]
    exact TimerManager.mem_of_perform hs.sorted hperform ht
  | send _ _ hperforms =>
    rw [cancels, hperforms]
    exact .inl ⟨ht, rfl⟩
  | handleRead => exact absurd rfl hl
  | _ => exact .inl ⟨ht, rfl⟩

theorem acts_exists_same (h : s.Acts l s') (hl : l ≠ .handleRead) {t : Timer κ}
    (ht : s.adds l = some t ∨
      (s.cancels l).any (·.same t) = false ∧ ∃ u ∈ s.manager.timers, t.same u = true) :
    ∃ u ∈ s'.manager.timers, t.same u = true := by
  cases h with
  | call _ _ hperforms hperform =>
    rw [cancels, adds, hperforms, Option.bind_some, Option.bind_some] at ht
    exact TimerManager.exists_same_perform hperform ht
  | functor hqueue _ _ hperform =>
    rw [cancels, adds, performs, hqueue, List.head?_cons, Option.bind_some, Option.bind_some] at ht
    exact TimerManager.exists_same_perform hperform ht
  | send _ _ hperforms =>
    rw [adds, hperforms] at ht
    rcases ht with ht | ht
    · cases ht
    · exact ht.2
  | handleRead => exact absurd rfl hl
  | _ =>
    rcases ht with ht | ht
    · cases ht
    · exact ht.2

theorem acts_polled (h : s.Acts l s') :
    s'.polled = true ↔ l = .poll ∨ s.polled = true ∧ l ≠ .handleRead := by
  have hcall : l.isCall = true → l ≠ .poll ∧ l ≠ .handleRead := by
    rintro hl
    constructor <;> rintro rfl <;> cases hl
  cases h with
  | send hl | call hl => simp [hcall hl]
  | functor _ hpolled => simp [hpolled]
  | _ => simp

/-! ## From the report to the handler -/

theorem run_ready (hs : s.Ready) (hrun : Machine.run step s labels = .ok s') : s'.Ready :=
  Machine.run_inv (P := fun _ _ => True) (fun _ _ _ hs _ hstep => acts_ready hs (step_acts hstep)) hs
    (Machine.along_of_forall (fun _ _ => trivial) _) hrun

theorem exists_same_of_stays (hrun : Machine.run step s labels = .ok s')
    (hl : Label.handleRead ∉ labels) {t : Timer κ} (ht : ∃ u ∈ s.manager.timers, t.same u = true)
    (hstays : s.Stays t labels) : ∃ u ∈ s'.manager.timers, t.same u = true := by
  induction labels generalizing s with
  | nil =>
    cases hrun
    exact ht
  | cons l labels ih =>
    obtain ⟨s₁, hstep, hrest⟩ := Machine.run_cons_inv hrun
    obtain ⟨hl, hlabels⟩ := not_or.mp (mt List.mem_cons.mpr hl)
    have ht₁ := acts_exists_same (step_acts hstep) (Ne.symm hl) (.inr ⟨hstays.1, ht⟩)
    exact ih hrest hlabels ht₁ (hstays.2 s₁ hstep)

theorem mem_run (hs : s.Ready) (hrun : Machine.run step s labels = .ok s')
    (hl : Label.handleRead ∉ labels) {t : Timer κ} (ht : t ∈ s'.manager.timers) :
    (t ∈ s.manager.timers ∧ s.Stays t labels) ∨
      ∃ as l bs s₁ s₂ t, labels = as ++ l :: bs ∧ Machine.run step s as = .ok s₁ ∧
        step s₁ l = .ok s₂ ∧ s₁.adds l = some t ∧ s₂.Stays t bs := by
  induction labels generalizing s with
  | nil =>
    cases hrun
    exact .inl ⟨ht, trivial⟩
  | cons l labels ih =>
    obtain ⟨s₁, hstep, hrest⟩ := Machine.run_cons_inv hrun
    obtain ⟨hl, hlabels⟩ := not_or.mp (mt List.mem_cons.mpr hl)
    rcases ih (acts_ready hs (step_acts hstep)) hrest hlabels with
      ⟨ht₁, hstays⟩ | ⟨as, l', bs, s₂, s₃, u, rfl, has, hl', hadds, hstays⟩
    · rcases acts_mem hs (step_acts hstep) (Ne.symm hl) ht₁ with ⟨ht, hnot⟩ | hadds
      · refine .inl ⟨ht, hnot, fun s₂ hstep₂ => ?_⟩
        rw [hstep] at hstep₂
        cases hstep₂
        exact hstays
      · exact .inr ⟨[], l, labels, s, s₁, t, rfl, rfl, hstep, hadds, hstays⟩
    · exact .inr ⟨l :: as, l', bs, s₂, s₃, u, rfl, by rw [Machine.run_cons_ok hstep, has], hl', hadds,
        hstays⟩

theorem keepsOne_iff (hs : s.Ready) (hrun : Machine.run step s labels = .ok s')
    (hl : Label.handleRead ∉ labels) : s.KeepsOne labels ↔ s'.manager.timers ≠ [] := by
  constructor
  · rintro (⟨t, ht, hstays⟩ | ⟨as, l, bs, s₁, s₂, t, rfl, has, hstep, hadds, hstays⟩)
    · obtain ⟨u, hu, -⟩ := exists_same_of_stays hrun hl ⟨t, ht, Timer.same_refl t⟩ hstays
      exact List.ne_nil_of_mem hu
    · rw [Machine.run_append_ok has, Machine.run_cons_ok hstep] at hrun
      have hlabel : l ≠ .handleRead := fun h => hl (by simp [h])
      have hu := acts_exists_same (step_acts hstep) hlabel (.inl hadds)
      obtain ⟨u, hu, -⟩ := exists_same_of_stays hrun (fun h => hl (by simp [h])) hu hstays
      exact List.ne_nil_of_mem hu
  · intro hne
    obtain ⟨t, ht⟩ := List.exists_mem_of_ne_nil _ hne
    rcases mem_run hs hrun hl ht with ⟨ht, hstays⟩ | hadded
    · exact .inl ⟨t, ht, hstays⟩
    · exact .inr hadded

theorem polled_run {clock : Nat} {count : UInt64} {s : TimerLoop κ} {labels : List (Label κ)}
    (hrun : Machine.run step (init clock count) labels = .ok s) (hpolled : s.polled = true) :
    ∃ as bs s₀, labels = as ++ .poll :: bs ∧ Label.handleRead ∉ bs ∧
      Machine.run step (init clock count) (as ++ [.poll]) = .ok s₀ ∧ Machine.run step s₀ bs = .ok s := by
  induction labels using List.reverseRecOn generalizing s with
  | nil =>
    cases hrun
    cases hpolled
  | append_singleton labels l ih =>
    obtain ⟨s₁, hbefore, hlast⟩ := Machine.run_append_inv hrun
    obtain ⟨s₂, hstep, hnil⟩ := Machine.run_cons_inv hlast
    cases hnil
    rcases (acts_polled (step_acts hstep)).mp hpolled with rfl | ⟨hpolled, hl⟩
    · exact ⟨labels, [], s, rfl, List.not_mem_nil, hrun, rfl⟩
    · obtain ⟨as, bs, s₀, rfl, hbs, hreport, hrest⟩ := ih hbefore hpolled
      refine ⟨as, bs ++ [l], s₀, by simp, ?_, hreport, by rw [Machine.run_append_ok hrest, hlast]⟩
      simpa [hbs] using Ne.symm hl

theorem polled_of_run (hrun : Machine.run step s labels = .ok s') (hl : Label.handleRead ∉ labels)
    (hs : s.polled = true) : s'.polled = true := by
  induction labels generalizing s with
  | nil =>
    cases hrun
    exact hs
  | cons l labels ih =>
    obtain ⟨s₁, hstep, hrest⟩ := Machine.run_cons_inv hrun
    obtain ⟨hl, hlabels⟩ := not_or.mp (mt List.mem_cons.mpr hl)
    exact ih hrest hlabels ((acts_polled (step_acts hstep)).mpr (.inr ⟨hs, Ne.symm hl⟩))

theorem cancelInloop_ne_undefined (tm : TimerManager κ) (clock : Nat) (id : UInt64) :
    tm.cancelInloop clock id ≠ .error .undefined := by
  unfold TimerManager.cancelInloop
  dsimp only
  repeat' split
  all_goals nofun

theorem runInLoop_ne_undefined (s : TimerLoop κ) (inLoopThread : Bool) (c : TimerCall κ) :
    halt (s.runInLoop inLoopThread c) ≠ .error (.fault .undefined) := by
  unfold runInLoop
  split_ifs
  · cases c with
    | addTimerInloop timer =>
      intro h
      cases h
    | cancelInloop id =>
      intro h
      cases hcancel : s.manager.cancelInloop s.clock id with
      | ok manager =>
        rw [call, hcancel] at h
        cases h
      | error e =>
        rw [call, hcancel] at h
        cases h
        exact cancelInloop_ne_undefined _ _ _ hcancel
  · intro h
    cases h

theorem fillExpired_undefined {tm : TimerManager κ} (clock now : Nat) (fresh : UInt64)
    (h : tm.timers = []) : tm.fillExpired clock now fresh = .error .undefined := by
  simp [TimerManager.fillExpired, h]

theorem step_undefined (hs : s.Ready) :
    s.step l = .error (.fault .undefined) ↔
      l = .handleRead ∧ s.polled = true ∧ s.manager.timers = [] := by
  constructor
  · intro h
    cases l with
    | tick => cases h
    | addTimer | runAfter | cancel => exact absurd h (runInLoop_ne_undefined _ _ _)
    | functor =>
      simp only [step] at h
      split at h
      · split_ifs at h
        · exact absurd h (runInLoop_ne_undefined { s with queue := _ } true _)
        · cases h
      · cases h
    | expire =>
      simp only [step] at h
      split at h
      · split_ifs at h
        cases h
      · cases h
    | poll =>
      simp only [step] at h
      split_ifs at h
      cases h
    | run =>
      simp only [step] at h
      split at h
      · cases h
      · cases h
    | handleRead =>
      simp only [step] at h
      split_ifs at h with hpolled
      · refine ⟨rfl, hpolled.1, ?_⟩
        cases hread : s.manager.handleRead s.clock (s.count + 1) with
        | ok p =>
          rw [handleRead, hread] at h
          cases h
        | error e => exact (TimerManager.fillExpired_error hread).2
      · cases h
  · rintro ⟨rfl, hpolled, hnil⟩
    have hread : s.manager.handleRead s.clock (s.count + 1) = .error .undefined :=
      fillExpired_undefined _ _ _ hnil
    rw [step, if_pos ⟨hpolled, by rw [hs.idle hpolled]; rfl⟩, handleRead, hread]
    rfl

/-- **The handler finds a timer** whenever it runs **if and only if**, each time, of the timers that
waited when the timerfd was reported and those added since, one was not cancelled afterwards. -/
theorem handleRead_nonempty_iff (clock : Nat) (count : UInt64) (labels : List (Label κ)) :
    Machine.run step (init clock count) labels ≠ .error (.fault .undefined) ↔
      ∀ as bs cs s s', labels = as ++ .poll :: (bs ++ .handleRead :: cs) → Label.handleRead ∉ bs →
        Machine.run step (init clock count) (as ++ [.poll]) = .ok s → Machine.run step s bs = .ok s' →
          s.KeepsOne bs := by
  constructor
  · rintro hrun as bs cs s s' rfl hbs hreport hrest
    have hs := run_ready (init_ready clock count) hreport
    refine (keepsOne_iff hs hrest hbs).mpr fun hnil => hrun ?_
    obtain ⟨s₀, -, hlast⟩ := Machine.run_append_inv hreport
    obtain ⟨s₁, hpoll, hend⟩ := Machine.run_cons_inv hlast
    cases hend
    have hpolled := polled_of_run hrest hbs ((acts_polled (step_acts hpoll)).mpr (.inl rfl))
    have hfails := (step_undefined (run_ready hs hrest)).mpr ⟨rfl, hpolled, hnil⟩
    rw [List.append_cons, Machine.run_append_ok hreport, Machine.run_append_ok hrest, Machine.run, hfails]
  · intro h hrun
    obtain ⟨bs, l, cs, s', rfl, hbefore, hfails⟩ := Machine.run_eq_error hrun
    obtain ⟨rfl, hpolled, hnil⟩ := (step_undefined (run_ready (init_ready clock count) hbefore)).mp hfails
    obtain ⟨as, bs, s, rfl, hbs, hreport, hrest⟩ := polled_run hbefore hpolled
    have hkeeps := h as bs cs s s' (by simp) hbs hreport hrest
    exact (keepsOne_iff (run_ready (init_ready clock count) hreport) hrest hbs).mp hkeeps hnil

/-- A handler that runs before the one of the timerfd cancels the only timer. -/
def lastCancelledRun : List (Label Unit) :=
  [.runAfter true () 100, .tick 1000000000, .expire, .poll, .cancel true 1, .handleRead]

theorem lastCancelled_undefined : ¬ ∀ (clock : Nat) (count : UInt64) (labels : List (Label Unit)),
    Machine.run step (init clock count) labels ≠ .error (.fault .undefined) := by
  intro h
  exact h 0 0 lastCancelledRun (eq_error_of_check (by decide +kernel))

end TimerLoop

end VServer
