import VServer.Net.TimerRuns

/-!
# Timers with an interval

A `Timer` made with an interval is to be called again and again: `m_repeat` says so, and `restart`
computes when it is due next. But nothing calls `restart`. `handleRead` takes the expired timers out of
both indexes and runs their callbacks, and that is all; so a timer with an interval runs once, like any
other, and its id then names nothing that could be cancelled (`not_repeated`, `periodic_iff`).
-/

namespace VServer

namespace TimerLoop

variable {κ : Type} {s s' : TimerLoop κ} {l : Label κ} {t : Timer κ}

/-- Timer `t`, which ran at `now`, is in both indexes again and due an interval later. -/
structure Repeated (s : TimerLoop κ) (t : Timer κ) (now : Nat) : Prop where
  timers : (t.restart now).2 ∈ s.manager.timers
  table : s.manager.table.lookup t.id = some (t.restart now).2

theorem acts_fired (h : s.Acts l s') : s.fired <+: s'.fired := by
  cases h with
  | run hbatch => exact List.prefix_append _ _
  | _ => exact List.prefix_refl _

theorem run_fired {labels : List (Label κ)} (hrun : Machine.run freeStep s labels = .ok s') :
    s.fired <+: s'.fired :=
  Machine.run_inv (P := fun _ _ => True) (I := fun s' => s.fired <+: s'.fired)
    (fun _ _ _ hbefore _ hstep => hbefore.trans (acts_fired (freeStep_acts hstep)))
    (List.prefix_refl _) (Machine.along_of_forall (fun _ _ => trivial) _) hrun

theorem fired_of_run {later : List (Label κ)} (hfires : s.batch.head? = some t)
    (hrun : Machine.run freeStep s (.run :: later) = .ok s') : t ∈ s'.fired.map Prod.fst := by
  obtain ⟨s₁, hstep, hlater⟩ := Machine.run_cons_inv hrun
  cases freeStep_acts hstep with
  | @run u batch hbatch =>
    rw [hbatch] at hfires
    cases hfires
    have hnow : (t, s.now) ∈ s.fired ++ [(t, s.now)] := List.mem_append_right _ List.mem_cons_self
    exact List.mem_map_of_mem ((run_fired hlater).subset hnow)
  | send hl | call hl => cases hl

theorem Accounts.of_fired {events : List (TimerEvent κ)} (h : s.Accounts events)
    (hids : ((added events).map (·.id)).Nodup) (ht : t ∈ s.fired.map Prod.fst) :
    (∀ u ∈ s.manager.timers ++ s.batch, u.id ≠ t.id) ∧
      ((s.fired.map Prod.fst).map (·.id)).count t.id = 1 := by
  rw [← (h.placed.map (·.id)).nodup_iff, List.map_append] at hids
  have hplaced := hids.of_append_left
  rw [List.map_append, List.nodup_append] at hplaced
  obtain ⟨-, hfired, hapart⟩ := hplaced
  refine ⟨fun u hu hid => ?_, List.count_eq_one_of_mem hfired (List.mem_map_of_mem ht)⟩
  exact hapart u.id (List.mem_map_of_mem hu) t.id (List.mem_map_of_mem ht) hid

theorem cancelInloop_none {tm : TimerManager κ} {clock : Nat} {id : UInt64}
    (h : tm.table.lookup id = none) : tm.cancelInloop clock id = .ok tm := by
  rw [TimerManager.cancelInloop, h]

/-- From the moment a callback has run, neither index has its timer, or anything under its id; a cancel
of the id finds nothing, and the callback has run once. -/
theorem not_repeated {clock : Nat} {count : UInt64} {labels later : List (Label κ)}
    (hids : ((made ((init clock count).history (labels ++ .run :: later))).map (·.id)).Nodup)
    (hrun : Machine.run freeStep (init clock count) labels = .ok s) (hfires : s.batch.head? = some t)
    (hlater : Machine.run freeStep s (.run :: later) = .ok s') :
    (∀ u ∈ s'.manager.timers, u.id ≠ t.id) ∧
      s'.manager.cancelInloop s'.clock t.id = .ok s'.manager ∧
      ((s'.fired.map Prod.fst).map (·.id)).count t.id = 1 := by
  have hwhole : Machine.run freeStep (init clock count) (labels ++ .run :: later) = .ok s' := by
    rw [Machine.run_append_ok hrun, hlater]
  have hadded := nodup_added (run_queued hwhole) hids
  have haccounts := run_accounts hadded hwhole
  obtain ⟨hothers, honce⟩ := haccounts.of_fired hadded (fired_of_run hfires hlater)
  have htimers : ∀ u ∈ s'.manager.timers, u.id ≠ t.id := fun u hu =>
    hothers u (List.mem_append_left _ hu)
  refine ⟨htimers, cancelInloop_none ?_, honce⟩
  cases hlookup : s'.manager.table.lookup t.id with
  | none => rfl
  | some u =>
    obtain ⟨hu, hid⟩ := (haccounts.indexed.table _ _).mp hlookup
    exact absurd hid (htimers u hu)

/-- `cancel` was called for timer `t` after it was made. -/
def Cancelled (start : TimerLoop κ) (labels : List (Label κ)) (t : Timer κ) : Prop :=
  ∃ as bs inLoopThread, labels = as ++ .cancel inLoopThread t.id :: bs ∧ t ∈ made (start.history as)

/-- What is expected of the timers with an interval in a run: one that ran is back in both indexes until
it is cancelled or the timers expire again, and at any time a cancel takes out what has the id. -/
structure Periodic (start : TimerLoop κ) (labels : List (Label κ)) : Prop where
  repeated : ∀ as bs cs s s' t, labels = as ++ .run :: (bs ++ cs) →
    Machine.run freeStep start as = .ok s → s.batch.head? = some t → 0 < t.interval →
      Machine.run freeStep s (.run :: bs) = .ok s' → .handleRead ∉ bs →
        ¬ start.Cancelled (as ++ .run :: bs) t → s'.Repeated t s.now
  cancelled : ∀ as bs s id, labels = as ++ bs → Machine.run freeStep start as = .ok s →
    ∃ manager, s.manager.cancelInloop s.clock id = .ok manager ∧
      (∀ u ∈ manager.timers, u.id ≠ id) ∧ manager.table.lookup id = none

section

variable {start : TimerLoop κ} {as bs : List (Label κ)}

theorem Cancelled.append (h : start.Cancelled as t) (bs : List (Label κ)) :
    start.Cancelled (as ++ bs) t := by
  obtain ⟨before, after, inLoopThread, rfl, hmade⟩ := h
  exact ⟨before, after ++ bs, inLoopThread, by simp, hmade⟩

theorem Cancelled.of_run (h : start.Cancelled (as ++ [.run]) t) : start.Cancelled as t := by
  obtain ⟨before, after, inLoopThread, hlabels, hmade⟩ := h
  rcases List.eq_nil_or_concat after with rfl | ⟨after, l, rfl⟩
  · obtain ⟨-, hlast⟩ := List.append_inj' hlabels rfl
    cases hlast
  · rw [List.concat_eq_append, ← List.cons_append, ← List.append_assoc] at hlabels
    obtain ⟨rfl, -⟩ := List.append_inj' hlabels rfl
    exact ⟨before, after, inLoopThread, rfl, hmade⟩

theorem nodup_made_append (hids : ((made (start.history (as ++ bs))).map (·.id)).Nodup)
    (hrun : Machine.run freeStep start as = .ok s) :
    ((made (start.history as)).map (·.id)).Nodup := by
  rw [history, Machine.collect_append_ok hrun, made, List.filterMap_append, List.map_append] at hids
  exact hids.of_append_left

end

theorem exists_run (hfires : s.batch.head? = some t) :
    ∃ s', Machine.run freeStep s [.run] = .ok s' := by
  cases hbatch : s.batch with
  | nil =>
    rw [hbatch] at hfires
    cases hfires
  | cons u batch =>
    have hstep : s.freeStep .run =
        .ok { s with batch := batch, fired := s.fired ++ [(u, s.now)] } := by
      show s.step .run = _
      rw [step, hbatch]
    exact ⟨_, Machine.run_cons_ok hstep⟩

/-- **Timers with an interval repeat in those runs only in which none of them is called**, or none that
was not cancelled before: what is called once is gone. Ids are not given twice in these runs. -/
theorem periodic_iff (clock : Nat) (count : UInt64) (labels : List (Label κ))
    (hids : ((made ((init clock count).history labels)).map (·.id)).Nodup) :
    (init clock count).Periodic labels ↔
      ∀ as bs s t, labels = as ++ .run :: bs → Machine.run freeStep (init clock count) as = .ok s →
        s.batch.head? = some t → 0 < t.interval → (init clock count).Cancelled as t := by
  constructor
  · rintro hperiodic as bs s t rfl hrun hfires hinterval
    by_contra hnever
    obtain ⟨s', hcallback⟩ := exists_run hfires
    have hwhole : Machine.run freeStep (init clock count) (as ++ [.run]) = .ok s' := by
      rw [Machine.run_append_ok hrun, hcallback]
    rw [List.append_cons] at hids
    have hgone := not_repeated (nodup_made_append hids hwhole) hrun hfires hcallback
    have hrepeated := hperiodic.repeated as [] bs s s' t rfl hrun hfires hinterval hcallback
      List.not_mem_nil fun hcancelled => hnever hcancelled.of_run
    exact hgone.1 _ hrepeated.timers (Timer.restart_id t s.now)
  · intro hcancelled
    refine ⟨?_, ?_⟩
    · rintro as bs cs s s' t rfl hrun hfires hinterval - - hnever
      exact absurd ((hcancelled as (bs ++ cs) s t rfl hrun hfires hinterval).append _) hnever
    · rintro as bs s id rfl hrun
      have hadded := nodup_added (run_queued hrun) (nodup_made_append hids hrun)
      have hindexed := (run_accounts hadded hrun).indexed
      obtain ⟨manager, hcancel⟩ := hindexed.cancelInloop_ok s.clock id
      obtain ⟨hindexed', -, hgone⟩ := hindexed.cancelInloop hcancel
      refine ⟨manager, hcancel, hgone, ?_⟩
      cases hlookup : manager.table.lookup id with
      | none => rfl
      | some u =>
        obtain ⟨hu, hid⟩ := (hindexed'.table _ _).mp hlookup
        exact absurd hid (hgone u hu)

/-- A timer that is due at once and then every second, up to its first callback. -/
def secondsRun : List (Label Unit) :=
  [.addTimer true () 0 1000, .tick 1000000000, .expire, .poll, .handleRead]

/-- It is cancelled before it is called. -/
theorem periodic_iff_cancelled :
    (init 0 0).Periodic [.addTimer true () 0 1000, .cancel true 1] := by
  refine (periodic_iff 0 0 [.addTimer true () 0 1000, .cancel true 1] (made_ids _ _ (by decide)).2).mpr ?_
  intro as bs s t hlabels
  have hmem : Label.run ∈ [.addTimer true () 0 1000, .cancel true 1] := by
    rw [hlabels]
    exact List.mem_append_right _ List.mem_cons_self
  simp at hmem

/-- It is called at 1000 ms, and is not there afterwards. -/
theorem periodic_lost : ¬ ∀ (clock : Nat) (count : UInt64) (labels : List (Label Unit))
    (s : TimerLoop Unit), Machine.run step (init clock count) labels = .ok s →
      (init clock count).Periodic labels := by
  intro h
  obtain ⟨s, hs, hbatch⟩ := eq_ok_of_toOption (b := some ⟨(), 0, 1000, 1⟩)
    (f := fun s : TimerLoop Unit => s.batch.head?)
    (x := Machine.run step (init 0 0) secondsRun) (by decide +kernel)
  obtain ⟨s', hwhole, htimers⟩ := eq_ok_of_toOption (b := [])
    (f := fun s : TimerLoop Unit => s.manager.timers)
    (x := Machine.run step (init 0 0) (secondsRun ++ [.run])) (by decide +kernel)
  have hs' : Machine.run step s [.run] = .ok s' := by rw [← Machine.run_append_ok hs, hwhole]
  have hnever : ¬ (init 0 0).Cancelled (secondsRun ++ [.run]) ⟨(), 0, 1000, 1⟩ := by
    rintro ⟨as, bs, inLoopThread, hlabels, -⟩
    have hmem : Label.cancel inLoopThread 1 ∈ secondsRun ++ [.run] := by
      rw [hlabels]
      exact List.mem_append_right _ List.mem_cons_self
    simp [secondsRun] at hmem
  have hrepeated := (h 0 0 _ s' hwhole).repeated secondsRun [] [] s s' _ rfl (run_freeStep hs) hbatch
    (by decide) (run_freeStep hs') List.not_mem_nil hnever
  have hmem := hrepeated.timers
  rw [htimers] at hmem
  cases hmem

end TimerLoop

end VServer
