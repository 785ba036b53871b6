import VServer.Net.TimerStore

/-!
# What happens to a timer

A timer is made by `addTimer` or `runAfter`, which gives it its id; later, at once on the loop's own
thread and through the queue from the others, `addTimerInloop` puts it in the indexes. From there
`handleRead` takes it into a batch whose callbacks run, or `cancelInloop` takes it out. `Acts` says
once what each step does; `Accounts` counts the timers along a run: whatever was made is in the queue
or was added, whatever was added waits, is in the batch, has run or was cancelled. It rests on ids
that are not given twice: the 64-bit counter behind them has to come round for that
(`ids_come_round`).

The results hold for a handler that may be entered at any time (`freeStep`), not only when the
timerfd was reported.
-/

namespace VServer

def TimerManager.perform {κ : Type} (tm : TimerManager κ) (clock : Nat) :
    TimerCall κ → Except Fault (TimerManager κ)
  | .addTimerInloop timer => .ok (tm.addTimerInloop clock timer)
  | .cancelInloop id => tm.cancelInloop clock id

def TimerCall.timer? {κ : Type} : TimerCall κ → Option (Timer κ)
  | .addTimerInloop timer => some timer
  | .cancelInloop _ => none

def TimerManager.found {κ : Type} (tm : TimerManager κ) : TimerCall κ → Option (Timer κ)
  | .addTimerInloop _ => none
  | .cancelInloop id => tm.table.lookup id

namespace TimerLoop

variable {κ : Type} (s : TimerLoop κ)

/-- `step`, but the handler may be entered whenever no batch is being run. -/
def freeStep (s : TimerLoop κ) : Label κ → Except Halt (TimerLoop κ)
  | .handleRead => if s.batch.isEmpty then halt s.handleRead else .error .disabled
  | l => s.step l

def Label.isCall : Label κ → Bool
  | .addTimer _ _ _ _ | .runAfter _ _ _ | .cancel _ _ => true
  | .tick _ | .functor | .expire | .poll | .handleRead | .run => false

def makes : Label κ → Option (Timer κ)
  | .addTimer _ cb expire interval => some ⟨cb, expire, interval, s.count + 1⟩
  | .runAfter _ cb delay => some ⟨cb, timeAdd s.now delay, 0, s.count + 1⟩
  | _ => none

def performs : Label κ → Option (TimerCall κ)
  | .addTimer true cb expire interval => (s.makes (.addTimer true cb expire interval)).map .addTimerInloop
  | .runAfter true cb delay => (s.makes (.runAfter true cb delay)).map .addTimerInloop
  | .cancel true id => some (.cancelInloop id)
  | .functor => s.queue.head?
  | _ => none

/-- `Timer::count` after the timer is made. -/
def nextCount (l : Label κ) : UInt64 := if (s.makes l).isSome then s.count + 1 else s.count

inductive Acts (s : TimerLoop κ) : Label κ → TimerLoop κ → Prop
  | tick (duration : Nat) : Acts s (.tick duration) { s with clock := s.clock + duration }
  | send {l : Label κ} {c : TimerCall κ} (hl : l.isCall = true) (hmakes : s.makes l = c.timer?)
      (hperforms : s.performs l = none) :
      Acts s l { s with count := s.nextCount l, queue := s.queue ++ [c] }
  | call {l : Label κ} {c : TimerCall κ} {manager : TimerManager κ} (hl : l.isCall = true)
      (hmakes : s.makes l = c.timer?) (hperforms : s.performs l = some c)
      (hperform : s.manager.perform s.clock c = .ok manager) :
      Acts s l { s with count := s.nextCount l, manager := manager }
  | functor {c : TimerCall κ} {queue : List (TimerCall κ)} {manager : TimerManager κ}
      (hqueue : s.queue = c :: queue) (hpolled : s.polled = false) (hbatch : s.batch = [])
      (hperform : s.manager.perform s.clock c = .ok manager) :
      Acts s .functor { s with queue := queue, manager := manager }
  | expire {deadline : Nat} (hdeadline : s.manager.timerfd.deadline = some deadline)
      (hle : deadline ≤ s.clock) :
      Acts s .expire { s with manager := { s.manager with timerfd := ⟨none, true⟩ } }
  | poll (hready : s.manager.timerfd.ready = true) (hbatch : s.batch = []) :
      Acts s .poll { s with polled := true }
  | handleRead {manager : TimerManager κ} {expired : List (Timer κ)} (hbatch : s.batch = [])
      (hread : s.manager.handleRead s.clock (s.count + 1) = .ok (manager, expired)) :
      Acts s .handleRead
        { s with count := s.count + 1, manager := manager, polled := false, batch := expired }
  | run {t : Timer κ} {batch : List (Timer κ)} (hbatch : s.batch = t :: batch) :
      Acts s .run { s with batch := batch, fired := s.fired ++ [(t, s.now)] }

variable {s}

theorem call_eq_ok {s' : TimerLoop κ} {c : TimerCall κ} (h : s.call c = .ok s') :
    ∃ manager, s.manager.perform s.clock c = .ok manager ∧ s' = { s with manager := manager } := by
  cases c with
  | addTimerInloop timer =>
    cases h
    exact ⟨_, rfl, rfl⟩
  | cancelInloop id =>
    obtain ⟨manager, hcancel, hreturn⟩ := bind_eq_ok h
    cases hreturn
    exact ⟨manager, hcancel, rfl⟩

theorem runInLoop_eq_ok {s' : TimerLoop κ} {inLoopThread : Bool} {c : TimerCall κ}
    (h : s.runInLoop inLoopThread c = .ok s') :
    (inLoopThread = true ∧ ∃ manager, s.manager.perform s.clock c = .ok manager ∧
        s' = { s with manager := manager }) ∨
      inLoopThread = false ∧ s' = { s with queue := s.queue ++ [c] } := by
  unfold runInLoop at h
  split_ifs at h with hin
  · exact .inl ⟨hin, call_eq_ok h⟩
  · exact .inr ⟨Bool.eq_false_iff.mpr hin, (Except.ok.inj h).symm⟩

theorem addTimer_acts {s' : TimerLoop κ} {inLoopThread : Bool} {cb : κ} {expire interval : Nat}
    {l : Label κ} (h : s.addTimer inLoopThread cb expire interval = .ok s')
    (hl : l.isCall = true) (hmakes : s.makes l = some ⟨cb, expire, interval, s.count + 1⟩)
    (hperforms : s.performs l = if inLoopThread then (s.makes l).map .addTimerInloop else none) :
    s.Acts l s' := by
  have hcount : s.nextCount l = s.count + 1 := by
    rw [nextCount, hmakes]
    rfl
  rw [hmakes] at hperforms
  rcases runInLoop_eq_ok h with ⟨rfl, manager, hperform, rfl⟩ | ⟨rfl, rfl⟩
  · have hacts := Acts.call (c := .addTimerInloop _) hl hmakes hperforms hperform
    rwa [hcount] at hacts
  · have hacts := Acts.send (c := .addTimerInloop _) hl hmakes hperforms
    rwa [hcount] at hacts

/-- **What a step does**, read off `step` once. -/
theorem freeStep_acts {s' : TimerLoop κ} {l : Label κ} (h : s.freeStep l = .ok s') : s.Acts l s' := by
  cases l with
  | tick duration =>
    cases h
    exact .tick duration
  | addTimer inLoopThread cb expire interval =>
    refine addTimer_acts (halt_eq_ok h) rfl rfl ?_
    cases inLoopThread <;> rfl
  | runAfter inLoopThread cb delay =>
    refine addTimer_acts (halt_eq_ok h) rfl rfl ?_
    cases inLoopThread <;> rfl
  | cancel inLoopThread id =>
    rcases runInLoop_eq_ok (halt_eq_ok h) with ⟨rfl, manager, hperform, rfl⟩ | ⟨rfl, rfl⟩
    · exact .call rfl rfl rfl hperform
    · exact .send rfl rfl rfl
  | functor =>
    simp only [freeStep, step] at h
    split at h
    · rename_i c queue hqueue
      split_ifs at h with hidle
      obtain ⟨manager, hperform, rfl⟩ := call_eq_ok (halt_eq_ok h)
      exact .functor hqueue hidle.1 (List.isEmpty_iff.mp hidle.2) hperform
    · cases h
  | expire =>
    simp only [freeStep, step] at h
    split at h
    · rename_i deadline hdeadline
      split_ifs at h with hle
      cases h
      exact .expire hdeadline hle
    · cases h
  | poll =>
    simp only [freeStep, step] at h
    split_ifs at h with hready
    cases h
    exact .poll hready.1 (List.isEmpty_iff.mp hready.2)
  | handleRead =>
    simp only [freeStep] at h
    split_ifs at h with hbatch
    obtain ⟨⟨manager, expired⟩, hread, hreturn⟩ := bind_eq_ok (halt_eq_ok h)
    cases hreturn
    exact .handleRead (List.isEmpty_iff.mp hbatch) hread
  | run =>
    simp only [freeStep, step] at h
    split at h
    · rename_i t batch hbatch
      cases h
      exact .run hbatch
    · cases h

theorem freeStep_of_step {s' : TimerLoop κ} {l : Label κ} (h : s.step l = .ok s') :
    s.freeStep l = .ok s' := by
  cases l with
  | handleRead =>
    simp only [step] at h
    split_ifs at h with hpolled
    rw [freeStep, if_pos hpolled.2, h]
  | _ => exact h

theorem step_acts {s' : TimerLoop κ} {l : Label κ} (h : s.step l = .ok s') : s.Acts l s' :=
  freeStep_acts (freeStep_of_step h)

theorem run_freeStep {s' : TimerLoop κ} {labels : List (Label κ)}
    (h : Machine.run step s labels = .ok s') : Machine.run freeStep s labels = .ok s' := by
  induction labels generalizing s with
  | nil => exact h
  | cons l labels ih =>
    obtain ⟨s₁, hstep, hrest⟩ := Machine.run_cons_inv h
    rw [Machine.run_cons_ok (freeStep_of_step hstep)]
    exact ih hrest

theorem along_freeStep {P : TimerLoop κ → Label κ → Prop} {s' : TimerLoop κ} {labels : List (Label κ)}
    (h : Machine.run step s labels = .ok s') (halong : Machine.Along step P s labels) :
    Machine.Along freeStep P s labels := by
  induction labels generalizing s with
  | nil => trivial
  | cons l labels ih =>
    obtain ⟨s₁, hstep, hrest⟩ := Machine.run_cons_inv h
    refine ⟨halong.1, fun s₂ hfree => ?_⟩
    rw [freeStep_of_step hstep] at hfree
    cases hfree
    exact ih hrest (halong.2 s₁ hstep)

/-! ## What was made, added and cancelled -/

end TimerLoop

inductive TimerEvent (κ : Type) where
  | made (timer : Timer κ)
  | added (timer : Timer κ)
  | cancelled (timer : Timer κ)
  | revoked (timer : Timer κ)

namespace TimerEvent

variable {κ : Type}

def made? : TimerEvent κ → Option (Timer κ)
  | .made timer => some timer
  | _ => none

def added? : TimerEvent κ → Option (Timer κ)
  | .added timer => some timer
  | _ => none

def cancelled? : TimerEvent κ → Option (Timer κ)
  | .cancelled timer => some timer
  | _ => none

def revoked? : TimerEvent κ → Option (Timer κ)
  | .revoked timer => some timer
  | _ => none

end TimerEvent

namespace TimerLoop

variable {κ : Type} (s : TimerLoop κ)

/-- The timer that `addTimerInloop` is given. -/
def adds (l : Label κ) : Option (Timer κ) := (s.performs l).bind TimerCall.timer?

/-- The timer that `cancelInloop` finds in the table. -/
def cancels (l : Label κ) : Option (Timer κ) := (s.performs l).bind s.manager.found

def queued : List (Timer κ) := s.queue.filterMap TimerCall.timer?

/-- The timers a `cancelInloop` ends for that was called when they had been made, and whose callbacks
have not started. What is in the queue behind the call was made after it. -/
def revoked : Label κ → List (Timer κ)
  | .cancel true id => (s.queued ++ s.manager.timers ++ s.batch).filter fun t => t.id = id
  | .functor =>
    match s.queue.head? with
    | some (.cancelInloop id) => (s.manager.timers ++ s.batch).filter fun t => t.id = id
    | _ => []
  | _ => []

def events (l : Label κ) : List (TimerEvent κ) :=
  (s.makes l).toList.map .made ++ (s.adds l).toList.map .added ++
    (s.cancels l).toList.map .cancelled ++ (s.revoked l).map .revoked

/-- What happened to timers in a run from `s`. -/
def history : List (Label κ) → List (TimerEvent κ) := Machine.collect freeStep events s

def made (history : List (TimerEvent κ)) : List (Timer κ) := history.filterMap TimerEvent.made?

def added (history : List (TimerEvent κ)) : List (Timer κ) := history.filterMap TimerEvent.added?

def cancelled (history : List (TimerEvent κ)) : List (Timer κ) :=
  history.filterMap TimerEvent.cancelled?

def revocations (history : List (TimerEvent κ)) : List (Timer κ) :=
  history.filterMap TimerEvent.revoked?

section

variable {s}

theorem append_right_comm_perm {α : Type} (l₁ l₂ l₃ : List α) :
    (l₁ ++ l₂ ++ l₃).Perm (l₁ ++ l₃ ++ l₂) := by
  rw [List.append_assoc, List.append_assoc]
  exact List.perm_append_comm.append_left l₁

theorem made_append_events (h : List (TimerEvent κ)) (l : Label κ) :
    made (h ++ s.events l) = made h ++ (s.makes l).toList := by
  simp [made, events, List.filterMap_map, Function.comp_def, TimerEvent.made?]

@[simp] theorem made_events (l : Label κ) : made (s.events l) = (s.makes l).toList :=
  made_append_events [] l

theorem added_append_events (h : List (TimerEvent κ)) (l : Label κ) :
    added (h ++ s.events l) = added h ++ (s.adds l).toList := by
  simp [added, events, List.filterMap_map, Function.comp_def, TimerEvent.added?]

theorem cancelled_append_events (h : List (TimerEvent κ)) (l : Label κ) :
    cancelled (h ++ s.events l) = cancelled h ++ (s.cancels l).toList := by
  simp [cancelled, events, List.filterMap_map, Function.comp_def, TimerEvent.cancelled?]

theorem revocations_append_events (h : List (TimerEvent κ)) (l : Label κ) :
    revocations (h ++ s.events l) = revocations h ++ s.revoked l := by
  simp [revocations, events, List.filterMap_map, Function.comp_def, TimerEvent.revoked?]

/-- **Nothing gets lost on the way to the loop.** -/
theorem acts_queued {s' : TimerLoop κ} {l : Label κ} (h : s.Acts l s') {events : List (TimerEvent κ)}
    (hs : (s.queued ++ added events).Perm (made events)) :
    (s'.queued ++ added (events ++ s.events l)).Perm (made (events ++ s.events l)) := by
  rw [made_append_events, added_append_events]
  cases h with
  | @send l c hl hmakes hperforms =>
    rw [adds, hperforms, hmakes, queued, List.filterMap_append]
    have hc : List.filterMap TimerCall.timer? [c] = c.timer?.toList := by cases c <;> rfl
    rw [hc, Option.bind_none, Option.toList_none, List.append_nil]
    exact (append_right_comm_perm _ _ _).trans (hs.append_right _)
  | @call l c manager hl hmakes hperforms hperform =>
    rw [adds, hperforms, hmakes, Option.bind_some, ← List.append_assoc]
    exact hs.append_right _
  | @functor c queue manager hqueue hpolled hbatch hperform =>
    have hc : List.filterMap TimerCall.timer? (c :: queue) =
        c.timer?.toList ++ queue.filterMap TimerCall.timer? := by cases c <;> rfl
    rw [queued, hqueue, hc] at hs
    have hmakes : s.makes .functor = none := rfl
    rw [adds, performs, hqueue, List.head?_cons, Option.bind_some, queued, hmakes, Option.toList_none,
      List.append_nil, ← List.append_assoc]
    rw [List.append_assoc] at hs
    exact List.perm_append_comm.trans hs
  | _ => simpa [makes, adds, performs, queued] using hs

/-- Where the timers that were added are. -/
structure Accounts (s : TimerLoop κ) (events : List (TimerEvent κ)) : Prop where
  indexed : s.manager.Indexed
  placed : (s.manager.timers ++ s.batch ++ s.fired.map Prod.fst ++ cancelled events).Perm (added events)

theorem perform_indexed {tm tm' : TimerManager κ} {clock : Nat} {c : TimerCall κ} (h : tm.Indexed)
    (hnew : ∀ t, c.timer? = some t → ∀ u ∈ tm.timers, u.id ≠ t.id)
    (hperform : tm.perform clock c = .ok tm') :
    tm'.Indexed ∧ (tm'.timers ++ (tm.found c).toList).Perm (tm.timers ++ c.timer?.toList) := by
  cases c with
  | addTimerInloop timer =>
    cases hperform
    obtain ⟨hindexed, hperm⟩ := h.addTimerInloop clock timer (hnew timer rfl)
    refine ⟨hindexed, ?_⟩
    rw [TimerManager.found, Option.toList_none, List.append_nil]
    exact hperm.trans (@List.perm_append_comm _ [timer] _)
  | cancelInloop id =>
    obtain ⟨hindexed, hperm, -⟩ := h.cancelInloop hperform
    refine ⟨hindexed, ?_⟩
    rw [TimerCall.timer?, Option.toList_none, List.append_nil]
    exact List.perm_append_comm.trans hperm.symm

theorem Accounts.perform {events events' : List (TimerEvent κ)} {s' : TimerLoop κ} {c : TimerCall κ}
    (hs : s.Accounts events) (hnodup : ((added events').map (·.id)).Nodup)
    (hadded : added events' = added events ++ c.timer?.toList)
    (hcancelled : cancelled events' = cancelled events ++ (s.manager.found c).toList)
    (hperform : s.manager.perform s.clock c = .ok s'.manager) (hbatch : s'.batch = s.batch)
    (hfired : s'.fired = s.fired) : s'.Accounts events' := by
  have hnew : ∀ t, c.timer? = some t → ∀ u ∈ s.manager.timers, u.id ≠ t.id := by
    intro t ht u hu
    rw [hadded, ht, List.map_append, List.nodup_append] at hnodup
    have humem : u ∈ added events := hs.placed.subset (by simp [hu])
    exact hnodup.2.2 u.id (List.mem_map_of_mem humem) t.id (by simp)
  obtain ⟨hindexed, hperm⟩ := perform_indexed hs.indexed hnew hperform
  refine ⟨hindexed, ?_⟩
  have hplaced := hs.placed
  rw [List.append_assoc, List.append_assoc] at hplaced
  rw [hadded, hcancelled, hbatch, hfired, ← List.append_assoc, List.append_assoc _ s.batch,
    List.append_assoc _ (s.batch ++ _)]
  calc
    List.Perm _ (s'.manager.timers ++ (s.manager.found c).toList ++
        (s.batch ++ s.fired.map Prod.fst ++ cancelled events)) := append_right_comm_perm _ _ _
    List.Perm _ (s.manager.timers ++ c.timer?.toList ++
        (s.batch ++ s.fired.map Prod.fst ++ cancelled events)) := hperm.append_right _
    List.Perm _ (s.manager.timers ++ (s.batch ++ s.fired.map Prod.fst ++ cancelled events) ++
        c.timer?.toList) := append_right_comm_perm _ _ _
    List.Perm _ (added events ++ c.timer?.toList) := by
      rw [List.append_assoc s.batch]
      exact hplaced.append_right _

/-- **Every timer that was added stays accounted for**, as long as no two of them have the same id. -/
theorem acts_accounts {s' : TimerLoop κ} {l : Label κ} (h : s.Acts l s')
    {events : List (TimerEvent κ)} (hs : s.Accounts events)
    (hnodup : ((added (events ++ s.events l)).map (·.id)).Nodup) :
    s'.Accounts (events ++ s.events l) := by
  have hadded : ∀ {a}, s.adds l = a → added (events ++ s.events l) = added events ++ a.toList := by
    rintro a rfl
    exact added_append_events events l
  have hcancelled : ∀ {a}, s.cancels l = a →
      cancelled (events ++ s.events l) = cancelled events ++ a.toList := by
    rintro a rfl
    exact cancelled_append_events events l
  have hnone : s.performs l = none → added (events ++ s.events l) = added events ∧
      cancelled (events ++ s.events l) = cancelled events := by
    intro hperforms
    rw [hadded (a := none) (by rw [adds, hperforms]; rfl),
      hcancelled (a := none) (by rw [cancels, hperforms]; rfl)]
    simp
  have hsome : ∀ {c}, s.performs l = some c →
      added (events ++ s.events l) = added events ++ c.timer?.toList ∧
      cancelled (events ++ s.events l) = cancelled events ++ (s.manager.found c).toList := by
    intro c hperforms
    exact ⟨hadded (by rw [adds, hperforms]; rfl), hcancelled (by rw [cancels, hperforms]; rfl)⟩
  cases h with
  | tick duration =>
    obtain ⟨ha, hc⟩ := hnone rfl
    exact ⟨hs.indexed, by rw [ha, hc]; exact hs.placed⟩
  | send hl hmakes hperforms =>
    obtain ⟨ha, hc⟩ := hnone hperforms
    exact ⟨hs.indexed, by rw [ha, hc]; exact hs.placed⟩
  | call hl hmakes hperforms hperform =>
    obtain ⟨ha, hc⟩ := hsome hperforms
    exact hs.perform hnodup ha hc hperform rfl rfl
  | functor hqueue hpolled hbatch hperform =>
    obtain ⟨ha, hc⟩ := hsome (by rw [performs, hqueue]; rfl)
    exact hs.perform hnodup ha hc hperform rfl rfl
  | expire hdeadline hle =>
    obtain ⟨ha, hc⟩ := hnone rfl
    exact ⟨⟨hs.indexed.ids, hs.indexed.table⟩, by rw [ha, hc]; exact hs.placed⟩
  | poll hready hbatch =>
    obtain ⟨ha, hc⟩ := hnone rfl
    exact ⟨hs.indexed, by rw [ha, hc]; exact hs.placed⟩
  | @handleRead manager expired hbatch hread =>
    obtain ⟨ha, hc⟩ := hnone rfl
    have hcleared : (TimerManager.Indexed
        { s.manager with timerfd := { s.manager.timerfd with ready := false } }) :=
      ⟨hs.indexed.ids, hs.indexed.table⟩
    obtain ⟨-, htimers, -⟩ := TimerManager.fillExpired_spec hread
    refine ⟨hcleared.fillExpired hread, ?_⟩
    have hplaced := hs.placed
    have htimers : s.manager.timers = expired ++ manager.timers := htimers
    rw [hbatch, htimers, List.append_nil] at hplaced
    rw [ha, hc]
    refine List.Perm.trans ?_ hplaced
    exact ((@List.perm_append_comm _ manager.timers _).append_right _).append_right _
  | @run t batch hbatch =>
    obtain ⟨ha, hc⟩ := hnone rfl
    refine ⟨hs.indexed, ?_⟩
    have hplaced := hs.placed
    rw [hbatch] at hplaced
    rw [ha, hc]
    refine List.Perm.trans (.append_right _ ?_) hplaced
    rw [List.map_append, List.append_assoc, List.append_assoc]
    refine List.Perm.append_left _ ?_
    rw [← List.append_assoc]
    exact @List.perm_append_comm _ _ [t]

/-! ## Ids -/

theorem makes_id {l : Label κ} {t : Timer κ} (h : s.makes l = some t) : t.id = s.count + 1 := by
  cases l with
  | addTimer _ _ _ _ | runAfter _ _ _ =>
    cases h
    rfl
  | _ => cases h

theorem acts_count {s' : TimerLoop κ} {l : Label κ} (h : s.Acts l s') :
    s'.count = s.count + 1 ∨ s'.count = s.count ∧ s.makes l = none := by
  have hnext : s.nextCount l = s.count + 1 ∨ s.nextCount l = s.count ∧ s.makes l = none := by
    unfold nextCount
    cases s.makes l with
    | none => exact .inr ⟨rfl, rfl⟩
    | some t => exact .inl rfl
  cases h with
  | send | call => exact hnext
  | handleRead => exact .inl rfl
  | tick | functor | expire | poll | run => exact .inr ⟨rfl, rfl⟩

theorem add_ofNat_ne {count : UInt64} {k : Nat} (hone : 1 < k) (hlt : k < 2 ^ 64) :
    count + .ofNat 1 ≠ count + .ofNat k := by
  intro h
  have hnat := congrArg UInt64.toNat ((UInt64.add_right_inj count).mp h)
  rw [UInt64.toNat_ofNat_of_lt' hlt] at hnat
  exact absurd hnat (by simpa using Nat.ne_of_lt hone)

theorem made_ids (labels : List (Label κ)) (s : TimerLoop κ) (hlength : labels.length < 2 ^ 64) :
    (∀ t ∈ made (s.history labels), ∃ k, 0 < k ∧ k ≤ labels.length ∧ t.id = s.count + .ofNat k) ∧
      ((made (s.history labels)).map (·.id)).Nodup := by
  induction labels generalizing s with
  | nil => exact ⟨fun t ht => absurd ht List.not_mem_nil, List.nodup_nil⟩
  | cons l labels ih =>
    rw [List.length_cons] at hlength ⊢
    have hnow : ∀ t ∈ made (s.events l), t.id = s.count + .ofNat 1 := by
      intro t ht
      rw [made_events] at ht
      exact makes_id (Option.mem_toList.mp ht)
    have hnodup : ((made (s.events l)).map (·.id)).Nodup := by
      rw [made_events]
      cases s.makes l <;> simp
    rw [history, Machine.collect]
    cases hstep : s.freeStep l with
    | error e =>
      rw [List.append_nil]
      exact ⟨fun t ht => ⟨1, by omega, by omega, hnow t ht⟩, hnodup⟩
    | ok s' =>
      obtain ⟨hids, hrest⟩ := ih s' (by omega)
      have hlater : ∀ t ∈ made (s'.history labels), ∃ k, 0 < k ∧ k ≤ labels.length + 1 ∧
          t.id = s.count + .ofNat k ∧ (1 < k ∨ s.makes l = none) := by
        intro t ht
        obtain ⟨k, hpos, hle, hid⟩ := hids t ht
        rcases acts_count (freeStep_acts hstep) with hcount | ⟨hcount, hnone⟩
        · refine ⟨1 + k, by omega, by omega, ?_, .inl (by omega)⟩
          rw [hid, hcount, UInt64.ofNat_add, UInt64.add_assoc]
          rfl
        · exact ⟨k, hpos, by omega, by rw [hid, hcount], .inr hnone⟩
      have happend : made (s.events l ++ Machine.collect freeStep events s' labels) =
          made (s.events l) ++ made (s'.history labels) := List.filterMap_append
      dsimp only
      rw [happend]
      refine ⟨fun t ht => ?_, ?_⟩
      · rcases List.mem_append.mp ht with ht | ht
        · exact ⟨1, by omega, by omega, hnow t ht⟩
        · obtain ⟨k, hpos, hle, hid, -⟩ := hlater t ht
          exact ⟨k, hpos, hle, hid⟩
      · rw [List.map_append, List.nodup_append]
        refine ⟨hnodup, hrest, ?_⟩
        rintro _ hid _ hid' rfl
        obtain ⟨t, ht, hid⟩ := List.mem_map.mp hid
        obtain ⟨u, hu, hid'⟩ := List.mem_map.mp hid'
        obtain ⟨k, hpos, hle, huid, hone | hnone⟩ := hlater u hu
        · rw [← hid, hnow t ht, huid] at hid'
          exact add_ofNat_ne hone (by omega) hid'.symm
        · rw [made_events, hnone] at ht
          cases ht

theorem run_queued {clock : Nat} {count : UInt64} {labels : List (Label κ)} {s : TimerLoop κ}
    (hrun : Machine.run freeStep (init clock count) labels = .ok s) :
    (s.queued ++ added ((init clock count).history labels)).Perm
      (made ((init clock count).history labels)) :=
  Machine.run_history (P := fun _ _ => True) (fun s h => (s.queued ++ added h).Perm (made h))
    (fun _ _ _ _ hs _ hstep => acts_queued (freeStep_acts hstep) hs) (.refl _)
    (Machine.along_of_forall (fun _ _ => trivial) _) hrun

theorem nodup_added {queued : List (Timer κ)} {h : List (TimerEvent κ)}
    (hqueued : (queued ++ added h).Perm (made h)) (hids : ((made h).map (·.id)).Nodup) :
    ((added h).map (·.id)).Nodup := by
  rw [← (hqueued.map _).nodup_iff, List.map_append] at hids
  exact hids.of_append_right

theorem added_ids {clock : Nat} {count : UInt64} {labels : List (Label κ)} {s : TimerLoop κ}
    (hrun : Machine.run freeStep (init clock count) labels = .ok s) (hlength : labels.length < 2 ^ 64) :
    ((added ((init clock count).history labels)).map (·.id)).Nodup :=
  nodup_added (run_queued hrun) (made_ids labels (init clock count) hlength).2

theorem init_accounts (clock : Nat) (count : UInt64) : (init (κ := κ) clock count).Accounts [] := by
  refine ⟨⟨List.nodup_nil, fun id t => ?_⟩, .refl _⟩
  simp [init, TimerManager.init]

end

theorem run_accounts {clock : Nat} {count : UInt64} {labels : List (Label κ)} {s : TimerLoop κ}
    (hids : ((added ((init clock count).history labels)).map (·.id)).Nodup)
    (hrun : Machine.run freeStep (init clock count) labels = .ok s) :
    s.Accounts ((init clock count).history labels) := by
  refine Machine.run_history (P := fun _ _ => True)
    (fun s h => ((added h).map (·.id)).Nodup → s.Accounts h) ?_
    (fun _ => init_accounts clock count) (Machine.along_of_forall (fun _ _ => trivial) _) hrun hids
  rintro s h l s' hs - hstep hnodup
  refine acts_accounts (freeStep_acts hstep) (hs ?_) hnodup
  rw [added_append_events, List.map_append] at hnodup
  exact hnodup.of_append_left

/-- **The timers are all there.** In every run in which no two of the timers that were added have the
same id, both indexes hold the same timers, the assertions of `cancelInloop` hold whatever the id,
and each timer that was added waits, is in the batch, has run or was cancelled, once. -/
theorem timers_accounted (clock : Nat) (count : UInt64) (labels : List (Label κ)) (s : TimerLoop κ)
    (hids : ((added ((init clock count).history labels)).map (·.id)).Nodup)
    (hrun : Machine.run freeStep (init clock count) labels = .ok s) :
    (∀ id t, s.manager.table.lookup id = some t ↔ t ∈ s.manager.timers ∧ t.id = id) ∧
      (∀ now id, ∃ manager, s.manager.cancelInloop now id = .ok manager) ∧
      (added ((init clock count).history labels)).Nodup ∧
      (s.manager.timers ++ s.batch ++ s.fired.map Prod.fst ++
        cancelled ((init clock count).history labels)).Perm (added ((init clock count).history labels)) := by
  have haccounts := run_accounts hids hrun
  exact ⟨haccounts.indexed.table, haccounts.indexed.cancelInloop_ok, hids.of_map _, haccounts.placed⟩

/-- One thread adds a timer and cancels it, another comes through the queue and runs. -/
def accountedRun : List (Label Unit) :=
  [.addTimer true () 5000 0, .cancel true 1, .addTimer false () 0 0, .functor, .handleRead, .run]

theorem timers_accounted_twoTimers : ∃ s, Machine.run freeStep (init 0 0) accountedRun = .ok s ∧
    s.fired.length = 1 ∧ s.manager.timers = [] ∧
    (s.manager.timers ++ s.batch ++ s.fired.map Prod.fst ++
      cancelled ((init 0 0).history accountedRun)).Perm (added ((init 0 0).history accountedRun)) := by
  obtain ⟨s, hs, hfired⟩ := eq_ok_of_toOption (b := (1, []))
    (f := fun s : TimerLoop Unit => (s.fired.length, s.manager.timers))
    (x := Machine.run freeStep (init 0 0) accountedRun) (by decide +kernel)
  exact ⟨s, hs, congrArg Prod.fst hfired, congrArg Prod.snd hfired,
    (timers_accounted 0 0 accountedRun s (added_ids hs (by decide)) hs).2.2.2⟩

/-! ### The counter comes round -/

theorem addCancel_round {s : TimerLoop Unit} {t : Timer Unit} (expire : Nat)
    (hindexed : s.manager.Indexed) (htimers : s.manager.timers = [t]) (hid : t.id ≠ s.count + 1) :
    ∃ s', Machine.run freeStep s [.addTimer true () expire 0, .cancel true (s.count + 1)] = .ok s' ∧
      s'.manager.Indexed ∧ s'.manager.timers = [t] ∧ s'.count = s.count + 1 := by
  obtain ⟨hadded, hperm⟩ := hindexed.addTimerInloop s.clock ⟨(), expire, 0, s.count + 1⟩ (by simpa [htimers] using hid)
  obtain ⟨tm, hcancel⟩ := hadded.cancelInloop_ok s.clock (s.count + 1)
  obtain ⟨hcancelled, hleft, -⟩ := hadded.cancelInloop hcancel
  refine ⟨{ s with count := s.count + 1, manager := tm }, ?_, hcancelled, ?_, rfl⟩
  · have hstep : freeStep { s with
        count := s.count + 1
        manager := s.manager.addTimerInloop s.clock ⟨(), expire, 0, s.count + 1⟩ }
        (.cancel true (s.count + 1)) = .ok { s with count := s.count + 1, manager := tm } := by
      simp only [freeStep, step, runInLoop, if_pos, call, hcancel, ok_bind]
      rfl
    rw [Machine.run_cons_ok (show freeStep s (.addTimer true () expire 0) = .ok _ from rfl),
      Machine.run_cons_ok hstep, Machine.run_nil]
  · have hfound : (s.manager.addTimerInloop s.clock ⟨(), expire, 0, s.count + 1⟩).table.lookup
        (s.count + 1) = some ⟨(), expire, 0, s.count + 1⟩ := by
      rw [(TimerManager.addTimerInloop_spec s.manager s.clock _).2.1]
      exact AList.lookup_insert _
    rw [hfound] at hleft
    rw [htimers] at hperm
    exact List.perm_singleton.mp (hperm.symm.trans hleft).cons_inv.symm

/-- One timer stays, and `n` are added and cancelled. -/
def roundLabels (n : Nat) : List (Label Unit) :=
  .addTimer true () 5000 0 :: (List.range n).flatMap fun k =>
    [.addTimer true () 7000 0, .cancel true (.ofNat (k + 2))]

theorem run_roundLabels (n : Nat) (hn : n < 2 ^ 64) :
    ∃ s, Machine.run freeStep (init 0 0) (roundLabels n) = .ok s ∧ s.manager.Indexed ∧
      s.manager.timers = [⟨(), 5000, 0, 1⟩] ∧ s.count = .ofNat (n + 1) := by
  induction n with
  | zero =>
    have hindexed := (init_accounts (κ := Unit) 0 0).indexed.addTimerInloop 0 ⟨(), 5000, 0, 1⟩
      (fun t ht => absurd ht List.not_mem_nil)
    exact ⟨_, rfl, hindexed.1, rfl, rfl⟩
  | succ n ih =>
    obtain ⟨s, hrun, hindexed, htimers, hcount⟩ := ih (by omega)
    have hnext : s.count + 1 = .ofNat (n + 2) := by
      rw [hcount, UInt64.ofNat_add (n + 1) 1]
      rfl
    have hid : (1 : UInt64) ≠ s.count + 1 := by
      intro hone
      have hzero : s.count = 0 := by simpa using hone.symm
      have hnat := congrArg UInt64.toNat (hcount.symm.trans hzero)
      rw [UInt64.toNat_ofNat_of_lt' (by simpa using hn)] at hnat
      exact absurd hnat (Nat.succ_ne_zero n)
    obtain ⟨s', hround, hindexed', htimers', hcount'⟩ := addCancel_round 7000 hindexed htimers hid
    refine ⟨s', ?_, hindexed', htimers', by rw [hcount', hnext]⟩
    rw [hnext] at hround
    have hlabels : roundLabels (n + 1) =
        roundLabels n ++ [.addTimer true () 7000 0, .cancel true (.ofNat (n + 2))] := by
      simp [roundLabels, List.range_succ]
    rw [hlabels, Machine.run_append_ok hrun, hround]

/-- After 2^64 timers the first id is given again while its timer still waits: the table then has
the second timer under that id, and the set has both. -/
theorem ids_come_round : ¬ ∀ (clock : Nat) (count : UInt64) (labels : List (Label Unit))
    (s : TimerLoop Unit), Machine.run freeStep (init clock count) labels = .ok s →
      ∀ id t, s.manager.table.lookup id = some t ↔ t ∈ s.manager.timers ∧ t.id = id := by
  intro h
  obtain ⟨s, hrun, -, htimers, hcount⟩ := run_roundLabels (2 ^ 64 - 1) (by omega)
  have hzero : s.count = 0 := by
    rw [hcount]
    rfl
  have hlast : Machine.run freeStep (init 0 0)
      (roundLabels (2 ^ 64 - 1) ++ [.addTimer true () 6000 0]) = .ok { s with
        count := s.count + 1
        manager := s.manager.addTimerInloop s.clock ⟨(), 6000, 0, s.count + 1⟩ } := by
    rw [Machine.run_append_ok hrun]
    rfl
  rw [hzero] at hlast
  obtain ⟨hadded, htable, -⟩ := TimerManager.addTimerInloop_spec s.manager s.clock ⟨(), 6000, 0, 0 + 1⟩
  have hfirst := (h 0 0 _ _ hlast 1 ⟨(), 5000, 0, 1⟩).mpr ⟨by
    rw [hadded, htimers]
    exact TimerManager.mem_insertTimer_of_mem List.mem_cons_self, rfl⟩
  have hsecond : (s.manager.addTimerInloop s.clock ⟨(), 6000, 0, 0 + 1⟩).table.lookup 1 =
      some ⟨(), 6000, 0, 0 + 1⟩ := by
    rw [htable]
    exact AList.lookup_insert _
  rw [hsecond] at hfirst
  cases hfirst

end TimerLoop

end VServer
