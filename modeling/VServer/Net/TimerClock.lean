import VServer.Net.TimerHandler

/-!
# The clock of the timers

While timers wait, the timerfd is armed or has an expiration to be read; with none it is disarmed.
Armed, it expires no later than its first timer, or 100 milliseconds after it was armed if that is
later (`clock_set`). It is set in three places only, when the first timer changes, and what
`resetTimerfd` sets it to is never zero.
-/

namespace VServer

theorem itValue_pos (interval : Int) : 0 < itValue interval := by
  unfold itValue
  dsimp only
  split_ifs
  · decide
  · omega

theorem itValue_le (interval : Int) :
    (itValue interval : Int) ≤ (if interval < 100 then 100 else interval) * 10 ^ 6 := by
  unfold itValue
  dsimp only
  split_ifs
  · decide
  · omega

theorem timeSub_eq {t₁ t₂ : Nat} (h : t₁ < t₂ + 2 ^ 63) (h' : t₂ < t₁ + 2 ^ 63) :
    timeSub t₁ t₂ = t₁ - t₂ := by
  unfold timeSub
  rw [Int.bmod_eq_of_le] <;> omega

namespace TimerManager

variable {κ : Type} {tm tm' : TimerManager κ} {clock : Nat} {c : TimerCall κ}

/-- The timers expire less than 2^63 milliseconds from the time of the clock. -/
def InRange (clock : Nat) (t : Timer κ) : Prop :=
  t.expire < getCurrentTimeMS clock + 2 ^ 63 ∧ getCurrentTimeMS clock < t.expire + 2 ^ 63

/-- The timerfd expires in time for a timer, having been set at `clock`. -/
def InTime (clock deadline : Nat) (t : Timer κ) : Prop :=
  getCurrentTimeMS deadline ≤ max t.expire (getCurrentTimeMS clock + 100)

theorem rearmed_cons (t : Timer κ) (ts : List (Timer κ)) : rearmed clock (t :: ts) =
    ⟨some (clock + itValue (timeSub t.expire (getCurrentTimeMS clock))), false⟩ :=
  if_neg (Nat.ne_of_gt (itValue_pos _))

theorem rearmed_inTime {t : Timer κ} (ht : InRange clock t) :
    InTime clock (clock + itValue (timeSub t.expire (getCurrentTimeMS clock))) t := by
  have hle := itValue_le (timeSub t.expire (getCurrentTimeMS clock))
  rw [timeSub_eq ht.1 ht.2] at hle ⊢
  unfold InTime
  unfold getCurrentTimeMS at *
  split_ifs at hle <;> omega

theorem perform_clock (hperform : tm.perform clock c = .ok tm') :
    (tm.isHead c = true ∧ tm'.timerfd = rearmed clock tm'.timers) ∨
      tm.isHead c = false ∧ tm'.timerfd = tm.timerfd ∧
        tm'.timers.head?.map (·.expire) = tm.timers.head?.map (·.expire) := by
  cases c with
  | addTimerInloop timer =>
    cases hperform
    obtain ⟨htimers, -, hset⟩ := addTimerInloop_spec tm clock timer
    rw [htimers]
    rcases hset with hset | ⟨hhead, hset, t, ts, heq, hle⟩
    · exact .inl hset
    · exact .inr ⟨hhead, hset, by rw [heq, head?_insertTimer hle]; rfl⟩
  | cancelInloop id =>
    rcases cancelInloop_spec hperform with ⟨hnone, rfl⟩ | ⟨target, -, -, -, -, hset | ⟨hhead, hset, heq, -⟩⟩
    · exact .inr ⟨by rw [isHead, hnone]; rfl, rfl, rfl⟩
    · exact .inl hset
    · exact .inr ⟨hhead, hset, by rw [heq]⟩

end TimerManager

namespace TimerLoop

variable {κ : Type} (s : TimerLoop κ)

def settimes : Label κ → List Nat
  | .handleRead => [s.clock]
  | l => if (s.performs l).any s.manager.isHead then [s.clock] else []

/-- When the timerfd was set in a run from `s`. -/
def settings : List (Label κ) → List Nat := Machine.collect freeStep settimes s

/-- Expiry times are less than 2^63 milliseconds from the current time. -/
def InRange (s : TimerLoop κ) (l : Label κ) : Prop :=
  ∀ t ∈ s.manager.timers ++ (s.adds l).toList, TimerManager.InRange s.clock t

instance (clock : Nat) (t : Timer κ) : Decidable (TimerManager.InRange clock t) :=
  inferInstanceAs (Decidable (_ ∧ _))

instance (s : TimerLoop κ) (l : Label κ) : Decidable (s.InRange l) :=
  inferInstanceAs (Decidable (∀ t ∈ _, _))

variable {s} {s' : TimerLoop κ} {l : Label κ}

structure Clocked (s : TimerLoop κ) (settings : List Nat) : Prop where
  ready : s.Ready
  armed : s.manager.timers ≠ [] → s.manager.timerfd.deadline.isSome ∨ s.manager.timerfd.ready = true
  inTime : ∀ deadline, s.manager.timerfd.deadline = some deadline →
    ∃ clock, settings.getLast? = some clock ∧
      ∀ t, s.manager.timers.head? = some t → TimerManager.InTime clock deadline t

theorem Clocked.of_rearmed {settings : List Nat} (hready : s.Ready)
    (hrange : ∀ t ∈ s.manager.timers, TimerManager.InRange s.clock t)
    (hset : s.manager.timerfd = TimerManager.rearmed s.clock s.manager.timers) :
    s.Clocked (settings ++ [s.clock]) := by
  cases htimers : s.manager.timers with
  | nil =>
    rw [htimers] at hset
    refine ⟨hready, fun hne => absurd htimers hne, fun deadline hdeadline => ?_⟩
    rw [hset] at hdeadline
    cases hdeadline
  | cons t ts =>
    rw [htimers, TimerManager.rearmed_cons] at hset
    refine ⟨hready, fun _ => .inl (by rw [hset]; rfl), fun deadline hdeadline => ?_⟩
    rw [hset] at hdeadline
    cases hdeadline
    refine ⟨s.clock, by simp, fun u hu => ?_⟩
    rw [htimers] at hu hrange
    cases hu
    exact TimerManager.rearmed_inTime (hrange t List.mem_cons_self)

theorem Clocked.perform {settings : List Nat} {c : TimerCall κ} (hs : s.Clocked settings)
    (hrange : ∀ t ∈ s.manager.timers ++ c.timer?.toList, TimerManager.InRange s.clock t)
    (hready : s'.Ready) (hperform : s.manager.perform s.clock c = .ok s'.manager)
    (hclock : s'.clock = s.clock) :
    s'.Clocked (settings ++ if s.manager.isHead c then [s.clock] else []) := by
  rcases TimerManager.perform_clock hperform with ⟨hhead, hset⟩ | ⟨hhead, hset, heq⟩
  · rw [hhead, if_pos rfl, ← hclock]
    rw [← hclock] at hset
    refine .of_rearmed hready (fun t ht => ?_) hset
    rw [hclock]
    rcases TimerManager.mem_of_perform hs.ready.sorted hperform ht with ⟨ht, -⟩ | ht
    · exact hrange t (List.mem_append_left _ ht)
    · exact hrange t (List.mem_append_right _ (Option.mem_toList.mpr ht))
  · rw [hhead, if_neg Bool.false_ne_true, List.append_nil]
    have hmatch : ∀ t, s'.manager.timers.head? = some t →
        ∃ u, s.manager.timers.head? = some u ∧ u.expire = t.expire := by
      intro t ht
      rw [ht, Option.map_some, eq_comm, Option.map_eq_some_iff] at heq
      exact heq
    refine ⟨hready, fun hne => ?_, fun deadline hdeadline => ?_⟩
    · rw [hset]
      obtain ⟨t, ts, htimers⟩ := List.exists_cons_of_ne_nil hne
      obtain ⟨u, hu, -⟩ := hmatch t (by rw [htimers]; rfl)
      refine hs.armed fun hnil => ?_
      rw [hnil] at hu
      cases hu
    · rw [hset] at hdeadline
      obtain ⟨clock, hlast, htime⟩ := hs.inTime deadline hdeadline
      refine ⟨clock, hlast, fun t ht => ?_⟩
      obtain ⟨u, hu, hexpire⟩ := hmatch t ht
      have hu := htime u hu
      unfold TimerManager.InTime at hu ⊢
      rwa [← hexpire]

theorem acts_clocked {settings : List Nat} (hs : s.Clocked settings) (hrange : s.InRange l)
    (h : s.Acts l s') : s'.Clocked (settings ++ s.settimes l) := by
  have hready := acts_ready hs.ready h
  have hsettimes : l ≠ .handleRead →
      s.settimes l = if (s.performs l).any s.manager.isHead then [s.clock] else [] := by
    intro hl
    cases l with
    | handleRead => exact absurd rfl hl
    | _ => rfl
  cases h with
  | tick | poll | run =>
    exact ⟨hready, hs.armed, by simpa [settimes, performs] using hs.inTime⟩
  | send hl hmakes hperforms =>
    rw [hsettimes (by rintro rfl; cases hl), hperforms]
    exact ⟨hready, hs.armed, by simpa using hs.inTime⟩
  | call hl hmakes hperforms hperform =>
    rw [hsettimes (by rintro rfl; cases hl), hperforms]
    rw [InRange, adds, hperforms] at hrange
    exact hs.perform hrange hready hperform rfl
  | @functor c queue manager hqueue hpolled hbatch hperform =>
    have hperforms : s.performs .functor = some c := by rw [performs, hqueue]; rfl
    rw [hsettimes (by simp), hperforms]
    rw [InRange, adds, hperforms] at hrange
    exact hs.perform hrange hready hperform rfl
  | expire hdeadline =>
    rw [hsettimes (by simp)]
    exact ⟨hready, fun _ => .inr rfl, by simp⟩
  | @handleRead manager expired hbatch hread =>
    obtain ⟨-, htimers, -, hset⟩ := TimerManager.fillExpired_spec hread
    have htimers : s.manager.timers = expired ++ manager.timers := htimers
    refine .of_rearmed hready (fun t ht => hrange t (List.mem_append_left _ ?_)) hset
    rw [htimers]
    exact List.mem_append_right _ ht

/-- **The clock is never left unset.** -/
theorem clock_set (clock : Nat) (count : UInt64) (labels : List (Label κ)) (s : TimerLoop κ)
    (hrange : Machine.Along freeStep InRange (init clock count) labels)
    (hrun : Machine.run freeStep (init clock count) labels = .ok s) :
    (s.manager.timers ≠ [] →
        s.manager.timerfd.deadline.isSome ∨ s.manager.timerfd.ready = true) ∧
      (∀ deadline, s.manager.timerfd.deadline = some deadline →
        ∃ armed, ((init clock count).settings labels).getLast? = some armed ∧
          ∀ t ∈ s.manager.timers,
            getCurrentTimeMS deadline ≤ max t.expire (getCurrentTimeMS armed + 100)) ∧
      (s.manager.timers = [] →
        s.manager.timerfd.deadline = none ∨ s.manager.timerfd.ready = true) := by
  have hs : s.Clocked ((init clock count).settings labels) :=
    Machine.run_history Clocked
      (fun _ _ _ _ hs hrange hstep => acts_clocked hs hrange (freeStep_acts hstep))
      ⟨init_ready clock count, fun hne => absurd rfl hne, nofun⟩ hrange hrun
  refine ⟨hs.armed, fun deadline hdeadline => ?_, fun hnil => .inl ?_⟩
  · obtain ⟨armed, hlast, htime⟩ := hs.inTime deadline hdeadline
    refine ⟨armed, hlast, fun t ht => ?_⟩
    cases htimers : s.manager.timers with
    | nil =>
      rw [htimers] at ht
      cases ht
    | cons u ts =>
      have hfirst : getCurrentTimeMS deadline ≤ max u.expire (getCurrentTimeMS armed + 100) :=
        htime u (by rw [htimers]; rfl)
      have hsorted := hs.ready.sorted
      rw [htimers] at ht hsorted
      rcases List.mem_cons.mp ht with rfl | ht
      · exact hfirst
      · have hbefore := Timer.before_iff.mp ((List.pairwise_cons.mp hsorted).1 t ht)
        omega
  · rw [hs.ready.unarmed hnil]

/-- Two timers, the later one first; the first one runs, the other is cancelled. -/
def clockRun : List (Label Unit) :=
  [.runAfter true () 5000, .runAfter true () 1500, .tick 2000000000, .expire, .poll, .handleRead,
    .addTimer true () 4000 0, .run, .cancel true 1]

theorem clock_set_twoTimers : ∃ s, Machine.run freeStep (init 0 0) clockRun = .ok s ∧
    s.manager.timers.length = 1 ∧ s.manager.timerfd.deadline = some 4000000000 ∧
    ∃ armed, ((init 0 0).settings clockRun).getLast? = some armed ∧
      ∀ t ∈ s.manager.timers, getCurrentTimeMS 4000000000 ≤ max t.expire (getCurrentTimeMS armed + 100) := by
  obtain ⟨s, hs, hsets⟩ := eq_ok_of_toOption (b := (1, some 4000000000))
    (f := fun s : TimerLoop Unit => (s.manager.timers.length, s.manager.timerfd.deadline))
    (x := Machine.run freeStep (init 0 0) clockRun) (by decide +kernel)
  have hdeadline := congrArg Prod.snd hsets
  exact ⟨s, hs, congrArg Prod.fst hsets, hdeadline,
    (clock_set 0 0 clockRun s (Machine.along_of_check (by decide +kernel)) hs).2.1 _ hdeadline⟩

end TimerLoop

end VServer
