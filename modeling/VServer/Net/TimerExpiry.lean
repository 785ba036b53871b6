import VServer.Net.TimerHandler

/-!
# Which timers expire

`fillExpired` cuts the set in front of the first timer that is greater than `nowTimer`, a `Timer` made
for the search: it has the time asked for and takes the next id of `Timer::count`. A timer for that
very time is in front of the cut if its id is smaller, and it is: it was made before (`Numbered`), by
whatever thread and whichever loop, as long as the counter does not come round
(`fillExpired_exact`, `expiry_comes_round`).
-/

namespace VServer

namespace TimerManager

variable {κ : Type} {tm : TimerManager κ} {now : Nat} {fresh : UInt64}

/-- What was due is taken, in the order of the set, and gone from both indexes; the rest is left. -/
structure ExpiresExactly (tm : TimerManager κ) (now : Nat) (tm' : TimerManager κ)
    (expired : List (Timer κ)) : Prop where
  taken : expired = tm.timers.filter fun t => t.expire ≤ now
  ordered : Sorted expired
  timers : tm'.timers = tm.timers.filter fun t => now < t.expire
  table : ∀ id, tm'.table.lookup id = (tm.table.lookup id).filter fun t => now < t.expire

theorem takeWhile_eq_filter {α : Type} {r : α → α → Prop} {p : α → Bool} {l : List α}
    (hl : l.Pairwise r) (hp : ∀ a b, r a b → p b = true → p a = true) :
    l.takeWhile p = l.filter p ∧ l.dropWhile p = l.filter fun a => !p a := by
  induction l with
  | nil => exact ⟨rfl, rfl⟩
  | cons a l ih =>
    obtain ⟨ha, hl⟩ := List.pairwise_cons.mp hl
    obtain ⟨htake, hdrop⟩ := ih hl
    cases hpa : p a with
    | true => simp [hpa, htake, hdrop]
    | false =>
      have hnone : ∀ b ∈ l, p b = false := fun b hb => by
        by_contra hpb
        rw [Bool.not_eq_false] at hpb
        rw [hp a b (ha b hb) hpb] at hpa
        cases hpa
      have hfilter : l.filter p = [] := List.filter_eq_nil_iff.mpr fun b hb => by simp [hnone b hb]
      have hrest : l.filter (fun a => !p a) = l :=
        List.filter_eq_self.mpr fun b hb => by simp [hnone b hb]
      simp [hpa, hfilter, hrest]

/-- The cut that `upper_bound` makes. -/
def upTo (now : Nat) (fresh : UInt64) (t : Timer κ) : Bool :=
  !(now < t.expire ∨ now = t.expire ∧ fresh < t.id)

theorem upTo_iff {t : Timer κ} :
    upTo now fresh t = true ↔ t.expire < now ∨ t.expire = now ∧ t.id.toNat ≤ fresh.toNat := by
  have hnot : upTo now fresh t = true ↔ ¬ (now < t.expire ∨ now = t.expire ∧ fresh < t.id) := by
    rw [upTo, Bool.not_eq_true', decide_eq_false_iff_not]
  rw [hnot, UInt64.lt_iff_toNat_lt]
  omega

theorem fillExpired_cut (clock : Nat) {t : Timer κ} {expired : List (Timer κ)}
    (hcut : tm.timers.takeWhile (upTo now fresh) = t :: expired) :
    ∃ tm', tm.fillExpired clock now fresh = .ok (tm', t :: expired) ∧
      tm'.timers = tm.timers.dropWhile (upTo now fresh) := by
  have hok : ∃ tm', tm.fillExpired clock now fresh = .ok (tm', t :: expired) := by
    unfold fillExpired
    dsimp only
    unfold upTo at hcut
    rw [hcut]
    exact ⟨_, rfl⟩
  obtain ⟨tm', hok⟩ := hok
  obtain ⟨-, htimers, -⟩ := fillExpired_spec hok
  refine ⟨tm', hok, ?_⟩
  rw [← hcut] at htimers
  exact List.append_cancel_left (htimers.symm.trans List.takeWhile_append_dropWhile.symm)

theorem fillExpired_first (clock : Nat) {t : Timer κ} {ts : List (Timer κ)}
    (hcut : tm.timers.takeWhile (upTo now fresh) = []) (htimers : tm.timers = t :: ts) :
    ∃ tm', tm.fillExpired clock now fresh = .ok (tm', [t]) := by
  unfold fillExpired
  unfold upTo at hcut
  dsimp only
  rw [hcut, htimers]
  exact ⟨_, rfl⟩

theorem fillExpired_ok (hindexed : tm.Indexed) (hsorted : Sorted tm.timers)
    (hfresh : ∀ t ∈ tm.timers, t.id.toNat ≤ fresh.toNat)
    (hdue : ∃ t ∈ tm.timers, t.expire ≤ now) (clock : Nat) :
    ∃ tm' expired, tm.fillExpired clock now fresh = .ok (tm', expired) ∧
      tm.ExpiresExactly now tm' expired := by
  have hupTo : ∀ t ∈ tm.timers, upTo now fresh t = decide (t.expire ≤ now) := by
    intro t ht
    have hid := hfresh t ht
    rw [Bool.eq_iff_iff, upTo_iff, decide_eq_true_iff]
    omega
  obtain ⟨htake, hdrop⟩ := takeWhile_eq_filter (p := upTo now fresh) hsorted fun a b hab hb => by
    rw [Timer.before_iff] at hab
    rw [upTo_iff] at hb ⊢
    omega
  rw [List.filter_congr hupTo] at htake
  have hleft : tm.timers.filter (fun t => !upTo now fresh t) = tm.timers.filter fun t => now < t.expire :=
    List.filter_congr fun t ht => by rw [hupTo t ht, ← decide_not, decide_eq_decide, Nat.not_le]
  rw [hleft] at hdrop
  obtain ⟨u, hu, hle⟩ := hdue
  have hmem : u ∈ tm.timers.filter fun t => t.expire ≤ now :=
    List.mem_filter.mpr ⟨hu, decide_eq_true hle⟩
  obtain ⟨t, expired, htaken⟩ := List.exists_cons_of_ne_nil (List.ne_nil_of_mem hmem)
  obtain ⟨tm', hok, hrest⟩ := fillExpired_cut clock (htake.trans htaken)
  obtain ⟨-, -, htable, -⟩ := fillExpired_spec hok
  refine ⟨tm', t :: expired, hok, htaken.symm, ?_, hrest.trans hdrop, fun id => ?_⟩
  · rw [← htaken]
    exact hsorted.sublist List.filter_sublist
  · rw [htable, lookup_eraseIds, ← htaken]
    cases hlookup : tm.table.lookup id with
    | none => split_ifs <;> rfl
    | some v =>
      obtain ⟨hv, rfl⟩ := (hindexed.table _ _).mp hlookup
      rw [Option.filter_some]
      have htakes : v.id ∈ (tm.timers.filter fun t => t.expire ≤ now).map (·.id) ↔ v.expire ≤ now := by
        rw [List.mem_map]
        constructor
        · rintro ⟨w, hw, hid⟩
          obtain ⟨hw, hle⟩ := List.mem_filter.mp hw
          rw [← eq_of_id hindexed.ids hw hv hid]
          exact of_decide_eq_true hle
        · exact fun hle => ⟨v, List.mem_filter.mpr ⟨hv, decide_eq_true hle⟩, rfl⟩
      by_cases hle : v.expire ≤ now
      · rw [if_pos (htakes.mpr hle), if_neg (by simpa using hle)]
      · rw [if_neg (mt htakes.mp hle), if_pos (by simpa using hle)]

end TimerManager

namespace TimerLoop

variable {κ : Type}

/-- How many `Timer`s the step makes: `fillExpired` makes one to search with. -/
def Label.timers : Label κ → Nat
  | .addTimer _ _ _ _ | .runAfter _ _ _ | .handleRead => 1
  | .tick _ | .cancel _ _ | .functor | .expire | .poll | .run => 0

/-- A step of this loop, or a `Timer` made somewhere else in the process, which takes an id too. -/
inductive SharedLabel (κ : Type) where
  | here (l : Label κ)
  | elsewhere

def SharedLabel.timers : SharedLabel κ → Nat
  | .here l => l.timers
  | .elsewhere => 1

def sharedStep (s : TimerLoop κ) : SharedLabel κ → Except Halt (TimerLoop κ)
  | .here l => s.freeStep l
  | .elsewhere => .ok { s with count := s.count + 1 }

/-- How many `Timer`s are made in a run. -/
def timersMade (labels : List (SharedLabel κ)) : Nat := (labels.map SharedLabel.timers).sum

/-- `n` timers were made; those that wait and those on their way have ids of their own among them. -/
structure Numbered (s : TimerLoop κ) (n : Nat) : Prop where
  count : s.count.toNat = n
  ids : ∀ t ∈ s.queued ++ s.manager.timers, t.id.toNat ≤ n
  nodup : ((s.queued ++ s.manager.timers).map (·.id)).Nodup
  indexed : s.manager.Indexed
  sorted : Sorted s.manager.timers

variable {s s' : TimerLoop κ} {l : Label κ} {n : Nat}

theorem numbered_init (clock : Nat) : Numbered (init (κ := κ) clock 0) 0 :=
  ⟨rfl, nofun, List.nodup_nil, (init_accounts clock 0).indexed, List.Pairwise.nil⟩

theorem toNat_succ {count : UInt64} (hcount : count.toNat = n) (hn : n + 1 < 2 ^ 64) :
    (count + 1).toNat = n + 1 := by
  rw [UInt64.toNat_add, hcount]
  exact Nat.mod_eq_of_lt hn

theorem acts_counts (h : s.Acts l s') (hcount : s.count.toNat = n) (hn : n + l.timers < 2 ^ 64) :
    s'.count.toNat = n + l.timers ∧ ∀ t, s.makes l = some t → l.timers = 1 := by
  have hnext : l.isCall = true → (s.nextCount l).toNat = n + l.timers ∧
      ∀ t, s.makes l = some t → l.timers = 1 := by
    intro hl
    cases l with
    | addTimer _ _ _ _ => exact ⟨toNat_succ hcount hn, fun _ _ => rfl⟩
    | runAfter _ _ _ => exact ⟨toNat_succ hcount hn, fun _ _ => rfl⟩
    | cancel _ _ => exact ⟨hcount, nofun⟩
    | _ => cases hl
  cases h with
  | send hl _ _ => exact hnext hl
  | call hl _ _ _ => exact hnext hl
  | handleRead => exact ⟨toNat_succ hcount hn, nofun⟩
  | tick | functor | expire | poll | run => exact ⟨hcount, nofun⟩

theorem Numbered.makes_new (hs : s.Numbered n) (h : s.Acts l s') (hn : n + l.timers < 2 ^ 64)
    {t : Timer κ} (ht : s.makes l = some t) :
    t.id.toNat = n + l.timers ∧ ∀ u ∈ s.queued ++ s.manager.timers, u.id ≠ t.id := by
  have hone := (acts_counts h hs.count hn).2 t ht
  rw [hone] at hn ⊢
  have hid : t.id.toNat = n + 1 := by
    rw [makes_id ht]
    exact toNat_succ hs.count hn
  refine ⟨hid, fun u hu heq => ?_⟩
  have hle := hs.ids u hu
  rw [heq] at hle
  omega

theorem perform_keeps {tm tm' : TimerManager κ} {clock : Nat} {c : TimerCall κ} (h : tm.Indexed)
    (hsorted : Sorted tm.timers) (hnew : ∀ t, c.timer? = some t → ∀ u ∈ tm.timers, u.id ≠ t.id)
    (hperform : tm.perform clock c = .ok tm') :
    tm'.Indexed ∧ Sorted tm'.timers ∧ tm'.timers.Subperm (tm.timers ++ c.timer?.toList) := by
  obtain ⟨hindexed, hperm⟩ := perform_indexed h hnew hperform
  exact ⟨hindexed, TimerManager.perform_sorted hsorted hperform,
    (List.sublist_append_left _ _).subperm.trans hperm.subperm⟩

theorem acts_waits (hs : s.Numbered n) (h : s.Acts l s') (hn : n + l.timers < 2 ^ 64) :
    s'.manager.Indexed ∧ Sorted s'.manager.timers ∧
      (s'.queued ++ s'.manager.timers).Subperm
        (s.queued ++ s.manager.timers ++ (s.makes l).toList) := by
  have hmade := fun t => @Numbered.makes_new _ _ _ _ _ hs h hn t
  have hkept : (s.queued ++ s.manager.timers).Subperm
      (s.queued ++ s.manager.timers ++ (s.makes l).toList) :=
    (List.sublist_append_left _ _).subperm
  cases h with
  | @send l c hl hmakes hperforms =>
    have hqueued : (s.queue ++ [c]).filterMap TimerCall.timer? = s.queued ++ c.timer?.toList := by
      rw [List.filterMap_append, queued]
      cases c <;> rfl
    refine ⟨hs.indexed, hs.sorted, ?_⟩
    rw [queued, hqueued, hmakes]
    exact (append_right_comm_perm _ _ _).subperm
  | @call l c manager hl hmakes hperforms hperform =>
    have hnew : ∀ t, c.timer? = some t → ∀ u ∈ s.manager.timers, u.id ≠ t.id := fun t ht u hu =>
      (hmade t (hmakes.trans ht)).2 u (List.mem_append_right _ hu)
    obtain ⟨hindexed, hsorted, hwaits⟩ := perform_keeps hs.indexed hs.sorted hnew hperform
    refine ⟨hindexed, hsorted, ?_⟩
    rw [hmakes, List.append_assoc]
    exact (List.subperm_append_left _).mpr hwaits
  | @functor c queue manager hqueue hpolled hbatch hperform =>
    have hqueued : s.queued = c.timer?.toList ++ queue.filterMap TimerCall.timer? := by
      rw [queued, hqueue]
      cases c <;> rfl
    have hnew : ∀ t, c.timer? = some t → ∀ u ∈ s.manager.timers, u.id ≠ t.id := by
      intro t ht u hu heq
      have hnodup := hs.nodup
      rw [hqueued, ht, List.map_append, List.nodup_append] at hnodup
      exact hnodup.2.2 t.id (by simp) u.id (List.mem_map_of_mem hu) heq.symm
    obtain ⟨hindexed, hsorted, hwaits⟩ := perform_keeps hs.indexed hs.sorted hnew hperform
    refine ⟨hindexed, hsorted, ?_⟩
    have hback : (queue.filterMap TimerCall.timer? ++ (s.manager.timers ++ c.timer?.toList)).Perm
        (s.queued ++ s.manager.timers) := by
      rw [hqueued, ← List.append_assoc, List.append_assoc c.timer?.toList]
      exact List.perm_append_comm
    rw [show s.makes .functor = none from rfl, Option.toList_none, List.append_nil]
    exact ((List.subperm_append_left _).mpr hwaits).trans hback.subperm
  | expire hdeadline hle => exact ⟨⟨hs.indexed.ids, hs.indexed.table⟩, hs.sorted, hkept⟩
  | @handleRead manager expired hbatch hread =>
    have hcleared : (TimerManager.Indexed
        { s.manager with timerfd := { s.manager.timerfd with ready := false } }) :=
      ⟨hs.indexed.ids, hs.indexed.table⟩
    obtain ⟨-, htimers, -⟩ := TimerManager.fillExpired_spec hread
    have hleft : manager.timers.Sublist s.manager.timers := by
      rw [show s.manager.timers = expired ++ manager.timers from htimers]
      exact List.sublist_append_right _ _
    refine ⟨hcleared.fillExpired hread, hs.sorted.sublist hleft, ?_⟩
    exact ((List.subperm_append_left _).mpr hleft.subperm).trans hkept
  | tick => exact ⟨hs.indexed, hs.sorted, hkept⟩
  | poll => exact ⟨hs.indexed, hs.sorted, hkept⟩
  | run => exact ⟨hs.indexed, hs.sorted, hkept⟩

theorem acts_numbered (hs : s.Numbered n) (h : s.Acts l s') (hn : n + l.timers < 2 ^ 64) :
    s'.Numbered (n + l.timers) := by
  obtain ⟨hindexed, hsorted, hwaits⟩ := acts_waits hs h hn
  have hnew : ∀ t ∈ (s.makes l).toList,
      t.id.toNat = n + l.timers ∧ ∀ u ∈ s.queued ++ s.manager.timers, u.id ≠ t.id :=
    fun t ht => hs.makes_new h hn (Option.mem_toList.mp ht)
  have hnodup : ((s.queued ++ s.manager.timers ++ (s.makes l).toList).map (·.id)).Nodup := by
    rw [List.map_append, List.nodup_append]
    refine ⟨hs.nodup, by cases s.makes l <;> simp, ?_⟩
    rintro _ hu _ ht rfl
    obtain ⟨u, humem, rfl⟩ := List.mem_map.mp hu
    obtain ⟨t, ht, heq⟩ := List.mem_map.mp ht
    exact (hnew t ht).2 u humem heq.symm
  refine ⟨(acts_counts h hs.count hn).1, fun t ht => ?_, ?_, hindexed, hsorted⟩
  · rcases List.mem_append.mp (hwaits.subset ht) with ht | ht
    · exact Nat.le_trans (hs.ids t ht) (Nat.le_add_right _ _)
    · exact Nat.le_of_eq (hnew t ht).1
  · obtain ⟨l', hperm, hsub⟩ := hwaits
    rw [← (hperm.map _).nodup_iff]
    exact hnodup.sublist (hsub.map _)

theorem sharedStep_numbered {a : SharedLabel κ} (hs : s.Numbered n) (h : s.sharedStep a = .ok s')
    (hn : n + a.timers < 2 ^ 64) : s'.Numbered (n + a.timers) := by
  cases a with
  | here l => exact acts_numbered hs (freeStep_acts h) hn
  | elsewhere =>
    cases h
    refine ⟨toNat_succ hs.count hn, fun t ht => ?_, hs.nodup, hs.indexed, hs.sorted⟩
    exact Nat.le_trans (hs.ids t ht) (Nat.le_succ n)

theorem run_numbered {labels : List (SharedLabel κ)} (hs : s.Numbered n)
    (hrun : Machine.run sharedStep s labels = .ok s') (hn : n + timersMade labels < 2 ^ 64) :
    s'.Numbered (n + timersMade labels) := by
  induction labels generalizing s n with
  | nil =>
    cases hrun
    exact hs
  | cons a labels ih =>
    obtain ⟨s₁, hstep, hrest⟩ := Machine.run_cons_inv hrun
    have hmade : n + timersMade (a :: labels) = n + a.timers + timersMade labels := by
      rw [timersMade, List.map_cons, List.sum_cons, ← Nat.add_assoc]
      rfl
    rw [hmade] at hn ⊢
    exact ih (sharedStep_numbered hs hstep (by omega)) hrest hn

/-- **What is due expires, and nothing else.** In every run of a process in which the counter of the
`Timer`s has not come round, whenever something is due. -/
theorem fillExpired_exact (clock : Nat) (labels : List (SharedLabel κ)) (s : TimerLoop κ)
    (hrun : Machine.run sharedStep (init clock 0) labels = .ok s) (hmade : timersMade labels + 1 < 2 ^ 64)
    (clock' now : Nat) (hdue : ∃ t ∈ s.manager.timers, t.expire ≤ now) :
    ∃ tm expired, s.manager.fillExpired clock' now (s.count + 1) = .ok (tm, expired) ∧
      s.manager.ExpiresExactly now tm expired := by
  have hs := run_numbered (numbered_init clock) hrun (by omega)
  rw [Nat.zero_add] at hs
  refine TimerManager.fillExpired_ok hs.indexed hs.sorted (fun t ht => ?_) hdue clock'
  rw [toNat_succ hs.count hmade]
  exact Nat.le_trans (hs.ids t (List.mem_append_right _ ht)) (Nat.le_succ _)

/-- Two timers for one time, with a `Timer` of another loop between them, and one for later. -/
def dueRun : List (SharedLabel Unit) :=
  [.here (.addTimer true () 5 0), .elsewhere, .here (.addTimer false () 7 0), .here .functor,
    .here (.addTimer true () 5 0)]

theorem fillExpired_exact_dueRun : ∃ s, Machine.run sharedStep (init 0 0) dueRun = .ok s ∧
    ∃ tm expired, s.manager.fillExpired 0 5 (s.count + 1) = .ok (tm, expired) ∧
      s.manager.ExpiresExactly 5 tm expired ∧ s.manager.timers.length = 3 := by
  obtain ⟨s, hs, htimers⟩ := eq_ok_of_toOption (b := [⟨(), 5, 0, 1⟩, ⟨(), 5, 0, 4⟩, ⟨(), 7, 0, 3⟩])
    (f := fun s : TimerLoop Unit => s.manager.timers)
    (x := Machine.run sharedStep (init 0 0) dueRun) (by decide +kernel)
  obtain ⟨tm, expired, hok, hexact⟩ := fillExpired_exact 0 dueRun s hs (by decide) 0 5
    ⟨⟨(), 5, 0, 1⟩, by rw [htimers]; exact List.mem_cons_self, le_refl _⟩
  exact ⟨s, hs, tm, expired, hok, hexact, by rw [htimers]; rfl⟩

theorem run_elsewhere (s : TimerLoop κ) (n : Nat) :
    Machine.run sharedStep s (List.replicate n .elsewhere) = .ok { s with count := s.count + .ofNat n } := by
  induction n generalizing s with
  | zero =>
    have hcount : s.count + .ofNat 0 = s.count := UInt64.add_zero s.count
    rw [List.replicate_zero, Machine.run_nil, hcount]
  | succ n ih =>
    rw [List.replicate_succ, Machine.run_cons_ok rfl, ih, Nat.add_comm, UInt64.ofNat_add,
      ← UInt64.add_assoc]
    rfl

/-- After 2^64 `Timer`s the sentinel has an id in front of the one of a timer for the very time: of two
that are due the second one stays. -/
theorem expiry_comes_round : ¬ ∀ (clock : Nat) (labels : List (SharedLabel Unit)) (s : TimerLoop Unit),
    Machine.run sharedStep (init clock 0) labels = .ok s →
      ∀ clock' now, (∃ t ∈ s.manager.timers, t.expire ≤ now) →
        ∃ tm expired, s.manager.fillExpired clock' now (s.count + 1) = .ok (tm, expired) ∧
          s.manager.ExpiresExactly now tm expired := by
  intro h
  obtain ⟨s, hs, hstate⟩ := eq_ok_of_toOption (b := ([⟨(), 5, 0, 2⟩, ⟨(), 5, 0, 3⟩], 3))
    (f := fun s : TimerLoop Unit => (s.manager.timers, s.count))
    (x := Machine.run sharedStep (init 0 0)
      [.elsewhere, .here (.addTimer true () 5 0), .here (.addTimer true () 5 0)]) (by decide +kernel)
  obtain ⟨htimers, hcount⟩ := Prod.mk.inj hstate
  have hround := Machine.run_append_ok hs (List.replicate (2 ^ 64 - 3) .elsewhere)
  rw [run_elsewhere, hcount] at hround
  obtain ⟨tm, expired, hok, hexact⟩ := h 0 _ _ hround 0 5 ⟨⟨(), 5, 0, 2⟩, by
    rw [htimers]
    exact List.mem_cons_self, le_refl _⟩
  have hnone : s.manager.timers.takeWhile (TimerManager.upTo 5 (3 + .ofNat (2 ^ 64 - 3) + 1)) = [] := by
    rw [htimers]
    decide +kernel
  obtain ⟨tm', hfirst⟩ := TimerManager.fillExpired_first 0 hnone htimers
  obtain ⟨-, rfl⟩ := Prod.mk.inj (Except.ok.inj (hfirst.symm.trans hok))
  have htaken := hexact.taken
  rw [show TimerManager.timers _ = _ from htimers] at htaken
  cases htaken

end TimerLoop

end VServer
