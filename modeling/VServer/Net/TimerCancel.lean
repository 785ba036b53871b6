import VServer.Net.TimerRuns

/-!
# Cancelled timers

When `cancelInloop` comes for a timer whose callback has not started, the timer is on its way to the
loop, in the indexes, or in the batch that is being run. `cancelInloop` looks in the table alone. So
`cancel` has no effect from a callback on a timer of the same batch, nor from the thread of the loop
on a timer that another thread added and the loop has not seen: both run all the same
(`cancel_ineffective`). A cancel that finds its timer in the indexes is effective
(`cancel_effective`), and so is every one that comes through the queue.
-/

namespace VServer

namespace TimerLoop

variable {κ : Type} {s : TimerLoop κ}

/-- A cancel on the thread of the loop does not mean a timer that is still on its way there, nor one
of the batch that is being run. -/
def FindsTimer (s : TimerLoop κ) : Label κ → Prop
  | .cancel true id => ∀ t ∈ s.queued ++ s.batch, t.id ≠ id
  | _ => True

instance (s : TimerLoop κ) (l : Label κ) : Decidable (s.FindsTimer l) :=
  match l with
  | .cancel true id => inferInstanceAs (Decidable (∀ t ∈ s.queued ++ s.batch, t.id ≠ id))
  | .cancel false _ | .tick _ | .addTimer _ _ _ _ | .runAfter _ _ _ | .functor | .expire | .poll
  | .handleRead | .run => isTrue trivial

theorem acts_revoked {s' : TimerLoop κ} {l : Label κ} (h : s.Acts l s') (hs : s.manager.Indexed)
    (hfinds : s.FindsTimer l) : s.revoked l ⊆ (s.cancels l).toList := by
  have hfound : ∀ {t : Timer κ} {id : UInt64}, t ∈ s.manager.timers → t.id = id →
      t ∈ (s.manager.found (.cancelInloop id)).toList := fun {t id} ht hid =>
    Option.mem_toList.mpr ((hs.table id t).mpr ⟨ht, hid⟩)
  intro t ht
  cases l with
  | cancel inLoopThread id =>
    cases inLoopThread with
    | false => cases ht
    | true =>
      obtain ⟨ht, hid⟩ := List.mem_filter.mp ht
      have hid : t.id = id := of_decide_eq_true hid
      have helsewhere : t ∉ s.queued ++ s.batch := fun hmem => hfinds t hmem hid
      refine hfound ?_ hid
      simp only [List.mem_append, not_or] at ht helsewhere
      tauto
  | functor =>
    cases h with
    | call hl => cases hl
    | send hl => cases hl
    | @functor c queue manager hqueue hpolled hbatch hperform =>
      rw [cancels, performs, hqueue, List.head?_cons, Option.bind_some]
      cases c with
      | addTimerInloop timer =>
        simp [revoked, hqueue] at ht
      | cancelInloop id =>
        rw [revoked, hqueue] at ht
        have ht : t ∈ (s.manager.timers ++ s.batch).filter fun t => t.id = id := ht
        rw [hbatch, List.append_nil] at ht
        obtain ⟨ht, hid⟩ := List.mem_filter.mp ht
        exact hfound ht (of_decide_eq_true hid)
  | _ => cases ht

/-- As long as no id is given twice, what was revoked was cancelled. -/
structure CancelInv (s : TimerLoop κ) (h : List (TimerEvent κ)) : Prop where
  queued : (s.queued ++ added h).Perm (made h)
  accounts : ((made h).map (·.id)).Nodup → s.Accounts h
  revoked : ((made h).map (·.id)).Nodup → revocations h ⊆ cancelled h

theorem acts_cancelInv {s' : TimerLoop κ} {l : Label κ} {h : List (TimerEvent κ)}
    (hs : s.CancelInv h) (hfinds : s.FindsTimer l) (hacts : s.Acts l s') :
    s'.CancelInv (h ++ s.events l) := by
  have hqueued := acts_queued hacts hs.queued
  have hbefore : ((made (h ++ s.events l)).map (·.id)).Nodup → ((made h).map (·.id)).Nodup := by
    intro hids
    rw [made_append_events, List.map_append] at hids
    exact hids.of_append_left
  refine ⟨hqueued, fun hids => ?_, fun hids => ?_⟩
  · exact acts_accounts hacts (hs.accounts (hbefore hids)) (nodup_added hqueued hids)
  · rw [revocations_append_events, cancelled_append_events]
    intro t ht
    rcases List.mem_append.mp ht with ht | ht
    · exact List.mem_append_left _ (hs.revoked (hbefore hids) ht)
    · have hindexed := (hs.accounts (hbefore hids)).indexed
      exact List.mem_append_right _ (acts_revoked hacts hindexed hfinds ht)

/-- **A cancelled timer does not run**, in every run in which no id is given twice and each cancel on
the thread of the loop finds its timer neither on the way there nor in the batch. -/
theorem cancel_effective (clock : Nat) (count : UInt64) (labels : List (Label κ)) (s : TimerLoop κ)
    (hids : ((made ((init clock count).history labels)).map (·.id)).Nodup)
    (hfinds : Machine.Along step FindsTimer (init clock count) labels)
    (hrun : Machine.run step (init clock count) labels = .ok s) :
    ∀ t ∈ revocations ((init clock count).history labels), t ∉ s.fired.map Prod.fst := by
  have hs : s.CancelInv ((init clock count).history labels) :=
    Machine.run_history CancelInv
      (fun _ _ _ _ hs hfinds hstep => acts_cancelInv hs hfinds (freeStep_acts hstep))
      ⟨.refl _, fun _ => init_accounts clock count, fun _ => List.Subset.refl _⟩
      (along_freeStep hrun hfinds) (run_freeStep hrun)
  intro t ht hfired
  have haccounts := hs.accounts hids
  have hnodup := haccounts.placed.nodup_iff.mpr (nodup_added hs.queued hids).of_map
  exact (List.nodup_append.mp hnodup).2.2 t (List.mem_append_right _ hfired) t (hs.revoked hids ht) rfl

/-- The loop's own thread cancels one of two timers, another thread the other one. -/
def revokedRun : List (Label Unit) :=
  [.addTimer true () 0 0, .addTimer true () 0 0, .cancel true 1, .cancel false 2, .functor]

theorem cancel_effective_twoTimers : ∃ s, Machine.run step (init 0 0) revokedRun = .ok s ∧
    (revocations ((init 0 0).history revokedRun)).length = 2 ∧
    ∀ t ∈ revocations ((init 0 0).history revokedRun), t ∉ s.fired.map Prod.fst := by
  obtain ⟨s, hs, -⟩ := eq_ok_of_toOption (b := 0) (f := fun s : TimerLoop Unit => s.fired.length)
    (x := Machine.run step (init 0 0) revokedRun) (by decide +kernel)
  exact ⟨s, hs, by decide +kernel, cancel_effective 0 0 revokedRun s
    (made_ids revokedRun (init 0 0) (by decide)).2 (Machine.along_of_check (by decide +kernel)) hs⟩

/-- The first callback of a batch cancels the timer of the second. -/
def batchRun : List (Label Unit) :=
  [.addTimer true () 0 0, .addTimer true () 0 0, .tick 1000000000, .expire, .poll, .handleRead, .run,
    .cancel true 2, .run]

theorem cancel_ineffective : ¬ ∀ (clock : Nat) (count : UInt64) (labels : List (Label Unit))
    (s : TimerLoop Unit), Machine.run step (init clock count) labels = .ok s →
      ∀ t ∈ revocations ((init clock count).history labels), t ∉ s.fired.map Prod.fst := by
  intro h
  obtain ⟨s, hs, hfired⟩ := eq_ok_of_toOption (b := [⟨(), 0, 0, 1⟩, ⟨(), 0, 0, 2⟩])
    (f := fun s : TimerLoop Unit => s.fired.map Prod.fst)
    (x := Machine.run step (init 0 0) batchRun) (by decide +kernel)
  have hrevoked : ⟨(), 0, 0, 2⟩ ∈ revocations ((init 0 0).history batchRun) := by decide +kernel
  refine h 0 0 batchRun s hs _ hrevoked ?_
  rw [hfired]
  exact List.mem_cons_of_mem _ List.mem_cons_self

end TimerLoop

end VServer
