import VServer.Net.LoopView
import VServer.Net.Progress

/-!
# What is queued is called

A loop serves its queue in order (`Net.LoopView`), and it comes back to it (`Net.Progress`). So in a run
without end, in which the thread of the loop takes steps again and again and its user code makes only so
many calls, everything that was ever queued in the loop is called (`queued_called`), whatever is
reported, however much the other threads queue, and whatever the timers do.
-/

namespace VServer

open Machine

/-! ## The way to the functors -/

/-- How far the loop is from its next functor, if there is one. -/
def Phase.stage {τ : Type} : Phase τ → Nat ×ₗ Nat
  | .ready => toLex (6, 0)
  | .functors [] => toLex (5, 0)
  | .test => toLex (4, 0)
  | .wait => toLex (3, 0)
  | .events active => toLex (2, active.length)
  | .swap => toLex (1, 0)
  | .functors (_ :: _) => toLex (0, 0)
  | .ended => toLex (0, 0)

theorem EventLoop.NextStep.stage_lt {τ : Type} {l l' : EventLoop τ} {calls : List τ}
    (h : l.NextStep l' calls) (hwork : l.batch ++ l.pendingFuncs ≠ [])
    (hidle : ∀ f funcs, l.phase ≠ .functors (f :: funcs)) : l'.phase.stage < l.phase.stage := by
  cases h with
  | swap phase =>
    rw [batch, phase, List.nil_append] at hwork
    obtain ⟨f, funcs, hpending⟩ := List.exists_cons_of_ne_nil hwork
    simp [phase, hpending, Phase.stage, Prod.Lex.toLex_lt_toLex]
  | functor phase => exact absurd phase (hidle _ _)
  | idle phase empty =>
    rw [batch, phase] at hwork
    exact absurd empty hwork
  | enter phase | stop phase | sleep phase | handle phase | begin phase | done phase =>
    simp [phase, Phase.stage, Prod.Lex.toLex_lt_toLex]

variable {ι : Type} [DecidableEq ι] [Fintype ι] {who : ι}

section

variable {σ σ' : System ι} {label : Label ι}

theorem step_stage (h : σ.step label = .ok σ')
    (hwork : (σ.loops who).batch ++ (σ.loops who).pendingFuncs ≠ [])
    (hquiet : (observed who σ label).filterMap LoopEvent.called? = []) :
    (σ'.loops who).phase.stage ≤ (σ.loops who).phase.stage ∧
      (label = .next who → (σ'.loops who).phase.stage < (σ.loops who).phase.stage) := by
  refine step_measure h (fun active => ?_) fun hlabel calls hstep => ?_
  · simp [Phase.stage, Prod.Lex.toLex_le_toLex]
  · refine hstep.stage_lt hwork fun f funcs hphase => ?_
    rw [hlabel] at hquiet
    unfold observed at hquiet
    simp [hphase, LoopEvent.called?] at hquiet

end

/-! ## Runs without end -/

section

variable {states : Nat → System ι} {labels : Nat → Label ι} {baseLoop : ι} {ioLoops : List ι}
  {delay clock : Nat} {count : UInt64}

/-- What was queued in the loop by the time `n`. -/
def queuedBy (who : ι) (states : Nat → System ι) (labels : Nat → Label ι) (n : Nat) : List (Task ι) :=
  (collect System.step (observed who) (states 0) (beginning labels n)).filterMap LoopEvent.queued?

/-- What `doPendingFunctors` called by the time `n`. -/
def calledBy (who : ι) (states : Nat → System ι) (labels : Nat → Label ι) (n : Nat) : List (Task ι) :=
  (collect System.step (observed who) (states 0) (beginning labels n)).filterMap LoopEvent.called?

theorem queuedBy_grows (who : ι) (hrun : ∀ n, (states n).step (labels n) = .ok (states (n + 1))) {n m : Nat}
    (hle : n ≤ m) : queuedBy who states labels n <+: queuedBy who states labels m :=
  (collect_grows hrun hle).filterMap _

theorem calledBy_succ (hrun : ∀ n, (states n).step (labels n) = .ok (states (n + 1))) (n : Nat) :
    calledBy who states labels (n + 1) =
      calledBy who states labels n ++ (observed who (states n) (labels n)).filterMap LoopEvent.called? := by
  rw [calledBy, collect_succ hrun, List.filterMap_append, calledBy]

theorem queuedBy_eq (who : ι) (hstart : states 0 = System.start baseLoop ioLoops delay clock count)
    (hrun : ∀ n, (states n).step (labels n) = .ok (states (n + 1))) (n : Nat) :
    queuedBy who states labels n = calledBy who states labels n ++
      ((states n).loops who).batch ++ ((states n).loops who).pendingFuncs := by
  have hto := run_to hrun n
  rw [hstart] at hto
  rw [queuedBy, calledBy, hstart]
  exact run_in_order who hto

/-- While something that was queued has not been called, something is called sooner or later. -/
theorem called_again (hstart : states 0 = System.start baseLoop ioLoops delay clock count)
    (hrun : ∀ n, (states n).step (labels n) = .ok (states (n + 1)))
    (hcalls : ∃ N, ∀ n, N ≤ n → ∀ c, labels n ≠ .call who c)
    (hsteps : ∀ N, ∃ n, N ≤ n ∧ (labels n).isOf who) {n : Nat}
    (hwaits : (calledBy who states labels n).length < (queuedBy who states labels n).length) :
    ∃ m, n ≤ m ∧ (calledBy who states labels n).length < (calledBy who states labels m).length := by
  by_contra hnever
  -- then nothing is called any more, and the loop has its functors still before it
  have hsame : ∀ m, n ≤ m → calledBy who states labels m = calledBy who states labels n ∧
      (observed who (states m) (labels m)).filterMap LoopEvent.called? = [] := by
    have hstop : ∀ m, n ≤ m → calledBy who states labels m = calledBy who states labels n →
        (observed who (states m) (labels m)).filterMap LoopEvent.called? = [] := by
      intro m hm hcalled
      by_contra hne
      refine hnever ⟨m + 1, by omega, ?_⟩
      rw [calledBy_succ hrun, hcalled, List.length_append]
      have hpos := List.length_pos_of_ne_nil hne
      omega
    intro m hm
    induction m, hm using Nat.le_induction with
    | base => exact ⟨rfl, hstop n (le_refl n) rfl⟩
    | succ m hm ih =>
      have hcalled : calledBy who states labels (m + 1) = calledBy who states labels n := by
        rw [calledBy_succ hrun, ih.1, ih.2, List.append_nil]
      exact ⟨hcalled, hstop (m + 1) (by omega) hcalled⟩
  have hwork : ∀ m, n ≤ m → ((states m).loops who).batch ++ ((states m).loops who).pendingFuncs ≠ [] := by
    intro m hm hempty
    have hall := queuedBy_eq who hstart hrun m
    rw [List.append_assoc, hempty, List.append_nil, (hsame m hm).1] at hall
    have hlength := (queuedBy_grows who hrun hm).length_le
    rw [hall] at hlength
    omega
  -- so it gets closer to them whenever it goes on
  exact no_descent (f := fun m => ((states m).loops who).phase.stage) hrun hcalls hsteps
    fun m hm => step_stage (hrun m) (hwork m hm) (hsame m hm).2

/-- **What is queued is called.** In a run without end, in which the thread of the loop takes steps
again and again and its user code makes only so many calls, everything that was queued in the loop is
called sooner or later, in the order in which it was queued. -/
theorem queued_called (hstart : states 0 = System.start baseLoop ioLoops delay clock count)
    (hrun : ∀ n, (states n).step (labels n) = .ok (states (n + 1)))
    (hcalls : ∃ N, ∀ n, N ≤ n → ∀ c, labels n ≠ .call who c)
    (hsteps : ∀ N, ∃ n, N ≤ n ∧ (labels n).isOf who) (n : Nat) :
    ∃ m, n ≤ m ∧ queuedBy who states labels n <+: calledBy who states labels m := by
  have hmany : ∀ k, k ≤ (queuedBy who states labels n).length →
      ∃ m, n ≤ m ∧ k ≤ (calledBy who states labels m).length := by
    intro k hk
    induction k with
    | zero => exact ⟨n, le_refl n, Nat.zero_le _⟩
    | succ k ih =>
      obtain ⟨m, hm, hcalled⟩ := ih (by omega)
      by_cases hdone : k + 1 ≤ (calledBy who states labels m).length
      · exact ⟨m, hm, hdone⟩
      · have hlength := (queuedBy_grows who hrun hm).length_le
        obtain ⟨m', hm', hmore⟩ := called_again hstart hrun hcalls hsteps (n := m) (by omega)
        exact ⟨m', by omega, by omega⟩
  obtain ⟨m, hm, hlength⟩ := hmany _ (le_refl _)
  refine ⟨m, hm, List.prefix_of_prefix_length_le (queuedBy_grows who hrun hm) ?_ hlength⟩
  rw [queuedBy_eq who hstart hrun m, List.append_assoc]
  exact List.prefix_append _ _

end

theorem queued_called_once : ∃ m, 2 ≤ m ∧ [.user] <+: calledBy 0 servedState servedLabel m := by
  have hcalled : ∃ m, 2 ≤ m ∧
      queuedBy 0 servedState servedLabel 2 <+: calledBy 0 servedState servedLabel m := by
    exact queued_called rfl served_step ⟨10, fun _ => servedLabel_ne_call⟩ exists_servedLabel 2
  exact hcalled

end VServer
