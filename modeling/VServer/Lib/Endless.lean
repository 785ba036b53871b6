import VServer.Lib.Machine

/-!
# Runs without end

A run without end is a sequence of states and the labels between them. Its beginnings are runs
(`run_to`), and what they put out only grows (`collect_grows`). What never goes up goes down only
finitely often, if its order is well-founded (`exists_not_lt`).
-/

namespace Machine

variable {σ α ε β : Type*} {step : σ → α → Except ε σ} {states : Nat → σ} {labels : Nat → α}

/-- The labels of the run up to the time `n`. -/
def beginning (labels : Nat → α) (n : Nat) : List α := (List.range n).map labels

@[simp] theorem beginning_zero : beginning labels 0 = [] := rfl

theorem beginning_succ (n : Nat) : beginning labels (n + 1) = beginning labels n ++ [labels n] := by
  rw [beginning, List.range_succ, List.map_append, List.map_singleton, beginning]

theorem run_to (h : ∀ n, step (states n) (labels n) = .ok (states (n + 1))) (n : Nat) :
    run step (states 0) (beginning labels n) = .ok (states n) := by
  induction n with
  | zero => rfl
  | succ n ih => rw [beginning_succ, run_append_ok ih, run_cons_ok (h n), run_nil]

variable {f : σ → α → List β}

theorem collect_succ (h : ∀ n, step (states n) (labels n) = .ok (states (n + 1))) (n : Nat) :
    collect step f (states 0) (beginning labels (n + 1)) =
      collect step f (states 0) (beginning labels n) ++ f (states n) (labels n) := by
  rw [beginning_succ, collect_append_ok (run_to h n), collect, h n]
  simp [collect]

theorem collect_grows (h : ∀ n, step (states n) (labels n) = .ok (states (n + 1))) {n m : Nat}
    (hle : n ≤ m) :
    collect step f (states 0) (beginning labels n) <+: collect step f (states 0) (beginning labels m) := by
  induction m, hle using Nat.le_induction with
  | base => exact List.prefix_rfl
  | succ m _ ih =>
    rw [collect_succ h]
    exact ih.trans (List.prefix_append _ _)

theorem exists_not_lt {γ : Type*} [PartialOrder γ] [WellFoundedLT γ] {f : Nat → γ} {N : Nat}
    (h : ∀ n, N ≤ n → f (n + 1) ≤ f n) :
    ∃ M, N ≤ M ∧ ∀ n, M ≤ n → ¬f (n + 1) < f n := by
  have hanti : Antitone fun n => f (N + n) := antitone_nat_of_succ_le fun n => h (N + n) (by omega)
  obtain ⟨M, hM⟩ := WellFoundedLT.antitone_chain_condition hanti
  refine ⟨N + M, by omega, fun n hn hlt => ?_⟩
  have hnow := hM (n - N) (by omega)
  have hnext := hM (n + 1 - N) (by omega)
  rw [show N + (n - N) = n by omega] at hnow
  rw [show N + (n + 1 - N) = n + 1 by omega] at hnext
  rw [← hnow, ← hnext] at hlt
  exact lt_irrefl _ hlt

end Machine
