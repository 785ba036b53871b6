import Mathlib

/-!
# Stacks of tasks

The task on top of a stack is done and leaves tasks of lower rank in its place. In the order of
Dershowitz and Manna the ranks on the stack go down each time (`Works.lt`), so a stack that gets no
task from elsewhere is worked at only finitely often (`exists_settled`), however many tasks one task
may leave.
-/

namespace TaskStack

variable {α : Type*} {rank : α → Nat}

def Works (rank : α → Nat) (s s' : List α) : Prop :=
  ∃ t rest new, s = t :: rest ∧ s' = new ++ rest ∧ ∀ x ∈ new, rank x < rank t

def ranks (rank : α → Nat) (s : List α) : Multiset Nat := (s.map rank : List Nat)

theorem Works.lt {s s' : List α} (h : Works rank s s') :
    Multiset.IsDershowitzMannaLT (ranks rank s') (ranks rank s) := by
  obtain ⟨t, rest, new, rfl, rfl, hnew⟩ := h
  refine ⟨ranks rank rest, ranks rank new, {rank t}, by simp, ?_, ?_, ?_⟩
  · simp only [ranks, List.map_append, ← Multiset.coe_add]
    exact add_comm _ _
  · simp only [ranks, List.map_cons, ← Multiset.cons_coe]
    rw [add_comm, Multiset.singleton_add]
  · intro y hy
    obtain ⟨x, hx, rfl⟩ := List.mem_map.mp (Multiset.mem_coe.mp hy)
    exact ⟨rank t, Multiset.mem_singleton_self _, hnew x hx⟩

/-- **A stack settles.** It is not worked at for ever. -/
theorem exists_settled {f : Nat → List α}
    (h : ∀ n, Works rank (f n) (f (n + 1)) ∨ f (n + 1) = f n) :
    ∃ N, ∀ n, N ≤ n → ¬Works rank (f n) (f (n + 1)) := by
  have hwf := @Multiset.wellFounded_isDershowitzMannaLT Nat _ _
  obtain ⟨m, ⟨N, rfl⟩, hmin⟩ := hwf.has_min (Set.range fun n => ranks rank (f n)) ⟨_, 0, rfl⟩
  -- from the least of its values on the stack stays as it is
  have hsame : ∀ n, N ≤ n → f n = f N := by
    intro n hn
    induction n, hn using Nat.le_induction with
    | base => rfl
    | succ n hn ih =>
      rcases h n with hworks | hleft
      · have hlt := hworks.lt
        rw [ih] at hlt
        exact absurd hlt (hmin _ ⟨n + 1, rfl⟩)
      · rw [hleft, ih]
  refine ⟨N, fun n hn hworks => ?_⟩
  have hlt := hworks.lt
  rw [hsame n hn] at hlt
  exact hmin _ ⟨n + 1, rfl⟩ hlt

end TaskStack
