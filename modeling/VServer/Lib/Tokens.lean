import Mathlib

/-!
# Counting what lies in several queues

`total m q` is the weight of everything in a finite family of lists `q`, when `m` weighs one element.
Work that is handed from one list to another does not change it, so "every token is made once and
used once" is an equation between a total and what has been counted so far.
-/

namespace Tokens

variable {ι τ : Type*} [Fintype ι] (m : τ → Nat)

def total (q : ι → List τ) : Nat := ∑ i, ((q i).map m).sum

variable {m} {q q' : ι → List τ}

theorem total_exchange [DecidableEq ι] (i : ι) (hother : ∀ j, j ≠ i → q' j = q j) :
    total m q' + ((q i).map m).sum = total m q + ((q' i).map m).sum := by
  have hrest : ∑ j ∈ Finset.univ.erase i, ((q' j).map m).sum =
      ∑ j ∈ Finset.univ.erase i, ((q j).map m).sum := by
    apply Finset.sum_congr rfl
    intro j hj
    rw [hother j (Finset.ne_of_mem_erase hj)]
  have hq := Finset.add_sum_erase Finset.univ (fun j => ((q j).map m).sum) (Finset.mem_univ i)
  have hq' := Finset.add_sum_erase Finset.univ (fun j => ((q' j).map m).sum) (Finset.mem_univ i)
  unfold total
  omega

theorem total_use [DecidableEq ι] {i : ι} {t : τ} {new rest : List τ}
    (hother : ∀ j, j ≠ i → q' j = q j) (hq : q i = t :: rest) (hq' : q' i = new ++ rest) :
    total m q' + m t = total m q + (new.map m).sum := by
  have h := total_exchange (m := m) i hother
  rw [hq, hq', List.map_cons, List.sum_cons, List.map_append, List.sum_append] at h
  omega

theorem total_front [DecidableEq ι] {i : ι} {new : List τ} (hother : ∀ j, j ≠ i → q' j = q j)
    (hq' : q' i = new ++ q i) : total m q' = total m q + (new.map m).sum := by
  have h := total_exchange (m := m) i hother
  rw [hq', List.map_append, List.sum_append] at h
  omega

theorem total_push [DecidableEq ι] {i : ι} {t : τ} (hother : ∀ j, j ≠ i → q' j = q j)
    (hq' : q' i = q i ++ [t]) : total m q' = total m q + m t := by
  have h := total_exchange (m := m) i hother
  rw [hq', List.map_append, List.sum_append, List.map_singleton, List.sum_singleton] at h
  omega

theorem le_total {i : ι} {t : τ} (ht : t ∈ q i) : m t ≤ total m q := by
  have hlist : m t ≤ ((q i).map m).sum := List.single_le_sum (fun _ _ => Nat.zero_le _) _ (List.mem_map_of_mem ht)
  have hsum : ((q i).map m).sum ≤ total m q :=
    Finset.single_le_sum (f := fun j => ((q j).map m).sum) (fun _ _ => Nat.zero_le _)
      (Finset.mem_univ i)
  omega

theorem total_add (m m' : τ → Nat) (q : ι → List τ) :
    total (fun t => m t + m' t) q = total m q + total m' q := by
  unfold total
  rw [← Finset.sum_add_distrib]
  apply Finset.sum_congr rfl
  intro i _
  exact List.sum_map_add

theorem total_le_total {m m' : τ → Nat} (h : ∀ t, m t ≤ m' t) (q : ι → List τ) :
    total m q ≤ total m' q :=
  Finset.sum_le_sum fun _ _ => List.sum_le_sum fun t _ => h t

theorem total_eq_zero (h : ∀ i, ∀ t ∈ q i, m t = 0) : total m q = 0 := by
  apply Finset.sum_eq_zero
  intro i _
  apply List.sum_eq_zero
  intro n hn
  obtain ⟨t, ht, rfl⟩ := List.mem_map.mp hn
  exact h i t ht

theorem exists_of_total_pos (h : 0 < total m q) : ∃ i, ∃ t ∈ q i, 0 < m t := by
  by_contra hnone
  have hzero : total m q = 0 := total_eq_zero fun i t ht =>
    Nat.eq_zero_of_not_pos fun hpos => hnone ⟨i, t, ht, hpos⟩
  omega

end Tokens
