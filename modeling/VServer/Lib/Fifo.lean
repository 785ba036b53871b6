import Mathlib

/-!
# First in, first out

The abstract queue: elements arrive at the back (`put`), leave from the front (`take`, `clear`), and
what left followed by what is still there is what arrived (`run_conserves`).
-/

namespace Fifo

variable {α : Type*}

inductive Op (α : Type*) where
  | put (xs : List α)
  | take (n : Nat)
  | clear

/-- What an operation brings. -/
def Op.arrived : Op α → List α
  | .put xs => xs
  | .take _ => []
  | .clear => []

/-- The contents after an operation, and what left. Taking more than there is is not allowed. -/
def step (q : List α) : Op α → Option (List α × List α)
  | .put xs => some (q ++ xs, [])
  | .take n => if n ≤ q.length then some (q.drop n, q.take n) else none
  | .clear => some ([], q)

/-- The contents after a sequence of operations, and what left at each of them. -/
def run (q : List α) : List (Op α) → Option (List α × List (List α))
  | [] => some (q, [])
  | op :: ops =>
    match step q op with
    | none => none
    | some (q', left) => (run q' ops).map fun r => (r.1, left :: r.2)

theorem step_conserves {q q' left : List α} {op : Op α} (h : step q op = some (q', left)) :
    q ++ op.arrived = left ++ q' := by
  cases op with
  | put xs =>
    obtain ⟨rfl, rfl⟩ := Prod.mk.inj (Option.some.inj h)
    rfl
  | take n =>
    rw [step] at h
    split_ifs at h
    obtain ⟨rfl, rfl⟩ := Prod.mk.inj (Option.some.inj h)
    rw [Op.arrived, List.append_nil, List.take_append_drop]
  | clear =>
    obtain ⟨rfl, rfl⟩ := Prod.mk.inj (Option.some.inj h)
    rfl

theorem run_cons {q q' : List α} {op : Op α} {ops : List (Op α)} {outs : List (List α)}
    (h : run q (op :: ops) = some (q', outs)) :
    ∃ q₁ left outs', step q op = some (q₁, left) ∧ run q₁ ops = some (q', outs') ∧
      outs = left :: outs' := by
  rw [run] at h
  split at h
  · cases h
  · next q₁ left hstep =>
    obtain ⟨⟨q₂, outs'⟩, hrun, heq⟩ := Option.map_eq_some_iff.mp h
    obtain ⟨rfl, rfl⟩ := Prod.mk.inj heq
    exact ⟨q₁, left, outs', hstep, hrun, rfl⟩

/-- What left, in order, followed by what is still there, is what was there followed by what
arrived. -/
theorem run_conserves {ops : List (Op α)} {q q' : List α} {outs : List (List α)}
    (h : run q ops = some (q', outs)) : q ++ ops.flatMap Op.arrived = outs.flatten ++ q' := by
  induction ops generalizing q outs with
  | nil =>
    obtain ⟨rfl, rfl⟩ := Prod.mk.inj (Option.some.inj h)
    simp
  | cons op ops ih =>
    obtain ⟨q₁, left, outs', hstep, hrun, rfl⟩ := run_cons h
    rw [List.flatMap_cons, ← List.append_assoc, step_conserves hstep, List.append_assoc, ih hrun,
      List.flatten_cons, List.append_assoc]

end Fifo
