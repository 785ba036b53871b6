import Mathlib

/-!
# Blocks filled one after another

Whatever does not fit into the last block begins a new one, so that two neighbours fill one block
together, at least. `gaps n` counts the neighbours that do not, in a list of how full the blocks are.
But for these, no more than twice as many blocks are in use as would do (`mul_length_le`).
-/

namespace NextFit

variable {n : Nat}

/-- How many neighbours hold less than `n` together. -/
def gaps (n : Nat) : List Nat → Nat
  | [] => 0
  | [_] => 0
  | x :: y :: rest => (if x + y < n then 1 else 0) + gaps n (y :: rest)

@[simp] theorem gaps_nil : gaps n [] = 0 := rfl

@[simp] theorem gaps_singleton (x : Nat) : gaps n [x] = 0 := rfl

theorem gaps_cons_cons (x y : Nat) (rest : List Nat) :
    gaps n (x :: y :: rest) = (if x + y < n then 1 else 0) + gaps n (y :: rest) := rfl

theorem gaps_concat (xs : List Nat) (x y : Nat) :
    gaps n (xs ++ [x, y]) = gaps n (xs ++ [x]) + if x + y < n then 1 else 0 := by
  induction xs with
  | nil => simp [gaps_cons_cons]
  | cons a xs ih =>
    cases xs with
    | nil =>
      simp only [List.nil_append, List.cons_append, gaps_cons_cons, gaps_singleton]
      omega
    | cons b xs =>
      simp only [List.cons_append, gaps_cons_cons] at ih ⊢
      omega

theorem gaps_last_le (xs : List Nat) {x y : Nat} (h : x ≤ y) :
    gaps n (xs ++ [y]) ≤ gaps n (xs ++ [x]) := by
  rcases List.eq_nil_or_concat xs with rfl | ⟨xs, a, rfl⟩
  · simp
  · simp only [List.concat_eq_append, List.append_assoc, List.singleton_append, gaps_concat]
    split_ifs
    all_goals omega

/-- **Half of the room is used**, but for one block and for the gaps. -/
theorem mul_length_le (n : Nat) (xs : List Nat) :
    n * xs.length ≤ 2 * xs.sum + n * (gaps n xs + 1) := by
  have hcons : ∀ (rest : List Nat) (x : Nat),
      n * rest.length + x ≤ 2 * (x :: rest).sum + n * gaps n (x :: rest) := by
    intro rest
    induction rest with
    | nil =>
      intro x
      simp
      omega
    | cons y rest ih =>
      intro x
      have hle := ih y
      simp only [gaps_cons_cons, List.length_cons, List.sum_cons, Nat.mul_add] at hle ⊢
      split_ifs
      all_goals omega
  cases xs with
  | nil => simp
  | cons x rest =>
    have hle := hcons rest x
    rw [List.length_cons, Nat.mul_add, Nat.mul_add]
    omega

end NextFit
