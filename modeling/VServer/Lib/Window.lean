import Mathlib

/-!
# Windows of a list

A block of storage is a list; `window xs i j` is what it holds at positions `i, …, j - 1`, and
`overwrite xs i src` is the storage after `src` was copied to position `i`. The copy is partial:
it is `none` when a byte would land outside. What the rest of a development needs is how the two
meet: the block just written (`window_overwrite`), and the blocks before it (`window_overwrite_left`).
-/

namespace Storage

variable {α : Type*}

/-- The contents of positions `i, …, j - 1`. -/
def window (xs : List α) (i j : Nat) : List α := (xs.drop i).take (j - i)

/-- `src` copied to position `i`, when all of it fits. -/
def overwrite (xs : List α) (i : Nat) (src : List α) : Option (List α) :=
  if i + src.length ≤ xs.length then some (xs.take i ++ src ++ xs.drop (i + src.length)) else none

/-- The storage enlarged (with `fill`) or cut to `n` positions. -/
def resize (xs : List α) (n : Nat) (fill : α) : List α :=
  xs.take n ++ List.replicate (n - xs.length) fill

theorem length_window {xs : List α} {i j : Nat} (hj : j ≤ xs.length) :
    (window xs i j).length = j - i := by
  simp only [window, List.length_take, List.length_drop]
  omega

@[simp] theorem window_self (xs : List α) (i : Nat) : window xs i i = [] := by
  simp [window]

theorem window_append_window {xs : List α} {i j k : Nat} (hij : i ≤ j) (hjk : j ≤ k) :
    window xs i j ++ window xs j k = window xs i k := by
  have hsplit := List.take_add (l := xs.drop i) (i := j - i) (j := k - j)
  rw [show j - i + (k - j) = k - i by omega, List.drop_drop, show i + (j - i) = j by omega] at hsplit
  exact hsplit.symm

theorem window_append_drop {xs : List α} {i j : Nat} (hij : i ≤ j) :
    window xs i j ++ xs.drop j = xs.drop i := by
  have hsplit := List.take_append_drop (j - i) (xs.drop i)
  rwa [List.drop_drop, show i + (j - i) = j by omega] at hsplit

theorem window_add (xs : List α) (i n : Nat) : window xs i (i + n) = (xs.drop i).take n := by
  rw [window, Nat.add_sub_cancel_left]

theorem window_eq_cons {xs : List α} {i j : Nat} {x : α} (hij : i < j) (hx : xs[i]? = some x) :
    window xs i j = x :: window xs (i + 1) j := by
  obtain ⟨hlt, rfl⟩ := List.getElem?_eq_some_iff.mp hx
  rw [window, List.drop_eq_getElem_cons hlt, show j - i = j - (i + 1) + 1 by omega,
    List.take_succ_cons, window]

theorem window_succ {xs : List α} {i j : Nat} {x : α} (hij : i ≤ j) (hx : xs[j]? = some x) :
    window xs i (j + 1) = window xs i j ++ [x] := by
  rw [← window_append_window hij (Nat.le_succ j), window_eq_cons (Nat.lt_succ_self j) hx,
    window_self]

theorem take_window (xs : List α) (i j n : Nat) (hn : i + n ≤ j) :
    (window xs i j).take n = window xs i (i + n) := by
  rw [window_add, window, List.take_take, Nat.min_eq_left (by omega)]

theorem drop_window (xs : List α) (i j n : Nat) :
    (window xs i j).drop n = window xs (i + n) j := by
  rw [window, window, List.drop_take, List.drop_drop]
  congr 1
  omega

theorem overwrite_eq_some {xs src : List α} {i : Nat} (h : i + src.length ≤ xs.length) :
    overwrite xs i src = some (xs.take i ++ src ++ xs.drop (i + src.length)) := if_pos h

theorem length_overwrite {xs ys src : List α} {i : Nat} (h : overwrite xs i src = some ys) :
    ys.length = xs.length := by
  rw [overwrite] at h
  split_ifs at h with hfit
  obtain rfl := Option.some.inj h
  simp only [List.length_append, List.length_take, List.length_drop]
  omega

theorem window_overwrite {xs ys src : List α} {i : Nat} (h : overwrite xs i src = some ys) :
    window ys i (i + src.length) = src := by
  rw [overwrite] at h
  split_ifs at h with hfit
  obtain rfl := Option.some.inj h
  have hi : (xs.take i).length = i := by rw [List.length_take]; omega
  rw [window_add, List.append_assoc, List.drop_append_of_le_length (by omega),
    List.drop_of_length_le (by omega), List.nil_append, List.take_left]

theorem window_overwrite_left {xs ys src : List α} {i k j : Nat}
    (h : overwrite xs i src = some ys) (hj : j ≤ i) : window ys k j = window xs k j := by
  rw [overwrite] at h
  split_ifs at h with hfit
  obtain rfl := Option.some.inj h
  rcases Nat.lt_or_ge j k with hk | hk
  · rw [window, window, show j - k = 0 by omega, List.take_zero, List.take_zero]
  · have hi : (xs.take i).length = i := by rw [List.length_take]; omega
    rw [window, window, List.append_assoc, List.drop_append_of_le_length (by omega),
      List.take_append_of_le_length (by rw [List.length_drop]; omega), List.drop_take,
      List.take_take, Nat.min_eq_left (by omega)]

theorem length_resize (xs : List α) (n : Nat) (fill : α) : (resize xs n fill).length = n := by
  simp only [resize, List.length_append, List.length_take, List.length_replicate]
  omega

theorem window_resize {xs : List α} {n k j : Nat} (fill : α) (hj : j ≤ xs.length) (hn : j ≤ n) :
    window (resize xs n fill) k j = window xs k j := by
  rcases Nat.lt_or_ge j k with hk | hk
  · rw [window, window, show j - k = 0 by omega, List.take_zero, List.take_zero]
  · rw [window, window, resize, List.drop_append_of_le_length (by rw [List.length_take]; omega),
      List.take_append_of_le_length (by rw [List.length_drop, List.length_take]; omega),
      List.drop_take, List.take_take, Nat.min_eq_left (by omega)]

end Storage
