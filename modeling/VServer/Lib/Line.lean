import Mathlib

/-!
# Waiting in a line

The first ones of a line are served and go to its end (`serve`). In between some leave, and others
come and stand at the end (`Change`). Whoever stays moves up by as many as were served
(`idxOf_serve`) and is not overtaken (`idxOf_apply_le`).
-/

namespace Line

variable {α : Type*}

/-- The first `n` have their turn. -/
def serve (n : Nat) (line : List α) : List α := line.drop n ++ line.take n

structure Change (α : Type*) where
  leaves : α → Bool
  joins : List α

namespace Change

def stayers (c : Change α) (line : List α) : List α := line.filter fun x => !c.leaves x

def apply (c : Change α) (line : List α) : List α := c.stayers line ++ c.joins

def Fits (c : Change α) (line : List α) : Prop := c.joins.Nodup ∧ ∀ x ∈ c.joins, x ∉ c.stayers line

instance [DecidableEq α] (c : Change α) (line : List α) : Decidable (c.Fits line) :=
  inferInstanceAs (Decidable (_ ∧ _))

end Change

variable {n : Nat} {line : List α} {x : α} {c : Change α}

theorem serve_perm (n : Nat) (line : List α) : (serve n line).Perm line := by
  have hsplit : (line.drop n ++ line.take n).Perm (line.take n ++ line.drop n) := List.perm_append_comm
  rwa [List.take_append_drop] at hsplit

theorem nodup_apply (hline : line.Nodup) (h : c.Fits line) : (c.apply line).Nodup := by
  obtain ⟨hjoins, hnew⟩ := h
  refine List.nodup_append.mpr ⟨hline.filter _, hjoins, fun y hy z hz hyz => ?_⟩
  exact hnew z hz (hyz ▸ hy)

theorem mem_apply (hx : x ∈ line) (hstays : c.leaves x = false) : x ∈ c.apply line := by
  refine List.mem_append_left _ (List.mem_filter.mpr ⟨hx, ?_⟩)
  simp [hstays]

section

variable [DecidableEq α]

theorem idxOf_serve (hx : x ∈ line) (hwaits : n ≤ line.idxOf x) :
    (serve n line).idxOf x + n = line.idxOf x := by
  have hlength : n < line.length := lt_of_le_of_lt hwaits (List.idxOf_lt_length_of_mem hx)
  have hnot : x ∉ line.take n := by
    intro hmem
    have := (List.mem_take_iff_idxOf_lt hx).mp hmem
    omega
  have hrest : x ∈ line.drop n := by
    have hsplit : x ∈ line.take n ++ line.drop n := by rwa [List.take_append_drop]
    exact (List.mem_append.mp hsplit).resolve_left hnot
  calc (serve n line).idxOf x + n
      = (line.drop n).idxOf x + n := by rw [serve, List.idxOf_append_of_mem hrest]
    _ = (line.drop n).idxOf x + (line.take n).length := by rw [List.length_take_of_le hlength.le]
    _ = (line.take n ++ line.drop n).idxOf x := by rw [List.idxOf_append_of_notMem hnot, Nat.add_comm]
    _ = line.idxOf x := by rw [List.take_append_drop]

theorem idxOf_filter_le {p : α → Bool} (hx : x ∈ line) (hp : p x = true) :
    (line.filter p).idxOf x ≤ line.idxOf x := by
  induction line with
  | nil => simp at hx
  | cons y line ih =>
    rcases eq_or_ne y x with rfl | hne
    · simp [hp]
    · have hmem : x ∈ line := (List.mem_cons.mp hx).resolve_left hne.symm
      have hle := ih hmem
      rw [List.idxOf_cons_ne _ hne, List.filter_cons]
      split_ifs
      · rw [List.idxOf_cons_ne _ hne]
        omega
      · omega

theorem idxOf_apply_le (hx : x ∈ line) (hstays : c.leaves x = false) :
    (c.apply line).idxOf x ≤ line.idxOf x := by
  have hstay : x ∈ c.stayers line := List.mem_filter.mpr ⟨hx, by simp [hstays]⟩
  rw [Change.apply, List.idxOf_append_of_mem hstay]
  exact idxOf_filter_le hx (by simp [hstays])

end

end Line
