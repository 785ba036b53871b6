import Mathlib

/-!
# Lines in blocks

A sequence of lines cut into blocks, each block some consecutive lines run together. A line joins the
last block (`concat`) or opens a new one, neighbouring blocks may be merged (`join`), and the first
block is always a whole number of lines (`head`).
-/

/-- Each block is some of the lines, run together; the blocks are all of them in order. -/
def Grouped {α : Type*} (lines blocks : List (List α)) : Prop :=
  ∃ groups : List (List (List α)), groups.flatten = lines ∧ groups.map List.flatten = blocks

namespace Grouped

variable {α : Type*} {lines lines' blocks blocks' : List (List α)} {line block : List α}

theorem append (h : Grouped lines blocks) (h' : Grouped lines' blocks') :
    Grouped (lines ++ lines') (blocks ++ blocks') := by
  obtain ⟨groups, rfl, rfl⟩ := h
  obtain ⟨groups', rfl, rfl⟩ := h'
  exact ⟨groups ++ groups', by simp, by simp⟩

theorem of_append (h : Grouped lines (blocks ++ blocks')) :
    ∃ first last, lines = first ++ last ∧ Grouped first blocks ∧ Grouped last blocks' := by
  obtain ⟨groups, rfl, hblocks⟩ := h
  obtain ⟨first, last, rfl, hfirst, hlast⟩ := List.map_eq_append_iff.mp hblocks
  exact ⟨first.flatten, last.flatten, by simp, ⟨first, rfl, hfirst⟩, ⟨last, rfl, hlast⟩⟩

theorem single (lines : List (List α)) : Grouped lines [lines.flatten] := ⟨[lines], by simp, by simp⟩

theorem empty : Grouped ([] : List (List α)) [[]] := single []

theorem flatten_eq (h : Grouped lines blocks) : blocks.flatten = lines.flatten := by
  obtain ⟨groups, rfl, rfl⟩ := h
  induction groups with
  | nil => rfl
  | cons group groups ih => simp [ih]

theorem concat (h : Grouped lines (blocks ++ [block])) :
    Grouped (lines ++ [line]) (blocks ++ [block ++ line]) := by
  obtain ⟨first, last, rfl, hfirst, hlast⟩ := h.of_append
  have hblock := hlast.flatten_eq
  rw [List.flatten_singleton] at hblock
  have hjoined := single (last ++ [line])
  rw [List.flatten_append, ← hblock, List.flatten_singleton] at hjoined
  rw [List.append_assoc]
  exact hfirst.append hjoined

theorem join {middle : List (List α)} (h : Grouped lines (blocks ++ (middle ++ blocks'))) :
    Grouped lines (blocks ++ middle.flatten :: blocks') := by
  obtain ⟨first, rest, rfl, hfirst, hrest⟩ := h.of_append
  obtain ⟨mid, last, rfl, hmid, hlast⟩ := hrest.of_append
  have hjoined := single mid
  rw [← hmid.flatten_eq] at hjoined
  exact hfirst.append (hjoined.append hlast)

theorem head (h : Grouped lines (block :: blocks)) :
    ∃ n, block = (lines.take n).flatten ∧ Grouped (lines.drop n) blocks := by
  obtain ⟨first, last, rfl, hfirst, hlast⟩ := of_append (show Grouped lines ([block] ++ blocks) from h)
  refine ⟨first.length, ?_, ?_⟩
  · rw [List.take_left, ← hfirst.flatten_eq, List.flatten_singleton]
  · rwa [List.drop_left]

end Grouped
