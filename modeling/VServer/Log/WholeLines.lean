import VServer.Lib.Groups
import VServer.Log.Lines

/-!
# The file of the asynchronous log ends with a line

A line lies in one buffer from its first byte to its last, and the background thread writes whole
buffers. So the bytes of `m_os`, of what is being written and of each buffer are whole lines
(`Whole`), and at any time `m_os` holds the first so many of the lines that were kept.
-/

namespace VServer

namespace AsyncLogging

open Machine

def swappedPieces (s : AsyncLogging) : List (List Byte) :=
  match s.phase with
  | .swapped => s.buffersToWrite.map (·.data)
  | .writing output => [output]
  | _ => []

theorem flatten_swappedPieces (s : AsyncLogging) : s.swappedPieces.flatten = s.swappedOut := by
  unfold swappedPieces swappedOut
  cases s.phase <;> simp [contents]

/-- The pieces the bytes lie in, from the oldest to the newest. -/
def pieces (s : AsyncLogging) : List (List Byte) :=
  s.os :: (s.swappedPieces ++ (s.buffers.map (·.data) ++ s.curBuffer.toList.map (·.data)))

def Whole (s : AsyncLogging) : Prop := Grouped (kept s.lines) s.pieces

theorem kept_concat (lines : List (List Byte)) (line : List Byte) :
    kept (lines ++ [line]) = kept lines ++ if line.length < kLargeBuffer then [line] else [] := by
  unfold kept
  by_cases h : line.length < kLargeBuffer <;> simp [h]

theorem grouped_kept {lines blocks : List (List Byte)} {block : List Byte} (line : List Byte)
    (h : Grouped (kept lines) (blocks ++ [block])) :
    Grouped (kept (lines ++ [line]))
      (blocks ++ [block ++ if line.length < kLargeBuffer then line else []]) := by
  rw [kept_concat]
  split_ifs
  · exact h.concat
  · simpa using h

theorem appendLine_whole {s s' : AsyncLogging} {line : List Byte} (hspares : Spares s)
    (hwhole : Whole s) (h : s.appendLine line = .ok s') : Whole s' := by
  obtain ⟨cur, hcur, ⟨hfits, rfl⟩ | ⟨hfull, rfl⟩⟩ := appendLine_inv h
  · have hshort : line.length < kLargeBuffer := Nat.lt_of_lt_of_le hfits cur.avail_le
    unfold Whole pieces at hwhole
    rw [hcur, ← List.append_assoc, ← List.cons_append] at hwhole
    have hmore := grouped_kept line hwhole
    rw [if_pos hshort] at hmore
    simpa [Whole, pieces, swappedPieces, FixedBuffer.data_append_of_lt hfits] using hmore
  · -- the line is the first one of a new buffer
    have hempty : Grouped (kept s.lines) (s.pieces ++ [[]]) := by
      simpa using Grouped.append hwhole Grouped.empty
    have hmore := grouped_kept line hempty
    simpa [Whole, pieces, swappedPieces, hcur, FixedBuffer.data_append_of_empty hspares.next_getD]
      using hmore

theorem swap_whole {s s' : AsyncLogging} (hspares : Spares s)
    (hphase : s.phase = .locking ∨ s.phase = .waiting) (hwhole : Whole s) (h : s.swap = .ok s') :
    Whole s' := by
  obtain ⟨hspare, -, hcleared⟩ := hspares.held hphase
  obtain ⟨b, hfirst, hb⟩ := isSpare_iff.mp hspare
  obtain ⟨cur, hcur, rfl⟩ := swap_inv h
  have hbefore : s.pieces = s.os :: (s.buffers.map (·.data) ++ [cur.data]) := by
    rcases hphase with hphase | hphase <;> simp [pieces, swappedPieces, hphase, hcur]
  unfold Whole at hwhole
  rw [hbefore] at hwhole
  have hempty := Grouped.append hwhole Grouped.empty
  simpa [Whole, pieces, swappedPieces, hcleared, hfirst, hb] using hempty

theorem step_whole {s s' : AsyncLogging} {label : Label} (hspares : Spares s) (hwhole : Whole s)
    (h : step s label = .ok s') : Whole s' := by
  cases step_inv h with
  | append happend => exact appendLine_whole hspares hwhole happend
  | lock hphase _ hswap => exact swap_whole hspares (.inl hphase) hwhole hswap
  | wake hphase hswap => exact swap_whole hspares (.inr hphase) hwhole hswap
  | recycle hphase hrecycle =>
    -- the buffers that were swapped out become one text
    obtain ⟨b₁, b₂, -, -, hok⟩ := hspares.recycle hphase
    rw [hok] at hrecycle
    cases hrecycle
    unfold Whole pieces swappedPieces at hwhole
    rw [hphase] at hwhole
    exact Grouped.join (show Grouped _ ([s.os] ++ _) from hwhole)
  | @write output hphase =>
    -- and the text a part of `m_os`
    unfold Whole pieces swappedPieces at hwhole
    rw [hphase] at hwhole
    have hjoined := Grouped.join (show Grouped (kept s.lines) ([] ++ ([s.os, output] ++ _)) from hwhole)
    simpa [Whole, pieces, swappedPieces] using hjoined
  | start hphase | countDown hphase | enter hphase | leave hphase | wait hphase =>
    unfold Whole pieces swappedPieces at hwhole
    rw [hphase] at hwhole
    exact hwhole
  | stop | join => exact hwhole

/-- **The file ends with a line.** At any time `m_os` holds the first so many lines, and what was
swapped out and what is buffered are the others; a line that is being written is not in it yet. -/
theorem Whole.os_eq {s : AsyncLogging} (hwhole : Whole s) :
    ∃ n, s.os = ((kept s.lines).take n).flatten ∧
      s.swappedOut ++ s.buffered = ((kept s.lines).drop n).flatten := by
  obtain ⟨n, hos, hrest⟩ := hwhole.head
  refine ⟨n, hos, ?_⟩
  rw [← hrest.flatten_eq, List.flatten_append, List.flatten_append, flatten_swappedPieces]
  rfl

end AsyncLogging

end VServer
