import VServer.Lib.NextFit
import VServer.Log.Lines

/-!
# How much memory the log takes

The buffers are as large as they are, whatever is in them, and `append` makes new ones for as long as
the background thread does not come. A buffer is given up for a line that does not fit into it, so two
that follow each other are filled by half, on the whole; a line that is longer than a buffer is dropped
and leaves one behind all the same. The background thread copies what it has swapped out into one text
before it gives up the buffers. So the log takes four buffers, and beyond these no more than three times
of what it has not written yet (`memory_bounded`).
-/

namespace VServer

namespace AsyncLogging

open Machine NextFit

def allocated (s : AsyncLogging) : Nat :=
  s.curBuffer.toList.length + s.nextBuffer.toList.length + s.newBuffer1.toList.length +
    s.newBuffer2.toList.length + s.buffers.length + s.buffersToWrite.length

/-- The bytes of the buffers and of the text of `output`, which is put together while the buffers it is
made of are still there. -/
def memory (s : AsyncLogging) : Nat := kLargeBuffer * s.allocated + s.swappedOut.length

/-- How many lines do not fit into any buffer. -/
def oversized (lines : List (List Byte)) : Nat :=
  lines.countP fun line => decide (kLargeBuffer ≤ line.length)

/-! ## The buffers that were filled -/

def fills (buffers : List LogBuffer) : List Nat := buffers.map FixedBuffer.length

theorem fills_append (buffers buffers' : List LogBuffer) :
    fills (buffers ++ buffers') = fills buffers ++ fills buffers' := List.map_append

theorem sum_fills (buffers : List LogBuffer) : (fills buffers).sum = (contents buffers).length := by
  rw [fills, contents, List.length_flatten, List.map_map]
  rfl

theorem oversized_concat (lines : List (List Byte)) (line : List Byte) :
    oversized (lines ++ [line]) = oversized lines + if kLargeBuffer ≤ line.length then 1 else 0 := by
  simp [oversized, List.countP_append, List.countP_singleton]

/-- Buffers that do not fill one together were left for a line that is too long. -/
def Packed (s : AsyncLogging) : Prop :=
  gaps kLargeBuffer (fills (s.buffers ++ s.curBuffer.toList)) +
    gaps kLargeBuffer (fills s.buffersToWrite) ≤ oversized s.lines

variable {s s' : AsyncLogging} {label : Label}

theorem init_packed : Packed init := by
  simp [Packed, init, fills]

theorem appendLine_packed {line : List Byte} (hspares : Spares s) (hpacked : Packed s)
    (h : s.appendLine line = .ok s') : Packed s' := by
  obtain ⟨cur, hcur, ⟨hfits, rfl⟩ | ⟨hfull, rfl⟩⟩ := appendLine_inv h
  · -- the last buffer gets longer
    have hlonger : cur.length ≤ (cur.append line).length := by
      simp [FixedBuffer.length, FixedBuffer.data_append_of_lt hfits]
    have hlast := gaps_last_le (n := kLargeBuffer) (fills s.buffers) hlonger
    simp only [Packed, hcur, oversized_concat, Option.toList_some, fills_append] at hpacked ⊢
    simp only [fills, List.map_cons, List.map_nil] at hpacked hlast ⊢
    omega
  · have hnew := gaps_concat (n := kLargeBuffer) (fills s.buffers) cur.length
      ((s.nextBuffer.getD .empty).append line).length
    have hlength : ((s.nextBuffer.getD .empty).append line).length =
        if line.length < kLargeBuffer then line.length else 0 := by
      rw [FixedBuffer.length, FixedBuffer.data_append_of_empty hspares.next_getD]
      split_ifs
      all_goals rfl
    have hroom : kLargeBuffer ≤ cur.length + line.length := by
      have hle := cur.le
      simp only [FixedBuffer.avail, FixedBuffer.length] at hfull ⊢
      omega
    simp only [Packed, hcur, oversized_concat, Option.toList_some, fills_append, List.append_assoc] at hpacked ⊢
    simp only [fills, List.map_cons, List.map_nil, List.singleton_append] at hpacked hnew ⊢
    rw [hnew, hlength]
    split_ifs
    all_goals omega

theorem swap_packed (hspares : Spares s) (hphase : s.phase = .locking ∨ s.phase = .waiting)
    (hpacked : Packed s) (h : s.swap = .ok s') : Packed s' := by
  obtain ⟨hspare, -, hcleared⟩ := hspares.held hphase
  obtain ⟨b, hfirst, -⟩ := isSpare_iff.mp hspare
  obtain ⟨cur, hcur, rfl⟩ := swap_inv h
  simp only [Packed, hcur, hfirst, hcleared, Option.toList_some, List.nil_append] at hpacked ⊢
  simp only [fills, List.map_cons, List.map_nil, gaps_singleton, gaps_nil] at hpacked ⊢
  omega

theorem step_packed (hspares : Spares s) (hpacked : Packed s) (h : step s label = .ok s') :
    Packed s' := by
  cases step_inv h with
  | append happend => exact appendLine_packed hspares hpacked happend
  | lock hphase _ hswap | wake hphase hswap =>
    exact swap_packed hspares (by simp [hphase]) hpacked hswap
  | recycle hphase hrecycle =>
    obtain ⟨b₁, b₂, -, -, hok⟩ := hspares.recycle hphase
    rw [hok] at hrecycle
    cases hrecycle
    exact le_trans (Nat.add_le_add_left (Nat.zero_le _) _) hpacked
  | _ => exact hpacked

/-! ## The bound -/

theorem Spares.allocated_le (hspares : Spares s) :
    s.allocated ≤ s.buffers.length + (s.buffersToWrite.length - 1) + 4 := by
  have hone : ∀ b : Option LogBuffer, b.toList.length ≤ 1 := by
    intro b
    cases b <;> simp
  have hcur := hone s.curBuffer
  have hnext := hone s.nextBuffer
  have hfirst := hone s.newBuffer1
  have hsecond := hone s.newBuffer2
  have hwriter := hspares.writer
  unfold allocated
  cases hphase : s.phase with
  | swapped =>
    -- the first spare buffer is in use
    rw [hphase] at hwriter
    have hnone : s.newBuffer1.toList.length = 0 := by simp [hwriter.1]
    omega
  | new | starting | ended =>
    rw [hphase] at hwriter
    have hempty : s.buffersToWrite.length = 0 := by
      rw [show s.buffersToWrite = [] from hwriter, List.length_nil]
    omega
  | test | locking | waiting | writing output =>
    rw [hphase] at hwriter
    have hempty : s.buffersToWrite.length = 0 := by rw [hwriter.2.2, List.length_nil]
    omega

theorem Spares.swapped_le (hspares : Spares s) :
    kLargeBuffer * (s.buffersToWrite.length - 1) ≤
      2 * s.swappedOut.length + kLargeBuffer * gaps kLargeBuffer (fills s.buffersToWrite) := by
  have hhalf := mul_length_le kLargeBuffer (fills s.buffersToWrite)
  have hlength : (fills s.buffersToWrite).length = s.buffersToWrite.length := List.length_map _
  have hwriter := hspares.writer
  rw [sum_fills, hlength] at hhalf
  unfold swappedOut
  cases hphase : s.phase with
  | swapped =>
    dsimp only
    rw [Nat.mul_sub]
    rw [Nat.mul_add] at hhalf
    omega
  | new | starting | ended =>
    rw [hphase] at hwriter
    simp [show s.buffersToWrite = [] from hwriter]
  | test | locking | waiting | writing output =>
    rw [hphase] at hwriter
    simp [hwriter.2.2]

theorem run_packed {labels : List Label} (hrun : run step init labels = .ok s) : Packed s := by
  have hkeep : ∀ (s : AsyncLogging) (label : Label) (s' : AsyncLogging), Spares s ∧ Packed s →
      True → step s label = .ok s' → Spares s' ∧ Packed s' :=
    fun _ _ _ ⟨hspares, hpacked⟩ _ h => ⟨step_spares hspares h, step_packed hspares hpacked h⟩
  exact (run_inv hkeep ⟨init_spares, init_packed⟩ (along_of_forall (fun _ _ => trivial) labels) hrun).2

/-- **The log takes four buffers, and beyond these no more than twice of what it has not written**, and
once more of what it is writing. Each line that is too long for a buffer may leave one more. -/
theorem memory_bounded {labels : List Label} (hrun : run step init labels = .ok s) :
    s.memory + 2 * s.os.length ≤
        2 * (kept s.lines).flatten.length + s.swappedOut.length + kLargeBuffer * (oversized s.lines + 4) ∧
      s.os.length + s.swappedOut.length ≤ (kept s.lines).flatten.length := by
  obtain ⟨hspares, hconserved⟩ := run_conserved hrun
  have hgaps := Nat.mul_le_mul_left kLargeBuffer (run_packed hrun)
  have hbuffers := Nat.mul_le_mul_left kLargeBuffer hspares.allocated_le
  have hswapped := hspares.swapped_le
  have hfront : kLargeBuffer * s.buffers.length ≤ 2 * s.buffered.length +
      kLargeBuffer * gaps kLargeBuffer (fills (s.buffers ++ s.curBuffer.toList)) := by
    have hhalf := mul_length_le kLargeBuffer (fills (s.buffers ++ s.curBuffer.toList))
    obtain ⟨cur, hcur⟩ := Option.isSome_iff_exists.mp hspares.current
    rw [sum_fills, contents_append] at hhalf
    simp only [fills, List.length_map, List.length_append, hcur, Option.toList_some,
      List.length_singleton, Nat.mul_add] at hhalf ⊢
    simp only [buffered, hcur, Option.toList_some, List.length_append]
    omega
  have hbytes : s.os.length + s.swappedOut.length + s.buffered.length =
      (kept s.lines).flatten.length := by
    rw [← hconserved, List.length_append, List.length_append]
  refine ⟨?_, by omega⟩
  rw [memory]
  simp only [Nat.mul_add] at hgaps hbuffers ⊢
  omega

/-- Five lines of more than half a buffer pile up while the background thread waits, and are swapped out. -/
theorem memory_bounded_backlog :
    ∃ line s, run step init [.start, .countDown, .test, .lock, .append line, .append line, .append line,
        .append line, .append line, .wake] = .ok s ∧
      s.memory = 38000005 ∧ oversized s.lines = 0 ∧ (kept s.lines).flatten.length = 10000005 ∧
      s.memory + 2 * s.os.length ≤
        2 * (kept s.lines).flatten.length + s.swappedOut.length + kLargeBuffer * (oversized s.lines + 4) := by
  obtain ⟨line, hline⟩ : ∃ line : List Byte, line.length = 2000001 :=
    ⟨List.replicate 2000001 0, List.length_replicate⟩
  obtain ⟨full, hfull⟩ : ∃ full : LogBuffer, full = FixedBuffer.empty.append line := ⟨_, rfl⟩
  have hshort : line.length < (FixedBuffer.empty : LogBuffer).avail := by
    rw [hline]
    decide
  have hdata : full.data = line := by
    rw [hfull, FixedBuffer.data_append_of_lt hshort]
    rfl
  have hlong : ¬line.length < full.avail := by
    rw [FixedBuffer.avail, hdata, hline]
    decide
  have hrun : run step init [.start, .countDown, .test, .lock, .append line, .append line, .append line,
      .append line, .append line, .wake] = .ok
      { running := true
        curBuffer := some .empty
        nextBuffer := some .empty
        buffers := []
        os := []
        phase := .swapped
        newBuffer1 := none
        newBuffer2 := none
        buffersToWrite := [full, full, full, full, full]
        stop := .running
        lines := [line, line, line, line, line] } := by
    simp [run, step, appendLine, swap, init, hshort, hlong, hfull.symm, isSpare_empty, Except.mapError]
  have hkept : kept [line, line, line, line, line] = [line, line, line, line, line] := by
    simp [kept, hline, kLargeBuffer]
  have hoversized : oversized [line, line, line, line, line] = 0 := by
    simp [oversized, hline, kLargeBuffer]
  have hcontents : (contents [full, full, full, full, full]).length = 10000005 := by
    simp [contents, hdata, hline]
  refine ⟨line, _, hrun, ?_, hoversized, ?_, (memory_bounded hrun).1⟩
  · show kLargeBuffer * 7 + (contents [full, full, full, full, full]).length = 38000005
    rw [hcontents]
    rfl
  · simp [hkept, hline]

end AsyncLogging

end VServer
