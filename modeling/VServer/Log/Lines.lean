import VServer.Log.AsyncLogging

/-!
# No line is lost while the log runs

The bytes of `m_os`, of the buffers that were swapped out, of `m_buffers` and of `m_curBuffer`, in
this order, are those of the lines in the order of the mutex; only a line that does not fit into an
empty buffer is dropped. Beside it stands where the writer's two spare buffers are (`Spares`), from
which no assertion of `threadFunc` fails.
-/

namespace VServer

namespace FixedBuffer

variable {size : Nat}

@[simp] theorem data_empty : (empty : FixedBuffer size).data = [] := rfl

@[simp] theorem data_reset (b : FixedBuffer size) : b.reset.data = [] := rfl

theorem data_append_of_lt {b : FixedBuffer size} {line : List Byte} (h : line.length < b.avail) :
    (b.append line).data = b.data ++ line := by
  rw [append, dif_pos h]

theorem append_of_not_lt {b : FixedBuffer size} {line : List Byte} (h : ¬line.length < b.avail) :
    b.append line = b := by
  rw [append, dif_neg h]

theorem data_append_of_empty {b : FixedBuffer size} (hb : b.data = []) (line : List Byte) :
    (b.append line).data = if line.length < size then line else [] := by
  have havail : b.avail = size := by simp [avail, hb]
  by_cases h : line.length < size
  · rw [if_pos h, data_append_of_lt (by omega), hb, List.nil_append]
  · rw [if_neg h, append_of_not_lt (by omega), hb]

theorem avail_le (b : FixedBuffer size) : b.avail ≤ size := Nat.sub_le _ _

end FixedBuffer

namespace AsyncLogging

open Machine

/-! ## What a step can do -/

/-- The steps, one by one, with the guards they were taken under. -/
inductive Step (s : AsyncLogging) : Label → AsyncLogging → Prop where
  | append {line : List Byte} {s' : AsyncLogging} (h : s.appendLine line = .ok s') :
      Step s (.append line) s'
  | start (h : s.phase = .new) : Step s .start { s with running := true, phase := .starting }
  | countDown (h : s.phase = .starting) (hrunning : s.running = true) :
      Step s .countDown
        { s with newBuffer1 := some .empty, newBuffer2 := some .empty, phase := .test }
  | enter (h : s.phase = .test) (hrunning : s.running = true) :
      Step s .test { s with phase := .locking }
  | leave (h : s.phase = .test) (hrunning : s.running = false) :
      Step s .test { s with phase := .ended }
  | wait (h : s.phase = .locking) (hbuffers : s.buffers = []) :
      Step s .lock { s with phase := .waiting }
  | lock {s' : AsyncLogging} (h : s.phase = .locking) (hbuffers : s.buffers ≠ [])
      (hswap : s.swap = .ok s') : Step s .lock s'
  | wake {s' : AsyncLogging} (h : s.phase = .waiting) (hswap : s.swap = .ok s') : Step s .wake s'
  | recycle {s' : AsyncLogging} (h : s.phase = .swapped) (hrecycle : s.recycle = .ok s') :
      Step s .recycle s'
  | write {output : List Byte} (h : s.phase = .writing output) :
      Step s .write { s with os := s.os ++ output, phase := .test }
  | stop (hnew : s.phase ≠ .new) (hstarting : s.phase ≠ .starting) (h : s.stop = .running) :
      Step s .stop { s with running := false, stop := .joining }
  | join (h : s.phase = .ended) (hstop : s.stop = .joining) :
      Step s .join { s with stop := .stopped }

theorem mapError_eq_ok {α : Type} {x : Except Fault α} {a : α}
    (h : x.mapError Halt.fault = .ok a) : x = .ok a := by
  cases x with
  | error e => cases h
  | ok b => exact congrArg _ (Except.ok.inj h)

theorem step_inv {s s' : AsyncLogging} {label : Label} (h : step s label = .ok s') :
    Step s label s' := by
  unfold step at h
  split at h
  · exact .append (mapError_eq_ok h)
  · rename_i hphase
    cases h
    exact .start hphase
  · rename_i hphase
    split at h
    · rename_i hrunning
      cases h
      exact .countDown hphase hrunning
    · cases h
  · rename_i hphase
    split at h
    · rename_i hrunning
      split at h
      · split at h
        · cases h
          exact .enter hphase hrunning
        · cases h
      · cases h
    · rename_i hrunning
      cases h
      exact .leave hphase (by simpa using hrunning)
  · rename_i hphase
    split at h
    · rename_i hbuffers
      cases h
      exact .wait hphase hbuffers
    · rename_i hbuffers
      exact .lock hphase hbuffers (mapError_eq_ok h)
  · rename_i hphase
    exact .wake hphase (mapError_eq_ok h)
  · rename_i hphase
    exact .recycle hphase (mapError_eq_ok h)
  · rename_i hphase
    cases h
    exact .write hphase
  · cases h
  · cases h
  · rename_i hnew hstarting
    split at h
    · rename_i hstop
      cases h
      exact .stop hnew hstarting hstop
    · cases h
  · rename_i hphase
    split at h
    · rename_i hstop
      cases h
      exact .join hphase hstop
    · cases h
  · cases h

theorem appendLine_inv {s s' : AsyncLogging} {line : List Byte} (h : s.appendLine line = .ok s') :
    ∃ cur, s.curBuffer = some cur ∧
      (line.length < cur.avail ∧
          s' = { s with curBuffer := some (cur.append line), lines := s.lines ++ [line] } ∨
        ¬line.length < cur.avail ∧
          s' = { s with
            buffers := s.buffers ++ [cur]
            nextBuffer := none
            curBuffer := some ((s.nextBuffer.getD .empty).append line)
            lines := s.lines ++ [line] }) := by
  unfold appendLine at h
  split at h
  · cases h
  · rename_i cur hcur
    refine ⟨cur, hcur, ?_⟩
    split at h
    · rename_i hfits
      exact .inl ⟨hfits, (Except.ok.inj h).symm⟩
    · rename_i hfull
      exact .inr ⟨hfull, (Except.ok.inj h).symm⟩

theorem swap_inv {s s' : AsyncLogging} (h : s.swap = .ok s') :
    ∃ cur, s.curBuffer = some cur ∧
      s' = { s with
        curBuffer := s.newBuffer1
        newBuffer1 := none
        buffers := s.buffersToWrite
        buffersToWrite := s.buffers ++ [cur]
        nextBuffer := s.nextBuffer.or s.newBuffer2
        newBuffer2 := if s.nextBuffer.isSome then s.newBuffer2 else none
        phase := .swapped } := by
  unfold swap at h
  split at h
  · cases h
  · rename_i cur hcur
    exact ⟨cur, hcur, (Except.ok.inj h).symm⟩

/-! ## The spare buffers -/

theorem isSpare_iff {spare : Option LogBuffer} :
    isSpare spare = true ↔ ∃ b, spare = some b ∧ b.data = [] := by
  cases spare <;> simp [isSpare, FixedBuffer.length]

theorem isSpare_empty : isSpare (some .empty) = true := isSpare_iff.mpr ⟨_, rfl, rfl⟩

theorem refill_spec {spare : Option LogBuffer} {toWrite : List LogBuffer}
    (h : isSpare spare = true ∨ spare = none ∧ toWrite ≠ []) :
    ∃ b rest, refill spare toWrite = .ok (some b, rest) ∧ b.data = [] ∧
      toWrite.length ≤ rest.length + (if spare = none then 1 else 0) := by
  rcases h with h | ⟨rfl, hne⟩
  · obtain ⟨b, rfl, hb⟩ := isSpare_iff.mp h
    exact ⟨b, toWrite, rfl, hb, by simp⟩
  · have hlast : toWrite.getLast? = some (toWrite.getLast hne) := List.getLast?_eq_some_getLast hne
    refine ⟨(toWrite.getLast hne).reset, toWrite.dropLast, by simp [refill, hlast], rfl, ?_⟩
    simp only [if_pos, List.length_dropLast]
    omega

/-- The two spare buffers and `buffersToWrite` at each point of `threadFunc`. After the swap the
first one is gone, and the second one too if `append` had taken `m_nextBuffer`; then two buffers at
least were swapped out. -/
def WriterSpares (spare₁ spare₂ : Option LogBuffer) (toWrite : List LogBuffer) : WriterPhase → Prop
  | .new | .starting | .ended => toWrite = []
  | .test | .locking | .waiting | .writing _ =>
    isSpare spare₁ = true ∧ isSpare spare₂ = true ∧ toWrite = []
  | .swapped =>
    spare₁ = none ∧ toWrite ≠ [] ∧ (isSpare spare₂ = true ∨ spare₂ = none ∧ 2 ≤ toWrite.length)

structure Spares (s : AsyncLogging) : Prop where
  current : s.curBuffer.isSome = true
  next : ∀ b, s.nextBuffer = some b → b.data = []
  /-- `append` takes `m_nextBuffer` only when it fills `m_buffers`. -/
  taken : s.nextBuffer = none → s.buffers ≠ []
  writer : WriterSpares s.newBuffer1 s.newBuffer2 s.buffersToWrite s.phase

theorem init_spares : Spares init where
  current := rfl
  next b h := by
    cases h
    rfl
  taken h := by cases h
  writer := rfl

theorem Spares.next_getD {s : AsyncLogging} (hspares : Spares s) :
    (s.nextBuffer.getD .empty).data = [] := by
  cases hnext : s.nextBuffer with
  | none => rfl
  | some b => exact hspares.next b hnext

theorem Spares.takeBack {s : AsyncLogging} (hspares : Spares s) (hphase : s.phase = .swapped) :
    ∃ b₁ rest, refill s.newBuffer1 (s.buffersToWrite.take 2) = .ok (some b₁, rest) ∧
      b₁.data = [] ∧ (isSpare s.newBuffer2 = true ∨ s.newBuffer2 = none ∧ rest ≠ []) := by
  have hwriter := hspares.writer
  rw [hphase] at hwriter
  obtain ⟨hfirst, hne, hsecond⟩ := hwriter
  have hpos : 0 < s.buffersToWrite.length := List.length_pos_iff.mpr hne
  have htake : (s.buffersToWrite.take 2).length = min 2 s.buffersToWrite.length :=
    List.length_take
  have hback : isSpare s.newBuffer1 = true ∨ s.newBuffer1 = none ∧ s.buffersToWrite.take 2 ≠ [] :=
    .inr ⟨hfirst, List.length_pos_iff.mp (by omega)⟩
  obtain ⟨b₁, rest, hrefill, hb₁, hrest⟩ := refill_spec hback
  rw [if_pos hfirst] at hrest
  exact ⟨b₁, rest, hrefill, hb₁,
    hsecond.imp_right fun h => ⟨h.1, List.length_pos_iff.mp (by omega)⟩⟩

theorem Spares.toWrite_ne_nil {s : AsyncLogging} (hspares : Spares s) (hphase : s.phase = .swapped) :
    s.buffersToWrite ≠ [] := by
  have hwriter := hspares.writer
  rw [hphase] at hwriter
  exact hwriter.2.1

theorem Spares.recycle {s : AsyncLogging} (hspares : Spares s) (hphase : s.phase = .swapped) :
    ∃ b₁ b₂, b₁.data = [] ∧ b₂.data = [] ∧
      s.recycle = .ok { s with
        newBuffer1 := some b₁
        newBuffer2 := some b₂
        buffersToWrite := []
        phase := .writing (s.buffersToWrite.map (·.data)).flatten } := by
  obtain ⟨b₁, rest, hrefill₁, hb₁, hleft⟩ := hspares.takeBack hphase
  obtain ⟨b₂, left, hrefill₂, hb₂, -⟩ := refill_spec hleft
  refine ⟨b₁, b₂, hb₁, hb₂, ?_⟩
  rw [AsyncLogging.recycle, if_neg (hspares.toWrite_ne_nil hphase), hrefill₁]
  simp [hrefill₂]

theorem Spares.held {s : AsyncLogging} (hspares : Spares s)
    (hphase : s.phase = .locking ∨ s.phase = .waiting) :
    isSpare s.newBuffer1 = true ∧ isSpare s.newBuffer2 = true ∧ s.buffersToWrite = [] := by
  have hwriter := hspares.writer
  rcases hphase with hphase | hphase <;> rwa [hphase] at hwriter

theorem Spares.swap {s s' : AsyncLogging} (hspares : Spares s)
    (hphase : s.phase = .locking ∨ s.phase = .waiting) (h : s.swap = .ok s') : Spares s' := by
  obtain ⟨cur, -, rfl⟩ := swap_inv h
  obtain ⟨hfirst, hsecond, -⟩ := hspares.held hphase
  obtain ⟨b₁, hb₁, -⟩ := isSpare_iff.mp hfirst
  obtain ⟨b₂, hb₂, hempty⟩ := isSpare_iff.mp hsecond
  cases hnext : s.nextBuffer with
  | none =>
    have hpos : 0 < s.buffers.length := List.length_pos_iff.mpr (hspares.taken hnext)
    exact ⟨by simp [hb₁], by simp [hb₂, hempty], by simp [hb₂],
      rfl, by simp, .inr ⟨rfl, by simp; omega⟩⟩
  | some b =>
    exact ⟨by simp [hb₁], by simpa using hspares.next b hnext, by simp,
      rfl, by simp, .inl hsecond⟩

/-- **Every step keeps the spare buffers where they belong.** -/
theorem step_spares {s s' : AsyncLogging} {label : Label} (hspares : Spares s)
    (h : step s label = .ok s') : Spares s' := by
  have hwriter := hspares.writer
  cases step_inv h with
  | append happend =>
    obtain ⟨cur, -, ⟨-, rfl⟩ | ⟨-, rfl⟩⟩ := appendLine_inv happend
    · exact ⟨rfl, hspares.next, hspares.taken, hwriter⟩
    · exact ⟨rfl, nofun, fun _ => by simp, hwriter⟩
  | start hphase =>
    rw [hphase] at hwriter
    exact ⟨hspares.current, hspares.next, hspares.taken, hwriter⟩
  | countDown hphase =>
    rw [hphase] at hwriter
    exact ⟨hspares.current, hspares.next, hspares.taken, isSpare_empty, isSpare_empty, hwriter⟩
  | enter hphase | wait hphase =>
    rw [hphase] at hwriter
    exact ⟨hspares.current, hspares.next, hspares.taken, hwriter⟩
  | leave hphase =>
    rw [hphase] at hwriter
    exact ⟨hspares.current, hspares.next, hspares.taken, hwriter.2.2⟩
  | lock hphase _ hswap => exact hspares.swap (.inl hphase) hswap
  | wake hphase hswap => exact hspares.swap (.inr hphase) hswap
  | recycle hphase hrecycle =>
    obtain ⟨b₁, b₂, hb₁, hb₂, hok⟩ := hspares.recycle hphase
    rw [hok] at hrecycle
    cases hrecycle
    exact ⟨hspares.current, hspares.next, hspares.taken, isSpare_iff.mpr ⟨b₁, rfl, hb₁⟩,
      isSpare_iff.mpr ⟨b₂, rfl, hb₂⟩, rfl⟩
  | write hphase =>
    rw [hphase] at hwriter
    exact ⟨hspares.current, hspares.next, hspares.taken, hwriter⟩
  | stop => exact ⟨hspares.current, hspares.next, hspares.taken, hwriter⟩
  | join => exact ⟨hspares.current, hspares.next, hspares.taken, hwriter⟩

/-! ## The bytes -/

def contents (buffers : List LogBuffer) : List Byte := (buffers.map (·.data)).flatten

@[simp] theorem contents_nil : contents [] = [] := rfl

@[simp] theorem contents_append (buffers buffers' : List LogBuffer) :
    contents (buffers ++ buffers') = contents buffers ++ contents buffers' := by
  simp [contents]

@[simp] theorem contents_singleton (b : LogBuffer) : contents [b] = b.data := by
  simp [contents]

/-- What was swapped out of the buffers and is not in `m_os` yet. -/
def swappedOut (s : AsyncLogging) : List Byte :=
  match s.phase with
  | .swapped => contents s.buffersToWrite
  | .writing output => output
  | _ => []

/-- What lies in `m_buffers` and in `m_curBuffer`. -/
def buffered (s : AsyncLogging) : List Byte :=
  contents s.buffers ++ contents s.curBuffer.toList

/-- The lines that fit into an empty buffer. -/
def kept (lines : List (List Byte)) : List (List Byte) :=
  lines.filter fun line => decide (line.length < kLargeBuffer)

theorem flatten_kept_concat (lines : List (List Byte)) (line : List Byte) :
    (kept (lines ++ [line])).flatten =
      (kept lines).flatten ++ if line.length < kLargeBuffer then line else [] := by
  unfold kept
  by_cases h : line.length < kLargeBuffer <;> simp [h]

/-- The bytes that are on their way are those of the lines that were kept. -/
def Conserved (s : AsyncLogging) : Prop :=
  s.os ++ s.swappedOut ++ s.buffered = (kept s.lines).flatten

theorem appendLine_buffered {s s' : AsyncLogging} {line : List Byte} (hspares : Spares s)
    (h : s.appendLine line = .ok s') :
    s'.buffered = s.buffered ++ if line.length < kLargeBuffer then line else [] := by
  obtain ⟨cur, hcur, ⟨hfits, rfl⟩ | ⟨hfull, rfl⟩⟩ := appendLine_inv h
  · have hshort : line.length < kLargeBuffer := Nat.lt_of_lt_of_le hfits cur.avail_le
    simp [buffered, hcur, FixedBuffer.data_append_of_lt hfits, hshort]
  · simp [buffered, hcur, FixedBuffer.data_append_of_empty hspares.next_getD]

theorem appendLine_frame {s s' : AsyncLogging} {line : List Byte} (h : s.appendLine line = .ok s') :
    s'.os = s.os ∧ s'.phase = s.phase ∧ s'.running = s.running ∧ s'.stop = s.stop ∧
      s'.lines = s.lines ++ [line] := by
  obtain ⟨cur, -, ⟨-, rfl⟩ | ⟨-, rfl⟩⟩ := appendLine_inv h <;> exact ⟨rfl, rfl, rfl, rfl, rfl⟩

theorem appendLine_swappedOut {s s' : AsyncLogging} {line : List Byte}
    (h : s.appendLine line = .ok s') : s'.swappedOut = s.swappedOut := by
  obtain ⟨cur, -, ⟨-, rfl⟩ | ⟨-, rfl⟩⟩ := appendLine_inv h <;> rfl

theorem swap_spec {s s' : AsyncLogging} (hspares : Spares s)
    (hphase : s.phase = .locking ∨ s.phase = .waiting) (h : s.swap = .ok s') :
    s'.os = s.os ∧ s'.swappedOut = s.buffered ∧ s'.buffered = [] ∧ s'.lines = s.lines := by
  obtain ⟨hspare, -, hcleared⟩ := hspares.held hphase
  obtain ⟨b, hfirst, hb⟩ := isSpare_iff.mp hspare
  obtain ⟨cur, hcur, rfl⟩ := swap_inv h
  refine ⟨rfl, ?_, ?_, rfl⟩
  · simp [swappedOut, buffered, hcur]
  · simp [buffered, hcleared, hfirst, hb]

theorem step_conserved {s s' : AsyncLogging} {label : Label} (hspares : Spares s)
    (hconserved : Conserved s) (h : step s label = .ok s') : Conserved s' := by
  unfold Conserved at hconserved ⊢
  cases step_inv h with
  | append happend =>
    obtain ⟨hos, -, -, -, hlines⟩ := appendLine_frame happend
    rw [appendLine_buffered hspares happend, hos, appendLine_swappedOut happend, hlines,
      flatten_kept_concat, ← hconserved, List.append_assoc (s.os ++ s.swappedOut)]
  | lock hphase _ hswap | wake hphase hswap =>
    obtain ⟨hos, hswapped, hbuffered, hlines⟩ := swap_spec hspares (by simp [hphase]) hswap
    have hbefore : s.swappedOut = [] := by rw [swappedOut, hphase]
    rw [hbefore, List.append_nil] at hconserved
    rw [hos, hswapped, hbuffered, hlines, List.append_nil, hconserved]
  | recycle hphase hrecycle =>
    obtain ⟨b₁, b₂, -, -, hok⟩ := hspares.recycle hphase
    rw [hok] at hrecycle
    cases hrecycle
    rw [swappedOut, hphase] at hconserved
    exact hconserved
  | @write output hphase =>
    rw [swappedOut, hphase] at hconserved
    show s.os ++ output ++ [] ++ s.buffered = _
    rw [List.append_nil, hconserved]
  | start hphase | countDown hphase | enter hphase | leave hphase | wait hphase =>
    rw [swappedOut, hphase] at hconserved
    exact hconserved
  | stop | join => exact hconserved

/-! ## Runs -/

/-- The lines of a run, in the order in which `append` held the mutex. -/
def appended (labels : List Label) : List (List Byte) :=
  labels.filterMap fun
    | .append line => some line
    | _ => none

theorem step_lines {s s' : AsyncLogging} {label : Label} (hspares : Spares s)
    (h : step s label = .ok s') : s'.lines = s.lines ++ appended [label] := by
  cases step_inv h with
  | append happend =>
    obtain ⟨-, -, -, -, hlines⟩ := appendLine_frame happend
    exact hlines
  | lock hphase _ hswap | wake hphase hswap =>
    obtain ⟨-, -, -, hlines⟩ := swap_spec hspares (by simp [hphase]) hswap
    rw [hlines]
    exact (List.append_nil _).symm
  | recycle hphase hrecycle =>
    obtain ⟨b₁, b₂, -, -, hok⟩ := hspares.recycle hphase
    rw [hok] at hrecycle
    cases hrecycle
    exact (List.append_nil _).symm
  | _ => exact (List.append_nil _).symm

/-- While the thread starts the log runs; `stop` comes later. -/
def Started (s : AsyncLogging) : Prop := s.phase = .starting → s.running = true

theorem step_started {s s' : AsyncLogging} {label : Label} (hspares : Spares s)
    (hstarted : Started s) (h : step s label = .ok s') : Started s' := by
  intro hphase
  cases step_inv h with
  | append happend =>
    obtain ⟨-, hsame, hrunning, -, -⟩ := appendLine_frame happend
    rw [hrunning]
    exact hstarted (hsame ▸ hphase)
  | lock _ _ hswap | wake _ hswap =>
    obtain ⟨cur, -, rfl⟩ := swap_inv hswap
    cases hphase
  | recycle hbefore hrecycle =>
    obtain ⟨b₁, b₂, -, -, hok⟩ := hspares.recycle hbefore
    rw [hok] at hrecycle
    cases hrecycle
    cases hphase
  | stop _ hstarting => exact absurd hphase hstarting
  | start => rfl
  | join hended =>
    rw [hended] at hphase
    cases hphase
  | _ => cases hphase

theorem Spares.appendLine {s : AsyncLogging} (hspares : Spares s) (line : List Byte) :
    ∃ s', s.appendLine line = .ok s' := by
  obtain ⟨cur, hcur⟩ := Option.isSome_iff_exists.mp hspares.current
  unfold AsyncLogging.appendLine
  rw [hcur]
  dsimp only
  split <;> exact ⟨_, rfl⟩

theorem Spares.swap_ok {s : AsyncLogging} (hspares : Spares s) : ∃ s', s.swap = .ok s' := by
  obtain ⟨cur, hcur⟩ := Option.isSome_iff_exists.mp hspares.current
  unfold AsyncLogging.swap
  rw [hcur]
  exact ⟨_, rfl⟩

/-- **No assertion of the log fails**, and no null buffer is used. -/
theorem step_ne_fault {s : AsyncLogging} (hspares : Spares s) (hstarted : Started s) (label : Label)
    (f : Fault) : step s label ≠ .error (.fault f) := by
  have hwriter := hspares.writer
  obtain ⟨swapped, hswap⟩ := hspares.swap_ok
  unfold step
  split
  · rename_i line
    obtain ⟨s', happend⟩ := hspares.appendLine line
    rw [happend]
    nofun
  · nofun
  · rename_i hphase
    rw [if_pos (hstarted hphase)]
    nofun
  · rename_i hphase
    rw [hphase] at hwriter
    rw [hwriter.1, hwriter.2.1, hwriter.2.2]
    split <;> nofun
  · rw [hswap]
    split <;> nofun
  · rw [hswap]
    nofun
  · rename_i hphase
    obtain ⟨b₁, b₂, -, -, hok⟩ := hspares.recycle hphase
    rw [hok]
    nofun
  · nofun
  · nofun
  · nofun
  · split <;> nofun
  · split <;> nofun
  · nofun

/-- The spare buffers and the bytes, in every state that the log can be in. -/
theorem run_conserved {labels : List Label} {s : AsyncLogging}
    (hrun : run step init labels = .ok s) : Spares s ∧ Conserved s := by
  have hkeep : ∀ (s : AsyncLogging) (label : Label) (s' : AsyncLogging), Spares s ∧ Conserved s →
      True → step s label = .ok s' → Spares s' ∧ Conserved s' :=
    fun _ _ _ ⟨hspares, hconserved⟩ _ h =>
      ⟨step_spares hspares h, step_conserved hspares hconserved h⟩
  have hinit : Spares init ∧ Conserved init := ⟨init_spares, rfl⟩
  exact run_inv hkeep hinit (along_of_forall (fun _ _ => trivial) labels) hrun

theorem run_ne_fault (labels : List Label) (f : Fault) :
    run step init labels ≠ .error (.fault f) := by
  intro hrun
  obtain ⟨before, label, after, t, -, hbefore, hstep⟩ := run_eq_error hrun
  have hkeep : ∀ (s : AsyncLogging) (label : Label) (s' : AsyncLogging), Spares s ∧ Started s →
      True → step s label = .ok s' → Spares s' ∧ Started s' :=
    fun _ _ _ ⟨hspares, hstarted⟩ _ h =>
      ⟨step_spares hspares h, step_started hspares hstarted h⟩
  have hinit : Spares init ∧ Started init := ⟨init_spares, fun h => by cases h⟩
  obtain ⟨hspares, hstarted⟩ :=
    run_inv hkeep hinit (along_of_forall (fun _ _ => trivial) before) hbefore
  exact step_ne_fault hspares hstarted label f hstep

/-- **The writer's buffers never run dry.** Every state here is one in which the mutex is free, so
`m_curBuffer` is there; `m_nextBuffer` is gone only while `m_buffers` has something. At the head of
the loop the two spare buffers are there and empty and `buffersToWrite` is empty, and behind the swap
`buffersToWrite` has a buffer wherever one is taken back. -/
theorem buffers_recycled (labels : List Label) :
    (∀ f, run step init labels ≠ .error (.fault f)) ∧
      ∀ s, run step init labels = .ok s →
        s.curBuffer ≠ none ∧
        (s.nextBuffer = none → s.buffers ≠ []) ∧
        (s.phase = .test →
          isSpare s.newBuffer1 = true ∧ isSpare s.newBuffer2 = true ∧ s.buffersToWrite = []) ∧
        (s.phase = .swapped →
          s.buffersToWrite ≠ [] ∧
          (s.newBuffer1 = none → s.buffersToWrite.take 2 ≠ []) ∧
          ∃ b₁ rest, refill s.newBuffer1 (s.buffersToWrite.take 2) = .ok (some b₁, rest) ∧
            (s.newBuffer2 = none → rest ≠ [])) := by
  refine ⟨run_ne_fault labels, fun s hrun => ?_⟩
  obtain ⟨hspares, -⟩ := run_conserved hrun
  refine ⟨Option.isSome_iff_ne_none.mp hspares.current, hspares.taken, fun hphase => ?_,
    fun hphase => ?_⟩
  · have hwriter := hspares.writer
    rwa [hphase] at hwriter
  · have hne := hspares.toWrite_ne_nil hphase
    obtain ⟨b₁, rest, hrefill, -, hleft⟩ := hspares.takeBack hphase
    refine ⟨hne, fun _ => by simpa using hne, b₁, rest, hrefill, fun hnone => ?_⟩
    rcases hleft with hspare | ⟨-, hrest⟩
    · rw [hnone] at hspare
      cases hspare
    · exact hrest

/-- A line that does not fit takes `m_nextBuffer` away, and both spare buffers with it. -/
theorem buffers_recycled_full :
    ∃ line s, run step init [.start, .countDown, .test, .append line, .lock] = .ok s ∧
      s.phase = .swapped ∧ s.newBuffer1 = none ∧ s.newBuffer2 = none ∧
      ∃ b₁ rest, refill s.newBuffer1 (s.buffersToWrite.take 2) = .ok (some b₁, rest) ∧
        (s.newBuffer2 = none → rest ≠ []) := by
  obtain ⟨line, hline⟩ : ∃ line : List Byte, line.length = kLargeBuffer :=
    ⟨List.replicate kLargeBuffer 0, List.length_replicate⟩
  have hlong : ¬line.length < (FixedBuffer.empty : LogBuffer).avail := by
    rw [hline]
    exact Nat.not_lt.mpr (FixedBuffer.avail_le _)
  have hrun : run step init [.start, .countDown, .test, .append line, .lock] = .ok
      { running := true
        curBuffer := some .empty
        nextBuffer := some .empty
        buffers := []
        os := []
        phase := .swapped
        newBuffer1 := none
        newBuffer2 := none
        buffersToWrite := [.empty, FixedBuffer.empty.append line]
        stop := .running
        lines := [line] } := by
    simp [run, step, appendLine, swap, init, hlong, isSpare_empty, Except.mapError]
  obtain ⟨-, hstate⟩ := buffers_recycled [.start, .countDown, .test, .append line, .lock]
  obtain ⟨-, -, -, hswapped⟩ := hstate _ hrun
  exact ⟨line, _, hrun, rfl, rfl, rfl, (hswapped rfl).2.2⟩

theorem run_lines {labels : List Label} {s t : AsyncLogging} (hspares : Spares s)
    (hrun : run step s labels = .ok t) : t.lines = s.lines ++ appended labels := by
  induction labels generalizing s with
  | nil =>
    cases hrun
    exact (List.append_nil _).symm
  | cons label labels ih =>
    obtain ⟨s', hstep, hrest⟩ := run_cons_inv hrun
    have happended : appended (label :: labels) = appended [label] ++ appended labels :=
      List.filterMap_append (l := [label])
    rw [ih (step_spares hspares hstep) hrest, step_lines hspares hstep, happended,
      List.append_assoc]

theorem kept_eq_self {lines : List (List Byte)}
    (h : ∀ line ∈ lines, line.length < kLargeBuffer) : kept lines = lines :=
  List.filter_eq_self.mpr fun line hline => decide_eq_true (h line hline)

/-- **No line is lost, doubled or moved.** At any time what is in `m_os`, what was swapped out, what
lies in `m_buffers` and what lies in `m_curBuffer` are the lines in the order of the mutex. -/
theorem lines_conserved {labels : List Label} {s : AsyncLogging}
    (hshort : ∀ line ∈ appended labels, line.length < kLargeBuffer)
    (hrun : run step init labels = .ok s) :
    s.os ++ s.swappedOut ++ contents s.buffers ++ contents s.curBuffer.toList =
      (appended labels).flatten := by
  obtain ⟨-, hconserved⟩ := run_conserved hrun
  have hlines : s.lines = appended labels := run_lines init_spares hrun
  unfold Conserved buffered at hconserved
  rw [hlines, kept_eq_self hshort, ← List.append_assoc] at hconserved
  exact hconserved

theorem lines_conserved_cycle :
    ∃ s, run step init [.start, .countDown, .append [104, 105], .test, .lock, .append [33], .wake,
        .append [63], .recycle, .write] = .ok s ∧ s.os = [104, 105, 33] ∧
      s.os ++ s.swappedOut ++ contents s.buffers ++ contents s.curBuffer.toList =
        [104, 105, 33, 63] := by
  have hrun : ∃ s, run step init [.start, .countDown, .append [104, 105], .test, .lock,
      .append [33], .wake, .append [63], .recycle, .write] = .ok s ∧ s.os = [104, 105, 33] :=
    eq_ok_of_toOption (by decide)
  obtain ⟨s, hrun, hos⟩ := hrun
  exact ⟨s, hrun, hos, lines_conserved (by decide) hrun⟩

end AsyncLogging

end VServer
