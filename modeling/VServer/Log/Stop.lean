import VServer.Log.Lines

/-!
# What `stop` leaves behind

`threadFunc` looks at `m_running` at the head of its loop only, and nothing is swapped out behind the
loop. What the thread still writes once the flag is down is `owed`: what it has swapped out, or, when
it stands between the test and the swap, all that is buffered. Alone it writes just that and ends
(`finishes`), and no step of others takes any of it away (`run_owed`).
-/

namespace VServer

namespace AsyncLogging

open Machine

/-- Past the test of `m_running`, and in front of the swap. -/
def BeforeSwap (s : AsyncLogging) : Prop := s.phase = .locking ∨ s.phase = .waiting

/-- What the background thread writes to `m_os` when it does not find `m_running` any more. -/
def owed (s : AsyncLogging) : List Byte :=
  match s.phase with
  | .locking | .waiting => s.buffered
  | _ => s.swappedOut

theorem owed_of_before {s : AsyncLogging} (h : s.BeforeSwap) : s.owed = s.buffered := by
  rcases h with h | h <;> rw [owed, h]

theorem owed_of_not_before {s : AsyncLogging} (h : ¬s.BeforeSwap) : s.owed = s.swappedOut := by
  unfold owed
  split
  · rename_i hphase
    exact absurd (.inl hphase) h
  · rename_i hphase
    exact absurd (.inr hphase) h
  · rfl

theorem swappedOut_of_before {s : AsyncLogging} (h : s.BeforeSwap) : s.swappedOut = [] := by
  rcases h with h | h <;> rw [swappedOut, h]

/-! ## Behind the stop -/

theorem swap_owed {s s' : AsyncLogging} (hspares : Spares s) (hbefore : s.BeforeSwap)
    (h : s.swap = .ok s') : s'.os ++ s'.owed = s.os ++ s.owed := by
  obtain ⟨hos, hswapped, -, -⟩ := swap_spec hspares hbefore h
  obtain ⟨cur, -, rfl⟩ := swap_inv h
  rw [owed_of_before hbefore, ← hswapped]
  rfl

theorem appendLine_owed {s s' : AsyncLogging} {line : List Byte} (hspares : Spares s)
    (h : s.appendLine line = .ok s') : s.owed <+: s'.owed := by
  obtain ⟨-, hphase, -, -, -⟩ := appendLine_frame h
  by_cases hbefore : s.BeforeSwap
  · have hbefore' : s'.BeforeSwap := by rwa [BeforeSwap, hphase]
    rw [owed_of_before hbefore, owed_of_before hbefore', appendLine_buffered hspares h]
    exact List.prefix_append _ _
  · have hbefore' : ¬s'.BeforeSwap := by rwa [BeforeSwap, hphase]
    rw [owed_of_not_before hbefore, owed_of_not_before hbefore', appendLine_swappedOut h]

/-- **With the flag down nothing that is owed is lost.** -/
theorem step_owed {s s' : AsyncLogging} {label : Label} (hspares : Spares s)
    (hstopped : s.running = false) (h : step s label = .ok s') :
    s.os ++ s.owed <+: s'.os ++ s'.owed := by
  cases step_inv h with
  | append happend =>
    obtain ⟨hos, -, -, -, -⟩ := appendLine_frame happend
    rw [hos]
    exact (List.prefix_append_right_inj _).mpr (appendLine_owed hspares happend)
  | enter _ hrunning =>
    rw [hstopped] at hrunning
    cases hrunning
  | lock hphase _ hswap | wake hphase hswap =>
    rw [swap_owed hspares (by simp [BeforeSwap, hphase]) hswap]
  | recycle hphase hrecycle =>
    obtain ⟨b₁, b₂, -, -, hok⟩ := hspares.recycle hphase
    rw [hok] at hrecycle
    cases hrecycle
    simp [owed, swappedOut, hphase, contents]
  | write hphase => simp [owed, swappedOut, hphase]
  | start hphase | countDown hphase | leave hphase => simp [owed, swappedOut, hphase]
  | wait hphase => simp [owed, hphase, buffered]
  | stop | join => exact List.prefix_rfl

/-- The flag is down for good, and `stop` returns when the background thread has ended. -/
structure Stopping (s : AsyncLogging) : Prop where
  running : s.running = false
  begun : s.phase ≠ .new ∧ s.phase ≠ .starting
  called : s.stop ≠ .running
  joined : s.stop = .stopped → s.phase = .ended

theorem stop_stopping {s s' : AsyncLogging} (h : step s .stop = .ok s') :
    Stopping s' ∧ s'.stop = .joining ∧ s'.os = s.os ∧ s'.owed = s.owed := by
  cases step_inv h with
  | stop hnew hstarting =>
    exact ⟨⟨rfl, ⟨hnew, hstarting⟩, nofun, nofun⟩, rfl, rfl, rfl⟩

theorem step_stopping {s s' : AsyncLogging} {label : Label} (hspares : Spares s)
    (hstopping : Stopping s) (h : step s label = .ok s') : Stopping s' := by
  obtain ⟨hrunning, hbegun, hcalled, hjoined⟩ := hstopping
  have hwait : s.phase ≠ .ended → s.stop ≠ .stopped := fun hphase hstop => hphase (hjoined hstop)
  cases step_inv h with
  | append happend =>
    obtain ⟨-, hphase, hsame, hstop, -⟩ := appendLine_frame happend
    exact ⟨hsame.trans hrunning, by rwa [hphase], by rwa [hstop], by rwa [hphase, hstop]⟩
  | start hphase => exact absurd hphase hbegun.1
  | countDown hphase => exact absurd hphase hbegun.2
  | enter _ hyes =>
    rw [hrunning] at hyes
    cases hyes
  | leave => exact ⟨hrunning, by simp, hcalled, fun _ => rfl⟩
  | wait hphase =>
    exact ⟨hrunning, by simp, hcalled, fun hstop => absurd hstop (hwait (by simp [hphase]))⟩
  | lock hphase _ hswap | wake hphase hswap =>
    obtain ⟨cur, -, rfl⟩ := swap_inv hswap
    exact ⟨hrunning, by simp, hcalled, fun hstop => absurd hstop (hwait (by simp [hphase]))⟩
  | recycle hphase hrecycle =>
    obtain ⟨b₁, b₂, -, -, hok⟩ := hspares.recycle hphase
    rw [hok] at hrecycle
    cases hrecycle
    exact ⟨hrunning, by simp, hcalled, fun hstop => absurd hstop (hwait (by simp [hphase]))⟩
  | write hphase =>
    exact ⟨hrunning, by simp, hcalled, fun hstop => absurd hstop (hwait (by simp [hphase]))⟩
  | stop _ _ hstop => exact absurd hstop hcalled
  | join hphase => exact ⟨hrunning, hbegun, nofun, fun _ => hphase⟩

theorem run_owed {labels : List Label} {s t : AsyncLogging} (hspares : Spares s)
    (hstopping : Stopping s) (hrun : run step s labels = .ok t) (hstop : t.stop = .stopped) :
    s.os ++ s.owed <+: t.os := by
  let I : AsyncLogging → Prop := fun s' => Spares s' ∧ Stopping s' ∧ s.os ++ s.owed <+: s'.os ++ s'.owed
  have hkeep : ∀ (s' : AsyncLogging) (label : Label) (s'' : AsyncLogging), I s' → True →
      step s' label = .ok s'' → I s'' := by
    rintro s' label s'' ⟨hspares', hstopping', howed'⟩ - h
    exact ⟨step_spares hspares' h, step_stopping hspares' hstopping' h,
      howed'.trans (step_owed hspares' hstopping'.running h)⟩
  obtain ⟨-, hstopping', howed⟩ := run_inv hkeep ⟨hspares, hstopping, List.prefix_rfl⟩
    (along_of_forall (fun _ _ => trivial) labels) hrun
  have hnone : t.owed = [] := by simp [owed, swappedOut, hstopping'.joined hstop]
  rwa [hnone, List.append_nil] at howed

/-! ## The background thread alone -/

/-- Nobody else moving, `stop` returns, and `m_os` has got just what was owed. -/
def Finishes (s : AsyncLogging) : Prop :=
  ∃ labels t, run step s labels = .ok t ∧ t.stop = .stopped ∧ t.os = s.os ++ s.owed

theorem Finishes.of_step {s s' : AsyncLogging} {label : Label} (hstep : step s label = .ok s')
    (howed : s'.os ++ s'.owed = s.os ++ s.owed) (h : Finishes s') : Finishes s := by
  obtain ⟨labels, t, hrun, hstop, hos⟩ := h
  exact ⟨label :: labels, t, by rw [run_cons_ok hstep, hrun], hstop, hos.trans howed⟩

theorem finishes_ended {s : AsyncLogging} (hphase : s.phase = .ended) (hstop : s.stop = .joining) :
    Finishes s := by
  have hstep : step s .join = .ok { s with stop := .stopped } := by simp [step, hphase, hstop]
  refine ⟨[.join], _, run_cons_ok hstep, rfl, ?_⟩
  simp [owed, swappedOut, hphase]

theorem finishes_test {s : AsyncLogging} (hrunning : s.running = false) (hphase : s.phase = .test)
    (hstop : s.stop = .joining) : Finishes s := by
  have hstep : step s .test = .ok { s with phase := .ended } := by simp [step, hphase, hrunning]
  refine .of_step hstep ?_ (finishes_ended rfl hstop)
  simp [owed, swappedOut, hphase]

theorem finishes_writing {s : AsyncLogging} {output : List Byte} (hrunning : s.running = false)
    (hphase : s.phase = .writing output) (hstop : s.stop = .joining) : Finishes s := by
  have hstep : step s .write = .ok { s with os := s.os ++ output, phase := .test } := by
    simp [step, hphase]
  refine .of_step hstep ?_ (finishes_test hrunning rfl hstop)
  simp [owed, swappedOut, hphase]

theorem finishes_swapped {s : AsyncLogging} (hspares : Spares s) (hrunning : s.running = false)
    (hphase : s.phase = .swapped) (hstop : s.stop = .joining) : Finishes s := by
  obtain ⟨b₁, b₂, -, -, hok⟩ := hspares.recycle hphase
  have hstep : step s .recycle = .ok { s with
      newBuffer1 := some b₁
      newBuffer2 := some b₂
      buffersToWrite := []
      phase := .writing (s.buffersToWrite.map (·.data)).flatten } := by
    simp [step, hphase, hok, Except.mapError]
  refine .of_step hstep ?_ (finishes_writing hrunning rfl hstop)
  simp [owed, swappedOut, hphase, contents]

theorem finishes_swap {s s' : AsyncLogging} {label : Label} (hspares : Spares s)
    (hrunning : s.running = false) (hbefore : s.BeforeSwap) (hstop : s.stop = .joining)
    (hswap : s.swap = .ok s') (hstep : step s label = .ok s') : Finishes s := by
  have howed := swap_owed hspares hbefore hswap
  have hspares' := step_spares hspares hstep
  obtain ⟨cur, -, rfl⟩ := swap_inv hswap
  exact .of_step hstep howed (finishes_swapped hspares' hrunning rfl hstop)

theorem finishes_waiting {s : AsyncLogging} (hspares : Spares s) (hrunning : s.running = false)
    (hphase : s.phase = .waiting) (hstop : s.stop = .joining) : Finishes s := by
  obtain ⟨s', hswap⟩ := hspares.swap_ok
  have hstep : step s .wake = .ok s' := by simp [step, hphase, hswap, Except.mapError]
  exact finishes_swap hspares hrunning (.inr hphase) hstop hswap hstep

theorem finishes_locking {s : AsyncLogging} (hspares : Spares s) (hrunning : s.running = false)
    (hphase : s.phase = .locking) (hstop : s.stop = .joining) : Finishes s := by
  by_cases hbuffers : s.buffers = []
  · have hstep : step s .lock = .ok { s with phase := .waiting } := by
      simp [step, hphase, hbuffers]
    refine .of_step hstep ?_ (finishes_waiting (step_spares hspares hstep) hrunning rfl hstop)
    simp [owed, hphase, buffered]
  · obtain ⟨s', hswap⟩ := hspares.swap_ok
    have hstep : step s .lock = .ok s' := by
      simp [step, hphase, hbuffers, hswap, Except.mapError]
    exact finishes_swap hspares hrunning (.inl hphase) hstop hswap hstep

theorem finishes {s : AsyncLogging} (hspares : Spares s) (hstopping : Stopping s)
    (hstop : s.stop = .joining) : Finishes s := by
  obtain ⟨hrunning, hbegun, -, -⟩ := hstopping
  cases hphase : s.phase with
  | new => exact absurd hphase hbegun.1
  | starting => exact absurd hphase hbegun.2
  | test => exact finishes_test hrunning hphase hstop
  | locking => exact finishes_locking hspares hrunning hphase hstop
  | waiting => exact finishes_waiting hspares hrunning hphase hstop
  | swapped => exact finishes_swapped hspares hrunning hphase hstop
  | writing output => exact finishes_writing hrunning hphase hstop
  | ended => exact finishes_ended hphase hstop

/-! ## The lines -/

theorem length_kept_le (lines : List (List Byte)) :
    (kept lines).flatten.length ≤ lines.flatten.length := by
  induction lines with
  | nil => exact Nat.le_refl _
  | cons line lines ih =>
    unfold kept at ih ⊢
    by_cases hshort : line.length < kLargeBuffer
    · simp only [hshort, decide_true, List.filter_cons_of_pos, List.flatten_cons,
        List.length_append]
      omega
    · simp only [hshort, decide_false, Bool.false_eq_true, not_false_eq_true,
        List.filter_cons_of_neg, List.flatten_cons, List.length_append]
      omega

theorem short_of_length_le {lines : List (List Byte)}
    (h : lines.flatten.length ≤ (kept lines).flatten.length) :
    ∀ line ∈ lines, line.length < kLargeBuffer := by
  have hpos : 0 < kLargeBuffer := by decide
  induction lines with
  | nil => nofun
  | cons line lines ih =>
    have hrest := length_kept_le lines
    unfold kept at h hrest ih
    by_cases hshort : line.length < kLargeBuffer
    · simp only [hshort, decide_true, List.filter_cons_of_pos, List.flatten_cons,
        List.length_append] at h
      exact List.forall_mem_cons.mpr ⟨hshort, ih (by omega)⟩
    · simp only [hshort, decide_false, Bool.false_eq_true, not_false_eq_true,
        List.filter_cons_of_neg, List.flatten_cons, List.length_append] at h
      omega

/-- **When `stop` flushes the log.** The lines that were appended before the call are in `m_os` at
every return of it exactly when none of them was dropped, and the background thread is about to
swap the buffers or there is nothing in them. -/
theorem stop_flushes_iff {labels : List Label} {s s' : AsyncLogging}
    (hrun : run step init labels = .ok s) (hstop : step s .stop = .ok s') :
    (∀ labels' t, run step s' labels' = .ok t → t.stop = .stopped →
        (appended labels).flatten <+: t.os) ↔
      (∀ line ∈ appended labels, line.length < kLargeBuffer) ∧
        ((s.phase = .locking ∨ s.phase = .waiting) ∨
          contents s.buffers = [] ∧ contents s.curBuffer.toList = []) := by
  obtain ⟨hspares, hconserved⟩ := run_conserved hrun
  obtain ⟨hstopping, hjoining, hos, howed⟩ := stop_stopping hstop
  have hspares' := step_spares hspares hstop
  have hlines : s.lines = appended labels := run_lines init_spares hrun
  unfold Conserved at hconserved
  rw [hlines] at hconserved
  constructor
  · intro hflushed
    -- the run in which nobody appends any more
    obtain ⟨labels', t, hrun', hstopped, hend⟩ := finishes hspares' hstopping hjoining
    have hprefix := hflushed labels' t hrun' hstopped
    rw [hend, hos, howed] at hprefix
    have hlength := hprefix.length_le
    have hbytes := congrArg List.length hconserved
    have hkept := length_kept_le (appended labels)
    simp only [List.length_append] at hlength hbytes
    by_cases hbefore : s.BeforeSwap
    · rw [owed_of_before hbefore] at hlength
      exact ⟨short_of_length_le (by omega), .inl hbefore⟩
    · rw [owed_of_not_before hbefore] at hlength
      have hnone : s.buffered = [] := List.length_eq_zero_iff.mp (by omega)
      exact ⟨short_of_length_le (by omega), .inr (List.append_eq_nil_iff.mp hnone)⟩
  · rintro ⟨hshort, hwhere⟩ labels' t hrun' hstopped
    have hfinal := run_owed hspares' hstopping hrun' hstopped
    rw [hos, howed] at hfinal
    rw [kept_eq_self hshort] at hconserved
    refine List.IsPrefix.trans ?_ hfinal
    rw [← hconserved]
    by_cases hbefore : s.BeforeSwap
    · rw [swappedOut_of_before hbefore, owed_of_before hbefore, List.append_nil]
    · have hnone : s.buffered = [] := List.append_eq_nil_iff.mpr (hwhere.resolve_left hbefore)
      rw [owed_of_not_before hbefore, hnone, List.append_nil]

/-- `stop` is called while the background thread waits. -/
theorem stop_flushes_iff_waiting :
    ∃ s s', run step init [.start, .countDown, .append [104, 105], .test, .lock] = .ok s ∧
      step s .stop = .ok s' ∧ s.phase = .waiting ∧
      ∀ labels' t, run step s' labels' = .ok t → t.stop = .stopped → [104, 105] <+: t.os := by
  have hflushes := @stop_flushes_iff
    [.start, .countDown, .append [104, 105], .test, .lock] _ _ rfl rfl
  exact ⟨_, _, rfl, rfl, rfl, hflushes.mpr ⟨by decide, .inl (.inr rfl)⟩⟩

/-- **A line that `stop` leaves behind.** It was appended before the background thread came to its
loop, and `stop` is called before it gets there. -/
theorem stop_loses_line :
    ∃ s s' t, run step init [.start, .countDown, .append [104, 105]] = .ok s ∧
      step s .stop = .ok s' ∧ run step s' [.test, .join] = .ok t ∧ t.stop = .stopped ∧
      t.os = [] ∧ ¬[104, 105] <+: t.os :=
  ⟨_, _, _, rfl, rfl, rfl, rfl, rfl, by decide⟩

end AsyncLogging

end VServer
