import VServer.Log.Logger
import VServer.Log.WholeLines

/-!
# What an appender does with its lines

`Holds` says what an appender was given and what it has written, and each call of `log` (`log_holds`)
and each step of its background thread (`background_holds`) keeps it. What can be seen of it from
outside is `Delivered`: the stream has the first so many of the lines, the others are in the buffers.
-/

namespace VServer

/-! ## One asynchronous log -/

namespace AsyncLogging

/-- The log is in a state it can be in, and was given these lines. -/
structure Sound (s : AsyncLogging) (lines : List (List Byte)) : Prop where
  spares : Spares s
  started : Started s
  whole : Whole s
  lines_eq : s.lines = lines

theorem init_sound : Sound init [] where
  spares := init_spares
  started h := by cases h
  whole := Grouped.append Grouped.empty Grouped.empty
  lines_eq := rfl

variable {s s' : AsyncLogging} {lines : List (List Byte)} {line : List Byte} {label : Label}

theorem Sound.step (h : Sound s lines) (hstep : s.step label = .ok s') :
    Sound s' (lines ++ appended [label]) :=
  ⟨step_spares h.spares hstep, step_started h.spares h.started hstep,
    step_whole h.spares h.whole hstep, by rw [step_lines h.spares hstep, h.lines_eq]⟩

theorem step_append (h : s.appendLine line = .ok s') : s.step (.append line) = .ok s' := by
  simp [AsyncLogging.step, h, Except.mapError]

theorem step_os (hspares : Spares s) (h : s.step label = .ok s') :
    s'.os = s.os ++ (s.written label).flatten := by
  cases step_inv h with
  | append happend =>
    obtain ⟨hos, -⟩ := appendLine_frame happend
    simpa [written] using hos
  | lock hphase _ hswap | wake hphase hswap =>
    obtain ⟨hos, -⟩ := swap_spec hspares (by simp [hphase]) hswap
    simpa [written] using hos
  | recycle hphase hrecycle =>
    obtain ⟨b₁, b₂, -, -, hok⟩ := hspares.recycle hphase
    rw [hok] at hrecycle
    cases hrecycle
    simp [written]
  | write hphase => simp [written, hphase]
  | _ => simp [written]

end AsyncLogging

/-! ## One appender -/

theorem FileLogAppender.foldl_write (f : FileLogAppender) (texts : List (List Byte)) :
    (texts.foldl write f).isOpen = f.isOpen ∧
      (texts.foldl write f).filestream =
        if f.isOpen then f.filestream ++ texts.flatten else f.filestream := by
  induction texts generalizing f with
  | nil => simp
  | cons text texts ih =>
    obtain ⟨hopen, hstream⟩ := ih (f.write text)
    rw [List.foldl_cons, hopen, hstream]
    refine ⟨rfl, ?_⟩
    cases hf : f.isOpen <;> simp [write, hf]

namespace LogAppender

variable {appender appender' : LogAppender} {lines printed out : List (List Byte)} {text : List Byte}
  {label : AsyncLogging.Label}

theorem log_kind (h : appender.log text = .ok appender') :
    appender'.isAsync = appender.isAsync ∧ appender'.isFile = appender.isFile := by
  cases appender with
  | stdout | file base => cases h
  | asyncStdout s | asyncFile base s =>
    obtain ⟨s', -, rfl⟩ := map_eq_ok h
    exact ⟨rfl, rfl⟩

theorem write_kind (text : List Byte) (appender : LogAppender) :
    (appender.write text).isAsync = appender.isAsync ∧ (appender.write text).isFile = appender.isFile := by
  cases appender <;> exact ⟨rfl, rfl⟩

theorem background_kind (h : appender.background label = .ok (appender', out)) :
    appender'.isAsync = appender.isAsync ∧ appender'.isFile = appender.isFile := by
  cases appender with
  | stdout | file base => cases h
  | asyncStdout s | asyncFile base s =>
    obtain ⟨s', -, hpair⟩ := map_eq_ok h
    cases hpair
    exact ⟨rfl, rfl⟩

/-- The appender was given these lines, or pieces of lines, and has written so much to `std::cout`. -/
def Holds (lines printed : List (List Byte)) : LogAppender → Prop
  | .stdout => printed = lines
  | .file base => base.filestream = if base.isOpen then lines.flatten else []
  | .asyncStdout s => s.Sound lines ∧ printed.flatten = s.os
  | .asyncFile base s => s.Sound lines ∧ base.filestream = if base.isOpen then s.os else []

/-- As the constructors make it, the background thread not yet started. -/
def IsNew : LogAppender → Prop
  | .stdout => True
  | .file base => base.filestream = []
  | .asyncStdout s => s = .init
  | .asyncFile base s => base.filestream = [] ∧ s = .init

theorem IsNew.holds (h : appender.IsNew) : appender.Holds [] [] := by
  cases appender with
  | stdout => rfl
  | file base =>
    show base.filestream = _
    rw [show base.filestream = [] from h]
    simp
  | asyncStdout s =>
    cases h
    exact ⟨AsyncLogging.init_sound, rfl⟩
  | asyncFile base s =>
    obtain ⟨hbase, rfl⟩ := h
    refine ⟨AsyncLogging.init_sound, ?_⟩
    rw [hbase]
    simp [AsyncLogging.init]

theorem log_holds (h : appender.Holds lines printed) (hlog : appender.log text = .ok appender') :
    appender'.Holds (lines ++ [text]) printed := by
  cases appender with
  | stdout | file base => cases hlog
  | asyncStdout s =>
    obtain ⟨hsound, hprinted⟩ := h
    obtain ⟨s', hs, rfl⟩ := map_eq_ok hlog
    have hstep := AsyncLogging.step_append (AsyncLogging.mapError_eq_ok hs)
    refine ⟨hsound.step hstep, ?_⟩
    rw [AsyncLogging.step_os hsound.spares hstep]
    simpa [AsyncLogging.written] using hprinted
  | asyncFile base s =>
    obtain ⟨hsound, hstream⟩ := h
    obtain ⟨s', hs, rfl⟩ := map_eq_ok hlog
    have hstep := AsyncLogging.step_append (AsyncLogging.mapError_eq_ok hs)
    refine ⟨hsound.step hstep, ?_⟩
    rw [AsyncLogging.step_os hsound.spares hstep]
    simpa [AsyncLogging.written] using hstream

theorem write_holds (h : appender.Holds lines printed) (hsync : appender.isAsync = false) :
    (appender.write text).Holds (lines ++ [text]) (printed ++ appender.prints text) := by
  cases appender with
  | stdout => exact congrArg (· ++ [text]) (show printed = lines from h)
  | file base =>
    have hstream : base.filestream = _ := h
    show (base.write text).filestream = _
    cases hopen : base.isOpen <;> simp [FileLogAppender.write, hopen, hstream]
  | asyncStdout s | asyncFile base s => cases hsync

theorem background_holds (h : appender.Holds lines printed)
    (hquiet : AsyncLogging.appended [label] = [])
    (hstep : appender.background label = .ok (appender', out)) : appender'.Holds lines (printed ++ out) := by
  cases appender with
  | stdout => cases hstep
  | file base => cases hstep
  | asyncStdout s =>
    obtain ⟨hsound, hprinted⟩ := h
    obtain ⟨s', hs, hpair⟩ := map_eq_ok hstep
    cases hpair
    have hafter := hsound.step hs
    rw [hquiet, List.append_nil] at hafter
    refine ⟨hafter, ?_⟩
    rw [AsyncLogging.step_os hsound.spares hs, List.flatten_append, hprinted]
  | asyncFile base s =>
    obtain ⟨hsound, hstream⟩ := h
    obtain ⟨s', hs, hpair⟩ := map_eq_ok hstep
    cases hpair
    have hafter := hsound.step hs
    rw [hquiet, List.append_nil] at hafter
    obtain ⟨hopen, hwritten⟩ := base.foldl_write (s.written label)
    refine ⟨hafter, ?_⟩
    rw [AsyncLogging.step_os hsound.spares hs, hopen, hwritten, hstream]
    cases base.isOpen <;> simp

theorem Holds.log_ok (h : appender.Holds lines printed) (hasync : appender.isAsync = true)
    (text : List Byte) : ∃ appender', appender.log text = .ok appender' := by
  cases appender with
  | stdout | file base => cases hasync
  | asyncStdout s | asyncFile base s =>
    obtain ⟨s', happend⟩ := h.1.spares.appendLine text
    exact ⟨_, by rw [log, happend]; rfl⟩

theorem Holds.background_ne_fault (h : appender.Holds lines printed) (f : Fault) :
    appender.background label ≠ .error (.fault f) := by
  intro herror
  cases appender with
  | stdout | file base => cases herror
  | asyncStdout s | asyncFile base s =>
    exact AsyncLogging.step_ne_fault h.1.spares h.1.started label f (map_eq_error.mp herror)

/-! What can be seen of an appender. -/

/-- What reached the stream of the appender, if its file could be opened. -/
def stream (printed : List (List Byte)) : LogAppender → Option (List Byte)
  | .stdout | .asyncStdout _ => some printed.flatten
  | .file base | .asyncFile base _ => if base.isOpen then some base.filestream else none

def unwritten : LogAppender → List Byte
  | .asyncStdout s | .asyncFile _ s => s.swappedOut ++ s.buffered
  | _ => []

/-- An asynchronous appender drops a line that fits into no buffer. -/
def takes (appender : LogAppender) (text : List Byte) : Bool :=
  !appender.isAsync || decide (text.length < kLargeBuffer)

/-- The stream has the first so many of the lines that were taken, a synchronous appender all of them,
and the others are in the buffers. -/
def Delivered (lines printed : List (List Byte)) (appender : LogAppender) : Prop :=
  ∀ stream, appender.stream printed = some stream → ∃ n,
    stream = ((lines.filter appender.takes).take n).flatten ∧
      appender.unwritten = ((lines.filter appender.takes).drop n).flatten ∧
      (appender.isAsync = false → (lines.filter appender.takes).length ≤ n)

theorem Holds.delivered (h : appender.Holds lines printed) : appender.Delivered lines printed := by
  intro stream hstream
  -- a synchronous appender takes every line, and has written it
  have hall : appender.isAsync = false → appender.unwritten = [] → stream = lines.flatten → ∃ n,
      stream = ((lines.filter appender.takes).take n).flatten ∧
        appender.unwritten = ((lines.filter appender.takes).drop n).flatten ∧
        (appender.isAsync = false → (lines.filter appender.takes).length ≤ n) := by
    intro hsync hwritten heq
    have htakes : lines.filter appender.takes = lines := by simp [takes, hsync]
    exact ⟨lines.length, by simp [htakes, heq], by simp [htakes, hwritten], fun _ => by simp [htakes]⟩
  have hsome : ∀ s : AsyncLogging, s.Sound lines → appender.isAsync = true → stream = s.os →
      appender.unwritten = s.swappedOut ++ s.buffered → ∃ n,
      stream = ((lines.filter appender.takes).take n).flatten ∧
        appender.unwritten = ((lines.filter appender.takes).drop n).flatten ∧
        (appender.isAsync = false → (lines.filter appender.takes).length ≤ n) := by
    intro s hsound hasync heq hleft
    have htakes : lines.filter appender.takes = AsyncLogging.kept lines :=
      List.filter_congr fun line _ => by simp [takes, hasync]
    obtain ⟨n, hos, hrest⟩ := hsound.whole.os_eq
    rw [hsound.lines_eq] at hos hrest
    exact ⟨n, by rw [htakes, heq, hos], by rw [htakes, hleft, hrest], fun h => by simp [hasync] at h⟩
  cases appender with
  | stdout =>
    have hprinted : printed = lines := h
    exact hall rfl rfl (by rw [← Option.some.inj hstream, hprinted])
  | file base =>
    have hfile : base.filestream = _ := h
    simp only [LogAppender.stream] at hstream
    split_ifs at hstream with hopen
    exact hall rfl rfl (by rw [← Option.some.inj hstream, hfile, if_pos hopen])
  | asyncStdout s =>
    exact hsome s h.1 rfl (by rw [← Option.some.inj hstream, h.2]) rfl
  | asyncFile base s =>
    simp only [LogAppender.stream] at hstream
    split_ifs at hstream with hopen
    exact hsome s h.1 rfl (by rw [← Option.some.inj hstream, h.2, if_pos hopen]) rfl

theorem Delivered.all {stream : List Byte} (h : appender.Delivered lines printed)
    (hsync : appender.isAsync = false) (hstream : appender.stream printed = some stream) :
    stream = lines.flatten := by
  obtain ⟨n, hn, -, hall⟩ := h stream hstream
  have htakes : lines.filter appender.takes = lines := by simp [takes, hsync]
  rw [hn, List.take_of_length_le (hall hsync), htakes]

end LogAppender

end VServer
