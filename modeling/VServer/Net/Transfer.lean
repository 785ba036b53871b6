import VServer.Basic
import VServer.Lib.Machine

/-!
# Whole transfers

`_read` and `_writen` of `SocketUtils.cc`, which `Readn` and `Writen` call: loops around `::read` and
`::write` that go on after a short transfer and after a signal. `turn` is one turn of a loop, for what
the kernel answers. A `Pipe` puts a reader behind a writer, with a channel of the kernel between
them; each of the two moves when the kernel lets it, and any number of signals may come.
-/

namespace VServer

/-! ## The loops -/

/-- What `::read` or `::write` answers; `α` is what it has transferred. -/
inductive Answer (α : Type) where
  | moved (what : α)
  /-- -1, with `EINTR` in `errno` -/
  | interrupted
  /-- -1, with something else -/
  | failed

/-- A loop at its system call, or what the function has returned; `none` is -1. -/
inductive Transfer (σ : Type) where
  | running (s : σ)
  | returned (n : Option Nat) (s : σ)

namespace Transfer

variable {σ : Type}

def locals : Transfer σ → σ
  | .running s | .returned _ s => s

end Transfer

/-- `_read`; `buf` is what lies in front of `ptr`. -/
structure Reading where
  n : Nat
  nleft : Nat
  buf : List Byte

namespace Reading

/-- `while (nleft > 0)` -/
def test (r : Reading) : Transfer Reading :=
  if 0 < r.nleft then .running r else .returned (some (r.n - r.nleft)) r

def start (n : Nat) : Transfer Reading := test ⟨n, n, []⟩

/-- What `::read` puts behind `ptr`: nothing at the end of the stream. -/
def turn (r : Reading) : Answer (List Byte) → Transfer Reading
  | .failed => .returned none r
  | .interrupted => r.test
  | .moved [] => .returned (some (r.n - r.nleft)) r
  | .moved nread => test { r with nleft := r.nleft - nread.length, buf := r.buf ++ nread }

end Reading

/-- `_writen`; `rest` is what lies behind `ptr`. -/
structure Writing where
  n : Nat
  nleft : Nat
  rest : List Byte

namespace Writing

/-- `while (nleft > 0)` -/
def test (w : Writing) : Transfer Writing := if 0 < w.nleft then .running w else .returned (some w.n) w

def start (data : List Byte) : Transfer Writing := test ⟨data.length, data.length, data⟩

/-- A `::write` that wrote nothing is an error. -/
def turn (w : Writing) : Answer Nat → Transfer Writing
  | .failed => .returned none w
  | .interrupted => w.test
  | .moved nwritten =>
    if nwritten = 0 then .returned none w
    else test { w with nleft := w.nleft - nwritten, rest := w.rest.drop nwritten }

end Writing

/-! ## The two ends of a channel -/

structure Pipe where
  writer : Transfer Writing
  reader : Transfer Reading
  /-- In the kernel, written and not read. -/
  channel : List Byte
  /-- The writer's end is closed. -/
  closed : Bool

namespace Pipe

/-- What the kernel does, and the close of the writer's end. -/
inductive Label where
  | write (answer : Answer Nat)
  | read (answer : Answer Nat)
  | close

def start (data : List Byte) (n : Nat) : Pipe := ⟨Writing.start data, Reading.start n, [], false⟩

variable (capacity : Nat)

/-- `::write` takes no more than there is room for, and `::read` gives no more than there is. Either
waits, rather than move nothing, but for a `::read` at the end of the stream. -/
def step (p : Pipe) : Label → Except Halt Pipe
  | .write (.moved k) =>
    match p.writer with
    | .running w =>
      if 0 < k ∧ k ≤ w.nleft ∧ p.channel.length + k ≤ capacity then
        .ok { p with writer := w.turn (.moved k), channel := p.channel ++ w.rest.take k }
      else .error .disabled
    | .returned _ _ => .error .disabled
  | .write answer =>
    match p.writer with
    | .running w => .ok { p with writer := w.turn answer }
    | .returned _ _ => .error .disabled
  | .read (.moved k) =>
    match p.reader with
    | .running r =>
      if k ≤ r.nleft ∧ k ≤ p.channel.length ∧ (k = 0 → p.channel = [] ∧ p.closed = true) then
        .ok { p with reader := r.turn (.moved (p.channel.take k)), channel := p.channel.drop k }
      else .error .disabled
    | .returned _ _ => .error .disabled
  | .read .interrupted =>
    match p.reader with
    | .running r => .ok { p with reader := r.turn .interrupted }
    | .returned _ _ => .error .disabled
  | .read .failed =>
    match p.reader with
    | .running r => .ok { p with reader := r.turn .failed }
    | .returned _ _ => .error .disabled
  | .close =>
    match p.writer with
    | .running _ => .error .disabled
    | .returned _ _ => if p.closed then .error .disabled else .ok { p with closed := true }

/-! ## What a step does -/

section

variable {capacity : Nat} {p p' : Pipe} {label : Label} {data : List Byte} {n : Nat}

inductive Step (capacity : Nat) (p : Pipe) : Label → Pipe → Prop
  | wrote {k : Nat} {w : Writing} (writer : p.writer = .running w) (pos : 0 < k) (le : k ≤ w.nleft)
      (room : p.channel.length + k ≤ capacity) :
    Step capacity p (.write (.moved k)) { p with
      writer := Writing.test { w with nleft := w.nleft - k, rest := w.rest.drop k }
      channel := p.channel ++ w.rest.take k }
  | writeAgain {w : Writing} (writer : p.writer = .running w) :
    Step capacity p (.write .interrupted) { p with writer := w.test }
  | writeFailed {w : Writing} (writer : p.writer = .running w) :
    Step capacity p (.write .failed) { p with writer := .returned none w }
  | read {k : Nat} {r : Reading} (reader : p.reader = .running r) (pos : 0 < k) (le : k ≤ r.nleft)
      (there : k ≤ p.channel.length) :
    Step capacity p (.read (.moved k)) { p with
      reader := Reading.test { r with nleft := r.nleft - k, buf := r.buf ++ p.channel.take k }
      channel := p.channel.drop k }
  | eof {r : Reading} (reader : p.reader = .running r) (empty : p.channel = []) (closed : p.closed = true) :
    Step capacity p (.read (.moved 0)) { p with reader := .returned (some (r.n - r.nleft)) r }
  | readAgain {r : Reading} (reader : p.reader = .running r) :
    Step capacity p (.read .interrupted) { p with reader := r.test }
  | readFailed {r : Reading} (reader : p.reader = .running r) :
    Step capacity p (.read .failed) { p with reader := .returned none r }
  | close {m : Option Nat} {w : Writing} (writer : p.writer = .returned m w) (isOpen : p.closed = false) :
    Step capacity p .close { p with closed := true }

theorem turn_moved {r : Reading} {nread : List Byte} (h : nread ≠ []) :
    r.turn (.moved nread) =
      Reading.test { r with nleft := r.nleft - nread.length, buf := r.buf ++ nread } := by
  cases nread with
  | nil => exact absurd rfl h
  | cons c nread => rfl

theorem step_inv (h : step capacity p label = .ok p') : Step capacity p label p' := by
  cases label with
  | write answer =>
    cases answer with
    | moved k =>
      cases hwriter : p.writer with
      | returned m w => simp [step, hwriter] at h
      | running w =>
        simp only [step, hwriter] at h
        split_ifs at h with hk
        cases h
        rw [Writing.turn, if_neg (by omega)]
        exact .wrote hwriter hk.1 hk.2.1 hk.2.2
    | interrupted | failed =>
      cases hwriter : p.writer with
      | returned m w => simp [step, hwriter] at h
      | running w =>
        simp only [step, hwriter] at h
        cases h
        first | exact .writeAgain hwriter | exact .writeFailed hwriter
  | read answer =>
    cases answer with
    | moved k =>
      cases hreader : p.reader with
      | returned m r => simp [step, hreader] at h
      | running r =>
        simp only [step, hreader] at h
        split_ifs at h with hk
        cases h
        obtain ⟨hle, hthere, heof⟩ := hk
        rcases Nat.eq_zero_or_pos k with rfl | hpos
        · obtain ⟨hempty, hclosed⟩ := heof rfl
          exact .eof hreader hempty hclosed
        · have hlength : (p.channel.take k).length = k := List.length_take_of_le hthere
          rw [turn_moved (List.ne_nil_of_length_pos (by omega)), hlength]
          exact .read hreader hpos hle hthere
    | interrupted | failed =>
      cases hreader : p.reader with
      | returned m r => simp [step, hreader] at h
      | running r =>
        simp only [step, hreader] at h
        cases h
        first | exact .readAgain hreader | exact .readFailed hreader
  | close =>
    unfold step at h
    dsimp only at h
    split at h
    · cases h
    · rename_i hwriter
      split_ifs at h with hclosed
      cases h
      exact .close hwriter (by simpa using hclosed)

/-! ## What holds in every run -/

/-- What the writer has still to write. -/
def unsent (p : Pipe) : List Byte := p.writer.locals.rest

def got (p : Pipe) : List Byte := p.reader.locals.buf

/-- A loop that runs has something left to do, and one that returned has returned how much it did. -/
structure Inv (data : List Byte) (n : Nat) (p : Pipe) : Prop where
  whole : p.got ++ p.channel ++ p.unsent = data
  writing : p.writer.locals.n = data.length ∧ p.writer.locals.nleft = p.unsent.length
  reading : p.reader.locals.n = n ∧ p.got.length + p.reader.locals.nleft = n
  writer_running : ∀ w, p.writer = .running w → 0 < w.nleft ∧ p.closed = false
  reader_running : ∀ r, p.reader = .running r → 0 < r.nleft
  writer_returned : ∀ m w, p.writer = .returned (some m) w → m = data.length ∧ w.nleft = 0
  reader_returned : ∀ m r, p.reader = .returned (some m) r →
    m = p.got.length ∧ (r.nleft = 0 ∨ p.channel = [] ∧ p.closed = true)

theorem writingTest (w : Writing) : w.test.locals = w ∧
    (∀ w', w.test = .running w' → 0 < w'.nleft ∧ w' = w) ∧
    ∀ m w', w.test = .returned m w' → m = some w.n ∧ w'.nleft = 0 := by
  unfold Writing.test
  split_ifs with hleft
  · exact ⟨rfl, fun w' h => by cases h; exact ⟨hleft, rfl⟩, nofun⟩
  · exact ⟨rfl, nofun, fun m w' h => by cases h; exact ⟨rfl, by omega⟩⟩

theorem readingTest (r : Reading) : r.test.locals = r ∧
    (∀ r', r.test = .running r' → 0 < r'.nleft) ∧
    ∀ m r', r.test = .returned m r' → m = some (r.n - r.nleft) ∧ r.nleft = 0 ∧ r' = r := by
  unfold Reading.test
  split_ifs with hleft
  · exact ⟨rfl, fun r' h => by cases h; exact hleft, nofun⟩
  · exact ⟨rfl, nofun, fun m r' h => by cases h; exact ⟨rfl, by omega, rfl⟩⟩

theorem Inv.write {w : Writing} {channel : List Byte} (hinv : Inv data n p)
    (isOpen : p.closed = false) (hn : w.n = data.length) (hleft : w.nleft = w.rest.length)
    (hwhole : p.got ++ channel ++ w.rest = data) :
    Inv data n { p with writer := w.test, channel := channel } := by
  obtain ⟨hlocals, hrunning, hreturned⟩ := writingTest w
  refine ⟨?_, ?_, hinv.reading, fun w' hw' => ⟨(hrunning w' hw').1, isOpen⟩, hinv.reader_running,
    fun m w' hw' => ?_, fun m r hr => ?_⟩
  · show p.got ++ channel ++ w.test.locals.rest = data
    rw [hlocals, hwhole]
  · show w.test.locals.n = _ ∧ w.test.locals.nleft = w.test.locals.rest.length
    rw [hlocals]
    exact ⟨hn, hleft⟩
  · obtain ⟨hm, hzero⟩ := hreturned _ w' hw'
    exact ⟨by rw [Option.some.inj hm, hn], hzero⟩
  · obtain ⟨hm, hend⟩ := hinv.reader_returned m r hr
    refine ⟨hm, .inl ?_⟩
    rcases hend with hzero | ⟨-, hclosed⟩
    · exact hzero
    · rw [isOpen] at hclosed
      cases hclosed

theorem Inv.read {r : Reading} {channel : List Byte} (hinv : Inv data n p) (hn : r.n = n)
    (hleft : r.buf.length + r.nleft = n) (hwhole : r.buf ++ channel ++ p.unsent = data) :
    Inv data n { p with reader := r.test, channel := channel } := by
  obtain ⟨hlocals, hrunning, hreturned⟩ := readingTest r
  refine ⟨?_, hinv.writing, ?_, hinv.writer_running, hrunning, hinv.writer_returned,
    fun m r' hr' => ?_⟩
  · show r.test.locals.buf ++ channel ++ p.unsent = data
    rw [hlocals, hwhole]
  · show r.test.locals.n = n ∧ r.test.locals.buf.length + r.test.locals.nleft = n
    rw [hlocals]
    exact ⟨hn, hleft⟩
  · obtain ⟨hm, hzero, rfl⟩ := hreturned _ r' hr'
    refine ⟨?_, .inl hzero⟩
    show m = r'.test.locals.buf.length
    rw [hlocals, Option.some.inj hm]
    omega

/-- **Every step keeps the bytes together.** -/
theorem Step.inv (h : Step capacity p label p') (hinv : Inv data n p) : Inv data n p' := by
  have hwhole := hinv.whole
  obtain ⟨hn, hlength⟩ := hinv.writing
  obtain ⟨hn', hgot⟩ := hinv.reading
  cases h with
  | @wrote k w writer pos le room =>
    have hrest : p.unsent = w.rest := by rw [unsent, writer]; rfl
    rw [hrest] at hwhole hlength
    rw [writer] at hn hlength
    refine hinv.write (hinv.writer_running w writer).2 hn ?_ ?_
    · rw [List.length_drop]
      exact congrArg (· - k) hlength
    · show p.got ++ (p.channel ++ w.rest.take k) ++ w.rest.drop k = data
      rw [← hwhole, List.append_assoc, List.append_assoc, List.take_append_drop, List.append_assoc]
  | @writeAgain w writer =>
    have hrest : p.unsent = w.rest := by rw [unsent, writer]; rfl
    rw [hrest] at hwhole hlength
    rw [writer] at hn hlength
    exact hinv.write (hinv.writer_running w writer).2 hn hlength hwhole
  | @writeFailed w writer =>
    have hlocals : p.writer.locals = w := by rw [writer]; rfl
    refine ⟨?_, ?_, hinv.reading, nofun, hinv.reader_running, nofun, hinv.reader_returned⟩
    · rw [← hwhole]
      show p.got ++ p.channel ++ w.rest = _
      rw [unsent, hlocals]
    · rw [unsent, hlocals] at hlength
      rw [hlocals] at hn
      exact ⟨hn, hlength⟩
  | @read k r reader pos le there =>
    have hbuf : p.got = r.buf := by rw [got, reader]; rfl
    rw [hbuf] at hwhole hgot
    rw [reader] at hn' hgot
    refine hinv.read hn' ?_ ?_
    · have hleft : r.buf.length + r.nleft = n := hgot
      simp only [List.length_append, List.length_take_of_le there]
      omega
    · show r.buf ++ p.channel.take k ++ p.channel.drop k ++ p.unsent = data
      rw [List.append_assoc r.buf, List.take_append_drop, hwhole]
  | @eof r reader empty closed =>
    have hlocals : p.reader.locals = r := by rw [reader]; rfl
    refine ⟨?_, hinv.writing, ?_, hinv.writer_running, nofun, hinv.writer_returned,
      fun m r' hr' => ?_⟩
    · rw [← hwhole]
      show r.buf ++ p.channel ++ p.unsent = _
      rw [got, hlocals]
    · rw [got, hlocals] at hgot
      rw [hlocals] at hn'
      exact ⟨hn', hgot⟩
    · cases hr'
      rw [got, hlocals] at hgot
      rw [hlocals] at hn'
      refine ⟨?_, .inr ⟨empty, closed⟩⟩
      show r.n - r.nleft = r.buf.length
      omega
  | @readAgain r reader =>
    have hbuf : p.got = r.buf := by rw [got, reader]; rfl
    rw [hbuf] at hwhole hgot
    rw [reader] at hn' hgot
    exact hinv.read hn' hgot hwhole
  | @readFailed r reader =>
    have hlocals : p.reader.locals = r := by rw [reader]; rfl
    refine ⟨?_, hinv.writing, ?_, hinv.writer_running, nofun, hinv.writer_returned, nofun⟩
    · rw [← hwhole]
      show r.buf ++ p.channel ++ p.unsent = _
      rw [got, hlocals]
    · rw [got, hlocals] at hgot
      rw [hlocals] at hn'
      exact ⟨hn', hgot⟩
  | @close m w writer isOpen =>
    refine ⟨hwhole, hinv.writing, hinv.reading, fun w' hw' => ?_, hinv.reader_running,
      hinv.writer_returned, fun m r hr => ?_⟩
    · have hboth : p.writer = .running w' := hw'
      rw [writer] at hboth
      cases hboth
    · obtain ⟨hm, hend⟩ := hinv.reader_returned m r hr
      exact ⟨hm, hend.imp_right fun h => ⟨h.1, rfl⟩⟩

theorem start_inv (data : List Byte) (n : Nat) : Inv data n (start data n) := by
  obtain ⟨hwriter, hwriting, hwrote⟩ := writingTest ⟨data.length, data.length, data⟩
  obtain ⟨hreader, hreading, hread⟩ := readingTest ⟨n, n, []⟩
  refine ⟨?_, ?_, ?_, fun w hw => ⟨(hwriting w hw).1, rfl⟩, hreading, fun m w hw => ?_, fun m r hr => ?_⟩
  · show (Reading.test ⟨n, n, []⟩).locals.buf ++ [] ++
      (Writing.test ⟨data.length, data.length, data⟩).locals.rest = data
    rw [hwriter, hreader]
    rfl
  · show (Writing.test ⟨data.length, data.length, data⟩).locals.n = _ ∧
      (Writing.test ⟨data.length, data.length, data⟩).locals.nleft =
        (Writing.test ⟨data.length, data.length, data⟩).locals.rest.length
    rw [hwriter]
    exact ⟨rfl, rfl⟩
  · show (Reading.test ⟨n, n, []⟩).locals.n = n ∧
      (Reading.test ⟨n, n, []⟩).locals.buf.length + (Reading.test ⟨n, n, []⟩).locals.nleft = n
    rw [hreader]
    simp
  · obtain ⟨hm, hzero⟩ := hwrote _ w hw
    exact ⟨Option.some.inj hm, hzero⟩
  · obtain ⟨hm, hzero, rfl⟩ := hread _ r hr
    refine ⟨?_, .inl hzero⟩
    show m = (Reading.test ⟨n, n, []⟩).locals.buf.length
    rw [hreader, Option.some.inj hm]
    simp

theorem run_pipe {labels : List Label}
    (hrun : Machine.run (step capacity) (start data n) labels = .ok p) : Inv data n p :=
  Machine.run_inv (fun _ _ _ hinv _ hstep => (step_inv hstep).inv hinv) (start_inv data n)
    (Machine.along_of_forall (fun _ _ => trivial) labels) hrun

/-- **Nothing is lost, doubled or moved between `Writen` and `Readn`.** Whatever is transferred in one
system call and whatever signals come, what was read, what is in the channel and what is still to be
written are the data. A `Writen` that returns has written all of them; a `Readn` that returns `m` has
read the first `m` bytes, and fewer than it asked for only at the end of the stream. -/
theorem transfer_whole {labels : List Label}
    (hrun : Machine.run (step capacity) (start data n) labels = .ok p) :
    p.got ++ p.channel ++ p.unsent = data ∧
      (∀ m w, p.writer = .returned (some m) w → m = data.length ∧ p.unsent = []) ∧
      (∀ m r, p.reader = .returned (some m) r → p.got = data.take m ∧ m ≤ n ∧
        (m < n → p.closed = true ∧ p.channel = [])) ∧
      ∀ m w m' r, p.writer = .returned (some m) w → p.reader = .returned (some m') r →
        m' = min n data.length := by
  have hinv := run_pipe hrun
  have hwhole := hinv.whole
  have hsent : ∀ m w, p.writer = .returned (some m) w → m = data.length ∧ p.unsent = [] := by
    intro m w hw
    obtain ⟨hm, hzero⟩ := hinv.writer_returned m w hw
    have hlength := hinv.writing.2
    rw [show p.writer.locals.nleft = w.nleft by rw [hw]; rfl, hzero] at hlength
    exact ⟨hm, List.length_eq_zero_iff.mp hlength.symm⟩
  have hread : ∀ m r, p.reader = .returned (some m) r → m = p.got.length ∧ p.got = data.take m ∧
      m ≤ n ∧ (m < n → p.closed = true ∧ p.channel = []) := by
    intro m r hr
    obtain ⟨hm, hend⟩ := hinv.reader_returned m r hr
    have hgot := hinv.reading.2
    rw [show p.reader.locals.nleft = r.nleft by rw [hr]; rfl] at hgot
    refine ⟨hm, ?_, by omega, fun hlt => ?_⟩
    · rw [hm, ← hwhole, List.append_assoc, List.take_left]
    · rcases hend with hzero | ⟨hempty, hclosed⟩
      · omega
      · exact ⟨hclosed, hempty⟩
  refine ⟨hwhole, hsent, fun m r hr => (hread m r hr).2, ?_⟩
  intro m w m' r hw hr
  obtain ⟨-, hunsent⟩ := hsent m w hw
  obtain ⟨hm, -, hle, hend⟩ := hread m' r hr
  have hlength := congrArg List.length hwhole
  simp only [List.length_append, hunsent, List.length_nil] at hlength
  by_cases hlt : m' < n
  · obtain ⟨-, hempty⟩ := hend hlt
    rw [hempty, List.length_nil] at hlength
    omega
  · omega

/-- Three bytes through a channel of two, with a signal at each end; four were asked for. -/
def shortRun : List Label :=
  [.write .interrupted, .write (.moved 2), .read (.moved 1), .write (.moved 1), .close,
    .read .interrupted, .read (.moved 2), .read (.moved 0)]

theorem transfer_whole_short : ∃ p m w m' r,
    Machine.run (step 2) (start [1, 2, 3] 4) shortRun = .ok p ∧
      p.writer = .returned (some m) w ∧ p.reader = .returned (some m') r ∧ p.got = [1, 2, 3].take m' ∧
      m' = min 4 3 := by
  obtain ⟨-, -, hread, hboth⟩ :=
    transfer_whole (show Machine.run (step 2) (start [1, 2, 3] 4) shortRun = .ok _ from rfl)
  exact ⟨_, _, _, _, _, rfl, rfl, rfl, (hread _ _ rfl).1, hboth _ _ _ _ rfl rfl⟩

/-! ## The end of a transfer -/

/-- A step that is no signal. -/
def Label.isMove : Label → Bool
  | .write .interrupted | .read .interrupted => false
  | _ => true

def left (p : Pipe) : Nat :=
  (match p.writer with
    | .running w => w.nleft
    | .returned _ _ => 0) +
  (match p.reader with
    | .running r => r.nleft
    | .returned _ _ => 0) +
  if p.closed then 0 else 1

theorem left_writing (w : Writing) (p : Pipe) (channel : List Byte) :
    left { p with writer := w.test, channel := channel } =
      left { p with writer := .running w, channel := channel } := by
  unfold left Writing.test
  split_ifs <;> simp <;> omega

theorem left_reading (r : Reading) (p : Pipe) (channel : List Byte) :
    left { p with reader := r.test, channel := channel } =
      left { p with reader := .running r, channel := channel } := by
  unfold left Reading.test
  split_ifs <;> simp <;> omega

theorem Step.left (h : Step capacity p label p') (hinv : Inv data n p) :
    (if label.isMove then 1 else 0) + p'.left ≤ p.left := by
  cases h with
  | @wrote k w writer pos le room =>
    rw [left_writing]
    simp only [Pipe.left, writer, Label.isMove, ↓reduceIte]
    omega
  | @writeAgain w writer =>
    rw [left_writing]
    simp [Pipe.left, writer, Label.isMove]
  | @writeFailed w writer =>
    have hpos := (hinv.writer_running w writer).1
    simp only [Pipe.left, writer, Label.isMove, ↓reduceIte]
    omega
  | @read k r reader pos le there =>
    rw [left_reading]
    simp only [Pipe.left, reader, Label.isMove, ↓reduceIte]
    omega
  | @readAgain r reader =>
    rw [left_reading]
    simp [Pipe.left, reader, Label.isMove]
  | @eof r reader | @readFailed r reader =>
    have hpos := hinv.reader_running r reader
    simp only [Pipe.left, reader, Label.isMove, ↓reduceIte]
    omega
  | close writer isOpen =>
    simp only [Pipe.left, isOpen, Label.isMove, ↓reduceIte, Bool.false_eq_true]
    omega

theorem run_moves {labels : List Label} (hinv : Inv data n p)
    (hrun : Machine.run (step capacity) p labels = .ok p') :
    (labels.filter Label.isMove).length + p'.left ≤ p.left := by
  induction labels generalizing p with
  | nil =>
    cases hrun
    simp
  | cons label labels ih =>
    obtain ⟨q, hstep, hrest⟩ := Machine.run_cons_inv hrun
    have hfirst := (step_inv hstep).left hinv
    have hothers := ih ((step_inv hstep).inv hinv) hrest
    rw [List.filter_cons]
    split_ifs at hfirst ⊢
    · rw [List.length_cons]
      omega
    · omega

/-- **Transfers end.** Signals aside, a run has at most as many steps as there are bytes to write and to
read, and a close. Where the bytes that are not read fit into the channel, it does not stop before
both functions have returned, unless a system call fails. -/
theorem transfer_ends {labels : List Label} (hcapacity : 0 < capacity)
    (hfits : data.length ≤ n + capacity)
    (hrun : Machine.run (step capacity) (start data n) labels = .ok p) :
    (labels.filter Label.isMove).length ≤ data.length + n + 1 ∧
      ((∃ w, p.writer = .returned none w) ∨ (∃ r, p.reader = .returned none r) ∨
        (∃ m w m' r, p.writer = .returned (some m) w ∧ p.reader = .returned (some m') r) ∨
        ∃ label p', label.isMove = true ∧ label ≠ .write .failed ∧ label ≠ .read .failed ∧
          step capacity p label = .ok p') := by
  have hinv := run_pipe hrun
  refine ⟨?_, ?_⟩
  · have hmoves := run_moves (start_inv data n) hrun
    have hstart : (start data n).left ≤ data.length + n + 1 := by
      simp only [Pipe.left, start, Writing.start, Reading.start, Writing.test, Reading.test]
      split_ifs <;> simp <;> omega
    omega
  · have hwhole := congrArg List.length hinv.whole
    simp only [List.length_append] at hwhole
    cases hwriter : p.writer with
    | returned m w =>
      cases m with
      | none => exact .inl ⟨w, rfl⟩
      | some m =>
        cases hreader : p.reader with
        | returned m' r =>
          cases m' with
          | none => exact .inr (.inl ⟨r, rfl⟩)
          | some m' => exact .inr (.inr (.inl ⟨m, w, m', r, rfl, rfl⟩))
        | running r =>
          have hpos := hinv.reader_running r hreader
          refine .inr (.inr (.inr ?_))
          by_cases hchannel : p.channel = []
          · cases hclosed : p.closed with
            | true =>
              exact ⟨.read (.moved 0), _, rfl, nofun, nofun,
                by simp only [step, hreader]; rw [if_pos ⟨by omega, by omega, fun _ => ⟨hchannel, hclosed⟩⟩]⟩
            | false => exact ⟨.close, _, rfl, nofun, nofun, by simp only [step, hwriter, hclosed]; rfl⟩
          · have hthere := List.length_pos_iff.mpr hchannel
            exact ⟨.read (.moved 1), _, rfl, nofun, nofun,
              by simp only [step, hreader]; rw [if_pos ⟨by omega, by omega, by omega⟩]⟩
    | running w =>
      obtain ⟨hpos, hopen⟩ := hinv.writer_running w hwriter
      by_cases hroom : p.channel.length + 1 ≤ capacity
      · exact .inr (.inr (.inr ⟨.write (.moved 1), _, rfl, nofun, nofun,
          by simp only [step, hwriter]; rw [if_pos ⟨by omega, by omega, hroom⟩]⟩))
      · -- the channel is full, so the reader has not yet read all that it may
        cases hreader : p.reader with
        | running r =>
          have hpos' := hinv.reader_running r hreader
          exact .inr (.inr (.inr ⟨.read (.moved 1), _, rfl, nofun, nofun,
            by simp only [step, hreader]; rw [if_pos ⟨by omega, by omega, by omega⟩]⟩))
        | returned m r =>
          cases m with
          | none => exact .inr (.inl ⟨r, rfl⟩)
          | some m =>
            obtain ⟨-, hend⟩ := hinv.reader_returned m r hreader
            have hgot := hinv.reading.2
            have hunsent := hinv.writing.2
            rw [show p.reader.locals.nleft = r.nleft by rw [hreader]; rfl] at hgot
            rw [show p.writer.locals.nleft = w.nleft by rw [hwriter]; rfl] at hunsent
            rcases hend with hzero | ⟨hempty, -⟩
            · omega
            · rw [hempty, List.length_nil] at hroom
              omega

theorem transfer_ends_short : (shortRun.filter Label.isMove).length ≤ 3 + 4 + 1 :=
  (transfer_ends (by decide) (by decide)
    (show Machine.run (step 2) (start [1, 2, 3] 4) shortRun = .ok _ from rfl)).1

end

end Pipe

end VServer
