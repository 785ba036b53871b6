import VServer.Basic
import VServer.Lib.Machine

/-!
# The asynchronous log

`AsyncLogging` and its `FixedBuffer` (`Asynclogging.h`, `Asynclogging.cc`). Any number of threads
append lines to `m_curBuffer`, one background thread swaps the buffers out and writes them to `m_os`.
What a thread does while it holds the mutex is one step, and so is what it does with nothing but its
own variables. The background thread may leave its condition wait at any time, for a signal, for the
timeout or for nothing.
-/

namespace VServer

def kLargeBuffer : Nat := 4000 * 1000

/-- `FixedBuffer<SIZE>`: the bytes from `m_data` up to `m_cur`. -/
structure FixedBuffer (size : Nat) where
  data : List Byte
  le : data.length ≤ size

namespace FixedBuffer

variable {size : Nat}

def empty : FixedBuffer size := ⟨[], Nat.zero_le _⟩

variable (b : FixedBuffer size)

def length : Nat := b.data.length

def avail : Nat := size - b.data.length

def reset : FixedBuffer size := let _ := b; empty

def append (line : List Byte) : FixedBuffer size :=
  if h : line.length < b.avail then
    ⟨b.data ++ line, by
      unfold avail at h
      rw [List.length_append]
      omega⟩
  else b

end FixedBuffer

abbrev LogBuffer := FixedBuffer kLargeBuffer

/-- Where the background thread is. -/
inductive WriterPhase where
  /-- not started -/
  | new
  /-- before `m_latch.countDown()` -/
  | starting
  /-- at `while(m_running)` -/
  | test
  /-- in the loop, before the lock -/
  | locking
  /-- in `m_cond.waitForSeconds` -/
  | waiting
  /-- behind the lock -/
  | swapped
  /-- at `m_os << output` -/
  | writing (output : List Byte)
  /-- behind the loop -/
  | ended

/-- Where the thread is that calls `stop()`. -/
inductive StopPhase where
  | running | joining | stopped
  deriving DecidableEq, Repr

/-- A `unique_ptr` is an `Option`. -/
structure AsyncLogging where
  running : Bool
  curBuffer : Option LogBuffer
  nextBuffer : Option LogBuffer
  buffers : List LogBuffer
  /-- What was written to `m_os`. -/
  os : List Byte
  phase : WriterPhase
  newBuffer1 : Option LogBuffer
  newBuffer2 : Option LogBuffer
  buffersToWrite : List LogBuffer
  stop : StopPhase
  /-- The lines that were appended, in the order of the mutex. No code reads it. -/
  lines : List (List Byte)

namespace AsyncLogging

inductive Label where
  | append (line : List Byte)
  | start
  /-- `assert(m_running)`, `m_latch.countDown()` and the two spare buffers -/
  | countDown
  /-- The test of `m_running`, and the assertions behind it. -/
  | test
  /-- The background thread gets the mutex. -/
  | lock
  /-- It leaves the condition wait, and has the mutex again. -/
  | wake
  /-- `output`, and the buffers that are kept -/
  | recycle
  | write
  /-- `m_running = false` and the signal of `stop()` -/
  | stop
  /-- `stop()` returns. -/
  | join
  deriving DecidableEq, Repr

def init : AsyncLogging where
  running := false
  curBuffer := some .empty
  nextBuffer := some .empty
  buffers := []
  os := []
  phase := .new
  newBuffer1 := none
  newBuffer2 := none
  buffersToWrite := []
  stop := .running
  lines := []

/-- `append` -/
def appendLine (s : AsyncLogging) (line : List Byte) : Except Fault AsyncLogging :=
  match s.curBuffer with
  | none => .error .undefined
  | some cur =>
    if line.length < cur.avail then
      .ok { s with curBuffer := some (cur.append line), lines := s.lines ++ [line] }
    else
      let next := s.nextBuffer.getD .empty
      .ok { s with
        buffers := s.buffers ++ [cur]
        nextBuffer := none
        curBuffer := some (next.append line)
        lines := s.lines ++ [line] }

/-- The rest of the critical section of `threadFunc`, behind the wait. -/
def swap (s : AsyncLogging) : Except Fault AsyncLogging :=
  match s.curBuffer with
  | none => .error .undefined
  | some cur =>
    .ok { s with
      curBuffer := s.newBuffer1
      newBuffer1 := none
      buffers := s.buffersToWrite
      buffersToWrite := s.buffers ++ [cur]
      nextBuffer := s.nextBuffer.or s.newBuffer2
      newBuffer2 := if s.nextBuffer.isSome then s.newBuffer2 else none
      phase := .swapped }

/-- A spare buffer is taken from the back of `buffersToWrite` when there is none. -/
def refill (spare : Option LogBuffer) (buffersToWrite : List LogBuffer) :
    Except Fault (Option LogBuffer × List LogBuffer) :=
  match spare with
  | some b => .ok (some b, buffersToWrite)
  | none =>
    match buffersToWrite.getLast? with
    | some b => .ok (some b.reset, buffersToWrite.dropLast)
    | none => .error (.assertion .threadFuncToWrite)

/-- From the end of the critical section to the end of the loop, but for the write. -/
def recycle (s : AsyncLogging) : Except Fault AsyncLogging :=
  if s.buffersToWrite = [] then .error (.assertion .threadFuncToWrite)
  else do
    let output := (s.buffersToWrite.map (·.data)).flatten
    let (newBuffer1, buffersToWrite) ← refill s.newBuffer1 (s.buffersToWrite.take 2)
    let (newBuffer2, _) ← refill s.newBuffer2 buffersToWrite
    -- `buffersToWrite.clear()`
    return { s with
      newBuffer1 := newBuffer1
      newBuffer2 := newBuffer2
      buffersToWrite := []
      phase := .writing output }

def isSpare (spare : Option LogBuffer) : Bool := spare.any (·.length = 0)

def step (s : AsyncLogging) (label : Label) : Except Halt AsyncLogging :=
  match label, s.phase with
  | .append line, _ => (s.appendLine line).mapError .fault
  | .start, .new => .ok { s with running := true, phase := .starting }
  | .countDown, .starting =>
    if s.running then
      .ok { s with newBuffer1 := some .empty, newBuffer2 := some .empty, phase := .test }
    else .error (.fault (.assertion .threadFuncRunning))
  | .test, .test =>
    if s.running then
      if isSpare s.newBuffer1 && isSpare s.newBuffer2 then
        if s.buffersToWrite = [] then .ok { s with phase := .locking }
        else .error (.fault (.assertion .threadFuncCleared))
      else .error (.fault (.assertion .threadFuncSpares))
    else .ok { s with phase := .ended }
  | .lock, .locking =>
    if s.buffers = [] then .ok { s with phase := .waiting } else s.swap.mapError .fault
  | .wake, .waiting => s.swap.mapError .fault
  | .recycle, .swapped => s.recycle.mapError .fault
  | .write, .writing output => .ok { s with os := s.os ++ output, phase := .test }
  | .stop, .new | .stop, .starting => .error .disabled
  | .stop, _ =>
    match s.stop with
    | .running => .ok { s with running := false, stop := .joining }
    | _ => .error .disabled
  | .join, .ended =>
    match s.stop with
    | .joining => .ok { s with stop := .stopped }
    | _ => .error .disabled
  | _, _ => .error .disabled

end AsyncLogging

end VServer
