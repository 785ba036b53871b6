import Mathlib

/-!
# How a call can fail

Three things end a call before it returns: a C++ exception (the wrappers of `SocketUtils.cc` throw
one when the system call fails), a failed `assert` (the build never defines `NDEBUG`), and a step
whose behaviour C++ leaves undefined. All three leave the process without its event loops.
-/

namespace VServer

abbrev Byte := UInt8

/-- The `assert`s of the modelled code, by the function they stand in. -/
inductive Assertion where
  /-- `retrieve`, `retrieveAsString`: `len <= readableBytes()` -/
  | retrieve
  /-- `makeSpace`: `kCheapPrepend < m_pRead` -/
  | makeSpaceSlide
  /-- `makeSpace`: `readable == readableBytes()` -/
  | makeSpaceReadable
  /-- `ensureWritableBytes`: `writableBytes() >= len` -/
  | ensureWritableBytes
  /-- `cancelInloop`: `it != m_timers.end()` -/
  | cancelInloopFound
  /-- `cancelInloop`: `m_timers.size() == m_table.size()` -/
  | cancelInloopSizes
  /-- `updateChannel`, a channel that is new: its descriptor is not in `m_channels` -/
  | updateChannelNew
  /-- `updateChannel`, a channel that is known: `m_channels[fd] == channel` -/
  | updateChannelFound
  /-- `removeChannel`: `m_channels.count(fd) > 0` -/
  | removeChannelFound
  /-- `removeChannel`: `index == kAdded || index == kDeleted` -/
  | removeChannelIndex
  /-- `Channel::remove`: `isNoneEvent()` -/
  | channelRemove
  /-- `assertInLoopThread()`, which aborts -/
  | inLoopThread
  /-- `connectEstablished`: `m_state == kConnecting` -/
  | connectEstablished
  /-- `handleClose`: `m_state == kConnected || m_state == kDisconnecting` -/
  | handleClose
  /-- `removeConnectionInLoop`: `n == 1` -/
  | removeConnectionInLoop
  /-- `EventLoopThreadPool::update`: `m_loopInfo.count(loop)` -/
  | updateLoopInfo
  /-- `EventLoopThreadPool::update`: `it != m_connectionCount.end()` -/
  | updateConnectionCount
  /-- `EventLoop::handleRead`: `n == sizeof one`, which aborts -/
  | wakeupRead
  /-- `threadFunc`: `m_running` -/
  | threadFuncRunning
  /-- `threadFunc`: `newBuffer1` and `newBuffer2` are there and empty -/
  | threadFuncSpares
  /-- `threadFunc`: `buffersToWrite.empty()` -/
  | threadFuncCleared
  /-- `threadFunc`: `!buffersToWrite.empty()` -/
  | threadFuncToWrite
  deriving DecidableEq, Repr

inductive Fault where
  | exception
  | assertion (a : Assertion)
  | undefined
  deriving DecidableEq, Repr

/-- Why a run does not go on: the label does not apply in this state, or the program failed. -/
inductive Halt where
  | disabled
  | fault (f : Fault)
  deriving DecidableEq, Repr

@[simp] theorem ok_bind {α β : Type} (a : α) (f : α → Except Fault β) :
    ((Except.ok a : Except Fault α) >>= f) = f a := rfl

@[simp] theorem error_bind {α β : Type} (e : Fault) (f : α → Except Fault β) :
    ((Except.error e : Except Fault α) >>= f) = .error e := rfl

theorem bind_eq_ok {ε α β : Type} {x : Except ε α} {f : α → Except ε β} {b : β}
    (h : x >>= f = .ok b) : ∃ a, x = .ok a ∧ f a = .ok b := by
  cases x with
  | error e => cases h
  | ok a => exact ⟨a, rfl, h⟩

@[simp] theorem map_eq_error {ε α β : Type} {x : Except ε α} {f : α → β} {e : ε} :
    x.map f = .error e ↔ x = .error e := by
  cases x <;> simp [Except.map]

theorem map_eq_ok {ε α β : Type} {x : Except ε α} {f : α → β} {b : β} (h : x.map f = .ok b) :
    ∃ a, x = .ok a ∧ f a = b := by
  cases x with
  | error e => cases h
  | ok a => exact ⟨a, rfl, Except.ok.inj h⟩

theorem exists_map_eq_ok {ε α β : Type} {x : Except ε α} {f : α → β} :
    (∃ b, x.map f = .ok b) ↔ ∃ a, x = .ok a := by
  cases x <;> simp [Except.map]

theorem eq_ok_of_toOption {ε α β : Type} {x : Except ε α} {f : α → β} {b : β}
    (h : x.toOption.map f = some b) : ∃ a, x = .ok a ∧ f a = b := by
  cases x with
  | error e => cases h
  | ok a => exact ⟨a, rfl, Option.some.inj h⟩

theorem eq_error_of_check {ε α : Type} [DecidableEq ε] {x : Except ε α} {e : ε}
    (h : (match x with
      | .error e' => decide (e' = e)
      | .ok _ => false) = true) : x = .error e := by
  cases x with
  | error e' => rw [of_decide_eq_true h]
  | ok a => cases h

/-! The runs that show a result at work have one or two event loops or threads, `Fin 1` or `Fin 2`. -/

instance one_neZero : NeZero 1 := ⟨Nat.succ_ne_zero 0⟩

instance two_neZero : NeZero 2 := ⟨Nat.succ_ne_zero 1⟩

end VServer
