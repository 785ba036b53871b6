import VServer.Basic

/-!
# Timers

`Timer`, `TimerManager` and the timerfd (`Timer.h`, `Timer.cc`), for any type `κ` of callbacks. The
`std::set` of timers is the list of its elements in the order of the comparator. The clock counts
nanoseconds; `GetCurrentTimeMS` is what it shows in milliseconds. Times are `uint64_t` in the source
and natural numbers here; their width shows in `TimeAdd` and `TimeSub`.
-/

namespace VServer

def getCurrentTimeMS (clock : Nat) : Nat := clock / 10 ^ 6

/-- `TimeAdd` of two `uint64_t` -/
def timeAdd (t₁ t₂ : Nat) : Nat := (t₁ + t₂) % 2 ^ 64

/-- `TimeSub`: the difference of two `uint64_t`, as an `int64_t`. -/
def timeSub (t₁ t₂ : Nat) : Int := Int.bmod (t₁ - t₂) (2 ^ 64)

structure Timer (κ : Type) where
  cb : κ
  expire : Nat
  interval : Nat
  id : UInt64
  deriving DecidableEq, Repr

namespace Timer

variable {κ : Type}

/-- `Timer::Comparator` -/
def before (lhs rhs : Timer κ) : Bool :=
  lhs.expire < rhs.expire ∨ lhs.expire = rhs.expire ∧ lhs.id < rhs.id

/-- Neither comes before the other: `std::set` takes them for the same element. -/
def same (lhs rhs : Timer κ) : Bool := !lhs.before rhs && !rhs.before lhs

/-- `m_repeat` -/
def repeats (t : Timer κ) : Bool := 0 < t.interval

/-- `restart(now)`: what it returns, and the timer afterwards. -/
def restart (t : Timer κ) (now : Nat) : Bool × Timer κ :=
  if t.repeats then (true, { t with expire := (now + t.interval) % 2 ^ 64 }) else (false, t)

@[simp] theorem restart_id (t : Timer κ) (now : Nat) : (t.restart now).2.id = t.id := by
  unfold restart
  split_ifs <;> rfl

end Timer

/-- A one-shot timerfd: when it expires next, and whether an expiration is there to be read. -/
structure Timerfd where
  deadline : Option Nat
  ready : Bool
  deriving DecidableEq, Repr

/-- `timerfd_settime`: zero disarms the timerfd, and an expiration nobody has read is dropped. -/
def Timerfd.settime (clock value : Nat) : Timerfd :=
  if value = 0 then ⟨none, false⟩ else ⟨some (clock + value), false⟩

/-- The duration `resetTimerfd` arms the timerfd with, in nanoseconds: `tv_sec` and `tv_nsec` of an
interval of milliseconds. -/
def itValue (interval : Int) : Nat :=
  let interval := if interval < 100 then 100 else interval
  (interval / 1000).toNat * 10 ^ 9 + (interval % 1000 * 1000).toNat

structure TimerManager (κ : Type) where
  timers : List (Timer κ)
  table : AList fun _ : UInt64 => Timer κ
  timerfd : Timerfd

namespace TimerManager

variable {κ : Type}

def init : TimerManager κ := ⟨[], ∅, ⟨none, false⟩⟩

variable (tm : TimerManager κ)

def resetTimerfd (clock expire : Nat) : TimerManager κ :=
  let interval := timeSub expire (getCurrentTimeMS clock)
  { tm with timerfd := .settime clock (itValue interval) }

def closeClock : TimerManager κ := { tm with timerfd := .settime 0 0 }

@[simp] theorem resetTimerfd_timers (clock expire : Nat) :
    (tm.resetTimerfd clock expire).timers = tm.timers := by
  cases tm
  rfl

@[simp] theorem resetTimerfd_table (clock expire : Nat) :
    (tm.resetTimerfd clock expire).table = tm.table := by
  cases tm
  rfl

@[simp] theorem resetTimerfd_timerfd (clock expire : Nat) :
    (tm.resetTimerfd clock expire).timerfd =
      .settime clock (itValue (timeSub expire (getCurrentTimeMS clock))) := by
  cases tm
  rfl

@[simp] theorem closeClock_timers : tm.closeClock.timers = tm.timers := rfl

@[simp] theorem closeClock_table : tm.closeClock.table = tm.table := rfl

@[simp] theorem closeClock_timerfd : tm.closeClock.timerfd = .settime 0 0 := rfl

/-- `m_timers.insert(timer)` -/
def insertTimer (timer : Timer κ) : List (Timer κ) → List (Timer κ)
  | [] => [timer]
  | t :: ts =>
    if timer.before t then timer :: t :: ts
    else if t.before timer then t :: insertTimer timer ts
    else t :: ts

def addTimerInloop (clock : Nat) (timer : Timer κ) : TimerManager κ :=
  let isAddHead := match tm.timers with
    | [] => true
    | t :: _ => timer.expire < t.expire
  let tm := if isAddHead then tm.resetTimerfd clock timer.expire else tm
  { tm with timers := insertTimer timer tm.timers, table := tm.table.insert timer.id timer }

def cancelInloop (clock : Nat) (id : UInt64) : Except Fault (TimerManager κ) :=
  match tm.table.lookup id with
  | none => .ok tm
  | some target =>
    if tm.timers.any target.same then
      let ishead := tm.timers.head?.any target.same
      let tm := { tm with timers := tm.timers.eraseP target.same, table := tm.table.erase id }
      if tm.timers.length = tm.table.keys.length then
        if ishead then
          match tm.timers with
          | [] => .ok tm.closeClock
          | t :: _ => .ok (tm.resetTimerfd clock t.expire)
        else .ok tm
      else .error (.assertion .cancelInloopSizes)
    else .error (.assertion .cancelInloopFound)

/-- `m_table.erase` for each of these. -/
def eraseIds (table : AList fun _ : UInt64 => Timer κ) (expired : List (Timer κ)) :
    AList fun _ : UInt64 => Timer κ :=
  expired.foldl (fun table t => table.erase t.id) table

/-- `fillExpired(now, …)` with `fresh` the id of the `nowTimer` it makes to search with. With nothing
due it takes the first timer all the same, and with no timer at all it dereferences `end()`. -/
def fillExpired (clock now : Nat) (fresh : UInt64) :
    Except Fault (TimerManager κ × List (Timer κ)) :=
  let due (t : Timer κ) : Bool := !(now < t.expire ∨ now = t.expire ∧ fresh < t.id)
  let restart (tm : TimerManager κ) : TimerManager κ :=
    match tm.timers with
    | [] => tm.closeClock
    | t :: _ => tm.resetTimerfd clock t.expire
  match tm.timers.takeWhile due with
  | [] =>
    match tm.timers with
    | [] => .error .undefined
    | t :: ts => .ok (restart { tm with timers := ts, table := tm.table.erase t.id }, [t])
  | expired =>
    .ok (restart { tm with
      timers := tm.timers.dropWhile due, table := eraseIds tm.table expired }, expired)

/-- `handleRead` up to the callbacks: it reads the timerfd and takes the expired timers. -/
def handleRead (clock : Nat) (fresh : UInt64) : Except Fault (TimerManager κ × List (Timer κ)) :=
  let tm := { tm with timerfd := { tm.timerfd with ready := false } }
  tm.fillExpired clock (getCurrentTimeMS clock) fresh

end TimerManager

end VServer
