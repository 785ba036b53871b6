import VServer.Lib.Machine
import VServer.Net.TcpServer

/-!
# The server and its threads

All threads as one machine. What a thread has still to do is a stack of tasks (`todo`); a step of the
thread performs the topmost one. A thread of a loop whose stack is empty goes on in `loop()`. When
`user` is on top of the stack, or the thread is in no loop, it is in user code and may make any call,
which puts its first task on the stack. The other labels are what the kernel and the clock do.
-/

namespace VServer

open Epoll

structure System (ι : Type) where
  world : World ι
  loops : ι → EventLoop (Task ι)
  /-- What each thread has still to do before it is back in its loop or in user code. -/
  todo : ι → List (Task ι)

/-- The calls user code may make. -/
inductive UserCall (ι : Type) where
  | send (c : Nat) (message : List Byte)
  | shutdown (c : Nat)
  | forceClose (c : Nat)
  | forceCloseAfter (c : Nat) (ms : Nat)
  | runInLoop (loop : ι)
  | queueInLoop (loop : ι)
  | runAfter (loop : ι) (ms : Nat)
  | cancel (loop : ι) (id : UInt64)
  | quit (loop : ι)
  deriving DecidableEq, Repr

/-- A channel `epoll_wait` may return. -/
inductive ActiveChannel where
  | conn (c : Nat) (revents : BitVec 32)
  | wakeup
  | timer
  | acceptor
  deriving DecidableEq, Repr

inductive Label (ι : Type) where
  /-- The thread performs the next task of its stack. -/
  | run (who : ι) (k : Kernel)
  | call (who : ι) (call : UserCall ι)
  /-- The user's function returns. -/
  | ret (who : ι)
  /-- `loop()` goes on. -/
  | next (loop : ι)
  | poll (loop : ι) (active : List ActiveChannel)
  | tick (duration : Nat)
  /-- The timerfd of the loop expires. -/
  | expire (loop : ι)
  /-- The last reference to the connection is gone. -/
  | destroy (c : Nat)
  deriving DecidableEq, Repr

section

variable {ι : Type} [DecidableEq ι]

/-- The task may run on the raw pointer that the channel of a connection holds. -/
def ConnTask.isRaw : ConnTask ι → Bool
  | .handleEvent _ | .handleRead | .writeCallback | .handleWrite | .handleError | .handleClose
  | .updateTimer | .messageCallback => true
  -- `updateTimer` leads to these
  | .forceCloseAfter _ | .setDisconnecting | .runForceCloseAfter _ | .storeTimerId _ => true
  | _ => false

/-- The task holds a reference to connection `c`. -/
def Task.refersTo (c : Nat) : Task ι → Bool
  | .conn c' t => c' = c && !t.isRaw
  | .queueInLoop _ f => f.refersTo c
  | _ => false

def UserCall.task (who : ι) : UserCall ι → Task ι
  | .send c message => .conn c (.send message)
  | .shutdown c => .conn c .shutdown
  | .forceClose c => .conn c .forceClose
  | .forceCloseAfter c ms => .conn c (.forceCloseAfter ms)
  | .runInLoop loop => VServer.runInLoop who loop .user
  | .queueInLoop loop => .queueInLoop loop .user
  | .runAfter loop ms => .runAfter loop ms
  | .cancel loop id => VServer.runInLoop who loop (.cancelInloop loop id)
  | .quit loop => .quit loop

/-- The user has a pointer to the connections it calls: the connection callback gave it away, and
what it points to lives. -/
def World.knows (w : World ι) : UserCall ι → Bool
  | .send c _ | .shutdown c | .forceClose c | .forceCloseAfter c _ =>
    w.alive c && (w.conns c).state ≠ .kConnecting
  | _ => true

def ActiveChannel.task (loop : ι) : ActiveChannel → Task ι
  | .conn c revents => .conn c (.handleEvent revents)
  | .wakeup => .wakeupRead loop
  | .timer => .timerRead loop
  | .acceptor => .acceptorRead

def ActiveChannel.channel : ActiveChannel → ActiveChannel
  | .conn c _ => .conn c 0
  | a => a

namespace System

variable (σ : System ι)

def tasks (i : ι) : List (Task ι) := σ.todo i ++ (σ.loops i).backlog

def isLoop (i : ι) : Bool :=
  i = σ.world.server.threadPool.baseLoop ∨ i ∈ σ.world.server.threadPool.loops

/-- User code is running on the thread: it is in a callback, or outside `loop()` altogether. -/
def inUserCode (who : ι) : Bool :=
  match σ.todo who with
  | .user :: _ => true
  | [] => (σ.loops who).isOutside
  | _ => false

/-- `epoll_wait` may report this: the channel is watched, and for what is reported. -/
def reports (loop : ι) : ActiveChannel → Bool
  | .conn c revents =>
    match (σ.world.pollers loop).epoll (σ.world.conns c).channel.fd with
    | some (owner, events) =>
      owner = c ∧ revents ≠ 0 ∧ revents &&& ~~~(events ||| epollErr ||| epollHup) = 0
    | none => false
  | .wakeup => 0 < (σ.loops loop).wakeups
  | .timer => (σ.world.timers loop).timerfd.ready
  | .acceptor => loop = σ.world.server.threadPool.baseLoop

/-- Nothing but the user refers to connection `c`. -/
def unreferenced [Fintype ι] (c : Nat) : Bool :=
  !σ.world.server.connections c &&
    decide (∀ i, (σ.tasks i).all fun t => !t.refersTo c)

/-- The thread has done its topmost task; `rest` is below it. -/
def runTask (who : ι) (k : Kernel) (rest : List (Task ι)) : Task ι → Except Halt (System ι)
  | .user => .error .disabled
  | .queueInLoop loop f =>
    let l := (σ.loops loop).push f
    .ok { σ with
      loops := Function.update σ.loops loop l
      todo := Function.update σ.todo who
        ((if l.wantsWakeup (who = loop) then [.wakeup loop] else []) ++ rest) }
  | .wakeup loop =>
    .ok { σ with
      loops := Function.update σ.loops loop (σ.loops loop).wakeup
      todo := Function.update σ.todo who rest }
  | .quit loop =>
    .ok { σ with
      loops := Function.update σ.loops loop { σ.loops loop with quit := true }
      todo := Function.update σ.todo who rest }
  | .wakeupRead loop =>
    match (σ.loops loop).handleRead with
    | .ok l =>
      .ok { σ with
        loops := Function.update σ.loops loop l
        todo := Function.update σ.todo who rest }
    | .error e => .error (.fault e)
  | t =>
    match perform who k σ.world t with
    | .ok (w, tasks) =>
      .ok { σ with world := w, todo := Function.update σ.todo who (tasks ++ rest) }
    | .error e => .error e

end System

def System.step [Fintype ι] (σ : System ι) : Label ι → Except Halt (System ι)
  | .run who k =>
    match σ.todo who with
    | t :: rest => σ.runTask who k rest t
    | [] => .error .disabled
  | .call who c =>
    if σ.inUserCode who ∧ σ.world.knows c then
      .ok { σ with todo := Function.update σ.todo who (c.task who :: σ.todo who) }
    else .error .disabled
  | .ret who =>
    match σ.todo who with
    | .user :: rest => .ok { σ with todo := Function.update σ.todo who rest }
    | _ => .error .disabled
  | .next loop =>
    match σ.todo loop, (σ.loops loop).next with
    | [], some (l, calls) =>
      if σ.isLoop loop then
        .ok { σ with
          loops := Function.update σ.loops loop l
          todo := Function.update σ.todo loop calls }
      else .error .disabled
    | _, _ => .error .disabled
  | .poll loop active =>
    if σ.todo loop = [] ∧ (σ.loops loop).phase = .wait ∧ (active.map (·.channel)).Nodup ∧
        active.all (σ.reports loop) then
      .ok { σ with
        loops := Function.update σ.loops loop ((σ.loops loop).poll (active.map (·.task loop))) }
    else .error .disabled
  | .tick duration => .ok { σ with world := { σ.world with clock := σ.world.clock + duration } }
  | .expire loop =>
    let tm := σ.world.timers loop
    match tm.timerfd.deadline with
    | some deadline =>
      if deadline ≤ σ.world.clock then
        .ok { σ with world := { σ.world with
          timers := Function.update σ.world.timers loop { tm with timerfd := ⟨none, true⟩ } } }
      else .error .disabled
    | none => .error .disabled
  | .destroy c =>
    if σ.world.alive c ∧ σ.unreferenced c then
      -- closing the descriptor takes it out of the interest list, not out of `m_channels`
      let conn := σ.world.conns c
      let p := σ.world.pollers conn.loop
      let p := { p with epoll := Function.update p.epoll conn.channel.fd none }
      .ok { σ with world := { σ.world with
        alive := Function.update σ.world.alive c false
        pollers := Function.update σ.world.pollers conn.loop p } }
    else .error .disabled

/-- A server that was started, with its IO loops, in front of every `loop()`. `unborn` stands in for
the connections that are not there yet. -/
def System.start (baseLoop : ι) (ioLoops : List ι) (delay clock : Nat) (count : UInt64) :
    System ι where
  world := {
    clock := clock
    count := count
    conns := fun _ => .init baseLoop 0 delay
    alive := fun _ => false
    pollers := fun _ => .init
    timers := fun _ => .init
    server := ⟨fun _ => false, 0, delay, .start baseLoop ioLoops⟩
    log := [] }
  loops := fun _ => .init
  todo := fun _ => []

def Kernel.silent : Kernel := ⟨none, none, none⟩

/-- Thread `i` performs its next `n` tasks. -/
def Label.runs {ι : Type} (i : ι) (n : Nat) : List (Label ι) := List.replicate n (.run i .silent)

/-- The one loop of a server without IO loops accepts a connection and calls the user back. -/
def acceptRun : List (Label (Fin 1)) :=
  [Label.next 0, .next 0, .poll 0 [.acceptor], .next 0, .run 0 ⟨none, none, some 5⟩] ++
    Label.runs 0 1

/-- The peer hangs up, and the connection is closed, removed and destroyed. -/
def hangupRun : List (Label (Fin 1)) :=
  acceptRun ++ [Label.ret 0] ++ Label.runs 0 1 ++ [Label.next 0, .next 0] ++
    [Label.poll 0 [.conn 0 Epoll.epollHup], .next 0] ++ Label.runs 0 6 ++
    [Label.next 0, .next 0, .next 0] ++ Label.runs 0 3 ++ [Label.ret 0] ++ Label.runs 0 1

end

end VServer
