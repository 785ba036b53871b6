import VServer.Net.Connection
import VServer.Net.EventLoop
import VServer.Net.EventLoopThreadPool
import VServer.Net.Timer

/-!
# What the threads do

The functions of `TcpServer`, `TcpConnection`, `Acceptor` and `TimerManager` that threads run, cut
into `Task`s: a task is a piece of a function between two accesses to what other threads may touch,
and performing it (`perform`) changes the `World` the threads share and leaves the tasks that come
next. `ι` names the threads, those of the loops and those of the user alike. User code is the task
`user`; what it may do is in `Net.System`.

A connection is named by the number in its name, which is how `m_connections` finds it. The wakeup,
timer and listening channels never change after construction and are left out of the pollers.
-/

namespace VServer

open Epoll

/-- The callbacks of timers: one of the user, or the weak callback of `forceCloseAfter`. -/
inductive TimerCallback where
  | user
  | weakForceClose (c : Nat)
  deriving DecidableEq, Repr

/-- What is done to one connection. -/
inductive ConnTask (ι : Type) where
  /-- `Channel::handleEvent` -/
  | handleEvent (revents : BitVec 32)
  | handleRead
  /-- `if (m_events & EPOLLOUT) m_writeCallback()` -/
  | writeCallback
  | handleWrite
  | handleError
  | handleClose
  | updateTimer
  | messageCallback
  | connectEstablished
  /-- `if(m_delay > 0) forceCloseAfter(m_delay)` -/
  | delayedClose
  | connectDestroyed
  /-- `setState(kDisconnected)` -/
  | setDisconnected
  | notifyDown
  | channelRemove
  | send (message : List Byte)
  | sendInLoop (sender : ι) (message : List Byte)
  | shutdown
  | shutdownInLoop
  | forceClose
  | forceCloseInLoop
  | forceCloseAfter (ms : Nat)
  /-- `setState(kDisconnecting)` -/
  | setDisconnecting
  /-- The `runAfter` of `forceCloseAfter`. -/
  | runForceCloseAfter (ms : Nat)
  /-- `m_timerId = …` -/
  | storeTimerId (id : UInt64)
  | removeConnection
  | removeConnectionInLoop
  deriving DecidableEq, Repr

inductive Task (ι : Type) where
  /-- A function of the user, until it returns. -/
  | user
  | conn (c : Nat) (t : ConnTask ι)
  | queueInLoop (loop : ι) (f : Task ι)
  | wakeup (loop : ι)
  | quit (loop : ι)
  /-- `EventLoop::handleRead` -/
  | wakeupRead (loop : ι)
  /-- `TimerManager::handleRead` -/
  | timerRead (loop : ι)
  | runTimer (cb : TimerCallback)
  | runAfter (loop : ι) (ms : Nat)
  | addTimerInloop (loop : ι) (timer : Timer TimerCallback)
  | cancelInloop (loop : ι) (id : UInt64)
  /-- `Acceptor::handleRead` -/
  | acceptorRead
  deriving DecidableEq, Repr

/-- What the kernel answers, if it is asked: `none` is the -1 of the system call. -/
structure Kernel where
  readv : Option (List Byte)
  write : Option Nat
  accept : Option Nat
  deriving DecidableEq, Repr

/-- `TcpServer`; `m_connections` is the set of the numbers in the names it holds. -/
structure TcpServer (ι : Type) where
  connections : Nat → Bool
  connId : Nat
  delay : Nat
  threadPool : EventLoopThreadPool ι

/-- What the threads share, except for the queues of the loops. -/
structure World (ι : Type) where
  /-- in nanoseconds -/
  clock : Nat
  /-- `Timer::count` -/
  count : UInt64
  conns : Nat → TcpConnection ι
  /-- Made and not yet destroyed. -/
  alive : Nat → Bool
  pollers : ι → Poller Nat
  timers : ι → TimerManager TimerCallback
  server : TcpServer ι
  /-- What was observed of the connections. -/
  log : List (Nat × ConnEvent ι)

namespace World

variable {ι : Type} [DecidableEq ι]

variable (w : World ι)

def isFree (fd : Nat) : Bool :=
  (List.range w.server.connId).all fun c => !w.alive c || (w.conns c).channel.fd ≠ fd

/-- A part of connection `c` has run. -/
def put (c : Nat) (r : TcpConnection.Result ι) : World ι :=
  { w with
    conns := Function.update w.conns c r.1
    pollers := Function.update w.pollers (w.conns c).loop r.2.1
    log := w.log ++ r.2.2.map (c, ·) }

/-- A change of connection `c` that its poller does not see. -/
def putConn (c : Nat) (conn : TcpConnection ι) (events : List (ConnEvent ι)) : World ι :=
  { w with conns := Function.update w.conns c conn, log := w.log ++ events.map (c, ·) }

def note (c : Nat) (event : ConnEvent ι) : World ι := { w with log := w.log ++ [(c, event)] }

end World

section perform

variable {ι : Type} [DecidableEq ι]

def runInLoop (who loop : ι) (f : Task ι) : Task ι := if who = loop then f else .queueInLoop loop f

/-- The part of a connection returns, and these are the tasks behind it. -/
def World.finish (w : World ι) (c : Nat) (r : Except Fault (TcpConnection.Result ι))
    (tasks : List (Task ι)) : Except Halt (World ι × List (Task ι)) :=
  match r with
  | .ok r => .ok (w.put c r, tasks)
  | .error e => .error (.fault e)

/-- The tasks `handleEvent` consists of. -/
def eventTasks (revents : BitVec 32) : List (ConnTask ι) :=
  (if revents &&& epollHup ≠ 0 ∧ revents &&& epollIn = 0 then [ConnTask.handleClose] else []) ++
  (if revents &&& epollErr ≠ 0 then [ConnTask.handleError] else []) ++
  (if revents &&& (epollIn ||| epollPri ||| epollRdHup) ≠ 0 then [ConnTask.handleRead] else []) ++
  [ConnTask.writeCallback]

/-- A task of connection `c`, performed by thread `who`. -/
def performConn (who : ι) (k : Kernel) (w : World ι) (c : Nat) (t : ConnTask ι) :
    Except Halt (World ι × List (Task ι)) :=
  let conn := w.conns c
  let p := w.pollers conn.loop
  let inLoop (r : Except Halt (World ι × List (Task ι))) : Except Halt (World ι × List (Task ι)) :=
    if who = conn.loop then r else .error (.fault (.assertion .inLoopThread))
  match t with
  | .handleEvent revents => .ok (w, (eventTasks revents).map (.conn c))
  | .handleRead => inLoop <|
    match k.readv with
    | none => .error (.fault .exception)
    | some data =>
      let data := data.take conn.inputBuffer.raw.offered
      if data = [] then .ok (w, [.conn c .handleClose])
      else .ok (w.putConn c (conn.receive data) [], [.conn c .updateTimer, .conn c .messageCallback])
  | .writeCallback =>
    .ok (w, if conn.channel.events &&& epollOut ≠ 0 then [.conn c .handleWrite] else [])
  | .handleWrite => inLoop <| w.finish c (conn.handleWrite c p k.write) []
  | .handleError => .ok (w.note c .error, [])
  | .handleClose => inLoop <| w.finish c (conn.handleClose c p) [.conn c .removeConnection]
  | .updateTimer =>
    .ok (w, if conn.isTimed then
        [runInLoop who conn.loop (.cancelInloop conn.loop conn.timerId),
          .conn c (.forceCloseAfter conn.delay)]
      else [])
  | .messageCallback => .ok (w.note c .message, [.user])
  | .connectEstablished => inLoop <|
    w.finish c (conn.connectEstablished c p) [.user, .conn c .delayedClose]
  | .delayedClose => .ok (w, if 0 < conn.delay then [.conn c (.forceCloseAfter conn.delay)] else [])
  | .connectDestroyed => inLoop <|
    .ok (w, [.conn c (if conn.state = .kConnected then .setDisconnected else .channelRemove)])
  | .setDisconnected => .ok (w.putConn c { conn with state := .kDisconnected } [], [.conn c .notifyDown])
  | .notifyDown => w.finish c (conn.notifyDown c p) [.user, .conn c .channelRemove]
  | .channelRemove => w.finish c (conn.channelRemove c p) []
  | .send message =>
    if conn.state = .kConnected then
      .ok (w.note c (.accepted who message),
        [runInLoop who conn.loop (.conn c (.sendInLoop who message))])
    else .ok (w, [])
  | .sendInLoop sender message => inLoop <|
    w.finish c (conn.sendInLoop c p sender message k.write) []
  | .shutdown =>
    .ok (w, if conn.state = .kConnected then
        [.conn c .setDisconnecting, runInLoop who conn.loop (.conn c .shutdownInLoop)]
      else [])
  | .shutdownInLoop => inLoop <| .ok (w.putConn c conn conn.shutdownInLoop, [])
  | .forceClose =>
    .ok (w, if conn.isOpen then
        [.conn c .setDisconnecting, .queueInLoop conn.loop (.conn c .forceCloseInLoop)]
      else [])
  | .forceCloseInLoop => inLoop <| .ok (w, if conn.isOpen then [.conn c .handleClose] else [])
  | .forceCloseAfter ms =>
    .ok (w, if conn.isOpen then [.conn c .setDisconnecting, .conn c (.runForceCloseAfter ms)] else [])
  | .setDisconnecting => .ok (w.putConn c { conn with state := .kDisconnecting } [], [])
  | .runForceCloseAfter ms =>
    let timer : Timer TimerCallback :=
      ⟨.weakForceClose c, timeAdd (getCurrentTimeMS w.clock) ms, 0, w.count + 1⟩
    .ok ({ w with count := w.count + 1 },
      [runInLoop who conn.loop (.addTimerInloop conn.loop timer), .conn c (.storeTimerId timer.id)])
  | .storeTimerId id => .ok (w.putConn c { conn with timerId := id } [], [])
  | .removeConnection =>
    .ok (w, [runInLoop who w.server.threadPool.baseLoop (.conn c .removeConnectionInLoop)])
  | .removeConnectionInLoop =>
    if who = w.server.threadPool.baseLoop then
      if w.server.connections c then
        match w.server.threadPool.removeLoopConnection conn.loop with
        | .ok pool =>
          let server := { w.server with
            connections := Function.update w.server.connections c false, threadPool := pool }
          .ok ({ w with server := server }.note c .removed,
            [.queueInLoop conn.loop (.conn c .connectDestroyed)])
        | .error e => .error (.fault e)
      else .error (.fault (.assertion .removeConnectionInLoop))
    else .error (.fault (.assertion .inLoopThread))

/-- `newConnection`; `sockfd` comes from `accept`, which gives out no descriptor that is open. -/
def newConnection (who : ι) (w : World ι) (sockfd : Nat) : Except Halt (World ι × List (Task ι)) :=
  if who = w.server.threadPool.baseLoop then
    if w.isFree sockfd then
      match w.server.threadPool.getNextLoopMinConnection with
      | .error e => .error (.fault e)
      | .ok (pool, loop) =>
        let c := w.server.connId
        -- `m_connId ++` on an `int`
        if c + 1 < 2 ^ 31 then
          .ok ({ w with
              conns := Function.update w.conns c (.init loop sockfd w.server.delay)
              alive := Function.update w.alive c true
              server := { w.server with
                connections := Function.update w.server.connections c true
                connId := c + 1
                threadPool := pool } },
            [runInLoop who loop (.conn c .connectEstablished)])
        else .error (.fault .undefined)
    else .error .disabled
  else .error (.fault (.assertion .inLoopThread))

/-- A task that is not for a loop, performed by thread `who`. -/
def perform (who : ι) (k : Kernel) (w : World ι) : Task ι → Except Halt (World ι × List (Task ι))
  | .conn c t => if w.alive c then performConn who k w c t else .error (.fault .undefined)
  | .timerRead loop =>
    match (w.timers loop).handleRead w.clock (w.count + 1) with
    | .ok (timers, expired) =>
      .ok ({ w with count := w.count + 1, timers := Function.update w.timers loop timers },
        expired.map fun t => .runTimer t.cb)
    | .error e => .error (.fault e)
  | .runTimer cb =>
    match cb with
    | .user => .ok (w, [.user])
    | .weakForceClose c => .ok (w, if w.alive c then [.conn c .forceClose] else [])
  | .runAfter loop ms =>
    let timer : Timer TimerCallback := ⟨.user, timeAdd (getCurrentTimeMS w.clock) ms, 0, w.count + 1⟩
    .ok ({ w with count := w.count + 1 }, [runInLoop who loop (.addTimerInloop loop timer)])
  | .addTimerInloop loop timer =>
    let timers := (w.timers loop).addTimerInloop w.clock timer
    .ok ({ w with timers := Function.update w.timers loop timers }, [])
  | .cancelInloop loop id =>
    match (w.timers loop).cancelInloop w.clock id with
    | .ok timers => .ok ({ w with timers := Function.update w.timers loop timers }, [])
    | .error e => .error (.fault e)
  | .acceptorRead =>
    match k.accept with
    | none => .error (.fault .exception)
    | some fd => newConnection who w fd
  | .user | .queueInLoop _ _ | .wakeup _ | .quit _ | .wakeupRead _ => .error .disabled

end perform

end VServer
