import VServer.Net.Buffer
import VServer.Net.Poller

/-!
# A connection

The parts of `TcpConnection` (`Connection.h`, `Connection.cc`) that touch nothing but the connection,
its channel and the poller of its loop. `ι` names the threads; `self` is the number of the
connection, under which its channel is known to the poller. What runs around these parts, that is
the guards other threads evaluate, the queues and the user's callbacks, is in `Net.TcpServer`.

`ConnEvent` is what an observer sees of a connection. No code reads it.
-/

namespace VServer

/-- `TcpConnection::StateE` -/
inductive StateE where
  | kDisconnected | kConnecting | kConnected | kDisconnecting
  deriving DecidableEq, Repr

/-- What is observed of one connection. -/
inductive ConnEvent (ι : Type) where
  /-- `send` found the connection `kConnected` -/
  | accepted (sender : ι) (message : List Byte)
  /-- `sendInLoop` ran -/
  | sent (sender : ι) (message : List Byte)
  /-- `::write` was handed `data` and took the first bytes of it -/
  | write (data : List Byte) (taken : Nat)
  /-- `::shutdown(fd, SHUT_WR)` -/
  | shutdownWrite
  /-- `m_connectionCallback` was called, and `m_state` then -/
  | notified (state : StateE)
  /-- `m_messageCallback` was called -/
  | message
  /-- `handleError` ran -/
  | error
  /-- `handleClose` called `m_closeCallback` -/
  | closed
  /-- `removeConnectionInLoop` erased the connection and took it off the count of its loop -/
  | removed
  /-- `connectDestroyed` returned, and `m_state` then -/
  | destroyed (state : StateE)
  deriving DecidableEq, Repr

structure TcpConnection (ι : Type) where
  loop : ι
  channel : Channel
  state : StateE
  inputBuffer : SafeBuffer
  outputBuffer : SafeBuffer
  delay : Nat
  timerId : UInt64

namespace TcpConnection

variable {ι : Type}

/-- `TcpConnection(loop, name, sockfd, …, delay)` -/
def init (loop : ι) (sockfd delay : Nat) : TcpConnection ι where
  loop := loop
  channel := .init sockfd
  state := .kConnecting
  inputBuffer := .init Buffer.kInitialSize
  outputBuffer := .init Buffer.kInitialSize
  delay := delay
  timerId := UInt64.ofNat (2 ^ 64 - 1)

/-- What a part of a connection returns: the connection, the poller of its loop, and what was seen. -/
abbrev Result (ι : Type) := TcpConnection ι × Poller Nat × List (ConnEvent ι)

variable (conn : TcpConnection ι) (self : Nat) (p : Poller Nat)

def withChannel (op : Nat → Poller Nat → Channel → Except Fault (Poller Nat × Channel)) :
    Except Fault (TcpConnection ι × Poller Nat) := do
  let (p, channel) ← op self p conn.channel
  return ({ conn with channel := channel }, p)

/-- `m_state == kConnected || m_state == kDisconnecting` -/
def isOpen : Bool := conn.state = .kConnected ∨ conn.state = .kDisconnecting

def connectEstablished : Except Fault (Result ι) :=
  if conn.state = .kConnecting then do
    let (conn, p) ← { conn with state := .kConnected }.withChannel self p Channel.enableReading
    return (conn, p, [.notified conn.state])
  else .error (.assertion .connectEstablished)

/-- The `disableAll` of `connectDestroyed` and its callback. -/
def notifyDown : Except Fault (Result ι) := do
  let (conn, p) ← conn.withChannel self p Channel.disableAll
  return (conn, p, [.notified conn.state])

/-- The `m_channel->remove()` of `connectDestroyed`. -/
def channelRemove : Except Fault (Result ι) := do
  let (conn, p) ← conn.withChannel self p Channel.remove
  return (conn, p, [.destroyed conn.state])

/-- The bytes `::write` took of `data` when it returned `written`. -/
def taken (data : List Byte) (written : Option Nat) : Nat := min (written.getD 0) data.length

/-- `sendInLoop`; `written` is what `::write` returns if it is called, and `sender` the thread whose
`send` this is. -/
def sendInLoop (sender : ι) (message : List Byte) (written : Option Nat) : Except Fault (Result ι) :=
  let direct := !conn.channel.isWritable && conn.outputBuffer.readableBytes = 0
  let nwrote := if direct then taken message written else 0
  let wrote := if direct then [.write message nwrote] else []
  if nwrote < message.length then
    let conn := { conn with outputBuffer := conn.outputBuffer.append (message.drop nwrote) }
    if conn.channel.isWritable then .ok (conn, p, wrote ++ [.sent sender message])
    else do
      let (conn, p) ← conn.withChannel self p Channel.enableWriting
      return (conn, p, wrote ++ [.sent sender message])
  else .ok (conn, p, wrote ++ [.sent sender message])

def shutdownInLoop : List (ConnEvent ι) := if conn.channel.isWritable then [] else [.shutdownWrite]

/-- `handleWrite`; `written` is what `::write` returns if it is called. -/
def handleWrite (written : Option Nat) : Except Fault (Result ι) :=
  if conn.channel.isWritable then
    let data := conn.outputBuffer.readable
    let n := taken data written
    let wrote := [.write data n]
    if 0 < n then do
      let conn := { conn with outputBuffer := conn.outputBuffer.retrieve n }
      let (conn, p) ← if conn.outputBuffer.readableBytes = 0 then
          conn.withChannel self p Channel.disableWriting
        else .ok (conn, p)
      return (conn, p, wrote ++ if conn.state = .kDisconnecting then conn.shutdownInLoop else [])
    else .ok (conn, p, wrote)
  else .ok (conn, p, [])

def handleClose : Except Fault (Result ι) :=
  if conn.isOpen then do
    let (conn, p) ← conn.withChannel self p Channel.disableAll
    return (conn, p, [.closed])
  else .error (.assertion .handleClose)

/-- `readOnece` on the input buffer, when `readv` returned `data`. -/
def receive (data : List Byte) : TcpConnection ι :=
  { conn with inputBuffer := conn.inputBuffer.readOnece data }

/-- `(int)m_timerId != -1` -/
def isTimed : Bool := conn.timerId.toUInt32 ≠ UInt32.ofNat (2 ^ 32 - 1)

theorem init_isTimed (loop : ι) (sockfd delay : Nat) : (init loop sockfd delay).isTimed = false := by
  show decide ((UInt64.ofNat (2 ^ 64 - 1)).toUInt32 ≠ UInt32.ofNat (2 ^ 32 - 1)) = false
  decide

end TcpConnection

end VServer
