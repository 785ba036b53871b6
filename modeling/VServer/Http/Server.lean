import VServer.Http.Response
import VServer.Http.Wire
import VServer.Net.BufferFifo

/-!
# The HTTP server on one connection

`HttpServer::onMessage`, and the reads of one connection with it as the message callback. Two things
C++ leaves open are arguments (`Platform`): the order in which `dump` walks the header map, and what
a `m_version` that no assignment reached holds.
-/

namespace VServer

open Http

abbrev HttpCallback := HttpRequest → HttpResponse → HttpResponse

structure Platform where
  /-- The iteration order of an `unordered_map`. -/
  order : List (List Byte × List Byte) → List (List Byte × List Byte)
  /-- The value of an indeterminate `m_version`. -/
  junk : Version

/-- What a call of `onMessage` did: what it gave to `m_httpCallback`, what it sent, and whether it
called `shutdown()`. -/
structure Exchange where
  called : Option HttpRequest
  sent : List Byte
  close : Bool
  deriving DecidableEq, Repr

structure HttpServer where
  /-- `m_httpCallback` -/
  httpCallback : Option HttpCallback

namespace HttpServer

/-- A `size_t` passed as an `int`. -/
def toInt (n : Nat) : Int :=
  if n % 2 ^ 32 < 2 ^ 31 then (n % 2 ^ 32 : Nat) else (n % 2 ^ 32 : Nat) - 2 ^ 32

variable (server : HttpServer) (platform : Platform)

/-- The local `close` of `onMessage`. -/
def wantsClose (req : HttpRequest) : Bool :=
  req.getHeader (bytes "Connection") = bytes "close" ∨
    req.version.getD platform.junk = .http10 ∧ req.getHeader (bytes "Connection") ≠ bytes "Keep-Alive"

/-- The response the callback leaves. -/
def respond (req : HttpRequest) : HttpResponse :=
  let res := HttpResponse.init (wantsClose platform req)
  match server.httpCallback with
  | some callback => callback req res
  | none => res

/-- `onMessage`. `msg.c_str()` is the message and a NUL behind it. -/
def onMessage (buf : Buffer) : Except Fault (Buffer × Exchange) := do
  let (msg, buf) ← buf.retrieveAllAsString
  let req ← HttpRequest.fresh.parse (msg ++ [0]) (toInt msg.length)
  let res := server.respond platform req
  return (buf, ⟨server.httpCallback.map fun _ => req, res.dump platform.order,
    wantsClose platform req⟩)

/-- A successful `handleRead` of the connection. -/
def receive (buf : Buffer) (piece : List Byte) : Except Fault (Buffer × Exchange) := do
  let buf ← buf.readOnece piece
  server.onMessage platform buf

/-- The successful reads of a connection, one after another. -/
def serve (buf : Buffer) : List (List Byte) → Except Fault (List Exchange)
  | [] => .ok []
  | piece :: pieces => do
    let (buf, exchange) ← server.receive platform buf piece
    let exchanges ← serve buf pieces
    return exchange :: exchanges

/-- The kernel's part in these reads: each returns something, and no more than `readOnece` offered
room for. -/
def Delivers (buf : Buffer) : List (List Byte) → Prop
  | [] => True
  | piece :: pieces =>
    piece ≠ [] ∧ piece.length ≤ buf.offered ∧
      ∀ buf' exchange, server.receive platform buf piece = .ok (buf', exchange) →
        Delivers buf' pieces

end HttpServer

end VServer
