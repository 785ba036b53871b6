import VServer.Basic
import VServer.Lib.Assoc
import VServer.Lib.Window

/-!
# The HTTP request parser

`HttpRequest` of `HttpRequeset.h` and its `parse` (`HttpRequeset.cc`), statement by statement. The
message is a pointer and a length in the source: here `mem` holds the bytes that may be read from
that pointer on, and a read past them is `Fault.undefined`. `step` is one turn of the loop's
`switch`, with the locals of `parse` in `Locals`.
-/

namespace VServer

open Storage

namespace Http

inductive Method where
  | delete | get | head | post | put | invalid
  deriving DecidableEq, Repr

inductive Version where
  | http10 | http11 | unknown
  deriving DecidableEq, Repr

def CR : Byte := 13
def LF : Byte := 10

def isblank (c : Byte) : Bool := c = 32 ∨ c = 9

def isupper (c : Byte) : Bool := 65 ≤ c ∧ c ≤ 90

/-- `isspace` of the C locale, which `stoi` skips. -/
def isspace (c : Byte) : Bool := c = 32 ∨ 9 ≤ c ∧ c ≤ 13

def isdigit (c : Byte) : Bool := 48 ≤ c ∧ c ≤ 57

def bytes (s : String) : List Byte := s.toList.map Char.toUInt8

def decimal (digits : List Byte) : Nat := digits.foldl (fun n c => 10 * n + (c.toNat - 48)) 0

/-- `std::stoi`: blanks, a sign, digits, and anything after them. It throws when there is no digit
(`invalid_argument`) and when the number is no `int` (`out_of_range`). -/
def stoi (s : List Byte) : Except Fault Int :=
  let t := s.dropWhile isspace
  let (negative, t) := match t with
    | 45 :: t => (true, t)
    | 43 :: t => (false, t)
    | t => (false, t)
  let digits := t.takeWhile isdigit
  let n : Int := decimal digits
  let n := if negative then -n else n
  if digits = [] then .error .exception
  else if -2 ^ 31 ≤ n ∧ n < 2 ^ 31 then .ok n else .error .exception

end Http

open Http

inductive ParseState where
  | invalid | invalidMethod | invalidPath | invalidVersion | invalidHeader
  | start
  | method
  | beforePath | path
  | beforeParamKey | paramKey | beforeParamValue | paramValue
  | beforeVersion | version
  | headerKey | beforeHeaderValue | headerValue
  | wCr | wCrLf | wCrLfCr
  | body | «end»
  deriving DecidableEq, Repr

/-- The states the loop of `parse` stops in. -/
def ParseState.stopped : ParseState → Bool
  | .invalid | .invalidHeader | .invalidMethod | .invalidPath | .invalidVersion | .end => true
  | _ => false

/-- `m_method` and `m_version` have no initialiser: `none` stands for the indeterminate value. -/
structure HttpRequest where
  method : Option Method
  version : Option Version
  path : List Byte
  params : List (List Byte × List Byte)
  heads : List (List Byte × List Byte)
  body : List Byte
  state : ParseState
  deriving DecidableEq, Repr

namespace HttpRequest

/-- `HttpRequest req;` -/
def fresh : HttpRequest := ⟨none, none, [], [], [], [], .start⟩

def setMethod (req : HttpRequest) (m : List Byte) : HttpRequest :=
  { req with method := some (
      if m = bytes "DELETE" then .delete
      else if m = bytes "GET" then .get
      else if m = bytes "HEAD" then .head
      else if m = bytes "POST" then .post
      else if m = bytes "PUT" then .put
      else .invalid) }

def setVersion (req : HttpRequest) (m : List Byte) : HttpRequest :=
  { req with version := some (
      if m = bytes "HTTP/1.1" then .http11
      else if m = bytes "HTTP/1.0" then .http10
      else .unknown) }

def setPath (req : HttpRequest) (m : List Byte) : HttpRequest := { req with path := m }

def addParams (req : HttpRequest) (key val : List Byte) : HttpRequest :=
  { req with params := Assoc.insert req.params key val }

def addHeader (req : HttpRequest) (key val : List Byte) : HttpRequest :=
  { req with heads := Assoc.insert req.heads key val }

def getHeader (req : HttpRequest) (key : List Byte) : List Byte := (req.heads.lookup key).getD []

def goto (req : HttpRequest) (state : ParseState) : HttpRequest := { req with state := state }

end HttpRequest

/-- The object and the local variables of `parse`. `pos` is both `pos` and `p - msg`, and `begin`
is an offset from `msg` too. `param_value` and `header_value` live for one statement only. -/
structure Locals where
  req : HttpRequest
  pos : Nat
  begin : Nat
  paramKey : List Byte
  headerKey : List Byte
  bodyLength : Int
  deriving DecidableEq, Repr

namespace Locals

variable (s : Locals)

/-- `m_state = state` -/
def goto (state : ParseState) : Locals := { s with req := s.req.goto state }

/-- `begin = p` -/
def mark : Locals := { s with begin := s.pos }

end Locals

/-- `std::string(first, last)` on the message. -/
def text (mem : List Byte) (first last : Nat) : Except Fault (List Byte) :=
  if last ≤ mem.length then .ok (window mem first last) else .error .undefined

/-- The state after the value of a header, at `\r`. -/
def endHeader (mem : List Byte) (s : Locals) : Except Fault Locals := do
  let value ← text mem s.begin s.pos
  return { s with req := (s.req.addHeader s.headerKey value).goto .wCr }

/-- The `switch` of `parse`. -/
def step (mem : List Byte) (len : Nat) (s : Locals) (c : Byte) : Except Fault Locals :=
  match s.req.state with
  | .start =>
    if c = CR ∨ c = LF ∨ isblank c then .ok s
    else if isupper c then .ok (s.mark.goto .method)
    else .ok (s.goto .invalid)
  | .method =>
    if isupper c then .ok s
    else if isblank c then do
      let m ← text mem s.begin s.pos
      return ({ s with req := s.req.setMethod m }.mark).goto .beforePath
    else .ok (s.goto .invalidMethod)
  | .beforePath =>
    if isblank c then .ok s
    else if c = 47 then .ok (s.mark.goto .path)
    else .ok (s.goto .invalidPath)
  | .path =>
    if isblank c then do
      let m ← text mem s.begin s.pos
      return { s with req := s.req.setPath m }.goto .beforeVersion
    else if c = 63 then do
      let m ← text mem s.begin s.pos
      return { s with req := s.req.setPath m }.goto .beforeParamKey
    else .ok s
  | .beforeParamKey =>
    if isblank c ∨ c = LF ∨ c = CR then .ok (s.goto .invalidPath)
    else .ok (s.mark.goto .paramKey)
  | .paramKey =>
    if c = 61 then do
      let key ← text mem s.begin s.pos
      return { s with paramKey := key }.goto .beforeParamValue
    else if isblank c then .ok (s.goto .invalidPath)
    else .ok s
  | .beforeParamValue =>
    if isblank c ∨ c = LF ∨ c = CR then .ok (s.goto .invalidPath)
    else .ok (s.mark.goto .paramValue)
  | .paramValue =>
    if c = 38 then do
      let value ← text mem s.begin s.pos
      return { s with req := s.req.addParams s.paramKey value }.goto .beforeParamKey
    else if isblank c then do
      let value ← text mem s.begin s.pos
      return { s with req := s.req.addParams s.paramKey value }.goto .beforeVersion
    else .ok s
  | .beforeVersion =>
    if isblank c then .ok s else .ok (s.mark.goto .version)
  | .version =>
    if c = CR then do
      let m ← text mem s.begin s.pos
      return { s with req := s.req.setVersion m }.goto .wCr
    else .ok s
  | .headerKey =>
    if c = 58 then do
      let key ← text mem s.begin s.pos
      return { s with headerKey := key }.goto .beforeHeaderValue
    else .ok s
  | .beforeHeaderValue =>
    -- no `break`: the byte is looked at again as part of the value
    let s' := if isblank c then s else s.mark.goto .headerValue
    if c = CR then endHeader mem s' else .ok s'
  | .headerValue =>
    if c = CR then endHeader mem s else .ok s
  | .body =>
    -- `assign(p, bodyLength)`; the count is converted to `size_t`
    if s.bodyLength < 0 then .error .exception
    else do
      let body ← text mem s.pos (s.pos + s.bodyLength.toNat)
      return { s with req := { s.req with body := body } }.goto .end
  | .wCr =>
    if c = LF then .ok (s.goto .wCrLf) else .ok (s.goto .invalid)
  | .wCrLf =>
    if c = CR then .ok (s.goto .wCrLfCr)
    else if isblank c then .ok (s.goto .invalid)
    else .ok (s.mark.goto .headerKey)
  | .wCrLfCr =>
    if c = LF then
      match s.req.heads.lookup (bytes "Content-Length") with
      | some value => do
        let bodyLength ← stoi value
        return { s with bodyLength := bodyLength }.goto (if 0 < bodyLength then .body else .end)
      | none =>
        if s.pos < len then .ok ({ s with bodyLength := len - s.pos - 1 }.goto .body)
        else .ok (s.goto .end)
    else .ok s
  | .invalid | .invalidMethod | .invalidPath | .invalidVersion | .invalidHeader | .end => .ok s

/-- The loop of `parse`; `fuel` bounds its turns, and each turn moves `pos` by one. -/
def loop (mem : List Byte) (len : Nat) : Nat → Locals → Except Fault Locals
  | 0, s => .ok s
  | fuel + 1, s =>
    if s.req.state.stopped = false ∧ s.pos < len then
      match mem[s.pos]? with
      | none => .error .undefined
      | some c => do
        let s' ← step mem len s c
        loop mem len fuel { s' with pos := s'.pos + 1 }
    else .ok s

/-- `parse(msg, len)` where the bytes `mem` may be read from `msg` on. A negative `len` reads
nothing. -/
def HttpRequest.parse (req : HttpRequest) (mem : List Byte) (len : Int) :
    Except Fault HttpRequest := do
  let s ← loop mem len.toNat len.toNat ⟨req, 0, 0, [], [], 0⟩
  return s.req

end VServer
