import VServer.Http.Request

/-!
# The HTTP response

`HttpResponse` of `HttpResponse.h` and its `dump`. The header map of the source is an
`unordered_map`: `dump` takes the order it iterates in as an argument.
-/

namespace VServer

open Http

namespace Http

inductive StatusCode where
  | ok | badRequest | notFound | internalServerError | unknown
  deriving DecidableEq, Repr

/-- `static_cast<int>(m_statueCode)` -/
def StatusCode.toNat : StatusCode → Nat
  | .ok => 200
  | .badRequest => 400
  | .notFound => 404
  | .internalServerError => 500
  | .unknown => 501

/-- A number as `operator<<` writes it. -/
def numberText (n : Nat) : List Byte := (Nat.toDigits 10 n).map Char.toUInt8

end Http

structure HttpResponse where
  headers : List (List Byte × List Byte)
  version : Version
  statusCode : StatusCode
  body : List Byte
  closeConnection : Bool
  deriving DecidableEq, Repr

namespace HttpResponse

/-- `HttpResponse(close)` -/
def init (close : Bool) : HttpResponse := ⟨[], .http11, .unknown, [], close⟩

variable (res : HttpResponse)

def setVersion (version : Version) : HttpResponse := { res with version := version }
def setStatus (code : StatusCode) : HttpResponse := { res with statusCode := code }
def setBody (body : List Byte) : HttpResponse := { res with body := body }
def setCloseConnection (on : Bool) : HttpResponse := { res with closeConnection := on }

def addHeader (key value : List Byte) : HttpResponse :=
  { res with headers := Assoc.insert res.headers key value }

def getStatusMessage : List Byte :=
  match res.statusCode with
  | .ok => bytes "Ok"
  | .badRequest => bytes "Bad Request"
  | .notFound => bytes "Not Found"
  | .internalServerError => bytes "Internal Server Error"
  | .unknown => bytes "Unknown"

def getVersionMessage : List Byte :=
  match res.version with
  | .http10 => bytes "HTTP/1.0"
  | .http11 => bytes "HTTP/1.1"
  | .unknown => bytes "Unknown"

/-- A header line of `dump`. -/
def line (header : List Byte × List Byte) : List Byte :=
  header.1 ++ bytes ": " ++ header.2 ++ [CR, LF]

/-- The lines `dump` writes of its own accord. -/
def generated : List (List Byte × List Byte) :=
  if res.closeConnection then [(bytes "Connection", bytes "close")]
  else [(bytes "Content-Length", numberText res.body.length), (bytes "Connection", bytes "Keep-Alive")]

/-- `dump()`; `order` is the header map in the order of its iteration. -/
def dump (order : List (List Byte × List Byte) → List (List Byte × List Byte)) : List Byte :=
  res.getVersionMessage ++ [32] ++ numberText res.statusCode.toNat ++ [32] ++ res.getStatusMessage ++
    [CR, LF] ++ res.generated.flatMap line ++ (order res.headers).flatMap line ++ [CR, LF] ++ res.body

end HttpResponse

end VServer
