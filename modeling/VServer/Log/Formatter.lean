import VServer.Http.Response

/-!
# The log formatter

`LogFormatter` of `Log.h` and `Log.cc`: `init` cuts the pattern into literals and directives, and
`format` writes one item after another. `i` and `n` are offsets into `m_pattern`, as in the source.
-/

namespace VServer

open Http

namespace LogLevel

inductive Level where
  | UNKNOW | DEBUG | INFO | WARN | ERROR | FATAL
  deriving DecidableEq, Repr

def toString : Level → List Byte
  | .DEBUG => bytes "DEBUG"
  | .INFO => bytes "INFO"
  | .WARN => bytes "WARN"
  | .ERROR => bytes "ERROR"
  | .FATAL => bytes "FATAL"
  | .UNKNOW => bytes "UNKNOW"

end LogLevel

/-- `LogEvent`; of its logger, the name. `content` is what was written to `m_ss`. -/
structure LogEvent where
  loggerName : List Byte
  level : LogLevel.Level
  file : List Byte
  line : Int32
  threadId : UInt32
  fiberId : UInt32
  time : UInt64
  content : List Byte
  deriving DecidableEq

def LogEvent.getFiberId (event : LogEvent) : Int32 := event.fiberId.toInt32

/-- A signed number as `operator<<` writes it. -/
def signedText (n : Int) : List Byte := if n < 0 then 45 :: numberText n.natAbs else numberText n.natAbs

/-- The classes derived from `FormatItem`, with what they store. -/
inductive FormatItem where
  | string (text : List Byte)
  | message
  | level
  | name
  | threadId
  | newLine
  | dateTime (format : List Byte)
  | filename
  | line
  | tab
  | fiberId
  | threadName
  deriving DecidableEq, Repr

/-- The constructor of `DateTimeFormatItem`. -/
def FormatItem.ofFormat (format : List Byte) : FormatItem :=
  .dateTime (if format = [] then bytes "%Y-%m-%d %H:%M:%S" else format)

/-- `strftime time format` is what `localtime_r` and `strftime` leave in `buf`. -/
def FormatItem.format (strftime : UInt64 → List Byte → List Byte) (event : LogEvent) :
    FormatItem → List Byte
  | .string text => text
  | .message => event.content
  | .level => LogLevel.toString event.level
  | .name => event.loggerName
  | .threadId => numberText event.threadId.toNat
  | .newLine => [LF]
  | .dateTime format => strftime event.time format
  | .filename => event.file
  | .line => signedText event.line.toInt
  | .tab => [9]
  | .fiberId => signedText event.getFiberId.toInt
  | .threadName => numberText event.threadId.toNat

structure LogFormatter where
  pattern : List Byte
  error : Bool
  items : List FormatItem
  deriving DecidableEq, Repr

namespace LogFormatter

def isalpha (c : Byte) : Bool := 65 ≤ c ∧ c ≤ 90 ∨ 97 ≤ c ∧ c ≤ 122

def percent : Byte := 37
def openBrace : Byte := 123
def closeBrace : Byte := 125

/-- `s_format_items`, each entry applied to `fmt`. -/
def formatItems (fmt : List Byte) : List (List Byte × FormatItem) :=
  [(bytes "m", .message), (bytes "p", .level), (bytes "c", .name), (bytes "t", .threadId),
    (bytes "n", .newLine), (bytes "d", .ofFormat fmt), (bytes "f", .filename), (bytes "l", .line),
    (bytes "T", .tab), (bytes "F", .fiberId), (bytes "N", .threadName)]

/-! ## The scanner -/

/-- The locals of the inner loop. -/
structure Directive where
  n : Nat
  /-- `fmt_status` is 1 -/
  fmtStatus : Bool
  fmtBegin : Nat
  str : List Byte
  fmt : List Byte
  deriving DecidableEq, Repr

/-- What `init` has in hand between two turns of its outer loop. -/
structure Scan where
  i : Nat
  nstr : List Byte
  /-- The third component is 0 for a literal, 1 for a directive. -/
  vec : List (List Byte × List Byte × Nat)
  error : Bool
  deriving DecidableEq, Repr

variable (pattern : List Byte)

/-- `m_pattern.substr(pos, len)` -/
def substr (pos len : Nat) : List Byte := (pattern.drop pos).take len

/-- The inner loop; the list is the rest of the pattern from `n` on. -/
def scanDirective (i : Nat) : List Byte → Directive → Directive
  | [], d => d
  | c :: rest, d =>
    if !d.fmtStatus && (!isalpha c && c != openBrace && c != closeBrace) then
      { d with str := substr pattern (i + 1) (d.n - i - 1) }
    else if !d.fmtStatus && c == openBrace then
      scanDirective i rest { d with
        str := substr pattern (i + 1) (d.n - i - 1)
        fmtStatus := true
        fmtBegin := d.n
        n := d.n + 1 }
    else if d.fmtStatus && c == closeBrace then
      { d with
        fmt := substr pattern (d.fmtBegin + 1) (d.n - d.fmtBegin - 1)
        fmtStatus := false
        n := d.n + 1 }
    else
      scanDirective i rest { d with
        n := d.n + 1
        str := if d.n + 1 = pattern.length ∧ d.str = [] then pattern.drop (i + 1) else d.str }

/-- What `init` pushes for the literal that it has collected. -/
def flush (nstr : List Byte) : List (List Byte × List Byte × Nat) :=
  if nstr = [] then [] else [(nstr, [], 0)]

def turn (s : Scan) : Scan :=
  match pattern.drop s.i with
  | [] => s
  | c :: rest =>
    if c ≠ percent then { s with nstr := s.nstr ++ [c], i := s.i + 1 }
    else if rest.head? = some percent then { s with nstr := s.nstr ++ [percent], i := s.i + 1 }
    else
      let d := scanDirective pattern s.i rest ⟨s.i + 1, false, 0, [], []⟩
      if d.fmtStatus then
        -- the brace is not closed; what stands behind the percent sign is read once more
        { s with error := true, vec := s.vec ++ [(bytes "<<pattern_error>>", d.fmt, 0)], i := s.i + 1 }
      else { s with vec := s.vec ++ flush s.nstr ++ [(d.str, d.fmt, 1)], nstr := [], i := d.n }

/-- The outer loop. Each turn makes `i` larger, so it ends within the length of the pattern. -/
def loop : Nat → Scan → Scan
  | 0, s => s
  | fuel + 1, s => if s.i < pattern.length then loop fuel (turn pattern s) else s

/-- The items for one entry of `vec`. -/
def addItem (f : LogFormatter) (entry : List Byte × List Byte × Nat) : LogFormatter :=
  if entry.2.2 = 0 then { f with items := f.items ++ [.string entry.1] }
  else match (formatItems entry.2.1).lookup entry.1 with
    | none => { f with
        items := f.items ++ [.string (bytes "<<error_format %" ++ entry.1 ++ bytes ">>")]
        error := true }
    | some item => { f with items := f.items ++ [item] }

/-- `LogFormatter(pattern)`, which calls `init()`. -/
def init : LogFormatter :=
  let s := loop pattern pattern.length ⟨0, [], [], false⟩
  (s.vec ++ flush s.nstr).foldl addItem ⟨pattern, s.error, []⟩

/-- `format(event)` -/
def format (f : LogFormatter) (strftime : UInt64 → List Byte → List Byte) (event : LogEvent) :
    List Byte := f.items.flatMap (FormatItem.format strftime event)

end LogFormatter

end VServer
