import VServer.Log.AsyncLogging
import VServer.Log.Record

/-!
# Loggers and appenders

`LOG_LEVEL`, `LogManager`, `Logger` and the classes derived from `LogAppender` (`Log.h`, `Log.cc`) as
one machine. A log statement that passes the level of its logger makes a `LogEvent`, and when the
statement ends `Logger::log` hands it to one appender after another (`visit`); the threads `ι` do so
side by side. The background threads of the asynchronous appenders take their steps between.

An asynchronous appender has the event formatted by itself and appends the whole text. In the other two
the formatter writes to the stream item by item, and nothing keeps a second thread out: on `std::cout`
the items of the two mix, and a second thread in a `FileLogAppender` is a data race, which is a fault
here. So is a call that changes a logger while a thread is in its `log`; such calls come one at a time.
-/

namespace VServer

/-- The values of the enumeration, which `LOG_LEVEL` compares. -/
def LogLevel.Level.val : LogLevel.Level → Nat
  | .UNKNOW => 0
  | .DEBUG => 1
  | .INFO => 2
  | .WARN => 3
  | .ERROR => 4
  | .FATAL => 5

/-! ## Appenders -/

structure FileLogAppender where
  filename : List Byte
  /-- `m_filestream` could be opened. -/
  isOpen : Bool
  /-- What was written to `m_filestream`. -/
  filestream : List Byte

/-- `reopen()` of the constructor; `opened` is the answer of the file system. -/
def FileLogAppender.init (filename : List Byte) (opened : Bool) : FileLogAppender := ⟨filename, opened, []⟩

/-- A stream that has failed takes nothing. -/
def FileLogAppender.write (f : FileLogAppender) (text : List Byte) : FileLogAppender :=
  { f with filestream := if f.isOpen then f.filestream ++ text else f.filestream }

/-- What a step of the background thread writes to `m_os`. -/
def AsyncLogging.written (s : AsyncLogging) (label : AsyncLogging.Label) : List (List Byte) :=
  match label, s.phase with
  | .write, .writing output => [output]
  | _, _ => []

/-- The classes derived from `LogAppender`. The last one writes to the stream of its base class. -/
inductive LogAppender where
  | stdout
  | file (base : FileLogAppender)
  | asyncStdout (asylogging : AsyncLogging)
  | asyncFile (base : FileLogAppender) (asylogging : AsyncLogging)

namespace LogAppender

def isAsync : LogAppender → Bool
  | .asyncStdout _ | .asyncFile _ _ => true
  | .stdout | .file _ => false

def isFile : LogAppender → Bool
  | .file _ => true
  | _ => false

/-- `log` of an asynchronous appender, with the text that the formatter made. -/
def log (text : List Byte) : LogAppender → Except Halt LogAppender
  | .stdout | .file _ => .error .disabled
  | .asyncStdout s => ((s.appendLine text).mapError .fault).map .asyncStdout
  | .asyncFile base s => ((s.appendLine text).mapError .fault).map (.asyncFile base)

/-- What the formatter writes to the stream of an appender without a buffer. -/
def write (text : List Byte) : LogAppender → LogAppender
  | .file base => .file (base.write text)
  | appender => appender

/-- What the formatter writes to `std::cout`. -/
def prints (text : List Byte) : LogAppender → List (List Byte)
  | .stdout => [text]
  | _ => []

/-- A step of the background thread, and what it writes to `std::cout`. -/
def background (label : AsyncLogging.Label) : LogAppender → Except Halt (LogAppender × List (List Byte))
  | .stdout => .error .disabled
  | .file _ => .error .disabled
  | .asyncStdout s => (s.step label).map fun s' => (.asyncStdout s', s.written label)
  | .asyncFile base s => (s.step label).map fun s' =>
      (.asyncFile ((s.written label).foldl FileLogAppender.write base) s', [])

end LogAppender

/-! ## Loggers -/

/-- `Logger`; `κ` stands for the pointers to the appenders. -/
structure Logger (κ : Type) where
  level : LogLevel.Level
  name : List Byte
  appenders : List κ
  formatter : LogFormatter

namespace Logger

/-- The appender that the constructor makes, if any; `date` is today's, as `strftime` wrote it. -/
def defaultAppender (name default_appender date : List Byte) (opened : Bool) : Option LogAppender :=
  if default_appender = Http.bytes "cout" then some .stdout
  else if default_appender = Http.bytes "file" then
    some (.file (.init (name ++ Http.bytes "_" ++ date ++ Http.bytes ".log") opened))
  else none

variable {κ : Type} [DecidableEq κ]

/-- The constructor; `made` is the appender it made. -/
def init (name : List Byte) (level : LogLevel.Level) (made : Option κ) : Logger κ :=
  ⟨level, name, made.toList, defaultFormatter⟩

variable (logger : Logger κ)

def addLogAppender (appender : κ) : Logger κ := { logger with appenders := logger.appenders ++ [appender] }

/-- `list::remove` takes every one that is equal. -/
def delLogAppender (appender : κ) : Logger κ :=
  if logger.appenders.length = 0 then logger
  else { logger with appenders := logger.appenders.filter (· ≠ appender) }

def setFormatter (fmtr : List Byte) : Logger κ := { logger with formatter := .init fmtr }

end Logger

/-- What a log statement says of itself. -/
structure Statement where
  level : LogLevel.Level
  file : List Byte
  line : Int32
  threadId : UInt32
  fiberId : UInt32
  time : UInt64
  content : List Byte
  deriving DecidableEq

def Statement.event (st : Statement) (name : List Byte) : LogEvent :=
  ⟨name, st.level, st.file, st.line, st.threadId, st.fiberId, st.time, st.content⟩

/-! ## The machine -/

/-- A thread in `Logger::log`. -/
structure LogCall (Λ κ : Type) where
  logger : Λ
  event : LogEvent
  /-- The appender without a buffer whose `log` the thread is in, and the items still to be written. -/
  inside : Option (κ × List FormatItem)
  /-- The appenders to come. -/
  rest : List κ

structure LogSystem (ι Λ κ : Type) where
  loggers : Λ → Logger κ
  appenders : κ → LogAppender
  /-- What was written to `std::cout`, each text with its appender; no code reads who wrote it. -/
  cout : List (κ × List Byte)
  logging : ι → Option (LogCall Λ κ)

namespace LogSystem

inductive Label (ι Λ κ : Type) where
  | addLogAppender (logger : Λ) (appender : κ)
  | delLogAppender (logger : Λ) (appender : κ)
  | setFormatter (logger : Λ) (fmtr : List Byte)
  /-- `LOG_LEVEL(logger, level) << content;` up to the call of `Logger::log` -/
  | statement (who : ι) (logger : Λ) (st : Statement)
  /-- The thread goes on in `Logger::log`: into the next appender, by one item, or out again. -/
  | visit (who : ι)
  /-- The background thread of the appender, or a call of `start` or `stop`. -/
  | background (appender : κ) (label : AsyncLogging.Label)

variable {ι Λ κ : Type} [DecidableEq ι] [DecidableEq Λ] [DecidableEq κ]

def Label.configures : Label ι Λ κ → Option (Λ × (Logger κ → Logger κ))
  | .addLogAppender l a => some (l, fun logger => logger.addLogAppender a)
  | .delLogAppender l a => some (l, fun logger => logger.delLogAppender a)
  | .setFormatter l fmtr => some (l, fun logger => logger.setFormatter fmtr)
  | _ => none

def start (loggers : Λ → Logger κ) (appenders : κ → LogAppender) : LogSystem ι Λ κ :=
  ⟨loggers, appenders, [], fun _ => none⟩

section

variable (σ : LogSystem ι Λ κ)

/-- A thread is in `log` of the logger. -/
def Busy (l : Λ) : Prop := ∃ who, (σ.logging who).map LogCall.logger = some l

instance [Fintype ι] (l : Λ) : Decidable (σ.Busy l) :=
  inferInstanceAs (Decidable (∃ who, (σ.logging who).map LogCall.logger = some l))

def place (who : ι) : Option κ := ((σ.logging who).bind LogCall.inside).map Prod.fst

/-- A thread is in `log` of the appender. -/
def Occupied (a : κ) : Prop := ∃ who, σ.place who = some a

instance [Fintype ι] (a : κ) : Decidable (σ.Occupied a) :=
  inferInstanceAs (Decidable (∃ who, σ.place who = some a))

def Passes (l : Λ) (st : Statement) : Prop := (σ.loggers l).level.val ≤ st.level.val

instance (l : Λ) (st : Statement) : Decidable (σ.Passes l st) :=
  inferInstanceAs (Decidable ((σ.loggers l).level.val ≤ st.level.val))

def setLogging (who : ι) (call : Option (LogCall Λ κ)) : LogSystem ι Λ κ :=
  { σ with logging := Function.update σ.logging who call }

def log (a : κ) (text : List Byte) : Except Halt (LogSystem ι Λ κ) :=
  ((σ.appenders a).log text).map fun appender => { σ with
    appenders := Function.update σ.appenders a appender }

def write (a : κ) (text : List Byte) : LogSystem ι Λ κ :=
  { σ with
    appenders := Function.update σ.appenders a ((σ.appenders a).write text)
    cout := σ.cout ++ ((σ.appenders a).prints text).map (a, ·) }

end

variable [Fintype ι] (strftime : UInt64 → List Byte → List Byte) (σ : LogSystem ι Λ κ)

def configure (l : Λ) (change : Logger κ → Logger κ) : Except Halt (LogSystem ι Λ κ) :=
  if σ.Busy l then .error (.fault .undefined)
  else .ok { σ with loggers := Function.update σ.loggers l (change (σ.loggers l)) }

/-- `Logger::log`, one step of it -/
def visit (who : ι) (call : LogCall Λ κ) : Except Halt (LogSystem ι Λ κ) :=
  match call.inside, call.rest with
  | some (a, item :: items), _ =>
    .ok ((σ.setLogging who (some { call with inside := some (a, items) })).write a
      (item.format strftime call.event))
  | some (_, []), _ => .ok (σ.setLogging who (some { call with inside := none }))
  | none, [] => .ok (σ.setLogging who none)
  | none, a :: rest =>
    let formatter := (σ.loggers call.logger).formatter
    if (σ.appenders a).isAsync then
      (σ.setLogging who (some { call with rest := rest })).log a (formatter.format strftime call.event)
    else if (σ.appenders a).isFile ∧ σ.Occupied a then .error (.fault .undefined)
    else .ok (σ.setLogging who
      (some { call with inside := some (a, formatter.items), rest := rest }))

def step (label : Label ι Λ κ) : Except Halt (LogSystem ι Λ κ) :=
  match label with
  | .addLogAppender l a => σ.configure l fun logger => logger.addLogAppender a
  | .delLogAppender l a => σ.configure l fun logger => logger.delLogAppender a
  | .setFormatter l fmtr => σ.configure l fun logger => logger.setFormatter fmtr
  | .statement who l st =>
    match σ.logging who with
    | some _ => .error .disabled
    | none =>
      if σ.Passes l st then
        let logger := σ.loggers l
        .ok (σ.setLogging who (some ⟨l, st.event logger.name, none, logger.appenders⟩))
      else .ok σ
  | .visit who =>
    match σ.logging who with
    | none => .error .disabled
    | some call => σ.visit strftime who call
  | .background a label =>
    match label with
    | .append _ => .error .disabled
    | label => ((σ.appenders a).background label).map fun p => { σ with
        appenders := Function.update σ.appenders a p.1
        cout := σ.cout ++ p.2.map (a, ·) }

end LogSystem

end VServer
