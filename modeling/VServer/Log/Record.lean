import VServer.Http.RoundTrip
import VServer.Lib.Messages
import VServer.Log.Formatter

/-!
# The lines of a log read back

A `Logger` starts with a formatter of its own. Its pattern puts a tab between the fields of an event
and a line feed behind the event, so a file of such lines is read event by event (`reader_format`):
the date, the thread and the fiber, the level, the name of the logger, the place in the source and the
content. Of these only the content may hold a tab, and none may hold a line feed.
-/

namespace VServer

open Http Messages

/-! ## The default formatter -/

namespace Logger

/-- The pattern that the constructor of `Logger` writes down. -/
def defaultPattern : List Byte := bytes "%d\x7b%Y-%m-%d %H:%M:%S\x7d%T%t%T%F%T[%p]%T[%c] %f:%l %T%m%n"

def dateFormat : List Byte := bytes "%Y-%m-%d %H:%M:%S"

def defaultFormatter : LogFormatter := .init defaultPattern

theorem defaultFormatter_eq : defaultFormatter = ⟨defaultPattern, false,
    [.dateTime dateFormat, .tab, .threadId, .tab, .fiberId, .tab, .string (bytes "["), .level,
      .string (bytes "]"), .tab, .string (bytes "["), .name, .string (bytes "] "), .filename,
      .string (bytes ":"), .line, .string (bytes " "), .tab, .message, .newLine]⟩ := by
  decide +kernel

end Logger

/-! ## Records -/

def TAB : Byte := 9

def colon : Byte := 58

def closeBracket : Byte := 93

def LogLevel.ofText (text : List Byte) : Option LogLevel.Level :=
  [Level.UNKNOW, .DEBUG, .INFO, .WARN, .ERROR, .FATAL].find? fun level => toString level = text

theorem LogLevel.ofText_toString (level : LogLevel.Level) : ofText (toString level) = some level := by
  cases level <;> decide +kernel

theorem LogLevel.tab_notMem_toString (level : LogLevel.Level) :
    TAB ∉ toString level ∧ LF ∉ toString level := by
  cases level <;> decide +kernel

/-- What a line says of an event. -/
structure LogRecord where
  date : List Byte
  threadId : Nat
  fiberId : Int
  level : LogLevel.Level
  name : List Byte
  file : List Byte
  line : Int
  content : List Byte
  deriving DecidableEq, Repr

namespace LogRecord

/-- The number that `signedText` writes. -/
def signed : List Byte → Int
  | 45 :: digits => -(decimal digits : Int)
  | digits => decimal digits

def parse (text : List Byte) : Option LogRecord := do
  let (date, text) ← cutAt TAB text
  let (threadId, text) ← cutAt TAB text
  let (fiberId, text) ← cutAt TAB text
  let (level, text) ← cutAt TAB text
  let (place, content) ← cutAt TAB text
  let level ← LogLevel.ofText (level.drop 1).dropLast
  let (name, place) ← cutAt closeBracket (place.drop 1)
  let (file, line) ← cutAt colon (place.drop 1)
  return ⟨date, decimal threadId, signed fiberId, level, name, file, signed line.dropLast, content⟩

def reader : Reader LogRecord Byte := (Reader.upTo LF).filterMap parse

/-- What is to be read of an event. -/
def of (strftime : UInt64 → List Byte → List Byte) (event : LogEvent) : LogRecord where
  date := strftime event.time Logger.dateFormat
  threadId := event.threadId.toNat
  fiberId := event.getFiberId.toInt
  level := event.level
  name := event.loggerName
  file := event.file
  line := event.line.toInt
  content := event.content

/-- The fields keep clear of what stands between them. -/
structure Readable (strftime : UInt64 → List Byte → List Byte) (event : LogEvent) : Prop where
  date : ∀ c ∈ strftime event.time Logger.dateFormat, c ≠ TAB ∧ c ≠ LF
  name : ∀ c ∈ event.loggerName, c ≠ TAB ∧ c ≠ LF ∧ c ≠ closeBracket
  file : ∀ c ∈ event.file, c ≠ TAB ∧ c ≠ LF ∧ c ≠ colon
  content : LF ∉ event.content

/-! ## Numbers -/

theorem notMem_numberText {c : Byte} (hc : isdigit c = false) (n : Nat) : c ∉ numberText n := by
  intro hmem
  rw [isdigit_of_mem_numberText hmem] at hc
  cases hc

theorem notMem_signedText {c : Byte} (hc : isdigit c = false) (hsign : c ≠ 45) (n : Int) :
    c ∉ signedText n := by
  unfold signedText
  split_ifs
  · simp [hsign, notMem_numberText hc]
  · exact notMem_numberText hc _

theorem signed_signedText (n : Int) : signed (signedText n) = n := by
  unfold signedText
  split_ifs with hneg
  · rw [signed, decimal_numberText]
    omega
  · have hdigits : signed (numberText n.natAbs) = (decimal (numberText n.natAbs) : Int) := by
      unfold signed
      split
      · rename_i digits htext
        exact absurd (htext ▸ List.mem_cons_self) (notMem_numberText (by decide) n.natAbs)
      · rfl
    rw [hdigits, decimal_numberText]
    omega

/-! ## Lines -/

variable {strftime : UInt64 → List Byte → List Byte} {event : LogEvent}

/-- An event as the default formatter writes it, field by field. -/
def text (strftime : UInt64 → List Byte → List Byte) (event : LogEvent) : List Byte :=
  strftime event.time Logger.dateFormat ++ TAB :: (numberText event.threadId.toNat ++
    TAB :: (signedText event.getFiberId.toInt ++
    TAB :: ((91 :: LogLevel.toString event.level ++ [closeBracket]) ++
    TAB :: ((91 :: (event.loggerName ++ closeBracket ::
      32 :: (event.file ++ colon :: (signedText event.line.toInt ++ [32])))) ++
    TAB :: event.content))))

theorem format_eq_text (strftime : UInt64 → List Byte → List Byte) (event : LogEvent) :
    Logger.defaultFormatter.format strftime event = text strftime event ++ [LF] := by
  have hbytes : bytes "[" = [91] ∧ bytes "]" = [closeBracket] ∧ bytes "] " = [closeBracket, 32] ∧
      bytes ":" = [colon] ∧ bytes " " = [32] ∧ ([9] : List Byte) = [TAB] := by decide +kernel
  obtain ⟨hopen, hclose, hname, hcolon, hblank, htab⟩ := hbytes
  rw [LogFormatter.format, Logger.defaultFormatter_eq]
  simp [FormatItem.format, text, hopen, hclose, hname, hcolon, hblank, htab]

/-- **A line says what the event was.** -/
theorem parse_text (h : Readable strftime event) : parse (text strftime event) = some (of strftime event) := by
  have hdate : TAB ∉ strftime event.time Logger.dateFormat := fun hc => (h.date _ hc).1 rfl
  have hthread : TAB ∉ numberText event.threadId.toNat := notMem_numberText (by decide) _
  have hfiber : TAB ∉ signedText event.getFiberId.toInt := notMem_signedText (by decide) (by decide) _
  have hlevel : TAB ∉ 91 :: LogLevel.toString event.level ++ [closeBracket] := by
    have htab := (LogLevel.tab_notMem_toString event.level).1
    simp only [List.mem_cons, List.mem_append, List.not_mem_nil, htab, or_false]
    decide
  have hplace : TAB ∉ 91 :: (event.loggerName ++ closeBracket ::
      32 :: (event.file ++ colon :: (signedText event.line.toInt ++ [32]))) := by
    have hname : TAB ∉ event.loggerName := fun hc => (h.name _ hc).1 rfl
    have hfile : TAB ∉ event.file := fun hc => (h.file _ hc).1 rfl
    have hline : TAB ∉ signedText event.line.toInt := notMem_signedText (by decide) (by decide) _
    simp only [List.mem_cons, List.mem_append, List.not_mem_nil, hname, hfile, hline, or_false, false_or]
    decide
  have hname : closeBracket ∉ event.loggerName := fun hc => (h.name _ hc).2.2 rfl
  have hfile : colon ∉ event.file := fun hc => (h.file _ hc).2.2 rfl
  have hbrackets : (91 :: LogLevel.toString event.level ++ [closeBracket]).tail.dropLast =
      LogLevel.toString event.level := by simp
  simp only [parse, text, cutAt_field hdate, cutAt_field hthread, cutAt_field hfiber,
    cutAt_field hlevel, cutAt_field hplace, hbrackets, LogLevel.ofText_toString, List.drop_one,
    List.tail_cons, cutAt_field hname, cutAt_field hfile, List.dropLast_concat, signed_signedText,
    decimal_numberText, Option.bind_eq_bind, Option.bind_some]
  rfl

theorem lf_notMem_text (h : Readable strftime event) : LF ∉ text strftime event := by
  have hdate : LF ∉ strftime event.time Logger.dateFormat := fun hc => (h.date _ hc).2 rfl
  have hthread : LF ∉ numberText event.threadId.toNat := notMem_numberText (by decide) _
  have hfiber : LF ∉ signedText event.getFiberId.toInt := notMem_signedText (by decide) (by decide) _
  have hlevel := (LogLevel.tab_notMem_toString event.level).2
  have hname : LF ∉ event.loggerName := fun hc => (h.name _ hc).2.1 rfl
  have hfile : LF ∉ event.file := fun hc => (h.file _ hc).2.1 rfl
  have hline : LF ∉ signedText event.line.toInt := notMem_signedText (by decide) (by decide) _
  simp only [text, List.mem_cons, List.mem_append, List.not_mem_nil, hdate, hthread, hfiber, hlevel,
    hname, hfile, hline, h.content, or_false, false_or]
  decide

theorem reader_format (h : Readable strftime event) :
    reader.read (Logger.defaultFormatter.format strftime event) = some (of strftime event, []) := by
  rw [format_eq_text]
  exact Reader.filterMap_read (cutAt_field (lf_notMem_text h) []) (parse_text h)

end LogRecord

end VServer
