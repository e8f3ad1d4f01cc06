import Mymuduo.Base.LocalTime
import Mymuduo.Base.Printf
import Mymuduo.Logger.Streaming

/-! A log record: the time and the level, what is streamed into it, and the place in the source.  The
destructor of the logger passes it on as one piece. -/

namespace Mymuduo

open Lib

/-- `snprintf` into a buffer of `size` bytes, which holds `memory` before. -/
def snprintf (size : Nat) (text memory : Bytes) : Bytes :=
  (text.take (size - 1) ++ [0]) ++ memory.drop (text.take (size - 1) ++ [0]).length

theorem length_snprintf {size : Nat} {text memory : Bytes} (hsize : 0 < size)
    (hmemory : memory.length = size) : (snprintf size text memory).length = size := by
  simp only [snprintf, List.length_append, List.length_drop, List.length_take,
    List.length_singleton, hmemory]
  omega

/-- A `GeneralTemplate` of the first `len` bytes of some memory. -/
def GeneralTemplate.ofLength (data : Bytes) (len : Nat) (hle : len ≤ data.length)
    (hint : len < 2 ^ 31) : GeneralTemplate where
  data := data
  len := len
  len_le := by omega
  isInt := by omega

/-- `SourceFile::SourceFile`: the name behind the last slash, and its length as an `int`. -/
def sourceFile (filename : CString) : GeneralTemplate where
  data := (filename.val.reverse.takeWhile (· != 47)).reverse
  len := Int.bmod (filename.val.reverse.takeWhile (· != 47)).reverse.length (2 ^ 32)
  len_le := by
    unfold Int.bmod
    dsimp only
    split <;> omega
  isInt := by
    have hlow := Int.le_bmod
      (x := (filename.val.reverse.takeWhile (· != 47)).reverse.length) (m := 2 ^ 32) (by decide)
    have hhigh := Int.bmod_lt
      (x := (filename.val.reverse.takeWhile (· != 47)).reverse.length) (m := 2 ^ 32) (by decide)
    omega

/-- An `int` that is streamed. -/
def Integer.ofInt32 (n : Int32) : Integer where
  type := .int
  val := n.toInt
  holds := ⟨n.le_toInt, n.toInt_lt⟩

/-- `Logger::LogLevel` -/
inductive LogLevel
  | TRACE
  | DEBUG
  | INFO
  | WARN
  | ERROR
  | FATAL
  deriving DecidableEq, Repr

def getLevelName : LogLevel → Bytes
  | .TRACE => ofString "TRACE "
  | .DEBUG => ofString "DEBUG "
  | .INFO => ofString "INFO  "
  | .WARN => ofString "WARN  "
  | .ERROR => ofString "ERROR "
  | .FATAL => ofString "FATAL "

theorem length_getLevelName (level : LogLevel) : (getLevelName level).length = 6 := by
  cases level <;> rfl

/-- `t_time`, the memory of the thread for the time. -/
abbrev TimeBuffer := { memory : Bytes // memory.length = 64 }

/-- What the construction of a logger meets: the time zone and the time, the memory of `t_time` and
of the stream, and the texts of the errors. -/
structure LogContext where
  zone : Zone
  now : Int
  tTime : TimeBuffer
  memory : Nat → UInt8
  strerror : Int32 → CString

/-- A `Logger`, with the members of its `Impl`. -/
structure Logger where
  stream : LogStream
  level : LogLevel
  line : Int32
  basename : GeneralTemplate

namespace Logger

/-- `%4d/%02d/%02d %02d:%02d:%02d` -/
def timeText (t : Tm) : Bytes :=
  formatBlank 4 (t.year + 1900) ++ ofString "/" ++ formatZero 2 (t.mon + 1) ++ ofString "/" ++
    formatZero 2 t.mday ++ ofString " " ++ formatZero 2 t.hour ++ ofString ":" ++
    formatZero 2 t.min ++ ofString ":" ++ formatZero 2 t.sec

/-- What `formatTime` streams of `t_time`. -/
def secondsPart (z : Zone) (now : Int) (tTime : TimeBuffer) : GeneralTemplate :=
  .ofLength
    (snprintf 64 (timeText (localtime z (now.tdiv kMicroSecondsPerSecond))) tTime.val) 17
    (by rw [length_snprintf (by decide) tTime.property]; decide) (by decide)

/-- What `formatTime` streams of `buf`. -/
def microsecondsPart (now : Int) : GeneralTemplate :=
  .ofLength
    (snprintf 32 (formatZero 6 (now.tmod kMicroSecondsPerSecond) ++ ofString " ")
      (List.replicate 32 0)) 7
    (by rw [length_snprintf (by decide) List.length_replicate]; decide) (by decide)

def formatTime (z : Zone) (now : Int) (tTime : TimeBuffer) (s : LogStream) :
    Except StreamFault LogStream := do
  let s ← s.append (secondsPart z now tTime)
  s.append (microsecondsPart now)

section

variable {δ : Type} (printf : δ → Bytes)

/-- A chain of `operator<<`. -/
def insertAll (s : LogStream) (values : List (Value δ)) : Except StreamFault LogStream :=
  run (LogStream.insert printf) s values

/-- A string literal. -/
def literal (text : String) (h : (0 : UInt8) ∉ ofString text := by decide +kernel) : Value δ :=
  .str (some ⟨ofString text, h⟩)

/-- What `Impl::Impl` streams of an error. -/
def errorValues (e : LogContext) (savedErrno : Int32) : List (Value δ) :=
  if savedErrno ≠ 0 then
    [.str (some (e.strerror savedErrno)), literal " (errno=", .integer (.ofInt32 savedErrno),
      literal ") "]
  else
    []

/-- `Logger::Impl::Impl` -/
def impl (e : LogContext) (level : LogLevel) (savedErrno : Int32) (file : CString) (line : Int32) :
    Except StreamFault Logger := do
  let s ← formatTime e.zone e.now e.tTime (.new e.memory)
  let s ← s.append (.ofLength (getLevelName level) 6 (by rw [length_getLevelName]) (by decide))
  let s ← insertAll printf s (errorValues e savedErrno)
  return { stream := s, level := level, line := line, basename := sourceFile file }

/-- `Logger(file, line)` -/
def new (e : LogContext) (file : CString) (line : Int32) : Except StreamFault Logger :=
  impl printf e .INFO 0 file line

/-- `Logger(file, line, level)` -/
def ofLevel (e : LogContext) (file : CString) (line : Int32) (level : LogLevel) :
    Except StreamFault Logger := impl printf e level 0 file line

/-- `Logger(file, line, level, func)` -/
def ofFunc (e : LogContext) (file : CString) (line : Int32) (level : LogLevel) (func : CString) :
    Except StreamFault Logger := do
  let l ← impl printf e level 0 file line
  let s ← insertAll printf l.stream [.str (some func), .char 32]
  return { l with stream := s }

/-- `Logger(file, line, toAbort)` -/
def ofAbort (e : LogContext) (errno : Int32) (file : CString) (line : Int32) (toAbort : Bool) :
    Except StreamFault Logger := impl printf e (if toAbort then .FATAL else .ERROR) errno file line

/-- A value is streamed into the logger. -/
def insert (l : Logger) (v : Value δ) : Except StreamFault Logger := do
  let s ← l.stream.insert printf v
  return { l with stream := s }

/-- What `Impl::finish` streams. -/
def finishValues (l : Logger) : List (Value δ) :=
  [literal " - ", .general l.basename, .char 58, .integer (.ofInt32 l.line), .char 10]

def finish (l : Logger) : Except StreamFault Logger := do
  let s ← insertAll printf l.stream l.finishValues
  return { l with stream := s }

/-- `Logger::~Logger`: the bytes that are passed to `g_output`, and whether the process is
aborted. -/
def destroy (l : Logger) : Except StreamFault (Bytes × Bool) := do
  let l ← l.finish printf
  return (l.stream.content, l.level = .FATAL)

end

end Logger

end Mymuduo
