import Mymuduo.Base.LocalTime
import Mymuduo.Base.Printf
import Mymuduo.Logger.FileUtil

/-! Log files on a disk.  `LogFile` appends to the current one, and goes on with another one when
that has become too large or the day is over.  The time zone may change its offset. -/

namespace Mymuduo

open Lib

/-- A file on the disk, with the second in which it was created. -/
structure DiskFile where
  name : Bytes
  created : Int
  content : Bytes
  deriving DecidableEq, Repr

/-- The files in the order in which they were created. -/
abbrev Disk := List DiskFile

namespace Disk

/-- `fopen(name, "ae")`: a file that there is already is opened again. -/
def fopen (disk : Disk) (name : Bytes) (now : Int) : Disk :=
  if disk.any fun d => d.name = name then disk
  else disk ++ [{ name := name, created := now, content := [] }]

/-- Data is written at the end of a file. -/
def write (disk : Disk) (name data : Bytes) : Disk :=
  disk.map fun d => if d.name = name then { d with content := d.content ++ data } else d

end Disk

/-- The offset from UTC that is in force at each moment. -/
abbrev Zones := Int → Zone

/-- `%Y%m%d-%H%M%S` -/
def strftime (t : Tm) : Bytes :=
  toDecimal (t.year + 1900) ++ formatZero 2 (t.mon + 1) ++ formatZero 2 t.mday ++ ofString "-" ++
    formatZero 2 t.hour ++ formatZero 2 t.min ++ formatZero 2 t.sec

/-- All of the data is taken by one call. -/
def Writes.complete (data : Bytes) : Writes where
  takes := fun _ => data.length
  ferror := fun _ => 0

/-- What goes wrong: `file_` is null, or `FileUtil::append` takes more than one write. -/
inductive LogFault
  | nullPointer
  | incomplete
  deriving DecidableEq, Repr

structure LogFile where
  basename : Bytes
  rollSize : Int
  flushInterval : Int
  checkEveryN : Int
  count : Int
  startOfPeriod : Int
  lastRoll : Int
  lastFlush : Int
  file : Option FileUtil

def LogFile.kRollPerSeconds : Int := 60 * 60 * 24

/-- A log file, the disk, and the last second that the clock has shown. -/
structure LogWorld where
  log : LogFile
  disk : Disk
  now : Int

namespace LogFile

/-- `LogFile::getLogFileName` -/
def getLogFileName (zones : Zones) (basename : Bytes) (now : Int) : Bytes :=
  basename ++ (ofString "." ++ strftime (localtime (zones now) now)) ++ ofString ".log"

variable (zones : Zones)

/-- `LogFile::rollFile`, when the clock shows `now`. -/
def rollFile (w : LogWorld) (now : Int) : LogWorld × Bool :=
  let filename := getLogFileName zones w.log.basename now
  let start := now.tdiv kRollPerSeconds * kRollPerSeconds
  if now > w.log.lastRoll then
    ({ log := { w.log with lastRoll := now, lastFlush := now, startOfPeriod := start
                           file := some (.new filename) }
       disk := w.disk.fopen filename now
       now := now }, true)
  else
    ({ w with now := now }, false)

/-- `LogFile::LogFile`, where there are no log files yet. -/
def new (basename : Bytes) (rollSize flushInterval checkEveryN now : Int) : LogWorld :=
  let log : LogFile :=
    { basename := basename, rollSize := rollSize, flushInterval := flushInterval
      checkEveryN := checkEveryN, count := 0, startOfPeriod := 0, lastRoll := 0, lastFlush := 0
      file := none }
  (rollFile zones { log := log, disk := [], now := now } now).1

/-- `file_->append(data, len)`, with a complete write. -/
def appendFile (w : LogWorld) (data : Bytes) : Except LogFault (LogWorld × FileUtil) :=
  match w.log.file with
  | none => .error .nullPointer
  | some file =>
    match file.append (.complete data) (fun _ => emptyCString) 1 data with
    | none => .error .incomplete
    | some (f, _) =>
      .ok ({ w with log := { w.log with file := some f }
                    disk := w.disk.write file.fileName
                      (f.pieces.drop file.pieces.length).flatten }, f)

/-- `LogFile::flush` -/
def flush (w : LogWorld) : Except LogFault LogWorld :=
  match w.log.file with
  | none => .error .nullPointer
  | some _ => .ok w

/-- `LogFile::appendUnLocked`.  The clock is read twice at most, `d₁` seconds after the last time and
`d₂` seconds after that. -/
def appendUnLocked (w : LogWorld) (data : Bytes) (d₁ d₂ : Nat) : Except LogFault LogWorld := do
  let (w, file) ← appendFile w data
  if file.writtenBytes > w.log.rollSize then
    return (rollFile zones w (w.now + d₁)).1
  else
    let w := { w with log := { w.log with count := w.log.count + 1 } }
    if w.log.count ≥ w.log.checkEveryN then
      let now : Int := w.now + d₁
      let w := { w with log := { w.log with count := 0 }, now := now }
      let thisPeriod := now.tdiv kRollPerSeconds * kRollPerSeconds
      if thisPeriod ≠ w.log.startOfPeriod then
        return (rollFile zones w (now + d₂)).1
      else if now - w.log.lastFlush > w.log.flushInterval then
        flush { w with log := { w.log with lastFlush := now } }
      else
        return w
    else
      return w

/-- A call.  Clock readings are given by the seconds that have gone by. -/
inductive Call
  | append (data : Bytes) (d₁ d₂ : Nat)
  | rollFile (d : Nat)
  | flush

def call (w : LogWorld) : Call → Except LogFault LogWorld
  | .append data d₁ d₂ => appendUnLocked zones w data d₁ d₂
  | .rollFile d => .ok (rollFile zones w (w.now + d)).1
  | .flush => flush w

/-- The data that a call appends. -/
def Call.data : Call → Bytes
  | .append data _ _ => data
  | .rollFile _ | .flush => []

/-- The second in which a call rolls the file, if it does. -/
def rollsAt (w : LogWorld) : Call → Option Int
  | .append data d₁ d₂ =>
    if w.log.rollSize < (w.log.file.map FileUtil.writtenBytes).getD 0 + data.length then
      some (w.now + d₁)
    else if w.log.checkEveryN ≤ w.log.count + 1 ∧
        (w.now + d₁).tdiv kRollPerSeconds * kRollPerSeconds ≠ w.log.startOfPeriod then
      some (w.now + d₁ + d₂)
    else
      none
  | .rollFile d => some (w.now + d)
  | .flush => none

/-- If the call goes on with another file, then under a name that no file has. -/
def FreshName (w : LogWorld) (c : Call) : Prop :=
  ∀ now, rollsAt w c = some now → w.log.lastRoll < now →
    ∀ d ∈ w.disk, d.name ≠ getLogFileName zones w.log.basename now

end LogFile

end Mymuduo
