import UtilsModules.Library.CString
import Mathlib.Data.Fin.Basic

/-!
`log_core` of `log.c`: how a record is put together.

The buffer is on the stack and cleared, and `len` is the sum of what `snprintf`
and `vsnprintf` report.  A write outside the buffer and a length that does not
fit an `int` are refused (`none`).
-/

namespace UtilsModules.Log

open CString

def logMaxSize : Nat := 4000

def logMaxIndent : Int := 80

def logHasDayName : BitVec 32 := 0x0001
def logHasYear : BitVec 32 := 0x0002
def logHasMonth : BitVec 32 := 0x0004
def logHasDayOfMon : BitVec 32 := 0x0008
def logHasTime : BitVec 32 := 0x0010
def logHasMicroSec : BitVec 32 := 0x0020
def logHasSender : BitVec 32 := 0x0040
def logHasNewline : BitVec 32 := 0x0080
def logHasProcessId : BitVec 32 := 0x0100
def logHasSpace : BitVec 32 := 0x0200
def logHasLevelText : BitVec 32 := 0x0800
def logHasThreadId : BitVec 32 := 0x1000
def logHasThreadSwc : BitVec 32 := 0x2000
def logHasIndent : BitVec 32 := 0x4000

inductive LogLevel where
  | fatal
  | err
  | warn
  | info
  | debug
  | trace
  | detail
  deriving DecidableEq, Repr

namespace LogLevel

def toInt : LogLevel → Int
  | fatal => 0
  | err => 1
  | warn => 2
  | info => 3
  | debug => 4
  | trace => 5
  | detail => 6

def ltext : LogLevel → List Char
  | fatal => "FATAL:".toList
  | err => "ERROR:".toList
  | warn => " WARN:".toList
  | info => " INFO:".toList
  | debug => "DEBUG:".toList
  | trace => "TRACE:".toList
  | detail => "DETRC:".toList

end LogLevel

def wdays : List (List Char) :=
  ["Sun".toList, "Mon".toList, "Tue".toList, "Wed".toList, "Thu".toList, "Fri".toList, "Sat".toList]

structure ParsedTime where
  wday : Fin 7
  day : Fin 32
  mon : Fin 13
  year : Fin 10000
  sec : Fin 61
  min : Fin 60
  hour : Fin 24
  msec : Fin 1000

/-- What `log_core` reads from the system: the time and the two ids. -/
structure Origin where
  ptime : ParsedTime
  tid : Fin 2147483648
  pid : Fin 2147483648

/-- What `log_core` reads from the module. -/
structure LogState where
  logMaxLevel : Int
  suspended : Bool
  logDecor : BitVec 32
  rawIndent : Int

def LogState.indent (state : LogState) : Int :=
  if state.rawIndent > logMaxIndent then logMaxIndent else state.rawIndent

def LogState.Has (state : LogState) (mask : BitVec 32) : Prop := state.logDecor &&& mask ≠ 0

instance (state : LogState) (mask : BitVec 32) : Decidable (state.Has mask) :=
  inferInstanceAs (Decidable (_ ≠ _))

structure Record where
  buffer : List Char
  len : Nat

namespace Record

def start : Record := ⟨List.replicate logMaxSize nul, 0⟩

def room (record : Record) : Nat :=
  ((logMaxSize - 1 - record.len : Int) % 18446744073709551616).toNat

/-- `len += snprintf(log_buffer + len, max - len, ...)` for a formatted text. -/
def print (record : Record) (text : List Char) : Option Record := do
  let buffer ← snprintf record.buffer record.len record.room text
  if record.len + text.length ≤ 2147483647 then some ⟨buffer, record.len + text.length⟩ else none

def printIf (record : Record) (asked : Prop) [Decidable asked] (text : List Char) : Option Record :=
  if asked then record.print text else some record

def printFields (state : LogState) : Record → List (BitVec 32 × List Char) → Option Record
  | record, [] => some record
  | record, (mask, text) :: rest => do
      let record ← record.printIf (state.Has mask) text
      record.printFields state rest

/-- `memset(log_buffer + len, MDL_LOG_INDENT_CHAR, indent)`. -/
def fill (record : Record) (indent : Nat) : Option Record := do
  let buffer ← Buffer.write record.buffer record.len (List.replicate indent '.')
  some ⟨buffer, record.len + indent⟩

def indentation (state : LogState) (record : Record) : Option Record :=
  if state.Has logHasIndent ∧ state.indent > 0 then record.fill state.indent.toNat else some record

def frontFields (origin : Origin) (level : LogLevel) : List (BitVec 32 × List Char) :=
  [(logHasLevelText, level.ltext), (logHasDayName, wdays.getD origin.ptime.wday [])]

def yearField (origin : Origin) (len : Nat) : List (BitVec 32 × List Char) :=
  [(logHasYear,
    if len ≠ 0 then ' ' :: decimal origin.ptime.year else decimal origin.ptime.year)]

def laterFields (origin : Origin) : List (BitVec 32 × List Char) :=
  let ptime := origin.ptime
  [(logHasMonth, '-' :: padLeft 2 '0' (decimal ptime.mon)),
    (logHasDayOfMon, '-' :: padLeft 2 '0' (decimal ptime.day)),
    (logHasTime, ' ' :: padLeft 2 '0' (decimal ptime.hour) ++
      ':' :: padLeft 2 '0' (decimal ptime.min) ++ ':' :: padLeft 2 '0' (decimal ptime.sec)),
    (logHasMicroSec, '.' :: padLeft 3 '0' (decimal ptime.msec) ++ [' ']),
    (logHasSender, " [".toList ++ padLeft 14 ' ' "log.c".toList ++
      ':' :: padLeft 16 ' ' "log_core".toList ++ '#' :: padLeft 3 '0' (decimal 544) ++ [']']),
    (logHasThreadId, " [".toList ++ padLeft 8 ' ' (decimal origin.tid) ++ [']']),
    (logHasProcessId, "#[".toList ++ padLeft 8 ' ' (decimal origin.pid) ++ [']'])]

def decorate (state : LogState) (origin : Origin) (level : LogLevel) : Option Record := do
  let record ← start.printFields state (frontFields origin level)
  let record ← record.printFields state (yearField origin record.len)
  let record ← record.printFields state (laterFields origin)
  let record ← record.printIf (state.logDecor ≠ 0 ∧ state.logDecor ≠ logHasNewline) [' ']
  -- the mark of a thread switch is not written yet
  let record ← record.printIf (¬ state.Has logHasThreadSwc ∧ state.Has logHasSpace) [' ']
  record.indentation state

/-- `log_buffer[len++] = '\n'`, where it is asked for. -/
def newline (state : LogState) (record : Record) : Option Record :=
  if state.Has logHasNewline then do
    let buffer ← Buffer.write record.buffer record.len ['\n']
    some ⟨buffer, record.len + 1⟩
  else
    some record

/-- The message and what follows it; `text` is what the format and its arguments
come to. -/
def finish (state : LogState) (record : Record) (text : List Char) : Option Record := do
  let record ← record.print text
  let record ← if record.len ≥ logMaxSize - 1 then some record else record.newline state
  let buffer ← Buffer.write record.buffer (logMaxSize - 1) [nul]
  some ⟨buffer, record.len⟩

end Record

def logCore (state : LogState) (origin : Origin) (level : LogLevel) (text : List Char) :
    Option (Option Record) :=
  if level.toInt > state.logMaxLevel ∨ state.suspended = true then
    some none
  else do
    let record ← Record.decorate state origin level
    let record ← record.finish state text
    some (some record)

end UtilsModules.Log
