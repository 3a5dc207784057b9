import Mathlib.Logic.Function.Basic
import UtilsModules.Common.Timeval

/-!
The timer module: its records, its two lists, the calls and the thread.

A node of a list is the index of the record it is embedded in, and a list is
its nodes in order.  Every call and every turn of the thread runs between
`sem_wait(&g_sem)` and `sem_post(&g_sem)`, so it is one function here; what the
thread does outside of `g_sem` is a place of its own in `ThreadTimer`.
-/

namespace UtilsModules.Timer

def maxTimerNumber : Nat := 0xFFF

structure Reading extends Timeval where
  normalised : toTimeval.Normalised

structure Timespec where
  tvSec : Int
  tvNsec : Int
  deriving DecidableEq, Repr

/-- `st_timer`.  Pointers to functions are numbered; `none` is `NULL`. -/
structure StTimer where
  state : Nat
  times : Int
  msgid : Int
  id : Nat
  tv : Timeval
  interval : Timeval
  func : Option Nat
  parameter : Nat
  deriving DecidableEq, Repr

namespace StTimer

def zero : StTimer := ⟨0, 0, 0, 0, .zero, .zero, none, 0⟩

/-- The deadline and the interval that `SetTimer`, `SetMsgTimer` and
`ChangeTimerTime` store. -/
def schedule (timer : StTimer) (tv : Timeval) (timeInterval : Int) : StTimer :=
  let interval : Timeval := ⟨timeInterval.tdiv 1000, timeInterval.tmod 1000 * 1000⟩
  { timer with
    interval := interval
    tv :=
      { tvSec := tv.tvSec + interval.tvSec + (tv.tvUsec + interval.tvUsec).tdiv 1000000
        tvUsec := (tv.tvUsec + interval.tvUsec).tmod 1000000 } }

/-- The next deadline, as the thread computes it at an expiry. -/
def advance (timer : StTimer) : StTimer :=
  let usec := timer.tv.tvUsec + timer.interval.tvUsec
  { timer with
    tv :=
      { tvSec := timer.tv.tvSec + timer.interval.tvSec + usec.tdiv 1000000
        tvUsec := usec.tmod 1000000 } }

end StTimer

def cmptime (srctv dsttv : Timeval) : Bool :=
  srctv.tvSec > dsttv.tvSec || srctv.tvSec == dsttv.tvSec && srctv.tvUsec ≥ dsttv.tvUsec

inductive ThreadTimer where
  | top
  /-- In `sem_wait(&g_sem_new)`. -/
  | waitNew
  /-- About to call a function with the parameter of a record. -/
  | callback (func node : Nat)
  /-- About to read the deadline of a record for `sem_timedwait`. -/
  | computeTn (node : Nat)
  /-- In `sem_timedwait(&g_sem_new, &tn)`. -/
  | timedwait (tn : Timespec)
  deriving DecidableEq, Repr

inductive Output where
  | call (func parameter : Nat)
  | send (msgid : Int) (id : Nat)
  deriving DecidableEq, Repr

/-- The variables of the module and the place of its thread. -/
structure TimerModule where
  timerArray : Nat → StTimer
  listTimerWork : List Nat
  listTimerFree : List Nat
  semNew : Nat
  thread : ThreadTimer

def timerInit : TimerModule where
  timerArray := fun index => { StTimer.zero with id := index }
  listTimerWork := []
  listTimerFree := List.range' 0 maxTimerNumber
  semNew := 0
  thread := .top

namespace TimerModule

def write (timers : TimerModule) (index : Nat) (timer : StTimer) : TimerModule :=
  { timers with timerArray := Function.update timers.timerArray index timer }

def listErase (timers : TimerModule) (node : Nat) : TimerModule :=
  { timers with
    listTimerWork := timers.listTimerWork.erase node
    listTimerFree := timers.listTimerFree.erase node }

def pushFree (timers : TimerModule) (node : Nat) : TimerModule :=
  { timers with listTimerFree := timers.listTimerFree ++ [node] }

def postNew (timers : TimerModule) : TimerModule := { timers with semNew := timers.semNew + 1 }

end TimerModule

def insertLoop (timerArray : Nat → StTimer) (id : Nat) : List Nat → List Nat
  | [] => [id]
  | node :: rest =>
      if cmptime (timerArray node).tv (timerArray id).tv then id :: node :: rest
      else node :: insertLoop timerArray id rest

def insertTimer (timers : TimerModule) (id : Nat) : TimerModule :=
  { timers with listTimerWork := insertLoop timers.timerArray id timers.listTimerWork }

def getTimerID (timers : TimerModule) : TimerModule × Option Nat :=
  match timers.listTimerFree with
  | [] => (timers, none)
  | node :: rest => ({ timers with listTimerFree := rest }, some (timers.timerArray node).id)

def setTimer (timers : TimerModule) (timeInterval : Int) (pFunc : Option Nat) (parameter : Nat)
    (tv : Reading) : TimerModule × Option Nat :=
  if 0 ≥ timeInterval ∨ pFunc = none then
    (timers, none)
  else
    match getTimerID timers with
    | (timers, none) => (timers, none)
    | (timers, some id) =>
        let timer := (timers.timerArray id).schedule tv.toTimeval timeInterval
        let timer :=
          { timer with state := 1, id := id, func := pFunc, parameter := parameter, msgid := -1 }
        ((insertTimer (timers.write id timer) id).postNew, some id)

def setMsgTimer (timers : TimerModule) (timeInterval msgid times : Int) (tv : Reading) :
    TimerModule × Option Nat :=
  if 0 ≥ timeInterval ∨ 0 > msgid then
    (timers, none)
  else
    match getTimerID timers with
    | (timers, none) => (timers, none)
    | (timers, some id) =>
        let timer := (timers.timerArray id).schedule tv.toTimeval timeInterval
        let timer := { timer with state := 1, id := id, msgid := msgid, times := times }
        ((insertTimer (timers.write id timer) id).postNew, some id)

def killTimer (timers : TimerModule) (id : Nat) : TimerModule :=
  if id ≥ maxTimerNumber then
    timers
  else if (timers.timerArray id).state = 0 then
    timers
  else
    let timer := { timers.timerArray id with state := 0 }
    ((timers.listErase id).write id timer).pushFree id

def changeTimerTime (timers : TimerModule) (id : Nat) (timeInterval : Int) (tv : Reading) :
    TimerModule × Bool :=
  if id ≥ maxTimerNumber ∨ timeInterval ≤ 0 then
    (timers, false)
  else if (timers.timerArray id).state = 0 then
    (timers, false)
  else
    let timer := (timers.timerArray id).schedule tv.toTimeval timeInterval
    (insertTimer ((timers.write id timer).listErase id) id, true)

def getTimerTime (timers : TimerModule) (id : Nat) : Int :=
  if id ≥ maxTimerNumber then
    0
  else if (timers.timerArray id).state = 0 then
    0
  else
    (timers.timerArray id).interval.tvSec * 1000 +
      (timers.timerArray id).interval.tvUsec.tdiv 1000

/-- The expiry of the record at the front of the work list, up to the end of the
turn.  `rest` is the list behind it. -/
def expire (timers : TimerModule) (node : Nat) (rest : List Nat) : TimerModule × Option Output :=
  let timer := (timers.timerArray node).advance
  let timers := { timers.write node timer with listTimerWork := rest, thread := .top }
  match timer.func with
  | some func => ({ insertTimer timers timer.id with thread := .callback func node }, none)
  | none =>
      if timer.msgid ≥ 0 then
        let sent := some (Output.send timer.msgid timer.id)
        if timer.times > 0 then
          let timer := { timer with times := timer.times - 1 }
          if timer.times ≤ 0 then
            ((timers.write node { timer with state := 0 }).pushFree node, sent)
          else
            (insertTimer (timers.write node timer) timer.id, sent)
        else
          (insertTimer timers timer.id, sent)
      else
        ((timers.write node { timer with state := 0 }).pushFree node, none)

/-- A turn of the thread from the top of its loop until it releases `g_sem`. -/
def turn (timers : TimerModule) (tv : Reading) : TimerModule × Option Output :=
  match timers.listTimerWork with
  | [] => ({ timers with thread := .waitNew }, none)
  | node :: rest =>
      if (timers.timerArray node).state = 0 then
        (TimerModule.pushFree { timers with listTimerWork := rest } node, none)
      else if cmptime tv.toTimeval (timers.timerArray node).tv then
        expire timers node rest
      else
        ({ timers with thread := .computeTn node }, none)

/-- Has the time come that `sem_timedwait` waits for? -/
def Timespec.reached (tn : Timespec) (tv : Timeval) : Bool :=
  tv.tvSec > tn.tvSec || tv.tvSec == tn.tvSec && tv.tvUsec * 1000 ≥ tn.tvNsec

/-- One step of `thread_timer`; `none` when it blocks on `g_sem_new`. -/
def threadTimer (timers : TimerModule) (tv : Reading) : Option (TimerModule × Option Output) :=
  match timers.thread with
  | .top => some (turn timers tv)
  | .waitNew =>
      if timers.semNew > 0 then
        some ({ timers with semNew := timers.semNew - 1, thread := .top }, none)
      else
        none
  | .callback func node =>
      some ({ timers with thread := .top }, some (.call func (timers.timerArray node).parameter))
  | .computeTn node =>
      let tv := (timers.timerArray node).tv
      some ({ timers with thread := .timedwait ⟨tv.tvSec, tv.tvUsec * 1000⟩ }, none)
  | .timedwait tn =>
      if timers.semNew > 0 then
        some ({ timers with semNew := timers.semNew - 1, thread := .top }, none)
      else if tn.reached tv.toTimeval then
        some ({ timers with thread := .top }, none)
      else
        none

/-- The calls of other threads and the steps of the timer thread. -/
inductive Action where
  | setTimer (timeInterval : Int) (pFunc : Option Nat) (parameter : Nat) (tv : Reading)
  | setMsgTimer (timeInterval msgid times : Int) (tv : Reading)
  | killTimer (id : Nat)
  | changeTimerTime (id : Nat) (timeInterval : Int) (tv : Reading)
  | thread (tv : Reading)

/-- What an action does to the module; `none` for a step of the thread that
blocks. -/
def step (timers : TimerModule) : Action → Option TimerModule
  | .setTimer timeInterval pFunc parameter tv =>
      some (setTimer timers timeInterval pFunc parameter tv).1
  | .setMsgTimer timeInterval msgid times tv =>
      some (setMsgTimer timers timeInterval msgid times tv).1
  | .killTimer id => some (killTimer timers id)
  | .changeTimerTime id timeInterval tv => some (changeTimerTime timers id timeInterval tv).1
  | .thread tv => (threadTimer timers tv).map Prod.fst

end UtilsModules.Timer
