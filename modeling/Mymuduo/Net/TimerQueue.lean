import Mathlib.Data.Prod.Lex
import Mymuduo.Base.Fault
import Mymuduo.Lib.OrderedSet
import Mymuduo.Lib.Run
import Mathlib.Logic.Function.Basic

/-! The timer queue of an event loop: the timers in the order of their expiration, the expired ones
taken out and run, and the ones that repeat put back.  The clock is read by the caller of each
function, and passed to it. -/

namespace Mymuduo

open Lib

/-- A `Timestamp`: microseconds since the epoch. -/
abbrev Timestamp := Int

/-- A `Timer`.  `interval` is the number of microseconds that `addTime` adds for `interval_`, if
`interval_` is positive. -/
structure Timer where
  expiration : Timestamp
  interval : Option Nat
  sequence : Nat
  deriving DecidableEq, Repr

namespace Timer

def isRepeat (t : Timer) : Bool := t.interval.isSome

def restart (t : Timer) (now : Timestamp) : Timer :=
  match t.interval with
  | some delta => { t with expiration := now + delta }
  | none => { t with expiration := 0 }

@[simp] theorem restart_sequence (t : Timer) (now : Timestamp) :
    (t.restart now).sequence = t.sequence := by
  unfold restart
  split <;> rfl

end Timer

/-- A `TimerId`: the address of a timer, and its sequence number. -/
structure TimerId where
  timer : Nat
  sequence : Nat
  deriving DecidableEq, Repr

/-- `TimerQueue::Entry` -/
abbrev Entry := Timestamp ×ₗ Nat

/-- `TimerQueue::ActiveTimer` -/
abbrev ActiveTimer := Nat ×ₗ Nat

namespace Entry

def mk (when : Timestamp) (timer : Nat) : Entry := toLex (when, timer)

def when (e : Entry) : Timestamp := (ofLex e).1

def timer (e : Entry) : Nat := (ofLex e).2

end Entry

def UINTPTR_MAX : Nat := 0xFFFFFFFFFFFFFFFF

/-- A `handleRead` whose callbacks are being run: the clock it read, the expired timers, and those
of them that are still to be run. -/
structure Batch where
  now : Timestamp
  expired : List Entry
  todo : List Entry
  deriving DecidableEq

/-- A `TimerQueue` and the timers in memory.  `queued` holds the timers created whose
`addTimerInLoop` has not run, `timerfd` is the moment for which the timerfd is armed, and `batch` is
the `handleRead` in progress.  `reads` counts the calls of `handleRead`, and `inserted` holds the
timers inserted so far. -/
structure TimerQueue where
  heap : Nat → Option Timer
  numCreated : Nat
  queued : List Nat
  timers : OrderedSet Entry
  activeTimers : OrderedSet ActiveTimer
  callingExpiredTimers : Bool
  cancelingTimers : OrderedSet ActiveTimer
  timerfd : Option Timestamp
  batch : Option Batch
  reads : Nat
  inserted : List TimerId

namespace TimerQueue

/-- `TimerQueue::TimerQueue` -/
def new : TimerQueue where
  heap := fun _ => none
  numCreated := 0
  queued := []
  timers := .empty
  activeTimers := .empty
  callingExpiredTimers := false
  cancelingTimers := .empty
  timerfd := none
  batch := none
  reads := 0
  inserted := []

/-- The timer at an address. -/
def deref (q : TimerQueue) (p : Nat) : Except Fault Timer :=
  match q.heap p with
  | some t => .ok t
  | none => .error .danglingPointer

def delete (q : TimerQueue) (p : Nat) : Except Fault TimerQueue := do
  let _ ← q.deref p
  return { q with heap := Function.update q.heap p none }

def howMuchTimeFromNow (clock when : Timestamp) : Int :=
  if when - clock < 100 then 100 else when - clock

/-- A read of the timerfd that has expired leaves it disarmed. -/
def readTimerfd (q : TimerQueue) (now : Timestamp) : TimerQueue :=
  { q with timerfd := q.timerfd.filter fun moment => decide (now < moment) }

def resetTimerfd (q : TimerQueue) (clock expiration : Timestamp) : TimerQueue :=
  { q with timerfd := some (clock + howMuchTimeFromNow clock expiration) }

/-- `insert`, and whether the timer is the earliest one. -/
def insert (q : TimerQueue) (p : Nat) : Except Fault (TimerQueue × Bool) := do
  let timer ← q.deref p
  let when := timer.expiration
  let earliestChanged :=
    match q.timers.first with
    | none => true
    | some it => decide (when < it.when)
  return ({ q with timers := q.timers.insert (.mk when p) }, earliestChanged)

/-- `addTimer`, for a timer allocated at `p`; the functor that inserts it is queued. -/
def addTimer (q : TimerQueue) (p : Nat) (when : Timestamp) (interval : Option Nat) : TimerQueue :=
  { q with
    heap := Function.update q.heap p (some ⟨when, interval, q.numCreated + 1⟩)
    numCreated := q.numCreated + 1
    queued := p :: q.queued }

def addTimerInLoop (q : TimerQueue) (p : Nat) (clock : Timestamp) : Except Fault TimerQueue := do
  let (q, earliestChanged) ← q.insert p
  let timer ← q.deref p
  let q := { q with inserted := ⟨p, timer.sequence⟩ :: q.inserted }
  return if earliestChanged then q.resetTimerfd clock timer.expiration else q

def cancelInLoop (q : TimerQueue) (id : TimerId) : Except Fault TimerQueue :=
  let timer : ActiveTimer := toLex (id.timer, id.sequence)
  if timer ∈ q.activeTimers then do
    let it ← q.deref id.timer
    let q := { q with timers := q.timers.erase (.mk it.expiration id.timer) }
    let q ← q.delete id.timer
    return { q with activeTimers := q.activeTimers.erase timer }
  else if q.callingExpiredTimers then
    .ok { q with cancelingTimers := q.cancelingTimers.insert timer }
  else
    .ok q

/-- The loop of `getExpired` over the expired timers. -/
def eraseActive (q : TimerQueue) (it : Entry) : Except Fault TimerQueue := do
  let t ← q.deref it.timer
  return { q with activeTimers := q.activeTimers.erase (toLex (it.timer, t.sequence)) }

def getExpired (q : TimerQueue) (now : Timestamp) : Except Fault (TimerQueue × List Entry) := do
  let sentry := Entry.mk now UINTPTR_MAX
  let expired := q.timers.below sentry
  let q := { q with timers := q.timers.eraseBelow sentry }
  let q ← run eraseActive q expired
  return (q, expired)

/-- `handleRead` up to the first callback. -/
def handleRead (q : TimerQueue) (now : Timestamp) : Except Fault TimerQueue := do
  let q := q.readTimerfd now
  let (q, expired) ← q.getExpired now
  return { q with
    callingExpiredTimers := true
    cancelingTimers := .empty
    batch := some ⟨now, expired, expired⟩
    reads := q.reads + 1 }

/-- The next callback of `handleRead`. -/
def runNext (q : TimerQueue) : Except Fault TimerQueue :=
  match q.batch with
  | some ⟨now, expired, it :: todo⟩ => do
    let _ ← q.deref it.timer
    return { q with batch := some ⟨now, expired, todo⟩ }
  | _ => .ok q

/-- The loop of `reset` over the expired timers. -/
def resetOne (now : Timestamp) (q : TimerQueue) (it : Entry) : Except Fault TimerQueue := do
  let t ← q.deref it.timer
  let timer : ActiveTimer := toLex (it.timer, t.sequence)
  if t.isRepeat && timer ∉ q.cancelingTimers then
    let q := { q with heap := Function.update q.heap it.timer (some (t.restart now)) }
    let (q, _) ← q.insert it.timer
    return q
  else
    q.delete it.timer

def reset (q : TimerQueue) (expired : List Entry) (now clock : Timestamp) :
    Except Fault TimerQueue := do
  let q ← run (resetOne now) q expired
  match q.timers.first with
  | none => return q
  | some it =>
    let t ← q.deref it.timer
    return if 0 < t.expiration then q.resetTimerfd clock t.expiration else q

/-- `handleRead` after the last callback. -/
def finishRead (q : TimerQueue) (clock : Timestamp) : Except Fault TimerQueue :=
  match q.batch with
  | some ⟨now, expired, []⟩ =>
    reset { q with callingExpiredTimers := false, batch := none } expired now clock
  | _ => .ok q

/-- A step of the loop.  A timer is created at any time, by any thread; `addTimerInLoop` and
`cancelInLoop` run between two calls of `handleRead` or in a callback, which is made by
`runNext`. -/
inductive Step
  | addTimer (p : Nat) (when : Timestamp) (interval : Option Nat)
  | addTimerInLoop (p : Nat) (clock : Timestamp)
  | cancelInLoop (id : TimerId)
  | handleRead (now : Timestamp)
  | runNext
  | finishRead (clock : Timestamp)
  deriving DecidableEq, Repr

/-- `new` returns an address at which there is no timer, and a functor is run once. -/
def step (q : TimerQueue) : Step → Except Fault TimerQueue
  | .addTimer p when interval =>
    .ok (if q.heap p = none ∧ p < UINTPTR_MAX then q.addTimer p when interval else q)
  | .addTimerInLoop p clock =>
    if p ∈ q.queued then addTimerInLoop { q with queued := q.queued.erase p } p clock else .ok q
  | .cancelInLoop id => q.cancelInLoop id
  | .handleRead now => if q.batch = none then q.handleRead now else .ok q
  | .runNext => q.runNext
  | .finishRead clock => q.finishRead clock

end TimerQueue

end Mymuduo
