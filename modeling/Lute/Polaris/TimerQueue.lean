import Mathlib.Algebra.Ring.Int.Defs
import Mathlib.Data.Finset.Sort
import Mathlib.Data.Prod.Lex
import Mathlib.Data.Int.DivMod
import Lute.Polaris.BufferSafety

/-! The timer queue: two ordered sets over timers on the heap, and the timerfd behind them.
Times are microseconds since the epoch. -/
namespace Lute

/-- What `<LuteBase.h>` provides for the intervals of repeating timers. -/
structure Intervals (I : Type) where
  positive : I → Bool
  addTime : Int → I → Int

structure Timer (I : Type) where
  expiration : Int
  interval : I
  repeats : Bool
  sequence : Nat
  deriving DecidableEq, Repr

/-- `Timestamp::valid()`. -/
def valid (t : Int) : Bool := 0 < t

variable {I : Type}

def Timer.new (V : Intervals I) (when : Int) (interval : I) (sequence : Nat) : Timer I :=
  ⟨when, interval, V.positive interval, sequence⟩

def Timer.restart (V : Intervals I) (t : Timer I) (now : Int) : Timer I :=
  { t with expiration := if t.repeats then V.addTime now t.interval else 0 }

structure Timespec where
  tv_sec : Int
  tv_nsec : Int
  deriving DecidableEq, Repr

/-- A one-shot timerfd; once fired it stays readable until it is read. -/
inductive Timerfd
  | disarmed
  | armed (deadline : Int)
  | fired (deadline : Int)
  deriving DecidableEq, Repr

namespace Timerfd

/-- `timerfd_settime` with a relative time; zero disarms. -/
def settime (now : Int) (ts : Timespec) : Timerfd :=
  if ts = ⟨0, 0⟩ then .disarmed else .armed (now + ts.tv_sec * 1000000 + ts.tv_nsec / 1000)

/-- `readTimerfd`; reading an fd that has not fired fails and changes nothing. -/
def read : Timerfd → Timerfd
  | .fired _ => .disarmed
  | fd => fd

/-- Armed, or fired and unread. -/
def Due (fd : Timerfd) (deadline : Int) : Prop := fd = .armed deadline ∨ fd = .fired deadline

end Timerfd

/-- The difference is taken in 64 bits. -/
def howMuchTimeFromNow (now when : Int) : Timespec :=
  let microseconds := Int.bmod (when - now) (2 ^ 64)
  let microseconds := if microseconds < 100 then 100 else microseconds
  ⟨microseconds / 1000000, microseconds % 1000000 * 1000⟩

/-- An expiration and the address of a timer, ordered lexicographically. -/
abbrev Entry := ℤ ×ₗ ℕ

namespace Entry

def mk (when : Int) (timer : Nat) : Entry := toLex (when, timer)

def when (e : Entry) : Int := (ofLex e).1

def timer (e : Entry) : Nat := (ofLex e).2

end Entry

def UINTPTR_MAX : Nat := 2 ^ 64 - 1

/-- `heap` holds the live timers by address; `lastReset` records when `resetTimerfd` last ran. -/
structure TimerQueue (I : Type) where
  heap : Nat → Option (Timer I)
  timers : Finset Entry
  activeTimers : Finset (Nat × Nat)
  callingExpiredTimers : Bool
  cancelingTimers : Finset (Nat × Nat)
  timerfd : Timerfd
  lastReset : Int

namespace TimerQueue

def deref (q : TimerQueue I) (timer : Nat) : Result (Timer I) :=
  match q.heap timer with
  | some t => .ok t
  | none => .error .dangling

def resetTimerfd (q : TimerQueue I) (now expiration : Int) : TimerQueue I :=
  { q with timerfd := .settime now (howMuchTimeFromNow now expiration), lastReset := now }

/-- `timers_.begin()`, unless it is `end()`. -/
def first (s : Finset Entry) : Option Entry :=
  if h : s.Nonempty then some (s.min' h) else none

/-- `it == timers_.end() || when < it->first` for the first entry. -/
def isEarliest (s : Finset Entry) (when : Int) : Bool :=
  match first s with
  | none => true
  | some it => when < it.when

def insert (build : Build) (q : TimerQueue I) (timer : Nat) : Result (TimerQueue I × Bool) := do
  build.assert (q.timers.card = q.activeTimers.card)
  let t ← q.deref timer
  let earliestChanged := isEarliest q.timers t.expiration
  let entry := Entry.mk t.expiration timer
  build.assert (entry ∉ q.timers)
  build.assert ((timer, t.sequence) ∉ q.activeTimers)
  let q' := { q with timers := Insert.insert entry q.timers,
                     activeTimers := Insert.insert (timer, t.sequence) q.activeTimers }
  build.assert (q'.timers.card = q'.activeTimers.card)
  return (q', earliestChanged)

/-- `now` is what the clock shows when `resetTimerfd` asks for it. -/
def addTimerInLoop (build : Build) (q : TimerQueue I) (now : Int) (timer : Nat) :
    Result (TimerQueue I) := do
  let (q', earliestChanged) ← q.insert build timer
  if earliestChanged then
    let t ← q'.deref timer
    return q'.resetTimerfd now t.expiration
  else return q'

/-- The body of `cancelInLoop`. A `TimerId` is an address with the sequence number of the timer
that was there. -/
def cancelTimer (build : Build) (q : TimerQueue I) (timerId : Nat × Nat) :
    Result (TimerQueue I) :=
  if timerId ∈ q.activeTimers then do
    let t ← q.deref timerId.1
    let entry := Entry.mk t.expiration timerId.1
    build.assert (entry ∈ q.timers)
    return { q with timers := q.timers.erase entry,
                    heap := Function.update q.heap timerId.1 none,
                    activeTimers := q.activeTimers.erase timerId }
  else if q.callingExpiredTimers then
    return { q with cancelingTimers := Insert.insert timerId q.cancelingTimers }
  else return q

def cancelInLoop (build : Build) (q : TimerQueue I) (timerId : Nat × Nat) :
    Result (TimerQueue I) := do
  build.assert (q.timers.card = q.activeTimers.card)
  let q' ← q.cancelTimer build timerId
  build.assert (q'.timers.card = q'.activeTimers.card)
  return q'

/-- The loop of `getExpired` over the second set. -/
def eraseActive (build : Build) (q : TimerQueue I) : List Entry → Result (TimerQueue I)
  | [] => .ok q
  | it :: expired => do
    let t ← q.deref it.timer
    build.assert ((it.timer, t.sequence) ∈ q.activeTimers)
    { q with activeTimers := q.activeTimers.erase (it.timer, t.sequence) }.eraseActive build expired

def getExpired (build : Build) (q : TimerQueue I) (now : Int) :
    Result (TimerQueue I × List Entry) := do
  build.assert (q.timers.card = q.activeTimers.card)
  let sentry := Entry.mk now UINTPTR_MAX
  let rest := q.timers.filter (sentry ≤ ·)
  build.assert (∀ it ∈ rest, now < it.when)
  let expired := (q.timers.filter (· < sentry)).sort
  let q' ← { q with timers := rest }.eraseActive build expired
  build.assert (q'.timers.card = q'.activeTimers.card)
  return (q', expired)

/-- The loop of `reset`. -/
def resetTimers (build : Build) (V : Intervals I) (now : Int) (q : TimerQueue I) :
    List Entry → Result (TimerQueue I)
  | [] => .ok q
  | it :: expired => do
    let t ← q.deref it.timer
    if t.repeats ∧ (it.timer, t.sequence) ∉ q.cancelingTimers then
      let q := { q with heap := Function.update q.heap it.timer (some (t.restart V now)) }
      let (q, _) ← q.insert build it.timer
      q.resetTimers build V now expired
    else
      let q := { q with heap := Function.update q.heap it.timer none }
      q.resetTimers build V now expired

/-- `now` is the time `handleRead` began, `clock` the time `resetTimerfd` asks for. -/
def reset (build : Build) (V : Intervals I) (q : TimerQueue I) (expired : List Entry)
    (now clock : Int) : Result (TimerQueue I) := do
  let q' ← q.resetTimers build V now expired
  let nextExpire : Int ←
    match first q'.timers with
    | none => .ok 0
    | some it => (q'.deref it.timer).map Timer.expiration
  if valid nextExpire then return q'.resetTimerfd clock nextExpire else return q'

/-- `handleRead` up to its first callback. -/
def beginRead (build : Build) (q : TimerQueue I) (now : Int) :
    Result (TimerQueue I × List Entry) := do
  let (q', expired) ← { q with timerfd := q.timerfd.read }.getExpired build now
  return ({ q' with callingExpiredTimers := true, cancelingTimers := ∅ }, expired)

/-- `handleRead` after its last callback. -/
def endRead (build : Build) (V : Intervals I) (q : TimerQueue I) (expired : List Entry)
    (now clock : Int) : Result (TimerQueue I) :=
  { q with callingExpiredTimers := false }.reset build V expired now clock

end TimerQueue

end Lute
