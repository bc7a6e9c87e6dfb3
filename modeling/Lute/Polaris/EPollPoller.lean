import Mathlib.Logic.Function.Basic
import Lute.Lib.Trace
import Lute.Polaris.Channel

/-! The poller: its table of channels, the index it keeps in each, and epoll's interest list. -/
namespace Lute

variable {P : Type}

/-- `kNew` is -1, `kAdded` is 1 and `kDeleted` is 2. -/
inductive Index
  | kNew
  | kAdded
  | kDeleted
  deriving DecidableEq, Repr

/-- A channel object as the poller sees it. -/
structure PolledChannel where
  fd : Int
  channel : Channel
  revents : BitVec 32
  index : Index
  deriving DecidableEq, Repr

/-- An entry of the interest list: the mask, and the pointer that comes back with an event. -/
structure Interest (P : Type) where
  events : BitVec 32
  ptr : P
  deriving DecidableEq, Repr

inductive EpollOp
  | add
  | mod
  | del
  deriving DecidableEq, Repr

/-- `epoll_ctl` on the interest list: `EEXIST` for an fd to add, `ENOENT` for the others. -/
def epollCtl (kernel : Int → Option (Interest P)) (op : EpollOp) (fd : Int) (event : Interest P) :
    Option (Int → Option (Interest P)) :=
  match op, kernel fd with
  | .add, none => some (Function.update kernel fd (some event))
  | .mod, some _ => some (Function.update kernel fd (some event))
  | .del, some _ => some (Function.update kernel fd none)
  | _, _ => none

/-- `channelAt` is the memory behind the channel pointers; `sysErrors` collects what `LOG_SYSERR`
reports of a failed `epoll_ctl`. -/
structure EPollPoller (P : Type) where
  channelAt : P → PolledChannel
  channels : Int → Option P
  kernel : Int → Option (Interest P)
  eventListSize : Nat
  sysErrors : List (EpollOp × Int)

namespace EPollPoller

inductive Fault
  | assertion
  | sysFatal (op : EpollOp) (fd : Int)
  deriving DecidableEq, Repr

def ensure (p : Prop) [Decidable p] : Except Fault Unit :=
  if p then pure () else throw .assertion

@[simp] theorem ensure_pos {p : Prop} [Decidable p] (h : p) : ensure p = pure () := if_pos h

def kInitEventListSize : Nat := 16

def setChannel [DecidableEq P] (s : EPollPoller P) (p : P) (c : PolledChannel) : EPollPoller P :=
  { s with channelAt := Function.update s.channelAt p c }

variable [DecidableEq P] (s : EPollPoller P) (p : P)

def setIndex (i : Index) : EPollPoller P := s.setChannel p { s.channelAt p with index := i }

/-- A failed `EPOLL_CTL_DEL` is logged, any other failure aborts. -/
def update (op : EpollOp) : Except Fault (EPollPoller P) :=
  let c := s.channelAt p
  match epollCtl s.kernel op c.fd ⟨c.channel.events, p⟩ with
  | some kernel => pure { s with kernel := kernel }
  | none =>
    if op = .del then pure { s with sysErrors := s.sysErrors ++ [(op, c.fd)] }
    else throw (.sysFatal op c.fd)

def updateChannel : Except Fault (EPollPoller P) := do
  let c := s.channelAt p
  match c.index with
  | .kNew =>
    ensure (s.channels c.fd = none)
    let s := { s with channels := Function.update s.channels c.fd (some p) }
    (s.setIndex p .kAdded).update p .add
  | .kDeleted =>
    ensure (s.channels c.fd ≠ none)
    ensure (s.channels c.fd = some p)
    (s.setIndex p .kAdded).update p .add
  | .kAdded =>
    ensure (s.channels c.fd ≠ none)
    ensure (s.channels c.fd = some p)
    if c.channel.isNoneEvent then
      return (← s.update p .del).setIndex p .kDeleted
    else s.update p .mod

def removeChannel : Except Fault (EPollPoller P) := do
  let c := s.channelAt p
  ensure (s.channels c.fd ≠ none)
  ensure (s.channels c.fd = some p)
  ensure (c.channel.isNoneEvent = true)
  ensure (c.index = .kAdded ∨ c.index = .kDeleted)
  let s := { s with channels := Function.update s.channels c.fd none }
  let s ← if c.index = .kAdded then s.update p .del else pure s
  return s.setIndex p .kNew

/-- `Channel::enableReading` and its siblings: the new interest mask, then `update()`. -/
def modify (f : Channel → Channel) : Except Fault (EPollPoller P) :=
  (s.setChannel p { s.channelAt p with channel := f (s.channelAt p).channel }).updateChannel p

/-- `Channel::remove`. -/
def remove : Except Fault (EPollPoller P) := do
  ensure ((s.channelAt p).channel.isNoneEvent = true)
  s.removeChannel p

/-- One round of the loop in `fillActiveChannels`, for an event with its `data.ptr`. -/
def fillActiveChannel (s : EPollPoller P) (e : BitVec 32 × P) : Except Fault (EPollPoller P) := do
  let c := s.channelAt e.2
  ensure (s.channels c.fd ≠ none)
  ensure (s.channels c.fd = some e.2)
  return s.setChannel e.2 { c with revents := e.1 }

/-- The state after `fillActiveChannels`, and the active channels. -/
def fillActiveChannels (s : EPollPoller P) (events : List (BitVec 32 × P)) :
    Except Fault (EPollPoller P × List P) := do
  ensure (events.length ≤ s.eventListSize)
  let s ← events.foldlM fillActiveChannel s
  return (s, events.map Prod.snd)

/-- `poll`, with what `epoll_wait` returned. -/
def poll (s : EPollPoller P) (events : List (BitVec 32 × P)) :
    Except Fault (EPollPoller P × List P) :=
  if events = [] then pure (s, [])
  else do
    let (s, active) ← s.fillActiveChannels events
    let size := if events.length = s.eventListSize then s.eventListSize * 2 else s.eventListSize
    return ({ s with eventListSize := size }, active)

end EPollPoller

end Lute
