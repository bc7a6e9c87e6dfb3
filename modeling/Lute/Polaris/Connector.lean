import Lute.Polaris.Channel
import Lute.Polaris.EventLoop

/-! The connector of a client: one attempt after the other, driven by calls from any thread, the
functor queue, retry timers and the events of the connecting channel. -/
namespace Lute

/-- What `sockets::connect` left in `savedErrno`; `none` is success. -/
inductive ConnectErrno
  | none
  | EINPROGRESS
  | EINTR
  | EISCONN
  | EAGAIN
  | EADDRINUSE
  | EADDRNOTAVAIL
  | ECONNREFUSED
  | ENETUNREACH
  | EACCES
  | EPERM
  | EAFNOSUPPORT
  | EALREADY
  | EBADF
  | EFAULT
  | ENOTSOCK
  | other (code : Nat)
  deriving DecidableEq, Repr

/-- The socket that was created for an attempt, and what `connect` said. -/
structure Attempt where
  sockfd : Nat
  savedErrno : ConnectErrno
  deriving DecidableEq, Repr

/-- The channel of an attempt; `addedToLoop` is lost by `remove()`. -/
structure ConnectorChannel where
  fd : Nat
  channel : Channel
  addedToLoop : Bool
  deriving DecidableEq, Repr

namespace ConnectorChannel

/-- `disableAll()`; any update enters the channel in the poller. -/
def disableAll (c : ConnectorChannel) : ConnectorChannel :=
  { c with channel := c.channel.disableAll, addedToLoop := true }

def enableWriting (c : ConnectorChannel) : ConnectorChannel :=
  { c with channel := c.channel.enableWriting, addedToLoop := true }

def remove (c : ConnectorChannel) : ConnectorChannel := { c with addedToLoop := false }

end ConnectorChannel

/-- `Connector::States`. -/
inductive ConnectorState
  | kDisconnected
  | kConnecting
  | kConnected
  deriving DecidableEq, Repr

structure Connector where
  connect_ : Bool
  state : ConnectorState
  channel : Option ConnectorChannel
  retryDelayMs : Nat
  deriving DecidableEq, Repr

namespace Connector

def kMaxRetryDelayMs : Nat := 30 * 1000
def kInitRetryDelayMs : Nat := 500

/-- The functors that concern the connector. -/
inductive Functor
  | startInLoop
  | stopInLoop
  | resetChannel
  | callback
  deriving DecidableEq, Repr

/-- The first four tell what a member function finds when it is entered. -/
inductive Effect
  | startInLoop (state : ConnectorState)
  | connecting (channel : Option ConnectorChannel)
  | removeAndResetChannel (channel : Option ConnectorChannel)
  | resetChannel (channel : Option ConnectorChannel)
  | queueInLoop (f : Functor)
  | runAfter (delayMs : Nat)
  | close (sockfd : Nat)
  | newConnectionCallback (sockfd : Nat)
  deriving DecidableEq, Repr

def new : Connector := ⟨false, .kDisconnected, none, kInitRetryDelayMs⟩

def setState (c : Connector) (state : ConnectorState) : Connector := { c with state }

/-- The timer it starts runs `startInLoop`. -/
def retry (c : Connector) (sockfd : Nat) : Connector × List Effect :=
  let c := c.setState .kDisconnected
  if c.connect_ then
    ({ c with retryDelayMs := min (c.retryDelayMs * 2) kMaxRetryDelayMs },
      [.close sockfd, .runAfter c.retryDelayMs])
  else (c, [.close sockfd])

/-- A channel that is there is destroyed. -/
def connecting (c : Connector) (sockfd : Nat) : Connector × List Effect :=
  ({ c with
      state := .kConnecting
      channel := some (ConnectorChannel.enableWriting ⟨sockfd, .new, false⟩) },
    [.connecting c.channel])

def connect (c : Connector) (a : Attempt) : Connector × List Effect :=
  match a.savedErrno with
  | .none | .EINPROGRESS | .EINTR | .EISCONN => c.connecting a.sockfd
  | .EAGAIN | .EADDRINUSE | .EADDRNOTAVAIL | .ECONNREFUSED | .ENETUNREACH => c.retry a.sockfd
  | .EACCES | .EPERM | .EAFNOSUPPORT | .EALREADY | .EBADF | .EFAULT | .ENOTSOCK | .other _ =>
    (c, [.close a.sockfd])

def startInLoop (c : Connector) (a : Attempt) : Connector × List Effect :=
  let (c', es) := if c.connect_ then c.connect a else (c, [])
  (c', .startInLoop c.state :: es)

def restart (c : Connector) (a : Attempt) : Connector × List Effect :=
  { c with
    state := .kDisconnected
    retryDelayMs := kInitRetryDelayMs
    connect_ := true }.startInLoop a

/-- With the descriptor it returns; on a null pointer the program ends here. -/
def removeAndResetChannel (c : Connector) : Connector × List Effect × Option Nat :=
  match c.channel with
  | none => (c, [.removeAndResetChannel none], none)
  | some ch =>
    ({ c with channel := some ch.disableAll.remove },
      [.removeAndResetChannel (some ch), .queueInLoop .resetChannel], some ch.fd)

def resetChannel (c : Connector) : Connector × List Effect :=
  ({ c with channel := none }, [.resetChannel c.channel])

/-- `removeAndResetChannel` and what follows for the descriptor. -/
def release (c : Connector) (follow : Connector → Nat → Connector × List Effect) :
    Connector × List Effect :=
  match c.removeAndResetChannel with
  | (c, es, none) => (c, es)
  | (c, es, some sockfd) =>
    let (c', es') := follow c sockfd
    (c', es ++ es')

def stopInLoop (c : Connector) : Connector × List Effect :=
  if c.state = .kConnecting then (c.setState .kDisconnected).release retry else (c, [])

/-- `err` is `SO_ERROR`. -/
def handleWrite (c : Connector) (err : Nat) (isSelfConnect : Bool) : Connector × List Effect :=
  if c.state = .kConnecting then
    c.release fun c sockfd =>
      if err ≠ 0 then c.retry sockfd
      else if isSelfConnect then c.retry sockfd
      else
        let c := c.setState .kConnected
        if c.connect_ then (c, [.newConnectionCallback sockfd]) else (c, [.close sockfd])
  else (c, [])

def handleError (c : Connector) : Connector × List Effect :=
  if c.state = .kConnecting then c.release retry else (c, [])

/-- The connector sets no other callbacks. -/
def handle (c : Connector) (err : Nat) (isSelfConnect : Bool) : Handler → Connector × List Effect
  | .error => c.handleError
  | .write => c.handleWrite err isSelfConnect
  | .close | .read => (c, [])

def handleAll (c : Connector) (err : Nat) (isSelfConnect : Bool) :
    List Handler → Connector × List Effect
  | [] => (c, [])
  | h :: hs =>
    let (c', es) := c.handle err isSelfConnect h
    let (c'', es') := c'.handleAll err isSelfConnect hs
    (c'', es ++ es')

/-- `handleEvent` of the connecting channel. -/
def handleEvent (c : Connector) (revents : BitVec 32) (err : Nat) (isSelfConnect : Bool) :
    Connector × List Effect :=
  c.handleAll err isSelfConnect (Channel.handleEventWithGuard revents)

def queued (es : List Effect) : List Functor :=
  es.filterMap fun
    | .queueInLoop f => some f
    | _ => none

def armed (es : List Effect) : Nat :=
  es.countP fun
    | .runAfter _ => true
    | _ => false

/-- An attempt starts from `kDisconnected` and without a channel; a channel that is destroyed has
left the poller; the channel that is removed is there. -/
def Effect.Sound : Effect → Prop
  | .startInLoop state => state = .kDisconnected
  | .connecting channel => channel = none
  | .removeAndResetChannel channel => channel.isSome = true
  | .resetChannel channel => ∀ ch, channel = some ch → ch.addedToLoop = false
  | _ => True

end Connector

/-- How far a thread is: past the assignment to `connect_` in `start` or `stop`. -/
inductive ConnectorPc
  | idle
  | starting
  | stopping
  deriving DecidableEq, Repr

/-- `timers` counts the retry timers that have not fired, `log` is what the connector did. -/
structure ConnectorSystem (T : Type) where
  loop : EventLoop Connector.Functor
  connector : Connector
  timers : Nat
  pc : Thread T → ConnectorPc
  log : List Connector.Effect

namespace ConnectorSystem

open Connector (Functor Effect queued armed)

variable {T : Type}

inductive Label (T : Type)
  | move (m : EventLoop.Move Functor)
  | startCall (th : Thread T)
  | startHere (a : Attempt)
  | startQueue (th : T)
  | stopCall (th : Thread T)
  | stopQueue (th : Thread T)
  | runStart (a : Attempt)
  | runStop
  | runReset
  | fire (a : Attempt)
  | handleEvent (revents : BitVec 32) (err : Nat) (isSelfConnect : Bool)
  | restart (a : Attempt)
  deriving DecidableEq, Repr

/-- The steps of the loop that run no functor of the connector. -/
def foreign : EventLoop.Move Functor → Bool
  | .run f => f == .callback
  | _ => true

/-- What follows a member function run in the loop thread. -/
def did (s : ConnectorSystem T) (r : Connector × List Effect) : ConnectorSystem T :=
  { s with
    connector := r.1
    loop := (queued r.2).foldl (fun l f => l.queueInLoop true f) s.loop
    timers := s.timers + armed r.2
    log := s.log ++ r.2 }

variable [DecidableEq T]

def setPc (s : ConnectorSystem T) (th : Thread T) (pc : ConnectorPc) : ConnectorSystem T :=
  { s with pc := Function.update s.pc th pc }

def setConnect (s : ConnectorSystem T) (b : Bool) : ConnectorSystem T :=
  { s with connector := { s.connector with connect_ := b } }

/-- A functor of the connector, taken from the queue and run. -/
def runFunctor (s : ConnectorSystem T) (f : Functor) (r : Connector × List Effect) :
    Option (ConnectorSystem T) :=
  if s.pc .loop = .idle then
    (s.loop.move (.run f)).map fun loop => { s with loop }.did r
  else none

/-- Timers fire and events arrive while the loop handles its active channels. A channel that was
destroyed while it was in the poller is not followed further. -/
def exec (s : ConnectorSystem T) : Label T → Option (ConnectorSystem T)
  | .move m =>
    if s.pc .loop = .idle ∧ foreign m then (s.loop.move m).map fun loop => { s with loop }
    else none
  | .startCall th =>
    if s.pc th = .idle then some ((s.setPc th .starting).setConnect true) else none
  | .startHere a =>
    if s.pc .loop = .starting then some ((s.setPc .loop .idle).did (s.connector.startInLoop a))
    else none
  | .startQueue th =>
    if s.pc (.other th) = .starting then
      some { s.setPc (.other th) .idle with loop := s.loop.queueInLoop false .startInLoop }
    else none
  | .stopCall th =>
    if s.pc th = .idle then some ((s.setPc th .stopping).setConnect false) else none
  | .stopQueue th =>
    if s.pc th = .stopping then
      some { s.setPc th .idle with loop := s.loop.queueInLoop th.isInLoopThread .stopInLoop }
    else none
  | .runStart a => s.runFunctor .startInLoop (s.connector.startInLoop a)
  | .runStop => s.runFunctor .stopInLoop s.connector.stopInLoop
  | .runReset => s.runFunctor .resetChannel s.connector.resetChannel
  | .fire a =>
    if s.pc .loop = .idle ∧ s.loop.phase = .dispatch ∧ 0 < s.timers then
      some ({ s with timers := s.timers - 1 }.did (s.connector.startInLoop a))
    else none
  | .handleEvent revents err isSelfConnect =>
    if s.pc .loop = .idle ∧ s.loop.phase = .dispatch ∧
        s.connector.channel.any ConnectorChannel.addedToLoop then
      some (s.did (s.connector.handleEvent revents err isSelfConnect))
    else none
  | .restart a =>
    if s.pc .loop = .idle then some (s.did (s.connector.restart a)) else none

/-- A connector just made, on a loop that may be busy with other things. -/
structure Initial (s : ConnectorSystem T) : Prop where
  settled : s.loop.Settled
  waiting : ∀ f ∈ s.loop.waiting, f = .callback
  connector : s.connector = .new
  timers : s.timers = 0
  pc : ∀ th, s.pc th = .idle
  log : s.log = []

def system (T : Type) [DecidableEq T] : Trace.LTS (ConnectorSystem T) (Label T) where
  init := Initial
  step s a t := s.exec a = some t

/-- `start` and `restart` are called only while no attempt is under way or waiting; in the loop
thread, where they do not wait in the queue, only after the last channel is gone. A retry timer
does not fire before that either. -/
def Orderly (s : ConnectorSystem T) : Label T → Prop
  | .startHere _ => s.connector.state = .kDisconnected ∧ .startInLoop ∉ s.loop.waiting ∧
      s.timers = 0 ∧ .resetChannel ∉ s.loop.waiting
  | .startQueue _ => s.connector.state = .kDisconnected ∧ .startInLoop ∉ s.loop.waiting ∧
      s.timers = 0
  | .fire _ => .resetChannel ∉ s.loop.waiting
  | .restart _ => s.connector.state ≠ .kConnecting ∧ .startInLoop ∉ s.loop.waiting ∧
      s.timers = 0 ∧ .resetChannel ∉ s.loop.waiting
  | _ => True

instance (s : ConnectorSystem T) : (a : Label T) → Decidable (s.Orderly a)
  | .startHere _ => inferInstanceAs (Decidable (_ ∧ _ ∧ _ ∧ _))
  | .startQueue _ => inferInstanceAs (Decidable (_ ∧ _ ∧ _))
  | .fire _ => inferInstanceAs (Decidable (_ ∉ _))
  | .restart _ => inferInstanceAs (Decidable (_ ∧ _ ∧ _ ∧ _))
  | .move _ | .startCall _ | .stopCall _ | .stopQueue _ | .runStart _ | .runStop | .runReset
  | .handleEvent _ _ _ => inferInstanceAs (Decidable True)

end ConnectorSystem

end Lute
