import Mathlib.Logic.Function.Basic
import Lute.Lib.Trace
import Lute.Polaris.EventLoop
import Lute.Polaris.TCPConnection

/-! A server: the acceptor's loop and any number of I/O loops, each with its functor queue, and
the connections that live across them. -/
namespace Lute

open TCPConnection (Effect)

/-- What a loop thread is to do for a connection. The first seven are functors. -/
inductive Item
  | connectEstablished (c : Nat)
  | connectDestroyed (c : Nat)
  | removeConnectionInLoop (c : Nat)
  | forceCloseInLoop (c : Nat)
  | sendInLoop (c : Nat) (message : Bytes)
  | shutdownInLoop (c : Nat)
  | callback (c : Nat)
  | handler (c : Nat) (h : Handler)
  | connectionCallback (c : Nat)
  | messageCallback (c : Nat)
  | closeCallback (c : Nat)
  | remove (c : Nat)
  deriving DecidableEq, Repr

namespace Item

def conn : Item → Nat
  | .connectEstablished c | .connectDestroyed c | .removeConnectionInLoop c | .forceCloseInLoop c
  | .sendInLoop c _ | .shutdownInLoop c | .callback c | .handler c _ | .connectionCallback c
  | .messageCallback c | .closeCallback c | .remove c => c

def ofFunctor (c : Nat) : TCPConnection.Functor → Item
  | .sendInLoop message => .sendInLoop c message
  | .shutdownInLoop => .shutdownInLoop c
  | .forceCloseInLoop => .forceCloseInLoop c
  | .writeCompleteCallback | .highWaterMarkCallback _ => .callback c

/-- What a member function goes on to do in the same thread. -/
def next (c : Nat) : Effect → Option Item
  | .connectionCallback => some (.connectionCallback c)
  | .messageCallback => some (.messageCallback c)
  | .closeCallback => some (.closeCallback c)
  | .remove => some (.remove c)
  | _ => none

/-- What it leaves to the loop; `runInLoop` queues outside the loop thread only. -/
def queued (c : Nat) (isInLoopThread : Bool) : Effect → Option Item
  | .queueInLoop f => some (ofFunctor c f)
  | .runInLoop f => if isInLoopThread then none else some (ofFunctor c f)
  | _ => none

end Item

/-- The member function an item calls; `r` and `w` are what a read or write of it returns. -/
def TCPConnection.perform (conn : TCPConnection) (r : ReadResult) (w : WriteResult) :
    Item → TCPConnection × List Effect
  | .connectEstablished _ => conn.connectEstablished
  | .connectDestroyed _ => conn.connectDestroyed
  | .forceCloseInLoop _ => conn.forceCloseInLoop
  | .sendInLoop _ message => conn.sendInLoop message w
  | .shutdownInLoop _ => (conn, conn.shutdownInLoop)
  | .handler _ .close => conn.handleClose
  | .handler _ .error => (conn, [])
  | .handler _ .read => conn.handleRead r
  | .handler _ .write => conn.handleWrite w
  | .callback _ | .connectionCallback _ | .messageCallback _ | .closeCallback _
  | .removeConnectionInLoop _ | .remove _ => (conn, [])

/-- What the application may call on a connection it has been given; `startRead` and `stopRead` it
does not call. -/
inductive AppCall
  | send (isInLoopThread : Bool) (message : Bytes) (w : WriteResult)
  | shutdown (isInLoopThread : Bool)
  | forceClose (isInLoopThread : Bool)
  | forceCloseWithDelay (isInLoopThread : Bool)
  deriving DecidableEq, Repr

def AppCall.isInLoopThread : AppCall → Bool
  | .send b _ _ | .shutdown b | .forceClose b | .forceCloseWithDelay b => b

def TCPConnection.app (conn : TCPConnection) : AppCall → TCPConnection × List Effect
  | .send isInLoopThread message w => conn.send isInLoopThread message w
  | .shutdown _ => conn.shutdown
  | .forceClose _ => conn.forceClose
  | .forceCloseWithDelay _ => conn.forceCloseWithDelay

/-- A loop, the channels its last poll found active and not yet handled, and what its thread has
still to do of the event or functor at hand. -/
structure ServerLoop where
  core : EventLoop Item
  active : List (Nat × BitVec 32)
  todo : List Item

/-- The acceptor's loop and the two parts of connection names. -/
structure ServerConfig (L : Type) where
  loop : L
  name : List Char
  ipPort : List Char

/-- Connections are told apart by their number. `owner` is `getLoop()`, `known` says whether the
application has been given the connection, `posting` are the functors its calls are about to queue,
`delayed` are the timers of `forceCloseWithDelay`. -/
structure TCPServer (L : Type) where
  loops : L → ServerLoop
  conns : Nat → TCPConnection
  owner : Nat → L
  known : Nat → Bool
  connections : List Char → Option Nat
  nextConnId : Nat
  posting : List Item
  delayed : List Nat

namespace TCPServer

variable {L : Type} [DecidableEq L]

/-- `name_` and what `snprintf` leaves in a buffer long enough for any address and number. -/
def connName (cfg : ServerConfig L) (c : Nat) : List Char :=
  cfg.name ++ '-' :: (cfg.ipPort ++ '#' :: Nat.toDigits 10 c)

inductive Label (L : Type)
  | poll (l : L) (active : List (Nat × BitVec 32))
  | handleEvent (l : L) (c : Nat) (revents : BitVec 32)
  | move (l : L) (m : EventLoop.Move Item)
  | newConnection (c : Nat) (io : L)
  | exec (l : L) (i : Item) (state : StateE)
  | app (c : Nat) (call : AppCall)
  | post (i : Item)
  | timer (c : Nat)

/-- No hang-up without input together with urgent data or a half-close of the peer. -/
def Sane (revents : BitVec 32) : Prop :=
  revents &&& POLLHUP ≠ 0 ∧ revents &&& POLLIN = 0 →
    revents &&& (POLLIN ||| POLLPRI ||| POLLRDHUP) = 0

def setLoop (s : TCPServer L) (l : L) (loop : ServerLoop) : TCPServer L :=
  { s with loops := Function.update s.loops l loop }

/-- `queueInLoop` on the loop `l`, for each of `is`. -/
def push (s : TCPServer L) (isInLoopThread : Bool) (l : L) (is : List Item) : TCPServer L :=
  s.setLoop l { s.loops l with
    core := is.foldl (fun core i => core.queueInLoop isInLoopThread i) (s.loops l).core }

def setConn (s : TCPServer L) (c : Nat) (conn : TCPConnection) : TCPServer L :=
  { s with conns := Function.update s.conns c conn }

/-- A call by the application, or by a timer on its behalf, up to the queueing of its functor. -/
def call (s : TCPServer L) (c : Nat) (call : AppCall) : TCPServer L :=
  let r := (s.conns c).app call
  { s.setConn c r.1 with
    posting := s.posting ++ r.2.filterMap (Item.queued c call.isInLoopThread)
    delayed := if Effect.runAfterForceClose ∈ r.2 then s.delayed ++ [c] else s.delayed }

/-- The thread of the loop `l` calls the member function of `i`, with `rest` to do afterwards. -/
def perform (s : TCPServer L) (l : L) (i : Item) (rest : List Item) (r : ReadResult)
    (w : WriteResult) : TCPServer L :=
  let c := i.conn
  let p := (s.conns c).perform r w i
  let s := s.setLoop l { s.loops l with todo := p.2.filterMap (Item.next c) ++ rest }
  let s := s.setConn c p.1
  s.push true (s.owner c) (p.2.filterMap (Item.queued c true))

/-- The server's own part in an item of connection `c` at the loop `l`: `removeConnection` behind
`closeCallback_`, the erase and the last functor in `removeConnectionInLoop`; a connection is
known to the application from its first callback on. -/
def serve (cfg : ServerConfig L) (s : TCPServer L) (l : L) (c : Nat) : Item → TCPServer L
  | .connectionCallback _ => { s with known := Function.update s.known c true }
  | .closeCallback _ =>
    if l = cfg.loop then
      s.setLoop l { s.loops l with todo := .removeConnectionInLoop c :: (s.loops l).todo }
    else s.push false cfg.loop [.removeConnectionInLoop c]
  | .removeConnectionInLoop _ =>
    let s := { s with connections := Function.update s.connections (connName cfg c) none }
    s.push (l = s.owner c) (s.owner c) [.connectDestroyed c]
  | _ => s

def exec (cfg : ServerConfig L) (s : TCPServer L) (l : L) (i : Item) (rest : List Item)
    (r : ReadResult) (w : WriteResult) : TCPServer L :=
  (s.perform l i rest r w).serve cfg l i.conn i

/-- A connection is accepted for the loop `io`. -/
def newConnection (cfg : ServerConfig L) (s : TCPServer L) (io : L)
    (writeCompleteCallback : Bool) : TCPServer L :=
  let c := s.nextConnId
  let s := { s.setConn c (.new writeCompleteCallback false) with
    owner := Function.update s.owner c io
    connections := Function.update s.connections (connName cfg c) (some c)
    nextConnId := c + 1 }
  if io = cfg.loop then
    s.setLoop io { s.loops io with todo := .connectEstablished c :: (s.loops io).todo }
  else s.push false io [.connectEstablished c]

inductive Step (cfg : ServerConfig L) : TCPServer L → Label L → TCPServer L → Prop
  | poll {s : TCPServer L} {l : L} {core : EventLoop Item} {active : List (Nat × BitVec 32)}
      (hm : (s.loops l).core.move .poll = some core) (hnd : (active.map Prod.fst).Nodup)
      (hact : ∀ p ∈ active, (s.owner p.1 = l ∧ 1 ≤ p.1 ∧ p.1 < s.nextConnId) ∧
        (s.conns p.1).channel.isNoneEvent = false ∧ Sane p.2) :
      Step cfg s (.poll l active) (s.setLoop l { s.loops l with core, active })
  | handleEvent {s : TCPServer L} {l : L} {c : Nat} {revents : BitVec 32}
      {active : List (Nat × BitVec 32)} (htodo : (s.loops l).todo = [])
      (hph : (s.loops l).core.phase = .dispatch)
      (hact : (s.loops l).active = (c, revents) :: active) :
      Step cfg s (.handleEvent l c revents)
        (s.setLoop l { s.loops l with
          active, todo := (Channel.handleEventWithGuard revents).map (.handler c) })
  | move {s : TCPServer L} {l : L} {m : EventLoop.Move Item} {core : EventLoop Item}
      (htodo : (s.loops l).todo = []) (hact : m = .beginPending → (s.loops l).active = [])
      (hne : m ≠ .poll ∧ ∀ i, m ≠ .run i) (hm : (s.loops l).core.move m = some core) :
      Step cfg s (.move l m) (s.setLoop l { s.loops l with core })
  | run {s : TCPServer L} {l : L} {i : Item} {core : EventLoop Item}
      (htodo : (s.loops l).todo = []) (hm : (s.loops l).core.move (.run i) = some core) :
      Step cfg s (.move l (.run i)) (s.setLoop l { s.loops l with core, todo := [i] })
  | newConnection {s : TCPServer L} {io : L} {writeCompleteCallback : Bool}
      (htodo : (s.loops cfg.loop).todo = []) (hph : (s.loops cfg.loop).core.phase = .dispatch) :
      Step cfg s (.newConnection s.nextConnId io) (s.newConnection cfg io writeCompleteCallback)
  | exec {s : TCPServer L} {l : L} {i : Item} {rest : List Item} {r : ReadResult} {w : WriteResult}
      (htodo : (s.loops l).todo = i :: rest) :
      Step cfg s (.exec l i (s.conns i.conn).state) (s.exec cfg l i rest r w)
  | app {s : TCPServer L} {c : Nat} {call : AppCall} (hk : s.known c = true) :
      Step cfg s (.app c call) (s.call c call)
  | post {s : TCPServer L} {i : Item} {isInLoopThread : Bool} (hp : i ∈ s.posting) :
      Step cfg s (.post i)
        { s.push isInLoopThread (s.owner i.conn) [i] with posting := s.posting.erase i }
  | timer {s : TCPServer L} {c : Nat} (hd : c ∈ s.delayed) :
      Step cfg s (.timer c) { s.call c (.forceClose true) with delayed := s.delayed.erase c }

/-- Every loop is entered with nothing to do; no connection has been accepted. -/
structure Initial (s : TCPServer L) : Prop where
  loops : ∀ l, ∃ n, s.loops l = ⟨.enter n, [], []⟩
  conns : ∀ c, s.conns c = .new false false
  known : ∀ c, s.known c = false
  connections : ∀ k, s.connections k = none
  nextConnId : s.nextConnId = 1
  posting : s.posting = []
  delayed : s.delayed = []

def system (cfg : ServerConfig L) : Trace.LTS (TCPServer L) (Label L) where
  init := Initial
  step := Step cfg

end TCPServer

end Lute
