import Lute.Polaris.BufferSafety
import Lute.Polaris.OutputStream
import Lute.Polaris.Wakeup

/-! One connection used from any number of threads: every call cut at its accesses to `state_`
and to the functor queue, the loop thread running between them. -/
namespace Lute

/-- The overloads of `send`; `buffer` is the caller's own `Buffer`. -/
inductive Argument
  | string (message : Bytes)
  | pointer (memory : Bytes) (len : Nat)
  | buffer
  deriving DecidableEq, Repr

/-- The bytes handed to `sendInLoop` in the loop thread, and the caller's buffer afterwards. -/
def Argument.inLoop (b : Buffer) : Argument → Bytes × Buffer
  | .string message => (message, b)
  | .pointer memory len => (memory.take len, b)
  | .buffer => (b.content, b.retrieveAll)

/-- The bytes bound into the functor in another thread, and the caller's buffer afterwards. -/
def Argument.queued (build : Build) (b : Buffer) : Argument → Result (Bytes × Buffer)
  | .string message => .ok (message, b)
  | .pointer memory len => .ok (memory.take len, b)
  | .buffer => b.retrieveAllAsString build

/-- A call of `send` that saw `kConnected`; the ticket tells calls apart. -/
structure Send (T : Type) where
  sender : Thread T
  ticket : Nat
  message : Bytes
  deriving DecidableEq, Repr

/-- The functors of the connection in its loop's queue. -/
inductive Task (T : Type)
  | sendInLoop (m : Send T)
  | shutdownInLoop
  | callback (f : TCPConnection.Functor)
  deriving DecidableEq, Repr

/-- How far a thread is: in `send` past the test of `state_`, past the push; in `shutdown` past
the test, past the assignment, past the push; in `handleWrite` before the test of `state_`. -/
inductive Pc (T : Type)
  | idle
  | sending (arg : Argument) (m : Send T)
  | sent (m : Send T)
  | stopping
  | stopped
  | shutdownQueued
  | drained
  deriving DecidableEq, Repr

def Task.toSend {T : Type} : Task T → Option (Send T)
  | .sendInLoop m => some m
  | _ => none

def Pc.toSend {T : Type} : Pc T → Option (Send T)
  | .sending _ m => some m
  | _ => none

/-- `writeShut` says that `shutdownWrite` has been executed. The last three fields only record:
how many calls of `send` saw `kConnected`, whether `shutdown` has been called, and which of these
calls of `send` had returned before. -/
structure ConnectionThreads (T : Type) where
  loop : EventLoop (Task T)
  conn : TCPConnection
  pc : Thread T → Pc T
  buffers : Thread T → Buffer
  writeShut : Bool
  ticket : Nat
  shutdownCalled : Bool
  early : List (Send T)

open TCPConnection (Effect)

/-- The callbacks a member function hands to its own loop. -/
def EventLoop.queueAll {T : Type} (l : EventLoop (Task T)) : List Effect → EventLoop (Task T)
  | [] => l
  | .queueInLoop f :: es => (l.queueInLoop true (.callback f)).queueAll es
  | _ :: es => l.queueAll es

/-- What the kernel may answer; after `shutdownWrite` a write fails with `EPIPE`. -/
def Allowed (writeShut : Bool) (es : List Effect) : Prop :=
  ∀ e ∈ es, e.possible = true ∧
    (writeShut = true → ∀ data result, e = .write data result → result = .failed .EPIPE)

namespace ConnectionThreads

variable {T : Type} [DecidableEq T]

inductive Label (T : Type)
  | move (m : EventLoop.Move (Task T))
  | refill (th : Thread T) (b : Buffer)
  | sendRefused (th : Thread T)
  | sendCall (arg : Argument) (m : Send T)
  | sendQueue (arg : Argument) (m : Send T)
  | sendReturn (m : Send T)
  | sendHere (arg : Argument) (m : Send T) (es : List Effect)
  | runSend (m : Send T) (es : List Effect)
  | shutdownRefused (th : Thread T)
  | shutdownCall (th : Thread T)
  | shutdownSet (th : Thread T)
  | shutdownQueue (th : Thread T)
  | shutdownReturn (th : Thread T)
  | shutdownHere (es : List Effect)
  | runShutdown (es : List Effect)
  | handleWrite (es : List Effect)
  | afterDrain (es : List Effect)
  deriving DecidableEq, Repr

def Label.effects : Label T → List Effect
  | .sendHere _ _ es | .runSend _ es | .shutdownHere es | .runShutdown es | .handleWrite es
  | .afterDrain es => es
  | _ => []

def setPc (s : ConnectionThreads T) (th : Thread T) (pc : Pc T) : ConnectionThreads T :=
  { s with pc := Function.update s.pc th pc }

/-- The call of `send` as it starts. -/
def newSend (s : ConnectionThreads T) (th : Thread T) (arg : Argument) : Send T :=
  ⟨th, s.ticket, (arg.inLoop (s.buffers th)).1⟩

/-- The return from a call of `send`. -/
def returned (s : ConnectionThreads T) (m : Send T) : List (Send T) :=
  if s.shutdownCalled then s.early else s.early ++ [m]

/-- `shutdownInLoop`, wherever it is called from. -/
def shut (s : ConnectionThreads T) (es : List Effect) : ConnectionThreads T :=
  { s with writeShut := s.writeShut || es.contains .shutdownWrite }

inductive Step (build : Build) : ConnectionThreads T → Label T → ConnectionThreads T → Prop
  | move {s : ConnectionThreads T} {m : EventLoop.Move (Task T)} {l : EventLoop (Task T)}
      (hpc : s.pc .loop = .idle) (hm : s.loop.move m = some l)
      (hrun : ∀ f, m = .run f → ∃ g, f = .callback g) :
      Step build s (.move m) { s with loop := l }
  | refill {s : ConnectionThreads T} {th : Thread T} {b : Buffer} (hpc : s.pc th = .idle)
      (hb : b.WF) :
      Step build s (.refill th b) { s with buffers := Function.update s.buffers th b }
  | sendRefused {s : ConnectionThreads T} {th : Thread T} (hpc : s.pc th = .idle)
      (hs : s.conn.state ≠ .kConnected) :
      Step build s (.sendRefused th) s
  | sendCall {s : ConnectionThreads T} {th : Thread T} {arg : Argument} (hpc : s.pc th = .idle)
      (hc : LoopThreads.MayCall s.loop th) (hs : s.conn.state = .kConnected) :
      Step build s (.sendCall arg (s.newSend th arg))
        { s.setPc th (.sending arg (s.newSend th arg)) with ticket := s.ticket + 1 }
  | sendQueue {s : ConnectionThreads T} {t : T} {arg : Argument} {m : Send T} {message : Bytes}
      {b : Buffer} (hpc : s.pc (.other t) = .sending arg m)
      (hq : arg.queued build (s.buffers (.other t)) = .ok (message, b)) :
      Step build s (.sendQueue arg { m with message })
        { s.setPc (.other t) (.sent { m with message }) with
          loop := s.loop.push (.sendInLoop { m with message })
          buffers := Function.update s.buffers (.other t) b }
  | sendReturn {s : ConnectionThreads T} {t : T} {m : Send T} (hpc : s.pc (.other t) = .sent m) :
      Step build s (.sendReturn m)
        { s.setPc (.other t) .idle with
          loop := s.loop.wakeupIfNeeded false
          early := s.returned m }
  | sendHere {s : ConnectionThreads T} {arg : Argument} {m : Send T} {message : Bytes} {b : Buffer}
      {result : WriteResult} {conn : TCPConnection} {es : List Effect}
      (hpc : s.pc .loop = .sending arg m) (hq : arg.inLoop (s.buffers .loop) = (message, b))
      (hc : s.conn.sendInLoop message result = (conn, es)) (hk : Allowed s.writeShut es) :
      Step build s (.sendHere arg { m with message } es)
        { s.setPc .loop .idle with
          conn
          loop := s.loop.queueAll es
          buffers := Function.update s.buffers .loop b
          early := s.returned { m with message } }
  | runSend {s : ConnectionThreads T} {m : Send T} {l : EventLoop (Task T)} {result : WriteResult}
      {conn : TCPConnection} {es : List Effect} (hpc : s.pc .loop = .idle)
      (hm : s.loop.move (.run (.sendInLoop m)) = some l)
      (hc : s.conn.sendInLoop m.message result = (conn, es)) (hk : Allowed s.writeShut es) :
      Step build s (.runSend m es) { s with conn, loop := l.queueAll es }
  | shutdownRefused {s : ConnectionThreads T} {th : Thread T} (hpc : s.pc th = .idle)
      (hs : s.conn.state ≠ .kConnected) :
      Step build s (.shutdownRefused th) { s with shutdownCalled := true }
  | shutdownCall {s : ConnectionThreads T} {th : Thread T} (hpc : s.pc th = .idle)
      (hc : LoopThreads.MayCall s.loop th) (hs : s.conn.state = .kConnected) :
      Step build s (.shutdownCall th) { s.setPc th .stopping with shutdownCalled := true }
  | shutdownSet {s : ConnectionThreads T} {th : Thread T} (hpc : s.pc th = .stopping) :
      Step build s (.shutdownSet th)
        { s.setPc th .stopped with conn := s.conn.setState .kDisconnecting }
  | shutdownQueue {s : ConnectionThreads T} {t : T} (hpc : s.pc (.other t) = .stopped) :
      Step build s (.shutdownQueue (.other t))
        { s.setPc (.other t) .shutdownQueued with loop := s.loop.push .shutdownInLoop }
  | shutdownReturn {s : ConnectionThreads T} {t : T} (hpc : s.pc (.other t) = .shutdownQueued) :
      Step build s (.shutdownReturn (.other t))
        { s.setPc (.other t) .idle with loop := s.loop.wakeupIfNeeded false }
  | shutdownHere {s : ConnectionThreads T} (hpc : s.pc .loop = .stopped) :
      Step build s (.shutdownHere s.conn.shutdownInLoop)
        ((s.setPc .loop .idle).shut s.conn.shutdownInLoop)
  | runShutdown {s : ConnectionThreads T} {l : EventLoop (Task T)} (hpc : s.pc .loop = .idle)
      (hm : s.loop.move (.run .shutdownInLoop) = some l) :
      Step build s (.runShutdown s.conn.shutdownInLoop)
        ({ s with loop := l }.shut s.conn.shutdownInLoop)
  | handleWrite {s : ConnectionThreads T} {result : WriteResult} {conn : TCPConnection}
      {es : List Effect} {drained : Bool} (hpc : s.pc .loop = .idle)
      (hph : s.loop.phase = .dispatch) (hc : s.conn.drain result = (conn, es, drained))
      (hk : Allowed s.writeShut es) :
      Step build s (.handleWrite es)
        { s.setPc .loop (if drained then .drained else .idle) with
          conn
          loop := s.loop.queueAll es }
  | afterDrain {s : ConnectionThreads T} (hpc : s.pc .loop = .drained) :
      Step build s (.afterDrain s.conn.afterDrain)
        ((s.setPc .loop .idle).shut s.conn.afterDrain)

/-- An established connection with nothing to write, all threads outside their calls. -/
structure Initial (s : ConnectionThreads T) : Prop where
  loop : ∃ n, s.loop = .enter n
  state : s.conn.state = .kConnected
  writing : s.conn.channel.isWriting = false
  output : s.conn.outputBuffer = []
  pc : ∀ th, s.pc th = .idle
  buffers : ∀ th, (s.buffers th).WF
  writeShut : s.writeShut = false
  shutdownCalled : s.shutdownCalled = false
  early : s.early = []

/-- A connection just established, every caller's buffer empty. -/
def established (T : Type) : ConnectionThreads T where
  loop := .enter 0
  conn := (TCPConnection.new false false).connectEstablished.1
  pc := fun _ => .idle
  buffers := fun _ => ⟨List.replicate 8 0, 8, 8⟩
  writeShut := false
  ticket := 0
  shutdownCalled := false
  early := []

def system (T : Type) [DecidableEq T] (build : Build) :
    Trace.LTS (ConnectionThreads T) (Label T) where
  init := Initial
  step := Step build

omit [DecidableEq T] in
theorem initial_established : Initial (established T) where
  loop := ⟨0, rfl⟩
  state := rfl
  writing := by simp [established, TCPConnection.connectEstablished, TCPConnection.new]
  output := rfl
  pc _ := rfl
  buffers _ := ⟨Nat.le_refl _, Nat.le_refl _, Nat.le_refl _, by simp [established]⟩
  writeShut := rfl
  shutdownCalled := rfl
  early := rfl

/-- The bytes taken by the kernel. -/
def kernel (h : List (Label T)) : Bytes := h.flatMap fun a => TCPConnection.acceptedOf a.effects

/-- The calls of `send` that saw `kConnected`, in the order of their tests. -/
def accepted (h : List (Label T)) : List (Send T) :=
  h.filterMap fun
    | .sendCall _ m => some m
    | _ => none

/-- The calls whose `sendInLoop` has run, in this order. -/
def executed (h : List (Label T)) : List (Send T) :=
  h.filterMap fun
    | .sendHere _ m _ => some m
    | .runSend m _ => some m
    | _ => none

/-- Those of them whose own write did not fault. -/
def deliveredBy : Label T → List (Send T)
  | .sendHere _ m es | .runSend m es => if es.any Effect.faulted then [] else [m]
  | _ => []

def delivered (h : List (Label T)) : List (Send T) := h.flatMap deliveredBy

/-- No write has failed with `EPIPE` or `ECONNRESET`. -/
def NoFault (h : List (Label T)) : Prop := ∀ a ∈ h, a.effects.any Effect.faulted = false

end ConnectionThreads

end Lute
