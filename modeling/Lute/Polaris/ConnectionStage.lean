import Lute.Polaris.OutputStream
import Lute.Polaris.TCPServer

/-! The stages of a connection's life, and what a server looks like to a connection in each. -/
namespace Lute

open TCPConnection (Effect)

/-- What happens in the life of a connection, with `state_` as it is found. -/
inductive LifeEvent
  | accepted
  | established (state : StateE)
  | callback (state : StateE)
  | closeCallback
  | removed
  | destroyed (state : StateE)
  | channelRemoved
  deriving DecidableEq, Repr

def wholeLife : List LifeEvent :=
  [.accepted, .established .kConnecting, .callback .kConnected, .callback .kDisconnected,
    .closeCallback, .removed, .destroyed .kDisconnected, .channelRemoved]

namespace Item

def lifeEvent (state : StateE) : Item → Option LifeEvent
  | .connectEstablished _ => some (.established state)
  | .connectionCallback _ => some (.callback state)
  | .closeCallback _ => some .closeCallback
  | .removeConnectionInLoop _ => some .removed
  | .connectDestroyed _ => some (.destroyed state)
  | .remove _ => some .channelRemoved
  | _ => none

/-- The items that carry a connection from one stage to the next. -/
def isToken : Item → Bool
  | .connectEstablished _ | .connectDestroyed _ | .removeConnectionInLoop _
  | .connectionCallback _ | .closeCallback _ | .remove _ => true
  | _ => false

def isFunctor : Item → Bool
  | .connectEstablished _ | .connectDestroyed _ | .removeConnectionInLoop _ | .forceCloseInLoop _
  | .sendInLoop _ _ | .shutdownInLoop _ | .callback _ => true
  | _ => false

/-- The handlers that may close. -/
def isReader : Item → Bool
  | .handler _ .read | .handler _ .close => true
  | _ => false

end Item

inductive Stage
  | absent
  | connecting
  | established
  | up
  | closing
  | down
  | closed
  | removed
  | destroyed
  | gone
  deriving DecidableEq, Repr

namespace Stage

def age : Stage → Nat
  | .absent => 0
  | .connecting => 1
  | .established => 2
  | .up | .closing => 3
  | .down => 4
  | .closed => 5
  | .removed => 6
  | .destroyed => 7
  | .gone => 8

def past (st : Stage) : List LifeEvent := wholeLife.take st.age

/-- What is still to be done, in this order, for the connection to go on. -/
def tokens (c : Nat) : Stage → List Item
  | .connecting => [.connectEstablished c]
  | .established => [.connectionCallback c]
  | .closing => [.connectionCallback c, .closeCallback c]
  | .down => [.closeCallback c]
  | .closed => [.removeConnectionInLoop c]
  | .removed => [.connectDestroyed c]
  | .destroyed => [.remove c]
  | .absent | .up | .gone => []

/-- The loop that is to do it. -/
def place {L : Type} (base owner : L) : Stage → L
  | .closed => base
  | _ => owner

def Admits : Stage → StateE → Prop
  | .absent, state | .connecting, state => state = .kConnecting
  | .established, state => state = .kConnected
  | .up, state => state = .kConnected ∨ state = .kDisconnecting
  | _, state => state = .kDisconnected

/-- The channel is registered for reading. -/
def watched : Stage → Bool
  | .established | .up => true
  | _ => false

def listed : Stage → Bool
  | .connecting | .established | .up | .closing | .down | .closed => true
  | _ => false

/-- The application has been given the connection. -/
def isOut : Stage → Bool
  | .absent | .connecting | .established => false
  | _ => true

end Stage

namespace TCPConnection

variable {c c' : TCPConnection} {es : List Effect}

/-- The effects that take a connection to its next stage. -/
def Effect.isMilestone : Effect → Bool
  | .connectionCallback | .closeCallback | .remove => true
  | _ => false

/-- A call that may start a shutdown but neither opens nor closes. -/
structure Steady (c : TCPConnection) (p : TCPConnection × List Effect) : Prop where
  state : p.1.state = c.state ∨
    (c.state = .kConnected ∨ c.state = .kDisconnecting) ∧ p.1.state = .kDisconnecting
  reading : p.1.channel.isReading = c.channel.isReading
  silent : c.state = .kDisconnected → c.channel.isNoneEvent = true →
    p.1.channel.isNoneEvent = true
  effects : ∀ e ∈ p.2, e.isMilestone = false

theorem OnlyQueues.isMilestone (h : OnlyQueues es) : ∀ e ∈ es, e.isMilestone = false := by
  intro e he
  obtain ⟨f, rfl⟩ := h e he
  rfl

theorem steady_self (hes : ∀ e ∈ es, e.isMilestone = false) : Steady c (c, es) :=
  ⟨.inl rfl, rfl, fun _ h => h, hes⟩

theorem isReading_enqueue (c : TCPConnection) (message : Bytes) (n : Nat) :
    (c.enqueue message n).1.channel.isReading = c.channel.isReading := by
  unfold enqueue
  dsimp only
  split_ifs <;> simp

theorem steady_enqueue (hs : c.state ≠ .kDisconnected) (message : Bytes) (n : Nat)
    (es : List Effect) (hes : ∀ e ∈ es, e.isMilestone = false) :
    Steady c ((c.enqueue message n).1, es ++ (c.enqueue message n).2) := by
  obtain ⟨-, hq, hst⟩ := c.enqueue_spec message n
  refine ⟨.inl hst, c.isReading_enqueue message n, fun hd => absurd hd hs, ?_⟩
  intro e he
  exact (List.mem_append.mp he).elim (hes e) (hq.isMilestone e)

theorem steady_sendInLoop (c : TCPConnection) (message : Bytes) (result : WriteResult) :
    Steady c (c.sendInLoop message result) := by
  rcases c.sendInLoop_enqueue message result with ⟨es, heq, hes⟩ | ⟨hs, n, es, heq, hes⟩
  · rw [heq]
    refine steady_self fun e he => ?_
    rw [hes e he]
    rfl
  · rw [heq]
    refine steady_enqueue hs message n es fun e he => ?_
    rcases hes e he with rfl | rfl <;> rfl

theorem isMilestone_shutdownInLoop (c : TCPConnection) :
    ∀ e ∈ c.shutdownInLoop, e.isMilestone = false := by
  unfold shutdownInLoop
  split_ifs <;> simp [Effect.isMilestone]

theorem steady_handleWrite (c : TCPConnection) (result : WriteResult) :
    Steady c (c.handleWrite result) := by
  rcases hd : c.drain result with ⟨c', es, drained⟩
  have hrest : ∀ e ∈ if drained then c'.afterDrain else [], e.isMilestone = false := by
    unfold afterDrain
    split_ifs
    · exact c'.isMilestone_shutdownInLoop
    all_goals simp
  have hes : ∀ e ∈ es, e.isMilestone = false := by
    rcases drain_cases hd with ⟨-, -, rfl, -⟩ | ⟨-, rfl, -, -⟩ | ⟨-, -, n, qs, -, -, -, rfl, hq, -⟩
    · simp
    · simp [Effect.isMilestone]
    · simpa [Effect.isMilestone] using hq.isMilestone
  have hsilent : c.channel.isNoneEvent = true → c' = c := by
    intro hn
    have hw := c.channel.isWriting_of_isNoneEvent hn
    rcases drain_cases hd with ⟨-, rfl, -, -⟩ | ⟨hw', -⟩ | ⟨hw', -⟩ <;> simp_all
  have hread : c'.channel.isReading = c.channel.isReading := by
    rcases drain_cases hd with ⟨-, rfl, -, -⟩ | ⟨-, -, -, h⟩ | ⟨-, -, n, qs, -, -, -, -, -, rfl⟩
    · rfl
    · rcases h with ⟨n, -, -, rfl⟩ | ⟨errno, -, rfl⟩ | ⟨-, rfl⟩ <;> rfl
    · simp
  simp only [handleWrite, hd]
  refine ⟨.inl (drain_stream hd).2, hread, fun _ hn => by rwa [hsilent hn], ?_⟩
  intro e he
  exact (List.mem_append.mp he).elim (hes e) (hrest e)

theorem steady_app (c : TCPConnection) (call : AppCall) : Steady c (c.app call) := by
  cases call with
  | send isInLoopThread message w =>
    simp only [app, send]
    split_ifs
    · exact c.steady_sendInLoop message w
    all_goals exact steady_self (by simp [Effect.isMilestone])
  | shutdown =>
    simp only [app, shutdown]
    split_ifs with hs
    · exact ⟨.inr ⟨.inl hs, rfl⟩, rfl, fun _ h => h, by simp [Effect.isMilestone]⟩
    · exact steady_self (by simp)
  | forceClose | forceCloseWithDelay =>
    simp only [app, forceClose, forceCloseWithDelay]
    split_ifs with hs
    · exact ⟨.inr ⟨hs, rfl⟩, rfl, fun _ h => h, by simp [Effect.isMilestone]⟩
    · exact steady_self (by simp)

/-- What an item without a token does: it closes, or goes on as before. -/
theorem perform_cases (c : TCPConnection) (r : ReadResult) (w : WriteResult) {i : Item}
    (hi : i.isToken = false) :
    Steady c (c.perform r w i) ∨
      (i.isReader = true ∨ i = .forceCloseInLoop i.conn ∧ c.state ≠ .kDisconnected) ∧
        c.perform r w i = c.handleClose := by
  cases i with
  | forceCloseInLoop =>
    simp only [perform, forceCloseInLoop]
    split_ifs with hs
    · refine .inr ⟨.inr ⟨rfl, ?_⟩, rfl⟩
      rcases hs with hs | hs <;> simp [hs]
    · exact .inl (steady_self (by simp))
  | sendInLoop _ message => exact .inl (c.steady_sendInLoop message w)
  | shutdownInLoop => exact .inl (steady_self c.isMilestone_shutdownInLoop)
  | callback | messageCallback => exact .inl (steady_self (by simp))
  | handler _ h =>
    cases h with
    | close => exact .inr ⟨.inl rfl, rfl⟩
    | error => exact .inl (steady_self (by simp))
    | write => exact .inl (c.steady_handleWrite w)
    | read =>
      cases r with
      | data chunk =>
        exact .inl ⟨.inl rfl, rfl, fun _ h => h, by simp [perform, handleRead, Effect.isMilestone]⟩
      | eof => exact .inr ⟨.inl rfl, rfl⟩
      | failed => exact .inl (steady_self (by simp))
  | connectEstablished | connectDestroyed | removeConnectionInLoop | connectionCallback
  | closeCallback | remove => cases hi

end TCPConnection

namespace TCPServer

variable {L : Type} [DecidableEq L]

/-- What the loop `l` still has to do for the connection `c`. -/
def items (s : TCPServer L) (l : L) (c : Nat) : List Item :=
  ((s.loops l).todo ++ (s.loops l).core.waiting).filter (·.conn = c)

def tokens (s : TCPServer L) (l : L) (c : Nat) : List Item := (s.items l c).filter Item.isToken

/-- How many handlers that may close are to run, or events that may call one are unhandled. -/
def readers (s : TCPServer L) (l : L) (c : Nat) : Nat :=
  (s.items l c).countP Item.isReader + (s.loops l).active.countP (·.1 = c)

/-- Code that runs for the application may still touch the connection. -/
def Out (s : TCPServer L) (c : Nat) : Prop :=
  s.known c = true ∨ c ∈ s.delayed ∨ ∃ i ∈ s.posting, i.conn = c

/-- The server as the connection `c` sees it in the stage `st`. -/
structure At (cfg : ServerConfig L) (s : TCPServer L) (c : Nat) (st : Stage) : Prop where
  fresh : st = .absent ↔ ¬(1 ≤ c ∧ c < s.nextConnId)
  state : st.Admits (s.conns c).state
  reading : st.watched = true → (s.conns c).channel.isReading = true
  silent : st.watched = false → (s.conns c).channel.isNoneEvent = true
  entry : s.connections (connName cfg c) = if st.listed then some c else none
  tokens : ∀ l, s.tokens l c = if l = st.place cfg.loop (s.owner c) then st.tokens c else []
  out : s.Out c → st.isOut = true
  others : ∀ l, ∀ i ∈ s.items l c, i.isToken = false → st.isOut = true ∧ l = s.owner c
  readers : ∀ l, s.readers l c ≤ if st = .up ∧ l = s.owner c then 1 else 0

/-- What holds of a loop whatever the connections do. -/
structure LoopOk (loop : ServerLoop) : Prop where
  settled : loop.core.Settled
  idle : loop.core.phase = .poll ∨ loop.core.phase = .calling → loop.todo = []
  handled : loop.core.phase ≠ .dispatch → loop.active = []
  functors : ∀ i ∈ loop.core.waiting, i.isFunctor = true
  running : loop.core.phase = .running → ∀ i ∈ loop.todo, i.isReader = false
  forced : ∀ c, .forceCloseInLoop c ∈ loop.todo → loop.core.phase = .running
  sane : ∀ p ∈ loop.active, Sane p.2

end TCPServer

end Lute
