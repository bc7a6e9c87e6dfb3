import Lute.Polaris.LifeCycle

/-! The destructor of a server on the acceptor's thread, against the loops that go on. -/
namespace Lute

/-- `dtor` are the connections the destructor has still to visit, once it has begun; `doomed` those
it found; `inline` is what it does itself for a connection of the acceptor's loop. For every loop:
whether it is past `while (!quit_)` in this iteration, its `quit_`, whether `loop()` has returned,
and the connections whose channels are in `activeChannels_` and in `currentActiveChannel_`. -/
structure Teardown (L : Type) where
  server : TCPServer L
  dtor : Option (List Nat)
  doomed : List Nat
  inline : List Item
  tested : L → Bool
  quit : L → Bool
  exited : L → Bool
  activeChannels : L → List Nat
  currentActiveChannel : L → Option Nat

/-- `connectDestroyed` is called. -/
def LifeEvent.isDestroyed : LifeEvent → Bool
  | .destroyed _ => true
  | _ => false

namespace Teardown

open TCPServer (connName)

variable {L : Type} [DecidableEq L]

/-- `r` is what a read returned; `other` handles the event of a channel that is no connection's,
such as that of the timers. -/
inductive Label (L : Type)
  | server (a : TCPServer.Label L)
  | poll (l : L) (active : List (Nat × BitVec 32))
  | exec (l : L) (i : Item) (state : StateE) (r : ReadResult)
  | other (l : L)
  | test (l : L)
  | destruct (cs : List Nat)
  | destroyNext (c : Nat)
  | inline (i : Item) (state : StateE)
  | quit (l : L)
  | exit (l : L)

/-- The thread of the loop `l` is neither in the destructor nor past its loop. -/
def Free (cfg : ServerConfig L) (s : Teardown L) (l : L) : Prop :=
  s.exited l = false ∧ (l = cfg.loop → s.inline = [] ∧ ∀ c cs, s.dtor ≠ some (c :: cs))

/-- The steps of the server that have no label of their own here; with the server goes its
acceptor. -/
def May (cfg : ServerConfig L) (s : Teardown L) : TCPServer.Label L → Prop
  | .poll _ _ | .exec _ _ _ => False
  | .handleEvent l _ _ | .move l _ => s.Free cfg l
  | .newConnection _ _ => s.dtor = none
  | .app _ _ | .post _ | .timer _ => True

/-- `currentActiveChannel_` after a step of the server. The channels of the acceptor and of the
wakeup descriptor are no connection's. -/
def current (cfg : ServerConfig L) (s : Teardown L) : TCPServer.Label L → L → Option Nat
  | .handleEvent l c _ => Function.update s.currentActiveChannel l (some c)
  | .newConnection _ _ => Function.update s.currentActiveChannel cfg.loop none
  | .move l .handleRead | .move l .beginPending => Function.update s.currentActiveChannel l none
  | _ => s.currentActiveChannel

/-- User code may call the destructor: no connection of this thread is on its way up. -/
def Callable (todo : List Item) : Prop :=
  ∀ c, .connectEstablished c ∉ todo ∧ .connectionCallback c ∉ todo

/-- `runInLoop` of `connectDestroyed`. -/
def destroy (cfg : ServerConfig L) (s : Teardown L) (c : Nat) : Teardown L :=
  if s.server.owner c = cfg.loop then { s with inline := [.connectDestroyed c] }
  else { s with server := s.server.push false (s.server.owner c) [.connectDestroyed c] }

/-- What `removeChannel` asserts, with `eventHandling_` set. -/
def MayRemove (s : Teardown L) (c : Nat) : Prop :=
  (s.server.loops (s.server.owner c)).core.phase = .dispatch →
    s.currentActiveChannel (s.server.owner c) = some c ∨
      c ∉ s.activeChannels (s.server.owner c)

/-- The destructor's thread calls the member function of `i`, which queues nothing. The assertions
behind `channel_->remove()` are left to what is proved of its steps. -/
def runInline (s : Teardown L) (i : Item) (rest : List Item) (r : ReadResult) (w : WriteResult) :
    Teardown L :=
  let p := (s.server.conns i.conn).perform r w i
  { s with
    server := { s.server.setConn i.conn p.1 with
      known := if i = .connectionCallback i.conn then Function.update s.server.known i.conn true
        else s.server.known }
    inline := p.2.filterMap (Item.next i.conn) ++ rest }

inductive Step (cfg : ServerConfig L) : Teardown L → Label L → Teardown L → Prop
  | server {s : Teardown L} {a : TCPServer.Label L} {t : TCPServer L}
      (hs : TCPServer.Step cfg s.server a t) (hm : s.May cfg a) :
      Step cfg s (.server a) { s with server := t, currentActiveChannel := s.current cfg a }
  | poll {s : Teardown L} {l : L} {active : List (Nat × BitVec 32)} {t : TCPServer L}
      (hs : TCPServer.Step cfg s.server (.poll l active) t) (hf : s.Free cfg l)
      (ht : s.tested l = true) :
      Step cfg s (.poll l active)
        { s with
          server := t
          tested := Function.update s.tested l false
          activeChannels := Function.update s.activeChannels l (active.map Prod.fst) }
  | exec {s : Teardown L} {l : L} {i : Item} {rest : List Item} {r : ReadResult} {w : WriteResult}
      (htodo : (s.server.loops l).todo = i :: rest) (hf : s.Free cfg l) :
      Step cfg s (.exec l i (s.server.conns i.conn).state r)
        { s with server := s.server.exec cfg l i rest r w }
  | other {s : Teardown L} {l : L} (htodo : (s.server.loops l).todo = [])
      (hph : (s.server.loops l).core.phase = .dispatch) (hf : s.Free cfg l) :
      Step cfg s (.other l)
        { s with currentActiveChannel := Function.update s.currentActiveChannel l none }
  | test {s : Teardown L} {l : L} (hph : (s.server.loops l).core.phase = .poll)
      (hf : s.Free cfg l) (hq : s.quit l = false) :
      Step cfg s (.test l) { s with tested := Function.update s.tested l true }
  | destruct {s : Teardown L} {cs : List Nat} (hd : s.dtor = none)
      (htodo : Callable (s.server.loops cfg.loop).todo) (hnd : cs.Nodup)
      (hcs : ∀ c, c ∈ cs ↔ s.server.connections (connName cfg c) = some c) :
      Step cfg s (.destruct cs) { s with dtor := some cs, doomed := cs }
  | destroyNext {s : Teardown L} {c : Nat} {cs : List Nat} (hd : s.dtor = some (c :: cs))
      (hi : s.inline = []) :
      Step cfg s (.destroyNext c) ({ s with dtor := some cs }.destroy cfg c)
  | inline {s : Teardown L} {i : Item} {rest : List Item} {r : ReadResult} {w : WriteResult}
      (hi : s.inline = i :: rest) :
      Step cfg s (.inline i (s.server.conns i.conn).state) (s.runInline i rest r w)
  | quit {s : Teardown L} {l : L} (hl : l ≠ cfg.loop) (hd : s.dtor = some []) (hi : s.inline = []) :
      Step cfg s (.quit l) { s with quit := Function.update s.quit l true }
  | exit {s : Teardown L} {l : L} (hph : (s.server.loops l).core.phase = .poll)
      (ht : s.tested l = false) (hq : s.quit l = true) :
      Step cfg s (.exit l) { s with exited := Function.update s.exited l true }

structure Initial (s : Teardown L) : Prop where
  server : s.server.Initial
  dtor : s.dtor = none
  doomed : s.doomed = []
  inline : s.inline = []
  tested : ∀ l, s.tested l = false
  quit : ∀ l, s.quit l = false
  exited : ∀ l, s.exited l = false
  activeChannels : ∀ l, s.activeChannels l = []
  currentActiveChannel : ∀ l, s.currentActiveChannel l = none

def system (cfg : ServerConfig L) : Trace.LTS (Teardown L) (Label L) where
  init := Initial
  step := Step cfg

def lifeEvent (c : Nat) : Label L → Option LifeEvent
  | .server a => TCPServer.lifeEvent c a
  | .exec _ i state _ | .inline i state => if i.conn = c then i.lifeEvent state else none
  | _ => none

/-- The history of the connection `c`. -/
def events (c : Nat) (h : List (Label L)) : List LifeEvent := h.filterMap (lifeEvent c)

/-- The item that a step runs. -/
def Label.item : Label L → Option Item
  | .exec _ i _ _ | .inline i _ => some i
  | _ => none

/-- The destructor has still to come to `c`. -/
def Left (s : Teardown L) (c : Nat) : Prop := ∃ cs, s.dtor = some cs ∧ c ∈ cs

/-- `connectDestroyed` is still to be called for `c`. -/
def Waits (s : Teardown L) (c : Nat) : Prop :=
  s.Left c ∨ .connectDestroyed c ∈ s.inline ∨
    .connectDestroyed c ∈ s.server.items (s.server.owner c) c

/-- The thread of `c` has done all that the destructor asked of it, or all it will ever do. -/
def Done (cfg : ServerConfig L) (s : Teardown L) (c : Nat) : Prop :=
  s.exited (s.server.owner c) = true ∨
    s.server.owner c = cfg.loop ∧ s.dtor = some [] ∧ s.inline = []

/-- The end of a connection that the destructor found, after the history `h`. -/
structure Torn (cfg : ServerConfig L) (h : List (Label L)) (s : Teardown L) (c : Nat) : Prop where
  once : (events c h).countP LifeEvent.isDestroyed ≤ 1
  waits : (events c h).countP LifeEvent.isDestroyed = 0 → s.Waits c
  done : s.Done cfg c → (events c h).countP LifeEvent.isDestroyed = 1 ∧ .channelRemoved ∈ events c h
  silent : ∀ a t, Step cfg s a t → a.item = some (.remove c) →
    (s.server.conns c).channel.isNoneEvent = true
  removable : ∀ a t, Step cfg s a t → a.item = some (.remove c) → s.MayRemove c
  down : .channelRemoved ∈ events c h → (s.server.conns c).state = .kDisconnected ∧
    (.callback .kConnected ∈ events c h → (events c h).count (.callback .kDisconnected) = 1)

/-- What the destructor promises, from its beginning on. -/
structure Clean (cfg : ServerConfig L) (h : List (Label L)) (s : Teardown L) : Prop where
  torn : ∀ c ∈ s.doomed, Torn cfg h s c
  unbound : ∀ a t d, Step cfg s a t → a.item ≠ some (.removeConnectionInLoop d)

/-- The calls that begin the end of a connection in this state. -/
def Ends (state : StateE) : AppCall → Prop
  | .send _ _ _ => False
  | .shutdown _ => state = .kConnected
  | .forceClose _ | .forceCloseWithDelay _ => state = .kConnected ∨ state = .kDisconnecting

/-- The items that close a connection in this state. -/
def Closes (state : StateE) (r : ReadResult) : Item → Prop
  | .forceCloseInLoop _ => state = .kConnected ∨ state = .kDisconnecting
  | .handler _ .close => True
  | .handler _ .read => r = .eof
  | _ => False

/-- The loop has yet to take its functor queue in this iteration. -/
def Ahead (s : Teardown L) (l : L) : Prop :=
  (s.server.loops l).core.phase = .dispatch ∨ (s.server.loops l).core.phase = .calling ∨
    (s.server.loops l).core.phase = .poll ∧ s.tested l = true

/-- The destructor finds no connection that is being shut down or closed, and from then on none of
its connections is. If it runs while the acceptor's loop handles the event of a channel, no other
channel of the server's is in `activeChannels_` there. `quit()` reaches a loop before it takes the
functors of the destructor, or after it has run them. -/
def Calm (cfg : ServerConfig L) (s : Teardown L) : Label L → Prop
  | .destruct cs => ∀ c ∈ cs, ((s.server.conns c).state = .kConnecting ∨
      (s.server.conns c).state = .kConnected) ∧ (s.server.owner c = cfg.loop → s.MayRemove c)
  | .server (.app c call) => c ∈ s.doomed → ¬ Ends (s.server.conns c).state call
  | .server (.timer c) => c ∈ s.doomed → ¬ Ends (s.server.conns c).state (.forceClose true)
  | .exec _ i state r => i.conn ∈ s.doomed → ¬ Closes state r i
  | .quit l => (∃ c ∈ s.doomed, .connectDestroyed c ∈ (s.server.loops l).core.pendingFunctors) →
      s.Ahead l
  | _ => True

end Teardown

end Lute
