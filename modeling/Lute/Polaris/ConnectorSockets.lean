import Lute.Polaris.ConnectorAttempts

/-! The sockets of a connector: each is being connected, handed over once or closed once. -/
namespace Lute

open Connector (Functor Effect queued armed)

namespace Connector

variable {c : Connector} {es es' : List Effect} {ch : ConnectorChannel}
  {r : Connector × List Effect}

/-- The socket of the channel while it is connecting. -/
def owned (c : Connector) : List Nat :=
  if c.state = .kConnecting then (c.channel.map ConnectorChannel.fd).toList else []

def closes (es : List Effect) : List Nat :=
  es.filterMap fun
    | .close sockfd => some sockfd
    | _ => none

def handedOver (es : List Effect) : List Nat :=
  es.filterMap fun
    | .newConnectionCallback sockfd => some sockfd
    | _ => none

/-- The calls of `handleWrite` in `handleAll` meet its assertion: the state they find is
`kConnecting`, or else `kDisconnected`. -/
def WritesAsserted (c : Connector) (err : Nat) (isSelfConnect : Bool) : List Handler → Prop
  | [] => True
  | k :: ks => (k = .write → c.state = .kConnecting ∨ c.state = .kDisconnected) ∧
      (c.handle err isSelfConnect k).1.WritesAsserted err isSelfConnect ks

theorem owned_of_ne (hst : c.state ≠ .kConnecting) : c.owned = [] := if_neg hst

/-- A member function that no socket passes through. -/
structure Rests (c : Connector) (r : Connector × List Effect) : Prop where
  state : r.1.state = c.state
  owned : r.1.owned = c.owned
  closes : closes r.2 = []
  handedOver : handedOver r.2 = []
  queued : queued r.2 = []
  armed : armed r.2 = 0

/-- An attempt with a new socket, from `kDisconnected`. -/
structure Attempts (sockfd : Nat) (r : Connector × List Effect) : Prop where
  queued : queued r.2 = []
  handedOver : handedOver r.2 = []
  socket : r.1.state = .kConnecting ∧ r.1.owned = [sockfd] ∧ closes r.2 = [] ∧ armed r.2 = 0 ∨
    r.1.state = .kDisconnected ∧ closes r.2 = [sockfd]

/-- The end of an attempt. -/
structure Exits (sockfd : Nat) (r : Connector × List Effect) : Prop where
  queued : queued r.2 = [.resetChannel]
  state : r.1.state ≠ .kConnecting
  socket : closes r.2 = [sockfd] ∧ handedOver r.2 = [] ∨
    closes r.2 = [] ∧ handedOver r.2 = [sockfd] ∧ r.1.state = .kConnected

theorem closes_append : closes (es ++ es') = closes es ++ closes es' := by
  simp [closes]

theorem handedOver_append : handedOver (es ++ es') = handedOver es ++ handedOver es' := by
  simp [handedOver]

theorem rests_idle (c : Connector) : Rests c (c, []) :=
  ⟨rfl, rfl, rfl, rfl, rfl, rfl⟩

theorem retry_effects (c : Connector) (sockfd : Nat) :
    (c.retry sockfd).1.state = .kDisconnected ∧ queued (c.retry sockfd).2 = [] ∧
      closes (c.retry sockfd).2 = [sockfd] ∧ handedOver (c.retry sockfd).2 = [] := by
  unfold retry
  dsimp only
  split_ifs <;> exact ⟨rfl, rfl, rfl, rfl⟩

theorem connect_attempts (a : Attempt) (hst : c.state = .kDisconnected) :
    Attempts a.sockfd (c.connect a) := by
  rcases c.connect_cases a with heq | heq | heq
  · rw [heq]
    exact ⟨rfl, rfl, .inl ⟨rfl, rfl, rfl, rfl⟩⟩
  · obtain ⟨hd, hq, hc, hh⟩ := c.retry_effects a.sockfd
    rw [heq]
    exact ⟨hq, hh, .inr ⟨hd, hc⟩⟩
  · rw [heq]
    exact ⟨rfl, rfl, .inr ⟨hst, rfl⟩⟩

theorem startInLoop_attempts (a : Attempt) (hst : c.state = .kDisconnected)
    (hc : c.connect_ = true) : Attempts a.sockfd (c.startInLoop a) := by
  obtain ⟨hq, hh, hsock⟩ := connect_attempts a hst
  simp only [startInLoop, hc, if_true]
  exact ⟨hq, hh, hsock⟩

theorem startInLoop_rests (a : Attempt) (hc : c.connect_ = false) :
    Rests c (c.startInLoop a) := by
  simp only [startInLoop, hc]
  exact ⟨rfl, rfl, rfl, rfl, rfl, rfl⟩

theorem release_exits {follow : Connector → Nat → Connector × List Effect}
    (hch : c.channel = some ch)
    (hf : ∀ c' fd, (follow c' fd).1.state ≠ .kConnecting ∧ queued (follow c' fd).2 = [] ∧
      (closes (follow c' fd).2 = [fd] ∧ handedOver (follow c' fd).2 = [] ∨
        closes (follow c' fd).2 = [] ∧ handedOver (follow c' fd).2 = [fd] ∧
          (follow c' fd).1.state = .kConnected)) : Exits ch.fd (c.release follow) := by
  obtain ⟨hst, hq, hsock⟩ := hf { c with channel := some ch.disableAll.remove } ch.fd
  simp only [release, removeAndResetChannel, hch]
  refine ⟨?_, hst, ?_⟩
  · rw [queued_append, hq]
    rfl
  · rw [closes_append, handedOver_append]
    exact hsock

theorem retry_exits (hch : c.channel = some ch) : Exits ch.fd (c.release retry) := by
  refine release_exits hch fun c' fd => ?_
  obtain ⟨hd, hq, hc, hh⟩ := c'.retry_effects fd
  exact ⟨by simp [hd], hq, .inl ⟨hc, hh⟩⟩

theorem stopInLoop_exits (hst : c.state = .kConnecting) (hch : c.channel = some ch) :
    Exits ch.fd c.stopInLoop := by
  rw [stopInLoop, if_pos hst]
  exact retry_exits hch

theorem handleError_exits (hst : c.state = .kConnecting) (hch : c.channel = some ch) :
    Exits ch.fd c.handleError := by
  rw [handleError, if_pos hst]
  exact retry_exits hch

theorem handleWrite_exits {err : Nat} {isSelfConnect : Bool} (hst : c.state = .kConnecting)
    (hch : c.channel = some ch) : Exits ch.fd (c.handleWrite err isSelfConnect) := by
  rw [handleWrite, if_pos hst]
  refine release_exits hch fun c' fd => ?_
  obtain ⟨hd, hq, hc, hh⟩ := c'.retry_effects fd
  split_ifs
  · exact ⟨by simp [hd], hq, .inl ⟨hc, hh⟩⟩
  · exact ⟨by simp [hd], hq, .inl ⟨hc, hh⟩⟩
  · dsimp only
    split_ifs
    · exact ⟨by simp [setState], rfl, .inr ⟨rfl, rfl, rfl⟩⟩
    · exact ⟨by simp [setState], rfl, .inl ⟨rfl, rfl⟩⟩

theorem handle_idle {err : Nat} {isSelfConnect : Bool} (k : Handler)
    (hst : c.state ≠ .kConnecting) : c.handle err isSelfConnect k = (c, []) := by
  cases k with
  | error => exact if_neg hst
  | write => exact if_neg hst
  | close | read => rfl

theorem handleAll_idle {err : Nat} {isSelfConnect : Bool} (ks : List Handler)
    (hst : c.state ≠ .kConnecting) : c.handleAll err isSelfConnect ks = (c, []) := by
  induction ks with
  | nil => rfl
  | cons k ks ih => simp only [handleAll, handle_idle k hst, ih, List.append_nil]

/-- The first error or write event ends the attempt, and the others find it ended. -/
theorem handleAll_exits {err : Nat} {isSelfConnect : Bool} (ks : List Handler)
    (hst : c.state = .kConnecting) (hch : c.channel = some ch) :
    c.handleAll err isSelfConnect ks = (c, []) ∨
      Exits ch.fd (c.handleAll err isSelfConnect ks) := by
  induction ks with
  | nil => exact .inl rfl
  | cons k ks ih =>
    have hend : Exits ch.fd (c.handle err isSelfConnect k) →
        Exits ch.fd (c.handleAll err isSelfConnect (k :: ks)) := by
      intro hex
      simp only [handleAll, handleAll_idle ks hex.state, List.append_nil]
      exact hex
    cases k with
    | error => exact .inr (hend (handleError_exits hst hch))
    | write => exact .inr (hend (handleWrite_exits hst hch))
    | close | read => simpa only [handleAll, handle, List.nil_append] using ih

theorem writesAsserted_of_disconnected {err : Nat} {isSelfConnect : Bool} (ks : List Handler)
    (hst : c.state = .kDisconnected) : c.WritesAsserted err isSelfConnect ks := by
  induction ks with
  | nil => trivial
  | cons k ks ih =>
    refine ⟨fun _ => .inr hst, ?_⟩
    rw [handle_idle k (by simp [hst])]
    exact ih

theorem state_handleError (hst : c.state = .kConnecting) (hch : c.channel = some ch) :
    c.handleError.1.state = .kDisconnected := by
  rw [handleError, if_pos hst]
  simp only [release, removeAndResetChannel, hch]
  exact (retry_effects _ ch.fd).1

/-- What comes before the write event does not connect. -/
theorem writesAsserted_append {err : Nat} {isSelfConnect : Bool} {ks ws : List Handler}
    (hst : c.state = .kConnecting) (hch : c.channel = some ch) (hks : .write ∉ ks)
    (hws : ws = [] ∨ ws = [.write]) : c.WritesAsserted err isSelfConnect (ks ++ ws) := by
  induction ks with
  | nil =>
    rcases hws with rfl | rfl
    · trivial
    · exact ⟨fun _ => .inl hst, trivial⟩
  | cons k ks ih =>
    rw [List.mem_cons, not_or] at hks
    refine ⟨fun h => absurd h.symm hks.1, ?_⟩
    cases k with
    | error => exact writesAsserted_of_disconnected _ (state_handleError hst hch)
    | write => exact absurd rfl hks.1
    | close | read => exact ih hks.2

theorem writesAsserted_handleEvent {err : Nat} {isSelfConnect : Bool} (revents : BitVec 32)
    (hst : c.state = .kConnecting) (hch : c.channel = some ch) :
    c.WritesAsserted err isSelfConnect (Channel.handleEventWithGuard revents) := by
  refine writesAsserted_append hst hch ?_ ?_
  · simp only [List.mem_append, not_or]
    refine ⟨⟨?_, ?_⟩, ?_⟩ <;> split_ifs <;> simp
  · split_ifs
    · exact .inr rfl
    · exact .inl rfl

end Connector

/-- A connector with what the loop and its owner keep for it. For each retry timer `due`, and for
each connection handed over and still open `handed`, tell how many of the functors queued at that
time have still to run; `closed` counts the connections that have closed without a `restart` since.
A socket is named by the number of its attempt, which is given once. -/
structure ConnectorLife (T : Type) where
  sys : ConnectorSystem T
  started : Bool
  due : List Nat
  handed : List Nat
  closed : Nat
  created : List Nat

namespace ConnectorLife

open ConnectorSystem (Orderly)
open Connector (closes handedOver WritesAsserted)

variable {T : Type}

/-- The steps that run a functor. -/
def pops : ConnectorSystem.Label T → Bool
  | .move (.run _) | .runStart _ | .runStop | .runReset => true
  | _ => false

def countdown (l : ConnectorSystem.Label T) (ks : List Nat) : List Nat :=
  if pops l then ks.map Nat.pred else ks

/-- The sockets a step creates. -/
def attempted (c : Connector) : ConnectorSystem.Label T → List Nat
  | .startHere a | .runStart a | .fire a => if c.connect_ then [a.sockfd] else []
  | .restart a => [a.sockfd]
  | _ => []

def isStart : ConnectorSystem.Label T → Bool
  | .startCall _ => true
  | _ => false

def isFire : ConnectorSystem.Label T → Bool
  | .fire _ => true
  | _ => false

def isRestart : ConnectorSystem.Label T → Bool
  | .restart _ => true
  | _ => false

/-- `start` is called once, `restart` once for a connection that has closed; a retry timer fires
when the functors queued before it have run. -/
def Allowed (s : ConnectorLife T) : ConnectorSystem.Label T → Prop
  | .startCall _ => s.started = false
  | .fire _ => 0 ∈ s.due
  | .restart _ => 0 < s.closed
  | _ => True

instance (s : ConnectorLife T) : (l : ConnectorSystem.Label T) → Decidable (s.Allowed l)
  | .startCall _ => inferInstanceAs (Decidable (s.started = false))
  | .fire _ => inferInstanceAs (Decidable (0 ∈ s.due))
  | .restart _ => inferInstanceAs (Decidable (0 < s.closed))
  | .move _ | .startHere _ | .startQueue _ | .stopCall _ | .stopQueue _ | .runStart _ | .runStop
  | .runReset | .handleEvent _ _ _ => inferInstanceAs (Decidable True)

/-- The state after a step of the connector with the effects `es`. -/
def after (s : ConnectorLife T) (l : ConnectorSystem.Label T) (t : ConnectorSystem T)
    (es : List Effect) : ConnectorLife T where
  sys := t
  started := s.started || isStart l
  due := countdown l (if isFire l then s.due.erase 0 else s.due) ++
    List.replicate (armed es) t.loop.waiting.length
  handed := countdown l s.handed ++ List.replicate (handedOver es).length t.loop.waiting.length
  closed := if isRestart l then s.closed - 1 else s.closed
  created := attempted s.sys.connector l ++ s.created

inductive Label (T : Type)
  | connector (l : ConnectorSystem.Label T)
  | close

section
variable [DecidableEq T]

/-- A connection that was handed over closes after the functors queued before it have run: its
events are polled after them, and its own functors come behind them. -/
inductive Step : ConnectorLife T → Label T → ConnectorLife T → Prop
  | connector {s : ConnectorLife T} {l : ConnectorSystem.Label T} {t : ConnectorSystem T}
      {es : List Effect} (hs : s.sys.exec l = some t) (hes : t.log = s.sys.log ++ es)
      (hl : s.Allowed l) (hnew : ∀ id ∈ attempted s.sys.connector l, id ∉ s.created) :
      Step s (.connector l) (s.after l t es)
  | close {s : ConnectorLife T} (hc : 0 ∈ s.handed) :
      Step s .close { s with handed := s.handed.erase 0, closed := s.closed + 1 }

def system (T : Type) [DecidableEq T] : Trace.LTS (ConnectorLife T) (Label T) where
  init s := ∃ sys : ConnectorSystem T, sys.Initial ∧ s = ⟨sys, false, [], [], 0, []⟩
  step := Step

/-- Every socket is in one place, once; no other number is closed or handed over; and the
assertions of `startInLoop`, `connecting` and `handleWrite` hold. -/
structure Linear (s : ConnectorLife T) : Prop where
  once : ∀ id, s.sys.connector.owned.count id + (closes s.sys.log).count id +
    (handedOver s.sys.log).count id = if id ∈ s.created then 1 else 0
  sound : ∀ e ∈ s.sys.log, e.Sound
  writes : ∀ revents err isSelfConnect t,
    s.sys.exec (.handleEvent revents err isSelfConnect) = some t →
    s.sys.connector.WritesAsserted err isSelfConnect (Channel.handleEventWithGuard revents)

end

section
variable {s t u : ConnectorSystem T} {l : ConnectorSystem.Label T} {es : List Effect}
  {r : Connector × List Effect}

/-- What becomes of the sockets in a step. -/
inductive Sockets (s : ConnectorSystem T) (l : ConnectorSystem.Label T)
    (r : Connector × List Effect) : Prop
  | rests (ha : attempted s.connector l = []) (hr : s.connector.Rests r)
  | attempts (id : Nat) (ha : attempted s.connector l = [id])
      (hst : s.connector.state ≠ .kConnecting) (hr : Connector.Attempts id r)
      (hl : isRestart l = true ∨ s.connector.state = .kDisconnected ∧
        (.startInLoop ∈ s.loop.waiting ∨ 0 < s.timers ∨ ∃ a, l = .startHere a))
  | exits (id : Nat) (ha : attempted s.connector l = []) (hst : s.connector.state = .kConnecting)
      (ho : s.connector.owned = [id]) (hr : Connector.Exits id r)

/-- What a step of the connector does to the queue, the timers and the sockets. -/
structure Passes (s t : ConnectorSystem T) (l : ConnectorSystem.Label T) (es : List Effect) :
    Prop where
  waiting : ∃ w new, (if pops l then ∃ f, s.loop.waiting = f :: w else s.loop.waiting = w) ∧
    t.loop.waiting = w ++ new ∧ (.resetChannel ∈ new → s.connector.state = .kConnecting) ∧
    (.startInLoop ∈ new → ∃ th, l = .startQueue th)
  timers : t.timers = (if isFire l then s.timers - 1 else s.timers) + armed es
  sockets : Sockets s l (t.connector, es)

theorem Sockets.queued (h : Sockets s l r) :
    queued r.2 = [] ∨ s.connector.state = .kConnecting ∧ queued r.2 = [.resetChannel] := by
  cases h with
  | rests _ hr => exact .inl hr.queued
  | attempts _ _ _ hr => exact .inl hr.queued
  | exits _ _ hst _ hr => exact .inr ⟨hst, hr.queued⟩

/-- A step that ends in a member function run in the loop thread. -/
theorem passes_did {w : List Functor} (hes : (u.did r).log = s.log ++ es)
    (hlog : u.log = s.log)
    (hw : if pops l then ∃ f, s.loop.waiting = f :: w else s.loop.waiting = w)
    (hu : u.loop.waiting = w) (ht : u.timers = if isFire l then s.timers - 1 else s.timers)
    (hsock : Sockets s l r) : Passes s (u.did r) l es := by
  obtain rfl : r.2 = es := by
    simpa [ConnectorSystem.did, hlog] using hes
  refine ⟨⟨w, queued r.2, hw, ?_, ?_, ?_⟩, ?_, hsock⟩
  · rw [← hu]
    exact EventLoop.waiting_foldl_queueInLoop true _
  · rcases hsock.queued with hq | ⟨hst, -⟩
    · simp [hq]
    · exact fun _ => hst
  · rcases hsock.queued with hq | ⟨-, hq⟩ <;> simp [hq]
  · rw [← ht]
    rfl

/-- A step in which no member function runs. -/
theorem passes_idle (w new : List Functor) (hes : t.log = s.log ++ es)
    (hlog : t.log = s.log)
    (hw : if pops l then ∃ f, s.loop.waiting = f :: w else s.loop.waiting = w)
    (hnew : t.loop.waiting = w ++ new) (hr : .resetChannel ∉ new)
    (hs : .startInLoop ∈ new → ∃ th, l = .startQueue th) (hf : isFire l = false)
    (ht : t.timers = s.timers) (ha : attempted s.connector l = [])
    (hst : t.connector.state = s.connector.state) (ho : t.connector.owned = s.connector.owned) :
    Passes s t l es := by
  obtain rfl : es = [] := by simpa [hlog] using hes
  refine ⟨⟨w, new, hw, hnew, fun h => absurd h hr, hs⟩, by simp [hf, ht, armed], ?_⟩
  exact .rests ha ⟨hst, ho, rfl, rfl, rfl, rfl⟩

theorem sockets_startInLoop {a : Attempt}
    (hl : attempted s.connector l = if s.connector.connect_ then [a.sockfd] else [])
    (hst : s.connector.state = .kDisconnected)
    (hwhy : .startInLoop ∈ s.loop.waiting ∨ 0 < s.timers ∨ ∃ a, l = .startHere a) :
    Sockets s l (s.connector.startInLoop a) := by
  cases hc : s.connector.connect_ with
  | false =>
    rw [hc] at hl
    exact .rests hl (Connector.startInLoop_rests a hc)
  | true =>
    rw [hc] at hl
    exact .attempts a.sockfd hl (by simp [hst]) (Connector.startInLoop_attempts a hst hc)
      (.inr ⟨hst, hwhy⟩)

/-- A functor of the connector that is run. -/
theorem passes_runFunctor {f : Functor} (hi : s.Inv) (hs : s.runFunctor f r = some t)
    (hes : t.log = s.log ++ es) (hl : pops l = true) (hf : isFire l = false)
    (hsock : f ∈ s.loop.waiting → Sockets s l r) : Passes s t l es := by
  obtain ⟨loop, -, hw, rfl⟩ := ConnectorSystem.runFunctor_cases hs hi
  refine passes_did hes rfl ?_ rfl ?_ (hsock (by simp [hw]))
  · simp [hl, hw]
  · simp [hf]

theorem sockets_stopInLoop (hi : s.Inv) (ha : attempted s.connector l = []) :
    Sockets s l s.connector.stopInLoop := by
  by_cases hst : s.connector.state = .kConnecting
  · obtain ⟨-, -, -, ch, hch⟩ := hi.steady.attempt hst
    exact .exits ch.fd ha hst (by simp [Connector.owned, hst, hch])
      (Connector.stopInLoop_exits hst hch)
  · rw [Connector.stopInLoop, if_neg hst]
    exact .rests ha s.connector.rests_idle

theorem sockets_handleEvent {revents : BitVec 32} {err : Nat} {isSelfConnect : Bool} (hi : s.Inv)
    (ha : attempted s.connector l = []) :
    Sockets s l (s.connector.handleEvent revents err isSelfConnect) := by
  unfold Connector.handleEvent
  by_cases hst : s.connector.state = .kConnecting
  · obtain ⟨-, -, -, ch, hch⟩ := hi.steady.attempt hst
    rcases Connector.handleAll_exits (Channel.handleEventWithGuard revents) hst hch with heq | hex
    · rw [heq]
      exact .rests ha s.connector.rests_idle
    · exact .exits ch.fd ha hst (by simp [Connector.owned, hst, hch]) hex
  · rw [Connector.handleAll_idle _ hst]
    exact .rests ha s.connector.rests_idle

/-- The channel that is destroyed belongs to no attempt. -/
theorem sockets_resetChannel (hi : s.Inv) (ha : attempted s.connector l = [])
    (hm : .resetChannel ∈ s.loop.waiting) : Sockets s l s.connector.resetChannel := by
  have hst : s.connector.state ≠ .kConnecting := by
    intro hst
    obtain ⟨-, -, hr, -⟩ := hi.steady.attempt hst
    exact hr hm
  have howned : s.connector.resetChannel.1.owned = s.connector.owned := by
    rw [Connector.owned_of_ne hst]
    exact Connector.owned_of_ne hst
  exact .rests ha ⟨rfl, howned, rfl, rfl, rfl, rfl⟩

end

variable {s t : ConnectorLife T} {l : ConnectorSystem.Label T} {es : List Effect}

/-- `start` has not come to its `runInLoop` yet. -/
structure Pristine (s : ConnectorSystem T) : Prop where
  state : s.connector.state = .kDisconnected
  timers : s.timers = 0
  starts : .startInLoop ∉ s.loop.waiting
  resets : .resetChannel ∉ s.loop.waiting

/-- None of the functors beyond the first `k` resets the channel. -/
def Beyond (w : List Functor) (ks : List Nat) : Prop := ∀ k ∈ ks, .resetChannel ∉ w.drop k

structure Inv (s : ConnectorLife T) : Prop where
  sys : s.sys.Inv
  timers : s.due.length = s.sys.timers
  due : Beyond s.sys.loop.waiting s.due
  handed : Beyond s.sys.loop.waiting s.handed
  closed : 0 < s.closed → .resetChannel ∉ s.sys.loop.waiting
  one : s.handed.length + s.closed ≤ 1
  connected : 0 < s.handed.length + s.closed → s.sys.connector.state = .kConnected
  alone : ∀ th th', s.sys.pc th = .starting → s.sys.pc th' = .starting → th = th'
  unstarted : s.started = false → ∀ th, s.sys.pc th ≠ .starting
  pristine : (s.started = false ∨ ∃ th, s.sys.pc th = .starting) → Pristine s.sys
  nodup : s.created.Nodup
  once : ∀ id, s.sys.connector.owned.count id + (closes s.sys.log).count id +
    (handedOver s.sys.log).count id = s.created.count id

theorem beyond_pop {f : Functor} {w : List Functor} {ks : List Nat} (h : Beyond (f :: w) ks) :
    Beyond w (ks.map Nat.pred) := by
  intro k hk
  obtain ⟨n, hn, rfl⟩ := List.mem_map.mp hk
  have hm := h n hn
  cases n with
  | zero => exact fun hw => hm (List.mem_cons_of_mem f hw)
  | succ n => exact hm

theorem beyond_append {w new : List Functor} {ks : List Nat} (h : Beyond w ks)
    (hnew : .resetChannel ∉ new ∨ ks = []) : Beyond (w ++ new) ks := by
  intro k hk
  rcases hnew with hnew | rfl
  · rw [List.drop_append, List.mem_append, not_or]
    exact ⟨h k hk, fun hm => hnew (List.mem_of_mem_drop hm)⟩
  · cases hk

theorem beyond_replicate (w : List Functor) (n : Nat) : Beyond w (List.replicate n w.length) := by
  intro k hk
  rw [List.eq_of_mem_replicate hk, List.drop_length]
  exact List.not_mem_nil

theorem Beyond.union {w : List Functor} {ks ks' : List Nat} (h : Beyond w ks)
    (h' : Beyond w ks') : Beyond w (ks ++ ks') :=
  fun k hk => (List.mem_append.mp hk).elim (h k) (h' k)

/-- The counts of a step go down with the functors that are run. -/
theorem beyond_step {u : ConnectorSystem T} {ks : List Nat}
    (hp : Passes s.sys u l es) (h : Beyond s.sys.loop.waiting ks)
    (hks : s.sys.connector.state = .kConnecting → ks = []) :
    Beyond u.loop.waiting (countdown l ks) := by
  obtain ⟨w, new, hw, hu, hr, -⟩ := hp.waiting
  have hks' : .resetChannel ∉ new ∨ countdown l ks = [] := by
    by_cases hm : .resetChannel ∈ new
    · exact .inr (by simp [countdown, hks (hr hm)])
    · exact .inl hm
  rw [hu]
  refine beyond_append ?_ hks'
  unfold countdown
  split_ifs at hw ⊢ with hpop
  · obtain ⟨f, hf⟩ := hw
    rw [hf] at h
    exact beyond_pop h
  · rwa [hw] at h

theorem Inv.unconnected (hi : s.Inv) (hst : s.sys.connector.state ≠ .kConnected) :
    s.handed = [] ∧ s.closed = 0 := by
  have hzero : ¬ 0 < s.handed.length + s.closed := mt hi.connected hst
  exact ⟨List.length_eq_zero_iff.mp (by omega), by omega⟩

theorem Inv.undue (hi : s.Inv) (hst : s.sys.connector.state = .kConnecting) : s.due = [] := by
  obtain ⟨hn, -⟩ := hi.sys.steady.attempt hst
  exact List.length_eq_zero_iff.mp (hi.timers.trans hn)

theorem length_countdown (l : ConnectorSystem.Label T) (ks : List Nat) :
    (countdown l ks).length = ks.length := by
  unfold countdown
  split_ifs <;> simp

variable {u : ConnectorSystem T}

theorem timers_after (hi : s.Inv) (hp : Passes s.sys u l es) (hl : isFire l = true → 0 ∈ s.due) :
    (s.after l u es).due.length = u.timers := by
  have ht := hi.timers
  simp only [after, List.length_append, length_countdown, List.length_replicate, hp.timers]
  split_ifs with hf
  · rw [List.length_erase_of_mem (hl hf)]
    omega
  · omega

theorem beyond_after (hi : s.Inv) (hp : Passes s.sys u l es) :
    Beyond u.loop.waiting (s.after l u es).due ∧ Beyond u.loop.waiting (s.after l u es).handed := by
  constructor
  · refine (beyond_step hp (fun k hk => hi.due k ?_) fun hst => ?_).union (beyond_replicate _ _)
    · split_ifs at hk
      · exact List.mem_of_mem_erase hk
      · exact hk
    · simp [hi.undue hst]
  · refine (beyond_step hp hi.handed fun hst => ?_).union (beyond_replicate _ _)
    exact (hi.unconnected (by simp [hst])).1

theorem closed_le (s : ConnectorLife T) (l : ConnectorSystem.Label T) (u : ConnectorSystem T)
    (es : List Effect) : (s.after l u es).closed ≤ s.closed := by
  simp only [after]
  split_ifs <;> omega

theorem closed_after (hi : s.Inv) (hp : Passes s.sys u l es)
    (hc : 0 < (s.after l u es).closed) : .resetChannel ∉ u.loop.waiting := by
  have hpos : 0 < s.closed := hc.trans_le (closed_le s l u es)
  have hst := hi.connected (by omega)
  obtain ⟨w, new, hw, hu, hr, -⟩ := hp.waiting
  have hwait : .resetChannel ∉ w := by
    split_ifs at hw
    · obtain ⟨f, hf⟩ := hw
      exact fun hm => hi.closed hpos (hf ▸ List.mem_cons_of_mem f hm)
    · exact hw ▸ hi.closed hpos
  rw [hu, List.mem_append, not_or]
  exact ⟨hwait, fun hm => by simp [hr hm] at hst⟩

/-- At most one connection is handed over, and while there is one the connector is connected. -/
theorem handed_after (hi : s.Inv) (hp : Passes s.sys u l es)
    (hl : isRestart l = true → 0 < s.closed) :
    (s.after l u es).handed.length + (s.after l u es).closed ≤ 1 ∧
      (0 < (s.after l u es).handed.length + (s.after l u es).closed →
        u.connector.state = .kConnected) := by
  have hone := hi.one
  have hclosed := closed_le s l u es
  have hlen : (s.after l u es).handed.length = s.handed.length + (handedOver es).length := by
    simp [after, length_countdown]
  rw [hlen]
  cases hp.sockets with
  | rests _ hr =>
    have hn : (handedOver es).length = 0 := by rw [hr.handedOver]; rfl
    rw [hn]
    refine ⟨by omega, fun hpos => hr.state.trans (hi.connected (by omega))⟩
  | attempts id ha hst hr hwhy =>
    have hn : (handedOver es).length = 0 := by rw [hr.handedOver]; rfl
    rw [hn]
    refine ⟨by omega, fun hpos => ?_⟩
    rcases hwhy with hre | ⟨hd, -⟩
    · have hpos' := hl hre
      have hdec : (s.after l u es).closed = s.closed - 1 := by simp [after, hre]
      omega
    · obtain ⟨hh, hc⟩ := hi.unconnected (by simp [hd])
      rw [hh, List.length_nil] at hpos
      omega
  | exits id ha hst hown hr =>
    obtain ⟨hh, hc⟩ := hi.unconnected (by simp [hst])
    rw [hh, List.length_nil]
    rcases hr.socket with ⟨-, hnone⟩ | ⟨-, hsome, hconn⟩
    · have hn : (handedOver es).length = 0 := by rw [hnone]; rfl
      exact ⟨by omega, fun hpos => by omega⟩
    · have hn : (handedOver es).length = 1 := by rw [hsome]; rfl
      exact ⟨by omega, fun _ => hconn⟩

/-- A socket comes in by an attempt and moves on at its end. -/
theorem once_after (hi : s.Inv) (hp : Passes s.sys u l es) (hes : u.log = s.sys.log ++ es)
    (id : Nat) : u.connector.owned.count id + (closes u.log).count id +
      (handedOver u.log).count id = (s.after l u es).created.count id := by
  have honce := hi.once id
  simp only [after, hes, Connector.closes_append, Connector.handedOver_append, List.count_append]
  cases hp.sockets with
  | rests ha hr =>
    have hc : closes es = [] := hr.closes
    have hh : handedOver es = [] := hr.handedOver
    have ho : u.connector.owned = s.sys.connector.owned := hr.owned
    simp only [ha, hc, hh, ho, List.count_nil]
    omega
  | attempts id' ha hst hr =>
    have hh : handedOver es = [] := hr.handedOver
    rw [Connector.owned_of_ne hst, List.count_nil] at honce
    rcases hr.socket with ⟨-, ho, hc, -⟩ | ⟨hd, hc⟩
    · simp only [ha, hc, hh, ho, List.count_nil]
      omega
    · have hd' : u.connector.state = .kDisconnected := hd
      have ho : u.connector.owned = [] := Connector.owned_of_ne (by simp [hd'])
      simp only [ha, hc, hh, ho, List.count_nil]
      omega
  | exits id' ha hst hown hr =>
    have ho : u.connector.owned = [] := Connector.owned_of_ne hr.state
    rw [hown] at honce
    rcases hr.socket with ⟨hc, hh⟩ | ⟨hc, hh, -⟩
    · simp only [ha, hc, hh, ho, List.count_nil]
      omega
    · simp only [ha, hc, hh, ho, List.count_nil]
      omega

theorem nodup_after (hi : s.Inv) (hp : Passes s.sys u l es)
    (hnew : ∀ id ∈ attempted s.sys.connector l, id ∉ s.created) :
    (s.after l u es).created.Nodup := by
  have hat : (attempted s.sys.connector l).Nodup := by
    cases hp.sockets with
    | rests ha => simp [ha]
    | attempts id ha => simp [ha]
    | exits id ha => simp [ha]
  exact List.nodup_append'.mpr ⟨hat, hi.nodup, fun id hid => hnew id hid⟩

/-- Before `start` gets to work there is nothing for the connector to do. -/
theorem pristine_after (hi : s.Inv) (hp : Passes s.sys u l es) (hpr : Pristine s.sys)
    (hl : isRestart l = true → 0 < s.closed) (hhere : ∀ a, l ≠ .startHere a)
    (hqueue : ∀ th, l ≠ .startQueue th) (hfire : isFire l = true → 0 < s.sys.timers) :
    Pristine u := by
  obtain ⟨hst, htimers, hstarts, hresets⟩ := hpr
  have hf : isFire l = false := by
    cases h : isFire l with
    | false => rfl
    | true =>
      have := hfire h
      omega
  have hrest : s.sys.connector.Rests (u.connector, es) := by
    cases hp.sockets with
    | rests _ hr => exact hr
    | attempts id ha _ _ hwhy =>
      rcases hwhy with hre | ⟨-, hw | hpos | ⟨a, rfl⟩⟩
      · have hconn := hi.connected (Nat.lt_add_left _ (hl hre))
        simp [hst] at hconn
      · exact absurd hw hstarts
      · omega
      · exact absurd rfl (hhere a)
    | exits id _ hc => simp [hst] at hc
  obtain ⟨w, new, hw, hu, hr, hs⟩ := hp.waiting
  have hsub : ∀ f ∈ w, f ∈ s.sys.loop.waiting := by
    split_ifs at hw
    · obtain ⟨f, hf⟩ := hw
      exact fun g hg => hf ▸ List.mem_cons_of_mem f hg
    · exact fun g hg => hw ▸ hg
  refine ⟨hrest.state.trans hst, ?_, ?_, ?_⟩
  · have harmed : armed es = 0 := hrest.armed
    rw [hp.timers, hf, harmed, htimers]
    rfl
  · rw [hu, List.mem_append, not_or]
    exact ⟨fun hm => hstarts (hsub _ hm), fun hm => (hs hm).elim hqueue⟩
  · rw [hu, List.mem_append, not_or]
    exact ⟨fun hm => hresets (hsub _ hm), fun hm => by simp [hr hm] at hst⟩

theorem inv_close (hi : s.Inv) (hc : 0 ∈ s.handed) :
    Inv { s with handed := s.handed.erase 0, closed := s.closed + 1 } := by
  have hlen := List.length_erase_of_mem hc
  have hpos := List.length_pos_of_mem hc
  have hone := hi.one
  have hst := hi.connected (by omega)
  refine ⟨hi.sys, hi.timers, hi.due, fun k hk => hi.handed k (List.mem_of_mem_erase hk),
    fun _ => hi.handed 0 hc, ?_, fun _ => hst, hi.alone, hi.unstarted, hi.pristine, hi.nodup,
    hi.once⟩
  dsimp only
  omega

variable [DecidableEq T]

theorem passes_of_exec {s t : ConnectorSystem T} (hi : s.Inv) (ho : s.Orderly l)
    (hs : s.exec l = some t) (hes : t.log = s.log ++ es) : Passes s t l es := by
  cases l with
  | move m =>
    simp only [ConnectorSystem.exec] at hs
    split_ifs at hs with hg
    obtain ⟨loop, hl, rfl⟩ := Option.map_eq_some_iff.mp hs
    rcases EventLoop.move_waiting hl hi.settled with ⟨f, rfl, hw⟩ | ⟨hne, hw⟩
    · exact passes_idle loop.waiting [] hes rfl ⟨f, hw⟩ (by simp) (by simp) (by simp) rfl rfl rfl
        rfl rfl
    · have hp : pops (.move m : ConnectorSystem.Label T) = false := by
        cases m with
        | run f => exact absurd rfl (hne f)
        | _ => rfl
      exact passes_idle loop.waiting [] hes rfl (by simp [hp, hw]) (by simp) (by simp) (by simp) rfl
        rfl rfl rfl rfl
  | startCall th =>
    obtain ⟨-, rfl⟩ := Option.ite_some_none_eq_some.mp hs
    exact passes_idle s.loop.waiting [] hes rfl rfl (List.append_nil _).symm (by simp) (by simp) rfl
      rfl rfl rfl rfl
  | startHere a =>
    obtain ⟨hst, -, -, -⟩ := ho
    obtain ⟨-, rfl⟩ := Option.ite_some_none_eq_some.mp hs
    exact passes_did hes rfl rfl rfl rfl (sockets_startInLoop rfl hst (.inr (.inr ⟨a, rfl⟩)))
  | startQueue th =>
    obtain ⟨-, rfl⟩ := Option.ite_some_none_eq_some.mp hs
    exact passes_idle s.loop.waiting [.startInLoop] hes rfl rfl (EventLoop.waiting_queueInLoop _ _)
      (by simp) (fun _ => ⟨th, rfl⟩) rfl rfl rfl rfl rfl
  | stopCall th =>
    obtain ⟨-, rfl⟩ := Option.ite_some_none_eq_some.mp hs
    exact passes_idle s.loop.waiting [] hes rfl rfl (List.append_nil _).symm (by simp) (by simp) rfl
      rfl rfl rfl rfl
  | stopQueue th =>
    obtain ⟨-, rfl⟩ := Option.ite_some_none_eq_some.mp hs
    exact passes_idle s.loop.waiting [.stopInLoop] hes rfl rfl (EventLoop.waiting_queueInLoop _ _)
      (by simp) (by simp) rfl rfl rfl rfl rfl
  | runStart a =>
    refine passes_runFunctor hi hs hes rfl rfl fun hm => ?_
    have hst : s.connector.state = .kDisconnected := by
      by_contra hne
      have hnone := hi.steady.none hne
      have hcount := List.count_pos_iff.mpr hm
      omega
    exact sockets_startInLoop rfl hst (.inl hm)
  | runStop => exact passes_runFunctor hi hs hes rfl rfl fun _ => sockets_stopInLoop hi rfl
  | runReset =>
    exact passes_runFunctor hi hs hes rfl rfl fun hm => sockets_resetChannel hi rfl hm
  | fire a =>
    obtain ⟨⟨-, -, hpos⟩, rfl⟩ := Option.ite_some_none_eq_some.mp hs
    obtain ⟨hst, -, -⟩ := hi.of_timer hpos
    exact passes_did hes rfl rfl rfl rfl (sockets_startInLoop rfl hst (.inr (.inl hpos)))
  | handleEvent revents err isSelfConnect =>
    obtain ⟨-, rfl⟩ := Option.ite_some_none_eq_some.mp hs
    exact passes_did hes rfl rfl rfl rfl (sockets_handleEvent hi rfl)
  | restart a =>
    obtain ⟨hst, -, -, -⟩ := ho
    obtain ⟨-, rfl⟩ := Option.ite_some_none_eq_some.mp hs
    refine passes_did hes rfl rfl rfl rfl (.attempts a.sockfd rfl hst ?_ (.inl rfl))
    exact Connector.startInLoop_attempts a rfl rfl

theorem orderly_of_inv {u : ConnectorSystem T} (hi : s.Inv) (hl : s.Allowed l)
    (hs : s.sys.exec l = some u) : s.sys.Orderly l := by
  cases l with
  | startHere a =>
    obtain ⟨hpc, -⟩ := Option.ite_some_none_eq_some.mp hs
    obtain ⟨hst, ht, hw, hr⟩ := hi.pristine (.inr ⟨_, hpc⟩)
    exact ⟨hst, hw, ht, hr⟩
  | startQueue th =>
    obtain ⟨hpc, -⟩ := Option.ite_some_none_eq_some.mp hs
    obtain ⟨hst, ht, hw, -⟩ := hi.pristine (.inr ⟨_, hpc⟩)
    exact ⟨hst, hw, ht⟩
  | fire a => exact hi.due 0 hl
  | restart a =>
    have hst := hi.connected (by have : 0 < s.closed := hl; omega)
    have hnone := hi.sys.steady.none (by simp [hst])
    exact ⟨by simp [hst], List.count_eq_zero.mp (by omega), by omega, hi.closed hl⟩
  | _ => trivial

theorem starting_of_update {pc : Thread T → ConnectorPc} {th th' : Thread T} {v : ConnectorPc}
    (hv : v ≠ .starting) (h : Function.update pc th' v th = .starting) : pc th = .starting := by
  by_cases heq : th = th'
  · subst heq
    rw [Function.update_self] at h
    exact absurd h hv
  · rwa [Function.update_of_ne heq] at h

/-- A thread comes to be in `start` by calling it, and leaves it by `runInLoop`. -/
theorem pc_of_exec (hi : s.sys.Inv) (hs : s.sys.exec l = some u) :
    (∀ th, u.pc th = .starting → s.sys.pc th = .starting ∨ l = .startCall th) ∧
      ((∃ a, l = .startHere a) ∨ (∃ th, l = .startQueue th) →
        ∃ th, s.sys.pc th = .starting ∧ u.pc th = .idle) := by
  cases l with
  | move m =>
    simp only [ConnectorSystem.exec] at hs
    split_ifs at hs
    obtain ⟨loop, -, rfl⟩ := Option.map_eq_some_iff.mp hs
    exact ⟨fun th h => .inl h, by simp⟩
  | startCall th' =>
    obtain ⟨-, rfl⟩ := Option.ite_some_none_eq_some.mp hs
    refine ⟨fun th h => ?_, by simp⟩
    by_cases heq : th = th'
    · exact .inr (by rw [heq])
    · left
      rwa [← Function.update_of_ne heq .starting s.sys.pc]
  | startHere a =>
    obtain ⟨hpc, rfl⟩ := Option.ite_some_none_eq_some.mp hs
    exact ⟨fun th h => .inl (starting_of_update (by simp) h),
      fun _ => ⟨.loop, hpc, by simp [ConnectorSystem.did, ConnectorSystem.setPc]⟩⟩
  | startQueue th =>
    obtain ⟨hpc, rfl⟩ := Option.ite_some_none_eq_some.mp hs
    exact ⟨fun th h => .inl (starting_of_update (by simp) h),
      fun _ => ⟨.other th, hpc, Function.update_self _ _ _⟩⟩
  | stopCall th | stopQueue th =>
    obtain ⟨-, rfl⟩ := Option.ite_some_none_eq_some.mp hs
    exact ⟨fun th h => .inl (starting_of_update (by simp) h), by simp⟩
  | runStart | runStop | runReset =>
    obtain ⟨loop, -, -, rfl⟩ := ConnectorSystem.runFunctor_cases hs hi
    exact ⟨fun th h => .inl h, by simp⟩
  | fire | handleEvent | restart =>
    obtain ⟨-, rfl⟩ := Option.ite_some_none_eq_some.mp hs
    exact ⟨fun th h => .inl h, by simp⟩

/-- The one call of `start`: no other thread is in it. -/
theorem starting_after (hi : s.Inv) (hs : s.sys.exec l = some u) (hl : s.Allowed l) :
    (∀ th th', u.pc th = .starting → u.pc th' = .starting → th = th') ∧
      ((s.after l u es).started = false → ∀ th, u.pc th ≠ .starting) := by
  obtain ⟨hstarting, -⟩ := pc_of_exec hi.sys hs
  have hcall : ∀ th th', s.sys.pc th = .starting → l ≠ .startCall th' := by
    rintro th th' hpc rfl
    exact hi.unstarted hl th hpc
  refine ⟨fun th th' h h' => ?_, fun hst th h => ?_⟩
  · rcases hstarting th h with hpc | hc
    · rcases hstarting th' h' with hpc' | hc'
      · exact hi.alone th th' hpc hpc'
      · exact absurd hc' (hcall th th' hpc)
    · rcases hstarting th' h' with hpc' | hc'
      · exact absurd hc (hcall th' th hpc')
      · simpa [hc] using hc'
  · have hst' : s.started = false ∧ isStart l = false := by simpa [after] using hst
    rcases hstarting th h with hpc | rfl
    · exact hi.unstarted hst'.1 th hpc
    · cases hst'.2

/-- Whoever is in `start` finds the connector untouched. -/
theorem unused_after (hi : s.Inv) (hs : s.sys.exec l = some u) (hp : Passes s.sys u l es)
    (hl : s.Allowed l) (hrestart : isRestart l = true → 0 < s.closed)
    (hfire : isFire l = true → 0 < s.sys.timers)
    (h : (s.after l u es).started = false ∨ ∃ th, u.pc th = .starting) : Pristine u := by
  obtain ⟨hstarting, hleaves⟩ := pc_of_exec hi.sys hs
  have hold : s.started = false ∨ ∃ th, s.sys.pc th = .starting := by
    rcases h with h | ⟨th, h⟩
    · exact .inl (by simpa [after] using h : s.started = false ∧ _).1
    · rcases hstarting th h with hpc | rfl
      · exact .inr ⟨th, hpc⟩
      · exact .inl hl
  have hstays : ¬ ((∃ a, l = .startHere a) ∨ ∃ th, l = .startQueue th) := by
    intro hleave
    obtain ⟨th, hpc, hidle⟩ := hleaves hleave
    rcases h with h | ⟨th', h⟩
    · have hst : s.started = false ∧ isStart l = false := by simpa [after] using h
      exact hi.unstarted hst.1 th hpc
    · rcases hstarting th' h with hpc' | rfl
      · obtain rfl := hi.alone th th' hpc hpc'
        simp [hidle] at h
      · simp at hleave
  rw [not_or, not_exists, not_exists] at hstays
  exact pristine_after hi hp (hi.pristine hold) hrestart hstays.1 hstays.2 hfire

theorem inv_after (hi : s.Inv) (hs : s.sys.exec l = some u) (hes : u.log = s.sys.log ++ es)
    (hl : s.Allowed l) (hnew : ∀ id ∈ attempted s.sys.connector l, id ∉ s.created) :
    (s.after l u es).Inv := by
  have ho := orderly_of_inv hi hl hs
  have hp := passes_of_exec hi.sys ho hs hes
  have hfire : isFire l = true → 0 ∈ s.due := by
    cases l <;> simp_all [isFire, Allowed]
  have hrestart : isRestart l = true → 0 < s.closed := by
    cases l <;> simp_all [isRestart, Allowed]
  obtain ⟨hone, hconn⟩ := handed_after hi hp hrestart
  obtain ⟨hdue, hhanded⟩ := beyond_after hi hp
  obtain ⟨halone, hunstarted⟩ := @starting_after _ _ _ es _ _ hi hs hl
  refine ⟨ConnectorSystem.inv_exec_step hi.sys ho hs, timers_after hi hp hfire, hdue, hhanded,
    closed_after hi hp, hone, hconn, halone, hunstarted, ?_, nodup_after hi hp hnew,
    once_after hi hp hes⟩
  refine unused_after hi hs hp hl hrestart fun hf => ?_
  rw [← hi.timers]
  exact List.length_pos_of_mem (hfire hf)

theorem inv_step {a : Label T} (hi : s.Inv) (hs : Step s a t) : t.Inv := by
  cases hs with
  | connector hs hes hl hnew => exact inv_after hi hs hes hl hnew
  | close hc => exact inv_close hi hc

theorem inv_start (hi : (system T).init s) : s.Inv := by
  obtain ⟨sys, hinit, rfl⟩ := hi
  have hpr : Pristine sys := by
    refine ⟨by simp [hinit.connector, Connector.new], hinit.timers, fun hm => ?_, fun hm => ?_⟩
    · cases hinit.waiting _ hm
    · cases hinit.waiting _ hm
  have hidle : ∀ th, sys.pc th ≠ .starting := fun th => by simp [hinit.pc th]
  refine ⟨ConnectorSystem.inv_initial hinit, hinit.timers.symm, by simp [Beyond], by simp [Beyond],
    by simp, by simp, by simp, fun th _ h => absurd h (hidle th), fun _ => hidle, fun _ => hpr,
    List.nodup_nil, fun id => ?_⟩
  simp [hinit.connector, hinit.log, Connector.new, Connector.owned, closes, handedOver]

theorem inv_exec {h : List (Label T)} (he : (system T).Exec h s) : s.Inv := by
  induction he with
  | start hi => exact inv_start hi
  | snoc _ hs ih => exact inv_step ih hs

/-- In every run with one `start`, any calls of `stop` and a `restart` for each connection that has
closed, the sockets have one owner each and no assertion fails. -/
theorem sockets_linear {h : List (Label T)} (he : (system T).Exec h s) : Linear s where
  once id := by
    rw [(inv_exec he).once id]
    exact (inv_exec he).nodup.count
  sound := (inv_exec he).sys.sound
  writes revents err isSelfConnect t hs := by
    have hi := (inv_exec he).sys
    obtain ⟨⟨-, -, hadded⟩, -⟩ := Option.ite_some_none_eq_some.mp hs
    have hst : s.sys.connector.state = .kConnecting := by
      by_contra hne
      rcases hi.steady.released hne with ⟨hch, -⟩ | ⟨⟨ch, hch, hadd⟩, -⟩
      · simp [hch] at hadded
      · simp [hch, hadd] at hadded
    obtain ⟨-, -, -, ch, hch⟩ := hi.steady.attempt hst
    exact Connector.writesAsserted_handleEvent revents hst hch

/-- The step with a label, if the rules allow it. -/
def next (s : ConnectorLife Unit) : Label Unit → Option (ConnectorLife Unit)
  | .connector l =>
    (s.sys.exec l).bind fun t =>
      let es := t.log.drop s.sys.log.length
      if t.log = s.sys.log ++ es ∧ s.Allowed l ∧
          ∀ id ∈ attempted s.sys.connector l, id ∉ s.created then
        some (s.after l t es)
      else none
  | .close =>
    if 0 ∈ s.handed then some { s with handed := s.handed.erase 0, closed := s.closed + 1 }
    else none

theorem step_of_next {s t : ConnectorLife Unit} {a : Label Unit} (h : s.next a = some t) :
    Step s a t := by
  cases a with
  | connector l =>
    obtain ⟨u, hu, h⟩ := Option.bind_eq_some_iff.mp h
    dsimp only at h
    split_ifs at h with hok
    obtain rfl := Option.some.inj h
    exact .connector hu hok.1 hok.2.1 hok.2.2
  | close =>
    simp only [next] at h
    split_ifs at h with hc
    obtain rfl := Option.some.inj h
    exact .close hc

/-- An attempt fails with an error and a write event at once, the retry timer starts the next one,
which succeeds, and the connection is made again when it has closed. -/
def reconnects : List (Label Unit) :=
  [.connector (.startCall .loop), .connector (.startHere ⟨5, .EINPROGRESS⟩),
    .connector (.move .poll), .connector (.handleEvent (POLLERR ||| POLLOUT) 111 false),
    .connector (.move .beginPending), .connector (.move .swap), .connector .runReset,
    .connector (.move .endPending), .connector (.move .poll), .connector (.fire ⟨6, .EINPROGRESS⟩),
    .connector (.handleEvent POLLOUT 0 false), .connector (.move .beginPending),
    .connector (.move .swap), .connector .runReset, .connector (.move .endPending), .close,
    .connector (.restart ⟨7, .EINTR⟩)]

theorem sockets_linear_reconnects : ∃ s, (system Unit).Exec reconnects s ∧
    s.created = [7, 6, 5] ∧ closes s.sys.log = [5] ∧ handedOver s.sys.log = [6] ∧
    s.sys.connector.owned = [7] ∧ Linear s := by
  have hinit : (system Unit).init ⟨ConnectorSystem.idle, false, [], [], 0, []⟩ :=
    ⟨_, ConnectorSystem.idle_initial, rfl⟩
  have he : ∃ s, (system Unit).Exec reconnects s ∧ s.created = [7, 6, 5] ∧
      closes s.sys.log = [5] ∧ handedOver s.sys.log = [6] ∧ s.sys.connector.owned = [7] :=
    ⟨_, Trace.LTS.exec_of_foldlM (f := next) (fun _ _ _ h => step_of_next h) hinit rfl, rfl, rfl,
      rfl, rfl⟩
  obtain ⟨s, he, hcreated, hclosed, hhanded, howned⟩ := he
  exact ⟨s, he, hcreated, hclosed, hhanded, howned, sockets_linear he⟩

end ConnectorLife

end Lute
