import Lute.Polaris.ClientNames
import Lute.Polaris.ConnectorRetries

/-! A client over many connections: one at a time, and made again until it is told not to. -/
namespace Lute

open Connector (Functor Effect handedOver delays)

namespace Connector

variable {c : Connector} {r : Connector × List Effect}

/-- The connector becomes connected by handing a socket over, if it is still to connect; if it is
not, it hands nothing over. -/
structure Hands (c : Connector) (r : Connector × List Effect) : Prop where
  connected : r.1.state = .kConnected → r.1.connect_ = true →
    c.state = .kConnected ∨ handedOver r.2 ≠ []
  withheld : c.connect_ = false → handedOver r.2 = []

theorem hands_idle (c : Connector) : Hands c (c, []) := ⟨fun hst _ => .inl hst, fun _ => rfl⟩

theorem retry_hands (c : Connector) (sockfd : Nat) : Hands c (c.retry sockfd) := by
  obtain ⟨hst, -, -, hhanded⟩ := c.retry_effects sockfd
  exact ⟨fun hconn => absurd (hst.symm.trans hconn) ConnectorState.noConfusion, fun _ => hhanded⟩

theorem startInLoop_state (c : Connector) (a : Attempt) (hst : c.state ≠ .kConnected) :
    (c.startInLoop a).1.state ≠ .kConnected := by
  unfold startInLoop
  dsimp only
  split_ifs with hc
  · rcases c.connect_cases a with heq | heq | heq <;> rw [heq]
    · exact ConnectorState.noConfusion
    · rw [retry_delays a.sockfd hc]
      exact ConnectorState.noConfusion
    · exact hst
  · exact hst

theorem startInLoop_hands (c : Connector) (a : Attempt) : Hands c (c.startInLoop a) := by
  refine ⟨fun hconn _ => .inl ?_, fun hc => ?_⟩
  · by_contra hst
    exact c.startInLoop_state a hst hconn
  · rw [startInLoop, if_neg (hc ▸ Bool.false_ne_true)]
    rfl

theorem release_hands {follow : Connector → Nat → Connector × List Effect}
    (hf : ∀ c' sockfd, Hands c' (follow c' sockfd)) : Hands c (c.release follow) := by
  unfold release removeAndResetChannel
  cases hch : c.channel with
  | none => exact ⟨fun hst _ => .inl hst, fun _ => rfl⟩
  | some ch =>
    have h := hf { c with channel := some ch.disableAll.remove } ch.fd
    refine ⟨fun hst hc => ?_, fun hc => ?_⟩
    · rw [handedOver_append]
      exact (h.connected hst hc).imp_right fun hne => List.append_ne_nil_of_right_ne_nil _ hne
    · rw [handedOver_append, h.withheld hc]
      rfl

theorem stopInLoop_hands (c : Connector) : Hands c c.stopInLoop := by
  unfold stopInLoop
  split_ifs
  · have h : Hands (c.setState .kDisconnected) ((c.setState .kDisconnected).release retry) :=
      release_hands retry_hands
    refine ⟨fun hst hc => .inr ?_, h.withheld⟩
    exact (h.connected hst hc).resolve_left ConnectorState.noConfusion
  · exact hands_idle c

theorem handle_hands (c : Connector) (err : Nat) (isSelfConnect : Bool) (k : Handler) :
    Hands c (c.handle err isSelfConnect k) := by
  cases k with
  | error =>
    unfold handle handleError
    dsimp only
    split_ifs
    · exact release_hands retry_hands
    · exact hands_idle c
  | write =>
    unfold handle handleWrite
    dsimp only
    by_cases hst : c.state = .kConnecting
    · rw [if_pos hst]
      refine release_hands fun c' sockfd => ?_
      split_ifs with _ _ hc
      · exact c'.retry_hands sockfd
      · exact c'.retry_hands sockfd
      · exact ⟨fun _ _ => .inr (List.cons_ne_nil _ _),
          fun hoff => absurd (hoff.symm.trans hc) Bool.false_ne_true⟩
      · exact ⟨fun _ ht => absurd ht hc, fun _ => rfl⟩
    · rw [if_neg hst]
      exact hands_idle c
  | close | read => exact hands_idle c

theorem handleAll_hands (c : Connector) (err : Nat) (isSelfConnect : Bool) (ks : List Handler) :
    Hands c (c.handleAll err isSelfConnect ks) := by
  induction ks generalizing c with
  | nil => exact hands_idle c
  | cons k ks ih =>
    have h := c.handle_hands err isSelfConnect k
    have h' := ih (c.handle err isSelfConnect k).1
    have hkeep := (c.handle_persists err isSelfConnect k).connect
    have hkeep' :=
      (handleAll_persists (c.handle err isSelfConnect k).1 err isSelfConnect ks).connect
    refine ⟨fun hst hc => ?_, fun hc => ?_⟩
    · rw [handleAll, handedOver_append]
      rcases h'.connected hst hc with hst₁ | hne
      · exact (h.connected hst₁ (hkeep' ▸ hc)).imp_right fun hne =>
          List.append_ne_nil_of_left_ne_nil hne _
      · exact .inr (List.append_ne_nil_of_right_ne_nil _ hne)
    · rw [handleAll, handedOver_append, h.withheld hc, h'.withheld (hkeep.trans hc)]
      rfl

theorem startInLoop_connect (c : Connector) (a : Attempt) :
    (c.startInLoop a).1.connect_ = c.connect_ := by
  unfold startInLoop
  dsimp only
  split_ifs with hc
  · rcases c.connect_cases a with heq | heq | heq <;> rw [heq]
    · rfl
    · exact (c.retry_ends a.sockfd).connect
  · rfl

theorem restart_spec (c : Connector) (a : Attempt) :
    (c.restart a).1.connect_ = true ∧ (c.restart a).1.state ≠ .kConnected :=
  ⟨startInLoop_connect _ a, startInLoop_state _ a ConnectorState.noConfusion⟩

end Connector

namespace ConnectorSystem

variable {T : Type} {s t : ConnectorSystem T} {l : Label T} {es : List Effect}

/-- A step that ends in a member function of the connector `c`. -/
theorem hands_did {u : ConnectorSystem T} {c : Connector} {r : Connector × List Effect}
    (hr : c.Hands r) (hu : (u.did r).log = u.log ++ es) : c.Hands ((u.did r).connector, es) := by
  obtain rfl : r.2 = es := List.append_cancel_left hu
  exact hr

/-- `connectDestroyed` of a connection that has closed, queued in the loop thread. -/
def queueCallback (s : ConnectorSystem T) : ConnectorSystem T :=
  { s with loop := s.loop.queueInLoop true .callback }

theorem waiting_queueCallback (s : ConnectorSystem T) :
    s.queueCallback.loop.waiting = s.loop.waiting ++ [.callback] :=
  EventLoop.waiting_queueInLoop true _

theorem Persistent.queueCallback {h : List (Label T)} (hp : Persistent h s) :
    Persistent h s.queueCallback where
  settled := EventLoop.settled_queueInLoop true _ hp.settled
  waited := hp.waited.congr rfl rfl rfl
  live := hp.live.loop fun hm => by
    rw [EventLoop.waiting_queueInLoop]
    exact List.mem_append_left _ hm

/-- A step in which the connector does nothing. -/
theorem hands_idle (hlog : s.log = s.log ++ es) : s.connector.Hands (s.connector, es) := by
  obtain rfl : es = [] := by simpa using hlog.symm
  exact Connector.hands_idle _

variable [DecidableEq T]

/-- No step but `restart` and the calls of `start` and `stop` changes `connect_`, and a connector
comes to be connected with a socket that it hands over. -/
theorem hands_exec (hs : s.exec l = some t) (hes : t.log = s.log ++ es) (hset : s.loop.Settled)
    (hl : TCPClient.isOwn l = true) :
    t.connector.connect_ = s.connector.connect_ ∧ s.connector.Hands (t.connector, es) := by
  cases l with
  | move m =>
    simp only [exec] at hs
    split_ifs at hs
    obtain ⟨loop, -, rfl⟩ := Option.map_eq_some_iff.mp hs
    exact ⟨rfl, hands_idle hes⟩
  | startQueue th | stopQueue th =>
    obtain ⟨-, rfl⟩ := Option.ite_some_none_eq_some.mp hs
    exact ⟨rfl, hands_idle hes⟩
  | startHere a | fire a =>
    obtain ⟨-, rfl⟩ := Option.ite_some_none_eq_some.mp hs
    exact ⟨s.connector.startInLoop_connect a, hands_did (s.connector.startInLoop_hands a) hes⟩
  | handleEvent revents err isSelfConnect =>
    obtain ⟨-, rfl⟩ := Option.ite_some_none_eq_some.mp hs
    exact ⟨(s.connector.handleAll_persists err isSelfConnect _).connect,
      hands_did (s.connector.handleAll_hands err isSelfConnect _) hes⟩
  | runStart a =>
    obtain ⟨loop, -, -, rfl⟩ := runFunctor_split hs hset
    exact ⟨s.connector.startInLoop_connect a, hands_did (s.connector.startInLoop_hands a) hes⟩
  | runStop =>
    obtain ⟨loop, -, -, rfl⟩ := runFunctor_split hs hset
    exact ⟨s.connector.stopInLoop_persists.connect, hands_did s.connector.stopInLoop_hands hes⟩
  | runReset =>
    obtain ⟨loop, -, -, rfl⟩ := runFunctor_split hs hset
    exact ⟨rfl, hands_did (c := s.connector) ⟨fun hst _ => .inl hst, fun _ => rfl⟩ hes⟩
  | startCall th | stopCall th | restart a => cases hl

end ConnectorSystem

namespace ConnectorLife

variable {T : Type} {s : ConnectorLife T}

/-- A connection that was handed over has closed, and will be destroyed by the loop. -/
def remove (s : ConnectorLife T) : ConnectorLife T :=
  { s with
    sys := s.sys.queueCallback
    handed := s.handed.erase 0
    closed := s.closed + 1 }

/-- A functor that is not the connector's makes no difference to it. -/
theorem inv_queueCallback (hi : s.Inv) : Inv { s with sys := s.sys.queueCallback } := by
  have hw := s.sys.waiting_queueCallback
  have hreset : .resetChannel ∉ s.sys.loop.waiting →
      .resetChannel ∉ s.sys.queueCallback.loop.waiting := by
    intro hn
    simpa [hw] using hn
  refine ⟨⟨EventLoop.settled_queueInLoop true _ hi.sys.settled, ?_, hi.sys.sound⟩, hi.timers, ?_,
    ?_, fun hc => hreset (hi.closed hc), hi.one, hi.connected, hi.alone, hi.unstarted,
    fun hp => ?_, hi.nodup, hi.once⟩
  · rw [hw]
    exact hi.sys.steady.snoc (by simp) (by simp)
  · dsimp only
    rw [hw]
    exact beyond_append hi.due (.inl (by simp))
  · dsimp only
    rw [hw]
    exact beyond_append hi.handed (.inl (by simp))
  · obtain ⟨hst, ht, hs, hr⟩ := hi.pristine hp
    exact ⟨hst, ht, by simpa [hw] using hs, hreset hr⟩

theorem inv_remove (hi : s.Inv) (hc : 0 ∈ s.handed) : s.remove.Inv :=
  inv_queueCallback (inv_close hi hc)

end ConnectorLife

/-- A client together with what is kept for its connector. -/
structure ClientLife (T : Type) where
  client : TCPClient T
  life : ConnectorLife T

namespace ClientLife

open TCPClient (Label)
open ConnectorLife (attempted)
open Connector (GaveUp)

variable {T : Type}

/-- The step of the connector in a step of its client that does not close a connection. -/
def driven : Label T → Option (ConnectorSystem.Label T)
  | .connector l => some l
  | .connect th => some (.startCall th)
  | .stop th => some (.stopCall th)
  | .enableRetry | .disconnect | .removeConnection _ => none

def isFlag : Label T → Bool
  | .enableRetry | .disconnect => true
  | _ => false

def isRemove : Label T → Bool
  | .removeConnection _ => true
  | _ => false

section
variable [DecidableEq T] (name ipPort : List Char)

/-- A connection closes once, after the functors queued before it was made have run. -/
inductive Step : ClientLife T → Label T → ClientLife T → Prop
  | drive {s : ClientLife T} {a : Label T} {l : ConnectorSystem.Label T} {client : TCPClient T}
      {es : List Effect} (hl : driven a = some l) (hc : s.client.exec name ipPort a = some client)
      (hes : client.connector.log = s.client.connector.log ++ es) (ha : s.life.Allowed l)
      (hnew : ∀ id ∈ attempted s.client.connector.connector l, id ∉ s.life.created) :
      Step s a ⟨client, s.life.after l client.connector es⟩
  | flag {s : ClientLife T} {a : Label T} {client : TCPClient T} (hf : isFlag a = true)
      (hc : s.client.exec name ipPort a = some client) : Step s a ⟨client, s.life⟩
  | remove {s : ClientLife T} {a : Attempt} {client : TCPClient T} (hh : 0 ∈ s.life.handed)
      (hc : s.client.exec name ipPort (.removeConnection a) = some client)
      (hr : ¬ (s.client.retry && s.client.connect) = true) :
      Step s (.removeConnection a) ⟨client, s.life.remove⟩
  | reconnect {s : ClientLife T} {a : Attempt} {client : TCPClient T} {es : List Effect}
      (hh : 0 ∈ s.life.handed)
      (hc : s.client.exec name ipPort (.removeConnection a) = some client)
      (hr : (s.client.retry && s.client.connect) = true)
      (hes : client.connector.log = s.client.connector.log ++ es)
      (hnew : a.sockfd ∉ s.life.created) :
      Step s (.removeConnection a)
        ⟨client, s.life.remove.after (.restart a) client.connector es⟩

def system (T : Type) [DecidableEq T] (name ipPort : List Char) :
    Trace.LTS (ClientLife T) (Label T) where
  init s := s.client.Initial ∧ s.life = ⟨s.client.connector, false, [], [], 0, []⟩
  step := Step name ipPort

end

section
variable {s t : TCPClient T} {name ipPort : List Char}

/-- What the calls of `newConnection` do besides the names. -/
theorem foldl_newConnection (fds : List Nat) (s : TCPClient T) :
    (fds.foldl (fun s _ => s.newConnection name ipPort) s).retry = s.retry ∧
      (fds.foldl (fun s _ => s.newConnection name ipPort) s).connect = s.connect ∧
      (fds.foldl (fun s _ => s.newConnection name ipPort) s).connection =
        if fds = [] then s.connection else some (s.created + fds.length) := by
  induction fds generalizing s with
  | nil => exact ⟨rfl, rfl, rfl⟩
  | cons fd fds ih =>
    obtain ⟨hr, hc, hconn⟩ := ih (s.newConnection name ipPort)
    refine ⟨hr, hc, hconn.trans ?_⟩
    rw [if_neg (List.cons_ne_nil _ _), List.length_cons]
    split_ifs with hnil
    · rw [hnil]
      rfl
    · change some (s.created + 1 + fds.length) = _
      congr 1
      omega

/-- What a step of the connector is for its client, whose connector it is. -/
structure Driven (s : TCPClient T) (es : List Effect) (t : TCPClient T) : Prop where
  retry : t.retry = s.retry
  connect : t.connect = s.connect
  created : t.created = s.created + (handedOver es).length
  connection : t.connection = if handedOver es = [] then s.connection else some t.created

variable [DecidableEq T] {es : List Effect} {l : ConnectorSystem.Label T}

theorem drive_spec (hs : s.drive name ipPort l = some t)
    (hes : t.connector.log = s.connector.log ++ es) :
    s.connector.exec l = some t.connector ∧ Driven s es t := by
  obtain ⟨u, hu, rfl⟩ := Option.map_eq_some_iff.mp hs
  obtain ⟨hcreated, hconnector, -⟩ := @TCPClient.foldl_newConnection T name ipPort
    (handedOver (u.log.drop s.connector.log.length)) { s with connector := u }
  rw [hconnector] at hes ⊢
  have hes' : u.log = s.connector.log ++ es := hes
  have hdrop : u.log.drop s.connector.log.length = es := by
    rw [hes', List.drop_left]
  obtain ⟨hr, hc, hconn⟩ := @foldl_newConnection T name ipPort
    (handedOver (u.log.drop s.connector.log.length)) { s with connector := u }
  refine ⟨hu, hr, hc, ?_, ?_⟩
  · rw [hcreated, hdrop]
  · rw [hconn, hcreated, hdrop]

/-- A call of the client as a step of its connector; `c` is `connect_` of the client afterwards. -/
theorem exec_driven {a : Label T} (hl : driven a = some l)
    (hs : s.exec name ipPort a = some t) (hes : t.connector.log = s.connector.log ++ es) :
    ∃ c, s.connector.exec l = some t.connector ∧ Driven { s with connect := c } es t ∧
      (TCPClient.isOwn l = true ∧ c = s.connect ∨ (∃ th, l = .startCall th ∧ c = true) ∨
        (∃ th, l = .stopCall th ∧ a = .stop th ∧ c = false)) := by
  cases a with
  | connector l' =>
    obtain rfl := Option.some.inj hl
    simp only [TCPClient.exec] at hs
    split_ifs at hs with hown
    obtain ⟨hc, hd⟩ := drive_spec hs hes
    exact ⟨s.connect, hc, hd, .inl ⟨hown, rfl⟩⟩
  | connect th =>
    obtain rfl := Option.some.inj hl
    obtain ⟨hc, hd⟩ := drive_spec (s := { s with connect := true }) hs hes
    exact ⟨true, hc, hd, .inr (.inl ⟨th, rfl, rfl⟩)⟩
  | stop th =>
    obtain rfl := Option.some.inj hl
    obtain ⟨hc, hd⟩ := drive_spec (s := { s with connect := false }) hs hes
    exact ⟨false, hc, hd, .inr (.inr ⟨th, rfl, rfl, rfl⟩)⟩
  | enableRetry | disconnect | removeConnection => cases hl

/-- The client once its connection is gone. -/
def removed (s : TCPClient T) : TCPClient T :=
  { s with connection := none, connector := s.connector.queueCallback }

theorem exec_remove {a : Attempt} (hs : s.exec name ipPort (.removeConnection a) = some t) :
    s.connection.isSome = true ∧
      if (s.retry && s.connect) = true then (removed s).drive name ipPort (.restart a) = some t
      else t = removed s := by
  simp only [TCPClient.exec, TCPClient.removeConnection] at hs
  split_ifs at hs with hc hr
  · exact ⟨hc, (if_pos hr).symm ▸ hs⟩
  · exact ⟨hc, (if_neg hr).symm ▸ (Option.some.inj hs).symm⟩

end

section
variable [DecidableEq T] {name ipPort : List Char} {s t : ClientLife T} {a : Label T}
  {h : List (Label T)} {es : List Effect}

/-- `enableRetry` is called before a connection closes. -/
def Early (h : List (Label T)) : Prop :=
  Trace.Always (fun pre a => isRemove a = true → .enableRetry ∈ pre) h

structure Inv (h : List (Label T)) (s : ClientLife T) : Prop where
  coupled : s.life.sys = s.client.connector
  life : s.life.Inv
  persistent : ∃ hs, ConnectorSystem.Persistent hs s.client.connector
  held : s.client.connection.toList.length = s.life.handed.length
  newest : ∀ c, s.client.connection = some c → c = s.client.created
  balance : s.client.created = h.countP isRemove + s.life.handed.length
  started : (∃ th, .connect th ∈ h) → s.life.started = true
  retry : .enableRetry ∈ h → s.client.retry = true
  alive : Early h → s.life.started = true → s.client.connect = true →
    s.client.connector.connector.connect_ = true ∧
      (s.client.connector.connector.state = .kConnected → s.client.connection.isSome = true)

theorem inv_initial (hs : (system T name ipPort).init s) : Inv [] s := by
  obtain ⟨hinit, hlife⟩ := hs
  have hi : s.life.Inv := ConnectorLife.inv_start ⟨_, hinit.connector, hlife⟩
  refine ⟨by rw [hlife], hi, ⟨[], ConnectorSystem.persistent_initial hinit.connector⟩, ?_, ?_, ?_,
    ?_, ?_, fun _ hst => ?_⟩
  · rw [hlife, hinit.connection]
    rfl
  · simp [hinit.connection]
  · rw [hlife, hinit.created]
    rfl
  · simp
  · simp
  · rw [hlife] at hst
    cases hst

omit [DecidableEq T] in
/-- The connections of a client and of its connector are counted alike. -/
theorem held_after {s t : TCPClient T} {life : ConnectorLife T} {l : ConnectorSystem.Label T}
    {u : ConnectorSystem T} (hd : Driven s es t)
    (hheld : s.connection.toList.length = life.handed.length)
    (hone : (life.after l u es).handed.length ≤ 1) :
    (life.after l u es).handed.length = life.handed.length + (handedOver es).length ∧
      t.connection.toList.length = (life.after l u es).handed.length := by
  have hlen : (life.after l u es).handed.length =
      life.handed.length + (handedOver es).length := by
    simp [ConnectorLife.after, ConnectorLife.length_countdown]
  refine ⟨hlen, ?_⟩
  rw [hd.connection]
  split_ifs with hnil
  · rw [hheld, hlen, hnil, List.length_nil, Nat.add_zero]
  · have hpos := List.length_pos_of_ne_nil hnil
    rw [Option.toList_some, List.length_singleton]
    omega

omit [DecidableEq T] in
theorem newest_after {s t : TCPClient T} (hd : Driven s es t)
    (hn : ∀ c, s.connection = some c → c = s.created) :
    ∀ c, t.connection = some c → c = t.created := by
  intro c hc
  rw [hd.connection] at hc
  split_ifs at hc with hnil
  · rw [hd.created, hnil, List.length_nil, Nat.add_zero]
    exact hn c hc
  · exact (Option.some.inj hc).symm

theorem alive_drive {l : ConnectorSystem.Label T} {client : TCPClient T} {c : Bool}
    (hi : Inv h s) (hal : s.life.Allowed l)
    (hexec : s.client.connector.exec l = some client.connector)
    (hes : client.connector.log = s.client.connector.log ++ es)
    (hd : Driven { s.client with connect := c } es client) (he : Early h)
    (hst : (s.life.started || ConnectorLife.isStart l) = true) (hcon : client.connect = true)
    (hl : TCPClient.isOwn l = true ∧ c = s.client.connect ∨ (∃ th, l = .startCall th ∧ c = true) ∨
      ∃ th, l = .stopCall th ∧ a = .stop th ∧ c = false) :
    client.connector.connector.connect_ = true ∧
      (client.connector.connector.state = .kConnected → client.connection.isSome = true) := by
  have hc : c = true := hd.connect.symm.trans hcon
  rcases hl with ⟨hown, rfl⟩ | ⟨th, rfl, -⟩ | ⟨th, -, -, rfl⟩
  · obtain ⟨hs, hp⟩ := hi.persistent
    obtain ⟨hkeep, hhands⟩ := ConnectorSystem.hands_exec hexec hes hp.settled hown
    have hstart : s.life.started = true := by
      cases l <;> simp_all [ConnectorLife.isStart, TCPClient.isOwn]
    obtain ⟨hconn, hsome⟩ := hi.alive he hstart hc
    refine ⟨hkeep.trans hconn, fun hconnected => ?_⟩
    rw [hd.connection]
    split_ifs with hnil
    · rcases hhands.connected hconnected (hkeep.trans hconn) with h₀ | hne
      · exact hsome h₀
      · exact absurd hnil hne
    · rfl
  · obtain ⟨-, ht⟩ := Option.ite_some_none_eq_some.mp hexec
    have hpr := hi.life.pristine (.inl hal)
    rw [hi.coupled] at hpr
    rw [← ht]
    refine ⟨rfl, fun hconnected => ?_⟩
    exact absurd (hpr.state.symm.trans hconnected) ConnectorState.noConfusion
  · cases hc

theorem inv_drive {l : ConnectorSystem.Label T} {client : TCPClient T} (hi : Inv h s)
    (hl : driven a = some l) (hc : s.client.exec name ipPort a = some client)
    (hes : client.connector.log = s.client.connector.log ++ es) (hal : s.life.Allowed l)
    (hnew : ∀ id ∈ attempted s.client.connector.connector l, id ∉ s.life.created) :
    Inv (h ++ [a]) ⟨client, s.life.after l client.connector es⟩ := by
  obtain ⟨c, hexec, hd, hcases⟩ := exec_driven hl hc hes
  have hlife : (s.life.after l client.connector es).Inv := by
    rw [← hi.coupled] at hexec hes hnew
    exact ConnectorLife.inv_after hi.life hexec hes hal hnew
  have hone := hlife.one
  obtain ⟨hlen, hheld⟩ := held_after (u := client.connector) (l := l) hd hi.held (by omega)
  have hremove : (h ++ [a]).countP isRemove = h.countP isRemove := by
    cases a <;> simp_all [driven, isRemove]
  refine ⟨rfl, hlife, ?_, hheld, newest_after hd hi.newest, ?_, fun hst => ?_, fun hr => ?_,
    fun he hst hcon => ?_⟩
  · obtain ⟨hs, hp⟩ := hi.persistent
    exact ⟨_, ConnectorSystem.persistent_step hp hexec⟩
  · have hbal := hi.balance
    have hcr : client.created = s.client.created + (handedOver es).length := hd.created
    rw [hremove]
    dsimp only
    omega
  · obtain ⟨th, hm⟩ := hst
    rcases List.mem_append.mp hm with hm | hm
    · exact (Bool.or_eq_true _ _).mpr (.inl (hi.started ⟨th, hm⟩))
    · obtain rfl := List.mem_singleton.mp hm
      obtain rfl := Option.some.inj hl
      exact (Bool.or_eq_true _ _).mpr (.inr rfl)
  · rcases List.mem_append.mp hr with hm | hm
    · exact hd.retry.trans (hi.retry hm)
    · obtain rfl := List.mem_singleton.mp hm
      cases hl
  · exact alive_drive hi hal hexec hes hd he.of_append hst hcon hcases

theorem inv_flag {client : TCPClient T} (hi : Inv h s) (hf : isFlag a = true)
    (hc : s.client.exec name ipPort a = some client) : Inv (h ++ [a]) ⟨client, s.life⟩ := by
  cases a with
  | enableRetry =>
    obtain rfl := Option.some.inj hc
    refine ⟨hi.coupled, hi.life, hi.persistent, hi.held, hi.newest, ?_, ?_, fun _ => rfl,
      fun he => hi.alive he.of_append⟩
    · simpa [isRemove] using hi.balance
    · simpa using hi.started
  | disconnect =>
    obtain rfl := Option.some.inj hc
    refine ⟨hi.coupled, hi.life, hi.persistent, hi.held, hi.newest, ?_, ?_, ?_,
      fun _ _ hcon => by cases hcon⟩
    · simpa [isRemove] using hi.balance
    · simpa using hi.started
    · simpa using hi.retry
  | connector | connect | stop | removeConnection => cases hf

/-- Whatever follows when a connection has gone: it was the only one. -/
theorem held_remove {attempt : Attempt} {client : TCPClient T} (hi : Inv h s)
    (hc : s.client.exec name ipPort (.removeConnection attempt) = some client) :
    s.life.handed.length = 1 := by
  obtain ⟨c, hsome⟩ := Option.isSome_iff_exists.mp (exec_remove hc).1
  rw [← hi.held, hsome]
  rfl

theorem inv_remove {attempt : Attempt} {client : TCPClient T} (hi : Inv h s)
    (hh : 0 ∈ s.life.handed)
    (hc : s.client.exec name ipPort (.removeConnection attempt) = some client)
    (hr : ¬ (s.client.retry && s.client.connect) = true) :
    Inv (h ++ [.removeConnection attempt]) ⟨client, s.life.remove⟩ := by
  have hlen := held_remove hi hc
  have hgone := List.length_erase_of_mem hh
  obtain ⟨-, ht⟩ := exec_remove hc
  rw [if_neg hr] at ht
  subst ht
  refine ⟨congrArg ConnectorSystem.queueCallback hi.coupled, ConnectorLife.inv_remove hi.life hh,
    ?_, ?_, fun c hcon => (Option.some_ne_none c hcon.symm).elim, ?_, ?_, ?_, fun he _ hcon => ?_⟩
  · obtain ⟨hs, hp⟩ := hi.persistent
    exact ⟨hs, hp.queueCallback⟩
  · change 0 = (s.life.handed.erase 0).length
    omega
  · have hbal := hi.balance
    change s.client.created = _ + (s.life.handed.erase 0).length
    simp only [List.countP_append, List.countP_singleton, isRemove, if_true]
    omega
  · exact fun ⟨th, hm⟩ => hi.started ⟨th, by simpa using hm⟩
  · exact fun hm => hi.retry (by simpa using hm)
  · have hretry := hi.retry (he h _ [] rfl rfl)
    have hconnect : s.client.connect = true := hcon
    simp [hretry, hconnect] at hr

theorem inv_reconnect {attempt : Attempt} {client : TCPClient T} (hi : Inv h s)
    (hh : 0 ∈ s.life.handed)
    (hc : s.client.exec name ipPort (.removeConnection attempt) = some client)
    (hr : (s.client.retry && s.client.connect) = true)
    (hes : client.connector.log = s.client.connector.log ++ es)
    (hnew : attempt.sockfd ∉ s.life.created) :
    Inv (h ++ [.removeConnection attempt])
      ⟨client, s.life.remove.after (.restart attempt) client.connector es⟩ := by
  have hlen := held_remove hi hc
  have hgone := List.length_erase_of_mem hh
  obtain ⟨-, ht⟩ := exec_remove hc
  rw [if_pos hr] at ht
  obtain ⟨hexec, hd⟩ := drive_spec (s := removed s.client) ht hes
  have hcoupled : s.life.remove.sys = (removed s.client).connector :=
    congrArg ConnectorSystem.queueCallback hi.coupled
  have hlife : (s.life.remove.after (.restart attempt) client.connector es).Inv := by
    refine ConnectorLife.inv_after (ConnectorLife.inv_remove hi.life hh) (hcoupled ▸ hexec)
      (hcoupled ▸ hes) (Nat.succ_pos _) fun id hid => ?_
    obtain rfl := List.mem_singleton.mp hid
    exact hnew
  have hone := hlife.one
  have hheld₀ : (removed s.client).connection.toList.length = s.life.remove.handed.length := by
    change 0 = (s.life.handed.erase 0).length
    omega
  obtain ⟨hlen', hheld⟩ := held_after (u := client.connector) (l := .restart attempt) hd hheld₀
    (by omega)
  have hnone : ∀ c, (removed s.client).connection = some c → c = (removed s.client).created :=
    fun c hcon => (Option.some_ne_none c hcon.symm).elim
  refine ⟨rfl, hlife, ?_, hheld, newest_after hd hnone, ?_, fun hst => ?_, fun hretry => ?_,
    fun _ _ _ => ?_⟩
  · obtain ⟨hs, hp⟩ := hi.persistent
    exact ⟨_, ConnectorSystem.persistent_step hp.queueCallback hexec⟩
  · have hbal := hi.balance
    have hcr : client.created = s.client.created + (handedOver es).length := hd.created
    have hzero : s.life.remove.handed.length = 0 := hheld₀.symm
    simp only [List.countP_append, List.countP_singleton, isRemove, if_true]
    omega
  · have hstart : s.life.started = true := hi.started (by simpa using hst)
    exact (Bool.or_eq_true _ _).mpr (.inl hstart)
  · exact hd.retry.trans (hi.retry (by simpa using hretry))
  · obtain ⟨-, hu⟩ := Option.ite_some_none_eq_some.mp hexec
    obtain ⟨hconnect, hst⟩ := s.client.connector.connector.restart_spec attempt
    rw [← hu]
    exact ⟨hconnect, fun hconnected => absurd hconnected hst⟩

theorem inv_step (hi : Inv h s) (hs : Step name ipPort s a t) : Inv (h ++ [a]) t := by
  cases hs with
  | drive hl hc hes ha hnew => exact inv_drive hi hl hc hes ha hnew
  | flag hf hc => exact inv_flag hi hf hc
  | remove hh hc hr => exact inv_remove hi hh hc hr
  | reconnect hh hc hr hes hnew => exact inv_reconnect hi hh hc hr hes hnew

theorem inv_exec (he : (system T name ipPort).Exec h s) : Inv h s := by
  induction he with
  | start hi => exact inv_initial hi
  | snoc _ hs ih => exact inv_step ih hs

/-- What is known of a client after any run. -/
structure Served (h : List (Label T)) (s : ClientLife T) : Prop where
  sound : ∀ e ∈ s.client.connector.log, e.Sound
  balance : s.client.created = h.countP isRemove + s.client.connection.toList.length
  newest : ∀ c, s.client.connection = some c → c = s.client.created
  served : Early h → (∃ th, .connect th ∈ h) → s.client.connect = true →
    s.client.connection.isSome = true ∨ s.client.connector.connector.state = .kConnecting ∨
      s.client.connector.Underway ∨ GaveUp s.client.connector.log

/-- A client whose `connect` is called once has one connection at a time, each is gone before the
next one is made, and no assertion of its connector fails. Told to connect and to make its
connections again, it has one, is at it, waits to be, or was refused for good. -/
theorem one_connection (he : (system T name ipPort).Exec h s) : Served h s := by
  have hi := inv_exec he
  have hsound : ∀ e ∈ s.client.connector.log, e.Sound := hi.coupled ▸ hi.life.sys.sound
  refine ⟨hsound, by rw [hi.balance, hi.held], hi.newest, fun hearly hstart hcon => ?_⟩
  obtain ⟨hs, hp⟩ := hi.persistent
  obtain ⟨hconnect, hsome⟩ := hi.alive hearly (hi.started hstart) hcon
  have hcrash : ¬ Connector.Crashed s.client.connector.log := fun hm => by
    simpa [Effect.Sound] using hsound _ hm
  cases hst : s.client.connector.connector.state with
  | kConnected => exact .inl (hsome hst)
  | kConnecting => exact .inr (.inl rfl)
  | kDisconnected => exact .inr (.inr (hp.live hcrash hconnect hst))

end

/-- The step with a label, if the rules allow it. -/
def next (name ipPort : List Char) (s : ClientLife Unit) (a : Label Unit) :
    Option (ClientLife Unit) :=
  (s.client.exec name ipPort a).bind fun client =>
    let es := client.connector.log.drop s.client.connector.log.length
    match a, driven a with
    | _, some l =>
      if client.connector.log = s.client.connector.log ++ es ∧ s.life.Allowed l ∧
          ∀ id ∈ attempted s.client.connector.connector l, id ∉ s.life.created then
        some ⟨client, s.life.after l client.connector es⟩
      else none
    | .removeConnection attempt, none =>
      if 0 ∈ s.life.handed then
        if (s.client.retry && s.client.connect) = true then
          if client.connector.log = s.client.connector.log ++ es ∧
              attempt.sockfd ∉ s.life.created then
            some ⟨client, s.life.remove.after (.restart attempt) client.connector es⟩
          else none
        else some ⟨client, s.life.remove⟩
      else none
    | a, none => if isFlag a then some ⟨client, s.life⟩ else none

theorem step_of_next {name ipPort : List Char} {s t : ClientLife Unit} {a : Label Unit}
    (h : next name ipPort s a = some t) : Step name ipPort s a t := by
  obtain ⟨client, hc, h⟩ := Option.bind_eq_some_iff.mp h
  cases a with
  | connector | connect | stop =>
    simp only [driven] at h
    split_ifs at h with hok
    obtain rfl := Option.some.inj h
    exact .drive rfl hc hok.1 hok.2.1 hok.2.2
  | enableRetry | disconnect =>
    obtain rfl := Option.some.inj h
    exact .flag rfl hc
  | removeConnection attempt =>
    simp only [driven] at h
    split_ifs at h with hh hr hok
    · obtain rfl := Option.some.inj h
      exact .reconnect hh hc hr hok.1 hok.2
    · obtain rfl := Option.some.inj h
      exact .remove hh hc hr

def idle : ClientLife Unit := ⟨TCPClient.idle, ⟨ConnectorSystem.idle, false, [], [], 0, []⟩⟩

theorem idle_init (name ipPort : List Char) : (system Unit name ipPort).init idle :=
  ⟨TCPClient.idle_initial, rfl⟩

/-- A run of the client `c` of the host `a`. -/
def runs (s : ClientLife Unit) (h : List (Label Unit)) : Option (ClientLife Unit) :=
  h.foldlM (next ['c'] ['a']) s

theorem exec_of_runs {h : List (Label Unit)} {s : ClientLife Unit} (hr : runs idle h = some s) :
    (system Unit ['c'] ['a']).Exec h s :=
  Trace.LTS.exec_of_foldlM (fun _ _ _ => step_of_next) (idle_init _ _) hr

theorem resume_of_runs {h : List (Label Unit)} {s t : ClientLife Unit} (hr : runs s h = some t) :
    ((system Unit ['c'] ['a']).resume s).Exec h t :=
  Trace.LTS.exec_of_foldlM (L := (system Unit ['c'] ['a']).resume s)
    (fun _ _ _ => step_of_next) rfl hr

/-- The second of two connections, the first having been lost. -/
theorem one_connection_again : ∃ s : ClientLife Unit,
    (system Unit ['c'] ['a']).Exec TCPClient.reconnects s ∧ s.client.connection = some 2 ∧
      Served TCPClient.reconnects s := by
  have hr : (runs idle TCPClient.reconnects).map (fun s => s.client.connection) =
      some (some 2) := by
    decide +kernel
  obtain ⟨s, hs, hconn⟩ := Option.map_eq_some_iff.mp hr
  exact ⟨s, exec_of_runs hs, hconn, one_connection (exec_of_runs hs)⟩

/-- While the connector is at it, `disconnect` does not keep the connection from being made. -/
theorem disconnect_while_connecting : ∃ s t : ClientLife Unit,
    (system Unit ['c'] ['a']).Exec
      [.connect .loop, .connector (.startHere ⟨5, .EINPROGRESS⟩), .disconnect] s ∧
      ((system Unit ['c'] ['a']).resume s).Exec
        [.connector (.move .poll), .connector (.handleEvent POLLOUT 0 false)] t ∧
      s.client.connect = false ∧ s.client.created = 0 ∧ t.client.created = 1 := by
  have hr : ((runs idle
      [.connect .loop, .connector (.startHere ⟨5, .EINPROGRESS⟩), .disconnect]).bind fun s =>
      (runs s [.connector (.move .poll), .connector (.handleEvent POLLOUT 0 false)]).map fun t =>
        (s.client.connect, s.client.created, t.client.created)) = some (false, 0, 1) := by
    decide +kernel
  obtain ⟨s, hs, hr⟩ := Option.bind_eq_some_iff.mp hr
  obtain ⟨t, ht, hr⟩ := Option.map_eq_some_iff.mp hr
  simp only [Prod.mk.injEq] at hr
  obtain ⟨hcon, hzero, hone⟩ := hr
  exact ⟨s, t, exec_of_runs hs, resume_of_runs ht, hcon, hzero, hone⟩

end ClientLife

end Lute
