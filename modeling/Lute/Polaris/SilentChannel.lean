import Lute.Polaris.BufferSafety
import Lute.Polaris.OutputStream
import Lute.Polaris.PollerBookkeeping

/-! The channel of a connection after `handleClose`: whether it stays out of the poller. -/
namespace Lute

open EPollPoller (Request Op)

variable {P : Type}

/-- A connection whose channel is the object at `p` in the poller of its loop. `todo` are the
handlers of the current dispatch that are still to be called. -/
structure PolledConnection (P : Type) where
  conn : TCPConnection
  poller : EPollPoller P
  todo : List Handler

namespace PolledConnection

/-- What is executed on the connection: public calls, functors and handlers. -/
inductive Call
  | connectEstablished
  | send (isInLoopThread : Bool) (message : Bytes) (result : WriteResult)
  | sendInLoop (message : Bytes) (result : WriteResult)
  | shutdown
  | shutdownInLoop
  | forceClose
  | forceCloseWithDelay
  | forceCloseInLoop
  | startReadInLoop
  | stopReadInLoop
  | handleClose
  | handleError
  | handleRead (result : ReadResult)
  | handleWrite (result : WriteResult)
  deriving DecidableEq, Repr

def act (c : TCPConnection) : Call → TCPConnection
  | .connectEstablished => c.connectEstablished.1
  | .send isInLoopThread message result => (c.send isInLoopThread message result).1
  | .sendInLoop message result => (c.sendInLoop message result).1
  | .shutdown => c.shutdown.1
  | .shutdownInLoop => c
  | .forceClose => c.forceClose.1
  | .forceCloseWithDelay => c.forceCloseWithDelay.1
  | .forceCloseInLoop => c.forceCloseInLoop.1
  | .startReadInLoop => c.startReadInLoop
  | .stopReadInLoop => c.stopReadInLoop
  | .handleClose => c.handleClose.1
  | .handleError => c
  | .handleRead result => (c.handleRead result).1
  | .handleWrite result => (c.handleWrite result).1

/-- The call runs `handleClose`. -/
def Closes (c : TCPConnection) : Call → Bool
  | .handleClose | .handleRead .eof => true
  | .forceCloseInLoop => c.state = .kConnected ∨ c.state = .kDisconnecting
  | _ => false

/-- The request of the calls that neither close nor start or stop reading: `enableWriting` is called
with write interest off only, and `disableWriting` with it on. -/
def asksToWrite (c c' : TCPConnection) : Option Request :=
  if !c.channel.isWriting && c'.channel.isWriting then some .enableWriting
  else if c.channel.isWriting && !c'.channel.isWriting then some .disableWriting
  else none

/-- The one request to the channel that a call makes, each of which ends in `Channel::update`. -/
def asks (c : TCPConnection) (x : Call) : Option Request :=
  match x with
  | .connectEstablished => some .enableReading
  | .startReadInLoop =>
    if !c.reading || !c.channel.isReading then some .enableReading else none
  | .stopReadInLoop =>
    if c.reading || c.channel.isReading then some .disableReading else none
  | x => if Closes c x then some .disableAll else asksToWrite c (act c x)

/-- The handler that a callback of the channel is bound to. -/
inductive Handles : Handler → Call → Prop
  | close : Handles .close .handleClose
  | error : Handles .error .handleError
  | read {result : ReadResult} : Handles .read (.handleRead result)
  | write {result : WriteResult} : Handles .write (.handleWrite result)

def Call.isHandler : Call → Bool
  | .handleClose | .handleError | .handleRead _ | .handleWrite _ => true
  | _ => false

/-- Does the operation concern the channel at `p`? -/
def Concerns (p : P) : Op P → Prop
  | .create q _ | .request q _ | .remove q => q = p
  | .poll _ => True

variable [DecidableEq P] (p : P)

/-- What the poller makes of a request, if there is one. -/
def Updates (s : EPollPoller P) : Option Request → EPollPoller P → Prop
  | none, t => t = s
  | some r, t => s.Allowed (.request p r) ∧ s.exec (.request p r) = .ok t

/-- The handlers that `handleEvent` calls for what was polled. -/
def dispatched (events : List (BitVec 32 × P)) : List Handler :=
  (events.filter (·.2 = p)).flatMap (Channel.handleEventWithGuard ·.1)

inductive Label (P : Type)
  | call (x : Call)
  | poll (events : List (BitVec 32 × P))
  | other (op : Op P)

/-- Other channels of the loop may do what they like. A functor that is always queued runs when the
dispatch is over. -/
inductive Step : PolledConnection P → Label P → PolledConnection P → Prop
  | call {s : PolledConnection P} {x : Call} {poller : EPollPoller P} (hx : x.isHandler = false)
      (hq : x = .forceCloseInLoop → s.todo = [])
      (hest : x = .connectEstablished ↔ s.conn.state = .kConnecting)
      (hp : Updates p s.poller (asks s.conn x) poller) :
      Step s (.call x) { s with conn := act s.conn x, poller }
  | handle {s : PolledConnection P} {f : Handler} {todo : List Handler} {x : Call}
      {poller : EPollPoller P} (htodo : s.todo = f :: todo) (hx : Handles f x)
      (hp : Updates p s.poller (asks s.conn x) poller) :
      Step s (.call x) ⟨act s.conn x, poller, todo⟩
  | poll {s : PolledConnection P} {events : List (BitVec 32 × P)} {poller : EPollPoller P}
      (htodo : s.todo = []) (hr : s.poller.CanReturn events)
      (hp : s.poller.exec (.poll events) = .ok poller) :
      Step s (.poll events) { s with poller, todo := dispatched p events }
  | other {s : PolledConnection P} {op : Op P} {poller : EPollPoller P} (hop : ¬ Concerns p op)
      (ha : s.poller.Allowed op) (hp : s.poller.exec op = .ok poller) :
      Step s (.other op) { s with poller }

/-- As the constructor leaves it, with the books of the poller in order. -/
def system : Trace.LTS (PolledConnection P) (Label P) where
  init s := (∃ w hw, s.conn = .new w hw) ∧ s.poller.Consistent ∧ s.todo = [] ∧
    (s.poller.channelAt p).channel = .new ∧ (s.poller.channelAt p).index = .kNew
  step := Step p

/-- After the close nobody starts to read or stops a reading still recorded; and the close is the
first, of a channel that has some interest left. -/
def Quiet (s : PolledConnection P) : Label P → Prop
  | .call .startReadInLoop => s.conn.state ≠ .kDisconnected
  | .call .stopReadInLoop => s.conn.state = .kDisconnected → s.conn.reading = false
  | .call x => Closes s.conn x = true →
      s.conn.state ≠ .kDisconnected ∧ s.conn.channel.isNoneEvent = false
  | _ => True

variable {p} {s t : PolledConnection P} {c : TCPConnection} {x : Call} {r : Request}
  {q q' : EPollPoller P}

/-- What a call can do to the channel, and what it asks for. -/
inductive Outcome (c : TCPConnection) (x : Call) : Prop
  | closes (hx : Closes c x = true) (hask : asks c x = some .disableAll)
      (hact : act c x = { c with state := .kDisconnected, channel := c.channel.disableAll })
  | starts (hx : x = .startReadInLoop) (hask : asks c x = some .enableReading)
      (hact : act c x = { c with channel := c.channel.enableReading, reading := true })
  | stops (hx : x = .stopReadInLoop) (hask : asks c x = some .disableReading)
      (hact : act c x = { c with channel := c.channel.disableReading, reading := false })
      (hr : c.reading = true ∨ c.channel.isReading = true)
  | writes (hask : asks c x = some .enableWriting) (hw : c.channel.isWriting = false)
      (hst : (act c x).state = c.state) (hopen : c.state ≠ .kDisconnected)
      (hch : (act c x).channel = c.channel.enableWriting) (hr : (act c x).reading = c.reading)
  | drains (hask : asks c x = some .disableWriting) (hw : c.channel.isWriting = true)
      (hst : (act c x).state = c.state)
      (hch : (act c x).channel = c.channel.disableWriting) (hr : (act c x).reading = c.reading)
  | stays (hx : Closes c x = false) (hask : asks c x = none) (hch : (act c x).channel = c.channel)
      (hr : (act c x).reading = c.reading)
      (hst : (act c x).state = c.state ∨ c.state ≠ .kDisconnected ∧ c.state ≠ .kConnecting ∧
        (act c x).state = .kDisconnecting)

theorem enqueue_channel (c : TCPConnection) (message : Bytes) (n : Nat) :
    (c.enqueue message n).1.reading = c.reading ∧ (c.enqueue message n).1.state = c.state ∧
      ((c.enqueue message n).1.channel = c.channel ∨ c.channel.isWriting = false ∧
        (c.enqueue message n).1.channel = c.channel.enableWriting) := by
  unfold TCPConnection.enqueue
  dsimp only
  by_cases hpos : 0 < message.length - n
  · rw [if_pos hpos]
    cases hw : c.channel.isWriting with
    | false => exact ⟨rfl, rfl, .inr ⟨rfl, rfl⟩⟩
    | true => exact ⟨rfl, rfl, .inl rfl⟩
  · rw [if_neg hpos]
    exact ⟨rfl, rfl, .inl rfl⟩

theorem sendInLoop_channel (c : TCPConnection) (message : Bytes) (result : WriteResult) :
    (c.sendInLoop message result).1.reading = c.reading ∧
      (c.sendInLoop message result).1.state = c.state ∧
      ((c.sendInLoop message result).1.channel = c.channel ∨ c.state ≠ .kDisconnected ∧
        c.channel.isWriting = false ∧
        (c.sendInLoop message result).1.channel = c.channel.enableWriting) := by
  rcases c.sendInLoop_enqueue message result with ⟨es, heq, -⟩ | ⟨hst, n, es, heq, -⟩
  · rw [heq]
    exact ⟨rfl, rfl, .inl rfl⟩
  · obtain ⟨hr, hst', hch⟩ := enqueue_channel c message n
    rw [heq]
    exact ⟨hr, hst', hch.imp_right fun h => ⟨hst, h⟩⟩

theorem send_channel (c : TCPConnection) (inLoop : Bool) (message : Bytes) (result : WriteResult) :
    (c.send inLoop message result).1.reading = c.reading ∧
      (c.send inLoop message result).1.state = c.state ∧
      ((c.send inLoop message result).1.channel = c.channel ∨ c.state ≠ .kDisconnected ∧
        c.channel.isWriting = false ∧
        (c.send inLoop message result).1.channel = c.channel.enableWriting) := by
  unfold TCPConnection.send
  split_ifs
  · exact sendInLoop_channel c message result
  · exact ⟨rfl, rfl, .inl rfl⟩
  · exact ⟨rfl, rfl, .inl rfl⟩

theorem handleWrite_channel (c : TCPConnection) (result : WriteResult) :
    (c.handleWrite result).1.reading = c.reading ∧ (c.handleWrite result).1.state = c.state ∧
      ((c.handleWrite result).1.channel = c.channel ∨ c.channel.isWriting = true ∧
        (c.handleWrite result).1.channel = c.channel.disableWriting) := by
  rcases hd : c.drain result with ⟨c', es, drained⟩
  simp only [TCPConnection.handleWrite, hd]
  rcases TCPConnection.drain_cases hd with ⟨-, rfl, -⟩ | ⟨-, -, -, h⟩ |
    ⟨hw, -, n, qs, -, -, -, -, -, rfl⟩
  · exact ⟨rfl, rfl, .inl rfl⟩
  · rcases h with ⟨n, -, -, rfl⟩ | ⟨errno, -, rfl⟩ | ⟨-, rfl⟩ <;> exact ⟨rfl, rfl, .inl rfl⟩
  · exact ⟨rfl, rfl, .inr ⟨hw, rfl⟩⟩

theorem outcome_of_writing (hx : Closes c x = false) (hask : asks c x = asksToWrite c (act c x))
    (hr : (act c x).reading = c.reading) (hst : (act c x).state = c.state)
    (hch : (act c x).channel = c.channel ∨
      (c.state ≠ .kDisconnected ∧ c.channel.isWriting = false ∧
        (act c x).channel = c.channel.enableWriting) ∨
      c.channel.isWriting = true ∧ (act c x).channel = c.channel.disableWriting) :
    Outcome c x := by
  rcases hch with hch | ⟨hopen, hw, hch⟩ | ⟨hw, hch⟩
  · exact .stays hx (by simpa [asksToWrite, hch] using hask) hch hr (.inl hst)
  · exact .writes (by simpa [asksToWrite, hch, hw] using hask) hw hst hopen hch hr
  · exact .drains (by simpa [asksToWrite, hch, hw] using hask) hw hst hch hr

/-- The calls that leave the channel alone. -/
theorem outcome_of_same (hx : Closes c x = false) (hask : asks c x = asksToWrite c (act c x))
    (hact : (act c x).channel = c.channel ∧ (act c x).reading = c.reading ∧
      ((act c x).state = c.state ∨ c.state ≠ .kDisconnected ∧ c.state ≠ .kConnecting ∧
        (act c x).state = .kDisconnecting)) : Outcome c x :=
  .stays hx (by simpa [asksToWrite, hact.1] using hask) hact.1 hact.2.1 hact.2.2

theorem live_of_closing {state : StateE} (hst : c.state = .kConnected ∨ c.state = .kDisconnecting)
    (hs : state = .kDisconnecting) :
    c.state ≠ .kDisconnected ∧ c.state ≠ .kConnecting ∧ state = .kDisconnecting := by
  rcases hst with hst | hst <;> simp [hst, hs]

theorem outcome (c : TCPConnection) (hx : x ≠ .connectEstablished) : Outcome c x := by
  cases x with
  | connectEstablished => exact absurd rfl hx
  | send inLoop message result =>
    obtain ⟨hr, hst, hch⟩ := send_channel c inLoop message result
    exact outcome_of_writing rfl rfl hr hst (hch.imp_right .inl)
  | sendInLoop message result =>
    obtain ⟨hr, hst, hch⟩ := sendInLoop_channel c message result
    exact outcome_of_writing rfl rfl hr hst (hch.imp_right .inl)
  | handleWrite result =>
    obtain ⟨hr, hst, hch⟩ := handleWrite_channel c result
    exact outcome_of_writing rfl rfl hr hst (hch.imp_right .inr)
  | shutdown =>
    refine outcome_of_same rfl rfl ?_
    simp only [act, TCPConnection.shutdown]
    split_ifs with hst
    · exact ⟨rfl, rfl, .inr (live_of_closing (.inl hst) rfl)⟩
    · exact ⟨rfl, rfl, .inl rfl⟩
  | forceClose =>
    refine outcome_of_same rfl rfl ?_
    simp only [act, TCPConnection.forceClose]
    split_ifs with hst
    · exact ⟨rfl, rfl, .inr (live_of_closing hst rfl)⟩
    · exact ⟨rfl, rfl, .inl rfl⟩
  | forceCloseWithDelay =>
    refine outcome_of_same rfl rfl ?_
    simp only [act, TCPConnection.forceCloseWithDelay]
    split_ifs with hst
    · exact ⟨rfl, rfl, .inr (live_of_closing hst rfl)⟩
    · exact ⟨rfl, rfl, .inl rfl⟩
  | forceCloseInLoop =>
    by_cases hst : c.state = .kConnected ∨ c.state = .kDisconnecting
    · have hx : Closes c .forceCloseInLoop = true := by simpa [Closes] using hst
      refine .closes hx (by simp [asks, hx]) ?_
      simp only [act, TCPConnection.forceCloseInLoop, if_pos hst, TCPConnection.handleClose]
    · have hx : Closes c .forceCloseInLoop = false := by simpa [Closes] using hst
      refine outcome_of_same hx (by simp [asks, hx]) ?_
      simp only [act, TCPConnection.forceCloseInLoop, if_neg hst]
      exact ⟨trivial, trivial, .inl trivial⟩
  | startReadInLoop =>
    by_cases hr : (!c.reading || !c.channel.isReading) = true
    · refine .starts rfl (if_pos hr) ?_
      simp only [act, TCPConnection.startReadInLoop, if_pos hr]
    · refine .stays rfl (if_neg hr) ?_ ?_ (.inl ?_) <;>
        simp only [act, TCPConnection.startReadInLoop, if_neg hr]
  | stopReadInLoop =>
    by_cases hr : (c.reading || c.channel.isReading) = true
    · refine .stops rfl (if_pos hr) ?_ (by simpa using hr)
      simp only [act, TCPConnection.stopReadInLoop, if_pos hr]
    · refine .stays rfl (if_neg hr) ?_ ?_ (.inl ?_) <;>
        simp only [act, TCPConnection.stopReadInLoop, if_neg hr]
  | handleClose => exact .closes rfl rfl rfl
  | shutdownInLoop | handleError => exact outcome_of_same rfl rfl ⟨rfl, rfl, .inl rfl⟩
  | handleRead result =>
    cases result with
    | eof => exact .closes rfl rfl rfl
    | data | failed => exact outcome_of_same rfl rfl ⟨rfl, rfl, .inl rfl⟩

/-- A request on a registered channel, or on one whose fd no other channel has. -/
theorem updates_some (hc : q.Consistent) (hp : Updates p q (some r) q') :
    q' = q.place p (EPollPoller.requested (q.channelAt p) r.apply) ∧ q'.Consistent := by
  obtain ⟨ha, he⟩ := hp
  obtain ⟨heq, hplace⟩ := EPollPoller.request_ok hc ha
  obtain rfl := Except.ok.inj (he.symm.trans heq)
  exact ⟨rfl, hplace⟩

omit [DecidableEq P] in
/-- An event comes from an entry of the interest list. -/
theorem unheard_of_index {events : List (BitVec 32 × P)} (hc : q.Consistent)
    (hi : (q.channelAt p).index ≠ .kAdded) (hr : q.CanReturn events) : ∀ e ∈ events, e.2 ≠ p := by
  rintro e he rfl
  obtain ⟨fd, i, hk, hptr, -⟩ := hr.2 e he
  obtain ⟨p', -, hadded, rfl⟩ := (hc.kernel fd i).mp hk
  exact hi (hptr ▸ hadded)

/-- The channel is in the interest list exactly while there is something it waits for. -/
structure Inv (p : P) (s : PolledConnection P) : Prop where
  consistent : s.poller.Consistent
  channel : (s.poller.channelAt p).channel = s.conn.channel
  fresh : s.conn.state = .kConnecting → (s.poller.channelAt p).index = .kNew ∧ s.todo = [] ∧
    s.conn.reading = false
  index : s.conn.state ≠ .kConnecting → (s.poller.channelAt p).index =
    if s.conn.channel.isNoneEvent then .kDeleted else .kAdded
  reading : s.conn.state ≠ .kDisconnected → s.conn.reading = true →
    s.conn.channel.isReading = true
  closed : s.conn.state = .kDisconnected → s.conn.channel.isNoneEvent = true

/-- What a request makes of the poller's view of the channel. -/
theorem inv_request {todo : List Handler} (hi : Inv p s) (hp : Updates p s.poller (some r) q)
    (hch : c.channel = r.apply s.conn.channel) (hst : c.state ≠ .kConnecting)
    (hadd : s.conn.channel.isNoneEvent = true ∨ s.conn.state = .kConnecting →
      c.channel.isNoneEvent = false)
    (hr : c.state ≠ .kDisconnected → c.reading = true → c.channel.isReading = true)
    (hclosed : c.state = .kDisconnected → c.channel.isNoneEvent = true) :
    Inv p ⟨c, q, todo⟩ := by
  obtain ⟨rfl, hcons⟩ := updates_some hi.consistent hp
  refine ⟨hcons, ?_, fun h => absurd h hst, fun _ => ?_, hr, hclosed⟩
  · simp [EPollPoller.requested, hi.channel, hch]
  · rw [EPollPoller.place_self]
    dsimp only [EPollPoller.requested]
    rw [hi.channel, ← hch]
    cases hnone : c.channel.isNoneEvent with
    | false => simp
    | true =>
      have hnot := mt hadd (by simp [hnone])
      rw [not_or] at hnot
      have hindex : (s.poller.channelAt p).index = .kAdded := by
        rw [hi.index hnot.2, if_neg hnot.1]
      simp [hindex]

omit [DecidableEq P] in
/-- A step that the channel does not take part in. -/
theorem inv_stays {todo : List Handler} (hi : Inv p s) (hst : s.conn.state ≠ .kConnecting)
    (hch : c.channel = s.conn.channel) (hr : c.reading = s.conn.reading)
    (hst' : c.state = s.conn.state ∨ s.conn.state ≠ .kDisconnected ∧ c.state = .kDisconnecting) :
    Inv p ⟨c, s.poller, todo⟩ := by
  have hconn : c.state ≠ .kConnecting := by
    rcases hst' with h | h <;> simp [h, hst]
  have hclosed : c.state = .kDisconnected ↔ s.conn.state = .kDisconnected := by
    rcases hst' with h | h
    · rw [h]
    · simp [h]
  refine ⟨hi.consistent, hi.channel.trans hch.symm, fun h => absurd h hconn, fun _ => ?_, ?_, ?_⟩
  · rw [hch]
    exact hi.index hst
  · rw [hch, hr]
    exact fun h => hi.reading (mt hclosed.mpr h)
  · rw [hch]
    exact fun h => hi.closed (hclosed.mp h)

omit [DecidableEq P] in
theorem quiet_closes (hq : Quiet s (.call x)) (hx : Closes s.conn x = true) :
    s.conn.state ≠ .kDisconnected ∧ s.conn.channel.isNoneEvent = false := by
  cases x with
  | startReadInLoop | stopReadInLoop => cases hx
  | _ => exact hq hx

/-- A call on an established connection. -/
theorem inv_act {todo : List Handler} (hi : Inv p s) (hst : s.conn.state ≠ .kConnecting)
    (hx : x ≠ .connectEstablished) (hq : Quiet s (.call x))
    (hp : Updates p s.poller (asks s.conn x) q) : Inv p ⟨act s.conn x, q, todo⟩ := by
  have hnever : s.conn.channel.isNoneEvent = false →
      ¬ (s.conn.channel.isNoneEvent = true ∨ s.conn.state = .kConnecting) := by
    rintro hnone (h | h)
    · simp [hnone] at h
    · exact hst h
  cases outcome s.conn hx with
  | closes hx hask hact =>
    rw [hask] at hp
    rw [hact]
    obtain ⟨-, hsome⟩ := quiet_closes hq hx
    exact inv_request hi hp rfl (by simp) (fun h => absurd h (hnever hsome)) (by simp) (by simp)
  | starts hx hask hact =>
    subst hx
    rw [hask] at hp
    rw [hact]
    exact inv_request hi hp rfl hst (fun _ => Channel.isNoneEvent_enableReading _) (by simp)
      fun h => absurd h hq
  | stops hx hask hact hr =>
    subst hx
    rw [hask] at hp
    rw [hact]
    have hopen : s.conn.state ≠ .kDisconnected := by
      intro hd
      rcases hr with hr | hr
      · simp [hq hd] at hr
      · have hnone := hi.closed hd
        simp [s.conn.channel.isNoneEvent_of_isReading hr] at hnone
    have hreading : s.conn.channel.isReading = true := hr.elim (hi.reading hopen) id
    have hsome := s.conn.channel.isNoneEvent_of_isReading hreading
    exact inv_request hi hp rfl hst (fun h => absurd h (hnever hsome)) (by simp)
      fun h => absurd h hopen
  | writes hask hw hst' hopen hch hr =>
    rw [hask] at hp
    have hwriting : (act s.conn x).channel.isWriting = true := by simp [hch]
    refine inv_request hi hp hch (hst' ▸ hst)
      (fun _ => Channel.isNoneEvent_of_isWriting _ hwriting) ?_ ?_
    · rw [hst', hr, hch, Channel.isReading_enableWriting]
      exact hi.reading
    · rw [hst']
      exact fun h => absurd h hopen
  | drains hask hw hst' hch hr =>
    rw [hask] at hp
    have hsome := Channel.isNoneEvent_of_isWriting _ hw
    refine inv_request hi hp hch (hst' ▸ hst) (fun h => absurd h (hnever hsome)) ?_ ?_
    · rw [hst', hr, hch, Channel.isReading_disableWriting]
      exact hi.reading
    · rw [hst']
      exact fun h => absurd (hi.closed h) (by simp [hsome])
  | stays hx hask hch hr hst' =>
    rw [hask] at hp
    obtain rfl : q = s.poller := hp
    exact inv_stays hi hst hch hr (hst'.imp_right fun h => ⟨h.1, h.2.2⟩)

theorem inv_connectEstablished (hi : Inv p s) (hst : s.conn.state = .kConnecting)
    (hp : Updates p s.poller (asks s.conn .connectEstablished) q) :
    Inv p { s with conn := act s.conn .connectEstablished, poller := q } := by
  obtain ⟨-, -, hr⟩ := hi.fresh hst
  refine inv_request hi hp rfl (by simp [act, TCPConnection.connectEstablished])
    (fun _ => Channel.isNoneEvent_enableReading _) (fun _ h => ?_) (fun h => ?_)
  · simp [act, TCPConnection.connectEstablished, hr] at h
  · cases h

/-- What the object at `p` has in common before and after. -/
def SameChannel (p : P) (q q' : EPollPoller P) : Prop :=
  (q'.channelAt p).channel = (q.channelAt p).channel ∧
    (q'.channelAt p).index = (q.channelAt p).index

theorem fillActiveChannel_keeps {e : BitVec 32 × P} (he : q.fillActiveChannel e = .ok q') :
    SameChannel p q q' := by
  obtain ⟨-, -, he⟩ := bind_ok he
  obtain ⟨-, -, he⟩ := bind_ok he
  obtain rfl := Except.ok.inj he
  by_cases hp : p = e.2
  · simp [SameChannel, EPollPoller.setChannel, hp]
  · simp [SameChannel, EPollPoller.setChannel, hp]

theorem fill_keeps {events : List (BitVec 32 × P)}
    (he : events.foldlM EPollPoller.fillActiveChannel q = .ok q') : SameChannel p q q' := by
  induction events generalizing q with
  | nil =>
    obtain rfl := Except.ok.inj he
    exact ⟨rfl, rfl⟩
  | cons e events ih =>
    obtain ⟨u, hu, he⟩ := bind_ok he
    obtain ⟨hch, hindex⟩ := fillActiveChannel_keeps (p := p) hu
    obtain ⟨hch', hindex'⟩ := ih he
    exact ⟨hch'.trans hch, hindex'.trans hindex⟩

theorem poll_keeps {events : List (BitVec 32 × P)} (he : q.exec (.poll events) = .ok q') :
    SameChannel p q q' := by
  obtain ⟨⟨u, active⟩, hu, he⟩ := bind_ok he
  obtain rfl := Except.ok.inj he
  unfold EPollPoller.poll at hu
  split_ifs at hu with hne
  · obtain ⟨rfl, -⟩ := Prod.mk.inj (Except.ok.inj hu)
    exact ⟨rfl, rfl⟩
  · obtain ⟨⟨v, active'⟩, hv, hu⟩ := bind_ok hu
    obtain ⟨rfl, -⟩ := Prod.mk.inj (Except.ok.inj hu)
    obtain ⟨-, -, hv⟩ := bind_ok hv
    obtain ⟨w, hw, hv⟩ := bind_ok hv
    obtain ⟨rfl, -⟩ := Prod.mk.inj (Except.ok.inj hv)
    obtain ⟨hch, hindex⟩ := fill_keeps (p := p) hw
    exact ⟨hch, hindex⟩

theorem other_keeps {op : Op P} (hc : q.Consistent) (hop : ¬ Concerns p op) (ha : q.Allowed op)
    (he : q.exec op = .ok q') : SameChannel p q q' := by
  cases op with
  | create p' fd =>
    obtain rfl := Except.ok.inj he
    simp [SameChannel, EPollPoller.setChannel, Ne.symm hop]
  | request p' r =>
    obtain ⟨rfl, -⟩ := updates_some (p := p') (r := r) hc ⟨ha, he⟩
    simp [SameChannel, EPollPoller.place_ne _ (Ne.symm hop)]
  | remove p' =>
    have heq := EPollPoller.remove_eq hc ha.1 (EPollPoller.registered_iff.mpr ha.2)
    obtain rfl := Except.ok.inj (he.symm.trans heq)
    simp [SameChannel, EPollPoller.place_ne _ (Ne.symm hop)]
  | poll => exact absurd trivial hop

omit [DecidableEq P] in
/-- The poller is at work for other channels, or fetches events. -/
theorem inv_poller {todo : List Handler} (hi : Inv p s) (hc : q.Consistent)
    (hsame : SameChannel p s.poller q) (htodo : s.conn.state = .kConnecting → todo = []) :
    Inv p ⟨s.conn, q, todo⟩ := by
  obtain ⟨hch, hindex⟩ := hsame
  refine ⟨hc, hch.trans hi.channel, fun h => ?_, fun h => hindex.trans (hi.index h), hi.reading,
    hi.closed⟩
  obtain ⟨hnew, -, hr⟩ := hi.fresh h
  exact ⟨hindex.trans hnew, htodo h, hr⟩

theorem inv_step {a : Label P} (hi : Inv p s) (hs : Step p s a t) (hq : Quiet s a) : Inv p t := by
  cases hs with
  | @call x q hx hfun hest hp =>
    by_cases hst : s.conn.state = .kConnecting
    · obtain rfl := hest.mpr hst
      exact inv_connectEstablished hi hst hp
    · exact inv_act hi hst (mt hest.mp hst) hq hp
  | @handle f todo x q htodo hx hp =>
    have hst : s.conn.state ≠ .kConnecting := by
      intro h
      simp [(hi.fresh h).2.1] at htodo
    have hne : x ≠ .connectEstablished := by cases hx <;> simp
    exact inv_act hi hst hne hq hp
  | @poll events q htodo hr hp =>
    obtain ⟨u, hu, hc⟩ := @EPollPoller.exec_ok P _ _ (.poll events) hi.consistent hr
    obtain rfl := Except.ok.inj (hp.symm.trans hu)
    refine inv_poller hi hc (poll_keeps hp) fun h => ?_
    have hnew : (s.poller.channelAt p).index ≠ .kAdded := by simp [(hi.fresh h).1]
    have hunheard := unheard_of_index hi.consistent hnew hr
    have hnil : events.filter (·.2 = p) = [] := by simpa using hunheard
    simp [dispatched, hnil]
  | @other op q hop ha hp =>
    obtain ⟨u, hu, hc⟩ := EPollPoller.exec_ok hi.consistent ha
    obtain rfl := Except.ok.inj (hp.symm.trans hu)
    exact inv_poller hi hc (other_keeps hi.consistent hop ha hp) fun h => (hi.fresh h).2.1

theorem inv_start (hi : (system p).init s) : Inv p s := by
  obtain ⟨⟨w, hw, hconn⟩, hc, htodo, hch, hindex⟩ := hi
  refine ⟨hc, by rw [hch, hconn]; rfl, fun _ => ⟨hindex, htodo, by rw [hconn]; rfl⟩,
    fun h => absurd (by rw [hconn]; rfl) h, fun _ h => ?_, fun h => ?_⟩
  · rw [hconn] at h
    cases h
  · rw [hconn] at h
    cases h

theorem inv_exec {h : List (Label P)} (he : ((system p).restrict Quiet).Exec h s) : Inv p s := by
  induction he with
  | start hi => exact inv_start hi
  | snoc _ hs ih => exact inv_step ih hs.2 hs.1

/-- A new connection, alone on its loop. -/
def accepted : PolledConnection Unit where
  conn := .new false false
  poller := ⟨fun _ => ⟨5, .new, 0, .kNew⟩, fun _ => none, fun _ => none,
    EPollPoller.kInitEventListSize, []⟩
  todo := []

theorem allowed_alone (s : EPollPoller Unit) (r : Request) : s.Allowed (.request () r) :=
  fun _ _ hne => absurd rfl hne

end PolledConnection

end Lute
