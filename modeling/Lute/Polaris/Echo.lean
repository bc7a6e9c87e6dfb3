import Mathlib.Data.List.Rotate
import Lute.Polaris.WriteInterest

/-! An echo server and an echo client that talk to each other: what goes round between them. -/
namespace Lute

open TCPConnection (Effect acceptedOf)

/-- What a message callback does with its connection and its loop. -/
inductive EchoAct
  | send (message : Bytes)
  | shutdown
  | quit
  deriving DecidableEq, Repr

namespace EchoServer

def greeting : Bytes := ascii "Hello\n"

def onMessage (msg : Bytes) : List EchoAct :=
  (if msg = ascii "exit\n" then [.send (ascii "bye\n"), .shutdown] else []) ++
    (if msg = ascii "quit\n" then [.quit] else []) ++ [.send msg]

end EchoServer

namespace EchoClient

def greeting : Bytes := ascii "world \n"

def onMessage (msg : Bytes) : List EchoAct :=
  if msg = ascii "quit\n" then [.send (ascii "bye\n"), .shutdown]
  else if msg = ascii "shutdown\n" then [.quit]
  else [.send msg]

end EchoClient

namespace EchoPair

inductive Party
  | server
  | client
  deriving DecidableEq, Repr

def Party.other : Party → Party
  | .server => .client
  | .client => .server

/-- What `onConnection` sends. -/
def greeting : Party → Bytes
  | .server => EchoServer.greeting
  | .client => EchoClient.greeting

def onMessage : Party → Bytes → List EchoAct
  | .server => EchoServer.onMessage
  | .client => EchoClient.onMessage

end EchoPair

open EchoPair (Party)

/-- `inbound p` is what the kernels hold on its way to `p`. -/
structure EchoPair where
  conn : Party → TCPConnection
  inbound : Party → Bytes

namespace EchoPair

/-- An act of a callback, run in the loop thread; `kernel` answers the direct writes. -/
def act (kernel : Bytes → WriteResult) (c : TCPConnection) :
    EchoAct → TCPConnection × List Effect
  | .send message => c.send true message (kernel message)
  | .shutdown =>
    if c.state = .kConnected then (c.shutdown.1, c.shutdown.1.shutdownInLoop) else (c, [])
  | .quit => (c, [])

def actAll (kernel : Bytes → WriteResult) :
    TCPConnection → List EchoAct → TCPConnection × List Effect
  | c, [] => (c, [])
  | c, a :: as =>
    let (c', es) := act kernel c a
    let (c'', es') := actAll kernel c' as
    (c'', es ++ es')

/-- A party's connection comes up, gets the bytes `chunk`, or can be written to. -/
inductive Label
  | establish (p : Party) (kernel : Bytes → WriteResult)
  | read (p : Party) (chunk : Bytes) (kernel : Bytes → WriteResult)
  | write (p : Party) (result : WriteResult)

/-- What follows a handler of `p`: the bytes its kernel took are on their way. Neither connection
is reset. -/
def deliver (s : EchoPair) (p : Party) (r : TCPConnection × List Effect) : Option EchoPair :=
  if ∀ e ∈ r.2, e.possible ∧ e.faulted = false then
    some {
      conn := Function.update s.conn p r.1
      inbound := Function.update s.inbound p.other (s.inbound p.other ++ acceptedOf r.2) }
  else none

def established (c : TCPConnection) (greeting : Bytes) (kernel : Bytes → WriteResult) :
    TCPConnection × List Effect :=
  c.connectEstablished.1.send true greeting (kernel greeting)

/-- The message callback takes all there is. -/
def received (c : TCPConnection) (chunk : Bytes) (onMessage : Bytes → List EchoAct)
    (kernel : Bytes → WriteResult) : TCPConnection × List Effect :=
  let c := (c.handleRead (.data chunk)).1
  actAll kernel { c with inputBuffer := [] } (onMessage c.inputBuffer)

/-- An event comes only for what the channel is interested in. -/
def next (s : EchoPair) : Label → Option EchoPair
  | .establish p kernel =>
    if (s.conn p).state = .kConnecting then
      s.deliver p (established (s.conn p) (greeting p) kernel)
    else none
  | .read p chunk kernel =>
    if (s.conn p).channel.isReading = true ∧ chunk ≠ [] ∧ chunk <+: s.inbound p then
      { s with inbound := Function.update s.inbound p ((s.inbound p).drop chunk.length) }.deliver p
        (received (s.conn p) chunk (onMessage p) kernel)
    else none
  | .write p result =>
    if (s.conn p).channel.isWriting = true then s.deliver p ((s.conn p).handleWrite result)
    else none

/-- Two new connections, with the default callbacks and nothing between them. -/
def start : EchoPair := ⟨fun _ => .new false false, fun _ => []⟩

def system : Trace.LTS EchoPair Label where
  init s := s = start
  step s a t := s.next a = some t

/-- What is on its way from `p` to the other party. -/
def onward (s : EchoPair) (p : Party) : Bytes := s.inbound p.other ++ (s.conn p).outputBuffer

/-- All there is, in the order in which it goes round. -/
def ring (s : EchoPair) : Bytes := s.onward .client ++ s.onward .server

end EchoPair

namespace TCPConnection

variable {c c' : TCPConnection} {es : List Effect}

theorem sendInLoop_frame (c : TCPConnection) (message : Bytes) (result : WriteResult) :
    (c.sendInLoop message result).1.inputBuffer = c.inputBuffer ∧
      (c.sendInLoop message result).1.channel.isReading = c.channel.isReading := by
  rcases c.sendInLoop_enqueue message result with ⟨es, heq, -⟩ | ⟨-, n, es, heq, -⟩
  · rw [heq]
    exact ⟨rfl, rfl⟩
  · rw [heq]
    unfold enqueue
    dsimp only
    split_ifs <;> simp

theorem handleWrite_frame (c : TCPConnection) (result : WriteResult) :
    (c.handleWrite result).1.inputBuffer = c.inputBuffer ∧
      (c.handleWrite result).1.channel.isReading = c.channel.isReading := by
  rcases hc : c.handleWrite result with ⟨c', es⟩
  obtain ⟨ds, drained, hd, -⟩ := drain_of_handleWrite hc
  rcases drain_cases hd with ⟨-, rfl, -, -⟩ | ⟨-, -, -, h⟩ | ⟨-, -, n, qs, -, -, -, -, -, rfl⟩
  · exact ⟨rfl, rfl⟩
  · rcases h with ⟨n, -, -, rfl⟩ | ⟨errno, -, rfl⟩ | ⟨-, rfl⟩ <;> exact ⟨rfl, rfl⟩
  · exact ⟨rfl, Channel.isReading_disableWriting _⟩

end TCPConnection

namespace EchoPair

variable {s t : EchoPair} {p : Party} {c : TCPConnection} {r : TCPConnection × List Effect}
  {chunk message : Bytes} {kernel : Bytes → WriteResult} {a : Label} {h : List Label}

@[simp] theorem other_other (p : Party) : p.other.other = p := by cases p <;> rfl

theorem other_ne (p : Party) : p.other ≠ p := by cases p <;> exact Party.noConfusion

theorem forall_party {P : Party → Prop} (p : Party) : (∀ q, P q) ↔ P p ∧ P p.other := by
  refine ⟨fun h => ⟨h p, h p.other⟩, fun ⟨h, h'⟩ q => ?_⟩
  cases p <;> cases q <;> assumption

/-- A connection that has taken nothing in and asks to write what it has. -/
structure Calm (c : TCPConnection) : Prop where
  input : c.inputBuffer = []
  interest : c.WriteInterest

/-- What a handler did to the stream of a connection that stays up: `message` was added to it. -/
structure Streams (c : TCPConnection) (message : Bytes) (r : TCPConnection × List Effect) :
    Prop where
  calm : Calm r.1
  state : r.1.state = .kConnected
  reading : r.1.channel.isReading = true
  stream : acceptedOf r.2 ++ r.1.outputBuffer = c.outputBuffer ++ message

theorem send_streams (hc : Calm c) (hst : c.state = .kConnected)
    (hr : c.channel.isReading = true)
    (hf : ∀ e ∈ (c.send true message (kernel message)).2, e.possible ∧ e.faulted = false) :
    Streams c message (c.send true message (kernel message)) := by
  have hsend : c.send true message (kernel message) = c.sendInLoop message (kernel message) := by
    simp [TCPConnection.send, hst]
  rw [hsend] at hf ⊢
  have hs : c.state ≠ .kDisconnected := hst ▸ StateE.noConfusion
  obtain ⟨hinput, hreading⟩ := c.sendInLoop_frame message (kernel message)
  have hkeep := c.state_sendInLoop message (kernel message)
  have hinterest : (c.sendInLoop message (kernel message)).1.WriteInterest := hc.interest.sendInLoop
  rcases hsent : c.sendInLoop message (kernel message) with ⟨c', es⟩
  rw [hsent] at hf hinput hreading hkeep hinterest
  have hany : es.any Effect.faulted = false :=
    List.any_eq_false.mpr fun e he => by simp [(hf e he).2]
  have hstream := TCPConnection.sendInLoop_stream hs hsent
  rw [hany] at hstream
  exact ⟨⟨hinput.trans hc.input, hinterest⟩, hkeep.trans hst, hreading.trans hr, hstream⟩

theorem established_streams (hc : Calm c)
    (hf : ∀ e ∈ (established c message kernel).2, e.possible ∧ e.faulted = false) :
    Streams c message (established c message kernel) := by
  have hcalm : Calm c.connectEstablished.1 :=
    ⟨hc.input, hc.interest.frame rfl (Channel.isWriting_enableReading _)⟩
  have h := send_streams hcalm rfl (Channel.isReading_enableReading _) hf
  exact ⟨h.calm, h.state, h.reading, h.stream⟩

/-- None of the words that end the conversation can be read out of what goes round. -/
theorem onMessage_eq (p : Party)
    (hm : ∀ b ∈ chunk, b ∈ greeting .client ++ greeting .server) :
    onMessage p chunk = [.send chunk] := by
  have hexit : chunk ≠ ascii "exit\n" := by
    rintro rfl
    exact absurd (hm 120 (by decide)) (by decide)
  have hquit : chunk ≠ ascii "quit\n" := by
    rintro rfl
    exact absurd (hm 113 (by decide)) (by decide)
  have hshutdown : chunk ≠ ascii "shutdown\n" := by
    rintro rfl
    exact absurd (hm 115 (by decide)) (by decide)
  cases p with
  | server => simp [onMessage, EchoServer.onMessage, hexit, hquit]
  | client => simp [onMessage, EchoClient.onMessage, hquit, hshutdown]

theorem received_eq (hc : c.inputBuffer = []) (f : Bytes → List EchoAct)
    (hf : f chunk = [.send chunk]) (kernel : Bytes → WriteResult) :
    received c chunk f kernel = c.send true chunk (kernel chunk) := by
  have hcalm : { c with inputBuffer := [] } = c := by
    rw [← hc]
  simp [received, TCPConnection.handleRead, hc, hf, actAll, act, hcalm]

theorem write_streams {result : WriteResult} (hc : Calm c) (hst : c.state = .kConnected)
    (hr : c.channel.isReading = true) : Streams c [] (c.handleWrite result) := by
  obtain ⟨hinput, hreading⟩ := c.handleWrite_frame result
  have hinterest : (c.handleWrite result).1.WriteInterest :=
    TCPConnection.WriteInterest.call (a := .handleWrite result) hc.interest
  rcases hw : c.handleWrite result with ⟨c', es⟩
  rw [hw] at hinput hreading hinterest
  obtain ⟨hstream, hkeep⟩ := TCPConnection.handleWrite_stream hw
  exact ⟨⟨hinput.trans hc.input, hinterest⟩, hkeep.trans hst, hreading.trans hr,
    hstream.trans (List.append_nil _).symm⟩

/-- A handler of `p` changes nothing at the other end. -/
theorem deliver_spec (hd : s.deliver p r = some t) :
    (∀ e ∈ r.2, e.possible ∧ e.faulted = false) ∧ t.conn p = r.1 ∧
      t.conn p.other = s.conn p.other ∧
      t.onward p = s.inbound p.other ++ (acceptedOf r.2 ++ r.1.outputBuffer) ∧
      t.onward p.other = s.onward p.other := by
  obtain ⟨hf, rfl⟩ := Option.ite_some_none_eq_some.mp hd
  have hne := other_ne p
  refine ⟨hf, Function.update_self .., Function.update_of_ne hne .., ?_, ?_⟩
  · simp [onward]
  · simp [onward, Function.update_of_ne hne, Function.update_of_ne hne.symm]

/-- A party is not up and has sent nothing, or it is up and reads. -/
inductive Phase (s : EchoPair) (p : Party) : Prop
  | down (hst : (s.conn p).state = .kConnecting) (hr : (s.conn p).channel.isReading = false)
      (hon : s.onward p = [])
  | up (hst : (s.conn p).state = .kConnected) (hr : (s.conn p).channel.isReading = true)

structure Inv (s : EchoPair) : Prop where
  calm : ∀ p, Calm (s.conn p)
  phase : ∀ p, s.Phase p
  greeted : ∀ p, (s.conn p).state = .kConnected → (s.conn p.other).state = .kConnecting →
    s.onward p = greeting p
  ring : (∀ p, (s.conn p).state = .kConnected) →
    s.ring ~r greeting .client ++ greeting .server

theorem ring_isRotated (s : EchoPair) (p : Party) : s.ring ~r s.onward p.other ++ s.onward p := by
  cases p with
  | server => exact .refl _
  | client => exact List.isRotated_append

/-- Passing on the front of what is on its way turns the ring. -/
theorem passed_isRotated (chunk a b : Bytes) : chunk ++ a ++ b ~r a ++ (b ++ chunk) := by
  rw [List.append_assoc, ← List.append_assoc a]
  exact List.isRotated_append

theorem inv_start : Inv start where
  calm _ := ⟨rfl, by simp [start, TCPConnection.WriteInterest, TCPConnection.new]⟩
  phase _ := .down rfl (show Channel.new.isReading = false by decide) rfl
  greeted p hst := by cases hst
  ring hup := by cases hup .server

theorem Phase.frame (hp : s.Phase p) (hconn : t.conn p = s.conn p)
    (hon : t.onward p = s.onward p) : t.Phase p := by
  cases hp with
  | down hst hr hnil => exact .down (hconn ▸ hst) (hconn ▸ hr) (hon.trans hnil)
  | up hst hr => exact .up (hconn ▸ hst) (hconn ▸ hr)

theorem inv_establish (hi : Inv s) (hst : (s.conn p).state = .kConnecting)
    (hd : s.deliver p (established (s.conn p) (greeting p) kernel) = some t) : Inv t := by
  obtain ⟨hf, hconn, hother, hon, honother⟩ := deliver_spec hd
  obtain ⟨hin, hout⟩ : s.inbound p.other = [] ∧ (s.conn p).outputBuffer = [] := by
    cases hi.phase p with
    | down _ _ hnil => exact List.append_eq_nil_iff.mp hnil
    | up hup => exact absurd (hst.symm.trans hup) StateE.noConfusion
  have hs := established_streams (hi.calm p) hf
  rw [hin, hs.stream, hout] at hon
  refine ⟨?_, ?_, ?_, fun hall => ?_⟩
  · rw [forall_party p, hconn, hother]
    exact ⟨hs.calm, hi.calm _⟩
  · rw [forall_party p]
    exact ⟨.up (hconn ▸ hs.state) (hconn ▸ hs.reading), (hi.phase _).frame hother honother⟩
  · rw [forall_party p]
    refine ⟨fun _ _ => hon, fun _ hdown => ?_⟩
    rw [other_other, hconn] at hdown
    exact absurd (hdown.symm.trans hs.state) StateE.noConfusion
  · have hup : (s.conn p.other).state = .kConnected := hother ▸ hall p.other
    have hgreet := hi.greeted p.other hup (by rwa [other_other])
    refine (t.ring_isRotated p).trans ?_
    rw [hon, honother, hgreet]
    cases p with
    | server => exact .refl _
    | client => exact List.isRotated_append

/-- Whoever has something to read is up, and so is the other party. -/
theorem both_up (hi : Inv s) (hr : (s.conn p).channel.isReading = true) (hm : s.inbound p ≠ []) :
    ∀ q, (s.conn q).state = .kConnected := by
  rw [forall_party p]
  constructor
  · cases hi.phase p with
    | down _ hr' _ => exact absurd (hr.symm.trans hr') Bool.noConfusion
    | up hst _ => exact hst
  · cases hi.phase p.other with
    | down _ _ hnil =>
      rw [onward, other_other] at hnil
      exact absurd (List.append_eq_nil_iff.mp hnil).1 hm
    | up hst _ => exact hst

/-- What a party reads is sent back. -/
theorem read_echoes (hi : Inv s) (hr : (s.conn p).channel.isReading = true) (hne : chunk ≠ [])
    (hpre : chunk <+: s.inbound p) : onMessage p chunk = [.send chunk] := by
  obtain ⟨rest, hrest⟩ := hpre
  have hm : s.inbound p ≠ [] := hrest ▸ List.append_ne_nil_of_left_ne_nil hne rest
  have hring := (s.ring_isRotated p).symm.trans (hi.ring (both_up hi hr hm))
  refine onMessage_eq p fun b hb => hring.mem_iff.mp (List.mem_append_left _ ?_)
  rw [onward, other_other, ← hrest]
  exact List.mem_append_left _ (List.mem_append_left _ hb)

theorem inv_read (hi : Inv s) (hs : s.next (.read p chunk kernel) = some t) : Inv t := by
  obtain ⟨⟨hr, hne, hpre⟩, hd⟩ := Option.ite_none_right_eq_some.mp hs
  have hecho := read_echoes hi hr hne hpre
  obtain ⟨rest, hrest⟩ := hpre
  have hm : s.inbound p ≠ [] := hrest ▸ List.append_ne_nil_of_left_ne_nil hne rest
  have hup := both_up hi hr hm
  rw [received_eq (hi.calm p).input _ hecho] at hd
  obtain ⟨hf, hconn, hother, hon, honother⟩ := deliver_spec hd
  have hst := send_streams (hi.calm p) (hup p) hr hf
  have hlater : t.onward p = s.onward p ++ chunk := by
    rw [hon, hst.stream]
    simp [onward, Function.update_of_ne (other_ne p)]
  have hbefore : s.onward p.other = chunk ++ (rest ++ (s.conn p.other).outputBuffer) := by
    rw [onward, other_other, ← hrest, List.append_assoc]
  have hafter : t.onward p.other = rest ++ (s.conn p.other).outputBuffer := by
    rw [honother]
    simp [onward, ← hrest]
  have hstates : ∀ q, (t.conn q).state = .kConnected := by
    rw [forall_party p, hconn, hother]
    exact ⟨hst.state, hup p.other⟩
  refine ⟨?_, ?_, fun q _ hdown => ?_, fun _ => ?_⟩
  · rw [forall_party p, hconn, hother]
    exact ⟨hst.calm, hi.calm _⟩
  · rw [forall_party p]
    refine ⟨.up (hconn ▸ hst.state) (hconn ▸ hst.reading), ?_⟩
    cases hi.phase p.other with
    | down hdown => exact absurd (hdown.symm.trans (hup _)) StateE.noConfusion
    | up hup hr => exact .up (hother ▸ hup) (hother ▸ hr)
  · exact absurd (hdown.symm.trans (hstates q.other)) StateE.noConfusion
  · have hpass := passed_isRotated chunk (rest ++ (s.conn p.other).outputBuffer) (s.onward p)
    rw [← hbefore] at hpass
    refine (t.ring_isRotated p).trans ?_
    rw [hlater, hafter]
    exact hpass.symm.trans ((s.ring_isRotated p).symm.trans (hi.ring hup))

theorem inv_write {result : WriteResult} (hi : Inv s)
    (hs : s.next (.write p result) = some t) : Inv t := by
  obtain ⟨hw, hd⟩ := Option.ite_none_right_eq_some.mp hs
  obtain ⟨hst, hr⟩ : (s.conn p).state = .kConnected ∧ (s.conn p).channel.isReading = true := by
    cases hi.phase p with
    | down _ _ hnil => exact absurd (List.append_eq_nil_iff.mp hnil).2 ((hi.calm p).interest.mp hw)
    | up hst hr => exact ⟨hst, hr⟩
  obtain ⟨-, hconn, hother, hon, honother⟩ := deliver_spec hd
  have hs : Streams (s.conn p) [] ((s.conn p).handleWrite result) :=
    write_streams (hi.calm p) hst hr
  have hsame : t.onward p = s.onward p := by
    rw [hon, hs.stream, List.append_nil]
    rfl
  have hstate : ∀ q, (t.conn q).state = (s.conn q).state := by
    rw [forall_party p, hconn, hother]
    exact ⟨hs.state.trans hst.symm, rfl⟩
  have honward : ∀ q, t.onward q = s.onward q := by
    rw [forall_party p]
    exact ⟨hsame, honother⟩
  refine ⟨?_, ?_, fun q hup hdown => ?_, fun hall => ?_⟩
  · rw [forall_party p, hconn, hother]
    exact ⟨hs.calm, hi.calm _⟩
  · rw [forall_party p]
    exact ⟨.up (hconn ▸ hs.state) (hconn ▸ hs.reading), (hi.phase _).frame hother honother⟩
  · rw [honward]
    exact hi.greeted q (hstate q ▸ hup) (hstate q.other ▸ hdown)
  · rw [ring, honward, honward]
    exact hi.ring fun q => hstate q ▸ hall q

theorem inv_step (hi : Inv s) (hs : s.next a = some t) : Inv t := by
  cases a with
  | establish p kernel =>
    obtain ⟨hst, hd⟩ := Option.ite_none_right_eq_some.mp hs
    exact inv_establish hi hst hd
  | read p chunk kernel => exact inv_read hi hs
  | write p result => exact inv_write hi hs

theorem inv_exec (he : system.Exec h s) : Inv s := by
  induction he with
  | start hi =>
    obtain rfl : _ = start := hi
    exact inv_start
  | snoc _ hs ih => exact inv_step ih hs

/-- A step that gets something done. -/
def Useful : Label → Prop
  | .establish _ _ | .read _ _ _ => True
  | .write _ (.wrote n) => 0 < n
  | .write _ (.failed _) => False

/-- Effects that the network can have. -/
def Allowed (es : List Effect) : Prop := ∀ e ∈ es, e.possible ∧ e.faulted = false

theorem allowed_queues {es : List Effect} (h : TCPConnection.OnlyQueues es) : Allowed es := by
  intro e he
  obtain ⟨f, rfl⟩ := h e he
  exact ⟨rfl, rfl⟩

theorem deliver_of_allowed (s : EchoPair) (p : Party) (hr : Allowed r.2) :
    ∃ t, s.deliver p r = some t :=
  ⟨_, if_pos hr⟩

/-- A kernel that takes nothing for now. -/
theorem allowed_send (c : TCPConnection) (message : Bytes) :
    Allowed (c.send true message (.wrote 0)).2 := by
  have hwrite : (Effect.write message (.wrote 0)).possible ∧
      (Effect.write message (.wrote 0)).faulted = false :=
    ⟨decide_eq_true (Nat.zero_le message.length), rfl⟩
  by_cases hst : c.state = .kConnected
  · have hsend : c.send true message (.wrote 0) = c.sendInLoop message (.wrote 0) := by
      simp [TCPConnection.send, hst]
    rw [hsend]
    rcases c.sendInLoop_enqueue message (.wrote 0) with ⟨es, heq, hes⟩ | ⟨-, n, es, heq, hes⟩
    · rw [heq]
      exact fun e he => hes e he ▸ hwrite
    · rw [heq]
      intro e he
      rcases List.mem_append.mp he with he | he
      · rcases hes e he with rfl | rfl
        · exact hwrite
        · exact ⟨rfl, rfl⟩
      · exact allowed_queues (c.enqueue_spec message n).2.1 e he
  · have hsend : c.send true message (.wrote 0) = (c, []) := if_neg hst
    rw [hsend]
    exact fun e he => absurd he List.not_mem_nil

theorem allowed_handleWrite {n : Nat} (hn : n ≤ c.outputBuffer.length) :
    Allowed (c.handleWrite (.wrote n)).2 := by
  have hwrite : (Effect.write c.outputBuffer (.wrote n)).possible ∧
      (Effect.write c.outputBuffer (.wrote n)).faulted = false := ⟨decide_eq_true hn, rfl⟩
  rcases hw : c.handleWrite (.wrote n) with ⟨c', es⟩
  obtain ⟨ds, drained, hd, rfl⟩ := TCPConnection.drain_of_handleWrite hw
  intro e he
  rcases List.mem_append.mp he with he | he
  · rcases TCPConnection.drain_cases hd with ⟨-, -, rfl, -⟩ | ⟨-, rfl, -, -⟩ |
      ⟨-, -, m, qs, -, -, -, rfl, hq, -⟩
    · cases he
    · exact List.mem_singleton.mp he ▸ hwrite
    · rcases List.mem_cons.mp he with rfl | he
      · exact hwrite
      · exact allowed_queues hq e he
  · unfold TCPConnection.afterDrain TCPConnection.shutdownInLoop at he
    split_ifs at he
    · exact List.mem_singleton.mp he ▸ ⟨rfl, rfl⟩
    all_goals cases he

/-- As long as anything goes round somebody has something to do. -/
theorem exists_useful (hi : Inv s) : ∃ a t, Useful a ∧ s.next a = some t := by
  by_cases hdown : ∃ p, (s.conn p).state = .kConnecting
  · obtain ⟨p, hst⟩ := hdown
    obtain ⟨t, ht⟩ := s.deliver_of_allowed p
      (r := established (s.conn p) (greeting p) fun _ => .wrote 0) (allowed_send _ _)
    exact ⟨.establish p fun _ => .wrote 0, t, trivial, (if_pos hst).trans ht⟩
  · have hup : ∀ p, (s.conn p).state = .kConnected ∧ (s.conn p).channel.isReading = true := by
      intro p
      cases hi.phase p with
      | down hst => exact absurd ⟨p, hst⟩ hdown
      | up hst hr => exact ⟨hst, hr⟩
    have hring := hi.ring fun p => (hup p).1
    have hsome : ∃ p, s.onward p ≠ [] := by
      by_contra hnone
      push Not at hnone
      rw [ring, hnone, hnone, List.append_nil] at hring
      exact absurd (List.isRotated_nil_iff'.mp hring) (by decide)
    obtain ⟨p, hp⟩ := hsome
    by_cases hin : s.inbound p.other = []
    · have hout : (s.conn p).outputBuffer ≠ [] := fun hnil =>
        hp (List.append_eq_nil_iff.mpr ⟨hin, hnil⟩)
      obtain ⟨t, ht⟩ := s.deliver_of_allowed p (r := (s.conn p).handleWrite (.wrote 1))
        (allowed_handleWrite (List.length_pos_of_ne_nil hout))
      exact ⟨.write p (.wrote 1), t, Nat.one_pos,
        (if_pos ((hi.calm p).interest.mpr hout)).trans ht⟩
    · have hr := (hup p.other).2
      have hecho := read_echoes hi hr hin (List.prefix_refl _)
      have hrec := received_eq (hi.calm p.other).input _ hecho fun _ => .wrote 0
      let u : EchoPair := { s with
        inbound := Function.update s.inbound p.other
          ((s.inbound p.other).drop (s.inbound p.other).length) }
      obtain ⟨t, ht⟩ := u.deliver_of_allowed p.other
        (allowed_send (s.conn p.other) (s.inbound p.other))
      rw [← hrec] at ht
      exact ⟨.read p.other (s.inbound p.other) fun _ => .wrote 0, t, trivial,
        (if_pos ⟨hr, hin, List.prefix_refl _⟩).trans ht⟩

/-- What is known of the pair after any run. -/
structure Circulates (h : List Label) (s : EchoPair) : Prop where
  up : ∀ p, (s.conn p).state = .kConnecting ∨ (s.conn p).state = .kConnected
  ring : (∀ p, (s.conn p).state = .kConnected) →
    s.ring ~r greeting .client ++ greeting .server
  echoes : ∀ p chunk kernel, .read p chunk kernel ∈ h → onMessage p chunk = [.send chunk]
  running : ∃ a t, Useful a ∧ s.next a = some t

theorem echoes_exec (he : system.Exec h s) :
    ∀ p chunk kernel, .read p chunk kernel ∈ h → onMessage p chunk = [.send chunk] := by
  induction he with
  | start => exact fun p chunk kernel hm => by cases hm
  | @snoc h s t a he hs ih =>
    intro p chunk kernel hm
    rcases List.mem_append.mp hm with hm | hm
    · exact ih p chunk kernel hm
    · obtain rfl := List.mem_singleton.mp hm
      obtain ⟨⟨hr, hne, hpre⟩, -⟩ := Option.ite_none_right_eq_some.mp hs
      exact read_echoes (inv_exec he) hr hne hpre

/-- However the bytes are cut up on their way, both greetings go round for ever: none is lost, none
comes twice and none overtakes another, no end of the conversation is ever read out of them, and
there is always a next step. -/
theorem greetings_circulate (he : system.Exec h s) : Circulates h s := by
  have hi := inv_exec he
  refine ⟨fun p => ?_, hi.ring, echoes_exec he, exists_useful hi⟩
  cases hi.phase p with
  | down hst => exact .inl hst
  | up hst => exact .inr hst

/-- The server's greeting comes back in two pieces behind the client's. -/
def pieces : List Label :=
  [.establish .server fun _ => .wrote 2, .establish .client fun _ => .wrote 7,
    .read .client [72, 101] fun _ => .failed .EWOULDBLOCK, .write .server (.wrote 4),
    .read .client [108, 108, 111, 10] fun _ => .wrote 0, .write .client (.wrote 3)]

theorem greetings_circulate_pieces : ∃ s, system.Exec pieces s ∧
    s.inbound .server = ascii "world \nHel" ∧ Circulates pieces s := by
  have hr : (pieces.foldlM next start).map (fun s => s.inbound .server) =
      some (ascii "world \nHel") := by
    decide +kernel
  obtain ⟨s, hs, hin⟩ := Option.map_eq_some_iff.mp hr
  have he : system.Exec pieces s := Trace.LTS.exec_of_foldlM (fun _ _ _ h => h) rfl hs
  exact ⟨s, he, hin, greetings_circulate he⟩

end EchoPair

end Lute
