import Lute.Polaris.OutputStream
import Lute.Polaris.ReadFd

/-! The connection over its two buffers as they are laid out in memory, against the connection over
plain byte strings. -/
namespace Lute

structure BufferedConnection where
  state : StateE
  reading : Bool
  channel : Channel
  inputBuffer : Buffer
  outputBuffer : Buffer
  highWaterMark : Nat
  writeCompleteCallback : Bool
  highWaterMarkCallback : Bool
  deriving DecidableEq, Repr

namespace BufferedConnection

open TCPConnection (Effect Call acceptedOf accepted messages contribution)

/-- The connection as it looks to those who care for the bytes only. -/
def bytes (c : BufferedConnection) : TCPConnection where
  state := c.state
  reading := c.reading
  channel := c.channel
  inputBuffer := c.inputBuffer.content
  outputBuffer := c.outputBuffer.content
  highWaterMark := c.highWaterMark
  writeCompleteCallback := c.writeCompleteCallback
  highWaterMarkCallback := c.highWaterMarkCallback

def new (build : Build) (writeCompleteCallback highWaterMarkCallback : Bool) :
    Result BufferedConnection := do
  let inputBuffer ← Buffer.new build Buffer.kInitialSize
  let outputBuffer ← Buffer.new build Buffer.kInitialSize
  return ⟨.kConnecting, false, .new, inputBuffer, outputBuffer, 64 * 1024 * 1024,
    writeCompleteCallback, highWaterMarkCallback⟩

/-- The tail of `sendInLoop`, from its assertion on. -/
def enqueue (build : Build) (c : BufferedConnection) (message : Bytes) (nwrote : Nat) :
    Result (BufferedConnection × List Effect) := do
  let remaining := Vec.sub message.length nwrote
  build.assert (remaining ≤ message.length)
  if 0 < remaining then
    let oldLen := c.outputBuffer.readableBytes
    let queued : List Effect :=
      if c.highWaterMark ≤ Vec.add oldLen remaining ∧ oldLen < c.highWaterMark ∧
          c.highWaterMarkCallback then
        [.queueInLoop (.highWaterMarkCallback (Vec.add oldLen remaining))]
      else []
    let outputBuffer ← c.outputBuffer.append build ((message.drop nwrote).take remaining)
    return ({ c with
      outputBuffer
      channel := if c.channel.isWriting then c.channel else c.channel.enableWriting }, queued)
  else return (c, [])

def sendInLoop (build : Build) (c : BufferedConnection) (message : Bytes) (result : WriteResult) :
    Result (BufferedConnection × List Effect) :=
  if c.state = .kDisconnected then return (c, [])
  else if !c.channel.isWriting && c.outputBuffer.readableBytes = 0 then
    match result with
    | .wrote nwrote => do
      let queued : List Effect :=
        if Vec.sub message.length nwrote = 0 ∧ c.writeCompleteCallback then
          [.queueInLoop .writeCompleteCallback]
        else []
      let (c', more) ← c.enqueue build message nwrote
      return (c', .write message result :: queued ++ more)
    | .failed errno => do
      if errno = .EPIPE ∨ errno = .ECONNRESET then return (c, [.write message result])
      else
        let (c', more) ← c.enqueue build message 0
        return (c', .write message result :: more)
  else c.enqueue build message 0

def shutdownInLoop (c : BufferedConnection) : List Effect :=
  if !c.channel.isWriting then [.shutdownWrite] else []

/-- The kernel is offered `[peek(), peek() + readableBytes())`. -/
def handleWrite (build : Build) (c : BufferedConnection) (result : WriteResult) :
    Result (BufferedConnection × List Effect) :=
  if c.channel.isWriting then
    match result with
    | .wrote n =>
      if 0 < n then do
        let outputBuffer ← c.outputBuffer.retrieve build n
        let wrote : Effect := .write c.outputBuffer.content result
        if outputBuffer.readableBytes = 0 then
          let c' := { c with outputBuffer, channel := c.channel.disableWriting }
          let complete : List Effect :=
            if c.writeCompleteCallback then [.queueInLoop .writeCompleteCallback] else []
          return (c', wrote :: complete ++
            if c.state = .kDisconnecting then c'.shutdownInLoop else [])
        else return ({ c with outputBuffer }, [wrote])
      else return (c, [.write c.outputBuffer.content result])
    | .failed _ => return (c, [.write c.outputBuffer.content result])
  else return (c, [])

/-- `handleRead` when `readv` delivers something. -/
def handleRead (build : Build) (c : BufferedConnection) (chunk : Bytes) :
    Result (BufferedConnection × List Effect) := do
  let (_, _, inputBuffer) ← c.inputBuffer.readFd build (.stored chunk)
  return ({ c with inputBuffer }, [.messageCallback])

def startReadInLoop (c : BufferedConnection) : BufferedConnection :=
  if !c.reading || !c.channel.isReading then
    { c with channel := c.channel.enableReading, reading := true }
  else c

def stopReadInLoop (c : BufferedConnection) : BufferedConnection :=
  if c.reading || c.channel.isReading then
    { c with channel := c.channel.disableReading, reading := false }
  else c

def call (build : Build) (c : BufferedConnection) :
    Call → Result (BufferedConnection × List Effect)
  | .connectEstablished => do
    build.assert (c.state = .kConnecting)
    return ({ c with state := .kConnected, channel := c.channel.enableReading },
      [.connectionCallback])
  | .sendInLoop message result => c.sendInLoop build message result
  | .handleWrite result => c.handleWrite build result
  | .handleRead chunk => c.handleRead build chunk
  | .shutdownInLoop => return (c, c.shutdownInLoop)
  | .startReadInLoop => return (c.startReadInLoop, [])
  | .stopReadInLoop => return (c.stopReadInLoop, [])
  | .setDisconnecting => return ({ c with state := .kDisconnecting }, [])

/-- The kernel takes no more than it is offered. -/
def Within (len : Nat) : WriteResult → Prop
  | .wrote n => n ≤ len
  | .failed _ => True

instance (len : Nat) : (result : WriteResult) → Decidable (Within len result)
  | .wrote n => inferInstanceAs (Decidable (n ≤ len))
  | .failed _ => inferInstanceAs (Decidable True)

/-- A connection is established once, a string has a length that fits, and a read delivers
something and no more than there is room for. -/
def Possible (c : BufferedConnection) : Call → Prop
  | .connectEstablished => c.state = .kConnecting
  | .sendInLoop message result => message.length < 2 ^ 63 ∧ Within message.length result
  | .handleWrite result => Within c.outputBuffer.readableBytes result
  | .handleRead chunk => chunk ≠ [] ∧ chunk.length ≤ c.inputBuffer.offered
  | _ => True

/-- What happens to a connection: a call of its loop with the effects it has, or the message
callback taking bytes off the input buffer, with the string it gets if it gets one. -/
inductive Label
  | call (a : Call) (es : List Effect)
  | consume (o : BufferOp) (taken : Bytes) (str : Option Bytes)

inductive Step (build : Build) : BufferedConnection → Label → BufferedConnection → Prop
  | call {c c' : BufferedConnection} {a : Call} {es : List Effect} (hp : c.Possible a)
      (hc : c.call build a = .ok (c', es)) : Step build c (.call a es) c'
  | consume {c : BufferedConnection} {o : BufferOp} {str : Option Bytes} {inputBuffer : Buffer}
      (hr : o.IsRetrieve) (hp : o.Pre c.inputBuffer)
      (hc : o.exec build c.inputBuffer = .ok (str, inputBuffer)) :
      Step build c (.consume o (o.taken c.inputBuffer.content) str) { c with inputBuffer }

instance (c : BufferedConnection) : (a : Call) → Decidable (c.Possible a)
  | .connectEstablished => inferInstanceAs (Decidable (c.state = .kConnecting))
  | .sendInLoop message result =>
    inferInstanceAs (Decidable (message.length < 2 ^ 63 ∧ Within message.length result))
  | .handleWrite result =>
    inferInstanceAs (Decidable (Within c.outputBuffer.readableBytes result))
  | .handleRead chunk =>
    inferInstanceAs (Decidable (chunk ≠ [] ∧ chunk.length ≤ c.inputBuffer.offered))
  | .shutdownInLoop | .startReadInLoop | .stopReadInLoop | .setDisconnecting =>
    inferInstanceAs (Decidable True)

instance : (o : BufferOp) → Decidable o.IsRetrieve
  | .retrieve _ | .retrieveUntil _ | .retrieveAsString _ | .retrieveAll | .retrieveAllAsString =>
    inferInstanceAs (Decidable True)
  | .append _ | .prepend _ | .ensureWritableBytes _ | .write _ | .unwrite _ | .shrink _ =>
    inferInstanceAs (Decidable False)

/-- The step relation, executed. -/
def next (build : Build) (c : BufferedConnection) : Label → Option BufferedConnection
  | .call a es =>
    if c.Possible a then do
      let (c', es') ← (c.call build a).toOption
      if es' = es then some c' else none
    else none
  | .consume o taken str =>
    if o.IsRetrieve ∧ o.Pre c.inputBuffer ∧ o.taken c.inputBuffer.content = taken then do
      let (str', inputBuffer) ← (o.exec build c.inputBuffer).toOption
      if str' = str then some { c with inputBuffer } else none
    else none

/-- A connection from its construction on. -/
def system (build : Build) : Trace.LTS BufferedConnection Label where
  init c := ∃ writeCompleteCallback highWaterMarkCallback,
    new build writeCompleteCallback highWaterMarkCallback = .ok c
  step := Step build

/-- The same life over plain byte strings. -/
def plain : Trace.LTS TCPConnection Label where
  init c := ∃ writeCompleteCallback highWaterMarkCallback,
    c = .new writeCompleteCallback highWaterMarkCallback
  step c l c' :=
    match l with
    | .call a es => c.next (a, es) = some c'
    | .consume o taken str => o.IsRetrieve ∧ taken = o.taken c.inputBuffer ∧
        str = o.returned c.inputBuffer ∧ c' = { c with inputBuffer := o.apply c.inputBuffer }

/-- The call of a label with its effects. -/
def Label.made : Label → List (Call × List Effect)
  | .call a es => [(a, es)]
  | .consume _ _ _ => []

/-- What `readv` delivers with a label, and what the callback takes. -/
def Label.delivered : Label → Bytes
  | .call (.handleRead chunk) _ => chunk
  | _ => []

def Label.taken : Label → Bytes
  | .call _ _ => []
  | .consume _ taken _ => taken

structure WF (c : BufferedConnection) : Prop where
  inputBuffer : c.inputBuffer.WF
  outputBuffer : c.outputBuffer.WF

/-- The call asks a vector for more elements than it may have. -/
def Full (c : BufferedConnection) : Call → Prop
  | .sendInLoop message _ => 2 ^ 63 ≤ c.outputBuffer.buffer.length + message.length
  | .handleRead chunk => 2 ^ 63 ≤ c.inputBuffer.buffer.length + chunk.length
  | _ => False

/-- The concrete call does what the call over byte strings does, unless a vector is full. -/
def Agrees (full : Prop) (r : Result (BufferedConnection × List Effect))
    (p : TCPConnection × List Effect) : Prop :=
  (∃ c', r = .ok (c', p.2) ∧ c'.WF ∧ c'.bytes = p.1) ∨ full ∧ r = .error .lengthError

variable (build : Build) {c c' : BufferedConnection} {message chunk : Bytes} {n : Nat}
  {result : WriteResult} {a : Call} {es : List Effect}

theorem append_or_refused {b : Buffer} (h : b.WF) {data : Bytes} (hl : data.length < 2 ^ 63) :
    (∃ b', b.append build data = .ok b' ∧ b'.WF ∧ b'.content = b.content ++ data) ∨
      2 ^ 63 ≤ b.buffer.length + data.length ∧ b.append build data = .error .lengthError := by
  by_cases hf : b.Fits data.length
  · exact .inl (Buffer.append_spec build h hf)
  · obtain ⟨-, hbig, herr⟩ := Buffer.ensureWritableBytes_refused build h (h.addressable hl) hf
    have hle := h.writer_le
    exact .inr ⟨by omega, by rw [Buffer.append, herr, error_bind]⟩

theorem agrees_of_ok {full : Prop} {r : Result (BufferedConnection × List Effect)}
    {p : TCPConnection × List Effect} {c' : BufferedConnection} (hr : r = .ok (c', p.2))
    (hwf : c'.WF) (hb : c'.bytes = p.1) : Agrees full r p :=
  .inl ⟨c', hr, hwf, hb⟩

/-- What is done with the effects afterwards is done on both sides. -/
theorem Agrees.bind {full : Prop} {r : Result (BufferedConnection × List Effect)}
    {p : TCPConnection × List Effect} (h : Agrees full r p) (f : List Effect → List Effect) :
    Agrees full (do let (c', more) ← r; return (c', f more)) (p.1, f p.2) := by
  rcases h with ⟨c', rfl, hwf, hb⟩ | ⟨hfull, rfl⟩
  · exact .inl ⟨c', rfl, hwf, hb⟩
  · exact .inr ⟨hfull, rfl⟩

theorem length_readable (h : c.WF) :
    c.outputBuffer.readableBytes = c.bytes.outputBuffer.length := by
  rw [← h.outputBuffer.length_content]
  rfl

theorem enqueue_agrees (h : c.WF) (hm : message.length < 2 ^ 63) (hn : n ≤ message.length) :
    Agrees (2 ^ 63 ≤ c.outputBuffer.buffer.length + message.length)
      (c.enqueue build message n) (c.bytes.enqueue message n) := by
  have hsub : Vec.sub message.length n = message.length - n := Vec.sub_of_le hn (by omega)
  have hold := length_readable h
  have hsize : c.outputBuffer.readableBytes < 2 ^ 63 := by
    have hr := h.outputBuffer.readable
    have h₂ := h.outputBuffer.writer_le
    have h₃ := h.outputBuffer.size_lt
    omega
  have hadd : Vec.add c.outputBuffer.readableBytes (message.length - n) =
      c.outputBuffer.readableBytes + (message.length - n) := Vec.add_of_lt (by omega)
  have htake : (message.drop n).take (message.length - n) = message.drop n :=
    List.take_of_length_le (by simp)
  unfold enqueue TCPConnection.enqueue
  rw [hsub]
  dsimp only
  rw [Build.assert_of (by omega), ok_bind]
  by_cases hpos : 0 < message.length - n
  · rw [if_pos hpos, if_pos hpos, hadd, htake, hold]
    rcases append_or_refused build h.outputBuffer
      (show (message.drop n).length < 2 ^ 63 by rw [List.length_drop]; omega) with
      ⟨b', hb', hwf, hc⟩ | ⟨hbig, herr⟩
    · rw [hb', ok_bind]
      refine agrees_of_ok rfl ⟨h.inputBuffer, hwf⟩ ?_
      rw [bytes, hc]
      rfl
    · rw [List.length_drop] at hbig
      rw [herr, error_bind]
      exact .inr ⟨by omega, rfl⟩
  · rw [if_neg hpos, if_neg hpos]
    exact agrees_of_ok rfl h rfl

theorem sendInLoop_agrees (h : c.WF) (hm : message.length < 2 ^ 63)
    (hn : Within message.length result) :
    Agrees (c.Full (.sendInLoop message result)) (c.sendInLoop build message result)
      (c.bytes.sendInLoop message result) := by
  have hdirect : (!c.channel.isWriting && decide (c.outputBuffer.readableBytes = 0)) =
      (!c.bytes.channel.isWriting && c.bytes.outputBuffer.isEmpty) := by
    rw [length_readable h]
    cases c.bytes.outputBuffer <;> rfl
  unfold sendInLoop TCPConnection.sendInLoop
  rw [hdirect]
  by_cases hst : c.state = .kDisconnected
  · have hst' : c.bytes.state = .kDisconnected := hst
    rw [if_pos hst, if_pos hst']
    exact agrees_of_ok rfl h rfl
  · have hst' : ¬ c.bytes.state = .kDisconnected := hst
    rw [if_neg hst, if_neg hst']
    split_ifs
    · cases result with
      | wrote n =>
        have hle : n ≤ message.length := hn
        have hsub : Vec.sub message.length n = message.length - n := Vec.sub_of_le hle (by omega)
        simp only [hsub]
        exact (enqueue_agrees build h hm hle).bind _
      | failed errno =>
        dsimp only
        split_ifs
        · exact agrees_of_ok rfl h rfl
        · exact (enqueue_agrees build h hm (Nat.zero_le _)).bind _
    · exact enqueue_agrees build h hm (Nat.zero_le _)

theorem handleWrite_agrees (h : c.WF) (hn : Within c.outputBuffer.readableBytes result) :
    Agrees False (c.handleWrite build result) (c.bytes.handleWrite result) := by
  unfold handleWrite TCPConnection.handleWrite TCPConnection.drain
  by_cases hw : c.channel.isWriting = true
  · have hw' : c.bytes.channel.isWriting = true := hw
    rw [if_pos hw, if_pos hw']
    cases result with
    | failed errno => exact agrees_of_ok (by simp; rfl) h rfl
    | wrote n =>
      by_cases hpos : 0 < n
      · obtain ⟨b', hb', hwf, hc⟩ := Buffer.retrieve_spec build h.outputBuffer hn
        have hrest : b'.content = c.bytes.outputBuffer.drop n := hc
        have hzero : (b'.readableBytes = 0) ↔ (c.bytes.outputBuffer.drop n).isEmpty = true := by
          rw [← hwf.length_content, hrest, List.isEmpty_iff_length_eq_zero]
        simp only [if_pos hpos, hb', ok_bind]
        by_cases hdone : b'.readableBytes = 0
        · rw [if_pos hdone, if_pos (hzero.mp hdone)]
          refine agrees_of_ok rfl ⟨h.inputBuffer, hwf⟩ ?_
          simp [bytes, hc]
        · rw [if_neg hdone, if_neg (mt hzero.mpr hdone)]
          refine .inl ⟨{ c with outputBuffer := b' }, by simp; rfl, ⟨h.inputBuffer, hwf⟩, ?_⟩
          simp [bytes, hc]
      · simp only [if_neg hpos]
        exact agrees_of_ok (by simp; rfl) h rfl
  · have hw' : ¬ c.bytes.channel.isWriting = true := hw
    rw [if_neg hw, if_neg hw']
    exact agrees_of_ok (by simp) h rfl

theorem handleRead_agrees (h : c.WF) (hl : chunk.length ≤ c.inputBuffer.offered) :
    Agrees (c.Full (.handleRead chunk)) (c.handleRead build chunk)
      (c.bytes.handleRead (.data chunk)) := by
  unfold handleRead
  rcases Buffer.readFd_stored build h.inputBuffer hl with ⟨b', hb', hwf, hc⟩ |
    ⟨hbig, herr⟩
  · rw [hb', ok_bind]
    refine agrees_of_ok rfl ⟨hwf, h.outputBuffer⟩ ?_
    rw [bytes, hc]
    rfl
  · have hsub := Nat.sub_le chunk.length c.inputBuffer.writableBytes
    rw [herr, error_bind]
    exact .inr ⟨hbig.trans (Nat.add_le_add_left hsub _), rfl⟩

/-- No possible call runs into an assertion or outside a vector. -/
theorem call_agrees (h : c.WF) (hp : c.Possible a) :
    Agrees (c.Full a) (c.call build a) (c.bytes.call a) := by
  cases a with
  | connectEstablished =>
    have hst : c.state = .kConnecting := hp
    rw [call, Build.assert_of hst, ok_bind]
    exact agrees_of_ok rfl ⟨h.inputBuffer, h.outputBuffer⟩ rfl
  | sendInLoop message result => exact sendInLoop_agrees build h hp.1 hp.2
  | handleWrite result => exact handleWrite_agrees build h hp
  | handleRead chunk => exact handleRead_agrees build h hp.2
  | shutdownInLoop => exact agrees_of_ok rfl h rfl
  | startReadInLoop =>
    refine agrees_of_ok rfl ?_ ?_ <;> unfold startReadInLoop
    · split_ifs <;> exact ⟨h.inputBuffer, h.outputBuffer⟩
    · split_ifs with hr
      · exact (if_pos hr).symm
      · exact (if_neg hr).symm
  | stopReadInLoop =>
    refine agrees_of_ok rfl ?_ ?_ <;> unfold stopReadInLoop
    · split_ifs <;> exact ⟨h.inputBuffer, h.outputBuffer⟩
    · split_ifs with hr
      · exact (if_pos hr).symm
      · exact (if_neg hr).symm
  | setDisconnecting => exact agrees_of_ok rfl ⟨h.inputBuffer, h.outputBuffer⟩ rfl

theorem possible_enqueue (c : TCPConnection) (message : Bytes) (n : Nat) :
    ∀ e ∈ (c.enqueue message n).2, e.possible := by
  intro e he
  obtain ⟨f, rfl⟩ := (c.enqueue_spec message n).2.1 e he
  rfl

theorem eq_of_mem_shutdownInLoop {c : TCPConnection} :
    ∀ e ∈ c.shutdownInLoop, e = .shutdownWrite := by
  intro e he
  unfold TCPConnection.shutdownInLoop at he
  split_ifs at he
  · exact List.mem_singleton.mp he
  · cases he

theorem possible_afterDrain {c : TCPConnection} (drained : Bool) :
    ∀ e ∈ if drained then c.afterDrain else [], e.possible := by
  intro e he
  unfold TCPConnection.afterDrain at he
  split_ifs at he
  · rw [eq_of_mem_shutdownInLoop e he]
    rfl
  all_goals cases he

theorem possible_drain {c d : TCPConnection} {drained : Bool}
    (hw : (Effect.write c.outputBuffer result).possible)
    (hd : c.drain result = (d, es, drained)) : ∀ e ∈ es, e.possible := by
  intro e he
  rcases TCPConnection.drain_cases hd with ⟨-, -, rfl, -⟩ | ⟨-, rfl, -, -⟩ |
    ⟨-, -, n, qs, -, -, -, rfl, hq, -⟩
  · cases he
  · rwa [List.mem_singleton.mp he]
  · rcases List.mem_cons.mp he with rfl | he
    · exact hw
    · obtain ⟨f, rfl⟩ := hq e he
      rfl

/-- The kernel is asked to write what the call says. -/
theorem possible_effects (h : c.WF) (hp : c.Possible a) :
    ∀ e ∈ (c.bytes.call a).2, e.possible := by
  cases a with
  | sendInLoop message result =>
    have hwrite : (Effect.write message result).possible := by
      cases result with
      | wrote n => exact decide_eq_true hp.2
      | failed errno => rfl
    intro e he
    rcases c.bytes.sendInLoop_enqueue message result with ⟨es, heq, hes⟩ | ⟨-, n, es, heq, hes⟩
    · rw [TCPConnection.call, heq] at he
      rw [hes e he]
      exact hwrite
    · rw [TCPConnection.call, heq] at he
      rcases List.mem_append.mp he with he | he
      · rcases hes e he with rfl | rfl
        · exact hwrite
        · rfl
      · exact possible_enqueue _ _ _ e he
  | handleWrite result =>
    have hwrite : (Effect.write c.bytes.outputBuffer result).possible := by
      cases result with
      | wrote n => exact decide_eq_true (length_readable h ▸ hp)
      | failed errno => rfl
    rcases hc : c.bytes.handleWrite result with ⟨c', es⟩
    obtain ⟨ds, drained, hd, rfl⟩ := TCPConnection.drain_of_handleWrite hc
    intro e he
    rw [TCPConnection.call, hc] at he
    rcases List.mem_append.mp he with he | he
    · exact possible_drain hwrite hd e he
    · exact possible_afterDrain drained e he
  | connectEstablished | handleRead chunk | startReadInLoop | stopReadInLoop | setDisconnecting =>
    simp [TCPConnection.call, TCPConnection.connectEstablished, TCPConnection.handleRead,
      Effect.possible]
  | shutdownInLoop =>
    intro e he
    rw [eq_of_mem_shutdownInLoop e he]
    rfl

/-- A call that is possible is a call over byte strings, with the same effects. -/
theorem next_of_call (h : c.WF) (hp : c.Possible a) (hc : c.call build a = .ok (c', es)) :
    c'.WF ∧ c.bytes.next (a, es) = some c'.bytes := by
  rcases call_agrees build h hp with ⟨d, hd, hwf, hb⟩ | ⟨-, herr⟩
  · rw [hd] at hc
    obtain ⟨rfl, rfl⟩ := Prod.mk.inj (Except.ok.inj hc)
    exact ⟨hwf, by rw [TCPConnection.next, if_pos ⟨rfl, possible_effects h hp⟩, hb]⟩
  · cases herr.symm.trans hc

theorem new_inv {w m : Bool} (hn : new build w m = .ok c) :
    c.WF ∧ c.bytes = .new w m := by
  obtain ⟨b, hb, hwf, hc⟩ := Buffer.new_spec build
    (show Buffer.kCheapPrepend + Buffer.kInitialSize < 2 ^ 63 by decide)
  unfold new at hn
  rw [hb, ok_bind, ok_bind] at hn
  obtain rfl := Except.ok.inj hn
  exact ⟨⟨hwf, hwf⟩, by rw [bytes, hc]; rfl⟩

variable {build} {l : Label} {h : List Label}

theorem step_of_next (hn : c.next build l = some c') : Step build c l c' := by
  cases l with
  | call a es =>
    obtain ⟨hp, h₁⟩ := Option.ite_none_right_eq_some.mp hn
    obtain ⟨⟨d, es'⟩, hd, h₂⟩ := Option.bind_eq_some_iff.mp h₁
    obtain ⟨rfl, h₃⟩ := Option.ite_none_right_eq_some.mp h₂
    obtain rfl : d = c' := Option.some.inj h₃
    exact .call hp (ok_of_toOption hd)
  | consume o taken str =>
    obtain ⟨⟨hr, hp, rfl⟩, h₁⟩ := Option.ite_none_right_eq_some.mp hn
    obtain ⟨⟨str', b⟩, hb, h₂⟩ := Option.bind_eq_some_iff.mp h₁
    obtain ⟨rfl, h₃⟩ := Option.ite_none_right_eq_some.mp h₂
    obtain rfl : { c with inputBuffer := b } = c' := Option.some.inj h₃
    exact .consume hr hp (ok_of_toOption hb)

theorem step_plain (hwf : c.WF) (hs : Step build c l c') :
    c'.WF ∧ plain.step c.bytes l c'.bytes := by
  cases hs with
  | call hp hc => exact next_of_call build hwf hp hc
  | @consume o str inputBuffer hr hp hc =>
    obtain ⟨b', hb', hwf', hcon⟩ := BufferOp.exec_spec build hwf.inputBuffer o hp
    obtain ⟨rfl, rfl⟩ := Prod.mk.inj (Except.ok.inj (hb'.symm.trans hc))
    exact ⟨⟨hwf', hwf.outputBuffer⟩, hr, rfl, rfl, by rw [bytes, hcon]; rfl⟩

theorem exec_plain (he : (system build).Exec h c) : c.WF ∧ plain.Exec h c.bytes := by
  induction he with
  | start hi =>
    obtain ⟨w, m, hn⟩ := hi
    obtain ⟨hwf, hb⟩ := new_inv build hn
    exact ⟨hwf, .start ⟨w, m, hb⟩⟩
  | snoc _ hs ih =>
    obtain ⟨hwf, hstep⟩ := step_plain ih.1 hs
    exact ⟨hwf, ih.2.snoc hstep⟩

theorem inputBuffer_call (c : TCPConnection) (a : Call) (es : List Effect) :
    (c.call a).1.inputBuffer = c.inputBuffer ++ (Label.call a es).delivered := by
  cases a with
  | sendInLoop message result =>
    refine Eq.trans ?_ (List.append_nil _).symm
    rw [TCPConnection.call]
    rcases c.sendInLoop_enqueue message result with ⟨es, heq, -⟩ | ⟨-, n, es, heq, -⟩
    · rw [heq]
    · rw [heq]
      unfold TCPConnection.enqueue
      dsimp only
      split_ifs <;> rfl
  | handleWrite result =>
    refine Eq.trans ?_ (List.append_nil _).symm
    rw [TCPConnection.call]
    rcases hc : c.handleWrite result with ⟨c', es⟩
    obtain ⟨ds, drained, hd, -⟩ := TCPConnection.drain_of_handleWrite hc
    rcases TCPConnection.drain_cases hd with ⟨-, rfl, -, -⟩ | ⟨-, -, -, h⟩ |
      ⟨-, -, n, qs, -, -, -, -, -, rfl⟩
    · rfl
    · rcases h with ⟨n, -, -, rfl⟩ | ⟨errno, -, rfl⟩ | ⟨-, rfl⟩ <;> rfl
    · rfl
  | handleRead chunk => rfl
  | startReadInLoop | stopReadInLoop =>
    simp only [Label.delivered, List.append_nil, TCPConnection.call, TCPConnection.startReadInLoop,
      TCPConnection.stopReadInLoop]
    split_ifs <;> rfl
  | connectEstablished | shutdownInLoop | setDisconnecting => exact (List.append_nil _).symm

/-- The calls of a run, with their effects. -/
def made (h : List Label) : List (Call × List Effect) := h.flatMap Label.made

/-- Both streams of a connection over byte strings. -/
theorem streams_plain {c : TCPConnection} (he : plain.Exec h c) :
    c.state ≠ .kDisconnected ∧ accepted (made h) ++ c.outputBuffer = messages (made h) ∧
      h.flatMap Label.taken ++ c.inputBuffer = h.flatMap Label.delivered := by
  induction he with
  | start hi =>
    obtain ⟨w, m, rfl⟩ := hi
    exact ⟨StateE.noConfusion, rfl, rfl⟩
  | @snoc h c c' l _ hs ih =>
    obtain ⟨hst, hout, hin⟩ := ih
    cases l with
    | call a es =>
      have hcall := TCPConnection.call_of_next hs
      obtain ⟨hstream, hst'⟩ := TCPConnection.call_stream hst hcall
      have hmade : made (h ++ [Label.call a es]) = made h ++ [(a, es)] := by
        simp [made, Label.made]
      refine ⟨hst', ?_, ?_⟩
      · rw [hmade, TCPConnection.accepted_snoc, TCPConnection.messages_snoc, List.append_assoc,
          hstream, ← List.append_assoc, hout]
      · have hinput := inputBuffer_call c a es
        rw [hcall] at hinput
        simp only [List.flatMap_append, List.flatMap_singleton]
        rw [hinput, ← hin]
        simp [Label.taken]
    | consume o taken str =>
      obtain ⟨hr, rfl, -, rfl⟩ := hs
      have hmade : made (h ++ [Label.consume o (o.taken c.inputBuffer) str]) = made h := by
        simp [made, Label.made]
      refine ⟨hst, by rw [hmade]; exact hout, ?_⟩
      simp only [List.flatMap_append, List.flatMap_singleton, Label.taken, Label.delivered]
      rw [List.append_assoc, BufferOp.taken_append_apply hr, hin, List.append_nil]

/-- What a run over real buffers comes to. -/
structure Transparent (build : Build) (h : List Label) (c : BufferedConnection) : Prop where
  run : plain.Exec h c.bytes
  call : ∀ a, c.Possible a → Agrees (c.Full a) (c.call build a) (c.bytes.call a)
  consume : ∀ o : BufferOp, o.Pre c.inputBuffer → ∃ b,
    o.exec build c.inputBuffer = .ok (o.returned c.inputBuffer.content, b) ∧
      b.content = o.apply c.inputBuffer.content
  output : accepted (made h) ++ c.outputBuffer.content = messages (made h)
  input : h.flatMap Label.taken ++ c.inputBuffer.content = h.flatMap Label.delivered

/-- Up to the close the layout of the two buffers cannot be told from outside: a run over them is
a run over byte strings with the same effects, whatever the next call is it does the same or finds
a vector full, and both streams go through whole and in order. -/
theorem buffers_transparent (he : (system build).Exec h c) : Transparent build h c := by
  obtain ⟨hwf, hrun⟩ := exec_plain he
  obtain ⟨-, hout, hin⟩ := streams_plain hrun
  refine ⟨hrun, fun a hp => call_agrees build hwf hp, fun o hp => ?_, hout, hin⟩
  obtain ⟨b, hb, -, hc⟩ := BufferOp.exec_spec build hwf.inputBuffer o hp
  exact ⟨b, hb, hc⟩

/-- A message sent in two parts with another one behind it, and a read of which part is left. -/
def sampleLife : List Label :=
  [.call .connectEstablished [.connectionCallback],
   .call (.sendInLoop [1, 2, 3] (.wrote 1)) [.write [1, 2, 3] (.wrote 1)],
   .call (.sendInLoop [4] (.wrote 0)) [],
   .call (.handleRead [9, 8, 7]) [.messageCallback],
   .consume (.retrieveAsString 2) [9, 8] (some [9, 8]),
   .call (.handleWrite (.wrote 2)) [.write [2, 3, 4] (.wrote 2)]]

theorem buffers_transparent_sample : ∃ c, (system .debug).Exec sampleLife c ∧
    accepted (made sampleLife) ++ c.outputBuffer.content = [1, 2, 3, 4] ∧
      [9, 8] ++ c.inputBuffer.content = [9, 8, 7] := by
  have hr : ((new .debug true true).toOption.bind
      fun c => sampleLife.foldlM (next .debug) c).isSome = true := by
    decide +kernel
  obtain ⟨c, hc⟩ := Option.isSome_iff_exists.mp hr
  obtain ⟨c₀, h₀, hc⟩ := Option.bind_eq_some_iff.mp hc
  have hi : (system .debug).init c₀ := ⟨true, true, ok_of_toOption h₀⟩
  have he : (system .debug).Exec sampleLife c :=
    Trace.LTS.exec_of_foldlM (fun _ _ _ => step_of_next) hi hc
  have ht := buffers_transparent he
  exact ⟨c, he, ht.output, ht.input⟩

end BufferedConnection

end Lute
