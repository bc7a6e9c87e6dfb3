import Lute.Lib.Trace
import Lute.Polaris.TCPConnection

/-! The byte stream a connection hands to the kernel, over any run of its loop thread. -/
namespace Lute

namespace TCPConnection

/-- What the loop thread may call between the two ends of a connection's life, and the change of
`state_` that `shutdown` and `forceClose` make. -/
inductive Call
  | connectEstablished
  | sendInLoop (message : Bytes) (result : WriteResult)
  | handleWrite (result : WriteResult)
  | handleRead (chunk : Bytes)
  | shutdownInLoop
  | startReadInLoop
  | stopReadInLoop
  | setDisconnecting
  deriving DecidableEq, Repr

def call (c : TCPConnection) : Call → TCPConnection × List Effect
  | .connectEstablished => c.connectEstablished
  | .sendInLoop message result => c.sendInLoop message result
  | .handleWrite result => c.handleWrite result
  | .handleRead chunk => c.handleRead (.data chunk)
  | .shutdownInLoop => (c, c.shutdownInLoop)
  | .startReadInLoop => (c.startReadInLoop, [])
  | .stopReadInLoop => (c.stopReadInLoop, [])
  | .setDisconnecting => (c.setState .kDisconnecting, [])

/-- The kernel accepts no more than it is offered. -/
def Effect.possible : Effect → Bool
  | .write data (.wrote n) => n ≤ data.length
  | _ => true

/-- The bytes the kernel took. -/
def Effect.accepted : Effect → Bytes
  | .write data (.wrote n) => data.take n
  | _ => []

/-- A write that failed with one of the two fatal errors. -/
def Effect.faulted : Effect → Bool
  | .write _ (.failed .EPIPE) => true
  | .write _ (.failed .ECONNRESET) => true
  | _ => false

/-- One call with the effects it is said to have. -/
def next (c : TCPConnection) (a : Call × List Effect) : Option TCPConnection :=
  if (c.call a.1).2 = a.2 ∧ ∀ e ∈ a.2, e.possible then some (c.call a.1).1 else none

/-- The loop thread's calls on a connection with nothing to write yet. -/
def loopThread : Trace.LTS TCPConnection (Call × List Effect) where
  init c := c.state ≠ .kDisconnected ∧ c.channel.isWriting = false ∧ c.outputBuffer = []
  step c a c' := c.next a = some c'

def acceptedOf (es : List Effect) : Bytes := es.flatMap Effect.accepted

/-- The bytes accepted by the kernel during a run. -/
def accepted (h : List (Call × List Effect)) : Bytes := h.flatMap fun a => acceptedOf a.2

/-- What a call adds to the stream: a message, unless its own direct write faulted. -/
def contribution : Call × List Effect → Bytes
  | (.sendInLoop message _, es) => if es.any Effect.faulted then [] else message
  | _ => []

def messages (h : List (Call × List Effect)) : Bytes := h.flatMap contribution

variable {c c' : TCPConnection} {message : Bytes} {result : WriteResult} {es : List Effect}

theorem call_of_next {a : Call × List Effect} (h : c.next a = some c') :
    c.call a.1 = (c', a.2) := by
  obtain ⟨⟨he, -⟩, hc⟩ := Option.ite_none_right_eq_some.mp h
  rw [← he, ← Option.some.inj hc]

/-- Effects that only hand callbacks to the loop. -/
def OnlyQueues (es : List Effect) : Prop := ∀ e ∈ es, ∃ f, e = .queueInLoop f

theorem acceptedOf_cons (e : Effect) (es : List Effect) :
    acceptedOf (e :: es) = e.accepted ++ acceptedOf es :=
  List.flatMap_cons

theorem OnlyQueues.acceptedOf (h : OnlyQueues es) : acceptedOf es = [] := by
  refine List.flatMap_eq_nil_iff.mpr fun e he => ?_
  obtain ⟨f, rfl⟩ := h e he
  rfl

theorem OnlyQueues.faulted (h : OnlyQueues es) : es.any Effect.faulted = false := by
  refine List.any_eq_false.mpr fun e he => ?_
  obtain ⟨f, rfl⟩ := h e he
  exact Bool.false_ne_true

theorem enqueue_spec (c : TCPConnection) (message : Bytes) (n : Nat) :
    (c.enqueue message n).1.outputBuffer = c.outputBuffer ++ message.drop n ∧
      OnlyQueues (c.enqueue message n).2 ∧ (c.enqueue message n).1.state = c.state := by
  unfold enqueue
  dsimp only
  by_cases hpos : 0 < message.length - n
  · rw [if_pos hpos]
    refine ⟨rfl, ?_, rfl⟩
    split_ifs <;> simp [OnlyQueues]
  · have hle : message.length ≤ n := by omega
    rw [if_neg hpos]
    simp [OnlyQueues, List.drop_eq_nil_of_le hle]

/-- Write interest is on exactly while output is pending. -/
def WriteInterest (c : TCPConnection) : Prop := c.channel.isWriting = true ↔ c.outputBuffer ≠ []

theorem WriteInterest.enqueue (hw : c.WriteInterest) (n : Nat) :
    (c.enqueue message n).1.WriteInterest := by
  unfold TCPConnection.enqueue
  dsimp only
  by_cases hpos : 0 < message.length - n
  · have hne : message.drop n ≠ [] := List.ne_nil_of_length_pos (by rwa [List.length_drop])
    rw [if_pos hpos]
    by_cases hwriting : c.channel.isWriting = true <;> simp [WriteInterest, hwriting, hne]
  · rwa [if_neg hpos]

/-- `sendInLoop` gives up, or comes to queueing what its direct write has left. -/
theorem sendInLoop_enqueue (c : TCPConnection) (message : Bytes) (result : WriteResult) :
    (∃ es, c.sendInLoop message result = (c, es) ∧ ∀ e ∈ es, e = .write message result) ∨
      c.state ≠ .kDisconnected ∧ ∃ n es,
        c.sendInLoop message result =
          ((c.enqueue message n).1, es ++ (c.enqueue message n).2) ∧
        ∀ e ∈ es, e = .write message result ∨ e = .queueInLoop .writeCompleteCallback := by
  unfold TCPConnection.sendInLoop
  split_ifs with hst hdirect
  · exact .inl ⟨[], rfl, by simp⟩
  · cases result with
    | wrote n =>
      refine .inr ⟨hst, n, _, rfl, ?_⟩
      split_ifs <;> simp
    | failed errno =>
      dsimp only
      split_ifs
      · exact .inl ⟨_, rfl, by simp⟩
      · exact .inr ⟨hst, 0, [_], rfl, by simp⟩
  · exact .inr ⟨hst, 0, [], rfl, by simp⟩

theorem WriteInterest.sendInLoop (hw : c.WriteInterest) :
    (c.sendInLoop message result).1.WriteInterest := by
  rcases c.sendInLoop_enqueue message result with ⟨es, heq, -⟩ | ⟨-, n, es, heq, -⟩
  · rwa [heq]
  · rw [heq]
    exact hw.enqueue n

/-- The three ways `sendInLoop` can go on a live connection. -/
theorem sendInLoop_cases (hs : c.state ≠ .kDisconnected)
    (hc : c.sendInLoop message result = (c', es)) :
    c'.state = c.state ∧
      ((∃ n qs, result = .wrote n ∧ c.outputBuffer = [] ∧ es = .write message result :: qs ∧
          OnlyQueues qs ∧ c'.outputBuffer = message.drop n) ∨
        (c.outputBuffer = [] ∧ es = [.write message result] ∧ c' = c ∧
          (Effect.write message result).faulted = true) ∨
        (∃ qs, (es = qs ∨ ∃ errno, es = .write message (.failed errno) :: qs ∧
            (Effect.write message (.failed errno)).faulted = false) ∧
          OnlyQueues qs ∧ c'.outputBuffer = c.outputBuffer ++ message)) := by
  simp only [sendInLoop, if_neg hs] at hc
  split_ifs at hc with hdirect
  · obtain ⟨-, hempty⟩ : c.channel.isWriting = false ∧ c.outputBuffer = [] := by
      simpa using hdirect
    cases result with
    | wrote n =>
      obtain ⟨hout, hq, hst⟩ := c.enqueue_spec message n
      obtain ⟨rfl, rfl⟩ := Prod.mk.inj hc
      refine ⟨hst, .inl ⟨n, _, rfl, hempty, rfl, ?_, by rw [hout, hempty, List.nil_append]⟩⟩
      intro e he
      rcases List.mem_append.mp he with he | he
      · split_ifs at he <;> simp_all
      · exact hq e he
    | failed errno =>
      obtain ⟨hout, hq, hst⟩ := c.enqueue_spec message 0
      dsimp only at hc
      split_ifs at hc with hfatal
      · obtain ⟨rfl, rfl⟩ := Prod.mk.inj hc
        refine ⟨rfl, .inr (.inl ⟨hempty, rfl, rfl, ?_⟩)⟩
        rcases hfatal with rfl | rfl <;> rfl
      · obtain ⟨rfl, rfl⟩ := Prod.mk.inj hc
        refine ⟨hst, .inr (.inr ⟨_, .inr ⟨errno, rfl, ?_⟩, hq, by simpa using hout⟩)⟩
        cases errno <;> simp_all [Effect.faulted]
  · obtain ⟨hout, hq, hst⟩ := c.enqueue_spec message 0
    rw [hc] at hout hq hst
    exact ⟨hst, .inr (.inr ⟨_, .inl rfl, hq, by simpa using hout⟩)⟩

theorem OnlyQueues.shutdownWrite_notMem (h : OnlyQueues es) : .shutdownWrite ∉ es := by
  intro hm
  obtain ⟨f, hf⟩ := h _ hm
  cases hf

theorem shutdownWrite_notMem_sendInLoop (hs : c.state ≠ .kDisconnected)
    (hc : c.sendInLoop message result = (c', es)) : .shutdownWrite ∉ es := by
  obtain ⟨-, h⟩ := sendInLoop_cases hs hc
  rcases h with ⟨n, qs, -, -, rfl, hq, -⟩ | ⟨-, rfl, -, -⟩ | ⟨qs, rfl | ⟨errno, rfl, -⟩, hq, -⟩
  · simpa using hq.shutdownWrite_notMem
  · simp
  · exact hq.shutdownWrite_notMem
  · simpa using hq.shutdownWrite_notMem

/-- What the kernel took during `sendInLoop` and what is queued afterwards continue the queue. -/
theorem sendInLoop_stream (hs : c.state ≠ .kDisconnected)
    (hc : c.sendInLoop message result = (c', es)) :
    acceptedOf es ++ c'.outputBuffer =
      c.outputBuffer ++ if es.any Effect.faulted then [] else message := by
  obtain ⟨-, h⟩ := sendInLoop_cases hs hc
  rcases h with ⟨n, qs, rfl, hempty, rfl, hq, hout⟩ | ⟨hempty, rfl, rfl, hfault⟩ |
    ⟨qs, rfl | ⟨errno, rfl, hfault⟩, hq, hout⟩
  · simp [acceptedOf_cons, hq.acceptedOf, hq.faulted, hout, hempty, Effect.accepted,
      Effect.faulted]
  · cases result <;> simp_all [acceptedOf, Effect.accepted, Effect.faulted]
  · simp [hq.acceptedOf, hq.faulted, hout]
  · simp [acceptedOf_cons, hq.acceptedOf, hq.faulted, hout, hfault, Effect.accepted]

/-- The four ways the first part of `handleWrite` can go. -/
theorem drain_cases {drained : Bool} (hc : c.drain result = (c', es, drained)) :
    (c.channel.isWriting = false ∧ c' = c ∧ es = [] ∧ drained = false) ∨
    (c.channel.isWriting = true ∧ es = [.write c.outputBuffer result] ∧ drained = false ∧
      ((∃ n, result = .wrote n ∧ n < c.outputBuffer.length ∧
          c' = { c with outputBuffer := c.outputBuffer.drop n }) ∨
        (∃ errno, result = .failed errno ∧ c' = c) ∨ (result = .wrote 0 ∧ c' = c))) ∨
    (c.channel.isWriting = true ∧ drained = true ∧ ∃ n qs, result = .wrote n ∧ 0 < n ∧
      c.outputBuffer.length ≤ n ∧ es = .write c.outputBuffer result :: qs ∧ OnlyQueues qs ∧
      c' = { c with outputBuffer := [], channel := c.channel.disableWriting }) := by
  unfold drain at hc
  by_cases hw : c.channel.isWriting = true
  · rw [if_pos hw] at hc
    cases result with
    | failed errno =>
      obtain ⟨rfl, rfl, rfl⟩ := by simpa using hc
      exact .inr (.inl ⟨hw, rfl, rfl, .inr (.inl ⟨errno, rfl, rfl⟩)⟩)
    | wrote n =>
      dsimp only at hc
      by_cases hn : 0 < n
      · rw [if_pos hn] at hc
        by_cases hrest : (c.outputBuffer.drop n).isEmpty = true
        · rw [if_pos hrest] at hc
          obtain ⟨rfl, rfl, rfl⟩ := by simpa using hc
          have hle : c.outputBuffer.length ≤ n := by simpa using hrest
          refine .inr (.inr ⟨hw, rfl, n, _, rfl, hn, hle, rfl, ?_, ?_⟩)
          · split_ifs <;> simp [OnlyQueues]
          · simp [List.drop_eq_nil_of_le hle]
        · rw [if_neg hrest] at hc
          obtain ⟨rfl, rfl, rfl⟩ := by simpa using hc
          exact .inr (.inl ⟨hw, rfl, rfl, .inl ⟨n, rfl, by simpa using hrest, rfl⟩⟩)
      · rw [if_neg hn] at hc
        obtain rfl : n = 0 := by omega
        obtain ⟨rfl, rfl, rfl⟩ := by simpa using hc
        exact .inr (.inl ⟨hw, rfl, rfl, .inr (.inr ⟨rfl, rfl⟩)⟩)
  · rw [if_neg hw] at hc
    obtain ⟨rfl, rfl, rfl⟩ := by simpa using hc
    exact .inl ⟨by simpa using hw, rfl, rfl, rfl⟩

theorem WriteInterest.drain {drained : Bool} (hw : c.WriteInterest)
    (hc : c.drain result = (c', es, drained)) : c'.WriteInterest := by
  rcases drain_cases hc with ⟨-, rfl, -, -⟩ | ⟨hwriting, -, -, h⟩ |
    ⟨-, -, n, qs, -, -, -, -, -, rfl⟩
  · exact hw
  · rcases h with ⟨n, -, hn, rfl⟩ | ⟨errno, -, rfl⟩ | ⟨-, rfl⟩
    · simp [WriteInterest, hwriting, hn]
    · exact hw
    · exact hw
  · simp [WriteInterest]

theorem shutdownWrite_notMem_drain {drained : Bool} (hc : c.drain result = (c', es, drained)) :
    .shutdownWrite ∉ es := by
  rcases drain_cases hc with ⟨-, -, rfl, -⟩ | ⟨-, rfl, -, -⟩ | ⟨-, -, n, qs, -, -, -, rfl, hq, -⟩
  · simp
  · simp
  · simpa using hq.shutdownWrite_notMem

/-- `handleWrite` moves bytes from the front of the queue to the kernel. -/
theorem drain_stream {drained : Bool} (hc : c.drain result = (c', es, drained)) :
    acceptedOf es ++ c'.outputBuffer = c.outputBuffer ∧ c'.state = c.state := by
  rcases drain_cases hc with ⟨-, rfl, rfl, rfl⟩ | ⟨-, rfl, rfl, h⟩ |
    ⟨-, rfl, n, qs, rfl, hn, hle, rfl, hq, rfl⟩
  · simp [acceptedOf]
  · rcases h with ⟨n, rfl, -, rfl⟩ | ⟨errno, rfl, rfl⟩ | ⟨rfl, rfl⟩ <;>
      simp [acceptedOf, Effect.accepted]
  · simp [acceptedOf_cons, hq.acceptedOf, Effect.accepted, hle]

theorem state_sendInLoop (c : TCPConnection) (message : Bytes) (w : WriteResult) :
    (c.sendInLoop message w).1.state = c.state := by
  rcases c.sendInLoop_enqueue message w with ⟨es, heq, -⟩ | ⟨-, n, es, heq, -⟩
  · rw [heq]
  · rw [heq]
    exact (c.enqueue_spec message n).2.2

theorem state_send (c : TCPConnection) (isInLoopThread : Bool) (message : Bytes)
    (w : WriteResult) : (c.send isInLoopThread message w).1.state = c.state := by
  unfold send
  split_ifs
  · exact c.state_sendInLoop message w
  all_goals rfl

theorem state_handleWrite (c : TCPConnection) (w : WriteResult) :
    (c.handleWrite w).1.state = c.state := by
  rcases hd : c.drain w with ⟨c', es, drained⟩
  simp only [handleWrite, hd]
  exact (drain_stream hd).2

theorem acceptedOf_shutdownInLoop (c : TCPConnection) : acceptedOf c.shutdownInLoop = [] := by
  unfold shutdownInLoop
  split_ifs <;> rfl

theorem acceptedOf_append (es es' : List Effect) :
    acceptedOf (es ++ es') = acceptedOf es ++ acceptedOf es' :=
  List.flatMap_append

theorem acceptedOf_afterDrain (c : TCPConnection) : acceptedOf c.afterDrain = [] := by
  unfold afterDrain
  split_ifs
  · exact c.acceptedOf_shutdownInLoop
  · rfl

/-- `handleWrite` is its first part, after which it may go on to the half-close. -/
theorem drain_of_handleWrite (hc : c.handleWrite result = (c', es)) :
    ∃ ds drained, c.drain result = (c', ds, drained) ∧
      es = ds ++ if drained then c'.afterDrain else [] := by
  rcases hd : c.drain result with ⟨d, ds, drained⟩
  simp only [handleWrite, hd, Prod.mk.injEq] at hc
  obtain ⟨rfl, rfl⟩ := hc
  exact ⟨ds, drained, rfl, rfl⟩

theorem handleWrite_stream (hc : c.handleWrite result = (c', es)) :
    acceptedOf es ++ c'.outputBuffer = c.outputBuffer ∧ c'.state = c.state := by
  obtain ⟨ds, drained, hd, rfl⟩ := drain_of_handleWrite hc
  obtain ⟨hstream, hst⟩ := drain_stream hd
  refine ⟨?_, hst⟩
  rw [acceptedOf_append]
  split_ifs
  · rwa [acceptedOf_afterDrain, List.append_nil]
  · rwa [show acceptedOf [] = [] from rfl, List.append_nil]

/-- One call continues the stream by what it contributes. -/
theorem call_stream {a : Call} (hs : c.state ≠ .kDisconnected) (hc : c.call a = (c', es)) :
    acceptedOf es ++ c'.outputBuffer = c.outputBuffer ++ contribution (a, es) ∧
      c'.state ≠ .kDisconnected := by
  cases a with
  | sendInLoop message result =>
    exact ⟨sendInLoop_stream hs hc, (sendInLoop_cases hs hc).1 ▸ hs⟩
  | handleWrite result =>
    obtain ⟨hstream, hst⟩ := handleWrite_stream hc
    exact ⟨by simp [hstream, contribution], hst ▸ hs⟩
  | shutdownInLoop =>
    obtain ⟨rfl, rfl⟩ := Prod.mk.inj hc
    exact ⟨by simp [acceptedOf_shutdownInLoop, contribution], hs⟩
  | connectEstablished | handleRead chunk | setDisconnecting =>
    obtain ⟨rfl, rfl⟩ := Prod.mk.inj hc
    exact ⟨by simp [acceptedOf, Effect.accepted, contribution, setState], by simp_all [setState]⟩
  | startReadInLoop | stopReadInLoop =>
    obtain ⟨rfl, rfl⟩ := Prod.mk.inj hc
    simp only [startReadInLoop, stopReadInLoop]
    split_ifs <;> exact ⟨by simp [acceptedOf, contribution], hs⟩

theorem accepted_snoc (h : List (Call × List Effect)) (a : Call × List Effect) :
    accepted (h ++ [a]) = accepted h ++ acceptedOf a.2 := by
  simp [accepted]

theorem messages_snoc (h : List (Call × List Effect)) (a : Call × List Effect) :
    messages (h ++ [a]) = messages h ++ contribution a := by
  simp [messages]

/-- No byte is lost, duplicated or reordered: what the kernel took, followed by what is queued,
is the concatenation of the messages sent. -/
theorem output_stream_intact {h : List (Call × List Effect)} (he : loopThread.Exec h c) :
    accepted h ++ c.outputBuffer = messages h := by
  suffices inv : accepted h ++ c.outputBuffer = messages h ∧ c.state ≠ .kDisconnected from inv.1
  induction he with
  | start hi =>
    obtain ⟨hst, -, hout⟩ := hi
    exact ⟨by simp [accepted, messages, hout], hst⟩
  | @snoc h c c' a _ hs ih =>
    obtain ⟨a, es⟩ := a
    obtain ⟨hstream, hst⟩ := ih
    obtain ⟨hcall, hst'⟩ := call_stream hst (call_of_next hs)
    refine ⟨?_, hst'⟩
    simp only [accepted, messages, List.flatMap_append, List.flatMap_singleton] at hstream ⊢
    rw [List.append_assoc, hcall, ← List.append_assoc, hstream]

/-- A partial direct write, a second message queued behind it, then a drain. -/
def sampleRun : List (Call × List Effect) :=
  [(.sendInLoop [1, 2, 3] (.wrote 1), [.write [1, 2, 3] (.wrote 1)]),
   (.sendInLoop [4] (.wrote 0), []),
   (.handleWrite (.wrote 3), [.write [2, 3, 4] (.wrote 3)])]

theorem output_stream_intact_sample :
    ∃ c, loopThread.Exec sampleRun c ∧ accepted sampleRun ++ c.outputBuffer = [1, 2, 3, 4] := by
  have hr : (sampleRun.foldlM next (new false false)).isSome = true := by decide
  obtain ⟨c, hc⟩ := Option.isSome_iff_exists.mp hr
  have hi : loopThread.init (new false false) := ⟨by decide, Channel.isWriting_new, rfl⟩
  have he : loopThread.Exec sampleRun c := Trace.LTS.exec_of_foldlM (fun _ _ _ h => h) hi hc
  exact ⟨c, he, output_stream_intact he⟩

end TCPConnection

end Lute
