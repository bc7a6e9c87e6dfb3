import Lute.Polaris.OutputStream

/-! When a connection that is up asks to be told that it can write. -/
namespace Lute

namespace TCPConnection

/-- The steps of the loop thread before the connection is closed: its calls, a read that fails, and
the functions that set `kDisconnecting`. -/
inductive LoopStep
  | call (a : Call)
  | readFailed
  | shutdown
  | forceClose
  | forceCloseWithDelay
  deriving DecidableEq, Repr

def loopStep (c : TCPConnection) : LoopStep → TCPConnection × List Effect
  | .call a => c.call a
  | .readFailed => c.handleRead .failed
  | .shutdown => c.shutdown
  | .forceClose => c.forceClose
  | .forceCloseWithDelay => c.forceCloseWithDelay

/-- One step, if the kernel can answer as it is said to. -/
def nextUp (c : TCPConnection) (a : LoopStep) : Option TCPConnection :=
  if ∀ e ∈ (c.loopStep a).2, e.possible then some (c.loopStep a).1 else none

/-- A connection from its construction on, whatever its owner has set. -/
def upThread : Trace.LTS TCPConnection LoopStep where
  init c := ∃ complete high mark, c = { new complete high with highWaterMark := mark }
  step c a c' := c.nextUp a = some c'

variable {c c' : TCPConnection}

/-- What is neither queued nor watched for writing does not touch the interest. -/
theorem WriteInterest.frame (hw : c.WriteInterest) (hout : c'.outputBuffer = c.outputBuffer)
    (hch : c'.channel.isWriting = c.channel.isWriting) : c'.WriteInterest := by
  unfold WriteInterest
  rwa [hout, hch]

theorem WriteInterest.setDisconnecting {p : Prop} [Decidable p] {es es' : List Effect}
    (hw : c.WriteInterest) :
    (if p then (c.setState .kDisconnecting, es) else (c, es')).1.WriteInterest := by
  by_cases h : p
  · rw [if_pos h]
    exact hw
  · rw [if_neg h]
    exact hw

theorem WriteInterest.call {a : Call} (hw : c.WriteInterest) : (c.call a).1.WriteInterest := by
  cases a with
  | sendInLoop message result => exact hw.sendInLoop
  | handleWrite result =>
    rcases hc : c.handleWrite result with ⟨c', es⟩
    obtain ⟨ds, drained, hd, -⟩ := drain_of_handleWrite hc
    simp only [TCPConnection.call, hc]
    exact hw.drain hd
  | connectEstablished => exact hw.frame rfl (Channel.isWriting_enableReading _)
  | handleRead chunk => exact hw.frame rfl rfl
  | shutdownInLoop => exact hw
  | startReadInLoop =>
    simp only [TCPConnection.call, startReadInLoop]
    split_ifs
    · exact hw.frame rfl (Channel.isWriting_enableReading _)
    · exact hw
  | stopReadInLoop =>
    simp only [TCPConnection.call, stopReadInLoop]
    split_ifs
    · exact hw.frame rfl (Channel.isWriting_disableReading _)
    · exact hw
  | setDisconnecting => exact hw

theorem WriteInterest.loopStep {a : LoopStep} (hw : c.WriteInterest) :
    (c.loopStep a).1.WriteInterest := by
  cases a with
  | call a => exact hw.call
  | readFailed => exact hw
  | shutdown => exact hw.setDisconnecting
  | forceClose => exact hw.setDisconnecting
  | forceCloseWithDelay => exact hw.setDisconnecting

theorem WriteInterest.new (complete high : Bool) (mark : Nat) :
    { TCPConnection.new complete high with highWaterMark := mark }.WriteInterest := by
  have hwriting : Channel.new.isWriting = false := Channel.isWriting_new
  simp [WriteInterest, TCPConnection.new, hwriting]

/-- As long as the connection has not been closed, write interest is on exactly while there is
something left to write. -/
theorem isWriting_iff_pending {h : List LoopStep} (he : upThread.Exec h c) :
    c.channel.isWriting = true ↔ 0 < c.outputBuffer.length := by
  have hw : c.WriteInterest := by
    induction he with
    | start hi =>
      obtain ⟨complete, high, mark, rfl⟩ := hi
      exact WriteInterest.new complete high mark
    | snoc _ hs ih =>
      obtain ⟨-, hc⟩ := Option.ite_none_right_eq_some.mp hs
      rw [← Option.some.inj hc]
      exact ih.loopStep
  rw [List.length_pos_iff]
  exact hw

/-- A message is queued behind a write that would block, and half of it leaves later. -/
def blockedRun : List LoopStep :=
  [.call .connectEstablished, .call (.sendInLoop [1, 2] (.failed .EWOULDBLOCK)), .shutdown,
    .call (.handleWrite (.wrote 1))]

theorem isWriting_iff_pending_blocked :
    ∃ c, upThread.Exec blockedRun c ∧ c.outputBuffer = [2] ∧ c.channel.isWriting = true := by
  have hr : (blockedRun.foldlM nextUp (new false false)).map outputBuffer = some [2] := by decide
  obtain ⟨c, hc, hout⟩ := Option.map_eq_some_iff.mp hr
  have hi : upThread.init (new false false) := ⟨false, false, _, rfl⟩
  have he : upThread.Exec blockedRun c := Trace.LTS.exec_of_foldlM (fun _ _ _ h => h) hi hc
  exact ⟨c, he, hout, (isWriting_iff_pending he).mpr (by rw [hout]; decide)⟩

end TCPConnection

end Lute
