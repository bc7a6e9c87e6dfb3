import Lute.Lib.Edge
import Lute.Polaris.OutputStream

/-! When a connection tells its owner that too much output is waiting. -/
namespace Lute

namespace TCPConnection

/-- The size with which `highWaterMarkCallback_` is handed to the loop. -/
def Effect.notified : Effect → Option Nat
  | .queueInLoop (.highWaterMarkCallback len) => some len
  | _ => none

/-- A call of the loop thread with its effects, and the backlog it leaves. -/
structure Turn where
  call : Call
  effects : List Effect
  backlog : Nat
  deriving DecidableEq, Repr

def Turn.notified (a : Turn) : List Nat := a.effects.filterMap Effect.notified

/-- A call that has these effects and leaves this backlog. -/
def nextTurn (c : TCPConnection) (a : Turn) : Option TCPConnection :=
  (c.next (a.call, a.effects)).filter fun c' => a.backlog = c'.outputBuffer.length

/-- The loop thread's calls on a connection that has its mark and its callback, from a time when
the backlog is below the mark. -/
def markedThread (mark : Nat) : Trace.LTS TCPConnection Turn where
  init c := c.state ≠ .kDisconnected ∧ c.highWaterMark = mark ∧
    c.highWaterMarkCallback = true ∧ c.outputBuffer.length < mark
  step c a c' := c.nextTurn a = some c'

/-- The notifications of a run: each with the backlog that its call leaves, two of them only with
the backlog below the mark in between, and one since the backlog was last below the mark. -/
structure EdgeTriggered (mark : Nat) (h : List Turn) : Prop where
  size : ∀ a ∈ h, a.notified = [] ∨
    a.notified = [a.backlog] ∧ ∃ message result, a.call = .sendInLoop message result
  between : ∀ pre a mid b post, h = pre ++ a :: (mid ++ b :: post) → a.notified ≠ [] →
    b.notified ≠ [] → ∃ d ∈ mid, d.backlog < mark
  since : ∀ pre d post, h = pre ++ d :: post → mark ≤ d.backlog →
    ∃ before a after, pre ++ [d] = before ++ a :: after ∧ a.notified ≠ [] ∧
      ∀ e ∈ a :: after, mark ≤ e.backlog

variable {c c' : TCPConnection} {message : Bytes} {result : WriteResult} {es : List Effect}
  {a : Call} {mark n : Nat} {h : List Turn}

/-- The notification owed for a backlog that goes from `old` to `new`. -/
def crossing (mark old new : Nat) : List Nat := if old < mark ∧ mark ≤ new then [new] else []

theorem crossing_of_le {old new : Nat} (hle : new ≤ old) : crossing mark old new = [] := by
  unfold crossing
  rw [if_neg (by omega)]

theorem crossing_ne_nil {old new : Nat} : crossing mark old new ≠ [] ↔ old < mark ∧ mark ≤ new := by
  unfold crossing
  split_ifs with hc <;> simp [hc]

theorem enqueue_notified (hcb : c.highWaterMarkCallback = true) :
    (c.enqueue message n).2.filterMap Effect.notified =
      crossing c.highWaterMark c.outputBuffer.length
        (c.enqueue message n).1.outputBuffer.length := by
  by_cases hpos : 0 < message.length - n
  · simp only [enqueue, if_pos hpos, List.length_append, List.length_drop, hcb, and_true]
    by_cases hup : c.highWaterMark ≤ c.outputBuffer.length + (message.length - n) ∧
        c.outputBuffer.length < c.highWaterMark
    · rw [if_pos hup, crossing, if_pos hup.symm]
      rfl
    · rw [if_neg hup, crossing, if_neg fun hc => hup hc.symm]
      rfl
  · simp only [enqueue, if_neg hpos]
    exact (crossing_of_le le_rfl).symm

theorem sendInLoop_notified (hcb : c.highWaterMarkCallback = true) :
    (c.sendInLoop message result).2.filterMap Effect.notified =
      crossing c.highWaterMark c.outputBuffer.length
        (c.sendInLoop message result).1.outputBuffer.length := by
  rcases c.sendInLoop_enqueue message result with ⟨es, heq, hes⟩ | ⟨-, n, es, heq, hes⟩
  · rw [heq, crossing_of_le le_rfl, List.filterMap_eq_nil_iff]
    intro e he
    rw [hes e he]
    rfl
  · have hnone : es.filterMap Effect.notified = [] := by
      rw [List.filterMap_eq_nil_iff]
      intro e he
      rcases hes e he with rfl | rfl <;> rfl
    rw [heq, List.filterMap_append, hnone, List.nil_append, enqueue_notified hcb]

/-- `handleWrite` hands no other callback to the loop. -/
theorem drain_effects (c : TCPConnection) (result : WriteResult) : ∀ e ∈ (c.drain result).2.1,
    e = .write c.outputBuffer result ∨ e = .queueInLoop .writeCompleteCallback := by
  unfold drain
  by_cases hw : c.channel.isWriting = true
  · rw [if_pos hw]
    cases result with
    | failed errno => simp
    | wrote n =>
      dsimp only
      split_ifs <;> simp
  · rw [if_neg hw]
    simp

/-- Writing takes from the backlog, and owes no notification. -/
theorem handleWrite_notified (hc : c.handleWrite result = (c', es)) :
    es.filterMap Effect.notified = [] ∧ c'.outputBuffer.length ≤ c.outputBuffer.length := by
  obtain ⟨ds, drained, hd, rfl⟩ := drain_of_handleWrite hc
  constructor
  · have hrest : (if drained then c'.afterDrain else []).filterMap Effect.notified = [] := by
      unfold afterDrain shutdownInLoop
      split_ifs <;> rfl
    rw [List.filterMap_append, hrest, List.append_nil, List.filterMap_eq_nil_iff]
    intro e he
    have heffects := c.drain_effects result
    rw [hd] at heffects
    rcases heffects e he with rfl | rfl <;> rfl
  · rcases drain_cases hd with ⟨-, rfl, -, -⟩ | ⟨-, -, -, h⟩ | ⟨-, -, n, qs, -, -, -, -, -, rfl⟩
    · exact le_rfl
    · rcases h with ⟨n, -, -, rfl⟩ | ⟨errno, -, rfl⟩ | ⟨-, rfl⟩
      · simp
      all_goals exact le_rfl
    · simp

/-- What a call owes for the change of the backlog, it hands to the loop. -/
theorem call_notified (hcb : c.highWaterMarkCallback = true) (hc : c.call a = (c', es)) :
    es.filterMap Effect.notified =
      crossing c.highWaterMark c.outputBuffer.length c'.outputBuffer.length := by
  cases a with
  | sendInLoop message result =>
    have hsend := @sendInLoop_notified c message result hcb
    rwa [show c.sendInLoop message result = (c', es) from hc] at hsend
  | handleWrite result =>
    obtain ⟨hnone, hle⟩ := handleWrite_notified hc
    rw [hnone, crossing_of_le hle]
  | connectEstablished | handleRead chunk | setDisconnecting =>
    obtain ⟨rfl, rfl⟩ := Prod.mk.inj hc
    exact (crossing_of_le le_rfl).symm
  | shutdownInLoop =>
    obtain ⟨rfl, rfl⟩ := Prod.mk.inj hc
    rw [crossing_of_le le_rfl, shutdownInLoop]
    split_ifs <;> rfl
  | startReadInLoop | stopReadInLoop =>
    obtain ⟨rfl, rfl⟩ := Prod.mk.inj hc
    refine (crossing_of_le ?_).symm
    simp only [startReadInLoop, stopReadInLoop]
    split_ifs <;> exact le_rfl

/-- Only `sendInLoop` makes a backlog larger. -/
theorem call_backlog (hc : c.call a = (c', es))
    (hup : c.outputBuffer.length < c'.outputBuffer.length) :
    ∃ message result, a = .sendInLoop message result := by
  cases a with
  | sendInLoop message result => exact ⟨message, result, rfl⟩
  | handleWrite result => exact absurd (handleWrite_notified hc).2 (Nat.not_le.mpr hup)
  | connectEstablished | handleRead chunk | setDisconnecting | shutdownInLoop =>
    obtain ⟨rfl, rfl⟩ := Prod.mk.inj hc
    exact absurd hup (lt_irrefl _)
  | startReadInLoop | stopReadInLoop =>
    obtain ⟨rfl, rfl⟩ := Prod.mk.inj hc
    simp only [startReadInLoop, stopReadInLoop] at hup
    split_ifs at hup <;> exact absurd hup (lt_irrefl _)

/-- No call sets the mark or the callback. -/
theorem call_mark (hc : c.call a = (c', es)) :
    c'.highWaterMark = c.highWaterMark ∧ c'.highWaterMarkCallback = c.highWaterMarkCallback := by
  cases a with
  | sendInLoop message result =>
    replace hc : c.sendInLoop message result = (c', es) := hc
    rcases c.sendInLoop_enqueue message result with ⟨es', heq, -⟩ | ⟨-, n, es', heq, -⟩
    · obtain ⟨rfl, -⟩ := Prod.mk.inj (heq.symm.trans hc)
      exact ⟨rfl, rfl⟩
    · obtain ⟨rfl, -⟩ := Prod.mk.inj (heq.symm.trans hc)
      unfold enqueue
      dsimp only
      split_ifs <;> exact ⟨rfl, rfl⟩
  | handleWrite result =>
    obtain ⟨ds, drained, hd, -⟩ := drain_of_handleWrite hc
    rcases drain_cases hd with ⟨-, rfl, -, -⟩ | ⟨-, -, -, h⟩ | ⟨-, -, n, qs, -, -, -, -, -, rfl⟩
    · exact ⟨rfl, rfl⟩
    · rcases h with ⟨n, -, -, rfl⟩ | ⟨errno, -, rfl⟩ | ⟨-, rfl⟩ <;> exact ⟨rfl, rfl⟩
    · exact ⟨rfl, rfl⟩
  | connectEstablished | handleRead chunk | setDisconnecting | shutdownInLoop =>
    obtain ⟨rfl, rfl⟩ := Prod.mk.inj hc
    exact ⟨rfl, rfl⟩
  | startReadInLoop | stopReadInLoop =>
    obtain ⟨rfl, rfl⟩ := Prod.mk.inj hc
    simp only [startReadInLoop, stopReadInLoop]
    split_ifs <;> exact ⟨rfl, rfl⟩

/-- A turn after the history `pre`, the backlog being `start` before it. -/
def Owed (mark start : Nat) (pre : List Turn) (a : Turn) : Prop :=
  a.notified = crossing mark (Edge.levelAfter Turn.backlog start pre) a.backlog ∧
    (a.notified ≠ [] → ∃ message result, a.call = .sendInLoop message result)

/-- A run notifies of each crossing, and of nothing else. -/
theorem owed_exec (he : (markedThread mark).Exec h c) : ∃ start < mark,
    Edge.levelAfter Turn.backlog start h = c.outputBuffer.length ∧
      c.highWaterMark = mark ∧ c.highWaterMarkCallback = true ∧
      Trace.Always (Owed mark start) h := by
  induction he with
  | @start c hi =>
    obtain ⟨-, hmark, hcb, hlow⟩ := hi
    exact ⟨_, hlow, rfl, hmark, hcb, Trace.always_nil⟩
  | @snoc h c c' a _ hs ih =>
    obtain ⟨start, hlow, hlevel, hmark, hcb, hall⟩ := ih
    obtain ⟨hnext, hback⟩ := Option.filter_eq_some_iff.mp hs
    replace hback := of_decide_eq_true hback
    have hcall := call_of_next hnext
    obtain ⟨hmark', hcb'⟩ := call_mark hcall
    have hnote : a.notified = crossing mark c.outputBuffer.length c'.outputBuffer.length :=
      hmark ▸ call_notified hcb hcall
    refine ⟨start, hlow, by simp [hback], hmark'.trans hmark, hcb'.trans hcb, hall.snoc ⟨?_, ?_⟩⟩
    · rw [hlevel, hback, hnote]
    · intro hne
      rw [hnote, crossing_ne_nil] at hne
      exact call_backlog hcall (by omega)

/-- Whatever the writes return, the owner is notified on each rise of the backlog over the mark and
at no other time, with the backlog as it is then. -/
theorem high_water_edge_triggered (he : (markedThread mark).Exec h c) : EdgeTriggered mark h := by
  obtain ⟨start, hlow, -, -, -, howed⟩ := owed_exec he
  have hrising : Edge.Rising Turn.backlog (fun a => a.notified ≠ []) mark start h :=
    howed.imp fun pre a ha => by
      dsimp only
      rw [ha.1, crossing_ne_nil]
  refine ⟨fun a ha => ?_, fun pre a mid b post heq => hrising.below_between heq,
    fun pre d post heq hup => ?_⟩
  · obtain ⟨pre, post, heq⟩ := List.append_of_mem ha
    obtain ⟨hnote, hsend⟩ := howed pre a post heq
    by_cases hne : a.notified = []
    · exact .inl hne
    · refine .inr ⟨?_, hsend hne⟩
      have hcross := crossing_ne_nil.mp (hnote ▸ hne)
      rw [hnote, crossing, if_pos hcross]
  · have hpart : h = (pre ++ [d]) ++ post := by simp [heq]
    rw [hpart] at hrising
    exact hrising.of_append.signalled_since hlow (by simpa using hup)

/-- Two messages that cannot be written, a partial write, and a third message. -/
def twiceOver : List Turn :=
  [⟨.sendInLoop [1, 2] (.failed .EWOULDBLOCK), [.write [1, 2] (.failed .EWOULDBLOCK)], 2⟩,
   ⟨.sendInLoop [3, 4] (.wrote 0), [.queueInLoop (.highWaterMarkCallback 4)], 4⟩,
   ⟨.handleWrite (.wrote 3), [.write [1, 2, 3, 4] (.wrote 3)], 1⟩,
   ⟨.sendInLoop [5, 6] (.wrote 0), [.queueInLoop (.highWaterMarkCallback 3)], 3⟩]

theorem high_water_edge_triggered_twice : ∃ c, (markedThread 3).Exec twiceOver c ∧
    twiceOver.flatMap Turn.notified = [4, 3] ∧ EdgeTriggered 3 twiceOver := by
  have hr : (twiceOver.foldlM nextTurn
      { new false true with highWaterMark := 3 }).isSome = true := by decide
  obtain ⟨c, hc⟩ := Option.isSome_iff_exists.mp hr
  have hi : (markedThread 3).init { new false true with highWaterMark := 3 } :=
    ⟨by decide, rfl, rfl, by decide⟩
  have he : (markedThread 3).Exec twiceOver c :=
    Trace.LTS.exec_of_foldlM (fun _ _ _ h => h) hi hc
  exact ⟨c, he, rfl, high_water_edge_triggered he⟩

end TCPConnection

end Lute
