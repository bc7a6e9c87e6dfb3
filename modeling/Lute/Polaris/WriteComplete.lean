import Lute.Polaris.WriteInterest

/-! When a connection tells its owner that everything has been written. -/
namespace Lute

namespace TCPConnection

def Effect.isComplete : Effect → Bool
  | .queueInLoop .writeCompleteCallback => true
  | _ => false

/-- How often `writeCompleteCallback_` is handed to the loop. -/
def completions (es : List Effect) : Nat := es.countP Effect.isComplete

/-- The loop thread's calls on a connection that has the callback and nothing to write yet. -/
def completing : Trace.LTS TCPConnection (Call × List Effect) where
  init c := loopThread.init c ∧ c.writeCompleteCallback = true
  step := loopThread.step

/-- The call got rid of the last of the output, be it that of an empty message. -/
def Finishes (pre : List (Call × List Effect)) (a : Call × List Effect) : Prop :=
  accepted (pre ++ [a]) = messages (pre ++ [a]) ∧
    (acceptedOf a.2 ≠ [] ∨ a.1 = .sendInLoop [] (.wrote 0))

variable {c c' : TCPConnection} {message : Bytes} {result : WriteResult} {es es' : List Effect}
  {a : Call} {h : List (Call × List Effect)} {n : Nat}

theorem completions_append : completions (es ++ es') = completions es + completions es' :=
  List.countP_append

/-- The effects `es` of a call that leaves `rest` tell of completion as they should. -/
def Tells (rest : Bytes) (empty : Prop) (es : List Effect) : Prop :=
  (rest = [] ∧ (acceptedOf es ≠ [] ∨ empty)) ∧ completions es = 1 ∨
    ¬ (rest = [] ∧ (acceptedOf es ≠ [] ∨ empty)) ∧ completions es = 0

theorem tells_pending {rest : Bytes} {empty : Prop} (hr : rest ≠ []) (hc : completions es = 0) :
    Tells rest empty es :=
  .inr ⟨fun h => hr h.1, hc⟩

theorem tells_nothing {rest : Bytes} {empty : Prop} (ha : acceptedOf es = []) (he : ¬ empty)
    (hc : completions es = 0) : Tells rest empty es :=
  .inr ⟨fun h => h.2.elim (fun hne => hne ha) he, hc⟩

theorem enqueue_effects (c : TCPConnection) (message : Bytes) (n : Nat) :
    completions (c.enqueue message n).2 = 0 ∧ acceptedOf (c.enqueue message n).2 = [] := by
  unfold enqueue
  dsimp only
  split_ifs <;> exact ⟨rfl, rfl⟩

/-- A message that goes behind others. -/
theorem queued_tells (hout : c.outputBuffer ≠ []) (empty : Prop) :
    Tells (c.enqueue message 0).1.outputBuffer empty (c.enqueue message 0).2 := by
  refine tells_pending ?_ (c.enqueue_effects message 0).1
  rw [(c.enqueue_spec message 0).1]
  exact List.append_ne_nil_of_left_ne_nil hout _

/-- A message that was tried at once, and of which `n` bytes were taken. -/
theorem direct_tells (hout : c.outputBuffer = []) (hcb : c.writeCompleteCallback = true)
    (hn : n ≤ message.length) :
    Tells (c.enqueue message n).1.outputBuffer (message = [] ∧ WriteResult.wrote n = .wrote 0)
      (.write message (.wrote n) ::
        (if message.length - n = 0 ∧ c.writeCompleteCallback then
          [.queueInLoop .writeCompleteCallback] else []) ++ (c.enqueue message n).2) := by
  obtain ⟨hzero, hnone⟩ := c.enqueue_effects message n
  rw [(c.enqueue_spec message n).1, hout, List.nil_append, Tells, completions_append, hzero,
    acceptedOf_append, hnone]
  by_cases hall : message.length - n = 0
  · obtain rfl : n = message.length := by omega
    rw [if_pos ⟨hall, hcb⟩]
    refine .inl ⟨⟨List.drop_length, ?_⟩, rfl⟩
    cases message with
    | nil => exact .inr ⟨rfl, rfl⟩
    | cons b bs => exact .inl (by simp [acceptedOf, Effect.accepted])
  · rw [if_neg fun h => hall h.1]
    refine .inr ⟨fun hrest => hall ?_, rfl⟩
    rw [← List.length_drop, hrest.1, List.length_nil]

theorem sendInLoop_tells (hw : c.WriteInterest) (hs : c.state ≠ .kDisconnected)
    (hcb : c.writeCompleteCallback = true)
    (hp : ∀ e ∈ (c.sendInLoop message result).2, e.possible) :
    Tells (c.sendInLoop message result).1.outputBuffer (message = [] ∧ result = .wrote 0)
      (c.sendInLoop message result).2 := by
  unfold sendInLoop at hp ⊢
  rw [if_neg hs] at hp ⊢
  by_cases hdirect : (!c.channel.isWriting && c.outputBuffer.isEmpty) = true
  · have hout : c.outputBuffer = [] :=
      List.isEmpty_iff.mp ((Bool.and_eq_true _ _).mp hdirect).2
    rw [if_pos hdirect] at hp ⊢
    cases result with
    | wrote n =>
      have hle : (Effect.write message (.wrote n)).possible := hp _ List.mem_cons_self
      exact direct_tells hout hcb (of_decide_eq_true hle)
    | failed errno =>
      dsimp only
      split_ifs
      · exact tells_nothing rfl (by simp) rfl
      · obtain ⟨hzero, hnone⟩ := c.enqueue_effects message 0
        refine tells_nothing ?_ (by simp) ?_
        · rw [acceptedOf_cons, hnone]
          rfl
        · exact hzero
  · have hout : c.outputBuffer ≠ [] := by
      intro hnil
      have hwriting : ¬ c.channel.isWriting = true := fun h => hw.mp h hnil
      simp [hnil, hwriting] at hdirect
    rw [if_neg hdirect]
    exact queued_tells hout _

theorem drain_tells {drained : Bool} (hw : c.WriteInterest) (hcb : c.writeCompleteCallback = true)
    (hc : c.drain result = (c', es, drained)) :
    Tells c'.outputBuffer False es := by
  unfold drain at hc
  by_cases hwriting : c.channel.isWriting = true
  · have hout := hw.mp hwriting
    rw [if_pos hwriting] at hc
    cases result with
    | failed errno =>
      obtain ⟨rfl, rfl, -⟩ := by simpa using hc
      exact tells_nothing rfl id rfl
    | wrote n =>
      dsimp only at hc
      by_cases hn : 0 < n
      · have htaken : c.outputBuffer.take n ≠ [] := by
          simpa [hout] using Nat.pos_iff_ne_zero.mp hn
        rw [if_pos hn] at hc
        by_cases hrest : (c.outputBuffer.drop n).isEmpty = true
        · rw [if_pos hrest, hcb, if_pos rfl] at hc
          obtain ⟨rfl, rfl, -⟩ := by simpa using hc
          refine .inl ⟨⟨List.isEmpty_iff.mp hrest, .inl ?_⟩, rfl⟩
          simpa [acceptedOf, Effect.accepted] using htaken
        · rw [if_neg hrest] at hc
          obtain ⟨rfl, rfl, -⟩ := by simpa using hc
          exact tells_pending (fun hnil => hrest (List.isEmpty_iff.mpr hnil)) rfl
      · rw [if_neg hn] at hc
        obtain rfl : n = 0 := by omega
        obtain ⟨rfl, rfl, -⟩ := by simpa using hc
        exact tells_nothing rfl id rfl
  · rw [if_neg hwriting] at hc
    obtain ⟨rfl, rfl, -⟩ := by simpa using hc
    exact tells_nothing rfl id rfl

theorem handleWrite_tells (hw : c.WriteInterest) (hcb : c.writeCompleteCallback = true)
    (hc : c.handleWrite result = (c', es)) :
    Tells c'.outputBuffer False es := by
  obtain ⟨ds, drained, hd, rfl⟩ := drain_of_handleWrite hc
  have htells := drain_tells hw hcb hd
  have hnone : acceptedOf (if drained then c'.afterDrain else []) = [] ∧
      completions (if drained then c'.afterDrain else []) = 0 := by
    unfold afterDrain shutdownInLoop
    split_ifs <;> exact ⟨rfl, rfl⟩
  rwa [Tells, acceptedOf_append, completions_append, hnone.1, hnone.2, List.append_nil]

theorem call_tells (hw : c.WriteInterest) (hs : c.state ≠ .kDisconnected)
    (hcb : c.writeCompleteCallback = true) (hp : ∀ e ∈ es, e.possible)
    (hc : c.call a = (c', es)) :
    Tells c'.outputBuffer (a = .sendInLoop [] (.wrote 0)) es := by
  cases a with
  | sendInLoop message result =>
    have hc' : c.sendInLoop message result = (c', es) := hc
    have h : Tells (c.sendInLoop message result).1.outputBuffer
        (message = [] ∧ result = .wrote 0) (c.sendInLoop message result).2 :=
      sendInLoop_tells hw hs hcb (by rwa [hc'])
    rw [hc'] at h
    simpa only [Call.sendInLoop.injEq] using h
  | handleWrite result =>
    simpa using handleWrite_tells hw hcb hc
  | connectEstablished | handleRead chunk | setDisconnecting =>
    obtain ⟨rfl, rfl⟩ := Prod.mk.inj hc
    exact tells_nothing rfl (by simp) rfl
  | shutdownInLoop =>
    obtain ⟨rfl, rfl⟩ := Prod.mk.inj hc
    refine tells_nothing c.acceptedOf_shutdownInLoop (by simp) ?_
    unfold shutdownInLoop
    split_ifs <;> rfl
  | startReadInLoop | stopReadInLoop =>
    obtain ⟨rfl, rfl⟩ := Prod.mk.inj hc
    exact tells_nothing rfl (by simp) rfl

/-- No call takes the callback away. -/
theorem call_keeps (hc : c.call a = (c', es)) :
    c'.writeCompleteCallback = c.writeCompleteCallback := by
  cases a with
  | sendInLoop message result =>
    replace hc : c.sendInLoop message result = (c', es) := hc
    rcases c.sendInLoop_enqueue message result with ⟨es', heq, -⟩ | ⟨-, n, es', heq, -⟩
    · obtain ⟨rfl, -⟩ := Prod.mk.inj (heq.symm.trans hc)
      rfl
    · obtain ⟨rfl, -⟩ := Prod.mk.inj (heq.symm.trans hc)
      unfold enqueue
      dsimp only
      split_ifs <;> rfl
  | handleWrite result =>
    obtain ⟨ds, drained, hd, -⟩ := drain_of_handleWrite hc
    rcases drain_cases hd with ⟨-, rfl, -, -⟩ | ⟨-, -, -, h⟩ | ⟨-, -, n, qs, -, -, -, -, -, rfl⟩
    · rfl
    · rcases h with ⟨n, -, -, rfl⟩ | ⟨errno, -, rfl⟩ | ⟨-, rfl⟩ <;> rfl
    · rfl
  | connectEstablished | handleRead chunk | setDisconnecting | shutdownInLoop =>
    obtain ⟨rfl, rfl⟩ := Prod.mk.inj hc
    rfl
  | startReadInLoop | stopReadInLoop =>
    obtain ⟨rfl, rfl⟩ := Prod.mk.inj hc
    simp only [startReadInLoop, stopReadInLoop]
    split_ifs <;> rfl

/-- A connection in a run with the history `h`. -/
structure Completing (h : List (Call × List Effect)) (c : TCPConnection) : Prop where
  state : c.state ≠ .kDisconnected
  interest : c.WriteInterest
  callback : c.writeCompleteCallback = true
  stream : accepted h ++ c.outputBuffer = messages h

theorem completing_step (hi : Completing h c) (hs : loopThread.step c (a, es) c') :
    Completing (h ++ [(a, es)]) c' ∧
      (Finishes h (a, es) ∧ completions es = 1 ∨ ¬ Finishes h (a, es) ∧ completions es = 0) := by
  have hcall := call_of_next hs
  obtain ⟨⟨-, hp⟩, -⟩ := Option.ite_none_right_eq_some.mp hs
  obtain ⟨hstream, hst⟩ := call_stream hi.state hcall
  have hinterest : (c.call a).1.WriteInterest := hi.interest.call
  rw [hcall] at hinterest
  have hnow : accepted (h ++ [(a, es)]) ++ c'.outputBuffer = messages (h ++ [(a, es)]) := by
    rw [accepted_snoc, messages_snoc, List.append_assoc, hstream, ← List.append_assoc, hi.stream]
  refine ⟨⟨hst, hinterest, (call_keeps hcall).trans hi.callback, hnow⟩, ?_⟩
  have hempty : accepted (h ++ [(a, es)]) = messages (h ++ [(a, es)]) ↔ c'.outputBuffer = [] := by
    rw [← hnow]
    exact List.self_eq_append_right
  rw [Finishes, hempty]
  exact call_tells hi.interest hi.state hi.callback hp hcall

theorem completing_exec (he : completing.Exec h c) :
    Completing h c ∧ Trace.Always (fun pre a =>
      Finishes pre a ∧ completions a.2 = 1 ∨ ¬ Finishes pre a ∧ completions a.2 = 0) h := by
  induction he with
  | start hi =>
    obtain ⟨⟨hst, hw, hout⟩, hcb⟩ := hi
    exact ⟨⟨hst, by simp [WriteInterest, hw, hout], hcb, by simp [accepted, messages, hout]⟩,
      Trace.always_nil⟩
  | @snoc h c c' a _ hs ih =>
    obtain ⟨a, es⟩ := a
    obtain ⟨hi', htells⟩ := completing_step ih.1 hs
    exact ⟨hi', ih.2.snoc htells⟩

/-- In every run up to the close `writeCompleteCallback_`, which is set, is handed to the loop once
by each call with which the kernel has got all that was sent so far, and by no other. -/
theorem write_complete_exact (he : completing.Exec h c) (pre : List (Call × List Effect))
    (a : Call × List Effect) (post : List (Call × List Effect)) (heq : h = pre ++ a :: post) :
    (Finishes pre a ↔ completions a.2 = 1) ∧ completions a.2 ≤ 1 := by
  rcases (completing_exec he).2 pre a post heq with ⟨hf, hone⟩ | ⟨hf, hzero⟩
  · exact ⟨iff_of_true hf hone, le_of_eq hone⟩
  · exact ⟨iff_of_false hf (by omega), by omega⟩

/-- A message written in two parts, the second of which completes it. -/
def completes : List (Call × List Effect) :=
  [(.sendInLoop [1, 2, 3] (.wrote 1), [.write [1, 2, 3] (.wrote 1)]),
   (.handleWrite (.wrote 2),
     [.write [2, 3] (.wrote 2), .queueInLoop .writeCompleteCallback])]

theorem write_complete_exact_second : (∃ c, completing.Exec completes c) ∧
    Finishes (completes.take 1)
      (.handleWrite (.wrote 2),
        [.write [2, 3] (.wrote 2), .queueInLoop .writeCompleteCallback]) := by
  have hr : (completes.foldlM next (new true false)).isSome = true := by decide
  obtain ⟨c, hc⟩ := Option.isSome_iff_exists.mp hr
  have hi : completing.init (new true false) :=
    ⟨⟨by decide, Channel.isWriting_new, rfl⟩, rfl⟩
  have he : completing.Exec completes c := Trace.LTS.exec_of_foldlM (fun _ _ _ h => h) hi hc
  exact ⟨⟨c, he⟩, (write_complete_exact he (completes.take 1) _ [] rfl).1.mpr rfl⟩

end TCPConnection

end Lute
