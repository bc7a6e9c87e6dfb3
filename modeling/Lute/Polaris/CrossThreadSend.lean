import Lute.Lib.Mailbox
import Lute.Polaris.ConnectionThreads

/-! Sends from many threads: whole messages, each once, in every thread's own order. -/
namespace Lute

variable {T : Type}

section Queues

variable {es : List TCPConnection.Effect} {l : EventLoop (Task T)}

theorem EventLoop.queueAll_spec (es : List TCPConnection.Effect) (l : EventLoop (Task T)) :
    (l.queueAll es).phase = l.phase ∧ (l.queueAll es).functors = l.functors ∧
      ∃ fs : List TCPConnection.Functor,
        (l.queueAll es).pendingFunctors = l.pendingFunctors ++ fs.map Task.callback := by
  induction es generalizing l with
  | nil => exact ⟨rfl, rfl, [], by simp [queueAll]⟩
  | cons e es ih =>
    cases e with
    | queueInLoop f =>
      obtain ⟨hp, hf, fs, hfs⟩ := ih (l.queueInLoop true (.callback f))
      have hq : (l.queueInLoop true (.callback f)).phase = l.phase ∧
          (l.queueInLoop true (.callback f)).functors = l.functors ∧
          (l.queueInLoop true (.callback f)).pendingFunctors =
            l.pendingFunctors ++ [.callback f] := by
        unfold queueInLoop wakeupIfNeeded
        split_ifs <;> exact ⟨rfl, rfl, rfl⟩
      rw [hq.1] at hp
      rw [hq.2.1] at hf
      rw [hq.2.2] at hfs
      exact ⟨hp, hf, f :: fs, by simpa [queueAll] using hfs⟩
    | _ => exact ih l

theorem EventLoop.waiting_queueAll (es : List TCPConnection.Effect) (l : EventLoop (Task T)) :
    ∃ fs : List TCPConnection.Functor,
      (l.queueAll es).waiting = l.waiting ++ fs.map Task.callback := by
  obtain ⟨-, hf, fs, hfs⟩ := queueAll_spec es l
  exact ⟨fs, by simp [waiting, hf, hfs]⟩

theorem EventLoop.settled_queueAll (hs : l.Settled) : (l.queueAll es).Settled := by
  obtain ⟨hp, hf, -⟩ := queueAll_spec es l
  rwa [Settled, hp, hf]

theorem toSend_callbacks (fs : List TCPConnection.Functor) :
    (fs.map (Task.callback (T := T))).filterMap Task.toSend = [] := by
  simp [List.filterMap_eq_nil_iff, Task.toSend]

end Queues

/-- Both paths of `send` hand over the same bytes and empty a caller's buffer alike. -/
theorem Argument.queued_spec (build : Build) {b : Buffer} (hb : b.WF) (arg : Argument) :
    ∃ b', arg.queued build b = .ok ((arg.inLoop b).1, b') ∧ b'.WF ∧
      b'.content = (arg.inLoop b).2.content := by
  cases arg with
  | string message => exact ⟨b, rfl, hb, rfl⟩
  | pointer memory len => exact ⟨b, rfl, hb, rfl⟩
  | buffer =>
    obtain ⟨b', hq, hwf, hc⟩ := Buffer.retrieveAsString_spec build hb (Nat.le_refl b.readableBytes)
    refine ⟨b', ?_, hwf, ?_⟩
    · rw [queued, Buffer.retrieveAllAsString, hq, ← hb.length_content, List.take_length]
      rfl
    · rw [hc, ← hb.length_content, List.drop_length, inLoop, Buffer.content_retrieveAll]

theorem Argument.inLoop_wf {b : Buffer} (hb : b.WF) (arg : Argument) : (arg.inLoop b).2.WF := by
  cases arg with
  | string message => exact hb
  | pointer memory len => exact hb
  | buffer => exact hb.retrieveAll

namespace ConnectionThreads

variable [DecidableEq T] {build : Build} {s t : ConnectionThreads T} {a : Label T}
  {h : List (Label T)}

/-- The sends of a run, as messages from the threads to the loop thread. -/
def mail (h : List (Label T)) (s : ConnectionThreads T) : Mailbox.State (Thread T) (Send T) where
  issued := accepted h
  held th := (s.pc th).toSend
  queue := s.loop.waiting.filterMap Task.toSend
  done := executed h

structure SendInv (h : List (Label T)) (s : ConnectionThreads T) : Prop where
  settled : s.loop.Settled
  wf : ∀ th, (s.buffers th).WF
  inCall : ∀ th arg m, s.pc th = .sending arg m →
    m.sender = th ∧ m.message = (arg.inLoop (s.buffers th)).1
  fresh : ∀ m ∈ accepted h, m.ticket < s.ticket

omit [DecidableEq T] in
theorem accepted_snoc (h : List (Label T)) (a : Label T) :
    accepted (h ++ [a]) = accepted h ++ accepted [a] :=
  List.filterMap_append

omit [DecidableEq T] in
theorem executed_snoc (h : List (Label T)) (a : Label T) :
    executed (h ++ [a]) = executed h ++ executed [a] :=
  List.filterMap_append

omit [DecidableEq T] in
/-- Steps that start no call of `send` and leave the buffers of the calls under way alone. -/
theorem SendInv.frame (hi : SendInv h s) (hset : t.loop.Settled) (hwf : ∀ th, (t.buffers th).WF)
    (hcall : ∀ th arg m, t.pc th = .sending arg m →
      s.pc th = .sending arg m ∧ t.buffers th = s.buffers th)
    (hacc : accepted [a] = []) (htk : t.ticket = s.ticket) : SendInv (h ++ [a]) t where
  settled := hset
  wf := hwf
  inCall th arg m hpc := by
    obtain ⟨hs, hb⟩ := hcall th arg m hpc
    rw [hb]
    exact hi.inCall th arg m hs
  fresh m hm := by
    rw [accepted_snoc, hacc, List.append_nil] at hm
    rw [htk]
    exact hi.fresh m hm

theorem calls_setPc {th : Thread T} {pc : Pc T} (hpc : pc.toSend = none)
    {buffers : Thread T → Buffer} (hb : ∀ th', th' ≠ th → buffers th' = s.buffers th')
    (th' : Thread T) (arg : Argument) (m : Send T)
    (h : (s.setPc th pc).pc th' = .sending arg m) :
    s.pc th' = .sending arg m ∧ buffers th' = s.buffers th' := by
  by_cases he : th' = th
  · subst he
    have hp : pc = .sending arg m := by simpa [setPc] using h
    simp [hp, Pc.toSend] at hpc
  · exact ⟨by simpa [setPc, he] using h, hb th' he⟩

theorem wf_update {buffers : Thread T → Buffer} {b : Buffer} (hb : b.WF)
    (hwf : ∀ th, (buffers th).WF) (th th' : Thread T) :
    (Function.update buffers th b th').WF := by
  by_cases he : th' = th
  · subst he
    simpa using hb
  · simpa [he] using hwf th'

theorem sendInv_step (hs : Step build s a t) (hi : SendInv h s) : SendInv (h ++ [a]) t := by
  cases hs with
  | move hpc hm _ =>
    exact hi.frame (EventLoop.move_settled hm hi.settled) hi.wf (fun _ _ _ h => ⟨h, rfl⟩) rfl rfl
  | @refill th b hpc hb =>
    refine hi.frame hi.settled (wf_update hb hi.wf th) ?_ rfl rfl
    intro th' arg m h
    have hne : th' ≠ th := by
      rintro rfl
      simp [hpc] at h
    exact ⟨h, by simp [hne]⟩
  | sendRefused | shutdownRefused =>
    exact hi.frame hi.settled hi.wf (fun _ _ _ h => ⟨h, rfl⟩) rfl rfl
  | @sendCall th arg hpc _ hst =>
    refine ⟨hi.settled, hi.wf, ?_, ?_⟩
    · intro th' arg' m h
      by_cases he : th' = th
      · subst he
        obtain ⟨rfl, rfl⟩ : arg = arg' ∧ s.newSend th' arg = m := by simpa [setPc] using h
        exact ⟨rfl, rfl⟩
      · exact hi.inCall th' arg' m (by simpa [setPc, he] using h)
    · intro m hm
      rcases List.mem_append.mp (accepted_snoc h _ ▸ hm) with hm | hm
      · exact Nat.lt_succ_of_lt (hi.fresh m hm)
      · obtain rfl : m = s.newSend th arg := by simpa [accepted] using hm
        exact Nat.lt_succ_self _
  | @sendQueue t arg m message b hpc hq =>
    obtain ⟨b', hq', hwf, -⟩ := arg.queued_spec build (hi.wf (.other t))
    obtain ⟨-, rfl⟩ : (arg.inLoop (s.buffers (.other t))).1 = message ∧ b' = b := by
      simpa [hq'] using hq
    exact hi.frame hi.settled (wf_update hwf hi.wf _)
      (calls_setPc rfl fun th' hne => by simp [hne]) rfl rfl
  | sendReturn | shutdownReturn =>
    exact hi.frame (EventLoop.settled_wakeupIfNeeded _ hi.settled) hi.wf
      (calls_setPc rfl fun _ _ => rfl) rfl rfl
  | @sendHere arg m message b result conn es hpc hq hc hk =>
    obtain rfl : (arg.inLoop (s.buffers .loop)).2 = b := by rw [hq]
    exact hi.frame (EventLoop.settled_queueAll hi.settled)
      (wf_update (arg.inLoop_wf (hi.wf _)) hi.wf _)
      (calls_setPc rfl fun th' hne => by simp [hne]) rfl rfl
  | runSend _ hm hc _ =>
    exact hi.frame (EventLoop.settled_queueAll (EventLoop.move_settled hm hi.settled)) hi.wf
      (fun _ _ _ h => ⟨h, rfl⟩) rfl rfl
  | runShutdown _ hm =>
    exact hi.frame (EventLoop.move_settled hm hi.settled) hi.wf (fun _ _ _ h => ⟨h, rfl⟩) rfl rfl
  | @handleWrite result conn es drained =>
    exact hi.frame (EventLoop.settled_queueAll hi.settled) hi.wf
      (calls_setPc (by cases drained <;> rfl) fun _ _ => rfl) rfl rfl
  | shutdownCall | shutdownSet | shutdownQueue | shutdownHere | afterDrain =>
    exact hi.frame hi.settled hi.wf (calls_setPc rfl fun _ _ => rfl) rfl rfl

/-- The sends after a step, from the parts a step can change. -/
theorem mail_step_of {u : Mailbox.State (Thread T) (Send T)}
    (hu : Mailbox.Step Send.sender .loop (mail h s) u)
    (hacc : accepted h ++ accepted [a] = u.issued) (hheld : ∀ th, (t.pc th).toSend = u.held th)
    (hq : t.loop.waiting.filterMap Task.toSend = u.queue)
    (hex : executed h ++ executed [a] = u.done) :
    Mailbox.Step Send.sender .loop (mail h s) (mail (h ++ [a]) t) := by
  have he : mail (h ++ [a]) t = u := by
    rw [mail, accepted_snoc, executed_snoc, hacc, hq, hex, funext hheld]
  rwa [he]

theorem mail_stutter (hacc : accepted [a] = []) (hex : executed [a] = [])
    (hheld : ∀ th, (t.pc th).toSend = (s.pc th).toSend)
    (hq : t.loop.waiting.filterMap Task.toSend = s.loop.waiting.filterMap Task.toSend) :
    Mailbox.Step Send.sender .loop (mail h s) (mail (h ++ [a]) t) :=
  mail_step_of .stutter (by rw [hacc, List.append_nil]; rfl) hheld hq
    (by rw [hex, List.append_nil]; rfl)

theorem held_setPc (th : Thread T) (pc : Pc T) (th' : Thread T) :
    ((s.setPc th pc).pc th').toSend = Function.update (mail h s).held th pc.toSend th' := by
  by_cases he : th' = th
  · subst he
    simp [setPc]
  · simp [setPc, mail, he]

theorem toSend_setPc {th : Thread T} {pc : Pc T} (hold : (s.pc th).toSend = none)
    (hnew : pc.toSend = none) (th' : Thread T) :
    ((s.setPc th pc).pc th').toSend = (s.pc th').toSend := by
  by_cases he : th' = th
  · subst he
    simp [setPc, hold, hnew]
  · simp [setPc, he]

omit [DecidableEq T] in
theorem toSend_queueAll (es : List TCPConnection.Effect) (l : EventLoop (Task T)) :
    (l.queueAll es).waiting.filterMap Task.toSend = l.waiting.filterMap Task.toSend := by
  obtain ⟨fs, hfs⟩ := EventLoop.waiting_queueAll es l
  rw [hfs, List.filterMap_append, toSend_callbacks, List.append_nil]

omit [DecidableEq T] in
/-- The functor of a queued send carries the bytes the caller had. -/
theorem SendInv.handed_queue (hi : SendInv h s) {t : T} {arg : Argument} {m : Send T}
    {message : Bytes} {b : Buffer} (hpc : s.pc (.other t) = .sending arg m)
    (hq : arg.queued build (s.buffers (.other t)) = .ok (message, b)) :
    m.sender = .other t ∧ m.message = message := by
  obtain ⟨hsend, hmsg⟩ := hi.inCall _ _ _ hpc
  obtain ⟨b', hq', -⟩ := arg.queued_spec build (hi.wf (.other t))
  obtain ⟨rfl, -⟩ : (arg.inLoop (s.buffers (.other t))).1 = message ∧ b' = b := by
    simpa [hq'] using hq
  exact ⟨hsend, hmsg⟩

theorem mail_step (hs : Step build s a t) (hi : SendInv h s) :
    Mailbox.Step Send.sender .loop (mail h s) (mail (h ++ [a]) t) := by
  cases hs with
  | move hpc hm hrun =>
    refine mail_stutter rfl rfl (fun _ => rfl) ?_
    rcases EventLoop.move_waiting hm hi.settled with ⟨f, rfl, hw⟩ | ⟨-, hw⟩
    · obtain ⟨g, rfl⟩ := hrun f rfl
      rw [hw, List.filterMap_cons_none rfl]
    · rw [hw]
  | refill | sendRefused | shutdownRefused => exact mail_stutter rfl rfl (fun _ => rfl) rfl
  | @sendCall th arg hpc _ hst =>
    have hnew : s.newSend th arg ∉ accepted h := fun hm => (hi.fresh _ hm).ne rfl
    have hfree : (mail h s).held (s.newSend th arg).sender = none := by
      simp [mail, newSend, hpc, Pc.toSend]
    exact mail_step_of (.issue hfree hnew) rfl (held_setPc th _) rfl (List.append_nil _)
  | @sendQueue t arg m message b hpc hq =>
    obtain ⟨hsend, rfl⟩ := hi.handed_queue hpc hq
    have hheld : (mail h s).held m.sender = some m := by simp [mail, hsend, hpc, Pc.toSend]
    refine mail_step_of (.enqueue hheld (by simp [hsend])) (List.append_nil _) ?_ ?_
      (List.append_nil _)
    · rw [hsend]
      exact held_setPc (.other t) _
    · rw [EventLoop.waiting_push, List.filterMap_append]
      rfl
  | sendReturn hpc | shutdownReturn hpc =>
    exact mail_stutter rfl rfl (toSend_setPc (by rw [hpc]; rfl) rfl)
      (by rw [EventLoop.waiting_wakeupIfNeeded])
  | @sendHere arg m message b result conn es hpc hq hc hk =>
    obtain ⟨hsend, hmsg⟩ := hi.inCall _ _ _ hpc
    obtain rfl : m.message = message := by rw [hmsg, hq]
    have hheld : (mail h s).held m.sender = some m := by simp [mail, hsend, hpc, Pc.toSend]
    refine mail_step_of (.here hheld hsend) (List.append_nil _) ?_ (toSend_queueAll _ _) rfl
    rw [hsend]
    exact held_setPc .loop _
  | @runSend m l result conn es hpc hm hc _ =>
    have hq : (mail h s).queue = m :: l.waiting.filterMap Task.toSend := by
      simp [mail, EventLoop.waiting_run hm hi.settled, Task.toSend]
    exact mail_step_of (.run hq) (List.append_nil _) (fun _ => rfl) (toSend_queueAll _ _) rfl
  | runShutdown _ hm =>
    refine mail_stutter rfl rfl (fun _ => rfl) ?_
    rw [EventLoop.waiting_run hm hi.settled, List.filterMap_cons_none rfl]
    rfl
  | @handleWrite result conn es drained hpc =>
    exact mail_stutter rfl rfl (toSend_setPc (by rw [hpc]; rfl) (by cases drained <;> rfl))
      (toSend_queueAll _ _)
  | shutdownQueue hpc =>
    exact mail_stutter rfl rfl (toSend_setPc (by rw [hpc]; rfl) rfl)
      (by simp [EventLoop.waiting_push, Task.toSend])
  | shutdownCall hpc | shutdownSet hpc | shutdownHere hpc | afterDrain hpc =>
    exact mail_stutter rfl rfl (toSend_setPc (by rw [hpc]; rfl) rfl) rfl

theorem sends_exec (he : (system T build).Exec h s) :
    SendInv h s ∧ Mailbox.Inv Send.sender .loop (mail h s) := by
  induction he with
  | start hi =>
    obtain ⟨n, hl⟩ := hi.loop
    refine ⟨⟨?_, hi.buffers, ?_, ?_⟩, .empty rfl ?_ ?_ rfl⟩
    · simp [EventLoop.Settled, hl, EventLoop.enter]
    · simp [hi.pc]
    · simp [accepted]
    · simp [mail, hi.pc, Pc.toSend]
    · simp [mail, hl, EventLoop.enter, EventLoop.waiting]
  | snoc _ hs ih => exact ⟨sendInv_step hs ih.1, ih.2.step (mail_step hs ih.1)⟩

/-- One step continues the stream by the message it delivers, if any. -/
theorem step_stream (hs : Step build s a t) (hst : s.conn.state ≠ .kDisconnected) :
    TCPConnection.acceptedOf a.effects ++ t.conn.outputBuffer =
        s.conn.outputBuffer ++ (deliveredBy a).flatMap Send.message ∧
      t.conn.state ≠ .kDisconnected := by
  cases hs with
  | sendHere _ _ hc _ | runSend _ _ hc _ =>
    have hstream := TCPConnection.sendInLoop_stream hst hc
    refine ⟨?_, (TCPConnection.sendInLoop_cases hst hc).1 ▸ hst⟩
    simp only [Label.effects, deliveredBy]
    rw [hstream]
    split_ifs <;> simp
  | handleWrite _ _ hc _ =>
    obtain ⟨hstream, hst'⟩ := TCPConnection.drain_stream hc
    exact ⟨by simpa [Label.effects, deliveredBy] using hstream, hst' ▸ hst⟩
  | shutdownHere | runShutdown =>
    exact ⟨by simp [Label.effects, deliveredBy, TCPConnection.acceptedOf_shutdownInLoop]; rfl, hst⟩
  | afterDrain =>
    exact ⟨by simp [Label.effects, deliveredBy, TCPConnection.acceptedOf_afterDrain]; rfl, hst⟩
  | shutdownSet =>
    exact ⟨by simp [Label.effects, deliveredBy, TCPConnection.acceptedOf, TCPConnection.setState],
      by simp [TCPConnection.setState]⟩
  | _ => exact ⟨by simp [Label.effects, deliveredBy, TCPConnection.acceptedOf]; try rfl, hst⟩

theorem stream_exec (he : (system T build).Exec h s) :
    kernel h ++ s.conn.outputBuffer = (delivered h).flatMap Send.message ∧
      s.conn.state ≠ .kDisconnected := by
  induction he with
  | start hi => simp [kernel, delivered, hi.output, hi.state]
  | snoc _ hs ih =>
    obtain ⟨hstream, hst⟩ := ih
    obtain ⟨hstep, hst'⟩ := step_stream hs hst
    refine ⟨?_, hst'⟩
    simp only [kernel, delivered, List.flatMap_append, List.flatMap_singleton] at hstream ⊢
    rw [List.append_assoc, hstep, ← List.append_assoc, hstream]

omit [DecidableEq T] in
theorem deliveredBy_eq_executed (ha : a.effects.any TCPConnection.Effect.faulted = false) :
    deliveredBy a = executed [a] := by
  cases a with
  | sendHere arg m es | runSend m es =>
    simp only [Label.effects] at ha
    simp only [deliveredBy, ha, Bool.false_eq_true, if_false]
    rfl
  | _ => rfl

omit [DecidableEq T] in
theorem delivered_eq_executed (hf : NoFault h) : delivered h = executed h := by
  induction h using List.reverseRecOn with
  | nil => rfl
  | append_singleton h a ih =>
    have hd : delivered (h ++ [a]) = delivered h ++ deliveredBy a := by
      simp [delivered, List.flatMap_append]
    rw [hd, executed_snoc, ih fun b hb => hf b (by simp [hb]),
      deliveredBy_eq_executed (hf a (by simp))]

/-- Handing a `Buffer` over passes on its bytes and leaves it empty, on either path. -/
theorem buffer_handed_over {m : Send T} (hi : SendInv h s) (hs : Step build s a t)
    (ha : a = .sendQueue .buffer m ∨ ∃ es, a = .sendHere .buffer m es) :
    m.message = (s.buffers m.sender).content ∧ (t.buffers m.sender).content = [] := by
  rcases ha with rfl | ⟨es, rfl⟩
  · cases hs with
    | @sendQueue t _ m' message b hpc hq =>
      obtain ⟨hsend, rfl⟩ := hi.handed_queue hpc hq
      obtain ⟨b', hq', -, hc⟩ := Argument.queued_spec build (hi.wf (.other t)) .buffer
      obtain ⟨hmsg, rfl⟩ : (s.buffers (.other t)).content = m'.message ∧ b' = b := by
        simpa [hq', Argument.inLoop] using hq
      simp [hsend, hmsg, hc, Argument.inLoop, Buffer.content_retrieveAll]
  · cases hs with
    | @sendHere _ m' message b result conn _ hpc hq hc hk =>
      obtain ⟨hsend, -⟩ := hi.inCall _ _ _ hpc
      obtain ⟨rfl, rfl⟩ := Prod.mk.inj hq
      simp [hsend, Buffer.content_retrieveAll]

/-- Without write faults the stream is made of whole messages, each handed over at most once and
each thread's in its own order; with nothing waiting, all calls that have come past their push
have taken effect; a `Buffer` passed to `send` gives its bytes and is left empty. -/
theorem cross_thread_sends (he : (system T build).Exec h s) (hf : NoFault h) :
    kernel h ++ s.conn.outputBuffer = (executed h).flatMap Send.message ∧
    (executed h).Nodup ∧
    (∀ th, (executed h).filter (·.sender = th) <+: (accepted h).filter (·.sender = th)) ∧
    (s.loop.waiting = [] → ∀ m ∈ accepted h,
      m ∈ executed h ∨ ∃ arg, s.pc m.sender = .sending arg m) ∧
    (∀ a t m, Step build s a t →
      a = .sendQueue .buffer m ∨ (∃ es, a = .sendHere .buffer m es) →
      m.message = (s.buffers m.sender).content ∧ (t.buffers m.sender).content = []) := by
  obtain ⟨hi, hmail⟩ := sends_exec he
  refine ⟨?_, hmail.nodup_done, hmail.done_prefix, ?_, fun _ _ _ => buffer_handed_over hi⟩
  · rw [← delivered_eq_executed hf]
    exact (stream_exec he).1
  · intro hempty m hm
    rcases hmail.mem_issued hm with hd | hq | hheld
    · exact .inl hd
    · simp [mail, hempty] at hq
    · right
      cases hpc : s.pc m.sender with
      | sending arg m' =>
        obtain rfl : m' = m := by simpa [mail, hpc, Pc.toSend] using hheld
        exact ⟨arg, rfl⟩
      | _ => simp [mail, hpc, Pc.toSend] at hheld

/-- Another thread's message is queued, run, and written in part. -/
def sampleRun : List (Label Unit) :=
  let m : Send Unit := ⟨.other (), 0, [1, 2]⟩
  [.sendCall (.string [1, 2]) m, .sendQueue (.string [1, 2]) m, .sendReturn m, .move .poll,
   .move .beginPending, .move .swap, .runSend m [.write [1, 2] (.wrote 1)]]

theorem cross_thread_sends_sample :
    ∃ s, (system Unit .debug).Exec sampleRun s ∧ NoFault sampleRun ∧
      kernel sampleRun ++ s.conn.outputBuffer = [1, 2] := by
  have e₀ : (system Unit .debug).Exec [] (established Unit) := .start initial_established
  have e₁ := e₀.snoc (@Step.sendCall Unit _ .debug _ (.other ()) (.string [1, 2]) rfl
    (fun h => by cases h) rfl)
  have e₂ := e₁.snoc (@Step.sendQueue Unit _ .debug _ () (.string [1, 2]) _ _ _ rfl rfl)
  have e₃ := e₂.snoc (@Step.sendReturn Unit _ .debug _ () _ rfl)
  have e₄ := e₃.snoc (@Step.move Unit _ .debug _ .poll _ rfl rfl (fun _ h => by cases h))
  have e₅ := e₄.snoc (@Step.move Unit _ .debug _ .beginPending _ rfl rfl (fun _ h => by cases h))
  have e₆ := e₅.snoc (@Step.move Unit _ .debug _ .swap _ rfl rfl (fun _ h => by cases h))
  have hsend : (established Unit).conn.sendInLoop [1, 2] (.wrote 1) =
      (((established Unit).conn.sendInLoop [1, 2] (.wrote 1)).1, [.write [1, 2] (.wrote 1)]) := by
    decide
  have hk : Allowed false [.write [1, 2] (.wrote 1)] := by
    simp [Allowed, TCPConnection.Effect.possible]
  have e₇ := e₆.snoc (@Step.runSend Unit _ .debug _ ⟨.other (), 0, [1, 2]⟩ _ (.wrote 1) _ _ rfl rfl
    hsend hk)
  have hf : NoFault sampleRun := by
    simp [NoFault, sampleRun, Label.effects, TCPConnection.Effect.faulted]
  exact ⟨_, e₇, hf, (cross_thread_sends e₇ hf).1⟩

end ConnectionThreads

end Lute
