import Mathlib.Data.List.TakeWhile
import Lute.Polaris.CrossThreadSend

/-! `send` and `shutdown` from any threads: what reaches the kernel before the half-close. -/
namespace Lute.ConnectionThreads

variable {T : Type} [DecidableEq T] {build : Build} {s t : ConnectionThreads T} {a : Label T}
  {h : List (Label T)} {m : Send T}

open TCPConnection (Effect)

/-- No functor of a send that had returned before `shutdown` was called is still waiting. -/
def NoEarlyWaiting (s : ConnectionThreads T) : Prop :=
  ∀ m ∈ s.early, Task.sendInLoop m ∉ s.loop.waiting

/-- `shutdownInLoop` is not run out of turn over such a functor: neither directly, by a call of
`shutdown` in the loop thread with nothing being written, nor by `handleWrite` when it has drained
the output of a connection in `kDisconnecting`. -/
def InTurn (s : ConnectionThreads T) : Label T → Prop
  | .shutdownHere _ => s.conn.channel.isWriting = false → s.NoEarlyWaiting
  | .afterDrain _ => s.conn.state = .kDisconnecting → s.NoEarlyWaiting
  | _ => True

/-- No write fails with `EPIPE` or `ECONNRESET` on its own account. -/
def NoFaultYet (s : ConnectionThreads T) (a : Label T) : Prop :=
  s.writeShut = false → a.effects.any Effect.faulted = false

/-- The waiting functors ahead of the first `shutdownInLoop`. -/
def ahead (w : List (Task T)) : List (Task T) := w.takeWhile (· ≠ .shutdownInLoop)

theorem ahead_cons_of_ne {f : Task T} (hf : f ≠ .shutdownInLoop) (w : List (Task T)) :
    ahead (f :: w) = f :: ahead w := by
  simp [ahead, hf]

theorem ahead_append (w fs : List (Task T)) : ∃ gs, ahead (w ++ fs) = ahead w ++ gs := by
  induction w with
  | nil => exact ⟨ahead fs, rfl⟩
  | cons f w ih =>
    obtain ⟨gs, hgs⟩ := ih
    by_cases hf : f = .shutdownInLoop
    · exact ⟨[], by simp [ahead, hf]⟩
    · exact ⟨gs, by simpa [ahead, hf] using hgs⟩

/-- A step lets the queue grow at its end and may take its first functor to run it. -/
theorem waiting_cases (hs : Step build s a t) (hset : s.loop.Settled) :
    ∃ fs, (.shutdownInLoop ∈ fs → ∃ th, a = .shutdownQueue th) ∧
      (t.loop.waiting = s.loop.waiting ++ fs ∨
        ∃ f w, s.loop.waiting = f :: w ∧ t.loop.waiting = w ++ fs ∧
          ((∃ g, f = .callback g) ∨ (∃ m es, f = .sendInLoop m ∧ a = .runSend m es) ∨
            (f = .shutdownInLoop ∧ ∃ es, a = .runShutdown es))) := by
  cases hs with
  | @move m l hpc hm hrun =>
    refine ⟨[], by simp, ?_⟩
    rcases EventLoop.move_waiting hm hset with ⟨f, rfl, hw⟩ | ⟨-, hw⟩
    · exact .inr ⟨f, l.waiting, hw, by simp, .inl (hrun f rfl)⟩
    · exact .inl (by simp [hw])
  | sendQueue => exact ⟨_, by simp, .inl (EventLoop.waiting_push _)⟩
  | shutdownQueue => exact ⟨_, fun _ => ⟨_, rfl⟩, .inl (EventLoop.waiting_push _)⟩
  | sendReturn | shutdownReturn =>
    exact ⟨[], by simp, .inl (by simp [EventLoop.waiting_wakeupIfNeeded])⟩
  | @sendHere _ _ _ _ _ _ es | @handleWrite _ _ es =>
    obtain ⟨fs, hfs⟩ := EventLoop.waiting_queueAll es s.loop
    exact ⟨_, by simp, .inl hfs⟩
  | @runSend m l result conn es hpc hm hc hk =>
    obtain ⟨fs, hfs⟩ := EventLoop.waiting_queueAll es l
    exact ⟨_, by simp, .inr ⟨_, l.waiting, EventLoop.waiting_run hm hset, hfs,
      .inr (.inl ⟨m, es, rfl, rfl⟩)⟩⟩
  | @runShutdown l hpc hm =>
    exact ⟨[], by simp, .inr ⟨_, l.waiting, EventLoop.waiting_run hm hset, by simp [shut],
      .inr (.inr ⟨rfl, _, rfl⟩)⟩⟩
  | _ => exact ⟨[], by simp, .inl (List.append_nil _).symm⟩

theorem shutdownInLoop_notMem_step (hs : Step build s a t) (hset : s.loop.Settled)
    (hn : .shutdownInLoop ∉ s.loop.waiting) (ha : ∀ th, a ≠ .shutdownQueue th) :
    .shutdownInLoop ∉ t.loop.waiting := by
  obtain ⟨fs, hfs, hw | ⟨f, w, hw, hw', -⟩⟩ := waiting_cases hs hset
  · rw [hw, List.mem_append]
    exact fun h => h.elim hn fun hm => (hfs hm).elim ha
  · rw [hw, List.mem_cons, not_or] at hn
    rw [hw', List.mem_append]
    exact fun h => h.elim hn.2 fun hm => (hfs hm).elim ha

theorem mem_waiting_step (hs : Step build s a t) (hset : s.loop.Settled)
    (hm : .sendInLoop m ∈ s.loop.waiting) :
    .sendInLoop m ∈ t.loop.waiting ∨ ∃ es, a = .runSend m es := by
  obtain ⟨fs, -, hw | ⟨f, w, hw, hw', hf⟩⟩ := waiting_cases hs hset
  · exact .inl (by simp [hw, hm])
  · rw [hw, List.mem_cons] at hm
    rcases hm with rfl | hm
    · rcases hf with ⟨g, hg⟩ | ⟨m', es, hm', rfl⟩ | ⟨hf, -⟩
      · cases hg
      · cases hm'
        exact .inr ⟨es, rfl⟩
      · cases hf
    · exact .inl (by simp [hw', hm])

theorem mem_ahead_step (hs : Step build s a t) (hset : s.loop.Settled)
    (hm : .sendInLoop m ∈ ahead s.loop.waiting) :
    .sendInLoop m ∈ ahead t.loop.waiting ∨ ∃ es, a = .runSend m es := by
  obtain ⟨fs, -, hw | ⟨f, w, hw, hw', hf⟩⟩ := waiting_cases hs hset
  · obtain ⟨gs, hgs⟩ := ahead_append s.loop.waiting fs
    exact .inl (by simp [hw, hgs, hm])
  · obtain ⟨gs, hgs⟩ := ahead_append w fs
    have hrest : .sendInLoop m ∈ ahead w → .sendInLoop m ∈ ahead t.loop.waiting := fun hm => by
      rw [hw', hgs]
      exact List.mem_append_left gs hm
    rcases hf with ⟨g, rfl⟩ | ⟨m', es, rfl, rfl⟩ | ⟨rfl, -⟩
    · rw [hw, ahead_cons_of_ne (by simp), List.mem_cons] at hm
      exact .inl (hrest (hm.resolve_left (by simp)))
    · rw [hw, ahead_cons_of_ne (by simp), List.mem_cons] at hm
      rcases hm with hm | hm
      · cases hm
        exact .inr ⟨es, rfl⟩
      · exact .inl (hrest hm)
    · simp [hw, ahead] at hm

/-- Where the half-close is executed, and what is known there. -/
theorem shutdownWrite_cases (hs : Step build s a t) (hst : s.conn.state ≠ .kDisconnected)
    (hw : .shutdownWrite ∈ a.effects) :
    s.conn.channel.isWriting = false ∧
      ((∃ es, a = .shutdownHere es) ∨
        (∃ es, a = .afterDrain es ∧ s.conn.state = .kDisconnecting) ∨
        (∃ es, a = .runShutdown es)) := by
  have hshut : .shutdownWrite ∈ s.conn.shutdownInLoop → s.conn.channel.isWriting = false := by
    unfold TCPConnection.shutdownInLoop
    split_ifs with h
    · exact fun _ => by simpa using h
    · simp
  cases hs with
  | shutdownHere => exact ⟨hshut hw, .inl ⟨_, rfl⟩⟩
  | runShutdown => exact ⟨hshut hw, .inr (.inr ⟨_, rfl⟩)⟩
  | afterDrain =>
    simp only [Label.effects, TCPConnection.afterDrain] at hw
    split_ifs at hw with hd
    · exact ⟨hshut hw, .inr (.inl ⟨_, rfl, hd⟩)⟩
    · simp at hw
  | sendHere _ _ hc _ | runSend _ _ hc _ =>
    exact absurd hw (TCPConnection.shutdownWrite_notMem_sendInLoop hst hc)
  | handleWrite _ _ hc _ => exact absurd hw (TCPConnection.shutdownWrite_notMem_drain hc)
  | _ => simp [Label.effects] at hw

/-- How a step changes the record of returned sends. -/
theorem early_cases (hs : Step build s a t) :
    t.early = s.early ∨ ∃ m, t.early = s.early ++ [m] ∧ s.shutdownCalled = false ∧
      t.shutdownCalled = false ∧ ((∃ th, s.pc th = .sent m) ∨ m ∈ executed [a]) := by
  cases hs with
  | @sendReturn t m hpc =>
    by_cases hc : s.shutdownCalled = true
    · exact .inl (if_pos hc)
    · have hc' : s.shutdownCalled = false := by simpa using hc
      exact .inr ⟨m, if_neg hc, hc', hc', .inl ⟨_, hpc⟩⟩
  | @sendHere arg m message b result conn es hpc hq hc hk =>
    by_cases hc : s.shutdownCalled = true
    · exact .inl (if_pos hc)
    · have hc' : s.shutdownCalled = false := by simpa using hc
      exact .inr ⟨_, if_neg hc, hc', hc', .inr (List.mem_singleton_self _)⟩
  | _ => exact .inl rfl

/-- The half-close is recorded when it is executed. -/
theorem writeShut_step (hs : Step build s a t) (hst : s.conn.state ≠ .kDisconnected) :
    t.writeShut = (s.writeShut || a.effects.contains .shutdownWrite) := by
  have hkeep : ∀ es : List Effect, .shutdownWrite ∉ es →
      s.writeShut = (s.writeShut || es.contains .shutdownWrite) := fun es h => by simp [h]
  cases hs with
  | shutdownHere | runShutdown | afterDrain => rfl
  | sendHere _ _ hc _ | runSend _ _ hc _ =>
    exact hkeep _ (TCPConnection.shutdownWrite_notMem_sendInLoop hst hc)
  | handleWrite _ _ hc _ => exact hkeep _ (TCPConnection.shutdownWrite_notMem_drain hc)
  | _ => exact hkeep [] (by simp)

theorem interest_step (hs : Step build s a t) (hw : s.conn.WriteInterest) :
    t.conn.WriteInterest := by
  cases hs with
  | @sendHere _ _ message _ result _ _ _ _ hc _ =>
    have := @TCPConnection.WriteInterest.sendInLoop s.conn message result hw
    rwa [hc] at this
  | @runSend m _ result _ _ _ _ hc _ =>
    have := @TCPConnection.WriteInterest.sendInLoop s.conn m.message result hw
    rwa [hc] at this
  | handleWrite _ _ hc _ => exact hw.drain hc
  | _ => exact hw

/-- Before the first call of `shutdown` nothing of it is to be seen. -/
structure Quiet (s : ConnectionThreads T) : Prop where
  state : s.conn.state = .kConnected
  open' : s.writeShut = false
  waiting : .shutdownInLoop ∉ s.loop.waiting
  pc : ∀ th, s.pc th ≠ .stopping ∧ s.pc th ≠ .stopped

theorem pc_setPc {th : Thread T} {pc : Pc T} (hpc : pc ≠ .stopping ∧ pc ≠ .stopped)
    (h : ∀ th', s.pc th' ≠ .stopping ∧ s.pc th' ≠ .stopped) (th' : Thread T) :
    (s.setPc th pc).pc th' ≠ .stopping ∧ (s.setPc th pc).pc th' ≠ .stopped := by
  by_cases he : th' = th
  · subst he
    simpa [setPc] using hpc
  · simpa [setPc, he] using h th'

theorem quiet_step (hs : Step build s a t) (hset : s.loop.Settled)
    (hq : s.shutdownCalled = false → s.Quiet) : t.shutdownCalled = false → t.Quiet := by
  intro ht
  have hcalled : s.shutdownCalled = false := by
    cases hs with
    | shutdownRefused | shutdownCall => cases ht
    | _ => exact ht
  obtain ⟨hst, hopen, hwait, hpcs⟩ := hq hcalled
  have hlive : s.conn.state ≠ .kDisconnected := by simp [hst]
  have hqueue : (∀ th, a ≠ .shutdownQueue th) → .shutdownInLoop ∉ t.loop.waiting :=
    shutdownInLoop_notMem_step hs hset hwait
  cases hs with
  | shutdownRefused | shutdownCall => cases ht
  | shutdownSet hpc => exact absurd hpc (hpcs _).1
  | shutdownQueue hpc | shutdownHere hpc => exact absurd hpc (hpcs _).2
  | runShutdown _ hm => simp [EventLoop.waiting_run hm hset] at hwait
  | sendHere _ _ hc _ =>
    exact ⟨(TCPConnection.sendInLoop_cases hlive hc).1 ▸ hst, hopen, hqueue (by simp),
      pc_setPc (by simp) hpcs⟩
  | runSend _ _ hc _ =>
    exact ⟨(TCPConnection.sendInLoop_cases hlive hc).1 ▸ hst, hopen, hqueue (by simp), hpcs⟩
  | @handleWrite _ _ _ drained _ _ hc _ =>
    exact ⟨(TCPConnection.drain_stream hc).2 ▸ hst, hopen, hqueue (by simp),
      pc_setPc (by cases drained <;> simp) hpcs⟩
  | afterDrain =>
    refine ⟨hst, ?_, hqueue (by simp), pc_setPc (by simp) hpcs⟩
    simp [shut, setPc, hopen, TCPConnection.afterDrain, hst]
  | sendCall | sendQueue | sendReturn | shutdownReturn =>
    exact ⟨hst, hopen, hqueue (by simp), pc_setPc (by simp) hpcs⟩
  | move | refill | sendRefused => exact ⟨hst, hopen, hqueue (by simp), hpcs⟩

/-- Sends past their push are delivered or waiting; those that returned before the first call of
`shutdown` are delivered or waiting ahead of every `shutdownInLoop`, and delivered once the
half-close has been executed. -/
structure CloseInv (h : List (Label T)) (s : ConnectionThreads T) : Prop where
  interest : s.conn.WriteInterest
  quiet : s.shutdownCalled = false → s.Quiet
  sent : ∀ th m, s.pc th = .sent m → s.writeShut = false →
    m ∈ delivered h ∨ .sendInLoop m ∈ s.loop.waiting
  early : ∀ m ∈ s.early, m ∈ delivered h ∨
    (s.writeShut = false ∧ .sendInLoop m ∈ ahead s.loop.waiting)

omit [DecidableEq T] in
theorem delivered_snoc (h : List (Label T)) (a : Label T) :
    delivered (h ++ [a]) = delivered h ++ deliveredBy a := by
  simp [delivered, List.flatMap_append]

omit [DecidableEq T] in
theorem mem_delivered_of_executed (hf : a.effects.any Effect.faulted = false)
    (hm : m ∈ executed [a]) : m ∈ delivered (h ++ [a]) := by
  rw [delivered_snoc, deliveredBy_eq_executed hf]
  exact List.mem_append_right _ hm

theorem sent_cases {th : Thread T} (hs : Step build s a t) (hpc : t.pc th = .sent m) :
    s.pc th = .sent m ∨ .sendInLoop m ∈ t.loop.waiting := by
  have hset : ∀ (th' : Thread T) (pc : Pc T), (∀ m, pc ≠ .sent m) →
      (s.setPc th' pc).pc th = .sent m → s.pc th = .sent m := by
    intro th' pc hne h
    by_cases he : th = th'
    · subst he
      exact absurd (by simpa [setPc] using h) (hne m)
    · simpa [setPc, he] using h
  cases hs with
  | @sendQueue u arg m' message b hp hq =>
    by_cases he : th = .other u
    · obtain rfl : { m' with message } = m := by simpa [he, setPc] using hpc
      right
      rw [EventLoop.waiting_push]
      exact List.mem_append_right _ (List.mem_singleton_self _)
    · exact .inl (by simpa [setPc, he] using hpc)
  | @handleWrite _ _ _ drained =>
    exact .inl (hset _ _ (by cases drained <;> simp) hpc)
  | move | refill | sendRefused | runSend | shutdownRefused | runShutdown => exact .inl hpc
  | sendCall | sendReturn | sendHere | shutdownCall | shutdownSet | shutdownQueue | shutdownReturn
  | shutdownHere | afterDrain => exact .inl (hset _ _ (by simp) hpc)

theorem sent_step (hs : Step build s a t) (hset : s.loop.Settled) (hi : CloseInv h s)
    (hf : NoFaultYet s a) (hopen : s.writeShut = false) {th : Thread T} (hpc : t.pc th = .sent m) :
    m ∈ delivered (h ++ [a]) ∨ .sendInLoop m ∈ t.loop.waiting := by
  rcases sent_cases hs hpc with hpc | hw
  · rcases hi.sent th m hpc hopen with hd | hw
    · exact .inl (by simp [delivered_snoc, hd])
    · rcases mem_waiting_step hs hset hw with hw | ⟨es, rfl⟩
      · exact .inr hw
      · exact .inl (mem_delivered_of_executed (hf hopen) (List.mem_singleton_self _))
  · exact .inr hw

/-- When the half-close is executed in turn, no early send is waiting any more. -/
theorem not_ahead_of_shutdownWrite (hs : Step build s a t) (hset : s.loop.Settled)
    (hst : s.conn.state ≠ .kDisconnected) (hturn : InTurn s a) (hw : .shutdownWrite ∈ a.effects)
    (hm : m ∈ s.early) : .sendInLoop m ∉ ahead s.loop.waiting := by
  intro ha
  have hwait : .sendInLoop m ∈ s.loop.waiting := (List.takeWhile_sublist _).subset ha
  obtain ⟨hwriting, ⟨es, rfl⟩ | ⟨es, rfl, hd⟩ | ⟨es, rfl⟩⟩ := shutdownWrite_cases hs hst hw
  · exact hturn hwriting m hm hwait
  · exact hturn hd m hm hwait
  · cases hs with
    | runShutdown _ hmove => simp [EventLoop.waiting_run hmove hset, ahead] at ha

theorem early_kept (hs : Step build s a t) (hset : s.loop.Settled)
    (hst : s.conn.state ≠ .kDisconnected) (hi : CloseInv h s) (hf : NoFaultYet s a)
    (hturn : InTurn s a) (hm : m ∈ s.early) :
    m ∈ delivered (h ++ [a]) ∨ (t.writeShut = false ∧ .sendInLoop m ∈ ahead t.loop.waiting) := by
  rcases hi.early m hm with hd | ⟨hopen, ha⟩
  · exact .inl (by simp [delivered_snoc, hd])
  · have hnow : .shutdownWrite ∉ a.effects := fun hw =>
      not_ahead_of_shutdownWrite hs hset hst hturn hw hm ha
    have hopen' : t.writeShut = false := by simp [writeShut_step hs hst, hopen, hnow]
    rcases mem_ahead_step hs hset ha with ha | ⟨es, rfl⟩
    · exact .inr ⟨hopen', ha⟩
    · exact .inl (mem_delivered_of_executed (hf hopen) (List.mem_singleton_self _))

theorem ahead_eq_self {w : List (Task T)} (hw : .shutdownInLoop ∉ w) : ahead w = w := by
  refine List.takeWhile_eq_self_iff.mpr fun f hf => ?_
  have hne : f ≠ .shutdownInLoop := fun he => hw (he ▸ hf)
  simpa using hne

theorem early_step (hs : Step build s a t) (hset : s.loop.Settled)
    (hst : s.conn.state ≠ .kDisconnected) (hi : CloseInv h s) (hf : NoFaultYet s a)
    (hturn : InTurn s a) (hm : m ∈ t.early) :
    m ∈ delivered (h ++ [a]) ∨ (t.writeShut = false ∧ .sendInLoop m ∈ ahead t.loop.waiting) := by
  rcases early_cases hs with he | ⟨m', he, hcalled, hcalled', hm'⟩
  · exact early_kept hs hset hst hi hf hturn (he ▸ hm)
  · rw [he, List.mem_append, List.mem_singleton] at hm
    rcases hm with hm | rfl
    · exact early_kept hs hset hst hi hf hturn hm
    · -- the call returns now, before any call of `shutdown`
      have hq := hi.quiet hcalled
      have hq' := quiet_step hs hset hi.quiet hcalled'
      rcases hm' with ⟨th, hpc⟩ | hm'
      · rcases hi.sent th m hpc hq.open' with hd | hw
        · exact .inl (by simp [delivered_snoc, hd])
        · rcases mem_waiting_step hs hset hw with hw | ⟨es, rfl⟩
          · exact .inr ⟨hq'.open', by rwa [ahead_eq_self hq'.waiting]⟩
          · exact .inl (mem_delivered_of_executed (hf hq.open') (List.mem_singleton_self _))
      · exact .inl (mem_delivered_of_executed (hf hq.open') hm')

/-- The runs in which `shutdownInLoop` is never run out of turn and no write faults by itself. -/
def orderly (T : Type) [DecidableEq T] (build : Build) :
    Trace.LTS (ConnectionThreads T) (Label T) :=
  (system T build).restrict fun s a => NoFaultYet s a ∧ InTurn s a

theorem closeInv_exec (he : (orderly T build).Exec h s) : CloseInv h s := by
  induction he with
  | start hi =>
    obtain ⟨n, hl⟩ := hi.loop
    refine ⟨?_, fun _ => ⟨hi.state, hi.writeShut, ?_, fun th => ?_⟩, fun th m hpc => ?_, ?_⟩
    · simp [TCPConnection.WriteInterest, hi.writing, hi.output]
    · simp [hl, EventLoop.enter, EventLoop.waiting]
    · simp [hi.pc]
    · simp [hi.pc] at hpc
    · simp [hi.early]
  | snoc he hs ih =>
    obtain ⟨⟨hf, hturn⟩, hs⟩ := hs
    have hset := (sends_exec he.of_restrict).1.settled
    have hst := (stream_exec he.of_restrict).2
    refine ⟨interest_step hs ih.interest, quiet_step hs hset ih.quiet, ?_, ?_⟩
    · intro th m hpc hopen
      have hopen' := writeShut_step hs hst
      rw [hopen, eq_comm, Bool.or_eq_false_iff] at hopen'
      exact sent_step hs hset ih hf hopen'.1 hpc
    · exact fun m hm => early_step hs hset hst ih hf hturn hm

/-- Whenever the half-close is executed in an orderly run, the kernel holds every byte of every
send that had returned before `shutdown` was called. -/
theorem shutdown_keeps_returned_sends (he : (orderly T build).Exec h s)
    (hs : (orderly T build).step s a t) (hw : .shutdownWrite ∈ a.effects) :
    kernel h = (delivered h).flatMap Send.message ∧ ∀ m ∈ s.early, m ∈ delivered h := by
  obtain ⟨⟨hf, hturn⟩, hs⟩ := hs
  have hi := closeInv_exec he
  have hset := (sends_exec he.of_restrict).1.settled
  obtain ⟨hstream, hst⟩ := stream_exec he.of_restrict
  obtain ⟨hwriting, -⟩ := shutdownWrite_cases hs hst hw
  have hempty : s.conn.outputBuffer = [] := by
    by_contra hne
    simp [hi.interest.mpr hne] at hwriting
  refine ⟨by simpa [hempty] using hstream, fun m hm => ?_⟩
  rcases hi.early m hm with hd | ⟨-, ha⟩
  · exact hd
  · exact absurd ha (not_ahead_of_shutdownWrite hs hset hst hturn hw hm)

theorem orderly_snoc (he : (orderly T build).Exec h s) (hs : Step build s a t)
    (hf : NoFaultYet s a) (ht : InTurn s a) :
    (orderly T build).step s a t ∧ (orderly T build).Exec (h ++ [a]) t :=
  ⟨⟨⟨hf, ht⟩, hs⟩, he.snoc ⟨⟨hf, ht⟩, hs⟩⟩

/-- The loop thread sends one byte and shuts down. -/
def inTurnRun : List (Label Unit) :=
  [.move .poll, .sendCall (.string [1]) ⟨.loop, 0, [1]⟩,
   .sendHere (.string [1]) ⟨.loop, 0, [1]⟩ [.write [1] (.wrote 1)], .shutdownCall .loop,
   .shutdownSet .loop]

theorem shutdown_keeps_returned_sends_sample :
    ∃ s t, (orderly Unit .debug).Exec inTurnRun s ∧
      (orderly Unit .debug).step s (.shutdownHere [.shutdownWrite]) t ∧
      s.early = [⟨.loop, 0, [1]⟩] ∧ kernel inTurnRun = [1] ∧
      ∀ m ∈ s.early, m ∈ delivered inTurnRun := by
  have e₀ : (orderly Unit .debug).Exec [] (established Unit) := .start initial_established
  have e₁ := (orderly_snoc e₀ (@Step.move Unit _ .debug _ .poll _ rfl rfl (fun _ h => by cases h))
    (fun _ => rfl) trivial).2
  have e₂ := (orderly_snoc e₁ (@Step.sendCall Unit _ .debug _ .loop (.string [1]) rfl
    (fun _ => .inl rfl) rfl) (fun _ => rfl) trivial).2
  have hsend : (established Unit).conn.sendInLoop [1] (.wrote 1) =
      ((established Unit).conn, [.write [1] (.wrote 1)]) := by
    decide
  have hk : Allowed false [.write [1] (.wrote 1)] := by
    simp [Allowed, TCPConnection.Effect.possible]
  have e₃ := (orderly_snoc e₂ (@Step.sendHere Unit _ .debug _ (.string [1]) _ _ _ (.wrote 1) _ _
    rfl rfl hsend hk) (fun _ => rfl) trivial).2
  have e₄ := (orderly_snoc e₃ (@Step.shutdownCall Unit _ .debug _ .loop rfl (fun _ => .inl rfl)
    rfl) (fun _ => rfl) trivial).2
  have e₅ := (orderly_snoc e₄ (@Step.shutdownSet Unit _ .debug _ .loop rfl) (fun _ => rfl)
    trivial).2
  have hstep := (orderly_snoc e₅ (.shutdownHere rfl) (fun _ => rfl)
    (fun _ _ _ hm => List.not_mem_nil hm)).1
  have hkept := shutdown_keeps_returned_sends e₅ hstep (List.mem_singleton_self _)
  exact ⟨_, _, e₅, hstep, rfl, hkept.1, hkept.2⟩

/-- Another thread's send has returned and is queued when the loop thread shuts down. -/
def outOfTurnRun : List (Label Unit) :=
  [.sendCall (.string [1]) ⟨.other (), 0, [1]⟩, .sendQueue (.string [1]) ⟨.other (), 0, [1]⟩,
   .sendReturn ⟨.other (), 0, [1]⟩, .move .poll, .shutdownCall .loop, .shutdownSet .loop]

theorem queued_send_lost :
    ∃ s t, (system Unit .debug).Exec outOfTurnRun s ∧ NoFault outOfTurnRun ∧
      Step .debug s (.shutdownHere [.shutdownWrite]) t ∧ ⟨.other (), 0, [1]⟩ ∈ s.early ∧
      kernel outOfTurnRun = [] := by
  have e₀ : (system Unit .debug).Exec [] (established Unit) := .start initial_established
  have e₁ := e₀.snoc (@Step.sendCall Unit _ .debug _ (.other ()) (.string [1]) rfl
    (fun h => by cases h) rfl)
  have e₂ := e₁.snoc (@Step.sendQueue Unit _ .debug _ () (.string [1]) _ _ _ rfl rfl)
  have e₃ := e₂.snoc (@Step.sendReturn Unit _ .debug _ () _ rfl)
  have e₄ := e₃.snoc (@Step.move Unit _ .debug _ .poll _ rfl rfl (fun _ h => by cases h))
  have e₅ := e₄.snoc (@Step.shutdownCall Unit _ .debug _ .loop rfl (fun _ => .inl rfl) rfl)
  have e₆ := e₅.snoc (@Step.shutdownSet Unit _ .debug _ .loop rfl)
  refine ⟨_, _, e₆, ?_, .shutdownHere rfl, ?_, rfl⟩
  · simp [NoFault, outOfTurnRun, Label.effects]
  · exact List.mem_singleton_self _

end Lute.ConnectionThreads
