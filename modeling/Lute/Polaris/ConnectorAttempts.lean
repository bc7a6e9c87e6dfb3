import Lute.Polaris.Connector

/-! At most one attempt of a connector is outstanding, when `start` is called in order. -/
namespace Lute

open Connector (Functor Effect queued armed)

namespace Connector

variable {c : Connector} {w : List Functor} {n : Nat} {es es' : List Effect} {f : Functor}

theorem queued_append : queued (es ++ es') = queued es ++ queued es' := by
  simp [queued]

theorem armed_append : armed (es ++ es') = armed es + armed es' := by
  simp [armed]

/-- The last channel is gone, or removed and on its way out. -/
def Released (c : Connector) (w : List Functor) : Prop :=
  c.channel = none ∧ w.count .resetChannel = 0 ∨
    (∃ ch, c.channel = some ch ∧ ch.addedToLoop = false) ∧ w.count .resetChannel = 1

/-- Of the waiting functors `w` and the `n` retry timers one at most is to start an attempt, and
none while one is under way. -/
structure Steady (c : Connector) (w : List Functor) (n : Nat) : Prop where
  one : w.count .startInLoop + n ≤ 1
  none : c.state ≠ .kDisconnected → w.count .startInLoop + n = 0
  connecting : c.state = .kConnecting → w.count .resetChannel = 0 ∧
    ∃ ch, c.channel = some ch ∧ ch.addedToLoop = true
  released : c.state ≠ .kConnecting → c.Released w
  ordered : Trace.Always (fun pre f => f = .resetChannel → .startInLoop ∉ pre) w

/-- Queueing the one attempt. -/
theorem Steady.start (h : c.Steady w n) (hst : c.state = .kDisconnected) (hw : .startInLoop ∉ w)
    (hn : n = 0) : c.Steady (w ++ [.startInLoop]) n where
  one := by simp [List.count_eq_zero.mpr hw, hn]
  none hd := absurd hst hd
  connecting hd := by simp [hst] at hd
  released hd := by
    have := h.released hd
    simpa [Released] using this
  ordered := h.ordered.snoc fun heq => by cases heq

/-- The effects are sound, and what they leave is steady again. -/
def Keeps (w : List Functor) (n : Nat) (r : Connector × List Effect) : Prop :=
  (∀ e ∈ r.2, e.Sound) ∧ r.1.Steady (w ++ queued r.2) (n + armed r.2)

theorem Steady.setConnect (h : c.Steady w n) (b : Bool) : Steady { c with connect_ := b } w n :=
  ⟨h.one, h.none, h.connecting, h.released, h.ordered⟩

/-- Queueing or taking a functor that neither starts nor resets. -/
theorem Steady.congr {w' : List Functor} (h : c.Steady w n)
    (hs : w'.count .startInLoop = w.count .startInLoop)
    (hr : w'.count .resetChannel = w.count .resetChannel)
    (ho : Trace.Always (fun pre f => f = .resetChannel → .startInLoop ∉ pre) w') :
    c.Steady w' n where
  one := hs ▸ h.one
  none hst := hs ▸ h.none hst
  connecting hst := hr ▸ h.connecting hst
  released hst := by
    have := h.released hst
    rwa [Released, ← hr] at this
  ordered := ho

theorem Steady.tail (h : c.Steady (f :: w) n) (hs : f ≠ .startInLoop) (hr : f ≠ .resetChannel) :
    c.Steady w n := by
  refine h.congr ?_ ?_ (h.ordered.tail.imp fun pre g hg heq hm => ?_)
  · rw [List.count_cons_of_ne hs]
  · rw [List.count_cons_of_ne hr]
  · exact hg heq (List.mem_cons_of_mem _ hm)

theorem Steady.snoc (h : c.Steady w n) (hs : f ≠ .startInLoop) (hr : f ≠ .resetChannel) :
    c.Steady (w ++ [f]) n := by
  refine h.congr ?_ ?_ (h.ordered.snoc fun heq => absurd heq hr)
  · simp [hs]
  · simp [hr]

theorem Keeps.cons {r : Connector × List Effect} {e : Effect} (h : Keeps w n r) (he : e.Sound)
    (hq : queued [e] = []) (ha : armed [e] = 0) : Keeps w n (r.1, e :: r.2) := by
  obtain ⟨hsound, hsteady⟩ := h
  refine ⟨by simpa using ⟨he, hsound⟩, ?_⟩
  have hq' : queued (e :: r.2) = queued r.2 := by
    rw [← List.singleton_append, queued_append, hq, List.nil_append]
  have ha' : armed (e :: r.2) = armed r.2 := by
    rw [← List.singleton_append, armed_append, ha, Nat.zero_add]
  rw [hq', ha']
  exact hsteady

/-- No attempt is waiting, and the resets come in order. -/
structure Quiet (w : List Functor) : Prop where
  starts : .startInLoop ∉ w
  ordered : Trace.Always (fun pre f => f = .resetChannel → .startInLoop ∉ pre) w

/-- Nothing to do for a connector at rest. -/
theorem idle_keeps (h : c.Steady w n) : Keeps w n (c, []) :=
  ⟨by simp, by simpa [queued, armed] using h⟩

theorem connecting_keeps {sockfd : Nat} (hq : Quiet w) (hch : c.channel = none)
    (hr : .resetChannel ∉ w) : Keeps w 0 (c.connecting sockfd) := by
  have hs : w.count .startInLoop = 0 := List.count_eq_zero.mpr hq.starts
  refine ⟨by simpa [connecting, Effect.Sound] using hch, ?_⟩
  simp only [connecting, queued, armed, List.filterMap_cons, List.filterMap_nil, List.append_nil]
  refine ⟨by simp [hs], fun _ => by simp [hs], fun _ => ?_, fun hst => absurd rfl hst, hq.ordered⟩
  exact ⟨List.count_eq_zero.mpr hr, _, rfl, rfl⟩

theorem steady_disconnected (hst : c.state = .kDisconnected) (hq : Quiet w) (hn : n ≤ 1)
    (hrel : c.Released w) : c.Steady w n where
  one := by simpa [List.count_eq_zero.mpr hq.starts] using hn
  none h := absurd hst h
  connecting h := by simp [hst] at h
  released _ := hrel
  ordered := hq.ordered

theorem retry_keeps {sockfd : Nat} (hq : Quiet w) (hrel : c.Released w) :
    Keeps w 0 (c.retry sockfd) := by
  unfold retry
  dsimp only
  split_ifs
  · refine ⟨by simp [Effect.Sound], ?_⟩
    simp only [queued, armed, List.filterMap_cons, List.filterMap_nil, List.append_nil]
    exact steady_disconnected rfl hq (Nat.le_refl 1) hrel
  · refine ⟨by simp [Effect.Sound], ?_⟩
    simp only [queued, armed, List.filterMap_cons, List.filterMap_nil, List.append_nil]
    exact steady_disconnected rfl hq (Nat.zero_le 1) hrel

theorem connect_cases (c : Connector) (a : Attempt) :
    c.connect a = c.connecting a.sockfd ∨ c.connect a = c.retry a.sockfd ∨
      c.connect a = (c, [.close a.sockfd]) := by
  unfold connect
  cases a.savedErrno <;> simp

/-- `startInLoop` as it is meant to be run. -/
theorem startInLoop_keeps (a : Attempt) (hq : Quiet w) (hst : c.state = .kDisconnected)
    (hch : c.channel = none) (hr : .resetChannel ∉ w) : Keeps w 0 (c.startInLoop a) := by
  have hrel : c.Released w := .inl ⟨hch, List.count_eq_zero.mpr hr⟩
  have hc : c.Steady w 0 := steady_disconnected hst hq (Nat.zero_le 1) hrel
  have hconnect : Keeps w 0 (c.connect a) := by
    rcases c.connect_cases a with heq | heq | heq
    · exact heq ▸ connecting_keeps hq hch hr
    · exact heq ▸ retry_keeps hq hrel
    · exact heq ▸ (idle_keeps hc).cons trivial rfl rfl
  cases hcon : c.connect_ with
  | false =>
    simp only [startInLoop, hcon, Bool.false_eq_true, if_false]
    exact (idle_keeps hc).cons hst rfl rfl
  | true =>
    simp only [startInLoop, hcon, if_true]
    exact hconnect.cons hst rfl rfl

/-- Removing the channel of an attempt; `follow` finds it on its way out. -/
theorem release_keeps {ch : ConnectorChannel} {follow : Connector → Nat → Connector × List Effect}
    (hq : Quiet w) (hr : .resetChannel ∉ w) (hch : c.channel = some ch)
    (hf : ∀ c' fd, Quiet (w ++ [.resetChannel]) → c'.Released (w ++ [.resetChannel]) →
      Keeps (w ++ [.resetChannel]) 0 (follow c' fd)) : Keeps w 0 (c.release follow) := by
  have hq' : Quiet (w ++ [.resetChannel]) :=
    ⟨by simpa using hq.starts, hq.ordered.snoc fun _ => hq.starts⟩
  have hrel : Released { c with channel := some ch.disableAll.remove } (w ++ [.resetChannel]) := by
    refine .inr ⟨⟨_, rfl, rfl⟩, ?_⟩
    simp [List.count_eq_zero.mpr hr]
  obtain ⟨hsound, hsteady⟩ := hf _ ch.fd hq' hrel
  simp only [release, removeAndResetChannel, hch]
  refine ⟨by simpa [Effect.Sound] using hsound, ?_⟩
  rw [queued_append, armed_append, ← List.append_assoc]
  simpa [queued, armed] using hsteady

/-- While an attempt is under way nothing else is waiting, and its channel is there. -/
theorem Steady.attempt (h : c.Steady w n) (hst : c.state = .kConnecting) :
    n = 0 ∧ Quiet w ∧ .resetChannel ∉ w ∧ ∃ ch, c.channel = some ch := by
  obtain ⟨hr, ch, hch, -⟩ := h.connecting hst
  have hnone := h.none (by simp [hst])
  exact ⟨by omega, ⟨List.count_eq_zero.mp (by omega), h.ordered⟩, List.count_eq_zero.mp hr, ch, hch⟩

theorem stopInLoop_keeps (h : c.Steady w n) : Keeps w n c.stopInLoop := by
  unfold stopInLoop
  split_ifs with hst
  · obtain ⟨rfl, hq, hr, ch, hch⟩ := h.attempt hst
    exact release_keeps hq hr hch fun _ _ => retry_keeps
  · exact idle_keeps h

theorem handleError_keeps (h : c.Steady w n) : Keeps w n c.handleError := by
  unfold handleError
  split_ifs with hst
  · obtain ⟨rfl, hq, hr, ch, hch⟩ := h.attempt hst
    exact release_keeps hq hr hch fun _ _ => retry_keeps
  · exact idle_keeps h

theorem connected_keeps {e : Effect} (hq : Quiet w) (hrel : c.Released w) (he : e.Sound)
    (hqe : queued [e] = []) (hae : armed [e] = 0) : Keeps w 0 (c.setState .kConnected, [e]) := by
  have hs : w.count .startInLoop = 0 := List.count_eq_zero.mpr hq.starts
  refine (idle_keeps ?_).cons he hqe hae
  exact ⟨by simp [hs], fun _ => by simp [hs], fun hst => by simp at hst, fun _ => hrel,
    hq.ordered⟩

theorem handleWrite_keeps (h : c.Steady w n) (err : Nat) (isSelfConnect : Bool) :
    Keeps w n (c.handleWrite err isSelfConnect) := by
  unfold handleWrite
  by_cases hst : c.state = .kConnecting
  · rw [if_pos hst]
    obtain ⟨rfl, hq, hr, ch, hch⟩ := h.attempt hst
    refine release_keeps hq hr hch fun c' fd hq' hrel => ?_
    split_ifs
    · exact retry_keeps hq' hrel
    · exact retry_keeps hq' hrel
    · dsimp only
      split_ifs
      · exact connected_keeps hq' hrel trivial rfl rfl
      · exact connected_keeps hq' hrel trivial rfl rfl
  · rw [if_neg hst]
    exact idle_keeps h

theorem handle_keeps (h : c.Steady w n) (err : Nat) (isSelfConnect : Bool) (k : Handler) :
    Keeps w n (c.handle err isSelfConnect k) := by
  cases k with
  | error => exact handleError_keeps h
  | write => exact handleWrite_keeps h err isSelfConnect
  | close | read => exact idle_keeps h

theorem handleAll_keeps (h : c.Steady w n) (err : Nat) (isSelfConnect : Bool)
    (ks : List Handler) : Keeps w n (c.handleAll err isSelfConnect ks) := by
  induction ks generalizing c w n with
  | nil => exact idle_keeps h
  | cons k ks ih =>
    obtain ⟨hsound, hsteady⟩ := handle_keeps h err isSelfConnect k
    obtain ⟨hsound', hsteady'⟩ := ih hsteady
    simp only [handleAll]
    refine ⟨fun e he => (List.mem_append.mp he).elim (hsound e) (hsound' e), ?_⟩
    rw [queued_append, armed_append, ← List.append_assoc, ← Nat.add_assoc]
    exact hsteady'

/-- The functor at the head of the queue is `resetChannel`. -/
theorem resetChannel_keeps (h : c.Steady (.resetChannel :: w) n) : Keeps w n c.resetChannel := by
  have hst : c.state ≠ .kConnecting := by
    intro hst
    have := (h.connecting hst).1
    simp at this
  have hreset : w.count .resetChannel = 0 ∧ ∀ ch, c.channel = some ch → ch.addedToLoop = false := by
    rcases h.released hst with ⟨-, hr⟩ | ⟨⟨ch, hch, hadd⟩, hr⟩
    · simp at hr
    · exact ⟨by simpa using hr, fun ch' hch' => by simp_all⟩
  have hs : (.resetChannel :: w : List Functor).count .startInLoop = w.count .startInLoop := by
    simp
  refine ⟨by simpa [resetChannel, Effect.Sound] using hreset.2, ?_⟩
  simp only [resetChannel, queued, armed, List.filterMap_cons, List.filterMap_nil, List.append_nil]
  refine ⟨hs ▸ h.one, fun hd => hs ▸ h.none hd, fun hd => absurd hd hst,
    fun _ => .inl ⟨rfl, hreset.1⟩, h.ordered.tail.imp fun pre f hf heq hm => ?_⟩
  exact hf heq (List.mem_cons_of_mem _ hm)

/-- The functor at the head of the queue is `startInLoop`. -/
theorem startInLoop_head (h : c.Steady (.startInLoop :: w) n) (a : Attempt) :
    Keeps w n (c.startInLoop a) := by
  have hone := h.one
  rw [List.count_cons_self] at hone
  obtain rfl : n = 0 := by omega
  have hst : c.state = .kDisconnected := by
    by_contra hne
    have := h.none hne
    simp at this
  have hr : .resetChannel ∉ w := by
    intro hm
    obtain ⟨pre, post, rfl⟩ := List.append_of_mem hm
    exact h.ordered (.startInLoop :: pre) .resetChannel post rfl rfl (by simp)
  have hq : Quiet w := by
    refine ⟨List.count_eq_zero.mp (by omega), h.ordered.tail.imp fun pre f hf heq hm => ?_⟩
    exact hf heq (List.mem_cons_of_mem _ hm)
  have hch : c.channel = none := by
    rcases h.released (by simp [hst]) with ⟨hch, -⟩ | ⟨-, hc⟩
    · exact hch
    · simp [List.count_eq_zero.mpr hr] at hc
  exact startInLoop_keeps a hq hst hch hr

end Connector

namespace ConnectorSystem

open Connector (Keeps)

variable {T : Type} {s t : ConnectorSystem T} {a : Label T} {h : List (Label T)}

/-- The connector is steady, and all it did so far was sound. -/
structure Inv (s : ConnectorSystem T) : Prop where
  settled : s.loop.Settled
  steady : s.connector.Steady s.loop.waiting s.timers
  sound : ∀ e ∈ s.log, e.Sound

/-- A member function that keeps the connector steady. -/
theorem inv_did {r : Connector × List Effect} (hl : s.loop.Settled) (hlog : ∀ e ∈ s.log, e.Sound)
    (hk : Keeps s.loop.waiting s.timers r) : (s.did r).Inv where
  settled := EventLoop.settled_foldl_queueInLoop true _ hl
  steady := by
    have hsteady := hk.2
    rw [← EventLoop.waiting_foldl_queueInLoop true] at hsteady
    exact hsteady
  sound e he := (List.mem_append.mp he).elim (hlog e) (hk.1 e)

theorem runFunctor_cases {f : Functor} {r : Connector × List Effect}
    (h : s.runFunctor f r = some t) (hi : s.Inv) :
    ∃ l, l.Settled ∧ s.loop.waiting = f :: l.waiting ∧ t = { s with loop := l }.did r := by
  unfold runFunctor at h
  split_ifs at h
  obtain ⟨l, hl, rfl⟩ := Option.map_eq_some_iff.mp h
  exact ⟨l, EventLoop.move_settled hl hi.settled, EventLoop.waiting_run hl hi.settled, rfl⟩

theorem inv_runFunctor {f : Functor} {r : Connector × List Effect}
    (h : s.runFunctor f r = some t) (hi : s.Inv)
    (hk : ∀ w, s.connector.Steady (f :: w) s.timers → Keeps w s.timers r) : t.Inv := by
  obtain ⟨l, hl, hw, rfl⟩ := runFunctor_cases h hi
  refine inv_did (s := { s with loop := l }) hl hi.sound (hk l.waiting ?_)
  have hsteady := hi.steady
  rwa [hw] at hsteady

theorem log_runFunctor {f : Functor} {r : Connector × List Effect}
    (hs : s.runFunctor f r = some t) : t.log = s.log ++ r.2 := by
  unfold runFunctor at hs
  split_ifs at hs
  obtain ⟨loop, -, rfl⟩ := Option.map_eq_some_iff.mp hs
  rfl

/-- The log only grows. -/
theorem log_exec [DecidableEq T] (hs : s.exec a = some t) : ∃ es, t.log = s.log ++ es := by
  cases a with
  | move m =>
    simp only [exec] at hs
    split_ifs at hs
    obtain ⟨loop, -, rfl⟩ := Option.map_eq_some_iff.mp hs
    exact ⟨[], (List.append_nil _).symm⟩
  | startCall | startQueue | stopCall | stopQueue =>
    simp only [exec] at hs
    split_ifs at hs
    obtain rfl := Option.some.inj hs
    exact ⟨[], (List.append_nil _).symm⟩
  | startHere | fire | handleEvent | restart =>
    simp only [exec] at hs
    split_ifs at hs
    obtain rfl := Option.some.inj hs
    exact ⟨_, rfl⟩
  | runStart | runStop | runReset => exact ⟨_, log_runFunctor hs⟩

/-- Without an attempt or a reset waiting there is no channel, unless one is connecting. -/
theorem Inv.channel_none (hi : s.Inv) (hst : s.connector.state ≠ .kConnecting)
    (hr : .resetChannel ∉ s.loop.waiting) : s.connector.channel = none := by
  rcases hi.steady.released hst with ⟨hch, -⟩ | ⟨-, hc⟩
  · exact hch
  · simp [List.count_eq_zero.mpr hr] at hc

/-- A retry timer is alone, and armed only while disconnected. -/
theorem Inv.of_timer (hi : s.Inv) (hpos : 0 < s.timers) :
    s.connector.state = .kDisconnected ∧ .startInLoop ∉ s.loop.waiting ∧ s.timers - 1 = 0 := by
  have hone := hi.steady.one
  refine ⟨?_, List.count_eq_zero.mp (by omega), by omega⟩
  by_contra hne
  have := hi.steady.none hne
  omega

theorem inv_initial (hs : s.Initial) : s.Inv where
  settled := hs.settled
  steady := by
    have hw : ∀ f ≠ Functor.callback, f ∉ s.loop.waiting := fun f hf hm => hf (hs.waiting f hm)
    rw [hs.connector, hs.timers]
    refine Connector.steady_disconnected rfl ⟨hw _ (by simp), ?_⟩ (Nat.zero_le 1)
      (.inl ⟨rfl, List.count_eq_zero.mpr (hw _ (by simp))⟩)
    rintro pre f post heq rfl
    exact absurd (heq ▸ by simp) (hw .resetChannel (by simp))
  sound := by simp [hs.log]

variable [DecidableEq T]

theorem inv_exec_step (hi : s.Inv) (hc : s.Orderly a) (hs : s.exec a = some t) : t.Inv := by
  cases a with
  | move m =>
    simp only [exec] at hs
    split_ifs at hs with hg
    obtain ⟨l, hl, rfl⟩ := Option.map_eq_some_iff.mp hs
    refine ⟨EventLoop.move_settled hl hi.settled, ?_, hi.sound⟩
    have hsteady := hi.steady
    rcases EventLoop.move_waiting hl hi.settled with ⟨f, rfl, hw⟩ | ⟨-, hw⟩
    · obtain rfl : f = .callback := by simpa [foreign] using hg.2
      rw [hw] at hsteady
      exact hsteady.tail (by simp) (by simp)
    · rw [← hw] at hsteady
      exact hsteady
  | startCall th =>
    obtain ⟨-, rfl⟩ := Option.ite_some_none_eq_some.mp hs
    exact ⟨hi.settled, hi.steady.setConnect true, hi.sound⟩
  | startHere a =>
    obtain ⟨hst, hw, hn, hr⟩ := hc
    obtain ⟨-, rfl⟩ := Option.ite_some_none_eq_some.mp hs
    refine inv_did hi.settled hi.sound ?_
    have hch := hi.channel_none (by simp [hst]) hr
    change Keeps _ s.timers _
    rw [hn]
    exact Connector.startInLoop_keeps a ⟨hw, hi.steady.ordered⟩ hst hch hr
  | startQueue th =>
    obtain ⟨hst, hw, hn⟩ := hc
    obtain ⟨-, rfl⟩ := Option.ite_some_none_eq_some.mp hs
    refine ⟨EventLoop.settled_queueInLoop _ _ hi.settled, ?_, hi.sound⟩
    change s.connector.Steady (EventLoop.waiting _) _
    rw [EventLoop.waiting_queueInLoop]
    exact hi.steady.start hst hw hn
  | stopCall th =>
    obtain ⟨-, rfl⟩ := Option.ite_some_none_eq_some.mp hs
    exact ⟨hi.settled, hi.steady.setConnect false, hi.sound⟩
  | stopQueue th =>
    obtain ⟨-, rfl⟩ := Option.ite_some_none_eq_some.mp hs
    refine ⟨EventLoop.settled_queueInLoop _ _ hi.settled, ?_, hi.sound⟩
    change s.connector.Steady (EventLoop.waiting _) _
    rw [EventLoop.waiting_queueInLoop]
    exact hi.steady.snoc (by simp) (by simp)
  | runStart a => exact inv_runFunctor hs hi fun w hw => Connector.startInLoop_head hw a
  | runStop =>
    exact inv_runFunctor hs hi fun w hw =>
      Connector.stopInLoop_keeps (hw.tail (by simp) (by simp))
  | runReset => exact inv_runFunctor hs hi fun w hw => Connector.resetChannel_keeps hw
  | fire a =>
    obtain ⟨⟨-, -, hpos⟩, rfl⟩ := Option.ite_some_none_eq_some.mp hs
    refine inv_did (s := { s with timers := s.timers - 1 }) hi.settled hi.sound ?_
    obtain ⟨hst, hw, hn⟩ := hi.of_timer hpos
    have hch := hi.channel_none (by simp [hst]) hc
    change Keeps _ (s.timers - 1) _
    rw [hn]
    exact Connector.startInLoop_keeps a ⟨hw, hi.steady.ordered⟩ hst hch hc
  | handleEvent revents err isSelfConnect =>
    obtain ⟨-, rfl⟩ := Option.ite_some_none_eq_some.mp hs
    exact inv_did hi.settled hi.sound (Connector.handleAll_keeps hi.steady err isSelfConnect _)
  | restart a =>
    obtain ⟨hst, hw, hn, hr⟩ := hc
    obtain ⟨-, rfl⟩ := Option.ite_some_none_eq_some.mp hs
    refine inv_did hi.settled hi.sound ?_
    have hch := hi.channel_none hst hr
    rw [hn]
    exact Connector.startInLoop_keeps a ⟨hw, hi.steady.ordered⟩ rfl hch hr

theorem inv_exec (he : ((system T).restrict Orderly).Exec h s) : s.Inv := by
  induction he with
  | start hs => exact inv_initial hs
  | snoc _ hs ih => exact inv_exec_step ih hs.1 hs.2

/-- In every run in which `start` is called in order, an attempt starts from `kDisconnected` and
without a channel, and the channel of the last one leaves the poller before it is destroyed. -/
theorem one_attempt (he : ((system T).restrict Orderly).Exec h s) : ∀ e ∈ s.log, e.Sound :=
  (inv_exec he).sound

def idle : ConnectorSystem Unit := ⟨.enter 0, .new, 0, fun _ => .idle, []⟩

theorem idle_initial : idle.Initial :=
  ⟨fun _ => rfl, by simp [idle, EventLoop.enter, EventLoop.waiting], rfl, rfl, fun _ => rfl, rfl⟩

/-- An attempt that fails, and the next one after the retry timer. -/
theorem one_attempt_retried :
    ∃ h s, ((system Unit).restrict Orderly).Exec h s ∧
      s.log.count (.startInLoop .kDisconnected) = 2 ∧ ∀ e ∈ s.log, e.Sound := by
  have he : ∃ s, ((system Unit).restrict Orderly).Exec
      [.startCall .loop, .startHere ⟨5, .EINPROGRESS⟩, .move .poll, .handleEvent POLLERR 111 false,
        .move .beginPending, .move .swap, .runReset, .move .endPending, .move .poll,
        .fire ⟨6, .EINPROGRESS⟩] s ∧ s.log.count (.startInLoop .kDisconnected) = 2 := by
    refine ⟨_, Trace.LTS.exec_of_foldlM (f := fun s a => if s.Orderly a then s.exec a else none) ?_
      idle_initial rfl, by decide⟩
    intro s a t hs
    split_ifs at hs with hc
    exact ⟨hc, hs⟩
  obtain ⟨s, he, hlog⟩ := he
  exact ⟨_, s, he, hlog, one_attempt he⟩

/-- `stop` and `start` again while an attempt is under way: the next one starts from
`kConnecting`. -/
theorem start_after_stop_overlaps :
    ¬ ∀ (h : List (Label Unit)) (s : ConnectorSystem Unit), (system Unit).Exec h s →
      ∀ e ∈ s.log, e.Sound := by
  intro hall
  have he : ∃ s, (system Unit).Exec
      [.startCall .loop, .startHere ⟨5, .EINPROGRESS⟩, .stopCall .loop, .stopQueue .loop,
        .startCall .loop, .startHere ⟨6, .EINPROGRESS⟩] s ∧
      .startInLoop .kConnecting ∈ s.log :=
    ⟨_, Trace.LTS.exec_of_foldlM (f := exec) (fun _ _ _ hs => hs) idle_initial rfl, by decide⟩
  obtain ⟨s, he, hm⟩ := he
  exact absurd (hall _ s he _ hm) (by simp [Connector.Effect.Sound])

end ConnectorSystem

end Lute
