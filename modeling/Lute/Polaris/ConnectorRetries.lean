import Lute.Lib.Backoff
import Lute.Polaris.ConnectorSockets

/-! The connector keeps trying: its delays, and that no retry is lost. -/
namespace Lute

open Connector (Functor Effect queued armed kInitRetryDelayMs kMaxRetryDelayMs)
open Backoff (Waits Schedule)

namespace Connector

variable {c : Connector} {es es' : List Effect} {r : Connector × List Effect}

/-- The delays of the retry timers started. -/
def delays (es : List Effect) : List Nat :=
  es.filterMap fun
    | .runAfter delayMs => some delayMs
    | _ => none

def Effect.isStart : Effect → Bool
  | .startInLoop _ => true
  | _ => false

/-- The program has ended on a null `channel_`. -/
def Crashed (es : List Effect) : Prop := .removeAndResetChannel none ∈ es

/-- The last attempt was given up: its socket was closed, and no timer started. -/
def GaveUp (es : List Effect) : Prop :=
  ∃ pre st sockfd post, es = pre ++ .startInLoop st :: .close sockfd :: post ∧ delays post = [] ∧
    post.any Effect.isStart = false

theorem delays_append : delays (es ++ es') = delays es ++ delays es' := by
  simp [delays]

theorem armed_eq (es : List Effect) : armed es = (delays es).length := by
  induction es with
  | nil => rfl
  | cons e es ih =>
    rw [← List.singleton_append, armed_append, delays_append, List.length_append, ih]
    cases e <;> rfl

theorem GaveUp.append (h : GaveUp es) (hd : delays es' = [])
    (hs : es'.any Effect.isStart = false) : GaveUp (es ++ es') := by
  obtain ⟨pre, st, sockfd, post, rfl, hpost, hstart⟩ := h
  refine ⟨pre, st, sockfd, post ++ es', by simp, ?_, ?_⟩
  · rw [delays_append, hpost, hd, List.append_nil]
  · rw [List.any_append, hstart, hs, Bool.or_false]

/-- Each timer started is given the current delay, which then grows. -/
def Paced (c : Connector) (r : Connector × List Effect) : Prop :=
  Waits kMaxRetryDelayMs c.retryDelayMs (delays r.2) r.1.retryDelayMs

/-- A member function that does not start an attempt; where it finds none under way and leaves
none, nothing is asked of it, else it has started a timer. -/
structure Persists (c : Connector) (r : Connector × List Effect) : Prop where
  paced : c.Paced r
  connect : r.1.connect_ = c.connect_
  starts : r.2.any Effect.isStart = false
  retries : ¬ Crashed r.2 → r.1.connect_ = true → r.1.state = .kDisconnected →
    c.state = .kDisconnected ∨ delays r.2 ≠ []

/-- The end of an attempt: where it has failed, a timer is started. -/
structure Ends (c : Connector) (r : Connector × List Effect) : Prop where
  paced : c.Paced r
  connect : r.1.connect_ = c.connect_
  starts : r.2.any Effect.isStart = false
  retries : ¬ Crashed r.2 → r.1.connect_ = true → r.1.state = .kDisconnected → delays r.2 ≠ []

theorem Ends.persists (h : Ends c r) : Persists c r :=
  ⟨h.paced, h.connect, h.starts, fun hcr ht hst => .inr (h.retries hcr ht hst)⟩

theorem persists_idle (c : Connector) : Persists c (c, []) :=
  ⟨.nil, rfl, rfl, fun _ _ hst => .inl hst⟩

theorem retry_delays (sockfd : Nat) (hc : c.connect_ = true) :
    c.retry sockfd = ({ c with
      state := .kDisconnected
      retryDelayMs := min (c.retryDelayMs * 2) kMaxRetryDelayMs },
      [.close sockfd, .runAfter c.retryDelayMs]) :=
  if_pos hc

theorem retry_ends (c : Connector) (sockfd : Nat) : Ends c (c.retry sockfd) := by
  cases hc : c.connect_ with
  | false =>
    have heq : c.retry sockfd = (c.setState .kDisconnected, [.close sockfd]) :=
      if_neg (hc ▸ Bool.false_ne_true)
    rw [heq]
    exact ⟨.nil, rfl, rfl, fun _ ht => absurd (hc.symm.trans ht) Bool.false_ne_true⟩
  | true =>
    rw [retry_delays sockfd hc]
    exact ⟨.one, rfl, rfl, fun _ _ _ => List.cons_ne_nil _ _⟩

theorem Persists.trans {es' : List Effect} {c' : Connector} (h : Persists c r)
    (h' : Persists r.1 (c', es')) : Persists c (c', r.2 ++ es') := by
  refine ⟨?_, h'.connect.trans h.connect, ?_, fun hcr ht hst => ?_⟩
  · rw [Paced, delays_append]
    exact h.paced.append h'.paced
  · rw [List.any_append, h.starts, h'.starts, Bool.or_false]
  · have hcr' : ¬ Crashed es' := fun hm => hcr (List.mem_append_right _ hm)
    have hcr₀ : ¬ Crashed r.2 := fun hm => hcr (List.mem_append_left _ hm)
    rw [delays_append]
    rcases h'.retries hcr' ht hst with hst' | hne
    · rcases h.retries hcr₀ (h'.connect ▸ ht) hst' with hst₀ | hne
      · exact .inl hst₀
      · exact .inr (List.append_ne_nil_of_left_ne_nil hne _)
    · exact .inr (List.append_ne_nil_of_right_ne_nil _ hne)

theorem release_ends {follow : Connector → Nat → Connector × List Effect}
    (hf : ∀ c' sockfd, Ends c' (follow c' sockfd)) : Ends c (c.release follow) := by
  unfold release removeAndResetChannel
  cases hch : c.channel with
  | none => exact ⟨.nil, rfl, rfl, fun hcr => absurd (List.mem_singleton.mpr rfl) hcr⟩
  | some ch =>
    have h := hf { c with channel := some ch.disableAll.remove } ch.fd
    refine ⟨h.paced, h.connect, h.starts, fun hcr => h.retries fun hm => hcr ?_⟩
    exact List.mem_append_right _ hm

theorem stopInLoop_persists (c : Connector) : Persists c c.stopInLoop := by
  unfold stopInLoop
  split_ifs with hst
  · have h : Ends (c.setState .kDisconnected) ((c.setState .kDisconnected).release retry) :=
      release_ends retry_ends
    exact Ends.persists ⟨h.paced, h.connect, h.starts, h.retries⟩
  · exact persists_idle c

theorem handleError_persists (c : Connector) : Persists c c.handleError := by
  unfold handleError
  split_ifs with hst
  · exact (release_ends retry_ends).persists
  · exact persists_idle c

theorem handleWrite_persists (c : Connector) (err : Nat) (isSelfConnect : Bool) :
    Persists c (c.handleWrite err isSelfConnect) := by
  unfold handleWrite
  by_cases hst : c.state = .kConnecting
  · rw [if_pos hst]
    refine (release_ends fun c' sockfd => ?_).persists
    split_ifs
    · exact c'.retry_ends sockfd
    · exact c'.retry_ends sockfd
    · dsimp only
      split_ifs
      · exact ⟨.nil, rfl, rfl, fun _ _ hst => by cases hst⟩
      · exact ⟨.nil, rfl, rfl, fun _ _ hst => by cases hst⟩
  · rw [if_neg hst]
    exact persists_idle c

theorem handle_persists (c : Connector) (err : Nat) (isSelfConnect : Bool) (k : Handler) :
    Persists c (c.handle err isSelfConnect k) := by
  cases k with
  | error => exact c.handleError_persists
  | write => exact c.handleWrite_persists err isSelfConnect
  | close | read => exact persists_idle c

theorem handleAll_persists (c : Connector) (err : Nat) (isSelfConnect : Bool)
    (ks : List Handler) : Persists c (c.handleAll err isSelfConnect ks) := by
  induction ks generalizing c with
  | nil => exact persists_idle c
  | cons k ks ih => exact (c.handle_persists err isSelfConnect k).trans (ih _)

theorem resetChannel_persists (c : Connector) : Persists c c.resetChannel :=
  ⟨.nil, rfl, rfl, fun _ _ hst => .inl hst⟩

/-- An attempt under way or a timer started is what `startInLoop` leaves, or it has given up. -/
structure Tries (c : Connector) (r : Connector × List Effect) : Prop where
  paced : c.Paced r
  retries : r.1.connect_ = true → r.1.state = .kDisconnected →
    delays r.2 ≠ [] ∨ ∃ st sockfd, r.2 = [.startInLoop st, .close sockfd]

theorem startInLoop_tries (c : Connector) (a : Attempt) : Tries c (c.startInLoop a) := by
  unfold startInLoop
  cases hc : c.connect_ with
  | false =>
    rw [if_neg Bool.false_ne_true]
    exact ⟨.nil, fun ht => absurd (hc.symm.trans ht) Bool.false_ne_true⟩
  | true =>
    rw [if_pos rfl]
    rcases c.connect_cases a with heq | heq | heq <;> rw [heq]
    · exact ⟨.nil, fun _ hst => by cases hst⟩
    · rw [retry_delays a.sockfd hc]
      exact ⟨.one, fun _ _ => .inl (List.cons_ne_nil _ _)⟩
    · exact ⟨.nil, fun _ _ => .inr ⟨_, _, rfl⟩⟩

end Connector

namespace ConnectorSystem

open Connector (delays Crashed GaveUp Persists Tries armed_eq delays_append)
open ConnectorLife (isFire isRestart)

variable {T : Type} {s t u : ConnectorSystem T} {l : Label T} {h : List (Label T)}
  {r : Connector × List Effect} {m n : Nat}

/-- A thread is inside `start()`, or an attempt waits in the queue or for a timer. -/
def Underway (s : ConnectorSystem T) : Prop :=
  (∃ th, s.pc th = .starting) ∨ .startInLoop ∈ s.loop.waiting ∨ 0 < s.timers

/-- A connector that is to connect and does not is on its way to, or has given up. -/
def Live (s : ConnectorSystem T) : Prop :=
  ¬ Crashed s.log → s.connector.connect_ = true → s.connector.state = .kDisconnected →
    s.Underway ∨ GaveUp s.log

/-- The delays so far after `m` restarts, and the timers of which `n` have fired. -/
structure Waited (m n : Nat) (s : ConnectorSystem T) : Prop where
  schedule : Schedule kInitRetryDelayMs kMaxRetryDelayMs m (delays s.log) s.connector.retryDelayMs
  timers : n + s.timers = (delays s.log).length

theorem log_did (u : ConnectorSystem T) (r : Connector × List Effect) :
    (u.did r).log = u.log ++ r.2 := rfl

theorem waiting_did (u : ConnectorSystem T) (r : Connector × List Effect) :
    (u.did r).loop.waiting = u.loop.waiting ++ queued r.2 :=
  EventLoop.waiting_foldl_queueInLoop true _

theorem settled_did (r : Connector × List Effect) (hu : u.loop.Settled) :
    (u.did r).loop.Settled :=
  EventLoop.settled_foldl_queueInLoop true _ hu

theorem Underway.did (hu : u.Underway) (r : Connector × List Effect) : (u.did r).Underway := by
  rcases hu with hth | hm | hpos
  · exact .inl hth
  · refine .inr (.inl ?_)
    rw [waiting_did]
    exact List.mem_append_left _ hm
  · exact .inr (.inr (Nat.add_pos_left hpos _))

theorem underway_of_delays (u : ConnectorSystem T) (hd : delays r.2 ≠ []) :
    (u.did r).Underway := by
  have hpos : 0 < armed r.2 := armed_eq r.2 ▸ List.length_pos_of_ne_nil hd
  exact .inr (.inr (Nat.add_pos_right _ hpos))

theorem Live.did (hl : u.Live) (hp : Persists u.connector r) : (u.did r).Live := by
  intro hcr ht hst
  by_cases hd : delays r.2 = []
  · have hcr₀ : ¬ Crashed u.log := fun hm => hcr (List.mem_append_left _ hm)
    have hcr₁ : ¬ Crashed r.2 := fun hm => hcr (List.mem_append_right _ hm)
    have hst₀ := (hp.retries hcr₁ ht hst).resolve_right fun hne => hne hd
    rcases hl hcr₀ (hp.connect ▸ ht) hst₀ with hu | hg
    · exact .inl (hu.did r)
    · exact .inr (hg.append hd hp.starts)
  · exact .inl (u.underway_of_delays hd)

/-- After an attempt nothing depends on what was before it. -/
theorem live_tries {c : Connector} (hp : Tries c r) : (u.did r).Live := by
  intro _ ht hst
  rcases hp.retries ht hst with hd | ⟨st, sockfd, heq⟩
  · exact .inl (u.underway_of_delays hd)
  · refine .inr ⟨u.log, st, sockfd, [], ?_, rfl, rfl⟩
    rw [log_did, heq]

theorem Waited.did (hu : u.Waited m n) (hp : u.connector.Paced r) : (u.did r).Waited m n where
  schedule := by
    rw [log_did, delays_append]
    exact hu.schedule.waits hp
  timers := by
    rw [log_did, delays_append, List.length_append, ← hu.timers, ← armed_eq]
    exact (Nat.add_assoc _ _ _).symm

/-- Steps that leave the connector's delay, its timers and its log alone. -/
theorem Waited.congr (hs : s.Waited m n)
    (hd : t.connector.retryDelayMs = s.connector.retryDelayMs) (ht : t.timers = s.timers)
    (hl : t.log = s.log) : t.Waited m n :=
  ⟨by rw [hd, hl]; exact hs.schedule, by rw [ht, hl]; exact hs.timers⟩

structure Persistent (h : List (Label T)) (s : ConnectorSystem T) : Prop where
  settled : s.loop.Settled
  waited : s.Waited (h.countP isRestart) (h.countP isFire)
  live : s.Live

theorem persistent_initial (hs : s.Initial) : Persistent [] s where
  settled := hs.settled
  waited := by
    refine ⟨?_, ?_⟩
    · rw [hs.log, hs.connector]
      exact Backoff.schedule_nil (by decide)
    · rw [hs.log, hs.timers]
      rfl
  live _ ht := by
    rw [hs.connector] at ht
    exact Bool.noConfusion ht

/-- Taking a functor from the queue loses no start but the one taken. -/
theorem runFunctor_split {f : Functor} (hs : s.runFunctor f r = some t) (hset : s.loop.Settled) :
    ∃ l, l.Settled ∧ s.loop.waiting = f :: l.waiting ∧ t = { s with loop := l }.did r := by
  unfold runFunctor at hs
  split_ifs at hs
  obtain ⟨l, hl, rfl⟩ := Option.map_eq_some_iff.mp hs
  exact ⟨l, EventLoop.move_settled hl hset, EventLoop.waiting_run hl hset, rfl⟩

theorem Live.loop {loop : EventLoop Functor} (hl : s.Live)
    (hw : .startInLoop ∈ s.loop.waiting → .startInLoop ∈ loop.waiting) :
    Live { s with loop } := by
  intro hcr ht hst
  rcases hl hcr ht hst with (hth | hm | hpos) | hg
  · exact .inl (.inl hth)
  · exact .inl (.inr (.inl (hw hm)))
  · exact .inl (.inr (.inr hpos))
  · exact .inr hg

theorem waited_snoc (hl : isRestart l = false) (hf : isFire l = false)
    (ht : t.Waited (h.countP isRestart) (h.countP isFire)) :
    t.Waited ((h ++ [l]).countP isRestart) ((h ++ [l]).countP isFire) := by
  simpa [List.countP_append, hl, hf] using ht

variable [DecidableEq T]

theorem persistent_step (hi : Persistent h s) (hs : s.exec l = some t) :
    Persistent (h ++ [l]) t := by
  obtain ⟨hset, hw, hl⟩ := hi
  cases l with
  | move m =>
    simp only [exec] at hs
    split_ifs at hs with hg
    obtain ⟨loop, hloop, rfl⟩ := Option.map_eq_some_iff.mp hs
    refine ⟨EventLoop.move_settled hloop hset, waited_snoc rfl rfl (hw.congr rfl rfl rfl),
      hl.loop fun hm => ?_⟩
    rcases EventLoop.move_waiting hloop hset with ⟨f, rfl, hwait⟩ | ⟨-, hwait⟩
    · obtain rfl : f = .callback := by simpa [foreign] using hg.2
      rw [hwait] at hm
      simpa using hm
    · rwa [hwait]
  | startCall th =>
    obtain ⟨-, rfl⟩ := Option.ite_some_none_eq_some.mp hs
    refine ⟨hset, waited_snoc rfl rfl (hw.congr rfl rfl rfl), fun _ _ _ => .inl (.inl ⟨th, ?_⟩)⟩
    exact Function.update_self ..
  | startHere a =>
    obtain ⟨-, rfl⟩ := Option.ite_some_none_eq_some.mp hs
    have ht := s.connector.startInLoop_tries a
    exact ⟨settled_did _ hset,
      waited_snoc rfl rfl (Waited.did (u := s.setPc .loop .idle) (hw.congr rfl rfl rfl) ht.paced),
      live_tries ht⟩
  | startQueue th =>
    obtain ⟨-, rfl⟩ := Option.ite_some_none_eq_some.mp hs
    refine ⟨EventLoop.settled_queueInLoop _ _ hset, waited_snoc rfl rfl (hw.congr rfl rfl rfl),
      fun _ _ _ => .inl (.inr (.inl ?_))⟩
    rw [EventLoop.waiting_queueInLoop]
    exact List.mem_append_right _ (List.mem_singleton.mpr rfl)
  | stopCall th =>
    obtain ⟨-, rfl⟩ := Option.ite_some_none_eq_some.mp hs
    exact ⟨hset, waited_snoc rfl rfl (hw.congr rfl rfl rfl), fun _ ht => Bool.noConfusion ht⟩
  | stopQueue th =>
    obtain ⟨hpc, rfl⟩ := Option.ite_some_none_eq_some.mp hs
    refine ⟨EventLoop.settled_queueInLoop _ _ hset, waited_snoc rfl rfl (hw.congr rfl rfl rfl),
      fun hcr ht hst => ?_⟩
    rcases hl hcr ht hst with (⟨th', hth⟩ | hm | hpos) | hg
    · have hne : th' ≠ th := by
        rintro rfl
        simp [hpc] at hth
      exact .inl (.inl ⟨th', (Function.update_of_ne hne ..).trans hth⟩)
    · refine .inl (.inr (.inl ?_))
      rw [EventLoop.waiting_queueInLoop]
      exact List.mem_append_left _ hm
    · exact .inl (.inr (.inr hpos))
    · exact .inr hg
  | runStart a =>
    obtain ⟨loop, hloop, -, rfl⟩ := runFunctor_split hs hset
    have ht := s.connector.startInLoop_tries a
    exact ⟨settled_did _ hloop,
      waited_snoc rfl rfl (Waited.did (u := { s with loop }) (hw.congr rfl rfl rfl) ht.paced),
      live_tries ht⟩
  | runStop =>
    obtain ⟨loop, hloop, hwait, rfl⟩ := runFunctor_split hs hset
    have hp := s.connector.stopInLoop_persists
    exact ⟨settled_did _ hloop,
      waited_snoc rfl rfl (Waited.did (u := { s with loop }) (hw.congr rfl rfl rfl) hp.paced),
      Live.did (hl.loop fun hm => by simpa [hwait] using hm) hp⟩
  | runReset =>
    obtain ⟨loop, hloop, hwait, rfl⟩ := runFunctor_split hs hset
    have hp := s.connector.resetChannel_persists
    exact ⟨settled_did _ hloop,
      waited_snoc rfl rfl (Waited.did (u := { s with loop }) (hw.congr rfl rfl rfl) hp.paced),
      Live.did (hl.loop fun hm => by simpa [hwait] using hm) hp⟩
  | fire a =>
    obtain ⟨⟨-, -, hpos⟩, rfl⟩ := Option.ite_some_none_eq_some.mp hs
    have ht := s.connector.startInLoop_tries a
    have hu : Waited (h.countP isRestart) (h.countP isFire + 1)
        { s with timers := s.timers - 1 } := by
      refine ⟨hw.schedule, ?_⟩
      rw [← hw.timers]
      dsimp only
      omega
    have hcount : (h ++ [Label.fire a]).countP isRestart = h.countP isRestart ∧
        (h ++ [Label.fire a]).countP isFire = h.countP isFire + 1 := by
      simp [List.countP_append, isFire, isRestart]
    refine ⟨settled_did _ hset, ?_, live_tries ht⟩
    rw [hcount.1, hcount.2]
    exact hu.did ht.paced
  | handleEvent revents err isSelfConnect =>
    obtain ⟨-, rfl⟩ := Option.ite_some_none_eq_some.mp hs
    have hp := s.connector.handleAll_persists err isSelfConnect
      (Channel.handleEventWithGuard revents)
    exact ⟨settled_did _ hset, waited_snoc rfl rfl (hw.did hp.paced), hl.did hp⟩
  | restart a =>
    obtain ⟨-, rfl⟩ := Option.ite_some_none_eq_some.mp hs
    have ht := Connector.startInLoop_tries { s.connector with
      state := .kDisconnected
      retryDelayMs := kInitRetryDelayMs
      connect_ := true } a
    have hcount : (h ++ [Label.restart a]).countP isRestart = h.countP isRestart + 1 ∧
        (h ++ [Label.restart a]).countP isFire = h.countP isFire := by
      simp [List.countP_append, isFire, isRestart]
    have hu : Waited (h.countP isRestart + 1) (h.countP isFire)
        { s with connector := { s.connector with
            state := .kDisconnected
            retryDelayMs := kInitRetryDelayMs
            connect_ := true } } :=
      ⟨hw.schedule.reset (by decide), hw.timers⟩
    refine ⟨settled_did _ hset, ?_, live_tries ht⟩
    rw [hcount.1, hcount.2]
    exact hu.did ht.paced

theorem persistent_exec (he : (system T).Exec h s) : Persistent h s := by
  induction he with
  | start hi => exact persistent_initial hi
  | snoc _ hs ih => exact persistent_step ih hs

/-- What is known of the retries after any run. -/
structure Retries (h : List (Label T)) (s : ConnectorSystem T) : Prop where
  schedule : Schedule kInitRetryDelayMs kMaxRetryDelayMs (h.countP isRestart) (delays s.log)
    s.connector.retryDelayMs
  bounds : ∀ d ∈ delays s.log, kInitRetryDelayMs ≤ d ∧ d ≤ kMaxRetryDelayMs
  fired : h.countP isFire + s.timers = (delays s.log).length
  live : ¬ Crashed s.log → s.connector.connect_ = true → s.connector.state = .kDisconnected →
    s.Underway ∨ GaveUp s.log

/-- Whatever the threads, the queue and the kernel do, the delays double from 500 ms up to 30 s and
start over with `restart` only, every timer started fires once at most, and a connector that is to
connect never rests disconnected unless `connect` has failed for good. -/
theorem retries_persist (he : (system T).Exec h s) : Retries h s := by
  obtain ⟨-, hw, hl⟩ := persistent_exec he
  exact ⟨hw.schedule, hw.schedule.mem_bounds (by decide), hw.timers, hl⟩

/-- Two refused attempts, then one that is given up, and `restart`. -/
theorem retries_persist_refused : ∃ h, ∃ s : ConnectorSystem Unit, (system Unit).Exec h s ∧
    delays s.log = [500, 1000, 500] ∧ Retries h s := by
  have he : ∃ s, (system Unit).Exec
      [.startCall .loop, .startHere ⟨5, .ECONNREFUSED⟩, .move .poll, .fire ⟨6, .ENETUNREACH⟩,
        .fire ⟨7, .EACCES⟩, .restart ⟨8, .ECONNREFUSED⟩] s ∧
      delays s.log = [500, 1000, 500] :=
    ⟨_, Trace.LTS.exec_of_foldlM (f := exec) (fun _ _ _ hs => hs) idle_initial rfl, by decide⟩
  obtain ⟨s, he, hd⟩ := he
  exact ⟨_, s, he, hd, retries_persist he⟩

end ConnectorSystem

end Lute
