import Lute.Polaris.EPollPoller

/-! The poller's table, the channels' indices and the interest list stay in step. -/
namespace Lute

variable {P : Type}

namespace EPollPoller

/-- What a channel asks of the poller through `update()`. -/
inductive Request
  | enableReading
  | disableReading
  | enableWriting
  | disableWriting
  | disableAll
  deriving DecidableEq, Repr

def Request.apply : Request → Channel → Channel
  | .enableReading => Channel.enableReading
  | .disableReading => Channel.disableReading
  | .enableWriting => Channel.enableWriting
  | .disableWriting => Channel.disableWriting
  | .disableAll => Channel.disableAll

/-- `create` constructs a channel, perhaps at an address used before. -/
inductive Op (P : Type)
  | create (p : P) (fd : Int)
  | request (p : P) (r : Request)
  | remove (p : P)
  | poll (events : List (BitVec 32 × P))
  deriving DecidableEq, Repr

def exec [DecidableEq P] (s : EPollPoller P) : Op P → Except Fault (EPollPoller P)
  | .create p fd => pure (s.setChannel p ⟨fd, .new, 0, .kNew⟩)
  | .request p r => s.modify p r.apply
  | .remove p => s.remove p
  | .poll events => do return (← s.poll events).1

def Registered (s : EPollPoller P) (p : P) : Prop :=
  (s.channelAt p).index = .kAdded ∨ (s.channelAt p).index = .kDeleted

/-- No other registered channel has the fd of `p`. -/
def Owner (s : EPollPoller P) (p : P) : Prop :=
  ∀ q, q ≠ p → s.Registered q → (s.channelAt q).fd ≠ (s.channelAt p).fd

/-- What `epoll_wait` may return: at most as many events as there is room for, each for an entry
of the interest list and within its mask, errors and hang-ups apart. -/
def CanReturn (s : EPollPoller P) (events : List (BitVec 32 × P)) : Prop :=
  events.length ≤ s.eventListSize ∧
    ∀ e ∈ events, ∃ fd i, s.kernel fd = some i ∧ i.ptr = e.2 ∧
      e.1 &&& ~~~(i.events ||| POLLERR ||| POLLHUP) = 0

/-- What the callers of the poller promise. -/
def Allowed (s : EPollPoller P) : Op P → Prop
  | .create p _ => (s.channelAt p).index = .kNew
  | .request p _ => (s.channelAt p).index = .kNew → s.Owner p
  | .remove p => (s.channelAt p).channel.isNoneEvent = true ∧ (s.channelAt p).index ≠ .kNew
  | .poll events => s.CanReturn events

/-- A new poller, with channels that no poller has seen. -/
structure Initial (s : EPollPoller P) : Prop where
  index : ∀ p, (s.channelAt p).index = .kNew
  channels : ∀ fd, s.channels fd = none
  kernel : ∀ fd, s.kernel fd = none
  eventListSize : s.eventListSize = kInitEventListSize
  sysErrors : s.sysErrors = []

def system (P : Type) [DecidableEq P] : Trace.LTS (EPollPoller P) (Op P) where
  init := Initial
  step s op t := s.Allowed op ∧ s.exec op = .ok t

/-- The table holds the registered channels, the interest list the added ones with their masks,
and no `epoll_ctl` has failed. -/
structure Consistent (s : EPollPoller P) : Prop where
  channels : ∀ fd p, s.channels fd = some p ↔ (s.channelAt p).fd = fd ∧ s.Registered p
  kernel : ∀ fd i, s.kernel fd = some i ↔
    ∃ p, (s.channelAt p).fd = fd ∧ (s.channelAt p).index = .kAdded ∧
      i = ⟨(s.channelAt p).channel.events, p⟩
  sysErrors : s.sysErrors = []

variable {s t : EPollPoller P} {p : P}

theorem registered_iff : s.Registered p ↔ (s.channelAt p).index ≠ .kNew := by
  unfold Registered
  cases (s.channelAt p).index <;> simp

theorem Consistent.owner (hc : s.Consistent) (hr : s.Registered p) : s.Owner p := by
  intro q hne hq he
  have hp := (hc.channels _ p).mpr ⟨rfl, hr⟩
  have hq := (hc.channels _ q).mpr ⟨he, hq⟩
  exact hne (Option.some.inj (hq.symm.trans hp))

/-- The entry the table should have for a channel. -/
def entry (p : P) (c : PolledChannel) : Option P := if c.index = .kNew then none else some p

def interest (p : P) (c : PolledChannel) : Option (Interest P) :=
  if c.index = .kAdded then some ⟨c.channel.events, p⟩ else none

theorem Consistent.channels_fd (hc : s.Consistent) (ho : s.Owner p) :
    s.channels (s.channelAt p).fd = entry p (s.channelAt p) := by
  unfold entry
  split_ifs with hi
  · rw [Option.eq_none_iff_forall_ne_some]
    intro q hq
    obtain ⟨hfd, hr⟩ := (hc.channels _ q).mp hq
    refine ho q (fun he => ?_) hr hfd
    exact registered_iff.mp (he ▸ hr) hi
  · exact (hc.channels _ p).mpr ⟨rfl, registered_iff.mpr hi⟩

theorem Consistent.kernel_fd (hc : s.Consistent) (ho : s.Owner p) :
    s.kernel (s.channelAt p).fd = interest p (s.channelAt p) := by
  unfold interest
  split_ifs with hi
  · exact (hc.kernel _ _).mpr ⟨p, rfl, hi, rfl⟩
  · rw [Option.eq_none_iff_forall_ne_some]
    intro i hk
    obtain ⟨q, hfd, hq, -⟩ := (hc.kernel _ i).mp hk
    refine ho q (fun he => ?_) (.inl hq) hfd
    exact hi (he ▸ hq)

section
variable [DecidableEq P]

/-- The poller with the object at `p` replaced and its fd's entries brought in line. -/
def place (s : EPollPoller P) (p : P) (c : PolledChannel) : EPollPoller P :=
  { s with
    channelAt := Function.update s.channelAt p c
    channels := Function.update s.channels c.fd (entry p c)
    kernel := Function.update s.kernel c.fd (interest p c) }

@[simp] theorem place_self (c : PolledChannel) : (s.place p c).channelAt p = c := by
  simp [place]

@[simp] theorem place_ne {q : P} (c : PolledChannel) (hne : q ≠ p) :
    (s.place p c).channelAt q = s.channelAt q := by
  simp [place, hne]

theorem Consistent.place {c : PolledChannel} (hc : s.Consistent) (ho : s.Owner p)
    (hfd : c.fd = (s.channelAt p).fd) : (s.place p c).Consistent := by
  refine ⟨fun fd q => ?_, fun fd i => ?_, hc.sysErrors⟩
  · by_cases hf : fd = c.fd
    · subst hf
      have hch : (s.place p c).channels c.fd = entry p c := by simp [EPollPoller.place]
      rw [hch]
      by_cases hq : q = p
      · subst hq
        simp [entry, registered_iff]
      · have hno : ¬ ((s.channelAt q).fd = c.fd ∧ s.Registered q) :=
          fun h => ho q hq h.2 (h.1.trans hfd)
        simpa [entry, Registered, hq, Ne.symm hq] using hno
    · have hch : (s.place p c).channels fd = s.channels fd := by simp [EPollPoller.place, hf]
      rw [hch, hc.channels]
      by_cases hq : q = p
      · subst hq
        simp [← hfd, Ne.symm hf]
      · simp [Registered, hq]
  · by_cases hf : fd = c.fd
    · subst hf
      have hk : (s.place p c).kernel c.fd = interest p c := by simp [EPollPoller.place]
      rw [hk]
      constructor
      · intro h
        obtain ⟨hi, rfl⟩ : c.index = .kAdded ∧ ⟨c.channel.events, p⟩ = i := by
          simpa [interest] using h
        exact ⟨p, by simp, by simp [hi], by simp⟩
      · rintro ⟨q, hq, hi, rfl⟩
        by_cases hqp : q = p
        · subst hqp
          simp [interest, show c.index = .kAdded by simpa using hi]
        · rw [place_ne c hqp] at hq hi
          exact absurd (hq.trans hfd) (ho q hqp (.inl hi))
    · have hk : (s.place p c).kernel fd = s.kernel fd := by simp [EPollPoller.place, hf]
      rw [hk, hc.kernel]
      refine exists_congr fun q => ?_
      by_cases hq : q = p
      · subst hq
        simp [← hfd, Ne.symm hf]
      · simp [hq]

/-- The object after a request: added, unless an added one asks for nothing. -/
def requested (c : PolledChannel) (f : Channel → Channel) : PolledChannel :=
  { c with
    channel := f c.channel
    index := if c.index = .kAdded ∧ (f c.channel).isNoneEvent = true then .kDeleted else .kAdded }

theorem modify_eq (hc : s.Consistent) (ho : s.Owner p) (f : Channel → Channel) :
    s.modify p f = .ok (s.place p (requested (s.channelAt p) f)) := by
  have hch := hc.channels_fd ho
  have hk := hc.kernel_fd ho
  cases hi : (s.channelAt p).index with
  | kNew | kDeleted =>
    simp [entry, interest, hi] at hch hk
    simp [modify, updateChannel, setChannel, setIndex, update, epollCtl, hi, hch, hk, place,
      requested, entry, interest, ensure, pure, Except.pure, bind, Except.bind]
  | kAdded =>
    simp [entry, interest, hi] at hch hk
    by_cases hn : (f (s.channelAt p).channel).isNoneEvent = true
    · simp [modify, updateChannel, setChannel, setIndex, update, epollCtl, hi, hch, hk, place,
        requested, entry, interest, ensure, pure, Except.pure, bind, Except.bind, hn]
    · simp [modify, updateChannel, setChannel, update, epollCtl, hi, hch, hk, place,
        requested, entry, interest, ensure, pure, Except.pure, bind, Except.bind, hn]

theorem remove_eq (hc : s.Consistent) (hn : (s.channelAt p).channel.isNoneEvent = true)
    (hr : s.Registered p) :
    s.remove p = .ok (s.place p { s.channelAt p with index := .kNew }) := by
  have hch := hc.channels_fd (hc.owner hr)
  have hk := hc.kernel_fd (hc.owner hr)
  rcases hr with hi | hi
  · simp [entry, interest, hi] at hch hk
    simp [remove, removeChannel, setChannel, setIndex, update, epollCtl, hi, hn, hch, hk, place,
      entry, interest, ensure, pure, Except.pure, bind, Except.bind]
  · simp [entry, interest, hi] at hch hk
    -- nothing to delete: the interest list has no entry for the fd
    have hkern : Function.update s.kernel (s.channelAt p).fd none = s.kernel := by
      simp [← hk]
    simp [remove, removeChannel, setChannel, setIndex, hi, hn, hch, hkern, place, entry,
      interest, ensure, pure, Except.pure, bind, Except.bind]

/-- The two states differ in events received, or in objects the poller does not hold. -/
structure SameBooks (s t : EPollPoller P) : Prop where
  channels : t.channels = s.channels
  kernel : t.kernel = s.kernel
  sysErrors : t.sysErrors = s.sysErrors
  eventListSize : t.eventListSize = s.eventListSize
  objects : ∀ q, (s.channelAt q).index = .kNew ∧ (t.channelAt q).index = .kNew ∨
    (t.channelAt q).fd = (s.channelAt q).fd ∧ (t.channelAt q).index = (s.channelAt q).index ∧
      (t.channelAt q).channel = (s.channelAt q).channel

omit [DecidableEq P] in
theorem SameBooks.consistent (hb : SameBooks s t) (hc : s.Consistent) : t.Consistent := by
  refine ⟨fun fd q => ?_, fun fd i => ?_, hb.sysErrors.trans hc.sysErrors⟩
  · rw [hb.channels, hc.channels]
    rcases hb.objects q with ⟨hs, ht⟩ | ⟨hfd, hi, -⟩
    · simp [registered_iff, hs, ht]
    · simp [registered_iff, hfd, hi]
  · rw [hb.kernel, hc.kernel]
    refine exists_congr fun q => ?_
    rcases hb.objects q with ⟨hs, ht⟩ | ⟨hfd, hi, hch⟩
    · simp [hs, ht]
    · simp [hfd, hi, hch]

omit [DecidableEq P] in
theorem SameBooks.trans {u : EPollPoller P} (hst : SameBooks s t) (htu : SameBooks t u) :
    SameBooks s u := by
  refine ⟨htu.channels.trans hst.channels, htu.kernel.trans hst.kernel,
    htu.sysErrors.trans hst.sysErrors, htu.eventListSize.trans hst.eventListSize, fun q => ?_⟩
  rcases hst.objects q with ⟨hs, ht⟩ | ⟨hfd, hi, hch⟩ <;>
    rcases htu.objects q with ⟨ht', hu⟩ | ⟨hfd', hi', hch'⟩ <;> simp_all

theorem create_sameBooks {fd : Int} (hi : (s.channelAt p).index = .kNew) :
    SameBooks s (s.setChannel p ⟨fd, .new, 0, .kNew⟩) := by
  refine ⟨rfl, rfl, rfl, rfl, fun q => ?_⟩
  by_cases hq : q = p
  · subst hq
    simp [setChannel, hi]
  · simp [setChannel, hq]

theorem fillActiveChannel_ok {e : BitVec 32 × P} (hc : s.Consistent)
    (hi : (s.channelAt e.2).index = .kAdded) :
    ∃ t, s.fillActiveChannel e = .ok t ∧ SameBooks s t := by
  have hch := (hc.channels _ e.2).mpr ⟨rfl, .inl hi⟩
  refine ⟨s.setChannel e.2 { s.channelAt e.2 with revents := e.1 }, ?_, rfl, rfl, rfl, rfl,
    fun q => ?_⟩
  · simp [fillActiveChannel, hch, pure, Except.pure, bind, Except.bind]
  by_cases hq : q = e.2
  · subst hq
    simp [setChannel]
  · simp [setChannel, hq]

theorem fill_loop_ok {events : List (BitVec 32 × P)} (hc : s.Consistent)
    (hi : ∀ e ∈ events, (s.channelAt e.2).index = .kAdded) :
    ∃ t, events.foldlM fillActiveChannel s = .ok t ∧ SameBooks s t := by
  induction events generalizing s with
  | nil => exact ⟨s, rfl, rfl, rfl, rfl, rfl, fun q => .inr ⟨rfl, rfl, rfl⟩⟩
  | cons e events ih =>
    obtain ⟨u, hu, hsu⟩ := fillActiveChannel_ok hc (hi e (by simp))
    have hiu : ∀ e ∈ events, (u.channelAt e.2).index = .kAdded := by
      intro e' he'
      have hs := hi e' (by simp [he'])
      rcases hsu.objects e'.2 with ⟨hn, -⟩ | ⟨-, h, -⟩
      · simp [hs] at hn
      · exact h.trans hs
    obtain ⟨t, ht, hut⟩ := ih (hsu.consistent hc) hiu
    exact ⟨t, by simp [hu, ht, bind, Except.bind], hsu.trans hut⟩

/-- Every event that epoll can return passes the assertions of `fillActiveChannels`. -/
theorem poll_ok {events : List (BitVec 32 × P)} (hc : s.Consistent) (hr : s.CanReturn events) :
    ∃ t active, s.poll events = .ok (t, active) ∧ t.Consistent := by
  by_cases hne : events = []
  · exact ⟨s, [], by simp [poll, hne, pure, Except.pure], hc⟩
  · have hi : ∀ e ∈ events, (s.channelAt e.2).index = .kAdded := by
      intro e he
      obtain ⟨fd, i, hk, hp, -⟩ := hr.2 e he
      obtain ⟨q, -, hq, rfl⟩ := (hc.kernel fd i).mp hk
      exact hp ▸ hq
    obtain ⟨t, ht, hst⟩ := fill_loop_ok hc hi
    obtain ⟨hch, hk, hs⟩ := hst.consistent hc
    let size := if events.length = t.eventListSize then t.eventListSize * 2 else t.eventListSize
    refine ⟨{ t with eventListSize := size }, events.map Prod.snd, ?_, hch, hk, hs⟩
    simp [poll, hne, fillActiveChannels, hr.1, ht, size, pure, Except.pure, bind, Except.bind]

/-- A request makes the object what `requested` says. -/
theorem request_ok {r : Request} (hc : s.Consistent) (ha : s.Allowed (.request p r)) :
    s.exec (.request p r) = .ok (s.place p (requested (s.channelAt p) r.apply)) ∧
      (s.place p (requested (s.channelAt p) r.apply)).Consistent := by
  have ho : s.Owner p := by
    by_cases hi : (s.channelAt p).index = .kNew
    · exact ha hi
    · exact hc.owner (registered_iff.mpr hi)
  exact ⟨modify_eq hc ho r.apply, hc.place ho rfl⟩

/-- Every operation within the callers' promises goes through and keeps the books. -/
theorem exec_ok {op : Op P} (hc : s.Consistent) (ha : s.Allowed op) :
    ∃ t, s.exec op = .ok t ∧ t.Consistent := by
  cases op with
  | create p fd => exact ⟨_, rfl, (create_sameBooks ha).consistent hc⟩
  | request p r => exact ⟨_, request_ok hc ha⟩
  | remove p =>
    have hr := registered_iff.mpr ha.2
    exact ⟨_, remove_eq hc ha.1 hr, hc.place (hc.owner hr) rfl⟩
  | poll events =>
    obtain ⟨t, active, ht, hct⟩ := poll_ok hc ha
    exact ⟨t, by simp [exec, ht, pure, Except.pure, bind, Except.bind], hct⟩

omit [DecidableEq P] in
theorem Initial.consistent (hi : s.Initial) : s.Consistent := by
  obtain ⟨hindex, hch, hk, -, herr⟩ := hi
  constructor
  · simp [hch, registered_iff, hindex]
  · simp [hk, hindex]
  · exact herr

theorem consistent_exec {h : List (Op P)} (he : (system P).Exec h s) : s.Consistent := by
  induction he with
  | start hi => exact hi.consistent
  | snoc _ hs ih =>
    obtain ⟨ha, ht⟩ := hs
    obtain ⟨t, ht', hct⟩ := exec_ok ih ha
    obtain rfl := Except.ok.inj (ht.symm.trans ht')
    exact hct

/-- After every sequence of operations the books agree with the kernel, and the next operation
meets no failing `epoll_ctl` and no failing assertion. -/
theorem poller_matches_kernel {h : List (Op P)} (he : (system P).Exec h s) :
    s.Consistent ∧ ∀ op, s.Allowed op → ∃ t, s.exec op = .ok t ∧ t.Consistent := by
  have hc := consistent_exec he
  exact ⟨hc, fun op ha => exec_ok hc ha⟩

end

/-- Two channels of one fd, the second registered once the first has been removed. -/
def reuseRun : List (Op Bool) :=
  [.request false .enableReading, .request false .disableAll, .remove false,
   .request true .enableWriting]

def unregistered : EPollPoller Bool :=
  ⟨fun _ => ⟨5, .new, 0, .kNew⟩, fun _ => none, fun _ => none, kInitEventListSize, []⟩

theorem poller_matches_kernel_reuse :
    ∃ s, (system Bool).Exec reuseRun s ∧ s.Consistent ∧
      s.kernel 5 = some ⟨POLLOUT, true⟩ ∧ ∃ t, s.exec (.poll [(POLLHUP, true)]) = .ok t := by
  have h₀ : (system Bool).Exec [] unregistered := by
    refine .start ⟨?_, ?_, ?_, rfl, rfl⟩ <;> intro x <;> rfl
  have hr : ∃ s, (system Bool).Exec reuseRun s ∧ s.kernel 5 = some ⟨POLLOUT, true⟩ ∧
      s.eventListSize = 16 := by
    refine ⟨_, .snoc (.snoc (.snoc (.snoc h₀ ⟨?_, rfl⟩) ⟨?_, rfl⟩) ⟨?_, rfl⟩) ⟨?_, rfl⟩, ?_, rfl⟩
    · intro _ q hq hr
      simp [registered_iff, unregistered] at hr
    · intro hi
      exact absurd hi (by decide)
    · exact ⟨rfl, by decide⟩
    · intro _ q hq hr
      cases q with
      | false => exact absurd (registered_iff.mp hr) (by decide)
      | true => exact absurd rfl hq
    · rfl
  obtain ⟨s, he, hk, hn⟩ := hr
  obtain ⟨hc, hnext⟩ := poller_matches_kernel he
  obtain ⟨t, ht, -⟩ := hnext (.poll [(POLLHUP, true)]) ⟨by simp [hn], by
    intro e he
    obtain rfl : e = (POLLHUP, true) := by simpa using he
    exact ⟨5, _, hk, rfl, by decide⟩⟩
  exact ⟨s, he, hc, hk, t, ht⟩

end EPollPoller

end Lute
