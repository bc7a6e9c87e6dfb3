import Lute.Polaris.SilentChannel

/-! Whether a channel that waits for nothing is out of the interest list. -/
namespace Lute

namespace EPollPoller

open PolledConnection (SameChannel poll_keeps other_keeps unheard_of_index Concerns)

variable {P : Type}

/-- A channel without events is not in the interest list and hears of nothing; a registered one is
added or deleted as it has events or not. -/
structure IdleUnwatched (s : EPollPoller P) (p : P) : Prop where
  unwatched : (s.channelAt p).channel.isNoneEvent = true → ∀ fd i, s.kernel fd = some i → i.ptr ≠ p
  unheard : (s.channelAt p).channel.isNoneEvent = true →
    ∀ events, s.CanReturn events → ∀ e ∈ events, e.2 ≠ p
  added : s.Registered p →
    ((s.channelAt p).index = .kAdded ↔ (s.channelAt p).channel.isNoneEvent = false)
  deleted : s.Registered p →
    ((s.channelAt p).index = .kDeleted ↔ (s.channelAt p).channel.isNoneEvent = true)

/-- A request to a channel that is new or deleted leaves it with some event. -/
def Awakes (s : EPollPoller P) : Op P → Prop
  | .request p r => (s.channelAt p).index = .kAdded ∨
      (r.apply (s.channelAt p).channel).isNoneEvent = false
  | _ => True

/-- What a registered channel's index says of its events. -/
def Indexed (c : PolledChannel) : Prop :=
  c.index ≠ .kNew → (c.index = .kAdded ↔ c.channel.isNoneEvent = false)

variable {s t : EPollPoller P} {p : P}

theorem idleUnwatched_iff (hc : s.Consistent) :
    (∀ p, s.IdleUnwatched p) ↔ ∀ p, Indexed (s.channelAt p) := by
  constructor
  · intro h p hnew
    exact (h p).added (registered_iff.mpr hnew)
  · intro h p
    have hout : (s.channelAt p).channel.isNoneEvent = true →
        (s.channelAt p).index ≠ .kAdded := by
      intro hnone hi
      have hsome := (h p (by simp [hi])).mp hi
      simp [hnone] at hsome
    refine ⟨fun hnone fd i hk => ?_, fun hnone events hr => ?_, fun hr => ?_, fun hr => ?_⟩
    · obtain ⟨q, -, hq, rfl⟩ := (hc.kernel fd i).mp hk
      rintro rfl
      exact hout hnone hq
    · exact unheard_of_index hc (hout hnone) hr
    · exact h p (registered_iff.mp hr)
    · have hadded := h p (registered_iff.mp hr)
      rcases hr with hi | hi
      · simp [hi, hadded.mp hi]
      · have hnone : (s.channelAt p).channel.isNoneEvent = true := by
          cases hn : (s.channelAt p).channel.isNoneEvent with
          | true => rfl
          | false => simp [hi, hn] at hadded
        simp [hi, hnone]

/-- After a request the index fits the events, unless a channel without events was added. -/
theorem indexed_requested (c : PolledChannel) (f : Channel → Channel) :
    Indexed (requested c f) ↔ c.index = .kAdded ∨ (f c.channel).isNoneEvent = false := by
  unfold Indexed requested
  cases hi : c.index <;> cases hn : (f c.channel).isNoneEvent <;> simp

variable [DecidableEq P]

theorem indexed_step {op : Op P} (hc : s.Consistent) (ha : s.Allowed op) (he : s.exec op = .ok t)
    (hs : ∀ p, Indexed (s.channelAt p)) :
    (∀ p, Indexed (t.channelAt p)) ↔ s.Awakes op := by
  have hkeep : ∀ q, SameChannel q s t → Indexed (t.channelAt q) := by
    rintro q ⟨hch, hindex⟩
    unfold Indexed
    rw [hch, hindex]
    exact hs q
  cases op with
  | create p fd =>
    refine iff_of_true (fun q => ?_) trivial
    by_cases hq : q = p
    · obtain rfl := Except.ok.inj he
      subst hq
      simp [Indexed, setChannel]
    · refine hkeep q (other_keeps hc ?_ ha he)
      exact Ne.symm hq
  | remove p =>
    refine iff_of_true (fun q => ?_) trivial
    by_cases hq : q = p
    · obtain rfl := Except.ok.inj (he.symm.trans (remove_eq hc ha.1 (registered_iff.mpr ha.2)))
      subst hq
      simp [Indexed]
    · refine hkeep q (other_keeps hc ?_ ha he)
      exact Ne.symm hq
  | poll events => exact iff_of_true (fun q => hkeep q (poll_keeps he)) trivial
  | request p r =>
    have hp : t.channelAt p = requested (s.channelAt p) r.apply := by
      obtain rfl := Except.ok.inj (he.symm.trans (request_ok hc ha).1)
      simp
    have hiff := indexed_requested (s.channelAt p) r.apply
    constructor
    · intro h
      exact hiff.mp (hp ▸ h p)
    · intro haw q
      by_cases hq : q = p
      · subst hq
        rw [hp]
        exact hiff.mpr haw
      · refine hkeep q (other_keeps hc ?_ ha he)
        exact Ne.symm hq

theorem indexed_exec {h : List (Op P)} (he : ((system P).restrict Awakes).Exec h s) :
    ∀ p, Indexed (s.channelAt p) := by
  induction he with
  | start hi =>
    intro p hnew
    exact absurd (hi.index p) hnew
  | snoc he hs ih =>
    obtain ⟨haw, ha, hx⟩ := hs
    exact (indexed_step (consistent_exec he.of_restrict) ha hx ih).mpr haw

/-- As long as no request leaves a new or deleted channel without events, idle channels are not
watched; and the first such request puts one into the interest list. -/
theorem idle_unwatched_iff {h : List (Op P)} (he : ((system P).restrict Awakes).Exec h s) :
    (∀ p, s.IdleUnwatched p) ∧
      ∀ op t, (system P).step s op t → ((∀ p, t.IdleUnwatched p) ↔ s.Awakes op) := by
  have hc := consistent_exec he.of_restrict
  have hi := indexed_exec he
  refine ⟨(idleUnwatched_iff hc).mpr hi, fun op t hs => ?_⟩
  obtain ⟨ha, hx⟩ := hs
  have hct := consistent_exec (he.of_restrict.snoc ⟨ha, hx⟩)
  rw [idleUnwatched_iff hct]
  exact indexed_step hc ha hx hi

/-- Reading is turned on and off again, then writing is turned on. -/
theorem idle_unwatched_toggled :
    ∃ s : EPollPoller Unit, ((system Unit).restrict Awakes).Exec
        [.request () .enableReading, .request () .disableReading, .request () .enableWriting] s ∧
      (s.channelAt ()).index = .kAdded ∧ ∀ p, s.IdleUnwatched p := by
  have e₀ : ((system Unit).restrict Awakes).Exec [] PolledConnection.accepted.poller :=
    .start ⟨fun _ => rfl, fun _ => rfl, fun _ => rfl, rfl, rfl⟩
  have e₁ := e₀.restrict_snoc (a := Op.request () .enableReading)
    ⟨PolledConnection.allowed_alone _ _, rfl⟩ (Or.inr (by decide))
  have e₂ := e₁.restrict_snoc (a := Op.request () .disableReading)
    ⟨PolledConnection.allowed_alone _ _, rfl⟩ (Or.inl rfl)
  have e₃ := e₂.restrict_snoc (a := Op.request () .enableWriting)
    ⟨PolledConnection.allowed_alone _ _, rfl⟩ (Or.inr (by decide))
  exact ⟨_, e₃, rfl, (idle_unwatched_iff e₃).1⟩

/-- A new channel on which reading is turned off. -/
theorem disable_adds_new_channel :
    ∃ s : EPollPoller Unit, (system Unit).Exec [.request () .disableReading] s ∧
      (s.channelAt ()).channel.isNoneEvent = true ∧ (s.channelAt ()).index = .kAdded ∧
      s.kernel 5 = some ⟨0, ()⟩ ∧ s.CanReturn [(POLLHUP, ())] ∧ ¬ s.IdleUnwatched () := by
  have e₀ : (system Unit).Exec [] PolledConnection.accepted.poller :=
    .start ⟨fun _ => rfl, fun _ => rfl, fun _ => rfl, rfl, rfl⟩
  have e₁ := e₀.snoc (a := Op.request () .disableReading)
    ⟨PolledConnection.allowed_alone _ _, rfl⟩
  refine ⟨_, e₁, rfl, rfl, rfl, ⟨by decide, fun e he => ?_⟩, fun h => ?_⟩
  · obtain rfl := List.mem_singleton.mp he
    exact ⟨5, ⟨0, ()⟩, rfl, rfl, by decide⟩
  · exact h.unwatched rfl 5 ⟨0, ()⟩ rfl rfl

end EPollPoller

end Lute
