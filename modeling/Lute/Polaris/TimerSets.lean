import Lute.Polaris.TimerCancel

/-! The two sets of a timer queue agree in every state the loop thread can reach, and no assertion
about them fails. -/
namespace Lute

variable {I : Type} {build : Build} {V : Intervals I}

namespace TimerQueue

variable {q q' : TimerQueue I} {B E : List Entry} {P : Finset Nat} {a : Nat} {now clock : Int}

/-- Both sets have `n` elements. -/
def HasSize (q : TimerQueue I) (n : Nat) : Prop := q.timers.card = n ∧ q.activeTimers.card = n

theorem hasSize_of_active {n : Nat} (h : Tidy q B P) (hn : q.activeTimers.card = n) :
    q.HasSize n :=
  ⟨h.card_eq.trans hn, hn⟩

/-- What is in `timers_` is given by the heap and the other set. -/
theorem mem_timers_iff {when : Int} (h : Tidy q B P) : Entry.mk when a ∈ q.timers ↔
    ∃ t, q.heap a = some t ∧ (a, t.sequence) ∈ q.activeTimers ∧ when = t.expiration := by
  constructor
  · intro he
    obtain ⟨t, ht, hw, hm⟩ := h.entries _ he
    exact ⟨t, ht, hm, hw.symm⟩
  · rintro ⟨t, ht, hm, rfl⟩
    obtain ⟨t', ht', -, he⟩ := h.actives _ hm
    obtain rfl : t' = t := by simpa [ht] using ht'.symm
    exact he

theorem insert_grows (build : Build) (h : Tidy q B P) (ha : a ∈ P) :
    ∃ q' b, q.insert build a = .ok (q', b) ∧ Tidy q' B (P.erase a) ∧
      q'.HasSize (q.timers.card + 1) := by
  obtain ⟨hB, t, ht, hn⟩ := h.fresh a ha
  have htidy := h.insert ht hB
  refine ⟨_, _, insert_spec build h ht hn hB, htidy, hasSize_of_active htidy ?_⟩
  rw [h.card_eq]
  exact Finset.card_insert_of_notMem hn

theorem addTimerInLoop_grows (h : Tidy q B P) (ha : a ∈ P) :
    ∃ q', q.addTimerInLoop build now a = .ok q' ∧ q'.HasSize (q.timers.card + 1) := by
  obtain ⟨hB, t, ht, hn⟩ := h.fresh a ha
  have hsize : (q.entered a t).HasSize (q.timers.card + 1) := by
    refine hasSize_of_active (h.insert ht hB) ?_
    rw [h.card_eq]
    exact Finset.card_insert_of_notMem hn
  obtain ⟨q', hq', ⟨-, rfl⟩ | ⟨-, rfl⟩⟩ := addTimerInLoop_spec build now h ht hn hB
  · exact ⟨_, hq', hsize⟩
  · exact ⟨_, hq', hsize⟩

/-- An id that is active takes one element with it from each set, any other none. -/
theorem cancelInLoop_shrinks (h : Tidy q B P) (id : Nat × Nat) :
    ∃ q', q.cancelInLoop build id = .ok q' ∧
      (id ∈ q.activeTimers → ∃ n, q.timers.card = n + 1 ∧ q'.HasSize n) ∧
      (id ∉ q.activeTimers → q'.timers = q.timers ∧ q'.activeTimers = q.activeTimers) := by
  obtain ⟨q', hq', htidy, hsub, -⟩ := cancelInLoop_spec build h id
  refine ⟨q', hq', fun hm => ?_, fun hm => ?_⟩
  · obtain ⟨-, ⟨-, -, hactive, -⟩ | ⟨hn, -⟩ | ⟨hn, -⟩⟩ := cancelInLoop_ok hq'
    · refine ⟨q'.activeTimers.card, ?_, hasSize_of_active htidy rfl⟩
      rw [hactive, h.card_eq, Finset.card_erase_add_one hm]
    · exact absurd hm hn
    · exact absurd hm hn
  · obtain ⟨-, ⟨hn, -⟩ | ⟨-, -, -, hactive, -⟩ | ⟨-, -, rfl⟩⟩ := cancelInLoop_ok hq'
    · exact absurd hn hm
    · refine ⟨Finset.eq_of_subset_of_card_le hsub ?_, hactive⟩
      rw [h.card_eq, htidy.card_eq, hactive]
    · exact ⟨rfl, rfl⟩

/-- A read takes the expired timers, one by one, from both sets. -/
theorem beginRead_shrinks (h : Tidy q [] P) :
    ∃ q' E, q.beginRead build now = .ok (q', E) ∧
      ∃ n, q.timers.card = n + E.length ∧ q'.HasSize n := by
  obtain ⟨q', E, hq', htidy, hrest, hE, -⟩ := beginRead_spec build h now
  refine ⟨q', E, hq', q'.timers.card, ?_, rfl, htidy.card_eq.symm⟩
  have hlate : q.timers.filter (now < Entry.when ·) = q'.timers := by
    ext e
    rw [Finset.mem_filter, hrest]
  have hdue : (q.timers.filter (¬ now < Entry.when ·)).card = E.length := by
    rw [← List.toFinset_card_of_nodup htidy.nodup.of_map]
    congr 1
    ext e
    rw [Finset.mem_filter, List.mem_toFinset, hE, not_lt]
  rw [← hlate, ← hdue, Finset.card_filter_add_card_filter_not]

theorem endRead_returns (h : Tidy q E P) : ∃ q', q.endRead build V E now clock = .ok q' := by
  have h₀ : Tidy { q with callingExpiredTimers := false } E P := h.congr rfl rfl rfl
  obtain ⟨q₁, hq₁, htidy, -⟩ := resetTimers_tidy build V now E h₀
  unfold endRead reset
  rw [hq₁, ok_bind]
  cases hf : first q₁.timers with
  | none => exact ⟨q₁, by simp [valid]⟩
  | some e =>
    obtain ⟨t, ht, -⟩ := htidy.entries e (first_mem hf).1
    by_cases hv : valid t.expiration = true
    · exact ⟨_, by simp [deref_of_heap ht, Except.map, hv]; rfl⟩
    · exact ⟨_, by simp [deref_of_heap ht, Except.map, hv]; rfl⟩

end TimerQueue

namespace TimerSystem

variable {s t : TimerSystem I}

inductive LoopLabel (I : Type)
  | step (a : Label I)
  | insert (timer : Nat)

/-- The steps of the loop thread; `insert` may be called by itself, too. -/
inductive LoopStep (build : Build) (V : Intervals I) :
    TimerSystem I → LoopLabel I → TimerSystem I → Prop
  | step {s t : TimerSystem I} {a : Label I} (hs : Step build V s a t) :
      LoopStep build V s (.step a) t
  | insert {s : TimerSystem I} {timer : Nat} {q : TimerQueue I} {earliestChanged : Bool}
      (hp : timer ∈ s.pending) (hq : s.queue.insert build timer = .ok (q, earliestChanged)) :
      LoopStep build V s (.insert timer)
        { s with queue := q, pending := s.pending.erase timer }

def loopSystem (build : Build) (V : Intervals I) : Trace.LTS (TimerSystem I) (LoopLabel I) where
  init s := ∃ clock, s = start I clock
  step := LoopStep build V

/-- What holds of the two sets, and what every operation that may come next does in a build with
assertions. -/
structure SetsAgree (V : Intervals I) (s : TimerSystem I) : Prop where
  entries : ∀ when timer, Entry.mk when timer ∈ s.queue.timers ↔
    ∃ t, s.queue.heap timer = some t ∧ (timer, t.sequence) ∈ s.queue.activeTimers ∧
      when = t.expiration
  actives : ∀ p ∈ s.queue.activeTimers, ∃ t, s.queue.heap p.1 = some t ∧ t.sequence = p.2
  size : s.queue.timers.card = s.queue.activeTimers.card
  insert : ∀ timer ∈ s.pending, ∃ q b, s.queue.insert .debug timer = .ok (q, b) ∧
    q.HasSize (s.queue.timers.card + 1)
  addTimerInLoop : ∀ now, ∀ timer ∈ s.pending, ∃ q,
    s.queue.addTimerInLoop .debug now timer = .ok q ∧ q.HasSize (s.queue.timers.card + 1)
  cancelInLoop : ∀ timerId, ∃ q, s.queue.cancelInLoop .debug timerId = .ok q ∧
    (timerId ∈ s.queue.activeTimers → ∃ n, s.queue.timers.card = n + 1 ∧ q.HasSize n) ∧
    (timerId ∉ s.queue.activeTimers →
      q.timers = s.queue.timers ∧ q.activeTimers = s.queue.activeTimers)
  beginRead : s.batch = none → ∀ now, ∃ q E, s.queue.beginRead .debug now = .ok (q, E) ∧
    ∃ n, s.queue.timers.card = n + E.length ∧ q.HasSize n
  endRead : ∀ b, s.batch = some b → ∀ clock, ∃ q,
    s.queue.endRead .debug V b.expired b.now clock = .ok q

theorem tidy_loopStep {a : LoopLabel I} (hs : LoopStep build V s a t)
    (h : Tidy s.queue s.inBatch s.pending) : Tidy t.queue t.inBatch t.pending := by
  cases hs with
  | step hs => exact tidy_step hs h
  | @insert timer q b hp hq =>
    obtain ⟨q', b', hq', htidy, -⟩ := TimerQueue.insert_grows build h hp
    obtain ⟨rfl, -⟩ : q' = q ∧ b' = b := by simpa [hq'] using hq
    exact htidy

theorem tidy_exec {h : List (LoopLabel I)} (he : (loopSystem build V).Exec h s) :
    Tidy s.queue s.inBatch s.pending := by
  induction he with
  | start hi =>
    obtain ⟨clock, rfl⟩ := hi
    exact tidy_start clock
  | snoc _ hs ih => exact tidy_loopStep hs ih

theorem setsAgree_of_tidy (h : Tidy s.queue s.inBatch s.pending) : SetsAgree V s where
  entries when timer := TimerQueue.mem_timers_iff h
  actives p hp := by
    obtain ⟨t, ht, hs, -⟩ := h.actives p hp
    exact ⟨t, ht, hs⟩
  size := h.card_eq
  insert timer hp := by
    obtain ⟨q, b, hq, -, hsize⟩ := TimerQueue.insert_grows .debug h hp
    exact ⟨q, b, hq, hsize⟩
  addTimerInLoop now timer hp := TimerQueue.addTimerInLoop_grows h hp
  cancelInLoop timerId := TimerQueue.cancelInLoop_shrinks h timerId
  beginRead hb now := by
    rw [inBatch, hb] at h
    exact TimerQueue.beginRead_shrinks h
  endRead b hb clock := by
    rw [inBatch, hb] at h
    exact TimerQueue.endRead_returns h

theorem timer_sets_agree {h : List (LoopLabel I)} (he : (loopSystem build V).Exec h s) :
    SetsAgree V s :=
  setsAgree_of_tidy (tidy_exec he)

/-- A timer is added and read, and a second one is added during its callback. -/
theorem timer_sets_agree_reentrant : ∃ h s, (loopSystem .debug microseconds).Exec h s ∧
    s.batch ≠ none ∧ s.queue.timers.Nonempty ∧ SetsAgree microseconds s := by
  have e₀ : (loopSystem .debug microseconds).Exec [] (start Int 1000) := .start ⟨1000, rfl⟩
  have e₁ := e₀.snoc (.step (@Step.new Int .debug microseconds _ 16 500 0 rfl (by decide)))
  obtain ⟨q₂, hq₂, -⟩ := (timer_sets_agree e₁).addTimerInLoop 1000 16 (by decide)
  have e₂ := e₁.snoc (.step (.addTimerInLoop (by decide) hq₂))
  obtain ⟨q₃, E, hq₃, -⟩ := (timer_sets_agree e₂).beginRead rfl 1000
  have e₃ := e₂.snoc (.step (.beginRead rfl hq₃))
  have hfree : q₃.heap 32 = none := by
    obtain ⟨hheap₃, -⟩ := TimerQueue.beginRead_ok hq₃
    obtain ⟨-, -, hheap₂, -⟩ := TimerQueue.addTimerInLoop_ok hq₂
    rw [hheap₃, hheap₂]
    rfl
  have e₄ := e₃.snoc (.step (@Step.new Int .debug microseconds _ 32 2000 0 hfree (by decide)))
  obtain ⟨q₅, hq₅, hsize₅⟩ := (timer_sets_agree e₄).addTimerInLoop 1000 32 (by simp)
  have e₅ := e₄.snoc (.step (.addTimerInLoop (by simp) hq₅))
  refine ⟨_, _, e₅, by simp, Finset.card_pos.mp ?_, timer_sets_agree e₅⟩
  exact hsize₅.1 ▸ Nat.succ_pos _

end TimerSystem

end Lute
