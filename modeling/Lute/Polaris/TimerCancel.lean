import Lute.Polaris.EventLoop
import Lute.Polaris.TimerWakeup

/-! What becomes of a timer once `cancelInLoop` has run for it. -/
namespace Lute

variable {I : Type} {build : Build} {V : Intervals I}

namespace TimerQueue

variable {q q' : TimerQueue I} {a : Nat} {id : Nat × Nat} {now clock : Int} {E : List Entry}

theorem addTimerInLoop_ok (hq : q.addTimerInLoop build now a = .ok q') :
    ∃ t, q.heap a = some t ∧ q'.heap = q.heap ∧
      q'.activeTimers = Insert.insert (a, t.sequence) q.activeTimers ∧
      q'.cancelingTimers = q.cancelingTimers ∧
      q'.callingExpiredTimers = q.callingExpiredTimers := by
  unfold addTimerInLoop at hq
  obtain ⟨⟨q₁, earliest⟩, hi, hq⟩ := bind_ok hq
  obtain ⟨t, ht, rfl⟩ := insert_ok build hi
  cases earliest with
  | false =>
    obtain rfl := Except.ok.inj hq
    exact ⟨t, ht, rfl, rfl, rfl, rfl⟩
  | true =>
    obtain ⟨t', -, hq⟩ := bind_ok hq
    obtain rfl := Except.ok.inj hq
    exact ⟨t, ht, rfl, rfl, rfl, rfl⟩

/-- The three branches of `cancelInLoop`. -/
theorem cancelInLoop_ok (hq : q.cancelInLoop build id = .ok q') :
    q'.callingExpiredTimers = q.callingExpiredTimers ∧
      ((id ∈ q.activeTimers ∧ q'.heap = Function.update q.heap id.1 none ∧
          q'.activeTimers = q.activeTimers.erase id ∧ q'.cancelingTimers = q.cancelingTimers) ∨
        (id ∉ q.activeTimers ∧ q.callingExpiredTimers = true ∧ q'.heap = q.heap ∧
          q'.activeTimers = q.activeTimers ∧
          q'.cancelingTimers = Insert.insert id q.cancelingTimers) ∨
        (id ∉ q.activeTimers ∧ q.callingExpiredTimers = false ∧ q' = q)) := by
  unfold cancelInLoop at hq
  obtain ⟨q₁, hc, hq⟩ := bind_ok (Build.assert_bind_ok hq)
  replace hq := Build.assert_bind_ok hq
  obtain rfl := Except.ok.inj hq
  unfold cancelTimer at hc
  split_ifs at hc with hm hcall
  · obtain ⟨t, -, hc⟩ := bind_ok hc
    replace hc := Build.assert_bind_ok hc
    obtain rfl := Except.ok.inj hc
    exact ⟨rfl, .inl ⟨hm, rfl, rfl, rfl⟩⟩
  · obtain rfl := Except.ok.inj hc
    exact ⟨rfl, .inr (.inl ⟨hm, hcall, rfl, rfl, rfl⟩)⟩
  · obtain rfl := Except.ok.inj hc
    exact ⟨rfl, .inr (.inr ⟨hm, by simpa using hcall, rfl⟩)⟩

theorem eraseActive_ok (hq : q.eraseActive build E = .ok q') :
    q'.heap = q.heap ∧ ∀ x ∈ q.activeTimers, x ∈ q'.activeTimers ∨ x.1 ∈ E.map Entry.timer := by
  induction E generalizing q with
  | nil =>
    obtain rfl := Except.ok.inj hq
    exact ⟨rfl, fun x hx => .inl hx⟩
  | cons e E ih =>
    obtain ⟨t, -, hq⟩ := bind_ok hq
    obtain ⟨hheap, hactive⟩ := ih (Build.assert_bind_ok hq)
    refine ⟨hheap, fun x hx => ?_⟩
    by_cases hxe : x = (e.timer, t.sequence)
    · exact .inr (by simp [hxe])
    · exact (hactive x (Finset.mem_erase.mpr ⟨hxe, hx⟩)).imp_right (List.mem_cons_of_mem _)

/-- The active timers that a read takes out are those of its batch. -/
theorem beginRead_ok (hq : q.beginRead build now = .ok (q', E)) :
    q'.heap = q.heap ∧ q'.callingExpiredTimers = true ∧
      ∀ x ∈ q.activeTimers, x ∈ q'.activeTimers ∨ x.1 ∈ E.map Entry.timer := by
  unfold beginRead getExpired at hq
  replace hq := bind_ok hq
  obtain ⟨⟨q₁, E₁⟩, hg, hq⟩ := hq
  obtain ⟨rfl, rfl⟩ := Prod.mk.inj (Except.ok.inj hq)
  obtain ⟨q₂, he, hg⟩ := bind_ok (Build.assert_bind_ok (Build.assert_bind_ok hg))
  replace hg := Build.assert_bind_ok hg
  obtain ⟨rfl, rfl⟩ := Prod.mk.inj (Except.ok.inj hg)
  obtain ⟨hheap, hactive⟩ := eraseActive_ok he
  exact ⟨hheap, rfl, hactive⟩

/-- A timer that is live after the loop of `reset` was so before; one of the batch was not
cancelled and is active again. -/
theorem resetTimers_ok (hq : q.resetTimers build V now E = .ok q') :
    q'.callingExpiredTimers = q.callingExpiredTimers ∧
    (∀ b t', q'.heap b = some t' → ∃ t, q.heap b = some t ∧ t.sequence = t'.sequence) ∧
    q.activeTimers ⊆ q'.activeTimers ∧
    ∀ b ∈ E.map Entry.timer, ∀ t', q'.heap b = some t' →
      (b, t'.sequence) ∉ q.cancelingTimers ∧ (b, t'.sequence) ∈ q'.activeTimers := by
  induction E generalizing q with
  | nil =>
    obtain rfl := Except.ok.inj hq
    exact ⟨rfl, fun b t' h => ⟨t', h, rfl⟩, Finset.Subset.refl _, by simp⟩
  | cons e E ih =>
    obtain ⟨t, ht, ⟨-, hcancel, hq⟩ | ⟨-, hq⟩⟩ := resetTimers_cons build hq
    · obtain ⟨hcall, hlive, hsub, hbatch⟩ := ih hq
      have hback : ∀ b t', q'.heap b = some t' → ∃ t, q.heap b = some t ∧
          t.sequence = t'.sequence := by
        intro b t' hb
        obtain ⟨t₁, ht₁, hs⟩ := hlive b t' hb
        by_cases hbe : b = e.timer
        · subst hbe
          obtain rfl : t.restart V now = t₁ := by simpa [entered] using ht₁
          exact ⟨t, ht, hs⟩
        · exact ⟨t₁, by simpa [entered, hbe] using ht₁, hs⟩
      refine ⟨hcall, hback, (Finset.subset_insert _ _).trans hsub, fun b hb t' hb' => ?_⟩
      by_cases hbe : b = e.timer
      · subst hbe
        obtain ⟨t₁, ht₁, hs⟩ := hback _ t' hb'
        obtain rfl : t = t₁ := by simpa [ht] using ht₁
        rw [← hs]
        exact ⟨hcancel, hsub (Finset.mem_insert_self _ _)⟩
      · exact hbatch b ((List.mem_cons.mp hb).resolve_left hbe) t' hb'
    · obtain ⟨hcall, hlive, hsub, hbatch⟩ := ih hq
      have hne : ∀ b t', q'.heap b = some t' → b ≠ e.timer := by
        rintro b t' hb rfl
        obtain ⟨t₁, ht₁, -⟩ := hlive _ t' hb
        simp at ht₁
      refine ⟨hcall, fun b t' hb => ?_, hsub, fun b hb t' hb' => ?_⟩
      · obtain ⟨t₁, ht₁, hs⟩ := hlive b t' hb
        exact ⟨t₁, by simpa [hne b t' hb] using ht₁, hs⟩
      · exact hbatch b ((List.mem_cons.mp hb).resolve_left (hne b t' hb')) t' hb'

theorem endRead_ok (hq : q.endRead build V E now clock = .ok q') :
    q'.callingExpiredTimers = false ∧
    (∀ b t', q'.heap b = some t' → ∃ t, q.heap b = some t ∧ t.sequence = t'.sequence) ∧
    q.activeTimers ⊆ q'.activeTimers ∧
    ∀ b ∈ E.map Entry.timer, ∀ t', q'.heap b = some t' →
      (b, t'.sequence) ∉ q.cancelingTimers ∧ (b, t'.sequence) ∈ q'.activeTimers := by
  obtain ⟨q₁, hr, rfl | ⟨w, rfl⟩⟩ := reset_ok build hq
  · exact resetTimers_ok hr
  · exact resetTimers_ok hr

end TimerQueue

namespace TimerSystem

variable {s t : TimerSystem I} {a : Label I} {id : Nat × Nat}

/-- The timer that `id` was issued for is still allocated. -/
def Live (s : TimerSystem I) (id : Nat × Nat) : Prop :=
  ∃ t, s.queue.heap id.1 = some t ∧ t.sequence = id.2

/-- The timers whose callbacks the batch has still to call. -/
def toRun (s : TimerSystem I) : List Nat :=
  (s.batch.map fun b => b.rest.map Entry.timer).getD []

/-- Every live timer is active, in the batch or about to be added. -/
structure Placed (s : TimerSystem I) : Prop where
  tidy : Tidy s.queue s.inBatch s.pending
  placed : ∀ id, s.Live id → id ∈ s.queue.activeTimers ∨ id.1 ∈ s.inBatch.map Entry.timer ∨
    id.1 ∈ s.pending
  calling : s.queue.callingExpiredTimers = s.batch.isSome
  rest : ∀ a ∈ s.toRun, a ∈ s.inBatch.map Entry.timer
  numbered : ∀ id, s.Live id → id.2 ≤ s.created

/-- A read is under way while there is a batch. -/
theorem Placed.calling_of_mem (h : s.Placed) {e : Entry} (he : e ∈ s.inBatch) :
    s.queue.callingExpiredTimers = true := by
  rw [h.calling]
  cases hb : s.batch with
  | none => simp [inBatch, hb] at he
  | some b => rfl

theorem created_step (hs : Step build V s a t) : s.created ≤ t.created := by
  cases hs with
  | new => exact Nat.le_succ _
  | _ => exact le_rfl

/-- No step but `new` brings a timer into being, and that one is numbered next. -/
theorem live_cases (hs : Step build V s a t) (hl : t.Live id) :
    s.Live id ∨ id.2 = s.created + 1 ∧ t.created = s.created + 1 := by
  obtain ⟨t', ht', hseq⟩ := hl
  cases hs with
  | tick => exact .inl ⟨t', ht', hseq⟩
  | fire => exact .inl ⟨t', ht', hseq⟩
  | @new timer when interval hfree hlt =>
    by_cases hne : id.1 = timer
    · obtain rfl : Timer.new V when interval (s.created + 1) = t' := by simpa [hne] using ht'
      exact .inr ⟨hseq.symm, rfl⟩
    · exact .inl ⟨t', by simpa [hne] using ht', hseq⟩
  | addTimerInLoop hp hq =>
    obtain ⟨-, -, hheap, -⟩ := TimerQueue.addTimerInLoop_ok hq
    exact .inl ⟨t', hheap ▸ ht', hseq⟩
  | @cancelInLoop timerId q hq =>
    obtain ⟨-, ⟨-, hheap, -⟩ | ⟨-, -, hheap, -⟩ | ⟨-, -, rfl⟩⟩ := TimerQueue.cancelInLoop_ok hq
    · by_cases hne : id.1 = timerId.1
      · simp [hheap, hne] at ht'
      · exact .inl ⟨t', by simpa [hheap, hne] using ht', hseq⟩
    · exact .inl ⟨t', hheap ▸ ht', hseq⟩
    · exact .inl ⟨t', ht', hseq⟩
  | beginRead hb hq =>
    obtain ⟨hheap, -⟩ := TimerQueue.beginRead_ok hq
    exact .inl ⟨t', hheap ▸ ht', hseq⟩
  | run => exact .inl ⟨t', ht', hseq⟩
  | endRead hb hq =>
    obtain ⟨-, hback, -⟩ := TimerQueue.endRead_ok hq
    obtain ⟨t₀, ht₀, hs₀⟩ := hback _ _ ht'
    exact .inl ⟨t₀, ht₀, hs₀.trans hseq⟩

theorem live_of_step (hs : Step build V s a t) (hid : id.2 ≤ s.created) (hl : t.Live id) :
    s.Live id := by
  rcases live_cases hs hl with hl | ⟨hnew, -⟩
  · exact hl
  · omega

theorem pending_of_step (hs : Step build V s a t) (hid : id.2 ≤ s.created) (hl : t.Live id)
    (hp : id.1 ∈ t.pending) : id.1 ∈ s.pending := by
  cases hs with
  | @new timer when interval hfree hlt =>
    obtain ⟨t', ht', hseq⟩ := hl
    rcases Finset.mem_insert.mp hp with hne | hp
    · obtain rfl : Timer.new V when interval (s.created + 1) = t' := by simpa [hne] using ht'
      have : s.created + 1 = id.2 := hseq
      omega
    · exact hp
  | addTimerInLoop => exact Finset.mem_of_mem_erase hp
  | _ => exact hp

/-- A live timer is kept in its place, or moved to another one. -/
theorem placed_live (hs : Step build V s a t) (h : s.Placed) (hlive : t.Live id) :
    id ∈ t.queue.activeTimers ∨ id.1 ∈ t.inBatch.map Entry.timer ∨ id.1 ∈ t.pending := by
  obtain ⟨t', ht', hseq⟩ := hlive
  cases hs with
  | tick => exact h.placed id ⟨t', ht', hseq⟩
  | fire => exact h.placed id ⟨t', ht', hseq⟩
  | @new timer when interval hfree hlt =>
    by_cases hne : id.1 = timer
    · exact .inr (.inr (Finset.mem_insert.mpr (.inl hne)))
    · have hl : s.Live id := ⟨t', by simpa [hne] using ht', hseq⟩
      exact (h.placed id hl).imp_right (Or.imp_right Finset.mem_insert_of_mem)
  | @addTimerInLoop timer q hp hq =>
    obtain ⟨t₀, ht₀, hheap, hactive, -⟩ := TimerQueue.addTimerInLoop_ok hq
    rw [hheap] at ht'
    change id ∈ q.activeTimers ∨ _
    rw [hactive]
    by_cases hne : id.1 = timer
    · obtain rfl : t' = t₀ := by simpa [hne, ht₀] using ht'.symm
      exact .inl (Finset.mem_insert.mpr (.inl (Prod.ext hne hseq.symm)))
    · rcases h.placed id ⟨t', ht', hseq⟩ with hm | hm | hm
      · exact .inl (Finset.mem_insert_of_mem hm)
      · exact .inr (.inl hm)
      · exact .inr (.inr (Finset.mem_erase.mpr ⟨hne, hm⟩))
  | @cancelInLoop timerId q hq =>
    obtain ⟨-, ⟨-, hheap, hactive, -⟩ | ⟨-, -, hheap, hactive, -⟩ | ⟨-, -, rfl⟩⟩ :=
      TimerQueue.cancelInLoop_ok hq
    · have hne : id.1 ≠ timerId.1 := by
        intro hne
        simp [hheap, hne] at ht'
      have hl : s.Live id := ⟨t', by simpa [hheap, hne] using ht', hseq⟩
      refine (h.placed id hl).imp_left fun hm => ?_
      change id ∈ q.activeTimers
      rw [hactive]
      exact Finset.mem_erase.mpr ⟨fun heq => hne (heq ▸ rfl), hm⟩
    · have hl : s.Live id := ⟨t', hheap ▸ ht', hseq⟩
      exact (h.placed id hl).imp_left fun hm => hactive ▸ hm
    · exact h.placed id ⟨t', ht', hseq⟩
  | beginRead hb hq =>
    obtain ⟨hheap, -, hactive⟩ := TimerQueue.beginRead_ok hq
    rcases h.placed id ⟨t', hheap ▸ ht', hseq⟩ with hm | hm | hm
    · exact (hactive id hm).imp_right .inl
    · simp [inBatch, hb] at hm
    · exact .inr (.inr hm)
  | run hb =>
    have hm := h.placed id ⟨t', ht', hseq⟩
    rwa [inBatch, hb] at hm
  | endRead hb hq =>
    obtain ⟨-, hback, hsub, hbatch⟩ := TimerQueue.endRead_ok hq
    obtain ⟨t₀, ht₀, hs₀⟩ := hback _ _ ht'
    rcases h.placed id ⟨t₀, ht₀, hs₀.trans hseq⟩ with hm | hm | hm
    · exact .inl (hsub hm)
    · rw [inBatch, hb] at hm
      have hm' := (hbatch id.1 hm t' ht').2
      rw [hseq] at hm'
      exact .inl hm'
    · exact .inr (.inr hm)

theorem calling_step (hs : Step build V s a t) (h : s.Placed) :
    t.queue.callingExpiredTimers = t.batch.isSome := by
  cases hs with
  | tick => exact h.calling
  | fire => exact h.calling
  | new => exact h.calling
  | addTimerInLoop hp hq =>
    obtain ⟨-, -, -, -, -, hcall⟩ := TimerQueue.addTimerInLoop_ok hq
    exact hcall.trans h.calling
  | cancelInLoop hq => exact (TimerQueue.cancelInLoop_ok hq).1.trans h.calling
  | beginRead hb hq => exact (TimerQueue.beginRead_ok hq).2.1
  | run hb => exact h.calling.trans (by simp [hb])
  | endRead hb hq => exact (TimerQueue.endRead_ok hq).1

/-- The callbacks still to be called are those of the batch. -/
theorem rest_step (hs : Step build V s a t) (h : s.Placed) :
    ∀ a ∈ t.toRun, a ∈ t.inBatch.map Entry.timer := by
  cases hs with
  | beginRead => exact fun a ha => ha
  | run hb =>
    intro a ha
    have hm := h.rest a
    rw [inBatch, toRun, hb] at hm
    exact hm (List.mem_cons_of_mem _ ha)
  | endRead => simp [toRun]
  | _ => exact h.rest

theorem placed_step (hs : Step build V s a t) (h : s.Placed) : t.Placed where
  tidy := tidy_step hs h.tidy
  placed _ hl := placed_live hs h hl
  calling := calling_step hs h
  rest := rest_step hs h
  numbered id hl := by
    rcases live_cases hs hl with hl | ⟨hnew, hc⟩
    · exact (h.numbered id hl).trans (created_step hs)
    · omega

/-- What a cancelled timer comes to: it is deleted, or it will be at the end of the read that has
called it for the last time. -/
def Gone (s : TimerSystem I) (id : Nat × Nat) : Prop :=
  id.2 ≤ s.created ∧ (s.Live id → id ∈ s.queue.cancelingTimers ∧
    id.1 ∈ s.inBatch.map Entry.timer ∧ id.1 ∉ s.toRun)

/-- Cancelling a timer that is neither about to be added nor about to be called. -/
theorem gone_cancel (h : s.Placed) (hid : id.2 ≤ s.created)
    (hl : s.Live id → id.1 ∉ s.pending ∧ id.1 ∉ s.toRun)
    (hs : Step build V s (.cancelInLoop id) t) : t.Gone id := by
  refine ⟨hid.trans (created_step hs), fun hlt => ?_⟩
  have hls := live_of_step hs hid hlt
  obtain ⟨hp, hrun⟩ := hl hls
  cases hs with
  | @cancelInLoop _ q hq =>
    have hplaced := h.placed id hls
    obtain ⟨-, ⟨-, hheap, -⟩ | ⟨hn, -, -, -, hcancel⟩ | ⟨hn, hcall, rfl⟩⟩ :=
      TimerQueue.cancelInLoop_ok hq
    · obtain ⟨t', ht', -⟩ := hlt
      simp [hheap] at ht'
    · have hb := (hplaced.resolve_left hn).resolve_right hp
      exact ⟨hcancel ▸ Finset.mem_insert_self _ _, hb, hrun⟩
    · -- no read is under way, so that there is no place left for a live timer
      have hb : s.batch = none := by simpa [h.calling] using hcall
      have hm := (hplaced.resolve_left hn).resolve_right hp
      simp [inBatch, hb] at hm

theorem gone_step (hs : Step build V s a t) (hg : s.Gone id) : t.Gone id := by
  refine ⟨hg.1.trans (created_step hs), fun hlt => ?_⟩
  obtain ⟨hcancel, hb, hrun⟩ := hg.2 (live_of_step hs hg.1 hlt)
  cases hs with
  | tick => exact ⟨hcancel, hb, hrun⟩
  | fire => exact ⟨hcancel, hb, hrun⟩
  | new => exact ⟨hcancel, hb, hrun⟩
  | addTimerInLoop hp hq =>
    obtain ⟨-, -, -, -, hc, -⟩ := TimerQueue.addTimerInLoop_ok hq
    exact ⟨hc ▸ hcancel, hb, hrun⟩
  | cancelInLoop hq =>
    obtain ⟨-, ⟨-, -, -, hc⟩ | ⟨-, -, -, -, hc⟩ | ⟨-, -, rfl⟩⟩ := TimerQueue.cancelInLoop_ok hq
    · exact ⟨hc ▸ hcancel, hb, hrun⟩
    · exact ⟨hc ▸ Finset.mem_insert_of_mem hcancel, hb, hrun⟩
    · exact ⟨hcancel, hb, hrun⟩
  | beginRead hn =>
    simp [inBatch, hn] at hb
  | run hsome =>
    rw [inBatch, hsome] at hb
    rw [toRun, hsome] at hrun
    exact ⟨hcancel, hb, fun hm => hrun (List.mem_cons_of_mem _ hm)⟩
  | endRead hsome hq =>
    -- `reset` has deleted it
    obtain ⟨-, -, -, hbatch⟩ := TimerQueue.endRead_ok hq
    rw [inBatch, hsome] at hb
    obtain ⟨t', ht', hseq⟩ := hlt
    have hn := (hbatch id.1 hb t' ht').1
    rw [hseq] at hn
    exact absurd hcancel hn

/-- A callback that is called belongs to a live timer, and not to one that is gone. -/
theorem run_live {timer : Nat} (h : s.Placed) (hs : Step build V s (.run timer) t) :
    ∃ t', s.queue.heap timer = some t' ∧ ¬ s.Gone (timer, t'.sequence) := by
  cases hs with
  | @run now expired rest it hb =>
    have hrun : it.timer ∈ s.toRun := by simp [toRun, hb]
    obtain ⟨e, he, heq⟩ := List.mem_map.mp (h.rest _ hrun)
    obtain ⟨t', ht', -⟩ := h.tidy.batch e he
    rw [heq] at ht'
    exact ⟨t', ht', fun hg => (hg.2 ⟨t', ht', rfl⟩).2.2 hrun⟩

theorem placed_start {clock : Int} : (start I clock).Placed where
  tidy := tidy_start clock
  placed id hl := by
    obtain ⟨t, ht, -⟩ := hl
    cases ht
  calling := rfl
  rest := by simp [toRun, start]
  numbered id hl := by
    obtain ⟨t, ht, -⟩ := hl
    cases ht

end TimerSystem

/-- The functors that concern the timers. `id` is the timer `cancel` is meant for, `timerId` the
argument it got. -/
inductive TimerFunctor
  | addTimerInLoop (timer : Nat)
  | cancelInLoop (id timerId : Nat × Nat)
  | callback
  deriving DecidableEq, Repr

/-- The timers of a loop that any thread may use. `added` are the timers whose `addTimer` is past
its `runInLoop`. -/
structure TimerThreads (I : Type) where
  timers : TimerSystem I
  loop : EventLoop TimerFunctor
  added : Finset (Nat × Nat)

/-- The timer has been added, or the functor that adds it is among `fs`. -/
def TimerSystem.Entered (s : TimerSystem I) (id : Nat × Nat) (fs : List TimerFunctor) : Prop :=
  id.2 ≤ s.created ∧ (s.Live id → id.1 ∈ s.pending → .addTimerInLoop id.1 ∈ fs)

namespace TimerThreads

variable {T : Type}

inductive Label (T I : Type)
  | timers (a : TimerSystem.Label I)
  | move (m : EventLoop.Move TimerFunctor)
  | addTimer (th : Thread T) (timer : Nat)
  | cancel (th : Thread T) (id timerId : Nat × Nat)

/-- The steps that no call of `addTimerInLoop` or `cancelInLoop` is behind. -/
def Internal (l : EventLoop TimerFunctor) : TimerSystem.Label I → Prop
  | .addTimerInLoop _ | .cancelInLoop _ => False
  | .beginRead => l.phase = .dispatch
  | _ => True

/-- `addTimer` makes the `TimerId` after `runInLoop`; when the timer has been deleted by then, what
it reads for the sequence number is arbitrary. -/
inductive Step (build : Build) (V : Intervals I) :
    TimerThreads I → Label T I → TimerThreads I → Prop
  | timers {s : TimerThreads I} {a : TimerSystem.Label I} {u : TimerSystem I}
      (ha : Internal s.loop a) (hs : TimerSystem.Step build V s.timers a u) :
      Step build V s (.timers a) { s with timers := u }
  | move {s : TimerThreads I} {m : EventLoop.Move TimerFunctor} {l : EventLoop TimerFunctor}
      (hb : s.timers.batch = none) (hm : s.loop.move m = some l)
      (hrun : ∀ f, m = .run f → f = .callback) :
      Step build V s (.move m) { s with loop := l }
  | addTimerHere {s : TimerThreads I} {timer : Nat} {t : Timer I} {u : TimerSystem I}
      (ht : s.timers.queue.heap timer = some t)
      (hn : .addTimerInLoop timer ∉ s.loop.waiting)
      (hs : TimerSystem.Step build V s.timers (.addTimerInLoop timer) u) :
      Step build V s (.addTimer .loop timer)
        { s with timers := u, added := Insert.insert (timer, t.sequence) s.added }
  | addTimerQueue {s : TimerThreads I} {th : T} {timer : Nat} {t : Timer I}
      (hp : timer ∈ s.timers.pending) (ht : s.timers.queue.heap timer = some t)
      (hn : .addTimerInLoop timer ∉ s.loop.waiting) :
      Step build V s (.addTimer (.other th) timer)
        { s with
          loop := s.loop.queueInLoop false (.addTimerInLoop timer)
          added := Insert.insert (timer, t.sequence) s.added }
  | runAdd {s : TimerThreads I} {timer : Nat} {l : EventLoop TimerFunctor} {u : TimerSystem I}
      (hb : s.timers.batch = none) (hm : s.loop.move (.run (.addTimerInLoop timer)) = some l)
      (hs : TimerSystem.Step build V s.timers (.addTimerInLoop timer) u) :
      Step build V s (.move (.run (.addTimerInLoop timer))) { s with timers := u, loop := l }
  | cancelHere {s : TimerThreads I} {id timerId : Nat × Nat} {u : TimerSystem I}
      (hid : id ∈ s.added) (hread : s.timers.Live id → timerId = id)
      (hs : TimerSystem.Step build V s.timers (.cancelInLoop timerId) u) :
      Step build V s (.cancel .loop id timerId) { s with timers := u }
  | cancelQueue {s : TimerThreads I} {th : T} {id timerId : Nat × Nat}
      (hid : id ∈ s.added) (hread : s.timers.Live id → timerId = id) :
      Step build V s (.cancel (.other th) id timerId)
        { s with loop := s.loop.queueInLoop false (.cancelInLoop id timerId) }
  | runCancel {s : TimerThreads I} {id timerId : Nat × Nat} {l : EventLoop TimerFunctor}
      {u : TimerSystem I} (hb : s.timers.batch = none)
      (hm : s.loop.move (.run (.cancelInLoop id timerId)) = some l)
      (hs : TimerSystem.Step build V s.timers (.cancelInLoop timerId) u) :
      Step build V s (.move (.run (.cancelInLoop id timerId))) { s with timers := u, loop := l }

def start (I : Type) (clock : Int) : TimerThreads I := ⟨.start I clock, .enter 0, ∅⟩

def system (T : Type) (build : Build) (V : Intervals I) :
    Trace.LTS (TimerThreads I) (Label T I) where
  init s := ∃ clock, s = start I clock
  step := Step build V

/-- The steps in which the `cancelInLoop` of a call of `cancel` is executed. -/
def Label.Cancels (a : Label T I) (id : Nat × Nat) : Prop :=
  ∃ timerId, a = .cancel .loop id timerId ∨ a = .move (.run (.cancelInLoop id timerId))

/-- `cancel` is not called in the loop thread for a timer that still waits to be added, or to be
called by the read under way. -/
def Timely (s : TimerThreads I) (a : Label T I) : Prop :=
  ∀ id timerId, a = .cancel .loop id timerId → s.timers.Live id →
    .addTimerInLoop id.1 ∉ s.loop.waiting ∧ id.1 ∉ s.timers.toRun

end TimerThreads

namespace TimerSystem

variable {s t : TimerSystem I} {a : Label I} {id : Nat × Nat} {timer : Nat}
  {fs : List TimerFunctor} {f : TimerFunctor}

theorem entered_step (hs : Step build V s a t) (h : s.Entered id fs) : t.Entered id fs := by
  refine ⟨h.1.trans (created_step hs), fun hl hp => ?_⟩
  exact h.2 (live_of_step hs h.1 hl) (pending_of_step hs h.1 hl hp)

/-- The functor that adds the timer has been run. -/
theorem entered_run (hs : Step build V s (.addTimerInLoop timer) t)
    (h : s.Entered id (.addTimerInLoop timer :: fs)) : t.Entered id fs := by
  have ht := entered_step hs h
  refine ⟨ht.1, fun hl hp => ?_⟩
  have hm := ht.2 hl hp
  cases hs with
  | addTimerInLoop =>
    have hne : id.1 ≠ timer := (Finset.mem_erase.mp hp).1
    simpa [hne] using hm

theorem entered_tail (hf : ∀ timer, f ≠ .addTimerInLoop timer) (h : s.Entered id (f :: fs)) :
    s.Entered id fs :=
  ⟨h.1, fun hl hp => (List.mem_cons.mp (h.2 hl hp)).resolve_left (hf id.1).symm⟩

theorem entered_snoc (h : s.Entered id fs) : s.Entered id (fs ++ [f]) :=
  ⟨h.1, fun hl hp => List.mem_append_left _ (h.2 hl hp)⟩

end TimerSystem

namespace TimerThreads

open TimerSystem (microseconds)

variable {T : Type} {s t u v : TimerThreads I} {a : Label T I} {h h' : List (Label T I)}
  {id : Nat × Nat}

/-- A queued `cancelInLoop` has the functor that adds its timer in front of it. -/
structure Inv (s : TimerThreads I) : Prop where
  placed : s.timers.Placed
  settled : s.loop.Settled
  added : ∀ id ∈ s.added, s.timers.Entered id s.loop.waiting
  ordered : Trace.Always (fun pre f => ∀ id timerId, f = .cancelInLoop id timerId →
    s.timers.Entered id pre ∧ (s.timers.Live id → timerId = id)) s.loop.waiting

/-- A step of the timers leaves the queue in order. -/
theorem inv_timers {b : TimerSystem.Label I} {u : TimerSystem I} (hi : s.Inv)
    (hs : TimerSystem.Step build V s.timers b u) : Inv { s with timers := u } where
  placed := TimerSystem.placed_step hs hi.placed
  settled := hi.settled
  added id hid := TimerSystem.entered_step hs (hi.added id hid)
  ordered := hi.ordered.imp fun pre f hf id timerId heq => by
    obtain ⟨hent, hread⟩ := hf id timerId heq
    exact ⟨TimerSystem.entered_step hs hent,
      fun hl => hread (TimerSystem.live_of_step hs hent.1 hl)⟩

/-- Taking a functor that adds no timer. -/
theorem inv_tail {l : EventLoop TimerFunctor} {f : TimerFunctor} (hi : s.Inv)
    (hm : s.loop.move (.run f) = some l) (hf : ∀ timer, f ≠ .addTimerInLoop timer) :
    Inv { s with loop := l } := by
  have hw := EventLoop.waiting_run hm hi.settled
  have hord := hi.ordered
  rw [hw] at hord
  refine ⟨hi.placed, EventLoop.move_settled hm hi.settled, fun id hid => ?_,
    hord.tail.imp fun pre g hg id timerId heq => ?_⟩
  · have hent := hi.added id hid
    rw [hw] at hent
    exact TimerSystem.entered_tail hf hent
  · obtain ⟨hent, hread⟩ := hg id timerId heq
    exact ⟨TimerSystem.entered_tail hf hent, hread⟩

theorem inv_step (hs : Step build V s a t) (hi : s.Inv) : t.Inv := by
  cases hs with
  | timers ha hs => exact inv_timers hi hs
  | @move m l hb hm hrun =>
    rcases EventLoop.move_waiting hm hi.settled with ⟨f, rfl, -⟩ | ⟨-, hw⟩
    · obtain rfl := hrun f rfl
      exact inv_tail hi hm (by simp)
    · refine ⟨hi.placed, EventLoop.move_settled hm hi.settled, ?_, ?_⟩
      · rw [hw]
        exact hi.added
      · rw [hw]
        exact hi.ordered
  | @addTimerHere timer tm u htm hn hs =>
    have hu := inv_timers hi hs
    refine ⟨hu.placed, hu.settled, fun id hid => ?_, hu.ordered⟩
    rcases Finset.mem_insert.mp hid with rfl | hid
    · refine ⟨(hi.placed.numbered _ ⟨tm, htm, rfl⟩).trans (TimerSystem.created_step hs),
        fun _ hp => ?_⟩
      cases hs with
      | addTimerInLoop => exact absurd rfl (Finset.mem_erase.mp hp).1
    · exact hu.added id hid
  | @addTimerQueue th timer tm hp htm hn =>
    refine ⟨hi.placed, EventLoop.settled_queueInLoop _ _ hi.settled, fun id hid => ?_, ?_⟩
    · rw [EventLoop.waiting_queueInLoop]
      rcases Finset.mem_insert.mp hid with rfl | hid
      · exact ⟨hi.placed.numbered _ ⟨tm, htm, rfl⟩, by simp⟩
      · exact TimerSystem.entered_snoc (hi.added id hid)
    · rw [EventLoop.waiting_queueInLoop]
      exact hi.ordered.snoc (by simp)
  | @runAdd timer l u hb hm hs =>
    have hw := EventLoop.waiting_run hm hi.settled
    have hord := hi.ordered
    rw [hw] at hord
    refine ⟨TimerSystem.placed_step hs hi.placed, EventLoop.move_settled hm hi.settled,
      fun id hid => ?_, hord.tail.imp fun pre g hg id timerId heq => ?_⟩
    · have hent := hi.added id hid
      rw [hw] at hent
      exact TimerSystem.entered_run hs hent
    · obtain ⟨hent, hread⟩ := hg id timerId heq
      exact ⟨TimerSystem.entered_run hs hent,
        fun hl => hread (TimerSystem.live_of_step hs hent.1 hl)⟩
  | cancelHere hid hread hs => exact inv_timers hi hs
  | @cancelQueue th id timerId hid hread =>
    refine ⟨hi.placed, EventLoop.settled_queueInLoop _ _ hi.settled, fun id' hid' => ?_, ?_⟩
    · rw [EventLoop.waiting_queueInLoop]
      exact TimerSystem.entered_snoc (hi.added id' hid')
    · rw [EventLoop.waiting_queueInLoop]
      refine hi.ordered.snoc fun id' timerId' heq => ?_
      obtain ⟨rfl, rfl⟩ : id = id' ∧ timerId = timerId' := by simpa using heq
      exact ⟨hi.added id hid, hread⟩
  | runCancel hb hm hs =>
    have hu := inv_timers hi hs
    exact inv_tail hu hm (by simp)

theorem inv_start {clock : Int} : (start I clock).Inv where
  placed := TimerSystem.placed_start
  settled _ := rfl
  added := by simp [start]
  ordered := Trace.always_nil

theorem inv_exec (he : (system T build V).Exec h s) : s.Inv := by
  induction he with
  | start hi =>
    obtain ⟨clock, rfl⟩ := hi
    exact inv_start
  | snoc _ hs ih => exact inv_step hs ih

/-- Cancelling a timer that was added, and is neither queued to be added nor to be called. -/
theorem gone_cancelInLoop {u : TimerSystem I} {timerId : Nat × Nat} (hi : s.Inv)
    (hid : id.2 ≤ s.timers.created) (hread : s.timers.Live id → timerId = id)
    (hl : s.timers.Live id → id.1 ∉ s.timers.pending ∧ id.1 ∉ s.timers.toRun)
    (hs : TimerSystem.Step build V s.timers (.cancelInLoop timerId) u) : u.Gone id := by
  by_cases hlive : s.timers.Live id
  · obtain rfl := hread hlive
    exact TimerSystem.gone_cancel hi.placed hid hl hs
  · exact ⟨hid.trans (TimerSystem.created_step hs),
      fun hu => absurd (TimerSystem.live_of_step hs hid hu) hlive⟩

/-- Once its `cancelInLoop` has run, a timer is gone. -/
theorem gone_of_cancels (hi : s.Inv) (hs : Step build V s a t) (hc : s.Timely a)
    (hx : a.Cancels id) : t.timers.Gone id := by
  obtain ⟨timerId, rfl | rfl⟩ := hx
  · cases hs with
    | cancelHere hid hread hs =>
      obtain ⟨hle, hent⟩ := hi.added id hid
      refine gone_cancelInLoop hi hle hread (fun hl => ?_) hs
      obtain ⟨hn, hrun⟩ := hc id timerId rfl hl
      exact ⟨fun hp => hn (hent hl hp), hrun⟩
  · cases hs with
    | move hb hm hrun => exact absurd (hrun _ rfl) (by simp)
    | runCancel hb hm hs =>
      -- it is first in the queue, so nothing that adds its timer is left
      obtain ⟨⟨hle, hent⟩, hread⟩ := hi.ordered [] _ _ (EventLoop.waiting_run hm hi.settled) id
        timerId rfl
      refine gone_cancelInLoop hi hle hread (fun hl => ?_) hs
      exact ⟨fun hp => List.not_mem_nil (hent hl hp), by simp [TimerSystem.toRun, hb]⟩

theorem gone_step (hs : Step build V s a t) (hg : s.timers.Gone id) : t.timers.Gone id := by
  cases hs with
  | timers _ hs => exact TimerSystem.gone_step hs hg
  | addTimerHere _ _ hs => exact TimerSystem.gone_step hs hg
  | runAdd _ _ hs => exact TimerSystem.gone_step hs hg
  | cancelHere _ _ hs => exact TimerSystem.gone_step hs hg
  | runCancel _ _ hs => exact TimerSystem.gone_step hs hg
  | move | addTimerQueue | cancelQueue => exact hg

/-- What holds once a timer is gone holds to the end of the run. -/
theorem gone_resume (hi : t.Inv) (hg : t.timers.Gone id)
    (hu : ((system T build V).resume t).Exec h' u) : u.Inv ∧ u.timers.Gone id := by
  induction hu with
  | start heq =>
    obtain rfl := heq
    exact ⟨hi, hg⟩
  | snoc _ hs ih => exact ⟨inv_step hs ih.1, gone_step hs ih.2⟩

/-- Whatever threads and callbacks do, after the `cancelInLoop` of a timely `cancel` every callback
that is called is that of another timer. -/
theorem cancelled_never_runs (he : (system T build V).Exec h s) (hs : Step build V s a t)
    (hc : s.Timely a) (hx : a.Cancels id) (hu : ((system T build V).resume t).Exec h' u)
    {timer : Nat} (hr : Step build V u (.timers (.run timer) : Label T I) v) :
    ∃ tm, u.timers.queue.heap timer = some tm ∧ (timer, tm.sequence) ≠ id := by
  have hi := inv_exec he
  obtain ⟨hiu, hgu⟩ := gone_resume (inv_step hs hi) (gone_of_cancels hi hs hc hx) hu
  cases hr with
  | timers _ hr =>
    obtain ⟨tm, htm, hn⟩ := TimerSystem.run_live hiu.placed hr
    refine ⟨tm, htm, ?_⟩
    rintro rfl
    exact hn hgu

/-- Two timers, added in the loop thread for the same time. -/
def twoTimers : TimerThreads Int where
  timers := { TimerSystem.start Int 1000 with
    queue := { (TimerSystem.start Int 1000).queue with
      heap := Function.update (Function.update (fun _ => none) 16
        (some (.new microseconds 5000 0 1))) 32 (some (.new microseconds 5000 0 2))
      timers := {Entry.mk 5000 32, Entry.mk 5000 16}
      activeTimers := {(32, 2), (16, 1)}
      timerfd := .armed 5000
      lastReset := 1000 }
    created := 2 }
  loop := { EventLoop.enter 0 with phase := .dispatch }
  added := {(32, 2), (16, 1)}

theorem exec_step {s t : TimerThreads Int} {a : Label T Int} {h : List (Label T Int)}
    (he : (system T .debug microseconds).Exec h s) (hs : Step .debug microseconds s a t) :
    (system T .debug microseconds).Exec (h ++ [a]) t :=
  he.snoc hs

theorem twoTimers_exec : ∃ h, (system T .debug microseconds).Exec h twoTimers := by
  have e₀ : (system T .debug microseconds).Exec [] (start Int 1000) := .start ⟨1000, rfl⟩
  have e₁ := exec_step e₀ (a := .timers (.new 16 5000 0)) (.timers trivial (.new rfl (by decide)))
  have e₂ := exec_step e₁ (a := .addTimer .loop 16)
    (.addTimerHere rfl (by decide) (.addTimerInLoop (by decide) rfl))
  have e₃ := exec_step e₂ (a := .timers (.new 32 5000 0)) (.timers trivial (.new rfl (by decide)))
  have e₄ := exec_step e₃ (a := .addTimer .loop 32)
    (.addTimerHere rfl (by decide) (.addTimerInLoop (by decide) rfl))
  have e₅ := exec_step e₄ (a := .move .poll) (.move rfl rfl (by simp))
  exact ⟨_, e₅⟩

/-- Both have expired, and the first is being called. -/
def firstCalled : TimerThreads Int :=
  { twoTimers with
    timers := { twoTimers.timers with
      queue := { twoTimers.timers.queue with
        timers := ∅, activeTimers := ∅, callingExpiredTimers := true, timerfd := .disarmed }
      clock := 6000
      batch := some ⟨6000, [Entry.mk 5000 16, Entry.mk 5000 32], [Entry.mk 5000 32]⟩ } }

theorem firstCalled_exec : ∃ h, (system T .debug microseconds).Exec h firstCalled := by
  obtain ⟨h, e₀⟩ := twoTimers_exec (T := T)
  have hfilter : twoTimers.timers.queue.timers.filter (· < Entry.mk 6000 UINTPTR_MAX) =
      insert (Entry.mk 5000 16) {Entry.mk 5000 32} := by decide
  have hsort : (twoTimers.timers.queue.timers.filter (· < Entry.mk 6000 UINTPTR_MAX)).sort =
      [Entry.mk 5000 16, Entry.mk 5000 32] := by
    rw [hfilter, Finset.sort_insert _ (by decide) (by decide), Finset.sort_singleton]
  have hb : TimerQueue.beginRead .debug
      { twoTimers.timers.queue with timerfd := .fired 5000 } 6000 =
      .ok (firstCalled.timers.queue, [Entry.mk 5000 16, Entry.mk 5000 32]) := by
    rw [TimerQueue.beginRead, TimerQueue.getExpired]
    dsimp only
    rw [hsort]
    rfl
  have e₁ := exec_step e₀ (a := .timers (.tick 6000)) (.timers trivial (.tick (by decide)))
  have e₂ := exec_step e₁ (a := .timers .fire) (.timers trivial (.fire rfl (by decide)))
  have e₃ := exec_step e₂ (a := .timers .beginRead) (.timers rfl (.beginRead rfl hb))
  have e₄ := exec_step e₃ (a := .timers (.run (Entry.mk 5000 16).timer))
    (.timers trivial (.run rfl))
  exact ⟨_, e₄⟩

/-- The callback of the first timer has called `cancel`. -/
def cancelled (id : Nat × Nat) : TimerThreads Int :=
  { firstCalled with
    timers := { firstCalled.timers with
      queue := { firstCalled.timers.queue with cancelingTimers := {id} } } }

theorem cancelled_step (hid : id ∈ firstCalled.added) :
    Step .debug microseconds firstCalled (.cancel .loop id id : Label T Int) (cancelled id) :=
  .cancelHere hid (fun _ => rfl) (.cancelInLoop rfl)

theorem cancelled_run : ∃ v,
    Step .debug microseconds (cancelled id) (.timers (.run (Entry.mk 5000 32).timer) : Label T Int)
      v :=
  ⟨_, .timers trivial (.run rfl)⟩

/-- The first timer cancels itself; the second is still called. -/
theorem cancelled_never_runs_itself :
    ∃ h s t v, (system Unit .debug microseconds).Exec h s ∧
      Step .debug microseconds s (.cancel .loop (16, 1) (16, 1) : Label Unit Int) t ∧
      Timely s (.cancel .loop (16, 1) (16, 1) : Label Unit Int) ∧
      Step .debug microseconds t (.timers (.run 32) : Label Unit Int) v ∧
      ∃ tm, t.timers.queue.heap 32 = some tm ∧ (32, tm.sequence) ≠ (16, 1) := by
  obtain ⟨h, he⟩ := firstCalled_exec (T := Unit)
  obtain ⟨v, hr⟩ := @cancelled_run Unit (16, 1)
  have hs := @cancelled_step Unit (16, 1) (by decide)
  have hc : Timely firstCalled (.cancel .loop (16, 1) (16, 1) : Label Unit Int) := by
    rintro id timerId heq -
    obtain ⟨rfl, rfl⟩ : (16, 1) = id ∧ (16, 1) = timerId := by simpa using heq
    decide
  exact ⟨h, _, _, v, he, hs, hc, hr,
    cancelled_never_runs he hs hc ⟨(16, 1), .inl rfl⟩ (.start rfl) hr⟩

/-- The first timer cancels the second, which is called all the same. -/
theorem cancelled_in_batch_runs :
    ¬ ∀ (h h' : List (Label Unit Int)) (s t u v : TimerThreads Int) (a : Label Unit Int)
      (id : Nat × Nat) (timer : Nat), (system Unit .debug microseconds).Exec h s →
      Step .debug microseconds s a t → a.Cancels id →
      ((system Unit .debug microseconds).resume t).Exec h' u →
      Step .debug microseconds u (.timers (.run timer) : Label Unit Int) v →
      ∃ tm, u.timers.queue.heap timer = some tm ∧ (timer, tm.sequence) ≠ id := by
  intro hall
  obtain ⟨h, he⟩ := firstCalled_exec (T := Unit)
  obtain ⟨v, hr⟩ := @cancelled_run Unit (32, 2)
  have hs := @cancelled_step Unit (32, 2) (by decide)
  obtain ⟨tm, htm, hne⟩ := hall h [] _ _ _ v _ (32, 2) _ he hs ⟨(32, 2), .inl rfl⟩ (.start rfl) hr
  obtain rfl : Timer.new microseconds 5000 0 2 = tm := Option.some.inj htm
  exact hne rfl

end TimerThreads

end Lute
