import Lute.Polaris.TimerSets

/-! The life of a timer object on the loop thread: from the allocation through the sets and the
batches to the one deletion, with ids that outlive it. -/
namespace Lute

variable {I : Type} {build : Build} {V : Intervals I}

/-- The timers with their history: the ids handed out, the timers of the batch under way as they
were when they expired, and the ids `cancel` has been called with since. -/
structure TimerLife (I : Type) where
  sys : TimerSystem I
  issued : List (Nat × Nat)
  taken : List (Nat × Nat)
  cancelled : List (Nat × Nat)

namespace TimerLife

inductive Label (I : Type)
  | tick (clock : Int)
  | fire
  | addTimer (timer : Nat) (when : Int) (interval : I)
  | cancel (timerId : Nat × Nat)
  | beginRead
  | run (timer : Nat)
  | endRead

/-- `addTimer` and `cancel` are called on the loop thread, so that `runInLoop` calls back at
once. -/
inductive Step (build : Build) (V : Intervals I) : TimerLife I → Label I → TimerLife I → Prop
  | tick {s : TimerLife I} {clock : Int} {t : TimerSystem I}
      (hs : TimerSystem.Step build V s.sys (.tick clock) t) :
      Step build V s (.tick clock) { s with sys := t }
  | fire {s : TimerLife I} {t : TimerSystem I} (hs : TimerSystem.Step build V s.sys .fire t) :
      Step build V s .fire { s with sys := t }
  | addTimer {s : TimerLife I} {timer : Nat} {when : Int} {interval : I} {u t : TimerSystem I}
      (hn : TimerSystem.Step build V s.sys (.new timer when interval) u)
      (ha : TimerSystem.Step build V u (.addTimerInLoop timer) t) :
      Step build V s (.addTimer timer when interval)
        { s with sys := t, issued := (timer, s.sys.created + 1) :: s.issued }
  | cancel {s : TimerLife I} {timerId : Nat × Nat} {t : TimerSystem I}
      (hs : TimerSystem.Step build V s.sys (.cancelInLoop timerId) t) :
      Step build V s (.cancel timerId) { s with sys := t, cancelled := timerId :: s.cancelled }
  | beginRead {s : TimerLife I} {t : TimerSystem I}
      (hs : TimerSystem.Step build V s.sys .beginRead t) :
      Step build V s .beginRead
        { s with sys := t, taken := t.inBatch.map s.sys.queue.activeOf, cancelled := [] }
  | run {s : TimerLife I} {timer : Nat} {t : TimerSystem I}
      (hs : TimerSystem.Step build V s.sys (.run timer) t) :
      Step build V s (.run timer) { s with sys := t }
  | endRead {s : TimerLife I} {t : TimerSystem I}
      (hs : TimerSystem.Step build V s.sys .endRead t) :
      Step build V s .endRead { s with sys := t, taken := [], cancelled := [] }

def system (build : Build) (V : Intervals I) : Trace.LTS (TimerLife I) (Label I) where
  init s := ∃ clock, s = ⟨.start I clock, [], [], []⟩
  step := Step build V

/-- The timer of `id` is in both sets, and not in the batch. -/
def InSets (s : TimerLife I) (id : Nat × Nat) : Prop :=
  (∃ t, s.sys.queue.heap id.1 = some t ∧ t.sequence = id.2 ∧
    Entry.mk t.expiration id.1 ∈ s.sys.queue.timers) ∧
    id ∈ s.sys.queue.activeTimers ∧ id ∉ s.taken

/-- It is in the batch, and in neither set. -/
def InBatch (s : TimerLife I) (id : Nat × Nat) : Prop :=
  s.sys.Live id ∧ id ∈ s.taken ∧ id ∉ s.sys.queue.activeTimers ∧
    ∀ e ∈ s.sys.queue.timers, e.timer ≠ id.1

/-- It has been deleted, and nothing refers to it. -/
def Deleted (s : TimerLife I) (id : Nat × Nat) : Prop :=
  ¬ s.sys.Live id ∧ id ∉ s.taken ∧ id ∉ s.sys.queue.activeTimers

/-- What holds between the steps, and what the next step does. -/
structure Linear (build : Build) (V : Intervals I) (s : TimerLife I) : Prop where
  place : ∀ id ∈ s.issued, s.InSets id ∨ s.InBatch id ∨ s.Deleted id
  once : ∀ a t, Step build V s a t → ∀ id ∈ s.issued, ¬ s.sys.Live id → ¬ t.sys.Live id
  add : ∀ timer when interval u, TimerSystem.Step build V s.sys (.new timer when interval) u →
    ∃ q tm, u.queue.addTimerInLoop build u.clock timer = .ok q ∧ q.heap timer = some tm ∧
      tm.sequence = s.sys.created + 1
  cancel : ∀ timerId, ∃ q, s.sys.queue.cancelInLoop build timerId = .ok q ∧
    (¬ s.sys.Live timerId → q.heap = s.sys.queue.heap ∧ q.timers = s.sys.queue.timers ∧
      q.activeTimers = s.sys.queue.activeTimers) ∧
    ∀ id ≠ timerId, s.sys.Live id → q.heap id.1 = s.sys.queue.heap id.1 ∧
      (id ∈ q.activeTimers ↔ id ∈ s.sys.queue.activeTimers) ∧
      ∀ when, Entry.mk when id.1 ∈ q.timers ↔ Entry.mk when id.1 ∈ s.sys.queue.timers
  read : s.sys.batch = none → ∃ r, s.sys.queue.beginRead build s.sys.clock = .ok r
  run : ∀ timer t, Step build V s (.run timer) t →
    ∃ tm, s.sys.queue.heap timer = some tm ∧ (timer, tm.sequence) ∈ s.taken
  reset : ∀ b, s.sys.batch = some b → b.expired.map s.sys.queue.activeOf = s.taken ∧
    ∃ q, s.sys.queue.endRead build V b.expired b.now s.sys.clock = .ok q
  back : ∀ t, Step build V s .endRead t → ∀ id ∈ s.taken, ∃ tm,
    s.sys.queue.heap id.1 = some tm ∧ tm.sequence = id.2 ∧
      if tm.repeats = true ∧ id ∉ s.cancelled then t.InSets id else ¬ t.sys.Live id

end TimerLife

namespace TimerQueue

variable {q q' : TimerQueue I} {B E : List Entry} {P : Finset Nat} {now clock : Int}

/-- What the loop of `reset` does to each timer of the batch, and that it leaves the others. -/
theorem resetTimers_each (hnd : (E.map Entry.timer).Nodup)
    (hq : q.resetTimers build V now E = .ok q') :
    q'.cancelingTimers = q.cancelingTimers ∧
      (∀ a, a ∉ E.map Entry.timer → q'.heap a = q.heap a) ∧
      ∀ e ∈ E, ∃ t, q.heap e.timer = some t ∧ q'.heap e.timer =
        if t.repeats = true ∧ (e.timer, t.sequence) ∉ q.cancelingTimers then
          some (t.restart V now) else none := by
  induction E generalizing q with
  | nil =>
    obtain rfl := Except.ok.inj hq
    exact ⟨rfl, fun _ _ => rfl, by simp⟩
  | cons e E ih =>
    rw [List.map_cons, List.nodup_cons] at hnd
    obtain ⟨t, ht, hcase⟩ := resetTimers_cons build hq
    -- the queue after the first round, in either case
    obtain ⟨q₁, o, hq₁, hheap, hcancel, ho⟩ : ∃ (q₁ : TimerQueue I) (o : Option (Timer I)),
        q₁.resetTimers build V now E = .ok q' ∧
        q₁.heap = Function.update q.heap e.timer o ∧ q₁.cancelingTimers = q.cancelingTimers ∧
        o = if t.repeats = true ∧ (e.timer, t.sequence) ∉ q.cancelingTimers then
          some (t.restart V now) else none := by
      rcases hcase with ⟨hrep, hc, hq⟩ | ⟨hn, hq⟩
      · exact ⟨_, _, hq, rfl, rfl, (if_pos ⟨hrep, hc⟩).symm⟩
      · exact ⟨_, _, hq, rfl, rfl, (if_neg hn).symm⟩
    obtain ⟨hcancel', hothers, heach⟩ := ih hnd.2 hq₁
    refine ⟨hcancel'.trans hcancel, fun a ha => ?_, fun f hf => ?_⟩
    · rw [List.map_cons, List.mem_cons, not_or] at ha
      rw [hothers a ha.2, hheap, Function.update_of_ne ha.1]
    · rcases List.mem_cons.mp hf with rfl | hf
      · exact ⟨t, ht, by rw [hothers _ hnd.1, hheap, Function.update_self, ho]⟩
      · have hne : f.timer ≠ e.timer := fun heq => hnd.1 (heq ▸ List.mem_map_of_mem hf)
        obtain ⟨t', ht', heq⟩ := heach f hf
        rw [hheap, Function.update_of_ne hne] at ht'
        rw [hcancel] at heq
        exact ⟨t', ht', heq⟩

theorem endRead_each (hnd : (E.map Entry.timer).Nodup)
    (hq : q.endRead build V E now clock = .ok q') :
    q'.cancelingTimers = q.cancelingTimers ∧
      (∀ a, a ∉ E.map Entry.timer → q'.heap a = q.heap a) ∧
      ∀ e ∈ E, ∃ t, q.heap e.timer = some t ∧ q'.heap e.timer =
        if t.repeats = true ∧ (e.timer, t.sequence) ∉ q.cancelingTimers then
          some (t.restart V now) else none := by
  obtain ⟨q₁, hr, hq'⟩ := reset_ok build hq
  obtain ⟨hcancel, hothers, heach⟩ := resetTimers_each hnd hr
  obtain rfl | ⟨w, rfl⟩ := hq'
  · exact ⟨hcancel, hothers, heach⟩
  · exact ⟨hcancel, hothers, heach⟩

/-- Only the timer of an active id is deleted by cancelling it. -/
theorem cancelInLoop_heap {id : Nat × Nat} {a : Nat} {t : Timer I}
    (hq : q.cancelInLoop build id = .ok q') (h : Tidy q B P) (ht : q.heap a = some t)
    (hne : id ∈ q.activeTimers → (a, t.sequence) ≠ id) : q'.heap a = q.heap a := by
  obtain ⟨-, ⟨hm, hheap, -⟩ | ⟨-, -, hheap, -⟩ | ⟨-, -, rfl⟩⟩ := cancelInLoop_ok hq
  · obtain ⟨t', ht', hs, -⟩ := h.actives id hm
    have ha : a ≠ id.1 := by
      rintro rfl
      obtain rfl : t' = t := by simpa [ht] using ht'.symm
      exact hne hm (by rw [hs])
    rw [hheap, Function.update_of_ne ha]
  · rw [hheap]
  · rfl

/-- Cancelling leaves the timers of the batch where they are, and notes their ids. -/
theorem cancelInLoop_batch {id : Nat × Nat} {e : Entry} {t : Timer I}
    (hq : q.cancelInLoop build id = .ok q') (h : Tidy q B P) (he : e ∈ B)
    (hcall : q.callingExpiredTimers = true) (ht : q.heap e.timer = some t) :
    q'.heap e.timer = q.heap e.timer ∧ ((e.timer, t.sequence) ∈ q'.cancelingTimers ↔
      (e.timer, t.sequence) ∈ q.cancelingTimers ∨ id = (e.timer, t.sequence)) := by
  obtain ⟨t', ht', hn⟩ := h.batch e he
  obtain rfl : t' = t := Option.some.inj (ht'.symm.trans ht)
  refine ⟨cancelInLoop_heap hq h ht fun hm heq => hn (heq ▸ hm), ?_⟩
  obtain ⟨-, ⟨hm, -, -, hc⟩ | ⟨-, -, -, -, hc⟩ | ⟨-, hno, -⟩⟩ := cancelInLoop_ok hq
  · have hne : id ≠ (e.timer, t'.sequence) := fun heq => hn (heq ▸ hm)
    simp [hc, hne]
  · simp [hc, or_comm, eq_comm]
  · exact absurd hcall (by simp [hno])

theorem beginRead_canceling (hq : q.beginRead build now = .ok (q', E)) :
    q'.cancelingTimers = ∅ := by
  obtain ⟨⟨q₁, E₁⟩, -, hq⟩ := bind_ok hq
  obtain ⟨rfl, -⟩ := Prod.mk.inj (Except.ok.inj hq)
  rfl

theorem activeOf_congr {e : Entry} (h : q'.heap e.timer = q.heap e.timer) :
    q'.activeOf e = q.activeOf e := by
  simp [activeOf, sequenceAt, h]

end TimerQueue

namespace TimerLife

variable {s t : TimerLife I} {a : Label I} {id : Nat × Nat}

structure Inv (s : TimerLife I) : Prop where
  placed : s.sys.Placed
  pending : s.sys.pending = ∅
  taken : s.sys.inBatch.map s.sys.queue.activeOf = s.taken
  cancels : ∀ id ∈ s.taken, id ∈ s.sys.queue.cancelingTimers ↔ id ∈ s.cancelled
  issued : ∀ id ∈ s.issued, id.2 ≤ s.sys.created

theorem Inv.mem_taken (hi : s.Inv) (hm : id ∈ s.taken) : ∃ e ∈ s.sys.inBatch, ∃ t,
    s.sys.queue.heap e.timer = some t ∧ id = (e.timer, t.sequence) ∧
      id ∉ s.sys.queue.activeTimers := by
  rw [← hi.taken] at hm
  obtain ⟨e, he, rfl⟩ := List.mem_map.mp hm
  obtain ⟨t, ht, hn⟩ := hi.placed.tidy.batch e he
  have heq := TimerQueue.activeOf_eq ht
  exact ⟨e, he, t, ht, heq, heq ▸ hn⟩

/-- A live timer is in one of the two places. -/
theorem Inv.place (hi : s.Inv) (hl : s.sys.Live id) : s.InSets id ∨ s.InBatch id := by
  obtain ⟨t, ht, hs⟩ := hl
  rcases hi.placed.placed id ⟨t, ht, hs⟩ with hm | hm | hm
  · left
    obtain ⟨t', ht', hs', he⟩ := hi.placed.tidy.actives id hm
    refine ⟨⟨t', ht', hs', he⟩, hm, fun htaken => ?_⟩
    obtain ⟨-, -, -, -, -, hn⟩ := hi.mem_taken htaken
    exact hn hm
  · right
    obtain ⟨e, he, heq⟩ := List.mem_map.mp hm
    obtain ⟨t', ht', hn⟩ := hi.placed.tidy.batch e he
    obtain rfl : t' = t := by simpa [heq, ht] using ht'.symm
    have hid : s.sys.queue.activeOf e = id := by
      rw [TimerQueue.activeOf_eq ht', heq, hs]
    have hn' : id ∉ s.sys.queue.activeTimers := by
      rwa [heq, hs] at hn
    refine ⟨⟨t', ht, hs⟩, hi.taken ▸ List.mem_map.mpr ⟨e, he, hid⟩, hn', fun f hf => ?_⟩
    exact heq ▸ hi.placed.tidy.timer_ne ht' hn hf
  · simp [hi.pending] at hm

theorem Inv.deleted (hi : s.Inv) (hn : ¬ s.sys.Live id) : s.Deleted id := by
  refine ⟨hn, fun hm => ?_, fun hm => ?_⟩
  · obtain ⟨e, -, t, ht, rfl, -⟩ := hi.mem_taken hm
    exact hn ⟨t, ht, rfl⟩
  · obtain ⟨t, ht, hs, -⟩ := hi.placed.tidy.actives id hm
    exact hn ⟨t, ht, hs⟩

/-- A step within a batch that leaves the timers of the batch alone. -/
theorem taken_congr (u : TimerSystem I) {v : TimerSystem I} (hb : v.inBatch = u.inBatch)
    (hheap : ∀ e ∈ u.inBatch, v.queue.heap e.timer = u.queue.heap e.timer) :
    v.inBatch.map v.queue.activeOf = u.inBatch.map u.queue.activeOf := by
  rw [hb]
  exact List.map_congr_left fun e he => TimerQueue.activeOf_congr (hheap e he)

theorem inv_start {clock : Int} : Inv (⟨.start I clock, [], [], []⟩ : TimerLife I) where
  placed := TimerSystem.placed_start
  pending := rfl
  taken := rfl
  cancels := by simp
  issued := by simp

theorem inv_addTimer {timer : Nat} {when : Int} {interval : I} {u v : TimerSystem I} (hi : s.Inv)
    (hn : TimerSystem.Step build V s.sys (.new timer when interval) u)
    (ha : TimerSystem.Step build V u (.addTimerInLoop timer) v) :
    Inv { s with sys := v, issued := (timer, s.sys.created + 1) :: s.issued } := by
  have hplaced := TimerSystem.placed_step ha (TimerSystem.placed_step hn hi.placed)
  cases hn with
  | new hfree hlt =>
    cases ha with
    | @addTimerInLoop _ q hp hq =>
      obtain ⟨-, -, hheap, -, hcancel, -⟩ := TimerQueue.addTimerInLoop_ok hq
      refine ⟨hplaced, ?_, (taken_congr s.sys ?_ fun e he => ?_).trans hi.taken,
        fun id hm => ?_, fun id hm => ?_⟩
      · simp [hi.pending]
      · rfl
      · change q.heap e.timer = _
        rw [hheap]
        exact Function.update_of_ne (hi.placed.tidy.batch_ne hfree he) _ _
      · change id ∈ q.cancelingTimers ↔ _
        rw [hcancel]
        exact hi.cancels id hm
      · rcases List.mem_cons.mp hm with rfl | hm
        · exact le_rfl
        · exact (hi.issued id hm).trans (Nat.le_succ _)

/-- Whether `cancel` finds the timer in the sets or in the batch, the batch keeps its timers and
`cancelingTimers_` lists those of them that were cancelled. -/
theorem inv_cancel {timerId : Nat × Nat} {u : TimerSystem I} (hi : s.Inv)
    (hs : TimerSystem.Step build V s.sys (.cancelInLoop timerId) u) :
    Inv { s with sys := u, cancelled := timerId :: s.cancelled } := by
  have hplaced := TimerSystem.placed_step hs hi.placed
  cases hs with
  | @cancelInLoop _ q hq =>
    refine ⟨hplaced, hi.pending, (taken_congr s.sys ?_ fun e he => ?_).trans hi.taken,
      fun id hm => ?_, hi.issued⟩
    · rfl
    · obtain ⟨tm, htm, -⟩ := hi.placed.tidy.batch e he
      have hcall := hi.placed.calling_of_mem he
      exact (TimerQueue.cancelInLoop_batch hq hi.placed.tidy he hcall htm).1
    · have hold := hi.cancels id hm
      obtain ⟨e, he, tm, htm, rfl, -⟩ := hi.mem_taken hm
      have hcall := hi.placed.calling_of_mem he
      refine (TimerQueue.cancelInLoop_batch hq hi.placed.tidy he hcall htm).2.trans ?_
      rw [hold, List.mem_cons, or_comm, eq_comm]

theorem inv_step (hs : Step build V s a t) (hi : s.Inv) : t.Inv := by
  cases hs with
  | tick hs =>
    have hplaced := TimerSystem.placed_step hs hi.placed
    cases hs
    exact ⟨hplaced, hi.pending, hi.taken, hi.cancels, hi.issued⟩
  | fire hs =>
    have hplaced := TimerSystem.placed_step hs hi.placed
    cases hs
    exact ⟨hplaced, hi.pending, hi.taken, hi.cancels, hi.issued⟩
  | addTimer hn ha => exact inv_addTimer hi hn ha
  | cancel hs => exact inv_cancel hi hs
  | beginRead hs =>
    have hplaced := TimerSystem.placed_step hs hi.placed
    cases hs with
    | @beginRead q expired hb hq =>
      obtain ⟨hheap, -⟩ := TimerQueue.beginRead_ok hq
      have hcancel := TimerQueue.beginRead_canceling hq
      refine ⟨hplaced, hi.pending, ?_, fun id _ => ?_, hi.issued⟩
      · exact List.map_congr_left fun e _ => TimerQueue.activeOf_congr (congrFun hheap e.timer)
      · change id ∈ q.cancelingTimers ↔ id ∈ []
        simp [hcancel]
  | run hs =>
    have hplaced := TimerSystem.placed_step hs hi.placed
    cases hs with
    | run hb =>
      refine ⟨hplaced, hi.pending, ?_, hi.cancels, hi.issued⟩
      rw [← hi.taken, TimerSystem.inBatch, TimerSystem.inBatch, hb]
      rfl
  | endRead hs =>
    have hplaced := TimerSystem.placed_step hs hi.placed
    cases hs
    exact ⟨hplaced, hi.pending, rfl, by simp, hi.issued⟩

theorem inv_exec {h : List (Label I)} (he : (system build V).Exec h s) : s.Inv := by
  induction he with
  | start hi =>
    obtain ⟨clock, rfl⟩ := hi
    exact inv_start
  | snoc _ hs ih => exact inv_step hs ih

/-- An id whose timer has been deleted is not that of a later one. -/
theorem dead_step (hi : s.Inv) (hs : Step build V s a t) (hid : id ∈ s.issued)
    (hn : ¬ s.sys.Live id) : ¬ t.sys.Live id := by
  have hle := hi.issued id hid
  intro hl
  refine hn ?_
  cases hs with
  | tick hs => exact TimerSystem.live_of_step hs hle hl
  | fire hs => exact TimerSystem.live_of_step hs hle hl
  | addTimer hs ha =>
    have hle' := hle.trans (TimerSystem.created_step hs)
    exact TimerSystem.live_of_step hs hle (TimerSystem.live_of_step ha hle' hl)
  | cancel hs => exact TimerSystem.live_of_step hs hle hl
  | beginRead hs => exact TimerSystem.live_of_step hs hle hl
  | run hs => exact TimerSystem.live_of_step hs hle hl
  | endRead hs => exact TimerSystem.live_of_step hs hle hl

/-- Cancelling has no effect on the timer of another id, whatever addresses they have. -/
theorem cancel_others {timerId : Nat × Nat} {q : TimerQueue I} (hi : s.Inv)
    (hq : s.sys.queue.cancelInLoop build timerId = .ok q) (hne : id ≠ timerId)
    (hl : s.sys.Live id) : q.heap id.1 = s.sys.queue.heap id.1 ∧
      (id ∈ q.activeTimers ↔ id ∈ s.sys.queue.activeTimers) ∧
      ∀ when, Entry.mk when id.1 ∈ q.timers ↔ Entry.mk when id.1 ∈ s.sys.queue.timers := by
  obtain ⟨t, ht, hseq⟩ := hl
  have htidy := hi.placed.tidy
  have hid : (id.1, t.sequence) = id := Prod.ext rfl hseq
  have hheap := TimerQueue.cancelInLoop_heap hq htidy ht fun _ => hid ▸ hne
  have hactive : id ∈ q.activeTimers ↔ id ∈ s.sys.queue.activeTimers := by
    obtain ⟨-, ⟨-, -, ha, -⟩ | ⟨-, -, -, ha, -⟩ | ⟨-, -, rfl⟩⟩ := TimerQueue.cancelInLoop_ok hq
    · rw [ha, Finset.mem_erase]
      exact and_iff_right hne
    · rw [ha]
    · exact Iff.rfl
  obtain ⟨q', hq', htidy', -⟩ := TimerQueue.cancelInLoop_spec build htidy timerId
  obtain rfl : q' = q := by simpa [hq'] using hq
  refine ⟨hheap, hactive, fun when => ?_⟩
  rw [TimerQueue.mem_timers_iff htidy', TimerQueue.mem_timers_iff htidy, hheap, ht]
  refine exists_congr fun t' => and_congr_right fun ht' => and_congr_left fun _ => ?_
  obtain rfl := Option.some.inj ht'
  rw [hid]
  exact hactive

/-- At the end of a read a timer of the batch is put back if it repeats and no callback has
cancelled it, and deleted otherwise. -/
theorem endRead_back (hi : s.Inv) (hs : Step build V s .endRead t) (hm : id ∈ s.taken) :
    ∃ tm, s.sys.queue.heap id.1 = some tm ∧ tm.sequence = id.2 ∧
      if tm.repeats = true ∧ id ∉ s.cancelled then t.InSets id else ¬ t.sys.Live id := by
  have hit := inv_step hs hi
  have hcancel := hi.cancels id hm
  obtain ⟨e, he, tm, htm, rfl, -⟩ := hi.mem_taken hm
  refine ⟨tm, htm, rfl, ?_⟩
  cases hs with
  | endRead hs =>
    cases hs with
    | @endRead now expired q hb hq =>
      have hnd := hi.placed.tidy.nodup
      simp only [TimerSystem.inBatch, hb] at he hnd
      obtain ⟨tm', htm', hafter⟩ := (TimerQueue.endRead_each hnd hq).2.2 e he
      obtain rfl : tm = tm' := Option.some.inj (htm.symm.trans htm')
      simp only [hcancel] at hafter
      split_ifs at hafter ⊢ with hback
      · refine (hit.place ⟨tm.restart V now, hafter, rfl⟩).resolve_right fun hin => ?_
        exact List.not_mem_nil hin.2.1
      · rintro ⟨t', ht', -⟩
        simp [hafter] at ht'

theorem linear_of_inv (hi : s.Inv) : Linear build V s where
  place id _ := by
    by_cases hl : s.sys.Live id
    · exact (hi.place hl).imp_right .inl
    · exact .inr (.inr (hi.deleted hl))
  once a t hs id hid := dead_step hi hs hid
  add timer when interval u hs := by
    have htidy := TimerSystem.tidy_step hs hi.placed.tidy
    cases hs with
    | new =>
      obtain ⟨q, hq, -⟩ := TimerQueue.addTimerInLoop_grows htidy (Finset.mem_insert_self _ _)
      obtain ⟨-, -, hheap, -⟩ := TimerQueue.addTimerInLoop_ok hq
      exact ⟨q, _, hq, (congrFun hheap timer).trans (Function.update_self _ _ _), rfl⟩
  cancel timerId := by
    obtain ⟨q, hq, -, hout⟩ := TimerQueue.cancelInLoop_shrinks hi.placed.tidy timerId
    refine ⟨q, hq, fun hn => ?_, fun id hne hl => cancel_others hi hq hne hl⟩
    have hm : timerId ∉ s.sys.queue.activeTimers := (hi.deleted hn).2.2
    obtain ⟨-, ⟨hin, -⟩ | ⟨-, -, hheap, -⟩ | ⟨-, -, rfl⟩⟩ := TimerQueue.cancelInLoop_ok hq
    · exact absurd hin hm
    · exact ⟨hheap, hout hm⟩
    · exact ⟨rfl, rfl, rfl⟩
  read hb := by
    have htidy := hi.placed.tidy
    rw [TimerSystem.inBatch, hb] at htidy
    obtain ⟨q, E, hq, -⟩ := TimerQueue.beginRead_shrinks htidy
    exact ⟨(q, E), hq⟩
  run timer t hs := by
    cases hs with
    | run hs =>
      cases hs with
      | @run now expired rest it hb =>
        have hm := hi.placed.rest it.timer (by simp [TimerSystem.toRun, hb])
        obtain ⟨e, he, heq⟩ := List.mem_map.mp hm
        obtain ⟨tm, htm, -⟩ := hi.placed.tidy.batch e he
        refine ⟨tm, heq ▸ htm, hi.taken ▸ List.mem_map.mpr ⟨e, he, ?_⟩⟩
        rw [TimerQueue.activeOf_eq htm, heq]
  reset b hb := by
    have htidy := hi.placed.tidy
    have htaken := hi.taken
    simp only [TimerSystem.inBatch, hb] at htidy htaken
    exact ⟨htaken, TimerQueue.endRead_returns htidy⟩
  back t hs id hm := endRead_back hi hs hm

/-- Whatever addresses the allocator gives out again and whatever the callbacks add and cancel, a
timer is in the sets, in the batch or deleted, is called only from the batch, and is deleted
once; an id whose timer is gone has no effect. -/
theorem timers_linear {h : List (Label I)} (he : (system build V).Exec h s) : Linear build V s :=
  linear_of_inv (inv_exec he)

open TimerSystem (microseconds)

theorem exec_step {s t : TimerLife Int} {a : Label Int} {h : List (Label Int)}
    (he : (system .debug microseconds).Exec h s) (hs : Step .debug microseconds s a t) :
    (system .debug microseconds).Exec (h ++ [a]) t :=
  he.snoc hs

/-- A repeating timer has expired. -/
def expired : TimerSystem Int :=
  { TimerSystem.start Int 1000 with
    queue := { (TimerSystem.start Int 1000).queue with
      heap := Function.update (fun _ => none) 16 (some (.new microseconds 500 7 1))
      callingExpiredTimers := true
      timerfd := .armed 1100
      lastReset := 1000 }
    created := 1
    batch := some ⟨1000, [Entry.mk 500 16], [Entry.mk 500 16]⟩ }

theorem beginRead_expired : TimerQueue.beginRead .debug { expired.queue with
    timers := {Entry.mk 500 16}, activeTimers := {(16, 1)}, callingExpiredTimers := false } 1000 =
    .ok (expired.queue, [Entry.mk 500 16]) := by
  have hfilter : ({Entry.mk 500 16} : Finset Entry).filter (· < Entry.mk 1000 UINTPTR_MAX) =
      {Entry.mk 500 16} := by decide
  rw [TimerQueue.beginRead, TimerQueue.getExpired]
  dsimp only
  rw [hfilter, Finset.sort_singleton]
  rfl

theorem expired_exec :
    ∃ h, (system .debug microseconds).Exec h ⟨expired, [(16, 1)], [(16, 1)], []⟩ := by
  have e₀ : (system .debug microseconds).Exec [] ⟨.start Int 1000, [], [], []⟩ :=
    .start ⟨1000, rfl⟩
  have e₁ := exec_step e₀ (a := .addTimer 16 500 7)
    (.addTimer (.new rfl (by decide)) (.addTimerInLoop (by decide) rfl))
  have e₂ := exec_step e₁ (a := .beginRead) (.beginRead (.beginRead rfl beginRead_expired))
  exact ⟨_, e₂⟩

/-- It cancels itself; its address is given out again, and the old id cancelled once more. -/
theorem timers_linear_reused : ∃ h s, (system .debug microseconds).Exec h s ∧
    s.issued = [(16, 2), (16, 1)] ∧ s.Deleted (16, 1) ∧ s.InSets (16, 2) ∧
    Linear .debug microseconds s := by
  obtain ⟨h, e₂⟩ := expired_exec
  have e₃ := exec_step e₂ (a := .run (Entry.mk 500 16).timer) (.run (.run rfl))
  have e₄ := exec_step e₃ (a := .cancel (16, 1)) (.cancel (.cancelInLoop rfl))
  have e₅ := exec_step e₄ (a := .endRead) (.endRead (.endRead rfl rfl))
  have e₆ := exec_step e₅ (a := .addTimer 16 5000 0)
    (.addTimer (.new rfl (by decide)) (.addTimerInLoop (by decide) rfl))
  have e₇ := exec_step e₆ (a := .cancel (16, 1)) (.cancel (.cancelInLoop rfl))
  refine ⟨_, _, e₇, rfl, ?_, ?_, timers_linear e₇⟩
  · refine ⟨?_, List.not_mem_nil, by decide⟩
    rintro ⟨tm, htm, hseq⟩
    obtain rfl : Timer.new microseconds 5000 0 2 = tm := Option.some.inj htm
    cases hseq
  · exact ⟨⟨.new microseconds 5000 0 2, rfl, rfl, by decide⟩, by decide, List.not_mem_nil⟩

end TimerLife

end Lute
