import Lute.Lib.Trace
import Lute.Polaris.TimerInvariant

/-! Runs of a timer queue against the clock: the timerfd is never left disarmed under a timer. -/
namespace Lute

variable {I : Type} {build : Build} {V : Intervals I}

/-- A `handleRead` under way: the time it began, what had expired, and what of it is still to be
called. -/
structure Batch where
  now : Int
  expired : List Entry
  rest : List Entry
  deriving DecidableEq

/-- `pending` are the timers allocated by `addTimer` whose `addTimerInLoop` has not run yet. -/
structure TimerSystem (I : Type) where
  queue : TimerQueue I
  clock : Int
  created : Nat
  pending : Finset Nat
  batch : Option Batch

namespace TimerSystem

inductive Label (I : Type)
  | tick (clock : Int)
  | fire
  | new (timer : Nat) (when : Int) (interval : I)
  | addTimerInLoop (timer : Nat)
  | cancelInLoop (timerId : Nat × Nat)
  | beginRead
  | run (timer : Nat)
  | endRead

/-- Timer callbacks call `addTimer` and `cancel` in the loop thread, so that `addTimerInLoop` and
`cancelInLoop` may come between `beginRead` and `endRead` as well as outside. -/
inductive Step (build : Build) (V : Intervals I) : TimerSystem I → Label I → TimerSystem I → Prop
  | tick {s : TimerSystem I} {clock : Int} (hle : s.clock ≤ clock) :
      Step build V s (.tick clock) { s with clock }
  | fire {s : TimerSystem I} {d : Int} (hfd : s.queue.timerfd = .armed d) (hle : d ≤ s.clock) :
      Step build V s .fire { s with queue := { s.queue with timerfd := .fired d } }
  | new {s : TimerSystem I} {timer : Nat} {when : Int} {interval : I}
      (hfree : s.queue.heap timer = none) (hlt : timer < UINTPTR_MAX) :
      Step build V s (.new timer when interval)
        { s with
          queue := { s.queue with
            heap := Function.update s.queue.heap timer
              (some (.new V when interval (s.created + 1))) }
          created := s.created + 1
          pending := Insert.insert timer s.pending }
  | addTimerInLoop {s : TimerSystem I} {timer : Nat} {q : TimerQueue I} (hp : timer ∈ s.pending)
      (hq : s.queue.addTimerInLoop build s.clock timer = .ok q) :
      Step build V s (.addTimerInLoop timer)
        { s with queue := q, pending := s.pending.erase timer }
  | cancelInLoop {s : TimerSystem I} {timerId : Nat × Nat} {q : TimerQueue I}
      (hq : s.queue.cancelInLoop build timerId = .ok q) :
      Step build V s (.cancelInLoop timerId) { s with queue := q }
  | beginRead {s : TimerSystem I} {q : TimerQueue I} {expired : List Entry} (hb : s.batch = none)
      (hq : s.queue.beginRead build s.clock = .ok (q, expired)) :
      Step build V s .beginRead
        { s with queue := q, batch := some ⟨s.clock, expired, expired⟩ }
  | run {s : TimerSystem I} {now : Int} {expired rest : List Entry} {it : Entry}
      (hb : s.batch = some ⟨now, expired, it :: rest⟩) :
      Step build V s (.run it.timer) { s with batch := some ⟨now, expired, rest⟩ }
  | endRead {s : TimerSystem I} {now : Int} {expired : List Entry} {q : TimerQueue I}
      (hb : s.batch = some ⟨now, expired, []⟩)
      (hq : s.queue.endRead build V expired now s.clock = .ok q) :
      Step build V s .endRead { s with queue := q, batch := none }

/-- The clock is positive and all times stay within `2 ^ 62` microseconds of zero. -/
structure InRange (s : TimerSystem I) : Prop where
  positive : 0 < s.clock
  clock_le : s.clock ≤ 2 ^ 62
  timers : ∀ a t, s.queue.heap a = some t → -2 ^ 62 ≤ t.expiration ∧ t.expiration ≤ 2 ^ 62

/-- As constructed: no timers, the timerfd not armed. -/
def start (I : Type) (clock : Int) : TimerSystem I where
  queue := ⟨fun _ => none, ∅, ∅, false, ∅, .disarmed, 0⟩
  clock
  created := 0
  pending := ∅
  batch := none

def system (build : Build) (V : Intervals I) : Trace.LTS (TimerSystem I) (Label I) where
  init s := (∃ clock, s = start I clock) ∧ s.InRange
  step s a t := Step build V s a t ∧ t.InRange

end TimerSystem

theorem howMuchTimeFromNow_ne_zero (now when : Int) : howMuchTimeFromNow now when ≠ ⟨0, 0⟩ := by
  intro h
  simp only [howMuchTimeFromNow, Timespec.mk.injEq] at h
  split_ifs at h <;> omega

/-- Without overflow the deadline is the expiration, but at least 100 microseconds away. -/
theorem settime_howMuchTimeFromNow {now when : Int} (hpos : 0 < now) (hnow : now ≤ 2 ^ 62)
    (hlo : -2 ^ 62 ≤ when) (hhi : when ≤ 2 ^ 62) :
    Timerfd.settime now (howMuchTimeFromNow now when) = .armed (max when (now + 100)) := by
  have hb : Int.bmod (when - now) (2 ^ 64) = when - now :=
    Int.bmod_eq_of_le (by omega) (by omega)
  rw [Timerfd.settime, if_neg (howMuchTimeFromNow_ne_zero now when)]
  simp only [howMuchTimeFromNow, hb, Timerfd.armed.injEq]
  split_ifs <;> omega

theorem Timerfd.Due.unique {fd : Timerfd} {d d' : Int} (h : fd.Due d) (h' : fd.Due d') :
    d = d' := by
  rcases h with rfl | rfl <;> rcases h' with h | h <;> cases h <;> rfl

/-- The timerfd is due by `when`, or by 100 microseconds after it was last set. -/
def TimerQueue.CoveredBy (q : TimerQueue I) (when : Int) : Prop :=
  ∃ d, q.timerfd.Due d ∧ d ≤ max when (q.lastReset + 100)

theorem TimerQueue.CoveredBy.mono {q q' : TimerQueue I} {when when' : Int} (h : q.CoveredBy when)
    (hfd : q'.timerfd = q.timerfd) (hlast : q'.lastReset = q.lastReset) (hle : when ≤ when') :
    q'.CoveredBy when' := by
  obtain ⟨d, hd, hdle⟩ := h
  refine ⟨d, by rwa [hfd], ?_⟩
  rw [hlast]
  omega

namespace TimerSystem

variable {s t : TimerSystem I} {a : Label I}

def inBatch (s : TimerSystem I) : List Entry := (s.batch.map Batch.expired).getD []

/-- Between reads every entry is covered. During the callbacks of a read only those that are no
valid time need be: they have been added since the timerfd was read, and `reset` passes over
them. -/
structure Inv (V : Intervals I) (s : TimerSystem I) : Prop where
  tidy : Tidy s.queue s.inBatch s.pending
  repeats : RepeatsBy V s.queue
  range : s.InRange
  began : ∀ b, s.batch = some b → 0 < b.now
  covered : ∀ e ∈ s.queue.timers, s.batch = none ∨ e.when ≤ 0 → s.queue.CoveredBy e.when

theorem coveredBy_resetTimerfd {q : TimerQueue I} {now when when' : Int} (hpos : 0 < now)
    (hnow : now ≤ 2 ^ 62) (hw : -2 ^ 62 ≤ when ∧ when ≤ 2 ^ 62) (hle : when ≤ when') :
    (q.resetTimerfd now when).CoveredBy when' := by
  refine ⟨max when (now + 100), .inl (settime_howMuchTimeFromNow hpos hnow hw.1 hw.2), ?_⟩
  change max when (now + 100) ≤ max when' (now + 100)
  omega

/-- Entering a timer re-arms for it when it comes first; otherwise an earlier one is covered. -/
theorem covered_addTimerInLoop {timer : Nat} {q : TimerQueue I} (hi : s.Inv V)
    (hp : timer ∈ s.pending) (hq : s.queue.addTimerInLoop build s.clock timer = .ok q) :
    q.heap = s.queue.heap ∧
      ∀ e ∈ q.timers, s.batch = none ∨ e.when ≤ 0 → q.CoveredBy e.when := by
  obtain ⟨hB, t, ht, hn⟩ := hi.tidy.fresh timer hp
  obtain ⟨q', hq', hcase⟩ := TimerQueue.addTimerInLoop_spec build s.clock hi.tidy ht hn hB
  obtain rfl : q' = q := by simpa [hq'] using hq
  rcases hcase with ⟨hfirst, rfl⟩ | ⟨⟨e₀, he₀, hle₀⟩, rfl⟩
  · refine ⟨rfl, fun e he _ => ?_⟩
    refine coveredBy_resetTimerfd hi.range.positive hi.range.clock_le (hi.range.timers _ _ ht) ?_
    rcases Finset.mem_insert.mp he with rfl | he
    · exact le_rfl
    · exact (hfirst e he).le
  · refine ⟨rfl, fun e he hneed => ?_⟩
    rcases Finset.mem_insert.mp he with rfl | he
    · have hneed₀ : s.batch = none ∨ e₀.when ≤ 0 := hneed.imp_right hle₀.trans
      exact (hi.covered e₀ he₀ hneed₀).mono rfl rfl hle₀
    · exact (hi.covered e he hneed).mono rfl rfl le_rfl

theorem tidy_step (hs : Step build V s a t) (h : Tidy s.queue s.inBatch s.pending) :
    Tidy t.queue t.inBatch t.pending := by
  cases hs with
  | tick => exact h
  | fire => exact h.congr rfl rfl rfl
  | new hfree hlt => exact h.alloc hfree hlt _
  | @addTimerInLoop timer q hp hq =>
    obtain ⟨hB, t, ht, hn⟩ := h.fresh timer hp
    have htidy := h.insert ht hB
    obtain ⟨q', hq', hcase⟩ := TimerQueue.addTimerInLoop_spec build s.clock h ht hn hB
    obtain rfl : q' = q := by simpa [hq'] using hq
    rcases hcase with ⟨-, rfl⟩ | ⟨-, rfl⟩
    · exact htidy.congr rfl rfl rfl
    · exact htidy
  | @cancelInLoop timerId q hq =>
    obtain ⟨q', hq', htidy, -⟩ := TimerQueue.cancelInLoop_spec build h timerId
    obtain rfl : q' = q := by simpa [hq'] using hq
    exact htidy
  | @beginRead q expired hb hq =>
    rw [inBatch, hb] at h
    obtain ⟨q', E, hq', htidy, -⟩ := TimerQueue.beginRead_spec build h s.clock
    obtain ⟨rfl, rfl⟩ : q' = q ∧ E = expired := by simpa [hq'] using hq
    exact htidy
  | run hb =>
    rw [inBatch, hb] at h
    exact h
  | endRead hb hq =>
    rw [inBatch, hb] at h
    exact TimerQueue.endRead_tidy build h hq

/-- What a read leaves in the set lies in the future, so it is a valid time. -/
theorem inv_beginRead {q : TimerQueue I} {expired : List Entry} (hi : s.Inv V)
    (hb : s.batch = none) (hq : s.queue.beginRead build s.clock = .ok (q, expired))
    (hr : InRange { s with queue := q, batch := some ⟨s.clock, expired, expired⟩ }) :
    Inv V { s with queue := q, batch := some ⟨s.clock, expired, expired⟩ } := by
  have h := hi.tidy
  rw [inBatch, hb] at h
  obtain ⟨q', E, hq', htidy, hrest, -, hheap⟩ := TimerQueue.beginRead_spec build h s.clock
  obtain ⟨rfl, rfl⟩ : q' = q ∧ E = expired := by simpa [hq'] using hq
  have hpos := hi.range.positive
  refine ⟨htidy, fun a t ht => hi.repeats a t (hheap ▸ ht), hr, fun b hb' => ?_,
    fun e he hneed => ?_⟩
  · obtain rfl := Option.some.inj hb'
    exact hpos
  · have hlt := ((hrest e).mp he).2
    rcases hneed with hneed | hneed
    · cases hneed
    · omega

/-- `reset` re-arms for the earliest entry, or passes over one that a callback of this read has
added, and that is covered. -/
theorem inv_endRead (hadd : ∀ now i, V.positive i = true → now ≤ V.addTime now i) {now : Int}
    {expired : List Entry} {q : TimerQueue I} (hi : s.Inv V)
    (hb : s.batch = some ⟨now, expired, []⟩)
    (hq : s.queue.endRead build V expired now s.clock = .ok q)
    (hr : InRange { s with queue := q, batch := none }) :
    Inv V { s with queue := q, batch := none } := by
  have h := hi.tidy
  rw [inBatch, hb] at h
  have htidy := TimerQueue.endRead_tidy build h hq
  have h₀ : Tidy { s.queue with callingExpiredTimers := false } expired s.pending :=
    h.congr rfl rfl rfl
  obtain ⟨q₁, q', -, hq', htidy₁, hrep, hsub, hfd, hlast, hcase⟩ :=
    TimerQueue.reset_spec build hadd now s.clock h₀ hi.repeats
  obtain rfl : q' = q := by
    rw [TimerQueue.endRead, hq'] at hq
    simpa using hq
  have hnow : 0 < now := hi.began _ hb
  rcases hcase with ⟨hempty, rfl⟩ | ⟨e₀, he₀, hmin, ⟨hpos, rfl⟩ | ⟨hle, rfl⟩⟩
  · refine ⟨htidy, hrep, hr, by simp, fun e he _ => ?_⟩
    simp [hempty] at he
  · refine ⟨htidy, hrep, hr, by simp, fun e he _ => ?_⟩
    obtain ⟨t, ht, hw, -⟩ := htidy₁.entries e₀ he₀
    exact coveredBy_resetTimerfd hi.range.positive hi.range.clock_le (hw ▸ hr.timers _ _ ht)
      (hmin e he)
  · refine ⟨htidy, hrep, hr, by simp, fun e he _ => ?_⟩
    have hmem : e₀ ∈ s.queue.timers := (hsub e₀ he₀).resolve_right (by omega)
    exact (hi.covered e₀ hmem (.inr hle)).mono hfd hlast (hmin e he)

theorem inv_step (hadd : ∀ now i, V.positive i = true → now ≤ V.addTime now i)
    (hs : Step build V s a t) (hr : t.InRange) (hi : s.Inv V) : t.Inv V := by
  have htidy := tidy_step hs hi.tidy
  cases hs with
  | tick => exact ⟨htidy, hi.repeats, hr, hi.began, hi.covered⟩
  | @fire d hfd hle =>
    refine ⟨htidy, hi.repeats, hr, hi.began, fun e he hneed => ?_⟩
    obtain ⟨d', hd', hle'⟩ := hi.covered e he hneed
    obtain rfl := hd'.unique (.inl hfd)
    exact ⟨d', .inr rfl, hle'⟩
  | @new timer when interval hfree hlt =>
    refine ⟨htidy, TimerQueue.repeatsBy_update hi.repeats ?_, hr, hi.began, hi.covered⟩
    intro t ht
    obtain rfl := Option.some.inj ht
    rfl
  | addTimerInLoop hp hq =>
    obtain ⟨hheap, hcov⟩ := covered_addTimerInLoop hi hp hq
    exact ⟨htidy, fun a t h => hi.repeats a t (hheap ▸ h), hr, hi.began, hcov⟩
  | @cancelInLoop timerId q hq =>
    obtain ⟨q', hq', -, hsub, hheap, hfd, hlast⟩ :=
      TimerQueue.cancelInLoop_spec build hi.tidy timerId
    obtain rfl : q' = q := by simpa [hq'] using hq
    exact ⟨htidy, fun a t h => hi.repeats a t (hheap a t h), hr, hi.began,
      fun e he hneed => (hi.covered e (hsub he) hneed).mono hfd hlast le_rfl⟩
  | beginRead hb hq => exact inv_beginRead hi hb hq hr
  | @run now expired rest it hb =>
    refine ⟨htidy, hi.repeats, hr, ?_, ?_⟩
    · intro b hb'
      obtain rfl := Option.some.inj hb'
      have hnow : 0 < now := hi.began _ hb
      exact hnow
    · intro e he hneed
      exact hi.covered e he (.inr (hneed.resolve_left (by simp)))
  | endRead hb hq => exact inv_endRead hadd hi hb hq hr

theorem tidy_start (clock : Int) :
    Tidy (start I clock).queue (start I clock).inBatch (start I clock).pending :=
  ⟨by simp [start], by simp [start], by simp [start, inBatch], by simp [start, inBatch],
    by simp [start], by simp [start]⟩

theorem inv_start {clock : Int} (hr : (start I clock).InRange) : (start I clock).Inv V where
  tidy := tidy_start clock
  repeats := by simp [RepeatsBy, start]
  range := hr
  began := by simp [start]
  covered := by simp [start]

theorem inv_exec (hadd : ∀ now i, V.positive i = true → now ≤ V.addTime now i)
    {h : List (Label I)} (he : (system build V).Exec h s) : s.Inv V := by
  induction he with
  | start hi =>
    obtain ⟨⟨clock, rfl⟩, hr⟩ := hi
    exact inv_start hr
  | snoc _ hs ih => exact inv_step hadd hs.1 hs.2 ih

/-- Between reads the timerfd is armed, or fired and unread, whenever there is a timer, and due by
the earliest expiration or 100 microseconds after it was last set; it is never set to zero. -/
theorem timerfd_never_lost (hadd : ∀ now i, V.positive i = true → now ≤ V.addTime now i)
    {h : List (Label I)} (he : (system build V).Exec h s) (hb : s.batch = none)
    (hne : s.queue.timers.Nonempty) :
    (∃ d, (s.queue.timerfd = .armed d ∨ s.queue.timerfd = .fired d) ∧
      d ≤ max (s.queue.timers.min' hne).when (s.queue.lastReset + 100)) ∧
    ∀ now when, howMuchTimeFromNow now when ≠ ⟨0, 0⟩ :=
  ⟨(inv_exec hadd he).covered _ (s.queue.timers.min'_mem hne) (.inl hb),
    howMuchTimeFromNow_ne_zero⟩

/-- Intervals in whole microseconds. -/
def microseconds : Intervals Int := ⟨fun i => decide (0 < i), fun now i => now + i⟩

theorem timerfd_never_lost_sample :
    ∃ h s, (system .debug microseconds).Exec h s ∧ s.batch = none ∧
      ∃ hne : s.queue.timers.Nonempty, ∃ d,
        (s.queue.timerfd = .armed d ∨ s.queue.timerfd = .fired d) ∧
          d ≤ max (s.queue.timers.min' hne).when (s.queue.lastReset + 100) := by
  have hadd : ∀ now i, microseconds.positive i = true → now ≤ microseconds.addTime now i := by
    intro now i hi
    have hpos : 0 < i := by simpa [microseconds] using hi
    simp only [microseconds]
    omega
  have e₀ : (system .debug microseconds).Exec [] (start Int 1000) :=
    .start ⟨⟨1000, rfl⟩, by decide, by decide, by simp [start]⟩
  have r₁ : InRange { start Int 1000 with
      queue := { (start Int 1000).queue with
        heap := Function.update (fun _ => none) 16 (some (.new microseconds 5000 0 1)) }
      created := 1
      pending := {16} } := by
    refine ⟨by decide, by decide, fun a t ht => ?_⟩
    by_cases ha : a = 16
    · obtain rfl : Timer.new microseconds 5000 0 1 = t := by simpa [ha] using ht
      decide
    · simp [ha] at ht
  have e₁ := e₀.snoc ⟨@Step.new Int .debug microseconds _ 16 5000 0 rfl (by decide), r₁⟩
  have hi := inv_exec hadd e₁
  obtain ⟨hB, t, ht, hn⟩ := hi.tidy.fresh 16 (by decide)
  obtain ⟨q, hq, hcase⟩ := TimerQueue.addTimerInLoop_spec .debug 1000 hi.tidy ht hn hB
  obtain ⟨hheap, hne⟩ : q.heap = Function.update (fun _ => none) 16
      (some (.new microseconds 5000 0 1)) ∧ q.timers.Nonempty := by
    rcases hcase with ⟨-, rfl⟩ | ⟨-, rfl⟩ <;> exact ⟨rfl, Finset.insert_nonempty _ _⟩
  have e₂ := e₁.snoc ⟨@Step.addTimerInLoop Int .debug microseconds _ 16 q (by decide) hq,
    ⟨r₁.positive, r₁.clock_le, fun a t h => r₁.timers a t (hheap ▸ h)⟩⟩
  exact ⟨_, _, e₂, rfl, hne, (timerfd_never_lost hadd e₂ rfl hne).1⟩

end TimerSystem

end Lute
