import Lute.Polaris.TimerLife
import Lute.Polaris.TimerCancel

/-! `addTimer` in another thread than the loop's: the timer is queued first, and its sequence number
read afterwards. -/
namespace Lute

variable {I : Type} {build : Build} {V : Intervals I}

/-- How far a thread is in `addTimer`. The timer is the one of the call, with the number it was
given. -/
inductive AddTimerPc
  | idle
  | allocated (id : Nat × Nat)
  | pushed (id : Nat × Nat)
  deriving DecidableEq, Repr

def AddTimerPc.timer? : AddTimerPc → Option (Nat × Nat)
  | .idle => none
  | .allocated id | .pushed id => some id

def TimerFunctor.added? : TimerFunctor → Option Nat
  | .addTimerInLoop timer => some timer
  | _ => none

/-- The timers that the functors will add. -/
def TimerFunctor.adds (fs : List TimerFunctor) : List Nat := fs.filterMap TimerFunctor.added?

/-- `returned` pairs the timers of the calls that have returned with the ids they returned. -/
structure AddTimerCalls (T I : Type) where
  timers : TimerSystem I
  loop : EventLoop TimerFunctor
  pc : T → AddTimerPc
  returned : List ((Nat × Nat) × (Nat × Nat))

namespace AddTimerCalls

open TimerFunctor (adds)

variable {T : Type}

inductive Label (T I : Type)
  | timers (a : TimerSystem.Label I)
  | move (m : EventLoop.Move TimerFunctor)
  | allocate (th : T) (timer : Nat) (when : Int) (interval : I)
  | push (th : T)
  | read (th : T) (timerId : Nat × Nat)
  | addTimer (timer : Nat) (when : Int) (interval : I)
  | cancel (th : Thread T) (id timerId : Nat × Nat)

/-- The clock, and what the loop thread does for a read. -/
def Internal (l : EventLoop TimerFunctor) : TimerSystem.Label I → Prop
  | .new _ _ _ | .addTimerInLoop _ | .cancelInLoop _ => False
  | .beginRead => l.phase = .dispatch
  | .tick _ | .fire | .run _ | .endRead => True

/-- What `timer->sequence()` is: arbitrary when there is no timer any more, and that of another one
when the address is in use again. -/
def Reads (s : TimerSystem I) (timerId : Nat × Nat) : Prop :=
  ∀ tm, s.queue.heap timerId.1 = some tm → timerId.2 = tm.sequence

/-- `cancel` gets what an `addTimer` has returned. In the loop thread `addTimer` is not interrupted
by other steps of that thread. -/
inductive Step [DecidableEq T] (build : Build) (V : Intervals I) :
    AddTimerCalls T I → Label T I → AddTimerCalls T I → Prop
  | timers {s : AddTimerCalls T I} {a : TimerSystem.Label I} {u : TimerSystem I}
      (ha : Internal s.loop a) (hs : TimerSystem.Step build V s.timers a u) :
      Step build V s (.timers a) { s with timers := u }
  | move {s : AddTimerCalls T I} {m : EventLoop.Move TimerFunctor} {l : EventLoop TimerFunctor}
      (hb : s.timers.batch = none) (hm : s.loop.move m = some l)
      (hrun : ∀ f, m = .run f → f = .callback) :
      Step build V s (.move m) { s with loop := l }
  | allocate {s : AddTimerCalls T I} {th : T} {timer : Nat} {when : Int} {interval : I}
      {u : TimerSystem I} (hpc : s.pc th = .idle)
      (hs : TimerSystem.Step build V s.timers (.new timer when interval) u) :
      Step build V s (.allocate th timer when interval)
        { s with
          timers := u
          pc := Function.update s.pc th (.allocated (timer, s.timers.created + 1)) }
  | push {s : AddTimerCalls T I} {th : T} {id : Nat × Nat} (hpc : s.pc th = .allocated id) :
      Step build V s (.push th)
        { s with
          loop := s.loop.queueInLoop false (.addTimerInLoop id.1)
          pc := Function.update s.pc th (.pushed id) }
  | runAdd {s : AddTimerCalls T I} {timer : Nat} {l : EventLoop TimerFunctor} {u : TimerSystem I}
      (hb : s.timers.batch = none) (hm : s.loop.move (.run (.addTimerInLoop timer)) = some l)
      (hs : TimerSystem.Step build V s.timers (.addTimerInLoop timer) u) :
      Step build V s (.move (.run (.addTimerInLoop timer))) { s with timers := u, loop := l }
  | read {s : AddTimerCalls T I} {th : T} {id timerId : Nat × Nat} (hpc : s.pc th = .pushed id)
      (htimer : timerId.1 = id.1) (hread : Reads s.timers timerId) :
      Step build V s (.read th timerId)
        { s with
          pc := Function.update s.pc th .idle
          returned := (id, timerId) :: s.returned }
  | addTimer {s : AddTimerCalls T I} {timer : Nat} {when : Int} {interval : I}
      {u v : TimerSystem I} {timerId : Nat × Nat}
      (hn : TimerSystem.Step build V s.timers (.new timer when interval) u)
      (ha : TimerSystem.Step build V u (.addTimerInLoop timer) v)
      (htimer : timerId.1 = timer) (hread : Reads v timerId) :
      Step build V s (.addTimer timer when interval)
        { s with
          timers := v
          returned := ((timer, s.timers.created + 1), timerId) :: s.returned }
  | cancelHere {s : AddTimerCalls T I} {id timerId : Nat × Nat} {u : TimerSystem I}
      (hid : (id, timerId) ∈ s.returned)
      (hs : TimerSystem.Step build V s.timers (.cancelInLoop timerId) u) :
      Step build V s (.cancel .loop id timerId) { s with timers := u }
  | cancelQueue {s : AddTimerCalls T I} {th : T} {id timerId : Nat × Nat}
      (hpc : s.pc th = .idle) (hid : (id, timerId) ∈ s.returned) :
      Step build V s (.cancel (.other th) id timerId)
        { s with loop := s.loop.queueInLoop false (.cancelInLoop id timerId) }
  | runCancel {s : AddTimerCalls T I} {id timerId : Nat × Nat} {l : EventLoop TimerFunctor}
      {u : TimerSystem I} (hb : s.timers.batch = none)
      (hm : s.loop.move (.run (.cancelInLoop id timerId)) = some l)
      (hs : TimerSystem.Step build V s.timers (.cancelInLoop timerId) u) :
      Step build V s (.move (.run (.cancelInLoop id timerId))) { s with timers := u, loop := l }

def start (T I : Type) (clock : Int) : AddTimerCalls T I :=
  ⟨.start I clock, .enter 0, fun _ => .idle, []⟩

def system (T : Type) [DecidableEq T] (build : Build) (V : Intervals I) :
    Trace.LTS (AddTimerCalls T I) (Label T I) where
  init s := ∃ clock, s = start T I clock
  step := Step build V

/-- A call that has still to read the sequence number finds its timer, and what the calls have
returned is the id of their timer. -/
structure Sound (s : AddTimerCalls T I) : Prop where
  live : ∀ th id, s.pc th = .pushed id → s.timers.Live id
  ids : ∀ r ∈ s.returned, r.2 = r.1

/-- The end of a read finds in its batch no timer that is called once and whose call has queued it
without having read its number. -/
def Spares (s : AddTimerCalls T I) : Label T I → Prop
  | .timers .endRead => ∀ th id tm, s.pc th = .pushed id → s.timers.queue.heap id.1 = some tm →
      id.1 ∈ s.timers.inBatch.map Entry.timer → tm.repeats = true
  | _ => True

end AddTimerCalls

namespace TimerSystem

variable {s t : TimerSystem I} {a : Label I} {id : Nat × Nat}

/-- At the end of a read a live timer is kept unless it is in the batch, and either does not repeat
or has been cancelled. -/
theorem live_endRead_iff (hs : Step build V s .endRead t) (hp : s.Placed) {tm : Timer I}
    (htm : s.queue.heap id.1 = some tm) (hseq : tm.sequence = id.2) :
    t.Live id ↔ (id.1 ∈ s.inBatch.map Entry.timer →
      tm.repeats = true ∧ id ∉ s.queue.cancelingTimers) := by
  obtain ⟨timer, sequence⟩ := id
  obtain rfl : tm.sequence = sequence := hseq
  dsimp only at htm ⊢
  cases hs with
  | @endRead now expired q hb hq =>
    have hnd := hp.tidy.nodup
    have hin : s.inBatch = expired := by rw [inBatch, hb]; rfl
    rw [hin] at hnd ⊢
    obtain ⟨-, hothers, heach⟩ := TimerQueue.endRead_each hnd hq
    by_cases hm : timer ∈ expired.map Entry.timer
    · obtain ⟨e, he, heq⟩ := List.mem_map.mp hm
      obtain ⟨tm', htm', hafter⟩ := heach e he
      rw [heq] at htm' hafter
      obtain rfl : tm = tm' := Option.some.inj (htm.symm.trans htm')
      rw [imp_iff_right hm]
      split_ifs at hafter with hback
      · exact iff_of_true ⟨_, hafter, rfl⟩ hback
      · refine iff_of_false ?_ hback
        rintro ⟨tm', htm', -⟩
        simp [hafter] at htm'
    · refine iff_of_true ⟨tm, ?_, rfl⟩ fun hm' => absurd hm' hm
      exact (hothers timer hm).trans htm

/-- A live timer is deleted by its own `cancelInLoop` and at the end of a read, and by nothing
else. -/
theorem live_step (hs : Step build V s a t) (hp : s.Placed) (hl : s.Live id)
    (hcancel : a = .cancelInLoop id → id ∉ s.queue.activeTimers)
    (hread : a = .endRead → id.1 ∈ s.inBatch.map Entry.timer →
      id ∉ s.queue.cancelingTimers ∧
        ∀ tm, s.queue.heap id.1 = some tm → tm.repeats = true) : t.Live id := by
  obtain ⟨tm, htm, hseq⟩ := hl
  cases hs with
  | tick | fire | run => exact ⟨tm, htm, hseq⟩
  | @new timer when interval hfree =>
    have hne : id.1 ≠ timer := by
      rintro rfl
      simp [hfree] at htm
    exact ⟨tm, (Function.update_of_ne hne _ _).trans htm, hseq⟩
  | addTimerInLoop _ hq =>
    obtain ⟨-, -, hheap, -⟩ := TimerQueue.addTimerInLoop_ok hq
    exact ⟨tm, hheap ▸ htm, hseq⟩
  | @cancelInLoop timerId q hq =>
    refine ⟨tm, (TimerQueue.cancelInLoop_heap hq hp.tidy htm fun hm heq => ?_).trans htm, hseq⟩
    obtain rfl : id = timerId := by rw [← heq, hseq]
    exact hcancel rfl hm
  | beginRead _ hq =>
    obtain ⟨hheap, -⟩ := TimerQueue.beginRead_ok hq
    exact ⟨tm, hheap ▸ htm, hseq⟩
  | endRead hb hq =>
    refine (live_endRead_iff (.endRead hb hq) hp htm hseq).mpr fun hm => ?_
    obtain ⟨hn, hrep⟩ := hread rfl hm
    exact ⟨hrep tm htm, hn⟩

/-- A timer that waits to be added is not deleted. -/
theorem live_pending (hs : Step build V s a t) (hp : s.Placed) (hl : s.Live id)
    (hm : id.1 ∈ s.pending) : t.Live id := by
  obtain ⟨hb, tm, htm, hn⟩ := hp.tidy.fresh id.1 hm
  refine live_step hs hp hl (fun _ hactive => ?_) fun _ hin => absurd hin hb
  obtain ⟨tm', htm', hseq⟩ := hl
  obtain rfl : tm = tm' := Option.some.inj (htm.symm.trans htm')
  rw [hseq] at hn
  exact hn hactive

theorem Live.unique {id' : Nat × Nat} (h : s.Live id) (h' : s.Live id') (heq : id.1 = id'.1) :
    id = id' := by
  obtain ⟨tm, htm, hseq⟩ := h
  obtain ⟨tm', htm', hseq'⟩ := h'
  rw [heq] at htm
  obtain rfl : tm = tm' := Option.some.inj (htm.symm.trans htm')
  exact Prod.ext heq (hseq.symm.trans hseq')

theorem pending_live (hp : s.Placed) {timer : Nat} (hm : timer ∈ s.pending) :
    s.queue.heap timer ≠ none := by
  obtain ⟨-, tm, htm, -⟩ := hp.tidy.fresh timer hm
  simp [htm]

end TimerSystem

namespace AddTimerCalls

open TimerFunctor (adds)

variable {T : Type} {s t : AddTimerCalls T I} {a : Label T I} {h : List (Label T I)}

/-- Its functor waits in the queue, or the thread has still to queue it. -/
def Awaited (s : AddTimerCalls T I) (timer : Nat) : Prop :=
  timer ∈ adds s.loop.waiting ∨ ∃ th id, s.pc th = .allocated id ∧ id.1 = timer

structure Inv (s : AddTimerCalls T I) : Prop where
  placed : s.timers.Placed
  settled : s.loop.Settled
  once : (adds s.loop.waiting).Nodup
  allocated : ∀ th id, s.pc th = .allocated id → s.timers.Live id ∧ id.1 ∉ adds s.loop.waiting
  awaited : ∀ timer, s.Awaited timer → timer ∈ s.timers.pending
  numbered : ∀ th id, (s.pc th).timer? = some id → id.2 ≤ s.timers.created
  distinct : ∀ th th' id, (s.pc th).timer? = some id → (s.pc th').timer? = some id → th = th'
  returned : ∀ r ∈ s.returned, r.1.2 ≤ s.timers.created ∧ ∀ th, (s.pc th).timer? ≠ some r.1
  queued : ∀ id timerId, .cancelInLoop id timerId ∈ s.loop.waiting → (id, timerId) ∈ s.returned
  canceling : ∀ x ∈ s.timers.queue.cancelingTimers, ∃ r ∈ s.returned, r.2 = x

/-- A step of the timers that keeps those that wait to be added. -/
theorem inv_timers {b : TimerSystem.Label I} {u : TimerSystem I} (hi : s.Inv)
    (hs : TimerSystem.Step build V s.timers b u)
    (hpending : ∀ timer ∈ s.timers.pending, s.Awaited timer → timer ∈ u.pending)
    (hcancel : ∀ x ∈ u.queue.cancelingTimers, ∃ r ∈ s.returned, r.2 = x) :
    Inv { s with timers := u } where
  placed := TimerSystem.placed_step hs hi.placed
  settled := hi.settled
  once := hi.once
  allocated th id hpc := by
    obtain ⟨hl, hn⟩ := hi.allocated th id hpc
    have hm : id.1 ∈ s.timers.pending := hi.awaited _ (.inr ⟨th, id, hpc, rfl⟩)
    exact ⟨TimerSystem.live_pending hs hi.placed hl hm, hn⟩
  awaited timer hw := hpending timer (hi.awaited timer hw) hw
  numbered th id hid := (hi.numbered th id hid).trans (TimerSystem.created_step hs)
  distinct := hi.distinct
  returned r hr :=
    ⟨(hi.returned r hr).1.trans (TimerSystem.created_step hs), (hi.returned r hr).2⟩
  queued := hi.queued
  canceling := hcancel

/-- A change of the queue that adds no timer. -/
theorem inv_loop {l : EventLoop TimerFunctor} (hi : s.Inv) (hl : l.Settled)
    (hadds : (adds l.waiting).Sublist (adds s.loop.waiting))
    (hq : ∀ id timerId, .cancelInLoop id timerId ∈ l.waiting → (id, timerId) ∈ s.returned) :
    Inv { s with loop := l } where
  placed := hi.placed
  settled := hl
  once := hi.once.sublist hadds
  allocated th id hpc :=
    ⟨(hi.allocated th id hpc).1, fun hm => (hi.allocated th id hpc).2 (hadds.subset hm)⟩
  awaited timer hw := hi.awaited timer (hw.imp_left fun hm => hadds.subset hm)
  numbered := hi.numbered
  distinct := hi.distinct
  returned := hi.returned
  queued := hq
  canceling := hi.canceling

theorem inv_move {m : EventLoop.Move TimerFunctor} {l : EventLoop TimerFunctor} (hi : s.Inv)
    (hm : s.loop.move m = some l) : Inv { s with loop := l } := by
  have hsub : l.waiting.Sublist s.loop.waiting := by
    rcases EventLoop.move_waiting hm hi.settled with ⟨f, -, hw⟩ | ⟨-, hw⟩
    · rw [hw]
      exact List.sublist_cons_self _ _
    · rw [hw]
  exact inv_loop hi (EventLoop.move_settled hm hi.settled) (hsub.filterMap _)
    fun id timerId hq => hi.queued id timerId (hsub.subset hq)

theorem returned_of_run {id timerId : Nat × Nat} {l : EventLoop TimerFunctor} (hi : s.Inv)
    (hm : s.loop.move (.run (.cancelInLoop id timerId)) = some l) : (id, timerId) ∈ s.returned := by
  refine hi.queued id timerId ?_
  rw [EventLoop.waiting_run hm hi.settled]
  exact List.mem_cons_self

/-- The ids that `cancelInLoop` notes are those it gets. -/
theorem inv_cancelInLoop {id timerId : Nat × Nat} {u : TimerSystem I} (hi : s.Inv)
    (hid : (id, timerId) ∈ s.returned)
    (hs : TimerSystem.Step build V s.timers (.cancelInLoop timerId) u) :
    Inv { s with timers := u } := by
  refine inv_timers hi hs (fun timer hm _ => ?_) fun x hx => ?_
  · cases hs
    exact hm
  · cases hs with
    | cancelInLoop hq =>
      obtain ⟨-, ⟨-, -, -, hc⟩ | ⟨-, -, -, -, hc⟩ | ⟨-, -, rfl⟩⟩ := TimerQueue.cancelInLoop_ok hq
      · exact hi.canceling x (hc ▸ hx)
      · rcases Finset.mem_insert.mp (hc ▸ hx) with rfl | hx
        · exact ⟨_, hid, rfl⟩
        · exact hi.canceling x hx
      · exact hi.canceling x hx

/-- A timer is added that nothing else is to add. -/
theorem inv_addTimerInLoop {timer : Nat} {u : TimerSystem I} (hi : s.Inv)
    (hn : ¬ s.Awaited timer)
    (hs : TimerSystem.Step build V s.timers (.addTimerInLoop timer) u) :
    Inv { s with timers := u } := by
  refine inv_timers hi hs (fun other hm hw => ?_) ?_
  · cases hs with
    | addTimerInLoop =>
      refine Finset.mem_erase.mpr ⟨?_, hm⟩
      rintro rfl
      exact hn hw
  · cases hs with
    | addTimerInLoop _ hq =>
      obtain ⟨-, -, -, -, hc, -⟩ := TimerQueue.addTimerInLoop_ok hq
      intro x hx
      exact hi.canceling x (hc ▸ hx)

theorem inv_runAdd {timer : Nat} {l : EventLoop TimerFunctor} {u : TimerSystem I} (hi : s.Inv)
    (hm : s.loop.move (.run (.addTimerInLoop timer)) = some l)
    (hs : TimerSystem.Step build V s.timers (.addTimerInLoop timer) u) :
    Inv { s with timers := u, loop := l } := by
  have hadds : adds s.loop.waiting = timer :: adds l.waiting := by
    rw [EventLoop.waiting_run hm hi.settled]
    rfl
  have hone := hi.once
  rw [hadds, List.nodup_cons] at hone
  refine inv_addTimerInLoop (inv_move hi hm) ?_ hs
  rintro (hw | ⟨th, id, hpc, rfl⟩)
  · exact hone.1 hw
  · refine (hi.allocated th id hpc).2 ?_
    rw [hadds]
    exact List.mem_cons_self

theorem inv_new {timer : Nat} {when : Int} {interval : I} {u : TimerSystem I} (hi : s.Inv)
    (hs : TimerSystem.Step build V s.timers (.new timer when interval) u) :
    Inv { s with timers := u } := by
  refine inv_timers hi hs (fun other hm _ => ?_) ?_
  · cases hs
    exact Finset.mem_insert_of_mem hm
  · cases hs
    exact hi.canceling

/-- A new timer has an address that no functor knows, and a number that no call has. -/
theorem new_unknown {timer : Nat} {when : Int} {interval : I} {u : TimerSystem I} (hi : s.Inv)
    (hs : TimerSystem.Step build V s.timers (.new timer when interval) u) :
    u.Live (timer, s.timers.created + 1) ∧ timer ∈ u.pending ∧
      u.created = s.timers.created + 1 ∧ (¬ s.Awaited timer) ∧
      ∀ th, (s.pc th).timer? ≠ some (timer, s.timers.created + 1) := by
  cases hs with
  | new hfree =>
    refine ⟨⟨_, Function.update_self _ _ _, rfl⟩, Finset.mem_insert_self _ _, rfl, fun hw => ?_,
      fun th heq => ?_⟩
    · exact TimerSystem.pending_live hi.placed (hi.awaited timer hw) hfree
    · have hle : s.timers.created + 1 ≤ s.timers.created := hi.numbered th _ heq
      omega

section
variable [DecidableEq T] {th : T} {id timerId : Nat × Nat}

theorem of_update {pc : T → AddTimerPc} {p q : AddTimerPc} {th' : T} (hne : p ≠ q)
    (h : Function.update pc th p th' = q) : th' ≠ th ∧ pc th' = q := by
  rw [Function.update_apply] at h
  split_ifs at h with heq
  · exact absurd h hne
  · exact ⟨heq, h⟩

theorem timer?_update (pc : T → AddTimerPc) (p : AddTimerPc) (th' : T) :
    (Function.update pc th p th').timer? = if th' = th then p.timer? else (pc th').timer? := by
  rw [Function.update_apply]
  split_ifs <;> rfl

theorem inv_allocate {timer : Nat} {when : Int} {interval : I} {u : TimerSystem I} (hi : s.Inv)
    (hs : TimerSystem.Step build V s.timers (.new timer when interval) u) :
    Inv { s with
      timers := u
      pc := Function.update s.pc th (.allocated (timer, s.timers.created + 1)) } := by
  obtain ⟨hlive, hpending, hcreated, hn, hfresh⟩ := new_unknown hi hs
  have hu := inv_new hi hs
  have hnew : (AddTimerPc.allocated (timer, s.timers.created + 1)).timer? =
      some (timer, s.timers.created + 1) := rfl
  refine ⟨hu.placed, hu.settled, hu.once, fun th' id hpc => ?_, fun other hw => ?_,
    fun th' id hid => ?_, fun th₁ th₂ id h₁ h₂ => ?_, fun r hr => ⟨(hu.returned r hr).1,
      fun th' heq => ?_⟩, hu.queued, hu.canceling⟩
  · rcases eq_or_ne th' th with rfl | hne
    · obtain rfl : (timer, s.timers.created + 1) = id := by simpa using hpc
      exact ⟨hlive, fun hm => hn (.inl hm)⟩
    · exact hu.allocated th' id (by simpa [hne] using hpc)
  · rcases hw with hw | ⟨th', id, hpc, rfl⟩
    · exact hu.awaited other (.inl hw)
    · rcases eq_or_ne th' th with rfl | hne
      · obtain rfl : (timer, s.timers.created + 1) = id := by simpa using hpc
        exact hpending
      · exact hu.awaited _ (.inr ⟨th', id, by simpa [hne] using hpc, rfl⟩)
  · rw [timer?_update, hnew] at hid
    split_ifs at hid with heq
    · obtain rfl := Option.some.inj hid
      exact hcreated.ge
    · exact hu.numbered th' id hid
  · rw [timer?_update, hnew] at h₁ h₂
    split_ifs at h₁ h₂ with heq₁ heq₂ heq₂
    · exact heq₁.trans heq₂.symm
    · exact absurd (h₂.trans h₁.symm) (hfresh th₂)
    · exact absurd (h₁.trans h₂.symm) (hfresh th₁)
    · exact hu.distinct th₁ th₂ id h₁ h₂
  · rw [timer?_update, hnew] at heq
    split_ifs at heq
    · have hle := (hi.returned r hr).1
      rw [← Option.some.inj heq] at hle
      exact Nat.not_succ_le_self _ hle
    · exact (hu.returned r hr).2 th' heq

/-- The functor is queued, for a timer that no functor in the queue adds. -/
theorem inv_push (hi : s.Inv) (hpc : s.pc th = .allocated id) :
    Inv { s with
      loop := s.loop.queueInLoop false (.addTimerInLoop id.1)
      pc := Function.update s.pc th (.pushed id) } := by
  obtain ⟨hlive, hn⟩ := hi.allocated th id hpc
  have hpending : id.1 ∈ s.timers.pending := hi.awaited _ (.inr ⟨th, id, hpc, rfl⟩)
  have hwaiting := @EventLoop.waiting_queueInLoop _ s.loop false (.addTimerInLoop id.1)
  have hadds : adds (s.loop.queueInLoop false (.addTimerInLoop id.1)).waiting =
      adds s.loop.waiting ++ [id.1] := by
    rw [hwaiting, adds, List.filterMap_append]
    rfl
  have hsame : ∀ th', (Function.update s.pc th (.pushed id) th').timer? = (s.pc th').timer? := by
    intro th'
    rw [timer?_update]
    split_ifs with heq
    · rw [heq, hpc]
      rfl
    · rfl
  -- a thread that is still to queue its timer has another one
  have hother : ∀ th' id', Function.update s.pc th (.pushed id) th' = .allocated id' →
      s.pc th' = .allocated id' ∧ id'.1 ≠ id.1 := by
    intro th' id' hpc'
    obtain ⟨hne, hpc'⟩ := of_update (by simp) hpc'
    refine ⟨hpc', fun heq => hne (hi.distinct th' th id ?_ (by rw [hpc]; rfl))⟩
    rw [hpc', TimerSystem.Live.unique (hi.allocated th' id' hpc').1 hlive heq]
    rfl
  refine ⟨hi.placed, EventLoop.settled_queueInLoop _ _ hi.settled, ?_, fun th' id' hpc' => ?_,
    fun timer hw => ?_, fun th' id' hid => ?_, fun th₁ th₂ id' h₁ h₂ => ?_,
    fun r hr => ⟨(hi.returned r hr).1, fun th' heq => ?_⟩, fun id' timerId hq => ?_, hi.canceling⟩
  · rw [hadds]
    refine hi.once.append (List.nodup_singleton _) ?_
    rintro timer hm hm'
    rw [List.mem_singleton.mp hm'] at hm
    exact hn hm
  · obtain ⟨hpc', hne⟩ := hother th' id' hpc'
    obtain ⟨hl, hn'⟩ := hi.allocated th' id' hpc'
    refine ⟨hl, ?_⟩
    rw [hadds, List.mem_append, List.mem_singleton, not_or]
    exact ⟨hn', hne⟩
  · rcases hw with hw | ⟨th', id', hpc', rfl⟩
    · rw [hadds, List.mem_append, List.mem_singleton] at hw
      rcases hw with hw | rfl
      · exact hi.awaited timer (.inl hw)
      · exact hpending
    · exact hi.awaited _ (.inr ⟨th', id', (hother th' id' hpc').1, rfl⟩)
  · exact hi.numbered th' id' (hsame th' ▸ hid)
  · exact hi.distinct th₁ th₂ id' (hsame th₁ ▸ h₁) (hsame th₂ ▸ h₂)
  · exact (hi.returned r hr).2 th' (hsame th' ▸ heq)
  · rw [hwaiting] at hq
    exact hi.queued id' timerId (by simpa using hq)

theorem inv_idle (hi : s.Inv) : Inv { s with pc := Function.update s.pc th .idle } := by
  have hold : ∀ th' id', Function.update s.pc th .idle th' = .allocated id' →
      s.pc th' = .allocated id' := fun th' id' hpc' => (of_update (by simp) hpc').2
  have htimer : ∀ th' id', (Function.update s.pc th .idle th').timer? = some id' →
      (s.pc th').timer? = some id' := by
    intro th' id' hid
    rw [timer?_update] at hid
    split_ifs at hid
    · simp [AddTimerPc.timer?] at hid
    · exact hid
  refine ⟨hi.placed, hi.settled, hi.once, fun th' id' hpc' => hi.allocated th' id' (hold _ _ hpc'),
    fun timer hw => hi.awaited timer (hw.imp_right ?_),
    fun th' id' hid => hi.numbered th' id' (htimer _ _ hid),
    fun th₁ th₂ id' h₁ h₂ => hi.distinct th₁ th₂ id' (htimer _ _ h₁) (htimer _ _ h₂),
    fun r hr => ⟨(hi.returned r hr).1, fun th' heq => (hi.returned r hr).2 th' (htimer _ _ heq)⟩,
    hi.queued, hi.canceling⟩
  rintro ⟨th', id', hpc', heq⟩
  exact ⟨th', id', hold th' id' hpc', heq⟩

end

/-- A call returns, whatever it has read. -/
theorem inv_return {id timerId : Nat × Nat} (hi : s.Inv) (hid : id.2 ≤ s.timers.created)
    (hdone : ∀ th, (s.pc th).timer? ≠ some id) :
    Inv { s with returned := (id, timerId) :: s.returned } := by
  refine ⟨hi.placed, hi.settled, hi.once, hi.allocated, hi.awaited, hi.numbered, hi.distinct,
    fun r hr => ?_, fun id' timerId' hq => List.mem_cons_of_mem _ (hi.queued id' timerId' hq),
    fun x hx => ?_⟩
  · rcases List.mem_cons.mp hr with rfl | hr
    · exact ⟨hid, hdone⟩
    · exact hi.returned r hr
  · obtain ⟨r, hr, heq⟩ := hi.canceling x hx
    exact ⟨r, List.mem_cons_of_mem _ hr, heq⟩

theorem inv_read [DecidableEq T] {th : T} {id timerId : Nat × Nat} (hi : s.Inv)
    (hpc : s.pc th = .pushed id) :
    Inv { s with
      pc := Function.update s.pc th .idle
      returned := (id, timerId) :: s.returned } := by
  have hown : (s.pc th).timer? = some id := by rw [hpc]; rfl
  refine inv_return (inv_idle hi) (hi.numbered th id hown) fun th' heq => ?_
  rw [timer?_update] at heq
  split_ifs at heq with hth
  · simp [AddTimerPc.timer?] at heq
  · exact hth (hi.distinct th' th id heq hown)

theorem inv_addTimer {timer : Nat} {when : Int} {interval : I} {u v : TimerSystem I}
    {timerId : Nat × Nat} (hi : s.Inv)
    (hn : TimerSystem.Step build V s.timers (.new timer when interval) u)
    (ha : TimerSystem.Step build V u (.addTimerInLoop timer) v) :
    Inv { s with
      timers := v
      returned := ((timer, s.timers.created + 1), timerId) :: s.returned } := by
  obtain ⟨-, -, hcreated, hw, hfresh⟩ := new_unknown hi hn
  have hu := inv_new hi hn
  have hv := inv_addTimerInLoop hu hw ha
  exact inv_return hv (hcreated.ge.trans (TimerSystem.created_step ha)) hfresh

/-- Nobody has the id of a timer whose call has not returned. -/
theorem ne_of_returned {th : T} {id : Nat × Nat} (hi : s.Inv) (h : s.Sound)
    (hpc : s.pc th = .pushed id) {r : (Nat × Nat) × (Nat × Nat)} (hr : r ∈ s.returned) :
    r.2 ≠ id := by
  rintro rfl
  refine (hi.returned r hr).2 th ?_
  rw [hpc, ← h.ids r hr]
  rfl

/-- The steps but the end of a read delete no timer of a call under way. -/
theorem sound_timers {b : TimerSystem.Label I} {u : TimerSystem I} (hi : s.Inv) (h : s.Sound)
    (hs : TimerSystem.Step build V s.timers b u)
    (hcancel : ∀ timerId, b = .cancelInLoop timerId → ∃ r ∈ s.returned, r.2 = timerId)
    (hb : b ≠ .endRead) : Sound { s with timers := u } where
  live th id hpc := by
    refine TimerSystem.live_step hs hi.placed (h.live th id hpc) (fun heq _ => ?_)
      fun heq => absurd heq hb
    obtain ⟨r, hr, hid⟩ := hcancel id heq
    exact ne_of_returned hi h hpc hr hid
  ids := h.ids

theorem sound_cancelInLoop {id timerId : Nat × Nat} {u : TimerSystem I} (hi : s.Inv) (h : s.Sound)
    (hid : (id, timerId) ∈ s.returned)
    (hs : TimerSystem.Step build V s.timers (.cancelInLoop timerId) u) :
    Sound { s with timers := u } := by
  refine sound_timers hi h hs (fun timerId' heq => ⟨_, hid, ?_⟩) (by simp)
  simpa using heq

theorem sound_endRead {u : TimerSystem I} (hi : s.Inv) (h : s.Sound)
    (hs : TimerSystem.Step build V s.timers .endRead u) :
    Sound { s with timers := u } ↔ s.Spares (.timers .endRead) := by
  constructor
  · rintro ⟨hlive, -⟩ th id tm hpc htm hin
    obtain ⟨tm', htm', hseq⟩ := h.live th id hpc
    obtain rfl : tm = tm' := Option.some.inj (htm.symm.trans htm')
    exact ((TimerSystem.live_endRead_iff hs hi.placed htm hseq).mp (hlive th id hpc) hin).1
  · refine fun hspare => ⟨fun th id hpc => ?_, h.ids⟩
    obtain ⟨tm, htm, hseq⟩ := h.live th id hpc
    refine (TimerSystem.live_endRead_iff hs hi.placed htm hseq).mpr fun hin => ?_
    refine ⟨hspare th id tm hpc htm hin, fun hm => ?_⟩
    obtain ⟨r, hr, hid⟩ := hi.canceling id hm
    exact ne_of_returned hi h hpc hr hid

/-- What is read from a live timer is its number. -/
theorem eq_of_reads {u : TimerSystem I} {id timerId : Nat × Nat} (hl : u.Live id)
    (htimer : timerId.1 = id.1) (hread : Reads u timerId) : timerId = id := by
  obtain ⟨tm, htm, hseq⟩ := hl
  exact Prod.ext htimer ((hread tm (by rw [htimer, htm])).trans hseq)

theorem sound_addTimer {timer : Nat} {when : Int} {interval : I} {u v : TimerSystem I}
    {timerId : Nat × Nat} (hi : s.Inv) (h : s.Sound)
    (hn : TimerSystem.Step build V s.timers (.new timer when interval) u)
    (ha : TimerSystem.Step build V u (.addTimerInLoop timer) v)
    (htimer : timerId.1 = timer) (hread : Reads v timerId) :
    Sound { s with
      timers := v
      returned := ((timer, s.timers.created + 1), timerId) :: s.returned } := by
  obtain ⟨hlive, hpending, -⟩ := new_unknown hi hn
  have hiu := inv_new hi hn
  have hu := sound_timers hi h hn (by simp) (by simp)
  have hv := sound_timers hiu hu ha (by simp) (by simp)
  refine ⟨hv.live, fun r hr => ?_⟩
  rcases List.mem_cons.mp hr with rfl | hr
  · exact eq_of_reads (TimerSystem.live_pending ha hiu.placed hlive hpending) htimer hread
  · exact hv.ids r hr

section
variable [DecidableEq T]

theorem inv_step (hs : Step build V s a t) (hi : s.Inv) : t.Inv := by
  cases hs with
  | timers ha hs =>
    refine inv_timers hi hs (fun timer hm _ => ?_) ?_
    · cases hs with
      | new => exact ha.elim
      | addTimerInLoop => exact ha.elim
      | _ => exact hm
    · cases hs with
      | addTimerInLoop => exact ha.elim
      | cancelInLoop => exact ha.elim
      | beginRead _ hq => simp [TimerQueue.beginRead_canceling hq]
      | endRead hb hq =>
        have hnd := hi.placed.tidy.nodup
        rw [TimerSystem.inBatch, hb] at hnd
        obtain ⟨hc, -⟩ := TimerQueue.endRead_each hnd hq
        intro x hx
        exact hi.canceling x (hc ▸ hx)
      | _ => exact hi.canceling
  | move _ hm => exact inv_move hi hm
  | allocate _ hs => exact inv_allocate hi hs
  | push hpc => exact inv_push hi hpc
  | runAdd _ hm hs => exact inv_runAdd hi hm hs
  | read hpc => exact inv_read hi hpc
  | addTimer hn ha => exact inv_addTimer hi hn ha
  | cancelHere hid hs => exact inv_cancelInLoop hi hid hs
  | @cancelQueue th id timerId hpc hid =>
    have hw := @EventLoop.waiting_queueInLoop _ s.loop false (.cancelInLoop id timerId)
    refine inv_loop hi (EventLoop.settled_queueInLoop _ _ hi.settled) ?_ fun id' timerId' hq => ?_
    · rw [hw, adds, List.filterMap_append]
      simp [TimerFunctor.added?, adds]
    · rw [hw, List.mem_append, List.mem_singleton] at hq
      rcases hq with hq | heq
      · exact hi.queued id' timerId' hq
      · obtain ⟨rfl, rfl⟩ : id' = id ∧ timerId' = timerId := by simpa using heq
        exact hid
  | runCancel _ hm hs =>
    have hid := returned_of_run hi hm
    exact inv_cancelInLoop (inv_move hi hm) hid hs

theorem inv_exec (he : (system T build V).Exec h s) : s.Inv := by
  induction he with
  | start hi =>
    obtain ⟨clock, rfl⟩ := hi
    refine ⟨TimerSystem.placed_start, fun _ => rfl, List.nodup_nil, ?_, ?_, ?_, ?_, ?_, ?_, ?_⟩
    all_goals simp [start, Awaited, EventLoop.enter, EventLoop.waiting, adds, AddTimerPc.timer?,
      TimerSystem.start]
  | snoc _ hs ih => exact inv_step hs ih

theorem sound_step (hs : Step build V s a t) (hi : s.Inv) (h : s.Sound) :
    t.Sound ↔ s.Spares a := by
  cases hs with
  | @timers b u ha hs =>
    cases b with
    | endRead => exact sound_endRead hi h hs
    | new | addTimerInLoop | cancelInLoop => exact ha.elim
    | tick | fire | beginRead | run =>
      exact iff_of_true (sound_timers hi h hs (by simp) (by simp)) trivial
  | move | cancelQueue => exact iff_of_true ⟨h.live, h.ids⟩ trivial
  | @allocate th timer when interval u hpc hs =>
    have hu := sound_timers hi h hs (by simp) (by simp)
    refine iff_of_true ⟨fun th' id hpc' => ?_, h.ids⟩ trivial
    exact hu.live th' id (of_update (by simp) hpc').2
  | @push th id hpc =>
    refine iff_of_true ⟨fun th' id' hpc' => ?_, h.ids⟩ trivial
    rcases eq_or_ne th' th with rfl | hne
    · obtain rfl : id = id' := by simpa using hpc'
      exact (hi.allocated th' id hpc).1
    · exact h.live th' id' (by simpa [hne] using hpc')
  | runAdd _ _ hs =>
    have hu := sound_timers hi h hs (by simp) (by simp)
    exact iff_of_true ⟨hu.live, hu.ids⟩ trivial
  | @read th id timerId hpc htimer hread =>
    refine iff_of_true ⟨fun th' id' hpc' => ?_, fun r hr => ?_⟩ trivial
    · exact h.live th' id' (of_update (by simp) hpc').2
    · rcases List.mem_cons.mp hr with rfl | hr
      · exact eq_of_reads (h.live th id hpc) htimer hread
      · exact h.ids r hr
  | addTimer hn ha htimer hread =>
    exact iff_of_true (sound_addTimer hi h hn ha htimer hread) trivial
  | cancelHere hid hs => exact iff_of_true (sound_cancelInLoop hi h hid hs) trivial
  | runCancel _ hm hs =>
    have hu := sound_cancelInLoop hi h (returned_of_run hi hm) hs
    exact iff_of_true ⟨hu.live, hu.ids⟩ trivial

/-- As long as every read spares the timers whose calls have not returned, `addTimer` finds its
timer and returns its id; and the first end of a read that does not spare one deletes a timer
whose number is still to be read. -/
theorem sequence_read_iff (he : ((system T build V).restrict Spares).Exec h s) :
    s.Sound ∧ ∀ a t, Step build V s a t → (t.Sound ↔ s.Spares a) := by
  have hsound : s.Sound := by
    induction he with
    | start hi =>
      obtain ⟨clock, rfl⟩ := hi
      exact ⟨by simp [start], by simp [start]⟩
    | snoc he hs ih => exact (sound_step hs.2 (inv_exec he.of_restrict) ih).mpr hs.1
  exact ⟨hsound, fun a t hs => sound_step hs (inv_exec he.of_restrict) hsound⟩

end

open TimerSystem (microseconds)

/-- A timer that was due when it was queued: the loop has added it, it has expired, and its callback
has been called, while its thread is still in `addTimer`. -/
def called : AddTimerCalls Unit Int where
  timers := { TimerSystem.start Int 1000 with
    queue := { (TimerSystem.start Int 1000).queue with
      heap := Function.update (fun _ => none) 16 (some (.new microseconds 500 0 1))
      callingExpiredTimers := true
      lastReset := 1000 }
    clock := 1100
    created := 1
    batch := some ⟨1100, [Entry.mk 500 16], []⟩ }
  loop := { EventLoop.enter 1 with phase := .dispatch }
  pc := Function.update (fun _ => .idle) () (.pushed (16, 1))
  returned := []

theorem exec_step {h : List (Label Unit Int)} {s t : AddTimerCalls Unit Int} {a : Label Unit Int}
    (he : ((system Unit .debug microseconds).restrict Spares).Exec h s)
    (hs : Step .debug microseconds s a t) (hc : s.Spares a) :
    ((system Unit .debug microseconds).restrict Spares).Exec (h ++ [a]) t :=
  he.restrict_snoc hs hc

theorem called_exec : ∃ h, ((system Unit .debug microseconds).restrict Spares).Exec h called := by
  have e₀ : ((system Unit .debug microseconds).restrict Spares).Exec [] (start Unit Int 1000) :=
    .start ⟨1000, rfl⟩
  have e₁ := exec_step e₀ (a := .allocate () 16 500 0) (.allocate rfl (.new rfl (by decide)))
    trivial
  have e₂ := exec_step e₁ (a := .push ()) (.push rfl) trivial
  have e₃ := exec_step e₂ (a := .move .poll) (.move rfl rfl (by simp)) trivial
  have e₄ := exec_step e₃ (a := .move .beginPending) (.move rfl rfl (by simp)) trivial
  have e₅ := exec_step e₄ (a := .move .swap) (.move rfl rfl (by simp)) trivial
  have e₆ := exec_step e₅ (a := .move (.run (.addTimerInLoop 16)))
    (.runAdd rfl rfl (.addTimerInLoop (by decide) rfl)) trivial
  have e₇ := exec_step e₆ (a := .move .endPending) (.move rfl rfl (by simp)) trivial
  have e₈ := exec_step e₇ (a := .timers (.tick 1100)) (.timers trivial (.tick (by decide))) trivial
  have e₉ := exec_step e₈ (a := .move .poll) (.move rfl rfl (by simp)) trivial
  have e₁₀ := exec_step e₉ (a := .timers .fire) (.timers trivial (.fire rfl (by decide))) trivial
  have hfilter : Finset.filter (· < Entry.mk 1100 UINTPTR_MAX) (insert (Entry.mk 500 16) ∅) =
      {Entry.mk 500 16} := by decide
  have hb : TimerQueue.beginRead .debug
      { called.timers.queue with
        timers := insert (Entry.mk 500 16) ∅
        activeTimers := insert (16, 1) ∅
        callingExpiredTimers := false
        timerfd := .fired 1100 } 1100 = .ok (called.timers.queue, [Entry.mk 500 16]) := by
    rw [TimerQueue.beginRead, TimerQueue.getExpired]
    dsimp only
    rw [hfilter, Finset.sort_singleton]
    rfl
  have e₁₁ := exec_step e₁₀ (a := .timers .beginRead) (.timers rfl (.beginRead rfl hb)) trivial
  have e₁₂ := exec_step e₁₁ (a := .timers (.run (Entry.mk 500 16).timer))
    (.timers trivial (.run rfl)) trivial
  exact ⟨_, e₁₂⟩

/-- The thread reads the number before the read ends. -/
theorem sequence_read_iff_in_time :
    ∃ h s, ((system Unit .debug microseconds).restrict Spares).Exec h s ∧
      s.timers.queue.heap 16 = none ∧ s.returned = [((16, 1), (16, 1))] ∧ s.Sound := by
  obtain ⟨h, e₀⟩ := called_exec
  have e₁ := exec_step e₀ (a := .read () (16, 1))
    (.read rfl rfl fun tm htm => congrArg Timer.sequence (Option.some.inj htm)) trivial
  have hspare : Spares { called with
      pc := Function.update called.pc () .idle
      returned := [((16, 1), (16, 1))] } (.timers .endRead : Label Unit Int) := by
    intro th id tm hpc
    simp at hpc
  have e₂ := exec_step e₁ (a := .timers .endRead) (.timers trivial (.endRead rfl rfl)) hspare
  exact ⟨_, _, e₂, rfl, rfl, (sequence_read_iff e₂).1⟩

/-- The read ends first: the number is read from a timer that has been deleted. -/
theorem finished_timer_read :
    ¬ ∀ (h : List (Label Unit Int)) (s t : AddTimerCalls Unit Int) (th : Unit)
      (timerId : Nat × Nat), (system Unit .debug microseconds).Exec h s →
      Step .debug microseconds s (.read th timerId) t →
      ∃ id, s.pc th = .pushed id ∧ s.timers.Live id ∧ timerId = id := by
  intro hall
  obtain ⟨h, e₀⟩ := called_exec
  have e₁ := e₀.of_restrict.snoc (a := Label.timers .endRead) (.timers trivial (.endRead rfl rfl))
  obtain ⟨id, hpc, ⟨tm, htm, -⟩, -⟩ := hall _ _ _ () (16, 7) e₁ (.read rfl rfl (by simp [Reads]))
  obtain rfl : (16, 1) = id := by simpa [called] using hpc
  simp at htm

end AddTimerCalls

end Lute
