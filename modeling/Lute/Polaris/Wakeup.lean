import Lute.Polaris.EventLoop

/-! `queueInLoop` from any thread against the steps of the loop: no wake-up is lost. -/
namespace Lute

variable {T F : Type}

/-- A loop with, for every thread, whether it has pushed in `queueInLoop` and not yet come past
the conditional `wakeup()`. -/
structure LoopThreads (T F : Type) where
  loop : EventLoop F
  pushed : Thread T → Bool

namespace LoopThreads

inductive Label (T F : Type)
  | move (m : EventLoop.Move F)
  | push (th : Thread T) (f : F)
  | wakeup (th : Thread T)
  deriving DecidableEq, Repr

/-- The loop thread runs client code in an event handler or in a functor only. -/
def MayCall (l : EventLoop F) (th : Thread T) : Prop :=
  th.isInLoopThread = true → l.phase = .dispatch ∨ l.phase = .running

instance (l : EventLoop F) (th : Thread T) : Decidable (MayCall l th) :=
  inferInstanceAs (Decidable (_ → _))

def next [DecidableEq T] [DecidableEq F] (s : LoopThreads T F) :
    Label T F → Option (LoopThreads T F)
  | .move m =>
    if s.pushed .loop then none else (s.loop.move m).map fun l => { s with loop := l }
  | .push th f =>
    if s.pushed th = false ∧ MayCall s.loop th then
      some ⟨s.loop.push f, Function.update s.pushed th true⟩
    else none
  | .wakeup th =>
    if s.pushed th then
      some ⟨s.loop.wakeupIfNeeded th.isInLoopThread, Function.update s.pushed th false⟩
    else none

/-- `loop()` entered with an empty queue; other threads may be anywhere in `queueInLoop`. -/
def system (T F : Type) [DecidableEq T] [DecidableEq F] :
    Trace.LTS (LoopThreads T F) (Label T F) where
  init s := (∃ n, s.loop = .enter n) ∧ s.pushed .loop = false
  step s a t := s.next a = some t

variable {s t : LoopThreads T F} {l : EventLoop F}

/-- What each step of the system finds and leaves. -/
theorem next_cases [DecidableEq T] [DecidableEq F] {a : Label T F} (h : s.next a = some t) :
    (∃ m l, a = .move m ∧ s.pushed .loop = false ∧ s.loop.move m = some l ∧
      t = { s with loop := l }) ∨
    (∃ th f, a = .push th f ∧ s.pushed th = false ∧ MayCall s.loop th ∧
      t = ⟨s.loop.push f, Function.update s.pushed th true⟩) ∨
    (∃ th, a = .wakeup th ∧ s.pushed th = true ∧
      t = ⟨s.loop.wakeupIfNeeded th.isInLoopThread, Function.update s.pushed th false⟩) := by
  cases a with
  | move m =>
    obtain ⟨hp, l, hl, rfl⟩ := by simpa [next] using h
    exact .inl ⟨m, l, rfl, hp, hl, rfl⟩
  | push th f =>
    obtain ⟨⟨hp, hm⟩, rfl⟩ := by simpa [next] using h
    exact .inr (.inl ⟨th, f, rfl, hp, hm, rfl⟩)
  | wakeup th =>
    obtain ⟨hp, rfl⟩ := by simpa [next] using h
    exact .inr (.inr ⟨th, rfl, hp, rfl⟩)

/-- A wake-up is under way: counted by the eventfd, or owed by a thread that has pushed. -/
def Awake (s : LoopThreads T F) : Prop := 0 < s.loop.wakeupCount ∨ ∃ th, s.pushed th = true

/-- The flag is up from before the swap to after the last functor, the loop thread is inside
`queueInLoop` only in client code, and after the swap every push comes with a wake-up. -/
structure Inv (s : LoopThreads T F) : Prop where
  flag : s.loop.callingPendingFunctors = true ↔
    s.loop.phase = .calling ∨ s.loop.phase = .running
  midPush : s.pushed .loop = true → s.loop.phase = .dispatch ∨ s.loop.phase = .running
  awake : s.loop.phase = .poll ∨ s.loop.phase = .running → s.loop.pendingFunctors ≠ [] → s.Awake

theorem inv_enter {n : Nat} (hl : s.loop = .enter n) (hp : s.pushed .loop = false) : s.Inv := by
  refine ⟨?_, ?_, ?_⟩ <;> simp [hl, hp, EventLoop.enter]

theorem inv_move [DecidableEq F] {m : EventLoop.Move F} (hp : s.pushed .loop = false)
    (hm : s.loop.move m = some l) (hi : s.Inv) : Inv { s with loop := l } := by
  obtain ⟨flag, -, awake⟩ := hi
  rcases EventLoop.move_cases hm with ⟨-, hph, rfl⟩ | ⟨-, hph, rfl⟩ | ⟨-, hph, rfl⟩ |
    ⟨-, hph, rfl⟩ | ⟨f, fs, -, hph, hfs, rfl⟩ | ⟨-, hph, hfs, rfl⟩
  all_goals constructor <;> simp_all [EventLoop.handleRead, Awake]

theorem inv_push [DecidableEq T] {th : Thread T} {f : F} (hm : MayCall s.loop th) (hi : s.Inv) :
    Inv ⟨s.loop.push f, Function.update s.pushed th true⟩ := by
  refine ⟨hi.flag, fun hl => ?_, fun _ _ => .inr ⟨th, by simp⟩⟩
  cases th with
  | loop => exact hm rfl
  | other t => exact hi.midPush (by simpa using hl)

theorem inv_wakeup [DecidableEq T] {th : Thread T} (hp : s.pushed th = true) (hi : s.Inv) :
    Inv ⟨s.loop.wakeupIfNeeded th.isInLoopThread, Function.update s.pushed th false⟩ := by
  have hpush : Function.update s.pushed th false .loop = true → s.pushed .loop = true := by
    cases th <;> simp
  unfold EventLoop.wakeupIfNeeded
  split_ifs with hw
  · exact ⟨hi.flag, fun h => hi.midPush (hpush h), fun _ _ => .inl (Nat.succ_pos _)⟩
  · -- no wake-up: the loop thread itself, outside `doPendingFunctors`, hence in a handler
    obtain ⟨hin, hflag⟩ : th.isInLoopThread = true ∧ s.loop.callingPendingFunctors = false := by
      simpa using hw
    obtain rfl : th = .loop := by
      cases th with
      | loop => rfl
      | other t => simp [Thread.isInLoopThread] at hin
    have hph : s.loop.phase = .dispatch := by
      rcases hi.midPush hp with h | h
      · exact h
      · simp [hi.flag.mpr (.inr h)] at hflag
    exact ⟨hi.flag, fun h => hi.midPush (hpush h), fun h => by simp [hph] at h⟩

variable [DecidableEq T] [DecidableEq F]

theorem inv_next {a : Label T F} (h : s.next a = some t) (hi : s.Inv) : t.Inv := by
  rcases next_cases h with ⟨m, l, -, hp, hm, rfl⟩ | ⟨th, f, -, -, hm, rfl⟩ | ⟨th, -, hp, rfl⟩
  · exact inv_move hp hm hi
  · exact inv_push hm hi
  · exact inv_wakeup hp hi

theorem inv_exec {h : List (Label T F)} (he : (system T F).Exec h s) : s.Inv := by
  induction he with
  | start hi =>
    obtain ⟨⟨n, hl⟩, hp⟩ := hi
    exact inv_enter hl hp
  | snoc _ hs ih => exact inv_next hs ih

/-- At `poll` with functors pending, the eventfd is readable or a producer still owes it a write. -/
theorem no_lost_wakeup {h : List (Label T F)} (he : (system T F).Exec h s)
    (hp : s.loop.phase = .poll) (hne : s.loop.pendingFunctors ≠ []) :
    0 < s.loop.wakeupCount ∨ ∃ t, s.pushed (.other t) = true := by
  have hi := inv_exec he
  rcases hi.awake (.inl hp) hne with hc | ⟨th, hth⟩
  · exact .inl hc
  · cases th with
    | loop => simpa [hp] using hi.midPush hth
    | other t => exact .inr ⟨t, hth⟩

/-- A producer pushes between the drain and the swap, another after the swap. -/
def sampleRun : List (Label Bool Nat) :=
  [.push (.other true) 1, .wakeup (.other true), .move .poll, .move .handleRead,
   .push (.other false) 2, .push .loop 3, .wakeup .loop, .move .beginPending, .move .swap,
   .move (.run 1), .push (.other true) 4, .move (.run 2), .move (.run 3), .move .endPending]

theorem no_lost_wakeup_sample :
    ∃ s, (system Bool Nat).Exec sampleRun s ∧ s.loop.pendingFunctors = [4] ∧
      (0 < s.loop.wakeupCount ∨ ∃ t, s.pushed (.other t) = true) := by
  have hr : (sampleRun.foldlM next ⟨.enter 0, fun _ => false⟩).map
      (fun s => (s.loop.phase, s.loop.pendingFunctors)) = some (.poll, [4]) := by decide
  obtain ⟨s, hs, hph⟩ := Option.map_eq_some_iff.mp hr
  obtain ⟨hp, hq⟩ := Prod.mk.inj hph
  have hi : (system Bool Nat).init ⟨.enter 0, fun _ => false⟩ := ⟨⟨0, rfl⟩, rfl⟩
  have he : (system Bool Nat).Exec sampleRun s := Trace.LTS.exec_of_foldlM (fun _ _ _ h => h) hi hs
  exact ⟨s, he, hq, no_lost_wakeup he hp (by simp [hq])⟩

end LoopThreads

end Lute
