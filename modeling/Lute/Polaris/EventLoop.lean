import Mathlib.Logic.Function.Basic
import Lute.Lib.Trace

/-! The functor queue of an event loop, shared by the loop thread and any number of others. -/
namespace Lute

variable {T F : Type}

/-- The thread that runs `loop()`, or another one. -/
inductive Thread (T : Type)
  | loop
  | other (t : T)
  deriving DecidableEq, Repr

def Thread.isInLoopThread : Thread T → Bool
  | .loop => true
  | .other _ => false

/-- Where the loop thread stands in an iteration of `loop()`: at `poll`, handling the active
channels, in `doPendingFunctors` with the flag set and the swap to come, and after the swap. -/
inductive Phase
  | poll
  | dispatch
  | calling
  | running
  deriving DecidableEq, Repr

/-- `functors` is the local vector of `doPendingFunctors`, less what has been started;
`wakeupCount` is the counter behind `wakeupFd_`. -/
structure EventLoop (F : Type) where
  phase : Phase
  callingPendingFunctors : Bool
  pendingFunctors : List F
  functors : List F
  wakeupCount : Nat
  deriving DecidableEq, Repr

namespace EventLoop

/-- On entry to `loop()`, with nothing queued. -/
def enter (wakeupCount : Nat) : EventLoop F := ⟨.poll, false, [], [], wakeupCount⟩

/-- The first half of `queueInLoop`, under the mutex. -/
def push (l : EventLoop F) (f : F) : EventLoop F :=
  { l with pendingFunctors := l.pendingFunctors ++ [f] }

def wakeup (l : EventLoop F) : EventLoop F := { l with wakeupCount := l.wakeupCount + 1 }

/-- The second half of `queueInLoop`. -/
def wakeupIfNeeded (l : EventLoop F) (isInLoopThread : Bool) : EventLoop F :=
  if !isInLoopThread || l.callingPendingFunctors then l.wakeup else l

def queueInLoop (l : EventLoop F) (isInLoopThread : Bool) (f : F) : EventLoop F :=
  (l.push f).wakeupIfNeeded isInLoopThread

/-- Reading an eventfd resets it. -/
def handleRead (l : EventLoop F) : EventLoop F := { l with wakeupCount := 0 }

/-- The steps of the loop thread itself. -/
inductive Move (F : Type)
  | poll
  | handleRead
  | beginPending
  | swap
  | run (f : F)
  | endPending
  deriving DecidableEq, Repr

/-- One step of `loop()`; `run f` starts a functor and leaves its body to the client. -/
def move [DecidableEq F] (l : EventLoop F) : Move F → Option (EventLoop F)
  | .poll => if l.phase = .poll then some { l with phase := .dispatch } else none
  | .handleRead => if l.phase = .dispatch then some l.handleRead else none
  | .beginPending =>
    if l.phase = .dispatch then some { l with phase := .calling, callingPendingFunctors := true }
    else none
  | .swap =>
    if l.phase = .calling then
      some { l with phase := .running, functors := l.pendingFunctors, pendingFunctors := [] }
    else none
  | .run f =>
    if l.phase = .running ∧ l.functors.head? = some f then
      some { l with functors := l.functors.tail }
    else none
  | .endPending =>
    if l.phase = .running ∧ l.functors = [] then
      some { l with phase := .poll, callingPendingFunctors := false }
    else none

variable {l l' : EventLoop F} {m : Move F}

/-- The functors waiting to run: the rest of the batch, then the queue. -/
def waiting (l : EventLoop F) : List F := l.functors ++ l.pendingFunctors

/-- The batch is empty outside `doPendingFunctors`. -/
def Settled (l : EventLoop F) : Prop := l.phase ≠ .running → l.functors = []

theorem waiting_push (f : F) : (l.push f).waiting = l.waiting ++ [f] := by
  simp [waiting, push]

theorem waiting_wakeupIfNeeded (b : Bool) : (l.wakeupIfNeeded b).waiting = l.waiting := by
  unfold wakeupIfNeeded
  split_ifs <;> rfl

theorem settled_wakeupIfNeeded (b : Bool) (hs : l.Settled) : (l.wakeupIfNeeded b).Settled := by
  unfold wakeupIfNeeded
  split_ifs <;> exact hs

theorem waiting_queueInLoop (b : Bool) (f : F) :
    (l.queueInLoop b f).waiting = l.waiting ++ [f] := by
  rw [queueInLoop, waiting_wakeupIfNeeded, waiting_push]

theorem settled_queueInLoop (b : Bool) (f : F) (hs : l.Settled) : (l.queueInLoop b f).Settled :=
  settled_wakeupIfNeeded b hs

theorem waiting_foldl_queueInLoop (b : Bool) (fs : List F) :
    (fs.foldl (fun l f => l.queueInLoop b f) l).waiting = l.waiting ++ fs := by
  induction fs generalizing l with
  | nil => simp
  | cons f fs ih =>
    rw [List.foldl_cons, ih, waiting_queueInLoop, List.append_assoc]
    rfl

theorem foldl_queueInLoop_core (b : Bool) (fs : List F) :
    (fs.foldl (fun l f => l.queueInLoop b f) l).phase = l.phase ∧
      (fs.foldl (fun l f => l.queueInLoop b f) l).functors = l.functors := by
  induction fs generalizing l with
  | nil => simp
  | cons f fs ih =>
    have hq : (l.queueInLoop b f).phase = l.phase ∧
        (l.queueInLoop b f).functors = l.functors := by
      unfold queueInLoop wakeupIfNeeded
      split_ifs <;> exact ⟨rfl, rfl⟩
    rw [List.foldl_cons, ih.1, ih.2, hq.1, hq.2]
    exact ⟨rfl, rfl⟩

theorem pendingFunctors_foldl_queueInLoop (b : Bool) (fs : List F) :
    (fs.foldl (fun l f => l.queueInLoop b f) l).pendingFunctors = l.pendingFunctors ++ fs := by
  have hw := waiting_foldl_queueInLoop (l := l) b fs
  rw [waiting, waiting, (foldl_queueInLoop_core b fs).2, List.append_assoc] at hw
  exact List.append_cancel_left hw

theorem settled_foldl_queueInLoop (b : Bool) (fs : List F) (hs : l.Settled) :
    (fs.foldl (fun l f => l.queueInLoop b f) l).Settled := by
  obtain ⟨hp, hf⟩ := foldl_queueInLoop_core (l := l) b fs
  rwa [Settled, hp, hf]

variable [DecidableEq F]

/-- What each step of the loop thread finds and leaves. -/
theorem move_cases (h : l.move m = some l') :
    (m = .poll ∧ l.phase = .poll ∧ l' = { l with phase := .dispatch }) ∨
    (m = .handleRead ∧ l.phase = .dispatch ∧ l' = l.handleRead) ∨
    (m = .beginPending ∧ l.phase = .dispatch ∧
      l' = { l with phase := .calling, callingPendingFunctors := true }) ∨
    (m = .swap ∧ l.phase = .calling ∧
      l' = { l with phase := .running, functors := l.pendingFunctors, pendingFunctors := [] }) ∨
    (∃ f fs, m = .run f ∧ l.phase = .running ∧ l.functors = f :: fs ∧
      l' = { l with functors := fs }) ∨
    (m = .endPending ∧ l.phase = .running ∧ l.functors = [] ∧
      l' = { l with phase := .poll, callingPendingFunctors := false }) := by
  cases m with
  | run f =>
    obtain ⟨⟨hp, hf⟩, rfl⟩ := by simpa [move] using h
    obtain ⟨fs, hfs⟩ := List.head?_eq_some_iff.mp hf
    simp [hp, hfs]
  | poll | handleRead | beginPending | swap =>
    obtain ⟨hp, rfl⟩ := by simpa [move] using h
    simp [hp]
  | endPending =>
    obtain ⟨⟨hp, hf⟩, rfl⟩ := by simpa [move] using h
    simp [hp, hf]

theorem move_settled (h : l.move m = some l') (hs : l.Settled) : l'.Settled := by
  rcases move_cases h with ⟨-, hph, rfl⟩ | ⟨-, hph, rfl⟩ | ⟨-, hph, rfl⟩ | ⟨-, hph, rfl⟩ |
    ⟨f, fs, -, hph, hfs, rfl⟩ | ⟨-, hph, hfs, rfl⟩
  all_goals simp_all [Settled, handleRead]

/-- A step of the loop takes the first waiting functor, or none. -/
theorem move_waiting (h : l.move m = some l') (hs : l.Settled) :
    (∃ f, m = .run f ∧ l.waiting = f :: l'.waiting) ∨
      ((∀ f, m ≠ .run f) ∧ l'.waiting = l.waiting) := by
  rcases move_cases h with ⟨rfl, hph, rfl⟩ | ⟨rfl, hph, rfl⟩ | ⟨rfl, hph, rfl⟩ | ⟨rfl, hph, rfl⟩ |
    ⟨f, fs, rfl, hph, hfs, rfl⟩ | ⟨rfl, hph, hfs, rfl⟩
  all_goals simp_all [Settled, waiting, handleRead]

theorem waiting_run {f : F} (h : l.move (.run f) = some l') (hs : l.Settled) :
    l.waiting = f :: l'.waiting := by
  rcases move_waiting h hs with ⟨g, hg, hw⟩ | ⟨hne, -⟩
  · obtain rfl : f = g := by simpa using hg
    exact hw
  · exact absurd rfl (hne f)

/-- A functor still queued after a step of the loop was queued before it, and the step was not
the `swap`. -/
theorem queued_move {f : F} (h : l.move m = some l') (hf : f ∈ l'.pendingFunctors) :
    f ∈ l.pendingFunctors ∧
      (l.phase = .running ∨ l'.phase = .dispatch ∨ l'.phase = .calling) := by
  rcases move_cases h with ⟨-, hph, rfl⟩ | ⟨-, hph, rfl⟩ | ⟨-, hph, rfl⟩ | ⟨-, hph, rfl⟩ |
    ⟨g, gs, -, hph, -, rfl⟩ | ⟨-, hph, -, rfl⟩
  · exact ⟨hf, .inr (.inl rfl)⟩
  · exact ⟨hf, .inr (.inl hph)⟩
  · exact ⟨hf, .inr (.inr rfl)⟩
  · cases hf
  · exact ⟨hf, .inl hph⟩
  · exact ⟨hf, .inl hph⟩

end EventLoop

end Lute
