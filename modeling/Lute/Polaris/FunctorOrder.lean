import Lute.Polaris.Wakeup

/-! The functors of a loop run exactly once, in the order in which they were pushed. -/
namespace Lute

variable {T F : Type}

/-- A loop and its producers from construction on; `looping` holds while `loop()` executes. -/
structure FunctorQueue (T F : Type) where
  threads : LoopThreads T F
  looping : Bool

namespace FunctorQueue

/-- `leave` is the return of `loop()`; `queueInLoop` is the push of that call, its conditional
`wakeup()` being a step of its own. -/
inductive Label (T F : Type)
  | enter
  | leave
  | move (m : EventLoop.Move F)
  | queueInLoop (th : Thread T) (f : F)
  | runInLoop (th : Thread T) (f : F)
  | wakeup (th : Thread T)
  deriving DecidableEq, Repr

/-- The local vector of `doPendingFunctors`, less what has been started. -/
def functors (q : FunctorQueue T F) : List F := q.threads.loop.functors

def pendingFunctors (q : FunctorQueue T F) : List F := q.threads.loop.pendingFunctors

/-- A thread outside `queueInLoop`; the loop thread also runs client code outside `loop()`. -/
def MayCall (q : FunctorQueue T F) (th : Thread T) : Prop :=
  q.threads.pushed th = false ∧ (q.looping = true → LoopThreads.MayCall q.threads.loop th)

instance (q : FunctorQueue T F) (th : Thread T) : Decidable (q.MayCall th) :=
  inferInstanceAs (Decidable (_ ∧ _))

def push [DecidableEq T] (q : FunctorQueue T F) (th : Thread T) (f : F) : FunctorQueue T F :=
  { q with threads := ⟨q.threads.loop.push f, Function.update q.threads.pushed th true⟩ }

def next [DecidableEq T] [DecidableEq F] (q : FunctorQueue T F) :
    Label T F → Option (FunctorQueue T F)
  | .enter =>
    if q.looping = false ∧ q.threads.pushed .loop = false then some { q with looping := true }
    else none
  | .leave =>
    if q.looping = true ∧ q.threads.loop.phase = .poll then some { q with looping := false }
    else none
  | .move m =>
    if q.looping then (q.threads.next (.move m)).map fun s => { q with threads := s } else none
  | .queueInLoop th f => if q.MayCall th then some (q.push th f) else none
  | .runInLoop th f =>
    if q.MayCall th then
      -- on the loop thread the functor is called in place and never queued
      if th.isInLoopThread then some q else some (q.push th f)
    else none
  | .wakeup th => (q.threads.next (.wakeup th)).map fun s => { q with threads := s }

/-- A loop just constructed, with any value in its eventfd. -/
def system (T F : Type) [DecidableEq T] [DecidableEq F] :
    Trace.LTS (FunctorQueue T F) (Label T F) where
  init q := (∃ n, q.threads.loop = .enter n) ∧ (∀ th, q.threads.pushed th = false) ∧
    q.looping = false
  step q a r := q.next a = some r

/-- The queued functors that a label starts on the loop thread. -/
def starts : Label T F → List F
  | .move (.run f) => [f]
  | _ => []

def pushesOf : Label T F → List F
  | .queueInLoop _ f => [f]
  | .runInLoop th f => if th.isInLoopThread then [] else [f]
  | _ => []

def started (h : List (Label T F)) : List F := h.flatMap starts

/-- All pushes, in the order in which they held the mutex. -/
def pushes (h : List (Label T F)) : List F := h.flatMap pushesOf

@[simp] theorem started_nil : started ([] : List (Label T F)) = [] := rfl

@[simp] theorem started_snoc (h : List (Label T F)) (a : Label T F) :
    started (h ++ [a]) = started h ++ starts a := by
  simp [started]

@[simp] theorem pushes_nil : pushes ([] : List (Label T F)) = [] := rfl

@[simp] theorem pushes_snoc (h : List (Label T F)) (a : Label T F) :
    pushes (h ++ [a]) = pushes h ++ pushesOf a := by
  simp [pushes]

variable {q r : FunctorQueue T F} {a : Label T F} {h : List (Label T F)}

section
variable [DecidableEq T] [DecidableEq F]

theorem next_move {m : EventLoop.Move F} (hn : q.next (.move m) = some r) :
    q.looping = true ∧ r.looping = true ∧ q.threads.loop.move m = some r.threads.loop := by
  obtain ⟨hl, s, hs, rfl⟩ := by simpa [next] using hn
  rcases LoopThreads.next_cases hs with ⟨m', l, hm, -, hmove, rfl⟩ | ⟨th, f, ha, -⟩ | ⟨th, ha, -⟩
  · obtain rfl : m = m' := by simpa using hm
    exact ⟨hl, hl, hmove⟩
  · simp at ha
  · simp at ha

/-- A step that is no step of `loop()` leaves the batch and the phase alone and adds to the
queue what it pushes. -/
theorem next_cases (hn : q.next a = some r) :
    (∃ m, a = .move m ∧ q.looping = true ∧ r.looping = true ∧
      q.threads.loop.move m = some r.threads.loop) ∨
    (starts a = [] ∧ r.functors = q.functors ∧
      r.pendingFunctors = q.pendingFunctors ++ pushesOf a ∧
      r.threads.loop.phase = q.threads.loop.phase ∧
      (q.threads.loop.phase = .running → q.looping = true → r.looping = true)) := by
  cases a with
  | move m => exact .inl ⟨m, rfl, next_move hn⟩
  | enter | leave =>
    obtain ⟨⟨hl, hp⟩, rfl⟩ := by simpa [next] using hn
    exact .inr ⟨rfl, rfl, by simp [pushesOf, pendingFunctors], rfl, by simp [hp]⟩
  | queueInLoop th f =>
    obtain ⟨-, rfl⟩ := by simpa [next] using hn
    exact .inr ⟨rfl, rfl, rfl, rfl, fun _ hl => hl⟩
  | runInLoop th f =>
    obtain ⟨-, ht⟩ := by simpa [next, apply_ite] using hn
    cases th with
    | loop =>
      obtain rfl : q = r := by simpa [Thread.isInLoopThread] using ht
      exact .inr ⟨rfl, rfl, by simp [pushesOf, Thread.isInLoopThread], rfl, fun _ hl => hl⟩
    | other t =>
      obtain rfl : q.push (.other t) f = r := by simpa [Thread.isInLoopThread] using ht
      exact .inr ⟨rfl, rfl, rfl, rfl, fun _ hl => hl⟩
  | wakeup th =>
    obtain ⟨s, hs, rfl⟩ := Option.map_eq_some_iff.mp hn
    obtain ⟨-, rfl⟩ := by simpa [LoopThreads.next] using hs
    refine .inr ⟨rfl, ?_⟩
    simp only [functors, pendingFunctors, EventLoop.wakeupIfNeeded, pushesOf, List.append_nil]
    split_ifs <;> exact ⟨rfl, rfl, rfl, fun _ hl => hl⟩

/-- What has been started, what is left of the batch and what is queued make up the pushes. -/
structure Ordered (h : List (Label T F)) (q : FunctorQueue T F) : Prop where
  settled : q.threads.loop.Settled
  order : started h ++ q.functors ++ q.pendingFunctors = pushes h

omit [DecidableEq T] [DecidableEq F] in
theorem waiting_eq : q.threads.loop.waiting = q.functors ++ q.pendingFunctors := rfl

theorem ordered_next (hn : q.next a = some r) (ho : Ordered h q) : Ordered (h ++ [a]) r := by
  obtain ⟨hs, ho⟩ := ho
  rw [List.append_assoc] at ho
  rcases next_cases hn with ⟨m, rfl, -, -, hm⟩ | ⟨ha, hf, hp, hph, -⟩
  · refine ⟨EventLoop.move_settled hm hs, ?_⟩
    rw [pushes_snoc, started_snoc, List.append_assoc, List.append_assoc, ← ho]
    rcases EventLoop.move_waiting hm hs with ⟨f, rfl, hw⟩ | ⟨hne, hw⟩
    · -- the functor leaves the head of the waiting ones for the end of the started ones
      simpa [starts, pushesOf, waiting_eq] using hw.symm
    · have ha : starts (.move m : Label T F) = [] := by
        cases m with
        | run f => exact absurd rfl (hne f)
        | _ => rfl
      simpa [ha, pushesOf, waiting_eq] using hw
  · refine ⟨fun hne => ?_, by simp [ha, hf, hp, ← ho]⟩
    exact hf.trans (hs (hph ▸ hne))

theorem ordered_exec (he : (system T F).Exec h q) : Ordered h q := by
  induction he with
  | start hi =>
    obtain ⟨⟨n, hl⟩, -, -⟩ := hi
    constructor <;> simp [EventLoop.Settled, functors, pendingFunctors, hl, EventLoop.enter]
  | snoc _ hs ih => exact ordered_next hs ih

/-- Inside a `doPendingFunctors` that found `batch` at its swap and has since seen `h`. -/
structure Draining (batch : List F) (h : List (Label T F)) (q : FunctorQueue T F) : Prop where
  looping : q.looping = true
  running : q.threads.loop.phase = .running
  ran : started h ++ q.functors = batch

theorem draining_swap (hn : q.next (.move .swap) = some r) :
    Draining q.pendingFunctors ([] : List (Label T F)) r := by
  obtain ⟨-, hr, hm⟩ := next_move hn
  obtain ⟨-, hl⟩ := by simpa [EventLoop.move] using hm
  exact ⟨hr, by simp [← hl], by simp [functors, pendingFunctors, ← hl]⟩

/-- Pushes go to the queue, so nothing lengthens a batch. -/
theorem draining_next {batch : List F} (hn : q.next a = some r) (ha : a ≠ .move .endPending)
    (hd : Draining batch h q) : Draining batch (h ++ [a]) r := by
  obtain ⟨hl, hrun, hran⟩ := hd
  rcases next_cases hn with ⟨m, rfl, -, hr, hm⟩ | ⟨hs, hf, -, hph, hr⟩
  · rcases EventLoop.move_cases hm with ⟨-, hph, -⟩ | ⟨-, hph, -⟩ | ⟨-, hph, -⟩ | ⟨-, hph, -⟩ |
      ⟨f, fs, rfl, -, hfs, hl'⟩ | ⟨rfl, -⟩
    · simp [hrun] at hph
    · simp [hrun] at hph
    · simp [hrun] at hph
    · simp [hrun] at hph
    · refine ⟨hr, by simp [hl', hrun], ?_⟩
      simpa [functors, starts, hl', hfs] using hran
    · exact absurd rfl ha
  · exact ⟨hr hrun hl, hph.trans hrun, by simpa [hs, hf] using hran⟩

theorem draining_exec {batch : List F} {u : FunctorQueue T F}
    (hd : Draining batch ([] : List (Label T F)) u) (he : ((system T F).resume u).Exec h q)
    (hend : .move .endPending ∉ h) : Draining batch h q := by
  induction he with
  | start hi => exact hi ▸ hd
  | snoc _ hs ih =>
    obtain ⟨hh, ha⟩ := by simpa using hend
    exact draining_next hs (Ne.symm ha) (ih hh)

/-- Between functors, the loop thread runs the next one, or returns when there is none. -/
theorem draining_enabled {batch : List F} (hd : Draining batch h q)
    (hp : q.threads.pushed .loop = false) (m : EventLoop.Move F) :
    (q.next (.move m)).isSome ↔
      (∃ f, q.functors.head? = some f ∧ m = .run f) ∨ (q.functors = [] ∧ m = .endPending) := by
  cases m <;>
    simp [next, LoopThreads.next, EventLoop.move, hd.looping, hd.running, hp, functors]

/-- At every moment the functors started, the rest of the batch and the queue are the pushes in
order; and from its swap on, `doPendingFunctors` runs the functors it found there and returns. -/
theorem functors_in_push_order (he : (system T F).Exec h q) :
    started h ++ q.functors ++ q.pendingFunctors = pushes h ∧
    ∀ u h' r, q.next (.move .swap) = some u → ((system T F).resume u).Exec h' r →
      .move .endPending ∉ h' →
      started h' ++ r.functors = q.pendingFunctors ∧
      (r.threads.pushed .loop = false → ∀ m, (r.next (.move m)).isSome ↔
        (∃ f, r.functors.head? = some f ∧ m = .run f) ∨ (r.functors = [] ∧ m = .endPending)) := by
  refine ⟨(ordered_exec he).order, fun u h' r hu hr hend => ?_⟩
  have hd := draining_exec (draining_swap hu) hr hend
  exact ⟨hd.ran, draining_enabled hd⟩

end

/-- A functor queued before `loop()`, run in it, and queued again by its own body. -/
def requeueRun : List (Label Bool Nat) :=
  [.queueInLoop .loop 1, .wakeup .loop, .runInLoop (.other true) 2, .enter, .wakeup (.other true),
   .move .poll, .move .handleRead, .move .beginPending, .queueInLoop (.other false) 3]

theorem functors_in_push_order_requeue :
    ∃ q, (system Bool Nat).Exec requeueRun q ∧
      ∃ u h' r, q.next (.move .swap) = some u ∧ ((system Bool Nat).resume u).Exec h' r ∧
        pushes requeueRun = q.pendingFunctors ∧ started h' ++ r.functors = q.pendingFunctors ∧
        r.pendingFunctors = [1] := by
  let q₀ : FunctorQueue Bool Nat := ⟨⟨.enter 0, fun _ => false⟩, false⟩
  let tail : List (Label Bool Nat) :=
    [.move (.run 1), .queueInLoop .loop 1, .wakeup .loop, .move (.run 2)]
  have hr : ((requeueRun.foldlM next q₀).bind fun q => (q.next (.move .swap)).bind fun u =>
      (tail.foldlM next u).map fun r => (q.functors, r.pendingFunctors)) = some ([], [1]) := by
    decide
  obtain ⟨q, hq, hr⟩ := Option.bind_eq_some_iff.mp hr
  obtain ⟨u, hu, hr⟩ := Option.bind_eq_some_iff.mp hr
  obtain ⟨r, hr, hv⟩ := Option.map_eq_some_iff.mp hr
  obtain ⟨hf, hp⟩ := Prod.mk.inj hv
  have hi : (system Bool Nat).init q₀ := ⟨⟨0, rfl⟩, fun _ => rfl, rfl⟩
  have he : (system Bool Nat).Exec requeueRun q :=
    Trace.LTS.exec_of_foldlM (fun _ _ _ h => h) hi hq
  have hx : ((system Bool Nat).resume u).Exec tail r :=
    Trace.LTS.exec_of_foldlM (fun _ _ _ h => h) rfl hr
  obtain ⟨ho, hb⟩ := functors_in_push_order he
  have hs : started requeueRun = [] := by decide
  rw [hs, hf] at ho
  exact ⟨q, he, u, tail, r, hu, hx, ho.symm, (hb u tail r hu hx (by decide)).1, hp⟩

end FunctorQueue

end Lute
