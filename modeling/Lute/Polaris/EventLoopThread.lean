import Lute.Lib.Trace

/-! A loop in a thread of its own: `startLoop` and the destructor against `threadFunc`. -/
namespace Lute

/-- The owner: in `startLoop`, between it and the destructor, in the destructor's test of `loop_`
and its call, in `quit()` before each access, and at `join`. `nullCall` is a call through a null
`loop_`, `finished` a destructor that found none. -/
inductive OwnerPc
  | waiting
  | returned
  | testLoop
  | callQuit
  | readLooping
  | writeFalse
  | writeTrue
  | wakeup
  | joining
  | joined
  | nullCall
  | finished
  deriving DecidableEq, Repr

/-- The loop thread before each access; `selfRead` and `selfWrite` are in a `quit()` called by a
callback. -/
inductive LoopPc
  | publish
  | assertNotLooping
  | setLooping
  | clearQuit
  | test
  | body
  | selfRead
  | selfWrite
  | leave
  | clearLoop
  | done
  deriving DecidableEq, Repr

/-- `hasLoop` says that `loop_` is not null. -/
structure EventLoopThread where
  owner : OwnerPc
  loop : LoopPc
  hasLoop : Bool
  looping : Bool
  quit : Bool
  deriving DecidableEq, Repr

namespace EventLoopThread

/-- A step of the owner, of the loop thread, or a callback in the loop calling `quit()`. -/
inductive Action
  | owner
  | loop
  | callback
  deriving DecidableEq, Repr

/-- After `thread_.start()`, with the new loop not yet published. -/
def start : EventLoopThread := ⟨.waiting, .publish, false, false, false⟩

def ownerNext (s : EventLoopThread) : Option EventLoopThread :=
  match s.owner with
  | .waiting => if s.hasLoop then some { s with owner := .returned } else none
  | .returned => some { s with owner := .testLoop }
  | .testLoop => some { s with owner := if s.hasLoop then .callQuit else .finished }
  | .callQuit => some { s with owner := if s.hasLoop then .readLooping else .nullCall }
  | .readLooping => some { s with owner := if s.looping then .writeTrue else .writeFalse }
  | .writeFalse => some { s with owner := .joining, quit := false }
  | .writeTrue => some { s with owner := .wakeup, quit := true }
  | .wakeup => some { s with owner := .joining }
  | .joining => if s.loop = .done then some { s with owner := .joined } else none
  | .joined | .nullCall | .finished => none

def loopNext (s : EventLoopThread) : Option EventLoopThread :=
  match s.loop with
  | .publish => some { s with loop := .assertNotLooping, hasLoop := true }
  | .assertNotLooping => if s.looping then none else some { s with loop := .setLooping }
  | .setLooping => some { s with loop := .clearQuit, looping := true }
  | .clearQuit => some { s with loop := .test, quit := false }
  | .test => some { s with loop := if s.quit then .leave else .body }
  | .body => some { s with loop := .test }
  | .selfRead => some { s with loop := if s.looping then .selfWrite else .body }
  | .selfWrite => some { s with loop := .body, quit := true }
  | .leave => some { s with loop := .clearLoop, looping := false }
  | .clearLoop => some { s with loop := .done, hasLoop := false }
  | .done => none

def next (s : EventLoopThread) : Action → Option EventLoopThread
  | .owner => s.ownerNext
  | .loop => s.loopNext
  | .callback => if s.loop = .body then some { s with loop := .selfRead } else none

def system : Trace.LTS EventLoopThread Action where
  init s := s = start
  step s a t := s.next a = some t

/-- The owner's `quit()` has returned. -/
def QuitCompleted (s : EventLoopThread) : Prop := s.owner = .joining ∨ s.owner = .joined

/-- About to enter the `while` loop, or inside it. -/
def InWhile (s : EventLoopThread) : Prop :=
  s.loop = .test ∨ s.loop = .body ∨ s.loop = .selfRead ∨ s.loop = .selfWrite

/-- The request is gone while the loop goes on, with `join` behind it. -/
def QuitLost (s : EventLoopThread) : Prop := s.QuitCompleted ∧ s.InWhile ∧ s.quit = false

/-- The owner's `quit()` looks at `looping_` once `loop()` has set it, and sets `quit_` once
`loop()` has cleared it. -/
def AfterEntry (s : EventLoopThread) (a : Action) : Prop :=
  a = .owner →
    (s.owner = .readLooping → s.loop ≠ .assertNotLooping ∧ s.loop ≠ .setLooping) ∧
    (s.owner = .writeTrue → s.loop ≠ .clearQuit)

/-- `looping` follows the loop thread, and a `quit()` past its test has `loop()` where its write
is not undone. -/
structure Inv (s : EventLoopThread) : Prop where
  published : s.loop = .publish → s.owner = .waiting ∧ s.hasLoop = false
  looping : s.looping = true ↔ s.loop = .clearQuit ∨ s.InWhile ∨ s.loop = .leave
  writeTrue : s.owner = .writeTrue → s.loop ≠ .assertNotLooping ∧ s.loop ≠ .setLooping
  writeFalse : s.owner = .writeFalse → s.loop = .clearLoop ∨ s.loop = .done
  written : s.owner = .wakeup ∨ s.QuitCompleted →
    (s.InWhile ∧ s.quit = true) ∨ s.loop = .leave ∨ s.loop = .clearLoop ∨ s.loop = .done

variable {s t : EventLoopThread} {a : Action} {h : List Action}

theorem inv_owner (hn : s.ownerNext = some t) (hc : s.AfterEntry .owner) (hi : s.Inv) : t.Inv := by
  obtain ⟨hread, hwrite⟩ := hc rfl
  obtain ⟨hpub, hloop, htrue, hfalse, hwritten⟩ := hi
  cases ho : s.owner with
  | waiting =>
    obtain ⟨hl, rfl⟩ := by simpa [ownerNext, ho] using hn
    constructor <;> grind [InWhile, QuitCompleted]
  | returned | testLoop | callQuit | writeFalse | wakeup =>
    obtain rfl := by simpa [ownerNext, ho] using hn
    constructor <;> grind [InWhile, QuitCompleted]
  | readLooping =>
    -- `looping_` is set from before `quit_` is cleared until the loop has been left
    have hpast := hread ho
    obtain rfl := by simpa [ownerNext, ho] using hn
    cases hl : s.loop <;> constructor <;> grind [InWhile, QuitCompleted]
  | writeTrue =>
    have hpast := hwrite ho
    obtain rfl := by simpa [ownerNext, ho] using hn
    cases hl : s.loop <;> constructor <;> grind [InWhile, QuitCompleted]
  | joining =>
    obtain ⟨hd, rfl⟩ := by simpa [ownerNext, ho] using hn
    constructor <;> grind [InWhile, QuitCompleted]
  | joined | nullCall | finished => simp [ownerNext, ho] at hn

theorem inv_loop (hn : s.loopNext = some t) (hi : s.Inv) : t.Inv := by
  obtain ⟨hpub, hloop, htrue, hfalse, hwritten⟩ := hi
  cases hl : s.loop with
  | assertNotLooping =>
    obtain ⟨hne, rfl⟩ := by simpa [loopNext, hl] using hn
    constructor <;> grind [InWhile, QuitCompleted]
  | publish | setLooping | clearQuit | test | body | selfRead | selfWrite | leave | clearLoop =>
    obtain rfl := by simpa [loopNext, hl] using hn
    constructor <;> grind [InWhile, QuitCompleted]
  | done => simp [loopNext, hl] at hn

theorem inv_next (hn : s.next a = some t) (hc : s.AfterEntry a) (hi : s.Inv) : t.Inv := by
  cases a with
  | owner => exact inv_owner hn hc hi
  | loop => exact inv_loop hn hi
  | callback =>
    obtain ⟨hpub, hloop, htrue, hfalse, hwritten⟩ := hi
    obtain ⟨hl, rfl⟩ := by simpa [next] using hn
    constructor <;> grind [InWhile, QuitCompleted]

theorem inv_exec (he : (system.restrict AfterEntry).Exec h s) : s.Inv := by
  induction he with
  | start hi =>
    obtain rfl := hi
    constructor <;> simp [start, InWhile, QuitCompleted]
  | snoc _ hs ih => exact inv_next hs.2 hs.1 ih

/-- In every run in which `quit()` finds `loop()` past its entry, no request is lost. -/
theorem quit_not_lost (he : (system.restrict AfterEntry).Exec h s) : ¬ s.QuitLost := by
  rintro ⟨hq, hw, hf⟩
  have hi := inv_exec he
  rcases hi.written (.inr hq) with ⟨-, ht⟩ | hl | hl | hl
  · simp [ht] at hf
  · simp [InWhile, hl] at hw
  · simp [InWhile, hl] at hw
  · simp [InWhile, hl] at hw

instance (s : EventLoopThread) (a : Action) : Decidable (s.AfterEntry a) :=
  inferInstanceAs (Decidable (_ → _))

/-- The loop is entered before the owner quits it. -/
def orderlyRun : List Action :=
  [.loop, .owner, .loop, .loop, .loop, .loop, .owner, .owner, .owner, .owner, .owner, .owner]

theorem quit_not_lost_orderly :
    ∃ s, (system.restrict AfterEntry).Exec orderlyRun s ∧ s.QuitCompleted ∧ ¬ s.QuitLost := by
  have hrun : orderlyRun.foldlM (fun s a => if s.AfterEntry a then s.next a else none) start =
      some ⟨.joining, .body, true, true, true⟩ := by decide
  have he : (system.restrict AfterEntry).Exec orderlyRun ⟨.joining, .body, true, true, true⟩ := by
    refine Trace.LTS.exec_of_foldlM (fun s a t hst => ?_) rfl hrun
    split_ifs at hst with hc
    exact ⟨hc, hst⟩
  exact ⟨_, he, .inl rfl, quit_not_lost he⟩

/-- The destructor comes between the publication of the loop and its entry. -/
def hastyRun : List Action :=
  [.loop, .owner, .owner, .owner, .owner, .owner, .owner, .loop, .loop, .loop]

theorem hasty_quit_lost : ∃ s, system.Exec hastyRun s ∧ s.QuitLost := by
  have hrun : hastyRun.foldlM next start = some ⟨.joining, .test, true, true, false⟩ := by decide
  have he := Trace.LTS.exec_of_foldlM (L := system) (fun _ _ _ h => h) rfl hrun
  exact ⟨_, he, .inl rfl, .inl rfl, rfl⟩

end EventLoopThread

end Lute
