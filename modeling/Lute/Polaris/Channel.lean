import Mathlib.Data.BitVec

/-! The interest mask of a channel and the dispatch of the events received for it. -/
namespace Lute

def POLLIN : BitVec 32 := 0x001
def POLLPRI : BitVec 32 := 0x002
def POLLOUT : BitVec 32 := 0x004
def POLLERR : BitVec 32 := 0x008
def POLLHUP : BitVec 32 := 0x010
def POLLNVAL : BitVec 32 := 0x020
def POLLRDHUP : BitVec 32 := 0x2000

/-- The four callbacks a channel may call. -/
inductive Handler
  | close
  | error
  | read
  | write
  deriving DecidableEq, Repr

structure Channel where
  events : BitVec 32
  deriving DecidableEq, Repr

namespace Channel

def kNoneEvent : BitVec 32 := 0
def kReadEvent : BitVec 32 := POLLIN ||| POLLPRI
def kWriteEvent : BitVec 32 := POLLOUT

/-- A channel as its constructor leaves it. -/
def new : Channel := ⟨0⟩

def isNoneEvent (c : Channel) : Bool := c.events == kNoneEvent
def isWriting (c : Channel) : Bool := c.events &&& kWriteEvent != 0
def isReading (c : Channel) : Bool := c.events &&& kReadEvent != 0

def enableReading (c : Channel) : Channel := ⟨c.events ||| kReadEvent⟩
def disableReading (c : Channel) : Channel := ⟨c.events &&& ~~~kReadEvent⟩
def enableWriting (c : Channel) : Channel := ⟨c.events ||| kWriteEvent⟩
def disableWriting (c : Channel) : Channel := ⟨c.events &&& ~~~kWriteEvent⟩
def disableAll (_ : Channel) : Channel := ⟨kNoneEvent⟩

/-- The callbacks called for `revents_`, in order, when all four are set. -/
def handleEventWithGuard (revents : BitVec 32) : List Handler :=
  (if revents &&& POLLHUP ≠ 0 ∧ revents &&& POLLIN = 0 then [.close] else []) ++
  (if revents &&& (POLLERR ||| POLLNVAL) ≠ 0 then [.error] else []) ++
  (if revents &&& (POLLIN ||| POLLPRI ||| POLLRDHUP) ≠ 0 then [.read] else []) ++
  (if revents &&& POLLOUT ≠ 0 then [.write] else [])

variable (c : Channel)

/-- A single bit decides whether a mask with that bit alone is met. -/
theorem and_twoPow_ne_zero (e : BitVec 32) {i : Nat} (hi : i < 32) :
    (e &&& BitVec.twoPow 32 i != 0) = e.getLsbD i := by
  rw [BitVec.and_twoPow]
  cases e.getLsbD i with
  | false => rfl
  | true =>
    have hne : BitVec.twoPow 32 i ≠ 0 := by
      intro h
      have := congrArg (fun v => BitVec.getLsbD v i) h
      simp [hi] at this
    simpa using hne

theorem isWriting_eq : c.isWriting = c.events.getLsbD 2 :=
  and_twoPow_ne_zero c.events (show 2 < 32 by decide)

@[simp] theorem isWriting_enableWriting : c.enableWriting.isWriting = true := by
  simp [isWriting_eq, enableWriting, kWriteEvent, POLLOUT]

@[simp] theorem isWriting_disableWriting : c.disableWriting.isWriting = false := by
  simp [isWriting_eq, disableWriting, kWriteEvent, POLLOUT]

@[simp] theorem isWriting_disableAll : c.disableAll.isWriting = false := by
  simp [isWriting_eq, disableAll, kNoneEvent]

@[simp] theorem isNoneEvent_disableAll : c.disableAll.isNoneEvent = true := rfl

@[simp] theorem isWriting_new : new.isWriting = false := rfl

@[simp] theorem isWriting_enableReading : c.enableReading.isWriting = c.isWriting := by
  simp [isWriting_eq, enableReading, kReadEvent, POLLIN, POLLPRI]

@[simp] theorem isWriting_disableReading : c.disableReading.isWriting = c.isWriting := by
  simp [isWriting_eq, disableReading, kReadEvent, POLLIN, POLLPRI]

theorem isReading_eq : c.isReading = (c.events.getLsbD 0 || c.events.getLsbD 1) := by
  have h0 := and_twoPow_ne_zero c.events (show 0 < 32 by decide)
  have h1 := and_twoPow_ne_zero c.events (show 1 < 32 by decide)
  have hk : kReadEvent = BitVec.twoPow 32 0 ||| BitVec.twoPow 32 1 := by decide
  rw [isReading, hk, BitVec.and_or_distrib_left, ← h0, ← h1, Bool.eq_iff_iff]
  simp only [bne_iff_ne, ne_eq, Bool.or_eq_true, ← not_and_or, not_iff_not]
  exact BitVec.or_eq_zero_iff

@[simp] theorem isReading_enableReading : c.enableReading.isReading = true := by
  simp [isReading_eq, enableReading, kReadEvent, POLLIN, POLLPRI]

@[simp] theorem isReading_disableReading : c.disableReading.isReading = false := by
  simp [isReading_eq, disableReading, kReadEvent, POLLIN, POLLPRI]

@[simp] theorem isReading_enableWriting : c.enableWriting.isReading = c.isReading := by
  simp [isReading_eq, enableWriting, kWriteEvent, POLLOUT]

@[simp] theorem isReading_disableWriting : c.disableWriting.isReading = c.isReading := by
  simp [isReading_eq, disableWriting, kWriteEvent, POLLOUT]

theorem isNoneEvent_of_isReading (h : c.isReading = true) : c.isNoneEvent = false := by
  cases hn : c.isNoneEvent with
  | false => rfl
  | true =>
    have he : c.events = 0 := by simpa [isNoneEvent, kNoneEvent] using hn
    simp [isReading_eq, he] at h

theorem isWriting_of_isNoneEvent (h : c.isNoneEvent = true) : c.isWriting = false := by
  have he : c.events = 0 := by simpa [isNoneEvent, kNoneEvent] using h
  simp [isWriting_eq, he]

theorem isNoneEvent_of_isWriting (h : c.isWriting = true) : c.isNoneEvent = false := by
  cases hn : c.isNoneEvent with
  | false => rfl
  | true => simp [c.isWriting_of_isNoneEvent hn] at h

theorem isNoneEvent_enableReading : c.enableReading.isNoneEvent = false :=
  c.enableReading.isNoneEvent_of_isReading c.isReading_enableReading

end Channel

end Lute
