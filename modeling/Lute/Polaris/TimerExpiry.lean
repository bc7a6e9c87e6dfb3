import Lute.Polaris.TimerLife

/-! Which timers a read calls, in which order, and what becomes of them. -/
namespace Lute

variable {I : Type} {build : Build} {V : Intervals I}

namespace TimerQueue

variable {q q' : TimerQueue I} {B E : List Entry} {P : Finset Nat} {now clock : Int}

/-- `E` are the timers of `q` that are due at `now`, each once and the earliest first, and `q'`
holds the others. -/
structure Expires (q : TimerQueue I) (now : Int) (q' : TimerQueue I) (E : List Entry) : Prop where
  stamped : ∀ e ∈ q.timers, ∃ t, q.heap e.timer = some t ∧ t.expiration = e.when ∧
    (e.timer, t.sequence) ∈ q.activeTimers
  due : ∀ e, e ∈ E ↔ e ∈ q.timers ∧ e.when ≤ now
  once : (E.map Entry.timer).Nodup
  ordered : E.Pairwise fun e f => e.when ≤ f.when
  timers : ∀ e, e ∈ q'.timers ↔ e ∈ q.timers ∧ now < e.when
  actives : ∀ p, p ∈ q'.activeTimers ↔
    p ∈ q.activeTimers ∧ ∃ t, q.heap p.1 = some t ∧ now < t.expiration
  heap : q'.heap = q.heap

theorem tidy_forget (h : Tidy q B P) : Tidy q [] P where
  entries := h.entries
  actives := h.actives
  batch := by simp
  nodup := List.nodup_nil
  fresh a ha := ⟨by simp, (h.fresh a ha).2⟩
  bounded := h.bounded

theorem getExpired_sorted (hq : q.getExpired build now = .ok (q', E)) :
    E.Pairwise fun e f => e.when ≤ f.when := by
  unfold getExpired at hq
  obtain ⟨q₁, -, hq⟩ := bind_ok (Build.assert_bind_ok (Build.assert_bind_ok hq))
  replace hq := Build.assert_bind_ok hq
  obtain ⟨-, rfl⟩ := Prod.mk.inj (Except.ok.inj hq)
  exact (Finset.pairwise_sort _ _).imp fun hle => Entry.when_le_of_le hle

theorem getExpired_expires (h : Tidy q B P) (now : Int) :
    ∃ q' E, q.getExpired build now = .ok (q', E) ∧ q.Expires now q' E := by
  obtain ⟨q', E, hq, htidy, hrest, hE, hheap⟩ := getExpired_spec build (tidy_forget h) now
  refine ⟨q', E, hq, h.entries, hE, htidy.nodup, getExpired_sorted hq, hrest, ?_, hheap⟩
  rintro ⟨a, seq⟩
  constructor
  · intro hp
    obtain ⟨t, ht, hs, he⟩ := htidy.actives _ hp
    obtain ⟨he, hlt⟩ := (hrest _).mp he
    rw [hheap] at ht
    obtain ⟨t', ht', hm, -⟩ := (mem_timers_iff h).mp he
    obtain rfl : t' = t := Option.some.inj (ht'.symm.trans ht)
    rw [hs] at hm
    exact ⟨hm, t', ht', hlt⟩
  · rintro ⟨hp, t, ht, hlt⟩
    obtain ⟨t', ht', hs, he⟩ := h.actives _ hp
    obtain rfl : t' = t := Option.some.inj (ht'.symm.trans ht)
    have he' := (hrest _).mpr ⟨he, hlt⟩
    obtain ⟨t₁, ht₁, hm, -⟩ := (mem_timers_iff htidy).mp he'
    rw [hheap] at ht₁
    obtain rfl : t₁ = t' := Option.some.inj (ht₁.symm.trans ht')
    rwa [hs] at hm

theorem beginRead_expires (h : Tidy q B P) (hq : q.beginRead build now = .ok (q', E)) :
    q.Expires now q' E := by
  obtain ⟨⟨q₁, E₁⟩, hg, hq⟩ := bind_ok hq
  obtain ⟨rfl, rfl⟩ := Prod.mk.inj (Except.ok.inj hq)
  have h₀ : Tidy { q with timerfd := q.timerfd.read } B P := h.congr rfl rfl rfl
  obtain ⟨q₂, E₂, hg', hex⟩ := getExpired_expires h₀ now
  obtain ⟨rfl, rfl⟩ := Prod.mk.inj (Except.ok.inj (hg'.symm.trans hg))
  exact ⟨hex.stamped, hex.due, hex.once, hex.ordered, hex.timers, hex.actives, hex.heap⟩

end TimerQueue

namespace TimerSystem

variable {s t : TimerSystem I} {a : Label I} {h : List (Label I)}

/-- The timers and their clock; `addTimer` may be called on any thread. -/
def readSystem (build : Build) (V : Intervals I) : Trace.LTS (TimerSystem I) (Label I) where
  init s := ∃ clock, s = start I clock
  step := Step build V

/-- The callbacks called since the last read began. -/
def noteCall (timers : List Nat) : Label I → List Nat
  | .beginRead => []
  | .run timer => timers ++ [timer]
  | _ => timers

def called (h : List (Label I)) : List Nat := h.foldl noteCall []

/-- The ids cancelled since then. -/
def noteCancel (ids : List (Nat × Nat)) : Label I → List (Nat × Nat)
  | .beginRead => []
  | .cancelInLoop timerId => ids ++ [timerId]
  | _ => ids

def cancelledSince (h : List (Label I)) : List (Nat × Nat) := h.foldl noteCancel []

theorem called_snoc (h : List (Label I)) (a : Label I) :
    called (h ++ [a]) = noteCall (called h) a := by
  simp [called]

theorem cancelledSince_snoc (h : List (Label I)) (a : Label I) :
    cancelledSince (h ++ [a]) = noteCancel (cancelledSince h) a := by
  simp [cancelledSince]

/-- The timer that expired as `e` is in both sets again, to expire an interval after `now`. -/
def PutBack (V : Intervals I) (now : Int) (q : TimerQueue I) (e : Entry) (t : Timer I) : Prop :=
  q.heap e.timer = some { t with expiration := V.addTime now t.interval } ∧
    Entry.mk (V.addTime now t.interval) e.timer ∈ q.timers ∧
    (e.timer, t.sequence) ∈ q.activeTimers

/-- It is in neither. -/
def TakenOut (q : TimerQueue I) (e : Entry) : Prop :=
  (∀ f ∈ q.timers, f.timer ≠ e.timer) ∧ ∀ p ∈ q.activeTimers, p.1 ≠ e.timer

/-- The read that `b` is the batch of: it has taken what was due in the state it began in, and none
has begun or ended since. -/
def BeganIn (build : Build) (V : Intervals I) (h : List (Label I)) (b : Batch) : Prop :=
  ∃ before since s q, h = before ++ .beginRead :: since ∧ (readSystem build V).Exec before s ∧
    s.clock = b.now ∧ s.queue.Expires b.now q b.expired ∧ .beginRead ∉ since ∧ .endRead ∉ since

/-- What expires at any time, and how a read that is under way after the history `h` goes on. -/
structure Punctual (build : Build) (V : Intervals I) (h : List (Label I)) (s : TimerSystem I) :
    Prop where
  getExpired : ∀ now, ∃ q E, s.queue.getExpired build now = .ok (q, E) ∧ s.queue.Expires now q E
  beginRead : ∀ t, Step build V s .beginRead t → ∃ E,
    t.batch = some ⟨s.clock, E, E⟩ ∧ s.queue.Expires s.clock t.queue E
  run : ∀ timer t, Step build V s (.run timer) t → ∃ b tm, s.batch = some b ∧
    s.queue.heap timer = some tm ∧ tm.expiration ≤ b.now ∧ b.now ≤ s.clock
  batch : ∀ b, s.batch = some b → BeganIn build V h b
  calls : ∀ b, s.batch = some b → (b.expired.map Entry.timer).Nodup ∧
    called h ++ b.rest.map Entry.timer = b.expired.map Entry.timer
  endRead : ∀ t, Step build V s .endRead t → ∃ b, s.batch = some b ∧
    called h = b.expired.map Entry.timer ∧
    ∀ e ∈ b.expired, ∃ tm, s.queue.heap e.timer = some tm ∧ tm.expiration = e.when ∧
      if tm.repeats = true ∧ (e.timer, tm.sequence) ∉ cancelledSince h then
        PutBack V b.now t.queue e tm
      else TakenOut t.queue e

/-- The batch under way, its timers as they were when they expired, and what has become of it. -/
structure ReadInv (h : List (Label I)) (s : TimerSystem I) : Prop where
  placed : s.Placed
  began : ∀ b, s.batch = some b → b.now ≤ s.clock
  stamped : ∀ b, s.batch = some b → ∀ e ∈ b.expired, e.when ≤ b.now ∧
    ∃ t, s.queue.heap e.timer = some t ∧ t.expiration = e.when
  calls : ∀ b, s.batch = some b →
    called h ++ b.rest.map Entry.timer = b.expired.map Entry.timer
  cancels : ∀ b, s.batch = some b → ∀ e ∈ b.expired, ∀ t, s.queue.heap e.timer = some t →
    ((e.timer, t.sequence) ∈ s.queue.cancelingTimers ↔
      (e.timer, t.sequence) ∈ cancelledSince h)

theorem mem_noteCancel {ids : List (Nat × Nat)} {id : Nat × Nat} (ha : a ≠ .beginRead) :
    id ∈ noteCancel ids a ↔ id ∈ ids ∨ a = .cancelInLoop id := by
  cases a with
  | beginRead => exact absurd rfl ha
  | cancelInLoop timerId => simp [noteCancel, eq_comm]
  | _ => simp [noteCancel]

theorem mem_inBatch {b : Batch} {e : Entry} (hb : s.batch = some b) (he : e ∈ b.expired) :
    e ∈ s.inBatch := by
  simpa [inBatch, hb] using he

/-- A step other than those of the read itself, which leaves the timers of the batch alone. -/
theorem ReadInv.keep (hi : ReadInv h s) (hp : t.Placed) (ha : a ≠ .beginRead)
    (hrun : ∀ timer, a ≠ .run timer) (hb : t.batch = s.batch) (hc : s.clock ≤ t.clock)
    (hheap : ∀ e ∈ s.inBatch, t.queue.heap e.timer = s.queue.heap e.timer)
    (hcancel : ∀ e ∈ s.inBatch, ∀ tm, s.queue.heap e.timer = some tm →
      ((e.timer, tm.sequence) ∈ t.queue.cancelingTimers ↔
        (e.timer, tm.sequence) ∈ s.queue.cancelingTimers ∨
          a = .cancelInLoop (e.timer, tm.sequence))) : ReadInv (h ++ [a]) t where
  placed := hp
  began b hb' := (hi.began b (hb ▸ hb')).trans hc
  stamped b hb' e he := by
    rw [hb] at hb'
    rw [hheap e (mem_inBatch hb' he)]
    exact hi.stamped b hb' e he
  calls b hb' := by
    have hcalls := hi.calls b (hb ▸ hb')
    have hnote : noteCall (called h) a = called h := by
      cases a with
      | beginRead => exact absurd rfl ha
      | run timer => exact absurd rfl (hrun timer)
      | _ => rfl
    rwa [called_snoc, hnote]
  cancels b hb' e he tm htm := by
    rw [hb] at hb'
    have hm := mem_inBatch hb' he
    rw [hheap e hm] at htm
    rw [hcancel e hm tm htm, cancelledSince_snoc, mem_noteCancel ha, hi.cancels b hb' e he tm htm]

theorem readInv_step (hs : Step build V s a t) (hi : ReadInv h s) : ReadInv (h ++ [a]) t := by
  have hp := placed_step hs hi.placed
  cases hs with
  | tick hle => exact hi.keep hp (by simp) (by simp) rfl hle (fun _ _ => rfl) (by simp)
  | fire => exact hi.keep hp (by simp) (by simp) rfl le_rfl (fun _ _ => rfl) (by simp)
  | @new timer when interval hfree hlt =>
    refine hi.keep hp (by simp) (by simp) rfl le_rfl (fun e he => ?_) (by simp)
    exact Function.update_of_ne (hi.placed.tidy.batch_ne hfree he) _ _
  | addTimerInLoop _ hq =>
    obtain ⟨-, -, hheap, -, hcancel, -⟩ := TimerQueue.addTimerInLoop_ok hq
    refine hi.keep hp (by simp) (by simp) rfl le_rfl (fun e _ => congrFun hheap _) ?_
    simp [hcancel]
  | @cancelInLoop timerId q hq =>
    refine hi.keep hp (by simp) (by simp) rfl le_rfl (fun e he => ?_) (fun e he tm htm => ?_)
    · obtain ⟨tm, htm, -⟩ := hi.placed.tidy.batch e he
      have hcall := hi.placed.calling_of_mem he
      exact (TimerQueue.cancelInLoop_batch hq hi.placed.tidy he hcall htm).1
    · have hcall := hi.placed.calling_of_mem he
      simpa using (TimerQueue.cancelInLoop_batch hq hi.placed.tidy he hcall htm).2
  | @beginRead q E hb hq =>
    have htidy := hi.placed.tidy
    have hex := TimerQueue.beginRead_expires htidy hq
    refine ⟨hp, ?_, ?_, ?_, ?_⟩
    · rintro b ⟨⟩
      exact le_rfl
    · rintro b ⟨⟩ e he
      obtain ⟨hm, hle⟩ := (hex.due e).mp he
      obtain ⟨tm, htm, hw, -⟩ := hex.stamped e hm
      exact ⟨hle, tm, by rwa [hex.heap], hw⟩
    · rintro b ⟨⟩
      simp [called_snoc, noteCall]
    · rintro b ⟨⟩ e he tm htm
      change _ ∈ q.cancelingTimers ↔ _
      simp [TimerQueue.beginRead_canceling hq, cancelledSince_snoc, noteCancel]
  | @run now expired rest it hb =>
    refine ⟨hp, ?_, ?_, ?_, ?_⟩
    · rintro b ⟨⟩
      exact hi.began ⟨now, expired, it :: rest⟩ hb
    · rintro b ⟨⟩
      exact hi.stamped ⟨now, expired, it :: rest⟩ hb
    · rintro b ⟨⟩
      have hcalls := hi.calls _ hb
      simpa [called_snoc, noteCall] using hcalls
    · rintro b ⟨⟩
      have hcancels := hi.cancels _ hb
      simpa [cancelledSince_snoc, noteCancel] using hcancels
  | endRead =>
    exact ⟨hp, by simp, by simp, by simp, by simp⟩

theorem readInv_exec (he : (readSystem build V).Exec h s) : ReadInv h s := by
  induction he with
  | start hi =>
    obtain ⟨clock, rfl⟩ := hi
    exact ⟨placed_start, by simp [start], by simp [start], by simp [start], by simp [start]⟩
  | snoc _ hs ih => exact readInv_step hs ih

/-- Between its two ends a read keeps its batch. -/
theorem batch_step (hs : Step build V s a t) (ha : a ≠ .beginRead) {b : Batch}
    (hb : t.batch = some b) : a ≠ .endRead ∧ ∃ b', s.batch = some b' ∧ b'.now = b.now ∧
      b'.expired = b.expired := by
  cases hs with
  | beginRead => exact absurd rfl ha
  | endRead => cases hb
  | @run now expired rest it hb' =>
    obtain rfl := Option.some.inj hb
    exact ⟨by simp, _, hb', rfl, rfl⟩
  | tick | fire | new | addTimerInLoop | cancelInLoop => exact ⟨by simp, b, hb, rfl, rfl⟩

theorem beganIn_exec (he : (readSystem build V).Exec h s) {b : Batch} (hb : s.batch = some b) :
    BeganIn build V h b := by
  induction he generalizing b with
  | start hi =>
    obtain ⟨clock, rfl⟩ := hi
    cases hb
  | @snoc h s t a he hs ih =>
    by_cases ha : a = .beginRead
    · subst ha
      cases hs with
      | @beginRead q E hnone hq =>
        obtain rfl := Option.some.inj hb
        have hex := TimerQueue.beginRead_expires (readInv_exec he).placed.tidy hq
        exact ⟨h, [], s, q, rfl, he, rfl, hex, by simp, by simp⟩
    · obtain ⟨hend, b', hb', hnow, hexp⟩ := batch_step hs ha hb
      obtain ⟨before, since, s₀, q, rfl, he₀, hclock, hex, hbegin, hno⟩ := ih hb'
      rw [hnow] at hclock hex
      rw [hexp] at hex
      refine ⟨before, since ++ [a], s₀, q, by simp, he₀, hclock, hex, ?_, ?_⟩
      · simp [hbegin, Ne.symm ha]
      · simp [hno, Ne.symm hend]

/-- The end of a read: `reset` has put a timer back, or deleted it. -/
theorem ReadInv.endRead (hi : ReadInv h s) (hs : Step build V s .endRead t) :
    ∃ b, s.batch = some b ∧ called h = b.expired.map Entry.timer ∧
      ∀ e ∈ b.expired, ∃ tm, s.queue.heap e.timer = some tm ∧ tm.expiration = e.when ∧
        if tm.repeats = true ∧ (e.timer, tm.sequence) ∉ cancelledSince h then
          PutBack V b.now t.queue e tm
        else TakenOut t.queue e := by
  cases hs with
  | @endRead now expired q hb hq =>
    have htidy := hi.placed.tidy
    simp only [inBatch, hb] at htidy
    have hafter := TimerQueue.endRead_tidy build htidy hq
    obtain ⟨-, -, -, hactive⟩ := TimerQueue.endRead_ok hq
    refine ⟨_, hb, by simpa using hi.calls _ hb, fun e he => ?_⟩
    obtain ⟨-, tm, htm, hw⟩ := hi.stamped _ hb e he
    obtain ⟨tm', htm', heap⟩ := (TimerQueue.endRead_each htidy.nodup hq).2.2 e he
    obtain rfl : tm' = tm := Option.some.inj (htm'.symm.trans htm)
    have hcancels := hi.cancels _ hb e he tm' htm
    simp only [hcancels] at heap
    refine ⟨tm', htm, hw, ?_⟩
    split_ifs at heap ⊢ with hback
    · have hrestart : tm'.restart V now =
          { tm' with expiration := V.addTime now tm'.interval } := by
        simp [Timer.restart, hback.1]
      rw [hrestart] at heap
      have hm := (hactive e.timer (List.mem_map_of_mem he) _ heap).2
      exact ⟨heap, (TimerQueue.mem_timers_iff hafter).mpr ⟨_, heap, hm, rfl⟩, hm⟩
    · constructor
      · intro f hf heq
        obtain ⟨tm₁, htm₁, -⟩ := hafter.entries f hf
        rw [heq, heap] at htm₁
        cases htm₁
      · intro p hp heq
        obtain ⟨tm₁, htm₁, -⟩ := hafter.actives p hp
        rw [heq, heap] at htm₁
        cases htm₁

/-- Whatever the callbacks add and cancel, a read calls what is due when it begins and nothing
else, each timer once and in the order of their times, never before its time. -/
theorem expiry_punctual (he : (readSystem build V).Exec h s) : Punctual build V h s where
  getExpired now := TimerQueue.getExpired_expires (readInv_exec he).placed.tidy now
  beginRead t hs := by
    have htidy := (readInv_exec he).placed.tidy
    cases hs with
    | @beginRead q E hb hq => exact ⟨E, rfl, TimerQueue.beginRead_expires htidy hq⟩
  run timer t hs := by
    have hi := readInv_exec he
    cases hs with
    | @run now expired rest it hb =>
      have hcalls := hi.calls _ hb
      have hm : it.timer ∈ expired.map Entry.timer := by
        rw [← hcalls]
        simp
      obtain ⟨e, hmem, heq⟩ := List.mem_map.mp hm
      obtain ⟨hle, tm, htm, hw⟩ := hi.stamped _ hb e hmem
      rw [heq] at htm
      exact ⟨_, tm, hb, htm, hw.trans_le hle, hi.began _ hb⟩
  batch b hb := beganIn_exec he hb
  calls b hb := by
    have hi := readInv_exec he
    have hnd := hi.placed.tidy.nodup
    simp only [inBatch, hb] at hnd
    exact ⟨hnd, hi.calls b hb⟩
  endRead t hs := (readInv_exec he).endRead hs

/-- A repeating timer is called and put back. -/
theorem expiry_punctual_repeating :
    ∃ s t, (readSystem .debug microseconds).Exec
        [.new 16 500 7, .addTimerInLoop 16, .beginRead, .run 16] s ∧
      Step .debug microseconds s .endRead t ∧
      PutBack microseconds 1000 t.queue (Entry.mk 500 16) (.new microseconds 500 7 1) := by
  have e₀ : (readSystem .debug microseconds).Exec [] (start Int 1000) := .start ⟨1000, rfl⟩
  have e₁ := e₀.snoc (@Step.new Int .debug microseconds _ 16 500 7 rfl (by decide))
  have e₂ := e₁.snoc (@Step.addTimerInLoop Int .debug microseconds _ 16 _ (by decide) rfl)
  have e₃ := e₂.snoc (.beginRead rfl TimerLife.beginRead_expired)
  have e₄ := e₃.snoc (.run rfl)
  obtain ⟨b, hb, -, hafter⟩ := (expiry_punctual e₄).endRead _ (.endRead rfl rfl)
  obtain rfl := Option.some.inj hb
  obtain ⟨tm, htm, -, hback⟩ := hafter (Entry.mk 500 16) (by simp)
  obtain rfl := Option.some.inj htm
  exact ⟨_, _, e₄, .endRead rfl rfl, hback⟩

end TimerSystem

end Lute
