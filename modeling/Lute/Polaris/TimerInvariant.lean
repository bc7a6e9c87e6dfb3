import Lute.Polaris.TimerQueue

/-! The two sets of a timer queue agree, and the operations keep them so. -/
namespace Lute

variable {I : Type} {q : TimerQueue I} {B : List Entry} {P : Finset Nat} {a : Nat} {t : Timer I}

namespace Entry

@[simp] theorem when_mk (when : Int) (timer : Nat) : (mk when timer).when = when := rfl

@[simp] theorem timer_mk (when : Int) (timer : Nat) : (mk when timer).timer = timer := rfl

@[simp] theorem mk_when_timer (e : Entry) : mk e.when e.timer = e := rfl

theorem when_le_of_le {e f : Entry} (h : e ≤ f) : e.when ≤ f.when := by
  rcases Prod.Lex.le_iff.mp h with h | h
  · exact h.le
  · exact h.1.le

/-- The sentry separates the entries up to `now` from the later ones. -/
theorem lt_sentry_iff {e : Entry} {now : Int} (h : e.timer < UINTPTR_MAX) :
    e < mk now UINTPTR_MAX ↔ e.when ≤ now := by
  rw [Prod.Lex.lt_iff]
  change (e.when < now ∨ e.when = now ∧ e.timer < UINTPTR_MAX) ↔ e.when ≤ now
  omega

end Entry

/-- Every entry of `timers_` is a live timer with that expiration and is in `activeTimers_`, and
conversely. The timers of a batch `B` being run and those of `P`, allocated and not yet added, are
live, distinct and in neither set. -/
structure Tidy (q : TimerQueue I) (B : List Entry) (P : Finset Nat) : Prop where
  entries : ∀ e ∈ q.timers, ∃ t, q.heap e.timer = some t ∧ t.expiration = e.when ∧
    (e.timer, t.sequence) ∈ q.activeTimers
  actives : ∀ p ∈ q.activeTimers, ∃ t, q.heap p.1 = some t ∧ t.sequence = p.2 ∧
    Entry.mk t.expiration p.1 ∈ q.timers
  batch : ∀ e ∈ B, ∃ t, q.heap e.timer = some t ∧ (e.timer, t.sequence) ∉ q.activeTimers
  nodup : (B.map Entry.timer).Nodup
  fresh : ∀ a ∈ P, a ∉ B.map Entry.timer ∧
    ∃ t, q.heap a = some t ∧ (a, t.sequence) ∉ q.activeTimers
  bounded : ∀ a t, q.heap a = some t → a < UINTPTR_MAX

namespace TimerQueue

theorem deref_of_heap (h : q.heap a = some t) : q.deref a = .ok t := by
  simp [deref, h]

theorem deref_ok (h : q.deref a = .ok t) : q.heap a = some t := by
  unfold deref at h
  split at h
  · rename_i t' ht
    obtain rfl := Except.ok.inj h
    exact ht
  · cases h

theorem first_eq_none_iff {s : Finset Entry} : first s = none ↔ s = ∅ := by
  unfold first
  split_ifs with h
  · simp [h.ne_empty]
  · simpa using h

theorem first_mem {s : Finset Entry} {e : Entry} (h : first s = some e) :
    e ∈ s ∧ ∀ f ∈ s, e ≤ f := by
  unfold first at h
  split_ifs at h with hn
  obtain rfl := Option.some.inj h
  exact ⟨s.min'_mem hn, fun f hf => s.min'_le f hf⟩

end TimerQueue

/-- The sequence number of the live timer at an address. -/
def TimerQueue.sequenceAt (q : TimerQueue I) (a : Nat) : Nat :=
  ((q.heap a).map Timer.sequence).getD 0

def TimerQueue.expirationAt (q : TimerQueue I) (a : Nat) : Int :=
  ((q.heap a).map Timer.expiration).getD 0

namespace Tidy

theorem card_eq (h : Tidy q B P) : q.timers.card = q.activeTimers.card := by
  refine Finset.card_nbij' (fun e => (e.timer, q.sequenceAt e.timer))
    (fun p => Entry.mk (q.expirationAt p.1) p.1) ?_ ?_ ?_ ?_
  · intro e he
    obtain ⟨t, ht, -, hm⟩ := h.entries e he
    simpa [TimerQueue.sequenceAt, ht] using hm
  · intro p hp
    obtain ⟨t, ht, -, hm⟩ := h.actives p hp
    simpa [TimerQueue.expirationAt, ht] using hm
  · intro e he
    obtain ⟨t, ht, hw, -⟩ := h.entries e he
    simp [TimerQueue.expirationAt, ht, hw]
  · intro p hp
    obtain ⟨t, ht, hs, -⟩ := h.actives p hp
    simp [TimerQueue.sequenceAt, ht, hs]

/-- A timer not in `activeTimers_` has no entry. -/
theorem timer_ne (h : Tidy q B P) (ht : q.heap a = some t) (hn : (a, t.sequence) ∉ q.activeTimers)
    {e : Entry} (he : e ∈ q.timers) : e.timer ≠ a := by
  rintro rfl
  obtain ⟨t', ht', -, hm⟩ := h.entries e he
  obtain rfl : t' = t := by simpa [ht'] using ht
  exact hn hm

theorem active_ne (h : Tidy q B P) (ht : q.heap a = some t)
    (hn : (a, t.sequence) ∉ q.activeTimers) {p : Nat × Nat} (hp : p ∈ q.activeTimers) :
    p.1 ≠ a := by
  rintro rfl
  obtain ⟨t', ht', hs, -⟩ := h.actives p hp
  obtain rfl : t' = t := by simpa [ht'] using ht
  exact hn (by rwa [hs])

/-- A free address is that of no timer of the batch. -/
theorem batch_ne (h : Tidy q B P) (ha : q.heap a = none) {e : Entry} (he : e ∈ B) :
    e.timer ≠ a := by
  rintro rfl
  obtain ⟨t, ht, -⟩ := h.batch e he
  simp [ha] at ht

/-- The parts of the queue the sets live in are all that matters. -/
theorem congr {q' : TimerQueue I} (h : Tidy q B P) (hh : q'.heap = q.heap)
    (ht : q'.timers = q.timers) (ha : q'.activeTimers = q.activeTimers) : Tidy q' B P := by
  obtain ⟨h₁, h₂, h₃, h₄, h₅, h₆⟩ := h
  exact ⟨by simpa [hh, ht, ha] using h₁, by simpa [hh, ht, ha] using h₂, by simpa [hh, ha] using h₃,
    h₄, by simpa [hh, ha] using h₅, by simpa [hh] using h₆⟩

theorem tail {e : Entry} (h : Tidy q (e :: B) P) : Tidy q B P where
  entries := h.entries
  actives := h.actives
  batch f hf := h.batch f (List.mem_cons_of_mem e hf)
  nodup := (List.nodup_cons.mp h.nodup).2
  fresh a ha := ⟨fun hm => (h.fresh a ha).1 (List.mem_cons_of_mem _ hm), (h.fresh a ha).2⟩
  bounded := h.bounded

theorem heap_update_of_ne {o : Option (Timer I)} {b : Nat} (hb : b ≠ a) :
    Function.update q.heap a o b = q.heap b := by
  simp [hb]

/-- Adding a live timer. -/
theorem insert (h : Tidy q B P) (ht : q.heap a = some t) (hB : a ∉ B.map Entry.timer) :
    Tidy { q with timers := Insert.insert (Entry.mk t.expiration a) q.timers,
                  activeTimers := Insert.insert (a, t.sequence) q.activeTimers } B (P.erase a) where
  entries e he := by
    rcases Finset.mem_insert.mp he with rfl | he
    · exact ⟨t, ht, rfl, Finset.mem_insert_self _ _⟩
    · obtain ⟨t', ht', hw, hm⟩ := h.entries e he
      exact ⟨t', ht', hw, Finset.mem_insert_of_mem hm⟩
  actives p hp := by
    rcases Finset.mem_insert.mp hp with rfl | hp
    · exact ⟨t, ht, rfl, Finset.mem_insert_self _ _⟩
    · obtain ⟨t', ht', hs, hm⟩ := h.actives p hp
      exact ⟨t', ht', hs, Finset.mem_insert_of_mem hm⟩
  batch e he := by
    obtain ⟨t', ht', hm⟩ := h.batch e he
    have hne : e.timer ≠ a := fun heq => hB (heq ▸ List.mem_map_of_mem he)
    exact ⟨t', ht', by simp [hm, hne]⟩
  nodup := h.nodup
  fresh b hb := by
    obtain ⟨hne, hb⟩ := Finset.mem_erase.mp hb
    obtain ⟨hB', t', ht', hm⟩ := h.fresh b hb
    exact ⟨hB', t', ht', by simp [hm, hne]⟩
  bounded := h.bounded

/-- Changing the expiration of a live timer that is in neither set. -/
theorem restart {t' : Timer I} (h : Tidy q B P) (ht : q.heap a = some t)
    (hn : (a, t.sequence) ∉ q.activeTimers) (hs : t'.sequence = t.sequence) :
    Tidy { q with heap := Function.update q.heap a (some t') } B P where
  entries e he := by
    simp only [heap_update_of_ne (h.timer_ne ht hn he)]
    exact h.entries e he
  actives p hp := by
    simp only [heap_update_of_ne (h.active_ne ht hn hp)]
    exact h.actives p hp
  batch e he := by
    by_cases hne : e.timer = a
    · exact ⟨t', by simp [hne], by simpa [hne, hs] using hn⟩
    · simp only [heap_update_of_ne hne]
      exact h.batch e he
  nodup := h.nodup
  fresh b hb := by
    refine ⟨(h.fresh b hb).1, ?_⟩
    by_cases hne : b = a
    · exact ⟨t', by simp [hne], by simpa [hne, hs] using hn⟩
    · simp only [heap_update_of_ne hne]
      exact (h.fresh b hb).2
  bounded b t₁ hb := by
    by_cases hne : b = a
    · exact hne ▸ h.bounded a t ht
    · simp only [heap_update_of_ne hne] at hb
      exact h.bounded b t₁ hb

/-- Deleting a timer that is in neither set. -/
theorem delete (h : Tidy q B P) (ht : q.heap a = some t) (hn : (a, t.sequence) ∉ q.activeTimers)
    (hB : a ∉ B.map Entry.timer) (hP : a ∉ P) :
    Tidy { q with heap := Function.update q.heap a none } B P where
  entries e he := by
    simp only [heap_update_of_ne (h.timer_ne ht hn he)]
    exact h.entries e he
  actives p hp := by
    simp only [heap_update_of_ne (h.active_ne ht hn hp)]
    exact h.actives p hp
  batch e he := by
    have hne : e.timer ≠ a := fun heq => hB (heq ▸ List.mem_map_of_mem he)
    simp only [heap_update_of_ne hne]
    exact h.batch e he
  nodup := h.nodup
  fresh b hb := by
    have hne : b ≠ a := fun heq => hP (heq ▸ hb)
    simp only [heap_update_of_ne hne]
    exact h.fresh b hb
  bounded b t₁ hb := by
    by_cases hne : b = a
    · simp [hne] at hb
    · simp only [heap_update_of_ne hne] at hb
      exact h.bounded b t₁ hb

/-- Erasing an active timer from both sets and deleting it. -/
theorem cancel (h : Tidy q B P) (ht : q.heap a = some t) (hm : (a, t.sequence) ∈ q.activeTimers) :
    Tidy { q with timers := q.timers.erase (Entry.mk t.expiration a),
                  heap := Function.update q.heap a none,
                  activeTimers := q.activeTimers.erase (a, t.sequence) } B P where
  entries e he := by
    obtain ⟨hne, he⟩ := Finset.mem_erase.mp he
    obtain ⟨t', ht', hw, hm'⟩ := h.entries e he
    have hea : e.timer ≠ a := by
      rintro rfl
      obtain rfl : t' = t := by simpa [ht'] using ht
      exact hne (by rw [hw, Entry.mk_when_timer])
    simp only [heap_update_of_ne hea]
    exact ⟨t', ht', hw, by simp [hm', hea]⟩
  actives p hp := by
    obtain ⟨hne, hp⟩ := Finset.mem_erase.mp hp
    obtain ⟨t', ht', hs, hm'⟩ := h.actives p hp
    have hpa : p.1 ≠ a := by
      rintro rfl
      obtain rfl : t' = t := by simpa [ht'] using ht
      exact hne (by rw [hs])
    simp only [heap_update_of_ne hpa]
    exact ⟨t', ht', hs, Finset.mem_erase.mpr ⟨fun heq => hpa (congrArg Entry.timer heq), hm'⟩⟩
  batch e he := by
    obtain ⟨t', ht', hn⟩ := h.batch e he
    have hea : e.timer ≠ a := by
      rintro rfl
      obtain rfl : t' = t := by simpa [ht'] using ht
      exact hn hm
    simp only [heap_update_of_ne hea]
    exact ⟨t', ht', by simp [hn]⟩
  nodup := h.nodup
  fresh b hb := by
    obtain ⟨hB, t', ht', hn⟩ := h.fresh b hb
    have hba : b ≠ a := by
      rintro rfl
      obtain rfl : t' = t := by simpa [ht'] using ht
      exact hn hm
    simp only [heap_update_of_ne hba]
    exact ⟨hB, t', ht', by simp [hn]⟩
  bounded b t₁ hb := by
    by_cases hne : b = a
    · simp [hne] at hb
    · simp only [heap_update_of_ne hne] at hb
      exact h.bounded b t₁ hb

/-- Allocating a timer at a free address. -/
theorem alloc (h : Tidy q B P) (ha : q.heap a = none) (hlt : a < UINTPTR_MAX) (t : Timer I) :
    Tidy { q with heap := Function.update q.heap a (some t) } B (Insert.insert a P) where
  entries e he := by
    have hea : e.timer ≠ a := by
      rintro rfl
      obtain ⟨t', ht', -⟩ := h.entries e he
      simp [ha] at ht'
    simp only [heap_update_of_ne hea]
    exact h.entries e he
  actives p hp := by
    have hpa : p.1 ≠ a := by
      rintro rfl
      obtain ⟨t', ht', -⟩ := h.actives p hp
      simp [ha] at ht'
    simp only [heap_update_of_ne hpa]
    exact h.actives p hp
  batch e he := by
    simp only [heap_update_of_ne (h.batch_ne ha he)]
    exact h.batch e he
  nodup := h.nodup
  fresh b hb := by
    by_cases hba : b = a
    · subst hba
      refine ⟨?_, t, by simp, fun hm => ?_⟩
      · intro hmem
        obtain ⟨e, he, heq⟩ := List.mem_map.mp hmem
        exact h.batch_ne ha he heq
      · obtain ⟨t', ht', -⟩ := h.actives _ hm
        simp [ha] at ht'
    · simp only [heap_update_of_ne hba]
      exact h.fresh b ((Finset.mem_insert.mp hb).resolve_left hba)
  bounded b t₁ hb := by
    by_cases hne : b = a
    · exact hne ▸ hlt
    · simp only [heap_update_of_ne hne] at hb
      exact h.bounded b t₁ hb

end Tidy

namespace TimerQueue

variable (build : Build)

/-- The queue with a timer entered in both sets. -/
def entered (q : TimerQueue I) (a : Nat) (t : Timer I) : TimerQueue I :=
  { q with timers := Insert.insert (Entry.mk t.expiration a) q.timers,
           activeTimers := Insert.insert (a, t.sequence) q.activeTimers }

theorem isEarliest_iff {s : Finset Entry} {when : Int} :
    isEarliest s when = true ↔ ∀ e ∈ s, when < e.when := by
  unfold isEarliest
  cases hf : first s with
  | none => simp [first_eq_none_iff.mp hf]
  | some it =>
    obtain ⟨hit, hmin⟩ := first_mem hf
    simp only [decide_eq_true_eq]
    exact ⟨fun hlt e he => hlt.trans_le (Entry.when_le_of_le (hmin e he)), fun hall => hall it hit⟩

theorem insert_spec (h : Tidy q B P) (ht : q.heap a = some t)
    (hn : (a, t.sequence) ∉ q.activeTimers) (hB : a ∉ B.map Entry.timer) :
    q.insert build a = .ok (q.entered a t, isEarliest q.timers t.expiration) := by
  have hentry : Entry.mk t.expiration a ∉ q.timers := fun he => h.timer_ne ht hn he rfl
  have hcard := (h.insert ht hB).card_eq
  rw [insert, Build.assert_of h.card_eq, ok_bind, deref_of_heap ht, ok_bind]
  dsimp only
  rw [Build.assert_of hentry, ok_bind, Build.assert_of hn, ok_bind, Build.assert_of hcard, ok_bind]
  rfl

theorem addTimerInLoop_spec (now : Int) (h : Tidy q B P) (ht : q.heap a = some t)
    (hn : (a, t.sequence) ∉ q.activeTimers) (hB : a ∉ B.map Entry.timer) :
    ∃ q', q.addTimerInLoop build now a = .ok q' ∧
      ((∀ e ∈ q.timers, t.expiration < e.when) ∧
          q' = (q.entered a t).resetTimerfd now t.expiration ∨
        (∃ e ∈ q.timers, e.when ≤ t.expiration) ∧ q' = q.entered a t) := by
  have hins := insert_spec build h ht hn hB
  by_cases hb : isEarliest q.timers t.expiration = true
  · refine ⟨_, ?_, .inl ⟨isEarliest_iff.mp hb, rfl⟩⟩
    have hd : (q.entered a t).deref a = .ok t := deref_of_heap ht
    simp [addTimerInLoop, hins, hd, hb]
  · refine ⟨_, ?_, .inr ⟨?_, rfl⟩⟩
    · simp [addTimerInLoop, hins, hb]
    · simpa using mt isEarliest_iff.mpr hb

theorem cancelTimer_spec (h : Tidy q B P) (timerId : Nat × Nat) :
    ∃ q', q.cancelTimer build timerId = .ok q' ∧ Tidy q' B P ∧ q'.timers ⊆ q.timers ∧
      (∀ a t, q'.heap a = some t → q.heap a = some t) ∧
      q'.timerfd = q.timerfd ∧ q'.lastReset = q.lastReset := by
  unfold cancelTimer
  by_cases hm : timerId ∈ q.activeTimers
  · obtain ⟨t, ht, hs, he⟩ := h.actives timerId hm
    obtain ⟨a, seq⟩ := timerId
    dsimp only at ht hs he
    subst hs
    refine ⟨_, ?_, h.cancel ht hm, Finset.erase_subset _ _, fun b t' hb => ?_, rfl, rfl⟩
    · rw [if_pos hm, deref_of_heap ht, ok_bind]
      dsimp only
      rw [Build.assert_of he, ok_bind]
      rfl
    · by_cases hba : b = a
      · simp [hba] at hb
      · simpa [hba] using hb
  · rw [if_neg hm]
    by_cases hcall : q.callingExpiredTimers = true
    · rw [if_pos hcall]
      exact ⟨_, rfl, h.congr rfl rfl rfl, Finset.Subset.refl _, fun _ _ hb => hb, rfl, rfl⟩
    · rw [if_neg hcall]
      exact ⟨q, rfl, h, Finset.Subset.refl _, fun _ _ hb => hb, rfl, rfl⟩

theorem cancelInLoop_spec (h : Tidy q B P) (timerId : Nat × Nat) :
    ∃ q', q.cancelInLoop build timerId = .ok q' ∧ Tidy q' B P ∧ q'.timers ⊆ q.timers ∧
      (∀ a t, q'.heap a = some t → q.heap a = some t) ∧
      q'.timerfd = q.timerfd ∧ q'.lastReset = q.lastReset := by
  obtain ⟨q', hc, h', hrest⟩ := cancelTimer_spec build h timerId
  refine ⟨q', ?_, h', hrest⟩
  rw [cancelInLoop, Build.assert_of h.card_eq, ok_bind, hc, ok_bind, Build.assert_of h'.card_eq,
    ok_bind]
  rfl

/-- The timer of an entry, with its sequence number. -/
def activeOf (q : TimerQueue I) (e : Entry) : Nat × Nat := (e.timer, q.sequenceAt e.timer)

theorem activeOf_eq {e : Entry} (ht : q.heap e.timer = some t) :
    q.activeOf e = (e.timer, t.sequence) := by
  simp [activeOf, sequenceAt, ht]

/-- The queue with the entries of `E` taken out, `rest` being left. -/
def without (q : TimerQueue I) (rest : Finset Entry) (E : List Entry) : TimerQueue I :=
  { q with timers := rest, activeTimers := q.activeTimers \ (E.map q.activeOf).toFinset }

theorem eraseActive_spec (E : List Entry) (hnd : (E.map Entry.timer).Nodup)
    (h : ∀ e ∈ E, ∃ t, q.heap e.timer = some t ∧ (e.timer, t.sequence) ∈ q.activeTimers) :
    q.eraseActive build E =
      .ok { q with activeTimers := q.activeTimers \ (E.map q.activeOf).toFinset } := by
  induction E generalizing q with
  | nil => simp [eraseActive]
  | cons e E ih =>
    obtain ⟨t, ht, hm⟩ := h e (by simp)
    rw [List.map_cons, List.nodup_cons] at hnd
    rw [eraseActive, deref_of_heap ht, ok_bind, Build.assert_of hm, ok_bind, ih hnd.2 ?_]
    · congr 2
      ext p
      rw [List.map_cons, List.toFinset_cons, activeOf_eq ht]
      change p ∈ q.activeTimers.erase (e.timer, t.sequence) \ (E.map q.activeOf).toFinset ↔ _
      rw [Finset.mem_sdiff, Finset.mem_erase, Finset.mem_sdiff, Finset.mem_insert]
      tauto
    · intro f hf
      obtain ⟨t', ht', hm'⟩ := h f (by simp [hf])
      have hne : f.timer ≠ e.timer := fun heq => hnd.1 (heq ▸ List.mem_map_of_mem hf)
      exact ⟨t', ht', by simp [hm', hne]⟩

end TimerQueue

namespace Tidy

/-- There is one entry for a timer. -/
theorem entry_unique (h : Tidy q B P) {e f : Entry} (he : e ∈ q.timers) (hf : f ∈ q.timers)
    (heq : e.timer = f.timer) : e = f := by
  obtain ⟨t, ht, hw, -⟩ := h.entries e he
  obtain ⟨t', ht', hw', -⟩ := h.entries f hf
  obtain rfl : t = t' := by simpa [heq, ht'] using ht.symm
  rw [← Entry.mk_when_timer e, ← Entry.mk_when_timer f, ← hw, ← hw', heq]

/-- Moving entries from both sets to the batch. -/
theorem expire {rest : Finset Entry} {E : List Entry} (h : Tidy q [] P) (hnd : E.Nodup)
    (hE : ∀ e ∈ E, e ∈ q.timers ∧ e ∉ rest) (hrest : rest ⊆ q.timers)
    (hall : ∀ e ∈ q.timers, e ∉ rest → e ∈ E) :
    Tidy (q.without rest E) E P where
  entries e he := by
    obtain ⟨t, ht, hw, hm⟩ := h.entries e (hrest he)
    refine ⟨t, ht, hw, Finset.mem_sdiff.mpr ⟨hm, fun hmem => ?_⟩⟩
    obtain ⟨f, hf, hfe⟩ := List.mem_map.mp (List.mem_toFinset.mp hmem)
    have hef : f.timer = e.timer := congrArg Prod.fst hfe
    obtain rfl := h.entry_unique (hE f hf).1 (hrest he) hef
    exact (hE f hf).2 he
  actives p hp := by
    obtain ⟨hp, hnm⟩ := Finset.mem_sdiff.mp hp
    obtain ⟨t, ht, hs, hm⟩ := h.actives p hp
    refine ⟨t, ht, hs, ?_⟩
    by_contra hn
    refine hnm (List.mem_toFinset.mpr (List.mem_map.mpr ⟨_, hall _ hm hn, ?_⟩))
    rw [TimerQueue.activeOf_eq (q := q) (t := t) (e := Entry.mk t.expiration p.1) ht, hs]
    rfl
  batch e he := by
    obtain ⟨t, ht, -, -⟩ := h.entries e (hE e he).1
    refine ⟨t, ht, fun hm => (Finset.mem_sdiff.mp hm).2 ?_⟩
    exact List.mem_toFinset.mpr (List.mem_map.mpr ⟨e, he, TimerQueue.activeOf_eq ht⟩)
  nodup := hnd.map_on fun e he f hf => h.entry_unique (hE e he).1 (hE f hf).1
  fresh a ha := by
    obtain ⟨-, t, ht, hn⟩ := h.fresh a ha
    refine ⟨fun hmem => ?_, t, ht, fun hm => hn (Finset.mem_sdiff.mp hm).1⟩
    obtain ⟨e, he, hea⟩ := List.mem_map.mp hmem
    exact h.timer_ne ht hn (hE e he).1 hea
  bounded := h.bounded

end Tidy

/-- Timers repeat exactly when their interval is positive. -/
def RepeatsBy (V : Intervals I) (q : TimerQueue I) : Prop :=
  ∀ a t, q.heap a = some t → t.repeats = V.positive t.interval

namespace TimerQueue

variable (build : Build) {V : Intervals I}

/-- `getExpired` takes out precisely the entries up to `now`. -/
theorem getExpired_spec (h : Tidy q [] P) (now : Int) :
    ∃ q' E, q.getExpired build now = .ok (q', E) ∧ Tidy q' E P ∧
      (∀ e, e ∈ q'.timers ↔ e ∈ q.timers ∧ now < e.when) ∧
      (∀ e, e ∈ E ↔ e ∈ q.timers ∧ e.when ≤ now) ∧ q'.heap = q.heap := by
  have hlt : ∀ e ∈ q.timers, (e < Entry.mk now UINTPTR_MAX ↔ e.when ≤ now) := fun e he => by
    obtain ⟨t, ht, -⟩ := h.entries e he
    exact Entry.lt_sentry_iff (h.bounded _ _ ht)
  have hE : ∀ e, e ∈ (q.timers.filter (· < Entry.mk now UINTPTR_MAX)).sort ↔
      e ∈ q.timers ∧ e.when ≤ now := fun e => by
    rw [Finset.mem_sort, Finset.mem_filter]
    exact and_congr_right (hlt e)
  have hrest : ∀ e, e ∈ q.timers.filter (Entry.mk now UINTPTR_MAX ≤ ·) ↔
      e ∈ q.timers ∧ now < e.when := fun e => by
    rw [Finset.mem_filter]
    refine and_congr_right fun he => ?_
    rw [← not_lt, hlt e he, not_le]
  generalize hr : q.timers.filter (Entry.mk now UINTPTR_MAX ≤ ·) = rest at hrest
  generalize hx : (q.timers.filter (· < Entry.mk now UINTPTR_MAX)).sort = E at hE
  have hnd : E.Nodup := hx ▸ Finset.sort_nodup _ _
  have htidy : Tidy (q.without rest E) E P := by
    refine h.expire hnd (fun e he => ?_) (fun e he => ((hrest e).mp he).1) (fun e he hn => ?_)
    · obtain ⟨hm, hle⟩ := (hE e).mp he
      exact ⟨hm, fun hr => not_lt.mpr hle ((hrest e).mp hr).2⟩
    · exact (hE e).mpr ⟨he, not_lt.mp fun hlt => hn ((hrest e).mpr ⟨he, hlt⟩)⟩
  have hactive : ∀ e ∈ E, ∃ t, q.heap e.timer = some t ∧
      (e.timer, t.sequence) ∈ q.activeTimers := fun e he => by
    obtain ⟨t, ht, -, hm⟩ := h.entries e ((hE e).mp he).1
    exact ⟨t, ht, hm⟩
  have herase : { q with timers := rest }.eraseActive build E = .ok (q.without rest E) :=
    eraseActive_spec build E htidy.nodup hactive
  refine ⟨q.without rest E, E, ?_, htidy, hrest, hE, rfl⟩
  rw [getExpired, Build.assert_of h.card_eq, ok_bind]
  dsimp only
  rw [hr, hx, Build.assert_of fun e he => ((hrest e).mp he).2, ok_bind, herase, ok_bind,
    Build.assert_of htidy.card_eq, ok_bind]
  rfl

/-- A read takes what has expired from both sets. -/
theorem beginRead_spec (h : Tidy q [] P) (now : Int) :
    ∃ q' E, q.beginRead build now = .ok (q', E) ∧ Tidy q' E P ∧
      (∀ e, e ∈ q'.timers ↔ e ∈ q.timers ∧ now < e.when) ∧
      (∀ e, e ∈ E ↔ e ∈ q.timers ∧ e.when ≤ now) ∧ q'.heap = q.heap := by
  have h₀ : Tidy { q with timerfd := q.timerfd.read } [] P := h.congr rfl rfl rfl
  obtain ⟨q', E, hq', htidy, hrest, hE, hheap⟩ := getExpired_spec build h₀ now
  refine ⟨{ q' with callingExpiredTimers := true, cancelingTimers := ∅ }, E, ?_,
    htidy.congr rfl rfl rfl, hrest, hE, hheap⟩
  rw [beginRead, hq', ok_bind]
  rfl

theorem repeatsBy_update (hr : RepeatsBy V q) {o : Option (Timer I)}
    (ho : ∀ t, o = some t → t.repeats = V.positive t.interval) :
    RepeatsBy V { q with heap := Function.update q.heap a o } := by
  intro b t hb
  by_cases hba : b = a
  · exact ho t (by simpa [hba] using hb)
  · exact hr b t (by simpa [hba] using hb)

/-- `insert` enters a live timer in both sets, or stops. -/
theorem insert_ok {q' : TimerQueue I} {b : Bool} (hq : q.insert build a = .ok (q', b)) :
    ∃ t, q.heap a = some t ∧ q' = q.entered a t := by
  unfold insert at hq
  obtain ⟨t, ht, hq⟩ := bind_ok (Build.assert_bind_ok hq)
  replace hq := Build.assert_bind_ok (Build.assert_bind_ok (Build.assert_bind_ok hq))
  obtain ⟨rfl, -⟩ := Prod.mk.inj (Except.ok.inj hq)
  exact ⟨t, deref_ok ht, rfl⟩

/-- One round of the loop of `reset`: a repeating timer that was not cancelled is put back, any
other deleted. -/
theorem resetTimers_cons {now : Int} {e : Entry} {E : List Entry} {q' : TimerQueue I}
    (hq : q.resetTimers build V now (e :: E) = .ok q') :
    ∃ t, q.heap e.timer = some t ∧
      ((t.repeats = true ∧ (e.timer, t.sequence) ∉ q.cancelingTimers ∧
          (entered { q with heap := Function.update q.heap e.timer (some (t.restart V now)) }
            e.timer (t.restart V now)).resetTimers build V now E = .ok q') ∨
        (¬ (t.repeats = true ∧ (e.timer, t.sequence) ∉ q.cancelingTimers) ∧
          { q with heap := Function.update q.heap e.timer none }.resetTimers build V now E =
            .ok q')) := by
  rw [resetTimers] at hq
  obtain ⟨t, ht, hq⟩ := bind_ok hq
  refine ⟨t, deref_ok ht, ?_⟩
  split_ifs at hq with hrep
  · obtain ⟨⟨q₁, b⟩, hi, hq⟩ := bind_ok hq
    obtain ⟨t', ht', rfl⟩ := insert_ok build hi
    obtain rfl : t.restart V now = t' := by simpa using ht'
    exact .inl ⟨hrep.1, hrep.2, hq⟩
  · exact .inr ⟨hrep, hq⟩

theorem resetTimers_tidy (V : Intervals I) (now : Int) (E : List Entry) (h : Tidy q E P) :
    ∃ q', q.resetTimers build V now E = .ok q' ∧ Tidy q' [] P ∧
      q'.timerfd = q.timerfd ∧ q'.lastReset = q.lastReset := by
  induction E generalizing q with
  | nil => exact ⟨q, rfl, h, rfl, rfl⟩
  | cons e E ih =>
    obtain ⟨t, ht, hn⟩ := h.batch e (by simp)
    have hE : e.timer ∉ E.map Entry.timer := (List.nodup_cons.mp h.nodup).1
    have hP : e.timer ∉ P := fun hm => (h.fresh _ hm).1 (by simp)
    by_cases hrep : t.repeats = true ∧ (e.timer, t.sequence) ∉ q.cancelingTimers
    · have h₁ : Tidy
          { q with heap := Function.update q.heap e.timer (some (t.restart V now)) } E P :=
        h.tail.restart ht hn rfl
      have ht₁ : Function.update q.heap e.timer (some (t.restart V now)) e.timer =
          some (t.restart V now) := by simp
      have hins := insert_spec build h₁ ht₁ hn hE
      have h₂ := h₁.insert ht₁ hE
      rw [Finset.erase_eq_of_notMem hP] at h₂
      obtain ⟨q', hq', htidy, hfd, hlast⟩ := ih h₂
      refine ⟨q', ?_, htidy, hfd, hlast⟩
      rw [resetTimers, deref_of_heap ht, ok_bind, if_pos hrep]
      dsimp only
      rw [hins, ok_bind]
      exact hq'
    · obtain ⟨q', hq', htidy, hfd, hlast⟩ := ih (h.tail.delete ht hn hE hP)
      refine ⟨q', ?_, htidy, hfd, hlast⟩
      rw [resetTimers, deref_of_heap ht, ok_bind, if_neg hrep]
      exact hq'

/-- No timer is put back earlier than `now`. -/
theorem resetTimers_when (hadd : ∀ now i, V.positive i = true → now ≤ V.addTime now i) {now : Int}
    {E : List Entry} {q' : TimerQueue I} (hq : q.resetTimers build V now E = .ok q')
    (hr : RepeatsBy V q) :
    RepeatsBy V q' ∧ ∀ e ∈ q'.timers, e ∈ q.timers ∨ now ≤ e.when := by
  induction E generalizing q with
  | nil =>
    obtain rfl := Except.ok.inj hq
    exact ⟨hr, fun e he => .inl he⟩
  | cons e E ih =>
    obtain ⟨t, ht, ⟨hrep, -, hq⟩ | ⟨-, hq⟩⟩ := resetTimers_cons build hq
    · have hr₁ : RepeatsBy V
          { q with heap := Function.update q.heap e.timer (some (t.restart V now)) } :=
        repeatsBy_update hr fun t' ht' => by
          obtain rfl := Option.some.inj ht'
          exact hr e.timer t ht
      obtain ⟨hrq, hsub⟩ := ih hq hr₁
      refine ⟨hrq, fun f hf => ?_⟩
      rcases hsub f hf with hf | hle
      · rcases Finset.mem_insert.mp hf with rfl | hf
        · right
          simpa [Timer.restart, hrep] using hadd now t.interval (hr _ _ ht ▸ hrep)
        · exact .inl hf
      · exact .inr hle
    · have hr₁ : RepeatsBy V { q with heap := Function.update q.heap e.timer none } :=
        repeatsBy_update hr (by simp)
      have hrest := ih hq hr₁
      exact hrest

/-- `reset` puts the repeating timers of the batch back, none earlier than `now`, and deletes the
others. -/
theorem resetTimers_spec (hadd : ∀ now i, V.positive i = true → now ≤ V.addTime now i) (now : Int)
    (E : List Entry) (h : Tidy q E P) (hr : RepeatsBy V q) :
    ∃ q', q.resetTimers build V now E = .ok q' ∧ Tidy q' [] P ∧ RepeatsBy V q' ∧
      (∀ e ∈ q'.timers, e ∈ q.timers ∨ now ≤ e.when) ∧
      q'.timerfd = q.timerfd ∧ q'.lastReset = q.lastReset := by
  obtain ⟨q', hq', htidy, hfd, hlast⟩ := resetTimers_tidy build V now E h
  obtain ⟨hrq, hsub⟩ := resetTimers_when build hadd hq' hr
  exact ⟨q', hq', htidy, hrq, hsub, hfd, hlast⟩

/-- `reset` is its loop, after which at most the timerfd is set. -/
theorem reset_ok {now clock : Int} {E : List Entry} {q' : TimerQueue I}
    (hq : q.reset build V E now clock = .ok q') :
    ∃ q₁, q.resetTimers build V now E = .ok q₁ ∧
      (q' = q₁ ∨ ∃ when, q' = q₁.resetTimerfd clock when) := by
  obtain ⟨q₁, hq₁, hq⟩ := bind_ok hq
  refine ⟨q₁, hq₁, ?_⟩
  have hset : ∀ when, (if valid when then pure (q₁.resetTimerfd clock when) else pure q₁ :
      Result (TimerQueue I)) = .ok q' → q' = q₁ ∨ ∃ when, q' = q₁.resetTimerfd clock when := by
    intro when hw
    split_ifs at hw
    · exact .inr ⟨when, (Except.ok.inj hw).symm⟩
    · exact .inl (Except.ok.inj hw).symm
  dsimp only at hq
  split at hq
  · exact hset 0 hq
  · obtain ⟨when, -, hq⟩ := bind_ok hq
    exact hset when hq

/-- After its loop `reset` re-arms the timerfd for the earliest entry, if that is a valid time. -/
theorem reset_spec (hadd : ∀ now i, V.positive i = true → now ≤ V.addTime now i) (now clock : Int)
    {E : List Entry} (h : Tidy q E P) (hr : RepeatsBy V q) :
    ∃ q₁ q', q.resetTimers build V now E = .ok q₁ ∧ q.reset build V E now clock = .ok q' ∧
      Tidy q₁ [] P ∧ RepeatsBy V q₁ ∧ (∀ e ∈ q₁.timers, e ∈ q.timers ∨ now ≤ e.when) ∧
      q₁.timerfd = q.timerfd ∧ q₁.lastReset = q.lastReset ∧
      (q₁.timers = ∅ ∧ q' = q₁ ∨
        ∃ e ∈ q₁.timers, (∀ f ∈ q₁.timers, e.when ≤ f.when) ∧
          (0 < e.when ∧ q' = q₁.resetTimerfd clock e.when ∨ e.when ≤ 0 ∧ q' = q₁)) := by
  obtain ⟨q₁, hq₁, htidy, hrq, hsub, hfd, hlast⟩ := resetTimers_spec build hadd now E h hr
  cases hf : first q₁.timers with
  | none =>
    refine ⟨q₁, q₁, hq₁, ?_, htidy, hrq, hsub, hfd, hlast, .inl ⟨first_eq_none_iff.mp hf, rfl⟩⟩
    simp [reset, hq₁, hf, valid]
  | some e =>
    obtain ⟨he, hmin⟩ := first_mem hf
    obtain ⟨t, ht, hw, -⟩ := htidy.entries e he
    have hd : (q₁.deref e.timer).map Timer.expiration = .ok e.when := by
      rw [deref_of_heap ht, ← hw]
      rfl
    have hmin' : ∀ f ∈ q₁.timers, e.when ≤ f.when := fun f hf => Entry.when_le_of_le (hmin f hf)
    by_cases hpos : 0 < e.when
    · refine ⟨q₁, _, hq₁, ?_, htidy, hrq, hsub, hfd, hlast,
        .inr ⟨e, he, hmin', .inl ⟨hpos, rfl⟩⟩⟩
      simp [reset, hq₁, hf, hd, valid, hpos]
    · refine ⟨q₁, _, hq₁, ?_, htidy, hrq, hsub, hfd, hlast,
        .inr ⟨e, he, hmin', .inr ⟨not_lt.mp hpos, rfl⟩⟩⟩
      simp [reset, hq₁, hf, hd, valid, hpos]

theorem endRead_tidy {now clock : Int} {E : List Entry} {q' : TimerQueue I} (h : Tidy q E P)
    (hq : q.endRead build V E now clock = .ok q') : Tidy q' [] P := by
  have h₀ : Tidy { q with callingExpiredTimers := false } E P := h.congr rfl rfl rfl
  obtain ⟨q₁, hq₁, htidy, -⟩ := resetTimers_tidy build V now E h₀
  obtain ⟨q₂, hq₂, hcase⟩ := reset_ok build hq
  obtain rfl : q₁ = q₂ := by simpa [hq₁] using hq₂
  rcases hcase with rfl | ⟨when, rfl⟩
  · exact htidy
  · exact htidy.congr rfl rfl rfl

end TimerQueue

end Lute
