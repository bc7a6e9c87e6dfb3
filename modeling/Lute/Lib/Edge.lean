import Mathlib.Order.Lattice
import Lute.Lib.Trace

/-! Signals on the rising edge of a level: a history whose labels signal exactly when they take the
level from below a mark to it or above. -/
namespace Edge

universe u v
variable {α : Type u} {β : Type v} {level : α → β} {signals : α → Prop} {mark start : β}
  {h pre mid post : List α} {a b : α}

/-- The level after a history that began at `start`. -/
def levelAfter (level : α → β) (start : β) (h : List α) : β := (h.getLast?.map level).getD start

@[simp] theorem levelAfter_nil : levelAfter level start [] = start := rfl

@[simp] theorem levelAfter_snoc : levelAfter level start (h ++ [a]) = level a := by
  simp [levelAfter]

variable [LinearOrder β]

/-- Every label signals exactly if the level rises over the mark with it. -/
def Rising (level : α → β) (signals : α → Prop) (mark start : β) (h : List α) : Prop :=
  Trace.Always (fun pre a => signals a ↔ levelAfter level start pre < mark ∧ mark ≤ level a) h

theorem Rising.of_append {h' : List α} (hr : Rising level signals mark start (h ++ h')) :
    Rising level signals mark start h :=
  Trace.Always.of_append hr

/-- Between two signals the level has been below the mark. -/
theorem Rising.below_between (hr : Rising level signals mark start h)
    (he : h = pre ++ a :: (mid ++ b :: post)) (ha : signals a) (hb : signals b) :
    ∃ d ∈ mid, level d < mark := by
  have hup : mark ≤ level a := ((hr _ _ _ he).mp ha).2
  have hbefore : h = (pre ++ a :: mid) ++ b :: post := by simp [he]
  have hlow := ((hr _ _ _ hbefore).mp hb).1
  rcases List.eq_nil_or_concat mid with rfl | ⟨mid', d, rfl⟩
  · rw [levelAfter_snoc] at hlow
    exact absurd hup (not_le_of_gt hlow)
  · refine ⟨d, by simp, ?_⟩
    rwa [List.concat_eq_append, ← List.cons_append, ← List.append_assoc, levelAfter_snoc] at hlow

/-- As long as the level is not below the mark, there has been a signal since it last was. -/
theorem Rising.signalled_since (hr : Rising level signals mark start h) (hstart : start < mark)
    (hup : mark ≤ levelAfter level start h) :
    ∃ pre a post, h = pre ++ a :: post ∧ signals a ∧ ∀ d ∈ a :: post, mark ≤ level d := by
  induction h using List.reverseRecOn with
  | nil => exact absurd hup (not_le_of_gt hstart)
  | append_singleton h d ih =>
    rw [levelAfter_snoc] at hup
    rcases lt_or_ge (levelAfter level start h) mark with hlow | hhigh
    · exact ⟨h, d, [], rfl, (hr h d [] rfl).mpr ⟨hlow, hup⟩, by simpa using hup⟩
    · obtain ⟨pre, a, post, rfl, ha, hall⟩ := ih hr.of_append hhigh
      refine ⟨pre, a, post ++ [d], by simp, ha, ?_⟩
      intro e hm
      rw [← List.cons_append, List.mem_append, List.mem_singleton] at hm
      rcases hm with hm | rfl
      · exact hall e hm
      · exact hup

end Edge
