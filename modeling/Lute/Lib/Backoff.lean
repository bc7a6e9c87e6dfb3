import Mathlib.Algebra.Group.Nat.Defs
import Mathlib.Data.List.Basic

/-! Waits that double up to a cap, and start over when they are reset. -/
namespace Backoff

variable {init cap d d' r : Nat} {ds ds' : List Nat}

/-- The wait of number `k` in a series. -/
def wait (init cap k : Nat) : Nat := min (init * 2 ^ k) cap

/-- The first `n` waits of a series. -/
def series (init cap n : Nat) : List Nat := (List.range n).map (wait init cap)

/-- From a delay of `d` on the waits `ds` were made, one after the other, and `d'` is the next. -/
inductive Waits (cap : Nat) : Nat → List Nat → Nat → Prop
  | nil {d : Nat} : Waits cap d [] d
  | cons {d d' : Nat} {ds : List Nat} (h : Waits cap (min (d * 2) cap) ds d') :
      Waits cap d (d :: ds) d'

/-- All the waits so far, in series of which `r` were cut short; `d` is the next one. -/
def Schedule (init cap r : Nat) (ds : List Nat) (d : Nat) : Prop :=
  ∃ ns n, ns.length = r ∧ ds = (ns ++ [n]).flatMap (series init cap) ∧ d = wait init cap n

theorem wait_succ (init cap k : Nat) : wait init cap (k + 1) = min (wait init cap k * 2) cap := by
  unfold wait
  rw [Nat.pow_succ, ← Nat.mul_assoc]
  omega

theorem wait_le_cap (init cap k : Nat) : wait init cap k ≤ cap := Nat.min_le_right _ _

theorem le_wait (h : init ≤ cap) (k : Nat) : init ≤ wait init cap k :=
  Nat.le_min.mpr ⟨Nat.le_mul_of_pos_right init (Nat.two_pow_pos k), h⟩

theorem series_succ (init cap n : Nat) :
    series init cap (n + 1) = series init cap n ++ [wait init cap n] := by
  simp [series, List.range_succ]

theorem Waits.one : Waits cap d [d] (min (d * 2) cap) := .cons .nil

theorem Waits.append {e : Nat} (h : Waits cap d ds d') (h' : Waits cap d' ds' e) :
    Waits cap d (ds ++ ds') e := by
  induction h with
  | nil => exact h'
  | cons _ ih => exact .cons (ih h')

theorem schedule_nil (h : init ≤ cap) : Schedule init cap 0 [] init :=
  ⟨[], 0, rfl, rfl, by simp [wait, h]⟩

theorem Schedule.wait (h : Schedule init cap r ds d) :
    Schedule init cap r (ds ++ [d]) (min (d * 2) cap) := by
  obtain ⟨ns, n, hns, rfl, rfl⟩ := h
  refine ⟨ns, n + 1, hns, ?_, (wait_succ init cap n).symm⟩
  simp [series_succ]

theorem Schedule.waits (h : Schedule init cap r ds d) (hw : Waits cap d ds' d') :
    Schedule init cap r (ds ++ ds') d' := by
  induction hw generalizing ds with
  | nil => rwa [List.append_nil]
  | @cons d d' ds' _ ih =>
    have hd := ih h.wait
    rwa [List.append_assoc] at hd

theorem Schedule.reset (h : Schedule init cap r ds d) (hle : init ≤ cap) :
    Schedule init cap (r + 1) ds init := by
  obtain ⟨ns, n, hns, rfl, -⟩ := h
  exact ⟨ns ++ [n], 0, by simp [hns], by simp [series], by simp [Backoff.wait, hle]⟩

/-- No wait is shorter than the first one of a series or longer than the cap. -/
theorem Schedule.mem_bounds (h : Schedule init cap r ds d) (hle : init ≤ cap) :
    ∀ w ∈ ds, init ≤ w ∧ w ≤ cap := by
  obtain ⟨ns, n, -, rfl, -⟩ := h
  intro w hw
  obtain ⟨k, -, hk⟩ := List.mem_flatMap.mp hw
  obtain ⟨i, -, rfl⟩ := List.mem_map.mp hk
  exact ⟨le_wait hle i, wait_le_cap init cap i⟩

end Backoff
