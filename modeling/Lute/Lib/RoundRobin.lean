import Mathlib.Data.Int.CardIntervalMod

/-! Picking from a list in turn. -/
namespace RoundRobin

universe u
variable {α : Type u} {l : List α} {d x y : α} {i k : Nat}

/-- The pick number `k`, counted from 0, from `l`; `d` if there is nothing in it. -/
def pick (l : List α) (d : α) (k : Nat) : α := (l[k % l.length]?).getD d

@[simp] theorem pick_nil : pick [] d k = d := rfl

theorem pick_eq_getElem (h : l ≠ []) :
    pick l d k = l.get ⟨k % l.length, Nat.mod_lt _ (List.length_pos_of_ne_nil h)⟩ := by
  have hlt : k % l.length < l.length := Nat.mod_lt _ (List.length_pos_of_ne_nil h)
  simp [pick, hlt]

/-- An index that goes up by one and starts again at the end stays the residue of the count. -/
theorem advance (h : l ≠ []) (hi : i = k % l.length) :
    (if l.length ≤ i + 1 then 0 else i + 1) = (k + 1) % l.length := by
  subst hi
  have hlt : k % l.length < l.length := Nat.mod_lt _ (List.length_pos_of_ne_nil h)
  rw [← Nat.mod_add_mod k l.length 1]
  split
  · have hend : k % l.length + 1 = l.length := by omega
    rw [hend, Nat.mod_self]
  · exact (Nat.mod_eq_of_lt (by omega)).symm

variable [DecidableEq α]

/-- How often `x` is among the first `k` picks. -/
def load (l : List α) (d : α) (k : Nat) (x : α) : Nat := ((List.range k).map (pick l d)).count x

theorem load_eq_count (hnd : l.Nodup) (hx : x ∈ l) :
    ∃ i, load l d k x = Nat.count (· ≡ i [MOD l.length]) k := by
  obtain ⟨⟨i, hi⟩, rfl⟩ := List.mem_iff_get.mp hx
  refine ⟨i, ?_⟩
  have hne := List.ne_nil_of_mem hx
  unfold load
  induction k with
  | zero => simp
  | succ k ih =>
    rw [List.range_succ, List.map_append, List.count_append, ih, Nat.count_succ]
    have hpick : pick l d k = l.get ⟨i, hi⟩ ↔ k ≡ i [MOD l.length] := by
      rw [pick_eq_getElem hne, hnd.get_inj_iff, Fin.mk.injEq, Nat.ModEq, Nat.mod_eq_of_lt hi]
    by_cases hk : k ≡ i [MOD l.length]
    · simp [hpick.mpr hk, hk]
    · have hne : ¬ pick l d k = l.get ⟨i, hi⟩ := mt hpick.mp hk
      rw [List.map_singleton, List.count_singleton, if_neg (by simpa using hne), if_neg hk]

/-- No element gets more than one pick ahead of another. -/
theorem load_le_succ (hnd : l.Nodup) (hx : x ∈ l) (hy : y ∈ l) :
    load l d k x ≤ load l d k y + 1 := by
  obtain ⟨i, hi⟩ := load_eq_count (d := d) (k := k) hnd hx
  obtain ⟨j, hj⟩ := load_eq_count (d := d) (k := k) hnd hy
  have hpos := List.length_pos_of_mem hx
  rw [hi, hj, Nat.count_modEq_card k hpos, Nat.count_modEq_card k hpos]
  split_ifs <;> omega

end RoundRobin
