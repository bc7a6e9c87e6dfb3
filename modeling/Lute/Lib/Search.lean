import Mathlib.Data.List.Basic
import Mathlib.Data.List.Infix
import Mathlib.Data.Nat.Find

/-! First occurrences of a pattern in a sequence. -/
namespace Search

universe u
variable {α : Type u} [DecidableEq α] {needle hay tail line front rest : List α} {i : Nat} {c : α}

/-- Offset of the first occurrence of `needle`, as `memmem` finds it. -/
def memmem (needle : List α) : List α → Option Nat
  | [] => if needle = [] then some 0 else none
  | a :: hay => if needle <+: a :: hay then some 0 else (memmem needle hay).map (· + 1)

theorem memmem_eq_some_iff (hn : needle ≠ []) :
    memmem needle hay = some i ↔
      needle <+: hay.drop i ∧ ∀ j < i, ¬ needle <+: hay.drop j := by
  induction hay generalizing i with
  | nil => simp [memmem, hn]
  | cons a hay ih =>
    by_cases hp : needle <+: a :: hay
    · rw [memmem, if_pos hp]
      constructor
      · intro h
        obtain rfl : 0 = i := by simpa using h
        exact ⟨hp, by simp⟩
      · rintro ⟨-, hmin⟩
        rcases Nat.eq_zero_or_pos i with rfl | hi
        · rfl
        · exact (hmin 0 hi hp).elim
    · rw [memmem, if_neg hp, Option.map_eq_some_iff]
      constructor
      · rintro ⟨j, hj, rfl⟩
        obtain ⟨hat, hmin⟩ := ih.mp hj
        refine ⟨hat, fun k hk => ?_⟩
        cases k with
        | zero => exact hp
        | succ k => exact hmin k (by omega)
      · rintro ⟨hat, hmin⟩
        cases i with
        | zero => exact (hp hat).elim
        | succ i => exact ⟨i, ih.mpr ⟨hat, fun k hk => hmin (k + 1) (by omega)⟩, rfl⟩

theorem memmem_eq_none_iff (hn : needle ≠ []) :
    memmem needle hay = none ↔ ∀ i, ¬ needle <+: hay.drop i := by
  constructor
  · intro h i hi
    have hex : ∃ i, needle <+: hay.drop i := ⟨i, hi⟩
    have hf := (memmem_eq_some_iff hn).mpr ⟨Nat.find_spec hex, fun _ hj => Nat.find_min hex hj⟩
    rw [h] at hf
    cases hf
  · intro h
    cases hm : memmem needle hay with
    | none => rfl
    | some i => exact (h i ((memmem_eq_some_iff hn).mp hm).1).elim

omit [DecidableEq α] in
theorem occurrence_le (h : needle <+: hay.drop i) (hn : needle ≠ []) :
    i + needle.length ≤ hay.length := by
  have hl := h.length_le
  have hp := List.length_pos_iff.mpr hn
  rw [List.length_drop] at hl
  omega

omit [DecidableEq α] in
theorem occurrence_append (hi : i + needle.length ≤ hay.length) :
    needle <+: (hay ++ tail).drop i ↔ needle <+: hay.drop i := by
  rw [List.drop_append_of_le_length (by omega)]
  constructor
  · intro h
    refine List.prefix_of_prefix_length_le h (List.prefix_append _ _) ?_
    rw [List.length_drop]
    omega
  · intro h
    exact h.trans (List.prefix_append _ _)

/-- A found occurrence stays the first one as more input arrives. -/
theorem memmem_append (hn : needle ≠ []) (h : memmem needle hay = some i) :
    memmem needle (hay ++ tail) = some i := by
  obtain ⟨hat, hmin⟩ := (memmem_eq_some_iff hn).mp h
  have hi := occurrence_le hat hn
  refine (memmem_eq_some_iff hn).mpr ⟨(occurrence_append hi).mpr hat, fun j hj => ?_⟩
  rw [occurrence_append (by omega)]
  exact hmin j hj

/-- A terminator whose first element does not recur in it ends the line it follows. -/
theorem memmem_line {x : α} {ys : List α} (hx : x ∉ ys) (hl : memmem (x :: ys) line = none) :
    memmem (x :: ys) (line ++ (x :: ys ++ rest)) = some line.length := by
  have hn : x :: ys ≠ [] := List.cons_ne_nil _ _
  refine (memmem_eq_some_iff hn).mpr ⟨?_, fun j hj hat => ?_⟩
  · rw [List.drop_left]
    exact List.prefix_append _ _
  · by_cases hfit : j + (x :: ys).length ≤ line.length
    · exact (memmem_eq_none_iff hn).mp hl j ((occurrence_append hfit).mp hat)
    · -- The occurrence would overlap the terminator, which starts with `x`.
      obtain ⟨t, ht⟩ := hat
      have hpos : line.length = j + (line.length - j - 1 + 1) := by omega
      have hget := congrArg (fun l => l[line.length - j]?) ht
      simp only [List.getElem?_drop, Nat.add_sub_cancel' (Nat.le_of_lt hj)] at hget
      rw [List.getElem?_append_right (Nat.le_refl _), Nat.sub_self] at hget
      rw [show line.length - j = line.length - j - 1 + 1 by omega, List.cons_append,
        List.getElem?_cons_succ, List.getElem?_append_left
          (by simp only [List.length_cons] at hfit; omega)] at hget
      exact hx (List.mem_of_getElem? hget)

/-- An element foreign to the pattern keeps the sequences on its two sides apart. -/
theorem memmem_join (hn : needle ≠ []) (hc : c ∉ needle) (hf : memmem needle front = none)
    (hr : memmem needle rest = none) : memmem needle (front ++ c :: rest) = none := by
  rw [memmem_eq_none_iff hn] at hf hr ⊢
  intro i hi
  by_cases hfit : i + needle.length ≤ front.length
  · exact hf i ((occurrence_append hfit).mp hi)
  · by_cases hlate : front.length < i
    · obtain ⟨k, rfl⟩ := Nat.exists_eq_add_of_lt hlate
      rw [Nat.add_assoc, List.drop_append, List.drop_eq_nil_of_le (Nat.le_add_right _ _),
        Nat.add_sub_cancel_left, List.nil_append, List.drop_succ_cons] at hi
      exact hr k hi
    · -- The occurrence would contain `c`.
      obtain ⟨t, ht⟩ := hi
      have hget := congrArg (fun l => l[front.length - i]?) ht
      simp only [List.getElem?_drop] at hget
      rw [Nat.add_sub_cancel' (Nat.le_of_not_lt hlate), List.getElem?_append_right (Nat.le_refl _),
        Nat.sub_self, List.getElem?_cons_zero, List.getElem?_append_left (by omega)] at hget
      exact hc (List.mem_of_getElem? hget)

/-- Nothing is found before the terminator is complete. -/
theorem memmem_incomplete {x : α} {ys : List α} (hx : x ∉ ys) (hl : memmem (x :: ys) line = none)
    (hp : front <+: line ++ (x :: ys)) (hlt : front.length < line.length + (x :: ys).length) :
    memmem (x :: ys) front = none := by
  have hn : x :: ys ≠ [] := List.cons_ne_nil _ _
  rw [memmem_eq_none_iff hn]
  intro i hi
  have hle := occurrence_le hi hn
  obtain ⟨t, ht⟩ := hp
  have hline : memmem (x :: ys) (line ++ (x :: ys ++ [])) = some line.length := memmem_line hx hl
  rw [List.append_nil, ← ht] at hline
  refine ((memmem_eq_some_iff hn).mp hline).2 i (by omega) ?_
  exact (occurrence_append hle).mpr hi

end Search
