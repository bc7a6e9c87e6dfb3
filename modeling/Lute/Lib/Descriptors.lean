import Mathlib.Data.List.Basic
import Mathlib.Logic.Function.Basic

/-! A table of descriptors with a limit. The lowest free number is the one handed out. -/
namespace Descriptors

universe u

/-- Who holds each number; `none` is a free one. -/
structure Table (ω : Type u) where
  limit : Nat
  holder : Nat → Option ω

namespace Table

variable {ω : Type u} {t : Table ω} {n m : Nat} {w : ω}

def lowest (t : Table ω) : Option Nat := (List.range t.limit).find? fun n => (t.holder n).isNone

def set (t : Table ω) (n : Nat) (w : ω) : Table ω :=
  { t with holder := Function.update t.holder n (some w) }

def close (t : Table ω) (n : Nat) : Table ω :=
  { t with holder := Function.update t.holder n none }

/-- Only numbers below the limit are in use. -/
def Bounded (t : Table ω) : Prop := ∀ n w, t.holder n = some w → n < t.limit

@[simp] theorem limit_set : (t.set n w).limit = t.limit := rfl

@[simp] theorem limit_close : (t.close n).limit = t.limit := rfl

@[grind =] theorem holder_set : (t.set n w).holder m = if m = n then some w else t.holder m := by
  simp [set, Function.update_apply]

@[grind =] theorem holder_close : (t.close n).holder m = if m = n then none else t.holder m := by
  simp [close, Function.update_apply]

theorem lowest_eq_some (h : t.lowest = some n) : n < t.limit ∧ t.holder n = none := by
  have hn := List.mem_of_find?_eq_some h
  have hfree := List.find?_some h
  exact ⟨List.mem_range.mp hn, by simpa using hfree⟩

/-- There is room as soon as one number below the limit is free. -/
theorem lowest_isSome (hn : n < t.limit) (hfree : t.holder n = none) : t.lowest ≠ none := by
  intro h
  have := List.find?_eq_none.mp h n (List.mem_range.mpr hn)
  simp [hfree] at this

theorem Bounded.set (hb : t.Bounded) (hn : n < t.limit) : (t.set n w).Bounded := by
  intro m v hm
  rw [holder_set] at hm
  split at hm
  · simpa [‹m = n›] using hn
  · exact hb m v hm

theorem Bounded.close (hb : t.Bounded) : (t.close n).Bounded := by
  intro m v hm
  rw [holder_close] at hm
  split at hm
  · simp at hm
  · exact hb m v hm

/-- A number that was in use makes room when it is closed. -/
theorem Bounded.lowest_close (hb : t.Bounded) (h : t.holder n = some w) :
    (t.close n).lowest ≠ none :=
  lowest_isSome (n := n) (hb n w h) (by simp [holder_close])

theorem lowest_close_ne_none (h : t.lowest ≠ none) : (t.close n).lowest ≠ none := by
  obtain ⟨m, hm⟩ := Option.ne_none_iff_exists'.mp h
  obtain ⟨hlt, hfree⟩ := lowest_eq_some hm
  exact lowest_isSome (n := m) hlt (by simp [holder_close, hfree])

/-- `l` lists the numbers whose holder is of the kind `P`, each once. -/
structure Owned (P : ω → Bool) (t : Table ω) (l : List Nat) : Prop where
  nodup : l.Nodup
  mem_iff : ∀ n, n ∈ l ↔ ∃ w, t.holder n = some w ∧ P w = true

variable {P : ω → Bool} {l : List Nat}

theorem Owned.set_lowest (ho : Owned P t l) (hn : t.lowest = some n) (hw : P w = true) :
    Owned P (t.set n w) (n :: l) := by
  have hfree := (lowest_eq_some hn).2
  constructor
  · refine List.nodup_cons.mpr ⟨fun hmem => ?_, ho.nodup⟩
    obtain ⟨v, hv, -⟩ := (ho.mem_iff n).mp hmem
    simp [hfree] at hv
  · intro m
    have := ho.mem_iff m
    grind

/-- A number taken for, or passed on to, a holder of another kind. -/
theorem Owned.set_other (ho : Owned P t l) (hw : P w = false) :
    Owned P (t.set n w) (l.erase n) := by
  constructor
  · exact ho.nodup.erase n
  · intro m
    have := ho.mem_iff m
    rw [ho.nodup.mem_erase_iff]
    grind

theorem Owned.close (ho : Owned P t l) : Owned P (t.close n) (l.erase n) := by
  constructor
  · exact ho.nodup.erase n
  · intro m
    have := ho.mem_iff m
    rw [ho.nodup.mem_erase_iff]
    grind

/-- A number of another kind, or of none, is not in the list. -/
theorem Owned.not_mem (ho : Owned P t l) (hw : ∀ w, t.holder n = some w → P w = false) :
    n ∉ l := by
  intro hmem
  obtain ⟨w, hn, hp⟩ := (ho.mem_iff n).mp hmem
  simp [hw w hn] at hp

theorem Owned.perm {l' : List Nat} (ho : Owned P t l) (hp : l.Perm l') : Owned P t l' :=
  ⟨hp.nodup_iff.mp ho.nodup, fun n => hp.mem_iff.symm.trans (ho.mem_iff n)⟩

end Table

end Descriptors
