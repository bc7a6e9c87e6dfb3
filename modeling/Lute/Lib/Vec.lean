import Mathlib.Algebra.Group.Nat.Defs
import Mathlib.Data.List.Basic

/-! Index ranges of a contiguous vector: slices, overwriting in place, resizing; and the
arithmetic of an unsigned 64-bit index type. -/
namespace Vec

/-- Addition of two `size_t` values. -/
def add (a b : Nat) : Nat := (a + b) % 2 ^ 64

/-- Subtraction of two `size_t` values. -/
def sub (a b : Nat) : Nat := (a + (2 ^ 64 - b)) % 2 ^ 64

theorem add_of_lt {a b : Nat} (h : a + b < 2 ^ 64) : add a b = a + b :=
  Nat.mod_eq_of_lt h

theorem sub_of_le {a b : Nat} (hba : b ≤ a) (ha : a < 2 ^ 64) : sub a b = a - b := by
  unfold sub
  omega

universe u
variable {α : Type u} {v d : List α} {i j k n : Nat}

/-- The elements of `[i, j)`. -/
def slice (v : List α) (i j : Nat) : List α := (v.drop i).take (j - i)

/-- `d` copied over `[i, i + d.length)`. -/
def overwrite (v : List α) (i : Nat) (d : List α) : List α :=
  v.take i ++ d ++ v.drop (i + d.length)

/-- `n` elements: a cut, or a growth filled with `x`. -/
def resize (v : List α) (n : Nat) (x : α) : List α :=
  v.take n ++ List.replicate (n - v.length) x

theorem length_slice (h : j ≤ v.length) : (slice v i j).length = j - i := by
  simp only [slice, List.length_take, List.length_drop]
  omega

theorem length_overwrite (h : i + d.length ≤ v.length) :
    (overwrite v i d).length = v.length := by
  simp only [overwrite, List.length_append, List.length_take, List.length_drop]
  omega

theorem length_resize {x : α} : (resize v n x).length = n := by
  simp only [resize, List.length_append, List.length_take, List.length_replicate]
  omega

theorem slice_self : slice v i i = [] := by
  simp [slice]

theorem slice_append (hij : i ≤ j) (hjk : j ≤ k) :
    slice v i j ++ slice v j k = slice v i k := by
  have hj : v.drop j = (v.drop i).drop (j - i) := by
    rw [List.drop_drop, Nat.add_sub_cancel' hij]
  have hk : k - i = (j - i) + (k - j) := by omega
  rw [slice, slice, slice, hj, hk, List.take_add]

theorem drop_slice (n : Nat) : (slice v i j).drop n = slice v (i + n) j := by
  rw [slice, slice, List.drop_take, List.drop_drop, Nat.sub_sub]

theorem take_slice (h : i + n ≤ j) : (slice v i j).take n = slice v i (i + n) := by
  rw [slice, slice, List.take_take, Nat.add_sub_cancel_left, Nat.min_eq_left (by omega)]

theorem slice_overwrite_self (h : i + d.length ≤ v.length) :
    slice (overwrite v i d) i (i + d.length) = d := by
  have hl : (v.take i).length = i := by
    rw [List.length_take]
    omega
  rw [slice, overwrite, List.append_assoc, List.drop_left' hl]
  simp

theorem slice_overwrite_left (h : i + d.length ≤ v.length) (hj : j ≤ i) :
    slice (overwrite v i d) k j = slice v k j := by
  have hl : (v.take i).length = i := by
    rw [List.length_take]
    omega
  rw [slice, slice, ← List.drop_take, ← List.drop_take, overwrite, List.append_assoc,
    List.take_append_of_le_length (by omega), List.take_take, Nat.min_eq_left hj]

theorem slice_overwrite_right (h : i + d.length ≤ v.length) (hk : i + d.length ≤ k) :
    slice (overwrite v i d) k j = slice v k j := by
  have hl : (v.take i ++ d).length = i + d.length := by
    rw [List.length_append, List.length_take]
    omega
  have hd : (overwrite v i d).drop k = v.drop k := by
    rw [overwrite, List.drop_append, hl, List.drop_eq_nil_of_le (by omega), List.nil_append,
      List.drop_drop, Nat.add_sub_cancel' hk]
  rw [slice, slice, hd]

theorem slice_resize (hj : j ≤ v.length) (hn : v.length ≤ n) {x : α} :
    slice (resize v n x) i j = slice v i j := by
  rw [resize, List.take_of_length_le hn, slice, slice]
  rcases Nat.le_total i v.length with hi | hi
  · rw [List.drop_append_of_le_length hi,
      List.take_append_of_le_length (by rw [List.length_drop]; omega)]
  · rw [Nat.sub_eq_zero_of_le (Nat.le_trans hj hi)]
    simp

end Vec
