import Mathlib.Data.List.Basic

/-! Finite maps kept as association lists in key order, the iteration order of `std::map`. -/
namespace OrdMap

universe u v
variable {κ : Type u} {υ : Type v} [DecidableEq κ]

/-- The value found at a key. -/
def find (k : κ) : List (κ × υ) → Option υ
  | [] => none
  | (k', v) :: m => if k = k' then some v else find k m

variable [LT κ] [DecidableLT κ]

/-- `m[k] = v`. -/
def insert (k : κ) (v : υ) : List (κ × υ) → List (κ × υ)
  | [] => [(k, v)]
  | (k', v') :: m =>
      if k < k' then (k, v) :: (k', v') :: m
      else if k = k' then (k, v) :: m
      else (k', v') :: insert k v m

theorem find_insert (k k' : κ) (v : υ) (m : List (κ × υ)) :
    find k' (insert k v m) = if k' = k then some v else find k' m := by
  induction m with
  | nil => rfl
  | cons p m ih =>
    obtain ⟨a, w⟩ := p
    by_cases hlt : k < a
    · simp only [insert, hlt, if_true, find]
    · by_cases hka : k = a
      · subst a
        simp only [insert, hlt, if_false, if_true, find]
        split_ifs <;> rfl
      · simp only [insert, hlt, hka, if_false, find, ih]
        by_cases hk : k' = a
        · subst a
          simp [Ne.symm hka]
        · simp [hk]

end OrdMap
