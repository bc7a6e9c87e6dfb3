import Lute.Lib.Search

/-! Encodings that show where they end, whatever follows them. -/
namespace Delimited

universe u v
variable {α : Type u} {β : Type v} {P : α → Prop} {enc : α → List β}

/-- Over the values satisfying `P`, an encoding and its end are told from what it begins. -/
def SelfDelimiting (P : α → Prop) (enc : α → List β) : Prop :=
  ∀ a b, P a → P b → ∀ x y, enc a ++ x = enc b ++ y → a = b ∧ x = y

theorem SelfDelimiting.inj (h : SelfDelimiting P enc) {a b : α} (ha : P a) (hb : P b)
    (he : enc a = enc b) : a = b :=
  (h a b ha hb [] [] (by rw [he])).1

/-- No encoding begins another one. -/
theorem SelfDelimiting.prefix_eq (h : SelfDelimiting P enc) {a b : α} (ha : P a) (hb : P b)
    (hp : enc a <+: enc b) : a = b := by
  obtain ⟨t, ht⟩ := hp
  exact (h a b ha hb t [] (by rw [ht, List.append_nil])).1

/-- A concatenation of encodings shows what was encoded. -/
theorem SelfDelimiting.flatMap_inj (h : SelfDelimiting P enc) (hne : ∀ a, P a → enc a ≠ [])
    {as bs : List α} (ha : ∀ a ∈ as, P a) (hb : ∀ b ∈ bs, P b)
    (he : as.flatMap enc = bs.flatMap enc) : as = bs := by
  induction as generalizing bs with
  | nil =>
    cases bs with
    | nil => rfl
    | cons b bs =>
      have hnil : enc b = [] := (List.append_eq_nil_iff.mp he.symm).1
      exact absurd hnil (hne b (hb b (by simp)))
  | cons a as ih =>
    cases bs with
    | nil =>
      have hnil : enc a = [] := (List.append_eq_nil_iff.mp he).1
      exact absurd hnil (hne a (ha a (by simp)))
    | cons b bs =>
      obtain ⟨rfl, hrest⟩ := h a b (ha a (by simp)) (hb b (by simp)) _ _ he
      rw [ih (fun c hc => ha c (by simp [hc])) (fun c hc => hb c (by simp [hc])) hrest]

/-- What can be decoded from a beginning of the encodings is a beginning of what was encoded. -/
theorem SelfDelimiting.flatMap_prefix (h : SelfDelimiting P enc) (hne : ∀ a, P a → enc a ≠ [])
    {as bs : List α} (ha : ∀ a ∈ as, P a) (hb : ∀ b ∈ bs, P b)
    (hp : as.flatMap enc <+: bs.flatMap enc) : as <+: bs := by
  induction as generalizing bs with
  | nil => exact List.nil_prefix
  | cons a as ih =>
    obtain ⟨t, ht⟩ := hp
    cases bs with
    | nil =>
      have hnil : enc a = [] ∧ (∀ c ∈ as, enc c = []) ∧ t = [] := by simpa using ht
      exact absurd hnil.1 (hne a (ha a (by simp)))
    | cons b bs =>
      simp only [List.flatMap_cons, List.append_assoc] at ht
      obtain ⟨rfl, hrest⟩ := h a b (ha a (by simp)) (hb b (by simp)) _ _ ht
      exact List.cons_prefix_cons.mpr ⟨rfl, ih (fun c hc => ha c (by simp [hc]))
        (fun c hc => hb c (by simp [hc])) ⟨t, hrest⟩⟩

variable [DecidableEq β] {x : β} {ys : List β}

/-- A line followed by a terminator that does not occur in it. -/
theorem selfDelimiting_line (hx : x ∉ ys) :
    SelfDelimiting (fun l : List β => Search.memmem (x :: ys) l = none)
      (fun l => l ++ x :: ys) := by
  intro l l' hl hl' r r' he
  rw [List.append_assoc, List.append_assoc] at he
  have hfind : Search.memmem (x :: ys) (l ++ (x :: ys ++ r)) = some l.length :=
    Search.memmem_line hx hl
  rw [he, Search.memmem_line hx hl'] at hfind
  have hlen : l.length = l'.length := (Option.some.inj hfind).symm
  obtain ⟨rfl, hrest⟩ := List.append_inj he hlen
  exact ⟨rfl, List.append_cancel_left hrest⟩

/-- Everything up to a mark. -/
theorem selfDelimiting_until : SelfDelimiting (fun l : List β => x ∉ l) (fun l => l ++ [x]) := by
  have hnone : ∀ l : List β, x ∉ l → Search.memmem [x] l = none := by
    intro l hl
    rw [Search.memmem_eq_none_iff (by simp)]
    intro i hi
    exact hl (List.mem_of_mem_drop (hi.subset (by simp)))
  intro l l' hl hl'
  exact selfDelimiting_line (by simp) l l' (hnone l hl) (hnone l' hl')

/-- Lines, none of them blank, then a blank one. -/
theorem selfDelimiting_block (hx : x ∉ ys) :
    SelfDelimiting (fun ls : List (List β) => ∀ l ∈ ls, l ≠ [] ∧ Search.memmem (x :: ys) l = none)
      (fun ls => ls.flatMap (· ++ x :: ys) ++ x :: ys) := by
  have hline := selfDelimiting_line hx
  have hblank : Search.memmem (x :: ys) ([] : List β) = none := by simp [Search.memmem]
  intro ls
  induction ls with
  | nil =>
    intro ls' _ hls' r r' he
    cases ls' with
    | nil => exact ⟨rfl, List.append_cancel_left he⟩
    | cons l' ls' =>
      obtain ⟨hne, hl'⟩ := hls' l' (by simp)
      have hfirst := hline [] l' hblank hl' r (ls'.flatMap (· ++ x :: ys) ++ x :: ys ++ r')
        (by simpa using he)
      exact absurd hfirst.1.symm hne
  | cons l ls ih =>
    intro ls' hls hls' r r' he
    obtain ⟨hne, hl⟩ := hls l (by simp)
    cases ls' with
    | nil =>
      have hfirst := hline l [] hl hblank (ls.flatMap (· ++ x :: ys) ++ x :: ys ++ r) r'
        (by simpa using he)
      exact absurd hfirst.1 hne
    | cons l' ls' =>
      obtain ⟨-, hl'⟩ := hls' l' (by simp)
      obtain ⟨rfl, hrest⟩ := hline l l' hl hl' (ls.flatMap (· ++ x :: ys) ++ x :: ys ++ r)
        (ls'.flatMap (· ++ x :: ys) ++ x :: ys ++ r') (by simpa using he)
      obtain ⟨rfl, hr⟩ := ih ls' (fun k hk => hls k (by simp [hk]))
        (fun k hk => hls' k (by simp [hk])) r r' hrest
      exact ⟨rfl, hr⟩

end Delimited
