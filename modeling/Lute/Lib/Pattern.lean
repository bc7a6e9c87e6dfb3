import Mathlib.Data.List.Forall2
import Mathlib.Data.List.TakeWhile

/-! Search with the plain part of regular expressions: classes, greedy repetition and groups in a
row, matched with backtracking as the standard prescribes. -/
namespace Pattern

universe u v
variable {α : Type u} {β : Type v}

/-- One symbol of a class, or as many as possible but at least one. -/
inductive Atom (α : Type u)
  | one (p : α → Bool)
  | plus (p : α → Bool)

/-- The groups of a pattern, in order; text between captures is a group too. -/
abbrev Groups (α : Type u) := List (List (Atom α))

def literal [DecidableEq α] (text : List α) : List (Atom α) := text.map fun c => .one (· = c)

/-- The first success of `f` counting down from `n` to one. -/
def countdown (f : Nat → Option β) : Nat → Option β
  | 0 => none
  | n + 1 => (f (n + 1)).orElse fun _ => countdown f n

/-- Match the atoms of a group on the front of `s` and go on with `k`, which is given the text of
the group and what follows it. -/
def matchAtoms (k : List α → List α → Option β) : List (Atom α) → List α → List α → Option β
  | [], text, s => k text s
  | .one _ :: _, _, [] => none
  | .one p :: as, text, c :: s => if p c then matchAtoms k as (text ++ [c]) s else none
  | .plus p :: as, text, s =>
    countdown (fun n => matchAtoms k as (text ++ s.take n) (s.drop n)) (s.takeWhile p).length

/-- Match all groups on the front of `s`: their texts, and the rest of `s`. -/
def matchGroups : Groups α → List α → Option (List (List α) × List α)
  | [], s => some ([], s)
  | g :: gs, s =>
    matchAtoms (fun text s' => (matchGroups gs s').map fun m => (text :: m.1, m.2)) g [] s

/-- The leftmost match. -/
def search (gs : Groups α) : List α → Option (List (List α) × List α)
  | [] => matchGroups gs []
  | c :: s => (matchGroups gs (c :: s)).orElse fun _ => search gs s

/-- The matches an iterator visits, each search starting where the last match ended. -/
def visit (gs : Groups α) : Nat → List α → List (List (List α))
  | 0, _ => []
  | fuel + 1, s =>
    match search gs s with
    | some (texts, rest) => texts :: visit gs fuel rest
    | none => []

/-- All of them; the pattern is one that matches no empty text. -/
def findAll (gs : Groups α) (s : List α) : List (List (List α)) := visit gs (s.length + 1) s

inductive Spells : List (Atom α) → List α → Prop
  | nil : Spells [] []
  | one {p : α → Bool} {c : α} {as : List (Atom α)} {t : List α} (hc : p c = true)
      (ht : Spells as t) : Spells (.one p :: as) (c :: t)
  | plus {p : α → Bool} {u : List α} {as : List (Atom α)} {t : List α} (hu : u ≠ [])
      (hp : ∀ c ∈ u, p c = true) (ht : Spells as t) : Spells (.plus p :: as) (u ++ t)

/-- The texts of an occurrence of the pattern in `s`, with what precedes and follows it. -/
def Occurs (gs : Groups α) (s before : List α) (texts : List (List α)) (rest : List α) : Prop :=
  s = before ++ texts.flatten ++ rest ∧ List.Forall₂ Spells gs texts

variable {f : Nat → Option β} {k : List α → List α → Option β} {x : β} {n : Nat}
  {gs : Groups α} {g as : List (Atom α)} {s before text rest : List α} {texts : List (List α)}

theorem Spells.of_literal [DecidableEq α] (word : List α) {t : List α}
    (h : Spells (literal word ++ as) t) :
    ∃ t', t = word ++ t' ∧ Spells as t' := by
  induction word generalizing t with
  | nil => exact ⟨t, rfl, h⟩
  | cons c word ih =>
    cases h with
    | one hc ht =>
      obtain ⟨t', rfl, ht'⟩ := ih ht
      exact ⟨t', by simpa using hc, ht'⟩

theorem spells_literal [DecidableEq α] {word t : List α} (h : Spells (literal word) t) :
    t = word := by
  obtain ⟨t', rfl, ht⟩ := Spells.of_literal word ((List.append_nil (literal word)).symm ▸ h)
  cases ht
  exact List.append_nil word

theorem literal_spells [DecidableEq α] (word : List α) : Spells (literal word) word := by
  induction word with
  | nil => exact .nil
  | cons c word ih => exact .one (by simp) ih

theorem Spells.append {bs : List (Atom α)} {t t' : List α} (h : Spells as t)
    (h' : Spells bs t') : Spells (as ++ bs) (t ++ t') := by
  induction h with
  | nil => exact h'
  | one hc _ ih => exact .one hc ih
  | plus hu hp _ ih =>
    rw [List.append_assoc]
    exact .plus hu hp ih

theorem plus_spells {p : α → Bool} {t : List α} (hne : t ≠ []) (hp : t.all p = true) :
    Spells [.plus p] t := by
  simpa using Spells.plus hne (List.all_eq_true.mp hp) .nil

theorem spells_plus {p : α → Bool} {t : List α} (h : Spells [.plus p] t) :
    t ≠ [] ∧ ∀ c ∈ t, p c = true := by
  cases h with
  | plus hu hp ht =>
    cases ht
    simpa using ⟨hu, hp⟩

theorem countdown_eq_some (h : countdown f n = some x) : ∃ m, 0 < m ∧ m ≤ n ∧ f m = some x := by
  induction n with
  | zero => cases h
  | succ n ih =>
    cases hf : f (n + 1) with
    | some y =>
      obtain rfl : y = x := by simpa [countdown, hf] using h
      exact ⟨n + 1, n.succ_pos, le_rfl, hf⟩
    | none =>
      obtain ⟨m, hm, hle, hfm⟩ := ih (by simpa [countdown, hf] using h)
      exact ⟨m, hm, hle.trans n.le_succ, hfm⟩

theorem matchAtoms_sound (h : matchAtoms k as text s = some x) :
    ∃ t s', Spells as t ∧ s = t ++ s' ∧ k (text ++ t) s' = some x := by
  induction as generalizing text s with
  | nil => exact ⟨[], s, .nil, rfl, by simpa [matchAtoms] using h⟩
  | cons a as ih =>
    cases a with
    | one p =>
      cases s with
      | nil => cases h
      | cons c s =>
        obtain ⟨hc, h⟩ := by simpa [matchAtoms] using h
        obtain ⟨t, s', ht, rfl, hk⟩ := ih h
        exact ⟨c :: t, s', .one hc ht, rfl, by simpa using hk⟩
    | plus p =>
      obtain ⟨m, hm, hle, hf⟩ := countdown_eq_some h
      obtain ⟨t, s', ht, hs, hk⟩ := ih hf
      have hpre : s.take m <+: s.takeWhile p := by
        refine List.prefix_of_prefix_length_le (List.take_prefix m s) (List.takeWhile_prefix p) ?_
        exact (List.length_take_le m s).trans hle
      refine ⟨s.take m ++ t, s', .plus ?_ ?_ ht, ?_, by simpa using hk⟩
      · have hlen := hle.trans (List.takeWhile_prefix p).length_le
        exact List.ne_nil_of_length_pos (by rw [List.length_take]; omega)
      · exact fun c hc => List.mem_takeWhile_imp (hpre.subset hc)
      · rw [List.append_assoc, ← hs, List.take_append_drop]

theorem countdown_isSome {m : Nat} (hm : 0 < m) (hle : m ≤ n) (hf : (f m).isSome) :
    (countdown f n).isSome := by
  induction n with
  | zero => omega
  | succ n ih =>
    cases hfn : f (n + 1) with
    | some y => simp [countdown, hfn]
    | none =>
      have hne : m ≠ n + 1 := by
        rintro rfl
        simp [hfn] at hf
      simpa [countdown, hfn] using ih (by omega)

/-- Backtracking misses nothing. -/
theorem matchAtoms_complete {t s' : List α} (ht : Spells as t)
    (hk : (k (text ++ t) s').isSome) : (matchAtoms k as text (t ++ s')).isSome := by
  induction ht generalizing text with
  | nil => simpa [matchAtoms] using hk
  | one hc _ ih =>
    rw [List.cons_append, matchAtoms, if_pos hc]
    exact ih (by simpa using hk)
  | @plus p u as t hu hp _ ih =>
    have hle : u.length ≤ ((u ++ t ++ s').takeWhile p).length := by
      rw [List.append_assoc, List.takeWhile_append_of_pos (by simpa using hp)]
      simp
    refine countdown_isSome (List.length_pos_of_ne_nil hu) hle ?_
    simpa using ih (by simpa using hk)

/-- A match is an occurrence, group by group. -/
theorem matchGroups_cons (h : matchGroups (g :: gs) s = some (texts, rest)) :
    ∃ t ts s', texts = t :: ts ∧ Spells g t ∧ s = t ++ s' ∧
      matchGroups gs s' = some (ts, rest) := by
  obtain ⟨t, s', ht, hs, hk⟩ := matchAtoms_sound h
  obtain ⟨⟨ts, r⟩, hm, he⟩ := Option.map_eq_some_iff.mp hk
  obtain ⟨rfl, rfl⟩ := Prod.mk.inj he
  exact ⟨t, ts, s', rfl, ht, hs, hm⟩

theorem matchGroups_sound (h : matchGroups gs s = some (texts, rest)) :
    Occurs gs s [] texts rest := by
  induction gs generalizing s texts with
  | nil =>
    obtain ⟨rfl, rfl⟩ := by simpa [matchGroups] using h
    exact ⟨rfl, .nil⟩
  | cons g gs ih =>
    obtain ⟨t, ts, s', rfl, ht, rfl, hm⟩ := matchGroups_cons h
    obtain ⟨hs, hts⟩ := ih hm
    exact ⟨by simp [hs], .cons ht hts⟩

/-- A repetition at the end of the pattern takes all it can. -/
theorem matchGroups_plus (gs : Groups α) {p : α → Bool}
    (h : matchGroups (gs ++ [[.plus p]]) s = some (texts, rest)) :
    ∀ c ∈ rest.head?, p c = false := by
  induction gs generalizing s texts with
  | cons g gs ih =>
    obtain ⟨t, ts, s', -, -, -, hm⟩ := matchGroups_cons h
    exact ih hm
  | nil =>
    have hrest : s.drop (s.takeWhile p).length = rest := by
      cases hn : (s.takeWhile p).length with
      | zero => simp [matchGroups, matchAtoms, hn, countdown] at h
      | succ n =>
        obtain ⟨-, hdrop⟩ := by simpa [matchGroups, matchAtoms, hn, countdown] using h
        exact hdrop
    rw [← hrest]
    nth_rewrite 2 [← List.takeWhile_append_dropWhile (p := p) (l := s)]
    rw [List.drop_left]
    intro c hc
    have hhead := List.head?_dropWhile_not p s
    rw [hc] at hhead
    exact hhead

theorem search_sound (h : search gs s = some (texts, rest)) :
    ∃ before s', s = before ++ s' ∧ matchGroups gs s' = some (texts, rest) := by
  induction s with
  | nil => exact ⟨[], [], rfl, h⟩
  | cons c s ih =>
    cases hm : matchGroups gs (c :: s) with
    | some m =>
      obtain rfl : m = (texts, rest) := by simpa [search, hm] using h
      exact ⟨[], c :: s, rfl, hm⟩
    | none =>
      obtain ⟨before, s', hs, hm'⟩ := ih (by simpa [search, hm] using h)
      exact ⟨c :: before, s', by rw [hs, List.cons_append], hm'⟩

theorem matchGroups_complete (h : List.Forall₂ Spells gs texts) (rest : List α) :
    (matchGroups gs (texts.flatten ++ rest)).isSome := by
  induction h with
  | nil => rfl
  | @cons g t gs ts hg _ ih =>
    rw [List.flatten_cons, List.append_assoc]
    exact matchAtoms_complete hg (by simpa using ih)

theorem search_complete (h : Occurs gs s before texts rest) : (search gs s).isSome := by
  obtain ⟨rfl, hsp⟩ := h
  induction before with
  | nil =>
    have hm := matchGroups_complete hsp rest
    rw [List.nil_append]
    generalize texts.flatten ++ rest = s at hm
    cases s with
    | nil => exact hm
    | cons c s => simp [search, hm]
  | cons c before ih =>
    rw [List.cons_append, List.cons_append, search]
    cases matchGroups gs (c :: (before ++ texts.flatten ++ rest)) with
    | some m => rfl
    | none => exact ih

theorem search_eq_none (h : ∀ before texts rest, ¬ Occurs gs s before texts rest) :
    search gs s = none := by
  refine Option.eq_none_iff_forall_not_mem.mpr fun ⟨texts, rest⟩ hm => ?_
  obtain ⟨before, s', rfl, hm'⟩ := search_sound hm
  obtain ⟨rfl, hsp⟩ := matchGroups_sound hm'
  exact h before texts rest ⟨by simp, hsp⟩

theorem findAll_of_search_none (h : search gs s = none) : findAll gs s = [] := by
  simp [findAll, visit, h]

/-- Where the pattern occurs only at the start, it is found once or not at all. -/
theorem findAll_of_start (hne : ∀ texts, List.Forall₂ Spells gs texts → texts.flatten ≠ [])
    (h : ∀ before texts rest, Occurs gs s before texts rest → before = []) :
    (findAll gs s = [] ∧ search gs s = none) ∨
      ∃ texts rest, findAll gs s = [texts] ∧ matchGroups gs s = some (texts, rest) := by
  cases hs : search gs s with
  | none => exact .inl ⟨findAll_of_search_none hs, rfl⟩
  | some m =>
    obtain ⟨texts, rest⟩ := m
    obtain ⟨before, s', rfl, hm⟩ := search_sound hs
    obtain ⟨rfl, hsp⟩ := matchGroups_sound hm
    obtain rfl := h before texts rest ⟨by simp, hsp⟩
    have hrest : search gs rest = none := by
      refine search_eq_none fun before' texts' rest' ⟨he, hsp'⟩ => ?_
      have := h (texts.flatten ++ before') texts' rest' ⟨by simp [he], hsp'⟩
      exact hne texts hsp (List.append_eq_nil_iff.mp this).1
    refine .inr ⟨texts, rest, ?_, hm⟩
    rw [findAll, visit, hs]
    cases hl : ([] ++ ([] ++ texts.flatten ++ rest)).length with
    | zero => rfl
    | succ n => simp [visit, hrest]

theorem search_occurs (h : search gs s = some (texts, rest)) :
    ∃ before, Occurs gs s before texts rest := by
  obtain ⟨before, s', rfl, hm⟩ := search_sound h
  obtain ⟨rfl, hsp⟩ := matchGroups_sound hm
  exact ⟨before, by simp, hsp⟩

/-- The iterator stops when nothing is left to be found, and the last match it has visited is an
occurrence with none behind it. -/
theorem visit_last (hne : ∀ texts, List.Forall₂ Spells gs texts → texts.flatten ≠ [])
    (hn : s.length < n) :
    (visit gs n s = [] ∧ search gs s = none) ∨
      ∃ texts before rest, (visit gs n s).getLast? = some texts ∧ Occurs gs s before texts rest ∧
        search gs rest = none := by
  induction n generalizing s with
  | zero => omega
  | succ n ih =>
    cases hs : search gs s with
    | none => exact .inl ⟨by simp [visit, hs], rfl⟩
    | some m =>
      obtain ⟨texts, rest⟩ := m
      obtain ⟨before, hocc⟩ := search_occurs hs
      have hshort : rest.length < n := by
        have hpos := List.length_pos_of_ne_nil (hne texts hocc.2)
        have hlen := congrArg List.length hocc.1
        simp only [List.length_append] at hlen
        omega
      have hvisit : visit gs (n + 1) s = texts :: visit gs n rest := by simp [visit, hs]
      right
      rcases ih hshort with ⟨hnil, hnone⟩ | ⟨texts', before', rest', hlast, hocc', hnone⟩
      · exact ⟨texts, before, rest, by simp [hvisit, hnil], hocc, hnone⟩
      · refine ⟨texts', before ++ texts.flatten ++ before', rest', ?_, ?_, hnone⟩
        · simp [hvisit, List.getLast?_cons, hlast]
        · exact ⟨by rw [hocc.1, hocc'.1]; simp, hocc'.2⟩

end Pattern
