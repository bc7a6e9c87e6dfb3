import Mathlib.Data.List.DropRight
import Mathlib.Data.List.Infix

/-! Paths as texts, and what the components `.` and `..` in them come to without a look at any file
system. -/
namespace LexicalPath

universe u
variable {α : Type u}

/-- Climb `ups` levels, then descend through `names`. -/
structure Walk (α : Type u) where
  ups : Nat
  names : List (List α)
  deriving DecidableEq, Repr

namespace Walk

def stay : Walk α := ⟨0, []⟩

/-- The second walk from where the first one ends. -/
def andThen (v w : Walk α) : Walk α :=
  ⟨v.ups + (w.ups - v.names.length), v.names.take (v.names.length - w.ups) ++ w.names⟩

/-- One more component. Empty ones and `.` stay; `..` takes the last name back, or climbs. -/
def enter [DecidableEq α] (dot : α) (w : Walk α) (c : List α) : Walk α :=
  if c = [] ∨ c = [dot] then w
  else if c = [dot, dot] then
    if w.names = [] then { w with ups := w.ups + 1 } else { w with names := w.names.dropLast }
  else { w with names := w.names ++ [c] }

@[simp] theorem andThen_stay (v : Walk α) : v.andThen stay = v := by
  simp [andThen, stay]

@[simp] theorem stay_andThen (w : Walk α) : stay.andThen w = w := by
  simp [andThen, stay]

end Walk

variable [DecidableEq α] {sep dot : α}

/-- What the components of a text come to, one after the other. -/
def walk (sep dot : α) (text : List α) : Walk α :=
  (text.splitOnP (· = sep)).foldl (Walk.enter dot) .stay

/-- The normal form: whether the path is absolute, in which case there is nothing to climb above
the top, and what is left of its components. -/
def normalise (sep dot : α) (text : List α) : Bool × Walk α :=
  if text.head? = some sep then (true, { walk sep dot text with ups := 0 })
  else (false, walk sep dot text)

/-- In normal form, `path` goes on where `root` ends, by at least one name. -/
def Below (sep dot : α) (root path : List α) : Prop :=
  let r := normalise sep dot root
  let p := normalise sep dot path
  r.1 = p.1 ∧ r.2.ups = p.2.ups ∧ r.2.names <+: p.2.names ∧ r.2.names.length < p.2.names.length

instance (root path : List α) : Decidable (Below sep dot root path) :=
  inferInstanceAs (Decidable (_ ∧ _))

/-- A path up to its last separator, and what stands behind it. -/
def dirPart (sep : α) (text : List α) : List α := text.rdropWhile (· ≠ sep)

def lastPart (sep : α) (text : List α) : List α := text.rtakeWhile (· ≠ sep)

/-- What `index` must be like for `root ++ index` to lie below `root`. Behind the last component of
the root it is a walk of its own; the names of that walk begin with the directories of the root
that it has climbed out of and with the last component itself, and go on. -/
def Stays (sep dot : α) (root index : List α) : Prop :=
  let dirs := (walk sep dot (dirPart sep root)).names
  let last := walk sep dot (lastPart sep root)
  let w := walk sep dot (lastPart sep root ++ index)
  (root = [] → index.head? ≠ some sep) ∧
    (root.head? = some sep ∨ last.ups - dirs.length = w.ups - dirs.length) ∧
    (dirs.take (dirs.length - last.ups)).drop (dirs.length - w.ups) ++ last.names <+: w.names ∧
    dirs.length - last.ups + last.names.length < dirs.length - w.ups + w.names.length

instance (root index : List α) : Decidable (Stays sep dot root index) :=
  inferInstanceAs (Decidable (_ ∧ _))

variable {v w : Walk α} {c text root index name : List α}

theorem andThen_enter (v w : Walk α) (c : List α) :
    (v.andThen w).enter dot c = v.andThen (w.enter dot c) := by
  unfold Walk.enter
  split_ifs with hskip hup hv hw hw
  · rfl
  · -- both walks are at their top
    obtain ⟨htake, -⟩ := List.append_eq_nil_iff.mp hv
    have hle : v.names.length ≤ w.ups := by
      have := congrArg List.length htake
      rw [List.length_take, List.length_nil] at this
      omega
    simp only [Walk.andThen, hw, List.append_nil, Walk.mk.injEq]
    refine ⟨by omega, ?_⟩
    rw [show v.names.length - w.ups = 0 by omega, show v.names.length - (w.ups + 1) = 0 by omega]
  · exact absurd (List.append_eq_nil_iff.mp hv).2 hw
  · have hne : v.names.take (v.names.length - w.ups) ≠ [] := by
      simpa [Walk.andThen, hw] using hv
    have hlt : w.ups < v.names.length := by
      by_contra hle
      rw [show v.names.length - w.ups = 0 by omega] at hne
      exact hne rfl
    simp only [Walk.andThen, hw, List.append_nil, Walk.mk.injEq]
    refine ⟨by omega, ?_⟩
    rw [List.dropLast_eq_take, List.length_take, List.take_take]
    congr 1
    omega
  · simp only [Walk.andThen, Walk.mk.injEq, true_and]
    exact List.dropLast_append_of_ne_nil hw
  · simp [Walk.andThen]

theorem foldl_enter (v : Walk α) (cs : List (List α)) :
    cs.foldl (Walk.enter dot) v = v.andThen (cs.foldl (Walk.enter dot) .stay) := by
  induction cs using List.reverseRecOn with
  | nil => simp
  | append_singleton cs c ih =>
    rw [List.foldl_append, List.foldl_append, List.foldl_cons, List.foldl_cons, ih]
    exact andThen_enter _ _ _

theorem walk_nil : walk sep dot [] = .stay := by
  simp [walk, Walk.enter]

theorem walk_append_sep (a b : List α) :
    walk sep dot (a ++ sep :: b) = (walk sep dot a).andThen (walk sep dot b) := by
  rw [walk, List.splitOnP_append_cons a b (by simp), List.foldl_append]
  exact foldl_enter _ _

/-- A text without separators is one component. -/
theorem walk_component (h : sep ∉ c) : walk sep dot c = Walk.stay.enter dot c := by
  have hsplit : c.splitOnP (· = sep) = [c] := by
    refine List.splitOnP_eq_singleton fun x hx => decide_eq_false ?_
    rintro rfl
    exact h hx
  rw [walk, hsplit]
  rfl

theorem names_of_ups (h : sep ∉ c) (hu : 0 < (walk sep dot c).ups) :
    (walk sep dot c).names = [] := by
  rw [walk_component h] at hu ⊢
  unfold Walk.enter at hu ⊢
  split_ifs at hu ⊢ <;> simp_all [Walk.stay]

theorem dirPart_append_lastPart (text : List α) :
    dirPart sep text ++ lastPart sep text = text :=
  List.rdropWhile_append_rtakeWhile

theorem sep_notMem_lastPart (text : List α) : sep ∉ lastPart sep text := by
  intro h
  simpa using List.mem_rtakeWhile_imp h

theorem dirPart_ends (sep : α) (root : List α) :
    dirPart sep root = [] ∨ ∃ dir, dirPart sep root = dir ++ [sep] := by
  by_cases hne : dirPart sep root = []
  · exact .inl hne
  · right
    have hlast : (dirPart sep root).getLast hne = sep := by
      have hlast := List.rdropWhile_last_not (fun x => decide (x ≠ sep)) root hne
      exact not_not.mp fun hx => hlast (decide_eq_true hx)
    refine ⟨(dirPart sep root).dropLast, ?_⟩
    nth_rewrite 1 [← List.dropLast_append_getLast hne]
    rw [hlast]

theorem walk_dirPart_append (sep dot : α) (root text : List α) :
    walk sep dot (dirPart sep root ++ text) =
      (walk sep dot (dirPart sep root)).andThen (walk sep dot text) := by
  rcases dirPart_ends sep root with hnil | ⟨dir, hdir⟩
  · rw [hnil, walk_nil, Walk.stay_andThen, List.nil_append]
  · rw [hdir, List.append_assoc, List.singleton_append, walk_append_sep, walk_append_sep,
      walk_nil, Walk.andThen_stay]

/-- Two descents from within the same directories. -/
theorem take_append_prefix_iff {β : Type u} {dirs a b : List β} {m n : Nat}
    (hm : m ≤ dirs.length) (h : m < n → a = []) :
    dirs.take m ++ a <+: dirs.take n ++ b ↔ (dirs.take m).drop n ++ a <+: b := by
  by_cases hle : n ≤ m
  · have hsplit : dirs.take m = dirs.take n ++ (dirs.take m).drop n := by
      nth_rewrite 1 [← List.take_append_drop n (dirs.take m)]
      rw [List.take_take, Nat.min_eq_left hle]
    nth_rewrite 1 [hsplit]
    rw [List.append_assoc, List.prefix_append_right_inj]
  · have hlt : m < n := Nat.lt_of_not_le hle
    have hdrop : (dirs.take m).drop n = [] := by
      refine List.drop_eq_nil_of_le ?_
      rw [List.length_take]
      omega
    rw [h hlt, hdrop, List.append_nil, List.nil_append]
    refine iff_of_true ?_ List.nil_prefix
    exact (List.take_prefix_take_left hlt.le).trans (List.prefix_append _ _)

omit [DecidableEq α] in
/-- Appending to a path that is not empty does not make it absolute or relative. -/
theorem head?_append_of_ne (h : root ≠ []) : (root ++ index).head? = root.head? := by
  cases root with
  | nil => exact absurd rfl h
  | cons c root => rfl

/-- The names of both paths, in terms of the directories they share. -/
theorem names_append_iff (sep dot : α) (root index : List α) :
    (walk sep dot root).names <+: (walk sep dot (root ++ index)).names ∧
      (walk sep dot root).names.length < (walk sep dot (root ++ index)).names.length ↔
    let dirs := (walk sep dot (dirPart sep root)).names
    let last := walk sep dot (lastPart sep root)
    let w := walk sep dot (lastPart sep root ++ index)
    (dirs.take (dirs.length - last.ups)).drop (dirs.length - w.ups) ++ last.names <+: w.names ∧
      dirs.length - last.ups + last.names.length < dirs.length - w.ups + w.names.length := by
  have hroot := walk_dirPart_append sep dot root (lastPart sep root)
  have hfull := walk_dirPart_append sep dot root (lastPart sep root ++ index)
  rw [dirPart_append_lastPart] at hroot
  rw [← List.append_assoc, dirPart_append_lastPart] at hfull
  dsimp only
  rw [hroot, hfull]
  simp only [Walk.andThen, List.length_append, List.length_take]
  refine and_congr (take_append_prefix_iff (Nat.sub_le _ _) fun hlt => ?_) (by omega)
  exact names_of_ups (sep_notMem_lastPart root) (by omega)

theorem ups_append_iff (sep dot : α) (root index : List α) :
    (walk sep dot root).ups = (walk sep dot (root ++ index)).ups ↔
    let dirs := (walk sep dot (dirPart sep root)).names
    (walk sep dot (lastPart sep root)).ups - dirs.length =
      (walk sep dot (lastPart sep root ++ index)).ups - dirs.length := by
  have hroot := walk_dirPart_append sep dot root (lastPart sep root)
  have hfull := walk_dirPart_append sep dot root (lastPart sep root ++ index)
  rw [dirPart_append_lastPart] at hroot
  rw [← List.append_assoc, dirPart_append_lastPart] at hfull
  rw [hroot, hfull]
  simp only [Walk.andThen]
  omega

/-- The exact condition for an appended text to stay below the path it is appended to. -/
theorem below_append_iff : Below sep dot root (root ++ index) ↔ Stays sep dot root index := by
  have hnames := names_append_iff sep dot root index
  have hups := ups_append_iff sep dot root index
  unfold Below Stays normalise
  dsimp only at hnames hups ⊢
  rw [← hnames, ← hups]
  by_cases hr : root = []
  · subst hr
    by_cases hi : index.head? = some sep <;> simp [hi]
  · rw [head?_append_of_ne hr]
    by_cases habs : root.head? = some sep <;> simp [habs, hr]

/-- A symbol of a text other than the separator stands in one of its components. -/
theorem mem_component {x : α} (hx : x ∈ text) (hs : x ≠ sep) :
    ∃ c ∈ text.splitOnP (· = sep), x ∈ c := by
  induction text with
  | nil => cases hx
  | cons y text ih =>
    rw [List.splitOnP_cons_eq_if_modifyHead]
    obtain ⟨c₀, cs, hcs⟩ := List.exists_cons_of_ne_nil (List.splitOnP_ne_nil (· = sep) text)
    by_cases hy : y = sep
    · obtain ⟨c, hc, hm⟩ := ih ((List.mem_cons.mp hx).resolve_left fun h => hs (h.trans hy))
      exact ⟨c, by simp [hy, hc], hm⟩
    · rcases List.mem_cons.mp hx with rfl | hx
      · exact ⟨x :: c₀, by simp [hy, hcs], List.mem_cons_self⟩
      · obtain ⟨c, hc, hm⟩ := ih hx
        rw [hcs] at hc
        rcases List.mem_cons.mp hc with rfl | hc
        · exact ⟨y :: c, by simp [hy, hcs], List.mem_cons_of_mem y hm⟩
        · exact ⟨c, by simp [hy, hcs, hc], hm⟩

/-- Without a `..` among them components only descend, by a name for each that is not skipped. -/
theorem foldl_enter_plain (cs : List (List α)) (v : Walk α) (h : [dot, dot] ∉ cs) :
    cs.foldl (Walk.enter dot) v =
      ⟨v.ups, v.names ++ cs.filter fun c => decide ¬ (c = [] ∨ c = [dot])⟩ := by
  induction cs generalizing v with
  | nil => simp
  | cons c cs ih =>
    obtain ⟨hc, hcs⟩ := List.ne_and_not_mem_of_not_mem_cons h
    rw [List.foldl_cons, ih _ hcs]
    by_cases hskip : c = [] ∨ c = [dot]
    · rw [List.filter_cons, if_neg (by simp [hskip])]
      simp only [Walk.enter, if_pos hskip]
    · rw [List.filter_cons, if_pos (decide_eq_true hskip)]
      simp only [Walk.enter, if_neg hskip, if_neg hc.symm, List.append_assoc, List.singleton_append]

/-- A text without `..` stays under a root, if one of its components is a name. -/
theorem stays_plain (hr : root ≠ []) (hdots : [dot, dot] ∉ text.splitOnP (· = sep))
    (hname : ∃ c ∈ text.splitOnP (· = sep), ¬ (c = [] ∨ c = [dot])) :
    Stays sep dot root (sep :: text) := by
  have htext : walk sep dot text = ⟨0, (text.splitOnP (· = sep)).filter
      fun c => decide ¬ (c = [] ∨ c = [dot])⟩ := by
    rw [walk, foldl_enter_plain _ _ hdots]
    rfl
  have hwalk : walk sep dot (root ++ sep :: text) = ⟨(walk sep dot root).ups,
      (walk sep dot root).names ++ (walk sep dot text).names⟩ := by
    rw [walk_append_sep, htext]
    simp [Walk.andThen]
  have hlt : 0 < (walk sep dot text).names.length := by
    obtain ⟨c, hc, hne⟩ := hname
    rw [htext]
    exact List.length_pos_of_mem (List.mem_filter.mpr ⟨hc, decide_eq_true hne⟩)
  rw [← below_append_iff]
  unfold Below normalise
  rw [head?_append_of_ne hr, hwalk]
  by_cases habs : root.head? = some sep <;> simp [habs, hlt]

/-- A file directly under the root. -/
theorem stays_name (hr : root ≠ []) (hs : sep ∉ name) (hne : name ≠ [])
    (hdot : name ≠ [dot] ∧ name ≠ [dot, dot]) : Stays sep dot root (sep :: name) := by
  have hsplit : name.splitOnP (· = sep) = [name] := by
    refine List.splitOnP_eq_singleton fun x hx => decide_eq_false ?_
    rintro rfl
    exact hs hx
  refine stays_plain hr ?_ ⟨name, ?_, ?_⟩
  · rw [hsplit]
    simpa using hdot.2.symm
  · rw [hsplit]
    exact List.mem_singleton_self name
  · simp [hne, hdot.1]

end LexicalPath
