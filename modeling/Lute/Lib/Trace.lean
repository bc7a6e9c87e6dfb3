import Mathlib.Data.List.Induction

/-! Labelled transition systems, their finite histories and the induction rules over them. -/
namespace Trace

universe u v w
variable {σ : Type u} {α : Type v} {τ : Type w}

/-- Initial states together with labelled steps. -/
structure LTS (σ : Type u) (α : Type v) where
  init : σ → Prop
  step : σ → α → σ → Prop

/-- `L.Exec h s`: the history `h`, oldest label first, leads from an initial state to `s`. -/
inductive LTS.Exec (L : LTS σ α) : List α → σ → Prop
  | start {s : σ} (hi : L.init s) : L.Exec [] s
  | snoc {h : List α} {s t : σ} {a : α} (he : L.Exec h s) (hs : L.step s a t) :
      L.Exec (h ++ [a]) t

/-- The same system, kept from taking the steps that violate `C`. -/
def LTS.restrict (L : LTS σ α) (C : σ → α → Prop) : LTS σ α where
  init := L.init
  step s a t := C s a ∧ L.step s a t

/-- The same system, started in the state `s`. -/
def LTS.resume (L : LTS σ α) (s : σ) : LTS σ α where
  init t := t = s
  step := L.step

variable {L : LTS σ α}

/-- The invariant rule: a fact about history and state that holds initially and that every
step of a genuine history keeps, holds throughout. -/
theorem LTS.Exec.induct {I : List α → σ → Prop} (h₀ : ∀ s, L.init s → I [] s)
    (hstep : ∀ h s a t, L.Exec h s → I h s → L.step s a t → I (h ++ [a]) t)
    {h : List α} {s : σ} (he : L.Exec h s) : I h s := by
  induction he with
  | start hi => exact h₀ _ hi
  | snoc he hs ih => exact hstep _ _ _ _ he ih hs

/-- A system that starts and steps at most as another one has its histories. -/
theorem LTS.Exec.mono {M : LTS σ α} {h : List α} {s : σ} (he : L.Exec h s)
    (hinit : ∀ s, L.init s → M.init s) (hstep : ∀ s a t, L.step s a t → M.step s a t) :
    M.Exec h s := by
  induction he with
  | start hi => exact .start (hinit _ hi)
  | snoc _ hs ih => exact .snoc ih (hstep _ _ _ hs)

theorem LTS.Exec.of_restrict {C : σ → α → Prop} {h : List α} {s : σ}
    (he : (L.restrict C).Exec h s) : L.Exec h s :=
  he.mono (M := L) (fun _ hi => hi) fun _ _ _ hs => hs.2

theorem LTS.Exec.restrict_snoc {C : σ → α → Prop} {h : List α} {s t : σ} {a : α}
    (he : (L.restrict C).Exec h s) (hs : L.step s a t) (hc : C s a) :
    (L.restrict C).Exec (h ++ [a]) t :=
  he.snoc ⟨hc, hs⟩

/-- A history all of whose labels satisfy the condition is one of the restricted system. -/
theorem LTS.Exec.restrict_of_forall {C : α → Prop} {h : List α} {s : σ} (he : L.Exec h s)
    (hc : ∀ a ∈ h, C a) : (L.restrict fun _ a => C a).Exec h s := by
  induction he with
  | start hi => exact .start hi
  | snoc _ hs ih =>
    exact .snoc (ih fun b hb => hc b (List.mem_append_left _ hb)) ⟨hc _ (by simp), hs⟩

/-- A history that an executable step function accepts. -/
theorem LTS.exec_of_foldlM {f : σ → α → Option σ} (hf : ∀ s a t, f s a = some t → L.step s a t)
    {s : σ} (hi : L.init s) {h : List α} {t : σ} (hr : h.foldlM f s = some t) : L.Exec h t := by
  induction h using List.reverseRecOn generalizing t with
  | nil =>
    obtain rfl : s = t := by simpa using hr
    exact .start hi
  | append_singleton h a ih =>
    rw [List.foldlM_append] at hr
    obtain ⟨u, hu, ht⟩ := Option.bind_eq_some_iff.mp hr
    exact .snoc (ih hu) (hf u a t (by simpa using ht))

/-- Every label of the history stands in the relation `P` to the labels before it. -/
def Always (P : List α → α → Prop) (h : List α) : Prop :=
  ∀ pre a post, h = pre ++ a :: post → P pre a

variable {P : List α → α → Prop} {h : List α} {a : α}

theorem always_nil : Always P [] := by
  intro pre a post he
  simp at he

theorem Always.snoc (hb : Always P h) (ha : P h a) : Always P (h ++ [a]) := by
  intro pre c post he
  rcases List.eq_nil_or_concat post with rfl | ⟨post', d, rfl⟩
  · obtain ⟨rfl, hc⟩ := List.append_inj' he rfl
    obtain rfl : a = c := by simpa using hc
    exact ha
  · rw [List.concat_eq_append, ← List.cons_append, ← List.append_assoc] at he
    exact hb pre c post' (List.append_inj' he rfl).1

theorem Always.of_append {h' : List α} (hb : Always P (h ++ h')) : Always P h := by
  intro pre a post he
  exact hb pre a (post ++ h') (by simp [he])

theorem Always.imp {Q : List α → α → Prop} (hb : Always P h) (himp : ∀ pre a, P pre a → Q pre a) :
    Always Q h := by
  intro pre a post he
  exact himp pre a (hb pre a post he)

theorem Always.tail (hb : Always P (a :: h)) : Always (fun pre c => P (a :: pre) c) h := by
  intro pre c post he
  exact hb (a :: pre) c post (by rw [he, List.cons_append])

end Trace
