import Mathlib.Data.List.Nodup
import Mathlib.Logic.Function.Basic

/-! Messages from many senders to one owner: the owner's own are handled on the spot, the others'
travel through a queue. -/
namespace Mailbox

universe u v
variable {S : Type u} {M : Type v} [DecidableEq S] {sender : M → S} {owner : S}

/-- All messages issued so far, those issued and not yet handed over, the queue, and the messages
handled, in order. -/
structure State (S : Type u) (M : Type v) where
  issued : List M
  held : S → Option M
  queue : List M
  done : List M

inductive Step (sender : M → S) (owner : S) : State S M → State S M → Prop
  | stutter {s : State S M} : Step sender owner s s
  | issue {s : State S M} {m : M} (hfree : s.held (sender m) = none) (hnew : m ∉ s.issued) :
      Step sender owner s
        { s with issued := s.issued ++ [m], held := Function.update s.held (sender m) (some m) }
  | enqueue {s : State S M} {m : M} (hheld : s.held (sender m) = some m) (ho : sender m ≠ owner) :
      Step sender owner s
        { s with held := Function.update s.held (sender m) none, queue := s.queue ++ [m] }
  | run {s : State S M} {m : M} {q : List M} (hq : s.queue = m :: q) :
      Step sender owner s { s with queue := q, done := s.done ++ [m] }
  | here {s : State S M} {m : M} (hheld : s.held (sender m) = some m) (ho : sender m = owner) :
      Step sender owner s
        { s with held := Function.update s.held (sender m) none, done := s.done ++ [m] }

/-- For every sender, what was handled, queued and held is what was issued, in this order. -/
structure Inv (sender : M → S) (owner : S) (s : State S M) : Prop where
  order : ∀ p, s.done.filter (sender · = p) ++ s.queue.filter (sender · = p) ++ (s.held p).toList =
    s.issued.filter (sender · = p)
  foreign : ∀ m ∈ s.queue, sender m ≠ owner
  nodup : s.issued.Nodup

variable {s t : State S M}

theorem Inv.empty {s : State S M} (hi : s.issued = []) (hh : ∀ p, s.held p = none)
    (hq : s.queue = []) (hd : s.done = []) : Inv sender owner s where
  order p := by simp [hi, hh, hq, hd]
  foreign := by simp [hq]
  nodup := by simp [hi]

theorem filter_owner_queue (hi : Inv sender owner s) {p : S} (hp : p = owner) :
    s.queue.filter (sender · = p) = [] := by
  rw [List.filter_eq_nil_iff]
  intro m hm
  simpa [hp] using hi.foreign m hm

theorem Inv.step (h : Step sender owner s t) (hi : Inv sender owner s) : Inv sender owner t := by
  cases h with
  | stutter => exact hi
  | @issue m hfree hnew =>
    refine ⟨fun p => ?_, hi.foreign, ?_⟩
    swap
    · rw [← List.concat_eq_append, List.nodup_concat]
      exact ⟨hnew, hi.nodup⟩
    have ho := hi.order p
    by_cases hp : sender m = p
    · subst hp
      simp_all [List.filter_append]
    · have hne : p ≠ sender m := fun h => hp h.symm
      simpa [List.filter_append, hp, hne] using ho
  | @enqueue m hheld hown =>
    refine ⟨fun p => ?_, ?_, hi.nodup⟩
    · have ho := hi.order p
      by_cases hp : sender m = p
      · subst hp
        simp_all [List.filter_append]
      · have hne : p ≠ sender m := fun h => hp h.symm
        simpa [List.filter_append, hp, hne] using ho
    · intro m' hm'
      rcases List.mem_append.mp hm' with hm' | hm'
      · exact hi.foreign m' hm'
      · obtain rfl : m' = m := by simpa using hm'
        exact hown
  | @run m q hq =>
    refine ⟨fun p => ?_, fun m' hm' => hi.foreign m' (by simp [hq, hm']), hi.nodup⟩
    have ho := hi.order p
    by_cases hp : sender m = p <;> simp_all [List.filter_append]
  | @here m hheld hown =>
    refine ⟨fun p => ?_, hi.foreign, hi.nodup⟩
    have ho := hi.order p
    by_cases hp : sender m = p
    · subst hp
      rw [filter_owner_queue hi hown] at ho ⊢
      simpa [List.filter_append, hheld] using ho
    · have hne : p ≠ sender m := fun h => hp h.symm
      simpa [List.filter_append, hp, hne] using ho

/-- Each sender's messages are handled in the order it issued them. -/
theorem Inv.done_prefix (hi : Inv sender owner s) (p : S) :
    s.done.filter (sender · = p) <+: s.issued.filter (sender · = p) := by
  rw [← hi.order p, List.append_assoc]
  exact List.prefix_append _ _

/-- No message is handled twice. -/
theorem Inv.nodup_done (hi : Inv sender owner s) : s.done.Nodup := by
  classical
  refine List.nodup_iff_count_le_one.mpr fun m => ?_
  have hle : (s.done.filter (sender · = sender m)).count m ≤
      (s.issued.filter (sender · = sender m)).count m :=
    (hi.done_prefix (sender m)).sublist.count_le m
  rw [List.count_filter (by simp), List.count_filter (by simp)] at hle
  exact Nat.le_trans hle (List.nodup_iff_count_le_one.mp hi.nodup m)

/-- A message that was issued is handled, queued or still held. -/
theorem Inv.mem_issued (hi : Inv sender owner s) {m : M} (hm : m ∈ s.issued) :
    m ∈ s.done ∨ m ∈ s.queue ∨ s.held (sender m) = some m := by
  have h : m ∈ s.issued.filter (sender · = sender m) := by simpa using hm
  rw [← hi.order (sender m)] at h
  simpa [or_assoc] using h

end Mailbox
