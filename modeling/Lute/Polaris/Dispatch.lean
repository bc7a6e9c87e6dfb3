import Lute.Polaris.LifeCycle

/-! What the loops of a server hold in `activeChannels_`: the channel whose event is handled is
there, and no channel is taken out of the poller while events are handled. -/
namespace Lute

namespace TCPServer

open TCPConnection (Effect)

variable {L : Type} [DecidableEq L] {cfg : ServerConfig L} {s t : TCPServer L} {l : L} {i : Item}
  {rest : List Item} {r : ReadResult} {w : WriteResult} {h : List (Label L)}

/-- The end of a connection is a matter of functors, not of events. -/
def Late (loop : ServerLoop) : Prop :=
  ∀ c, .connectDestroyed c ∈ loop.todo ∨ .remove c ∈ loop.todo → loop.core.phase = .running

theorem todo_push (b : Bool) (is : List Item) (m : L) :
    ((s.push b l is).loops m).todo = (s.loops m).todo := by
  by_cases hm : m = l <;> simp [push, setLoop, hm]

theorem todo_perform (m : L) : ((s.perform l i rest r w).loops m).todo =
    if m = l then s.goesOn r w i ++ rest else (s.loops m).todo := by
  rw [perform, todo_push]
  by_cases hm : m = l <;> simp [setLoop, setConn, goesOn, hm]

/-- Only the last functor of a connection takes its channel out. -/
theorem remove_mem_perform {conn : TCPConnection} (he : .remove ∈ (conn.perform r w i).2) :
    ∃ c, i = .connectDestroyed c := by
  cases htok : i.isToken with
  | false =>
    rcases conn.perform_cases r w htok with hst | ⟨-, hclose⟩
    · exact absurd (hst.effects _ he) (by simp [Effect.isMilestone])
    · simp [hclose, TCPConnection.handleClose] at he
  | true =>
    cases i with
    | connectDestroyed c => exact ⟨c, rfl⟩
    | connectEstablished c =>
      simp [TCPConnection.perform, TCPConnection.connectEstablished] at he
    | removeConnectionInLoop | connectionCallback | closeCallback | remove =>
      simp [TCPConnection.perform] at he
    | _ => simp [Item.isToken] at htok

omit [DecidableEq L] in
theorem mem_goesOn {c : Nat} (hj : .connectDestroyed c ∈ s.goesOn r w i ∨
    .remove c ∈ s.goesOn r w i) : ∃ d, i = .connectDestroyed d := by
  rcases hj with hj | hj
  · obtain ⟨e, -, hne⟩ := List.mem_filterMap.mp hj
    cases e <;> simp [Item.next] at hne
  · obtain ⟨e, he, hne⟩ := List.mem_filterMap.mp hj
    obtain rfl : e = .remove := by cases e <;> simp [Item.next] at hne ⊢
    exact remove_mem_perform he

theorem late_setLoop {loop : ServerLoop} (hl : ∀ m, Late (s.loops m)) (hloop : Late loop) (m : L) :
    Late ((s.setLoop l loop).loops m) := by
  by_cases hm : m = l
  · simpa [setLoop, hm] using hloop
  · simpa [setLoop, hm] using hl m

theorem late_push (hl : ∀ m, Late (s.loops m)) (b : Bool) (is : List Item) (m : L) :
    Late ((s.push b l is).loops m) := by
  intro c hc
  rw [todo_push] at hc
  rw [phase_push]
  exact hl m c hc

theorem late_perform (hl : ∀ m, Late (s.loops m)) (htodo : (s.loops l).todo = i :: rest) (m : L) :
    Late ((s.perform l i rest r w).loops m) := by
  intro c hc
  rw [todo_perform] at hc
  rw [phase_perform]
  split_ifs at hc with hm
  · subst hm
    simp only [List.mem_append] at hc
    by_cases hrest : .connectDestroyed c ∈ rest ∨ .remove c ∈ rest
    · exact hl m c (htodo ▸ hrest.imp (List.mem_cons_of_mem i) (List.mem_cons_of_mem i))
    · obtain ⟨d, rfl⟩ := mem_goesOn (s := s) (r := r) (w := w) (i := i) (c := c) (by tauto)
      exact hl m d (.inl (htodo ▸ List.mem_cons_self))
  · exact hl m c hc

theorem late_exec (hl : ∀ m, Late (s.loops m)) (htodo : (s.loops l).todo = i :: rest) (m : L) :
    Late ((s.exec cfg l i rest r w).loops m) := by
  have hperform := late_perform (r := r) (w := w) hl htodo
  rw [exec]
  cases i with
  | closeCallback d =>
    simp only [serve]
    split_ifs
    · refine late_setLoop hperform ?_ m
      intro c hc
      exact hperform l c (by simpa using hc)
    · exact late_push hperform false _ m
  | removeConnectionInLoop d => exact late_push hperform _ _ m
  | _ => exact hperform m

theorem late_nil {loop : ServerLoop} (h : loop.todo = []) : Late loop := by
  intro c hc
  simp [h] at hc

theorem late_step {a : Label L} (hs : Step cfg s a t) (hok : ∀ m, LoopOk (s.loops m))
    (hl : ∀ m, Late (s.loops m)) (m : L) : Late (t.loops m) := by
  cases hs with
  | @poll l core active hm hnd hact =>
    obtain ⟨hph, -⟩ := by simpa [EventLoop.move] using hm
    refine late_setLoop hl ?_ m
    exact late_nil ((hok l).idle (.inl hph))
  | @handleEvent l c revents active htodo hph hact =>
    refine late_setLoop hl (fun d hd => ?_) m
    simp at hd
  | @move l mv core htodo hact hne hm =>
    refine late_setLoop hl ?_ m
    exact late_nil htodo
  | @run l j core htodo hm =>
    refine late_setLoop hl (fun d hd => ?_) m
    obtain ⟨⟨hph, -⟩, rfl⟩ := by simpa [EventLoop.move] using hm
    exact hph
  | @newConnection io b htodo hph =>
    simp only [newConnection]
    split_ifs with hio
    · refine late_setLoop hl (fun d hd => ?_) m
      subst hio
      simp [setConn, htodo] at hd
    · exact late_push hl false _ m
  | exec htodo => exact late_exec hl htodo m
  | app => exact hl m
  | post => exact late_push hl _ _ m
  | timer => exact hl m

end TCPServer

end Lute
