import Lute.Polaris.Dispatch
import Lute.Polaris.TeardownFrames

/-! What the acceptor's loop has in `activeChannels_` while the destructor runs on its thread. -/
namespace Lute

namespace Teardown

variable {L : Type} [DecidableEq L] {cfg : ServerConfig L} {s t : Teardown L} {a : Label L} {l : L}

/-- The acceptor's thread is in the destructor. -/
def Busy (s : Teardown L) : Prop := s.inline ≠ [] ∨ ∃ c cs, s.dtor = some (c :: cs)

omit [DecidableEq L] in
theorem Free.ne_loop (hf : s.Free cfg l) (hb : s.Busy) : l ≠ cfg.loop := by
  intro hl
  obtain ⟨hi, hd⟩ := hf.2 hl
  rcases hb with hb | ⟨c, cs, hb⟩
  · exact hb hi
  · exact hd c cs hb

/-- The loop `m` is where it was: handling the same event of the same poll, or none. -/
structure Stands (s t : Teardown L) (m : L) : Prop where
  phase : (t.server.loops m).core.phase = (s.server.loops m).core.phase
  activeChannels : t.activeChannels m = s.activeChannels m
  currentActiveChannel : t.currentActiveChannel m = s.currentActiveChannel m
  owner : t.server.owner = s.server.owner

omit [DecidableEq L] in
theorem Stands.mayRemove_iff {c : Nat} (h : Stands s t (s.server.owner c)) :
    t.MayRemove c ↔ s.MayRemove c := by
  unfold MayRemove
  rw [h.owner, h.phase, h.activeChannels, h.currentActiveChannel]

theorem phase_setLoop {u : TCPServer L} {loop : ServerLoop} {m : L} (hm : m ≠ l) :
    ((u.setLoop l loop).loops m).core.phase = (u.loops m).core.phase := by
  simp [TCPServer.setLoop, hm]

/-- The server's part, where the loop `m` makes no step of its own. -/
theorem stands_server {b : TCPServer.Label L} {u : TCPServer L} {m : L}
    (hs : TCPServer.Step cfg s.server b u) (hm : s.May cfg b) (hd : s.dtor ≠ none)
    (hfree : ∀ l, s.Free cfg l → l ≠ m) :
    Stands s { s with server := u, currentActiveChannel := s.current cfg b } m := by
  cases hs with
  | poll | exec => cases hm
  | newConnection => exact absurd hm hd
  | @handleEvent l c revents active htodo hph hact =>
    have hne := (hfree l hm).symm
    exact ⟨phase_setLoop hne, rfl, Function.update_of_ne hne .., rfl⟩
  | @move l mv core htodo hact hne' hmv =>
    have hne := (hfree l hm).symm
    refine ⟨phase_setLoop hne, rfl, ?_, rfl⟩
    cases mv with
    | handleRead | beginPending => exact Function.update_of_ne hne ..
    | poll | swap | run | endPending => rfl
  | @run l i core htodo hmv =>
    have hne := (hfree l hm).symm
    exact ⟨phase_setLoop hne, rfl, rfl, rfl⟩
  | app | timer => exact ⟨rfl, rfl, rfl, rfl⟩
  | post => exact ⟨TCPServer.phase_push _ _, rfl, rfl, rfl⟩

/-- As long as the destructor is on its thread the acceptor's loop stands still. -/
theorem stands_step (hs : Step cfg s a t) (hb : s.Busy) (hd : s.dtor ≠ none) :
    Stands s t cfg.loop := by
  have hfree : ∀ l, s.Free cfg l → l ≠ cfg.loop := fun l hf => hf.ne_loop hb
  cases hs with
  | server hs hm => exact stands_server hs hm hd hfree
  | @poll l active u hs hf ht =>
    have hne := (hfree l hf).symm
    cases hs with
    | poll hm =>
      exact ⟨phase_setLoop hne, Function.update_of_ne hne .., rfl, rfl⟩
  | exec htodo hf => exact ⟨TCPServer.phase_exec _, rfl, rfl, TCPServer.owner_exec⟩
  | @other l htodo hph hf =>
    exact ⟨rfl, rfl, Function.update_of_ne (hfree l hf).symm .., rfl⟩
  | test | quit | exit | inline => exact ⟨rfl, rfl, rfl, rfl⟩
  | destruct hn => exact absurd hn hd
  | @destroyNext c cs hd hi =>
    unfold destroy
    split_ifs
    · exact ⟨rfl, rfl, rfl, rfl⟩
    · exact ⟨TCPServer.phase_push _ _, rfl, rfl, rfl⟩

/-- What takes a channel out of its poller: the acceptor's thread in the destructor, with no event
of that channel left to handle, or a functor. -/
structure Removing (cfg : ServerConfig L) (s : Teardown L) : Prop where
  late : ∀ m, TCPServer.Late (s.server.loops m)
  held : s.Busy → ∀ c ∈ s.doomed, s.server.owner c = cfg.loop → s.MayRemove c

theorem late_step (hs : Step cfg s a t) (hok : ∀ m, TCPServer.LoopOk (s.server.loops m))
    (hl : ∀ m, TCPServer.Late (s.server.loops m)) (m : L) : TCPServer.Late (t.server.loops m) := by
  cases hs with
  | server hs => exact TCPServer.late_step hs hok hl m
  | poll hs => exact TCPServer.late_step hs hok hl m
  | exec htodo => exact TCPServer.late_exec hl htodo m
  | other | test | destruct | inline | quit | exit => exact hl m
  | destroyNext =>
    unfold destroy
    split_ifs
    · exact hl m
    · exact TCPServer.late_push hl _ _ m

/-- Only the destructor sets its thread to work. -/
theorem busy_step (hs : Step cfg s a t) (hb : t.Busy) :
    s.Busy ∧ t.doomed = s.doomed ∨ ∃ cs, a = .destruct cs := by
  cases hs with
  | destruct => exact .inr ⟨_, rfl⟩
  | @destroyNext c cs hd hi =>
    refine .inl ⟨.inr ⟨c, cs, hd⟩, ?_⟩
    unfold destroy
    split_ifs <;> rfl
  | inline hi => exact .inl ⟨.inl (by simp [hi]), rfl⟩
  | server | poll | exec | other | test | quit | exit => exact .inl ⟨hb, rfl⟩

theorem begun_step (hs : Step cfg s a t) (hd : s.dtor ≠ none) : t.dtor ≠ none := by
  cases hs with
  | destruct => simp
  | destroyNext =>
    unfold destroy
    split_ifs <;> simp
  | server | poll | exec | other | inline | test | quit | exit => exact hd

/-- Whether the assertion holds is settled when the destructor begins, whatever comes until it is
through. -/
theorem mayRemove_iff_of_destruct {u : Teardown L} {h : List (Label L)} {cs : List Nat} {c : Nat}
    (hs : Step cfg s (.destruct cs) t) (ho : s.server.owner c = cfg.loop)
    (he : ((system cfg).resume t).Exec h u) (hb : u.Busy) : u.MayRemove c ↔ s.MayRemove c := by
  have hrun : u.dtor ≠ none ∧ (u.Busy →
      u.server.owner c = cfg.loop ∧ (u.MayRemove c ↔ s.MayRemove c)) := by
    clear hb
    induction he with
    | start hi =>
      obtain rfl := hi
      cases hs
      exact ⟨by simp, fun _ => ⟨ho, Iff.rfl⟩⟩
    | @snoc _ u v a _ hs' ih =>
      obtain ⟨hd, hsame⟩ := ih
      refine ⟨begun_step hs' hd, fun hb => ?_⟩
      rcases busy_step hs' hb with ⟨hub, -⟩ | ⟨ds, rfl⟩
      · obtain ⟨hbase, hiff⟩ := hsame hub
        have hstands := stands_step hs' hub hd
        exact ⟨hstands.owner ▸ hbase, (hbase ▸ hstands).mayRemove_iff.trans hiff⟩
      · cases hs' with
        | destruct hn => exact absurd hn hd
  exact (hrun.2 hb).2

theorem Removing.step (hr : Removing cfg s) (hs : Step cfg s a t) (hcalm : s.Calm cfg a)
    (hok : ∀ m, TCPServer.LoopOk (s.server.loops m)) (hidle : s.dtor = none → s.inline = []) :
    Removing cfg t where
  late := late_step hs hok hr.late
  held hb c hc ho := by
    rcases busy_step hs hb with ⟨hsb, hdoomed⟩ | ⟨cs, rfl⟩
    · have hd : s.dtor ≠ none := by
        intro hd
        rcases hsb with hx | ⟨c, cs, hx⟩
        · exact hx (hidle hd)
        · simp [hd] at hx
      have hstands := stands_step hs hsb hd
      have ho' : s.server.owner c = cfg.loop := hstands.owner ▸ ho
      exact (ho' ▸ hstands).mayRemove_iff.mpr (hr.held hsb c (hdoomed ▸ hc) ho')
    · cases hs with
      | destruct => exact (hcalm c hc).2 ho

omit [DecidableEq L] in
theorem removing_initial (hi : Initial s) : Removing cfg s where
  late m := by
    obtain ⟨n, hn⟩ := hi.server.loops m
    exact TCPServer.late_nil (by simp [hn])
  held _ c hc := by
    rw [hi.doomed] at hc
    cases hc

/-- Where the assertion of `removeChannel` holds. -/
theorem Removing.mayRemove {c : Nat} (hr : Removing cfg s) (hs : Step cfg s a t)
    (ha : a.item = some (.remove c)) (hc : c ∈ s.doomed)
    (hexec : ∀ l, .remove c ∈ (s.server.loops l).todo → l = s.server.owner c)
    (hinline : .remove c ∈ s.inline → s.server.owner c = cfg.loop) : s.MayRemove c := by
  cases hs with
  | @exec l _ rest _ _ htodo =>
    obtain rfl := Option.some.inj ha
    have hmem : .remove c ∈ (s.server.loops l).todo := by simp [htodo]
    intro hph
    rw [← hexec l hmem, hr.late l c (.inr hmem)] at hph
    cases hph
  | inline hin =>
    obtain rfl := Option.some.inj ha
    exact hr.held (.inl (by simp [hin])) c hc (hinline (by simp [hin]))
  | server | poll | other | test | destruct | destroyNext | quit | exit => cases ha

end Teardown

end Lute
