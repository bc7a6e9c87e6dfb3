import Lute.Polaris.Teardown

/-! What the steps of a server leave as it is, as the destructor needs it. -/
namespace Lute

open TCPConnection (Effect Steady)
open Teardown (Ends Closes)

namespace TCPConnection

variable {c : TCPConnection} {i : Item} {r : ReadResult} {w : WriteResult}

/-- What does not end a connection leaves it in its state. -/
theorem perform_calm (hi : i.isToken = false) (hc : ¬ Closes c.state r i) :
    Steady c (c.perform r w i) ∧ (c.perform r w i).1.state = c.state := by
  cases i with
  | forceCloseInLoop d =>
    have hp : c.perform r w (.forceCloseInLoop d) = (c, []) := if_neg hc
    rw [hp]
    exact ⟨steady_self (by simp), rfl⟩
  | sendInLoop _ message => exact ⟨c.steady_sendInLoop message w, c.state_sendInLoop message w⟩
  | shutdownInLoop => exact ⟨steady_self c.isMilestone_shutdownInLoop, rfl⟩
  | callback | messageCallback => exact ⟨steady_self (by simp), rfl⟩
  | handler _ h =>
    cases h with
    | close => exact absurd trivial hc
    | error => exact ⟨steady_self (by simp), rfl⟩
    | write => exact ⟨c.steady_handleWrite w, c.state_handleWrite w⟩
    | read =>
      cases r with
      | data chunk =>
        refine ⟨⟨.inl rfl, rfl, fun _ h => h, ?_⟩, rfl⟩
        simp [perform, handleRead, Effect.isMilestone]
      | eof => exact absurd rfl hc
      | failed => exact ⟨steady_self (by simp), rfl⟩
  | connectEstablished | connectDestroyed | removeConnectionInLoop | connectionCallback
  | closeCallback | remove => cases hi

theorem app_calm {x : AppCall} (hx : ¬ Ends c.state x) :
    Steady c (c.app x) ∧ (c.app x).1.state = c.state := by
  refine ⟨c.steady_app x, ?_⟩
  cases x with
  | send isInLoopThread message w => exact c.state_send isInLoopThread message w
  | shutdown b =>
    have hp : c.app (.shutdown b) = (c, []) := if_neg hx
    rw [hp]
  | forceClose b =>
    have hp : c.app (.forceClose b) = (c, []) := if_neg hx
    rw [hp]
  | forceCloseWithDelay b =>
    have hp : c.app (.forceCloseWithDelay b) = (c, []) := if_neg hx
    rw [hp]

end TCPConnection

namespace TCPServer

variable {L : Type} {cfg : ServerConfig L} {s t : TCPServer L} {a : Label L} {l m : L} {c : Nat}
  {i x : Item} {rest is : List Item} {r : ReadResult} {w : WriteResult} {st st' : Stage}

/-- The steps that run no item and accept no connection. -/
def Label.isQuiet : Label L → Bool
  | .exec _ _ _ | .newConnection _ _ => false
  | _ => true

variable [DecidableEq L]

theorem owner_step (hs : Step cfg s a t) (ha : a.isQuiet = true) : t.owner = s.owner := by
  cases hs with
  | exec | newConnection => cases ha
  | _ => rfl

theorem nextConnId_quiet (hs : Step cfg s a t) (ha : a.isQuiet = true) :
    t.nextConnId = s.nextConnId := by
  cases hs with
  | exec | newConnection => cases ha
  | _ => rfl

theorem tokens_push (b : Bool) :
    (s.push b l is).tokens m c =
      s.tokens m c ++ if m = l then (is.filter (·.conn = c)).filter Item.isToken else [] := by
  rw [tokens, items_push, List.filter_append, tokens]
  split_ifs <;> rfl

theorem tokens_step (hs : Step cfg s a t) (ha : a.isQuiet = true) (hok : ∀ m, LoopOk (s.loops m))
    (hp : ∀ i ∈ s.posting, i.Plain) (m : L) (c : Nat) : t.tokens m c = s.tokens m c := by
  have hsame : t.items m c = s.items m c → t.tokens m c = s.tokens m c := by
    intro he
    rw [tokens, he, tokens]
  cases hs with
  | @poll l core active hm hnd hact =>
    apply hsame
    obtain ⟨-, rfl⟩ := by simpa [EventLoop.move] using hm
    rw [items_setLoop]
    split_ifs with hml
    · rw [hml]
      rfl
    · rfl
  | handleEvent htodo => exact tokens_handleEvent htodo m
  | @move l mv core htodo hact hne hm =>
    apply hsame
    rw [items_setLoop]
    split_ifs with hml
    · rcases EventLoop.move_waiting hm (hok l).settled with ⟨i, rfl, -⟩ | ⟨-, hw⟩
      · exact absurd rfl (hne.2 i)
      · rw [hml, items, hw]
    · rfl
  | @run l i core htodo hm =>
    apply hsame
    rw [items_setLoop]
    split_ifs with hml
    · rw [hml, items, htodo, EventLoop.waiting_run hm (hok l).settled]
      rfl
    · rfl
  | app | timer => rfl
  | @post i b hi =>
    change TCPServer.tokens (s.push b (s.owner i.conn) [i]) m c = _
    have hn : ([i].filter (·.conn = c)).filter Item.isToken = [] := by
      refine List.filter_eq_nil_iff.mpr fun j hj => ?_
      obtain rfl := List.mem_singleton.mp (List.mem_filter.mp hj).1
      simp [(hp j hi).2]
    rw [tokens_push, hn, ite_self, List.append_nil]
  | exec | newConnection => cases ha

/-- The step makes the call `x` on the connection `c`. -/
def Label.Calls (c : Nat) (x : AppCall) : Label L → Prop
  | .app d y => d = c ∧ y = x
  | .timer d => d = c ∧ .forceClose true = x
  | _ => False

/-- Only a call changes a connection in such a step. -/
theorem conns_step (hs : Step cfg s a t) (ha : a.isQuiet = true) (c : Nat) :
    t.conns c = s.conns c ∨ ∃ x, a.Calls c x ∧ t.conns c = ((s.conns c).app x).1 := by
  have hcall : ∀ d x, (s.call d x).conns c = s.conns c ∨
      d = c ∧ (s.call d x).conns c = ((s.conns c).app x).1 := by
    intro d x
    by_cases hd : c = d
    · subst hd
      exact .inr ⟨rfl, by simp [call, setConn]⟩
    · exact .inl (by simp [call, setConn, hd])
  cases hs with
  | @app d x hk => exact (hcall d x).imp_right fun hc => ⟨x, ⟨hc.1, rfl⟩, hc.2⟩
  | @timer d hd => exact (hcall d _).imp_right fun hc => ⟨_, ⟨hc.1, rfl⟩, hc.2⟩
  | exec | newConnection => cases ha
  | poll | handleEvent | move | run | post => exact .inl rfl

theorem mem_pending_setLoop {loop : ServerLoop}
    (hx : x ∈ ((s.setLoop l loop).loops m).core.pendingFunctors) :
    x ∈ (s.loops m).core.pendingFunctors ∨ m = l ∧ x ∈ loop.core.pendingFunctors := by
  by_cases hm : m = l
  · subst hm
    simp only [setLoop, Function.update_self] at hx
    exact .inr ⟨rfl, hx⟩
  · simp only [setLoop, Function.update_of_ne hm] at hx
    exact .inl hx

theorem mem_pending_push {b : Bool}
    (hx : x ∈ ((s.push b l is).loops m).core.pendingFunctors) :
    x ∈ (s.loops m).core.pendingFunctors ∨ m = l ∧ x ∈ is := by
  rcases mem_pending_setLoop hx with hx | ⟨rfl, hx⟩
  · exact .inl hx
  · rw [EventLoop.pendingFunctors_foldl_queueInLoop] at hx
    exact (List.mem_append.mp hx).imp_right fun h => ⟨rfl, h⟩

/-- A `connectDestroyed` still queued was queued before the step, and its loop is not past its
`swap` unless it was. -/
theorem queued_step (hs : Step cfg s a t) (ha : a.isQuiet = true)
    (hp : ∀ i ∈ s.posting, i.Plain)
    (hc : .connectDestroyed c ∈ (t.loops m).core.pendingFunctors) :
    .connectDestroyed c ∈ (s.loops m).core.pendingFunctors ∧
      ((t.loops m).core.phase = (s.loops m).core.phase ∨ (s.loops m).core.phase = .running ∨
        (t.loops m).core.phase = .dispatch ∨ (t.loops m).core.phase = .calling) := by
  have hmove : ∀ (u : TCPServer L) (l : L) (loop : ServerLoop) (mv : EventLoop.Move Item)
      (hm : (u.loops l).core.move mv = some loop.core)
      (hx : .connectDestroyed c ∈ ((u.setLoop l loop).loops m).core.pendingFunctors),
      .connectDestroyed c ∈ (u.loops m).core.pendingFunctors ∧
        (((u.setLoop l loop).loops m).core.phase = (u.loops m).core.phase ∨
          (u.loops m).core.phase = .running ∨
          ((u.setLoop l loop).loops m).core.phase = .dispatch ∨
          ((u.setLoop l loop).loops m).core.phase = .calling) := by
    intro u l loop mv hm hx
    by_cases hml : m = l
    · subst hml
      simp only [setLoop, Function.update_self] at hx ⊢
      exact (EventLoop.queued_move hm hx).imp_right .inr
    · simp only [setLoop, Function.update_of_ne hml] at hx ⊢
      exact ⟨hx, .inl trivial⟩
  cases hs with
  | poll hm => exact hmove s _ _ .poll hm hc
  | @handleEvent l d revents active htodo hph hact =>
    by_cases hml : m = l
    · subst hml
      simp only [setLoop, Function.update_self] at hc ⊢
      exact ⟨hc, .inl trivial⟩
    · simp only [setLoop, Function.update_of_ne hml] at hc ⊢
      exact ⟨hc, .inl trivial⟩
  | move _ _ _ hm => exact hmove s _ _ _ hm hc
  | run _ hm => exact hmove s _ _ _ hm hc
  | app | timer => exact ⟨hc, .inl rfl⟩
  | @post i b hi =>
    refine ⟨(mem_pending_push hc).resolve_right ?_, .inl (phase_push b m)⟩
    rintro ⟨-, hx⟩
    have htok := (hp i hi).2
    rw [← List.mem_singleton.mp hx] at htok
    cases htok
  | exec | newConnection => cases ha

theorem phase_exec (m : L) :
    ((s.exec cfg l i rest r w).loops m).core.phase = (s.loops m).core.phase := by
  have hp : ((s.perform l i rest r w).loops m).core.phase = (s.loops m).core.phase :=
    phase_perform m
  rw [exec]
  cases i with
  | closeCallback d =>
    simp only [serve]
    split_ifs with hl
    · by_cases hm : m = l
      · subst hm
        simpa [setLoop] using hp
      · simpa [setLoop, hm] using hp
    · rw [phase_push, hp]
  | removeConnectionInLoop d => exact (phase_push _ m).trans hp
  | _ => exact hp

theorem queued_exec (hi : ∀ d, i ≠ .removeConnectionInLoop d)
    (hc : .connectDestroyed c ∈ ((s.exec cfg l i rest r w).loops m).core.pendingFunctors) :
    .connectDestroyed c ∈ (s.loops m).core.pendingFunctors := by
  have hp : .connectDestroyed c ∈ ((s.perform l i rest r w).loops m).core.pendingFunctors →
      .connectDestroyed c ∈ (s.loops m).core.pendingFunctors := by
    intro hx
    rcases mem_pending_push hx with hx | ⟨-, hx⟩
    · rcases mem_pending_setLoop hx with hx | ⟨rfl, hx⟩ <;> exact hx
    · have htok := (plain_handsOver hx).2
      cases htok
  apply hp
  rw [exec] at hc
  cases i with
  | closeCallback d =>
    simp only [serve] at hc
    split_ifs at hc with hl
    · rcases mem_pending_setLoop hc with hc | ⟨rfl, hc⟩ <;> exact hc
    · exact (mem_pending_push hc).resolve_right (by simp)
  | removeConnectionInLoop d => exact absurd rfl (hi d)
  | _ => exact hc

theorem mem_waiting_setLoop {loop : ServerLoop}
    (hx : x ∈ ((s.setLoop l loop).loops m).core.waiting) :
    x ∈ (s.loops m).core.waiting ∨ m = l ∧ x ∈ loop.core.waiting := by
  by_cases hm : m = l
  · subst hm
    simp only [setLoop, Function.update_self] at hx
    exact .inr ⟨rfl, hx⟩
  · simp only [setLoop, Function.update_of_ne hm] at hx
    exact .inl hx

theorem mem_waiting_push {b : Bool} (hx : x ∈ ((s.push b l is).loops m).core.waiting) :
    x ∈ (s.loops m).core.waiting ∨ m = l ∧ x ∈ is := by
  rcases mem_waiting_setLoop hx with hx | ⟨rfl, hx⟩
  · exact .inl hx
  · rw [EventLoop.waiting_foldl_queueInLoop] at hx
    exact (List.mem_append.mp hx).imp_right fun h => ⟨rfl, h⟩

theorem mem_waiting_exec (hx : x ∈ ((s.exec cfg l i rest r w).loops m).core.waiting) :
    x ∈ (s.loops m).core.waiting ∨ x.Plain ∨ (∃ d, x = .removeConnectionInLoop d) ∨
      ∃ d, x = .connectDestroyed d := by
  have hp : x ∈ ((s.perform l i rest r w).loops m).core.waiting →
      x ∈ (s.loops m).core.waiting ∨ x.Plain := by
    intro hx
    rcases mem_waiting_push hx with hx | ⟨-, hx⟩
    · rcases mem_waiting_setLoop hx with hx | ⟨rfl, hx⟩ <;> exact .inl hx
    · exact .inr (plain_handsOver hx)
  rw [exec] at hx
  cases i with
  | closeCallback d =>
    simp only [serve] at hx
    split_ifs at hx with hl
    · rcases mem_waiting_setLoop hx with hx | ⟨rfl, hx⟩ <;> exact (hp hx).imp_right .inl
    · rcases mem_waiting_push hx with hx | ⟨-, hx⟩
      · exact (hp hx).imp_right .inl
      · exact .inr (.inr (.inl ⟨_, List.mem_singleton.mp hx⟩))
  | removeConnectionInLoop d =>
    rcases mem_waiting_push hx with hx | ⟨-, hx⟩
    · exact (hp hx).imp_right .inl
    · exact .inr (.inr (.inr ⟨_, List.mem_singleton.mp hx⟩))
  | _ => exact (hp hx).imp_right .inl

/-- What holds of the server throughout; the acceptor's loop establishes its own connections at
once, so that no `connectEstablished` waits there. -/
structure Ok (cfg : ServerConfig L) (s : TCPServer L) : Prop where
  pos : 1 ≤ s.nextConnId
  loops : ∀ m, LoopOk (s.loops m)
  posting : ∀ i ∈ s.posting, i.Plain
  base : ∀ c, .connectEstablished c ∉ (s.loops cfg.loop).core.waiting

theorem ok_step (hs : Step cfg s a t) (ho : Ok cfg s) : Ok cfg t where
  pos := ho.pos.trans (nextConnId_step hs)
  loops := loopOk_step hs ho.loops ho.posting
  posting := posting_step hs ho.posting
  base c hx := by
    have hmove : ∀ {l : L} {mv : EventLoop.Move Item} {core : EventLoop Item} {j : Item},
        (s.loops l).core.move mv = some core → j ∈ core.waiting →
          j ∈ (s.loops l).core.waiting := by
      intro l mv core j hm hj
      rcases EventLoop.move_waiting hm (ho.loops l).settled with ⟨f, -, hw⟩ | ⟨-, hw⟩
      · exact hw ▸ List.mem_cons_of_mem f hj
      · exact hw ▸ hj
    cases hs with
    | poll hm | move _ _ _ hm | run _ hm =>
      rcases mem_waiting_setLoop hx with hx | ⟨rfl, hx⟩
      · exact ho.base c hx
      · exact ho.base c (hmove hm hx)
    | handleEvent =>
      rcases mem_waiting_setLoop hx with hx | ⟨rfl, hx⟩ <;> exact ho.base c hx
    | @newConnection io b htodo hph =>
      simp only [newConnection] at hx
      split_ifs at hx with hio
      · rcases mem_waiting_setLoop hx with hx | ⟨rfl, hx⟩ <;> exact ho.base c hx
      · rcases mem_waiting_push hx with hx | ⟨hm, -⟩
        · exact ho.base c hx
        · exact hio hm.symm
    | exec =>
      rcases mem_waiting_exec hx with hx | hx | ⟨d, hx⟩ | ⟨d, hx⟩
      · exact ho.base c hx
      · exact absurd hx.2 (by simp [Item.isToken])
      · cases hx
      · cases hx
    | app | timer => exact ho.base c hx
    | @post i b hi =>
      rcases mem_waiting_push hx with hx | ⟨-, hx⟩
      · exact ho.base c hx
      · have htok := (ho.posting i hi).2
        rw [← List.mem_singleton.mp hx] at htok
        cases htok

theorem ok_initial (hi : Initial s) : Ok cfg s := by
  have hlife : LifeInv cfg [] s := lifeInv_initial hi
  refine ⟨hlife.pos, hlife.loops, hlife.posting, fun c hc => ?_⟩
  obtain ⟨n, hn⟩ := hi.loops cfg.loop
  simp [hn, EventLoop.enter, EventLoop.waiting] at hc

/-- A connection that is not in the map does not come back to it. -/
theorem unlisted_step (hat : At cfg s c st) (hat' : At cfg t c st')
    (hid : t.nextConnId = s.nextConnId) {es : List LifeEvent} (hpast : st'.past = st.past ++ es)
    (hl : st.listed = false) : st'.listed = false := by
  have hage : st'.age = st.age + es.length := by
    have hlen : ∀ u : Stage, u.past.length = u.age := by
      intro u
      cases u <;> rfl
    rw [← hlen, hpast, List.length_append, hlen]
  by_cases habs : st = .absent
  · obtain rfl : st' = .absent := by
      rw [hat'.fresh, hid]
      exact hat.fresh.mp habs
    rfl
  · have h6 : 6 ≤ st.age := by
      cases st <;> simp_all [Stage.listed, Stage.age]
    have h6' : 6 ≤ st'.age := by omega
    cases st' <;> first | rfl | exact absurd h6' (by decide)

/-- The tokens after an item that the server itself has no part in. -/
theorem tokens_exec_token (hc : ∀ d, i ≠ .closeCallback d) (hr : ∀ d, i ≠ .removeConnectionInLoop d)
    (m : L) : (s.exec cfg l i rest r w).tokens m i.conn =
      if m = l then
        (s.goesOn r w i).filter Item.isToken ++ (s.later l rest i.conn).filter Item.isToken
      else s.tokens m i.conn := by
  rw [← tokens_perform_self, exec]
  cases i with
  | closeCallback d => exact absurd rfl (hc d)
  | removeConnectionInLoop d => exact absurd rfl (hr d)
  | _ => rfl

end TCPServer

end Lute
