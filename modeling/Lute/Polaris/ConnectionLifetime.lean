import Lute.Polaris.ServerWakeup

/-! Who keeps a connection alive: it is destroyed once nobody refers to it any more, and what may
still touch it then is what the application has queued on its bare address. -/
namespace Lute

open TCPConnection (Effect)

/-- The functor holds the address of the connection, not a shared pointer to it. -/
def Item.isBare : Item → Bool
  | .sendInLoop _ _ | .shutdownInLoop _ => true
  | _ => false

/-- `held` says whether the application keeps a pointer to a connection, outside its callbacks. -/
structure OwnedServer (L : Type) where
  server : TCPServer L
  held : Nat → Bool
  destroyed : Nat → Bool

namespace OwnedServer

variable {L : Type}

/-- A timer of `forceCloseWithDelay` has a weak pointer: `expire` is one that finds it expired. -/
inductive Label (L : Type)
  | serve (a : TCPServer.Label L)
  | hold (c : Nat)
  | release (c : Nat)
  | expire (c : Nat)
  | destroy (c : Nat)

/-- The connection a label's member function is called on through a pointer from outside. -/
def caller : TCPServer.Label L → Option Nat
  | .app c _ | .timer c => some c
  | _ => none

def Label.served : Label L → Option (TCPServer.Label L)
  | .serve a => some a
  | .expire c => some (.timer c)
  | _ => none

variable [DecidableEq L]

/-- The last shared pointer to the connection has gone: the server's map has none, nor has anything
that a loop is to do but functors on the bare address, nor a call that is about to queue one. -/
structure Unreferenced (cfg : ServerConfig L) (s : OwnedServer L) (c : Nat) : Prop where
  accepted : 1 ≤ c ∧ c < s.server.nextConnId
  entry : s.server.connections (TCPServer.connName cfg c) ≠ some c
  held : s.held c = false
  posting : ∀ i ∈ s.server.posting, i.conn ≠ c
  items : ∀ l, ∀ i ∈ s.server.items l c, i.isBare = true

inductive Step (cfg : ServerConfig L) : OwnedServer L → Label L → OwnedServer L → Prop
  | serve {s : OwnedServer L} {t : TCPServer L} {a : TCPServer.Label L}
      (hs : TCPServer.Step cfg s.server a t)
      (hlive : ∀ c, caller a = some c → s.destroyed c = false) :
      Step cfg s (.serve a) { s with server := t }
  | hold {s : OwnedServer L} {c : Nat} (hk : s.server.known c = true) (hd : s.destroyed c = false) :
      Step cfg s (.hold c) { s with held := Function.update s.held c true }
  | release {s : OwnedServer L} {c : Nat} :
      Step cfg s (.release c) { s with held := Function.update s.held c false }
  | expire {s : OwnedServer L} {c : Nat} (hd : s.destroyed c = true) (hm : c ∈ s.server.delayed) :
      Step cfg s (.expire c)
        { s with server := { s.server with delayed := s.server.delayed.erase c } }
  | destroy {s : OwnedServer L} {c : Nat} (hu : s.Unreferenced cfg c) (hd : s.destroyed c = false) :
      Step cfg s (.destroy c) { s with destroyed := Function.update s.destroyed c true }

structure Initial (s : OwnedServer L) : Prop where
  server : TCPServer.Initial s.server
  held : ∀ c, s.held c = false
  destroyed : ∀ c, s.destroyed c = false

def system (cfg : ServerConfig L) : Trace.LTS (OwnedServer L) (Label L) where
  init := Initial
  step := Step cfg

end OwnedServer

/-- Nothing is queued on the bare address. -/
def TCPConnection.Effect.keepsAlive : Effect → Bool
  | .queueInLoop (.sendInLoop _) | .queueInLoop .shutdownInLoop => false
  | _ => true

namespace TCPConnection

variable {c : TCPConnection} {r : ReadResult} {w : WriteResult} {e : Effect}

theorem keepsAlive_enqueue (message : Bytes) (n : Nat) :
    ∀ e ∈ (c.enqueue message n).2, e.keepsAlive = true := by
  unfold enqueue
  dsimp only
  split_ifs <;> simp [Effect.keepsAlive]

theorem keepsAlive_sendInLoop (message : Bytes) :
    ∀ e ∈ (c.sendInLoop message w).2, e.keepsAlive = true := by
  intro e he
  rcases c.sendInLoop_enqueue message w with ⟨es, heq, hes⟩ | ⟨-, n, es, heq, hes⟩
  · rw [heq] at he
    rw [hes e he]
    rfl
  · rw [heq] at he
    rcases List.mem_append.mp he with he | he
    · rcases hes e he with rfl | rfl <;> rfl
    · exact keepsAlive_enqueue message n e he

theorem keepsAlive_shutdownInLoop : ∀ e ∈ c.shutdownInLoop, e.keepsAlive = true := by
  unfold shutdownInLoop
  split_ifs <;> simp [Effect.keepsAlive]

theorem keepsAlive_drain (c : TCPConnection) : ∀ e ∈ (c.drain w).2.1, e.keepsAlive = true := by
  unfold drain
  cases w <;> dsimp only <;> split_ifs <;> simp [Effect.keepsAlive]

theorem keepsAlive_afterDrain : ∀ e ∈ c.afterDrain, e.keepsAlive = true := by
  unfold afterDrain
  split_ifs
  · exact keepsAlive_shutdownInLoop
  · simp

theorem keepsAlive_handleWrite : ∀ e ∈ (c.handleWrite w).2, e.keepsAlive = true := by
  intro e he
  have hdrain := c.keepsAlive_drain (w := w) e
  rcases hd : c.drain w with ⟨c', es, drained⟩
  simp only [handleWrite, hd, List.mem_append] at he hdrain
  rcases he with he | he
  · exact hdrain he
  · split_ifs at he
    · exact keepsAlive_afterDrain e he
    · cases he

theorem keepsAlive_handleClose : ∀ e ∈ c.handleClose.2, e.keepsAlive = true := by
  simp [handleClose, Effect.keepsAlive]

/-- What a member function queues in its own loop holds a shared pointer. -/
theorem keepsAlive_perform {i : Item} (he : e ∈ (c.perform r w i).2) : e.keepsAlive = true := by
  cases i with
  | connectEstablished =>
    obtain rfl := List.mem_singleton.mp he
    rfl
  | connectDestroyed =>
    simp only [perform, connectDestroyed] at he
    split_ifs at he
    · rcases List.mem_pair.mp he with rfl | rfl <;> rfl
    · obtain rfl := List.mem_singleton.mp he
      rfl
  | forceCloseInLoop =>
    simp only [perform, forceCloseInLoop] at he
    split_ifs at he
    · exact keepsAlive_handleClose e he
    · cases he
  | sendInLoop _ message => exact keepsAlive_sendInLoop message e he
  | shutdownInLoop => exact keepsAlive_shutdownInLoop e he
  | handler _ k =>
    cases k with
    | close => exact keepsAlive_handleClose e he
    | error => cases he
    | write => exact keepsAlive_handleWrite e he
    | read =>
      cases r with
      | data =>
        obtain rfl := List.mem_singleton.mp he
        rfl
      | eof => exact keepsAlive_handleClose e he
      | failed => cases he
  | callback | connectionCallback | messageCallback | closeCallback | removeConnectionInLoop
  | remove => cases he

/-- A functor on the bare address does nothing any more to a connection that is down. -/
theorem perform_bare {i : Item} (hb : i.isBare = true) (hs : c.state = .kDisconnected) :
    (c.perform r w i).1 = c ∧ ∀ e ∈ (c.perform r w i).2, e = .shutdownWrite := by
  cases i with
  | sendInLoop d message =>
    have hp : c.perform r w (.sendInLoop d message) = (c, []) := if_pos hs
    rw [hp]
    exact ⟨rfl, fun e he => by cases he⟩
  | shutdownInLoop =>
    refine ⟨rfl, fun e he => ?_⟩
    simp only [perform, shutdownInLoop] at he
    split_ifs at he
    · exact List.mem_singleton.mp he
    · cases he
  | _ => cases hb

end TCPConnection

namespace TCPServer

variable {L : Type} {cfg : ServerConfig L} {s t : TCPServer L} {l m : L} {c : Nat} {i j : Item}
  {rest : List Item} {r : ReadResult} {w : WriteResult} {h : List (Label L)}

theorem isToken_of_isBare (hb : i.isBare = true) : i.isToken = false := by
  cases i <;> first | rfl | cases hb

theorem isBare_next {e : Effect} (hi : Item.next c e = some i) : i.isBare = false := by
  cases e <;> simp_all [Item.next] <;> subst hi <;> rfl

theorem isBare_goesOn (hj : j ∈ s.goesOn r w i) : j.isBare = false :=
  isBare_next (List.mem_filterMap.mp hj).choose_spec.2

theorem isBare_handsOver (hj : j ∈ s.handsOver r w i) : j.isBare = false := by
  obtain ⟨e, he, hje⟩ := List.mem_filterMap.mp hj
  have hk := TCPConnection.keepsAlive_perform he
  cases e with
  | queueInLoop f =>
    obtain rfl := Option.some.inj hje
    cases f <;> first | rfl | cases hk
  | _ => cases hje

variable [DecidableEq L]

/-- The loop moves functors along, or takes the first one in hand. -/
theorem items_relay {core : EventLoop Item} {todo : List Item}
    (hw : todo ++ core.waiting = (s.loops l).todo ++ (s.loops l).core.waiting) :
    (s.setLoop l { s.loops l with core, todo }).items m c = s.items m c := by
  rw [items_setLoop]
  split_ifs with hm
  · rw [hm, items, ← hw]
  · rfl

theorem bare_exec (ht : (s.loops l).todo = i :: rest)
    (hj : j ∈ (s.exec cfg l i rest r w).items m c) (hb : j.isBare = true) : j ∈ s.items m c := by
  by_cases hc : i.conn = c
  · subst hc
    obtain ⟨fs, bs, he, htok⟩ := items_serve cfg (s.perform l i rest r w) l m i.conn i
    have hnone := isToken_of_isBare hb
    have hnot : ¬(j ∈ fs ∨ j ∈ bs) := by
      intro hmem
      simp [htok j (List.mem_append.mpr hmem)] at hnone
    rw [exec, he, items_perform_self] at hj
    simp only [List.mem_append] at hj
    rcases hj with (hj | hj | hj) | hj
    · exact absurd (.inl hj) hnot
    · split_ifs at hj with hm
      · rw [hm, items_of_todo ht]
        refine List.mem_cons_of_mem _ ((List.mem_append.mp hj).resolve_left fun hg => ?_)
        simp [isBare_goesOn hg] at hb
      · exact hj
    · split_ifs at hj
      · simp [isBare_handsOver hj] at hb
      · cases hj
    · exact absurd (.inr hj) hnot
  · rwa [exec, items_serve_of_ne hc, items_perform_of_ne ht hc] at hj

/-- What a step adds to what is to be done for a connection. -/
theorem items_step {a : Label L} (hok : ∀ m, LoopOk (s.loops m)) (hs : Step cfg s a t)
    (hj : j ∈ t.items m c) : j ∈ s.items m c ∨ a = .post j ∨ j.isBare = false ∧
      ((∃ io, a = .newConnection c io) ∨ (∃ l revents, a = .handleEvent l c revents) ∨
        ∃ l i state, a = .exec l i state ∧ i.conn = c) := by
  cases hs with
  | @poll l core active hm =>
    obtain ⟨hph, rfl⟩ := by simpa [EventLoop.move] using hm
    rw [items_setLoop] at hj
    split_ifs at hj with hm
    · exact .inl (hm ▸ hj)
    · exact .inl hj
  | @handleEvent l d revents active htodo =>
    rw [items_handleEvent htodo] at hj
    rcases List.mem_append.mp hj with hj | hj
    · split_ifs at hj with hd
      · obtain ⟨k, -, rfl⟩ := List.mem_map.mp hj
        exact .inr (.inr ⟨rfl, .inr (.inl ⟨l, revents, by rw [hd.2]⟩)⟩)
      · cases hj
    · exact .inl hj
  | @move l mv core htodo _ hne hm =>
    rw [items_relay] at hj
    · exact .inl hj
    · rcases EventLoop.move_waiting hm (hok l).settled with ⟨i, rfl, -⟩ | ⟨-, hw⟩
      · exact absurd rfl (hne.2 i)
      · rw [hw]
  | @run l i core htodo hm =>
    rw [items_relay] at hj
    · exact .inl hj
    · rw [htodo, EventLoop.waiting_run hm (hok l).settled]
      rfl
  | @newConnection io b =>
    rw [items_newConnection] at hj
    split_ifs at hj with hd
    · rcases List.mem_cons.mp hj with rfl | hj
      · exact .inr (.inr ⟨rfl, .inl ⟨io, by rw [hd.2]⟩⟩)
      · exact .inl hj
    · rcases List.mem_append.mp hj with hj | hj
      · exact .inl hj
      · obtain rfl := List.mem_singleton.mp hj
        exact .inr (.inr ⟨rfl, .inl ⟨io, by rw [hd.2]⟩⟩)
    · exact .inl hj
  | @exec l i rest r w htodo =>
    by_cases hc : i.conn = c
    · cases hb : j.isBare with
      | true => exact .inl (bare_exec htodo hj hb)
      | false => exact .inr (.inr ⟨rfl, .inr (.inr ⟨l, i, _, rfl, hc⟩)⟩)
    · rw [exec, items_serve_of_ne hc, items_perform_of_ne htodo hc] at hj
      exact .inl hj
  | app => exact .inl hj
  | @post i b hi =>
    have hp : j ∈ (s.push b (s.owner i.conn) [i]).items m c := hj
    rw [items_push] at hp
    rcases List.mem_append.mp hp with hp | hp
    · exact .inl hp
    · split_ifs at hp
      · obtain rfl := List.mem_singleton.mp (List.mem_filter.mp hp).1
        exact .inr (.inl rfl)
      · cases hp
  | timer => exact .inl hj

/-- Nothing is left of the connection `c` but functors on its bare address. -/
structure Dead (cfg : ServerConfig L) (s : TCPServer L) (c : Nat) : Prop where
  gone : At cfg s c .gone
  posting : ∀ i ∈ s.posting, i.conn ≠ c
  items : ∀ l, ∀ i ∈ s.items l c, i.isBare = true

theorem Dead.state (hd : Dead cfg s c) : (s.conns c).state = .kDisconnected := hd.gone.state

theorem Dead.unheard (hd : Dead cfg s c) : ∀ p ∈ (s.loops l).active, p.1 ≠ c := by
  intro p hp hpc
  have hr := hd.gone.readers l
  rw [if_neg (by simp), readers, Nat.le_zero, Nat.add_eq_zero_iff, List.countP_eq_zero,
    List.countP_eq_zero] at hr
  exact hr.2 p hp (by simpa using hpc)

theorem Dead.exec (hd : Dead cfg s i.conn) (ht : (s.loops l).todo = i :: rest)
    (hj : j ∈ (s.exec cfg l i rest r w).items m i.conn) : j ∈ s.items m i.conn := by
  have hb : i.isBare = true := hd.items l i (by simp [items_of_todo ht])
  have htok := isToken_of_isBare hb
  have heff := ((s.conns i.conn).perform_bare (r := r) (w := w) hb hd.state).2
  have hgoes : s.goesOn r w i = [] := by
    refine List.filterMap_eq_nil_iff.mpr fun e he => ?_
    rw [heff e he]
    rfl
  have hhands : s.handsOver r w i = [] := by
    refine List.filterMap_eq_nil_iff.mpr fun e he => ?_
    rw [heff e he]
    rfl
  rw [TCPServer.exec, serve_of_isToken_eq_false htok, items_perform_self, hgoes, hhands, ite_self,
    List.append_nil, List.nil_append] at hj
  split_ifs at hj with hm
  · rw [hm, items_of_todo ht]
    exact List.mem_cons_of_mem i hj
  · exact hj

theorem Dead.items_step {a : Label L} (hd : Dead cfg s c) (hok : ∀ m, LoopOk (s.loops m))
    (hs : Step cfg s a t) (hj : j ∈ t.items m c) : j ∈ s.items m c := by
  rcases TCPServer.items_step hok hs hj with hj | rfl | ⟨-, ⟨io, rfl⟩ | ⟨l, revents, rfl⟩ |
    ⟨l, i, state, rfl, rfl⟩⟩
  · exact hj
  · cases hs with
    | post hp => exact absurd (of_decide_eq_true (List.mem_filter.mp hj).2) (hd.posting j hp)
  · cases hs with
    | newConnection =>
      have hlt : 1 ≤ s.nextConnId ∧ s.nextConnId < s.nextConnId := by
        by_contra hfresh
        exact absurd (hd.gone.fresh.mpr hfresh) (by decide)
      exact absurd hlt.2 (Nat.lt_irrefl _)
  · cases hs with
    | handleEvent _ _ hact =>
      have hmem : (c, revents) ∈ (s.loops l).active := hact ▸ List.mem_cons_self
      exact absurd rfl (hd.unheard (c, revents) hmem)
  · cases hs with
    | exec htodo => exact hd.exec htodo hj

theorem Dead.posting_step {a : Label L} (hd : Dead cfg s c) (hs : Step cfg s a t)
    (hc : OwnedServer.caller a ≠ some c) : ∀ i ∈ t.posting, i.conn ≠ c := by
  have hcall : ∀ d x, d ≠ c → ∀ i ∈ (s.call d x).posting, i.conn ≠ c := by
    intro d x hne i hi
    rcases List.mem_append.mp hi with hi | hi
    · exact hd.posting i hi
    · rwa [Item.conn_queued (List.mem_filterMap.mp hi).choose_spec.2]
  cases hs with
  | newConnection =>
    obtain ⟨-, -, -, -, h, -⟩ := newConnection_frame cfg s _ _
    rw [h]
    exact hd.posting
  | exec =>
    rw [posting_exec]
    exact hd.posting
  | app => exact hcall _ _ fun he => hc (congrArg some he)
  | post => exact fun i hi => hd.posting i (List.erase_subset hi)
  | timer => exact hcall _ _ fun he => hc (congrArg some he)
  | poll | handleEvent | move | run => exact hd.posting

theorem eq_gone_of_past {st : Stage} {es : List LifeEvent} (hp : st.past = Stage.gone.past ++ es) :
    st = .gone := by
  have hlen := congrArg List.length hp
  cases st <;> simp [Stage.past, Stage.age, wholeLife] at hlen ⊢

theorem Dead.step {a : Label L} (hd : Dead cfg s c) (hl : LifeInv cfg h s) (hs : Step cfg s a t)
    (hc : OwnedServer.caller a ≠ some c) : Dead cfg t c where
  gone := by
    obtain ⟨st, hat, hpast⟩ := hd.gone.step hs hl.pos hl.loops hl.posting
    obtain rfl := eq_gone_of_past hpast
    exact hat
  posting := hd.posting_step hs hc
  items l i hi := hd.items l i (hd.items_step hl.loops hs hi)

omit [DecidableEq L] in
/-- A timer does nothing to a connection that is down. -/
theorem call_down (hst : (s.conns c).state = .kDisconnected) (b : Bool) :
    s.call c (.forceClose b) = s := by
  have hp : (s.conns c).app (.forceClose b) = (s.conns c, []) := if_neg (by simp [hst])
  simp [call, hp, setConn]

end TCPServer

namespace OwnedServer

open TCPServer (Dead LifeInv)

variable {L : Type} [DecidableEq L] {cfg : ServerConfig L} {s t : OwnedServer L} {c : Nat}
  {h : List (Label L)}

/-- What nobody refers to has gone all the way: a connection that is listed has its entry, and one
that is on its way out has the functor for its next step. -/
theorem dead_of_unreferenced {h : List (TCPServer.Label L)} (hl : LifeInv cfg h s.server)
    (hu : s.Unreferenced cfg c) : Dead cfg s.server c ∧ TCPServer.events c h = wholeLife := by
  obtain ⟨st, hat, hev⟩ := hl.stage c
  have htok : st.tokens c = [] := by
    by_contra hne
    obtain ⟨m, i, hi, htok⟩ := hat.exists_token hne
    simp [TCPServer.isToken_of_isBare (hu.items m i hi)] at htok
  have hlisted : st.listed = false := by
    cases hlisted : st.listed with
    | false => rfl
    | true => exact absurd (by rw [hat.entry, hlisted]; rfl) hu.entry
  have hne : st ≠ .absent := fun he => hat.fresh.mp he hu.accepted
  obtain rfl : st = .gone := by cases st <;> simp [Stage.tokens, Stage.listed] at htok hlisted hne ⊢
  exact ⟨⟨hat, hu.posting, hu.items⟩, hev⟩

structure Inv (cfg : ServerConfig L) (h : List (Label L)) (s : OwnedServer L) : Prop where
  run : (TCPServer.system cfg).Exec (h.filterMap Label.served) s.server
  dead : ∀ c, s.destroyed c = true → Dead cfg s.server c
  unheld : ∀ c, s.destroyed c = true → s.held c = false

theorem inv_step {a : Label L} (hi : Inv cfg h s) (hs : Step cfg s a t) :
    Inv cfg (h ++ [a]) t := by
  have hl := TCPServer.lifeInv_exec hi.run
  have hquiet : ∀ {a : Label L}, a.served = none →
      (h ++ [a]).filterMap Label.served = h.filterMap Label.served := by
    intro a ha
    simp [ha]
  cases hs with
  | @serve u a hs hlive =>
    refine ⟨?_, fun c hd => (hi.dead c hd).step hl hs fun hc => ?_, hi.unheld⟩
    · rw [List.filterMap_append]
      exact hi.run.snoc hs
    · simp [hlive c hc] at hd
  | @hold c hk hd =>
    refine ⟨by rw [hquiet rfl]; exact hi.run, hi.dead, fun d hdd => ?_⟩
    have hne : d ≠ c := by
      rintro rfl
      simp [hd] at hdd
    exact (Function.update_of_ne hne _ _).trans (hi.unheld d hdd)
  | @release c =>
    refine ⟨by rw [hquiet rfl]; exact hi.run, hi.dead, fun d hdd => ?_⟩
    by_cases hne : d = c
    · exact hne ▸ Function.update_self _ _ _
    · exact (Function.update_of_ne hne _ _).trans (hi.unheld d hdd)
  | @expire c hd hm =>
    have hstep : TCPServer.Step cfg s.server (.timer c) _ := .timer hm
    rw [TCPServer.call_down (hi.dead c hd).state] at hstep
    refine ⟨?_, fun d hdd => ?_, hi.unheld⟩
    · rw [List.filterMap_append]
      exact hi.run.snoc hstep
    · obtain ⟨hgone, hposting, hitems⟩ := hi.dead d hdd
      exact ⟨hgone.drop (List.Subset.refl _) List.erase_subset, hposting, hitems⟩
  | @destroy c hu hd =>
    refine ⟨by rw [hquiet rfl]; exact hi.run, fun d hdd => ?_, fun d hdd => ?_⟩
    · by_cases hne : d = c
      · exact hne ▸ (dead_of_unreferenced hl hu).1
      · exact hi.dead d ((Function.update_of_ne hne _ _).symm.trans hdd)
    · by_cases hne : d = c
      · exact hne ▸ hu.held
      · exact hi.unheld d ((Function.update_of_ne hne _ _).symm.trans hdd)

theorem inv_exec (he : (system cfg).Exec h s) : Inv cfg h s := by
  induction he with
  | start hi =>
    refine ⟨.start hi.server, fun c hd => ?_, fun c _ => hi.held c⟩
    simp [hi.destroyed c] at hd
  | snoc _ hs ih => exact inv_step ih hs

end OwnedServer

end Lute
