import Lute.Polaris.StageSteps

/-! Every connection goes through the stages of its life once, in order, whatever the loops and
the application do. -/
namespace Lute

open TCPConnection (Effect Steady)

/-- The order in which `state_` may move. -/
def StateE.rank : StateE → Nat
  | .kConnecting => 0
  | .kConnected => 1
  | .kDisconnecting => 2
  | .kDisconnected => 3

namespace TCPServer

variable {L : Type} {cfg : ServerConfig L} {s t : TCPServer L} {l : L} {c : Nat}
  {i j : Item} {is rest todo : List Item} {r : ReadResult} {w : WriteResult} {st : Stage}

def lifeEvent (c : Nat) : Label L → Option LifeEvent
  | .newConnection d _ => if d = c then some .accepted else none
  | .exec _ i state => if i.conn = c then i.lifeEvent state else none
  | _ => none

/-- The history of the connection `c`. -/
def events (c : Nat) (h : List (Label L)) : List LifeEvent := h.filterMap (lifeEvent c)

theorem rank_steady {x : TCPConnection} {p : TCPConnection × List Effect} (h : Steady x p) :
    x.state.rank ≤ p.1.state.rank := by
  rcases h.state with he | ⟨he | he, he'⟩ <;> simp [*, StateE.rank]

theorem rank_le_kDisconnected (x : StateE) : x.rank ≤ StateE.kDisconnected.rank := by
  cases x <;> simp [StateE.rank]

theorem rank_call {d : Nat} (x : AppCall) :
    (s.conns c).state.rank ≤ ((s.call d x).conns c).state.rank := by
  by_cases hd : c = d
  · subst hd
    simpa [call, setConn] using rank_steady ((s.conns c).steady_app x)
  · simp [call, setConn, hd]

variable [DecidableEq L]

/-- Every step leaves a connection in its stage or takes it to the next, as the label says. -/
theorem At.step {a : Label L} (hs : Step cfg s a t) (hpos : 1 ≤ s.nextConnId)
    (hok : ∀ m, LoopOk (s.loops m)) (hp : ∀ i ∈ s.posting, i.Plain) (h : At cfg s c st) :
    ∃ st', At cfg t c st' ∧ st'.past = st.past ++ (lifeEvent c a).toList := by
  cases hs with
  | @poll l core active hm hnd hact =>
    obtain ⟨hph, rfl⟩ := by simpa [EventLoop.move] using hm
    exact ⟨st, h.poll (hok l) ((hok l).idle (.inl hph)) rfl hnd
      fun p hp => ⟨(hact p hp).1.1, (hact p hp).2.1⟩, by simp [lifeEvent]⟩
  | @handleEvent l d revents active htodo hph hact =>
    have hsane := (hok l).sane (d, revents) (hact ▸ List.mem_cons_self)
    exact ⟨st, h.handleEvent hsane htodo hact, by simp [lifeEvent]⟩
  | @move l m core htodo hact hne hm =>
    rcases EventLoop.move_waiting hm (hok l).settled with ⟨i, rfl, -⟩ | ⟨-, hw⟩
    · exact absurd rfl (hne.2 i)
    · exact ⟨st, h.relay (by rw [hw]), by simp [lifeEvent]⟩
  | @run l i core htodo hm =>
    refine ⟨st, h.relay ?_, by simp [lifeEvent]⟩
    rw [htodo, EventLoop.waiting_run hm (hok l).settled]
    rfl
  | @newConnection io b htodo hph => exact h.newConnection hpos io b
  | @exec l i rest r w htodo =>
    by_cases hc : i.conn = c
    · subst hc
      simpa [lifeEvent] using h.exec (hok l) htodo
    · exact ⟨st, h.keeps (keeps_exec_of_ne htodo hc), by simp [lifeEvent, hc]⟩
  | @app d x hk => exact ⟨st, h.call (.inl hk) x, by simp [lifeEvent]⟩
  | @post i b hi =>
    refine ⟨st, (h.post hi (hp i hi) b).drop List.erase_subset (List.Subset.refl _), ?_⟩
    simp [lifeEvent]
  | @timer d hd =>
    refine ⟨st, (h.call (.inr (.inl hd)) (.forceClose true)).drop (List.Subset.refl _) ?_,
      by simp [lifeEvent]⟩
    intro x hx
    simp only [TCPServer.call]
    split_ifs
    · exact List.mem_append_left _ (List.mem_of_mem_erase hx)
    · exact List.mem_of_mem_erase hx

/-- `state_` never goes back. -/
theorem rank_exec (h : At cfg s i.conn st) (ht : (s.loops l).todo = i :: rest) :
    (s.conns i.conn).state.rank ≤ ((s.conns i.conn).perform r w i).1.state.rank := by
  cases hi : i.isToken with
  | false =>
    rcases (s.conns i.conn).perform_cases r w hi with hs | ⟨-, hp⟩
    · exact rank_steady hs
    · rw [hp]
      exact rank_le_kDisconnected _
  | true =>
    obtain ⟨-, htok⟩ := h.token_of_todo ht hi
    have hst := h.state
    cases i with
    | connectEstablished d =>
      obtain rfl : st = .connecting := by cases st <;> simp [Stage.tokens] at htok ⊢
      rw [hst]
      exact Nat.zero_le _
    | connectDestroyed d =>
      simp only [TCPConnection.perform, TCPConnection.connectDestroyed]
      split_ifs
      · exact rank_le_kDisconnected _
      · exact le_rfl
    | removeConnectionInLoop | connectionCallback | closeCallback | remove => exact le_rfl
    | _ => cases hi

theorem rank_step {a : Label L} (hs : Step cfg s a t) (h : At cfg s c st) :
    (s.conns c).state.rank ≤ (t.conns c).state.rank := by
  cases hs with
  | @exec l i rest r w htodo =>
    rw [conns_exec]
    by_cases hc : i.conn = c
    · subst hc
      rw [Function.update_self]
      exact rank_exec h htodo
    · rw [Function.update_of_ne (Ne.symm hc)]
  | @newConnection io b =>
    obtain ⟨-, hconns, -⟩ := newConnection_frame cfg s io b
    rw [hconns]
    by_cases hc : c = s.nextConnId
    · subst hc
      obtain rfl : st = .absent := h.fresh.mpr (by omega)
      rw [h.state]
      exact Nat.zero_le _
    · rw [Function.update_of_ne hc]
  | app => exact rank_call _
  | timer => exact rank_call _
  | poll | handleEvent | move | run | post => exact le_rfl

structure LifeInv (cfg : ServerConfig L) (h : List (Label L)) (s : TCPServer L) : Prop where
  pos : 1 ≤ s.nextConnId
  loops : ∀ m, LoopOk (s.loops m)
  posting : ∀ i ∈ s.posting, i.Plain
  stage : ∀ c, ∃ st, At cfg s c st ∧ events c h = st.past

theorem lifeInv_initial (hi : Initial s) : LifeInv cfg [] s where
  pos := hi.nextConnId.ge
  loops m := by
    obtain ⟨n, hn⟩ := hi.loops m
    rw [hn]
    constructor <;> simp [EventLoop.Settled, EventLoop.enter, EventLoop.waiting]
  posting := by simp [hi.posting]
  stage c := by
    have hitems : ∀ m, s.items m c = [] := by
      intro m
      obtain ⟨n, hn⟩ := hi.loops m
      simp [items, hn, EventLoop.enter, EventLoop.waiting]
    refine ⟨.absent, ?_, rfl⟩
    constructor
    · simp only [hi.nextConnId, true_iff]
      omega
    · rw [hi.conns]
      rfl
    · simp [Stage.watched]
    · rw [hi.conns]
      exact fun _ => rfl
    · rw [hi.connections]
      rfl
    · simp [tokens, hitems, Stage.tokens]
    · simp [Out, hi.known, hi.delayed, hi.posting]
    · simp [hitems]
    · intro m
      obtain ⟨n, hn⟩ := hi.loops m
      simp [readers, hitems, hn]

theorem lifeInv_exec {h : List (Label L)} (he : (system cfg).Exec h s) : LifeInv cfg h s := by
  induction he with
  | start hi => exact lifeInv_initial hi
  | @snoc h s t a he hs ih =>
    refine ⟨ih.pos.trans (nextConnId_step hs), loopOk_step hs ih.loops ih.posting,
      posting_step hs ih.posting, fun c => ?_⟩
    obtain ⟨st, hat, hev⟩ := ih.stage c
    obtain ⟨st', hat', hpast⟩ := hat.step hs ih.pos ih.loops ih.posting
    refine ⟨st', hat', ?_⟩
    rw [hpast, ← hev, events, events, List.filterMap_append]
    cases hl : lifeEvent c a <;> simp [hl]

/-- The life of the connection `c` after the history `h`, and what the next step may find. -/
structure LifeCycle (cfg : ServerConfig L) (h : List (Label L)) (s : TCPServer L) (c : Nat) :
    Prop where
  order : events c h <+: wholeLife
  listed : s.connections (connName cfg c) =
    if .accepted ∈ events c h ∧ .removed ∉ events c h then some c else none
  handled : ∀ l k state t, Step cfg s (.exec l (.handler c k) state) t →
    .established .kConnecting ∈ events c h ∧ l = s.owner c
  forward : ∀ a t, Step cfg s a t → (s.conns c).state.rank ≤ (t.conns c).state.rank
  erased : ∀ l state t, Step cfg s (.exec l (.removeConnectionInLoop c) state) t →
    l = cfg.loop ∧ s.connections (connName cfg c) = some c ∧
      t.connections = Function.update s.connections (connName cfg c) none
  destroyed : ∀ l state t, Step cfg s (.exec l (.connectDestroyed c) state) t →
    l = s.owner c ∧ .removed ∈ events c h ∧ .closeCallback ∈ events c h ∧
      state = .kDisconnected ∧ (s.conns c).channel.isNoneEvent = true

theorem connection_life_cycle {h : List (Label L)} (he : (system cfg).Exec h s) (c : Nat) :
    LifeCycle cfg h s c := by
  obtain ⟨-, -, -, hstage⟩ := lifeInv_exec he
  obtain ⟨st, hat, hev⟩ := hstage c
  constructor
  · rw [hev]
    exact List.take_prefix _ _
  · rw [hat.entry, hev]
    cases st <;> rfl
  · intro l k state t hs
    cases hs with
    | exec htodo =>
      obtain ⟨hout, hl⟩ := hat.isOut_of_todo htodo rfl
      exact ⟨hev ▸ Stage.established_mem_past hout, hl⟩
  · exact fun a t hs => rank_step hs hat
  · intro l state t hs
    cases hs with
    | exec htodo =>
      obtain ⟨hl, htok⟩ := hat.token_of_todo htodo rfl
      obtain rfl : st = .closed := by cases st <;> simp [Stage.tokens] at htok ⊢
      refine ⟨hl, hat.entry, ?_⟩
      simp [connections_exec, Item.conn]
  · intro l state t hs
    cases hs with
    | exec htodo =>
      obtain ⟨hl, htok⟩ := hat.token_of_todo htodo rfl
      obtain rfl : st = .removed := by cases st <;> simp [Stage.tokens] at htok ⊢
      rw [hev]
      exact ⟨hl, by decide, by decide, hat.state, hat.silent rfl⟩

/-- Two loops; the peer closes, and the connection goes all the way. -/
theorem connection_life_cycle_sample : ∃ s : TCPServer Bool, ∃ h,
    LifeCycle ⟨false, [], []⟩ h s 1 ∧ events 1 h = wholeLife := by
  have x := Trace.LTS.Exec.start (L := system (⟨false, [], []⟩ : ServerConfig Bool))
    (s := ⟨fun _ => ⟨.enter 0, [], []⟩, fun _ => .new false false, fun _ => false, fun _ => false,
      fun _ => none, 1, [], []⟩)
    ⟨fun _ => ⟨0, rfl⟩, fun _ => rfl, fun _ => rfl, fun _ => rfl, rfl, rfl, rfl⟩
  replace x := x.snoc (@Step.poll _ _ _ _ false _ [] rfl (by simp) (by simp))
  replace x := x.snoc (@Step.newConnection _ _ _ _ true false rfl rfl)
  replace x := x.snoc (@Step.poll _ _ _ _ true _ [] rfl (by simp) (by simp))
  replace x := x.snoc (.move (l := true) (m := .beginPending) rfl (fun _ => rfl) (by simp) rfl)
  replace x := x.snoc (.move (l := true) (m := .swap) rfl (by simp) (by simp) rfl)
  replace x := x.snoc (.run (l := true) (i := .connectEstablished 1) rfl rfl)
  replace x := x.snoc (.exec (l := true) (r := .eof) (w := .wrote 0) rfl)
  replace x := x.snoc (.exec (l := true) (r := .eof) (w := .wrote 0) rfl)
  replace x := x.snoc (.move (l := true) (m := .endPending) rfl (by simp) (by simp) rfl)
  replace x := x.snoc (@Step.poll _ _ _ _ true _ [(1, POLLIN)] rfl (by simp) (by
    simp only [List.mem_singleton, forall_eq]
    exact ⟨⟨rfl, by decide, by decide⟩, by decide, by unfold Sane; decide⟩))
  replace x := x.snoc (.handleEvent (l := true) (c := 1) rfl rfl rfl)
  replace x := x.snoc (.exec (l := true) (i := .handler 1 .read) (r := .eof) (w := .wrote 0) rfl)
  replace x := x.snoc (.exec (l := true) (r := .eof) (w := .wrote 0) rfl)
  replace x := x.snoc (.exec (l := true) (r := .eof) (w := .wrote 0) rfl)
  replace x := x.snoc (.move (l := false) (m := .beginPending) rfl (fun _ => rfl) (by simp) rfl)
  replace x := x.snoc (.move (l := false) (m := .swap) rfl (by simp) (by simp) rfl)
  replace x := x.snoc (.run (l := false) (i := .removeConnectionInLoop 1) rfl rfl)
  replace x := x.snoc (.exec (l := false) (r := .eof) (w := .wrote 0) rfl)
  replace x := x.snoc (.move (l := true) (m := .beginPending) rfl (fun _ => rfl) (by simp) rfl)
  replace x := x.snoc (.move (l := true) (m := .swap) rfl (by simp) (by simp) rfl)
  replace x := x.snoc (.run (l := true) (i := .connectDestroyed 1) rfl rfl)
  replace x := x.snoc (.exec (l := true) (r := .eof) (w := .wrote 0) rfl)
  replace x := x.snoc (.exec (l := true) (r := .eof) (w := .wrote 0) rfl)
  exact ⟨_, _, connection_life_cycle x 1, by decide⟩

end TCPServer

end Lute
