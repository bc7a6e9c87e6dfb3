import Lute.Polaris.TornDispatch
import Lute.Polaris.TornLife

/-! When the destructor of a server brings every connection to its end, once and in order. -/
namespace Lute

open TCPServer (connName)
open Teardown (Ends Closes)

namespace Teardown

variable {L : Type} [DecidableEq L] {cfg : ServerConfig L} {s t : Teardown L} {a : Label L}
  {h : List (Label L)} {l : L} {c : Nat} {f : Fate} {i : Item} {rest : List Item}
  {r : ReadResult} {w : WriteResult}

structure Inv (cfg : ServerConfig L) (h : List (Label L)) (s : Teardown L) : Prop where
  ok : TCPServer.Ok cfg s.server
  alive : s.dtor = none → s.doomed = [] ∧ s.inline = []
  left : ∀ cs, s.dtor = some cs → cs.Nodup ∧ ∀ c ∈ cs, c ∈ s.doomed
  inline : ∀ i ∈ s.inline, i.conn ∈ s.doomed
  others : ∀ c ∉ s.doomed, ∃ st, TCPServer.At cfg s.server c st ∧ events c h = st.past ∧
    (s.dtor ≠ none → st.listed = false)
  doom : ∀ c ∈ s.doomed, ∃ f, Doom cfg s c f ∧ events c h = f.past
  quitting : ∀ l, s.quit l = true → Quitting cfg s l
  exited : ∀ l, s.exited l = true → s.quit l = true

omit [DecidableEq L] in
theorem events_snoc (c : Nat) (h : List (Label L)) (a : Label L) :
    events c (h ++ [a]) = events c h ++ (lifeEvent c a).toList := by
  rw [events, List.filterMap_append, events]
  cases hl : lifeEvent c a <;> simp [hl]

omit [DecidableEq L] in
theorem events_snoc_of_none (ha : lifeEvent c a = none) : events c (h ++ [a]) = events c h := by
  rw [events_snoc, ha]
  exact List.append_nil _

/-- No loop is told to quit before the destructor is through. -/
theorem Inv.not_quit (hi : Inv cfg h s) (hd : s.dtor ≠ some []) (l : L) : s.quit l ≠ true :=
  fun hq => hd (hi.quitting l hq).dtor

/-- After the destructor has begun no connection is on its way out of the map. -/
theorem Inv.no_removal (hi : Inv cfg h s) (hd : s.dtor ≠ none) (l : L) (d : Nat) :
    .removeConnectionInLoop d ∉ s.tokens cfg l d := by
  intro hmem
  by_cases hc : d ∈ s.doomed
  · obtain ⟨f, hf, -⟩ := hi.doom d hc
    rw [hf.fated.tokens l] at hmem
    split_ifs at hmem
    · rcases Fate.mem_cases hmem with h | h | h | h <;> cases h
    · cases hmem
  · obtain ⟨st, hat, -, hl⟩ := hi.others d hc
    have hinline : .removeConnectionInLoop d ∉ s.inline := fun hx => hc (hi.inline _ hx)
    have hserver : .removeConnectionInLoop d ∈ s.server.tokens l d := by
      refine (List.mem_append.mp hmem).resolve_left fun hx => ?_
      split_ifs at hx
      · exact hinline (List.mem_filter.mp hx).1
      · cases hx
    rw [hat.tokens] at hserver
    have hlisted := hl hd
    split_ifs at hserver
    · cases st <;> simp_all [Stage.tokens, Stage.listed]
    · cases hserver

theorem inv_quiet {b : TCPServer.Label L} {u : TCPServer L} (hi : Inv cfg h s)
    (hs : TCPServer.Step cfg s.server b u) (hb : b.isQuiet = true)
    (hcalls : ∀ c ∈ s.doomed, ∀ x, b.Calls c x → ¬ Ends (s.server.conns c).state x)
    (hev : ∀ c, lifeEvent c a = none) {tested : L → Bool} {activeChannels : L → List Nat}
    {currentActiveChannel : L → Option Nat}
    (htested : ∀ l, tested l = s.tested l ∨ (u.loops l).core.phase = .dispatch) :
    Inv cfg (h ++ [a])
      { s with server := u, tested, activeChannels, currentActiveChannel } where
  ok := TCPServer.ok_step hs hi.ok
  alive := hi.alive
  left := hi.left
  inline := hi.inline
  others c hc := by
    obtain ⟨st, hat, hpast, hl⟩ := hi.others c hc
    obtain ⟨st', hat', hpast'⟩ := hat.step hs hi.ok.pos hi.ok.loops hi.ok.posting
    have hnone : TCPServer.lifeEvent c b = none := by
      cases b <;> first | rfl | cases hb
    rw [hnone] at hpast'
    refine ⟨st', hat', ?_, fun hd => ?_⟩
    · rw [events_snoc, hev, hpast, hpast']
    · exact TCPServer.unlisted_step hat hat' (TCPServer.nextConnId_quiet hs hb) hpast' (hl hd)
  doom c hc := by
    obtain ⟨f, hf, hpast⟩ := hi.doom c hc
    exact ⟨f, doom_quiet hf hi.ok hs hb (hcalls c hc), (events_snoc_of_none (hev c)).trans hpast⟩
  quitting l hq := quitting_quiet (hi.quitting l hq) hi.ok hs hb (htested l)
  exited := hi.exited

theorem inv_newConnection {d : Nat} {io : L} {u : TCPServer L} (hi : Inv cfg h s)
    (hs : TCPServer.Step cfg s.server (.newConnection d io) u) (hd : s.dtor = none)
    {currentActiveChannel : L → Option Nat} :
    Inv cfg (h ++ [.server (.newConnection d io)])
      { s with server := u, currentActiveChannel } where
  ok := TCPServer.ok_step hs hi.ok
  alive := hi.alive
  left := hi.left
  inline := hi.inline
  others c hc := by
    obtain ⟨st, hat, hpast, -⟩ := hi.others c hc
    obtain ⟨st', hat', hpast'⟩ := hat.step hs hi.ok.pos hi.ok.loops hi.ok.posting
    exact ⟨st', hat', by rw [events_snoc, hpast, hpast']; rfl, fun hne => absurd hd hne⟩
  doom c hc := by
    rw [(hi.alive hd).1] at hc
    cases hc
  quitting l hq := absurd hq (hi.not_quit (by simp [hd]) l)
  exited := hi.exited

theorem inv_exec_item (hi : Inv cfg h s) (ht : (s.server.loops l).todo = i :: rest)
    (hfree : s.Free cfg l)
    (hcalm : i.conn ∈ s.doomed → ¬ Closes (s.server.conns i.conn).state r i) :
    Inv cfg (h ++ [.exec l i (s.server.conns i.conn).state r])
      { s with server := s.server.exec cfg l i rest r w } where
  ok := TCPServer.ok_step (.exec ht) hi.ok
  alive := hi.alive
  left := hi.left
  inline := hi.inline
  others c hc := by
    obtain ⟨st, hat, hpast, hl⟩ := hi.others c hc
    obtain ⟨st', hat', hpast'⟩ := hat.step (.exec (r := r) (w := w) ht) hi.ok.pos hi.ok.loops
      hi.ok.posting
    refine ⟨st', hat', ?_, fun hd => ?_⟩
    · rw [events_snoc, hpast, hpast']
      rfl
    · exact TCPServer.unlisted_step hat hat' TCPServer.nextConnId_exec hpast' (hl hd)
  doom c hc := by
    obtain ⟨f, hf, hpast⟩ := hi.doom c hc
    obtain ⟨f', hf', hpast'⟩ := doom_exec hf hfree ht fun heq => hcalm (heq ▸ hc)
    exact ⟨f', hf', by rw [events_snoc, hpast, hpast']; rfl⟩
  quitting m hq := by
    obtain ⟨hbase, hdtor, hahead⟩ := hi.quitting m hq
    refine ⟨hbase, hdtor, ?_⟩
    rintro ⟨c, hc, hx⟩
    have hne : ∀ d, i ≠ .removeConnectionInLoop d := by
      rintro d rfl
      refine hi.no_removal (by simp [hdtor]) l d (List.mem_append_right _ ?_)
      rw [show s.server.tokens l d = _ from TCPServer.tokens_of_todo ht rfl]
      exact List.mem_cons_self
    exact ahead_congr (TCPServer.phase_exec m) rfl (hahead ⟨c, hc, TCPServer.queued_exec hne hx⟩)
  exited := hi.exited

theorem inv_inline (hi : Inv cfg h s) (hin : s.inline = i :: rest) :
    Inv cfg (h ++ [.inline i (s.server.conns i.conn).state]) (s.runInline i rest r w) where
  ok := ⟨hi.ok.pos, hi.ok.loops, hi.ok.posting, hi.ok.base⟩
  alive hd := by
    have := (hi.alive hd).2
    rw [hin] at this
    cases this
  left := hi.left
  inline j hj := by
    rcases List.mem_append.mp hj with hj | hj
    · have hconn : j.conn = i.conn := TCPServer.conn_goesOn (s := s.server) (r := r) (w := w) hj
      rw [hconn]
      exact hi.inline i (hin ▸ List.mem_cons_self)
    · exact hi.inline j (hin ▸ List.mem_cons_of_mem i hj)
  others c hc := by
    have hne : i.conn ≠ c := by
      rintro rfl
      exact hc (hi.inline i (hin ▸ List.mem_cons_self))
    obtain ⟨st, hat, hpast, hl⟩ := hi.others c hc
    have hev : lifeEvent c (.inline i (s.server.conns i.conn).state : Label L) = none := if_neg hne
    exact ⟨st, at_inline hat hne, (events_snoc_of_none hev).trans hpast, hl⟩
  doom c hc := by
    obtain ⟨f, hf, hpast⟩ := hi.doom c hc
    obtain ⟨f', hf', hpast'⟩ := doom_inline (r := r) (w := w) hf hin
    exact ⟨f', hf', by rw [events_snoc, hpast, hpast']; rfl⟩
  quitting l hq := ⟨(hi.quitting l hq).base, (hi.quitting l hq).dtor, (hi.quitting l hq).ahead⟩
  exited := hi.exited

theorem inv_destruct {cs : List Nat} (hi : Inv cfg h s) (hd : s.dtor = none)
    (htodo : Callable (s.server.loops cfg.loop).todo) (hnd : cs.Nodup)
    (hcs : ∀ c, c ∈ cs ↔ s.server.connections (connName cfg c) = some c)
    (hcalm : ∀ c ∈ cs, (s.server.conns c).state = .kConnecting ∨
      (s.server.conns c).state = .kConnected) :
    Inv cfg (h ++ [.destruct cs]) { s with dtor := some cs, doomed := cs } := by
  obtain ⟨hdoomed, hin⟩ := hi.alive hd
  have hquit := hi.not_quit (by simp [hd])
  have hexited : ∀ l, s.exited l = false := by
    intro l
    cases he : s.exited l with
    | false => rfl
    | true => exact absurd (hi.exited l he) (hquit l)
  have hev : ∀ c, events c (h ++ [.destruct cs]) = events c h := fun c => events_snoc_of_none rfl
  refine ⟨hi.ok, by simp, ?_, by simp [hin], fun c hc => ?_, fun c hc => ?_,
    fun l hq => absurd hq (hquit l), hi.exited⟩
  · rintro ds hds
    obtain rfl := Option.some.inj hds
    exact ⟨hnd, fun c hc => hc⟩
  · obtain ⟨st, hat, hpast, -⟩ := hi.others c (by simp [hdoomed])
    refine ⟨st, hat, (hev c).trans hpast, fun _ => ?_⟩
    cases hl : st.listed with
    | false => rfl
    | true =>
      have he := hat.entry
      rw [hl] at he
      exact absurd ((hcs c).mpr he) hc
  · obtain ⟨st, hat, hpast, -⟩ := hi.others c (by simp [hdoomed])
    obtain ⟨f, hf, hfp⟩ := doom_destruct hat hi.ok hin (hexited _) htodo hc ((hcs c).mp hc)
      (hcalm c hc)
    exact ⟨f, hf, by rw [hev, hpast, hfp]⟩

theorem inv_destroyNext {d : Nat} {cs : List Nat} (hi : Inv cfg h s)
    (hd : s.dtor = some (d :: cs)) (hin : s.inline = []) :
    Inv cfg (h ++ [.destroyNext d]) ({ s with dtor := some cs }.destroy cfg d) := by
  obtain ⟨hnd, hsub⟩ := hi.left _ hd
  have hdm := hsub d (by simp)
  have hev : ∀ c, events c (h ++ [.destroyNext d]) = events c h := fun c => events_snoc_of_none rfl
  have hquit := hi.not_quit (by simp [hd])
  have hothers : ∀ c ∉ s.doomed, ∃ st,
      TCPServer.At cfg ({ s with dtor := some cs }.destroy cfg d).server c st ∧
        events c (h ++ [.destroyNext d]) = st.past ∧ st.listed = false := by
    intro c hc
    obtain ⟨st, hat, hpast, hl⟩ := hi.others c hc
    refine ⟨st, at_destroy (s := { s with dtor := some cs }) hat ?_, (hev c).trans hpast,
      hl (by simp [hd])⟩
    rintro rfl
    exact hc hdm
  have hdoom : ∀ c ∈ s.doomed, ∃ f, Doom cfg ({ s with dtor := some cs }.destroy cfg d) c f ∧
      events c (h ++ [.destroyNext d]) = f.past := by
    intro c hc
    obtain ⟨f, hf, hpast⟩ := hi.doom c hc
    obtain ⟨f', hf', hpast'⟩ := doom_destroy hf hd hnd hin
    exact ⟨f', hf', by rw [hev, hpast, hpast']⟩
  have hcs : ∀ ds, some cs = some ds → ds.Nodup ∧ ∀ c ∈ ds, c ∈ s.doomed := by
    rintro ds hds
    obtain rfl := Option.some.inj hds
    exact ⟨(List.nodup_cons.mp hnd).2, fun c hc => hsub c (List.mem_cons_of_mem d hc)⟩
  unfold destroy at hothers hdoom ⊢
  split_ifs at hothers hdoom ⊢ with ho
  · refine ⟨hi.ok, by simp, hcs, ?_, fun c hc => ?_, hdoom, fun l hq => absurd hq (hquit l),
      hi.exited⟩
    · intro j hj
      obtain rfl := List.mem_singleton.mp hj
      exact hdm
    · obtain ⟨st, hat, hpast, hl⟩ := hothers c hc
      exact ⟨st, hat, hpast, fun _ => hl⟩
  · refine ⟨⟨hi.ok.pos, ?_, hi.ok.posting, fun c hc => ?_⟩, by simp, hcs, hi.inline,
      fun c hc => ?_, hdoom, fun l hq => absurd hq (hquit l), hi.exited⟩
    · exact TCPServer.loopOk_push hi.ok.loops false (by simp [Item.isFunctor])
    · rcases TCPServer.mem_waiting_push hc with hc | ⟨hl, -⟩
      · exact hi.ok.base c hc
      · exact ho hl.symm
    · obtain ⟨st, hat, hpast, hl⟩ := hothers c hc
      exact ⟨st, hat, hpast, fun _ => hl⟩

/-- A step of a loop between its iterations, which no connection takes part in. -/
theorem inv_idle {tested quit exited : L → Bool} {currentActiveChannel : L → Option Nat}
    (hi : Inv cfg h s) (hev : ∀ c, lifeEvent c a = none)
    (hquitting : ∀ l, quit l = true →
      Quitting cfg { s with tested, quit, exited, currentActiveChannel } l)
    (hexited : ∀ l, exited l = true → quit l = true)
    (hgone : ∀ c ∈ s.doomed, ∀ f, Doom cfg s c f → exited (s.server.owner c) = true → f = .gone) :
    Inv cfg (h ++ [a]) { s with tested, quit, exited, currentActiveChannel } where
  ok := hi.ok
  alive := hi.alive
  left := hi.left
  inline := hi.inline
  others c hc := by
    obtain ⟨st, hat, hpast, hl⟩ := hi.others c hc
    exact ⟨st, hat, (events_snoc_of_none (hev c)).trans hpast, hl⟩
  doom c hc := by
    obtain ⟨f, hf, hpast⟩ := hi.doom c hc
    exact ⟨f, ⟨⟨hf.fated.state, hf.fated.silent, hf.fated.tokens⟩, hf.asked, hf.base,
      hgone c hc f hf⟩, (events_snoc_of_none (hev c)).trans hpast⟩
  quitting := hquitting
  exited := hexited

theorem inv_other (hi : Inv cfg h s) {currentActiveChannel : L → Option Nat} :
    Inv cfg (h ++ [.other l]) { s with currentActiveChannel } :=
  inv_idle hi (fun _ => rfl) (fun m hm => ⟨(hi.quitting m hm).base, (hi.quitting m hm).dtor,
    (hi.quitting m hm).ahead⟩) hi.exited fun _ _ _ hf => hf.exited

theorem inv_test (hi : Inv cfg h s) (hq : s.quit l = false) :
    Inv cfg (h ++ [.test l]) { s with tested := Function.update s.tested l true } := by
  refine inv_idle hi (fun _ => rfl) (fun m hm => ?_) hi.exited fun c _ f hf => hf.exited
  obtain ⟨hbase, hdtor, hahead⟩ := hi.quitting m hm
  have hne : m ≠ l := by
    rintro rfl
    simp [hq] at hm
  exact ⟨hbase, hdtor, fun hx =>
    ahead_congr (s := s) rfl (Function.update_of_ne hne ..) (hahead hx)⟩

theorem inv_quit (hi : Inv cfg h s) (hl : l ≠ cfg.loop) (hd : s.dtor = some [])
    (hcalm : s.Calm cfg (.quit l)) :
    Inv cfg (h ++ [.quit l]) { s with quit := Function.update s.quit l true } := by
  refine inv_idle hi (fun _ => rfl) (fun m hm => ?_) (fun m hm => ?_) fun c _ f hf => hf.exited
  · by_cases hml : m = l
    · subst hml
      exact ⟨hl, hd, hcalm⟩
    · rw [Function.update_of_ne hml] at hm
      obtain ⟨hbase, hdtor, hahead⟩ := hi.quitting m hm
      exact ⟨hbase, hdtor, hahead⟩
  · by_cases hml : m = l
    · rw [hml, Function.update_self]
    · rw [Function.update_of_ne hml]
      exact hi.exited m hm

theorem inv_exit (hi : Inv cfg h s) (hph : (s.server.loops l).core.phase = .poll)
    (ht : s.tested l = false) (hq : s.quit l = true) :
    Inv cfg (h ++ [.exit l]) { s with exited := Function.update s.exited l true } := by
  refine inv_idle hi (fun _ => rfl) (fun m hm => ?_) (fun m hm => ?_) fun c hc f hf he => ?_
  · obtain ⟨hbase, hdtor, hahead⟩ := hi.quitting m hm
    exact ⟨hbase, hdtor, hahead⟩
  · by_cases hml : m = l
    · rwa [hml]
    · rw [Function.update_of_ne hml] at hm
      exact hi.exited m hm
  · by_cases hl : s.server.owner c = l
    · exact gone_of_exit hf (hi.ok.loops l) hc hl (hi.quitting l hq) hph ht
    · rw [Function.update_of_ne hl] at he
      exact hf.exited he

theorem inv_step (hi : Inv cfg h s) (hs : Step cfg s a t) (hcalm : s.Calm cfg a) :
    Inv cfg (h ++ [a]) t := by
  cases hs with
  | @server b u hs hm =>
    have hquiet : b.isQuiet = true → Inv cfg (h ++ [.server b])
        { s with server := u, currentActiveChannel := s.current cfg b } := by
      intro hb
      refine inv_quiet hi hs hb (fun c hc x hx => ?_) (fun c => ?_) fun _ => .inl rfl
      · cases b with
        | app d y =>
          obtain ⟨rfl, rfl⟩ := hx
          exact hcalm hc
        | timer d =>
          obtain ⟨rfl, rfl⟩ := hx
          exact hcalm hc
        | poll | handleEvent | move | newConnection | exec | post => cases hx
      · cases b <;> first | rfl | cases hb
    cases b with
    | newConnection d io => exact inv_newConnection hi hs hm
    | poll | exec => cases hm
    | handleEvent | move | app | post | timer => exact hquiet rfl
  | @poll l active u hs hf ht =>
    refine inv_quiet hi hs rfl (fun _ _ _ hx => by cases hx) (fun _ => rfl) fun m => ?_
    by_cases hml : m = l
    · subst hml
      cases hs with
      | poll hm =>
        obtain ⟨-, rfl⟩ := by simpa [EventLoop.move] using hm
        exact .inr (by simp [TCPServer.setLoop])
    · exact .inl (Function.update_of_ne hml ..)
  | exec htodo hf => exact inv_exec_item hi htodo hf hcalm
  | other => exact inv_other hi
  | test hph hf hq => exact inv_test hi hq
  | destruct hd htodo hnd hcs =>
    exact inv_destruct hi hd htodo hnd hcs fun c hc => (hcalm c hc).1
  | destroyNext hd hin => exact inv_destroyNext hi hd hin
  | inline hin => exact inv_inline hi hin
  | quit hl hd hin => exact inv_quit hi hl hd hcalm
  | exit hph ht hq => exact inv_exit hi hph ht hq

theorem inv_initial (hi : Initial s) : Inv cfg [] s where
  ok := TCPServer.ok_initial hi.server
  alive _ := ⟨hi.doomed, hi.inline⟩
  left cs hd := by
    rw [hi.dtor] at hd
    cases hd
  inline := by simp [hi.inline]
  others c _ := by
    have hlife : TCPServer.LifeInv cfg [] s.server := TCPServer.lifeInv_initial hi.server
    obtain ⟨st, hat, hpast⟩ := hlife.stage c
    exact ⟨st, hat, hpast, fun hd => absurd hi.dtor hd⟩
  doom := by simp [hi.doomed]
  quitting l hq := by
    rw [hi.quit] at hq
    cases hq
  exited l he := by
    rw [hi.exited] at he
    cases he

theorem inv_run (he : ((system cfg).restrict (Calm cfg)).Exec h s) : Inv cfg h s := by
  induction he with
  | start hi => exact inv_initial hi
  | snoc _ hs ih => exact inv_step ih hs.2 hs.1

theorem removing_run (he : ((system cfg).restrict (Calm cfg)).Exec h s) : Removing cfg s := by
  induction he with
  | start hi => exact removing_initial hi
  | snoc he hs ih =>
    have hi := inv_run he
    exact ih.step hs.2 hs.1 hi.ok.loops fun hd => (hi.alive hd).2

theorem mem_tokens_of_todo (hm : i ∈ (s.server.loops l).todo)
    (hi : i.isToken = true) : i ∈ s.tokens cfg l i.conn := by
  refine List.mem_append_right _ (List.mem_filter.mpr ⟨?_, hi⟩)
  exact List.mem_filter.mpr ⟨List.mem_append_left _ hm, by simp⟩

theorem mem_tokens_of_inline (hm : i ∈ s.inline) : i ∈ s.tokens cfg cfg.loop i.conn := by
  refine List.mem_append_left _ ?_
  rw [if_pos rfl]
  exact List.mem_filter.mpr ⟨hm, by simp⟩

/-- A token that a step runs was to be done. -/
theorem mem_tokens_of_step (hs : Step cfg s a t) (ha : a.item = some i) (hi : i.isToken = true) :
    ∃ l, i ∈ s.tokens cfg l i.conn := by
  cases hs with
  | @exec l _ rest _ _ htodo =>
    obtain rfl := Option.some.inj ha
    exact ⟨l, mem_tokens_of_todo (by simp [htodo]) hi⟩
  | inline hin =>
    obtain rfl := Option.some.inj ha
    exact ⟨cfg.loop, mem_tokens_of_inline (by simp [hin])⟩
  | server | poll | other | test | destruct | destroyNext | quit | exit => cases ha

/-- A connection whose `connectDestroyed` has not been called is still to be visited, or has the
call queued. -/
theorem Doom.waits (hf : Doom cfg s c f) (hage : f.age ≤ 3) : s.Waits c := by
  cases hasked : f.asked with
  | false => exact .inl (hf.asked.mp hasked)
  | true =>
    have hmem : .connectDestroyed c ∈ s.tokens cfg (s.server.owner c) c := by
      rw [hf.fated.tokens, if_pos rfl]
      cases f <;> simp_all [Fate.asked, Fate.tokens, Fate.age]
    rcases List.mem_append.mp hmem with hx | hx
    · split_ifs at hx
      · exact .inr (.inl (List.mem_filter.mp hx).1)
      · cases hx
    · exact .inr (.inr (List.mem_filter.mp hx).1)

/-- A thread that is done has left nothing of a connection to do. -/
theorem Doom.gone_of_done (hf : Doom cfg s c f) (hd : s.Done cfg c) : f = .gone := by
  rcases hd with he | ⟨ho, hd, hi⟩
  · exact hf.exited he
  · have hasked : f.asked = true := by
      by_contra hne
      obtain ⟨cs, hcs, hm⟩ := hf.asked.mp (by simpa using hne)
      obtain rfl := Option.some.inj (hd.symm.trans hcs)
      cases hm
    have htok := hf.fated.tokens (s.server.owner c)
    rw [if_pos rfl, Teardown.tokens, hi, ho, (hf.base ho).2] at htok
    cases f <;> simp_all [Fate.asked, Fate.tokens]

/-- A channel that is to be taken out is so by the thread of its own loop, and is down. -/
theorem Doom.of_remove (hf : Doom cfg s c f) (hmem : .remove c ∈ s.tokens cfg l c) :
    l = s.server.owner c ∧ f.state = .kDisconnected := by
  rw [hf.fated.tokens l] at hmem
  split_ifs at hmem with hl
  · refine ⟨hl, ?_⟩
    cases f with
    | connecting asked | established asked | up asked =>
      cases asked <;> simp [Fate.tokens] at hmem
    | destroyed | told | gone => rfl
  · cases hmem

theorem torn_of_doom (hf : Doom cfg s c f) (hpast : events c h = f.past) (hr : Removing cfg s)
    (hc : c ∈ s.doomed) : Torn cfg h s c where
  once := by
    rw [hpast, f.countP_past]
    split_ifs <;> decide
  waits hzero := by
    rw [hpast, f.countP_past] at hzero
    exact hf.waits (by simpa using hzero)
  done hd := by
    obtain rfl := hf.gone_of_done hd
    rw [hpast]
    decide
  silent a t hs ha := by
    obtain ⟨l, hmem⟩ := mem_tokens_of_step hs ha rfl
    exact hf.fated.silent (hf.of_remove hmem).2
  removable a t hs ha := by
    refine hr.mayRemove hs ha hc (fun l hx => ?_) fun hx => ?_
    · exact (hf.of_remove (mem_tokens_of_todo hx rfl)).1
    · exact (hf.of_remove (mem_tokens_of_inline hx)).1.symm
  down hlast := by
    rw [hpast] at hlast ⊢
    obtain rfl := Fate.channelRemoved_mem_past.mp hlast
    exact ⟨hf.fated.state, fun _ => by decide⟩

theorem callable_nil : Callable [] := by
  simp [Callable]

omit [DecidableEq L] in
/-- The map with a single entry. -/
theorem mem_iff_listed_alone (cfg : ServerConfig L) (n c : Nat) :
    c ∈ [n] ↔
      Function.update (fun _ => none) (connName cfg n) (some n) (connName cfg c) = some c := by
  rw [List.mem_singleton]
  constructor
  · rintro rfl
    exact Function.update_self ..
  · intro hx
    by_cases hc : connName cfg c = connName cfg n
    · rw [hc, Function.update_self] at hx
      exact (Option.some.inj hx).symm
    · rw [Function.update_of_ne hc] at hx
      cases hx

theorem clean_teardown (he : ((system cfg).restrict (Calm cfg)).Exec h s) (hd : s.dtor ≠ none) :
    Clean cfg h s := by
  have hi := inv_run he
  constructor
  · intro c hc
    obtain ⟨f, hf, hpast⟩ := hi.doom c hc
    exact torn_of_doom hf hpast (removing_run he) hc
  · intro a t d hs ha
    obtain ⟨l, hmem⟩ := mem_tokens_of_step hs ha rfl
    exact hi.no_removal hd l d hmem

/-- Two loops; the destructor ends a connection of the other one, whose thread then leaves. -/
theorem clean_teardown_across : ∃ s : Teardown Bool, ∃ h, Clean ⟨false, [], []⟩ h s ∧
    s.doomed = [1] ∧ s.Done ⟨false, [], []⟩ 1 ∧ events 1 h = tornLife := by
  have x := Trace.LTS.Exec.start
    (L := (system (⟨false, [], []⟩ : ServerConfig Bool)).restrict (Calm ⟨false, [], []⟩))
    (s := ⟨⟨fun _ => ⟨.enter 0, [], []⟩, fun _ => .new false false, fun _ => false,
      fun _ => false, fun _ => none, 1, [], []⟩, none, [], [], fun _ => false, fun _ => false,
      fun _ => false, fun _ => [], fun _ => none⟩)
    ⟨⟨fun _ => ⟨0, rfl⟩, fun _ => rfl, fun _ => rfl, fun _ => rfl, rfl, rfl, rfl⟩, rfl, rfl, rfl,
      fun _ => rfl, fun _ => rfl, fun _ => rfl, fun _ => rfl, fun _ => rfl⟩
  replace x := x.restrict_snoc (.test (l := false) rfl ⟨rfl, by simp⟩ rfl) trivial
  replace x := x.restrict_snoc (.poll (@TCPServer.Step.poll _ _ _ _ false _ [] rfl (by simp)
    (by simp)) ⟨rfl, by simp⟩ rfl) trivial
  replace x := x.restrict_snoc
    (.server (@TCPServer.Step.newConnection _ _ _ _ true false rfl rfl) rfl) trivial
  replace x := x.restrict_snoc (.test (l := true) rfl ⟨rfl, by simp⟩ rfl) trivial
  replace x := x.restrict_snoc (.poll (@TCPServer.Step.poll _ _ _ _ true _ [] rfl (by simp)
    (by simp)) ⟨rfl, by simp⟩ rfl) trivial
  replace x := x.restrict_snoc (.server (.move (l := true) (m := .beginPending) rfl (fun _ => rfl)
    (by simp) rfl) ⟨rfl, by simp⟩) trivial
  replace x := x.restrict_snoc (.server (.move (l := true) (m := .swap) rfl (by simp) (by simp) rfl)
    ⟨rfl, by simp⟩) trivial
  replace x := x.restrict_snoc (.server (.run (l := true) (i := .connectEstablished 1) rfl rfl)
    ⟨rfl, by simp⟩) trivial
  replace x := x.restrict_snoc (.exec (l := true) (r := .eof) (w := .wrote 0) rfl
    ⟨rfl, by simp⟩) fun _ hc => hc
  replace x := x.restrict_snoc (.exec (l := true) (r := .eof) (w := .wrote 0) rfl
    ⟨rfl, by simp⟩) fun _ hc => hc
  replace x := x.restrict_snoc (@Step.destruct _ _ _ _ [1] rfl callable_nil (by simp)
    (mem_iff_listed_alone ⟨false, [], []⟩ 1))
    (List.forall_mem_singleton.mpr ⟨.inr rfl, fun ho => absurd ho (by decide)⟩)
  replace x := x.restrict_snoc (.destroyNext (c := 1) rfl rfl) trivial
  replace x := x.restrict_snoc (.server (.move (l := true) (m := .endPending) rfl (by simp)
    (by simp) rfl) ⟨rfl, by simp⟩) trivial
  replace x := x.restrict_snoc (.test (l := true) rfl ⟨rfl, by simp⟩ rfl) trivial
  replace x := x.restrict_snoc (.poll (@TCPServer.Step.poll _ _ _ _ true _ [] rfl (by simp)
    (by simp)) ⟨rfl, by simp⟩ rfl) trivial
  replace x := x.restrict_snoc (.quit (l := true) (by decide) rfl rfl) fun _ => .inl rfl
  replace x := x.restrict_snoc (.server (.move (l := true) (m := .beginPending) rfl (fun _ => rfl)
    (by simp) rfl) ⟨rfl, by simp⟩) trivial
  replace x := x.restrict_snoc (.server (.move (l := true) (m := .swap) rfl (by simp) (by simp) rfl)
    ⟨rfl, by simp⟩) trivial
  replace x := x.restrict_snoc (.server (.run (l := true) (i := .connectDestroyed 1) rfl rfl)
    ⟨rfl, by simp⟩) trivial
  replace x := x.restrict_snoc (.exec (l := true) (r := .eof) (w := .wrote 0) rfl
    ⟨rfl, by simp⟩) fun _ hc => hc
  replace x := x.restrict_snoc (.exec (l := true) (r := .eof) (w := .wrote 0) rfl
    ⟨rfl, by simp⟩) fun _ hc => hc
  replace x := x.restrict_snoc (.exec (l := true) (r := .eof) (w := .wrote 0) rfl
    ⟨rfl, by simp⟩) fun _ hc => hc
  replace x := x.restrict_snoc (.server (.move (l := true) (m := .endPending) rfl (by simp)
    (by simp) rfl) ⟨rfl, by simp⟩) trivial
  replace x := x.restrict_snoc (.exit (l := true) rfl rfl rfl) trivial
  exact ⟨_, _, clean_teardown x (Option.some_ne_none _), rfl, .inl rfl, by decide⟩

/-- One loop; the connection has been shut down, and `connectDestroyed` removes its channel with
its events still registered. -/
theorem teardown_while_disconnecting : ¬ ∀ (h : List (Label Unit)) (s : Teardown Unit),
    (system ⟨(), [], []⟩).Exec h s → s.dtor ≠ none → Clean ⟨(), [], []⟩ h s := by
  intro hall
  have x := Trace.LTS.Exec.start (L := system (⟨(), [], []⟩ : ServerConfig Unit))
    (s := ⟨⟨fun _ => ⟨.enter 0, [], []⟩, fun _ => .new false false, fun _ => (), fun _ => false,
      fun _ => none, 1, [], []⟩, none, [], [], fun _ => false, fun _ => false, fun _ => false,
      fun _ => [], fun _ => none⟩)
    ⟨⟨fun _ => ⟨0, rfl⟩, fun _ => rfl, fun _ => rfl, fun _ => rfl, rfl, rfl, rfl⟩, rfl, rfl, rfl,
      fun _ => rfl, fun _ => rfl, fun _ => rfl, fun _ => rfl, fun _ => rfl⟩
  replace x := x.snoc (.test (l := ()) rfl ⟨rfl, by simp⟩ rfl)
  replace x := x.snoc (.poll (@TCPServer.Step.poll _ _ _ _ () _ [] rfl (by simp) (by simp))
    ⟨rfl, by simp⟩ rfl)
  replace x := x.snoc (.server (@TCPServer.Step.newConnection _ _ _ _ () false rfl rfl) rfl)
  replace x := x.snoc (.exec (l := ()) (r := .eof) (w := .wrote 0) rfl ⟨rfl, by simp⟩)
  replace x := x.snoc (.exec (l := ()) (r := .eof) (w := .wrote 0) rfl ⟨rfl, by simp⟩)
  replace x := x.snoc (.server (@TCPServer.Step.app _ _ _ _ 1 (.shutdown true) rfl) trivial)
  replace x := x.snoc (@Step.destruct _ _ _ _ [1] rfl callable_nil (by simp)
    (mem_iff_listed_alone ⟨(), [], []⟩ 1))
  replace x := x.snoc (.destroyNext (c := 1) rfl rfl)
  replace x := x.snoc (.inline (r := .eof) (w := .wrote 0) rfl)
  have hclean := hall _ _ x (Option.some_ne_none _)
  have hsilent := (hclean.torn 1 List.mem_cons_self).silent _ _
    (.inline (r := .eof) (w := .wrote 0) rfl) rfl
  exact absurd hsilent (by decide)

end Teardown

end Lute
