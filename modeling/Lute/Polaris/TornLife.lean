import Lute.Polaris.TeardownFrames

/-! The life of a connection that the destructor ends, stage by stage. -/
namespace Lute

open TCPServer (connName)
open Teardown (Ends Closes)

/-- The life of a connection that the destructor ends. -/
def tornLife : List LifeEvent :=
  [.accepted, .established .kConnecting, .callback .kConnected, .destroyed .kConnected,
    .callback .kDisconnected, .channelRemoved]

/-- The stages of such a life; at first `connectDestroyed` may have been asked for or not. -/
inductive Fate
  | connecting (asked : Bool)
  | established (asked : Bool)
  | up (asked : Bool)
  | destroyed
  | told
  | gone
  deriving DecidableEq, Repr

namespace Fate

def age : Fate → Nat
  | .connecting _ => 1
  | .established _ => 2
  | .up _ => 3
  | .destroyed => 4
  | .told => 5
  | .gone => 6

def past (f : Fate) : List LifeEvent := tornLife.take f.age

def state : Fate → StateE
  | .connecting _ => .kConnecting
  | .established _ | .up _ => .kConnected
  | .destroyed | .told | .gone => .kDisconnected

def tokens (c : Nat) : Fate → List Item
  | .connecting asked => .connectEstablished c :: if asked then [.connectDestroyed c] else []
  | .established asked => .connectionCallback c :: if asked then [.connectDestroyed c] else []
  | .up asked => if asked then [.connectDestroyed c] else []
  | .destroyed => [.connectionCallback c, .remove c]
  | .told => [.remove c]
  | .gone => []

def next : Fate → Fate
  | .connecting asked => .established asked
  | .established asked => .up asked
  | .up _ => .destroyed
  | .destroyed => .told
  | .told | .gone => .gone

/-- `connectDestroyed` is asked for. -/
def ask : Fate → Fate
  | .connecting _ => .connecting true
  | .established _ => .established true
  | .up _ => .up true
  | f => f

def asked : Fate → Bool
  | .connecting asked | .established asked | .up asked => asked
  | _ => true

variable {c : Nat} {f : Fate} {i : Item}

theorem mem_cases (h : i ∈ f.tokens c) :
    i = .connectEstablished c ∨ i = .connectionCallback c ∨ i = .connectDestroyed c ∨
      i = .remove c := by
  cases f with
  | connecting asked | established asked | up asked =>
    cases asked <;> simp only [Fate.tokens, if_true, List.mem_cons] at h <;> grind
  | destroyed | told | gone =>
    simp only [Fate.tokens, List.mem_cons] at h
    grind

theorem asked_next {ts : List Item} (h : f.tokens c = i :: ts) : f.next.asked = f.asked := by
  cases f with
  | up asked =>
    cases asked with
    | false => cases h
    | true => rfl
  | _ => rfl

theorem tokens_ask (hf : f.asked = false) :
    f.ask.tokens c = f.tokens c ++ [.connectDestroyed c] := by
  cases f <;> simp_all [Fate.asked, Fate.ask, Fate.tokens]

theorem age_ask (f : Fate) : f.ask.age = f.age := by
  cases f <;> rfl

theorem state_ask (f : Fate) : f.ask.state = f.state := by
  cases f <;> rfl

theorem asked_ask (f : Fate) : f.ask.asked = true := by
  cases f <;> rfl

theorem countP_past (f : Fate) :
    f.past.countP LifeEvent.isDestroyed = if f.age ≤ 3 then 0 else 1 := by
  cases f <;> rfl

theorem channelRemoved_mem_past : .channelRemoved ∈ f.past ↔ f = .gone := by
  cases f <;> decide +revert

theorem age_le_next (f : Fate) : f.age ≤ f.next.age := by
  cases f <;> simp [Fate.age, Fate.next]

end Fate

namespace Teardown

variable {L : Type} [DecidableEq L] {cfg : ServerConfig L} {s t : Teardown L} {a : Label L}
  {h : List (Label L)} {l : L} {c : Nat} {f : Fate} {i : Item} {rest : List Item}
  {r : ReadResult} {w : WriteResult}

/-- What is to be done for `c` at `l`, in the destructor or in the loop. -/
def tokens (cfg : ServerConfig L) (s : Teardown L) (l : L) (c : Nat) : List Item :=
  (if l = cfg.loop then s.inline.filter (·.conn = c) else []) ++ s.server.tokens l c

/-- The server as a connection sees it that the destructor found. -/
structure Fated (cfg : ServerConfig L) (s : Teardown L) (c : Nat) (f : Fate) : Prop where
  state : (s.server.conns c).state = f.state
  silent : f.state = .kDisconnected → (s.server.conns c).channel.isNoneEvent = true
  tokens : ∀ l, s.tokens cfg l c = if l = s.server.owner c then f.tokens c else []

theorem Fated.keeps (hf : Fated cfg s c f)
    (hst : (t.server.conns c).state = (s.server.conns c).state)
    (hsilent : (s.server.conns c).state = .kDisconnected →
      (s.server.conns c).channel.isNoneEvent = true →
      (t.server.conns c).channel.isNoneEvent = true)
    (ho : t.server.owner c = s.server.owner c)
    (htok : ∀ l, t.tokens cfg l c = s.tokens cfg l c) : Fated cfg t c f where
  state := hst.trans hf.state
  silent hd := hsilent (hf.state.trans hd) (hf.silent hd)
  tokens l := by rw [htok, ho, hf.tokens]

/-- The first token is run. -/
theorem Fated.advance (hf : Fated cfg s c f) (hhead : f.tokens c = i :: rest)
    (hconn : t.server.conns c = ((s.server.conns c).perform r w i).1)
    (ho : t.server.owner c = s.server.owner c)
    (htok : ∀ l, t.tokens cfg l c = if l = s.server.owner c then
      (((s.server.conns c).perform r w i).2.filterMap (Item.next c)).filter Item.isToken ++ rest
      else []) :
    Fated cfg t c f.next ∧
      f.next.past = f.past ++ (i.lifeEvent (s.server.conns c).state).toList := by
  have hst := hf.state
  cases f with
  | connecting asked =>
    obtain ⟨rfl, rfl⟩ := List.cons.inj hhead
    rw [hst]
    exact ⟨⟨by rw [hconn]; rfl, by simp [Fate.next, Fate.state],
      fun l => by rw [htok, ho]; rfl⟩, rfl⟩
  | established asked =>
    obtain ⟨rfl, rfl⟩ := List.cons.inj hhead
    rw [hst]
    exact ⟨⟨by rw [hconn]; exact hst, by simp [Fate.next, Fate.state],
      fun l => by rw [htok, ho]; rfl⟩, rfl⟩
  | up asked =>
    cases asked with
    | false => cases hhead
    | true =>
      obtain ⟨rfl, rfl⟩ := List.cons.inj hhead
      have hp : (s.server.conns c).perform r w (.connectDestroyed c) =
          ({ s.server.conns c with
              state := .kDisconnected, channel := (s.server.conns c).channel.disableAll },
            [.connectionCallback, .remove]) := if_pos hst
      rw [hp] at hconn htok
      rw [hst]
      exact ⟨⟨by rw [hconn]; rfl, fun _ => by rw [hconn]; rfl, fun l => by rw [htok, ho]; rfl⟩, rfl⟩
  | destroyed =>
    obtain ⟨rfl, rfl⟩ := List.cons.inj hhead
    rw [hst]
    exact ⟨⟨by rw [hconn]; exact hst, fun _ => by rw [hconn]; exact hf.silent rfl,
      fun l => by rw [htok, ho]; rfl⟩, rfl⟩
  | told =>
    obtain ⟨rfl, rfl⟩ := List.cons.inj hhead
    exact ⟨⟨by rw [hconn]; exact hst, fun _ => by rw [hconn]; exact hf.silent rfl,
      fun l => by rw [htok, ho]; rfl⟩, rfl⟩
  | gone => cases hhead

/-- Where a connection that the destructor found stands. -/
structure Doom (cfg : ServerConfig L) (s : Teardown L) (c : Nat) (f : Fate) : Prop where
  fated : Fated cfg s c f
  asked : f.asked = false ↔ s.Left c
  base : s.server.owner c = cfg.loop → 3 ≤ f.age ∧ s.server.tokens cfg.loop c = []
  exited : s.exited (s.server.owner c) = true → f = .gone

/-- The quitting loops still take the functors of the destructor, or have run them. -/
structure Quitting (cfg : ServerConfig L) (s : Teardown L) (l : L) : Prop where
  base : l ≠ cfg.loop
  dtor : s.dtor = some []
  ahead : (∃ c ∈ s.doomed, .connectDestroyed c ∈ (s.server.loops l).core.pendingFunctors) →
    s.Ahead l

/-- A step of the server that runs no item of a doomed connection's life. -/
theorem Doom.keeps (hf : Doom cfg s c f) {u : TCPServer L} {tested : L → Bool}
    {activeChannels : L → List Nat} {currentActiveChannel : L → Option Nat}
    (hst : (u.conns c).state = (s.server.conns c).state)
    (hsilent : (s.server.conns c).state = .kDisconnected →
      (s.server.conns c).channel.isNoneEvent = true → (u.conns c).channel.isNoneEvent = true)
    (ho : u.owner c = s.server.owner c) (htok : ∀ l, u.tokens l c = s.server.tokens l c) :
    Doom cfg { s with server := u, tested, activeChannels, currentActiveChannel } c f where
  fated := hf.fated.keeps hst hsilent ho fun l => by simp only [tokens, htok]
  asked := hf.asked
  base hb := by
    obtain ⟨hage, hnil⟩ := hf.base (ho.symm.trans hb)
    exact ⟨hage, (htok _).trans hnil⟩
  exited he := by
    refine hf.exited ?_
    rwa [← ho]

theorem doom_quiet {b : TCPServer.Label L} {u : TCPServer L} (hf : Doom cfg s c f)
    (hok : TCPServer.Ok cfg s.server) (hs : TCPServer.Step cfg s.server b u)
    (hb : b.isQuiet = true) (hcalls : ∀ x, b.Calls c x → ¬ Ends (s.server.conns c).state x)
    {tested : L → Bool} {activeChannels : L → List Nat} {currentActiveChannel : L → Option Nat} :
    Doom cfg { s with server := u, tested, activeChannels, currentActiveChannel } c f := by
  have htok := fun l => TCPServer.tokens_step hs hb hok.loops hok.posting l c
  have ho := congrFun (TCPServer.owner_step hs hb) c
  rcases TCPServer.conns_step hs hb c with hc | ⟨x, hx, hc⟩
  · exact hf.keeps (by rw [hc]) (fun _ hn => by rwa [hc]) ho htok
  · obtain ⟨hsteady, hst⟩ := TCPConnection.app_calm (hcalls x hx)
    exact hf.keeps (by rw [hc, hst]) (fun hd hn => by rw [hc]; exact hsteady.silent hd hn) ho htok

theorem Free.inline_nil (hfree : s.Free cfg l) :
    (if l = cfg.loop then s.inline.filter (·.conn = c) else []) = [] := by
  split_ifs with hl
  · rw [(hfree.2 hl).1]
    rfl
  · rfl

/-- The token in hand at a free loop is the first one. -/
theorem Fated.head (hf : Fated cfg s i.conn f) (hfree : s.Free cfg l)
    (ht : (s.server.loops l).todo = i :: rest) (hi : i.isToken = true) :
    l = s.server.owner i.conn ∧
      f.tokens i.conn = i :: (s.server.later l rest i.conn).filter Item.isToken := by
  have htok := hf.tokens l
  rw [Teardown.tokens, hfree.inline_nil, List.nil_append, TCPServer.tokens_of_todo ht hi] at htok
  split_ifs at htok with hl
  exact ⟨hl, htok.symm⟩

/-- The loop runs an item of `c` that is no token of its life. -/
theorem Doom.exec_steady (hf : Doom cfg s i.conn f) (ht : (s.server.loops l).todo = i :: rest)
    (hi : i.isToken = false) (hcalm : ¬ Closes (s.server.conns i.conn).state r i) :
    Doom cfg { s with server := s.server.exec cfg l i rest r w } i.conn f := by
  obtain ⟨hsteady, hst⟩ :=
    TCPConnection.perform_calm (c := s.server.conns i.conn) (w := w) hi hcalm
  refine hf.keeps ?_ (fun hd hn => ?_) ?_ (TCPServer.tokens_exec_steady ht hi hsteady)
  · rw [TCPServer.conns_exec, Function.update_self, hst]
  · rw [TCPServer.conns_exec, Function.update_self]
    exact hsteady.silent hd hn
  · rw [TCPServer.owner_exec]

/-- The loop runs the first token of `c`. -/
theorem Doom.exec_token (hf : Doom cfg s i.conn f) (hfree : s.Free cfg l)
    (ht : (s.server.loops l).todo = i :: rest) (hi : i.isToken = true) :
    Doom cfg { s with server := s.server.exec cfg l i rest r w } i.conn f.next ∧
      f.next.past = f.past ++ (i.lifeEvent (s.server.conns i.conn).state).toList := by
  obtain ⟨hl, hhead⟩ := hf.fated.head hfree ht hi
  have hmem : i ∈ f.tokens i.conn := hhead ▸ List.mem_cons_self
  have hexec : ∀ m, (s.server.exec cfg l i rest r w).tokens m i.conn = _ :=
    TCPServer.tokens_exec_token
      (fun d hd => by rcases Fate.mem_cases hmem with h | h | h | h <;> simp [hd] at h)
      (fun d hd => by rcases Fate.mem_cases hmem with h | h | h | h <;> simp [hd] at h)
  have htok : ∀ m, Teardown.tokens cfg { s with server := s.server.exec cfg l i rest r w } m
      i.conn = if m = s.server.owner i.conn then (s.server.goesOn r w i).filter Item.isToken ++
        (s.server.later l rest i.conn).filter Item.isToken else [] := by
    intro m
    have hm := hf.fated.tokens m
    rw [← hl] at hm ⊢
    by_cases hml : m = l
    · subst hml
      rw [Teardown.tokens, hexec, if_pos rfl, if_pos rfl, hfree.inline_nil, List.nil_append]
    · rw [if_neg hml] at hm
      rw [if_neg hml, Teardown.tokens, hexec, if_neg hml]
      exact hm
  obtain ⟨hfated, hpast⟩ := hf.fated.advance hhead (by simp) (by simp) htok
  refine ⟨⟨hfated, ?_, fun hb => ?_, fun he => ?_⟩, hpast⟩
  · rw [Fate.asked_next hhead]
    exact hf.asked
  · -- the acceptor's loop has no token of its own for it
    have hnil := (hf.base (by simpa using hb)).2
    rw [← (hl.trans (by simpa using hb) : l = cfg.loop), TCPServer.tokens_of_todo ht hi] at hnil
    cases hnil
  · obtain rfl := hf.exited (by simpa using he)
    cases hhead

/-- The loop runs an item of another connection. -/
theorem Doom.exec_of_ne (hf : Doom cfg s c f) (ht : (s.server.loops l).todo = i :: rest)
    (hc : i.conn ≠ c) : Doom cfg { s with server := s.server.exec cfg l i rest r w } c f := by
  have hk : TCPServer.Keeps cfg s.server (s.server.exec cfg l i rest r w) c .up :=
    TCPServer.keeps_exec_of_ne ht hc
  refine hf.keeps ?_ (fun _ hn => ?_) ?_ hk.tokens
  · rw [TCPServer.conns_exec, Function.update_of_ne (Ne.symm hc)]
  · rwa [TCPServer.conns_exec, Function.update_of_ne (Ne.symm hc)]
  · rw [TCPServer.owner_exec]

theorem doom_exec (hf : Doom cfg s c f) (hfree : s.Free cfg l)
    (ht : (s.server.loops l).todo = i :: rest)
    (hcalm : i.conn = c → ¬ Closes (s.server.conns i.conn).state r i) :
    ∃ f', Doom cfg { s with server := s.server.exec cfg l i rest r w } c f' ∧
      f'.past = f.past ++
        (if i.conn = c then i.lifeEvent (s.server.conns i.conn).state else none).toList := by
  by_cases hc : i.conn = c
  · subst hc
    rw [if_pos rfl]
    cases hi : i.isToken with
    | false =>
      have hev : i.lifeEvent (s.server.conns i.conn).state = none := by
        cases i <;> first | rfl | cases hi
      exact ⟨f, hf.exec_steady ht hi (hcalm rfl), by rw [hev]; simp⟩
    | true => exact ⟨f.next, hf.exec_token hfree ht hi⟩
  · rw [if_neg hc]
    exact ⟨f, hf.exec_of_ne ht hc, by simp⟩

/-- The destructor's thread runs the first token of `c`. -/
theorem Doom.inline_self (hf : Doom cfg s i.conn f) (hi : s.inline = i :: rest) :
    Doom cfg (s.runInline i rest r w) i.conn f.next ∧
      f.next.past = f.past ++ (i.lifeEvent (s.server.conns i.conn).state).toList := by
  have hserver : ∀ l, (s.runInline i rest r w).server.tokens l i.conn = s.server.tokens l i.conn :=
    fun _ => rfl
  have hbase := hf.fated.tokens cfg.loop
  rw [Teardown.tokens, if_pos rfl, hi, List.filter_cons_of_pos (by simp), List.cons_append] at hbase
  have ho : cfg.loop = s.server.owner i.conn := by
    by_contra hne
    rw [if_neg hne] at hbase
    cases hbase
  rw [if_pos ho] at hbase
  obtain ⟨hage, hnil⟩ := hf.base ho.symm
  have hhead := hbase.symm
  have hgoes : ∀ j ∈ s.server.goesOn r w i, j.isToken = true ∧ j.conn = i.conn := by
    intro j hj
    refine ⟨TCPServer.isToken_goesOn ?_ hj, TCPServer.conn_goesOn hj⟩
    have hmem : i ∈ f.tokens i.conn := hhead ▸ List.mem_cons_self
    rcases Fate.mem_cases hmem with h | h | h | h <;> rw [h] <;> rfl
  have htok : ∀ m, (s.runInline i rest r w).tokens cfg m i.conn =
      if m = s.server.owner i.conn then (s.server.goesOn r w i).filter Item.isToken ++
        (rest.filter (·.conn = i.conn) ++ s.server.tokens cfg.loop i.conn) else [] := by
    intro m
    have hm := hf.fated.tokens m
    rw [← ho] at hm ⊢
    by_cases hml : m = cfg.loop
    · rw [Teardown.tokens, if_pos hml, if_pos hml, hserver, hml]
      change (s.server.goesOn r w i ++ rest).filter _ ++ _ = _
      rw [List.filter_append, List.filter_eq_self.mpr fun j hj => by simp [(hgoes j hj).2],
        List.filter_eq_self.mpr fun j hj => (hgoes j hj).1, List.append_assoc]
    · rw [Teardown.tokens, if_neg hml, if_neg hml, hserver]
      rw [Teardown.tokens, if_neg hml, if_neg hml] at hm
      exact hm
  obtain ⟨hfated, hpast⟩ := hf.fated.advance (t := s.runInline i rest r w) (r := r) (w := w)
    hhead (by simp [runInline, TCPServer.setConn]) rfl htok
  refine ⟨⟨hfated, ?_, fun _ => ⟨hage.trans f.age_le_next, hnil⟩, fun he => ?_⟩, hpast⟩
  · rw [Fate.asked_next hhead]
    exact hf.asked
  · obtain rfl := hf.exited he
    cases hhead

theorem Doom.inline_of_ne (hf : Doom cfg s c f) (hi : s.inline = i :: rest) (hc : i.conn ≠ c) :
    Doom cfg (s.runInline i rest r w) c f := by
  have hconn : (s.runInline i rest r w).server.conns c = s.server.conns c := by
    simp [runInline, TCPServer.setConn, Ne.symm hc]
  have hfilter : (s.runInline i rest r w).inline.filter (·.conn = c) =
      s.inline.filter (·.conn = c) := by
    change (s.server.goesOn r w i ++ rest).filter _ = _
    rw [hi, List.filter_append, List.filter_cons_of_neg (by simpa using hc),
      List.filter_eq_nil_iff.mpr fun j hj => by simp [TCPServer.conn_goesOn hj, hc],
      List.nil_append]
  refine ⟨hf.fated.keeps (by rw [hconn]) (fun _ hn => ?_) rfl fun m => ?_, hf.asked, hf.base,
    hf.exited⟩
  · rwa [hconn]
  · rw [Teardown.tokens, hfilter]
    rfl

theorem doom_inline (hf : Doom cfg s c f) (hi : s.inline = i :: rest) :
    ∃ f', Doom cfg (s.runInline i rest r w) c f' ∧ f'.past = f.past ++
      (if i.conn = c then i.lifeEvent (s.server.conns i.conn).state else none).toList := by
  by_cases hc : i.conn = c
  · subst hc
    rw [if_pos rfl]
    exact ⟨f.next, hf.inline_self hi⟩
  · rw [if_neg hc]
    exact ⟨f, hf.inline_of_ne hi hc, by simp⟩

theorem tokens_destroy {d : Nat} (hi : s.inline = [])
    (hb : s.server.owner d = cfg.loop → d = c → s.server.tokens cfg.loop c = []) (m : L) :
    (s.destroy cfg d).tokens cfg m c = s.tokens cfg m c ++
      if m = s.server.owner d ∧ d = c then [.connectDestroyed d] else [] := by
  have hs : s.tokens cfg m c = s.server.tokens m c := by
    rw [Teardown.tokens, hi]
    split_ifs <;> rfl
  rw [hs, destroy]
  split_ifs with hbase hm hm
  · obtain ⟨rfl, rfl⟩ := hm
    rw [Teardown.tokens, if_pos hbase]
    simp [Item.conn, hbase, hb hbase rfl]
  · rw [Teardown.tokens, List.append_nil]
    split_ifs with hml
    · have hdc : d ≠ c := fun hdc => hm ⟨hml.trans hbase.symm, hdc⟩
      simp [Item.conn, hdc]
    · rfl
  · obtain ⟨rfl, rfl⟩ := hm
    have hone : ([.connectDestroyed d].filter (·.conn = d)).filter Item.isToken =
        [.connectDestroyed d] := by
      simp [Item.conn, Item.isToken]
    rw [Teardown.tokens, if_neg hbase, List.nil_append, TCPServer.tokens_push, if_pos rfl, hone]
  · have hin : (if m = cfg.loop then s.inline.filter (·.conn = c) else []) = [] := by
      rw [hi]
      split_ifs <;> rfl
    rw [Teardown.tokens, hin, List.nil_append, TCPServer.tokens_push]
    split_ifs with hml
    · have hdc : d ≠ c := fun hdc => hm ⟨hml, hdc⟩
      simp [Item.conn, hdc]
    · rfl

theorem destroy_frame (cfg : ServerConfig L) (s : Teardown L) (d : Nat) :
    (s.destroy cfg d).dtor = s.dtor ∧ (s.destroy cfg d).server.conns = s.server.conns ∧
      (s.destroy cfg d).server.owner = s.server.owner ∧ (s.destroy cfg d).exited = s.exited := by
  unfold destroy
  split_ifs <;> exact ⟨rfl, rfl, rfl, rfl⟩

/-- Nothing is queued at the acceptor's loop for a connection of its own. -/
theorem server_tokens_destroy {d : Nat} (ho : s.server.owner c = cfg.loop)
    (hnil : s.server.tokens cfg.loop c = []) :
    (s.destroy cfg d).server.tokens cfg.loop c = [] := by
  unfold destroy
  split_ifs with hod
  · exact hnil
  · have hdc : d ≠ c := fun hdc => hod (hdc ▸ ho)
    rw [TCPServer.tokens_push]
    simpa [Item.conn, hdc] using hnil

/-- The destructor comes to `d`. -/
theorem doom_destroy {d : Nat} {cs : List Nat} (hf : Doom cfg s c f) (hd : s.dtor = some (d :: cs))
    (hnd : (d :: cs).Nodup) (hi : s.inline = []) :
    ∃ f', Doom cfg ({ s with dtor := some cs }.destroy cfg d) c f' ∧ f'.past = f.past := by
  obtain ⟨hdtor, hconns, howner, hexited⟩ := destroy_frame cfg { s with dtor := some cs } d
  have htok : ∀ m, ({ s with dtor := some cs }.destroy cfg d).tokens cfg m c = _ :=
    tokens_destroy hi fun ho hdc => (hf.base (hdc ▸ ho)).2
  have hleft : ({ s with dtor := some cs }.destroy cfg d).Left c ↔ c ∈ cs := by
    simp [Left, hdtor]
  have hserver : s.server.owner c = cfg.loop →
      ({ s with dtor := some cs }.destroy cfg d).server.tokens cfg.loop c = [] :=
    fun ho => server_tokens_destroy (s := { s with dtor := some cs }) ho (hf.base ho).2
  -- what does not depend on whether `c` is the connection visited
  have hdoom : ∀ f' : Fate, f'.state = f.state → f'.age = f.age →
      (∀ m, s.tokens cfg m c ++
          (if m = s.server.owner d ∧ d = c then [.connectDestroyed d] else []) =
        if m = s.server.owner c then f'.tokens c else []) →
      (f'.asked = false ↔ c ∈ cs) → (f = .gone → f' = .gone) →
      Doom cfg ({ s with dtor := some cs }.destroy cfg d) c f' := by
    intro f' hst hage htokens hasked hgone
    refine ⟨⟨?_, ?_, fun m => ?_⟩, hasked.trans hleft.symm, fun ho => ?_, fun he => ?_⟩
    · rw [hconns, hst]
      exact hf.fated.state
    · rw [hconns, hst]
      exact hf.fated.silent
    · rw [htok, howner]
      exact htokens m
    · rw [howner] at ho
      exact ⟨hage ▸ (hf.base ho).1, hserver ho⟩
    · rw [hexited, howner] at he
      exact hgone (hf.exited he)
  by_cases hc : d = c
  · subst hc
    have hasked : f.asked = false := hf.asked.mpr ⟨_, hd, by simp⟩
    refine ⟨f.ask, hdoom _ f.state_ask f.age_ask (fun m => ?_) ?_ fun hgone => ?_,
      by rw [Fate.past, Fate.past, Fate.age_ask]⟩
    · rw [hf.fated.tokens m, Fate.tokens_ask hasked]
      by_cases hmo : m = s.server.owner d <;> simp [hmo]
    · rw [Fate.asked_ask]
      simpa using (List.nodup_cons.mp hnd).1
    · rw [hgone] at hasked
      cases hasked
  · refine ⟨f, hdoom f rfl rfl (fun m => ?_) ?_ id, rfl⟩
    · rw [if_neg (fun h => hc h.2), List.append_nil]
      exact hf.fated.tokens m
    · rw [hf.asked, Left, hd]
      simp [Ne.symm hc]

/-- A loop that leaves `loop()` has nothing to do for a connection that was visited. -/
theorem gone_of_exit (hf : Doom cfg s c f) (hok : TCPServer.LoopOk (s.server.loops l))
    (hc : c ∈ s.doomed) (hl : s.server.owner c = l) (hq : Quitting cfg s l)
    (hph : (s.server.loops l).core.phase = .poll) (ht : s.tested l = false) : f = .gone := by
  have hwait : (s.server.loops l).core.waiting = (s.server.loops l).core.pendingFunctors := by
    rw [EventLoop.waiting, hok.settled (by simp [hph]), List.nil_append]
  have hfirst : ∀ j ∈ f.tokens c, j.isFunctor = true ∧ j ≠ .connectDestroyed c := by
    intro j hj
    have htok := hf.fated.tokens l
    rw [if_pos hl.symm, Teardown.tokens, if_neg hq.base, List.nil_append] at htok
    have hmem : j ∈ s.server.items l c := (List.mem_filter.mp (htok ▸ hj)).1
    refine ⟨hok.isFunctor_of_idle (hok.idle (.inl hph)) hmem, ?_⟩
    rintro rfl
    rw [TCPServer.items, hok.idle (.inl hph), List.nil_append, hwait] at hmem
    rcases hq.ahead ⟨c, hc, (List.mem_filter.mp hmem).1⟩ with ha | ha | ⟨-, ha⟩
    · simp [hph] at ha
    · simp [hph] at ha
    · simp [ht] at ha
  have hasked : f.asked = true := by
    by_contra hne
    obtain ⟨cs, hcs, hm⟩ := hf.asked.mp (by simpa using hne)
    rw [hq.dtor] at hcs
    obtain rfl := Option.some.inj hcs
    cases hm
  cases f with
  | connecting asked | established asked | up asked =>
    obtain rfl : asked = true := hasked
    exact absurd rfl (hfirst (.connectDestroyed c) (by simp [Fate.tokens])).2
  | destroyed =>
    exact absurd (hfirst (.remove c) (by simp [Fate.tokens])).1 (by simp [Item.isFunctor])
  | told =>
    exact absurd (hfirst (.remove c) (by simp [Fate.tokens])).1 (by simp [Item.isFunctor])
  | gone => rfl

/-- What the destructor does for one connection is nothing to the others. -/
theorem at_destroy {d : Nat} {st : Stage} (hat : TCPServer.At cfg s.server c st) (hc : d ≠ c) :
    TCPServer.At cfg (s.destroy cfg d).server c st := by
  unfold destroy
  split_ifs
  · exact hat
  · refine hat.keeps (.of_items Iff.rfl rfl rfl rfl id ?_ fun m => by rw [TCPServer.active_push])
    intro m
    rw [TCPServer.items_push]
    split_ifs <;> simp [Item.conn, hc]

theorem at_inline {st : Stage} (hat : TCPServer.At cfg s.server c st) (hc : i.conn ≠ c) :
    TCPServer.At cfg (s.runInline i rest r w).server c st := by
  refine hat.keeps (.of_items Iff.rfl ?_ rfl rfl ?_ (fun _ => rfl) fun _ => le_rfl)
  · simp [runInline, TCPServer.setConn, Ne.symm hc]
  · refine Or.imp_left fun hk => ?_
    simp only [runInline] at hk
    split_ifs at hk
    · rwa [Function.update_of_ne (Ne.symm hc)] at hk
    · exact hk

/-- A connection of the acceptor's loop that the destructor finds is up. -/
theorem not_rising {st : Stage} (hat : TCPServer.At cfg s.server c st)
    (hok : TCPServer.Ok cfg s.server) (htodo : Callable (s.server.loops cfg.loop).todo)
    (ho : s.server.owner c = cfg.loop) : st ≠ .connecting ∧ st ≠ .established := by
  have hmem : ∀ j, j ∈ s.server.tokens cfg.loop c →
      j ∈ (s.server.loops cfg.loop).todo ∨ j ∈ (s.server.loops cfg.loop).core.waiting := by
    intro j hj
    exact List.mem_append.mp (List.mem_filter.mp (List.mem_filter.mp hj).1).1
  constructor
  · rintro rfl
    rcases hmem (.connectEstablished c) (by simp [hat.tokens, Stage.place, ho, Stage.tokens])
      with hj | hj
    · exact (htodo c).1 hj
    · exact hok.base c hj
  · rintro rfl
    rcases hmem (.connectionCallback c) (by simp [hat.tokens, Stage.place, ho, Stage.tokens])
      with hj | hj
    · exact (htodo c).2 hj
    · exact absurd ((hok.loops cfg.loop).functors _ hj) (by simp [Item.isFunctor])

/-- A connection that the destructor finds, in a state it is meant for. -/
theorem doom_destruct {st : Stage} {cs : List Nat} (hat : TCPServer.At cfg s.server c st)
    (hok : TCPServer.Ok cfg s.server) (hin : s.inline = [])
    (hex : s.exited (s.server.owner c) = false)
    (htodo : Callable (s.server.loops cfg.loop).todo) (hc : c ∈ cs)
    (hlisted : s.server.connections (connName cfg c) = some c)
    (hcalm : (s.server.conns c).state = .kConnecting ∨ (s.server.conns c).state = .kConnected) :
    ∃ f, Doom cfg { s with dtor := some cs, doomed := cs } c f ∧ f.past = st.past := by
  have hrising := not_rising hat hok htodo
  have hst := hat.state
  have htok : ∀ l, Teardown.tokens cfg { s with dtor := some cs, doomed := cs } l c =
      if l = st.place cfg.loop (s.server.owner c) then st.tokens c else [] := by
    intro l
    rw [← hat.tokens, Teardown.tokens, hin]
    split_ifs <;> rfl
  have hdoom : ∀ f : Fate, f.asked = false → (s.server.conns c).state = f.state →
      f.state ≠ .kDisconnected → f.tokens c = st.tokens c →
      st.place cfg.loop (s.server.owner c) = s.server.owner c →
      (s.server.owner c = cfg.loop → 3 ≤ f.age ∧ s.server.tokens cfg.loop c = []) →
      Doom cfg { s with dtor := some cs, doomed := cs } c f := by
    intro f hasked hstate hne htokens hplace hbase
    refine ⟨⟨hstate, fun hd => absurd hd hne, fun l => ?_⟩, ?_, hbase, fun he => ?_⟩
    · rw [htok, hplace, htokens]
    · exact iff_of_true hasked ⟨cs, rfl, hc⟩
    · rw [hex] at he
      cases he
  have hlist := hat.entry
  rw [hlisted] at hlist
  cases st with
  | connecting =>
    exact ⟨.connecting false, hdoom _ rfl hst (by simp [Fate.state]) rfl rfl
      fun ho => absurd rfl (hrising ho).1, rfl⟩
  | established =>
    exact ⟨.established false, hdoom _ rfl hst (by simp [Fate.state]) rfl rfl
      fun ho => absurd rfl (hrising ho).2, rfl⟩
  | up =>
    have hup : (s.server.conns c).state = .kConnected := by
      rcases hst with hst | hst
      · exact hst
      · simp [hst] at hcalm
    refine ⟨.up false, hdoom _ rfl hup (by simp [Fate.state]) rfl rfl
      fun ho => ⟨by simp [Fate.age], ?_⟩, rfl⟩
    rw [hat.tokens]
    exact ite_self []
  | closing | down | closed =>
    rw [show (s.server.conns c).state = .kDisconnected from hst] at hcalm
    simp at hcalm
  | absent | removed | destroyed | gone => cases hlist

omit [DecidableEq L] in
theorem ahead_congr (hph : (t.server.loops l).core.phase = (s.server.loops l).core.phase)
    (ht : t.tested l = s.tested l) (ha : s.Ahead l) : t.Ahead l := by
  unfold Ahead
  rw [hph, ht]
  exact ha

/-- A quiet step of the server brings no loop past its `swap` with a functor of the destructor
left in the queue. -/
theorem quitting_quiet {b : TCPServer.Label L} {u : TCPServer L} (hq : Quitting cfg s l)
    (hok : TCPServer.Ok cfg s.server) (hs : TCPServer.Step cfg s.server b u)
    (hb : b.isQuiet = true) {tested : L → Bool} {activeChannels : L → List Nat}
    {currentActiveChannel : L → Option Nat}
    (htested : tested l = s.tested l ∨ (u.loops l).core.phase = .dispatch) :
    Quitting cfg { s with server := u, tested, activeChannels, currentActiveChannel } l := by
  refine ⟨hq.base, hq.dtor, ?_⟩
  rintro ⟨c, hc, hx⟩
  obtain ⟨hold, hph⟩ := TCPServer.queued_step hs hb hok.posting hx
  have ha := hq.ahead ⟨c, hc, hold⟩
  rcases htested with htested | hd
  · rcases hph with hph | hph | hph | hph
    · exact ahead_congr hph htested ha
    · rcases ha with ha | ha | ⟨ha, -⟩ <;> simp [hph] at ha
    · exact .inl hph
    · exact .inr (.inl hph)
  · exact .inl hd

end Teardown

end Lute
