import Lute.Polaris.ServerLoops

/-! What each step means to one connection: it stays in its stage, or goes to the next. -/
namespace Lute

open TCPConnection (Effect Steady)

namespace TCPServer

variable {L : Type} {cfg : ServerConfig L} {s t : TCPServer L} {l : L} {c : Nat}
  {i j : Item} {is rest todo : List Item} {r : ReadResult} {w : WriteResult}
  {core : EventLoop Item} {active : List (Nat × BitVec 32)} {st : Stage}

/-- `t` shows the connection `c` nothing that takes it out of the stage `st`. -/
structure Keeps (cfg : ServerConfig L) (s t : TCPServer L) (c : Nat) (st : Stage) : Prop where
  nextConnId : 1 ≤ c ∧ c < t.nextConnId ↔ 1 ≤ c ∧ c < s.nextConnId
  conns : t.conns c = s.conns c ∨ st.isOut = true ∧ ∃ es, Steady (s.conns c) (t.conns c, es)
  owner : t.owner c = s.owner c
  entry : t.connections (connName cfg c) = s.connections (connName cfg c)
  out : t.Out c → s.Out c ∨ st.isOut = true
  tokens : ∀ l, t.tokens l c = s.tokens l c
  others : ∀ l, ∀ i ∈ t.items l c, i.isToken = false →
    i ∈ s.items l c ∨ st.isOut = true ∧ l = s.owner c
  readers : ∀ l, t.readers l c ≤ s.readers l c

theorem Keeps.of_items (hid : 1 ≤ c ∧ c < t.nextConnId ↔ 1 ≤ c ∧ c < s.nextConnId)
    (hc : t.conns c = s.conns c) (ho : t.owner c = s.owner c)
    (he : t.connections (connName cfg c) = s.connections (connName cfg c))
    (hout : t.Out c → s.Out c) (hi : ∀ l, t.items l c = s.items l c)
    (ha : ∀ l, (t.loops l).active.countP (·.1 = c) ≤ (s.loops l).active.countP (·.1 = c)) :
    Keeps cfg s t c st where
  nextConnId := hid
  conns := .inl hc
  owner := ho
  entry := he
  out h := .inl (hout h)
  tokens l := by simp only [TCPServer.tokens, hi]
  others l i hm _ := .inl (hi l ▸ hm)
  readers l := by
    simp only [TCPServer.readers, hi]
    exact Nat.add_le_add_left (ha l) _

variable [DecidableEq L]

theorem Stage.admits_steady {x y : TCPConnection} {es : List Effect} (h : Steady x (y, es))
    (hx : st.Admits x.state) (hout : st.isOut = true) : st.Admits y.state := by
  rcases h.state with hs | ⟨hs, hs'⟩
  · exact hs ▸ hx
  · cases st <;> simp_all [Stage.Admits, Stage.isOut]

theorem Stage.eq_up {state : StateE} (hout : st.isOut = true) (h : st.Admits state)
    (hne : state ≠ .kDisconnected) : st = .up := by
  cases st <;> simp_all [Stage.isOut, Stage.Admits]

theorem Stage.established_mem_past (hout : st.isOut = true) :
    .established .kConnecting ∈ st.past := by
  revert hout
  cases st <;> decide

theorem At.keeps (h : At cfg s c st) (hk : Keeps cfg s t c st) : At cfg t c st where
  fresh := by rw [hk.nextConnId, h.fresh]
  state := by
    rcases hk.conns with he | ⟨hout, es, hs⟩
    · exact he ▸ h.state
    · exact Stage.admits_steady hs h.state hout
  reading hw := by
    rcases hk.conns with he | ⟨-, es, hs⟩
    · exact he ▸ h.reading hw
    · rw [hs.reading, h.reading hw]
  silent hw := by
    rcases hk.conns with he | ⟨hout, es, hs⟩
    · exact he ▸ h.silent hw
    · refine hs.silent ?_ (h.silent hw)
      have hst := h.state
      cases st <;> simp_all [Stage.Admits, Stage.isOut, Stage.watched]
  entry := by rw [hk.entry, h.entry]
  tokens l := by rw [hk.tokens, hk.owner, h.tokens]
  out ho := (hk.out ho).elim h.out id
  others l i hi ht := by
    rw [hk.owner]
    exact (hk.others l i hi ht).elim (fun hm => h.others l i hm ht) id
  readers l := by
    rw [hk.owner]
    exact (hk.readers l).trans (h.readers l)

/-- The parts of a server that executing an item of another connection leaves alone. -/
theorem keeps_exec_of_ne (ht : (s.loops l).todo = i :: rest) (hc : i.conn ≠ c) :
    Keeps cfg s (s.exec cfg l i rest r w) c st := by
  have hn : connName cfg c ≠ connName cfg i.conn := fun h => hc (connName_inj h).symm
  refine Keeps.of_items ?_ ?_ ?_ ?_ ?_ ?_ ?_
  · rw [nextConnId_exec]
  · rw [conns_exec, Function.update_of_ne (Ne.symm hc)]
  · rw [owner_exec]
  · rw [connections_exec]
    split_ifs
    · exact Function.update_of_ne hn none s.connections
    · rfl
  · intro h
    refine (out_exec h).resolve_right ?_
    rintro rfl
    exact hc rfl
  · intro m
    rw [exec, items_serve_of_ne hc, items_perform_of_ne ht hc]
  · intro m
    rw [active_exec]

theorem tokens_perform_self (m : L) :
    (s.perform l i rest r w).tokens m i.conn =
      if m = l then
        (s.goesOn r w i).filter Item.isToken ++ (s.later l rest i.conn).filter Item.isToken
      else s.tokens m i.conn := by
  have hq : (if m = s.owner i.conn then s.handsOver r w i else []).filter Item.isToken = [] := by
    refine List.filter_eq_nil_iff.mpr fun j hj => ?_
    split_ifs at hj
    · simp [(plain_handsOver hj).2]
    · cases hj
  rw [tokens, items_perform_self, List.filter_append, hq, List.append_nil]
  split_ifs
  · rw [List.filter_append]
  · rfl

theorem readers_perform_self (m : L) :
    (s.perform l i rest r w).readers m i.conn =
      if m = l then
        (s.later l rest i.conn).countP Item.isReader + (s.loops l).active.countP (·.1 = i.conn)
      else s.readers m i.conn := by
  have hn : (s.goesOn r w i).countP Item.isReader = 0 :=
    List.countP_eq_zero.mpr fun j hj => by simp [(ready_goesOn hj).1]
  have hq : (if m = s.owner i.conn then s.handsOver r w i else []).countP Item.isReader = 0 := by
    refine List.countP_eq_zero.mpr fun j hj => ?_
    split_ifs at hj
    · simp [Item.isReader_of_isFunctor (plain_handsOver hj).1]
    · cases hj
  rw [readers, items_perform_self, active_perform, List.countP_append, hq, Nat.add_zero]
  split_ifs with hm
  · rw [List.countP_append, hn, Nat.zero_add, hm]
  · rfl

/-- An item without a token finds the connection out, at its own loop. -/
theorem At.isOut_of_todo (h : At cfg s i.conn st) (ht : (s.loops l).todo = i :: rest)
    (hi : i.isToken = false) : st.isOut = true ∧ l = s.owner i.conn :=
  h.others l i (by simp [items_of_todo ht]) hi

/-- An item that neither opens nor closes leaves the tokens alone. -/
theorem tokens_exec_steady (ht : (s.loops l).todo = i :: rest) (hi : i.isToken = false)
    (hs : Steady (s.conns i.conn) ((s.conns i.conn).perform r w i)) (m : L) :
    (s.exec cfg l i rest r w).tokens m i.conn = s.tokens m i.conn := by
  have hn : ∀ j ∈ s.goesOn r w i, j.isToken = false := by
    intro j hj
    obtain ⟨e, he, hje⟩ := List.mem_filterMap.mp hj
    rw [Item.isToken_next hje, hs.effects e he]
  have hexec : s.exec cfg l i rest r w = s.perform l i rest r w := serve_of_isToken_eq_false hi
  rw [hexec, tokens_perform_self]
  split_ifs with hm
  · rw [List.filter_eq_nil_iff.mpr (by simpa using hn), hm, tokens, items_of_todo ht]
    simp [hi]
  · rfl

theorem keeps_exec_steady (h : At cfg s i.conn st) (ht : (s.loops l).todo = i :: rest)
    (hi : i.isToken = false) (hs : Steady (s.conns i.conn) ((s.conns i.conn).perform r w i)) :
    Keeps cfg s (s.exec cfg l i rest r w) i.conn st := by
  obtain ⟨hout, hl⟩ := h.isOut_of_todo ht hi
  have hexec : s.exec cfg l i rest r w = s.perform l i rest r w := serve_of_isToken_eq_false hi
  refine ⟨by rw [nextConnId_exec], .inr ⟨hout, ((s.conns i.conn).perform r w i).2, ?_⟩,
    by rw [owner_exec], ?_, fun _ => .inr hout, tokens_exec_steady ht hi hs, ?_, ?_⟩
  · simpa using hs
  · rw [connections_exec, if_neg]
    intro hrem
    rw [hrem] at hi
    cases hi
  · intro m j hj hjt
    rw [hexec, items_perform_self] at hj
    by_cases hm : m = l
    · exact .inr ⟨hout, hm.trans hl⟩
    · rw [if_neg hm, if_neg (hl ▸ hm), List.append_nil] at hj
      exact .inl hj
  · intro m
    rw [hexec, readers_perform_self]
    split_ifs with hm
    · rw [hm, readers, items_of_todo ht]
      simp [List.countP_cons]
    · exact le_rfl

/-- The connection closes. -/
theorem at_exec_close (h : At cfg s i.conn .up) (ht : (s.loops l).todo = i :: rest)
    (hi : i.isToken = false) (hp : (s.conns i.conn).perform r w i = (s.conns i.conn).handleClose)
    (hr : (s.later l rest i.conn).countP Item.isReader +
      (s.loops l).active.countP (·.1 = i.conn) = 0) :
    At cfg (s.exec cfg l i rest r w) i.conn .closing := by
  obtain ⟨-, hl⟩ := h.isOut_of_todo ht hi
  have hexec : s.exec cfg l i rest r w = s.perform l i rest r w := serve_of_isToken_eq_false hi
  have hn : s.goesOn r w i = [.connectionCallback i.conn, .closeCallback i.conn] := by
    rw [goesOn, hp]
    rfl
  have hconn : (s.exec cfg l i rest r w).conns i.conn = (s.conns i.conn).handleClose.1 := by
    rw [conns_exec, Function.update_self, hp]
  refine ⟨?_, by rw [hconn]; rfl, by simp [Stage.watched], fun _ => by rw [hconn]; rfl, ?_, ?_,
    fun _ => rfl, ?_, ?_⟩
  · rw [nextConnId_exec, ← h.fresh]
    simp
  · rw [connections_exec, if_neg, h.entry]
    · rfl
    · intro hrem
      rw [hrem] at hi
      cases hi
  · intro m
    have htail : (s.later l rest i.conn).filter Item.isToken = [] := by
      have := h.tokens l
      rw [tokens, items_of_todo ht, List.filter_cons_of_neg (by simp [hi])] at this
      rw [this, Stage.tokens, ite_self]
    rw [hexec, tokens_perform_self, hn, htail, h.tokens, owner_perform, Stage.place, ← hl]
    · by_cases hm : m = l <;> simp [hm, Stage.place, Stage.tokens, Item.isToken]
    · simp
  · intro m j hj hjt
    rw [hexec, items_perform_self] at hj
    refine ⟨rfl, ?_⟩
    rw [owner_exec]
    by_cases hm : m = l
    · exact hm.trans hl
    · rw [if_neg hm, if_neg (hl ▸ hm), List.append_nil] at hj
      exact (h.others m j hj hjt).2
  · intro m
    rw [hexec, readers_perform_self]
    split_ifs with hm hst
    · simp at hst
    · exact hr.le
    · simp_all
    · refine (h.readers m).trans ?_
      rw [if_neg]
      rintro ⟨-, hm'⟩
      exact hm (hm'.trans hl.symm)

omit [DecidableEq L] in
theorem tokens_of_todo (ht : (s.loops l).todo = i :: rest) (hi : i.isToken = true) :
    s.tokens l i.conn = i :: (s.later l rest i.conn).filter Item.isToken := by
  rw [TCPServer.tokens, items_of_todo ht, List.filter_cons_of_pos hi]

/-- A token in hand is the one the stage is waiting for. -/
theorem At.token_of_todo (h : At cfg s i.conn st) (ht : (s.loops l).todo = i :: rest)
    (hi : i.isToken = true) : l = st.place cfg.loop (s.owner i.conn) ∧
      st.tokens i.conn = i :: (s.later l rest i.conn).filter Item.isToken := by
  have htok := h.tokens l
  rw [tokens_of_todo ht hi] at htok
  split_ifs at htok with hl
  exact ⟨hl, htok.symm⟩

/-- What the server itself adds for the connection is a token. -/
theorem items_serve (cfg : ServerConfig L) (s : TCPServer L) (l m : L) (c : Nat) (i : Item) :
    ∃ fs bs, (s.serve cfg l c i).items m c = fs ++ s.items m c ++ bs ∧
      ∀ j ∈ fs ++ bs, j.isToken = true := by
  cases i with
  | closeCallback =>
    by_cases hl : l = cfg.loop
    · refine ⟨if m = l then [.removeConnectionInLoop c] else [], [], ?_, ?_⟩
      · rw [serve, if_pos hl, items_setLoop]
        split_ifs with hm
        · simp [hm, items, Item.conn]
        · simp
      · split_ifs <;> simp [Item.isToken]
    · refine ⟨[], if m = cfg.loop then [.removeConnectionInLoop c] else [], ?_, ?_⟩
      · rw [serve, if_neg hl, items_push]
        simp [Item.conn]
      · split_ifs <;> simp [Item.isToken]
  | removeConnectionInLoop =>
    refine ⟨[], if m = s.owner c then [.connectDestroyed c] else [], ?_, ?_⟩
    · rw [serve, items_push]
      simp [Item.conn, items]
    · split_ifs <;> simp [Item.isToken]
  | _ => exact ⟨[], [], by simp [serve, items], by simp⟩

theorem others_exec_token (ht : (s.loops l).todo = i :: rest) (hi : i.isToken = true) {m : L}
    (hj : j ∈ (s.exec cfg l i rest r w).items m i.conn) (hjt : j.isToken = false) :
    j ∈ s.items m i.conn := by
  obtain ⟨fs, bs, he, htok⟩ := items_serve cfg (s.perform l i rest r w) l m i.conn i
  rw [exec, he, items_perform_self, handsOver_of_isToken hi, ite_self, List.append_nil] at hj
  have hnot : ∀ {js : List Item}, (∀ k ∈ js, k.isToken = true) → j ∉ js := by
    intro js hjs hm
    simp [hjs j hm] at hjt
  simp only [List.mem_append] at hj
  rcases hj with (hj | hj) | hj
  · exact absurd (List.mem_append_left bs hj) (hnot htok)
  · split_ifs at hj with hm
    · rw [hm, items_of_todo ht]
      refine List.mem_cons_of_mem _ ((List.mem_append.mp hj).resolve_left ?_)
      exact hnot fun k hk => isToken_goesOn hi hk
    · exact hj
  · exact absurd (List.mem_append_right fs hj) (hnot htok)

theorem readers_exec_token (ht : (s.loops l).todo = i :: rest) (m : L) :
    (s.exec cfg l i rest r w).readers m i.conn ≤ s.readers m i.conn := by
  obtain ⟨fs, bs, he, htok⟩ := items_serve cfg (s.perform l i rest r w) l m i.conn i
  have hzero : ∀ js : List Item, (∀ k ∈ js, k.isToken = true) → js.countP Item.isReader = 0 :=
    fun js hjs => List.countP_eq_zero.mpr fun k hk => by simp [isReader_of_isToken (hjs k hk)]
  have hf := hzero fs fun k hk => htok k (List.mem_append_left bs hk)
  have hb := hzero bs fun k hk => htok k (List.mem_append_right fs hk)
  have hp : (s.perform l i rest r w).readers m i.conn = _ := readers_perform_self m
  rw [readers, active_perform] at hp
  rw [readers, active_exec, exec, he, List.countP_append, List.countP_append, hf, hb, Nat.zero_add,
    Nat.add_zero, hp]
  split_ifs with hm
  · rw [hm, readers, items_of_todo ht]
    exact Nat.add_le_add_right (List.Sublist.countP_le (List.sublist_cons_self _ _)) _
  · exact le_rfl

/-- Executing the token takes the connection to its next stage, once the connection itself, its
entry and its next token are right for it. -/
theorem At.advance {st' : Stage} (h : At cfg s i.conn st) (ht : (s.loops l).todo = i :: rest)
    (hi : i.isToken = true) (hst : st ≠ .absent ∧ st ≠ .up) (hst' : st' ≠ .absent)
    (hout : st.isOut = true ∨ i = .connectionCallback i.conn → st'.isOut = true)
    (hstate : st'.Admits ((s.conns i.conn).perform r w i).1.state)
    (hreading : st'.watched = true → ((s.conns i.conn).perform r w i).1.channel.isReading = true)
    (hsilent : st'.watched = false →
      ((s.conns i.conn).perform r w i).1.channel.isNoneEvent = true)
    (hentry : (s.exec cfg l i rest r w).connections (connName cfg i.conn) =
      if st'.listed then some i.conn else none)
    (htokens : ∀ m, (s.exec cfg l i rest r w).tokens m i.conn =
      if m = st'.place cfg.loop (s.owner i.conn) then st'.tokens i.conn else []) :
    At cfg (s.exec cfg l i rest r w) i.conn st' where
  fresh := by
    rw [nextConnId_exec, ← h.fresh]
    simp [hst.1, hst']
  state := by simpa using hstate
  reading := by simpa using hreading
  silent := by simpa using hsilent
  entry := hentry
  tokens := by simpa using htokens
  out ho := hout ((out_exec ho).imp_left h.out)
  others m j hj hjt := by
    obtain ⟨hso, hm⟩ := h.others m j (others_exec_token ht hi hj hjt) hjt
    exact ⟨hout (.inl hso), by rw [hm, owner_exec]⟩
  readers m := by
    have hr : (s.exec cfg l i rest r w).readers m i.conn ≤ _ :=
      (readers_exec_token ht m).trans (h.readers m)
    rw [if_neg (fun h => hst.2 h.1)] at hr
    exact hr.trans (Nat.zero_le _)

theorem At.tokens_perform (h : At cfg s i.conn st) (ht : (s.loops l).todo = i :: rest)
    (hi : i.isToken = true) (m : L) : (s.perform l i rest r w).tokens m i.conn =
      if m = st.place cfg.loop (s.owner i.conn) then
        (s.goesOn r w i).filter Item.isToken ++ (st.tokens i.conn).tail
      else [] := by
  obtain ⟨hl, htok⟩ := h.token_of_todo ht hi
  rw [tokens_perform_self, h.tokens, htok, ← hl]
  by_cases hm : m = l <;> simp [hm]

theorem tokens_serve_closeCallback {d : Nat} (hnil : ∀ m, s.tokens m c = []) (m : L) :
    (s.serve cfg l c (.closeCallback d)).tokens m c =
      if m = cfg.loop then [.removeConnectionInLoop c] else [] := by
  have hm := hnil m
  unfold tokens at hm ⊢
  simp only [serve]
  split_ifs with hl hm' hm'
  · subst hl hm'
    rw [items_setLoop, if_pos rfl, List.cons_append, List.filter_cons_of_pos (by simp [Item.conn]),
      List.filter_cons_of_pos rfl]
    exact congrArg _ hm
  · rwa [items_setLoop, if_neg (hl ▸ hm')]
  · rw [items_push, List.filter_append, hm, if_pos hm']
    simp [Item.conn, Item.isToken]
  · rw [items_push, List.filter_append, hm, if_neg hm']
    rfl

theorem tokens_serve_removeConnectionInLoop {d : Nat} (hnil : ∀ m, s.tokens m c = []) (m : L) :
    (s.serve cfg l c (.removeConnectionInLoop d)).tokens m c =
      if m = s.owner c then [.connectDestroyed c] else [] := by
  have hm : List.filter Item.isToken (s.items m c) = [] := hnil m
  rw [serve, tokens, items_push, List.filter_append]
  refine (congrArg (· ++ _) hm).trans ?_
  split_ifs <;> simp [Item.conn, Item.isToken]

/-- What each token finds, and the stage it leads to. -/
theorem At.exec_token (h : At cfg s i.conn st) (ht : (s.loops l).todo = i :: rest)
    (hi : i.isToken = true) : ∃ st', At cfg (s.exec cfg l i rest r w) i.conn st' ∧
      st'.past = st.past ++ (i.lifeEvent (s.conns i.conn).state).toList := by
  obtain ⟨hl, htok⟩ := h.token_of_todo ht hi
  have hst := h.state
  have hp := fun m => h.tokens_perform (r := r) (w := w) ht hi m
  cases i with
  | connectEstablished d =>
    obtain rfl : st = .connecting := by cases st <;> simp [Stage.tokens] at htok ⊢
    refine ⟨.established, h.advance ht hi (by decide) (by decide) (by simp [Stage.isOut]) rfl ?_
      (by simp [Stage.watched]) ?_ hp, ?_⟩
    · exact fun _ => Channel.isReading_enableReading _
    · exact h.entry
    · rw [hst]
      rfl
  | connectionCallback d =>
    have : st = .established ∨ st = .closing := by cases st <;> simp [Stage.tokens] at htok ⊢
    rcases this with rfl | rfl
    · refine ⟨.up, h.advance ht hi (by decide) (by decide) (by simp [Stage.isOut]) (.inl hst) ?_
        (by simp [Stage.watched]) h.entry hp, ?_⟩
      · exact fun _ => h.reading rfl
      · rw [hst]
        rfl
    · refine ⟨.down, h.advance ht hi (by decide) (by decide) (by simp [Stage.isOut]) hst
        (by simp [Stage.watched]) ?_ h.entry hp, ?_⟩
      · exact fun _ => h.silent rfl
      · rw [hst]
        rfl
  | closeCallback d =>
    obtain rfl : st = .down := by cases st <;> simp [Stage.tokens] at htok ⊢
    refine ⟨.closed, h.advance ht hi (by decide) (by decide) (by simp [Stage.isOut]) hst
      (by simp [Stage.watched]) (fun _ => h.silent rfl) ?_ ?_, rfl⟩
    · rw [connections_exec, if_neg (by simp)]
      exact h.entry
    · exact tokens_serve_closeCallback fun m => (hp m).trans (ite_self _)
  | removeConnectionInLoop d =>
    obtain rfl : st = .closed := by cases st <;> simp [Stage.tokens] at htok ⊢
    refine ⟨.removed, h.advance ht hi (by decide) (by decide) (by simp [Stage.isOut]) hst
      (by simp [Stage.watched]) (fun _ => h.silent rfl) ?_ ?_, rfl⟩
    · simp [connections_exec, Item.conn, Stage.listed]
    · exact tokens_serve_removeConnectionInLoop fun m => (hp m).trans (ite_self _)
  | connectDestroyed d =>
    obtain rfl : st = .removed := by cases st <;> simp [Stage.tokens] at htok ⊢
    have hd : (s.conns d).perform r w (.connectDestroyed d) = (s.conns d, [.remove]) := by
      refine if_neg fun hc => ?_
      rw [show (s.conns d).state = .kDisconnected from hst] at hc
      cases hc
    refine ⟨.destroyed, h.advance ht hi (by decide) (by decide) (by simp [Stage.isOut]) ?_
      (by simp [Stage.watched]) ?_ h.entry ?_, ?_⟩
    · rwa [show (s.conns (Item.connectDestroyed d).conn).perform r w _ = _ from hd]
    · rw [show (s.conns (Item.connectDestroyed d).conn).perform r w _ = _ from hd]
      exact fun _ => h.silent rfl
    · intro m
      refine (hp m).trans ?_
      rw [goesOn, show (s.conns (Item.connectDestroyed d).conn).perform r w _ = _ from hd]
      rfl
    · rw [hst]
      rfl
  | remove d =>
    obtain rfl : st = .destroyed := by cases st <;> simp [Stage.tokens] at htok ⊢
    exact ⟨.gone, h.advance ht hi (by decide) (by decide) (by simp [Stage.isOut]) hst
      (by simp [Stage.watched]) (fun _ => h.silent rfl) h.entry fun m => hp m, rfl⟩
  | _ => cases hi

/-- A reader in hand is the only one, so the connection is up. -/
theorem At.reader_of_todo (h : At cfg s i.conn st) (ht : (s.loops l).todo = i :: rest)
    (hi : i.isReader = true) : st = .up ∧ (s.later l rest i.conn).countP Item.isReader +
      (s.loops l).active.countP (·.1 = i.conn) = 0 := by
  have hr := h.readers l
  rw [TCPServer.readers, items_of_todo ht, List.countP_cons_of_pos hi] at hr
  split_ifs at hr with hup
  · exact ⟨hup.1, by omega⟩
  · omega

theorem At.exec (h : At cfg s i.conn st) (hok : LoopOk (s.loops l))
    (ht : (s.loops l).todo = i :: rest) : ∃ st', At cfg (s.exec cfg l i rest r w) i.conn st' ∧
      st'.past = st.past ++ (i.lifeEvent (s.conns i.conn).state).toList := by
  cases hi : i.isToken with
  | true => exact h.exec_token ht hi
  | false =>
    have hev : i.lifeEvent (s.conns i.conn).state = none := by
      cases i <;> first | rfl | cases hi
    rw [hev, Option.toList_none, List.append_nil]
    rcases (s.conns i.conn).perform_cases r w hi with hs | ⟨hwhy, hp⟩
    · exact ⟨st, h.keeps (keeps_exec_steady h ht hi hs), rfl⟩
    · have hup : st = .up ∧ (s.later l rest i.conn).countP Item.isReader +
          (s.loops l).active.countP (·.1 = i.conn) = 0 := by
        rcases hwhy with hr | ⟨hf, hne⟩
        · exact h.reader_of_todo ht hr
        · have hrun := hok.forced i.conn (by rw [ht, ← hf]; exact List.mem_cons_self)
          exact ⟨Stage.eq_up (h.isOut_of_todo ht hi).1 h.state hne, hok.readers_running hrun ht⟩
      obtain ⟨rfl, hz⟩ := hup
      exact ⟨.closing, at_exec_close h ht hi hp hz, rfl⟩

theorem items_nil_of_absent (h : At cfg s c .absent) (m : L) : s.items m c = [] := by
  refine List.eq_nil_iff_forall_not_mem.mpr fun j hj => ?_
  cases hjt : j.isToken with
  | false => simpa [Stage.isOut] using (h.others m j hj hjt).1
  | true =>
    have htok : j ∈ s.tokens m c := List.mem_filter.mpr ⟨hj, hjt⟩
    simp [h.tokens m, Stage.tokens] at htok

theorem at_newConnection_self (h : At cfg s s.nextConnId .absent) (hpos : 1 ≤ s.nextConnId)
    (io : L) (b : Bool) : At cfg (s.newConnection cfg io b) s.nextConnId .connecting := by
  obtain ⟨hid, hconns, howner, hentry, -, hout, hact⟩ := newConnection_frame cfg s io b
  have hi : ∀ m, (s.newConnection cfg io b).items m s.nextConnId =
      if m = io then [.connectEstablished s.nextConnId] else [] := by
    intro m
    rw [items_newConnection, items_nil_of_absent h]
    simp
  constructor
  · rw [hid]
    simp [hpos]
  · rw [hconns, Function.update_self]
    rfl
  · simp [Stage.watched]
  · rw [hconns, Function.update_self]
    exact fun _ => rfl
  · rw [hentry, Function.update_self]
    rfl
  · intro m
    rw [tokens, hi, howner, Function.update_self]
    by_cases hm : m = io <;> simp [hm, Stage.place, Stage.tokens, Item.isToken]
  · exact fun ho => h.out ((hout _).mp ho)
  · intro m j hj hjt
    rw [hi] at hj
    split_ifs at hj
    · obtain rfl := List.mem_singleton.mp hj
      cases hjt
    · cases hj
  · intro m
    have hr := h.readers m
    have hz : (if m = io then [.connectEstablished s.nextConnId] else []).countP
        Item.isReader = 0 := by
      split_ifs <;> rfl
    rw [readers, items_nil_of_absent h, if_neg (by simp)] at hr
    rw [readers, hi, hact, hz, if_neg (by simp)]
    exact hr

theorem At.newConnection (h : At cfg s c st) (hpos : 1 ≤ s.nextConnId) (io : L) (b : Bool) :
    ∃ st', At cfg (s.newConnection cfg io b) c st' ∧
      st'.past = st.past ++ (if s.nextConnId = c then some .accepted else none).toList := by
  by_cases hc : s.nextConnId = c
  · subst hc
    obtain rfl : st = .absent := h.fresh.mpr (by omega)
    refine ⟨.connecting, at_newConnection_self h hpos io b, ?_⟩
    simp [Stage.past, Stage.age, wholeLife]
  · obtain ⟨hid, hconns, howner, hentry, -, hout, hact⟩ := newConnection_frame cfg s io b
    have hn : connName cfg c ≠ connName cfg s.nextConnId := fun h => hc (connName_inj h).symm
    refine ⟨st, h.keeps (.of_items ?_ ?_ ?_ ?_ (hout c).mp ?_ ?_), by simp [hc]⟩
    · rw [hid]
      omega
    · rw [hconns, Function.update_of_ne (Ne.symm hc)]
    · rw [howner, Function.update_of_ne (Ne.symm hc)]
    · rw [hentry, Function.update_of_ne hn]
    · intro m
      rw [items_newConnection, if_neg (fun h => hc h.2)]
    · exact fun m => (hact m ▸ le_rfl)

theorem At.call (h : At cfg s c st) {d : Nat} (hout : s.Out d) (x : AppCall) :
    At cfg (s.call d x) c st := by
  by_cases hd : d = c
  · subst hd
    refine h.keeps ⟨Iff.rfl, .inr ⟨h.out hout, ((s.conns d).app x).2, ?_⟩, rfl, rfl,
      fun _ => .inr (h.out hout), fun _ => rfl, fun _ _ hi _ => .inl hi, fun _ => le_rfl⟩
    rw [TCPServer.call, setConn]
    simpa using (s.conns d).steady_app x
  · refine h.keeps (.of_items Iff.rfl ?_ rfl rfl ?_ (fun _ => rfl) fun _ => le_rfl)
    · exact Function.update_of_ne (Ne.symm hd) _ s.conns
    · rintro (hk | hdel | ⟨i, hi, hic⟩)
      · exact .inl hk
      · refine .inr (.inl ?_)
        simp only [TCPServer.call] at hdel
        split_ifs at hdel
        · exact (List.mem_append.mp hdel).resolve_right (by simpa using Ne.symm hd)
        · exact hdel
      · refine .inr (.inr ⟨i, (List.mem_append.mp hi).resolve_right fun hq => hd ?_, hic⟩)
        rw [← hic, Item.conn_queued (List.mem_filterMap.mp hq).choose_spec.2]

/-- A list of pending calls or timers gets shorter. -/
theorem At.drop (h : At cfg s c st) {posting : List Item} {delayed : List Nat}
    (hp : posting ⊆ s.posting) (hd : delayed ⊆ s.delayed) :
    At cfg { s with posting, delayed } c st := by
  refine h.keeps (.of_items Iff.rfl rfl rfl rfl ?_ (fun _ => rfl) fun _ => le_rfl)
  rintro (hk | hdel | ⟨i, hi, hic⟩)
  · exact .inl hk
  · exact .inr (.inl (hd hdel))
  · exact .inr (.inr ⟨i, hp hi, hic⟩)

theorem At.post (h : At cfg s c st) (hi : i ∈ s.posting) (hp : i.Plain) (b : Bool) :
    At cfg (s.push b (s.owner i.conn) [i]) c st := by
  have hitems := fun m => items_push s b (s.owner i.conn) m [i] c
  by_cases hd : i.conn = c
  · have hout := h.out (.inr (.inr ⟨i, hi, hd⟩))
    have hr := Item.isReader_of_isFunctor hp.1
    refine h.keeps ⟨Iff.rfl, .inl rfl, rfl, rfl, .inl, ?_, ?_, ?_⟩
    · intro m
      rw [TCPServer.tokens, hitems, TCPServer.tokens]
      split_ifs <;> simp [hd, hp.2]
    · intro m j hj _
      rw [hitems, List.mem_append] at hj
      split_ifs at hj with hm
      · exact hj.imp_right fun _ => ⟨hout, hd ▸ hm⟩
      · exact .inl (by simpa using hj)
    · intro m
      rw [TCPServer.readers, hitems, active_push, TCPServer.readers]
      split_ifs <;> simp [hd, hr]
  · refine h.keeps (.of_items Iff.rfl rfl rfl rfl id ?_ fun m => by rw [active_push])
    intro m
    rw [hitems]
    split_ifs <;> simp [hd]

/-- The loop moves functors along, or takes the first one in hand. -/
theorem At.relay (h : At cfg s c st)
    (hw : todo ++ core.waiting = (s.loops l).todo ++ (s.loops l).core.waiting) :
    At cfg (s.setLoop l { s.loops l with core, todo }) c st := by
  refine h.keeps (.of_items Iff.rfl rfl rfl rfl id ?_ fun m => by rw [active_setLoop_core])
  intro m
  rw [items_setLoop]
  split_ifs with hm
  · rw [hm, items, ← hw]
  · rfl

/-- A connection that `poll` reports is up. -/
theorem At.up_of_polled (h : At cfg s c st) (hok : LoopOk (s.loops l))
    (ht : (s.loops l).todo = []) (ho : s.owner c = l)
    (hn : (s.conns c).channel.isNoneEvent = false) : st = .up := by
  have hw : st.watched = true := by
    cases hw : st.watched with
    | true => rfl
    | false => simp [h.silent hw] at hn
  have hne : st ≠ .established := by
    rintro rfl
    have hm : .connectionCallback c ∈ s.tokens l c := by
      rw [h.tokens]
      simp [Stage.place, ho, Stage.tokens]
    exact absurd (hok.isFunctor_of_idle ht (List.mem_filter.mp hm).1) (by simp [Item.isFunctor])
  cases st <;> simp_all [Stage.watched]

theorem At.poll (h : At cfg s c st) (hok : LoopOk (s.loops l)) (ht : (s.loops l).todo = [])
    (hw : core.waiting = (s.loops l).core.waiting) (hnd : (active.map Prod.fst).Nodup)
    (hact : ∀ p ∈ active, s.owner p.1 = l ∧ (s.conns p.1).channel.isNoneEvent = false) :
    At cfg (s.setLoop l { s.loops l with core, active }) c st := by
  have hitems : ∀ m, (s.setLoop l { s.loops l with core, active }).items m c = s.items m c := by
    intro m
    rw [items_setLoop]
    split_ifs with hm
    · rw [hm, items, hw]
    · rfl
  have hone : active.countP (·.1 = c) ≤ if st = .up ∧ l = s.owner c then 1 else 0 := by
    by_cases hc : c ∈ active.map Prod.fst
    · obtain ⟨p, hp, rfl⟩ := List.mem_map.mp hc
      obtain ⟨ho, hn⟩ := hact p hp
      rw [if_pos ⟨h.up_of_polled hok ht ho hn, ho.symm⟩]
      have := List.nodup_iff_count_le_one.mp hnd p.1
      rwa [List.count, List.countP_map] at this
    · refine (Nat.le_zero.mpr (List.countP_eq_zero.mpr fun p hp => ?_)).trans (Nat.zero_le _)
      simpa using fun he => hc (List.mem_map.mpr ⟨p, hp, he⟩)
  refine ⟨h.fresh, h.state, h.reading, h.silent, h.entry, ?_, h.out, ?_, ?_⟩
  · intro m
    rw [TCPServer.tokens, hitems]
    exact h.tokens m
  · intro m j hj
    rw [hitems] at hj
    exact h.others m j hj
  · intro m
    rw [TCPServer.readers, hitems]
    by_cases hm : m = l
    · have hz : (s.items m c).countP Item.isReader = 0 :=
        List.countP_eq_zero.mpr fun j hj => by
          simp [Item.isReader_of_isFunctor (hok.isFunctor_of_idle ht (hm ▸ hj))]
      rw [hz, Nat.zero_add, active_setLoop, if_pos hm, hm]
      exact hone
    · rw [active_setLoop, if_neg hm]
      exact h.readers m

theorem countP_handlers (c : Nat) {revents : BitVec 32} (hs : Sane revents) :
    ((Channel.handleEventWithGuard revents).map (Item.handler c)).countP Item.isReader ≤ 1 := by
  unfold Channel.handleEventWithGuard
  by_cases hhup : revents &&& POLLHUP ≠ 0 ∧ revents &&& POLLIN = 0
  · rw [if_pos hhup, if_neg (not_not.mpr (hs hhup))]
    split_ifs <;> simp [Item.isReader, List.countP_cons]
  · rw [if_neg hhup]
    split_ifs <;> simp [Item.isReader, List.countP_cons]

/-- What handling an event puts in hand. -/
theorem items_handleEvent {d : Nat} {revents : BitVec 32} (ht : (s.loops l).todo = []) (m : L) :
    (s.setLoop l { s.loops l with
      active, todo := (Channel.handleEventWithGuard revents).map (.handler d) }).items m c =
      (if m = l ∧ d = c then (Channel.handleEventWithGuard revents).map (.handler d) else []) ++
        s.items m c := by
  rw [items_setLoop, List.filter_append]
  by_cases hm : m = l <;> by_cases hd : d = c <;>
    simp [hm, hd, items, ht, List.filter_map, Function.comp_def, Item.conn]

theorem tokens_handleEvent {d : Nat} {revents : BitVec 32} (ht : (s.loops l).todo = []) (m : L) :
    (s.setLoop l { s.loops l with
      active, todo := (Channel.handleEventWithGuard revents).map (.handler d) }).tokens m c =
      s.tokens m c := by
  rw [TCPServer.tokens, items_handleEvent ht, List.filter_append, List.filter_eq_nil_iff.mpr,
    List.nil_append]
  · rfl
  · intro j hj
    split_ifs at hj
    · obtain ⟨k, -, rfl⟩ := List.mem_map.mp hj
      simp [Item.isToken]
    · cases hj

theorem At.handleEvent {d : Nat} {revents : BitVec 32} (h : At cfg s c st)
    (hs : Sane revents) (ht : (s.loops l).todo = [])
    (ha : (s.loops l).active = (d, revents) :: active) :
    At cfg (s.setLoop l { s.loops l with
      active, todo := (Channel.handleEventWithGuard revents).map (.handler d) }) c st := by
  have hactive := fun m => active_setLoop (l := l) s { s.loops l with
    active, todo := (Channel.handleEventWithGuard revents).map (.handler d) } m
  by_cases hd : d = c
  · subst hd
    have hr := h.readers l
    rw [TCPServer.readers, ha, List.countP_cons_of_pos (by simp)] at hr
    split_ifs at hr with hup
    · obtain ⟨rfl, hl⟩ := hup
      refine ⟨h.fresh, h.state, h.reading, h.silent, h.entry, ?_, h.out, ?_, ?_⟩
      · intro m
        rw [tokens_handleEvent ht]
        exact h.tokens m
      · intro m j hj hjt
        rw [items_handleEvent ht, List.mem_append] at hj
        split_ifs at hj with hm
        · exact ⟨rfl, hm.1.trans hl⟩
        · exact h.others m j (hj.resolve_left List.not_mem_nil) hjt
      · intro m
        rw [TCPServer.readers, items_handleEvent ht, List.countP_append, hactive]
        by_cases hm : m = l
        · have := countP_handlers d hs
          rw [if_pos ⟨hm, rfl⟩, if_pos hm, if_pos ⟨rfl, hm.trans hl⟩, hm]
          dsimp only
          omega
        · rw [if_neg (fun h => hm h.1), if_neg hm, List.countP_nil, Nat.zero_add]
          exact h.readers m
    · omega
  · refine h.keeps (.of_items Iff.rfl rfl rfl rfl id ?_ ?_)
    · intro m
      rw [items_handleEvent ht, if_neg (fun h => hd h.2), List.nil_append]
    · intro m
      rw [hactive]
      split_ifs with hm
      · rw [hm, ha]
        exact List.Sublist.countP_le (List.sublist_cons_self _ _)
      · exact le_rfl

end TCPServer

end Lute
