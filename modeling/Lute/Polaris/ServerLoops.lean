import Mathlib.Tactic.SplitIfs
import Lute.Polaris.ConnectionStage

/-! What the steps of a server do to the loops: what is left to do, for whom, and in which phase. -/
namespace Lute

open TCPConnection (Effect)

namespace Item

variable {c : Nat} {e : Effect} {es : List Effect} {i : Item} {b : Bool}

theorem conn_next (h : next c e = some i) : i.conn = c := by
  cases e <;> simp_all [next] <;> subst h <;> rfl

theorem conn_ofFunctor (f : TCPConnection.Functor) : (ofFunctor c f).conn = c := by
  cases f <;> rfl

theorem conn_queued (h : queued c b e = some i) : i.conn = c := by
  cases e with
  | queueInLoop f =>
    obtain rfl := by simpa [queued] using h
    exact conn_ofFunctor f
  | runInLoop f =>
    obtain ⟨-, rfl⟩ := by simpa [queued] using h
    exact conn_ofFunctor f
  | _ => cases h

/-- What a thread goes on with is neither an event to handle nor a queued close. -/
theorem ready_next (h : next c e = some i) :
    i.isReader = false ∧ ∀ d, i ≠ .forceCloseInLoop d := by
  cases e <;> simp_all [next] <;> subst h <;> simp [isReader]

theorem isToken_next (h : next c e = some i) : i.isToken = e.isMilestone := by
  cases e <;> simp_all [next] <;> subst h <;> rfl

/-- A functor that concerns nothing but the connection's own data. -/
def Plain (i : Item) : Prop := i.isFunctor = true ∧ i.isToken = false

theorem plain_ofFunctor (f : TCPConnection.Functor) : (ofFunctor c f).Plain := by
  cases f <;> exact ⟨rfl, rfl⟩

theorem plain_queued (h : queued c b e = some i) : i.Plain := by
  cases e with
  | queueInLoop f =>
    obtain rfl := by simpa [queued] using h
    exact plain_ofFunctor f
  | runInLoop f =>
    obtain ⟨-, rfl⟩ := by simpa [queued] using h
    exact plain_ofFunctor f
  | _ => cases h

theorem isReader_of_isFunctor (h : i.isFunctor = true) : i.isReader = false := by
  cases i <;> simp_all [isFunctor, isReader]

end Item

theorem toDigits_inj {c d : Nat} (h : Nat.toDigits 10 c = Nat.toDigits 10 d) : c = d := by
  rw [← @Nat.ofDigitChars_ten_toDigits c, h, Nat.ofDigitChars_ten_toDigits]

namespace TCPServer

variable {L : Type} {cfg : ServerConfig L} {s t : TCPServer L} {l : L} {c : Nat}
  {i j : Item} {is rest todo : List Item} {r : ReadResult} {w : WriteResult}
  {loop : ServerLoop} {core : EventLoop Item}

theorem connName_inj {c d : Nat} (h : connName cfg c = connName cfg d) : c = d := by
  have hd : Nat.toDigits 10 c = Nat.toDigits 10 d := by simpa [connName] using h
  exact toDigits_inj hd

/-- What the loop `l` has to do for `c` after the item at hand, `rest` being its own share. -/
def later (s : TCPServer L) (l : L) (rest : List Item) (c : Nat) : List Item :=
  (rest ++ (s.loops l).core.waiting).filter (·.conn = c)

/-- What the thread goes on with after the member function of `i`. -/
def goesOn (s : TCPServer L) (r : ReadResult) (w : WriteResult) (i : Item) : List Item :=
  ((s.conns i.conn).perform r w i).2.filterMap (Item.next i.conn)

/-- What the member function of `i` queues. -/
def handsOver (s : TCPServer L) (r : ReadResult) (w : WriteResult) (i : Item) : List Item :=
  ((s.conns i.conn).perform r w i).2.filterMap (Item.queued i.conn true)

theorem items_of_todo (ht : (s.loops l).todo = i :: rest) :
    s.items l i.conn = i :: s.later l rest i.conn := by
  simp [items, ht, later]

theorem items_of_todo_of_ne (ht : (s.loops l).todo = i :: rest) (hc : i.conn ≠ c) :
    s.items l c = s.later l rest c := by
  simp [items, ht, later, hc]

theorem conn_goesOn (h : j ∈ s.goesOn r w i) : j.conn = i.conn :=
  Item.conn_next (List.mem_filterMap.mp h).choose_spec.2

theorem conn_handsOver (h : j ∈ s.handsOver r w i) : j.conn = i.conn :=
  Item.conn_queued (List.mem_filterMap.mp h).choose_spec.2

theorem plain_handsOver (h : j ∈ s.handsOver r w i) : j.Plain :=
  Item.plain_queued (List.mem_filterMap.mp h).choose_spec.2

theorem ready_goesOn (h : j ∈ s.goesOn r w i) :
    j.isReader = false ∧ ∀ d, j ≠ .forceCloseInLoop d :=
  Item.ready_next (List.mem_filterMap.mp h).choose_spec.2

theorem handsOver_of_isToken (hi : i.isToken = true) : s.handsOver r w i = [] := by
  cases i with
  | connectDestroyed =>
    simp only [handsOver, TCPConnection.perform, TCPConnection.connectDestroyed]
    split_ifs <;> rfl
  | _ => first | rfl | cases hi

theorem isReader_of_isToken (h : i.isToken = true) : i.isReader = false := by
  cases i <;> first | rfl | cases h

theorem isToken_goesOn (hi : i.isToken = true) (hj : j ∈ s.goesOn r w i) : j.isToken = true := by
  obtain ⟨e, he, hje⟩ := List.mem_filterMap.mp hj
  rw [Item.isToken_next hje]
  cases i with
  | connectEstablished =>
    obtain rfl := List.mem_singleton.mp he
    rfl
  | connectDestroyed =>
    simp only [TCPConnection.perform, TCPConnection.connectDestroyed] at he
    split_ifs at he
    · rcases List.mem_pair.mp he with rfl | rfl <;> rfl
    · obtain rfl := List.mem_singleton.mp he
      rfl
  | removeConnectionInLoop | connectionCallback | closeCallback | remove => cases he
  | _ => cases hi

theorem LoopOk.queue (h : LoopOk loop) (b : Bool) (his : ∀ j ∈ is, j.isFunctor = true) :
    LoopOk { loop with core := is.foldl (fun core i => core.queueInLoop b i) loop.core } := by
  obtain ⟨hph, hf⟩ := EventLoop.foldl_queueInLoop_core (l := loop.core) b is
  constructor
  · simpa [EventLoop.Settled, hph, hf] using h.settled
  · simpa [hph] using h.idle
  · simpa [hph] using h.handled
  · simpa [EventLoop.waiting_foldl_queueInLoop, or_imp, forall_and] using ⟨h.functors, his⟩
  · simpa [hph] using h.running
  · simpa [hph] using h.forced
  · exact h.sane

/-- The thread has something to do only while it handles events or runs functors. -/
theorem LoopOk.busy (h : LoopOk loop) (ht : loop.todo ≠ []) :
    loop.core.phase = .dispatch ∨ loop.core.phase = .running := by
  cases hp : loop.core.phase with
  | poll => exact absurd (h.idle (.inl hp)) ht
  | calling => exact absurd (h.idle (.inr hp)) ht
  | dispatch => exact .inl rfl
  | running => exact .inr rfl

theorem LoopOk.withTodo (h : LoopOk loop)
    (hb : loop.core.phase = .dispatch ∨ loop.core.phase = .running)
    (hr : loop.core.phase = .running → ∀ j ∈ todo, j.isReader = false)
    (hf : ∀ d, .forceCloseInLoop d ∈ todo → loop.core.phase = .running) :
    LoopOk { loop with todo } := by
  refine ⟨h.settled, ?_, h.handled, h.functors, hr, hf, h.sane⟩
  rcases hb with hb | hb <;> simp [hb]

theorem LoopOk.readers_running (h : LoopOk (s.loops l)) (hp : (s.loops l).core.phase = .running)
    (ht : (s.loops l).todo = i :: rest) : (s.later l rest c).countP Item.isReader +
      (s.loops l).active.countP (·.1 = c) = 0 := by
  have hzero : (s.later l rest c).countP Item.isReader = 0 := by
    refine List.countP_eq_zero.mpr fun j hj => ?_
    rcases List.mem_append.mp (List.mem_filter.mp hj).1 with hj | hj
    · simp [h.running hp j (ht ▸ List.mem_cons_of_mem i hj)]
    · simp [Item.isReader_of_isFunctor (h.functors j hj)]
  rw [hzero, h.handled (by simp [hp])]
  rfl

/-- Between two polls a loop has nothing to do for a connection but functors. -/
theorem LoopOk.isFunctor_of_idle (h : LoopOk (s.loops l)) (ht : (s.loops l).todo = [])
    (hi : i ∈ s.items l c) : i.isFunctor = true := by
  rw [items, ht] at hi
  exact h.functors i (List.mem_filter.mp hi).1

theorem LoopOk.move (h : LoopOk loop) {m : EventLoop.Move Item}
    (hact : m = .beginPending → loop.active = []) (hne : m ≠ .poll)
    (hm : loop.core.move m = some core) (htodo : ∀ j ∈ todo, m = .run j) :
    LoopOk { loop with core, todo } := by
  have hw : ∀ j ∈ core.waiting, j ∈ loop.core.waiting := by
    intro j hj
    rcases EventLoop.move_waiting hm h.settled with ⟨f, -, hw⟩ | ⟨-, hw⟩
    · exact hw ▸ List.mem_cons_of_mem f hj
    · exact hw ▸ hj
  have hrun : ∀ j ∈ todo, j.isFunctor = true ∧ core.phase = .running := by
    intro j hj
    obtain rfl := htodo j hj
    have hph : core.phase = .running := by
      rcases EventLoop.move_cases hm with h | h | h | h | ⟨f, fs, -, hph, -, rfl⟩ | h
      · simp at h
      · simp at h
      · simp at h
      · simp at h
      · exact hph
      · simp at h
    exact ⟨h.functors j (EventLoop.waiting_run hm h.settled ▸ List.mem_cons_self), hph⟩
  refine ⟨EventLoop.move_settled hm h.settled, ?_, ?_, fun j hj => h.functors j (hw j hj),
    fun _ j hj => Item.isReader_of_isFunctor (hrun j hj).1, fun d hd => (hrun _ hd).2, h.sane⟩
  · intro hph
    refine List.eq_nil_iff_forall_not_mem.mpr fun j hj => ?_
    simp [(hrun j hj).2] at hph
  · intro hph
    rcases EventLoop.move_cases hm with ⟨rfl, -⟩ | ⟨-, hd, rfl⟩ | ⟨hb, -⟩ | ⟨-, hd, -⟩ |
      ⟨-, -, -, hd, -⟩ | ⟨-, hd, -⟩
    · exact absurd rfl hne
    · exact absurd hd hph
    · exact hact hb
    all_goals exact h.handled (by simp [hd])

theorem plain_call (hp : ∀ i ∈ s.posting, i.Plain) (c : Nat) (x : AppCall) :
    ∀ i ∈ (s.call c x).posting, i.Plain := by
  intro i hi
  rcases List.mem_append.mp hi with hi | hi
  · exact hp i hi
  · exact Item.plain_queued (List.mem_filterMap.mp hi).choose_spec.2

variable [DecidableEq L]

theorem items_setLoop (s : TCPServer L) (l m : L) (loop : ServerLoop) (c : Nat) :
    (s.setLoop l loop).items m c =
      if m = l then (loop.todo ++ loop.core.waiting).filter (·.conn = c) else s.items m c := by
  by_cases hm : m = l <;> simp [items, setLoop, hm]

theorem items_push (s : TCPServer L) (b : Bool) (l m : L) (is : List Item) (c : Nat) :
    (s.push b l is).items m c =
      s.items m c ++ if m = l then is.filter (·.conn = c) else [] := by
  rw [push, items_setLoop]
  by_cases hm : m = l <;> simp [hm, EventLoop.waiting_foldl_queueInLoop, items]

theorem items_perform (m : L) :
    (s.perform l i rest r w).items m c =
      (if m = l then (s.goesOn r w i).filter (·.conn = c) ++ s.later l rest c
        else s.items m c) ++
      if m = s.owner i.conn then (s.handsOver r w i).filter (·.conn = c) else [] := by
  have hset : ∀ (u : TCPServer L) (x : TCPConnection), (u.setConn i.conn x).items m c =
      u.items m c := fun _ _ => rfl
  rw [perform, items_push, hset, items_setLoop, List.append_assoc, List.filter_append]
  rfl

/-- For the other connections nothing is done. -/
theorem items_perform_of_ne (ht : (s.loops l).todo = i :: rest) (hc : i.conn ≠ c) (m : L) :
    (s.perform l i rest r w).items m c = s.items m c := by
  have hn : (s.goesOn r w i).filter (·.conn = c) = [] :=
    List.filter_eq_nil_iff.mpr fun j hj => by simp [conn_goesOn hj, hc]
  have hq : (s.handsOver r w i).filter (·.conn = c) = [] :=
    List.filter_eq_nil_iff.mpr fun j hj => by simp [conn_handsOver hj, hc]
  rw [items_perform, hn, hq]
  by_cases hm : m = l
  · subst hm
    simp [items_of_todo_of_ne ht hc]
  · simp [hm]

theorem items_perform_self (m : L) :
    (s.perform l i rest r w).items m i.conn =
      (if m = l then s.goesOn r w i ++ s.later l rest i.conn else s.items m i.conn) ++
      if m = s.owner i.conn then s.handsOver r w i else [] := by
  have hn : (s.goesOn r w i).filter (·.conn = i.conn) = s.goesOn r w i :=
    List.filter_eq_self.mpr fun j hj => by simp [conn_goesOn hj]
  have hq : (s.handsOver r w i).filter (·.conn = i.conn) = s.handsOver r w i :=
    List.filter_eq_self.mpr fun j hj => by simp [conn_handsOver hj]
  rw [items_perform, hn, hq]

theorem active_setLoop (s : TCPServer L) (loop : ServerLoop) (m : L) :
    ((s.setLoop l loop).loops m).active = if m = l then loop.active else (s.loops m).active := by
  by_cases hm : m = l <;> simp [setLoop, hm]

@[simp] theorem active_setLoop_core (s : TCPServer L) (core : EventLoop Item) (todo : List Item)
    (m : L) :
    ((s.setLoop l { s.loops l with core, todo }).loops m).active = (s.loops m).active := by
  rw [active_setLoop]
  split_ifs with hm <;> simp [hm]

@[simp] theorem active_push (s : TCPServer L) (b : Bool) (is : List Item) (m : L) :
    ((s.push b l is).loops m).active = (s.loops m).active :=
  active_setLoop_core s _ _ m

@[simp] theorem active_perform (m : L) :
    ((s.perform l i rest r w).loops m).active = (s.loops m).active := by
  rw [perform, active_push]
  exact active_setLoop_core s _ _ m

@[simp] theorem active_serve (m : L) :
    ((s.serve cfg l c i).loops m).active = (s.loops m).active := by
  cases i with
  | closeCallback d =>
    simp only [serve]
    split_ifs
    · exact active_setLoop_core _ _ _ m
    · exact active_push _ _ _ m
  | removeConnectionInLoop d => exact active_push _ _ _ m
  | _ => rfl

@[simp] theorem active_exec (m : L) :
    ((s.exec cfg l i rest r w).loops m).active = (s.loops m).active := by
  rw [exec, active_serve, active_perform]

@[simp] theorem owner_perform : (s.perform l i rest r w).owner = s.owner := rfl

@[simp] theorem nextConnId_exec : (s.exec cfg l i rest r w).nextConnId = s.nextConnId := by
  cases i <;> simp only [exec, serve] <;> first | rfl | (split_ifs <;> rfl)

@[simp] theorem owner_exec : (s.exec cfg l i rest r w).owner = s.owner := by
  cases i <;> simp only [exec, serve] <;> first | rfl | (split_ifs <;> rfl)

@[simp] theorem conns_exec : (s.exec cfg l i rest r w).conns =
    Function.update s.conns i.conn ((s.conns i.conn).perform r w i).1 := by
  cases i <;> simp only [exec, serve] <;> first | rfl | (split_ifs <;> rfl)

theorem connections_exec : (s.exec cfg l i rest r w).connections =
    if i = .removeConnectionInLoop i.conn then
      Function.update s.connections (connName cfg i.conn) none
    else s.connections := by
  cases i with
  | closeCallback => simp only [exec, serve]; split_ifs <;> first | rfl | contradiction
  | removeConnectionInLoop => exact (if_pos rfl).symm
  | _ => rfl

theorem posting_exec : (s.exec cfg l i rest r w).posting = s.posting := by
  cases i <;> simp only [exec, serve] <;> first | rfl | (split_ifs <;> rfl)

theorem out_exec (h : (s.exec cfg l i rest r w).Out c) :
    s.Out c ∨ i = .connectionCallback c := by
  cases i with
  | closeCallback => left; simp only [exec, serve] at h; split_ifs at h <;> exact h
  | connectionCallback d =>
    by_cases hd : d = c
    · exact .inr (by rw [hd])
    · refine .inl (h.imp_left fun hk => ?_)
      have hu : Function.update s.known d true c = true := hk
      rwa [Function.update_of_ne (Ne.symm hd)] at hu
  | _ => exact .inl h

theorem items_serve_of_ne {d : Nat} (hd : d ≠ c) (m : L) :
    (s.serve cfg l d i).items m c = s.items m c := by
  cases i with
  | closeCallback =>
    simp only [serve]
    split_ifs
    · rw [items_setLoop]
      split_ifs with hm
      · subst hm
        simp [items, Item.conn, hd]
      · rfl
    · simp [items_push, Item.conn, hd]
  | removeConnectionInLoop =>
    simp only [serve, items_push]
    simp [items, Item.conn, hd]
  | _ => rfl

theorem serve_of_isToken_eq_false (hi : i.isToken = false) : s.serve cfg l c i = s := by
  cases i <;> first | rfl | cases hi

/-- What `newConnection` leaves to be done. -/
theorem items_newConnection (cfg : ServerConfig L) (s : TCPServer L) (io m : L) (b : Bool)
    (c : Nat) :
    (s.newConnection cfg io b).items m c =
      if m = io ∧ s.nextConnId = c then
        if io = cfg.loop then .connectEstablished c :: s.items m c
        else s.items m c ++ [.connectEstablished c]
      else s.items m c := by
  simp only [newConnection]
  split_ifs with hio hm hm
  · obtain ⟨rfl, rfl⟩ := hm
    rw [items_setLoop, if_pos rfl, List.cons_append, List.filter_cons_of_pos (by simp [Item.conn])]
    rfl
  · rw [items_setLoop]
    split_ifs with hmi
    · rw [List.cons_append, List.filter_cons_of_neg (by simp_all [Item.conn]), hmi]
      rfl
    · rfl
  · obtain ⟨rfl, rfl⟩ := hm
    rw [items_push, if_pos rfl]
    simp [Item.conn, items, setConn]
  · rw [items_push]
    split_ifs with hmi
    · rw [List.filter_cons_of_neg (by simp_all [Item.conn])]
      exact List.append_nil _
    · exact List.append_nil _

/-- The rest of what `newConnection` does. -/
theorem newConnection_frame (cfg : ServerConfig L) (s : TCPServer L) (io : L) (b : Bool) :
    (s.newConnection cfg io b).nextConnId = s.nextConnId + 1 ∧
    (s.newConnection cfg io b).conns = Function.update s.conns s.nextConnId (.new b false) ∧
    (s.newConnection cfg io b).owner = Function.update s.owner s.nextConnId io ∧
    (s.newConnection cfg io b).connections =
      Function.update s.connections (connName cfg s.nextConnId) (some s.nextConnId) ∧
    (s.newConnection cfg io b).posting = s.posting ∧
    (∀ c, (s.newConnection cfg io b).Out c ↔ s.Out c) ∧
    ∀ m, ((s.newConnection cfg io b).loops m).active = (s.loops m).active := by
  simp only [newConnection]
  split_ifs
  · exact ⟨rfl, rfl, rfl, rfl, rfl, fun _ => Iff.rfl, fun m => active_setLoop_core s _ _ m⟩
  · exact ⟨rfl, rfl, rfl, rfl, rfl, fun _ => Iff.rfl, fun m => active_push s _ _ m⟩

theorem loopOk_setLoop (h : ∀ m, LoopOk (s.loops m)) (hl : LoopOk loop) (m : L) :
    LoopOk ((s.setLoop l loop).loops m) := by
  by_cases hm : m = l
  · simpa [setLoop, hm] using hl
  · simpa [setLoop, hm] using h m

theorem loopOk_push (h : ∀ m, LoopOk (s.loops m)) (b : Bool)
    (his : ∀ j ∈ is, j.isFunctor = true) (m : L) : LoopOk ((s.push b l is).loops m) :=
  loopOk_setLoop h ((h l).queue b his) m

theorem phase_push (b : Bool) (m : L) :
    ((s.push b l is).loops m).core.phase = (s.loops m).core.phase := by
  by_cases hm : m = l
  · simp [push, setLoop, hm, (EventLoop.foldl_queueInLoop_core b is).1]
  · simp [push, setLoop, hm]

theorem phase_perform (m : L) :
    ((s.perform l i rest r w).loops m).core.phase = (s.loops m).core.phase := by
  rw [perform, phase_push]
  by_cases hm : m = l <;> simp [setLoop, setConn, hm]

theorem loopOk_exec (h : ∀ m, LoopOk (s.loops m)) (ht : (s.loops l).todo = i :: rest) (m : L) :
    LoopOk ((s.exec cfg l i rest r w).loops m) := by
  have hb := (h l).busy (by simp [ht])
  have hperform : ∀ m, LoopOk ((s.perform l i rest r w).loops m) := by
    refine loopOk_push (loopOk_setLoop h ((h l).withTodo hb ?_ ?_)) true
      fun j hj => (plain_handsOver hj).1
    · intro hp j hj
      rcases List.mem_append.mp hj with hj | hj
      · exact (ready_goesOn hj).1
      · exact (h l).running hp j (ht ▸ List.mem_cons_of_mem i hj)
    · intro d hd
      rcases List.mem_append.mp hd with hd | hd
      · exact absurd rfl ((ready_goesOn hd).2 d)
      · exact (h l).forced d (ht ▸ List.mem_cons_of_mem i hd)
  rw [exec]
  cases i with
  | closeCallback d =>
    simp only [serve]
    split_ifs
    · refine loopOk_setLoop hperform ((hperform l).withTodo (by rwa [phase_perform]) ?_ ?_) m
      · intro hp j hj
        rcases List.mem_cons.mp hj with rfl | hj
        · rfl
        · exact (hperform l).running hp j hj
      · intro d hd
        exact (hperform l).forced d ((List.mem_cons.mp hd).resolve_left (by simp))
    · exact loopOk_push hperform false (by simp [Item.isFunctor]) m
  | removeConnectionInLoop d => exact loopOk_push hperform _ (by simp [Item.isFunctor]) m
  | _ => exact hperform m

/-- Every step keeps the loops in order. -/
theorem loopOk_step {a : Label L} (hs : Step cfg s a t) (hok : ∀ m, LoopOk (s.loops m))
    (hp : ∀ i ∈ s.posting, i.Plain) (m : L) : LoopOk (t.loops m) := by
  cases hs with
  | @poll l core active hm hnd hact =>
    obtain ⟨hph, rfl⟩ := by simpa [EventLoop.move] using hm
    have hidle := (hok l).idle (.inl hph)
    refine loopOk_setLoop hok ?_ m
    refine ⟨EventLoop.move_settled hm (hok l).settled, ?_, ?_, (hok l).functors, ?_, ?_,
      fun p hp => (hact p hp).2.2⟩
    · simp
    · simp
    · simp
    · simp [hidle]
  | @handleEvent l c revents active htodo hph hact =>
    refine loopOk_setLoop hok ?_ m
    refine ⟨(hok l).settled, ?_, ?_, (hok l).functors, ?_, ?_,
      fun p hp => (hok l).sane p (hact ▸ List.mem_cons_of_mem _ hp)⟩
    · simp [hph]
    · simp [hph]
    · simp [hph]
    · simp
  | @move l mv core htodo hact hne hm =>
    exact loopOk_setLoop hok ((hok l).move hact hne.1 hm (by simp [htodo])) m
  | @run l i core htodo hm =>
    exact loopOk_setLoop hok ((hok l).move (by simp) (by simp) hm (by simp)) m
  | @newConnection io b htodo hph =>
    simp only [newConnection]
    split_ifs with hio
    · subst hio
      refine loopOk_setLoop hok ((hok _).withTodo (.inl hph) ?_ ?_) m
      · simp [hph]
      · intro d hd
        have hnil : .forceCloseInLoop d ∈ (s.loops cfg.loop).todo :=
          (List.mem_cons.mp hd).resolve_left (by simp)
        simp [htodo] at hnil
    · exact loopOk_push hok false (by simp [Item.isFunctor]) m
  | exec htodo => exact loopOk_exec hok htodo m
  | app => exact hok m
  | @post i b hi => exact loopOk_push hok b (by simpa using (hp i hi).1) m
  | timer => exact hok m

theorem posting_step {a : Label L} (hs : Step cfg s a t) (hp : ∀ i ∈ s.posting, i.Plain) :
    ∀ i ∈ t.posting, i.Plain := by
  cases hs with
  | newConnection =>
    obtain ⟨-, -, -, -, h, -⟩ := newConnection_frame cfg s _ _
    rwa [h]
  | exec => rwa [posting_exec]
  | app => exact plain_call hp _ _
  | post => exact fun i hi => hp i (List.erase_subset hi)
  | timer => exact plain_call hp _ _
  | poll | handleEvent | move | run => exact hp

theorem nextConnId_step {a : Label L} (hs : Step cfg s a t) : s.nextConnId ≤ t.nextConnId := by
  cases hs with
  | newConnection =>
    obtain ⟨hid, -⟩ := newConnection_frame cfg s _ _
    rw [hid]
    exact Nat.le_succ _
  | exec => rw [nextConnId_exec]
  | poll | handleEvent | move | run | app | post | timer => exact le_rfl

end TCPServer

end Lute
