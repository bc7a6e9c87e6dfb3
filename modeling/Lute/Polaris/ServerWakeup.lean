import Lute.Polaris.LifeCycle
import Lute.Polaris.Wakeup

/-! Each loop of the server is an event loop that threads share: it never sleeps over a functor, and
no connection is left behind in its queue. -/
namespace Lute

namespace TCPServer

variable {L : Type} [DecidableEq L] {cfg : ServerConfig L} {s t : TCPServer L} {l m : L} {i : Item}
  {is rest : List Item} {r : ReadResult} {w : WriteResult} {h : List (Label L)} {c : Nat}
  {core core' : EventLoop Item} {b : Bool}

/-- The loop's thread is where it calls out: it handles an event or runs a functor. -/
def CallsOut (core : EventLoop Item) : Prop := core.phase = .dispatch ∨ core.phase = .running

/-- What the application queues from the loop's own thread it queues from within a callback. -/
def FromCallback (s : TCPServer L) (a : Label L) (t : TCPServer L) : Prop :=
  ∀ i, a = .post i → CallsOut (s.loops (s.owner i.conn)).core ∨
    t = { s.push false (s.owner i.conn) [i] with posting := s.posting.erase i }

def callbackSystem (cfg : ServerConfig L) : Trace.LTS (TCPServer L) (Label L) where
  init := Initial
  step s a t := Step cfg s a t ∧ FromCallback s a t

/-- The queue as threads share it, none of them inside `queueInLoop`. -/
def shared (core : EventLoop Item) : LoopThreads Unit Item := ⟨core, fun _ => false⟩

/-- The queue has come about by steps of its threads. -/
def Shared (core : EventLoop Item) : Prop :=
  ∃ h, (LoopThreads.system Unit Item).Exec h (shared core)

theorem Shared.queueInLoop (hc : Shared core) (hb : b = true → CallsOut core) (i : Item) :
    Shared (core.queueInLoop b i) := by
  obtain ⟨h, he⟩ := hc
  let th : Thread Unit := if b then .loop else .other ()
  have hth : th.isInLoopThread = b := by cases b <;> rfl
  have hpush : (shared core).next (.push th i) =
      some ⟨core.push i, Function.update (fun _ => false) th true⟩ :=
    if_pos ⟨rfl, fun hin => hb (hth ▸ hin)⟩
  have hwake : LoopThreads.next ⟨core.push i, Function.update (fun _ => false) th true⟩
      (.wakeup th) = some (shared (core.queueInLoop b i)) := by
    simp [LoopThreads.next, shared, EventLoop.queueInLoop, hth]
  exact ⟨_, (he.snoc hpush).snoc hwake⟩

theorem Shared.queue (hc : Shared core) (hb : b = true → is ≠ [] → CallsOut core) :
    Shared (is.foldl (fun core i => core.queueInLoop b i) core) := by
  induction is generalizing core with
  | nil => exact hc
  | cons i is ih =>
    have hcall : b = true → CallsOut core := fun h => hb h (List.cons_ne_nil _ _)
    refine ih (hc.queueInLoop hcall i) fun h _ => ?_
    have hph := (EventLoop.foldl_queueInLoop_core (l := core) b [i]).1
    have hout := hcall h
    unfold CallsOut at hout ⊢
    rwa [← hph] at hout

theorem Shared.move {mv : EventLoop.Move Item} (hc : Shared core) (hm : core.move mv = some core') :
    Shared core' := by
  obtain ⟨h, he⟩ := hc
  refine ⟨_, he.snoc (a := .move mv) ?_⟩
  have hnext : (shared core).next (.move mv) = (core.move mv).map shared := rfl
  exact hnext.trans (congrArg _ hm)

theorem shared_setLoop {loop : ServerLoop} (hs : ∀ m, Shared (s.loops m).core)
    (hl : Shared loop.core) (m : L) : Shared ((s.setLoop l loop).loops m).core := by
  by_cases hm : m = l
  · simpa [setLoop, hm] using hl
  · simpa [setLoop, hm] using hs m

theorem shared_push (hs : ∀ m, Shared (s.loops m).core)
    (hb : b = true → is ≠ [] → CallsOut (s.loops l).core) (m : L) :
    Shared ((s.push b l is).loops m).core :=
  shared_setLoop hs ((hs l).queue hb) m

/-- What a member function queues it queues from a callback of its own loop. -/
theorem shared_perform (hl : LifeInv cfg h s) (hs : ∀ m, Shared (s.loops m).core)
    (htodo : (s.loops l).todo = i :: rest) (m : L) :
    Shared ((s.perform l i rest r w).loops m).core := by
  let u := s.setLoop l { s.loops l with todo := s.goesOn r w i ++ rest }
  have hset : ∀ m, Shared (u.loops m).core := by
    refine shared_setLoop hs ?_
    exact hs l
  refine shared_push (s := u.setConn i.conn _) hset (fun _ hne => ?_) m
  obtain ⟨st, hat, -⟩ := hl.stage i.conn
  have htok : i.isToken = false := by
    by_contra htok
    exact hne (handsOver_of_isToken (by simpa using htok))
  have howner := (hat.isOut_of_todo htodo htok).2
  have hbusy := (hl.loops l).busy (by simp [htodo])
  have hout : CallsOut (u.loops (s.owner i.conn)).core := by
    rw [← howner]
    simpa [CallsOut, u, setLoop] using hbusy
  exact hout

theorem shared_exec (hl : LifeInv cfg h s) (hs : ∀ m, Shared (s.loops m).core)
    (htodo : (s.loops l).todo = i :: rest) (m : L) :
    Shared ((s.exec cfg l i rest r w).loops m).core := by
  have hperform := shared_perform (r := r) (w := w) hl hs htodo
  have hbusy : CallsOut ((s.perform l i rest r w).loops l).core := by
    rw [CallsOut, phase_perform]
    exact (hl.loops l).busy (by simp [htodo])
  rw [exec]
  cases i with
  | closeCallback d =>
    simp only [serve]
    split_ifs
    · refine shared_setLoop hperform ?_ m
      exact hperform l
    · exact shared_push hperform (by simp) m
  | removeConnectionInLoop d =>
    refine shared_push hperform (fun hown _ => ?_) m
    exact (of_decide_eq_true hown : l = _) ▸ hbusy
  | _ => exact hperform m

theorem shared_step {a : Label L} (hl : LifeInv cfg h s) (hs : ∀ m, Shared (s.loops m).core)
    (hst : Step cfg s a t) (ht : FromCallback s a t) (m : L) : Shared (t.loops m).core := by
  cases hst with
  | poll hm => exact shared_setLoop hs ((hs _).move hm) m
  | handleEvent =>
    refine shared_setLoop hs ?_ m
    exact hs _
  | move _ _ _ hm => exact shared_setLoop hs ((hs _).move hm) m
  | run _ hm => exact shared_setLoop hs ((hs _).move hm) m
  | newConnection =>
    simp only [newConnection]
    split_ifs
    · refine shared_setLoop hs ?_ m
      exact hs _
    · exact shared_push hs (by simp) m
  | exec htodo => exact shared_exec hl hs htodo m
  | app => exact hs m
  | @post i b hp =>
    rcases ht i rfl with hout | heq
    · exact shared_push hs (fun _ _ => hout) m
    · rw [heq]
      exact shared_push hs (by simp) m
  | timer => exact hs m

theorem shared_run (he : (callbackSystem cfg).Exec h s) :
    (system cfg).Exec h s ∧ ∀ m, Shared (s.loops m).core := by
  induction he with
  | start hi =>
    refine ⟨.start hi, fun m => ?_⟩
    obtain ⟨n, hn⟩ := hi.loops m
    exact ⟨[], .start ⟨⟨n, by rw [hn]; rfl⟩, rfl⟩⟩
  | snoc _ hs ih => exact ⟨ih.1.snoc hs.1, shared_step (lifeInv_exec ih.1) ih.2 hs.1 hs.2⟩

/-- The loop's thread has the item in hand or in its batch, or will not sleep before it has. -/
def Attended (loop : ServerLoop) (i : Item) : Prop :=
  i ∈ loop.todo ∨ i ∈ loop.core.functors ∨
    i ∈ loop.core.pendingFunctors ∧ (loop.core.phase = .poll → 0 < loop.core.wakeupCount)

theorem awake_of_shared (hc : Shared core) (hp : core.phase = .poll)
    (hne : core.pendingFunctors ≠ []) : 0 < core.wakeupCount := by
  obtain ⟨h, he⟩ := hc
  rcases (LoopThreads.inv_exec he).awake (.inl hp) hne with hcount | ⟨th, hth⟩
  · exact hcount
  · cases hth

/-- A connection between two stages has the item that takes it on. -/
theorem At.exists_token {st : Stage} (h : At cfg s c st) (hne : st.tokens c ≠ []) :
    ∃ m, ∃ i ∈ s.items m c, i.isToken = true := by
  have htok := h.tokens (st.place cfg.loop (s.owner c))
  rw [if_pos rfl] at htok
  obtain ⟨i, hi⟩ := List.exists_mem_of_ne_nil _ (htok ▸ hne)
  exact ⟨_, i, List.mem_filter.mp hi⟩

/-- Each loop of the server is a queue shared by threads, and so awake at its next `poll` if
anything is queued. A connection that is on its way up, or on its way out, is attended to: the
functor that takes it on is being run, or is in a queue that is not slept over. -/
theorem never_stranded (he : (callbackSystem cfg).Exec h s) :
    (∀ m, Shared (s.loops m).core) ∧
    (∀ m, (s.loops m).core.phase = .poll → (s.loops m).core.pendingFunctors ≠ [] →
      0 < (s.loops m).core.wakeupCount) ∧
    ∀ c, 1 ≤ c → c < s.nextConnId →
      (s.conns c).state = .kConnecting ∨
        (s.conns c).state = .kDisconnected ∧ .channelRemoved ∉ events c h →
      ∃ m i, i.conn = c ∧ i.isToken = true ∧ Attended (s.loops m) i := by
  obtain ⟨hrun, hs⟩ := shared_run he
  have hawake := fun m => awake_of_shared (hs m)
  refine ⟨hs, hawake, fun c hpos hlt hst => ?_⟩
  obtain ⟨st, hat, hev⟩ := (lifeInv_exec hrun).stage c
  have hadm := hat.state
  have hne : st.tokens c ≠ [] := by
    cases st with
    | absent => exact absurd ⟨hpos, hlt⟩ (hat.fresh.mp rfl)
    | up => rcases hadm with hadm | hadm <;> simp [hadm] at hst
    | gone =>
      rcases hst with hst | ⟨-, hrem⟩
      · exact absurd (hadm.symm.trans hst) (by decide)
      · exact absurd (by rw [hev]; decide) hrem
    | _ => simp [Stage.tokens]
  obtain ⟨m, i, hi, htok⟩ := hat.exists_token hne
  obtain ⟨hi, hc⟩ := List.mem_filter.mp hi
  refine ⟨m, i, of_decide_eq_true hc, htok, ?_⟩
  rcases List.mem_append.mp hi with hi | hi
  · exact .inl hi
  · rcases List.mem_append.mp hi with hi | hi
    · exact .inr (.inl hi)
    · exact .inr (.inr ⟨hi, fun hp => hawake m hp (List.ne_nil_of_mem hi)⟩)

/-- Two loops; the acceptor's has just handed a connection to the other one, which sleeps. -/
theorem never_stranded_handed : ∃ (s : TCPServer Bool) (h : List (Label Bool)),
    (callbackSystem ⟨false, [], []⟩).Exec h s ∧ (s.loops true).core.phase = .poll ∧
      (s.loops true).core.pendingFunctors = [.connectEstablished 1] ∧
      0 < (s.loops true).core.wakeupCount := by
  have x := Trace.LTS.Exec.start (L := callbackSystem (⟨false, [], []⟩ : ServerConfig Bool))
    (s := ⟨fun _ => ⟨.enter 0, [], []⟩, fun _ => .new false false, fun _ => false, fun _ => false,
      fun _ => none, 1, [], []⟩)
    ⟨fun _ => ⟨0, rfl⟩, fun _ => rfl, fun _ => rfl, fun _ => rfl, rfl, rfl, rfl⟩
  replace x := x.snoc ⟨@Step.poll _ _ _ _ false _ [] rfl (by simp) (by simp),
    by simp [FromCallback]⟩
  replace x := x.snoc ⟨@Step.newConnection _ _ _ _ true false rfl rfl, by simp [FromCallback]⟩
  exact ⟨_, _, x, rfl, rfl, (never_stranded x).2.1 true rfl (by decide)⟩

end TCPServer

end Lute
