import Lute.Polaris.OutputStream

/-! The half-close on the loop thread: after the last byte, once, and not forgotten. -/
namespace Lute

open TCPConnection (Effect acceptedOf)

/-- A connection on its loop thread. `calling`: `shutdown` has handed `shutdownInLoop` to
`runInLoop`, which calls it there and then. -/
structure LoopCalls where
  conn : TCPConnection
  calling : Bool
  deriving DecidableEq, Repr

namespace LoopCalls

inductive Call
  | sendInLoop (message : Bytes) (result : WriteResult)
  | handleWrite (result : WriteResult)
  | shutdown
  | shutdownInLoop
  | forceClose
  | forceCloseWithDelay
  | forceCloseInLoop
  deriving DecidableEq, Repr

/-- A call with what it did. -/
abbrev Label := Call × List Effect

inductive Step : LoopCalls → Label → LoopCalls → Prop
  | sendInLoop {s : LoopCalls} {message : Bytes} {result : WriteResult} {c : TCPConnection}
      {es : List Effect} (hi : s.calling = false)
      (hc : s.conn.sendInLoop message result = (c, es)) :
      Step s (.sendInLoop message result, es) { s with conn := c }
  | handleWrite {s : LoopCalls} {result : WriteResult} {c : TCPConnection} {es : List Effect}
      (hi : s.calling = false) (hc : s.conn.handleWrite result = (c, es)) :
      Step s (.handleWrite result, es) { s with conn := c }
  | shutdown {s : LoopCalls} {c : TCPConnection} {es : List Effect} (hi : s.calling = false)
      (hc : s.conn.shutdown = (c, es)) :
      Step s (.shutdown, es) ⟨c, decide (.runInLoop .shutdownInLoop ∈ es)⟩
  | shutdownInLoop {s : LoopCalls} (hi : s.calling = true) :
      Step s (.shutdownInLoop, s.conn.shutdownInLoop) { s with calling := false }
  | forceClose {s : LoopCalls} {c : TCPConnection} {es : List Effect} (hi : s.calling = false)
      (hc : s.conn.forceClose = (c, es)) : Step s (.forceClose, es) { s with conn := c }
  | forceCloseWithDelay {s : LoopCalls} {c : TCPConnection} {es : List Effect}
      (hi : s.calling = false) (hc : s.conn.forceCloseWithDelay = (c, es)) :
      Step s (.forceCloseWithDelay, es) { s with conn := c }
  | forceCloseInLoop {s : LoopCalls} {c : TCPConnection} {es : List Effect}
      (hi : s.calling = false) (hc : s.conn.forceCloseInLoop = (c, es)) :
      Step s (.forceCloseInLoop, es) { s with conn := c }

/-- An established connection with nothing to write yet. -/
def system : Trace.LTS LoopCalls Label where
  init s := s.calling = false ∧ s.conn.state = .kConnected ∧ s.conn.channel.isWriting = false ∧
    s.conn.outputBuffer = []
  step := Step

/-- All a run did, in order. -/
def effects (h : List Label) : List Effect := h.flatMap Prod.snd

/-- The bytes passed to `sendInLoop`, less the messages whose own write faulted. -/
def sent (h : List Label) : Bytes :=
  h.flatMap fun a => match a.1 with
    | .sendInLoop message _ => if a.2.any Effect.faulted then [] else message
    | _ => []

/-- A write after the half-close fails with `EPIPE`. -/
def EpipeAfter (e f : Effect) : Prop :=
  e = .shutdownWrite → ∀ data result, f = .write data result → result = .failed .EPIPE

/-- What holds of the half-close after the run `h`. -/
structure InOrder (h : List Label) (s : LoopCalls) : Prop where
  drained : ∀ a t, Step s a t → .shutdownWrite ∈ a.2 →
    t.conn.outputBuffer = [] ∧ acceptedOf (effects (h ++ [a])) = sent (h ++ [a]) ∧
      ∃ es, a.2 = es ++ [.shutdownWrite]
  once : (effects h).Pairwise EpipeAfter → (effects h).count .shutdownWrite ≤ 1
  finished : (∃ es, (.shutdown, es) ∈ h) → ∀ result es t, Step s (.handleWrite result, es) t →
    s.conn.outputBuffer ≠ [] → t.conn.outputBuffer = [] → .shutdownWrite ∈ es

variable {s t : LoopCalls} {a : Label} {h : List Label}

theorem effects_snoc (h : List Label) (a : Label) : effects (h ++ [a]) = effects h ++ a.2 := by
  simp [effects]

/-- While the connection is not closed its write interest and its stream are in order; afterwards
nothing is written. -/
structure Inv (h : List Label) (s : LoopCalls) : Prop where
  interest : s.conn.state ≠ .kDisconnected → s.conn.WriteInterest
  stream : s.conn.state ≠ .kDisconnected →
    acceptedOf (effects h) ++ s.conn.outputBuffer = sent h
  closed : s.conn.state = .kDisconnected → s.conn.channel.isWriting = false
  calling : s.calling = true → s.conn.state = .kDisconnecting
  requested : (∃ es, (.shutdown, es) ∈ h) → s.conn.state ≠ .kConnected
  connected : s.conn.state ≠ .kConnecting

theorem sent_snoc (h : List Label) (a : Label) : sent (h ++ [a]) = sent h ++ sent [a] := by
  simp [sent]

theorem inv_start (hi : system.init s) : Inv [] s where
  interest _ := by simp [TCPConnection.WriteInterest, hi.2.2.1, hi.2.2.2]
  stream _ := by simp [hi.2.2.2, effects, acceptedOf, sent]
  closed hd := by simp [hi.2.1] at hd
  calling hc := by simp [hi.1] at hc
  requested hr := by simp at hr
  connected := by simp [hi.2.1]

/-- The calls that at most move the state to `kDisconnecting` and leave the rest to the loop. -/
def Asks (c c' : TCPConnection) (es : List Effect) : Prop :=
  (c' = c ∧ es = []) ∨ c.state ≠ .kDisconnected ∧ c' = c.setState .kDisconnecting ∧
    ∃ e : Effect, es = [e] ∧ e.accepted = [] ∧ e ≠ .shutdownWrite

variable {c c' : TCPConnection} {es : List Effect}

theorem shutdown_cases (hc : c.shutdown = (c', es)) :
    (c.state = .kConnected ∧ c' = c.setState .kDisconnecting ∧
      es = [.runInLoop .shutdownInLoop]) ∨ c.state ≠ .kConnected ∧ c' = c ∧ es = [] := by
  unfold TCPConnection.shutdown at hc
  split_ifs at hc with hst
  · obtain ⟨rfl, rfl⟩ := Prod.mk.inj hc
    exact .inl ⟨hst, rfl, rfl⟩
  · obtain ⟨rfl, rfl⟩ := Prod.mk.inj hc
    exact .inr ⟨hst, rfl, rfl⟩

theorem asks_shutdown (hc : c.shutdown = (c', es)) : Asks c c' es := by
  rcases shutdown_cases hc with ⟨hst, rfl, rfl⟩ | ⟨-, rfl, rfl⟩
  · exact .inr ⟨by simp [hst], rfl, _, rfl, rfl, by simp⟩
  · exact .inl ⟨rfl, rfl⟩

theorem asks_forceClose (hc : c.forceClose = (c', es)) : Asks c c' es := by
  unfold TCPConnection.forceClose at hc
  split_ifs at hc with hst
  · obtain ⟨rfl, rfl⟩ := Prod.mk.inj hc
    exact .inr ⟨by rcases hst with hst | hst <;> simp [hst], rfl, _, rfl, rfl, by simp⟩
  · obtain ⟨rfl, rfl⟩ := Prod.mk.inj hc
    exact .inl ⟨rfl, rfl⟩

theorem asks_forceCloseWithDelay (hc : c.forceCloseWithDelay = (c', es)) : Asks c c' es := by
  unfold TCPConnection.forceCloseWithDelay at hc
  split_ifs at hc with hst
  · obtain ⟨rfl, rfl⟩ := Prod.mk.inj hc
    exact .inr ⟨by rcases hst with hst | hst <;> simp [hst], rfl, _, rfl, rfl, by simp⟩
  · obtain ⟨rfl, rfl⟩ := Prod.mk.inj hc
    exact .inl ⟨rfl, rfl⟩

theorem Asks.shutdownWrite_notMem (ha : Asks c c' es) : .shutdownWrite ∉ es := by
  rcases ha with ⟨-, rfl⟩ | ⟨-, -, e, rfl, -, he⟩
  · simp
  · simpa using he.symm

theorem inv_asks {b : Bool} {x : Call} (hi : Inv h s) (ha : Asks s.conn c es)
    (hsent : sent [(x, es)] = []) (hb : b = true → c.state = .kDisconnecting)
    (hx : x = .shutdown → c.state ≠ .kConnected) : Inv (h ++ [(x, es)]) ⟨c, b⟩ := by
  have hreq : (∃ es', (.shutdown, es') ∈ h ++ [(x, es)]) → c.state = s.conn.state →
      c.state ≠ .kConnected := by
    rintro ⟨es', hm⟩ hst
    rcases List.mem_append.mp hm with hm | hm
    · exact hst ▸ hi.requested ⟨es', hm⟩
    · exact hx (congrArg Prod.fst (List.mem_singleton.mp hm)).symm
  rcases ha with ⟨rfl, rfl⟩ | ⟨hopen, rfl, e, rfl, hacc, -⟩
  · refine ⟨hi.interest, fun hst => ?_, hi.closed, hb, fun hr => hreq hr rfl, hi.connected⟩
    rw [effects_snoc, sent_snoc, hsent, List.append_nil, List.append_nil]
    exact hi.stream hst
  · refine ⟨fun _ => hi.interest hopen, fun _ => ?_, by simp [TCPConnection.setState], hb,
      by simp [TCPConnection.setState], by simp [TCPConnection.setState]⟩
    rw [effects_snoc, sent_snoc, hsent, TCPConnection.acceptedOf_append, List.append_nil]
    have hnil : acceptedOf [e] = [] := by simp [acceptedOf, hacc]
    rw [hnil, List.append_nil]
    exact hi.stream hopen

theorem inv_sendInLoop {message : Bytes} {result : WriteResult} (hi : Inv h s)
    (hc : s.conn.sendInLoop message result = (c, es)) :
    Inv (h ++ [(.sendInLoop message result, es)]) { s with conn := c } := by
  have hst : c.state = s.conn.state := by
    have := s.conn.state_sendInLoop message result
    rwa [hc] at this
  refine ⟨fun hopen => ?_, fun hopen => ?_, fun hclosed => ?_, fun hcall => hst ▸ hi.calling hcall,
    fun hr => ?_, hst ▸ hi.connected⟩
  · have hinterest : (s.conn.sendInLoop message result).1.WriteInterest :=
      (hi.interest (hst ▸ hopen)).sendInLoop
    rwa [hc] at hinterest
  · have hstream := TCPConnection.sendInLoop_stream (hst ▸ hopen) hc
    rw [effects_snoc, sent_snoc, TCPConnection.acceptedOf_append, List.append_assoc, hstream,
      ← List.append_assoc, hi.stream (hst ▸ hopen)]
    simp [sent]
  · have hclosed' : s.conn.state = .kDisconnected := hst ▸ hclosed
    obtain ⟨rfl, -⟩ : s.conn = c ∧ [] = es := by
      simpa [TCPConnection.sendInLoop, hclosed'] using hc
    exact hi.closed hclosed
  · change c.state ≠ _
    rw [hst]
    exact hi.requested (by simpa using hr)

theorem inv_handleWrite {result : WriteResult} (hi : Inv h s)
    (hc : s.conn.handleWrite result = (c, es)) :
    Inv (h ++ [(.handleWrite result, es)]) { s with conn := c } := by
  obtain ⟨hstream, hst⟩ := TCPConnection.handleWrite_stream hc
  obtain ⟨ds, drained, hd, -⟩ := TCPConnection.drain_of_handleWrite hc
  refine ⟨fun hopen => (hi.interest (hst ▸ hopen)).drain hd, fun hopen => ?_, fun hclosed => ?_,
    fun hcall => hst ▸ hi.calling hcall, fun hr => ?_, hst ▸ hi.connected⟩
  · rw [effects_snoc, sent_snoc, TCPConnection.acceptedOf_append, List.append_assoc, hstream,
      hi.stream (hst ▸ hopen)]
    simp [sent]
  · have hw := hi.closed (hst ▸ hclosed)
    rcases TCPConnection.drain_cases hd with ⟨-, rfl, -⟩ | ⟨hw', -⟩ | ⟨hw', -⟩
    · exact hw
    · simp [hw] at hw'
    · simp [hw] at hw'
  · change c.state ≠ _
    rw [hst]
    exact hi.requested (by simpa using hr)

theorem inv_shutdownInLoop (hi : Inv h s) :
    Inv (h ++ [(.shutdownInLoop, s.conn.shutdownInLoop)]) { s with calling := false } := by
  refine ⟨hi.interest, fun hopen => ?_, hi.closed, by simp, fun hr => ?_, hi.connected⟩
  · rw [effects_snoc, sent_snoc, TCPConnection.acceptedOf_append,
      TCPConnection.acceptedOf_shutdownInLoop, List.append_nil, hi.stream hopen]
    simp [sent]
  · exact hi.requested (by simpa using hr)

theorem forceCloseInLoop_cases (hc : c.forceCloseInLoop = (c', es)) :
    (c' = c ∧ es = []) ∨ c'.state = .kDisconnected ∧ c'.channel.isWriting = false ∧
      c'.outputBuffer = c.outputBuffer ∧ es = [.connectionCallback, .closeCallback] := by
  unfold TCPConnection.forceCloseInLoop at hc
  split_ifs at hc with hst
  · obtain ⟨rfl, rfl⟩ := Prod.mk.inj hc
    exact .inr ⟨rfl, c.channel.isWriting_disableAll, rfl, rfl⟩
  · obtain ⟨rfl, rfl⟩ := Prod.mk.inj hc
    exact .inl ⟨rfl, rfl⟩

theorem inv_step (hi : Inv h s) (hs : Step s a t) : Inv (h ++ [a]) t := by
  cases hs with
  | sendInLoop _ hc => exact inv_sendInLoop hi hc
  | handleWrite _ hc => exact inv_handleWrite hi hc
  | shutdown _ hc =>
    have ha := asks_shutdown hc
    rcases shutdown_cases hc with ⟨-, rfl, rfl⟩ | ⟨hst, rfl, rfl⟩
    · exact inv_asks hi ha rfl (fun _ => rfl) (by simp [TCPConnection.setState])
    · exact inv_asks hi ha rfl (by simp) fun _ => hst
  | shutdownInLoop => exact inv_shutdownInLoop hi
  | forceClose hn hc => exact inv_asks hi (asks_forceClose hc) rfl (by simp [hn]) (by simp)
  | forceCloseWithDelay hn hc =>
    exact inv_asks hi (asks_forceCloseWithDelay hc) rfl (by simp [hn]) (by simp)
  | forceCloseInLoop hn hc =>
    rcases forceCloseInLoop_cases hc with ⟨rfl, rfl⟩ | ⟨hst, hw, -, rfl⟩
    · exact inv_asks hi (.inl ⟨rfl, rfl⟩) rfl (by simp [hn]) (by simp)
    · exact ⟨fun hopen => absurd hst hopen, fun hopen => absurd hst hopen, fun _ => hw,
        by simp [hn], by simp [hst], by simp [hst]⟩

theorem inv_exec (he : system.Exec h s) : Inv h s := by
  induction he with
  | start hi => exact inv_start hi
  | snoc _ hs ih => exact inv_step ih hs

/-- The half-close has been executed: nothing is left to write, and nothing will ask for it. -/
structure Shut (s : LoopCalls) : Prop where
  calling : s.calling = false
  state : s.conn.state ≠ .kConnected
  writing : s.conn.channel.isWriting = false
  output : s.conn.outputBuffer = []

theorem shutdownInLoop_eq (c : TCPConnection) :
    (c.channel.isWriting = false ∧ c.shutdownInLoop = [.shutdownWrite]) ∨
      c.channel.isWriting = true ∧ c.shutdownInLoop = [] := by
  cases hw : c.channel.isWriting <;> simp [TCPConnection.shutdownInLoop, hw]

theorem shutdownWrite_notMem_sendInLoop {message : Bytes} {result : WriteResult}
    (hc : c.sendInLoop message result = (c', es)) : .shutdownWrite ∉ es := by
  by_cases hst : c.state = .kDisconnected
  · obtain ⟨-, rfl⟩ : c = c' ∧ [] = es := by simpa [TCPConnection.sendInLoop, hst] using hc
    simp
  · exact TCPConnection.shutdownWrite_notMem_sendInLoop hst hc

theorem shutdownWrite_of_handleWrite {result : WriteResult}
    (hc : c.handleWrite result = (c', es)) (hm : .shutdownWrite ∈ es) :
    c'.state = .kDisconnecting ∧ c'.channel.isWriting = false ∧ c'.outputBuffer = [] ∧
      ∃ ds, es = ds ++ [.shutdownWrite] ∧ .shutdownWrite ∉ ds := by
  obtain ⟨ds, drained, hd, rfl⟩ := TCPConnection.drain_of_handleWrite hc
  have hds := TCPConnection.shutdownWrite_notMem_drain hd
  have htail := (List.mem_append.mp hm).resolve_left hds
  rcases TCPConnection.drain_cases hd with ⟨-, -, -, rfl⟩ | ⟨-, -, rfl, -⟩ |
    ⟨-, rfl, n, qs, -, -, -, -, -, rfl⟩
  · simp at htail
  · simp at htail
  · have hst : c.state = .kDisconnecting := by
      by_contra hst
      simp [TCPConnection.afterDrain, hst] at htail
    refine ⟨hst, by simp, rfl, ds, ?_, hds⟩
    simp [TCPConnection.afterDrain, TCPConnection.shutdownInLoop, hst]

/-- The two places of the half-close: it comes last in its step, with the output drained. -/
theorem shutdownWrite_last (hi : Inv h s) (hs : Step s a t) (hm : .shutdownWrite ∈ a.2) :
    Shut t ∧ t.conn.state = .kDisconnecting ∧
      ∃ es, a.2 = es ++ [.shutdownWrite] ∧ .shutdownWrite ∉ es := by
  cases hs with
  | sendInLoop _ hc => exact absurd hm (shutdownWrite_notMem_sendInLoop hc)
  | handleWrite hn hc =>
    obtain ⟨hst, hw, hout, hes⟩ := shutdownWrite_of_handleWrite hc hm
    exact ⟨⟨hn, by simp [hst], hw, hout⟩, hst, hes⟩
  | shutdownInLoop hcall =>
    have hst := hi.calling hcall
    rcases shutdownInLoop_eq s.conn with ⟨hw, heq⟩ | ⟨-, heq⟩
    · have hout : s.conn.outputBuffer = [] := by
        by_contra hne
        simp [(hi.interest (by simp [hst])).mpr hne] at hw
      exact ⟨⟨rfl, by simp [hst], hw, hout⟩, hst, [], heq, by simp⟩
    · simp [heq] at hm
  | shutdown _ hc => exact absurd hm (asks_shutdown hc).shutdownWrite_notMem
  | forceClose _ hc => exact absurd hm (asks_forceClose hc).shutdownWrite_notMem
  | forceCloseWithDelay _ hc => exact absurd hm (asks_forceCloseWithDelay hc).shutdownWrite_notMem
  | forceCloseInLoop _ hc =>
    rcases forceCloseInLoop_cases hc with ⟨-, rfl⟩ | ⟨-, -, -, rfl⟩ <;> simp at hm

/-- A direct write that fails with `EPIPE` leaves the connection as it was. -/
theorem sendInLoop_epipe {message : Bytes} {result : WriteResult} (hw : c.channel.isWriting = false)
    (hout : c.outputBuffer = []) (hc : c.sendInLoop message result = (c', es))
    (hk : ∀ data result, .write data result ∈ es → result = .failed .EPIPE) : c' = c := by
  simp only [TCPConnection.sendInLoop, hw, hout, List.isEmpty_nil, Bool.not_false, Bool.and_self,
    if_true] at hc
  split_ifs at hc with hst
  · exact (Prod.mk.inj hc).1.symm
  · cases result with
    | wrote n =>
      obtain ⟨-, rfl⟩ := Prod.mk.inj hc
      cases hk message (.wrote n) (by simp)
    | failed errno =>
      dsimp only at hc
      split_ifs at hc with hfatal
      · exact (Prod.mk.inj hc).1.symm
      · obtain ⟨-, rfl⟩ := Prod.mk.inj hc
        have herr : errno = .EPIPE := by simpa using hk message (.failed errno) (by simp)
        exact absurd (.inl herr) hfatal

theorem Asks.shut {b : Bool} (ha : Asks s.conn c es) (hsh : Shut s) (hb : b = false) :
    Shut ⟨c, b⟩ := by
  rcases ha with ⟨rfl, -⟩ | ⟨-, rfl, -⟩
  · exact ⟨hb, hsh.state, hsh.writing, hsh.output⟩
  · exact ⟨hb, by simp [TCPConnection.setState], hsh.writing, hsh.output⟩

/-- Once executed it is not executed again, as long as writes fail with `EPIPE`. -/
theorem shut_step (hsh : Shut s) (hs : Step s a t)
    (hk : ∀ data result, .write data result ∈ a.2 → result = .failed .EPIPE) :
    Shut t ∧ .shutdownWrite ∉ a.2 := by
  cases hs with
  | sendInLoop hn hc =>
    obtain rfl := sendInLoop_epipe hsh.writing hsh.output hc hk
    exact ⟨hsh, shutdownWrite_notMem_sendInLoop hc⟩
  | handleWrite hn hc =>
    obtain ⟨rfl, rfl⟩ : s.conn = _ ∧ [] = _ := by
      simpa [TCPConnection.handleWrite, TCPConnection.drain, hsh.writing] using hc
    exact ⟨hsh, by simp⟩
  | shutdownInLoop hcall => simp [hsh.calling] at hcall
  | shutdown hn hc =>
    have ha := asks_shutdown hc
    rcases shutdown_cases hc with ⟨hst, -⟩ | ⟨-, rfl, rfl⟩
    · exact absurd hst hsh.state
    · exact ⟨ha.shut hsh (by simp), by simp⟩
  | forceClose hn hc =>
    have ha := asks_forceClose hc
    exact ⟨ha.shut hsh hn, ha.shutdownWrite_notMem⟩
  | forceCloseWithDelay hn hc =>
    have ha := asks_forceCloseWithDelay hc
    exact ⟨ha.shut hsh hn, ha.shutdownWrite_notMem⟩
  | forceCloseInLoop hn hc =>
    rcases forceCloseInLoop_cases hc with ⟨rfl, rfl⟩ | ⟨hst, hw, hout, rfl⟩
    · exact ⟨hsh, by simp⟩
    · exact ⟨⟨hn, by simp [hst], hw, hout.trans hsh.output⟩, by simp⟩

theorem once_exec (he : system.Exec h s) (hk : (effects h).Pairwise EpipeAfter) :
    (effects h).count .shutdownWrite ≤ 1 ∧ (.shutdownWrite ∈ effects h → Shut s) := by
  induction he with
  | start => simp [effects]
  | @snoc h s t a he hs ih =>
    rw [effects_snoc, List.pairwise_append] at hk
    obtain ⟨hk, -, hafter⟩ := hk
    obtain ⟨hcount, hshut⟩ := ih hk
    rw [effects_snoc, List.count_append, List.mem_append]
    by_cases hm : .shutdownWrite ∈ effects h
    · obtain ⟨hsh, hnot⟩ := shut_step (hshut hm) hs fun data result hw =>
        hafter _ hm _ hw rfl data result rfl
      rw [List.count_eq_zero_of_not_mem hnot]
      exact ⟨hcount, fun _ => hsh⟩
    · rw [List.count_eq_zero_of_not_mem hm]
      by_cases hm' : .shutdownWrite ∈ a.2
      · obtain ⟨hsh, -, es, heq, hes⟩ := shutdownWrite_last (inv_exec he) hs hm'
        refine ⟨?_, fun _ => hsh⟩
        rw [heq, List.count_append, List.count_eq_zero_of_not_mem hes]
        simp
      · rw [List.count_eq_zero_of_not_mem hm']
        exact ⟨by simp, fun hor => absurd hor (by simp [hm, hm'])⟩

/-- The `handleWrite` that drains the output of a connection in `kDisconnecting`. -/
theorem shutdownWrite_of_drained {result : WriteResult} (hc : c.handleWrite result = (c', es))
    (hst : c.channel.isWriting = true → c.state = .kDisconnecting) (hne : c.outputBuffer ≠ [])
    (hout : c'.outputBuffer = []) : .shutdownWrite ∈ es := by
  obtain ⟨ds, drained, hd, rfl⟩ := TCPConnection.drain_of_handleWrite hc
  rcases TCPConnection.drain_cases hd with ⟨-, rfl, -⟩ | ⟨-, -, -, hcase⟩ |
    ⟨hw, rfl, n, qs, -, -, -, -, -, rfl⟩
  · exact absurd hout hne
  · rcases hcase with ⟨n, -, hlt, rfl⟩ | ⟨errno, -, rfl⟩ | ⟨-, rfl⟩
    · have hle : c.outputBuffer.length ≤ n := by simpa using hout
      omega
    · exact absurd hout hne
    · exact absurd hout hne
  · simp [TCPConnection.afterDrain, TCPConnection.shutdownInLoop, hst hw]

/-- In every run of the loop thread the half-close comes after all that was sent, at most once,
and at the latest when the output has drained. -/
theorem half_close_in_order (he : system.Exec h s) : InOrder h s where
  drained a t hs hm := by
    have hi := inv_exec he
    obtain ⟨hsh, hst, es, heq, -⟩ := shutdownWrite_last hi hs hm
    have hstream := (inv_step hi hs).stream (by simp [hst])
    rw [hsh.output, List.append_nil] at hstream
    exact ⟨hsh.output, hstream, es, heq⟩
  once hk := (once_exec he hk).1
  finished hr result es t hs hne hout := by
    have hi := inv_exec he
    cases hs with
    | handleWrite hn hc =>
      refine shutdownWrite_of_drained hc (fun hw => ?_) hne hout
      cases hst : s.conn.state with
      | kDisconnected => simp [hi.closed hst] at hw
      | kConnecting => exact absurd hst hi.connected
      | kConnected => exact absurd hst (hi.requested hr)
      | kDisconnecting => rfl

def established : TCPConnection := (TCPConnection.new false false).connectEstablished.1

/-- Two bytes are left of a message of three. -/
def pending : TCPConnection :=
  { established with outputBuffer := [2, 3], channel := established.channel.enableWriting }

/-- A partial write, and the request while the rest is pending. -/
def pendingRun : List Label :=
  [(.sendInLoop [1, 2, 3] (.wrote 1), [.write [1, 2, 3] (.wrote 1)]),
   (.shutdown, [.runInLoop .shutdownInLoop]),
   (.shutdownInLoop, [])]

theorem pendingRun_exec : system.Exec pendingRun ⟨pending.setState .kDisconnecting, false⟩ := by
  have e₀ : system.Exec [] ⟨established, false⟩ := .start ⟨rfl, rfl, by decide, rfl⟩
  have e₁ : system.Exec _ ⟨pending, false⟩ :=
    e₀.snoc (@Step.sendInLoop _ [1, 2, 3] (.wrote 1) _ _ rfl rfl)
  have e₂ : system.Exec _ ⟨pending.setState .kDisconnecting, true⟩ := e₁.snoc (.shutdown rfl rfl)
  exact e₂.snoc (.shutdownInLoop rfl)

/-- The write that drains the rest. -/
theorem half_close_in_order_pending : ∃ t es, system.Exec pendingRun
      ⟨pending.setState .kDisconnecting, false⟩ ∧
    Step ⟨pending.setState .kDisconnecting, false⟩ (.handleWrite (.wrote 2), es) t ∧
    t.conn.outputBuffer = [] ∧ .shutdownWrite ∈ es ∧
    (effects (pendingRun ++ [(.handleWrite (.wrote 2), es)])).Pairwise EpipeAfter ∧
    (effects (pendingRun ++ [(.handleWrite (.wrote 2), es)])).count .shutdownWrite ≤ 1 := by
  have he := pendingRun_exec
  have hs : Step ⟨pending.setState .kDisconnecting, false⟩
      (.handleWrite (.wrote 2), [.write [2, 3] (.wrote 2), .shutdownWrite])
      ⟨{ pending.setState .kDisconnecting with
          outputBuffer := [], channel := pending.channel.disableWriting }, false⟩ :=
    .handleWrite rfl rfl
  have hk : (effects (pendingRun ++ [(.handleWrite (.wrote 2),
      [.write [2, 3] (.wrote 2), .shutdownWrite])])).Pairwise EpipeAfter := by
    simp [effects, pendingRun, EpipeAfter]
  refine ⟨_, _, he, hs, rfl, ?_, hk, (half_close_in_order (he.snoc hs)).once hk⟩
  exact (half_close_in_order he).finished ⟨[.runInLoop .shutdownInLoop], by decide⟩ _ _ _ hs
    (by decide) rfl

end LoopCalls

end Lute
