import Lute.Http.Framing
import Lute.Http.OneResponse
import Lute.Http.ResponseFraming

/-! The whole way of an exchange: a peer's requests, read in pieces, parsed, answered, serialised,
queued and written in pieces; and what the peer makes of the bytes it gets. -/
namespace Lute.Http

open TCPConnection (acceptedOf)

namespace HttpConnection

/-- What the connection does at its socket for an effect of the session. A shutdown is carried out
in the loop thread at once. -/
def emit (kernel : Bytes → WriteResult) (c : TCPConnection) : Effect → List TCPConnection.Effect
  | .badRequest => (c.send true badRequestText (kernel badRequestText)).2
  | .callback _ => []
  | .response message => (c.send true message (kernel message)).2
  | .shutdown => if c.state = .kConnected then c.shutdown.1.shutdownInLoop else []

def emitAll (httpCallback : HttpCallback) (kernel : Bytes → WriteResult) :
    TCPConnection → List Effect → List TCPConnection.Effect
  | _, [] => []
  | c, e :: es =>
    emit kernel c e ++ emitAll httpCallback kernel (perform httpCallback kernel c e).1 es

/-- The same for an input. -/
def output (build : Build) (s : HttpConnection) : Input → List TCPConnection.Effect
  | .read chunk receiveTime httpCallback kernel =>
    let conn := (s.conn.handleRead (.data chunk)).1
    match (Session.mk s.context conn.inputBuffer).onMessage build httpCallback receiveTime with
    | .ok (_, effects) => emitAll httpCallback kernel conn effects
    | .error _ => []
  | .write result => (s.conn.handleWrite result).2

def outputs (build : Build) : HttpConnection → List Input → List TCPConnection.Effect
  | _, [] => []
  | s, input :: inputs =>
    s.output build input ++
      match s.handle build input with
      | .ok (t, _) => t.outputs build inputs
      | .error _ => []

end HttpConnection

/-- The messages `send` has taken. -/
def takenOf (events : List Event) : Bytes :=
  events.flatMap fun
    | .sent message true => message
    | _ => []

def reads (inputs : List Input) : List (Bytes × Int) :=
  inputs.filterMap fun
    | .read chunk receiveTime _ _ => some (chunk, receiveTime)
    | .write _ => none

/-- The server has one callback, whichever read calls it. -/
def Serves (httpCallback : HttpCallback) (inputs : List Input) : Prop :=
  ∀ chunk receiveTime f kernel, .read chunk receiveTime f kernel ∈ inputs → f = httpCallback

namespace HttpConnection

variable {build : Build} {s t : HttpConnection} {httpCallback : HttpCallback}
  {kernel : Bytes → WriteResult} {c : TCPConnection} {events : List Event} {input : Input}
  {inputs : List Input} {effects : List Effect}

theorem takenOf_append (events more : List Event) :
    takenOf (events ++ more) = takenOf events ++ takenOf more :=
  List.flatMap_append

/-- A message passed to `send` goes on the stream if the connection is up. -/
theorem send_stream (hs : c.state ≠ .kDisconnected) (message : Bytes)
    (hf : ∀ e ∈ (c.send true message (kernel message)).2, e.faulted = false) :
    acceptedOf (c.send true message (kernel message)).2 ++ (send kernel c message).1.outputBuffer =
      c.outputBuffer ++ takenOf (send kernel c message).2 := by
  unfold send
  by_cases hc : c.state = .kConnected
  · have hsend : c.send true message (kernel message) = c.sendInLoop message (kernel message) := by
      simp [TCPConnection.send, hc]
    rcases hr : c.sendInLoop message (kernel message) with ⟨c', es⟩
    simp only [hsend, hr] at hf ⊢
    have hany : es.any TCPConnection.Effect.faulted = false := by simpa using hf
    have hstream := TCPConnection.sendInLoop_stream hs hr
    rw [hany] at hstream
    simpa [takenOf, hc] using hstream
  · simp [TCPConnection.send, hc, takenOf, acceptedOf]

theorem perform_stream (httpCallback : HttpCallback) (hs : c.state ≠ .kDisconnected) (e : Effect)
    (hf : ∀ x ∈ emit kernel c e, x.faulted = false) :
    acceptedOf (emit kernel c e) ++ (perform httpCallback kernel c e).1.outputBuffer =
      c.outputBuffer ++ takenOf (perform httpCallback kernel c e).2 ∧
    (perform httpCallback kernel c e).1.state ≠ .kDisconnected := by
  cases e with
  | badRequest => exact ⟨send_stream hs _ hf, by simpa [perform, send, TCPConnection.state_send]⟩
  | response message =>
    exact ⟨send_stream hs _ hf, by simpa [perform, send, TCPConnection.state_send]⟩
  | callback req => exact ⟨by simp [emit, perform, takenOf, acceptedOf], hs⟩
  | shutdown =>
    simp only [emit, perform, TCPConnection.shutdown]
    split_ifs
    · exact ⟨by simp [TCPConnection.acceptedOf_shutdownInLoop, takenOf, TCPConnection.setState],
        by simp [TCPConnection.setState]⟩
    · exact ⟨by simp [takenOf, acceptedOf], hs⟩

theorem performAll_stream (hs : c.state ≠ .kDisconnected)
    (hf : ∀ x ∈ emitAll httpCallback kernel c effects, x.faulted = false) :
    acceptedOf (emitAll httpCallback kernel c effects) ++
        (performAll httpCallback kernel c effects).1.outputBuffer =
      c.outputBuffer ++ takenOf (performAll httpCallback kernel c effects).2 ∧
    (performAll httpCallback kernel c effects).1.state ≠ .kDisconnected := by
  induction effects generalizing c with
  | nil => exact ⟨by simp [emitAll, performAll, takenOf, acceptedOf], hs⟩
  | cons e effects ih =>
    simp only [emitAll, List.forall_mem_append] at hf
    obtain ⟨hfirst, hs'⟩ := perform_stream httpCallback hs e hf.1
    obtain ⟨hrest, hs''⟩ := ih hs' hf.2
    refine ⟨?_, hs''⟩
    simp only [emitAll, performAll, TCPConnection.acceptedOf_append, takenOf_append]
    rw [List.append_assoc, hrest, ← List.append_assoc, hfirst, List.append_assoc]

/-- One input continues the stream by the messages `send` takes. -/
theorem handle_stream (h : s.handle build input = .ok (t, events))
    (hs : s.conn.state ≠ .kDisconnected) (hf : ∀ x ∈ s.output build input, x.faulted = false) :
    acceptedOf (s.output build input) ++ t.conn.outputBuffer =
      s.conn.outputBuffer ++ takenOf events ∧ t.conn.state ≠ .kDisconnected := by
  cases input with
  | write result =>
    obtain ⟨rfl, rfl⟩ := by simpa [handle] using h
    rcases hr : s.conn.handleWrite result with ⟨c', es⟩
    obtain ⟨hstream, hst⟩ := TCPConnection.handleWrite_stream hr
    refine ⟨?_, hst ▸ hs⟩
    simpa only [output, hr, takenOf, List.flatMap_nil, List.append_nil] using hstream
  | read chunk time f kernel =>
    obtain ⟨⟨session, es⟩, hm, h⟩ := bind_ok h
    obtain ⟨rfl, rfl⟩ := Prod.mk.inj (Except.ok.inj h)
    have hmsg : (Session.mk s.context (s.conn.handleRead (.data chunk)).1.inputBuffer).onMessage
        build f time = .ok (session, es) := hm
    simp only [output, hmsg] at hf ⊢
    exact performAll_stream (c := (s.conn.handleRead (.data chunk)).1) hs hf

theorem run_stream (h : s.run build inputs = .ok (t, events)) (hs : s.conn.state ≠ .kDisconnected)
    (hf : ∀ x ∈ s.outputs build inputs, x.faulted = false) :
    acceptedOf (s.outputs build inputs) ++ t.conn.outputBuffer =
      s.conn.outputBuffer ++ takenOf events := by
  induction inputs generalizing s events with
  | nil =>
    obtain ⟨rfl, rfl⟩ : s = t ∧ [] = events := by simpa [run] using h
    simp [outputs, takenOf, acceptedOf]
  | cons input inputs ih =>
    obtain ⟨u, es, es', hu, ht, rfl⟩ := run_cons h
    simp only [outputs, hu, List.forall_mem_append] at hf ⊢
    obtain ⟨hfirst, hs'⟩ := handle_stream hu hs hf.1
    have hrest := ih ht hs' hf.2
    rw [TCPConnection.acceptedOf_append, takenOf_append, List.append_assoc, hrest,
      ← List.append_assoc, hfirst, List.append_assoc]

/-- The events of a request that is answered. -/
def answer (httpCallback : HttpCallback) (req : HttpRequest) : List Event :=
  [.dispatched req (respond httpCallback req),
    .sent (respond httpCallback req).appendToBuffer true]

/-- Reads aligned with requests reach the callback request by request. -/
theorem deliver_aligned {requests : List WireRequest} {rs : List (Bytes × Int)}
    (build : Build) (httpCallback : HttpCallback) (hal : Aligned requests (rs.map Prod.fst)) :
    ∃ reqs, Session.onConnection.deliver build httpCallback rs =
        .ok (Session.onConnection, reqs.flatMap (onRequest httpCallback)) ∧
      List.Forall₂ WireRequest.Matches reqs requests := by
  generalize hchunks : rs.map Prod.fst = chunks at hal
  induction hal generalizing rs with
  | nil =>
    obtain rfl : rs = [] := by simpa using hchunks
    exact ⟨[], rfl, .nil⟩
  | @cons r requests init chunks last hblock hinit htail ih =>
    obtain ⟨front, back, rfl, hfront, hback⟩ := List.map_eq_append_iff.mp hchunks
    obtain ⟨read, back, rfl, rfl, htailreads⟩ := List.map_eq_cons_iff.mp hback
    have hrec : received front = init.flatten := by
      rw [received, ← hfront, List.flatMap_def]
    have hwhole : received front ++ read.1 = r.head ++ r.body := by
      simpa [hrec, WireRequest.bytes] using hblock
    have hprefix : received front <+: r.head :=
      List.prefix_of_prefix_length_le ⟨read.1, hwhole⟩ (List.prefix_append _ _)
        (by rw [hrec]; exact Nat.le_of_lt hinit)
    obtain ⟨req, hdel, hmatch⟩ := deliver_complete build httpCallback read.2 hprefix
      (by rwa [hrec]) hwhole
    obtain ⟨reqs, hrest, hall⟩ := ih htailreads
    refine ⟨req :: reqs, ?_, .cons (hmatch.mpr rfl) hall⟩
    rw [show front ++ read :: back = (front ++ [read]) ++ back by simp, deliver_append, hdel,
      ok_bind]
    dsimp only
    rw [hrest, ok_bind]
    rfl

theorem callbacks_flatMap_onRequest (httpCallback : HttpCallback) (reqs : List HttpRequest) :
    callbacks (reqs.flatMap (onRequest httpCallback)) = reqs := by
  induction reqs with
  | nil => rfl
  | cons req reqs ih =>
    rw [List.flatMap_cons, callbacks_append, callbacks_onRequest, ih]
    rfl

/-- A read that leaves the connection up leaves the session as `Session.handleRead` does. -/
theorem handle_session (kernel : Bytes → WriteResult) {x : Session} {chunk : Bytes} {time : Int}
    (hs : s.conn.state = .kConnected)
    (hx : (Session.mk s.context s.conn.inputBuffer).handleRead build httpCallback chunk time =
      .ok (x, effects))
    (hbad : .badRequest ∉ effects)
    (hkeep : ∀ req ∈ callbacks effects, (respond httpCallback req).closeConnection = false) :
    ∃ t, s.handle build (.read chunk time httpCallback kernel) =
        .ok (t, (callbacks effects).flatMap (answer httpCallback)) ∧
      Session.mk t.context t.conn.inputBuffer = x ∧ t.conn.state = .kConnected := by
  have hmsg : (Session.mk s.context (s.conn.handleRead (.data chunk)).1.inputBuffer).onMessage
      build httpCallback time = .ok (x, effects) := hx
  have hhandle : s.handle build (.read chunk time httpCallback kernel) =
      .ok (⟨x.context, { (performAll httpCallback kernel
          (s.conn.handleRead (.data chunk)).1 effects).1 with inputBuffer := x.inputBuffer }⟩,
        (performAll httpCallback kernel (s.conn.handleRead (.data chunk)).1 effects).2) := by
    simp only [handle, hmsg, ok_bind, pure_eq_ok]
  rw [hhandle]
  have hup : (s.conn.handleRead (.data chunk)).1.state = .kConnected := hs
  obtain ⟨ok, ctx, buf, -, ⟨-, -, hes⟩ | ⟨-, -, hes⟩⟩ := onMessage_ok hmsg
  · cases ok with
    | false => simp [hes] at hbad
    | true =>
      obtain rfl : effects = [] := hes
      exact ⟨_, rfl, rfl, hup⟩
  · have hcb : callbacks effects = [ctx.request] := by rw [hes, callbacks_onRequest]
    have hclose := hkeep ctx.request (by simp [hcb])
    rw [onRequest_eq, hclose, if_neg Bool.false_ne_true, List.append_nil] at hes
    rw [hcb, hes]
    have hevents : (performAll httpCallback kernel (s.conn.handleRead (.data chunk)).1
        [.callback ctx.request, .response (respond httpCallback ctx.request).appendToBuffer]).2 =
          [ctx.request].flatMap (answer httpCallback) := by
      simp [performAll, perform, send, answer, hup]
    rw [hevents]
    exact ⟨_, rfl, rfl, (TCPConnection.state_send _ true _ _).trans hup⟩

theorem handle_write_session (result : WriteResult) :
    ∃ t, s.handle build (.write result) = .ok (t, []) ∧ t.context = s.context ∧
      t.conn.inputBuffer = s.conn.inputBuffer ∧ t.conn.state = s.conn.state := by
  refine ⟨_, rfl, rfl, ?_, s.conn.state_handleWrite result⟩
  rcases hd : s.conn.drain result with ⟨c', es, drained⟩
  simp only [TCPConnection.handleWrite, hd]
  rcases TCPConnection.drain_cases hd with ⟨-, rfl, -, -⟩ | ⟨-, -, -, ⟨n, -, -, rfl⟩ | ⟨e, -, rfl⟩ |
    ⟨-, rfl⟩⟩ | ⟨-, -, n, qs, -, -, -, -, -, rfl⟩ <;> rfl

/-- A session that reports no error and closes nothing is what the connection runs through, however
the writable events fall between the reads. -/
theorem run_of_deliver {x : Session} (hs : s.conn.state = .kConnected)
    (hserves : Serves httpCallback inputs)
    (hx : (Session.mk s.context s.conn.inputBuffer).deliver build httpCallback (reads inputs) =
      .ok (x, effects))
    (hbad : .badRequest ∉ effects)
    (hkeep : ∀ req ∈ callbacks effects, (respond httpCallback req).closeConnection = false) :
    ∃ t, s.run build inputs = .ok (t, (callbacks effects).flatMap (answer httpCallback)) ∧
      t.conn.state = .kConnected := by
  induction inputs generalizing s effects with
  | nil =>
    obtain ⟨rfl, rfl⟩ : Session.mk s.context s.conn.inputBuffer = x ∧ [] = effects := by
      simpa [reads, Session.deliver] using hx
    exact ⟨s, rfl, hs⟩
  | cons input inputs ih =>
    have hserves' : Serves httpCallback inputs :=
      fun chunk time f kernel hmem => hserves chunk time f kernel (by simp [hmem])
    cases input with
    | write result =>
      obtain ⟨u, hu, hctx, hbuf, hst⟩ := @handle_write_session build s result
      obtain ⟨t, ht, hup⟩ := ih (s := u) (hst.trans hs) hserves' (by rw [hctx, hbuf]; exact hx)
        hbad hkeep
      exact ⟨t, by simp [run, hu, ht, bind, Except.bind, pure, Except.pure], hup⟩
    | read chunk time f kernel =>
      obtain rfl := hserves chunk time f kernel (by simp)
      obtain ⟨⟨y, es⟩, hy, hrest⟩ := bind_ok hx
      obtain ⟨⟨z, es'⟩, hz, heq⟩ := bind_ok hrest
      obtain ⟨rfl, rfl⟩ := Prod.mk.inj (Except.ok.inj heq)
      simp only [List.mem_append, not_or] at hbad
      simp only [callbacks_append, List.mem_append] at hkeep
      obtain ⟨u, hu, hsession, hst⟩ := handle_session kernel hs hy hbad.1
        (fun req hreq => hkeep req (.inl hreq))
      obtain ⟨t, ht, hup⟩ := ih hst hserves' (by rw [hsession]; exact hz) hbad.2
        (fun req hreq => hkeep req (.inr hreq))
      refine ⟨t, ?_, hup⟩
      simp [run, hu, ht, bind, Except.bind, pure, Except.pure, callbacks_append]

theorem takenOf_answers (reqs : List HttpRequest) :
    takenOf (reqs.flatMap (answer httpCallback)) =
      (reqs.map (respond httpCallback)).flatMap HttpResponse.appendToBuffer := by
  induction reqs with
  | nil => rfl
  | cons req reqs ih =>
    rw [List.flatMap_cons, takenOf_append, ih]
    simp [answer, takenOf]

theorem framable_of_matches {reqs : List HttpRequest} {requests : List WireRequest}
    (hmatch : List.Forall₂ WireRequest.Matches reqs requests)
    (hkeep : ∀ r ∈ requests, ∀ req, WireRequest.Matches req r →
      Framable (respond httpCallback req)) :
    ∀ r ∈ reqs.map (respond httpCallback), Framable r := by
  induction hmatch with
  | nil => simp
  | @cons req r reqs requests hm _ ih =>
    simp only [List.map_cons, List.forall_mem_cons]
    exact ⟨hkeep r (by simp) req hm, ih fun w hw => hkeep w (by simp [hw])⟩

/-- A peer whose requests are read one by one, the end of each head in one read with the body,
and whose connection is kept alive and breaks off no write. However the heads are cut into reads
and the responses into writes, each request reaches the callback once, in order and whole; what
the kernel has taken, with what is queued, is the responses; the peer can decode nothing else from
what it has got but the first of them, in order, and once nothing is queued nothing but all of
them. -/
theorem exchange_round_trip {requests : List WireRequest} (hs : s.Established)
    (hout : s.conn.outputBuffer = []) (hserves : Serves httpCallback inputs)
    (hal : Aligned requests ((reads inputs).map Prod.fst))
    (hkeep : ∀ r ∈ requests, ∀ req, WireRequest.Matches req r →
      Framable (respond httpCallback req))
    (hfault : ∀ e ∈ s.outputs build inputs, e.faulted = false) :
    ∃ t reqs, s.run build inputs = .ok (t, reqs.flatMap (answer httpCallback)) ∧
      List.Forall₂ WireRequest.Matches reqs requests ∧
      acceptedOf (s.outputs build inputs) ++ t.conn.outputBuffer =
        (reqs.map (respond httpCallback)).flatMap HttpResponse.appendToBuffer ∧
      ∀ rs : List HttpResponse, (∀ r ∈ rs, Framable r) →
        (rs.flatMap HttpResponse.appendToBuffer <+: acceptedOf (s.outputs build inputs) →
          rs <+: reqs.map (respond httpCallback)) ∧
        (t.conn.outputBuffer = [] →
          rs.flatMap HttpResponse.appendToBuffer = acceptedOf (s.outputs build inputs) →
          rs = reqs.map (respond httpCallback)) := by
  obtain ⟨hctx, hup, hin⟩ := hs
  obtain ⟨reqs, hdel, hmatch⟩ := deliver_aligned build httpCallback hal
  have hcb := callbacks_flatMap_onRequest httpCallback reqs
  have hframable := framable_of_matches hmatch hkeep
  have hbad : .badRequest ∉ reqs.flatMap (onRequest httpCallback) := by
    simp only [List.mem_flatMap, not_exists, not_and]
    exact fun req _ => badRequest_notMem_onRequest httpCallback req
  have hsession : (Session.mk s.context s.conn.inputBuffer).deliver build httpCallback
      (reads inputs) = .ok (Session.onConnection, reqs.flatMap (onRequest httpCallback)) := by
    rw [hctx, hin]
    exact hdel
  obtain ⟨t, hrun, -⟩ := run_of_deliver hup hserves hsession hbad fun req hreq =>
    (hframable _ (List.mem_map_of_mem (hcb ▸ hreq))).keepAlive
  rw [hcb] at hrun
  have hstream := run_stream hrun (by simp [hup]) hfault
  rw [hout, List.nil_append, takenOf_answers] at hstream
  have hd := HttpResponse.selfDelimiting_appendToBuffer
  have hne := fun r => HttpResponse.appendToBuffer_ne_nil (r := r)
  refine ⟨t, reqs, hrun, hmatch, hstream, fun rs hrs => ⟨fun hpre => ?_, fun hempty heq => ?_⟩⟩
  · refine hd.flatMap_prefix hne hrs hframable ?_
    rw [← hstream]
    exact hpre.trans (List.prefix_append _ _)
  · rw [hempty, List.append_nil] at hstream
    exact hd.flatMap_inj hne hrs hframable (heq.trans hstream)

theorem framable_notFound : Framable HttpResponse.notFound :=
  ⟨rfl, by decide, by simp [HttpResponse.notFound], by decide⟩

def notFoundCallback : HttpCallback := fun _ _ => HttpResponse.notFound

/-- A request in two pieces; its response is taken in two pieces. -/
def piecewise : List Input :=
  [.read (postHello.bytes.take 3) 1 notFoundCallback fun _ => .wrote 0,
    .read (postHello.bytes.drop 3) 2 notFoundCallback fun _ => .wrote 5,
    .write (.wrote 1000)]

theorem exchange_round_trip_piecewise :
    ∃ t reqs, established.run .release piecewise =
        .ok (t, reqs.flatMap (answer notFoundCallback)) ∧
      List.Forall₂ WireRequest.Matches reqs [postHello] ∧
      acceptedOf (established.outputs .release piecewise) ++ t.conn.outputBuffer =
        (reqs.map (respond notFoundCallback)).flatMap HttpResponse.appendToBuffer := by
  have hserves : Serves notFoundCallback piecewise := by
    intro chunk time f kernel hmem
    simp only [piecewise, List.mem_cons, Input.read.injEq, reduceCtorEq, List.not_mem_nil,
      or_false] at hmem
    rcases hmem with ⟨-, -, rfl, -⟩ | ⟨-, -, rfl, -⟩ <;> rfl
  have hal : Aligned [postHello] ((reads piecewise).map Prod.fst) :=
    @Aligned.cons postHello [] [postHello.bytes.take 3] [] (postHello.bytes.drop 3)
      (by simp) (by decide) .nil
  have hfault : ∀ e ∈ established.outputs .release piecewise, e.faulted = false := by decide
  obtain ⟨t, reqs, hrun, hmatch, hstream, -⟩ := exchange_round_trip ⟨rfl, rfl, rfl⟩ rfl hserves hal
    (fun _ _ _ _ => framable_notFound) hfault
  exact ⟨t, reqs, hrun, hmatch, hstream⟩

end HttpConnection

end Lute.Http
