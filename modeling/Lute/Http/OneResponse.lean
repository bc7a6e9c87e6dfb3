import Lute.Http.HttpServer
import Lute.Http.Incremental
import Lute.Polaris.OutputStream

/-! One connection of the HTTP server whose peer keeps its side open: requests in, responses out. -/
namespace Lute.Http

/-- The connection, with the context the server keeps in it. -/
structure HttpConnection where
  context : HttpContext
  conn : TCPConnection
  deriving DecidableEq, Repr

/-- A readable event with the bytes read, or a writable one. Each read comes with the callback's
behaviour at that moment and with what the kernel answers to a direct write. -/
inductive Input
  | read (chunk : Bytes) (receiveTime : Int) (httpCallback : HttpCallback)
      (kernel : Bytes → WriteResult)
  | write (result : WriteResult)

/-- A call of `httpCallback_` with the response it left, and a message passed to `send` with
whether it was taken. -/
inductive Event
  | dispatched (req : HttpRequest) (response : HttpResponse)
  | sent (message : Bytes) (accepted : Bool)
  deriving DecidableEq, Repr

/-- The response that `onRequest` has `httpCallback_` fill in. -/
def respond (httpCallback : HttpCallback) (req : HttpRequest) : HttpResponse :=
  let connection := req.getHeader (ascii "Connection")
  let close : Bool := connection = ascii "close" ∨
    (req.version = .kHttp10 ∧ connection ≠ ascii "Keep-Alive")
  httpCallback req (.new close)

def badRequestText : Bytes := ascii "HTTP/1.1 400 Bad Request\r\n\r\n"

theorem onRequest_eq (httpCallback : HttpCallback) (req : HttpRequest) :
    onRequest httpCallback req =
      [.callback req, .response (respond httpCallback req).appendToBuffer] ++
        if (respond httpCallback req).closeConnection then [.shutdown] else [] := rfl

namespace HttpConnection

/-- `conn->send(message)` on the loop thread. -/
def send (kernel : Bytes → WriteResult) (c : TCPConnection) (message : Bytes) :
    TCPConnection × List Event :=
  ((c.send true message (kernel message)).1, [.sent message (c.state = .kConnected)])

def perform (httpCallback : HttpCallback) (kernel : Bytes → WriteResult) (c : TCPConnection) :
    Effect → TCPConnection × List Event
  | .badRequest => send kernel c badRequestText
  | .callback req => (c, [.dispatched req (respond httpCallback req)])
  | .response message => send kernel c message
  | .shutdown => (c.shutdown.1, [])

def performAll (httpCallback : HttpCallback) (kernel : Bytes → WriteResult) :
    TCPConnection → List Effect → TCPConnection × List Event
  | c, [] => (c, [])
  | c, e :: es =>
    let (c, events) := perform httpCallback kernel c e
    let (c, more) := performAll httpCallback kernel c es
    (c, events ++ more)

/-- `TCPConnection::handleRead` with the server's `onMessage`, and `handleWrite`. -/
def handle (build : Build) (s : HttpConnection) : Input → Result (HttpConnection × List Event)
  | .read chunk receiveTime httpCallback kernel => do
    let (conn, _) := s.conn.handleRead (.data chunk)
    let session : Session := ⟨s.context, conn.inputBuffer⟩
    let (session, effects) ← session.onMessage build httpCallback receiveTime
    let (conn, events) := performAll httpCallback kernel conn effects
    return (⟨session.context, { conn with inputBuffer := session.inputBuffer }⟩, events)
  | .write result => return ({ s with conn := (s.conn.handleWrite result).1 }, [])

def run (build : Build) : HttpConnection → List Input → Result (HttpConnection × List Event)
  | s, [] => .ok (s, [])
  | s, input :: inputs => do
    let (s, events) ← s.handle build input
    let (s, more) ← s.run build inputs
    return (s, events ++ more)

/-- As `connectEstablished` and `onConnection` leave it. -/
def Established (s : HttpConnection) : Prop :=
  s.context = .fresh ∧ s.conn.state = .kConnected ∧ s.conn.inputBuffer = []

/-- The bytes read complete a request. -/
def Completes (build : Build) (s : HttpConnection) : Input → Prop
  | .read chunk receiveTime _ _ => ∃ ok ctx buf,
    s.context.parseRequest build (s.conn.inputBuffer ++ chunk) receiveTime = .ok (ok, ctx, buf) ∧
      ctx.gotAll = true
  | .write _ => False

/-- Every input of a run is met in a state that `P` relates to it. -/
def AtEach (build : Build) (P : HttpConnection → Input → Prop) (s : HttpConnection)
    (inputs : List Input) : Prop :=
  ∀ front input back, inputs = front ++ input :: back → ∀ t events,
    s.run build front = .ok (t, events) → P t input

/-- No request is completed by a read that comes after a shutdown. -/
def NoLateRequest (build : Build) (s : HttpConnection) (inputs : List Input) : Prop :=
  ∀ front input back, inputs = front ++ input :: back → ∀ t events,
    s.run build front = .ok (t, events) → t.conn.state ≠ .kConnected → ¬ t.Completes build input

end HttpConnection

/-- Every call of `httpCallback_` is followed at once by its response, which `send` takes. -/
def Answered : List Event → Prop
  | .dispatched _ response :: .sent message accepted :: events =>
    message = response.appendToBuffer ∧ accepted = true ∧ Answered events
  | .dispatched _ _ :: _ => False
  | .sent _ _ :: events => Answered events
  | [] => True

/-- Nothing is dispatched after a response that closes the connection. -/
def SilentAfterClose : List Event → Prop
  | .dispatched _ response :: events =>
    (response.closeConnection = true → ∀ req' response', .dispatched req' response' ∉ events) ∧
      SilentAfterClose events
  | .sent _ _ :: events => SilentAfterClose events
  | [] => True

section Parser

variable {build : Build} {t : Int} {ok ok' : Bool} {ctx ctx' : HttpContext} {buf buf' : Bytes}
  {n : Nat}

/-- A request is completed by a call that reports no error. -/
theorem parseLoop_gotAll (h : ctx.parseLoop build t n true buf = .ok (ok', ctx', buf'))
    (hg : ctx'.state = .kGotAll) : ok' = true := by
  induction n generalizing ctx buf with
  | zero => simp [HttpContext.parseLoop] at h
  | succ n ih =>
    rcases parseLoop_cases h with hstop | ⟨ok₁, ctx₁, buf₁, hi, hl⟩
    · obtain ⟨-, -, hne, -, -, rfl, -⟩ | ⟨i, req, -, -, -, ⟨rfl, -⟩ | ⟨-, -, -, rfl⟩⟩ |
        ⟨i, -, -, hm, -⟩ | ⟨-, -, hok, -⟩ | ⟨-, hm, -⟩ := iteration_cases hstop
      · exact absurd hg hne
      · rfl
      · cases hg
      · cases hm
      · exact hok
      · cases hm
    · obtain rfl := iteration_ok hi
      exact ih hl

end Parser

namespace HttpConnection

variable {build : Build} {s t u : HttpConnection} {chunk message : Bytes} {time : Int}
  {httpCallback : HttpCallback} {kernel : Bytes → WriteResult} {c : TCPConnection}
  {events : List Event} {inputs : List Input} {input : Input}

theorem shutdown_state : c.shutdown.1.state =
    if c.state = .kConnected then .kDisconnecting else c.state := by
  unfold TCPConnection.shutdown
  split_ifs <;> rfl

/-- What `onMessage` leaves: an incomplete request, or a fresh context and the one request's
response. -/
theorem onMessage_ok {x y : Session} {es : List Effect}
    (h : x.onMessage build httpCallback time = .ok (y, es)) :
    ∃ ok ctx buf, x.context.parseRequest build x.inputBuffer time = .ok (ok, ctx, buf) ∧
      ((ctx.gotAll = false ∧ y.context = ctx ∧ es = if ok then [] else [.badRequest, .shutdown]) ∨
        (ctx.gotAll = true ∧ y.context = .fresh ∧ es = onRequest httpCallback ctx.request)) := by
  obtain ⟨⟨ok, ctx, buf⟩, hp, h⟩ := bind_ok h
  refine ⟨ok, ctx, buf, hp, ?_⟩
  dsimp only at h
  cases hg : ctx.gotAll with
  | false =>
    rw [hg] at h
    obtain ⟨rfl, rfl⟩ := Prod.mk.inj (Except.ok.inj h)
    exact .inl ⟨rfl, rfl, rfl⟩
  | true =>
    obtain rfl : ok = true := parseLoop_gotAll hp (by simpa [HttpContext.gotAll] using hg)
    rw [hg] at h
    obtain ⟨rfl, rfl⟩ := Prod.mk.inj (Except.ok.inj h)
    exact .inr ⟨rfl, rfl, rfl⟩

/-- What a read does: it reports an error or completes nothing, or it answers one request. -/
theorem handle_read (h : s.handle build (.read chunk time httpCallback kernel) = .ok (t, events)) :
    ∃ ok ctx buf, s.context.parseRequest build (s.conn.inputBuffer ++ chunk) time =
        .ok (ok, ctx, buf) ∧
      ((ctx.gotAll = false ∧ t.context = ctx ∧
          (events = [] ∨ ∃ b, events = [.sent badRequestText b]) ∧
          (s.conn.state ≠ .kConnected → t.conn.state = s.conn.state)) ∨
        (ctx.gotAll = true ∧ t.context = .fresh ∧
          events = [.dispatched ctx.request (respond httpCallback ctx.request),
            .sent (respond httpCallback ctx.request).appendToBuffer (s.conn.state = .kConnected)] ∧
          ((respond httpCallback ctx.request).closeConnection = true →
            t.conn.state ≠ .kConnected) ∧
          (s.conn.state ≠ .kConnected → t.conn.state = s.conn.state))) := by
  obtain ⟨⟨session, es⟩, hm, h⟩ := bind_ok h
  obtain ⟨rfl, rfl⟩ := Prod.mk.inj (Except.ok.inj h)
  obtain ⟨ok, ctx, buf, hp, ⟨hg, hctx, rfl⟩ | ⟨hg, hctx, rfl⟩⟩ := onMessage_ok hm
  · refine ⟨ok, ctx, buf, hp, .inl ⟨hg, hctx, ?_⟩⟩
    cases ok with
    | true => exact ⟨.inl rfl, fun _ => rfl⟩
    | false =>
      refine ⟨.inr ⟨_, rfl⟩, fun hc => ?_⟩
      simp [performAll, perform, send, shutdown_state, TCPConnection.state_send, hc]
  · refine ⟨ok, ctx, buf, hp, .inr ⟨hg, hctx, ?_⟩⟩
    rw [onRequest_eq]
    cases hclose : (respond httpCallback ctx.request).closeConnection with
    | true =>
      refine ⟨rfl, fun _ => ?_, fun hc => ?_⟩
      · simp [performAll, perform, send, shutdown_state, TCPConnection.state_send]
        split_ifs with hc
        · simp
        · exact hc
      · simp [performAll, perform, send, shutdown_state, TCPConnection.state_send, hc]
    | false =>
      refine ⟨rfl, by simp, fun hc => ?_⟩
      simp [performAll, perform, send, TCPConnection.state_send]

theorem handle_write (result : WriteResult) (h : s.handle build (.write result) = .ok (t, events)) :
    events = [] ∧ t.context = s.context ∧ t.conn.state = s.conn.state := by
  obtain ⟨rfl, rfl⟩ := by simpa [handle] using h
  exact ⟨rfl, rfl, s.conn.state_handleWrite result⟩

theorem run_cons (h : s.run build (input :: inputs) = .ok (t, events)) :
    ∃ u es es', s.handle build input = .ok (u, es) ∧ u.run build inputs = .ok (t, es') ∧
      events = es ++ es' := by
  obtain ⟨⟨u, es⟩, hu, h⟩ := bind_ok h
  obtain ⟨⟨t', es'⟩, ht, h⟩ := bind_ok h
  obtain ⟨rfl, rfl⟩ := Prod.mk.inj (Except.ok.inj h)
  exact ⟨u, es, es', hu, ht, rfl⟩

theorem atEach_cons {P : HttpConnection → Input → Prop} {es : List Event}
    (hu : s.handle build input = .ok (u, es)) :
    s.AtEach build P (input :: inputs) ↔ P s input ∧ u.AtEach build P inputs := by
  constructor
  · intro h
    refine ⟨h [] input inputs rfl s [] rfl, fun front a back he v events hv => ?_⟩
    refine h (input :: front) a back (by simp [he]) v (es ++ events) ?_
    simp [run, hu, hv, bind, Except.bind, pure, Except.pure]
  · rintro ⟨hfirst, hrest⟩ front a back he v events hv
    cases front with
    | nil =>
      obtain ⟨rfl, rfl⟩ : input = a ∧ inputs = back := by simpa using he
      obtain ⟨rfl, -⟩ : s = v ∧ [] = events := by simpa [run] using hv
      exact hfirst
    | cons b front =>
      obtain ⟨rfl, rfl⟩ : input = b ∧ inputs = front ++ a :: back := by simpa using he
      obtain ⟨u', es', es'', hu', hv', -⟩ := run_cons hv
      obtain ⟨rfl, -⟩ : u = u' ∧ es = es' := by simpa [hu] using hu'
      exact hrest front a back rfl v es'' hv'

theorem noLateRequest_cons {es : List Event} (hu : s.handle build input = .ok (u, es)) :
    s.NoLateRequest build (input :: inputs) ↔
      (s.conn.state ≠ .kConnected → ¬ s.Completes build input) ∧
        u.NoLateRequest build inputs := by
  let P (v : HttpConnection) (a : Input) := v.conn.state ≠ .kConnected → ¬ v.Completes build a
  exact atEach_cons (P := P) hu

theorem completes_iff {ok : Bool} {ctx : HttpContext} {buf : Bytes}
    (hp : s.context.parseRequest build (s.conn.inputBuffer ++ chunk) time = .ok (ok, ctx, buf)) :
    s.Completes build (.read chunk time httpCallback kernel) ↔ ctx.gotAll = true := by
  simp [Completes, hp]

/-- Each request gets its response exactly if none is completed after a shutdown. -/
theorem answered_iff (h : s.run build inputs = .ok (t, events)) :
    Answered events ↔ s.NoLateRequest build inputs := by
  induction inputs generalizing s events with
  | nil =>
    obtain ⟨rfl, rfl⟩ : s = t ∧ [] = events := by simpa [run] using h
    simp [Answered, NoLateRequest]
  | cons input inputs ih =>
    obtain ⟨u, es, es', hu, ht, rfl⟩ := run_cons h
    rw [noLateRequest_cons hu, ← ih ht]
    cases input with
    | write result =>
      obtain ⟨rfl, -⟩ := handle_write result hu
      simp [Completes]
    | read chunk time httpCallback kernel =>
      obtain ⟨ok, ctx, buf, hp, ⟨hg, -, rfl | ⟨b, rfl⟩, -⟩ | ⟨hg, -, rfl, -⟩⟩ := handle_read hu
      · simp [completes_iff hp, hg]
      · simp [completes_iff hp, hg, Answered]
      · simp [completes_iff hp, hg, Answered]

/-- A connection that has been shut down stays so, and dispatches late requests only. -/
theorem silent_of_shut (h : s.run build inputs = .ok (t, events)) (hs : s.conn.state ≠ .kConnected)
    (hn : s.NoLateRequest build inputs) (req : HttpRequest) (response : HttpResponse) :
    .dispatched req response ∉ events := by
  induction inputs generalizing s events with
  | nil =>
    obtain ⟨-, rfl⟩ : s = t ∧ [] = events := by simpa [run] using h
    simp
  | cons input inputs ih =>
    obtain ⟨u, es, es', hu, ht, rfl⟩ := run_cons h
    obtain ⟨hlate, hn'⟩ := (noLateRequest_cons hu).mp hn
    cases input with
    | write result =>
      obtain ⟨rfl, -, hstate⟩ := handle_write result hu
      simpa using ih ht (hstate ▸ hs) hn'
    | read chunk time httpCallback kernel =>
      obtain ⟨ok, ctx, buf, hp, ⟨-, -, hes, hstate⟩ | ⟨hg, -⟩⟩ := handle_read hu
      · have hrest := ih ht (by rw [hstate hs]; exact hs) hn'
        rcases hes with rfl | ⟨b, rfl⟩ <;> simpa using hrest
      · exact absurd ((completes_iff hp).mpr hg) (hlate hs)

theorem silentAfterClose_of_noLateRequest (h : s.run build inputs = .ok (t, events))
    (hn : s.NoLateRequest build inputs) : SilentAfterClose events := by
  induction inputs generalizing s events with
  | nil =>
    obtain ⟨-, rfl⟩ : s = t ∧ [] = events := by simpa [run] using h
    trivial
  | cons input inputs ih =>
    obtain ⟨u, es, es', hu, ht, rfl⟩ := run_cons h
    obtain ⟨-, hn'⟩ := (noLateRequest_cons hu).mp hn
    have hrest := ih ht hn'
    cases input with
    | write result =>
      obtain ⟨rfl, -⟩ := handle_write result hu
      exact hrest
    | read chunk time httpCallback kernel =>
      obtain ⟨ok, ctx, buf, -, ⟨-, -, rfl | ⟨b, rfl⟩, -⟩ | ⟨-, -, rfl, hclose, -⟩⟩ := handle_read hu
      · exact hrest
      · exact hrest
      · refine ⟨fun hc req' response' => ?_, hrest⟩
        simpa using silent_of_shut ht (hclose hc) hn' req' response'

theorem handle_total (hs : s.context.state ≠ .kGotAll) (input : Input) :
    ∃ t events, s.handle .release input = .ok (t, events) ∧ t.context.state ≠ .kGotAll := by
  cases input with
  | write result => exact ⟨_, _, rfl, hs⟩
  | read chunk time httpCallback kernel =>
    obtain ⟨⟨ok, ctx, buf⟩, hp⟩ := parseRequest_total hs (s.conn.inputBuffer ++ chunk) time
    have hex : ∃ r, s.handle .release (.read chunk time httpCallback kernel) = .ok r := by
      simp only [handle, TCPConnection.handleRead, Session.onMessage, hp, bind, Except.bind]
      cases ctx.gotAll <;> exact ⟨_, rfl⟩
    obtain ⟨⟨t, events⟩, ht⟩ := hex
    refine ⟨t, events, ht, ?_⟩
    obtain ⟨-, ctx', -, -, ⟨hg, rfl, -⟩ | ⟨-, hfresh, -⟩⟩ := handle_read ht
    · simpa [HttpContext.gotAll] using hg
    · simp [hfresh, HttpContext.fresh]

theorem run_total (hs : s.context.state ≠ .kGotAll) (inputs : List Input) :
    ∃ t events, s.run .release inputs = .ok (t, events) := by
  induction inputs generalizing s with
  | nil => exact ⟨s, [], rfl⟩
  | cons input inputs ih =>
    obtain ⟨u, es, hu, hne⟩ := handle_total hs input
    obtain ⟨t, es', ht⟩ := ih hne
    exact ⟨t, es ++ es', by simp [run, hu, ht, bind, Except.bind, pure, Except.pure]⟩

/-- On a connection that has come up, each dispatched request has its response taken by `send`, and
none follows a closing one, exactly if no read after a shutdown completes a request. -/
theorem one_response_iff (hs : s.Established) (inputs : List Input) :
    (∃ t events, s.run .release inputs = .ok (t, events)) ∧
    ∀ build t events, s.run build inputs = .ok (t, events) →
      (Answered events ∧ SilentAfterClose events ↔ s.NoLateRequest build inputs) := by
  refine ⟨run_total (by simp [hs.1, HttpContext.fresh]) inputs, fun build t events h => ?_⟩
  constructor
  · rintro ⟨ha, -⟩
    exact (answered_iff h).mp ha
  · intro hn
    exact ⟨(answered_iff h).mpr hn, silentAfterClose_of_noLateRequest h hn⟩

def established : HttpConnection :=
  ⟨.fresh, { TCPConnection.new false false with state := .kConnected }⟩

/-- A read whose direct writes go through, under the default callback. -/
def get (text : String) : Input :=
  .read (ascii text) 0 defaultHttpCallback fun m => .wrote m.length

/-- Up to the last input of the run no shutdown has taken effect. -/
theorem noLateRequest_of_connected {s : HttpConnection} {build : Build} {inputs : List Input}
    (h : ∀ n < inputs.length, (s.run build (inputs.take n)).toOption.map (·.1.conn.state) =
      some .kConnected) : s.NoLateRequest build inputs := by
  rintro front input back rfl u es hu hne
  have hstate := h front.length (by simp)
  rw [List.take_left, hu] at hstate
  exact absurd (Option.some.inj hstate) hne

/-- The same under a callback that leaves the response as it is. -/
def ask (text : String) : Input :=
  .read (ascii text) 0 (fun _ resp => resp) fun m => .wrote m.length

/-- Two requests in five reads, with a writable event between, then one that closes. -/
def visit : List Input :=
  [ask "GET / HT", ask "TP/1.1\r\nHost: ", .write (.wrote 0), ask "lute\r\n\r\n",
    ask "POST /register HTTP/1.1\r\n", ask "\r\na=b", get "GET /a HTTP/1.1\r\n\r\n"]

theorem one_response_sample :
    ∃ t events, established.run .release visit = .ok (t, events) ∧ events.length = 6 ∧
      Answered events ∧ SilentAfterClose events := by
  obtain ⟨⟨t, events, h⟩, hiff⟩ := one_response_iff (s := established) ⟨rfl, rfl, rfl⟩ visit
  have hlen : (established.run .release visit).toOption.map (·.2.length) = some 6 := by decide
  rw [h] at hlen
  refine ⟨t, events, h, Option.some.inj hlen, (hiff .release t events h).mpr ?_⟩
  exact noLateRequest_of_connected (by decide)

/-- A second request in a segment of its own, behind one that closes. -/
theorem late_request_dispatched :
    ∃ t req response events, established.run .release
        [get "GET / HTTP/1.0\r\n\r\n", get "GET /pay HTTP/1.1\r\n\r\n"] = .ok (t, events) ∧
      events.drop 2 = [.dispatched req response, .sent response.appendToBuffer false] ∧
      ¬ (Answered events ∧ SilentAfterClose events) := by
  have hrun : ∃ t first reply req response, established.run .release
      [get "GET / HTTP/1.0\r\n\r\n", get "GET /pay HTTP/1.1\r\n\r\n"] =
        .ok (t, [.dispatched first reply, .sent reply.appendToBuffer true,
          .dispatched req response, .sent response.appendToBuffer false]) :=
    ⟨_, _, _, _, _, rfl⟩
  obtain ⟨t, first, reply, req, response, hrun⟩ := hrun
  refine ⟨t, req, response, _, hrun, rfl, ?_⟩
  rintro ⟨ha, -⟩
  simp [Answered] at ha

end HttpConnection

end Lute.Http
