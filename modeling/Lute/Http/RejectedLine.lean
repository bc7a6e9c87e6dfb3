import Lute.Http.OneResponse

/-! A rejected request line stays at the front of the input and is read again with every chunk. -/
namespace Lute.Http

section Parser

variable {build : Build} {t : Int} {ok ok' : Bool} {ctx ctx' : HttpContext} {buf buf' d : Bytes}
  {n : Nat}

/-- Past its request line a call neither fails nor comes back to expecting one. -/
theorem iteration_past {more : Bool} (hs : ctx.state ≠ .kExpectRequestLine)
    (h : ctx.iteration build t ok buf = .ok (more, ok', ctx', buf')) :
    ok' = ok ∧ ctx'.state ≠ .kExpectRequestLine := by
  obtain ⟨-, -, -, -, rfl, rfl, -⟩ | ⟨_, _, hst, -⟩ | ⟨i, hst, -, -, rfl, -, rfl⟩ |
    ⟨-, -, rfl, -, rfl⟩ | ⟨-, -, rfl, rfl, -⟩ := iteration_cases h
  · exact ⟨rfl, hs⟩
  · exact absurd hst hs
  · refine ⟨rfl, ?_⟩
    rcases headerLine_state ctx (buf.take i) with hl | hl
    · rw [hl]
      exact hs
    · simp [hl]
  · exact ⟨rfl, by simp⟩
  · exact ⟨rfl, hs⟩

theorem parseLoop_past (hs : ctx.state ≠ .kExpectRequestLine)
    (h : ctx.parseLoop build t n ok buf = .ok (ok', ctx', buf')) :
    ok' = ok ∧ ctx'.state ≠ .kExpectRequestLine := by
  induction n generalizing ok ctx buf with
  | zero => simp [HttpContext.parseLoop] at h
  | succ n ih =>
    rcases parseLoop_cases h with hstop | ⟨ok₁, ctx₁, buf₁, hi, hl⟩
    · exact iteration_past hs hstop
    · obtain ⟨rfl, hs₁⟩ := iteration_past hs hi
      exact ih hs₁ hl

theorem state_of_more (h : ctx.iteration build t ok buf = .ok (true, ok', ctx', buf')) :
    ctx'.state ≠ .kExpectRequestLine := by
  by_cases hs : ctx.state = .kExpectRequestLine
  · obtain ⟨hm, -⟩ | ⟨_, _, -, -, -, ⟨-, -, -, rfl⟩ | ⟨-, hm, -⟩⟩ | ⟨_, hst, -⟩ | ⟨hst, -⟩ |
      ⟨hst, -⟩ := iteration_cases h
    · cases hm
    · simp
    · cases hm
    · rw [hs] at hst
      cases hst
    · rw [hs] at hst
      cases hst
    · rw [hs] at hst
      cases hst
  · exact (iteration_past hs h).2

/-- A call whose first iteration reads a complete request line in `buf`, rejects it and ends the
call. The line may leave its marks on the request, on nothing else. -/
structure Refused (build : Build) (t : Int) (ctx ctx' : HttpContext) (buf : Bytes) : Prop where
  examined : ∃ i, findCRLF buf = some i ∧
    processRequestLine build ctx.request (buf.take i) = .ok (false, ctx'.request)
  ended : ctx.iteration build t true buf = .ok (false, false, ctx', buf)
  expecting : ctx.state = .kExpectRequestLine
  unmoved : ctx'.state = ctx.state

/-- How a call ends: past the request line, before a complete one, or with a rejected one. -/
theorem parseLoop_ends (h : ctx.parseLoop build t n true buf = .ok (ok, ctx', buf')) :
    (ok = true ∧ ctx'.state ≠ .kExpectRequestLine) ∨
      (ok = true ∧ ctx' = ctx ∧ buf' = buf ∧ findCRLF buf = none) ∨
      (ok = false ∧ buf' = buf ∧ Refused build t ctx ctx' buf) := by
  cases n with
  | zero => simp [HttpContext.parseLoop] at h
  | succ n =>
    rcases parseLoop_cases h with hstop | ⟨ok₁, ctx₁, buf₁, hi, hl⟩
    · obtain ⟨-, -, -, hf, rfl, rfl, rfl⟩ | ⟨i, req, hst, hf, hp, ⟨-, hm, -⟩ | ⟨rfl, -, rfl, rfl⟩⟩ |
        ⟨_, -, -, hm, -⟩ | ⟨-, -, rfl, -, rfl⟩ | ⟨-, hm, -⟩ := iteration_cases hstop
      · exact .inr (.inl ⟨rfl, rfl, rfl, hf⟩)
      · cases hm
      · exact .inr (.inr ⟨rfl, rfl, ⟨i, hf, hp⟩, hstop, hst, hst.symm⟩)
      · cases hm
      · exact .inl ⟨rfl, by simp⟩
      · cases hm
    · obtain rfl := iteration_ok hi
      exact .inl (parseLoop_past (state_of_more hi) hl)

end Parser

/-- No response a callback can fill in reads like the fixed text. -/
theorem appendToBuffer_ne (resp : HttpResponse) : resp.appendToBuffer ≠ badRequestText := by
  intro h
  have hlen := congrArg List.length h
  have hbad : badRequestText.length = 28 := by decide
  have hline : 11 ≤ (HttpResponse.snprintf32 (ascii "HTTP/1.1 " ++
      ascii (toString resp.statusCode.toNat) ++ ascii " ")).length := by
    cases resp.statusCode <;> decide
  have hcrlf : kCRLF.length = 2 := rfl
  have hclose : (ascii "Connection: close").length = 17 := by decide
  have hkeep : (ascii "Connection: Keep-Alive").length = 22 := by decide
  simp only [HttpResponse.appendToBuffer, List.length_append, hcrlf, hbad] at hlen
  split_ifs at hlen
  · simp only [List.length_append, hclose, hcrlf] at hlen
    omega
  · simp only [List.length_append, hkeep, hcrlf] at hlen
    omega

namespace HttpConnection

variable {build : Build} {s t u : HttpConnection} {chunk : Bytes} {time : Int}
  {httpCallback : HttpCallback} {kernel : Bytes → WriteResult} {events es : List Event}
  {inputs front back : List Input} {input : Input} {ok : Bool} {ctx : HttpContext} {buf : Bytes}

theorem handle_of_onMessage {y : Session} {effects : List Effect}
    (h : Session.onMessage build httpCallback ⟨s.context, s.conn.inputBuffer ++ chunk⟩ time =
      .ok (y, effects)) :
    s.handle build (.read chunk time httpCallback kernel) =
      let done := performAll httpCallback kernel (s.conn.handleRead (.data chunk)).1 effects
      .ok (⟨y.context, { done.1 with inputBuffer := y.inputBuffer }⟩, done.2) := by
  simp only [handle, TCPConnection.handleRead, h, bind, Except.bind]
  rfl

/-- A read by what its call of `parseRequest` returned. -/
theorem handle_parsed (httpCallback : HttpCallback) (kernel : Bytes → WriteResult)
    (hp : s.context.parseRequest build (s.conn.inputBuffer ++ chunk) time = .ok (ok, ctx, buf)) :
    ∃ conn, s.handle build (.read chunk time httpCallback kernel) =
        .ok (⟨if ctx.gotAll then .fresh else ctx, conn⟩,
          if ctx.gotAll then
            [.dispatched ctx.request (respond httpCallback ctx.request),
              .sent (respond httpCallback ctx.request).appendToBuffer (s.conn.state = .kConnected)]
          else if ok then [] else [.sent badRequestText (s.conn.state = .kConnected)]) ∧
      conn.inputBuffer = buf ∧ (ok = false → conn.state ≠ .kConnected) := by
  cases hg : ctx.gotAll with
  | true =>
    obtain rfl : ok = true := parseLoop_gotAll hp (by simpa [HttpContext.gotAll] using hg)
    have hm : Session.onMessage build httpCallback ⟨s.context, s.conn.inputBuffer ++ chunk⟩ time =
        .ok (⟨.fresh, buf⟩, onRequest httpCallback ctx.request) := by
      simp [Session.onMessage, hp, hg, HttpContext.reset]
    rw [handle_of_onMessage hm, onRequest_eq]
    cases (respond httpCallback ctx.request).closeConnection <;> exact ⟨_, rfl, rfl, by simp⟩
  | false =>
    have hm : Session.onMessage build httpCallback ⟨s.context, s.conn.inputBuffer ++ chunk⟩ time =
        .ok (⟨ctx, buf⟩, if ok then [] else [.badRequest, .shutdown]) := by
      simp [Session.onMessage, hp, hg]
    rw [handle_of_onMessage hm]
    cases ok with
    | true => exact ⟨_, rfl, rfl, by simp⟩
    | false =>
      refine ⟨_, rfl, rfl, fun _ => ?_⟩
      simp [performAll, perform, send, shutdown_state, TCPConnection.state_send]
      split_ifs with hc
      · simp
      · exact hc

theorem run_append (h : s.run build (front ++ back) = .ok (t, events))
    (hf : s.run build front = .ok (u, es)) :
    ∃ es', u.run build back = .ok (t, es') ∧ events = es ++ es' := by
  induction front generalizing s events es with
  | nil =>
    obtain ⟨rfl, rfl⟩ : s = u ∧ [] = es := by simpa [run] using hf
    exact ⟨events, h, rfl⟩
  | cons input front ih =>
    obtain ⟨v, es₁, es₂, hv, hrest, rfl⟩ := run_cons h
    obtain ⟨v', es₃, es₄, hv', hrest', rfl⟩ := run_cons hf
    obtain ⟨rfl, rfl⟩ : v = v' ∧ es₁ = es₃ := by simpa [hv] using hv'
    obtain ⟨es', hback, rfl⟩ := ih hrest hrest'
    exact ⟨es', hback, by rw [List.append_assoc]⟩

/-- The read's call of `parseRequest` returns false. -/
def Rejects (build : Build) (s : HttpConnection) : Input → Prop
  | .read chunk receiveTime _ _ => ∃ ctx buf,
    s.context.parseRequest build (s.conn.inputBuffer ++ chunk) receiveTime = .ok (false, ctx, buf)
  | .write _ => False

/-- A line that reading again would reject again is at the front, and nothing more is sent. -/
structure Doomed (s : HttpConnection) : Prop where
  expecting : s.context.state = .kExpectRequestLine
  line : ∃ i, findCRLF s.conn.inputBuffer = some i ∧
    requestLine s.context.request (s.conn.inputBuffer.take i) = (false, s.context.request)
  shut : s.conn.state ≠ .kConnected

theorem Doomed.parseRequest (hd : s.Doomed) (chunk : Bytes) (time : Int) :
    s.context.parseRequest .release (s.conn.inputBuffer ++ chunk) time =
      .ok (false, s.context, s.conn.inputBuffer ++ chunk) := by
  obtain ⟨i, hf, hl⟩ := hd.line
  have hp : processRequestLine .release s.context.request (s.conn.inputBuffer.take i) =
      .ok (false, s.context.request) := by
    rw [processRequestLine_eq (Or.inl rfl), hl]
  have hagain := (iteration_rejected (t := time) (d := chunk) hd.expecting hf hp).1
  rw [show (⟨.kExpectRequestLine, s.context.request⟩ : HttpContext) = s.context by
    rw [← hd.expecting]] at hagain
  exact parseLoop_of_stop hagain

theorem Doomed.rejects (hd : s.Doomed) (chunk : Bytes) (time : Int) (httpCallback : HttpCallback)
    (kernel : Bytes → WriteResult) : s.Rejects .release (.read chunk time httpCallback kernel) :=
  ⟨_, _, hd.parseRequest chunk time⟩

/-- A rejection dooms the connection, whose input and parser state it leaves as they were. -/
theorem Rejects.handle (h : s.Rejects .release (.read chunk time httpCallback kernel)) :
    ∃ v, s.handle .release (.read chunk time httpCallback kernel) =
        .ok (v, [.sent badRequestText (s.conn.state = .kConnected)]) ∧
      Refused .release time s.context v.context (s.conn.inputBuffer ++ chunk) ∧
      v.conn.inputBuffer = s.conn.inputBuffer ++ chunk ∧ v.Doomed := by
  obtain ⟨ctx, buf, hp⟩ := h
  obtain ⟨hok, -⟩ | ⟨hok, -⟩ | ⟨-, rfl, hr⟩ := parseLoop_ends hp
  · cases hok
  · cases hok
  · have hctx : ctx.state = .kExpectRequestLine := by rw [hr.unmoved, hr.expecting]
    have hg : ctx.gotAll = false := by simp [HttpContext.gotAll, hctx]
    obtain ⟨conn, hh, hin, hshut⟩ := handle_parsed httpCallback kernel hp
    rw [hg, if_neg (by simp), if_neg (by simp), if_neg (by simp)] at hh
    refine ⟨⟨ctx, conn⟩, hh, hr, hin, hctx, ?_, hshut rfl⟩
    obtain ⟨i, hf, hl⟩ := hr.examined
    rw [processRequestLine_eq (Or.inl rfl), Except.ok.injEq] at hl
    have hidem := requestLine_idem s.context.request ((s.conn.inputBuffer ++ chunk).take i)
    rw [hl] at hidem
    exact ⟨i, by rw [hin]; exact hf, by rw [hin]; exact hidem⟩

theorem inputBuffer_handleWrite (c : TCPConnection) (result : WriteResult) :
    (c.handleWrite result).1.inputBuffer = c.inputBuffer := by
  simp only [TCPConnection.handleWrite, TCPConnection.drain]
  repeat' split
  all_goals rfl

theorem Doomed.handle (hd : s.Doomed) (h : s.handle .release input = .ok (t, events)) :
    t.Doomed ∧ ∀ e ∈ events, e = .sent badRequestText false := by
  cases input with
  | write result =>
    obtain ⟨rfl, rfl⟩ := by simpa [HttpConnection.handle] using h
    refine ⟨⟨hd.expecting, ?_, ?_⟩, by simp⟩
    · rw [inputBuffer_handleWrite]
      exact hd.line
    · rw [TCPConnection.state_handleWrite]
      exact hd.shut
  | read chunk time httpCallback kernel =>
    obtain ⟨v, hv, -, -, hdoom⟩ := (hd.rejects chunk time httpCallback kernel).handle
    obtain ⟨rfl, rfl⟩ : v = t ∧ [.sent badRequestText (s.conn.state = .kConnected)] = events := by
      simpa [hv] using h
    exact ⟨hdoom, by simp [hd.shut]⟩

theorem Doomed.run (hd : s.Doomed) (h : s.run .release inputs = .ok (t, events)) :
    t.Doomed ∧ ∀ e ∈ events, e = .sent badRequestText false := by
  induction inputs generalizing s events with
  | nil =>
    obtain ⟨rfl, rfl⟩ : s = t ∧ [] = events := by simpa [HttpConnection.run] using h
    exact ⟨hd, by simp⟩
  | cons input inputs ih =>
    obtain ⟨u, es, es', hu, ht, rfl⟩ := run_cons h
    obtain ⟨hdu, hes⟩ := hd.handle hu
    obtain ⟨hdt, hes'⟩ := ih hdu ht
    refine ⟨hdt, fun e he => ?_⟩
    rcases List.mem_append.mp he with he | he
    · exact hes e he
    · exact hes' e he

theorem count_zero (h : ∀ e ∈ events, e = .sent badRequestText false) :
    events.count (.sent badRequestText true) = 0 := by
  apply List.count_eq_zero_of_not_mem
  intro hmem
  cases h _ hmem

/-- The first 400 shuts the connection down, and the callback's responses are none. -/
theorem count_badRequest (h : s.run .release inputs = .ok (t, events))
    (hs : s.context.state ≠ .kGotAll) : events.count (.sent badRequestText true) ≤ 1 := by
  induction inputs generalizing s events with
  | nil =>
    obtain ⟨-, rfl⟩ : s = t ∧ [] = events := by simpa [HttpConnection.run] using h
    simp
  | cons input inputs ih =>
    obtain ⟨u, es, es', hu, ht, rfl⟩ := run_cons h
    obtain ⟨u', es₁, hu', hne⟩ := handle_total hs input
    obtain ⟨rfl, rfl⟩ : u' = u ∧ es₁ = es := by simpa [hu'] using hu
    rw [List.count_append]
    cases input with
    | write result =>
      obtain ⟨rfl, -⟩ := handle_write result hu
      simpa using ih ht hne
    | read chunk time httpCallback kernel =>
      obtain ⟨⟨ok, ctx, buf⟩, hp⟩ := parseRequest_total hs (s.conn.inputBuffer ++ chunk) time
      cases ok with
      | false =>
        have hrej : s.Rejects .release (.read chunk time httpCallback kernel) := ⟨ctx, buf, hp⟩
        obtain ⟨v, hv, -, -, hd⟩ := hrej.handle
        obtain ⟨rfl, rfl⟩ : v = u' ∧ [.sent badRequestText (s.conn.state = .kConnected)] = es₁ := by
          simpa [hv] using hu
        rw [count_zero (hd.run ht).2]
        exact List.count_le_length
      | true =>
        obtain ⟨conn, hh, -⟩ := handle_parsed httpCallback kernel hp
        have hes := (Prod.mk.inj (Except.ok.inj (hu.symm.trans hh))).2
        have hzero : es₁.count (.sent badRequestText true) = 0 := by
          apply List.count_eq_zero_of_not_mem
          rw [hes]
          have hne := appendToBuffer_ne (respond httpCallback ctx.request)
          cases ctx.gotAll <;> simp [hne.symm]
        rw [hzero, Nat.zero_add]
        exact ih ht hne

/-- A rejected request line is final. Over a whole run at most one 400 is taken by `send`; and from
a call that returns false on, the line it read stays where it is, every later call returns
false and nothing is dispatched. -/
theorem rejection_final (hs : s.Established) (inputs : List Input) :
    ∃ t events, s.run .release inputs = .ok (t, events) ∧
      events.count (.sent badRequestText true) ≤ 1 ∧
      ∀ front chunk time httpCallback kernel back,
        inputs = front ++ .read chunk time httpCallback kernel :: back →
        ∀ u es, s.run .release front = .ok (u, es) →
        u.Rejects .release (.read chunk time httpCallback kernel) →
        ∃ v es' es'', u.handle .release (.read chunk time httpCallback kernel) = .ok (v, es') ∧
          v.run .release back = .ok (t, es'') ∧ events = es ++ (es' ++ es'') ∧
          Refused .release time u.context v.context (u.conn.inputBuffer ++ chunk) ∧
          v.conn.inputBuffer = u.conn.inputBuffer ++ chunk ∧
          (∀ req response, .dispatched req response ∉ es' ++ es'') ∧
          ∀ middle chunk' time' httpCallback' kernel' rest,
            back = middle ++ .read chunk' time' httpCallback' kernel' :: rest →
            ∀ w es₁, v.run .release middle = .ok (w, es₁) →
            w.Rejects .release (.read chunk' time' httpCallback' kernel') := by
  have hne : s.context.state ≠ .kGotAll := by simp [hs.1, HttpContext.fresh]
  obtain ⟨t, events, h⟩ := run_total hne inputs
  refine ⟨t, events, h, count_badRequest h hne, ?_⟩
  rintro front chunk time httpCallback kernel back rfl u es hu hrej
  obtain ⟨rest, hrest, rfl⟩ := run_append h hu
  obtain ⟨v, es', es'', hv, ht, rfl⟩ := run_cons hrest
  obtain ⟨v', hv', href, hin, hd⟩ := hrej.handle
  obtain ⟨rfl, rfl⟩ : v' = v ∧ [.sent badRequestText (u.conn.state = .kConnected)] = es' := by
    simpa [hv'] using hv
  refine ⟨v', _, es'', hv, ht, rfl, href, hin, ?_, ?_⟩
  · intro req response hmem
    rcases List.mem_append.mp hmem with hmem | hmem
    · simp at hmem
    · cases (hd.run ht).2 _ hmem
  · rintro middle chunk' time' httpCallback' kernel' rest rfl w es₁ hw
    exact (hd.run hw).1.rejects chunk' time' httpCallback' kernel'

/-- A rejected version, then a well-formed request behind it. -/
theorem rejection_final_retry :
    ∃ t events, established.run .release
        [get "GET / HTTP/1.2\r\n", get "GET / HTTP/1.1\r\n\r\n"] = .ok (t, events) ∧
      events.count (.sent badRequestText true) ≤ 1 ∧
      ∃ v, established.handle .release (get "GET / HTTP/1.2\r\n") =
          .ok (v, [.sent badRequestText true]) ∧
        v.Rejects .release (get "GET / HTTP/1.1\r\n\r\n") := by
  obtain ⟨t, events, h, hcount, hfinal⟩ := rejection_final (s := established) ⟨rfl, rfl, rfl⟩
    [get "GET / HTTP/1.2\r\n", get "GET / HTTP/1.1\r\n\r\n"]
  have hfirst : ∃ v, established.handle .release (get "GET / HTTP/1.2\r\n") =
      .ok (v, [.sent badRequestText true]) := ⟨_, rfl⟩
  have hrej : established.Rejects .release (get "GET / HTTP/1.2\r\n") := ⟨_, _, rfl⟩
  obtain ⟨v, hv⟩ := hfirst
  obtain ⟨v', es', es'', hv', -, -, -, -, -, hlater⟩ := hfinal [] _ _ _ _ _ rfl _ _ rfl hrej
  obtain ⟨rfl, rfl⟩ : v' = v ∧ es' = [.sent badRequestText true] := by
    have heq := Except.ok.inj (hv'.symm.trans hv)
    exact ⟨congrArg Prod.fst heq, congrArg Prod.snd heq⟩
  exact ⟨t, events, h, hcount, v', hv, hlater [] _ _ _ _ [] rfl _ _ rfl⟩

end HttpConnection

section Assertion

variable {t : Int} {ok : Bool} {ctx : HttpContext} {buf d : Bytes} {req : HttpRequest} {n : Nat}

/-- The line has a space, and a known method before it. -/
def NamesMethod (line : Bytes) : Prop :=
  line.idxOf 32 ≠ line.length ∧ HttpRequest.methodOf (line.take (line.idxOf 32)) ≠ .kInvalid

/-- The bytes begin with a complete line that names a known method. -/
def HoldsMethodLine (buf : Bytes) : Prop := ∃ i, findCRLF buf = some i ∧ NamesMethod (buf.take i)

theorem not_holdsMethodLine (h : findCRLF buf = none) : ¬ HoldsMethodLine buf := by
  rintro ⟨i, hi, -⟩
  rw [h] at hi
  cases hi

/-- No assertion is met by a context that has no method yet while it expects a request line. -/
def Unset (ctx : HttpContext) : Prop :=
  ctx.state = .kExpectRequestLine → ctx.request.method = .kInvalid

theorem iteration_debug (hu : Unset ctx) :
    ctx.iteration .debug t ok buf = ctx.iteration .release t ok buf := by
  obtain ⟨st, req⟩ := ctx
  cases st with
  | kExpectRequestLine =>
    have hm : req.method = .kInvalid := hu rfl
    have hline : processRequestLine .debug req = processRequestLine .release req := by
      funext line
      rw [processRequestLine_eq (Or.inr hm), processRequestLine_eq (Or.inl rfl)]
    simp only [HttpContext.iteration, hline]
  | kExpectHeaders => rfl
  | kExpectBody => rfl
  | kGotAll => rfl

theorem parseLoop_debug (hu : Unset ctx) :
    ctx.parseLoop .debug t n ok buf = ctx.parseLoop .release t n ok buf := by
  induction n generalizing ok ctx buf with
  | zero => rfl
  | succ n ih =>
    obtain ⟨⟨more, ok', ctx', buf'⟩, hi⟩ := iteration_total (t := t) ok ctx buf
    cases more with
    | false =>
      rw [parseLoop_of_stop hi, parseLoop_of_stop ((iteration_debug hu).trans hi)]
    | true =>
      rw [parseLoop_of_more hi, parseLoop_of_more ((iteration_debug hu).trans hi)]
      exact ih fun hs => absurd hs (state_of_more hi)

/-- A line that names a method is read into a request that has one already. -/
theorem parseRequest_asserts (hs : ctx.state = .kExpectRequestLine)
    (hm : ctx.request.method ≠ .kInvalid) (hl : HoldsMethodLine buf) :
    ctx.parseRequest .debug (buf ++ d) t = .error .assertion := by
  obtain ⟨i, hf, hspace, -⟩ := hl
  have hp : processRequestLine .debug ctx.request (buf.take i) = .error .assertion := by
    rw [processRequestLine, if_neg hspace]
    simp [HttpRequest.setMethod, Build.assert, hm, bind, Except.bind]
  simp [HttpContext.parseRequest, HttpContext.parseLoop, HttpContext.iteration, hs,
    findCRLF_append hf, take_append_of_crlf hf, hp, bind, Except.bind]

/-- The method a rejected line leaves. -/
theorem requestLine_method (hm : req.method = .kInvalid) (line : Bytes) :
    (requestLine req line).2.method ≠ .kInvalid ↔ NamesMethod line := by
  unfold requestLine NamesMethod
  by_cases hs : line.idxOf 32 = line.length
  · simp [hs, hm]
  · by_cases hk : HttpRequest.methodOf (line.take (line.idxOf 32)) = .kInvalid
    · simp [hs, hk]
    · simp [hs, hk, processTarget_method]

end Assertion

namespace HttpConnection

variable {s t u : HttpConnection} {chunk : Bytes} {time : Int} {httpCallback : HttpCallback}
  {kernel : Bytes → WriteResult} {events es : List Event} {inputs : List Input} {input : Input}

/-- A chunk comes behind a complete first line that names a method, where a request line is still
expected. -/
def LateChunk (s : HttpConnection) : Input → Prop
  | .read _ _ _ _ => s.context.state = .kExpectRequestLine ∧ HoldsMethodLine s.conn.inputBuffer
  | .write _ => False

/-- While a request line is expected, the request has a method exactly if the unread bytes begin
with a line that named it. -/
structure MethodRead (s : HttpConnection) : Prop where
  unfinished : s.context.state ≠ .kGotAll
  method : s.context.state = .kExpectRequestLine →
    (s.context.request.method ≠ .kInvalid ↔ HoldsMethodLine s.conn.inputBuffer)

theorem MethodRead.fresh (hs : s.context = .fresh) (hin : s.conn.inputBuffer = []) :
    s.MethodRead := by
  refine ⟨by simp [hs, HttpContext.fresh], fun _ => ?_⟩
  have hnil : ¬ HoldsMethodLine [] := not_holdsMethodLine (by decide)
  simp [hs, hin, HttpContext.fresh, HttpRequest.fresh, hnil]

/-- A completed request has taken the rest of the input as its body. -/
theorem parseLoop_gotAll_empty {build : Build} {ok : Bool} {ctx ctx' : HttpContext}
    {buf buf' : Bytes} {n : Nat} (hs : ctx.state ≠ .kGotAll)
    (h : ctx.parseLoop build time n true buf = .ok (ok, ctx', buf'))
    (hg : ctx'.state = .kGotAll) : buf' = [] := by
  induction n generalizing ctx buf with
  | zero => simp [HttpContext.parseLoop] at h
  | succ n ih =>
    rcases parseLoop_cases h with hstop | ⟨ok₁, ctx₁, buf₁, hi, hl⟩
    · obtain ⟨-, -, hne, -, -, rfl, -⟩ | ⟨_, _, -, -, -, ⟨-, hm, -⟩ | ⟨-, -, -, rfl⟩⟩ |
        ⟨_, -, -, hm, -⟩ | ⟨-, -, -, rfl, -⟩ | ⟨-, hm, -⟩ := iteration_cases hstop
      · exact absurd hg hne
      · cases hm
      · cases hg
      · cases hm
      · rfl
      · cases hm
    · obtain rfl := iteration_ok hi
      exact ih (iteration_shrinks hs hi).2 hl

theorem MethodRead.unset (hr : s.MethodRead)
    (hc : ¬ s.LateChunk (.read chunk time httpCallback kernel)) : Unset s.context := by
  intro hs
  by_contra hm
  exact hc ⟨hs, (hr.method hs).mp hm⟩

/-- A chunk that does not come late meets no assertion. -/
theorem MethodRead.read (hr : s.MethodRead)
    (hc : ¬ s.LateChunk (.read chunk time httpCallback kernel)) :
    ∃ t es, s.handle .debug (.read chunk time httpCallback kernel) = .ok (t, es) ∧
      t.MethodRead := by
  have hunset := hr.unset hc
  obtain ⟨⟨ok, ctx, buf⟩, hp⟩ := parseRequest_total hr.unfinished (s.conn.inputBuffer ++ chunk) time
  rw [HttpContext.parseRequest, ← parseLoop_debug hunset] at hp
  obtain ⟨conn, hh, hin, -⟩ := handle_parsed httpCallback kernel hp
  refine ⟨_, _, hh, ?_⟩
  cases hg : ctx.gotAll with
  | true =>
    have hst : ctx.state = .kGotAll := by simpa [HttpContext.gotAll] using hg
    exact .fresh rfl (hin.trans (parseLoop_gotAll_empty hr.unfinished hp hst))
  | false =>
    refine ⟨by simpa [HttpContext.gotAll] using hg, fun hst => ?_⟩
    have hst' : ctx.state = .kExpectRequestLine := hst
    show ctx.request.method ≠ .kInvalid ↔ HoldsMethodLine conn.inputBuffer
    obtain ⟨-, hne⟩ | ⟨-, rfl, rfl, hf⟩ | ⟨-, rfl, href⟩ := parseLoop_ends hp
    · exact absurd hst' hne
    · simp [hin, hunset hst', not_holdsMethodLine hf]
    · obtain ⟨i, hf, hl⟩ := href.examined
      have hm := hunset href.expecting
      rw [processRequestLine_eq (Or.inr hm), Except.ok.injEq] at hl
      have hmethod := requestLine_method hm ((s.conn.inputBuffer ++ chunk).take i)
      rw [hl] at hmethod
      rw [hin, hmethod]
      constructor
      · exact fun hn => ⟨i, hf, hn⟩
      · rintro ⟨j, hj, hn⟩
        obtain rfl : i = j := by simpa [hf] using hj
        exact hn

theorem MethodRead.asserts (hr : s.MethodRead)
    (hc : s.LateChunk (.read chunk time httpCallback kernel)) :
    s.handle .debug (.read chunk time httpCallback kernel) = .error .assertion := by
  have hm := (hr.method hc.1).mpr hc.2
  have hp := parseRequest_asserts (t := time) (d := chunk) hc.1 hm hc.2
  simp [handle, TCPConnection.handleRead, Session.onMessage, hp, bind, Except.bind]

/-- By induction on the run: it goes through if no chunk comes late, and stops at the first that
does. -/
theorem MethodRead.run (hr : s.MethodRead) (inputs : List Input) :
    (s.AtEach .debug (fun u input => ¬ u.LateChunk input) inputs ∧
        ∃ t events, s.run .debug inputs = .ok (t, events)) ∨
      (¬ s.AtEach .debug (fun u input => ¬ u.LateChunk input) inputs ∧
        s.run .debug inputs = .error .assertion) := by
  induction inputs generalizing s with
  | nil =>
    refine .inl ⟨fun front input back he => ?_, s, [], rfl⟩
    simp at he
  | cons input inputs ih =>
    by_cases hc : s.LateChunk input
    · refine .inr ⟨fun h => h [] input inputs rfl s [] rfl hc, ?_⟩
      cases input with
      | write result => exact hc.elim
      | read chunk time httpCallback kernel =>
        simp [HttpConnection.run, hr.asserts hc, bind, Except.bind]
    · have hstep : ∃ u es, s.handle .debug input = .ok (u, es) ∧ u.MethodRead := by
        cases input with
        | write result =>
          refine ⟨_, _, rfl, hr.unfinished, ?_⟩
          rw [inputBuffer_handleWrite]
          exact hr.method
        | read chunk time httpCallback kernel => exact hr.read hc
      obtain ⟨u, es, hu, hru⟩ := hstep
      rw [atEach_cons hu]
      rcases ih hru with ⟨hall, t, events, ht⟩ | ⟨hall, ht⟩
      · refine .inl ⟨⟨hc, hall⟩, t, es ++ events, ?_⟩
        simp [HttpConnection.run, hu, ht, bind, Except.bind, pure, Except.pure]
      · refine .inr ⟨fun h => hall h.2, ?_⟩
        simp [HttpConnection.run, hu, ht, bind, Except.bind]

/-- With assertions on, a run goes through exactly if no chunk is delivered behind a complete first
line that names a method and has been rejected; otherwise `setMethod` asserts. -/
theorem method_set_once_iff (hs : s.Established) (inputs : List Input) :
    ((∃ t events, s.run .debug inputs = .ok (t, events)) ↔
        s.AtEach .debug (fun u input => ¬ u.LateChunk input) inputs) ∧
      (s.run .debug inputs = .error .assertion ↔
        ¬ s.AtEach .debug (fun u input => ¬ u.LateChunk input) inputs) := by
  have hr : s.MethodRead := .fresh hs.1 hs.2.2
  rcases hr.run inputs with ⟨hall, t, events, h⟩ | ⟨hall, h⟩
  · simp [hall, h]
  · simp [hall, h]

/-- A line with an unknown method may be read any number of times. -/
theorem method_set_once_unknown :
    established.AtEach .debug (fun u input => ¬ u.LateChunk input)
      [get "FOO / HTTP/1.1\r\n", get "GET / HTTP/1.1\r\n\r\n"] :=
  (method_set_once_iff (s := established) ⟨rfl, rfl, rfl⟩
    [get "FOO / HTTP/1.1\r\n", get "GET / HTTP/1.1\r\n\r\n"]).1.mp ⟨_, _, rfl⟩

/-- A known method with a bad version, then anything more. -/
theorem rejected_line_asserts :
    established.run .debug [get "GET / HTTP/1.2\r\n", get "\r\n"] = .error .assertion ∧
      ¬ ∃ t events, established.run .debug [get "GET / HTTP/1.2\r\n", get "\r\n"] =
        .ok (t, events) := by
  have h : established.run .debug [get "GET / HTTP/1.2\r\n", get "\r\n"] =
      .error .assertion := rfl
  exact ⟨h, by simp [h]⟩

end HttpConnection

end Lute.Http
