import Lute.Http.ParserSteps
import Mathlib.Data.List.Induction
import Mathlib.Tactic.IntervalCases

/-! Input delivered in pieces against the same input delivered at once. -/
namespace Lute.Http

/-- A request with its receive time forgotten. -/
def HttpRequest.untimed (req : HttpRequest) : HttpRequest := { req with receiveTime := 0 }

def HttpContext.untimed (ctx : HttpContext) : HttpContext :=
  { ctx with request := ctx.request.untimed }

/-- The outcome of a call with the receive time forgotten. -/
def untimed (r : Bool × HttpContext × Bytes) : Bool × HttpContext × Bytes :=
  (r.1, r.2.1.untimed, r.2.2)

variable {build : Build} {t : Int} {ok : Bool} {ctx : HttpContext} {buf : Bytes} {n : Nat}
  {r : Bool × HttpContext × Bytes}

theorem processTarget_untimed (req : HttpRequest) (rest : Bytes) :
    processTarget req.untimed rest =
      ((processTarget req rest).1, (processTarget req rest).2.untimed) := by
  by_cases hs : rest.idxOf 32 = rest.length
  · simp [processTarget, hs]
  · cases hv : versionOf (rest.drop (rest.idxOf 32 + 1)) <;>
      simp only [processTarget, hs, hv, if_false, HttpRequest.untimed, setTarget_receiveTime]

theorem setMethod_untimed (build : Build) (req : HttpRequest) (m : Bytes) :
    req.untimed.setMethod build m =
      (req.setMethod build m).map fun p => (p.1, p.2.untimed) := by
  unfold HttpRequest.setMethod Build.assert
  by_cases h : build = .debug ∧ ¬ req.method = .kInvalid <;>
    simp [HttpRequest.untimed, h, bind, Except.bind, Except.map]

theorem processRequestLine_untimed (build : Build) (req : HttpRequest) (line : Bytes) :
    processRequestLine build req.untimed line =
      (processRequestLine build req line).map fun p => (p.1, p.2.untimed) := by
  by_cases hs : line.idxOf 32 = line.length
  · simp [processRequestLine, hs, Except.map]
  · simp only [processRequestLine, hs, if_false, setMethod_untimed]
    cases hm : req.setMethod build (line.take (line.idxOf 32)) with
    | error e => rfl
    | ok p =>
      obtain ⟨known, req'⟩ := p
      cases known
      · rfl
      · simp [Except.map, processTarget_untimed]

theorem headerLine_untimed (ctx : HttpContext) (line : Bytes) :
    ctx.untimed.headerLine line = (ctx.headerLine line).untimed := by
  by_cases hc : line.idxOf 58 ≠ line.length <;>
    simp [HttpContext.headerLine, hc, HttpContext.untimed, HttpRequest.untimed,
      HttpRequest.addHeader]

/-- The receive time is stored and never read. -/
theorem iteration_untimed (build : Build) (t : Int) (ok : Bool) (ctx : HttpContext) (buf : Bytes) :
    ctx.untimed.iteration build 0 ok buf =
      (ctx.iteration build t ok buf).map fun q => (q.1, q.2.1, q.2.2.1.untimed, q.2.2.2) := by
  obtain ⟨st, req⟩ := ctx
  cases st with
  | kExpectRequestLine =>
    cases hf : findCRLF buf with
    | none => simp [HttpContext.iteration, HttpContext.untimed, hf, Except.map]
    | some i =>
      simp only [HttpContext.iteration, HttpContext.untimed, hf, processRequestLine_untimed]
      cases processRequestLine build req (buf.take i) with
      | error e => rfl
      | ok p =>
        obtain ⟨o, req'⟩ := p
        cases o <;> rfl
  | kExpectHeaders =>
    have hs : (HttpContext.untimed ⟨.kExpectHeaders, req⟩).state = .kExpectHeaders := rfl
    cases hf : findCRLF buf with
    | none => simp [HttpContext.iteration, hs, hf, Except.map]
    | some i => simp [HttpContext.iteration, hs, hf, Except.map, headerLine_untimed]
  | kExpectBody =>
    by_cases hb : buf = [] <;>
      simp [HttpContext.iteration, HttpContext.untimed, hb, HttpRequest.untimed, Except.map]
  | kGotAll => simp [HttpContext.iteration, HttpContext.untimed, Except.map]

theorem parseLoop_untimed (build : Build) (t : Int) (n : Nat) (ok : Bool) (ctx : HttpContext)
    (buf : Bytes) :
    ctx.untimed.parseLoop build 0 n ok buf = (ctx.parseLoop build t n ok buf).map untimed := by
  induction n generalizing ok ctx buf with
  | zero => rfl
  | succ n ih =>
    simp only [HttpContext.parseLoop, iteration_untimed build t]
    cases ctx.iteration build t ok buf with
    | error e => rfl
    | ok q =>
      obtain ⟨more, ok', ctx', buf'⟩ := q
      cases more
      · rfl
      · exact ih ok' ctx' buf'

/-- Any number of iterations that suffices gives the result of the call. -/
theorem parseRequest_iff (hst : ctx.state ≠ .kGotAll) :
    ctx.parseRequest build buf t = .ok r ↔ ∃ n, ctx.parseLoop build t n true buf = .ok r :=
  ⟨fun h => ⟨_, h⟩, fun ⟨_, h⟩ => parseLoop_enough hst h (Nat.lt_succ_self _)⟩

theorem parseRequest_total (hst : ctx.state ≠ .kGotAll) (buf : Bytes) (t : Int) :
    ∃ r, ctx.parseRequest .release buf t = .ok r :=
  parseLoop_total hst (Nat.lt_succ_self _)

theorem parseRequest_untimed {r' : Bool × HttpContext × Bytes} :
    ctx.untimed.parseRequest build buf 0 = .ok r' ↔
      ∃ r, ctx.parseRequest build buf t = .ok r ∧ untimed r = r' := by
  unfold HttpContext.parseRequest
  rw [parseLoop_untimed build t]
  cases ctx.parseLoop build t (buf.length + 1) true buf <;> simp [Except.map]

/-- The next call, at its own time, against one call on all the input so far at time zero. -/
theorem parseRequest_append {front chunk : Bytes} {r' : Bool × HttpContext × Bytes}
    (hb : build = .release ∨ ok = true)
    (h : HttpContext.fresh.parseRequest build front 0 = .ok (ok, ctx.untimed, buf))
    (hst : ctx.state ≠ .kGotAll) (t : Int) :
    HttpContext.fresh.parseRequest build (front ++ chunk) 0 = .ok r' ↔
      ∃ r, ctx.parseRequest build (buf ++ chunk) t = .ok r ∧ untimed r = r' := by
  have hst' : ctx.untimed.state ≠ .kGotAll := hst
  rw [← parseRequest_untimed, parseRequest_iff (by decide), parseRequest_iff hst']
  exact (parseLoop_append hb h hst).symm

/-- The calls made on one context, each chunk appended to what the last call left unread. -/
def feed (build : Build) (calls : List (Bytes × Int)) : Result (Bool × HttpContext × Bytes) :=
  calls.foldlM (fun s call => s.2.1.parseRequest build (s.2.2 ++ call.1) call.2)
    (true, .fresh, [])

theorem feed_snoc (build : Build) (calls : List (Bytes × Int)) (call : Bytes × Int) :
    feed build (calls ++ [call]) =
      feed build calls >>= fun s => s.2.1.parseRequest build (s.2.2 ++ call.1) call.2 := by
  rw [feed, List.foldlM_append]
  simp only [List.foldlM_cons, List.foldlM_nil, bind_pure]
  rfl

/-- By induction on the calls: the state reached in pieces is, up to the receive time, the one
that a single call on all the bytes so far reaches. -/
theorem feed_eq_parseRequest (calls : List (Bytes × Int)) (hne : calls ≠ [])
    (hearly : ∀ front back, calls = front ++ back → back ≠ [] →
      ∀ r, feed .release front = .ok r → r.2.1.state ≠ .kGotAll) :
    ∃ ok ctx buf, feed .release calls = .ok (ok, ctx, buf) ∧
      HttpContext.fresh.parseRequest .release (calls.flatMap Prod.fst) 0 =
        .ok (ok, ctx.untimed, buf) := by
  induction calls using List.reverseRecOn with
  | nil => exact (hne rfl).elim
  | append_singleton calls call ih =>
    obtain ⟨chunk, t⟩ := call
    have hfresh : HttpContext.fresh.state ≠ .kGotAll := by decide
    rcases List.eq_nil_or_concat calls with rfl | ⟨_, _, hcons⟩
    · obtain ⟨⟨ok, ctx, buf⟩, hr⟩ := parseRequest_total hfresh chunk t
      refine ⟨ok, ctx, buf, (feed_snoc .release [] (chunk, t)).trans hr, ?_⟩
      have hu : HttpContext.fresh.untimed.parseRequest .release chunk 0 =
          .ok (ok, ctx.untimed, buf) :=
        parseRequest_untimed.mpr ⟨_, hr, rfl⟩
      simpa using (show HttpContext.fresh.parseRequest .release chunk 0 = _ from hu)
    · have hne' : calls ≠ [] := by simp [hcons]
      obtain ⟨ok, ctx, buf, hfeed, hone⟩ := ih hne' fun front back he hb =>
        hearly front (back ++ [(chunk, t)]) (by simp [he]) (by simp)
      have hst := hearly calls [(chunk, t)] rfl (by simp) _ hfeed
      obtain ⟨⟨ok', ctx', buf'⟩, hr⟩ := parseRequest_total hst (buf ++ chunk) t
      refine ⟨ok', ctx', buf', by rw [feed_snoc, hfeed]; exact hr, ?_⟩
      simpa [untimed] using (parseRequest_append (Or.inl rfl) hone hst t).mpr ⟨_, hr, rfl⟩

/-- Cutting the input into calls leaves the same state, request (receive time aside), unread
bytes and final answer as one call, as long as only the last call may complete the request. -/
theorem incremental_parse_agrees (calls : List (Bytes × Int)) (hne : calls ≠ [])
    (hearly : ∀ front back, calls = front ++ back → back ≠ [] →
      ∀ r, feed .release front = .ok r → r.2.1.state ≠ .kGotAll) (t : Int) :
    ∃ ok ctx ctx₁ buf, feed .release calls = .ok (ok, ctx, buf) ∧
      HttpContext.fresh.parseRequest .release (calls.flatMap Prod.fst) t = .ok (ok, ctx₁, buf) ∧
      ctx.state = ctx₁.state ∧
      { ctx.request with receiveTime := ctx₁.request.receiveTime } = ctx₁.request := by
  obtain ⟨ok, ctx, buf, hfeed, hone⟩ := feed_eq_parseRequest calls hne hearly
  have hfresh : HttpContext.fresh.state ≠ .kGotAll := by decide
  obtain ⟨⟨ok₁, ctx₁, buf₁⟩, hr⟩ := parseRequest_total hfresh (calls.flatMap Prod.fst) t
  have hu : HttpContext.fresh.untimed.parseRequest .release (calls.flatMap Prod.fst) 0 =
      .ok (ok₁, ctx₁.untimed, buf₁) := parseRequest_untimed.mpr ⟨_, hr, rfl⟩
  rw [show HttpContext.fresh.untimed = .fresh from rfl, hone] at hu
  obtain ⟨rfl, hctx, rfl⟩ : ok = ok₁ ∧ ctx.untimed = ctx₁.untimed ∧ buf = buf₁ := by
    simpa using hu
  have hstate : ctx.untimed.state = ctx₁.untimed.state := congrArg HttpContext.state hctx
  refine ⟨ok, ctx, ctx₁, buf, hfeed, hr, hstate, ?_⟩
  have hreq : ctx.request.untimed = ctx₁.request.untimed := congrArg HttpContext.request hctx
  exact congrArg (fun r => { r with receiveTime := ctx₁.request.receiveTime }) hreq

/-- A request line cut inside `HTTP/1.1` and between CR and LF, then the rest. -/
theorem incremental_parse_agrees_sample :
    ∃ ok ctx ctx₁ buf,
      feed .release
          [(ascii "GET /a?b HT", 1), (ascii "TP/1.1\r", 2), (ascii "\nX: y\r\n\r\nz", 3)] =
        .ok (ok, ctx, buf) ∧
      HttpContext.fresh.parseRequest .release (ascii "GET /a?b HTTP/1.1\r\nX: y\r\n\r\nz") 4 =
        .ok (ok, ctx₁, buf) ∧
      ctx.state = ctx₁.state ∧
      { ctx.request with receiveTime := ctx₁.request.receiveTime } = ctx₁.request := by
  refine incremental_parse_agrees
    [(ascii "GET /a?b HT", 1), (ascii "TP/1.1\r", 2), (ascii "\nX: y\r\n\r\nz", 3)]
    (by simp) ?_ 4
  intro front back he hb r hr
  have hlen := congrArg List.length he
  have hpos := List.length_pos_iff.mpr hb
  simp only [List.length_append, List.length_cons, List.length_nil] at hlen
  have hfront := congrArg (List.take front.length) he
  rw [List.take_left] at hfront
  have hlt : front.length < 3 := by omega
  generalize front.length = k at hfront hlt
  subst hfront
  interval_cases k <;> (obtain rfl := Except.ok.inj hr; decide)

end Lute.Http
