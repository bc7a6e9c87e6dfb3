import Lute.Http.OneResponse

/-! The loop of the parser comes to its end in every call that the server makes. -/
namespace Lute.Http

namespace HttpContext

/-- The loop has an end: from some number of iterations on, allowing more of them changes nothing,
and it is not the allowance that stopped it. -/
def Halts (build : Build) (ctx : HttpContext) (buf : Bytes) (receiveTime : Int) : Prop :=
  ∃ n, ctx.parseLoop build receiveTime n true buf ≠ .error .running ∧
    ∀ m, n ≤ m → ctx.parseLoop build receiveTime m true buf =
      ctx.parseLoop build receiveTime n true buf

/-- Between two messages. -/
def Waiting (ctx : HttpContext) : Prop :=
  ctx.state = .kExpectRequestLine ∨ ctx.state = .kExpectHeaders

end HttpContext

section Loop

variable {build : Build} {t : Int} {ok ok' : Bool} {ctx ctx' : HttpContext} {buf buf' : Bytes}
  {n m : Nat}

theorem processRequestLine_error {req : HttpRequest} {line : Bytes} {e : Fault}
    (h : processRequestLine build req line = .error e) : e = .assertion := by
  by_cases hb : build = .release ∨ req.method = .kInvalid
  · rw [processRequestLine_eq hb] at h
    cases h
  · obtain ⟨hrelease, hm⟩ := not_or.mp hb
    have hdebug : build = .debug := by
      cases build with
      | debug => rfl
      | release => exact absurd rfl hrelease
    by_cases hs : line.idxOf 32 = line.length
    · simp [processRequestLine, hs] at h
    · simp [processRequestLine, HttpRequest.setMethod, Build.assert, hs, hdebug, hm, bind,
        Except.bind] at h
      exact h.symm

theorem iteration_error {e : Fault} (h : ctx.iteration build t ok buf = .error e) :
    e = .assertion := by
  obtain ⟨st, req⟩ := ctx
  cases st with
  | kExpectRequestLine =>
    cases hf : findCRLF buf with
    | none => simp [HttpContext.iteration, hf] at h
    | some i =>
      cases hp : processRequestLine build req (buf.take i) with
      | error e' =>
        obtain rfl : e' = e := by simpa [HttpContext.iteration, hf, hp, bind, Except.bind] using h
        exact processRequestLine_error hp
      | ok r =>
        obtain ⟨o, req'⟩ := r
        cases o <;> simp [HttpContext.iteration, hf, hp] at h
  | kExpectHeaders => cases hf : findCRLF buf <;> simp [HttpContext.iteration, hf] at h
  | kExpectBody => simp [HttpContext.iteration] at h
  | kGotAll => simp [HttpContext.iteration] at h

/-- The measure is the number of unread bytes. An iteration that goes on has consumed a line. -/
theorem parseLoop_halts (hst : ctx.state ≠ .kGotAll) (hn : buf.length < n) (hm : n ≤ m) :
    ctx.parseLoop build t n ok buf ≠ .error .running ∧
      ctx.parseLoop build t m ok buf = ctx.parseLoop build t n ok buf := by
  induction n generalizing m ok ctx buf with
  | zero => omega
  | succ n ih =>
    obtain ⟨m, rfl⟩ : ∃ k, m = k + 1 := ⟨m - 1, by omega⟩
    cases hi : ctx.iteration build t ok buf with
    | error e =>
      obtain rfl := iteration_error hi
      simp [HttpContext.parseLoop, hi, bind, Except.bind]
    | ok r =>
      obtain ⟨more, ok', ctx', buf'⟩ := r
      cases more with
      | false => simp [parseLoop_of_stop hi]
      | true =>
        obtain ⟨hlen, hst'⟩ := iteration_shrinks hst hi
        rw [parseLoop_of_more hi, parseLoop_of_more hi]
        exact ih hst' (by omega) (by omega)

theorem halts_of_ne_kGotAll (hst : ctx.state ≠ .kGotAll) (buf : Bytes) (t : Int) :
    ctx.Halts build buf t := by
  refine ⟨buf.length + 1, (parseLoop_halts hst (Nat.lt_succ_self _) le_rfl).1, fun m hm => ?_⟩
  exact (parseLoop_halts hst (Nat.lt_succ_self _) hm).2

/-- No branch of the loop handles `kGotAll`. -/
theorem parseLoop_kGotAll (hst : ctx.state = .kGotAll) (n : Nat) :
    ctx.parseLoop build t n ok buf = .error .running := by
  have hi : ctx.iteration build t ok buf = .ok (true, ok, ctx, buf) := by
    simp [HttpContext.iteration, hst]
  induction n with
  | zero => rfl
  | succ n ih => rw [parseLoop_of_more hi, ih]

/-- A call leaves a complete request or one that waits for a line. -/
theorem parseLoop_waiting (hst : ctx.state ≠ .kGotAll)
    (h : ctx.parseLoop build t n ok buf = .ok (ok', ctx', buf')) :
    ctx'.gotAll = true ∨ ctx'.Waiting := by
  induction n generalizing ok ctx buf with
  | zero => simp [HttpContext.parseLoop] at h
  | succ n ih =>
    rcases parseLoop_cases h with hstop | ⟨ok₁, ctx₁, buf₁, hi, hl⟩
    · obtain ⟨-, hbody, hall, -, -, rfl, -⟩ | ⟨i, req, -, -, -, ⟨-, hm, -⟩ | ⟨-, -, -, rfl⟩⟩ |
        ⟨i, -, -, hm, -⟩ | ⟨-, -, -, -, rfl⟩ | ⟨hs, -⟩ := iteration_cases hstop
      · right
        unfold HttpContext.Waiting
        cases hs : ctx'.state <;> simp_all
      · cases hm
      · exact .inr (.inl rfl)
      · cases hm
      · exact .inl rfl
      · exact absurd hs hst
    · exact ih (iteration_shrinks hst hi).2 hl

end Loop

namespace HttpConnection

variable {build : Build} {s t : HttpConnection} {input : Input} {inputs : List Input}
  {events : List Event}

theorem waiting_ne_kGotAll (h : s.context.Waiting) : s.context.state ≠ .kGotAll := by
  rcases h with h | h <;> simp [h]

/-- `onMessage` never leaves a completed request in the context: it is reset. -/
theorem waiting_handle (h : s.handle build input = .ok (t, events)) (hw : s.context.Waiting) :
    t.context.Waiting := by
  cases input with
  | write result =>
    obtain ⟨-, hctx, -⟩ := handle_write result h
    rwa [hctx]
  | read chunk time httpCallback kernel =>
    obtain ⟨ok, ctx, buf, hp, ⟨hg, hctx, -⟩ | ⟨-, hctx, -⟩⟩ := handle_read h
    · rw [hctx]
      refine (parseLoop_waiting (waiting_ne_kGotAll hw) hp).resolve_left ?_
      simp [hg]
    · rw [hctx]
      exact .inl rfl

theorem waiting_run (h : s.run build inputs = .ok (t, events)) (hw : s.context.Waiting) :
    t.context.Waiting := by
  induction inputs generalizing s events with
  | nil =>
    obtain ⟨rfl, -⟩ : s = t ∧ [] = events := by simpa [run] using h
    exact hw
  | cons input inputs ih =>
    obtain ⟨u, es, es', hu, ht, -⟩ := run_cons h
    exact ih ht (waiting_handle hu hw)

/-- Whatever chunks a peer delivers and whatever the callback answers, each call of `parseRequest`
finds the context waiting for a line, and its loop ends; in a completed context it would not. -/
theorem parser_terminates (hs : s.Established) (build : Build) (inputs : List Input) :
    (∀ front chunk time httpCallback kernel back,
      inputs = front ++ .read chunk time httpCallback kernel :: back →
      ∀ u events, s.run build front = .ok (u, events) →
        (u.context.state = .kExpectRequestLine ∨ u.context.state = .kExpectHeaders) ∧
          u.context.Halts build (u.conn.inputBuffer ++ chunk) time) ∧
    ∀ (ctx : HttpContext) buf time, ctx.state = .kGotAll → ¬ ctx.Halts build buf time := by
  constructor
  · intro front chunk time httpCallback kernel back _ u events hu
    have hw : s.context.Waiting := .inl (by rw [hs.1]; rfl)
    have hwu := waiting_run hu hw
    exact ⟨hwu, halts_of_ne_kGotAll (waiting_ne_kGotAll hwu) _ _⟩
  · rintro ctx buf time hst ⟨n, hn, -⟩
    exact hn (parseLoop_kGotAll hst n)

/-- A call in the middle of a header section, with assertions on. -/
theorem parser_terminates_headers :
    ∃ u events, established.run .debug [get "GET / HTTP/1.1\r\nHost: a\r\n"] = .ok (u, events) ∧
      u.context.state = .kExpectHeaders ∧
      u.context.Halts .debug (u.conn.inputBuffer ++ ascii "\r\n") 0 := by
  have hrun : ∃ u events, established.run .debug [get "GET / HTTP/1.1\r\nHost: a\r\n"] =
      .ok (u, events) ∧ u.context.state = .kExpectHeaders := ⟨_, _, rfl, rfl⟩
  obtain ⟨u, events, hu, hst⟩ := hrun
  obtain ⟨hall, -⟩ := parser_terminates (s := established) ⟨rfl, rfl, rfl⟩ .debug
    [get "GET / HTTP/1.1\r\nHost: a\r\n", get "\r\n"]
  exact ⟨u, events, hu, hst, (hall [_] _ _ _ _ [] rfl u events hu).2⟩

end HttpConnection

end Lute.Http
