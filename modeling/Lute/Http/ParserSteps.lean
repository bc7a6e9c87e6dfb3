import Lute.Http.HttpContext
import Lute.Polaris.BufferSafety

/-! What one iteration of the parser can do, and what that makes of its loop. -/
namespace Lute.Http

variable {build : Build} {t : Int} {ok ok' : Bool} {ctx ctx' : HttpContext} {buf buf' d : Bytes}
  {req req' : HttpRequest} {line : Bytes} {n m : Nat}

theorem findCRLF_append {i : Nat} (h : findCRLF buf = some i) : findCRLF (buf ++ d) = some i :=
  Search.memmem_append (by decide) h

theorem findCRLF_le {i : Nat} (h : findCRLF buf = some i) : i + 2 ≤ buf.length :=
  Search.occurrence_le ((Search.memmem_eq_some_iff (by decide)).mp h).1 (by decide)

theorem findCRLF_line {rest : Bytes} (h : findCRLF line = none) :
    findCRLF (line ++ kCRLF ++ rest) = some line.length := by
  rw [List.append_assoc]
  exact Search.memmem_line (by decide) h

theorem findCRLF_of_notMem (h : 13 ∉ line) : findCRLF line = none := by
  refine (Search.memmem_eq_none_iff (by decide)).mpr fun i hi => h ?_
  exact List.mem_of_mem_drop (hi.subset (by decide))

/-- Before a line is complete, with its terminator, nothing is found. -/
theorem findCRLF_incomplete (h : findCRLF line = none) (hp : buf <+: line ++ kCRLF)
    (hlt : buf.length < line.length + 2) : findCRLF buf = none :=
  Search.memmem_incomplete (by decide) h hp hlt

theorem setTarget_idem (req : HttpRequest) (target : Bytes) :
    setTarget (setTarget req target) target = setTarget req target := by
  by_cases h : target.idxOf 63 ≠ target.length <;> simp [setTarget, h]

theorem setTarget_version (req : HttpRequest) (target : Bytes) (v : Version) :
    setTarget { req with version := v } target = { setTarget req target with version := v } := by
  by_cases h : target.idxOf 63 ≠ target.length <;> simp [setTarget, h]

theorem setTarget_method (req : HttpRequest) (target : Bytes) :
    (setTarget req target).method = req.method := by
  by_cases h : target.idxOf 63 ≠ target.length <;> simp [setTarget, h]

theorem setTarget_receiveTime (req : HttpRequest) (target : Bytes) (t : Int) :
    setTarget { req with receiveTime := t } target =
      { setTarget req target with receiveTime := t } := by
  by_cases h : target.idxOf 63 ≠ target.length <;> simp [setTarget, h]

theorem processTarget_idem (req : HttpRequest) (rest : Bytes) :
    processTarget (processTarget req rest).2 rest = processTarget req rest := by
  by_cases hs : rest.idxOf 32 = rest.length
  · simp [processTarget, hs]
  · cases hv : versionOf (rest.drop (rest.idxOf 32 + 1)) with
    | none => simp [processTarget, hs, hv, setTarget_idem]
    | some v => simp only [processTarget, hs, hv, if_false, setTarget_version, setTarget_idem]

theorem processTarget_method (req : HttpRequest) (rest : Bytes) :
    (processTarget req rest).2.method = req.method := by
  by_cases hs : rest.idxOf 32 = rest.length
  · simp [processTarget, hs]
  · cases hv : versionOf (rest.drop (rest.idxOf 32 + 1)) <;>
      simp [processTarget, hs, hv, setTarget_method]

/-- `processRequestLine` where no assertion stops it. -/
def requestLine (req : HttpRequest) (line : Bytes) : Bool × HttpRequest :=
  let m := HttpRequest.methodOf (line.take (line.idxOf 32))
  if line.idxOf 32 = line.length then (false, req)
  else if m = .kInvalid then (false, { req with method := m })
  else processTarget { req with method := m } (line.drop (line.idxOf 32 + 1))

theorem processRequestLine_eq (h : build = .release ∨ req.method = .kInvalid) (line : Bytes) :
    processRequestLine build req line = .ok (requestLine req line) := by
  have hset : ∀ m, req.setMethod build m =
      .ok (HttpRequest.methodOf m ≠ .kInvalid, { req with method := HttpRequest.methodOf m }) := by
    intro m
    rcases h with rfl | h
    · simp [HttpRequest.setMethod, Build.assert]
    · simp [HttpRequest.setMethod, Build.assert_of h]
  by_cases hs : line.idxOf 32 = line.length
  · simp [processRequestLine, requestLine, hs]
  · by_cases hm : HttpRequest.methodOf (line.take (line.idxOf 32)) = .kInvalid <;>
      simp [processRequestLine, requestLine, hs, hset, hm]

/-- A line read a second time, over what it left behind, changes nothing more. -/
theorem requestLine_idem (req : HttpRequest) (line : Bytes) :
    requestLine (requestLine req line).2 line = requestLine req line := by
  by_cases hs : line.idxOf 32 = line.length
  · simp [requestLine, hs]
  · by_cases hm : HttpRequest.methodOf (line.take (line.idxOf 32)) = .kInvalid
    · simp [requestLine, hs, hm]
    · have hself : ∀ {r : HttpRequest} {m : Method}, r.method = m → { r with method := m } = r := by
        rintro r _ rfl
        rfl
      have hmeth : (processTarget
          { req with method := HttpRequest.methodOf (line.take (line.idxOf 32)) }
          (line.drop (line.idxOf 32 + 1))).2.method =
            HttpRequest.methodOf (line.take (line.idxOf 32)) := processTarget_method _ _
      simp only [requestLine, hs, hm, if_false]
      rw [hself hmeth, processTarget_idem]

/-- Everything an iteration can do. The line found, if any, is a prefix of the buffer. -/
theorem iteration_cases {more : Bool}
    (h : ctx.iteration build t ok buf = .ok (more, ok', ctx', buf')) :
    (more = false ∧ ctx.state ≠ .kExpectBody ∧ ctx.state ≠ .kGotAll ∧ findCRLF buf = none ∧
      ok' = ok ∧ ctx' = ctx ∧ buf' = buf) ∨
    (∃ i req, ctx.state = .kExpectRequestLine ∧ findCRLF buf = some i ∧
      processRequestLine build ctx.request (buf.take i) = .ok (ok', req) ∧
      ((ok' = true ∧ more = true ∧ buf' = buf.drop (i + 2) ∧
          ctx' = ⟨.kExpectHeaders, { req with receiveTime := t }⟩) ∨
        (ok' = false ∧ more = false ∧ buf' = buf ∧ ctx' = ⟨.kExpectRequestLine, req⟩))) ∨
    (∃ i, ctx.state = .kExpectHeaders ∧ findCRLF buf = some i ∧ more = true ∧ ok' = ok ∧
      buf' = buf.drop (i + 2) ∧ ctx' = ctx.headerLine (buf.take i)) ∨
    (ctx.state = .kExpectBody ∧ more = false ∧ ok' = ok ∧ buf' = [] ∧
      ctx' = ⟨.kGotAll, if buf ≠ [] then { ctx.request with body := buf } else ctx.request⟩) ∨
    (ctx.state = .kGotAll ∧ more = true ∧ ok' = ok ∧ ctx' = ctx ∧ buf' = buf) := by
  obtain ⟨st, req₀⟩ := ctx
  cases st with
  | kExpectRequestLine =>
    cases hf : findCRLF buf with
    | none => left; simp_all [HttpContext.iteration]
    | some i =>
      right; left
      cases hp : processRequestLine build req₀ (buf.take i) with
      | error e => simp [HttpContext.iteration, hf, hp, bind, Except.bind] at h
      | ok r =>
        obtain ⟨o, req⟩ := r
        cases o <;> simp_all [HttpContext.iteration]
  | kExpectHeaders =>
    cases hf : findCRLF buf with
    | none => left; simp_all [HttpContext.iteration]
    | some i => right; right; left; simp_all [HttpContext.iteration]
  | kExpectBody => right; right; right; left; simp_all [HttpContext.iteration]
  | kGotAll => right; right; right; right; simp_all [HttpContext.iteration]

theorem take_append_of_crlf {i : Nat} (h : findCRLF buf = some i) :
    (buf ++ d).take i = buf.take i := by
  have := findCRLF_le h
  exact List.take_append_of_le_length (by omega)

theorem drop_append_of_crlf {i : Nat} (h : findCRLF buf = some i) :
    (buf ++ d).drop (i + 2) = buf.drop (i + 2) ++ d :=
  List.drop_append_of_le_length (findCRLF_le h)

/-- An iteration that goes on has used complete lines only, and does so again with more input
behind them. -/
theorem iteration_append (h : ctx.iteration build t ok buf = .ok (true, ok', ctx', buf')) :
    ctx.iteration build t ok (buf ++ d) = .ok (true, ok', ctx', buf' ++ d) := by
  obtain ⟨h, -⟩ | ⟨i, req, hst, hf, hp, ⟨rfl, -, rfl, rfl⟩ | ⟨-, h, -⟩⟩ |
    ⟨i, hst, hf, -, rfl, rfl, rfl⟩ | ⟨-, h, -⟩ | ⟨hst, -, rfl, rfl, rfl⟩ := iteration_cases h
  · cases h
  · simp [HttpContext.iteration, hst, findCRLF_append hf, take_append_of_crlf hf, hp,
      drop_append_of_crlf hf]
  · cases h
  · simp [HttpContext.iteration, hst, findCRLF_append hf, take_append_of_crlf hf,
      drop_append_of_crlf hf]
  · cases h
  · simp [HttpContext.iteration, hst]

theorem iteration_total (ok : Bool) (ctx : HttpContext) (buf : Bytes) :
    ∃ r, ctx.iteration .release t ok buf = .ok r := by
  obtain ⟨st, req⟩ := ctx
  cases st with
  | kExpectRequestLine =>
    cases hf : findCRLF buf with
    | none => exact ⟨_, by simp [HttpContext.iteration, hf]; rfl⟩
    | some i =>
      have hp := @processRequestLine_eq .release req (Or.inl rfl) (buf.take i)
      generalize requestLine req (buf.take i) = p at hp
      obtain ⟨o, r⟩ := p
      cases o <;> exact ⟨_, by simp [HttpContext.iteration, hf, hp]; rfl⟩
  | kExpectHeaders =>
    cases hf : findCRLF buf with
    | none => exact ⟨_, by simp [HttpContext.iteration, hf]; rfl⟩
    | some i => exact ⟨_, by simp [HttpContext.iteration, hf]; rfl⟩
  | kExpectBody => exact ⟨_, by simp [HttpContext.iteration]; rfl⟩
  | kGotAll => exact ⟨_, by simp [HttpContext.iteration]; rfl⟩

variable {r : Bool × HttpContext × Bytes}

/-- A loop that ends does so at its first iteration or after it. -/
theorem parseLoop_cases (h : HttpContext.parseLoop build t (n + 1) ok ctx buf = .ok r) :
    ctx.iteration build t ok buf = .ok (false, r) ∨
      ∃ ok' ctx' buf', ctx.iteration build t ok buf = .ok (true, ok', ctx', buf') ∧
        HttpContext.parseLoop build t n ok' ctx' buf' = .ok r := by
  obtain ⟨⟨more, ok', ctx', buf'⟩, hi, h⟩ := bind_ok h
  cases more with
  | false =>
    left
    rw [hi, show (ok', ctx', buf') = r from Except.ok.inj h]
  | true =>
    right
    exact ⟨ok', ctx', buf', hi, h⟩

theorem parseLoop_of_stop (h : ctx.iteration build t ok buf = .ok (false, r)) :
    HttpContext.parseLoop build t (n + 1) ok ctx buf = .ok r := by
  simp [HttpContext.parseLoop, h]

theorem parseLoop_of_more (h : ctx.iteration build t ok buf = .ok (true, ok', ctx', buf')) :
    HttpContext.parseLoop build t (n + 1) ok ctx buf =
      HttpContext.parseLoop build t n ok' ctx' buf' := by
  simp [HttpContext.parseLoop, h]

theorem headerLine_state (ctx : HttpContext) (line : Bytes) :
    (ctx.headerLine line).state = ctx.state ∨ (ctx.headerLine line).state = .kExpectBody := by
  by_cases hc : line.idxOf 58 ≠ line.length <;> simp [HttpContext.headerLine, hc]

/-- Going on shortens the input and never reaches `kGotAll`. -/
theorem iteration_shrinks (hst : ctx.state ≠ .kGotAll)
    (h : ctx.iteration build t ok buf = .ok (true, ok', ctx', buf')) :
    buf'.length < buf.length ∧ ctx'.state ≠ .kGotAll := by
  obtain ⟨h, -⟩ | ⟨i, req, -, hf, -, ⟨-, -, rfl, rfl⟩ | ⟨-, h, -⟩⟩ |
    ⟨i, hs, hf, -, -, rfl, rfl⟩ | ⟨-, h, -⟩ | ⟨hs, -⟩ := iteration_cases h
  · cases h
  · have := findCRLF_le hf
    exact ⟨by rw [List.length_drop]; omega, by simp⟩
  · cases h
  · have := findCRLF_le hf
    refine ⟨by rw [List.length_drop]; omega, ?_⟩
    rcases headerLine_state ctx (buf.take i) with hl | hl <;> simp [hl, hs]
  · cases h
  · exact (hst hs).elim

theorem parseLoop_iff_of_stop {q : Bool × HttpContext × Bytes}
    (h : ctx.iteration build t ok buf = .ok (false, q)) :
    (∃ m, HttpContext.parseLoop build t m ok ctx buf = .ok r) ↔ q = r := by
  constructor
  · rintro ⟨m, hm⟩
    cases m with
    | zero => simp [HttpContext.parseLoop] at hm
    | succ m => simpa [parseLoop_of_stop h] using hm
  · rintro rfl
    exact ⟨1, parseLoop_of_stop h⟩

theorem parseLoop_iff_of_more (h : ctx.iteration build t ok buf = .ok (true, ok', ctx', buf')) :
    (∃ m, HttpContext.parseLoop build t m ok ctx buf = .ok r) ↔
      ∃ m, HttpContext.parseLoop build t m ok' ctx' buf' = .ok r := by
  constructor
  · rintro ⟨m, hm⟩
    cases m with
    | zero => simp [HttpContext.parseLoop] at hm
    | succ m => exact ⟨m, by rwa [parseLoop_of_more h] at hm⟩
  · rintro ⟨m, hm⟩
    exact ⟨m + 1, by rwa [parseLoop_of_more h]⟩

/-- As many iterations as there are bytes, and one more, are enough for any loop that ends. -/
theorem parseLoop_enough (hst : ctx.state ≠ .kGotAll)
    (h : HttpContext.parseLoop build t n ok ctx buf = .ok r) (hm : buf.length < m) :
    HttpContext.parseLoop build t m ok ctx buf = .ok r := by
  induction n generalizing m ok ctx buf with
  | zero => simp [HttpContext.parseLoop] at h
  | succ n ih =>
    obtain ⟨m, rfl⟩ := Nat.exists_eq_add_of_lt hm
    rcases parseLoop_cases h with hstop | ⟨ok', ctx', buf', hi, hl⟩
    · exact parseLoop_of_stop hstop
    · obtain ⟨hlen, hst'⟩ := iteration_shrinks hst hi
      rw [parseLoop_of_more hi]
      exact ih hst' hl (by omega)

theorem parseLoop_total (hst : ctx.state ≠ .kGotAll) (hn : buf.length < n) :
    ∃ r, HttpContext.parseLoop .release t n ok ctx buf = .ok r := by
  induction n generalizing ok ctx buf with
  | zero => omega
  | succ n ih =>
    obtain ⟨⟨more, ok', ctx', buf'⟩, hi⟩ := iteration_total (t := t) ok ctx buf
    cases more with
    | false => exact ⟨_, parseLoop_of_stop hi⟩
    | true =>
      obtain ⟨hlen, hst'⟩ := iteration_shrinks hst hi
      rw [parseLoop_of_more hi]
      exact ih hst' (by omega)

theorem iteration_ok (h : ctx.iteration build t true buf = .ok (true, ok', ctx', buf')) :
    ok' = true := by
  obtain ⟨h, -⟩ | ⟨_, _, -, -, -, ⟨h, -⟩ | ⟨-, h, -⟩⟩ | ⟨_, -, -, -, h, -⟩ | ⟨-, h, -⟩ |
    ⟨-, -, h, -⟩ := iteration_cases h
  · cases h
  · exact h
  · cases h
  · exact h
  · cases h
  · exact h

/-- A line rejected in a release build is rejected again, whatever follows it. -/
theorem iteration_rejected {i : Nat} (hs : ctx.state = .kExpectRequestLine)
    (hf : findCRLF buf = some i)
    (hp : processRequestLine .release ctx.request (buf.take i) = .ok (false, req)) :
    ctx.iteration .release t true (buf ++ d) =
        .ok (false, false, ⟨.kExpectRequestLine, req⟩, buf ++ d) ∧
      HttpContext.iteration .release t true ⟨.kExpectRequestLine, req⟩ (buf ++ d) =
        .ok (false, false, ⟨.kExpectRequestLine, req⟩, buf ++ d) := by
  have hfirst := @processRequestLine_eq .release ctx.request (Or.inl rfl) (buf.take i)
  have hagain := @processRequestLine_eq .release req (Or.inl rfl) (buf.take i)
  have hidem := requestLine_idem ctx.request (buf.take i)
  rw [hp, Except.ok.injEq] at hfirst
  rw [← hfirst] at hidem
  rw [hidem] at hagain
  constructor
  · simp [HttpContext.iteration, hs, findCRLF_append hf, take_append_of_crlf hf, hp]
  · simp [HttpContext.iteration, findCRLF_append hf, take_append_of_crlf hf, hagain]

/-- Input taken in two parts. After a call that did not complete the request, the next call
leads where one call on both parts leads. -/
theorem parseLoop_append (hb : build = .release ∨ ok' = true)
    (h : HttpContext.parseLoop build t n true ctx buf = .ok (ok', ctx', buf'))
    (hst : ctx'.state ≠ .kGotAll) :
    (∃ m, HttpContext.parseLoop build t m true ctx' (buf' ++ d) = .ok r) ↔
      ∃ k, HttpContext.parseLoop build t k true ctx (buf ++ d) = .ok r := by
  induction n generalizing ctx buf with
  | zero => simp [HttpContext.parseLoop] at h
  | succ n ih =>
    rcases parseLoop_cases h with hstop | ⟨ok₁, ctx₁, buf₁, hi, hl⟩
    · obtain ⟨-, -, -, -, -, rfl, rfl⟩ | ⟨i, req, hs, hf, hp, ⟨-, h, -⟩ | ⟨rfl, -, rfl, rfl⟩⟩ |
        ⟨i, -, -, h, -⟩ | ⟨-, -, -, -, rfl⟩ | ⟨-, h, -⟩ := iteration_cases hstop
      · rfl
      · cases h
      · obtain rfl : build = .release := by simpa using hb
        obtain ⟨hfirst, hsecond⟩ := iteration_rejected (t := t) (d := d) hs hf hp
        exact (parseLoop_iff_of_stop hsecond).trans (parseLoop_iff_of_stop hfirst).symm
      · cases h
      · simp at hst
      · cases h
    · obtain rfl := iteration_ok hi
      rw [ih hl]
      exact (parseLoop_iff_of_more (iteration_append hi)).symm

end Lute.Http
