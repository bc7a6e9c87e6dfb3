import Lute.Http.Incremental

/-! Well-formed requests as byte sequences, and what the parser makes of one. -/
namespace Lute.Http

def methodText : Method → Bytes
  | .kInvalid => []
  | .kGet => ascii "GET"
  | .kPost => ascii "POST"
  | .kHead => ascii "HEAD"
  | .kPut => ascii "PUT"
  | .kDelete => ascii "DELETE"

def versionText : Version → Bytes
  | .kUnknown => []
  | .kHttp10 => ascii "HTTP/1.0"
  | .kHttp11 => ascii "HTTP/1.1"

/-- A header value without the white space around it. -/
def trim (v : Bytes) : Bytes := (v.dropWhile isspace).rdropWhile isspace

/-- The value of the last line whose name satisfies `p`. -/
def lastValue (p : Bytes → Bool) (headers : List (Bytes × Bytes)) : Option Bytes :=
  headers.foldl (fun acc h => if p h.1 then some (trim h.2) else acc) none

def lower (c : UInt8) : UInt8 := if 65 ≤ c ∧ c ≤ 90 then c + 32 else c

/-- The number a non-empty string of digits denotes. -/
def decimal (v : Bytes) : Option Nat :=
  if v ≠ [] ∧ v.all (fun c => 48 ≤ c && c ≤ 57) then
    some (v.foldl (fun n c => 10 * n + (c.toNat - 48)) 0)
  else none

/-- `n` is the length announced by a `Content-Length` header, or zero without one. -/
def BodyLength (headers : List (Bytes × Bytes)) (n : Nat) : Prop :=
  match lastValue (fun name => name.map lower = ascii "content-length") headers with
  | some v => decimal v = some n
  | none => n = 0

/-- The request line: method, target and version separated by single spaces. -/
def requestLineText (method : Method) (path query : Bytes) (version : Version) : Bytes :=
  methodText method ++ 32 :: (path ++ query ++ 32 :: versionText version)

def headerText (h : Bytes × Bytes) : Bytes := h.1 ++ 58 :: h.2

/-- An HTTP/1.x request in wire form: every delimiter is where the grammar puts it and the body
has the announced length. -/
structure WireRequest where
  method : Method
  path : Bytes
  query : Bytes
  version : Version
  headers : List (Bytes × Bytes)
  body : Bytes
  method_ne : method ≠ .kInvalid
  version_ne : version ≠ .kUnknown
  path_ok : 32 ∉ path ∧ 63 ∉ path
  query_ok : query = [] ∨ ∃ q, query = 63 :: q ∧ 32 ∉ q
  line_ok : findCRLF (requestLineText method path query version) = none
  headers_ok : ∀ h ∈ headers, 58 ∉ h.1 ∧ findCRLF (headerText h) = none
  body_ok : BodyLength headers body.length

namespace WireRequest

def line (r : WireRequest) : Bytes := requestLineText r.method r.path r.query r.version

/-- The request line, the header lines and the empty line. -/
def head (r : WireRequest) : Bytes :=
  r.line ++ kCRLF ++ (r.headers.flatMap (fun h => headerText h ++ kCRLF) ++ kCRLF)

def bytes (r : WireRequest) : Bytes := r.head ++ r.body

/-- The parsed request carries what was written, each header with its last value, trimmed. -/
def Matches (req : HttpRequest) (r : WireRequest) : Prop :=
  req.method = r.method ∧ req.path = r.path ∧ req.query = r.query ∧ req.version = r.version ∧
    (∀ field, OrdMap.find field req.headers = lastValue (· = field) r.headers) ∧
    req.body = r.body

end WireRequest

variable (build : Build) (t : Int) {req : HttpRequest} {target ver x : Bytes}

theorem idxOf_append_cons {c : UInt8} {l : Bytes} (h : c ∉ l) (r : Bytes) :
    (l ++ c :: r).idxOf c = l.length := by
  rw [List.idxOf_append_of_notMem h, List.idxOf_cons_self, Nat.add_zero]

theorem drop_append_cons (l : Bytes) (c : UInt8) (r : Bytes) :
    (l ++ c :: r).drop (l.length + 1) = r := by
  rw [List.drop_append, List.drop_eq_nil_of_le (Nat.le_succ _)]
  simp

theorem methodOf_methodText (m : Method) : HttpRequest.methodOf (methodText m) = m := by
  cases m <;> decide

theorem versionOf_versionText {v : Version} (h : v ≠ .kUnknown) :
    versionOf (versionText v) = some v := by
  cases v with
  | kUnknown => exact (h rfl).elim
  | kHttp10 => decide
  | kHttp11 => decide

theorem space_notMem_methodText (m : Method) : 32 ∉ methodText m := by
  cases m <;> decide

theorem processTarget_text (ht : 32 ∉ target) {v : Version} (hv : versionOf ver = some v) :
    processTarget req (target ++ 32 :: ver) =
      (true, { setTarget req target with version := v }) := by
  have hi := idxOf_append_cons ht ver
  simp [processTarget, hi, hv]

theorem setTarget_text (path query : Bytes) (hp : 63 ∉ path)
    (hq : query = [] ∨ ∃ q, query = 63 :: q ∧ 32 ∉ q) (hreq : req.query = []) :
    setTarget req (path ++ query) = { req with path := path, query := query } := by
  rcases hq with rfl | ⟨q, rfl, -⟩
  · have hi : path.idxOf 63 = path.length := List.idxOf_of_notMem hp
    simp [setTarget, hi, hreq]
  · have hi := idxOf_append_cons hp q
    simp [setTarget, hi]

/-- The request after its first line, and after header lines. -/
def WireRequest.afterLine (r : WireRequest) : HttpRequest :=
  { HttpRequest.fresh with method := r.method, path := r.path, query := r.query,
                           version := r.version }

def withHeaders (req : HttpRequest) (headers : List (Bytes × Bytes)) : HttpRequest :=
  headers.foldl (fun req h => { req with headers := OrdMap.insert h.1 (trim h.2) req.headers }) req

def withBody (req : HttpRequest) (body : Bytes) : HttpRequest :=
  if body ≠ [] then { req with body := body } else req

theorem requestLine_requestLineText {method : Method} {path query : Bytes} {version : Version}
    (hm : method ≠ .kInvalid) (hv : version ≠ .kUnknown) (hp : 32 ∉ path ∧ 63 ∉ path)
    (hq : query = [] ∨ ∃ q, query = 63 :: q ∧ 32 ∉ q) :
    requestLine .fresh (requestLineText method path query version) =
      (true, { HttpRequest.fresh with method := method, path := path, query := query,
                                      version := version }) := by
  have hsp := idxOf_append_cons (space_notMem_methodText method)
    (path ++ query ++ 32 :: versionText version)
  have htarget : 32 ∉ path ++ query := by
    rw [List.mem_append, not_or]
    refine ⟨hp.1, ?_⟩
    rcases hq with hq | ⟨q, hq, hns⟩
    · simp [hq]
    · rw [hq, List.mem_cons, not_or]
      exact ⟨by decide, hns⟩
  have hmethod := methodOf_methodText method
  simp only [requestLine, requestLineText, hsp, List.take_left, drop_append_cons, hmethod, hm,
    if_false, processTarget_text htarget (versionOf_versionText hv)]
  rw [setTarget_text path query hp.2 hq rfl, if_neg (by simp)]

theorem requestLine_text (r : WireRequest) : requestLine .fresh r.line = (true, r.afterLine) :=
  requestLine_requestLineText r.method_ne r.version_ne r.path_ok r.query_ok

theorem find_withHeaders (field : Bytes) (headers : List (Bytes × Bytes)) (req : HttpRequest) :
    OrdMap.find field (withHeaders req headers).headers =
      headers.foldl (fun acc h => if h.1 = field then some (trim h.2) else acc)
        (OrdMap.find field req.headers) := by
  induction headers generalizing req with
  | nil => rfl
  | cons h headers ih =>
    rw [withHeaders, List.foldl_cons, List.foldl_cons]
    refine (ih _).trans ?_
    rw [OrdMap.find_insert]
    simp only [eq_comm]

theorem withHeaders_fields (headers : List (Bytes × Bytes)) (req : HttpRequest) :
    (withHeaders req headers).method = req.method ∧ (withHeaders req headers).path = req.path ∧
      (withHeaders req headers).query = req.query ∧
      (withHeaders req headers).version = req.version ∧
      (withHeaders req headers).body = req.body := by
  induction headers generalizing req with
  | nil => exact ⟨rfl, rfl, rfl, rfl, rfl⟩
  | cons h headers ih => exact ih _

theorem headerLine_text {h : Bytes × Bytes} (hn : 58 ∉ h.1) :
    HttpContext.headerLine ⟨.kExpectHeaders, req⟩ (headerText h) =
      ⟨.kExpectHeaders, { req with headers := OrdMap.insert h.1 (trim h.2) req.headers }⟩ := by
  have hi := idxOf_append_cons hn h.2
  simp [HttpContext.headerLine, headerText, hi, HttpRequest.addHeader, trim]

/-- A complete line at the front of the input, in the header section. -/
theorem iteration_line (build : Build) (t : Int) (req : HttpRequest) {line : Bytes}
    (hl : findCRLF line = none) (rest : Bytes) :
    HttpContext.iteration build t true ⟨.kExpectHeaders, req⟩ (line ++ kCRLF ++ rest) =
      .ok (true, true, HttpContext.headerLine ⟨.kExpectHeaders, req⟩ line, rest) := by
  have hf : findCRLF (line ++ kCRLF ++ rest) = some line.length := findCRLF_line hl
  have htake : (line ++ kCRLF ++ rest).take line.length = line := by
    rw [List.append_assoc, List.take_left]
  have hdrop : (line ++ kCRLF ++ rest).drop (line.length + 2) = rest :=
    List.drop_left' (by simp [kCRLF])
  simp only [HttpContext.iteration, hf, htake, hdrop, pure_eq_ok]

theorem headers_complete (headers : List (Bytes × Bytes))
    (hok : ∀ h ∈ headers, 58 ∉ h.1 ∧ findCRLF (headerText h) = none) (req : HttpRequest)
    (x : Bytes) :
    ∃ n, HttpContext.parseLoop build t n true ⟨.kExpectHeaders, req⟩
        (headers.flatMap (fun h => headerText h ++ kCRLF) ++ kCRLF ++ x) =
      .ok (true, ⟨.kGotAll, withBody (withHeaders req headers) x⟩, []) := by
  induction headers generalizing req with
  | nil =>
    have hline := iteration_line build t req (show findCRLF [] = none from rfl) x
    refine ⟨2, ?_⟩
    rw [show ([].flatMap (fun h : Bytes × Bytes => headerText h ++ kCRLF) ++ kCRLF ++ x) =
      [] ++ kCRLF ++ x from rfl, parseLoop_of_more hline]
    exact parseLoop_of_stop rfl
  | cons h headers ih =>
    obtain ⟨hn, hl⟩ := hok h (by simp)
    obtain ⟨n, hn'⟩ := ih (fun g hg => hok g (by simp [hg]))
      { req with headers := OrdMap.insert h.1 (trim h.2) req.headers }
    refine ⟨n + 1, ?_⟩
    rw [List.flatMap_cons, List.append_assoc, List.append_assoc _ _ (kCRLF ++ x),
      parseLoop_of_more (iteration_line build t req hl _), headerLine_text hn]
    rw [← List.append_assoc]
    exact hn'

theorem headers_wait (req : HttpRequest) {p : Bytes} (hf : findCRLF p = none) :
    ∃ n req' buf, HttpContext.parseLoop build t n true ⟨.kExpectHeaders, req⟩ p =
      .ok (true, ⟨.kExpectHeaders, req'⟩, buf) :=
  ⟨1, req, p, parseLoop_of_stop (by simp [HttpContext.iteration, hf])⟩

theorem length_drop_lt {a b c : Bytes} (h : (a ++ b).length < (a ++ c).length) :
    b.length < c.length := by
  simp only [List.length_append] at h
  omega

/-- A part of the header section that stops short of its empty line leaves the parser there. -/
theorem headers_incomplete (headers : List (Bytes × Bytes))
    (hok : ∀ h ∈ headers, 58 ∉ h.1 ∧ findCRLF (headerText h) = none) (req : HttpRequest)
    {p : Bytes} (hp : p <+: headers.flatMap (fun h => headerText h ++ kCRLF) ++ kCRLF)
    (hlt : p.length < (headers.flatMap (fun h => headerText h ++ kCRLF) ++ kCRLF).length) :
    ∃ n req' buf, HttpContext.parseLoop build t n true ⟨.kExpectHeaders, req⟩ p =
      .ok (true, ⟨.kExpectHeaders, req'⟩, buf) := by
  induction headers generalizing req p with
  | nil =>
    refine headers_wait build t req (findCRLF_incomplete (show findCRLF [] = none from rfl) hp ?_)
    simpa [kCRLF] using hlt
  | cons h headers ih =>
    obtain ⟨hn, hl⟩ := hok h (by simp)
    rw [List.flatMap_cons, List.append_assoc] at hp hlt
    by_cases hshort : p.length < (headerText h).length + 2
    · refine headers_wait build t req (findCRLF_incomplete hl ?_ hshort)
      exact List.prefix_of_prefix_length_le hp (List.prefix_append _ _) (by
        rw [List.length_append]
        exact Nat.le_of_lt hshort)
    · obtain ⟨p', rfl⟩ : headerText h ++ kCRLF <+: p :=
        List.prefix_of_prefix_length_le (List.prefix_append _ _) hp (by
          rw [List.length_append]
          exact Nat.le_of_not_lt hshort)
      rw [List.prefix_append_right_inj] at hp
      obtain ⟨n, req', buf, hn'⟩ := ih (fun g hg => hok g (by simp [hg]))
        { req with headers := OrdMap.insert h.1 (trim h.2) req.headers } hp (length_drop_lt hlt)
      refine ⟨n + 1, req', buf, ?_⟩
      rw [parseLoop_of_more (iteration_line build t req hl p'), headerLine_text hn, hn']

/-- A good request line, complete, takes a fresh context to the header section. -/
theorem iteration_firstLine {line : Bytes} (hl : findCRLF line = none)
    (hline : requestLine .fresh line = (true, req)) (rest : Bytes) :
    HttpContext.fresh.iteration build t true (line ++ kCRLF ++ rest) =
      .ok (true, true, ⟨.kExpectHeaders, { req with receiveTime := t }⟩, rest) := by
  have hf : findCRLF (line ++ kCRLF ++ rest) = some line.length := findCRLF_line hl
  have htake : (line ++ kCRLF ++ rest).take line.length = line := by
    rw [List.append_assoc, List.take_left]
  have hdrop : (line ++ kCRLF ++ rest).drop (line.length + 2) = rest :=
    List.drop_left' (by simp [kCRLF])
  have hp := @processRequestLine_eq build .fresh (Or.inr rfl) line
  rw [hline] at hp
  have hs : HttpContext.fresh.state = .kExpectRequestLine := rfl
  have hr : HttpContext.fresh.request = .fresh := rfl
  simp only [HttpContext.iteration, hs, hr, hf, htake, hdrop, hp, ok_bind, if_true, pure_eq_ok]

/-- A request line, header lines and the empty line followed by `x`, all of it in one call: `x`
becomes the body. -/
theorem parseRequest_lines {line : Bytes} (hl : findCRLF line = none)
    (hline : requestLine .fresh line = (true, req)) (headers : List (Bytes × Bytes))
    (hok : ∀ h ∈ headers, 58 ∉ h.1 ∧ findCRLF (headerText h) = none) (x : Bytes) :
    HttpContext.fresh.parseRequest build
        (line ++ kCRLF ++ (headers.flatMap (fun h => headerText h ++ kCRLF) ++ kCRLF) ++ x) t =
      .ok (true, ⟨.kGotAll, withBody (withHeaders { req with receiveTime := t } headers) x⟩,
        []) := by
  obtain ⟨n, hn⟩ := headers_complete build t headers hok { req with receiveTime := t } x
  refine (parseRequest_iff (by decide)).mpr ⟨n + 1, ?_⟩
  rw [List.append_assoc, parseLoop_of_more (iteration_firstLine build t hl hline _)]
  exact hn

/-- A request head followed by `x`, all of it in one call: `x` becomes the body. -/
theorem parseRequest_head (r : WireRequest) (x : Bytes) :
    HttpContext.fresh.parseRequest build (r.head ++ x) t =
      .ok (true,
        ⟨.kGotAll, withBody (withHeaders { r.afterLine with receiveTime := t } r.headers) x⟩,
        []) :=
  parseRequest_lines build t r.line_ok (requestLine_text r) r.headers r.headers_ok x

theorem parseRequest_head_incomplete (r : WireRequest) {p : Bytes} (hp : p <+: r.head)
    (hlt : p.length < r.head.length) :
    ∃ ctx buf, HttpContext.fresh.parseRequest build p t = .ok (true, ctx, buf) ∧
      ctx.state ≠ .kGotAll := by
  rw [WireRequest.head] at hp hlt
  by_cases hshort : p.length < r.line.length + 2
  · have hf : findCRLF p = none := findCRLF_incomplete r.line_ok
      (List.prefix_of_prefix_length_le hp (List.prefix_append _ _) (by
        rw [List.length_append]
        exact Nat.le_of_lt hshort)) hshort
    refine ⟨.fresh, p, (parseRequest_iff (by decide)).mpr ⟨1, parseLoop_of_stop ?_⟩, by decide⟩
    simp [HttpContext.iteration, HttpContext.fresh, hf]
  · obtain ⟨p', rfl⟩ : r.line ++ kCRLF <+: p :=
      List.prefix_of_prefix_length_le (List.prefix_append _ _) hp (by
        rw [List.length_append]
        exact Nat.le_of_not_lt hshort)
    rw [List.prefix_append_right_inj] at hp
    obtain ⟨n, req', buf, hn⟩ := headers_incomplete build t r.headers r.headers_ok
      { r.afterLine with receiveTime := t } hp (length_drop_lt hlt)
    refine ⟨⟨.kExpectHeaders, req'⟩, buf, (parseRequest_iff (by decide)).mpr ⟨n + 1, ?_⟩, by simp⟩
    have hl : findCRLF r.line = none := r.line_ok
    rw [parseLoop_of_more (iteration_firstLine build t hl (requestLine_text r) p'), hn]

theorem withBody_body (hb : req.body = []) (x : Bytes) : (withBody req x).body = x := by
  unfold withBody
  split_ifs with h
  · rfl
  · rw [hb, not_not.mp h]

theorem withBody_eq (req : HttpRequest) (x : Bytes) :
    ∃ y, withBody req x = { req with body := y } := by
  unfold withBody
  split_ifs
  · exact ⟨x, rfl⟩
  · exact ⟨req.body, rfl⟩

/-- The parsed head with a body `x` is the request exactly when `x` is its body. -/
theorem matches_iff (r : WireRequest) (x : Bytes) :
    WireRequest.Matches
      (withBody (withHeaders { r.afterLine with receiveTime := t } r.headers) x) r ↔
      x = r.body := by
  obtain ⟨hm, hp, hq, hv, hb⟩ := withHeaders_fields r.headers { r.afterLine with receiveTime := t }
  have hfind : ∀ field, OrdMap.find field
      (withHeaders { r.afterLine with receiveTime := t } r.headers).headers =
        lastValue (· = field) r.headers := by
    intro field
    rw [find_withHeaders]
    simp [lastValue, WireRequest.afterLine, HttpRequest.fresh, OrdMap.find]
  have hbody := withBody_body hb x
  obtain ⟨y, hy⟩ :=
    withBody_eq (withHeaders { r.afterLine with receiveTime := t } r.headers) x
  rw [hy] at hbody ⊢
  obtain rfl : y = x := hbody
  constructor
  · exact fun h => h.2.2.2.2.2
  · exact fun hx => ⟨hm, hp, hq, hv, hfind, hx⟩

end Lute.Http
