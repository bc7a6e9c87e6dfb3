import Lute.Http.Rendering

/-! Any request, with any headers and any body, written out and parsed in one call. -/
namespace Lute.Http

/-- What a request is made of, as far as its delimiters keep the parts apart. -/
structure RequestParts where
  method : Method
  path : Bytes
  query : Bytes
  version : Version
  headers : List (Bytes × Bytes)
  body : Bytes
  method_ne : method ≠ .kInvalid
  version_ne : version ≠ .kUnknown
  path_ok : 32 ∉ path ∧ 63 ∉ path
  query_ok : query = [] ∨ ∃ q, query = 63 :: q ∧ 32 ∉ q
  path_line : findCRLF path = none
  query_line : findCRLF query = none
  headers_ok : ∀ h ∈ headers, 58 ∉ h.1 ∧ findCRLF h.1 = none ∧ findCRLF h.2 = none

/-- `t` is `v` without the white space at its two ends. -/
def Trims (v t : Bytes) : Prop :=
  ∃ front back, v = front ++ t ++ back ∧ (∀ c ∈ front, isspace c) ∧ (∀ c ∈ back, isspace c) ∧
    (∀ c, t.head? = some c → ¬ isspace c) ∧ ∀ c, t.getLast? = some c → ¬ isspace c

/-- The last pair with the given name. -/
def lastNamed (name : Bytes) (headers : List (Bytes × Bytes)) : Option (Bytes × Bytes) :=
  headers.reverse.find? fun h => h.1 = name

namespace RequestParts

/-- The request as it is sent. -/
def bytes (r : RequestParts) : Bytes :=
  methodText r.method ++ [32] ++ r.path ++ r.query ++ [32] ++ versionText r.version ++ kCRLF ++
    r.headers.flatMap (fun h => h.1 ++ [58] ++ h.2 ++ kCRLF) ++ kCRLF ++ r.body

end RequestParts

variable {a b : Bytes} {c : UInt8}

/-- A byte that is neither CR nor LF keeps two parts of a line apart. -/
theorem findCRLF_join (ha : findCRLF a = none) (hb : findCRLF b = none) (hc : c ∉ kCRLF) :
    findCRLF (a ++ c :: b) = none :=
  Search.memmem_join (by decide) hc ha hb

theorem findCRLF_tail (h : findCRLF (c :: a) = none) : findCRLF a = none := by
  rw [findCRLF, Search.memmem_eq_none_iff (by decide)] at h ⊢
  intro i
  exact h (i + 1)

theorem trims_trim (v : Bytes) : Trims v (trim v) := by
  refine ⟨v.takeWhile isspace, (v.dropWhile isspace).rtakeWhile isspace, ?_, ?_, ?_, ?_, ?_⟩
  · rw [trim, List.append_assoc, List.rdropWhile_append_rtakeWhile,
      List.takeWhile_append_dropWhile]
  · intro c hc
    exact List.mem_takeWhile_imp hc
  · intro c hc
    exact List.mem_rtakeWhile_imp hc
  · intro c hc
    -- The first byte left is the first one that the leading loop stopped at.
    have hhead : (v.dropWhile isspace).head? = some c := by
      obtain ⟨rest, hrest⟩ := List.rdropWhile_prefix isspace (v.dropWhile isspace)
      rw [← hrest, List.head?_append, show (List.rdropWhile isspace _).head? = some c from hc]
      rfl
    have hnot := List.head?_dropWhile_not isspace v
    rw [hhead] at hnot
    simpa using hnot
  · intro c hc
    have hne : trim v ≠ [] := by
      intro h
      rw [h] at hc
      cases hc
    rw [List.getLast?_eq_getLast_of_ne_nil hne] at hc
    obtain rfl := Option.some.inj hc
    exact List.rdropWhile_last_not isspace _ hne

theorem lastValue_eq (name : Bytes) (headers : List (Bytes × Bytes)) :
    lastValue (· = name) headers = (lastNamed name headers).map fun h => trim h.2 := by
  induction headers using List.reverseRecOn with
  | nil => rfl
  | append_singleton headers h ih =>
    rw [lastValue, List.foldl_append]
    by_cases hn : h.1 = name
    · simp [lastNamed, hn]
    · rw [lastNamed] at ih
      simpa [lastNamed, hn, lastValue] using ih

namespace RequestParts

variable (r : RequestParts)

theorem line_ok : findCRLF (requestLineText r.method r.path r.query r.version) = none := by
  have hmethod : findCRLF (methodText r.method) = none := by cases r.method <;> decide
  have hversion : findCRLF (versionText r.version) = none := by cases r.version <;> decide
  have htarget : findCRLF (r.path ++ r.query) = none := by
    rcases r.query_ok with hq | ⟨q, hq, -⟩
    · rw [hq, List.append_nil]
      exact r.path_line
    · have hline := r.query_line
      rw [hq] at hline ⊢
      exact findCRLF_join r.path_line (findCRLF_tail hline) (by decide)
  exact findCRLF_join hmethod (findCRLF_join htarget hversion (by decide)) (by decide)

theorem headers_line : ∀ h ∈ r.headers, 58 ∉ h.1 ∧ findCRLF (headerText h) = none := by
  intro h hh
  obtain ⟨hcolon, hname, hvalue⟩ := r.headers_ok h hh
  exact ⟨hcolon, findCRLF_join hname hvalue (by decide)⟩

theorem bytes_eq : r.bytes = requestLineText r.method r.path r.query r.version ++ kCRLF ++
    (r.headers.flatMap (fun h => headerText h ++ kCRLF) ++ kCRLF) ++ r.body := by
  simp [bytes, requestLineText, headerText]

/-- Written out and parsed in one call, a request comes back: the call completes it and uses up
the bytes, the parts are the ones written, and each header has its last value, trimmed. -/
theorem parse_inverts_rendering (build : Build) (t : Int) :
    ∃ ctx, HttpContext.fresh.parseRequest build r.bytes t = .ok (true, ctx, []) ∧
      ctx.gotAll = true ∧ ctx.request.method = r.method ∧ ctx.request.path = r.path ∧
      ctx.request.query = r.query ∧ ctx.request.version = r.version ∧
      ctx.request.body = r.body ∧
      ∀ field,
        (∀ h, lastNamed field r.headers = some h → Trims h.2 (ctx.request.getHeader field)) ∧
        (lastNamed field r.headers = none → ctx.request.getHeader field = []) := by
  let req : HttpRequest := { HttpRequest.fresh with
    method := r.method, path := r.path, query := r.query, version := r.version, receiveTime := t }
  have hparse := parseRequest_lines build t r.line_ok
    (requestLine_requestLineText r.method_ne r.version_ne r.path_ok r.query_ok) r.headers
    r.headers_line r.body
  rw [← r.bytes_eq] at hparse
  obtain ⟨hm, hp, hq, hv, hb⟩ := withHeaders_fields r.headers req
  have hbody := withBody_body hb r.body
  obtain ⟨y, hy⟩ := withBody_eq (withHeaders req r.headers) r.body
  have hfind : ∀ field, OrdMap.find field (withHeaders req r.headers).headers =
      (lastNamed field r.headers).map fun h => trim h.2 := by
    intro field
    rw [find_withHeaders, ← lastValue_eq]
    simp [lastValue, req, HttpRequest.fresh, OrdMap.find]
  refine ⟨_, hparse, rfl, ?_⟩
  show (withBody (withHeaders req r.headers) r.body).method = _ ∧ _
  rw [hy] at hbody ⊢
  refine ⟨hm, hp, hq, hv, hbody, fun field => ⟨fun h hh => ?_, fun hh => ?_⟩⟩
  · have hget : HttpRequest.getHeader { withHeaders req r.headers with body := y } field =
        trim h.2 := by
      simp [HttpRequest.getHeader, hfind, hh]
    rw [hget]
    exact trims_trim h.2
  · simp [HttpRequest.getHeader, hfind, hh]

/-- A name that repeats, with a value that has a colon and white space of its own. -/
theorem parse_inverts_rendering_repeated :
    ∃ r : RequestParts,
      r.bytes = ascii "POST /a?b HTTP/1.1\r\nX: 1\r\nX:\t2 : 3 \r\n\r\nz" ∧
      ∃ ctx, HttpContext.fresh.parseRequest .debug r.bytes 0 = .ok (true, ctx, []) ∧
        ctx.request.method = .kPost ∧ ctx.request.body = ascii "z" ∧
        Trims (ascii "\t2 : 3 ") (ctx.request.getHeader (ascii "X")) := by
  let r : RequestParts :=
    { method := .kPost, path := ascii "/a", query := ascii "?b", version := .kHttp11,
      headers := [(ascii "X", ascii " 1"), (ascii "X", ascii "\t2 : 3 ")], body := ascii "z",
      method_ne := by decide, version_ne := by decide, path_ok := by decide,
      query_ok := .inr ⟨ascii "b", by decide, by decide⟩, path_line := by decide,
      query_line := by decide, headers_ok := by decide }
  obtain ⟨ctx, hparse, -, hm, -, -, -, hb, hfields⟩ := r.parse_inverts_rendering .debug 0
  exact ⟨r, by decide, ctx, hparse, hm, hb, (hfields (ascii "X")).1 _ rfl⟩

end RequestParts

end Lute.Http
