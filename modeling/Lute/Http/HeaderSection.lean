import Lute.Http.Incremental
import Lute.Lib.Trace

/-! Where the header section of a request ends. -/
namespace Lute.Http

/-- A context between two iterations of the parser: `call` holds the receive time and `ok` of the
call of `parseRequest` under way. -/
structure Parsing where
  ctx : HttpContext
  unread : Bytes
  call : Option (Int × Bool)
  deriving DecidableEq, Repr

namespace Parsing

/-- `parseRequest` is called with more bytes behind the unread ones, or its loop goes round. -/
inductive Label
  | parseRequest (chunk : Bytes) (receiveTime : Int)
  | iterate
  deriving DecidableEq, Repr

def step (build : Build) (s : Parsing) : Label → Parsing → Prop
  | .parseRequest chunk receiveTime, t =>
    s.call = none ∧ t = { s with unread := s.unread ++ chunk, call := some (receiveTime, true) }
  | .iterate, t =>
    ∃ time ok more ok' ctx' buf', s.call = some (time, ok) ∧
      s.ctx.iteration build time ok s.unread = .ok (more, ok', ctx', buf') ∧
      t = ⟨ctx', buf', if more then some (time, ok') else none⟩

/-- A fresh context fed with chunks. -/
def system (build : Build) : Trace.LTS Parsing Label where
  init s := s = ⟨.fresh, [], none⟩
  step := step build

def chunkOf : Label → Bytes
  | .parseRequest chunk _ => chunk
  | .iterate => []

/-- The bytes delivered so far. -/
def delivered (h : List Label) : Bytes := h.flatMap chunkOf

@[simp] theorem delivered_nil : delivered [] = [] := rfl

@[simp] theorem delivered_snoc (h : List Label) (a : Label) :
    delivered (h ++ [a]) = delivered h ++ chunkOf a := by
  simp [delivered]

end Parsing

/-- A line: no terminator inside. -/
def IsLine (line : Bytes) : Prop := findCRLF line = none

def terminated (lines : List Bytes) : Bytes := lines.flatMap (· ++ kCRLF)

/-- The headers recorded for the header lines, in their order. -/
def recorded (lines : List Bytes) : List (Bytes × Bytes) :=
  (lines.foldl (fun req line => req.addHeader line (line.idxOf 58)) HttpRequest.fresh).headers

/-- The bytes start with a request line, header lines that all have a colon, and the empty line;
`body` is what follows. -/
structure Sectioned (bytes requestLine : Bytes) (lines : List Bytes) (body : Bytes) : Prop where
  bytes : bytes = requestLine ++ kCRLF ++ terminated lines ++ kCRLF ++ body
  requestLine : IsLine requestLine
  lines : ∀ line ∈ lines, IsLine line ∧ 58 ∈ line

namespace Parsing

/-- Once past its headers, the parser has read an empty line after lines that all had a colon and
are all recorded, and only bytes after the empty line are taken for the body. -/
def Delimited (bytes : Bytes) (s : Parsing) : Prop :=
  s.ctx.state = .kExpectBody ∨ s.ctx.state = .kGotAll →
    ∃ requestLine lines body, Sectioned bytes requestLine lines body ∧
      s.ctx.request.headers = recorded lines ∧ s.ctx.request.body <+: body ∧
      (s.ctx.state = .kExpectBody → s.unread = body)

/-- An iteration leaves `kExpectHeaders` at an empty line only. -/
def LeavesAtEmptyLine (build : Build) (s : Parsing) : Prop :=
  s.ctx.state = .kExpectHeaders → ∀ t, step build s .iterate t →
    t.ctx.state ≠ .kExpectHeaders → findCRLF s.unread = some 0

/-- However the stream is cut, at every moment of its parsing. -/
def SectionDelimited (build : Build) (stream : Bytes) : Prop :=
  ∀ h s, (system build).Exec h s → delivered h <+: stream →
    s.LeavesAtEmptyLine build ∧ s.Delimited (delivered h)

/-- Behind a request line that is accepted, each complete line up to the first empty one has a
colon. -/
def ColonLines (stream : Bytes) : Prop :=
  ∀ first lines line rest, stream = first ++ kCRLF ++ terminated lines ++ line ++ kCRLF ++ rest →
    IsLine first → (∀ l ∈ lines, IsLine l ∧ l ≠ []) → IsLine line → line ≠ [] →
    (requestLine .fresh first).1 = true → 58 ∈ line

section
variable {build : Build} {buf line bytes chunk : Bytes} {lines : List Bytes} {i : Nat}
  {req req' : HttpRequest} {ok : Bool} {s t : Parsing} {h : List Label}

theorem findCRLF_split (hf : findCRLF buf = some i) :
    IsLine (buf.take i) ∧ buf = buf.take i ++ kCRLF ++ buf.drop (i + 2) := by
  have hne : kCRLF ≠ [] := by decide
  obtain ⟨hat, hmin⟩ := (Search.memmem_eq_some_iff hne).mp hf
  have hle := Search.occurrence_le hat hne
  constructor
  · refine (Search.memmem_eq_none_iff hne).mpr fun j hj => ?_
    have hjle := Search.occurrence_le hj hne
    rw [List.length_take] at hjle
    have hpos : 0 < kCRLF.length := by decide
    refine hmin j (by omega) ?_
    have happ : kCRLF <+: (buf.take i ++ buf.drop i).drop j :=
      (Search.occurrence_append (by rw [List.length_take]; omega)).mpr hj
    rwa [List.take_append_drop] at happ
  · obtain ⟨rest, hrest⟩ := hat
    have hdrop : buf.drop (i + 2) = rest := by
      rw [← List.drop_drop, ← hrest]
      rfl
    rw [hdrop, List.append_assoc, hrest, List.take_append_drop]

theorem colon_iff : line.idxOf 58 ≠ line.length ↔ 58 ∈ line := by
  rw [Ne, List.idxOf_eq_length_iff, not_not]

theorem terminated_snoc : terminated (lines ++ [line]) = terminated lines ++ line ++ kCRLF := by
  simp [terminated]

theorem recorded_snoc (hreq : req.headers = recorded lines) :
    (req.addHeader line (line.idxOf 58)).headers = recorded (lines ++ [line]) := by
  simp [recorded, HttpRequest.addHeader, hreq]

theorem setTarget_fields (req : HttpRequest) (target : Bytes) :
    (setTarget req target).headers = req.headers ∧ (setTarget req target).body = req.body := by
  by_cases hq : target.idxOf 63 ≠ target.length <;> simp [setTarget, hq]

theorem processTarget_fields (req : HttpRequest) (rest : Bytes) :
    (processTarget req rest).1 = (processTarget .fresh rest).1 ∧
      (processTarget req rest).2.headers = req.headers ∧
      (processTarget req rest).2.body = req.body := by
  by_cases hs : rest.idxOf 32 = rest.length
  · simp [processTarget, hs]
  · cases hv : versionOf (rest.drop (rest.idxOf 32 + 1)) <;>
      simp [processTarget, hs, hv, setTarget_fields]

/-- The request line decides on itself alone and leaves headers and body as they were. -/
theorem requestLine_fields (req : HttpRequest) (line : Bytes) :
    (requestLine req line).1 = (requestLine .fresh line).1 ∧
      (requestLine req line).2.headers = req.headers ∧
      (requestLine req line).2.body = req.body := by
  by_cases hs : line.idxOf 32 = line.length
  · simp [requestLine, hs]
  · by_cases hm : HttpRequest.methodOf (line.take (line.idxOf 32)) = .kInvalid
    · simp [requestLine, hs, hm]
    · simp only [requestLine, hs, hm, if_false]
      obtain ⟨h1, h2, h3⟩ := processTarget_fields
        { req with method := HttpRequest.methodOf (line.take (line.idxOf 32)) }
        (line.drop (line.idxOf 32 + 1))
      refine ⟨?_, h2, h3⟩
      exact h1.trans (processTarget_fields _ _).1.symm

theorem processRequestLine_fields (hp : processRequestLine build req line = .ok (ok, req')) :
    ok = (requestLine .fresh line).1 ∧ req'.headers = req.headers ∧ req'.body = req.body := by
  have heq : (ok, req') = requestLine req line := by
    by_cases hs : line.idxOf 32 = line.length
    · simpa [processRequestLine, requestLine, hs, eq_comm] using hp
    · -- a method already set stops a debug build before anything is returned
      have hb : build = .release ∨ req.method = .kInvalid := by
        cases build with
        | release => exact .inl rfl
        | debug =>
          refine .inr (Classical.byContradiction fun hm => ?_)
          simp [processRequestLine, hs, HttpRequest.setMethod, Build.assert, hm, bind,
            Except.bind] at hp
      rw [processRequestLine_eq hb] at hp
      exact (Except.ok.inj hp).symm
  obtain ⟨h1, h2, h3⟩ := requestLine_fields req line
  rw [← heq] at h1 h2 h3
  exact ⟨h1, h2, h3⟩

/-- Where the parser stands in the bytes delivered so far. -/
def Reading (bytes : Bytes) (s : Parsing) : Prop :=
  match s.ctx.state with
  | .kExpectRequestLine =>
    s.unread = bytes ∧ s.ctx.request.headers = [] ∧ s.ctx.request.body = []
  | .kExpectHeaders =>
    ∃ first lines, bytes = first ++ kCRLF ++ terminated lines ++ s.unread ∧ IsLine first ∧
      (requestLine .fresh first).1 = true ∧ (∀ line ∈ lines, IsLine line ∧ 58 ∈ line) ∧
      s.ctx.request.headers = recorded lines ∧ s.ctx.request.body = []
  | .kExpectBody =>
    ∃ first lines, Sectioned bytes first lines s.unread ∧
      s.ctx.request.headers = recorded lines ∧ s.ctx.request.body = []
  | .kGotAll =>
    ∃ first lines body, Sectioned bytes first lines body ∧
      s.ctx.request.headers = recorded lines ∧ s.ctx.request.body <+: body

theorem Sectioned.append {first body : Bytes} (hs : Sectioned bytes first lines body) :
    Sectioned (bytes ++ chunk) first lines (body ++ chunk) := by
  obtain ⟨rfl, hf, hl⟩ := hs
  exact ⟨by simp, hf, hl⟩

theorem reading_chunk {call : Option (Int × Bool)} (hr : Reading bytes s) :
    Reading (bytes ++ chunk) { s with unread := s.unread ++ chunk, call := call } := by
  obtain ⟨⟨st, req⟩, unread, c⟩ := s
  cases st with
  | kExpectRequestLine =>
    obtain ⟨rfl, hh, hb⟩ := hr
    exact ⟨rfl, hh, hb⟩
  | kExpectHeaders =>
    obtain ⟨first, lines, rfl, hrest⟩ := hr
    exact ⟨first, lines, by simp, hrest⟩
  | kExpectBody =>
    obtain ⟨first, lines, hs, hrest⟩ := hr
    exact ⟨first, lines, Sectioned.append hs, hrest⟩
  | kGotAll =>
    obtain ⟨first, lines, body, hs, hh, hb⟩ := hr
    exact ⟨first, lines, body ++ chunk, Sectioned.append hs, hh, hb.trans (List.prefix_append _ _)⟩

/-- A line of the header section with no colon is empty. -/
theorem line_empty {first : Bytes} {stream : Bytes} (hc : ColonLines stream)
    (hp : bytes <+: stream) (hb : bytes = first ++ kCRLF ++ terminated lines ++ buf)
    (hf : IsLine first) (hacc : (requestLine .fresh first).1 = true)
    (hl : ∀ line ∈ lines, IsLine line ∧ 58 ∈ line) (hi : findCRLF buf = some i)
    (hcolon : 58 ∉ buf.take i) : buf.take i = [] := by
  obtain ⟨hline, hsplit⟩ := findCRLF_split hi
  obtain ⟨rest, hrest⟩ := hp
  refine Classical.byContradiction fun hne => hcolon ?_
  refine hc first lines (buf.take i) (buf.drop (i + 2) ++ rest) ?_ hf (fun l hl' => ?_) hline hne
    hacc
  · rw [← hrest, hb]
    conv_lhs => rw [hsplit]
    simp
  · obtain ⟨h1, h2⟩ := hl l hl'
    exact ⟨h1, List.ne_nil_of_mem h2⟩

variable {stream : Bytes}

theorem reading_iterate (hc : ColonLines stream) (hp : bytes <+: stream) (hr : Reading bytes s)
    (hs : step build s .iterate t) : Reading bytes t := by
  obtain ⟨time, ok, more, ok', ctx', buf', -, hit, rfl⟩ := hs
  obtain ⟨⟨st, req⟩, unread, c⟩ := s
  obtain ⟨-, -, -, -, -, rfl, rfl⟩ |
    ⟨i, req', rfl, hf, hpl, ⟨rfl, -, rfl, rfl⟩ | ⟨-, -, rfl, rfl⟩⟩ |
    ⟨i, rfl, hf, -, -, rfl, rfl⟩ | ⟨rfl, -, -, rfl, rfl⟩ | ⟨-, -, -, rfl, rfl⟩ :=
    iteration_cases hit
  · exact hr
  · obtain ⟨rfl, hh, hb⟩ := hr
    obtain ⟨hacc, hh', hb'⟩ := processRequestLine_fields hpl
    obtain ⟨hline, hsplit⟩ := findCRLF_split hf
    exact ⟨_, [], by simpa [terminated] using hsplit, hline, hacc.symm, by simp, hh'.trans hh,
      hb'.trans hb⟩
  · obtain ⟨rfl, hh, hb⟩ := hr
    obtain ⟨-, hh', hb'⟩ := processRequestLine_fields hpl
    exact ⟨rfl, hh'.trans hh, hb'.trans hb⟩
  · obtain ⟨first, lines, hbytes, hfirst, hacc, hl, hh, hb⟩ := hr
    obtain ⟨hline, hsplit⟩ := findCRLF_split hf
    by_cases hcolon : 58 ∈ unread.take i
    · rw [HttpContext.headerLine, if_pos (colon_iff.mpr hcolon)]
      refine ⟨first, lines ++ [unread.take i], ?_, hfirst, hacc, ?_, recorded_snoc hh, hb⟩
      · rw [hbytes, terminated_snoc]
        conv_lhs => rw [show unread = _ from hsplit]
        simp
      · intro l hl'
        rcases List.mem_append.mp hl' with h | h
        · exact hl l h
        · obtain rfl : l = unread.take i := by simpa using h
          exact ⟨hline, hcolon⟩
    · have hempty := line_empty hc hp hbytes hfirst hacc hl hf hcolon
      rw [HttpContext.headerLine, if_neg (fun h => hcolon (colon_iff.mp h))]
      refine ⟨first, lines, ⟨?_, hfirst, hl⟩, hh, hb⟩
      rw [hbytes]
      conv_lhs => rw [show unread = _ from hsplit, hempty]
      simp
  · obtain ⟨first, lines, hsec, hh, hb⟩ := hr
    refine ⟨first, lines, unread, hsec, ?_, ?_⟩
    · by_cases hne : unread = [] <;> simpa [hne] using hh
    · by_cases hne : unread = []
      · simpa [hne] using hb
      · simp [hne]
  · exact hr

theorem reading_exec (hc : ColonLines stream) (he : (system build).Exec h s)
    (hp : delivered h <+: stream) : Reading (delivered h) s := by
  induction he with
  | start hi =>
    obtain rfl := hi
    exact ⟨rfl, rfl, rfl⟩
  | @snoc h s t a he hs ih =>
    have hp' : delivered h <+: stream := by
      rw [delivered_snoc] at hp
      exact (List.prefix_append _ _).trans hp
    rw [delivered_snoc]
    cases a with
    | parseRequest chunk time =>
      obtain ⟨-, rfl⟩ := hs
      exact reading_chunk (ih hp')
    | iterate =>
      simpa [chunkOf] using reading_iterate hc hp' (ih hp') hs

theorem Reading.leaves (hc : ColonLines stream) (hp : bytes <+: stream) (hr : Reading bytes s) :
    s.LeavesAtEmptyLine build := by
  rintro hst t ⟨time, ok, more, ok', ctx', buf', -, hit, rfl⟩ hleave
  obtain ⟨⟨st, req⟩, unread, c⟩ := s
  obtain rfl : st = .kExpectHeaders := hst
  obtain ⟨-, -, -, -, -, rfl, rfl⟩ | ⟨i, req', h, -⟩ | ⟨i, -, hf, -, -, rfl, rfl⟩ | ⟨h, -⟩ |
    ⟨h, -⟩ := iteration_cases hit
  · exact absurd rfl hleave
  · cases h
  · obtain ⟨first, lines, hbytes, hfirst, hacc, hl, -, -⟩ := hr
    have hcolon : 58 ∉ unread.take i := by
      intro hmem
      rw [HttpContext.headerLine, if_pos (colon_iff.mpr hmem)] at hleave
      exact hleave rfl
    have hempty := line_empty hc hp hbytes hfirst hacc hl hf hcolon
    have hle := findCRLF_le hf
    have hlen := congrArg List.length hempty
    rw [List.length_take, List.length_nil] at hlen
    obtain rfl : i = 0 := by omega
    exact hf
  · cases h
  · cases h

theorem Reading.delimited (hr : Reading bytes s) : s.Delimited bytes := by
  obtain ⟨⟨st, req⟩, unread, c⟩ := s
  rintro (hst | hst)
  · obtain rfl : st = .kExpectBody := hst
    obtain ⟨first, lines, hsec, hh, hb⟩ := hr
    exact ⟨first, lines, unread, hsec, hh, by simp [show req.body = [] from hb], fun _ => rfl⟩
  · obtain rfl : st = .kGotAll := hst
    obtain ⟨first, lines, body, hsec, hh, hb⟩ := hr
    exact ⟨first, lines, body, hsec, hh, hb, by simp⟩

theorem iterate_line {time : Int} {req : HttpRequest} {rest : Bytes} (hl : IsLine line) :
    (system build).step ⟨⟨.kExpectHeaders, req⟩, line ++ kCRLF ++ rest, some (time, ok)⟩ .iterate
      ⟨HttpContext.headerLine ⟨.kExpectHeaders, req⟩ line, rest, some (time, ok)⟩ := by
  have hf := @findCRLF_line line rest hl
  refine ⟨time, ok, true, ok, _, rest, rfl, ?_, rfl⟩
  simp only [HttpContext.iteration, hf]
  have htake : (line ++ kCRLF ++ rest).take line.length = line := by simp
  have hdrop : (line ++ kCRLF ++ rest).drop (line.length + 2) = rest :=
    List.drop_left' (by simp [kCRLF])
  rw [htake, hdrop]
  rfl

/-- Lines with a colon are read one after the other, within one call. -/
theorem exec_lines {time : Int} {rest : Bytes} (hl : ∀ l ∈ lines, IsLine l ∧ 58 ∈ l)
    (he : (system build).Exec h
      ⟨⟨.kExpectHeaders, req⟩, terminated lines ++ rest, some (time, ok)⟩) :
    ∃ h' req', (system build).Exec h' ⟨⟨.kExpectHeaders, req'⟩, rest, some (time, ok)⟩ ∧
      delivered h' = delivered h := by
  induction lines generalizing h req with
  | nil => exact ⟨h, req, he, rfl⟩
  | cons line lines ih =>
    obtain ⟨hline, hcolon⟩ := hl line (by simp)
    have hsplit : terminated (line :: lines) ++ rest =
        line ++ kCRLF ++ (terminated lines ++ rest) := by simp [terminated]
    rw [hsplit] at he
    have hnext := he.snoc (iterate_line hline)
    rw [HttpContext.headerLine, if_pos (colon_iff.mpr hcolon)] at hnext
    obtain ⟨h', req', he', hd⟩ := ih (fun l hl' => hl l (by simp [hl'])) hnext
    exact ⟨h', req', he', by simpa [chunkOf] using hd⟩

/-- A request line that is accepted, in one call on the whole stream. -/
theorem exec_requestLine (build : Build) {first rest : Bytes} (hf : IsLine first)
    (hacc : (requestLine .fresh first).1 = true) :
    ∃ h req, (system build).Exec h ⟨⟨.kExpectHeaders, req⟩, rest, some (0, true)⟩ ∧
      delivered h = first ++ kCRLF ++ rest := by
  have h₀ : (system build).Exec [] ⟨.fresh, [], none⟩ := .start rfl
  have h₁ : (system build).Exec [.parseRequest (first ++ kCRLF ++ rest) 0]
      ⟨.fresh, first ++ kCRLF ++ rest, some (0, true)⟩ := h₀.snoc ⟨rfl, by simp⟩
  have htake : (first ++ kCRLF ++ rest).take first.length = first := by simp
  have hdrop : (first ++ kCRLF ++ rest).drop (first.length + 2) = rest :=
    List.drop_left' (by simp [kCRLF])
  have hcrlf := @findCRLF_line first rest hf
  rcases hp : requestLine .fresh first with ⟨ok, req⟩
  obtain rfl : ok = true := by simpa [hp] using hacc
  have hline : processRequestLine build .fresh first = .ok (true, req) := by
    rw [processRequestLine_eq (.inr rfl), hp]
  have hstep : (system build).step ⟨.fresh, first ++ kCRLF ++ rest, some (0, true)⟩ .iterate
      ⟨⟨.kExpectHeaders, { req with receiveTime := 0 }⟩, rest, some (0, true)⟩ := by
    refine ⟨0, true, true, true, _, rest, rfl, ?_, rfl⟩
    simp only [HttpContext.iteration, HttpContext.fresh, hcrlf, htake, hdrop, hline]
    rfl
  exact ⟨_, _, h₁.snoc hstep, by simp [delivered, chunkOf]⟩

theorem colonLines_of_sectionDelimited (hd : SectionDelimited build stream) :
    ColonLines stream := by
  intro first lines line rest hstream hfirst hlines hline hne hacc
  refine Classical.byContradiction fun hcolon => ?_
  -- the first line without a colon is met in `kExpectHeaders`
  have hsome : ((lines ++ [line]).find? fun l => decide (58 ∉ l)).isSome := by
    rw [List.find?_isSome]
    exact ⟨line, by simp, by simpa using hcolon⟩
  obtain ⟨bad, hbad⟩ := Option.isSome_iff_exists.mp hsome
  obtain ⟨hno, front, back, hall, hfront⟩ := List.find?_eq_some_iff_append.mp hbad
  have hlines' : ∀ l ∈ lines ++ [line], IsLine l ∧ l ≠ [] := by
    intro l hl
    rcases List.mem_append.mp hl with h | h
    · exact hlines l h
    · obtain rfl : l = line := by simpa using h
      exact ⟨hline, hne⟩
  have hgood : ∀ l ∈ front, IsLine l ∧ 58 ∈ l := fun l hl =>
    ⟨(hlines' l (by simp [hall, hl])).1, by simpa using hfront l hl⟩
  obtain ⟨hbadline, hbadne⟩ := hlines' bad (by simp [hall])
  have hbytes : stream =
      first ++ kCRLF ++ (terminated front ++ (bad ++ kCRLF ++ (terminated back ++ rest))) := by
    have hterm : terminated lines ++ line ++ kCRLF = terminated front ++ bad ++ kCRLF ++
        terminated back := by
      rw [← terminated_snoc, hall]
      simp [terminated]
    calc stream = first ++ kCRLF ++ (terminated lines ++ line ++ kCRLF) ++ rest := by
          simp [hstream]
      _ = _ := by rw [hterm]; simp
  obtain ⟨h₁, req₁, he₁, hd₁⟩ := exec_requestLine build hfirst hacc
  obtain ⟨h₂, req₂, he₂, hd₂⟩ := exec_lines hgood he₁
  have hleave := (hd h₂ _ he₂ (by rw [hd₂, hd₁, ← hbytes])).1 rfl _ (iterate_line hbadline) (by
    rw [HttpContext.headerLine, if_neg (fun h => by simp [colon_iff.mp h] at hno)]
    simp)
  rw [findCRLF_line hbadline, Option.some.injEq, List.length_eq_zero_iff] at hleave
  exact hbadne hleave

/-- The header section ends at the empty line, and nowhere else, exactly on the streams whose
header lines all have a colon. -/
theorem sectionDelimited_iff (build : Build) (stream : Bytes) :
    SectionDelimited build stream ↔ ColonLines stream := by
  constructor
  · exact colonLines_of_sectionDelimited
  · intro hc h s he hp
    have hr := reading_exec hc he hp
    exact ⟨Reading.leaves hc hp hr, Reading.delimited hr⟩

/-- A call of `parseRequest` that returns is a run of the loop. -/
theorem exec_parseLoop {time : Int} {n : Nat} {ctx : HttpContext} {r : Bool × HttpContext × Bytes}
    (he : (system build).Exec h ⟨ctx, buf, some (time, ok)⟩)
    (hl : ctx.parseLoop build time n ok buf = .ok r) :
    ∃ h', (system build).Exec h' ⟨r.2.1, r.2.2, none⟩ ∧ delivered h' = delivered h := by
  induction n generalizing h ctx buf ok with
  | zero => simp [HttpContext.parseLoop] at hl
  | succ n ih =>
    rcases parseLoop_cases hl with hstop | ⟨ok', ctx', buf', hi, hl'⟩
    · have hstep : (system build).step ⟨ctx, buf, some (time, ok)⟩ .iterate
          ⟨r.2.1, r.2.2, none⟩ := ⟨time, ok, false, r.1, r.2.1, r.2.2, rfl, hstop, rfl⟩
      exact ⟨_, he.snoc hstep, by simp [chunkOf]⟩
    · have hstep : (system build).step ⟨ctx, buf, some (time, ok)⟩ .iterate
          ⟨ctx', buf', some (time, ok')⟩ := ⟨time, ok, true, ok', ctx', buf', rfl, hi, rfl⟩
      obtain ⟨h', he', hd⟩ := ih (he.snoc hstep) hl'
      exact ⟨h', he', by simpa [chunkOf] using hd⟩

/-- Chunks fed to `parseRequest` one after the other are a run of the system. -/
theorem exec_feed {calls : List (Bytes × Int)} {r : Bool × HttpContext × Bytes}
    (hf : feed build calls = .ok r) :
    ∃ h, (system build).Exec h ⟨r.2.1, r.2.2, none⟩ ∧ delivered h = calls.flatMap Prod.fst := by
  induction calls using List.reverseRecOn generalizing r with
  | nil =>
    obtain rfl : (true, HttpContext.fresh, []) = r := Except.ok.inj hf
    exact ⟨[], .start rfl, rfl⟩
  | append_singleton calls call ih =>
    obtain ⟨chunk, time⟩ := call
    rw [feed_snoc] at hf
    obtain ⟨q, hc, hf⟩ := bind_ok hf
    obtain ⟨h, he, hd⟩ := ih hc
    have hstep : (system build).step ⟨q.2.1, q.2.2, none⟩ (.parseRequest chunk time)
        ⟨q.2.1, q.2.2 ++ chunk, some (time, true)⟩ := ⟨rfl, rfl⟩
    obtain ⟨h', he', hd'⟩ := exec_parseLoop (he.snoc hstep) hf
    exact ⟨h', he', by simp [hd', hd, chunkOf]⟩

end

/-- A header line without a colon, and the header behind it. -/
def colonless : Bytes := ascii "GET / HTTP/1.1\r\nbad\r\nHost: x\r\n\r\n"

/-- The line `bad` ends the section, and the header and the empty line become the body. -/
theorem colonless_ends_section :
    ¬ SectionDelimited .release colonless ∧
    ∃ ctx, feed .release [(colonless, 0)] = .ok (true, ctx, []) ∧ ctx.state = .kGotAll ∧
      ctx.request.headers = [] ∧ ctx.request.body = ascii "Host: x\r\n\r\n" := by
  constructor
  · intro hd
    have hc := colonLines_of_sectionDelimited hd (ascii "GET / HTTP/1.1") [] (ascii "bad")
      (ascii "Host: x\r\n\r\n") rfl rfl (by simp) rfl (by decide) (by decide)
    exact absurd hc (by decide)
  · exact ⟨_, rfl, by decide, by decide, by decide⟩

end Parsing

end Lute.Http
