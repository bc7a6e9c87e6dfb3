import Lute.Http.HttpServer
import Lute.Http.Rendering

/-! Requests on one connection against the boundaries of the reads that deliver them. -/
namespace Lute.Http

variable (build : Build) (httpCallback : HttpCallback) {r : WireRequest}
  {reads : List (Bytes × Int)}

/-- The bytes of a sequence of reads. -/
def received (reads : List (Bytes × Int)) : Bytes := reads.flatMap Prod.fst

/-- Each request reached `httpCallback_` once, in order and whole, and nothing else happened. -/
def FramedCorrectly (build : Build) (httpCallback : HttpCallback) (requests : List WireRequest)
    (reads : List (Bytes × Int)) : Prop :=
  ∃ s es, Session.onConnection.deliver build httpCallback reads = .ok (s, es) ∧
    .badRequest ∉ es ∧ List.Forall₂ WireRequest.Matches (callbacks es) requests

/-- The reads fall into one block for each request: the block is exactly the bytes of the request,
and only its last read reaches the end of the head. -/
inductive Aligned : List WireRequest → List Bytes → Prop
  | nil : Aligned [] []
  | cons {r : WireRequest} {requests : List WireRequest} {init chunks : List Bytes} {last : Bytes}
      (hblock : (init ++ [last]).flatten = r.bytes) (hinit : init.flatten.length < r.head.length)
      (htail : Aligned requests chunks) : Aligned (r :: requests) (init ++ last :: chunks)

theorem deliver_append (s : Session) (reads more : List (Bytes × Int)) :
    s.deliver build httpCallback (reads ++ more) = do
      let (s, es) ← s.deliver build httpCallback reads
      let (s, es') ← s.deliver build httpCallback more
      return (s, es ++ es') := by
  induction reads generalizing s with
  | nil =>
    simp only [List.nil_append, Session.deliver, ok_bind]
    cases s.deliver build httpCallback more <;> rfl
  | cons read reads ih =>
    obtain ⟨chunk, t⟩ := read
    simp only [List.cons_append, Session.deliver]
    cases s.handleRead build httpCallback chunk t with
    | error e => rfl
    | ok p =>
      simp only [ok_bind, ih]
      cases p.1.deliver build httpCallback reads with
      | error e => rfl
      | ok q =>
        simp only [ok_bind, pure_eq_ok]
        cases q.1.deliver build httpCallback more with
        | error e => rfl
        | ok q' => simp [List.append_assoc]

/-- Reads that stop short of the end of a request's head are kept and cause nothing. -/
theorem deliver_incomplete (hp : received reads <+: r.head)
    (hlt : (received reads).length < r.head.length) :
    ∃ ctx buf, Session.onConnection.deliver build httpCallback reads = .ok (⟨ctx, buf⟩, []) ∧
      ctx.state ≠ .kGotAll ∧
      HttpContext.fresh.parseRequest build (received reads) 0 = .ok (true, ctx.untimed, buf) := by
  induction reads using List.reverseRecOn with
  | nil =>
    refine ⟨.fresh, [], rfl, by decide, (parseRequest_iff (by decide)).mpr ⟨1, rfl⟩⟩
  | append_singleton reads read ih =>
    obtain ⟨chunk, t⟩ := read
    have hcat : received (reads ++ [(chunk, t)]) = received reads ++ chunk := by simp [received]
    rw [hcat] at hp hlt
    have hp' : received reads <+: r.head := (List.prefix_append _ _).trans hp
    rw [List.length_append] at hlt
    obtain ⟨ctx, buf, hdel, hst, hone⟩ := ih hp' (by omega)
    obtain ⟨ctx₁, buf₁, hr, hst₁⟩ := parseRequest_head_incomplete build 0 r hp
      (by rw [List.length_append]; exact hlt)
    obtain ⟨⟨ok, ctx', buf'⟩, hnext, hun⟩ := (parseRequest_append (Or.inr rfl) hone hst t).mp hr
    obtain ⟨rfl, rfl, rfl⟩ : ok = true ∧ ctx'.untimed = ctx₁ ∧ buf' = buf₁ := by
      simpa [untimed] using hun
    have hst' : ctx'.state ≠ .kGotAll := hst₁
    refine ⟨ctx', buf', ?_, hst', by rw [hcat, hr]⟩
    have hgot : ctx'.gotAll = false := by simpa [HttpContext.gotAll] using hst'
    rw [deliver_append, hdel]
    simp [Session.deliver, Session.handleRead, Session.onMessage, hnext, hgot]

/-- The read that completes a head dispatches the request with everything behind the head, up to
the end of the read, as its body, and leaves nothing. -/
theorem deliver_complete {chunk x : Bytes} (t : Int) (hp : received reads <+: r.head)
    (hlt : (received reads).length < r.head.length) (hx : received reads ++ chunk = r.head ++ x) :
    ∃ req : HttpRequest,
      Session.onConnection.deliver build httpCallback (reads ++ [(chunk, t)]) =
        .ok (Session.onConnection, onRequest httpCallback req) ∧
      (WireRequest.Matches req r ↔ x = r.body) := by
  obtain ⟨ctx, buf, hdel, hst, hone⟩ := deliver_incomplete build httpCallback hp hlt
  have hall := parseRequest_head build 0 r x
  rw [← hx] at hall
  obtain ⟨⟨ok, ⟨st, req⟩, buf'⟩, hnext, hun⟩ :=
    (parseRequest_append (Or.inr rfl) hone hst t).mp hall
  obtain ⟨rfl, ⟨rfl, hreq⟩, rfl⟩ := by simpa [untimed, HttpContext.untimed] using hun
  refine ⟨req, ?_, ?_⟩
  · rw [deliver_append, hdel]
    simp [Session.deliver, Session.handleRead, Session.onMessage, hnext, HttpContext.gotAll]
    rfl
  · rw [← matches_iff 0 r x, ← hreq]
    rfl

theorem callbacks_append (es es' : List Effect) :
    callbacks (es ++ es') = callbacks es ++ callbacks es' :=
  List.filterMap_append

theorem callbacks_onRequest (req : HttpRequest) :
    callbacks (onRequest httpCallback req) = [req] := by
  dsimp only [onRequest]
  split_ifs <;> rfl

theorem badRequest_notMem_onRequest (req : HttpRequest) :
    .badRequest ∉ onRequest httpCallback req := by
  dsimp only [onRequest]
  split_ifs <;> simp

/-- The first read to reach a given total. -/
theorem exists_completing_read {reads : List (Bytes × Int)} {n : Nat}
    (hn : 0 < n) (h : n ≤ (received reads).length) :
    ∃ init chunk t rest, reads = init ++ (chunk, t) :: rest ∧ (received init).length < n ∧
      n ≤ (received init ++ chunk).length := by
  induction reads using List.reverseRecOn with
  | nil => simp [received] at h; omega
  | append_singleton reads read ih =>
    by_cases hr : n ≤ (received reads).length
    · obtain ⟨init, chunk, t, rest, rfl, hlt, hle⟩ := ih hr
      exact ⟨init, chunk, t, rest ++ [read], by simp, hlt, hle⟩
    · exact ⟨reads, read.1, read.2, [], rfl, Nat.lt_of_not_le hr, by simpa [received] using h⟩

/-- There is one place only where a sequence of chunks crosses a given total. -/
theorem completing_unique {init init' rest rest' : List Bytes} {chunk chunk' : Bytes} {n : Nat}
    (he : init ++ chunk :: rest = init' ++ chunk' :: rest')
    (hlt : init.flatten.length < n) (hle : n ≤ (init ++ [chunk]).flatten.length)
    (hlt' : init'.flatten.length < n) (hle' : n ≤ (init' ++ [chunk']).flatten.length) :
    init = init' ∧ chunk = chunk' ∧ rest = rest' := by
  rcases List.append_eq_append_iff.mp he with ⟨a, rfl, ha⟩ | ⟨a, rfl, ha⟩
  · cases a with
    | nil => simpa [eq_comm] using ha
    | cons b a =>
      obtain ⟨rfl, -⟩ := by simpa using ha
      simp only [List.flatten_append, List.flatten_cons, List.flatten_nil, List.append_nil,
        List.length_append] at hlt' hle
      omega
  · cases a with
    | nil => simpa [eq_comm] using ha
    | cons b a =>
      obtain ⟨rfl, -⟩ := by simpa using ha
      simp only [List.flatten_append, List.flatten_cons, List.flatten_nil, List.append_nil,
        List.length_append] at hlt hle'
      omega

/-- A block of reads is aligned with the request it starts when its body part is the body. -/
theorem aligned_cons_iff {requests : List WireRequest} {init rest : List Bytes} {chunk x : Bytes}
    (hlt : init.flatten.length < r.head.length) (hx : init.flatten ++ chunk = r.head ++ x) :
    Aligned (r :: requests) (init ++ chunk :: rest) ↔ x = r.body ∧ Aligned requests rest := by
  have hflat : (init ++ [chunk]).flatten = r.head ++ x := by simpa using hx
  constructor
  · intro h
    generalize hc : init ++ chunk :: rest = chunks at h
    cases h with
    | cons hblock hinit htail =>
      obtain ⟨rfl, rfl, rfl⟩ := completing_unique hc hlt (by rw [hflat]; simp) hinit
        (by rw [hblock]; simp [WireRequest.bytes])
      rw [hflat, WireRequest.bytes, List.append_cancel_left_eq] at hblock
      exact ⟨hblock, htail⟩
  · rintro ⟨rfl, htail⟩
    exact .cons hflat hlt htail

/-- One dispatched request in front of the rest of the reads. -/
theorem framedCorrectly_cons_iff {requests : List WireRequest} {first rest : List (Bytes × Int)}
    {req : HttpRequest} (hdel : Session.onConnection.deliver build httpCallback first =
      .ok (Session.onConnection, onRequest httpCallback req)) :
    FramedCorrectly build httpCallback (r :: requests) (first ++ rest) ↔
      WireRequest.Matches req r ∧ FramedCorrectly build httpCallback requests rest := by
  have happ := deliver_append build httpCallback Session.onConnection first rest
  rw [hdel, ok_bind] at happ
  dsimp only at happ
  unfold FramedCorrectly
  cases hrest : Session.onConnection.deliver build httpCallback rest with
  | error e =>
    rw [hrest] at happ
    simp [happ, Bind.bind, Except.bind]
  | ok p =>
    obtain ⟨s, es⟩ := p
    rw [hrest, ok_bind, pure_eq_ok] at happ
    have hcb : callbacks (onRequest httpCallback req ++ es) = req :: callbacks es := by
      rw [callbacks_append, callbacks_onRequest, List.singleton_append]
    simp [happ, hcb, badRequest_notMem_onRequest, and_left_comm]

/-- The framing is right for exactly the reads that are aligned with the requests. -/
theorem framedCorrectly_iff_aligned (requests : List WireRequest) (reads : List (Bytes × Int))
    (hne : ∀ read ∈ reads, read.1 ≠ [])
    (hcat : received reads = requests.flatMap WireRequest.bytes) :
    FramedCorrectly build httpCallback requests reads ↔ Aligned requests (reads.map Prod.fst) := by
  induction requests generalizing reads with
  | nil =>
    obtain rfl : reads = [] := by
      cases reads with
      | nil => rfl
      | cons read reads => simp [received, hne read] at hcat
    exact ⟨fun _ => .nil, fun _ => ⟨_, [], rfl, by simp, .nil⟩⟩
  | cons r requests ih =>
    have hpos : 0 < r.head.length := by simp [WireRequest.head, kCRLF]
    have hle : r.head.length ≤ (received reads).length := by
      rw [hcat, List.flatMap_cons, WireRequest.bytes]
      simp only [List.length_append]
      omega
    obtain ⟨init, chunk, t, rest, rfl, hlt, hge⟩ := exists_completing_read hpos hle
    have hsplit : received init ++ chunk ++ received rest =
        r.head ++ (r.body ++ requests.flatMap WireRequest.bytes) := by
      simpa [received, WireRequest.bytes] using hcat
    have hprefix : received init <+: r.head :=
      List.prefix_of_prefix_length_le ⟨chunk ++ received rest, by rw [← List.append_assoc, hsplit]⟩
        (List.prefix_append _ _) (Nat.le_of_lt hlt)
    obtain ⟨x, hx⟩ : r.head <+: received init ++ chunk :=
      List.prefix_of_prefix_length_le (List.prefix_append _ _) ⟨received rest, hsplit⟩ hge
    obtain ⟨req, hdel, hmatch⟩ :=
      deliver_complete build httpCallback t hprefix hlt hx.symm
    rw [List.map_append, List.map_cons, aligned_cons_iff (r := r) hlt hx.symm]
    rw [show init ++ (chunk, t) :: rest = init ++ [(chunk, t)] ++ rest by simp,
      framedCorrectly_cons_iff build httpCallback hdel, hmatch]
    refine and_congr_right fun hbody => ih rest (fun read hr => hne read (by simp [hr])) ?_
    rw [← hx, hbody, List.append_assoc, List.append_cancel_left_eq,
      List.append_cancel_left_eq] at hsplit
    exact hsplit

/-- A request that announces and carries five bytes of body. -/
def postHello : WireRequest where
  method := .kPost
  path := ascii "/echo"
  query := []
  version := .kHttp11
  headers := [(ascii "Content-Length", ascii " 5")]
  body := ascii "hello"
  method_ne := by decide
  version_ne := by decide
  path_ok := by decide
  query_ok := .inl rfl
  line_ok := by decide
  headers_ok := by decide
  body_ok := by
    show decimal (ascii "5") = some 5
    decide

/-- The head alone in the first read: the request is dispatched with an empty body. -/
theorem split_body_misframed :
    (∀ read ∈ [(postHello.head, (1 : Int)), (postHello.body, 2)], read.1 ≠ []) ∧
    received [(postHello.head, 1), (postHello.body, 2)] = [postHello].flatMap WireRequest.bytes ∧
    ¬ FramedCorrectly .release (fun _ resp => resp) [postHello]
      [(postHello.head, 1), (postHello.body, 2)] := by
  refine ⟨by decide, by decide, ?_⟩
  rintro ⟨s, es, hdel, -, hm⟩
  have hbodies : (Session.onConnection.deliver .release (fun _ resp => resp)
      [(postHello.head, 1), (postHello.body, 2)]).map (fun p => (callbacks p.2).map (·.body)) =
        .ok [[]] := by decide
  rw [hdel] at hbodies
  obtain ⟨req, hcb, hreq⟩ : ∃ req, callbacks es = [req] ∧ req.body = [] := by
    simpa [Except.map, List.map_eq_singleton_iff] using hbodies
  rw [hcb] at hm
  obtain ⟨hmatch, -⟩ := List.forall₂_cons.mp hm
  have hbody := hmatch.2.2.2.2.2
  rw [hreq] at hbody
  exact absurd hbody (by decide)

def getIndex : WireRequest where
  method := .kGet
  path := ascii "/"
  query := ascii "?a=b"
  version := .kHttp11
  headers := [(ascii "Host", ascii " lute")]
  body := []
  method_ne := by decide
  version_ne := by decide
  path_ok := by decide
  query_ok := .inr ⟨ascii "a=b", rfl, by decide⟩
  line_ok := by decide
  headers_ok := by decide
  body_ok := rfl

/-- Three requests; the first in two reads, the second in three, the last in one. -/
def pieces : List (Bytes × Int) :=
  [(getIndex.bytes.take 9, 1), (getIndex.bytes.drop 9, 2), (postHello.bytes.take 4, 3),
    ((postHello.bytes.drop 4).take 20, 4), (postHello.bytes.drop 24, 5), (getIndex.bytes, 6)]

theorem framedCorrectly_iff_aligned_whole :
    received pieces = [getIndex, postHello, getIndex].flatMap WireRequest.bytes ∧
    FramedCorrectly .release (fun _ resp => resp) [getIndex, postHello, getIndex] pieces := by
  have hcat : received pieces = [getIndex, postHello, getIndex].flatMap WireRequest.bytes := by
    decide
  refine ⟨hcat, (framedCorrectly_iff_aligned .release _ _ pieces (by decide) hcat).mpr ?_⟩
  have hlast : Aligned [getIndex] [getIndex.bytes] :=
    @Aligned.cons getIndex [] [] [] getIndex.bytes (List.append_nil _) (by decide) .nil
  have hpost := @Aligned.cons postHello _ [postHello.bytes.take 4, (postHello.bytes.drop 4).take 20]
    _ (postHello.bytes.drop 24) (by decide) (by decide) hlast
  exact @Aligned.cons getIndex _ [getIndex.bytes.take 9] _ (getIndex.bytes.drop 9) (by decide)
    (by decide) hpost

end Lute.Http
