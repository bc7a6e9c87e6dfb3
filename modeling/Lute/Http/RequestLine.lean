import Lute.Http.Rendering

/-! Which byte sequences are request lines, and what is read from one. -/
namespace Lute.Http

variable {build : Build} {req : HttpRequest} {line m t ver : Bytes} {d : UInt8}

/-- `line` is `m t HTTP/1.d`: a known method, a target without spaces and one of two digits. -/
structure IsRequestLine (line m t : Bytes) (d : UInt8) : Prop where
  line_eq : line = m ++ ascii " " ++ t ++ ascii " HTTP/1." ++ [d]
  method : m = ascii "GET" ∨ m = ascii "POST" ∨ m = ascii "HEAD" ∨ m = ascii "PUT" ∨
    m = ascii "DELETE"
  target : 32 ∉ t
  digit : d = 48 ∨ d = 49

theorem methodText_methodOf (h : HttpRequest.methodOf m ≠ .kInvalid) :
    methodText (HttpRequest.methodOf m) = m := by
  unfold HttpRequest.methodOf at h ⊢
  split_ifs at h ⊢ with h₁ h₂ h₃ h₄ h₅
  · exact h₁.symm
  · exact h₂.symm
  · exact h₃.symm
  · exact h₄.symm
  · exact h₅.symm
  · exact absurd rfl h

theorem methodOf_ne_kInvalid_iff : HttpRequest.methodOf m ≠ .kInvalid ↔
    m = ascii "GET" ∨ m = ascii "POST" ∨ m = ascii "HEAD" ∨ m = ascii "PUT" ∨
      m = ascii "DELETE" := by
  constructor
  · intro h
    have htext := methodText_methodOf h
    cases hm : HttpRequest.methodOf m <;> simp_all [methodText]
  · rintro (rfl | rfl | rfl | rfl | rfl) <;> decide

/-- The versions are recognised by their text and nothing else is. -/
theorem versionOf_eq_some_iff {v : Version} :
    versionOf ver = some v ↔ v ≠ .kUnknown ∧ ver = versionText v := by
  constructor
  · intro h
    have htext : ∀ d, ver.length = 8 ∧ ver.take 7 = ascii "HTTP/1." → ver.getLast? = some d →
        ver = ascii "HTTP/1." ++ [d] := by
      rintro d ⟨hlen, hfront⟩ hlast
      obtain ⟨front, rfl⟩ := List.getLast?_eq_some_iff.mp hlast
      have hseven : front.length = 7 := by simpa using hlen
      rw [List.take_left' hseven] at hfront
      rw [hfront]
    unfold versionOf at h
    split_ifs at h with hver hone hzero
    · obtain rfl := Option.some.inj h
      exact ⟨by decide, htext _ hver hone⟩
    · obtain rfl := Option.some.inj h
      exact ⟨by decide, htext _ hver hzero⟩
  · rintro ⟨hv, rfl⟩
    exact versionOf_versionText hv

theorem versionOf_digit (hd : d = 48 ∨ d = 49) :
    ∃ v, versionOf (ascii "HTTP/1." ++ [d]) = some v ∧ versionText v = ascii "HTTP/1." ++ [d] := by
  rcases hd with rfl | rfl
  · exact ⟨.kHttp10, by decide, rfl⟩
  · exact ⟨.kHttp11, by decide, rfl⟩

theorem setTarget_split (req : HttpRequest) (hq : req.query = []) (t : Bytes) :
    (setTarget req t).path = t.takeWhile (· ≠ 63) ∧
      (setTarget req t).query = t.dropWhile (· ≠ 63) := by
  by_cases hm : 63 ∈ t
  · obtain ⟨path, query, rfl, hpath⟩ := List.eq_append_cons_of_mem hm
    have hi := idxOf_append_cons hpath query
    have hall : ∀ c ∈ path, decide (c ≠ 63) = true := by
      intro c hc
      exact decide_eq_true fun h => hpath (h ▸ hc)
    rw [List.takeWhile_append_of_pos hall, List.dropWhile_append_of_pos hall]
    simp [setTarget, hi]
  · have hi : t.idxOf 63 = t.length := List.idxOf_of_notMem hm
    have hall : ∀ c ∈ t, decide (c ≠ 63) = true := by
      intro c hc
      exact decide_eq_true fun h => hm (h ▸ hc)
    rw [List.takeWhile_eq_self_iff.mpr hall, List.dropWhile_eq_nil_iff.mpr hall]
    simp [setTarget, hi, hq]

/-- A line of the grammar is accepted, and its parts are what is set. -/
theorem requestLine_of_isRequestLine (req : HttpRequest) (h : IsRequestLine line m t d) :
    ∃ v, versionText v = ascii "HTTP/1." ++ [d] ∧ requestLine req line =
      (true, { setTarget { req with method := HttpRequest.methodOf m } t with version := v }) := by
  obtain ⟨v, hv, htext⟩ := versionOf_digit h.digit
  have hm := methodOf_ne_kInvalid_iff.mpr h.method
  have hspace : 32 ∉ m := by
    rw [← methodText_methodOf hm]
    exact space_notMem_methodText _
  have hline : line = m ++ 32 :: (t ++ 32 :: (ascii "HTTP/1." ++ [d])) := by
    rw [h.line_eq]
    simp [ascii]
  have hi := idxOf_append_cons hspace (t ++ 32 :: (ascii "HTTP/1." ++ [d]))
  refine ⟨v, htext, ?_⟩
  rw [hline]
  simp only [requestLine, hi, List.take_left, drop_append_cons, hm, if_false,
    processTarget_text h.target hv]
  rw [if_neg (by simp)]

/-- And no other line is accepted. -/
theorem isRequestLine_of_requestLine (h : (requestLine req line).1 = true) :
    ∃ m t d, IsRequestLine line m t d := by
  unfold requestLine at h
  by_cases hs : 32 ∈ line
  · obtain ⟨m, rest, rfl, hspace⟩ := List.eq_append_cons_of_mem hs
    have hi := idxOf_append_cons hspace rest
    simp only [hi, List.take_left, drop_append_cons] at h
    rw [if_neg (by simp)] at h
    by_cases hm : HttpRequest.methodOf m = .kInvalid
    · simp [hm] at h
    · rw [if_neg hm] at h
      by_cases hs' : 32 ∈ rest
      · obtain ⟨t, ver, rfl, ht⟩ := List.eq_append_cons_of_mem hs'
        have hi' := idxOf_append_cons ht ver
        cases hv : versionOf ver with
        | none => simp [processTarget, hi', hv] at h
        | some v =>
          obtain ⟨hne, rfl⟩ := versionOf_eq_some_iff.mp hv
          have hmethod := methodOf_ne_kInvalid_iff.mp hm
          cases v with
          | kUnknown => exact absurd rfl hne
          | kHttp10 => exact ⟨m, t, 48, by simp [versionText, ascii], hmethod, ht, .inl rfl⟩
          | kHttp11 => exact ⟨m, t, 49, by simp [versionText, ascii], hmethod, ht, .inr rfl⟩
      · have hi' : rest.idxOf 32 = rest.length := List.idxOf_of_notMem hs'
        simp [processTarget, hi'] at h
  · have hi : line.idxOf 32 = line.length := List.idxOf_of_notMem hs
    simp [hi] at h

/-- On a fresh request exactly the lines of the grammar are accepted. An accepted line sets the
method and the version it names, and its target is cut at the first question mark. -/
theorem requestLine_grammar (build : Build) (line : Bytes) :
    ∃ ok req, processRequestLine build .fresh line = .ok (ok, req) ∧
      (ok = true ↔ ∃ m t d, IsRequestLine line m t d) ∧
      ∀ m t d, IsRequestLine line m t d →
        methodText req.method = m ∧ versionText req.version = ascii "HTTP/1." ++ [d] ∧
          req.path = t.takeWhile (· ≠ 63) ∧ req.query = t.dropWhile (· ≠ 63) ∧
          req.path ++ req.query = t := by
  refine ⟨(requestLine .fresh line).1, (requestLine .fresh line).2,
    processRequestLine_eq (.inr rfl) line, ⟨isRequestLine_of_requestLine, ?_⟩, ?_⟩
  · rintro ⟨m, t, d, h⟩
    obtain ⟨v, -, hline⟩ := requestLine_of_isRequestLine .fresh h
    rw [hline]
  · intro m t d h
    obtain ⟨v, hv, hline⟩ := requestLine_of_isRequestLine .fresh h
    obtain ⟨hpath, hquery⟩ :=
      setTarget_split { HttpRequest.fresh with method := HttpRequest.methodOf m } rfl t
    rw [hline]
    refine ⟨?_, hv, hpath, hquery, ?_⟩
    · change methodText (setTarget _ t).method = m
      rw [setTarget_method]
      exact methodText_methodOf (methodOf_ne_kInvalid_iff.mpr h.method)
    · change (setTarget _ t).path ++ (setTarget _ t).query = t
      rw [hpath, hquery, List.takeWhile_append_dropWhile]

theorem requestLine_grammar_query :
    ∃ req, processRequestLine .release .fresh (ascii "GET /a?b=?c HTTP/1.0") = .ok (true, req) ∧
      req.path = ascii "/a" ∧ req.query = ascii "?b=?c" := by
  obtain ⟨ok, req, hreq, hok, hparts⟩ :=
    requestLine_grammar .release (ascii "GET /a?b=?c HTTP/1.0")
  have hline : IsRequestLine (ascii "GET /a?b=?c HTTP/1.0") (ascii "GET") (ascii "/a?b=?c") 48 :=
    ⟨by decide, .inl rfl, by decide, .inl rfl⟩
  obtain rfl := hok.mpr ⟨_, _, _, hline⟩
  obtain ⟨-, -, hpath, hquery, -⟩ := hparts _ _ _ hline
  exact ⟨req, hreq, hpath, hquery⟩

/-- An empty target is accepted, a second space or a longer version is not. -/
example : (requestLine .fresh (ascii "GET  HTTP/1.1")).1 = true ∧
    (requestLine .fresh (ascii "GET  / HTTP/1.1")).1 = false ∧
    (requestLine .fresh (ascii "GET / HTTP/1.10")).1 = false := by decide

end Lute.Http
