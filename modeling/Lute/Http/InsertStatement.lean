import Lute.Http.FormFields

/-! What reaches the database from a registration form. -/
namespace Lute.Http

open Pattern (Occurs Spells)

/-- The pattern occurs nowhere in the form and the three values are empty, or they are the
captures of the last match that the iterator visits, behind which the pattern does not occur. -/
def LastMatch (body username mail password : Bytes) : Prop :=
  ((∀ before texts rest, ¬ Occurs registerPattern body before texts rest) ∧
      username = [] ∧ mail = [] ∧ password = []) ∨
    ∃ before rest, (Pattern.findAll registerPattern body).getLast? =
        some [ascii "Username=", username, ascii "&email=", mail, ascii "&password=", password] ∧
      Occurs registerPattern body before
        [ascii "Username=", username, ascii "&email=", mail, ascii "&password=", password] rest ∧
      ∀ before' texts' rest', ¬ Occurs registerPattern rest before' texts' rest'

/-- The statements a request has passed to `conn.execute`, each as a C string. -/
def Application.statements (redis : Redis) (s : Application) (req : HttpRequest) : List Bytes :=
  let username := lastGroup registerPattern 1 req.body
  if (req.path = ascii "/register" ∧ req.method = .kPost ∧ req.body ≠ []) ∧
      s.hasHField redis username = 0 then
    [cString (Application.insertStatement username (lastGroup registerPattern 3 req.body)
      (lastGroup registerPattern 5 req.body))]
  else []

theorem lastGroup_eq (gs : Pattern.Groups UInt8) (i : Nat) (s : Bytes) :
    lastGroup gs i s = (((Pattern.findAll gs s).getLast?).map fun texts => texts.getD i []).getD
      [] := by
  unfold lastGroup
  induction Pattern.findAll gs s using List.reverseRecOn with
  | nil => rfl
  | append_singleton l texts _ => simp

theorem not_occurs_of_search {gs : Pattern.Groups UInt8} {s : Bytes}
    (h : Pattern.search gs s = none) (before : Bytes) (texts : List Bytes) (rest : Bytes) :
    ¬ Occurs gs s before texts rest := by
  intro ho
  simpa [h] using Pattern.search_complete ho

/-- The three values and the bytes they are made of. -/
theorem lastMatch_groups (body : Bytes) :
    LastMatch body (lastGroup registerPattern 1 body) (lastGroup registerPattern 3 body)
        (lastGroup registerPattern 5 body) ∧
      (∀ c ∈ lastGroup registerPattern 1 body, alnum c = true ∨ c = 95) ∧
      (∀ c ∈ lastGroup registerPattern 3 body, alnum c = true ∨ c = 37 ∨ c = 46) ∧
      ∀ c ∈ lastGroup registerPattern 5 body, alnum c = true := by
  simp only [lastGroup_eq]
  rcases Pattern.visit_last (fun _ => register_flatten_ne) (Nat.lt_succ_self body.length) with
    ⟨hnil, hnone⟩ | ⟨texts, before, rest, hlast, hocc, hnone⟩
  · have hall : Pattern.findAll registerPattern body = [] := hnil
    simp only [hall]
    exact ⟨.inl ⟨not_occurs_of_search hnone, rfl, rfl, rfl⟩, by simp, by simp, by simp⟩
  · have hall : (Pattern.findAll registerPattern body).getLast? = some texts := hlast
    obtain ⟨u, e, p, rfl, -, hu, he, hp⟩ := register_groups hocc.2
    simp only [hall]
    exact ⟨.inr ⟨before, rest, hall, hocc, not_occurs_of_search hnone⟩, hu, he, hp⟩

theorem cString_of_notMem {s : Bytes} (h : 0 ∉ s) : cString s = s := by
  refine List.takeWhile_eq_self_iff.mpr fun c hc => decide_eq_true ?_
  rintro rfl
  exact h hc

/-- A byte that ends a string literal, starts an escape or ends the statement's text. -/
def EndsLiteral (c : UInt8) : Prop := c = 39 ∨ c = 34 ∨ c = 92 ∨ c = 0

theorem not_endsLiteral {c : UInt8} (h : alnum c = true ∨ c = 95 ∨ c = 37 ∨ c = 46) :
    ¬ EndsLiteral c := by
  rintro (rfl | rfl | rfl | rfl) <;> revert h <;> decide

theorem zero_notMem_insertStatement {u m p : Bytes} (hu : 0 ∉ u) (hm : 0 ∉ m) (hp : 0 ∉ p) :
    0 ∉ Application.insertStatement u m p := by
  unfold Application.insertStatement
  simp only [List.mem_append, not_or]
  exact ⟨⟨⟨⟨⟨⟨by decide, hu⟩, by decide⟩, hm⟩, by decide⟩, hp⟩, by decide⟩

theorem cString_insertStatement (body : Bytes) :
    cString (Application.insertStatement (lastGroup registerPattern 1 body)
        (lastGroup registerPattern 3 body) (lastGroup registerPattern 5 body)) =
      Application.insertStatement (lastGroup registerPattern 1 body)
        (lastGroup registerPattern 3 body) (lastGroup registerPattern 5 body) := by
  obtain ⟨-, hu, hm, hp⟩ := lastMatch_groups body
  refine cString_of_notMem (zero_notMem_insertStatement ?_ ?_ ?_)
  · exact fun h => absurd (hu 0 h) (by decide)
  · exact fun h => absurd (hm 0 h) (by decide)
  · exact fun h => absurd (hp 0 h) (by decide)

namespace Application

variable {s : Application} {env env' : Environment} {req : HttpRequest} {resp : HttpResponse}

theorem register_statements (hr : env.redis = env'.redis)
    (h : s.hasHField env.redis (lastGroup registerPattern 1 req.body) = 0 →
    env.execute (insertStatement (lastGroup registerPattern 1 req.body)
        (lastGroup registerPattern 3 req.body) (lastGroup registerPattern 5 req.body)) =
      env'.execute (insertStatement (lastGroup registerPattern 1 req.body)
        (lastGroup registerPattern 3 req.body) (lastGroup registerPattern 5 req.body))) :
    s.register env req.body = s.register env' req.body := by
  simp only [register, ← hr]
  by_cases hhas : s.hasHField env.redis (lastGroup registerPattern 1 req.body) = 0
  · rw [h hhas]
  · rw [if_neg hhas, if_neg hhas]

/-- A request asks the database about its statements and nothing else. -/
theorem onRequest_statements (hf : env.files = env'.files) (hr : env.redis = env'.redis)
    (he : ∀ stmt ∈ s.statements env.redis req, env.execute stmt = env'.execute stmt) :
    s.onRequest env req resp = s.onRequest env' req resp := by
  have hpage : ∀ t : Application, t.getHtml env = t.getHtml env' := by
    intro t
    simp [getHtml, hf]
  have hreg : req.path = ascii "/register" → req.method = .kPost ∧ req.body ≠ [] →
      s.register env req.body = s.register env' req.body := by
    intro hpath hpost
    refine register_statements hr fun hhas => ?_
    rw [← cString_insertStatement]
    exact he _ (by simp [statements, hpath, hpost, hhas])
  simp only [onRequest, hpage, hf, hr]
  split_ifs with hindex hregister hpost
  all_goals try rfl
  rw [hreg hregister hpost]

/-- Whatever the body, what `conn.execute` is given is the one statement with the last match's
three values between the quotes, and these hold no byte that could end a literal. -/
theorem register_statement_safe (s : Application) (req : HttpRequest) :
    (∀ env env' resp, env.files = env'.files → env.redis = env'.redis →
      (∀ stmt ∈ s.statements env.redis req, env.execute stmt = env'.execute stmt) →
      s.onRequest env req resp = s.onRequest env' req resp) ∧
    ∀ redis, ∀ stmt ∈ s.statements redis req, ∃ u m p,
      stmt = ascii "INSERT INTO user(username, mail, passwd) VALUES('" ++ u ++ ascii "', '" ++ m ++
        ascii "', '" ++ p ++ ascii "')" ∧
      LastMatch req.body u m p ∧
      (∀ c ∈ u, alnum c = true ∨ c = 95) ∧ (∀ c ∈ p, alnum c = true) ∧
      (∀ c ∈ m, alnum c = true ∨ c = 37 ∨ c = 46) ∧
      ∀ c ∈ u ++ m ++ p, ¬ EndsLiteral c := by
  refine ⟨fun env env' resp hf hr he => onRequest_statements hf hr he, fun redis stmt hstmt => ?_⟩
  obtain ⟨hlast, hu, hm, hp⟩ := lastMatch_groups req.body
  have heq : stmt = insertStatement (lastGroup registerPattern 1 req.body)
      (lastGroup registerPattern 3 req.body) (lastGroup registerPattern 5 req.body) := by
    rw [← cString_insertStatement]
    unfold statements at hstmt
    dsimp only at hstmt
    split_ifs at hstmt
    · exact List.mem_singleton.mp hstmt
    · cases hstmt
  refine ⟨_, _, _, heq, hlast, hu, hp, hm, fun c hc => not_endsLiteral ?_⟩
  rcases List.mem_append.mp hc with hc | hc
  · rcases List.mem_append.mp hc with hc | hc
    · exact (hu c hc).imp_right .inl
    · exact (hm c hc).imp_right .inr
  · exact .inl (hp c hc)

end Application

/-- Of two matches the second counts, up to the first byte its last group does not take. -/
example : (Application.new .hashMap (ascii "/srv") []).statements .hashMap
    ⟨.kPost, .kHttp11, ascii "/register", [], 0, [],
      ascii "Username=a&email=b%40c.com&password=d&Username=e&email=f%40g.com&password=h'"⟩ =
    [ascii "INSERT INTO user(username, mail, passwd) VALUES('e', 'f%40g.com', 'h')"] := by
  decide

end Lute.Http
