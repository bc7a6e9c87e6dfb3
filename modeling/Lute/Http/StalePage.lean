import Lute.Http.Login

/-! What a response may depend on: two runs that leave the same users. -/
namespace Lute.Http

/-- A registration under a name that Redis answers not to have, refused by the database. -/
structure FailsToInsert (env : Environment) (s : Application) (req : HttpRequest) : Prop where
  register : IsRegister req
  body : req.body ≠ []
  free : s.hasHField env.redis (lastGroup registerPattern 1 req.body) = 0
  refused : env.execute (Application.insertStatement (lastGroup registerPattern 1 req.body)
    (lastGroup registerPattern 3 req.body) (lastGroup registerPattern 5 req.body)) ≠ 0

namespace Application

variable {s t : Application} {env : Environment} {req : HttpRequest} {resp : HttpResponse}

/-- The two states differ in the file name left by the last request at most. -/
def SameStore (s t : Application) : Prop := s.serverPath = t.serverPath ∧ s.users = t.users

theorem setRealFile_congr (h : SameStore s t) (index : Bytes) :
    s.setRealFile index = t.setRealFile index := by
  obtain ⟨path, file, users⟩ := s
  obtain ⟨path', file', users'⟩ := t
  obtain ⟨rfl, rfl⟩ := h
  rfl

theorem hasHField_congr (h : SameStore s t) (redis : Redis) (field : Bytes) :
    s.hasHField redis field = t.hasHField redis field := by
  simp only [hasHField, h.2]

theorem login_congr (h : SameStore s t) (redis : Redis) (query : Bytes) :
    s.login redis query = t.login redis query := by
  obtain ⟨path, file, users⟩ := s
  obtain ⟨path', file', users'⟩ := t
  obtain ⟨rfl, rfl⟩ := h
  rfl

theorem register_congr {body : Bytes} (h : SameStore s t)
    (hf : s.hasHField env.redis (lastGroup registerPattern 1 body) = 0 →
      env.execute (insertStatement (lastGroup registerPattern 1 body)
        (lastGroup registerPattern 3 body) (lastGroup registerPattern 5 body)) = 0) :
    s.register env body = t.register env body := by
  have hset : SameStore (s.setHField env.redis (lastGroup registerPattern 1 body)
      (lastGroup registerPattern 5 body)) (t.setHField env.redis
      (lastGroup registerPattern 1 body) (lastGroup registerPattern 5 body)) :=
    ⟨h.1, by simp [setHField, h.2]⟩
  have hsame := hasHField_congr h env.redis (lastGroup registerPattern 1 body)
  by_cases hhas : s.hasHField env.redis (lastGroup registerPattern 1 body) = 0
  · simp [register, ← hsame, hhas, hf hhas, setRealFile_congr hset]
  · simp [register, ← hsame, hhas, setRealFile_congr h]

/-- Every request but a refused registration names its file anew. -/
theorem onRequest_congr (h : SameStore s t) (hf : ¬ FailsToInsert env s req) :
    s.onRequest env req resp = t.onRequest env req resp := by
  simp only [onRequest, setRealFile_congr h, login_congr h]
  by_cases hp : req.path = ascii "/register"
  · by_cases hpost : req.method = .kPost ∧ req.body ≠ []
    · have hreg : s.register env req.body = t.register env req.body := by
        refine register_congr h fun hfree => Classical.byContradiction fun hexec => hf ?_
        exact ⟨⟨hpost.1, hp⟩, hpost.2, hfree, hexec⟩
      simp only [hreg]
    · simp only [if_neg hpost]
  · simp only [if_neg hp]

/-- A refused registration is answered with the file named by the last request. -/
theorem onRequest_fails (hf : FailsToInsert env s req) :
    s.onRequest env req resp =
      .ok (s, { resp.ok (ascii "text/html") with body := s.getHtml env }) := by
  obtain ⟨⟨hpost, hpath⟩, hbody, hfree, hexec⟩ := hf
  have hindex : ¬ (req.path = ascii "/" ∨ req.path = ascii "/index.html") := by
    rw [hpath]
    decide
  have hreg : s.register env req.body = .ok s := by
    simp [register, hfree, hexec]
  simp only [onRequest, if_neg hindex, if_pos hpath, if_pos (And.intro hpost hbody), hreg]
  rfl

end Application

variable {serverPath : Bytes} {rows : List UserRow} {h h' : List Exchange} {s s' : Application}

/-- After two histories that leave the same users, whatever Redis and the database answered and will
answer, the next request gets the same response exactly if it is no refused registration, or the
two files named last read the same. -/
theorem responses_agree_iff (he : (application (fun _ => True) serverPath rows).Exec h s)
    (he' : (application (fun _ => True) serverPath rows).Exec h' s') (hu : s.users = s'.users)
    (env : Environment) (req : HttpRequest) (resp : HttpResponse) :
    (s.onRequest env req resp).map Prod.snd = (s'.onRequest env req resp).map Prod.snd ↔
      ¬ FailsToInsert env s req ∨ s.getHtml env = s'.getHtml env := by
  have hsame : Application.SameStore s s' :=
    ⟨(application_serverPath he).trans (application_serverPath he').symm, hu⟩
  by_cases hf : FailsToInsert env s req
  · have hf' : FailsToInsert env s' req :=
      ⟨hf.register, hf.body, (Application.hasHField_congr hsame _ _) ▸ hf.free, hf.refused⟩
    rw [Application.onRequest_fails hf, Application.onRequest_fails hf']
    simp [hf, Except.map]
  · rw [Application.onRequest_congr hsame hf]
    simp [hf]

def getPage (path : Bytes) : HttpRequest := ⟨.kGet, .kHttp11, path, [], 0, [], []⟩

def postForm (body : Bytes) : HttpRequest :=
  ⟨.kPost, .kHttp11, ascii "/register", [], 0, [], body⟩

/-- A database that refuses every statement, and one page. -/
def refusing : Environment where
  files name := if name = ascii "/srv/welcome.html" then .readable (ascii "hello") else .missing
  execute _ := 1
  redis := .hashMap

/-- The application after nothing but a page was asked for. -/
def afterPage (page : Bytes) : Application := ⟨ascii "/srv", ascii "/srv" ++ page, fun _ => none⟩

theorem exec_page {env : Environment} {s : Application} {req : HttpRequest} {resp' : HttpResponse}
    (h : (Application.new env.redis (ascii "/srv") []).onRequest env req (.new false) =
      .ok (s, resp')) : (application (fun _ => True) (ascii "/srv") []).Exec
        [⟨req, s.realFile⟩] s :=
  .snoc (h := []) (.start ⟨env, trivial, rfl⟩) ⟨env, .new false, resp', trivial, h, rfl⟩

/-- A Redis that is down: the registration is welcomed all the same, and nothing is stored. -/
def down : Environment where
  files _ := .missing
  execute _ := 0
  redis := ⟨fun _ _ => 0, fun _ _ => [], fun users _ _ => users⟩

theorem responses_agree_sample :
    ((afterPage (ascii "/welcome.html")).onRequest down (postForm (ascii "Username=a"))
      (.new false)).map Prod.snd =
    ((afterPage (ascii "/index.html")).onRequest down (postForm (ascii "Username=a"))
      (.new false)).map Prod.snd := by
  have hpost : (Application.new down.redis (ascii "/srv") []).onRequest down
      (postForm (ascii "Username=a&email=b%40c.com&password=d")) (.new false) =
        .ok (afterPage (ascii "/welcome.html"), _) := rfl
  have hindex : (Application.new down.redis (ascii "/srv") []).onRequest down
      (getPage (ascii "/")) (.new false) = .ok (afterPage (ascii "/index.html"), _) := rfl
  refine (responses_agree_iff (exec_page hpost) (exec_page hindex) rfl down _ _).mpr
    (.inl fun hf => ?_)
  exact hf.refused rfl

/-- A refused registration after a visit to one page or to another. -/
theorem refused_registration_shows_last_page :
    ∃ s s', (application (fun _ => True) (ascii "/srv") []).Exec
        [⟨getPage (ascii "/welcome"), ascii "/srv/welcome.html"⟩] s ∧
      (application (fun _ => True) (ascii "/srv") []).Exec
        [⟨getPage (ascii "/"), ascii "/srv/index.html"⟩] s' ∧ s.users = s'.users ∧
      (s.onRequest refusing (postForm (ascii "Username=a&email=b%40c.com&password=d"))
        (.new false)).map Prod.snd ≠
      (s'.onRequest refusing (postForm (ascii "Username=a&email=b%40c.com&password=d"))
        (.new false)).map Prod.snd := by
  have hwelcome : (Application.new refusing.redis (ascii "/srv") []).onRequest refusing
      (getPage (ascii "/welcome")) (.new false) = .ok (afterPage (ascii "/welcome.html"), _) := rfl
  have hindex : (Application.new refusing.redis (ascii "/srv") []).onRequest refusing
      (getPage (ascii "/")) (.new false) = .ok (afterPage (ascii "/index.html"), _) := rfl
  refine ⟨_, _, exec_page hwelcome, exec_page hindex, rfl, fun he => ?_⟩
  have hbody := congrArg (fun r => r.toOption.map HttpResponse.body) he
  exact absurd hbody (by decide)

end Lute.Http
