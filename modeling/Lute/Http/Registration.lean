import Lute.Http.Login
import Lute.Http.Rendering

/-! Registered users logging in again. -/
namespace Lute.Http

open Pattern (Occurs Spells)

structure IsRegisterOf (username mail password : Bytes) (req : HttpRequest) : Prop where
  method : req.method = .kPost
  path : req.path = ascii "/register"
  body : req.body = registerBody username mail password

structure IsLoginOf (username password : Bytes) (req : HttpRequest) : Prop where
  method : req.method = .kGet
  path : req.path = ascii "/login"
  query : req.query = loginQuery username password

/-- Every command to Redis and every statement given to the database succeeds. -/
def Healthy (env : Environment) : Prop := Cached env ∧ ∀ stmt, env.execute stmt = 0

def healthy (serverPath : Bytes) (rows : List UserRow) : Trace.LTS Application Exchange :=
  application Healthy serverPath rows

variable {u m p : Bytes}

section Groups

variable {before rest : Bytes} {texts : List Bytes}

/-- A greedy last group followed by no symbol of its class is the whole tail. -/
theorem rest_eq_nil {p' : Bytes} (hp : ∀ c ∈ p, alnum c = true) (he : p = p' ++ rest)
    (hg : ∀ c ∈ rest.head?, alnum c = false) : rest = [] := by
  cases rest with
  | nil => rfl
  | cons d rest =>
    have hd := hp d (by simp [he])
    simp [hg d rfl] at hd

theorem lastGroup_register (hr : Registrable u m p) :
    lastGroup registerPattern 1 (registerBody u m p) = u ∧
      lastGroup registerPattern 5 (registerBody u m p) = p := by
  rcases Pattern.findAll_of_start (fun _ => register_flatten_ne)
    fun b ts r ho => (register_occurs hr ho).1 with ⟨-, hnone⟩ | ⟨texts, rest, hall, hm⟩
  · simpa [hnone] using Pattern.search_complete (registerBody_occurs hr)
  · obtain ⟨-, p', he, rfl⟩ := register_occurs hr (Pattern.matchGroups_sound hm)
    have hrest := rest_eq_nil (Pattern.spells_plus hr.password).2 he
      (Pattern.matchGroups_plus (registerPattern.take 5) hm)
    obtain rfl : p = p' := by simpa [hrest] using he
    simp [lastGroup, hall]

/-- The login of a user without underscore names that user. -/
theorem lastGroup_login (hu : Spells [.plus alnum] u) (hp : Spells [.plus alnum] p) :
    lastGroup loginPattern 1 (loginQuery u p) = u ∧
      lastGroup loginPattern 3 (loginQuery u p) = p := by
  have hword : ∀ c ∈ u, (alnum c || c = 95) = true := fun c hc => by
    simp [(Pattern.spells_plus hu).2 c hc]
  have hpass := (Pattern.spells_plus hp).2
  have hocc : Occurs loginPattern (loginQuery u p) []
      [ascii "?Username=", u, ascii "&password=", p] [] :=
    ⟨by simp [loginQuery], .cons (Pattern.literal_spells _) (.cons hu
      (.cons (Pattern.literal_spells _) (.cons hp .nil)))⟩
  rcases Pattern.findAll_of_start (fun _ => login_flatten_ne)
    fun b ts r ho => (login_occurs hword hpass ho).1 with ⟨-, hnone⟩ | ⟨texts, rest, hall, hm⟩
  · simpa [hnone] using Pattern.search_complete hocc
  · obtain ⟨-, -, p', rfl, he⟩ := login_occurs hword hpass (Pattern.matchGroups_sound hm)
    have hrest := rest_eq_nil hpass he (Pattern.matchGroups_plus (loginPattern.take 3) hm)
    obtain rfl : p = p' := by simpa [hrest] using he
    simp [lastGroup, hall]

/-- With an underscore it names nobody. -/
theorem lastGroup_login_underscore (hu : ∀ c ∈ u, (alnum c || c = 95) = true)
    (hp : ∀ c ∈ p, alnum c = true) (h95 : 95 ∈ u) :
    lastGroup loginPattern 1 (loginQuery u p) = [] ∧
      lastGroup loginPattern 3 (loginQuery u p) = [] := by
  have hnone : Pattern.search loginPattern (loginQuery u p) = none := by
    refine Pattern.search_eq_none fun before texts rest ho => ?_
    obtain ⟨-, hal, -⟩ := login_occurs hu hp ho
    exact notMem_alnum (by decide) hal h95
  simp [lastGroup, Pattern.findAll_of_search_none hnone]

end Groups

namespace Application

variable {s t : Application} {env : Environment} {req : HttpRequest} {resp resp' : HttpResponse}

theorem setRealFile_bound {index : Bytes} (h : s.setRealFile index = .ok t) :
    (cString s.serverPath ++ cString index).length < FILENAME_LEN := by
  simp only [setRealFile] at h
  split_ifs at h with hlen
  exact hlen

/-- No request changes the password of a user. -/
theorem onRequest_keeps (hr : env.redis.IsHashMap) (h : s.onRequest env req resp = .ok (t, resp'))
    (hu : s.users u = some p) : t.users u = some p := by
  rcases (onRequest_users h).2 with he | ⟨-, -, -, hhas, he⟩
  · rw [he, hu]
  · have hne : u ≠ lastGroup registerPattern 1 req.body := by
      rintro rfl
      simp [(hr.has _ _).mp hhas] at hu
    rw [he, hr.set, Function.update_of_ne hne, hu]

/-- A registration that the database takes and that is welcomed has stored the user. -/
theorem onRequest_register (hr : Registrable u m p) (hb : IsRegisterOf u m p req)
    (hdb : Healthy env) (h : s.onRequest env req resp = .ok (t, resp'))
    (hw : t.realFile = welcome s.serverPath) :
    t.users u = some p ∧ (welcome s.serverPath).length < FILENAME_LEN := by
  have hindex : ¬ (req.path = ascii "/" ∨ req.path = ascii "/index.html") := by
    rw [hb.path]
    decide
  have hbody : req.body ≠ [] := by simp [hb.body, registerBody, ascii]
  obtain ⟨hname, hpass⟩ := lastGroup_register hr
  have hreg : s.register env req.body = .ok t := by
    simp only [onRequest, if_neg hindex, if_pos hb.path, if_pos (And.intro hb.method hbody)] at h
    exact ok_of_bind fst_of_return h
  simp only [register, hb.body, hname, hpass, hdb.2, if_true] at hreg
  split_ifs at hreg with hhas
  · obtain rfl := setRealFile_ok hreg
    exact ⟨by simp [setHField, hdb.1.set], setRealFile_bound hreg⟩
  · obtain rfl := setRealFile_ok hreg
    exact absurd (List.append_cancel_left hw) (by decide)

/-- A login answers with what `login` leaves. -/
theorem onRequest_eq_login (hl : IsLogin req) :
    s.onRequest env req resp = (s.login env.redis req.query).map fun t =>
      (t, { resp.ok (ascii "text/html") with body := t.getHtml env }) := by
  simp only [onRequest, hl.index, hl.register, hl.welcome, hl.jpg, hl.method, hl.path, if_false,
    Bool.false_eq_true, and_self, if_true]
  cases s.login env.redis req.query <;> rfl

/-- Who is welcomed by a login. -/
theorem login_welcomed_iff {redis : Redis} (hr : redis.IsHashMap) {query : Bytes}
    (hlen : (welcome s.serverPath).length < FILENAME_LEN) :
    (∃ t, s.login redis query = .ok t ∧ t.realFile = welcome s.serverPath) ↔
      s.users (lastGroup loginPattern 1 query) = some (lastGroup loginPattern 3 query) := by
  constructor
  · rintro ⟨t, ht, hw⟩
    obtain ⟨hhas, hget⟩ := (login_cases ht).2.2 hw
    exact hr.eq_some hhas hget
  · intro hu
    have hhas : redis.hasHField s.users (lastGroup loginPattern 1 query) ≠ 0 := by
      simp [hr.has, hu]
    refine ⟨{ s with realFile := welcome s.serverPath }, ?_, rfl⟩
    have hset : s.setRealFile (ascii "/welcome.html") =
        .ok { s with realFile := welcome s.serverPath } := if_pos hlen
    simp [login, hasHField, getHField, hhas, hr.get _ _ _ hu, hset]

end Application

variable {serverPath : Bytes} {rows : List UserRow} {h h' : List Exchange} {a : Exchange}
  {s s₁ s₂ : Application} {req : HttpRequest}

theorem healthy_keeps (he : ((healthy serverPath rows).resume s₁).Exec h s)
    (hu : s₁.users u = some p) : s.users u = some p ∧ s.serverPath = s₁.serverPath := by
  induction he with
  | start hi =>
    obtain rfl := hi
    exact ⟨hu, rfl⟩
  | snoc _ hs ih =>
    obtain ⟨env, resp, resp', hdb, hreq, -⟩ := hs
    exact ⟨Application.onRequest_keeps hdb.1 hreq ih.1,
      (Application.onRequest_users hreq).1.trans ih.2⟩

theorem IsLoginOf.isLogin (hl : IsLoginOf u p req) : IsLogin req := by
  constructor <;> simp only [hl.method, hl.path] <;> decide

theorem Registrable.query_ok (hr : Registrable u m p) : ∃ q, loginQuery u p = 63 :: q ∧ 32 ∉ q := by
  have hu : (32 : UInt8) ∉ u := notMem_word (by decide) (Pattern.spells_plus hr.username).2
  have hp : (32 : UInt8) ∉ p := notMem_alnum (by decide) (Pattern.spells_plus hr.password).2
  exact ⟨ascii "Username=" ++ u ++ ascii "&password=" ++ p, rfl, by simp [ascii, hu, hp]⟩

theorem Registrable.line_ok (hr : Registrable u m p) :
    findCRLF (requestLineText .kGet (ascii "/login") (loginQuery u p) .kHttp11) = none := by
  have hu : (13 : UInt8) ∉ u := notMem_word (by decide) (Pattern.spells_plus hr.username).2
  have hp : (13 : UInt8) ∉ p := notMem_alnum (by decide) (Pattern.spells_plus hr.password).2
  apply findCRLF_of_notMem
  simp [requestLineText, methodText, versionText, loginQuery, ascii, hu, hp]

theorem kGet_ne_kInvalid : Method.kGet ≠ .kInvalid := by
  decide

theorem kHttp11_ne_kUnknown : Version.kHttp11 ≠ .kUnknown := by
  decide

theorem bodyLength_nil : BodyLength [] 0 := rfl

/-- The login as it is written on the wire. -/
def loginWire (hr : Registrable u m p) : WireRequest where
  method := .kGet
  path := ascii "/login"
  query := loginQuery u p
  version := .kHttp11
  headers := []
  body := []
  method_ne := kGet_ne_kInvalid
  version_ne := kHttp11_ne_kUnknown
  path_ok := by decide
  query_ok := .inr hr.query_ok
  line_ok := hr.line_ok
  headers_ok := List.forall_mem_nil _
  body_ok := bodyLength_nil

theorem isLoginOf_loginWire (hr : Registrable u m p) :
    IsLoginOf u p (requestLine .fresh (loginWire hr).line).2 := by
  rw [requestLine_text]
  exact ⟨rfl, rfl, rfl⟩

/-- The user registered and welcomed before, whatever came between, is welcomed again exactly if
the name has no underscore, or an empty name is stored with an empty password. -/
theorem registered_login_iff (hr : Registrable u m p) (he : (healthy serverPath rows).Exec h s)
    (hb : IsRegisterOf u m p a.req) (hw : a.page = welcome serverPath)
    (hs : (healthy serverPath rows).step s a s₁)
    (hmore : ((healthy serverPath rows).resume s₁).Exec h' s₂) :
    IsLoginOf u p (requestLine .fresh (loginWire hr).line).2 ∧
    ∀ req env resp, Cached env → IsLoginOf u p req →
      ((∃ t resp', s₂.onRequest env req resp = .ok (t, resp') ∧
        t.realFile = welcome serverPath) ↔ 95 ∉ u ∨ s₂.users [] = some []) := by
  refine ⟨isLoginOf_loginWire hr, fun req env resp hr₂ hl => ?_⟩
  obtain ⟨env₁, resp₁, resp₁', hdb, hreq, hpage⟩ := hs
  have hpath := application_serverPath he
  obtain ⟨hstored, hlen⟩ := Application.onRequest_register hr hb hdb hreq (by
    rw [← hpage, hw, hpath])
  obtain ⟨hkept, hpath₂⟩ := healthy_keeps hmore hstored
  rw [(Application.onRequest_users hreq).1, hpath] at hpath₂
  have hiff := @Application.login_welcomed_iff s₂ env.redis hr₂ req.query
    (by rw [hpath₂, ← hpath]; exact hlen)
  rw [hpath₂] at hiff
  have hcall : (∃ t resp', s₂.onRequest env req resp = .ok (t, resp') ∧
      t.realFile = welcome serverPath) ↔
      ∃ t, s₂.login env.redis req.query = .ok t ∧ t.realFile = welcome serverPath := by
    rw [Application.onRequest_eq_login hl.isLogin]
    cases s₂.login env.redis req.query <;> simp [Except.map]
  rw [hcall, hiff, hl.query]
  obtain ⟨hne, hword⟩ := Pattern.spells_plus hr.username
  by_cases h95 : 95 ∈ u
  · obtain ⟨h1, h3⟩ := lastGroup_login_underscore hword (Pattern.spells_plus hr.password).2 h95
    simp [h1, h3, h95]
  · have halnum : ∀ c ∈ u, alnum c = true := by
      intro c hc
      have h' := hword c hc
      have hne95 : c ≠ 95 := fun h => h95 (h ▸ hc)
      simpa [hne95] using h'
    have hu : Spells [.plus alnum] u := by
      simpa using Spells.plus hne halnum .nil
    obtain ⟨h1, h3⟩ := lastGroup_login hu hr.password
    simp [h1, h3, h95, hkept]

theorem healthy_emptyServer : Healthy emptyServer :=
  ⟨Redis.hashMap_isHashMap, fun _ => rfl⟩

/-- A registration from an empty table that is welcomed, and what the login after it gets. -/
theorem exists_register_login {page : Bytes}
    (h : ((Application.new .hashMap (ascii "/srv") []).onRequest emptyServer (postRegister u m p)
      (.new false)).toOption.bind (fun r => (r.1.onRequest emptyServer
        (getLogin (loginQuery u p)) (.new false)).toOption.map fun q =>
          (r.1.realFile, q.1.realFile)) = some (welcome (ascii "/srv"), page)) :
    ∃ s₁, (healthy (ascii "/srv") []).step (.new .hashMap (ascii "/srv") [])
        ⟨postRegister u m p, welcome (ascii "/srv")⟩ s₁ ∧
      ∃ t resp', s₁.onRequest emptyServer (getLogin (loginQuery u p)) (.new false) =
        .ok (t, resp') ∧ t.realFile = page := by
  obtain ⟨⟨s₁, resp₁⟩, hr, hq⟩ := Option.bind_eq_some_iff.mp h
  obtain ⟨⟨t, resp'⟩, ht, hp⟩ := Option.map_eq_some_iff.mp hq
  obtain ⟨hw, rfl⟩ := Prod.mk.inj hp
  exact ⟨s₁, ⟨emptyServer, .new false, resp₁, healthy_emptyServer, ok_of_toOption hr, hw.symm⟩, t,
    resp', ok_of_toOption ht, rfl⟩

theorem registered_login_bob :
    ∃ s₁, (healthy (ascii "/srv") []).step (.new .hashMap (ascii "/srv") [])
        ⟨postRegister (ascii "bob") (ascii "b%40c.com") (ascii "pw"), welcome (ascii "/srv")⟩ s₁ ∧
      ∃ t resp', s₁.onRequest emptyServer (getLogin (loginQuery (ascii "bob") (ascii "pw")))
        (.new false) = .ok (t, resp') ∧ t.realFile = welcome (ascii "/srv") := by
  have hr : Registrable (ascii "bob") (ascii "b%40c.com") (ascii "pw") :=
    registrable_of (a := ascii "b") (b := ascii "c") (by decide) (by decide) (by decide) (by decide)
  obtain ⟨s₁, hs, -⟩ := @exists_register_login (ascii "bob") (ascii "b%40c.com") (ascii "pw")
    (welcome (ascii "/srv")) (by decide)
  obtain ⟨-, hlogin⟩ := registered_login_iff hr (.start ⟨emptyServer, healthy_emptyServer, rfl⟩)
    ⟨rfl, rfl, rfl⟩ rfl hs (.start rfl)
  exact ⟨s₁, hs, (hlogin _ emptyServer _ healthy_emptyServer.1 ⟨rfl, rfl, rfl⟩).mpr
    (.inl (by decide))⟩

/-- With an underscore in the name the user is registered and welcomed, and cannot log in. -/
theorem underscore_login_fails :
    Registrable (ascii "a_b") (ascii "b%40c.com") (ascii "pw") ∧
    ∃ s₁, (healthy (ascii "/srv") []).step (.new .hashMap (ascii "/srv") [])
        ⟨postRegister (ascii "a_b") (ascii "b%40c.com") (ascii "pw"), welcome (ascii "/srv")⟩ s₁ ∧
      ∃ t resp', s₁.onRequest emptyServer (getLogin (loginQuery (ascii "a_b") (ascii "pw")))
        (.new false) = .ok (t, resp') ∧ t.realFile = ascii "/srv/loginFailed.html" := by
  refine ⟨registrable_of (a := ascii "b") (b := ascii "c") (by decide) (by decide) (by decide)
    (by decide), exists_register_login (by decide)⟩

end Lute.Http
