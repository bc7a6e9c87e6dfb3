import Lute.Polaris.BufferSafety
import Lute.Http.FormFields

/-! Who may log in, over every sequence of requests. -/
namespace Lute.Http

open Pattern (Occurs)

/-- A request, and the file it was answered with. -/
structure Exchange where
  req : HttpRequest
  page : Bytes
  deriving DecidableEq, Repr

/-- The application after the rows of the user table have been loaded, one request at a time,
among environments that meet `P`. -/
def application (P : Environment → Prop) (serverPath : Bytes) (rows : List UserRow) :
    Trace.LTS Application Exchange where
  init s := ∃ env, P env ∧ s = .new env.redis serverPath rows
  step s a t := ∃ env resp resp', P env ∧ s.onRequest env a.req resp = .ok (t, resp') ∧
    a.page = t.realFile

/-- No command to Redis fails. -/
def Cached (env : Environment) : Prop := env.redis.IsHashMap

def welcome (serverPath : Bytes) : Bytes := cString serverPath ++ ascii "/welcome.html"

/-- A GET on a login path that no earlier branch of `onRequest` takes. -/
structure IsLogin (req : HttpRequest) : Prop where
  method : req.method = .kGet
  path : contains (ascii "/login") req.path = true
  index : ¬(req.path = ascii "/" ∨ req.path = ascii "/index.html")
  register : req.path ≠ ascii "/register"
  welcome : req.path ≠ ascii "/welcome"
  jpg : contains (ascii ".jpg") req.path = false

def IsRegister (req : HttpRequest) : Prop := req.method = .kPost ∧ req.path = ascii "/register"

/-- The user is a row of the initial table or was registered. -/
def Known (serverPath : Bytes) (rows : List UserRow) (h : List Exchange)
    (username password : Bytes) : Prop :=
  (∃ row ∈ rows, row.username = username ∧ row.passwd = password) ∨
    ∃ a ∈ h, IsRegister a.req ∧ a.page = welcome serverPath ∧ Carries a.req.body username password

def LoginSound (serverPath : Bytes) (rows : List UserRow) : List Exchange → Prop :=
  Trace.Always fun h a => IsLogin a.req → a.page = welcome serverPath →
    ∃ username password, Carries (a.req.query.drop 1) username password ∧
      Known serverPath rows h username password

/-- No request has a field that a pattern takes only in part, and every registration has its. -/
structure Orderly (req : HttpRequest) : Prop where
  login : IsLogin req → Whole loginPattern req.query
  register : IsRegister req → req.body ≠ [] → Whole registerPattern req.body ∧
    ∃ before texts rest, Occurs registerPattern req.body before texts rest

namespace Application

variable {s t : Application} {env : Environment} {redis : Redis} {req : HttpRequest}
  {resp resp' : HttpResponse} {index body query username password : Bytes}

theorem setRealFile_ok (h : s.setRealFile index = .ok t) :
    t = { s with realFile := cString s.serverPath ++ cString index } := by
  simp only [setRealFile] at h
  split_ifs at h
  exact (Except.ok.inj h).symm

/-- A registration stores a user that Redis does not have, who is then welcomed, or changes no
user. -/
theorem register_cases (h : s.register env body = .ok t) : t.serverPath = s.serverPath ∧
    (t.users = s.users ∨ t.realFile = welcome s.serverPath ∧
      s.hasHField env.redis (lastGroup registerPattern 1 body) = 0 ∧
      t.users = env.redis.setHField s.users (lastGroup registerPattern 1 body)
        (lastGroup registerPattern 5 body)) := by
  simp only [register] at h
  split_ifs at h with hhas
  · obtain rfl := setRealFile_ok h
    exact ⟨rfl, .inr ⟨rfl, hhas, rfl⟩⟩
  · obtain rfl := Except.ok.inj h
    exact ⟨rfl, .inl rfl⟩
  · obtain rfl := setRealFile_ok h
    exact ⟨rfl, .inl rfl⟩

/-- A login changes no user, and welcomes one whose password is right. -/
theorem login_cases (h : s.login redis query = .ok t) :
    t.serverPath = s.serverPath ∧ t.users = s.users ∧ (t.realFile = welcome s.serverPath →
      s.hasHField redis (lastGroup loginPattern 1 query) ≠ 0 ∧
      s.getHField redis (lastGroup loginPattern 1 query) = lastGroup loginPattern 3 query) := by
  have hfailed : s.setRealFile (ascii "/loginFailed.html") = .ok t →
      t.serverPath = s.serverPath ∧ t.users = s.users ∧ t.realFile ≠ welcome s.serverPath := by
    intro h
    obtain rfl := setRealFile_ok h
    refine ⟨rfl, rfl, fun he => ?_⟩
    exact absurd (List.append_cancel_left he) (by decide)
  simp only [login] at h
  split_ifs at h with hhas hget
  · obtain rfl := setRealFile_ok h
    exact ⟨rfl, rfl, fun _ => ⟨hhas, hget⟩⟩
  · obtain ⟨hp, hu, hne⟩ := hfailed h
    exact ⟨hp, hu, fun he => absurd he hne⟩
  · obtain ⟨hp, hu, hne⟩ := hfailed h
    exact ⟨hp, hu, fun he => absurd he hne⟩

/-- The state is settled before the response. -/
theorem ok_of_bind {x : Result Application} {f : Application → Result (Application × HttpResponse)}
    (hf : ∀ u p, f u = .ok p → p.1 = u) (h : (x >>= f) = .ok (t, resp')) : x = .ok t := by
  cases x with
  | error e => cases h
  | ok u => exact congrArg Except.ok (hf u (t, resp') h).symm

theorem fst_of_return {f : Application → HttpResponse} (u : Application)
    (p : Application × HttpResponse)
    (h : (do return (u, f u) : Result (Application × HttpResponse)) = .ok p) : p.1 = u :=
  congrArg Prod.fst (Except.ok.inj h).symm

/-- What a request may do to the users. -/
theorem onRequest_users (h : s.onRequest env req resp = .ok (t, resp')) :
    t.serverPath = s.serverPath ∧ (t.users = s.users ∨
      IsRegister req ∧ req.body ≠ [] ∧ t.realFile = welcome s.serverPath ∧
        s.hasHField env.redis (lastGroup registerPattern 1 req.body) = 0 ∧
        t.users = env.redis.setHField s.users (lastGroup registerPattern 1 req.body)
          (lastGroup registerPattern 5 req.body)) := by
  have hset : ∀ index, s.setRealFile index = .ok t →
      t.serverPath = s.serverPath ∧ t.users = s.users := by
    intro index h
    obtain rfl := setRealFile_ok h
    exact ⟨rfl, rfl⟩
  simp only [onRequest] at h
  split_ifs at h with hindex hregister hpost hwelcome hjpg hlogin
  · exact (hset _ (ok_of_bind fst_of_return h)).imp_right .inl
  · obtain ⟨hp, hu | ⟨hr, hu⟩⟩ := register_cases (ok_of_bind fst_of_return h)
    · exact ⟨hp, .inl hu⟩
    · exact ⟨hp, .inr ⟨⟨hpost.1, hregister⟩, hpost.2, hr, hu⟩⟩
  · exact (hset _ (ok_of_bind fst_of_return h)).imp_right .inl
  · exact (hset _ (ok_of_bind fst_of_return h)).imp_right .inl
  · refine (hset _ (ok_of_bind (fun u p hu => ?_) h)).imp_right .inl
    split at hu <;> exact congrArg Prod.fst (Except.ok.inj hu).symm
  · obtain ⟨hp, hu, -⟩ := login_cases (ok_of_bind fst_of_return h)
    exact ⟨hp, .inl hu⟩
  · exact (hset _ (ok_of_bind fst_of_return h)).imp_right .inl

theorem onRequest_login (hl : IsLogin req) (h : s.onRequest env req resp = .ok (t, resp')) :
    s.login env.redis req.query = .ok t := by
  simp only [onRequest, hl.index, hl.register, hl.welcome, hl.jpg, hl.method, hl.path, if_false,
    Bool.false_eq_true, and_self, if_true] at h
  exact ok_of_bind fst_of_return h

theorem foldl_serverPath (redis : Redis) (rows : List UserRow) (s : Application) : (rows.foldl
    (fun s row => s.setHField redis row.username row.passwd) s).serverPath = s.serverPath := by
  induction rows generalizing s with
  | nil => rfl
  | cons row rows ih => exact ih _

theorem users_foldl {rows : List UserRow} (hr : redis.IsHashMap) (h : (rows.foldl
    (fun s row => s.setHField redis row.username row.passwd) s).users username = some password) :
    s.users username = some password ∨
      ∃ row ∈ rows, row.username = username ∧ row.passwd = password := by
  induction rows generalizing s with
  | nil => exact .inl h
  | cons row rows ih =>
    rcases ih h with hu | ⟨row', hm, he⟩
    · by_cases hne : username = row.username
      · subst hne
        refine .inr ⟨row, List.mem_cons_self, rfl, ?_⟩
        simpa [setHField, hr.set] using hu
      · exact .inl (by simpa [setHField, hr.set, hne] using hu)
    · exact .inr ⟨row', List.mem_cons_of_mem row hm, he⟩

end Application

/-- Every user in the hash has a name and is known by the full values of its fields. -/
structure StoreInv (serverPath : Bytes) (rows : List UserRow) (h : List Exchange)
    (s : Application) : Prop where
  path : s.serverPath = serverPath
  known : ∀ username password, s.users username = some password →
    username ≠ [] ∧ Known serverPath rows h username password

variable {P : Environment → Prop} {serverPath : Bytes} {rows : List UserRow} {h : List Exchange}
  {a : Exchange} {s t : Application} {username password : Bytes}

theorem application_serverPath (he : (application P serverPath rows).Exec h s) :
    s.serverPath = serverPath := by
  induction he with
  | start hi =>
    obtain ⟨env, -, rfl⟩ := hi
    exact Application.foldl_serverPath _ rows _
  | snoc _ hs ih =>
    obtain ⟨env, resp, resp', -, hreq, -⟩ := hs
    exact (Application.onRequest_users hreq).1.trans ih

theorem Known.snoc (hk : Known serverPath rows h username password) :
    Known serverPath rows (h ++ [a]) username password :=
  hk.imp_right fun ⟨b, hb, hr⟩ => ⟨b, List.mem_append_left [a] hb, hr⟩

theorem storeInv_new (hrows : ∀ row ∈ rows, row.username ≠ [] ∧ row.passwd ≠ []) {redis : Redis}
    (hr : redis.IsHashMap) : StoreInv serverPath rows [] (.new redis serverPath rows) where
  path := Application.foldl_serverPath redis rows _
  known username password hu := by
    rcases Application.users_foldl hr hu with hnone | ⟨row, hm, rfl, rfl⟩
    · cases hnone
    · exact ⟨(hrows row hm).1, .inl ⟨row, hm, rfl, rfl⟩⟩

theorem StoreInv.step (hi : StoreInv serverPath rows h s)
    (hs : (application Cached serverPath rows).step s a t) (ho : Orderly a.req) :
    StoreInv serverPath rows (h ++ [a]) t := by
  obtain ⟨env, resp, resp', hr, hreq, hpage⟩ := hs
  obtain ⟨hpath, hu | ⟨hreg, hbody, hwelcome, -, hu⟩⟩ := Application.onRequest_users hreq
  · refine ⟨hpath.trans hi.path, fun username password hm => ?_⟩
    exact (hi.known username password (hu ▸ hm)).imp_right Known.snoc
  · refine ⟨hpath.trans hi.path, fun username password hm => ?_⟩
    obtain ⟨hwhole, hex⟩ := ho.register hreg hbody
    obtain ⟨hne, hcarries⟩ := register_carries hwhole hex
    rw [hu, hr.set] at hm
    by_cases hname : username = lastGroup registerPattern 1 a.req.body
    · subst hname
      obtain rfl : lastGroup registerPattern 5 a.req.body = password := by simpa using hm
      refine ⟨hne, .inr ⟨a, by simp, hreg, ?_, hcarries⟩⟩
      rw [hpage, hwelcome, hi.path]
    · rw [Function.update_of_ne hname] at hm
      exact (hi.known username password hm).imp_right Known.snoc

/-- A welcomed login names a known user. -/
theorem StoreInv.login (hi : StoreInv serverPath rows h s)
    (hs : (application Cached serverPath rows).step s a t) (ho : Orderly a.req) (hl : IsLogin a.req)
    (hw : a.page = welcome serverPath) : ∃ username password,
      Carries (a.req.query.drop 1) username password ∧
        Known serverPath rows h username password := by
  obtain ⟨env, resp, resp', hr, hreq, hpage⟩ := hs
  obtain ⟨-, -, hright⟩ := Application.login_cases (Application.onRequest_login hl hreq)
  obtain ⟨hhas, hget⟩ := hright (by rw [← hpage, hw, hi.path])
  obtain ⟨hne, hknown⟩ := hi.known _ _ (hr.eq_some hhas hget)
  exact ⟨_, _, (login_carries (ho.login hl)).resolve_left hne, hknown⟩

theorem login_sound_of_orderly (hrows : ∀ row ∈ rows, row.username ≠ [] ∧ row.passwd ≠ [])
    (he : ((application Cached serverPath rows).restrict fun _ a => Orderly a.req).Exec h s) :
    LoginSound serverPath rows h := by
  have hboth : LoginSound serverPath rows h ∧ StoreInv serverPath rows h s := by
    induction he with
    | start hi =>
      obtain ⟨env, hr, rfl⟩ := hi
      exact ⟨Trace.always_nil, storeInv_new hrows hr⟩
    | snoc _ hs ih =>
      obtain ⟨ho, hs⟩ := hs
      exact ⟨ih.1.snoc (ih.2.login hs ho), ih.2.step hs ho⟩
  exact hboth.1

def alice : UserRow := ⟨ascii "alice", ascii "alice%40example.com", ascii "secret"⟩

def getLogin (query : Bytes) : HttpRequest :=
  ⟨.kGet, .kHttp11, ascii "/login", query, 0, [], []⟩

def postRegister (u m p : Bytes) : HttpRequest :=
  ⟨.kPost, .kHttp11, ascii "/register", [], 0, [], registerBody u m p⟩

/-- No files, a database that takes every statement, and Redis as it should be. -/
def emptyServer : Environment := ⟨fun _ => .missing, fun _ => 0, .hashMap⟩

theorem isLogin_getLogin (query : Bytes) : IsLogin (getLogin query) := by
  constructor <;> simp only [getLogin] <;> decide

theorem orderly_getLogin {u p : Bytes} (hu : u.all alnum = true) (hp : p.all alnum = true) :
    Orderly (getLogin (loginQuery u p)) where
  login _ := whole_login (List.all_eq_true.mp hu) (List.all_eq_true.mp hp)
  register hr := by
    cases hr.1

theorem orderly_postRegister {u m p : Bytes} (hr : Registrable u m p) :
    Orderly (postRegister u m p) where
  login hl := by
    cases hl.method
  register _ _ := ⟨whole_register hr, _, _, _, registerBody_occurs hr⟩

/-- A request, if it is answered with the file of its label. -/
def answer (env : Environment) (s : Application) (a : Exchange) : Option Application :=
  (s.onRequest env a.req (.new false)).toOption.bind fun p =>
    if a.page = p.1.realFile then some p.1 else none

theorem step_of_answer {env : Environment} (hP : P env) (h : answer env s a = some t) :
    (application P serverPath rows).step s a t := by
  obtain ⟨⟨u, resp'⟩, hr, hu⟩ := Option.bind_eq_some_iff.mp h
  split_ifs at hu with hpage
  obtain rfl := Option.some.inj hu
  exact ⟨env, .new false, resp', hP, ok_of_toOption hr, hpage⟩

/-- A run of requests answered one after the other. -/
theorem exec_of_answers (env : Environment) (hP : P env)
    (hr : (h.foldlM (answer env) (.new env.redis serverPath rows)).isSome = true) :
    ∃ s, (application P serverPath rows).Exec h s := by
  obtain ⟨t, ht⟩ := Option.isSome_iff_exists.mp hr
  exact ⟨t, Trace.LTS.exec_of_foldlM (fun _ _ _ hs => step_of_answer hP hs) ⟨env, hP, rfl⟩ ht⟩

def visits : List Exchange :=
  [⟨getLogin (loginQuery (ascii "bob") (ascii "pw")), ascii "/srv/loginFailed.html"⟩,
    ⟨postRegister (ascii "bob") (ascii "b%40c.com") (ascii "pw"), welcome (ascii "/srv")⟩,
    ⟨getLogin (loginQuery (ascii "bob") (ascii "pw")), welcome (ascii "/srv")⟩,
    ⟨getLogin (loginQuery (ascii "alice") (ascii "pw")), ascii "/srv/loginFailed.html"⟩,
    ⟨getLogin (loginQuery (ascii "alice") (ascii "secret")), welcome (ascii "/srv")⟩]

/-- A user who logs in before and after registering, and one of the table. -/
theorem login_sound_of_orderly_sample : LoginSound (ascii "/srv") [alice] visits := by
  have hbob : Registrable (ascii "bob") (ascii "b%40c.com") (ascii "pw") :=
    registrable_of (a := ascii "b") (b := ascii "c") (by decide) (by decide) (by decide) (by decide)
  obtain ⟨s, he⟩ : ∃ s, (application Cached (ascii "/srv") [alice]).Exec visits s :=
    exec_of_answers emptyServer Redis.hashMap_isHashMap (by decide)
  refine login_sound_of_orderly (by decide) (he.restrict_of_forall ?_)
  simp only [visits, List.forall_mem_cons]
  refine ⟨orderly_getLogin ?_ ?_, orderly_postRegister hbob, orderly_getLogin ?_ ?_,
    orderly_getLogin ?_ ?_, orderly_getLogin ?_ ?_, by simp⟩ <;> decide

/-- A password that only starts with the right one. -/
theorem longer_password_welcomed :
    (∀ row ∈ [alice], row.username ≠ [] ∧ row.passwd ≠ []) ∧ ∃ s,
    (application Cached (ascii "/srv") [alice]).Exec
      [⟨getLogin (ascii "?Username=alice&password=secret!"), welcome (ascii "/srv")⟩] s ∧
    ¬ LoginSound (ascii "/srv") [alice]
      [⟨getLogin (ascii "?Username=alice&password=secret!"), welcome (ascii "/srv")⟩] := by
  obtain ⟨s, he⟩ : ∃ s, (application Cached (ascii "/srv") [alice]).Exec
      [⟨getLogin (ascii "?Username=alice&password=secret!"), welcome (ascii "/srv")⟩] s :=
    exec_of_answers emptyServer Redis.hashMap_isHashMap (by decide)
  refine ⟨by decide, s, he, fun hsound => ?_⟩
  obtain ⟨u, p, ⟨-, hp⟩, ⟨row, hm, -, hpass⟩ | ⟨a, ha, -⟩⟩ :=
    hsound [] _ [] rfl (isLogin_getLogin _) rfl
  · obtain rfl := List.mem_singleton.mp hm
    rw [← hpass] at hp
    exact absurd hp (by decide)
  · cases ha

end Lute.Http
