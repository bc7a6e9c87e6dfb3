import Lute.Http.HttpRequest
import Lute.Lib.Pattern
import Lute.Lib.Search
import Lute.Lib.Trace
import Mathlib.Logic.Function.Basic

/-! The application behind the HTTP server: pages, registration and login. -/
namespace Lute.Http

/-- What `stat` and opening a file come to. -/
inductive File
  | missing
  | forbidden
  | directory
  | unreadable
  | readable (content : Bytes)
  deriving DecidableEq, Repr

/-- A row of the user table. -/
structure UserRow where
  username : Bytes
  mail : Bytes
  passwd : Bytes
  deriving DecidableEq, Repr

/-- What Redis answers to the commands on a hash, and what it then holds; any of them may fail. -/
structure Redis where
  hasHField : (Bytes → Option Bytes) → Bytes → Int
  getHField : (Bytes → Option Bytes) → Bytes → Bytes
  setHField : (Bytes → Option Bytes) → Bytes → Bytes → Bytes → Option Bytes

/-- Redis behaves as a hash map. -/
structure Redis.IsHashMap (redis : Redis) : Prop where
  has : ∀ users field, redis.hasHField users field = 0 ↔ users field = none
  get : ∀ users field value, users field = some value → redis.getHField users field = value
  set : ∀ users field value,
    redis.setHField users field value = Function.update users field (some value)

def Redis.hashMap : Redis where
  hasHField users field := if (users field).isSome then 1 else 0
  getHField users field := (users field).getD []
  setHField users field value := Function.update users field (some value)

/-- A field that exists, with the value that is read. -/
theorem Redis.IsHashMap.eq_some {redis : Redis} (hr : redis.IsHashMap)
    {users : Bytes → Option Bytes} {field value : Bytes} (hhas : redis.hasHField users field ≠ 0)
    (hget : redis.getHField users field = value) : users field = some value := by
  obtain ⟨stored, hs⟩ := Option.ne_none_iff_exists'.mp (mt (hr.has users field).mpr hhas)
  rw [hs, ← hget, hr.get users field stored hs]

theorem Redis.hashMap_isHashMap : Redis.hashMap.IsHashMap where
  has users field := by
    cases h : users field <;> simp [hashMap, h]
  get users field value h := by
    simp [hashMap, h]
  set _ _ _ := rfl

/-- The server's files, the return code of a statement given to the database, and Redis. -/
structure Environment where
  files : Bytes → File
  execute : Bytes → Int
  redis : Redis

/-- `users` is the hash kept in Redis, under `HASH_KEY`. -/
structure Application where
  serverPath : Bytes
  realFile : Bytes
  users : Bytes → Option Bytes

def digit (c : UInt8) : Bool := 48 ≤ c && c ≤ 57
def alpha (c : UInt8) : Bool := (97 ≤ c && c ≤ 122) || (65 ≤ c && c ≤ 90)
def alnum (c : UInt8) : Bool := digit c || alpha c

/-- `Username=([0-9a-zA-Z_]+)&email=([0-9a-zA-Z]+\%40[a-zA-Z]+\.com)&password=([0-9a-zA-Z]+)` -/
def registerPattern : Pattern.Groups UInt8 :=
  [Pattern.literal (ascii "Username="), [.plus fun c => alnum c || c = 95],
    Pattern.literal (ascii "&email="),
    .plus alnum :: Pattern.literal (ascii "%40") ++ .plus alpha :: Pattern.literal (ascii ".com"),
    Pattern.literal (ascii "&password="), [.plus alnum]]

/-- `\?Username=([0-9a-zA-Z]+)&password=([0-9a-zA-Z]+)` -/
def loginPattern : Pattern.Groups UInt8 :=
  [Pattern.literal (ascii "?Username="), [.plus alnum], Pattern.literal (ascii "&password="),
    [.plus alnum]]

/-- What a loop over the matches leaves in a string set to group `i` of each. -/
def lastGroup (gs : Pattern.Groups UInt8) (i : Nat) (s : Bytes) : Bytes :=
  (Pattern.findAll gs s).foldl (fun _ texts => texts.getD i []) []

/-- `c_str()`, up to the first null byte. -/
def cString (s : Bytes) : Bytes := s.takeWhile (· ≠ 0)

/-- `s.find(needle) != npos` -/
def contains (needle s : Bytes) : Bool := (Search.memmem needle s).isSome

/-- The header part that all pages but the last share. -/
def HttpResponse.ok (resp : HttpResponse) (contentType : Bytes) : HttpResponse :=
  ({ resp with statusCode := .k200Ok, statusMessage := ascii "OK" }.setContentType
    contentType).addHeader (ascii "Server") (ascii "Lux polaris")

namespace Application

def FILENAME_LEN : Nat := 200

/-- `strcpy` of the root and `strcat` of a name into `realFile_`. -/
def setRealFile (s : Application) (index : Bytes) : Result Application :=
  let name := cString s.serverPath ++ cString index
  if name.length < FILENAME_LEN then .ok { s with realFile := name } else .error .outOfBounds

def getHtml (env : Environment) (s : Application) : Bytes :=
  match env.files s.realFile with
  | .readable content => content
  | _ => []

/-- Non-zero iff the field exists, as long as Redis answers. -/
def hasHField (redis : Redis) (s : Application) (field : Bytes) : Int :=
  redis.hasHField s.users field

/-- What the string given to `getHField`, empty before, holds after it. -/
def getHField (redis : Redis) (s : Application) (field : Bytes) : Bytes :=
  redis.getHField s.users field

def setHField (redis : Redis) (s : Application) (field value : Bytes) : Application :=
  { s with users := redis.setHField s.users field value }

/-- The constructor, with the rows of the user table. -/
def new (redis : Redis) (serverPath : Bytes) (rows : List UserRow) : Application :=
  rows.foldl (fun s row => s.setHField redis row.username row.passwd)
    ⟨serverPath, [], fun _ => none⟩

def insertStatement (username mail password : Bytes) : Bytes :=
  ascii "INSERT INTO user(username, mail, passwd) VALUES('" ++ username ++ ascii "', '" ++ mail ++
    ascii "', '" ++ password ++ ascii "')"

/-- A registration: after a failed insertion `realFile_` is what the last request left. -/
def register (env : Environment) (s : Application) (body : Bytes) : Result Application :=
  let username := lastGroup registerPattern 1 body
  let mail := lastGroup registerPattern 3 body
  let password := lastGroup registerPattern 5 body
  if s.hasHField env.redis username = 0 then
    if env.execute (insertStatement username mail password) = 0 then
      (s.setHField env.redis username password).setRealFile (ascii "/welcome.html")
    else .ok s
  else s.setRealFile (ascii "/registerFailed.html")

def login (redis : Redis) (s : Application) (query : Bytes) : Result Application :=
  let username := lastGroup loginPattern 1 query
  let passwd := lastGroup loginPattern 3 query
  if s.hasHField redis username ≠ 0 then
    if s.getHField redis username = passwd then s.setRealFile (ascii "/welcome.html")
    else s.setRealFile (ascii "/loginFailed.html")
  else s.setRealFile (ascii "/loginFailed.html")

def onRequest (env : Environment) (s : Application) (req : HttpRequest) (resp : HttpResponse) :
    Result (Application × HttpResponse) :=
  let html := resp.ok (ascii "text/html")
  if req.path = ascii "/" ∨ req.path = ascii "/index.html" then do
    let s ← s.setRealFile (ascii "/index.html")
    return (s, { html with body := s.getHtml env })
  else if req.path = ascii "/register" then do
    let s ← if req.method = .kPost ∧ req.body ≠ [] then s.register env req.body
      else s.setRealFile (ascii "/register.html")
    return (s, { html with body := s.getHtml env })
  else if req.path = ascii "/welcome" then do
    let s ← s.setRealFile (ascii "/welcome.html")
    return (s, { html with body := s.getHtml env })
  else if contains (ascii ".jpg") req.path then do
    let s ← s.setRealFile req.path
    let resp := resp.ok (ascii "image/jpg")
    match env.files s.realFile with
    | .missing | .forbidden | .directory => return (s, resp)
    | .unreadable => return (s, { resp with body := [] })
    | .readable content => return (s, { resp with body := content })
  else if req.method = .kGet ∧ contains (ascii "/login") req.path then do
    let s ← s.login env.redis req.query
    return (s, { html with body := s.getHtml env })
  else do
    let s ← s.setRealFile (ascii "/404.html")
    let resp := ({ resp with statusCode := .k404NotFound, statusMessage := ascii "Not Found" }
      |>.setContentType (ascii "text/html")).addHeader (ascii "Server") (ascii "Lux polaris")
    return (s, { resp with body := s.getHtml env, closeConnection := true })

end Application

end Lute.Http
