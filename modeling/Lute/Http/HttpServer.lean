import Lute.Http.HttpContext

/-! One connection as the HTTP server drives it: chunks in, callbacks and replies out. -/
namespace Lute.Http

/-- The user's `httpCallback_`, which fills in the response it is given. -/
abbrev HttpCallback := HttpRequest → HttpResponse → HttpResponse

def defaultHttpCallback : HttpCallback := fun _ resp =>
  { resp with statusCode := .k404NotFound, statusMessage := ascii "Not Found",
              closeConnection := true }

/-- The connection's context and unread input. -/
structure Session where
  context : HttpContext
  inputBuffer : Bytes
  deriving DecidableEq, Repr

/-- What handling a message does, in order: the fixed 400 text passed to `send`, a call of
`httpCallback_`, a serialised response passed to `send`, a call of `shutdown`. -/
inductive Effect
  | badRequest
  | callback (req : HttpRequest)
  | response (message : Bytes)
  | shutdown
  deriving DecidableEq, Repr

/-- The context set when the connection comes up. -/
def Session.onConnection : Session := ⟨.fresh, []⟩

def onRequest (httpCallback : HttpCallback) (req : HttpRequest) : List Effect :=
  let connection := req.getHeader (ascii "Connection")
  let close : Bool := connection = ascii "close" ∨
    (req.version = .kHttp10 ∧ connection ≠ ascii "Keep-Alive")
  let response := httpCallback req (.new close)
  [.callback req, .response response.appendToBuffer] ++
    if response.closeConnection then [.shutdown] else []

def Session.onMessage (build : Build) (httpCallback : HttpCallback) (s : Session)
    (receiveTime : Int) : Result (Session × List Effect) := do
  let (ok, context, buf) ← s.context.parseRequest build s.inputBuffer receiveTime
  let bad : List Effect := if ok then [] else [.badRequest, .shutdown]
  if context.gotAll then
    return (⟨context.reset, buf⟩, bad ++ onRequest httpCallback context.request)
  else return (⟨context, buf⟩, bad)

/-- `TCPConnection::handleRead` with a positive count: append, then the message callback. -/
def Session.handleRead (build : Build) (httpCallback : HttpCallback) (s : Session)
    (chunk : Bytes) (receiveTime : Int) : Result (Session × List Effect) :=
  { s with inputBuffer := s.inputBuffer ++ chunk }.onMessage build httpCallback receiveTime

/-- Reads handled one after another. -/
def Session.deliver (build : Build) (httpCallback : HttpCallback) :
    Session → List (Bytes × Int) → Result (Session × List Effect)
  | s, [] => .ok (s, [])
  | s, (chunk, receiveTime) :: reads => do
    let (s, es) ← s.handleRead build httpCallback chunk receiveTime
    let (s, es') ← s.deliver build httpCallback reads
    return (s, es ++ es')

/-- The requests `httpCallback_` was called with. -/
def callbacks (es : List Effect) : List HttpRequest :=
  es.filterMap fun
    | .callback req => some req
    | _ => none

end Lute.Http
