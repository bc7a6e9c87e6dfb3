import Lute.Http.HttpRequest

/-! The incremental request parser, over the readable bytes of its input buffer. -/
namespace Lute.Http

inductive HttpRequestParseState
  | kExpectRequestLine
  | kExpectHeaders
  | kExpectBody
  | kGotAll
  deriving DecidableEq, Repr

structure HttpContext where
  state : HttpRequestParseState
  request : HttpRequest
  deriving DecidableEq, Repr

/-- The version a request line ends in, if its last eight bytes are well formed. -/
def versionOf (ver : Bytes) : Option Version :=
  if ver.length = 8 ∧ ver.take 7 = ascii "HTTP/1." then
    if ver.getLast? = some 49 then some .kHttp11
    else if ver.getLast? = some 48 then some .kHttp10
    else none
  else none

/-- The path and, where the target has a question mark, the query. -/
def setTarget (req : HttpRequest) (target : Bytes) : HttpRequest :=
  let question := target.idxOf 63
  if question ≠ target.length then
    { req with path := target.take question, query := target.drop question }
  else
    { req with path := target }

/-- The request line after its method and the first space; the offset of an absent byte is the
length, as with `std::find`. -/
def processTarget (req : HttpRequest) (rest : Bytes) : Bool × HttpRequest :=
  let space := rest.idxOf 32
  if space = rest.length then (false, req)
  else
    match versionOf (rest.drop (space + 1)) with
    | some v => (true, { setTarget req (rest.take space) with version := v })
    | none => (false, setTarget req (rest.take space))

/-- `line` is `[begin, end)`. A rejected line leaves behind what it had already set. -/
def processRequestLine (build : Build) (req : HttpRequest) (line : Bytes) :
    Result (Bool × HttpRequest) :=
  let space := line.idxOf 32
  if space = line.length then return (false, req)
  else do
    let (known, req) ← req.setMethod build (line.take space)
    if known then return processTarget req (line.drop (space + 1)) else return (false, req)

namespace HttpContext

def fresh : HttpContext := ⟨.kExpectRequestLine, .fresh⟩

def gotAll (ctx : HttpContext) : Bool := ctx.state = .kGotAll

def reset (_ : HttpContext) : HttpContext := fresh

/-- A complete line of the header section. Any line without a colon ends the section. -/
def headerLine (ctx : HttpContext) (line : Bytes) : HttpContext :=
  let colon := line.idxOf 58
  if colon ≠ line.length then { ctx with request := ctx.request.addHeader line colon }
  else { ctx with state := .kExpectBody }

/-- One iteration of the parser's loop: the new `hasMore`, then `ok`, the context and the unread
bytes. No branch handles `kGotAll`, where the loop spins. -/
def iteration (build : Build) (receiveTime : Int) (ok : Bool) (ctx : HttpContext) (buf : Bytes) :
    Result (Bool × Bool × HttpContext × Bytes) :=
  match ctx.state with
  | .kExpectRequestLine =>
    match findCRLF buf with
    | some crlf => do
      let (ok, req) ← processRequestLine build ctx.request (buf.take crlf)
      if ok then
        return (true, ok, ⟨.kExpectHeaders, { req with receiveTime := receiveTime }⟩,
          buf.drop (crlf + 2))
      else return (false, ok, { ctx with request := req }, buf)
    | none => return (false, ok, ctx, buf)
  | .kExpectHeaders =>
    match findCRLF buf with
    | some crlf => return (true, ok, ctx.headerLine (buf.take crlf), buf.drop (crlf + 2))
    | none => return (false, ok, ctx, buf)
  | .kExpectBody =>
    let req := if buf ≠ [] then { ctx.request with body := buf } else ctx.request
    return (false, ok, ⟨.kGotAll, req⟩, [])
  | .kGotAll => return (true, ok, ctx, buf)

/-- The loop, stopped after `n` iterations. -/
def parseLoop (build : Build) (receiveTime : Int) :
    Nat → Bool → HttpContext → Bytes → Result (Bool × HttpContext × Bytes)
  | 0, _, _, _ => .error .running
  | n + 1, ok, ctx, buf => do
    let (hasMore, ok, ctx, buf) ← iteration build receiveTime ok ctx buf
    if hasMore then parseLoop build receiveTime n ok ctx buf else return (ok, ctx, buf)

/-- The loop run to its end: an iteration that asks for another one has consumed a line. -/
def parseRequest (build : Build) (ctx : HttpContext) (buf : Bytes) (receiveTime : Int) :
    Result (Bool × HttpContext × Bytes) :=
  parseLoop build receiveTime (buf.length + 1) true ctx buf

end HttpContext

end Lute.Http
