import Lute.Lib.OrdMap
import Lute.Polaris.Buffer
import Mathlib.Data.List.DropRight

/-! The two message records of the HTTP layer. -/
namespace Lute.Http

inductive Method
  | kInvalid
  | kGet
  | kPost
  | kHead
  | kPut
  | kDelete
  deriving DecidableEq, Repr

inductive Version
  | kUnknown
  | kHttp10
  | kHttp11
  deriving DecidableEq, Repr

structure HttpRequest where
  method : Method
  version : Version
  path : Bytes
  query : Bytes
  receiveTime : Int
  headers : List (Bytes × Bytes)
  body : Bytes
  deriving DecidableEq, Repr

/-- `isspace` in the C locale. -/
def isspace (c : UInt8) : Bool := c == 32 || (9 ≤ c && c ≤ 13)

namespace HttpRequest

/-- The default constructor. -/
def fresh : HttpRequest := ⟨.kInvalid, .kUnknown, [], [], 0, [], []⟩

def methodOf (m : Bytes) : Method :=
  if m = ascii "GET" then .kGet
  else if m = ascii "POST" then .kPost
  else if m = ascii "HEAD" then .kHead
  else if m = ascii "PUT" then .kPut
  else if m = ascii "DELETE" then .kDelete
  else .kInvalid

def setMethod (build : Build) (req : HttpRequest) (m : Bytes) : Result (Bool × HttpRequest) := do
  build.assert (req.method = .kInvalid)
  return (methodOf m ≠ .kInvalid, { req with method := methodOf m })

/-- The line `[start, end)` with its colon at offset `colon`. -/
def addHeader (req : HttpRequest) (line : Bytes) (colon : Nat) : HttpRequest :=
  let field := line.take colon
  let value := ((line.drop (colon + 1)).dropWhile isspace).rdropWhile isspace
  { req with headers := OrdMap.insert field value req.headers }

def getHeader (req : HttpRequest) (field : Bytes) : Bytes :=
  (OrdMap.find field req.headers).getD []

end HttpRequest

/-- The status codes the application uses, with the numbers they are printed as. -/
inductive HttpStatusCode
  | kUnknown
  | k200Ok
  | k301MovedPermanently
  | k400BadRequest
  | k404NotFound
  deriving DecidableEq, Repr

def HttpStatusCode.toNat : HttpStatusCode → Nat
  | kUnknown => 0
  | k200Ok => 200
  | k301MovedPermanently => 301
  | k400BadRequest => 400
  | k404NotFound => 404

structure HttpResponse where
  headers : List (Bytes × Bytes)
  statusCode : HttpStatusCode
  statusMessage : Bytes
  closeConnection : Bool
  body : Bytes
  deriving DecidableEq, Repr

namespace HttpResponse

def new (close : Bool) : HttpResponse := ⟨[], .kUnknown, [], close, []⟩

def addHeader (resp : HttpResponse) (key value : Bytes) : HttpResponse :=
  { resp with headers := OrdMap.insert key value resp.headers }

def setContentType (resp : HttpResponse) (contentType : Bytes) : HttpResponse :=
  resp.addHeader (ascii "Content-Type") contentType

/-- What `snprintf` leaves in a `char[32]`. -/
def snprintf32 (text : Bytes) : Bytes := text.take 31

/-- The bytes appended to an output buffer. -/
def appendToBuffer (resp : HttpResponse) : Bytes :=
  snprintf32 (ascii "HTTP/1.1 " ++ ascii (toString resp.statusCode.toNat) ++ ascii " ") ++
    resp.statusMessage ++ kCRLF ++
    (if resp.closeConnection then ascii "Connection: close" ++ kCRLF
     else snprintf32 (ascii "Content-Length: " ++ ascii (toString resp.body.length) ++ kCRLF) ++
       ascii "Connection: Keep-Alive" ++ kCRLF) ++
    resp.headers.flatMap (fun h => h.1 ++ ascii ": " ++ h.2 ++ kCRLF) ++ kCRLF ++ resp.body

end HttpResponse

end Lute.Http
