import Lute.Lib.Search
import Lute.Lib.Vec

/-!
# The byte buffer

A vector split by two indices into prependable, readable and writable bytes. Indices and
lengths are `size_t`: sums and differences are taken modulo `2 ^ 64`. An assertion stops a debug
build and does nothing in a release build; a vector refuses to grow past `2 ^ 63 - 1` elements.
-/

namespace Lute

abbrev Bytes := List UInt8

/-- The bytes of a string literal. -/
def ascii (s : String) : Bytes := s.toList.map fun c => c.toNat.toUInt8

/-- Whether `assert` is compiled in. -/
inductive Build
  | debug
  | release
  deriving DecidableEq, Repr

/-- How a call can end other than by returning; `running` is a loop that has not ended within
the number of iterations allowed to it, `dangling` the use of a deleted object. -/
inductive Fault
  | assertion
  | lengthError
  | outOfBounds
  | running
  | dangling
  deriving DecidableEq, Repr

abbrev Result := Except Fault

def Build.assert (build : Build) (p : Prop) [Decidable p] : Result Unit :=
  if build = .debug ∧ ¬ p then .error .assertion else .ok ()

/-- `std::vector<char>::max_size()`. -/
def maxSize : Nat := 2 ^ 63 - 1

/-- `std::vector::resize`, also the sizing constructor. -/
def resize (v : Bytes) (n : Nat) : Result Bytes :=
  if maxSize < n then .error .lengthError else .ok (Vec.resize v n 0)

/-- `std::copy` of `d` to `begin() + i`. The one overlapping use copies towards the front,
where it has the effect of copying from the unmodified source. -/
def copyTo (v : Bytes) (i : Nat) (d : Bytes) : Result Bytes :=
  if i + d.length ≤ v.length then .ok (Vec.overwrite v i d) else .error .outOfBounds

def kCRLF : Bytes := [13, 10]

/-- Offset of the first CRLF in a sequence of readable bytes. -/
def findCRLF (c : Bytes) : Option Nat := Search.memmem kCRLF c

structure Buffer where
  buffer : Bytes
  readerIndex : Nat
  writerIndex : Nat
  deriving DecidableEq, Repr

namespace Buffer

def kCheapPrepend : Nat := 8
def kInitialSize : Nat := 1024

def readableBytes (b : Buffer) : Nat := Vec.sub b.writerIndex b.readerIndex

def writableBytes (b : Buffer) : Nat := Vec.sub b.buffer.length b.writerIndex

def prependableBytes (b : Buffer) : Nat := b.readerIndex

/-- The constructor, the vector zero-filled. -/
def new (build : Build) (initialSize : Nat) : Result Buffer := do
  let v ← resize [] (Vec.add kCheapPrepend initialSize)
  let b : Buffer := ⟨v, kCheapPrepend, kCheapPrepend⟩
  build.assert (b.readableBytes = 0)
  build.assert (b.writableBytes = initialSize)
  build.assert (b.prependableBytes = kCheapPrepend)
  return b

/-- The bytes `[peek(), beginWrite())`. -/
def content (b : Buffer) : Bytes := Vec.slice b.buffer b.readerIndex b.writerIndex

/-- The pointer found is `begin()` plus the result. -/
def findCRLF (b : Buffer) : Option Nat := do
  let i ← Lute.findCRLF b.content
  let crlf := b.readerIndex + i
  if crlf = b.writerIndex then none else some crlf

def retrieveAll (b : Buffer) : Buffer :=
  { b with readerIndex := kCheapPrepend, writerIndex := kCheapPrepend }

def retrieve (build : Build) (b : Buffer) (len : Nat) : Result Buffer := do
  build.assert (len ≤ b.readableBytes)
  if len < b.readableBytes then
    return { b with readerIndex := Vec.add b.readerIndex len }
  else
    return b.retrieveAll

/-- The pointer `end` is `begin() + stop`. -/
def retrieveUntil (build : Build) (b : Buffer) (stop : Nat) : Result Buffer := do
  build.assert (b.readerIndex ≤ stop)
  build.assert (stop ≤ b.writerIndex)
  b.retrieve build (Vec.sub stop b.readerIndex)

def retrieveAsString (build : Build) (b : Buffer) (len : Nat) : Result (Bytes × Buffer) := do
  build.assert (len ≤ b.readableBytes)
  let result := Vec.slice b.buffer b.readerIndex (b.readerIndex + len)
  let b' ← b.retrieve build len
  return (result, b')

def retrieveAllAsString (build : Build) (b : Buffer) : Result (Bytes × Buffer) :=
  b.retrieveAsString build b.readableBytes

def makeSpace (build : Build) (b : Buffer) (len : Nat) : Result Buffer :=
  if Vec.add b.writableBytes b.prependableBytes < Vec.add len kCheapPrepend then do
    let v ← resize b.buffer (Vec.add b.writerIndex len)
    return { b with buffer := v }
  else do
    build.assert (kCheapPrepend < b.readerIndex)
    let readable := b.readableBytes
    let v ← copyTo b.buffer kCheapPrepend b.content
    let b' : Buffer := ⟨v, kCheapPrepend, Vec.add kCheapPrepend readable⟩
    build.assert (readable = b'.readableBytes)
    return b'

def ensureWritableBytes (build : Build) (b : Buffer) (len : Nat) : Result Buffer := do
  let b' ← if b.writableBytes < len then b.makeSpace build len else .ok b
  build.assert (len ≤ b'.writableBytes)
  return b'

def hasWritten (build : Build) (b : Buffer) (len : Nat) : Result Buffer := do
  build.assert (len ≤ b.writableBytes)
  return { b with writerIndex := Vec.add b.writerIndex len }

/-- A caller's own copy to `beginWrite()`. -/
def writeAtBeginWrite (b : Buffer) (data : Bytes) : Result Buffer := do
  let v ← copyTo b.buffer b.writerIndex data
  return { b with buffer := v }

def unwrite (build : Build) (b : Buffer) (len : Nat) : Result Buffer := do
  build.assert (len ≤ b.readableBytes)
  return { b with writerIndex := Vec.sub b.writerIndex len }

def append (build : Build) (b : Buffer) (data : Bytes) : Result Buffer := do
  let b₁ ← b.ensureWritableBytes build data.length
  let b₂ ← b₁.writeAtBeginWrite data
  b₂.hasWritten build data.length

def prepend (build : Build) (b : Buffer) (data : Bytes) : Result Buffer := do
  build.assert (data.length ≤ b.prependableBytes)
  let r := Vec.sub b.readerIndex data.length
  let v ← copyTo b.buffer r data
  return { b with buffer := v, readerIndex := r }

/-- `shrink_to_fit` is a request about capacity and leaves the elements alone. -/
def shrink (build : Build) (b : Buffer) (reserve : Nat) : Result Buffer :=
  b.ensureWritableBytes build (Vec.add b.readableBytes reserve)

end Buffer

end Lute
