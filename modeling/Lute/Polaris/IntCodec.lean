import Lute.Lib.Endian
import Lute.Polaris.BufferRefinement

/-! The integers of a buffer, in network order: appending, prepending, peeking and reading them. -/
namespace Lute

open Endian

section Sockets

variable (host : Order)

def hostToNetwork64 (host64 : Nat) : Nat := host.htobe 8 host64
def hostToNetwork32 (host32 : Nat) : Nat := host.htobe 4 host32
def hostToNetwork16 (host16 : Nat) : Nat := host.htobe 2 host16
def networkToHost64 (net64 : Nat) : Nat := host.betoh 8 net64
def networkToHost32 (net32 : Nat) : Nat := host.betoh 4 net32
def networkToHost16 (net16 : Nat) : Nat := host.betoh 2 net16

end Sockets

namespace Buffer

variable (build : Build) (host : Order)

/-- `memcpy` of `w` bytes from `peek()`. -/
def memcpyFrom (b : Buffer) (w : Nat) : Result Bytes :=
  if b.readerIndex + w ≤ b.buffer.length then
    .ok (Vec.slice b.buffer b.readerIndex (b.readerIndex + w))
  else .error .outOfBounds

/-- `*peek()`. -/
def charAtPeek (b : Buffer) : Result UInt8 :=
  match b.buffer[b.readerIndex]? with
  | some c => .ok c
  | none => .error .outOfBounds

/-- The body of the peeking functions of two bytes and more, around their `networkToHost`. The
casts between a signed type and the unsigned one it works on keep the bits. -/
def peekNetwork (b : Buffer) (networkToHost : Nat → Nat) (α : Type) [FixedWidth α] :
    Result α := do
  build.assert (FixedWidth.width α ≤ b.readableBytes)
  let be ← b.memcpyFrom (FixedWidth.width α)
  return FixedWidth.ofBits (networkToHost (host.load be))

/-- The bytes of `&be`, with `be` the argument converted. -/
def objectOf (hostToNetwork : Nat → Nat) {α : Type} [FixedWidth α] (x : α) : Bytes :=
  host.store (FixedWidth.width α) (hostToNetwork (FixedWidth.bits x))

def peekInt64 (b : Buffer) : Result Int64 :=
  b.peekNetwork build host (networkToHost64 host) Int64

def peekUint64 (b : Buffer) : Result UInt64 :=
  b.peekNetwork build host (networkToHost64 host) UInt64

def peekInt32 (b : Buffer) : Result Int32 :=
  b.peekNetwork build host (networkToHost32 host) Int32

def peekUint32 (b : Buffer) : Result UInt32 :=
  b.peekNetwork build host (networkToHost32 host) UInt32

def peekInt16 (b : Buffer) : Result Int16 :=
  b.peekNetwork build host (networkToHost16 host) Int16

def peekUint16 (b : Buffer) : Result UInt16 :=
  b.peekNetwork build host (networkToHost16 host) UInt16

def peekInt8 (b : Buffer) : Result Int8 := do
  build.assert (1 ≤ b.readableBytes)
  return (← b.charAtPeek).toInt8

def peekUint8 (b : Buffer) : Result UInt8 := do
  build.assert (1 ≤ b.readableBytes)
  b.charAtPeek

def retrieveInt64 (b : Buffer) : Result Buffer := b.retrieve build 8
def retrieveUint64 (b : Buffer) : Result Buffer := b.retrieve build 8
def retrieveInt32 (b : Buffer) : Result Buffer := b.retrieve build 4
def retrieveUint32 (b : Buffer) : Result Buffer := b.retrieve build 4
def retrieveInt16 (b : Buffer) : Result Buffer := b.retrieve build 2
def retrieveUint16 (b : Buffer) : Result Buffer := b.retrieve build 2
def retrieveInt8 (b : Buffer) : Result Buffer := b.retrieve build 1
def retrieveUint8 (b : Buffer) : Result Buffer := b.retrieve build 1

def appendInt64 (b : Buffer) (x : Int64) : Result Buffer :=
  b.append build (objectOf host (hostToNetwork64 host) x)

def appendUint64 (b : Buffer) (x : UInt64) : Result Buffer :=
  b.append build (objectOf host (hostToNetwork64 host) x)

def appendInt32 (b : Buffer) (x : Int32) : Result Buffer :=
  b.append build (objectOf host (hostToNetwork32 host) x)

def appendUint32 (b : Buffer) (x : UInt32) : Result Buffer :=
  b.append build (objectOf host (hostToNetwork32 host) x)

def appendInt16 (b : Buffer) (x : Int16) : Result Buffer :=
  b.append build (objectOf host (hostToNetwork16 host) x)

def appendUint16 (b : Buffer) (x : UInt16) : Result Buffer :=
  b.append build (objectOf host (hostToNetwork16 host) x)

def appendInt8 (b : Buffer) (x : Int8) : Result Buffer := b.append build [x.toUInt8]

def appendUint8 (b : Buffer) (x : UInt8) : Result Buffer := b.append build [x]

def prependInt64 (b : Buffer) (x : Int64) : Result Buffer :=
  b.prepend build (objectOf host (hostToNetwork64 host) x)

def prependUint64 (b : Buffer) (x : UInt64) : Result Buffer :=
  b.prepend build (objectOf host (hostToNetwork64 host) x)

def prependInt32 (b : Buffer) (x : Int32) : Result Buffer :=
  b.prepend build (objectOf host (hostToNetwork32 host) x)

def prependUint32 (b : Buffer) (x : UInt32) : Result Buffer :=
  b.prepend build (objectOf host (hostToNetwork32 host) x)

def prependInt16 (b : Buffer) (x : Int16) : Result Buffer :=
  b.prepend build (objectOf host (hostToNetwork16 host) x)

def prependUint16 (b : Buffer) (x : UInt16) : Result Buffer :=
  b.prepend build (objectOf host (hostToNetwork16 host) x)

def prependInt8 (b : Buffer) (x : Int8) : Result Buffer := b.prepend build [x.toUInt8]

def prependUint8 (b : Buffer) (x : UInt8) : Result Buffer := b.prepend build [x]

/-- The shape of the reading functions. -/
def peekThenRetrieve {α : Type} (peek : Buffer → Result α) (retrieve : Buffer → Result Buffer)
    (b : Buffer) : Result (α × Buffer) := do
  let result ← peek b
  let b' ← retrieve b
  return (result, b')

def readInt64 (b : Buffer) : Result (Int64 × Buffer) :=
  peekThenRetrieve (peekInt64 build host) (retrieveInt64 build) b

def readUint64 (b : Buffer) : Result (UInt64 × Buffer) :=
  peekThenRetrieve (peekUint64 build host) (retrieveUint64 build) b

def readInt32 (b : Buffer) : Result (Int32 × Buffer) :=
  peekThenRetrieve (peekInt32 build host) (retrieveInt32 build) b

def readUint32 (b : Buffer) : Result (UInt32 × Buffer) :=
  peekThenRetrieve (peekUint32 build host) (retrieveUint32 build) b

def readInt16 (b : Buffer) : Result (Int16 × Buffer) :=
  peekThenRetrieve (peekInt16 build host) (retrieveInt16 build) b

def readUint16 (b : Buffer) : Result (UInt16 × Buffer) :=
  peekThenRetrieve (peekUint16 build host) (retrieveUint16 build) b

def readInt8 (b : Buffer) : Result (Int8 × Buffer) :=
  peekThenRetrieve (peekInt8 build) (retrieveInt8 build) b

/-- It retrieves with the signed sibling. -/
def readUint8 (b : Buffer) : Result (UInt8 × Buffer) :=
  peekThenRetrieve (peekUint8 build) (retrieveInt8 build) b

end Buffer

inductive IntType
  | int8 | int16 | int32 | int64 | uint8 | uint16 | uint32 | uint64
  deriving DecidableEq, Repr

/-- A value of one of the eight types. -/
inductive TypedInt
  | int8 (x : Int8)
  | int16 (x : Int16)
  | int32 (x : Int32)
  | int64 (x : Int64)
  | uint8 (x : UInt8)
  | uint16 (x : UInt16)
  | uint32 (x : UInt32)
  | uint64 (x : UInt64)
  deriving DecidableEq

def IntType.width : IntType → Nat
  | int8 | uint8 => 1
  | int16 | uint16 => 2
  | int32 | uint32 => 4
  | int64 | uint64 => 8

namespace TypedInt

def type : TypedInt → IntType
  | int8 _ => .int8
  | int16 _ => .int16
  | int32 _ => .int32
  | int64 _ => .int64
  | uint8 _ => .uint8
  | uint16 _ => .uint16
  | uint32 _ => .uint32
  | uint64 _ => .uint64

/-- The number it stands for. -/
def toInt : TypedInt → Int
  | int8 x => x.toInt
  | int16 x => x.toInt
  | int32 x => x.toInt
  | int64 x => x.toInt
  | uint8 x => x.toNat
  | uint16 x => x.toNat
  | uint32 x => x.toNat
  | uint64 x => x.toNat

/-- Its big-endian two's-complement encoding. -/
def encoding (v : TypedInt) : Bytes := network v.type.width v.toInt

variable (build : Build) (host : Order)

/-- The matching `appendXxx`. -/
def append (b : Buffer) : TypedInt → Result Buffer
  | int8 x => b.appendInt8 build x
  | int16 x => b.appendInt16 build host x
  | int32 x => b.appendInt32 build host x
  | int64 x => b.appendInt64 build host x
  | uint8 x => b.appendUint8 build x
  | uint16 x => b.appendUint16 build host x
  | uint32 x => b.appendUint32 build host x
  | uint64 x => b.appendUint64 build host x

/-- The matching `prependXxx`. -/
def prepend (b : Buffer) : TypedInt → Result Buffer
  | int8 x => b.prependInt8 build x
  | int16 x => b.prependInt16 build host x
  | int32 x => b.prependInt32 build host x
  | int64 x => b.prependInt64 build host x
  | uint8 x => b.prependUint8 build x
  | uint16 x => b.prependUint16 build host x
  | uint32 x => b.prependUint32 build host x
  | uint64 x => b.prependUint64 build host x

end TypedInt

namespace IntType

variable (build : Build) (host : Order)

/-- The matching `peekXxx`. -/
def peek (b : Buffer) : IntType → Result TypedInt
  | int8 => do return .int8 (← b.peekInt8 build)
  | int16 => do return .int16 (← b.peekInt16 build host)
  | int32 => do return .int32 (← b.peekInt32 build host)
  | int64 => do return .int64 (← b.peekInt64 build host)
  | uint8 => do return .uint8 (← b.peekUint8 build)
  | uint16 => do return .uint16 (← b.peekUint16 build host)
  | uint32 => do return .uint32 (← b.peekUint32 build host)
  | uint64 => do return .uint64 (← b.peekUint64 build host)

/-- The matching `readXxx`. -/
def read (b : Buffer) : IntType → Result (TypedInt × Buffer)
  | int8 => do
    let (x, b') ← b.readInt8 build
    return (.int8 x, b')
  | int16 => do
    let (x, b') ← b.readInt16 build host
    return (.int16 x, b')
  | int32 => do
    let (x, b') ← b.readInt32 build host
    return (.int32 x, b')
  | int64 => do
    let (x, b') ← b.readInt64 build host
    return (.int64 x, b')
  | uint8 => do
    let (x, b') ← b.readUint8 build
    return (.uint8 x, b')
  | uint16 => do
    let (x, b') ← b.readUint16 build host
    return (.uint16 x, b')
  | uint32 => do
    let (x, b') ← b.readUint32 build host
    return (.uint32 x, b')
  | uint64 => do
    let (x, b') ← b.readUint64 build host
    return (.uint64 x, b')

end IntType

end Lute
