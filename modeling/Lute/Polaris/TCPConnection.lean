import Lute.Polaris.Buffer
import Lute.Polaris.Channel

/-! One TCP connection: its state, its output path and its handlers. -/
namespace Lute

inductive StateE
  | kDisconnected
  | kConnecting
  | kConnected
  | kDisconnecting
  deriving DecidableEq, Repr

inductive Errno
  | EWOULDBLOCK
  | EPIPE
  | ECONNRESET
  | other (code : Nat)
  deriving DecidableEq, Repr

/-- What `sockets::write` returned: a count, or -1 with `errno`. -/
inductive WriteResult
  | wrote (n : Nat)
  | failed (errno : Errno)
  deriving DecidableEq, Repr

/-- What `Buffer::readFd` returned, with the bytes it appended. -/
inductive ReadResult
  | data (chunk : Bytes)
  | eof
  | failed
  deriving DecidableEq, Repr

/-- The output buffer is the sequence of its readable bytes. -/
structure TCPConnection where
  state : StateE
  reading : Bool
  channel : Channel
  inputBuffer : Bytes
  outputBuffer : Bytes
  highWaterMark : Nat
  writeCompleteCallback : Bool
  highWaterMarkCallback : Bool
  deriving DecidableEq, Repr

namespace TCPConnection

/-- The closures a connection hands to its loop. -/
inductive Functor
  | sendInLoop (message : Bytes)
  | shutdownInLoop
  | forceCloseInLoop
  | writeCompleteCallback
  | highWaterMarkCallback (len : Nat)
  deriving DecidableEq, Repr

/-- What a member function does outside the object, in order. -/
inductive Effect
  | write (data : Bytes) (result : WriteResult)
  | shutdownWrite
  | runInLoop (f : Functor)
  | queueInLoop (f : Functor)
  | runAfterForceClose
  | connectionCallback
  | messageCallback
  | closeCallback
  | remove
  deriving DecidableEq, Repr

/-- The constructor; the optional callbacks are set by the owner before use. -/
def new (writeCompleteCallback highWaterMarkCallback : Bool) : TCPConnection where
  state := .kConnecting
  reading := false
  channel := .new
  inputBuffer := []
  outputBuffer := []
  highWaterMark := 64 * 1024 * 1024
  writeCompleteCallback
  highWaterMarkCallback

def setState (c : TCPConnection) (state : StateE) : TCPConnection := { c with state }

/-- The tail of `sendInLoop`: what the direct write left over is queued. -/
def enqueue (c : TCPConnection) (message : Bytes) (nwrote : Nat) : TCPConnection × List Effect :=
  let remaining := message.length - nwrote
  if 0 < remaining then
    let oldLen := c.outputBuffer.length
    let queued : List Effect :=
      if c.highWaterMark ≤ oldLen + remaining ∧ oldLen < c.highWaterMark ∧
          c.highWaterMarkCallback then
        [.queueInLoop (.highWaterMarkCallback (oldLen + remaining))]
      else []
    ({ c with outputBuffer := c.outputBuffer ++ message.drop nwrote,
              channel := if c.channel.isWriting then c.channel else c.channel.enableWriting },
      queued)
  else (c, [])

/-- `result` is what the kernel answers, if a direct write is tried. -/
def sendInLoop (c : TCPConnection) (message : Bytes) (result : WriteResult) :
    TCPConnection × List Effect :=
  if c.state = .kDisconnected then (c, [])
  else if !c.channel.isWriting && c.outputBuffer.isEmpty then
    match result with
    | .wrote nwrote =>
      let queued : List Effect :=
        if message.length - nwrote = 0 ∧ c.writeCompleteCallback then
          [.queueInLoop .writeCompleteCallback]
        else []
      let (c', more) := c.enqueue message nwrote
      (c', .write message result :: queued ++ more)
    | .failed errno =>
      if errno = .EPIPE ∨ errno = .ECONNRESET then (c, [.write message result])
      else
        let (c', more) := c.enqueue message 0
        (c', .write message result :: more)
  else c.enqueue message 0

/-- `send` of a string; `result` is used in the loop thread only. -/
def send (c : TCPConnection) (isInLoopThread : Bool) (message : Bytes) (result : WriteResult) :
    TCPConnection × List Effect :=
  if c.state = .kConnected then
    if isInLoopThread then c.sendInLoop message result
    else (c, [.runInLoop (.sendInLoop message)])
  else (c, [])

def shutdownInLoop (c : TCPConnection) : List Effect :=
  if !c.channel.isWriting then [.shutdownWrite] else []

def shutdown (c : TCPConnection) : TCPConnection × List Effect :=
  if c.state = .kConnected then
    (c.setState .kDisconnecting, [.runInLoop .shutdownInLoop])
  else (c, [])

def forceClose (c : TCPConnection) : TCPConnection × List Effect :=
  if c.state = .kConnected ∨ c.state = .kDisconnecting then
    (c.setState .kDisconnecting, [.queueInLoop .forceCloseInLoop])
  else (c, [])

/-- The timer is to call `forceClose` if the connection still exists by then. -/
def forceCloseWithDelay (c : TCPConnection) : TCPConnection × List Effect :=
  if c.state = .kConnected ∨ c.state = .kDisconnecting then
    (c.setState .kDisconnecting, [.runAfterForceClose])
  else (c, [])

def startReadInLoop (c : TCPConnection) : TCPConnection :=
  if !c.reading || !c.channel.isReading then
    { c with channel := c.channel.enableReading, reading := true }
  else c

def stopReadInLoop (c : TCPConnection) : TCPConnection :=
  if c.reading || c.channel.isReading then
    { c with channel := c.channel.disableReading, reading := false }
  else c

def connectEstablished (c : TCPConnection) : TCPConnection × List Effect :=
  ({ c with state := .kConnected, channel := c.channel.enableReading }, [.connectionCallback])

def connectDestroyed (c : TCPConnection) : TCPConnection × List Effect :=
  if c.state = .kConnected then
    ({ c with state := .kDisconnected, channel := c.channel.disableAll },
      [.connectionCallback, .remove])
  else (c, [.remove])

def handleClose (c : TCPConnection) : TCPConnection × List Effect :=
  ({ c with state := .kDisconnected, channel := c.channel.disableAll },
    [.connectionCallback, .closeCallback])

def forceCloseInLoop (c : TCPConnection) : TCPConnection × List Effect :=
  if c.state = .kConnected ∨ c.state = .kDisconnecting then c.handleClose else (c, [])

/-- `handleError` only reports. -/
def handleRead (c : TCPConnection) (result : ReadResult) : TCPConnection × List Effect :=
  match result with
  | .data chunk => ({ c with inputBuffer := c.inputBuffer ++ chunk }, [.messageCallback])
  | .eof => c.handleClose
  | .failed => (c, [])

/-- `handleWrite` up to its test of `state_`; the flag tells whether it gets there. -/
def drain (c : TCPConnection) (result : WriteResult) : TCPConnection × List Effect × Bool :=
  if c.channel.isWriting then
    match result with
    | .wrote n =>
      if 0 < n then
        let rest := c.outputBuffer.drop n
        if rest.isEmpty then
          ({ c with outputBuffer := rest, channel := c.channel.disableWriting },
            .write c.outputBuffer result ::
              (if c.writeCompleteCallback then [.queueInLoop .writeCompleteCallback] else []), true)
        else ({ c with outputBuffer := rest }, [.write c.outputBuffer result], false)
      else (c, [.write c.outputBuffer result], false)
    | .failed _ => (c, [.write c.outputBuffer result], false)
  else (c, [], false)

/-- The end of `handleWrite` once the output has drained. -/
def afterDrain (c : TCPConnection) : List Effect :=
  if c.state = .kDisconnecting then c.shutdownInLoop else []

def handleWrite (c : TCPConnection) (result : WriteResult) : TCPConnection × List Effect :=
  let (c', es, drained) := c.drain result
  (c', es ++ if drained then c'.afterDrain else [])

end TCPConnection

end Lute
