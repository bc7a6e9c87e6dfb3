import Lute.Polaris.BufferGrowth
import Lute.Polaris.CodecRoundTrip
import Lute.Polaris.TCPConnection

/-! The server that records a stream of 16-bit values, and the chunks in which it gets them. -/
namespace Lute

open Endian

/-- The two-by-two grouping of a sequence. -/
def pairs {α : Type} : List α → List (α × α)
  | [] => []
  | [_] => []
  | x :: y :: rest => (x, y) :: pairs rest

/-- What the grouping leaves over at the end. -/
def leftover {α : Type} : List α → List α
  | [] => []
  | [x] => [x]
  | _ :: _ :: rest => leftover rest

section Pairs

variable {α : Type}

theorem pairs_append (xs ys : List α) :
    pairs (xs ++ ys) = pairs xs ++ pairs (leftover xs ++ ys) := by
  induction xs using pairs.induct with
  | case1 => simp [pairs, leftover]
  | case2 x => simp [pairs, leftover]
  | case3 x y rest ih => simp [pairs, leftover, ih]

theorem leftover_append (xs ys : List α) :
    leftover (xs ++ ys) = leftover (leftover xs ++ ys) := by
  induction xs using pairs.induct with
  | case1 => simp [leftover]
  | case2 x => simp [leftover]
  | case3 x y rest ih => simpa [leftover] using ih

theorem length_leftover_le (xs : List α) : (leftover xs).length ≤ 1 := by
  induction xs using pairs.induct with
  | case1 => simp [leftover]
  | case2 x => simp [leftover]
  | case3 x y rest ih => simpa [leftover] using ih

end Pairs

/-- The number with these two bytes, the more significant one first. -/
def bigEndian16 (p : UInt8 × UInt8) : UInt16 := UInt16.ofNat (256 * p.1.toNat + p.2.toNat)

/-- The big-endian reading of the consecutive pairs of a stream. -/
def decode16 (stream : Bytes) : List UInt16 := (pairs stream).map bigEndian16

/-- What `recvDataFile_` is given for one value: the first byte of the object `c`. -/
def recordOf (host : Order) (c : UInt16) : Bytes := (host.store 2 c.toNat).take 1

/-- One connection of the server, with the values printed and the bytes appended to the file. -/
structure CDN where
  inputBuffer : Buffer
  printed : List UInt16
  recvDataFile : Bytes

namespace CDN

variable (build : Build) (host : Order)

/-- The loop of `onMessage`. -/
def readValues (s : CDN) : Nat → Result CDN
  | 0 => .ok s
  | i + 1 => do
    let (c, b) ← s.inputBuffer.readUint16 build host
    let s' : CDN := ⟨b, s.printed ++ [c], s.recvDataFile ++ recordOf host c⟩
    s'.readValues i

def onMessage (state : StateE) (s : CDN) : Result CDN :=
  if state = .kConnected then
    let len := s.inputBuffer.readableBytes
    s.readValues build host (len / 2)
  else .ok s

/-- `TCPConnection::handleRead` on a connection that is up, when `readv` has delivered `chunk`. -/
def receive (s : CDN) (chunk : Bytes) : Result CDN := do
  let (_, _, b) ← s.inputBuffer.readFd build (.stored chunk)
  onMessage build host .kConnected { s with inputBuffer := b }

/-- The most that one `readv` transfers. -/
def MAX_RW_COUNT : Nat := 0x7ffff000

/-- What `readv` can deliver into a buffer; no bytes at all is the end of the stream. -/
def Delivers (b : Buffer) (chunk : Bytes) : Prop :=
  chunk ≠ [] ∧ chunk.length ≤ b.offered ∧ chunk.length ≤ MAX_RW_COUNT

/-- The messages on one connection. -/
def session : Trace.LTS CDN Bytes where
  init s := Buffer.new build Buffer.kInitialSize = .ok s.inputBuffer ∧ s.printed = [] ∧
    s.recvDataFile = []
  step s chunk t := Delivers s.inputBuffer chunk ∧ s.receive build host chunk = .ok t

end CDN

/-- One value is read off the front. -/
theorem Buffer.readUint16_spec (build : Build) (host : Order) {b : Buffer} {x y : UInt8}
    {rest : Bytes} (h : b.WF) (hc : b.content = x :: y :: rest) :
    ∃ b', b.readUint16 build host = .ok (bigEndian16 (x, y), b') ∧ b'.WF ∧ b'.content = rest ∧
      b'.size = b.size := by
  have hlen := h.length_content
  have hl : 2 ≤ b.readableBytes := by
    rw [← hlen, hc]
    simp
  obtain ⟨b', hb, hwf, hdrop⟩ := Buffer.retrieve_spec build h hl
  have hpeek : b.peekUint16 build host = .ok (bigEndian16 (x, y)) := by
    refine (@Buffer.peekNetwork_eq build host b UInt16 _ h hl).trans ?_
    have htake : b.content.take (FixedWidth.width UInt16) = [x, y] := by
      rw [hc]
      rfl
    have hval : value [y, x] = 256 * x.toNat + y.toNat := by
      simp [value, Nat.ofDigits]
      omega
    rw [htake]
    exact congrArg (fun n => Except.ok (UInt16.ofNat n)) hval
  refine ⟨b', ?_, hwf, by rw [hdrop, hc]; rfl, Buffer.size_retrieve hb⟩
  rw [Buffer.readUint16, Buffer.peekThenRetrieve, hpeek, ok_bind, Buffer.retrieveUint16, hb]
  rfl

namespace CDN

variable {build : Build} {host : Order} {s t : CDN} {c chunk : Bytes} {chunks : List Bytes}

/-- The loop prints and records all the pairs it finds, and leaves an odd byte. -/
theorem readValues_spec (build : Build) (host : Order) (hwf : s.inputBuffer.WF)
    (hc : s.inputBuffer.content = c) :
    ∃ b, s.readValues build host (c.length / 2) =
        .ok ⟨b, s.printed ++ decode16 c,
          s.recvDataFile ++ (decode16 c).flatMap (recordOf host)⟩ ∧
      b.WF ∧ b.content = leftover c ∧ b.size = s.inputBuffer.size := by
  induction c using pairs.induct generalizing s with
  | case1 => exact ⟨s.inputBuffer, by simp [readValues, decode16, pairs], hwf, hc, rfl⟩
  | case2 x => exact ⟨s.inputBuffer, by simp [readValues, decode16, pairs], hwf, hc, rfl⟩
  | case3 x y rest ih =>
    obtain ⟨b₁, hb₁, hwf₁, hc₁, hsize₁⟩ := Buffer.readUint16_spec build host hwf hc
    let s₁ : CDN := ⟨b₁, s.printed ++ [bigEndian16 (x, y)],
      s.recvDataFile ++ recordOf host (bigEndian16 (x, y))⟩
    obtain ⟨b, hb, hwf', hc', hsize⟩ := @ih s₁ hwf₁ hc₁
    have hhalf : (x :: y :: rest).length / 2 = rest.length / 2 + 1 := by
      rw [List.length_cons, List.length_cons]
      omega
    refine ⟨b, ?_, hwf', hc', hsize.trans hsize₁⟩
    rw [hhalf, readValues, hb₁, ok_bind]
    refine hb.trans ?_
    simp [s₁, decode16, pairs]

theorem onMessage_spec (build : Build) (host : Order) (hwf : s.inputBuffer.WF) :
    ∃ b, s.onMessage build host .kConnected =
        .ok ⟨b, s.printed ++ decode16 s.inputBuffer.content,
          s.recvDataFile ++ (decode16 s.inputBuffer.content).flatMap (recordOf host)⟩ ∧
      b.WF ∧ b.content = leftover s.inputBuffer.content ∧ b.size = s.inputBuffer.size := by
  have hspec := readValues_spec build host hwf rfl
  rwa [hwf.length_content] at hspec

/-- The state of a connection that has received `stream`. -/
structure Received (host : Order) (stream : Bytes) (s : CDN) : Prop where
  wf : s.inputBuffer.WF
  content : s.inputBuffer.content = leftover stream
  printed : s.printed = decode16 stream
  recorded : s.recvDataFile = (decode16 stream).flatMap (recordOf host)
  size : s.inputBuffer.size < 2 ^ 33

/-- A chunk of any length that can be delivered is taken in: with an odd byte at most in it, the
buffer never becomes too long for its vector. -/
theorem receive_spec (build : Build) {stream : Bytes} (hr : Received host stream s)
    (hd : Delivers s.inputBuffer chunk) :
    ∃ t, s.receive build host chunk = .ok t ∧ Received host (stream ++ chunk) t := by
  obtain ⟨-, hoffered, hmax⟩ := hd
  have hone : s.inputBuffer.readableBytes ≤ 1 := by
    rw [← hr.wf.length_content, hr.content]
    exact length_leftover_le stream
  have hsize := hr.size
  unfold MAX_RW_COUNT at hmax
  rcases Buffer.readFd_stored build hr.wf hoffered with ⟨b₁, hb₁, hwf₁, hc₁⟩ | ⟨hbig, -⟩
  · let s₁ : CDN := { s with inputBuffer := b₁ }
    have hc₁' : s₁.inputBuffer.content = leftover stream ++ chunk := by rw [← hr.content, ← hc₁]
    obtain ⟨b₂, hb₂, hwf₂, hc₂, hsize₂⟩ := @onMessage_spec s₁ build host hwf₁
    rw [hc₁'] at hb₂ hc₂
    have hrun : s.receive build host chunk = s₁.onMessage build host .kConnected := by
      rw [receive, hb₁, ok_bind]
    refine ⟨_, hrun.trans hb₂, hwf₂, ?_, ?_, ?_, ?_⟩
    · exact hc₂.trans (leftover_append stream chunk).symm
    · simp [s₁, hr.printed, decode16, pairs_append stream chunk]
    · simp [s₁, hr.recorded, decode16, pairs_append stream chunk]
    · rw [hsize₂]
      rcases Buffer.size_readFd hr.wf hoffered hb₁ with hsame | hgrow
      · exact hsame.trans_lt hsize
      · unfold Buffer.kCheapPrepend at hgrow
        change b₁.size < _
        omega
  · unfold Buffer.size at hsize
    omega

theorem received_exec (he : (session build host).Exec chunks s) :
    Received host chunks.flatten s := by
  induction he with
  | @start s hi =>
    obtain ⟨hb, hprinted, hfile⟩ := hi
    obtain ⟨b, hb', hwf, hc⟩ := @Buffer.new_spec build Buffer.kInitialSize (by decide)
    obtain rfl := Except.ok.inj (hb.symm.trans hb')
    have hsize := (new_ok (by decide) hb).2
    exact ⟨hwf, hc, hprinted, hfile, hsize.trans_lt (by decide)⟩
  | @snoc chunks s t chunk _ hs ih =>
    obtain ⟨hd, hrun⟩ := hs
    obtain ⟨t', hrun', hr⟩ := receive_spec build ih hd
    obtain rfl := Except.ok.inj (hrun'.symm.trans hrun)
    rwa [List.flatten_append, List.flatten_singleton]

/-- However a stream is cut into chunks, the values printed are the big-endian reading of its
consecutive pairs, an odd byte stays in the buffer, and the file gets the same bytes; and whatever
`readv` delivers next is taken in. -/
theorem segmentation_independent (he : (session build host).Exec chunks s) :
    s.printed = decode16 chunks.flatten ∧
    s.inputBuffer.content = leftover chunks.flatten ∧
    s.recvDataFile = (decode16 chunks.flatten).flatMap (recordOf host) ∧
    (∀ chunks' s', (session build host).Exec chunks' s' → chunks'.flatten = chunks.flatten →
      s'.printed = s.printed ∧ s'.recvDataFile = s.recvDataFile) ∧
    ∀ chunk, Delivers s.inputBuffer chunk → ∃ t, (session build host).step s chunk t := by
  have hr := received_exec he
  refine ⟨hr.printed, hr.content, hr.recorded, fun chunks' s' he' heq => ?_, fun chunk hd => ?_⟩
  · have hr' := received_exec he'
    rw [hr'.printed, hr'.recorded, heq, hr.printed, hr.recorded]
    exact ⟨rfl, rfl⟩
  · obtain ⟨t, hrun, -⟩ := receive_spec build hr hd
    exact ⟨t, hd, hrun⟩

/-- There is always room for a chunk as long as `extrabuf`. -/
theorem delivers_of_le (hne : chunk ≠ []) (hle : chunk.length ≤ Buffer.sizeofExtrabuf)
    (b : Buffer) : Delivers b chunk := by
  unfold Buffer.sizeofExtrabuf at hle
  refine ⟨hne, ?_, ?_⟩
  · unfold Buffer.offered Buffer.iov Buffer.iovcnt Buffer.sizeofExtrabuf
    split_ifs <;> simp <;> omega
  · unfold MAX_RW_COUNT
    omega

/-- Five bytes, cut within the second value. -/
theorem segmentation_independent_odd : ∃ s, (session .debug .little).Exec [[1, 2, 3], [4, 5]] s ∧
    s.printed = [0x102, 0x304] ∧ s.recvDataFile = [2, 4] ∧ s.inputBuffer.content = [5] := by
  obtain ⟨b, hb, -⟩ := @Buffer.new_spec .debug Buffer.kInitialSize (by decide)
  have e₀ : (session .debug .little).Exec [] ⟨b, [], []⟩ := .start ⟨hb, rfl, rfl⟩
  have hnext := (segmentation_independent e₀).2.2.2.2
  obtain ⟨s₁, h₁⟩ := hnext [1, 2, 3] (delivers_of_le (by simp) (by decide) _)
  have e₁ := e₀.snoc h₁
  have hnext₁ := (segmentation_independent e₁).2.2.2.2
  obtain ⟨s₂, h₂⟩ := hnext₁ [4, 5] (delivers_of_le (by simp) (by decide) _)
  have e₂ := e₁.snoc h₂
  obtain ⟨hprinted, hcontent, hfile, -⟩ := segmentation_independent e₂
  exact ⟨s₂, e₂, hprinted, hfile, hcontent⟩

end CDN

end Lute
