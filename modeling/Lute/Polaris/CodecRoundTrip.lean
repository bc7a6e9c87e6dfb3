import Lute.Polaris.IntCodec

/-! Integers written to a buffer and read back, and read and written back, in any mix of types. -/
namespace Lute

open Endian

namespace Buffer

variable {build : Build} {host : Order} {b b' : Buffer} {data : Bytes}

/-- A conversion that agrees with the type's width lays out the encoding of the number. -/
theorem objectOf_eq {α : Type} [FixedWidth α] (host : Order) (x : α) :
    objectOf host (host.htobe (FixedWidth.width α)) x =
      network (FixedWidth.width α) (FixedWidth.toInt x) := by
  rw [objectOf, store_htobe, network_toInt]

theorem peekNetwork_eq {α : Type} [FixedWidth α] (h : b.WF)
    (hl : FixedWidth.width α ≤ b.readableBytes) :
    b.peekNetwork build host (host.betoh (FixedWidth.width α)) α =
      .ok (FixedWidth.ofBits (value (b.content.take (FixedWidth.width α)).reverse)) := by
  have hr := h.readable
  have h₁ := h.reader_le
  have h₂ := h.writer_le
  have hfit : b.readerIndex + FixedWidth.width α ≤ b.buffer.length := by omega
  have htake : Vec.slice b.buffer b.readerIndex (b.readerIndex + FixedWidth.width α) =
      b.content.take (FixedWidth.width α) := (Vec.take_slice (by omega)).symm
  have hlen : (b.content.take (FixedWidth.width α)).length = FixedWidth.width α := by
    rw [List.length_take, h.length_content]
    omega
  have hload := betoh_load host (b.content.take (FixedWidth.width α))
  rw [hlen] at hload
  rw [peekNetwork, Build.assert_of hl, ok_bind, memcpyFrom, if_pos hfit, ok_bind, htake, hload]
  rfl

theorem charAtPeek_eq (h : b.WF) (hl : 1 ≤ b.readableBytes) :
    ∃ c, b.charAtPeek = .ok c ∧ b.content.take 1 = [c] := by
  have hr := h.readable
  have h₁ := h.reader_le
  have h₂ := h.writer_le
  have hlt : b.readerIndex < b.buffer.length := by omega
  refine ⟨b.buffer[b.readerIndex], by simp [charAtPeek, hlt], ?_⟩
  rw [content, Vec.take_slice (by omega), Vec.slice, Nat.add_sub_cancel_left,
    List.drop_eq_getElem_cons hlt]
  rfl

/-- Where a short append completes, the vector had room for it or could grow. -/
theorem fits_of_append (h : b.WF) (hd : data.length < 2 ^ 63)
    (ha : b.append build data = .ok b') : b.Fits data.length := by
  by_contra hf
  obtain ⟨-, -, herr⟩ := ensureWritableBytes_refused build h (h.addressable hd) hf
  rw [append, herr, error_bind] at ha
  cases ha

/-- Growing leaves the writer index where it is, compaction moves it down. -/
theorem writerIndex_makeSpace {len : Nat} (h : b.WF) (hw : b.writableBytes < len)
    (hlen : len < 2 ^ 63) (hm : b.makeSpace build len = .ok b') :
    b'.writerIndex ≤ b.writerIndex := by
  have hr := h.readable
  have h₁ := h.reader_le
  rcases makeSpace_ok hm with ⟨-, -, rfl⟩ | ⟨hkeep, -, rfl⟩
  · exact Nat.le_refl _
  · rw [h.room, Vec.add_of_lt (h.addressable hlen).1] at hkeep
    have hle : Vec.add kCheapPrepend b.readableBytes ≤ kCheapPrepend + b.readableBytes :=
      Nat.mod_le _ _
    show Vec.add kCheapPrepend b.readableBytes ≤ b.writerIndex
    unfold prependableBytes at hkeep
    omega

theorem writerIndex_ensureWritableBytes {len : Nat} (h : b.WF) (hlen : len < 2 ^ 63)
    (he : b.ensureWritableBytes build len = .ok b') : b'.writerIndex ≤ b.writerIndex := by
  rcases ensureWritableBytes_ok he with ⟨hw, hm⟩ | ⟨-, rfl⟩
  · exact writerIndex_makeSpace h hw hlen hm
  · exact Nat.le_refl _

theorem writerIndex_append (h : b.WF) (hd : data.length < 2 ^ 63)
    (ha : b.append build data = .ok b') : b'.writerIndex ≤ b.writerIndex + data.length := by
  obtain ⟨b₁, hb₁, ha⟩ := bind_ok ha
  obtain ⟨b₂, hb₂, ha⟩ := bind_ok ha
  have hle := writerIndex_ensureWritableBytes h hd hb₁
  obtain ⟨v, -, hb₂⟩ := bind_ok hb₂
  obtain rfl := Except.ok.inj hb₂
  have ha := Build.assert_bind_ok ha
  obtain rfl := Except.ok.inj ha
  exact Nat.le_trans (Nat.mod_le _ _) (Nat.add_le_add_right hle _)

end Buffer

namespace TypedInt

variable {build : Build} {host : Order} {b b' : Buffer}

theorem encoding_int8 (x : Int8) : (int8 x).encoding = [x.toUInt8] := by
  have h : (int8 x).encoding = (bytes 1 x.toUInt8.toNat).reverse := network_toInt x
  simp [h, bytes]

theorem encoding_uint8 (x : UInt8) : (uint8 x).encoding = [x] := by
  have h : (uint8 x).encoding = (bytes 1 x.toNat).reverse := network_toInt x
  simp [h, bytes]

theorem append_eq (v : TypedInt) : v.append build host b = b.append build v.encoding := by
  cases v with
  | int8 x => exact congrArg (b.append build) (encoding_int8 x).symm
  | uint8 x => exact congrArg (b.append build) (encoding_uint8 x).symm
  | int16 x => exact congrArg (b.append build) (Buffer.objectOf_eq host x)
  | int32 x => exact congrArg (b.append build) (Buffer.objectOf_eq host x)
  | int64 x => exact congrArg (b.append build) (Buffer.objectOf_eq host x)
  | uint16 x => exact congrArg (b.append build) (Buffer.objectOf_eq host x)
  | uint32 x => exact congrArg (b.append build) (Buffer.objectOf_eq host x)
  | uint64 x => exact congrArg (b.append build) (Buffer.objectOf_eq host x)

theorem prepend_eq (v : TypedInt) : v.prepend build host b = b.prepend build v.encoding := by
  cases v with
  | int8 x => exact congrArg (b.prepend build) (encoding_int8 x).symm
  | uint8 x => exact congrArg (b.prepend build) (encoding_uint8 x).symm
  | int16 x => exact congrArg (b.prepend build) (Buffer.objectOf_eq host x)
  | int32 x => exact congrArg (b.prepend build) (Buffer.objectOf_eq host x)
  | int64 x => exact congrArg (b.prepend build) (Buffer.objectOf_eq host x)
  | uint16 x => exact congrArg (b.prepend build) (Buffer.objectOf_eq host x)
  | uint32 x => exact congrArg (b.prepend build) (Buffer.objectOf_eq host x)
  | uint64 x => exact congrArg (b.prepend build) (Buffer.objectOf_eq host x)

theorem length_encoding (v : TypedInt) : v.encoding.length = v.type.width := by
  simp [encoding, network]

end TypedInt

namespace IntType

variable {build : Build} {host : Order} {b b' : Buffer} {bs : Bytes}

/-- The value of the type with the given bytes, most significant first. -/
def decode : IntType → Bytes → TypedInt
  | int8, bs => .int8 (FixedWidth.ofBits (value bs.reverse))
  | int16, bs => .int16 (FixedWidth.ofBits (value bs.reverse))
  | int32, bs => .int32 (FixedWidth.ofBits (value bs.reverse))
  | int64, bs => .int64 (FixedWidth.ofBits (value bs.reverse))
  | uint8, bs => .uint8 (FixedWidth.ofBits (value bs.reverse))
  | uint16, bs => .uint16 (FixedWidth.ofBits (value bs.reverse))
  | uint32, bs => .uint32 (FixedWidth.ofBits (value bs.reverse))
  | uint64, bs => .uint64 (FixedWidth.ofBits (value bs.reverse))

theorem decode_encoding (v : TypedInt) : v.type.decode v.encoding = v := by
  cases v with
  | int8 x => exact congrArg _ (ofBits_network x)
  | int16 x => exact congrArg _ (ofBits_network x)
  | int32 x => exact congrArg _ (ofBits_network x)
  | int64 x => exact congrArg _ (ofBits_network x)
  | uint8 x => exact congrArg _ (ofBits_network x)
  | uint16 x => exact congrArg _ (ofBits_network x)
  | uint32 x => exact congrArg _ (ofBits_network x)
  | uint64 x => exact congrArg _ (ofBits_network x)

theorem type_decode (ty : IntType) (bs : Bytes) : (ty.decode bs).type = ty := by
  cases ty <;> rfl

theorem encoding_decode (ty : IntType) (h : bs.length = ty.width) :
    (ty.decode bs).encoding = bs := by
  cases ty with
  | int8 => exact network_ofBits (α := Int8) h
  | int16 => exact network_ofBits (α := Int16) h
  | int32 => exact network_ofBits (α := Int32) h
  | int64 => exact network_ofBits (α := Int64) h
  | uint8 => exact network_ofBits (α := UInt8) h
  | uint16 => exact network_ofBits (α := UInt16) h
  | uint32 => exact network_ofBits (α := UInt32) h
  | uint64 => exact network_ofBits (α := UInt64) h

/-- Peeking decodes the first bytes. -/
theorem peek_eq (ty : IntType) (h : b.WF) (hl : ty.width ≤ b.readableBytes) :
    ty.peek build host b = .ok (ty.decode (b.content.take ty.width)) := by
  have hmulti : ∀ (α : Type) [FixedWidth α] (mk : α → TypedInt),
      FixedWidth.width α ≤ b.readableBytes →
      (do return mk (← b.peekNetwork build host (host.betoh (FixedWidth.width α)) α)) =
        (Except.ok (mk (FixedWidth.ofBits
          (value (b.content.take (FixedWidth.width α)).reverse))) : Result TypedInt) := by
    intro α _ mk hle
    rw [Buffer.peekNetwork_eq h hle]
    rfl
  cases ty with
  | int8 =>
    obtain ⟨c, hc, htake⟩ := Buffer.charAtPeek_eq h hl
    have hdecode : int8.decode [c] = .int8 c.toInt8 := by simp [decode, value, FixedWidth.ofBits]
    rw [show int8.width = 1 from rfl, htake, hdecode]
    simp [peek, Buffer.peekInt8, Build.assert_of (show 1 ≤ b.readableBytes from hl), hc]
  | uint8 =>
    obtain ⟨c, hc, htake⟩ := Buffer.charAtPeek_eq h hl
    have hdecode : uint8.decode [c] = .uint8 c := by simp [decode, value, FixedWidth.ofBits]
    rw [show uint8.width = 1 from rfl, htake, hdecode]
    simp [peek, Buffer.peekUint8, Build.assert_of (show 1 ≤ b.readableBytes from hl), hc]
  | int16 => exact hmulti Int16 .int16 hl
  | int32 => exact hmulti Int32 .int32 hl
  | int64 => exact hmulti Int64 .int64 hl
  | uint16 => exact hmulti UInt16 .uint16 hl
  | uint32 => exact hmulti UInt32 .uint32 hl
  | uint64 => exact hmulti UInt64 .uint64 hl

/-- Reading is peeking, then retrieving the width. -/
theorem read_eq (ty : IntType) : ty.read build host b = do
    let v ← ty.peek build host b
    let b' ← b.retrieve build ty.width
    return (v, b') := by
  have hshape : ∀ (α : Type) (mk : α → TypedInt) (x : Result α) (y : Result Buffer),
      (do
        let (v, b') ← (do
          let v ← x
          let b' ← y
          return (v, b') : Result (α × Buffer))
        return (mk v, b')) = (do
        let v ← (do return mk (← x) : Result TypedInt)
        let b' ← y
        return (v, b') : Result (TypedInt × Buffer)) := by
    intro α mk x y
    cases x with
    | error e => rfl
    | ok v => cases y <;> rfl
  cases ty with
  | int8 => exact hshape _ _ _ _
  | int16 => exact hshape _ _ _ _
  | int32 => exact hshape _ _ _ _
  | int64 => exact hshape _ _ _ _
  | uint8 => exact hshape _ _ _ _
  | uint16 => exact hshape _ _ _ _
  | uint32 => exact hshape _ _ _ _
  | uint64 => exact hshape _ _ _ _

/-- The bytes read stay in front of the reader, or the reader is back at `kCheapPrepend`. -/
theorem prependable_retrieve (ty : IntType) (h : b.WF) (hl : ty.width ≤ b.readableBytes)
    (hr : b.retrieve build ty.width = .ok b') : ty.width ≤ b'.prependableBytes := by
  have hread := h.readable
  have h₁ := h.reader_le
  have h₂ := h.writer_le
  have h₃ := h.size_lt
  rw [Buffer.retrieve, Build.assert_of hl, ok_bind] at hr
  split_ifs at hr with hlt
  · obtain rfl := Except.ok.inj hr
    have hadd : Vec.add b.readerIndex ty.width = b.readerIndex + ty.width :=
      Vec.add_of_lt (by omega)
    show ty.width ≤ Vec.add b.readerIndex ty.width
    omega
  · obtain rfl := Except.ok.inj hr
    show ty.width ≤ Buffer.kCheapPrepend
    cases ty <;> decide

theorem read_spec (build : Build) (host : Order) (ty : IntType) (h : b.WF)
    (hl : ty.width ≤ b.readableBytes) :
    ∃ b', ty.read build host b = .ok (ty.decode (b.content.take ty.width), b') ∧ b'.WF ∧
      b'.content = b.content.drop ty.width ∧ ty.width ≤ b'.prependableBytes := by
  obtain ⟨b', hb, hwf, hc⟩ := Buffer.retrieve_spec build h hl
  refine ⟨b', ?_, hwf, hc, prependable_retrieve ty h hl hb⟩
  rw [read_eq, peek_eq ty h hl, ok_bind, hb, ok_bind]
  rfl

end IntType

section Lists

variable (build : Build) (host : Order)

/-- Values appended one after another. -/
def appendAll (b : Buffer) : List TypedInt → Result Buffer
  | [] => .ok b
  | v :: vs => do
    let b' ← v.append build host b
    appendAll b' vs

/-- Values of the given types read one after another. -/
def readAll (b : Buffer) : List IntType → Result (List TypedInt × Buffer)
  | [] => .ok ([], b)
  | ty :: tys => do
    let (v, b') ← ty.read build host b
    let (vs, b'') ← readAll b' tys
    return (v :: vs, b'')

variable {build host} {b b' : Buffer} {vs : List TypedInt} {v : TypedInt}

theorem width_lt (ty : IntType) : ty.width < 2 ^ 63 := by
  cases ty <;> decide

theorem append_ok (h : b.WF) (ha : v.append build host b = .ok b') :
    b'.WF ∧ b'.content = b.content ++ v.encoding ∧
      b'.writerIndex ≤ b.writerIndex + v.type.width := by
  rw [TypedInt.append_eq] at ha
  have hlen : v.encoding.length < 2 ^ 63 := by
    rw [v.length_encoding]
    exact width_lt _
  have hw := Buffer.writerIndex_append h hlen ha
  rw [v.length_encoding] at hw
  obtain ⟨b₁, hb₁, hwf, hc⟩ := Buffer.append_spec build h (Buffer.fits_of_append h hlen ha)
  obtain rfl : b₁ = b' := by simpa [hb₁] using ha
  exact ⟨hwf, hc, hw⟩

theorem appendAll_ok (h : b.WF) (ha : appendAll build host b vs = .ok b') :
    b'.WF ∧ b'.content = b.content ++ vs.flatMap TypedInt.encoding := by
  induction vs generalizing b with
  | nil =>
    obtain rfl : b = b' := by simpa [appendAll] using ha
    exact ⟨h, by simp⟩
  | cons v vs ih =>
    obtain ⟨b₁, hb₁, ha⟩ := bind_ok ha
    obtain ⟨hwf, hc, -⟩ := append_ok h hb₁
    obtain ⟨hwf', hc'⟩ := ih hwf ha
    exact ⟨hwf', by simp [hc', hc]⟩

/-- The values can be appended as long as the vector's maximal size is not reached. -/
theorem appendAll_total (h : b.WF)
    (hs : b.writerIndex + (vs.map fun v => v.type.width).sum < 2 ^ 63) :
    ∃ b', appendAll build host b vs = .ok b' := by
  induction vs generalizing b with
  | nil => exact ⟨b, rfl⟩
  | cons v vs ih =>
    rw [List.map_cons, List.sum_cons] at hs
    have hfits : b.Fits v.encoding.length := by
      rw [v.length_encoding]
      exact ⟨width_lt _, fun _ => by omega⟩
    obtain ⟨b₁, hb₁, -⟩ := Buffer.append_spec build h hfits
    have hb₁ : v.append build host b = .ok b₁ := by rw [TypedInt.append_eq, hb₁]
    obtain ⟨hwf, -, hw⟩ := append_ok h hb₁
    obtain ⟨b', hb'⟩ := ih hwf (by omega)
    exact ⟨b', by simp [appendAll, hb₁, hb']⟩

/-- A value at the front is what its type reads. -/
theorem read_front {rest : Bytes} (build : Build) (host : Order) (h : b.WF)
    (hc : b.content = v.encoding ++ rest) :
    ∃ b', v.type.read build host b = .ok (v, b') ∧ b'.WF ∧ b'.content = rest := by
  have hl : v.type.width ≤ b.readableBytes := by
    rw [← h.length_content, hc, List.length_append, v.length_encoding]
    omega
  obtain ⟨b', hb', hwf, hc', -⟩ := v.type.read_spec build host h hl
  rw [hc, List.take_left' v.length_encoding, IntType.decode_encoding] at hb'
  rw [hc, List.drop_left' v.length_encoding] at hc'
  exact ⟨b', hb', hwf, hc'⟩

/-- What was appended is read back, in order, and is used up. -/
theorem readAll_spec (build : Build) (host : Order) (h : b.WF)
    (hc : b.content = vs.flatMap TypedInt.encoding) :
    ∃ b', readAll build host b (vs.map TypedInt.type) = .ok (vs, b') ∧ b'.content = [] := by
  induction vs generalizing b with
  | nil => exact ⟨b, rfl, hc⟩
  | cons v vs ih =>
    obtain ⟨b₁, hb₁, hwf, hc₁⟩ := read_front build host h hc
    obtain ⟨b', hb', hc'⟩ := ih hwf hc₁
    exact ⟨b', by simp [readAll, hb₁, hb'], hc'⟩

end Lists

/-- A call in a program with buffers named by `ι` that also stores and loads integers. -/
inductive CodecCall (ι : Type)
  | bytes (call : BufferCall ι)
  | append (i : ι) (v : TypedInt)
  | prepend (i : ι) (v : TypedInt)
  | read (i : ι) (ty : IntType)

section Runs

variable {ι : Type} [DecidableEq ι]

/-- A call on the store, refused outside its precondition. -/
def CodecCall.exec (build : Build) (host : Order) (s : ι → Buffer) :
    CodecCall ι → Option (ι → Buffer)
  | .bytes call => call.exec build s
  | .append i v =>
      if (s i).Fits v.type.width then
        (v.append build host (s i)).toOption.map (Function.update s i)
      else none
  | .prepend i v =>
      if v.type.width ≤ (s i).prependableBytes then
        (v.prepend build host (s i)).toOption.map (Function.update s i)
      else none
  | .read i ty =>
      if ty.width ≤ (s i).readableBytes then
        (ty.read build host (s i)).toOption.map fun r => Function.update s i r.2
      else none

/-- Every buffer starts from the constructor, each with its own initial size. -/
def codecLTS (ι : Type) [DecidableEq ι] (build : Build) (host : Order) :
    Trace.LTS (ι → Buffer) (CodecCall ι) where
  init := (bufferLTS ι build).init
  step s a t := a.exec build host s = some t

/-- The call on bytes that a call on integers amounts to. -/
def CodecCall.lower : CodecCall ι → BufferCall ι
  | .bytes call => call
  | .append i v => .on i (.append v.encoding)
  | .prepend i v => .on i (.prepend v.encoding)
  | .read i ty => .on i (.retrieve ty.width)

theorem CodecCall.exec_lower {build : Build} {host : Order} {s t : ι → Buffer} {a : CodecCall ι}
    (h : a.exec build host s = some t) : a.lower.exec build s = some t := by
  cases a with
  | bytes call => exact h
  | append i v =>
    simp only [CodecCall.exec, TypedInt.append_eq] at h
    split_ifs at h with hf
    have hp : (BufferOp.append v.encoding).Pre (s i) := by
      rw [BufferOp.Pre, v.length_encoding]
      exact hf
    cases hb : (s i).append build v.encoding with
    | error e => simp [hb, Except.toOption] at h
    | ok b => simpa [lower, BufferCall.exec, hp, BufferOp.exec, hb, Except.toOption] using h
  | prepend i v =>
    simp only [CodecCall.exec, TypedInt.prepend_eq] at h
    split_ifs at h with hf
    have hp : (BufferOp.prepend v.encoding).Pre (s i) := by
      rw [BufferOp.Pre, v.length_encoding]
      exact hf
    cases hb : (s i).prepend build v.encoding with
    | error e => simp [hb, Except.toOption] at h
    | ok b => simpa [lower, BufferCall.exec, hp, BufferOp.exec, hb, Except.toOption] using h
  | read i ty =>
    simp only [CodecCall.exec, IntType.read_eq] at h
    split_ifs at h with hf
    have hp : (BufferOp.retrieve ty.width).Pre (s i) := hf
    cases hv : ty.peek build host (s i) with
    | error e => simp [hv, Except.toOption, bind, Except.bind] at h
    | ok v =>
      cases hb : (s i).retrieve build ty.width with
      | error e => simp [hv, hb, Except.toOption, bind, Except.bind] at h
      | ok b =>
        simpa [lower, BufferCall.exec, hp, BufferOp.exec, hv, hb, Except.toOption] using h

/-- Integers bring no buffer about that bytes do not. -/
theorem exec_lower {build : Build} {host : Order} {h : List (CodecCall ι)} {s : ι → Buffer}
    (he : (codecLTS ι build host).Exec h s) :
    (bufferLTS ι build).Exec (h.map CodecCall.lower) s := by
  induction he with
  | start hi => exact .start hi
  | snoc _ hs ih =>
    rw [List.map_append]
    exact ih.snoc (CodecCall.exec_lower hs)

/-- The codec on every buffer a program can reach. What is appended is the big-endian two's
complement of the values and is read back behind the old content; a peek sees what a read returns;
a value read can be put back and a value put in front can be read. -/
theorem network_codec {build : Build} {host : Order} {h : List (CodecCall ι)} {s : ι → Buffer}
    (he : (codecLTS ι build host).Exec h s) (i : ι) :
    (∀ vs : List TypedInt,
      ((s i).writerIndex + (vs.map fun v => v.type.width).sum < 2 ^ 63 →
        ∃ b, appendAll build host (s i) vs = .ok b) ∧
      ∀ b, appendAll build host (s i) vs = .ok b →
        b.content = (s i).content ++ vs.flatMap TypedInt.encoding ∧
        ∃ b₁ b₂, b.retrieve build (s i).content.length = .ok b₁ ∧
          readAll build host b₁ (vs.map TypedInt.type) = .ok (vs, b₂) ∧ b₂.content = []) ∧
    (∀ ty : IntType, ty.width ≤ (s i).content.length →
      ∃ v b₁ b₂, v.type = ty ∧ ty.peek build host (s i) = .ok v ∧
        ty.read build host (s i) = .ok (v, b₁) ∧ v.encoding ++ b₁.content = (s i).content ∧
        ty.width ≤ b₁.prependableBytes ∧
        v.prepend build host b₁ = .ok b₂ ∧ b₂.content = (s i).content) ∧
    ∀ v : TypedInt, v.type.width ≤ (s i).prependableBytes →
      ∃ b₁ b₂, v.prepend build host (s i) = .ok b₁ ∧ b₁.content = v.encoding ++ (s i).content ∧
        v.type.read build host b₁ = .ok (v, b₂) ∧ b₂.content = (s i).content := by
  have hwf := (represents_exec (exec_lower he) i).1
  refine ⟨fun vs => ⟨appendAll_total hwf, fun b hb => ?_⟩, fun ty hl => ?_, fun v hl => ?_⟩
  · obtain ⟨hwf', hc⟩ := appendAll_ok hwf hb
    have hle : (s i).content.length ≤ b.readableBytes := by
      rw [← hwf'.length_content, hc, List.length_append]
      omega
    obtain ⟨b₁, hb₁, hwf₁, hc₁⟩ := Buffer.retrieve_spec build hwf' hle
    rw [hc, List.drop_left] at hc₁
    obtain ⟨b₂, hb₂, hc₂⟩ := readAll_spec build host hwf₁ hc₁
    exact ⟨hc, b₁, b₂, hb₁, hb₂, hc₂⟩
  · have hl' : ty.width ≤ (s i).readableBytes := by rwa [← hwf.length_content]
    have hlen : ((s i).content.take ty.width).length = ty.width := by
      rw [List.length_take]
      omega
    obtain ⟨b₁, hb₁, hwf₁, hc₁, hpre⟩ := ty.read_spec build host hwf hl'
    have henc := ty.encoding_decode hlen
    have hput : (ty.decode ((s i).content.take ty.width)).encoding.length ≤
        b₁.prependableBytes := by
      rw [henc, hlen]
      exact hpre
    obtain ⟨b₂, hb₂, -, hc₂⟩ := Buffer.prepend_spec build hwf₁ hput
    refine ⟨_, b₁, b₂, ty.type_decode _, ty.peek_eq hwf hl', hb₁, ?_, hpre, ?_, ?_⟩
    · rw [henc, hc₁, List.take_append_drop]
    · rw [TypedInt.prepend_eq, hb₂]
    · rw [hc₂, henc, hc₁, List.take_append_drop]
  · have hput : v.encoding.length ≤ (s i).prependableBytes := by rwa [v.length_encoding]
    obtain ⟨b₁, hb₁, hwf₁, hc₁⟩ := Buffer.prepend_spec build hwf hput
    obtain ⟨b₂, hb₂, -, hc₂⟩ := read_front build host hwf₁ hc₁
    exact ⟨b₁, b₂, by rw [TypedInt.prepend_eq, hb₁], hc₁, hb₂, hc₂⟩

end Runs

/-- Integers behind a byte left from an earlier value, on a little-endian machine. -/
theorem network_codec_mixed :
    ∃ s : Unit → Buffer,
      (codecLTS Unit .debug .little).Exec [.append () (.int16 (-2)), .read () .int8] s ∧
      ∃ b, appendAll .debug .little (s ()) [.int32 (-3), .uint8 12] = .ok b ∧
        b.content = [254, 255, 255, 255, 253, 12] ∧
        ∃ b₁ b₂, b.retrieve .debug 1 = .ok b₁ ∧
          readAll .debug .little b₁ [.int32, .uint8] = .ok ([.int32 (-3), .uint8 12], b₂) ∧
          b₂.content = [] := by
  obtain ⟨s, hs⟩ := Option.isSome_iff_exists.mp (show Option.isSome (List.foldlM
    (fun s a => CodecCall.exec (ι := Unit) .debug .little s a)
    (fun _ => ⟨List.replicate 10 0, 8, 8⟩)
    [.append () (.int16 (-2)), .read () .int8]) from by decide)
  have he := Trace.LTS.exec_of_foldlM (L := codecLTS Unit .debug .little) (fun _ _ _ h => h)
    (fun _ => ⟨2, by decide, rfl⟩) hs
  have hw : some 10 = some (s ()).writerIndex :=
    congrArg (Option.map fun s : Unit → Buffer => (s ()).writerIndex) hs
  have hc : (s ()).content = [254] := (represents_exec (exec_lower he) ()).2
  obtain ⟨hroom, hread⟩ := (network_codec he ()).1 [.int32 (-3), .uint8 12]
  obtain ⟨b, hb⟩ := hroom (by rw [← Option.some.inj hw]; decide)
  obtain ⟨hcontent, b₁, b₂, hb₁, hb₂, hempty⟩ := hread b hb
  rw [hc] at hcontent hb₁
  exact ⟨s, he, b, hb, hcontent, b₁, b₂, hb₁, hb₂, hempty⟩

end Lute
