import Lute.Polaris.BufferRefinement

/-! Reading from a descriptor into the writable bytes of a buffer and a second one on the stack. -/
namespace Lute

/-- How `readv` ended: with the bytes it has stored, or -1 and `errno`. -/
inductive Readv
  | stored (bytes : Bytes)
  | failed (errno : Int)
  deriving DecidableEq, Repr

/-- What `readv` puts into each of its vectors, filling one before it goes on to the next. -/
def scatter : List Nat → Bytes → List Bytes
  | [], _ => []
  | len :: lens, bytes => bytes.take len :: scatter lens (bytes.drop len)

namespace Buffer

/-- `sizeof(extrabuf)` -/
def sizeofExtrabuf : Nat := 65536

def iovcnt (b : Buffer) : Nat := if b.writableBytes < sizeofExtrabuf then 2 else 1

/-- The lengths of the vectors given to `readv`. -/
def iov (b : Buffer) : List Nat := [b.writableBytes, sizeofExtrabuf].take b.iovcnt

/-- How many bytes there is room for. -/
def offered (b : Buffer) : Nat := b.iov.foldr (· + ·) 0

/-- What `readFd` returns, what it stores in `savedErrno` if anything, and the buffer afterwards.
Of `extrabuf` only the part that `readv` has filled may be read. -/
def readFd (build : Build) (b : Buffer) : Readv → Result (Int × Option Int × Buffer)
  | .failed errno => return (-1, some errno, b)
  | .stored bytes => do
      let writable := b.writableBytes
      let n := bytes.length
      let b₁ ← b.writeAtBeginWrite ((scatter b.iov bytes).getD 0 [])
      let extrabuf := (scatter b.iov bytes).getD 1 []
      if n ≤ writable then
        return (n, none, { b₁ with writerIndex := Vec.add b₁.writerIndex n })
      else if Vec.sub n writable ≤ extrabuf.length then do
        let b₂ ← { b₁ with writerIndex := b₁.buffer.length }.append build
          (extrabuf.take (Vec.sub n writable))
        return (n, none, b₂)
      else .error .outOfBounds

variable (build : Build) {b : Buffer} {bytes : Bytes} {len : Nat}

theorem writeAtBeginWrite_frame {b₁ : Buffer} (hb : b.writeAtBeginWrite bytes = .ok b₁) :
    b₁.writerIndex = b.writerIndex ∧ b₁.buffer.length = b.buffer.length := by
  obtain ⟨v, hv, hb⟩ := bind_ok hb
  obtain rfl : { b with buffer := v } = b₁ := Except.ok.inj hb
  unfold copyTo at hv
  split_ifs at hv with hfit
  obtain rfl := Except.ok.inj hv
  exact ⟨rfl, Vec.length_overwrite hfit⟩

theorem readFd_fits (h : b.WF) (hle : bytes.length ≤ b.writableBytes) :
    ∃ b', b.readFd build (.stored bytes) = .ok (bytes.length, none, b') ∧ b'.WF ∧
      b'.content = b.content ++ bytes := by
  obtain ⟨b₁, b', hb₁, hb', hwf, hc⟩ := write_spec build h hle
  have hfirst : (scatter b.iov bytes).getD 0 [] = bytes := by
    have htake : bytes.take b.writableBytes = bytes := List.take_of_length_le hle
    unfold iov iovcnt
    split_ifs <;> simp [scatter, htake]
  obtain rfl : { b₁ with writerIndex := Vec.add b₁.writerIndex bytes.length } = b' :=
    Except.ok.inj (Build.assert_bind_ok hb')
  refine ⟨_, ?_, hwf, hc⟩
  simp only [readFd, hfirst, hb₁, ok_bind, if_pos hle, pure_eq_ok]

/-- The buffer has been filled to its end before what is in `extrabuf` is appended. -/
theorem readFd_spills (h : b.WF) (hlt : b.writableBytes < bytes.length)
    (hle : bytes.length ≤ b.offered) :
    ∃ b₂ : Buffer, b₂.WF ∧ b₂.writableBytes = 0 ∧ b₂.writerIndex = b.buffer.length ∧
      b₂.content = b.content ++ bytes.take b.writableBytes ∧
      b.readFd build (.stored bytes) = (do
        let b' ← b₂.append build (bytes.drop b.writableBytes)
        return (bytes.length, none, b')) := by
  have hwr := h.writable
  have h₂ := h.writer_le
  have h₃ := h.size_lt
  -- with one vector no more than the writable bytes could have been read
  have hsmall : b.writableBytes < sizeofExtrabuf := by
    by_contra hbig
    simp only [offered, iov, iovcnt, if_neg hbig] at hle
    simp at hle
    omega
  have hparts : scatter b.iov bytes =
      [bytes.take b.writableBytes, (bytes.drop b.writableBytes).take sizeofExtrabuf] := by
    simp [iov, iovcnt, hsmall, scatter]
  have htotal : bytes.length ≤ b.writableBytes + sizeofExtrabuf := by
    simpa [offered, iov, iovcnt, hsmall] using hle
  have htake : (bytes.take b.writableBytes).length = b.writableBytes := by
    rw [List.length_take]
    omega
  have hdrop : (bytes.drop b.writableBytes).take sizeofExtrabuf = bytes.drop b.writableBytes := by
    refine List.take_of_length_le ?_
    rw [List.length_drop]
    omega
  have hsub : Vec.sub bytes.length b.writableBytes = (bytes.drop b.writableBytes).length := by
    unfold sizeofExtrabuf at hsmall htotal
    rw [Vec.sub_of_le hlt.le (by omega), List.length_drop]
  obtain ⟨b₁, b₂, hb₁, hb₂, hwf, hc⟩ := write_spec build h htake.le
  have hfull : b.writerIndex + (bytes.take b.writableBytes).length = b.buffer.length := by omega
  obtain ⟨hindex, hlen⟩ := writeAtBeginWrite_frame hb₁
  have hadd : Vec.add b₁.writerIndex (bytes.take b.writableBytes).length = b.buffer.length := by
    rw [hindex, Vec.add_of_lt (by omega), hfull]
  have hb₂' : { b₁ with writerIndex := b.buffer.length } = b₂ := by
    rw [← hadd]
    exact Except.ok.inj (Build.assert_bind_ok hb₂)
  obtain rfl := hb₂'
  refine ⟨_, hwf, ?_, rfl, hc, ?_⟩
  · rw [hwf.writable]
    show b₁.buffer.length - b.buffer.length = 0
    omega
  · simp only [readFd, hparts, List.getD_cons_zero, List.getD_cons_succ, hb₁, ok_bind,
      if_neg (Nat.not_le.mpr hlt), hdrop, hsub, le_refl, if_true, List.take_length, hlen]

/-- A read appends what it has delivered; only a vector that would become too long stops it. -/
theorem readFd_stored (h : b.WF) (hle : bytes.length ≤ b.offered) :
    (∃ b', b.readFd build (.stored bytes) = .ok (bytes.length, none, b') ∧ b'.WF ∧
        b'.content = b.content ++ bytes) ∨
      (2 ^ 63 ≤ b.buffer.length + (bytes.length - b.writableBytes) ∧
        b.readFd build (.stored bytes) = .error .lengthError) := by
  by_cases hfit : bytes.length ≤ b.writableBytes
  · exact .inl (readFd_fits build h hfit)
  · have hlt : b.writableBytes < bytes.length := Nat.lt_of_not_le hfit
    obtain ⟨b₂, hwf₂, hw₂, hi₂, hc₂, hread⟩ := readFd_spills build h hlt hle
    have hlen : (bytes.drop b.writableBytes).length = bytes.length - b.writableBytes :=
      List.length_drop
    by_cases hf : b₂.Fits (bytes.drop b.writableBytes).length
    · obtain ⟨b', hb', hwf', hc'⟩ := append_spec build hwf₂ hf
      refine .inl ⟨b', ?_, hwf', ?_⟩
      · rw [hread, hb']
        rfl
      · rw [hc', hc₂, List.append_assoc, List.take_append_drop]
    · have hbound : bytes.length - b.writableBytes ≤ sizeofExtrabuf := by
        unfold offered iov iovcnt at hle
        split_ifs at hle <;> simp at hle <;> omega
      unfold sizeofExtrabuf at hbound
      have haddr : b₂.Addressable (bytes.drop b.writableBytes).length :=
        hwf₂.addressable (by omega)
      obtain ⟨-, hbig, herr⟩ := ensureWritableBytes_refused build hwf₂ haddr hf
      rw [hi₂, hlen] at hbig
      refine .inr ⟨hbig, ?_⟩
      rw [hread, append, herr]
      rfl

end Buffer

/-- The bytes a call takes off the front of the readable ones. -/
def BufferOp.taken : BufferOp → Bytes → Bytes
  | retrieve len, c | retrieveUntil len, c | retrieveAsString len, c => c.take len
  | retrieveAll, c | retrieveAllAsString, c => c
  | _, _ => []

/-- The calls a reader of the stream makes. -/
def BufferOp.IsRetrieve : BufferOp → Prop
  | retrieve _ | retrieveUntil _ | retrieveAsString _ | retrieveAll | retrieveAllAsString => True
  | _ => False

/-- A call on the buffers, with the bytes it takes off, or a read into one of them. -/
inductive InputCall (ι : Type)
  | call (a : BufferCall ι) (bytes : Bytes)
  | readFd (i : ι) (answer : Readv)

section Runs

variable {ι : Type} [DecidableEq ι]

def BufferCall.taken (s : ι → Buffer) : BufferCall ι → Bytes
  | .on i o => o.taken (s i).content
  | .swap _ _ => []

/-- `readv` stores no more than there is room for. -/
def Readv.Possible (b : Buffer) : Readv → Prop
  | .stored bytes => bytes.length ≤ b.offered
  | .failed _ => True

instance (b : Buffer) : (answer : Readv) → Decidable (answer.Possible b)
  | .stored bytes => inferInstanceAs (Decidable (bytes.length ≤ b.offered))
  | .failed _ => inferInstanceAs (Decidable True)

def InputCall.exec (build : Build) (s : ι → Buffer) : InputCall ι → Option (ι → Buffer)
  | .call a bytes => if bytes = a.taken s then a.exec build s else none
  | .readFd i answer =>
      if answer.Possible (s i) then
        ((s i).readFd build answer).toOption.map fun r => Function.update s i r.2.2
      else none

/-- The buffers of a program that also reads into them. -/
def inputLTS (ι : Type) [DecidableEq ι] (build : Build) :
    Trace.LTS (ι → Buffer) (InputCall ι) where
  init := (bufferLTS ι build).init
  step s a t := a.exec build s = some t

def Readv.bytes : Readv → Bytes
  | .stored bytes => bytes
  | .failed _ => []

def InputCall.apply : InputCall ι → (ι → Bytes) → (ι → Bytes)
  | .call a _, c => a.apply c
  | .readFd i answer, c => Function.update c i (c i ++ answer.bytes)

/-- What a step delivers to the buffer `i`, and what it takes from it. -/
def InputCall.delivered (i : ι) : InputCall ι → Bytes
  | .readFd j answer => if j = i then answer.bytes else []
  | .call _ _ => []

def InputCall.takenFrom (i : ι) : InputCall ι → Bytes
  | .call (.on j _) bytes => if j = i then bytes else []
  | _ => []

def received (i : ι) (h : List (InputCall ι)) : Bytes := h.flatMap (InputCall.delivered i)

def consumed (i : ι) (h : List (InputCall ι)) : Bytes := h.flatMap (InputCall.takenFrom i)

/-- The call does not concern the buffer `i`, reads into it or takes bytes from it. -/
def InputCall.Streams (i : ι) : InputCall ι → Prop
  | .call (.on j o) _ => j = i → o.IsRetrieve
  | .call (.swap j k) _ => j ≠ i ∧ k ≠ i
  | .readFd _ _ => True

variable {build : Build} {s t : ι → Buffer} {c : ι → Bytes} {a : InputCall ι}
  {h : List (InputCall ι)} {i : ι}

theorem Buffer.readFd_spec {b b' : Buffer} {answer : Readv} {n : Int} {errno : Option Int}
    (hwf : b.WF) (hp : answer.Possible b) (hr : b.readFd build answer = .ok (n, errno, b')) :
    b'.WF ∧ b'.content = b.content ++ answer.bytes := by
  cases answer with
  | failed e =>
    obtain rfl : b = b' := congrArg (fun r => r.2.2) (Except.ok.inj hr)
    exact ⟨hwf, (List.append_nil _).symm⟩
  | stored bytes =>
    rcases Buffer.readFd_stored build hwf hp with ⟨b₁, hb₁, hspec⟩ | ⟨-, herr⟩
    · rw [hb₁] at hr
      obtain rfl : b₁ = b' := congrArg (fun r => r.2.2) (Except.ok.inj hr)
      exact hspec
    · rw [herr] at hr
      cases hr

theorem represents_input (hr : Represents s c) (hs : a.exec build s = some t) :
    Represents t (a.apply c) := by
  cases a with
  | call a bytes =>
    obtain ⟨-, hs⟩ := Option.ite_none_right_eq_some.mp hs
    exact represents_step hr hs
  | readFd j answer =>
    obtain ⟨hp, hs⟩ := Option.ite_none_right_eq_some.mp hs
    obtain ⟨⟨n, errno, b'⟩, hread, rfl⟩ := Option.map_eq_some_iff.mp hs
    intro k
    by_cases hk : k = j
    · subst k
      obtain ⟨hwf, hc⟩ := hr j
      obtain ⟨hwf', hc'⟩ := Buffer.readFd_spec hwf hp (ok_of_toOption hread)
      simp [InputCall.apply, hwf', hc', hc]
    · simpa [InputCall.apply, hk] using hr k

theorem BufferOp.taken_append_apply {o : BufferOp} (ho : o.IsRetrieve) (c : Bytes) :
    o.taken c ++ o.apply c = c := by
  cases o with
  | retrieve len | retrieveUntil len | retrieveAsString len => exact List.take_append_drop len c
  | retrieveAll | retrieveAllAsString => exact List.append_nil c
  | _ => exact absurd ho id

/-- One step of the stream through the buffer `i`. -/
theorem stream_step (hwf : ∀ k, (s k).WF) (hs : a.exec build s = some t) (hi : a.Streams i) :
    (s i).content ++ a.delivered i = a.takenFrom i ++ (t i).content := by
  have hr : Represents s fun k => (s k).content := fun k => ⟨hwf k, rfl⟩
  rw [(represents_input hr hs i).2]
  cases a with
  | readFd j answer =>
    by_cases hj : j = i
    · subst hj
      simp [InputCall.delivered, InputCall.takenFrom, InputCall.apply]
    · simp [InputCall.delivered, InputCall.takenFrom, InputCall.apply, hj, Ne.symm hj]
  | call a bytes =>
    obtain ⟨hb, -⟩ := Option.ite_none_right_eq_some.mp hs
    cases a with
    | on j o =>
      by_cases hj : j = i
      · subst hj
        have ho := BufferOp.taken_append_apply (hi rfl) (s j).content
        simp [InputCall.delivered, InputCall.takenFrom, InputCall.apply, BufferCall.apply, hb,
          BufferCall.taken, ho]
      · simp [InputCall.delivered, InputCall.takenFrom, InputCall.apply, BufferCall.apply, hj,
          Ne.symm hj]
    | swap j k =>
      obtain ⟨hj, hk⟩ := hi
      simp [InputCall.delivered, InputCall.takenFrom, InputCall.apply, BufferCall.apply, swapCells,
        Ne.symm hj, Ne.symm hk]

theorem input_exec (he : (inputLTS ι build).Exec h s) :
    (∀ k, (s k).WF) ∧
      ((∀ a ∈ h, a.Streams i) → received i h = consumed i h ++ (s i).content) := by
  induction he with
  | start hi =>
    have hr := represents_exec (.start hi)
    refine ⟨fun k => (hr k).1, fun _ => ?_⟩
    exact (hr i).2.symm
  | @snoc h s t a he hs ih =>
    obtain ⟨hwf, hstream⟩ := ih
    have hr : Represents s fun k => (s k).content := fun k => ⟨hwf k, rfl⟩
    refine ⟨fun k => (represents_input hr hs k).1, fun hall => ?_⟩
    have hstep := stream_step hwf hs (hall a (by simp))
    have hprev := hstream fun b hb => hall b (List.mem_append_left _ hb)
    calc received i (h ++ [a]) = received i h ++ a.delivered i := by simp [received]
      _ = consumed i h ++ ((s i).content ++ a.delivered i) := by rw [hprev, List.append_assoc]
      _ = consumed i (h ++ [a]) ++ (t i).content := by
        rw [hstep, ← List.append_assoc]
        simp [consumed]

/-- On every buffer a program can come to, `readFd` appends what `readv` has delivered and nothing
else: a failed `readv` changes nothing, and a vector that would become too long is refused. What a
buffer has received is what has been taken from it and what it still holds, in this order. -/
theorem readFd_appends (he : (inputLTS ι build).Exec h s) (i : ι) :
    (s i).WF ∧
    (∀ errno, (s i).readFd build (.failed errno) = .ok (-1, some errno, s i)) ∧
    (∀ bytes : Bytes, bytes.length ≤ (s i).offered →
      (∃ b', (s i).readFd build (.stored bytes) = .ok (bytes.length, none, b') ∧ b'.WF ∧
          b'.content = (s i).content ++ bytes) ∨
        (2 ^ 63 ≤ (s i).buffer.length + (bytes.length - (s i).writableBytes) ∧
          (s i).readFd build (.stored bytes) = .error .lengthError)) ∧
    ((∀ a ∈ h, a.Streams i) → received i h = consumed i h ++ (s i).content) := by
  obtain ⟨hwf, hstream⟩ := @input_exec ι _ build s h i he
  exact ⟨hwf i, fun _ => rfl, fun _ hle => Buffer.readFd_stored build (hwf i) hle, hstream⟩

end Runs

/-- A read that overflows into the second buffer, and what is left after four bytes are taken. -/
def spillRun : List (InputCall Unit) :=
  [.readFd () (.stored [1, 2]), .call (.on () (.retrieve 1)) [1],
    .readFd () (.stored [3, 4, 5]), .readFd () (.failed 11),
    .call (.on () (.retrieveAsString 2)) [2, 3]]

theorem readFd_appends_spill :
    ∃ s : Unit → Buffer, (inputLTS Unit .debug).Exec spillRun s ∧
      [1, 2, 3, 4, 5] = [1, 2, 3] ++ (s ()).content := by
  obtain ⟨s, hs⟩ := Option.isSome_iff_exists.mp (show Option.isSome (List.foldlM
    (fun s a => InputCall.exec (ι := Unit) .debug s a) (fun _ => ⟨List.replicate 11 0, 8, 8⟩)
    spillRun) from by decide)
  have he := Trace.LTS.exec_of_foldlM (L := inputLTS Unit .debug) (fun _ _ _ h => h)
    (fun _ => ⟨3, by decide, rfl⟩) hs
  have hall : ∀ a ∈ spillRun, a.Streams () := by
    simp [spillRun, InputCall.Streams, BufferOp.IsRetrieve]
  exact ⟨s, he, (readFd_appends he ()).2.2.2 hall⟩

end Lute
