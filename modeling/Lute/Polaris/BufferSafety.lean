import Lute.Polaris.Buffer

/-! The representation invariant, and one specification for each operation of the buffer. -/
namespace Lute

@[simp] theorem ok_bind {α β : Type} (a : α) (f : α → Result β) : (Except.ok a >>= f) = f a :=
  rfl

theorem error_bind {α β : Type} (e : Fault) (f : α → Result β) :
    (Except.error e >>= f) = .error e :=
  rfl

@[simp] theorem pure_eq_ok {α : Type} (a : α) : (pure a : Result α) = .ok a :=
  rfl

/-- A computation that came to an end did so in its first part. -/
theorem bind_ok {ε α β : Type} {x : Except ε α} {f : α → Except ε β} {b : β}
    (h : (x >>= f) = .ok b) : ∃ a, x = .ok a ∧ f a = .ok b := by
  cases x with
  | error e => cases h
  | ok a => exact ⟨a, rfl, h⟩

theorem ok_of_toOption {α : Type} {x : Result α} {a : α} (h : x.toOption = some a) :
    x = .ok a := by
  cases x with
  | error e => cases h
  | ok b => exact congrArg Except.ok (Option.some.inj h)

theorem Build.assert_of {build : Build} {p : Prop} [Decidable p] (h : p) :
    build.assert p = .ok () := by
  simp [Build.assert, h]

/-- What comes after an assertion has come past it. -/
theorem Build.assert_bind_ok {build : Build} {p : Prop} [Decidable p] {α : Type}
    {f : Unit → Result α} {r : α} (h : (build.assert p >>= f) = .ok r) : f () = .ok r := by
  unfold Build.assert at h
  split_ifs at h
  · simp [bind, Except.bind] at h
  · exact h

theorem Build.assert_cases (build : Build) (p : Prop) [Decidable p] :
    build.assert p = .ok () ∨ build.assert p = .error .assertion := by
  unfold Build.assert
  split_ifs
  · exact .inr rfl
  · exact .inl rfl

theorem resize_cases (v : Bytes) (n : Nat) :
    n < 2 ^ 63 ∧ resize v n = .ok (Vec.resize v n 0) ∨
      2 ^ 63 ≤ n ∧ resize v n = .error .lengthError := by
  unfold resize maxSize
  split_ifs with h
  · exact .inr ⟨by omega, rfl⟩
  · exact .inl ⟨by omega, rfl⟩

theorem copyTo_cases (v : Bytes) (i : Nat) (d : Bytes) :
    copyTo v i d = .ok (Vec.overwrite v i d) ∨ copyTo v i d = .error .outOfBounds := by
  unfold copyTo
  split_ifs
  · exact .inl rfl
  · exact .inr rfl

theorem resize_of_le {v : Bytes} {n : Nat} (h : n < 2 ^ 63) :
    resize v n = .ok (Vec.resize v n 0) := by
  have : ¬ maxSize < n := by
    unfold maxSize
    omega
  simp [resize, this]

theorem copyTo_of_le {v d : Bytes} {i : Nat} (h : i + d.length ≤ v.length) :
    copyTo v i d = .ok (Vec.overwrite v i d) := by
  simp [copyTo, h]

namespace Buffer

variable (build : Build) {b : Buffer} {len : Nat} {data : Bytes}

/-- What every reachable buffer satisfies. The last clause is the vector's own bound. -/
structure WF (b : Buffer) : Prop where
  reader_le : b.readerIndex ≤ b.writerIndex
  writer_le : b.writerIndex ≤ b.buffer.length
  cheap_le : kCheapPrepend ≤ b.buffer.length
  size_lt : b.buffer.length < 2 ^ 63

/-- `len` more bytes stay within the sizes a vector can have: `len` itself does and, where the
vector has to grow for them, so does its new size. -/
def Fits (b : Buffer) (len : Nat) : Prop :=
  len < 2 ^ 63 ∧
    (b.writableBytes + b.prependableBytes < len + kCheapPrepend → b.writerIndex + len < 2 ^ 63)

instance (b : Buffer) (len : Nat) : Decidable (b.Fits len) :=
  inferInstanceAs (Decidable (_ ∧ _))

/-- Neither of the sums that `makeSpace` forms with `len` leaves the 64 bits of a `size_t`. -/
def Addressable (b : Buffer) (len : Nat) : Prop :=
  len + kCheapPrepend < 2 ^ 64 ∧ b.writerIndex + len < 2 ^ 64

theorem WF.readable (h : b.WF) : b.readableBytes = b.writerIndex - b.readerIndex := by
  have h₁ := h.writer_le
  have h₂ := h.size_lt
  exact Vec.sub_of_le h.reader_le (by omega)

theorem WF.writable (h : b.WF) : b.writableBytes = b.buffer.length - b.writerIndex := by
  have h₂ := h.size_lt
  exact Vec.sub_of_le h.writer_le (by omega)

/-- What `makeSpace` has to start from does not overflow. -/
theorem WF.room (h : b.WF) :
    Vec.add b.writableBytes b.prependableBytes = b.writableBytes + b.prependableBytes := by
  have hwr := h.writable
  have h₁ := h.reader_le
  have h₂ := h.writer_le
  have h₃ := h.size_lt
  unfold prependableBytes
  exact Vec.add_of_lt (by omega)

theorem WF.addressable (h : b.WF) (hl : len < 2 ^ 63) : b.Addressable len := by
  have h₂ := h.writer_le
  have h₃ := h.size_lt
  unfold Addressable kCheapPrepend
  omega

theorem WF.length_content (h : b.WF) : b.content.length = b.readableBytes := by
  rw [content, Vec.length_slice h.writer_le, h.readable]

/-- The comparison with `beginWrite()` never fires: two bytes are there to be found. -/
theorem WF.findCRLF (h : b.WF) :
    b.findCRLF = (Lute.findCRLF b.content).map (b.readerIndex + ·) := by
  cases hf : Lute.findCRLF b.content with
  | none => simp [Buffer.findCRLF, hf]
  | some i =>
    have hne : kCRLF ≠ [] := by decide
    have hle := Search.occurrence_le ((Search.memmem_eq_some_iff hne).mp hf).1 hne
    have hr := h.readable
    have h₁ := h.reader_le
    rw [h.length_content] at hle
    have hlt : b.readerIndex + i ≠ b.writerIndex := by
      simp only [kCRLF, List.length_cons, List.length_nil] at hle
      omega
    simp [Buffer.findCRLF, hf, hlt]

theorem new_spec (hn : kCheapPrepend + len < 2 ^ 63) :
    ∃ b', Buffer.new build len = .ok b' ∧ b'.WF ∧ b'.content = [] := by
  have hadd : Vec.add kCheapPrepend len = kCheapPrepend + len := Vec.add_of_lt (by omega)
  let b' : Buffer := ⟨Vec.resize [] (kCheapPrepend + len) 0, kCheapPrepend, kCheapPrepend⟩
  have hlen : b'.buffer.length = kCheapPrepend + len := Vec.length_resize
  have hwf : b'.WF := ⟨Nat.le_refl _, by rw [hlen]; exact Nat.le_add_right _ _,
    by rw [hlen]; exact Nat.le_add_right _ _, by rw [hlen]; exact hn⟩
  have hr : b'.readableBytes = 0 := by rw [hwf.readable]; exact Nat.sub_self _
  have hw : b'.writableBytes = len := by
    rw [hwf.writable, hlen]
    exact Nat.add_sub_cancel_left _ _
  have hp : b'.prependableBytes = kCheapPrepend := rfl
  refine ⟨b', ?_, hwf, Vec.slice_self⟩
  simp only [Buffer.new, hadd, resize_of_le hn, ok_bind]
  rw [Build.assert_of hr, ok_bind, Build.assert_of hw, ok_bind, Build.assert_of hp]
  rfl

theorem WF.retrieveAll (h : b.WF) : b.retrieveAll.WF :=
  ⟨Nat.le_refl _, h.cheap_le, h.cheap_le, h.size_lt⟩

theorem content_retrieveAll : b.retrieveAll.content = [] :=
  Vec.slice_self

theorem retrieve_spec (h : b.WF) (hl : len ≤ b.readableBytes) :
    ∃ b', b.retrieve build len = .ok b' ∧ b'.WF ∧ b'.content = b.content.drop len := by
  have hr := h.readable
  have h₁ := h.reader_le
  have h₂ := h.writer_le
  have h₃ := h.size_lt
  rw [retrieve, Build.assert_of hl, ok_bind]
  by_cases hlt : len < b.readableBytes
  · have hadd : Vec.add b.readerIndex len = b.readerIndex + len := Vec.add_of_lt (by omega)
    refine ⟨{ b with readerIndex := b.readerIndex + len }, by simp [hlt, hadd], ?_, ?_⟩
    · exact ⟨show b.readerIndex + len ≤ b.writerIndex by omega, h₂, h.cheap_le, h₃⟩
    · rw [content, content, Vec.drop_slice]
  · refine ⟨b.retrieveAll, by simp [hlt], h.retrieveAll, ?_⟩
    rw [content_retrieveAll, List.drop_eq_nil_of_le]
    rw [h.length_content]
    omega

theorem retrieveUntil_spec (h : b.WF) (hl : len ≤ b.readableBytes) :
    ∃ b', b.retrieveUntil build (b.readerIndex + len) = .ok b' ∧ b'.WF ∧
      b'.content = b.content.drop len := by
  have hr := h.readable
  have h₁ := h.reader_le
  have h₂ := h.writer_le
  have h₃ := h.size_lt
  have hstop : b.readerIndex + len ≤ b.writerIndex := by omega
  have hsub : Vec.sub (b.readerIndex + len) b.readerIndex = len := by
    rw [Vec.sub_of_le (Nat.le_add_right _ _) (by omega)]
    omega
  rw [retrieveUntil, Build.assert_of (Nat.le_add_right _ _), ok_bind, Build.assert_of hstop,
    ok_bind, hsub]
  exact retrieve_spec build h hl

theorem retrieveAsString_spec (h : b.WF) (hl : len ≤ b.readableBytes) :
    ∃ b', b.retrieveAsString build len = .ok (b.content.take len, b') ∧ b'.WF ∧
      b'.content = b.content.drop len := by
  obtain ⟨b', hb, hwf, hc⟩ := retrieve_spec build h hl
  have hr := h.readable
  have h₁ := h.reader_le
  refine ⟨b', ?_, hwf, hc⟩
  rw [retrieveAsString, Build.assert_of hl, ok_bind, hb, ok_bind, content,
    Vec.take_slice (by omega)]
  rfl

/-- Both branches of `makeSpace`. In the second one `writableBytes() < len` is what makes
the reader index exceed `kCheapPrepend`. -/
theorem makeSpace_spec (h : b.WF) (hw : b.writableBytes < len) (hf : b.Fits len) :
    ∃ b', b.makeSpace build len = .ok b' ∧ b'.WF ∧ b'.content = b.content ∧
      len ≤ b'.writableBytes := by
  have hr := h.readable
  have hwr := h.writable
  have h₁ := h.reader_le
  have h₂ := h.writer_le
  have h₃ := h.cheap_le
  have h₄ := h.size_lt
  have hsum := h.room
  have hreq : Vec.add len kCheapPrepend = len + kCheapPrepend :=
    Vec.add_of_lt (h.addressable hf.1).1
  by_cases hgrow : b.writableBytes + b.prependableBytes < len + kCheapPrepend
  · have hsize : b.writerIndex + len < 2 ^ 63 := hf.2 hgrow
    have hadd : Vec.add b.writerIndex len = b.writerIndex + len := Vec.add_of_lt (by omega)
    have hlen : (Vec.resize b.buffer (b.writerIndex + len) 0).length = b.writerIndex + len :=
      Vec.length_resize
    have hwf : WF { b with buffer := Vec.resize b.buffer (b.writerIndex + len) 0 } :=
      ⟨h₁, by rw [hlen]; exact Nat.le_add_right _ _, by rw [hlen]; omega, by rw [hlen]; exact hsize⟩
    refine ⟨_, ?_, hwf, ?_, ?_⟩
    · rw [makeSpace, hsum, hreq, if_pos hgrow, hadd, resize_of_le hsize]
      rfl
    · exact Vec.slice_resize h₂ (by omega)
    · rw [hwf.writable]
      show len ≤ _ - b.writerIndex
      rw [hlen]
      omega
  · have hlt : kCheapPrepend < b.readerIndex := by
      unfold prependableBytes at hgrow
      omega
    have hcl := h.length_content
    have hfit : kCheapPrepend + b.content.length ≤ b.buffer.length := by omega
    have hadd : Vec.add kCheapPrepend b.readableBytes = kCheapPrepend + b.readableBytes :=
      Vec.add_of_lt (by omega)
    have hlen : (Vec.overwrite b.buffer kCheapPrepend b.content).length = b.buffer.length :=
      Vec.length_overwrite hfit
    let b' : Buffer := ⟨Vec.overwrite b.buffer kCheapPrepend b.content, kCheapPrepend,
      kCheapPrepend + b.readableBytes⟩
    have hwf : b'.WF := ⟨Nat.le_add_right _ _,
      show kCheapPrepend + b.readableBytes ≤ _ by rw [hlen]; omega,
      show kCheapPrepend ≤ _ by rw [hlen]; exact h₃, show _ < _ by rw [hlen]; exact h₄⟩
    have hread : b.readableBytes = b'.readableBytes := by
      rw [hwf.readable]
      exact (Nat.add_sub_cancel_left _ _).symm
    refine ⟨b', ?_, hwf, ?_, ?_⟩
    · simp only [makeSpace, hsum, hreq, if_neg hgrow, Build.assert_of hlt, ok_bind,
        copyTo_of_le hfit, hadd]
      rw [Build.assert_of hread]
      rfl
    · have hs := Vec.slice_overwrite_self hfit
      rw [hcl] at hs
      exact hs
    · rw [hwf.writable]
      show len ≤ (Vec.overwrite _ _ _).length - (kCheapPrepend + b.readableBytes)
      unfold prependableBytes at hgrow
      rw [hlen]
      omega

theorem ensureWritableBytes_spec (h : b.WF) (hf : b.Fits len) :
    ∃ b', b.ensureWritableBytes build len = .ok b' ∧ b'.WF ∧ b'.content = b.content ∧
      len ≤ b'.writableBytes := by
  by_cases hw : b.writableBytes < len
  · obtain ⟨b', hb, hwf, hc, hle⟩ := makeSpace_spec build h hw hf
    refine ⟨b', ?_, hwf, hc, hle⟩
    simp only [ensureWritableBytes, if_pos hw, hb, ok_bind, Build.assert_of hle, pure_eq_ok]
  · have hle : len ≤ b.writableBytes := Nat.le_of_not_lt hw
    refine ⟨b, ?_, h, rfl, hle⟩
    simp only [ensureWritableBytes, if_neg hw, ok_bind, Build.assert_of hle, pure_eq_ok]

/-- The two ways `makeSpace` can return. -/
theorem makeSpace_ok {build : Build} {b' : Buffer} (hb : b.makeSpace build len = .ok b') :
    (Vec.add b.writableBytes b.prependableBytes < Vec.add len kCheapPrepend ∧
      Vec.add b.writerIndex len < 2 ^ 63 ∧
      b' = { b with buffer := Vec.resize b.buffer (Vec.add b.writerIndex len) 0 }) ∨
    (Vec.add len kCheapPrepend ≤ Vec.add b.writableBytes b.prependableBytes ∧
      kCheapPrepend + b.content.length ≤ b.buffer.length ∧
      b' = ⟨Vec.overwrite b.buffer kCheapPrepend b.content, kCheapPrepend,
        Vec.add kCheapPrepend b.readableBytes⟩) := by
  unfold makeSpace at hb
  split_ifs at hb with hgrow
  · rcases resize_cases b.buffer (Vec.add b.writerIndex len) with ⟨hlt, hr⟩ | ⟨-, hr⟩
    · rw [hr, ok_bind] at hb
      exact .inl ⟨hgrow, hlt, (Except.ok.inj hb).symm⟩
    · rw [hr, error_bind] at hb
      cases hb
  · obtain ⟨v, hv, hb⟩ := bind_ok (Build.assert_bind_ok hb)
    replace hb := Build.assert_bind_ok hb
    unfold copyTo at hv
    split_ifs at hv with hfit
    obtain rfl := Except.ok.inj hv
    exact .inr ⟨Nat.le_of_not_lt hgrow, hfit, (Except.ok.inj hb).symm⟩

theorem ensureWritableBytes_ok {build : Build} {b' : Buffer}
    (hb : b.ensureWritableBytes build len = .ok b') :
    b.writableBytes < len ∧ b.makeSpace build len = .ok b' ∨
      len ≤ b.writableBytes ∧ b' = b := by
  by_cases hw : b.writableBytes < len
  · simp only [ensureWritableBytes, if_pos hw] at hb
    obtain ⟨b₁, hb₁, hb⟩ := bind_ok hb
    replace hb := Build.assert_bind_ok hb
    obtain rfl := Except.ok.inj hb
    exact .inl ⟨hw, hb₁⟩
  · simp only [ensureWritableBytes, if_neg hw, ok_bind] at hb
    replace hb := Build.assert_bind_ok hb
    exact .inr ⟨Nat.le_of_not_lt hw, (Except.ok.inj hb).symm⟩

/-- What a refusal tells of the sums as they were computed. -/
theorem makeSpace_lengthError {build : Build}
    (hb : b.makeSpace build len = .error .lengthError) :
    Vec.add b.writableBytes b.prependableBytes < Vec.add len kCheapPrepend ∧
      2 ^ 63 ≤ Vec.add b.writerIndex len := by
  unfold makeSpace at hb
  split_ifs at hb with hgrow
  · rcases resize_cases b.buffer (Vec.add b.writerIndex len) with ⟨-, hr⟩ | ⟨hbig, -⟩
    · rw [hr, ok_bind] at hb
      cases hb
    · exact ⟨hgrow, hbig⟩
  · rcases build.assert_cases (kCheapPrepend < b.readerIndex) with ha | ha
    · rcases copyTo_cases b.buffer kCheapPrepend b.content with hc | hc
      · rw [ha, ok_bind, hc, ok_bind] at hb
        dsimp only at hb
        obtain ha' | ha' := build.assert_cases (b.readableBytes = readableBytes
          ⟨Vec.overwrite b.buffer kCheapPrepend b.content, kCheapPrepend,
            Vec.add kCheapPrepend b.readableBytes⟩)
        · rw [ha', ok_bind] at hb
          cases hb
        · rw [ha', error_bind] at hb
          cases hb
      · rw [ha, ok_bind, hc, error_bind] at hb
        cases hb
    · rw [ha, error_bind] at hb
      cases hb

theorem ensureWritableBytes_lengthError {build : Build}
    (hb : b.ensureWritableBytes build len = .error .lengthError) :
    Vec.add b.writableBytes b.prependableBytes < Vec.add len kCheapPrepend ∧
      2 ^ 63 ≤ Vec.add b.writerIndex len := by
  by_cases hw : b.writableBytes < len
  · simp only [ensureWritableBytes, if_pos hw] at hb
    cases hs : b.makeSpace build len with
    | ok b' =>
      simp only [hs, ok_bind] at hb
      rcases build.assert_cases (len ≤ b'.writableBytes) with ha | ha
      · rw [ha, ok_bind] at hb
        cases hb
      · rw [ha, error_bind] at hb
        cases hb
    | error e =>
      rw [hs, error_bind] at hb
      obtain rfl := Except.error.inj hb
      exact makeSpace_lengthError hs
  · simp only [ensureWritableBytes, if_neg hw, ok_bind] at hb
    rw [Build.assert_of (Nat.le_of_not_lt hw)] at hb
    cases hb

/-- Without overflow a request is refused exactly where the vector would become too long. -/
theorem ensureWritableBytes_refused (h : b.WF) (ha : b.Addressable len) (hf : ¬ b.Fits len) :
    b.writableBytes < len ∧ 2 ^ 63 ≤ b.writerIndex + len ∧
      b.ensureWritableBytes build len = .error .lengthError := by
  have hwr := h.writable
  have h₁ := h.reader_le
  have h₂ := h.writer_le
  have h₃ := h.size_lt
  have hgrow : b.writableBytes + b.prependableBytes < len + kCheapPrepend ∧
      2 ^ 63 ≤ b.writerIndex + len := by
    unfold Fits prependableBytes at *
    omega
  have hw : b.writableBytes < len := by omega
  have hmax : maxSize < Vec.add b.writerIndex len := by
    rw [Vec.add_of_lt ha.2]
    unfold maxSize
    omega
  refine ⟨hw, hgrow.2, ?_⟩
  have hspace : b.makeSpace build len = .error .lengthError := by
    simp only [makeSpace, h.room, Vec.add_of_lt ha.1, if_pos hgrow.1, resize, if_pos hmax]
    rfl
  simp only [ensureWritableBytes, if_pos hw, hspace]
  rfl

/-- Filling the writable area from its start, then declaring it written. -/
theorem write_spec (h : b.WF) (hl : data.length ≤ b.writableBytes) :
    ∃ b₁ b', b.writeAtBeginWrite data = .ok b₁ ∧ b₁.hasWritten build data.length = .ok b' ∧
      b'.WF ∧ b'.content = b.content ++ data := by
  have hwr := h.writable
  have h₁ := h.reader_le
  have h₂ := h.writer_le
  have h₃ := h.size_lt
  have hfit : b.writerIndex + data.length ≤ b.buffer.length := by omega
  have hlen : (Vec.overwrite b.buffer b.writerIndex data).length = b.buffer.length :=
    Vec.length_overwrite hfit
  let b₁ : Buffer := { b with buffer := Vec.overwrite b.buffer b.writerIndex data }
  have hwf₁ : b₁.WF := ⟨h₁, show _ ≤ _ by rw [hlen]; exact h₂,
    show _ ≤ _ by rw [hlen]; exact h.cheap_le, show _ < _ by rw [hlen]; exact h₃⟩
  have hle : data.length ≤ b₁.writableBytes := by
    rw [hwf₁.writable]
    show _ ≤ (Vec.overwrite _ _ _).length - b.writerIndex
    rw [hlen]
    omega
  have hadd : Vec.add b.writerIndex data.length = b.writerIndex + data.length :=
    Vec.add_of_lt (by omega)
  refine ⟨b₁, { b₁ with writerIndex := b.writerIndex + data.length }, ?_, ?_, ?_, ?_⟩
  · rw [writeAtBeginWrite, copyTo_of_le hfit]
    rfl
  · rw [hasWritten, Build.assert_of hle, ok_bind, ← hadd]
    rfl
  · exact ⟨Nat.le_trans h₁ (Nat.le_add_right _ _), show _ ≤ _ by rw [hlen]; exact hfit,
      hwf₁.cheap_le, hwf₁.size_lt⟩
  · show Vec.slice (Vec.overwrite _ _ _) b.readerIndex (b.writerIndex + data.length) = _
    rw [← Vec.slice_append h₁ (Nat.le_add_right _ _), Vec.slice_overwrite_self hfit,
      Vec.slice_overwrite_left hfit (Nat.le_refl _), content]

theorem append_spec (h : b.WF) (hf : b.Fits data.length) :
    ∃ b', b.append build data = .ok b' ∧ b'.WF ∧ b'.content = b.content ++ data := by
  obtain ⟨b₁, hb₁, hwf₁, hc₁, hle⟩ := ensureWritableBytes_spec build h hf
  obtain ⟨b₂, b', hb₂, hb', hwf', hc'⟩ := write_spec build hwf₁ hle
  refine ⟨b', ?_, hwf', by rw [hc', hc₁]⟩
  rw [append, hb₁, ok_bind, hb₂, ok_bind, hb']

theorem prepend_spec (h : b.WF) (hl : data.length ≤ b.prependableBytes) :
    ∃ b', b.prepend build data = .ok b' ∧ b'.WF ∧ b'.content = data ++ b.content := by
  have h₁ := h.reader_le
  have h₂ := h.writer_le
  have h₃ := h.size_lt
  have hl' : data.length ≤ b.readerIndex := hl
  have hsub : Vec.sub b.readerIndex data.length = b.readerIndex - data.length :=
    Vec.sub_of_le hl' (by omega)
  have hend : b.readerIndex - data.length + data.length = b.readerIndex :=
    Nat.sub_add_cancel hl'
  have hfit : b.readerIndex - data.length + data.length ≤ b.buffer.length := by omega
  have hlen : (Vec.overwrite b.buffer (b.readerIndex - data.length) data).length =
      b.buffer.length := Vec.length_overwrite hfit
  refine ⟨⟨Vec.overwrite b.buffer (b.readerIndex - data.length) data,
    b.readerIndex - data.length, b.writerIndex⟩, ?_, ?_, ?_⟩
  · simp only [prepend, Build.assert_of hl, ok_bind, hsub, copyTo_of_le hfit, pure_eq_ok]
  · exact ⟨Nat.le_trans (Nat.sub_le _ _) h₁, show _ ≤ _ by rw [hlen]; exact h₂,
      show _ ≤ _ by rw [hlen]; exact h.cheap_le, show _ < _ by rw [hlen]; exact h₃⟩
  · have hs := Vec.slice_overwrite_self hfit
    rw [hend] at hs
    rw [content, content, ← Vec.slice_append (Nat.sub_le _ _) h₁, hs,
      Vec.slice_overwrite_right hfit (by omega)]

theorem unwrite_spec (h : b.WF) (hl : len ≤ b.readableBytes) :
    ∃ b', b.unwrite build len = .ok b' ∧ b'.WF ∧
      b'.content = b.content.take (b.content.length - len) := by
  have hr := h.readable
  have h₁ := h.reader_le
  have h₂ := h.writer_le
  have h₃ := h.size_lt
  have hcl := h.length_content
  have hsub : Vec.sub b.writerIndex len = b.writerIndex - len := Vec.sub_of_le (by omega) (by omega)
  refine ⟨{ b with writerIndex := b.writerIndex - len }, ?_, ?_, ?_⟩
  · rw [unwrite, Build.assert_of hl, ok_bind, hsub]
    rfl
  · exact ⟨show b.readerIndex ≤ b.writerIndex - len by omega,
      show b.writerIndex - len ≤ b.buffer.length by omega, h.cheap_le, h₃⟩
  · have hend : b.readerIndex + (b.content.length - len) = b.writerIndex - len := by omega
    rw [content, content] at *
    rw [Vec.take_slice (by omega), hend]

theorem shrink_spec (h : b.WF) (hf : b.Fits (b.readableBytes + len)) :
    ∃ b', b.shrink build len = .ok b' ∧ b'.WF ∧ b'.content = b.content := by
  have hadd : Vec.add b.readableBytes len = b.readableBytes + len :=
    Vec.add_of_lt (by have := hf.1; omega)
  obtain ⟨b', hb, hwf, hc, -⟩ := ensureWritableBytes_spec build h hf
  exact ⟨b', by rw [shrink, hadd, hb], hwf, hc⟩

end Buffer

end Lute
