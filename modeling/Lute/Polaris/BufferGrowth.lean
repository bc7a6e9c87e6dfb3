import Lute.Polaris.BufferLimits

/-! How far the vector of a buffer grows with what is asked of it. -/
namespace Lute

namespace Buffer

variable {build : Build} {b b' : Buffer} {len : Nat} {data : Bytes}

/-- `buffer_.size()` -/
def size (b : Buffer) : Nat := b.buffer.length

/-- A vector that has to grow had fewer bytes to spare in front than are asked for. -/
theorem size_ensured (h : b.WF) (ha : b.Addressable len)
    (hb : b.ensureWritableBytes build len = .ok b') :
    b.size ≤ b'.size ∧
      (b'.size = b.size ∨ b'.size ≤ b.readableBytes + 2 * len + kCheapPrepend - 1) := by
  rcases ensureWritableBytes_ok hb with ⟨hw, hs⟩ | ⟨-, rfl⟩
  · rcases makeSpace_ok hs with ⟨hgrow, -, rfl⟩ | ⟨-, hfit, rfl⟩
    · have hr := h.readable
      have hwr := h.writable
      have h₁ := h.reader_le
      have h₂ := h.writer_le
      rw [h.room, Vec.add_of_lt ha.1] at hgrow
      have hsize : size { b with buffer := Vec.resize b.buffer (Vec.add b.writerIndex len) 0 } =
          b.writerIndex + len := by
        rw [size, Vec.length_resize, Vec.add_of_lt ha.2]
      unfold prependableBytes at hgrow
      rw [hsize, size]
      omega
    · have hsize : size ⟨Vec.overwrite b.buffer kCheapPrepend b.content, kCheapPrepend,
          Vec.add kCheapPrepend b.readableBytes⟩ = b.size := Vec.length_overwrite hfit
      rw [hsize]
      exact ⟨le_rfl, .inl rfl⟩
  · exact ⟨le_rfl, .inl rfl⟩

theorem size_hasWritten (hb : b.hasWritten build len = .ok b') : b'.size = b.size := by
  unfold hasWritten at hb
  replace hb := Build.assert_bind_ok hb
  obtain rfl := Except.ok.inj hb
  rfl

theorem size_write {b₁ : Buffer} (hb₁ : b.writeAtBeginWrite data = .ok b₁)
    (hb : b₁.hasWritten build len = .ok b') : b'.size = b.size :=
  (size_hasWritten hb).trans (writeAtBeginWrite_frame hb₁).2

/-- A read that does not fit makes the vector grow by what did not, at most. -/
theorem size_readFd (h : b.WF) (hle : data.length ≤ b.offered) {n : Int} {errno : Option Int}
    (hb : b.readFd build (.stored data) = .ok (n, errno, b')) :
    b'.size = b.size ∨ b'.size ≤ b.readableBytes + 2 * data.length + kCheapPrepend - 1 := by
  by_cases hfit : data.length ≤ b.writableBytes
  · obtain ⟨b₁, hb₁, hb⟩ := bind_ok hb
    simp only [if_pos hfit] at hb
    obtain rfl := congrArg (fun r => r.2.2) (Except.ok.inj hb)
    exact .inl (writeAtBeginWrite_frame hb₁).2
  · obtain ⟨b₂, hwf₂, hw₂, hi₂, hc₂, hread⟩ := readFd_spills build h (Nat.lt_of_not_le hfit) hle
    rw [hread] at hb
    obtain ⟨b₃, hb₃, hb⟩ := bind_ok hb
    obtain rfl : b₃ = b' := congrArg (fun r => r.2.2) (Except.ok.inj hb)
    obtain ⟨b₄, hb₄, hb₃⟩ := bind_ok hb₃
    obtain ⟨b₅, hb₅, hb₃⟩ := bind_ok hb₃
    rw [size_write hb₅ hb₃]
    have hlen : (data.drop b.writableBytes).length = data.length - b.writableBytes :=
      List.length_drop
    have hsize : b₂.size = b.size := by
      have hwr := hwf₂.writable
      have hle₂ := hwf₂.writer_le
      unfold size
      omega
    have hreadable : b₂.readableBytes = b.readableBytes + b.writableBytes := by
      rw [← hwf₂.length_content, hc₂, List.length_append, h.length_content, List.length_take]
      omega
    have hsmall : data.length - b.writableBytes < 2 ^ 63 := by
      unfold offered iov iovcnt sizeofExtrabuf at hle
      split_ifs at hle <;> simp at hle <;> omega
    have haddr : b₂.Addressable (data.drop b.writableBytes).length :=
      hwf₂.addressable (by omega)
    rcases (size_ensured hwf₂ haddr hb₄).2 with hsame | hgrow
    · exact .inl (hsame.trans hsize)
    · refine .inr (hgrow.trans ?_)
      omega

theorem size_retrieve (hb : b.retrieve build len = .ok b') : b'.size = b.size := by
  unfold retrieve at hb
  replace hb := Build.assert_bind_ok hb
  split_ifs at hb
  · obtain rfl := Except.ok.inj hb
    rfl
  · obtain rfl := Except.ok.inj hb
    rfl

theorem size_retrieveAsString {str : Bytes} (hb : b.retrieveAsString build len = .ok (str, b')) :
    b'.size = b.size := by
  unfold retrieveAsString at hb
  obtain ⟨b₁, hb₁, hb⟩ := bind_ok (Build.assert_bind_ok hb)
  obtain rfl := (Prod.mk.inj (Except.ok.inj hb)).2
  exact size_retrieve hb₁

theorem size_retrieveUntil {stop : Nat} (hb : b.retrieveUntil build stop = .ok b') :
    b'.size = b.size :=
  size_retrieve (Build.assert_bind_ok (Build.assert_bind_ok hb))

theorem size_unwrite (hb : b.unwrite build len = .ok b') : b'.size = b.size := by
  unfold unwrite at hb
  replace hb := Build.assert_bind_ok hb
  obtain rfl := Except.ok.inj hb
  rfl

theorem size_prepend (hb : b.prepend build data = .ok b') : b'.size = b.size := by
  unfold prepend at hb
  obtain ⟨v, hv, hb⟩ := bind_ok (Build.assert_bind_ok hb)
  obtain rfl := Except.ok.inj hb
  unfold copyTo at hv
  split_ifs at hv with hfit
  obtain rfl := Except.ok.inj hv
  exact Vec.length_overwrite hfit

end Buffer

namespace BufferOp

variable {build : Build} {b b' : Buffer} {o : BufferOp} {r : Option Bytes}

/-- The length for which the call asks `ensureWritableBytes`. -/
def request (b : Buffer) : BufferOp → Option Nat
  | append data => some data.length
  | ensureWritableBytes len => some len
  | shrink reserve => some (Vec.add b.readableBytes reserve)
  | _ => none

theorem returned_of_exec {x : Result Buffer}
    (hx : (do return (none, ← x) : Result (Option Bytes × Buffer)) = .ok (r, b')) :
    x = .ok b' := by
  obtain ⟨b₁, hb₁, hx⟩ := bind_ok hx
  obtain rfl := (Prod.mk.inj (Except.ok.inj hx)).2
  exact hb₁

/-- Only a request for space changes the size of the vector. -/
theorem size_exec (h : b.WF) (ha : o.Admitted b) (hb : o.exec build b = .ok (r, b')) :
    b.size ≤ b'.size ∧ (b'.size = b.size ∨ ∃ len, o.request b = some len ∧
      b'.size ≤ b.readableBytes + 2 * len + Buffer.kCheapPrepend - 1) := by
  have hask : ∀ {b₁ : Buffer} {len : Nat}, b.Addressable len →
      b.ensureWritableBytes build len = .ok b₁ → o.request b = some len →
      b.size ≤ b₁.size ∧ (b₁.size = b.size ∨ ∃ len, o.request b = some len ∧
        b₁.size ≤ b.readableBytes + 2 * len + Buffer.kCheapPrepend - 1) := by
    intro b₁ len haddr hb₁ hreq
    obtain ⟨hle, hgrow⟩ := Buffer.size_ensured h haddr hb₁
    exact ⟨hle, hgrow.imp_right fun hbound => ⟨len, hreq, hbound⟩⟩
  have hkeep : b'.size = b.size → b.size ≤ b'.size ∧ (b'.size = b.size ∨
      ∃ len, o.request b = some len ∧
        b'.size ≤ b.readableBytes + 2 * len + Buffer.kCheapPrepend - 1) :=
    fun hsize => ⟨hsize.ge, .inl hsize⟩
  cases o with
  | append data =>
    obtain ⟨b₁, hb₁, hb⟩ := bind_ok (returned_of_exec hb)
    obtain ⟨b₂, hb₂, hb⟩ := bind_ok hb
    rw [Buffer.size_write hb₂ hb]
    exact hask ha hb₁ rfl
  | ensureWritableBytes len => exact hask ha (returned_of_exec hb) rfl
  | shrink reserve => exact hask ha (returned_of_exec hb) rfl
  | prepend data => exact hkeep (Buffer.size_prepend (returned_of_exec hb))
  | write data =>
    obtain ⟨b₁, hb₁, hb⟩ := bind_ok hb
    exact hkeep (Buffer.size_write hb₁ (returned_of_exec hb))
  | retrieve len => exact hkeep (Buffer.size_retrieve (returned_of_exec hb))
  | retrieveUntil len => exact hkeep (Buffer.size_retrieveUntil (returned_of_exec hb))
  | retrieveAll =>
    obtain rfl := (Prod.mk.inj (Except.ok.inj hb)).2
    exact hkeep rfl
  | retrieveAsString len =>
    obtain ⟨⟨str, b₁⟩, hb₁, hb⟩ := bind_ok hb
    obtain rfl := (Prod.mk.inj (Except.ok.inj hb)).2
    exact hkeep (Buffer.size_retrieveAsString hb₁)
  | retrieveAllAsString =>
    obtain ⟨⟨str, b₁⟩, hb₁, hb⟩ := bind_ok hb
    obtain rfl := (Prod.mk.inj (Except.ok.inj hb)).2
    exact hkeep (Buffer.size_retrieveAsString hb₁)
  | unwrite len => exact hkeep (Buffer.size_unwrite (returned_of_exec hb))

theorem size_does (h : b.WF) (hd : Does build b o b') :
    b.size ≤ b'.size ∧ (b'.size = b.size ∨ ∃ len, o.request b = some len ∧
      b'.size ≤ b.readableBytes + 2 * len + Buffer.kCheapPrepend - 1) := by
  rcases does_cases h hd with ⟨⟨r, hb⟩, -, -⟩ | rfl
  · exact size_exec h hd.1 hb
  · exact ⟨le_rfl, .inl rfl⟩

end BufferOp

/-- A buffer with the calls of `ensureWritableBytes` that have been made on it: what was readable
then, and for how much they asked. -/
structure MeteredBuffer where
  buffer : Buffer
  requests : List (Nat × Nat)
  deriving DecidableEq, Repr

namespace MeteredBuffer

variable {build : Build} {n : Nat} {s t : MeteredBuffer} {o : BufferOp} {h : List BufferOp}

/-- The request that a call makes, if any. -/
def metered (s : MeteredBuffer) (o : BufferOp) : List (Nat × Nat) :=
  ((o.request s.buffer).map fun len => (s.buffer.readableBytes, len)).toList

def Step (build : Build) (s : MeteredBuffer) (o : BufferOp) (t : MeteredBuffer) : Prop :=
  o.Does build s.buffer t.buffer ∧ t.requests = s.requests ++ s.metered o

def system (build : Build) (initialSize : Nat) : Trace.LTS MeteredBuffer BufferOp where
  init s := Buffer.new build initialSize = .ok s.buffer ∧ s.requests = []
  step := Step build

/-- The size that a vector may be given for a request. -/
def allowance (r : Nat × Nat) : Nat := r.1 + 2 * r.2 + Buffer.kCheapPrepend - 1

/-- The largest of these, and the size that the vector was made with. -/
def bound (n : Nat) (requests : List (Nat × Nat)) : Nat :=
  requests.foldl (fun m r => max m (allowance r)) (Buffer.kCheapPrepend + n)

theorem bound_snoc (requests : List (Nat × Nat)) (r : Nat × Nat) :
    bound n (requests ++ [r]) = max (bound n requests) (allowance r) := by
  simp [bound]

theorem bound_append_le (requests more : List (Nat × Nat)) :
    bound n requests ≤ bound n (requests ++ more) := by
  induction more using List.reverseRecOn with
  | nil => simp
  | append_singleton more r ih =>
    rw [← List.append_assoc, bound_snoc]
    exact ih.trans (le_max_left _ _)

theorem bound_le {m : Nat} {requests : List (Nat × Nat)} (hn : Buffer.kCheapPrepend + n ≤ m)
    (hall : ∀ r ∈ requests, allowance r ≤ m) : bound n requests ≤ m := by
  induction requests using List.reverseRecOn with
  | nil => exact hn
  | append_singleton requests r ih =>
    rw [bound_snoc]
    exact max_le (ih fun r' hr' => hall r' (by simp [hr'])) (hall r (by simp))

/-- The invariant: the vector is in order and within its bound. -/
structure Inv (n : Nat) (s : MeteredBuffer) : Prop where
  wf : s.buffer.WF
  size : s.buffer.size ≤ bound n s.requests

theorem inv_step (hi : Inv n s) (hs : Step build s o t) : Inv n t := by
  obtain ⟨hd, hreq⟩ := hs
  refine ⟨BufferOp.does_wf hi.wf hd, ?_⟩
  rw [hreq]
  rcases (BufferOp.size_does hi.wf hd).2 with hsame | ⟨len, hlen, hbound⟩
  · rw [hsame]
    exact hi.size.trans (bound_append_le _ _)
  · have hm : s.metered o = [(s.buffer.readableBytes, len)] := by simp [metered, hlen]
    rw [hm, bound_snoc]
    exact hbound.trans (le_max_right _ _)

theorem inv_exec (hn : Buffer.kCheapPrepend + n < 2 ^ 64) (he : (system build n).Exec h s) :
    Inv n s := by
  induction he with
  | @start s hi =>
    obtain ⟨hb, hreq⟩ := hi
    obtain ⟨hwf, hsize⟩ := new_ok hn hb
    refine ⟨hwf, ?_⟩
    rw [hreq]
    exact hsize.le
  | snoc _ hs ih => exact inv_step ih hs

/-- Whatever a program does with a buffer from then on, the vector does not become shorter. -/
theorem size_resume (hwf : s.buffer.WF) (he : ((system build n).resume s).Exec h t) :
    s.buffer.size ≤ t.buffer.size := by
  suffices inv : t.buffer.WF ∧ s.buffer.size ≤ t.buffer.size from inv.2
  induction he with
  | start hi =>
    obtain rfl := hi
    exact ⟨hwf, le_rfl⟩
  | snoc _ hs ih =>
    obtain ⟨hd, -⟩ := hs
    exact ⟨BufferOp.does_wf ih.1 hd, ih.2.trans (BufferOp.size_does ih.1 hd).1⟩

/-- The vector of a buffer never shrinks, and never grows over what the largest request has allowed
it; the calls this is about include all those with sizes below `2 ^ 62`. -/
theorem storage_bounded (hn : Buffer.kCheapPrepend + n < 2 ^ 64)
    (he : (system build n).Exec h s) :
    s.buffer.size ≤ bound n s.requests ∧
    (∀ h' t, ((system build n).resume s).Exec h' t → s.buffer.size ≤ t.buffer.size) ∧
    (∀ backlog chunk, (∀ r ∈ s.requests, r.1 ≤ backlog ∧ r.2 ≤ chunk) → s.buffer.size ≤
      max (Buffer.kCheapPrepend + n) (backlog + 2 * chunk + Buffer.kCheapPrepend - 1)) ∧
    (s.buffer.size < 2 ^ 62 → ∀ len < 2 ^ 62, s.buffer.Addressable len ∧
      s.buffer.Addressable (Vec.add s.buffer.readableBytes len)) := by
  obtain ⟨hwf, hsize⟩ := inv_exec hn he
  refine ⟨hsize, fun h' t => size_resume hwf, fun backlog chunk hall => ?_, fun hlt len hlen => ?_⟩
  · refine hsize.trans (bound_le (le_max_left _ _) fun r hr => ?_)
    obtain ⟨h₁, h₂⟩ := hall r hr
    refine le_trans ?_ (le_max_right _ _)
    unfold allowance
    omega
  · have hr := hwf.readable
    have h₂ := hwf.writer_le
    have hsum : Vec.add s.buffer.readableBytes len ≤ s.buffer.readableBytes + len :=
      Nat.mod_le _ _
    unfold Buffer.size at hlt
    unfold Buffer.Addressable Buffer.kCheapPrepend
    omega

/-- Two chunks with a partial read between them: the second one makes the vector grow. -/
theorem storage_bounded_two : ∃ s, (system .debug 2).Exec
    [.append [1, 2, 3, 4], .retrieve 3, .append [5, 6, 7, 8, 9]] s ∧
      s.requests = [(0, 4), (1, 5)] ∧ s.buffer.size = 17 ∧ bound 2 s.requests = 18 ∧
      s.buffer.size ≤ bound 2 s.requests := by
  have e₀ : (system .debug 2).Exec [] ⟨⟨List.replicate 10 0, 8, 8⟩, []⟩ := .start ⟨rfl, rfl⟩
  have s₁ : Step .debug ⟨⟨List.replicate 10 0, 8, 8⟩, []⟩ (.append [1, 2, 3, 4])
      ⟨⟨List.replicate 8 0 ++ [1, 2, 3, 4], 8, 12⟩, [(0, 4)]⟩ :=
    ⟨⟨⟨by decide, by decide⟩, .inl rfl⟩, rfl⟩
  have s₂ : Step .debug ⟨⟨List.replicate 8 0 ++ [1, 2, 3, 4], 8, 12⟩, [(0, 4)]⟩ (.retrieve 3)
      ⟨⟨List.replicate 8 0 ++ [1, 2, 3, 4], 11, 12⟩, [(0, 4)]⟩ :=
    ⟨⟨show 3 ≤ _ by decide, .inl rfl⟩, rfl⟩
  have s₃ : Step .debug ⟨⟨List.replicate 8 0 ++ [1, 2, 3, 4], 11, 12⟩, [(0, 4)]⟩
      (.append [5, 6, 7, 8, 9])
      ⟨⟨List.replicate 8 0 ++ [1, 2, 3, 4, 5, 6, 7, 8, 9], 11, 17⟩, [(0, 4), (1, 5)]⟩ :=
    ⟨⟨⟨by decide, by decide⟩, .inl rfl⟩, rfl⟩
  have e₃ := ((e₀.snoc s₁).snoc s₂).snoc s₃
  exact ⟨_, e₃, rfl, rfl, rfl, (storage_bounded (by decide) e₃).1⟩

end MeteredBuffer

end Lute
