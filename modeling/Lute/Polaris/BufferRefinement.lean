import Lute.Lib.Trace
import Lute.Polaris.BufferSafety

/-! Runs of calls on a family of buffers, against the same runs on plain byte sequences. -/
namespace Lute

/-- One call on one buffer. `write` is a caller's copy to `beginWrite()` followed by `hasWritten`;
`retrieveUntil len` is called with the pointer `peek() + len`. -/
inductive BufferOp
  | append (data : Bytes)
  | prepend (data : Bytes)
  | ensureWritableBytes (len : Nat)
  | write (data : Bytes)
  | retrieve (len : Nat)
  | retrieveUntil (len : Nat)
  | retrieveAll
  | retrieveAsString (len : Nat)
  | retrieveAllAsString
  | unwrite (len : Nat)
  | shrink (reserve : Nat)

namespace BufferOp

/-- The string the call returns, if it returns one, and the buffer afterwards. -/
def exec (build : Build) : BufferOp → Buffer → Result (Option Bytes × Buffer)
  | append data, b => do return (none, ← b.append build data)
  | prepend data, b => do return (none, ← b.prepend build data)
  | ensureWritableBytes len, b => do return (none, ← b.ensureWritableBytes build len)
  | write data, b => do
      let b₁ ← b.writeAtBeginWrite data
      return (none, ← b₁.hasWritten build data.length)
  | retrieve len, b => do return (none, ← b.retrieve build len)
  | retrieveUntil len, b => do
      return (none, ← b.retrieveUntil build (b.readerIndex + len))
  | retrieveAll, b => return (none, b.retrieveAll)
  | retrieveAsString len, b => do
      let (str, b') ← b.retrieveAsString build len
      return (some str, b')
  | retrieveAllAsString, b => do
      let (str, b') ← b.retrieveAllAsString build
      return (some str, b')
  | unwrite len, b => do return (none, ← b.unwrite build len)
  | shrink reserve, b => do return (none, ← b.shrink build reserve)

/-- The asserted precondition, with all sizes below `2 ^ 63`. -/
def Pre : BufferOp → Buffer → Prop
  | append data, b => b.Fits data.length
  | prepend data, b => data.length ≤ b.prependableBytes
  | ensureWritableBytes len, b => b.Fits len
  | write data, b => data.length ≤ b.writableBytes
  | retrieve len, b | retrieveUntil len, b | retrieveAsString len, b | unwrite len, b =>
      len ≤ b.readableBytes
  | retrieveAll, _ | retrieveAllAsString, _ => True
  | shrink reserve, b => b.Fits (b.readableBytes + reserve)

instance : (o : BufferOp) → (b : Buffer) → Decidable (o.Pre b)
  | append data, b => inferInstanceAs (Decidable (b.Fits data.length))
  | prepend data, b => inferInstanceAs (Decidable (data.length ≤ b.prependableBytes))
  | ensureWritableBytes len, b => inferInstanceAs (Decidable (b.Fits len))
  | write data, b => inferInstanceAs (Decidable (data.length ≤ b.writableBytes))
  | retrieve len, b | retrieveUntil len, b | retrieveAsString len, b | unwrite len, b =>
      inferInstanceAs (Decidable (len ≤ b.readableBytes))
  | retrieveAll, _ | retrieveAllAsString, _ => inferInstanceAs (Decidable True)
  | shrink reserve, b => inferInstanceAs (Decidable (b.Fits (b.readableBytes + reserve)))

/-- What the call does to the sequence of readable bytes. -/
def apply : BufferOp → Bytes → Bytes
  | append data, c | write data, c => c ++ data
  | prepend data, c => data ++ c
  | retrieve len, c | retrieveUntil len, c | retrieveAsString len, c => c.drop len
  | retrieveAll, _ | retrieveAllAsString, _ => []
  | unwrite len, c => c.take (c.length - len)
  | ensureWritableBytes _, c | shrink _, c => c

/-- The string the call returns, in terms of the readable bytes before it. -/
def returned : BufferOp → Bytes → Option Bytes
  | retrieveAsString len, c => some (c.take len)
  | retrieveAllAsString, c => some c
  | _, _ => none

/-- One call: it completes in either build, keeps the invariant, and acts on the content. -/
theorem exec_spec (build : Build) {b : Buffer} (h : b.WF) (o : BufferOp) (hp : o.Pre b) :
    ∃ b', o.exec build b = .ok (o.returned b.content, b') ∧ b'.WF ∧
      b'.content = o.apply b.content := by
  cases o with
  | append data =>
    obtain ⟨b', hb, hr⟩ := Buffer.append_spec build h hp
    exact ⟨b', by simp [exec, hb, returned], hr⟩
  | prepend data =>
    obtain ⟨b', hb, hr⟩ := Buffer.prepend_spec build h hp
    exact ⟨b', by simp [exec, hb, returned], hr⟩
  | ensureWritableBytes len =>
    obtain ⟨b', hb, hwf, hc, -⟩ := Buffer.ensureWritableBytes_spec build h hp
    exact ⟨b', by simp [exec, hb, returned], hwf, hc⟩
  | write data =>
    obtain ⟨b₁, b', hb₁, hb', hr⟩ := Buffer.write_spec build h hp
    exact ⟨b', by simp [exec, hb₁, hb', returned], hr⟩
  | retrieve len =>
    obtain ⟨b', hb, hr⟩ := Buffer.retrieve_spec build h hp
    exact ⟨b', by simp [exec, hb, returned], hr⟩
  | retrieveUntil len =>
    obtain ⟨b', hb, hr⟩ := Buffer.retrieveUntil_spec build h hp
    exact ⟨b', by simp [exec, hb, returned], hr⟩
  | retrieveAll => exact ⟨b.retrieveAll, rfl, h.retrieveAll, Buffer.content_retrieveAll⟩
  | retrieveAsString len =>
    obtain ⟨b', hb, hr⟩ := Buffer.retrieveAsString_spec build h hp
    exact ⟨b', by simp [exec, hb, returned], hr⟩
  | retrieveAllAsString =>
    obtain ⟨b', hb, hwf, hc⟩ := Buffer.retrieveAsString_spec build h (Nat.le_refl _)
    rw [← h.length_content, List.take_length] at hb
    refine ⟨b', ?_, hwf, ?_⟩
    · simp [exec, Buffer.retrieveAllAsString, ← h.length_content, hb, returned]
    · rw [hc, ← h.length_content, List.drop_length, apply]
  | unwrite len =>
    obtain ⟨b', hb, hr⟩ := Buffer.unwrite_spec build h hp
    exact ⟨b', by simp [exec, hb, returned], hr⟩
  | shrink reserve =>
    obtain ⟨b', hb, hr⟩ := Buffer.shrink_spec build h hp
    exact ⟨b', by simp [exec, hb, returned], hr⟩

end BufferOp

/-- A call in a program with buffers named by `ι`. -/
inductive BufferCall (ι : Type)
  | on (i : ι) (o : BufferOp)
  | swap (i j : ι)

section Runs

variable {ι : Type} [DecidableEq ι]

/-- Two cells of a store exchanged. -/
def swapCells {β : Type} (s : ι → β) (i j : ι) : ι → β :=
  Function.update (Function.update s i (s j)) j (s i)

/-- A call on the store, refused outside its precondition. -/
def BufferCall.exec (build : Build) (s : ι → Buffer) : BufferCall ι → Option (ι → Buffer)
  | .on i o =>
      if o.Pre (s i) then (o.exec build (s i)).toOption.map fun r => Function.update s i r.2
      else none
  | .swap i j => some (swapCells s i j)

/-- Every buffer starts from the constructor, each with its own initial size. -/
def bufferLTS (ι : Type) [DecidableEq ι] (build : Build) :
    Trace.LTS (ι → Buffer) (BufferCall ι) where
  init s := ∀ i, ∃ initialSize, Buffer.kCheapPrepend + initialSize < 2 ^ 63 ∧
    Buffer.new build initialSize = .ok (s i)
  step s a t := a.exec build s = some t

def BufferCall.apply : BufferCall ι → (ι → Bytes) → (ι → Bytes)
  | .on i o, c => Function.update c i (o.apply (c i))
  | .swap i j, c => swapCells c i j

/-- The byte sequences after a history, computed without any buffer. -/
def contentsAfter (h : List (BufferCall ι)) : ι → Bytes :=
  h.foldl (fun c a => a.apply c) (fun _ => [])

theorem contentsAfter_snoc (h : List (BufferCall ι)) (a : BufferCall ι) :
    contentsAfter (h ++ [a]) = a.apply (contentsAfter h) := by
  simp [contentsAfter]

/-- The simulation relation between a store of buffers and a store of byte sequences. -/
def Represents (s : ι → Buffer) (c : ι → Bytes) : Prop := ∀ i, (s i).WF ∧ (s i).content = c i

theorem represents_step {build : Build} {s t : ι → Buffer} {c : ι → Bytes} {a : BufferCall ι}
    (hr : Represents s c) (hs : a.exec build s = some t) : Represents t (a.apply c) := by
  intro k
  cases a with
  | on i o =>
    obtain ⟨hwf, hc⟩ := hr i
    by_cases hp : o.Pre (s i)
    · obtain ⟨b', hb, hwf', hc'⟩ := o.exec_spec build hwf hp
      obtain rfl : Function.update s i b' = t := by
        simpa [BufferCall.exec, hp, hb, Except.toOption] using hs
      by_cases hk : k = i
      · subst k
        simpa [BufferCall.apply, ← hc] using And.intro hwf' hc'
      · simpa [BufferCall.apply, hk] using hr k
    · simp [BufferCall.exec, hp] at hs
  | swap i j =>
    obtain rfl : swapCells s i j = t := by simpa [BufferCall.exec] using hs
    by_cases hkj : k = j
    · subst k
      simpa [BufferCall.apply, swapCells] using hr i
    · by_cases hki : k = i
      · subst k
        simpa [BufferCall.apply, swapCells, hkj] using hr j
      · simpa [BufferCall.apply, swapCells, hkj, hki] using hr k

theorem represents_exec {build : Build} {h : List (BufferCall ι)} {s : ι → Buffer}
    (he : (bufferLTS ι build).Exec h s) : Represents s (contentsAfter h) := by
  refine he.induct (I := fun h s => Represents s (contentsAfter h)) ?_ ?_
  · intro s hi i
    obtain ⟨n, hn, hb⟩ := hi i
    obtain ⟨b', hb', hwf, hc⟩ := Buffer.new_spec build hn
    obtain rfl : s i = b' := by simpa [hb] using hb'
    exact ⟨hwf, hc⟩
  · intro h s a t _ hr hs
    rw [contentsAfter_snoc]
    exact represents_step hr hs

/-- Indices stay ordered, the content is that of the abstract run, and every call made within its
precondition completes with its assertions compiled in, returning what the byte sequence says. -/
theorem buffer_refines_bytes (build : Build) {h : List (BufferCall ι)} {s : ι → Buffer}
    (he : (bufferLTS ι build).Exec h s) (i : ι) :
    (s i).readerIndex ≤ (s i).writerIndex ∧ (s i).writerIndex ≤ (s i).buffer.length ∧
      Buffer.kCheapPrepend ≤ (s i).buffer.length ∧
      (s i).content = contentsAfter h i ∧
      ∀ o : BufferOp, o.Pre (s i) →
        ∃ b', o.exec build (s i) = .ok (o.returned (contentsAfter h i), b') := by
  obtain ⟨hwf, hc⟩ := represents_exec he i
  refine ⟨hwf.reader_le, hwf.writer_le, hwf.cheap_le, hc, fun o hp => ?_⟩
  obtain ⟨b', hb, -⟩ := o.exec_spec build hwf hp
  exact ⟨b', hc ▸ hb⟩

end Runs

/-- Growth, compaction, a prepend below `kCheapPrepend` and an exchange in one debug run. -/
theorem buffer_refines_bytes_sample :
    ∃ s : Bool → Buffer,
      (bufferLTS Bool .debug).Exec
        [.on true (.append [1, 2, 3, 4]), .on true (.retrieve 3), .on true (.append [5, 6]),
          .on true (.prepend [7, 8, 9]), .on false (.append [10]), .swap true false] s ∧
      (s false).content = [7, 8, 9, 4, 5, 6] ∧ (s true).content = [10] := by
  obtain ⟨s, hs⟩ := Option.isSome_iff_exists.mp (show Option.isSome (List.foldlM
    (fun s a => BufferCall.exec (ι := Bool) .debug s a) (fun _ => ⟨List.replicate 10 0, 8, 8⟩)
    [.on true (.append [1, 2, 3, 4]), .on true (.retrieve 3), .on true (.append [5, 6]),
      .on true (.prepend [7, 8, 9]), .on false (.append [10]), .swap true false]) from by decide)
  have he := Trace.LTS.exec_of_foldlM (L := bufferLTS Bool .debug) (fun _ _ _ h => h)
    (fun _ => ⟨2, by decide, rfl⟩) hs
  exact ⟨s, he, (buffer_refines_bytes .debug he false).2.2.2.1,
    (buffer_refines_bytes .debug he true).2.2.2.1⟩

end Lute
