import Lute.Polaris.ReadFd

/-! Requests for space up to the largest `size_t`: which of them a buffer meets or refuses. -/
namespace Lute

/-- A member function on the buffer it is called for; an exception leaves the buffer as it is at
that point. -/
abbrev Member := EStateM Fault Buffer

namespace Member

variable (build : Build)

def lift {α : Type} : Result α → Member α
  | .ok a => pure a
  | .error e => throw e

/-- A function that changes nothing before it can fail. -/
def update (f : Buffer → Result Buffer) : Member Unit := do
  let b ← get
  let b' ← lift (f b)
  set b'

def makeSpace (len : Nat) : Member Unit := do
  let b ← get
  if Vec.add b.writableBytes b.prependableBytes < Vec.add len Buffer.kCheapPrepend then
    let v ← lift (resize b.buffer (Vec.add b.writerIndex len))
    set { b with buffer := v }
  else
    lift (build.assert (Buffer.kCheapPrepend < b.readerIndex))
    let readable := b.readableBytes
    let v ← lift (copyTo b.buffer Buffer.kCheapPrepend b.content)
    set (⟨v, Buffer.kCheapPrepend, Vec.add Buffer.kCheapPrepend readable⟩ : Buffer)
    let b' ← get
    lift (build.assert (readable = b'.readableBytes))

def ensureWritableBytes (len : Nat) : Member Unit := do
  let b ← get
  if b.writableBytes < len then
    makeSpace build len
  let b' ← get
  lift (build.assert (len ≤ b'.writableBytes))

def shrink (reserve : Nat) : Member Unit := do
  let b ← get
  ensureWritableBytes build (Vec.add b.readableBytes reserve)

def append (data : Bytes) : Member Unit := do
  ensureWritableBytes build data.length
  update fun b => b.writeAtBeginWrite data
  update fun b => b.hasWritten build data.length

/-- One call; the string that some of them return is of no interest here. -/
def exec : BufferOp → Member Unit
  | .append data => append build data
  | .ensureWritableBytes len => ensureWritableBytes build len
  | .shrink reserve => shrink build reserve
  | o => update fun b => (o.exec build b).map Prod.snd

/-- The member function ends as `r` says, and a `length_error` finds the buffer unchanged. -/
def Runs (m : Member Unit) (b : Buffer) : Result Buffer → Prop
  | .ok b' => m b = .ok () b'
  | .error e => ∃ b', m b = .error e b' ∧ (e = .lengthError → b' = b)

variable {build} {b : Buffer} {len : Nat}

theorem bind_of_ok {α β : Type} {m : Member α} {f : α → Member β} {b' : Buffer} {a : α}
    (hm : m b = .ok a b') : (m >>= f) b = f a b' := by
  simp only [bind, EStateM.bind, hm]

theorem bind_of_error {α β : Type} {m : Member α} {f : α → Member β} {b' : Buffer} {e : Fault}
    (hm : m b = .error e b') : (m >>= f) b = .error e b' := by
  simp only [bind, EStateM.bind, hm]

theorem get_bind {β : Type} {f : Buffer → Member β} : ((get : Member Buffer) >>= f) b = f b b :=
  rfl

theorem lift_ok {α : Type} {x : Result α} {a : α} (hx : x = .ok a) : lift x b = .ok a b := by
  rw [hx]
  rfl

theorem lift_error {α : Type} {x : Result α} {e : Fault} (hx : x = .error e) :
    lift x b = .error e b := by
  rw [hx]
  rfl

theorem update_runs (f : Buffer → Result Buffer) : Runs (update f) b (f b) := by
  cases hf : f b with
  | ok b' =>
    change update f b = _
    rw [update, get_bind, bind_of_ok (lift_ok hf)]
    rfl
  | error e =>
    refine ⟨b, ?_, fun _ => rfl⟩
    rw [update, get_bind, bind_of_error (lift_error hf)]

/-- `resize` is all that throws, and it comes before any change. -/
theorem makeSpace_runs (build : Build) (len : Nat) :
    Runs (makeSpace build len) b (b.makeSpace build len) := by
  by_cases hgrow : Vec.add b.writableBytes b.prependableBytes < Vec.add len Buffer.kCheapPrepend
  · rw [Buffer.makeSpace, if_pos hgrow]
    rcases resize_cases b.buffer (Vec.add b.writerIndex len) with ⟨-, hr⟩ | ⟨-, hr⟩
    · rw [hr, ok_bind]
      change makeSpace build len b = _
      rw [makeSpace, get_bind, if_pos hgrow, bind_of_ok (lift_ok hr)]
      rfl
    · rw [hr, error_bind]
      refine ⟨b, ?_, fun _ => rfl⟩
      rw [makeSpace, get_bind, if_pos hgrow, bind_of_error (lift_error hr)]
  · rw [Buffer.makeSpace, if_neg hgrow]
    rcases build.assert_cases (Buffer.kCheapPrepend < b.readerIndex) with ha | ha
    · rcases copyTo_cases b.buffer Buffer.kCheapPrepend b.content with hc | hc
      · let b' : Buffer := ⟨Vec.overwrite b.buffer Buffer.kCheapPrepend b.content,
          Buffer.kCheapPrepend, Vec.add Buffer.kCheapPrepend b.readableBytes⟩
        have hmoved : makeSpace build len b =
            lift (build.assert (b.readableBytes = b'.readableBytes)) b' := by
          rw [makeSpace, get_bind, if_neg hgrow, bind_of_ok (lift_ok ha),
            bind_of_ok (lift_ok hc)]
          rfl
        rw [ha, ok_bind, hc, ok_bind]
        change Runs _ b (build.assert (b.readableBytes = b'.readableBytes) >>= fun _ => .ok b')
        rcases build.assert_cases (b.readableBytes = b'.readableBytes) with hb | hb
        · rw [hb, ok_bind]
          exact hmoved.trans (lift_ok hb)
        · rw [hb, error_bind]
          exact ⟨b', hmoved.trans (lift_error hb), by simp⟩
      · rw [ha, ok_bind, hc, error_bind]
        refine ⟨b, ?_, by simp⟩
        rw [makeSpace, get_bind, if_neg hgrow, bind_of_ok (lift_ok ha),
          bind_of_error (lift_error hc)]
    · rw [ha, error_bind]
      refine ⟨b, ?_, by simp⟩
      rw [makeSpace, get_bind, if_neg hgrow, bind_of_error (lift_error ha)]

theorem ensureWritableBytes_runs (build : Build) (len : Nat) :
    Runs (ensureWritableBytes build len) b (b.ensureWritableBytes build len) := by
  by_cases hw : b.writableBytes < len
  · have hspace := @makeSpace_runs b build len
    rw [Buffer.ensureWritableBytes, if_pos hw]
    cases hb : b.makeSpace build len with
    | ok b' =>
      rw [hb] at hspace
      have hrun : ensureWritableBytes build len b =
          lift (build.assert (len ≤ b'.writableBytes)) b' := by
        rw [ensureWritableBytes, get_bind, if_pos hw, bind_of_ok hspace]
        rfl
      change Runs _ b (build.assert (len ≤ b'.writableBytes) >>= fun _ => .ok b')
      rcases build.assert_cases (len ≤ b'.writableBytes) with ha | ha
      · rw [ha, ok_bind]
        exact hrun.trans (lift_ok ha)
      · rw [ha, error_bind]
        exact ⟨b', hrun.trans (lift_error ha), by simp⟩
    | error e =>
      rw [hb] at hspace
      obtain ⟨b', hrun, hsame⟩ := hspace
      rw [error_bind]
      refine ⟨b', ?_, hsame⟩
      rw [ensureWritableBytes, get_bind, if_pos hw, bind_of_error hrun]
  · have hrun : ensureWritableBytes build len b =
        lift (build.assert (len ≤ b.writableBytes)) b := by
      rw [ensureWritableBytes, get_bind, if_neg hw]
      rfl
    have ha : build.assert (len ≤ b.writableBytes) = .ok () :=
      Build.assert_of (Nat.le_of_not_lt hw)
    rw [Buffer.ensureWritableBytes, if_neg hw]
    change Runs _ b (build.assert (len ≤ b.writableBytes) >>= fun _ => .ok b)
    rw [ha, ok_bind]
    exact hrun.trans (lift_ok ha)

theorem shrink_runs (build : Build) (reserve : Nat) :
    Runs (shrink build reserve) b (b.shrink build reserve) :=
  ensureWritableBytes_runs build (Vec.add b.readableBytes reserve)

/-- A first part that runs as `r`, and a second one that throws nothing. -/
theorem Runs.bind {m m' : Member Unit} {r : Result Buffer} {f : Buffer → Result Buffer}
    (hm : Runs m b r)
    (hm' : ∀ b', r = .ok b' → Runs m' b' (f b') ∧ f b' ≠ .error .lengthError) :
    Runs (m >>= fun _ => m') b (r >>= f) := by
  cases r with
  | error e =>
    obtain ⟨b', hrun, hsame⟩ := hm
    exact ⟨b', bind_of_error hrun, hsame⟩
  | ok b₁ =>
    obtain ⟨hnext, hne⟩ := hm' b₁ rfl
    rw [ok_bind]
    cases hf : f b₁ with
    | ok b₂ =>
      rw [hf] at hnext
      exact (bind_of_ok hm).trans hnext
    | error e =>
      rw [hf] at hnext hne
      obtain ⟨b', hrun, -⟩ := hnext
      refine ⟨b', (bind_of_ok hm).trans hrun, ?_⟩
      rintro rfl
      exact absurd rfl hne

theorem writeAtBeginWrite_ne (data : Bytes) : b.writeAtBeginWrite data ≠ .error .lengthError := by
  unfold Buffer.writeAtBeginWrite
  rcases copyTo_cases b.buffer b.writerIndex data with hc | hc
  · rw [hc, ok_bind]
    simp
  · rw [hc, error_bind]
    simp

theorem hasWritten_ne (build : Build) (len : Nat) :
    b.hasWritten build len ≠ .error .lengthError := by
  unfold Buffer.hasWritten
  rcases build.assert_cases (len ≤ b.writableBytes) with ha | ha
  · rw [ha, ok_bind]
    simp
  · rw [ha, error_bind]
    simp

theorem append_runs (build : Build) (data : Bytes) :
    Runs (append build data) b (b.append build data) := by
  have hlast : ∀ b₁ : Buffer, Runs (update fun b => b.hasWritten build data.length) b₁
      (b₁.hasWritten build data.length) := fun _ => update_runs _
  refine Runs.bind (ensureWritableBytes_runs build data.length) fun b₁ _ => ⟨?_, ?_⟩
  · exact Runs.bind (update_runs _) fun b₂ _ => ⟨hlast b₂, hasWritten_ne build _⟩
  · intro herr
    cases hw : b₁.writeAtBeginWrite data with
    | ok b₂ =>
      rw [hw, ok_bind] at herr
      exact hasWritten_ne build _ herr
    | error e =>
      rw [hw, error_bind] at herr
      exact writeAtBeginWrite_ne data (hw.trans herr)

theorem exec_runs (build : Build) (o : BufferOp) :
    Runs (exec build o) b ((o.exec build b).map Prod.snd) := by
  have hsnd : ∀ x : Result Buffer,
      (x >>= fun b' => (.ok (none, b') : Result (Option Bytes × Buffer))).map Prod.snd = x := by
    intro x
    cases x <;> rfl
  cases o with
  | append data =>
    have hrun := @append_runs b build data
    rwa [← hsnd (b.append build data)] at hrun
  | ensureWritableBytes len =>
    have hrun := @ensureWritableBytes_runs b build len
    rwa [← hsnd (b.ensureWritableBytes build len)] at hrun
  | shrink reserve =>
    have hrun := @shrink_runs b build reserve
    rwa [← hsnd (b.shrink build reserve)] at hrun
  | _ => exact update_runs _

end Member

/-- Without overflow a request is met, or refused. -/
theorem Buffer.request_cases (build : Build) {b : Buffer} {len : Nat} (h : b.WF)
    (ha : b.Addressable len) :
    (∃ b', b.ensureWritableBytes build len = .ok b' ∧ b'.WF ∧ b'.content = b.content ∧
        len ≤ b'.writableBytes) ∨
      ¬ b.Fits len ∧ b.ensureWritableBytes build len = .error .lengthError := by
  by_cases hf : b.Fits len
  · exact .inl (ensureWritableBytes_spec build h hf)
  · exact .inr ⟨hf, (ensureWritableBytes_refused build h ha hf).2.2⟩

namespace BufferOp

/-- The asserted precondition, where a request for space may have any length that the sums of
`makeSpace` can take. -/
def Admitted : BufferOp → Buffer → Prop
  | append data, b => b.Addressable data.length
  | ensureWritableBytes len, b => b.Addressable len
  | shrink reserve, b => b.Addressable (Vec.add b.readableBytes reserve)
  | o, b => o.Pre b

/-- A call that returns, or throws `length_error`. -/
def Does (build : Build) (b : Buffer) (o : BufferOp) (b' : Buffer) : Prop :=
  o.Admitted b ∧
    (Member.exec build o b = .ok () b' ∨ Member.exec build o b = .error .lengthError b')

variable {build : Build} {b b' : Buffer} {o : BufferOp}

theorem admitted_spec (build : Build) (h : b.WF) (ha : o.Admitted b) :
    (∃ r b', o.exec build b = .ok (r, b') ∧ b'.WF ∧ b'.content = o.apply b.content) ∨
      o.exec build b = .error .lengthError := by
  have hother : o.Pre b → ∃ r b', o.exec build b = .ok (r, b') ∧ b'.WF ∧
      b'.content = o.apply b.content := by
    intro hp
    obtain ⟨b', hb, hspec⟩ := exec_spec build h o hp
    exact ⟨_, b', hb, hspec⟩
  cases o with
  | append data =>
    rcases Buffer.request_cases build h ha with ⟨b₁, hb₁, hwf₁, hc₁, hle⟩ | ⟨-, herr⟩
    · obtain ⟨b₂, b', hb₂, hb', hwf', hc'⟩ := Buffer.write_spec build hwf₁ hle
      refine .inl ⟨none, b', ?_, hwf', ?_⟩
      · simp only [exec, Buffer.append, hb₁, ok_bind, hb₂, hb', pure_eq_ok]
      · rw [hc', hc₁, apply]
    · refine .inr ?_
      simp only [exec, Buffer.append, herr, error_bind]
  | ensureWritableBytes len =>
    rcases Buffer.request_cases build h ha with ⟨b', hb, hwf, hc, -⟩ | ⟨-, herr⟩
    · exact .inl ⟨none, b', by simp only [exec, hb, ok_bind, pure_eq_ok], hwf, hc⟩
    · refine .inr ?_
      simp only [exec, herr, error_bind]
  | shrink reserve =>
    rcases Buffer.request_cases build h ha with ⟨b', hb, hwf, hc, -⟩ | ⟨-, herr⟩
    · exact .inl ⟨none, b', by simp only [exec, Buffer.shrink, hb, ok_bind, pure_eq_ok], hwf, hc⟩
    · refine .inr ?_
      simp only [exec, Buffer.shrink, herr, error_bind]
  | _ => exact .inl (hother ha)

/-- What such a call leaves: the buffer as the call is meant to leave it or, if it threw, as it
was. -/
theorem does_cases (h : b.WF) (hd : Does build b o b') :
    ((∃ r, o.exec build b = .ok (r, b')) ∧ b'.WF ∧ b'.content = o.apply b.content) ∨ b' = b := by
  obtain ⟨ha, hrun⟩ := hd
  have hruns := @Member.exec_runs b build o
  rcases admitted_spec build h ha with ⟨r, b₁, hb₁, hwf, hc⟩ | herr
  · rw [hb₁] at hruns
    replace hruns : Member.exec build o b = .ok () b₁ := hruns
    rw [hruns] at hrun
    rcases hrun with hrun | hrun
    · obtain rfl : b₁ = b' := by simpa using hrun
      exact .inl ⟨⟨r, hb₁⟩, hwf, hc⟩
    · cases hrun
  · rw [herr] at hruns
    obtain ⟨b₁, hrun₁, hsame⟩ := hruns
    rw [hrun₁] at hrun
    rcases hrun with hrun | hrun
    · cases hrun
    · obtain rfl : b₁ = b' := by simpa using hrun
      exact .inr (hsame rfl)

theorem does_wf (h : b.WF) (hd : Does build b o b') : b'.WF := by
  rcases does_cases h hd with ⟨-, hwf, -⟩ | rfl
  · exact hwf
  · exact h

end BufferOp

namespace Buffer

variable {build : Build} {b b' : Buffer} {len : Nat}

/-- How a request for `len` bytes of space may end: by an exception that leaves the buffer
unchanged, or with the space there, the indices in order and the content as it was. -/
def Sound (b : Buffer) (len : Nat) : EStateM.Result Fault Buffer Unit → Prop
  | .error e b' => e = .lengthError ∧ b' = b
  | .ok _ b' => len ≤ b'.writableBytes ∧ b'.writerIndex ≤ b'.buffer.length ∧
      b'.content = b.content

/-- A vector never has `2 ^ 63` elements. -/
theorem size_ensureWritableBytes (h : b.WF) (hb : b.ensureWritableBytes build len = .ok b') :
    b'.buffer.length < 2 ^ 63 := by
  rcases ensureWritableBytes_ok hb with ⟨-, hs⟩ | ⟨-, rfl⟩
  · rcases makeSpace_ok hs with ⟨-, hlt, rfl⟩ | ⟨-, hfit, rfl⟩
    · exact Vec.length_resize.trans_lt hlt
    · exact (Vec.length_overwrite hfit).trans_lt h.size_lt
  · exact h.size_lt

/-- A length that overflows is not refused: one sum selects the branch that moves the content, or
the other one is the size of a shorter vector. -/
theorem ensureWritableBytes_ne (h : b.WF) (hlen : len < 2 ^ 64) (ha : ¬ b.Addressable len) :
    b.ensureWritableBytes build len ≠ .error .lengthError := by
  intro hb
  obtain ⟨hgrow, hbig⟩ := ensureWritableBytes_lengthError hb
  have hwr := h.writable
  have h₁ := h.reader_le
  have h₂ := h.writer_le
  have h₃ := h.cheap_le
  have h₄ := h.size_lt
  rw [h.room] at hgrow
  unfold Addressable at ha
  unfold Vec.add prependableBytes kCheapPrepend at *
  omega

theorem writableBytes_lt (b : Buffer) : b.writableBytes < 2 ^ 64 :=
  Nat.mod_lt _ (by decide)

/-- A refusal is sound, and it is the only sound end of a request that no vector can meet. -/
theorem sound_of_error (hb : b.ensureWritableBytes build len = .error .lengthError) (n : Nat) :
    Sound b n (Member.ensureWritableBytes build len b) := by
  have hruns := @Member.ensureWritableBytes_runs b build len
  rw [hb] at hruns
  obtain ⟨b', hrun, hsame⟩ := hruns
  rw [hrun]
  exact ⟨rfl, hsame rfl⟩

theorem error_of_sound {n : Nat} (hs : Sound b n (Member.ensureWritableBytes build len b))
    (hno : ∀ b', b.ensureWritableBytes build len = .ok b' →
      ¬ (n ≤ b'.writableBytes ∧ b'.writerIndex ≤ b'.buffer.length)) :
    b.ensureWritableBytes build len = .error .lengthError := by
  have hruns := @Member.ensureWritableBytes_runs b build len
  cases hb : b.ensureWritableBytes build len with
  | ok b' =>
    rw [hb] at hruns
    rw [show Member.ensureWritableBytes build len b = .ok () b' from hruns] at hs
    exact absurd ⟨hs.1, hs.2.1⟩ (hno b' hb)
  | error e =>
    rw [hb] at hruns
    obtain ⟨b', hrun, -⟩ := hruns
    rw [hrun] at hs
    rw [hs.1]

/-- A request ends soundly exactly if neither sum overflows. -/
theorem sound_iff (build : Build) (h : b.WF) (hlen : len < 2 ^ 64) :
    Sound b len (Member.ensureWritableBytes build len b) ↔ b.Addressable len := by
  constructor
  · intro hs
    by_contra ha
    -- so long a request could only be refused
    have hbig : 2 ^ 63 ≤ len := by
      have hlt := mt h.addressable ha
      omega
    refine ensureWritableBytes_ne h hlen ha (error_of_sound hs ?_)
    rintro b' hb ⟨hle, hindex⟩
    have hsize := size_ensureWritableBytes h hb
    rw [writableBytes, Vec.sub_of_le hindex (by omega)] at hle
    omega
  · intro ha
    rcases request_cases build h ha with ⟨b', hb, hwf, hc, hle⟩ | ⟨-, herr⟩
    · have hruns := @Member.ensureWritableBytes_runs b build len
      rw [hb] at hruns
      rw [show Member.ensureWritableBytes build len b = .ok () b' from hruns]
      exact ⟨hle, hwf.writer_le, hc⟩
    · exact sound_of_error herr len

/-- `shrink` asks for the sum of the readable bytes and `reserve`. Where that sum overflows, what is
left of it is refused, or too little is got. -/
theorem shrink_sound_iff (build : Build) (h : b.WF) {reserve : Nat} (hres : reserve < 2 ^ 64) :
    Sound b (b.readableBytes + reserve) (Member.shrink build reserve b) ↔
      if b.readableBytes + reserve < 2 ^ 64 then b.Addressable (b.readableBytes + reserve)
      else ¬ b.Fits (Vec.add b.readableBytes reserve) := by
  change Sound b _ (Member.ensureWritableBytes build (Vec.add b.readableBytes reserve) b) ↔ _
  split_ifs with hsum
  · rw [Vec.add_of_lt hsum]
    exact sound_iff build h hsum
  · have hr := h.readable
    have h₂ := h.writer_le
    have h₃ := h.size_lt
    have hrest : Vec.add b.readableBytes reserve < 2 ^ 63 := by
      unfold Vec.add
      omega
    constructor
    · intro hs hf
      obtain ⟨b', hb, -⟩ := ensureWritableBytes_spec build h hf
      have herr := error_of_sound hs fun b₁ _ hle => by
        have hlt := b₁.writableBytes_lt
        omega
      cases hb.symm.trans herr
    · intro hf
      exact sound_of_error (ensureWritableBytes_refused build h (h.addressable hrest) hf).2.2 _

end Buffer

/-- A call in a program with buffers named by `ι`, which also reads into them. -/
inductive SpaceCall (ι : Type)
  | on (i : ι) (o : BufferOp)
  | swap (i j : ι)
  | readFd (i : ι) (answer : Readv)

section Runs

variable {ι : Type} [DecidableEq ι]

inductive SpaceCall.Step (build : Build) : (ι → Buffer) → SpaceCall ι → (ι → Buffer) → Prop
  | on {s : ι → Buffer} {i : ι} {o : BufferOp} {b : Buffer} (hd : o.Does build (s i) b) :
      Step build s (.on i o) (Function.update s i b)
  | swap {s : ι → Buffer} {i j : ι} : Step build s (.swap i j) (swapCells s i j)
  | readFd {s : ι → Buffer} {i : ι} {answer : Readv} {n : Int} {errno : Option Int} {b : Buffer}
      (hp : answer.Possible (s i)) (hr : (s i).readFd build answer = .ok (n, errno, b)) :
      Step build s (.readFd i answer) (Function.update s i b)

/-- The buffers of a program whose requests for space do not overflow; they may be refused. -/
def spaceLTS (ι : Type) [DecidableEq ι] (build : Build) :
    Trace.LTS (ι → Buffer) (SpaceCall ι) where
  init s := ∀ i, ∃ initialSize, Buffer.kCheapPrepend + initialSize < 2 ^ 64 ∧
    Buffer.new build initialSize = .ok (s i)
  step := SpaceCall.Step build

variable {build : Build} {s t : ι → Buffer} {a : SpaceCall ι} {h : List (SpaceCall ι)}

/-- What the constructor leaves if it returns. -/
theorem new_ok {n : Nat} {b : Buffer} (hn : Buffer.kCheapPrepend + n < 2 ^ 64)
    (hb : Buffer.new build n = .ok b) : b.WF ∧ b.buffer.length = Buffer.kCheapPrepend + n := by
  unfold Buffer.new at hb
  obtain ⟨v, hv, hb⟩ := bind_ok hb
  replace hb := Build.assert_bind_ok (Build.assert_bind_ok (Build.assert_bind_ok hb))
  obtain rfl := Except.ok.inj hb
  rw [Vec.add_of_lt hn] at hv
  rcases resize_cases [] (Buffer.kCheapPrepend + n) with ⟨hlt, hr⟩ | ⟨-, hr⟩
  · obtain rfl := Except.ok.inj (hr.symm.trans hv)
    have hlen : (Vec.resize ([] : Bytes) (Buffer.kCheapPrepend + n) 0).length =
        Buffer.kCheapPrepend + n := Vec.length_resize
    refine ⟨⟨le_rfl, ?_, ?_, ?_⟩, hlen⟩ <;> dsimp only <;> omega
  · cases hr.symm.trans hv

theorem wf_update {i : ι} {b : Buffer} (hwf : ∀ k, (s k).WF) (hb : b.WF) (k : ι) :
    (Function.update s i b k).WF := by
  by_cases hk : k = i
  · subst hk
    rwa [Function.update_self]
  · rw [Function.update_of_ne hk]
    exact hwf k

theorem space_step (hwf : ∀ k, (s k).WF) (hs : SpaceCall.Step build s a t) : ∀ k, (t k).WF := by
  cases hs with
  | @on i o b hd => exact wf_update hwf (BufferOp.does_wf (hwf i) hd)
  | @swap i j => exact wf_update (wf_update hwf (hwf j)) (hwf i)
  | @readFd i answer n errno b hp hr =>
    exact wf_update hwf (Buffer.readFd_spec (hwf i) hp hr).1

theorem space_exec (he : (spaceLTS ι build).Exec h s) : ∀ k, (s k).WF := by
  induction he with
  | start hi =>
    intro k
    obtain ⟨n, hn, hb⟩ := hi k
    exact (new_ok hn hb).1
  | snoc _ hs ih => exact space_step ih hs

/-- On every buffer a program can come to whose requests do not overflow, a request of any length
ends soundly exactly if it does not overflow either; and so it is with the sum that `shrink` forms,
unless that sum overflows itself. -/
theorem space_request_iff (he : (spaceLTS ι build).Exec h s) (i : ι) :
    (∀ len < 2 ^ 64, Buffer.Sound (s i) len (Member.ensureWritableBytes build len (s i)) ↔
      (s i).Addressable len) ∧
    ∀ reserve < 2 ^ 64,
      (Buffer.Sound (s i) (Vec.add (s i).readableBytes reserve)
          (Member.shrink build reserve (s i)) ↔
        (s i).Addressable (Vec.add (s i).readableBytes reserve)) ∧
      (Buffer.Sound (s i) ((s i).readableBytes + reserve) (Member.shrink build reserve (s i)) ↔
        if (s i).readableBytes + reserve < 2 ^ 64 then
          (s i).Addressable ((s i).readableBytes + reserve)
        else ¬ (s i).Fits (Vec.add (s i).readableBytes reserve)) := by
  have hwf := space_exec he i
  refine ⟨fun len hlen => Buffer.sound_iff build hwf hlen, fun reserve hres => ⟨?_, ?_⟩⟩
  · exact Buffer.sound_iff build hwf (Nat.mod_lt _ (by decide))
  · exact Buffer.shrink_sound_iff build hwf hres

end Runs

/-- One byte in a buffer made for none. -/
theorem one_byte_exec (build : Build) : (spaceLTS Unit build).Exec [.on () (.append [1])]
    (Function.update (fun _ => ⟨List.replicate 8 0, 8, 8⟩) ()
      ⟨[0, 0, 0, 0, 0, 0, 0, 0, 1], 8, 9⟩) := by
  have e₀ : (spaceLTS Unit build).Exec [] (fun _ => ⟨List.replicate 8 0, 8, 8⟩) :=
    .start fun _ => ⟨0, by decide, by cases build <;> rfl⟩
  refine e₀.snoc (.on ⟨⟨by decide, by decide⟩, .inl ?_⟩)
  cases build <;> rfl

/-- A request that no vector could meet is refused, and the next one is met. -/
theorem space_request_iff_refused : ∃ s, (spaceLTS Unit .release).Exec
    [.on () (.append [1]), .on () (.ensureWritableBytes (2 ^ 63))] s ∧
      (s ()).content = [1] ∧
      Buffer.Sound (s ()) 4 (Member.ensureWritableBytes .release 4 (s ())) := by
  have e₂ := (one_byte_exec .release).snoc
    (@SpaceCall.Step.on Unit _ .release _ () (.ensureWritableBytes (2 ^ 63))
      ⟨[0, 0, 0, 0, 0, 0, 0, 0, 1], 8, 9⟩ ⟨⟨by decide, by decide⟩, .inr rfl⟩)
  have hiff := (space_request_iff e₂ ()).1 4 (by decide)
  exact ⟨_, e₂, rfl, hiff.mpr ⟨by decide, by decide⟩⟩

/-- One request leaves the writer index behind the end of a vector that has become empty, in either
build; another one returns, without assertions, although nothing has been made writable. -/
theorem overflowing_requests_return : ∃ b : Buffer,
    (∀ build, ∃ s, (spaceLTS Unit build).Exec [.on () (.append [1])] s ∧ s () = b) ∧
    (∀ build, Member.ensureWritableBytes build (2 ^ 64 - 9) b = .ok () ⟨[], 8, 9⟩) ∧
    ¬ Buffer.Sound b (2 ^ 64 - 9) (.ok () ⟨[], 8, 9⟩) ∧
    Member.ensureWritableBytes .release (2 ^ 64 - 8) b = .ok () b ∧
    ¬ Buffer.Sound b (2 ^ 64 - 8) (.ok () b) := by
  refine ⟨⟨[0, 0, 0, 0, 0, 0, 0, 0, 1], 8, 9⟩, fun build => ⟨_, one_byte_exec build, rfl⟩,
    fun build => by cases build <;> rfl, ?_, rfl, ?_⟩
  · rintro ⟨-, hindex, -⟩
    exact absurd hindex (by decide)
  · rintro ⟨hle, -⟩
    exact absurd hle (by decide)

end Lute
