import Lute.Polaris.SilentChannel

/-! What `isReading` says of a connection, and whether its channel is watched for reading. -/
namespace Lute

def TCPConnection.isReading (c : TCPConnection) : Bool := c.reading

namespace PolledConnection

variable {c : TCPConnection} {x : Call} {h : List Call}

/-- Everything that is executed on a connection from `connectEstablished` on; `startRead` and
`stopRead` hand their work to the loop thread. -/
def sinceEstablished : Trace.LTS TCPConnection Call where
  init c := ∃ w hw mark,
    c = ({ TCPConnection.new w hw with highWaterMark := mark }.connectEstablished).1
  step c x c' := x ≠ .connectEstablished ∧ c' = act c x

/-- The two calls that set `reading_`. -/
def Call.setsReading : Call → Bool
  | .startReadInLoop | .stopReadInLoop => true
  | _ => false

/-- A connection that was closed stays closed. -/
theorem disconnected_act (hx : x ≠ .connectEstablished) (hs : c.state = .kDisconnected) :
    (act c x).state = .kDisconnected := by
  cases outcome c hx with
  | closes _ _ hact => rw [hact]
  | starts _ _ hact => simpa [hact] using hs
  | stops _ _ hact => simpa [hact] using hs
  | writes _ _ _ hopen => exact absurd hs hopen
  | drains _ _ hst => exact hst.trans hs
  | stays _ _ _ _ hst =>
    rcases hst with hst | ⟨hopen, -⟩
    · exact hst.trans hs
    · exact absurd hs hopen

theorem isReading_act_of_sets (hx : x.setsReading = true) :
    (act c x).isReading = (act c x).channel.isReading := by
  cases x with
  | startReadInLoop =>
    simp only [act, TCPConnection.startReadInLoop, TCPConnection.isReading]
    split_ifs with hr
    · simp
    · simp_all
  | stopReadInLoop =>
    simp only [act, TCPConnection.stopReadInLoop, TCPConnection.isReading]
    split_ifs with hr
    · simp
    · simp_all
  | _ => cases hx

/-- Nothing else touches the flag or, before the close, the read interest of the channel. -/
theorem isReading_act_of_not_sets (hx : x.setsReading = false) (hne : x ≠ .connectEstablished)
    (hup : (act c x).state ≠ .kDisconnected) :
    (act c x).isReading = c.isReading ∧ (act c x).channel.isReading = c.channel.isReading := by
  cases outcome c hne with
  | closes _ _ hact => exact absurd (by rw [hact]) hup
  | starts heq => simp [heq, Call.setsReading] at hx
  | stops heq => simp [heq, Call.setsReading] at hx
  | writes _ _ _ _ hch hr => exact ⟨hr, by simp [hch]⟩
  | drains _ _ _ hch hr => exact ⟨hr, by simp [hch]⟩
  | stays _ _ hch hr => exact ⟨hr, by rw [hch]⟩

/-- Until one of the two calls is made the flag says no and the channel is being read. -/
theorem isReading_exec (he : sinceEstablished.Exec h c) (hup : c.state ≠ .kDisconnected) :
    if ∃ x ∈ h, x.setsReading = true then c.isReading = c.channel.isReading
    else c.isReading = false ∧ c.channel.isReading = true := by
  induction he with
  | start hi =>
    obtain ⟨w, hw, mark, rfl⟩ := hi
    rw [if_neg (by simp)]
    exact ⟨rfl, Channel.isReading_enableReading _⟩
  | @snoc h c c' x _ hs ih =>
    obtain ⟨hne, rfl⟩ := hs
    have hprev := ih fun hd => hup (disconnected_act hne hd)
    cases hx : x.setsReading with
    | true =>
      rw [if_pos ⟨x, by simp, hx⟩]
      exact isReading_act_of_sets hx
    | false =>
      obtain ⟨hflag, hchannel⟩ := isReading_act_of_not_sets hx hne hup
      have hiff : (∃ y ∈ h ++ [x], y.setsReading = true) ↔ ∃ y ∈ h, y.setsReading = true := by
        simp [or_and_right, exists_or, hx]
      simpa only [hiff, hflag, hchannel] using hprev

/-- While the connection is up, `isReading` tells the truth exactly if `startRead` or `stopRead` has
had its effect since `connectEstablished`, which does not set the flag. -/
theorem reading_flag_iff (he : sinceEstablished.Exec h c)
    (hup : c.state = .kConnected ∨ c.state = .kDisconnecting) :
    c.isReading = c.channel.isReading ↔ .startReadInLoop ∈ h ∨ .stopReadInLoop ∈ h := by
  have hopen : c.state ≠ .kDisconnected := by
    rcases hup with hup | hup <;> simp [hup]
  have hflag := isReading_exec he hopen
  have hsets : (∃ x ∈ h, x.setsReading = true) ↔ .startReadInLoop ∈ h ∨ .stopReadInLoop ∈ h := by
    constructor
    · rintro ⟨x, hm, hx⟩
      cases x with
      | startReadInLoop => exact .inl hm
      | stopReadInLoop => exact .inr hm
      | _ => cases hx
    · rintro (hm | hm)
      · exact ⟨_, hm, rfl⟩
      · exact ⟨_, hm, rfl⟩
  rw [← hsets]
  split_ifs at hflag with hany
  · exact iff_of_true hflag hany
  · refine iff_of_false ?_ hany
    rw [hflag.1, hflag.2]
    exact Bool.false_ne_true

/-- Reading is stopped, and the flag is right. -/
theorem reading_flag_iff_stopped : ∃ c, sinceEstablished.Exec [.stopReadInLoop] c ∧
    c.state = .kConnected ∧ c.isReading = c.channel.isReading := by
  have e₀ : sinceEstablished.Exec [] (TCPConnection.new false false).connectEstablished.1 :=
    .start ⟨false, false, _, rfl⟩
  have e₁ := e₀.snoc (a := .stopReadInLoop) ⟨by simp, rfl⟩
  exact ⟨_, e₁, rfl, (reading_flag_iff e₁ (.inl rfl)).mpr (.inr (by simp))⟩

/-- A connection just established is read while `isReading` denies it. -/
theorem established_denies_reading : ¬ ∀ h c, sinceEstablished.Exec h c →
    c.state = .kConnected ∨ c.state = .kDisconnecting → c.isReading = c.channel.isReading := by
  intro hall
  have e₀ : sinceEstablished.Exec [] (TCPConnection.new false false).connectEstablished.1 :=
    .start ⟨false, false, _, rfl⟩
  exact absurd (hall _ _ e₀ (.inl rfl)) (by decide)

end PolledConnection

end Lute
