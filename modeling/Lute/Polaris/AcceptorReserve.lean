import Mathlib.Data.List.Count
import Lute.Polaris.Acceptor

/-! What the reserve descriptor is for: without it a process at its limit could not even refuse. -/
namespace Lute

open Descriptors (Table)

namespace Acceptor

/-- Between the closing of the reserve and its reopening. -/
def ReserveOut (s : Acceptor) : Prop :=
  s.pc = .acceptIdle ∨ s.pc = .closeRefused ∨ s.pc = .openIdle

/-- No other thread opens a descriptor while the reserve is out, the logger keeps `errno`, and
`/dev/null` can be opened while descriptors are left. -/
def Undisturbed (s : Acceptor) : Label → Prop
  | .foreignOpen => ¬ s.ReserveOut
  | .log e => e = s.errno
  | .openIdle fd => fd = s.table.lowest
  | _ => True

/-- An `accept` that fails for another reason than `EMFILE` and leaves the connection. -/
def Label.isMiss : Label → Bool
  | .fail e dropped => e ≠ .EMFILE && !dropped
  | _ => false

/-- Calls of `handleRead` still to dispose of their connection, or to miss. -/
def owed (s : Acceptor) : Nat :=
  match s.pc with
  | .accept | .deliver _ _ | .closeIdle | .acceptIdle => 1
  | .logging | .testErrno => if s.errno = .EMFILE then 1 else 0
  | _ => 0

def HoldsReserve (s : Acceptor) : Prop :=
  ∃ n, s.idleFd = some n ∧ s.table.holder n = some .devNull

/-- The reserve is there, or there is room for it. -/
def Reserved (s : Acceptor) : Prop :=
  match s.pc with
  | .acceptIdle | .openIdle => s.table.lowest ≠ none
  | .closeRefused => s.idleFd = none → s.table.lowest ≠ none
  | .destroySocket | .destroyed => True
  | _ => s.HoldsReserve

variable {s t : Acceptor} {a : Label} {h : List Label}

theorem HoldsReserve.set {n : Nat} {w : Holder} (hr : s.HoldsReserve) (hn : s.idleFd ≠ some n) :
    ∃ m, s.idleFd = some m ∧ (s.table.set n w).holder m = some .devNull := by
  obtain ⟨m, hm, hd⟩ := hr
  refine ⟨m, hm, ?_⟩
  have hne : m ≠ n := by
    rintro rfl
    exact hn hm
  simp [Table.holder_set, hne, hd]

theorem HoldsReserve.close {n : Nat} (hr : s.HoldsReserve) (hn : s.idleFd ≠ some n) :
    ∃ m, s.idleFd = some m ∧ (s.table.close n).holder m = some .devNull := by
  obtain ⟨m, hm, hd⟩ := hr
  refine ⟨m, hm, ?_⟩
  have hne : m ≠ n := by
    rintro rfl
    exact hn hm
  simp [Table.holder_close, hne, hd]

theorem HoldsReserve.ne_lowest {n : Nat} (hr : s.HoldsReserve) (hlow : s.table.lowest = some n) :
    s.idleFd ≠ some n := by
  obtain ⟨m, hm, hd⟩ := hr
  intro hn
  obtain rfl : m = n := by simpa [hm] using hn
  simp [(Table.lowest_eq_some hlow).2] at hd

theorem reserved_foreignOpen (hn : s.next .foreignOpen = some t) (hu : s.Undisturbed .foreignOpen)
    (hr : s.Reserved) : t.Reserved := by
  obtain ⟨n, hlow, rfl⟩ := by simpa [next] using hn
  have hkeep (hh : s.HoldsReserve) := hh.set (w := .foreign) (hh.ne_lowest hlow)
  cases hpc : s.pc with
  | acceptIdle | closeRefused | openIdle => simp [Undisturbed, ReserveOut, hpc] at hu
  | destroySocket | destroyed => trivial
  | _ =>
    rw [Reserved, hpc] at hr
    exact hkeep hr

theorem reserved_foreignClose {n : Nat} (hn : s.next (.foreignClose n) = some t)
    (hr : s.Reserved) : t.Reserved := by
  simp only [next, foreignCloseNext] at hn
  split at hn
  · rename_i w hw
    obtain ⟨hp, rfl⟩ := by simpa using hn
    have hkeep (hh : s.HoldsReserve) := hh.close (n := n) (by
      obtain ⟨m, hm, hd⟩ := hh
      intro hmn
      obtain rfl : m = n := by simpa [hm] using hmn
      obtain rfl : Holder.devNull = w := by simpa [hd] using hw
      simp [Holder.ofAcceptor] at hp)
    cases hpc : s.pc with
    | acceptIdle | openIdle =>
      rw [Reserved, hpc] at hr
      exact Table.lowest_close_ne_none hr
    | closeRefused =>
      rw [Reserved, hpc] at hr
      exact fun hnone => Table.lowest_close_ne_none (hr hnone)
    | destroySocket | destroyed => trivial
    | _ =>
      rw [Reserved, hpc] at hr
      exact hkeep hr
  · simp at hn

theorem reserved_close {fd : Option Nat} (hn : s.next (.close fd) = some t) (hi : s.Inv)
    (hr : s.Reserved) : t.Reserved := by
  have hnd := hi.owned.nodup
  rcases close_cases hn with ⟨rfl, ⟨hpc, rfl⟩ | ⟨hpc, rfl⟩ | ⟨hpc, rfl⟩⟩ | ⟨rfl, hpc, rfl⟩ |
    ⟨k, connfd, rfl, hpc, -, rfl⟩
  · obtain ⟨n, hidle, hd⟩ := by simpa [Reserved, hpc] using hr
    simpa [Reserved, hidle, closeFd] using hi.bounded.lowest_close hd
  · cases hidle : s.idleFd with
    | none =>
      have := by simpa [Reserved, hpc] using hr
      simpa [Reserved, closeFd] using this hidle
    | some n =>
      obtain ⟨w, hw, -⟩ := (hi.owned.mem_iff n).mp (by simp [fds, hpc, hidle])
      simpa [Reserved, closeFd] using hi.bounded.lowest_close hw
  · trivial
  · trivial
  · refine HoldsReserve.close (s := s) (by simpa [Reserved, hpc] using hr) ?_
    intro hidle
    simp [fds, hpc, hidle] at hnd

theorem reserved_deliver (hn : s.next .deliver = some t) (hi : s.Inv) (hr : s.Reserved) :
    t.Reserved := by
  have hnd := hi.owned.nodup
  obtain ⟨k, connfd, hpc, -, rfl⟩ := deliver_cases hn
  refine HoldsReserve.set (s := s) (by simpa [Reserved, hpc] using hr) ?_
  intro hidle
  simp [fds, hpc, hidle] at hnd

theorem reserved_next (hn : s.next a = some t) (hu : s.Undisturbed a) (hi : s.Inv)
    (hr : s.Reserved) : t.Reserved := by
  cases a with
  | arrive =>
    obtain rfl := by simpa [next] using hn
    exact hr
  | foreignOpen => exact reserved_foreignOpen hn hu hr
  | foreignClose n => exact reserved_foreignClose hn hr
  | listen =>
    obtain ⟨-, rfl⟩ := by simpa [next] using hn
    exact hr
  | accept =>
    obtain ⟨k, backlog, n, -, hlow, ⟨hpc, rfl⟩ | ⟨hpc, rfl⟩⟩ := accept_cases hn
    · have hh : s.HoldsReserve := by simpa [Reserved, hpc] using hr
      exact hh.set (hh.ne_lowest hlow)
    · simp [Reserved]
  | fail e dropped =>
    obtain ⟨-, ⟨hpc, rfl⟩ | ⟨hpc, rfl⟩⟩ := fail_cases hn
    · have hh : s.HoldsReserve := by simpa [Reserved, hpc] using hr
      cases hx : e.expected <;> simpa [Reserved, HoldsReserve, hx] using hh
    · simpa [Reserved, hpc] using hr
  | close fd => exact reserved_close hn hi hr
  | openIdle fd =>
    obtain ⟨hpc, ⟨rfl, rfl⟩ | ⟨n, -, -, rfl⟩⟩ := openIdle_cases hn
    · have hroom : s.table.lowest ≠ none := by simpa [Reserved, hpc] using hr
      exact absurd hu.symm hroom
    · exact ⟨n, rfl, by simp [Table.holder_set]⟩
  | deliver => exact reserved_deliver hn hi hr
  | handleRead =>
    obtain ⟨⟨hpc, -⟩, rfl⟩ := by simpa [next] using hn
    rwa [Reserved, hpc] at hr
  | log e =>
    obtain ⟨hpc, rfl⟩ := by simpa [next] using hn
    rwa [Reserved, hpc] at hr
  | testErrno =>
    obtain ⟨hpc, rfl⟩ := by simpa [next] using hn
    rw [Reserved, hpc] at hr
    split_ifs <;> exact hr
  | destroy =>
    obtain ⟨hpc, rfl⟩ := by simpa [next] using hn
    rwa [Reserved, hpc] at hr

/-- Every call has disposed of a connection, has missed, or is still to do one of them. -/
def Balanced (h : List Label) (s : Acceptor) : Prop :=
  h.count .handleRead = s.disposed.length + s.owed + h.countP Label.isMiss

theorem drop_balance (e : AcceptErrno) {dropped : Bool} (hb : dropped = true → s.backlog ≠ [])
    (he : e ≠ .EMFILE) :
    (s.drop dropped).disposed.length + [Label.fail e dropped].countP Label.isMiss =
      s.disposed.length + 1 := by
  cases dropped with
  | false => simp [drop, Label.isMiss, he]
  | true =>
    obtain ⟨k, backlog, hback⟩ := List.exists_cons_of_ne_nil (hb rfl)
    simp [drop, hback, Label.isMiss]

theorem balanced_fail {e : AcceptErrno} {dropped : Bool} (hn : s.next (.fail e dropped) = some t)
    (hr : s.Reserved) (hb : Balanced h s) : Balanced (h ++ [.fail e dropped]) t := by
  obtain ⟨⟨hmfile, -, hdrop⟩, hcases⟩ := fail_cases hn
  simp only [Balanced, List.count_append, List.countP_append] at hb ⊢
  have hcount : [Label.fail e dropped].count .handleRead = 0 := by simp
  by_cases he : e = .EMFILE
  · -- without a free descriptor; so the reserve is not out
    have hnd : dropped = false := by
      cases dropped with
      | false => rfl
      | true => exact absurd he (hdrop rfl).2
    subst he hnd
    have hfull := hmfile.mp rfl
    rcases hcases with ⟨hpc, rfl⟩ | ⟨hpc, rfl⟩
    · simp only [owed, hpc] at hb
      simpa [owed, AcceptErrno.expected, drop, Label.isMiss] using hb
    · rw [Reserved, hpc] at hr
      exact absurd hfull hr
  · have hd := drop_balance (s := s) e (fun hx => (hdrop hx).1) he
    rcases hcases with ⟨hpc, rfl⟩ | ⟨hpc, rfl⟩
    · simp only [owed, hpc] at hb
      have ho : owed { s.drop dropped with
          errno := e, pc := if e.expected then .logging else .aborted } = 0 := by
        cases hx : e.expected <;> simp [owed, he]
      simp only [ho]
      omega
    · simp only [owed, hpc] at hb
      simp only [owed]
      omega

theorem balanced_next (hn : s.next a = some t) (hu : s.Undisturbed a) (hr : s.Reserved)
    (hb : Balanced h s) : Balanced (h ++ [a]) t := by
  cases a with
  | fail e dropped => exact balanced_fail hn hr hb
  | arrive =>
    obtain rfl := by simpa [next] using hn
    simpa [Balanced, owed, Label.isMiss] using hb
  | foreignOpen =>
    obtain ⟨n, -, rfl⟩ := by simpa [next] using hn
    simpa [Balanced, owed, Label.isMiss] using hb
  | foreignClose n =>
    simp only [next, foreignCloseNext] at hn
    split at hn
    · obtain ⟨-, rfl⟩ := by simpa using hn
      simpa [Balanced, owed, Label.isMiss] using hb
    · simp at hn
  | listen =>
    obtain ⟨-, rfl⟩ := by simpa [next] using hn
    simpa [Balanced, owed, Label.isMiss] using hb
  | handleRead =>
    obtain ⟨⟨hpc, -⟩, rfl⟩ := by simpa [next] using hn
    simp only [Balanced, owed, hpc] at hb
    simp only [Balanced, owed, List.count_append, List.countP_append]
    simp [Label.isMiss]
    omega
  | accept =>
    obtain ⟨k, backlog, n, -, -, ⟨hpc, rfl⟩ | ⟨hpc, rfl⟩⟩ := accept_cases hn <;>
    simpa [Balanced, owed, hpc, Label.isMiss] using hb
  | log e =>
    obtain ⟨hpc, rfl⟩ := by simpa [next] using hn
    obtain rfl := hu
    simpa [Balanced, owed, hpc, Label.isMiss] using hb
  | testErrno =>
    obtain ⟨hpc, rfl⟩ := by simpa [next] using hn
    by_cases he : s.errno = .EMFILE <;>
    simpa [Balanced, owed, hpc, he, Label.isMiss] using hb
  | deliver =>
    obtain ⟨k, connfd, hpc, -, rfl⟩ := deliver_cases hn
    simpa [Balanced, owed, hpc, Label.isMiss] using hb
  | close fd =>
    rcases close_cases hn with ⟨-, ⟨hpc, rfl⟩ | ⟨hpc, rfl⟩ | ⟨hpc, rfl⟩⟩ | ⟨-, hpc, rfl⟩ |
      ⟨k, connfd, -, hpc, -, rfl⟩ <;>
    simpa [Balanced, owed, hpc, Label.isMiss] using hb
  | openIdle fd =>
    obtain ⟨hpc, ⟨-, rfl⟩ | ⟨n, -, -, rfl⟩⟩ := openIdle_cases hn <;>
    simpa [Balanced, owed, hpc, Label.isMiss] using hb
  | destroy =>
    obtain ⟨hpc, rfl⟩ := by simpa [next] using hn
    simpa [Balanced, owed, hpc, Label.isMiss] using hb

theorem reserved_exec (he : (system.restrict Undisturbed).Exec h s) :
    s.Reserved ∧ Balanced h s := by
  induction he with
  | start hi =>
    obtain ⟨table, acceptFd, idleFd, callback, rfl, -, -, hd, -⟩ := hi
    exact ⟨⟨idleFd, rfl, hd⟩, rfl⟩
  | snoc he hs ih =>
    exact ⟨reserved_next hs.2 hs.1 (inv_exec he.of_restrict) ih.1,
      balanced_next hs.2 hs.1 ih.1 ih.2⟩

/-- Undisturbed, the acceptor has its reserve back after every call, however full the table is,
and every call that finds a connection takes it off the backlog: what is pending is what came
less one for each call, but for the calls whose `accept` failed for another reason than `EMFILE`
and left the connection where it was. -/
theorem backlog_drains (he : (system.restrict Undisturbed).Exec h s) (hpc : s.pc = .rest) :
    (∃ n, s.idleFd = some n ∧ s.table.holder n = some .devNull) ∧
      s.backlog.length + h.count .handleRead = s.arrived + h.countP Label.isMiss := by
  obtain ⟨hr, hb⟩ := reserved_exec he
  have hl := congrArg List.length (inv_exec he.of_restrict).ledger
  refine ⟨by rwa [Reserved, hpc] at hr, ?_⟩
  simp only [Balanced, owed, hpc] at hb
  simp [inHand, hpc] at hl
  omega

instance (s : Acceptor) : (a : Label) → Decidable (s.Undisturbed a)
  | .foreignOpen => inferInstanceAs (Decidable (¬ (_ ∨ _ ∨ _)))
  | .log e => inferInstanceAs (Decidable (e = s.errno))
  | .openIdle fd => inferInstanceAs (Decidable (fd = s.table.lowest))
  | .arrive | .foreignClose _ | .listen | .handleRead | .accept | .fail _ _ | .testErrno
  | .deliver | .close _ | .destroy => inferInstanceAs (Decidable True)

/-- A step kept to the undisturbed ones. -/
def calmNext (s : Acceptor) (a : Label) : Option Acceptor :=
  if s.Undisturbed a then s.next a else none

theorem backlog_drains_crowded :
    ∃ s, (system.restrict Undisturbed).Exec crowdedRun s ∧
      s.disposed = [(0, .handed 2), (1, .refused)] ∧
      s.backlog.length + crowdedRun.count .handleRead =
        s.arrived + crowdedRun.countP Label.isMiss := by
  have hrun : (crowdedRun.foldlM calmNext (new tight 0 1 true)).map
      (fun s => (s.disposed, s.pc)) = some ([(0, .handed 2), (1, .refused)], .rest) := by
    decide +kernel
  obtain ⟨s, hs, hv⟩ := Option.map_eq_some_iff.mp hrun
  obtain ⟨hd, hpc⟩ := Prod.mk.inj hv
  have he : (system.restrict Undisturbed).Exec crowdedRun s := by
    refine Trace.LTS.exec_of_foldlM (fun s a t hst => ?_) tight_initial hs
    unfold calmNext at hst
    split_ifs at hst with hc
    exact ⟨hc, hst⟩
  exact ⟨s, he, hd, (backlog_drains he hpc).2⟩

end Acceptor

end Lute
