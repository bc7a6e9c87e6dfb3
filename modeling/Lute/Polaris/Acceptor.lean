import Lute.Lib.Descriptors
import Lute.Lib.Trace

/-! The acceptor among the other users of the process's descriptors: `handleRead` one system call
at a time, with the descriptor it keeps in reserve for the time when there is none left. -/
namespace Lute

open Descriptors (Table)

/-- What `accept` leaves in `errno`, as `sockets::accept` tells them apart. -/
inductive AcceptErrno
  | EAGAIN
  | ECONNABORTED
  | EINTR
  | EPROTO
  | EPERM
  | EMFILE
  | EBADF
  | EFAULT
  | EINVAL
  | ENFILE
  | ENOBUFS
  | ENOMEM
  | ENOTSOCK
  | EOPNOTSUPP
  | other (code : Nat)
  deriving DecidableEq, Repr

/-- The others end in `LOG_FATAL`. -/
def AcceptErrno.expected : AcceptErrno → Bool
  | .EAGAIN | .ECONNABORTED | .EINTR | .EPROTO | .EPERM | .EMFILE => true
  | .EBADF | .EFAULT | .EINVAL | .ENFILE | .ENOBUFS | .ENOMEM | .ENOTSOCK | .EOPNOTSUPP
  | .other _ => false

/-- What a descriptor stands for and in whose care it is. The first three are the acceptor's;
connection `k` goes from `accepted` to `handed` when the callback gets it. -/
inductive Holder
  | listening
  | devNull
  | accepted (k : Nat)
  | handed (k : Nat)
  | foreign
  deriving DecidableEq, Repr

def Holder.ofAcceptor : Holder → Bool
  | .listening | .devNull | .accepted _ => true
  | .handed _ | .foreign => false

/-- What became of a connection that left the backlog: given to `newConnectionCallback_`, closed
because there is no such callback, refused for want of descriptors, or lost to an error that
`accept` reported in its place. -/
inductive Disposal
  | handed (connfd : Nat)
  | closed
  | refused
  | aborted
  deriving DecidableEq, Repr

/-- Before which system call, or test, the thread stands. -/
inductive AcceptorPc
  | rest
  | accept
  | deliver (k connfd : Nat)
  | logging
  | testErrno
  | closeIdle
  | acceptIdle
  | closeRefused
  | openIdle
  | destroyIdle
  | destroySocket
  | destroyed
  | aborted
  deriving DecidableEq, Repr

/-- `idleFd` is `none` for -1. `backlog` are the connections the kernel has completed, by number,
`arrived` of them so far, and `disposed` tells how those that have left it were dealt with. -/
structure Acceptor where
  table : Table Holder
  acceptFd : Nat
  idleFd : Option Nat
  newConnectionCallback : Bool
  listenning : Bool
  errno : AcceptErrno
  pc : AcceptorPc
  backlog : List Nat
  arrived : Nat
  disposed : List (Nat × Disposal)

namespace Acceptor

/-- `arrive` and the two `foreign` ones are not the acceptor's. `fail e dropped` is an `accept`
that returns -1, with the connection gone from the backlog if `dropped`; `log e` is `LOG_SYSERR`,
which leaves `e` in `errno`; `close fd` is `::close(fd)`. -/
inductive Label
  | arrive
  | foreignOpen
  | foreignClose (n : Nat)
  | listen
  | handleRead
  | accept
  | fail (e : AcceptErrno) (dropped : Bool)
  | log (e : AcceptErrno)
  | testErrno
  | deliver
  | close (fd : Option Nat)
  | openIdle (fd : Option Nat)
  | destroy
  deriving DecidableEq, Repr

/-- After the constructor. -/
def new (table : Table Holder) (acceptFd idleFd : Nat) (newConnectionCallback : Bool) : Acceptor :=
  ⟨table, acceptFd, some idleFd, newConnectionCallback, false, .EAGAIN, .rest, [], 0, []⟩

/-- `::close`; it fails on -1. -/
def closeFd (s : Acceptor) : Option Nat → Table Holder
  | some n => s.table.close n
  | none => s.table

/-- A successful `accept`, in `handleRead` proper or with the reserve given up. -/
def acceptNext (s : Acceptor) : Option Acceptor :=
  match s.backlog, s.table.lowest with
  | k :: backlog, some n =>
    match s.pc with
    | .accept => some { s with table := s.table.set n (.accepted k), backlog, pc := .deliver k n }
    | .acceptIdle =>
      some { s with
        table := s.table.set n (.accepted k), backlog, idleFd := some n, pc := .closeRefused
        disposed := s.disposed ++ [(k, .refused)] }
    | _ => none
  | _, _ => none

/-- The kernel reports `EMFILE` without a free descriptor and only then, `EAGAIN` without a
pending connection; other errors may take one along. -/
def CanFail (s : Acceptor) (e : AcceptErrno) (dropped : Bool) : Prop :=
  (e = .EMFILE ↔ s.table.lowest = none) ∧ (e = .EAGAIN → s.backlog = []) ∧
    (dropped → s.backlog ≠ [] ∧ e ≠ .EMFILE)

instance (s : Acceptor) (e : AcceptErrno) (dropped : Bool) : Decidable (s.CanFail e dropped) :=
  inferInstanceAs (Decidable (_ ∧ _ ∧ _))

/-- The connection an error took along. -/
def drop (s : Acceptor) (dropped : Bool) : Acceptor :=
  match dropped, s.backlog with
  | true, k :: backlog => { s with backlog, disposed := s.disposed ++ [(k, .aborted)] }
  | _, _ => s

/-- In `handleRead` proper `sockets::accept` sorts the errors; the plain `::accept` does not. -/
def failNext (s : Acceptor) (e : AcceptErrno) (dropped : Bool) : Option Acceptor :=
  if s.CanFail e dropped then
    match s.pc with
    | .accept =>
      some { s.drop dropped with errno := e, pc := if e.expected then .logging else .aborted }
    | .acceptIdle => some { s.drop dropped with idleFd := none, pc := .closeRefused }
    | _ => none
  else none

def closeNext (s : Acceptor) (fd : Option Nat) : Option Acceptor :=
  match s.pc with
  | .closeIdle =>
    if fd = s.idleFd then some { s with table := s.closeFd fd, pc := .acceptIdle } else none
  | .closeRefused =>
    if fd = s.idleFd then some { s with table := s.closeFd fd, pc := .openIdle } else none
  | .destroyIdle =>
    if fd = s.idleFd then some { s with table := s.closeFd fd, pc := .destroySocket } else none
  | .destroySocket =>
    if fd = some s.acceptFd then some { s with table := s.closeFd fd, pc := .destroyed } else none
  | .deliver k connfd =>
    if fd = some connfd ∧ s.newConnectionCallback = false then
      some { s with table := s.closeFd fd, pc := .rest, disposed := s.disposed ++ [(k, .closed)] }
    else none
  | _ => none

/-- `open("/dev/null")`; it may fail with descriptors left. -/
def openNext (s : Acceptor) (fd : Option Nat) : Option Acceptor :=
  match s.pc, fd with
  | .openIdle, none => some { s with idleFd := none, pc := .rest }
  | .openIdle, some n =>
    if s.table.lowest = some n then
      some { s with table := s.table.set n .devNull, idleFd := some n, pc := .rest }
    else none
  | _, _ => none

/-- The callback takes the connection over. -/
def deliverNext (s : Acceptor) : Option Acceptor :=
  match s.pc with
  | .deliver k connfd =>
    if s.newConnectionCallback then
      some { s with
        table := s.table.set connfd (.handed k), pc := .rest
        disposed := s.disposed ++ [(k, .handed connfd)] }
    else none
  | _ => none

def foreignCloseNext (s : Acceptor) (n : Nat) : Option Acceptor :=
  match s.table.holder n with
  | some w => if w.ofAcceptor then none else some { s with table := s.table.close n }
  | none => none

def next (s : Acceptor) : Label → Option Acceptor
  | .arrive => some { s with backlog := s.backlog ++ [s.arrived], arrived := s.arrived + 1 }
  | .foreignOpen => s.table.lowest.map fun n => { s with table := s.table.set n .foreign }
  | .foreignClose n => s.foreignCloseNext n
  | .listen => if s.pc = .rest then some { s with listenning := true } else none
  | .handleRead => if s.pc = .rest ∧ s.listenning then some { s with pc := .accept } else none
  | .accept => s.acceptNext
  | .fail e dropped => s.failNext e dropped
  | .log e => if s.pc = .logging then some { s with errno := e, pc := .testErrno } else none
  | .testErrno =>
    if s.pc = .testErrno then
      some { s with pc := if s.errno = .EMFILE then .closeIdle else .rest }
    else none
  | .deliver => s.deliverNext
  | .close fd => s.closeNext fd
  | .openIdle fd => s.openNext fd
  | .destroy => if s.pc = .rest then some { s with pc := .destroyIdle } else none

/-- The constructor has opened the listening socket and the reserve; nothing else is its own. -/
def Initial (s : Acceptor) : Prop :=
  ∃ table acceptFd idleFd newConnectionCallback,
    s = new table acceptFd idleFd newConnectionCallback ∧ table.Bounded ∧
    table.holder acceptFd = some .listening ∧ table.holder idleFd = some .devNull ∧
    ∀ n w, table.holder n = some w → w.ofAcceptor → n = acceptFd ∨ n = idleFd

def system : Trace.LTS Acceptor Label where
  init := Initial
  step s a t := s.next a = some t

/-- The descriptors the acceptor has in its members and its variable. -/
def fds (s : Acceptor) : List Nat :=
  match s.pc with
  | .rest | .accept | .logging | .testErrno | .closeIdle | .closeRefused | .destroyIdle
  | .aborted => s.acceptFd :: s.idleFd.toList
  | .deliver _ connfd => connfd :: s.acceptFd :: s.idleFd.toList
  | .acceptIdle | .openIdle | .destroySocket => [s.acceptFd]
  | .destroyed => []

/-- The connection between `accept` and the callback. -/
def inHand (s : Acceptor) : List Nat :=
  match s.pc with
  | .deliver k _ => [k]
  | _ => []

/-- What the acceptor holds is what it knows of, and no pending connection is lost or met twice. -/
structure Inv (s : Acceptor) : Prop where
  bounded : s.table.Bounded
  owned : Table.Owned Holder.ofAcceptor s.table s.fds
  ledger : s.disposed.map Prod.fst ++ s.inHand ++ s.backlog = List.range s.arrived

variable {s t : Acceptor} {a : Label} {h : List Label}

theorem inv_arrive (hn : s.next .arrive = some t) (hi : s.Inv) : t.Inv := by
  obtain rfl := by simpa [next] using hn
  refine ⟨hi.bounded, hi.owned, ?_⟩
  have hl := hi.ledger
  simp only [List.range_succ, ← hl, List.append_assoc]
  rfl

theorem inv_foreignOpen (hn : s.next .foreignOpen = some t) (hi : s.Inv) : t.Inv := by
  obtain ⟨n, hlow, rfl⟩ := by simpa [next] using hn
  have hfree := Table.lowest_eq_some hlow
  have hmem : n ∉ s.fds := hi.owned.not_mem (by simp [hfree.2])
  refine ⟨hi.bounded.set hfree.1, ?_, hi.ledger⟩
  have ho := hi.owned.set_other (n := n) (w := .foreign) rfl
  rwa [List.erase_of_not_mem hmem] at ho

theorem inv_foreignClose {n : Nat} (hn : s.next (.foreignClose n) = some t) (hi : s.Inv) :
    t.Inv := by
  simp only [next, foreignCloseNext] at hn
  split at hn
  · rename_i w hw
    obtain ⟨hp, rfl⟩ := by simpa using hn
    have hmem : n ∉ s.fds := hi.owned.not_mem (by simpa [hw] using hp)
    refine ⟨hi.bounded.close, ?_, hi.ledger⟩
    have ho := hi.owned.close (n := n)
    rwa [List.erase_of_not_mem hmem] at ho
  · simp at hn

/-- A connection comes off the backlog, for the callback or to be refused. -/
theorem accept_cases (hn : s.next .accept = some t) :
    ∃ k backlog n, s.backlog = k :: backlog ∧ s.table.lowest = some n ∧
      ((s.pc = .accept ∧
          t = { s with table := s.table.set n (.accepted k), backlog, pc := .deliver k n }) ∨
        (s.pc = .acceptIdle ∧
          t = { s with
            table := s.table.set n (.accepted k), backlog, idleFd := some n, pc := .closeRefused
            disposed := s.disposed ++ [(k, .refused)] })) := by
  simp only [next, acceptNext] at hn
  split at hn
  · rename_i k backlog n hback hlow
    refine ⟨k, backlog, n, hback, hlow, ?_⟩
    split at hn
    · exact .inl ⟨‹_›, by simpa using hn.symm⟩
    · exact .inr ⟨‹_›, by simpa using hn.symm⟩
    · simp at hn
  · simp at hn

theorem inv_accept (hn : s.next .accept = some t) (hi : s.Inv) : t.Inv := by
  obtain ⟨hb, ho, hl⟩ := hi
  obtain ⟨k, backlog, n, hback, hlow, hcases⟩ := accept_cases hn
  have hlt := (Table.lowest_eq_some hlow).1
  have hset := ho.set_lowest (w := .accepted k) hlow rfl
  rcases hcases with ⟨hpc, rfl⟩ | ⟨hpc, rfl⟩
  · refine ⟨hb.set hlt, ?_, ?_⟩
    · simpa [fds, hpc] using hset
    · simpa [inHand, hpc, hback] using hl
  · refine ⟨hb.set hlt, ?_, ?_⟩
    · simpa [fds, hpc] using hset.perm (by simpa [fds, hpc] using List.Perm.swap _ _ _)
    · simpa [inHand, hpc, hback] using hl

theorem drop_ledger {l : List Nat} (dropped : Bool)
    (hl : s.disposed.map Prod.fst ++ s.backlog = l) :
    (s.drop dropped).disposed.map Prod.fst ++ (s.drop dropped).backlog = l := by
  unfold drop
  split
  · rename_i k backlog hback
    simpa [hback] using hl
  · exact hl

@[simp] theorem drop_table {dropped : Bool} : (s.drop dropped).table = s.table := by
  unfold drop
  split <;> rfl

@[simp] theorem drop_acceptFd {dropped : Bool} : (s.drop dropped).acceptFd = s.acceptFd := by
  unfold drop
  split <;> rfl

@[simp] theorem drop_idleFd {dropped : Bool} : (s.drop dropped).idleFd = s.idleFd := by
  unfold drop
  split <;> rfl

@[simp] theorem drop_arrived {dropped : Bool} : (s.drop dropped).arrived = s.arrived := by
  unfold drop
  split <;> rfl

/-- A failed `accept`, in `handleRead` proper or with the reserve given up. -/
theorem fail_cases {e : AcceptErrno} {dropped : Bool} (hn : s.next (.fail e dropped) = some t) :
    s.CanFail e dropped ∧
      ((s.pc = .accept ∧
          t = { s.drop dropped with errno := e, pc := if e.expected then .logging else .aborted }) ∨
        (s.pc = .acceptIdle ∧
          t = { s.drop dropped with idleFd := none, pc := .closeRefused })) := by
  simp only [next, failNext] at hn
  split at hn
  · rename_i hc
    refine ⟨hc, ?_⟩
    split at hn
    · exact .inl ⟨‹_›, by simpa using hn.symm⟩
    · exact .inr ⟨‹_›, by simpa using hn.symm⟩
    · simp at hn
  · simp at hn

theorem inv_fail {e : AcceptErrno} {dropped : Bool} (hn : s.next (.fail e dropped) = some t)
    (hi : s.Inv) : t.Inv := by
  obtain ⟨hb, ho, hl⟩ := hi
  obtain ⟨-, ⟨hpc, rfl⟩ | ⟨hpc, rfl⟩⟩ := fail_cases hn
  · have hd := drop_ledger dropped (by simpa [inHand, hpc] using hl)
    refine ⟨by simpa using hb, ?_, ?_⟩
    · cases hx : e.expected <;> simpa [fds, hpc, hx] using ho
    · cases hx : e.expected <;> simpa [inHand, hx] using hd
  · have hd := drop_ledger dropped (by simpa [inHand, hpc] using hl)
    refine ⟨by simpa using hb, by simpa [fds, hpc] using ho, by simpa [inHand] using hd⟩

/-- The five places where the acceptor closes a descriptor. -/
theorem close_cases {fd : Option Nat} (hn : s.next (.close fd) = some t) :
    (fd = s.idleFd ∧
      ((s.pc = .closeIdle ∧ t = { s with table := s.closeFd fd, pc := .acceptIdle }) ∨
        (s.pc = .closeRefused ∧ t = { s with table := s.closeFd fd, pc := .openIdle }) ∨
        (s.pc = .destroyIdle ∧ t = { s with table := s.closeFd fd, pc := .destroySocket }))) ∨
    (fd = some s.acceptFd ∧ s.pc = .destroySocket ∧
      t = { s with table := s.closeFd fd, pc := .destroyed }) ∨
    (∃ k connfd, fd = some connfd ∧ s.pc = .deliver k connfd ∧ s.newConnectionCallback = false ∧
      t = { s with
        table := s.closeFd fd, pc := .rest, disposed := s.disposed ++ [(k, .closed)] }) := by
  simp only [next, closeNext] at hn
  split at hn
  · rename_i hpc
    obtain ⟨hfd, rfl⟩ := by simpa using hn
    exact .inl ⟨hfd, .inl ⟨hpc, rfl⟩⟩
  · rename_i hpc
    obtain ⟨hfd, rfl⟩ := by simpa using hn
    exact .inl ⟨hfd, .inr (.inl ⟨hpc, rfl⟩)⟩
  · rename_i hpc
    obtain ⟨hfd, rfl⟩ := by simpa using hn
    exact .inl ⟨hfd, .inr (.inr ⟨hpc, rfl⟩)⟩
  · rename_i hpc
    obtain ⟨hfd, rfl⟩ := by simpa using hn
    exact .inr (.inl ⟨hfd, hpc, rfl⟩)
  · rename_i k connfd hpc
    obtain ⟨⟨hfd, hcb⟩, rfl⟩ := by simpa using hn
    exact .inr (.inr ⟨k, connfd, hfd, hpc, hcb, rfl⟩)
  · simp at hn

theorem bounded_closeFd (fd : Option Nat) (hb : s.table.Bounded) : (s.closeFd fd).Bounded := by
  cases fd with
  | none => exact hb
  | some n => exact hb.close

/-- Closing the last of the list, if there is one. -/
theorem owned_closeFd (fd : Option Nat) {l : List Nat}
    (ho : Table.Owned Holder.ofAcceptor s.table (l ++ fd.toList)) :
    Table.Owned Holder.ofAcceptor (s.closeFd fd) l := by
  cases fd with
  | none => simpa [closeFd] using ho
  | some n =>
    have hc := ho.close (n := n)
    have hmem : n ∉ l := by
      have := ho.nodup
      simp [List.nodup_append] at this
      grind
    rwa [List.erase_append_right _ hmem, show ((some n).toList.erase n) = [] by simp,
      List.append_nil] at hc

theorem inv_close {fd : Option Nat} (hn : s.next (.close fd) = some t) (hi : s.Inv) : t.Inv := by
  obtain ⟨hb, ho, hl⟩ := hi
  rcases close_cases hn with ⟨hfd, ⟨hpc, rfl⟩ | ⟨hpc, rfl⟩ | ⟨hpc, rfl⟩⟩ | ⟨rfl, hpc, rfl⟩ |
    ⟨k, connfd, rfl, hpc, -, rfl⟩
  · refine ⟨bounded_closeFd _ hb, ?_, by simpa [inHand, hpc] using hl⟩
    exact owned_closeFd fd (l := [s.acceptFd]) (by simpa [fds, hpc, hfd] using ho)
  · refine ⟨bounded_closeFd _ hb, ?_, by simpa [inHand, hpc] using hl⟩
    exact owned_closeFd fd (l := [s.acceptFd]) (by simpa [fds, hpc, hfd] using ho)
  · refine ⟨bounded_closeFd _ hb, ?_, by simpa [inHand, hpc] using hl⟩
    exact owned_closeFd fd (l := [s.acceptFd]) (by simpa [fds, hpc, hfd] using ho)
  · refine ⟨bounded_closeFd (some s.acceptFd) hb, ?_, by simpa [inHand, hpc] using hl⟩
    exact owned_closeFd (s := s) (some s.acceptFd) (l := []) (by simpa [fds, hpc] using ho)
  · refine ⟨bounded_closeFd (some connfd) hb, ?_, by simpa [inHand, hpc] using hl⟩
    refine owned_closeFd (s := s) (some connfd) (l := s.acceptFd :: s.idleFd.toList) ?_
    rw [fds, hpc] at ho
    exact ho.perm (List.perm_append_singleton _ _).symm

/-- The reserve is opened again, or not. -/
theorem openIdle_cases {fd : Option Nat} (hn : s.next (.openIdle fd) = some t) :
    s.pc = .openIdle ∧
      ((fd = none ∧ t = { s with idleFd := none, pc := .rest }) ∨
        ∃ n, fd = some n ∧ s.table.lowest = some n ∧
          t = { s with table := s.table.set n .devNull, idleFd := some n, pc := .rest }) := by
  simp only [next, openNext] at hn
  split at hn
  · rename_i hpc
    exact ⟨hpc, .inl ⟨rfl, by simpa using hn.symm⟩⟩
  · rename_i n hpc
    obtain ⟨hlow, rfl⟩ := by simpa using hn
    exact ⟨hpc, .inr ⟨n, rfl, hlow, rfl⟩⟩
  · simp at hn

theorem inv_openIdle {fd : Option Nat} (hn : s.next (.openIdle fd) = some t) (hi : s.Inv) :
    t.Inv := by
  obtain ⟨hb, ho, hl⟩ := hi
  obtain ⟨hpc, ⟨-, rfl⟩ | ⟨n, -, hlow, rfl⟩⟩ := openIdle_cases hn
  · exact ⟨hb, by simpa [fds, hpc] using ho, by simpa [inHand, hpc] using hl⟩
  · refine ⟨hb.set (Table.lowest_eq_some hlow).1, ?_, by simpa [inHand, hpc] using hl⟩
    have hset := ho.set_lowest (w := .devNull) hlow rfl
    exact hset.perm (by simpa [fds, hpc] using List.Perm.swap _ _ _)

theorem deliver_cases (hn : s.next .deliver = some t) :
    ∃ k connfd, s.pc = .deliver k connfd ∧ s.newConnectionCallback = true ∧
      t = { s with
        table := s.table.set connfd (.handed k), pc := .rest
        disposed := s.disposed ++ [(k, .handed connfd)] } := by
  simp only [next, deliverNext] at hn
  split at hn
  · rename_i k connfd hpc
    obtain ⟨hcb, rfl⟩ := by simpa using hn
    exact ⟨k, connfd, hpc, hcb, rfl⟩
  · simp at hn

theorem inv_deliver (hn : s.next .deliver = some t) (hi : s.Inv) : t.Inv := by
  obtain ⟨hb, ho, hl⟩ := hi
  obtain ⟨k, connfd, hpc, -, rfl⟩ := deliver_cases hn
  have hmem : connfd ∈ s.fds := by simp [fds, hpc]
  obtain ⟨w, hw, -⟩ := (ho.mem_iff connfd).mp hmem
  refine ⟨hb.set (hb connfd w hw), ?_, by simpa [inHand, hpc] using hl⟩
  simpa [fds, hpc] using ho.set_other (n := connfd) (w := .handed k) rfl

theorem inv_next (hn : s.next a = some t) (hi : s.Inv) : t.Inv := by
  cases a with
  | arrive => exact inv_arrive hn hi
  | foreignOpen => exact inv_foreignOpen hn hi
  | foreignClose n => exact inv_foreignClose hn hi
  | accept => exact inv_accept hn hi
  | fail e dropped => exact inv_fail hn hi
  | close fd => exact inv_close hn hi
  | openIdle fd => exact inv_openIdle hn hi
  | deliver => exact inv_deliver hn hi
  | listen =>
    obtain ⟨hpc, rfl⟩ := by simpa [next] using hn
    exact ⟨hi.bounded, hi.owned, hi.ledger⟩
  | handleRead =>
    obtain ⟨⟨hpc, -⟩, rfl⟩ := by simpa [next] using hn
    obtain ⟨hb, ho, hl⟩ := hi
    exact ⟨hb, by simpa [fds, hpc] using ho, by simpa [inHand, hpc] using hl⟩
  | log e =>
    obtain ⟨hpc, rfl⟩ := by simpa [next] using hn
    obtain ⟨hb, ho, hl⟩ := hi
    exact ⟨hb, by simpa [fds, hpc] using ho, by simpa [inHand, hpc] using hl⟩
  | testErrno =>
    obtain ⟨hpc, rfl⟩ := by simpa [next] using hn
    obtain ⟨hb, ho, hl⟩ := hi
    refine ⟨hb, ?_, ?_⟩
    · split_ifs <;> simpa [fds, hpc] using ho
    · split_ifs <;> simpa [inHand, hpc] using hl
  | destroy =>
    obtain ⟨hpc, rfl⟩ := by simpa [next] using hn
    obtain ⟨hb, ho, hl⟩ := hi
    exact ⟨hb, by simpa [fds, hpc] using ho, by simpa [inHand, hpc] using hl⟩

theorem inv_initial (hi : Initial s) : s.Inv := by
  obtain ⟨table, acceptFd, idleFd, callback, rfl, hb, hl, hd, hown⟩ := hi
  refine ⟨hb, ⟨?_, fun n => ?_⟩, rfl⟩
  · have hne : acceptFd ≠ idleFd := by
      rintro rfl
      simp [hl] at hd
    simpa [fds, new] using hne
  · constructor
    · intro hn
      rcases (by simpa [fds, new] using hn : n = acceptFd ∨ n = idleFd) with rfl | rfl
      · exact ⟨_, hl, rfl⟩
      · exact ⟨_, hd, rfl⟩
    · rintro ⟨w, hn, hw⟩
      simpa [fds, new] using hown n w hn hw

theorem inv_exec (he : system.Exec h s) : s.Inv := by
  induction he with
  | start hi => exact inv_initial hi
  | snoc _ hs ih => exact inv_next hs ih

/-- Whatever the other threads open and close in between: the acceptor closes only what it holds,
holds nothing between two calls but the listening socket and its reserve and nothing at all once
destroyed, and every connection that came is pending, in hand, or dealt with in its turn. -/
theorem descriptors_linear (he : system.Exec h s) :
    (∀ n t, s.next (.close (some n)) = some t →
      ∃ w, s.table.holder n = some w ∧ w.ofAcceptor = true) ∧
    (s.pc = .rest → ∀ n, (∃ w, s.table.holder n = some w ∧ w.ofAcceptor = true) ↔
      n = s.acceptFd ∨ s.idleFd = some n) ∧
    (s.pc = .destroyed → ∀ n w, s.table.holder n = some w → w.ofAcceptor = false) ∧
    s.disposed.map Prod.fst ++ s.inHand ++ s.backlog = List.range s.arrived := by
  have hi := inv_exec he
  refine ⟨fun n t hn => ?_, fun hpc n => ?_, fun hpc n w hw => ?_, hi.ledger⟩
  · refine (hi.owned.mem_iff n).mp ?_
    rcases close_cases hn with ⟨hfd, ⟨hpc, -⟩ | ⟨hpc, -⟩ | ⟨hpc, -⟩⟩ | ⟨hfd, hpc, -⟩ |
      ⟨k, connfd, hfd, hpc, -⟩
    · simp [fds, hpc, ← hfd]
    · simp [fds, hpc, ← hfd]
    · simp [fds, hpc, ← hfd]
    · simp [fds, hpc, Option.some.inj hfd]
    · simp [fds, hpc, Option.some.inj hfd]
  · rw [← hi.owned.mem_iff n]
    simp [fds, hpc]
  · by_contra hne
    have hmem := (hi.owned.mem_iff n).mpr ⟨w, hw, by simpa using hne⟩
    simp [fds, hpc] at hmem

/-- Three descriptors, two of them the acceptor's and the last one free. -/
def tight : Table Holder where
  limit := 3
  holder n := match n with
    | 0 => some .listening
    | 1 => some .devNull
    | _ => none

theorem tight_initial : Initial (new tight 0 1 true) := by
  refine ⟨tight, 0, 1, true, rfl, ?_, rfl, rfl, ?_⟩
  · rintro (_ | _ | n) w hw
    · decide
    · decide
    · simp [tight] at hw
  · rintro (_ | _ | n) w hw -
    · exact .inl rfl
    · exact .inr rfl
    · simp [tight] at hw

/-- Two connections come where there is a descriptor for one. -/
def crowdedRun : List Label :=
  [.listen, .arrive, .arrive, .handleRead, .accept, .deliver, .handleRead, .fail .EMFILE false,
    .log .EMFILE, .testErrno, .close (some 1), .accept, .close (some 1), .openIdle (some 1)]

/-- A history whose end is known by what can be compared of it. -/
theorem exec_of_next {β : Type} {f : Acceptor → β} {v : β} (hi : Initial s)
    (hr : (h.foldlM next s).map f = some v) : ∃ t, system.Exec h t ∧ f t = v := by
  obtain ⟨t, ht, hv⟩ := Option.map_eq_some_iff.mp hr
  exact ⟨t, Trace.LTS.exec_of_foldlM (L := system) (fun _ _ _ hst => hst) hi ht, hv⟩

theorem descriptors_linear_crowded :
    ∃ s, system.Exec crowdedRun s ∧ s.disposed = [(0, .handed 2), (1, .refused)] ∧
      s.disposed.map Prod.fst ++ s.inHand ++ s.backlog = List.range s.arrived := by
  obtain ⟨s, he, hs⟩ := exec_of_next (f := disposed) tight_initial (h := crowdedRun)
    (v := [(0, .handed 2), (1, .refused)]) (by decide +kernel)
  exact ⟨s, he, hs, (descriptors_linear he).2.2.2⟩

end Acceptor

end Lute
