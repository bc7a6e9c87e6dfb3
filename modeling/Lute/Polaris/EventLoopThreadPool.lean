import Mathlib.Logic.Function.Basic
import Lute.Lib.RoundRobin
import Lute.Lib.Trace

/-! The pool of I/O loops: its start by `TCPServer::start`, which any thread may call at any time,
and the loops it gives to new connections. -/
namespace Lute

/-- `next` is an index in `loops`. -/
structure EventLoopThreadPool (L : Type) where
  baseLoop : L
  started : Bool
  numThreads : Int
  next : Nat
  loops : List L

namespace EventLoopThreadPool

variable {L : Type}

def new (baseLoop : L) : EventLoopThreadPool L := ⟨baseLoop, false, 0, 0, []⟩

def setThreadNum (p : EventLoopThreadPool L) (numThreads : Int) : EventLoopThreadPool L :=
  { p with numThreads }

/-- `none` is a failed assertion, or an index outside `loops_`. -/
def getNextLoop (p : EventLoopThreadPool L) : Option (L × EventLoopThreadPool L) :=
  if p.started then
    if p.loops = [] then some (p.baseLoop, p)
    else do
      let loop ← p.loops[p.next]?
      let next := p.next + 1
      pure (loop, { p with next := if p.loops.length ≤ next then 0 else next })
  else none

/-- Where the `k`-th request for a loop, counted from 0, is to go. -/
def assigned (p : EventLoopThreadPool L) (k : Nat) : L := RoundRobin.pick p.loops p.baseLoop k

/-- `k` loops have been given out since the start. -/
def Turn (p : EventLoopThreadPool L) (k : Nat) : Prop :=
  p.started = true ∧ (p.loops ≠ [] → p.next = k % p.loops.length)

variable {p : EventLoopThreadPool L} {k : Nat}

theorem getNextLoop_of_turn (h : p.Turn k) :
    ∃ q, p.getNextLoop = some (p.assigned k, q) ∧ q.Turn (k + 1) ∧
      q.baseLoop = p.baseLoop ∧ q.loops = p.loops ∧ q.numThreads = p.numThreads := by
  obtain ⟨hst, hnext⟩ := h
  by_cases hl : p.loops = []
  · refine ⟨p, ?_, ⟨hst, fun hne => absurd hl hne⟩, rfl, rfl, rfl⟩
    simp [getNextLoop, hst, hl, assigned]
  · have hk := hnext hl
    have hlt : p.next < p.loops.length := hk ▸ Nat.mod_lt _ (List.length_pos_of_ne_nil hl)
    refine ⟨{ p with next := if p.loops.length ≤ p.next + 1 then 0 else p.next + 1 }, ?_,
      ⟨hst, fun _ => RoundRobin.advance hl hk⟩, rfl, rfl, rfl⟩
    simp [getNextLoop, hst, hl, assigned, RoundRobin.pick, ← hk, hlt]

end EventLoopThreadPool

/-- Where a thread stands in `TCPServer::start`; `creating i` is at the test of the loop that
starts the threads of the pool. -/
inductive StartPc
  | idle
  | getAndSet
  | poolStart
  | creating (i : Nat)
  | assertNotListenning
  | runInLoop
  deriving DecidableEq, Repr

/-- The thread of the acceptor's loop, the loop that the pool's thread `i` publishes, and whether
there is a `threadInitCallback_`. -/
structure StartConfig (ι L : Type) where
  loopThread : ι
  baseLoop : L
  startLoop : Nat → L
  threadInitCallback : Bool

/-- `started` is `started_`, `posted` the `listen` functors in the loop's queue; `listens` counts
the calls of `Acceptor::listen`, `inits` are the loops `threadInitCallback_` was called with and
`assigned` those that `newConnection` has chosen. -/
structure ServerStart (ι L : Type) where
  started : Bool
  pool : EventLoopThreadPool L
  pcs : ι → StartPc
  posted : Nat
  listens : Nat
  inits : List L
  assigned : List L
  aborted : Bool

namespace ServerStart

/-- `getAndSet i old` is the exchange by thread `i` that reads `old`; `step i` is its next step
after it. -/
inductive Label (ι : Type)
  | setThreadNum (numThreads : Int)
  | call (i : ι)
  | getAndSet (i : ι) (old : Bool)
  | step (i : ι)
  | runFunctor
  | newConnection
  deriving DecidableEq, Repr

variable {ι L : Type} [DecidableEq ι]

def setPc (s : ServerStart ι L) (i : ι) (pc : StartPc) : ServerStart ι L :=
  { s with pcs := Function.update s.pcs i pc }

/-- `Acceptor::listen`. -/
def listen (s : ServerStart ι L) : ServerStart ι L := { s with listens := s.listens + 1 }

def abort (s : ServerStart ι L) : ServerStart ι L := { s with aborted := true }

/-- The pool's `start` up to its loop, with its two assertions. -/
def poolStart (cfg : StartConfig ι L) (s : ServerStart ι L) (i : ι) : ServerStart ι L :=
  if s.pool.started ∨ i ≠ cfg.loopThread then s.abort
  else { s.setPc i (.creating 0) with pool := { s.pool with started := true } }

def initLoop (cfg : StartConfig ι L) (s : ServerStart ι L) (l : L) : ServerStart ι L :=
  if cfg.threadInitCallback then { s with inits := s.inits ++ [l] } else s

/-- One round of the pool's loop, or its end. -/
def createNext (cfg : StartConfig ι L) (s : ServerStart ι L) (i : ι) (n : Nat) :
    ServerStart ι L :=
  if n < s.pool.numThreads then
    let s := { s with pool := { s.pool with loops := s.pool.loops ++ [cfg.startLoop n] } }
    (s.initLoop cfg (cfg.startLoop n)).setPc i (.creating (n + 1))
  else
    (if s.pool.numThreads = 0 then s.initLoop cfg cfg.baseLoop else s).setPc i .assertNotListenning

def startNext (cfg : StartConfig ι L) (s : ServerStart ι L) (i : ι) :
    Option (ServerStart ι L) :=
  match s.pcs i with
  | .idle | .getAndSet => none
  | .poolStart => some (s.poolStart cfg i)
  | .creating n => some (s.createNext cfg i n)
  | .assertNotListenning => some (if 0 < s.listens then s.abort else s.setPc i .runInLoop)
  | .runInLoop =>
    some (if i = cfg.loopThread then (s.setPc i .idle).listen
      else { s.setPc i .idle with posted := s.posted + 1 })

/-- `setThreadNum`, `newConnection` and functors run in the loop's thread, outside `start`. -/
def next (cfg : StartConfig ι L) (s : ServerStart ι L) (a : Label ι) : Option (ServerStart ι L) :=
  if s.aborted then none
  else match a with
  | .setThreadNum numThreads =>
    if s.pcs cfg.loopThread = .idle then
      some (if 0 ≤ numThreads then { s with pool := s.pool.setThreadNum numThreads } else s.abort)
    else none
  | .call i => if s.pcs i = .idle then some (s.setPc i .getAndSet) else none
  | .getAndSet i old =>
    if s.pcs i = .getAndSet ∧ old = s.started then
      some { s.setPc i (if old then .idle else .poolStart) with started := true }
    else none
  | .step i => s.startNext cfg i
  | .runFunctor =>
    if s.pcs cfg.loopThread = .idle ∧ 0 < s.posted then
      some { s.listen with posted := s.posted - 1 }
    else none
  | .newConnection =>
    if s.pcs cfg.loopThread = .idle ∧ 0 < s.listens then
      some (match s.pool.getNextLoop with
        | some (l, pool) => { s with pool, assigned := s.assigned ++ [l] }
        | none => s.abort)
    else none

def new (cfg : StartConfig ι L) : ServerStart ι L :=
  ⟨false, .new cfg.baseLoop, fun _ => .idle, 0, 0, [], [], false⟩

def system (cfg : StartConfig ι L) : Trace.LTS (ServerStart ι L) (Label ι) where
  init s := s = new cfg
  step s a t := s.next cfg a = some t

/-- The threads whose exchange found the server not started. -/
def winners (h : List (Label ι)) : List ι :=
  h.filterMap fun
    | .getAndSet i false => some i
    | _ => none

/-- The loops of the first `n` threads, and the calls of `threadInitCallback_` for them. -/
def Created (cfg : StartConfig ι L) (s : ServerStart ι L) (n : Nat) : Prop :=
  s.pool.started = true ∧ s.pool.loops = (List.range n).map cfg.startLoop ∧
    s.inits = if cfg.threadInitCallback then (List.range n).map cfg.startLoop else []

/-- Every loop of the pool, or the base loop in want of one, was initialised once. -/
def Ready (cfg : StartConfig ι L) (s : ServerStart ι L) (n : Nat) : Prop :=
  s.pool.started = true ∧ s.pool.loops = (List.range n).map cfg.startLoop ∧
    s.inits = if cfg.threadInitCallback then
      if n = 0 then [cfg.baseLoop] else (List.range n).map cfg.startLoop
      else []

/-- Nothing has been accepted. -/
def Unused (s : ServerStart ι L) : Prop := s.listens = 0 ∧ s.assigned = [] ∧ s.pool.next = 0

/-- How far the thread `i`, whose exchange found 0, has brought the server. -/
def Brought (cfg : StartConfig ι L) (s : ServerStart ι L) (i : ι) : Prop :=
  match s.pcs i with
  | .poolStart => s.Unused ∧ s.pool.started = false ∧ s.pool.loops = [] ∧ s.inits = []
  | .creating n => i = cfg.loopThread ∧ s.Unused ∧ n ≤ s.pool.numThreads ∧ s.Created cfg n
  | .assertNotListenning | .runInLoop =>
    i = cfg.loopThread ∧ s.Unused ∧ s.Ready cfg s.pool.numThreads.toNat
  | .idle | .getAndSet =>
    i = cfg.loopThread ∧ s.listens = 1 ∧ (∃ n, s.Ready cfg n) ∧ s.pool.Turn s.assigned.length ∧
      s.assigned = (List.range s.assigned.length).map s.pool.assigned

structure Inv (cfg : StartConfig ι L) (h : List (Label ι)) (s : ServerStart ι L) : Prop where
  baseLoop : s.pool.baseLoop = cfg.baseLoop
  numThreads : 0 ≤ s.pool.numThreads
  posted : s.posted = 0
  first : s.started = false → winners h = [] ∧ s.Unused ∧ s.pool.started = false ∧
    s.pool.loops = [] ∧ s.inits = []
  bystander : ∀ j, j ∉ winners h → s.pcs j = .idle ∨ s.pcs j = .getAndSet
  winner : s.started = true → ∃ i, winners h = [i] ∧ s.Brought cfg i
  cause : s.aborted = true → (∃ n < 0, .setThreadNum n ∈ h) ∨
    ∃ i, i ≠ cfg.loopThread ∧ winners h = [i]

variable {cfg : StartConfig ι L} {s t : ServerStart ι L} {a : Label ι} {h : List (Label ι)}

omit [DecidableEq ι] in
@[simp] theorem winners_snoc_getAndSet {i : ι} {old : Bool} :
    winners (h ++ [.getAndSet i old]) = winners h ++ if old then [] else [i] := by
  cases old <;> simp [winners]

theorem setPc_self {i : ι} {pc : StartPc} : (s.setPc i pc).pcs i = pc := by
  simp [setPc]

theorem setPc_of_ne {i j : ι} {pc : StartPc} (hj : j ≠ i) : (s.setPc i pc).pcs j = s.pcs j := by
  simp [setPc, hj]

/-- A thread that is past its exchange has won it. -/
theorem Inv.mem_winners (hi : Inv cfg h s) {i : ι} (h1 : s.pcs i ≠ .idle)
    (h2 : s.pcs i ≠ .getAndSet) : i ∈ winners h := by
  by_contra hn
  rcases hi.bystander i hn with hb | hb
  · exact h1 hb
  · exact h2 hb

omit [DecidableEq ι] in
theorem Inv.brought (hi : Inv cfg h s) {i : ι} (hw : i ∈ winners h) :
    s.started = true ∧ winners h = [i] ∧ s.Brought cfg i := by
  have hst : s.started = true := by
    by_contra hn
    simp [(hi.first (by simpa using hn)).1] at hw
  obtain ⟨j, hj, hb⟩ := hi.winner hst
  obtain rfl : i = j := by simpa [hj] using hw
  exact ⟨hst, hj, hb⟩

theorem inv_setThreadNum {n : Int} (hn : s.next cfg (.setThreadNum n) = some t)
    (hi : Inv cfg h s) : Inv cfg (h ++ [.setThreadNum n]) t := by
  have hwin : winners (h ++ [.setThreadNum n]) = winners h := by simp [winners]
  simp only [next] at hn
  split_ifs at hn with hab hidle hneg
  · obtain rfl := by simpa using hn
    refine ⟨hi.baseLoop, hneg, hi.posted, ?_, ?_, ?_, by simp [hab]⟩
    · rw [hwin]
      exact hi.first
    · rw [hwin]
      exact hi.bystander
    · intro hst
      obtain ⟨i, hw, hb⟩ := hi.winner hst
      refine ⟨i, hwin.trans hw, ?_⟩
      -- the number is read between the start of the pool and `listen` only, in the same thread
      unfold Brought at hb ⊢
      cases hpc : s.pcs i with
      | idle | getAndSet | poolStart =>
        rw [hpc] at hb
        exact hb
      | creating _ | assertNotListenning | runInLoop =>
        simp only [hpc] at hb
        simp [← hb.1, hpc] at hidle
  · obtain rfl := by simpa using hn
    refine ⟨hi.baseLoop, hi.numThreads, hi.posted, ?_, ?_, ?_, fun _ => ?_⟩
    · rw [hwin]
      exact hi.first
    · rw [hwin]
      exact hi.bystander
    · rw [hwin]
      exact hi.winner
    · exact .inl ⟨n, by omega, by simp⟩

theorem inv_call {i : ι} (hn : s.next cfg (.call i) = some t) (hi : Inv cfg h s) :
    Inv cfg (h ++ [.call i]) t := by
  have hwin : winners (h ++ [.call i]) = winners h := by simp [winners]
  simp only [next] at hn
  split_ifs at hn with hab hidle
  obtain rfl := by simpa using hn
  refine ⟨hi.baseLoop, hi.numThreads, hi.posted, ?_, fun j hj => ?_, fun hst => ?_, ?_⟩
  · rw [hwin]
    exact hi.first
  · by_cases hji : j = i
    · subst hji
      exact .inr setPc_self
    · rw [setPc_of_ne hji]
      exact hi.bystander j (hwin ▸ hj)
  · obtain ⟨w, hw, hb⟩ := hi.winner hst
    refine ⟨w, hwin.trans hw, ?_⟩
    unfold Brought at hb ⊢
    by_cases hwi : w = i
    · subst hwi
      rw [setPc_self]
      rwa [hidle] at hb
    · rwa [setPc_of_ne hwi]
  · intro hc
    exact absurd hc (by simpa [setPc] using hab)

theorem inv_getAndSet {i : ι} {old : Bool} (hn : s.next cfg (.getAndSet i old) = some t)
    (hi : Inv cfg h s) : Inv cfg (h ++ [.getAndSet i old]) t := by
  simp only [next] at hn
  split_ifs at hn with hab hpc hold
  · obtain ⟨hpc, hst⟩ := hpc
    rw [hold] at hst
    obtain rfl := by simpa using hn
    obtain ⟨w, hw, hb⟩ := hi.winner hst.symm
    refine ⟨hi.baseLoop, hi.numThreads, hi.posted, by simp, fun j hj => ?_, fun _ => ?_,
      fun hc => absurd hc hab⟩
    · by_cases hji : j = i
      · subst hji
        exact .inl setPc_self
      · have := hi.bystander j (by simpa [hold] using hj)
        rwa [← setPc_of_ne hji] at this
    · refine ⟨w, by simpa [hold] using hw, ?_⟩
      unfold Brought at hb ⊢
      by_cases hwi : w = i
      · subst hwi
        rw [hpc] at hb
        rw [setPc_self]
        exact hb
      · rw [setPc_of_ne hwi]
        exact hb
  · obtain ⟨hpc, hst⟩ := hpc
    obtain rfl := by simpa using hn
    obtain ⟨hnone, hfirst⟩ := hi.first (by simpa [← hst] using hold)
    refine ⟨hi.baseLoop, hi.numThreads, hi.posted, by simp, fun j hj => ?_, fun _ => ?_,
      fun hc => absurd hc hab⟩
    · have hji : j ≠ i := by
        rintro rfl
        simp [hold] at hj
      have := hi.bystander j (by simp [hnone])
      rwa [← setPc_of_ne hji] at this
    · refine ⟨i, by simp [hnone, hold], ?_⟩
      unfold Brought
      rw [setPc_self]
      exact hfirst

omit [DecidableEq ι] in
/-- What a step of `start` may change without harm: the winner goes on, the others stay. -/
theorem Inv.advance {i : ι} (hi : Inv cfg h s) (hw : i ∈ winners h)
    (hwin : winners (h ++ [a]) = winners h) (hbase : t.pool.baseLoop = s.pool.baseLoop)
    (hnum : t.pool.numThreads = s.pool.numThreads) (hpost : t.posted = s.posted)
    (hst : t.started = s.started) (hpcs : ∀ j, j ≠ i → t.pcs j = s.pcs j)
    (hb : t.Brought cfg i) (hcause : t.aborted = true → i ≠ cfg.loopThread) :
    Inv cfg (h ++ [a]) t := by
  obtain ⟨hstart, hone, -⟩ := hi.brought hw
  refine ⟨hbase.trans hi.baseLoop, hnum ▸ hi.numThreads, hpost.trans hi.posted, ?_, ?_, ?_, ?_⟩
  · simp [hst, hstart]
  · intro j hj
    have hji : j ≠ i := by
      rintro rfl
      exact hj (hwin ▸ hw)
    rw [hpcs j hji]
    exact hi.bystander j (hwin ▸ hj)
  · exact fun _ => ⟨i, hwin.trans hone, hb⟩
  · exact fun hab => .inr ⟨i, hcause hab, hwin.trans hone⟩

omit [DecidableEq ι] in
theorem initLoop_eq (l : L) : s.initLoop cfg l =
    { s with inits := s.inits ++ if cfg.threadInitCallback then [l] else [] } := by
  unfold initLoop
  split <;> simp

theorem inv_creating {i : ι} {n : Nat} (hpc : s.pcs i = .creating n) (hi : Inv cfg h s)
    (hab : ¬ s.aborted = true) : Inv cfg (h ++ [.step i]) (s.createNext cfg i n) := by
  have hw : i ∈ winners h := hi.mem_winners (by simp [hpc]) (by simp [hpc])
  have hwin : winners (h ++ [.step i]) = winners h := by simp [winners]
  obtain ⟨-, -, hb⟩ := hi.brought hw
  unfold Brought at hb
  rw [hpc] at hb
  obtain ⟨hloop, hun, hle, hst, hloops, hinits⟩ := hb
  unfold createNext
  split_ifs with hlt hzero
  · simp only [initLoop_eq]
    refine hi.advance hw hwin rfl rfl rfl rfl (fun j hj => setPc_of_ne hj) ?_
      (fun hc => absurd hc hab)
    unfold Brought
    rw [setPc_self]
    refine ⟨hloop, hun, ?_, hst, ?_, ?_⟩
    · simp only [setPc]
      omega
    · simp [setPc, hloops, List.range_succ]
    · simp only [setPc, hinits]
      split <;> simp [List.range_succ]
  · rw [initLoop_eq]
    refine hi.advance hw hwin rfl rfl rfl rfl (fun j hj => setPc_of_ne hj) ?_
      (fun hc => absurd hc hab)
    obtain rfl : n = 0 := by omega
    unfold Brought
    rw [setPc_self]
    refine ⟨hloop, hun, hst, ?_, ?_⟩
    · simp [setPc, hloops, hzero]
    · simp only [setPc, hinits, hzero]
      split <;> simp
  · refine hi.advance hw hwin rfl rfl rfl rfl (fun j hj => setPc_of_ne hj) ?_
      (fun hc => absurd hc hab)
    obtain rfl : n = s.pool.numThreads.toNat := by omega
    have hpos : s.pool.numThreads.toNat ≠ 0 := by omega
    unfold Brought
    rw [setPc_self]
    refine ⟨hloop, hun, hst, hloops, ?_⟩
    simpa [setPc, hpos] using hinits

theorem inv_step {i : ι} (hn : s.next cfg (.step i) = some t) (hi : Inv cfg h s) :
    Inv cfg (h ++ [.step i]) t := by
  simp only [next] at hn
  split_ifs at hn with hab
  have hwin : winners (h ++ [.step i]) = winners h := by simp [winners]
  cases hpc : s.pcs i with
  | idle | getAndSet => simp [startNext, hpc] at hn
  | creating n =>
    obtain rfl := by simpa [startNext, hpc] using hn
    exact inv_creating hpc hi hab
  | poolStart =>
    obtain rfl := by simpa [startNext, hpc] using hn
    have hw : i ∈ winners h := hi.mem_winners (by simp [hpc]) (by simp [hpc])
    obtain ⟨-, -, hb⟩ := hi.brought hw
    have hbrought := hb
    unfold Brought at hb
    rw [hpc] at hb
    obtain ⟨hun, hst, hloops, hinits⟩ := hb
    unfold poolStart
    split_ifs with hassert
    · refine hi.advance hw hwin rfl rfl rfl rfl (fun _ _ => rfl) hbrought fun _ => ?_
      exact hassert.resolve_left (by simp [hst])
    · refine hi.advance hw hwin rfl rfl rfl rfl (fun j hj => setPc_of_ne hj) ?_
        (fun hc => absurd hc hab)
      unfold Brought
      rw [setPc_self]
      refine ⟨by simpa using (not_or.mp hassert).2, hun, hi.numThreads, rfl, hloops, ?_⟩
      simpa [setPc] using hinits
  | assertNotListenning =>
    obtain rfl := by simpa [startNext, hpc] using hn
    have hw : i ∈ winners h := hi.mem_winners (by simp [hpc]) (by simp [hpc])
    obtain ⟨-, -, hb⟩ := hi.brought hw
    unfold Brought at hb
    rw [hpc] at hb
    rw [if_neg (by simp [hb.2.1.1])]
    refine hi.advance hw hwin rfl rfl rfl rfl (fun j hj => setPc_of_ne hj) ?_
      (fun hc => absurd hc hab)
    unfold Brought
    rw [setPc_self]
    exact hb
  | runInLoop =>
    obtain rfl := by simpa [startNext, hpc] using hn
    have hw : i ∈ winners h := hi.mem_winners (by simp [hpc]) (by simp [hpc])
    obtain ⟨-, -, hb⟩ := hi.brought hw
    unfold Brought at hb
    rw [hpc] at hb
    obtain ⟨hloop, ⟨hl, hassigned, hnext⟩, hready⟩ := hb
    rw [if_pos hloop]
    refine hi.advance hw hwin rfl rfl rfl rfl (fun j hj => setPc_of_ne hj) ?_
      (fun hc => absurd hc hab)
    unfold Brought
    rw [show (s.setPc i .idle).listen.pcs i = .idle from setPc_self]
    refine ⟨hloop, by simp [listen, setPc, hl], ⟨_, hready⟩, ⟨hready.1, ?_⟩, ?_⟩
    · simp [listen, setPc, hassigned, hnext]
    · simp [listen, setPc, hassigned]

omit [DecidableEq ι] in
/-- The winner is past `start` as soon as the server listens. -/
theorem Inv.listening (hi : Inv cfg h s) (hl : 0 < s.listens) :
    winners h = [cfg.loopThread] ∧ s.listens = 1 ∧ (∃ n, s.Ready cfg n) ∧
      (s.pcs cfg.loopThread = .idle ∨ s.pcs cfg.loopThread = .getAndSet) ∧
      s.pool.Turn s.assigned.length ∧
      s.assigned = (List.range s.assigned.length).map s.pool.assigned := by
  have hst : s.started = true := by
    by_contra hne
    have := (hi.first (by simpa using hne)).2.1.1
    omega
  obtain ⟨w, hw, hb⟩ := hi.winner hst
  unfold Brought at hb
  cases hpc : s.pcs w with
  | poolStart =>
    rw [hpc] at hb
    have := hb.1.1
    omega
  | creating _ | assertNotListenning | runInLoop =>
    rw [hpc] at hb
    have := hb.2.1.1
    omega
  | idle | getAndSet =>
    rw [hpc] at hb
    obtain ⟨rfl, hone, hready, hturn⟩ := hb
    exact ⟨hw, hone, hready, by simp [hpc], hturn⟩

theorem inv_newConnection (hn : s.next cfg .newConnection = some t) (hi : Inv cfg h s) :
    Inv cfg (h ++ [.newConnection]) t := by
  simp only [next] at hn
  split_ifs at hn with hab hidle
  obtain ⟨hidle, hlis⟩ := hidle
  obtain ⟨hw, hone, ⟨n, hready⟩, -, hturn, hassigned⟩ := hi.listening hlis
  have hwin : winners (h ++ [.newConnection]) = winners h := by simp [winners]
  obtain ⟨q, hq, hqturn, hqbase, hqloops, hqnum⟩ :=
    EventLoopThreadPool.getNextLoop_of_turn hturn
  rw [hq] at hn
  obtain rfl := by simpa using hn
  refine hi.advance (i := cfg.loopThread) (by simp [hw]) hwin hqbase hqnum rfl rfl
    (fun _ _ => rfl) ?_ (fun hc => absurd hc hab)
  unfold Brought
  simp only [hidle]
  refine ⟨trivial, hone, ⟨n, hqturn.1, hqloops.trans hready.2.1, hready.2.2⟩, ?_, ?_⟩
  · simpa using hqturn
  · have hsame : q.assigned = s.pool.assigned := by
      funext k
      simp [EventLoopThreadPool.assigned, hqbase, hqloops]
    simp only [List.length_append, List.length_singleton, List.range_succ, List.map_append,
      List.map_singleton, hsame, ← hassigned]

theorem inv_next (hn : s.next cfg a = some t) (hi : Inv cfg h s) : Inv cfg (h ++ [a]) t := by
  cases a with
  | setThreadNum n => exact inv_setThreadNum hn hi
  | call i => exact inv_call hn hi
  | getAndSet i old => exact inv_getAndSet hn hi
  | step i => exact inv_step hn hi
  | runFunctor => simp [next, hi.posted] at hn
  | newConnection => exact inv_newConnection hn hi

theorem inv_exec (he : (system cfg).Exec h s) : Inv cfg h s := by
  induction he with
  | start hi =>
    obtain rfl := hi
    refine ⟨rfl, le_rfl, rfl, fun _ => ⟨rfl, ⟨rfl, rfl, rfl⟩, rfl, rfl, rfl⟩, fun _ _ => .inl rfl,
      by simp [new], by simp [new]⟩
  | snoc _ hs ih => exact inv_next hs ih

/-- What `start()` may promise to callers in any threads. -/
structure StartedOnce (cfg : StartConfig ι L) (h : List (Label ι)) (s : ServerStart ι L) :
    Prop where
  winners : (winners h).length ≤ 1
  listens : s.listens ≤ 1
  foreign : ∀ i, i ≠ cfg.loopThread → ServerStart.winners h = [i] → s.listens = 0
  opening : ∀ a t, s.next cfg a = some t → s.listens < t.listens →
    t.Ready cfg t.pool.numThreads.toNat
  fixed : ∀ a t, s.next cfg a = some t → 0 < s.listens →
    t.pool.loops = s.pool.loops ∧ t.inits = s.inits
  assigned : s.assigned = (List.range s.assigned.length).map s.pool.assigned
  aborted : s.aborted = true → (∃ n < 0, .setThreadNum n ∈ h) ∨
    ∃ i, i ≠ cfg.loopThread ∧ ServerStart.winners h = [i]

/-- Only the rounds of the pool's loop and the last step of `start` change what is compared. -/
theorem Inv.next_cases (hi : Inv cfg h s) (hn : s.next cfg a = some t) :
    (t.listens = s.listens ∧ t.pool.loops = s.pool.loops ∧ t.inits = s.inits) ∨
      (∃ i n, s.pcs i = .creating n ∧ t.listens = s.listens) ∨
      s.pcs cfg.loopThread = .runInLoop ∧ t = (s.setPc cfg.loopThread .idle).listen := by
  cases a with
  | setThreadNum n =>
    simp only [next] at hn
    split_ifs at hn <;> obtain rfl := by simpa using hn
    · exact .inl ⟨rfl, rfl, rfl⟩
    · exact .inl ⟨rfl, rfl, rfl⟩
  | call i =>
    simp only [next] at hn
    split_ifs at hn
    obtain rfl := by simpa using hn
    exact .inl ⟨rfl, rfl, rfl⟩
  | getAndSet i old =>
    simp only [next] at hn
    split_ifs at hn <;> obtain rfl := by simpa using hn
    · exact .inl ⟨rfl, rfl, rfl⟩
    · exact .inl ⟨rfl, rfl, rfl⟩
  | runFunctor => simp [next, hi.posted] at hn
  | newConnection =>
    simp only [next] at hn
    split_ifs at hn with hab hidle
    obtain ⟨-, -, -, -, hturn, -⟩ := hi.listening hidle.2
    obtain ⟨q, hq, -, -, hqloops, -⟩ := EventLoopThreadPool.getNextLoop_of_turn hturn
    rw [hq] at hn
    obtain rfl := by simpa using hn
    exact .inl ⟨rfl, hqloops, rfl⟩
  | step i =>
    simp only [next] at hn
    split_ifs at hn with hab
    cases hpc : s.pcs i with
    | idle | getAndSet => simp [startNext, hpc] at hn
    | poolStart =>
      obtain rfl := by simpa [startNext, hpc] using hn
      unfold poolStart
      split_ifs <;> exact .inl ⟨rfl, rfl, rfl⟩
    | creating n =>
      obtain rfl := by simpa [startNext, hpc] using hn
      refine .inr (.inl ⟨i, n, hpc, ?_⟩)
      unfold createNext
      simp only [initLoop_eq]
      split_ifs <;> rfl
    | assertNotListenning =>
      obtain rfl := by simpa [startNext, hpc] using hn
      split_ifs <;> exact .inl ⟨rfl, rfl, rfl⟩
    | runInLoop =>
      obtain ⟨-, -, hb⟩ := hi.brought (hi.mem_winners (i := i) (by simp [hpc]) (by simp [hpc]))
      unfold Brought at hb
      rw [hpc] at hb
      obtain rfl := hb.1
      obtain rfl := by simpa [startNext, hpc] using hn
      exact .inr (.inr ⟨hpc, rfl⟩)

/-- Whichever threads call `start()` and however they interleave, with each other and with the
loop's work: the pool is started and the socket put to listen at most once, in this order; every
loop is initialised once; connections go to the loops in turn; and no assertion of `start`, of the
pool or of `getNextLoop` fails but when the first of the callers is not the loop's thread. -/
theorem started_once (he : (system cfg).Exec h s) : StartedOnce cfg h s := by
  have hi := inv_exec he
  constructor
  · cases hst : s.started with
    | false => simp [(hi.first hst).1]
    | true =>
      obtain ⟨w, hw, -⟩ := hi.winner hst
      simp [hw]
  · by_contra hl
    have := (hi.listening (by omega)).2.1
    omega
  · intro i hne hw
    by_contra hl
    have := (hi.listening (Nat.pos_of_ne_zero hl)).1
    exact hne (by simpa [hw] using this)
  · intro a t hn hl
    rcases hi.next_cases hn with ⟨heq, -⟩ | ⟨i, n, -, heq⟩ | ⟨hpc, rfl⟩
    · omega
    · omega
    · obtain ⟨-, -, hb⟩ := hi.brought
        (hi.mem_winners (i := cfg.loopThread) (by simp [hpc]) (by simp [hpc]))
      unfold Brought at hb
      rw [hpc] at hb
      exact hb.2.2
  · intro a t hn hl
    obtain ⟨hw, -, -, hpcs, -⟩ := hi.listening hl
    rcases hi.next_cases hn with ⟨-, hkeep⟩ | ⟨i, n, hpc, -⟩ | ⟨hpc, -⟩
    · exact hkeep
    · have hmem := hi.mem_winners (i := i) (by simp [hpc]) (by simp [hpc])
      obtain rfl : i = cfg.loopThread := by simpa [hw] using hmem
      simp [hpc] at hpcs
    · simp [hpc] at hpcs
  · rcases Nat.eq_zero_or_pos s.listens with hl | hl
    · cases hst : s.started with
      | false => simp [(hi.first hst).2.1.2.1]
      | true =>
        obtain ⟨w, -, hb⟩ := hi.winner hst
        unfold Brought at hb
        cases hpc : s.pcs w with
        | poolStart =>
          rw [hpc] at hb
          simp [hb.1.2.1]
        | creating _ | assertNotListenning | runInLoop =>
          rw [hpc] at hb
          simp [hb.2.1.2.1]
        | idle | getAndSet =>
          rw [hpc] at hb
          exact hb.2.2.2.2
    · exact (hi.listening hl).2.2.2.2.2
  · exact hi.cause

/-- Two calls, the loop's thread first; then three connections for two loops. -/
def startRun : List (Label Bool) :=
  [.setThreadNum 2, .call false, .call true, .getAndSet false false, .getAndSet true true,
    .step false, .step false, .step false, .step false, .step false, .step false, .newConnection,
    .newConnection, .newConnection]

theorem started_once_two : ∃ s, (system ⟨false, 0, (· + 1), true⟩).Exec startRun s ∧
    s.assigned = [1, 2, 1] ∧ StartedOnce ⟨false, 0, (· + 1), true⟩ startRun s := by
  have hrun : (startRun.foldlM (next ⟨false, 0, (· + 1), true⟩) (new ⟨false, 0, (· + 1), true⟩)).map
      ServerStart.assigned = some [1, 2, 1] := by decide +kernel
  obtain ⟨s, hs, hv⟩ := Option.map_eq_some_iff.mp hrun
  have he := Trace.LTS.exec_of_foldlM (L := system ⟨false, 0, (· + 1), true⟩)
    (fun _ _ _ hst => hst) rfl hs
  exact ⟨s, he, hv, started_once he⟩

end ServerStart

end Lute
