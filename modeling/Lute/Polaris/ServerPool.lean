import Lute.Polaris.EventLoopThreadPool
import Lute.Polaris.LifeCycle

/-! The server with its pool: which loop a connection lives in, and how the connections spread. -/
namespace Lute

/-- The server and the pool that `newConnection` asks for a loop. -/
structure PooledServer (L : Type) where
  server : TCPServer L
  pool : EventLoopThreadPool L

namespace PooledServer

open TCPServer (Label Step)

variable {L : Type} [DecidableEq L]

/-- The server's steps, but that a connection goes to the loop `getNextLoop` returns. -/
inductive PooledStep (cfg : ServerConfig L) : PooledServer L → Label L → PooledServer L → Prop
  | newConnection {s : PooledServer L} {t : TCPServer L} {q : EventLoopThreadPool L} {c : Nat}
      {io : L} (hl : s.pool.getNextLoop = some (io, q))
      (hs : Step cfg s.server (.newConnection c io) t) :
      PooledStep cfg s (.newConnection c io) ⟨t, q⟩
  | other {s : PooledServer L} {t : TCPServer L} {a : Label L}
      (ha : ∀ c io, a ≠ .newConnection c io) (hs : Step cfg s.server a t) :
      PooledStep cfg s a ⟨t, s.pool⟩

/-- The pool has been started and no loop been asked for; its threads have a loop each. -/
structure Initial (cfg : ServerConfig L) (s : PooledServer L) : Prop where
  server : TCPServer.Initial s.server
  baseLoop : s.pool.baseLoop = cfg.loop
  turn : s.pool.Turn 0
  loops : s.pool.loops.Nodup

def system (cfg : ServerConfig L) : Trace.LTS (PooledServer L) (Label L) where
  init := Initial cfg
  step := PooledStep cfg

variable {cfg : ServerConfig L} {s t : PooledServer L} {a : Label L} {h : List (Label L)}

theorem PooledStep.server (hs : PooledStep cfg s a t) : Step cfg s.server a t.server := by
  cases hs with
  | newConnection _ hs => exact hs
  | other _ hs => exact hs

theorem server_exec (he : (system cfg).Exec h s) : (TCPServer.system cfg).Exec h s.server := by
  induction he with
  | start hi => exact .start hi.server
  | snoc _ hs ih => exact ih.snoc hs.server

/-- Every accepted connection is where its turn has put it, and the pool knows whose turn is
next. -/
structure Inv (s : PooledServer L) : Prop where
  pos : 1 ≤ s.server.nextConnId
  turn : s.pool.Turn (s.server.nextConnId - 1)
  loops : s.pool.loops.Nodup
  owner : ∀ c, 1 ≤ c → c < s.server.nextConnId → s.server.owner c = s.pool.assigned (c - 1)

theorem owner_eq {s t : TCPServer L} (hs : Step cfg s a t) (ha : ∀ c io, a ≠ .newConnection c io) :
    t.owner = s.owner ∧ t.nextConnId = s.nextConnId := by
  cases hs with
  | newConnection => exact absurd rfl (ha _ _)
  | exec => exact ⟨TCPServer.owner_exec, TCPServer.nextConnId_exec⟩
  | poll | handleEvent | move | run | app | post | timer => exact ⟨rfl, rfl⟩

theorem inv_step (hs : PooledStep cfg s a t) (hi : s.Inv) : t.Inv := by
  cases hs with
  | other ha hs =>
    obtain ⟨howner, hid⟩ := owner_eq hs ha
    refine ⟨hid ▸ hi.pos, hid ▸ hi.turn, hi.loops, fun c hc hlt => ?_⟩
    exact (congrFun howner c).trans (hi.owner c hc (hid ▸ hlt))
  | newConnection hl hs =>
    rename_i t' q c io
    obtain ⟨q', hq, hturn, hbase, hloops, -⟩ := EventLoopThreadPool.getNextLoop_of_turn hi.turn
    obtain ⟨rfl, rfl⟩ : io = s.pool.assigned (s.server.nextConnId - 1) ∧ q = q' := by
      simpa [hq, eq_comm] using hl
    have hassigned : q.assigned = s.pool.assigned := by
      funext k
      simp [EventLoopThreadPool.assigned, hbase, hloops]
    have hpos := hi.pos
    cases hs with
    | newConnection =>
      obtain ⟨hid, -, howner, -⟩ := TCPServer.newConnection_frame cfg s.server
        (s.pool.assigned (s.server.nextConnId - 1)) ‹Bool›
      refine ⟨by simp [hid], ?_, hloops ▸ hi.loops, fun d hd hlt => ?_⟩
      · rw [hid, show s.server.nextConnId + 1 - 1 = s.server.nextConnId - 1 + 1 by omega]
        exact hturn
      · rw [hassigned, howner, Function.update_apply]
        split_ifs with hdn
        · rw [hdn]
        · rw [hid] at hlt
          exact hi.owner d hd (by omega)

theorem inv_exec (he : (system cfg).Exec h s) : s.Inv := by
  induction he with
  | start hi =>
    have hid := hi.server.nextConnId
    exact ⟨by omega, by simpa [hid] using hi.turn, hi.loops, fun c hc hlt => by omega⟩
  | snoc _ hs ih => exact inv_step hs ih

/-- But for the erasure from the map, everything done for a connection is done in its loop. -/
theorem owner_of_todo {s : TCPServer L} {c : Nat} {st : Stage} {l : L} {i : Item}
    {rest : List Item} (hat : TCPServer.At cfg s c st) (htodo : (s.loops l).todo = i :: rest)
    (hc : i.conn = c) (hi : ∀ d, i ≠ .removeConnectionInLoop d) : l = s.owner c := by
  subst hc
  cases htok : i.isToken with
  | false => exact (hat.isOut_of_todo htodo htok).2
  | true =>
    obtain ⟨hl, htokens⟩ := hat.token_of_todo htodo htok
    cases st with
    | closed =>
      simp only [Stage.tokens, List.cons.injEq] at htokens
      exact absurd htokens.1.symm (hi _)
    | absent | connecting | established | up | closing | down | removed | destroyed | gone =>
      exact hl

/-- With a pool the server does nothing it does not do without one; the connections go to the
loops of the pool in turn, so that no loop has ever been given two more of them than another,
closed ones included; and the loop a connection has gone to is where all is done for it but its
erasure from the server's map. -/
theorem connections_spread (he : (system cfg).Exec h s) :
    (TCPServer.system cfg).Exec h s.server ∧
    (∀ c, 1 ≤ c → c < s.server.nextConnId → s.server.owner c = s.pool.assigned (c - 1)) ∧
    (∀ l ∈ s.pool.loops, ∀ l' ∈ s.pool.loops,
      ((List.range' 1 (s.server.nextConnId - 1)).map s.server.owner).count l ≤
        ((List.range' 1 (s.server.nextConnId - 1)).map s.server.owner).count l' + 1) ∧
    ∀ l i state t, Step cfg s.server (.exec l i state) t → (∀ c, i ≠ .removeConnectionInLoop c) →
      l = s.pool.assigned (i.conn - 1) := by
  have hi := inv_exec he
  have hserver := server_exec he
  refine ⟨hserver, hi.owner, fun l hl l' hl' => ?_, fun l i state t hs hne => ?_⟩
  · have howners : (List.range' 1 (s.server.nextConnId - 1)).map s.server.owner =
        (List.range (s.server.nextConnId - 1)).map s.pool.assigned := by
      rw [List.range'_eq_map_range, List.map_map]
      refine List.map_congr_left fun k hk => ?_
      have hlt := List.mem_range.mp hk
      simpa [Nat.add_comm 1 k] using hi.owner (1 + k) (by omega) (by omega)
    rw [howners]
    exact RoundRobin.load_le_succ hi.loops hl hl'
  · cases hs with
    | exec htodo =>
      obtain ⟨st, hat, -⟩ := (TCPServer.lifeInv_exec hserver).stage i.conn
      have hl := owner_of_todo hat htodo rfl hne
      have hfresh : 1 ≤ i.conn ∧ i.conn < s.server.nextConnId := by
        by_contra hn
        have habsent := hat.fresh.mpr hn
        subst habsent
        cases htok : i.isToken with
        | false => simpa [Stage.isOut] using (hat.isOut_of_todo htodo htok).1
        | true => simpa [Stage.tokens] using (hat.token_of_todo htodo htok).2
      rw [hl]
      exact hi.owner i.conn hfresh.1 hfresh.2

/-- Three connections for the loops 1 and 2. -/
theorem connections_spread_three : ∃ h, ∃ s : PooledServer Nat,
    (system ⟨0, [], []⟩).Exec h s ∧ s.server.nextConnId = 4 ∧
      ((List.range' 1 (s.server.nextConnId - 1)).map s.server.owner).count 1 ≤
        ((List.range' 1 (s.server.nextConnId - 1)).map s.server.owner).count 2 + 1 := by
  have x := Trace.LTS.Exec.start (L := system (⟨0, [], []⟩ : ServerConfig Nat))
    (s := ⟨⟨fun _ => ⟨.enter 0, [], []⟩, fun _ => .new false false, fun _ => 0, fun _ => false,
      fun _ => none, 1, [], []⟩, ⟨0, true, 2, 0, [1, 2]⟩⟩)
    ⟨⟨fun _ => ⟨0, rfl⟩, fun _ => rfl, fun _ => rfl, fun _ => rfl, rfl, rfl, rfl⟩, rfl,
      ⟨rfl, fun _ => rfl⟩, by decide⟩
  replace x := x.snoc (.other (by simp) (@Step.poll _ _ _ _ 0 _ [] rfl (by simp) (by simp)))
  replace x := x.snoc (.newConnection rfl (@Step.newConnection _ _ _ _ 1 false rfl rfl))
  replace x := x.snoc (.newConnection rfl (@Step.newConnection _ _ _ _ 2 false rfl rfl))
  replace x := x.snoc (.newConnection rfl (@Step.newConnection _ _ _ _ 1 false rfl rfl))
  obtain ⟨-, -, hload, -⟩ := connections_spread x
  exact ⟨_, _, x, rfl, hload 1 (by decide) 2 (by decide)⟩

end PooledServer

end Lute
