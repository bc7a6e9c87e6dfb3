import Lute.Polaris.ConnectionNames
import Lute.Polaris.ConnectorSockets

/-! The names of a client's connections, formatted into a buffer of 32 characters. -/
namespace Lute

/-- A client with its connector. Connections are told apart by the order in which they were made;
`nameOf` is `conn->name()`. -/
structure TCPClient (T : Type) where
  connector : ConnectorSystem T
  retry : Bool
  connect : Bool
  nextConnId : Int
  connection : Option Nat
  created : Nat
  nameOf : Nat → List Char

namespace TCPClient

open Connector (Effect handedOver)

variable {T : Type}

/-- `ipPort` is the text of `peerAddr.toIpPort()`. -/
def newConnection (name ipPort : List Char) (s : TCPClient T) : TCPClient T :=
  let buf := snprintf 32 (':' :: (ipPort ++ '#' :: decimal s.nextConnId))
  let connName := name ++ buf
  let c := s.created + 1
  { s with
    nextConnId := Int.bmod (s.nextConnId + 1) (2 ^ 32)
    connection := some c
    created := c
    nameOf := Function.update s.nameOf c connName }

inductive Label (T : Type)
  | connector (l : ConnectorSystem.Label T)
  | enableRetry
  | connect (th : Thread T)
  | disconnect
  | stop (th : Thread T)
  | removeConnection (a : Attempt)
  deriving DecidableEq, Repr

/-- The steps of the connector that are not calls of its client. -/
def isOwn : ConnectorSystem.Label T → Bool
  | .startCall _ | .stopCall _ | .restart _ => false
  | _ => true

/-- One of the connections made so far. -/
def Created (s : TCPClient T) (c : Nat) : Prop := 1 ≤ c ∧ c ≤ s.created

section
variable [DecidableEq T] (name ipPort : List Char)

/-- A step of the connector, with `newConnection` called for the sockets it hands over. -/
def drive (s : TCPClient T) (l : ConnectorSystem.Label T) : Option (TCPClient T) :=
  (s.connector.exec l).map fun connector =>
    (handedOver (connector.log.drop s.connector.log.length)).foldl
      (fun s _ => s.newConnection name ipPort) { s with connector }

/-- `a` is the attempt that `restart` makes. -/
def removeConnection (s : TCPClient T) (a : Attempt) : Option (TCPClient T) :=
  if s.connection.isSome then
    let loop := s.connector.loop.queueInLoop true .callback
    let s := { s with connection := none, connector := { s.connector with loop } }
    if s.retry && s.connect then s.drive name ipPort (.restart a) else some s
  else none

def exec (s : TCPClient T) : Label T → Option (TCPClient T)
  | .connector l => if isOwn l then s.drive name ipPort l else none
  | .enableRetry => some { s with retry := true }
  | .connect th => { s with connect := true }.drive name ipPort (.startCall th)
  | .disconnect => some { s with connect := false }
  | .stop th => { s with connect := false }.drive name ipPort (.stopCall th)
  | .removeConnection a => s.removeConnection name ipPort a

/-- A client just made. -/
structure Initial (s : TCPClient T) : Prop where
  connector : s.connector.Initial
  retry : s.retry = false
  connect : s.connect = true
  nextConnId : s.nextConnId = 1
  connection : s.connection = none
  created : s.created = 0

def system (T : Type) [DecidableEq T] (name ipPort : List Char) :
    Trace.LTS (TCPClient T) (Label T) where
  init := Initial
  step s a t := s.exec name ipPort a = some t

end

/-- The name of the connection numbered `c`, as the buffer leaves it. -/
def shortName (name ipPort : List Char) (c : Nat) : List Char :=
  name ++ snprintf 32 (':' :: (ipPort ++ '#' :: Nat.toDigits 10 c))

section
variable [DecidableEq T] {name ipPort : List Char} {s t : TCPClient T} {a : Label T}
  {h : List (Label T)}

/-- The client `r` has the numbers and names of `s`, and its connector has done `es` since. -/
structure Follows (s : TCPClient T) (es : List Effect) (r : TCPClient T) : Prop where
  nextConnId : r.nextConnId = s.nextConnId
  created : r.created = s.created
  nameOf : r.nameOf = s.nameOf
  log : r.connector.log = s.connector.log ++ es

theorem drive_cases {l : ConnectorSystem.Label T} (hs : s.drive name ipPort l = some t) :
    ∃ es r, t = (handedOver es).foldl (fun s _ => s.newConnection name ipPort) r ∧
      s.Follows es r := by
  obtain ⟨u, hu, rfl⟩ := Option.map_eq_some_iff.mp hs
  obtain ⟨es, hlog⟩ := ConnectorSystem.log_exec hu
  refine ⟨es, { s with connector := u }, ?_, rfl, rfl, rfl, hlog⟩
  rw [hlog, List.drop_left]

/-- A step does nothing to numbers and names but call `newConnection`. -/
theorem exec_cases (hs : s.exec name ipPort a = some t) :
    ∃ es r, t = (handedOver es).foldl (fun s _ => s.newConnection name ipPort) r ∧
      s.Follows es r := by
  cases a with
  | connector l =>
    simp only [exec] at hs
    split_ifs at hs
    exact drive_cases hs
  | enableRetry | disconnect =>
    obtain rfl := Option.some.inj hs
    exact ⟨[], _, rfl, rfl, rfl, rfl, (List.append_nil _).symm⟩
  | connect th | stop th =>
    obtain ⟨es, r, ht, hr⟩ := drive_cases hs
    exact ⟨es, r, ht, hr.nextConnId, hr.created, hr.nameOf, hr.log⟩
  | removeConnection attempt =>
    simp only [exec, removeConnection] at hs
    split_ifs at hs
    · obtain ⟨es, r, ht, hr⟩ := drive_cases hs
      exact ⟨es, r, ht, hr.nextConnId, hr.created, hr.nameOf, hr.log⟩
    · obtain rfl := Option.some.inj hs
      exact ⟨[], _, rfl, rfl, rfl, rfl, (List.append_nil _).symm⟩

structure Inv (name ipPort : List Char) (s : TCPClient T) : Prop where
  next : s.nextConnId = (s.created + 1 : Nat)
  names : ∀ c, s.Created c → s.nameOf c = shortName name ipPort c

omit [DecidableEq T] in
theorem inv_newConnection (hi : Inv name ipPort s) (hn : s.created + 1 < 2 ^ 31 - 1) :
    Inv name ipPort (s.newConnection name ipPort) := by
  have hdec : decimal s.nextConnId = Nat.toDigits 10 (s.created + 1) := by
    rw [hi.next]
    rfl
  refine ⟨?_, fun c hc => ?_⟩
  · change Int.bmod (s.nextConnId + 1) (2 ^ 32) = (s.created + 1 + 1 : Nat)
    rw [hi.next, Int.bmod_eq_of_le (by omega) (by omega)]
    rfl
  · have hle : c ≤ s.created + 1 := hc.2
    by_cases hlast : c = s.created + 1
    · subst hlast
      simp [newConnection, hdec, shortName]
    · rw [← hi.names c ⟨hc.1, by omega⟩]
      exact Function.update_of_ne hlast _ _

omit [DecidableEq T] in
theorem foldl_newConnection (fds : List Nat) (s : TCPClient T) :
    (fds.foldl (fun s _ => s.newConnection name ipPort) s).created = s.created + fds.length ∧
      (fds.foldl (fun s _ => s.newConnection name ipPort) s).connector = s.connector ∧
      (Inv name ipPort s → s.created + fds.length < 2 ^ 31 - 1 →
        Inv name ipPort (fds.foldl (fun s _ => s.newConnection name ipPort) s)) := by
  induction fds generalizing s with
  | nil => exact ⟨rfl, rfl, fun hi _ => hi⟩
  | cons fd fds ih =>
    obtain ⟨hcreated, hconnector, hinv⟩ := ih (s.newConnection name ipPort)
    have hone : (s.newConnection name ipPort).created = s.created + 1 := rfl
    rw [hone] at hcreated hinv
    rw [List.foldl_cons, List.length_cons]
    refine ⟨by omega, hconnector, fun hi hn => ?_⟩
    exact hinv (inv_newConnection hi (by omega)) (by omega)

/-- A connection is made for every socket the connector has handed over. -/
theorem created_eq (he : (system T name ipPort).Exec h s) :
    s.created = (handedOver s.connector.log).length := by
  induction he with
  | start hi =>
    rw [hi.created, hi.connector.log]
    rfl
  | snoc _ hs ih =>
    obtain ⟨es, r, rfl, hr⟩ := exec_cases hs
    obtain ⟨hlen, hconnector, -⟩ := @foldl_newConnection T name ipPort (handedOver es) r
    rw [hlen, hconnector, hr.log, hr.created, ih, Connector.handedOver_append, List.length_append]

theorem inv_exec (he : (system T name ipPort).Exec h s) (hn : s.created < 2 ^ 31 - 1) :
    Inv name ipPort s := by
  induction he with
  | start hi =>
    refine ⟨by rw [hi.nextConnId, hi.created]; rfl, fun c hc => ?_⟩
    have hpos := hc.1
    have hle := hc.2
    rw [hi.created] at hle
    omega
  | @snoc _ s _ _ _ hs ih =>
    obtain ⟨es, r, rfl, hr⟩ := exec_cases hs
    obtain ⟨hlen, -, hinv⟩ := @foldl_newConnection T name ipPort (handedOver es) r
    have hcreated := hr.created
    rw [hlen] at hn
    have hi := ih (by omega)
    refine hinv ⟨?_, fun c hc => ?_⟩ hn
    · rw [hr.nextConnId, hcreated, hi.next]
    · rw [hr.nameOf]
      exact hi.names c ⟨hc.1, hcreated ▸ hc.2⟩

end

/-- The number loses the digits that the buffer has no room for. -/
theorem shortName_eq (name ipPort : List Char) (c : Nat) :
    shortName name ipPort c = name ++ ((':' :: (ipPort ++ ['#'])).take 31 ++
      (Nat.toDigits 10 c).take (29 - ipPort.length)) := by
  have htext : ':' :: (ipPort ++ '#' :: Nat.toDigits 10 c) =
      ':' :: (ipPort ++ ['#']) ++ Nat.toDigits 10 c := by simp
  have hroom : 31 - (':' :: (ipPort ++ ['#'])).length = 29 - ipPort.length := by
    simp only [List.length_cons, List.length_append, List.length_nil]
    omega
  rw [shortName, snprintf, htext, List.take_append, hroom]

/-- With room for its digits a number can be read off the name. -/
theorem shortName_inj {name ipPort : List Char} {c d : Nat}
    (hc : c < 10 ^ (29 - ipPort.length)) (hd : d < 10 ^ (29 - ipPort.length)) (hpos : 0 < c)
    (h : shortName name ipPort c = shortName name ipPort d) : c = d := by
  have hroom : 0 < 29 - ipPort.length := by
    by_contra hzero
    rw [Nat.eq_zero_of_not_pos hzero] at hc
    omega
  rw [shortName_eq, shortName_eq] at h
  have hdigits := List.append_cancel_left (List.append_cancel_left h)
  rw [List.take_of_length_le (length_toDigits_le hroom hc),
    List.take_of_length_le (length_toDigits_le hroom hd)] at hdigits
  exact toDigits_inj hdigits

theorem length_toDigits_pow (k : Nat) : (Nat.toDigits 10 (10 ^ k)).length = k + 1 := by
  have hle : (Nat.toDigits 10 (10 ^ k)).length ≤ k + 1 :=
    length_toDigits_le (by omega) (Nat.pow_lt_pow_right (by omega) (by omega))
  have hgt : k < (Nat.toDigits 10 (10 ^ k)).length := by
    rcases Nat.eq_zero_or_pos k with rfl | hk
    · exact Nat.length_toDigits_pos
    · rw [← not_le, Nat.length_toDigits_le_iff (by omega) hk]
      exact lt_irrefl _
  omega

/-- The last zero of a power of ten is cut off, and the power before it is left. -/
theorem shortName_pow {name ipPort : List Char} {k : Nat} (hk : 29 - ipPort.length = k + 1) :
    shortName name ipPort (10 ^ (k + 1)) = shortName name ipPort (10 ^ k) := by
  have hlen := length_toDigits_pow k
  have hdigits : Nat.toDigits 10 (10 ^ (k + 1)) =
      Nat.toDigits 10 (10 ^ k) ++ Nat.toDigits 10 0 := by
    rw [Nat.toDigits_append_toDigits (by omega) (Nat.pow_pos (by omega)) (by omega), Nat.pow_succ,
      Nat.mul_comm, Nat.add_zero]
  rw [shortName_eq, shortName_eq, hk, hdigits, ← hlen, List.take_left, List.take_length]

/-- Two connections whose names the buffer makes the same. -/
theorem exists_same_name (name : List Char) {ipPort : List Char} {n : Nat} (htwo : 1 < n)
    (hn : 10 ^ (29 - ipPort.length) ≤ n) :
    ∃ c d, 1 ≤ c ∧ c < d ∧ d ≤ n ∧ shortName name ipPort c = shortName name ipPort d := by
  rcases hk : 29 - ipPort.length with _ | k
  · refine ⟨1, 2, le_rfl, by omega, htwo, ?_⟩
    rw [shortName_eq, shortName_eq, hk, List.take_zero, List.take_zero]
  · rw [hk] at hn
    exact ⟨10 ^ k, 10 ^ (k + 1), Nat.one_le_pow _ _ (by omega),
      Nat.pow_lt_pow_right (by omega) (by omega), hn, (shortName_pow hk).symm⟩

/-- In every run the names are different as long as the numbers fit in what the address leaves of
the buffer, or there is one connection at most. -/
theorem client_names_unique_iff {T : Type} [DecidableEq T] {name ip : List Char} {port : Nat}
    {h : List (Label T)} {s : TCPClient T} (he : (system T name (toIpPort ip port)).Exec h s)
    (hn : (handedOver s.connector.log).length < 2 ^ 31 - 1) :
    (∀ c d, s.Created c → s.Created d → s.nameOf c = s.nameOf d → c = d) ↔
      (handedOver s.connector.log).length ≤ 1 ∨
        (handedOver s.connector.log).length < 10 ^ (29 - (toIpPort ip port).length) := by
  rw [← created_eq he] at hn ⊢
  have hi := inv_exec he hn
  constructor
  · intro hinj
    by_contra hcon
    obtain ⟨htwo, hmany⟩ := not_or.mp hcon
    obtain ⟨c, d, hpos, hlt, hle, hsame⟩ :=
      exists_same_name name (Nat.lt_of_not_le htwo) (Nat.le_of_not_lt hmany)
    have hc : s.Created c := ⟨hpos, by omega⟩
    have hd : s.Created d := ⟨by omega, hle⟩
    have heq := hinj c d hc hd (by rw [hi.names c hc, hi.names d hd, hsame])
    omega
  · rintro hfew c d ⟨hc, hc'⟩ ⟨hd, hd'⟩ heq
    rcases hfew with hone | hfew
    · omega
    · rw [hi.names c ⟨hc, hc'⟩, hi.names d ⟨hd, hd'⟩] at heq
      exact shortName_inj (hc'.trans_lt hfew) (hd'.trans_lt hfew) hc heq

def idle : TCPClient Unit := ⟨ConnectorSystem.idle, false, true, 1, none, 0, fun _ => []⟩

theorem idle_initial : idle.Initial :=
  ⟨ConnectorSystem.idle_initial, rfl, rfl, rfl, rfl, rfl⟩

/-- A client that connects, loses its connection and connects again. -/
def reconnects : List (Label Unit) :=
  [.enableRetry, .connect .loop, .connector (.startHere ⟨5, .EINPROGRESS⟩),
    .connector (.move .poll), .connector (.handleEvent POLLOUT 0 false),
    .connector (.move .beginPending), .connector (.move .swap), .connector .runReset,
    .connector (.move .endPending), .connector (.move .poll),
    .removeConnection ⟨6, .EINPROGRESS⟩,
    .connector (.move .beginPending), .connector (.move .swap),
    .connector (.move (.run .callback)), .connector (.move .endPending),
    .connector (.move .poll), .connector (.handleEvent POLLOUT 0 false)]

theorem exec_reconnects {name ipPort : List Char}
    (hr : (reconnects.foldlM (exec name ipPort) idle).map
      (fun s => (handedOver s.connector.log).length) = some 2) :
    ∃ s, (system Unit name ipPort).Exec reconnects s ∧
      (handedOver s.connector.log).length = 2 := by
  obtain ⟨s, hs, htwo⟩ := Option.map_eq_some_iff.mp hr
  exact ⟨s, Trace.LTS.exec_of_foldlM (fun _ _ _ hs => hs) idle_initial hs, htwo⟩

/-- Both connections to an address of fewer than 28 characters keep their number. -/
theorem client_names_unique_iff_v4 :
    ∃ s, (system Unit ['c'] (toIpPort "10.0.0.1".toList 80)).Exec reconnects s ∧ s.created = 2 ∧
      ∀ c d, s.Created c → s.Created d → s.nameOf c = s.nameOf d → c = d := by
  obtain ⟨s, he, htwo⟩ := @exec_reconnects ['c'] (toIpPort "10.0.0.1".toList 80) (by decide +kernel)
  refine ⟨s, he, (created_eq he).trans htwo, ?_⟩
  refine (client_names_unique_iff he (by rw [htwo]; decide)).mpr (.inr ?_)
  rw [htwo]
  decide

/-- An address that leaves no room for a number. -/
theorem same_name_v6 :
    ¬ ∀ (name ip : List Char) (port : Nat) (h : List (Label Unit)) (s : TCPClient Unit),
      ip.length < INET6_ADDRSTRLEN → port < 2 ^ 16 →
      (system Unit name (toIpPort ip port)).Exec h s →
      (handedOver s.connector.log).length < 2 ^ 31 - 1 →
      ∀ c d, s.Created c → s.Created d → s.nameOf c = s.nameOf d → c = d := by
  intro hall
  obtain ⟨s, he, htwo⟩ := @exec_reconnects ['c']
    (toIpPort "2001:db8:1111:2222:3333:4444:5555:6666".toList 80) (by decide +kernel)
  have hcreated := (created_eq he).trans htwo
  have hi := inv_exec he (by rw [hcreated]; decide)
  have hc : s.Created 1 := ⟨le_rfl, by omega⟩
  have hd : s.Created 2 := ⟨by omega, by omega⟩
  have heq := hall _ _ _ _ s (by decide) (by decide) he (by rw [htwo]; decide) 1 2 hc hd
    (by rw [hi.names 1 hc, hi.names 2 hd]; decide)
  exact absurd heq (by decide)

end TCPClient

end Lute
