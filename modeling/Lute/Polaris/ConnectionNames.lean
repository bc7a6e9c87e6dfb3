import Lute.Polaris.ServerLoops

/-! The names of a server's connections, formatted into a buffer of 64 characters. -/
namespace Lute

/-- What `snprintf` leaves in a buffer of `size` characters, the last of which is null. -/
def snprintf (size : Nat) (text : List Char) : List Char := text.take (size - 1)

/-- `%d` -/
def decimal : Int → List Char
  | .ofNat n => Nat.toDigits 10 n
  | .negSucc n => '-' :: Nat.toDigits 10 (n + 1)

def INET6_ADDRSTRLEN : Nat := 46

/-- `InetAddress::toIpPort`, with the text that `inet_ntop` has left in the buffer. -/
def toIpPort (ip : List Char) (port : Nat) : List Char :=
  ip ++ snprintf (64 - ip.length) (':' :: Nat.toDigits 10 port)

/-- The map of a server, as `newConnection` and `removeConnectionInLoop` change it. Connections are
told apart by the order in which they were accepted; `nameOf` is `conn->name()`. -/
structure Registry where
  accepted : Nat
  nameOf : Nat → List Char
  connections : List Char → Option Nat
  nextConnId : Int

namespace Registry

def newConnection (name ipPort : List Char) (s : Registry) : Registry :=
  let buf := snprintf 64 ('-' :: (ipPort ++ '#' :: decimal s.nextConnId))
  let connName := name ++ buf
  let c := s.accepted + 1
  { accepted := c
    nameOf := Function.update s.nameOf c connName
    connections := Function.update s.connections connName (some c)
    nextConnId := Int.bmod (s.nextConnId + 1) (2 ^ 32) }

def removeConnectionInLoop (s : Registry) (c : Nat) : Registry :=
  { s with connections := Function.update s.connections (s.nameOf c) none }

inductive Call
  | newConnection
  | removeConnectionInLoop (c : Nat)
  deriving DecidableEq, Repr

/-- One of the connections accepted so far. -/
def Accepted (s : Registry) (c : Nat) : Prop := 1 ≤ c ∧ c ≤ s.accepted

inductive Step (name ipPort : List Char) : Registry → Call → Registry → Prop
  | newConnection {s : Registry} :
      Step name ipPort s .newConnection (s.newConnection name ipPort)
  | removeConnectionInLoop {s : Registry} {c : Nat} (hc : s.Accepted c) :
      Step name ipPort s (.removeConnectionInLoop c) (s.removeConnectionInLoop c)

def system (name ipPort : List Char) : Trace.LTS Registry Call where
  init s := s.accepted = 0 ∧ (∀ k, s.connections k = none) ∧ s.nextConnId = 1
  step := Step name ipPort

/-- The name of the connection numbered `c`, as it is meant. -/
def fullName (name ipPort : List Char) (c : Nat) : List Char :=
  name ++ '-' :: (ipPort ++ '#' :: Nat.toDigits 10 c)

end Registry

theorem length_toDigits_le {n k : Nat} (hk : 0 < k) (h : n < 10 ^ k) :
    (Nat.toDigits 10 n).length ≤ k :=
  (Nat.length_toDigits_le_iff (by omega) hk).mpr h

theorem snprintf_of_lt {size : Nat} {text : List Char} (h : text.length < size) :
    snprintf size text = text :=
  List.take_of_length_le (by omega)

/-- The longest address with the longest port has 51 characters. -/
theorem toIpPort_eq {ip : List Char} {port : Nat} (hip : ip.length ≤ INET6_ADDRSTRLEN - 1)
    (hport : port < 2 ^ 16) : toIpPort ip port = ip ++ ':' :: Nat.toDigits 10 port ∧
      (toIpPort ip port).length ≤ 51 := by
  have hlen : (Nat.toDigits 10 port).length ≤ 5 := length_toDigits_le (by omega) (by omega)
  unfold INET6_ADDRSTRLEN at hip
  have hfits : toIpPort ip port = ip ++ ':' :: Nat.toDigits 10 port := by
    rw [toIpPort, snprintf_of_lt]
    simp only [List.length_cons]
    omega
  refine ⟨hfits, ?_⟩
  rw [hfits]
  simp only [List.length_append, List.length_cons]
  omega

namespace Registry

variable {name ipPort : List Char} {s t : Registry} {a : Call} {h : List Call}

theorem fullName_inj {c d : Nat} (h : fullName name ipPort c = fullName name ipPort d) : c = d :=
  @TCPServer.connName_inj Unit ⟨(), name, ipPort⟩ c d h

/-- A number of ten digits at most leaves no character over in the worst case. -/
theorem buf_eq (hip : ipPort.length ≤ 51) {c : Nat} (hc : c < 10 ^ 10) :
    name ++ snprintf 64 ('-' :: (ipPort ++ '#' :: decimal c)) = fullName name ipPort c := by
  have hlen : (Nat.toDigits 10 c).length ≤ 10 := length_toDigits_le (by omega) hc
  have hdec : decimal (c : Int) = Nat.toDigits 10 c := rfl
  rw [hdec, snprintf_of_lt, fullName]
  simp only [List.length_cons, List.length_append]
  omega

structure Inv (name ipPort : List Char) (s : Registry) : Prop where
  next : s.nextConnId = (s.accepted + 1 : Nat)
  names : ∀ c, s.Accepted c → s.nameOf c = fullName name ipPort c
  listed : ∀ k c, s.connections k = some c → s.Accepted c ∧ k = fullName name ipPort c

/-- What `newConnection` does as long as its number fits. -/
theorem newConnection_eq (hip : ipPort.length ≤ 51) (hi : Inv name ipPort s)
    (hn : s.accepted + 1 < 2 ^ 31 - 1) :
    s.newConnection name ipPort =
      { accepted := s.accepted + 1
        nameOf := Function.update s.nameOf (s.accepted + 1)
          (fullName name ipPort (s.accepted + 1))
        connections := Function.update s.connections (fullName name ipPort (s.accepted + 1))
          (some (s.accepted + 1))
        nextConnId := (s.accepted + 1 + 1 : Nat) } := by
  have hbuf := @buf_eq name ipPort hip (s.accepted + 1) (by omega)
  have hmod : Int.bmod ((s.accepted + 1 : Nat) + 1) (2 ^ 32) = (s.accepted + 1 + 1 : Nat) := by
    rw [Int.bmod_eq_of_le (by omega) (by omega)]
    rfl
  simp only [newConnection, hi.next, hbuf, hmod]

theorem inv_step (hip : ipPort.length ≤ 51) (hi : Inv name ipPort s)
    (hs : Step name ipPort s a t) (hn : t.accepted < 2 ^ 31 - 1) : Inv name ipPort t := by
  cases hs with
  | newConnection =>
    have hn' : s.accepted + 1 < 2 ^ 31 - 1 := hn
    rw [newConnection_eq hip hi hn']
    refine ⟨rfl, fun c hc => ?_, fun k c hk => ?_⟩
    · by_cases hlast : c = s.accepted + 1
      · subst hlast
        exact Function.update_self _ _ _
      · have hold : s.Accepted c := ⟨hc.1, by have := hc.2; dsimp only at this; omega⟩
        exact (Function.update_of_ne hlast _ _).trans (hi.names c hold)
    · by_cases hk' : k = fullName name ipPort (s.accepted + 1)
      · subst hk'
        obtain rfl : s.accepted + 1 = c := by simpa using hk
        exact ⟨⟨by omega, le_rfl⟩, rfl⟩
      · obtain ⟨hc, he⟩ := hi.listed k c (by simpa [hk'] using hk)
        exact ⟨⟨hc.1, hc.2.trans (Nat.le_succ _)⟩, he⟩
  | @removeConnectionInLoop d hd =>
    refine ⟨hi.next, hi.names, fun k c hk => ?_⟩
    by_cases hk' : k = s.nameOf d
    · simp [removeConnectionInLoop, hk'] at hk
    · exact hi.listed k c (by simpa [removeConnectionInLoop, hk'] using hk)

theorem accepted_step (hs : Step name ipPort s a t) : s.accepted ≤ t.accepted := by
  cases hs with
  | newConnection => exact Nat.le_succ _
  | removeConnectionInLoop => exact le_rfl

theorem inv_exec (hip : ipPort.length ≤ 51) (he : (system name ipPort).Exec h s)
    (hn : s.accepted < 2 ^ 31 - 1) : Inv name ipPort s := by
  induction he with
  | start hi =>
    obtain ⟨hacc, hnone, hnext⟩ := hi
    refine ⟨by rw [hnext, hacc]; rfl, fun c hc => ?_, fun k c hk => ?_⟩
    · have hle := hc.2
      have hpos := hc.1
      omega
    · simp [hnone] at hk
  | snoc _ hs ih => exact inv_step hip (ih ((accepted_step hs).trans_lt hn)) hs hn

theorem accepted_eq_count (he : (system name ipPort).Exec h s) :
    s.accepted = h.count .newConnection := by
  induction he with
  | start hi => exact hi.1
  | snoc _ hs ih =>
    cases hs with
    | newConnection => simp [newConnection, ih]
    | removeConnectionInLoop => simp [removeConnectionInLoop, ih]

/-- As long as the number of connections stays below the largest `int`, every connection has its
full name and no two have the same one: entering a connection in the map overwrites none, and
removing it takes out no other. -/
theorem connection_names_unique {ip : List Char} {port : Nat}
    (hip : ip.length ≤ INET6_ADDRSTRLEN - 1) (hport : port < 2 ^ 16)
    (he : (system name (toIpPort ip port)).Exec h s)
    (hn : h.count .newConnection < 2 ^ 31 - 1) :
    (∀ c, s.Accepted c → s.nameOf c =
      name ++ '-' :: (ip ++ ':' :: (Nat.toDigits 10 port ++ '#' :: Nat.toDigits 10 c))) ∧
    (∀ c d, s.Accepted c → s.Accepted d → s.nameOf c = s.nameOf d → c = d) ∧
    (∀ k c, s.connections k = some c → s.Accepted c ∧ s.nameOf c = k) ∧
    (∀ t, Step name (toIpPort ip port) s .newConnection t →
      h.count .newConnection + 1 < 2 ^ 31 - 1 →
      s.connections (t.nameOf t.accepted) = none ∧
        t.connections = Function.update s.connections (t.nameOf t.accepted) (some t.accepted)) ∧
    ∀ c t, Step name (toIpPort ip port) s (.removeConnectionInLoop c) t →
      t.connections (s.nameOf c) = none ∧
        ∀ d, s.Accepted d → d ≠ c → t.connections (s.nameOf d) = s.connections (s.nameOf d) := by
  obtain ⟨haddr, hlen⟩ := toIpPort_eq hip hport
  rw [← accepted_eq_count he] at hn ⊢
  have hi := inv_exec hlen he hn
  have hinj : ∀ c d, s.Accepted c → s.Accepted d → s.nameOf c = s.nameOf d → c = d := by
    intro c d hc hd heq
    rw [hi.names c hc, hi.names d hd] at heq
    exact fullName_inj heq
  refine ⟨fun c hc => ?_, hinj, fun k c hk => ?_, fun t hs hmax => ?_, fun c t hs => ?_⟩
  · rw [hi.names c hc, fullName, haddr, List.append_assoc]
    rfl
  · obtain ⟨hc, rfl⟩ := hi.listed k c hk
    exact ⟨hc, hi.names c hc⟩
  · cases hs with
    | newConnection =>
      rw [newConnection_eq hlen hi hmax]
      dsimp only
      rw [Function.update_self]
      refine ⟨?_, rfl⟩
      -- an entry under the new name would be of a connection that has the new number
      rw [Option.eq_none_iff_forall_ne_some]
      intro c hk
      obtain ⟨hc, heq⟩ := hi.listed _ c hk
      have hnew := fullName_inj heq
      have hle := hc.2
      omega
  · cases hs with
    | removeConnectionInLoop hc =>
      refine ⟨Function.update_self _ _ _, fun d hd hne => Function.update_of_ne ?_ _ _⟩
      exact fun heq => hne (hinj d c hd hc heq)

/-- Two connections are accepted, and the first one is removed. -/
theorem connection_names_unique_two : ∃ s, (system ['s'] (toIpPort ['1', '.', '2'] 80)).Exec
    [.newConnection, .newConnection, .removeConnectionInLoop 1] s ∧
      s.nameOf 2 = ['s', '-', '1', '.', '2', ':', '8', '0', '#', '2'] := by
  have e₀ : (system ['s'] (toIpPort ['1', '.', '2'] 80)).Exec []
      ⟨0, fun _ => [], fun _ => none, 1⟩ := .start ⟨rfl, fun _ => rfl, rfl⟩
  have e₁ := e₀.snoc .newConnection
  have e₂ := e₁.snoc .newConnection
  have e₃ := e₂.snoc (@Step.removeConnectionInLoop _ _ _ 1 ⟨by decide, by decide⟩)
  obtain ⟨hnames, -⟩ := connection_names_unique (by decide) (by decide) e₃ (by decide)
  exact ⟨_, e₃, hnames 2 ⟨by decide, by decide⟩⟩

end Registry

namespace TCPServer

variable {L : Type} [DecidableEq L] {cfg : ServerConfig L} {s t : TCPServer L}

/-- The map of a server with the name that each of its connections has been given. -/
structure Names (cfg : ServerConfig L) (s : TCPServer L) (r : Registry) : Prop where
  inv : r.Inv cfg.name cfg.ipPort
  connections : r.connections = s.connections
  nextConnId : r.accepted + 1 = s.nextConnId

/-- The steps of a server that concern its map. -/
theorem connections_step {a : Label L} (hs : Step cfg s a t) :
    (∃ io, a = .newConnection s.nextConnId io ∧ t.nextConnId = s.nextConnId + 1 ∧
        t.connections = Function.update s.connections (connName cfg s.nextConnId)
          (some s.nextConnId)) ∨
      t.nextConnId = s.nextConnId ∧ (t.connections = s.connections ∨
        ∃ c, t.connections = Function.update s.connections (connName cfg c) none) := by
  cases hs with
  | @newConnection io b =>
    obtain ⟨hnext, -, -, hconns, -⟩ := newConnection_frame cfg s io b
    exact .inl ⟨io, rfl, hnext, hconns⟩
  | @exec l i rest r w htodo =>
    refine .inr ⟨nextConnId_exec, ?_⟩
    rw [connections_exec]
    split_ifs
    · exact .inr ⟨_, rfl⟩
    · exact .inl rfl
  | _ => exact .inr ⟨rfl, .inl rfl⟩

/-- A server with such an address works on its map as the registry does, truncation included. -/
theorem registry_exec {h : List (Label L)} (hlen : cfg.ipPort.length ≤ 51)
    (he : (system cfg).Exec h s) (hn : s.nextConnId ≤ 2 ^ 31 - 1) :
    ∃ calls r, (Registry.system cfg.name cfg.ipPort).Exec calls r ∧ Names cfg s r := by
  induction he with
  | start hi =>
    have e₀ : (Registry.system cfg.name cfg.ipPort).Exec []
        ⟨0, fun _ => [], fun _ => none, 1⟩ := .start ⟨rfl, fun _ => rfl, rfl⟩
    refine ⟨[], _, e₀, Registry.inv_exec hlen e₀ (by decide), ?_, hi.nextConnId.symm⟩
    funext k
    exact (hi.connections k).symm
  | @snoc h s t a he hs ih =>
    rcases connections_step hs with ⟨io, -, hnext, hconns⟩ | ⟨hnext, hkeep | ⟨c, hconns⟩⟩
    · obtain ⟨calls, r, hr, hnames⟩ := ih (by omega)
      have hacc := hnames.nextConnId
      have hs' : Registry.Step cfg.name cfg.ipPort r .newConnection
          (r.newConnection cfg.name cfg.ipPort) := .newConnection
      have hlt : r.accepted + 1 < 2 ^ 31 - 1 := by omega
      refine ⟨_, _, hr.snoc hs', Registry.inv_step hlen hnames.inv hs' hlt, ?_, ?_⟩
      · rw [Registry.newConnection_eq hlen hnames.inv hlt, hconns, ← hnames.connections, ← hacc]
        rfl
      · change r.accepted + 1 + 1 = _
        omega
    · obtain ⟨calls, r, hr, hnames⟩ := ih (by omega)
      exact ⟨calls, r, hr, hnames.inv, hnames.connections.trans hkeep.symm,
        hnames.nextConnId.trans hnext.symm⟩
    · obtain ⟨calls, r, hr, hnames⟩ := ih (by omega)
      by_cases hc : r.Accepted c
      · have hs' : Registry.Step cfg.name cfg.ipPort r (.removeConnectionInLoop c)
            (r.removeConnectionInLoop c) := .removeConnectionInLoop hc
        have hacc := hnames.nextConnId
        have hlt : r.accepted < 2 ^ 31 - 1 := by omega
        refine ⟨_, _, hr.snoc hs', Registry.inv_step hlen hnames.inv hs' hlt, ?_,
          hnames.nextConnId.trans hnext.symm⟩
        rw [hconns, ← hnames.connections]
        change Function.update r.connections (r.nameOf c) none = _
        rw [hnames.inv.names c hc]
        rfl
      · -- no entry has the name of a connection that was never accepted
        have hnone : r.connections (connName cfg c) = none := by
          rw [Option.eq_none_iff_forall_ne_some]
          intro d hd
          obtain ⟨hacc, heq⟩ := hnames.inv.listed _ d hd
          exact hc (Registry.fullName_inj heq ▸ hacc)
        refine ⟨calls, r, hr, hnames.inv, ?_, hnames.nextConnId.trans hnext.symm⟩
        rw [hconns, ← hnames.connections, ← hnone, Function.update_eq_self]

end TCPServer

end Lute
