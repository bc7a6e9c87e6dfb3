import Lute.Polaris.LifeCycle
import Lute.Polaris.SilentChannel

/-! The server with the pollers of its loops: what its connections ask of them they may ask, and
what a poller reports is what a connection waits for. -/
namespace Lute

open EPollPoller (Request Op)
open PolledConnection (Call Closes Outcome act asks)

namespace Item

/-- The member function behind an item that may ask for a change of the channel's interest. -/
def call (r : ReadResult) (w : WriteResult) : Item → Option Call
  | .connectEstablished _ => some .connectEstablished
  | .forceCloseInLoop _ => some .forceCloseInLoop
  | .sendInLoop _ message => some (.sendInLoop message w)
  | .shutdownInLoop _ => some .shutdownInLoop
  | .handler _ .close => some .handleClose
  | .handler _ .error => some .handleError
  | .handler _ .read => some (.handleRead r)
  | .handler _ .write => some (.handleWrite w)
  | _ => none

/-- What an item asks of the poller; `connectDestroyed` disables the channel of a connection that
is still connected. -/
def op {X : Type} (conn : TCPConnection) (r : ReadResult) (w : WriteResult) :
    Item → Option (Op (Nat ⊕ X))
  | .connectDestroyed c =>
    if conn.state = .kConnected then some (.request (.inl c) .disableAll) else none
  | .remove c => some (.remove (.inl c))
  | i => ((i.call r w).bind (asks conn)).map (.request (.inl i.conn))

end Item

def AppCall.call : AppCall → Call
  | .send isInLoopThread message w => .send isInLoopThread message w
  | .shutdown _ => .shutdown
  | .forceClose _ => .forceClose
  | .forceCloseWithDelay _ => .forceCloseWithDelay

/-- An operation on the poller, if there is one. -/
def EPollPoller.obey {P : Type} [DecidableEq P] (q : EPollPoller P) :
    Option (Op P) → Except EPollPoller.Fault (EPollPoller P)
  | none => .ok q
  | some op => q.exec op

/-- In the poller of each loop the channel of connection `c` is the object at `.inl c`, and those of
the wake-up descriptor, the timers, the acceptor and others are at `.inr`. -/
structure ServerPollers (L X : Type) where
  server : TCPServer L
  poller : L → EPollPoller (Nat ⊕ X)

namespace ServerPollers

variable {L X : Type}

def pollerOf (s : ServerPollers L X) (c : Nat) : EPollPoller (Nat ⊕ X) :=
  s.poller (s.server.owner c)

def fd (s : ServerPollers L X) (c : Nat) : Int := ((s.pollerOf c).channelAt (.inl c)).fd

/-- The connection has its socket for sure: it is closed once the channel has been removed. -/
def Open (s : ServerPollers L X) (c : Nat) : Prop :=
  (1 ≤ c ∧ c < s.server.nextConnId) ∧
    ((s.server.conns c).state = .kConnecting ∨ (s.pollerOf c).Registered (.inl c))

/-- The connections among the channels that `epoll_wait` reports. -/
def found (events : List (BitVec 32 × (Nat ⊕ X))) : List (Nat × BitVec 32) :=
  events.filterMap fun e => e.2.getLeft?.map fun c => (c, e.1)

/-- The operation is one on a channel that is not a connection's. -/
def Foreign : Op (Nat ⊕ X) → Prop
  | .create p _ | .request p _ | .remove p => p.isRight = true
  | .poll _ => False

inductive Label (L X : Type)
  | serve (a : TCPServer.Label L)
  | other (l : L) (op : Op (Nat ⊕ X))

/-- The step of the server in a label. -/
def Label.served : Label L X → Option (TCPServer.Label L)
  | .serve a => some a
  | .other _ _ => none

/-- No poller is asked for anything, nor reports anything. -/
def Quiet : TCPServer.Label L → Prop
  | .handleEvent _ _ _ | .move _ _ | .post _ | .timer _ => True
  | _ => False

section

variable [DecidableEq L] [DecidableEq X]

/-- `epoll_wait` reports a channel once at most, a new socket has a descriptor of its own, and so
have the other channels. -/
inductive Step (cfg : ServerConfig L) :
    ServerPollers L X → Label L X → ServerPollers L X → Prop
  | poll {s : ServerPollers L X} {l : L} {core : EventLoop Item}
      {events : List (BitVec 32 × (Nat ⊕ X))} {q : EPollPoller (Nat ⊕ X)}
      (hm : (s.server.loops l).core.move .poll = some core) (hr : (s.poller l).CanReturn events)
      (hnd : (events.map Prod.snd).Nodup) (hsane : ∀ p ∈ found events, TCPServer.Sane p.2)
      (hq : (s.poller l).exec (.poll events) = .ok q) :
      Step cfg s (.serve (.poll l (found events)))
        ⟨s.server.setLoop l { s.server.loops l with core, active := found events },
          Function.update s.poller l q⟩
  | newConnection {s : ServerPollers L X} {t : TCPServer L} {c : Nat} {io : L} {fd : Int}
      (hs : TCPServer.Step cfg s.server (.newConnection c io) t)
      (hfd : ∀ d, s.Open d → s.fd d ≠ fd)
      (hother : ∀ x, (s.poller io).Registered (.inr x) →
        ((s.poller io).channelAt (.inr x)).fd ≠ fd) :
      Step cfg s (.serve (.newConnection c io))
        ⟨t, Function.update s.poller io ((s.poller io).setChannel (.inl c) ⟨fd, .new, 0, .kNew⟩)⟩
  | exec {s : ServerPollers L X} {l : L} {i : Item} {rest : List Item} {r : ReadResult}
      {w : WriteResult} {q : EPollPoller (Nat ⊕ X)} (htodo : (s.server.loops l).todo = i :: rest)
      (hq : (s.pollerOf i.conn).obey (i.op (s.server.conns i.conn) r w) = .ok q) :
      Step cfg s (.serve (.exec l i (s.server.conns i.conn).state))
        ⟨s.server.exec cfg l i rest r w, Function.update s.poller (s.server.owner i.conn) q⟩
  | app {s : ServerPollers L X} {c : Nat} {call : AppCall} {q : EPollPoller (Nat ⊕ X)}
      (hk : s.server.known c = true)
      (hq : (s.pollerOf c).obey ((asks (s.server.conns c) call.call).map (.request (.inl c))) =
        .ok q) :
      Step cfg s (.serve (.app c call))
        ⟨s.server.call c call, Function.update s.poller (s.server.owner c) q⟩
  | quiet {s : ServerPollers L X} {t : TCPServer L} {a : TCPServer.Label L} (ha : Quiet a)
      (hs : TCPServer.Step cfg s.server a t) : Step cfg s (.serve a) ⟨t, s.poller⟩
  | other {s : ServerPollers L X} {l : L} {op : Op (Nat ⊕ X)} {q : EPollPoller (Nat ⊕ X)}
      (hop : Foreign op) (ha : (s.poller l).Allowed op) (hq : (s.poller l).exec op = .ok q)
      (hfd : ∀ x, q.Registered (.inr x) → ∀ c, s.Open c → s.server.owner c = l →
        (q.channelAt (.inr x)).fd ≠ s.fd c) :
      Step cfg s (.other l op) ⟨s.server, Function.update s.poller l q⟩

/-- The pollers are in order, and no connection's channel is in them. -/
structure Initial (s : ServerPollers L X) : Prop where
  server : TCPServer.Initial s.server
  books : ∀ l, (s.poller l).Consistent
  index : ∀ l c, ((s.poller l).channelAt (.inl c)).index = .kNew

def system (cfg : ServerConfig L) : Trace.LTS (ServerPollers L X) (Label L X) where
  init := Initial
  step := Step cfg

end

section poller

variable {P : Type} {q q' : EPollPoller P} {p : P} {r : Request} {events : List (BitVec 32 × P)}

/-- Nothing but events received since. -/
def Seen (q q' : EPollPoller P) : Prop :=
  ∀ p, ∃ revents, q'.channelAt p = { q.channelAt p with revents }

/-- The poller is in order again, and has changed but the object at `p`, which has its descriptor
still. -/
structure Touches (p : P) (q q' : EPollPoller P) : Prop where
  books : q'.Consistent
  fd : (q'.channelAt p).fd = (q.channelAt p).fd
  rest : ∀ p', p' ≠ p → q'.channelAt p' = q.channelAt p'

theorem Touches.refl (hc : q.Consistent) : Touches p q q := ⟨hc, rfl, fun _ _ => rfl⟩

theorem Seen.refl (q : EPollPoller P) : Seen q q := fun p => ⟨(q.channelAt p).revents, rfl⟩

theorem Seen.trans {q'' : EPollPoller P} (h : Seen q q') (h' : Seen q' q'') : Seen q q'' := by
  intro p
  obtain ⟨rev, hrev⟩ := h p
  obtain ⟨rev', hrev'⟩ := h' p
  exact ⟨rev', by rw [hrev', hrev]⟩

variable [DecidableEq P]

theorem fill_seen (he : events.foldlM EPollPoller.fillActiveChannel q = .ok q') : Seen q q' := by
  induction events generalizing q with
  | nil =>
    obtain rfl := Except.ok.inj he
    exact .refl q
  | cons e events ih =>
    obtain ⟨u, hu, he⟩ := bind_ok he
    obtain ⟨-, -, hu⟩ := bind_ok hu
    obtain ⟨-, -, hu⟩ := bind_ok hu
    obtain rfl := Except.ok.inj hu
    refine Seen.trans (fun p => ?_) (ih he)
    by_cases hp : p = e.2
    · exact ⟨e.1, by simp [EPollPoller.setChannel, hp]⟩
    · exact ⟨(q.channelAt p).revents, by simp [EPollPoller.setChannel, hp]⟩

theorem poll_seen (he : q.exec (.poll events) = .ok q') : Seen q q' := by
  obtain ⟨⟨u, active⟩, hu, he⟩ := bind_ok he
  obtain rfl := Except.ok.inj he
  unfold EPollPoller.poll at hu
  split_ifs at hu with hne
  · obtain ⟨rfl, -⟩ := Prod.mk.inj (Except.ok.inj hu)
    exact .refl q
  · obtain ⟨⟨v, active'⟩, hv, hu⟩ := bind_ok hu
    obtain ⟨rfl, -⟩ := Prod.mk.inj (Except.ok.inj hu)
    obtain ⟨-, -, hv⟩ := bind_ok hv
    obtain ⟨w, hw, hv⟩ := bind_ok hv
    obtain ⟨rfl, -⟩ := Prod.mk.inj (Except.ok.inj hv)
    exact (fill_seen hw : Seen q w)

/-- What a request that may be made does. -/
theorem request_touches (hc : q.Consistent) (ho : (q.channelAt p).index = .kNew → q.Owner p) :
    ∃ q', q.exec (.request p r) = .ok q' ∧ Touches p q q' ∧
      q'.channelAt p = EPollPoller.requested (q.channelAt p) r.apply := by
  obtain ⟨he, hc'⟩ := EPollPoller.request_ok (r := r) hc ho
  refine ⟨_, he, ⟨hc', ?_, fun p' hp' => EPollPoller.place_ne _ hp'⟩, EPollPoller.place_self _⟩
  rw [EPollPoller.place_self]
  rfl

theorem remove_touches (hc : q.Consistent) (hn : (q.channelAt p).channel.isNoneEvent = true)
    (hr : q.Registered p) : ∃ q', q.exec (.remove p) = .ok q' ∧ Touches p q q' ∧
      q'.channelAt p = { q.channelAt p with index := .kNew } := by
  refine ⟨_, EPollPoller.remove_eq hc hn hr, ⟨hc.place (hc.owner hr) rfl, ?_, fun p' hp' =>
    EPollPoller.place_ne _ hp'⟩, EPollPoller.place_self _⟩
  rw [EPollPoller.place_self]

end poller

variable {cfg : ServerConfig L} {s : ServerPollers L X} {t : TCPServer L} {l : L} {c d : Nat}
  {i : Item} {rest : List Item} {r : ReadResult} {w : WriteResult} {st : Stage} {x : Call}
  {h h' : List (TCPServer.Label L)} {q : EPollPoller (Nat ⊕ X)}

/-- The index of a connection's channel in the poller of its loop. -/
def standing (state : StateE) (removed : Bool) : Index :=
  match state with
  | .kConnecting => .kNew
  | .kConnected | .kDisconnecting => .kAdded
  | .kDisconnected => if removed then .kNew else .kDeleted

def removed (c : Nat) (h : List (TCPServer.Label L)) : Bool :=
  LifeEvent.channelRemoved ∈ TCPServer.events c h

/-- The two servers, after the histories `h` and `h'`, have the same connections in the same loops,
and those that satisfy `K` are to the pollers what they were. -/
structure Same (K : Nat → Prop) (h h' : List (TCPServer.Label L)) (s t : TCPServer L) : Prop where
  owner : t.owner = s.owner
  nextConnId : t.nextConnId = s.nextConnId
  conns : ∀ c, K c → (t.conns c).channel = (s.conns c).channel ∧
    standing (t.conns c).state (removed c h') = standing (s.conns c).state (removed c h)

/-- What an operation for the connection `c` has come to: the poller knows of the channel that it
is now `channel`, of a connection in `state`. -/
structure Follows (c : Nat) (channel : Channel) (state : StateE) (removed : Bool)
    (q q' : EPollPoller (Nat ⊕ X)) : Prop where
  touches : Touches (.inl c) q q'
  channel : (q'.channelAt (.inl c)).channel = channel
  index : (q'.channelAt (.inl c)).index = standing state removed

theorem removed_snoc {a : TCPServer.Label L}
    (ha : TCPServer.lifeEvent c a ≠ some .channelRemoved) : removed c (h ++ [a]) = removed c h := by
  simp [removed, TCPServer.events, ha]

theorem removed_exec_remove (state : StateE) :
    removed c (h ++ [.exec l (.remove c) state]) = true := by
  simp [removed, TCPServer.events, TCPServer.lifeEvent, Item.lifeEvent, Item.conn]

theorem removed_mono {a : TCPServer.Label L} (hr : removed c (h ++ [a]) = false) :
    removed c h = false := by
  rw [removed, decide_eq_false_iff_not, TCPServer.events] at hr ⊢
  rw [List.filterMap_append] at hr
  exact fun hm => hr (List.mem_append_left _ hm)

theorem forceClose_same (conn : TCPConnection) (b : Bool) :
    conn.forceClose.1.channel = conn.channel ∧
      standing conn.forceClose.1.state b = standing conn.state b := by
  unfold TCPConnection.forceClose
  split_ifs with hst
  · refine ⟨rfl, ?_⟩
    rcases hst with hst | hst <;> rw [hst] <;> rfl
  · exact ⟨rfl, rfl⟩

theorem standing_eq_kAdded (state : StateE) (b : Bool) :
    standing state b = .kAdded ↔ state = .kConnected ∨ state = .kDisconnecting := by
  cases state <;> cases b <;> simp [standing]

theorem found_nodup {events : List (BitVec 32 × (Nat ⊕ X))}
    (hnd : (events.map Prod.snd).Nodup) : ((found events).map Prod.fst).Nodup := by
  have hmap : (found events).map Prod.fst = (events.map Prod.snd).filterMap Sum.getLeft? := by
    simp [found, List.map_filterMap, List.filterMap_map, Function.comp_def]
  rw [hmap]
  exact hnd.filterMap fun a b c ha hb =>
    (Sum.getLeft?_eq_some_iff.mp ha).trans (Sum.getLeft?_eq_some_iff.mp hb).symm

variable [DecidableEq L]

/-- The pollers know of each connection's channel what the connection does, and in no loop but its
own. -/
structure Tracks (h : List (TCPServer.Label L)) (s : ServerPollers L X) : Prop where
  books : ∀ l, (s.poller l).Consistent
  index : ∀ l c, ((s.poller l).channelAt (.inl c)).index =
    if l = s.server.owner c then standing (s.server.conns c).state (removed c h) else .kNew
  channel : ∀ c, 1 ≤ c ∧ c < s.server.nextConnId →
    ((s.pollerOf c).channelAt (.inl c)).channel = (s.server.conns c).channel

/-- No two open sockets share a descriptor. -/
structure Apart (s : ServerPollers L X) : Prop where
  conns : ∀ c d, s.Open c → s.Open d → s.server.owner c = s.server.owner d → s.fd c = s.fd d → c = d
  others : ∀ c x, s.Open c → (s.pollerOf c).Registered (.inr x) →
    ((s.pollerOf c).channelAt (.inr x)).fd ≠ s.fd c

theorem Tracks.index_owner (ht : Tracks h s) (c : Nat) :
    ((s.pollerOf c).channelAt (.inl c)).index =
      standing (s.server.conns c).state (removed c h) :=
  (ht.index _ c).trans (if_pos rfl)

theorem open_iff (hl : TCPServer.LifeInv cfg h s.server) (ht : Tracks h s) :
    s.Open c ↔ (1 ≤ c ∧ c < s.server.nextConnId) ∧ removed c h = false := by
  obtain ⟨st, hat, hev⟩ := hl.stage c
  refine and_congr_right fun hrange => ?_
  have hne : st ≠ .absent := fun h => hat.fresh.mp h hrange
  have hst := hat.state
  rw [EPollPoller.registered_iff, ht.index_owner, removed, hev]
  cases st with
  | absent => exact absurd rfl hne
  | up => rcases hst with hst | hst <;> simp [hst, standing, Stage.past, Stage.age, wholeLife]
  | _ =>
    rw [show (s.server.conns c).state = _ from hst]
    decide

/-- A socket that is open has a descriptor that no other channel of its poller is registered for. -/
theorem owner_of_open (hl : TCPServer.LifeInv cfg h s.server) (ht : Tracks h s) (ha : Apart s)
    (hc : s.Open c) : (s.pollerOf c).Owner (.inl c) := by
  rintro (d | x) hne hr
  · intro hfd
    have hidx := ht.index (s.server.owner c) d
    rw [EPollPoller.registered_iff] at hr
    split_ifs at hidx with howner
    · have hd : s.Open d := by
        refine ⟨?_, .inr (by rwa [EPollPoller.registered_iff, pollerOf, ← howner])⟩
        by_contra hrange
        obtain ⟨st, hat, -⟩ := hl.stage d
        obtain rfl := hat.fresh.mpr hrange
        rw [show (s.server.conns d).state = .kConnecting from hat.state] at hidx
        exact hr hidx
      refine hne (congrArg Sum.inl (ha.conns c d hc hd howner ?_).symm)
      rw [fd, fd, ← hfd, pollerOf, pollerOf, howner]
    · exact hr hidx
  · exact ha.others c x hc hr

theorem range_of_isOut (hat : TCPServer.At cfg s.server c st) (hout : st.isOut = true) :
    1 ≤ c ∧ c < s.server.nextConnId := by
  by_contra hrange
  rw [hat.fresh.mpr hrange] at hout
  cases hout

theorem follows_refl (ht : Tracks h s) (hrange : 1 ≤ c ∧ c < s.server.nextConnId)
    {conn : TCPConnection} (hch : conn.channel = (s.server.conns c).channel)
    (hst : standing conn.state (removed c h) =
      standing (s.server.conns c).state (removed c h)) :
    Follows c conn.channel conn.state (removed c h) (s.pollerOf c) (s.pollerOf c) :=
  ⟨.refl (ht.books _), (ht.channel c hrange).trans hch.symm, (ht.index_owner c).trans hst.symm⟩

theorem Tracks.update {K : Nat → Prop} (ht : Tracks h s) (hsame : Same K h h' s.server t)
    (hc : q.Consistent)
    (hkept : ∀ c, K c → ∃ revents,
      q.channelAt (.inl c) = { (s.poller l).channelAt (.inl c) with revents })
    (hrest : ∀ c, ¬ K c → s.server.owner c = l ∧
      (q.channelAt (.inl c)).channel = (t.conns c).channel ∧
      (q.channelAt (.inl c)).index = standing (t.conns c).state (removed c h')) :
    Tracks h' ⟨t, Function.update s.poller l q⟩ := by
  constructor
  · intro m
    by_cases hm : m = l
    · simpa [hm] using hc
    · simpa [hm] using ht.books m
  · intro m c
    have hidx := ht.index m c
    by_cases hk : K c
    · have hobj : ((Function.update s.poller l q m).channelAt (.inl c)).index =
          ((s.poller m).channelAt (.inl c)).index := by
        obtain ⟨revents, hrev⟩ := hkept c hk
        by_cases hm : m = l
        · simp [hm, hrev]
        · simp [hm]
      rw [hobj, hidx, hsame.owner, (hsame.conns c hk).2]
    · obtain ⟨ho, -, hix⟩ := hrest c hk
      by_cases hm : m = l
      · simpa [hm, hsame.owner, ho] using hix
      · simpa [hm, hsame.owner, ho] using hidx
  · intro c hrange
    rw [hsame.nextConnId] at hrange
    have hch := ht.channel c hrange
    rw [pollerOf] at hch ⊢
    dsimp only
    rw [hsame.owner]
    by_cases hk : K c
    · rw [(hsame.conns c hk).1, ← hch]
      obtain ⟨revents, hrev⟩ := hkept c hk
      by_cases hm : s.server.owner c = l
      · simp [hm, hrev]
      · simp [hm]
    · obtain ⟨ho, hch', -⟩ := hrest c hk
      simpa [ho] using hch'

theorem Apart.update (ha : Apart s) (howner : t.owner = s.server.owner)
    (hopen : ∀ c, Open ⟨t, Function.update s.poller l q⟩ c → s.Open c)
    (hfd : ∀ c, (q.channelAt (.inl c)).fd = ((s.poller l).channelAt (.inl c)).fd)
    (hothers : ∀ c x, s.Open c → s.server.owner c = l → q.Registered (.inr x) →
      (q.channelAt (.inr x)).fd ≠ s.fd c) :
    Apart (⟨t, Function.update s.poller l q⟩ : ServerPollers L X) := by
  have hsame : ∀ c, (⟨t, Function.update s.poller l q⟩ : ServerPollers L X).fd c = s.fd c := by
    intro c
    rw [fd, fd, pollerOf, pollerOf]
    dsimp only
    rw [howner]
    by_cases hm : s.server.owner c = l
    · simpa [hm] using hfd c
    · simp [hm]
  constructor
  · intro c d hc hd ho hf
    dsimp only at ho
    rw [howner] at ho
    rw [hsame, hsame] at hf
    exact ha.conns c d (hopen c hc) (hopen d hd) ho hf
  · intro c x hc hr
    rw [hsame]
    rw [pollerOf] at hr ⊢
    dsimp only at hr ⊢
    rw [howner] at hr ⊢
    by_cases hm : s.server.owner c = l
    · rw [hm, Function.update_self] at hr ⊢
      exact hothers c x (hopen c hc) hm hr
    · rw [Function.update_of_ne hm] at hr ⊢
      exact ha.others c x (hopen c hc) hr

theorem open_of_open {s' : ServerPollers L X} {a : TCPServer.Label L}
    (hl : TCPServer.LifeInv cfg h s.server) (hl' : TCPServer.LifeInv cfg (h ++ [a]) s'.server)
    (ht : Tracks h s) (ht' : Tracks (h ++ [a]) s')
    (hid : s'.server.nextConnId = s.server.nextConnId) (hc : s'.Open c) : s.Open c := by
  rw [open_iff hl' ht', hid] at hc
  exact (open_iff hl ht).mpr ⟨hc.1, removed_mono hc.2⟩

/-- A step in which no poller has a part. -/
theorem quiet_same {a : TCPServer.Label L} (ha : Quiet a) (hs : TCPServer.Step cfg s.server a t) :
    Same (fun _ => True) h (h ++ [a]) s.server t := by
  have hrem : ∀ c, removed c (h ++ [a]) = removed c h := by
    refine fun c => removed_snoc ?_
    cases a with
    | handleEvent | move | post | timer => simp [TCPServer.lifeEvent]
    | poll | newConnection | exec | app => cases ha
  cases hs with
  | @timer c hd =>
    refine ⟨rfl, rfl, fun d _ => ?_⟩
    rw [hrem]
    by_cases hdc : d = c
    · subst hdc
      simpa [TCPServer.call, TCPServer.setConn, TCPConnection.app] using forceClose_same _ _
    · simp [TCPServer.call, TCPServer.setConn, hdc]
  | handleEvent | move | run | post => exact ⟨rfl, rfl, fun d _ => ⟨rfl, by rw [hrem]; rfl⟩⟩
  | poll | newConnection | exec | app => cases ha

/-- What is known after a run: the server's own run, the pollers' knowledge and the descriptors. -/
structure Inv (cfg : ServerConfig L) (h : List (TCPServer.Label L)) (s : ServerPollers L X) :
    Prop where
  server : (TCPServer.system cfg).Exec h s.server
  tracks : Tracks h s
  apart : Apart s

/-- A step that changes at most the poller of one loop, and in it at most the objects at which `K`
fails. -/
theorem Inv.update {K : Nat → Prop} {a : TCPServer.Label L} (hi : Inv cfg h s)
    (hs : TCPServer.Step cfg s.server a t) (hsame : Same K h (h ++ [a]) s.server t)
    (hc : q.Consistent)
    (hkept : ∀ c, K c → ∃ revents,
      q.channelAt (.inl c) = { (s.poller l).channelAt (.inl c) with revents })
    (hrest : ∀ c, ¬ K c → s.server.owner c = l ∧
      (q.channelAt (.inl c)).fd = ((s.poller l).channelAt (.inl c)).fd ∧
      (q.channelAt (.inl c)).channel = (t.conns c).channel ∧
      (q.channelAt (.inl c)).index = standing (t.conns c).state (removed c (h ++ [a])))
    (hothers : ∀ x, ∃ revents,
      q.channelAt (.inr x) = { (s.poller l).channelAt (.inr x) with revents }) :
    Inv cfg (h ++ [a]) ⟨t, Function.update s.poller l q⟩ := by
  have htracks := hi.tracks.update hsame hc hkept fun c hk => ⟨(hrest c hk).1, (hrest c hk).2.2⟩
  have hserver := hi.server.snoc hs
  refine ⟨hserver, htracks, hi.apart.update hsame.owner ?_ ?_ ?_⟩
  · exact fun c => open_of_open (TCPServer.lifeInv_exec hi.server)
      (TCPServer.lifeInv_exec hserver) hi.tracks htracks hsame.nextConnId
  · intro c
    by_cases hk : K c
    · obtain ⟨revents, hrev⟩ := hkept c hk
      rw [hrev]
    · exact (hrest c hk).2.1
  · intro c x hc hm hr
    have hold := hi.apart.others c x hc
    obtain ⟨revents, hrev⟩ := hothers x
    rw [pollerOf, hm, EPollPoller.registered_iff] at hold
    rw [EPollPoller.registered_iff, hrev] at hr
    rw [hrev]
    exact hold hr

/-- The member functions called for `c`, and what has become of its channel in the poller. -/
theorem Inv.follows {a : TCPServer.Label L} (hi : Inv cfg h s)
    (hs : TCPServer.Step cfg s.server a t) (howner : t.owner = s.server.owner)
    (hid : t.nextConnId = s.server.nextConnId) {conn : TCPConnection}
    (hconns : t.conns = Function.update s.server.conns c conn)
    (hev : ∀ d, d ≠ c → TCPServer.lifeEvent d a = none)
    (hf : Follows c conn.channel conn.state (removed c (h ++ [a])) (s.pollerOf c) q) :
    Inv cfg (h ++ [a]) ⟨t, Function.update s.poller (s.server.owner c) q⟩ := by
  refine hi.update (K := (· ≠ c)) hs ⟨howner, hid, fun d hd => ?_⟩ hf.touches.books ?_ ?_ ?_
  · rw [hconns, Function.update_of_ne hd, removed_snoc (by simp [hev d hd])]
    exact ⟨rfl, rfl⟩
  · exact fun d hd => ⟨_, hf.touches.rest _ (by simpa using hd)⟩
  · intro d hd
    obtain rfl : d = c := by simpa using hd
    rw [hconns, Function.update_self]
    exact ⟨rfl, hf.touches.fd, hf.channel, hf.index⟩
  · exact fun x => ⟨_, hf.touches.rest _ (by simp)⟩

/-- A connection that has not been accepted yet is in no poller. -/
theorem index_of_absent (hi : Inv cfg h s) (m : L) :
    ((s.poller m).channelAt (.inl s.server.nextConnId)).index = .kNew := by
  obtain ⟨st, hat, -⟩ := (TCPServer.lifeInv_exec hi.server).stage s.server.nextConnId
  obtain rfl := hat.fresh.mpr (by omega)
  rw [hi.tracks.index, show (s.server.conns _).state = .kConnecting from hat.state]
  exact ite_self _

/-- An added channel is one of a connection that is up, in its own loop. -/
theorem up_of_added (hi : Inv cfg h s) (ha : ((s.poller l).channelAt (.inl c)).index = .kAdded) :
    l = s.server.owner c ∧ (1 ≤ c ∧ c < s.server.nextConnId) ∧
      ((s.server.conns c).state = .kConnected ∨ (s.server.conns c).state = .kDisconnecting) ∧
      (s.server.conns c).channel.isReading = true := by
  rw [hi.tracks.index] at ha
  split_ifs at ha with ho
  have hup := (standing_eq_kAdded _ _).mp ha
  obtain ⟨st, hat, -⟩ := (TCPServer.lifeInv_exec hi.server).stage c
  have hst := hat.state
  have hrange : 1 ≤ c ∧ c < s.server.nextConnId := by
    by_contra hrange
    obtain rfl := hat.fresh.mpr hrange
    simp [show (s.server.conns c).state = .kConnecting from hst] at hup
  refine ⟨ho, hrange, hup, hat.reading ?_⟩
  cases st with
  | established | up => rfl
  | _ => simp [show (s.server.conns c).state = _ from hst] at hup

/-- A channel that can be reported is one of a connection that is up, in its own loop. -/
theorem reported (hi : Inv cfg h s) {events : List (BitVec 32 × (Nat ⊕ X))}
    (hr : (s.poller l).CanReturn events) {p : Nat × BitVec 32} (hp : p ∈ found events) :
    (s.server.owner p.1 = l ∧ 1 ≤ p.1 ∧ p.1 < s.server.nextConnId) ∧
      (s.server.conns p.1).channel.isNoneEvent = false := by
  obtain ⟨e, he, hpe⟩ := List.mem_filterMap.mp hp
  obtain ⟨c, hc, rfl⟩ := Option.map_eq_some_iff.mp hpe
  have hptr : e.2 = .inl c := Sum.getLeft?_eq_some_iff.mp hc
  obtain ⟨fd, i, hk, hi', -⟩ := hr.2 e he
  obtain ⟨p', -, hadded, rfl⟩ := ((hi.tracks.books l).kernel fd i).mp hk
  obtain rfl : p' = .inl c := hi'.trans hptr
  obtain ⟨ho, hrange, -, hreading⟩ := up_of_added hi hadded
  exact ⟨⟨ho.symm, hrange⟩, Channel.isNoneEvent_of_isReading _ hreading⟩

variable [DecidableEq X]

/-- A request that leaves an added channel waiting for something, or switches it off. -/
theorem request_follows {req : Request} {conn : TCPConnection} (ht : Tracks h s)
    (hrange : 1 ≤ c ∧ c < s.server.nextConnId)
    (hch : conn.channel = req.apply (s.server.conns c).channel)
    (hadded : standing (s.server.conns c).state (removed c h) = .kAdded)
    (hst : standing conn.state (removed c h) =
      if conn.channel.isNoneEvent = true then .kDeleted else .kAdded) :
    ∃ q, (s.pollerOf c).obey (some (.request (.inl c) req)) = .ok q ∧
      Follows c conn.channel conn.state (removed c h) (s.pollerOf c) q := by
  have hidx := (ht.index_owner c).trans hadded
  obtain ⟨q, hq, htouch, hat⟩ := request_touches (q := s.pollerOf c) (p := .inl c) (r := req)
    (ht.books _) (fun hnew => by simp [hnew] at hidx)
  have hchannel : (q.channelAt (.inl c)).channel = conn.channel := by
    rw [hat, hch, ← ht.channel c hrange]
    rfl
  refine ⟨q, hq, htouch, hchannel, ?_⟩
  rw [hst, ← hchannel, hat]
  simp [EPollPoller.requested, hidx]

/-- A call on a connection that the application has been given asks for what may be asked for. -/
theorem act_follows (ht : Tracks h s) (hat : TCPServer.At cfg s.server c st)
    (hev : TCPServer.events c h = st.past) (hout : st.isOut = true)
    (hx : x ≠ .connectEstablished ∧ x ≠ .startReadInLoop ∧ x ≠ .stopReadInLoop)
    (hclose : Closes (s.server.conns c) x = true → st = .up) :
    ∃ q, (s.pollerOf c).obey ((asks (s.server.conns c) x).map (.request (.inl c))) = .ok q ∧
      Follows c (act (s.server.conns c) x).channel (act (s.server.conns c) x).state (removed c h)
        (s.pollerOf c) q := by
  have hrange := range_of_isOut hat hout
  have hup : (s.server.conns c).state ≠ .kDisconnected → st = .up :=
    TCPServer.Stage.eq_up hout hat.state
  have hadded : st = .up → standing (s.server.conns c).state (removed c h) = .kAdded := by
    rintro rfl
    rcases hat.state with hst | hst <;> rw [hst] <;> rfl
  cases PolledConnection.outcome (s.server.conns c) hx.1 with
  | closes hcl hask hact =>
    obtain rfl := hclose hcl
    rw [hask, hact]
    refine request_follows ht hrange rfl (hadded rfl) ?_
    simp [standing, removed, hev, Stage.past, Stage.age, wholeLife]
  | starts h => exact absurd h hx.2.1
  | stops h => exact absurd h hx.2.2
  | writes hask hw hst hopen hch hr =>
    obtain rfl := hup hopen
    rw [hask]
    refine request_follows ht hrange hch (hadded rfl) ?_
    rw [hst, hadded rfl, hch, Channel.isNoneEvent_of_isWriting _ (by simp)]
    rfl
  | drains hask hw hst hch hr =>
    have hsome := Channel.isNoneEvent_of_isWriting _ hw
    have hwatched : st.watched = true := by
      by_contra hn
      simp [hat.silent (by simpa using hn)] at hsome
    obtain rfl : st = .up := by cases st <;> simp_all [Stage.watched, Stage.isOut]
    rw [hask]
    refine request_follows ht hrange hch (hadded rfl) ?_
    rw [hst, hadded rfl, hch, Channel.isNoneEvent_of_isReading _ (by simpa using hat.reading rfl)]
    rfl
  | stays hcl hask hch hr hst =>
    rw [hask]
    refine ⟨_, rfl, follows_refl ht hrange hch ?_⟩
    rcases hst with hst | ⟨hne, -, hst⟩
    · rw [hst]
    · rw [hst, hadded (hup hne)]
      rfl

/-- A call of the application asks for what may be asked for. -/
theorem app_follows (hl : TCPServer.LifeInv cfg h s.server) (ht : Tracks h s)
    (hk : s.server.known c = true) (a : AppCall) :
    ∃ q, (s.pollerOf c).obey ((asks (s.server.conns c) a.call).map (.request (.inl c))) = .ok q ∧
      Follows c ((s.server.conns c).app a).1.channel ((s.server.conns c).app a).1.state
        (removed c h) (s.pollerOf c) q := by
  obtain ⟨st, hat, hev⟩ := hl.stage c
  have hact : ((s.server.conns c).app a).1 = act (s.server.conns c) a.call := by cases a <;> rfl
  rw [hact]
  refine act_follows ht hat hev (hat.out (.inl hk)) ?_ fun hcl => ?_
  · cases a <;> simp [AppCall.call]
  · cases a <;> simp [AppCall.call, Closes] at hcl

theorem establish_follows (hl : TCPServer.LifeInv cfg h s.server) (ht : Tracks h s) (ha : Apart s)
    (hat : TCPServer.At cfg s.server c .connecting) :
    ∃ q, (s.pollerOf c).obey (some (.request (.inl c) .enableReading)) = .ok q ∧
      Follows c (s.server.conns c).connectEstablished.1.channel .kConnected (removed c h)
        (s.pollerOf c) q := by
  have hst : (s.server.conns c).state = .kConnecting := hat.state
  have hrange : 1 ≤ c ∧ c < s.server.nextConnId := by
    by_contra hrange
    exact absurd (hat.fresh.mpr hrange) (by simp)
  have hidx := ht.index_owner c
  rw [hst] at hidx
  obtain ⟨q, hq, htouch, hobj⟩ := request_touches (q := s.pollerOf c) (p := .inl c)
    (r := .enableReading) (ht.books _) (fun _ => owner_of_open hl ht ha ⟨hrange, .inl hst⟩)
  refine ⟨q, hq, htouch, ?_, ?_⟩
  · rw [hobj]
    exact congrArg Channel.enableReading (ht.channel c hrange)
  · rw [hobj]
    simp [EPollPoller.requested, hidx, standing]

theorem remove_follows (ht : Tracks h s) (hat : TCPServer.At cfg s.server c .destroyed)
    (hev : TCPServer.events c h = Stage.destroyed.past) :
    ∃ q, (s.pollerOf c).obey (some (.remove (.inl c))) = .ok q ∧
      Follows c (s.server.conns c).channel (s.server.conns c).state true (s.pollerOf c) q := by
  have hst : (s.server.conns c).state = .kDisconnected := hat.state
  have hch := ht.channel c (range_of_isOut hat rfl)
  have hrem : removed c h = false := by rw [removed, hev]; decide
  have hidx := ht.index_owner c
  rw [hst, hrem] at hidx
  obtain ⟨q, hq, htouch, hobj⟩ := remove_touches (q := s.pollerOf c) (p := .inl c) (ht.books _)
    (by rw [hch, hat.silent rfl]) (.inr hidx)
  exact ⟨q, hq, htouch, by rw [hobj, hch], by rw [hobj, hst]; rfl⟩

/-- An item that is no token asks for what may be asked for. -/
theorem steady_follows (ht : Tracks h s) (hat : TCPServer.At cfg s.server i.conn st)
    (hev : TCPServer.events i.conn h = st.past) (htodo : (s.server.loops l).todo = i :: rest)
    (hi : i.isToken = false) :
    ∃ q, (s.pollerOf i.conn).obey (i.op (s.server.conns i.conn) r w) = .ok q ∧
      Follows i.conn ((s.server.conns i.conn).perform r w i).1.channel
        ((s.server.conns i.conn).perform r w i).1.state (removed i.conn h)
        (s.pollerOf i.conn) q := by
  have hout := (hat.isOut_of_todo htodo hi).1
  have hreader : i.isReader = true → st = .up := fun hr => (hat.reader_of_todo htodo hr).1
  have hact := fun x => act_follows (x := x) ht hat hev hout
  cases i with
  | forceCloseInLoop c =>
    refine hact .forceCloseInLoop (by simp) fun hcl => ?_
    refine TCPServer.Stage.eq_up hout hat.state ?_
    rcases of_decide_eq_true hcl with hst | hst <;> simp [Item.conn] at hst ⊢ <;> simp [hst]
  | sendInLoop c message => exact hact (.sendInLoop message w) (by simp) (by simp [Closes])
  | shutdownInLoop c => exact hact .shutdownInLoop (by simp) (by simp [Closes])
  | handler c f =>
    cases f with
    | close => exact hact .handleClose (by simp) fun _ => hreader rfl
    | error => exact hact .handleError (by simp) (by simp [Closes])
    | read => exact hact (.handleRead r) (by simp) fun _ => hreader rfl
    | write => exact hact (.handleWrite w) (by simp) (by simp [Closes])
  | callback c | messageCallback c =>
    exact ⟨_, rfl, follows_refl ht (range_of_isOut hat hout) rfl rfl⟩
  | _ => cases hi

/-- The item in hand asks the poller for what may be asked for. -/
theorem exec_follows (hl : TCPServer.LifeInv cfg h s.server) (ht : Tracks h s) (ha : Apart s)
    (htodo : (s.server.loops l).todo = i :: rest) :
    ∃ q, (s.pollerOf i.conn).obey (i.op (s.server.conns i.conn) r w) = .ok q ∧
      Follows i.conn ((s.server.conns i.conn).perform r w i).1.channel
        ((s.server.conns i.conn).perform r w i).1.state
        (removed i.conn (h ++ [.exec l i (s.server.conns i.conn).state]))
        (s.pollerOf i.conn) q := by
  obtain ⟨st, hat, hev⟩ := hl.stage i.conn
  have hkeep : (∀ c, i ≠ .remove c) → removed i.conn
      (h ++ [.exec l i (s.server.conns i.conn).state]) = removed i.conn h := by
    intro hne
    refine removed_snoc ?_
    cases i <;> simp [TCPServer.lifeEvent, Item.lifeEvent] at hne ⊢
  cases hi : i.isToken with
  | false =>
    rw [hkeep fun c hc => by simp [hc, Item.isToken] at hi]
    exact steady_follows ht hat hev htodo hi
  | true =>
    obtain ⟨-, htok⟩ := hat.token_of_todo htodo hi
    have hrange : 1 ≤ i.conn ∧ i.conn < s.server.nextConnId := by
      by_contra hrange
      rw [hat.fresh.mpr hrange] at htok
      cases htok
    cases i with
    | connectEstablished c =>
      obtain rfl : st = .connecting := by cases st <;> simp [Stage.tokens] at htok ⊢
      rw [hkeep (by simp)]
      exact establish_follows hl ht ha hat
    | remove c =>
      obtain rfl : st = .destroyed := by cases st <;> simp [Stage.tokens] at htok ⊢
      rw [show (Item.remove c).conn = c from rfl, removed_exec_remove]
      exact remove_follows ht hat hev
    | connectDestroyed c =>
      obtain rfl : st = .removed := by cases st <;> simp [Stage.tokens] at htok ⊢
      have hst : (s.server.conns c).state ≠ .kConnected := by
        rw [show (s.server.conns c).state = .kDisconnected from hat.state]
        decide
      have hsame : (s.server.conns c).perform r w (.connectDestroyed c) =
          (s.server.conns c, [.remove]) := if_neg hst
      rw [hkeep (by simp), show (Item.connectDestroyed c).conn = c from rfl, hsame]
      exact ⟨_, congrArg _ (if_neg hst), follows_refl ht hrange rfl rfl⟩
    | removeConnectionInLoop c | connectionCallback c | closeCallback c =>
      rw [hkeep (by simp)]
      exact ⟨_, rfl, follows_refl ht hrange rfl rfl⟩
    | _ => cases hi

theorem foreign_keeps {op : Op (Nat ⊕ X)} {q q' : EPollPoller (Nat ⊕ X)} (hc : q.Consistent)
    (hop : Foreign op) (ha : q.Allowed op) (hq : q.exec op = .ok q') :
    q'.Consistent ∧ ∀ c, q'.channelAt (.inl c) = q.channelAt (.inl c) := by
  obtain ⟨u, hu, hcons⟩ := EPollPoller.exec_ok hc ha
  obtain rfl := Except.ok.inj (hq.symm.trans hu)
  refine ⟨hcons, fun c => ?_⟩
  cases op with
  | create p fd =>
    obtain rfl := Except.ok.inj hq
    have hne : .inl c ≠ p := by rintro rfl; cases hop
    simp [EPollPoller.setChannel, hne]
  | request p r =>
    have hne : .inl c ≠ p := by rintro rfl; cases hop
    obtain rfl := Except.ok.inj (hq.symm.trans (EPollPoller.request_ok hc ha).1)
    exact EPollPoller.place_ne _ hne
  | remove p =>
    have hne : .inl c ≠ p := by rintro rfl; cases hop
    obtain rfl := Except.ok.inj (hq.symm.trans
      (EPollPoller.remove_eq hc ha.1 (EPollPoller.registered_iff.mpr ha.2)))
    exact EPollPoller.place_ne _ hne
  | poll => cases hop

theorem inv_other {op : Op (Nat ⊕ X)} (hi : Inv cfg h s) (hop : Foreign op)
    (ha : (s.poller l).Allowed op) (hq : (s.poller l).exec op = .ok q)
    (hfd : ∀ x, q.Registered (.inr x) → ∀ c, s.Open c → s.server.owner c = l →
      (q.channelAt (.inr x)).fd ≠ s.fd c) :
    Inv cfg h ⟨s.server, Function.update s.poller l q⟩ := by
  obtain ⟨hc, hkept⟩ := foreign_keeps (hi.tracks.books l) hop ha hq
  have htracks : Tracks h ⟨s.server, Function.update s.poller l q⟩ :=
    hi.tracks.update (K := fun _ => True) ⟨rfl, rfl, fun _ _ => ⟨rfl, rfl⟩⟩ hc
      (fun c _ => ⟨_, hkept c⟩) (fun c hc => absurd trivial hc)
  have hl := TCPServer.lifeInv_exec hi.server
  refine ⟨hi.server, htracks, hi.apart.update rfl (fun c hc => ?_) (fun c => by rw [hkept])
    fun c x hc hm hr => hfd x hr c hc hm⟩
  rw [open_iff (s := ⟨s.server, Function.update s.poller l q⟩) hl htracks] at hc
  exact (open_iff hl hi.tracks).mpr hc

/-- The state after a connection has been accepted for the loop `io`, on the descriptor `fd`. -/
def accepted (cfg : ServerConfig L) (s : ServerPollers L X) (io : L) (b : Bool) (fd : Int) :
    ServerPollers L X :=
  ⟨s.server.newConnection cfg io b, Function.update s.poller io
    ((s.poller io).setChannel (.inl s.server.nextConnId) ⟨fd, .new, 0, .kNew⟩)⟩

theorem accepted_object {io : L} {b : Bool} {fd : Int} (m : L) (p : Nat ⊕ X)
    (hp : p ≠ .inl s.server.nextConnId) :
    ((accepted cfg s io b fd).poller m).channelAt p = (s.poller m).channelAt p := by
  by_cases hm : m = io
  · simp [accepted, hm, EPollPoller.setChannel, hp]
  · simp [accepted, hm]

theorem accepted_pollerOf {io : L} {b : Bool} {fd : Int} (hc : c ≠ s.server.nextConnId) :
    (accepted cfg s io b fd).pollerOf c = (accepted cfg s io b fd).poller (s.server.owner c) := by
  obtain ⟨-, -, howner, -⟩ := TCPServer.newConnection_frame cfg s.server io b
  rw [pollerOf, accepted, howner, Function.update_of_ne hc]

theorem accepted_new {io : L} {b : Bool} {fd : Int} :
    ((accepted cfg s io b fd).pollerOf s.server.nextConnId).channelAt (.inl s.server.nextConnId) =
      ⟨fd, .new, 0, .kNew⟩ := by
  obtain ⟨-, -, howner, -⟩ := TCPServer.newConnection_frame cfg s.server io b
  simp [pollerOf, accepted, howner, EPollPoller.setChannel]

theorem tracks_accepted (hi : Inv cfg h s) (io : L) (b : Bool) (fd : Int) :
    Tracks (h ++ [.newConnection s.server.nextConnId io]) (accepted cfg s io b fd) := by
  obtain ⟨hid, hconns, howner, -⟩ := TCPServer.newConnection_frame cfg s.server io b
  have hrem : ∀ c, removed c (h ++ [.newConnection s.server.nextConnId io]) = removed c h :=
    fun c => removed_snoc (by simp [TCPServer.lifeEvent])
  constructor
  · intro m
    by_cases hm : m = io
    · subst hm
      simpa [accepted] using
        (EPollPoller.create_sameBooks (index_of_absent hi m)).consistent (hi.tracks.books m)
    · simpa [accepted, hm] using hi.tracks.books m
  · intro m c
    by_cases hc : c = s.server.nextConnId
    · subst hc
      have hnew : ((accepted cfg s io b fd).server.conns s.server.nextConnId).state =
          .kConnecting := by
        rw [accepted, hconns, Function.update_self]
        rfl
      rw [hnew, standing, ite_self]
      by_cases hm : m = io
      · simp [accepted, hm, EPollPoller.setChannel]
      · simpa [accepted, hm] using index_of_absent hi m
    · rw [accepted_object m _ (by simpa using hc), hi.tracks.index, hrem, accepted, howner, hconns,
        Function.update_of_ne hc, Function.update_of_ne hc]
  · intro c hrange
    by_cases hc : c = s.server.nextConnId
    · subst hc
      rw [accepted_new, accepted, hconns, Function.update_self]
      rfl
    · rw [accepted_pollerOf hc, accepted_object _ _ (by simpa using hc)]
      rw [accepted, hid] at hrange
      rw [accepted, hconns, Function.update_of_ne hc]
      exact hi.tracks.channel c (by omega)

theorem apart_accepted {io : L} {b : Bool} {fd : Int} (hi : Inv cfg h s)
    (hopen : ∀ d, d ≠ s.server.nextConnId → (accepted cfg s io b fd).Open d → s.Open d)
    (hfd : ∀ d, s.Open d → s.fd d ≠ fd)
    (hother : ∀ x, (s.poller io).Registered (.inr x) →
      ((s.poller io).channelAt (.inr x)).fd ≠ fd) : Apart (accepted cfg s io b fd) := by
  obtain ⟨-, -, howner, -⟩ := TCPServer.newConnection_frame cfg s.server io b
  have hsame : ∀ d, d ≠ s.server.nextConnId → (accepted cfg s io b fd).fd d = s.fd d := by
    intro d hd
    rw [ServerPollers.fd, accepted_pollerOf hd, accepted_object _ _ (by simpa using hd)]
    rfl
  have hnew : (accepted cfg s io b fd).fd s.server.nextConnId = fd := by
    rw [ServerPollers.fd, accepted_new]
  constructor
  · intro c d hc hd ho hf
    by_cases hcn : c = s.server.nextConnId <;> by_cases hdn : d = s.server.nextConnId
    · exact hcn.trans hdn.symm
    · rw [hcn, hnew, hsame d hdn] at hf
      exact absurd hf.symm (hfd d (hopen d hdn hd))
    · rw [hdn, hnew, hsame c hcn] at hf
      exact absurd hf (hfd c (hopen c hcn hc))
    · rw [hsame c hcn, hsame d hdn] at hf
      rw [accepted, howner, Function.update_of_ne hcn, Function.update_of_ne hdn] at ho
      exact hi.apart.conns c d (hopen c hcn hc) (hopen d hdn hd) ho hf
  · intro c x hc hr
    rw [EPollPoller.registered_iff] at hr
    by_cases hcn : c = s.server.nextConnId
    · have hio : (accepted cfg s io b fd).pollerOf c = (accepted cfg s io b fd).poller io := by
        rw [pollerOf, accepted, howner, hcn, Function.update_self]
      rw [hio, accepted_object _ _ (by simp)] at hr ⊢
      rw [hcn, hnew]
      exact hother x (EPollPoller.registered_iff.mpr hr)
    · rw [accepted_pollerOf hcn, accepted_object _ _ (by simp)] at hr ⊢
      rw [hsame c hcn]
      exact hi.apart.others c x (hopen c hcn hc) (EPollPoller.registered_iff.mpr hr)

theorem inv_newConnection {io : L} {fd : Int} (hi : Inv cfg h s)
    (hs : TCPServer.Step cfg s.server (.newConnection c io) t)
    (hfd : ∀ d, s.Open d → s.fd d ≠ fd)
    (hother : ∀ x, (s.poller io).Registered (.inr x) →
      ((s.poller io).channelAt (.inr x)).fd ≠ fd) :
    Inv cfg (h ++ [.newConnection c io]) ⟨t, Function.update s.poller io
      ((s.poller io).setChannel (.inl c) ⟨fd, .new, 0, .kNew⟩)⟩ := by
  have hserver := hi.server.snoc hs
  cases hs with
  | @newConnection io b htodo hph =>
    have htracks := tracks_accepted hi io b fd
    obtain ⟨hid, -⟩ := TCPServer.newConnection_frame cfg s.server io b
    refine ⟨hserver, htracks, apart_accepted hi (fun d hd ho => ?_) hfd hother⟩
    rw [open_iff (TCPServer.lifeInv_exec hserver) htracks, accepted, hid] at ho
    exact (open_iff (TCPServer.lifeInv_exec hi.server) hi.tracks).mpr
      ⟨by omega, removed_mono ho.2⟩

theorem inv_step {s' : ServerPollers L X} {a : Label L X} (hi : Inv cfg h s)
    (hs : Step cfg s a s') : Inv cfg (h ++ a.served.toList) s' := by
  cases hs with
  | @poll l core events q hm hr hnd hsane hq =>
    have hserver : TCPServer.Step cfg s.server (.poll l (found events))
        (s.server.setLoop l { s.server.loops l with core, active := found events }) := by
      refine .poll hm (found_nodup hnd) fun p hp => ?_
      obtain ⟨hplace, hsome⟩ := reported hi hr hp
      exact ⟨hplace, hsome, hsane p hp⟩
    have hallowed : (s.poller l).Allowed (.poll events) := hr
    obtain ⟨u, hu, hc⟩ := EPollPoller.exec_ok (hi.tracks.books l) hallowed
    obtain rfl := Except.ok.inj (hq.symm.trans hu)
    have hseen := poll_seen hq
    refine hi.update (K := fun _ => True) hserver ⟨rfl, rfl, fun c _ => ⟨rfl, ?_⟩⟩ hc
      (fun c _ => hseen _) (fun c hk => absurd trivial hk) (fun x => hseen _)
    rw [removed_snoc (by simp [TCPServer.lifeEvent])]
    rfl
  | newConnection hs hfd hother => exact inv_newConnection hi hs hfd hother
  | @exec l i rest r w q htodo hq =>
    obtain ⟨u, hu, hf⟩ := exec_follows (r := r) (w := w) (TCPServer.lifeInv_exec hi.server)
      hi.tracks hi.apart htodo
    obtain rfl := Except.ok.inj (hq.symm.trans hu)
    refine hi.follows (.exec htodo) TCPServer.owner_exec TCPServer.nextConnId_exec
      TCPServer.conns_exec (fun d hd => ?_) hf
    exact if_neg (Ne.symm hd)
  | @app c call q hk hq =>
    obtain ⟨u, hu, hf⟩ := app_follows (TCPServer.lifeInv_exec hi.server) hi.tracks hk call
    obtain rfl := Except.ok.inj (hq.symm.trans hu)
    refine hi.follows (.app hk) rfl rfl rfl (fun d hd => rfl) ?_
    rwa [removed_snoc (by simp [TCPServer.lifeEvent])]
  | @quiet t a ha hs =>
    have hself := hi.update (l := cfg.loop) (q := s.poller cfg.loop) hs (quiet_same ha hs)
      (hi.tracks.books _) (fun c _ => ⟨_, rfl⟩) (fun c hk => absurd trivial hk) (fun x => ⟨_, rfl⟩)
    rwa [Function.update_eq_self] at hself
  | other hop ha hq hfd =>
    simpa [Label.served] using inv_other hi hop ha hq hfd

theorem inv_exec {h : List (Label L X)} (he : (system cfg).Exec h s) :
    Inv cfg (h.filterMap Label.served) s := by
  induction he with
  | @start s hi =>
    obtain ⟨hserver, hbooks, hindex⟩ := hi
    have hnone : ∀ c, ¬ (1 ≤ c ∧ c < s.server.nextConnId) := by
      intro c hc
      rw [hserver.nextConnId] at hc
      omega
    refine ⟨.start hserver, ⟨hbooks, fun l c => ?_, fun c hc => absurd hc (hnone c)⟩,
      fun c d hc => absurd hc.1 (hnone c), fun c x hc => absurd hc.1 (hnone c)⟩
    rw [hindex, hserver.conns]
    exact (ite_self _).symm
  | @snoc h s s' a _ hs ih =>
    rw [List.filterMap_append]
    cases a <;> exact inv_step ih hs

end ServerPollers

end Lute
