import Mathlib.Data.Finmap
import Wanbond.Bind.Inbound

/-!
# The lanes of an adaptive peer

An adaptive peer drives the transport of one peer.  Every hello it learns from a
probe registers a lane, which is named by the ids of the path at both ends, and
records where the lane leads: a view of a path, and a remote address.  A
datagram that arrives from there is handed to the transport under that lane.

The route map is keyed by the lane, while the receive path searches it for a view
and an address, in the order in which the map is iterated.  So the lane of a pair
is determined only if the hellos from the pair keep to one remote path.
-/

namespace Wanbond.Bind

open Wanbond.Bond Wanbond.Reseq

/-! ## The model -/

/-- What the adaptive peer reads of a view of a path: which view and which socket
it is, and the id of the path. -/
structure PeerPath where
  view : ℕ
  socket : ℕ
  id : UInt8
  deriving DecidableEq, Repr

structure AdaptiveRoute (Addr : Type) where
  path : PeerPath
  remote : Addr
  deriving DecidableEq, Repr

structure AdaptivePeer (Addr : Type) where
  transport : Transport
  routes : Finmap fun _ : PathID => AdaptiveRoute Addr
  closed : Bool
  /-- The queue of interactive datagrams, with room for `interactiveRoom`. -/
  interactive : List (Item Addr)

def interactiveRoom : ℕ := 256

/-- The lane from the path `near` of this end to the path `far` of the other. -/
def laneID (near far : UInt8) : PathID := near.toUInt16 <<< 8 ||| far.toUInt16

namespace AdaptivePeer

variable {Addr : Type}

/-- `openAdaptivePeer`, up to the codec and the goroutine. -/
def openPeer (epoch : Epoch) : AdaptivePeer Addr :=
  ⟨Transport.new epoch, ∅, false, []⟩

/-! ## Learning -/

/-- Another epoch of the peer: its routes and datagrams are gone, and the
resequencer starts over. -/
def enter (a : AdaptivePeer Addr) (rq : Option (Resequencer Addr))
    (epoch : Epoch) (adopted : Bool) (clock : Time) :
    AdaptivePeer Addr × Option (Resequencer Addr) :=
  let (transport, changed) := a.transport.setRemote epoch adopted
  if changed then
    ({ a with transport, routes := ∅, interactive := [] },
      rq.map fun rq => rq.rebaselineAt 1 clock)
  else ({ a with transport }, rq)

/-- The lane of an accepted hello. -/
def register (a : AdaptivePeer Addr) (ps : PeerPath) (remote : Addr)
    (remotePath : UInt8) (rtt : Duration) (now : Time) : AdaptivePeer Addr :=
  { a with
    routes := a.routes.insert (laneID ps.id remotePath) ⟨ps, remote⟩
    transport := (a.transport.path (laneID ps.id remotePath)
      (laneID remotePath ps.id) rtt now).1 }

/-- `learn`.  `retired` tells whether the writes of the view are closed. -/
def learn (a : AdaptivePeer Addr) (rq : Option (Resequencer Addr))
    (ps : PeerPath) (retired : Bool) (remote : Addr) (payload : Bytes)
    (adopted : Bool) (rtt : Duration) (now clock : Time) :
    AdaptivePeer Addr × Option (Resequencer Addr) :=
  match parseHello payload with
  | none => (a, rq)
  | some (epoch, remotePath) =>
    if epoch.boot = a.transport.epoch.boot ∨ a.closed ∨ retired then (a, rq)
    else
      let (a, rq) := a.enter rq epoch adopted clock
      if a.transport.remote ≠ epoch then (a, rq)
      else (a.register ps remote remotePath rtt now, rq)

/-- The hello that `learn` accepts: its epoch is the remote one, or becomes
it. -/
def heard (a : AdaptivePeer Addr) (retired : Bool) (payload : Bytes)
    (adopted : Bool) : Option (Epoch × UInt8) :=
  match parseHello payload with
  | none => none
  | some (epoch, remotePath) =>
    if epoch.boot = a.transport.epoch.boot ∨ a.closed ∨ retired then none
    else if epoch = a.transport.remote ∨
        a.transport.acceptsRemote epoch adopted then
      some (epoch, remotePath)
    else none

/-- The routes that an accepted hello leaves: none, if the epoch changes. -/
def kept (a : AdaptivePeer Addr) (epoch : Epoch) :
    Finmap fun _ : PathID => AdaptiveRoute Addr :=
  if epoch = a.transport.remote then a.routes else ∅

section Learning

variable {a : AdaptivePeer Addr} {rq : Option (Resequencer Addr)}

variable {adopted : Bool}

theorem enter_of_eq {clock : Time} :
    (a.enter rq a.transport.remote adopted clock).1 = a := by
  simp [enter, Transport.setRemote, Transport.acceptsRemote]

variable {epoch : Epoch}

theorem enter_of_refused {clock : Time}
    (h : a.transport.acceptsRemote epoch adopted = false) :
    (a.enter rq epoch adopted clock).1 = a := by
  simp [enter, Transport.setRemote, h]

theorem enter_of_accepted (rq : Option (Resequencer Addr)) (clock : Time)
    (h : a.transport.acceptsRemote epoch adopted = true) :
    (a.enter rq epoch adopted clock).1.routes = ∅ ∧
      (a.enter rq epoch adopted clock).1.transport.remote = epoch := by
  simp [enter, Transport.setRemote, h]

theorem remote_register (a : AdaptivePeer Addr) (ps : PeerPath) (remote : Addr)
    (remotePath : UInt8) (rtt : Duration) (now : Time) :
    (a.register ps remote remotePath rtt now).transport.remote =
      a.transport.remote := by
  unfold register Transport.path Transport.checkTime
  by_cases hnow : now < a.transport.lastTime
  · rw [if_pos hnow]
  · rw [if_neg hnow]
    dsimp only
    split <;> rfl

/-- A hello is passed over, or registers a lane. -/
theorem learn_cases (a : AdaptivePeer Addr) (rq : Option (Resequencer Addr))
    (ps : PeerPath) (retired : Bool) (remote : Addr) (payload : Bytes)
    (adopted : Bool) (rtt : Duration) (now clock : Time) :
    a.heard retired payload adopted = none ∧
        (a.learn rq ps retired remote payload adopted rtt now clock).1 = a ∨
      ∃ epoch remotePath,
        a.heard retired payload adopted = some (epoch, remotePath) ∧
        (a.learn rq ps retired remote payload adopted rtt now clock).1.routes =
          (a.kept epoch).insert (laneID ps.id remotePath) ⟨ps, remote⟩ ∧
        (a.learn rq ps retired remote payload adopted rtt now
          clock).1.transport.remote = epoch := by
  unfold learn heard
  cases parseHello payload with
  | none => exact .inl ⟨rfl, rfl⟩
  | some h =>
    obtain ⟨epoch, remotePath⟩ := h
    dsimp only
    by_cases hskip : epoch.boot = a.transport.epoch.boot ∨
        a.closed = true ∨ retired = true
    · rw [if_pos hskip, if_pos hskip]
      exact .inl ⟨rfl, rfl⟩
    rw [if_neg hskip, if_neg hskip]
    by_cases hsame : epoch = a.transport.remote
    · subst hsame
      rw [if_pos (.inl rfl), enter_of_eq, if_neg (by simp)]
      exact .inr ⟨_, _, rfl, by rw [kept, if_pos rfl]; rfl,
        remote_register _ _ _ _ _ _⟩
    cases haccepts : a.transport.acceptsRemote epoch adopted with
    | true =>
      have henter := enter_of_accepted rq clock haccepts
      rw [if_pos (.inr rfl), if_neg (not_not.mpr henter.2)]
      refine .inr ⟨_, _, rfl, ?_,
        (remote_register _ _ _ _ _ _).trans henter.2⟩
      rw [kept, if_neg hsame, ← henter.1]
      rfl
    | false =>
      rw [if_neg (by simpa using hsame), enter_of_refused haccepts,
        if_pos (Ne.symm hsame)]
      exact .inl ⟨rfl, rfl⟩

theorem parseHello_of_heard {retired adopted : Bool} {payload : Bytes}
    {hello : Epoch × UInt8} (h : a.heard retired payload adopted = some hello) :
    parseHello payload = some hello ∧
      (hello.1 = a.transport.remote ∨
        a.transport.acceptsRemote hello.1 adopted = true) := by
  unfold heard at h
  split at h
  · cases h
  next heq =>
    split_ifs at h with _ haccepts
    cases h
    exact ⟨heq, haccepts⟩

/-- The remote epoch changes only to that of a hello, which `SetRemote`
accepts. -/
theorem remote_learn (a : AdaptivePeer Addr) (rq : Option (Resequencer Addr))
    (ps : PeerPath) (retired : Bool) (remote : Addr) (payload : Bytes)
    (adopted : Bool) (rtt : Duration) (now clock : Time) :
    let a' := (a.learn rq ps retired remote payload adopted rtt now clock).1
    a'.transport.remote = a.transport.remote ∨
      ∃ epoch remotePath, parseHello payload = some (epoch, remotePath) ∧
        a.transport.acceptsRemote epoch adopted = true ∧
        a'.transport.remote = epoch := by
  rcases a.learn_cases rq ps retired remote payload adopted rtt now clock with
    ⟨-, hsame⟩ | ⟨epoch, remotePath, hheard, -, hremote⟩
  · exact .inl (by rw [hsame])
  · obtain ⟨hparse, heq | haccepts⟩ := parseHello_of_heard hheard
    · exact .inl (hremote.trans heq)
    · exact .inr ⟨epoch, remotePath, hparse, haccepts, hremote⟩

theorem lookup_kept {id : PathID} {route : AdaptiveRoute Addr}
    (h : (a.kept epoch).lookup id = some route) :
    a.routes.lookup id = some route := by
  unfold kept at h
  split_ifs at h
  · exact h
  · simp at h

end Learning

/-! ## Sending -/

/-- `enqueue`, which stops at the first datagram that is refused. -/
def enqueue (a : AdaptivePeer Addr) (now : Time) :
    List (Bytes × PacketMetadata) → AdaptivePeer Addr
  | [] => a
  | (payload, metadata) :: batch =>
    if a.closed then a
    else
      match a.transport.enqueue payload metadata now with
      | (transport, .error _) => { a with transport }
      | (transport, .ok _) => enqueue { a with transport } now batch

/-- `flush`: what is to be sent, and where.  The transmissions of a lane without a
route are dropped. -/
def flush (a : AdaptivePeer Addr) (now : Time) (order : MapOrder) :
    AdaptivePeer Addr × List (AdaptiveRoute Addr × Control) :=
  match a.transport.poll now order with
  | (transport, .error _) => ({ a with transport }, [])
  | (transport, .ok out) =>
    ({ a with transport },
      out.filterMap fun tx =>
        (a.routes.lookup tx.path).map fun route => (route, tx.frame))

theorem routes_enqueue (a : AdaptivePeer Addr) (now : Time)
    (batch : List (Bytes × PacketMetadata)) :
    (a.enqueue now batch).routes = a.routes := by
  induction batch generalizing a with
  | nil => rfl
  | cons _ _ ih =>
    unfold enqueue
    split
    · rfl
    · split
      · rfl
      · exact ih _

theorem routes_flush (a : AdaptivePeer Addr) (now : Time) (order : MapOrder) :
    (a.flush now order).1.routes = a.routes := by
  unfold flush
  split <;> rfl

/-! ## Forgetting -/

/-- One turn of the loops that forget routes. -/
def forget (drop : AdaptiveRoute Addr → Bool) (a : AdaptivePeer Addr)
    (id : PathID) : AdaptivePeer Addr :=
  match a.routes.lookup id with
  | none => a
  | some route =>
    if drop route then
      { a with
        transport := a.transport.disable id
        routes := a.routes.erase id }
    else a

def forgetSocket (a : AdaptivePeer Addr) (socket : ℕ) (keys : List PathID) :
    AdaptivePeer Addr :=
  keys.foldl (forget fun route => decide (route.path.socket = socket)) a

def forgetRoutes (a : AdaptivePeer Addr) (keys : List PathID) :
    AdaptivePeer Addr :=
  keys.foldl (forget fun _ => true) a

section Forgetting

variable {a : AdaptivePeer Addr} {drop : AdaptiveRoute Addr → Bool}

theorem lookup_forget {key id : PathID}
    {route : AdaptiveRoute Addr}
    (h : (forget drop a key).routes.lookup id = some route) :
    a.routes.lookup id = some route := by
  unfold forget at h
  split at h
  · exact h
  split at h
  · by_cases hid : id = key
    · subst hid
      simp [Finmap.lookup_erase] at h
    · rwa [Finmap.lookup_erase_ne hid] at h
  · exact h

theorem lookup_forget_foldl
    {keys : List PathID} {id : PathID} {route : AdaptiveRoute Addr}
    (h : (keys.foldl (forget drop) a).routes.lookup id = some route) :
    a.routes.lookup id = some route := by
  induction keys generalizing a with
  | nil => exact h
  | cons _ _ ih => exact lookup_forget (ih h)

end Forgetting

/-! ## One lane for each pair -/

section Latest

variable {a : AdaptivePeer Addr}

/-- At most one lane is registered for each pair. -/
def Unambiguous (a : AdaptivePeer Addr) : Prop :=
  ∀ id id' route, a.routes.lookup id = some route →
    a.routes.lookup id' = some route → id = id'

/-- Every registered lane is the one of the last hello from its pair. -/
def Latest (a : AdaptivePeer Addr) (last : AdaptiveRoute Addr → Option PathID) :
    Prop :=
  ∀ id route, a.routes.lookup id = some route → last route = some id

theorem Latest.mono {a' : AdaptivePeer Addr}
    {last : AdaptiveRoute Addr → Option PathID} (h : a.Latest last)
    (hsub : ∀ id route, a'.routes.lookup id = some route →
      a.routes.lookup id = some route) : a'.Latest last :=
  fun id route hid => h id route (hsub id route hid)

theorem Latest.unambiguous {last : AdaptiveRoute Addr → Option PathID}
    (h : a.Latest last) : a.Unambiguous := by
  intro id id' route hid hid'
  exact Option.some.inj ((h id route hid).symm.trans (h id' route hid'))

theorem latest_open (epoch : Epoch) :
    (openPeer epoch : AdaptivePeer Addr).Latest fun _ => none :=
  fun id route hid => by simp [openPeer] at hid

end Latest

/-! ## Receiving -/

/-- What `receive` does with one delivery. -/
def handUp (remote : Addr) (clock : Time)
    (s : AdaptivePeer Addr × Resequencer Addr) (d : Delivery) :
    AdaptivePeer Addr × Resequencer Addr :=
  if d.interactive then
    if s.1.interactive.length < interactiveRoom then
      ({ s.1 with interactive := s.1.interactive ++ [⟨d.payload, remote⟩] },
        s.2)
    else s
  else (s.1, (s.2.observe d.sequence d.payload remote clock).1)

section Lanes

variable [DecidableEq Addr] {a : AdaptivePeer Addr}

/-- The lane that the search of `receive` finds, if the map is iterated in the
order of `keys`. -/
def lane (a : AdaptivePeer Addr) (keys : List PathID) (ps : PeerPath)
    (remote : Addr) : Option PathID :=
  keys.find? fun id => decide (a.routes.lookup id = some ⟨ps, remote⟩)

/-- `receive`. -/
def receive (a : AdaptivePeer Addr) (rq : Option (Resequencer Addr))
    (ps : PeerPath) (remote : Addr) (f : Control) (now clock : Time)
    (keys : List PathID) (order : MapOrder) :
    AdaptivePeer Addr × Option (Resequencer Addr) :=
  if a.closed then (a, rq)
  else
    match a.lane keys ps remote with
    | none => (a, rq)
    | some id =>
      match a.transport.receive id f now order with
      | (transport, .error _) => ({ a with transport }, rq)
      | (transport, .ok deliveries) =>
        match rq with
        | none => ({ a with transport }, none)
        | some rq =>
          let s := deliveries.foldl (handUp remote clock)
            ({ a with transport }, rq.setHoldBound adaptiveReorderHold)
          (s.1, some s.2)

/-! ## Runs -/

/-- What happens to an adaptive peer.  `keys` is the order in which the route map
is iterated. -/
inductive Event (Addr : Type)
  | learn (ps : PeerPath) (retired : Bool) (remote : Addr) (payload : Bytes)
      (adopted : Bool) (rtt : Duration) (now : Time)
  | receive (ps : PeerPath) (remote : Addr) (f : Control) (now : Time)
      (keys : List PathID) (order : MapOrder)
  | enqueue (batch : List (Bytes × PacketMetadata)) (now : Time)
  | flush (now : Time) (order : MapOrder)
  | forgetSocket (socket : ℕ) (keys : List PathID)
  | forgetRoutes (keys : List PathID)
  | close

/-- The resequencer is left aside here, as it decides nothing about lanes. -/
def step (a : AdaptivePeer Addr) : Event Addr → AdaptivePeer Addr
  | .learn ps retired remote payload adopted rtt now =>
    (a.learn none ps retired remote payload adopted rtt now now).1
  | .receive ps remote f now keys order =>
    (a.receive none ps remote f now now keys order).1
  | .enqueue batch now => a.enqueue now batch
  | .flush now order => (a.flush now order).1
  | .forgetSocket socket keys => a.forgetSocket socket keys
  | .forgetRoutes keys => a.forgetRoutes keys
  | .close => { a with closed := true }

def run (a : AdaptivePeer Addr) (events : List (Event Addr)) :
    AdaptivePeer Addr :=
  events.foldl step a

theorem routes_receive (a : AdaptivePeer Addr) (ps : PeerPath) (remote : Addr)
    (f : Control) (now clock : Time) (keys : List PathID) (order : MapOrder) :
    (a.receive none ps remote f now clock keys order).1.routes = a.routes := by
  unfold receive
  split
  · rfl
  · split
    · rfl
    · split <;> rfl

/-- The lane that an event registers for a pair of a view and an address. -/
def noteHello (a : AdaptivePeer Addr) (route : AdaptiveRoute Addr)
    (last : Option PathID) : Event Addr → Option PathID
  | .learn ps retired remote payload adopted _ _ =>
    if route = ⟨ps, remote⟩ then
      match a.heard retired payload adopted with
      | some (_, remotePath) => some (laneID ps.id remotePath)
      | none => last
    else last
  | _ => last

/-- The lane of the most recent accepted hello from a pair. -/
def lastHello (route : AdaptiveRoute Addr) :
    AdaptivePeer Addr → Option PathID → List (Event Addr) → Option PathID
  | _, last, [] => last
  | a, last, e :: events =>
    lastHello route (a.step e) (a.noteHello route last e) events

/-- A hello from a pair that already has a lane, which the hello does not end, is
for the same remote path. -/
def Steady (a : AdaptivePeer Addr) : Event Addr → Prop
  | .learn ps retired remote payload adopted _ _ =>
    ∀ epoch remotePath,
      a.heard retired payload adopted = some (epoch, remotePath) →
      ∀ id, (a.kept epoch).lookup id = some ⟨ps, remote⟩ →
        id = laneID ps.id remotePath
  | _ => True

def SteadyRun : AdaptivePeer Addr → List (Event Addr) → Prop
  | _, [] => True
  | a, e :: events => a.Steady e ∧ SteadyRun (a.step e) events

theorem Latest.step {last : AdaptiveRoute Addr → Option PathID}
    (h : a.Latest last) {e : Event Addr} (hsteady : a.Steady e) :
    (a.step e).Latest fun route => a.noteHello route (last route) e := by
  cases e with
  | learn ps retired remote payload adopted rtt now =>
    rcases a.learn_cases none ps retired remote payload adopted rtt now now
      with ⟨hheard, hsame⟩ | ⟨epoch, remotePath, hheard, hroutes, -⟩
    · intro id route hid
      simp only [AdaptivePeer.step, hsame] at hid
      simpa [noteHello, hheard] using h id route hid
    intro id route hid
    simp only [AdaptivePeer.step, hroutes] at hid
    simp only [noteHello, hheard]
    -- the lane is the new one, or one that the pair had before
    by_cases hlane : id = laneID ps.id remotePath
    · subst hlane
      rw [Finmap.lookup_insert] at hid
      cases hid
      rw [if_pos rfl]
    rw [Finmap.lookup_insert_of_ne _ hlane] at hid
    split_ifs with hroute
    · subst hroute
      exact absurd (hsteady _ _ hheard id hid) hlane
    · exact h id route (lookup_kept hid)
  | receive =>
    exact h.mono fun id route hid => by
      rwa [AdaptivePeer.step, routes_receive] at hid
  | enqueue =>
    exact h.mono fun id route hid => by
      rwa [AdaptivePeer.step, routes_enqueue] at hid
  | flush =>
    exact h.mono fun id route hid => by
      rwa [AdaptivePeer.step, routes_flush] at hid
  | forgetSocket | forgetRoutes =>
    exact h.mono fun id route hid => lookup_forget_foldl hid
  | close => exact h

theorem Latest.run {last : AdaptiveRoute Addr → Option PathID}
    (h : a.Latest last) {events : List (Event Addr)}
    (hsteady : a.SteadyRun events) :
    (a.run events).Latest fun route => lastHello route a (last route) events := by
  induction events generalizing a last with
  | nil => exact h
  | cons _ _ ih => exact ih (h.step hsteady.1) hsteady.2

theorem lookup_of_lane {keys : List PathID} {ps : PeerPath} {remote : Addr}
    {id : PathID} (h : a.lane keys ps remote = some id) :
    a.routes.lookup id = some ⟨ps, remote⟩ := by
  simpa using List.find?_some h

/-- The order in which an unambiguous map is iterated does not matter. -/
theorem Unambiguous.lane_eq (h : a.Unambiguous) {keys keys' : List PathID}
    (hkeys : ∀ id, id ∈ keys ↔ id ∈ a.routes)
    (hkeys' : ∀ id, id ∈ keys' ↔ id ∈ a.routes) (ps : PeerPath)
    (remote : Addr) : a.lane keys ps remote = a.lane keys' ps remote := by
  -- whatever one order finds, the other order finds something too
  have hfound : ∀ {keys keys' : List PathID} {id : PathID},
      (∀ id, id ∈ keys' ↔ id ∈ a.routes) → a.lane keys ps remote = some id →
      a.lane keys' ps remote = some id := by
    intro keys keys' id hkeys' hlane
    have hid := lookup_of_lane hlane
    have hmem : id ∈ keys' := (hkeys' id).mpr (Finmap.mem_of_lookup_eq_some hid)
    cases hlane' : a.lane keys' ps remote with
    | none =>
      have := List.find?_eq_none.mp hlane' id hmem
      simp [hid] at this
    | some id' => rw [h id' id _ (lookup_of_lane hlane') hid]
  cases hlane : a.lane keys ps remote with
  | some => exact (hfound hkeys' hlane).symm
  | none =>
    cases hlane' : a.lane keys' ps remote with
    | none => rfl
    | some => rw [hfound hkeys hlane'] at hlane; cases hlane

/-- In every run whose hellos from a pair keep to the remote path of the pair's
lane, each pair has at most one lane; so the lane under which a frame from the
pair is received does not depend on the order of the map, and it is the lane of
the most recent accepted hello from the pair. -/
theorem lanes_unambiguous (epoch : Epoch) (events : List (Event Addr))
    (hsteady : SteadyRun (openPeer epoch) events) :
    let a := (openPeer epoch).run events
    a.Unambiguous ∧
      (∀ keys keys', (∀ id, id ∈ keys ↔ id ∈ a.routes) →
        (∀ id, id ∈ keys' ↔ id ∈ a.routes) → ∀ ps remote,
          a.lane keys ps remote = a.lane keys' ps remote) ∧
      ∀ keys ps remote id, a.lane keys ps remote = some id →
        lastHello ⟨ps, remote⟩ (openPeer epoch) none events = some id := by
  intro a
  have h := (latest_open epoch).run hsteady
  refine ⟨h.unambiguous, fun keys keys' hkeys hkeys' ps remote => ?_, ?_⟩
  · exact h.unambiguous.lane_eq hkeys hkeys' ps remote
  · intro keys ps remote id hlane
    exact h id _ (lookup_of_lane hlane)

/-! ## Two remote paths behind one address -/

/-- The first view of the first path. -/
def firstPath : PeerPath := ⟨0, 0, 1⟩

/-- A hello of the epoch `⟨2, 1⟩` for a remote path, from the address 5. -/
def helloFrom (remotePath : UInt8) : Event ℕ :=
  .learn firstPath false 5 (hello ⟨2, 1⟩ remotePath) true 0 0

/-- The peer replaces its path 7 by the path 8, at the same address: the two
lanes are both registered, and the order of the map decides between them. -/
theorem renumbered_path_ambiguous :
    let a := (openPeer ⟨1, 1⟩).run [helloFrom 7, helloFrom 8]
    a.lane [laneID 1 7, laneID 1 8] firstPath 5 = some (laneID 1 7) ∧
      a.lane [laneID 1 8, laneID 1 7] firstPath 5 = some (laneID 1 8) := by
  decide

/-- The second of two equal hellos finds the lane of the first. -/
theorem steadyRun_hello :
    SteadyRun (openPeer ⟨1, 1⟩) [helloFrom 7, helloFrom 7] := by
  refine ⟨fun epoch remotePath _ id hid => ?_,
    fun epoch remotePath hheard id hid => ?_, trivial⟩
  · exact absurd (lookup_kept hid) (by simp [openPeer])
  have hroutes : ((openPeer ⟨1, 1⟩).step (helloFrom 7)).routes =
      Finmap.singleton (laneID 1 7) ⟨firstPath, 5⟩ := by
    decide
  have hpath : remotePath = 7 := by
    have hhello : ((openPeer ⟨1, 1⟩).step (helloFrom 7)).heard false
        (hello ⟨2, 1⟩ 7) true = some (⟨2, 1⟩, 7) := by
      decide
    rw [hhello] at hheard
    cases hheard
    rfl
  subst hpath
  have hid := lookup_kept hid
  rw [hroutes] at hid
  exact (Finmap.mem_singleton _ _ _).mp (Finmap.mem_of_lookup_eq_some hid)

theorem lanes_unambiguous_hello :
    let a := (openPeer ⟨1, 1⟩).run [helloFrom 7, helloFrom 7]
    a.Unambiguous ∧
      (∀ keys keys', (∀ id, id ∈ keys ↔ id ∈ a.routes) →
        (∀ id, id ∈ keys' ↔ id ∈ a.routes) → ∀ ps remote,
          a.lane keys ps remote = a.lane keys' ps remote) ∧
      ∀ keys ps remote id, a.lane keys ps remote = some id →
        lastHello ⟨ps, remote⟩ (openPeer ⟨1, 1⟩) none [helloFrom 7, helloFrom 7] =
          some id :=
  lanes_unambiguous ⟨1, 1⟩ [helloFrom 7, helloFrom 7] steadyRun_hello

end Lanes

end AdaptivePeer

end Wanbond.Bind
