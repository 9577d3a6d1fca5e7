import Wanbond.Bind.Adaptive
import Wanbond.Bind.Membership
import Wanbond.Support.CopyOnWrite
import Wanbond.Telemetry.Probe

/-!
# Inbound datagrams

A socket may be shared by several peers, each with its own key and its own view
of the socket.  A datagram goes to the peer to which its source is bound; the
source of an authenticated probe is bound to the peer whose key the probe
verifies under.  A peer's view then hands a control frame to the transport, and
answers or consumes a probe.

A peer's codec is represented by what it decodes.  Left out are the waiters of
padded probes, the latch and the callback of the first live path, and the
callbacks of a roam.  What the program reads besides its own state, the clock and
the orders in which it iterates its maps, is an argument.
-/

namespace Wanbond.Bind

open Wanbond.Bond (Time Duration Bytes PathID MapOrder)
open Wanbond.Frame (Probe)
open Wanbond.Reseq (Resequencer)
open Wanbond.Support.CopyOnWrite (Outcome)
open Wanbond.Telemetry (Reflector AcceptedProbe)

/-! ## The state -/

/-- One peer's view of a socket, `peerPathState`. -/
structure PeerView (Addr : Type) where
  path : PeerPath
  remotes : Remotes Addr
  prober : Option Telemetry.Prober
  writesClosed : Bool
  rxBytes : ℕ

structure PeerState (Addr : Type) where
  /-- The frame that a datagram carries under the peer's key. -/
  decode : Bytes → Option Frame
  views : List (PeerView Addr)
  reflector : Reflector
  adaptive : Option (AdaptivePeer Addr)
  resequencer : Option (Resequencer Addr)

structure SourceBinding where
  peer : ℕ
  seq : ℕ
  deriving DecidableEq, Repr

abbrev SourceMap (Addr : Type) := Finmap fun _ : Addr => SourceBinding

/-- The bound peers, the first of which is the primary one, and the map from
sources to peers. -/
structure Demux (Addr : Type) where
  peers : List (PeerState Addr)
  peerBySource : SourceMap Addr
  bindSeq : ℕ
  maxDemuxSources : ℕ

/-- What the program reads while it handles a datagram: the clock, the round trip
estimate of the path, and the orders of its maps. -/
structure Readings (Addr : Type) where
  now : Time
  rtt : Duration
  routes : List PathID
  sources : List Addr
  order : MapOrder

/-! ## Dispatch to one peer -/

namespace PeerState

variable {Addr : Type}

def setView (p : PeerState Addr) (k : ℕ) (v : PeerView Addr) : PeerState Addr :=
  { p with views := p.views.set k v }

/-- The position of the peer's view of a socket. -/
def viewOf (p : PeerState Addr) (socket : ℕ) : Option ℕ :=
  p.views.findIdx? fun v => decide (v.path.socket = socket)

/-- `ensurePeerReceiveInstantiated`. -/
def ensureReceive (p : PeerState Addr) : PeerState Addr :=
  match p.resequencer with
  | some _ => p
  | none =>
    { p with
      resequencer := some (Resequencer.new resequencerWindow
        resequencerWindow_pos resequencerTimeout) }

/-- Hand a hello to the adaptive peer, if there is one. -/
def learn (p : PeerState Addr) (v : PeerView Addr) (src : Addr)
    (payload : Bytes) (adopted : Bool) (rd : Readings Addr) : PeerState Addr :=
  match p.adaptive with
  | none => p
  | some a =>
    let (a, rq) := a.learn p.resequencer v.path v.writesClosed src payload
      adopted rd.rtt rd.now rd.now
    { p with adaptive := some a, resequencer := rq }

/-- The echo of an ordinary probe carries this end's hello. -/
def echoPayload (p : PeerState Addr) (v : PeerView Addr)
    (accepted : AcceptedProbe) : Bytes :=
  match p.adaptive with
  | none => accepted.probe.payload
  | some a =>
    if accepted.probe.padded then accepted.probe.payload
    else Bond.hello a.transport.epoch v.path.id

/-- An echo of one of this end's probes. -/
def handleEcho (p : PeerState Addr) (k : ℕ) (v : PeerView Addr) (f : Probe)
    (src : Addr) (rd : Readings Addr) : PeerState Addr :=
  match v.prober with
  | none => p.setView k v
  | some prober =>
    match prober.handleEchoProbe f rd.now with
    | (prober, .error _) => p.setView k { v with prober := some prober }
    | (prober, .ok fresh) =>
      (p.setView k { v with prober := some prober }).learn v src
        fresh.payload false rd

/-- A probe of the peer, which is answered by the echo that is returned. -/
def handleProbe (p : PeerState Addr) (k : ℕ) (v : PeerView Addr) (f : Probe)
    (src : Addr) (rd : Readings Addr) : PeerState Addr × Option Probe :=
  match p.reflector.acceptProbe f with
  | (reflector, .error _) => ({ p.setView k v with reflector }, none)
  | (reflector, .ok accepted) =>
    let p := { p.setView k v with reflector }
    let p :=
      if accepted.acceptance = .bootstrap then p
      else p.learn v src accepted.probe.payload
        (decide (accepted.acceptance = .adopted)) rd
    (p, some (Reflector.answer accepted (p.echoPayload v accepted)))

variable [DecidableEq Addr]

/-- `dispatchInbound` on the `k`-th view of the peer.  The source of a probe is
learned first, whatever becomes of the probe. -/
def dispatchInbound (p : PeerState Addr) (k : ℕ) (v : PeerView Addr)
    (fr : Frame) (length : ℕ) (src : Addr) (rd : Readings Addr) :
    PeerState Addr × Option Probe :=
  let v := { v with rxBytes := v.rxBytes + length }
  match fr with
  | .control c =>
    match p.adaptive with
    | none => (p.setView k v, none)
    | some a =>
      let f := Bond.Control.parse c.controlType c.seq.toNat c.payload
      let (a, rq) := a.receive p.resequencer v.path src f rd.now rd.now
        rd.routes rd.order
      ({ p.setView k v with adaptive := some a, resequencer := rq }, none)
  | .probe f =>
    let v :=
      { v with
        remotes := v.remotes.learnRemoteFromProbe f.pathID.toNat src rd.now }
    if f.isEcho then (p.handleEcho k v f src rd, none)
    else p.handleProbe k v f src rd

/-- `handleInbound`: what does not verify under the peer's key is dropped. -/
def handleInbound (p : PeerState Addr) (socket : ℕ) (raw : Bytes) (src : Addr)
    (rd : Readings Addr) : PeerState Addr × Option Probe :=
  match p.decode raw, p.viewOf socket with
  | some fr, some k =>
    match p.views[k]? with
    | some v => p.dispatchInbound k v fr raw.length src rd
    | none => (p, none)
  | _, _ => (p, none)

end PeerState

/-! ## The map from sources to peers -/

namespace Demux

variable {Addr : Type}

/-- The peers with a view of the socket. -/
def views (m : Demux Addr) (socket : ℕ) : List ℕ :=
  (List.range m.peers.length).filter fun i =>
    (m.peers[i]?).any fun p => (p.viewOf socket).isSome

/-- The `i`-th peer does something, with an echo to be sent. -/
def onPeer (m : Demux Addr) (i : ℕ)
    (act : PeerState Addr → PeerState Addr × Option Probe) :
    Demux Addr × Option Probe :=
  match m.peers[i]? with
  | none => (m, none)
  | some p => ({ m with peers := m.peers.set i (act p).1 }, (act p).2)

/-- The share of the map that one peer may occupy. -/
def perPeerQuota (m : Demux Addr) : ℕ :=
  max 1 (m.maxDemuxSources / max 1 m.peers.length)

variable [DecidableEq Addr]

/-- One turn of the loop that counts a peer's sources and finds the one that was
bound first. -/
def scan (m : Demux Addr) (i : ℕ) (found : ℕ × Option (ℕ × Addr))
    (key : Addr) : ℕ × Option (ℕ × Addr) :=
  match m.peerBySource.lookup key with
  | none => found
  | some b =>
    if b.peer ≠ i then found
    else
      match found.2 with
      | none => (found.1 + 1, some (b.seq, key))
      | some (oldest, _) =>
        if b.seq < oldest then (found.1 + 1, some (b.seq, key))
        else (found.1 + 1, found.2)

/-- The copy of the map with a new entry, and possibly without an old one. -/
def replaced (t : SourceMap Addr) (src : Addr) (i : ℕ) (evict : Option Addr)
    (seq : ℕ) : SourceMap Addr :=
  (match evict with
    | none => t
    | some key => t.erase key).insert src ⟨i, seq⟩

/-- One turn of the loop of `bindSourceToPeer`, on the map that it has loaded: a
peer at its quota gives up its own oldest source, and a peer below it is refused
if the map is full.  A source that is in the map does not make it grow, and is
never refused. -/
def bindAttempt (m : Demux Addr) (src : Addr) (i : ℕ) (sources : List Addr) :
    Outcome (SourceMap Addr) Bool :=
  match m.peerBySource.lookup src with
  | some b =>
    if b.peer = i then .finish true
    else .draw (replaced m.peerBySource src i none) true
  | none =>
    if m.maxDemuxSources = 0 then
      .draw (replaced m.peerBySource src i none) true
    else
      let found := sources.foldl (m.scan i) (0, none)
      if m.perPeerQuota ≤ found.1 then
        .draw (replaced m.peerBySource src i (found.2.map Prod.snd)) true
      else if m.maxDemuxSources ≤ m.peerBySource.keys.card then .finish false
      else .draw (replaced m.peerBySource src i none) true

/-- The map with a new entry, and possibly without an old one. -/
def install (m : Demux Addr) (src : Addr) (i : ℕ) (evict : Option Addr) :
    Demux Addr :=
  { m with
    peerBySource := replaced m.peerBySource src i evict (m.bindSeq + 1)
    bindSeq := m.bindSeq + 1 }

/-- `bindSourceToPeer` while no other call publishes a map: its first turn is the
last one. -/
def bindSourceToPeer (m : Demux Addr) (src : Addr) (i : ℕ)
    (sources : List Addr) : Demux Addr × Bool :=
  match m.bindAttempt src i sources with
  | .finish bound => (m, bound)
  | .publish next bound => ({ m with peerBySource := next }, bound)
  | .draw next bound =>
    ({ m with
      peerBySource := next (m.bindSeq + 1)
      bindSeq := m.bindSeq + 1 }, bound)

/-! ## Demultiplexing -/

/-- The loop over the peers that tries each key in turn.  Only a probe binds its
source. -/
def trialDecode (m : Demux Addr) (socket : ℕ) (raw : Bytes) (src : Addr)
    (rd : Readings Addr) : List ℕ → Demux Addr × Option Probe
  | [] => (m, none)
  | i :: rest =>
    match (m.peers[i]?).bind fun p => p.decode raw with
    | some (.probe _) =>
      match m.bindSourceToPeer src i rd.sources with
      | (m, false) => (m, none)
      | (m, true) =>
        m.onPeer i fun p => p.ensureReceive.handleInbound socket raw src rd
    | _ => trialDecode m socket raw src rd rest

/-- `demuxInbound` for a datagram that arrives on a socket, which the primary
peer's view reads. -/
def demuxInbound (m : Demux Addr) (socket : ℕ) (raw : Bytes) (src : Addr)
    (rd : Readings Addr) : Demux Addr × Option Probe :=
  if (m.views socket).length ≤ 1 then
    m.onPeer 0 fun p => p.handleInbound socket raw src rd
  else
    match m.peerBySource.lookup src with
    | some b =>
      if b.peer ∈ m.views socket then
        m.onPeer b.peer fun p => p.handleInbound socket raw src rd
      else m.trialDecode socket raw src rd (m.views socket)
    | none => m.trialDecode socket raw src rd (m.views socket)

/-- A datagram, and what is read while it is handled. -/
structure Datagram (Addr : Type) where
  socket : ℕ
  raw : Bytes
  src : Addr
  rd : Readings Addr

def step (m : Demux Addr) (d : Datagram Addr) : Demux Addr :=
  (m.demuxInbound d.socket d.raw d.src d.rd).1

def run (m : Demux Addr) (datagrams : List (Datagram Addr)) : Demux Addr :=
  datagrams.foldl step m

end Demux

end Wanbond.Bind
