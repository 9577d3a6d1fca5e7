import Mathlib.Data.Finmap
import Wanbond.Bond.Wire
import Wanbond.Support.Keyed

/-!
# The path membership of the multipath bind

A bind holds the configured path definitions, and for each bound peer one prober
per definition and one view of every path whose socket is bound.  Paths whose
source address is not assignable yet are deferred.  This module models the
operations that change this membership, and those that set where the views send:
the seeds of `Open`, the configured remote of each peer, and what probes teach.

Sockets, codecs and the adaptive transports are represented by whether creating
them succeeds.  The peer a map entry points to is the index of that peer.
-/

namespace Wanbond.Bind

open Wanbond.Bond (Time Duration)
open Wanbond.Support

/-! ## The remote table of one view -/

structure RemoteEntry (Addr : Type) where
  addr : Addr
  lastProbe : Time
  deriving DecidableEq, Repr

/-- The return addresses learned for each sender path, and the selected one. -/
structure Remotes (Addr : Type) where
  entries : Finmap fun _ : ℕ => RemoteEntry Addr
  selKey : ℕ
  selValid : Bool

namespace Remotes

variable {Addr : Type}

def unknown : Remotes Addr := ⟨∅, 0, false⟩

/-- The selected address, `selectedAddrLocked` in the source. -/
def getRemote (r : Remotes Addr) : Option Addr :=
  if r.selValid then (r.entries.lookup r.selKey).map RemoteEntry.addr else none

/-- The override by the operator or the control plane: the view's own id becomes
the only entry, and the selected one. -/
def setRemote (id : ℕ) (ap : Addr) (now : Time) : Remotes Addr :=
  ⟨Finmap.singleton id ⟨ap, now⟩, id, true⟩

/-- One authenticated probe of the sender path `key`. -/
def learnRemoteFromProbe (r : Remotes Addr) (key : ℕ) (ap : Addr) (now : Time) :
    Remotes Addr :=
  { entries := r.entries.insert key ⟨ap, now⟩
    selKey := if r.selValid then r.selKey else key
    selValid := true }

@[simp] theorem getRemote_unknown : (unknown : Remotes Addr).getRemote = none :=
  rfl

@[simp] theorem getRemote_setRemote (id : ℕ) (ap : Addr) (now : Time) :
    (setRemote id ap now).getRemote = some ap := by
  simp [getRemote, setRemote, Finmap.lookup_singleton_eq]

end Remotes

/-! ## The state -/

structure PathDef (Addr : Type) where
  name : String
  sourceValid : Bool := true
  /-- The path's own destination, if it has one. -/
  destAddr : Option Addr := none
  deriving DecidableEq, Repr

/-- A prober is stamped with its path's id for good. -/
structure Prober where
  name : String
  pathID : ℕ
  deriving DecidableEq, Repr

/-- The bound socket of a path. -/
structure SharedPath where
  name : String
  id : ℕ
  deriving DecidableEq, Repr

/-- One peer's view of a bound socket. -/
structure View (Addr : Type) where
  name : String
  id : ℕ
  remotes : Remotes Addr

structure Peer (Addr : Type) where
  name : String
  /-- Whether the peer can mint probers at runtime. -/
  newProber : Bool
  probers : List Prober
  paths : List (View Addr)
  configuredRemote : Option Addr

structure DeferredPath (Addr : Type) where
  path : PathDef Addr
  prober : Prober
  deriving DecidableEq, Repr

/-- The first peer is the primary one. -/
structure Multipath (Addr : Type) where
  defs : List (PathDef Addr)
  peers : List (Peer Addr)
  shared : List SharedPath
  deferred : List (DeferredPath Addr)
  nextPathID : ℕ
  edgePeerByRemote : Finmap fun _ : Addr => ℕ
  defaultRemote : Option Addr

inductive BindError
  | closed
  | alreadyOpen
  | noProbeTransport
  | sourceRequired (path : String)
  | alreadyConfigured (path : String)
  | idsExhausted (path : String)
  | listen (path : String)
  | codec
  | noPathBound (deferred : ℕ)
  | noSuchPath (path : String)
  | lastLivePath (path : String)
  | proberDesync (path : String)
  | remotesMismatch (got peers : ℕ)
  | unknownPeer (peer : String)
  | remoteOwned (owner : ℕ) (peer : String)
  deriving DecidableEq, Repr

/-- What binding a path's socket comes to. -/
inductive Listen
  | bound
  | notAvailable
  | failed
  deriving DecidableEq, Repr

/-- The outcomes of a call: of listening on a path, and of deriving a codec for
a peer's view of it. -/
structure Outcomes where
  listen : String → Listen
  codec : ℕ → String → Bool
  now : Time

namespace Multipath

variable {Addr : Type} [DecidableEq Addr]

/-- The primary peer's views; the bind is open if there are any. -/
def paths (m : Multipath Addr) : List (View Addr) :=
  match m.peers with
  | [] => []
  | p :: _ => p.paths

/-- The primary peer's probers. -/
def probers (m : Multipath Addr) : List Prober :=
  primaryProbers m.peers
where
  primaryProbers : List (Peer Addr) → List Prober
    | [] => []
    | p :: _ => p.probers

/-- Where a fresh view of a path starts sending: the path's own destination, the
peer's configured remote, or the default of a bind with a single peer. -/
def seed (m : Multipath Addr) (p : Peer Addr) (d : PathDef Addr) :
    Option Addr :=
  match d.destAddr, p.configuredRemote with
  | some ap, _ => some ap
  | none, some ap => some ap
  | none, none => if m.edgePeerByRemote = ∅ then m.defaultRemote else none

def seededView (m : Multipath Addr) (p : Peer Addr) (d : PathDef Addr) (id : ℕ)
    (now : Time) : View Addr :=
  { name := d.name
    id
    remotes :=
      match m.seed p d with
      | some ap => .setRemote id ap now
      | none => .unknown }

def addView (m : Multipath Addr) (p : Peer Addr) (d : PathDef Addr) (id : ℕ)
    (now : Time) : Peer Addr :=
  { p with paths := p.paths ++ [m.seededView p d id now] }

/-! ## Opening and closing -/

/-- The views of one bound path in `Open`, from the `k`-th peer on. -/
def openViews (m : Multipath Addr) (o : Outcomes) (i : ℕ) (d : PathDef Addr)
    (id : ℕ) : ℕ → List (Peer Addr) → Except BindError (List (Peer Addr))
  | _, [] => .ok []
  | k, p :: ps =>
    if o.codec k d.name = false then .error .codec
    else if p.probers.length ≤ i then .error (.proberDesync d.name)
    else
      match openViews m o i d id (k + 1) ps with
      | .error e => .error e
      | .ok ps' => .ok (m.addView p d id o.now :: ps')

/-- One turn of the loop of `Open`, for the `i`-th definition.  The path's id is
the stamp of the primary's prober. -/
def openPath (m : Multipath Addr) (o : Outcomes) (i : ℕ) (d : PathDef Addr) :
    Except BindError (Multipath Addr) :=
  match o.listen d.name with
  | .failed => .error (.listen d.name)
  | .notAvailable =>
    match m.probers[i]? with
    | none => .error (.proberDesync d.name)
    | some prober =>
      .ok { m with deferred := m.deferred ++ [⟨d, prober⟩] }
  | .bound =>
    let id := ((m.probers[i]?).map Prober.pathID).getD i
    match m.openViews o i d id 0 m.peers with
    | .error e => .error e
    | .ok peers =>
      .ok { m with shared := m.shared ++ [⟨d.name, id⟩], peers }

def openPaths (o : Outcomes) :
    ℕ → List (PathDef Addr) → Multipath Addr → Except BindError (Multipath Addr)
  | _, [], m => .ok m
  | i, d :: ds, m =>
    match m.openPath o i d with
    | .error e => .error e
    | .ok m' => openPaths o (i + 1) ds m'

/-- No socket is left: `detachSocketGenerationsLocked`. -/
def detach (m : Multipath Addr) : Multipath Addr :=
  { m with
    shared := []
    deferred := []
    peers := m.peers.map fun p => { p with paths := [] } }

/-- The next id is raised beyond every id that is in use. -/
def raiseNextPathID (m : Multipath Addr) : Multipath Addr :=
  { m with
    nextPathID :=
      (m.paths.map View.id ++ m.deferred.map (·.prober.pathID)).foldl
        (fun next id => if next < id + 1 then id + 1 else next) m.nextPathID }

/-- `adaptive k` tells whether the transport of the `k`-th peer can be opened.
A failed attempt detaches what it attached, so no partial state is left. -/
def openBind (m : Multipath Addr) (o : Outcomes) (adaptive : ℕ → Bool) :
    Multipath Addr × Option BindError :=
  if m.paths ≠ [] then (m, some .alreadyOpen)
  else
    match openPaths o 0 m.defs { m with deferred := [] } with
    | .error e => (m.detach, some e)
    | .ok m' =>
      if m'.paths = [] then
        (m'.detach, some (.noPathBound m'.deferred.length))
      else if (List.range m'.peers.length).all adaptive then
        (m'.raiseNextPathID, none)
      else (m'.raiseNextPathID.detach, some .codec)

def close (m : Multipath Addr) : Multipath Addr := m.detach

/-! ## Adding a path -/

/-- Drop the first view of the name. -/
def detachPeerPathBound (p : Peer Addr) (name : String) : Peer Addr :=
  { p with paths := Keyed.remove View.name name p.paths }

/-- The view of one peer, with the prober it uses: an existing one, or a fresh
one. -/
def attachPeerPath (m : Multipath Addr) (o : Outcomes) (k : ℕ) (p : Peer Addr)
    (d : PathDef Addr) (id : ℕ) (prober : Option Prober) :
    Except BindError (Peer Addr × Prober) :=
  if prober = none ∧ p.newProber = false then .error .noProbeTransport
  else if o.codec k d.name = false then .error .codec
  else .ok (m.addView p d id o.now, prober.getD ⟨d.name, id⟩)

/-- The fan-out over the peers from the `k`-th on.  If a peer fails, those
already attached are rolled back. -/
def attachSharedPath (m : Multipath Addr) (o : Outcomes) (d : PathDef Addr)
    (id : ℕ) (prober : ℕ → Option Prober) :
    ℕ → List (Peer Addr) →
      Except (BindError × List (Peer Addr)) (List (Peer Addr × Prober))
  | _, [] => .ok []
  | k, p :: ps =>
    match m.attachPeerPath o k p d id (prober k) with
    | .error e => .error (e, p :: ps)
    | .ok attached =>
      match attachSharedPath m o d id prober (k + 1) ps with
      | .error (e, ps') =>
        .error (e, detachPeerPathBound attached.1 d.name :: ps')
      | .ok rest => .ok (attached :: rest)

/-- The peer records its prober for a path that was added. -/
def record (p : Peer Addr) (prober : Prober) : Peer Addr :=
  { p with probers := p.probers ++ [prober] }

def addPath (m : Multipath Addr) (o : Outcomes) (d : PathDef Addr) :
    Multipath Addr × Option BindError :=
  if m.paths = [] then (m, some .closed)
  else if (m.peers.map Peer.newProber).head? = some false then
    (m, some .noProbeTransport)
  else if d.sourceValid = false then (m, some (.sourceRequired d.name))
  else if d.name ∈ m.defs.map PathDef.name then
    (m, some (.alreadyConfigured d.name))
  else if 255 < m.nextPathID then (m, some (.idsExhausted d.name))
  else
    match o.listen d.name with
    | .failed => (m, some (.listen d.name))
    | .notAvailable =>
      if false ∈ m.peers.map Peer.newProber then
        (m, some .noProbeTransport)
      else
        ({ m with
          defs := m.defs ++ [d]
          peers := m.peers.map fun p => record p ⟨d.name, m.nextPathID⟩
          deferred := m.deferred ++ [⟨d, ⟨d.name, m.nextPathID⟩⟩]
          nextPathID := m.nextPathID + 1 }, none)
    | .bound =>
      match m.attachSharedPath o d m.nextPathID (fun _ => none) 0 m.peers with
      | .error (e, peers) => ({ m with peers }, some e)
      | .ok attached =>
        ({ m with
          defs := m.defs ++ [d]
          peers := attached.map fun a => record a.1 a.2
          shared := m.shared ++ [⟨d.name, m.nextPathID⟩]
          nextPathID := m.nextPathID + 1 }, none)

/-! ## Removing a path -/

/-- Drop the `i`-th definition and its probers, unless some peer's probers are
not aligned with the definitions. -/
def removeDurable (m : Multipath Addr) (i : ℕ) (name : String) :
    Multipath Addr × Option BindError :=
  if ∃ p ∈ m.peers, p.probers.length ≠ m.defs.length then
    (m, some (.proberDesync name))
  else
    ({ m with
      defs := m.defs.eraseIdx i
      peers := m.peers.map fun p => { p with probers := p.probers.eraseIdx i }
      deferred := Keyed.remove (·.path.name) name m.deferred }, none)

def removePath (m : Multipath Addr) (name : String) :
    Multipath Addr × Option BindError :=
  if m.paths = [] then (m, some .closed)
  else
    match m.defs.findIdx? fun d => d.name = name with
    | none => (m, some (.noSuchPath name))
    | some i =>
      if name ∉ m.shared.map SharedPath.name then m.removeDurable i name
      else if m.shared.length = 1 then (m, some (.lastLivePath name))
      else
        removeDurable { m with
          peers := m.peers.map fun p => detachPeerPathBound p name
          shared := Keyed.remove SharedPath.name name m.shared } i name

/-! ## Promoting deferred paths -/

/-- A deferred path whose socket is bound becomes live with the probers it
already has. -/
def promoteDeferred (m : Multipath Addr) (o : Outcomes)
    (dp : DeferredPath Addr) : Multipath Addr × Option BindError :=
  match m.defs.findIdx? fun d => d.name = dp.path.name with
  | none => (m, some (.noSuchPath dp.path.name))
  | some i =>
    if ∃ p ∈ m.peers, p.probers.length ≤ i then
      (m, some (.proberDesync dp.path.name))
    else
      match m.probers[i]? with
      | none => (m, some (.proberDesync dp.path.name))
      | some prober =>
        match m.attachSharedPath o dp.path prober.pathID
            (fun k => (m.peers[k]?).bind fun p => p.probers[i]?) 0
            m.peers with
        | .error (e, peers) => ({ m with peers }, some e)
        | .ok attached =>
          ({ m with
            peers := attached.map Prod.fst
            shared := m.shared ++ [⟨dp.path.name, prober.pathID⟩] }, none)

/-- The loop over the deferred paths, with those it keeps. -/
def reconcileLoop (o : Outcomes) :
    List (DeferredPath Addr) → Multipath Addr →
      Multipath Addr × List (DeferredPath Addr)
  | [], m => (m, [])
  | dp :: todo, m =>
    match o.listen dp.path.name with
    | .bound =>
      match m.promoteDeferred o dp with
      | (m', some _) =>
        let r := reconcileLoop o todo m'
        (r.1, dp :: r.2)
      | (m', none) => reconcileLoop o todo m'
    | _ =>
      let r := reconcileLoop o todo m
      (r.1, dp :: r.2)

def reconcileDeferred (m : Multipath Addr) (o : Outcomes) : Multipath Addr :=
  if m.paths = [] ∨ m.deferred = [] then m
  else
    let r := reconcileLoop o m.deferred m
    { r.1 with deferred := r.2 }

/-! ## Remotes -/

/-- Repoint every view of a peer. -/
def repoint (p : Peer Addr) (ap : Addr) (now : Time) : Peer Addr :=
  { p with
    paths := p.paths.map fun v => { v with remotes := .setRemote v.id ap now } }

/-- One entry of the map from remotes to peers, for the remote of one peer. -/
def recordRemote (edge : Finmap fun _ : Addr => ℕ) (r : Option Addr × ℕ) :
    Finmap fun _ : Addr => ℕ :=
  match r.1 with
  | some ap => edge.insert ap r.2
  | none => edge

/-- The configured remote of each peer; an invalid address is skipped. -/
def seedEdgePeerRemotes (m : Multipath Addr) (remotes : List (Option Addr)) :
    Multipath Addr × Option BindError :=
  if remotes.length ≠ m.peers.length then
    (m, some (.remotesMismatch remotes.length m.peers.length))
  else
    ({ m with
      peers := List.zipWith (fun p r =>
        { p with configuredRemote := r.or p.configuredRemote }) m.peers remotes
      edgePeerByRemote :=
        remotes.zipIdx.foldl recordRemote m.edgePeerByRemote }, none)

/-- The single-controller switch of the primary peer. -/
def setPeerRemote (m : Multipath Addr) (ap : Addr) (now : Time) :
    Multipath Addr :=
  { m with
    defaultRemote := some ap
    peers := m.peers.modify 0 fun p => repoint p ap now }

/-- The map without the remote that the peer had. -/
def releaseRemote (m : Multipath Addr) (p : Peer Addr) (ap : Addr) :
    Finmap fun _ : Addr => ℕ :=
  match p.configuredRemote with
  | some old => if old ≠ ap then m.edgePeerByRemote.erase old
      else m.edgePeerByRemote
  | none => m.edgePeerByRemote

/-- The switch of the `i`-th peer, once no other peer owns the remote. -/
def switchTo (m : Multipath Addr) (i : ℕ) (p : Peer Addr) (ap : Addr)
    (now : Time) : Multipath Addr :=
  { m with
    edgePeerByRemote := (m.releaseRemote p ap).insert ap i
    peers := m.peers.set i
      { repoint p ap now with configuredRemote := some ap } }

/-- Some other peer than the `i`-th owns the remote. -/
def ownedByOther (m : Multipath Addr) (i : ℕ) (ap : Addr) : Option ℕ :=
  (m.edgePeerByRemote.lookup ap).filter (· ≠ i)

/-- The switch of one peer of several. -/
def setPeerRemoteFor (m : Multipath Addr) (name : String) (ap : Addr)
    (now : Time) : Multipath Addr × Option BindError :=
  match m.peers.findIdx? fun p => p.name = name with
  | none => (m, some (.unknownPeer name))
  | some i =>
    match m.peers[i]?, m.ownedByOther i ap with
    | none, _ => (m, some (.unknownPeer name))
    | some _, some owner => (m, some (.remoteOwned owner name))
    | some p, none => (m.switchTo i p ap now, none)

theorem setPeerRemoteFor_cases (m : Multipath Addr) (name : String) (ap : Addr)
    (now : Time) :
    (∃ e, m.setPeerRemoteFor name ap now = (m, some e)) ∨
      ∃ i p, m.setPeerRemoteFor name ap now = (m.switchTo i p ap now, none) ∧
        m.peers.findIdx? (fun p => p.name = name) = some i ∧
        m.peers[i]? = some p ∧ m.ownedByOther i ap = none := by
  unfold setPeerRemoteFor
  split
  · exact .inl ⟨_, rfl⟩
  next i hi =>
    split
    · exact .inl ⟨_, rfl⟩
    · exact .inl ⟨_, rfl⟩
    next p hp hfree => exact .inr ⟨i, p, rfl, hi, hp, hfree⟩

/-- The virtual endpoint for a configured endpoint, as the index of its peer.
Views of that peer without a remote start sending there. -/
def parseEndpoint (m : Multipath Addr) (ap : Addr) (now : Time) :
    Multipath Addr × ℕ :=
  let i := (m.edgePeerByRemote.lookup ap).getD 0
  ({ m with
    defaultRemote := some ap
    peers := m.peers.modify i fun p =>
      { p with
        paths := p.paths.map fun v =>
          if v.remotes.getRemote = none then
            { v with remotes := .setRemote v.id ap now }
          else v } }, i)

/-- An authenticated probe reaches one view. -/
def learn (m : Multipath Addr) (i : ℕ) (name : String) (key : ℕ) (ap : Addr)
    (now : Time) : Multipath Addr :=
  { m with
    peers := m.peers.modify i fun p =>
      { p with
        paths := p.paths.map fun v =>
          if v.name = name then
            { v with remotes := v.remotes.learnRemoteFromProbe key ap now }
          else v } }

/-! ## Runs -/

inductive Event (Addr : Type)
  | openBind (o : Outcomes) (adaptive : ℕ → Bool)
  | close
  | addPath (o : Outcomes) (d : PathDef Addr)
  | removePath (name : String)
  | reconcileDeferred (o : Outcomes)
  | seedEdgePeerRemotes (remotes : List (Option Addr))
  | setPeerRemote (ap : Addr) (now : Time)
  | setPeerRemoteFor (name : String) (ap : Addr) (now : Time)
  | parseEndpoint (ap : Addr) (now : Time)
  | learn (i : ℕ) (name : String) (key : ℕ) (ap : Addr) (now : Time)

def step (m : Multipath Addr) : Event Addr → Multipath Addr
  | .openBind o adaptive => (m.openBind o adaptive).1
  | .close => m.close
  | .addPath o d => (m.addPath o d).1
  | .removePath name => (m.removePath name).1
  | .reconcileDeferred o => m.reconcileDeferred o
  | .seedEdgePeerRemotes remotes => (m.seedEdgePeerRemotes remotes).1
  | .setPeerRemote ap now => m.setPeerRemote ap now
  | .setPeerRemoteFor name ap now => (m.setPeerRemoteFor name ap now).1
  | .parseEndpoint ap now => (m.parseEndpoint ap now).1
  | .learn i name key ap now => m.learn i name key ap now

def run (m : Multipath Addr) (events : List (Event Addr)) : Multipath Addr :=
  events.foldl step m

end Multipath

/-! ## Construction -/

/-- What a bind is built from: the configured paths, whose names the
configuration keeps distinct, and the bound peers under distinct names, the
primary one first, each with whether it can mint probers. -/
structure Setup (Addr : Type) where
  paths : List (PathDef Addr)
  peers : List (String × Bool)
  paths_ne : paths ≠ []
  paths_le : paths.length ≤ 256
  names_nodup : (paths.map PathDef.name).Nodup
  peers_ne : peers ≠ []
  peerNames_nodup : (peers.map Prod.fst).Nodup

/-- The boot-time probers of a peer: each path is stamped with its index. -/
def buildProbers {Addr : Type} (paths : List (PathDef Addr)) : List Prober :=
  paths.zipIdx.map fun p => ⟨p.1.name, p.2⟩

/-- `NewMultipath` for the primary peer, and `AddConcentratorPeer` for every
other one. -/
def Setup.boot {Addr : Type} (s : Setup Addr) : Multipath Addr :=
  { defs := s.paths
    peers := s.peers.map fun p => ⟨p.1, p.2, buildProbers s.paths, [], none⟩
    shared := []
    deferred := []
    nextPathID := 0
    edgePeerByRemote := ∅
    defaultRemote := none }

end Wanbond.Bind
