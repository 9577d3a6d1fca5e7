import Mathlib.Logic.Function.Basic
import Wanbond.Config.Address
import Wanbond.Support.Checks

/-!
# The peers of a configuration

What `validate` demands of the configured peers, check by check and with the
error of each, and what a configuration that passes can be relied on for.
-/

namespace Wanbond.Config

open Wanbond.Support

inductive Role
  | edge
  | concentrator
  deriving DecidableEq, Repr

/-- A peer's full-tunnel intent. -/
inductive PeerMode
  | unset
  | defaultRoute
  deriving DecidableEq, Repr

/-- A parsed endpoint entry: a literal, or a host name resolved at run time. -/
inductive EndpointSpec
  | literal (addr : AddrPort)
  | host (name : String) (port : BitVec 16)
  deriving DecidableEq, Repr

/-- Keys are given as their lower-case hexadecimal text, empty when unset. -/
structure Peer where
  publicKey : String
  name : String
  psk : String
  dns : Bool
  mode : PeerMode
  endpointSpecs : List EndpointSpec
  /-- The entries of `allowed_ips`, as `ParsePrefix` reads them. -/
  allowedIPs : List Cidr

inductive ConfigError
  | peerRequired
  | publicKeyRequired (peer : ℕ)
  | endpointRequired (peer : ℕ)
  | endpointNotMeaningful (peer : ℕ)
  | dnsNotMeaningful (peer : ℕ)
  | modeNotMeaningful (peer : ℕ)
  | duplicateDefaultRoute (peer : ℕ) (family : Family)
  | bothDefaultRoute (prev peer : ℕ) (family : Family)
  | probeFanout (fanout peers paths : ℕ)
  | defaultRouteNotPermitted (peer : ℕ) (entry : Cidr)
  | differentDefaultRoutes (first peer : ℕ)
  | onlyDefaultRoute (peer : ℕ)
  | overlapping (a b : ℕ) (pa pb : Cidr)
  | sharedEndpoint (prev peer : ℕ) (addr : AddrPort)
  | exitRequiresEdge (exit : String)
  | reservedName (peer : ℕ)
  | unknownExit (exit : String)
  | pskNotMeaningful
  | nameRequired (peer : ℕ)
  | sharedName (prev peer : ℕ) (name : String)
  | pskRequired (peer : ℕ)
  | sharedPSK (prev peer : ℕ)
  deriving DecidableEq

/-- The name a peer goes by: the configured one, or the head of its key. -/
def Peer.identity (p : Peer) : String :=
  if p.name = "" then String.ofList (p.publicKey.toList.take 16) else p.name

end Wanbond.Config

/-- The parts of a configuration that its peers are checked against. -/
structure Wanbond.Config where
  role : Wanbond.Config.Role
  exit : String
  paths : List String
  peers : List Wanbond.Config.Peer

namespace Wanbond.Config

open Wanbond.Support

def maxProbeFanout : ℕ := 32

/-- The peers with their places. -/
def indexed (c : Config) : List (ℕ × Peer) :=
  c.peers.zipIdx.map fun (peer, i) => (i, peer)

/-! ## One peer -/

/-- No family's default route comes twice: `seen` says which peer listed it
before. -/
def checkDefaultRoutes (err : ℕ → ℕ → Family → ConfigError) :
    (Family → Option ℕ) → List (ℕ × Cidr) → Except ConfigError Unit
  | _, [] => .ok ()
  | seen, (i, p) :: rest =>
    if p.isDefaultRoute then
      match seen p.family with
      | some prev => .error (err prev i p.family)
      | none =>
        checkDefaultRoutes err (Function.update seen p.family (some i)) rest
    else checkDefaultRoutes err seen rest

/-- The field invariants of one peer. -/
def checkPeer (role : Role) (i : ℕ) (peer : Peer) : Except ConfigError Unit := do
  refuse (peer.publicKey = "") (.publicKeyRequired i)
  refuse (role = .edge ∧ peer.endpointSpecs = []) (.endpointRequired i)
  refuse (role = .concentrator ∧ peer.endpointSpecs ≠ [])
    (.endpointNotMeaningful i)
  refuse (role = .concentrator ∧ peer.dns) (.dnsNotMeaningful i)
  refuse (role = .concentrator ∧ peer.mode = .defaultRoute)
    (.modeNotMeaningful i)
  checkDefaultRoutes (fun _ i family => .duplicateDefaultRoute i family)
    (fun _ => none) (peer.allowedIPs.map (i, ·))

/-! ## The peers of a concentrator -/

/-- At most one peer lists a family's default route. -/
def validateConcentratorDefaultRoutes (c : Config) : Except ConfigError Unit :=
  checkDefaultRoutes .bothDefaultRoute (fun _ => none)
    (c.indexed.flatMap fun (i, peer) => peer.allowedIPs.map (i, ·))

/-! ## The peers of an edge -/

/-- Which families' default route a list of entries carries. -/
def defaultRouteMaskOf (entries : List Cidr) : Bool × Bool :=
  (entries.any fun p => p.isDefaultRoute && p.family = .v4,
    entries.any fun p => p.isDefaultRoute && p.family = .v6)

def hasNonDefaultAllowedIP (entries : List Cidr) : Bool :=
  entries.any fun p => !p.isDefaultRoute

def exitCapable (peer : Peer) : Bool := peer.mode = .defaultRoute

/-- The default route is for exit-capable peers only. -/
def checkDefaultPermitted (i : ℕ) (peer : Peer) : Except ConfigError Unit :=
  peer.allowedIPs.forM fun p =>
    refuse (p.isDefaultRoute ∧ exitCapable peer = false)
      (.defaultRouteNotPermitted i p)

/-- Exit-capable peers are alternates: their default routes agree, and each has
an address of its own besides. -/
def checkExit (first : ℕ × Peer) (i : ℕ) (peer : Peer) :
    Except ConfigError Unit := do
  refuse (defaultRouteMaskOf peer.allowedIPs ≠
    defaultRouteMaskOf first.2.allowedIPs) (.differentDefaultRoutes first.1 i)
  refuse (hasNonDefaultAllowedIP peer.allowedIPs = false) (.onlyDefaultRoute i)

/-- The exit-capable peers with their places, in order. -/
def exitPeers (c : Config) : List (ℕ × Peer) :=
  c.indexed.filter (exitCapable ·.2)

def checkExits : List (ℕ × Peer) → Except ConfigError Unit
  | first :: second :: rest =>
    (first :: second :: rest).forM fun (i, peer) => checkExit first i peer
  | _ => .ok ()

/-- The entries besides the default routes do not overlap across peers. -/
def checkOverlaps (peers : List (ℕ × Peer)) : Except ConfigError Unit :=
  peers.forM fun (a, peerA) =>
    peerA.allowedIPs.forM fun pa =>
      peers.forM fun (b, peerB) =>
        peerB.allowedIPs.forM fun pb =>
          refuse (a < b ∧ pa.isDefaultRoute = false ∧
            pb.isDefaultRoute = false ∧ pa.overlaps pb) (.overlapping a b pa pb)

/-- No literal endpoint is shared by two entries: `seen` are those before. -/
def checkEndpoints : List (AddrPort × ℕ) → List (AddrPort × ℕ) →
    Except ConfigError Unit
  | _, [] => .ok ()
  | seen, (addr, i) :: rest =>
    match seen.lookup addr with
    | some prev => .error (.sharedEndpoint prev i addr)
    | none => checkEndpoints ((addr, i) :: seen) rest

def literals (c : Config) : List (AddrPort × ℕ) :=
  c.indexed.flatMap fun (i, peer) => peer.endpointSpecs.filterMap fun
    | .literal addr => some (addr, i)
    | .host _ _ => none

def validateEdgePeerSet (c : Config) : Except ConfigError Unit := do
  refuse (maxProbeFanout < c.peers.length * c.paths.length)
    (.probeFanout (c.peers.length * c.paths.length) c.peers.length
      c.paths.length)
  if c.peers.length = 1 then .ok ()
  else do
    c.indexed.forM fun (i, peer) => checkDefaultPermitted i peer
    checkExits c.exitPeers
    checkOverlaps c.indexed
    checkEndpoints [] c.literals

/-! ## The whole peer section -/

/-- A key that an earlier peer has is refused. -/
def refuseSeen (seen : List (String × ℕ)) (key : String)
    (err : ℕ → ConfigError) : Except ConfigError Unit :=
  match seen.lookup key with
  | some prev => .error (err prev)
  | none => .ok ()

/-- Names and keys of several peers: both required and distinct. -/
def checkNames : List (String × ℕ) → List (String × ℕ) → List (ℕ × Peer) →
    Except ConfigError Unit
  | _, _, [] => .ok ()
  | names, psks, (i, peer) :: rest => do
      refuse (peer.name = "") (.nameRequired i)
      refuseSeen names peer.name (.sharedName · i peer.name)
      refuse (peer.psk = "") (.pskRequired i)
      refuseSeen psks peer.psk (.sharedPSK · i)
      checkNames ((peer.name, i) :: names) ((peer.psk, i) :: psks) rest

/-- The cross-peer rules of the role. -/
def validatePeerSet (c : Config) : Except ConfigError Unit :=
  match c.role with
  | .edge => c.validateEdgePeerSet
  | .concentrator => c.validateConcentratorDefaultRoutes

/-- One peer relies on the top-level key, several have names and keys. -/
def validateNames (c : Config) : Except ConfigError Unit :=
  match c.peers with
  | [peer] => refuse (peer.psk ≠ "") .pskNotMeaningful
  | _ => checkNames [] [] c.indexed

/-- The checks of `validate` that concern the peers, in its order. -/
def validatePeers (c : Config) : Except ConfigError Unit := do
  refuse (c.peers = []) .peerRequired
  c.indexed.forM fun (i, peer) => checkPeer c.role i peer
  c.validatePeerSet
  refuse (c.role ≠ .edge ∧ c.exit ≠ "") (.exitRequiresEdge c.exit)
  c.indexed.forM fun (i, peer) =>
    refuse (exitCapable peer ∧ peer.name = "auto") (.reservedName i)
  refuse (c.exit ≠ "" ∧ c.exit ≠ "auto" ∧
    (c.peers.any fun peer => peer.name = c.exit && exitCapable peer) = false)
    (.unknownExit c.exit)
  c.validateNames

/-! ## What a configuration that passes can be relied on for -/

variable {c : Config}

theorem mem_indexed {i : ℕ} {peer : Peer} :
    (i, peer) ∈ c.indexed ↔ c.peers[i]? = some peer := by
  simp [indexed, List.mem_zipIdx_iff_getElem?]

theorem edge_rules (h : c.validatePeers = .ok ()) (hedge : c.role = .edge) :
    c.validateEdgePeerSet = .ok () := by
  simp only [validatePeers, validatePeerSet, hedge, bind_eq_ok] at h
  exact h.2.2.1

theorem multi_rules (h : c.validateEdgePeerSet = .ok ())
    (hlen : c.peers.length ≠ 1) :
    (c.indexed.forM fun (i, peer) => checkDefaultPermitted i peer) = .ok () ∧
      checkExits c.exitPeers = .ok () ∧ checkOverlaps c.indexed = .ok () ∧
      checkEndpoints [] c.literals = .ok () := by
  simp only [validateEdgePeerSet, hlen, if_false, bind_eq_ok] at h
  exact h.2

theorem exitCapable_of_default (h : c.validateEdgePeerSet = .ok ())
    (hlen : c.peers.length ≠ 1) {i : ℕ} {peer : Peer}
    (hpeer : c.peers[i]? = some peer) {p : Cidr} (hp : p ∈ peer.allowedIPs)
    (hdefault : p.isDefaultRoute = true) : exitCapable peer = true := by
  have hrule := (multi_rules h hlen).1
  rw [forM_eq_ok] at hrule
  have hone := hrule (i, peer) (mem_indexed.mpr hpeer)
  simp only [checkDefaultPermitted, forM_eq_ok, refuse_eq_ok] at hone
  simpa [hdefault] using hone p hp

theorem same_defaults (h : c.validateEdgePeerSet = .ok ())
    (hlen : c.peers.length ≠ 1) {a b : ℕ × Peer} (ha : a ∈ c.exitPeers)
    (hb : b ∈ c.exitPeers) :
    defaultRouteMaskOf a.2.allowedIPs = defaultRouteMaskOf b.2.allowedIPs := by
  have hrule := (multi_rules h hlen).2.1
  match hexits : c.exitPeers with
  | [] => simp [hexits] at ha
  | [x] =>
    rw [hexits] at ha hb
    rw [List.mem_singleton.mp ha, List.mem_singleton.mp hb]
  | first :: second :: rest =>
    rw [hexits] at hrule ha hb
    simp only [checkExits, forM_eq_ok, checkExit, bind_eq_ok, refuse_eq_ok,
      not_not] at hrule
    exact (hrule a ha).1.trans (hrule b hb).1.symm

/-- Two peers list no range in common, default routes apart. -/
theorem disjoint_entries (h : c.validateEdgePeerSet = .ok ())
    (hlen : c.peers.length ≠ 1) {i j : ℕ} {a b : Peer} (hij : i ≠ j)
    (ha : c.peers[i]? = some a) (hb : c.peers[j]? = some b) {p q : Cidr}
    (hp : p ∈ a.allowedIPs) (hq : q ∈ b.allowedIPs)
    (hp' : p.isDefaultRoute = false) (hq' : q.isDefaultRoute = false) :
    p.masked ≠ q.masked := by
  have hrule := (multi_rules h hlen).2.2.1
  simp only [checkOverlaps, forM_eq_ok, refuse_eq_ok] at hrule
  intro heq
  rcases Nat.lt_or_gt_of_ne hij with hlt | hlt
  · exact hrule (i, a) (mem_indexed.mpr ha) p hp (j, b) (mem_indexed.mpr hb) q
      hq ⟨hlt, hp', hq', Cidr.overlaps_of_masked_eq heq⟩
  · exact hrule (j, b) (mem_indexed.mpr hb) q hq (i, a) (mem_indexed.mpr ha) p
      hp ⟨hlt, hq', hp', Cidr.overlaps_of_masked_eq heq.symm⟩

end Wanbond.Config
