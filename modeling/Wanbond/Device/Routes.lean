import Wanbond.Config.Peers

/-!
# Cryptokey routes

The engine files every allowed range under its masked form, and the last peer
that was given a range owns it.  The boot configuration gives each peer its own
ranges, and the halves of the default route to one exit-capable peer only.
-/

namespace Wanbond.Device

open Wanbond.Config

/-- What a set command says of one peer: its key and the ranges to insert. -/
structure PeerSection where
  publicKey : String
  allowedIPs : List Cidr
  deriving DecidableEq

/-- The owner of each masked range. -/
abbrev Table := Cidr → Option String

namespace Table

def empty : Table := fun _ => none

/-- Insertion takes the range from its owner. -/
def insert (t : Table) (key : String) (p : Cidr) : Table :=
  Function.update t p.masked (some key)

def apply (t : Table) (s : PeerSection) : Table :=
  s.allowedIPs.foldl (fun t p => t.insert s.publicKey p) t

def applyAll (t : Table) (sections : List PeerSection) : Table :=
  sections.foldl apply t

theorem foldl_insert (key : String) (ranges : List Cidr) (t : Table)
    (q : Cidr) :
    ranges.foldl (fun t p => t.insert key p) t q =
      if q ∈ ranges.map Cidr.masked then some key else t q := by
  induction ranges generalizing t with
  | nil => simp
  | cons p ranges ih =>
    rw [List.foldl_cons, ih]
    by_cases hq : q ∈ ranges.map Cidr.masked
    · simp [hq]
    · by_cases hp : q = p.masked
      · simp [insert, hp]
      · simp [insert, hq, hp, Function.update_of_ne]

theorem apply_eq (t : Table) (s : PeerSection) (q : Cidr) :
    t.apply s q =
      if q ∈ s.allowedIPs.map Cidr.masked then some s.publicKey else t q :=
  foldl_insert ..

theorem applyAll_eq {t : Table} {before after : List PeerSection}
    {s : PeerSection} {q : Cidr} (hq : q ∈ s.allowedIPs.map Cidr.masked)
    (hafter : ∀ s' ∈ after, q ∉ s'.allowedIPs.map Cidr.masked) :
    t.applyAll (before ++ s :: after) q = some s.publicKey := by
  rw [applyAll, List.foldl_append, List.foldl_cons]
  have hmine : (before.foldl apply t).apply s q = some s.publicKey := by
    rw [apply_eq, if_pos hq]
  revert hmine
  generalize (before.foldl apply t).apply s = t'
  intro hmine
  induction after generalizing t' with
  | nil => exact hmine
  | cons s' _ ih =>
    apply ih (fun s'' hs'' => hafter s'' (List.mem_cons_of_mem _ hs''))
    rwa [apply_eq, if_neg (hafter s' List.mem_cons_self)]

end Table

/-! ## The boot configuration -/

/-- The places of the exit-capable peers; there are none off the edge. -/
def exitCapablePeerIndices (c : Config) : List ℕ :=
  if c.role = .edge then c.exitPeers.map (·.1) else []

/-- With several exit-capable peers all but the first one stand by. -/
def standbyExitPeers (c : Config) : List ℕ := (exitCapablePeerIndices c).tail

/-- The halves of the default routes among a peer's entries. -/
def defaultRouteSplits (entries : List Cidr) : List Cidr :=
  (entries.filter (·.isDefaultRoute)).flatMap (·.splitDefaultRoute)

/-- The ranges rendered for a peer. -/
def renderEntries (standby : Bool) (entries : List Cidr) : List Cidr :=
  entries.flatMap fun p =>
    if standby ∧ p.isDefaultRoute then [] else p.splitDefaultRoute

/-- A peer that would be rendered without a range. -/
structure RenderError where
  peer : ℕ
  publicKey : String
  deriving DecidableEq

def renderPeer (c : Config) (i : ℕ) (peer : Peer) : PeerSection :=
  ⟨peer.publicKey, renderEntries (i ∈ standbyExitPeers c) peer.allowedIPs⟩

def renderPeers (c : Config) : List (ℕ × Peer) →
    Except RenderError (List PeerSection)
  | [] => .ok []
  | (i, peer) :: rest =>
    if (renderPeer c i peer).allowedIPs = [] then
      .error ⟨i, peer.publicKey⟩
    else (renderPeers c rest).map (renderPeer c i peer :: ·)

def uapiConfig (c : Config) : Except RenderError (List PeerSection) :=
  renderPeers c c.indexed

theorem renderPeers_ok {c : Config} {peers : List (ℕ × Peer)}
    {sections : List PeerSection} (h : renderPeers c peers = .ok sections) :
    sections = peers.map fun (i, peer) => renderPeer c i peer := by
  induction peers generalizing sections with
  | nil =>
    cases h
    rfl
  | cons x peers ih =>
    obtain ⟨i, peer⟩ := x
    rw [renderPeers] at h
    split at h
    · cases h
    cases hrest : renderPeers c peers with
    | error e => simp [hrest, Except.map] at h
    | ok =>
      rw [hrest] at h
      cases h
      rw [List.map_cons, ← ih hrest]

theorem uapiConfig_ok {c : Config} {sections : List PeerSection}
    (h : uapiConfig c = .ok sections) :
    sections = c.indexed.map fun (i, peer) => renderPeer c i peer :=
  renderPeers_ok h

end Wanbond.Device
