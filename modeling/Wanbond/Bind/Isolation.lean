import Wanbond.Bind.Demux

/-!
# What a datagram can change

A datagram changes the state of one peer only, one under whose key it verifies,
and binds its source to that peer only if the source is not bound to a peer with
a view of the socket.  So traffic that does not verify under a peer's key leaves
that peer alone.

A probe that is refused as stale reaches neither the transport nor a session.
But its source has been learned by then, as an address of the view and as a
source of the peer.
-/

namespace Wanbond.Bind

open Wanbond.Bond (Time Bytes)
open Wanbond.Frame (Probe)
open Wanbond.Telemetry (Reflector)

/-! ## One peer -/

namespace PeerState

variable {Addr : Type} {p : PeerState Addr} {k : ℕ} {v v' : PeerView Addr}
  {src : Addr} {rd : Readings Addr} {socket : ℕ} {raw : Bytes}

/-- The paths of the peer's views. -/
def paths (p : PeerState Addr) : List PeerPath := p.views.map PeerView.path

theorem paths_setView (hk : p.views[k]? = some v) (hv : v'.path = v.path) :
    (p.setView k v').paths = p.paths := by
  have hpath : (p.views.map PeerView.path)[k]? = some v'.path := by
    rw [List.getElem?_map, hk, hv]
    rfl
  rw [paths, setView, List.map_set, paths]
  obtain ⟨hlt, hget⟩ := List.getElem?_eq_some_iff.mp hpath
  rw [← hget, List.set_getElem_self]

theorem viewOf_congr {p' : PeerState Addr} (h : p'.paths = p.paths)
    (socket : ℕ) : p'.viewOf socket = p.viewOf socket := by
  have hfind : ∀ views : List (PeerView Addr),
      views.findIdx? (fun v => decide (v.path.socket = socket)) =
        (views.map PeerView.path).findIdx? fun path =>
          decide (path.socket = socket) :=
    fun views => by rw [List.findIdx?_map]; rfl
  rw [viewOf, viewOf, hfind, hfind]
  exact congrArg _ h

theorem views_learn (p : PeerState Addr) (v : PeerView Addr) (src : Addr)
    (payload : Bytes) (adopted : Bool) (rd : Readings Addr) :
    (p.learn v src payload adopted rd).views = p.views := by
  unfold learn
  split <;> rfl

theorem ensureReceive_eq (p : PeerState Addr) :
    ∃ rq, p.ensureReceive = { p with resequencer := rq } := by
  unfold ensureReceive
  split
  · exact ⟨p.resequencer, rfl⟩
  · exact ⟨_, rfl⟩

theorem paths_handleEcho (hk : p.views[k]? = some v) (hv : v'.path = v.path)
    (f : Probe) (src : Addr) (rd : Readings Addr) :
    (p.handleEcho k v' f src rd).paths = p.paths := by
  unfold handleEcho
  split
  · exact paths_setView hk hv
  split
  · exact paths_setView hk hv
  · rw [paths, views_learn]
    exact paths_setView hk hv

theorem paths_handleProbe (hk : p.views[k]? = some v) (hv : v'.path = v.path)
    (f : Probe) (src : Addr) (rd : Readings Addr) :
    (p.handleProbe k v' f src rd).1.paths = p.paths := by
  unfold handleProbe
  split
  · exact paths_setView hk hv
  split
  · exact paths_setView hk hv
  · rw [paths, views_learn]
    exact paths_setView hk hv

variable [DecidableEq Addr]

theorem paths_handleInbound (p : PeerState Addr) (socket : ℕ) (raw : Bytes)
    (src : Addr) (rd : Readings Addr) :
    (p.handleInbound socket raw src rd).1.paths = p.paths := by
  unfold handleInbound
  split
  · split
    next k _ v hk =>
      unfold dispatchInbound
      split
      · split
        · exact paths_setView hk rfl
        · exact paths_setView hk rfl
      · split
        · exact paths_handleEcho hk (by rfl) _ _ _
        · exact paths_handleProbe hk (by rfl) _ _ _
    · rfl
  · rfl

theorem handleInbound_of_decode_none (h : p.decode raw = none) (socket : ℕ)
    (src : Addr) (rd : Readings Addr) :
    p.handleInbound socket raw src rd = (p, none) := by
  unfold handleInbound
  rw [h]

end PeerState

/-! ## The map from sources to peers -/

namespace Demux

variable {Addr : Type} {m : Demux Addr} {i j : ℕ}

theorem peerBySource_onPeer (m : Demux Addr) (i : ℕ)
    (act : PeerState Addr → PeerState Addr × Option Probe) :
    (m.onPeer i act).1.peerBySource = m.peerBySource := by
  unfold onPeer
  split <;> rfl

theorem peers_onPeer_ne (m : Demux Addr) (hne : j ≠ i)
    (act : PeerState Addr → PeerState Addr × Option Probe) :
    (m.onPeer i act).1.peers[j]? = m.peers[j]? := by
  unfold onPeer
  split
  · rfl
  · exact List.getElem?_set_ne (Ne.symm hne)

variable {p : PeerState Addr}

theorem peers_onPeer_self (h : m.peers[i]? = some p)
    (act : PeerState Addr → PeerState Addr × Option Probe) :
    (m.onPeer i act).1.peers[i]? = some (act p).1 := by
  unfold onPeer
  rw [h]
  exact List.getElem?_set_self (List.getElem?_eq_some_iff.mp h).1

/-- An act that leaves the paths of the views leaves the views of every
socket. -/
theorem views_congr {m' : Demux Addr}
    (h : m'.peers.map PeerState.paths = m.peers.map PeerState.paths)
    (socket : ℕ) : m'.views socket = m.views socket := by
  have hlength : m'.peers.length = m.peers.length := by
    simpa using congrArg List.length h
  have hpeer : ∀ i : ℕ, ((m'.peers[i]?).any fun p => (p.viewOf socket).isSome) =
      (m.peers[i]?).any fun p => (p.viewOf socket).isSome := by
    intro i
    have hi := congrArg (fun l => l[i]?) h
    simp only [List.getElem?_map] at hi
    cases hp' : m'.peers[i]? <;> cases hp : m.peers[i]? <;>
      simp only [hp, hp', Option.map_none, Option.map_some, Option.some.injEq,
        reduceCtorEq] at hi
    · rfl
    · simp only [Option.any_some, PeerState.viewOf_congr hi]
  rw [views, views, hlength]
  exact List.filter_congr fun i _ => hpeer i

theorem map_paths_onPeer (m : Demux Addr) (i : ℕ)
    {act : PeerState Addr → PeerState Addr × Option Probe}
    (hact : ∀ p, (act p).1.paths = p.paths) :
    (m.onPeer i act).1.peers.map PeerState.paths =
      m.peers.map PeerState.paths := by
  unfold onPeer
  split
  · rfl
  next p hp =>
    obtain ⟨hlt, hget⟩ := List.getElem?_eq_some_iff.mp hp
    rw [List.map_set, hact, ← hget, ← List.getElem_map PeerState.paths,
      List.set_getElem_self]
    simpa using hlt

variable [DecidableEq Addr]

/-- The source that the loop finds is bound to the peer. -/
theorem scan_found (sources : List Addr) {found : ℕ × Option (ℕ × Addr)}
    (hfound : ∀ seq key, found.2 = some (seq, key) →
      ∃ b, m.peerBySource.lookup key = some b ∧ b.peer = i ∧ b.seq = seq) :
    ∀ seq key, (sources.foldl (m.scan i) found).2 = some (seq, key) →
      ∃ b, m.peerBySource.lookup key = some b ∧ b.peer = i ∧ b.seq = seq := by
  induction sources generalizing found with
  | nil => exact hfound
  | cons _ _ ih =>
    refine ih fun seq key' hkey => ?_
    unfold scan at hkey
    split at hkey
    · exact hfound _ _ hkey
    next b hb =>
      split_ifs at hkey with hpeer
      · exact hfound _ _ hkey
      have hown : b.peer = i := not_not.mp hpeer
      split at hkey
      · cases hkey
        exact ⟨b, hb, hown, rfl⟩
      split_ifs at hkey
      · cases hkey
        exact ⟨b, hb, hown, rfl⟩
      · exact hfound _ _ hkey

/-- Everything that binding a source can do. -/
theorem bindSourceToPeer_cases (m : Demux Addr) (src : Addr) (i : ℕ)
    (sources : List Addr) :
    (∃ b, m.peerBySource.lookup src = some b ∧ b.peer = i ∧
        m.bindSourceToPeer src i sources = (m, true)) ∨
      (m.peerBySource.lookup src = none ∧
        m.bindSourceToPeer src i sources = (m, false)) ∨
      ∃ evict, m.bindSourceToPeer src i sources = (m.install src i evict, true) ∧
        (∀ b, m.peerBySource.lookup src = some b → b.peer ≠ i) ∧
        ∀ key, evict = some key →
          ∃ b, m.peerBySource.lookup key = some b ∧ b.peer = i := by
  unfold bindSourceToPeer bindAttempt
  cases hsrc : m.peerBySource.lookup src with
  | some b =>
    dsimp only
    split_ifs with hpeer
    · exact .inl ⟨b, rfl, hpeer, rfl⟩
    · refine .inr (.inr ⟨none, rfl, fun b' hb' => ?_, nofun⟩)
      cases hb'
      exact hpeer
  | none =>
    dsimp only
    split_ifs with hmax hquota hfull
    · exact .inr (.inr ⟨none, rfl, nofun, nofun⟩)
    · refine .inr (.inr ⟨_, rfl, nofun, fun key hkey => ?_⟩)
      obtain ⟨⟨seq, key'⟩, hfound, rfl⟩ := Option.map_eq_some_iff.mp hkey
      obtain ⟨b, hb, hown, -⟩ :=
        scan_found sources (by simp) seq key' hfound
      exact ⟨b, hb, hown⟩
    · exact .inr (.inl ⟨rfl, rfl⟩)
    · exact .inr (.inr ⟨none, rfl, nofun, nofun⟩)

theorem lookup_replaced_ne {t : SourceMap Addr} {src key : Addr}
    {evict : Option Addr} {seq : ℕ} (hne : key ≠ src) (hevict : evict ≠ some key) :
    (replaced t src i evict seq).lookup key = t.lookup key := by
  unfold replaced
  rw [Finmap.lookup_insert_of_ne _ hne]
  cases evict with
  | none => rfl
  | some =>
    exact Finmap.lookup_erase_ne fun heq => hevict (congrArg some heq.symm)

theorem lookup_install_self (m : Demux Addr) (src : Addr) (i : ℕ)
    (evict : Option Addr) :
    (m.install src i evict).peerBySource.lookup src =
      some ⟨i, m.bindSeq + 1⟩ :=
  Finmap.lookup_insert _

/-! ## A peer that nothing verifies for -/

/-- The peer `A` and its sources are the same. -/
structure Untouched (A : ℕ) (m m' : Demux Addr) : Prop where
  peer : m'.peers[A]? = m.peers[A]?
  sources : ∀ src b, b.peer = A →
    (m'.peerBySource.lookup src = some b ↔ m.peerBySource.lookup src = some b)
  paths : m'.peers.map PeerState.paths = m.peers.map PeerState.paths

variable {A : ℕ} {m' m'' : Demux Addr}

theorem Untouched.refl (A : ℕ) (m : Demux Addr) : Untouched A m m :=
  ⟨rfl, fun _ _ _ => Iff.rfl, rfl⟩

theorem Untouched.trans (h : Untouched A m m') (h' : Untouched A m' m'') :
    Untouched A m m'' :=
  ⟨h'.peer.trans h.peer,
    fun src b hb => (h'.sources src b hb).trans (h.sources src b hb),
    h'.paths.trans h.paths⟩

theorem untouched_onPeer (hne : i ≠ A)
    {act : PeerState Addr → PeerState Addr × Option Probe}
    (hact : ∀ p, (act p).1.paths = p.paths) :
    Untouched A m (m.onPeer i act).1 := by
  refine ⟨peers_onPeer_ne m (Ne.symm hne) act, fun src b _ => ?_,
    map_paths_onPeer m i hact⟩
  rw [peerBySource_onPeer]

/-- A source that is not bound to the peer is bound to another one. -/
theorem untouched_bind (hne : i ≠ A) {src : Addr} (sources : List Addr)
    (hsrc : ∀ b, m.peerBySource.lookup src = some b → b.peer ≠ A) :
    Untouched A m (m.bindSourceToPeer src i sources).1 := by
  rcases m.bindSourceToPeer_cases src i sources with
    ⟨b, -, -, heq⟩ | ⟨-, heq⟩ | ⟨evict, heq, -, hevict⟩
  · rw [heq]
    exact .refl A m
  · rw [heq]
    exact .refl A m
  rw [heq]
  refine ⟨rfl, fun key b hb => ?_, rfl⟩
  by_cases hkey : key = src
  · subst hkey
    rw [lookup_install_self]
    constructor
    · intro h
      cases h
      exact absurd hb hne
    · exact fun h => absurd hb (hsrc b h)
  by_cases hev : evict = some key
  · -- the evicted source belongs to the other peer
    obtain ⟨b', hb', hpeer⟩ := hevict key hev
    have hgone : (m.install src i evict).peerBySource.lookup key =
        none := by
      subst hev
      unfold install replaced
      rw [Finmap.lookup_insert_of_ne _ hkey, Finmap.lookup_erase]
    rw [hgone, hb']
    constructor
    · nofun
    · intro h
      cases h
      exact absurd (hpeer.symm.trans hb) hne
  · rw [install, lookup_replaced_ne hkey hev]

theorem untouched_trialDecode (hA : m.peers[A]? = some p) {socket : ℕ}
    {raw : Bytes} {src : Addr} {rd : Readings Addr}
    (hdecode : p.decode raw = none)
    (hsrc : ∀ b, m.peerBySource.lookup src = some b → b.peer ≠ A)
    (order : List ℕ) :
    Untouched A m (m.trialDecode socket raw src rd order).1 := by
  induction order with
  | nil => exact .refl A m
  | cons i _ ih =>
    unfold trialDecode
    split
    next f hf =>
      have hne : i ≠ A := by
        rintro rfl
        rw [hA, Option.bind_some, hdecode] at hf
        cases hf
      have hbind := untouched_bind hne rd.sources hsrc
      split
      next m' heq => rw [heq] at hbind; exact hbind
      next m' heq =>
        rw [heq] at hbind
        refine hbind.trans (untouched_onPeer hne fun p => ?_)
        obtain ⟨rq, hrq⟩ := p.ensureReceive_eq
        rw [PeerState.paths_handleInbound, hrq]
        rfl
    · exact ih

theorem onPeer_dropped {socket : ℕ} {raw : Bytes}
    (h : ∀ p, m.peers[i]? = some p → p.decode raw = none) (src : Addr)
    (rd : Readings Addr) :
    (m.onPeer i fun p => p.handleInbound socket raw src rd).1 = m := by
  unfold onPeer
  split
  · rfl
  next p hp =>
    dsimp only
    rw [PeerState.handleInbound_of_decode_none (h p hp)]
    obtain ⟨hlt, hget⟩ := List.getElem?_eq_some_iff.mp hp
    rw [← hget, List.set_getElem_self]

/-- One datagram that does not verify under the key of the peer. -/
theorem untouched_step (hA : m.peers[A]? = some p)
    (hviews : ∀ s, 1 < (m.views s).length → (p.viewOf s).isSome)
    {d : Datagram Addr} (hdecode : p.decode d.raw = none) :
    Untouched A m (m.step d) := by
  have hmem : ∀ s, 1 < (m.views s).length → A ∈ m.views s := by
    intro s hs
    refine List.mem_filter.mpr ⟨List.mem_range.mpr
      (List.getElem?_eq_some_iff.mp hA).1, ?_⟩
    rw [hA]
    exact hviews s hs
  -- what reaches the peer itself is dropped
  have hpeer : ∀ i, Untouched A m (m.onPeer i fun p =>
      p.handleInbound d.socket d.raw d.src d.rd).1 := by
    intro i
    by_cases hi : i = A
    · subst hi
      rw [onPeer_dropped]
      · exact .refl _ m
      intro p' hp'
      rw [hA] at hp'
      cases hp'
      exact hdecode
    · exact untouched_onPeer hi fun p => p.paths_handleInbound _ _ _ _
  unfold step demuxInbound
  split_ifs with hshared
  · exact hpeer 0
  have hA' := hmem d.socket (by omega)
  split
  next b hb =>
    split_ifs with hbound
    · exact hpeer b.peer
    refine untouched_trialDecode hA hdecode (fun b' hb' => ?_) _
    rw [hb] at hb'
    cases hb'
    rintro rfl
    exact hbound hA'
  next hb =>
    refine untouched_trialDecode hA hdecode (fun b' hb' => ?_) _
    rw [hb] at hb'
    cases hb'

theorem untouched_run (hA : m.peers[A]? = some p)
    (hviews : ∀ s, 1 < (m.views s).length → (p.viewOf s).isSome)
    {datagrams : List (Datagram Addr)}
    (hdecode : ∀ d ∈ datagrams, p.decode d.raw = none) :
    Untouched A m (m.run datagrams) := by
  induction datagrams generalizing m with
  | nil => exact .refl A m
  | cons d _ ih =>
    have hstep := untouched_step hA hviews (hdecode d List.mem_cons_self)
    refine hstep.trans (ih (hstep.peer.trans hA) (fun s hs => ?_)
      fun d' hd' => hdecode d' (List.mem_cons_of_mem _ hd'))
    rw [views_congr hstep.paths] at hs
    exact hviews s hs

/-- If none of a sequence of datagrams verifies under the key of a peer, and the
peer has a view of every shared socket, then its whole state and the sources that
are bound to it are the same afterwards. -/
theorem cross_peer_isolation (m : Demux Addr) (A : ℕ) (p : PeerState Addr)
    (hA : m.peers[A]? = some p)
    (hviews : ∀ s, 1 < (m.views s).length → (p.viewOf s).isSome)
    (datagrams : List (Datagram Addr))
    (hforeign : ∀ d ∈ datagrams, p.decode d.raw = none) :
    (m.run datagrams).peers[A]? = some p ∧
      ∀ src b, b.peer = A →
        ((m.run datagrams).peerBySource.lookup src = some b ↔
          m.peerBySource.lookup src = some b) := by
  have h := untouched_run hA hviews hforeign
  exact ⟨h.peer.trans hA, h.sources⟩

/-- A peer on one socket, with a prober and a transport, under whose key the
datagram `[key]` is a probe. -/
def keyedPeer (key : UInt8) : PeerState ℕ where
  decode raw :=
    if raw = [key] then some (.probe ⟨0, 1, 0, false, 3, 0, false, 0, []⟩)
    else none
  views := [⟨⟨0, 0, 1⟩, .unknown, some (.new 0 5), false, 0⟩]
  reflector := .new [some 7, some 9]
  adaptive := some (.openPeer ⟨1, 1⟩)
  resequencer := none

/-- A concentrator with two peers on one socket; the source 6 is bound to the
first one. -/
def concentrator : Demux ℕ :=
  ⟨[keyedPeer 1, keyedPeer 2], .singleton 6 ⟨0, 1⟩, 1, 4⟩

def readings : Readings ℕ := ⟨0, 0, [], [], .plain⟩

theorem concentrator_views (s : ℕ) (h : 1 < (concentrator.views s).length) :
    ((keyedPeer 1).viewOf s).isSome := by
  obtain ⟨i, hi⟩ := List.exists_mem_of_length_pos (Nat.zero_lt_of_lt h)
  have hview := (List.mem_filter.mp hi).2
  match i with
  | 0 | 1 => exact hview
  | i + 2 => cases hview

/-- A probe of the second peer, from the source 5. -/
def foreignProbe : Datagram ℕ := ⟨0, [2], 5, { readings with sources := [6] }⟩

theorem cross_peer_isolation_concentrator :
    (concentrator.run [foreignProbe]).peerBySource.lookup 5 = some ⟨1, 2⟩ ∧
      (concentrator.run [foreignProbe]).peers[0]? = some (keyedPeer 1) ∧
      ∀ src b, b.peer = 0 →
        ((concentrator.run [foreignProbe]).peerBySource.lookup src = some b ↔
          concentrator.peerBySource.lookup src = some b) :=
  ⟨by decide, cross_peer_isolation concentrator 0 (keyedPeer 1) rfl
    concentrator_views [foreignProbe] (by simp [foreignProbe, keyedPeer])⟩

end Demux

end Wanbond.Bind
