import Wanbond.Bind.Isolation

/-!
# Probes that are refused as stale

A prober refuses an echo of another path, another session or an old sequence, and
a reflector refuses a probe that it has already accepted.  Such a probe was
authenticated, and may be a copy sent by anyone from anywhere.  It never reaches
the transport.  But its source is learned before it is refused; this module says
exactly when that leaves no trace.
-/

namespace Wanbond.Bind

open Wanbond.Bond (Time Bytes)
open Wanbond.Frame (Probe)

/-- Learning an address changes nothing only if it is the present entry. -/
theorem Remotes.learnRemoteFromProbe_eq_iff {Addr : Type} (r : Remotes Addr)
    (key : ℕ) (ap : Addr) (now : Time) :
    r.learnRemoteFromProbe key ap now = r ↔
      r.selValid = true ∧ r.entries.lookup key = some ⟨ap, now⟩ := by
  constructor
  · intro h
    have hvalid := congrArg Remotes.selValid h
    have hentries := congrArg Remotes.entries h
    refine ⟨hvalid.symm, ?_⟩
    rw [← hentries]
    exact Finmap.lookup_insert _
  rintro ⟨hvalid, hentry⟩
  have hentries : r.entries.insert key ⟨ap, now⟩ = r.entries := by
    refine Finmap.ext_lookup fun key' => ?_
    by_cases hkey : key' = key
    · subst hkey
      rw [Finmap.lookup_insert, hentry]
    · exact Finmap.lookup_insert_of_ne _ hkey
  cases r
  simp_all [learnRemoteFromProbe]

namespace PeerState

variable {Addr : Type} {p : PeerState Addr} {k : ℕ} {v : PeerView Addr}
  {f : Probe} {src : Addr} {rd : Readings Addr}

/-- The probe is not fresh: the prober of the view refuses an echo, or the
reflector refuses a probe as a replay. -/
def Refused (p : PeerState Addr) (v : PeerView Addr) (f : Probe) (now : Time) :
    Prop :=
  if f.isEcho then
    ∃ prober e, v.prober = some prober ∧
      (prober.handleEchoProbe f now).2 = .error e
  else (p.reflector.acceptProbe f).2 = .error .replay

/-- All that happens to the peer is that its `k`-th view has other addresses,
and that it counts what it has seen. -/
def LearnedOnly (p p' : PeerState Addr) (k : ℕ) (remotes : Remotes Addr) : Prop :=
  p'.adaptive = p.adaptive ∧
    ∃ v', p'.views[k]? = some v' ∧ v'.remotes = remotes

theorem Refused.ensureReceive (h : p.Refused v f rd.now) :
    p.ensureReceive.Refused v f rd.now := by
  obtain ⟨rq, hrq⟩ := p.ensureReceive_eq
  rwa [hrq]

variable [DecidableEq Addr]

/-- A refused probe stops after its source was learned. -/
theorem dispatch_refused (hk : p.views[k]? = some v)
    (h : p.Refused v f rd.now) (length : ℕ) (src : Addr) :
    LearnedOnly p (p.dispatchInbound k v (.probe f) length src rd).1 k
      (v.remotes.learnRemoteFromProbe f.pathID.toNat src rd.now) := by
  have hset : ∀ v' : PeerView Addr, (p.setView k v').views[k]? = some v' :=
    fun v' => List.getElem?_set_self (List.getElem?_eq_some_iff.mp hk).1
  unfold Refused at h
  unfold dispatchInbound
  dsimp only
  split_ifs at h ⊢ with hecho
  · obtain ⟨prober, e, hprober, herror⟩ := h
    unfold handleEcho
    rw [hprober]
    dsimp only
    rcases hhandle : prober.handleEchoProbe f rd.now with ⟨prober', _ | fresh⟩
    · exact ⟨rfl, _, hset _, rfl⟩
    · rw [hhandle] at herror
      cases herror
  unfold handleProbe
  rcases haccept : p.reflector.acceptProbe f with ⟨reflector, _ | accepted⟩
  · exact ⟨rfl, _, hset _, rfl⟩
  · rw [haccept] at h
    cases h

theorem handleInbound_refused {socket : ℕ} {raw : Bytes}
    (hview : p.viewOf socket = some k) (hk : p.views[k]? = some v)
    (hdecode : p.decode raw = some (.probe f)) (h : p.Refused v f rd.now)
    (src : Addr) :
    LearnedOnly p (p.handleInbound socket raw src rd).1 k
      (v.remotes.learnRemoteFromProbe f.pathID.toNat src rd.now) := by
  unfold handleInbound
  rw [hdecode, hview]
  dsimp only
  rw [hk]
  exact dispatch_refused hk h _ src

end PeerState

namespace Demux

variable {Addr : Type} {m : Demux Addr} {i : ℕ} {p : PeerState Addr}
  {socket : ℕ} {raw : Bytes} {src : Addr} {rd : Readings Addr}

theorem map_adaptive_onPeer (m : Demux Addr)
    {act : PeerState Addr → PeerState Addr × Option Probe}
    (hpeer : m.peers[i]? = some p) (hact : (act p).1.adaptive = p.adaptive)
    (j : ℕ) : ((m.onPeer i act).1.peers[j]?).map PeerState.adaptive =
      (m.peers[j]?).map PeerState.adaptive := by
  by_cases hj : j = i
  · subst hj
    rw [peers_onPeer_self hpeer, hpeer, Option.map_some, hact, Option.map_some]
  · rw [peers_onPeer_ne m hj]

/-- The view has the source of the probe for the probe's path, as of now, and a
selected address. -/
def Recorded (v : PeerView Addr) (f : Probe) (src : Addr) (now : Time) : Prop :=
  v.remotes.selValid = true ∧
    v.remotes.entries.lookup f.pathID.toNat = some ⟨src, now⟩

/-- The peer handles a refused probe itself. -/
theorem handled_refused (act : PeerState Addr → PeerState Addr × Option Probe)
    {k : ℕ} {v : PeerView Addr} {f : Probe} (hpeer : m.peers[i]? = some p)
    (hact : PeerState.LearnedOnly p (act p).1 k
      (v.remotes.learnRemoteFromProbe f.pathID.toNat src rd.now)) :
    (∀ j : ℕ, ((m.onPeer i act).1.peers[j]?).map PeerState.adaptive =
        (m.peers[j]?).map PeerState.adaptive) ∧
      (((m.onPeer i act).1.peerBySource = m.peerBySource ∧
          ∀ p' v', (m.onPeer i act).1.peers[i]? = some p' →
            p'.views[k]? = some v' → v'.remotes = v.remotes) ↔
        Recorded v f src rd.now) := by
  obtain ⟨hadaptive, v', hv', hremotes⟩ := hact
  refine ⟨map_adaptive_onPeer m hpeer hadaptive, ?_⟩
  rw [Recorded, ← Remotes.learnRemoteFromProbe_eq_iff, ← hremotes,
    peers_onPeer_self hpeer]
  constructor
  · exact fun h => h.2 _ _ rfl hv'
  intro h
  refine ⟨peerBySource_onPeer m i act, ?_⟩
  rintro p' v'' ⟨⟩ hv''
  rw [hv'] at hv''
  cases hv''
  exact h

variable [DecidableEq Addr]

/-- The probe goes straight to its peer, which has the source recorded; or it is
dropped, because the source is bound to another peer or cannot be bound. -/
def Traceless (m : Demux Addr) (socket i : ℕ) (v : PeerView Addr) (f : Probe)
    (src : Addr) (rd : Readings Addr) : Prop :=
  if (m.views socket).length ≤ 1 then Recorded v f src rd.now
  else
    match m.peerBySource.lookup src with
    | some b => b.peer ∈ m.views socket ∧ (b.peer = i → Recorded v f src rd.now)
    | none => (m.bindSourceToPeer src i rd.sources).2 = false

/-- The loop ends at the only peer under whose key the probe verifies. -/
theorem trialDecode_only {f : Probe} (hpeer : m.peers[i]? = some p)
    (hdecode : p.decode raw = some (.probe f))
    (honly : ∀ j q, j ≠ i → m.peers[j]? = some q → q.decode raw = none)
    {order : List ℕ} (hmem : i ∈ order) :
    m.trialDecode socket raw src rd order =
      match m.bindSourceToPeer src i rd.sources with
      | (m, false) => (m, none)
      | (m, true) =>
        m.onPeer i fun p => p.ensureReceive.handleInbound socket raw src rd := by
  induction order with
  | nil => cases hmem
  | cons j _ ih =>
    unfold trialDecode
    by_cases hj : j = i
    · subst hj
      have hprobe : ((m.peers[j]?).bind fun p => p.decode raw) =
          some (.probe f) := by
        rw [hpeer]
        exact hdecode
      split
      next => rfl
      next hother => exact absurd hprobe (hother f)
    have hnone : ((m.peers[j]?).bind fun p => p.decode raw) = none := by
      cases hq : m.peers[j]? with
      | none => rfl
      | some q => exact honly j q hj hq
    rw [hnone]
    exact ih ((List.mem_cons.mp hmem).resolve_left (Ne.symm hj))

/-- The source is bound to the peer, and the peer handles the probe. -/
theorem trial_bound {k : ℕ} {v : PeerView Addr} {f : Probe}
    (evict : Option Addr) (hpeer : m.peers[i]? = some p)
    (hview : p.viewOf socket = some k) (hk : p.views[k]? = some v)
    (hdecode : p.decode raw = some (.probe f)) (hrefused : p.Refused v f rd.now)
    (hnew : ∀ b, m.peerBySource.lookup src = some b → b.peer ≠ i) :
    let m' := ((m.install src i evict).onPeer i fun p =>
      p.ensureReceive.handleInbound socket raw src rd).1
    (∀ j : ℕ, (m'.peers[j]?).map PeerState.adaptive =
        (m.peers[j]?).map PeerState.adaptive) ∧
      m'.peerBySource ≠ m.peerBySource := by
  refine ⟨?_, fun heq => ?_⟩
  · refine (map_adaptive_onPeer (m.install src i evict) hpeer ?_)
    obtain ⟨rq, hrq⟩ := p.ensureReceive_eq
    have h := PeerState.handleInbound_refused (p := p.ensureReceive)
      (by rw [hrq]; exact hview) (by rw [hrq]; exact hk)
      (by rw [hrq]; exact hdecode) hrefused.ensureReceive src
    rw [h.1, hrq]
  rw [peerBySource_onPeer] at heq
  have hsrc := m.lookup_install_self src i evict
  rw [heq] at hsrc
  exact hnew _ hsrc rfl

/-- A probe that verifies under one peer's key and is refused as stale leaves
every transport alone.  It leaves the view's addresses and the map from sources
to peers alone if and only if it is traceless. -/
theorem stale_probe_unchanged_iff
    (m : Demux Addr) (socket i k : ℕ) (p : PeerState Addr) (v : PeerView Addr)
    (f : Probe) (raw : Bytes) (src : Addr) (rd : Readings Addr)
    (hreader : 0 ∈ m.views socket) (hpeer : m.peers[i]? = some p)
    (hview : p.viewOf socket = some k) (hk : p.views[k]? = some v)
    (hdecode : p.decode raw = some (.probe f))
    (honly : ∀ j q, j ≠ i → m.peers[j]? = some q → q.decode raw = none)
    (hrefused : p.Refused v f rd.now) :
    let m' := (m.demuxInbound socket raw src rd).1
    (∀ j : ℕ, (m'.peers[j]?).map PeerState.adaptive =
        (m.peers[j]?).map PeerState.adaptive) ∧
      ((m'.peerBySource = m.peerBySource ∧
          ∀ p' v', m'.peers[i]? = some p' → p'.views[k]? = some v' →
            v'.remotes = v.remotes) ↔
        m.Traceless socket i v f src rd) := by
  have hmem : i ∈ m.views socket := by
    refine List.mem_filter.mpr ⟨List.mem_range.mpr
      (List.getElem?_eq_some_iff.mp hpeer).1, ?_⟩
    simp [hpeer, hview]
  have hown := handled_refused (fun p => p.handleInbound socket raw src rd)
    hpeer (PeerState.handleInbound_refused hview hk hdecode hrefused src)
  unfold demuxInbound Traceless
  by_cases hshared : (m.views socket).length ≤ 1
  · -- the only view of the socket is that of the primary peer
    have hi : i = 0 := by
      obtain ⟨j, hj⟩ := List.length_eq_one_iff.mp
        (Nat.le_antisymm hshared (List.length_pos_of_mem hmem))
      rw [hj, List.mem_singleton] at hmem hreader
      exact hmem.trans hreader.symm
    subst hi
    rwa [if_pos hshared, if_pos hshared]
  rw [if_neg hshared, if_neg hshared]
  cases hsrc : m.peerBySource.lookup src with
  | some b =>
    dsimp only
    by_cases hbound : b.peer ∈ m.views socket
    · rw [if_pos hbound]
      by_cases hb : b.peer = i
      · subst hb
        refine ⟨hown.1, hown.2.trans ?_⟩
        simp [hbound]
      rw [onPeer_dropped fun q hq => honly _ q hb hq]
      refine ⟨fun _ => rfl, iff_of_true ⟨rfl, fun p' v' hp' hv' => ?_⟩
        ⟨hbound, fun h => absurd h hb⟩⟩
      rw [hpeer] at hp'
      cases hp'
      rw [hk] at hv'
      cases hv'
      rfl
    · rw [if_neg hbound, trialDecode_only hpeer hdecode honly hmem]
      rcases m.bindSourceToPeer_cases src i rd.sources with
        ⟨b', hb', hpeer', -⟩ | ⟨hnone, -⟩ | ⟨evict, heq, hnew, -⟩
      · rw [hsrc] at hb'
        cases hb'
        exact absurd (hpeer' ▸ hmem) hbound
      · rw [hsrc] at hnone
        cases hnone
      rw [heq]
      have h := trial_bound evict hpeer hview hk hdecode
        hrefused hnew
      exact ⟨h.1, iff_of_false (fun h' => h.2 h'.1)
        fun h' => hbound h'.1⟩
  | none =>
    dsimp only
    rw [trialDecode_only hpeer hdecode honly hmem]
    rcases m.bindSourceToPeer_cases src i rd.sources with
      ⟨b', hb', -, -⟩ | ⟨-, heq⟩ | ⟨evict, heq, hnew, -⟩
    · rw [hsrc] at hb'
      cases hb'
    · rw [heq]
      refine ⟨fun _ => rfl, iff_of_true ⟨rfl, fun p' v' hp' hv' => ?_⟩ rfl⟩
      rw [hpeer] at hp'
      cases hp'
      rw [hk] at hv'
      cases hv'
      rfl
    rw [heq]
    have h := trial_bound evict hpeer hview hk hdecode
      hrefused hnew
    exact ⟨h.1, iff_of_false (fun h' => h.2 h'.1) nofun⟩

/-! ## A replay from elsewhere -/

/-- The probes of a peer of session 3: `[1]` carries no challenge, `[2]` the first
one that the reflector draws. -/
def probeOf (raw : Bytes) : Option Frame :=
  if raw = [1] then some (.probe ⟨0, 0, 0, false, 3, 0, false, 0, []⟩)
  else if raw = [2] then some (.probe ⟨0, 1, 0, false, 3, 7, false, 0, []⟩)
  else none

/-- An end with one peer, one view and no remote yet. -/
def endpoint : Demux ℕ :=
  ⟨[⟨probeOf, [⟨⟨0, 0, 1⟩, .unknown, none, false, 0⟩],
    .new [some 7, some 9], none, none⟩], ∅, 0, 4⟩

/-- Both probes have arrived, from the source 5. -/
def probed : Demux ℕ :=
  endpoint.run [⟨0, [1], 5, readings⟩, ⟨0, [2], 5, readings⟩]

/-- Where the first view of the first peer sends. -/
def destination (m : Demux ℕ) : Option (Option ℕ) :=
  (m.peers[0]?).bind fun p => (p.views[0]?).map fun v => v.remotes.getRemote

/-- The second probe is a replay for the reflector now; but a copy of it, sent
from 9, makes the view send to 9. -/
theorem replay_repoints :
    ((probed.peers[0]?).map fun p => (p.reflector.acceptProbe
        ⟨0, 1, 0, false, 3, 7, false, 0, []⟩).2) = some (.error .replay) ∧
      probed.destination = some (some 5) ∧
      (probed.step ⟨0, [2], 9, readings⟩).destination = some (some 9) := by
  decide

def probedPeer : PeerState ℕ := probed.peers.get ⟨0, by decide⟩

def probedView : PeerView ℕ := probedPeer.views.get ⟨0, by decide⟩

theorem stale_probe_unchanged_iff_probed :
    let m' := (probed.demuxInbound 0 [2] 9 readings).1
    (∀ j : ℕ, (m'.peers[j]?).map PeerState.adaptive =
        (probed.peers[j]?).map PeerState.adaptive) ∧
      ((m'.peerBySource = probed.peerBySource ∧
          ∀ p' v', m'.peers[0]? = some p' → p'.views[0]? = some v' →
            v'.remotes = probedView.remotes) ↔
        probed.Traceless 0 0 probedView ⟨0, 1, 0, false, 3, 7, false, 0, []⟩ 9
          readings) :=
  stale_probe_unchanged_iff probed 0 0 0 probedPeer probedView
    ⟨0, 1, 0, false, 3, 7, false, 0, []⟩ [2] 9 readings (by decide) rfl
    (by decide) rfl (by decide)
    (fun j q hj hq => match j, hj, hq with | 0, hj, _ => absurd rfl hj)
    (by rw [PeerState.Refused, if_neg (by decide)]; decide)

end Demux

end Wanbond.Bind
