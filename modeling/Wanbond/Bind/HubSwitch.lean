import Wanbond.Bind.EdgeRemotes

/-!
# A hub switch and the lifecycle of the bind

Switching one peer to another hub repoints its views at once and records the new
remote as the peer's seed.  This module follows the switch through closing,
reopening, promoting and removing paths, and through switches of other peers.
Reopening seeds a path with a destination of its own from that destination
first, so the switch survives exactly for the paths without one.
-/

namespace Wanbond.Bind

open Wanbond.Bond (Time)

variable {Addr : Type} [DecidableEq Addr]

namespace Multipath

@[simp] theorem getRemote_seededView (m : Multipath Addr) (p : Peer Addr)
    (d : PathDef Addr) (id : ℕ) (now : Time) :
    (m.seededView p d id now).remotes.getRemote = m.seed p d := by
  unfold seededView
  cases m.seed p d <;> simp

/-- The state after the `i`-th peer, named `name`, was switched to `ap`: the
peer owns the remote and all its views send there, and a view of another peer
that sends there is one that did so in the state `m₀` before the switch. -/
structure Switched (m₀ : Multipath Addr) (i : ℕ) (name : String) (ap : Addr)
    (m : Multipath Addr) : Prop where
  owner : m.edgePeerByRemote.lookup ap = some i
  peer : ∀ p, m.peers[i]? = some p →
    p.name = name ∧ p.configuredRemote = some ap ∧
      ∀ v ∈ p.paths, v.remotes.getRemote = some ap
  others : ∀ (j : ℕ) p, j ≠ i → m.peers[j]? = some p →
    p.configuredRemote ≠ some ap ∧
      ∀ v ∈ p.paths, v.remotes.getRemote = some ap →
        ∃ p₀, m₀.peers[j]? = some p₀ ∧ v ∈ p₀.paths

variable {m₀ m m' : Multipath Addr} {i : ℕ} {name : String} {ap : Addr}

/-- Some peer has a view of the path in `m'` that it does not have in `m`. -/
def Attaches (m m' : Multipath Addr) (d : PathDef Addr) : Prop :=
  ∃ (j : ℕ) (p p' : Peer Addr), m.peers[j]? = some p ∧ m'.peers[j]? = some p' ∧
    ∃ v ∈ p'.paths, v ∉ p.paths ∧ v.name = d.name

/-- An operation on paths that attaches only paths without a destination of
their own. -/
theorem Switched.grown (h : Switched m₀ i name ap m) {D : PathDef Addr → Prop}
    (hgrown : Grown m D m')
    (hD : ∀ d, D d → Attaches m m' d → d.destAddr = none) :
    Switched m₀ i name ap m' := by
  -- a view is an old one, or a fresh one of a path without a destination
  have hviews : ∀ {j : ℕ} {p p'}, m.peers[j]? = some p → m'.peers[j]? = some p' →
      GrownPeer m D p p' → ∀ v ∈ p'.paths, v ∈ p.paths ∨
        ∃ d id now, d.destAddr = none ∧ v = m.seededView p d id now := by
    intro j p p' hp hp' hpeer v hv
    by_cases hold : v ∈ p.paths
    · exact .inl hold
    rcases hpeer.views v hv with hv' | ⟨d, id, now, hd, rfl⟩
    · exact .inl hv'
    · exact .inr ⟨d, id, now,
        hD d hd ⟨j, p, p', hp, hp', _, hv, hold, rfl⟩, rfl⟩
  refine ⟨hgrown.edge ▸ h.owner, fun p' hp' => ?_, fun j p' hj hp' => ?_⟩
  · obtain ⟨p, hp, hpeer⟩ := hgrown.peers i p' hp'
    obtain ⟨hname, hremote, hsend⟩ := h.peer p hp
    refine ⟨hpeer.name.trans hname, hpeer.configuredRemote.trans hremote,
      fun v hv => ?_⟩
    rcases hviews hp hp' hpeer v hv with hv | ⟨d, id, now, hnone, rfl⟩
    · exact hsend v hv
    · rw [getRemote_seededView, seed, hnone, hremote]
  obtain ⟨p, hp, hpeer⟩ := hgrown.peers j p' hp'
  obtain ⟨hremote, hsend⟩ := h.others j p hj hp
  refine ⟨hpeer.configuredRemote ▸ hremote, fun v hv hsends => ?_⟩
  rcases hviews hp hp' hpeer v hv with hv | ⟨d, id, now, hnone, rfl⟩
  · exact hsend v hv hsends
  -- a fresh view is seeded with the peer's own remote, or with none
  exfalso
  rw [getRemote_seededView, seed, hnone] at hsends
  cases hconf : p.configuredRemote with
  | some =>
    rw [hconf] at hsends
    exact hremote (hconf.trans hsends)
  | none =>
    have hne : m.edgePeerByRemote ≠ ∅ := by
      intro hempty
      have howner := h.owner
      rw [hempty, Finmap.lookup_empty] at howner
      cases howner
    rw [hconf] at hsends
    simp only [if_neg hne] at hsends
    cases hsends

omit [DecidableEq Addr] in
theorem getRemote_repoint {p : Peer Addr} {target : Addr} {now : Time} :
    ∀ v ∈ (repoint p target now).paths, v.remotes.getRemote = some target := by
  intro v hv
  obtain ⟨u, -, rfl⟩ := List.mem_map.mp hv
  exact Remotes.getRemote_setRemote _ _ _

omit [DecidableEq Addr] in
theorem name_of_findIdx {other : String} {j : ℕ} {p : Peer Addr}
    (hj : m.peers.findIdx? (fun p => p.name = other) = some j)
    (hp : m.peers[j]? = some p) : p.name = other := by
  obtain ⟨hlt, hname, -⟩ := List.findIdx?_eq_some_iff_getElem.mp hj
  rw [List.getElem?_eq_getElem hlt, Option.some.injEq] at hp
  exact hp ▸ of_decide_eq_true hname

/-- A switch of another peer. -/
theorem Switched.setPeerRemoteFor (h : Switched m₀ i name ap m)
    {other : String} (hother : other ≠ name) (target : Addr) (now : Time) :
    Switched m₀ i name ap (m.setPeerRemoteFor other target now).1 := by
  obtain ⟨e, heq⟩ | ⟨j, p, heq, hj, hp, hfree⟩ :=
    m.setPeerRemoteFor_cases other target now
  · rwa [heq]
  rw [heq]
  have hji : j ≠ i := by
    rintro rfl
    exact hother ((name_of_findIdx hj hp).symm.trans (h.peer p hp).1)
  obtain ⟨hremote, -⟩ := h.others j p hji hp
  -- the remote is owned by the switched peer, so it is not the target
  have htarget : ap ≠ target := by
    rintro rfl
    rw [ownedByOther, h.owner] at hfree
    simp [Ne.symm hji] at hfree
  refine ⟨?_, fun q hq => ?_, fun k q hk hq => ?_⟩
  · rw [lookup_switchTo_ne m j p htarget, if_neg hremote]
    exact h.owner
  · rw [peer_switchTo_ne p (Ne.symm hji)] at hq
    exact h.peer q hq
  by_cases hkj : k = j
  · subst hkj
    rw [peer_switchTo_self hp, Option.some.injEq] at hq
    subst hq
    refine ⟨by simpa using htarget.symm, fun v hv hsends => ?_⟩
    have hto := getRemote_repoint v hv
    exact absurd (Option.some.inj (hsends.symm.trans hto)) htarget
  · rw [peer_switchTo_ne p hkj] at hq
    exact h.others k q hk hq

/-- The calls that may follow the switch of the peer `name`: a path that one of
them attaches, opening the bind or promoting, has no destination of its own. -/
def AfterSwitch (name : String) (m : Multipath Addr) : Event Addr → Prop
  | .close => True
  | .openBind o adaptive => ∀ d ∈ m.defs,
    Attaches m (m.openBind o adaptive).1 d → d.destAddr = none
  | .reconcileDeferred o => ∀ dp ∈ m.deferred,
    Attaches m (m.reconcileDeferred o) dp.path → dp.path.destAddr = none
  | .removePath _ => True
  | .setPeerRemoteFor other _ _ => other ≠ name
  | _ => False

def AfterSwitchRun (name : String) : Multipath Addr → List (Event Addr) → Prop
  | _, [] => True
  | m, e :: events =>
    AfterSwitch name m e ∧ AfterSwitchRun name (m.step e) events

theorem Switched.step (h : Switched m₀ i name ap m) {e : Event Addr}
    (hafter : AfterSwitch name m e) : Switched m₀ i name ap (m.step e) := by
  cases e with
  | close => exact h.grown (grown_detach m (fun _ => False)) nofun
  | openBind o adaptive => exact h.grown (grown_openBind m o adaptive) hafter
  | reconcileDeferred o =>
    refine h.grown (grown_reconcileDeferred m o) ?_
    rintro d ⟨dp, hmem, rfl⟩
    exact hafter dp hmem
  | removePath path =>
    exact h.grown (grown_removePath m path (fun _ => False)) nofun
  | setPeerRemoteFor _ target now =>
    exact h.setPeerRemoteFor hafter target now
  | addPath | seedEdgePeerRemotes | setPeerRemote | parseEndpoint | learn =>
    exact hafter.elim

theorem Switched.run (h : Switched m₀ i name ap m) {events : List (Event Addr)}
    (hafter : AfterSwitchRun name m events) :
    Switched m₀ i name ap (m.run events) := by
  induction events generalizing m with
  | nil => exact h
  | cons _ _ ih => exact ih (h.step hafter.1) hafter.2

/-- The state right after a successful switch. -/
theorem switched_start {now : Time}
    (hok : (m.setPeerRemoteFor name ap now).2 = none)
    (hi : m.peers.findIdx? (fun p => p.name = name) = some i)
    (hothers : ∀ j, j ≠ i → m.configured j ≠ some ap) :
    Switched m i name ap (m.setPeerRemoteFor name ap now).1 := by
  obtain ⟨e, heq⟩ | ⟨j, p, heq, hj, hp, -⟩ :=
    m.setPeerRemoteFor_cases name ap now
  · rw [heq] at hok
    cases hok
  rw [heq]
  obtain rfl : j = i := Option.some.inj (hj.symm.trans hi)
  refine ⟨lookup_switchTo_self m j p ap now, fun q hq => ?_,
    fun k q hk hq => ?_⟩
  · rw [peer_switchTo_self hp, Option.some.injEq] at hq
    subst hq
    have hname : p.name = name := name_of_findIdx hj hp
    exact ⟨hname, rfl, getRemote_repoint⟩
  · rw [peer_switchTo_ne p hk] at hq
    refine ⟨fun hconf => hothers k hk ?_, fun v hv _ => ⟨q, hq, hv⟩⟩
    rwa [configured, hq]

/-- After a successful switch of a peer to `ap`, which no other peer has as its
configured remote, and any sequence of closing, opening and promoting paths
without a destination of their own, removing paths and switching other peers,
every view of the peer sends to `ap`, and a view of another peer that sends to
`ap` did so before the switch. -/
theorem hub_switch_survives
    (m : Multipath Addr) (i : ℕ) (name : String) (ap : Addr) (now : Time)
    (hi : m.peers.findIdx? (fun p => p.name = name) = some i)
    (hok : (m.setPeerRemoteFor name ap now).2 = none)
    (hothers : ∀ j, j ≠ i → m.configured j ≠ some ap)
    (after : List (Event Addr))
    (hafter : AfterSwitchRun name (m.setPeerRemoteFor name ap now).1 after) :
    let m' := (m.setPeerRemoteFor name ap now).1.run after
    (∀ p, m'.peers[i]? = some p → p.name = name ∧
      ∀ v ∈ p.paths, v.remotes.getRemote = some ap) ∧
    ∀ (j : ℕ) p, j ≠ i → m'.peers[j]? = some p →
      ∀ v ∈ p.paths, v.remotes.getRemote = some ap →
        ∃ p₀, m.peers[j]? = some p₀ ∧ v ∈ p₀.paths := by
  intro m'
  have h : Switched m i name ap m' :=
    (switched_start hok hi hothers).run hafter
  exact ⟨fun p hp => ⟨(h.peer p hp).1, (h.peer p hp).2.2⟩,
    fun j p hj hp => (h.others j p hj hp).2⟩

/-! ## A path with a destination of its own -/

/-- Every socket binds and every codec is derived. -/
def allBound : Outcomes := ⟨fun _ => .bound, fun _ _ => true, 0⟩

/-- The first peer of an edge whose path has the destination 5 is switched to
9, and the bind is closed and opened again. -/
def switchedAndReopened : List (Event ℕ) :=
  [.openBind allBound fun _ => true, .setPeerRemoteFor "alpha" 9 0, .close,
    .openBind allBound fun _ => true]

def frontedEdge : Setup ℕ where
  paths := [⟨"wan", true, some 5⟩]
  peers := [("alpha", true), ("beta", true)]
  paths_ne := by simp
  paths_le := by simp
  names_nodup := by simp
  peers_ne := twoPeerEdge.peers_ne
  peerNames_nodup := twoPeerEdge.peerNames_nodup

/-- Where each view of the primary peer sends. -/
def destinations (m : Multipath Addr) : List (Option Addr) :=
  m.paths.map fun v => v.remotes.getRemote

/-- The switch takes effect at once, and is lost when the bind is reopened. -/
theorem switch_lost_on_reopen :
    (frontedEdge.boot.run (switchedAndReopened.take 2)).destinations =
        [some 9] ∧
      (frontedEdge.boot.run switchedAndReopened).configured 0 = some 9 ∧
      (frontedEdge.boot.run switchedAndReopened).destinations = [some 5] := by
  decide

/-- The edge of two peers over one path without a destination, opened. -/
def openedEdge : Multipath ℕ :=
  twoPeerEdge.boot.run [.openBind allBound fun _ => true]

theorem openedEdge_switched :
    openedEdge.peers.findIdx? (fun p => p.name = "alpha") = some 0 ∧
      (openedEdge.setPeerRemoteFor "alpha" 9 0).2 = none := by
  decide

theorem openedEdge_noDest : ∀ d ∈
    ((openedEdge.setPeerRemoteFor "alpha" 9 0).1.step .close).defs,
      d.destAddr = none := by
  decide

theorem openedEdge_unconfigured (j : ℕ) : openedEdge.configured j = none := by
  match j with
  | 0 | 1 | j + 2 => rfl

theorem hub_switch_survives_openedEdge :
    let m' := (openedEdge.setPeerRemoteFor "alpha" 9 0).1.run
      [.close, .openBind allBound fun _ => true]
    (∀ p, m'.peers[0]? = some p → p.name = "alpha" ∧
      ∀ v ∈ p.paths, v.remotes.getRemote = some 9) ∧
    ∀ (j : ℕ) p, j ≠ 0 → m'.peers[j]? = some p →
      ∀ v ∈ p.paths, v.remotes.getRemote = some 9 →
        ∃ p₀, openedEdge.peers[j]? = some p₀ ∧ v ∈ p₀.paths :=
  hub_switch_survives openedEdge 0 "alpha" 9 0 openedEdge_switched.1
    openedEdge_switched.2 (fun j _ => by rw [openedEdge_unconfigured]; nofun)
    [.close, .openBind allBound fun _ => true]
    ⟨trivial, fun d hd _ => openedEdge_noDest d hd, trivial⟩

end Multipath
end Wanbond.Bind
