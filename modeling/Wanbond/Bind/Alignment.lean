import Wanbond.Bind.Membership

/-!
# The membership stays aligned

This module shows that the parallel lists of the bind never drift apart: every
peer has the same probers, one for each definition and in the same order, and the
same views, one for each bound socket; and while the bind is open every
definition is either bound or deferred.
-/

namespace Wanbond.Bind

open Wanbond.Support

variable {Addr : Type}

/-- The name and the id of a view, in the form of the prober that carries
them. -/
def View.stamp (v : View Addr) : Prober := ⟨v.name, v.id⟩

def SharedPath.stamp (s : SharedPath) : Prober := ⟨s.name, s.id⟩

/-- What the other peers must agree on. -/
def Peer.signature (p : Peer Addr) : List Prober × List Prober :=
  (p.probers, p.paths.map View.stamp)

variable {m : Multipath Addr} {names : List String}

namespace Multipath

/-- The names of the bound and of the deferred paths. -/
def memberNames (m : Multipath Addr) : List String :=
  m.shared.map SharedPath.name ++ m.deferred.map (·.path.name)

/-- The peers agree with each other and with the sockets, every bound and every
deferred path has its prober, and these are the paths named `names`. -/
structure Wired (m : Multipath Addr) (names : List String) : Prop where
  peers_ne : m.peers ≠ []
  uniform : ∀ p ∈ m.peers,
    p.signature = (m.probers, m.shared.map SharedPath.stamp)
  stamped : ∀ s ∈ m.shared, s.stamp ∈ m.probers
  reserved : ∀ dp ∈ m.deferred,
    dp.prober ∈ m.probers ∧ dp.prober.name = dp.path.name
  members : m.memberNames.Perm names

/-- The membership is aligned. -/
structure Ok (m : Multipath Addr) : Prop where
  wired : Wired m (if m.shared = [] then [] else m.defs.map PathDef.name)
  named : m.probers.map Prober.name = m.defs.map PathDef.name
  names_nodup : (m.defs.map PathDef.name).Nodup
  ids_nodup : (m.probers.map Prober.pathID).Nodup

variable {m' : Multipath Addr}

theorem Ok.wired_of_open (h : Ok m) (hopen : m.shared ≠ []) :
    Wired m (m.defs.map PathDef.name) := by
  have hwired := h.wired
  rwa [if_neg hopen] at hwired

/-- Beyond the wiring, only the definitions and the probers are read. -/
theorem Ok.of_wired (h : Ok m) (hdefs : m'.defs = m.defs)
    (hprobers : m'.probers = m.probers)
    (hwired : Wired m'
      (if m'.shared = [] then [] else m.defs.map PathDef.name)) : Ok m' := by
  refine ⟨?_, ?_, ?_, ?_⟩
  · rwa [hdefs]
  · rw [hprobers, hdefs]
    exact h.named
  · rw [hdefs]
    exact h.names_nodup
  · rw [hprobers]
    exact h.ids_nodup

theorem Ok.prober_eq (h : Ok m) {pr pr' : Prober} (hpr : pr ∈ m.probers)
    (hpr' : pr' ∈ m.probers) (hname : pr.name = pr'.name) : pr = pr' :=
  List.inj_on_of_nodup_map (h.named ▸ h.names_nodup) hpr hpr' hname

/-! ## Changes that the membership does not see -/

theorem probers_eq_of_signature
    (h : m'.peers.map Peer.signature = m.peers.map Peer.signature) :
    m'.probers = m.probers := by
  unfold probers
  cases hm : m.peers <;> cases hm' : m'.peers <;>
    simp_all [Peer.signature, probers.primaryProbers]

/-- The membership is seen through the signatures of the peers alone. -/
theorem Wired.congr (h : Wired m names)
    (hsig : m'.peers.map Peer.signature = m.peers.map Peer.signature)
    (hshared : m'.shared = m.shared) (hdeferred : m'.deferred = m.deferred) :
    Wired m' names := by
  have hprobers := probers_eq_of_signature hsig
  refine ⟨?_, ?_, ?_, ?_, ?_⟩
  · intro hnil
    rw [hnil, List.map_nil, eq_comm, List.map_eq_nil_iff] at hsig
    exact h.peers_ne hsig
  · intro p hp
    have hmem : p.signature ∈ m.peers.map Peer.signature :=
      hsig ▸ List.mem_map_of_mem hp
    obtain ⟨q, hq, heq⟩ := List.mem_map.mp hmem
    rw [hprobers, hshared, ← heq]
    exact h.uniform q hq
  · rw [hshared, hprobers]
    exact h.stamped
  · rw [hdeferred, hprobers]
    exact h.reserved
  · rw [memberNames, hshared, hdeferred]
    exact h.members

theorem Ok.congr (h : Ok m)
    (hsig : m'.peers.map Peer.signature = m.peers.map Peer.signature)
    (hshared : m'.shared = m.shared) (hdeferred : m'.deferred = m.deferred)
    (hdefs : m'.defs = m.defs) : Ok m' := by
  refine h.of_wired hdefs (probers_eq_of_signature hsig) ?_
  rw [hshared]
  exact h.wired.congr hsig hshared hdeferred

theorem Wired.paths_stamp (h : Wired m names) :
    m.paths.map View.stamp = m.shared.map SharedPath.stamp := by
  have hne := h.peers_ne
  have huniform := h.uniform
  unfold paths
  cases hm : m.peers with
  | nil => exact absurd hm hne
  | cons p =>
    rw [hm] at huniform
    exact congrArg Prod.snd (huniform p (List.mem_cons_self ..))

theorem Wired.paths_eq_nil_iff (h : Wired m names) :
    m.paths = [] ↔ m.shared = [] := by
  have hstamp := congrArg List.length h.paths_stamp
  rw [List.length_map, List.length_map] at hstamp
  rw [← List.length_eq_zero_iff, ← List.length_eq_zero_iff, hstamp]

/-- The fields that attaching paths leaves as they are. -/
structure Kept (m m' : Multipath Addr) : Prop where
  defs : m'.defs = m.defs
  probers : m'.probers = m.probers
  nextPathID : m'.nextPathID = m.nextPathID

theorem Kept.refl (m : Multipath Addr) : Kept m m := ⟨rfl, rfl, rfl⟩

theorem Kept.trans {m'' : Multipath Addr} (h : Kept m m') (h' : Kept m' m'') :
    Kept m m'' :=
  ⟨h'.defs.trans h.defs, h'.probers.trans h.probers,
    h'.nextPathID.trans h.nextPathID⟩

@[simp] theorem probers_detach (m : Multipath Addr) :
    m.detach.probers = m.probers := by
  simp only [probers, Multipath.detach]
  cases m.peers <;> rfl

theorem Wired.detach (h : Wired m names) : Wired m.detach [] := by
  refine ⟨?_, ?_, nofun, nofun, .nil⟩
  · simpa [Multipath.detach] using h.peers_ne
  intro q hq
  obtain ⟨p, hp, rfl⟩ := List.mem_map.mp hq
  rw [probers_detach]
  exact Prod.ext (congrArg Prod.fst (h.uniform p hp) :) rfl

theorem Ok.detach_of (h : Ok m) (hwired : Wired m' names)
    (hdefs : m'.defs = m.defs) (hprobers : m'.probers = m.probers) :
    Ok m'.detach :=
  h.of_wired hdefs ((probers_detach m').trans hprobers) hwired.detach

/-! ## The next id -/

/-- The high-water mark: at least the old one, beyond every id, and no larger
than needed. -/
theorem foldl_raise (ids : List ℕ) (next : ℕ) :
    let raised := ids.foldl
      (fun next id => if next < id + 1 then id + 1 else next) next
    next ≤ raised ∧ (∀ id ∈ ids, id < raised) ∧
      ∀ b, next ≤ b → (∀ id ∈ ids, id < b) → raised ≤ b := by
  induction ids generalizing next with
  | nil => exact ⟨le_rfl, nofun, fun b h _ => h⟩
  | cons id ids ih =>
    obtain ⟨hle, hids, hleast⟩ := ih (if next < id + 1 then id + 1 else next)
    rw [List.foldl_cons]
    have hnext : next ≤ (if next < id + 1 then id + 1 else next) := by
      split <;> omega
    have hid : id < (if next < id + 1 then id + 1 else next) := by
      split <;> omega
    refine ⟨hnext.trans hle, ?_, ?_⟩
    · intro x hx
      rcases List.mem_cons.mp hx with rfl | hx
      · exact hid.trans_le hle
      · exact hids x hx
    intro b hb hall
    refine hleast b ?_ fun x hx => hall x (List.mem_cons_of_mem _ hx)
    have := hall id (List.mem_cons_self ..)
    split <;> omega

/-- What `Open` leaves: the membership as it was, aligned, with a next id that
is raised as far as the ids of the members need. -/
structure Reopened (m m' : Multipath Addr) : Prop where
  ok : Ok m'
  defs : m'.defs = m.defs
  probers : m'.probers = m.probers
  grows : m.nextPathID ≤ m'.nextPathID
  least : ∀ b, m.nextPathID ≤ b → (∀ pr ∈ m.probers, pr.pathID < b) →
    m'.nextPathID ≤ b

theorem Reopened.refl (h : Ok m) : Reopened m m :=
  ⟨h, rfl, rfl, le_rfl, fun _ hb _ => hb⟩

theorem Reopened.detach (h : Reopened m m') : Reopened m m'.detach :=
  ⟨h.ok.detach_of h.ok.wired rfl rfl, h.defs,
    (probers_detach m').trans h.probers, h.grows, h.least⟩

/-- The ids of the bound and the deferred paths are those of the probers. -/
theorem Ok.ids_in_use (h : Ok m) (hopen : m.shared ≠ []) (id : ℕ) :
    id ∈ m.paths.map View.id ++ m.deferred.map (·.prober.pathID) ↔
      ∃ pr ∈ m.probers, pr.pathID = id := by
  have hwired := h.wired_of_open hopen
  have hstamps : ∀ pr : Prober, pr ∈ m.paths.map View.stamp ↔
      pr ∈ m.shared.map SharedPath.stamp := by
    rw [hwired.paths_stamp]
    exact fun _ => Iff.rfl
  rw [List.mem_append, List.mem_map, List.mem_map]
  constructor
  · rintro (⟨v, hv, rfl⟩ | ⟨dp, hdp, rfl⟩)
    · obtain ⟨s, hs, heq⟩ :=
        List.mem_map.mp ((hstamps _).mp (List.mem_map_of_mem hv))
      exact ⟨v.stamp, heq ▸ hwired.stamped s hs, rfl⟩
    · exact ⟨dp.prober, (hwired.reserved dp hdp).1, rfl⟩
  rintro ⟨pr, hpr, rfl⟩
  have hname : pr.name ∈ m.memberNames := by
    rw [hwired.members.mem_iff, ← h.named]
    exact List.mem_map_of_mem hpr
  rcases List.mem_append.mp hname with hs | hdp
  · obtain ⟨s, hs, heq⟩ := List.mem_map.mp hs
    have hpr' : s.stamp = pr := h.prober_eq (hwired.stamped s hs) hpr heq
    obtain ⟨v, hv, hstamp⟩ :=
      List.mem_map.mp ((hstamps _).mpr (List.mem_map_of_mem hs))
    exact .inl ⟨v, hv, congrArg Prober.pathID (hstamp.trans hpr')⟩
  obtain ⟨dp, hdp, heq⟩ := List.mem_map.mp hdp
  obtain ⟨hmem, hname'⟩ := hwired.reserved dp hdp
  have hpr' := h.prober_eq hmem hpr (hname'.trans heq)
  exact .inr ⟨dp, hdp, congrArg Prober.pathID hpr'⟩

theorem Ok.raise (h : Ok m) (hopen : m.shared ≠ []) :
    Reopened m m.raiseNextPathID ∧
      ∀ pr ∈ m.probers, pr.pathID < m.raiseNextPathID.nextPathID := by
  obtain ⟨hle, hids, hleast⟩ := foldl_raise
    (m.paths.map View.id ++ m.deferred.map (·.prober.pathID)) m.nextPathID
  refine ⟨⟨?_, rfl, rfl, hle, ?_⟩, ?_⟩
  · exact h.congr rfl rfl rfl rfl
  · intro b hb hall
    refine hleast b hb fun id hid => ?_
    obtain ⟨pr, hpr, rfl⟩ := (h.ids_in_use hopen id).mp hid
    exact hall pr hpr
  · intro pr hpr
    exact hids _ ((h.ids_in_use hopen _).mpr ⟨pr, hpr, rfl⟩)

/-! ## Attaching one path -/

theorem probers_record (hne : m.peers ≠ []) (prober : Prober) :
    { m with peers := m.peers.map fun p => record p prober }.probers =
      m.probers ++ [prober] := by
  simp only [probers]
  cases hm : m.peers with
  | nil => exact absurd hm hne
  | cons => rfl

theorem Wired.record (h : Wired m names) (prober : Prober) :
    Wired { m with peers := m.peers.map fun p => record p prober } names := by
  have hprobers := probers_record h.peers_ne prober
  refine ⟨?_, ?_, ?_, ?_, h.members⟩
  · simpa using h.peers_ne
  · intro q hq
    obtain ⟨p, hp, rfl⟩ := List.mem_map.mp hq
    have hsig := h.uniform p hp
    rw [Peer.signature, Prod.mk.injEq] at hsig
    rw [hprobers, ← hsig.1, ← hsig.2]
    rfl
  · intro s hs
    rw [hprobers]
    exact List.mem_append_left _ (h.stamped s hs)
  intro dp hdp
  rw [hprobers]
  obtain ⟨hmem, hname⟩ := h.reserved dp hdp
  exact ⟨List.mem_append_left _ hmem, hname⟩

theorem Wired.notMem_views (h : Wired m names) {name : String}
    (hname : name ∉ m.shared.map SharedPath.name) :
    ∀ p ∈ m.peers, name ∉ p.paths.map View.name := by
  intro p hp hmem
  obtain ⟨v, hv, rfl⟩ := List.mem_map.mp hmem
  have hsig := h.uniform p hp
  rw [Peer.signature, Prod.mk.injEq] at hsig
  have hstamp : v.stamp ∈ m.shared.map SharedPath.stamp :=
    hsig.2 ▸ List.mem_map_of_mem hv
  obtain ⟨s, hs, heq⟩ := List.mem_map.mp hstamp
  exact hname (List.mem_map.mpr ⟨s, hs, congrArg Prober.name heq⟩)

theorem Wired.deferPath (h : Wired m names) (d : PathDef Addr) {prober : Prober}
    (hmem : prober ∈ m.probers) (hname : prober.name = d.name) :
    Wired { m with deferred := m.deferred ++ [⟨d, prober⟩] }
      (names ++ [d.name]) := by
  refine ⟨h.peers_ne, h.uniform, h.stamped, ?_, ?_⟩
  · intro dp hdp
    rcases List.mem_append.mp hdp with hdp | hdp
    · exact h.reserved dp hdp
    · rw [List.mem_singleton.mp hdp]
      exact ⟨hmem, hname⟩
  · simp only [memberNames, List.map_append, List.map_cons, List.map_nil]
    rw [← List.append_assoc]
    exact h.members.append_right _

variable [DecidableEq Addr]

@[simp] theorem signature_addView (m : Multipath Addr) (p : Peer Addr)
    (d : PathDef Addr) (id : ℕ) (now : Bond.Time) :
    (m.addView p d id now).signature =
      (p.probers, p.paths.map View.stamp ++ [⟨d.name, id⟩]) := by
  simp [Peer.signature, addView, seededView, View.stamp]

theorem primaryProbers_addView (m : Multipath Addr) (d : PathDef Addr) (id : ℕ)
    (now : Bond.Time) (ps : List (Peer Addr)) :
    probers.primaryProbers (ps.map fun p => m.addView p d id now) =
      probers.primaryProbers ps := by
  cases ps <;> rfl

variable {id : ℕ}

/-- A bound path joins: every peer gets a view of it. -/
theorem Wired.bindPath (h : Wired m names) (m₀ : Multipath Addr)
    (d : PathDef Addr) (now : Bond.Time)
    (hstamp : (⟨d.name, id⟩ : Prober) ∈ m.probers) :
    Wired { m with
      peers := m.peers.map fun p => m₀.addView p d id now
      shared := m.shared ++ [⟨d.name, id⟩] } (names ++ [d.name]) := by
  have hprobers : { m with
      peers := m.peers.map fun p => m₀.addView p d id now
      shared := m.shared ++ [(⟨d.name, id⟩ : SharedPath)] }.probers =
        m.probers :=
    primaryProbers_addView m₀ d id now m.peers
  refine ⟨?_, ?_, ?_, ?_, ?_⟩
  · simpa using h.peers_ne
  · intro q hq
    obtain ⟨p, hp, rfl⟩ := List.mem_map.mp hq
    have hsig := h.uniform p hp
    rw [Peer.signature, Prod.mk.injEq] at hsig
    rw [signature_addView, hprobers, hsig.1, hsig.2, List.map_append]
    rfl
  · intro s hs
    rw [hprobers]
    rcases List.mem_append.mp hs with hs | hs
    · exact h.stamped s hs
    · rwa [List.mem_singleton.mp hs]
  · rw [hprobers]
    exact h.reserved
  have hmid : (m.shared.map SharedPath.name ++ [d.name] ++
      m.deferred.map (·.path.name)).Perm (d.name :: m.memberNames) := by
    rw [List.append_assoc]
    exact List.perm_middle
  simp only [memberNames, List.map_append, List.map_cons, List.map_nil]
  exact hmid.trans ((h.members.cons _).trans
    (List.perm_append_singleton _ _).symm)

/-! ## Opening -/

variable {o : Outcomes} {i : ℕ} {d : PathDef Addr} {k : ℕ}
    {ps : List (Peer Addr)}

theorem openViews_ok {ps' : List (Peer Addr)}
    (h : m.openViews o i d id k ps = .ok ps') :
    ps' = ps.map fun p => m.addView p d id o.now := by
  induction ps generalizing k ps' with
  | nil =>
    cases h
    rfl
  | cons p ps ih =>
    simp only [openViews] at h
    split at h
    · cases h
    split at h
    · cases h
    split at h
    · cases h
    next rest hrest =>
      cases h
      rw [ih hrest, List.map_cons]

/-- One turn of `Open` binds or defers its path. -/
theorem Wired.openPath (h : Wired m names) {prober : Prober}
    (hprober : m.probers[i]? = some prober) (hname : prober.name = d.name)
    (hopen : m.openPath o i d = .ok m') :
    Wired m' (names ++ [d.name]) ∧ Kept m m' := by
  have hmem : prober ∈ m.probers := List.mem_of_getElem? hprober
  unfold Multipath.openPath at hopen
  split at hopen
  · cases hopen
  · rw [hprober] at hopen
    cases hopen
    exact ⟨h.deferPath d hmem hname, rfl, rfl, rfl⟩
  simp only [hprober, Option.map_some, Option.getD_some] at hopen
  split at hopen
  · cases hopen
  next peers hpeers =>
    cases hopen
    have hstamp : (⟨d.name, prober.pathID⟩ : Prober) ∈ m.probers := by
      rwa [← hname]
    rw [openViews_ok hpeers]
    exact ⟨h.bindPath _ d o.now hstamp, rfl,
      primaryProbers_addView m d prober.pathID o.now m.peers, rfl⟩

theorem Wired.openPaths {ds : List (PathDef Addr)} (h : Wired m names)
    (hnamed : (m.probers.drop i).map Prober.name = ds.map PathDef.name)
    (hopen : Multipath.openPaths o i ds m = .ok m') :
    Wired m' (names ++ ds.map PathDef.name) ∧ Kept m m' := by
  induction ds generalizing i m names with
  | nil =>
    cases hopen
    rw [List.map_nil, List.append_nil]
    exact ⟨h, .refl _⟩
  | cons d ds ih =>
    cases hdrop : m.probers.drop i with
    | nil =>
      rw [hdrop] at hnamed
      cases hnamed
    | cons prober rest =>
      rw [hdrop, List.map_cons, List.map_cons, List.cons.injEq] at hnamed
      have hprober : m.probers[i]? = some prober := by
        rw [← List.head?_drop, hdrop, List.head?_cons]
      have hrest : m.probers.drop (i + 1) = rest := by
        rw [← List.tail_drop, hdrop, List.tail_cons]
      simp only [Multipath.openPaths] at hopen
      split at hopen
      · cases hopen
      next m₁ hstep =>
        obtain ⟨hwired, hkept⟩ := h.openPath hprober hnamed.1 hstep
        obtain ⟨hwired', hkept'⟩ := ih hwired
          (by rw [hkept.probers, hrest]; exact hnamed.2) hopen
        refine ⟨?_, hkept.trans hkept'⟩
        rw [List.map_cons]
        simpa using hwired'

theorem Ok.openPaths (h : Ok m) (hclosed : m.shared = [])
    (hopen : Multipath.openPaths o 0 m.defs
      { m with deferred := [] } = .ok m') :
    Wired m' (m.defs.map PathDef.name) ∧ Kept m m' := by
  have hwired := h.wired
  rw [if_pos hclosed] at hwired
  have hnone : m.deferred = [] := by
    have hnil := hwired.members.eq_nil
    rw [memberNames, List.append_eq_nil_iff, List.map_eq_nil_iff,
      List.map_eq_nil_iff] at hnil
    exact hnil.2
  have hsame : { m with deferred := [] } = m := by rw [← hnone]
  rw [hsame] at hopen
  exact hwired.openPaths (i := 0) h.named hopen

/-- What a call of `Open` can do: nothing, or leave the bind closed, or open
it. -/
theorem openBind_cases (h : Ok m) (o : Outcomes) (adaptive : ℕ → Bool) :
    (∃ e, m.openBind o adaptive = (m, some e)) ∨
      (∃ m' e, m.openBind o adaptive = (m', some e) ∧ Reopened m m' ∧
        m'.shared = []) ∨
      ∃ m', m.openBind o adaptive = (m', none) ∧ Reopened m m' ∧
        ∀ pr ∈ m.probers, pr.pathID < m'.nextPathID := by
  unfold openBind
  split
  · exact .inl ⟨_, rfl⟩
  next hclosed =>
    rw [not_not, h.wired.paths_eq_nil_iff] at hclosed
    split
    · exact .inr (.inl ⟨m.detach, _, rfl, (Reopened.refl h).detach, rfl⟩)
    next m₁ hloop =>
      obtain ⟨hwired, hkept⟩ := h.openPaths hclosed hloop
      split
      · refine .inr (.inl ⟨m₁.detach, _, rfl, ?_, rfl⟩)
        exact ⟨h.detach_of hwired hkept.defs hkept.probers, hkept.defs,
          (probers_detach m₁).trans hkept.probers,
          hkept.nextPathID.ge, fun b hb _ => hkept.nextPathID.le.trans hb⟩
      next hopen =>
        rw [hwired.paths_eq_nil_iff] at hopen
        have hok := h.of_wired hkept.defs hkept.probers
          (by rwa [if_neg hopen])
        obtain ⟨hraised, hbeyond⟩ := hok.raise hopen
        have hreopened : Reopened m m₁.raiseNextPathID :=
          ⟨hraised.ok, hkept.defs, hkept.probers,
            hkept.nextPathID.ge.trans hraised.grows, fun b hb hall =>
              hraised.least b (hkept.nextPathID.le.trans hb)
                (hkept.probers ▸ hall)⟩
        split
        · refine .inr (.inr ⟨_, rfl, hreopened, ?_⟩)
          rwa [← hkept.probers]
        · exact .inr (.inl ⟨_, _, rfl, hreopened.detach, rfl⟩)

/-! ## Adding a path -/

variable {prober : ℕ → Option Prober} {attached : List (Peer Addr × Prober)}

theorem attachSharedPath_ok
    (h : m.attachSharedPath o d id prober k ps = .ok attached) :
    attached = (ps.zipIdx k).map fun p =>
      (m.addView p.1 d id o.now, (prober p.2).getD ⟨d.name, id⟩) := by
  induction ps generalizing k attached with
  | nil =>
    cases h
    rfl
  | cons p ps ih =>
    simp only [attachSharedPath, attachPeerPath] at h
    split at h
    · cases h
    next a ha =>
      split at h
      · cases h
      next rest hrest =>
        cases h
        split at ha
        · cases ha
        split at ha
        · cases ha
        · cases ha
          rw [ih hrest, List.zipIdx_cons, List.map_cons]

theorem map_fst_attachSharedPath
    (h : m.attachSharedPath o d id prober k ps = .ok attached) :
    attached.map Prod.fst = ps.map fun p => m.addView p d id o.now := by
  rw [attachSharedPath_ok h, List.map_map]
  conv_rhs => rw [← List.zipIdx_map_fst k ps, List.map_map]
  rfl

theorem map_record_attachSharedPath
    (h : m.attachSharedPath o d id (fun _ => none) k ps = .ok attached) :
    attached.map (fun a => record a.1 a.2) =
      ps.map fun p => record (m.addView p d id o.now) ⟨d.name, id⟩ := by
  rw [attachSharedPath_ok h, List.map_map]
  conv_rhs => rw [← List.zipIdx_map_fst k ps, List.map_map]
  rfl

theorem detach_addView {p : Peer Addr} {now : Bond.Time}
    (hfresh : d.name ∉ p.paths.map View.name) :
    detachPeerPathBound (m.addView p d id now) d.name = p := by
  have hpaths : Keyed.remove View.name d.name
      (p.paths ++ [m.seededView p d id now]) = p.paths :=
    Keyed.remove_append_self hfresh rfl
  simp only [detachPeerPathBound, addView, hpaths]

theorem attachSharedPath_error {ps' : List (Peer Addr)} {e : BindError}
    (hfresh : ∀ p ∈ ps, d.name ∉ p.paths.map View.name)
    (h : m.attachSharedPath o d id prober k ps = .error (e, ps')) :
    ps' = ps := by
  induction ps generalizing k ps' with
  | nil => cases h
  | cons p ps ih =>
    simp only [attachSharedPath, attachPeerPath] at h
    split at h
    next => cases h; rfl
    next a ha =>
      split at h
      next e' rest hrest =>
        cases h
        rw [ih (fun q hq => hfresh q (List.mem_cons_of_mem _ hq)) hrest]
        split at ha
        · cases ha
        split at ha
        · cases ha
        · cases ha
          rw [detach_addView (hfresh p (List.mem_cons_self ..))]
      next => cases h

/-- What a successful addition leaves: the new definition and its prober at the
end, everything else as it was. -/
structure Added (m : Multipath Addr) (d : PathDef Addr) (m' : Multipath Addr) :
    Prop where
  wired : Wired m' (m.defs.map PathDef.name ++ [d.name])
  isOpen : m.shared ≠ [] ∧ m'.shared ≠ []
  defs : m'.defs = m.defs ++ [d]
  probers : m'.probers = m.probers ++ [⟨d.name, m.nextPathID⟩]
  nextPathID : m'.nextPathID = m.nextPathID + 1
  fresh : d.name ∉ m.defs.map PathDef.name
  small : m.nextPathID ≤ 255

/-- What a call of `AddPath` can do: fail and change nothing, or add the
path. -/
theorem addPath_cases (h : Ok m) (o : Outcomes) (d : PathDef Addr) :
    (∃ e, m.addPath o d = (m, some e)) ∨
      ∃ m', m.addPath o d = (m', none) ∧ Added m d m' := by
  unfold addPath
  split
  · exact .inl ⟨_, rfl⟩
  next hopen =>
    rw [h.wired.paths_eq_nil_iff] at hopen
    have hwired := h.wired_of_open hopen
    split
    · exact .inl ⟨_, rfl⟩
    split
    · exact .inl ⟨_, rfl⟩
    split
    · exact .inl ⟨_, rfl⟩
    next hfresh =>
      split
      · exact .inl ⟨_, rfl⟩
      next hsmall =>
        have hrecord := hwired.record ⟨d.name, m.nextPathID⟩
        have hprobers := probers_record hwired.peers_ne ⟨d.name, m.nextPathID⟩
        have hlast : (⟨d.name, m.nextPathID⟩ : Prober) ∈
            { m with peers := m.peers.map fun p =>
              Multipath.record p ⟨d.name, m.nextPathID⟩ }.probers := by
          rw [hprobers]
          exact List.mem_append_right _ (List.mem_singleton_self _)
        split
        · exact .inl ⟨_, rfl⟩
        · split
          · exact .inl ⟨_, rfl⟩
          · refine .inr ⟨_, rfl, ?_⟩
            have hdefer := hrecord.deferPath d hlast rfl
            exact ⟨hdefer.congr rfl rfl rfl, ⟨hopen, hopen⟩, rfl, hprobers, rfl,
              hfresh, not_lt.mp hsmall⟩
        split
        next e peers herror =>
          have hnone : d.name ∉ m.shared.map SharedPath.name := by
            intro hmem
            exact hfresh (hwired.members.mem_iff.mp
              (List.mem_append_left _ hmem))
          have hsame := attachSharedPath_error (hwired.notMem_views hnone)
            herror
          rw [hsame]
          exact .inl ⟨_, rfl⟩
        next attached hattached =>
          have hpeers : attached.map (fun a => Multipath.record a.1 a.2) =
              (m.peers.map fun p =>
                Multipath.record p ⟨d.name, m.nextPathID⟩).map
                fun p => m.addView p d m.nextPathID o.now := by
            rw [map_record_attachSharedPath hattached, List.map_map]
            rfl
          rw [hpeers]
          refine .inr ⟨_, rfl, ?_⟩
          have hbind := hrecord.bindPath m d o.now hlast
          refine ⟨hbind.congr rfl rfl rfl, ⟨hopen, by simp⟩, rfl, ?_, rfl,
            hfresh, not_lt.mp hsmall⟩
          exact (primaryProbers_addView m d m.nextPathID o.now _).trans hprobers

end Multipath
end Wanbond.Bind
