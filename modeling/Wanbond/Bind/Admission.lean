import Wanbond.Bind.Alignment

/-!
# Membership over whole runs

The remaining operations keep the membership aligned too: removing a path, and
promoting deferred ones.  With the ids recorded as they are given out, this
yields the invariants of every run: no id is given twice, and a path keeps its
id for as long as it is a member.
-/

namespace Wanbond.Bind

open Wanbond.Support

variable {Addr : Type} {todo : List (DeferredPath Addr)}
  {dp : DeferredPath Addr}

namespace Multipath

/-! ## Removing a path -/

/-- Everything of one name is dropped. -/
def dropPath (m : Multipath Addr) (name : String) : Multipath Addr :=
  { m with
    defs := Keyed.remove PathDef.name name m.defs
    peers := m.peers.map fun p =>
      { p with
        paths := Keyed.remove View.name name p.paths
        probers := Keyed.remove Prober.name name p.probers }
    shared := Keyed.remove SharedPath.name name m.shared
    deferred := Keyed.remove (·.path.name) name m.deferred }

@[simp] theorem probers_dropPath (m : Multipath Addr) (name : String) :
    (m.dropPath name).probers = Keyed.remove Prober.name name m.probers := by
  simp only [probers, dropPath]
  cases m.peers <;> rfl

variable {m : Multipath Addr} {name : String}

theorem memberNames_dropPath (hnodup : m.memberNames.Nodup) :
    (m.dropPath name).memberNames = m.memberNames.erase name := by
  simp only [memberNames, dropPath, Keyed.map_key_remove]
  by_cases hmem : name ∈ m.shared.map SharedPath.name
  · have hnot : name ∉ m.deferred.map (·.path.name) := fun hmem' =>
      List.disjoint_of_nodup_append hnodup hmem hmem'
    rw [List.erase_append_left _ hmem, List.erase_of_not_mem hnot]
  · rw [List.erase_append_right _ hmem, List.erase_of_not_mem hmem]

theorem signature_dropPath {p : Peer Addr} {probers stamps : List Prober}
    (h : p.signature = (probers, stamps)) (name : String) :
    Peer.signature { p with
      paths := Keyed.remove View.name name p.paths
      probers := Keyed.remove Prober.name name p.probers } =
      (Keyed.remove Prober.name name probers,
        Keyed.remove Prober.name name stamps) := by
  rw [Peer.signature, Prod.mk.injEq] at h
  have hviews : (Keyed.remove View.name name p.paths).map View.stamp =
      Keyed.remove Prober.name name (p.paths.map View.stamp) := by
    refine Keyed.map_remove ?_ name p.paths
    exact fun _ => rfl
  rw [Peer.signature, hviews, h.1, h.2]

variable {names : List String}

theorem Wired.dropPath (h : Wired m names) (hnodup : names.Nodup)
    (name : String) : Wired (m.dropPath name) (names.erase name) := by
  have hmembers : m.memberNames.Nodup := h.members.nodup_iff.mpr hnodup
  refine ⟨?_, ?_, ?_, ?_, ?_⟩
  · simpa [Multipath.dropPath] using h.peers_ne
  · intro q hq
    obtain ⟨p, hp, rfl⟩ := List.mem_map.mp hq
    have hsockets :
        (Keyed.remove SharedPath.name name m.shared).map SharedPath.stamp =
          Keyed.remove Prober.name name (m.shared.map SharedPath.stamp) := by
      refine Keyed.map_remove ?_ name m.shared
      exact fun _ => rfl
    rw [probers_dropPath]
    exact (signature_dropPath (h.uniform p hp) name).trans
      (congrArg _ hsockets.symm)
  · intro s hs
    have hname : s.name ≠ name := Keyed.key_of_mem_remove hmembers.of_append_left hs
    rw [probers_dropPath]
    exact Keyed.mem_remove_of_ne (h.stamped s (Keyed.mem_of_mem_remove hs)) hname
  · intro dp hdp
    have hname : dp.path.name ≠ name :=
      Keyed.key_of_mem_remove hmembers.of_append_right hdp
    obtain ⟨hmem, heq⟩ := h.reserved dp (Keyed.mem_of_mem_remove hdp)
    rw [probers_dropPath]
    exact ⟨Keyed.mem_remove_of_ne hmem (heq ▸ hname), heq⟩
  · rw [memberNames_dropPath hmembers]
    exact h.members.erase name

theorem Ok.dropPath (h : Ok m) (hopen : m.shared ≠ [])
    (hremains : (m.dropPath name).shared ≠ []) : Ok (m.dropPath name) := by
  have hwired := h.wired_of_open hopen
  have hdefs : (m.dropPath name).defs.map PathDef.name =
      (m.defs.map PathDef.name).erase name := Keyed.map_key_remove name m.defs
  refine ⟨?_, ?_, ?_, ?_⟩
  · rw [if_neg hremains, hdefs]
    exact hwired.dropPath h.names_nodup name
  · rw [hdefs, probers_dropPath, Keyed.map_key_remove, h.named]
  · rw [hdefs]
    exact h.names_nodup.erase name
  · rw [probers_dropPath]
    exact h.ids_nodup.sublist ((List.eraseP_sublist ..).map _)

/-- The durable membership loses one name, if the probers are aligned. -/
theorem removeDurable_eq [DecidableEq Addr] {i : ℕ}
    (hnamed : ∀ p ∈ m.peers,
      p.probers.map Prober.name = m.defs.map PathDef.name)
    (hi : m.defs.findIdx? (fun d => d.name = name) = some i) :
    m.removeDurable i name =
      ({ m with
        defs := Keyed.remove PathDef.name name m.defs
        peers := m.peers.map fun p =>
          { p with probers := Keyed.remove Prober.name name p.probers }
        deferred := Keyed.remove (·.path.name) name m.deferred }, none) := by
  have hlen : ¬ ∃ p ∈ m.peers, p.probers.length ≠ m.defs.length := by
    rintro ⟨p, hp, hne⟩
    have hlen := congrArg List.length (hnamed p hp)
    rw [List.length_map, List.length_map] at hlen
    exact hne hlen
  have hpeers : ∀ p ∈ m.peers,
      p.probers.eraseIdx i = Keyed.remove Prober.name name p.probers := by
    intro p hp
    refine Keyed.eraseIdx_eq_remove ?_
    rwa [Keyed.findIdx?_congr (hnamed p hp)]
  rw [removeDurable, if_neg hlen, Keyed.eraseIdx_eq_remove hi]
  congr 2
  refine List.map_congr_left fun p hp => ?_
  rw [hpeers p hp]

theorem Ok.peer_named (h : Ok m) :
    ∀ p ∈ m.peers, p.probers.map Prober.name = m.defs.map PathDef.name := by
  intro p hp
  have hsig := h.wired.uniform p hp
  rw [Peer.signature, Prod.mk.injEq] at hsig
  rw [hsig.1]
  exact h.named

/-- What a call of `RemovePath` can do: fail and change nothing, or drop the
path. -/
theorem removePath_cases [DecidableEq Addr] (h : Ok m) (name : String) :
    (∃ e, m.removePath name = (m, some e)) ∨
      m.removePath name = (m.dropPath name, none) ∧ m.shared ≠ [] ∧
        (m.dropPath name).shared ≠ [] := by
  unfold removePath
  split
  · exact .inl ⟨_, rfl⟩
  next hopen =>
    rw [h.wired.paths_eq_nil_iff] at hopen
    split
    · exact .inl ⟨_, rfl⟩
    next i hi =>
      split
      next hdeferred =>
        -- no socket and no view has the name
        have hresult : m.removeDurable i name = (m.dropPath name, none) := by
          rw [removeDurable_eq h.peer_named hi, Multipath.dropPath,
            Keyed.remove_of_notMem hdeferred]
          congr 2
          refine List.map_congr_left fun p hp => ?_
          rw [Keyed.remove_of_notMem (h.wired.notMem_views hdeferred p hp)]
        refine .inr ⟨hresult, hopen, ?_⟩
        rwa [Multipath.dropPath, Keyed.remove_of_notMem hdeferred]
      next hbound =>
        split
        · exact .inl ⟨_, rfl⟩
        next hlast =>
          refine .inr ⟨?_, hopen, ?_⟩
          · rw [removeDurable_eq]
            · simp only [List.map_map, Multipath.dropPath]
              rfl
            · intro q hq
              obtain ⟨p, hp, rfl⟩ := List.mem_map.mp hq
              exact h.peer_named p hp
            · exact hi
          obtain ⟨s, hs, hname⟩ := List.mem_map.mp (not_not.mp hbound)
          have hlen : (Keyed.remove SharedPath.name name m.shared).length =
              m.shared.length - 1 :=
            List.length_eraseP_of_mem hs (decide_eq_true hname)
          have hpos := List.length_pos_iff.mpr hopen
          refine List.ne_nil_of_length_pos (?_ : 0 < List.length
            (Keyed.remove SharedPath.name name m.shared))
          omega

/-! ## Promoting deferred paths -/

variable {kept : List (DeferredPath Addr)}

/-- A deferred path leaves the deferred ones and is bound. -/
theorem Wired.promote [DecidableEq Addr]
    (h : Wired { m with deferred := kept ++ dp :: todo } names) {id : ℕ}
    (hstamp : (⟨dp.path.name, id⟩ : Prober) ∈ m.probers) (now : Bond.Time) :
    Wired { m with
      peers := m.peers.map fun p => m.addView p dp.path id now
      shared := m.shared ++ [⟨dp.path.name, id⟩]
      deferred := kept ++ todo } names := by
  have hless : Wired { m with deferred := kept ++ todo }
      (m.shared.map SharedPath.name ++ (kept ++ todo).map (·.path.name)) := by
    refine ⟨h.peers_ne, h.uniform, h.stamped, fun dp' hdp' => ?_, .refl _⟩
    refine h.reserved dp' ?_
    rcases List.mem_append.mp hdp' with hmem | hmem
    · exact List.mem_append_left _ hmem
    · exact List.mem_append_right _ (List.mem_cons_of_mem _ hmem)
  obtain ⟨hne, huniform, hstamped, hreserved, hmembers⟩ :=
    hless.bindPath m dp.path now hstamp
  refine ⟨hne, huniform, hstamped, hreserved, hmembers.trans ?_⟩
  refine List.Perm.trans ?_ h.members
  simp only [memberNames, List.map_append, List.map_cons, List.append_assoc]
  refine List.Perm.append_left _ (List.Perm.append_left _ ?_)
  exact List.perm_append_singleton _ _

theorem prober_name_of_findIdx {i : ℕ} {prober : Prober}
    (hnamed : m.probers.map Prober.name = m.defs.map PathDef.name)
    (hi : m.defs.findIdx? (fun d => d.name = name) = some i)
    (hprober : m.probers[i]? = some prober) : prober.name = name := by
  obtain ⟨hlt, hname, -⟩ := List.findIdx?_eq_some_iff_getElem.mp hi
  have hget : (m.probers.map Prober.name)[i]? = some (m.defs[i].name) := by
    rw [hnamed, List.getElem?_map, List.getElem?_eq_getElem hlt]
    rfl
  rw [List.getElem?_map, hprober] at hget
  exact (Option.some.inj hget).trans (of_decide_eq_true hname)

/-- What a promotion can do, where `kept` and `todo` are the deferred paths on
either side of it: fail and change nothing, or bind the path. -/
theorem promoteDeferred_cases [DecidableEq Addr]
    (h : Wired { m with deferred := kept ++ dp :: todo } names)
    (hnodup : names.Nodup)
    (hnamed : m.probers.map Prober.name = m.defs.map PathDef.name)
    (o : Outcomes) :
    (∃ e, m.promoteDeferred o dp = (m, some e)) ∨
      ∃ m', m.promoteDeferred o dp = (m', none) ∧
        Wired { m' with deferred := kept ++ todo } names ∧ Kept m m' ∧
        m'.shared ≠ [] := by
  unfold promoteDeferred
  split
  · exact .inl ⟨_, rfl⟩
  next i hi =>
    split
    · exact .inl ⟨_, rfl⟩
    split
    · exact .inl ⟨_, rfl⟩
    next prober hprober =>
      have hmembers := h.members.nodup_iff.mpr hnodup
      have hunbound : dp.path.name ∉ m.shared.map SharedPath.name := by
        intro hmem
        refine List.disjoint_of_nodup_append hmembers hmem ?_
        simp
      split
      next e peers herror =>
        have hsame := attachSharedPath_error
          (fun p hp => h.notMem_views hunbound p hp) herror
        rw [hsame]
        exact .inl ⟨_, rfl⟩
      next attached hattached =>
        have hname := prober_name_of_findIdx hnamed hi hprober
        have hstamp : (⟨dp.path.name, prober.pathID⟩ : Prober) ∈ m.probers := by
          rw [← hname]
          exact List.mem_of_getElem? hprober
        rw [map_fst_attachSharedPath hattached]
        refine .inr ⟨_, rfl, h.promote hstamp o.now, ⟨rfl, ?_, rfl⟩, ?_⟩
        · exact primaryProbers_addView m dp.path prober.pathID o.now m.peers
        · simp

/-- The loop over the deferred paths, between those it has kept and those it
has not reached. -/
theorem reconcileLoop_wired [DecidableEq Addr] (hnodup : names.Nodup)
    (o : Outcomes) {rest : List (DeferredPath Addr)}
    (h : Wired { m with deferred := kept ++ todo ++ rest } names)
    (hnamed : m.probers.map Prober.name = m.defs.map PathDef.name) :
    let r := reconcileLoop o todo m
    Wired { r.1 with deferred := kept ++ r.2 ++ rest } names ∧ Kept m r.1 ∧
      (m.shared ≠ [] → r.1.shared ≠ []) := by
  induction todo generalizing kept m with
  | nil => exact ⟨h, .refl m, id⟩
  | cons dp todo ih =>
    -- the path stays deferred, with the bind as it was
    have hstay : let r := reconcileLoop o todo m
        Wired { r.1 with deferred := kept ++ dp :: r.2 ++ rest } names ∧
          Kept m r.1 ∧ (m.shared ≠ [] → r.1.shared ≠ []) := by
      have hnext : Wired { m with deferred := (kept ++ [dp]) ++ todo ++ rest }
          names := by
        simpa using h
      simpa using ih hnext hnamed
    have hhere : Wired { m with deferred := kept ++ dp :: (todo ++ rest) }
        names := by
      simpa using h
    simp only [reconcileLoop]
    split
    · obtain ⟨e, heq⟩ | ⟨m', heq, hwired, hkept, hne⟩ :=
        promoteDeferred_cases hhere hnodup hnamed o
      · rw [heq]
        exact hstay
      · rw [heq]
        have hwired' : Wired { m' with deferred := kept ++ todo ++ rest }
            names := by
          simpa using hwired
        obtain ⟨hend, hkept', hopen⟩ := ih hwired'
          (by rw [hkept.probers, hkept.defs]; exact hnamed)
        exact ⟨hend, hkept.trans hkept', fun _ => hopen hne⟩
    · exact hstay

/-- A reconciliation keeps the membership, and an open bind open. -/
theorem Ok.reconcileDeferred [DecidableEq Addr] (h : Ok m) (o : Outcomes) :
    Ok (m.reconcileDeferred o) ∧ Kept m (m.reconcileDeferred o) ∧
      (m.shared = [] ↔ (m.reconcileDeferred o).shared = []) := by
  unfold Multipath.reconcileDeferred
  split
  · exact ⟨h, .refl m, Iff.rfl⟩
  next hne =>
    have hopen : m.shared ≠ [] :=
      fun hnil => hne (.inl (h.wired.paths_eq_nil_iff.mpr hnil))
    have hstart : Wired { m with deferred := [] ++ m.deferred ++ [] }
        (m.defs.map PathDef.name) := by
      simpa using h.wired_of_open hopen
    obtain ⟨hend, hkept, hstill⟩ :=
      reconcileLoop_wired h.names_nodup o hstart h.named
    rw [List.nil_append, List.append_nil] at hend
    have hstill' := hstill hopen
    exact ⟨h.of_wired hkept.defs hkept.probers (by rwa [if_neg hstill']),
      ⟨hkept.defs, hkept.probers, hkept.nextPathID⟩,
      iff_of_false hopen hstill'⟩

/-! ## Changes of remotes -/

/-- The membership of two binds is the same: they differ in remotes only. -/
structure SameMembership (m m' : Multipath Addr) : Prop where
  signatures : m'.peers.map Peer.signature = m.peers.map Peer.signature
  shared : m'.shared = m.shared
  deferred : m'.deferred = m.deferred
  defs : m'.defs = m.defs
  nextPathID : m'.nextPathID = m.nextPathID

theorem SameMembership.refl (m : Multipath Addr) : SameMembership m m :=
  ⟨rfl, rfl, rfl, rfl, rfl⟩

theorem map_modify_of_eq {α β : Type} {g : α → β} {f : α → α}
    (h : ∀ x, g (f x) = g x) (l : List α) (i : ℕ) :
    (l.modify i f).map g = l.map g := by
  refine List.ext_getElem? fun j => ?_
  rw [List.getElem?_map, List.getElem?_map, List.getElem?_modify]
  cases l[j]? with
  | none => rfl
  | some x =>
    simp only [Option.map_eq_map, Option.map_some]
    split <;> simp [h]

theorem signature_mapViews (p : Peer Addr) {f : View Addr → View Addr}
    (h : ∀ v, (f v).stamp = v.stamp) :
    Peer.signature { p with paths := p.paths.map f } = p.signature := by
  simp only [Peer.signature, List.map_map, Prod.mk.injEq, true_and]
  exact List.map_congr_left fun v _ => h v

theorem signature_repoint (p : Peer Addr) (ap : Addr) (now : Bond.Time) :
    (repoint p ap now).signature = p.signature :=
  signature_mapViews p fun _ => rfl

section Remotes

variable [DecidableEq Addr]

theorem sameMembership_seedEdgePeerRemotes (m : Multipath Addr)
    (remotes : List (Option Addr)) :
    SameMembership m (m.seedEdgePeerRemotes remotes).1 := by
  unfold seedEdgePeerRemotes
  split
  · exact .refl m
  next hlen =>
    refine ⟨?_, rfl, rfl, rfl, rfl⟩
    refine List.ext_getElem? fun j => ?_
    have hboth : j < m.peers.length ↔ j < remotes.length := by omega
    rw [List.getElem?_map, List.getElem?_map, List.getElem?_zipWith]
    cases hp : m.peers[j]? with
    | none => rfl
    | some p =>
      have hlt : j < remotes.length :=
        hboth.mp (List.getElem?_eq_some_iff.mp hp).1
      rw [List.getElem?_eq_getElem hlt]
      rfl

omit [DecidableEq Addr] in
theorem sameMembership_setPeerRemote (m : Multipath Addr) (ap : Addr)
    (now : Bond.Time) : SameMembership m (m.setPeerRemote ap now) :=
  ⟨map_modify_of_eq (fun p => signature_repoint p ap now) m.peers 0, rfl, rfl,
    rfl, rfl⟩

theorem sameMembership_setPeerRemoteFor (m : Multipath Addr) (name : String)
    (ap : Addr) (now : Bond.Time) :
    SameMembership m (m.setPeerRemoteFor name ap now).1 := by
  obtain ⟨e, heq⟩ | ⟨i, p, heq, -, hp, -⟩ :=
    m.setPeerRemoteFor_cases name ap now
  · rw [heq]
    exact .refl _
  rw [heq]
  refine ⟨?_, rfl, rfl, rfl, rfl⟩
  have hget : (m.peers.map Peer.signature)[i]? = some p.signature := by
    rw [List.getElem?_map, hp, Option.map_some]
  simp only [switchTo, List.map_set]
  rw [show Peer.signature { repoint p ap now with configuredRemote := some ap }
    = p.signature from signature_repoint p ap now]
  obtain ⟨hlt, hsig⟩ := List.getElem?_eq_some_iff.mp hget
  rw [← hsig]
  exact List.set_getElem_self hlt

theorem sameMembership_parseEndpoint (m : Multipath Addr) (ap : Addr)
    (now : Bond.Time) : SameMembership m (m.parseEndpoint ap now).1 := by
  refine ⟨map_modify_of_eq (fun p => ?_) m.peers _, rfl, rfl, rfl, rfl⟩
  refine signature_mapViews p fun v => ?_
  split <;> rfl

omit [DecidableEq Addr] in
theorem sameMembership_learn (m : Multipath Addr) (i : ℕ) (name : String)
    (key : ℕ) (ap : Addr) (now : Bond.Time) :
    SameMembership m (m.learn i name key ap now) := by
  refine ⟨map_modify_of_eq (fun p => ?_) m.peers i, rfl, rfl, rfl, rfl⟩
  refine signature_mapViews p fun v => ?_
  split <;> rfl

end Remotes

/-- What a step can do to the membership, apart from the calls that may add,
remove or open. -/
structure Settled (m m' : Multipath Addr) : Prop where
  ok : Ok m'
  kept : Kept m m'
  closed : m.shared = [] → m'.shared = []

theorem Ok.settled_of_same {m' : Multipath Addr} (h : Ok m)
    (hsame : SameMembership m m') : Settled m m' := by
  refine ⟨h.congr hsame.signatures hsame.shared hsame.deferred hsame.defs,
    ⟨hsame.defs, probers_eq_of_signature hsame.signatures, hsame.nextPathID⟩, ?_⟩
  rw [hsame.shared]
  exact id

end Multipath

/-! ## Histories -/

/-- A bind with what its history has seen: whether it has been open, and the ids
given out so far. -/
structure History (Addr : Type) where
  bind : Multipath Addr
  opened : Bool
  admitted : List ℕ

namespace History

open Multipath

def boot (s : Setup Addr) : History Addr :=
  ⟨s.boot, false, s.boot.probers.map Prober.pathID⟩

structure Ok (w : History Addr) : Prop where
  bind : w.bind.Ok
  recorded : ∀ pr ∈ w.bind.probers, pr.pathID ∈ w.admitted
  nodup : w.admitted.Nodup
  small : ∀ id ∈ w.admitted, id < 256
  next_le : w.bind.nextPathID ≤ 256
  below : w.opened = true → ∀ id ∈ w.admitted, id < w.bind.nextPathID
  unopened : w.opened = false → w.bind.shared = [] ∧
    ∀ id ∈ w.admitted, ∃ pr ∈ w.bind.probers, pr.pathID = id

theorem probers_boot (s : Setup Addr) :
    s.boot.probers = buildProbers s.paths := by
  have hne := s.peers_ne
  simp only [Setup.boot, Multipath.probers]
  cases hp : s.peers with
  | nil => exact absurd hp hne
  | cons => rfl

theorem map_name_buildProbers (paths : List (PathDef Addr)) :
    (buildProbers paths).map Prober.name = paths.map PathDef.name := by
  rw [buildProbers, List.map_map]
  conv_rhs => rw [← List.zipIdx_map_fst 0 paths, List.map_map]
  rfl

theorem map_pathID_buildProbers (paths : List (PathDef Addr)) :
    (buildProbers paths).map Prober.pathID = List.range paths.length := by
  rw [buildProbers, List.map_map, List.range_eq_range']
  exact List.zipIdx_map_snd 0 paths

theorem ok_boot (s : Setup Addr) : (boot s).Ok := by
  have hids : s.boot.probers.map Prober.pathID = List.range s.paths.length := by
    rw [probers_boot, map_pathID_buildProbers]
  refine ⟨⟨?_, ?_, s.names_nodup, ?_⟩, ?_, ?_, ?_, Nat.zero_le _, nofun, ?_⟩
  · refine ⟨?_, ?_, nofun, nofun, .nil⟩
    · simpa [boot, Setup.boot] using s.peers_ne
    · intro q hq
      obtain ⟨p, -, rfl⟩ := List.mem_map.mp hq
      rw [show (boot s).bind.probers = buildProbers s.paths from probers_boot s]
      rfl
  · rw [show (boot s).bind.probers = buildProbers s.paths from probers_boot s]
    exact map_name_buildProbers s.paths
  · rw [show (boot s).bind.probers.map Prober.pathID = _ from hids]
    exact List.nodup_range
  · exact fun pr hpr => List.mem_map_of_mem hpr
  · rw [show (boot s).admitted = _ from hids]
    exact List.nodup_range
  · intro id hid
    rw [show (boot s).admitted = _ from hids, List.mem_range] at hid
    exact hid.trans_le s.paths_le
  · exact fun _ => ⟨rfl, fun id hid => List.mem_map.mp hid⟩

variable {w : History Addr}

theorem Ok.settled {w' : History Addr} (h : w.Ok) (hs : Settled w.bind w'.bind)
    (hopened : w'.opened = w.opened) (hadmitted : w'.admitted = w.admitted) :
    w'.Ok := by
  obtain ⟨hok, ⟨hdefs, hprobers, hnext⟩, hclosed⟩ := hs
  refine ⟨hok, ?_, ?_, ?_, ?_, ?_, ?_⟩
  · rw [hprobers, hadmitted]
    exact h.recorded
  · rw [hadmitted]
    exact h.nodup
  · rw [hadmitted]
    exact h.small
  · rw [hnext]
    exact h.next_le
  · rw [hopened, hadmitted, hnext]
    exact h.below
  · rw [hopened, hadmitted, hprobers]
    exact fun hun => ⟨hclosed (h.unopened hun).1, (h.unopened hun).2⟩

/-- The paths are bound anew, or stay closed. -/
theorem Ok.reopened (h : w.Ok) {m' : Multipath Addr}
    (hre : Reopened w.bind m') {opened : Bool}
    (hbelow : w.opened = false → opened = true →
      ∀ pr ∈ w.bind.probers, pr.pathID < m'.nextPathID)
    (hclosed : opened = false → w.opened = false ∧ m'.shared = []) :
    (⟨m', opened, w.admitted⟩ : History Addr).Ok := by
  refine ⟨hre.ok, hre.probers ▸ h.recorded, h.nodup, h.small, ?_,
    fun hop id hid => ?_, fun hun => ?_⟩
  · exact hre.least 256 h.next_le fun pr hpr => h.small _ (h.recorded pr hpr)
  · cases hold : w.opened with
    | true => exact (h.below hold id hid).trans_le hre.grows
    | false =>
      obtain ⟨pr, hpr, rfl⟩ := (h.unopened hold).2 id hid
      exact hbelow hold hop pr hpr
  · exact ⟨(hclosed hun).2, hre.probers ▸ (h.unopened (hclosed hun).1).2⟩

variable {pr : Prober}

theorem Ok.probers_eq (h : w.Ok) :
    ∀ p ∈ w.bind.peers, p.probers = w.bind.probers :=
  fun p hp => congrArg Prod.fst (h.bind.wired.uniform p hp)

theorem Ok.mem_probers (h : w.Ok) {p : Peer Addr} (hp : p ∈ w.bind.peers) :
    pr ∈ p.probers ↔ pr ∈ w.bind.probers := by
  rw [h.probers_eq p hp]

theorem nodup_snoc {α : Type} {l : List α} {a : α} (hl : l.Nodup)
    (ha : a ∉ l) : (l ++ [a]).Nodup :=
  hl.append (List.nodup_singleton a) (List.disjoint_singleton.mpr ha)

variable [DecidableEq Addr]

def step (w : History Addr) (e : Event Addr) : History Addr :=
  { bind := w.bind.step e
    opened :=
      match e with
      | .openBind o adaptive =>
        w.opened || decide ((w.bind.openBind o adaptive).2 = none)
      | _ => w.opened
    admitted :=
      match e with
      | .addPath o d =>
        if (w.bind.addPath o d).2 = none then
          w.admitted ++ [w.bind.nextPathID]
        else w.admitted
      | _ => w.admitted }

def run (w : History Addr) (events : List (Event Addr)) : History Addr :=
  events.foldl step w

/-- A call of `Open`. -/
theorem Ok.openBind (h : w.Ok) (o : Outcomes) (adaptive : ℕ → Bool) :
    (w.step (.openBind o adaptive)).Ok := by
  have hstep : ∀ {m' err}, w.bind.openBind o adaptive = (m', err) →
      w.step (.openBind o adaptive) =
        ⟨m', w.opened || decide (err = none), w.admitted⟩ := by
    intro m' err heq
    simp only [step, Multipath.step, heq]
  rcases openBind_cases h.bind o adaptive with ⟨e, heq⟩ |
    ⟨m', e, heq, hre, hclosed⟩ | ⟨m', heq, hre, hlt⟩
  · rw [hstep heq, decide_eq_false nofun, Bool.or_false]
    exact h
  · rw [hstep heq, decide_eq_false nofun, Bool.or_false]
    refine h.reopened hre (fun hun hop => ?_) fun hun => ⟨hun, hclosed⟩
    cases hun.symm.trans hop
  · rw [hstep heq, decide_eq_true rfl, Bool.or_true]
    exact h.reopened hre (fun _ _ => hlt) nofun

/-- A call of `AddPath`: the id it gives out is beyond all those given out
before. -/
theorem Ok.addPath (h : w.Ok) (o : Outcomes) (d : PathDef Addr) :
    (w.step (.addPath o d)).Ok := by
  obtain ⟨e, heq⟩ | ⟨m', heq, hadd⟩ := addPath_cases h.bind o d
  · have hstep : w.step (.addPath o d) = w := by
      simp [step, Multipath.step, heq]
    rwa [hstep]
  have hstep : w.step (.addPath o d) =
      ⟨m', w.opened, w.admitted ++ [w.bind.nextPathID]⟩ := by
    simp only [step, Multipath.step, heq, if_true]
  have hop : w.opened = true := by
    by_contra hun
    exact hadd.isOpen.1 (h.unopened (Bool.eq_false_iff.mpr hun)).1
  have hbelow := h.below hop
  have hnew : w.bind.nextPathID ∉ w.admitted :=
    fun hmem => absurd (hbelow _ hmem) (lt_irrefl _)
  rw [hstep]
  refine ⟨⟨?_, ?_, ?_, ?_⟩, ?_, nodup_snoc h.nodup hnew, ?_, ?_, ?_, ?_⟩
  · rw [if_neg hadd.isOpen.2, hadd.defs, List.map_append]
    exact hadd.wired
  · rw [hadd.probers, hadd.defs, List.map_append, List.map_append,
      h.bind.named]
    rfl
  · rw [hadd.defs, List.map_append]
    exact nodup_snoc h.bind.names_nodup hadd.fresh
  · rw [hadd.probers, List.map_append]
    refine nodup_snoc h.bind.ids_nodup fun hmem => ?_
    obtain ⟨pr, hpr, hid⟩ := List.mem_map.mp hmem
    have hid' : pr.pathID = w.bind.nextPathID := hid
    exact hnew (hid' ▸ h.recorded pr hpr)
  · rw [hadd.probers]
    refine List.forall_mem_append.mpr ⟨fun pr hpr => ?_,
      List.forall_mem_singleton.mpr ?_⟩
    · exact List.mem_append_left _ (h.recorded pr hpr)
    · exact List.mem_append_right _ (List.mem_singleton_self _)
  · exact List.forall_mem_append.mpr ⟨h.small,
      List.forall_mem_singleton.mpr (Nat.lt_succ_of_le hadd.small)⟩
  · rw [hadd.nextPathID]
    exact Nat.succ_le_succ hadd.small
  · rw [hadd.nextPathID]
    exact fun _ => List.forall_mem_append.mpr
      ⟨fun id hid => Nat.lt_succ_of_lt (hbelow id hid),
        List.forall_mem_singleton.mpr (Nat.lt_succ_self _)⟩
  · intro hun
    cases hun.symm.trans hop

/-- A call of `RemovePath`. -/
theorem Ok.removePath (h : w.Ok) (name : String) :
    (w.step (.removePath name)).Ok := by
  obtain ⟨e, heq⟩ | ⟨heq, hopen, hremains⟩ := removePath_cases h.bind name
  · have hstep : w.step (.removePath name) = w := by
      simp only [step, Multipath.step, heq]
    rwa [hstep]
  have hstep : w.step (.removePath name) =
      ⟨w.bind.dropPath name, w.opened, w.admitted⟩ := by
    simp only [step, Multipath.step, heq]
  rw [hstep]
  refine ⟨h.bind.dropPath hopen hremains, ?_, h.nodup, h.small, h.next_le,
    h.below, fun hun => absurd (h.unopened hun).1 hopen⟩
  rw [probers_dropPath]
  exact fun pr hpr => h.recorded pr (Keyed.mem_of_mem_remove hpr)

theorem ok_step (h : w.Ok) (e : Event Addr) : (w.step e).Ok := by
  have hsame : ∀ {m'}, SameMembership w.bind m' → Settled w.bind m' :=
    fun hs => h.bind.settled_of_same hs
  cases e with
  | openBind o adaptive => exact h.openBind o adaptive
  | addPath o d => exact h.addPath o d
  | removePath name => exact h.removePath name
  | close =>
    refine h.settled ⟨h.bind.detach_of h.bind.wired rfl rfl,
      ⟨rfl, probers_detach _, rfl⟩, fun _ => rfl⟩ rfl rfl
  | reconcileDeferred o =>
    obtain ⟨hok, hkept, hiff⟩ := h.bind.reconcileDeferred o
    exact h.settled ⟨hok, hkept, hiff.mp⟩ rfl rfl
  | seedEdgePeerRemotes =>
    exact h.settled (hsame (sameMembership_seedEdgePeerRemotes _ _)) rfl rfl
  | setPeerRemote =>
    exact h.settled (hsame (sameMembership_setPeerRemote _ _ _)) rfl rfl
  | setPeerRemoteFor =>
    exact h.settled (hsame (sameMembership_setPeerRemoteFor _ _ _ _)) rfl rfl
  | parseEndpoint =>
    exact h.settled (hsame (sameMembership_parseEndpoint _ _ _)) rfl rfl
  | learn =>
    exact h.settled (hsame (sameMembership_learn _ _ _ _ _ _)) rfl rfl

theorem ok_run (h : w.Ok) (events : List (Event Addr)) : (w.run events).Ok := by
  induction events generalizing w with
  | nil => exact h
  | cons e _ ih => exact ih (ok_step h e)

/-! ## A path keeps its id -/

/-- A step keeps the prober of every path that stays a member. -/
theorem prober_step (h : w.Ok) (e : Event Addr) (hpr : pr ∈ w.bind.probers)
    (hmember : pr.name ∈ (w.step e).bind.defs.map PathDef.name) :
    pr ∈ (w.step e).bind.probers := by
  have hsame : ∀ {m'}, SameMembership w.bind m' → pr ∈ m'.probers :=
    fun hs => (probers_eq_of_signature hs.signatures).symm ▸ hpr
  cases e with
  | openBind o adaptive =>
    rw [step, Multipath.step]
    rcases openBind_cases h.bind o adaptive with ⟨e, heq⟩ |
      ⟨m', e, heq, hre, -⟩ | ⟨m', heq, hre, -⟩
    · rwa [heq]
    · rwa [heq, hre.probers]
    · rwa [heq, hre.probers]
  | addPath o d =>
    rw [step, Multipath.step]
    obtain ⟨e, heq⟩ | ⟨m', heq, hadd⟩ := addPath_cases h.bind o d
    · rwa [heq]
    · rw [heq, hadd.probers]
      exact List.mem_append_left _ hpr
  | removePath name =>
    obtain ⟨e, heq⟩ | ⟨heq, -⟩ := removePath_cases h.bind name
    · simp only [step, Multipath.step, heq]
      exact hpr
    simp only [step, Multipath.step, heq] at hmember ⊢
    rw [probers_dropPath]
    refine Keyed.mem_remove_of_ne hpr ?_
    rintro rfl
    rw [show ((w.bind.dropPath pr.name).defs.map PathDef.name) = _ from
      Keyed.map_key_remove pr.name w.bind.defs] at hmember
    exact h.bind.names_nodup.not_mem_erase hmember
  | close => exact (probers_detach w.bind).symm ▸ hpr
  | reconcileDeferred o =>
    exact (h.bind.reconcileDeferred o).2.1.probers.symm ▸ hpr
  | seedEdgePeerRemotes =>
    exact hsame (sameMembership_seedEdgePeerRemotes _ _)
  | setPeerRemote => exact hsame (sameMembership_setPeerRemote _ _ _)
  | setPeerRemoteFor =>
    exact hsame (sameMembership_setPeerRemoteFor _ _ _ _)
  | parseEndpoint => exact hsame (sameMembership_parseEndpoint _ _ _)
  | learn => exact hsame (sameMembership_learn _ _ _ _ _ _)

/-- The path is a member after every step of the run. -/
def MemberThroughout (name : String) : History Addr → List (Event Addr) → Prop
  | _, [] => True
  | w, e :: events => name ∈ (w.step e).bind.defs.map PathDef.name ∧
      MemberThroughout name (w.step e) events

theorem prober_run (h : w.Ok) {events : List (Event Addr)}
    (hpr : pr ∈ w.bind.probers) (hmember : MemberThroughout pr.name w events) :
    pr ∈ (w.run events).bind.probers := by
  induction events generalizing w with
  | nil => exact hpr
  | cons e _ ih =>
    exact ih (ok_step h e) (prober_step h e hpr hmember.1) hmember.2

/-! ## The alignment of every run -/

/-- The membership of a bind after some history. -/
structure Aligned (w : History Addr) : Prop where
  /-- Every peer has one prober per definition, in the same order. -/
  probers : ∀ p ∈ w.bind.peers,
    p.probers.map Prober.name = w.bind.defs.map PathDef.name
  /-- While the bind is open, every definition is bound or deferred, and not
  both. -/
  partition : w.bind.paths ≠ [] →
    (w.bind.shared.map SharedPath.name ++
      w.bind.deferred.map (·.path.name)).Perm
        (w.bind.defs.map PathDef.name) ∧
    (w.bind.defs.map PathDef.name).Nodup
  /-- Every peer has one view of each bound path, under the path's id. -/
  views : ∀ p ∈ w.bind.peers,
    p.paths.map View.stamp = w.bind.shared.map SharedPath.stamp
  /-- The id of a bound path is that of its probers. -/
  stamped : ∀ s ∈ w.bind.shared, ∀ p ∈ w.bind.peers, s.stamp ∈ p.probers
  /-- From the first successful `Open` on, the ids are distinct and below the
  next one. -/
  ids : w.opened = true → ∀ p ∈ w.bind.peers,
    (p.probers.map Prober.pathID).Nodup ∧
      ∀ pr ∈ p.probers, pr.pathID < w.bind.nextPathID
  /-- No id has been given out twice, and the members have such ids. -/
  admitted : w.admitted.Nodup ∧
    ∀ p ∈ w.bind.peers, ∀ pr ∈ p.probers, pr.pathID ∈ w.admitted
  /-- A path keeps its id for as long as it is a member. -/
  keeps : ∀ (later : List (Event Addr)), ∀ p ∈ w.bind.peers, ∀ pr ∈ p.probers,
    MemberThroughout pr.name w later →
      ∀ q ∈ (w.run later).bind.peers, pr ∈ q.probers
  /-- A failed `AddPath` changes nothing. -/
  addPath_failed : ∀ (o : Outcomes) (d : PathDef Addr),
    (w.bind.addPath o d).2 ≠ none → (w.bind.addPath o d).1 = w.bind
  /-- A promotion that fails, after those of the deferred paths before it,
  changes nothing. -/
  promotion_failed : ∀ (o : Outcomes) (done todo : List (DeferredPath Addr))
    (dp : DeferredPath Addr), w.bind.paths ≠ [] →
    w.bind.deferred = done ++ dp :: todo →
    let m := (reconcileLoop o done w.bind).1
    (m.promoteDeferred o dp).2 ≠ none → (m.promoteDeferred o dp).1 = m

theorem Ok.promotion_failed (h : w.Ok) (o : Outcomes)
    {done : List (DeferredPath Addr)} (hopen : w.bind.paths ≠ [])
    (hdeferred : w.bind.deferred = done ++ dp :: todo)
    (hfail : ((reconcileLoop o done w.bind).1.promoteDeferred o dp).2 ≠ none) :
    ((reconcileLoop o done w.bind).1.promoteDeferred o dp).1 =
      (reconcileLoop o done w.bind).1 := by
  have hwired := h.bind.wired
  rw [if_neg (mt hwired.paths_eq_nil_iff.mpr hopen)] at hwired
  have hstart : Wired { w.bind with deferred := [] ++ done ++ dp :: todo }
      (w.bind.defs.map PathDef.name) := by
    rwa [List.nil_append, ← hdeferred]
  obtain ⟨hhere, hkept, -⟩ :=
    reconcileLoop_wired h.bind.names_nodup o hstart h.bind.named
  have hnamed : (reconcileLoop o done w.bind).1.probers.map Prober.name =
      (reconcileLoop o done w.bind).1.defs.map PathDef.name := by
    rw [hkept.probers, hkept.defs]
    exact h.bind.named
  obtain ⟨e, heq⟩ | ⟨m', heq, -⟩ :=
    promoteDeferred_cases hhere h.bind.names_nodup hnamed o
  · rw [heq]
  · rw [heq] at hfail
    exact absurd rfl hfail

/-- After every history of opening, closing, adding, removing and promoting
paths, with arbitrary outcomes of listening and of deriving codecs, and of
setting and learning remotes, the membership is aligned. -/
theorem membership_aligned (s : Setup Addr) (events : List (Event Addr)) :
    Aligned ((boot s).run events) := by
  have h : ((boot s).run events).Ok := ok_run (ok_boot s) events
  constructor
  case probers => exact h.bind.peer_named
  case partition =>
    intro hopen
    have hwired := h.bind.wired
    rw [if_neg (mt hwired.paths_eq_nil_iff.mpr hopen)] at hwired
    exact ⟨hwired.members, h.bind.names_nodup⟩
  case views =>
    exact fun p hp => congrArg Prod.snd (h.bind.wired.uniform p hp)
  case stamped =>
    exact fun s hs p hp => (h.mem_probers hp).mpr (h.bind.wired.stamped s hs)
  case ids =>
    intro hop p hp
    rw [h.probers_eq p hp]
    exact ⟨h.bind.ids_nodup, fun pr hpr => h.below hop _ (h.recorded pr hpr)⟩
  case admitted =>
    exact ⟨h.nodup, fun p hp pr hpr => h.recorded pr ((h.mem_probers hp).mp hpr)⟩
  case keeps =>
    intro later p hp pr hpr hmember q hq
    rw [(ok_run h later).mem_probers hq]
    exact prober_run h ((h.mem_probers hp).mp hpr) hmember
  case addPath_failed =>
    intro o d hfail
    obtain ⟨e, heq⟩ | ⟨m', heq, -⟩ := addPath_cases h.bind o d
    · rw [heq]
    · rw [heq] at hfail
      exact absurd rfl hfail
  case promotion_failed =>
    intro o done todo dp hopen hdeferred m hfail
    exact h.promotion_failed o hopen hdeferred hfail

end History
end Wanbond.Bind
