import Wanbond.Bind.Alignment

/-!
# Where the views of an edge send

An edge with several peers keeps, for each of them, a configured remote and the
reverse map from remotes to peers.  The operations on paths read these seeds and
never write them: they drop views and add freshly seeded ones.  From this follow
what keeps the reverse map exact, and how far the switch of one peer to another
hub survives closing and reopening the bind.
-/

namespace Wanbond.Bind

open Wanbond.Bond (Time)
open Wanbond.Support

variable {Addr : Type} [DecidableEq Addr]

namespace Multipath

/-! ## Operations on paths -/

/-- One peer after an operation on paths: its views are old ones, or views of
one of the definitions `D`, seeded from the state `m`. -/
structure GrownPeer (m : Multipath Addr) (D : PathDef Addr → Prop)
    (p p' : Peer Addr) : Prop where
  name : p'.name = p.name
  configuredRemote : p'.configuredRemote = p.configuredRemote
  views : ∀ v ∈ p'.paths, v ∈ p.paths ∨
    ∃ d id now, D d ∧ v = m.seededView p d id now

/-- What an operation on paths does to the remotes. -/
structure Grown (m : Multipath Addr) (D : PathDef Addr → Prop)
    (m' : Multipath Addr) : Prop where
  edge : m'.edgePeerByRemote = m.edgePeerByRemote
  default : m'.defaultRemote = m.defaultRemote
  length : m'.peers.length = m.peers.length
  peers : ∀ (j : ℕ) p', m'.peers[j]? = some p' → ∃ p, m.peers[j]? = some p ∧
    GrownPeer m D p p'

variable {m m' m'' : Multipath Addr} {D D' : PathDef Addr → Prop}
  {p p' : Peer Addr}

theorem GrownPeer.refl (m : Multipath Addr) (D : PathDef Addr → Prop)
    (p : Peer Addr) : GrownPeer m D p p :=
  ⟨rfl, rfl, fun _ hv => .inl hv⟩

theorem GrownPeer.addView (m : Multipath Addr) (p : Peer Addr)
    (d : PathDef Addr) (id : ℕ) (now : Time) :
    GrownPeer m (· = d) p (m.addView p d id now) := by
  refine ⟨rfl, rfl, fun v hv => ?_⟩
  rcases List.mem_append.mp hv with hv | hv
  · exact .inl hv
  · exact .inr ⟨d, id, now, rfl, List.mem_singleton.mp hv⟩

theorem GrownPeer.detach (h : GrownPeer m D p p') (name : String) :
    GrownPeer m D p (detachPeerPathBound p' name) :=
  ⟨h.name, h.configuredRemote,
    fun v hv => h.views v (Keyed.mem_of_mem_remove hv)⟩

theorem Grown.refl (m : Multipath Addr) (D : PathDef Addr → Prop) :
    Grown m D m :=
  ⟨rfl, rfl, rfl, fun _ p hp => ⟨p, hp, .refl m D p⟩⟩

theorem Grown.map {f : Peer Addr → Peer Addr} (hpeers : m'.peers = m.peers.map f)
    (hf : ∀ p, GrownPeer m D p (f p))
    (hedge : m'.edgePeerByRemote = m.edgePeerByRemote)
    (hdefault : m'.defaultRemote = m.defaultRemote) : Grown m D m' := by
  refine ⟨hedge, hdefault, by rw [hpeers, List.length_map], fun j p' hp' => ?_⟩
  rw [hpeers, List.getElem?_map] at hp'
  obtain ⟨p, hp, rfl⟩ := Option.map_eq_some_iff.mp hp'
  exact ⟨p, hp, hf p⟩

theorem seededView_congr (hedge : m'.edgePeerByRemote = m.edgePeerByRemote)
    (hdefault : m'.defaultRemote = m.defaultRemote)
    (hremote : p'.configuredRemote = p.configuredRemote) (d : PathDef Addr)
    (id : ℕ) (now : Time) :
    m'.seededView p' d id now = m.seededView p d id now := by
  simp only [seededView, seed, hedge, hdefault, hremote]

theorem Grown.trans (h : Grown m D m') (h' : Grown m' D m'') :
    Grown m D m'' := by
  refine ⟨h'.edge.trans h.edge, h'.default.trans h.default,
    h'.length.trans h.length, fun j p'' hp'' => ?_⟩
  obtain ⟨p', hp', hgrown'⟩ := h'.peers j p'' hp''
  obtain ⟨p, hp, hgrown⟩ := h.peers j p' hp'
  refine ⟨p, hp, hgrown'.name.trans hgrown.name,
    hgrown'.configuredRemote.trans hgrown.configuredRemote, fun v hv => ?_⟩
  rcases hgrown'.views v hv with hv | ⟨d, id, now, hd, rfl⟩
  · exact hgrown.views v hv
  · exact .inr ⟨d, id, now, hd,
      seededView_congr h.edge h.default hgrown.configuredRemote d id now⟩

theorem Grown.mono (h : Grown m D m') (hD : ∀ d, D d → D' d) :
    Grown m D' m' := by
  refine ⟨h.edge, h.default, h.length, fun j p' hp' => ?_⟩
  obtain ⟨p, hp, hgrown⟩ := h.peers j p' hp'
  refine ⟨p, hp, hgrown.name, hgrown.configuredRemote, fun v hv => ?_⟩
  rcases hgrown.views v hv with hv | ⟨d, id, now, hd, rfl⟩
  · exact .inl hv
  · exact .inr ⟨d, id, now, hD d hd, rfl⟩

theorem grown_detach (m : Multipath Addr) (D : PathDef Addr → Prop) :
    Grown m D m.detach :=
  Grown.map rfl (fun _ => ⟨rfl, rfl, nofun⟩) rfl rfl

variable {o : Outcomes} {i : ℕ}

theorem grown_openPath {d : PathDef Addr} (h : m.openPath o i d = .ok m') :
    Grown m (· = d) m' := by
  unfold openPath at h
  split at h
  · cases h
  · split at h
    · cases h
    · cases h
      exact ⟨rfl, rfl, rfl, fun _ p hp => ⟨p, hp, .refl m _ p⟩⟩
  dsimp only at h
  split at h
  · cases h
  next peers hpeers =>
    cases h
    exact Grown.map (openViews_ok hpeers)
      (fun p => .addView m p d _ o.now) rfl rfl

theorem grown_openPaths {ds : List (PathDef Addr)}
    (h : openPaths o i ds m = .ok m') : Grown m (· ∈ ds) m' := by
  induction ds generalizing i m with
  | nil =>
    cases h
    exact .refl _ _
  | cons d ds ih =>
    simp only [openPaths] at h
    split at h
    · cases h
    next m₁ hstep =>
      have hone : Grown m (· ∈ d :: ds) m₁ :=
        (grown_openPath hstep).mono fun d' hd' => hd' ▸ List.mem_cons_self ..
      exact hone.trans ((ih h).mono fun d' hd' => List.mem_cons_of_mem _ hd')

theorem grown_openBind (m : Multipath Addr) (o : Outcomes) (adaptive : ℕ → Bool) :
    Grown m (· ∈ m.defs) (m.openBind o adaptive).1 := by
  unfold openBind
  split
  · exact .refl m _
  split
  · exact grown_detach m _
  next m₁ hloop =>
    have hstart : Grown m (· ∈ m.defs) { m with deferred := [] } :=
      ⟨rfl, rfl, rfl, (Grown.refl m _).peers⟩
    have hgrown := hstart.trans (grown_openPaths hloop)
    split
    · exact hgrown.trans (grown_detach m₁ _)
    split
    · exact ⟨hgrown.edge, hgrown.default, hgrown.length, hgrown.peers⟩
    · have hdetach := grown_detach m₁ (· ∈ m.defs)
      exact hgrown.trans ⟨rfl, rfl, hdetach.length, hdetach.peers⟩

/-- The fan-out, and its rollback if it fails. -/
theorem attachSharedPath_grown {d : PathDef Addr} {id : ℕ}
    {prober : ℕ → Option Prober} {k : ℕ} {ps ps' : List (Peer Addr)}
    {e : BindError}
    (h : m.attachSharedPath o d id prober k ps = .error (e, ps')) :
    ps'.length = ps.length ∧
      ∀ (j : ℕ) p', ps'[j]? = some p' → ∃ p, ps[j]? = some p ∧
        GrownPeer m (· = d) p p' := by
  induction ps generalizing k ps' with
  | nil => cases h
  | cons p ps ih =>
    simp only [attachSharedPath, attachPeerPath] at h
    split at h
    next =>
      cases h
      exact ⟨rfl, fun j p' hp' => ⟨p', hp', .refl m _ p'⟩⟩
    next a ha =>
      split at h
      next e' rest hrest =>
        cases h
        have hfirst : a.1 = m.addView p d id o.now := by
          split at ha
          · cases ha
          split at ha
          · cases ha
          · cases ha
            rfl
        obtain ⟨hlen, hpeers⟩ := ih hrest
        refine ⟨congrArg (· + 1) hlen, fun j p' hp' => ?_⟩
        cases j with
        | zero =>
          cases hp'
          rw [hfirst]
          exact ⟨p, rfl, (GrownPeer.addView m p d id o.now).detach d.name⟩
        | succ j => exact hpeers j p' hp'
      next => cases h

theorem grown_promoteDeferred (m : Multipath Addr) (o : Outcomes)
    (dp : DeferredPath Addr) :
    Grown m (· = dp.path) (m.promoteDeferred o dp).1 := by
  unfold promoteDeferred
  split
  · exact .refl m _
  split
  · exact .refl m _
  split
  · exact .refl m _
  split
  next herror =>
    obtain ⟨hlen, hpeers⟩ := attachSharedPath_grown herror
    exact ⟨rfl, rfl, hlen, hpeers⟩
  next attached hattached =>
    exact Grown.map (map_fst_attachSharedPath hattached)
      (fun p => .addView m p dp.path _ o.now) rfl rfl

theorem grown_reconcileLoop (o : Outcomes) (todo : List (DeferredPath Addr))
    (m : Multipath Addr) :
    Grown m (fun d => ∃ dp ∈ todo, dp.path = d) (reconcileLoop o todo m).1 := by
  induction todo generalizing m with
  | nil => exact .refl m _
  | cons dp todo ih =>
    have hlater : ∀ m₁ : Multipath Addr,
        Grown m₁ (fun d => ∃ dp' ∈ dp :: todo, dp'.path = d)
          (reconcileLoop o todo m₁).1 := fun m₁ =>
      (ih m₁).mono fun d ⟨dp', hmem, heq⟩ =>
        ⟨dp', List.mem_cons_of_mem _ hmem, heq⟩
    have hone : Grown m (fun d => ∃ dp' ∈ dp :: todo, dp'.path = d)
        (m.promoteDeferred o dp).1 :=
      (grown_promoteDeferred m o dp).mono fun d hd =>
        ⟨dp, List.mem_cons_self .., hd.symm⟩
    simp only [reconcileLoop]
    split
    · split
      next m₁ e heq =>
        rw [heq] at hone
        exact hone.trans (hlater m₁)
      next m₁ heq =>
        rw [heq] at hone
        exact hone.trans (hlater m₁)
    · exact hlater m

theorem grown_reconcileDeferred (m : Multipath Addr) (o : Outcomes) :
    Grown m (fun d => ∃ dp ∈ m.deferred, dp.path = d)
      (m.reconcileDeferred o) := by
  unfold reconcileDeferred
  split
  · exact .refl m _
  · have hloop := grown_reconcileLoop o m.deferred m
    exact ⟨hloop.edge, hloop.default, hloop.length, hloop.peers⟩

theorem grown_removeDurable (m : Multipath Addr) (i : ℕ) (name : String)
    (D : PathDef Addr → Prop) : Grown m D (m.removeDurable i name).1 := by
  unfold removeDurable
  split
  · exact .refl m D
  · exact Grown.map rfl (fun _ => ⟨rfl, rfl, fun _ hv => .inl hv⟩) rfl rfl

theorem grown_removePath (m : Multipath Addr) (name : String)
    (D : PathDef Addr → Prop) : Grown m D (m.removePath name).1 := by
  unfold removePath
  split
  · exact .refl m D
  split
  · exact .refl m D
  split
  · exact grown_removeDurable m _ name D
  split
  · exact .refl m D
  · refine Grown.trans ?_ (grown_removeDurable _ _ name D)
    exact Grown.map rfl (fun p => (GrownPeer.refl m D p).detach name) rfl
      rfl

theorem grown_addPath (m : Multipath Addr) (o : Outcomes) (d : PathDef Addr) :
    Grown m (· = d) (m.addPath o d).1 := by
  unfold addPath
  repeat' split
  all_goals first | exact .refl m _ | skip
  · exact Grown.map rfl (fun _ => ⟨rfl, rfl, fun _ hv => .inl hv⟩) rfl rfl
  next herror =>
    obtain ⟨hlen, hpeers⟩ := attachSharedPath_grown herror
    exact ⟨rfl, rfl, hlen, hpeers⟩
  next attached hattached =>
    refine Grown.map (map_record_attachSharedPath hattached) (fun p => ?_) rfl
      rfl
    have hview := GrownPeer.addView m p d m.nextPathID o.now
    exact ⟨hview.name, hview.configuredRemote, hview.views⟩

/-! ## The map from remotes to peers -/

/-- The configured remote of the `i`-th peer. -/
def configured (m : Multipath Addr) (i : ℕ) : Option Addr :=
  (m.peers[i]?).bind Peer.configuredRemote

theorem Grown.configured_eq (h : Grown m D m') (i : ℕ) :
    m'.configured i = m.configured i := by
  unfold configured
  cases hp' : m'.peers[i]? with
  | none =>
    have hge : m.peers.length ≤ i := h.length ▸ List.getElem?_eq_none_iff.mp hp'
    rw [List.getElem?_eq_none hge]
  | some p' =>
    obtain ⟨p, hp, hgrown⟩ := h.peers i p' hp'
    rw [hp]
    exact hgrown.configuredRemote

/-- The map holds exactly the configured remotes, each with its peer. -/
def ExactMap (m : Multipath Addr) : Prop :=
  ∀ ap i, m.edgePeerByRemote.lookup ap = some i ↔ m.configured i = some ap

theorem lookup_recordRemote (remotes : List (Option Addr)) (k : ℕ)
    (edge : Finmap fun _ : Addr => ℕ) (ap : Addr) :
    (∃ j, remotes[j]? = some (some ap) ∧
      ((remotes.zipIdx k).foldl recordRemote edge).lookup ap = some (k + j)) ∨
    ((∀ j : ℕ, remotes[j]? ≠ some (some ap)) ∧
      ((remotes.zipIdx k).foldl recordRemote edge).lookup ap =
        edge.lookup ap) := by
  induction remotes generalizing k edge with
  | nil => exact .inr ⟨fun j => by simp, rfl⟩
  | cons r remotes ih =>
    rw [List.zipIdx_cons, List.foldl_cons]
    rcases ih (k + 1) (recordRemote edge (r, k)) with
      ⟨j, hj, hlookup⟩ | ⟨hnone, hlookup⟩
    · exact .inl ⟨j + 1, hj, by rw [hlookup]; congr 1; omega⟩
    rw [hlookup]
    by_cases hr : r = some ap
    · refine .inl ⟨0, by simp [hr], ?_⟩
      rw [hr]
      exact Finmap.lookup_insert edge
    refine .inr ⟨fun j => ?_, ?_⟩
    · cases j with
      | zero => simpa using hr
      | succ j => exact hnone j
    cases r with
    | none => rfl
    | some ap' =>
      have hne : ap ≠ ap' := fun h => hr (congrArg some h.symm)
      exact Finmap.lookup_insert_of_ne edge hne

/-- The remote that seeding gives the `i`-th peer. -/
def seeded (m : Multipath Addr) (remotes : List (Option Addr)) (i : ℕ) :
    Option Addr :=
  ((remotes[i]?).bind id).or (m.configured i)

variable {m : Multipath Addr}

theorem configured_seedEdgePeerRemotes {remotes : List (Option Addr)}
    (hlen : remotes.length = m.peers.length) (i : ℕ) :
    (m.seedEdgePeerRemotes remotes).1.configured i = m.seeded remotes i := by
  rw [seedEdgePeerRemotes, if_neg (not_not.mpr hlen)]
  simp only [configured, seeded, List.getElem?_zipWith]
  rcases lt_or_ge i m.peers.length with hlt | hge
  · rw [List.getElem?_eq_getElem hlt, List.getElem?_eq_getElem (hlen ▸ hlt)]
    rfl
  · rw [List.getElem?_eq_none hge, List.getElem?_eq_none (hlen ▸ hge)]
    rfl

/-- The remotes that a seeding leaves belong to one peer each, and include all
those that peers had before. -/
def SeedOk (m : Multipath Addr) (remotes : List (Option Addr)) : Prop :=
  (∀ i j ap, m.seeded remotes i = some ap → m.seeded remotes j = some ap →
    i = j) ∧
  ∀ i ap, m.configured i = some ap → ∃ j, m.seeded remotes j = some ap

/-- A seeding keeps an exact map exact under this condition, and only under
it. -/
theorem exactMap_seed_iff (h : ExactMap m) {remotes : List (Option Addr)}
    (hlen : remotes.length = m.peers.length) :
    ExactMap (m.seedEdgePeerRemotes remotes).1 ↔ m.SeedOk remotes := by
  have hconf := configured_seedEdgePeerRemotes hlen
  have hedge : (m.seedEdgePeerRemotes remotes).1.edgePeerByRemote =
      remotes.zipIdx.foldl recordRemote m.edgePeerByRemote := by
    rw [seedEdgePeerRemotes, if_neg (not_not.mpr hlen)]
  have hgiven : ∀ j ap, remotes[j]? = some (some ap) →
      m.seeded remotes j = some ap := by
    intro j ap hj
    simp [seeded, hj]
  -- a remote that no peer is given now is one that its peer had
  have hold : ∀ j ap, (∀ j : ℕ, remotes[j]? ≠ some (some ap)) →
      (m.seeded remotes j = some ap → m.configured j = some ap) := by
    intro j ap hnone hseeded
    unfold seeded at hseeded
    cases hr : (remotes[j]?).bind id with
    | none => rwa [hr, Option.none_or] at hseeded
    | some =>
      rw [hr, Option.some_or, Option.some.injEq] at hseeded
      obtain ⟨r, hr', hid⟩ := Option.bind_eq_some_iff.mp hr
      exact absurd (hr'.trans (congrArg some (hid.trans (congrArg some hseeded))))
        (hnone j)
  unfold ExactMap
  rw [hedge]
  simp only [hconf]
  constructor
  · intro hexact
    refine ⟨fun i j ap hi hj => ?_, fun i ap hi => ?_⟩
    · exact Option.some.inj
        (((hexact ap i).mpr hi).symm.trans ((hexact ap j).mpr hj))
    rcases lookup_recordRemote remotes 0 m.edgePeerByRemote ap with
      ⟨j, hj, -⟩ | ⟨-, hlookup⟩
    · exact ⟨j, hgiven j ap hj⟩
    · exact ⟨i, (hexact ap i).mp (hlookup.trans ((h ap i).mpr hi))⟩
  rintro ⟨hinj, hkeep⟩ ap i
  rcases lookup_recordRemote remotes 0 m.edgePeerByRemote ap with
    ⟨j, hj, hlookup⟩ | ⟨hnone, hlookup⟩
  · have hj' := hgiven j ap hj
    rw [hlookup, Nat.zero_add, Option.some.injEq]
    constructor
    · rintro rfl
      exact hj'
    · exact fun hi => hinj j i ap hj' hi
  rw [hlookup, h ap i]
  constructor
  · intro hi
    obtain ⟨j, hj⟩ := hkeep i ap hi
    have hj' := hold j ap hnone hj
    have hsame : j = i := Option.some.inj
      (((h ap j).mpr hj').symm.trans ((h ap i).mpr hi))
    exact hsame ▸ hj
  · exact hold i ap hnone

theorem lookup_releaseRemote (m : Multipath Addr) (p : Peer Addr)
    {ap ap' : Addr} (hne : ap' ≠ ap) :
    (m.releaseRemote p ap).lookup ap' =
      if p.configuredRemote = some ap' then none
      else m.edgePeerByRemote.lookup ap' := by
  unfold releaseRemote
  cases hold : p.configuredRemote with
  | none => simp
  | some old =>
    by_cases holdap : old = ap
    · subst holdap
      simp [Ne.symm hne]
    by_cases hsame : old = ap'
    · subst hsame
      simp [holdap]
    · simp [holdap, hsame, Finmap.lookup_erase_ne (Ne.symm hsame)]

theorem lookup_switchTo_self (m : Multipath Addr) (i : ℕ) (p : Peer Addr)
    (ap : Addr) (now : Time) :
    (m.switchTo i p ap now).edgePeerByRemote.lookup ap = some i :=
  Finmap.lookup_insert _

theorem lookup_switchTo_ne (m : Multipath Addr) (i : ℕ) (p : Peer Addr)
    {ap ap' : Addr} (hne : ap' ≠ ap) (now : Time) :
    (m.switchTo i p ap now).edgePeerByRemote.lookup ap' =
      if p.configuredRemote = some ap' then none
      else m.edgePeerByRemote.lookup ap' :=
  (Finmap.lookup_insert_of_ne _ hne).trans (m.lookup_releaseRemote p hne)

theorem peer_switchTo_self (hp : m.peers[i]? = some p) (ap : Addr) (now : Time) :
    (m.switchTo i p ap now).peers[i]? =
      some { repoint p ap now with configuredRemote := some ap } := by
  have hlt : i < m.peers.length := (List.getElem?_eq_some_iff.mp hp).1
  simp only [switchTo, List.getElem?_set_self hlt]

theorem peer_switchTo_ne (p : Peer Addr) {i j : ℕ} (hne : j ≠ i) (ap : Addr)
    (now : Time) : (m.switchTo i p ap now).peers[j]? = m.peers[j]? := by
  simp only [switchTo]
  exact List.getElem?_set_ne hne.symm

/-- A switch keeps an exact map exact: it is refused if another peer owns the
remote, and the old remote is released. -/
theorem exactMap_switchTo (h : ExactMap m) (hp : m.peers[i]? = some p)
    {ap : Addr} (hfree : m.ownedByOther i ap = none) (now : Time) :
    ExactMap (m.switchTo i p ap now) := by
  have hconfi : m.configured i = p.configuredRemote := by
    rw [configured, hp, Option.bind_some]
  have hself : (m.switchTo i p ap now).configured i = some ap := by
    rw [configured, peer_switchTo_self hp]
    rfl
  have hother : ∀ j, j ≠ i →
      (m.switchTo i p ap now).configured j = m.configured j := by
    intro j hj
    rw [configured, peer_switchTo_ne p hj, configured]
  have hunowned : ∀ j, j ≠ i → m.configured j ≠ some ap := by
    intro j hj hconf
    rw [ownedByOther, (h ap j).mpr hconf] at hfree
    simp [hj] at hfree
  intro ap' j
  by_cases hap : ap' = ap
  · subst hap
    rw [lookup_switchTo_self, Option.some.injEq]
    by_cases hj : j = i
    · subst hj
      simp [hself]
    · rw [hother j hj]
      exact iff_of_false (Ne.symm hj) (hunowned j hj)
  rw [lookup_switchTo_ne m i p hap]
  by_cases hj : j = i
  · subst hj
    rw [hself]
    refine iff_of_false ?_ (by simpa using Ne.symm hap)
    split
    · nofun
    next hne =>
      intro hlookup
      exact hne (hconfi ▸ (h ap' j).mp hlookup)
  rw [hother j hj]
  split
  next hold =>
    refine iff_of_false nofun fun hconf => hj ?_
    have hi := (h ap' i).mpr (hconfi.trans hold)
    exact Option.some.inj (((h ap' j).mpr hconf).symm.trans hi)
  next => exact h ap' j

theorem exactMap_setPeerRemoteFor (h : ExactMap m) (name : String) (ap : Addr)
    (now : Time) : ExactMap (m.setPeerRemoteFor name ap now).1 := by
  obtain ⟨e, heq⟩ | ⟨i, p, heq, -, hp, hfree⟩ :=
    m.setPeerRemoteFor_cases name ap now
  · rwa [heq]
  · rw [heq]
    exact exactMap_switchTo h hp hfree now

theorem ExactMap.congr {m m' : Multipath Addr} (h : ExactMap m)
    (hedge : m'.edgePeerByRemote = m.edgePeerByRemote)
    (hconf : ∀ i, m'.configured i = m.configured i) : ExactMap m' := by
  intro ap i
  rw [hedge, hconf]
  exact h ap i

theorem Grown.exactMap (h : Grown m D m') (hexact : ExactMap m) :
    ExactMap m' :=
  hexact.congr h.edge h.configured_eq

omit [DecidableEq Addr] in
theorem configured_modify {f : Peer Addr → Peer Addr} {k : ℕ}
    (hf : ∀ p, (f p).configuredRemote = p.configuredRemote) (i : ℕ) :
    ((m.peers.modify k f)[i]?).bind Peer.configuredRemote = m.configured i := by
  rw [configured, List.getElem?_modify]
  cases m.peers[i]? with
  | none => rfl
  | some p =>
    simp only [Option.map_eq_map, Option.map_some, Option.bind_some]
    split <;> simp [hf]

/-- A seeding meets the condition; nothing is asked of the other calls. -/
def SeedStep (m : Multipath Addr) : Event Addr → Prop
  | .seedEdgePeerRemotes remotes =>
    remotes.length = m.peers.length → m.SeedOk remotes
  | _ => True

def SeedRun : Multipath Addr → List (Event Addr) → Prop
  | _, [] => True
  | m, e :: events => m.SeedStep e ∧ SeedRun (m.step e) events

theorem exactMap_step (h : ExactMap m) {e : Event Addr} (hseed : m.SeedStep e) :
    ExactMap (m.step e) := by
  cases e with
  | openBind o adaptive => exact (grown_openBind m o adaptive).exactMap h
  | close => exact (grown_detach m (fun _ => False)).exactMap h
  | addPath o d => exact (grown_addPath m o d).exactMap h
  | removePath name =>
    exact (grown_removePath m name (fun _ => False)).exactMap h
  | reconcileDeferred o => exact (grown_reconcileDeferred m o).exactMap h
  | seedEdgePeerRemotes remotes =>
    by_cases hlen : remotes.length = m.peers.length
    · exact (exactMap_seed_iff h hlen).mpr (hseed hlen)
    · rwa [Multipath.step, seedEdgePeerRemotes, if_pos hlen]
  | setPeerRemote =>
    exact h.congr rfl (configured_modify fun _ => rfl)
  | setPeerRemoteFor name ap now => exact exactMap_setPeerRemoteFor h name ap now
  | parseEndpoint | learn => exact h.congr rfl (configured_modify fun _ => rfl)

theorem exactMap_run (h : ExactMap m) {events : List (Event Addr)}
    (hseeds : SeedRun m events) : ExactMap (m.run events) := by
  induction events generalizing m with
  | nil => exact h
  | cons _ _ ih => exact ih (exactMap_step h hseeds.1) hseeds.2

omit [DecidableEq Addr] in
theorem configured_boot (s : Setup Addr) (i : ℕ) : s.boot.configured i = none := by
  simp only [configured, Setup.boot, List.getElem?_map]
  cases s.peers[i]? <;> rfl

theorem exactMap_boot (s : Setup Addr) : ExactMap s.boot := by
  intro ap i
  rw [configured_boot, show s.boot.edgePeerByRemote.lookup ap = none from
    Finmap.lookup_empty ap]
  simp

/-- In every run whose seedings give each remote to one peer and drop none, the
map from remotes to peers is exact; hence no two peers share a remote, and
parsing a peer's configured remote yields that peer. -/
theorem edge_map_exact
    (s : Setup Addr) (events : List (Event Addr))
    (hseeds : SeedRun s.boot events) :
    let m := s.boot.run events
    ExactMap m ∧
      (∀ i j ap, m.configured i = some ap → m.configured j = some ap →
        i = j) ∧
      ∀ i ap now, m.configured i = some ap →
        (m.parseEndpoint ap now).2 = i := by
  intro m
  have h : ExactMap m := exactMap_run (exactMap_boot s) hseeds
  refine ⟨h, fun i j ap hi hj => ?_, fun i ap now hi => ?_⟩
  · exact Option.some.inj (((h ap i).mpr hi).symm.trans ((h ap j).mpr hj))
  · rw [parseEndpoint, (h ap i).mpr hi]
    rfl

/-! ## Two hosts that resolve to one address -/

/-- An edge with two peers over one path. -/
def twoPeerEdge : Setup ℕ where
  paths := [⟨"wan", true, none⟩]
  peers := [("alpha", true), ("beta", true)]
  paths_ne := by simp
  paths_le := by simp
  names_nodup := by simp
  peers_ne := by simp
  peerNames_nodup := by simp

/-- Both peers are seeded with the remote 7: the map keeps the second one, and
parsing the first one's remote yields the second peer. -/
theorem seeding_shares_remote :
    let m := twoPeerEdge.boot.run
      [.seedEdgePeerRemotes [some 7, some 7]]
    m.configured 0 = some 7 ∧ m.configured 1 = some 7 ∧
      m.edgePeerByRemote.lookup 7 = some 1 ∧
      (m.parseEndpoint 7 0).2 = 1 := by
  decide

omit [DecidableEq Addr] in
theorem seeded_boot (s : Setup Addr) (remotes : List (Option Addr)) (i : ℕ) :
    s.boot.seeded remotes i = (remotes[i]?).bind id := by
  rw [seeded, configured_boot, Option.or_none]

theorem twoPeerEdge_seeds : SeedRun twoPeerEdge.boot
    [.seedEdgePeerRemotes [some 7, some 8], .setPeerRemoteFor "alpha" 9 0] := by
  refine ⟨fun _ => ⟨fun i j ap hi hj => ?_, fun i ap hi => ?_⟩, trivial, trivial⟩
  · rw [seeded_boot] at hi hj
    match i, j with
    | 0, 0 | 1, 1 => rfl
    | 0, 1 | 1, 0 =>
      cases hi
      cases hj
    | i + 2, _ => cases hi
    | _, j + 2 => cases hj
  · rw [configured_boot] at hi
    cases hi

theorem edge_map_exact_twoPeers :
    let m := twoPeerEdge.boot.run
      [.seedEdgePeerRemotes [some 7, some 8], .setPeerRemoteFor "alpha" 9 0]
    ExactMap m ∧
      (∀ i j ap, m.configured i = some ap → m.configured j = some ap →
        i = j) ∧
      ∀ i ap now, m.configured i = some ap →
        (m.parseEndpoint ap now).2 = i :=
  edge_map_exact twoPeerEdge
    [.seedEdgePeerRemotes [some 7, some 8], .setPeerRemoteFor "alpha" 9 0]
    twoPeerEdge_seeds

end Multipath
end Wanbond.Bind
