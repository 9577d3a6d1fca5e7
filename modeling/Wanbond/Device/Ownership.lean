import Mathlib.Data.Nat.Find
import Wanbond.Device.ExitRuns

/-!
# Who owns the routes of an edge

The default route's halves belong to the active exit and every other range to
the peer that lists it, at boot and after any switches, exactly when no peer
behind the first exit lists such a half itself.  The selector, the engine and the
subscriptions of the controllers agree on the active exit in every run, but for
such a half before the first switch.
-/

namespace Wanbond.Device

open Wanbond.Bond (Time Duration second)
open Wanbond.Config

/-! ## Exits and halves -/

variable {c : Config} {i : ℕ} {peer : Peer}

theorem mem_exitPeers :
    (i, peer) ∈ c.exitPeers ↔
      c.peers[i]? = some peer ∧ exitCapable peer = true := by
  rw [exitPeers, List.mem_filter, mem_indexed]

theorem nodup_exitPeers (c : Config) : (c.exitPeers.map (·.1)).Nodup := by
  have hall : (c.indexed.map (·.1)).Nodup := by
    rw [indexed, List.map_map]
    change (c.peers.zipIdx.map Prod.snd).Nodup
    rw [List.zipIdx_map_snd]
    exact List.nodup_range'
  exact hall.sublist (List.filter_sublist.map _)

/-- The halves of the default routes that the exit-capable peers declare. -/
def declaredHalves (c : Config) : List Cidr :=
  c.exitPeers.flatMap fun x => defaultRouteSplits x.2.allowedIPs

variable {entries : List Cidr} {h : Cidr}

theorem mem_defaultRouteSplits :
    h ∈ defaultRouteSplits entries ↔ ∃ p ∈ entries, p.isDefaultRoute = true ∧
      (h = .half p.family false ∨ h = .half p.family true) := by
  simp only [defaultRouteSplits, List.mem_flatMap, List.mem_filter]
  constructor
  · rintro ⟨p, ⟨hp, hdefault⟩, hh⟩
    refine ⟨p, hp, hdefault, ?_⟩
    simpa [Cidr.splitDefaultRoute, hdefault] using hh
  · rintro ⟨p, hp, hdefault, hh⟩
    refine ⟨p, ⟨hp, hdefault⟩, ?_⟩
    simpa [Cidr.splitDefaultRoute, hdefault] using hh

theorem masked_of_mem_splits (hh : h ∈ defaultRouteSplits entries) :
    h.masked = h := by
  obtain ⟨p, -, -, rfl | rfl⟩ := mem_defaultRouteSplits.mp hh
  · exact Cidr.masked_half ..
  · exact Cidr.masked_half ..

theorem masked_mem_declared (hpeer : c.peers[i]? = some peer)
    (hexit : exitCapable peer = true) {p q : Cidr} (hp : p ∈ peer.allowedIPs)
    (hdefault : p.isDefaultRoute = true) (hq : q ∈ p.splitDefaultRoute) :
    q.masked ∈ declaredHalves c := by
  have hsplit : q ∈ defaultRouteSplits peer.allowedIPs := by
    refine mem_defaultRouteSplits.mpr ⟨p, hp, hdefault, ?_⟩
    simpa [Cidr.splitDefaultRoute, hdefault] using hq
  rw [masked_of_mem_splits hsplit]
  exact List.mem_flatMap.mpr
    ⟨(i, peer), mem_exitPeers.mpr ⟨hpeer, hexit⟩, hsplit⟩

theorem bits_of_mem_declared (hh : h ∈ declaredHalves c) : h.bits = 1 := by
  obtain ⟨x, -, hx⟩ := List.mem_flatMap.mp hh
  obtain ⟨p, -, -, rfl | rfl⟩ := mem_defaultRouteSplits.mp hx
  · rfl
  · rfl

theorem any_default_iff {family : Family} :
    (entries.any fun p => p.isDefaultRoute && p.family = family) = true ↔
      ∃ p ∈ entries, p.isDefaultRoute = true ∧ p.family = family := by
  simp [List.any_eq_true]

/-- The exit-capable peers of a configuration that passed declare the same
halves. -/
theorem mem_splits_of_exit (hvalid : c.validateEdgePeerSet = .ok ())
    {a b : ℕ × Peer} (ha : a ∈ c.exitPeers) (hb : b ∈ c.exitPeers)
    (hh : h ∈ defaultRouteSplits a.2.allowedIPs) :
    h ∈ defaultRouteSplits b.2.allowedIPs := by
  by_cases hlen : c.peers.length = 1
  · -- A single peer is both of them.
    have hplace : ∀ x ∈ c.exitPeers, x.1 = 0 := by
      rintro ⟨i, peer⟩ hx
      have hi := (List.getElem?_eq_some_iff.mp (mem_exitPeers.mp hx).1).1
      omega
    have hpeer : a.2 = b.2 := by
      have ha' := (mem_exitPeers.mp ha).1
      have hb' := (mem_exitPeers.mp hb).1
      rw [hplace a ha] at ha'
      rw [hplace b hb, ha'] at hb'
      exact Option.some.inj hb'
    rwa [← hpeer]
  have hmask := same_defaults hvalid hlen ha hb
  obtain ⟨p, hp, hdefault, hhalf⟩ := mem_defaultRouteSplits.mp hh
  have hany : (b.2.allowedIPs.any
      fun q => q.isDefaultRoute && q.family = p.family) = true := by
    have hmine := any_default_iff.mpr ⟨p, hp, hdefault, rfl⟩
    cases hfamily : p.family with
    | v4 =>
      rw [hfamily] at hmine
      rw [← hmine]
      exact (congrArg Prod.fst hmask).symm
    | v6 =>
      rw [hfamily] at hmine
      rw [← hmine]
      exact (congrArg Prod.snd hmask).symm
  obtain ⟨q, hq, hqdefault, hqfamily⟩ := any_default_iff.mp hany
  exact mem_defaultRouteSplits.mpr ⟨q, hq, hqdefault, by rwa [hqfamily]⟩

theorem mem_splits_of_declared (hvalid : c.validateEdgePeerSet = .ok ())
    {b : ℕ × Peer} (hb : b ∈ c.exitPeers) (hh : h ∈ declaredHalves c) :
    h ∈ defaultRouteSplits b.2.allowedIPs := by
  obtain ⟨a, ha, hmem⟩ := List.mem_flatMap.mp hh
  exact mem_splits_of_exit hvalid ha hb hmem

/-! ## The table at boot -/

/-- The engine's table after the boot configuration. -/
def bootTable (c : Config) : Table :=
  Table.empty.applyAll (c.indexed.map fun (i, peer) => renderPeer c i peer)

/-- The masked ranges rendered for a peer. -/
def renderedRanges (c : Config) (i : ℕ) (peer : Peer) : List Cidr :=
  (renderPeer c i peer).allowedIPs.map Cidr.masked

variable {q : Cidr}

theorem mem_renderedRanges :
    q ∈ renderedRanges c i peer ↔ ∃ p ∈ peer.allowedIPs,
      ¬ (i ∈ standbyExitPeers c ∧ p.isDefaultRoute = true) ∧
      ∃ r ∈ p.splitDefaultRoute, r.masked = q := by
  simp only [renderedRanges, renderPeer, renderEntries, List.mem_map,
    List.mem_flatMap, decide_eq_true_eq]
  constructor
  · rintro ⟨r, ⟨p, hp, hr⟩, hq⟩
    split at hr
    · simp at hr
    · next hkeep => exact ⟨p, hp, hkeep, r, hr, hq⟩
  · rintro ⟨p, hp, hkeep, r, hr, hq⟩
    exact ⟨r, ⟨p, hp, by rwa [if_neg hkeep]⟩, hq⟩

/-- A range belongs to the last peer it is rendered for. -/
theorem bootTable_eq (hpeer : c.peers[i]? = some peer)
    (hq : q ∈ renderedRanges c i peer)
    (hlast : ∀ j peer', i < j → c.peers[j]? = some peer' →
      q ∉ renderedRanges c j peer') : bootTable c q = some peer.publicKey := by
  have hat : c.indexed[i]? = some (i, peer) := by
    simp [indexed, hpeer]
  obtain ⟨hi, hget⟩ := List.getElem?_eq_some_iff.mp hat
  have hsplit : c.indexed = c.indexed.take i ++ (i, peer) ::
      c.indexed.drop (i + 1) := by
    rw [← hget, List.getElem_cons_drop, List.take_append_drop]
  unfold bootTable
  rw [hsplit, List.map_append, List.map_cons]
  refine Table.applyAll_eq hq ?_
  intro s hs
  obtain ⟨⟨j, peer'⟩, hj, rfl⟩ := List.mem_map.mp hs
  obtain ⟨k, hk⟩ := List.getElem?_of_mem hj
  rw [List.getElem?_drop] at hk
  have hjk : j = i + 1 + k ∧ c.peers[i + 1 + k]? = some peer' := by
    simp only [indexed, List.getElem?_map, List.getElem?_zipIdx,
      Option.map_map, Option.map_eq_some_iff] at hk
    obtain ⟨x, hx, heq⟩ := hk
    have hj : 0 + (i + 1 + k) = j := congrArg Prod.fst heq
    have hpeer' : x = peer' := congrArg Prod.snd heq
    exact ⟨by omega, hpeer' ▸ hx⟩
  exact hlast j peer' (by omega) (hjk.1 ▸ hjk.2)

/-! ## Ownership -/

/-- The declared halves belong to the peer with the key, and every other range
to the peer that lists it. -/
structure Owned (c : Config) (key : String) (t : Table) : Prop where
  halves : ∀ h ∈ declaredHalves c, t h = some key
  others : ∀ (i : ℕ) (peer : Peer), c.peers[i]? = some peer →
    ∀ p ∈ peer.allowedIPs, ∀ q ∈ p.splitDefaultRoute, q.masked ∉ declaredHalves c →
      t q.masked = some peer.publicKey

/-- No peer behind the first exit-capable one lists a declared half itself. -/
def NoLateHalf (c : Config) : Prop :=
  ∀ first, c.exitPeers.head? = some first → ∀ j peer, first.1 < j →
    c.peers[j]? = some peer → ∀ p ∈ peer.allowedIPs,
      p.masked ∉ declaredHalves c

/-- A peer behind the first exit-capable one lists the range itself. -/
def LateHalf (c : Config) (h : Cidr) : Prop :=
  ∃ first ∈ c.exitPeers.head?, ∃ j peer, first.1 < j ∧
    c.peers[j]? = some peer ∧ ∃ p ∈ peer.allowedIPs, p.masked = h

/-- The key of the first exit-capable peer. -/
def bootKey (c : Config) : String :=
  (c.exitPeers.head?.map (·.2.publicKey)).getD ""

theorem bootKey_of_head {first : ℕ × Peer}
    (hfirst : c.exitPeers.head? = some first) :
    bootKey c = first.2.publicKey := by
  simp [bootKey, hfirst]

section Boot

variable {c : Config} (hedge : c.role = .edge)
  (hvalid : c.validateEdgePeerSet = .ok ())

include hedge

variable {first : ℕ × Peer}

theorem standby_iff (hfirst : c.exitPeers.head? = some first) :
    i ∈ standbyExitPeers c ↔ i ≠ first.1 ∧ i ∈ c.exitPeers.map (·.1) := by
  obtain ⟨rest, hlist⟩ := List.head?_eq_some_iff.mp hfirst
  have hnodup := nodup_exitPeers c
  rw [hlist, List.map_cons, List.nodup_cons] at hnodup
  rw [standbyExitPeers, exitCapablePeerIndices, if_pos hedge, hlist,
    List.map_cons, List.tail_cons, List.mem_cons]
  constructor
  · intro hi
    exact ⟨fun heq => hnodup.1 (heq ▸ hi), .inr hi⟩
  · rintro ⟨hne, heq | hi⟩
    · exact absurd heq hne
    · exact hi

include hvalid

/-- Behind a peer only its own ranges are rendered: the default routes of
standby exits are stripped. -/
theorem plain_of_rendered (hfirst : c.exitPeers.head? = some first) {j : ℕ}
    (hpeer : c.peers[j]? = some peer) (hj : first.1 < j)
    (hq : q ∈ renderedRanges c j peer) :
    ∃ p ∈ peer.allowedIPs, p.isDefaultRoute = false ∧ p.masked = q := by
  obtain ⟨p, hp, hkeep, r, hr, hrq⟩ := mem_renderedRanges.mp hq
  cases hdefault : p.isDefaultRoute with
  | false =>
    simp only [Cidr.splitDefaultRoute, hdefault, Bool.false_eq_true, if_false,
      List.mem_singleton] at hr
    exact ⟨p, hp, hdefault, hr ▸ hrq⟩
  | true =>
    have hlen : c.peers.length ≠ 1 := by
      have hlt := (List.getElem?_eq_some_iff.mp hpeer).1
      omega
    have hexit := exitCapable_of_default hvalid hlen hpeer hp hdefault
    have hstandby : j ∈ standbyExitPeers c := by
      rw [standby_iff hedge hfirst]
      exact ⟨by omega, List.mem_map.mpr
        ⟨(j, peer), mem_exitPeers.mpr ⟨hpeer, hexit⟩, rfl⟩⟩
    exact absurd ⟨hstandby, hdefault⟩ hkeep

theorem half_rendered (hfirst : c.exitPeers.head? = some first)
    (hh : h ∈ declaredHalves c) : h ∈ renderedRanges c first.1 first.2 := by
  have hmem : first ∈ c.exitPeers := List.mem_of_mem_head? hfirst
  have hsplit := mem_splits_of_declared hvalid hmem hh
  obtain ⟨p, hp, hdefault, hhalf⟩ := mem_defaultRouteSplits.mp hsplit
  refine mem_renderedRanges.mpr ⟨p, hp, ?_, h, ?_, masked_of_mem_splits hsplit⟩
  · rw [standby_iff hedge hfirst]
    exact fun hstandby => hstandby.1.1 rfl
  · simpa [Cidr.splitDefaultRoute, hdefault] using hhalf

/-- At boot a declared half belongs to the first exit, unless it is late. -/
theorem bootTable_half (hfirst : c.exitPeers.head? = some first)
    (hh : h ∈ declaredHalves c) :
    bootTable c h = some first.2.publicKey ∨ LateHalf c h := by
  refine Classical.or_iff_not_imp_right.mpr fun hlate => ?_
  refine bootTable_eq (mem_exitPeers.mp (List.mem_of_mem_head? hfirst)).1
    (half_rendered hedge hvalid hfirst hh) ?_
  intro j peer hj hpeer hq
  obtain ⟨p, hp, -, hmask⟩ := plain_of_rendered hedge hvalid hfirst hpeer hj hq
  exact hlate ⟨first, hfirst, j, peer, hj, hpeer, p, hp, hmask⟩

/-- Without late halves the boot table is as it should be. -/
theorem owned_boot (hlate : NoLateHalf c) : Owned c (bootKey c) (bootTable c) := by
  refine ⟨?_, ?_⟩
  · intro h hh
    obtain ⟨a, ha, -⟩ := List.mem_flatMap.mp hh
    obtain ⟨first, hfirst⟩ := Option.ne_none_iff_exists'.mp
      (mt List.head?_eq_none_iff.mp (List.ne_nil_of_mem ha))
    rw [bootKey_of_head hfirst]
    refine (bootTable_half hedge hvalid hfirst hh).resolve_right ?_
    rintro ⟨first, hfirst, j, peer, hj, hpeer, p, hp, rfl⟩
    exact hlate first hfirst j peer hj hpeer p hp hh
  intro i peer hpeer p hp q hq hother
  refine bootTable_eq hpeer (mem_renderedRanges.mpr ⟨p, hp, ?_, q, hq, rfl⟩) ?_
  · rintro ⟨hstandby, hdefault⟩
    have hexit : exitCapable peer = true := by
      rw [standbyExitPeers, exitCapablePeerIndices, if_pos hedge] at hstandby
      obtain ⟨⟨i', peer'⟩, hx, hi⟩ :=
        List.mem_map.mp (List.mem_of_mem_tail hstandby)
      subst hi
      have hx' := mem_exitPeers.mp hx
      rw [hpeer] at hx'
      cases hx'.1
      exact hx'.2
    exact hother (masked_mem_declared hpeer hexit hp hdefault hq)
  -- Another peer with the range would overlap, or declare it as a half.
  intro j peer' hj hpeer' hq'
  have hlen : c.peers.length ≠ 1 := by
    have hlt := (List.getElem?_eq_some_iff.mp hpeer').1
    omega
  have hplain : p.isDefaultRoute = false := by
    by_contra hdefault
    rw [Bool.not_eq_false] at hdefault
    exact hother (masked_mem_declared hpeer
      (exitCapable_of_default hvalid hlen hpeer hp hdefault) hp hdefault hq)
  have hqp : q = p := by
    simpa [Cidr.splitDefaultRoute, hplain] using hq
  obtain ⟨p', hp', -, r, hr, hmask⟩ := mem_renderedRanges.mp hq'
  cases hdefault : p'.isDefaultRoute with
  | true =>
    have hexit := exitCapable_of_default hvalid hlen hpeer' hp' hdefault
    exact hother
      (hmask ▸ masked_mem_declared hpeer' hexit hp' hdefault hr)
  | false =>
    have hrp : r = p' := by
      simpa [Cidr.splitDefaultRoute, hdefault] using hr
    rw [hrp, hqp] at hmask
    exact disjoint_entries hvalid hlen (by omega) hpeer' hpeer hp' hp
      hdefault hplain hmask

end Boot

/-- A late half belongs to a peer other than the first exit. -/
theorem noLateHalf_of_owned (hkeys : (c.peers.map (·.publicKey)).Nodup)
    (howned : Owned c (bootKey c) (bootTable c)) : NoLateHalf c := by
  classical
  intro first hfirst j peer hj hpeer p hp hhalf
  have hplain : p.isDefaultRoute = false := by
    have hbits := bits_of_mem_declared hhalf
    rw [Cidr.bits_masked] at hbits
    simp [Cidr.isDefaultRoute, hbits]
  let Has (k : ℕ) : Prop := ∃ peer', c.peers[k]? = some peer' ∧
    p.masked ∈ renderedRanges c k peer'
  have hjHas : Has j := by
    refine ⟨peer, hpeer, mem_renderedRanges.mpr ⟨p, hp, ?_, p, ?_, rfl⟩⟩
    · simp [hplain]
    · simp [Cidr.splitDefaultRoute, hplain]
  have hjn : j ≤ c.peers.length :=
    (List.getElem?_eq_some_iff.mp hpeer).1.le
  -- The last peer that the half is rendered for owns it.
  obtain ⟨last, hlast, hrendered⟩ := Nat.findGreatest_spec hjn hjHas
  have hle : j ≤ Nat.findGreatest Has c.peers.length :=
    Nat.le_findGreatest hjn hjHas
  have howner := bootTable_eq hlast hrendered (by
    intro k peer' hk hpeer' hin
    refine Nat.findGreatest_is_greatest hk ?_ ⟨peer', hpeer', hin⟩
    exact (List.getElem?_eq_some_iff.mp hpeer').1.le)
  rw [howned.halves p.masked hhalf] at howner
  have hmem : c.peers[first.1]? = some first.2 ∧ exitCapable first.2 = true :=
    mem_exitPeers.mp (List.mem_of_mem_head? hfirst)
  have hsame : (c.peers.map (·.publicKey))[first.1]? =
      (c.peers.map (·.publicKey))[Nat.findGreatest Has c.peers.length]? := by
    rw [List.getElem?_map, List.getElem?_map, hmem.1, hlast]
    simp only [Option.map_some]
    rwa [← bootKey_of_head hfirst]
  have hlt : first.1 < (c.peers.map (·.publicKey)).length := by
    rw [List.length_map]
    exact (List.getElem?_eq_some_iff.mp hmem.1).1
  have heq := (List.getElem?_inj hlt hkeys).mp hsame
  omega

/-! ## Ownership over switches -/

/-- A switch takes the halves and leaves the other ranges alone. -/
theorem owned_apply (hvalid : c.validateEdgePeerSet = .ok ()) {key : String}
    {t : Table} (howned : Owned c key t) {x : ℕ × Peer} (hx : x ∈ c.exitPeers) :
    Owned c x.2.publicKey
      (t.apply ⟨x.2.publicKey, defaultRouteSplits x.2.allowedIPs⟩) := by
  have hsplits : ∀ q, q ∈ (defaultRouteSplits x.2.allowedIPs).map Cidr.masked ↔
      q ∈ declaredHalves c := by
    intro q
    constructor
    · intro hq
      obtain ⟨h, hh, rfl⟩ := List.mem_map.mp hq
      rw [masked_of_mem_splits hh]
      exact List.mem_flatMap.mpr ⟨x, hx, hh⟩
    · intro hq
      have hh := mem_splits_of_declared hvalid hx hq
      exact List.mem_map.mpr ⟨q, hh, masked_of_mem_splits hh⟩
  refine ⟨?_, ?_⟩
  · intro h hh
    rw [Table.apply_eq, if_pos ((hsplits h).mpr hh)]
  · intro i peer hpeer p hp q hq hother
    rw [Table.apply_eq, if_neg (fun hin => hother ((hsplits _).mp hin))]
    exact howned.others i peer hpeer p hp q hq hother

namespace Egress

variable {Addr : Type}

/-- The selector knows the configured exits, and the active one owns the
halves. -/
structure RoutesOk (c : Config) (w : Egress Addr) : Prop where
  exits : w.sel.exits = configuredExits c
  active : ∃ x ∈ c.exitPeers, x.2.identity = w.sel.active ∧
    Owned c x.2.publicKey w.engine

theorem mem_of_lookup {name : String} {target : ExitPeer}
    (h : (configuredExits c).lookup name = some target) :
    ∃ x ∈ c.exitPeers, x.2.identity = name ∧
      target = ⟨x.2.publicKey, defaultRouteSplits x.2.allowedIPs⟩ := by
  obtain ⟨_, _, heq, -⟩ := List.lookup_eq_some_iff.mp h
  have hmem : (name, target) ∈ configuredExits c := by simp [heq]
  obtain ⟨x, hx, hpair⟩ := List.mem_map.mp hmem
  cases hpair
  exact ⟨x, hx, rfl, rfl⟩

theorem routesOk_switched (hvalid : c.validateEdgePeerSet = .ok ())
    {w : Egress Addr} {name : String} {target : ExitPeer} (ok : RoutesOk c w)
    (hlookup : w.sel.exits.lookup name = some target) (reason : Reason)
    (now : Time) : RoutesOk c (w.switched name target reason now) := by
  refine ⟨ok.exits, ?_⟩
  rw [ok.exits] at hlookup
  obtain ⟨x, hx, hname, rfl⟩ := mem_of_lookup hlookup
  obtain ⟨y, -, -, howned⟩ := ok.active
  exact ⟨x, hx, hname, owned_apply hvalid howned hx⟩

theorem kept_routesOk (hvalid : c.validateEdgePeerSet = .ok ()) :
    Kept (@RoutesOk Addr c) where
  switched := routesOk_switched hvalid
  mode ok _ := ⟨ok.exits, ok.active⟩
  returned ok _ := ⟨ok.exits, ok.active⟩
  wired ok := ⟨ok.exits, ok.active⟩
  ctrl ok _ _ := ⟨ok.exits, ok.active⟩
  pending ok _ := ⟨ok.exits, ok.active⟩

theorem routesOk_boot {sel : ExitSelector} (hsel : newExitSelector c = some sel)
    (ctrls : String → Option (HubFailover Addr)) {t : Table}
    (howned : Owned c (bootKey c) t) :
    RoutesOk c (enableAutoPromotion sel ctrls t) := by
  unfold newExitSelector at hsel
  split at hsel
  · cases hsel
  obtain ⟨first, hfirst, rfl⟩ := Option.map_eq_some_iff.mp hsel
  refine ⟨rfl, ?_⟩
  rw [configuredExits, List.head?_map, Option.map_eq_some_iff] at hfirst
  obtain ⟨x, hx, rfl⟩ := hfirst
  refine ⟨x, List.mem_of_mem_head? hx, rfl, ?_⟩
  exact bootKey_of_head hx ▸ howned

end Egress

/-- Cryptokey ownership on an edge whose configuration passed and has distinct
keys: at boot and after any switches every declared half of the default route
belongs to the active exit and every other range to the peer that lists it,
exactly if no peer behind the first exit lists a declared half itself. -/
theorem cryptokey_ownership {Addr : Type} [DecidableEq Addr] {c : Config}
    (hedge : c.role = .edge) (hvalid : c.validatePeers = .ok ())
    (hkeys : (c.peers.map (·.publicKey)).Nodup) {sections : List PeerSection}
    (hrender : uapiConfig c = .ok sections) :
    (Owned c (bootKey c) (Table.empty.applyAll sections) ∧
      ∀ sel, newExitSelector c = some sel →
      ∀ (ctrls : String → Option (HubFailover Addr))
        (acts : List (Egress.Act Addr)) (w : Egress Addr),
      w = (Egress.enableAutoPromotion sel ctrls
        (Table.empty.applyAll sections)).run acts →
      ∃ x ∈ c.exitPeers, x.2.identity = w.sel.active ∧
        Owned c x.2.publicKey w.engine) ↔ NoLateHalf c := by
  have hrules := edge_rules hvalid hedge
  have htable : Table.empty.applyAll sections = bootTable c := by
    rw [uapiConfig_ok hrender]
    rfl
  rw [htable]
  constructor
  · rintro ⟨hboot, -⟩
    exact noLateHalf_of_owned hkeys hboot
  intro hlate
  have hboot := owned_boot hedge hrules hlate
  refine ⟨hboot, ?_⟩
  intro sel hsel ctrls acts w hw
  rw [hw]
  exact ((Egress.kept_routesOk hrules).run
    (Egress.routesOk_boot hsel ctrls hboot) acts).active

theorem noLateHalf_twoExits : NoLateHalf Egress.twoExits := by
  intro first hfirst j peer hj hpeer p hp
  have hlt := (List.getElem?_eq_some_iff.mp hpeer).1
  have hone : j = 1 := by
    change j < 2 at hlt
    omega
  subst hone
  cases hpeer
  revert p
  decide

theorem cryptokey_ownership_twoExits :
    Egress.twoExits.validatePeers = .ok () ∧
    ∃ sections, uapiConfig Egress.twoExits = .ok sections ∧
      Owned Egress.twoExits "aa" (Table.empty.applyAll sections) :=
  ⟨by decide, _, rfl,
    ((@cryptokey_ownership ℕ _ Egress.twoExits rfl (by decide) (by decide) _
      rfl).mpr noLateHalf_twoExits).1⟩

/-- Two exits, and behind them a peer that lists the upper IPv4 half itself. -/
def lateHalf : Config where
  role := .edge
  exit := "auto"
  paths := ["wan"]
  peers := [Egress.exitAt "aa" "a" "ka" 1, Egress.exitAt "bb" "b" "kb" 2,
    { publicKey := "cc"
      name := "c"
      psk := "kc"
      dns := false
      mode := .unset
      endpointSpecs := [.literal ⟨.v4 3, 51820⟩]
      allowedIPs := [.half .v4 true] }]

/-- The configuration passes, its keys are distinct, and at boot the half that
the exits declare belongs to neither of them. -/
theorem late_half_stolen :
    lateHalf.validatePeers = .ok () ∧
    (lateHalf.peers.map (·.publicKey)).Nodup ∧
    (.half .v4 true) ∈ declaredHalves lateHalf ∧
    bootKey lateHalf = "aa" ∧
    (uapiConfig lateHalf).toOption.map
      (fun sections => Table.empty.applyAll sections (.half .v4 true)) =
      some (some "cc") := by
  decide

/-! ## The selector, the engine and the subscriptions -/

namespace Egress

variable {Addr : Type}

theorem selectorOk_booted {c : Config} (hvalid : c.validatePeers = .ok ())
    {sections : List PeerSection} (hrender : uapiConfig c = .ok sections)
    {sel : ExitSelector} (hsel : newExitSelector c = some sel)
    {ctrls : String → Option (HubFailover Addr)}
    (hfresh : ∀ n x, ctrls n = some x → x.onExhausted = none) :
    SelectorOk (LateHalf c)
      (enableAutoPromotion sel ctrls (Table.empty.applyAll sections)) := by
  have hedge : c.role = .edge := by
    by_contra hrole
    simp [newExitSelector, exitCapablePeerIndices, hrole] at hsel
  rw [uapiConfig_ok hrender]
  refine selectorOk_boot hsel hfresh fun first hfirst s hs => ?_
  rw [masked_of_mem_splits hs]
  exact bootTable_half hedge (edge_rules hvalid hedge) hfirst
    (List.mem_flatMap.mpr ⟨first, List.mem_of_mem_head? hfirst, hs⟩)

/-- The selector is consistent in every history after `enableAutoPromotion` on
the engine as booted: in the engine each half of the active exit belongs to it,
except that before the first switch a half may belong to a peer behind the first
exit that lists it itself; its controller alone has a subscriber and that names
it, a refused or failed request changes nothing, and a measurement switches only
in `auto` mode and after the cooldown, unless the operator returned to `auto`
since the last switch. -/
theorem selector_consistent [DecidableEq Addr] {c : Config}
    (hvalid : c.validatePeers = .ok ()) {sections : List PeerSection}
    (hrender : uapiConfig c = .ok sections) {sel : ExitSelector}
    (hsel : newExitSelector c = some sel)
    {ctrls : String → Option (HubFailover Addr)}
    (hfresh : ∀ n x, ctrls n = some x → x.onExhausted = none)
    (acts : List (Act Addr)) (w : Egress Addr)
    (hw : w = (enableAutoPromotion sel ctrls
      (Table.empty.applyAll sections)).run acts) :
    (∃ p, w.sel.exits.lookup w.sel.active = some p ∧ ∀ s ∈ p.splits,
      w.engine s.masked = some p.publicKeyHex ∨
        (∀ e ∈ w.log, e = .returned) ∧ LateHalf c s.masked) ∧
    (∀ n x, w.ctrls n = some x →
      x.onExhausted = if n = w.sel.active then some n else none) ∧
    (∀ mode ipc now, (w.setMode mode ipc now).2 ≠ none →
      (w.setMode mode ipc now).1 = w) ∧
    (∀ mode ipc now, mode ≠ "auto" → w.sel.exits.lookup mode = none →
      (w.setMode mode ipc now).2 = some (.unknownExit mode)) ∧
    (∀ mode now, mode ≠ "auto" → mode ≠ w.sel.active →
      (w.setMode mode false now).2 ≠ none) ∧
    (∀ healthy rtt now, w.evaluateAuto healthy rtt false now = w ∧
      w.retryExhaustedPromotion healthy false now = w ∧
      ∀ n, w.onActiveExhausted n healthy false now = w) ∧
    (∀ healthy rtt ipc now, w.evaluateAuto healthy rtt ipc now ≠ w →
      w.sel.mode = "auto" ∧
      ∀ later origin target reason t earlier,
        w.log = later ++ .switched origin target reason t :: earlier →
        (∀ e ∈ later, e = .returned) →
        .returned ∈ later ∨ autoExitCooldown ≤ now - t) := by
  have ok : SelectorOk (LateHalf c) w :=
    hw ▸ kept_selectorOk.run (selectorOk_booted hvalid hrender hsel hfresh) acts
  refine ⟨ok.granted, ok.subscribed, fun _ _ _ => setMode_refused,
    fun _ ipc now hauto hunknown => setMode_unknown hauto hunknown ipc now,
    fun _ now hauto hactive => setMode_failed hauto hactive now, ?_, ?_⟩
  · intro healthy rtt now
    refine ⟨evaluateAuto_failed w healthy rtt now, ?_, ?_⟩
    · rw [retryExhaustedPromotion, promote_failed, ite_self]
    · intro n
      rw [onActiveExhausted, promote_failed, ite_self]
  intro healthy rtt ipc now hmoved
  rcases w.evaluateAuto_cases healthy rtt ipc now with heq |
    ⟨name, target, -, -, -, hmode, hcool, -⟩
  · exact absurd heq hmoved
  · refine ⟨hmode, ?_⟩
    intro later origin target reason t earlier hlog hlater
    exact ok.rested.cooldown hcool hlog hlater

/-- After a switch the halves belong to the second exit. -/
theorem selector_consistent_twoExits :
    ∃ sections, uapiConfig twoExits = .ok sections ∧
      let w := (enableAutoPromotion twoSelector twoCtrls
        (Table.empty.applyAll sections)).run [.setMode "b" true second]
      w.sel.active = "b" ∧ ∃ p, w.sel.exits.lookup "b" = some p ∧
        ∀ s ∈ p.splits, w.engine s.masked = some p.publicKeyHex := by
  refine ⟨_, rfl, by decide, ?_⟩
  obtain ⟨p, hp, hengine⟩ := (selector_consistent (c := twoExits) (by decide) rfl
    newExitSelector_twoExits twoCtrls_fresh [.setMode "b" true second] _ rfl).1
  refine ⟨p, hp, fun s hs => (hengine s hs).resolve_right fun hlate => ?_⟩
  exact absurd (hlate.1 _ List.mem_cons_self) (by decide)

/-- Two exits.  Beside the IPv4 default route, the first lists its inner address
and the second the halves of the default route. -/
def listedHalves : Config where
  role := .edge
  exit := "auto"
  paths := ["wan"]
  peers :=
    [{ exitAt "aa" "a" "ka" 1 with
        allowedIPs := [anyAddress, ⟨.v6, 1, 128, by decide, by decide⟩] },
      { exitAt "bb" "b" "kb" 2 with
        allowedIPs := [anyAddress, .half .v4 false, .half .v4 true] }]

/-- At boot the first exit is the active one, but the standby was given the
halves last. -/
theorem standby_given_halves :
    listedHalves.validatePeers = .ok () ∧
    ∃ sections sel, uapiConfig listedHalves = .ok sections ∧
      newExitSelector listedHalves = some sel ∧
      let w : Egress ℕ := (enableAutoPromotion sel (fun _ => none)
        (Table.empty.applyAll sections)).run []
      ∃ p, w.sel.exits.lookup w.sel.active = some p ∧ p.publicKeyHex = "aa" ∧
        p.splits = [.half .v4 false, .half .v4 true] ∧
        ∀ s ∈ p.splits, w.engine s.masked = some "bb" :=
  ⟨by decide, _, _, rfl, rfl, _, rfl, rfl, by decide, by decide⟩

end Egress

end Wanbond.Device
