import Wanbond.Config.Address
import Wanbond.Telemetry.PMTU

/-!
# Sizing the tunnel interface

The resizer folds the liveness and the outer MTU of every path into the largest
inner packet that the smallest path that is up can carry, and sets the MTU of
the tunnel interface to it: at once when it shrinks, after a dwell when it grows.
All sizes are in bytes.
-/

namespace Wanbond

namespace Bind

open Wanbond.Bond (overhead)

/-! ## Overheads -/

def defaultPathMTU : ℤ := 1500

def ipv4UDPOverhead : ℤ := 20 + 8

def ipv6UDPOverhead : ℤ := 40 + 8

def wgTransportOverhead : ℤ := 16 + 16

def innerMTU (pathMTU : ℤ) : ℤ :=
  pathMTU - ipv4UDPOverhead - overhead - wgTransportOverhead

end Bind

namespace Device

open Wanbond.Bind
open Wanbond.Bond (Time Duration second)
open Wanbond.Config (Family)
open Wanbond.Telemetry

/-! ## Configuration and snapshots -/

structure PathConfig where
  name : String
  /-- The declared outer MTU; zero leaves it to discovery. -/
  mtu : ℤ := 0
  deriving DecidableEq, Repr

structure Amnezia where
  s1 : ℤ := 0
  s2 : ℤ := 0
  deriving DecidableEq, Repr

def Amnezia.maxJunkPrefix (a : Amnezia) : ℤ :=
  let m := if a.s1 < a.s2 then a.s2 else a.s1
  if m < 0 then 0 else m

/-- The part of the configuration that the sizing reads. -/
structure TunConfig where
  paths : List PathConfig
  amnezia : Amnezia := {}
  deriving DecidableEq, Repr

def outerHeadroom (cfg : TunConfig) : ℤ := cfg.amnezia.maxJunkPrefix

theorem outerHeadroom_nonneg (cfg : TunConfig) : 0 ≤ outerHeadroom cfg := by
  simp only [outerHeadroom, Amnezia.maxJunkPrefix]
  split <;> omega

def PathConfig.outerMTU (p : PathConfig) : ℤ :=
  if p.mtu = 0 then defaultPathMTU else p.mtu

/-- The TUN MTU at boot. -/
def tunMTU (cfg : TunConfig) : ℤ :=
  if cfg.paths = [] then innerMTU (defaultPathMTU - outerHeadroom cfg)
  else
    cfg.paths.foldl (fun least p =>
      let inner := innerMTU (p.outerMTU - outerHeadroom cfg)
      if least = 0 ∨ inner < least then inner else least) 0

/-- One path as one bound peer reports it. -/
structure PathTelemetry where
  name : String
  state : PathState
  deriving DecidableEq, Repr

structure PeerSnapshot where
  name : String
  paths : List PathTelemetry
  deriving DecidableEq, Repr

structure PathSnapshot where
  peer : String
  name : String
  state : PathState
  pmtu : ℤ
  deriving DecidableEq, Repr

/-- The paths of every bound peer, each with the discovered MTU of its path. -/
def paths (peers : List PeerSnapshot) (pmtu : String → ℤ) : List PathSnapshot :=
  peers.flatMap fun peer =>
    peer.paths.map fun t => ⟨peer.name, t.name, t.state, pmtu t.name⟩

/-- Some bound peer reports the path up. -/
def PathUp (peers : List PeerSnapshot) (name : String) : Prop :=
  ∃ peer ∈ peers, ⟨name, .up⟩ ∈ peer.paths

variable {peers : List PeerSnapshot} {pmtu : String → ℤ} {ps : PathSnapshot}

theorem mem_paths (h : ps ∈ paths peers pmtu) : ps.pmtu = pmtu ps.name := by
  simp only [paths, List.mem_flatMap, List.mem_map] at h
  obtain ⟨peer, -, t, -, rfl⟩ := h
  rfl

variable {name : String}

theorem pathUp_iff (pmtu : String → ℤ) :
    PathUp peers name ↔
      ∃ ps ∈ paths peers pmtu, ps.name = name ∧ ps.state = .up := by
  simp only [PathUp, paths, List.mem_flatMap, List.mem_map]
  constructor
  · rintro ⟨peer, hpeer, ht⟩
    exact ⟨_, ⟨peer, hpeer, _, ht, rfl⟩, rfl, rfl⟩
  · rintro ⟨ps, ⟨peer, hpeer, ⟨n, state⟩, ht, rfl⟩, hname, hup⟩
    subst hname hup
    exact ⟨peer, hpeer, ht⟩

/-! ## Sampling -/

structure PathMTUSample where
  state : PathState
  pmtu : ℤ
  deriving DecidableEq, Repr

/-- The `configured` map: the last entry of a name wins, and a name without one
reads as zero. -/
def configured (cfg : TunConfig) (name : String) : ℤ :=
  match cfg.paths.reverse.find? (fun p => p.name = name) with
  | some p => p.outerMTU
  | none => 0

/-- The outer MTU in force for a path: discovered, else configured, else the
default. -/
def effectiveMTU (cfg : TunConfig) (name : String) (pmtu : ℤ) : ℤ :=
  if 0 < pmtu then pmtu
  else if 0 < configured cfg name then configured cfg name
  else defaultPathMTU

/-- A further entry of a path already sampled. -/
def PathMTUSample.merge (cur : PathMTUSample) (state : PathState) (pmtu : ℤ) :
    PathMTUSample :=
  { state := if state = .up then .up else cur.state
    pmtu := if cur.pmtu ≤ 0 then pmtu else cur.pmtu }

/-- One turn of the loop over the snapshot.  The map by name and the order of
first appearance are one list of named samples. -/
def sampleSnapshot (cfg : TunConfig) (byName : List (String × PathMTUSample))
    (ps : PathSnapshot) : List (String × PathMTUSample) :=
  let pmtu := effectiveMTU cfg ps.name ps.pmtu - outerHeadroom cfg
  if ps.name ∈ byName.map Prod.fst then
    byName.map fun entry =>
      if entry.1 = ps.name then (entry.1, entry.2.merge ps.state pmtu) else entry
  else byName ++ [(ps.name, ⟨ps.state, pmtu⟩)]

def samplesByName (cfg : TunConfig) (snapshot : List PathSnapshot) :
    List (String × PathMTUSample) :=
  snapshot.foldl (sampleSnapshot cfg) []

def sampleMTU (cfg : TunConfig) (snapshot : List PathSnapshot) :
    List PathMTUSample :=
  (samplesByName cfg snapshot).map Prod.snd

/-- The state of a path over a whole snapshot. -/
def stateOf (snapshot : List PathSnapshot) (name : String) : PathState :=
  if ∃ ps ∈ snapshot, ps.name = name ∧ ps.state = .up then .up else .down

/-- The sample of a path whose discovered MTU is the same in all its
entries. -/
def sampleOf (cfg : TunConfig) (pmtu : String → ℤ)
    (snapshot : List PathSnapshot) (name : String) : PathMTUSample :=
  ⟨stateOf snapshot name,
    effectiveMTU cfg name (pmtu name) - outerHeadroom cfg⟩

variable {snapshot : List PathSnapshot}

theorem stateOf_append_other (h : ps.name ≠ name) :
    stateOf (snapshot ++ [ps]) name = stateOf snapshot name := by
  simp only [stateOf, List.mem_append, List.mem_singleton, or_and_right,
    exists_or, exists_eq_left, h, false_and, or_false]

theorem stateOf_append_self :
    stateOf (snapshot ++ [ps]) ps.name =
      if ps.state = .up then .up else stateOf snapshot ps.name := by
  simp only [stateOf, List.mem_append, List.mem_singleton, or_and_right,
    exists_or, exists_eq_left, true_and]
  by_cases h : ps.state = .up <;> simp [h]

theorem stateOf_append_fresh (h : ∀ ps' ∈ snapshot, ps'.name ≠ ps.name) :
    stateOf (snapshot ++ [ps]) ps.name = ps.state := by
  have hdown : stateOf snapshot ps.name = .down := by
    rw [stateOf, if_neg]
    rintro ⟨ps', hmem, hname, -⟩
    exact h ps' hmem hname
  rw [stateOf_append_self, hdown]
  cases ps.state <;> rfl

variable {cfg : TunConfig}

theorem merge_sampleOf (name : String) (hps : ps.pmtu = pmtu ps.name) :
    (if name = ps.name then
        (sampleOf cfg pmtu snapshot name).merge ps.state
          (effectiveMTU cfg ps.name ps.pmtu - outerHeadroom cfg)
      else sampleOf cfg pmtu snapshot name) =
      sampleOf cfg pmtu (snapshot ++ [ps]) name := by
  split
  next heq =>
    subst heq
    simp only [sampleOf, PathMTUSample.merge, stateOf_append_self, hps, ite_self]
  next hne => simp only [sampleOf, stateOf_append_other (Ne.symm hne)]

/-- Sampling folds a snapshot to one sample for each path that appears. -/
theorem samplesByName_eq (cfg : TunConfig) (pmtu : String → ℤ)
    (snapshot : List PathSnapshot)
    (hpmtu : ∀ ps ∈ snapshot, ps.pmtu = pmtu ps.name) :
    ∃ names : List String,
      (∀ name, name ∈ names ↔ ∃ ps ∈ snapshot, ps.name = name) ∧
      samplesByName cfg snapshot =
        names.map fun name => (name, sampleOf cfg pmtu snapshot name) := by
  induction snapshot using List.reverseRecOn with
  | nil => exact ⟨[], by simp, rfl⟩
  | append_singleton snapshot ps ih =>
    obtain ⟨names, hnames, heq⟩ :=
      ih fun ps' hmem => hpmtu ps' (List.mem_append_left _ hmem)
    have hps : ps.pmtu = pmtu ps.name := hpmtu ps (by simp)
    have hfst : (samplesByName cfg snapshot).map Prod.fst = names := by
      rw [heq, List.map_map]
      exact List.map_id names
    have hstep : samplesByName cfg (snapshot ++ [ps]) =
        sampleSnapshot cfg (samplesByName cfg snapshot) ps :=
      List.foldl_concat ..
    rw [hstep, sampleSnapshot, hfst, heq]
    by_cases hseen : ps.name ∈ names
    · refine ⟨names, fun name => ?_, ?_⟩
      · simp only [List.mem_append, List.mem_singleton, or_and_right,
          exists_or, exists_eq_left, ← hnames]
        exact ⟨Or.inl, fun h => h.elim id fun h => h ▸ hseen⟩
      · rw [if_pos hseen, List.map_map]
        refine List.map_congr_left fun name _ => ?_
        rw [← merge_sampleOf name hps, Function.comp_apply]
        split <;> rfl
    · have hfresh : ∀ ps' ∈ snapshot, ps'.name ≠ ps.name :=
        fun ps' hmem h => hseen ((hnames _).mpr ⟨ps', hmem, h⟩)
      refine ⟨names ++ [ps.name], fun name => ?_, ?_⟩
      · simp only [List.mem_append, List.mem_singleton, hnames, or_and_right,
          exists_or, exists_eq_left, @eq_comm _ name ps.name]
      rw [if_neg hseen, List.map_append, List.map_singleton]
      congr 1
      · refine List.map_congr_left fun name hmem => ?_
        rw [sampleOf, sampleOf,
          stateOf_append_other fun h => hseen (h ▸ hmem)]
      · rw [sampleOf, stateOf_append_fresh hfresh, hps]

theorem mem_samplesByName {sample : PathMTUSample}
    (h : (name, sample) ∈ samplesByName cfg (paths peers pmtu)) :
    sample = ⟨stateOf (paths peers pmtu) name,
      effectiveMTU cfg name (pmtu name) - outerHeadroom cfg⟩ := by
  obtain ⟨names, -, heq⟩ :=
    samplesByName_eq cfg pmtu (paths peers pmtu) fun _ => mem_paths
  rw [heq] at h
  obtain ⟨n, -, hn⟩ := List.mem_map.mp h
  cases hn
  rfl

/-- The samples that are up are those of the paths that are up. -/
theorem mem_sampleMTU_up {sample : PathMTUSample} :
    (sample ∈ sampleMTU cfg (paths peers pmtu) ∧ sample.state = .up) ↔
      ∃ name, PathUp peers name ∧ sample =
        ⟨.up, effectiveMTU cfg name (pmtu name) - outerHeadroom cfg⟩ := by
  obtain ⟨names, hnames, heq⟩ :=
    samplesByName_eq cfg pmtu (paths peers pmtu) fun _ => mem_paths
  rw [sampleMTU, heq, List.map_map]
  constructor
  · rintro ⟨hmem, hup⟩
    obtain ⟨name, -, rfl⟩ := List.mem_map.mp hmem
    have hex : ∃ ps ∈ paths peers pmtu, ps.name = name ∧ ps.state = .up := by
      by_contra hno
      simp [sampleOf, stateOf, hno] at hup
    refine ⟨name, (pathUp_iff pmtu).mpr hex, ?_⟩
    simp [sampleOf, stateOf, hex]
  rintro ⟨name, hup, rfl⟩
  have hex := (pathUp_iff pmtu).mp hup
  refine ⟨List.mem_map.mpr ⟨name, ?_, ?_⟩, rfl⟩
  · obtain ⟨ps, hmem, hname, -⟩ := hex
    exact (hnames name).mpr ⟨ps, hmem, hname⟩
  · simp [sampleOf, stateOf, hex]

/-! ## The smallest inner MTU -/

/-- One turn of the loop of `minInnerMTU`; `none` stands for `ok = false`. -/
def foldInner (least : Option ℤ) (s : PathMTUSample) : Option ℤ :=
  if s.state ≠ .up then least
  else
    match least with
    | none => some (innerMTU s.pmtu)
    | some m => if innerMTU s.pmtu < m then some (innerMTU s.pmtu) else some m

def minInnerMTU (samples : List PathMTUSample) : Option ℤ :=
  samples.foldl foldInner none

/-- The inner MTUs of the samples that are up. -/
def upInner (samples : List PathMTUSample) : Set ℤ :=
  {m | ∃ s ∈ samples, s.state = .up ∧ innerMTU s.pmtu = m}

theorem upInner_append_down {samples : List PathMTUSample} {s : PathMTUSample}
    (h : s.state ≠ .up) : upInner (samples ++ [s]) = upInner samples := by
  ext m
  simp [upInner, or_and_right, exists_or, h]

theorem upInner_append_up {samples : List PathMTUSample} {s : PathMTUSample}
    (h : s.state = .up) :
    upInner (samples ++ [s]) = insert (innerMTU s.pmtu) (upInner samples) := by
  ext m
  simp [upInner, or_and_right, exists_or, h, or_comm, eq_comm]

/-- `minInnerMTU` is the least inner MTU of the paths that are up, if there is
one. -/
theorem minInnerMTU_spec (samples : List PathMTUSample) :
    (minInnerMTU samples = none ∧ upInner samples = ∅) ∨
      ∃ m, minInnerMTU samples = some m ∧ IsLeast (upInner samples) m := by
  induction samples using List.reverseRecOn with
  | nil => exact .inl ⟨rfl, by simp [upInner]⟩
  | append_singleton samples s ih =>
    have hstep : minInnerMTU (samples ++ [s]) =
        foldInner (minInnerMTU samples) s := List.foldl_concat ..
    rw [hstep]
    unfold foldInner
    by_cases hup : s.state = .up
    · rw [if_neg (not_not.mpr hup), upInner_append_up hup]
      right
      rcases ih with ⟨hnone, hempty⟩ | ⟨m, hsome, hleast⟩
      · rw [hnone, hempty]
        exact ⟨_, rfl, by simp⟩
      rw [hsome]
      refine ⟨min (innerMTU s.pmtu) m, ?_, hleast.insert _⟩
      dsimp only
      split
      next hlt => rw [min_eq_left hlt.le]
      next hge => rw [min_eq_right (not_lt.mp hge)]
    · rw [if_pos hup, upInner_append_down hup]
      exact ih

theorem upInner_sampleMTU {m : ℤ} :
    m ∈ upInner (sampleMTU cfg (paths peers pmtu)) ↔
      ∃ name, PathUp peers name ∧
        innerMTU (effectiveMTU cfg name (pmtu name) - outerHeadroom cfg) = m := by
  constructor
  · rintro ⟨s, hmem, hup, hm⟩
    obtain ⟨name, hname, rfl⟩ := mem_sampleMTU_up.mp ⟨hmem, hup⟩
    exact ⟨name, hname, hm⟩
  · rintro ⟨name, hname, hm⟩
    obtain ⟨hmem, hup⟩ := mem_sampleMTU_up.mpr ⟨name, hname, rfl⟩
    exact ⟨_, hmem, hup, hm⟩

/-- With a path up, the chosen MTU is the inner MTU of the smallest path that is
up. -/
theorem exists_minInnerMTU (cfg : TunConfig) (pmtu : String → ℤ)
    (hup : ∃ name, PathUp peers name) :
    ∃ inner, minInnerMTU (sampleMTU cfg (paths peers pmtu)) = some inner ∧
      (∃ name, PathUp peers name ∧
        innerMTU (effectiveMTU cfg name (pmtu name) - outerHeadroom cfg) =
          inner) ∧
      ∀ name, PathUp peers name →
        inner ≤ innerMTU (effectiveMTU cfg name (pmtu name) -
          outerHeadroom cfg) := by
  obtain ⟨first, hfirst⟩ := hup
  rcases minInnerMTU_spec (sampleMTU cfg (paths peers pmtu)) with
    ⟨-, hempty⟩ | ⟨m, hsome, hmem, hle⟩
  · have hin : innerMTU (effectiveMTU cfg first (pmtu first) -
        outerHeadroom cfg) ∈ upInner (sampleMTU cfg (paths peers pmtu)) :=
      upInner_sampleMTU.mpr ⟨first, hfirst, rfl⟩
    rw [hempty] at hin
    exact absurd hin (Set.notMem_empty _)
  · exact ⟨m, hsome, upInner_sampleMTU.mp hmem, fun name hname =>
      hle (upInner_sampleMTU.mpr ⟨name, hname, rfl⟩)⟩

/-! ## Whether a full packet fits -/

/-- The headers of the underlay. -/
def udpOverhead : Family → ℤ
  | .v4 => ipv4UDPOverhead
  | .v6 => ipv6UDPOverhead

/-- The size on the underlay of an inner packet to which the obfuscation adds
`extra` bytes. -/
def wireSize (family : Family) (inner extra : ℤ) : ℤ :=
  inner + wgTransportOverhead + extra + Bond.overhead + udpOverhead family

theorem wireSize_innerMTU (family : Family) (outer headroom extra : ℤ) :
    wireSize family (innerMTU (outer - headroom)) extra =
      outer - headroom + extra + (udpOverhead family - ipv4UDPOverhead) := by
  simp only [wireSize, innerMTU]
  ring

/-- A full-size packet fits every path that is up exactly if every IPv6 path
that is up exceeds some path that is up by the 20 bytes its headers are
longer. -/
theorem full_packet_fits_iff
    (cfg : TunConfig) (pmtu : String → ℤ) (family : String → Family)
    (peers : List PeerSnapshot) (hup : ∃ name, PathUp peers name) :
    ∃ inner, minInnerMTU (sampleMTU cfg (paths peers pmtu)) = some inner ∧
      ((∀ name, PathUp peers name → ∀ extra, 0 ≤ extra →
          extra ≤ outerHeadroom cfg →
          wireSize (family name) inner extra ≤
            effectiveMTU cfg name (pmtu name)) ↔
        ∀ name, PathUp peers name → family name = .v6 →
          ∃ other, PathUp peers other ∧
            effectiveMTU cfg other (pmtu other) + 20 ≤
              effectiveMTU cfg name (pmtu name)) := by
  obtain ⟨inner, hsome, ⟨least, hleast, rfl⟩, hle⟩ :=
    exists_minInnerMTU cfg pmtu hup
  refine ⟨_, hsome, ?_, ?_⟩
  · intro hfits name hname hv6
    refine ⟨least, hleast, ?_⟩
    have hfull := hfits name hname (outerHeadroom cfg)
      (outerHeadroom_nonneg cfg) le_rfl
    rw [wireSize_innerMTU, hv6] at hfull
    simp only [udpOverhead, ipv4UDPOverhead, ipv6UDPOverhead] at hfull
    omega
  intro hgap name hname extra _ hextra
  rw [wireSize_innerMTU]
  have hmin := hle name hname
  simp only [innerMTU] at hmin
  cases hfam : family name with
  | v4 =>
    simp only [udpOverhead]
    omega
  | v6 =>
    obtain ⟨other, hother, hroom⟩ := hgap name hname hfam
    have hmin' := hle other hother
    simp only [innerMTU] at hmin'
    simp only [udpOverhead, ipv4UDPOverhead, ipv6UDPOverhead]
    omega

/-- A single IPv6 path of the default MTU is exceeded by 20 bytes. -/
theorem ipv6_path_exceeded :
    let cfg : TunConfig := ⟨[⟨"wan", 0⟩], {}⟩
    let peers : List PeerSnapshot := [⟨"hub", [⟨"wan", .up⟩]⟩]
    PathUp peers "wan" ∧
      minInnerMTU (sampleMTU cfg (paths peers fun _ => 0)) = some 1339 ∧
      effectiveMTU cfg "wan" 0 = 1500 ∧ wireSize .v6 1339 0 = 1520 := by
  refine ⟨⟨_, List.mem_singleton_self _, List.mem_singleton_self _⟩, ?_⟩
  decide

/-- An IPv6 path beside an IPv4 path that is 20 bytes smaller carries every
full-size packet. -/
theorem full_packet_fits_iff_mixed :
    let cfg : TunConfig := ⟨[⟨"lte", 1480⟩, ⟨"dsl", 1500⟩], ⟨30, 50⟩⟩
    let peers : List PeerSnapshot := [⟨"hub", [⟨"lte", .up⟩, ⟨"dsl", .up⟩]⟩]
    ∃ inner, minInnerMTU (sampleMTU cfg (paths peers fun _ => 0)) = some inner ∧
      ((∀ name, PathUp peers name → ∀ extra, 0 ≤ extra →
          extra ≤ outerHeadroom cfg →
          wireSize (if name = "dsl" then .v6 else .v4) inner extra ≤
            effectiveMTU cfg name 0) ↔
        ∀ name, PathUp peers name → (if name = "dsl" then Family.v6 else .v4) =
            .v6 →
          ∃ other, PathUp peers other ∧
            effectiveMTU cfg other 0 + 20 ≤ effectiveMTU cfg name 0) :=
  full_packet_fits_iff ⟨[⟨"lte", 1480⟩, ⟨"dsl", 1500⟩], ⟨30, 50⟩⟩ (fun _ => 0)
    (fun name => if name = "dsl" then .v6 else .v4)
    [⟨"hub", [⟨"lte", .up⟩, ⟨"dsl", .up⟩]⟩]
    ⟨"dsl", _, List.mem_singleton_self _,
      List.mem_cons_of_mem _ (List.mem_singleton_self _)⟩

/-! ## The resizer -/

def mtuResizeDwell : Duration := 5 * second

structure MTUResizer where
  dwell : Duration
  applied : ℤ
  /-- A debounced larger target; zero if there is none. -/
  pending : ℤ
  pendingSince : Time
  deriving DecidableEq, Repr

def newMTUResizer (bootMTU : ℤ) (dwell : Duration) : MTUResizer :=
  { dwell, applied := bootMTU, pending := 0, pendingSince := 0 }

namespace MTUResizer

/-- The larger target is remembered from its first appearance. -/
def awaitLarger (r : MTUResizer) (target : ℤ) (now : Time) : MTUResizer :=
  if r.pending ≠ target then { r with pending := target, pendingSince := now }
  else r

/-- Setting the link MTU, which succeeds if `applies`. -/
def apply (r : MTUResizer) (target : ℤ) (applies : Bool) : MTUResizer × Bool :=
  if applies then ({ r with pending := 0, applied := target }, true)
  else ({ r with pending := 0 }, false)

/-- The new state, and whether the link MTU changed. -/
def decide (r : MTUResizer) (samples : List PathMTUSample) (now : Time)
    (applies : Bool) : MTUResizer × Bool :=
  match minInnerMTU samples with
  | none => ({ r with pending := 0 }, false)
  | some target =>
    if target = r.applied then ({ r with pending := 0 }, false)
    else if r.applied < target then
      let r' := r.awaitLarger target now
      if now - r'.pendingSince < r'.dwell then (r', false)
      else r'.apply target applies
    else r.apply target applies

@[simp]
theorem awaitLarger_applied (r : MTUResizer) (target : ℤ) (now : Time) :
    (r.awaitLarger target now).applied = r.applied := by
  unfold awaitLarger
  split <;> rfl

@[simp]
theorem awaitLarger_dwell (r : MTUResizer) (target : ℤ) (now : Time) :
    (r.awaitLarger target now).dwell = r.dwell := by
  unfold awaitLarger
  split <;> rfl

/-- What a recomputation can do. -/
inductive Decides (r : MTUResizer) (samples : List PathMTUSample) (now : Time)
    (applies : Bool) : MTUResizer → Prop
  | keep (h : ∀ target, minInnerMTU samples = some target → target = r.applied) :
      Decides r samples now applies { r with pending := 0 }
  | wait {target : ℤ} (htarget : minInnerMTU samples = some target)
      (hlarger : r.applied < target) :
      Decides r samples now applies (r.awaitLarger target now)
  | grow {target : ℤ} (htarget : minInnerMTU samples = some target)
      (hlarger : r.applied < target)
      (hdwell : r.dwell ≤ now - (r.awaitLarger target now).pendingSince) :
      Decides r samples now applies
        ((r.awaitLarger target now).apply target applies).1
  | shrink {target : ℤ} (htarget : minInnerMTU samples = some target)
      (hsmaller : target < r.applied) :
      Decides r samples now applies (r.apply target applies).1

theorem decides_decide (r : MTUResizer) (samples : List PathMTUSample)
    (now : Time) (applies : Bool) :
    r.Decides samples now applies (r.decide samples now applies).1 := by
  unfold decide
  split
  next hnone => exact .keep fun target h => by rw [hnone] at h; cases h
  next target htarget =>
    split
    next heq =>
      exact .keep fun t h => (Option.some.inj (htarget.symm.trans h)).symm.trans heq
    next hne =>
      split
      next hlarger =>
        dsimp only
        split
        next => exact .wait htarget hlarger
        next hdwell =>
          rw [awaitLarger_dwell, not_lt] at hdwell
          exact .grow htarget hlarger hdwell
      next hnot => exact .shrink htarget (by omega)

/-- A recomputation leaves the link MTU or sets it to the chosen one. -/
theorem decide_applied (r : MTUResizer) (samples : List PathMTUSample)
    (now : Time) (applies : Bool) :
    (r.decide samples now applies).1.applied = r.applied ∨
      minInnerMTU samples = some (r.decide samples now applies).1.applied := by
  have hdecides := r.decides_decide samples now applies
  generalize (r.decide samples now applies).1 = r' at hdecides ⊢
  cases hdecides with
  | keep => exact .inl rfl
  | wait => exact .inl (r.awaitLarger_applied ..)
  | grow htarget =>
    cases applies with
    | false => exact .inl (r.awaitLarger_applied ..)
    | true => exact .inr htarget
  | shrink htarget =>
    cases applies with
    | false => exact .inl rfl
    | true => exact .inr htarget

/-! ### Runs -/

/-- A recomputation: the samples it reads and when, and whether the link takes
the MTU. -/
structure Recompute where
  samples : List PathMTUSample
  now : Time
  applies : Bool

def recompute (r : MTUResizer) (c : Recompute) : MTUResizer :=
  (r.decide c.samples c.now c.applies).1

def run (bootMTU : ℤ) (dwell : Duration) (cs : List Recompute) : MTUResizer :=
  cs.foldl recompute (newMTUResizer bootMTU dwell)

/-- The last recomputations, from one at time `since` on, all chose `target`. -/
def Chosen (cs : List Recompute) (target : ℤ) (since : Time) : Prop :=
  ∃ before first after, cs = before ++ first :: after ∧ first.now = since ∧
    ∀ c ∈ first :: after, minInnerMTU c.samples = some target

/-- Every recomputation since a larger target is awaited has chosen it. -/
def Watched (cs : List Recompute) (r : MTUResizer) : Prop :=
  r.pending ≠ 0 → Chosen cs r.pending r.pendingSince

variable {cs : List Recompute} {c : Recompute} {r : MTUResizer} {target : ℤ}
  {since : Time}

theorem Watched.await (h : Watched cs r)
    (hc : minInnerMTU c.samples = some target) (hne : target ≠ 0) :
    (r.awaitLarger target c.now).pending = target ∧
      Chosen (cs ++ [c]) target (r.awaitLarger target c.now).pendingSince := by
  unfold awaitLarger
  split
  · exact ⟨rfl, cs, c, [], rfl, rfl, by simpa using hc⟩
  next heq =>
    obtain rfl := not_not.mp heq
    obtain ⟨before, first, after, rfl, hsince, hall⟩ := h hne
    refine ⟨rfl, before, first, after ++ [c], by simp, hsince, ?_⟩
    intro x hx
    rcases List.mem_append.mp (List.cons_append ▸ hx) with hx | hx
    · exact hall x hx
    · rwa [List.mem_singleton.mp hx]

/-- What one recomputation does: it keeps the MTU, or sets it to its choice,
which is smaller, or has been awaited for the dwell. -/
theorem Watched.recompute (h : Watched cs r)
    (hc : minInnerMTU c.samples ≠ some 0) :
    Watched (cs ++ [c]) (r.recompute c) ∧ (r.recompute c).dwell = r.dwell ∧
    ((r.recompute c).applied = r.applied ∧ (c.applies = true →
        ∀ target, minInnerMTU c.samples = some target → r.applied ≤ target) ∨
      c.applies = true ∧
        minInnerMTU c.samples = some (r.recompute c).applied ∧
        ((r.recompute c).applied < r.applied ∨ ∃ since,
          Chosen (cs ++ [c]) (r.recompute c).applied since ∧
            r.dwell ≤ c.now - since)) := by
  have hdecides := r.decides_decide c.samples c.now c.applies
  change r.Decides c.samples c.now c.applies (r.recompute c) at hdecides
  generalize r.recompute c = r' at hdecides ⊢
  cases hdecides with
  | keep hkeep =>
    exact ⟨fun h => absurd rfl h, rfl, .inl ⟨rfl, fun _ target htarget =>
      (hkeep target htarget).ge⟩⟩
  | wait htarget hlarger =>
    obtain ⟨hpending, hchosen⟩ := h.await htarget fun hzero =>
      hc (hzero ▸ htarget)
    refine ⟨fun _ => ?_, r.awaitLarger_dwell .., .inl ⟨r.awaitLarger_applied ..,
      fun _ target htarget' => ?_⟩⟩
    · rwa [hpending]
    · rw [← Option.some.inj (htarget.symm.trans htarget')]
      exact hlarger.le
  | grow htarget hlarger hdwell =>
    obtain ⟨hpending, hchosen⟩ := h.await htarget fun hzero =>
      hc (hzero ▸ htarget)
    cases c.applies with
    | false =>
      exact ⟨fun h => absurd rfl h, r.awaitLarger_dwell ..,
        .inl ⟨r.awaitLarger_applied .., nofun⟩⟩
    | true =>
      exact ⟨fun h => absurd rfl h, r.awaitLarger_dwell ..,
        .inr ⟨rfl, htarget, .inr ⟨_, hchosen, hdwell⟩⟩⟩
  | shrink htarget hsmaller =>
    cases c.applies with
    | false => exact ⟨fun h => absurd rfl h, rfl, .inl ⟨rfl, nofun⟩⟩
    | true =>
      exact ⟨fun h => absurd rfl h, rfl, .inr ⟨rfl, htarget, .inl hsmaller⟩⟩

theorem watched_run (bootMTU : ℤ) (dwell : Duration)
    (hcs : ∀ x ∈ cs, minInnerMTU x.samples ≠ some 0) :
    Watched cs (run bootMTU dwell cs) ∧ (run bootMTU dwell cs).dwell = dwell := by
  induction cs using List.reverseRecOn with
  | nil => exact ⟨fun h => absurd rfl h, rfl⟩
  | append_singleton cs c ih =>
    obtain ⟨hwatched, hdwell⟩ := ih fun x hx => hcs x (by simp [hx])
    obtain ⟨hwatched', hdwell', -⟩ := hwatched.recompute (hcs c (by simp))
    rw [run, List.foldl_append]
    exact ⟨hwatched', hdwell'.trans hdwell⟩

/-- One recomputation after a run keeps the MTU, or sets it to its choice. -/
theorem run_append (bootMTU : ℤ) (dwell : Duration)
    (hzero : ∀ x ∈ cs ++ [c], minInnerMTU x.samples ≠ some 0) :
    let before := (run bootMTU dwell cs).applied
    let after := (run bootMTU dwell (cs ++ [c])).applied
    after = before ∧ (c.applies = true →
        ∀ target, minInnerMTU c.samples = some target → before ≤ target) ∨
      c.applies = true ∧ minInnerMTU c.samples = some after ∧
        (after < before ∨ ∃ since, Chosen (cs ++ [c]) after since ∧
          dwell ≤ c.now - since) := by
  obtain ⟨hwatched, hdwell⟩ :=
    watched_run bootMTU dwell fun x hx => hzero x (List.mem_append_left _ hx)
  obtain ⟨-, -, hstep⟩ := hwatched.recompute (hzero c (by simp))
  have hlast : run bootMTU dwell (cs ++ [c]) =
      (run bootMTU dwell cs).recompute c := List.foldl_append
  rwa [hdwell, ← hlast] at hstep

/-- The MTU of the interface over any run of recomputations.  It is lowered by
the first one that chooses less, if the link takes it; it is changed only to
what a recomputation chooses, so never while no path is up, and not by one that
the link refuses; and it is raised only once every recomputation for at least
the dwell has chosen the same larger value. -/
theorem resize_is_debounced (bootMTU : ℤ) (dwell : Duration)
    (cs : List Recompute) (c : Recompute)
    (hzero : ∀ x ∈ cs ++ [c], minInnerMTU x.samples ≠ some 0) :
    let before := (run bootMTU dwell cs).applied
    let after := (run bootMTU dwell (cs ++ [c])).applied
    (∀ target, minInnerMTU c.samples = some target → target < before →
      c.applies = true → after = target) ∧
    (after ≠ before → minInnerMTU c.samples = some after ∧ c.applies = true) ∧
    (before < after → ∃ since, Chosen (cs ++ [c]) after since ∧
      dwell ≤ c.now - since) := by
  rcases run_append bootMTU dwell hzero with
    ⟨hkept, hnotless⟩ | ⟨happlies, hchosen, hcause⟩
  · exact ⟨fun target htarget hless happlies =>
        absurd (hnotless happlies target htarget) hless.not_ge,
      fun hne => absurd hkept hne, fun hgrown => absurd hkept hgrown.ne'⟩
  exact ⟨fun target htarget _ _ =>
      Option.some.inj (hchosen.symm.trans htarget),
    fun _ => ⟨hchosen, happlies⟩,
    fun hgrown => hcause.resolve_left hgrown.not_gt⟩

theorem resize_is_debounced_larger :
    let wide : Recompute := ⟨[⟨.up, 1500⟩], 0, true⟩
    ∃ since, Chosen [wide, { wide with now := mtuResizeDwell }]
      (innerMTU 1500) since ∧ mtuResizeDwell ≤ mtuResizeDwell - since :=
  (resize_is_debounced 1280 mtuResizeDwell [⟨[⟨.up, 1500⟩], 0, true⟩]
    ⟨[⟨.up, 1500⟩], mtuResizeDwell, true⟩ (by decide)).2.2 (by decide)

/-- On a clock that does not go back, what comes after a time at which the
target was chosen has chosen it too. -/
theorem Chosen.recent (h : Chosen cs target since)
    (hclock : cs.Pairwise fun x y => x.now ≤ y.now) {x : Recompute}
    (hx : x ∈ cs) (hlate : since < x.now) :
    minInnerMTU x.samples = some target := by
  obtain ⟨before, first, after, rfl, rfl, hall⟩ := h
  refine hall x ((List.mem_append.mp hx).resolve_left fun hx => ?_)
  have hle := (List.pairwise_append.mp hclock).2.2 x hx first List.mem_cons_self
  exact hlate.not_ge hle

/-- On a clock that does not go back, the MTU is lowered by the first
recomputation that chooses less and whose apply succeeds.  It is raised only to
a value that all recomputations of the preceding dwell have chosen, and one
that is at least the dwell ago.  It stays as it is while no path is up, and if
the apply fails. -/
theorem raised_only_when_stable (bootMTU : ℤ) (dwell : Duration)
    (cs : List Recompute) (c : Recompute)
    (hzero : ∀ x ∈ cs ++ [c], minInnerMTU x.samples ≠ some 0)
    (hclock : (cs ++ [c]).Pairwise fun x y => x.now ≤ y.now) :
    let before := (run bootMTU dwell cs).applied
    let after := (run bootMTU dwell (cs ++ [c])).applied
    (∀ target, minInnerMTU c.samples = some target → target < before →
      c.applies = true → after = target) ∧
    (before < after →
      (∃ x ∈ cs ++ [c], x.now ≤ c.now - dwell ∧
        minInnerMTU x.samples = some after) ∧
      ∀ x ∈ cs ++ [c], c.now - dwell < x.now →
        minInnerMTU x.samples = some after) ∧
    (minInnerMTU c.samples = none ∨ c.applies = false → after = before) := by
  rcases run_append bootMTU dwell hzero with
    ⟨hkept, hnotless⟩ | ⟨happlies, hchosen, hcause⟩
  · exact ⟨fun target htarget hless happlies =>
        absurd (hnotless happlies target htarget) hless.not_ge,
      fun hgrown => absurd hkept hgrown.ne', fun _ => hkept⟩
  refine ⟨fun target htarget _ _ => ?_, fun hgrown => ?_, ?_⟩
  · exact Option.some.inj (hchosen.symm.trans htarget)
  · obtain ⟨since, hstable, hage⟩ := hcause.resolve_left hgrown.not_gt
    have hsince := le_sub_comm.mp hage
    refine ⟨?_, fun x hx hlate => hstable.recent hclock hx (hsince.trans_lt hlate)⟩
    obtain ⟨earlier, x, later, heq, rfl, hall⟩ := hstable
    exact ⟨x, by simp [heq], hsince, hall x List.mem_cons_self⟩
  · rintro (hnone | hfailed)
    · cases hnone.symm.trans hchosen
    · cases hfailed.symm.trans happlies

theorem raised_only_when_stable_larger :
    let wide : Recompute := ⟨[⟨.up, 1500⟩], 0, true⟩
    ∀ x ∈ [wide, { wide with now := mtuResizeDwell }], 0 < x.now →
      minInnerMTU x.samples = some (innerMTU 1500) :=
  ((raised_only_when_stable 1280 mtuResizeDwell [⟨[⟨.up, 1500⟩], 0, true⟩]
    ⟨[⟨.up, 1500⟩], mtuResizeDwell, true⟩ (by decide) (by simp; decide)).2.1
      (by decide)).2

end MTUResizer
end Device
end Wanbond
