import Wanbond.Device.Reload

/-!
# Changes that a reload ignores

A reload applies the path membership and the two endpoints.  It warns of other
changes: of the sections of the file, and of a path that keeps its name but not
its source, destination or bind mode.  It does not compare the declared MTU and
the ride-through time of such a path, and it drops the settings of a monitor
endpoint without an address.  After a reload without warnings the running
configuration agrees with the file exactly if nothing of this kind was changed
and no earlier reload has left the bind and the running configuration apart.
-/

namespace Wanbond.Device

open Wanbond.Config (Path File Monitor BindMode Role)
open Wanbond.Support

/-! ## The warnings -/

inductive ReloadWarning
  | role (live desired : Role)
  | exit (live desired : String)
  | psk
  | wireguard
  | amnezia
  | log
  | tunPersist (live desired : Bool)
  | dns
  | liveness
  | bind
  | pathAddrs (name : String)
  | pathBind (name : String)
  | reorder
  | other
  deriving DecidableEq, Repr

/-- A text in quotes, if it has no characters that need an escape. -/
def quote (s : String) : String := "\"" ++ s ++ "\""

def roleText : Role → String
  | .edge => "edge"
  | .concentrator => "concentrator"

def ReloadWarning.message : ReloadWarning → String
  | .role live desired =>
    "role " ++ quote (roleText live) ++ " -> " ++ quote (roleText desired)
  | .exit live desired =>
    "exit " ++ quote live ++ " -> " ++ quote desired ++
      " — restart to apply the configured default"
  | .psk => "psk changed"
  | .wireguard => "wireguard section changed"
  | .amnezia => "amnezia section changed"
  | .log => "log section changed"
  | .tunPersist live desired =>
    "tun_persist " ++ toString live ++ " -> " ++ toString desired ++
      " — the running interface keeps its original persistence; ignored until restart"
  | .dns =>
    "dns section changed — the running resolver configuration" ++
      " is unchanged until restart"
  | .liveness =>
    "liveness section changed — the running liveness thresholds" ++
      " are unchanged until restart"
  | .bind =>
    "default bind mode changed — running sockets keep their original binding"
  | .pathAddrs name =>
    "path " ++ quote name ++
      " source/dest changed — the running path keeps its original binding"
  | .pathBind name =>
    "path " ++ quote name ++
      " bind mode changed — the running socket keeps its original binding"
  | .reorder =>
    "path priority order changed (reorder) — the running order is unchanged"
  | .other =>
    "other config section changed — reload does not apply it; restart required"

def warnIf (changed : Prop) [Decidable changed] (w : ReloadWarning) :
    List ReloadWarning :=
  if changed then [w] else []

/-- The comparison of a desired path with the live one of its name.  In the map
by name the last entry counts. -/
def pathWarnings (live : List Path) (d : Path) : List ReloadWarning :=
  match live.reverse.find? fun l => l.name = d.name with
  | none => []
  | some l =>
    warnIf (l.sourceAddr ≠ d.sourceAddr ∨ l.destAddr ≠ d.destAddr)
        (.pathAddrs d.name) ++
      warnIf (l.bind ≠ d.bind) (.pathBind d.name)

/-- The names of the paths that the other list has, too. -/
def commonNames (paths others : List Path) : List String :=
  (paths.filter fun p => p.name ∈ others.map Path.name).map Path.name

/-- The common paths come in another order. -/
def reordered (live desired : List Path) : Bool :=
  ((commonNames live desired).zip (commonNames desired live)).any fun names =>
    names.1 ≠ names.2

/-- The file with every field reset that is compared on its own or applied. -/
def unhandled (c : File) : File :=
  { c with
    role := .edge
    exit := ""
    psk := ""
    wireguard := {}
    amnezia := {}
    log := {}
    tunPersist := false
    dns := {}
    liveness := {}
    bind := .auto
    paths := []
    metrics := {}
    monitor := {}
    livenessBudgetSane := true }

def reloadWarnings (live desired : File) : List ReloadWarning :=
  warnIf (live.role ≠ desired.role) (.role live.role desired.role) ++
  warnIf (live.exit ≠ desired.exit) (.exit live.exit desired.exit) ++
  warnIf (live.psk ≠ desired.psk) .psk ++
  warnIf (live.wireguard ≠ desired.wireguard) .wireguard ++
  warnIf (live.amnezia ≠ desired.amnezia) .amnezia ++
  warnIf (live.log ≠ desired.log) .log ++
  warnIf (live.tunPersist ≠ desired.tunPersist)
    (.tunPersist live.tunPersist desired.tunPersist) ++
  warnIf (live.dns ≠ desired.dns) .dns ++
  warnIf (live.liveness ≠ desired.liveness) .liveness ++
  warnIf (live.bind ≠ desired.bind) .bind ++
  desired.paths.flatMap (pathWarnings live.paths) ++
  warnIf (reordered live.paths desired.paths = true) .reorder ++
  warnIf (unhandled live ≠ unhandled desired) .other

/-! ## What silence says -/

theorem warnIf_eq_nil {changed : Prop} [Decidable changed] {w : ReloadWarning} :
    warnIf changed w = [] ↔ ¬ changed := by
  unfold warnIf
  split_ifs with h <;> simp [h]

/-- What an empty list of warnings says of two files. -/
structure Silent (live desired : File) : Prop where
  role : live.role = desired.role
  exit : live.exit = desired.exit
  psk : live.psk = desired.psk
  wireguard : live.wireguard = desired.wireguard
  amnezia : live.amnezia = desired.amnezia
  log : live.log = desired.log
  tunPersist : live.tunPersist = desired.tunPersist
  dns : live.dns = desired.dns
  liveness : live.liveness = desired.liveness
  bind : live.bind = desired.bind
  scheduler : live.scheduler = desired.scheduler
  paths : ∀ d ∈ desired.paths, pathWarnings live.paths d = []
  order : reordered live.paths desired.paths = false

theorem silent_of_no_warnings {live desired : File}
    (h : reloadWarnings live desired = []) : Silent live desired := by
  unfold reloadWarnings at h
  simp only [List.append_eq_nil_iff, warnIf_eq_nil, not_not,
    List.flatMap_eq_nil_iff, Bool.not_eq_true, and_assoc] at h
  obtain ⟨role, exit, psk, wireguard, amnezia, log, tunPersist, dns, liveness,
    bind, paths, order, other⟩ := h
  have scheduler : (unhandled live).scheduler = (unhandled desired).scheduler :=
    congrArg File.scheduler other
  exact ⟨role, exit, psk, wireguard, amnezia, log, tunPersist, dns, liveness,
    bind, scheduler, paths, order⟩

theorem mem_commonNames {paths others : List Path} {name : String} :
    name ∈ commonNames paths others ↔
      name ∈ paths.map Path.name ∧ name ∈ others.map Path.name := by
  unfold commonNames
  simp only [List.mem_map, List.mem_filter, decide_eq_true_eq]
  constructor
  · rintro ⟨p, ⟨hp, q, hq, hname⟩, rfl⟩
    exact ⟨⟨p, hp, rfl⟩, q, hq, hname⟩
  · rintro ⟨⟨p, hp, rfl⟩, q, hq, hname⟩
    exact ⟨p, ⟨hp, q, hq, hname⟩, rfl⟩

theorem nodup_commonNames {paths others : List Path}
    (h : (paths.map Path.name).Nodup) : (commonNames paths others).Nodup :=
  h.sublist ((List.filter_sublist).map Path.name)

variable {live desired : List Path}

theorem same_of_pathWarnings {l d : Path}
    (hnodup : (commonNames live desired).Nodup) (hl : l ∈ live)
    (hd : d ∈ desired) (hname : l.name = d.name) (h : pathWarnings live d = []) :
    l.sourceAddr = d.sourceAddr ∧ l.destAddr = d.destAddr ∧
      l.bind = d.bind := by
  have hfind : live.reverse.find? (fun p => p.name = d.name) = some l := by
    cases hfind : live.reverse.find? fun p => p.name = d.name with
    | none =>
      have hnone := List.find?_eq_none.mp hfind l (List.mem_reverse.mpr hl)
      exact absurd (decide_eq_true hname) hnone
    | some l' =>
      -- both are live paths with the name of a desired one
      have hmem : ∀ {p : Path}, p ∈ live → p.name = d.name →
          p ∈ live.filter fun p => p.name ∈ desired.map Path.name :=
        fun hp heq => List.mem_filter.mpr
          ⟨hp, decide_eq_true (heq ▸ List.mem_map_of_mem hd)⟩
      have hname' : l'.name = d.name := by simpa using List.find?_some hfind
      have hl' := List.mem_reverse.mp (List.mem_of_find?_eq_some hfind)
      rw [List.inj_on_of_nodup_map hnodup (hmem hl' hname') (hmem hl hname)
        (hname'.trans hname.symm)]
  unfold pathWarnings at h
  rw [hfind] at h
  simp only [List.append_eq_nil_iff, warnIf_eq_nil, not_or, not_not] at h
  exact ⟨h.1.1, h.1.2, h.2⟩

theorem eq_of_zip_eq {xs ys : List String} (hlength : xs.length = ys.length)
    (h : ∀ p ∈ xs.zip ys, p.1 = p.2) : xs = ys := by
  refine List.ext_getElem hlength fun i hi hi' => ?_
  have hmem : (xs[i], ys[i]) ∈ xs.zip ys := by
    rw [← List.getElem_zip (h := by simp; omega)]
    exact List.getElem_mem _
  exact h _ hmem

theorem commonNames_eq (hlive : (commonNames live desired).Nodup)
    (hdesired : (desired.map Path.name).Nodup)
    (h : reordered live desired = false) :
    commonNames live desired = commonNames desired live := by
  have hperm : (commonNames live desired).Perm (commonNames desired live) := by
    rw [List.perm_ext_iff_of_nodup hlive (nodup_commonNames hdesired)]
    intro name
    rw [mem_commonNames, mem_commonNames, and_comm]
  refine eq_of_zip_eq hperm.length_eq fun names hnames => ?_
  unfold reordered at h
  rw [List.any_eq_false] at h
  simpa using h names hnames

/-! ## Agreement -/

/-- The running configuration has the fields of the file, up to the position of
the paths that were not live before. -/
structure Agrees (live : List String) (running desired : File) : Prop where
  rest : { running with paths := [] } = { desired with paths := [] }
  common : (running.paths.filter fun p => p.name ∈ live) =
    desired.paths.filter fun p => p.name ∈ live
  added : (running.paths.filter fun p => p.name ∉ live) =
    desired.paths.filter fun p => p.name ∉ live

/-- A path that keeps its name keeps its declared MTU and its ride-through time,
and a monitor endpoint without an address has no settings. -/
structure KeepsRest (live desired : File) : Prop where
  paths : ∀ l ∈ live.paths, ∀ d ∈ desired.paths, l.name = d.name →
    l.mtu = d.mtu ∧ l.rideThrough = d.rideThrough
  monitor : desired.monitor.listen = "" → desired.monitor = {}

namespace Tunnel

/-- The bind has every running path, the running configuration has every desired
path of the bind, and it has none of the desired names twice. -/
structure InStep (t : Tunnel) (cfg : File) : Prop where
  bound : ∀ p ∈ t.cfg.paths, p.name ∈ pathNames t.bind
  known : ∀ d ∈ cfg.paths, d.name ∈ pathNames t.bind →
    d.name ∈ t.cfg.paths.map Path.name
  distinct : (commonNames t.cfg.paths cfg.paths).Nodup

variable {t : Tunnel} {cfg : File}

theorem effective_eq_self_iff (m : Monitor) :
    effective m = m ↔ (m.listen = "" → m = {}) := by
  unfold effective
  split_ifs with h
  · exact ⟨fun heq _ => heq.symm, fun hself => (hself h).symm⟩
  · exact ⟨fun _ hempty => absurd hempty h, fun _ => rfl⟩

theorem rest_reloadedConfig_iff (h : Silent t.cfg cfg) :
    ({ t.reloadedConfig cfg with paths := [] } : File) =
        { cfg with paths := [] } ↔
      effective cfg.monitor = cfg.monitor := by
  have hrest : ({ t.reloadedConfig cfg with paths := [] } : File) =
      { cfg with paths := [], monitor := effective cfg.monitor } := by
    simp only [reloadedConfig, runningConfig, h.role, h.exit, h.psk,
      h.wireguard, h.amnezia, h.log, h.tunPersist, h.dns, h.liveness, h.bind,
      h.scheduler]
  rw [hrest]
  exact ⟨congrArg File.monitor, fun heq => by rw [heq]⟩

/-- The paths that survive a reload. -/
def survivors (live : List Path) (desired : List Path) : List Path :=
  live.filter fun p => p.name ∈ desired.map Path.name

theorem paths_reloadedConfig (t : Tunnel) (cfg : File) :
    (t.reloadedConfig cfg).paths =
      (t.cfg.paths.filter fun p =>
        p.name ∈ pathNames t.bind → p.name ∈ cfg.paths.map Path.name) ++
      cfg.paths.filter fun p => p.name ∉ pathNames t.bind := by
  change (t.cfg.paths.filter fun p => p.name ∉ (t.changes cfg).2) ++ _ = _
  congr 1
  refine List.filter_congr fun p _ => ?_
  simp [changes, diffPaths]

theorem common_reloadedConfig
    (hbound : ∀ p ∈ t.cfg.paths, p.name ∈ pathNames t.bind) (cfg : File) :
    ((t.reloadedConfig cfg).paths.filter fun p =>
        p.name ∈ t.cfg.paths.map Path.name) =
      survivors t.cfg.paths cfg.paths := by
  have hold : (t.cfg.paths.filter fun p =>
      p.name ∈ pathNames t.bind → p.name ∈ cfg.paths.map Path.name) =
      survivors t.cfg.paths cfg.paths :=
    List.filter_congr fun p hp => by simp [hbound p hp]
  have hkept : (survivors t.cfg.paths cfg.paths).filter
      (fun p => decide (p.name ∈ t.cfg.paths.map Path.name)) =
      survivors t.cfg.paths cfg.paths :=
    List.filter_eq_self.mpr fun p hp =>
      decide_eq_true (List.mem_map_of_mem (List.mem_filter.mp hp).1)
  have hnew : (cfg.paths.filter fun p => p.name ∉ pathNames t.bind).filter
      (fun p => decide (p.name ∈ t.cfg.paths.map Path.name)) = [] := by
    refine List.filter_eq_nil_iff.mpr fun p hp hlive => ?_
    obtain ⟨l, hl, hname⟩ := List.mem_map.mp (of_decide_eq_true hlive)
    have hfresh := of_decide_eq_true (List.mem_filter.mp hp).2
    exact hfresh (hname ▸ hbound l hl)
  rw [paths_reloadedConfig, List.filter_append, hold, hkept, hnew,
    List.append_nil]

theorem added_reloadedConfig
    (hknown : ∀ d ∈ cfg.paths, d.name ∈ pathNames t.bind →
      d.name ∈ t.cfg.paths.map Path.name) :
    ((t.reloadedConfig cfg).paths.filter fun p =>
        p.name ∉ t.cfg.paths.map Path.name) =
      cfg.paths.filter fun p => p.name ∉ t.cfg.paths.map Path.name := by
  have hold : (t.cfg.paths.filter fun p =>
      p.name ∈ pathNames t.bind → p.name ∈ cfg.paths.map Path.name).filter
      (fun p => decide (p.name ∉ t.cfg.paths.map Path.name)) = [] :=
    List.filter_eq_nil_iff.mpr fun p hp => by
      simpa using ⟨p, (List.mem_filter.mp hp).1, rfl⟩
  rw [paths_reloadedConfig, List.filter_append, hold, List.nil_append,
    List.filter_filter]
  refine List.filter_congr fun d hd => ?_
  by_cases hlive : d.name ∈ t.cfg.paths.map Path.name
  · simp [hlive]
  · simp [hlive, mt (hknown d hd) hlive]

/-- A running path that the bind has lost would be added a second time. -/
theorem bound_of_agrees (hnames : (cfg.paths.map Path.name).Nodup)
    (h : Agrees (t.cfg.paths.map Path.name) (t.reloadedConfig cfg) cfg) :
    ∀ p ∈ t.cfg.paths, p.name ∈ pathNames t.bind := by
  intro p hp
  by_contra hlost
  have hlive : decide (p.name ∈ t.cfg.paths.map Path.name) = true :=
    decide_eq_true (List.mem_map_of_mem hp)
  have hcommon := h.common
  have hnodup : (cfg.paths.filter fun p =>
      p.name ∈ t.cfg.paths.map Path.name).Nodup := (hnames.of_map _).filter _
  rw [paths_reloadedConfig, List.filter_append] at hcommon
  rw [← hcommon, List.nodup_append] at hnodup
  have hold : p ∈ (t.cfg.paths.filter fun p =>
      p.name ∈ pathNames t.bind → p.name ∈ cfg.paths.map Path.name).filter
      fun p => p.name ∈ t.cfg.paths.map Path.name :=
    List.mem_filter.mpr ⟨List.mem_filter.mpr
      ⟨hp, decide_eq_true fun hbound => absurd hbound hlost⟩, hlive⟩
  have hdesired : p ∈ cfg.paths :=
    List.mem_of_mem_filter (hcommon ▸ List.mem_append_left _ hold)
  exact hnodup.2.2 p hold p (List.mem_filter.mpr ⟨List.mem_filter.mpr
    ⟨hdesired, decide_eq_true hlost⟩, hlive⟩) rfl

theorem known_of_agrees
    (h : Agrees (t.cfg.paths.map Path.name) (t.reloadedConfig cfg) cfg) :
    ∀ d ∈ cfg.paths, d.name ∈ pathNames t.bind →
      d.name ∈ t.cfg.paths.map Path.name := by
  intro d hd hbound
  by_contra hnew
  have hmem : d ∈ (t.reloadedConfig cfg).paths.filter fun p =>
      p.name ∉ t.cfg.paths.map Path.name := by
    rw [h.added]
    exact List.mem_filter.mpr ⟨hd, decide_eq_true hnew⟩
  have hrunning := (List.mem_filter.mp hmem).1
  rw [paths_reloadedConfig, List.mem_append] at hrunning
  rcases hrunning with hold | hadded
  · exact hnew (List.mem_map_of_mem (List.mem_filter.mp hold).1)
  · exact of_decide_eq_true (List.mem_filter.mp hadded).2 hbound

/-- The survivors are the desired paths of their names exactly if they are
distinct and keep their MTU and their ride-through time. -/
theorem survivors_eq_iff (hdesired : (desired.map Path.name).Nodup)
    (hsilent : ∀ d ∈ desired, pathWarnings live d = [])
    (horder : reordered live desired = false) :
    (survivors live desired =
        desired.filter fun p => p.name ∈ live.map Path.name) ↔
      (commonNames live desired).Nodup ∧
      ∀ l ∈ live, ∀ d ∈ desired, l.name = d.name →
        l.mtu = d.mtu ∧ l.rideThrough = d.rideThrough := by
  constructor
  · intro heq
    refine ⟨?_, fun l hl d hd hname => ?_⟩
    · change ((survivors live desired).map Path.name).Nodup
      rw [heq]
      exact nodup_commonNames hdesired
    have hl' : l ∈ survivors live desired :=
      List.mem_filter.mpr ⟨hl, decide_eq_true (hname ▸ List.mem_map_of_mem hd)⟩
    rw [heq] at hl'
    have hsame : l = d := List.inj_on_of_nodup_map hdesired
      (List.mem_filter.mp hl').1 hd hname
    exact hsame ▸ ⟨rfl, rfl⟩
  rintro ⟨hlive, hrest⟩
  have hnames : (survivors live desired).map Path.name =
      (desired.filter fun p => p.name ∈ live.map Path.name).map Path.name :=
    commonNames_eq hlive hdesired horder
  refine Keyed.eq_of_map_key_eq hnames fun l hl d hd hname => ?_
  have hl' := (List.mem_filter.mp hl).1
  have hd' := (List.mem_filter.mp hd).1
  obtain ⟨hsource, hdest, hbind⟩ :=
    same_of_pathWarnings hlive hl' hd' hname (hsilent d hd')
  obtain ⟨hmtu, hride⟩ := hrest l hl' d hd' hname
  cases l
  cases d
  simp_all

/-- After a reload that succeeds without a warning, of a file with distinct path
names, the running configuration agrees with the file exactly if the paths that
keep their names keep their MTU and ride-through time, a monitor without an
address has no settings, and the bind and the running configuration were in
step on the names. -/
theorem silent_reload_agrees_iff (t : Tunnel) (cfg : File)
    (hnames : (cfg.paths.map Path.name).Nodup) (o : ReloadOutcomes)
    (hsilent : reloadWarnings t.cfg cfg = [])
    (hdone : (t.reload cfg o).2 = none) :
    Agrees (t.cfg.paths.map Path.name) (t.reload cfg o).1.cfg cfg ↔
      KeepsRest t.cfg cfg ∧ t.InStep cfg := by
  obtain ⟨t', err, heq, hreload⟩ := t.reload_cases cfg o
  rw [heq] at hdone ⊢
  subst hdone
  cases hreload with
  | done hcfg =>
    have hquiet := silent_of_no_warnings hsilent
    have hpaths := survivors_eq_iff hnames hquiet.paths hquiet.order
    dsimp only
    rw [hcfg]
    constructor
    · intro h
      have hbound := bound_of_agrees hnames h
      obtain ⟨hdistinct, hkept⟩ := hpaths.mp
        ((common_reloadedConfig hbound cfg).symm.trans h.common)
      refine ⟨⟨hkept, ?_⟩, hbound, known_of_agrees h, hdistinct⟩
      exact (effective_eq_self_iff _).mp
        ((rest_reloadedConfig_iff hquiet).mp h.rest)
    rintro ⟨hkeeps, hstep⟩
    refine ⟨?_, ?_, added_reloadedConfig hstep.known⟩
    · exact (rest_reloadedConfig_iff hquiet).mpr
        ((effective_eq_self_iff _).mpr hkeeps.monitor)
    · rw [common_reloadedConfig hstep.bound cfg]
      exact hpaths.mpr ⟨hstep.distinct, hkeeps.paths⟩

/-- A reload that adds two paths is silent, and the configurations agree. -/
theorem silent_reload_agrees_threePaths :
    reloadWarnings onePath.cfg threePaths = [] ∧
      (onePath.reload threePaths (listening .bound)).2 = none ∧
      Agrees ["wan"] (onePath.reload threePaths (listening .bound)).1.cfg
        threePaths :=
  ⟨by decide, by decide, (silent_reload_agrees_iff onePath threePaths (by decide)
    (listening .bound) (by decide) (by decide)).mpr
    ⟨⟨by decide, by decide⟩, by decide, by decide, by decide⟩⟩

/-- The file declares an MTU and a ride-through time for the live path. -/
def declaredMTU : File :=
  { role := .edge
    paths := [⟨"wan", .v4 1, none, .auto, 1400, 5⟩] }

/-- The reload succeeds without a warning, and the running configuration has
neither the MTU nor the ride-through time. -/
theorem declared_mtu_ignored_silently :
    reloadWarnings onePath.cfg declaredMTU = [] ∧
      (onePath.reload declaredMTU (listening .bound)).2 = none ∧
      ((onePath.reload declaredMTU (listening .bound)).1.cfg.paths.map fun p =>
        (p.name, p.mtu, p.rideThrough)) = [("wan", 0, 0)] ∧
      (declaredMTU.paths.map fun p => (p.name, p.mtu, p.rideThrough)) =
        [("wan", 1400, 5)] := by
  decide

end Tunnel

end Wanbond.Device
