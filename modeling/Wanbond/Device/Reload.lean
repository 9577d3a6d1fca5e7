import Wanbond.Bind.Membership
import Wanbond.Config.File
import Wanbond.Support.Runs

/-!
# Reloading the configuration

A running tunnel takes over a reloaded configuration: it rebinds its two
endpoints, adds the new paths to the bind and removes those that are gone.  The
first failure ends the reload.  Only a reload that succeeds advances the running
configuration, though paths may have been added and removed before a failure.

So the paths of the running configuration are those of the bind as long as every
reload that fails does so at an endpoint or at its first change of the bind.
Servers and sockets are represented by whether starting and closing them
succeeds; logs and gauges are left out.
-/

namespace Wanbond.Device

open Wanbond.Bind (Multipath PathDef Outcomes BindError)
open Wanbond.Config (Path File Monitor AddrPort IPAddr)
open Wanbond.Support

/-! ## The tunnel -/

/-- An endpoint that runs has an address. -/
structure Tunnel where
  cfg : File
  bind : Multipath AddrPort
  metricsSrv : Option { listen : String // listen ≠ "" }
  monitorSrv : Option { m : Monitor // m.listen ≠ "" }

inductive ReloadError
  | metrics
  | monitor
  | addPath (path : String) (err : BindError)
  | removePath (path : String) (err : BindError)
  /-- The path was removed, but closing its socket failed. -/
  | closeSocket (path : String)
  deriving DecidableEq, Repr

/-- The outcomes of a call: whether the endpoints come up, what adding a path
meets, and whether the socket of a removed path closes without an error. -/
structure ReloadOutcomes where
  metrics : Bool
  monitor : Bool
  bind : String → Outcomes
  closes : String → Bool

/-- The bind's view of a path definition. -/
def pathDef (p : Path) : PathDef AddrPort :=
  ⟨p.name, p.sourceAddr.isValid, p.destAddr⟩

/-- `PathNames`: the durable membership, including the deferred paths. -/
def pathNames (m : Multipath AddrPort) : List String := m.defs.map PathDef.name

namespace Tunnel

def metricsListen (t : Tunnel) : String :=
  match t.metricsSrv with
  | some srv => srv.1
  | none => ""

/-- What the running monitor endpoint was started with; empty if none runs. -/
def monitorState (t : Tunnel) : Monitor :=
  match t.monitorSrv with
  | some srv => srv.1
  | none => {}

/-- On a failure the previous endpoint is left running. -/
def applyMetrics (t : Tunnel) (listen : String) (up : Bool) : Tunnel × Bool :=
  if listen = t.metricsListen then (t, true)
  else if h : listen = "" then ({ t with metricsSrv := none }, true)
  else if up then ({ t with metricsSrv := some ⟨listen, h⟩ }, true)
  else (t, false)

/-- An endpoint that keeps its address is stopped before it is started anew, so
it stays down on a failure. -/
def applyMonitor (t : Tunnel) (m : Monitor) (up : Bool) : Tunnel × Bool :=
  if m = t.monitorState then (t, true)
  else if h : m.listen = "" then ({ t with monitorSrv := none }, true)
  else if up then ({ t with monitorSrv := some ⟨m, h⟩ }, true)
  else if m.listen = t.monitorState.listen then
    ({ t with monitorSrv := none }, false)
  else (t, false)

end Tunnel

/-! ## The difference -/

/-- Which of the desired paths are new, and which live ones are gone. -/
def diffPaths (live : List String) (desired : List Path) :
    List Path × List String :=
  (desired.filter fun p => p.name ∉ live,
    live.filter fun name => name ∉ desired.map Path.name)

/-- The survivors as they were, and the added paths after them. -/
def runningConfig (live : File) (add : List Path) (remove : List String) :
    File :=
  { live with paths := (live.paths.filter fun p => p.name ∉ remove) ++ add }

def addPaths (o : ReloadOutcomes) :
    List Path → Multipath AddrPort → Multipath AddrPort × Option ReloadError
  | [], m => (m, none)
  | p :: add, m =>
    match m.addPath (o.bind p.name) (pathDef p) with
    | (m', some e) => (m', some (.addPath p.name e))
    | (m', none) => addPaths o add m'

/-- `RemovePath` with the closing of the socket, whose error it returns. -/
def removeAndClose (o : ReloadOutcomes) (m : Multipath AddrPort)
    (name : String) : Multipath AddrPort × Option ReloadError :=
  match m.removePath name with
  | (m', some e) => (m', some (.removePath name e))
  | (m', none) =>
    if name ∈ m.shared.map Bind.SharedPath.name ∧ o.closes name = false then
      (m', some (.closeSocket name))
    else (m', none)

def removePaths (o : ReloadOutcomes) :
    List String → Multipath AddrPort → Multipath AddrPort × Option ReloadError
  | [], m => (m, none)
  | name :: remove, m =>
    match removeAndClose o m name with
    | (m', some e) => (m', some e)
    | (m', none) => removePaths o remove m'

/-- The additions come first, so that a failed one finds the live paths in
service. -/
def changePaths (o : ReloadOutcomes) (add : List Path) (remove : List String)
    (m : Multipath AddrPort) : Multipath AddrPort × Option ReloadError :=
  match addPaths o add m with
  | (m', some e) => (m', some e)
  | (m', none) => removePaths o remove m'

namespace Tunnel

/-- The running configuration after a reload that went through. -/
def advance (t : Tunnel) (cfg : File) (add : List Path)
    (remove : List String) : File :=
  { runningConfig t.cfg add remove with
    metrics := { listen := t.metricsListen }
    monitor := t.monitorState
    livenessBudgetSane := cfg.livenessBudgetSane }

def reload (t : Tunnel) (cfg : File) (o : ReloadOutcomes) :
    Tunnel × Option ReloadError :=
  match t.applyMetrics cfg.metrics.listen o.metrics with
  | (t, false) => (t, some .metrics)
  | (t, true) =>
    match t.applyMonitor cfg.monitor o.monitor with
    | (t, false) => (t, some .monitor)
    | (t, true) =>
      let (add, remove) := diffPaths (pathNames t.bind) cfg.paths
      match changePaths o add remove t.bind with
      | (bind, some e) => ({ t with bind }, some e)
      | (bind, none) =>
        ({ t with bind, cfg := t.advance cfg add remove }, none)

end Tunnel

/-! ## What a reload does to the bind -/

section Bind

variable {m : Multipath AddrPort} {o : ReloadOutcomes} {p : Path}
  {add : List Path} {remove : List String} {name : String}

/-- A path is added at the end of the definitions, or they stay as they are. -/
theorem defs_addPath (m : Multipath AddrPort) (o : Outcomes)
    (d : PathDef AddrPort) :
    (∃ m' e, m.addPath o d = (m', some e) ∧ m'.defs = m.defs) ∨
      ∃ m', m.addPath o d = (m', none) ∧ m'.defs = m.defs ++ [d] ∧
        d.name ∉ m.defs.map PathDef.name := by
  unfold Multipath.addPath
  split
  · exact .inl ⟨m, _, rfl, rfl⟩
  split
  · exact .inl ⟨m, _, rfl, rfl⟩
  split
  · exact .inl ⟨m, _, rfl, rfl⟩
  split
  · exact .inl ⟨m, _, rfl, rfl⟩
  next hname =>
    split
    · exact .inl ⟨m, _, rfl, rfl⟩
    split
    · exact .inl ⟨m, _, rfl, rfl⟩
    · split
      · exact .inl ⟨m, _, rfl, rfl⟩
      · exact .inr ⟨_, rfl, rfl, hname⟩
    · split
      · exact .inl ⟨_, _, rfl, rfl⟩
      · exact .inr ⟨_, rfl, rfl, hname⟩

theorem defs_removeDurable (m : Multipath AddrPort) {i : ℕ}
    (hi : m.defs.findIdx? (fun d => d.name = name) = some i) :
    (∃ m' e, m.removeDurable i name = (m', some e) ∧ m'.defs = m.defs) ∨
      ∃ m', m.removeDurable i name = (m', none) ∧
        m'.defs = Keyed.remove PathDef.name name m.defs := by
  unfold Multipath.removeDurable
  split_ifs
  · exact .inl ⟨m, _, rfl, rfl⟩
  · exact .inr ⟨_, rfl, Keyed.eraseIdx_eq_remove hi⟩

theorem defs_removePath (m : Multipath AddrPort) (name : String) :
    (∃ m' e, m.removePath name = (m', some e) ∧ m'.defs = m.defs) ∨
      ∃ m', m.removePath name = (m', none) ∧
        m'.defs = Keyed.remove PathDef.name name m.defs := by
  unfold Multipath.removePath
  split
  · exact .inl ⟨m, _, rfl, rfl⟩
  split
  · exact .inl ⟨m, _, rfl, rfl⟩
  next i hi =>
    split
    · exact defs_removeDurable m hi
    split
    · exact .inl ⟨m, _, rfl, rfl⟩
    · exact defs_removeDurable { m with
        peers := m.peers.map fun p => Multipath.detachPeerPathBound p name
        shared := Keyed.remove Bind.SharedPath.name name m.shared } hi

theorem pathNames_addPaths (h : (addPaths o add m).2 = none) :
    pathNames (addPaths o add m).1 = pathNames m ++ add.map Path.name ∧
      ((pathNames m).Nodup → (pathNames (addPaths o add m).1).Nodup) := by
  induction add generalizing m with
  | nil => simp [addPaths]
  | cons p add ih =>
    obtain ⟨m', e, heq, -⟩ | ⟨m', heq, hdefs, hnew⟩ :=
      defs_addPath m (o.bind p.name) (pathDef p)
    · simp [addPaths, heq] at h
    simp only [addPaths, heq] at h ⊢
    obtain ⟨hnames, hnodup⟩ := ih h
    have hone : pathNames m' = pathNames m ++ [p.name] := by
      rw [pathNames, hdefs, List.map_append]
      rfl
    refine ⟨by simp [hnames, hone], fun hold => hnodup ?_⟩
    rw [hone]
    exact hold.append (List.nodup_singleton _)
      (List.disjoint_singleton.mpr hnew)

theorem pathNames_removeAndClose {m' : Multipath AddrPort}
    (h : removeAndClose o m name = (m', none)) :
    pathNames m' = (pathNames m).erase name := by
  obtain ⟨m₁, e, heq, -⟩ | ⟨m₁, heq, hdefs⟩ := defs_removePath m name
  · simp [removeAndClose, heq] at h
  simp only [removeAndClose, heq] at h
  split_ifs at h
  · cases h
  · cases h
    rw [pathNames, hdefs, Keyed.map_key_remove]
    rfl

theorem pathNames_removePaths (hnodup : (pathNames m).Nodup)
    (h : (removePaths o remove m).2 = none) :
    pathNames (removePaths o remove m).1 =
      (pathNames m).filter (· ∉ remove) := by
  induction remove generalizing m with
  | nil => simp [removePaths]
  | cons name _ ih =>
    rcases hremove : removeAndClose o m name with ⟨m', _ | e⟩
    · have hnames := pathNames_removeAndClose hremove
      simp only [removePaths, hremove] at h ⊢
      rw [ih (hnames ▸ hnodup.erase name) h, hnames, hnodup.erase_eq_filter,
        List.filter_filter]
      refine List.filter_congr fun name' _ => ?_
      by_cases hname : name' = name <;> simp [hname]
    · simp [removePaths, hremove] at h

/-- An error that does not come from an endpoint. -/
def ReloadError.FromBind (e : ReloadError) : Prop := e ≠ .metrics ∧ e ≠ .monitor

variable {e : ReloadError}

theorem fromBind_addPaths (h : (addPaths o add m).2 = some e) : e.FromBind := by
  induction add generalizing m with
  | nil => cases h
  | cons p add ih =>
    rcases hadd : m.addPath (o.bind p.name) (pathDef p) with ⟨m', _ | err⟩
    · simp only [addPaths, hadd] at h
      exact ih h
    · simp only [addPaths, hadd] at h
      cases h
      exact ⟨nofun, nofun⟩

theorem fromBind_removePaths (h : (removePaths o remove m).2 = some e) :
    e.FromBind := by
  induction remove generalizing m with
  | nil => cases h
  | cons name remove ih =>
    rcases hremove : removeAndClose o m name with ⟨m', _ | err⟩
    · simp only [removePaths, hremove] at h
      exact ih h
    simp only [removePaths, hremove] at h
    cases h
    unfold removeAndClose at hremove
    split at hremove
    · cases hremove
      exact ⟨nofun, nofun⟩
    split_ifs at hremove
    · cases hremove
      exact ⟨nofun, nofun⟩
    · cases hremove

theorem fromBind_changePaths (h : (changePaths o add remove m).2 = some e) :
    e.FromBind := by
  unfold changePaths at h
  split at h
  next hadd =>
    cases h
    exact fromBind_addPaths (by rw [hadd])
  · exact fromBind_removePaths h

end Bind

/-! ## The running configuration -/

namespace Tunnel

variable {t t' : Tunnel} {cfg : File} {o : ReloadOutcomes}

/-- The names of the running configuration are those of the bind, each once. -/
structure Tracks (t : Tunnel) : Prop where
  names : t.cfg.paths.map Path.name = pathNames t.bind
  nodup : (pathNames t.bind).Nodup

/-- An endpoint without an address keeps none of its settings. -/
def effective (m : Monitor) : Monitor := if m.listen = "" then {} else m

theorem effective_monitorState (t : Tunnel) :
    effective t.monitorState = t.monitorState := by
  unfold monitorState
  cases t.monitorSrv with
  | none => rfl
  | some srv => exact if_neg srv.2

theorem applyMetrics_cases (t : Tunnel) (listen : String) (up : Bool) :
    ∃ t' ok, t.applyMetrics listen up = (t', ok) ∧ t'.cfg = t.cfg ∧
      t'.bind = t.bind ∧ t'.monitorSrv = t.monitorSrv ∧
      (ok = true → t'.metricsListen = listen) := by
  unfold applyMetrics
  split_ifs with hsame hempty hup
  · exact ⟨t, _, rfl, rfl, rfl, rfl, fun _ => hsame.symm⟩
  · exact ⟨_, _, rfl, rfl, rfl, rfl, fun _ => hempty.symm⟩
  · exact ⟨_, _, rfl, rfl, rfl, rfl, fun _ => rfl⟩
  · exact ⟨t, _, rfl, rfl, rfl, rfl, nofun⟩

theorem applyMonitor_cases (t : Tunnel) (m : Monitor) (up : Bool) :
    ∃ t' ok, t.applyMonitor m up = (t', ok) ∧ t'.cfg = t.cfg ∧
      t'.bind = t.bind ∧ t'.metricsSrv = t.metricsSrv ∧
      (ok = true → t'.monitorState = effective m) := by
  unfold applyMonitor
  split_ifs with hsame hempty hup hlisten
  · refine ⟨t, _, rfl, rfl, rfl, rfl, fun _ => ?_⟩
    rw [hsame, effective_monitorState]
  · exact ⟨_, _, rfl, rfl, rfl, rfl, fun _ => (if_pos hempty).symm⟩
  · exact ⟨_, _, rfl, rfl, rfl, rfl, fun _ => (if_neg hempty).symm⟩
  · exact ⟨_, _, rfl, rfl, rfl, rfl, nofun⟩
  · exact ⟨t, _, rfl, rfl, rfl, rfl, nofun⟩

/-- The paths that a reload adds to the bind, and those it removes from it. -/
def changes (t : Tunnel) (cfg : File) : List Path × List String :=
  diffPaths (pathNames t.bind) cfg.paths

/-- The running configuration after a reload that went through. -/
def reloadedConfig (t : Tunnel) (cfg : File) : File :=
  { runningConfig t.cfg (t.changes cfg).1 (t.changes cfg).2 with
    metrics := cfg.metrics
    monitor := effective cfg.monitor
    livenessBudgetSane := cfg.livenessBudgetSane }

/-- What a reload does: it fails at an endpoint, it fails at the bind, or it
goes through. -/
inductive Reloaded (t : Tunnel) (cfg : File) (o : ReloadOutcomes) :
    Tunnel → Option ReloadError → Prop
  | endpoint {t' : Tunnel} {e : ReloadError} (he : e = .metrics ∨ e = .monitor)
      (hcfg : t'.cfg = t.cfg) (hbind : t'.bind = t.bind) :
      Reloaded t cfg o t' (some e)
  | paths {t' : Tunnel} {e : ReloadError} (hcfg : t'.cfg = t.cfg)
      (hchange : changePaths o (t.changes cfg).1 (t.changes cfg).2 t.bind =
        (t'.bind, some e)) : Reloaded t cfg o t' (some e)
  | done {t' : Tunnel} (hcfg : t'.cfg = t.reloadedConfig cfg)
      (hchange : changePaths o (t.changes cfg).1 (t.changes cfg).2 t.bind =
        (t'.bind, none)) : Reloaded t cfg o t' none

theorem reload_cases (t : Tunnel) (cfg : File) (o : ReloadOutcomes) :
    ∃ t' err, t.reload cfg o = (t', err) ∧ Reloaded t cfg o t' err := by
  unfold reload
  obtain ⟨t₁, ok, heq, hcfg, hbind, hmonitor, hmetrics⟩ :=
    t.applyMetrics_cases cfg.metrics.listen o.metrics
  rw [heq]
  cases ok with
  | false => exact ⟨t₁, _, rfl, .endpoint (.inl rfl) hcfg hbind⟩
  | true =>
    obtain ⟨t₂, ok, heq₂, hcfg₂, hbind₂, hmetrics₂, hmonitor₂⟩ :=
      t₁.applyMonitor_cases cfg.monitor o.monitor
    dsimp only
    rw [heq₂]
    have hbind' : t₂.bind = t.bind := hbind₂.trans hbind
    have hcfg' : t₂.cfg = t.cfg := hcfg₂.trans hcfg
    cases ok with
    | false => exact ⟨t₂, _, rfl, .endpoint (.inr rfl) hcfg' hbind'⟩
    | true =>
      dsimp only
      rw [hbind']
      rcases hchange : changePaths o (diffPaths (pathNames t.bind)
        cfg.paths).1 (diffPaths (pathNames t.bind) cfg.paths).2 t.bind with
        ⟨bind, _ | e⟩
      · refine ⟨_, _, rfl, .done ?_ hchange⟩
        have hlisten : t₂.metricsListen = cfg.metrics.listen := by
          rw [metricsListen, hmetrics₂]
          exact hmetrics rfl
        rw [advance, hcfg', hlisten, hmonitor₂ rfl]
        rfl
      · exact ⟨_, _, rfl, .paths hcfg' hchange⟩

/-- The names of the bind after a reload that went through. -/
theorem pathNames_of_changed (hnodup : (pathNames t.bind).Nodup)
    {m : Multipath AddrPort}
    (h : changePaths o (t.changes cfg).1 (t.changes cfg).2 t.bind = (m, none)) :
    pathNames m = ((pathNames t.bind).filter (· ∉ (t.changes cfg).2)) ++
        (t.changes cfg).1.map Path.name ∧ (pathNames m).Nodup := by
  unfold changePaths at h
  rcases hadd : addPaths o (t.changes cfg).1 t.bind with ⟨m₁, _ | e⟩
  · rw [hadd] at h
    dsimp only at h
    obtain ⟨hnames, hkeep⟩ := pathNames_addPaths
      (show (addPaths o (t.changes cfg).1 t.bind).2 = none by rw [hadd])
    rw [hadd] at hnames hkeep
    have hnodup₁ := hkeep hnodup
    have hremove := pathNames_removePaths hnodup₁
      (show (removePaths o (t.changes cfg).2 m₁).2 = none by rw [h])
    rw [h] at hremove
    refine ⟨?_, hremove ▸ hnodup₁.filter _⟩
    rw [hremove, hnames, List.filter_append]
    congr 1
    -- what is added was not live, and only live paths are removed
    refine List.filter_eq_self.mpr fun name hname => ?_
    obtain ⟨p, hp, rfl⟩ := List.mem_map.mp hname
    have hnew := (List.mem_filter.mp hp).2
    refine decide_eq_true fun hgone => ?_
    exact of_decide_eq_true hnew (List.mem_filter.mp hgone).1
  · rw [hadd] at h
    cases h

theorem names_reloadedConfig (h : t.Tracks) (cfg : File) :
    (t.reloadedConfig cfg).paths.map Path.name =
      ((pathNames t.bind).filter (· ∉ (t.changes cfg).2)) ++
        (t.changes cfg).1.map Path.name := by
  have hpaths : (t.reloadedConfig cfg).paths =
      (t.cfg.paths.filter fun p => p.name ∉ (t.changes cfg).2) ++
        (t.changes cfg).1 := rfl
  rw [hpaths, List.map_append, ← h.names, List.filter_map]
  rfl

theorem mem_names_changed (t : Tunnel) (cfg : File) (name : String) :
    name ∈ ((pathNames t.bind).filter (· ∉ (t.changes cfg).2)) ++
        (t.changes cfg).1.map Path.name ↔
      name ∈ cfg.paths.map Path.name := by
  simp only [changes, diffPaths, List.mem_append, List.mem_filter,
    List.mem_map, decide_eq_true_eq, not_and, not_not]
  constructor
  · rintro (⟨hlive, hkept⟩ | ⟨p, ⟨hp, -⟩, rfl⟩)
    · exact hkept hlive
    · exact ⟨p, hp, rfl⟩
  rintro ⟨p, hp, rfl⟩
  by_cases hlive : p.name ∈ pathNames t.bind
  · exact .inl ⟨hlive, fun _ => ⟨p, hp, rfl⟩⟩
  · exact .inr ⟨p, ⟨hp, hlive⟩, rfl⟩

/-! ## Runs -/

/-- The first change of the bind fails, and leaves the path names. -/
def FailsFirst (t : Tunnel) (cfg : File) (o : ReloadOutcomes) : Prop :=
  match t.changes cfg with
  | (p :: _, _) => (t.bind.addPath (o.bind p.name) (pathDef p)).2 ≠ none
  | ([], name :: _) => (t.bind.removePath name).2 ≠ none
  | ([], []) => False

theorem FailsFirst.pathNames_eq (h : t.FailsFirst cfg o) :
    pathNames (changePaths o (t.changes cfg).1 (t.changes cfg).2 t.bind).1 =
      pathNames t.bind := by
  unfold FailsFirst at h
  split at h
  next p add remove hchanges =>
    obtain ⟨m', e, heq, hdefs⟩ | ⟨m', heq, -⟩ :=
      defs_addPath t.bind (o.bind p.name) (pathDef p)
    · simp only [hchanges, changePaths, addPaths, heq]
      rw [pathNames, hdefs, pathNames]
    · rw [heq] at h
      exact absurd rfl h
  next name remove hchanges =>
    obtain ⟨m', e, heq, hdefs⟩ | ⟨m', heq, -⟩ := defs_removePath t.bind name
    · simp only [hchanges, changePaths, addPaths, removePaths, removeAndClose,
        heq]
      rw [pathNames, hdefs, pathNames]
    · rw [heq] at h
      exact absurd rfl h
  · cases h

/-- A call of `Reload`. -/
structure Request where
  cfg : File
  outcomes : ReloadOutcomes

def step (t : Tunnel) (r : Request) : Tunnel := (t.reload r.cfg r.outcomes).1

def run (t : Tunnel) (requests : List Request) : Tunnel :=
  requests.foldl step t

/-- A reload that fails does so at an endpoint or at its first change of the
bind. -/
def Undivided (t : Tunnel) (r : Request) : Prop :=
  ∀ e, (t.reload r.cfg r.outcomes).2 = some e →
    e = .metrics ∨ e = .monitor ∨ t.FailsFirst r.cfg r.outcomes

theorem Tracks.of_same (h : t.Tracks) (hcfg : t'.cfg = t.cfg)
    (hnames : pathNames t'.bind = pathNames t.bind) : t'.Tracks :=
  ⟨by rw [hcfg, hnames, h.names], hnames ▸ h.nodup⟩

theorem Tracks.step (h : t.Tracks) {r : Request} (hr : t.Undivided r) :
    (t.step r).Tracks := by
  obtain ⟨t', err, heq, hreload⟩ := t.reload_cases r.cfg r.outcomes
  rw [Tunnel.step, heq]
  cases hreload with
  | endpoint he hcfg hbind => exact h.of_same hcfg (by rw [hbind])
  | @paths e hcfg hchange =>
    have hbind : e.FromBind := fromBind_changePaths (by rw [hchange])
    have hfails : t.FailsFirst r.cfg r.outcomes := by
      rcases hr e (by rw [heq]) with he | he | hfails
      · exact absurd he hbind.1
      · exact absurd he hbind.2
      · exact hfails
    have hnames := hfails.pathNames_eq
    rw [hchange] at hnames
    exact h.of_same hcfg hnames
  | done hcfg hchange =>
    obtain ⟨hnames, hnodup⟩ := pathNames_of_changed h.nodup hchange
    exact ⟨by rw [hcfg, hnames, names_reloadedConfig h], hnodup⟩

/-- How the running configuration and the bind go together along a run. -/
structure TracksAlong (t : Tunnel) (requests : List Request) : Prop where
  names : ∀ k name,
    name ∈ (t.run (requests.take k)).cfg.paths.map Path.name ↔
      name ∈ pathNames (t.run (requests.take k)).bind
  desired : ∀ k r, requests[k]? = some r →
    ((t.run (requests.take k)).reload r.cfg r.outcomes).2 = none →
    ∀ name, name ∈ (t.run (requests.take (k + 1))).cfg.paths.map Path.name ↔
      name ∈ r.cfg.paths.map Path.name

/-- If every reload that fails does so before it changes the bind, the running
configuration and the bind have the same path names after every call, and after
one that succeeds they are those of the file. -/
theorem running_config_tracks_bind (t : Tunnel) (hstart : t.Tracks)
    (requests : List Request)
    (hundivided : Along step Undivided t requests) :
    TracksAlong t requests := by
  have htracks : ∀ k, (t.run (requests.take k)).Tracks := fun k =>
    foldl_take_induction (Nat.zero_le k) hstart fun _ _ _ _ hr h =>
      h.step (hundivided.getElem? hr)
  refine ⟨fun k name => by rw [(htracks k).names], fun k r hr hdone name => ?_⟩
  rw [run, foldl_take_succ hr]
  change name ∈ (((t.run (requests.take k)).step r).cfg.paths).map _ ↔ _
  obtain ⟨t', err, heq, hreload⟩ :=
    (t.run (requests.take k)).reload_cases r.cfg r.outcomes
  rw [heq] at hdone
  subst hdone
  cases hreload with
  | done hcfg =>
    rw [step, heq, hcfg, names_reloadedConfig (htracks k)]
    exact mem_names_changed _ r.cfg name

/-! ## A divided reload -/

/-- A tunnel over one path, without endpoints. -/
def onePath : Tunnel where
  cfg := { role := .edge, paths := [{ name := "wan", sourceAddr := .v4 1 }] }
  bind := ⟨[⟨"wan", true, none⟩],
    [⟨"", true, [⟨"wan", 0⟩], [⟨"wan", 0, .unknown⟩], none⟩], [⟨"wan", 0⟩], [],
    1, ∅, none⟩
  metricsSrv := none
  monitorSrv := none

/-- The file with two further paths. -/
def threePaths : File :=
  { role := .edge
    paths := [{ name := "wan", sourceAddr := .v4 1 },
      { name := "a", sourceAddr := .v4 2 }, { name := "b", sourceAddr := .v4 3 }] }

/-- The outcomes if listening on the path `b` comes to the given one. -/
def listening (b : Bind.Listen) : ReloadOutcomes where
  metrics := true
  monitor := true
  bind _ := ⟨fun name => if name = "b" then b else .bound, fun _ _ => true, 0⟩
  closes _ := true

/-- The first reload fails at its first addition, the second one succeeds. -/
def retried : List Request :=
  [⟨{ threePaths with paths := threePaths.paths.eraseIdx 1 }, listening .failed⟩,
    ⟨threePaths, listening .bound⟩]

theorem running_config_tracks_bind_threePaths :
    (onePath.run (retried.take 1)).cfg.paths.map Path.name = ["wan"] ∧
      (onePath.run retried).cfg.paths.map Path.name = ["wan", "a", "b"] ∧
      TracksAlong onePath retried := by
  refine ⟨by decide, by decide, running_config_tracks_bind onePath
    ⟨rfl, by decide⟩ retried ⟨fun e he => .inr (.inr ?_), ?_, trivial⟩⟩
  · change (onePath.bind.addPath _ _).2 ≠ none
    decide
  · intro e he
    cases he

/-- The second of two additions fails: the bind has the first one and the
running configuration does not, nor after the next reload, which succeeds. -/
theorem divided_reload_untracked :
    let t := onePath.run [⟨threePaths, listening .failed⟩]
    let t' := t.run [⟨threePaths, listening .bound⟩]
    t.cfg.paths.map Path.name = ["wan"] ∧ pathNames t.bind = ["wan", "a"] ∧
      (t.reload threePaths (listening .bound)).2 = none ∧
      t'.cfg.paths.map Path.name = ["wan", "b"] ∧
      pathNames t'.bind = ["wan", "a", "b"] := by
  decide

end Tunnel

end Wanbond.Device
