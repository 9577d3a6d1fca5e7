import Wanbond.Device.TunResize

/-!
# Searching again for the MTU of a path

This module runs the discovery machine of one path beside the resizer of the
tunnel.  A tick that starts a search and the end of that search are separate
events, because the resizer samples while a search is in flight.  Once the
machine has converged, the value it reports is kept as long as no search starts,
and with it the bound on the tunnel MTU; starting a search makes it report zero.
-/

namespace Wanbond.Device

open Wanbond.Bind
open Wanbond.Bond (Time Duration second)
open Wanbond.Telemetry

/-- The outer MTU setting of one path's discovery. -/
def pmtuConfigFor (p : PathConfig) (junk : ℤ) : PMTUConfig :=
  { configuredMTU := p.mtu
    defaultMTU := defaultPathMTU
    refreshInterval := 5 * 60 * second
    junkHeadroom := junk }

/-- One path's discovery and the resizer.  `lastReported` records, beside the
state of the code, what the machine reported when it last converged. -/
structure Probing where
  discovery : PMTUDiscovery
  /-- A tick is waiting for its search. -/
  searching : Bool
  resizer : MTUResizer
  lastReported : Option ℤ

def Probing.boot (pc : PMTUConfig) (resizer : MTUResizer) : Probing :=
  ⟨newPMTUDiscovery pc, false, resizer, none⟩

/-- What can happen: a tick of the discovery loop, the end of its search with
the outcomes of its probes, a roam, and a recomputation of the tunnel MTU from
what the peers and the discoveries of the other paths report. -/
inductive ProbeEvent (ε : Type*)
  | tick (state : PathState) (now : Time)
  | finish (probe : ℕ → ℤ → Except ε Bool) (now : Time)
  | notifyRoam
  | recompute (peers : List PeerSnapshot) (others : String → ℤ) (now : Time)
      (applies : Bool)

namespace Probing

variable {ε : Type*}

/-- The lookup that the sources read the discovered MTUs through. -/
def lookup (w : Probing) (name : String) (others : String → ℤ) : String → ℤ :=
  fun n => if n = name then w.discovery.pathMTUOrZero else others n

def samples (w : Probing) (cfg : TunConfig) (name : String)
    (peers : List PeerSnapshot) (others : String → ℤ) :
    List (String × PathMTUSample) :=
  samplesByName cfg (paths peers (w.lookup name others))

def tick (w : Probing) (state : PathState) (now : Time) : Probing :=
  -- the loop that ticks is the one that waits for the search
  if w.searching then w
  else
    { w with
      discovery := (w.discovery.decideLocked state now).1
      searching := (w.discovery.decideLocked state now).2 }

def finish (w : Probing) (probe : ℕ → ℤ → Except ε Bool) (now : Time) :
    Probing :=
  if w.searching then
    let d := w.discovery.conclude (w.discovery.search probe) now
    { w with
      discovery := d
      searching := false
      lastReported :=
        if d.state = .converged then some d.reportedLocked
        else w.lastReported }
  else w

def recompute (w : Probing) (cfg : TunConfig) (name : String)
    (peers : List PeerSnapshot) (others : String → ℤ) (now : Time)
    (applies : Bool) : Probing :=
  { w with
    resizer := (w.resizer.decide
      ((w.samples cfg name peers others).map Prod.snd) now applies).1 }

def step (cfg : TunConfig) (name : String) (w : Probing) :
    ProbeEvent ε → Probing
  | .tick state now => w.tick state now
  | .finish probe now => w.finish probe now
  | .notifyRoam => { w with discovery := w.discovery.notifyRoam }
  | .recompute peers others now applies =>
    w.recompute cfg name peers others now applies

def run (cfg : TunConfig) (name : String) (w : Probing)
    (events : List (ProbeEvent ε)) : Probing :=
  events.foldl (step cfg name) w

/-! ## What holds throughout -/

/-- The facts about an unpinned path that no event changes: the search window is
not empty, a search in flight shows in the phase, and a machine that has
converged holds a measured size and reports what was recorded. -/
structure Ok (w : Probing) : Prop where
  unpinned : w.discovery.pinned = false
  floor : w.discovery.floor = pmtuFloor
  window : w.discovery.floor ≤ w.discovery.ceiling
  measured : pmtuFloor ≤ w.discovery.discovered
  inFlight : w.searching = true → w.discovery.state = .searching
  recorded : w.discovery.state = .converged →
    w.lastReported = some w.discovery.reportedLocked

theorem ok_boot (pc : PMTUConfig) (r : MTUResizer) (h : pc.configuredMTU = 0) :
    (boot pc r).Ok := by
  refine ⟨?_, rfl, ?_, ?_, nofun, nofun⟩
  · simp [boot, newPMTUDiscovery, h]
  · simp only [boot, newPMTUDiscovery]
    split <;> omega
  · simp [boot, newPMTUDiscovery, h]

theorem reportedLocked_congr {d d' : PMTUDiscovery} (hpin : d'.pinned = d.pinned)
    (hmargin : d'.safetyMargin = d.safetyMargin)
    (hdisc : d'.discovered = d.discovered) :
    d'.reportedLocked = d.reportedLocked := by
  simp only [PMTUDiscovery.reportedLocked, hpin, hmargin, hdisc]

/-- The fields that only the end of a search writes. -/
structure Held (d d' : PMTUDiscovery) : Prop where
  pinned : d'.pinned = d.pinned
  floor : d'.floor = d.floor
  ceiling : d'.ceiling = d.ceiling
  safetyMargin : d'.safetyMargin = d.safetyMargin
  discovered : d'.discovered = d.discovered

theorem Held.reportedLocked {d d' : PMTUDiscovery} (h : Held d d') :
    d'.reportedLocked = d.reportedLocked :=
  reportedLocked_congr h.pinned h.safetyMargin h.discovered

/-- A search starts on an unpinned path that is up and was never measured, or
where something has triggered a new measurement. -/
def SearchDue (d : PMTUDiscovery) (state : PathState) (now : Time) : Prop :=
  d.pinned = false ∧ state = .up ∧
    (d.state ≠ .converged ∨ d.reprobePending = true ∨
      (d.haveState = true ∧ d.prevUp = false) ∨ d.refreshDue now = true)

instance (d : PMTUDiscovery) (state : PathState) (now : Time) :
    Decidable (SearchDue d state now) :=
  inferInstanceAs (Decidable (_ ∧ _))

/-- The first half of a tick either starts a search that is due, or leaves the
phase. -/
theorem decideLocked_cases (d : PMTUDiscovery) (state : PathState) (now : Time) :
    Held d (d.decideLocked state now).1 ∧
      ((SearchDue d state now ∧ (d.decideLocked state now).2 = true ∧
          (d.decideLocked state now).1.state = .searching) ∨
        (¬ SearchDue d state now ∧ (d.decideLocked state now).2 = false ∧
          (d.decideLocked state now).1.state = d.state)) := by
  unfold PMTUDiscovery.decideLocked
  by_cases hpin : d.pinned = true
  · rw [if_pos hpin]
    refine ⟨⟨rfl, rfl, rfl, rfl, rfl⟩, .inr ⟨?_, rfl, rfl⟩⟩
    rintro ⟨hfalse, -⟩
    rw [hpin] at hfalse
    cases hfalse
  rw [if_neg hpin]
  by_cases hup : state = .up
  · rw [if_neg (not_not.mpr hup)]
    have hdue : (((d.observe state).refreshed now).state ≠ .converged ∨
        ((d.observe state).refreshed now).reprobePending = true) ↔
        SearchDue d state now := by
      have hunpinned := Bool.eq_false_iff.mpr hpin
      subst hup
      simp [SearchDue, PMTUDiscovery.refreshed, PMTUDiscovery.observe,
        PMTUDiscovery.refreshDue, hunpinned, or_assoc]
    split
    next h => exact ⟨⟨rfl, rfl, rfl, rfl, rfl⟩, .inl ⟨hdue.mp h, rfl, rfl⟩⟩
    next h =>
      exact ⟨⟨rfl, rfl, rfl, rfl, rfl⟩, .inr ⟨mt hdue.mpr h, rfl, rfl⟩⟩
  · rw [if_pos hup]
    exact ⟨⟨rfl, rfl, rfl, rfl, rfl⟩, .inr ⟨fun h => hup h.2.1, rfl, rfl⟩⟩

variable {w : Probing}

theorem ok_tick (h : w.Ok) (state : PathState) (now : Time) :
    (w.tick state now).Ok := by
  unfold tick
  split
  next => exact h
  next hidle =>
    obtain ⟨hheld, hcases⟩ := decideLocked_cases w.discovery state now
    refine ⟨hheld.pinned.trans h.unpinned, hheld.floor.trans h.floor, ?_, ?_,
      ?_, ?_⟩
    · rw [hheld.floor, hheld.ceiling]
      exact h.window
    · rw [hheld.discovered]
      exact h.measured
    · intro hstart
      rcases hcases with ⟨-, -, hphase⟩ | ⟨-, hnot, -⟩
      · exact hphase
      · cases hnot.symm.trans hstart
    intro hconv
    rcases hcases with ⟨-, -, hphase⟩ | ⟨-, -, hphase⟩
    · cases hphase.symm.trans hconv
    · rw [hheld.reportedLocked]
      exact h.recorded (hphase.symm.trans hconv)

theorem ok_finish (h : w.Ok) (probe : ℕ → ℤ → Except ε Bool) (now : Time) :
    (w.finish probe now).Ok := by
  unfold finish
  split
  next hflight =>
    cases hsearch : w.discovery.search probe with
    | error e =>
      have hphase := h.inFlight hflight
      refine ⟨h.unpinned, h.floor, h.window, h.measured, nofun, ?_⟩
      intro hconv
      cases hphase.symm.trans hconv
    | ok pmtu =>
      obtain ⟨hlow, -⟩ := PMTUDiscovery.search_mem h.window hsearch
      exact ⟨h.unpinned, h.floor, h.window, h.floor ▸ hlow, nofun,
        fun _ => rfl⟩
  next => exact h

variable {cfg : TunConfig} {name : String}

theorem ok_step (h : w.Ok) (e : ProbeEvent ε) : (step cfg name w e).Ok := by
  cases e with
  | tick state now => exact ok_tick h state now
  | finish probe now => exact ok_finish h probe now
  | notifyRoam | recompute =>
    exact ⟨h.unpinned, h.floor, h.window, h.measured, h.inFlight, h.recorded⟩

theorem ok_run (h : w.Ok) (events : List (ProbeEvent ε)) :
    (run cfg name w events).Ok := by
  induction events generalizing w with
  | nil => exact h
  | cons e _ ih => exact ih (ok_step h e)

/-! ## As long as no search starts -/

/-- The event is not a tick that starts a search. -/
def Quiet (w : Probing) : ProbeEvent ε → Prop
  | .tick state now => ¬ SearchDue w.discovery state now
  | _ => True

/-- No event of the run starts a search. -/
def QuietRun (cfg : TunConfig) (name : String) :
    Probing → List (ProbeEvent ε) → Prop
  | _, [] => True
  | w, e :: events => w.Quiet e ∧ QuietRun cfg name (step cfg name w e) events

/-- A machine that has converged stays so through a quiet event, and reports
the same. -/
theorem converged_step (h : w.Ok) (hconv : w.discovery.state = .converged)
    {e : ProbeEvent ε} (hquiet : w.Quiet e) :
    (step cfg name w e).discovery.state = .converged ∧
      (step cfg name w e).lastReported = w.lastReported := by
  have hidle : w.searching = false := by
    refine Bool.eq_false_iff.mpr fun hflight => ?_
    cases hconv.symm.trans (h.inFlight hflight)
  cases e with
  | tick state now =>
    obtain ⟨-, ⟨hdue, -⟩ | ⟨-, -, hphase⟩⟩ :=
      decideLocked_cases w.discovery state now
    · exact absurd hdue hquiet
    · simp only [step, tick, hidle, Bool.false_eq_true, if_false]
      exact ⟨hphase.trans hconv, trivial⟩
  | finish probe now =>
    simp only [step, finish, hidle, Bool.false_eq_true, if_false]
    exact ⟨hconv, trivial⟩
  | notifyRoam | recompute => exact ⟨hconv, rfl⟩

theorem converged_run (h : w.Ok) (hconv : w.discovery.state = .converged)
    {events : List (ProbeEvent ε)} (hquiet : QuietRun cfg name w events) :
    (run cfg name w events).discovery.state = .converged ∧
      (run cfg name w events).lastReported = w.lastReported := by
  induction events generalizing w with
  | nil => exact ⟨hconv, rfl⟩
  | cons e _ ih =>
    obtain ⟨hconv', hlast⟩ := converged_step h hconv hquiet.1
    obtain ⟨hend, heq⟩ := ih (ok_step h e) hconv' hquiet.2
    exact ⟨hend, heq.trans hlast⟩

theorem reported_ge_floor (h : w.Ok) :
    pmtuFloor ≤ w.discovery.reportedLocked := by
  have hmeasured := h.measured
  unfold PMTUDiscovery.reportedLocked
  split
  · exact hmeasured
  · split <;> omega

theorem sample_of_reported {v : ℤ} (hv : w.discovery.pathMTUOrZero = v)
    (hpos : 0 < v) {peers : List PeerSnapshot} {others : String → ℤ}
    {s : PathMTUSample} (hs : (name, s) ∈ w.samples cfg name peers others) :
    s.pmtu = v - outerHeadroom cfg := by
  rw [mem_samplesByName hs]
  simp only [lookup, if_true, hv, effectiveMTU, if_pos hpos]

/-- While a path that reports `v` is up, a recomputation does not raise the
tunnel MTU beyond what fits `v`. -/
theorem recompute_bounded {v : ℤ} (hv : w.discovery.pathMTUOrZero = v)
    (hpos : 0 < v) {peers : List PeerSnapshot} (hup : PathUp peers name)
    (others : String → ℤ) (now : Time) (applies : Bool)
    (hraise : w.resizer.applied <
      (w.recompute cfg name peers others now applies).resizer.applied) :
    (w.recompute cfg name peers others now applies).resizer.applied ≤
      innerMTU (v - outerHeadroom cfg) := by
  obtain ⟨inner, hinner, -, hle⟩ :=
    exists_minInnerMTU cfg (w.lookup name others) ⟨name, hup⟩
  have hbound := hle name hup
  simp only [lookup, if_true, hv, effectiveMTU, if_pos hpos] at hbound
  rcases w.resizer.decide_applied
      ((w.samples cfg name peers others).map Prod.snd) now applies with h | h
  · exact absurd h (ne_of_gt hraise)
  · have heq := Option.some.inj (hinner.symm.trans h)
    exact heq ▸ hbound

/-- Once discovery has converged, and as long as no later event starts a search,
the reported MTU stays the last converged one, every sample of the path is
bounded by it, and the tunnel MTU is not raised beyond what fits it. -/
theorem reported_kept_while_quiet
    (cfg : TunConfig) (name : String) (pc : PMTUConfig)
    (hunset : pc.configuredMTU = 0) (r : MTUResizer)
    (before after : List (ProbeEvent ε))
    (hconv : (run cfg name (boot pc r) before).discovery.state = .converged)
    (hquiet : QuietRun cfg name (run cfg name (boot pc r) before) after) :
    let w := run cfg name (boot pc r) before
    let u := run cfg name w after
    ∃ v, w.lastReported = some v ∧ u.lastReported = some v ∧
      u.discovery.pathMTUOrZero = v ∧
      ∀ (peers : List PeerSnapshot) (others : String → ℤ), PathUp peers name →
        (∀ s, (name, s) ∈ u.samples cfg name peers others →
          s.pmtu = v - outerHeadroom cfg ∧ s.pmtu ≤ v) ∧
        ∀ now applies,
          u.resizer.applied <
            (u.recompute cfg name peers others now applies).resizer.applied →
          (u.recompute cfg name peers others now applies).resizer.applied ≤
            innerMTU (v - outerHeadroom cfg) := by
  intro w u
  have hw : w.Ok := ok_run (ok_boot pc r hunset) before
  have hu : u.Ok := ok_run hw after
  obtain ⟨hend, hlast⟩ := converged_run hw hconv hquiet
  have hrecorded := hu.recorded hend
  have hreports : u.discovery.pathMTUOrZero = u.discovery.reportedLocked :=
    if_pos (.inr hend)
  have hpos : 0 < u.discovery.reportedLocked :=
    lt_of_lt_of_le (by decide) (reported_ge_floor hu)
  refine ⟨_, hlast.symm.trans hrecorded, hrecorded, hreports, ?_⟩
  intro peers others hup
  refine ⟨fun s hs => ?_, recompute_bounded hreports hpos hup others⟩
  have heq := sample_of_reported hreports hpos hs
  refine ⟨heq, ?_⟩
  have hhead := outerHeadroom_nonneg cfg
  omega

/-! ## A roam of a constrained path -/

def wanConfig : TunConfig := ⟨[⟨"wan", 0⟩], {}⟩

def hubUp : List PeerSnapshot := [⟨"hub", [⟨"wan", .up⟩]⟩]

def wanBoot : Probing :=
  boot (pmtuConfigFor ⟨"wan", 0⟩ (outerHeadroom wanConfig))
    (newMTUResizer (tunMTU wanConfig) mtuResizeDwell)

/-- The path carries 1400 bytes; discovery finds that, and the tunnel is
sized for it. -/
def measured1400 : List (ProbeEvent Unit) :=
  [.tick .up second, .finish (PMTUDiscovery.carrying 1400) (2 * second),
    .recompute hubUp (fun _ => 0) (3 * second) true]

/-- The path roams, and the next tick starts a search, during which the tunnel
MTU is recomputed twice. -/
def roamed : List (ProbeEvent Unit) :=
  [.notifyRoam, .tick .up (4 * second),
    .recompute hubUp (fun _ => 0) (5 * second) true,
    .recompute hubUp (fun _ => 0) (10 * second) true]

theorem measured1400_converged :
    (run wanConfig "wan" wanBoot measured1400).discovery.state = .converged := by
  decide

theorem measured1400_settled :
    ¬ SearchDue (run wanConfig "wan" wanBoot measured1400).discovery .up
      (4 * second) := by
  decide

/-- The search that a roam starts makes the path report nothing, and the
tunnel grows back to the default although the path still carries only 1400
bytes. -/
theorem reported_lost_by_search :
    let w := run wanConfig "wan" wanBoot measured1400
    let u := run wanConfig "wan" w roamed
    w.lastReported = some 1400 ∧ w.discovery.pathMTUOrZero = 1400 ∧
      w.resizer.applied = 1239 ∧ u.lastReported = some 1400 ∧
      u.searching = true ∧ u.discovery.pathMTUOrZero = 0 ∧
      u.resizer.applied = 1339 := by
  decide

/-- A tick before the refresh is due starts no search. -/
theorem reported_kept_while_quiet_1400 :
    let w := run wanConfig "wan" wanBoot measured1400
    let u := run wanConfig "wan" w
      [(.tick .up (4 * second) : ProbeEvent Unit)]
    ∃ v, w.lastReported = some v ∧ u.lastReported = some v ∧
      u.discovery.pathMTUOrZero = v ∧
      ∀ (peers : List PeerSnapshot) (others : String → ℤ), PathUp peers "wan" →
        (∀ s, ("wan", s) ∈ u.samples wanConfig "wan" peers others →
          s.pmtu = v - outerHeadroom wanConfig ∧ s.pmtu ≤ v) ∧
        ∀ now applies,
          u.resizer.applied <
            (u.recompute wanConfig "wan" peers others now
              applies).resizer.applied →
          (u.recompute wanConfig "wan" peers others now
              applies).resizer.applied ≤
            innerMTU (v - outerHeadroom wanConfig) :=
  reported_kept_while_quiet wanConfig "wan"
    (pmtuConfigFor ⟨"wan", 0⟩ (outerHeadroom wanConfig)) rfl
    (newMTUResizer (tunMTU wanConfig) mtuResizeDwell) measured1400
    [.tick .up (4 * second)] measured1400_converged
    ⟨measured1400_settled, trivial⟩

end Probing
end Wanbond.Device
