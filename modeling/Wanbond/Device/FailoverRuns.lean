import Wanbond.Device.Failover

/-!
# Histories of the hub failover controller

What holds of the active endpoint after any sequence of resolutions, verdicts
and checks, and which endpoints an outage has tried when exhaustion is signalled.
-/

namespace Wanbond.Device

open Wanbond.Bond (Time Duration second)
open Wanbond.Telemetry (PathState)
open Wanbond.Support

variable {Addr : Type} [DecidableEq Addr]

namespace HubFailover

/-! ## The active endpoint -/

/-- The cached position is the active endpoint's, and the active endpoint
belongs to its entry unless that entry resolves to nothing. -/
structure ActiveOk (h : HubFailover Addr) : Prop where
  idx : h.idx = h.flatIndexLocked h.active
  none_flat : h.active = none → h.flat = []
  owned : ∀ i a, h.active = some (i, a) →
    ∃ e, h.specs[i]? = some e ∧ (a ∈ e.addrs ∨ e.addrs = [])

theorem activeOk_new (specs : List (Expansion Addr)) (health : List PathState)
    (rehandshake : Bool) (settle : Duration) (now : Time) :
    (newHubFailoverFromSpecs specs health rehandshake settle now).ActiveOk := by
  refine ⟨rfl, ?_, ?_⟩
  · intro hnone
    have hhead : (flattenFrom 0 specs)[0]? = none := hnone
    rw [List.getElem?_eq_none_iff] at hhead
    exact List.length_eq_zero_iff.mp (Nat.le_zero.mp hhead)
  intro i a hactive
  have hhead : (flattenFrom 0 specs)[0]? = some (i, a) := hactive
  obtain ⟨e, he, ha⟩ := (mem_flat
    (h := newHubFailoverFromSpecs specs health rehandshake settle now)).mp
    (List.mem_of_getElem? hhead)
  exact ⟨e, he, .inl ha⟩

theorem ActiveOk.of_eq {h h' : HubFailover Addr} (ok : h.ActiveOk)
    (hspecs : h'.specs = h.specs) (hactive : h'.active = h.active)
    (hidx : h'.idx = h.idx) : h'.ActiveOk := by
  have hflat : h'.flat = h.flat := congrArg (flattenFrom 0) hspecs
  refine ⟨?_, ?_, ?_⟩
  · rw [hidx, ok.idx, hactive, flatIndexLocked, flatIndexLocked, hflat]
  · rw [hactive, hflat]
    exact ok.none_flat
  · rw [hactive, hspecs]
    exact ok.owned

variable {h : HubFailover Addr}

theorem activeOk_checkLocked (ok : h.ActiveOk) (now : Time) :
    (h.checkLocked now).ctrl.ActiveOk := by
  obtain ⟨hspecs, -⟩ := h.checkLocked_frame now
  have hflat : (h.checkLocked now).ctrl.flat = h.flat :=
    congrArg (flattenFrom 0) hspecs
  rcases h.checkLocked_moves now with ⟨-, hactive, hidx, -⟩ |
    ⟨-, -, e, he, -, hactive, hidx, -⟩
  · exact ok.of_eq hspecs hactive hidx
  refine ⟨?_, ?_, ?_⟩
  · rw [hidx, hactive, flatIndexLocked, hflat]
    exact (position_of_getElem? h.nodup_flat he).symm
  · rw [hactive]
    exact nofun
  intro i a hia
  rw [hactive] at hia
  cases hia
  obtain ⟨e', he', ha⟩ := mem_flat.mp (List.mem_of_getElem? he)
  exact ⟨e', by rw [hspecs, he'], .inl ha⟩

theorem activeOk_updateResolution (ok : h.ActiveOk) (specIdx : ℤ)
    (e : Expansion Addr) (now : Time) :
    (h.updateResolution specIdx e now).ctrl.ActiveOk := by
  rcases h.updateResolution_cases specIdx e now with heq |
    ⟨i, r, -, hi, heq, hres⟩
  · rw [heq]
    exact ok
  rw [heq]
  have hset : (h.specs.set i e)[i]? = some e := List.getElem?_set_self hi
  cases hres with
  | keep hnone hown =>
    refine ⟨rfl, hnone, ?_⟩
    intro j a hja
    by_cases hij : i = j
    · subst hij
      exact ⟨e, hset, hown a hja⟩
    · obtain ⟨e', he', ha⟩ := ok.owned j a hja
      exact ⟨e', (List.getElem?_set_ne hij).trans he', ha⟩
  | adopt x _ hhead =>
    refine ⟨rfl, nofun, ?_⟩
    intro j a hja
    cases hja
    obtain ⟨e', he', ha⟩ :=
      (mem_flat (h := h.resolved i e (some (j, a)) now)).mp
        (List.mem_of_getElem? hhead)
    exact ⟨e', he', .inl ha⟩
  | follow a first _ _ hhead =>
    refine ⟨rfl, nofun, ?_⟩
    intro j a' hja
    cases hja
    exact ⟨e, hset, .inl (List.mem_of_mem_head? hhead)⟩

theorem activeOk_step (ok : h.ActiveOk) (e : Event Addr) :
    (h.step e).ctrl.ActiveOk := by
  cases e with
  | path => exact ok.of_eq rfl rfl rfl
  | updateResolution specIdx e now =>
    exact activeOk_updateResolution ok specIdx e now
  | check now => exact activeOk_checkLocked ok now
  | setOnExhausted => exact ok.of_eq rfl rfl rfl

theorem activeOk_run (ok : h.ActiveOk) (events : List (Event Addr)) :
    (h.run events).ActiveOk := by
  induction events generalizing h with
  | nil => exact ok
  | cons e _ ih => exact ih (activeOk_step ok e)

/-! ## Moves -/

theorem rehandshake_step (h : HubFailover Addr) (e : Event Addr) :
    (h.step e).ctrl.rehandshake = h.rehandshake ∧
      (h.step e).ctrl.settle = h.settle := by
  cases e with
  | path => exact ⟨rfl, rfl⟩
  | updateResolution specIdx e now =>
    obtain ⟨_, _, _, _, heq, -⟩ := h.updateResolution_frame specIdx e now
    rw [step, heq]
    exact ⟨rfl, rfl⟩
  | check now =>
    obtain ⟨-, -, hwired, hsettle, -⟩ := h.checkLocked_frame now
    exact ⟨hwired, hsettle⟩
  | setOnExhausted => exact ⟨rfl, rfl⟩

theorem rehandshake_run (h : HubFailover Addr) (events : List (Event Addr)) :
    (h.run events).rehandshake = h.rehandshake ∧
      (h.run events).settle = h.settle := by
  induction events generalizing h with
  | nil => exact ⟨rfl, rfl⟩
  | cons e _ ih =>
    obtain ⟨hwired, hsettle⟩ := ih (h.step e).ctrl
    obtain ⟨hwired', hsettle'⟩ := h.rehandshake_step e
    exact ⟨hwired.trans hwired', hsettle.trans hsettle'⟩

/-- A call that does anything installs or repoints once, re-handshakes once, and
changes the active endpoint to the one it names. -/
def Moved (h : HubFailover Addr) (r : Result Addr) : Prop :=
  ∃ x : ℕ × Addr,
    (r.actions = [.install x.2, .rehandshake] ∨
      r.actions = [.setPeerRemote x.2, .rehandshake]) ∧
    r.ctrl.active = some x ∧ h.active ≠ some x

theorem moved_step (hwired : h.rehandshake = true) (e : Event Addr) :
    ((h.step e).actions = [] ∧ (h.step e).ctrl.active = h.active) ∨
      Moved h (h.step e) := by
  have hshake : h.handshake = [.rehandshake] := by simp [handshake, hwired]
  cases e with
  | path => exact .inl ⟨rfl, rfl⟩
  | updateResolution specIdx e now =>
    rw [step]
    rcases h.updateResolution_cases specIdx e now with heq |
      ⟨i, r, -, -, heq, hres⟩
    · rw [heq]
      exact .inl ⟨rfl, rfl⟩
    rw [heq]
    cases hres with
    | keep => exact .inl ⟨rfl, rfl⟩
    | adopt x hnone =>
      refine .inr ⟨x, .inl ?_, rfl, by simp [hnone]⟩
      exact congrArg (Action.install x.2 :: ·) hshake
    | follow a first hactive hgone hhead =>
      refine .inr ⟨(i, first), .inr ?_, rfl, ?_⟩
      · exact congrArg (Action.setPeerRemote first :: ·) hshake
      rw [hactive]
      intro heq
      cases heq
      exact hgone (List.mem_of_mem_head? hhead)
  | check now =>
    rw [step]
    rcases h.checkLocked_moves now with ⟨hnil, hactive, -⟩ |
      ⟨htwo, -, x, hx, hactions, hactive, -⟩
    · exact .inl ⟨hnil, hactive⟩
    refine .inr ⟨x, .inr ?_, hactive, ?_⟩
    · rw [hactions, hshake]
    · intro hold
      rw [nextIdx_eq, hold] at hx
      exact getElem_turn_ne htwo x h.nodup_flat hx rfl
  | setOnExhausted => exact .inl ⟨rfl, rfl⟩

variable {specIdx : ℤ}

theorem updateResolution_standby {x : ℕ × Addr} (hactive : h.active = some x)
    (hne : specIdx ≠ x.1) (e : Expansion Addr) (now : Time) :
    (h.updateResolution specIdx e now).actions = [] := by
  rcases h.updateResolution_cases specIdx e now with heq |
    ⟨i, r, rfl, -, heq, hres⟩
  · rw [heq]
  rw [heq]
  cases hres with
  | keep => rfl
  | adopt _ hnone => simp [hactive] at hnone
  | follow _ _ hown =>
    rw [hactive] at hown
    cases hown
    exact absurd rfl hne

/-! ## The dwell -/

/-- The clock readings of a history do not decrease. -/
def Chronological (events : List (Event Addr)) : Prop :=
  (events.filterMap Event.time?).Pairwise (· ≤ ·)

theorem lastSwitch_step (h : HubFailover Addr) (e : Event Addr) :
    (h.step e).ctrl.lastSwitch = h.lastSwitch ∨
      ∃ now, e.time? = some now ∧ (h.step e).ctrl.lastSwitch = now := by
  cases e with
  | path => exact .inl rfl
  | updateResolution specIdx e now =>
    rw [step]
    rcases h.updateResolution_cases specIdx e now with heq |
      ⟨i, r, -, -, heq, hres⟩
    · rw [heq]
      exact .inl rfl
    rw [heq]
    cases hres with
    | keep => exact .inl rfl
    | adopt | follow => exact .inr ⟨now, rfl, rfl⟩
  | check now =>
    rw [step]
    rcases h.checkLocked_moves now with ⟨-, -, -, hsame⟩ |
      ⟨-, -, x, -, -, -, -, hnow⟩
    · exact .inl hsame
    · exact .inr ⟨now, rfl, hnow⟩
  | setOnExhausted => exact .inl rfl

variable {events : List (Event Addr)}

theorem le_lastSwitch_run {t : Time} (ht : t ≤ h.lastSwitch)
    (hlate : ∀ now ∈ events.filterMap Event.time?, t ≤ now) :
    t ≤ (h.run events).lastSwitch := by
  induction events generalizing h with
  | nil => exact ht
  | cons e _ ih =>
    apply ih
    · rcases h.lastSwitch_step e with hsame | ⟨now, htime, hnow⟩
      · rwa [hsame]
      · rw [hnow]
        exact hlate now (List.mem_filterMap.mpr ⟨e, List.mem_cons_self, htime⟩)
    intro now hnow
    apply hlate
    rw [List.filterMap_cons]
    split
    · exact hnow
    · exact List.mem_cons_of_mem _ hnow

/-- Two turns of one history are a dwell apart. -/
theorem dwell_between {now now' : Time} {between : List (Event Addr)}
    (hclock : Chronological (.check now :: between ++ [.check now']))
    (hfirst : (h.checkLocked now).actions ≠ [])
    (hsecond : (((h.step (.check now)).ctrl.run between).checkLocked
      now').actions ≠ []) : h.settle ≤ now' - now := by
  have hlast : (h.step (.check now)).ctrl.lastSwitch = now := by
    rcases h.checkLocked_moves now with ⟨hnil, -⟩ |
      ⟨-, -, x, -, -, -, -, hnow⟩
    · exact absurd hnil hfirst
    · exact hnow
  have hlate : ∀ t ∈ between.filterMap Event.time?, now ≤ t := by
    intro t ht
    have hpair : (now :: (between ++ [Event.check now']).filterMap
        Event.time?).Pairwise (· ≤ ·) := hclock
    apply List.rel_of_pairwise_cons hpair
    rw [List.filterMap_append]
    exact List.mem_append_left _ ht
  have hle := le_lastSwitch_run (le_of_eq hlast.symm) hlate
  obtain ⟨-, hsettle⟩ := (h.step (.check now)).ctrl.rehandshake_run between
  rw [(h.rehandshake_step (.check now)).2] at hsettle
  rcases ((h.step (.check now)).ctrl.run between).checkLocked_moves now' with
    ⟨hnil, -⟩ | ⟨-, hdwell, -⟩
  · exact absurd hnil hsecond
  · rw [hsettle] at hdwell
    exact hdwell.trans (sub_le_sub_left hle now')

/-! ## Rounds -/

/-- The endpoint that an event turns to, if it is a check that advances. -/
def turned (h : HubFailover Addr) : Event Addr → List (ℕ × Addr)
  | .check now =>
    if (h.checkLocked now).actions = [] then []
    else (h.checkLocked now).ctrl.active.toList
  | _ => []

/-- The endpoints that the advances of a history turn to, in order. -/
def advances : HubFailover Addr → List (Event Addr) → List (ℕ × Addr)
  | _, [] => []
  | h, e :: events => h.turned e ++ advances (h.step e).ctrl events

/-- A resolution that leaves the list as it is leaves the active endpoint as it
is. -/
theorem updateResolution_unchanged (ok : h.ActiveOk) {e : Expansion Addr}
    {now : Time} (hflat : (h.updateResolution specIdx e now).ctrl.flat = h.flat) :
    (h.updateResolution specIdx e now).ctrl.active = h.active := by
  rcases h.updateResolution_cases specIdx e now with heq |
    ⟨i, r, -, hi, heq, hres⟩
  · rw [heq]
  rw [heq] at hflat ⊢
  cases hres with
  | keep => rfl
  | adopt x hnone hhead =>
    have hnil : flattenFrom 0 (h.specs.set i e) = [] :=
      hflat.trans (ok.none_flat hnone)
    simp [hnil] at hhead
  | follow a first hactive hgone hhead =>
    -- The list has the new head under the entry, so the entry resolved to
    -- something before, and the active address was part of that.
    have hset : (h.specs.set i e)[i]? = some e := List.getElem?_set_self hi
    have hmem : ∀ a, (i, a) ∈ h.flat ↔ a ∈ e.addrs := by
      intro b
      rw [← hflat, mem_flat]
      constructor
      · rintro ⟨e', he', hb⟩
        have heq : some e = some e' := hset.symm.trans he'
        cases heq
        exact hb
      · exact fun hb => ⟨e, hset, hb⟩
    obtain ⟨e', he', hown⟩ := ok.owned i a hactive
    have hfirst := (hmem first).mpr (List.mem_of_mem_head? hhead)
    obtain ⟨e'', he'', hfirst⟩ := mem_flat.mp hfirst
    rw [he'] at he''
    cases he''
    rcases hown with hin | hnil
    · exact absurd ((hmem a).mp (mem_flat.mpr ⟨e', he', hin⟩)) hgone
    · simp [hnil] at hfirst

theorem turned_cases (ok : h.ActiveOk) {e : Event Addr}
    (hflat : (h.step e).ctrl.flat = h.flat) :
    (h.turned e = [] ∧ (h.step e).ctrl.active = h.active) ∨
    ∃ x, h.turned e = [x] ∧ h.flat[h.nextIdx]? = some x ∧
      (h.step e).ctrl.active = some x := by
  cases e with
  | path => exact .inl ⟨rfl, rfl⟩
  | updateResolution =>
    exact .inl ⟨rfl, updateResolution_unchanged ok hflat⟩
  | check now =>
    rcases h.checkLocked_moves now with ⟨hnil, hactive, -⟩ |
      ⟨-, -, x, hx, hactions, hactive, -⟩
    · exact .inl ⟨by simp [turned, hnil], hactive⟩
    · exact .inr ⟨x, by simp [turned, hactions, hactive], hx, hactive⟩
  | setOnExhausted => exact .inl ⟨rfl, rfl⟩

theorem advances_eq_turns (ok : h.ActiveOk)
    (hflat : ∀ p, p <+: events → (h.run p).flat = h.flat) :
    h.advances events =
      turns h.flat h.nextIdx (h.advances events).length := by
  induction events generalizing h with
  | nil => rfl
  | cons e events ih =>
    have hone : (h.step e).ctrl.flat = h.flat := hflat [e] ⟨events, rfl⟩
    have htail : ∀ p, p <+: events →
        ((h.step e).ctrl.run p).flat = (h.step e).ctrl.flat := by
      rintro p ⟨rest, rfl⟩
      rw [hone]
      exact hflat (e :: p) ⟨rest, rfl⟩
    have hrest := ih (activeOk_step ok e) htail
    rw [hone] at hrest
    rw [advances]
    rcases turned_cases ok hone with ⟨hnil, hactive⟩ | ⟨x, hx, hat, hactive⟩
    · have hidx : (h.step e).ctrl.nextIdx = h.nextIdx := by
        rw [nextIdx_eq, nextIdx_eq, hactive, hone]
      rwa [hnil, List.nil_append, ← hidx]
    obtain ⟨hlt, hget⟩ := List.getElem?_eq_some_iff.mp hat
    have hidx : (h.step e).ctrl.nextIdx =
        (h.nextIdx + 1) % h.flat.length := by
      rw [nextIdx_eq, hactive, hone, ← hget]
      exact turn_getElem h.nodup_flat hlt
    have hat' : h.flat[h.nextIdx % h.flat.length]? = some x := by
      rwa [Nat.mod_eq_of_lt hlt]
    rw [hx, List.singleton_append, List.length_cons, turns_succ _ _ _ hat',
      ← hidx, ← hrest]

/-- Hub failover keeps one consistent active endpoint: the cached position is
the active pair's; a call moves the bond at most once, with one re-handshake,
and only with a change of the pair; standby entries never move it; turns are a
dwell apart; and a full round visits every endpoint once. -/
theorem one_active_endpoint (specs : List (Expansion Addr))
    (health : List PathState) (settle : Duration) (start : Time)
    (events : List (Event Addr)) (h : HubFailover Addr)
    (hrun : h = (newHubFailoverFromSpecs specs health true settle start).run
      events) :
    h.idx = h.flatIndexLocked h.active ∧
    (∀ e, ((h.step e).actions = [] ∧ (h.step e).ctrl.active = h.active) ∨
      Moved h (h.step e)) ∧
    (∀ x, h.active = some x → ∀ specIdx : ℤ, specIdx ≠ x.1 → ∀ e now,
      (h.updateResolution specIdx e now).actions = []) ∧
    (∀ now between now',
      Chronological (.check now :: between ++ [.check now']) →
      (h.checkLocked now).actions ≠ [] →
      (((h.step (.check now)).ctrl.run between).checkLocked now').actions ≠ [] →
      settle ≤ now' - now) ∧
    (∀ later, (∀ p, p <+: later → (h.run p).flat = h.flat) →
      2 ≤ h.flat.length → (h.advances later).length = h.flat.length →
      (h.advances later).Perm h.flat) := by
  have ok : h.ActiveOk := hrun ▸ activeOk_run (activeOk_new ..) events
  have hkept := rehandshake_run
    (newHubFailoverFromSpecs specs health true settle start) events
  rw [← hrun] at hkept
  obtain ⟨hwired, hsettle⟩ := hkept
  refine ⟨ok.idx, moved_step hwired, ?_, ?_, ?_⟩
  · intro x hactive specIdx hne e now
    exact updateResolution_standby hactive hne e now
  · intro now between now' hclock hfirst hsecond
    have hdwell := dwell_between hclock hfirst hsecond
    rwa [hsettle] at hdwell
  · intro later hflat _ hlen
    rw [advances_eq_turns ok hflat, hlen]
    exact turns_length_perm _ _

/-- Two endpoints, each an entry of its own, behind one path that is down. -/
def pair : HubFailover ℕ :=
  newHubFailoverFromSpecs [⟨[1], by decide⟩, ⟨[2], by decide⟩] [.down] true
    (3 * second) 0

theorem one_active_endpoint_pair :
    (pair.advances [.check (3 * second), .check (6 * second)]).Perm
      [(0, 1), (1, 2)] := by
  refine (one_active_endpoint _ _ _ _ [] pair rfl).2.2.2.2 _ ?_ (by decide)
    (by decide)
  intro p hp
  rw [← List.mem_inits] at hp
  revert p
  decide

/-! ## What an outage has tried -/

/-- A controller, and the endpoints that were active at the checks that saw
every path down since the present outage began. -/
structure Watched (Addr : Type) where
  ctrl : HubFailover Addr
  tried : List (ℕ × Addr)

namespace Watched

def step (w : Watched Addr) (e : Event Addr) : Watched Addr where
  ctrl := (w.ctrl.step e).ctrl
  tried :=
    match e with
    | .path i state =>
      if (w.ctrl.setPath i state).allDownLocked then w.tried else []
    | .check _ =>
      if w.ctrl.flatLenLocked ≠ 0 ∧ w.ctrl.allDownLocked then
        w.ctrl.active.toList ++ w.tried
      else w.tried
    | _ => w.tried

def run (w : Watched Addr) (events : List (Event Addr)) : Watched Addr :=
  events.foldl step w

theorem ctrl_run (w : Watched Addr) (events : List (Event Addr)) :
    (w.run events).ctrl = w.ctrl.run events := by
  induction events generalizing w with
  | nil => rfl
  | cons e _ ih => exact ih (w.step e)

end Watched

/-- No round is under way when an outage begins or the endpoints change, and the
active entry is never resolved to nothing. -/
def Steady (h : HubFailover Addr) : Event Addr → Prop
  | .path i state =>
    h.allDownLocked = false → (h.setPath i state).allDownLocked = true →
      h.downAdvances = 0
  | .updateResolution specIdx e now =>
    ((h.updateResolution specIdx e now).ctrl.flat = h.flat ∨
      h.downAdvances = 0) ∧
    (∀ a, h.active = some a → specIdx = a.1 → e.addrs ≠ [])
  | _ => True

/-- Every event of a history meets the condition in the state it finds. -/
def SteadyRun : HubFailover Addr → List (Event Addr) → Prop
  | _, [] => True
  | h, e :: events => h.Steady e ∧ SteadyRun (h.step e).ctrl events

/-- The active endpoint is in the list, and in an outage the endpoints that the
round has left behind have been tried. -/
structure RoundOk (w : Watched Addr) : Prop where
  active : w.ctrl.ActiveOk
  listed : ∀ x, w.ctrl.active = some x → x ∈ w.ctrl.flat
  behind : w.ctrl.allDownLocked = true →
    ∀ x p, w.ctrl.active = some x → w.ctrl.flat[p]? = some x →
      Behind w.ctrl.flat p w.ctrl.downAdvances w.tried

theorem roundOk_new (specs : List (Expansion Addr)) (health : List PathState)
    (rehandshake : Bool) (settle : Duration) (now : Time) :
    RoundOk ⟨newHubFailoverFromSpecs specs health rehandshake settle now,
      []⟩ := by
  refine ⟨activeOk_new .., ?_, ?_⟩
  · intro x hx
    have hhead : (flattenFrom 0 specs)[0]? = some x := hx
    exact List.mem_of_getElem? hhead
  · intro _ x p _ _
    exact Behind.none _ _ _

variable {w : Watched Addr}

theorem RoundOk.of_eq {w' : Watched Addr} (ok : RoundOk w)
    (hactiveOk : w'.ctrl.ActiveOk) (hflat : w'.ctrl.flat = w.ctrl.flat)
    (hactive : w'.ctrl.active = w.ctrl.active)
    (hround : w'.ctrl.allDownLocked = true → w'.ctrl.downAdvances = 0 ∨
      w.ctrl.allDownLocked = true ∧
        w'.ctrl.downAdvances = w.ctrl.downAdvances ∧ w.tried ⊆ w'.tried) :
    RoundOk w' := by
  refine ⟨hactiveOk, ?_, ?_⟩
  · intro x hx
    rw [hactive] at hx
    rw [hflat]
    exact ok.listed x hx
  intro hdown x p hx hp
  rcases hround hdown with hzero | ⟨hold, hsame, htried⟩
  · rw [hzero]
    exact Behind.none _ _ _
  rw [hflat] at hp ⊢
  rw [hactive] at hx
  rw [hsame]
  exact (ok.behind hold x p hx hp).mono htried

omit [DecidableEq Addr] in
theorem allDownLocked_congr {h h' : HubFailover Addr}
    (hhealth : h'.health = h.health) :
    h'.allDownLocked = h.allDownLocked := by
  rw [allDownLocked, allDownLocked, hhealth]

/-- A resolution that leaves the active entry something to resolve to leaves the
active endpoint in the list. -/
theorem listed_updateResolution (hlisted : ∀ x, h.active = some x → x ∈ h.flat)
    {e : Expansion Addr}
    (hsome : ∀ a, h.active = some a → specIdx = a.1 → e.addrs ≠ []) (now : Time) :
    ∀ x, (h.updateResolution specIdx e now).ctrl.active = some x →
      x ∈ (h.updateResolution specIdx e now).ctrl.flat := by
  rcases h.updateResolution_cases specIdx e now with heq |
    ⟨i, r, rfl, hi, heq, hres⟩
  · rwa [heq]
  rw [heq]
  have hset : (h.specs.set i e)[i]? = some e := List.getElem?_set_self hi
  cases hres with
  | keep _ hown =>
    rintro ⟨j, a⟩ hja
    apply mem_flat.mpr
    by_cases hij : i = j
    · subst hij
      rcases hown a hja with hin | hnil
      · exact ⟨e, hset, hin⟩
      · exact absurd hnil (hsome _ hja rfl)
    · obtain ⟨e', he', ha⟩ := mem_flat.mp (hlisted (j, a) hja)
      exact ⟨e', (List.getElem?_set_ne hij).trans he', ha⟩
  | adopt x _ hhead =>
    intro x' hx'
    cases hx'
    exact List.mem_of_getElem? hhead
  | follow _ _ _ _ hhead =>
    intro x' hx'
    cases hx'
    exact mem_flat.mpr ⟨e, hset, List.mem_of_mem_head? hhead⟩

theorem RoundOk.turn (ok : RoundOk w) (hdown : w.ctrl.allDownLocked = true)
    (hne : w.ctrl.flat ≠ []) :
    Behind w.ctrl.flat w.ctrl.nextIdx (w.ctrl.downAdvances + 1)
      (w.ctrl.active.toList ++ w.tried) := by
  cases hactive : w.ctrl.active with
  | none => exact absurd (ok.active.none_flat hactive) hne
  | some x =>
    obtain ⟨p, hp, hget⟩ := List.getElem_of_mem (ok.listed x hactive)
    have hat : w.ctrl.flat[p]? = some x := by
      rw [List.getElem?_eq_getElem hp, hget]
    have hidx : w.ctrl.nextIdx = (p + 1) % w.ctrl.flat.length := by
      rw [nextIdx_eq, hactive, ← hget]
      exact turn_getElem w.ctrl.nodup_flat hp
    rw [hidx]
    exact (ok.behind hdown x p hactive hat).advance hat

theorem tried_check (hne : w.ctrl.flat ≠ [])
    (hdown : w.ctrl.allDownLocked = true) {now : Time} :
    (w.step (.check now)).tried = w.ctrl.active.toList ++ w.tried := by
  have hlen : w.ctrl.flatLenLocked ≠ 0 := by
    rw [flatLenLocked_eq]
    exact fun hzero => hne (List.length_eq_zero_iff.mp hzero)
  simp [Watched.step, hlen, hdown]

theorem roundOk_check (ok : RoundOk w) (now : Time) :
    RoundOk (w.step (.check now)) := by
  have hactiveOk : (w.step (.check now)).ctrl.ActiveOk :=
    activeOk_checkLocked ok.active now
  obtain ⟨hspecs, hhealth, -⟩ := w.ctrl.checkLocked_frame now
  have hflat : (w.step (.check now)).ctrl.flat = w.ctrl.flat :=
    congrArg (flattenFrom 0) hspecs
  have hall : (w.step (.check now)).ctrl.allDownLocked =
      w.ctrl.allDownLocked := allDownLocked_congr hhealth
  have hctrl : (w.step (.check now)).ctrl = (w.ctrl.checkLocked now).ctrl := rfl
  have hgrow : w.tried ⊆ (w.step (.check now)).tried := by
    simp only [Watched.step]
    split
    · exact List.subset_append_right _ _
    · exact List.Subset.refl _
  rcases w.ctrl.checkLocked_cases now with ⟨-, heq⟩ | ⟨-, hup, heq⟩ |
    ⟨-, -, heq⟩ | ⟨-, -, heq⟩ | ⟨htwo, hdown, -, heq⟩
  · refine ok.of_eq hactiveOk hflat (by rw [hctrl, heq]) fun hdown => .inr ?_
    exact ⟨hall ▸ hdown, by rw [hctrl, heq], hgrow⟩
  · refine ok.of_eq hactiveOk hflat (by rw [hctrl, heq]; rfl) fun hdown => ?_
    rw [hall, hup] at hdown
    exact absurd hdown (by simp)
  · refine ok.of_eq hactiveOk hflat (by rw [hctrl, heq]; rfl) fun hdown => .inr ?_
    exact ⟨hall ▸ hdown, by rw [hctrl, heq]; rfl, hgrow⟩
  · have hraise := raiseExhaustedLocked_ctrl (w.ctrl.openEpisode now) []
    refine ok.of_eq hactiveOk hflat (by rw [hctrl, heq, hraise]; rfl)
      fun hdown => .inr ?_
    exact ⟨hall ▸ hdown, by rw [hctrl, heq, hraise]; rfl, hgrow⟩
  -- The turn moves one endpoint on, and what it leaves has been tried.
  have hne : w.ctrl.flat ≠ [] := by
    intro hnil
    simp [hnil] at htwo
  have hlt := nextIdx_lt hne
  have hat : w.ctrl.flat[w.ctrl.nextIdx]? = some w.ctrl.flat[w.ctrl.nextIdx] :=
    List.getElem?_eq_getElem hlt
  have hadv := advance_eq (w.ctrl.openEpisode now) now hat
  have hactive : (w.step (.check now)).ctrl.active =
      some w.ctrl.flat[w.ctrl.nextIdx] := by
    rw [hctrl, heq, hadv]
    split
    · rw [raiseExhaustedLocked_ctrl]
    · rfl
  have hcount : (w.step (.check now)).ctrl.downAdvances = 0 ∨
      (w.step (.check now)).ctrl.downAdvances = w.ctrl.downAdvances + 1 := by
    rw [hctrl, heq, hadv]
    split
    · rw [raiseExhaustedLocked_ctrl]
      exact .inl rfl
    · exact .inr rfl
  refine ⟨hactiveOk, ?_, ?_⟩
  · intro x hx
    rw [hactive] at hx
    cases hx
    rw [hflat]
    exact List.getElem_mem hlt
  intro _ x p hx hp
  rcases hcount with hzero | hsucc
  · rw [hzero]
    exact Behind.none _ _ _
  rw [hactive] at hx
  cases hx
  rw [hflat] at hp ⊢
  have hpos : p = w.ctrl.nextIdx := by
    obtain ⟨hp', hget⟩ := List.getElem?_eq_some_iff.mp hp
    exact (w.ctrl.nodup_flat.getElem_inj_iff).mp hget
  rw [hpos, hsucc, tried_check hne hdown]
  exact ok.turn hdown hne

theorem roundOk_step (ok : RoundOk w) {e : Event Addr}
    (hsteady : w.ctrl.Steady e) : RoundOk (w.step e) := by
  have hactiveOk : (w.step e).ctrl.ActiveOk := activeOk_step ok.active e
  cases e with
  | path i state =>
    refine ok.of_eq hactiveOk rfl rfl fun hdown => ?_
    have hdown' : (w.ctrl.setPath i state).allDownLocked = true := hdown
    cases hold : w.ctrl.allDownLocked with
    | false => exact .inl (hsteady hold hdown')
    | true =>
      refine .inr ⟨rfl, rfl, ?_⟩
      simp [Watched.step, hdown']
  | updateResolution specIdx e now =>
    obtain ⟨_, _, _, _, heq, -⟩ := w.ctrl.updateResolution_frame specIdx e now
    have hall := allDownLocked_congr (congrArg health heq)
    have hcount := congrArg downAdvances heq
    have hlisted := listed_updateResolution ok.listed hsteady.2 now
    rcases hsteady.1 with hsame | hzero
    · refine ok.of_eq hactiveOk hsame
        (updateResolution_unchanged ok.active hsame) fun hdown => .inr ?_
      exact ⟨hall ▸ hdown, hcount, List.Subset.refl _⟩
    refine ⟨hactiveOk, hlisted, ?_⟩
    intro _ x p _ _
    have hzero' : (w.step (.updateResolution specIdx e now)).ctrl.downAdvances
        = 0 := hcount.trans hzero
    rw [hzero']
    exact Behind.none _ _ _
  | check now => exact roundOk_check ok now
  | setOnExhausted =>
    exact ok.of_eq hactiveOk rfl rfl fun hdown =>
      .inr ⟨hdown, rfl, List.Subset.refl _⟩

theorem roundOk_run (ok : RoundOk w) (hsteady : w.ctrl.SteadyRun events) :
    RoundOk (w.run events) := by
  induction events generalizing w with
  | nil => exact ok
  | cons _ _ ih => exact ih (roundOk_step ok hsteady.1) hsteady.2

/-- In a history in which no round is under way when an outage begins or the
endpoints change, and the active entry always resolves to something, exhaustion
is signalled only when every endpoint of the list was active at a check of the
present outage. -/
theorem exhaustion_means_tried (specs : List (Expansion Addr))
    (health : List PathState) (rehandshake : Bool) (settle : Duration)
    (start : Time) (events : List (Event Addr)) (h : HubFailover Addr)
    (hstart : h = newHubFailoverFromSpecs specs health rehandshake settle start)
    (hsteady : h.SteadyRun events) (now : Time)
    (hraised : ((h.run events).checkLocked now).raised = true) :
    ∀ x ∈ (h.run events).flat,
      x ∈ ((Watched.mk h []).run (events ++ [.check now])).tried := by
  have ok : RoundOk ((Watched.mk h []).run events) :=
    roundOk_run (hstart ▸ roundOk_new ..) hsteady
  have hrun : (Watched.mk h []).run (events ++ [.check now]) =
      ((Watched.mk h []).run events).step (.check now) := List.foldl_concat ..
  have hctrl := (Watched.mk h []).ctrl_run events
  rw [hrun]
  rw [← show ((Watched.mk h []).run events).ctrl = h.run events from hctrl]
    at hraised ⊢
  generalize (Watched.mk h []).run events = w at ok hraised
  rcases w.ctrl.checkLocked_cases now with ⟨-, heq⟩ | ⟨-, hup, heq⟩ |
    ⟨-, -, heq⟩ | ⟨hone, hdown, heq⟩ | ⟨htwo, hdown, -, heq⟩
  · simp [heq] at hraised
  · simp [heq] at hraised
  · simp [heq] at hraised
  · have hne : w.ctrl.flat ≠ [] := fun hnil => by simp [hnil] at hone
    rw [tried_check hne hdown]
    exact (ok.turn hdown hne).all (by omega)
  have hne : w.ctrl.flat ≠ [] := fun hnil => by simp [hnil] at htwo
  rw [tried_check hne hdown]
  apply (ok.turn hdown hne).all
  by_contra hshort
  have hat : w.ctrl.flat[w.ctrl.nextIdx]? = some _ :=
    List.getElem?_eq_getElem (nextIdx_lt hne)
  rw [heq, advance_eq (w.ctrl.openEpisode now) now hat] at hraised
  have hshort' : ¬ (w.ctrl.openEpisode now).flat.length ≤
      (w.ctrl.openEpisode now).downAdvances + 1 := hshort
  simp [hshort'] at hraised

/-- Three endpoints, each an entry of its own, behind one path that is down. -/
def trio : HubFailover ℕ :=
  newHubFailoverFromSpecs
    [⟨[1], by decide⟩, ⟨[2], by decide⟩, ⟨[3], by decide⟩] [.down] true
    (3 * second) 0

theorem exhaustion_means_tried_trio :
    ((trio.run [.check (3 * second), .check (6 * second)]).checkLocked
      (9 * second)).raised = true ∧
    ∀ x ∈ [(0, 1), (1, 2), (2, 3)],
      x ∈ ((Watched.mk trio []).run
        [.check (3 * second), .check (6 * second), .check (9 * second)]).tried :=
  ⟨by decide,
    exhaustion_means_tried _ _ _ _ _ [.check (3 * second), .check (6 * second)]
      trio rfl ⟨trivial, trivial, trivial⟩ (9 * second) (by decide)⟩

/-- A standby entry that resolves to another address in the middle of the round
is counted as tried: the signal is raised by the turn that reaches it. -/
theorem exhaustion_before_tried :
    ((trio.run [.check (3 * second), .check (6 * second),
        .updateResolution 0 ⟨[4], by decide⟩ (7 * second)]).checkLocked
      (9 * second)).raised = true ∧
    (0, 4) ∈ (trio.run [.check (3 * second), .check (6 * second),
        .updateResolution 0 ⟨[4], by decide⟩ (7 * second)]).flat ∧
    (0, 4) ∉ ((Watched.mk trio []).run [.check (3 * second),
        .check (6 * second), .updateResolution 0 ⟨[4], by decide⟩ (7 * second),
        .check (9 * second)]).tried := by
  decide

end HubFailover

end Wanbond.Device
