import Wanbond.Config.Address
import Wanbond.Support.Rotation
import Wanbond.Telemetry.PMTU

/-!
# The hub failover controller

The controller owns the ordered endpoint entries of one concentrator.  Each entry
stands for the addresses it currently resolves to, and the concatenation of these
is the failover order.  While every path is down the controller takes turns
through that order, and signals exhaustion after a full round.
-/

namespace Wanbond.Device

open Wanbond.Bond (Time Duration second)
open Wanbond.Config (IPAddr AddrPort)
open Wanbond.Support
open Wanbond.Telemetry (PathState)

/-! ## Resolved records -/

/-- Which families some local path can source traffic from. -/
structure PathFamilies where
  v4 : Bool
  v6 : Bool
  deriving Repr

def PathFamilies.allows (f : PathFamilies) (a : IPAddr) : Bool :=
  if a.unmap.is4 then f.v4 else f.v6

/-- The addresses an endpoint entry stands for, in order and without
duplicates. -/
structure Expansion (Addr : Type) where
  addrs : List Addr
  nodup : addrs.Nodup

/-- One record of the answer: `seen` holds the addresses taken so far, newest
first. -/
def takeRecord (fams : PathFamilies) (seen : List IPAddr) (a : IPAddr) :
    List IPAddr :=
  if a.isValid = false ∨ fams.allows a = false then seen
  else if a.unmap ∈ seen then seen
  else a.unmap :: seen

def acceptedRecords (fams : PathFamilies) (records : List IPAddr) :
    List IPAddr :=
  (records.foldl (takeRecord fams) []).reverse

theorem nodup_foldl_takeRecord (fams : PathFamilies) (records : List IPAddr) :
    ∀ seen : List IPAddr, seen.Nodup →
      (records.foldl (takeRecord fams) seen).Nodup := by
  induction records with
  | nil => exact fun seen h => h
  | cons _ _ ih =>
      intro seen h
      apply ih
      unfold takeRecord
      split
      · exact h
      split
      · exact h
      · next hnew => exact List.nodup_cons.mpr ⟨hnew, h⟩

theorem nodup_acceptedRecords (fams : PathFamilies) (records : List IPAddr) :
    (acceptedRecords fams records).Nodup :=
  List.nodup_reverse.mpr (nodup_foldl_takeRecord fams records [] List.nodup_nil)

/-- IPv4 records first, then IPv6, each in the resolver's order and paired with
the entry's port. -/
def orderAddrPorts (records : List IPAddr) (port : BitVec 16)
    (fams : PathFamilies) : Expansion AddrPort where
  addrs :=
    ((acceptedRecords fams records).filter (·.is4) ++
      (acceptedRecords fams records).filter (! ·.is4)).map (⟨·, port⟩)
  nodup := by
    apply List.Nodup.map
    · intro a b h
      exact congrArg AddrPort.addr h
    have h := nodup_acceptedRecords fams records
    refine List.nodup_append.mpr ⟨h.filter _, h.filter _, ?_⟩
    intro a ha b hb heq
    subst heq
    simp_all

/-! ## The flattened list -/

variable {Addr : Type}

/-- The addresses of all entries in order, each with the entry that owns it. -/
def flattenFrom : ℕ → List (Expansion Addr) → List (ℕ × Addr)
  | _, [] => []
  | si, e :: specs => e.addrs.map (si, ·) ++ flattenFrom (si + 1) specs

theorem mem_flattenFrom {si i : ℕ} {a : Addr} {specs : List (Expansion Addr)} :
    (i, a) ∈ flattenFrom si specs ↔
      ∃ j e, specs[j]? = some e ∧ i = si + j ∧ a ∈ e.addrs := by
  induction specs generalizing si with
  | nil => simp [flattenFrom]
  | cons e specs ih =>
    rw [flattenFrom, List.mem_append, ih]
    constructor
    · rintro (h | ⟨j, e', hj, rfl, ha⟩)
      · obtain ⟨a', ha', heq⟩ := List.mem_map.mp h
        cases heq
        exact ⟨0, e, rfl, rfl, ha'⟩
      · exact ⟨j + 1, e', hj, by omega, ha⟩
    rintro ⟨j, e', hj, rfl, ha⟩
    cases j with
    | zero =>
      cases hj
      exact .inl (List.mem_map.mpr ⟨a, ha, rfl⟩)
    | succ j => exact .inr ⟨j, e', hj, by omega, ha⟩

theorem nodup_flattenFrom (si : ℕ) (specs : List (Expansion Addr)) :
    (flattenFrom si specs).Nodup := by
  induction specs generalizing si with
  | nil => exact List.nodup_nil
  | cons e specs ih =>
    refine List.nodup_append.mpr ⟨?_, ih (si + 1), ?_⟩
    · exact e.nodup.map fun a b h => congrArg Prod.snd h
    rintro ⟨i, a⟩ hhead ⟨j, b⟩ htail heq
    cases heq
    obtain ⟨a', -, hhead⟩ := List.mem_map.mp hhead
    cases hhead
    obtain ⟨k, e', -, hk, -⟩ := mem_flattenFrom.mp htail
    omega

theorem length_flattenFrom (si : ℕ) (specs : List (Expansion Addr)) :
    (flattenFrom si specs).length = (specs.map (·.addrs.length)).sum := by
  induction specs generalizing si with
  | nil => rfl
  | cons _ _ ih => simp [flattenFrom, ih]

/-! ## The controller -/

/-- What a call does to the bond and to the engine peer. -/
inductive Action (Addr : Type)
  | install (addr : Addr)
  | setPeerRemote (addr : Addr)
  | rehandshake
  deriving DecidableEq, Repr

structure HubFailover (Addr : Type) where
  specs : List (Expansion Addr)
  health : List PathState
  /-- Whether the re-handshake collaborator is wired. -/
  rehandshake : Bool
  settle : Duration
  /-- The owning entry and the address of the active endpoint. -/
  active : Option (ℕ × Addr)
  idx : Option ℕ
  lastSwitch : Time
  /-- The exit that the subscribed callback was created for. -/
  onExhausted : Option String
  exhaustedLatched : Bool
  downAdvances : ℕ
  downSince : Option Time

namespace HubFailover

/-- The flattened endpoint list. -/
def flat (h : HubFailover Addr) : List (ℕ × Addr) := flattenFrom 0 h.specs

def flatLenLocked (h : HubFailover Addr) : ℕ :=
  (h.specs.map (·.addrs.length)).sum

theorem nodup_flat (h : HubFailover Addr) : h.flat.Nodup :=
  nodup_flattenFrom 0 h.specs

theorem flatLenLocked_eq (h : HubFailover Addr) :
    h.flatLenLocked = h.flat.length :=
  (length_flattenFrom 0 h.specs).symm

theorem mem_flat {h : HubFailover Addr} {i : ℕ} {a : Addr} :
    (i, a) ∈ h.flat ↔ ∃ e, h.specs[i]? = some e ∧ a ∈ e.addrs := by
  rw [flat, mem_flattenFrom]
  constructor
  · rintro ⟨j, e, hj, rfl, ha⟩
    exact ⟨e, by simpa using hj, ha⟩
  · rintro ⟨e, hi, ha⟩
    exact ⟨i, e, hi, by simp, ha⟩

variable [DecidableEq Addr]

def flatIndexLocked (h : HubFailover Addr) (endpoint : Option (ℕ × Addr)) :
    Option ℕ :=
  endpoint.bind (position h.flat)

def entryAtLocked (h : HubFailover Addr) (flatIdx : ℕ) : Option (ℕ × Addr) :=
  h.flat[flatIdx]?

/-- A controller starts on the first endpoint, with that endpoint's dwell
running. -/
def newHubFailoverFromSpecs (specs : List (Expansion Addr))
    (health : List PathState) (rehandshake : Bool) (settle : Duration)
    (now : Time) : HubFailover Addr :=
  let h : HubFailover Addr :=
    { specs, health, rehandshake, settle
      active := none
      idx := none
      lastSwitch := now
      onExhausted := none
      exhaustedLatched := false
      downAdvances := 0
      downSince := none }
  let h := { h with active := h.entryAtLocked 0 }
  { h with idx := h.flatIndexLocked h.active }

/-- The re-handshake that follows a move, if the collaborator is wired. -/
def handshake (h : HubFailover Addr) : List (Action Addr) :=
  if h.rehandshake then [.rehandshake] else []

/-- What a call returns: the controller after it, what it did, and whether it
crossed into exhaustion. -/
structure Result (Addr : Type) where
  ctrl : HubFailover Addr
  actions : List (Action Addr)
  raised : Bool

/-- The reconciliation of the active endpoint after an entry's expansion was
swapped. -/
def reconcile (h : HubFailover Addr) (specIdx : ℕ) (addrs : List Addr)
    (now : Time) : HubFailover Addr × List (Action Addr) :=
  match h.active with
  | none =>
    -- The first resolution that leaves an endpoint adopts the head.
    match h.entryAtLocked 0 with
    | none => (h, [])
    | some (spec, addr) =>
      ({ h with active := some (spec, addr), lastSwitch := now },
        .install addr :: h.handshake)
  | some (activeSpec, activeAddr) =>
    if specIdx = activeSpec then
      match addrs with
      | [] => (h, [])
      | first :: _ =>
        if activeAddr ∈ addrs then (h, [])
        else
          ({ h with active := some (activeSpec, first), lastSwitch := now },
            .setPeerRemote first :: h.handshake)
    else (h, [])

def updateResolution (h : HubFailover Addr) (specIdx : ℤ) (e : Expansion Addr)
    (now : Time) : Result Addr :=
  if specIdx < 0 ∨ (h.specs.length : ℤ) ≤ specIdx then ⟨h, [], false⟩
  else
    let h := { h with specs := h.specs.set specIdx.toNat e }
    let (h, actions) := h.reconcile specIdx.toNat e.addrs now
    ⟨{ h with idx := h.flatIndexLocked h.active }, actions, false⟩

/-- Every path is down; without a path there is nothing to declare dead. -/
def allDownLocked (h : HubFailover Addr) : Bool :=
  !h.health.isEmpty && h.health.all (· = .down)

def exhausted (h : HubFailover Addr) : Bool :=
  h.exhaustedLatched && h.allDownLocked

def setOnExhausted (h : HubFailover Addr) (cb : Option String) :
    HubFailover Addr :=
  { h with onExhausted := cb }

def raiseExhaustedLocked (h : HubFailover Addr)
    (actions : List (Action Addr)) : Result Addr :=
  if h.exhaustedLatched then ⟨h, actions, false⟩
  else ⟨{ h with exhaustedLatched := true }, actions, true⟩

/-- The position after the active one; a missing active endpoint resumes from
the head. -/
def nextIdx (h : HubFailover Addr) : ℕ :=
  match h.flatIndexLocked h.active with
  | none => 0
  | some prev => (prev + 1) % h.flatLenLocked

/-- The turn to the next endpoint, and the detection of a full round. -/
def advance (h : HubFailover Addr) (now : Time) : Result Addr :=
  let total := h.flatLenLocked
  let nextIdx := h.nextIdx
  let next := h.entryAtLocked nextIdx
  let h := { h with active := next, idx := some nextIdx, lastSwitch := now }
  let actions :=
    match next with
    | none => h.handshake
    | some (_, addr) => .setPeerRemote addr :: h.handshake
  let h := { h with downAdvances := h.downAdvances + 1 }
  if total ≤ h.downAdvances then
    { h with downAdvances := 0 }.raiseExhaustedLocked actions
  else ⟨h, actions, false⟩

/-- A check that sees a path up ends the episode. -/
def closeEpisode (h : HubFailover Addr) : HubFailover Addr :=
  { h with
    downAdvances := 0
    exhaustedLatched := false
    downSince := none }

/-- The onset of the outage is recorded by the first check that sees it. -/
def openEpisode (h : HubFailover Addr) (now : Time) : HubFailover Addr :=
  { h with downSince := some (h.downSince.getD now) }

def checkLocked (h : HubFailover Addr) (now : Time) : Result Addr :=
  let total := h.flatLenLocked
  if total = 0 then ⟨h, [], false⟩
  else if h.allDownLocked = false then
    ⟨h.closeEpisode, [], false⟩
  else
    let h := h.openEpisode now
    if total < 2 then
      if now - h.downSince.getD now < h.settle then ⟨h, [], false⟩
      else h.raiseExhaustedLocked []
    else if now - h.lastSwitch < h.settle then ⟨h, [], false⟩
    else h.advance now

/-! ## Histories -/

/-- What happens to a controller: a verdict on a path changes, an entry is
resolved again, the periodic check runs, or the subscriber changes. -/
inductive Event (Addr : Type)
  | path (i : ℕ) (state : PathState)
  | updateResolution (specIdx : ℤ) (e : Expansion Addr) (now : Time)
  | check (now : Time)
  | setOnExhausted (cb : Option String)

def Event.time? : Event Addr → Option Time
  | .updateResolution _ _ now => some now
  | .check now => some now
  | _ => none

def setPath (h : HubFailover Addr) (i : ℕ) (state : PathState) :
    HubFailover Addr :=
  { h with health := h.health.set i state }

def step (h : HubFailover Addr) : Event Addr → Result Addr
  | .path i state => ⟨h.setPath i state, [], false⟩
  | .updateResolution specIdx e now => h.updateResolution specIdx e now
  | .check now => h.checkLocked now
  | .setOnExhausted cb => ⟨h.setOnExhausted cb, [], false⟩

def run (h : HubFailover Addr) (events : List (Event Addr)) :
    HubFailover Addr :=
  events.foldl (fun h e => (h.step e).ctrl) h

/-! ## Positions and turns -/

theorem nextIdx_eq (h : HubFailover Addr) :
    h.nextIdx = h.active.elim 0 (turn h.flat) := by
  unfold nextIdx flatIndexLocked
  rw [flatLenLocked_eq]
  cases h.active with
  | none => rfl
  | some e => rfl

theorem nextIdx_lt {h : HubFailover Addr} (hflat : h.flat ≠ []) :
    h.nextIdx < h.flat.length := by
  rw [nextIdx_eq]
  cases h.active with
  | none => exact List.length_pos_iff.mpr hflat
  | some e => exact turn_lt hflat e

/-! ## What a call does -/

theorem advance_eq (h : HubFailover Addr) (now : Time) {e : ℕ × Addr}
    (he : h.flat[h.nextIdx]? = some e) :
    h.advance now =
      (let moved := { h with
          active := some e, idx := some h.nextIdx, lastSwitch := now }
      if h.flat.length ≤ h.downAdvances + 1 then
        { moved with downAdvances := 0 }.raiseExhaustedLocked
          (.setPeerRemote e.2 :: h.handshake)
      else ⟨{ moved with downAdvances := h.downAdvances + 1 },
        .setPeerRemote e.2 :: h.handshake, false⟩) := by
  unfold advance
  simp only [entryAtLocked, he, flatLenLocked_eq]
  rfl

/-- A check does nothing to the endpoints and is idle, clears the episode of an
outage that is over, waits, signals for a single endpoint, or advances. -/
theorem checkLocked_cases (h : HubFailover Addr) (now : Time) :
    (h.flat = [] ∧ h.checkLocked now = ⟨h, [], false⟩) ∨
    (h.flat ≠ [] ∧ h.allDownLocked = false ∧
      h.checkLocked now = ⟨h.closeEpisode, [], false⟩) ∨
    (h.flat ≠ [] ∧ h.allDownLocked = true ∧
      h.checkLocked now = ⟨h.openEpisode now, [], false⟩) ∨
    (h.flat.length = 1 ∧ h.allDownLocked = true ∧
      h.checkLocked now = (h.openEpisode now).raiseExhaustedLocked []) ∨
    (2 ≤ h.flat.length ∧ h.allDownLocked = true ∧
      h.settle ≤ now - h.lastSwitch ∧
      h.checkLocked now = (h.openEpisode now).advance now) := by
  have hlen := h.flatLenLocked_eq
  unfold checkLocked
  simp only [hlen]
  split
  · next hzero => exact .inl ⟨List.length_eq_zero_iff.mp hzero, rfl⟩
  next hpos =>
  have hne : h.flat ≠ [] := fun hnil => hpos (by rw [hnil]; rfl)
  split
  · next hup => exact .inr (.inl ⟨hne, hup, rfl⟩)
  next hdown =>
  have hdown' : h.allDownLocked = true := by simpa using hdown
  split
  · next hone =>
    split
    · exact .inr (.inr (.inl ⟨hne, hdown', rfl⟩))
    · exact .inr (.inr (.inr (.inl ⟨by omega, hdown', rfl⟩)))
  · next htwo =>
    split
    · exact .inr (.inr (.inl ⟨hne, hdown', rfl⟩))
    · next hdwell =>
      exact .inr (.inr (.inr (.inr
        ⟨by omega, hdown', not_lt.mp hdwell, rfl⟩)))

omit [DecidableEq Addr] in
@[simp] theorem raiseExhaustedLocked_actions (h : HubFailover Addr)
    (actions : List (Action Addr)) :
    (h.raiseExhaustedLocked actions).actions = actions := by
  unfold raiseExhaustedLocked
  split <;> rfl

omit [DecidableEq Addr] in
theorem raiseExhaustedLocked_ctrl (h : HubFailover Addr)
    (actions : List (Action Addr)) :
    (h.raiseExhaustedLocked actions).ctrl =
      { h with exhaustedLatched := true } := by
  unfold raiseExhaustedLocked
  split
  · next hlatched =>
    cases h
    simp_all
  · rfl

/-- A check keeps the endpoints' order, the verdicts and the wiring, and moves
the active endpoint only by a turn that waited for its dwell. -/
theorem checkLocked_moves (h : HubFailover Addr) (now : Time) :
    ((h.checkLocked now).actions = [] ∧
      (h.checkLocked now).ctrl.active = h.active ∧
      (h.checkLocked now).ctrl.idx = h.idx ∧
      (h.checkLocked now).ctrl.lastSwitch = h.lastSwitch) ∨
    (2 ≤ h.flat.length ∧ h.settle ≤ now - h.lastSwitch ∧
      ∃ e, h.flat[h.nextIdx]? = some e ∧
        (h.checkLocked now).actions = .setPeerRemote e.2 :: h.handshake ∧
        (h.checkLocked now).ctrl.active = some e ∧
        (h.checkLocked now).ctrl.idx = some h.nextIdx ∧
        (h.checkLocked now).ctrl.lastSwitch = now) := by
  rcases h.checkLocked_cases now with ⟨-, heq⟩ | ⟨-, -, heq⟩ | ⟨-, -, heq⟩ |
    ⟨-, -, heq⟩ | ⟨htwo, -, hdwell, heq⟩
  iterate 3
    · left
      rw [heq]
      exact ⟨rfl, rfl, rfl, rfl⟩
  · left
    rw [heq, raiseExhaustedLocked_ctrl, raiseExhaustedLocked_actions]
    exact ⟨rfl, rfl, rfl, rfl⟩
  right
  have hlt : h.nextIdx < h.flat.length := by
    apply nextIdx_lt
    rintro hnil
    simp [hnil] at htwo
  have he : h.flat[h.nextIdx]? = some h.flat[h.nextIdx] :=
    List.getElem?_eq_getElem hlt
  refine ⟨htwo, hdwell, h.flat[h.nextIdx], he, ?_⟩
  rw [heq, advance_eq (h.openEpisode now) now he]
  split
  · rw [raiseExhaustedLocked_ctrl, raiseExhaustedLocked_actions]
    exact ⟨rfl, rfl, rfl, rfl⟩
  · exact ⟨rfl, rfl, rfl, rfl⟩

/-- The controller after entry `i` was resolved to `e`. -/
def resolved (h : HubFailover Addr) (i : ℕ) (e : Expansion Addr)
    (active : Option (ℕ × Addr)) (lastSwitch : Time) : HubFailover Addr :=
  let h := { h with specs := h.specs.set i e, active, lastSwitch }
  { h with idx := h.flatIndexLocked active }

/-- A resolution leaves the active endpoint alone, adopts the first endpoint
there is, or follows the active entry to its new head. -/
inductive Resolves (h : HubFailover Addr) (i : ℕ) (e : Expansion Addr)
    (now : Time) : Result Addr → Prop
  | keep (hnone : h.active = none → flattenFrom 0 (h.specs.set i e) = [])
      (hown : ∀ a, h.active = some (i, a) → a ∈ e.addrs ∨ e.addrs = []) :
      Resolves h i e now
        ⟨h.resolved i e h.active h.lastSwitch, [], false⟩
  | adopt (x : ℕ × Addr) (hnone : h.active = none)
      (hhead : (flattenFrom 0 (h.specs.set i e))[0]? = some x) :
      Resolves h i e now
        ⟨h.resolved i e (some x) now, .install x.2 :: h.handshake, false⟩
  | follow (a first : Addr) (hactive : h.active = some (i, a))
      (hgone : a ∉ e.addrs) (hhead : e.addrs.head? = some first) :
      Resolves h i e now
        ⟨h.resolved i e (some (i, first)) now,
          .setPeerRemote first :: h.handshake, false⟩

theorem updateResolution_cases (h : HubFailover Addr) (specIdx : ℤ)
    (e : Expansion Addr) (now : Time) :
    h.updateResolution specIdx e now = ⟨h, [], false⟩ ∨
    ∃ (i : ℕ) (r : Result Addr), specIdx = i ∧ i < h.specs.length ∧
      h.updateResolution specIdx e now = r ∧ Resolves h i e now r := by
  unfold updateResolution
  split
  · exact .inl rfl
  next hrange =>
  obtain ⟨i, rfl⟩ := Int.eq_ofNat_of_zero_le (a := specIdx) (by omega)
  refine .inr ⟨i, _, rfl, by omega, rfl, ?_⟩
  simp only [Int.toNat_natCast]
  unfold reconcile
  cases hactive : h.active with
  | none =>
    simp only [entryAtLocked, flat]
    cases hhead : (flattenFrom 0 (h.specs.set i e))[0]? with
    | none =>
      have hkeep : Resolves h i e now _ := .keep (fun _ => ?_) (by simp [hactive])
      · rwa [hactive] at hkeep
      · rw [List.getElem?_eq_none_iff] at hhead
        exact List.length_eq_zero_iff.mp (Nat.le_zero.mp hhead)
    | some x => exact .adopt x hactive hhead
  | some x =>
    obtain ⟨j, a⟩ := x
    have hkeep : (i = j → a ∈ e.addrs ∨ e.addrs = []) →
        Resolves h i e now
          ⟨h.resolved i e (some (j, a)) h.lastSwitch, [], false⟩ := by
      intro hown
      have hres : Resolves h i e now _ := .keep (by simp [hactive])
        (by
          intro a' ha'
          rw [hactive] at ha'
          cases ha'
          exact hown rfl)
      rwa [hactive] at hres
    dsimp only
    split
    · next hij =>
      subst hij
      cases haddrs : e.addrs with
      | nil => exact hkeep fun _ => .inr haddrs
      | cons first =>
        dsimp only
        split
        · next hmem => exact hkeep fun _ => .inl (haddrs ▸ hmem)
        · next hmem =>
          exact .follow a first hactive (haddrs ▸ hmem) (by rw [haddrs]; rfl)
    · next hij => exact hkeep fun heq => absurd heq hij

/-- A resolution changes the entries and the active endpoint, and raises no
signal. -/
theorem updateResolution_frame (h : HubFailover Addr) (specIdx : ℤ)
    (e : Expansion Addr) (now : Time) :
    ∃ specs active idx lastSwitch, (h.updateResolution specIdx e now).ctrl =
        { h with specs, active, idx, lastSwitch } ∧
      (h.updateResolution specIdx e now).raised = false := by
  rcases h.updateResolution_cases specIdx e now with heq |
    ⟨i, r, -, -, heq, hres⟩
  · rw [heq]
    exact ⟨h.specs, h.active, h.idx, h.lastSwitch, rfl, rfl⟩
  · rw [heq]
    cases hres <;> exact ⟨_, _, _, _, rfl, rfl⟩

theorem checkLocked_frame (h : HubFailover Addr) (now : Time) :
    (h.checkLocked now).ctrl.specs = h.specs ∧
      (h.checkLocked now).ctrl.health = h.health ∧
      (h.checkLocked now).ctrl.rehandshake = h.rehandshake ∧
      (h.checkLocked now).ctrl.settle = h.settle ∧
      (h.checkLocked now).ctrl.onExhausted = h.onExhausted := by
  rcases h.checkLocked_cases now with ⟨-, heq⟩ | ⟨-, -, heq⟩ | ⟨-, -, heq⟩ |
    ⟨-, -, heq⟩ | ⟨htwo, -, hdwell, heq⟩
  iterate 3
    · rw [heq]
      exact ⟨rfl, rfl, rfl, rfl, rfl⟩
  · rw [heq, raiseExhaustedLocked_ctrl]
    exact ⟨rfl, rfl, rfl, rfl, rfl⟩
  rw [heq]
  dsimp only [advance]
  split
  · rw [raiseExhaustedLocked_ctrl]
    exact ⟨rfl, rfl, rfl, rfl, rfl⟩
  · exact ⟨rfl, rfl, rfl, rfl, rfl⟩

end HubFailover

end Wanbond.Device
