import Wanbond.Device.Failover
import Wanbond.Device.Routes

/-!
# The exit selector

On an edge with several exit-capable peers the selector decides which of them
carries the default route.  Operators, round-trip measurements and the
controllers' exhaustion signals move it.  A controller raises its signal under
its own lock and calls the subscriber later, so that the raise, the reading of
the subscriber and the call are steps of their own.
-/

namespace Wanbond.Device

open Wanbond.Bond (Time Duration second)
open Wanbond.Telemetry (PathState)
open Wanbond.Config
open HubFailover (Event)

variable {Addr : Type} [DecidableEq Addr]

/-- What it takes to give an exit the default route. -/
structure ExitPeer where
  publicKeyHex : String
  splits : List Cidr
  deriving DecidableEq

structure ExitSelector where
  active : String
  mode : String
  lastSwitch : Option Time
  /-- Whether the round-trip source and the health source are wired. -/
  rtt : Bool
  health : Bool
  exits : List (String × ExitPeer)
  order : List String

def autoExitCooldown : Duration := 300 * second

/-- The exit-capable peers of a configuration, by name. -/
def configuredExits (c : Config) : List (String × ExitPeer) :=
  c.exitPeers.map fun (_, peer) =>
    (peer.identity, ⟨peer.publicKey, defaultRouteSplits peer.allowedIPs⟩)

/-- There is a selector for two or more exits, and it starts on the first. -/
def newExitSelector (c : Config) : Option ExitSelector :=
  if (exitCapablePeerIndices c).length < 2 then none
  else
    (configuredExits c).head?.map fun first =>
      { active := first.1
        mode := "auto"
        lastSwitch := none
        rtt := false
        health := false
        exits := configuredExits c
        order := (configuredExits c).map (·.1) }

/-- Why a request is refused. -/
inductive ExitError
  | unknownExit (name : String)
  | switchFailed (origin name : String)
  deriving DecidableEq

inductive Reason
  | manual
  | autoRTT
  | autoPromotion
  deriving DecidableEq

/-- What the selector has logged: a switch, or the operator's return from a
fixed exit to `auto`. -/
inductive Entry
  | switched (origin target : String) (reason : Reason) (at_ : Time)
  | returned
  deriving DecidableEq

/-- A raise that has not yet come to an end: the subscriber is still to be read,
or it has been read and is still to be called.  `recovered` and `elsewhere` tell
whether, since the raise, a path was up and whether another exit was active. -/
structure Signal where
  ctrl : String
  callback : Option String
  recovered : Bool
  elsewhere : Bool
  deriving DecidableEq

/-- The selector, the controllers of the exits, the engine's table, the entries
logged, newest first, and the signals on their way. -/
structure Egress (Addr : Type) where
  sel : ExitSelector
  ctrls : String → Option (HubFailover Addr)
  engine : Table
  log : List Entry
  pending : List Signal

namespace Egress

def setOnExhausted (ctrls : String → Option (HubFailover Addr)) (name : String)
    (cb : Option String) : String → Option (HubFailover Addr) :=
  Function.update ctrls name ((ctrls name).map (·.setOnExhausted cb))

/-- The subscription moves from one exit's controller to another's. -/
def resubscribeLocked (ctrls : String → Option (HubFailover Addr))
    (origin target : String) : String → Option (HubFailover Addr) :=
  setOnExhausted (setOnExhausted ctrls origin none) target (some target)

/-- The health source is wired and the active exit's controller, if there is
one, is subscribed. -/
def enableAutoPromotion (sel : ExitSelector)
    (ctrls : String → Option (HubFailover Addr)) (engine : Table) :
    Egress Addr where
  sel := { sel with health := true }
  ctrls := setOnExhausted ctrls sel.active (some sel.active)
  engine := engine
  log := []
  pending := []

/-- A switch that the engine has applied. -/
def switched (w : Egress Addr) (name : String) (target : ExitPeer)
    (reason : Reason) (now : Time) : Egress Addr :=
  { w with
    sel := { w.sel with active := name, lastSwitch := some now }
    ctrls := resubscribeLocked w.ctrls w.sel.active name
    engine := w.engine.apply ⟨target.publicKeyHex, target.splits⟩
    log := .switched w.sel.active name reason now :: w.log }

/-- `ipc` tells whether the engine applies the command, all of it or nothing. -/
def switchLocked (w : Egress Addr) (name : String) (reason : Reason)
    (ipc : Bool) (now : Time) : Egress Addr × Option ExitError :=
  match w.sel.exits.lookup name with
  | none => (w, some (.unknownExit name))
  | some target =>
    if name = w.sel.active then (w, none)
    else if ipc = false then (w, some (.switchFailed w.sel.active name))
    else (w.switched name target reason now, none)

def setMode (w : Egress Addr) (mode : String) (ipc : Bool) (now : Time) :
    Egress Addr × Option ExitError :=
  if mode = "auto" then
    if w.sel.mode = "auto" then (w, none)
    else
      ({ w with
          sel := { w.sel with mode := mode, lastSwitch := none }
          log := .returned :: w.log }, none)
  else
    match w.sel.exits.lookup mode with
    | none => (w, some (.unknownExit mode))
    | some _ =>
      match w.switchLocked mode .manual ipc now with
      | (_, some err) => (w, some err)
      | (w, none) => ({ w with sel := { w.sel with mode := mode } }, none)

/-- The healthy exit with the smallest positive round trip, the first one in
order among equals. -/
def bestRTT (healthy : String → Bool) (rtt : String → Option Duration) :
    List String → Option (String × Duration) → Option (String × Duration)
  | [], best => best
  | name :: order, best =>
    if healthy name = false then bestRTT healthy rtt order best
    else
      match rtt name with
      | none => bestRTT healthy rtt order best
      | some d =>
        if d ≤ 0 then bestRTT healthy rtt order best
        else if best.all (d < ·.2) then
          bestRTT healthy rtt order (some (name, d))
        else bestRTT healthy rtt order best

def evaluateAuto (w : Egress Addr) (healthy : String → Bool)
    (rtt : String → Option Duration) (ipc : Bool) (now : Time) : Egress Addr :=
  if w.sel.mode ≠ "auto" ∨ w.sel.rtt = false ∨ w.sel.health = false then w
  else if w.sel.lastSwitch.any (now - · < autoExitCooldown) then w
  else
    match bestRTT healthy rtt w.sel.order none with
    | none => w
    | some (best, _) =>
      if best = w.sel.active then w
      else (w.switchLocked best .autoRTT ipc now).1

def firstHealthyStandbyLocked (w : Egress Addr) (healthy : String → Bool) :
    Option String :=
  if w.sel.health = false then none
  else w.sel.order.find? fun name => name ≠ w.sel.active ∧ healthy name

/-- The first healthy standby takes over. -/
def promote (w : Egress Addr) (healthy : String → Bool) (ipc : Bool)
    (now : Time) : Egress Addr :=
  match w.firstHealthyStandbyLocked healthy with
  | none => w
  | some target => (w.switchLocked target .autoPromotion ipc now).1

def retryExhaustedPromotion (w : Egress Addr) (healthy : String → Bool)
    (ipc : Bool) (now : Time) : Egress Addr :=
  if (w.ctrls w.sel.active).any (·.exhausted) then w.promote healthy ipc now
  else w

/-- The subscriber guards on the name it was created for. -/
def onActiveExhausted (w : Egress Addr) (exhausted : String)
    (healthy : String → Bool) (ipc : Bool) (now : Time) : Egress Addr :=
  if w.sel.active ≠ exhausted then w else w.promote healthy ipc now

/-! ## Steps -/

/-- A verdict, a resolution or a check at one exit's controller; a check that
raises sends a signal on its way. -/
inductive CtrlEvent (Addr : Type)
  | path (i : ℕ) (state : PathState)
  | updateResolution (specIdx : ℤ) (e : Expansion Addr) (now : Time)
  | check (now : Time)

def CtrlEvent.event : CtrlEvent Addr → Event Addr
  | .path i state => .path i state
  | .updateResolution specIdx e now => .updateResolution specIdx e now
  | .check now => .check now

inductive Act (Addr : Type)
  | setMode (mode : String) (ipc : Bool) (now : Time)
  | enableRTTSelection
  | evaluateAuto (healthy : String → Bool) (rtt : String → Option Duration)
      (ipc : Bool) (now : Time)
  | retry (healthy : String → Bool) (ipc : Bool) (now : Time)
  | ctrl (name : String) (e : CtrlEvent Addr)
  | fetch (i : ℕ)
  | fire (i : ℕ) (healthy : String → Bool) (ipc : Bool) (now : Time)

def ctrlStep (w : Egress Addr) (name : String) (e : CtrlEvent Addr) :
    Egress Addr :=
  match w.ctrls name with
  | none => w
  | some c =>
    let r := c.step e.event
    { w with
      ctrls := Function.update w.ctrls name (some r.ctrl)
      pending :=
        if r.raised then
          ⟨name, none, false, w.sel.active ≠ name⟩ :: w.pending
        else w.pending }

/-- The check reads the subscriber after it has released the lock; without one
the signal ends. -/
def fetchStep (w : Egress Addr) (i : ℕ) : Egress Addr :=
  match w.pending[i]? with
  | some ⟨name, none, recovered, elsewhere⟩ =>
    match (w.ctrls name).bind (·.onExhausted) with
    | none => { w with pending := w.pending.eraseIdx i }
    | some cb =>
      { w with
        pending := w.pending.set i ⟨name, some cb, recovered, elsewhere⟩ }
  | _ => w

def fireStep (w : Egress Addr) (i : ℕ) (healthy : String → Bool) (ipc : Bool)
    (now : Time) : Egress Addr :=
  match w.pending[i]? with
  | some ⟨_, some exhausted, _, _⟩ =>
    { w with pending := w.pending.eraseIdx i }.onActiveExhausted exhausted
      healthy ipc now
  | _ => w

def act (w : Egress Addr) : Act Addr → Egress Addr
  | .setMode mode ipc now => (w.setMode mode ipc now).1
  | .enableRTTSelection => { w with sel := { w.sel with rtt := true } }
  | .evaluateAuto healthy rtt ipc now => w.evaluateAuto healthy rtt ipc now
  | .retry healthy ipc now => w.retryExhaustedPromotion healthy ipc now
  | .ctrl name e => w.ctrlStep name e
  | .fetch i => w.fetchStep i
  | .fire i healthy ipc now => w.fireStep i healthy ipc now

/-- The signals on their way take note of a recovery and of another exit. -/
def note (w : Egress Addr) : Egress Addr :=
  { w with
    pending := w.pending.map fun s =>
      { s with
        recovered := s.recovered || (w.ctrls s.ctrl).any (!·.allDownLocked)
        elsewhere := s.elsewhere || w.sel.active ≠ s.ctrl } }

def step (w : Egress Addr) (a : Act Addr) : Egress Addr := (w.act a).note

def run (w : Egress Addr) (acts : List (Act Addr)) : Egress Addr :=
  acts.foldl step w

end Egress

end Wanbond.Device
