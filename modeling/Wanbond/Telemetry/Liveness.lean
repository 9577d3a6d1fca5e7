import Wanbond.Telemetry.PMTU
import Wanbond.Telemetry.Probe

/-!
# Liveness of a path

A path starts down.  It is declared up by enough consecutive echoes, none of
which comes more than `downAfter` after the one before it, and down by a tick
that finds it silent for longer than `downAfter + rideThrough`.

The counter of consecutive echoes is reset at three places.  What it counts is
read off the history: while the path is down, it is the length of a run of
echoes at the end of the current spell.
-/

namespace Wanbond.Telemetry

open Wanbond.Bond (Time Duration)
open Wanbond.Frame (Probe)

/-! ## The state machine -/

structure LivenessConfig where
  downAfter : Duration
  upAfterSuccesses : ℤ
  /-- The silence beyond `downAfter` that a path which is up survives. -/
  rideThrough : Duration
  deriving DecidableEq, Repr

structure Liveness where
  cfg : LivenessConfig
  state : PathState := .down
  lastGood : Time := 0
  haveGood : Bool := false
  goodStreak : ℕ := 0
  deriving DecidableEq, Repr

namespace Liveness

def recordEcho (l : Liveness) (now : Time) : Liveness :=
  let streak :=
    if l.haveGood ∧ now - l.lastGood > l.cfg.downAfter then 0 else l.goodStreak
  let l :=
    { l with lastGood := now, haveGood := true, goodStreak := streak + 1 }
  if l.state = .down ∧ (l.goodStreak : ℤ) ≥ l.cfg.upAfterSuccesses then
    { l with state := .up }
  else l

def tick (l : Liveness) (now : Time) : Liveness :=
  if !l.haveGood then l
  else
    let silence := now - l.lastGood
    let downThreshold := l.cfg.downAfter + l.cfg.rideThrough
    if l.state = .up ∧ silence > downThreshold then
      { l with goodStreak := 0, state := .down }
    else if l.state = .down ∧ silence > l.cfg.downAfter then
      { l with goodStreak := 0 }
    else l

theorem recordEcho_eq (l : Liveness) (now : Time) :
    l.recordEcho now =
      let streak := (if l.haveGood ∧ now - l.lastGood > l.cfg.downAfter then 0
        else l.goodStreak) + 1
      ⟨l.cfg, if l.state = .down ∧ (streak : ℤ) ≥ l.cfg.upAfterSuccesses then .up
        else l.state, now, true, streak⟩ := by
  unfold recordEcho
  dsimp only
  split_ifs <;> rfl

/-- A call that the prober makes when it observes an echo. -/
def observe (now : Time) (l : Liveness) : Observation → Liveness
  | .recordEcho => l.recordEcho now
  | _ => l

end Liveness

/-! ## A prober and its liveness machine -/

structure WatchedProber where
  prober : Prober
  live : Liveness

inductive WatchedProber.Call
  | echo (probe : Probe)
  | tick

namespace WatchedProber

variable (s : WatchedProber)

def new (pathID : UInt8) (sessionID : UInt64) (cfg : LivenessConfig) :
    WatchedProber :=
  ⟨.new pathID sessionID, { cfg }⟩

/-- An echo reaches the machine through the calls that the prober makes for
it. -/
def step : Call × Time → WatchedProber
  | (.echo probe, now) =>
    let prober := (s.prober.handleEchoProbe probe now).1
    ⟨prober, (prober.observed.drop s.prober.observed.length).foldl
      (Liveness.observe now) s.live⟩
  | (.tick, now) => { s with live := s.live.tick now }

def run (calls : List (Call × Time)) : WatchedProber := calls.foldl step s

/-- The call brings an echo that the prober takes for a fresh one. -/
def fresh : Call × Time → Bool
  | (.echo probe, now) => (s.prober.handleEchoProbe probe now).2.toBool
  | (.tick, _) => false

/-- The times of the fresh echoes among the calls. -/
def echoes (s : WatchedProber) : List (Call × Time) → List Time
  | [] => []
  | call :: calls =>
    (if s.fresh call then [call.2] else []) ++ (s.step call).echoes calls

variable (calls : List (Call × Time))

theorem echoes_append_singleton (call : Call × Time) :
    s.echoes (calls ++ [call]) =
      s.echoes calls ++ if (s.run calls).fresh call then [call.2] else [] := by
  induction calls generalizing s with
  | nil =>
    simp only [List.nil_append, echoes, List.append_nil]
    rfl
  | cons _ _ ih =>
    rw [List.cons_append, echoes, ih, echoes, List.append_assoc]
    rfl

/-- Since the calls `earlier` the path has been down, and `streak` are the last
fresh echoes of this spell, each within `downAfter` of the one before. -/
structure Streak (earlier spell : List (Call × Time)) (streak : List Time) :
    Prop where
  down : ∀ part, part <+: spell →
    (s.run (earlier ++ part)).live.state = .down
  recent : streak <:+ (s.run earlier).echoes spell
  chain : streak.IsChain fun a b => b - a ≤ s.live.cfg.downAfter

/-- The streak is what the machine has counted. -/
def Counted (l : Liveness) (streak : List Time) : Prop :=
  streak.length = l.goodStreak ∧
    ∀ t ∈ streak.getLast?, l.haveGood = true ∧ l.lastGood = t

variable {s}

theorem run_append (more : List (Call × Time)) :
    s.run (calls ++ more) = (s.run calls).run more :=
  List.foldl_append

variable {call : Call × Time}

/-- A fresh echo either continues the streak or starts it over. -/
theorem Streak.echo {earlier spell : List (Call × Time)} {streak : List Time}
    (h : s.Streak earlier spell streak) {l : Liveness}
    (hcfg : l.cfg = s.live.cfg) (hcounted : Counted l streak)
    (hfresh : (s.run (earlier ++ spell)).fresh call = true) :
    ∃ streak', streak' <:+ (s.run earlier).echoes (spell ++ [call]) ∧
      streak'.IsChain (fun a b => b - a ≤ s.live.cfg.downAfter) ∧
      streak'.getLast? = some call.2 ∧
      streak'.length = (l.recordEcho call.2).goodStreak := by
  rw [echoes_append_singleton, ← run_append, hfresh, if_pos rfl,
    Liveness.recordEcho_eq]
  split_ifs with hsilence
  · exact ⟨[call.2], List.suffix_append _ _, List.isChain_singleton _, rfl, rfl⟩
  refine ⟨streak ++ [call.2], ?_, ?_, List.getLast?_concat, ?_⟩
  · obtain ⟨before, hbefore⟩ := h.recent
    exact ⟨before, by rw [← List.append_assoc, hbefore]⟩
  · refine List.isChain_append.mpr ⟨h.chain, List.isChain_singleton _, ?_⟩
    rintro t ht _ ⟨rfl⟩
    obtain ⟨hgood, rfl⟩ := hcounted.2 t ht
    rw [← hcfg]
    exact not_lt.mp fun hlt => hsilence ⟨hgood, hlt⟩
  · rw [List.length_append, hcounted.1, List.length_singleton]

variable {pathID : UInt8} {sessionID : UInt64} {cfg : LivenessConfig}

end WatchedProber

end Wanbond.Telemetry
