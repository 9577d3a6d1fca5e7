import Mathlib.Data.Finmap
import Wanbond.Bond.Wire
import Wanbond.Frame.Codec

/-!
# The probe exchange

The prober of a path sends probes and consumes their echoes; the reflector of a
peer answers the probes it receives.  A reflector holds, for each path, the
session it has adopted and a challenge that it sends with every echo.  A probe
of another session is adopted only if it carries this challenge.

Both ends are modelled on decoded frames: the bind decodes a datagram under the
key that the prober and the reflector would use again.  The estimator and the
liveness machine of a prober are represented by the calls made to them.
-/

namespace Wanbond.Telemetry

open Wanbond.Bond (Time Duration)
open Wanbond.Frame (Probe Fault)

inductive ProbeError
  | replay
  | pathMismatch
  | sessionMismatch
  | drawChallenge
  deriving DecidableEq, Repr

def ProbeError.message : ProbeError → String
  | .replay => "telemetry: probe sequence replayed or stale"
  | .pathMismatch => "telemetry: probe PathID does not match this path"
  | .sessionMismatch => "telemetry: probe SessionID does not match this session"
  | .drawChallenge => "telemetry: draw challenge"

/-! ## The anti-replay filter -/

structure AntiReplay where
  high : UInt64 := 0
  /-- Whether any sequence was accepted. -/
  seen : Bool := false
  deriving DecidableEq, Repr

/-- A sequence is fresh if it exceeds every accepted one. -/
def AntiReplay.accept (a : AntiReplay) (seq : UInt64) : AntiReplay × Bool :=
  if a.seen ∧ seq ≤ a.high then (a, false) else (⟨seq, true⟩, true)

/-! ## The prober -/

/-- A call to the estimator or the liveness machine. -/
inductive Observation
  | probeEcho (seq : UInt64)
  | rtt (d : Duration)
  | recordEcho
  deriving DecidableEq, Repr

structure Prober where
  pathID : UInt8
  sessionID : UInt64
  guard : AntiReplay
  /-- The challenge of the last fresh echo, zero before the first one. -/
  learnedChallenge : UInt64
  observed : List Observation
  deriving DecidableEq, Repr

namespace Prober

def new (pathID : UInt8) (sessionID : UInt64) : Prober :=
  ⟨pathID, sessionID, {}, 0, []⟩

/-- `HandleEchoProbe`.  A genuine echo is counted for the loss estimate even if
it is stale; only a fresh one counts for the round trip and for liveness. -/
def handleEchoProbe (p : Prober) (probe : Probe) (now : Time) :
    Prober × Except ProbeError Probe :=
  if probe.pathID ≠ p.pathID then (p, .error .pathMismatch)
  else if probe.sessionID ≠ p.sessionID then (p, .error .sessionMismatch)
  else
    let p :=
      { p with
        observed := p.observed ++ [Observation.probeEcho probe.probeSeq] }
    match p.guard.accept probe.probeSeq with
    | (_, false) => (p, .error .replay)
    | (guard, true) =>
      let rtt := max 0 (now - probe.timestampNanos.toInt)
      ({ p with
        guard
        learnedChallenge := probe.challenge
        observed := p.observed ++ [Observation.rtt rtt, .recordEcho] }, .ok probe)

theorem handleEchoProbe_ok {p p' : Prober} {probe fresh : Probe} {now : Time}
    (h : p.handleEchoProbe probe now = (p', .ok fresh)) : fresh = probe := by
  unfold handleEchoProbe at h
  split_ifs at h
  · cases h
  · cases h
  · dsimp only at h
    split at h <;> cases h
    rfl

end Prober

/-! ## The reflector -/

structure ReflectorPath where
  session : UInt64 := 0
  guard : AntiReplay := {}
  challenge : UInt64
  adopted : Bool := false
  deriving DecidableEq, Repr

/-- `rand` lists the results of the coming reads of the random source, each of
which may fail. -/
structure Reflector where
  rand : List (Option UInt64)
  paths : Finmap fun _ : UInt8 => ReflectorPath
  lastRestartSession : UInt64
  haveRestartSession : Bool

inductive ProbeAcceptance
  | bootstrap
  | current
  | adopted
  deriving DecidableEq, Repr

/-- What `acceptLocked` returns along with its error. -/
structure Verdict where
  issued : UInt64
  reflect : Bool
  acceptance : ProbeAcceptance
  epochChanged : Bool
  deriving DecidableEq, Repr

structure AcceptedProbe where
  probe : Probe
  acceptance : ProbeAcceptance
  epochChanged : Bool
  deriving DecidableEq, Repr

/-- Zero is skipped, as a peer that has learned no challenge sends zero.  The
remaining reads are returned. -/
def drawChallenge :
    List (Option UInt64) → List (Option UInt64) × Option UInt64
  | [] => ([], none)
  | none :: rest => (rest, none)
  | some v :: rest => if v = 0 then drawChallenge rest else (rest, some v)

namespace Reflector

def new (rand : List (Option UInt64)) : Reflector := ⟨rand, ∅, 0, false⟩

/-- The state of a path, which a first probe creates. -/
def contact (r : Reflector) (pathID : UInt8) :
    Reflector × Option ReflectorPath :=
  match r.paths.lookup pathID with
  | some st => (r, some st)
  | none =>
    match drawChallenge r.rand with
    | (rand, none) => ({ r with rand }, none)
    | (rand, some ch) =>
      ({ r with rand, paths := r.paths.insert pathID { challenge := ch } },
        some { challenge := ch })

/-- An adoption over another session is a restart, which is reported once for
each new session. -/
def reportRestart (r : Reflector) (restart : Bool) (sessionID : UInt64) :
    Reflector × Bool :=
  if restart ∧ (!r.haveRestartSession ∨ sessionID ≠ r.lastRestartSession) then
    ({ r with lastRestartSession := sessionID, haveRestartSession := true },
      true)
  else (r, false)

/-- The probe carries the live challenge: its session is adopted, and the
challenge rotated.  The session is overwritten before the draw, also if the
draw fails. -/
def adopt (r : Reflector) (pathID : UInt8) (st : ReflectorPath)
    (sessionID probeSeq : UInt64) : Reflector × Except ProbeError Verdict :=
  let restart := st.adopted && decide (sessionID ≠ st.session)
  let st :=
    { st with
      session := sessionID
      adopted := true
      guard := (({} : AntiReplay).accept probeSeq).1 }
  match drawChallenge r.rand with
  | (rand, none) =>
    ({ r with rand, paths := r.paths.insert pathID st },
      .error .drawChallenge)
  | (rand, some ch) =>
    let r :=
      { r with
        rand
        paths := r.paths.insert pathID { st with challenge := ch } }
    let (r, epochChanged) := r.reportRestart restart sessionID
    (r, .ok ⟨ch, true, .adopted, epochChanged⟩)

def acceptLocked (r : Reflector) (pathID : UInt8)
    (sessionID probeSeq echoedChallenge : UInt64) :
    Reflector × Except ProbeError Verdict :=
  match r.contact pathID with
  | (r, none) => (r, .error .drawChallenge)
  | (r, some st) =>
    if st.adopted ∧ sessionID = st.session then
      match st.guard.accept probeSeq with
      | (_, false) => (r, .ok ⟨0, false, .current, false⟩)
      | (guard, true) =>
        ({ r with paths := r.paths.insert pathID { st with guard } },
          .ok ⟨st.challenge, true, .current, false⟩)
    else if echoedChallenge = st.challenge then
      r.adopt pathID st sessionID probeSeq
    else (r, .ok ⟨st.challenge, true, .bootstrap, false⟩)

/-- `AcceptProbe`: the echo to be sent, or the refusal of a duplicate. -/
def acceptProbe (r : Reflector) (p : Probe) :
    Reflector × Except ProbeError AcceptedProbe :=
  match r.acceptLocked p.pathID p.sessionID p.probeSeq p.challenge with
  | (r, .error e) => (r, .error e)
  | (r, .ok v) =>
    if v.reflect then
      (r, .ok ⟨{ p with isEcho := true, challenge := v.issued },
        v.acceptance, v.epochChanged⟩)
    else (r, .error .replay)

/-- `EncodeAcceptedProbe`, up to the encoding. -/
def answer (accepted : AcceptedProbe) (payload : List UInt8) : Probe :=
  { accepted.probe with payload }

/-! ## What a probe can do -/

theorem reportRestart_paths (r : Reflector) (restart : Bool)
    (sessionID : UInt64) :
    (r.reportRestart restart sessionID).1.paths = r.paths := by
  unfold reportRestart
  split <;> rfl

theorem reportRestart_rand (r : Reflector) (restart : Bool)
    (sessionID : UInt64) :
    (r.reportRestart restart sessionID).1.rand = r.rand := by
  unfold reportRestart
  split <;> rfl

/-- The state `st` of the path, in the reflector `r₁`, against which a probe is
compared. -/
inductive Contacted (r : Reflector) (q : UInt8) :
    Reflector → ReflectorPath → Prop
  | known {st : ReflectorPath} (hst : r.paths.lookup q = some st) :
      Contacted r q r st
  | first {rand : List (Option UInt64)} {ch : UInt64}
      (hnone : r.paths.lookup q = none)
      (hdraw : drawChallenge r.rand = (rand, some ch)) :
      Contacted r q
        { r with rand, paths := r.paths.insert q { challenge := ch } }
        { challenge := ch }

theorem Contacted.lookup {r r₁ : Reflector} {q : UInt8} {st : ReflectorPath}
    (h : Contacted r q r₁ st) : r₁.paths.lookup q = some st := by
  cases h with
  | known hst => exact hst
  | first => exact Finmap.lookup_insert _

theorem Contacted.lookup_ne {r r₁ : Reflector} {q q' : UInt8}
    {st : ReflectorPath} (h : Contacted r q r₁ st) (hne : q' ≠ q) :
    r₁.paths.lookup q' = r.paths.lookup q' := by
  cases h with
  | known => rfl
  | first => exact Finmap.lookup_insert_of_ne _ hne

/-- The echo of a probe, with a challenge. -/
def echo (p : Probe) (issued : UInt64) : Probe :=
  { p with isEcho := true, challenge := issued }

/-- The state of a path that has just adopted the session of a probe. -/
def adoptedBy (p : Probe) (ch : UInt64) : ReflectorPath :=
  ⟨p.sessionID, (({} : AntiReplay).accept p.probeSeq).1, ch, true⟩

/-- The reflector after an adoption, and whether it was reported as a restart. -/
def adoption (r : Reflector) (p : Probe) (st : ReflectorPath)
    (rand : List (Option UInt64)) (ch : UInt64) : Reflector × Bool :=
  reportRestart
    { r with rand, paths := r.paths.insert p.pathID (adoptedBy p ch) }
    (st.adopted && decide (p.sessionID ≠ st.session)) p.sessionID

@[simp] theorem adoption_paths (r : Reflector) (p : Probe) (st : ReflectorPath)
    (rand : List (Option UInt64)) (ch : UInt64) :
    (r.adoption p st rand ch).1.paths =
      r.paths.insert p.pathID (adoptedBy p ch) :=
  reportRestart_paths _ _ _

@[simp] theorem adoption_rand (r : Reflector) (p : Probe) (st : ReflectorPath)
    (rand : List (Option UInt64)) (ch : UInt64) :
    (r.adoption p st rand ch).1.rand = rand :=
  reportRestart_rand _ _ _

/-- Everything that a probe can do to a reflector, with the reply. -/
inductive Handled (r : Reflector) (p : Probe) :
    Reflector → Except ProbeError AcceptedProbe → Prop
  | uncontacted {rand : List (Option UInt64)}
      (hnone : r.paths.lookup p.pathID = none)
      (hdraw : drawChallenge r.rand = (rand, none)) :
      Handled r p { r with rand } (.error .drawChallenge)
  | stale {st : ReflectorPath} (hst : r.paths.lookup p.pathID = some st)
      (hadopted : st.adopted = true) (hsession : p.sessionID = st.session)
      (hseen : st.guard.seen = true) (hseq : p.probeSeq ≤ st.guard.high) :
      Handled r p r (.error .replay)
  | current {st : ReflectorPath} (hst : r.paths.lookup p.pathID = some st)
      (hadopted : st.adopted = true) (hsession : p.sessionID = st.session)
      (hseq : st.guard.seen = true → st.guard.high < p.probeSeq) :
      Handled r p
        { r with
          paths := r.paths.insert p.pathID
            { st with guard := ⟨p.probeSeq, true⟩ } }
        (.ok ⟨echo p st.challenge, .current, false⟩)
  | adopted {r₁ : Reflector} {st : ReflectorPath}
      {rand : List (Option UInt64)} {ch : UInt64}
      (hcontact : Contacted r p.pathID r₁ st)
      (hsession : st.adopted = true → p.sessionID ≠ st.session)
      (hchallenge : p.challenge = st.challenge)
      (hdraw : drawChallenge r₁.rand = (rand, some ch)) :
      Handled r p (r₁.adoption p st rand ch).1
        (.ok ⟨echo p ch, .adopted, (r₁.adoption p st rand ch).2⟩)
  | undrawn {r₁ : Reflector} {st : ReflectorPath}
      {rand : List (Option UInt64)}
      (hcontact : Contacted r p.pathID r₁ st)
      (hsession : st.adopted = true → p.sessionID ≠ st.session)
      (hchallenge : p.challenge = st.challenge)
      (hdraw : drawChallenge r₁.rand = (rand, none)) :
      Handled r p
        { r₁ with
          rand
          paths := r₁.paths.insert p.pathID (adoptedBy p st.challenge) }
        (.error .drawChallenge)
  | bootstrap {r₁ : Reflector} {st : ReflectorPath}
      (hcontact : Contacted r p.pathID r₁ st)
      (hsession : st.adopted = true → p.sessionID ≠ st.session)
      (hchallenge : p.challenge ≠ st.challenge) :
      Handled r p r₁ (.ok ⟨echo p st.challenge, .bootstrap, false⟩)

theorem contact_cases (r : Reflector) (q : UInt8) :
    (∃ r₁ st, r.contact q = (r₁, some st) ∧ Contacted r q r₁ st) ∨
      ∃ rand, r.contact q = ({ r with rand }, none) ∧
        r.paths.lookup q = none ∧ drawChallenge r.rand = (rand, none) := by
  unfold contact
  cases hst : r.paths.lookup q with
  | some st => exact .inl ⟨r, st, rfl, .known hst⟩
  | none =>
    rcases hdraw : drawChallenge r.rand with ⟨rand, _ | ch⟩
    · exact .inr ⟨rand, rfl, rfl, rfl⟩
    · exact .inl ⟨_, _, rfl, .first hst hdraw⟩

theorem acceptProbe_handled (r : Reflector) (p : Probe) :
    ∃ r' reply, r.acceptProbe p = (r', reply) ∧ Handled r p r' reply := by
  unfold acceptProbe acceptLocked
  rcases r.contact_cases p.pathID with
    ⟨r₁, st, hcontact, hst⟩ | ⟨rand, hcontact, hnone, hdraw⟩
  · rw [hcontact]
    dsimp only
    split_ifs with hcurrent hchallenge
    · obtain ⟨hadopted, hsession⟩ := hcurrent
      -- a path that is contacted first has adopted nothing
      cases hst with
      | first => cases hadopted
      | known hst =>
        unfold AntiReplay.accept
        split_ifs with hguard
        · exact ⟨_, _, rfl, .stale hst hadopted hsession hguard.1 hguard.2⟩
        · refine ⟨_, _, rfl, .current hst hadopted hsession fun hseen => ?_⟩
          exact UInt64.not_le.mp fun hle => hguard ⟨hseen, hle⟩
    · have hsession : st.adopted = true → p.sessionID ≠ st.session :=
        fun h h' => hcurrent ⟨h, h'⟩
      unfold adopt
      rcases hdraw : drawChallenge r₁.rand with ⟨rand, _ | ch⟩
      · exact ⟨_, _, rfl, .undrawn hst hsession hchallenge hdraw⟩
      · exact ⟨_, _, rfl, .adopted hst hsession hchallenge hdraw⟩
    · have hsession : st.adopted = true → p.sessionID ≠ st.session :=
        fun h h' => hcurrent ⟨h, h'⟩
      exact ⟨_, _, rfl, .bootstrap hst hsession hchallenge⟩
  · rw [hcontact]
    exact ⟨_, _, rfl, .uncontacted hnone hdraw⟩

theorem Handled.payload {r r' : Reflector} {p : Probe} {a : AcceptedProbe}
    (h : Handled r p r' (.ok a)) : a.probe.payload = p.payload := by
  cases h <;> rfl

theorem Handled.lookup_ne {r r' : Reflector} {p : Probe}
    {reply : Except ProbeError AcceptedProbe} (h : Handled r p r' reply)
    {q : UInt8} (hne : q ≠ p.pathID) :
    r'.paths.lookup q = r.paths.lookup q := by
  cases h with
  | uncontacted => rfl
  | stale => rfl
  | current => exact Finmap.lookup_insert_of_ne _ hne
  | adopted hcontact =>
    rw [adoption_paths, Finmap.lookup_insert_of_ne _ hne]
    exact hcontact.lookup_ne hne
  | undrawn hcontact =>
    rw [Finmap.lookup_insert_of_ne _ hne]
    exact hcontact.lookup_ne hne
  | bootstrap hcontact => exact hcontact.lookup_ne hne

end Reflector

end Wanbond.Telemetry
