import Wanbond.Bond.Wire
import Wanbond.Support.Bisect

/-!
# Per-path MTU discovery

The discovery machine of one path searches for the largest padded probe that is
echoed, holds the result, and searches again when the path comes back up, roams,
or has not been measured for a while.  `Tick` releases its lock while the search
runs, so it is modelled by two halves: `decideLocked` before the search, and
`conclude` after it.
-/

namespace Wanbond.Telemetry

open Wanbond.Bond (Time Duration)
open Wanbond.Support

/-- The liveness verdict for one path. -/
inductive PathState
  | down
  | up
  deriving DecidableEq, Repr

def pmtuFloor : ℤ := 1280

def defaultPMTUConfirmations : ℤ := 3

def pmtuRejections : ℕ := 3

def pmtuAttemptsPerConfirmation : ℕ := 5

structure PMTUConfig where
  configuredMTU : ℤ
  defaultMTU : ℤ
  refreshInterval : Duration
  junkHeadroom : ℤ
  confirmations : ℤ := 0
  safetyMargin : ℤ := 0

inductive PMTUPhase
  | unstarted
  | searching
  | converged
  deriving DecidableEq, Repr

structure PMTUDiscovery where
  floor : ℤ
  ceiling : ℤ
  pinned : Bool
  refresh : Duration
  junkHeadroom : ℤ
  confirmations : ℕ
  safetyMargin : ℤ
  state : PMTUPhase
  discovered : ℤ
  prevUp : Bool
  haveState : Bool
  reprobePending : Bool
  lastConverged : Time

def newPMTUDiscovery (cfg : PMTUConfig) : PMTUDiscovery :=
  let pinned := decide (cfg.configuredMTU ≠ 0)
  let wanted := if pinned then cfg.configuredMTU else cfg.defaultMTU
  let ceiling := if wanted < pmtuFloor then pmtuFloor else wanted
  { floor := pmtuFloor
    ceiling
    pinned
    refresh := cfg.refreshInterval
    junkHeadroom := cfg.junkHeadroom
    confirmations :=
      (if cfg.confirmations ≤ 0 then defaultPMTUConfirmations
        else cfg.confirmations).toNat
    safetyMargin := cfg.safetyMargin
    state := .unstarted
    discovered := if pinned then ceiling else pmtuFloor
    prevUp := false
    haveState := false
    reprobePending := false
    lastConverged := 0 }

namespace PMTUDiscovery

/-! ## What the machine reports -/

def reportedLocked (d : PMTUDiscovery) : ℤ :=
  if d.pinned ∨ d.safetyMargin ≤ 0 then d.discovered
  else if d.discovered - d.safetyMargin < pmtuFloor then pmtuFloor
  else d.discovered - d.safetyMargin

def pathMTUOrZero (d : PMTUDiscovery) : ℤ :=
  if d.pinned ∨ d.state = .converged then d.reportedLocked else 0

/-! ## The search -/

section Search

variable {ε : Type*}

/-- The loop of `confirmCandidate`, with `attempts` turns left.  `probe n size`
is the outcome of the `n`-th probe of the search; an unanswered candidate is
held against its size only if the control sent right after it is answered. -/
def confirmLoop (probe : ℕ → ℤ → Except ε Bool) (confirmations : ℕ)
    (mid control : ℤ) : ℕ → ℕ → ℕ → ℕ → Except ε (Bool × ℕ)
  | 0, _, _, n => .ok (false, n)
  | attempts + 1, consecutive, rejections, n =>
    match probe n mid with
    | .error e => .error e
    | .ok true =>
      if confirmations ≤ consecutive + 1 then .ok (true, n + 1)
      else
        confirmLoop probe confirmations mid control attempts
          (consecutive + 1) rejections (n + 1)
    | .ok false =>
      match probe (n + 1) control with
      | .error e => .error e
      | .ok false =>
        confirmLoop probe confirmations mid control attempts 0 rejections
          (n + 2)
      | .ok true =>
        if pmtuRejections ≤ rejections + 1 then .ok (false, n + 2)
        else
          confirmLoop probe confirmations mid control attempts 0
            (rejections + 1) (n + 2)

def confirmCandidate (d : PMTUDiscovery) (probe : ℕ → ℤ → Except ε Bool)
    (mid control : ℤ) (n : ℕ) : Except ε (Bool × ℕ) :=
  confirmLoop probe d.confirmations mid control
    (pmtuAttemptsPerConfirmation * d.confirmations) 0 0 n

/-- The interval is at most `ceiling - floor` wide, so that many candidates
settle it. -/
def search (d : PMTUDiscovery) (probe : ℕ → ℤ → Except ε Bool) : Except ε ℤ :=
  bisect (d.confirmCandidate probe) (d.ceiling - d.floor).toNat d.floor d.ceiling
    0

theorem search_mem {d : PMTUDiscovery} {probe : ℕ → ℤ → Except ε Bool} {r : ℤ}
    (hle : d.floor ≤ d.ceiling) (h : d.search probe = .ok r) :
    d.floor ≤ r ∧ r ≤ d.ceiling :=
  bisect_mem hle h

/-- The outcomes of probes on a link that carries exactly the sizes up to
`m`. -/
def carrying (m : ℤ) : ℕ → ℤ → Except ε Bool := fun _ size =>
  .ok (decide (size ≤ m))

/-- The probes up to the `k`-th, which aborts the search and tells its size. -/
def stopAt (probe : ℕ → ℤ → Except ε Bool) (k : ℕ) :
    ℕ → ℤ → Except (ε ⊕ ℤ) Bool := fun n size =>
  if n < k then
    match probe n size with
    | .error e => .error (.inl e)
    | .ok echoed => .ok echoed
  else .error (.inr size)

variable {probe : ℕ → ℤ → Except ε Bool} {confirmations : ℕ} {mid control : ℤ}
  {attempts consecutive rejections n n' k : ℕ} {b : Bool} {size size' : ℤ}

/-! What one turn of the loop does, by the answers to its probes. -/

theorem confirmLoop_echoed (hmid : probe n mid = .ok true) :
    confirmLoop probe confirmations mid control (attempts + 1) consecutive
        rejections n =
      if confirmations ≤ consecutive + 1 then .ok (true, n + 1)
      else confirmLoop probe confirmations mid control attempts
        (consecutive + 1) rejections (n + 1) := by
  rw [confirmLoop, hmid]

theorem confirmLoop_lost (hmid : probe n mid = .ok false)
    (hcontrol : probe (n + 1) control = .ok false) :
    confirmLoop probe confirmations mid control (attempts + 1) consecutive
        rejections n =
      confirmLoop probe confirmations mid control attempts 0 rejections
        (n + 2) := by
  rw [confirmLoop, hmid]
  dsimp only
  rw [hcontrol]

theorem confirmLoop_refused (hmid : probe n mid = .ok false)
    (hcontrol : probe (n + 1) control = .ok true) :
    confirmLoop probe confirmations mid control (attempts + 1) consecutive
        rejections n =
      if pmtuRejections ≤ rejections + 1 then .ok (false, n + 2)
      else confirmLoop probe confirmations mid control attempts 0
        (rejections + 1) (n + 2) := by
  rw [confirmLoop, hmid]
  dsimp only
  rw [hcontrol]

theorem confirmLoop_stopAt :
    confirmLoop (stopAt probe n) confirmations mid control (attempts + 1)
      consecutive rejections n = .error (.inr mid) := by
  rw [confirmLoop, stopAt, if_neg (lt_irrefl n)]

theorem stopAt_stops (h : stopAt probe k n size = .error (.inr size')) :
    size' = size ∧ k ≤ n := by
  unfold stopAt at h
  split_ifs at h with hn
  · split at h
    · cases h
    · cases h
  · cases h
    exact ⟨rfl, not_lt.mp hn⟩

theorem stopAt_before (hn : n < k) (h : probe n size = .ok b) :
    stopAt probe k n size = .ok b := by
  rw [stopAt, if_pos hn, h]

theorem confirmLoop_count
    (h : confirmLoop probe confirmations mid control attempts consecutive
      rejections n = .ok (b, n')) : n ≤ n' ∧ n' ≤ n + 2 * attempts := by
  fun_induction confirmLoop probe confirmations mid control attempts consecutive
    rejections n with
  | case1 | case3 | case7 =>
    cases h
    omega
  | case2 | case5 => cases h
  -- one more probe was sent, or two
  | case4 _ _ _ _ _ _ ih | case6 _ _ _ _ _ _ ih | case8 _ _ _ _ _ _ _ ih =>
    have hlater := ih h
    omega

theorem confirmCandidate_count {d : PMTUDiscovery}
    (h : d.confirmCandidate probe mid control n = .ok (b, n')) :
    n ≤ n' ∧ n' ≤ n + 10 * d.confirmations := by
  have := confirmLoop_count h
  simp only [pmtuAttemptsPerConfirmation] at this
  omega

theorem confirmLoop_stopped
    (h : confirmLoop (stopAt probe k) confirmations mid control attempts
      consecutive rejections n = .error (.inr size)) :
    (size = mid ∨ size = control) ∧ k < n + 2 * attempts := by
  fun_induction confirmLoop (stopAt probe k) confirmations mid control attempts
    consecutive rejections n with
  | case1 | case3 | case7 => cases h
  | case2 _ _ _ _ _ hmid =>
    cases h
    obtain ⟨rfl, hk⟩ := stopAt_stops hmid
    exact ⟨.inl rfl, by omega⟩
  | case5 _ _ _ _ _ _ hcontrol =>
    cases h
    obtain ⟨rfl, hk⟩ := stopAt_stops hcontrol
    exact ⟨.inr rfl, by omega⟩
  | case4 _ _ _ _ _ _ ih | case6 _ _ _ _ _ _ ih | case8 _ _ _ _ _ _ _ ih =>
    obtain ⟨hsize, hk⟩ := ih h
    exact ⟨hsize, by omega⟩

theorem confirmLoop_before
    (h : confirmLoop probe confirmations mid control attempts consecutive
      rejections n = .ok (b, n')) (hk : n' ≤ k) :
    confirmLoop (stopAt probe k) confirmations mid control attempts consecutive
      rejections n = .ok (b, n') := by
  fun_induction confirmLoop probe confirmations mid control attempts consecutive
    rejections n with
  | case1 => exact congrArg _ (Except.ok.inj h)
  | case2 | case5 => cases h
  | case3 _ _ _ _ hmid henough =>
    cases h
    rw [confirmLoop_echoed (stopAt_before (by omega) hmid), if_pos henough]
  | case4 _ _ _ _ hmid hfew ih =>
    have hlater := confirmLoop_count h
    rw [confirmLoop_echoed (stopAt_before (by omega) hmid), if_neg hfew, ih h]
  | case6 _ _ _ _ hmid hcontrol ih =>
    have hlater := confirmLoop_count h
    rw [confirmLoop_lost (stopAt_before (by omega) hmid)
      (stopAt_before (by omega) hcontrol), ih h]
  | case7 _ _ _ _ hmid hcontrol hmany =>
    cases h
    rw [confirmLoop_refused (stopAt_before (by omega) hmid)
      (stopAt_before (by omega) hcontrol), if_pos hmany]
  | case8 _ _ _ _ hmid hcontrol hfew ih =>
    have hlater := confirmLoop_count h
    rw [confirmLoop_refused (stopAt_before (by omega) hmid)
      (stopAt_before (by omega) hcontrol), if_neg hfew, ih h]

theorem confirmLoop_accepted (hfew : consecutive < confirmations)
    (h : confirmLoop probe confirmations mid control attempts consecutive
      rejections n = .ok (true, n')) :
    n + confirmations ≤ n' + consecutive ∧
      ∀ k, n ≤ k → n' ≤ k + confirmations → k < n' →
        probe k mid = .ok true ∧ confirmLoop (stopAt probe k) confirmations mid
          control attempts consecutive rejections n = .error (.inr mid) := by
  fun_induction confirmLoop probe confirmations mid control attempts consecutive
    rejections n with
  | case1 | case2 | case5 | case7 => cases h
  | case3 _ consecutive _ n hmid henough =>
    cases h
    refine ⟨by omega, fun k hn hlast hk => ?_⟩
    obtain rfl : k = n := by omega
    exact ⟨hmid, confirmLoop_stopAt⟩
  | case4 _ consecutive _ n hmid hmore ih =>
    obtain ⟨hcount, hechoes⟩ := ih (by omega) h
    refine ⟨by omega, fun k hn hlast hk => ?_⟩
    rcases hn.eq_or_lt with rfl | hn
    · exact ⟨hmid, confirmLoop_stopAt⟩
    · rw [confirmLoop_echoed (stopAt_before hn hmid), if_neg hmore]
      exact hechoes k hn hlast hk
  -- the count starts anew after these two probes, so the last ones come later
  | case6 _ _ _ n hmid hcontrol ih =>
    obtain ⟨hcount, hechoes⟩ := ih (by omega) h
    refine ⟨by omega, fun k hn hlast hk => ?_⟩
    rw [confirmLoop_lost (stopAt_before (by omega) hmid)
      (stopAt_before (by omega) hcontrol)]
    exact hechoes k (by omega) hlast hk
  | case8 _ _ _ n hmid hcontrol hmore ih =>
    obtain ⟨hcount, hechoes⟩ := ih (by omega) h
    refine ⟨by omega, fun k hn hlast hk => ?_⟩
    rw [confirmLoop_refused (stopAt_before (by omega) hmid)
      (stopAt_before (by omega) hcontrol), if_neg hmore]
    exact hechoes k (by omega) hlast hk

theorem confirmLoop_threshold {m : ℤ}
    (hprobe : ∀ n size, probe n size = .ok (decide (size ≤ m)))
    (hfew : consecutive < confirmations)
    (henough : confirmations ≤ consecutive + attempts ∨ m < mid) :
    (confirmLoop probe confirmations mid control attempts consecutive rejections
      n).map Prod.fst = .ok (decide (mid ≤ m)) := by
  have hverdict : ∀ {n size b}, probe n size = .ok b → decide (size ≤ m) = b :=
    fun {n size b} h => Except.ok.inj ((hprobe n size).symm.trans h)
  fun_induction confirmLoop probe confirmations mid control attempts consecutive
    rejections n with
  | case1 =>
    have hlarge : ¬mid ≤ m := by omega
    exact congrArg Except.ok (decide_eq_false hlarge).symm
  | case2 _ _ _ _ _ herror | case5 _ _ _ _ _ _ herror =>
    rw [hprobe] at herror
    cases herror
  | case3 _ _ _ _ hmid => exact congrArg Except.ok (hverdict hmid).symm
  | case4 _ _ _ _ hmid hmore ih =>
    exact ih (by omega) (henough.imp_left (by omega))
  | case6 _ _ _ _ hmid hcontrol ih | case8 _ _ _ _ hmid hcontrol hmore ih =>
    have hlarge := of_decide_eq_false (hverdict hmid)
    exact ih (by omega) (.inr (by omega))
  | case7 _ _ _ _ hmid => exact congrArg Except.ok (hverdict hmid).symm

/-- The `k`-th probe that the search sends has this size. -/
def Sends (d : PMTUDiscovery) (probe : ℕ → ℤ → Except ε Bool) (k : ℕ)
    (size : ℤ) : Prop :=
  d.search (stopAt probe k) = .error (.inr size)

/-- Whatever the probes answer, the search ends of itself, sends sizes between
the floor and the ceiling, at most ten for each confirmation and each bit of the
range, and settles on the floor or on a size that it has seen echoed as often in
succession as it takes.  On a link that carries exactly the sizes up to `m` it
finds `m`, or the ceiling where that is smaller. -/
theorem search_settles (d : PMTUDiscovery) (hle : d.floor ≤ d.ceiling)
    (hconfirm : 0 < d.confirmations) (probe : ℕ → ℤ → Except ε Bool) :
    (∀ fuel : ℕ, d.ceiling - d.floor ≤ fuel →
      bisect (d.confirmCandidate probe) fuel d.floor d.ceiling 0 =
        d.search probe) ∧
    (∀ k size, d.Sends probe k size →
      d.floor ≤ size ∧ size ≤ d.ceiling ∧ k < 10 * d.confirmations *
        Nat.clog 2 (d.ceiling - d.floor + 1).toNat) ∧
    (∀ r, d.search probe = .ok r → d.floor ≤ r ∧ r ≤ d.ceiling ∧
      (r = d.floor ∨ ∃ m, ∀ i < d.confirmations,
        d.Sends probe (m + i) r ∧ probe (m + i) r = .ok true)) ∧
    ∀ m, d.floor ≤ m → (∀ n size, probe n size = .ok (decide (size ≤ m))) →
      d.search probe = .ok (min m d.ceiling) := by
  refine ⟨fun fuel hfuel => ?_, fun k size h => ?_, fun r h => ?_,
    fun m hm hprobe => ?_⟩
  · exact bisect_fuel (by omega) (by omega)
  · obtain ⟨mid, control, n, hlo, hlt, hhi, hstop, hspent⟩ := bisect_error
      id (fun _ _ _ _ _ h => (confirmCandidate_count h).2) h
    obtain ⟨hsize, hk⟩ := confirmLoop_stopped hstop
    simp only [pmtuAttemptsPerConfirmation, id_eq] at hk hspent
    rcases hsize with rfl | rfl
    · omega
    · omega
  · obtain ⟨hlo, hhi⟩ := search_mem hle h
    refine ⟨hlo, hhi, ?_⟩
    refine (bisect_accepted id
      (fun _ _ _ _ _ h => (confirmCandidate_count h).1) h).imp_right ?_
    rintro ⟨control, n, n', -, htest, hagree⟩
    obtain ⟨hlast, hechoes⟩ := confirmLoop_accepted hconfirm htest
    refine ⟨n' - d.confirmations, fun i hi => ?_⟩
    obtain ⟨hecho, hstop⟩ := hechoes (n' - d.confirmations + i) (by omega)
      (by omega) (by omega)
    refine ⟨hagree _ _ ?_ hstop, hecho⟩
    intro mid control s b s' hs hearly
    simp only [id_eq] at hlast hearly
    exact confirmLoop_before hs (by omega)
  · refine bisect_threshold (fun mid control n => ?_) hm hle (by omega)
    refine confirmLoop_threshold hprobe hconfirm (Or.inl ?_)
    simp only [pmtuAttemptsPerConfirmation]
    omega

/-- A link that carries 1400 bytes, below the default ceiling. -/
theorem search_settles_carrying :
    (newPMTUDiscovery ⟨0, 1500, 0, 0, 0, 0⟩).search
      (carrying 1400 : ℕ → ℤ → Except Empty Bool) = .ok 1400 :=
  (search_settles (newPMTUDiscovery ⟨0, 1500, 0, 0, 0, 0⟩) (by decide)
    (by decide) (carrying 1400)).2.2.2 1400 (by decide) fun _ _ => rfl

end Search

/-! ## The two halves of a tick -/

def notifyRoam (d : PMTUDiscovery) : PMTUDiscovery :=
  { d with reprobePending := true }

/-- What `decideLocked` records before it looks at the triggers. -/
def observe (d : PMTUDiscovery) (state : PathState) : PMTUDiscovery :=
  { d with
    reprobePending :=
      d.reprobePending || (d.haveState && !d.prevUp && decide (state = .up))
    prevUp := decide (state = .up)
    haveState := true }

/-- The periodic refresh is due. -/
def refreshDue (d : PMTUDiscovery) (now : Time) : Bool :=
  decide (d.state = .converged ∧ 0 < d.refresh ∧
    d.refresh ≤ now - d.lastConverged)

def refreshed (d : PMTUDiscovery) (now : Time) : PMTUDiscovery :=
  { d with reprobePending := d.reprobePending || d.refreshDue now }

/-- The first half of `Tick`: the new bookkeeping, and whether a search starts.
A search that starts leaves the machine in `searching`. -/
def decideLocked (d : PMTUDiscovery) (state : PathState) (now : Time) :
    PMTUDiscovery × Bool :=
  if d.pinned then (d.observe state, false)
  else
    let d' := (d.observe state).refreshed now
    if state ≠ .up then (d', false)
    else if d'.state ≠ .converged ∨ d'.reprobePending then
      ({ d' with reprobePending := false, state := .searching }, true)
    else (d', false)

/-- The second half of `Tick`: a search that failed leaves the machine as it
is. -/
def conclude {ε : Type*} (d : PMTUDiscovery) (result : Except ε ℤ)
    (now : Time) : PMTUDiscovery :=
  match result with
  | .error _ => d
  | .ok pmtu =>
    { d with discovered := pmtu, state := .converged, lastConverged := now }

end PMTUDiscovery
end Wanbond.Telemetry
