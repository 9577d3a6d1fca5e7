import Wanbond.Bond.Transport

/-!
# The verdicts on a lane's pulses

The verdict on a pulse is awaited; a pulse without a congestion signal is then
unconfirmed until it counts as won or lost.  No pulse is counted twice, and none
starts before the verdict on the last.
-/

namespace Wanbond.Bond

namespace Lane

variable {p q : Lane} {now : Time}

/-- The pulses won, lost and unconfirmed. -/
def judged (p : Lane) : ℕ :=
  p.decisions.pulseWins + p.decisions.pulseLosses + p.control.pending.toNat

/-- Those, and the one whose verdict is awaited. -/
def answered (p : Lane) : ℕ := p.judged + p.control.awaitingVerdict.toNat

/-- No pulse starts, and none is judged twice. -/
def Unpulsed (p q : Lane) : Prop :=
  q.decisions.pulses = p.decisions.pulses ∧ q.answered ≤ p.answered

/-- A pulse starts, and no verdict was awaited. -/
def Pulsed (p q : Lane) : Prop :=
  p.control.awaitingVerdict = false ∧
    q.decisions.pulses = p.decisions.pulses + 1 ∧ q.answered ≤ p.answered + 1

theorem judged_le_answered (p : Lane) : p.judged ≤ p.answered :=
  Nat.le_add_right _ _

theorem counted_le_answered (p : Lane) :
    p.decisions.pulseWins + p.decisions.pulseLosses ≤ p.answered :=
  (Nat.le_add_right _ _).trans p.judged_le_answered

theorem Unpulsed.trans {r : Lane} (h : p.Unpulsed q) (h' : q.Unpulsed r) :
    p.Unpulsed r :=
  ⟨h'.1.trans h.1, h'.2.trans h.2⟩

/-- Scheduling the next pulse drops the verdict that was awaited. -/
theorem Unpulsed.scheduled (hpulses : q.decisions.pulses = p.decisions.pulses)
    (hverdict : q.control.verdictAt = 0) (hjudged : q.judged ≤ p.answered) :
    p.Unpulsed q := by
  refine ⟨hpulses, ?_⟩
  simpa [answered, LaneControl.awaitingVerdict, hverdict] using hjudged

theorem stalledSignal_unpulsed : p.Unpulsed (p.stalledSignal now) :=
  iteInduction (fun _ => ⟨rfl, le_rfl⟩) fun _ => iteInduction
    (fun _ => .scheduled rfl rfl p.judged_le_answered) fun _ => ⟨rfl, le_rfl⟩

/-- A signal confirms or refutes the pulse that is unconfirmed. -/
theorem judgePending_unpulsed (lost : Bool) :
    p.Unpulsed (p.judgePending now lost) := by
  refine iteInduction (fun h => ⟨rfl, ?_⟩) fun _ =>
    iteInduction (fun h => ⟨rfl, ?_⟩) fun _ => ⟨rfl, le_rfl⟩ <;>
  · obtain ⟨hpending, -⟩ := Bool.and_eq_true_iff.mp h
    simp only [answered, judged, hpending, LaneControl.awaitingVerdict]
    simp
    omega

theorem congested_unpulsed (lost laneLimited : Bool) :
    p.Unpulsed (p.congested now lost laneLimited) := by
  have hdrain : p.Unpulsed ((p.judgePending now lost).endDrain now lost) :=
    iteInduction (fun _ => judgePending_unpulsed lost)
      fun _ => judgePending_unpulsed lost
  dsimp only [congested]
  generalize (p.judgePending now lost).endDrain now lost = q at hdrain ⊢
  refine hdrain.trans ?_
  have hjudged := q.judged_le_answered
  split
  · exact ⟨rfl, le_rfl⟩
  split
  · exact iteInduction (fun _ => .scheduled rfl rfl hjudged)
      fun _ => .scheduled rfl rfl hjudged
  split
  next hawaited =>
    refine .scheduled rfl rfl ?_
    show q.decisions.pulseWins + (q.decisions.pulseLosses + 1) +
      q.control.pending.toNat ≤ _
    rw [answered, hawaited, judged, Bool.toNat_true]
    omega
  split
  · exact ⟨rfl, le_rfl⟩
  split
  · exact ⟨rfl, le_rfl⟩
  split
  · exact .scheduled rfl rfl hjudged
  -- reading the sustained delivery may rotate it first
  split <;> split <;> cases lost <;>
    first
    | exact .scheduled rfl rfl hjudged
    | exact ⟨rfl, le_rfl⟩

theorem plateau_unpulsed (h : p.Unpulsed q) (delivered : ℚ) :
    p.Unpulsed (q.plateau now delivered).1 := by
  unfold plateau
  split
  · exact h
  dsimp only
  split
  · exact h
  split
  · exact h
  split
  · exact .scheduled h.1 rfl (q.counted_le_answered.trans h.2)
  · exact h

theorem discover_unpulsed (realtime stream laneLimited : Bool) :
    p.Unpulsed (p.discover now realtime stream laneLimited) := by
  dsimp only [discover]
  have hplateau : p.Unpulsed (plateau _ now _).1 :=
    plateau_unpulsed (q := { p with
      rate := min maximumRate (p.rate * (106 / 100) + 1500) }) ⟨rfl, le_rfl⟩
      (max p.deliveryRate p.deliverySample)
  generalize plateau _ now _ = r at hplateau ⊢
  have hbound : ∀ x : ℚ, p.Unpulsed
      (boundByDelivery { r.1 with rate := x } now stream).1 := by
    intro x
    unfold boundByDelivery
    split
    · exact hplateau
    dsimp only
    split <;> exact hplateau
  exact iteInduction (fun _ => hplateau) fun _ => iteInduction
    (fun _ => hbound _) fun _ => iteInduction (fun _ => hbound _) fun _ => hbound _

theorem holdOrPulse_pulsed (laneLimited : Bool) :
    p.Unpulsed (p.holdOrPulse now laneLimited) ∨
      p.Pulsed (p.holdOrPulse now laneLimited) := by
  have hjudged := p.judged_le_answered
  dsimp only [holdOrPulse]
  split
  · exact .inl ⟨rfl, le_rfl⟩
  split
  · exact .inl ⟨rfl, le_rfl⟩
  split
  next hwon =>
    refine .inl (.scheduled rfl rfl ?_)
    rw [answered, (Bool.and_eq_true_iff.mp hwon).1]
    exact Nat.add_le_add_right (Nat.le_add_right _ _) 1
  split
  · exact .inl (.scheduled rfl rfl hjudged)
  next hnone =>
  have hfree : p.control.awaitingVerdict = false := by simpa using hnone
  split
  next hsettled =>
    have hcounted : p.decisions.pulseWins + 1 + p.decisions.pulseLosses ≤
        p.answered := by
      rw [answered, judged, (Bool.and_eq_true_iff.mp hsettled).1,
        Bool.toNat_true]
      omega
    split
    · exact .inl (.scheduled rfl rfl hcounted)
    split
    · exact .inr ⟨hfree, rfl, Nat.add_le_add hcounted (Bool.toNat_le _)⟩
    · exact .inl (.scheduled rfl (not_not.mp (of_decide_eq_false hfree)) hcounted)
  split
  · exact .inr ⟨hfree, rfl, Nat.add_le_add hjudged (Bool.toNat_le _)⟩
  split <;> exact .inl ⟨rfl, le_rfl⟩

/-- The control step starts a pulse only where no verdict is awaited. -/
theorem adjust_pulsed (p : Lane) (now : Time)
    (lost delayed sampled laneLimited realtime stream : Bool) :
    let q := p.adjust now lost delayed sampled laneLimited realtime stream
    p.Unpulsed q ∨ p.Pulsed q := by
  dsimp only [adjust]
  split
  · exact .inl ⟨rfl, le_rfl⟩
  split
  · exact .inl stalledSignal_unpulsed
  split
  · refine .inl (Unpulsed.trans ?_ (congested_unpulsed _ _))
    exact ⟨rfl, le_rfl⟩
  split
  · split
    · refine .inl (Unpulsed.trans ?_ (discover_unpulsed _ _ _))
      exact ⟨rfl, le_rfl⟩
    split
    · exact .inl ⟨rfl, le_rfl⟩
    · exact holdOrPulse_pulsed _
  · exact .inl ⟨rfl, le_rfl⟩

theorem resetLane_unpulsed (p : Lane) : p.Unpulsed (Transport.resetLane p) :=
  iteInduction (fun _ => .scheduled rfl rfl p.counted_le_answered)
    fun _ => .scheduled rfl rfl p.counted_le_answered

/-! ## Runs of the controller -/

/-- The lane `q` with the pulses of `p`: whatever else has been measured. -/
def measured (p q : Lane) : Lane :=
  { q with
    decisions := p.decisions
    control := { q.control with
      verdictAt := p.control.verdictAt
      pending := p.control.pending } }

/-- A call of the controller; a control step finds new measurements. -/
inductive ControlCall where
  | adjust (found : Lane) (now : Time)
      (lost delayed sampled laneLimited realtime stream : Bool)
  | setRemote

def call (p : Lane) : ControlCall → Lane
  | .adjust found now lost delayed sampled laneLimited realtime stream =>
    (p.measured found).adjust now lost delayed sampled laneLimited realtime stream
  | .setRemote => Transport.resetLane p

theorem call_pulsed (p : Lane) (c : ControlCall) :
    p.Unpulsed (p.call c) ∨ p.Pulsed (p.call c) := by
  cases c with
  | adjust found => exact (p.measured found).adjust_pulsed ..
  | setRemote => exact .inl p.resetLane_unpulsed

theorem answered_call (h : p.answered ≤ p.decisions.pulses) (c : ControlCall) :
    (p.call c).answered ≤ (p.call c).decisions.pulses := by
  rcases p.call_pulsed c with ⟨hpulses, hle⟩ | ⟨-, hpulses, hle⟩
  · exact hle.trans (h.trans_eq hpulses.symm)
  · exact hle.trans (hpulses ▸ Nat.succ_le_succ h)

/-- Over any calls of a lane's controller, at most as many pulses are won, lost,
unconfirmed and awaiting their verdict as were started, and no call starts a
pulse while a verdict is awaited. -/
theorem pulses_judged_once (id remoteID : PathID) (rtt : Duration) (start : Time)
    (calls : List ControlCall) :
    let p := calls.foldl call (new id remoteID rtt start)
    p.decisions.pulseWins + p.decisions.pulseLosses + p.control.pending.toNat +
        p.control.awaitingVerdict.toNat ≤ p.decisions.pulses ∧
      ∀ c, p.control.awaitingVerdict = true →
        (p.call c).decisions.pulses = p.decisions.pulses := by
  refine ⟨?_, fun c hawaited => ?_⟩
  · exact List.foldlRecOn (motive := fun p : Lane =>
      p.answered ≤ p.decisions.pulses) calls _ le_rfl
      fun _ h c _ => answered_call h c
  rcases call_pulsed _ c with ⟨hpulses, -⟩ | ⟨hfree, -⟩
  · exact hpulses
  · cases hfree.symm.trans hawaited

end Lane

end Wanbond.Bond
