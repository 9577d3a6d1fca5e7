import Wanbond.Bond.AckStages
import Wanbond.Bond.BooksCalls
import Wanbond.Bond.Delivery
import Wanbond.Support.Runs

/-!
# The range of a lane's target

Every place that writes a lane's target bounds it from above or from below,
and most do both.  The places that do not take the target from an estimate of
the path: a lane that holds, or pulses above, its capacity estimate has no
floor, and discovery has no ceiling above the delivery it measured.  The target
stays in its range as long as the estimates that the control interval reads
leave room for it.
-/

namespace Wanbond.Bond

open Wanbond.Support

namespace Lane

/-- The target is one of the rates that the lane supports. -/
def InRange (p : Lane) : Prop := minimumRate ≤ p.rate ∧ p.rate ≤ maximumRate

/-- The estimates of the lane leave room for the target.  A lane that holds its
target below a known capacity can hold, and raise after a won pulse, a rate
within the range; what discovery measured is not above it. -/
@[mk_iff]
structure Fits (p : Lane) (now : Time) : Prop where
  capacity : p.control.capacity ≤ maximumRate
  demonstrated : (p.rotateSustained now).demonstrated now ≤ maximumRate
  discovered : p.discoveryGain * max p.deliveryRate p.deliverySample ≤
    maximumRate
  rediscovered : rediscoveryGain * max p.deliveryRate p.deliverySample ≤
    maximumRate
  held : p.startup = false → p.control.capacity ≠ 0 →
    minimumRate ≤ capacityHold * p.control.capacity
  won : p.startup = false → p.control.capacity ≠ 0 →
    capacityHold * (p.control.capacity *
      (1 + (pulseGain - 1) * 2 ^ p.control.pulseWins)) ≤ maximumRate

instance (p : Lane) (now : Time) : Decidable (p.Fits now) :=
  decidable_of_iff _ (p.fits_iff now).symm

/-! ## Writes -/

theorem minimumRate_le_maximumRate : minimumRate ≤ maximumRate := by
  unfold minimumRate maximumRate
  norm_num

theorem minimumRate_pos : 0 < minimumRate := by
  unfold minimumRate
  norm_num

theorem inRange_of_rate {p : Lane} (x : ℚ) (hrate : p.rate = x)
    (hlow : minimumRate ≤ x) (hhigh : x ≤ maximumRate) : p.InRange := by
  rw [InRange, hrate]
  exact ⟨hlow, hhigh⟩

variable {x : ℚ}

theorem inRange_of_floor {p : Lane} (hrate : p.rate = max minimumRate x)
    (hx : x ≤ maximumRate) : p.InRange :=
  inRange_of_rate _ hrate (le_max_left _ _)
    (max_le minimumRate_le_maximumRate hx)

section Cuts

variable {p : Lane}

theorem InRange.nonneg (h : p.InRange) : 0 ≤ p.rate :=
  minimumRate_pos.le.trans h.1

theorem InRange.part (h : p.InRange) (hx : x ≤ 1) : x * p.rate ≤ maximumRate :=
  (mul_le_of_le_one_left h.nonneg hx).trans h.2

theorem InRange.cut (h : p.InRange) (lost : Bool) : p.cut lost ≤ maximumRate := by
  have hloss : lossRateReduction * p.rate ≤ maximumRate :=
    h.part (by decide +kernel)
  have hdelay : p.rate * (9 / 10) ≤ maximumRate := by
    rw [mul_comm]
    exact h.part (by norm_num)
  unfold Lane.cut
  split
  · split
    · exact hloss
    · exact (min_le_left _ _).trans hloss
  · split
    · exact (min_le_left _ _).trans hdelay
    · exact hdelay

end Cuts

theorem part_le_maximumRate {x y : ℚ} (hx : 0 ≤ x) (hx' : x ≤ 1)
    (hy : y ≤ maximumRate) : x * y ≤ maximumRate := by
  rcases le_or_gt 0 y with hnonneg | hneg
  · exact (mul_le_of_le_one_left hnonneg hx').trans hy
  · exact (mul_nonpos_of_nonneg_of_nonpos hx hneg.le).trans
      (minimumRate_pos.le.trans minimumRate_le_maximumRate)

theorem le_rise (hx : 0 ≤ x) : x ≤ x * (106 / 100) + 1500 := by
  linarith

section Writes

variable {p : Lane} {now : Time}

theorem stalledSignal_inRange (h : p.InRange)
    (hcapacity : p.control.capacity ≤ maximumRate) :
    (p.stalledSignal now).InRange := by
  dsimp only [stalledSignal]
  split
  · exact h
  split
  · refine inRange_of_floor rfl ?_
    exact part_le_maximumRate (by decide +kernel) (by decide +kernel) hcapacity
  · refine inRange_of_floor rfl (max_le (InRange.cut h false) ?_)
    exact part_le_maximumRate (by decide +kernel) (by decide +kernel) hcapacity

theorem endDiscovery_inRange (h : p.InRange)
    (hcapacity : p.control.capacity ≤ maximumRate)
    (hshown : (p.rotateSustained now).demonstrated now ≤ maximumRate)
    (lost laneLimited : Bool) (queued : Duration) :
    (p.endDiscovery now lost laneLimited queued).InRange := by
  dsimp only [endDiscovery]
  have hestimate : ∀ c : Bool, (if c = true then
      max ((p.rotateSustained now).demonstrated now) p.control.capacity
      else (p.rotateSustained now).demonstrated now) ≤ maximumRate := by
    intro c
    split
    · exact max_le hshown hcapacity
    · exact hshown
  split
  · exact inRange_of_floor rfl
      (max_le (InRange.cut h lost) (hestimate (!laneLimited && !lost)))
  · refine inRange_of_floor rfl (max_le (InRange.cut h lost) ?_)
    exact part_le_maximumRate (by decide +kernel)
      (by decide +kernel) (hestimate (!laneLimited && !lost))

theorem remeasure_inRange (h : p.InRange) (lost : Bool) (queued : Duration) :
    (p.remeasure now lost queued).InRange := by
  cases lost with
  | false => exact inRange_of_floor rfl (InRange.cut h false)
  | true => exact inRange_of_floor rfl (InRange.cut h true)

theorem decay_inRange (h : p.InRange) (lost : Bool) (queued : Duration) :
    (p.decay now lost queued).InRange := by
  cases lost with
  | false => exact inRange_of_floor rfl (InRange.cut h false)
  | true => exact inRange_of_floor rfl (InRange.cut h true)

/-- Judging a pulse and ending a drain may lower the capacity, and leave the
target and what was measured. -/
theorem judged_facts (p : Lane) (now : Time) (lost : Bool) :
    let q := (p.judgePending now lost).endDrain now lost
    q.rate = p.rate ∧ q.control.capacity ≤ p.control.capacity ∧
      (q.rotateSustained now).demonstrated now =
        (p.rotateSustained now).demonstrated now := by
  have hjudge : (p.judgePending now lost).rate = p.rate ∧
      (p.judgePending now lost).control.capacity ≤ p.control.capacity ∧
      ((p.judgePending now lost).rotateSustained now).demonstrated now =
        (p.rotateSustained now).demonstrated now := by
    unfold judgePending
    split
    · exact ⟨rfl, min_le_left _ _, rfl⟩
    · split <;> exact ⟨rfl, le_rfl, rfl⟩
  intro q
  have hdrain : ∀ r : Lane, (r.endDrain now lost).rate = r.rate ∧
      (r.endDrain now lost).control.capacity = r.control.capacity ∧
      ((r.endDrain now lost).rotateSustained now).demonstrated now =
        (r.rotateSustained now).demonstrated now := by
    intro r
    dsimp only [endDrain]
    split <;> split <;> exact ⟨rfl, rfl, rfl⟩
  obtain ⟨hrate, hcapacity, hshown⟩ := hdrain (p.judgePending now lost)
  exact ⟨hrate.trans hjudge.1, hcapacity.le.trans hjudge.2.1,
    hshown.trans hjudge.2.2⟩

theorem congested_inRange (h : p.InRange)
    (hcapacity : p.control.capacity ≤ maximumRate)
    (hshown : (p.rotateSustained now).demonstrated now ≤ maximumRate)
    (lost laneLimited : Bool) :
    (p.congested now lost laneLimited).InRange := by
  obtain ⟨hqrate, hqcapacity, hqshown⟩ := p.judged_facts now lost
  dsimp only [congested]
  generalize (p.judgePending now lost).endDrain now lost = q
    at hqrate hqcapacity hqshown ⊢
  have hq : q.InRange := by
    rwa [InRange, hqrate]
  have hqmax := hqcapacity.trans hcapacity
  split
  · exact inRange_of_floor rfl (hq.part (by norm_num))
  split
  · exact endDiscovery_inRange hq hqmax (hqshown.trans_le hshown) _ _ _
  split
  · refine inRange_of_floor rfl ?_
    exact part_le_maximumRate (by decide +kernel) (by decide +kernel) hqmax
  split
  · refine inRange_of_floor rfl (max_le (InRange.cut hq lost) ?_)
    exact part_le_maximumRate (by decide +kernel) (by decide +kernel) hqmax
  split
  · exact hq
  split
  · exact hq
  -- reading the sustained delivery may rotate it first
  have hrotated : ∀ c : Bool,
      (if c = true then q.rotateSustained now else q).InRange := by
    intro c
    split <;> exact hq
  split
  · exact remeasure_inRange (hrotated _) lost _
  · exact decay_inRange (hrotated _) lost _

theorem pulse_inRange (h : minimumRate ≤ (1 + pulseExcess) * p.control.capacity) :
    (p.pulse now).InRange :=
  inRange_of_rate _ rfl (le_min minimumRate_le_maximumRate h) (min_le_left _ _)

theorem holdOrPulse_inRange (h : p.InRange)
    (hheld : minimumRate ≤ capacityHold * p.control.capacity)
    (hcapacity : p.control.capacity ≤ maximumRate)
    (hwon : capacityHold * (p.control.capacity *
      (1 + (pulseGain - 1) * 2 ^ p.control.pulseWins)) ≤ maximumRate)
    (laneLimited : Bool) : (p.holdOrPulse now laneLimited).InRange := by
  have hpositive : 0 ≤ p.control.capacity := by
    unfold minimumRate capacityHold at hheld
    linarith
  have hlimit : capacityHold * p.control.capacity ≤ maximumRate :=
    part_le_maximumRate (by decide +kernel) (by decide +kernel) hcapacity
  have hgrown : p.control.capacity ≤ p.control.capacity *
      (1 + (pulseGain - 1) * 2 ^ p.control.pulseWins) := by
    refine le_mul_of_one_le_right hpositive ?_
    have hgain : (0 : ℚ) ≤ (pulseGain - 1) * 2 ^ p.control.pulseWins := by
      unfold pulseGain
      positivity
    linarith
  have hpulse : minimumRate ≤ (1 + pulseExcess) * p.control.capacity := by
    refine hheld.trans (mul_le_mul_of_nonneg_right ?_ hpositive)
    unfold capacityHold pulseExcess
    norm_num
  dsimp only [holdOrPulse]
  split
  · exact h
  split
  · exact inRange_of_rate _ rfl hheld hlimit
  split
  · refine inRange_of_rate _ rfl (hheld.trans ?_) hwon
    exact mul_le_mul_of_nonneg_left hgrown (by decide +kernel)
  split
  · exact h
  split
  · split
    · exact h
    · split
      · exact pulse_inRange hpulse
      · exact h
  split
  · exact pulse_inRange hpulse
  split
  · exact inRange_of_rate _ rfl
      (le_min hheld (h.1.trans (le_rise h.nonneg)))
      ((min_le_left _ _).trans hlimit)
  · exact h

theorem boundByDelivery_inRange (h : p.InRange) (stream : Bool) :
    (p.boundByDelivery now stream).1.InRange := by
  unfold boundByDelivery
  split
  · exact h
  dsimp only
  split
  · exact h
  · exact inRange_of_rate _ rfl (le_min h.1 (le_max_left _ _))
      ((min_le_left _ _).trans h.2)

theorem plateau_inRange (h : p.InRange)
    (hshown : (p.rotateSustained now).demonstrated now ≤ maximumRate)
    (delivered : ℚ) : (p.plateau now delivered).1.InRange := by
  unfold plateau
  split
  · exact h
  dsimp only
  split
  · exact h
  split
  · exact h
  split
  · refine inRange_of_floor rfl ?_
    exact part_le_maximumRate (by decide +kernel)
      (by decide +kernel)
      ((min_le_right _ _).trans hshown)
  · exact h

theorem discover_inRange (h : p.InRange) (hfits : p.Fits now)
    (realtime stream laneLimited : Bool) :
    (p.discover now realtime stream laneLimited).InRange := by
  dsimp only [discover]
  set delivered := max p.deliveryRate p.deliverySample with hdelivered
  set gain := if realtime then min p.discoveryGain rediscoveryGain
    else p.discoveryGain with hgain
  have hmeasured : gain * delivered ≤ maximumRate := by
    rw [hgain]
    split
    · rcases min_choice p.discoveryGain rediscoveryGain with hmin | hmin
      · rw [hmin]
        exact hfits.discovered
      · rw [hmin]
        exact hfits.rediscovered
    · exact hfits.discovered
  set raised : Lane := { p with
    rate := min maximumRate (p.rate * (106 / 100) + 1500) } with hraised
  have hrise : raised.InRange := inRange_of_rate _ rfl
    (le_min minimumRate_le_maximumRate (h.1.trans (le_rise h.nonneg)))
    (min_le_left _ _)
  have hplateau : (raised.plateau now delivered).1.InRange :=
    plateau_inRange hrise hfits.demonstrated delivered
  generalize raised.plateau now delivered = r at hplateau ⊢
  split
  · exact hplateau
  have hmax : ({ r.1 with rate := max r.1.rate (gain * delivered) } :
      Lane).InRange := inRange_of_rate _ rfl
    (hplateau.1.trans (le_max_left _ _)) (max_le hplateau.2 hmeasured)
  have hbound : (boundByDelivery _ now stream).1.InRange :=
    boundByDelivery_inRange hmax stream
  split
  · exact hbound
  split
  · refine inRange_of_rate _ rfl (le_min hbound.1 ?_)
      ((min_le_left _ _).trans hbound.2)
    refine le_trans ?_ (le_max_left _ _)
    split
    · exact le_rfl
    · unfold minimumRate initialRate
      norm_num
  · exact hbound

/-- The step of a control interval without a congestion signal. -/
theorem sampled_inRange (h : p.InRange) (hfits : p.Fits now)
    (realtime stream laneLimited : Bool) :
    (if p.startup then p.discover now realtime stream laneLimited
      else if p.control.capacity = 0 then
        { p with rate := min maximumRate (p.rate * (106 / 100) + 1500) }
      else p.holdOrPulse now laneLimited).InRange := by
  refine iteInduction (fun _ => discover_inRange h hfits _ _ _) fun hstartup =>
    iteInduction (fun _ => ?_) fun hknown => ?_
  · exact inRange_of_rate _ rfl
      (le_min minimumRate_le_maximumRate (h.1.trans (le_rise h.nonneg)))
      (min_le_left _ _)
  · have hstarted : p.startup = false := by simpa using hstartup
    exact holdOrPulse_inRange h (hfits.held hstarted hknown) hfits.capacity
      (hfits.won hstarted hknown) _

/-- The control step keeps the target in its range. -/
theorem adjust_inRange (h : p.InRange) (hfits : p.Fits now)
    (lost delayed sampled laneLimited realtime stream : Bool) :
    (p.adjust now lost delayed sampled laneLimited realtime stream).InRange := by
  -- the counters of signals and the time of the last loss do not matter
  have hcongested : ∀ (d : Decisions) (x : Time) (lost : Bool),
      (({ p with decisions := d, droppedAt := x } : Lane).congested now lost
        laneLimited).InRange := fun d x lost =>
    congested_inRange (p := { p with decisions := d, droppedAt := x }) h
      hfits.capacity hfits.demonstrated lost laneLimited
  have hcleared : ∀ c : LaneControl, c.capacity = p.control.capacity →
      c.pulseWins = p.control.pulseWins →
      ({ p with control := c } : Lane).Fits now := fun c hcapacity hwins =>
    ⟨hcapacity.trans_le hfits.capacity, hfits.demonstrated, hfits.discovered,
      hfits.rediscovered, by rw [hcapacity]; exact hfits.held,
      by rw [hcapacity, hwins]; exact hfits.won⟩
  refine iteInduction (fun _ => h) fun _ => iteInduction (fun _ => ?_) fun _ =>
    iteInduction (fun _ => ?_) fun _ => iteInduction (fun _ => ?_) fun _ => h
  · exact stalledSignal_inRange h hfits.capacity
  · exact hcongested _ _ _
  · exact sampled_inRange (p := { p with control := { p.control with
      holdSignal := false, draining := false, flushUntil := 0 } }) h
      (hcleared _ rfl rfl) realtime stream laneLimited

end Writes

/-! ## Control intervals -/

section Intervals

variable {p : Lane} {now : Time}

/-- The target, and what the control step derives it from, are the same. -/
structure SameAim (p q : Lane) : Prop where
  rate : q.rate = p.rate
  control : q.control = p.control
  startup : q.startup = p.startup
  discoveryGain : q.discoveryGain = p.discoveryGain
  deliveryRate : q.deliveryRate = p.deliveryRate
  deliverySample : q.deliverySample = p.deliverySample
  previousDelivery : q.previousDelivery = p.previousDelivery
  sustained : q.sustained = p.sustained

theorem SameAim.trans {q r : Lane} (h : p.SameAim q) (h' : q.SameAim r) :
    p.SameAim r :=
  ⟨h'.rate.trans h.rate, h'.control.trans h.control,
    h'.startup.trans h.startup, h'.discoveryGain.trans h.discoveryGain,
    h'.deliveryRate.trans h.deliveryRate,
    h'.deliverySample.trans h.deliverySample,
    h'.previousDelivery.trans h.previousDelivery,
    h'.sustained.trans h.sustained⟩

theorem SameAim.inRange {q : Lane} (h : p.SameAim q) (hp : p.InRange) :
    q.InRange := by
  rwa [InRange, h.rate]

theorem SameAim.fits {q : Lane} (h : p.SameAim q) (hp : p.Fits now) :
    q.Fits now := by
  have hshown : (q.rotateSustained now).demonstrated now =
      (p.rotateSustained now).demonstrated now := by
    simp only [demonstrated, measuredDelivery, rotateSustained, h.deliveryRate,
      h.deliverySample, h.previousDelivery, h.sustained]
  constructor
  · rw [h.control]
    exact hp.capacity
  · rw [hshown]
    exact hp.demonstrated
  · rw [h.discoveryGain, h.deliveryRate, h.deliverySample]
    exact hp.discovered
  · rw [h.deliveryRate, h.deliverySample]
    exact hp.rediscovered
  · rw [h.startup, h.control]
    exact hp.held
  · rw [h.startup, h.control]
    exact hp.won

theorem sameAim_trackWander (p : Lane) (sample queueDelay : Duration) :
    p.SameAim (p.trackWander sample queueDelay) := by
  have hlight : p.SameAim p.lightlyLoaded.1 := by
    dsimp only [lightlyLoaded]
    split <;> exact ⟨rfl, rfl, rfl, rfl, rfl, rfl, rfl, rfl⟩
  have hwander : ∀ (q : Lane) (delay : Duration),
      q.SameAim (q.observeWander delay) := by
    intro q delay
    unfold observeWander
    split <;> exact ⟨rfl, rfl, rfl, rfl, rfl, rfl, rfl, rfl⟩
  unfold trackWander
  split
  · dsimp only
    split
    · exact hlight.trans (hwander _ _)
    · exact hlight
  · exact ⟨rfl, rfl, rfl, rfl, rfl, rfl, rfl, rfl⟩

theorem sameAim_settleLoss (p : Lane) (now : Time) :
    p.SameAim (p.settleLoss now).1 := by
  unfold settleLoss
  split <;> exact ⟨rfl, rfl, rfl, rfl, rfl, rfl, rfl, rfl⟩

theorem concludeFloor_inRange (h : p.InRange) (sample queueDelay : Duration) :
    (p.concludeFloor sample queueDelay).InRange := by
  refine iteInduction (fun _ => h) fun _ => iteInduction (fun _ => h) fun _ =>
    iteInduction (fun _ => h) fun _ => ?_
  exact inRange_of_floor rfl ((min_le_left _ _).trans h.2)

theorem concludeInterval_inRange (h : p.InRange) (hfits : p.Fits now)
    (sample : Duration) (delayed : Bool) (signals : Signals) :
    (p.concludeInterval now sample delayed signals).InRange := by
  set q : Lane := { p with
    haveInterval := false
    intervalSamples := 0
    intervalJitter := p.delayJitter }
  have hq : p.SameAim q := ⟨rfl, rfl, rfl, rfl, rfl, rfl, rfl, rfl⟩
  have hsettled := hq.trans (sameAim_settleLoss q now)
  refine iteInduction (fun _ => hsettled.inRange h) fun _ => ?_
  exact adjust_inRange (hsettled.inRange h) (hsettled.fits hfits) _ _ _ _ _ _

/-- The control interval keeps the target in its range. -/
theorem controlInterval_inRange (h : p.InRange) (hfits : p.Fits now)
    (sample : Duration) (signals : Signals) :
    (p.controlInterval now sample signals).InRange := by
  dsimp only [controlInterval]
  generalize (if p.haveInterval = true then p.intervalQueueDelay
    else p.queueDelay) = queueDelay
  set q : Lane := { p with lastAdjust := now, signalDelay := queueDelay }
  have hq : p.SameAim q := ⟨rfl, rfl, rfl, rfl, rfl, rfl, rfl, rfl⟩
  have htracked := hq.trans (sameAim_trackWander q sample queueDelay)
  refine iteInduction (fun _ => h) fun _ => iteInduction (fun _ => ?_) fun _ =>
    iteInduction (fun _ => htracked.inRange h) fun _ => ?_
  · exact concludeFloor_inRange (hq.inRange h) sample queueDelay
  · exact concludeInterval_inRange (htracked.inRange h) (htracked.fits hfits)
      sample _ signals

end Intervals

end Lane

/-! ## Acknowledgements -/

namespace Lane

theorem SameGauges.rate {p q : Lane} (h : p.SameGauges q) : q.rate = p.rate :=
  congrArg LaneTarget.rate h.target

theorem SameGauges.inRange {p q : Lane} (h : p.SameGauges q) (hp : p.InRange) :
    q.InRange := by
  rwa [InRange, h.rate]

theorem observeRate_rate (p : Lane) (now : Time) (a : Acknowledgement) :
    (p.observeRate now a).rate = p.rate := by
  have hraise : ∀ q : Lane, (q.raiseToDelivery now).rate = q.rate := by
    intro q
    unfold raiseToDelivery
    split
    · rfl
    · dsimp only
      split <;> rfl
  unfold observeRate
  split
  · rfl
  · split
    · exact hraise _
    · rfl

end Lane

namespace Transport

theorem observeLoss_rate (heap : PacketHeap) (p : Lane) (a : Acknowledgement)
    (now : Time) (fresh : Bool) (high : Option Attempt) :
    (observeLoss heap p a now fresh high).rate = p.rate := by
  have hrecord : (recordLoss heap p a now high).rate = p.rate := by
    unfold recordLoss
    split <;> rfl
  dsimp only [observeLoss]
  split <;> exact hrecord

theorem Heard.measured_inRange {x : Heard} (h : x.lane.InRange)
    (a : Acknowledgement) (now : Time) : (x.measured a now).InRange := by
  have hrate : (((x.judged a now true).observeRTT now
      x.scan.sample).observeRate now a).rate = x.lane.rate := by
    rw [Lane.observeRate_rate, (Lane.sameGauges_observeRTT _ _ _).rate,
      Heard.judged, observeLoss_rate]
  refine Lane.boundByDelivery_inRange ?_ _
  rwa [Lane.InRange, hrate]

/-- Every lane's target is in its range. -/
def AllInRange (t : Transport) : Prop :=
  ∀ id p, t.find id = some p → p.InRange

theorem LanesBy.allInRange {t t' : Transport}
    (h : LanesBy Lane.SameGauges t t') (ht : t.AllInRange) : t'.AllInRange := by
  intro id q hq
  obtain ⟨p, hp, hsame⟩ := h.find hq
  exact hsame.inRange (ht id p hp)

/-- Whenever the frame is a fresh acknowledgement that `Receive` processes, the
estimates that the control interval finds on its lane leave room for the
target. -/
def ControlFits (t : Transport) (path : PathID) (f : Control) (now : Time)
    (order : MapOrder) : Prop :=
  ∀ p a x, ProcessesFresh t path f now order p a x →
    (x.measured a now).Fits now

variable {t : Transport}

theorem allInRange_receive (h : t.AllInRange) (path : PathID) (f : Control)
    (now : Time) (order : MapOrder) (hfits : t.ControlFits path f now order) :
    (t.receive path f now order).1.AllInRange := by
  rcases t.gauges_receive path f now order with hsame | ⟨p, a, x, hfresh⟩
  · exact hsame.allInRange h
  rw [hfresh.result]
  intro id q hq
  have hlane := hfresh.lanes.2.2.inRange (h path p hfresh.find)
  rcases hfresh.find_concluded hq with ⟨-, rfl⟩ | ⟨q₀, hq₀, hsame⟩
  · exact Lane.controlInterval_inRange (Heard.measured_inRange hlane a now)
      (hfits p a x hfresh) _ _
  · exact hsame.inRange (h id q₀ hq₀)

theorem inRange_new (id remoteID : PathID) (rtt : Duration) (now lease : Time) :
    ({ Lane.new id remoteID rtt now with lease := lease } : Lane).InRange := by
  refine Lane.inRange_of_rate initialRate rfl ?_ ?_
  · unfold minimumRate initialRate
    norm_num
  · unfold maximumRate initialRate
    norm_num

theorem allInRange_path (h : t.AllInRange) (id remoteID : PathID)
    (rtt : Duration) (now : Time) :
    (t.path id remoteID rtt now).1.AllInRange := by
  intro j q hq
  rcases find_path hq with ⟨p, lease, hp, rfl⟩ | ⟨rtt', rfl⟩
  · exact h j p hp
  · exact inRange_new _ _ _ _ _

theorem resetLane_rate (p : Lane) : (resetLane p).rate = p.rate := by
  dsimp only [resetLane]
  split <;> rfl

theorem allInRange_setRemote (h : t.AllInRange) (epoch : Epoch) (adopted : Bool) :
    (t.setRemote epoch adopted).1.AllInRange := by
  by_cases haccept : t.acceptsRemote epoch adopted = true
  · intro id q hq
    obtain ⟨p, hp, rfl⟩ := find_setRemote haccept hq
    rw [Lane.InRange, resetLane_rate]
    exact h id p hp
  · unfold setRemote
    rwa [if_neg haccept]

theorem allInRange_apply (h : t.AllInRange) (hkept : t.books.Kept) {call : Call}
    (hcall : ∀ path f now order, call ≠ .receive path f now order) :
    (t.apply call).AllInRange := by
  cases call with
  | enqueue payload metadata now =>
    exact (gauges_of_paths (t.enqueue_frame payload metadata now).1).allInRange h
  | poll now order => exact (gauges_poll hkept now order).allInRange h
  | receive => exact absurd rfl (hcall _ _ _ _)
  | path id remoteID rtt now => exact allInRange_path h id remoteID rtt now
  | disable =>
    intro j q hq
    obtain ⟨p, lease, hp, rfl⟩ := find_disable hq
    exact h j p hp
  | setRemote epoch adopted => exact allInRange_setRemote h epoch adopted

end Transport

/-! ## Runs -/

/-- What an event does to the transport of a node. -/
theorem World.transport_step (w : World) (event : Event) (m : Epoch) :
    (w.step event m).transport = (w m).transport ∨
    (∃ call, (∀ path f now order, call ≠ .receive path f now order) ∧
      (w.step event m).transport = (w m).transport.apply call) ∨
    ∃ path sender peer position now order f,
      event = .deliver m path sender peer position now order ∧
      (sentFrames ((w sender).history peer).log)[position]? = some f ∧
      (w.step event m).transport =
        ((w m).transport.receive path f now order).1 := by
  have hnode : ∀ call : Call, ((w m).step call).transport = (w m).transport ∨
      ((w m).step call).transport = (w m).transport.apply call := by
    intro call
    cases call with
    | poll now order =>
      refine Or.inr ?_
      simp only [Node.step, Transport.apply]
      generalize (w m).transport.poll now order = r
      obtain ⟨t, _ | out⟩ := r <;> rfl
    | setRemote =>
      simp only [Node.step, Transport.apply]
      split
      · exact Or.inr rfl
      · exact Or.inl rfl
    | _ => exact Or.inr rfl
  have hupdate : ∀ node call, node ≠ m →
      (w.update node call m).transport = (w m).transport := by
    intro node call hne
    rw [World.update, Function.update_of_ne (Ne.symm hne)]
  cases event with
  | call node call =>
    by_cases hcall : ∃ path f now order, call = .receive path f now order
    · obtain ⟨path, f, now, order, rfl⟩ := hcall
      exact Or.inl rfl
    push Not at hcall
    have hstep : w.step (.call node call) = w.update node call := by
      cases call with
      | receive => exact absurd rfl (hcall _ _ _ _)
      | _ => rfl
    rw [hstep]
    by_cases hm : node = m
    · subst hm
      rw [World.update, Function.update_self]
      rcases hnode call with h | h
      · exact Or.inl h
      · exact Or.inr (Or.inl ⟨call, hcall, h⟩)
    · exact Or.inl (hupdate node call hm)
  | deliver node path sender peer position now order =>
    cases hf : (sentFrames ((w sender).history peer).log)[position]? with
    | none =>
      simp only [World.step, hf]
      exact Or.inl trivial
    | some f =>
      simp only [World.step, hf]
      by_cases hm : node = m
      · subst hm
        refine Or.inr (Or.inr ⟨path, sender, peer, position, now, order, f,
          rfl, hf, ?_⟩)
        rw [World.update, Function.update_self]
        rfl
      · exact Or.inl (hupdate node _ hm)

variable {w : World}

theorem World.sound_step (h : ∀ m, (w m).transport.books.Sound) (event : Event)
    (m : Epoch) : (w.step event m).transport.books.Sound := by
  rcases w.transport_step event m with heq | ⟨call, -, heq⟩ |
    ⟨path, sender, peer, position, now, order, f, -, -, heq⟩
  · rw [heq]
    exact h m
  · rw [heq]
    exact Transport.sound_apply (h m) call
  · rw [heq]
    exact Transport.sound_apply (h m) (.receive path f now order)

/-- A fresh acknowledgement meets estimates that leave room for the target. -/
def Event.ControlFits (w : World) : Event → Prop
  | .call _ _ => True
  | .deliver node path sender peer position now order =>
    ∀ f, (sentFrames ((w sender).history peer).log)[position]? = some f →
      (w node).transport.ControlFits path f now order

theorem World.allInRange_step (hsound : ∀ m, (w m).transport.books.Sound)
    (h : ∀ m, (w m).transport.AllInRange) {event : Event}
    (hfits : event.ControlFits w) (m : Epoch) :
    (w.step event m).transport.AllInRange := by
  rcases w.transport_step event m with heq | ⟨call, hcall, heq⟩ |
    ⟨path, sender, peer, position, now, order, f, rfl, hf, heq⟩
  · rw [heq]
    exact h m
  · rw [heq]
    exact Transport.allInRange_apply (h m) (hsound m).kept hcall
  · rw [heq]
    exact Transport.allInRange_receive (h m) path f now order (hfits f hf)

/-- In a run in which every fresh acknowledgement meets estimates that leave
room for the target, every lane's target is between the minimum and the maximum
rate in every state. -/
theorem targets_in_range (events : List Event)
    (hfits : Along World.step (fun w event => event.ControlFits w) World.init
      events) (k : ℕ) (m : Epoch) :
    ∀ p ∈ (World.run (events.take k) m).transport.paths,
      minimumRate ≤ p.rate ∧ p.rate ≤ maximumRate := by
  have hinit : ∀ m, (World.init m).transport.books.Sound ∧
      (World.init m).transport.AllInRange :=
    fun m => ⟨Transport.sound_new m, fun id p hp => by cases hp⟩
  have hrun := @foldl_take_induction _ _ World.step World.init events 0 k
    (fun w => ∀ m, (w m).transport.books.Sound ∧ (w m).transport.AllInRange)
    (Nat.zero_le k) hinit fun j event _ _ hevent hw m =>
      ⟨World.sound_step (fun m => (hw m).1) event m,
        World.allInRange_step (fun m => (hw m).1) (fun m => (hw m).2)
          (hfits.getElem? hevent) m⟩
  intro p hp
  obtain ⟨⟨stamped, hkept⟩, -⟩ := (hrun m).1
  exact (hrun m).2 p.id p (@Keyed.lookup_of_mem _ _ _ (fun q : Lane => q.id) _ _
    hkept.ids hp)

/-- The estimates that a frame meets, computed. -/
def Transport.fitsControl (t : Transport) (path : PathID) (f : Control)
    (now : Time) (order : MapOrder) : Bool :=
  match f.body, t.find path with
  | .ack _ (some a), some p =>
    (({ t with lastTime := now } : Transport).hear (noteRevision p f.seq) a now
      true order).all fun x => decide ((x.measured a now).Fits now)
  | _, _ => true

theorem Transport.controlFits_of_fitsControl {t : Transport} {path : PathID}
    {f : Control} {now : Time} {order : MapOrder}
    (h : t.fitsControl path f now order = true) :
    t.ControlFits path f now order := by
  intro p a x hfresh
  obtain ⟨header, hbody⟩ := hfresh.body
  simp only [fitsControl, hbody, hfresh.find, hfresh.heard, Option.all_some]
    at h
  exact of_decide_eq_true h

theorem Event.controlFits_of_fitsControl {node : Epoch} {path : PathID}
    {sender peer : Epoch} {position : ℕ} {now : Time} {order : MapOrder}
    (h : ((sentFrames ((w sender).history peer).log)[position]?.all fun f =>
      (w node).transport.fitsControl path f now order) = true) :
    (Event.deliver node path sender peer position now order).ControlFits w := by
  intro f hf
  rw [hf] at h
  exact Transport.controlFits_of_fitsControl h

theorem targets_in_range_oneDatagram :
    Along World.step (fun w event => event.ControlFits w) World.init
        oneDatagram ∧
      ∀ p ∈ (World.run (oneDatagram.take 9) ⟨1, 1⟩).transport.paths,
        minimumRate ≤ p.rate ∧ p.rate ≤ maximumRate := by
  have hfits : Along World.step (fun w event => event.ControlFits w) World.init
      oneDatagram := by
    refine ⟨trivial, trivial, trivial, trivial, trivial, trivial, ?_, trivial,
      ?_, trivial⟩
    · exact Event.controlFits_of_fitsControl (by decide +kernel)
    · exact Event.controlFits_of_fitsControl (by decide +kernel)
  exact ⟨hfits, targets_in_range oneDatagram hfits 9 ⟨1, 1⟩⟩

/-! ## A slow lane -/

/-- A lane carries a datagram every ninety milliseconds.  The second one is
late, which ends discovery with the little that has been delivered as the
lane's capacity.  A second later the third one is dropped for its age and the
lane sends a keepalive, whose acknowledgement finds a fourth one waiting and
starts a pulse. -/
def slowLane : List Event :=
  let a : Epoch := ⟨1, 1⟩
  let b : Epoch := ⟨2, 1⟩
  let metadata : PacketMetadata :=
    ⟨FlowID.zero, ⟨false, 0, 0, 0, 0, false, 0, 0⟩⟩
  let moment (n : ℤ) : Time := second + n * millisecond
  [.call a (.setRemote b true), .call b (.setRemote a true),
   .call a (.path 1 1 0 (moment 0)), .call b (.path 1 1 0 (moment 0)),
   .call a (.enqueue [7] metadata (moment 0)), .call a (.poll (moment 0) .plain),
   .deliver b 1 a b 0 (moment 0) .plain, .call b (.poll (moment 25) .plain),
   .deliver a 1 b a 0 (moment 26) .plain,
   .call a (.enqueue [8] metadata (moment 30)), .call a (.poll (moment 30) .plain),
   .call a (.enqueue [9] metadata (moment 31)),
   .deliver b 1 a b 0 (moment 90) .plain, .call b (.poll (moment 115) .plain),
   .deliver a 1 b a 0 (moment 116) .plain,
   .call a (.path 1 1 0 (moment 1225)), .call b (.path 1 1 0 (moment 1225)),
   .call a (.poll (moment 1225) .plain), .deliver b 1 a b 0 (moment 1225) .plain,
   .call a (.enqueue [9] metadata (moment 1226)),
   .call b (.poll (moment 1250) .plain),
   .deliver a 1 b a 1 (moment 1251) .plain]

/-- The pulse takes the target from above the minimum rate to below it. -/
theorem pulse_lowers_target :
    (∃ p ∈ (World.run slowLane.dropLast ⟨1, 1⟩).transport.paths,
      p.decisions.pulses = 0 ∧ minimumRate ≤ p.rate) ∧
    ∃ p ∈ (World.run slowLane ⟨1, 1⟩).transport.paths,
      p.decisions.pulses = 1 ∧ p.rate < minimumRate := by
  have hbefore : ((World.run slowLane.dropLast ⟨1, 1⟩).transport.paths.any fun p =>
      decide (p.decisions.pulses = 0 ∧ minimumRate ≤ p.rate)) = true := by
    decide +kernel
  have hafter : ((World.run slowLane ⟨1, 1⟩).transport.paths.any fun p =>
      decide (p.decisions.pulses = 1 ∧ p.rate < minimumRate)) = true := by
    decide +kernel
  obtain ⟨p, hp, hcheck⟩ := List.any_eq_true.mp hbefore
  obtain ⟨q, hq, hcheck'⟩ := List.any_eq_true.mp hafter
  exact ⟨⟨p, hp, of_decide_eq_true hcheck⟩, ⟨q, hq, of_decide_eq_true hcheck'⟩⟩

end Wanbond.Bond
