import Wanbond.Bond.Lane

/-!
# The target rate of a lane

`control.go`: discovery of a lane's capacity, the target held below it, and the
pulses that test for more.  All of it acts on the estimators of a lane; the
lemmas at the end say what is left alone.
-/

namespace Wanbond.Bond

def capacityHold : ℚ := 95 / 100

def wanderLoad : ℚ := 5 / 10

def capacityDrain : ℚ := 85 / 100

def capacityDecay : ℚ := 97 / 100

def capacityDrop : ℚ := 75 / 100

def rediscoveryGain : ℚ := 15 / 10

def pulseExcess : ℚ := 1 / 10

def pulseGain : ℚ := 105 / 100

def pulseQueueFactor : ℚ := 15 / 10

def pulseWinsToLeave : ℕ := 3

def pulseConfirmDatagrams : ℕ := 30

def pulseInterval : Duration := second

def maxPulseInterval : Duration := 16 * second

def policingMemory : Duration := 60 * second

def floorTestInterval : Duration := 2 * second

def maxFloorTestInterval : Duration := 16 * second

def pulseStagger : Duration := 100 * millisecond

def minPulse : Duration := 150 * millisecond

def maxPulse : Duration := 500 * millisecond

def verdictExpiry : Duration := second

def maxFlush : Duration := 500 * millisecond

def flushQueues : ℤ := 2

def drainQueues : ℚ := 2

def baselineDrain : Duration := 200 * millisecond

def lossPacingHeadroom : ℚ := 105 / 100

def lossRateReduction : ℚ := 9 / 10

def queueSendExcessRatio : ℚ := 12 / 10

def startupPlateauGrowth : ℚ := 125 / 100

def startupPlateauRounds : ℕ := 3

def startupPlateauSending : ℚ := 75 / 100

def LaneControl.awaitingVerdict (c : LaneControl) : Bool :=
  decide (c.verdictAt ≠ 0)

/-- The interval of a path that answered a probe with loss. -/
def LaneControl.backOff (c : LaneControl) : Duration :=
  min maxPulseInterval (2 * max pulseInterval c.pulseEvery)

def Stall.explains (s : Stall) (delay threshold : Duration) : Bool :=
  decide (s.through ≠ 0) && decide (delay ≤ s.length + threshold)

namespace Lane

def schedulePulse (p : Lane) (now : Time) : Lane :=
  { p with control := { p.control with
      verdictAt := 0
      pulseEnd := 0
      nextPulse := now + (max pulseInterval p.control.pulseEvery +
        stagger p.id 7 * pulseStagger) } }

def measuredDelivery (p : Lane) : ℚ :=
  max p.deliveryRate ((p.deliverySample + p.previousDelivery) / 2)

/-- Reading the sustained delivery rotates its peak. -/
def rotateSustained (p : Lane) (now : Time) : Lane :=
  { p with sustained := p.sustained.rotate now }

/-- `demonstrated`, of a lane whose sustained delivery has been rotated. -/
def demonstrated (p : Lane) (now : Time) : ℚ :=
  max p.measuredDelivery (p.sustained.value now)

/-- `polices`: the path answered with material loss lately. -/
def polices (p : Lane) (now : Time) : Bool :=
  decide (p.droppedAt ≠ 0) && decide (now - p.droppedAt < policingMemory)

def raiseToDelivery (p : Lane) (now : Time) : Lane :=
  if p.startup || decide (p.control.capacity = 0) ||
      decide (p.previousDelivery = 0) || p.polices now then p
  else
    let delivered := (p.deliverySample + p.previousDelivery) / 2
    if delivered > (1 + pulseExcess / 2) * p.control.capacity then
      { p with control := { p.control with capacity := delivered } }
    else p

/-- `lightlyLoaded`.  Before a capacity is known the recent delivery is read,
which rotates it. -/
def lightlyLoaded (p : Lane) : Lane × Bool :=
  let unknown := p.startup || decide (p.control.capacity = 0)
  let reference := if unknown then
    min p.rate (max initialRate (p.recentDelivery.value p.lastACK))
    else p.control.capacity
  let p := if unknown then
    { p with recentDelivery := p.recentDelivery.rotate p.lastACK } else p
  (p, decide (p.sendRate < wanderLoad * reference) &&
    decide (p.deliveryRate > 0) &&
    decide (p.sendRate ≤ queueSendExcessRatio * p.deliveryRate))

def observeWander (p : Lane) (delay : Duration) : Lane :=
  if !p.wanderKnown then
    { p with wander := delay, wanderVariation := delay.tdiv 2, wanderKnown := true }
  else
    { p with
      wanderVariation := (3 * p.wanderVariation + |delay - p.wander|).tdiv 4
      wander := (7 * p.wander + delay).tdiv 8 }

def stallEnded (p : Lane) (silence : Duration) : Lane :=
  { p with stall := ⟨silence, p.seq⟩ }

/-- `saturating`: the lane sends about its target. -/
def saturating (p : Lane) : Bool := decide (p.sendRate ≥ capacityDrain * p.rate)

def cut (p : Lane) (lost : Bool) : ℚ :=
  if lost then
    if !p.saturating then lossRateReduction * p.rate
    else min (lossRateReduction * p.rate) (capacityHold * p.deliveryRate)
  else
    let rate := p.rate * (9 / 10)
    if p.deliveryRate > 0 ∧ p.sendRate > queueSendExcessRatio * p.deliveryRate then
      min rate (lossPacingHeadroom * p.deliveryRate)
    else rate

def stalledSignal (p : Lane) (now : Time) : Lane :=
  let p := { p with decisions := { p.decisions with
    stallSignals := p.decisions.stallSignals + 1 } }
  if p.startup || decide (p.control.capacity = 0) then p
  else if p.control.awaitingVerdict then
    let p := p.schedulePulse now
    { p with rate := max minimumRate (capacityDrain * p.control.capacity) }
  else
    { p with
      rate := max minimumRate
        (max (p.cut false) (capacityDrop * p.control.capacity)) }

/-- `drainTime`: how long a queue may take to leave the path. -/
def drainTime (p : Lane) (queued : Duration) : Duration :=
  truncate (drainQueues * queued / (1 - capacityDrain)) + 2 * p.rtt

/-- `floorTestPause`: how long bulk must pause for a queue to drain, when a
short pause does that. -/
def floorTestPause (p : Lane) (queued : Duration) : Option Duration :=
  let bulk := p.allowed .bulk
  if bulk ≤ 0 then none
  else
    let needed := drainQueues * queued * p.rate / bulk
    if needed > (baselineDrain : ℚ) then none else some (truncate needed)

def floorTestable (p : Lane) (now : Time) (queued : Duration) : Bool :=
  (p.floorTestPause queued).isSome && decide (p.rate ≤ p.control.capacity) &&
    decide (¬now < p.control.drainBy) &&
    decide (now - p.floorTested ≥ max floorTestInterval p.floorTestEvery)

def testFloor (p : Lane) (now : Time) (queued : Duration) : Lane :=
  let p := { p with
    drainUntil := now + (p.floorTestPause queued).getD 0
    baselinePending := true
    floorTesting := true
    floorTested := now
    control := { p.control with holdSignal := false } }
  p.schedulePulse now

def queueFound (p : Lane) : Lane :=
  let capacity := p.control.capacity * capacityDecay
  { p with
    control := { p.control with capacity := capacity }
    rate := max minimumRate (min p.rate (capacityHold * capacity))
    floorTestEvery := min maxFloorTestInterval
      (2 * max floorTestInterval p.floorTestEvery) }

def floorMoved (p : Lane) (sample : Duration) : Lane :=
  { p.rebaseline sample with
    transitBases := clearTransitBases
    floorTestEvery := floorTestInterval }

/-- `pulseSettled`: loss the last pulse may have caused would have shown. -/
def pulseSettled (p : Lane) (now : Time) : Bool :=
  decide (now - p.control.wonAt ≥ lossSettle + p.rtt) &&
    (decide (p.seq - p.control.wonSeq ≥ pulseConfirmDatagrams) ||
      !p.polices now)

/-- The verdict on an unconfirmed pulse, at a congestion signal. -/
def judgePending (p : Lane) (now : Time) (lost : Bool) : Lane :=
  if p.control.pending && lost then
    { p with
      decisions := { p.decisions with
        pulseLosses := p.decisions.pulseLosses + 1 }
      control := { p.control with
        capacity := min p.control.capacity p.control.wonFrom
        pending := false
        pulseWins := 0
        pulseEvery := p.control.backOff } }
  else if p.control.pending && p.pulseSettled now then
    { p with
      decisions := { p.decisions with pulseWins := p.decisions.pulseWins + 1 }
      control := { p.control with pending := false, pulseEvery := 0 } }
  else p

/-- A probe's queue that has had the time to leave no longer explains delay. -/
def endDrain (p : Lane) (now : Time) (lost : Bool) : Lane :=
  let probed := if lost then p.control.drainBy + lossSettle else p.control.drainBy
  if p.control.draining && decide (¬now < probed) then
    { p with control := { p.control with draining := false, holdSignal := true } }
  else p

/-- Discovery ends with a congestion signal. -/
def endDiscovery (p : Lane) (now : Time) (lost laneLimited : Bool)
    (queued : Duration) : Lane :=
  let p := { p with
    decisions := { p.decisions with
      discoveryCongested := p.decisions.discoveryCongested + 1 }
    startup := false }
  let p := p.rotateSustained now
  let shown := p.demonstrated now
  let shown := if !laneLimited && !lost then max shown p.control.capacity
    else shown
  let p := { p with control := { p.control with
    capacity := shown
    holdSignal := false
    pulseWins := 0
    draining := true
    drainBy := now + p.drainTime queued
    flushUntil := now + min maxFlush (flushQueues * queued) } }
  let p := p.schedulePulse now
  if !laneLimited then
    { p with
      rate := max minimumRate (max (p.cut lost) p.control.capacity)
      control := { p.control with nextPulse := now } }
  else
    { p with
      rate := max minimumRate
        (max (p.cut lost) (capacityDrain * p.control.capacity)) }

/-- A pulse found the limit. -/
def losePulse (p : Lane) (now : Time) (lost : Bool) (queued : Duration) : Lane :=
  let p := { p with
    decisions := { p.decisions with pulseLosses := p.decisions.pulseLosses + 1 }
    control := { p.control with
      pulseWins := 0
      draining := true
      pulseEvery := if lost then p.control.backOff
        else p.control.pulseEvery
      drainBy := now + p.drainTime queued }
    rate := max minimumRate (capacityDrain * p.control.capacity) }
  p.schedulePulse now

/-- Repeated cuts took the target well below the estimate. -/
def remeasure (p : Lane) (now : Time) (lost : Bool) (queued : Duration) : Lane :=
  let p := if lost then p else p.rotateSustained now
  let p := { p with
    decisions := { p.decisions with
      capacityRemeasured := p.decisions.capacityRemeasured + 1 }
    control := { p.control with
      capacity := if lost then p.measuredDelivery else p.demonstrated now
      pulseWins := 0 } }
  let p := { p with
    rate := max minimumRate (p.cut lost)
    control := { p.control with drainBy := now + p.drainTime queued } }
  let p := p.schedulePulse now
  { p with control := { p.control with nextPulse := now } }

/-- The estimate gives way to a repeated signal. -/
def decay (p : Lane) (now : Time) (lost : Bool) (queued : Duration) : Lane :=
  let p := if lost then p else p.rotateSustained now
  let decayed := capacityDecay * p.control.capacity
  let decayed := if lost then decayed
    else max decayed (min p.control.capacity (p.sustained.value now))
  let decayed := if lost && p.saturating then min decayed p.deliveryRate
    else decayed
  let p := { p with
    decisions := { p.decisions with
      capacityDecays := p.decisions.capacityDecays + 1 }
    control := { p.control with capacity := decayed } }
  { p with
    rate := max minimumRate (p.cut lost)
    control := { p.control with drainBy := now + p.drainTime queued } }

/-- `congested`: what a congestion signal does to the target. -/
def congested (p : Lane) (now : Time) (lost laneLimited : Bool) : Lane :=
  let queued := p.queueDelay
  let p := p.judgePending now lost
  let p := p.endDrain now lost
  if p.startup && decide (p.control.capacity = 0) && !laneLimited && !lost then
    { p with rate := max minimumRate (9 / 10 * p.rate) }
  else if p.startup || decide (p.control.capacity = 0) then
    p.endDiscovery now lost laneLimited queued
  else if p.control.awaitingVerdict then
    p.losePulse now lost queued
  else if p.control.draining then
    { p with
      rate := max minimumRate
        (max (p.cut lost) (capacityDrop * p.control.capacity)) }
  else if !p.control.holdSignal && !lost then
    { p with control := { p.control with holdSignal := true } }
  else if !lost && p.floorTestable now p.signalDelay then
    p.testFloor now p.signalDelay
  else
    let low := decide (p.rate < capacityDrop * p.control.capacity)
    let fell := low && (lost || decide
      (p.sustained.value now < capacityDecay * p.control.capacity))
    let p := if low && !lost then p.rotateSustained now else p
    if fell then p.remeasure now lost queued else p.decay now lost queued

/-- `pulse` raises the target above the estimate for a while. -/
def pulse (p : Lane) (now : Time) : Lane :=
  let length := min maxPulse (max minPulse
    (truncate (pulseQueueFactor / pulseExcess * p.congestionThreshold)))
  { p with
    decisions := { p.decisions with pulses := p.decisions.pulses + 1 }
    control := { p.control with
      pulseEnd := now + length
      verdictAt := now + length + (p.rtt + p.peerACKInterval) }
    rate := min maximumRate ((1 + pulseExcess) * p.control.capacity) }

/-- A return to discovery, or its first start after a peer's restart. -/
def rediscover (p : Lane) : Lane :=
  { p with
    startup := true
    startupBest := 0
    startupFlatRounds := 0
    discoveryGain := rediscoveryGain }

def holdOrPulse (p : Lane) (now : Time) (laneLimited : Bool) : Lane :=
  let c := p.control
  let limit := capacityHold * c.capacity
  let tested := decide (p.rate ≥ limit) && laneLimited &&
    decide (p.sendRate ≥ startupPlateauSending * limit)
  if c.awaitingVerdict && decide (now < c.pulseEnd) then p
  else if c.awaitingVerdict && decide (now < c.verdictAt) then
    { p with rate := limit }
  else if c.awaitingVerdict && decide (now - c.verdictAt < verdictExpiry) then
    let p := { p with control := { c with
      pending := true
      wonAt := now
      wonSeq := p.seq
      wonFrom := c.capacity
      capacity := c.capacity * (1 + (pulseGain - 1) * 2 ^ c.pulseWins) } }
    let p := p.schedulePulse now
    { p with
      control := { p.control with nextPulse := now + (lossSettle + p.rtt) }
      rate := capacityHold * p.control.capacity }
  else if c.awaitingVerdict then p.schedulePulse now
  else if c.pending && p.pulseSettled now then
    let p := { p with
      decisions := { p.decisions with pulseWins := p.decisions.pulseWins + 1 }
      control := { c with
        pending := false
        pulseEvery := 0
        pulseWins := c.pulseWins + 1 } }
    if p.control.pulseWins ≥ pulseWinsToLeave then
      let p := { p with
        decisions := { p.decisions with
          rediscoveries := p.decisions.rediscoveries + 1 }
        control := { p.control with pulseWins := 0 } }
      (p.schedulePulse now).rediscover
    else if tested then p.pulse now
    else p
  else if decide (¬now < c.nextPulse) && tested then p.pulse now
  else if p.rate < limit then
    { p with rate := min limit (p.rate * (106 / 100) + 1500) }
  else p

/-- `boundByDelivery`: the lane, and whether the bound applied. -/
def boundByDelivery (p : Lane) (now : Time) (stream : Bool) : Lane × Bool :=
  if !p.startup || !stream || decide (p.reserved.realtime = 0) then (p, false)
  else
    let delivered := p.recentDelivery.value now
    let p := { p with recentDelivery := p.recentDelivery.rotate now }
    if delivered = 0 then (p, false)
    else
      ({ p with
          rate := min p.rate (max minimumRate (rediscoveryGain * delivered)) },
        true)

/-- The plateau rule of `discover`: the lane, and whether it ended discovery. -/
def plateau (p : Lane) (now : Time) (delivered : ℚ) : Lane × Bool :=
  if !p.roundDone then (p, false)
  else
    let p := { p with roundDone := false }
    if delivered ≥ startupPlateauGrowth * p.startupBest then
      ({ p with startupBest := delivered, startupFlatRounds := 0 }, false)
    else if p.sendRate < startupPlateauSending * p.rate then
      ({ p with startupFlatRounds := 0 }, false)
    else
      let p := { p with startupFlatRounds := p.startupFlatRounds + 1 }
      if p.startupFlatRounds ≥ startupPlateauRounds then
        let p := p.rotateSustained now
        let p := { p with
          decisions := { p.decisions with
            discoveryPlateau := p.decisions.discoveryPlateau + 1 }
          startup := false
          control := LaneControl.ofCapacity
            (min p.startupBest (p.demonstrated now)) }
        let p := p.schedulePulse now
        ({ p with rate := max minimumRate (capacityHold * p.control.capacity) },
          true)
      else (p, false)

def discover (p : Lane) (now : Time) (realtime stream laneLimited : Bool) :
    Lane :=
  let gain := if realtime then min p.discoveryGain rediscoveryGain
    else p.discoveryGain
  let p := { p with rate := min maximumRate (p.rate * (106 / 100) + 1500) }
  let delivered := max p.deliveryRate p.deliverySample
  let (p, ended) := p.plateau now delivered
  if ended then p
  else
    let p := { p with rate := max p.rate (gain * delivered) }
    let (p, bounded) := p.boundByDelivery now stream
    if bounded then p
    else
      let carried := max delivered p.sendRate
      if carried > 0 then
        let floor := if laneLimited then minimumRate else initialRate
        { p with rate := min p.rate (max floor (gain * carried)) }
      else p

/-- `adjust` runs once per control interval of a lane with demand. -/
def adjust (p : Lane) (now : Time)
    (lost delayed sampled laneLimited realtime stream : Bool) : Lane :=
  if p.startup && lost && !p.roundLossy then p
  else
    let lost := lost && p.roundLossy && decide (p.deliveryRate > 0)
    if delayed && !lost &&
        p.stall.explains p.signalDelay p.congestionThreshold then
      p.stalledSignal now
    else if lost || delayed then
      let p := { p with
        decisions := { p.decisions with
          delaySignals := p.decisions.delaySignals + delayed.toNat
          lossSignals := p.decisions.lossSignals + lost.toNat }
        droppedAt := if lost then now else p.droppedAt }
      p.congested now lost laneLimited
    else if sampled then
      let p := { p with control := { p.control with
        holdSignal := false, draining := false, flushUntil := 0 } }
      if p.startup then p.discover now realtime stream laneLimited
      else if p.control.capacity = 0 then
        { p with rate := min maximumRate (p.rate * (106 / 100) + 1500) }
      else p.holdOrPulse now laneLimited
    else p

/-! ## What the control leaves alone -/

/-- The core of a lane, the floors of its transit times, and the counters that
feedback is measured from. -/
structure Standing where
  core : LaneCore
  bases : List TransitBaseline
  feedbackAt : Time
  rateBytes : ℕ
  rateElapsed : ℕ
  rateSentBytes : ℕ
  marks : List DeliveryMark
  entries : List LossEntry

def standing (p : Lane) : Standing :=
  ⟨p.toLaneCore, p.transitBases, p.feedbackAt, p.rateBytes, p.rateElapsed,
    p.rateSentBytes, p.sustained.marks, p.losses.entries⟩

section LeaveAlone

variable (p : Lane) (now : Time)

variable {c : Prop}

theorem map_ite {α β : Type*} [Decidable c] {f : α → β} {a b : α} {w : β}
    (ha : f a = w) (hb : f b = w) : f (if c then a else b) = w := by
  split
  · exact ha
  · exact hb

@[simp] theorem raiseToDelivery_standing :
    (p.raiseToDelivery now).standing = p.standing :=
  map_ite rfl (map_ite rfl rfl)

@[simp] theorem lightlyLoaded_standing :
    p.lightlyLoaded.1.standing = p.standing := by
  exact map_ite rfl rfl

@[simp] theorem observeWander_standing (delay : Duration) :
    (p.observeWander delay).standing = p.standing :=
  map_ite rfl rfl

@[simp] theorem stallEnded_toLaneCore (silence : Duration) :
    (p.stallEnded silence).toLaneCore = p.toLaneCore := rfl

@[simp] theorem stalledSignal_standing :
    (p.stalledSignal now).standing = p.standing := by
  exact map_ite rfl (map_ite rfl rfl)

variable (lost : Bool)

@[simp] theorem judgePending_standing :
    (p.judgePending now lost).standing = p.standing :=
  map_ite rfl (map_ite rfl rfl)

@[simp] theorem endDrain_standing :
    (p.endDrain now lost).standing = p.standing := by
  exact map_ite rfl rfl

variable (laneLimited : Bool)

theorem endDiscovery_standing (queued : Duration) :
    (p.endDiscovery now lost laneLimited queued).standing = p.standing := by
  exact map_ite rfl rfl

theorem remeasure_standing (queued : Duration) :
    (p.remeasure now lost queued).standing = p.standing := by
  cases lost <;> rfl

theorem decay_standing (queued : Duration) :
    (p.decay now lost queued).standing = p.standing := by
  cases lost <;> rfl

@[simp] theorem congested_standing :
    (p.congested now lost laneLimited).standing = p.standing := by
  have hjudged : ((p.judgePending now lost).endDrain now lost).standing =
      p.standing := by simp
  dsimp only [congested]
  generalize (p.judgePending now lost).endDrain now lost = q at hjudged ⊢
  rw [← hjudged]
  have hrotated : (if (decide (q.rate < capacityDrop * q.control.capacity) &&
      !lost) = true then q.rotateSustained now else q).standing = q.standing :=
    map_ite rfl rfl
  refine map_ite rfl (map_ite (endDiscovery_standing ..)
    (map_ite rfl (map_ite rfl (map_ite rfl (map_ite rfl
      (map_ite ?_ ?_))))))
  · exact (remeasure_standing ..).trans hrotated
  · exact (decay_standing ..).trans hrotated

@[simp] theorem holdOrPulse_standing :
    (p.holdOrPulse now laneLimited).standing = p.standing := by
  repeat' apply map_ite
  all_goals rfl

@[simp] theorem boundByDelivery_standing (stream : Bool) :
    (p.boundByDelivery now stream).1.standing = p.standing := by
  repeat' apply map_ite (f := fun x : Lane × Bool => x.1.standing)
  all_goals rfl

@[simp] theorem plateau_standing (delivered : ℚ) :
    (p.plateau now delivered).1.standing = p.standing := by
  repeat' apply map_ite (f := fun x : Lane × Bool => x.1.standing)
  all_goals rfl

@[simp] theorem standing_rate (rate : ℚ) :
    ({ p with rate := rate } : Lane).standing = p.standing := rfl

@[simp] theorem discover_standing (realtime stream laneLimited : Bool) :
    (p.discover now realtime stream laneLimited).standing = p.standing := by
  dsimp only [discover]
  repeat' apply map_ite
  all_goals simp

@[simp] theorem adjust_standing
    (delayed sampled laneLimited realtime stream : Bool) :
    (p.adjust now lost delayed sampled laneLimited realtime stream).standing =
      p.standing := by
  refine map_ite rfl (map_ite ?_ (map_ite ?_
    (map_ite (map_ite ?_ (map_ite rfl ?_)) rfl)))
  · exact stalledSignal_standing p now
  · exact congested_standing _ now _ _
  · exact discover_standing _ now _ _ _
  · exact holdOrPulse_standing _ now _

end LeaveAlone

end Lane

end Wanbond.Bond
