import Wanbond.Bond.Poll

/-!
# Processing an acknowledgement

`ack` and `confirmArrived`.  The function is cut where the source changes from
one loop to the next: pending packets named by the global receipt bitmap, the
attempts of the acknowledged lane, the complete prefix, the attempts of every
lane, and last the estimators of the acknowledged lane.
-/

namespace Wanbond.Bond

open Wanbond.Support

def stallSilence : Duration := 2 * maxACKInterval

def deliveryInterval : Duration := 50 * millisecond

def maxWander : Duration := 3 * targetQueue

/-! ## Estimators of the acknowledged lane -/

namespace Lane

/-- The transit time of a keepalive on an idle lane. -/
def observeIdleForward (p : Lane) (transit : Duration) : Lane :=
  if !p.idleForwardKnown then
    { p with idleForwardMean := transit, idleForwardKnown := true }
  else
    let difference := transit - p.idleForwardMean
    { p with
      idleForwardMean := p.idleForwardMean + difference.tdiv 8
      idleForwardVariation := (3 * p.idleForwardVariation + |difference|).tdiv 4 }

/-- The first datagram sent after a pause answers for the floor. -/
def endBaseline (p : Lane) (sample : Duration) : Lane :=
  let p := if p.floorTesting then
    { p with floorTesting := false, floorSampling := true }
    else { p.rebaseline sample with transitBases := clearTransitBases }
  { p with haveInterval := false, intervalSamples := 0, baselinePending := false }

/-- The queue delay of a transit time above the floor of its size. -/
def observeTransit (p : Lane) (now : Time) (transit : Duration) (bytes : ℕ) :
    Lane :=
  let bucket := bytes / transitSizeBucket
  let baseline := p.transitBases.getD bucket ⟨0, false, 0⟩
  let baseline : TransitBaseline :=
    if !baseline.known || decide (transit < baseline.delay) then
      ⟨transit, true, now⟩ else baseline
  let queueDelay := transit - baseline.delay
  let difference := |queueDelay - p.queueDelay|
  let p := { p with
    transitBucket := bucket
    transitBases := p.transitBases.set bucket baseline
    queueDelay := queueDelay
    delayJitter := if p.delayDifferences > 0 then
      p.delayJitter + (difference - p.delayJitter).tdiv 8 else p.delayJitter
    delayDifferences := min (jitterWarmup + 1) (p.delayDifferences + 1)
    intervalSamples := p.intervalSamples + 1 }
  if !p.haveInterval || decide (p.queueDelay < p.intervalQueueDelay) then
    { p with intervalQueueDelay := p.queueDelay, haveInterval := true }
  else p

/-- What the acknowledged datagram itself tells about the path. -/
def observeHigh (p : Lane) (now : Time) (a : Acknowledgement) (sent : Attempt)
    (sample : Duration) : Lane :=
  let transit := a.elapsed - (sent.sent - p.firstSent)
  let p := if sent.packet.isNone ∧ now - p.lastPayload ≥ feedbackHorizon then
    p.observeIdleForward transit else p
  let p := if p.baselinePending ∧ ¬sent.sent < p.drainUntil then
    p.endBaseline sample else p
  p.observeTransit now transit sent.bytes

/-- The unloaded round trip, sampled on a lane without recent payload. -/
def observeIdleRTT (p : Lane) (now : Time) (sample : Duration) : Lane :=
  if now - p.lastPayload ≥ feedbackHorizon then
    if p.idleRTT = 0 then { p with idleRTT := sample }
    else { p with
      idleRTTVariation :=
        (3 * p.idleRTTVariation + |sample - p.idleRTT|).tdiv 4
      idleRTT := (7 * p.idleRTT + sample).tdiv 8 }
  else p

/-- Round trips of a fresh acknowledgement. -/
def observeRTT (p : Lane) (now : Time) (sample : Duration) : Lane :=
  if sample > 0 then
    let p := { p with
      rttVariation := (3 * p.rttVariation + |sample - p.rtt|).tdiv 4 }
    let p := p.observeIdleRTT now sample
    let p := { p with rtt := (7 * p.rtt + sample).tdiv 8 }
    if p.lastACK = 0 ∨ sample < p.baseRTT ∨ now - p.baseAt > 30 * second then
      { p with baseRTT := sample, baseAt := now }
    else p
  else p

/-- Restart the delivery interval at this acknowledgement. -/
def markRate (p : Lane) (now : Time) (a : Acknowledgement) : Lane :=
  { p with
    rateBytes := a.bytes
    rateElapsed := a.elapsed
    feedbackAt := now
    rateSentBytes := p.sent }

/-- Delivery and send rates of a fresh acknowledgement. -/
def observeRate (p : Lane) (now : Time) (a : Acknowledgement) : Lane :=
  if p.feedbackAt = 0 then p.markRate now a
  else if ((a.elapsed - p.rateElapsed : ℕ) : ℤ) ≥ deliveryInterval ∧
      now - p.feedbackAt ≥ deliveryInterval then
    let rate := ((a.bytes - p.rateBytes : ℕ) : ℚ) /
      seconds ((a.elapsed - p.rateElapsed : ℕ) : ℤ)
    let sendRate := ((p.sent - p.rateSentBytes : ℕ) : ℚ) /
      seconds (now - p.feedbackAt)
    let p := { p with
      previousDelivery := p.deliverySample
      deliverySample := rate
      deliveryRate := if p.deliveryRate = 0 then rate
        else 8 / 10 * p.deliveryRate + 2 / 10 * rate
      sendRate := if p.deliveryRate = 0 then sendRate
        else 8 / 10 * p.sendRate + 2 / 10 * sendRate }
    let p := p.markRate now a
    let p := { p with sustained := p.sustained.record now a.bytes a.elapsed }
    p.raiseToDelivery now
  else p

/-- The acknowledgement cadence of the peer. -/
def observeGap (p : Lane) (now : Time) : Lane :=
  let gap := now - p.lastACK
  { p with
    ackGap := if p.lastACK ≠ 0 ∧ gap < ackGapHorizon then
      p.ackGap + (gap - p.ackGap).tdiv 8 else p.ackGap
    lastACK := now }

/-- The answer of a floor test. -/
def concludeFloor (p : Lane) (sample queueDelay : Duration) : Lane :=
  if sample = 0 then p
  else
    let late := decide (queueDelay > p.congestionThreshold)
    if late && decide ((p.intervalSamples : ℤ) < p.delaySamplesNeeded) then p
    else
      let p := { p with
        haveInterval := false
        intervalSamples := 0
        intervalJitter := p.delayJitter
        floorSampling := false }
      if late then p.floorMoved sample else p.queueFound

/-- Loss since the last control interval. -/
def settleLoss (p : Lane) (now : Time) : Lane × Bool :=
  match p.losses.settled now with
  | (losses, none) => ({ p with losses := losses }, false)
  | (losses, some settled) =>
    ({ p with losses := losses, lossMark := settled, lossMarked := true },
      p.lossMarked && decide (settled - p.lossMark ≥ (wireOverhead : ℚ)))

/-- The signals that the scheduler contributes to a control interval. -/
structure Signals where
  backlogged : Bool
  laneLimited : Bool
  realtime : Bool
  stream : Bool

/-- The delay of a lightly loaded lane is how far its floor wanders. -/
def trackWander (p : Lane) (sample queueDelay : Duration) : Lane :=
  if sample > 0 ∧ queueDelay ≤ maxWander then
    let (p, light) := p.lightlyLoaded
    if light then
      let scatter := (jitterSpreadFactor * p.delayJitter).tdiv
        (max 1 p.intervalSamples + 1 : ℕ)
      p.observeWander (max 0 (queueDelay - scatter))
    else p
  else p

/-- The end of a control interval with its signals. -/
def concludeInterval (p : Lane) (now : Time) (sample : Duration)
    (delayed : Bool) (signals : Signals) : Lane :=
  let p := { p with
    haveInterval := false
    intervalSamples := 0
    intervalJitter := p.delayJitter }
  let (p, lost) := p.settleLoss now
  if !signals.backlogged then p
  else p.adjust now lost delayed (decide (sample > 0)) signals.laneLimited
    signals.realtime signals.stream

/-- The control interval that a fresh acknowledgement may end. -/
def controlInterval (p : Lane) (now : Time) (sample : Duration)
    (signals : Signals) : Lane :=
  if now < p.drainUntil ∨ p.baselinePending ∨
      now - p.lastAdjust <
        max (min p.rtt (100 * millisecond)) (50 * millisecond) then p
  else
    let queueDelay := if p.haveInterval then p.intervalQueueDelay
      else p.queueDelay
    let p := { p with lastAdjust := now, signalDelay := queueDelay }
    if p.floorSampling then p.concludeFloor sample queueDelay
    else
      let p := p.trackWander sample queueDelay
      let delayed := decide (sample > 0) &&
        decide (queueDelay > p.congestionThreshold)
      if delayed && decide ((p.intervalSamples : ℤ) < p.delaySamplesNeeded) then p
      else p.concludeInterval now sample delayed signals

end Lane

/-! ## The loops over pending packets and attempts -/

namespace Transport

/-- Mark a packet as acknowledged. -/
def ackPacket (t : Transport) (ref : PacketRef) : Transport :=
  t.setPacket ref { t.packets ref with acked := true }

/-- One turn of the loop over the pending packets. -/
def receiptTurn (a : Acknowledgement) (t : Transport) (seq : ℕ) : Transport :=
  match t.pending.lookup seq with
  | none => t
  | some ref =>
    if a.received seq then
      { t.ackPacket ref with pending := t.pending.erase seq }
    else t

/-- An attempt's packet is acknowledged and no longer pending. -/
def settlePacket (t : Transport) (packet : Option PacketRef) : Transport :=
  match packet with
  | none => t
  | some ref =>
    { t.ackPacket ref with pending := t.pending.erase (t.packets ref).seq }

/-- The packet of the attempt is acknowledged, or this acknowledgement names
it. -/
def known (t : Transport) (a : Acknowledgement) (sent : Attempt) : Bool :=
  sent.packet.any fun ref =>
    (t.packets ref).acked || a.received (t.packets ref).seq

/-- The lane's part in confirming an attempt. -/
def confirmOnLane (heap : PacketHeap) (p : Lane) (seq : ℕ) (sent : Attempt) :
    Lane :=
  let p := if sent.released then p else p.release heap sent
  let p := { p with
    confirmedWireBytes := if sent.packet.isSome then
      min (maxPackets * maxDatagram) (p.confirmedWireBytes + sent.bytes)
      else p.confirmedWireBytes
    acked := p.acked + sent.bytes }
  p.forget seq

/-- What the loop over the acknowledged lane's attempts carries.  `high` is the
acknowledged attempt itself, once found in a fresh acknowledgement. -/
structure Scan where
  transport : Transport
  lane : Lane
  physicalFeedback : Duration
  newestConfirmed : Time
  high : Option Attempt
  sample : Duration

/-- An attempt whose bit is set in the lane bitmap. -/
def scanConfirmed (a : Acknowledgement) (now : Time) (fresh : Bool) (s : Scan)
    (seq : ℕ) (sent : Attempt) : Scan :=
  let s := if sent.confirmed then s else { s with
    physicalFeedback := max s.physicalFeedback (now - sent.sent)
    lane := s.lane.observeOrder now sent.sent
    newestConfirmed := maxTime s.newestConfirmed sent.sent }
  let s := { s with
    lane := confirmOnLane s.transport.packets s.lane seq sent
    transport := s.transport.settlePacket sent.packet }
  if fresh ∧ seq = a.high then
    let s := { s with high := some sent }
    if (a.delay : ℤ) ≤ now - sent.sent then
      let sample := now - sent.sent - a.delay
      { s with
        sample := sample
        lane := s.lane.observeHigh now a sent sample }
    else s
  else s

/-- An attempt below the lane bitmap whose packet is known to have arrived. -/
def scanKnown (now : Time) (s : Scan) (seq : ℕ) (sent : Attempt) : Scan :=
  let lane := if sent.released then s.lane
    else s.lane.release s.transport.packets sent
  let once := sent.packet.any fun ref =>
    decide ((s.transport.packets ref).attempts = 1)
  let (lane, feedback) := if !sent.confirmed && once then
    (lane.observeOrder now sent.sent, max s.physicalFeedback (now - sent.sent))
    else (lane, s.physicalFeedback)
  { s with lane := lane.forget seq, physicalFeedback := feedback }

/-- One turn of the loop over the acknowledged lane's attempts. -/
def scanTurn (a : Acknowledgement) (now : Time) (fresh : Bool) (s : Scan)
    (seq : ℕ) : Scan :=
  match s.lane.attempts.lookup seq with
  | none => s
  | some sent =>
    if a.laneBit seq then scanConfirmed a now fresh s seq sent
    else if s.transport.known a sent ∧ seq < a.high ∧ a.high - seq ≥ 64 then
      scanKnown now s seq sent
    else s

/-- One turn of the loop of `confirmArrived`. -/
def arrivedTurn (a : Acknowledgement) (s : Transport × Lane) (seq : ℕ) :
    Transport × Lane :=
  match s.2.attempts.lookup seq with
  | none => s
  | some sent =>
    if seq > a.high then s
    else (s.1.settlePacket sent.packet,
      confirmOnLane s.1.packets s.2 seq sent)

/-- `confirmArrived`: equal totals prove that the complete prefix arrived. -/
def confirmArrived (t : Transport) (p : Lane) (a : Acknowledgement)
    (through : ℕ) (order : MapOrder) : Transport × Lane :=
  if through ≠ a.bytes then (t, p)
  else (order.keys .arrived p.id p.attempts.keys).foldl (arrivedTurn a) (t, p)

/-- What the loop over one lane's attempts carries in the last pass. -/
structure Confirmation where
  transport : Transport
  lane : Lane
  feedback : Duration

/-- One turn of that loop: the attempt's packet is known to have arrived. -/
def confirmTurn (a : Acknowledgement) (now : Time) (s : Confirmation)
    (seq : ℕ) : Confirmation :=
  match s.lane.attempts.lookup seq with
  | none => s
  | some sent =>
    match sent.packet with
    | none => s
    | some ref =>
      if s.transport.known a sent ∧ !sent.confirmed then
        let p := s.transport.packets ref
        let lane := if sent.released then s.lane
          else s.lane.release s.transport.packets sent
        let lane := if p.attempts = 1 then lane.observeOrder now sent.sent
          else lane
        { transport := s.transport.ackPacket ref
          lane := lane.putAttempt seq
            { sent with released := true, confirmed := true }
          feedback := if p.attempts = 1 then
            max s.feedback (now - sent.sent) else s.feedback }
      else s

/-- The pass over one lane. -/
def confirmLane (a : Acknowledgement) (now : Time) (order : MapOrder)
    (acknowledged : PathID) (physicalFeedback : Duration) (t : Transport)
    (id : PathID) : Transport :=
  match t.find id with
  | none => t
  | some path =>
    let feedback := if id = acknowledged then physicalFeedback else 0
    let s := (order.keys .confirm id path.attempts.keys).foldl
      (confirmTurn a now) ⟨t, path, feedback⟩
    s.transport.setLane (s.lane.observeFeedbackRTT s.feedback)

/-- The pass over every lane. -/
def confirmLanes (t : Transport) (a : Acknowledgement) (now : Time)
    (order : MapOrder) (acknowledged : PathID) (physicalFeedback : Duration) :
    Transport :=
  (t.paths.map fun q => q.id).foldl
    (confirmLane a now order acknowledged physicalFeedback) t

/-! ## `ack` -/

/-- The lane as the acknowledgement's progress leaves it. -/
def noteProgress (p : Lane) (a : Acknowledgement) (now : Time)
    (progressed : Bool) : Lane :=
  let p := { p with
    receivedThrough := if a.high > p.receivedHigh then 0 else p.receivedThrough
    receivedHigh := max p.receivedHigh a.high }
  if progressed then
    { p with
      model := { p.model with progressAt := now }
      stall := if a.high > p.stall.through then ⟨0, 0⟩ else p.stall }
  else p

/-- Receipts of pending packets, then the attempts of the acknowledged lane. -/
def scan (t : Transport) (p : Lane) (a : Acknowledgement) (now : Time)
    (fresh : Bool) (order : MapOrder) : Scan :=
  let t := (order.keys .receipts p.id t.pending.keys).foldl (receiptTurn a) t
  (order.keys .bitmap p.id p.attempts.keys).foldl (scanTurn a now fresh)
    ⟨t, p, 0, p.newestConfirmed, none, 0⟩

/-- The sent bytes through the acknowledged sequence, and the lane that
remembers them. -/
def rememberThrough (s : Scan) : Lane :=
  match s.high with
  | none => s.lane
  | some sent => { s.lane with receivedThrough := sent.through }

/-- The complete-prefix rule, applied to fresh acknowledgements. -/
def settlePrefix (s : Scan) (a : Acknowledgement) (fresh : Bool)
    (order : MapOrder) : Transport × Lane :=
  if fresh then
    let p := rememberThrough s
    if p.receivedThrough > 0 ∧ a.high = p.receivedHigh then
      s.transport.confirmArrived p a p.receivedThrough order
    else (s.transport, p)
  else (s.transport, s.lane)

/-- The loss ledger at the acknowledged attempt. -/
def recordLoss (heap : PacketHeap) (p : Lane) (a : Acknowledgement)
    (now : Time) (high : Option Attempt) : Lane :=
  match high with
  | none => p
  | some sent =>
    let (p, late) := p.lateBelow heap a sent.sent now
    { p with losses := p.losses.record now a.high sent.through a.bytes late }

/-- The loss ledger and the delivery round. -/
def observeLoss (heap : PacketHeap) (p : Lane) (a : Acknowledgement)
    (now : Time) (fresh : Bool) (high : Option Attempt) : Lane :=
  let p := recordLoss heap p a now high
  if fresh ∧ a.high ≥ p.roundEnd then
    { p with
      roundEnd := p.seq + 1
      roundDone := true
      roundLossy := p.losses.material now }
  else p

/-- The estimators that only a fresh acknowledgement moves. -/
def observeFresh (p : Lane) (a : Acknowledgement) (now : Time)
    (sample : Duration) (signals : Lane.Signals) : Lane :=
  let p := (p.observeRTT now sample).observeRate now a
  let p := { p with
    peakDelivery := max p.peakDelivery p.deliveryRate
    ackedBytes := a.bytes
    ackedElapsed := a.elapsed
    recentDelivery := p.recentDelivery.record now p.deliveryRate }
  let p := (p.boundByDelivery now signals.stream).1
  (p.observeGap now).controlInterval now sample signals

/-- The estimators of the acknowledged lane, after all loops. -/
def estimate (t : Transport) (p : Lane) (a : Acknowledgement) (now : Time)
    (fresh progressed backlogged : Bool) (silence : Duration) (s : Scan) :
    Transport :=
  let p := { p with newestConfirmed := s.newestConfirmed }
  let p := if progressed ∧ silence ≥ stallSilence ∧ silence < pathLease ∧
      s.physicalFeedback ≥ silence then p.stallEnded silence else p
  let p := observeLoss t.packets p a now fresh s.high
  if !fresh then t.setLane p
  else
    let signals : Lane.Signals :=
      { backlogged := backlogged
        laneLimited := t.laneLimited now
        realtime := decide (t.demand.realtime.rate now > 0)
        stream := t.demand.realtime.steady now }
    { t.setLane (observeFresh p a now s.sample signals) with
      demand := { t.demand with realtime := t.demand.realtime.rotate now } }

/-- The loops over packets and attempts: the scan, the complete-prefix rule and
the pass over every lane. -/
def settle (t : Transport) (p : Lane) (a : Acknowledgement) (now : Time)
    (fresh : Bool) (order : MapOrder) : Transport :=
  let s := t.scan p a now fresh order
  let (t, p) := settlePrefix s a fresh order
  (t.setLane p).confirmLanes a now order p.id s.physicalFeedback

/-- The acknowledgement reports more than the newest one did. -/
def progresses (p : Lane) (a : Acknowledgement) (fresh : Bool) : Bool :=
  fresh && (decide (a.high > p.receivedHigh) || decide (a.bytes > p.ackedBytes))

/-- `ack`: an acknowledgement that has passed validation. -/
def ack (t : Transport) (p : Lane) (a : Acknowledgement) (now : Time)
    (fresh : Bool) (order : MapOrder) : Transport :=
  let silence := p.model.progressAge now
  let progressed := progresses p a fresh
  let p := noteProgress p a now progressed
  let backlogged := decide (t.queued > 0) ||
    decide (p.inflight ≥ p.window.tdiv 2)
  let s := t.scan p a now fresh order
  let t := t.settle p a now fresh order
  match t.find p.id with
  | none => t
  | some p => t.estimate p a now fresh progressed backlogged silence s

end Transport

/-! ## What the estimators leave alone -/

namespace Lane

variable (p : Lane) (now : Time) (a : Acknowledgement) (sample : Duration)

@[simp] theorem observeIdleForward_toLaneCore (transit : Duration) :
    (p.observeIdleForward transit).toLaneCore = p.toLaneCore :=
  map_ite rfl rfl

@[simp] theorem endBaseline_toLaneCore :
    (p.endBaseline sample).toLaneCore = p.toLaneCore := by
  exact map_ite (f := toLaneCore) rfl rfl

@[simp] theorem observeTransit_toLaneCore (transit : Duration) (bytes : ℕ) :
    (p.observeTransit now transit bytes).toLaneCore = p.toLaneCore := by
  exact map_ite rfl rfl

@[simp] theorem observeHigh_toLaneCore (sent : Attempt) :
    (p.observeHigh now a sent sample).toLaneCore = p.toLaneCore := by
  dsimp only [observeHigh]
  rw [observeTransit_toLaneCore]
  refine (map_ite (endBaseline_toLaneCore _ _) rfl).trans ?_
  exact map_ite (observeIdleForward_toLaneCore _ _) rfl

@[simp] theorem observeIdleRTT_toLaneCore :
    (p.observeIdleRTT now sample).toLaneCore = p.toLaneCore :=
  map_ite (map_ite rfl rfl) rfl

@[simp] theorem observeRTT_toLaneCore :
    (p.observeRTT now sample).toLaneCore = p.toLaneCore := by
  have hidle : ∀ q : Lane, (q.observeIdleRTT now sample).toLaneCore =
      q.toLaneCore := fun q => observeIdleRTT_toLaneCore q now sample
  exact map_ite (map_ite (hidle _) (hidle _)) rfl

@[simp] theorem observeRate_toLaneCore :
    (p.observeRate now a).toLaneCore = p.toLaneCore := by
  refine map_ite rfl (map_ite ?_ rfl)
  exact congrArg Standing.core (raiseToDelivery_standing _ now)

@[simp] theorem observeGap_toLaneCore :
    (p.observeGap now).toLaneCore = p.toLaneCore := rfl

@[simp] theorem boundByDelivery_toLaneCore (stream : Bool) :
    (p.boundByDelivery now stream).1.toLaneCore = p.toLaneCore :=
  congrArg Standing.core (p.boundByDelivery_standing now stream)

theorem settleLoss_standing : (p.settleLoss now).1.standing = p.standing := by
  have hentries : (p.losses.settled now).1.entries = p.losses.entries := by
    unfold LossLedger.settled
    split <;> rfl
  unfold settleLoss standing
  rw [← hentries]
  split
  next h => rw [h]
  next h => rw [h]

theorem trackWander_standing (queueDelay : Duration) :
    (p.trackWander sample queueDelay).standing = p.standing := by
  refine map_ite (map_ite ?_ ?_) rfl
  · exact (observeWander_standing _ _).trans (lightlyLoaded_standing p)
  · exact lightlyLoaded_standing p

theorem concludeInterval_standing (delayed : Bool) (signals : Signals) :
    (p.concludeInterval now sample delayed signals).standing = p.standing := by
  refine map_ite ?_ ?_
  · exact settleLoss_standing _ now
  · exact (adjust_standing _ now _ _ _ _ _ _).trans (settleLoss_standing _ now)

/-- The standing of the lane is left, or the floors of its transit times are
cleared. -/
def Steered (p q : Lane) : Prop :=
  q.standing = p.standing ∨
    q.standing = { p.standing with bases := clearTransitBases }

theorem Steered.ite {p a b : Lane} {c : Prop} [Decidable c] (ha : p.Steered a)
    (hb : p.Steered b) : p.Steered (if c then a else b) := by
  split
  · exact ha
  · exact hb

theorem steered_controlInterval (signals : Signals) :
    p.Steered (p.controlInterval now sample signals) := by
  refine .ite (.inl rfl) (.ite (.ite (.inl rfl) (.ite (.inl rfl)
    (.ite (.inr rfl) (.inl rfl)))) (.ite (.inl ?_) (.inl ?_)))
  · exact trackWander_standing _ sample _
  · exact (concludeInterval_standing _ now sample _ _).trans
      (trackWander_standing _ sample _)

@[simp] theorem controlInterval_toLaneCore (signals : Signals) :
    (p.controlInterval now sample signals).toLaneCore = p.toLaneCore := by
  rcases p.steered_controlInterval now sample signals with h | h
  · exact congrArg Standing.core h
  · exact congrArg Standing.core h

end Lane

namespace Transport

variable (p : Lane) (now : Time) (a : Acknowledgement)

@[simp] theorem observeLoss_toLaneCore (heap : PacketHeap) (fresh : Bool)
    (high : Option Attempt) :
    (observeLoss heap p a now fresh high).toLaneCore = p.toLaneCore := by
  have hrecord : (recordLoss heap p a now high).toLaneCore = p.toLaneCore := by
    unfold recordLoss
    split <;> rfl
  exact Lane.map_ite hrecord hrecord

@[simp] theorem observeFresh_toLaneCore (sample : Duration)
    (signals : Lane.Signals) :
    (observeFresh p a now sample signals).toLaneCore =
      { p.toLaneCore with
        ackedBytes := a.bytes
        ackedElapsed := a.elapsed } := by
  dsimp only [observeFresh]
  rw [Lane.controlInterval_toLaneCore, Lane.observeGap_toLaneCore,
    Lane.boundByDelivery_toLaneCore]
  rw [Lane.observeRate_toLaneCore, Lane.observeRTT_toLaneCore]

@[simp] theorem noteProgress_toLaneCore (progressed : Bool) :
    (noteProgress p a now progressed).toLaneCore =
      { p.toLaneCore with
        receivedThrough := if a.high > p.receivedHigh then 0
          else p.receivedThrough
        receivedHigh := max p.receivedHigh a.high } := by
  exact Lane.map_ite rfl rfl

theorem noteProgress_id (progressed : Bool) :
    (noteProgress p a now progressed).id = p.id := by
  rw [noteProgress_toLaneCore]

end Transport

end Wanbond.Bond
