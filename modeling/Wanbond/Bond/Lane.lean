import Mathlib.Data.List.AList
import Wanbond.Bond.Meters
import Wanbond.Bond.Queue
import Wanbond.Bond.ReceiptWindow

/-!
# Lanes

The sender's state for one lane, and what the scheduler reads from it.  The
fields of the source's `lane` are grouped by what they serve: `LaneWire` holds
what the wire protocol uses, `LaneCore` adds the window's accounts, and the
other parts serve the estimators.  A function that touches the estimators
alone leaves `toLaneCore` as it was, and its lemma says so.
-/

namespace Wanbond.Bond

open Wanbond.Support

/-! ## Parameters -/

def initialWindowBytes : ℤ := 3000

def initialRate : ℚ := 125000

def minimumRate : ℚ := 16000

def maximumRate : ℚ := 1250000000

def targetQueue : Duration := 10 * millisecond

def jitterAllowanceFactor : ℤ := 2

def jitterSpreadFactor : ℤ := 3

def reorderHeadroom : ℚ := 125 / 100

def reorderMemory : Duration := 10 * second

def startupDeliveryGain : ℚ := 2

def maxDelaySamples : ℤ := 16

def jitterWarmup : ℕ := 8

def maxQueueAge : Duration := 100 * millisecond

def maxBulkQueueAge : Duration := 250 * millisecond

def discoveryQueueAge : Duration := second

def maxPacketAge : Duration := 250 * millisecond

def ackInterval : Duration := 25 * millisecond

def maxACKInterval : Duration := 50 * millisecond

def minimumClassShare : ℚ := 5 / 100

def pathLease : Duration := second

def minimumRTO : Duration := 60 * millisecond

def maxThreshold : Duration := 10 * targetQueue

def repairTail : ℕ := 3

def feedbackHorizon : Duration := 2 * second

def baselineInterval : Duration := 10 * second

def baselineStagger : Duration := 500 * millisecond

def fullDatagramWireBytes : ℕ := 1500

def transitSizeBucket : ℕ := 128

def transitBuckets : ℕ := (maxDatagram + wireOverhead) / transitSizeBucket + 1

def suspectACKIntervals : ℤ := 2

/-! ## State -/

/-- One transmission on a lane.  A keepalive carries no packet. -/
structure Attempt where
  packet : Option PacketRef
  sent : Time
  bytes : ℕ
  released : Bool
  confirmed : Bool
  through : ℕ

abbrev Attempts := AList fun _ : ℕ => Attempt

structure LinkModel where
  progressAt : Time
  awaitingSince : Time

structure Stall where
  length : Duration
  through : ℕ

structure TransitBaseline where
  delay : Duration
  known : Bool
  observed : Time

/-- `control` of a lane: its target between discovery runs. -/
structure LaneControl where
  capacity : ℚ
  draining : Bool
  drainBy : Time
  flushUntil : Time
  holdSignal : Bool
  nextPulse : Time
  pulseEvery : Duration
  pulseEnd : Time
  verdictAt : Time
  pulseWins : ℕ
  pending : Bool
  wonAt : Time
  wonSeq : ℕ
  wonFrom : ℚ

/-- `control{capacity: capacity}`. -/
def LaneControl.ofCapacity (capacity : ℚ) : LaneControl :=
  ⟨capacity, false, 0, 0, false, 0, 0, 0, 0, 0, false, 0, 0, 0⟩

structure Decisions where
  delaySignals : ℕ
  lossSignals : ℕ
  discoveryCongested : ℕ
  discoveryPlateau : ℕ
  capacityRemeasured : ℕ
  capacityDecays : ℕ
  pulses : ℕ
  pulseWins : ℕ
  pulseLosses : ℕ
  rediscoveries : ℕ
  stallSignals : ℕ

def Decisions.zero : Decisions := ⟨0, 0, 0, 0, 0, 0, 0, 0, 0, 0, 0⟩

/-- What the wire protocol keeps for a lane. -/
structure LaneWire where
  id : PathID
  remoteID : PathID
  lease : Time
  seq : ℕ
  sent : ℕ
  attempts : Attempts
  receivedHigh : ℕ
  receivedThrough : ℕ
  ackRevision : ℕ
  ackReceipts : ReceiptWindow
  ackedBytes : ℕ
  ackedElapsed : ℕ

/-- The wire state with the bytes in flight and the bytes acknowledged. -/
structure LaneCore extends LaneWire where
  inflight : ℤ
  classInflight : PerClass ℤ
  acked : ℕ

/-- Counters. -/
structure LaneVolume where
  confirmedWireBytes : ℕ
  interactiveSent : ℕ
  realtimeOriginals : ℕ
  bulkOriginals : ℕ
  bulkReceived : ℕ
  retries : ℕ

/-- Round trips and the peer's progress. -/
structure LaneTiming where
  model : LinkModel
  stall : Stall
  rtt : Duration
  rttVariation : Duration
  idleRTTVariation : Duration
  idleRTT : Duration
  feedbackRTT : Duration
  feedbackRTTVariation : Duration
  baseRTT : Duration
  baseAt : Time
  lastACK : Time
  ackGap : Duration
  firstSent : Time
  lastTransmit : Time
  lastPayload : Time
  newestConfirmed : Time
  reordering : Peak

/-- Transit times above the lowest one seen. -/
structure LaneTransit where
  idleForwardMean : Duration
  idleForwardVariation : Duration
  idleForwardKnown : Bool
  wander : Duration
  wanderVariation : Duration
  wanderKnown : Bool
  transitBucket : ℕ
  transitBases : List TransitBaseline
  intervalQueueDelay : Duration
  signalDelay : Duration
  delayJitter : Duration
  intervalJitter : Duration
  delayDifferences : ℕ
  intervalSamples : ℕ
  haveInterval : Bool
  queueDelay : Duration
  nextBaseline : Time
  drainUntil : Time
  baselinePending : Bool
  floorTesting : Bool
  floorSampling : Bool
  floorTested : Time
  floorTestEvery : Duration

/-- The target rate and what it is derived from. -/
structure LaneTarget where
  rate : ℚ
  deliveryRate : ℚ
  deliverySample : ℚ
  sendRate : ℚ
  startup : Bool
  discoveryGain : ℚ
  startupBest : ℚ
  startupFlatRounds : ℕ
  roundEnd : ℕ
  roundDone : Bool
  losses : LossLedger
  roundLossy : Bool
  previousDelivery : ℚ
  control : LaneControl
  peakDelivery : ℚ
  recentDelivery : Peak
  sustained : SustainedDelivery
  decisions : Decisions
  lastAdjust : Time
  lossMark : ℚ
  lossMarked : Bool
  feedbackAt : Time
  rateBytes : ℕ
  rateSentBytes : ℕ
  rateElapsed : ℕ
  droppedAt : Time

/-- Pacing clocks and the shares of the classes. -/
structure LaneShare where
  feedbackSent : RateMeter
  nextSend : Time
  classNext : PerClass Time
  reserved : PerClass ℚ
  copies : ℚ
  guaranteed : PerClass Bool
  shared : Bool
  bulkElsewhere : Bool

structure Lane extends LaneCore, LaneVolume, LaneTiming, LaneTransit,
  LaneTarget, LaneShare

namespace Lane

def clearTransitBases : List TransitBaseline :=
  List.replicate transitBuckets ⟨0, false, 0⟩

/-- `(uint16(id)^uint16(id)>>8)&mask`, by which lanes are staggered. -/
def stagger (id mask : PathID) : ℤ :=
  ((id ^^^ (id >>> 8)) &&& mask).toNat

/-- The lane that `Path` creates. -/
def new (id remoteID : PathID) (rtt : Duration) (now : Time) : Lane where
  id := id
  remoteID := remoteID
  lease := 0
  seq := 0
  sent := 0
  attempts := ∅
  receivedHigh := 0
  receivedThrough := 0
  ackRevision := 0
  ackReceipts := ReceiptWindow.empty
  ackedBytes := 0
  ackedElapsed := 0
  inflight := 0
  classInflight := .const 0
  confirmedWireBytes := 0
  interactiveSent := 0
  realtimeOriginals := 0
  bulkOriginals := 0
  bulkReceived := 0
  acked := 0
  retries := 0
  model := ⟨0, 0⟩
  stall := ⟨0, 0⟩
  rtt := rtt
  rttVariation := 0
  idleRTTVariation := 0
  idleRTT := rtt
  feedbackRTT := 0
  feedbackRTTVariation := 0
  baseRTT := rtt
  baseAt := now
  lastACK := 0
  ackGap := 0
  firstSent := 0
  lastTransmit := now
  lastPayload := 0
  newestConfirmed := 0
  reordering := Peak.ofBucket reorderMemory
  idleForwardMean := 0
  idleForwardVariation := 0
  idleForwardKnown := false
  wander := 0
  wanderVariation := 0
  wanderKnown := false
  transitBucket := 0
  transitBases := clearTransitBases
  intervalQueueDelay := 0
  signalDelay := 0
  delayJitter := 0
  intervalJitter := 0
  delayDifferences := 0
  intervalSamples := 0
  haveInterval := false
  queueDelay := 0
  nextBaseline := now + (baselineInterval + stagger id 255 * baselineStagger)
  drainUntil := 0
  baselinePending := false
  floorTesting := false
  floorSampling := false
  floorTested := 0
  floorTestEvery := 0
  rate := initialRate
  deliveryRate := 0
  deliverySample := 0
  sendRate := 0
  startup := true
  discoveryGain := startupDeliveryGain
  startupBest := 0
  startupFlatRounds := 0
  roundEnd := 0
  roundDone := false
  losses := LossLedger.zero
  roundLossy := false
  previousDelivery := 0
  control := LaneControl.ofCapacity 0
  peakDelivery := 0
  recentDelivery := Peak.ofBucket 0
  sustained := SustainedDelivery.zero
  decisions := Decisions.zero
  lastAdjust := 0
  lossMark := 0
  lossMarked := false
  feedbackAt := 0
  rateBytes := 0
  rateSentBytes := 0
  rateElapsed := 0
  droppedAt := 0
  feedbackSent := RateMeter.zero
  nextSend := 0
  classNext := .const 0
  reserved := .const 0
  copies := 0
  guaranteed := .const false
  shared := false
  bulkElsewhere := false

/-! ## Liveness -/

/-- `lane.up`. -/
def up (p : Lane) (now : Time) : Bool :=
  decide (p.lease ≠ 0) && decide (now - p.lease < pathLease)

/-- `peerACKInterval`: the acknowledgement cadence observed from the peer. -/
def peerACKInterval (p : Lane) : Duration :=
  min maxACKInterval (max ackInterval p.ackGap)

def rto (p : Lane) : Duration :=
  let variation :=
    if p.feedbackRTT = 0 then
      let unknown :=
        if p.idleRTTVariation > 0 then p.idleRTTVariation else p.rtt.tdiv 2
      max p.rttVariation unknown
    else p.rttVariation
  max minimumRTO (max (p.rtt + 4 * variation + p.peerACKInterval)
    (p.feedbackRTT + 4 * p.feedbackRTTVariation))

end Lane

inductive LaneLiveness where
  | live | suspect | dead
  deriving DecidableEq, Repr

def LinkModel.progressAge (m : LinkModel) (now : Time) : Duration :=
  if m.progressAt = 0 then 0 else max 0 (now - m.progressAt)

namespace Lane

def liveness (p : Lane) (now : Time) : LaneLiveness :=
  if !p.up now then .dead
  else if p.seq ≤ p.receivedHigh then .live
  else
    let silence := now - maxTime p.model.progressAt p.model.awaitingSince
    if silence ≥ p.rto then .dead
    else if silence ≥ suspectACKIntervals * p.peerACKInterval then .suspect
    else .live

def eligible (p : Lane) (c : Class) (now : Time) : Bool :=
  decide (p.liveness now = .live) ||
    decide (c ≠ .bulk) && decide (p.liveness now = .suspect)

/-- `beginAttempt`: the next lane sequence is taken. -/
def beginAttempt (p : Lane) (now : Time) : Lane :=
  let p := if p.seq = p.receivedHigh then
    { p with model := { p.model with awaitingSince := now } } else p
  { p with seq := p.seq + 1 }

/-- `passed`: the lane has shown the packet's last transmission missing, or
cannot.  The lane sequence of a transmission never exceeds the lane's. -/
def passed (p : Lane) (d : Packet) : Bool :=
  decide (p.receivedHigh > d.lastLaneSeq) ||
    decide (p.seq - d.lastLaneSeq < repairTail)

/-! ## Window and pacing -/

/-- `release`: an attempt's bytes return to the window. -/
def release (p : Lane) (heap : PacketHeap) (a : Attempt) : Lane :=
  let p := { p with inflight := p.inflight - a.bytes }
  match a.packet with
  | none => p
  | some ref => { p with
      classInflight := p.classInflight.modify (heap ref).cls (· - a.bytes) }

def window (p : Lane) : ℤ :=
  min (initialWindowBytes + p.confirmedWireBytes)
    (max initialWindowBytes
      (truncate (p.rate * seconds (p.idleRTT +
        jitterAllowanceFactor * p.idleRTTVariation + 2 * targetQueue +
        p.peerACKInterval))))

def pace (p : Lane) (now : Time) (bytes : ℕ) : Lane :=
  let rate := p.rate + p.feedbackSent.rate now
  { p with
    feedbackSent := p.feedbackSent.rotate now
    nextSend := maxTime p.nextSend (now - 2 * millisecond) +
      ofSeconds (bytes / rate) }

/-- `p.attempts[seq] = a`. -/
def putAttempt (p : Lane) (seq : ℕ) (a : Attempt) : Lane :=
  { p with attempts := p.attempts.insert seq a }

/-- `delete(p.attempts, seq)`. -/
def forget (p : Lane) (seq : ℕ) : Lane :=
  { p with attempts := p.attempts.erase seq }

/-- `latency` ranks lanes by unloaded round trip and jitter. -/
def latency (p : Lane) : Duration :=
  p.idleRTT + jitterAllowanceFactor * p.idleRTTVariation

def realtimeLane (p : Lane) : Bool :=
  if p.startup && decide (p.control.capacity = 0) then false
  else p.bulkElsewhere &&
    decide (fullDatagramWireBytes / p.rate * second > (targetQueue : ℚ))

/-- The minimum share, on the lane that guarantees it to the class. -/
def guarantee (p : Lane) (c : Class) (rate : ℚ) : ℚ :=
  if p.guaranteed.get c then max rate (minimumClassShare * p.rate) else rate

/-- What classes above `c` have reserved on the lane, copies included. -/
def reservedAbove (p : Lane) : Class → ℚ
  | .realtime => 0
  | .small => p.reserved.realtime + p.copies
  | .bulk => p.reserved.realtime + p.reserved.small + p.copies

def minimumShareOf (p : Lane) (c : Class) : ℚ :=
  if p.guaranteed.get c then minimumClassShare * p.rate else 0

/-- What the lane guarantees to the classes below `c`. -/
def guaranteedBelow (p : Lane) : Class → ℚ
  | .realtime => p.minimumShareOf .small + p.minimumShareOf .bulk
  | .small => p.minimumShareOf .bulk
  | .bulk => 0

/-- `allowed`: the rate a class may use on the lane. -/
def allowed (p : Lane) (c : Class) : ℚ :=
  if c = .bulk ∧ p.realtimeLane then p.minimumShareOf c
  else if c = .small ∧ p.shared ∧ !p.realtimeLane then
    p.guarantee c p.reserved.small
  else max 0
    (p.guarantee c (p.rate - p.reservedAbove c - p.guaranteedBelow c))

def classWindow (p : Lane) (c : Class) (size : ℕ) (window : ℤ) (allowed : ℚ) :
    ℤ :=
  if c = .bulk ∧ p.reserved.realtime > 0 ∧
      (p.control.capacity > 0 ∨ p.reserved.realtime + p.copies > allowed) ∧
      size / p.rate * second > (targetQueue : ℚ) then size
  else max size (truncate (window * allowed / p.rate))

/-! ## Feedback -/

def observeOrder (p : Lane) (now sent : Time) : Lane :=
  if sent < p.newestConfirmed then
    { p with reordering := p.reordering.record now (p.newestConfirmed - sent : ℤ) }
  else p

def observeFeedbackRTT (p : Lane) (sample : Duration) : Lane :=
  if sample ≤ 0 then p
  else if p.feedbackRTT = 0 then
    { p with feedbackRTT := sample, feedbackRTTVariation := sample.tdiv 2 }
  else
    { p with
      feedbackRTTVariation :=
        (3 * p.feedbackRTTVariation + |sample - p.feedbackRTT|).tdiv 4
      feedbackRTT := (7 * p.feedbackRTT + sample).tdiv 8 }

/-- `rebaseline` moves the unloaded round trip halfway to the sample. -/
def rebaseline (p : Lane) (sample : Duration) : Lane :=
  { p with idleRTT := p.idleRTT + (sample - p.idleRTT).tdiv 2 }

/-- `congestionThreshold`: the queue delay above which the path queues. -/
def congestionThreshold (p : Lane) : Duration :=
  let threshold := max targetQueue (jitterAllowanceFactor * p.idleForwardVariation)
  let threshold := if p.wanderKnown then
    max threshold
      (p.wander + jitterAllowanceFactor * p.wanderVariation + targetQueue)
    else threshold
  min threshold maxThreshold

def delaySamplesNeeded (p : Lane) : ℤ :=
  let jitter := if p.delayDifferences ≤ jitterWarmup then
    max p.intervalJitter p.idleRTTVariation else p.intervalJitter
  let spread := jitterSpreadFactor * jitter
  let threshold := p.congestionThreshold
  if spread ≤ threshold then 1
  else min maxDelaySamples ((2 * spread).tdiv threshold)

/-- `lateBelow`: bytes sent shortly before the acknowledged datagram that may
still be on their way.  The reordering meter is rotated. -/
def lateBelow (p : Lane) (heap : PacketHeap) (a : Acknowledgement)
    (highSent now : Time) : Lane × ℕ :=
  let allowance := max targetQueue (max (jitterSpreadFactor * p.delayJitter)
    (max (jitterSpreadFactor * p.idleForwardVariation)
      (truncate (reorderHeadroom * p.reordering.value now))))
  let count (late : ℕ) (entry : Sigma fun _ : ℕ => Attempt) : ℕ :=
    let sent := entry.2
    if entry.1 ≥ a.high ∨ highSent - sent.sent ≥ allowance then late
    else if a.laneBit entry.1 then late
    else if sent.packet.any fun ref =>
        (heap ref).acked || a.received (heap ref).seq then late
    else late + sent.bytes
  let late := p.attempts.entries.foldl count 0
  ({ p with reordering := p.reordering.rotate now }, late)

/-! ## What the estimators leave alone -/

@[simp] theorem release_toLaneWire (p : Lane) (heap : PacketHeap) (a : Attempt) :
    (p.release heap a).toLaneWire = p.toLaneWire := by
  unfold release
  cases a.packet <;> rfl

@[simp] theorem clear_toLaneWire (p : Lane) (heap : PacketHeap) (a : Attempt) :
    (if a.released then p else p.release heap a).toLaneWire = p.toLaneWire := by
  split
  · rfl
  · exact release_toLaneWire p heap a

@[simp] theorem putAttempt_toLaneWire (p : Lane) (seq : ℕ) (a : Attempt) :
    (p.putAttempt seq a).toLaneWire =
      { p.toLaneWire with attempts := p.attempts.insert seq a } := rfl

@[simp] theorem forget_toLaneWire (p : Lane) (seq : ℕ) :
    (p.forget seq).toLaneWire =
      { p.toLaneWire with attempts := p.attempts.erase seq } := rfl

@[simp] theorem beginAttempt_toLaneCore (p : Lane) (now : Time) :
    (p.beginAttempt now).toLaneCore = { p.toLaneCore with seq := p.seq + 1 } := by
  unfold beginAttempt
  split <;> rfl

@[simp] theorem observeOrder_toLaneCore (p : Lane) (now sent : Time) :
    (p.observeOrder now sent).toLaneCore = p.toLaneCore := by
  unfold observeOrder
  split <;> rfl

@[simp] theorem observeFeedbackRTT_toLaneCore (p : Lane) (sample : Duration) :
    (p.observeFeedbackRTT sample).toLaneCore = p.toLaneCore := by
  unfold observeFeedbackRTT
  split
  · rfl
  · split <;> rfl

end Lane

end Wanbond.Bond
