import Mathlib.Data.List.Sort
import Wanbond.Bond.LaneTarget
import Wanbond.Support.Keyed

/-!
# The transport

The state of `Transport` and the calls that change it without reading or
writing a frame: `New`, `SetRemote`, `Path`, `Disable` and `Enqueue`.

Lanes and receivers are found by identifier, and written back by identifier.
The receivers are the list `receiverOrder`; the map beside it in the source
has the same entries, keyed by the remote lane.
-/

namespace Wanbond.Bond

open Wanbond.Support

def smallPacketHeadroom : ℕ := 1024

/-! ## State -/

/-- What the transport keeps for one lane of the peer. -/
structure Receiver where
  path : PathID
  remoteLane : PathID
  receipts : ReceiptWindow
  bytes : ℕ
  start : Time
  highAt : Time
  pending : ℕ
  ackAt : Time
  streak : ℕ
  received : RateMeter
  revision : ℕ

def Receiver.new (path remoteLane : PathID) (now : Time) : Receiver where
  path := path
  remoteLane := remoteLane
  receipts := ReceiptWindow.empty
  bytes := 0
  start := now
  highAt := 0
  pending := 0
  ackAt := now
  streak := 0
  received := RateMeter.zero
  revision := 0

abbrev Pending := AList fun _ : ℕ => PacketRef

/-- Packets, and the numbers they are stamped with. -/
structure Outbound where
  packets : PacketHeap
  allocated : ℕ
  pending : Pending
  pendingOrder : List PacketRef
  seq : ℕ
  bulkSeq : ℕ
  interactiveSeq : ℕ

/-- What has been received. -/
structure Inbound where
  receivers : List Receiver
  received : ReceiptWindow
  unreported : ReceiptWindow

structure SmallQueueDropStats where
  admission : ℕ
  deadline : ℕ
  stale : ℕ

/-- Queues of datagrams not transmitted yet, and the counters of what became
of datagrams. -/
structure Stock where
  queue : List PacketRef
  small : PerClass FairPacketQueue
  drops : ℕ
  admissionDrops : ℕ
  aqmDrops : ℕ
  interactiveDrops : ℕ
  smallQueueDrops : PerClass SmallQueueDropStats
  coalescedACKs : ℕ
  expired : ℕ

/-- The queues with what decides which datagrams they give up. -/
structure Backlog extends Stock where
  bulkAQM : Codel
  realtimeLate : Time
  realtimeSkipping : Bool

/-- Demand, copies and the remaining counters. -/
structure Traffic where
  demand : PerClass RateMeter
  redundancyTokens : ℚ
  realtimePath : Option PathID
  realtimeMoves : ℕ
  lastPoll : Time
  rejected : RejectionCause → ℕ
  duplicates : ℕ

structure Transport extends Outbound, Inbound, Backlog, Traffic where
  epoch : Epoch
  remote : Epoch
  paths : List Lane
  lastTime : Time

namespace Transport

/-- A packet that has not been allocated. -/
def noPacket : Packet where
  flow := FlowID.zero
  ack := ⟨false, 0, 0, 0, 0, false, 0, 0⟩
  seq := 0
  order := Order.zero
  cls := .bulk
  interactive := false
  payload := []
  created := 0
  queueDeadline := 0
  repairDeadline := 0
  lastSent := 0
  lastPath := 0
  lastLaneSeq := 0
  attempts := 0
  acked := false

/-- `New`.  The source panics unless the epoch is valid. -/
def new (epoch : Epoch) : Transport where
  epoch := epoch
  remote := Epoch.zero
  paths := []
  lastTime := 0
  packets := fun _ => noPacket
  allocated := 0
  pending := ∅
  pendingOrder := []
  seq := 0
  bulkSeq := 0
  interactiveSeq := 0
  receivers := []
  received := ReceiptWindow.empty
  unreported := ReceiptWindow.empty
  queue := []
  bulkAQM := Codel.zero
  small := .const FairPacketQueue.empty
  realtimeLate := 0
  realtimeSkipping := false
  drops := 0
  admissionDrops := 0
  aqmDrops := 0
  interactiveDrops := 0
  smallQueueDrops := .const ⟨0, 0, 0⟩
  coalescedACKs := 0
  demand := .const RateMeter.zero
  redundancyTokens := 0
  realtimePath := none
  realtimeMoves := 0
  lastPoll := 0
  rejected := fun _ => 0
  expired := 0
  duplicates := 0

/-! ## Lookup by identifier -/

/-- `find`. -/
def find (t : Transport) (id : PathID) : Option Lane :=
  Keyed.lookup (fun p : Lane => p.id) id t.paths

/-- Write a lane back. -/
def setLane (t : Transport) (p : Lane) : Transport :=
  { t with paths := Keyed.replace (fun q : Lane => q.id) p t.paths }

/-- `receivers[lane]`. -/
def receiver (t : Transport) (lane : PathID) : Option Receiver :=
  Keyed.lookup Receiver.remoteLane lane t.receivers

/-- Write a receiver back. -/
def setReceiver (t : Transport) (r : Receiver) : Transport :=
  { t with receivers := Keyed.replace Receiver.remoteLane r t.receivers }

def setPacket (t : Transport) (ref : PacketRef) (p : Packet) : Transport :=
  { t with packets := Function.update t.packets ref p }

def queued (t : Transport) : ℕ :=
  t.queue.length + t.small.realtime.count + t.small.small.count

def checkTime (t : Transport) (now : Time) : Except RejectionError Transport :=
  if now < t.lastTime then
    .error ⟨.time, "bond: regressing transport time"⟩
  else .ok { t with lastTime := now }

theorem checkTime_cases (t : Transport) (now : Time) :
    (∃ e, t.checkTime now = .error e) ∨ t.lastTime ≤ now ∧
      t.checkTime now = .ok { t with lastTime := now } := by
  unfold checkTime
  split
  · exact Or.inl ⟨_, rfl⟩
  next hnow => exact Or.inr ⟨not_lt.mp hnow, rfl⟩

/-! ## Epochs and paths -/

/-- What `SetRemote` does to each lane.  The total of sent bytes stays. -/
def resetLane (p : Lane) : Lane :=
  let p := { p with
    lease := 0
    attempts := ∅
    inflight := 0
    classInflight := .const 0
    seq := 0
    roundEnd := 0
    roundDone := false
    roundLossy := false
    lastACK := 0
    ackGap := 0
    nextSend := 0
    feedbackSent := RateMeter.zero
    losses := LossLedger.zero
    lossMark := 0
    lossMarked := false
    reordering := Peak.ofBucket reorderMemory
    newestConfirmed := 0
    ackRevision := 0
    receivedHigh := 0
    receivedThrough := 0
    model := ⟨0, 0⟩
    stall := ⟨0, 0⟩
    ackReceipts := ReceiptWindow.empty
    ackedBytes := 0
    ackedElapsed := 0
    transitBases := Lane.clearTransitBases
    haveInterval := false
    intervalSamples := 0
    delayJitter := 0
    delayDifferences := 0
    intervalJitter := 0
    floorTesting := false
    floorSampling := false
    floorTestEvery := 0
    firstSent := 0
    idleForwardMean := 0
    idleForwardVariation := 0
    idleForwardKnown := false
    feedbackAt := 0
    sustained := { p.sustained with marks := [] }
    control := LaneControl.ofCapacity p.control.capacity }
  if p.control.capacity = 0 ∧ !p.startup then p.rediscover else p

/-- The epoch changes that `SetRemote` accepts. -/
def acceptsRemote (t : Transport) (epoch : Epoch) (adopted : Bool) : Bool :=
  if epoch = t.remote then false
  else if epoch.boot = 0 ∨ epoch.generation = 0 then false
  else if t.remote.boot ≠ 0 ∧ epoch.boot = t.remote.boot ∧
      epoch.generation ≤ t.remote.generation then false
  else if t.remote.boot ≠ 0 ∧ epoch.boot ≠ t.remote.boot ∧ !adopted then false
  else true

/-- `SetRemote`: the transport, and whether the epoch changed. -/
def setRemote (t : Transport) (epoch : Epoch) (adopted : Bool) :
    Transport × Bool :=
  if t.acceptsRemote epoch adopted then
    ({ t with
      remote := epoch
      expired := t.expired + t.pending.entries.length
      pending := ∅
      pendingOrder := []
      seq := 0
      bulkSeq := 0
      interactiveSeq := 0
      receivers := []
      received := ReceiptWindow.empty
      unreported := ReceiptWindow.empty
      paths := t.paths.map resetLane }, true)
  else (t, false)

/-- `Path`: the lane exists, and its lease is renewed. -/
def path (t : Transport) (id remoteID : PathID) (rtt : Duration) (now : Time) :
    Transport × Except RejectionError Unit :=
  match t.checkTime now with
  | .error e => (t, .error e)
  | .ok t =>
    match t.find id with
    | some p => (t.setLane { p with lease := now }, .ok ())
    | none =>
      let rtt := if rtt ≤ 0 then 50 * millisecond else rtt
      let p := { Lane.new id remoteID rtt now with lease := now }
      ({ t with paths := t.paths ++ [p] }, .ok ())

def disable (t : Transport) (id : PathID) : Transport :=
  match t.find id with
  | some p => t.setLane { p with lease := 0 }
  | none => t

/-! ## Enqueue -/

/-- `discovering`: an up lane has not yet seen congestion. -/
def discovering (t : Transport) (now : Time) : Bool :=
  t.paths.any fun p => decide (p.liveness now = .live) && p.startup

def slowestRoundTrip (t : Transport) (now : Time) : Duration :=
  t.paths.foldl
    (fun slowest p =>
      if p.liveness now = .live then max slowest p.rtt else slowest) 0

def bulkQueueAge (t : Transport) (now : Time) : Duration :=
  if t.discovering now then discoveryQueueAge
  else min discoveryQueueAge
    (max maxBulkQueueAge (t.bulkAQM.target + t.bulkAQM.interval))

/-- An error of `Enqueue`: a rejected time, or a length that is no datagram's. -/
inductive EnqueueError where
  | time (rejection : RejectionError)
  | length (message : String)

/-- The bound of `Enqueue` on queued and pending packets. -/
def admissionLimit (c : Class) : ℕ :=
  if c = .bulk then maxPackets - smallPacketHeadroom else maxPackets

/-- Count a datagram refused for want of room. -/
def refuse (t : Transport) (c : Class) : Transport :=
  let t := { t with
    drops := t.drops + 1
    admissionDrops := t.admissionDrops + 1 }
  if c = .bulk then t
  else { t with
    interactiveDrops := t.interactiveDrops + 1
    smallQueueDrops := t.smallQueueDrops.modify c
      fun s => { s with admission := s.admission + 1 } }

/-- The packet that `Enqueue` creates. -/
def newPacket (t : Transport) (payload : Bytes) (metadata : PacketMetadata)
    (now : Time) : Packet :=
  let c := classify payload.length metadata
  { noPacket with
    flow := metadata.flow
    ack := metadata.ack
    cls := c
    interactive := decide (c ≠ .bulk)
    payload := payload
    created := now
    queueDeadline := if c = .bulk then now + t.bulkQueueAge now
      else now + maxQueueAge }

/-- Put a packet into the queue of its class. -/
def enterQueue (t : Transport) (p : Packet) : Transport :=
  let ref := t.allocated
  let t := { t with
    packets := Function.update t.packets ref p
    allocated := ref + 1 }
  if p.cls = .bulk then { t with queue := t.queue ++ [ref] }
  else
    let (coalesced, queue) := (t.small.get p.cls).push t.packets ref
    { t with
      small := t.small.set p.cls queue
      coalescedACKs := t.coalescedACKs + coalesced.toNat }

/-- `Enqueue`. -/
def enqueue (t : Transport) (payload : Bytes) (metadata : PacketMetadata)
    (now : Time) : Transport × Except EnqueueError Unit :=
  match t.checkTime now with
  | .error e => (t, .error (.time e))
  | .ok t =>
    if payload.length = 0 ∨ payload.length > maxDatagram then
      (t, .error (.length "bond: invalid datagram length"))
    else
      let c := classify payload.length metadata
      if t.queued + t.pending.entries.length ≥ admissionLimit c then
        (t.refuse c, .ok ())
      else (t.enterQueue (t.newPacket payload metadata now), .ok ())

end Transport

end Wanbond.Bond
