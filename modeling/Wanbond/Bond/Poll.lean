import Wanbond.Bond.Schedule

/-!
# Poll

`Poll` in the order of the source: acknowledgements, the service of each lane
(timeouts and keepalives), reservation, repairs, and the queues.

The source ranges over maps in an order that the runtime chooses.  Each call
takes that choice as a `MapOrder`, a permutation of the keys for each loop.
-/

namespace Wanbond.Bond

open Wanbond.Support

def ackShare : ℚ := 8 / 100

def ackStreak : ℕ := 3

def ackGapHorizon : Duration := 4 * maxACKInterval

def ackBatchPackets : ℕ := 64

/-- The loops over maps: timeouts in `Poll`; pending packets, attempts, the
arrived attempts and the confirmation of other lanes in `ack`. -/
inductive MapLoop where
  | expire | receipts | bitmap | arrived | confirm

/-- The order in which the loops of one call range over their keys. -/
structure MapOrder where
  keys : MapLoop → PathID → List ℕ → List ℕ
  perm : ∀ loop path l, (keys loop path l).Perm l

/-- Every loop takes the keys as they come. -/
def MapOrder.plain : MapOrder := ⟨fun _ _ l => l, fun _ _ l => List.Perm.refl l⟩

/-! ## Acknowledgements -/

/-- `ackIntervalFor` bounds acknowledgement bytes to a share of the bytes they
acknowledge. -/
def ackIntervalFor (received : ℚ) : Duration :=
  if received ≤ 0 then maxACKInterval
  else min maxACKInterval
    (max ackInterval (ofSeconds (ackWireBytes / (ackShare * received))))

/-- `ackDue`.  A long streak reads the rate of reception, which rotates it. -/
def Receiver.ackDue (r : Receiver) (now : Time) : Receiver × Bool :=
  if r.pending ≥ ackBatchPackets then (r, true)
  else if r.streak ≥ ackStreak then
    ({ r with received := r.received.rotate now },
      decide (now - r.ackAt ≥ ackIntervalFor (r.received.rate now)))
  else (r, decide (now - r.ackAt ≥ ackInterval))

namespace Transport

/-- The highest sequence of the acknowledgement's receipt bitmap.  While a
receipt is unreported the bitmap reaches down to the oldest one. -/
def receiptAnchor (t : Transport) : ℕ :=
  let oldest := t.unreported.oldest
  if oldest ≠ 0 then
    oldest + min (ackReceiptBits - 1) (t.received.high - oldest)
  else t.received.high

/-- The acknowledgement that `Poll` builds for a receiver. -/
def acknowledgementFor (t : Transport) (r : Receiver) (now : Time) :
    Acknowledgement where
  observed := t.remote
  high := r.receipts.high
  mask := r.receipts.mask.word 0
  bytes := r.bytes
  elapsed := (r.highAt - r.start).toNat
  delay := (now - r.highAt).toNat
  receivedHigh := t.receiptAnchor
  receivedMask := t.received.bitmap t.receiptAnchor

/-- The receiver after its acknowledgement. -/
def acknowledged (r : Receiver) (now : Time) : Receiver :=
  { r with
    streak := if now - r.ackAt < ackGapHorizon then r.streak + 1 else 0
    revision := r.revision + 1
    pending := 0
    ackAt := now }

/-- The lane's part in sending an acknowledgement. -/
def feedbackLane (path : Lane) (now : Time) : Lane :=
  { path with feedbackSent := path.feedbackSent.add now ackWireBytes }.pace now
    ackWireBytes

/-- Send an acknowledgement for the receiver `r` on `path`. -/
def sendAck (t : Transport) (now : Time) (r : Receiver) (path : Lane) :
    Transport × Transmission :=
  let a := t.acknowledgementFor r now
  let r := acknowledged r now
  let t := (t.setReceiver r).setLane (feedbackLane path now)
  ({ t with unreported := t.unreported.forgetThrough a.receivedHigh },
    ⟨r.path, ackFrame t.epoch r.remoteLane r.revision a⟩)

/-- One turn of the loop over the receivers. -/
def acknowledge (t : Transport) (now : Time) (lane : PathID) :
    Transport × List Transmission :=
  match t.receiver lane with
  | none => (t, [])
  | some r =>
    match t.find r.path with
    | none => (t, [])
    | some path =>
      if !path.up now then (t, [])
      else if r.pending > 0 ∨ t.unreported.oldest ≠ 0 then
        let (r, due) := r.ackDue now
        if due then
          let (t, ack) := t.sendAck now r path
          (t, [ack])
        else (t.setReceiver r, [])
      else (t, [])

/-! ## Service of the lanes -/

/-- A lane held low with a standing queue measures its floor again. -/
def rebase (path : Lane) (now : Time) : Lane :=
  if ¬now < path.nextBaseline ∧ path.queueDelay > targetQueue ∧
      path.rate ≤ max (11 / 10 * minimumRate) (path.peakDelivery / 2) then
    { path with
      drainUntil := now + max baselineDrain (2 * path.rtt)
      nextBaseline := now + baselineInterval
      baselinePending := true }
  else path

/-- A timeout returns the attempt's bytes to the window. -/
def timeOut (heap : PacketHeap) (now : Time) (path : Lane) (seq : ℕ)
    (a : Attempt) : Lane × Attempt :=
  if !a.released && decide (now - a.sent ≥ path.rto) then
    let released := { a with released := true }
    ((path.release heap a).putAttempt seq released, released)
  else (path, a)

/-- One turn of the loop over a lane's attempts.  Beyond the horizon the
attempt is forgotten. -/
def expireAttempt (heap : PacketHeap) (now : Time) (path : Lane) (seq : ℕ) :
    Lane :=
  match path.attempts.lookup seq with
  | none => path
  | some a =>
    let (path, a) := timeOut heap now path seq a
    if now - a.sent ≥ feedbackHorizon then
      (if a.released then path else path.release heap a).forget seq
    else path

def expireAttempts (heap : PacketHeap) (now : Time) (order : MapOrder)
    (path : Lane) : Lane :=
  (order.keys .expire path.id path.attempts.keys).foldl
    (expireAttempt heap now) path

def pingInterval (path : Lane) (now : Time) : Duration :=
  if path.liveness now = .dead then 50 * millisecond else 200 * millisecond

/-- One turn of the loop over the lanes. -/
def service (t : Transport) (now : Time) (order : MapOrder) (id : PathID) :
    Transport × List Transmission :=
  match t.find id with
  | none => (t, [])
  | some path =>
    let path := expireAttempts t.packets now order (rebase path now)
    if path.up now ∧ now - path.lastTransmit ≥ pingInterval path now then
      let path := path.recordKeepalive now
      (t.setLane path,
        [⟨path.id, dataFrame t.epoch t.remote path.id path.seq 0 Order.zero []⟩])
    else (t.setLane path, [])

/-! ## Repairs -/

/-- The lane to which a real-time datagram moves early, when the lane of its
only attempt is in doubt. -/
def movedLane (t : Transport) (now : Time) (p : Packet) : Option Lane :=
  if p.cls = .realtime ∧ p.attempts = 1 ∧
      (t.find p.lastPath).any (fun q => decide (q.liveness now ≠ .live)) then
    t.chooseLane now p.cls p.wireBytes p.lastPath true
  else none

/-- The lane for a repair.  The lane of the last attempt is avoided, and used
again only once it has shown that attempt missing. -/
def repairLane (t : Transport) (now : Time) (p : Packet) : Option Lane :=
  let previous := t.find p.lastPath
  match t.movedLane now p with
  | some path => some path
  | none =>
    let rto := (previous.map Lane.rto).getD minimumRTO
    if now - p.lastSent < rto ∨ p.attempts ≥ 4 then none
    else
      match t.chooseLane now .bulk p.wireBytes p.lastPath true with
      | some path => some path
      | none =>
        if previous.all fun q => q.passed p then
          t.chooseLane now .bulk p.wireBytes 0 false
        else none

/-- One turn of the loop over `pendingOrder`: the transport, what was sent, and
whether the packet is retained. -/
def repairTurn (t : Transport) (now : Time) (ref : PacketRef) :
    Transport × List Transmission × Bool :=
  let p := t.packets ref
  if p.acked then
    ({ t with pending := t.pending.erase p.seq }, [], false)
  else if now > p.repairDeadline then
    ({ t with
      pending := t.pending.erase p.seq
      expired := t.expired + 1 }, [], false)
  else
    match t.repairLane now p with
    | none => (t, [], true)
    | some path =>
      let (t, sent) := t.transmit now ref path
      (t, [sent], true)

/-- The loop over `pendingOrder`: the transport, what was sent, and the packets
retained. -/
def repairs (now : Time) :
    List PacketRef → Transport → Transport × List Transmission × List PacketRef
  | [], t => (t, [], [])
  | ref :: rest, t =>
    let (t, sent, kept) := t.repairTurn now ref
    let (t, sentRest, retained) := repairs now rest t
    (t, sent ++ sentRest, if kept then ref :: retained else retained)

def repair (t : Transport) (now : Time) : Transport × List Transmission :=
  let (t, sent, retained) := repairs now t.pendingOrder t
  ({ t with pendingOrder := retained }, sent)

/-! ## Poll -/

/-- The budget for copies since the last poll. -/
def refillTokens (t : Transport) (now : Time) : Transport :=
  let budget := t.copyBudget now
  { t with
    redundancyTokens := if t.lastPoll ≠ 0 then
      min (budget / 10) (t.redundancyTokens + seconds (now - t.lastPoll) * budget)
      else t.redundancyTokens
    lastPoll := now }

/-- Run a turn for every key, collecting what each sends. -/
def forEach {κ : Type} (turn : Transport → κ → Transport × List Transmission) :
    List κ → Transport → Transport × List Transmission
  | [], t => (t, [])
  | key :: rest, t =>
    let (t, sent) := turn t key
    let (t, sentRest) := forEach turn rest t
    (t, sent ++ sentRest)

/-- The part of `Poll` before the queues: acknowledgements, the service of the
lanes, reservation and repairs. -/
def maintain (t : Transport) (now : Time) (order : MapOrder) :
    Transport × List Transmission :=
  let t := t.refillTokens now
  let (t, acks) := forEach (fun t lane => t.acknowledge now lane)
    (t.receivers.map Receiver.remoteLane) t
  let (t, pings) := forEach (fun t id => t.service now order id)
    (t.paths.map fun p => p.id) t
  let t := t.reserve now
  let (t, repaired) := t.repair now
  (t, acks ++ pings ++ repaired)

/-- `Poll` once its time has been accepted. -/
def pollAt (t : Transport) (now : Time) (order : MapOrder) :
    Transport × List Transmission :=
  let (t, out) := t.maintain now order
  let (t, sent) := t.send now
  (t, out ++ sent)

/-- `Poll`. -/
def poll (t : Transport) (now : Time) (order : MapOrder) :
    Transport × Except RejectionError (List Transmission) :=
  match t.checkTime now with
  | .error e => (t, .error e)
  | .ok t =>
    let (t, out) := t.pollAt now order
    (t, .ok out)

end Transport

end Wanbond.Bond
