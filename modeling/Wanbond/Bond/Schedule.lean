import Wanbond.Bond.Transport

/-!
# Scheduling

`schedule.go` and `transmit`: the reservation of lane capacity for the small
classes, the choice of a lane for a datagram, and the loop that empties the
queues onto the lanes.
-/

namespace Wanbond.Bond

open Wanbond.Support

def priorityLead : Duration := 5 * millisecond

def smallClassShare : ℚ := 5 / 10

def reservationHeadroom : ℚ := 11 / 10

def redundancyRate : ℚ := 64000

def redundancyShare : ℚ := 2 / 10

def realtimeQueueTarget : Duration := 20 * millisecond

def realtimeQueueInterval : Duration := 100 * millisecond

def standingWait : Duration := 5 * millisecond

namespace Transport

/-! ## Reservation -/

/-- `PacingRate`. -/
def pacingRate (t : Transport) (now : Time) : ℚ :=
  ((t.paths.filter fun p => p.eligible .realtime now).map (·.rate)).sum

/-- `copyBudget`: the rate allowed for copies of real-time datagrams. -/
def copyBudget (t : Transport) (now : Time) : ℚ :=
  min redundancyRate (redundancyShare * t.pacingRate now)

/-- A lane under reservation, with the rate still free on it. -/
structure Slot where
  lane : Lane
  free : ℚ

/-- What a lane reserves for the class. -/
def Slot.share (c : Class) (s : Slot) : ℚ := s.lane.reserved.get c

/-- One turn of the search for the guarantor.  The loop carries the demand not
yet assigned to earlier lanes, of which `assignable` takes what the lane can
hold. -/
def guarantorTurn (now : Time) (c next : Class)
    (state : ℚ × Option (ℕ × ℚ)) (entry : Slot × ℕ) : ℚ × Option (ℕ × ℚ) :=
  let (need, best) := state
  let (slot, i) := entry
  let assignable := min need slot.free
  let room := slot.free - assignable
  let best :=
    if slot.lane.eligible next now then
      match best with
      | none => some (i, room)
      | some (j, most) => if room > most then some (i, room) else some (j, most)
    else best
  (if slot.lane.eligible c now then need - assignable else need, best)

/-- The lane with the most room left guarantees the class after `c`. -/
def guarantor (now : Time) (c next : Class) (need : ℚ) (slots : List Slot) :
    Option ℕ :=
  (slots.zipIdx.foldl (guarantorTurn now c next) (need, none)).2.map Prod.fst

/-- The minimum shares below class `c`: `classBulk - c`. -/
def classesBelow : Class → ℚ
  | .realtime => 2
  | .small => 1
  | .bulk => 0

/-- Assign the demand of class `c` to the lanes in order. -/
def assignClass (now : Time) (c : Class) (guarantor : Option ℕ)
    (bulkWaiting : Bool) : ℕ → ℚ → List Slot → List Slot
  | _, _, [] => []
  | i, need, slot :: rest =>
    let p := slot.lane
    if !p.eligible c now then
      slot :: assignClass now c guarantor bulkWaiting (i + 1) need rest
    else
      let room := if guarantor = some i then
        slot.free - classesBelow c * minimumClassShare * p.rate else slot.free
      let room := if c = .small ∧ bulkWaiting ∧ !p.realtimeLane then
        min room (smallClassShare * slot.free) else room
      let reserved := max 0 (min need room)
      { lane := { p with reserved := p.reserved.set c reserved }
        free := slot.free - reserved } ::
        assignClass now c guarantor bulkWaiting (i + 1) (need - reserved) rest

def guaranteeNext (next : Class) (guarantor : Option ℕ) (slots : List Slot) :
    List Slot :=
  match guarantor with
  | none => slots
  | some i => slots.modify i fun slot => { slot with
      lane := { slot.lane with
        guaranteed := slot.lane.guaranteed.set next true } }

def reserveClass (now : Time) (c next : Class) (demand : ℚ)
    (bulkWaiting : Bool) (slots : List Slot) : List Slot :=
  let need := reservationHeadroom * demand
  let g := guarantor now c next need slots
  guaranteeNext next g (assignClass now c g bulkWaiting 0 need slots)

/-- `reserveCopies`, which reads its budget from `copyBudget`. -/
def reserveCopies (budget : ℚ) (now : Time) (slots : List Slot) :
    List Slot :=
  let isSuspect (slot : Slot) : Bool :=
    decide (slot.lane.liveness now = .suspect)
  let originals := (slots.map (Slot.share .realtime)).sum
  let suspect := ((slots.filter isSuspect).map (Slot.share .realtime)).sum
  if originals = 0 ∨ slots.length < 2 then slots
  else
    let need := min budget originals
    slots.map fun slot =>
      let forced := if isSuspect slot then suspect - slot.share .realtime
        else suspect
      let copies := min slot.free
        (max forced (need * (1 - slot.share .realtime / originals)))
      { lane := { slot.lane with copies := copies }
        free := slot.free - copies }

/-- Lanes with real-time traffic give bulk up while another lane is quiet. -/
def markBulkElsewhere (now : Time) (slots : List Slot) : List Slot :=
  let quiet := slots.any fun slot =>
    slot.lane.eligible .bulk now && decide (slot.lane.reserved.realtime = 0)
  slots.map fun slot => { slot with
    lane := { slot.lane with
      bulkElsewhere := quiet && decide (slot.lane.reserved.realtime > 0) } }

def clearReservation (bulkWaiting : Bool) (p : Lane) : Lane :=
  { p with
    reserved := .const 0
    guaranteed := .const false
    shared := bulkWaiting
    copies := 0
    bulkElsewhere := false }

/-- The turns of `reserve` on the lanes in order of latency. -/
def reserveSlots (budget : ℚ) (now : Time) (realtime small : ℚ)
    (bulkWaiting : Bool) (slots : List Slot) : List Slot :=
  let slots := reserveClass now .realtime .small realtime bulkWaiting slots
  let slots := markBulkElsewhere now (reserveCopies budget now slots)
  reserveClass now .small .bulk small bulkWaiting slots

/-- `reserve`, with the budget for copies as a parameter. -/
def reserveWithin (t : Transport) (budget : ℚ) (now : Time) : Transport :=
  let bulkWaiting := decide (t.queue.length > 0)
  let t := { t with paths := t.paths.map (clearReservation bulkWaiting) }
  let lanes := (t.paths.filter fun p => p.eligible .realtime now).insertionSort
    fun a b => a.latency ≤ b.latency
  if lanes.isEmpty then t
  else
    let slots := reserveSlots budget now (t.demand.realtime.rate now)
      (t.demand.small.rate now) bulkWaiting (lanes.map fun p => ⟨p, p.rate⟩)
    let written (p : Lane) : Lane :=
      ((Keyed.lookup (fun slot : Slot => slot.lane.id) p.id slots).map
        Slot.lane).getD p
    { t with
      paths := t.paths.map written
      demand := { t.demand with
        realtime := t.demand.realtime.rotate now
        small := t.demand.small.rotate now } }

/-- `reserve` assigns the demand of the small classes to the lanes in order of
round trip.  The budget is read when the old reservations are cleared. -/
def reserve (t : Transport) (now : Time) : Transport :=
  let cleared := { t with
    paths := t.paths.map (clearReservation (decide (t.queue.length > 0))) }
  t.reserveWithin (copyBudget cleared now) now

/-! ## Choice of a lane -/

/-- The pacing lead of a class before a real-time datagram borrows a slot. -/
def classLead (c : Class) (contended : Bool) : Duration :=
  if c = .bulk ∧ !contended then 0 else priorityLead

/-- The slot a real-time datagram may borrow on the lane. -/
def borrowed (p : Lane) (size : ℕ) (alone avoid : Bool) : Duration :=
  let full := alone || decide (p.classInflight.bulk > 0) ||
    decide (p.classInflight.small > 0) || avoid && decide (p.copies > 0)
  let borrow := if full then fullDatagramWireBytes else size
  ofSeconds (borrow / p.rate)

/-- The window admits a datagram of the class. -/
def windowAdmits (p : Lane) (c : Class) (size : ℕ) : Bool :=
  let window := p.window
  if c = .realtime then
    !(decide (p.inflight > window) &&
      decide ((p.classInflight.get c : ℚ) >
        window * (p.reserved.get c + p.copies) / p.rate))
  else
    let allowed := p.allowed c
    !(decide (allowed = 0) || decide (p.inflight + size > max (size : ℤ) window) ||
      decide (p.classInflight.get c + size > p.classWindow c size window allowed))

/-- The pacing clocks admit a datagram of the class. -/
def paceAdmits (p : Lane) (now : Time) (c : Class) (size : ℕ)
    (contended alone avoid : Bool) : Bool :=
  let lead := classLead c contended
  let sendLead := if c = .realtime then lead + borrowed p size alone avoid
    else lead
  !(decide (p.classNext.get c > now + lead) ||
    decide (p.nextSend > now + sendLead))

/-- `chooseLane` considers the lane. -/
def considers (p : Lane) (now : Time) (c : Class) (exclude : PathID)
    (avoid : Bool) : Bool :=
  p.eligible c now && !(decide (now < p.drainUntil) && decide (c = .bulk)) &&
    !(avoid && decide (p.id = exclude)) &&
    !(decide (now < p.control.flushUntil) && decide (c ≠ .realtime))

/-- When a datagram sent now would arrive. -/
def arrival (p : Lane) (now : Time) : Duration :=
  max 0 (p.nextSend - now) + p.latency.tdiv 2

def earlier (now : Time) (best : Option Lane) (p : Lane) : Option Lane :=
  match best with
  | none => some p
  | some b => if arrival p now < arrival b now then some p else some b

/-- `chooseLane`: the lane on which a datagram of the class arrives first. -/
def chooseLane (t : Transport) (now : Time) (c : Class) (size : ℕ)
    (exclude : PathID) (avoid : Bool) : Option Lane :=
  let contended :=
    decide (t.small.realtime.count + t.small.small.count > 0)
  let alone := decide (c = .realtime) &&
    decide ((t.paths.filter fun p => p.up now).length = 1)
  (t.paths.filter fun p => considers p now c exclude avoid &&
    windowAdmits p c size && paceAdmits p now c size contended alone avoid).foldl
      (earlier now) none

end Transport

/-! ## Transmission -/

namespace Lane

/-- The lane's part of `transmit`. -/
def recordAttempt (path : Lane) (now : Time) (ref : PacketRef) (p : Packet) :
    Lane :=
  let size := p.wireBytes
  let path := path.beginAttempt now
  let path := { path with
    firstSent := if path.firstSent = 0 then now else path.firstSent
    attempts := path.attempts.insert path.seq
      ⟨some ref, now, size, false, false, path.sent + size⟩
    inflight := path.inflight + size
    classInflight := path.classInflight.modify p.cls (· + size)
    sent := path.sent + size
    interactiveSent := if p.interactive then path.interactiveSent + size
      else path.interactiveSent }
  let path := path.pace now size
  let allowed := path.allowed p.cls
  { path with
    classNext := if allowed > 0 then
      path.classNext.modify p.cls fun next =>
        maxTime next (now - 2 * millisecond) + ofSeconds (size / allowed)
      else path.classNext
    retries := if p.attempts > 0 then path.retries + 1 else path.retries
    lastTransmit := now
    lastPayload := now }

/-- The keepalive of `Poll`. -/
def recordKeepalive (path : Lane) (now : Time) : Lane :=
  let path := path.beginAttempt now
  let path := { path with
    lastTransmit := now
    firstSent := if path.firstSent = 0 then now else path.firstSent
    attempts := path.attempts.insert path.seq
      ⟨none, now, wireOverhead, false, false, path.sent + wireOverhead⟩
    inflight := path.inflight + wireOverhead
    sent := path.sent + wireOverhead }
  path.pace now wireOverhead

end Lane

namespace Transport

/-- The first transmission of a packet stamps it. -/
def stampPacket (t : Transport) (now : Time) (ref : PacketRef) : Transport :=
  let p := t.packets ref
  let t := { t with
    seq := t.seq + 1
    interactiveSeq := if p.interactive then t.interactiveSeq + 1
      else t.interactiveSeq
    bulkSeq := if p.interactive then t.bulkSeq else t.bulkSeq + 1 }
  let p := { p with
    repairDeadline := if p.interactive then p.created + maxPacketAge
      else now + maxPacketAge
    seq := t.seq
    order := if p.interactive then ⟨true, t.interactiveSeq⟩
      else ⟨false, t.bulkSeq⟩ }
  let t := t.setPacket ref p
  { t with pendingOrder := t.pendingOrder ++ [ref] }

/-- The counters of a first transmission. -/
def countOriginal (t : Transport) (now : Time) (ref : PacketRef)
    (path : PathID) : Transport :=
  let p := t.packets ref
  let t := if p.cls = .realtime then
    { t with
      realtimeMoves := if t.realtimePath.any (· ≠ path) then
        t.realtimeMoves + 1 else t.realtimeMoves
      realtimePath := some path } else t
  if p.cls = .bulk then t
  else { t with
    demand := t.demand.modify p.cls fun m => m.add now p.wireBytes }

/-- Count an original on its lane. -/
def countOnLane (c : Class) (path : Lane) : Lane :=
  { path with
    realtimeOriginals := if c = .realtime then path.realtimeOriginals + 1
      else path.realtimeOriginals
    bulkOriginals := if c = .bulk then path.bulkOriginals + 1
      else path.bulkOriginals }

/-- A transmission of a stamped packet. -/
def sendPacket (t : Transport) (now : Time) (ref : PacketRef) (path : Lane) :
    Transport × Transmission :=
  let p := t.packets ref
  let path := path.recordAttempt now ref p
  let t := t.setPacket ref { p with
    attempts := p.attempts + 1
    lastSent := now
    lastPath := path.id
    lastLaneSeq := path.seq }
  let t := t.setLane path
  ({ t with pending := t.pending.insert p.seq ref },
    ⟨path.id, dataFrame t.epoch t.remote path.id path.seq p.seq p.order
      p.payload⟩)

/-- `transmit`. -/
def transmit (t : Transport) (now : Time) (ref : PacketRef) (path : Lane) :
    Transport × Transmission :=
  if (t.packets ref).seq = 0 then
    ((t.countOriginal now ref path.id).stampPacket now ref).sendPacket now ref
      (countOnLane (t.packets ref).cls path)
  else t.sendPacket now ref path

/-! ## Emptying the queues -/

/-- `stale`: a waiting real-time datagram gives way to those behind it. -/
def stale (t : Transport) (now : Time) (head : Packet) : Transport × Bool :=
  if now - head.created ≤ realtimeQueueTarget then
    ({ t with realtimeLate := 0, realtimeSkipping := false }, false)
  else if t.realtimeSkipping then (t, true)
  else
    let late := if t.realtimeLate = 0 then now else t.realtimeLate
    let skipping := decide (now - late ≥ realtimeQueueInterval)
    ({ t with realtimeLate := late, realtimeSkipping := skipping }, skipping)

/-- `expired || c == classRealtime && t.stale(now, p)`: the datagram is given
up. -/
def givesUp (t : Transport) (now : Time) (c : Class) (p : Packet) :
    Transport × Bool :=
  if now > p.queueDeadline then (t, true)
  else if c = .realtime then t.stale now p
  else (t, false)

def popSmall (t : Transport) (c : Class) : Transport :=
  { t with small := t.small.modify c FairPacketQueue.pop }

/-- Count a small datagram dropped from its queue. -/
def dropSmall (t : Transport) (c : Class) (expired : Bool) : Transport :=
  { t with
    drops := t.drops + 1
    interactiveDrops := t.interactiveDrops + 1
    smallQueueDrops := t.smallQueueDrops.modify c fun s =>
      if expired then { s with deadline := s.deadline + 1 }
      else { s with stale := s.stale + 1 } }

/-- The copy of a real-time datagram on a second lane. -/
def sendCopy (t : Transport) (now : Time) (c : Class) (ref : PacketRef)
    (size : ℕ) (first : PathID) : Transport × List Transmission :=
  let forced :=
    (t.find first).any fun p => decide (p.liveness now = .suspect)
  if c = .realtime ∧ (forced ∨ t.redundancyTokens ≥ size) then
    match t.chooseLane now c size first true with
    | none => (t, [])
    | some second =>
      let t := if forced then t
        else { t with redundancyTokens := t.redundancyTokens - size }
      let (t, copy) := t.transmit now ref second
      (t, [copy])
  else (t, [])

/-- One turn of the loop over a small class: the transport, what was sent, and
whether the loop goes on. -/
def sendSmallTurn (t : Transport) (now : Time) (c : Class) (ref : PacketRef) :
    Transport × List Transmission × Bool :=
  let p := t.packets ref
  let (t, skipped) := t.givesUp now c p
  if skipped then
    ((t.popSmall c).dropSmall c (decide (now > p.queueDeadline)), [], true)
  else
    match t.chooseLane now c p.wireBytes 0 false with
    | none => (t, [], false)
    | some path =>
      let (t, original) := (t.popSmall c).transmit now ref path
      let (t, copies) := t.sendCopy now c ref p.wireBytes path.id
      (t, original :: copies, true)

/-- The loop over a small class.  Every turn that goes on pops a packet, so the
packets in the queue bound the turns. -/
def sendSmall (now : Time) (c : Class) :
    ℕ → Transport → Transport × List Transmission
  | 0, t => (t, [])
  | fuel + 1, t =>
    match (t.small.get c).peek with
    | none => (t, [])
    | some ref =>
      let (t, sent, more) := t.sendSmallTurn now c ref
      if more then
        let (t, rest) := sendSmall now c fuel t
        (t, sent ++ rest)
      else (t, sent)

/-- An empty real-time queue ends its backlog. -/
def endBacklog (t : Transport) : Transport :=
  if t.small.realtime.peek.isNone then
    { t with realtimeLate := 0, realtimeSkipping := false }
  else t

/-- A datagram leaves the bulk queue: the transport, and whether the queue
management discards it. -/
def popBulk (t : Transport) (now : Time) (p : Packet) (rest : List PacketRef) :
    Transport × Bool :=
  let t := { t with queue := rest }
  if t.discovering now then (t, false)
  else
    let (aqm, discard) := t.bulkAQM.drop now (now - p.created) rest.length
      (t.slowestRoundTrip now)
    ({ t with bulkAQM := aqm }, discard)

/-- One turn of the loop over the bulk queue. -/
def sendBulkTurn (t : Transport) (now : Time) (ref : PacketRef)
    (rest : List PacketRef) : Transport × List Transmission × Bool :=
  let p := t.packets ref
  if now > p.queueDeadline then
    ({ t with queue := rest, drops := t.drops + 1 }, [], true)
  else
    match t.chooseLane now .bulk p.wireBytes 0 false with
    | none => (t, [], false)
    | some path =>
      let (t, discard) := t.popBulk now p rest
      if discard then
        ({ t with drops := t.drops + 1, aqmDrops := t.aqmDrops + 1 }, [], true)
      else
        let (t, original) := t.transmit now ref path
        (t, [original], true)

/-- The loop over the bulk queue; the list is the queue. -/
def sendBulk (now : Time) :
    List PacketRef → Transport → Transport × List Transmission
  | [], t => (t, [])
  | ref :: queue, t =>
    let (t, sent, more) := t.sendBulkTurn now ref queue
    if more then
      let (t, rest) := sendBulk now queue t
      (t, sent ++ rest)
    else (t, sent)

/-- `send` empties the queues, the classes in order. -/
def send (t : Transport) (now : Time) : Transport × List Transmission :=
  let t := t.endBacklog
  let (t, realtime) := sendSmall now .realtime t.small.realtime.refs.length t
  let (t, small) := sendSmall now .small t.small.small.refs.length t
  let (t, bulk) := sendBulk now t.queue t
  (t, realtime ++ small ++ bulk)

/-- `laneLimited`: a queued datagram has waited for a lane. -/
def laneLimited (t : Transport) (now : Time) : Bool :=
  [t.small.realtime.peek, t.small.small.peek, t.queue.head?].any fun head =>
    head.any fun ref => decide (now - (t.packets ref).created ≥ standingWait)

end Transport

end Wanbond.Bond
