import Wanbond.Bond.CallInvariant
import Wanbond.Support.Tally
import Wanbond.Support.Trace

/-!
# The books of a transport

What the accounts of a transport are about: its packets, its queues and
counters, and the cores of its lanes.  The estimators and the scheduler's
clocks are not part of the books, so that a call acts on them as a sequence of
few kinds of moves: a datagram leaves a queue, a frame is recorded on a lane, a
packet is given up, an attempt is released or confirmed.
-/

namespace Wanbond.Bond

open Wanbond.Support

/-! ## Lanes -/

namespace LaneCore

/-- The attempt's bytes return to the window. -/
def release (c : LaneCore) (heap : PacketHeap) (a : Attempt) : LaneCore :=
  let c := { c with inflight := c.inflight - a.bytes }
  match a.packet with
  | none => c
  | some ref => { c with
      classInflight := c.classInflight.modify (heap ref).cls (· - a.bytes) }

/-- Release an attempt that is not released yet. -/
def clear (c : LaneCore) (heap : PacketHeap) (a : Attempt) : LaneCore :=
  if a.released then c else c.release heap a

def put (c : LaneCore) (k : ℕ) (a : Attempt) : LaneCore :=
  { c with attempts := c.attempts.insert k a }

def forget (c : LaneCore) (k : ℕ) : LaneCore :=
  { c with attempts := c.attempts.erase k }

/-- Credit the bytes of a confirmed attempt. -/
def credit (c : LaneCore) (a : Attempt) : LaneCore :=
  { c with acked := c.acked + a.bytes }

/-- Record one more transmission. -/
def attempt (c : LaneCore) (heap : PacketHeap) (packet : Option PacketRef)
    (now : Time) (bytes : ℕ) : LaneCore :=
  { c with
    toLaneWire := c.toLaneWire.attempted packet now bytes
    inflight := c.inflight + bytes
    classInflight := match packet with
      | none => c.classInflight
      | some ref => c.classInflight.modify (heap ref).cls (· + bytes) }

/-- The accounts of a lane and its attempts, without what its feedback says. -/
structure SameAccounts (c c' : LaneCore) : Prop where
  seq : c'.seq = c.seq
  sent : c'.sent = c.sent
  attempts : c'.attempts = c.attempts
  inflight : c'.inflight = c.inflight
  classInflight : c'.classInflight = c.classInflight
  acked : c'.acked = c.acked

end LaneCore

/-! ## Packets -/

namespace Packet

/-- The packet with the numbers of its first transmission. -/
def stamp (p : Packet) (now : Time) (seq : ℕ) (order : Order) : Packet :=
  { p with
    repairDeadline := if p.interactive then p.created + maxPacketAge
      else now + maxPacketAge
    seq := seq
    order := order }

/-- The packet after one more transmission. -/
def transmitted (p : Packet) (now : Time) (id : PathID) (k : ℕ) : Packet :=
  { p with
    attempts := p.attempts + 1
    lastSent := now
    lastPath := id
    lastLaneSeq := k }

end Packet

/-! ## Books -/

namespace Stock

def queued (k : Stock) : ℕ :=
  k.queue.length + k.small.realtime.count + k.small.small.count

/-- Every packet that waits for its first transmission. -/
def waiting (k : Stock) : Multiset PacketRef :=
  (k.queue : Multiset PacketRef) + k.small.realtime.refs + k.small.small.refs

end Stock

structure Books extends Outbound, Stock where
  lanes : PathID → Option LaneCore
  ids : List PathID

theorem Books.eq_of_parts {b b' : Books} (hout : b.toOutbound = b'.toOutbound)
    (hstock : b.toStock = b'.toStock) (hlanes : b.lanes = b'.lanes)
    (hids : b.ids = b'.ids) : b = b' := by
  obtain ⟨o, k, lanes, ids⟩ := b
  obtain ⟨o', k', lanes', ids'⟩ := b'
  cases hout
  cases hstock
  cases hlanes
  cases hids
  rfl

/-- The books that a transport keeps. -/
def Transport.books (t : Transport) : Books where
  toOutbound := t.toOutbound
  toStock := t.toStock
  lanes := t.core
  ids := t.paths.map fun p => p.id

namespace Books

def setLane (b : Books) (id : PathID) (c : LaneCore) : Books :=
  { b with lanes := Function.update b.lanes id (some c) }

def setPacket (b : Books) (ref : PacketRef) (p : Packet) : Books :=
  { b with packets := Function.update b.packets ref p }

/-! ### Queues -/

def popSmall (b : Books) (c : Class) : Books :=
  { b with small := b.small.modify c FairPacketQueue.pop }

/-- Count a small datagram given up in its queue. -/
def dropSmall (b : Books) (c : Class) (expired : Bool) : Books :=
  { b with
    drops := b.drops + 1
    interactiveDrops := b.interactiveDrops + 1
    smallQueueDrops := b.smallQueueDrops.modify c fun s =>
      if expired then { s with deadline := s.deadline + 1 }
      else { s with stale := s.stale + 1 } }

/-! ### Transmissions -/

/-- The first transmission gives a packet its numbers. -/
def stamp (b : Books) (now : Time) (ref : PacketRef) : Books :=
  let p := b.packets ref
  let i := if p.interactive then b.interactiveSeq + 1 else b.interactiveSeq
  let j := if p.interactive then b.bulkSeq else b.bulkSeq + 1
  { b with
    packets := Function.update b.packets ref (p.stamp now (b.seq + 1)
      (if p.interactive then ⟨true, i⟩ else ⟨false, j⟩))
    pendingOrder := b.pendingOrder ++ [ref]
    seq := b.seq + 1
    interactiveSeq := i
    bulkSeq := j }

/-- A transmission of a stamped packet on the lane `id`. -/
def send (b : Books) (now : Time) (ref : PacketRef) (id : PathID)
    (c : LaneCore) : Books :=
  let p := b.packets ref
  let c := c.attempt b.packets (some ref) now p.wireBytes
  { b.setLane id c with
    packets := Function.update b.packets ref (p.transmitted now id c.seq)
    pending := b.pending.insert p.seq ref }

/-! ### Acknowledgements -/

def ackPacket (b : Books) (ref : PacketRef) : Books :=
  b.setPacket ref { b.packets ref with acked := true }

/-- An attempt's packet is acknowledged and no longer pending. -/
def settlePacket (b : Books) (packet : Option PacketRef) : Books :=
  match packet with
  | none => b
  | some ref => { b.ackPacket ref with
      pending := b.pending.erase (b.packets ref).seq }

theorem settlePacket_lanes (b : Books) (packet : Option PacketRef) :
    (b.settlePacket packet).lanes = b.lanes := by
  cases packet <;> rfl

end Books

/-! ## Moves -/

/-- The moves of `Poll`. -/
inductive PollMove (now : Time) : Books → Books → Prop
  | dropSmall {b : Books} {c : Class} {ref : PacketRef} (expired : Bool)
      (hc : c ≠ .bulk) (hpeek : (b.small.get c).peek = some ref) :
      PollMove now b ((b.popSmall c).dropSmall c expired)
  | dropLate {b : Books} {ref : PacketRef} {rest : List PacketRef}
      (hqueue : b.queue = ref :: rest)
      (hlate : now > (b.packets ref).queueDeadline) :
      PollMove now b { b with queue := rest, drops := b.drops + 1 }
  | dropManaged {b : Books} {ref : PacketRef} {rest : List PacketRef}
      (hqueue : b.queue = ref :: rest)
      (hlate : ¬now > (b.packets ref).queueDeadline) :
      PollMove now b { b with
        queue := rest
        drops := b.drops + 1
        aqmDrops := b.aqmDrops + 1 }
  | firstSmall {b : Books} {c : Class} {ref : PacketRef} {id : PathID}
      {lane : LaneCore} (hc : c ≠ .bulk)
      (hpeek : (b.small.get c).peek = some ref)
      (hlate : ¬now > (b.packets ref).queueDeadline)
      (hlane : b.lanes id = some lane) :
      PollMove now b (((b.popSmall c).stamp now ref).send now ref id lane)
  | firstBulk {b : Books} {ref : PacketRef} {rest : List PacketRef}
      {id : PathID} {lane : LaneCore} (hqueue : b.queue = ref :: rest)
      (hlate : ¬now > (b.packets ref).queueDeadline)
      (hlane : b.lanes id = some lane) :
      PollMove now b
        ((({ b with queue := rest } : Books).stamp now ref).send now ref id lane)
  | again {b : Books} {ref : PacketRef} {id : PathID} {lane : LaneCore}
      (href : ref ∈ b.pendingOrder) (hacked : (b.packets ref).acked = false)
      (hlane : b.lanes id = some lane) :
      PollMove now b (b.send now ref id lane)
  | settled {b : Books} {l₁ l₂ : List PacketRef} {ref : PacketRef}
      (horder : b.pendingOrder = l₁ ++ ref :: l₂)
      (hacked : (b.packets ref).acked = true) :
      PollMove now b { b with
        pending := b.pending.erase (b.packets ref).seq
        pendingOrder := l₁ ++ l₂ }
  | expire {b : Books} {l₁ l₂ : List PacketRef} {ref : PacketRef}
      (horder : b.pendingOrder = l₁ ++ ref :: l₂)
      (hacked : (b.packets ref).acked = false)
      (hlate : now > (b.packets ref).repairDeadline) :
      PollMove now b { b with
        pending := b.pending.erase (b.packets ref).seq
        pendingOrder := l₁ ++ l₂
        expired := b.expired + 1 }
  | keepalive {b : Books} {id : PathID} {lane : LaneCore}
      (hlane : b.lanes id = some lane) :
      PollMove now b
        (b.setLane id (lane.attempt b.packets none now wireOverhead))
  | timeOut {b : Books} {id : PathID} {lane : LaneCore} {k : ℕ} {a : Attempt}
      (hlane : b.lanes id = some lane) (ha : lane.attempts.lookup k = some a)
      (hreleased : a.released = false) :
      PollMove now b (b.setLane id
        ((lane.release b.packets a).put k { a with released := true }))
  | forget {b : Books} {id : PathID} {lane : LaneCore} {k : ℕ} {a : Attempt}
      (hlane : b.lanes id = some lane) (ha : lane.attempts.lookup k = some a) :
      PollMove now b (b.setLane id ((lane.clear b.packets a).forget k))

/-- The moves of `Receive`. -/
inductive ReceiveMove : Books → Books → Prop
  | note {b : Books} {id : PathID} {lane lane' : LaneCore}
      (hlane : b.lanes id = some lane) (hsame : lane.SameAccounts lane')
      (hlease : lane'.lease = lane.lease) :
      ReceiveMove b (b.setLane id lane')
  | receipt {b : Books} {q : ℕ} {ref : PacketRef}
      (hpending : b.pending.lookup q = some ref) :
      ReceiveMove b { b.ackPacket ref with pending := b.pending.erase q }
  | confirm {b : Books} {id : PathID} {lane : LaneCore} {k : ℕ} {a : Attempt}
      (hlane : b.lanes id = some lane) (ha : lane.attempts.lookup k = some a) :
      ReceiveMove b ((b.setLane id
        (((lane.clear b.packets a).credit a).forget k)).settlePacket a.packet)
  | forget {b : Books} {id : PathID} {lane : LaneCore} {k : ℕ} {a : Attempt}
      (hlane : b.lanes id = some lane) (ha : lane.attempts.lookup k = some a) :
      ReceiveMove b (b.setLane id ((lane.clear b.packets a).forget k))
  | mark {b : Books} {id : PathID} {lane : LaneCore} {k : ℕ} {a : Attempt}
      {ref : PacketRef} (hlane : b.lanes id = some lane)
      (ha : lane.attempts.lookup k = some a) (hpacket : a.packet = some ref)
      (hacked : (b.packets ref).acked = true ∨
        b.pending.lookup (b.packets ref).seq = none) :
      ReceiveMove b ((b.setLane id ((lane.clear b.packets a).put k
        { a with released := true, confirmed := true })).ackPacket ref)

end Wanbond.Bond
