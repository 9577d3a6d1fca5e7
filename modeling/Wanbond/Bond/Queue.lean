import Wanbond.Bond.Wire

/-!
# Datagrams waiting for a lane

The traffic classes of `schedule.go` and the queues of `queue.go`: the ring of
flows that holds the small classes, and the CoDel drop schedule of the bulk
queue.

The source shares packets by pointer.  Here a packet is named by a
`PacketRef`, and its present contents are read from a heap of type
`PacketRef → Packet`.  The ring of flows is the list of its flows, read from
the head on.
-/

namespace Wanbond.Bond

/-! ## Traffic classes -/

inductive Class where
  | realtime | small | bulk
  deriving DecidableEq, Repr

/-- An array indexed by class.  The arrays of length `classBulk` leave the last
entry unused. -/
structure PerClass (α : Type) where
  realtime : α
  small : α
  bulk : α

namespace PerClass

variable {α : Type}

def const (x : α) : PerClass α := ⟨x, x, x⟩

def get (v : PerClass α) : Class → α
  | .realtime => v.realtime
  | .small => v.small
  | .bulk => v.bulk

def set (v : PerClass α) (c : Class) (x : α) : PerClass α :=
  match c with
  | .realtime => { v with realtime := x }
  | .small => { v with small := x }
  | .bulk => { v with bulk := x }

def modify (v : PerClass α) (c : Class) (f : α → α) : PerClass α :=
  v.set c (f (v.get c))

@[simp] theorem get_const (x : α) (c : Class) : (const x).get c = x := by
  cases c <;> rfl

@[simp] theorem get_set_self (v : PerClass α) (c : Class) (x : α) :
    (v.set c x).get c = x := by
  cases c <;> rfl

theorem get_set_ne (v : PerClass α) {c d : Class} (h : d ≠ c) (x : α) :
    (v.set c x).get d = v.get d := by
  cases c <;> cases d <;> first | rfl | exact absurd rfl h

end PerClass

abbrev FlowID := List.Vector UInt8 40

def FlowID.zero : FlowID := List.Vector.replicate 40 0

structure TCPACK where
  eligible : Bool
  sequence : BitVec 32
  acknowledgement : BitVec 32
  window : BitVec 16
  trafficClass : UInt8
  timestamp : Bool
  tsVal : BitVec 32
  tsEcr : BitVec 32

/-- A later cumulative acknowledgement of the same sender that makes an older
one redundant. -/
def TCPACK.supersedes (ack old : TCPACK) : Bool :=
  ack.eligible && old.eligible && ack.sequence == old.sequence &&
    ack.window != 0 && old.window != 0 &&
    ack.trafficClass == old.trafficClass &&
    decide ((ack.acknowledgement - old.acknowledgement).toInt > 0) &&
    ack.timestamp == old.timestamp &&
    (!ack.timestamp ||
      decide ((ack.tsVal - old.tsVal).toInt ≥ 0) &&
        decide ((ack.tsEcr - old.tsEcr).toInt ≥ 0))

structure PacketMetadata where
  flow : FlowID
  ack : TCPACK

def smallPacket : ℕ := 384

def ipProtocolTCP : UInt8 := 6

def classify (length : ℕ) (metadata : PacketMetadata) : Class :=
  if length > smallPacket then .bulk
  else if metadata.flow.get 1 = ipProtocolTCP ∨ metadata.ack.eligible then
    .small
  else .realtime

/-! ## Packets -/

abbrev PacketRef := ℕ

structure Packet where
  flow : FlowID
  ack : TCPACK
  seq : ℕ
  order : Order
  cls : Class
  interactive : Bool
  payload : Bytes
  created : Time
  queueDeadline : Time
  repairDeadline : Time
  lastSent : Time
  lastPath : PathID
  lastLaneSeq : ℕ
  attempts : ℕ
  acked : Bool

/-- Bytes of a transmission of the packet. -/
def Packet.wireBytes (p : Packet) : ℕ := p.payload.length + wireOverhead

abbrev PacketHeap := PacketRef → Packet

/-! ## The ring of flows -/

structure PacketFlow where
  id : FlowID
  packets : List PacketRef

/-- `fairPacketQueue`, with the ring unrolled from its head. -/
structure FairPacketQueue where
  flows : List PacketFlow
  count : ℕ

namespace FairPacketQueue

def empty : FairPacketQueue := ⟨[], 0⟩

/-- The middle of three strictly advancing acknowledgements is redundant. -/
def coalesces (heap : PacketHeap) (p : Packet) (packets : List PacketRef) :
    Bool :=
  match packets.reverse with
  | last :: previous :: _ =>
    p.flow != FlowID.zero &&
      ((heap last).ack.supersedes (heap previous).ack &&
        p.ack.supersedes (heap last).ack)
  | _ => false

/-- The packets of the flow `id`, or none when the ring has no such flow. -/
def flowPackets (q : FairPacketQueue) (id : FlowID) : List PacketRef :=
  match q.flows.find? (fun flow => decide (flow.id = id)) with
  | some flow => flow.packets
  | none => []

/-- Replace the packets of the flow `id`. -/
def setFlow (id : FlowID) (packets : List PacketRef) :
    List PacketFlow → List PacketFlow
  | [] => []
  | flow :: rest =>
    if flow.id = id then { flow with packets := packets } :: rest
    else flow :: setFlow id packets rest

/-- `push`: whether the packet replaced the last of its flow, and the queue. -/
def push (heap : PacketHeap) (q : FairPacketQueue) (ref : PacketRef) :
    Bool × FairPacketQueue :=
  let p := heap ref
  let flows :=
    if q.flows.any (fun flow => decide (flow.id = p.flow)) then q.flows
    else q.flows ++ [⟨p.flow, []⟩]
  let packets := q.flowPackets p.flow
  if coalesces heap p packets then
    (true, { q with
      flows := setFlow p.flow (packets.dropLast ++ [ref]) flows })
  else
    (false,
      { flows := setFlow p.flow (packets ++ [ref]) flows
        count := q.count + 1 })

def peek (q : FairPacketQueue) : Option PacketRef :=
  match q.flows with
  | [] => none
  | flow :: _ => flow.packets.head?

def pop (q : FairPacketQueue) : FairPacketQueue :=
  match q.flows with
  | [] => q
  | flow :: rest =>
    let packets := flow.packets.tail
    { flows := if packets.isEmpty then rest
        else rest ++ [{ flow with packets := packets }]
      count := q.count - 1 }

/-- Every packet in the queue. -/
def refs (q : FairPacketQueue) : List PacketRef :=
  q.flows.flatMap PacketFlow.packets

end FairPacketQueue

/-! ## The drop schedule of the bulk queue -/

def codelMinTarget : Duration := 10 * millisecond

def codelMaxTarget : Duration := 100 * millisecond

def codelMinInterval : Duration := 100 * millisecond

structure Codel where
  target : Duration
  interval : Duration
  firstAbove : Time
  dropNext : Time
  count : ℕ
  lastCount : ℕ
  dropping : Bool

namespace Codel

def zero : Codel := ⟨0, 0, 0, 0, 0, 0, false⟩

def okToDrop (c : Codel) (now : Time) (sojourn : Duration) (remaining : ℕ) :
    Codel × Bool :=
  if sojourn < c.target ∨ remaining = 0 then
    ({ c with firstAbove := 0 }, false)
  else if c.firstAbove = 0 then
    ({ c with firstAbove := now + c.interval }, false)
  else (c, decide (¬now < c.firstAbove))

/-- `interval / sqrt(count)`, truncated to nanoseconds. -/
def controlLaw (c : Codel) (t : Time) : Time :=
  t + Nat.sqrt (c.interval.toNat ^ 2 / c.count)

/-- `drop`, the drops spaced by `law`: the schedule afterwards, and whether to
discard the packet. -/
def dropWith (law : Codel → Time → Time) (c : Codel) (now : Time)
    (sojourn : Duration) (remaining : ℕ) (roundTrip : Duration) :
    Codel × Bool :=
  let target := min codelMaxTarget (max codelMinTarget roundTrip)
  let c := { c with
    target := target
    interval := max codelMinInterval (2 * (roundTrip + target)) }
  let (c, ok) := c.okToDrop now sojourn remaining
  if c.dropping then
    if !ok then ({ c with dropping := false }, false)
    else if now < c.dropNext then (c, false)
    else
      let c := { c with count := c.count + 1 }
      ({ c with dropNext := law c c.dropNext }, true)
  else if !ok then (c, false)
  else
    let delta : ℤ := c.count - c.lastCount
    let count := if delta > 1 ∧ now - c.dropNext < 16 * c.interval then
      delta.toNat else 1
    let c := { c with dropping := true, count := count, lastCount := count }
    ({ c with dropNext := law c now }, true)

/-- `drop`: the drops are spaced by `controlLaw`. -/
def drop : Codel → Time → Duration → ℕ → Duration → Codel × Bool :=
  dropWith controlLaw

/-! ### Drops on a standing queue -/

/-- The arguments of one call of `drop`. -/
structure DropCall where
  now : Time
  sojourn : Duration
  remaining : ℕ
  roundTrip : Duration

namespace DropCall

/-- The target in force at the call. -/
def target (x : DropCall) : Duration :=
  min codelMaxTarget (max codelMinTarget x.roundTrip)

/-- The interval in force at the call. -/
def interval (x : DropCall) : Duration :=
  max codelMinInterval (2 * (x.roundTrip + x.target))

/-- The call sees a queue that stands. -/
def Standing (x : DropCall) : Prop :=
  x.target ≤ x.sojourn ∧ x.remaining ≠ 0

end DropCall

/-- One call of `drop`. -/
def step (law : Codel → Time → Time) (c : Codel) (x : DropCall) : Codel × Bool :=
  c.dropWith law x.now x.sojourn x.remaining x.roundTrip

/-- The schedule after the calls. -/
def run (law : Codel → Time → Time) (calls : List DropCall) : Codel :=
  calls.foldl (fun c x => (c.step law x).1) zero

variable (law : Codel → Time → Time)

/-- What a call does to `firstAbove`, and when it may drop. -/
theorem step_cases (c : Codel) (x : DropCall) :
    (¬x.Standing ∧ (c.step law x).1.firstAbove = 0 ∧
      (c.step law x).2 = false) ∨
    (x.Standing ∧ c.firstAbove = 0 ∧
      (c.step law x).1.firstAbove = x.now + x.interval ∧
      (c.step law x).2 = false) ∨
    (x.Standing ∧ c.firstAbove ≠ 0 ∧
      (c.step law x).1.firstAbove = c.firstAbove ∧
      ((c.step law x).2 = true → c.firstAbove ≤ x.now)) := by
  unfold step dropWith okToDrop DropCall.Standing
  by_cases hlow : x.sojourn < x.target ∨ x.remaining = 0
  · refine Or.inl ⟨fun h => hlow.elim h.1.not_gt h.2, ?_⟩
    rw [DropCall.target] at hlow
    simp only [hlow, if_true]
    cases c.dropping <;> exact ⟨rfl, rfl⟩
  have hstanding : x.target ≤ x.sojourn ∧ x.remaining ≠ 0 := by
    simpa using hlow
  rw [DropCall.target] at hlow
  simp only [hlow, if_false]
  refine Or.inr ?_
  by_cases hzero : c.firstAbove = 0
  · refine Or.inl ⟨hstanding, hzero, ?_⟩
    simp only [hzero, if_true]
    cases c.dropping <;> exact ⟨rfl, rfl⟩
  refine Or.inr ⟨hstanding, hzero, ?_⟩
  simp only [hzero, if_false]
  by_cases hnow : x.now < c.firstAbove
  · cases c.dropping <;> simp [hnow]
  refine ⟨?_, fun _ => not_lt.mp hnow⟩
  split
  · split
    · rfl
    · split <;> rfl
  · split <;> rfl

/-- `firstAbove` was set by a call since which the queue has stood. -/
theorem exists_standing (calls : List DropCall)
    (h : (run law calls).firstAbove ≠ 0) :
    ∃ before first after, calls = before ++ first :: after ∧
      (run law calls).firstAbove = first.now + first.interval ∧
      ∀ x ∈ first :: after, x.Standing := by
  induction calls using List.reverseRecOn with
  | nil => exact absurd rfl h
  | append_singleton calls x ih =>
    have hrun : run law (calls ++ [x]) = ((run law calls).step law x).1 :=
      List.foldl_append
    rw [hrun] at h ⊢
    rcases step_cases law (run law calls) x with
      ⟨-, hnone, -⟩ | ⟨hx, -, hset, -⟩ | ⟨hx, hsome, hkept, -⟩
    · exact absurd hnone h
    · refine ⟨calls, x, [], rfl, hset, fun y hy => ?_⟩
      rwa [List.mem_singleton.mp hy]
    obtain ⟨before, first, after, rfl, hfirst, hall⟩ := ih hsome
    refine ⟨before, first, after ++ [x], by simp, hkept.trans hfirst, ?_⟩
    intro y hy
    rcases List.mem_cons.mp hy with rfl | hy
    · exact hall y List.mem_cons_self
    · rcases List.mem_append.mp hy with hy | hy
      · exact hall y (List.mem_cons_of_mem _ hy)
      · rwa [List.mem_singleton.mp hy]

/-- A drop needs a queue that has stood for the interval of an earlier call,
and a full interval after every call that saw no standing queue. -/
theorem codel_drops_on_standing_queue (calls : List DropCall) (x : DropCall)
    (htimes : (calls ++ [x]).Pairwise fun a b => a.now ≤ b.now)
    (hdrop : ((run law calls).step law x).2 = true) :
    (∃ before first after, calls = before ++ first :: after ∧
      first.now + first.interval ≤ x.now ∧
      ∀ y ∈ first :: after ++ [x], y.Standing) ∧
    ∀ early low late, calls = early ++ low :: late → ¬low.Standing →
      ∃ first ∈ late, low.now ≤ first.now ∧
        first.now + first.interval ≤ x.now := by
  have hpast : (run law calls).firstAbove ≠ 0 ∧ x.Standing ∧
      (run law calls).firstAbove ≤ x.now := by
    rcases step_cases law (run law calls) x with
      ⟨-, -, hkept⟩ | ⟨-, -, -, hkept⟩ | ⟨hx, hsome, -, hpast⟩
    · rw [hkept] at hdrop
      cases hdrop
    · rw [hkept] at hdrop
      cases hdrop
    · exact ⟨hsome, hx, hpast hdrop⟩
  obtain ⟨hsome, hx, hpast⟩ := hpast
  obtain ⟨before, first, after, heq, hfirst, hall⟩ :=
    exists_standing law calls hsome
  rw [hfirst] at hpast
  refine ⟨⟨before, first, after, heq, hpast, ?_⟩, ?_⟩
  · intro y hy
    rcases List.mem_append.mp hy with hy | hy
    · exact hall y hy
    · rwa [List.mem_singleton.mp hy]
  intro early low late hsplit hlow
  -- the standing part lies within what follows the low call
  have hlate : first :: after <:+ late := by
    have hsuffix : first :: after <:+ calls := ⟨before, heq.symm⟩
    rw [hsplit] at hsuffix
    rcases List.suffix_or_suffix_of_suffix hsuffix ⟨early, rfl⟩ with h | h
    · rcases List.suffix_cons_iff.mp h with h | h
      · exact absurd (hall low (h ▸ List.mem_cons_self)) hlow
      · exact h
    · exact absurd (hall low (h.subset List.mem_cons_self)) hlow
  have hmem : first ∈ late := hlate.subset List.mem_cons_self
  refine ⟨first, hmem, ?_, hpast⟩
  rw [hsplit, List.append_assoc] at htimes
  have hcons := (List.pairwise_append.mp htimes).2.1
  exact List.rel_of_pairwise_cons hcons (List.mem_append_left _ hmem)

/-- A call every 60 ms, each of which sees a queue of 50 ms. -/
def standingCalls (n : ℕ) : DropCall :=
  ⟨second + n * (60 * millisecond), 50 * millisecond, 1, 20 * millisecond⟩

theorem codel_drops_on_standing_queue_third :
    ∃ first ∈ [standingCalls 0, standingCalls 1],
      first.now + first.interval ≤ (standingCalls 2).now := by
  obtain ⟨before, first, after, heq, hpast, -⟩ :=
    (codel_drops_on_standing_queue controlLaw
      [standingCalls 0, standingCalls 1] (standingCalls 2) (by decide)
      (by decide)).1
  refine ⟨first, ?_, hpast⟩
  rw [heq]
  simp

end Codel

end Wanbond.Bond
