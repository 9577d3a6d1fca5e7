import Mathlib.Data.List.AList
import Wanbond.Bond.Queue
import Wanbond.Support.LinkedRing

/-!
# The linked ring of flows

`fairPacketQueue` as the source has it: flows in a doubly linked ring, a map
from flow identifiers to the nodes of the ring, and a pointer to the flow whose
turn it is.  The ring represents the rotating list of flows with which the
transport is modelled.
-/

namespace Wanbond.Bond

open Wanbond.Support

/-- A pointer to a `packetFlow`. -/
abbrev FlowRef := ℕ

/-- `fairPacketQueue`: the contents of the nodes, their pointers, the map, the
head of the ring and the count. -/
structure LinkedQueue where
  nodes : FlowRef → PacketFlow
  links : Links FlowRef
  allocated : ℕ
  flows : AList fun _ : FlowID => FlowRef
  head : Option FlowRef
  count : ℕ

namespace LinkedQueue

def empty : LinkedQueue :=
  ⟨fun _ => ⟨FlowID.zero, []⟩, ⟨id, id⟩, 0, ∅, none, 0⟩

def setPackets (q : LinkedQueue) (flow : FlowRef) (packets : List PacketRef) :
    LinkedQueue :=
  { q with
    nodes := Function.update q.nodes flow
      ⟨(q.nodes flow).id, packets⟩ }

/-- A new flow, before the head of the ring. -/
def addFlow (q : LinkedQueue) (id : FlowID) : LinkedQueue × FlowRef :=
  let flow := q.allocated
  let q := { q with
    nodes := Function.update q.nodes flow ⟨id, []⟩
    allocated := flow + 1
    flows := q.flows.insert id flow }
  match q.head with
  | none =>
    ({ q with
      links := (q.links.setNext flow flow).setPrevious flow flow
      head := some flow }, flow)
  | some head =>
    let links := (q.links.setNext flow head).setPrevious flow
      (q.links.previous head)
    let links := links.setNext (links.previous head) flow
    let links := links.setPrevious head flow
    ({ q with links := links }, flow)

/-- The second half of `push`, on the flow of the packet. -/
def enqueue (heap : PacketHeap) (q : LinkedQueue) (flow : FlowRef)
    (ref : PacketRef) : Bool × LinkedQueue :=
  let packets := (q.nodes flow).packets
  if FairPacketQueue.coalesces heap (heap ref) packets then
    (true, q.setPackets flow (packets.dropLast ++ [ref]))
  else
    (false, { q.setPackets flow (packets ++ [ref]) with count := q.count + 1 })

/-- `push`: whether the packet replaced the last of its flow, and the queue. -/
def push (heap : PacketHeap) (q : LinkedQueue) (ref : PacketRef) :
    Bool × LinkedQueue :=
  match q.flows.lookup (heap ref).flow with
  | some flow => q.enqueue heap flow ref
  | none =>
    let (q, flow) := q.addFlow (heap ref).flow
    q.enqueue heap flow ref

def peek (q : LinkedQueue) : Option PacketRef :=
  match q.head with
  | none => none
  | some flow => (q.nodes flow).packets.head?

/-- `pop`, which must not be called on an empty queue. -/
def pop (q : LinkedQueue) : Option LinkedQueue :=
  match q.head with
  | none => none
  | some flow =>
    let q := q.setPackets flow (q.nodes flow).packets.tail
    let q := { q with count := q.count - 1, head := some (q.links.next flow) }
    if (q.nodes flow).packets.isEmpty then
      let q := { q with flows := q.flows.erase (q.nodes flow).id }
      if q.links.next flow = flow then some { q with head := none }
      else
        let links := q.links.setNext (q.links.previous flow)
          (q.links.next flow)
        let links := links.setPrevious (links.next flow) (links.previous flow)
        some { q with links := links }
    else some q

/-- The flow whose turn it is. -/
def headFlow (q : LinkedQueue) : Option FlowID :=
  q.head.map fun flow => (q.nodes flow).id

/-- The packets of a flow, found through the map. -/
def packetsOf (q : LinkedQueue) (id : FlowID) : List PacketRef :=
  match q.flows.lookup id with
  | none => []
  | some flow => (q.nodes flow).packets

end LinkedQueue

/-! ## The ring represents a list of flows -/

/-- The nodes `ring`, read from the head on, carry the flows of the list, and
the map finds each of them. -/
structure LinkedQueue.Represents (q : LinkedQueue) (ring : List FlowRef)
    (a : FairPacketQueue) : Prop where
  circle : q.links.Circle ring
  head : q.head = ring.head?
  flows : a.flows = ring.map q.nodes
  index : ∀ id flow, q.flows.lookup id = some flow ↔
    flow ∈ ring ∧ (q.nodes flow).id = id
  count : a.count = q.count
  below : ∀ flow ∈ ring, flow < q.allocated

section Lists

variable {nodes : FlowRef → PacketFlow} {ring : List FlowRef} {flow : FlowRef}

/-- Distinct nodes carry distinct flows. -/
def Distinct (nodes : FlowRef → PacketFlow) (ring : List FlowRef) : Prop :=
  ∀ f ∈ ring, ∀ g ∈ ring, (nodes f).id = (nodes g).id → f = g

theorem Distinct.tail (h : Distinct nodes (flow :: ring)) :
    Distinct nodes ring :=
  fun f hf g hg => h f (List.mem_cons_of_mem _ hf) g (List.mem_cons_of_mem _ hg)

/-- A flow keeps its identifier when its packets change. -/
theorem id_update (nodes : FlowRef → PacketFlow) (flow g : FlowRef)
    (packets : List PacketRef) :
    (Function.update nodes flow ⟨(nodes flow).id, packets⟩ g).id =
      (nodes g).id := by
  by_cases hg : g = flow
  · rw [hg, Function.update_self]
  · rw [Function.update_of_ne hg]

theorem map_update_of_notMem (hflow : flow ∉ ring) (x : PacketFlow) :
    ring.map (Function.update nodes flow x) = ring.map nodes := by
  refine List.map_congr_left fun g hg => Function.update_of_ne ?_ _ _
  rintro rfl
  exact hflow hg

theorem find_nodes (hdistinct : Distinct nodes ring) (hflow : flow ∈ ring) :
    (ring.map nodes).find? (fun f => decide (f.id = (nodes flow).id)) =
      some (nodes flow) := by
  induction ring with
  | nil => cases hflow
  | cons f ring ih =>
    rw [List.map_cons, List.find?_cons]
    by_cases hf : (nodes f).id = (nodes flow).id
    · obtain rfl := hdistinct f List.mem_cons_self flow hflow hf
      simp
    rw [decide_eq_false hf]
    refine ih hdistinct.tail (List.mem_of_ne_of_mem ?_ hflow)
    rintro rfl
    exact hf rfl

theorem setFlow_nodes (hnodup : ring.Nodup) (hdistinct : Distinct nodes ring)
    (hflow : flow ∈ ring) (packets : List PacketRef) :
    FairPacketQueue.setFlow (nodes flow).id packets (ring.map nodes) =
      ring.map (Function.update nodes flow ⟨(nodes flow).id, packets⟩) := by
  induction ring with
  | nil => cases hflow
  | cons f ring ih =>
    obtain ⟨hf, hnodup⟩ := List.nodup_cons.mp hnodup
    rw [List.map_cons, List.map_cons, FairPacketQueue.setFlow]
    by_cases hid : (nodes f).id = (nodes flow).id
    · obtain rfl := hdistinct f List.mem_cons_self flow hflow hid
      rw [if_pos rfl, Function.update_self, map_update_of_notMem hf]
    have hne : flow ≠ f := by
      rintro rfl
      exact hid rfl
    rw [if_neg hid, Function.update_of_ne hne.symm,
      ih hnodup hdistinct.tail (List.mem_of_ne_of_mem hne hflow)]

end Lists

namespace LinkedQueue.Represents

variable {q : LinkedQueue} {ring : List FlowRef} {a : FairPacketQueue}

theorem distinct (h : q.Represents ring a) : Distinct q.nodes ring := by
  intro f hf g hg hid
  have hlookup := (h.index _ f).mpr ⟨hf, rfl⟩
  exact Option.some.inj (hlookup.symm.trans ((h.index _ g).mpr ⟨hg, hid.symm⟩))

theorem flowPackets (h : q.Represents ring a) (id : FlowID) :
    a.flowPackets id = q.packetsOf id := by
  unfold FairPacketQueue.flowPackets packetsOf
  rw [h.flows]
  cases hlookup : q.flows.lookup id with
  | some flow =>
    obtain ⟨hmem, rfl⟩ := (h.index id flow).mp hlookup
    rw [find_nodes h.distinct hmem]
  | none =>
    have hnone : (ring.map q.nodes).find? (fun f => decide (f.id = id)) =
        none := by
      refine List.find?_eq_none.mpr fun f hf => ?_
      obtain ⟨flow, hflow, rfl⟩ := List.mem_map.mp hf
      rw [decide_eq_true_eq]
      intro hid
      rw [(h.index id flow).mpr ⟨hflow, hid⟩] at hlookup
      cases hlookup
    rw [hnone]

theorem any_flow (h : q.Represents ring a) (id : FlowID) :
    a.flows.any (fun f => decide (f.id = id)) = (q.flows.lookup id).isSome := by
  rw [Bool.eq_iff_iff, List.any_eq_true, h.flows]
  constructor
  · rintro ⟨f, hf, hid⟩
    obtain ⟨flow, hflow, rfl⟩ := List.mem_map.mp hf
    rw [(h.index id flow).mpr ⟨hflow, of_decide_eq_true hid⟩]
    rfl
  intro hsome
  obtain ⟨flow, hflow⟩ := Option.isSome_iff_exists.mp hsome
  obtain ⟨hmem, hid⟩ := (h.index id flow).mp hflow
  exact ⟨q.nodes flow, List.mem_map_of_mem hmem, decide_eq_true hid⟩

theorem peek (h : q.Represents ring a) : q.peek = a.peek := by
  unfold LinkedQueue.peek FairPacketQueue.peek
  rw [h.head, h.flows]
  cases ring <;> rfl

variable {flow : FlowRef}

theorem setPackets (h : q.Represents ring a) (hflow : flow ∈ ring)
    (packets : List PacketRef) (count : ℕ) :
    ({ q.setPackets flow packets with count := count } :
      LinkedQueue).Represents ring
        ⟨FairPacketQueue.setFlow (q.nodes flow).id packets a.flows, count⟩ := by
  refine ⟨h.circle, h.head, ?_, fun id g => ?_, rfl, h.below⟩
  · rw [h.flows]
    exact setFlow_nodes h.circle.nodup h.distinct hflow packets
  show q.flows.lookup id = some g ↔ g ∈ ring ∧
    (Function.update q.nodes flow _ g).id = id
  rw [id_update, h.index]

/-! ### `push` -/

theorem addFlow (h : q.Represents ring a) {id : FlowID}
    (hnew : q.flows.lookup id = none) :
    (q.addFlow id).1.Represents (ring ++ [q.allocated])
        ⟨a.flows ++ [⟨id, []⟩], a.count⟩ ∧
      (q.addFlow id).2 = q.allocated := by
  have hfresh : q.allocated ∉ ring := fun hmem =>
    lt_irrefl _ (h.below _ hmem)
  have hnodes : ∀ g ∈ ring, Function.update q.nodes q.allocated ⟨id, []⟩ g =
      q.nodes g := by
    intro g hg
    exact Function.update_of_ne (by rintro rfl; exact hfresh hg) _ _
  -- what holds however the pointers are set
  have hrest : ∀ links : Links FlowRef, ∀ head : Option FlowRef,
      links.Circle (ring ++ [q.allocated]) →
      head = (ring ++ [q.allocated]).head? →
      LinkedQueue.Represents ⟨Function.update q.nodes q.allocated ⟨id, []⟩, links,
        q.allocated + 1, q.flows.insert id q.allocated, head, q.count⟩
        (ring ++ [q.allocated]) ⟨a.flows ++ [⟨id, []⟩], a.count⟩ := by
    intro links head hcircle hhead
    refine ⟨hcircle, hhead, ?_, fun id' g => ?_, h.count, fun g hg => ?_⟩
    · rw [List.map_append, List.map_congr_left hnodes, ← h.flows]
      simp
    · show (q.flows.insert id q.allocated).lookup id' = some g ↔
        g ∈ ring ++ [q.allocated] ∧
          (Function.update q.nodes q.allocated ⟨id, []⟩ g).id = id'
      rw [List.mem_append, List.mem_singleton]
      by_cases hid : id' = id
      · subst hid
        rw [AList.lookup_insert]
        constructor
        · intro hg
          obtain rfl := Option.some.inj hg
          exact ⟨Or.inr rfl, by rw [Function.update_self]⟩
        rintro ⟨hg | rfl, hgid⟩
        · rw [hnodes g hg] at hgid
          rw [(h.index id' g).mpr ⟨hg, hgid⟩] at hnew
          cases hnew
        · rfl
      rw [AList.lookup_insert_ne hid, h.index]
      constructor
      · rintro ⟨hg, hgid⟩
        exact ⟨Or.inl hg, by rw [hnodes g hg, hgid]⟩
      rintro ⟨hg | rfl, hgid⟩
      · rw [hnodes g hg] at hgid
        exact ⟨hg, hgid⟩
      · rw [Function.update_self] at hgid
        exact absurd hgid.symm hid
    · rcases List.mem_append.mp hg with hg | hg
      · exact (h.below g hg).trans (Nat.lt_succ_self _)
      · rw [List.mem_singleton.mp hg]
        exact Nat.lt_succ_self _
  dsimp only [LinkedQueue.addFlow]
  cases ring with
  | nil =>
    have hhead : q.head = none := h.head
    rw [hhead]
    exact ⟨hrest _ _ (Links.Circle.alone q.links q.allocated) rfl, rfl⟩
  | cons head =>
    have hhead : q.head = some head := h.head
    have hne : head ≠ q.allocated := by
      rintro rfl
      exact hfresh List.mem_cons_self
    have hlinks := h.circle.insertBefore hfresh
    rw [hhead]
    refine ⟨hrest _ _ ?_ rfl, rfl⟩
    have hprevious : Function.update q.links.previous q.allocated
        (q.links.previous head) head = q.links.previous head :=
      Function.update_of_ne hne _ _
    show ((Links.setNext _ (Function.update q.links.previous q.allocated
      (q.links.previous head) head) q.allocated).setPrevious head
        q.allocated).Circle _
    rwa [hprevious]

/-- The packet joins its flow. -/
theorem enqueue (h : q.Represents ring a) {heap : PacketHeap} (ref : PacketRef)
    (hflow : flow ∈ ring) (hid : (q.nodes flow).id = (heap ref).flow) :
    (q.enqueue heap flow ref).2.Represents ring
        (if FairPacketQueue.coalesces heap (heap ref) (q.nodes flow).packets then
          ⟨FairPacketQueue.setFlow (heap ref).flow
            ((q.nodes flow).packets.dropLast ++ [ref]) a.flows, a.count⟩
        else ⟨FairPacketQueue.setFlow (heap ref).flow
            ((q.nodes flow).packets ++ [ref]) a.flows, a.count + 1⟩) ∧
      (q.enqueue heap flow ref).1 =
        FairPacketQueue.coalesces heap (heap ref) (q.nodes flow).packets := by
  unfold LinkedQueue.enqueue
  rw [← hid, h.count]
  dsimp only
  split
  next hcoalesces =>
    exact ⟨h.setPackets hflow ((q.nodes flow).packets.dropLast ++ [ref]) q.count,
      hcoalesces.symm⟩
  next hcoalesces =>
    exact ⟨h.setPackets hflow ((q.nodes flow).packets ++ [ref]) (q.count + 1),
      (Bool.eq_false_iff.mpr hcoalesces).symm⟩

/-- `push` on the ring is `push` on the list. -/
theorem push (h : q.Represents ring a) (heap : PacketHeap) (ref : PacketRef) :
    ∃ ring', (q.push heap ref).2.Represents ring' (a.push heap ref).2 ∧
      (q.push heap ref).1 = (a.push heap ref).1 := by
  have hpackets := h.flowPackets (heap ref).flow
  unfold packetsOf at hpackets
  dsimp only [LinkedQueue.push, FairPacketQueue.push]
  rw [hpackets]
  cases hlookup : q.flows.lookup (heap ref).flow with
  | some flow =>
    obtain ⟨hflow, hid⟩ := (h.index _ flow).mp hlookup
    obtain ⟨hqueue, hcoalesced⟩ := h.enqueue ref hflow hid
    have hany : (a.flows.any fun f => decide (f.id = (heap ref).flow)) = true := by
      rw [h.any_flow, hlookup]
      rfl
    rw [if_pos hany]
    refine ⟨ring, ?_, ?_⟩
    · dsimp only
      split
      next hc => rwa [if_pos hc] at hqueue
      next hc => rwa [if_neg hc] at hqueue
    dsimp only
    rw [hcoalesced]
    split
    next hc => exact hc
    next hc => exact Bool.eq_false_iff.mpr hc
  | none =>
    obtain ⟨hadded, hnew⟩ := h.addFlow hlookup
    have hnode : (q.addFlow (heap ref).flow).1.nodes q.allocated =
        ⟨(heap ref).flow, []⟩ := by
      dsimp only [LinkedQueue.addFlow]
      split <;> exact Function.update_self ..
    obtain ⟨hqueue, hcoalesced⟩ := hadded.enqueue ref
      (List.mem_append_right _ List.mem_cons_self) (congrArg PacketFlow.id hnode)
    rw [hnode] at hqueue hcoalesced
    have hany : ¬(a.flows.any fun f => decide (f.id = (heap ref).flow)) = true := by
      rw [h.any_flow, hlookup]
      exact Bool.false_ne_true
    rw [if_neg hany]
    rw [hnew]
    exact ⟨_, hqueue, hcoalesced⟩

/-! ### `pop` -/

/-- `pop` on the ring is `pop` on the list; the map forgets a flow that has
become empty. -/
theorem pop {rest : List FlowRef} (h : q.Represents (flow :: rest) a) :
    ∃ q' ring', q.pop = some q' ∧ q'.Represents ring' a.pop := by
  have hhead : q.head = some flow := h.head
  have hfresh := (List.nodup_cons.mp h.circle.nodup).1
  have hflows : a.flows = q.nodes flow :: rest.map q.nodes := h.flows
  unfold LinkedQueue.pop FairPacketQueue.pop
  rw [hhead, hflows]
  simp only [LinkedQueue.setPackets, Function.update_self]
  by_cases hempty : (q.nodes flow).packets.tail.isEmpty
  · rw [if_pos hempty, if_pos hempty]
    -- what the map finds once it has forgotten the flow
    have hindex : ∀ id g, (q.flows.erase (q.nodes flow).id).lookup id = some g ↔
        g ∈ rest ∧ (Function.update q.nodes flow
          ⟨(q.nodes flow).id, (q.nodes flow).packets.tail⟩ g).id = id := by
      intro id g
      rw [id_update]
      by_cases hid : id = (q.nodes flow).id
      · rw [hid, AList.lookup_erase]
        refine ⟨nofun, fun ⟨hg, hgid⟩ => ?_⟩
        obtain rfl := h.distinct g (List.mem_cons_of_mem _ hg) flow
          List.mem_cons_self hgid
        exact absurd hg hfresh
      rw [AList.lookup_erase_ne hid, h.index]
      constructor
      · rintro ⟨hg, hgid⟩
        rcases List.mem_cons.mp hg with rfl | hg
        · exact absurd hgid.symm hid
        · exact ⟨hg, hgid⟩
      · rintro ⟨hg, hgid⟩
        exact ⟨List.mem_cons_of_mem _ hg, hgid⟩
    cases rest with
    | nil =>
      rw [if_pos h.circle.next_alone]
      exact ⟨_, [], rfl, Links.Circle.nil _, rfl, rfl, hindex,
        congrArg (· - 1) h.count, fun g hg => absurd hg List.not_mem_nil⟩
    | cons next rest =>
      have hnext : q.links.next flow = next := h.circle.next_head
      rw [if_neg (by
        rw [hnext]
        rintro rfl
        exact hfresh List.mem_cons_self)]
      refine ⟨_, next :: rest, rfl, ?_, congrArg some hnext, ?_, hindex,
        congrArg (· - 1) h.count,
        fun g hg => h.below g (List.mem_cons_of_mem _ hg)⟩
      · have hremove := h.circle.remove
        show (Links.setPrevious _ (Function.update q.links.next
          (q.links.previous flow) (q.links.next flow) flow)
            (q.links.previous flow)).Circle _
        rwa [Function.update_of_ne h.circle.previous_head_ne.symm]
      · exact (map_update_of_notMem hfresh _).symm
  · rw [if_neg hempty, if_neg hempty]
    refine ⟨_, rest ++ [flow], rfl, h.circle.rotate, ?_, ?_, fun id g => ?_,
      congrArg (· - 1) h.count, fun g hg => ?_⟩
    · cases rest with
      | nil => exact congrArg some h.circle.next_alone
      | cons => exact congrArg some h.circle.next_head
    · dsimp only
      rw [List.map_append, map_update_of_notMem hfresh, List.map_singleton,
        Function.update_self]
    · show q.flows.lookup id = some g ↔ g ∈ rest ++ [flow] ∧
        (Function.update q.nodes flow _ g).id = id
      rw [id_update, h.index, List.mem_append, List.mem_singleton,
        List.mem_cons, or_comm]
    rcases List.mem_append.mp hg with hg | hg
    · exact h.below g (List.mem_cons_of_mem _ hg)
    · rw [List.mem_singleton.mp hg]
      exact h.below flow List.mem_cons_self

end LinkedQueue.Represents

end Wanbond.Bond
