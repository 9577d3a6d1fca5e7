import Wanbond.Bond.FairQueue
import Wanbond.Bond.Transport

/-!
# Coalesced acknowledgements

The packets of a flow, in the order in which they are queued, fall into places:
those that one place of the queue has held, one after the other.  The last of
them leaves or waits there, and the others were replaced, each by the next,
which supersedes it.
-/

namespace Wanbond.Bond

open Wanbond.Support

/-! ## Supersession -/

/-- The serial numbers lie within half of their range. -/
def WithinHalf (values : List (BitVec 32)) : Prop :=
  ∃ base : BitVec 32, ∀ v ∈ values, (v - base).toNat < 2 ^ 31

theorem toInt_sub_of_offsets {x y base : BitVec 32}
    (hx : (x - base).toNat < 2 ^ 31) (hy : (y - base).toNat < 2 ^ 31) :
    (x - y).toInt = (x - base).toNat - (y - base).toNat := by
  have hshift : x - y = (x - base) - (y - base) := by bv_omega
  rw [hshift]
  rw [BitVec.toInt_sub, BitVec.toInt_eq_toNat_of_lt (by omega),
    BitVec.toInt_eq_toNat_of_lt (by omega)]
  rw [Int.bmod_eq_of_le] <;> omega

/-- Acknowledgement numbers, and timestamps where there are any, lie within half
of their range. -/
structure SpansHalf (acks : List TCPACK) : Prop where
  acknowledgement : WithinHalf (acks.map TCPACK.acknowledgement)
  tsVal : (∃ ack ∈ acks, ack.timestamp = true) →
    WithinHalf (acks.map TCPACK.tsVal)
  tsEcr : (∃ ack ∈ acks, ack.timestamp = true) →
    WithinHalf (acks.map TCPACK.tsEcr)

namespace TCPACK

variable {x y z : TCPACK}

theorem supersedes_iff : x.supersedes y = true ↔
    x.eligible = true ∧ y.eligible = true ∧ x.sequence = y.sequence ∧
      x.window ≠ 0 ∧ y.window ≠ 0 ∧ x.trafficClass = y.trafficClass ∧
      (x.acknowledgement - y.acknowledgement).toInt > 0 ∧
      x.timestamp = y.timestamp ∧
      (x.timestamp = true → (x.tsVal - y.tsVal).toInt ≥ 0 ∧
        (x.tsEcr - y.tsEcr).toInt ≥ 0) := by
  unfold supersedes
  cases x.timestamp <;> simp [and_assoc]

/-- Within half of the range, signed differences add up. -/
theorem toInt_sub_withinHalf {a b c : BitVec 32} {l : List (BitVec 32)}
    (hl : WithinHalf l) (ha : a ∈ l) (hb : b ∈ l) (hc : c ∈ l) :
    (a - c).toInt = (a - b).toInt + (b - c).toInt := by
  obtain ⟨base, hbase⟩ := hl
  rw [toInt_sub_of_offsets (hbase a ha) (hbase b hb),
    toInt_sub_of_offsets (hbase b hb) (hbase c hc),
    toInt_sub_of_offsets (hbase a ha) (hbase c hc)]
  omega

/-- Within half of the range, supersession is transitive. -/
theorem supersedes_trans {l : List TCPACK} (hl : SpansHalf l) (hx : x ∈ l)
    (hy : y ∈ l) (hz : z ∈ l) (hxy : x.supersedes y = true)
    (hyz : y.supersedes z = true) : x.supersedes z = true := by
  obtain ⟨hx₁, hy₁, hseq, hxw, hyw, hclass, hack, hstamp, hts⟩ :=
    supersedes_iff.mp hxy
  obtain ⟨-, hz₁, hseq', -, hzw, hclass', hack', hstamp', hts'⟩ :=
    supersedes_iff.mp hyz
  have hmem : ∀ {f : TCPACK → BitVec 32} {w}, w ∈ l → f w ∈ l.map f :=
    fun hw => List.mem_map_of_mem hw
  refine supersedes_iff.mpr ⟨hx₁, hz₁, hseq.trans hseq', hxw, hzw,
    hclass.trans hclass', ?_, hstamp.trans hstamp', fun hstamped => ?_⟩
  · have hsum := toInt_sub_withinHalf hl.acknowledgement (hmem hx) (hmem hy)
      (hmem hz)
    omega
  obtain ⟨hval, hecr⟩ := hts hstamped
  obtain ⟨hval', hecr'⟩ := hts' (hstamp ▸ hstamped)
  have hvals := toInt_sub_withinHalf (hl.tsVal ⟨x, hx, hstamped⟩) (hmem hx)
    (hmem hy) (hmem hz)
  have hecrs := toInt_sub_withinHalf (hl.tsEcr ⟨x, hx, hstamped⟩) (hmem hx)
    (hmem hy) (hmem hz)
  exact ⟨by omega, by omega⟩

end TCPACK

/-! ## Places -/

/-- The packets that one place of a flow has held: those replaced, oldest first,
and the last one. -/
structure Place where
  removed : List PacketRef
  survivor : PacketRef

def Place.refs (place : Place) : List PacketRef :=
  place.removed ++ [place.survivor]

/-- In each place every packet supersedes the one it replaced, and every packet
replaced supersedes the one in the place before. -/
structure Coalesced (heap : PacketHeap) (f : FlowID) (places : List Place) :
    Prop where
  flow : ∀ place ∈ places, ∀ ref ∈ place.refs, (heap ref).flow = f
  nonzero : ∀ place ∈ places, place.removed ≠ [] → f ≠ FlowID.zero
  chain : ∀ place ∈ places, List.IsChain
    (fun old new => (heap new).ack.supersedes (heap old).ack = true) place.refs
  after : List.IsChain (fun before place : Place => ∀ ref ∈ place.removed,
    (heap ref).ack.supersedes (heap before.survivor).ack = true) places
  first : ∀ place ∈ places.head?, place.removed = []

/-- The last packet of a place supersedes all that the place has held. -/
theorem supersedes_of_chain {heap : PacketHeap} {acks : List TCPACK}
    (hspan : SpansHalf acks) {survivor : PacketRef}
    (hsurvivor : (heap survivor).ack ∈ acks) (removed : List PacketRef)
    (hremoved : ∀ ref ∈ removed, (heap ref).ack ∈ acks)
    (hchain : List.IsChain
      (fun old new => (heap new).ack.supersedes (heap old).ack = true)
      (removed ++ [survivor])) :
    ∀ ref ∈ removed,
      (heap survivor).ack.supersedes (heap ref).ack = true := by
  induction removed with
  | nil => exact fun ref href => absurd href List.not_mem_nil
  | cons x removed ih =>
    have hrest := ih (fun ref href => hremoved ref (List.mem_cons_of_mem _ href))
      hchain.tail
    intro ref href
    rcases List.mem_cons.mp href with rfl | href
    · cases removed with
      | nil =>
        rwa [List.singleton_append, List.isChain_pair] at hchain
      | cons y =>
        -- the survivor supersedes the next packet, which supersedes this one
        rw [List.cons_append, List.cons_append,
          List.isChain_cons_cons] at hchain
        exact TCPACK.supersedes_trans hspan hsurvivor
          (hremoved y (List.mem_cons_of_mem _ List.mem_cons_self))
          (hremoved ref List.mem_cons_self) (hrest y List.mem_cons_self)
          hchain.1
    · exact hrest ref href

namespace Coalesced

variable {heap : PacketHeap} {f : FlowID} {places front : List Place}
  {before last : Place} {ref : PacketRef}

/-- A packet with a place of its own. -/
theorem append (h : Coalesced heap f places) (hflow : (heap ref).flow = f) :
    Coalesced heap f (places ++ [⟨[], ref⟩]) := by
  have hplaces : ∀ {P : Place → Prop}, (∀ place ∈ places, P place) →
      P ⟨[], ref⟩ → ∀ place ∈ places ++ [⟨[], ref⟩], P place := by
    intro P hold hnew place hplace
    rcases List.mem_append.mp hplace with hplace | hplace
    · exact hold place hplace
    · exact List.mem_singleton.mp hplace ▸ hnew
  refine ⟨hplaces h.flow ?_, hplaces h.nonzero fun hne => absurd rfl hne,
    hplaces h.chain (List.isChain_singleton _), ?_, ?_⟩
  · exact fun r hr => List.mem_singleton.mp hr ▸ hflow
  · refine List.isChain_append.mpr ⟨h.after, List.isChain_singleton _, ?_⟩
    rintro x - y hy r hr
    obtain rfl : (⟨[], ref⟩ : Place) = y := Option.some.inj hy
    exact absurd hr List.not_mem_nil
  · cases places with
    | nil => exact fun place hplace => Option.some.inj hplace ▸ rfl
    | cons => exact h.first

/-- A packet in the place of another. -/
theorem replace (h : Coalesced heap f (front ++ [before, last]))
    (hflow : (heap ref).flow = f) (hnonzero : f ≠ FlowID.zero)
    (hold : (heap last.survivor).ack.supersedes (heap before.survivor).ack = true)
    (hnew : (heap ref).ack.supersedes (heap last.survivor).ack = true) :
    Coalesced heap f (front ++ [before, ⟨last.refs, ref⟩]) := by
  have hlast : last ∈ front ++ [before, last] := by simp
  have hplaces : ∀ {P : Place → Prop}, (∀ place ∈ front ++ [before, last], P place) →
      P ⟨last.refs, ref⟩ →
      ∀ place ∈ front ++ [before, ⟨last.refs, ref⟩], P place := by
    intro P hold hnew place hplace
    simp only [List.mem_append, List.mem_cons, List.not_mem_nil, or_false] at hplace
    rcases hplace with hplace | rfl | rfl
    · exact hold place (List.mem_append_left _ hplace)
    · exact hold place (by simp)
    · exact hnew
  refine ⟨hplaces h.flow ?_, hplaces h.nonzero fun _ => hnonzero,
    hplaces h.chain ?_, ?_, ?_⟩
  · intro r hr
    rcases List.mem_append.mp hr with hr | hr
    · exact h.flow last hlast r hr
    · exact List.mem_singleton.mp hr ▸ hflow
  · refine List.isChain_append.mpr ⟨h.chain last hlast, List.isChain_singleton _, ?_⟩
    intro x hx y hy
    rw [Place.refs, List.getLast?_append_cons] at hx
    obtain rfl := Option.some.inj hx
    obtain rfl := Option.some.inj hy
    exact hnew
  · obtain ⟨hfront, hpair, hjoin⟩ := List.isChain_append.mp h.after
    refine List.isChain_append.mpr ⟨hfront, ?_, fun x hx y hy => hjoin x hx y hy⟩
    rw [List.isChain_pair] at hpair ⊢
    intro r hr
    rcases List.mem_append.mp hr with hr | hr
    · exact hpair r hr
    · exact List.mem_singleton.mp hr ▸ hold
  · cases front with
    | nil => exact h.first
    | cons => exact h.first

end Coalesced

/-! ## Chronicles -/

/-- A packet takes the place of the last one, which advances the one before it
and is advanced by the newcomer. -/
def Replaced (heap : PacketHeap) (ref : PacketRef) (old new : List PacketRef) :
    Prop :=
  ∃ front before last, old = front ++ [before, last] ∧
    new = front ++ [before, ref] ∧ (heap ref).flow ≠ FlowID.zero ∧
    (heap last).ack.supersedes (heap before).ack = true ∧
    (heap ref).ack.supersedes (heap last).ack = true

theorem FairPacketQueue.pushed_cases (heap : PacketHeap) (ref : PacketRef)
    (packets : List PacketRef) :
    pushed heap ref packets = packets ++ [ref] ∨
      Replaced heap ref packets (pushed heap ref packets) := by
  unfold pushed
  split
  next h =>
    right
    unfold coalesces at h
    split at h
    next last before rest hreverse =>
      have hpackets : packets = rest.reverse ++ [before, last] := by
        rw [← List.reverse_reverse packets, hreverse]
        simp
      simp only [Bool.and_eq_true, bne_iff_ne] at h
      refine ⟨rest.reverse, before, last, hpackets, ?_, h⟩
      rw [hpackets]
      simp
    next => cases h
  next => exact Or.inl rfl

/-- The packets of a flow that have left, those that wait and those that were
queued fill the places of the flow. -/
def Chronicled (heap : PacketHeap) (f : FlowID)
    (left packets queued : List PacketRef) : Prop :=
  ∃ gone waiting : List Place, gone.map Place.survivor = left ∧
    waiting.map Place.survivor = packets ∧
    (gone ++ waiting).flatMap Place.refs = queued ∧
    Coalesced heap f (gone ++ waiting)

namespace Chronicled

variable {heap : PacketHeap} {f : FlowID} {left packets queued : List PacketRef}
  {ref : PacketRef}

theorem push (h : Chronicled heap f left packets queued)
    (hflow : (heap ref).flow = f) :
    Chronicled heap f left (FairPacketQueue.pushed heap ref packets)
      (queued ++ [ref]) := by
  obtain ⟨gone, waiting, hleft, hpackets, hqueued, hplaces⟩ := h
  rcases FairPacketQueue.pushed_cases heap ref packets with
    hpush | ⟨front, before, last, hold, hnew, hnonzero, hlast, href⟩
  · refine ⟨gone, waiting ++ [⟨[], ref⟩], hleft, ?_, ?_, ?_⟩
    · rw [hpush, List.map_append, hpackets]
      rfl
    · rw [← List.append_assoc, List.flatMap_append, hqueued]
      rfl
    · rw [← List.append_assoc]
      exact hplaces.append hflow
  rw [hold] at hpackets
  obtain ⟨w, rest, rfl, hw, hrest⟩ := List.map_eq_append_iff.mp hpackets
  obtain ⟨p, rest₁, rfl, rfl, hrest₁⟩ := List.map_eq_cons_iff.mp hrest
  obtain ⟨l, rest₂, rfl, rfl, hrest₂⟩ := List.map_eq_cons_iff.mp hrest₁
  obtain rfl := List.map_eq_nil_iff.mp hrest₂
  rw [← List.append_assoc] at hqueued hplaces
  refine ⟨gone, w ++ [p, ⟨l.refs, ref⟩], hleft, ?_, ?_, ?_⟩
  · rw [hnew, List.map_append, hw]
    rfl
  · rw [← hqueued]
    simp [Place.refs]
  · rw [← List.append_assoc]
    exact hplaces.replace hflow (hflow ▸ hnonzero) hlast href

theorem pop (h : Chronicled heap f left (ref :: packets) queued) :
    Chronicled heap f (left ++ [ref]) packets queued := by
  obtain ⟨gone, waiting, hleft, hpackets, hqueued, hplaces⟩ := h
  obtain ⟨p, waiting, rfl, rfl, rfl⟩ := List.map_eq_cons_iff.mp hpackets
  refine ⟨gone ++ [p], waiting, ?_, rfl, ?_, ?_⟩
  · rw [List.map_append, hleft]
    rfl
  · rwa [List.append_assoc]
  · rwa [List.append_assoc]

theorem flow (h : Chronicled heap f left packets queued) (href : ref ∈ packets) :
    (heap ref).flow = f := by
  obtain ⟨gone, waiting, -, rfl, -, hplaces⟩ := h
  obtain ⟨place, hplace, rfl⟩ := List.mem_map.mp href
  exact hplaces.flow place (List.mem_append_right _ hplace) _
    (List.mem_append_right _ List.mem_cons_self)

end Chronicled

theorem arrivals_append (heap : PacketHeap) (f : FlowID) (ops ops' : List QueueOp) :
    arrivals heap f (ops ++ ops') = arrivals heap f ops ++ arrivals heap f ops' := by
  induction ops with
  | nil => rfl
  | cons op ops ih =>
    cases op with
    | push =>
      rw [List.cons_append, arrivals, arrivals, ih]
      split <;> rfl
    | pop => exact ih

namespace LinkedQueue

variable {heap : PacketHeap} {q q' : LinkedQueue} {ring : List FlowRef}
  {a : FairPacketQueue}

/-- The packets of one flow. -/
def ofFlow (heap : PacketHeap) (f : FlowID) (refs : List PacketRef) :
    List PacketRef :=
  refs.filter fun ref => (heap ref).flow = f

theorem Represents.packetsOf_push (h : q.Represents ring a) (heap : PacketHeap)
    (ref : PacketRef) (f : FlowID) :
    (q.push heap ref).2.packetsOf f = if f = (heap ref).flow then
      FairPacketQueue.pushed heap ref (q.packetsOf f) else q.packetsOf f := by
  obtain ⟨ring', h', -⟩ := h.push heap ref
  rw [← h'.flowPackets, FairPacketQueue.flowPackets_push, h.flowPackets]

/-- A packet leaves from the front of the flow whose turn it is. -/
theorem Represents.packetsOf_pop (h : q.Represents ring a) (heap : PacketHeap)
    (hfair : a.Fair) (hpop : q.pop = some q') :
    ∃ g ref, q.leaving .pop = [ref] ∧ q.packetsOf g = ref :: q'.packetsOf g ∧
      ∀ f, f ≠ g → q'.packetsOf f = q.packetsOf f := by
  have hstep : q.step heap .pop = some q' := hpop
  obtain ⟨ring', a', hlist, h', -⟩ := h.step .pop hstep
  obtain ⟨flows, count⟩ := a
  cases flows with
  | nil => cases hlist
  | cons g rest =>
    obtain rfl := Option.some.inj hlist
    obtain ⟨ref, packets, hpackets⟩ :=
      List.exists_cons_of_ne_nil (hfair.nonempty g List.mem_cons_self)
    have hafter : ∀ f, q'.packetsOf f = if f = g.id then g.packets.tail
        else FairPacketQueue.flowPackets ⟨rest, count⟩ f := fun f =>
      (h'.flowPackets f).symm.trans (FairPacketQueue.flowPackets_pop hfair.ids f)
    have hbefore : ∀ f, q.packetsOf f = if g.id = f then g.packets
        else FairPacketQueue.flowPackets ⟨rest, count⟩ f := fun f =>
      (h.flowPackets f).symm.trans (FairPacketQueue.flowPackets_cons ..)
    refine ⟨g.id, ref, ?_, ?_, fun f hf => ?_⟩
    · show q.peek.toList = [ref]
      rw [h.peek]
      show g.packets.head?.toList = [ref]
      rw [hpackets]
      rfl
    · rw [hbefore, hafter, if_pos rfl, if_pos rfl, hpackets]
      rfl
    · rw [hbefore, hafter, if_neg hf, if_neg hf.symm]

/-- The chronicles of all flows. -/
def Kept (heap : PacketHeap) (q : LinkedQueue) (left : List PacketRef)
    (ops : List QueueOp) : Prop :=
  ∀ f, Chronicled heap f (ofFlow heap f left) (q.packetsOf f) (arrivals heap f ops)

theorem Kept.step (h : q.Represents ring a) (hfair : a.Fair)
    {left : List PacketRef} {ops : List QueueOp} (hkept : Kept heap q left ops)
    (op : QueueOp) (hstep : q.step heap op = some q') :
    Kept heap q' (left ++ q.leaving op) (ops ++ [op]) := by
  intro f
  rw [arrivals_append]
  cases op with
  | push ref =>
    obtain rfl := Option.some.inj hstep
    rw [h.packetsOf_push]
    show Chronicled heap f (ofFlow heap f (left ++ [])) _
      (_ ++ if (heap ref).flow = f then [ref] else [])
    rw [List.append_nil]
    by_cases hf : f = (heap ref).flow
    · rw [if_pos hf, if_pos hf.symm]
      exact (hkept f).push hf.symm
    · rw [if_neg hf, if_neg fun h => hf h.symm, List.append_nil]
      exact hkept f
  | pop =>
    obtain ⟨g, ref, hleaving, hserved, hothers⟩ := h.packetsOf_pop heap hfair hstep
    have hserve := hkept g
    rw [hserved] at hserve
    have hflow : (heap ref).flow = g := hserve.flow List.mem_cons_self
    show Chronicled heap f _ _ (_ ++ [])
    rw [List.append_nil, hleaving, ofFlow, List.filter_append]
    by_cases hf : f = g
    · rw [hf, List.filter_singleton, hflow]
      simp only [decide_true]
      exact hserve.pop
    have hne : ¬(heap ref).flow = f := fun h => hf (h.symm.trans hflow)
    rw [List.filter_singleton, decide_eq_false hne, hothers f hf]
    rw [Bool.cond_false, List.append_nil]
    exact hkept f

/-- The chronicles over a run. -/
theorem Kept.run (ops : List QueueOp) :
    ∀ {q : LinkedQueue} {ring : List FlowRef} {a : FairPacketQueue}
      {left : List PacketRef} {before : List QueueOp},
      q.Represents ring a → a.Fair → Kept heap q left before →
      runFrom heap q ops = some q' →
      Kept heap q' (left ++ departures heap q ops) (before ++ ops) := by
  induction ops with
  | nil =>
    intro q ring a left before h hfair hkept hrun
    obtain rfl := Option.some.inj hrun
    rwa [departures, List.append_nil, List.append_nil]
  | cons op ops ih =>
    intro q ring a left before h hfair hkept hrun
    rw [runFrom_cons] at hrun
    obtain ⟨q₁, hstep, hrest⟩ := Option.bind_eq_some_iff.mp hrun
    obtain ⟨ring₁, a₁, hlist, h₁, -⟩ := h.step op hstep
    have hrun₁ := ih h₁ (hfair.move hlist).2 (Kept.step h hfair hkept op hstep) hrest
    rw [departures, hstep]
    rwa [List.append_assoc, List.append_assoc] at hrun₁

theorem kept_empty : Kept heap empty [] [] :=
  fun _ => ⟨[], [], rfl, rfl, rfl, nofun, nofun, nofun, List.isChain_nil, nofun⟩

theorem run_spec {ops : List QueueOp} (hrun : run heap ops = some q) :
    ∃ a ring, FairPacketQueue.run heap ops = some a ∧ q.Represents ring a ∧
      a.Fair ∧ Kept heap q (departures heap empty ops) ops := by
  obtain ⟨ring, a, hlist, h, hfair⟩ :=
    Represents.run ops represents_empty FairPacketQueue.fair_empty hrun
  exact ⟨a, ring, hlist, h, hfair,
    Kept.run ops represents_empty FairPacketQueue.fair_empty kept_empty hrun⟩

theorem Represents.pop_eq_none_iff (h : q.Represents ring a) (hfair : a.Fair) :
    q.pop = none ↔ q.count = 0 := by
  have hcount : q.count = (ring.map fun r => (q.nodes r).packets.length).sum := by
    rw [← h.count, hfair.count, h.flows, List.map_map]
    rfl
  cases ring with
  | nil =>
    have hhead : q.head = none := h.head
    simp [LinkedQueue.pop, hhead, hcount]
  | cons r ring =>
    obtain ⟨q', ring', hpop, -⟩ := h.pop
    have hpos := List.length_pos_iff.mpr (hfair.nonempty (q.nodes r)
      (h.flows ▸ List.mem_map_of_mem List.mem_cons_self))
    rw [hpop, hcount, List.map_cons, List.sum_cons]
    simp only [reduceCtorEq, false_iff]
    omega

/-- The ring of flows with its map is a rotating list of queues, one for each flow
that has packets. -/
theorem ring_refines_list (heap : PacketHeap) (ops : List QueueOp) (q : LinkedQueue)
    (hrun : run heap ops = some q) :
    ∃ a ring, FairPacketQueue.run heap ops = some a ∧ q.Represents ring a ∧
      q.peek = a.peek ∧ (q.pop = none ↔ q.count = 0) ∧ ring.Nodup ∧
      (ring.map fun r => (q.nodes r).id).Nodup ∧
      (∀ id r, q.flows.lookup id = some r ↔ r ∈ ring ∧ (q.nodes r).id = id) ∧
      (∀ r ∈ ring, (q.nodes r).packets ≠ []) ∧
      q.count = (ring.map fun r => (q.nodes r).packets.length).sum ∧
      (∀ f, (ofFlow heap f (departures heap empty ops) ++
        q.packetsOf f).Sublist (arrivals heap f ops)) ∧
      q.ServesInTurn heap := by
  obtain ⟨a, ring, hlist, h, hfair, hkept⟩ := run_spec hrun
  have hids := hfair.ids
  rw [FairPacketQueue.ids, h.flows, List.map_map] at hids
  refine ⟨a, ring, hlist, h, h.peek, h.pop_eq_none_iff hfair, h.circle.nodup, hids,
    h.index, fun r hr => ?_, ?_, fun f => ?_, h.servesInTurn hfair⟩
  · exact hfair.nonempty _ (h.flows ▸ List.mem_map_of_mem hr)
  · rw [← h.count, hfair.count, h.flows, List.map_map]
    rfl
  obtain ⟨gone, waiting, hgone, hwaiting, hqueued, -⟩ := hkept f
  rw [← hgone, ← hwaiting, ← hqueued, ← List.map_append]
  generalize gone ++ waiting = places
  induction places with
  | nil => exact List.Sublist.refl _
  | cons place _ ih =>
    rw [List.map_cons, List.flatMap_cons]
    exact (List.sublist_append_right place.removed [place.survivor]).append ih

/-- Packets of two flows. -/
def twoFlows : PacketHeap := fun ref =>
  { Transport.noPacket with
    flow := List.Vector.replicate 40 (if ref < 2 then 1 else 2) }

/-- Each flow has two packets: the second one is served between the first two
turns of the first. -/
theorem ring_refines_list_twoFlows :
    ∃ q q₁ q₂, run twoFlows [.push 0, .push 1, .push 2, .push 3] = some q ∧
      q.headFlow = some (List.Vector.replicate 40 1) ∧ q.pop = some q₁ ∧
      runFrom twoFlows q₁ [.pop] = some q₂ ∧
      q₂.headFlow = some (List.Vector.replicate 40 1) ∧
      (turns twoFlows q₁ [.pop]).count (some (List.Vector.replicate 40 2)) = 1 := by
  refine ⟨_, _, _, rfl, rfl, rfl, rfl, rfl, ?_⟩
  obtain ⟨_, _, -, -, -, -, -, -, -, -, -, -, hturns⟩ :=
    ring_refines_list twoFlows [.push 0, .push 1, .push 2, .push 3] _ rfl
  refine hturns _ _ [.pop] _ rfl rfl rfl rfl (by decide) ?_ _ (by decide)
    (by decide) ?_ <;>
  · intro ops' q' hprefix hrun
    rcases List.prefix_cons_iff.mp hprefix with rfl | ⟨ops, rfl, hnil⟩
    · obtain rfl := Option.some.inj hrun
      decide
    · obtain rfl := List.prefix_nil.mp hnil
      obtain rfl := Option.some.inj hrun
      decide

/-- Packets are removed only by coalescing, and nothing that the receiver could
tell from them is lost. -/
theorem coalescing_keeps_information (heap : PacketHeap) (ops : List QueueOp)
    (q : LinkedQueue) (hrun : run heap ops = some q) (f : FlowID) :
    (∃ gone waiting : List Place,
      gone.map Place.survivor = ofFlow heap f (departures heap empty ops) ∧
      waiting.map Place.survivor = q.packetsOf f ∧
      (gone ++ waiting).flatMap Place.refs = arrivals heap f ops ∧
      Coalesced heap f (gone ++ waiting) ∧
      ∀ place ∈ gone ++ waiting,
        SpansHalf (place.refs.map fun ref => (heap ref).ack) →
        ∀ ref ∈ place.removed,
          (heap place.survivor).ack.supersedes (heap ref).ack = true) ∧
    (∀ ref, (heap ref).flow = f →
      (q.push heap ref).2.packetsOf f = q.packetsOf f ++ [ref] ∨
      Replaced heap ref (q.packetsOf f) ((q.push heap ref).2.packetsOf f)) ∧
    (∀ ref, (heap ref).flow ≠ f →
      (q.push heap ref).2.packetsOf f = q.packetsOf f) ∧
    (∀ q', q.pop = some q' →
      q.packetsOf f = ofFlow heap f (q.leaving .pop) ++ q'.packetsOf f) := by
  obtain ⟨a, ring, -, h, hfair, hkept⟩ := run_spec hrun
  refine ⟨?_, fun ref hf => ?_, fun ref hf => ?_, fun q' hpop => ?_⟩
  · obtain ⟨gone, waiting, hgone, hwaiting, hqueued, hplaces⟩ := hkept f
    refine ⟨gone, waiting, hgone, hwaiting, hqueued, hplaces,
      fun place hplace hspan => ?_⟩
    exact supersedes_of_chain hspan
      (List.mem_map_of_mem (List.mem_append_right _ List.mem_cons_self)) place.removed
      (fun ref href => List.mem_map_of_mem (List.mem_append_left _ href))
      (hplaces.chain place hplace)
  · rw [h.packetsOf_push, if_pos hf.symm]
    exact FairPacketQueue.pushed_cases heap ref _
  · rw [h.packetsOf_push, if_neg fun h => hf h.symm]
  obtain ⟨g, ref, hleaving, hserved, hothers⟩ := h.packetsOf_pop heap hfair hpop
  have hserve := hkept g
  rw [hserved] at hserve
  have hflow : (heap ref).flow = g := hserve.flow List.mem_cons_self
  rw [hleaving, ofFlow, List.filter_singleton, hflow]
  by_cases hf : f = g
  · rw [hf, hserved]
    simp
  · rw [hothers f hf, decide_eq_false fun h => hf h.symm]
    rfl

/-- Acknowledgements of one flow, each of one more segment. -/
def advancing : PacketHeap := fun ref =>
  { Transport.noPacket with
    flow := List.Vector.replicate 40 1
    ack := ⟨true, 7, BitVec.ofNat 32 ref, 1, 0, false, 0, 0⟩ }

theorem coalescing_keeps_information_advancing :
    ∃ q, run advancing [.push 0, .push 1, .push 2] = some q ∧
      q.packetsOf (List.Vector.replicate 40 1) = [0, 2] ∧
      ∃ gone waiting : List Place,
        (gone ++ waiting).flatMap Place.refs = [0, 1, 2] ∧
        Coalesced advancing (List.Vector.replicate 40 1) (gone ++ waiting) := by
  refine ⟨_, rfl, rfl, ?_⟩
  obtain ⟨⟨gone, waiting, -, -, hqueued, hplaces, -⟩, -⟩ :=
    coalescing_keeps_information advancing [.push 0, .push 1, .push 2] _ rfl
      (List.Vector.replicate 40 1)
  exact ⟨gone, waiting, hqueued, hplaces⟩

end LinkedQueue

end Wanbond.Bond
