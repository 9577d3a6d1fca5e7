import Wanbond.Bond.PollInvariant

/-!
# The invariant over the calls without frames

`Enqueue`, `Path`, `Disable` and `SetRemote`.
-/

namespace Wanbond.Bond

open Wanbond.Support

variable {datagrams : List (Bytes × PacketMetadata)}

/-! ## Queues -/

namespace FairPacketQueue

/-- The packets of one flow are exchanged. -/
theorem flatMap_setFlow {id : FlowID} (packets : List PacketRef)
    {flows : List PacketFlow} {flow : PacketFlow}
    (h : flows.find? (fun flow => decide (flow.id = id)) = some flow) :
    ((setFlow id packets flows).flatMap PacketFlow.packets :
        Multiset PacketRef) + flow.packets =
      (flows.flatMap PacketFlow.packets : List PacketRef) + (packets :
        Multiset PacketRef) := by
  induction flows with
  | nil => cases h
  | cons first _ ih =>
    unfold setFlow
    by_cases hid : first.id = id
    · simp only [List.find?_cons, hid, decide_true, Option.some.injEq] at h
      subst h
      rw [if_pos hid]
      simp only [List.flatMap_cons, ← Multiset.coe_add]
      abel
    simp only [List.find?_cons, hid, decide_false] at h
    have := ih h
    rw [if_neg hid]
    simp only [List.flatMap_cons, ← Multiset.coe_add] at this ⊢
    rw [add_assoc, this, add_assoc]

/-- A push changes one flow: the packet comes last in it, in place of the last
one when they coalesce. -/
theorem exists_push (heap : PacketHeap) (q : FairPacketQueue)
    (ref : PacketRef) :
    ∃ old kept : List PacketRef,
      ((q.push heap ref).2.refs : Multiset PacketRef) + old =
        q.refs + (kept ++ [ref] : List PacketRef) ∧
      kept.Sublist old ∧
      old.length = kept.length + (q.push heap ref).1.toNat := by
  set flows := if q.flows.any (fun flow => decide (flow.id = (heap ref).flow))
    then q.flows else q.flows ++ [⟨(heap ref).flow, []⟩] with hflows
  obtain ⟨flow, hfind, hpackets⟩ : ∃ flow,
      flows.find? (fun flow => decide (flow.id = (heap ref).flow)) = some flow ∧
        q.flowPackets (heap ref).flow = flow.packets := by
    unfold flowPackets
    cases hq : q.flows.find? fun flow => decide (flow.id = (heap ref).flow) with
    | some flow =>
      have hany : q.flows.any (fun flow => decide (flow.id = (heap ref).flow)) =
          true := by
        rw [List.any_eq_true]
        exact ⟨flow, List.mem_of_find?_eq_some hq,
          by simpa using List.find?_some hq⟩
      exact ⟨flow, by rw [hflows, if_pos hany, hq], rfl⟩
    | none =>
      have hany : ¬q.flows.any (fun flow => decide (flow.id = (heap ref).flow)) =
          true := by
        rw [List.any_eq_true]
        rintro ⟨flow, hmem, hid⟩
        exact List.find?_eq_none.mp hq flow hmem hid
      refine ⟨⟨(heap ref).flow, []⟩, ?_, rfl⟩
      rw [hflows, if_neg hany, List.find?_append, hq]
      simp
  have hall : (flows.flatMap PacketFlow.packets) = q.refs := by
    rw [hflows]
    split
    · rfl
    · simp [refs]
  have heq : ∀ packets : List PacketRef, _ :=
    fun packets => flatMap_setFlow packets hfind
  rw [hall] at heq
  dsimp only [push]
  rw [hpackets]
  split
  next hcoalesces =>
    refine ⟨flow.packets, flow.packets.dropLast, heq _,
      List.dropLast_sublist _, ?_⟩
    have hne : flow.packets ≠ [] := by
      rintro hnil
      rw [hnil] at hcoalesces
      cases hcoalesces
    have := List.length_pos_iff.mpr hne
    simp only [List.length_dropLast, Bool.toNat_true]
    omega
  next => exact ⟨flow.packets, flow.packets, heq _, List.Sublist.refl _, rfl⟩

theorem refs_push (heap : PacketHeap) (q : FairPacketQueue) (ref : PacketRef) :
    ((q.push heap ref).2.refs : Multiset PacketRef) ≤ ref ::ₘ q.refs := by
  obtain ⟨old, kept, heq, hsub, -⟩ := q.exists_push heap ref
  refine le_of_add_le_add_right (a := (old : Multiset PacketRef)) ?_
  rw [heq, Multiset.cons_add, ← Multiset.add_cons, ← Multiset.coe_add,
    add_comm (kept : Multiset PacketRef), Multiset.coe_singleton,
    Multiset.singleton_add]
  exact add_le_add_right ((Multiset.cons_le_cons_iff ref).mpr hsub.subperm) _

/-- The counter of a queue counts its packets. -/
def Counted (q : FairPacketQueue) : Prop := q.count = q.refs.length

theorem Counted.push {q : FairPacketQueue} (h : q.Counted) (heap : PacketHeap)
    (ref : PacketRef) :
    (q.push heap ref).2.Counted ∧
      (q.push heap ref).2.count + (q.push heap ref).1.toNat = q.count + 1 := by
  obtain ⟨old, kept, heq, -, hlength⟩ := q.exists_push heap ref
  have hcard := congrArg Multiset.card heq
  simp only [Multiset.card_add, Multiset.coe_card, List.length_append,
    List.length_singleton] at hcard
  have hcount : (q.push heap ref).2.count + (q.push heap ref).1.toNat =
      q.count + 1 := by
    dsimp only [FairPacketQueue.push]
    split <;> rfl
  unfold Counted at h ⊢
  exact ⟨by omega, hcount⟩

end FairPacketQueue

/-! ## `Enqueue` -/

section Enqueue

variable {t : Transport} {s : Stint}

theorem Transport.waiting_enterQueue (t : Transport) (p : Packet) :
    (t.enterQueue p).waiting ≤ t.allocated ::ₘ t.waiting := by
  have hpush := FairPacketQueue.refs_push
    (Function.update t.packets t.allocated p) (t.small.get p.cls) t.allocated
  dsimp only [enterQueue]
  split
  · have hqueue : ((t.queue ++ [t.allocated] : List PacketRef) :
        Multiset PacketRef) = t.allocated ::ₘ t.queue := by
      rw [Multiset.cons_coe, Multiset.coe_eq_coe]
      exact List.perm_append_singleton t.allocated t.queue
    simp only [waiting]
    rw [hqueue, Multiset.cons_add, Multiset.cons_add]
  next hc =>
    cases hcls : p.cls with
    | bulk => exact absurd hcls hc
    | realtime =>
      rw [hcls] at hpush
      simp only [waiting, PerClass.set, PerClass.get] at hpush ⊢
      refine (add_le_add_left (add_le_add_right hpush _) _).trans (le_of_eq ?_)
      rw [Multiset.add_cons, Multiset.cons_add]
    | small =>
      rw [hcls] at hpush
      simp only [waiting, PerClass.set, PerClass.get] at hpush ⊢
      refine (add_le_add_right hpush _).trans (le_of_eq ?_)
      rw [Multiset.add_cons]

/-- A new packet holds its datagram and waits. -/
theorem OutboundOk.allocate {o : Outbound} {W : Multiset PacketRef}
    {stamps : List Stamp} (h : OutboundOk o W stamps datagrams) {p : Packet}
    {datagram : Bytes × PacketMetadata} (hholds : Holds p datagram)
    (hseq : p.seq = 0) (hacked : p.acked = false) :
    OutboundOk { o with
      packets := Function.update o.packets o.allocated p
      allocated := o.allocated + 1 } (o.allocated ::ₘ W) stamps
      (datagrams ++ [datagram]) := by
  have hsame : ∀ ref < o.allocated,
      Function.update o.packets o.allocated p ref = o.packets ref :=
    fun ref href => Function.update_of_ne (Nat.ne_of_lt href) _ _
  refine { h with
    length := ?_
    holds := ?_
    stamped := ?_
    allocated := ?_
    nodup := ?_
    fresh := ?_ }
  · simp [h.length]
  · intro ref d hd
    dsimp only
    rcases Nat.lt_or_ge ref o.allocated with hlt | hge
    · rw [List.getElem?_append_left (h.length.symm ▸ hlt)] at hd
      rw [hsame ref hlt]
      exact h.holds ref d hd
    rw [List.getElem?_append_right (h.length.symm ▸ hge), h.length] at hd
    obtain ⟨hlt, -⟩ := List.getElem?_eq_some_iff.mp hd
    have hzero : ref - o.allocated = 0 := Nat.lt_one_iff.mp hlt
    have heq : ref = o.allocated :=
      Nat.le_antisymm (Nat.sub_eq_zero_iff_le.mp hzero) hge
    rw [hzero] at hd
    simp only [List.getElem?_cons_zero, Option.some.injEq] at hd
    rwa [heq, Function.update_self, ← hd]
  · intro st hst
    dsimp only
    rw [hsame st.ref (h.allocated st hst)]
    exact h.stamped st hst
  · exact fun st hst => Nat.lt_succ_of_lt (h.allocated st hst)
  · rw [Multiset.nodup_cons]
    refine ⟨fun hmem => ?_, h.nodup⟩
    exact Nat.lt_irrefl _ (h.fresh _ hmem).1
  · intro ref href
    dsimp only
    rcases Multiset.mem_cons.mp href with rfl | href
    · rw [Function.update_self]
      exact ⟨Nat.lt_succ_self _, hseq, hacked⟩
    · have hfresh := h.fresh ref href
      rw [hsame ref hfresh.1]
      exact ⟨Nat.lt_succ_of_lt hfresh.1, hfresh.2⟩

/-- A new packet enters its queue. -/
theorem StateOk.enterQueue (h : StateOk t s datagrams) {p : Packet}
    {datagram : Bytes × PacketMetadata} (hholds : Holds p datagram)
    (hseq : p.seq = 0) (hacked : p.acked = false) :
    StateOk (t.enterQueue p) s (datagrams ++ [datagram]) := by
  have hout := (h.outbound.allocate hholds hseq hacked).of_le
    (t.waiting_enterQueue p)
  have hpackets : ∀ st ∈ s.stamps, Function.update t.packets t.allocated p
      st.ref = t.packets st.ref := fun st hst =>
    Function.update_of_ne (Nat.ne_of_lt (h.outbound.allocated st hst)) _ _
  have hack : ∀ st ∈ s.stamps, (Function.update t.packets t.allocated p
      st.ref).acked = true → Named s st.seq := by
    intro st hst hack
    rw [hpackets st hst] at hack
    exact h.acked st hst hack
  dsimp only [Transport.enterQueue] at hout ⊢
  split
  next hc =>
    rw [if_pos hc] at hout
    exact { h with outbound := hout, acked := hack }
  next hc =>
    rw [if_neg hc] at hout
    exact { h with outbound := hout, acked := hack }

/-- `Enqueue` keeps the invariant, and records the datagrams it accepts. -/
theorem StateOk.enqueue (h : StateOk t s datagrams) (payload : Bytes)
    (metadata : PacketMetadata) (now : Time) :
    StateOk (t.enqueue payload metadata now).1 s
      (if t.allocated < (t.enqueue payload metadata now).1.allocated then
        datagrams ++ [(payload, metadata)] else datagrams) := by
  unfold Transport.enqueue
  obtain ⟨e, htime⟩ | ⟨hnow, htime⟩ := t.checkTime_cases now
  · rw [htime]
    simpa using h
  rw [htime]
  have hclock := h.clock hnow
  dsimp only
  split
  · simpa using hclock
  split
  · have hquiet := Transport.quiet_refuse { t with lastTime := now }
      (classify payload.length metadata)
    have hsame : (({ t with lastTime := now } : Transport).refuse
        (classify payload.length metadata)).allocated = t.allocated := by
      rw [hquiet.outbound]
    rw [hsame, if_neg (Nat.lt_irrefl _)]
    exact hclock.quiet hquiet
  have hgrow : t.allocated < (({ t with lastTime := now } :
      Transport).enterQueue (({ t with lastTime := now } :
      Transport).newPacket payload metadata now)).allocated := by
    dsimp only [Transport.enterQueue]
    split <;> exact Nat.lt_succ_self _
  rw [if_pos hgrow]
  exact hclock.enterQueue ⟨rfl, rfl, rfl⟩ rfl rfl

end Enqueue

/-! ## Leases and lanes -/

section Paths

variable {t : Transport} {s : Stint}

theorem StateOk.setLease (h : StateOk t s datagrams) {id : PathID} {p : Lane}
    (hfind : t.find id = some p) (lease : Time) :
    StateOk (t.setLane { p with lease := lease }) s datagrams := by
  have hid := Transport.id_of_find hfind
  subst hid
  have hlane := h.lanes.lane p.id p.toLaneWire (Transport.wire_eq_some hfind)
  have hwire := Transport.wire_setLane (t := t) (p := { p with lease := lease })
    (q := p) hfind
  have hlanes := h.lanes.update (fun _ _ => rfl) (fun _ _ => rfl)
    ({ hlane with } : LaneOk { p.toLaneWire with lease := lease } s.stamps
      (sentOn p.id s.log) (processedOn p.id s.log) (s.base p.id))
  exact { h with
    lanes := hwire ▸ hlanes
    ids := (t.setLane_ids _).symm ▸ h.ids }

theorem StateOk.disable (h : StateOk t s datagrams) (id : PathID) :
    StateOk (t.disable id) s datagrams := by
  unfold Transport.disable
  split
  next p hp => exact h.setLease hp 0
  next => exact h

/-- A lane that has not been used. -/
theorem laneOk_new (w : LaneWire) (stamps : List Stamp) (base : ℕ)
    (hseq : w.seq = 0) (hsent : w.sent = base) (hattempts : w.attempts = ∅)
    (hreceipts : w.ackReceipts = ReceiptWindow.empty)
    (hrevision : w.ackRevision = 0) (hbytes : w.ackedBytes = 0)
    (helapsed : w.ackedElapsed = 0) (hhigh : w.receivedHigh = 0)
    (hthrough : w.receivedThrough = 0) : LaneOk w stamps [] [] base where
  seq := hseq
  total := by simp [hsent]
  attempts := by
    intro k a ha
    rw [hattempts] at ha
    cases ha
  revisions := by
    rw [hreceipts]
    simpa using ReceiptWindow.tracks_empty
  revision := by rw [hrevision, hreceipts, ReceiptWindow.high_empty]
  newest := Or.inl ⟨hrevision, hbytes, helapsed⟩
  receivedHigh := by
    rw [hhigh]
    exact ⟨by simp, Or.inl rfl⟩
  receivedHigh_le := by omega
  receivedThrough := fun _ hne => absurd hthrough hne

/-- A lane is created. -/
theorem StateOk.addLane (h : StateOk t s datagrams) {p : Lane}
    (hnone : t.find p.id = none)
    (hlane : LaneOk p.toLaneWire s.stamps [] [] 0) :
    StateOk { t with paths := t.paths ++ [p] } s datagrams := by
  have hwire : ({ t with paths := t.paths ++ [p] } : Transport).wire =
      Function.update t.wire p.id (some p.toLaneWire) := by
    funext id
    by_cases hid : id = p.id
    · subst hid
      rw [Function.update_self]
      refine Transport.wire_eq_some ?_
      unfold Transport.find at hnone ⊢
      rw [@Keyed.lookup_append_of_none _ _ _ (fun q : Lane => q.id) _ _ _ hnone]
      simp [Keyed.lookup]
    rw [Function.update_of_ne hid]
    unfold Transport.wire
    congr 1
    unfold Transport.find
    cases hold : Keyed.lookup (fun q : Lane => q.id) id t.paths with
    | some q =>
      exact @Keyed.lookup_append_of_some _ _ _ (fun q : Lane => q.id) _ _ _ _
        hold
    | none =>
      rw [@Keyed.lookup_append_of_none _ _ _ (fun q : Lane => q.id) _ _ _ hold]
      simp [Keyed.lookup, Ne.symm hid]
  obtain ⟨hsent, hprocessed, hbase⟩ :=
    h.lanes.unknown p.id (Transport.wire_eq_none.mpr hnone)
  have hlane' : LaneOk p.toLaneWire s.stamps (sentOn p.id s.log)
      (processedOn p.id s.log) (s.base p.id) := by
    rwa [hsent, hprocessed, hbase]
  have hlanes := h.lanes.update (fun _ _ => rfl) (fun _ _ => rfl) hlane'
  refine { h with lanes := hwire ▸ hlanes, ids := ?_ }
  have hfresh : p.id ∉ t.paths.map fun q => q.id :=
    (@Keyed.lookup_eq_none_iff _ _ _ (fun q : Lane => q.id) _ _).mp hnone
  simp only [List.map_append, List.map_cons, List.map_nil]
  rw [List.nodup_append]
  refine ⟨h.ids, by simp, ?_⟩
  rintro a ha b hb rfl
  simp only [List.mem_singleton] at hb
  exact hfresh (hb ▸ ha)

theorem StateOk.path (h : StateOk t s datagrams) (id remoteID : PathID)
    (rtt : Duration) (now : Time) :
    StateOk (t.path id remoteID rtt now).1 s datagrams := by
  unfold Transport.path
  obtain ⟨e, htime⟩ | ⟨hnow, htime⟩ := t.checkTime_cases now
  · rwa [htime]
  rw [htime]
  have hclock := h.clock hnow
  dsimp only
  split
  next p hp => exact hclock.setLease hp now
  next hnone =>
    exact hclock.addLane hnone
      (laneOk_new _ _ 0 rfl rfl rfl rfl rfl rfl rfl rfl rfl)

end Paths

/-! ## `SetRemote` -/

section SetRemote

variable {t : Transport} {s : Stint}

@[simp] theorem Transport.resetLane_toLaneWire (p : Lane) :
    (Transport.resetLane p).toLaneWire = { p.toLaneWire with
      lease := 0
      seq := 0
      attempts := ∅
      receivedHigh := 0
      receivedThrough := 0
      ackRevision := 0
      ackReceipts := ReceiptWindow.empty
      ackedBytes := 0
      ackedElapsed := 0 } :=
  Lane.map_ite (f := fun q : Lane => q.toLaneWire) rfl rfl

@[simp] theorem Transport.resetLane_id (p : Lane) :
    (Transport.resetLane p).id = p.id :=
  (congrArg LaneWire.id (Transport.resetLane_toLaneWire p)).trans rfl

theorem Transport.find_resetLane (t : Transport) (id : PathID) :
    Keyed.lookup (fun q : Lane => q.id) id (t.paths.map Transport.resetLane) =
      (t.find id).map Transport.resetLane :=
  @Keyed.lookup_map _ _ _ (fun q : Lane => q.id) _ Transport.resetLane_id id
    t.paths

theorem inboundOk_new (clock : Time) :
    InboundOk ⟨[], ReceiptWindow.empty, ReceiptWindow.empty⟩ clock [] := by
  constructor
  · intro lane r hr
    cases hr
  · intro lane _
    exact ⟨rfl, rfl⟩
  · simpa [deliveredSeqs, delivered] using ReceiptWindow.tracks_empty
  · exact ⟨rfl, ReceiptWindow.grounded_empty, by simp⟩

/-- A new remote epoch begins a new history. -/
theorem StateOk.setRemote (h : StateOk t s datagrams) {epoch : Epoch}
    {adopted : Bool} (haccept : t.acceptsRemote epoch adopted = true) :
    StateOk (t.setRemote epoch adopted).1 (Stint.begin t epoch) datagrams := by
  unfold Transport.setRemote
  rw [if_pos haccept]
  constructor
  · rfl
  · rfl
  · trivial
  · exact ⟨.nil, .nil, .nil⟩
  · exact { h.outbound with
      seq := rfl
      interactiveSeq := rfl
      bulkSeq := rfl
      stamped := by simp [Stint.begin]
      allocated := by simp [Stint.begin]
      pendingOrder := by simp
      pending := by
        intro q ref hq
        cases hq }
  · simp [Stint.begin]
  · simp [Stint.begin]
  · constructor
    · intro id w hw
      change (Keyed.lookup _ id (t.paths.map Transport.resetLane)).map _ = _ at hw
      rw [Transport.find_resetLane, Option.map_map, Option.map_eq_some_iff] at hw
      obtain ⟨p, hp, rfl⟩ := hw
      have hbase : (Stint.begin t epoch).base id = p.sent := by
        simp [Stint.begin, hp]
      rw [hbase]
      simp only [Function.comp_apply, Transport.resetLane_toLaneWire]
      exact laneOk_new _ _ _ rfl rfl rfl rfl rfl rfl rfl rfl rfl
    · intro id hnone
      change (Keyed.lookup _ id (t.paths.map Transport.resetLane)).map _ = _
        at hnone
      rw [Transport.find_resetLane, Option.map_map,
        Option.map_eq_none_iff] at hnone
      exact ⟨rfl, rfl, by simp [Stint.begin, hnone]⟩
  · rw [List.map_map]
    have hids : ((fun p : Lane => p.id) ∘ Transport.resetLane) =
        fun p : Lane => p.id := by
      funext p
      exact Transport.resetLane_id p
    rw [hids]
    exact h.ids
  · exact inboundOk_new _

end SetRemote

end Wanbond.Bond
