import Wanbond.Bond.SendInvariant

/-!
# The invariant over `transmit` and the keepalives

A packet is stamped at its first transmission, and every transmission repeats
its stamp.
-/

namespace Wanbond.Bond

open Wanbond.Support

variable {datagrams : List (Bytes × PacketMetadata)}

/-! ## Packets -/

/-- The parts of a packet that a transmission of it leaves alone. -/
structure Packet.Kept (p p' : Packet) : Prop where
  payload : p'.payload = p.payload
  cls : p'.cls = p.cls
  interactive : p'.interactive = p.interactive
  seq : p'.seq = p.seq
  order : p'.order = p.order

variable {st : Stamp}

theorem StampedAs.kept {p p' : Packet} (h : StampedAs p st) (hk : p.Kept p') :
    StampedAs p' st where
  seq := hk.seq.trans h.seq
  order := hk.order.trans h.order
  payload := hk.payload.trans h.payload
  interactive := hk.interactive.trans h.interactive

theorem Holds.kept {p p' : Packet} {datagram : Bytes × PacketMetadata}
    (h : Holds p datagram) (hk : p.Kept p') : Holds p' datagram where
  payload := hk.payload.trans h.payload
  cls := hk.cls.trans h.cls
  interactive := by
    rw [hk.interactive, hk.cls]
    exact h.interactive

namespace OutboundOk

variable {o : Outbound} {W : Multiset PacketRef} {stamps : List Stamp}

theorem seq_bounds (h : OutboundOk o W stamps datagrams) (hs : StampsOk stamps)
    (hst : st ∈ stamps) : 0 < st.seq ∧ st.seq ≤ o.seq := by
  have hmem : (st.seq, st) ∈ stamps.map fun st => (st.seq, st) :=
    List.mem_map_of_mem hst
  have := hs.seqs.bounds hmem
  rw [List.length_map] at this
  rw [h.seq]
  exact this

theorem notMem_waiting (h : OutboundOk o W stamps datagrams)
    (hs : StampsOk stamps) (hst : st ∈ stamps) : st.ref ∉ W := by
  intro hmem
  have hzero := (h.fresh st.ref hmem).2.1
  have hpos := (h.seq_bounds hs hst).1
  rw [(h.stamped st hst).seq] at hzero
  omega

/-- A stamped packet changes in the parts that its stamp does not name. -/
theorem setPacket (h : OutboundOk o W stamps datagrams) (hs : StampsOk stamps)
    {ref : PacketRef} {p' : Packet} (hk : (o.packets ref).Kept p')
    (href : ∃ st ∈ stamps, st.ref = ref) :
    OutboundOk { o with packets := Function.update o.packets ref p' } W stamps
      datagrams := by
  have hkept : ∀ r, (o.packets r).Kept (Function.update o.packets ref p' r) := by
    intro r
    by_cases hr : r = ref
    · subst hr
      rwa [Function.update_self]
    · rw [Function.update_of_ne hr]
      exact ⟨rfl, rfl, rfl, rfl, rfl⟩
  refine { h with
    holds := fun r datagram hd => (h.holds r datagram hd).kept (hkept r)
    stamped := fun st hst => (h.stamped st hst).kept (hkept st.ref)
    fresh := ?_ }
  intro r hr
  obtain ⟨st, hst, rfl⟩ := href
  have hne : r ≠ st.ref := by
    rintro rfl
    exact h.notMem_waiting hs hst hr
  dsimp only
  rw [Function.update_of_ne hne]
  exact h.fresh r hr

theorem insertPending (h : OutboundOk o W stamps datagrams) (hst : st ∈ stamps) :
    OutboundOk { o with pending := o.pending.insert st.seq st.ref } W stamps
      datagrams := by
  refine { h with pending := ?_ }
  intro q r hr
  by_cases hq : q = st.seq
  · subst hq
    simp only [AList.lookup_insert, Option.some.injEq] at hr
    exact ⟨st, hst, hr, rfl⟩
  · simp only [AList.lookup_insert_ne hq] at hr
    exact h.pending q r hr

theorem erasePending (h : OutboundOk o W stamps datagrams) (q : ℕ) :
    OutboundOk { o with pending := o.pending.erase q } W stamps datagrams := by
  refine { h with pending := ?_ }
  intro q' r hr
  by_cases hq : q' = q
  · subst hq
    simp only [AList.lookup_erase, reduceCtorEq] at hr
  · simp only [AList.lookup_erase_ne hq] at hr
    exact h.pending q' r hr

end OutboundOk

/-! ## The stamp of a packet -/

namespace Transport

/-- The stamp that the packet receives at its first transmission. -/
def nextStamp (t : Transport) (ref : PacketRef) : Stamp :=
  ⟨ref, t.seq + 1,
    if (t.packets ref).interactive then ⟨true, t.interactiveSeq + 1⟩
    else ⟨false, t.bulkSeq + 1⟩, (t.packets ref).payload⟩

variable (t : Transport) (now : Time) (ref : PacketRef)

theorem stampPacket_packets_self :
    StampedAs ((t.stampPacket now ref).packets ref) (t.nextStamp ref) ∧
      ((t.stampPacket now ref).packets ref).cls = (t.packets ref).cls ∧
      ((t.stampPacket now ref).packets ref).acked = (t.packets ref).acked := by
  have hself : (t.stampPacket now ref).packets ref = { t.packets ref with
      repairDeadline := if (t.packets ref).interactive then
        (t.packets ref).created + maxPacketAge else now + maxPacketAge
      seq := t.seq + 1
      order := (t.nextStamp ref).order } := by
    simp only [stampPacket, setPacket, Function.update_self, nextStamp]
    cases (t.packets ref).interactive <;> rfl
  rw [hself]
  refine ⟨⟨rfl, rfl, rfl, ?_⟩, rfl, rfl⟩
  simp only [nextStamp]
  split <;> simp_all

theorem stampPacket_packets_ne {r : PacketRef} (h : r ≠ ref) :
    (t.stampPacket now ref).packets r = t.packets r := by
  simp only [stampPacket, setPacket, Function.update_of_ne h]

end Transport

variable {stamps : List Stamp}

theorem StampsOk.cons (h : StampsOk stamps) (hseq : st.seq = stamps.length + 1)
    (horder : st.order.number = (stamps.filter fun x =>
      x.order.interactive == st.order.interactive).length + 1) :
    StampsOk (st :: stamps) := by
  have hnum : ∀ {l : List (ℕ × Stamp)} {n : ℕ}, Numbered l →
      n = l.length + 1 → Numbered ((n, st) :: l) := by
    rintro l n hl rfl
    exact hl.cons st
  constructor
  · exact hnum h.seqs (by rw [hseq, List.length_map])
  · cases hi : st.order.interactive with
    | true =>
      simp only [hi, beq_true] at horder
      rw [List.filter_cons_of_pos (by simp [hi]), List.map_cons]
      exact hnum h.small (by rw [horder, List.length_map])
    | false =>
      rw [List.filter_cons_of_neg (by simp [hi])]
      exact h.small
  cases hi : st.order.interactive with
  | true =>
    rw [List.filter_cons_of_neg (by simp [hi])]
    exact h.bulk
  | false =>
    simp only [hi, beq_false] at horder
    rw [List.filter_cons_of_pos (by simp [hi]), List.map_cons]
    exact hnum h.bulk (by rw [horder, List.length_map])

section Stamp

variable {t : Transport} {W : Multiset PacketRef} {stamps : List Stamp}
  {ref : PacketRef}

theorem OutboundOk.stampsOk_nextStamp
    (h : OutboundOk t.toOutbound W stamps datagrams) (hs : StampsOk stamps)
    (ref : PacketRef) : StampsOk (t.nextStamp ref :: stamps) := by
  refine hs.cons ?_ ?_
  · simp only [Transport.nextStamp, h.seq]
  simp only [Transport.nextStamp]
  split
  · simp [h.interactiveSeq]
  · simp [h.bulkSeq]

/-- Stamping a packet that waits no longer. -/
theorem OutboundOk.stampPacket
    (h : OutboundOk t.toOutbound W stamps datagrams) (hs : StampsOk stamps)
    (hfresh : ref < t.allocated ∧ (t.packets ref).seq = 0) (hwait : ref ∉ W)
    (now : Time) :
    OutboundOk (t.stampPacket now ref).toOutbound W
      (t.nextStamp ref :: stamps) datagrams := by
  obtain ⟨hself, hcls, -⟩ := t.stampPacket_packets_self now ref
  have hother : ∀ st ∈ stamps, st.ref ≠ ref := by
    rintro st hst rfl
    have := (h.seq_bounds hs hst).1
    rw [← (h.stamped st hst).seq] at this
    omega
  constructor
  · exact h.length
  · intro r datagram hd
    by_cases hr : r = ref
    · subst hr
      have hholds := h.holds r datagram hd
      refine ⟨hself.payload.trans hholds.payload, hcls.trans hholds.cls, ?_⟩
      rw [hcls, ← hholds.interactive, hself.interactive]
      simp only [Transport.nextStamp]
      split <;> simp_all
    · rw [t.stampPacket_packets_ne now ref hr]
      exact h.holds r datagram hd
  · simp [Transport.stampPacket, Transport.setPacket, h.seq]
  · simp only [Transport.stampPacket, Transport.setPacket, List.filter_cons,
      Transport.nextStamp, h.interactiveSeq]
    cases (t.packets ref).interactive <;> simp
  · simp only [Transport.stampPacket, Transport.setPacket, List.filter_cons,
      Transport.nextStamp, h.bulkSeq]
    cases (t.packets ref).interactive <;> simp
  · intro st hst
    rcases List.mem_cons.mp hst with rfl | hst
    · exact hself
    · rw [t.stampPacket_packets_ne now ref (hother st hst)]
      exact h.stamped st hst
  · intro st hst
    rcases List.mem_cons.mp hst with rfl | hst
    · exact hfresh.1
    · exact h.allocated st hst
  · intro r hr
    rcases List.mem_append.mp hr with hr | hr
    · obtain ⟨st, hst, heq⟩ := h.pendingOrder r hr
      exact ⟨st, List.mem_cons_of_mem _ hst, heq⟩
    · rw [List.mem_singleton] at hr
      exact ⟨_, List.mem_cons_self, hr.symm⟩
  · intro q r hr
    obtain ⟨st, hst, heq⟩ := h.pending q r hr
    exact ⟨st, List.mem_cons_of_mem _ hst, heq⟩
  · exact h.nodup
  intro r hr
  have hne : r ≠ ref := by
    rintro rfl
    exact hwait hr
  rw [t.stampPacket_packets_ne now ref hne]
  exact h.fresh r hr

end Stamp

/-! ## `transmit` -/

section Transmit

variable {t : Transport} {s : Stint} {path : Lane} {ref : PacketRef}

theorem Transport.sends_sendPacket {q : Lane} (path : Lane)
    (hfind : t.find path.id = some q)
    (hwire : path.toLaneWire = q.toLaneWire) (now : Time) (ref : PacketRef) :
    t.Sends (t.sendPacket now ref path).1 path.id (some ref) now
      (t.packets ref).wireBytes where
  epoch := rfl
  remote := rfl
  clock := rfl
  inbound := rfl
  ids := by
    exact (t.setLane_ids (path.recordAttempt now ref (t.packets ref)) :)
  wire := by
    have hrec := Lane.recordAttempt_toLaneWire path now ref (t.packets ref)
    have hid := Lane.recordAttempt_id path now ref (t.packets ref)
    refine ⟨path.toLaneWire, ?_, ?_⟩
    · rw [Transport.wire_eq_some hfind, hwire]
    have hset := Transport.wire_setLane (t := t)
      (p := path.recordAttempt now ref (t.packets ref))
      (hid.symm ▸ hfind)
    rwa [hid, hrec] at hset

theorem OutboundOk.sendPacket {W : Multiset PacketRef}
    (h : OutboundOk t.toOutbound W stamps datagrams) (hs : StampsOk stamps)
    (hst : st ∈ stamps) (now : Time) (path : Lane) :
    OutboundOk (t.sendPacket now st.ref path).1.toOutbound W stamps
      datagrams := by
  have hk : (t.packets st.ref).Kept { t.packets st.ref with
      attempts := (t.packets st.ref).attempts + 1
      lastSent := now
      lastPath := (path.recordAttempt now st.ref (t.packets st.ref)).id
      lastLaneSeq := (path.recordAttempt now st.ref (t.packets st.ref)).seq } :=
    ⟨rfl, rfl, rfl, rfl, rfl⟩
  have hset := (h.setPacket hs hk ⟨st, hst, rfl⟩).insertPending hst
  rwa [← (h.stamped st hst).seq] at hset

theorem Transport.sendPacket_acked (now : Time) (r : PacketRef) :
    ((t.sendPacket now ref path).1.packets r).acked = (t.packets r).acked := by
  simp only [Transport.sendPacket, Transport.setPacket, Transport.setLane]
  by_cases hr : r = ref
  · subst hr
    rw [Function.update_self]
  · rw [Function.update_of_ne hr]

/-- A transmission of a packet that has its stamp. -/
theorem StateOk.sendPacket (h : StateOk t s datagrams) (hst : st ∈ s.stamps)
    (hfind : t.find path.id = some path) (now : Time) :
    StateOk (t.sendPacket now st.ref path).1
      (s.extend [] [(t.sendPacket now st.ref path).2]) datagrams := by
  have hstamped := h.outbound.stamped st hst
  have hlane := h.lanes.lane path.id path.toLaneWire
    (Transport.wire_eq_some hfind)
  have hd : DataFields.wireBytes ⟨t.remote, st.seq, st.order, st.payload⟩ =
      (t.packets st.ref).wireBytes := by
    simp [DataFields.wireBytes, Packet.wireBytes, hstamped.payload]
  have hframe : (t.sendPacket now st.ref path).2 = ⟨path.id,
      dataFrame t.epoch t.remote path.id ((sentOn path.id s.log).length + 1)
        st.seq st.order st.payload⟩ := by
    simp only [Transport.sendPacket, Lane.recordAttempt_id,
      Lane.recordAttempt_seq, hstamped.seq, hstamped.order, hstamped.payload,
      hlane.seq]
    rfl
  rw [hframe]
  refine h.send_frame [] (some st.ref)
    ⟨t.remote, st.seq, st.order, st.payload⟩
    (hd.symm ▸ Transport.sends_sendPacket path hfind rfl now st.ref) h.stamps
    (h.outbound.sendPacket h.stamps hst now path) ⟨st, hst, rfl, rfl⟩
    (Or.inr ⟨st, hst, rfl⟩) ?_ ?_
  · intro st' hst'
    cases hst'
  · intro st' hst' hack
    rw [Transport.sendPacket_acked] at hack
    exact ⟨hst', hack⟩

@[simp] theorem Transport.countOriginal_paths (now : Time) (ref : PacketRef)
    (id : PathID) : (t.countOriginal now ref id).paths = t.paths := by
  dsimp only [Transport.countOriginal]
  split
  · split <;> rfl
  · split <;> rfl

theorem Transport.nextStamp_countOriginal (now : Time) (id : PathID) :
    (t.countOriginal now ref id).nextStamp ref = t.nextStamp ref := by
  simp only [Transport.nextStamp, (t.quiet_countOriginal now ref id).outbound]

section Original

variable (hfresh : ref < t.allocated ∧ (t.packets ref).seq = 0 ∧
  (t.packets ref).acked = false)

include hfresh

theorem Transport.transmit_eq (now : Time) (path : Lane) :
    t.transmit now ref path =
      ((t.countOriginal now ref path.id).stampPacket now ref).sendPacket now ref
        (countOnLane (t.packets ref).cls path) := by
  simp only [Transport.transmit, hfresh.2.1, if_true]

theorem Transport.sends_original (hfind : t.find path.id = some path)
    (now : Time) :
    t.Sends (t.transmit now ref path).1 path.id (some ref) now
      (t.packets ref).wireBytes := by
  have hquiet := t.quiet_countOriginal now ref path.id
  rw [Transport.transmit_eq hfresh]
  set t₁ := t.countOriginal now ref path.id with ht₁
  set t₂ := t₁.stampPacket now ref with ht₂
  have hfind₂ : t₂.find path.id = some path := by
    simpa [ht₂, ht₁, Transport.find, Transport.stampPacket,
      Transport.setPacket] using hfind
  have hbytes : (t₂.packets ref).wireBytes = (t.packets ref).wireBytes := by
    have hpayload := (t₁.stampPacket_packets_self now ref).1.payload
    simp only [Transport.nextStamp, hquiet.outbound] at hpayload
    simp only [Packet.wireBytes, ht₂, hpayload]
  have hsends := Transport.sends_sendPacket (t := t₂)
    (countOnLane (t.packets ref).cls path) hfind₂ rfl now ref
  rw [hbytes] at hsends
  exact ⟨hsends.epoch.trans hquiet.epoch, hsends.remote.trans hquiet.remote,
    hsends.clock.trans hquiet.clock, hsends.inbound.trans hquiet.inbound,
    hsends.ids.trans hquiet.ids, hquiet.wire ▸ hsends.wire⟩

theorem OutboundOk.transmit_original {W : Multiset PacketRef}
    (h : OutboundOk t.toOutbound W stamps datagrams) (hs : StampsOk stamps)
    (hwait : ref ∉ W) (now : Time) (path : Lane) :
    OutboundOk (t.transmit now ref path).1.toOutbound W
      (t.nextStamp ref :: stamps) datagrams := by
  have hquiet := t.quiet_countOriginal now ref path.id
  have hstamp : (t.countOriginal now ref path.id).nextStamp ref =
      t.nextStamp ref := Transport.nextStamp_countOriginal now path.id
  rw [Transport.transmit_eq hfresh]
  have hout : OutboundOk
      ((t.countOriginal now ref path.id).stampPacket now ref).toOutbound W
      (t.nextStamp ref :: stamps) datagrams := by
    rw [← hstamp]
    refine (hquiet.outbound ▸ h).stampPacket hs ?_ hwait now
    rw [hquiet.outbound]
    exact ⟨hfresh.1, hfresh.2.1⟩
  exact hout.sendPacket (h.stampsOk_nextStamp hs ref) List.mem_cons_self now _

theorem Transport.transmit_original_frame (now : Time) :
    (t.transmit now ref path).2 = ⟨path.id, dataFrame t.epoch t.remote path.id
      (path.seq + 1) (t.nextStamp ref).seq (t.nextStamp ref).order
      (t.nextStamp ref).payload⟩ := by
  have hquiet := t.quiet_countOriginal now ref path.id
  have hself :=
    ((t.countOriginal now ref path.id).stampPacket_packets_self now ref).1
  rw [Transport.nextStamp_countOriginal] at hself
  rw [Transport.transmit_eq hfresh]
  simp only [Transport.sendPacket, Lane.recordAttempt_id,
    Lane.recordAttempt_seq, hself.seq, hself.order, hself.payload]
  simp only [Transport.setLane, Transport.setPacket, Transport.stampPacket,
    hquiet.epoch, hquiet.remote]
  rfl

theorem Transport.transmit_original_acked (now : Time) (r : PacketRef) :
    ((t.transmit now ref path).1.packets r).acked = (t.packets r).acked := by
  have hquiet := t.quiet_countOriginal now ref path.id
  rw [Transport.transmit_eq hfresh, Transport.sendPacket_acked]
  by_cases hr : r = ref
  · subst hr
    rw [(Transport.stampPacket_packets_self _ now r).2.2, hquiet.outbound]
  · rw [Transport.stampPacket_packets_ne _ now ref hr, hquiet.outbound]

theorem Transport.transmit_original_pendingOrder (now : Time) :
    (t.transmit now ref path).1.pendingOrder = t.pendingOrder ++ [ref] := by
  rw [Transport.transmit_eq hfresh]
  show (t.countOriginal now ref path.id).pendingOrder ++ [ref] = _
  rw [(t.quiet_countOriginal now ref path.id).outbound]

/-- The first transmission of a packet that has just left its queue. -/
theorem StateOk.transmit_original (h : StateOk t s datagrams)
    (hwait : ref ∉ t.waiting) (hfind : t.find path.id = some path)
    (now : Time) :
    StateOk (t.transmit now ref path).1
      (s.extend [t.nextStamp ref] [(t.transmit now ref path).2]) datagrams := by
  have hlane := h.lanes.lane path.id path.toLaneWire
    (Transport.wire_eq_some hfind)
  have hwaiting : (t.transmit now ref path).1.waiting ≤ t.waiting := by
    rw [Transport.transmit_eq hfresh]
    exact (t.quiet_countOriginal now ref path.id).waiting
  rw [Transport.transmit_original_frame hfresh, hlane.seq]
  refine h.send_frame [t.nextStamp ref] (some ref)
    ⟨t.remote, (t.nextStamp ref).seq, (t.nextStamp ref).order,
      (t.nextStamp ref).payload⟩
    (Transport.sends_original hfresh hfind now)
    (h.outbound.stampsOk_nextStamp h.stamps ref)
    ((h.outbound.transmit_original hfresh h.stamps hwait now path).of_le
      hwaiting)
    ⟨t.nextStamp ref, List.mem_cons_self, rfl, rfl⟩
    (Or.inr ⟨t.nextStamp ref, List.mem_cons_self, rfl⟩) ?_ ?_
  · intro st hst
    rw [List.mem_singleton] at hst
    rw [hst]
  intro st hst hack
  rw [Transport.transmit_original_acked hfresh] at hack
  rcases List.mem_cons.mp hst with rfl | hst
  · exact absurd hack (by simp [Transport.nextStamp, hfresh.2.2])
  · exact ⟨hst, hack⟩

end Original

end Transmit

/-! ## Keepalives -/

variable {t : Transport} {s : Stint}

theorem StateOk.setLane_trimmed (h : StateOk t s datagrams) {p q : Lane}
    (hfind : t.find q.id = some q) (ht : q.toLaneWire.Trimmed p.toLaneWire) :
    StateOk (t.setLane p) s datagrams := by
  have hid : p.id = q.id := (congrArg LaneWire.id ht.rest).trans rfl
  have hfind' : t.find p.id = some q := hid ▸ hfind
  have hlanes := h.lanes.trimmed (Transport.wire_eq_some hfind') ht
  exact { h with
    lanes := by
      rwa [Transport.wire_setLane hfind']
    ids := by
      rw [Transport.setLane_ids]
      exact h.ids }

theorem Transport.sends_recordKeepalive {path : Lane}
    (hfind : t.find path.id = some path) (now : Time) :
    t.Sends (t.setLane (path.recordKeepalive now)) path.id none now
      wireOverhead where
  epoch := rfl
  remote := rfl
  clock := rfl
  inbound := rfl
  ids := t.setLane_ids _
  wire := by
    have hid := Lane.recordKeepalive_id path now
    refine ⟨path.toLaneWire, Transport.wire_eq_some hfind, ?_⟩
    rw [Transport.wire_setLane (hid.symm ▸ hfind), hid,
      Lane.recordKeepalive_toLaneWire]

theorem StateOk.keepalive (h : StateOk t s datagrams) {path : Lane}
    (hfind : t.find path.id = some path) (now : Time) :
    StateOk (t.setLane (path.recordKeepalive now))
      (s.extend [] [⟨path.id, dataFrame t.epoch t.remote path.id (path.seq + 1)
        0 Order.zero []⟩]) datagrams := by
  have hlane := h.lanes.lane path.id path.toLaneWire
    (Transport.wire_eq_some hfind)
  rw [hlane.seq]
  refine h.send_frame [] none ⟨t.remote, 0, Order.zero, []⟩
    (Transport.sends_recordKeepalive hfind now) h.stamps h.outbound rfl
    (Or.inl rfl) ?_ ?_
  · intro st hst
    cases hst
  · exact fun st hst hack => ⟨hst, hack⟩

theorem StateOk.service (h : StateOk t s datagrams) (now : Time)
    (order : MapOrder) (id : PathID) :
    StateOk (t.service now order id).1
      (s.extend [] (t.service now order id).2) datagrams := by
  unfold Transport.service
  split
  · exact h
  next path hfind =>
    have hpath := Transport.id_of_find hfind
    set path' := Transport.expireAttempts t.packets now order
      (Transport.rebase path now) with hpath'
    have htrim : path.toLaneWire.Trimmed path'.toLaneWire := by
      have := Transport.trimmed_expireAttempts t.packets now order
        (Transport.rebase path now)
      rwa [Transport.rebase_toLaneWire] at this
    have hid : path'.id = path.id := (congrArg LaneWire.id htrim.rest).trans rfl
    have hset : StateOk (t.setLane path') s datagrams :=
      h.setLane_trimmed (hpath.symm ▸ hfind) htrim
    dsimp only
    split
    · have hfind' : (t.setLane path').find path'.id = some path' :=
        Transport.find_setLane_self (hid.trans hpath ▸ hfind)
      have hkeep := hset.keepalive hfind' now
      rw [Transport.setLane_setLane _ (Lane.recordKeepalive_id path' now)] at hkeep
      rwa [Lane.recordKeepalive_id, Lane.recordKeepalive_seq]
    · exact hset

end Wanbond.Bond
