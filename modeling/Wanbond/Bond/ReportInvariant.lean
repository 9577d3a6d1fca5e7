import Wanbond.Bond.SendInvariant

/-!
# The invariant over acknowledgements sent

An acknowledgement reports what the windows hold, and the windows hold what the
history says: the lane bitmap and the bytes come from the receiver, the receipt
bitmap from the window of received sequences, anchored so that it reaches down
to the oldest unreported receipt.  Forgetting what it named keeps the window of
unreported receipts exact.
-/

namespace Wanbond.Bond

open Wanbond.Support

variable {datagrams : List (Bytes × PacketMetadata)}

/-! ## Windows and histories -/

theorem ReceiptWindow.Tracks.isHigh {w : ReceiptWindow} {S : Set ℕ}
    (h : w.Tracks S) : IsHigh w.high S :=
  ⟨h.le_high, h.high_mem⟩

variable {peer : Epoch} {log : List Entry}

theorem LogOk.zero_notMem_deliveredSeqs {self : Epoch} {stamps : List Stamp}
    (h : LogOk self peer stamps log) : 0 ∉ deliveredSeqs log := by
  rintro ⟨x, hx⟩
  obtain ⟨lane, k, d, -, -, hne, -⟩ := h.delivered_counted hx
  exact hne rfl

variable {unreported : ReceiptWindow}

section Windows

variable {w : ReceiptWindow} {log : List Entry}

theorem ReceiptWindow.Tracks.has_delivered (h : w.Tracks (deliveredSeqs log))
    (s : ℕ) : w.has s = true ↔ s ∈ deliveredSeqs log ∧ ¬Overtaken log s := by
  rw [h.has_iff]
  refine and_congr_right fun hs => ?_
  constructor
  · rintro hlt ⟨s', hs', hle⟩
    have := h.le_high s' hs'
    omega
  intro hover
  rcases h.high_mem with hzero | hmem
  · simp only [hzero, maxPackets]
    omega
  · by_contra hfar
    exact hover ⟨w.high, hmem, by omega⟩

theorem UnreportedOk.has_unreported {received : ReceiptWindow}
    (h : UnreportedOk received unreported log)
    (hr : received.Tracks (deliveredSeqs log)) :
    { s | unreported.has s = true } = unreportedSeqs log := by
  ext s
  simp only [Set.mem_ofPred_eq, unreportedSeqs]
  rw [h.has, hr.has_delivered, and_assoc]

end Windows

/-! ## What an acknowledgement reports -/

variable {lane : PathID} {r : Receiver}

section Content

variable {t : Transport} {log : List Entry}

theorem InboundOk.anchored (h : InboundOk t.toInbound t.lastTime log) :
    Anchored log t.receiptAnchor := by
  have hset := h.unreported.has_unreported h.received
  refine ⟨t.received.high, h.received.isHigh, ?_⟩
  dsimp only [Transport.receiptAnchor]
  split
  next hne =>
    refine Or.inr ⟨t.unreported.oldest, ?_, rfl⟩
    rw [← hset]
    exact h.unreported.grounded.isLeast_oldest hne
  next hzero =>
    refine Or.inl ⟨?_, rfl⟩
    rw [← hset, Set.eq_empty_iff_forall_notMem]
    intro s hs
    have := h.unreported.grounded.oldest_eq_zero.mp (not_not.mp hzero) s
    rw [Set.mem_ofPred_eq, this] at hs
    cases hs

theorem acknowledgementFor_received (t : Transport) (r : Receiver) (now : Time)
    (s : ℕ) :
    (t.acknowledgementFor r now).received s = true ↔
      s ≠ 0 ∧ s ≤ t.receiptAnchor ∧
        t.receiptAnchor < s + ackReceiptBits ∧ t.received.has s = true := by
  rw [Acknowledgement.received_iff]
  refine and_congr_right fun hs => and_congr_right fun hle =>
    and_congr_right fun hnear => ?_
  have hle' : s ≤ t.receiptAnchor := hle
  have hnear' : t.receiptAnchor < s + ackReceiptBits := hnear
  have hsub : t.receiptAnchor - (t.receiptAnchor - s) = s := by omega
  show (t.received.bitmap t.receiptAnchor).bit (t.receiptAnchor - s) = true ↔ _
  rw [ReceiptWindow.bit_bitmap, hsub]
  constructor
  · exact fun h => h.2.2
  · exact fun h => ⟨by omega, by omega, h⟩

theorem acknowledgementFor_laneBit (t : Transport) (r : Receiver) (now : Time)
    (k : ℕ) :
    (t.acknowledgementFor r now).laneBit k = true ↔
      r.receipts.has k = true ∧ r.receipts.high < k + 64 := by
  rw [Acknowledgement.laneBit_iff, ReceiptWindow.has_iff, and_assoc]
  refine and_congr_right fun hle => ?_
  rw [and_comm]
  refine and_congr_left fun hnear => ?_
  have hnear' : r.receipts.high < k + 64 := hnear
  have hlt : r.receipts.high - k < 64 := by omega
  show (r.receipts.mask.word 0).getLsbD (r.receipts.high - k) = true ↔ _
  rw [WordMask.bit, Nat.div_eq_of_lt hlt, Nat.mod_eq_of_lt hlt]

/-- The acknowledgement that `Poll` builds reports the history. -/
theorem InboundOk.ackContent (h : InboundOk t.toInbound t.lastTime log)
    (hzero : 0 ∉ deliveredSeqs log)
    (hr : ReceiverOk r (countedOn lane log) (acksOn lane log) t.lastTime)
    (now : Time) :
    AckContent t.remote log lane (t.acknowledgementFor r now) where
  observed := rfl
  high := hr.receipts.isHigh
  laneBit := by
    intro k
    rw [acknowledgementFor_laneBit, hr.receipts.has_iff]
    constructor
    · rintro ⟨⟨h₁, -⟩, h₂⟩
      exact ⟨h₁, h₂⟩
    rintro ⟨h₁, h₂⟩
    refine ⟨⟨h₁, ?_⟩, h₂⟩
    have : r.receipts.high < k + 64 := h₂
    simp only [maxPackets]
    omega
  bytes := hr.bytes
  elapsed := hr.elapsed
  anchored := h.anchored
  received := by
    intro s
    rw [acknowledgementFor_received, h.received.has_delivered]
    constructor
    · rintro ⟨-, h₁, h₂, h₃, h₄⟩
      exact ⟨h₃, h₄, h₁, h₂⟩
    rintro ⟨h₃, h₄, h₁, h₂⟩
    refine ⟨?_, h₁, h₂, h₃, h₄⟩
    rintro rfl
    exact hzero h₃

end Content

/-! ## Sending it -/

theorem Anchored.le_high {anchor high : ℕ} (h : Anchored log anchor)
    (hh : IsHigh high (deliveredSeqs log)) : anchor ≤ high := by
  obtain ⟨high', hhigh', hanchor⟩ := h
  have hle : high' ≤ high := hhigh'.mono hh fun _ hs => hs
  rcases hanchor with ⟨-, rfl⟩ | ⟨oldest, hleast, rfl⟩
  · exact hle
  · have := hhigh'.1 oldest hleast.1.1
    omega

theorem AckContent.received_of_unreported {older : List Entry}
    {a : Acknowledgement} (h : AckContent peer older lane a) {s : ℕ}
    (hs : s ∈ unreportedSeqs older) (hle : s ≤ a.receivedHigh) :
    a.received s = true := by
  rw [h.received]
  refine ⟨hs.1, hs.2.1, hle, ?_⟩
  obtain ⟨high, -, hanchor⟩ := h.anchored
  rcases hanchor with ⟨hempty, -⟩ | ⟨oldest, hleast, hanchor⟩
  · rw [hempty] at hs
    cases hs
  · have := hleast.2 hs
    simp only [ackReceiptBits, ackReceiptWords] at hanchor ⊢
    omega

theorem reportedSeqs_ack (self : Epoch) (path lane : PathID) (revision : ℕ)
    (a : Acknowledgement) (log : List Entry) :
    reportedSeqs (.sent path (ackFrame self lane revision a) :: log) =
      reportedSeqs log ∪ { s | a.received s = true } := by
  ext s
  simp only [reportedSeqs, acksOn_ack, Set.mem_ofPred_eq, Set.mem_union]
  constructor
  · rintro ⟨lane', revision', b, hb, hs⟩
    split at hb
    · rcases List.mem_cons.mp hb with heq | hb
      · obtain ⟨rfl, rfl⟩ := Prod.mk.inj heq
        exact Or.inr hs
      · exact Or.inl ⟨lane', revision', b, hb, hs⟩
    · exact Or.inl ⟨lane', revision', b, hb, hs⟩
  rintro (⟨lane', revision', b, hb, hs⟩ | hs)
  · refine ⟨lane', revision', b, ?_, hs⟩
    split
    · exact List.mem_cons_of_mem _ hb
    · exact hb
  · exact ⟨lane, revision, a, by simp, hs⟩

/-- Forgetting what the acknowledgement named keeps the window of unreported
receipts exact. -/
theorem UnreportedOk.forgetThrough {received : ReceiptWindow}
    (h : UnreportedOk received unreported log)
    (hr : received.Tracks (deliveredSeqs log)) {a : Acknowledgement}
    (ha : AckContent peer log lane a) (self : Epoch) (path : PathID)
    (revision : ℕ) :
    UnreportedOk received (unreported.forgetThrough a.receivedHigh)
      (.sent path (ackFrame self lane revision a) :: log) := by
  have hset := h.has_unreported hr
  refine ⟨?_, h.grounded.forgetThrough _, ?_⟩
  · rw [ReceiptWindow.forgetThrough_high]
    exact h.high
  intro s
  rw [ReceiptWindow.forgetThrough_has, h.has, reportedSeqs_ack, Set.mem_union,
    not_or, and_assoc]
  refine and_congr_right fun hin => and_congr_right fun hnew => ?_
  have hunreported : s ∈ unreportedSeqs log := by
    rw [← hset]
    exact (h.has s).mpr ⟨hin, hnew⟩
  constructor
  · intro hlt hs
    have := ((ha.received s).mp hs).2.2.1
    omega
  · intro hs
    by_contra hle
    exact hs (ha.received_of_unreported hunreported (not_lt.mp hle))

theorem InboundOk.setReceiver {i : Inbound} {clock : Time} {log' : List Entry}
    (h : InboundOk i clock log) (r' : Receiver)
    (hfind : Keyed.lookup Receiver.remoteLane r.remoteLane i.receivers = some r)
    (hlane : r'.remoteLane = r.remoteLane)
    (hr' : ReceiverOk r' (countedOn r.remoteLane log')
      (acksOn r.remoteLane log') clock)
    (hother : ∀ lane ≠ r.remoteLane, countedOn lane log' = countedOn lane log ∧
      acksOn lane log' = acksOn lane log)
    (hreceived : i.received.Tracks (deliveredSeqs log'))
    (hunreported : UnreportedOk i.received unreported log') :
    InboundOk { i with
      receivers := Keyed.replace Receiver.remoteLane r' i.receivers
      unreported := unreported } clock log' := by
  have hself : Keyed.lookup Receiver.remoteLane r.remoteLane
      (Keyed.replace Receiver.remoteLane r' i.receivers) = some r' := by
    rw [← hlane] at hfind ⊢
    exact Keyed.lookup_replace_self hfind
  have hne : ∀ lane ≠ r.remoteLane, Keyed.lookup Receiver.remoteLane lane
      (Keyed.replace Receiver.remoteLane r' i.receivers) =
        Keyed.lookup Receiver.remoteLane lane i.receivers := by
    intro lane hlane'
    exact Keyed.lookup_replace_ne (hlane ▸ hlane') i.receivers
  constructor
  · intro lane q hq
    by_cases heq : lane = r.remoteLane
    · subst heq
      rw [hself, Option.some.injEq] at hq
      exact hq ▸ hr'
    · rw [hne lane heq] at hq
      rw [(hother lane heq).1, (hother lane heq).2]
      exact h.receiver lane q hq
  · intro lane hq
    by_cases heq : lane = r.remoteLane
    · subst heq
      rw [hself] at hq
      cases hq
    · rw [hne lane heq] at hq
      rw [(hother lane heq).1, (hother lane heq).2]
      exact h.unknown lane hq
  · exact hreceived
  · exact hunreported

section SendAck

variable {t : Transport} {s : Stint}

/-- An acknowledgement leaves. -/
theorem StateOk.sendAck (h : StateOk t s datagrams) {r₀ : Receiver}
    (hr₀ : t.receiver r₀.remoteLane = some r₀)
    (hlane : r.remoteLane = r₀.remoteLane)
    (hr : ReceiverOk r (countedOn r₀.remoteLane s.log)
      (acksOn r₀.remoteLane s.log) t.lastTime) {path : Lane}
    (hfind : t.find path.id = some path) (now : Time) :
    StateOk (t.sendAck now r path).1
      (s.extend [] [(t.sendAck now r path).2]) datagrams := by
  have hcontent := h.inbound.ackContent h.log.zero_notMem_deliveredSeqs hr now
  have hquiet : t.Quiet (t.setLane (Transport.feedbackLane path now)) :=
    Transport.quiet_setLane hfind rfl
  have hframe : (t.sendAck now r path).2 = ⟨r.path, ackFrame t.epoch
      r₀.remoteLane ((acksOn r₀.remoteLane s.log).length + 1)
      (t.acknowledgementFor r now)⟩ := by
    rw [← hr.revision, ← hlane]
    rfl
  rw [hframe]
  constructor
  · exact h.own
  · exact h.peer
  · exact ⟨.ack r.path r₀.remoteLane _ hcontent, h.log⟩
  · exact h.stamps
  · exact h.outbound
  · exact h.sent
  · exact fun st hst hack =>
      (h.acked st hst hack).mono (List.suffix_cons _ _) rfl
  · have hwire : (t.sendAck now r path).1.wire = t.wire := hquiet.wire
    rw [hwire]
    exact h.lanes.congr (fun _ => rfl) (fun _ => rfl)
  · exact hquiet.ids ▸ h.ids
  refine h.inbound.setReceiver (Transport.acknowledged r now) hr₀ hlane
    ?_ ?_ h.inbound.received
    (h.inbound.unreported.forgetThrough h.inbound.received hcontent t.epoch
      r.path _)
  · have hacks : acksOn r₀.remoteLane (s.extend [] [⟨r.path, ackFrame t.epoch
        r₀.remoteLane ((acksOn r₀.remoteLane s.log).length + 1)
        (t.acknowledgementFor r now)⟩]).log =
        ((acksOn r₀.remoteLane s.log).length + 1,
          t.acknowledgementFor r now) :: acksOn r₀.remoteLane s.log := by
      show acksOn _ (_ :: s.log) = _
      rw [acksOn_ack, if_pos rfl]
    rw [hacks]
    exact { hr with
      revision := by simp [Transport.acknowledged, hr.revision]
      elapsed := by
        intro e he
        rcases List.mem_cons.mp he with rfl | he
        · exact le_rfl
        · exact hr.elapsed e he }
  · intro lane hne
    refine ⟨rfl, ?_⟩
    show acksOn lane (_ :: s.log) = _
    rw [acksOn_ack, if_neg (Ne.symm hne)]

theorem ReceiverOk.ackDue {counted : List (ℕ × DataFields)}
    {acks : List (ℕ × Acknowledgement)} {clock : Time}
    (h : ReceiverOk r counted acks clock) (now : Time) :
    ReceiverOk (r.ackDue now).1 counted acks clock ∧
      (r.ackDue now).1.remoteLane = r.remoteLane := by
  unfold Receiver.ackDue
  split
  · exact ⟨h, rfl⟩
  · split
    · exact ⟨{ h with }, rfl⟩
    · exact ⟨h, rfl⟩

/-- One turn of the loop over the receivers. -/
theorem StateOk.acknowledge (h : StateOk t s datagrams) (now : Time)
    (lane : PathID) :
    StateOk (t.acknowledge now lane).1
      (s.extend [] (t.acknowledge now lane).2) datagrams ∧
    (t.acknowledge now lane).1.toOutbound = t.toOutbound := by
  unfold Transport.acknowledge
  split
  · exact ⟨h, rfl⟩
  next r hr =>
    have hlane := Transport.remoteLane_of_receiver hr
    subst hlane
    obtain ⟨hdue, hdueLane⟩ := (h.inbound.receiver _ r hr).ackDue now
    split
    · exact ⟨h, rfl⟩
    next path hpath =>
      have hid := Transport.id_of_find hpath
      split
      · exact ⟨h, rfl⟩
      split
      · dsimp only
        split
        · exact ⟨h.sendAck hr hdueLane hdue (hid.symm ▸ hpath) now, rfl⟩
        · refine ⟨{ h with inbound := ?_ }, rfl⟩
          exact h.inbound.setReceiver _ hr hdueLane hdue
            (fun _ _ => ⟨rfl, rfl⟩) h.inbound.received h.inbound.unreported
      · exact ⟨h, rfl⟩

end SendAck

end Wanbond.Bond
