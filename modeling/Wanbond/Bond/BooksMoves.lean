import Wanbond.Bond.BooksInvariant

/-!
# The moves keep the invariant of the books

One step lemma for each kind of move.  A move of `Poll` accounts for every
packet that leaves a queue or stops being pending; a move of `Receive` changes
packets only by acknowledging them.
-/

namespace Wanbond.Bond

open Wanbond.Support

/-! ## The moves of `Poll` -/

namespace Books

variable {b : Books} {stamped : List PacketRef} {ref : PacketRef} {c : Class}

/-- The packet after its first transmission. -/
theorem exists_first (b : Books) (now : Time) (ref : PacketRef) (id : PathID)
    (lane : LaneCore) :
    ∃ p i j, p.seq = b.seq + 1 ∧ p.acked = (b.packets ref).acked ∧
      p.cls = (b.packets ref).cls ∧
      p.queueDeadline = (b.packets ref).queueDeadline ∧
      p.repairDeadline = (if (b.packets ref).interactive then
        (b.packets ref).created + maxPacketAge else now + maxPacketAge) ∧
      ((b.stamp now ref).send now ref id lane).toOutbound =
        { b.toOutbound with
          packets := Function.update b.packets ref p
          pending := b.pending.insert (b.seq + 1) ref
          pendingOrder := b.pendingOrder ++ [ref]
          seq := b.seq + 1
          interactiveSeq := i
          bulkSeq := j } := by
  refine ⟨Packet.transmitted (Packet.stamp (b.packets ref) now (b.seq + 1)
    (if (b.packets ref).interactive then
      ⟨true, if (b.packets ref).interactive then b.interactiveSeq + 1
        else b.interactiveSeq⟩
      else ⟨false, if (b.packets ref).interactive then b.bulkSeq
        else b.bulkSeq + 1⟩)) now id (lane.seq + 1),
    if (b.packets ref).interactive then b.interactiveSeq + 1
      else b.interactiveSeq,
    if (b.packets ref).interactive then b.bulkSeq else b.bulkSeq + 1,
    rfl, rfl, rfl, rfl, rfl, ?_⟩
  simp only [send, stamp, setLane, Function.update_self, Function.update_idem]
  rfl

theorem attempts_send (hattempts : ∀ id lane, b.lanes id = some lane →
      CarriesStamped stamped lane) (href : ref ∈ stamped) (now : Time)
    {id : PathID} {lane : LaneCore} (hlane : b.lanes id = some lane) :
    ∀ id' lane', (b.send now ref id lane).lanes id' = some lane' →
      CarriesStamped stamped lane' := by
  intro id' lane' hlane'
  simp only [send, setLane, Function.update_apply] at hlane'
  split at hlane'
  · rw [← Option.some.inj hlane']
    refine (hattempts id lane hlane).insert ?_ rfl
    intro ref' href'
    rwa [← Option.some.inj href']
  · exact hattempts id' lane' hlane'

theorem KeptAs.lookup_next (h : b.KeptAs stamped) :
    b.pending.lookup (b.seq + 1) = none := by
  rw [Option.eq_none_iff_forall_ne_some]
  intro ref hlookup
  obtain ⟨hmem, hseq, -⟩ := (h.pending.pending _ _).mp hlookup
  have := (h.pending.bounds ref (h.pending.known ref hmem)).2.2
  omega

/-- The counters over a first transmission. -/
theorem KeptAs.accounts_first {b₀ : Books} (h : b₀.KeptAs stamped)
    (hout : b.toOutbound = b₀.toOutbound)
    (hqueued : b₀.toStock.queued = b.toStock.queued + 1)
    (hdrops : b.drops = b₀.drops) (hexpired : b.expired = b₀.expired)
    (hbulk : b.queue.length + (if (b.packets ref).cls = .bulk then 1 else 0) ≤
      b₀.queue.length) (now : Time) (id : PathID) (lane : LaneCore) :
    b₀.Accounts ((b.stamp now ref).send now ref id lane) := by
  obtain ⟨p, i, j, -, -, hcls, -, -, heq⟩ := b.exists_first now ref id lane
  set b' := (b.stamp now ref).send now ref id lane with hb'
  have hseq : b'.seq = b₀.seq + 1 := by
    rw [← hout]
    exact congrArg Outbound.seq heq
  have hpending : b'.pending = b₀.pending.insert (b₀.seq + 1) ref := by
    rw [← hout]
    exact congrArg Outbound.pending heq
  have hpackets : b'.packets = Function.update b.packets ref p :=
    congrArg Outbound.packets heq
  have hnext := h.lookup_next
  have hlength : b'.pending.entries.length = b₀.pending.entries.length + 1 := by
    have hinsert := tally_insert_of_none (fun _ => 1) ref hnext
    rw [tally_one, tally_one] at hinsert
    rw [hpending, hinsert, add_comm]
  have hclass : ∀ ref', (b'.packets ref').cls = (b₀.packets ref').cls := by
    intro ref'
    rw [hpackets, cls_update hcls, hout]
  have hbulk' : b'.bulkPending =
      (if (b.packets ref).cls = .bulk then 1 else 0) + b₀.bulkPending := by
    have hinsert := tally_insert_of_none
      (fun ref => if (b₀.packets ref).cls = .bulk then 1 else 0) ref hnext
    rw [← hout] at hinsert
    rw [Outbound.bulkPending, hpending]
    simp only [hclass]
    rwa [← hout]
  have hstock : b'.toStock = b.toStock := rfl
  constructor
  · rw [hstock, hseq, hdrops]
    omega
  · rw [hlength, hseq, hstock, hexpired]
    omega
  · rw [hstock, hbulk']
    omega
  · exact le_of_eq hdrops.symm
  · exact le_of_eq hexpired.symm
  · rw [hseq]
    exact Nat.le_succ _

/-- The first transmission of a packet that has left its queue. -/
theorem KeptAs.first {b₀ : Books} (h : b₀.KeptAs stamped)
    (hids : b.ids = b₀.ids) (hlanes : b.lanes = b₀.lanes)
    (hout : b.toOutbound = b₀.toOutbound)
    (hqueues : QueuesKept b.packets b.allocated b.toStock)
    (hwaiting : ref ::ₘ b.toStock.waiting = b₀.toStock.waiting)
    (hwait : WaitsAs (b.packets ref) c) (now : Time) {id : PathID}
    {lane : LaneCore} (hlane : b.lanes id = some lane)
    (haccounts : b₀.Accounts ((b.stamp now ref).send now ref id lane)) :
    ((b.stamp now ref).send now ref id lane).KeptAs (ref :: stamped) := by
  have hmem : ref ∈ b₀.toStock.waiting := by
    rw [← hwaiting]
    exact Multiset.mem_cons_self ref _
  have hnotin : ref ∉ b.toStock.waiting := by
    have hnodup := h.queues.nodup
    rw [← hwaiting, Multiset.nodup_cons] at hnodup
    exact hnodup.1
  obtain ⟨p, i, j, hseq, hacked, -, -, -, heq⟩ := b.exists_first now ref id lane
  have hpending : PendingKept b.toOutbound stamped := hout ▸ h.pending
  constructor
  · show b.ids.Nodup
    rw [hids]
    exact h.ids
  · have hpackets : ((b.stamp now ref).send now ref id lane).packets =
        Function.update b.packets ref p := congrArg Outbound.packets heq
    rw [hpackets]
    refine hqueues.congr fun ref' href' => Function.update_of_ne ?_ _ _
    rintro rfl
    exact hnotin href'
  · rw [heq]
    refine hpending.first hwait.seq ?_ hseq (hacked.trans hwait.acked) i j
    rw [hout]
    exact h.queues.below ref hmem
  · refine attempts_send (b := b.stamp now ref) ?_ List.mem_cons_self now hlane
    intro id' lane' hlane'
    refine (h.attempts id' lane' ?_).mono (List.subset_cons_self ref stamped)
    rwa [← hlanes]
  · exact haccounts.room h.room

end Books

namespace PollMove

variable {now : Time} {b b' : Books} {stamped : List PacketRef}

theorem accounts_drop {b b' : Books} (hout : b'.toOutbound = b.toOutbound)
    (hqueued : b.toStock.queued = b'.toStock.queued + 1)
    (hdrops : b'.drops = b.drops + 1) (hexpired : b'.expired = b.expired)
    (hqueue : b'.queue.length ≤ b.queue.length) : b.Accounts b' := by
  constructor
  · rw [hdrops, hout]
    omega
  · rw [hout, hexpired]
  · rw [hout]
    exact Nat.add_le_add_right hqueue _
  · rw [hdrops]
    exact Nat.le_succ _
  · exact le_of_eq hexpired.symm
  · rw [hout]

theorem accounts_lane (b : Books) (id : PathID) (lane : LaneCore) :
    b.Accounts (b.setLane id lane) :=
  ⟨rfl, rfl, le_rfl, le_rfl, le_rfl, le_rfl⟩

/-- Every move of `Poll` keeps the counters in account. -/
theorem accounts (hmove : PollMove now b b') (h : b.KeptAs stamped) :
    b.Accounts b' := by
  cases hmove with
  | dropSmall _ hc hpeek =>
    obtain ⟨-, -, hqueued⟩ := h.queues.popSmall hc hpeek
    exact accounts_drop rfl hqueued rfl rfl le_rfl
  | dropLate hqueue | dropManaged hqueue =>
    obtain ⟨-, -, hqueued⟩ := h.queues.popBulk hqueue
    exact accounts_drop rfl hqueued rfl rfl (by simp [hqueue])
  | @firstSmall c ref id lane hc hpeek hlate hlane =>
    obtain ⟨-, -, hqueued⟩ := h.queues.popSmall hc hpeek
    have hcls := (h.queues.small c hc ref (Stock.mem_refs_of_peek hpeek)).cls
    refine h.accounts_first (b := b.popSmall c) rfl hqueued rfl rfl ?_ now id
      lane
    have hne : ((b.popSmall c).packets ref).cls ≠ .bulk := by
      rwa [show ((b.popSmall c).packets ref).cls = c from hcls]
    rw [if_neg hne]
    exact le_rfl
  | @firstBulk ref rest id lane hqueue hlate hlane =>
    obtain ⟨-, -, hqueued⟩ := h.queues.popBulk hqueue
    refine h.accounts_first (b := { b with queue := rest }) rfl hqueued rfl rfl
      ?_ now id lane
    rw [hqueue, List.length_cons]
    dsimp only
    split <;> omega
  | @again ref id lane href hacked hlane =>
    have hlookup : b.pending.lookup (b.packets ref).seq = some ref :=
      (h.pending.pending _ _).mpr ⟨href, rfl, hacked⟩
    have hinsert : ∀ f : PacketRef → ℕ,
        tally f (b.pending.insert (b.packets ref).seq ref) =
          tally f b.pending := fun f =>
      Nat.add_left_cancel (tally_insert_of_some f ref hlookup)
    have hlength : (b.send now ref id lane).pending.entries.length =
        b.pending.entries.length := by
      rw [← tally_one, ← tally_one]
      exact hinsert _
    have hbulk : (b.send now ref id lane).bulkPending = b.bulkPending := by
      refine Eq.trans ?_ (hinsert _)
      have hclass : ∀ ref', ((b.send now ref id lane).packets ref').cls =
        (b.packets ref').cls := cls_update rfl
      simp only [Outbound.bulkPending, hclass]
      rfl
    exact ⟨rfl, by rw [hlength]; rfl, by rw [hbulk]; exact le_rfl, le_rfl,
      le_rfl, le_rfl⟩
  | @settled l₁ l₂ ref horder hacked =>
    have href : ref ∈ b.pendingOrder := by simp [horder]
    have hnone := h.pending.lookup_of_acked (h.pending.known ref href) hacked
    rw [erase_of_none hnone]
    exact ⟨rfl, rfl, le_rfl, le_rfl, le_rfl, le_rfl⟩
  | @expire l₁ l₂ ref horder hacked hlate =>
    have href : ref ∈ b.pendingOrder := by simp [horder]
    have hlookup : b.pending.lookup (b.packets ref).seq = some ref :=
      (h.pending.pending _ _).mpr ⟨href, rfl, hacked⟩
    have hlength := tally_erase_of_some (fun _ => 1) hlookup
    rw [tally_one, tally_one] at hlength
    have hbulk := tally_erase_of_some
      (fun ref => if (b.packets ref).cls = .bulk then 1 else 0) hlookup
    refine ⟨rfl, ?_, ?_, le_rfl, Nat.le_succ _, le_rfl⟩
    · dsimp only
      omega
    · simp only [Outbound.bulkPending]
      omega
  | keepalive | timeOut | forget => exact accounts_lane b _ _

/-- Every move of `Poll` keeps the invariant. -/
theorem keptAs (hmove : PollMove now b b') (h : b.KeptAs stamped) :
    ∃ stamped', stamped ⊆ stamped' ∧ b'.KeptAs stamped' := by
  have haccounts := hmove.accounts h
  have hroom := haccounts.room h.room
  cases hmove with
  | dropSmall _ hc hpeek =>
    obtain ⟨hq, -, -⟩ := h.queues.popSmall hc hpeek
    exact ⟨stamped, List.Subset.refl _, { h with
      queues := ⟨hq.counted, hq.nodup, hq.below, hq.queue, hq.small⟩
      room := hroom }⟩
  | dropLate hqueue | dropManaged hqueue =>
    obtain ⟨hq, -, -⟩ := h.queues.popBulk hqueue
    exact ⟨stamped, List.Subset.refl _, { h with
      queues := ⟨hq.counted, hq.nodup, hq.below, hq.queue, hq.small⟩
      room := hroom }⟩
  | @firstSmall c ref id lane hc hpeek hlate hlane =>
    obtain ⟨hq, hwaiting, -⟩ := h.queues.popSmall hc hpeek
    exact ⟨ref :: stamped, List.subset_cons_self _ _,
      h.first (b := b.popSmall c) rfl rfl rfl hq hwaiting
        (h.queues.small c hc ref (Stock.mem_refs_of_peek hpeek)) now hlane
        haccounts⟩
  | @firstBulk ref rest id lane hqueue hlate hlane =>
    obtain ⟨hq, hwaiting, -⟩ := h.queues.popBulk hqueue
    exact ⟨ref :: stamped, List.subset_cons_self _ _,
      h.first (b := { b with queue := rest }) rfl rfl rfl hq hwaiting
        (h.queues.queue ref (by simp [hqueue])) now hlane haccounts⟩
  | @again ref id lane href hacked hlane =>
    have hstamped := h.pending.known ref href
    exact ⟨stamped, List.Subset.refl _,
      { ids := h.ids
        queues := h.queues.update (h.pending.seq_ne_zero hstamped) _
        pending := h.pending.again href hacked rfl hacked
        attempts := Books.attempts_send h.attempts hstamped now hlane
        room := hroom }⟩
  | settled horder =>
    exact ⟨stamped, List.Subset.refl _, { h with
      pending := h.pending.leave horder
      room := hroom }⟩
  | expire horder =>
    have hq := h.queues
    exact ⟨stamped, List.Subset.refl _, { h with
      queues := ⟨hq.counted, hq.nodup, hq.below, hq.queue, hq.small⟩
      pending := h.pending.leave horder
      room := hroom }⟩
  | @keepalive id lane hlane =>
    refine ⟨stamped, List.Subset.refl _, h.setLane id ?_⟩
    exact (h.attempts id lane hlane).insert (k := lane.seq + 1)
      (a := ⟨none, now, wireOverhead, false, false, lane.sent + wireOverhead⟩)
      (fun _ hnone => nomatch hnone) rfl
  | @timeOut id lane k a hlane ha hreleased =>
    refine ⟨stamped, List.Subset.refl _, h.setLane id ?_⟩
    have hcarries := h.attempts id lane hlane
    refine hcarries.insert (k := k) (a := { a with released := true })
      (hcarries k a · ha) ?_
    simp [LaneCore.put]
  | @forget id lane k a hlane ha =>
    refine ⟨stamped, List.Subset.refl _, h.setLane id ?_⟩
    refine (h.attempts id lane hlane).erase (k := k) ?_
    simp [LaneCore.forget]

end PollMove

/-! ## The moves of `Receive` -/

/-- What a move of `Receive` does: packets are acknowledged, and pending
packets settled. -/
structure Books.Settles (b b' : Books) : Prop where
  stock : b'.toStock = b.toStock
  seq : b'.seq = b.seq
  order : b'.pendingOrder = b.pendingOrder
  allocated : b'.allocated = b.allocated
  packets : ∀ ref, b'.packets ref = b.packets ref ∨
    b'.packets ref = { b.packets ref with acked := true }

namespace Books.Settles

theorem refl (b : Books) : b.Settles b :=
  ⟨rfl, rfl, rfl, rfl, fun _ => Or.inl rfl⟩

theorem trans {b₁ b₂ b₃ : Books} (h : b₁.Settles b₂) (h' : b₂.Settles b₃) :
    b₁.Settles b₃ where
  stock := h'.stock.trans h.stock
  seq := h'.seq.trans h.seq
  order := h'.order.trans h.order
  allocated := h'.allocated.trans h.allocated
  packets ref := by
    rcases h'.packets ref with heq' | heq' <;>
      rcases h.packets ref with heq | heq <;> simp [heq', heq]

theorem ackPacket (b : Books) (ref : PacketRef) (lanes : PathID → Option LaneCore)
    (pending : Pending) :
    b.Settles { b with
      lanes := lanes
      pending := pending
      packets := Function.update b.packets ref
        { b.packets ref with acked := true } } := by
  refine ⟨rfl, rfl, rfl, rfl, fun ref' => ?_⟩
  dsimp only
  by_cases hr : ref' = ref
  · rw [hr, Function.update_self]
    exact Or.inr rfl
  · rw [Function.update_of_ne hr]
    exact Or.inl rfl

variable {b b' : Books}

theorem cls (h : b.Settles b') (ref : PacketRef) :
    (b'.packets ref).cls = (b.packets ref).cls := by
  rcases h.packets ref with heq | heq <;> rw [heq]

end Books.Settles

namespace ReceiveMove

variable {b b' : Books} {stamped : List PacketRef}

theorem settles (hmove : ReceiveMove b b') : b.Settles b' := by
  cases hmove with
  | note => exact ⟨rfl, rfl, rfl, rfl, fun _ => Or.inl rfl⟩
  | receipt => exact .ackPacket b _ b.lanes _
  | @confirm id lane k a hlane ha =>
    cases hpacket : a.packet with
    | none => exact ⟨rfl, rfl, rfl, rfl, fun _ => Or.inl rfl⟩
    | some ref => exact .ackPacket b ref _ _
  | forget => exact ⟨rfl, rfl, rfl, rfl, fun _ => Or.inl rfl⟩
  | mark => exact .ackPacket b _ _ _

/-- The room over an acknowledged packet. -/
theorem room_settle (h : b.KeptAs stamped) (ref : PacketRef) (q : ℕ) :
    RoomKept { b.toOutbound with
      packets := Function.update b.packets ref
        { b.packets ref with acked := true }
      pending := b.pending.erase q } b.toStock := by
  have hle : ∀ f : PacketRef → ℕ,
      tally f (b.pending.erase q) ≤ tally f b.pending := by
    intro f
    cases hq : b.pending.lookup q with
    | none => rw [erase_of_none hq]
    | some ref' =>
      have := tally_erase_of_some f hq
      omega
  have hclass : ∀ ref', (Function.update b.packets ref
      { b.packets ref with acked := true } ref').cls = (b.packets ref').cls :=
    cls_update rfl
  have htotal := hle fun _ => 1
  have hbulk := hle fun ref => if (b.packets ref).cls = .bulk then 1 else 0
  rw [tally_one, tally_one] at htotal
  obtain ⟨hroom, hheadroom⟩ := h.room
  constructor
  · dsimp only
    omega
  · refine (Nat.add_le_add_left ?_ _).trans hheadroom
    simp only [Outbound.bulkPending, hclass]
    exact hbulk

/-- Every move of `Receive` keeps the invariant. -/
theorem keptAs (hmove : ReceiveMove b b') (h : b.KeptAs stamped) :
    b'.KeptAs stamped := by
  cases hmove with
  | @note id lane lane' hlane hsame hlease =>
    exact h.setLane id ((h.attempts id lane hlane).of_eq hsame.attempts)
  | @receipt q ref hpending =>
    obtain ⟨hmem, hseq, -⟩ := (h.pending.pending _ _).mp hpending
    have hstamped := h.pending.known ref hmem
    refine { h with
      queues := h.queues.update (h.pending.seq_ne_zero hstamped) _
      pending := h.pending.settle hstamped fun q' ref' => ?_
      room := room_settle h ref q }
    rw [← hseq]
    exact h.pending.lookup_erase_iff hstamped q' ref'
  | @confirm id lane k a hlane ha =>
    have hcarries := h.attempts id lane hlane
    have herase : CarriesStamped stamped
        (((lane.clear b.packets a).credit a).forget k) :=
      hcarries.erase (k := k) (by simp [LaneCore.forget, LaneCore.credit])
    have hset := h.setLane id herase
    cases hpacket : a.packet with
    | none => exact hset
    | some ref =>
      have hstamped := hcarries k a ref ha hpacket
      exact { hset with
        queues := h.queues.update (h.pending.seq_ne_zero hstamped) _
        pending := h.pending.settle hstamped
          (h.pending.lookup_erase_iff hstamped)
        room := room_settle h ref _ }
  | @forget id lane k a hlane ha =>
    refine h.setLane id ((h.attempts id lane hlane).erase (k := k) ?_)
    simp [LaneCore.forget]
  | @mark id lane k a ref hlane ha hpacket hacked =>
    have hcarries := h.attempts id lane hlane
    have hstamped := hcarries k a ref ha hpacket
    have hmarked : CarriesStamped stamped ((lane.clear b.packets a).put k
        { a with released := true, confirmed := true }) :=
      hcarries.insert (k := k)
        (a := { a with released := true, confirmed := true })
        (hcarries k a · ha) (by simp [LaneCore.put])
    have hset := h.setLane id hmarked
    have hnone : b.pending.lookup (b.packets ref).seq = none := by
      rcases hacked with hacked | hnone
      · exact h.pending.lookup_of_acked hstamped hacked
      · exact hnone
    have hpending := h.pending.settle hstamped
      (h.pending.lookup_erase_iff hstamped)
    have hroom := room_settle h ref (b.packets ref).seq
    rw [erase_of_none hnone] at hpending hroom
    exact { hset with
      queues := h.queues.update (h.pending.seq_ne_zero hstamped) _
      pending := hpending
      room := hroom }

end ReceiveMove

end Wanbond.Bond
