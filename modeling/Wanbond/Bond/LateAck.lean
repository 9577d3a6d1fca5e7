import Wanbond.Bond.AckStages
import Wanbond.Bond.Feedback

/-!
# Late acknowledgements

An acknowledgement that arrives after a newer one of its lane still tells what
has arrived, and is used for nothing else.  In every world that a run reaches,
it releases attempts and settles packets; the estimators, the target and the
totals of every lane stay as they were.
-/

namespace Wanbond.Bond

open Wanbond.Support

/-! ## What a late acknowledgement may change -/

/-- Receipts were merged into the lane.  Its attempts, its memory of the
revisions, how far the path reorders and how long it takes to confirm may have
changed, and bytes may have left the window. -/
structure Lane.Merged (p q : Lane) : Prop where
  target : q.toLaneTarget = p.toLaneTarget
  transit : q.toLaneTransit = p.toLaneTransit
  timing : q.toLaneTiming = { p.toLaneTiming with
    feedbackRTT := q.feedbackRTT
    feedbackRTTVariation := q.feedbackRTTVariation
    newestConfirmed := q.newestConfirmed
    reordering := q.reordering }
  wire : q.toLaneWire = { p.toLaneWire with
    attempts := q.attempts
    ackReceipts := q.ackReceipts }
  inflight : q.inflight ≤ p.inflight

variable {p : Lane}

namespace Lane.Merged

theorem refl (p : Lane) : p.Merged p := ⟨rfl, rfl, rfl, rfl, le_rfl⟩

theorem trans {q r : Lane} (h : p.Merged q) (h' : q.Merged r) : p.Merged r where
  target := h'.target.trans h.target
  transit := h'.transit.trans h.transit
  timing := by
    rw [h'.timing, h.timing]
  wire := by
    rw [h'.wire, h.wire]
  inflight := h'.inflight.trans h.inflight

end Lane.Merged

/-- The loops of a late acknowledgement merge receipts. -/
theorem keptByLoops_merged (now : Time) (p : Lane) :
    KeptByLoops now false p.Merged where
  release q heap a h := by
    refine h.trans ?_
    unfold Lane.release
    have hle : q.inflight - (a.bytes : ℤ) ≤ q.inflight := by omega
    cases a.packet with
    | none | some => exact ⟨rfl, rfl, rfl, rfl, hle⟩
  observeOrder q sent h := by
    refine h.trans ?_
    unfold Lane.observeOrder
    split
    · exact ⟨rfl, rfl, rfl, rfl, le_rfl⟩
    · exact .refl q
  credit q confirmed acked h := h.trans ⟨rfl, rfl, rfl, rfl, le_rfl⟩
  forget q seq h := h.trans ⟨rfl, rfl, rfl, rfl, le_rfl⟩
  confirm q seq a _ h := h.trans ⟨rfl, rfl, rfl, rfl, le_rfl⟩
  observeFeedbackRTT q sample h := by
    refine h.trans ?_
    unfold Lane.observeFeedbackRTT
    split
    · exact .refl q
    · split <;> exact ⟨rfl, rfl, rfl, rfl, le_rfl⟩
  observeHigh hfresh := nomatch hfresh
  remember hfresh := nomatch hfresh

/-! ## The estimators stay out of it -/

variable {revision : ℕ} {a : Acknowledgement}

namespace Transport

theorem noteRevision_late (hlate : isFresh p revision = false) :
    noteRevision p revision =
      { p with ackReceipts := (p.ackReceipts.mark revision).2 } := by
  simp only [noteRevision, hlate, Bool.false_eq_true, if_false]

theorem merged_note (hlate : isFresh p revision = false)
    (hhigh : a.high ≤ p.receivedHigh) (now : Time) :
    p.Merged (noteProgress (noteRevision p revision) a now false) := by
  rw [noteRevision_late hlate]
  unfold noteProgress
  simp only [Bool.false_eq_true, if_false, not_lt.mpr hhigh, gt_iff_lt,
    max_eq_left hhigh]
  exact ⟨rfl, rfl, rfl, rfl, le_rfl⟩

/-- A late acknowledgement that reports no higher lane sequence merges receipts
on every lane. -/
theorem merged_ack {t : Transport} (hfind : t.find p.id = some p)
    (hlate : isFresh p revision = false) (hhigh : a.high ≤ p.receivedHigh)
    (now : Time) (order : MapOrder) :
    LanesBy Lane.Merged t
      (t.ack (noteRevision p revision) a now false order) := by
  have hnote := merged_note hlate hhigh now
  dsimp only [ack]
  rw [show progresses (noteRevision p revision) a false = false from rfl]
  set p' := noteProgress (noteRevision p revision) a now false with hp'
  have hid : p'.id = p.id := (congrArg LaneWire.id hnote.wire).trans rfl
  have hfind' : t.find p'.id = some p := by
    rwa [hid]
  have hsettle := (LanesBy.setLane Lane.Merged.refl hfind' hnote).trans
    (fun _ _ _ h h' => h.trans h')
    (lanesBy_settle Lane.Merged.refl (fun _ _ _ h h' => h.trans h')
      (keptByLoops_merged now) hfind' a order)
  have hscan := high_scan t p' a now order
  split
  · exact hsettle
  next q hq =>
    refine hsettle.trans (fun _ _ _ h h' => h.trans h') ?_
    have hqid : q.id = p'.id := id_of_find hq
    unfold estimate observeLoss recordLoss
    simp only [Bool.false_eq_true, false_and, if_false, hscan, Bool.not_false,
      if_true]
    refine LanesBy.setLane (q := q) Lane.Merged.refl ?_
      ⟨rfl, rfl, rfl, rfl, le_rfl⟩
    rwa [hqid]

end Transport

/-! ## Pending packets -/

theorem ReceiveMove.pending_of_lookup {b b' : Books} (hmove : ReceiveMove b b')
    {q : ℕ} {ref : PacketRef} (h : b'.pending.lookup q = some ref) :
    b.pending.lookup q = some ref := by
  have herase : ∀ k, (b.pending.erase k).lookup q = some ref →
      b.pending.lookup q = some ref := by
    intro k hk
    by_cases hq : q = k
    · subst hq
      rw [AList.lookup_erase] at hk
      cases hk
    · rwa [AList.lookup_erase_ne hq] at hk
  cases hmove with
  | note => exact h
  | receipt => exact herase _ h
  | @confirm id lane k sent hlane ha =>
    unfold Books.settlePacket at h
    split at h
    · exact h
    · exact herase _ h
  | forget => exact h
  | mark => exact h

theorem Receives.pending_of_lookup {b b' : Books} (h : Receives b b') {q : ℕ}
    {ref : PacketRef} (hq : b'.pending.lookup q = some ref) :
    b.pending.lookup q = some ref := by
  induction h with
  | refl => exact hq
  | tail _ hmove ih => exact ih (hmove.pending_of_lookup hq)

/-! ## Honest late acknowledgements -/

/-- An accepted acknowledgement whose revision is not newer than the newest one
of its lane merges receipts and changes nothing else of any lane: in particular
no target rate, estimator, total or clock, and the bytes in flight do not grow.
No packet becomes pending, and none is marked as not acknowledged. -/
theorem late_ack_merges_receipts (events : List Event)
    (m sender peer : Epoch) (path : PathID) (revision : ℕ)
    (header : PacketHeader) (a : Acknowledgement) (now : Time)
    (order : MapOrder) (p : Lane)
    (hsent : ⟨revision, .ack header (some a)⟩ ∈
      sentFrames ((World.run events sender).history peer).log)
    (hok : ((World.run events m).transport.receive path
      ⟨revision, .ack header (some a)⟩ now order).2 = .ok [])
    (hfind : (World.run events m).transport.find path = some p)
    (hlate : revision ≤ p.ackRevision) :
    let t := (World.run events m).transport
    let t' := (t.receive path ⟨revision, .ack header (some a)⟩ now order).1
    t.LanesBy Lane.Merged t' ∧ t'.pendingOrder = t.pendingOrder ∧
      (∀ q ref, t'.pending.lookup q = some ref →
        t.pending.lookup q = some ref) ∧
      ∀ ref, (t.packets ref).acked = true → (t'.packets ref).acked = true := by
  intro t t'
  have hw := worldOk_run events
  have hreceives : Receives t.books t'.books :=
    t.receives_receive path _ now order
  have hsettles := hreceives.settles
  refine ⟨?_, hsettles.order, fun q ref hq => hreceives.pending_of_lookup hq,
    fun ref hacked => ?_⟩
  · obtain ⟨hack, -, -, hr⟩ := hw.accepted hsent hok hfind
    obtain rfl := Transport.id_of_find hfind
    obtain ⟨hhigh, -⟩ := hw.superseded hfind hack hlate
    have hstale : Transport.isFresh p revision = false :=
      decide_eq_false (not_lt.mpr hlate)
    have hmerged := Transport.merged_ack
      (t := { t with lastTime := now }) hfind hstale hhigh now order
    rw [hstale] at hr
    rwa [show t' = _ from hr]
  · rcases hsettles.packets ref with heq | heq
    · exact (congrArg Packet.acked heq).trans hacked
    · exact congrArg Packet.acked heq

/-- A run of two nodes in which two datagrams are acknowledged one by one, and
the second acknowledgement arrives first. -/
def crossedAcks : List Event :=
  let a : Epoch := ⟨1, 1⟩
  let b : Epoch := ⟨2, 1⟩
  let metadata : PacketMetadata :=
    ⟨FlowID.zero, ⟨false, 0, 0, 0, 0, false, 0, 0⟩⟩
  let later := second + ackInterval
  [.call a (.setRemote b true), .call b (.setRemote a true),
   .call a (.path 1 1 0 second), .call b (.path 1 1 0 second),
   .call a (.enqueue [7] metadata second), .call a (.poll second .plain),
   .deliver b 1 a b 0 second .plain, .call b (.poll later .plain),
   .call a (.enqueue [8] metadata later), .call a (.poll later .plain),
   .deliver b 1 a b 0 later .plain,
   .call b (.poll (later + ackInterval) .plain),
   .deliver a 1 b a 0 (later + ackInterval) .plain]

/-- The first acknowledgement is then late. -/
theorem late_ack_merges_receipts_crossedAcks :
    let w := World.run crossedAcks
    let t := (w ⟨1, 1⟩).transport
    let now := second + ackInterval + ackInterval
    ∃ revision header a p,
      ⟨revision, .ack header (some a)⟩ ∈
        sentFrames ((w ⟨2, 1⟩).history ⟨1, 1⟩).log ∧
      (t.receive 1 ⟨revision, .ack header (some a)⟩ now .plain).2 = .ok [] ∧
      t.find 1 = some p ∧ revision ≤ p.ackRevision ∧
      let t' := (t.receive 1 ⟨revision, .ack header (some a)⟩ now .plain).1
      t.LanesBy Lane.Merged t' ∧ t'.pendingOrder = t.pendingOrder ∧
        (∀ q ref, t'.pending.lookup q = some ref →
          t.pending.lookup q = some ref) ∧
        ∀ ref, (t.packets ref).acked = true →
          (t'.packets ref).acked = true := by
  intro w t now
  have hlate : ((sentFrames ((w ⟨2, 1⟩).history ⟨1, 1⟩).log).any
      (t.acceptsAck now fun f p _ => decide (f.seq ≤ p.ackRevision))) =
        true := by decide +kernel
  obtain ⟨⟨revision, body⟩, hsent, hf⟩ := List.any_eq_true.mp hlate
  unfold Transport.acceptsAck at hf
  split at hf
  next header a p hbody hfind hok =>
    obtain rfl : body = .ack header (some a) := hbody
    have hle := of_decide_eq_true hf
    exact ⟨revision, header, a, p, hsent, hok, hfind, hle,
      late_ack_merges_receipts crossedAcks ⟨1, 1⟩ ⟨2, 1⟩ ⟨1, 1⟩ 1 revision
        header a now .plain p hsent hok hfind hle⟩
  next => cases hf

end Wanbond.Bond
