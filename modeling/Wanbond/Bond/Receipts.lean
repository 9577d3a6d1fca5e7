import Wanbond.Bond.NodeInvariant

/-!
# No receipt is forgotten unreported

The receipts that no acknowledgement has reported are kept apart, the oldest
one first in every acknowledgement.  Each acknowledgement moves the oldest
unreported receipt up by a whole bitmap, so that a bounded number of them
reports all.

The results hold for a node under every sequence of calls, whatever frames it
is handed.
-/

namespace Wanbond.Bond

open Wanbond.Support

/-! ## What one entry reports -/

/-- The entry is an acknowledgement that was sent. -/
def Entry.isAck : Entry → Bool
  | .sent _ ⟨_, .ack _ (some _)⟩ => true
  | _ => false

def acksIn (log : List Entry) : ℕ := (log.filter Entry.isAck).length

theorem acksIn_cons (e : Entry) (log : List Entry) :
    acksIn (e :: log) = acksIn log + if e.isAck = true then 1 else 0 := by
  unfold acksIn
  rw [List.filter_cons]
  split <;> rfl

section Reports

variable {self peer : Epoch} {stamps : List Stamp} {log newer : List Entry}

theorem unreportedSeqs_cons {e : Entry} (h : e.deliveries = []) :
    unreportedSeqs (e :: log) ⊆ unreportedSeqs log := by
  have hdelivered : delivered (e :: log) = delivered log := by
    simp [delivered, h]
  have hseqs : deliveredSeqs (e :: log) = deliveredSeqs log := by
    simp only [deliveredSeqs, hdelivered]
  rintro s ⟨hs, hnear, hnew⟩
  rw [Overtaken, hseqs] at hnear
  rw [hseqs] at hs
  refine ⟨hs, hnear, ?_⟩
  rintro ⟨lane, revision, a, ha, hrec⟩
  refine hnew ⟨lane, revision, a, ?_, hrec⟩
  exact ((List.suffix_cons e log).filterMap _).subset ha

/-- An acknowledgement moves what is unreported up by a whole bitmap. -/
theorem AckContent.unreported_above {lane : PathID} {a : Acknowledgement}
    (ha : AckContent peer log lane a) {path : PathID} {revision lower s : ℕ}
    (hlower : ∀ s ∈ unreportedSeqs log, lower ≤ s)
    (hs : s ∈ unreportedSeqs (.sent path (ackFrame self lane revision a) :: log)) :
    lower + ackReceiptBits ≤ s := by
  have hold : s ∈ unreportedSeqs log := unreportedSeqs_cons rfl hs
  have hnot : ¬a.received s = true := by
    intro hrec
    refine hs.2.2 ?_
    rw [reportedSeqs_ack]
    exact Or.inr hrec
  have habove : a.receivedHigh < s := by
    by_contra hle
    exact hnot (ha.received_of_unreported hold (not_lt.mp hle))
  obtain ⟨high, hhigh, ⟨hempty, -⟩ | ⟨oldest, hleast, hanchor⟩⟩ := ha.anchored
  · rw [hempty] at hold
    cases hold
  · have h₁ := hhigh.1 s hold.1
    have h₂ := hlower oldest hleast.1
    omega

/-- Each acknowledgement sent since moves what is unreported up. -/
theorem LogOk.unreported_above (h : LogOk self peer stamps (newer ++ log))
    (hnone : delivered newer = []) {lower s : ℕ}
    (hlower : ∀ s ∈ unreportedSeqs log, lower ≤ s)
    (hs : s ∈ unreportedSeqs (newer ++ log)) :
    lower + ackReceiptBits * acksIn newer ≤ s := by
  induction newer generalizing s with
  | nil => simpa [acksIn] using hlower s hs
  | cons e newer ih =>
    obtain ⟨he, hold⟩ := h
    have hnone' : e.deliveries = [] ∧ delivered newer = [] := by
      simpa [delivered, List.append_eq_nil_iff] using hnone
    have hbefore : ∀ s ∈ unreportedSeqs (newer ++ log),
        lower + ackReceiptBits * acksIn newer ≤ s :=
      fun s hs => ih hold hnone'.2 hs
    by_cases hack : e.isAck = true
    · cases he with
      | ack path lane a ha =>
        have := ha.unreported_above hbefore hs
        rw [acksIn_cons, if_pos hack, Nat.mul_succ]
        omega
      | _ => cases hack
    · rw [acksIn_cons, if_neg hack, Nat.add_zero]
      exact hbefore s (unreportedSeqs_cons hnone'.1 hs)

/-- As many acknowledgements as bitmaps fit into a window report all. -/
theorem LogOk.unreported_empty (h : LogOk self peer stamps (newer ++ log))
    (hnone : delivered newer = []) {high : ℕ}
    (hhigh : IsHigh high (deliveredSeqs (newer ++ log)))
    (hacks : maxPackets / ackReceiptBits ≤ acksIn newer) :
    unreportedSeqs (newer ++ log) = ∅ := by
  rw [Set.eq_empty_iff_forall_notMem]
  intro s hs
  have hbits : ackReceiptBits * (maxPackets / ackReceiptBits) = maxPackets := by
    decide
  have hmul := Nat.mul_le_mul_left ackReceiptBits hacks
  have hseqs : deliveredSeqs (newer ++ log) = deliveredSeqs log := by
    simp only [deliveredSeqs, delivered, List.flatMap_append]
    simp only [delivered] at hnone
    rw [hnone, List.nil_append]
  -- the window of the older history bounds its unreported receipts from below
  have hlower : ∀ s ∈ unreportedSeqs log, high + 1 - maxPackets ≤ s := by
    intro s hs
    rcases hhigh.2 with hzero | hmem
    · have : 0 < maxPackets := by decide
      omega
    · by_contra hlt
      exact hs.2.1 ⟨high, hseqs ▸ hmem, by omega⟩
  have habove := h.unreported_above hnone hlower hs
  have hle := hhigh.1 s hs.1
  omega

end Reports

/-- In every state, with any frames received: a delivered sequence within the
window of the highest is unreported or was named by an acknowledgement; every
acknowledgement names the oldest receipt that was unreported before it; the two
windows have the same high mark; and once nothing more is delivered, 32
acknowledgements leave nothing unreported. -/
theorem no_receipt_forgotten (own : Epoch) (calls : List Call) :
    let n := Node.run own calls
    let t := n.transport
    let log := n.current.log
    (∀ s ∈ deliveredSeqs log, t.received.high < s + maxPackets →
      t.unreported.has s = true ∨ s ∈ reportedSeqs log) ∧
    (∀ newer path lane revision a older,
      log = newer ++ .sent path (ackFrame own lane revision a) :: older →
        ∀ s, IsLeast (unreportedSeqs older) s → a.received s = true) ∧
    t.unreported.high = t.received.high ∧
    (∀ newer older, log = newer ++ older → delivered newer = [] →
      32 ≤ acksIn newer → ∀ s, t.unreported.has s = false) := by
  intro n t log
  have hstate : StateOk t n.current n.datagrams := (nodeOk_run own calls).current
  have hlogOk : LogOk t.epoch t.remote n.current.stamps log := hstate.log
  have hin : InboundOk t.toInbound t.lastTime log := hstate.inbound
  refine ⟨?_, ?_, hin.unreported.high, ?_⟩
  · intro s hs hnear
    have hhas := (hin.received.has_iff s).mpr ⟨hs, hnear⟩
    by_cases hrep : s ∈ reportedSeqs log
    · exact Or.inr hrep
    · exact Or.inl ((hin.unreported.has s).mpr ⟨hhas, hrep⟩)
  · intro newer path lane revision a older hlog s hleast
    rw [hlog] at hlogOk
    obtain ⟨ha, -⟩ := hlogOk.suffix (List.suffix_append newer _)
    have hcontent : AckContent t.remote older lane a := by
      generalize hf : ackFrame own lane revision a = f at ha
      cases ha with
      | ack _ _ _ ha' =>
        simp only [ackFrame, Control.mk.injEq, Body.ack.injEq,
          PacketHeader.mk.injEq, Option.some.injEq] at hf
        obtain ⟨-, ⟨-, rfl⟩, rfl⟩ := hf
        exact ha'
      | keepalive => cases hf
      | data => cases hf
    refine hcontent.received_of_unreported hleast.1 ?_
    obtain ⟨high, hhigh, ⟨hempty, -⟩ | ⟨oldest, hleast', hanchor⟩⟩ :=
      hcontent.anchored
    · rw [hempty] at hleast
      cases hleast.1
    · rw [hleast.unique hleast', hanchor]
      exact Nat.le_add_right _ _
  · intro newer older hlog hnone hacks s
    have hhigh := hin.received.isHigh
    rw [hlog] at hlogOk hhigh
    have hempty := hlogOk.unreported_empty hnone hhigh hacks
    rw [← hlog, ← hin.unreported.has_unreported hin.received,
      Set.eq_empty_iff_forall_notMem] at hempty
    exact Bool.eq_false_iff.mpr (hempty s)

end Wanbond.Bond
