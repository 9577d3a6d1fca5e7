import Wanbond.Bond.Delivery

/-!
# The orders of bulk datagrams as they are delivered

Bulk orders grow with the transport sequences, and no faster.  A sequence is
delivered only while it is less than a receipt window below every sequence
delivered before, so its order is as close to the highest order delivered.
-/

namespace Wanbond.Bond

open Wanbond.Support

variable {w : World} {n m : Epoch}

theorem StampsOk.bulk_gap {stamps : List Stamp} (h : StampsOk stamps)
    {st st' : Stamp} (hst : st ∈ stamps) (hst' : st' ∈ stamps)
    (hbulk : st.order.interactive = false) (hbulk' : st'.order.interactive = false)
    (hle : st.seq ≤ st'.seq) :
    st.order.number ≤ st'.order.number ∧
      st'.order.number + st.seq ≤ st.order.number + st'.seq :=
  h.seqs.part_gap h.bulk hst hst' (by rw [hbulk]; rfl) (by rw [hbulk']; rfl) hle

theorem WorldOk.delivered_stamp (h : WorldOk w) {s : ℕ} {x : Delivery}
    (hx : (s, x) ∈ delivered ((w n).history m).log) :
    ∃ st ∈ ((w m).history n).stamps, st.seq = s ∧
      x.sequence = st.order.number ∧ x.interactive = st.order.interactive := by
  obtain ⟨lane, k, d, hd, hseq, hzero, rfl⟩ :=
    ((h.node n).history m).log.delivered_counted hx
  rcases ((h.node m).history n).log.sentOn_content (h.counted n m lane _ hd) with
    rfl | ⟨st, hst, rfl⟩
  · exact absurd hseq.symm hzero
  · exact ⟨st, hst, hseq, rfl, rfl⟩

/-- A bulk order of a sequence that is not overtaken by `s'` is less than a
receipt window below the order of `s'`. -/
theorem WorldOk.order_near (h : WorldOk w) {s s' : ℕ} {x x' : Delivery}
    (hx : (s, x) ∈ delivered ((w n).history m).log)
    (hx' : (s', x') ∈ delivered ((w n).history m).log)
    (hbulk : x.interactive = false) (hbulk' : x'.interactive = false)
    (hnear : s' < s + maxPackets) : x'.sequence < x.sequence + maxPackets := by
  obtain ⟨st, hst, rfl, hnumber, hclass⟩ := h.delivered_stamp hx
  obtain ⟨st', hst', rfl, hnumber', hclass'⟩ := h.delivered_stamp hx'
  rw [hclass] at hbulk
  rw [hclass'] at hbulk'
  rw [hnumber, hnumber']
  have hstamps := ((h.node m).history n).stamps
  rcases le_total st.seq st'.seq with hle | hle
  · have := hstamps.bulk_gap hst hst' hbulk hbulk' hle
    omega
  · have hgap := hstamps.bulk_gap hst' hst hbulk' hbulk hle
    have hpos : 0 < maxPackets := by decide
    omega

/-- A frame handed to a transport delivers nothing, or one datagram that is not
overtaken. -/
theorem LogOk.delivered_cons {self peer : Epoch} {stamps : List Stamp}
    {older : List Entry} {path : PathID} {f : Control} {counted : Bool}
    {ds : List Delivery}
    (h : LogOk self peer stamps (.received path f counted (.ok ds) :: older)) :
    ds = [] ∧ delivered (.received path f counted (.ok ds) :: older) =
        delivered older ∨
      ∃ s x, ds = [x] ∧ delivered (.received path f counted (.ok ds) :: older) =
        (s, x) :: delivered older ∧ ¬Overtaken older s := by
  cases h.1 with
  | duplicate | empty | repeated => exact .inl ⟨rfl, rfl⟩
  | delivered _ _ seq d _ _ _ _ hnear =>
    exact .inr ⟨d.seq, d.delivery, rfl, rfl, hnear⟩
  | processed => exact .inl ⟨rfl, rfl⟩

end Wanbond.Bond
