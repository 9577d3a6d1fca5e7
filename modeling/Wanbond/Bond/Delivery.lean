import Wanbond.Bond.WorldInvariant

/-!
# Delivery between two transports

The results of this module are about the histories of two nodes with each
other, in every world that a run reaches.  What is delivered was stamped by the
sender and is delivered once.  What an acknowledgement shows to have arrived
was counted by the peer on that lane.
-/

namespace Wanbond.Bond

open Wanbond.Support

variable {w : World} {n m : Epoch}

/-! ## What was counted -/

namespace WorldOk

theorem sentOn_numbered (h : WorldOk w) (m n : Epoch) (lane : PathID) :
    Numbered (sentOn lane ((w m).history n).log) :=
  ((h.node m).history n).log.sentOn_numbered lane

variable {lane : PathID} {d : DataFields}

theorem counted_of_sent (h : WorldOk w) {k : ℕ}
    (hsent : (k, d) ∈ sentOn lane ((w m).history n).log)
    (hcounted : k ∈ countedSeqs lane ((w n).history m).log) :
    (k, d) ∈ countedOn lane ((w n).history m).log := by
  obtain ⟨d', hd'⟩ := hcounted
  have hsent' := h.counted n m lane _ hd'
  rwa [(h.sentOn_numbered m n lane).unique hsent hsent']

/-- The bytes that an acknowledgement reports are those of the complete prefix
only if the whole prefix was counted. -/
theorem counted_of_bytes (h : WorldOk w) {a : Acknowledgement}
    {older : List Entry} (hs : older <:+ ((w n).history m).log)
    (ha : AckContent m older lane a) {base : ℕ} {sent : List (ℕ × DataFields)}
    (hsent : sent <:+ sentOn lane ((w m).history n).log)
    (hhigh : a.high ≤ sent.length)
    (hbytes : a.bytes = base + through DataFields.wireBytes a.high sent) {k : ℕ}
    (hd : (k, d) ∈ sent) (hk : k ≤ a.high) : (k, d) ∈ countedOn lane older := by
  have hnodup := (((h.node n).history m).log.suffix hs).countedOn_nodup lane
  have hnum := h.sentOn_numbered m n lane
  -- everything counted by then is among the frames already sent
  have hsub : ∀ e ∈ countedOn lane older, e ∈ sent ∧ e.1 ≤ a.high := by
    intro e he
    have hle : e.1 ≤ a.high := ha.high.1 e.1 ⟨e.2, he⟩
    have hin := h.counted n m lane e ((countedOn_suffix hs lane).subset he)
    obtain ⟨newer, hnewer⟩ := hsent
    rw [← hnewer] at hin hnum
    refine ⟨?_, hle⟩
    rcases List.mem_append.mp hin with hin | hin
    · have := hnum.lt_of_mem_append hin
      omega
    · exact hin
  have hge : through DataFields.wireBytes a.high sent ≤
      total DataFields.wireBytes (countedOn lane older) := by
    rw [← ha.bytes]
    omega
  exact mem_of_through_le_total hnodup hsub
    (fun e _ => e.2.wireBytes_pos) hge hd hk

theorem monotoneAcks_of_sent (h : WorldOk w)
    {processed : List (ℕ × Acknowledgement)}
    (hsub : ∀ e ∈ processed, e ∈ acksOn lane ((w n).history m).log) :
    MonotoneAcks processed := by
  intro e he e' he' hle
  exact (((h.node n).history m).log.acks_mono (hsub e he) (hsub e' he') hle).1

/-- What an acknowledgement shows to have arrived was counted by the peer. -/
theorem counted_of_showsArrival (h : WorldOk w) {revision : ℕ}
    {a : Acknowledgement}
    (hack : (revision, a) ∈ acksOn lane ((w n).history m).log)
    {processed : List (ℕ × Acknowledgement)}
    (hsub : ∀ e ∈ processed, e ∈ acksOn lane ((w n).history m).log)
    {sent : List (ℕ × DataFields)}
    (hsent : sent <:+ sentOn lane ((w m).history n).log) {base k : ℕ}
    (hd : (k, d) ∈ sent) (hshows : ShowsArrival base sent processed a k) :
    (k, d) ∈ countedOn lane ((w n).history m).log := by
  obtain ⟨older, hs, ha, -⟩ := ((h.node n).history m).log.ack_content hack
  rcases hshows with hbit | ⟨hk, hhigh, hbytes⟩
  · refine h.counted_of_sent (hsent.subset hd) ?_
    exact countedSeqs_mono hs lane ((ha.laneBit k).mp hbit).1
  · have hbytes := hbytes (h.monotoneAcks_of_sent hsub)
    exact (countedOn_suffix hs lane).subset
      (h.counted_of_bytes hs ha hsent hhigh hbytes hd hk)

end WorldOk

/-! ## Exactly-once delivery -/

/-- Every transport sequence is delivered at most once, with the datagram, the
class and the order that the sender stamped it with; the stamps are numbered
without gaps, in all and in each order space; and every DATA frame, first
transmission, copy or repair, repeats the stamp of its packet. -/
theorem delivery_exactly_once (events : List Event) (m n : Epoch) :
    let w := World.run events
    let sender := (w m).history n
    let receiver := (w n).history m
    ((delivered receiver.log).map Prod.fst).Nodup ∧
    (∀ s x, (s, x) ∈ delivered receiver.log → ∃ st ∈ sender.stamps,
      ∃ datagram, (w m).datagrams[st.ref]? = some datagram ∧ st.seq = s ∧
        x.payload = datagram.1 ∧
        x.interactive = decide (classify datagram.1.length datagram.2 ≠ .bulk) ∧
        x.interactive = st.order.interactive ∧
        x.sequence = st.order.number) ∧
    sender.stamps.map (fun st => st.seq) =
      (List.range' 1 sender.stamps.length).reverse ∧
    (∀ b, let space := sender.stamps.filter fun st => st.order.interactive == b
      space.map (fun st => st.order.number) =
        (List.range' 1 space.length).reverse) ∧
    (∀ lane k d, (k, d) ∈ sentOn lane sender.log → d.seq ≠ 0 →
      ∃ st ∈ sender.stamps, d = ⟨n, st.seq, st.order, st.payload⟩) := by
  intro w sender receiver
  have hw := worldOk_run events
  have hsender := (hw.node m).history n
  have hreceiver := (hw.node n).history m
  refine ⟨hreceiver.log.delivered_nodup, ?_, ?_, ?_, ?_⟩
  · intro s x hx
    obtain ⟨lane, k, d, hd, hseq, hzero, rfl⟩ :=
      hreceiver.log.delivered_counted hx
    rcases hsender.log.sentOn_content (hw.counted n m lane _ hd) with
      rfl | ⟨st, hst, rfl⟩
    · exact absurd hseq.symm hzero
    · obtain ⟨datagram, hget, hpayload, hclass⟩ := hsender.datagrams st hst
      exact ⟨st, hst, datagram, hget, hseq, hpayload, hclass, rfl, rfl⟩
  · have := hsender.stamps.seqs.map_fst
    simpa [List.map_map, Function.comp_def] using this
  · intro b
    cases b with
    | true =>
      have := hsender.stamps.small.map_fst
      simpa [List.map_map, Function.comp_def] using this
    | false =>
      have := hsender.stamps.bulk.map_fst
      simpa [List.map_map, Function.comp_def] using this
  intro lane k d hd hzero
  rcases hsender.log.sentOn_content hd with rfl | hst
  · exact absurd rfl hzero
  · exact hst

/-- A run of two nodes: each enters the other's epoch and leases one lane, a
datagram is sent and delivered, and its acknowledgement is sent and, in the
last event, processed. -/
def oneDatagram : List Event :=
  let a : Epoch := ⟨1, 1⟩
  let b : Epoch := ⟨2, 1⟩
  let metadata : PacketMetadata :=
    ⟨FlowID.zero, ⟨false, 0, 0, 0, 0, false, 0, 0⟩⟩
  [.call a (.setRemote b true), .call b (.setRemote a true),
   .call a (.path 1 1 0 second), .call b (.path 1 1 0 second),
   .call a (.enqueue [7] metadata second),
   .call a (.poll second .plain),
   .deliver b 1 a b 0 second .plain,
   .call b (.poll (second + ackInterval) .plain),
   .deliver a 1 b a 0 (second + ackInterval) .plain]

end Wanbond.Bond
