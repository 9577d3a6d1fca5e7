import Wanbond.Bond.Delivery

/-!
# What the two ends agree on

A packet that its sender holds to be acknowledged has reached the peer, and the
counters of a lane at its two ends differ by exactly the frames that the peer
has not counted.
-/

namespace Wanbond.Bond

open Wanbond.Support

/-! ## Acknowledged packets -/

/-- A sequence counted on a lane was delivered, or came a window's width behind
one that was. -/
theorem LogOk.delivered_of_counted {self peer : Epoch} {stamps : List Stamp}
    {log : List Entry} (h : LogOk self peer stamps log) {lane : PathID} {k : ℕ}
    {d : DataFields} (hd : (k, d) ∈ countedOn lane log) (hseq : d.seq ≠ 0) :
    d.seq ∈ deliveredSeqs log ∨ Overtaken log d.seq := by
  induction log with
  | nil => cases hd
  | cons e older ih =>
    obtain ⟨he, hold⟩ := h
    have hmono : d.seq ∈ deliveredSeqs older ∨ Overtaken older d.seq →
        d.seq ∈ deliveredSeqs (e :: older) ∨ Overtaken (e :: older) d.seq := by
      have hsub := deliveredSeqs_mono (List.suffix_cons e older)
      rintro (h | ⟨s, hs, hle⟩)
      · exact Or.inl (hsub h)
      · exact Or.inr ⟨s, hsub hs, hle⟩
    have hentry : ∀ {lane' : PathID} {seq : ℕ} {d' : DataFields},
        (k, d) ∈ (if lane' = lane then (seq, d') :: countedOn lane older
          else countedOn lane older) → d = d' ∨ (k, d) ∈ countedOn lane older := by
      intro lane' seq d' hd
      split at hd
      · exact (List.mem_cons.mp hd).imp_left fun heq => (Prod.mk.inj heq).2
      · exact Or.inr hd
    cases he with
    | empty _ _ _ _ _ _ hzero =>
      rw [countedOn_data] at hd
      rcases hentry hd with rfl | hd
      · exact absurd hzero hseq
      · exact hmono (ih hold hd)
    | repeated _ _ _ _ _ _ hrepeated =>
      rw [countedOn_data] at hd
      rcases hentry hd with rfl | hd
      · exact hmono hrepeated
      · exact hmono (ih hold hd)
    | delivered =>
      rw [countedOn_data] at hd
      rcases hentry hd with rfl | hd
      · exact Or.inl ⟨d.delivery, by simp⟩
      · exact hmono (ih hold hd)
    | _ => exact hmono (ih hold (by simpa using hd))

/-- What an acknowledgement processed from the peer names was counted by the
peer, or is among its deliveries. -/
theorem WorldOk.reached_of_named {w : World} (hw : WorldOk w) {m n : Epoch}
    {q : ℕ} (hq : q ≠ 0) (h : Named ((w m).history n) q) :
    q ∈ deliveredSeqs ((w n).history m).log ∨
      Overtaken ((w n).history m).log q := by
  obtain ⟨older, hs, lane, revision, a, ha, hreceived | ⟨k, d, hd, rfl, hshows⟩⟩ :=
    h
  · have hack := hw.processed m n lane _ ((hs.filterMap _).subset ha)
    obtain ⟨before, hbefore, hcontent, -⟩ :=
      ((hw.node n).history m).log.ack_content hack
    exact Or.inl (deliveredSeqs_mono hbefore
      ((hcontent.received q).mp hreceived).1)
  have hprocessed : ∀ e ∈ processedOn lane older,
      e ∈ acksOn lane ((w n).history m).log := fun e he =>
    hw.processed m n lane e ((hs.filterMap _).subset he)
  have hcounted := hw.counted_of_showsArrival (hprocessed _ ha) hprocessed
    (hs.filterMap _) hd hshows
  exact ((hw.node n).history m).log.delivered_of_counted hcounted hq

/-- Acknowledged means delivered.  Whatever the network does with the frames, a
packet that the sender has marked as acknowledged in the present pair of epochs
has been delivered by the peer, with its payload, class and order, unless a
sequence a whole receive window above its own was delivered. -/
theorem acknowledged_was_delivered (events : List Event) (m : Epoch)
    (st : Stamp) :
    let w := World.run events
    let n := (w m).transport.remote
    st ∈ ((w m).history n).stamps →
    ((w m).transport.packets st.ref).acked = true →
    (st.seq, ⟨st.order.number, st.order.interactive,
        ((w m).transport.packets st.ref).payload⟩) ∈
      delivered ((w n).history m).log ∨
    Overtaken ((w n).history m).log st.seq := by
  intro w n hst hacked
  have hw := worldOk_run events
  have hstate := (hw.node m).current
  have hsender := (hw.node m).history n
  have hpos : 0 < st.seq :=
    (hsender.stamps.seqs.bounds (List.mem_map_of_mem hst)).1
  refine (hw.reached_of_named hpos.ne' (hstate.acked st hst hacked)).imp_left ?_
  rintro ⟨x, hx⟩
  -- the delivery is that of a frame with this sequence, which has this stamp
  obtain ⟨lane, k, d, hd, hseq, hzero, rfl⟩ :=
    ((hw.node n).history m).log.delivered_counted hx
  rcases hsender.log.sentOn_content (hw.counted n m lane _ hd) with
    rfl | ⟨st', hst', rfl⟩
  · exact absurd hseq.symm hzero
  have hmem : (st.seq, st') ∈ ((w m).history n).stamps.map fun st =>
      (st.seq, st) := List.mem_map.mpr ⟨st', hst', Prod.ext hseq rfl⟩
  obtain rfl := hsender.stamps.seqs.unique hmem (List.mem_map_of_mem hst)
  rwa [(hstate.outbound.stamped st' hst).payload]

/-- The one datagram is acknowledged in the end. -/
theorem acknowledged_was_delivered_oneDatagram :
    let w := World.run oneDatagram
    ∃ st ∈ ((w ⟨1, 1⟩).history ⟨2, 1⟩).stamps,
      ((w ⟨1, 1⟩).transport.packets st.ref).acked = true ∧
      ((st.seq, ⟨st.order.number, st.order.interactive,
          ((w ⟨1, 1⟩).transport.packets st.ref).payload⟩) ∈
        delivered ((w ⟨2, 1⟩).history ⟨1, 1⟩).log ∨
      Overtaken ((w ⟨2, 1⟩).history ⟨1, 1⟩).log st.seq) := by
  have hremote : (World.run oneDatagram ⟨1, 1⟩).transport.remote = ⟨2, 1⟩ := by
    decide +kernel
  have hacked : (((World.run oneDatagram ⟨1, 1⟩).history ⟨2, 1⟩).stamps.any
      fun st => ((World.run oneDatagram ⟨1, 1⟩).transport.packets
        st.ref).acked) = true := by decide +kernel
  obtain ⟨st, hst, hst'⟩ := List.any_eq_true.mp hacked
  have hreached := acknowledged_was_delivered oneDatagram ⟨1, 1⟩ st
  dsimp only at hreached
  rw [hremote] at hreached
  exact ⟨st, hst, hst', hreached hst hst'⟩

/-! ## The counters of a lane -/

/-- Where both ends of a lane are in the present pair of epochs, the receiver's
bytes are those of the frames it has counted, each once and each sent on the
lane, and its reports are numbered without gaps.  They never exceed the bytes
that the sender has put on the lane since the pair began, and equal them only
if every frame of the lane was counted. -/
theorem lane_counters_agree (events : List Event) (m n : Epoch) (lane : PathID)
    (p : Lane) (r : Receiver) :
    let w := World.run events
    let sender := (w m).history n
    let sent := sentOn lane sender.log
    let counted := countedOn lane ((w n).history m).log
    (w m).transport.remote = n → (w n).transport.remote = m →
    (w m).transport.find lane = some p → (w n).transport.receiver lane = some r →
    p.seq = sent.length ∧ p.sent = sender.base lane +
      total DataFields.wireBytes sent ∧
    (counted.map Prod.fst).Nodup ∧ counted ⊆ sent ∧
    r.bytes = total DataFields.wireBytes counted ∧
    r.revision = (acksOn lane ((w n).history m).log).length ∧
    sender.base lane + r.bytes ≤ p.sent ∧
    (sender.base lane + r.bytes = p.sent ↔ sent ⊆ counted) := by
  intro w sender sent counted hm hn hp hr
  have hw := worldOk_run events
  have hnode := hw.node n
  have hsender := (hw.node m).current.lanes.lane lane p.toLaneWire
    (Transport.wire_eq_some hp)
  have hreceiver := hnode.current.inbound.receiver lane r hr
  rw [show (w m).current = sender from congrArg _ hm] at hsender
  rw [show (w n).current = (w n).history m from congrArg _ hn] at hreceiver
  have hnum : Numbered sent := hw.sentOn_numbered m n lane
  have hnodup := (hnode.history m).log.countedOn_nodup lane
  have hsub : counted ⊆ sent := fun x hx => hw.counted n m lane x hx
  have hle := total_le_of_subset DataFields.wireBytes hnodup hsub
  refine ⟨hsender.seq, hsender.total, hnodup, hsub, hreceiver.bytes,
    hreceiver.revision, ?_⟩
  rw [hsender.total, hreceiver.bytes, Nat.add_le_add_iff_left,
    Nat.add_left_cancel_iff]
  refine ⟨hle, fun heq e he => ?_, fun hall => ?_⟩
  · refine mem_of_through_le_total hnodup (fun e he => ⟨hsub he,
      (hnum.bounds (hsub he)).2⟩) (fun e _ => e.2.wireBytes_pos) ?_ he
      (hnum.bounds he).2
    rw [hnum.through_length, heq]
  · exact hle.antisymm
      (total_le_of_subset DataFields.wireBytes hnum.nodup hall)

theorem lane_counters_agree_oneDatagram :
    let w := World.run oneDatagram
    ∃ p r, (w ⟨1, 1⟩).transport.find 1 = some p ∧
      (w ⟨2, 1⟩).transport.receiver 1 = some r ∧
      ((w ⟨1, 1⟩).history ⟨2, 1⟩).base 1 + r.bytes ≤ p.sent := by
  intro w
  have hlane : ((w ⟨1, 1⟩).transport.find 1).isSome = true := by decide +kernel
  have hreceiver : ((w ⟨2, 1⟩).transport.receiver 1).isSome = true := by
    decide +kernel
  obtain ⟨p, hp⟩ := Option.isSome_iff_exists.mp hlane
  obtain ⟨r, hr⟩ := Option.isSome_iff_exists.mp hreceiver
  have hagree := lane_counters_agree oneDatagram ⟨1, 1⟩ ⟨2, 1⟩ 1 p r
    (by decide +kernel) (by decide +kernel) hp hr
  exact ⟨p, r, hp, hr, hagree.2.2.2.2.2.2.1⟩

/-- Feedback only grows.  The reports of a node about one lane of its peer are
numbered without gaps, a later one reports at least as much as every earlier
one, and the peer processes no other reports. -/
theorem reports_only_grow (events : List Event) (m n : Epoch) (lane : PathID) :
    let w := World.run events
    let reports := acksOn lane ((w n).history m).log
    reports.map Prod.fst = (List.range' 1 reports.length).reverse ∧
    (∀ i a j b, (i, a) ∈ reports → (j, b) ∈ reports → i ≤ j →
      a.high ≤ b.high ∧ a.bytes ≤ b.bytes ∧ a.elapsed ≤ b.elapsed) ∧
    processedOn lane ((w m).history n).log ⊆ reports := by
  intro w reports
  have hw := worldOk_run events
  have hlog := ((hw.node n).history m).log
  exact ⟨(hlog.acksOn_numbered lane).map_fst,
    fun i a j b ha hb hle => hlog.acks_mono ha hb hle,
    fun x hx => hw.processed m n lane x hx⟩

end Wanbond.Bond
