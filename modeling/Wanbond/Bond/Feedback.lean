import Wanbond.Bond.Delivery

/-!
# Honest feedback

Two results about the acknowledgements that a peer sends, in every world that a
run reaches.  An attempt that an acknowledgement removes from its lane, by its
bit in the lane bitmap or by equal byte totals, was counted by the peer.  And an
acknowledgement of the peer is turned away only because its revision was
processed before, or lies below the window of revisions.
-/

namespace Wanbond.Bond

open Wanbond.Support

/-! ## What an ACK frame can do -/

section Inversion

variable {t : Transport} {path : PathID} {header : PacketHeader} {now : Time}

theorem Transport.cause_of_validate {seq : ℕ} {e : RejectionError}
    (h : t.validate path header seq now = .error e) : e.cause ≠ .ack := by
  unfold validate at h
  split at h
  · cases h
    decide
  split at h
  · cases h
    decide
  split at h
  · cases h
    decide
  split at h
  · cases h
    decide
  · cases h

/-- The lane and the checks that an ACK frame reaches the last test with. -/
structure ReachesAck (t : Transport) (path : PathID) (header : PacketHeader)
    (a : Acknowledgement) (now : Time) (p : Lane) : Prop where
  find : t.find path = some p
  clock : t.lastTime ≤ now
  epoch : header.epoch = t.remote
  lane : header.lane = path
  observed : a.observed = t.epoch

/-- An ACK frame is rejected for another cause, or it reaches the last test:
then it is rejected as an acknowledgement, or processed. -/
theorem Transport.receive_ack_cases (t : Transport) (path : PathID)
    (revision : ℕ) (header : PacketHeader) (a : Acknowledgement) (now : Time)
    (order : MapOrder) :
    let r := t.receive path ⟨revision, .ack header (some a)⟩ now order
    (∃ e, r.2 = .error e ∧ e.cause ≠ .ack) ∨
    ∃ p, ReachesAck t path header a now p ∧
      ((∃ e, r.2 = .error e) ∧
          (t.impossible p revision a = true ∨
            (p.ackReceipts.mark revision).1 = false) ∨
        t.impossible p revision a = false ∧
          (p.ackReceipts.mark revision).1 = true ∧
          r = ({ t with lastTime := now }.ack (noteRevision p revision) a now
            (isFresh p revision) order, .ok [])) := by
  intro r
  rcases t.receive_cases path ⟨revision, .ack header (some a)⟩ now order with
    ⟨-, hr⟩ | ⟨hnow, hr⟩
  · exact Or.inl ⟨_, congrArg Prod.snd hr, by decide⟩
  simp only [Transport.receiveAt, Transport.onLane] at hr
  cases hv : Transport.validate { t with lastTime := now } path header
      revision now with
  | error e =>
    rw [hv] at hr
    exact Or.inl ⟨e, congrArg Prod.snd hr, Transport.cause_of_validate hv⟩
  | ok p =>
    rw [hv] at hr
    obtain ⟨hepoch, -, hfind, -⟩ := Transport.validate_ok hv
    obtain rfl := Transport.id_of_find hfind
    simp only [Transport.receiveAck] at hr
    split at hr
    · exact Or.inl ⟨_, congrArg Prod.snd hr, by decide⟩
    next hlane =>
      split at hr
      · exact Or.inl ⟨_, congrArg Prod.snd hr, by decide⟩
      split at hr
      · exact Or.inl ⟨_, congrArg Prod.snd hr, by decide⟩
      next hobserved =>
        refine Or.inr ⟨p, ⟨hfind, hnow, hepoch, not_not.mp hlane,
          not_not.mp hobserved⟩, ?_⟩
        split at hr
        next himpossible =>
          exact Or.inl ⟨⟨_, congrArg Prod.snd hr⟩, Or.inl himpossible⟩
        next hpossible =>
          split at hr
          next hmark =>
            exact Or.inl ⟨⟨_, congrArg Prod.snd hr⟩,
              Or.inr (by simpa using hmark)⟩
          next hmark =>
            exact Or.inr ⟨Bool.eq_false_iff.mpr hpossible,
              by simpa using hmark, hr⟩

end Inversion

/-! ## Honest acknowledgements are possible -/

section Possible

variable {w : World} {m : Epoch} {p : Lane} {revision : ℕ} {a : Acknowledgement}

theorem WorldOk.seq_le_of_delivered (h : WorldOk w) {s : ℕ}
    (hs : s ∈ deliveredSeqs ((w (w m).transport.remote).history m).log) :
    s ≤ (w m).transport.seq := by
  set n := (w m).transport.remote
  obtain ⟨x, hx⟩ := hs
  obtain ⟨lane, k, d, hd, rfl, hzero, -⟩ :=
    ((h.node n).history m).log.delivered_counted hx
  have hcurrent := (h.node m).current
  rcases ((h.node m).history n).log.sentOn_content (h.counted n m lane _ hd)
    with rfl | ⟨st, hst, rfl⟩
  · exact absurd rfl hzero
  · have hle := (hcurrent.stamps.seqs.bounds (List.mem_map_of_mem hst)).2
    rwa [List.length_map, ← hcurrent.outbound.seq] at hle

/-- An acknowledgement of the peer that is not newer than the newest one
processed reports no more. -/
theorem WorldOk.superseded (h : WorldOk w)
    (hfind : (w m).transport.find p.id = some p) (hack : (revision, a) ∈
      acksOn p.id ((w (w m).transport.remote).history m).log)
    (hlate : revision ≤ p.ackRevision) :
    a.high ≤ p.receivedHigh ∧ a.bytes ≤ p.ackedBytes ∧
      a.elapsed ≤ p.ackedElapsed := by
  have hpeer := ((h.node (w m).transport.remote).history m).log
  have hlane := (h.node m).current.lanes.lane p.id p.toLaneWire
    (Transport.wire_eq_some hfind)
  have hrevision := (hpeer.acksOn_numbered p.id).bounds hack
  rcases hlane.newest with ⟨hzero, -, -⟩ | ⟨b, hb, hbytes, helapsed⟩
  · omega
  obtain ⟨hhigh, hmono⟩ :=
    hpeer.acks_mono hack (h.processed m _ p.id _ hb) hlate
  refine ⟨hhigh.trans (hlane.receivedHigh.1 _ ⟨_, hb, rfl⟩), ?_⟩
  omega

/-- An acknowledgement of the peer passes the test for impossible ones. -/
theorem WorldOk.possible (h : WorldOk w)
    (hfind : (w m).transport.find p.id = some p) (hack : (revision, a) ∈
      acksOn p.id ((w (w m).transport.remote).history m).log) :
    (w m).transport.impossible p revision a = false := by
  set n := (w m).transport.remote with hn
  have hpeer := ((h.node n).history m).log
  have hlane := (h.node m).current.lanes.lane p.id p.toLaneWire
    (Transport.wire_eq_some hfind)
  obtain ⟨older, hs, ha, -⟩ := hpeer.ack_content hack
  -- the lane sequence was sent, and the receipts were stamped
  have hhigh : a.high ≤ p.seq := by
    rcases ha.high.2 with hzero | hmem
    · omega
    · obtain ⟨d, hd⟩ := countedSeqs_mono hs p.id hmem
      have hle := (h.sentOn_numbered m n p.id).bounds (h.counted n m p.id _ hd)
      exact hle.2.trans_eq hlane.seq.symm
  have hreceived : a.receivedHigh ≤ (w m).transport.seq := by
    obtain ⟨high, hishigh, -⟩ := ha.anchored
    refine (ha.anchored.le_high hishigh).trans ?_
    rcases hishigh.2 with hzero | hmem
    · omega
    · exact h.seq_le_of_delivered (deliveredSeqs_mono hs hmem)
  -- the totals agree with those of the newest acknowledgement
  have hfresh : p.ackRevision < revision →
      p.ackedBytes ≤ a.bytes ∧ p.ackedElapsed ≤ a.elapsed := by
    intro hlt
    rcases hlane.newest with ⟨-, hb, he⟩ | ⟨b, hb, hbytes, helapsed⟩
    · omega
    · have hmono := hpeer.acks_mono (h.processed m n p.id _ hb) hack hlt.le
      omega
  unfold Transport.impossible Transport.isFresh
  by_cases hlt : p.ackRevision < revision
  · have := hfresh hlt
    simp [hlt, not_lt.mpr hhigh, not_lt.mpr hreceived, not_lt.mpr this.1,
      not_lt.mpr this.2]
  · obtain ⟨-, hstale⟩ := h.superseded hfind hack (not_lt.mp hlt)
    simp [hlt, not_lt.mpr hhigh, not_lt.mpr hreceived, not_lt.mpr hstale.1,
      not_lt.mpr hstale.2]

/-- An acknowledgement that is accepted was sent by the present peer to this
epoch. -/
theorem WorldOk.accepted (h : WorldOk w) {sender peer : Epoch} {path : PathID}
    {header : PacketHeader} {now : Time} {order : MapOrder}
    (hsent : ⟨revision, .ack header (some a)⟩ ∈
      sentFrames ((w sender).history peer).log)
    (hok : ((w m).transport.receive path ⟨revision, .ack header (some a)⟩ now
      order).2 = .ok [])
    (hfind : (w m).transport.find path = some p) :
    let t := (w m).transport
    (revision, a) ∈ acksOn path ((w t.remote).history m).log ∧
      t.lastTime ≤ now ∧ t.impossible p revision a = false ∧
      (t.receive path ⟨revision, .ack header (some a)⟩ now order).1 =
        { t with lastTime := now }.ack (Transport.noteRevision p revision) a now
          (Transport.isFresh p revision) order := by
  rcases (w m).transport.receive_ack_cases path revision header a now order with
    ⟨e, he, -⟩ | ⟨q, hreach, ⟨⟨e, he⟩, -⟩ | ⟨hpossible, -, hr⟩⟩
  · cases hok.symm.trans he
  · cases hok.symm.trans he
  obtain rfl : q = p := Option.some.inj (hreach.find.symm.trans hfind)
  obtain ⟨hself, hpeer, hack⟩ := ((h.node sender).history peer).log.of_sentAck
    hsent
  obtain rfl : sender = (w m).transport.remote := hself.symm.trans hreach.epoch
  obtain rfl : peer = m :=
    hpeer.symm.trans (hreach.observed.trans (h.node m).epoch)
  rw [hreach.lane] at hack
  exact ⟨hack, hreach.clock, hpossible, congrArg Prod.fst hr⟩

end Possible

/-! ## Removed attempts arrived -/

/-- The attempt leaves the lane because its bit is set in the lane bitmap. -/
def RemovedByBitmap (p : Lane) (a : Acknowledgement) (k : ℕ) : Prop :=
  k ∈ p.attempts ∧ a.laneBit k = true

/-- The attempt leaves the lane in `confirmArrived`, because the byte totals
are equal. -/
def RemovedByTotals (scan : Transport.Scan) (a : Acknowledgement)
    (fresh : Bool) (order : MapOrder) (k : ℕ) : Prop :=
  k ∈ scan.lane.attempts ∧
    k ∉ (Transport.settlePrefix scan a fresh order).2.attempts

/-- The scan of the lane's attempts, as `ack` begins it. -/
def Transport.beginScan (t : Transport) (p : Lane) (revision : ℕ)
    (a : Acknowledgement) (now : Time) (order : MapOrder) : Transport.Scan :=
  let fresh := isFresh p revision
  let p := noteRevision p revision
  t.scan (noteProgress p a now (progresses p a fresh)) a now fresh order

variable {a : Acknowledgement}

theorem Transport.mem_arrived {k : ℕ} (hk : a.high < k) (keys : List ℕ)
    (s : Transport × Lane) (hmem : k ∈ s.2.attempts) :
    k ∈ (keys.foldl (Transport.arrivedTurn a) s).2.attempts := by
  induction keys generalizing s with
  | nil => exact hmem
  | cons seq keys ih =>
    refine ih _ ?_
    unfold Transport.arrivedTurn
    split
    · exact hmem
    next sent hsent =>
      split
      · exact hmem
      next hle =>
        rw [Transport.confirmOnLane_toLaneCore]
        refine AList.mem_erase.mpr ⟨by omega, ?_⟩
        rwa [LaneCore.credit, LaneCore.clear_toLaneWire]

theorem RemovedByTotals.prefixComplete {scan : Transport.Scan} {fresh : Bool}
    {order : MapOrder} {k : ℕ} (h : RemovedByTotals scan a fresh order k) :
    Transport.PrefixComplete scan a fresh ∧ k ≤ a.high := by
  obtain ⟨hmem, hgone⟩ := h
  obtain ⟨hattempts, -⟩ := Transport.rememberThrough_lane scan
  rcases Transport.settlePrefix_spec a fresh scan order with ⟨hc, heq⟩ | ⟨-, heq⟩
  · rw [heq] at hgone
    refine ⟨hc, ?_⟩
    by_contra hk
    refine hgone (Transport.mem_arrived (not_le.mp hk) _ _ ?_)
    rwa [hattempts]
  rw [heq] at hgone
  refine absurd hmem ?_
  cases fresh with
  | true => rwa [← hattempts]
  | false => exact hgone

/-- A removed attempt was recorded, and the acknowledgement shows that it
arrived. -/
theorem StateOk.removed_shows {t : Transport} {s : Stint} {p : Lane}
    {datagrams : List (Bytes × PacketMetadata)} {revision k : ℕ} {now : Time}
    {order : MapOrder} (h : StateOk t s datagrams)
    (hfind : t.find p.id = some p) (hhigh : a.high ≤ p.seq)
    (hremoved : RemovedByBitmap p a k ∨ RemovedByTotals
      (t.beginScan p revision a now order) a (Transport.isFresh p revision)
      order k) :
    (∃ sent, p.attempts.lookup k = some sent) ∧
      ShowsArrival (s.base p.id) (sentOn p.id s.log)
        ((revision, a) :: processedOn p.id s.log) a k := by
  rcases hremoved with ⟨hmem, hbit⟩ | htotals
  · exact ⟨Option.isSome_iff_exists.mp (AList.lookup_isSome.mpr hmem),
      Or.inl hbit⟩
  obtain ⟨hscan, hthrough⟩ := h.scanOk (a := a) hfind hhigh revision now
    (Transport.progresses (Transport.noteRevision p revision) a
      (Transport.isFresh p revision)) order
  obtain ⟨hcomplete, hk⟩ := htotals.prefixComplete
  have hp := h.processing hfind hhigh revision
  have hshows := hscan.showsArrival hp hthrough hcomplete hk
  obtain ⟨sent, hsent⟩ := Option.isSome_iff_exists.mp
    (AList.lookup_isSome.mpr htotals.1)
  obtain ⟨sent₀, hsent₀, -⟩ := hscan.loop.lane.attempts k sent hsent
  refine ⟨⟨sent₀, hsent₀⟩, ?_⟩
  simpa only [Stint.process, Stint.push, processedOn_ack, sentOn_received,
    if_true] using hshows

/-- Whenever an acknowledgement removes an attempt, by its bit or by equal byte
totals, the peer has counted the frame of that very attempt on that lane, in
the history of the two epochs with each other. -/
theorem removed_attempt_arrived (events : List Event) (m sender peer : Epoch)
    (path : PathID) (revision : ℕ) (header : PacketHeader)
    (a : Acknowledgement) (now : Time) (order : MapOrder) (p : Lane) (k : ℕ)
    (hsent : ⟨revision, .ack header (some a)⟩ ∈
      sentFrames ((World.run events sender).history peer).log)
    (hok : ((World.run events m).transport.receive path
      ⟨revision, .ack header (some a)⟩ now order).2 = .ok [])
    (hfind : (World.run events m).transport.find path = some p)
    (hremoved : RemovedByBitmap p a k ∨ RemovedByTotals
      ({ (World.run events m).transport with lastTime := now }.beginScan p
        revision a now order) a (Transport.isFresh p revision) order k) :
    let w := World.run events
    let n := (w m).transport.remote
    ∃ sent d, p.attempts.lookup k = some sent ∧
      Carries ((w m).history n).stamps sent.packet d ∧
      (k, d) ∈ sentOn path ((w m).history n).log ∧
      (k, d) ∈ countedOn path ((w n).history m).log := by
  intro w n
  have hw := worldOk_run events
  obtain ⟨hack, hclock, hpossible, -⟩ := hw.accepted hsent hok hfind
  obtain rfl := Transport.id_of_find hfind
  have hhigh : a.high ≤ p.seq := by
    by_contra hgt
    simp [Transport.impossible, not_le.mp hgt] at hpossible
  have hstate := (hw.node m).current.clock hclock
  obtain ⟨⟨sent, hlookup⟩, hshows⟩ := hstate.removed_shows hfind hhigh hremoved
  obtain ⟨d, hd, -, -, hcarries⟩ := (hstate.lanes.lane p.id p.toLaneWire
    (Transport.wire_eq_some hfind)).attempts k sent hlookup
  refine ⟨sent, d, hlookup, hcarries, hd, ?_⟩
  refine hw.counted_of_showsArrival hack ?_ (List.suffix_refl _) hd hshows
  intro e he
  rcases List.mem_cons.mp he with rfl | he
  · exact hack
  · exact hw.processed m n p.id e he

/-- An acknowledgement of a lane that passes the check is accepted. -/
def Transport.acceptsAck (t : Transport) (now : Time)
    (check : Control → Lane → Acknowledgement → Bool) (f : Control) : Bool :=
  match f.body, t.find 1, (t.receive 1 f now .plain).2 with
  | .ack _ (some a), some p, .ok [] => check f p a
  | _, _, _ => false

/-- The acknowledgement of one datagram removes its attempt. -/
theorem removed_attempt_arrived_oneDatagram :
    let events := oneDatagram.dropLast
    let w := World.run events
    let n := (w ⟨1, 1⟩).transport.remote
    ∃ revision header a p,
      ⟨revision, .ack header (some a)⟩ ∈
        sentFrames ((w ⟨2, 1⟩).history ⟨1, 1⟩).log ∧
      ((w ⟨1, 1⟩).transport.receive 1 ⟨revision, .ack header (some a)⟩
        (second + ackInterval) .plain).2 = .ok [] ∧
      (w ⟨1, 1⟩).transport.find 1 = some p ∧ RemovedByBitmap p a 1 ∧
      ∃ sent d, p.attempts.lookup 1 = some sent ∧
        Carries ((w ⟨1, 1⟩).history n).stamps sent.packet d ∧
        (1, d) ∈ sentOn 1 ((w ⟨1, 1⟩).history n).log ∧
        (1, d) ∈ countedOn 1 ((w n).history ⟨1, 1⟩).log := by
  intro events w n
  have hprocessed : ((sentFrames ((w ⟨2, 1⟩).history ⟨1, 1⟩).log).any
      ((w ⟨1, 1⟩).transport.acceptsAck (second + ackInterval) fun _ p a =>
        (p.attempts.lookup 1).isSome && a.laneBit 1)) = true := by decide +kernel
  obtain ⟨⟨revision, body⟩, hsent, hf⟩ := List.any_eq_true.mp hprocessed
  unfold Transport.acceptsAck at hf
  split at hf
  next header a p hbody hfind hok =>
    obtain rfl : body = .ack header (some a) := hbody
    obtain ⟨hmem, hbit⟩ := Bool.and_eq_true_iff.mp hf
    have hremoved : RemovedByBitmap p a 1 := ⟨AList.lookup_isSome.mp hmem, hbit⟩
    exact ⟨revision, header, a, p, hsent, hok, hfind, hremoved,
      removed_attempt_arrived events ⟨1, 1⟩ ⟨2, 1⟩ ⟨1, 1⟩ 1 revision header a _
        _ p 1 hsent hok hfind (Or.inl hremoved)⟩
  next => cases hf

/-! ## Rejected acknowledgements -/

/-- An acknowledgement that the peer has sent to this epoch is rejected as one
only if its revision was processed on the lane, or lies a window's width below
a revision that was. -/
theorem honest_ack_rejected (events : List Event) (m : Epoch) (path : PathID)
    (revision : ℕ) (header : PacketHeader) (a : Acknowledgement) (now : Time)
    (order : MapOrder) (e : RejectionError)
    (hsent : ⟨revision, .ack header (some a)⟩ ∈ sentFrames
      ((World.run events (World.run events m).transport.remote).history m).log)
    (hrejected : ((World.run events m).transport.receive path
      ⟨revision, .ack header (some a)⟩ now order).2 = .error e)
    (hcause : e.cause = .ack) :
    let processed := processedOn path ((World.run events m).history
      (World.run events m).transport.remote).log
    (∃ b, (revision, b) ∈ processed) ∨
      ∃ x ∈ processed, revision + maxPackets ≤ x.1 := by
  intro processed
  have hw := worldOk_run events
  set w := World.run events
  set n := (w m).transport.remote
  rcases (w m).transport.receive_ack_cases path revision header a now order with
    ⟨e', he', hne⟩ | ⟨p, hreach, ⟨-, htest⟩ | ⟨-, -, hok⟩⟩
  · rw [hrejected, Except.error.injEq] at he'
    exact absurd (he' ▸ hcause) hne
  · obtain rfl := Transport.id_of_find hreach.find
    obtain ⟨-, -, hack⟩ := ((hw.node n).history m).log.of_sentAck hsent
    rw [hreach.lane] at hack
    rw [hw.possible hreach.find hack] at htest
    have hmark : (p.ackReceipts.mark revision).1 = false := by simpa using htest
    have hlane := (hw.node m).current.lanes.lane p.id p.toLaneWire
      (Transport.wire_eq_some hreach.find)
    rcases hlane.revisions.of_mark_false hmark with hmem | hbelow
    · exact Or.inl hmem
    rcases hlane.revisions.high_mem with hzero | ⟨b, hb⟩
    · have : 0 < maxPackets := by decide
      omega
    · exact Or.inr ⟨_, hb, hbelow⟩
  · rw [hok] at hrejected
    cases hrejected

def Transport.rejectsAck (t : Transport) (now : Time) (f : Control) : Bool :=
  match f.body, (t.receive 1 f now .plain).2 with
  | .ack _ (some _), .error e => decide (e.cause = .ack)
  | _, _ => false

/-- The peer sends the acknowledgement of one datagram; processed once, it is
rejected when it arrives again. -/
theorem honest_ack_rejected_oneDatagram :
    let w := World.run oneDatagram
    ∃ revision header a e,
      ⟨revision, .ack header (some a)⟩ ∈
        sentFrames ((w (w ⟨1, 1⟩).transport.remote).history ⟨1, 1⟩).log ∧
      ((w ⟨1, 1⟩).transport.receive 1 ⟨revision, .ack header (some a)⟩
        (second + ackInterval) .plain).2 = .error e ∧ e.cause = .ack ∧
      ((∃ b, (revision, b) ∈ processedOn 1 ((w ⟨1, 1⟩).history
          (w ⟨1, 1⟩).transport.remote).log) ∨
        ∃ x ∈ processedOn 1 ((w ⟨1, 1⟩).history
          (w ⟨1, 1⟩).transport.remote).log, revision + maxPackets ≤ x.1) := by
  intro w
  have hrejected : ((sentFrames ((w (w ⟨1, 1⟩).transport.remote).history
      ⟨1, 1⟩).log).any ((w ⟨1, 1⟩).transport.rejectsAck
        (second + ackInterval))) = true := by decide +kernel
  obtain ⟨⟨revision, body⟩, hsent, hf⟩ := List.any_eq_true.mp hrejected
  unfold Transport.rejectsAck at hf
  split at hf
  next header a e hbody he =>
    obtain rfl : body = .ack header (some a) := hbody
    exact ⟨revision, header, a, e, hsent, he, of_decide_eq_true hf,
      honest_ack_rejected oneDatagram ⟨1, 1⟩ 1 revision header a _ _ e hsent he
        (of_decide_eq_true hf)⟩
  next => cases hf

end Wanbond.Bond
