import Wanbond.Bond.CallInvariant

/-!
# The invariant over DATA frames received

A frame that is new on its lane is counted by its receiver; its datagram is
delivered if its sequence is new within the window.  Both windows follow the
history, and so does the window of unreported receipts.
-/

namespace Wanbond.Bond

open Wanbond.Support

variable {datagrams : List (Bytes × PacketMetadata)}

/-! ## Windows -/

theorem LogOk.reported_delivered {self peer : Epoch} {stamps : List Stamp}
    {log : List Entry} (h : LogOk self peer stamps log) :
    reportedSeqs log ⊆ deliveredSeqs log := by
  rintro s ⟨lane, revision, a, ha, hs⟩
  obtain ⟨older, hsuffix, hcontent, -⟩ := h.ack_content ha
  exact deliveredSeqs_mono hsuffix ((hcontent.received s).mp hs).1

section Windows

variable {received unreported : ReceiptWindow} {log log' : List Entry} {s : ℕ}

/-- A delivered sequence is marked in both windows. -/
theorem UnreportedOk.mark (h : UnreportedOk received unreported log)
    (hreported : reportedSeqs log' = reportedSeqs log)
    (hnew : s ∉ reportedSeqs log) (hs : s ≠ 0)
    (hmark : (received.mark s).1 = true) :
    UnreportedOk (received.mark s).2 (unreported.mark s).2 log' := by
  have hfresh := ReceiptWindow.mark_eq_true.mp hmark
  have hmark' : (unreported.mark s).1 = true := by
    rw [ReceiptWindow.mark_eq_true, h.high]
    refine ⟨?_, hfresh.2⟩
    rw [Bool.eq_false_iff]
    intro hhas
    rw [((h.has s).mp hhas).1] at hfresh
    cases hfresh.1
  refine ⟨?_, h.grounded.mark hs, ?_⟩
  · rw [ReceiptWindow.mark_high, ReceiptWindow.mark_high, h.high]
  intro q
  rw [ReceiptWindow.mark_has hmark', ReceiptWindow.mark_has hmark, h.high,
    h.has, hreported]
  constructor
  · rintro ⟨rfl | ⟨hq, hout⟩, hin⟩
    · exact ⟨⟨Or.inl rfl, hin⟩, hnew⟩
    · exact ⟨⟨Or.inr hq, hin⟩, hout⟩
  · rintro ⟨⟨rfl | hq, hin⟩, hout⟩
    · exact ⟨Or.inl rfl, hin⟩
    · exact ⟨Or.inr ⟨hq, hout⟩, hin⟩

theorem ReceiptWindow.Tracks.delivered_or_overtaken
    (h : received.Tracks (deliveredSeqs log))
    (hmark : (received.mark s).1 = false) :
    s ∈ deliveredSeqs log ∨ Overtaken log s := by
  rcases h.of_mark_false hmark with hmem | hfar
  · exact Or.inl hmem
  refine Or.inr ⟨received.high, ?_, hfar⟩
  rcases h.high_mem with hzero | hmem
  · simp only [maxPackets, hzero] at hfar
    omega
  · exact hmem

theorem ReceiptWindow.Tracks.not_overtaken
    (h : received.Tracks (deliveredSeqs log))
    (hmark : (received.mark s).1 = true) : ¬Overtaken log s := by
  rintro ⟨s', hs', hfar⟩
  have hle := h.le_high s' hs'
  have hnear := (ReceiptWindow.mark_eq_true.mp hmark).2
  omega

end Windows

/-! ## Receivers -/

/-- The receiver of a counted frame. -/
theorem ReceiverOk.count {r : Receiver} {counted : List (ℕ × DataFields)}
    {acks : List (ℕ × Acknowledgement)} {clock now : Time}
    (h : ReceiverOk r counted acks clock) (hnow : clock ≤ now) {seq : ℕ}
    {d : DataFields} (hmark : (r.receipts.mark seq).1 = true) :
    ReceiverOk (Transport.countFrame r seq d.wireBytes now)
      ((seq, d) :: counted) acks now := by
  have hlate : r.highAt ≤ (if seq > r.receipts.high then now else r.highAt) := by
    split
    · exact h.clock.trans hnow
    · exact le_rfl
  constructor
  · rw [numbers_cons]
    exact h.receipts.mark hmark
  · simp only [Transport.countFrame, h.bytes, total_cons]
    omega
  · exact h.revision
  · exact h.started.trans hlate
  · simp only [Transport.countFrame]
    split
    · exact le_rfl
    · exact h.clock.trans hnow
  · intro e he
    refine (h.elapsed e he).trans (Int.toNat_le_toNat ?_)
    exact sub_le_sub_right hlate r.start

/-- The receiver that the first frame of a lane creates. -/
theorem receiverOk_new (now : Time) (path lane : PathID)
    {seq : ℕ} (hseq : seq ≠ 0) (d : DataFields) :
    ((Receiver.new path lane now).receipts.mark seq).1 = true ∧
    ReceiverOk (Transport.countFrame (Receiver.new path lane now) seq d.wireBytes
      now) [(seq, d)] [] now := by
  have hmark : (ReceiptWindow.empty.mark seq).1 = true := by
    rw [ReceiptWindow.mark_eq_true]
    simp [maxPackets]
  refine ⟨hmark, ?_⟩
  have hhigh : (Transport.countFrame (Receiver.new path lane now) seq d.wireBytes
      now).highAt = now := if_pos (Nat.pos_of_ne_zero hseq)
  have hnone : { k | ∃ y, (k, y) ∈ ([] : List (ℕ × DataFields)) } = ∅ := by
    simp
  constructor
  · rw [numbers_cons, hnone]
    exact ReceiptWindow.tracks_empty.mark hmark
  · simp [Transport.countFrame, Receiver.new]
  · rfl
  · exact hhigh.ge
  · exact hhigh.le
  · simp

section Open

variable {t : Transport} {lane : PathID}

theorem Transport.openReceiver_some {r : Receiver} (h : t.receiver lane = some r)
    (path : PathID) (now : Time) : t.openReceiver path lane now = (t, r) := by
  simp only [openReceiver, h]

theorem Transport.openReceiver_none (h : t.receiver lane = none)
    (path : PathID) (now : Time) :
    t.openReceiver path lane now =
      ({ t with receivers := t.receivers ++ [Receiver.new path lane now] },
        Receiver.new path lane now) := by
  simp only [openReceiver, h]

/-- The receivers after a frame was counted. -/
theorem Transport.receiver_count (t : Transport) (lane path : PathID)
    (now : Time) (seq bytes : ℕ) (lane' : PathID) :
    ((t.openReceiver path lane now).1.setReceiver
      (countFrame (t.openReceiver path lane now).2 seq bytes now)).receiver lane' =
    if lane' = lane then
      some (countFrame (t.openReceiver path lane now).2 seq bytes now)
    else t.receiver lane' := by
  cases hr : t.receiver lane with
  | some r =>
    rw [openReceiver_some hr]
    have hlane := remoteLane_of_receiver hr
    split
    next heq =>
      subst heq
      rw [← hlane] at hr ⊢
      exact receiver_setReceiver_self (r := countFrame r seq bytes now) hr
    next hne =>
      exact receiver_setReceiver_ne (r := countFrame r seq bytes now)
        (hlane ▸ hne)
  | none =>
    rw [openReceiver_none hr]
    split
    next heq =>
      subst heq
      refine receiver_setReceiver_self (q := Receiver.new path lane' now)
        (r := countFrame (Receiver.new path lane' now) seq bytes now) ?_
      show Keyed.lookup Receiver.remoteLane lane' (t.receivers ++ _) = _
      rw [Keyed.lookup_append_of_none hr]
      simp [Keyed.lookup, Receiver.new]
    next hne =>
      rw [receiver_setReceiver_ne
        (r := countFrame (Receiver.new path lane now) seq bytes now) hne]
      unfold receiver
      cases hold : Keyed.lookup Receiver.remoteLane lane' t.receivers with
      | some q => exact Keyed.lookup_append_of_some hold
      | none =>
        rw [Keyed.lookup_append_of_none hold]
        simp [Keyed.lookup, Receiver.new, Ne.symm hne]

end Open

/-! ## A counted frame -/

section Count

variable {t : Transport} {lane path : PathID} {seq : ℕ} {d : DataFields}
  {now : Time} {log : List Entry}

/-- The receiver that counts a frame follows the history, and the frame is new
on its lane. -/
theorem InboundOk.countFrame (h : InboundOk t.toInbound now log)
    (hseq : seq ≠ 0)
    (hmark : ((t.openReceiver path lane now).2.receipts.mark seq).1 = true) :
    seq ∉ countedSeqs lane log ∧
      ReceiverOk (Transport.countFrame (t.openReceiver path lane now).2 seq
        d.wireBytes now) ((seq, d) :: countedOn lane log) (acksOn lane log)
        now := by
  cases hr : t.receiver lane with
  | some r =>
    rw [Transport.openReceiver_some hr] at hmark ⊢
    have hok := h.receiver lane r hr
    exact ⟨hok.receipts.notMem_of_mark hmark, hok.count le_rfl hmark⟩
  | none =>
    rw [Transport.openReceiver_none hr]
    obtain ⟨hcounted, hacks⟩ := h.unknown lane hr
    rw [hcounted, hacks]
    refine ⟨?_, (receiverOk_new now path lane hseq d).2⟩
    rintro ⟨d', hd'⟩
    rw [hcounted] at hd'
    cases hd'

/-- The receivers follow the history after a frame was counted. -/
theorem InboundOk.count (h : InboundOk t.toInbound now log) (hseq : seq ≠ 0)
    (hmark : ((t.openReceiver path lane now).2.receipts.mark seq).1 = true)
    {log' : List Entry}
    (hcounted : ∀ l, countedOn l log' =
      if lane = l then (seq, d) :: countedOn l log else countedOn l log)
    (hacks : ∀ l, acksOn l log' = acksOn l log)
    {received unreported : ReceiptWindow}
    (hreceived : received.Tracks (deliveredSeqs log'))
    (hunreported : UnreportedOk received unreported log') :
    InboundOk ⟨((t.openReceiver path lane now).1.setReceiver
      (Transport.countFrame (t.openReceiver path lane now).2 seq d.wireBytes
        now)).receivers, received, unreported⟩ now log' := by
  have hlookup := t.receiver_count lane path now seq d.wireBytes
  constructor
  · intro l r hr
    change Transport.receiver _ l = some r at hr
    rw [hlookup] at hr
    rw [hcounted, hacks]
    split at hr
    next heq =>
      subst heq
      rw [if_pos rfl, ← Option.some.inj hr]
      exact (h.countFrame hseq hmark).2
    next hne =>
      rw [if_neg (Ne.symm hne)]
      exact h.receiver l r hr
  · intro l hr
    change Transport.receiver _ l = none at hr
    rw [hlookup] at hr
    rw [hcounted, hacks]
    split at hr
    · cases hr
    next hne =>
      rw [if_neg (Ne.symm hne)]
      exact h.unknown l hr
  · exact hreceived
  · exact hunreported

end Count

/-! ## Entries of received frames -/

section Push

variable {t t' : Transport} {s : Stint}

/-- A frame is received; the part of the state that sends is as it was. -/
theorem StateOk.push_received (h : StateOk t s datagrams) {path : PathID}
    {f : Control} {counted : Bool}
    {result : Except RejectionError (List Delivery)}
    (hentry : EntryOk t.epoch t.remote s.stamps s.log
      (.received path f counted result))
    (hquiet : t.Quiet { t' with toInbound := t.toInbound })
    (hprocessed : ∀ id, processedOn id (.received path f counted result :: s.log) =
      processedOn id s.log)
    (hin : InboundOk t'.toInbound t'.lastTime
      (.received path f counted result :: s.log)) :
    StateOk t' (s.push (.received path f counted result)) datagrams := by
  have hstate := h.quiet hquiet
  constructor
  · exact hstate.own
  · exact hstate.peer
  · exact ⟨by
      have hepoch : t'.epoch = t.epoch := hquiet.epoch
      have hremote : t'.remote = t.remote := hquiet.remote
      rw [hepoch, hremote]
      exact hentry, hstate.log⟩
  · exact hstate.stamps
  · exact hstate.outbound
  · intro st hst
    obtain ⟨lane, k, d, hd, hseq⟩ := hstate.sent st hst
    exact ⟨lane, k, d, by rw [Stint.push, sentOn_received]; exact hd, hseq⟩
  · exact fun st hst hack =>
      (hstate.acked st hst hack).mono (List.suffix_cons _ _) rfl
  · exact hstate.lanes.congr (fun id => sentOn_received id _ _ _ _ _) hprocessed
  · exact hstate.ids
  · exact hin

theorem StateOk.push_rejected (h : StateOk t s datagrams) (path : PathID)
    (f : Control) (e : RejectionError) :
    StateOk t (s.push (.received path f false (.error e))) datagrams := by
  refine h.push_received (.rejected path f e) (.refl t)
    (fun id => processedOn_error id _ _ _ _ _) ?_
  exact h.inbound.congr (fun lane => countedOn_uncounted lane _ _ _ _)
    (fun lane => acksOn_received lane _ _ _ _ _) (delivered_error _ _ _ _ _)

theorem isCounted_of_receivers (hreceivers : t'.receivers = t.receivers)
    (f : Control) : isCounted t t' f = false := by
  unfold isCounted
  split
  · simp [receivedBytes, Transport.receiver, hreceivers]
  · rfl

end Push

/-! ## DATA -/

section Data

variable {t : Transport} {s : Stint} {path : Lane} {lane : PathID} {seq : ℕ}
  {d : DataFields} {now : Time}

/-- The transport after a frame was counted. -/
def Transport.counted (t : Transport) (path lane : PathID) (seq : ℕ)
    (d : DataFields) (now : Time) : Transport :=
  (t.openReceiver path lane now).1.setReceiver
    (countFrame (t.openReceiver path lane now).2 seq d.wireBytes now)

theorem Transport.counted_eq (t : Transport) (path lane : PathID) (seq : ℕ)
    (d : DataFields) (now : Time) :
    t.counted path lane seq d now =
      { t with receivers := (t.counted path lane seq d now).receivers } := by
  unfold counted openReceiver
  split <;> rfl

theorem Transport.isCounted_counted (t' : Transport) (path : PathID)
    (header : PacketHeader) (fields : Option DataFields)
    (hreceivers : t'.receivers =
      (t.counted path header.lane seq d now).receivers) (k : ℕ) :
    isCounted t t' ⟨k, .data header fields⟩ = true := by
  have hnew : t'.receiver header.lane = some (countFrame
      (t.openReceiver path header.lane now).2 seq d.wireBytes now) := by
    have := t.receiver_count header.lane path now seq d.wireBytes header.lane
    rw [if_pos rfl] at this
    unfold receiver at this ⊢
    rw [hreceivers]
    exact this
  have hold : receivedBytes t header.lane =
      (t.openReceiver path header.lane now).2.bytes := by
    unfold receivedBytes openReceiver
    split
    next hr => rw [hr]; rfl
    next hr => rw [hr]; rfl
  have hmore : receivedBytes t' header.lane =
      (t.openReceiver path header.lane now).2.bytes + d.wireBytes := by
    simp [receivedBytes, hnew, countFrame]
  have hpos : 0 < d.wireBytes := by
    simp only [DataFields.wireBytes, wireOverhead, overhead, controlOverhead,
      headerBytes]
    omega
  simp only [isCounted, decide_eq_true_eq]
  omega

/-- What `deliver` does to a transport whose frame was counted. -/
theorem Transport.deliver_cases (t : Transport) (path : Lane) (d : DataFields) :
    ∃ u, (u = t ∨ u = t.setLane { path with
        bulkReceived := path.bulkReceived + 1 }) ∧
      ((t.received.mark d.seq).1 = true ∧
        t.deliver path d = ({ u with
          received := (t.received.mark d.seq).2
          unreported := (t.unreported.mark d.seq).2 }, [d.delivery]) ∨
      (t.received.mark d.seq).1 = false ∧
        t.deliver path d = (u.countDuplicate, [])) := by
  dsimp only [deliver]
  split
  · refine ⟨t, Or.inl rfl, ?_⟩
    split
    next hmark => exact Or.inl ⟨hmark, rfl⟩
    next hmark => exact Or.inr ⟨by simpa using hmark, rfl⟩
  refine ⟨_, Or.inr rfl, ?_⟩
  split
  next hmark => exact Or.inl ⟨hmark, rfl⟩
  next hmark => exact Or.inr ⟨by simpa using hmark, rfl⟩

theorem deliveredSeqs_delivered (path : PathID) (h : PacketHeader) (k : ℕ)
    (log : List Entry) :
    deliveredSeqs (.received path ⟨k, .data h (some d)⟩ true
      (.ok [d.delivery]) :: log) = insert d.seq (deliveredSeqs log) := by
  unfold deliveredSeqs
  rw [delivered_data]
  exact numbers_cons d.seq d.delivery (delivered log)

theorem reportedSeqs_received (path : PathID) (f : Control) (counted : Bool)
    (result : Except RejectionError (List Delivery)) (log : List Entry) :
    reportedSeqs (.received path f counted result :: log) = reportedSeqs log :=
  rfl

/-- A frame that is new on its lane. -/
theorem StateOk.accept_counted (h : StateOk t s datagrams)
    (hclock : t.lastTime = now) (hfind : t.find path.id = some path)
    (hseq : seq ≠ 0) (hdest : d.destination = t.epoch)
    (hmark : ((t.openReceiver path.id lane now).2.receipts.mark seq).1 = true) :
    let u := t.counted path.id lane seq d now
    let r := if d.seq = 0 then (u, []) else u.deliver path d
    r.1.receivers = u.receivers ∧
      StateOk r.1 (s.push (.received path.id
        ⟨seq, .data ⟨t.remote, lane⟩ (some d)⟩ true (.ok r.2))) datagrams := by
  intro u r
  have hin : InboundOk t.toInbound now s.log := hclock ▸ h.inbound
  have hnew := (hin.countFrame (d := d) hseq hmark).1
  have hu : u = { t with receivers := u.receivers } :=
    t.counted_eq path.id lane seq d now
  have hquiet : t.Quiet { u with toInbound := t.toInbound } := by
    rw [hu]
    exact .refl t
  have hwindows : u.received = t.received ∧ u.unreported = t.unreported ∧
      u.lastTime = now := by
    rw [hu]
    exact ⟨rfl, rfl, hclock⟩
  obtain ⟨hreceived, hunreported, huclock⟩ := hwindows
  have hcount := fun result l =>
    countedOn_data l path.id lane s.log t.remote seq d result
  -- the windows when nothing is delivered
  have hkeep : InboundOk ⟨u.receivers, t.received, t.unreported⟩ now
      (.received path.id ⟨seq, .data ⟨t.remote, lane⟩ (some d)⟩ true (.ok []) ::
        s.log) :=
    hin.count hseq hmark (hcount _) (fun _ => rfl) hin.received
      ⟨hin.unreported.high, hin.unreported.grounded, hin.unreported.has⟩
  have huin : u.toInbound = ⟨u.receivers, t.received, t.unreported⟩ := by
    rw [← hreceived, ← hunreported]
  by_cases hzero : d.seq = 0
  · have hr : r = (u, []) := if_pos hzero
    rw [hr]
    refine ⟨rfl, h.push_received (.empty path.id lane seq d hdest hnew hzero)
      hquiet (fun _ => rfl) ?_⟩
    rwa [huin, huclock]
  have hr : r = u.deliver path d := if_neg hzero
  obtain ⟨v, hv, hcase⟩ := u.deliver_cases path d
  have hvr : v.receivers = u.receivers ∧ v.lastTime = now := by
    rcases hv with rfl | rfl <;> exact ⟨rfl, huclock⟩
  have hvquiet : t.Quiet { v with toInbound := t.toInbound } := by
    rcases hv with rfl | rfl
    · exact hquiet
    · refine hquiet.trans (Transport.quiet_setLane (q := path) ?_ rfl)
      rwa [hu]
  rw [hr]
  rcases hcase with ⟨hmark', heq⟩ | ⟨hmark', heq⟩
  · rw [heq, hreceived, hunreported]
    rw [hreceived] at hmark'
    have hfresh := hin.received.notMem_of_mark hmark'
    refine ⟨hvr.1, h.push_received (.delivered path.id lane seq d hdest hnew
      hzero hfresh (hin.received.not_overtaken hmark')) hvquiet
      (fun _ => rfl) ?_⟩
    rw [hvr.1, hvr.2]
    refine hin.count hseq hmark (hcount _) (fun _ => rfl) ?_ ?_
    · rw [deliveredSeqs_delivered]
      exact hin.received.mark hmark'
    · exact hin.unreported.mark (reportedSeqs_received _ _ _ _ _)
        (fun hm => hfresh (h.log.reported_delivered hm)) hzero hmark'
  rw [heq]
  rw [hreceived] at hmark'
  refine ⟨hvr.1, h.push_received (.repeated path.id lane seq d hdest hnew
    (hin.received.delivered_or_overtaken hmark')) (hvquiet.trans
      ⟨rfl, rfl, rfl, rfl, rfl, rfl, rfl, le_rfl⟩) (fun _ => rfl) ?_⟩
  have hvin : v.toInbound = ⟨u.receivers, t.received, t.unreported⟩ := by
    rcases hv with rfl | rfl <;> exact huin
  show InboundOk v.toInbound v.lastTime _
  rwa [hvin, hvr.2]

theorem Transport.openReceiver_of_path (t : Transport) {path lane : PathID}
    {now : Time} (h : (t.openReceiver path lane now).2.path ≠ path) :
    (t.openReceiver path lane now).1 = t := by
  unfold openReceiver at h ⊢
  split
  · rfl
  next hr =>
    rw [hr] at h
    exact absurd rfl h

theorem Transport.openReceiver_of_mark (t : Transport) {path lane : PathID}
    {now : Time} {seq : ℕ} (hseq : seq ≠ 0)
    (h : ¬((t.openReceiver path lane now).2.receipts.mark seq).1 = true) :
    (t.openReceiver path lane now).1 = t := by
  unfold openReceiver at h ⊢
  split
  · rfl
  next hr =>
    rw [hr] at h
    exact absurd (receiverOk_new now path lane hseq
      ⟨Epoch.zero, 0, Order.zero, []⟩).1 h

/-- A DATA frame at its receiver. -/
theorem StateOk.accept (h : StateOk t s datagrams)
    (hclock : t.lastTime = now) (hfind : t.find path.id = some path)
    (hseq : seq ≠ 0) (hdest : d.destination = t.epoch) :
    let o := t.openReceiver path.id lane now
    let r := o.1.accept path o.2 seq d now
    let f : Control := ⟨seq, .data ⟨t.remote, lane⟩ (some d)⟩
    StateOk r.1 (s.push (.received path.id f (isCounted t r.1 f) (.ok r.2)))
      datagrams := by
  intro o r f
  by_cases hmark : (o.2.receipts.mark seq).1 = true
  · obtain ⟨hreceivers, hstate⟩ := h.accept_counted hclock hfind hseq hdest hmark
    have hr : r = if d.seq = 0 then (t.counted path.id lane seq d now, [])
        else (t.counted path.id lane seq d now).deliver path d := by
      simp only [r, Transport.accept]
      rw [if_pos hmark]
      rfl
    rw [← hr] at hreceivers hstate
    rwa [Transport.isCounted_counted r.1 path.id _ _ hreceivers]
  have ho : o.1 = t := t.openReceiver_of_mark hseq hmark
  have hr : r = (t.countDuplicate, []) := by
    simp only [r, Transport.accept]
    rw [if_neg hmark, ho]
  have hnot : isCounted t t.countDuplicate f = false :=
    isCounted_of_receivers rfl f
  rw [hr]
  rw [hnot]
  refine h.push_received (.duplicate path.id lane seq d)
    ⟨rfl, rfl, rfl, rfl, rfl, rfl, rfl, le_rfl⟩ (fun _ => rfl) ?_
  exact h.inbound.congr (fun l => countedOn_uncounted l _ _ _ _)
    (fun _ => rfl) rfl

/-- A DATA frame that has passed validation. -/
theorem StateOk.receiveData (h : StateOk t s datagrams)
    (hclock : t.lastTime = now) (hfind : t.find path.id = some path)
    (hseq : seq ≠ 0) (fields : Option DataFields) :
    let r := t.receiveData path lane seq fields now
    let f : Control := ⟨seq, .data ⟨t.remote, lane⟩ fields⟩
    StateOk r.1 (s.push (.received path.id f (isCounted t r.1 f) r.2))
      datagrams := by
  have hreject : ∀ (e : RejectionError) (f : Control),
      StateOk t (s.push (.received path.id f (isCounted t t f) (.error e)))
        datagrams := by
    intro e f
    rw [isCounted_of_receivers rfl]
    exact h.push_rejected path.id f e
  dsimp only [Transport.receiveData]
  split
  · exact hreject _ _
  split
  · exact hreject _ _
  next d =>
    split
    · exact hreject _ _
    split
    · exact hreject _ _
    next hdest =>
      split
      · exact hreject _ _
      split
      · exact hreject _ _
      split
      next hpath =>
        rw [t.openReceiver_of_path hpath]
        exact hreject _ _
      next =>
        exact h.accept hclock hfind hseq (not_not.mp hdest)

end Data

end Wanbond.Bond
