import Wanbond.Bond.AckStages
import Wanbond.Bond.Rejection
import Wanbond.Bond.Retention

/-!
# The arithmetic of feedback

The rates that an acknowledgement is turned into are differences of counters,
some of them taken from the acknowledgement itself.  `checkedAck` is `ack` with
every unsigned subtraction, division and table index of the delivery rates, the
sustained delivery, the loss ledger and the transit floors guarded: it returns
nothing where the plain computation would wrap around, divide by zero or leave
the table.  In every state that a run reaches it returns what `ack` returns,
for every acknowledgement that passes validation.
-/

namespace Wanbond.Bond

open Wanbond.Support

/-! ## Guarded operations -/

/-- Unsigned subtraction, unless it wraps around. -/
def checkedSub (a b : ℕ) : Option ℕ := if b ≤ a then some (a - b) else none

/-- Division, unless the divisor is zero. -/
def checkedDiv (a b : ℚ) : Option ℚ := if b = 0 then none else some (a / b)

theorem checkedSub_of_le {a b : ℕ} (h : b ≤ a) : checkedSub a b = some (a - b) :=
  if_pos h

theorem checkedDiv_of_ne {b : ℚ} (a : ℚ) (h : b ≠ 0) :
    checkedDiv a b = some (a / b) :=
  if_neg h

theorem seconds_ne_zero {d : Duration} (h : 0 < d) : seconds d ≠ 0 := by
  have hsecond : (second : ℚ) ≠ 0 := by
    unfold second
    norm_num
  have hd : (d : ℚ) ≠ 0 := by
    exact_mod_cast h.ne'
  exact div_ne_zero hd hsecond

/-! ## The guarded computations -/

namespace SustainedDelivery

/-- `trim`, guarded. -/
def checkedTrim (elapsed : ℕ) : List DeliveryMark → Option (List DeliveryMark)
  | first :: second :: rest => do
      let age ← checkedSub elapsed second.elapsed
      if age ≥ sustainedSpan then checkedTrim elapsed (second :: rest)
      else some (first :: second :: rest)
  | marks => some marks

/-- `record`, guarded. -/
def checkedRecord (d : SustainedDelivery) (now : Time) (bytes elapsed : ℕ) :
    Option SustainedDelivery := do
  let marks ← checkedTrim elapsed (d.marks ++ [⟨bytes, elapsed⟩])
  match marks with
  | [] => some { d with marks := marks }
  | oldest :: _ =>
    let age ← checkedSub elapsed oldest.elapsed
    if age ≥ sustainedSpan then
      let carried ← checkedSub bytes oldest.bytes
      let rate ← checkedDiv carried (seconds (age : ℤ))
      some { marks := marks, best := d.best.record now rate }
    else some { d with marks := marks }

end SustainedDelivery

namespace LossLedger

/-- The loop of `lost` over the horizons, guarded. -/
def checkedJudge (l : LossLedger) (now : Time) (recent : LossEntry) :
    List Duration → Option (ℚ × ℚ × ℚ)
  | [] => some (0, 0, 0)
  | horizon :: rest =>
    match lowest (settling now horizon) l.entries with
    | none => checkedJudge l now recent rest
    | some old =>
      if recent.seq ≤ old.seq then checkedJudge l now recent rest
      else do
        let datagrams ← checkedSub recent.seq old.seq
        if (datagrams : ℚ) ≥ judged ∨
            horizon + lossSettle > maxLossHorizon then
          let sent ← checkedSub recent.sent old.sent
          some (max 0 (recent.deficit - old.deficit), (sent : ℚ),
            (datagrams : ℚ))
        else checkedJudge l now recent rest

/-- `lost`, guarded. -/
def checkedLost (l : LossLedger) (now : Time) : Option (ℚ × ℚ × ℚ) :=
  match lowest (recent now) l.entries with
  | none => some (0, 0, 0)
  | some e => l.checkedJudge now e horizons

/-- `material`, guarded. -/
def checkedMaterial (l : LossLedger) (now : Time) : Option Bool := do
  let (lost, sent, datagrams) ← l.checkedLost now
  if datagrams > 0 then
    let share ← checkedDiv (startupLossEvents * sent) datagrams
    some (decide (lost ≥ share) && decide (lost ≥ startupLossRatio * sent))
  else some false

end LossLedger

/-- `observeRate`, guarded. -/
def Lane.checkedRate (p : Lane) (now : Time) (a : Acknowledgement) :
    Option Lane :=
  if p.feedbackAt = 0 then some (p.markRate now a)
  else do
    let elapsed ← checkedSub a.elapsed p.rateElapsed
    if (elapsed : ℤ) ≥ deliveryInterval ∧
        now - p.feedbackAt ≥ deliveryInterval then
      let bytes ← checkedSub a.bytes p.rateBytes
      let rate ← checkedDiv bytes (seconds (elapsed : ℤ))
      let sentBytes ← checkedSub p.sent p.rateSentBytes
      let sendRate ← checkedDiv sentBytes (seconds (now - p.feedbackAt))
      let p := { p with
        previousDelivery := p.deliverySample
        deliverySample := rate
        deliveryRate := if p.deliveryRate = 0 then rate
          else 8 / 10 * p.deliveryRate + 2 / 10 * rate
        sendRate := if p.deliveryRate = 0 then sendRate
          else 8 / 10 * p.sendRate + 2 / 10 * sendRate }
      let p := p.markRate now a
      let sustained ← p.sustained.checkedRecord now a.bytes a.elapsed
      some ({ p with sustained := sustained }.raiseToDelivery now)
    else some p

namespace Transport

/-- The attempt that a turn of the scan finds has a floor in the table, as it
is and after it is cleared. -/
def transitInTable (s : Scan) (seq : ℕ) : Bool :=
  match s.lane.attempts.lookup seq with
  | none => true
  | some sent =>
    decide (sent.bytes / transitSizeBucket < s.lane.transitBases.length) &&
      decide (sent.bytes / transitSizeBucket < transitBuckets)

/-- One turn of the scan, guarded. -/
def checkedTurn (a : Acknowledgement) (now : Time) (fresh : Bool) (s : Scan)
    (seq : ℕ) : Option Scan :=
  if transitInTable s seq then some (scanTurn a now fresh s seq) else none

/-- `scan`, guarded. -/
def checkedScan (t : Transport) (p : Lane) (a : Acknowledgement) (now : Time)
    (fresh : Bool) (order : MapOrder) : Option Scan :=
  let t := (order.keys .receipts p.id t.pending.keys).foldl (receiptTurn a) t
  (order.keys .bitmap p.id p.attempts.keys).foldlM (checkedTurn a now fresh)
    ⟨t, p, 0, p.newestConfirmed, none, 0⟩

/-- `observeLoss`, guarded. -/
def checkedLoss (heap : PacketHeap) (p : Lane) (a : Acknowledgement)
    (now : Time) (fresh : Bool) (high : Option Attempt) : Option Lane :=
  let p := recordLoss heap p a now high
  if fresh ∧ a.high ≥ p.roundEnd then do
    let lossy ← p.losses.checkedMaterial now
    some { p with
      roundEnd := p.seq + 1
      roundDone := true
      roundLossy := lossy }
  else some p

/-- `observeFresh`, guarded. -/
def checkedFresh (p : Lane) (a : Acknowledgement) (now : Time)
    (sample : Duration) (signals : Lane.Signals) : Option Lane := do
  let p ← (p.observeRTT now sample).checkedRate now a
  let p := { p with
    peakDelivery := max p.peakDelivery p.deliveryRate
    ackedBytes := a.bytes
    ackedElapsed := a.elapsed
    recentDelivery := p.recentDelivery.record now p.deliveryRate }
  let p := (p.boundByDelivery now signals.stream).1
  some ((p.observeGap now).controlInterval now sample signals)

/-- `estimate`, guarded. -/
def checkedEstimate (t : Transport) (p : Lane) (a : Acknowledgement)
    (now : Time) (fresh progressed backlogged : Bool) (silence : Duration)
    (s : Scan) : Option Transport := do
  let p := heardLane p progressed silence s
  let p ← checkedLoss t.packets p a now fresh s.high
  if !fresh then some (t.setLane p)
  else
    let signals : Lane.Signals :=
      { backlogged := backlogged
        laneLimited := t.laneLimited now
        realtime := decide (t.demand.realtime.rate now > 0)
        stream := t.demand.realtime.steady now }
    let p ← checkedFresh p a now s.sample signals
    some { t.setLane p with
      demand := { t.demand with realtime := t.demand.realtime.rotate now } }

/-- `ack`, guarded. -/
def checkedAck (t : Transport) (p : Lane) (a : Acknowledgement) (now : Time)
    (fresh : Bool) (order : MapOrder) : Option Transport := do
  let silence := p.model.progressAge now
  let progressed := progresses p a fresh
  let p := noteProgress p a now progressed
  let backlogged := decide (t.queued > 0) ||
    decide (p.inflight ≥ p.window.tdiv 2)
  let s ← t.checkedScan p a now fresh order
  let t := t.settle p a now fresh order
  match t.find p.id with
  | none => some t
  | some p => t.checkedEstimate p a now fresh progressed backlogged silence s

end Transport

/-! ## When the guards let the computations pass -/

variable {elapsed bytes : ℕ}

namespace SustainedDelivery

theorem mem_of_mem_trim {marks : List DeliveryMark} {m : DeliveryMark}
    (h : m ∈ trim elapsed marks) : m ∈ marks := by
  induction marks using trim.induct elapsed with
  | case1 _ _ _ hold ih =>
    rw [trim, if_pos hold] at h
    exact List.mem_cons_of_mem _ (ih h)
  | case2 _ _ _ hyoung =>
    rwa [trim, if_neg hyoung] at h
  | case3 _ hshort =>
    rw [trim] at h
    · exact h
    · exact hshort

theorem checkedTrim_eq {marks : List DeliveryMark}
    (h : ∀ m ∈ marks, m.elapsed ≤ elapsed) :
    checkedTrim elapsed marks = some (trim elapsed marks) := by
  induction marks using trim.induct elapsed with
  | case1 _ second _ hold ih =>
    rw [trim, if_pos hold, checkedTrim,
      checkedSub_of_le (h second (by simp))]
    exact (if_pos hold).trans
      (ih fun m hm => h m (List.mem_cons_of_mem _ hm))
  | case2 _ second _ hyoung =>
    rw [trim, if_neg hyoung, checkedTrim,
      checkedSub_of_le (h second (by simp))]
    exact if_neg hyoung
  | case3 _ hshort =>
    rw [trim, checkedTrim]
    · exact hshort
    · exact hshort

theorem mem_of_mem_record {d : SustainedDelivery} {now : Time}
    {m : DeliveryMark} (h : m ∈ (d.record now bytes elapsed).marks) :
    m ∈ d.marks ∨ m = ⟨bytes, elapsed⟩ := by
  have hmarks : (d.record now bytes elapsed).marks =
      trim elapsed (d.marks ++ [⟨bytes, elapsed⟩]) := by
    dsimp only [record]
    split
    · rfl
    · split <;> rfl
  rw [hmarks] at h
  simpa using mem_of_mem_trim h

/-- The marks are older counts of the same receiver. -/
theorem checkedRecord_eq {d : SustainedDelivery}
    (h : ∀ m ∈ d.marks, m.bytes ≤ bytes ∧ m.elapsed ≤ elapsed) (now : Time) :
    d.checkedRecord now bytes elapsed = some (d.record now bytes elapsed) := by
  have hall : ∀ m ∈ d.marks ++ [⟨bytes, elapsed⟩],
      m.bytes ≤ bytes ∧ m.elapsed ≤ elapsed := by
    intro m hm
    rcases List.mem_append.mp hm with hm | hm
    · exact h m hm
    · rw [List.mem_singleton.mp hm]
      exact ⟨le_rfl, le_rfl⟩
  have htrim : ∀ m ∈ trim elapsed (d.marks ++ [⟨bytes, elapsed⟩]),
      m.bytes ≤ bytes ∧ m.elapsed ≤ elapsed := fun m hm =>
    hall m (mem_of_mem_trim hm)
  unfold checkedRecord record
  rw [checkedTrim_eq fun m hm => (hall m hm).2]
  generalize trim elapsed (d.marks ++ [⟨bytes, elapsed⟩]) = marks at htrim ⊢
  cases marks with
  | nil => rfl
  | cons oldest rest =>
    obtain ⟨hbytes, helapsed⟩ := htrim oldest (by simp)
    simp only [Option.bind_eq_bind, Option.bind_some,
      checkedSub_of_le hbytes, checkedSub_of_le helapsed]
    by_cases hold : elapsed - oldest.elapsed ≥ sustainedSpan
    · have hpos : (0 : ℤ) < ((elapsed - oldest.elapsed : ℕ) : ℤ) := by
        have : 0 < sustainedSpan := by decide
        omega
      rw [if_pos hold, if_pos hold,
        checkedDiv_of_ne _ (seconds_ne_zero hpos)]
      rfl
    · rw [if_neg hold, if_neg hold]

end SustainedDelivery

namespace LossLedger

variable {l : LossLedger}

theorem mem_of_mem_record {now : Time} {seq sent received late : ℕ}
    {e : LossEntry} (h : e ∈ (l.record now seq sent received late).entries) :
    e ∈ l.entries ∨ e.seq = seq ∧ e.sent = sent := by
  obtain ⟨-, kept, hkept, heq | ⟨x, heq, -, hseq, hsent, -⟩⟩ :=
    l.record_cases now seq sent received late
  · rw [heq] at h
    exact Or.inl (hkept.subset h)
  rw [heq] at h
  rcases List.mem_append.mp h with h | h
  · exact Or.inl (hkept.subset h)
  · rw [List.mem_singleton.mp h]
    exact Or.inr ⟨hseq, hsent⟩

/-- Later sequences of the ledger have as many bytes sent through them. -/
def Ordered (l : LossLedger) : Prop :=
  ∀ e ∈ l.entries, ∀ e' ∈ l.entries, e.seq ≤ e'.seq → e.sent ≤ e'.sent

theorem checkedLost_eq (h : l.Ordered) (now : Time) :
    l.checkedLost now = some (l.lost now) := by
  unfold checkedLost lost
  cases hrecent : lowest (recent now) l.entries with
  | none => rfl
  | some e =>
    have he := (lowest_spec hrecent).1
    dsimp only
    generalize horizons = hs
    induction hs with
    | nil => rfl
    | cons horizon _ ih =>
      rw [List.findSome?_cons, checkedJudge]
      cases hold : lowest (settling now horizon) l.entries with
      | none => exact ih
      | some old =>
        dsimp only
        by_cases hseq : e.seq ≤ old.seq
        · rw [if_pos hseq, if_pos hseq]
          exact ih
        have hle := not_le.mp hseq
        rw [if_neg hseq, if_neg hseq, checkedSub_of_le hle.le,
          checkedSub_of_le (h old (lowest_spec hold).1 e he hle.le)]
        dsimp only [Option.bind_eq_bind, Option.bind_some]
        split
        · rfl
        · exact ih

theorem checkedMaterial_eq (h : l.Ordered) (now : Time) :
    l.checkedMaterial now = some (l.material now) := by
  unfold checkedMaterial material
  rw [checkedLost_eq h]
  obtain ⟨lost, sent, datagrams⟩ := l.lost now
  dsimp only [Option.bind_eq_bind, Option.bind_some]
  by_cases hpos : datagrams > 0
  · rw [if_pos hpos, checkedDiv_of_ne _ (ne_of_gt hpos), decide_eq_true hpos]
    rfl
  · rw [if_neg hpos, decide_eq_false hpos]
    rfl

end LossLedger

/-- The counters that feedback is measured from are the same. -/
structure Lane.SameMarks (p q : Lane) : Prop where
  bases : p.transitBases.length = transitBuckets →
    q.transitBases.length = transitBuckets
  feedbackAt : q.feedbackAt = p.feedbackAt
  rateBytes : q.rateBytes = p.rateBytes
  rateElapsed : q.rateElapsed = p.rateElapsed
  rateSentBytes : q.rateSentBytes = p.rateSentBytes
  marks : q.sustained.marks = p.sustained.marks
  entries : q.losses.entries = p.losses.entries

namespace Lane

variable {p : Lane}

theorem Steered.sameMarks {q : Lane} (h : p.Steered q) : p.SameMarks q := by
  have hsame : ∀ bases, q.standing = { p.standing with bases := bases } →
      (p.transitBases.length = transitBuckets → bases.length = transitBuckets) →
      p.SameMarks q := fun bases h hbases =>
    ⟨fun hp => (congrArg (fun x => x.bases.length) h).trans (hbases hp),
      congrArg Standing.feedbackAt h, congrArg Standing.rateBytes h,
      congrArg Standing.rateElapsed h, congrArg Standing.rateSentBytes h,
      congrArg Standing.marks h, congrArg Standing.entries h⟩
  rcases h with h | h
  · exact hsame p.transitBases h fun hp => hp
  · exact hsame clearTransitBases h fun _ => List.length_replicate

theorem SameGauges.sameMarks {q : Lane} (h : p.SameGauges q) :
    p.SameMarks q where
  bases := h.bases
  feedbackAt := congrArg LaneTarget.feedbackAt h.target
  rateBytes := congrArg LaneTarget.rateBytes h.target
  rateElapsed := congrArg LaneTarget.rateElapsed h.target
  rateSentBytes := congrArg LaneTarget.rateSentBytes h.target
  marks := congrArg (fun x : LaneTarget => x.sustained.marks) h.target
  entries := congrArg (fun x : LaneTarget => x.losses.entries) h.target

end Lane

/-! ## The counters of one lane -/

/-- The counters that feedback is measured from are behind the totals `bytes`
and `elapsed`, and the ledger names sequences that were sent, with the bytes
sent through them. -/
structure Lane.Metered (p : Lane) (bytes elapsed base : ℕ)
    (sent : List (ℕ × DataFields)) : Prop where
  bases : p.transitBases.length = transitBuckets
  rateBytes : p.feedbackAt ≠ 0 → p.rateBytes ≤ bytes
  rateElapsed : p.feedbackAt ≠ 0 → p.rateElapsed ≤ elapsed
  rateSentBytes : p.rateSentBytes ≤ p.sent
  marks : ∀ m ∈ p.sustained.marks, m.bytes ≤ bytes ∧ m.elapsed ≤ elapsed
  entries : ∀ e ∈ p.losses.entries, e.seq ≤ sent.length ∧
    e.sent = base + through DataFields.wireBytes e.seq sent

variable {a : Acknowledgement}

namespace Lane.Metered

variable {p q : Lane} {bytes elapsed base : ℕ} {sent : List (ℕ × DataFields)}

theorem ordered (h : p.Metered bytes elapsed base sent) : p.losses.Ordered := by
  intro e he e' he' hseq
  rw [(h.entries e he).2, (h.entries e' he').2]
  exact Nat.add_le_add_left (through_mono hseq sent) base

theorem same (h : p.Metered bytes elapsed base sent) (hsame : p.SameMarks q)
    (hsent : p.sent ≤ q.sent) : q.Metered bytes elapsed base sent where
  bases := hsame.bases h.bases
  rateBytes hfeedback := by
    rw [hsame.feedbackAt] at hfeedback
    rw [hsame.rateBytes]
    exact h.rateBytes hfeedback
  rateElapsed hfeedback := by
    rw [hsame.feedbackAt] at hfeedback
    rw [hsame.rateElapsed]
    exact h.rateElapsed hfeedback
  rateSentBytes := by
    rw [hsame.rateSentBytes]
    exact h.rateSentBytes.trans hsent
  marks := by
    rw [hsame.marks]
    exact h.marks
  entries := by
    rw [hsame.entries]
    exact h.entries

theorem mono (h : p.Metered bytes elapsed base sent) {bytes' elapsed' : ℕ}
    (hbytes : bytes ≤ bytes') (helapsed : elapsed ≤ elapsed') :
    p.Metered bytes' elapsed' base sent :=
  { h with
    rateBytes := fun hfeedback => (h.rateBytes hfeedback).trans hbytes
    rateElapsed := fun hfeedback => (h.rateElapsed hfeedback).trans helapsed
    marks := fun m hm => ⟨(h.marks m hm).1.trans hbytes,
      (h.marks m hm).2.trans helapsed⟩ }

theorem extend (h : p.Metered bytes elapsed base sent)
    {new : List (ℕ × DataFields)} (hnum : Numbered (new ++ sent)) :
    p.Metered bytes elapsed base (new ++ sent) :=
  { h with
    entries := by
      intro e he
      obtain ⟨hseq, hsent⟩ := h.entries e he
      refine ⟨?_, ?_⟩
      · rw [List.length_append]
        omega
      · rw [hnum.through_append hseq]
        exact hsent }

theorem recordLoss (h : p.Metered bytes elapsed base sent) (heap : PacketHeap)
    (now : Time) {high : Option Attempt}
    (hhigh : ∀ attempt, high = some attempt → a.high ≤ sent.length ∧
      attempt.through = base + through DataFields.wireBytes a.high sent) :
    (Transport.recordLoss heap p a now high).Metered bytes elapsed base sent := by
  cases high with
  | none => exact h
  | some attempt =>
    refine { h with entries := ?_ }
    intro e he
    rcases LossLedger.mem_of_mem_record he with he | ⟨hseq, hsent⟩
    · exact h.entries e he
    · rw [hseq, hsent]
      exact hhigh attempt rfl

/-- The delivery interval ends or goes on with totals that have not gone
back. -/
theorem observeRate (h : p.Metered a.bytes a.elapsed base sent) (now : Time) :
    (p.observeRate now a).Metered a.bytes a.elapsed base sent := by
  have hmark : ∀ q : Lane, q.Metered a.bytes a.elapsed base sent →
      (q.markRate now a).Metered a.bytes a.elapsed base sent := fun q hq =>
    { hq with
      rateBytes := fun _ => le_rfl
      rateElapsed := fun _ => le_rfl
      rateSentBytes := le_rfl }
  have hraise : ∀ q : Lane, q.Metered a.bytes a.elapsed base sent →
      (q.raiseToDelivery now).Metered a.bytes a.elapsed base sent := fun q hq =>
    have hstanding := q.raiseToDelivery_standing now
    hq.same (Steered.sameMarks (.inl hstanding))
      (congrArg (fun x => x.core.sent) hstanding).ge
  unfold Lane.observeRate
  split
  · exact hmark p h
  split
  · refine hraise _ { hmark p h with marks := ?_ }
    intro m hm
    rcases SustainedDelivery.mem_of_mem_record hm with hm | rfl
    · exact h.marks m hm
    · exact ⟨le_rfl, le_rfl⟩
  · exact h

end Lane.Metered

/-! ## The counters of a transport -/

/-- The counters of every lane are behind the totals of the newest
acknowledgement on it. -/
structure Transport.Metered (t : Transport) (s : Stint)
    (datagrams : List (Bytes × PacketMetadata)) : Prop where
  state : StateOk t s datagrams
  books : t.books.Sound
  lengths : ∀ x ∈ datagrams, x.1.length ≤ maxDatagram
  lanes : ∀ id p, t.find id = some p →
    p.Metered p.ackedBytes p.ackedElapsed (s.base id) (sentOn id s.log)

namespace Transport

variable {t t' : Transport} {s s' : Stint}
  {datagrams datagrams' : List (Bytes × PacketMetadata)}

variable {p : Lane}

/-- An attempt carries a datagram that `Enqueue` accepted, or a keepalive. -/
theorem Metered.transitBucket (h : t.Metered s datagrams) {id : PathID}
    (hp : t.find id = some p) {k : ℕ} {sent : Attempt}
    (hsent : p.attempts.lookup k = some sent) :
    sent.bytes / transitSizeBucket < transitBuckets := by
  obtain ⟨d, hd, hbytes, -, -⟩ := (h.state.lanes.lane id p.toLaneWire
    (wire_eq_some hp)).attempts k sent hsent
  have hlength : d.payload.length ≤ maxDatagram := by
    rcases h.state.log.sentOn_content hd with rfl | ⟨st, hst, rfl⟩
    · exact Nat.zero_le _
    have hallocated := h.state.outbound.allocated st hst
    rw [← h.state.outbound.length] at hallocated
    have hget := List.getElem?_eq_getElem hallocated
    have hpayload := (h.state.outbound.stamped st hst).payload.symm.trans
      (h.state.outbound.holds st.ref _ hget).payload
    rw [hpayload]
    exact h.lengths _ (List.getElem_mem hallocated)
  rw [hbytes, DataFields.wireBytes, transitBuckets]
  exact Nat.lt_succ_of_le (Nat.div_le_div_right (by omega))

theorem Metered.of_gauges (h : t.Metered s datagrams)
    (hstate : StateOk t' s' datagrams') (hbooks : t'.books.Sound)
    (hlengths : ∀ x ∈ datagrams', x.1.length ≤ maxDatagram)
    (hsame : LanesBy Lane.SameGauges t t') (hbase : s'.base = s.base)
    (hlog : ∀ id, ∃ new, sentOn id s'.log = new ++ sentOn id s.log) :
    t'.Metered s' datagrams' := by
  refine ⟨hstate, hbooks, hlengths, ?_⟩
  intro id q hq
  obtain ⟨p, hp, hpq⟩ := hsame.find hq
  obtain ⟨new, hnew⟩ := hlog id
  have hnum := hstate.log.sentOn_numbered id
  rw [hbase, hpq.ackedBytes, hpq.ackedElapsed]
  rw [hnew] at hnum ⊢
  exact ((h.lanes id p hp).same hpq.sameMarks hpq.sent).extend hnum

theorem sentOn_extend (s : Stint) (new : List Stamp) (out : List Transmission)
    (id : PathID) :
    ∃ more, sentOn id (s.extend new out).log = more ++ sentOn id s.log := by
  rw [Stint.extend, Stint.send_log, sentOn, List.filterMap_append]
  exact ⟨_, rfl⟩

theorem Metered.enqueue (h : t.Metered s datagrams) (payload : Bytes)
    (metadata : PacketMetadata) (now : Time) :
    ∃ datagrams', (t.enqueue payload metadata now).1.Metered s datagrams' := by
  refine ⟨_, h.of_gauges (h.state.enqueue payload metadata now)
    (sound_enqueue h.books payload metadata now) ?_
    (gauges_of_paths (t.enqueue_frame payload metadata now).1) rfl
    fun id => ⟨[], rfl⟩⟩
  split
  next hgrow =>
    -- a datagram of another length is not queued
    have hlength : payload.length ≤ maxDatagram := by
      by_contra hlong
      unfold Transport.enqueue at hgrow
      obtain ⟨e, htime⟩ | ⟨-, htime⟩ := t.checkTime_cases now
      · rw [htime] at hgrow
        exact Nat.lt_irrefl _ hgrow
      rw [htime] at hgrow
      dsimp only at hgrow
      rw [if_pos (Or.inr (not_le.mp hlong))] at hgrow
      exact Nat.lt_irrefl _ hgrow
    intro x hx
    rcases List.mem_append.mp hx with hx | hx
    · exact h.lengths x hx
    · rwa [List.mem_singleton.mp hx]
  · exact h.lengths

theorem Metered.poll (h : t.Metered s datagrams) (now : Time)
    (order : MapOrder) :
    ∃ s', (t.poll now order).1.Metered s' datagrams := by
  have hsame := gauges_poll h.books.kept now order
  have hbooks := sound_apply h.books (.poll now order)
  by_cases hnow : now < t.lastTime
  · have hpoll : (t.poll now order).1 = t := by
      simp only [Transport.poll, checkTime, if_pos hnow]
    rw [hpoll]
    exact ⟨s, h⟩
  have hpoll : (t.poll now order).1 =
      (pollAt { t with lastTime := now } now order).1 := by
    simp only [Transport.poll, checkTime, if_neg hnow]
  have hstate := (h.state.clock (not_lt.mp hnow)).pollAt now order
  rw [← hpoll] at hstate
  exact ⟨_, h.of_gauges hstate hbooks h.lengths hsame (by simp [Stint.extend])
    (sentOn_extend s _ _)⟩

theorem metered_new (id remoteID : PathID) (rtt : Duration) (now lease : Time)
    (base : ℕ) (sent : List (ℕ × DataFields)) :
    ({ Lane.new id remoteID rtt now with lease := lease } : Lane).Metered 0 0
      base sent where
  bases := List.length_replicate
  rateBytes h := absurd rfl h
  rateElapsed h := absurd rfl h
  rateSentBytes := le_rfl
  marks := nofun
  entries := nofun

theorem Metered.path (h : t.Metered s datagrams) (id remoteID : PathID)
    (rtt : Duration) (now : Time) :
    (t.path id remoteID rtt now).1.Metered s datagrams := by
  refine ⟨h.state.path id remoteID rtt now,
    sound_path h.books id remoteID rtt now, h.lengths, ?_⟩
  intro j q hq
  rcases find_path hq with ⟨p, lease, hp, rfl⟩ | ⟨rtt', rfl⟩
  · exact { h.lanes j p hp with }
  · exact metered_new _ _ _ _ _ _ _

theorem Metered.disable (h : t.Metered s datagrams) (id : PathID) :
    (t.disable id).Metered s datagrams := by
  refine ⟨h.state.disable id, sound_disable h.books id, h.lengths, ?_⟩
  intro j q hq
  obtain ⟨p, lease, hp, rfl⟩ := find_disable hq
  exact { h.lanes j p hp with }

theorem metered_resetLane (hsent : p.rateSentBytes ≤ p.sent) (base : ℕ)
    (sent : List (ℕ × DataFields)) :
    (resetLane p).ackedBytes = 0 ∧ (resetLane p).ackedElapsed = 0 ∧
      (resetLane p).Metered 0 0 base sent := by
  dsimp only [resetLane]
  split
  · exact ⟨rfl, rfl, List.length_replicate, fun h => absurd rfl h,
      fun h => absurd rfl h, hsent, nofun, nofun⟩
  · exact ⟨rfl, rfl, List.length_replicate, fun h => absurd rfl h,
      fun h => absurd rfl h, hsent, nofun, nofun⟩

theorem Metered.setRemote (h : t.Metered s datagrams) (epoch : Epoch)
    (adopted : Bool) :
    ∃ s', (t.setRemote epoch adopted).1.Metered s' datagrams := by
  by_cases haccept : t.acceptsRemote epoch adopted = true
  · refine ⟨_, h.state.setRemote haccept, sound_setRemote h.books epoch adopted,
      h.lengths, ?_⟩
    intro id q hq
    obtain ⟨p, hp, rfl⟩ := find_setRemote haccept hq
    obtain ⟨hbytes, helapsed, hmetered⟩ :=
      metered_resetLane (h.lanes id p hp).rateSentBytes
        ((Stint.begin t epoch).base id) (sentOn id (Stint.begin t epoch).log)
    rwa [hbytes, helapsed]
  · refine ⟨s, ?_⟩
    unfold Transport.setRemote
    rwa [if_neg haccept]

/-! ## The scan of the acknowledged lane -/

section Scan

variable {p : Lane} {a : Acknowledgement} {fresh : Bool}

/-- The guards let every turn of the scan pass. -/
theorem checkedTurns_eq (hbases : p.transitBases.length = transitBuckets)
    (hbytes : ∀ k sent, p.attempts.lookup k = some sent →
      sent.bytes / transitSizeBucket < transitBuckets)
    (now : Time) (keys : List ℕ) :
    ∀ s : Scan, s.Found p a fresh → p.SameGauges s.lane →
      keys.foldlM (checkedTurn a now fresh) s =
        some (keys.foldl (scanTurn a now fresh) s) := by
  induction keys with
  | nil => exact fun s _ _ => rfl
  | cons k _ ih =>
    intro s hfound hgauges
    have hin : transitInTable s k = true := by
      unfold transitInTable
      split
      · rfl
      next sent hsent =>
        have hsent' := hbytes k sent (hfound.attempts k sent hsent)
        rw [hgauges.bases hbases]
        simp [hsent']
    have hturn : checkedTurn a now fresh s k =
        some (scanTurn a now fresh s k) := if_pos hin
    rw [List.foldlM_cons, hturn]
    exact ih _ (hfound.turn a now fresh k)
      ((keptByLoops_sameGauges now fresh p).scanTurn hgauges k)

theorem checkedScan_eq (t : Transport)
    (hbases : p.transitBases.length = transitBuckets)
    (hbytes : ∀ k sent, p.attempts.lookup k = some sent →
      sent.bytes / transitSizeBucket < transitBuckets)
    (now : Time) (order : MapOrder) :
    t.checkedScan p a now fresh order = some (t.scan p a now fresh order) :=
  checkedTurns_eq hbases hbytes now _ _
    ⟨fun _ _ h => h, fun _ h => by cases h⟩ (.refl p)

end Scan

/-! ## The estimators -/

theorem checkedLoss_eq (heap : PacketHeap) {now : Time} {fresh : Bool}
    {high : Option Attempt} (h : (recordLoss heap p a now high).losses.Ordered) :
    checkedLoss heap p a now fresh high =
      some (observeLoss heap p a now fresh high) := by
  dsimp only [checkedLoss, observeLoss]
  rw [LossLedger.checkedMaterial_eq h]
  split <;> rfl

variable {base : ℕ} {sent : List (ℕ × DataFields)}

theorem checkedRate_eq (h : p.Metered a.bytes a.elapsed base sent) (now : Time) :
    p.checkedRate now a = some (p.observeRate now a) := by
  have hinterval : 0 < deliveryInterval := by decide
  unfold Lane.checkedRate Lane.observeRate
  by_cases hfeedback : p.feedbackAt = 0
  · rw [if_pos hfeedback, if_pos hfeedback]
  rw [if_neg hfeedback, if_neg hfeedback,
    checkedSub_of_le (h.rateElapsed hfeedback),
    checkedSub_of_le (h.rateBytes hfeedback),
    checkedSub_of_le h.rateSentBytes]
  dsimp only [Option.bind_eq_bind, Option.bind_some]
  by_cases hdue : ((a.elapsed - p.rateElapsed : ℕ) : ℤ) ≥ deliveryInterval ∧
      now - p.feedbackAt ≥ deliveryInterval
  · rw [if_pos hdue, if_pos hdue,
      checkedDiv_of_ne _ (seconds_ne_zero (hinterval.trans_le hdue.1)),
      checkedDiv_of_ne _ (seconds_ne_zero (hinterval.trans_le hdue.2))]
    dsimp only [Option.bind_some]
    rw [SustainedDelivery.checkedRecord_eq]
    · rfl
    · exact h.marks
  · rw [if_neg hdue, if_neg hdue]

theorem Lane.Metered.observeLoss (h : p.Metered bytes elapsed base sent)
    (heap : PacketHeap) (now : Time) (fresh : Bool) {high : Option Attempt}
    (hhigh : ∀ attempt, high = some attempt → a.high ≤ sent.length ∧
      attempt.through = base + through DataFields.wireBytes a.high sent) :
    (observeLoss heap p a now fresh high).Metered bytes elapsed base sent := by
  have hrecord := h.recordLoss heap now hhigh
  dsimp only [Transport.observeLoss]
  split
  · exact { hrecord with }
  · exact hrecord

theorem checkedFresh_eq (h : p.Metered a.bytes a.elapsed base sent) (now : Time)
    (sample : Duration) (signals : Lane.Signals) :
    checkedFresh p a now sample signals =
      some (observeFresh p a now sample signals) := by
  have hsame := p.sameGauges_observeRTT now sample
  unfold checkedFresh observeFresh
  rw [checkedRate_eq (h.same hsame.sameMarks hsame.sent)]
  rfl

/-- The lane that a fresh acknowledgement leaves. -/
theorem metered_observeFresh (h : p.Metered a.bytes a.elapsed base sent)
    (now : Time) (sample : Duration) (signals : Lane.Signals) :
    (observeFresh p a now sample signals).Metered a.bytes a.elapsed base sent := by
  have hrtt := p.sameGauges_observeRTT now sample
  have hrate := (h.same hrtt.sameMarks hrtt.sent).observeRate now
  dsimp only [observeFresh]
  generalize (p.observeRTT now sample).observeRate now a = q at hrate ⊢
  have hmeasured : ({ q with
      peakDelivery := max q.peakDelivery q.deliveryRate
      ackedBytes := a.bytes
      ackedElapsed := a.elapsed
      recentDelivery := q.recentDelivery.record now q.deliveryRate } :
      Lane).Metered a.bytes a.elapsed base sent := { hrate with }
  generalize ({ q with
      peakDelivery := max q.peakDelivery q.deliveryRate
      ackedBytes := a.bytes
      ackedElapsed := a.elapsed
      recentDelivery := q.recentDelivery.record now q.deliveryRate } : Lane) = r
    at hmeasured ⊢
  refine hmeasured.same ?_ ?_
  · refine Lane.Steered.sameMarks ?_
    have hbound := r.boundByDelivery_standing now signals.stream
    have hgap : ((r.boundByDelivery now signals.stream).1.observeGap now).standing =
        r.standing := hbound
    unfold Lane.Steered
    rw [← hgap]
    exact Lane.steered_controlInterval _ now sample signals
  · rw [Lane.controlInterval_toLaneCore, Lane.observeGap_toLaneCore,
      Lane.boundByDelivery_toLaneCore]

/-- The estimators pass their guards where the counters are behind the
acknowledgement's totals. -/
theorem checkedEstimate_eq (t : Transport) {now : Time}
    {fresh progressed : Bool} {silence : Duration} {s : Scan}
    (hlate : fresh = false → s.high = none) (hfresh : fresh = true →
      (heardLane p progressed silence s).Metered a.bytes a.elapsed base sent)
    (hhigh : ∀ attempt, s.high = some attempt → a.high ≤ sent.length ∧
      attempt.through = base + through DataFields.wireBytes a.high sent)
    (backlogged : Bool) :
    t.checkedEstimate p a now fresh progressed backlogged silence s =
      some (t.estimate p a now fresh progressed backlogged silence s) := by
  cases fresh with
  | false =>
    unfold checkedEstimate estimate checkedLoss observeLoss recordLoss
    simp only [hlate rfl, Bool.false_eq_true, false_and, if_false,
      Bool.not_false, if_true]
    rfl
  | true =>
    have hlane := hfresh rfl
    have hjudged := Lane.Metered.observeLoss hlane t.packets now true hhigh
    dsimp only [checkedEstimate]
    rw [checkedLoss_eq t.packets
      (hlane.recordLoss t.packets now hhigh).ordered]
    dsimp only [Option.bind_eq_bind, Option.bind_some]
    rw [checkedFresh_eq hjudged]
    rfl

/-! ## Acknowledgements of a reachable state -/

theorem possible_facts {revision : ℕ} (h : t.impossible p revision a = false)
    (hfresh : isFresh p revision = true) :
    p.ackedBytes ≤ a.bytes ∧ p.ackedElapsed ≤ a.elapsed := by
  unfold impossible at h
  simp only [hfresh, Bool.true_and, Bool.not_true, Bool.false_and,
    Bool.or_false, Bool.or_eq_false_iff, decide_eq_false_iff_not, not_lt] at h
  exact h.2

theorem Metered.high (h : t.Metered s datagrams) {id : PathID}
    (hp : t.find id = some p) {k : ℕ} {attempt : Attempt}
    (hk : p.attempts.lookup k = some attempt) :
    k ≤ (sentOn id s.log).length ∧ attempt.through =
      s.base id + through DataFields.wireBytes k (sentOn id s.log) := by
  obtain ⟨d, hd, -, hthrough, -⟩ := (h.state.lanes.lane id p.toLaneWire
    (wire_eq_some hp)).attempts k attempt hk
  exact ⟨((h.state.log.sentOn_numbered id).bounds hd).2, hthrough⟩

theorem noted_facts (p : Lane) (revision : ℕ) (a : Acknowledgement) (now : Time)
    (progressed : Bool) :
    (noteProgress (noteRevision p revision) a now progressed).attempts =
        p.attempts ∧
      p.SameGauges
        (noteProgress (noteRevision p revision) a now progressed) := by
  refine ⟨?_, ?_⟩
  · rw [noteProgress_toLaneCore]
    rfl
  · refine Lane.SameGauges.trans ?_
      (sameGauges_noteProgress (noteRevision p revision) a now progressed)
    exact ⟨rfl, id, rfl, rfl, le_rfl⟩

section Processing

variable {id : PathID} {p : Lane} {a : Acknowledgement} (now : Time)

/-- The scan of a lane of a reachable state passes its guards, and finds the
acknowledged attempt as it was sent. -/
theorem Metered.scan (h : t.Metered s datagrams) (hp : t.find id = some p)
    (revision : ℕ) (progressed fresh : Bool) (u : Transport)
    (order : MapOrder) :
    let p' := noteProgress (noteRevision p revision) a now progressed
    u.checkedScan p' a now fresh order = some (u.scan p' a now fresh order) ∧
      ∀ attempt, (u.scan p' a now fresh order).high = some attempt →
        a.high ≤ (sentOn id s.log).length ∧ attempt.through = s.base id +
          through DataFields.wireBytes a.high (sentOn id s.log) := by
  intro p'
  obtain ⟨hattempts, hsame⟩ := noted_facts p revision a now progressed
  refine ⟨checkedScan_eq u (hsame.bases (h.lanes id p hp).bases)
    (fun k sent hk => h.transitBucket hp (hattempts ▸ hk)) now order,
    fun attempt hattempt => h.high hp ?_⟩
  rw [← hattempts]
  exact ((found_scan a now fresh u p' order).high attempt hattempt).2

theorem Metered.heard (h : t.Metered s datagrams) (hp : t.find id = some p)
    (revision : ℕ) (fresh : Bool) (order : MapOrder) :
    ∃ x, ({ t with lastTime := now } : Transport).hear
        (noteRevision p revision) a now fresh order = some x ∧
      x.lane.Metered p.ackedBytes p.ackedElapsed (s.base id)
        (sentOn id s.log) := by
  obtain rfl := id_of_find hp
  obtain ⟨x, hx, -, -, -, hsame⟩ := gauges_hear
    (t := { t with lastTime := now }) (p := noteRevision p revision) hp
    ⟨rfl, fun h => h, rfl, rfl, le_rfl⟩ a now fresh order
  exact ⟨x, hx, (h.lanes p.id p hp).same hsame.sameMarks hsame.sent⟩

/-- The guards of `ack` let every acknowledgement pass that validation lets
pass. -/
theorem Metered.checkedAck_eq (h : t.Metered s datagrams)
    (hp : t.find id = some p) {revision : ℕ}
    (hpossible : t.impossible p revision a = false) (order : MapOrder) :
    ({ t with lastTime := now } : Transport).checkedAck
        (noteRevision p revision) a now (isFresh p revision) order =
      some (({ t with lastTime := now } : Transport).ack
        (noteRevision p revision) a now (isFresh p revision) order) := by
  obtain ⟨hscan, hhigh⟩ := h.scan (a := a) now hp revision
    (progresses (noteRevision p revision) a (isFresh p revision))
    (isFresh p revision) { t with lastTime := now } order
  obtain ⟨x, hx, hlane⟩ := h.heard (a := a) now hp revision
    (isFresh p revision) order
  obtain ⟨q, hq, rfl⟩ := Option.map_eq_some_iff.mp hx
  dsimp only [checkedAck, ack]
  rw [hscan, hq]
  refine checkedEstimate_eq _ ?_ (fun hfresh => ?_) hhigh _
  · intro hlate
    rw [hlate]
    exact high_scan _ _ _ _ _
  · obtain ⟨hbytes, helapsed⟩ := possible_facts hpossible hfresh
    exact hlane.mono hbytes helapsed

/-- A fresh acknowledgement leaves the counters behind its totals. -/
theorem Metered.fresh (h : t.Metered s datagrams) {path : PathID} {f : Control}
    {order : MapOrder} {x : Heard}
    (hfresh : ProcessesFresh t path f now order p a x) :
    (x.judged a now true).Metered a.bytes a.elapsed (s.base path)
      (sentOn path s.log) := by
  obtain ⟨-, hhigh⟩ := h.scan (a := a) now hfresh.find f.seq
    (progresses (noteRevision p f.seq) a true) true
    { t with lastTime := now } order
  obtain ⟨x', hx', hlane⟩ := h.heard (a := a) now hfresh.find f.seq
    true order
  obtain rfl := Option.some.inj (hx'.symm.trans hfresh.heard)
  obtain ⟨q, hq, rfl⟩ := Option.map_eq_some_iff.mp hx'
  obtain ⟨hbytes, helapsed⟩ := possible_facts hfresh.possible hfresh.fresh
  exact Lane.Metered.observeLoss (hlane.mono hbytes helapsed) _ now true hhigh

end Processing

theorem Metered.receive (h : t.Metered s datagrams) (path : PathID)
    (f : Control) (now : Time) (order : MapOrder) :
    ∃ s', (t.receive path f now order).1.Metered s' datagrams := by
  have hstate := h.state.receive path f now order
  have hbooks := sound_apply h.books (.receive path f now order)
  have hlog : ∀ id, sentOn id (s.push (.received path f
      (isCounted t (t.receive path f now order).1 f)
      (t.receive path f now order).2)).log = sentOn id s.log := fun id => rfl
  rcases t.gauges_receive path f now order with hsame | ⟨p, a, x, hfresh⟩
  · exact ⟨_, h.of_gauges hstate hbooks h.lengths hsame rfl
      fun id => ⟨[], hlog id⟩⟩
  refine ⟨_, hstate, hbooks, h.lengths, ?_⟩
  intro id q hq
  rw [hlog]
  rw [hfresh.result] at hq
  rcases hfresh.find_concluded hq with ⟨rfl, rfl⟩ | ⟨q₀, hq₀, hsame⟩
  · have hq' : (x.measured a now).controlInterval now x.scan.sample x.signals =
        observeFresh (x.judged a now true) a now x.scan.sample x.signals := rfl
    rw [hq', observeFresh_toLaneCore]
    exact metered_observeFresh (h.fresh now hfresh) now _ _
  · rw [hsame.ackedBytes, hsame.ackedElapsed]
    exact (h.lanes id q₀ hq₀).same hsame.sameMarks hsame.sent

theorem Metered.apply (h : t.Metered s datagrams) (call : Call) :
    ∃ s' datagrams', (t.apply call).Metered s' datagrams' := by
  cases call with
  | enqueue payload metadata now =>
    exact ⟨s, h.enqueue payload metadata now⟩
  | poll now order =>
    obtain ⟨s', h'⟩ := h.poll now order
    exact ⟨s', datagrams, h'⟩
  | receive path frame now order =>
    obtain ⟨s', h'⟩ := h.receive path frame now order
    exact ⟨s', datagrams, h'⟩
  | path id remoteID rtt now => exact ⟨s, datagrams, h.path id remoteID rtt now⟩
  | disable id => exact ⟨s, datagrams, h.disable id⟩
  | setRemote epoch adopted =>
    obtain ⟨s', h'⟩ := h.setRemote epoch adopted
    exact ⟨s', datagrams, h'⟩

theorem metered_run (epoch : Epoch) (calls : List Call) :
    ∃ s datagrams, (run epoch calls).Metered s datagrams := by
  have hlanes : ∀ id p, (new epoch).find id ≠ some p := fun id p h => by cases h
  exact run_induction (P := fun t => ∃ s datagrams, t.Metered s datagrams) epoch
    ⟨_, _, stateOk_new epoch, sound_new epoch, by simp,
      fun id p h => absurd h (hlanes id p)⟩
    (fun _ call ⟨_, _, h⟩ => h.apply call) calls

end Transport

/-- In every state that a sequence of calls reaches, restarts of the peer
included, and for every acknowledgement that passes validation there, whatever
it contains: no subtraction of the rates, the sustained delivery and the loss
ledger wraps around, no divisor is zero, and every transit floor is within the
table. -/
theorem feedback_arithmetic_safe (epoch : Epoch) (calls : List Call)
    (id : PathID) (p : Lane) (revision : ℕ) (a : Acknowledgement) (now : Time)
    (order : MapOrder) (hfind : (Transport.run epoch calls).find id = some p)
    (hpossible : (Transport.run epoch calls).impossible p revision a = false) :
    ({ Transport.run epoch calls with lastTime := now } : Transport).checkedAck
        (Transport.noteRevision p revision) a now
        (Transport.isFresh p revision) order =
      some (({ Transport.run epoch calls with
        lastTime := now } : Transport).ack (Transport.noteRevision p revision) a
          now (Transport.isFresh p revision) order) := by
  obtain ⟨s, datagrams, h⟩ := Transport.metered_run epoch calls
  exact h.checkedAck_eq now hfind hpossible order

/-- A lane comes up and sends its keepalive. -/
def keepalive : List Call :=
  [.path 1 1 0 second, .poll (second + 200 * millisecond) MapOrder.plain]

/-- An acknowledgement of a keepalive that reports more bytes than were ever
sent. -/
def boast : Acknowledgement where
  observed := ⟨1, 1⟩
  high := 1
  mask := 1
  bytes := 2 ^ 63
  elapsed := 2 ^ 62
  delay := 0
  receivedHigh := 0
  receivedMask := WordMask.empty _

theorem feedback_arithmetic_safe_boast :
    ∃ p, (Transport.run ⟨1, 1⟩ keepalive).find 1 = some p ∧
      (Transport.run ⟨1, 1⟩ keepalive).impossible p 1 boast = false ∧
      ({ Transport.run ⟨1, 1⟩ keepalive with
          lastTime := 2 * second } : Transport).checkedAck
          (Transport.noteRevision p 1) boast (2 * second)
          (Transport.isFresh p 1) MapOrder.plain =
        some (({ Transport.run ⟨1, 1⟩ keepalive with
          lastTime := 2 * second } : Transport).ack
          (Transport.noteRevision p 1) boast (2 * second)
          (Transport.isFresh p 1) MapOrder.plain) := by
  have hpossible : ((Transport.run ⟨1, 1⟩ keepalive).find 1).map (fun p =>
      (Transport.run ⟨1, 1⟩ keepalive).impossible p 1 boast) = some false := by
    decide +kernel
  obtain ⟨p, hp, hpossible⟩ := Option.map_eq_some_iff.mp hpossible
  exact ⟨p, hp, hpossible, feedback_arithmetic_safe ⟨1, 1⟩ keepalive 1 p 1 boast
    (2 * second) MapOrder.plain hp hpossible⟩

end Wanbond.Bond
