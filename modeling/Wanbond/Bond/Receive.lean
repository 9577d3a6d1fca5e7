import Wanbond.Bond.Acknowledge

/-!
# Receive

`receive` with its checks in the order of the source, and `Receive`, which
counts the rejections by cause.
-/

namespace Wanbond.Bond

open Wanbond.Support

/-- The range of a `time.Duration`. -/
def maxInt64 : ℕ := 2 ^ 63 - 1

namespace Transport

abbrev Received := Transport × Except RejectionError (List Delivery)

def reject (t : Transport) (cause : RejectionCause) (message : String) :
    Received :=
  (t, .error ⟨cause, message⟩)

/-! ## DATA -/

/-- The receiver of the peer's lane, created by its first frame. -/
def openReceiver (t : Transport) (path lane : PathID) (now : Time) :
    Transport × Receiver :=
  match t.receiver lane with
  | some r => (t, r)
  | none =>
    let r := Receiver.new path lane now
    ({ t with receivers := t.receivers ++ [r] }, r)

/-- The receiver after it has counted the lane sequence `seq`. -/
def countFrame (r : Receiver) (seq bytes : ℕ) (now : Time) : Receiver :=
  { r with
    receipts := (r.receipts.mark seq).2
    highAt := if seq > r.receipts.high then now else r.highAt
    bytes := r.bytes + bytes
    received := r.received.add now bytes
    pending := r.pending + 1 }

def countDuplicate (t : Transport) : Transport :=
  { t with duplicates := t.duplicates + 1 }

/-- The datagram of a counted frame is delivered unless its sequence has been
received, or lies below the window. -/
def deliver (t : Transport) (path : Lane) (d : DataFields) :
    Transport × List Delivery :=
  let t := if d.order.interactive then t
    else t.setLane { path with bulkReceived := path.bulkReceived + 1 }
  if (t.received.mark d.seq).1 then
    ({ t with
      received := (t.received.mark d.seq).2
      unreported := (t.unreported.mark d.seq).2 },
      [⟨d.order.number, d.order.interactive, d.payload⟩])
  else (t.countDuplicate, [])

/-- A DATA frame that has passed validation, at its receiver. -/
def accept (t : Transport) (path : Lane) (r : Receiver) (seq : ℕ)
    (d : DataFields) (now : Time) : Transport × List Delivery :=
  if (r.receipts.mark seq).1 then
    let t := t.setReceiver (countFrame r seq d.wireBytes now)
    if d.seq = 0 then (t, []) else t.deliver path d
  else (t.countDuplicate, [])

/-- The DATA branch of `receive`. -/
def receiveData (t : Transport) (path : Lane) (lane : PathID) (seq : ℕ)
    (fields : Option DataFields) (now : Time) : Received :=
  if lane ≠ path.remoteID then
    t.reject .lane "bond: DATA lane disagrees with authenticated probe"
  else
    match fields with
    | none => t.reject .malformed "bond: invalid DATA size"
    | some d =>
      if d.payload.length > maxDatagram then
        t.reject .malformed "bond: invalid DATA size"
      else if d.destination ≠ t.epoch then
        t.reject .epoch "bond: DATA for stale local epoch"
      else if d.seq = 0 ∧ (d.order ≠ Order.zero ∨ d.payload ≠ []) then
        t.reject .malformed "bond: malformed keepalive"
      else if d.seq ≠ 0 ∧ (d.order.number = 0 ∨ d.payload = []) then
        t.reject .malformed
          "bond: invalid delivery sequence or empty datagram"
      else
        let (t, r) := t.openReceiver path.id lane now
        if r.path ≠ path.id then
          t.reject .lane "bond: receiver lane changed without probe"
        else
          let (t, deliveries) := t.accept path r seq d now
          (t, .ok deliveries)

/-! ## ACK -/

/-- An acknowledgement newer than the newest one accepted on the lane. -/
def isFresh (path : Lane) (revision : ℕ) : Bool :=
  decide (revision > path.ackRevision)

/-- The acknowledgement reports what the peer cannot have received, or does
not agree with the totals of the newest one. -/
def impossible (t : Transport) (path : Lane) (revision : ℕ)
    (a : Acknowledgement) : Bool :=
  let fresh := isFresh path revision
  decide (a.high > path.seq) || decide (a.receivedHigh > t.seq) ||
    fresh && (decide (a.bytes < path.ackedBytes) ||
      decide (a.elapsed < path.ackedElapsed)) ||
    !fresh && (decide (a.bytes > path.ackedBytes) ||
      decide (a.elapsed > path.ackedElapsed))

/-- The lane after it has recorded the revision. -/
def noteRevision (path : Lane) (revision : ℕ) : Lane :=
  { path with
    ackReceipts := (path.ackReceipts.mark revision).2
    ackRevision := if isFresh path revision then revision
      else path.ackRevision }

/-- The ACK branch of `receive`.  The mark is the last operand of the test, and
is written to the lane whether or not it is refused. -/
def receiveAck (t : Transport) (path : Lane) (lane : PathID) (revision : ℕ)
    (fields : Option Acknowledgement) (now : Time) (order : MapOrder) :
    Received :=
  if lane ≠ path.id then
    t.reject .lane "bond: ACK arrived on wrong path"
  else
    match fields with
    | none => t.reject .malformed "bond: invalid ACK size"
    | some a =>
      if a.elapsed > maxInt64 ∨ a.delay > maxInt64 then
        t.reject .malformed "bond: ACK duration exceeds monotonic clock range"
      else if a.observed ≠ t.epoch then
        t.reject .epoch "bond: ACK for stale local epoch"
      else if t.impossible path revision a then
        t.reject .ack "bond: stale or impossible ACK"
      else if !(path.ackReceipts.mark revision).1 then
        (t.setLane { path with
          ackReceipts := (path.ackReceipts.mark revision).2 }).reject .ack
            "bond: stale or impossible ACK"
      else
        (t.ack (noteRevision path revision) a now (isFresh path revision)
          order, .ok [])

/-! ## `receive` -/

/-- The checks common to all control types. -/
def validate (t : Transport) (path : PathID) (h : PacketHeader) (seq : ℕ)
    (now : Time) : Except RejectionError Lane :=
  if ¬h.epoch.Valid then .error ⟨.malformed, "bond: zero epoch"⟩
  else if h.epoch ≠ t.remote ∨ seq = 0 then
    .error ⟨.epoch, "bond: stale epoch or zero sequence"⟩
  else
    match t.find path with
    | none => .error ⟨.path, "bond: unvalidated path"⟩
    | some p =>
      if !p.up now then .error ⟨.path, "bond: unvalidated path"⟩ else .ok p

/-- Run a branch on the lane that the checks yield. -/
def onLane (t : Transport) (path : PathID) (h : PacketHeader) (seq : ℕ)
    (now : Time) (branch : Lane → Received) : Received :=
  match t.validate path h seq now with
  | .error e => (t, .error e)
  | .ok p => branch p

/-- `receive` once its time has been accepted. -/
def receiveAt (t : Transport) (path : PathID) (f : Control) (now : Time)
    (order : MapOrder) : Received :=
  match f.body with
  | .malformed =>
    t.reject .malformed "bond: invalid version or truncated header"
  | .data h fields =>
    t.onLane path h f.seq now fun p =>
      t.receiveData p h.lane f.seq fields now
  | .ack h fields =>
    t.onLane path h f.seq now fun p =>
      t.receiveAck p h.lane f.seq fields now order
  | .other h =>
    t.onLane path h f.seq now fun _ =>
      t.reject .type "bond: unknown frame type"

/-- Count a rejection by its cause. -/
def countRejection (t : Transport) (e : RejectionError) : Transport :=
  { t with
    rejected := Function.update t.rejected e.cause (t.rejected e.cause + 1) }

/-- The result of `receive`, with a rejection counted. -/
def report : Received → Received
  | (t, .error e) => (t.countRejection e, .error e)
  | (t, .ok deliveries) => (t, .ok deliveries)

/-- `Receive`. -/
def receive (t : Transport) (path : PathID) (f : Control) (now : Time)
    (order : MapOrder) : Received :=
  match t.checkTime now with
  | .error e => report (t, .error e)
  | .ok t => report (t.receiveAt path f now order)

/-! ## What the branches can leave -/

/-- The DATA branch rejects the frame and changes nothing, or accepts it: then
the receivers, the receipts and the count of duplicates may change, and a lane
counts a bulk datagram. -/
theorem receiveData_cases (t : Transport) (path : Lane) (lane : PathID)
    (seq : ℕ) (fields : Option DataFields) (now : Time) :
    (∃ e, e.cause ≠ .time ∧
      t.receiveData path lane seq fields now = (t, .error e)) ∨
    ∃ u deliveries receivers received unreported duplicates,
      t.receiveData path lane seq fields now = ({ u with
        receivers := receivers
        received := received
        unreported := unreported
        duplicates := duplicates }, .ok deliveries) ∧
      (u = t ∨
        u = t.setLane { path with bulkReceived := path.bulkReceived + 1 }) := by
  unfold receiveData
  split
  · exact Or.inl ⟨_, by decide, rfl⟩
  cases fields with
  | none => exact Or.inl ⟨_, by decide, rfl⟩
  | some d =>
    dsimp only
    split
    · exact Or.inl ⟨_, by decide, rfl⟩
    split
    · exact Or.inl ⟨_, by decide, rfl⟩
    split
    · exact Or.inl ⟨_, by decide, rfl⟩
    split
    · exact Or.inl ⟨_, by decide, rfl⟩
    -- a receiver that it creates has the frame's path
    obtain ⟨rs, hopen, hsame⟩ : ∃ rs, (t.openReceiver path.id lane now).1 =
        { t with receivers := rs } ∧
        ((t.openReceiver path.id lane now).2.path ≠ path.id →
          rs = t.receivers) := by
      unfold openReceiver
      split
      · exact ⟨t.receivers, rfl, fun _ => rfl⟩
      · exact ⟨_, rfl, fun h => absurd rfl h⟩
    rw [hopen]
    split
    next hpath =>
      rw [hsame hpath]
      exact Or.inl ⟨_, by decide, rfl⟩
    unfold accept
    split
    · split
      · exact Or.inr ⟨t, _, _, _, _, _, rfl, Or.inl rfl⟩
      dsimp only [deliver]
      by_cases hinteractive : d.order.interactive = true
      · simp only [if_pos hinteractive]
        split <;> exact Or.inr ⟨t, _, _, _, _, _, rfl, Or.inl rfl⟩
      · simp only [if_neg hinteractive]
        split <;> exact Or.inr ⟨t.setLane _, _, _, _, _, _, rfl, Or.inr rfl⟩
    · exact Or.inr ⟨t, _, _, _, _, _, rfl, Or.inl rfl⟩

/-- The ACK branch rejects the frame and changes at most the mark of its
revision, or processes it. -/
theorem receiveAck_cases (t : Transport) (p : Lane) (lane : PathID)
    (revision : ℕ) (fields : Option Acknowledgement) (now : Time) :
    (∃ e, e.cause ≠ .time ∧ ∀ order,
      t.receiveAck p lane revision fields now order = (t, .error e)) ∨
    ((p.ackReceipts.mark revision).1 = false ∧ ∃ e, e.cause ≠ .time ∧ ∀ order,
      t.receiveAck p lane revision fields now order =
        (t.setLane { p with
          ackReceipts := (p.ackReceipts.mark revision).2 }, .error e)) ∨
    ∃ a, fields = some a ∧ lane = p.id ∧ a.observed = t.epoch ∧
      t.impossible p revision a = false ∧
      (p.ackReceipts.mark revision).1 = true ∧ ∀ order,
        t.receiveAck p lane revision fields now order =
          (t.ack (noteRevision p revision) a now (isFresh p revision) order,
            .ok []) := by
  unfold receiveAck
  by_cases hlane : lane ≠ p.id
  · simp only [if_pos hlane]
    exact Or.inl ⟨_, by decide, fun _ => rfl⟩
  simp only [if_neg hlane]
  cases fields with
  | none => exact Or.inl ⟨_, by decide, fun _ => rfl⟩
  | some a =>
    by_cases hrange : a.elapsed > maxInt64 ∨ a.delay > maxInt64
    · simp only [if_pos hrange]
      exact Or.inl ⟨_, by decide, fun _ => rfl⟩
    simp only [if_neg hrange]
    by_cases hepoch : a.observed ≠ t.epoch
    · simp only [if_pos hepoch]
      exact Or.inl ⟨_, by decide, fun _ => rfl⟩
    simp only [if_neg hepoch]
    by_cases hpossible : t.impossible p revision a = true
    · simp only [if_pos hpossible]
      exact Or.inl ⟨_, by decide, fun _ => rfl⟩
    simp only [if_neg hpossible]
    by_cases hmark : (!(p.ackReceipts.mark revision).1) = true
    · simp only [if_pos hmark]
      exact Or.inr (Or.inl ⟨by simpa using hmark, _, by decide,
        fun _ => rfl⟩)
    · simp only [if_neg hmark]
      exact Or.inr (Or.inr ⟨a, rfl, not_not.mp hlane, not_not.mp hepoch,
        Bool.eq_false_iff.mpr hpossible, by simpa using hmark, fun _ => rfl⟩)

theorem receive_cases (t : Transport) (path : PathID) (f : Control) (now : Time)
    (order : MapOrder) :
    now < t.lastTime ∧ t.receive path f now order =
        report (t, .error ⟨.time, "bond: regressing transport time"⟩) ∨
      t.lastTime ≤ now ∧ t.receive path f now order =
        report ({ t with lastTime := now }.receiveAt path f now order) := by
  unfold receive checkTime
  by_cases hnow : now < t.lastTime
  · rw [if_pos hnow]
    exact Or.inl ⟨hnow, rfl⟩
  · rw [if_neg hnow]
    exact Or.inr ⟨not_lt.mp hnow, rfl⟩

end Transport

end Wanbond.Bond
