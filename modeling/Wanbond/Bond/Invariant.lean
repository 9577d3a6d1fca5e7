import Wanbond.Bond.Network

/-!
# The invariant of a transport and its history

What the state of a transport says about its history with the present peer.
The invariant has three parts, each about one part of the state: the packets
and their stamps, the lanes, and what has been received.  Each part reads the
history through the views it needs, so that a step which leaves those views
and that part of the state alone keeps it by rewriting.
-/

namespace Wanbond.Bond

open Wanbond.Support

/-! ## What the invariant reads -/

namespace Transport

/-- The wire state of a lane. -/
def wire (t : Transport) (id : PathID) : Option LaneWire :=
  (t.find id).map fun p => p.toLaneWire

/-- The wire state of a lane, with the accounts of its window. -/
def core (t : Transport) (id : PathID) : Option LaneCore :=
  (t.find id).map fun p => p.toLaneCore

/-- Every packet that waits for its first transmission. -/
def waiting (t : Transport) : Multiset PacketRef :=
  (t.queue : Multiset PacketRef) + t.small.realtime.refs + t.small.small.refs

variable {t : Transport} {p : Lane} {id : PathID}

theorem wire_eq_some (h : t.find id = some p) :
    t.wire id = some p.toLaneWire := by
  simp [wire, h]

theorem core_eq_some (h : t.find id = some p) :
    t.core id = some p.toLaneCore := by
  simp [core, h]

theorem wire_of_core {t' : Transport} (h : t'.core = t.core) :
    t'.wire = t.wire := by
  funext id
  have hid := congrArg (Option.map LaneCore.toLaneWire) (congrFun h id)
  simpa [core, wire, Option.map_map, Function.comp_def] using hid

theorem wire_eq_none : t.wire id = none ↔ t.find id = none := by
  simp [wire]

theorem id_of_find (h : t.find id = some p) : p.id = id :=
  @Keyed.key_of_lookup _ _ _ (fun q : Lane => q.id) _ _ _ h

variable {q : Lane}

theorem find_setLane_self (h : t.find p.id = some q) :
    (t.setLane p).find p.id = some p :=
  @Keyed.lookup_replace_self _ _ _ (fun q : Lane => q.id) t.paths p q h

theorem find_setLane_ne (h : id ≠ p.id) : (t.setLane p).find id = t.find id :=
  @Keyed.lookup_replace_ne _ _ _ (fun q : Lane => q.id) id p h t.paths

theorem wire_setLane (h : t.find p.id = some q) :
    (t.setLane p).wire = Function.update t.wire p.id (some p.toLaneWire) := by
  funext id
  by_cases hid : id = p.id
  · subst hid
    rw [wire_eq_some (find_setLane_self h), Function.update_self]
  · rw [Function.update_of_ne hid, wire, find_setLane_ne hid, wire]

theorem core_setLane (h : t.find p.id = some q) :
    (t.setLane p).core = Function.update t.core p.id (some p.toLaneCore) := by
  funext id
  by_cases hid : id = p.id
  · subst hid
    rw [core_eq_some (find_setLane_self h), Function.update_self]
  · rw [Function.update_of_ne hid, core, find_setLane_ne hid, core]

theorem core_setLane_of_eq (h : t.find p.id = some q)
    (heq : p.toLaneCore = q.toLaneCore) : (t.setLane p).core = t.core := by
  rw [core_setLane h, Function.update_eq_self_iff, core_eq_some h, heq]

theorem setLane_setLane (t : Transport) {p' : Lane} (h : p'.id = p.id) :
    (t.setLane p).setLane p' = t.setLane p' := by
  simp only [setLane]
  rw [@Keyed.replace_replace _ _ _ (fun q : Lane => q.id) _ _ h]

theorem setLane_self (hids : (t.paths.map fun q => q.id).Nodup)
    (h : t.find p.id = some p) : t.setLane p = t := by
  simp only [setLane]
  rw [@Keyed.replace_self _ _ _ (fun q : Lane => q.id) _ _ hids h]

section SetLane

variable (t : Transport) (p : Lane)

@[simp] theorem setLane_toInbound :
    (t.setLane p).toInbound = t.toInbound := rfl

@[simp] theorem setLane_ids :
    (t.setLane p).paths.map (fun q => q.id) = t.paths.map fun q => q.id :=
  Keyed.map_key_replace p t.paths

end SetLane

variable {r : Receiver}

theorem receiver_setReceiver_self {q : Receiver}
    (h : t.receiver r.remoteLane = some q) :
    (t.setReceiver r).receiver r.remoteLane = some r :=
  Keyed.lookup_replace_self h

theorem receiver_setReceiver_ne {lane : PathID} (h : lane ≠ r.remoteLane) :
    (t.setReceiver r).receiver lane = t.receiver lane :=
  Keyed.lookup_replace_ne h t.receivers

theorem remoteLane_of_receiver {lane : PathID} (h : t.receiver lane = some r) :
    r.remoteLane = lane :=
  Keyed.key_of_lookup h

end Transport

namespace Stint

variable (s : Stint)

variable (out : List Transmission)

theorem send_eq : s.send out = { s with
    log := (out.map fun sent => Entry.sent sent.path sent.frame).reverse ++
      s.log } := by
  induction out generalizing s with
  | nil => rfl
  | cons _ _ ih =>
    rw [send, List.foldl_cons, ← send, ih]
    simp [push]

theorem send_log : (s.send out).log =
    (out.map fun sent => Entry.sent sent.path sent.frame).reverse ++ s.log := by
  rw [send_eq]

@[simp] theorem send_own : (s.send out).own = s.own := by
  rw [send_eq]

@[simp] theorem send_peer : (s.send out).peer = s.peer := by
  rw [send_eq]

@[simp] theorem send_stamps : (s.send out).stamps = s.stamps := by
  rw [send_eq]

@[simp] theorem send_base : (s.send out).base = s.base := by
  rw [send_eq]

theorem extend_extend (new new' : List Stamp) (out out' : List Transmission) :
    (s.extend new out).extend new' out' =
      s.extend (new' ++ new) (out ++ out') := by
  apply Stint.ext
  · simp [extend]
  · simp [extend]
  · simp [extend, send_log]
  · simp [extend]
  · simp [extend]

end Stint

/-! ## Packets and stamps -/

/-- Sequences and orders are stamped `1, 2, 3, …`, orders in each space. -/
structure StampsOk (stamps : List Stamp) : Prop where
  seqs : Numbered (stamps.map fun st => (st.seq, st))
  small : Numbered ((stamps.filter fun st => st.order.interactive).map
    fun st => (st.order.number, st))
  bulk : Numbered ((stamps.filter fun st => !st.order.interactive).map
    fun st => (st.order.number, st))

/-- The packet still has the numbers of its stamp. -/
structure StampedAs (p : Packet) (st : Stamp) : Prop where
  seq : p.seq = st.seq
  order : p.order = st.order
  payload : p.payload = st.payload
  interactive : p.interactive = st.order.interactive

/-- The packet holds the datagram that `Enqueue` was given. -/
structure Holds (p : Packet) (datagram : Bytes × PacketMetadata) : Prop where
  payload : p.payload = datagram.1
  cls : p.cls = classify datagram.1.length datagram.2
  interactive : p.interactive = decide (p.cls ≠ .bulk)

structure OutboundOk (o : Outbound) (waiting : Multiset PacketRef)
    (stamps : List Stamp) (datagrams : List (Bytes × PacketMetadata)) :
    Prop where
  length : datagrams.length = o.allocated
  holds : ∀ ref datagram, datagrams[ref]? = some datagram →
    Holds (o.packets ref) datagram
  seq : o.seq = stamps.length
  interactiveSeq : o.interactiveSeq =
    (stamps.filter fun st => st.order.interactive).length
  bulkSeq : o.bulkSeq = (stamps.filter fun st => !st.order.interactive).length
  stamped : ∀ st ∈ stamps, StampedAs (o.packets st.ref) st
  allocated : ∀ st ∈ stamps, st.ref < o.allocated
  pendingOrder : ∀ ref ∈ o.pendingOrder, ∃ st ∈ stamps, st.ref = ref
  pending : ∀ q ref, o.pending.lookup q = some ref →
    ∃ st ∈ stamps, st.ref = ref ∧ st.seq = q
  nodup : waiting.Nodup
  fresh : ∀ ref ∈ waiting, ref < o.allocated ∧ (o.packets ref).seq = 0 ∧
    (o.packets ref).acked = false

/-! ## Lanes -/

/-- The attempt's packet is the one the frame carried. -/
def Carries (stamps : List Stamp) (packet : Option PacketRef)
    (d : DataFields) : Prop :=
  match packet with
  | none => d.seq = 0
  | some ref => ∃ st ∈ stamps, st.ref = ref ∧ st.seq = d.seq

/-- The attempt recorded under the lane sequence `k` is the frame sent with
it. -/
def AttemptOk (stamps : List Stamp) (sent : List (ℕ × DataFields)) (base k : ℕ)
    (a : Attempt) : Prop :=
  ∃ d, (k, d) ∈ sent ∧ a.bytes = d.wireBytes ∧
    a.through = base + through DataFields.wireBytes k sent ∧
    Carries stamps a.packet d

/-- The totals that the lane holds are those of the newest acknowledgement. -/
def NewestAck (w : LaneWire) (processed : List (ℕ × Acknowledgement)) : Prop :=
  w.ackRevision = 0 ∧ w.ackedBytes = 0 ∧ w.ackedElapsed = 0 ∨
    ∃ a, (w.ackRevision, a) ∈ processed ∧ w.ackedBytes = a.bytes ∧
      w.ackedElapsed = a.elapsed

/-- Acknowledgements of higher revisions report higher lane sequences, as those
of an honest peer do. -/
def MonotoneAcks (processed : List (ℕ × Acknowledgement)) : Prop :=
  ∀ e ∈ processed, ∀ e' ∈ processed, e.1 ≤ e'.1 → e.2.high ≤ e'.2.high

structure LaneOk (w : LaneWire) (stamps : List Stamp)
    (sent : List (ℕ × DataFields)) (processed : List (ℕ × Acknowledgement))
    (base : ℕ) : Prop where
  seq : w.seq = sent.length
  total : w.sent = base + total DataFields.wireBytes sent
  attempts : ∀ k a, w.attempts.lookup k = some a →
    AttemptOk stamps sent base k a
  revisions : w.ackReceipts.Tracks { k | ∃ a, (k, a) ∈ processed }
  revision : w.ackRevision = w.ackReceipts.high
  newest : NewestAck w processed
  receivedHigh : IsHigh w.receivedHigh { h | ∃ e ∈ processed, e.2.high = h }
  receivedHigh_le : w.receivedHigh ≤ w.seq
  receivedThrough : MonotoneAcks processed → w.receivedThrough ≠ 0 →
    w.receivedThrough = base + through DataFields.wireBytes w.receivedHigh sent

/-- The acknowledgement shows that the frame `k` arrived: its bit is set, or
the reported bytes are those of the complete prefix. -/
def ShowsArrival (base : ℕ) (sent : List (ℕ × DataFields))
    (processed : List (ℕ × Acknowledgement)) (a : Acknowledgement) (k : ℕ) :
    Prop :=
  a.laneBit k = true ∨ k ≤ a.high ∧ a.high ≤ sent.length ∧
    (MonotoneAcks processed →
      a.bytes = base + through DataFields.wireBytes a.high sent)

/-- An acknowledgement processed in this history names the sequence `q`, by the
receipt bitmap or through a frame that carried it. -/
def Named (s : Stint) (q : ℕ) : Prop :=
  ∃ older, older <:+ s.log ∧ ∃ lane revision a,
    (revision, a) ∈ processedOn lane older ∧
      (a.received q = true ∨ ∃ k d, (k, d) ∈ sentOn lane older ∧ d.seq = q ∧
        ShowsArrival (s.base lane) (sentOn lane older) (processedOn lane older)
          a k)

structure LanesOk (wire : PathID → Option LaneWire) (stamps : List Stamp)
    (log : List Entry) (base : PathID → ℕ) : Prop where
  lane : ∀ id w, wire id = some w →
    LaneOk w stamps (sentOn id log) (processedOn id log) (base id)
  unknown : ∀ id, wire id = none →
    sentOn id log = [] ∧ processedOn id log = [] ∧ base id = 0

/-! ## What has been received -/

structure ReceiverOk (r : Receiver) (counted : List (ℕ × DataFields))
    (acks : List (ℕ × Acknowledgement)) (clock : Time) : Prop where
  receipts : r.receipts.Tracks { k | ∃ d, (k, d) ∈ counted }
  bytes : r.bytes = total DataFields.wireBytes counted
  revision : r.revision = acks.length
  started : r.start ≤ r.highAt
  clock : r.highAt ≤ clock
  elapsed : ∀ e ∈ acks, e.2.elapsed ≤ (r.highAt - r.start).toNat

/-- The unreported receipts are those within the window that no
acknowledgement has named. -/
structure UnreportedOk (received unreported : ReceiptWindow)
    (log : List Entry) : Prop where
  high : unreported.high = received.high
  grounded : unreported.Grounded
  has : ∀ s, unreported.has s = true ↔
    received.has s = true ∧ s ∉ reportedSeqs log

structure InboundOk (i : Inbound) (clock : Time) (log : List Entry) :
    Prop where
  receiver : ∀ lane r, Keyed.lookup Receiver.remoteLane lane i.receivers =
    some r → ReceiverOk r (countedOn lane log) (acksOn lane log) clock
  unknown : ∀ lane, Keyed.lookup Receiver.remoteLane lane i.receivers = none →
    countedOn lane log = [] ∧ acksOn lane log = []
  received : i.received.Tracks (deliveredSeqs log)
  unreported : UnreportedOk i.received i.unreported log

/-! ## The invariant -/

/-- The state of a transport agrees with the datagrams it accepted and with
its history with the present peer. -/
structure StateOk (t : Transport) (s : Stint)
    (datagrams : List (Bytes × PacketMetadata)) : Prop where
  own : t.epoch = s.own
  peer : t.remote = s.peer
  log : LogOk t.epoch t.remote s.stamps s.log
  stamps : StampsOk s.stamps
  outbound : OutboundOk t.toOutbound t.waiting s.stamps datagrams
  sent : ∀ st ∈ s.stamps, ∃ lane k d, (k, d) ∈ sentOn lane s.log ∧
    d.seq = st.seq
  acked : ∀ st ∈ s.stamps, (t.packets st.ref).acked = true → Named s st.seq
  lanes : LanesOk t.wire s.stamps s.log s.base
  ids : (t.paths.map fun p => p.id).Nodup
  inbound : InboundOk t.toInbound t.lastTime s.log

end Wanbond.Bond
