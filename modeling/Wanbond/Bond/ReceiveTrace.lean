import Wanbond.Bond.NodeInvariant

/-!
# The moves of a Receive

What `ack` does to the books, loop by loop.  The source keeps the acknowledged
lane in a local variable; here it counts as written when a loop has changed it.
-/

namespace Wanbond.Bond

open Wanbond.Support

/-! ## Moves -/

/-- A sequence of moves of `Receive`. -/
abbrev Receives (b b' : Books) : Prop := Relation.ReflTransGen ReceiveMove b b'

theorem Receives.keptAs {b b' : Books} {stamped : List PacketRef}
    (h : Receives b b') (hb : b.KeptAs stamped) : b'.KeptAs stamped := by
  induction h with
  | refl => exact hb
  | tail _ hmove ih => exact hmove.keptAs ih

theorem Receives.settles {b b' : Books} (h : Receives b b') : b.Settles b' := by
  induction h with
  | refl => exact .refl b
  | tail _ hmove ih => exact ih.trans hmove.settles

/-- No pending packet is named by the acknowledgement. -/
def Unnamed (a : Acknowledgement) (pending : Pending) : Prop :=
  ∀ q, a.received q = true → pending.lookup q = none

variable {a : Acknowledgement}

theorem Unnamed.erase {pending : Pending} (h : Unnamed a pending) (k : ℕ) :
    Unnamed a (pending.erase k) := by
  intro q hq
  by_cases hk : q = k
  · rw [hk, AList.lookup_erase]
  · rw [AList.lookup_erase_ne hk]
    exact h q hq

namespace Transport

variable {t : Transport}

theorem books_settlePacket (t : Transport) (packet : Option PacketRef) :
    (t.settlePacket packet).books = t.books.settlePacket packet := by
  cases packet <;> rfl

theorem settlePacket_setLane (t : Transport) (packet : Option PacketRef)
    (p : Lane) :
    (t.settlePacket packet).setLane p = (t.setLane p).settlePacket packet := by
  cases packet <;> rfl

@[simp] theorem settlePacket_paths (t : Transport)
    (packet : Option PacketRef) : (t.settlePacket packet).paths = t.paths := by
  cases packet <;> rfl

theorem unnamed_settlePacket (h : Unnamed a t.pending)
    (packet : Option PacketRef) :
    Unnamed a (t.settlePacket packet).pending := by
  cases packet with
  | none => exact h
  | some => exact h.erase _

/-! ### Receipts of pending packets -/

theorem receives_receiptTurn (a : Acknowledgement) (t : Transport) (q : ℕ) :
    Receives t.books (receiptTurn a t q).books := by
  unfold receiptTurn
  split
  · exact .refl
  next ref href =>
    split
    · exact .single (.receipt href)
    · exact .refl

theorem receiptTurn_lookup (a : Acknowledgement) (t : Transport) (q q' : ℕ) :
    (receiptTurn a t q).paths = t.paths ∧
      (t.pending.lookup q' = none →
        (receiptTurn a t q).pending.lookup q' = none) ∧
      (a.received q = true → (receiptTurn a t q).pending.lookup q = none) := by
  unfold receiptTurn
  split
  next hnone => exact ⟨rfl, id, fun _ => hnone⟩
  next ref href =>
    split
    · refine ⟨rfl, fun hnone => ?_, fun _ => AList.lookup_erase q _⟩
      by_cases hq : q' = q
      · rw [hq, AList.lookup_erase]
      · rwa [AList.lookup_erase_ne hq]
    next hnot => exact ⟨rfl, id, fun hr => absurd hr hnot⟩

/-- The loop over the pending packets settles those that are named. -/
theorem receives_receipts (a : Acknowledgement) (keys : List ℕ) :
    ∀ t : Transport,
      (∀ q ∉ keys, a.received q = true → t.pending.lookup q = none) →
      Receives t.books (keys.foldl (receiptTurn a) t).books ∧
      (keys.foldl (receiptTurn a) t).paths = t.paths ∧
      Unnamed a (keys.foldl (receiptTurn a) t).pending := by
  induction keys with
  | nil =>
    intro t hnone
    exact ⟨.refl, rfl, fun q hq => hnone q (by simp) hq⟩
  | cons k keys ih =>
    intro t hnone
    obtain ⟨hpaths, -, hself⟩ := receiptTurn_lookup a t k k
    have hnext : ∀ q ∉ keys, a.received q = true →
        (receiptTurn a t k).pending.lookup q = none := by
      intro q hq hr
      by_cases hk : q = k
      · subst hk
        exact hself hr
      · exact (receiptTurn_lookup a t k q).2.1 (hnone q (by simp [hk, hq]) hr)
    obtain ⟨hmoves, hpaths', hunnamed⟩ := ih (receiptTurn a t k) hnext
    exact ⟨(receives_receiptTurn a t k).trans hmoves, hpaths'.trans hpaths,
      hunnamed⟩

/-! ### The acknowledged lane -/

/-- What a loop over the acknowledged lane keeps: the books with the lane
written, and the identifiers. -/
structure OnLane (b : Books) (id : PathID) (paths : List Lane)
    (a : Acknowledgement) (t : Transport) (p : Lane) : Prop where
  receives : Receives b (t.setLane p).books
  id : p.id = id
  paths : t.paths = paths
  unnamed : Unnamed a t.pending

section Loops

variable {b : Books} {id : PathID} {paths : List Lane} {a : Acknowledgement}
  {p q p' : Lane}

theorem OnLane.settle (h : OnLane b id paths a t p)
    (hfind : t.find p.id = some q) (hid : p'.id = p.id)
    (packet : Option PacketRef)
    (hmove : ReceiveMove (t.setLane p).books
      (((t.setLane p).books.setLane p.id p'.toLaneCore).settlePacket packet)) :
    OnLane b id paths a (t.settlePacket packet) p' := by
  refine ⟨h.receives.tail ?_, hid.trans h.id,
    (t.settlePacket_paths packet).trans h.paths, t.unnamed_settlePacket h.unnamed
      packet⟩
  rwa [settlePacket_setLane, books_settlePacket, books_setLane_again hfind hid]

theorem OnLane.note (h : OnLane b id paths a t p)
    (hfind : t.find p.id = some q)
    (hsame : p.toLaneCore.SameAccounts p'.toLaneCore)
    (hid : p'.id = p.id) (hlease : p'.lease = p.lease) :
    OnLane b id paths a t p' := by
  refine h.settle hfind hid none ?_
  exact .note (books_lanes (find_setLane_self hfind)) hsame hlease

/-- A turn of a loop is a move. -/
theorem OnLane.turn {shown : ℕ → Prop} {t' : Transport}
    (h : OnLane b id paths a t p)
    (hfind : ∀ t : Transport, t.paths = paths → t.find id = some q)
    (hturn : AckTurn a shown (t, p) (t', p')) : OnLane b id paths a t' p' := by
  have hlane : t.find p.id = some q := by
    rw [h.id]
    exact hfind t h.paths
  have hself := books_lanes (find_setLane_self hlane)
  have hid := AckTurns.id (.single hturn)
  cases hturn with
  | idle hcore =>
    exact h.note hlane (hcore ▸ ⟨rfl, rfl, rfl, rfl, rfl, rfl⟩) hid
      (congrArg (fun c : LaneCore => c.lease) hcore)
  | receipt href hq =>
    -- every packet that is named has left the pending ones
    rw [h.unnamed _ hq] at href
    cases href
  | confirm hk _ hcore =>
    refine h.settle hlane hid _ ?_
    rw [hcore]
    exact .confirm hself hk
  | forget hk hcore =>
    refine h.settle hlane hid none ?_
    rw [hcore]
    exact .forget hself hk
  | @mark _ _ _ k sent ref hk hpacket hknown hcore =>
    refine ⟨h.receives.tail ?_, hid.trans h.id, h.paths, h.unnamed⟩
    have hbooks : ((t.ackPacket ref).setLane p').books =
        ((t.setLane p).books.setLane p.id p'.toLaneCore).ackPacket ref := by
      rw [← books_setLane_again hlane hid]
      rfl
    rw [hbooks, hcore]
    exact .mark hself hk hpacket (hknown.imp_right fun hq => h.unnamed _ hq)

theorem OnLane.turns {shown : ℕ → Prop} {r : Transport × Lane}
    (h : OnLane b id paths a t p)
    (hfind : ∀ t : Transport, t.paths = paths → t.find id = some q)
    (hturns : AckTurns a shown (t, p) r) : OnLane b id paths a r.1 r.2 :=
  hturns.keeps (fun hturn h => h.turn hfind hturn) h

/-- The complete-prefix rule. -/
theorem OnLane.settlePrefix {s : Scan}
    (h : OnLane b id paths a s.transport s.lane)
    (hfind : ∀ t : Transport, t.paths = paths → t.find id = some q)
    (fresh : Bool) (order : MapOrder) :
    OnLane b id paths a (Transport.settlePrefix s a fresh order).1
      (Transport.settlePrefix s a fresh order).2 := by
  have hremember : OnLane b id paths a s.transport (rememberThrough s) := by
    unfold rememberThrough
    split
    · exact h
    have hlane : s.transport.find s.lane.id = some q := by
      rw [h.id]
      exact hfind s.transport h.paths
    exact h.note hlane ⟨rfl, rfl, rfl, rfl, rfl, rfl⟩ rfl rfl
  rcases settlePrefix_spec a fresh s order with ⟨-, heq⟩ | ⟨-, heq⟩
  · rw [heq]
    exact hremember.turns hfind (turns_arrivedTurns a _ _)
  rw [heq]
  cases fresh with
  | true => exact hremember
  | false => exact h

end Loops

/-! ### The pass over every lane -/

/-- The pass over one lane. -/
theorem receives_confirmLane (hunnamed : Unnamed a t.pending) (now : Time)
    (order : MapOrder) (acknowledged : PathID) (feedback : Duration)
    (id : PathID) :
    Receives t.books (confirmLane a now order acknowledged feedback t id).books ∧
      Unnamed a (confirmLane a now order acknowledged feedback t id).pending := by
  unfold confirmLane
  split
  · exact ⟨.refl, hunnamed⟩
  next path hpath =>
    obtain rfl := id_of_find hpath
    set c := (order.keys .confirm path.id path.attempts.keys).foldl
      (Transport.confirmTurn a now)
      ⟨t, path, if path.id = acknowledged then feedback else 0⟩ with hc
    have hfind : ∀ u : Transport, u.paths = t.paths →
        u.find path.id = some path := by
      intro u hu
      simp only [find, hu]
      exact hpath
    have hstart : OnLane t.books path.id t.paths a t path := by
      refine ⟨?_, rfl, rfl, hunnamed⟩
      rw [books_setLane_of_eq hpath rfl]
    have hloop : OnLane t.books path.id t.paths a c.transport c.lane :=
      hstart.turns hfind (turns_confirmTurns a now _ ⟨t, path, _⟩)
    have hlane : c.transport.find c.lane.id = some path := by
      rw [hloop.id]
      exact hfind _ hloop.paths
    have hfeedback : (c.lane.observeFeedbackRTT c.feedback).toLaneCore =
        c.lane.toLaneCore := Lane.observeFeedbackRTT_toLaneCore _ _
    have hsame : c.lane.toLaneCore.SameAccounts
        (c.lane.observeFeedbackRTT c.feedback).toLaneCore := by
      rw [hfeedback]
      exact ⟨rfl, rfl, rfl, rfl, rfl, rfl⟩
    have hnote := hloop.note hlane hsame (Lane.id_of_core hfeedback)
      (congrArg (fun c : LaneCore => c.lease) hfeedback)
    exact ⟨hnote.receives, hnote.unnamed⟩

theorem receives_confirmLanes (now : Time) (order : MapOrder)
    (acknowledged : PathID) (feedback : Duration) (ids : List PathID) :
    ∀ t : Transport, Unnamed a t.pending →
      Receives t.books
        (ids.foldl (confirmLane a now order acknowledged feedback) t).books := by
  induction ids with
  | nil => exact fun t _ => .refl
  | cons id ids ih =>
    intro t hunnamed
    obtain ⟨hone, hunnamed'⟩ := receives_confirmLane hunnamed now order
      acknowledged feedback id
    exact hone.trans (ih _ hunnamed')

/-! ### `ack` -/

/-- The loops over packets and attempts. -/
theorem receives_settle {p q : Lane} (hfind : t.find p.id = some q)
    (hsame : q.toLaneCore.SameAccounts p.toLaneCore) (hlease : p.lease = q.lease)
    (a : Acknowledgement) (now : Time) (fresh : Bool) (order : MapOrder) :
    Receives t.books (t.settle p a now fresh order).books := by
  have hkeys : ∀ k ∉ order.keys .receipts p.id t.pending.keys,
      a.received k = true → t.pending.lookup k = none := by
    intro k hk _
    rw [AList.lookup_eq_none, AList.mem_keys]
    rwa [(order.perm .receipts p.id t.pending.keys).mem_iff] at hk
  obtain ⟨hreceipts, hpaths, hunnamed⟩ := receives_receipts a
    (order.keys .receipts p.id t.pending.keys) t hkeys
  set u := (order.keys .receipts p.id t.pending.keys).foldl (receiptTurn a) t
    with hu
  have hlanes : ∀ v : Transport, v.paths = u.paths → v.find p.id = some q := by
    intro v hv
    simp only [find, hv, hpaths]
    exact hfind
  have hstart : OnLane t.books p.id u.paths a u p := by
    refine ⟨hreceipts.tail ?_, rfl, rfl, hunnamed⟩
    rw [books_setLane (hlanes u rfl)]
    exact .note (books_lanes (hlanes u rfl)) hsame hlease
  have hscan : OnLane t.books p.id u.paths a (t.scan p a now fresh order).transport
      (t.scan p a now fresh order).lane :=
    hstart.turns hlanes (turns_scanTurns a now fresh
      (order.keys .bitmap p.id p.attempts.keys)
      ⟨u, p, 0, p.newestConfirmed, none, 0⟩)
  have hprefix := hscan.settlePrefix hlanes fresh order
  exact hprefix.receives.trans
    (receives_confirmLanes now order _ _ _ _ hprefix.unnamed)

theorem receives_note {p q : Lane} (hfind : t.find p.id = some q)
    (hsame : q.toLaneCore.SameAccounts p.toLaneCore)
    (hlease : p.lease = q.lease) : Receives t.books (t.setLane p).books := by
  rw [books_setLane hfind]
  exact .single (.note (books_lanes hfind) hsame hlease)

theorem receives_estimate {p : Lane} (hfind : t.find p.id = some p)
    (a : Acknowledgement) (now : Time) (fresh progressed backlogged : Bool)
    (silence : Duration) (s : Scan) :
    Receives t.books
      (t.estimate p a now fresh progressed backlogged silence s).books := by
  obtain ⟨q, demand, heq, hcore⟩ := t.estimate_eq p a now fresh progressed
    backlogged silence s
  rw [heq]
  have hid : q.id = p.id := by
    rw [hcore]
    rfl
  refine @receives_note t q p (by rw [hid]; exact hfind) ?_ ?_
  · rw [hcore]
    exact ⟨rfl, rfl, rfl, rfl, rfl, rfl⟩
  · rw [hcore]
    rfl

variable {path : Lane}

theorem receives_ack (hfind : t.find path.id = some path) (revision : ℕ)
    (a : Acknowledgement) (now : Time) (fresh : Bool) (order : MapOrder) :
    Receives t.books
      (t.ack (noteRevision path revision) a now fresh order).books := by
  dsimp only [ack]
  generalize progresses (noteRevision path revision) a fresh = progressed
  set p := noteProgress (noteRevision path revision) a now progressed with hp
  have hcore : p.toLaneCore = { (noteRevision path revision).toLaneCore with
      receivedThrough := if a.high > (noteRevision path revision).receivedHigh
        then 0 else (noteRevision path revision).receivedThrough
      receivedHigh := max (noteRevision path revision).receivedHigh a.high } :=
    noteProgress_toLaneCore _ now a progressed
  have hsame : path.toLaneCore.SameAccounts p.toLaneCore := by
    rw [hcore]
    exact ⟨rfl, rfl, rfl, rfl, rfl, rfl⟩
  have hid : p.id = path.id := by
    rw [hcore]
    rfl
  have hlease : p.lease = path.lease := by
    rw [hcore]
    rfl
  have hsettle := receives_settle (t := t) (p := p) (q := path)
    (by rw [hid]; exact hfind) hsame hlease a now fresh order
  refine hsettle.trans ?_
  split
  · exact .refl
  next p' hp' =>
    obtain hid' : p'.id = p.id := id_of_find hp'
    exact receives_estimate (by rw [hid']; exact hp') a now fresh _ _ _ _

/-! ### `Receive` -/

theorem receives_receiveAck (hfind : t.find path.id = some path) (lane : PathID)
    (revision : ℕ) (fields : Option Acknowledgement) (now : Time)
    (order : MapOrder) :
    Receives t.books
      (t.receiveAck path lane revision fields now order).1.books := by
  rcases t.receiveAck_cases path lane revision fields now with ⟨e, -, heq⟩ |
    ⟨-, e, -, heq⟩ | ⟨a, -, -, -, -, -, heq⟩
  · rw [heq]
  · rw [heq]
    refine receives_note (p := { path with
      ackReceipts := (path.ackReceipts.mark revision).2 }) hfind ?_ rfl
    exact ⟨rfl, rfl, rfl, rfl, rfl, rfl⟩
  · rw [heq]
    exact receives_ack hfind revision a now _ order

theorem books_receiveData (hfind : t.find path.id = some path) (lane : PathID)
    (seq : ℕ) (fields : Option DataFields) (now : Time) :
    (t.receiveData path lane seq fields now).1.books = t.books := by
  rcases t.receiveData_cases path lane seq fields now with ⟨e, -, heq⟩ |
    ⟨u, deliveries, _, _, _, _, heq, rfl | rfl⟩
  · rw [heq]
  · rw [heq]
    rfl
  · rw [heq]
    exact @books_setLane_of_eq t { path with
      bulkReceived := path.bulkReceived + 1 } path hfind rfl

/-- `Receive` makes moves of its own kind alone. -/
theorem receives_receive (t : Transport) (path : PathID) (f : Control)
    (now : Time) (order : MapOrder) :
    Receives t.books (t.receive path f now order).1.books := by
  have hreport : ∀ r : Received, (report r).1.books = r.1.books := by
    rintro ⟨u, result⟩
    cases result <;> rfl
  have honLane : ∀ (u : Transport) (h : PacketHeader) (seq : ℕ)
      (branch : Lane → Received),
      (∀ p, u.find p.id = some p → Receives u.books (branch p).1.books) →
      Receives u.books (u.onLane path h seq now branch).1.books := by
    intro u h seq branch hbranch
    unfold onLane
    cases hv : u.validate path h seq now with
    | error e => exact .refl
    | ok p =>
      have hfind := (validate_ok hv).2.2.1
      obtain rfl := id_of_find hfind
      exact hbranch p hfind
  rcases t.receive_cases path f now order with ⟨-, hr⟩ | ⟨-, hr⟩
  · rw [hr, hreport]
  rw [hr, hreport]
  obtain ⟨seq, body⟩ := f
  set u : Transport := { t with lastTime := now } with hu
  have hbooks : u.books = t.books := rfl
  rw [← hbooks]
  cases body with
  | malformed => exact .refl
  | other header => exact honLane u header seq _ fun _ _ => .refl
  | data header =>
    refine honLane u header seq _ fun p hp => ?_
    rw [books_receiveData hp]
  | ack header =>
    exact honLane u header seq _ fun p hp =>
      receives_receiveAck hp _ _ _ now order

end Transport

end Wanbond.Bond
