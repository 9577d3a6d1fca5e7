import Mathlib.Logic.Relation
import Wanbond.Bond.PollTrace

/-!
# The turns of an acknowledgement

`ack` runs through four loops.  This module says once what a turn of any of them
can do to the packets and to the accounts of the lane that the loop ranges over.
-/

namespace Wanbond.Bond

open Wanbond.Support

/-- A turn of a loop, on the transport and the lane of the loop.  The attempts
that a turn confirms are those of which `shown` holds. -/
inductive AckTurn (a : Acknowledgement) (shown : ℕ → Prop) :
    Transport × Lane → Transport × Lane → Prop
  | idle {t : Transport} {p p' : Lane} (hcore : p'.toLaneCore = p.toLaneCore) :
      AckTurn a shown (t, p) (t, p')
  | receipt {t : Transport} {p : Lane} {q : ℕ} {ref : PacketRef}
      (href : t.pending.lookup q = some ref) (hq : a.received q = true) :
      AckTurn a shown (t, p)
        ({ t.ackPacket ref with pending := t.pending.erase q }, p)
  | confirm {t : Transport} {p p' : Lane} {k : ℕ} {sent : Attempt}
      (hk : p.attempts.lookup k = some sent) (hshown : shown k)
      (hcore : p'.toLaneCore =
        ((p.toLaneCore.clear t.packets sent).credit sent).forget k) :
      AckTurn a shown (t, p) (t.settlePacket sent.packet, p')
  | forget {t : Transport} {p p' : Lane} {k : ℕ} {sent : Attempt}
      (hk : p.attempts.lookup k = some sent)
      (hcore : p'.toLaneCore =
        (p.toLaneCore.clear t.packets sent).forget k) :
      AckTurn a shown (t, p) (t, p')
  | mark {t : Transport} {p p' : Lane} {k : ℕ} {sent : Attempt}
      {ref : PacketRef} (hk : p.attempts.lookup k = some sent)
      (hpacket : sent.packet = some ref)
      (hknown : (t.packets ref).acked = true ∨
        a.received (t.packets ref).seq = true)
      (hcore : p'.toLaneCore = (p.toLaneCore.clear t.packets sent).put k
        { sent with released := true, confirmed := true }) :
      AckTurn a shown (t, p) (t.ackPacket ref, p')

/-- A sequence of turns. -/
abbrev AckTurns (a : Acknowledgement) (shown : ℕ → Prop) :
    Transport × Lane → Transport × Lane → Prop :=
  Relation.ReflTransGen (AckTurn a shown)

variable {a : Acknowledgement} {shown : ℕ → Prop}

variable {s s' : Transport × Lane}

theorem AckTurns.keeps {P : Transport → Lane → Prop} (h : AckTurns a shown s s')
    (hturn : ∀ {t p t' p'}, AckTurn a shown (t, p) (t', p') → P t p → P t' p')
    (hP : P s.1 s.2) : P s'.1 s'.2 := by
  induction h with
  | refl => exact hP
  | tail _ hlast ih => exact hturn hlast ih

theorem AckTurns.foldl {σ : Type} {v : σ → Transport × Lane}
    {turn : σ → ℕ → σ}
    (hturn : ∀ s k, AckTurn a shown (v s) (v (turn s k)))
    (keys : List ℕ) (s : σ) :
    AckTurns a shown (v s) (v (keys.foldl turn s)) :=
  List.foldlRecOn (motive := fun s' => AckTurns a shown (v s) (v s'))
    keys turn .refl fun s' h k _ => h.tail (hturn s' k)

namespace Transport

/-! ## The rest of the transport -/

/-- The packets and the pending ones may differ, and nothing else. -/
def SamePeripherals (t u : Transport) : Prop :=
  { u with toOutbound := t.toOutbound } = t

namespace SamePeripherals

variable {t u : Transport}

theorem refl (t : Transport) : t.SamePeripherals t := rfl

theorem trans {v : Transport} (h : t.SamePeripherals u)
    (h' : u.SamePeripherals v) : t.SamePeripherals v := by
  have := congrArg (fun x : Transport => { x with toOutbound := t.toOutbound }) h'
  exact this.trans h

theorem paths (h : t.SamePeripherals u) : u.paths = t.paths := by
  exact (congrArg Transport.paths h :)

theorem lastTime (h : t.SamePeripherals u) : u.lastTime = t.lastTime := by
  exact (congrArg Transport.lastTime h :)

end SamePeripherals

theorem same_settlePacket (t : Transport) (packet : Option PacketRef) :
    t.SamePeripherals (t.settlePacket packet) := by
  cases packet <;> rfl

end Transport

theorem AckTurns.same (h : AckTurns a shown s s') :
    s.1.SamePeripherals s'.1 := by
  refine h.keeps (P := fun t _ => s.1.SamePeripherals t) ?_ (.refl _)
  intro t p t' p' hturn hsame
  refine hsame.trans ?_
  cases hturn with
  | confirm => exact t.same_settlePacket _
  | _ => rfl

theorem AckTurns.id (h : AckTurns a shown s s') : s'.2.id = s.2.id := by
  refine h.keeps (P := fun _ p => p.id = s.2.id) ?_ rfl
  intro t p t' p' hturn hid
  have hcleared : ∀ sent, (p.toLaneCore.clear t.packets sent).id = p.id :=
    fun sent => congrArg LaneWire.id (p.toLaneCore.clear_toLaneWire _ sent)
  cases hturn with
  | receipt => exact hid
  | idle hcore => exact (congrArg (fun c : LaneCore => c.id) hcore).trans hid
  | confirm _ _ hcore | forget _ hcore | mark _ _ _ hcore =>
    exact ((congrArg (fun c : LaneCore => c.id) hcore).trans
      (hcleared _)).trans hid

namespace Transport

/-! ## The loops -/

variable (a) (now : Time) (fresh : Bool)

theorem turns_receipts (keys : List ℕ) (t : Transport) (p : Lane) :
    AckTurns a shown (t, p) (keys.foldl (receiptTurn a) t, p) := by
  refine AckTurns.foldl (v := fun t => (t, p)) (fun t q => ?_) keys t
  unfold receiptTurn
  split
  · exact .idle rfl
  next ref href =>
    split
    next hq => exact .receipt href hq
    next => exact .idle rfl

theorem confirmOnLane_toLaneCore (heap : PacketHeap) (p : Lane) (k : ℕ)
    (sent : Attempt) :
    (confirmOnLane heap p k sent).toLaneCore =
      ((p.toLaneCore.clear heap sent).credit sent).forget k := by
  rw [← p.clear_toLaneCore heap sent]
  rfl

/-- An attempt whose bit is set is confirmed; it is the acknowledged one if the
acknowledgement is fresh and ends at it. -/
theorem scanConfirmed_spec (s : Scan) (k : ℕ) (sent : Attempt) :
    (scanConfirmed a now fresh s k sent).transport =
        s.transport.settlePacket sent.packet ∧
      (scanConfirmed a now fresh s k sent).lane.toLaneCore =
        ((s.lane.toLaneCore.clear s.transport.packets sent).credit sent).forget
          k ∧
      (scanConfirmed a now fresh s k sent).high =
        if fresh = true ∧ k = a.high then some sent else s.high := by
  dsimp only [scanConfirmed]
  generalize hs₁ : (if sent.confirmed then s else _) = s₁
  obtain ⟨htransport, hlane, hhigh⟩ : s₁.transport = s.transport ∧
      s₁.lane.toLaneCore = s.lane.toLaneCore ∧ s₁.high = s.high := by
    rw [← hs₁]
    split
    · exact ⟨rfl, rfl, rfl⟩
    · exact ⟨rfl, Lane.observeOrder_toLaneCore _ _ _, rfl⟩
  have hconfirm : (confirmOnLane s₁.transport.packets s₁.lane k
      sent).toLaneCore = ((s.lane.toLaneCore.clear s.transport.packets
        sent).credit sent).forget k := by
    rw [confirmOnLane_toLaneCore, hlane, htransport]
  split
  · split
    · exact ⟨by rw [← htransport], (Lane.observeHigh_toLaneCore _ _ _ _
        _).trans hconfirm, rfl⟩
    · exact ⟨by rw [← htransport], hconfirm, rfl⟩
  · exact ⟨by rw [← htransport], hconfirm, hhigh⟩

theorem scanKnown_toLaneCore (s : Scan) (k : ℕ) (sent : Attempt) :
    (scanKnown now s k sent).lane.toLaneCore =
      (s.lane.toLaneCore.clear s.transport.packets sent).forget k := by
  dsimp only [scanKnown]
  rw [Lane.forget_toLaneCore, ← Lane.clear_toLaneCore]
  split
  · rw [Lane.observeOrder_toLaneCore]
  · rfl

theorem ackTurn_scanTurn (s : Scan) (k : ℕ) :
    AckTurn a (fun k => a.laneBit k = true) (s.transport, s.lane)
      ((scanTurn a now fresh s k).transport,
        (scanTurn a now fresh s k).lane) := by
  unfold scanTurn
  split
  · exact .idle rfl
  next sent hk =>
    split
    next hbit =>
      obtain ⟨htransport, hcore, -⟩ := scanConfirmed_spec a now fresh s k sent
      rw [htransport]
      exact .confirm hk hbit hcore
    next =>
      split
      · exact .forget hk (scanKnown_toLaneCore now s k sent)
      · exact .idle rfl

theorem turns_scanTurns (keys : List ℕ) (s : Scan) :
    AckTurns a (fun k => a.laneBit k = true) (s.transport, s.lane)
      ((keys.foldl (scanTurn a now fresh) s).transport,
        (keys.foldl (scanTurn a now fresh) s).lane) :=
  AckTurns.foldl (v := fun s : Scan => (s.transport, s.lane))
    (ackTurn_scanTurn a now fresh) keys s

/-- The scan that began with the lane `p` has found attempts of this lane, and
the acknowledged one only for a fresh acknowledgement. -/
structure Scan.Found (p : Lane) (a : Acknowledgement) (fresh : Bool)
    (s : Scan) : Prop where
  attempts : ∀ k sent, s.lane.attempts.lookup k = some sent →
    p.attempts.lookup k = some sent
  high : ∀ sent, s.high = some sent →
    fresh = true ∧ p.attempts.lookup a.high = some sent

theorem Scan.Found.turn {p : Lane} {s : Scan} (h : s.Found p a fresh) (k : ℕ) :
    (scanTurn a now fresh s k).Found p a fresh := by
  have herase : ∀ {c : LaneCore} {lane : Lane},
      lane.toLaneCore = c.forget k → c.toLaneWire = s.lane.toLaneWire →
      ∀ j sent, lane.attempts.lookup j = some sent →
        p.attempts.lookup j = some sent := by
    intro c lane hlane hc j sent hj
    rw [hlane] at hj
    change (c.toLaneWire.attempts.erase k).lookup j = some sent at hj
    rw [hc] at hj
    by_cases hjk : j = k
    · rw [hjk, AList.lookup_erase] at hj
      cases hj
    · rw [AList.lookup_erase_ne hjk] at hj
      exact h.attempts j sent hj
  unfold scanTurn
  split
  · exact h
  next sent hk =>
    have hclear := s.lane.toLaneCore.clear_toLaneWire s.transport.packets sent
    split
    · obtain ⟨-, hcore, hhigh⟩ := scanConfirmed_spec a now fresh s k sent
      refine ⟨herase hcore hclear, ?_⟩
      rw [hhigh]
      intro sent' hsent'
      split at hsent'
      next hfresh =>
        rw [← Option.some.inj hsent', ← hfresh.2]
        exact ⟨hfresh.1, h.attempts k sent hk⟩
      next => exact h.high sent' hsent'
    · split
      · exact ⟨herase (scanKnown_toLaneCore now s k sent) hclear, h.high⟩
      · exact h

theorem found_scan (t : Transport) (p : Lane) (order : MapOrder) :
    (t.scan p a now fresh order).Found p a fresh :=
  List.foldlRecOn (motive := Scan.Found p a fresh) _ _
    ⟨fun _ _ h => h, fun _ h => by cases h⟩ fun _ h k _ => h.turn a now fresh k

theorem turns_scan (t : Transport) (p : Lane) (order : MapOrder) :
    AckTurns a (fun k => a.laneBit k = true) (t, p)
      ((t.scan p a now fresh order).transport,
        (t.scan p a now fresh order).lane) :=
  (turns_receipts a (order.keys .receipts p.id t.pending.keys) t p).trans
    (turns_scanTurns a now fresh (order.keys .bitmap p.id p.attempts.keys)
      ⟨_, p, 0, p.newestConfirmed, none, 0⟩)

theorem turns_arrivedTurns (keys : List ℕ) (s : Transport × Lane) :
    AckTurns a (fun k => k ≤ a.high) s (keys.foldl (arrivedTurn a) s) := by
  refine AckTurns.foldl (v := fun s => s) (fun s k => ?_) keys s
  obtain ⟨t, p⟩ := s
  unfold arrivedTurn
  split
  · exact .idle rfl
  next sent hk =>
    split
    · exact .idle rfl
    next hle =>
      exact .confirm hk (not_lt.mp hle) (confirmOnLane_toLaneCore _ p k sent)

/-- The complete-prefix rule applies: the bytes sent through the acknowledged
sequence are known, and they are the bytes that the peer has counted. -/
structure PrefixComplete (s : Scan) (a : Acknowledgement) (fresh : Bool) :
    Prop where
  fresh : fresh = true
  known : (rememberThrough s).receivedThrough > 0
  high : a.high = (rememberThrough s).receivedHigh
  bytes : (rememberThrough s).receivedThrough = a.bytes

/-- The loop of `confirmArrived` runs where the rule applies, and only there. -/
theorem settlePrefix_spec (s : Scan) (order : MapOrder) :
    PrefixComplete s a fresh ∧ settlePrefix s a fresh order =
        (order.keys .arrived (rememberThrough s).id
          (rememberThrough s).attempts.keys).foldl (arrivedTurn a)
          (s.transport, rememberThrough s) ∨
      ¬PrefixComplete s a fresh ∧ settlePrefix s a fresh order =
        (s.transport, if fresh then rememberThrough s else s.lane) := by
  unfold settlePrefix
  cases fresh with
  | false => exact Or.inr ⟨fun h => (Bool.false_ne_true h.fresh), rfl⟩
  | true =>
    rw [if_pos rfl]
    by_cases hknown : (rememberThrough s).receivedThrough > 0 ∧
        a.high = (rememberThrough s).receivedHigh
    · rw [if_pos hknown]
      unfold confirmArrived
      by_cases hbytes : (rememberThrough s).receivedThrough ≠ a.bytes
      · rw [if_pos hbytes]
        exact Or.inr ⟨fun h => hbytes h.bytes, rfl⟩
      · rw [if_neg hbytes]
        exact Or.inl ⟨⟨rfl, hknown.1, hknown.2, not_not.mp hbytes⟩, rfl⟩
    · rw [if_neg hknown]
      exact Or.inr ⟨fun h => hknown ⟨h.known, h.high⟩, rfl⟩

theorem rememberThrough_lane (s : Scan) :
    (rememberThrough s).attempts = s.lane.attempts ∧
      (rememberThrough s).acked = s.lane.acked ∧
      (rememberThrough s).receivedHigh = s.lane.receivedHigh ∧
      (rememberThrough s).id = s.lane.id := by
  unfold rememberThrough
  split <;> exact ⟨rfl, rfl, rfl, rfl⟩

/-- The loops over the acknowledged lane leave its identifier and the rest of
the transport. -/
theorem same_settlePrefix (t : Transport) (p : Lane) (order : MapOrder) :
    t.SamePeripherals
        (settlePrefix (t.scan p a now fresh order) a fresh order).1 ∧
      (settlePrefix (t.scan p a now fresh order) a fresh order).2.id = p.id := by
  have hscan := turns_scan a now fresh t p order
  generalize t.scan p a now fresh order = s at hscan ⊢
  obtain ⟨-, -, -, hid⟩ := rememberThrough_lane s
  rcases settlePrefix_spec a fresh s order with ⟨-, heq⟩ | ⟨-, heq⟩
  · have hturns := turns_arrivedTurns a (order.keys .arrived
      (rememberThrough s).id (rememberThrough s).attempts.keys)
      (s.transport, rememberThrough s)
    rw [heq]
    exact ⟨hscan.same.trans hturns.same, (hturns.id.trans hid).trans hscan.id⟩
  rw [heq]
  refine ⟨hscan.same, ?_⟩
  cases fresh with
  | true => exact hid.trans hscan.id
  | false => exact hscan.id

/-- A turn of the last pass marks the attempt and its packet, or nothing. -/
theorem turns_confirmTurns (keys : List ℕ) (s : Confirmation) :
    AckTurns a (fun _ => False) (s.transport, s.lane)
      ((keys.foldl (confirmTurn a now) s).transport,
        (keys.foldl (confirmTurn a now) s).lane) := by
  refine AckTurns.foldl (v := fun s : Confirmation => (s.transport, s.lane))
    (fun s k => ?_) keys s
  unfold confirmTurn
  split
  · exact .idle rfl
  next sent hk =>
    split
    · exact .idle rfl
    next ref hpacket =>
      split
      next hknown =>
        refine .mark hk hpacket ?_ ?_
        · have := hknown.1
          simpa [known, hpacket] using this
        rw [Lane.putAttempt_toLaneCore, ← Lane.clear_toLaneCore]
        split
        · rw [Lane.observeOrder_toLaneCore]
        · rfl
      next => exact .idle rfl

end Transport

end Wanbond.Bond
