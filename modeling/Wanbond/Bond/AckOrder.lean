import Wanbond.Bond.AccountTimes
import Wanbond.Support.Unordered

/-!
# The order of the loops of an acknowledgement

`ack` ranges over maps: the pending packets, the attempts of the acknowledged
lane, twice, and the attempts of every lane.  Each turn settles one attempt:
what it is due to the account of the lane can be said beforehand, and the dues
of two attempts can be settled in either order.
-/

namespace Wanbond.Bond

open Wanbond.Support

/-! ## Settling one attempt -/

/-- What an attempt is due to the account of its lane when it is settled. -/
structure Dues where
  bytes : ℕ
  sent : Time
  /-- The class of the packet that it carries. -/
  cls : Option Class
  /-- Its bytes are still in flight. -/
  releases : Bool
  /-- It tells in which order the path delivers. -/
  ordered : Bool
  /-- It was confirmed itself. -/
  credited : Bool

namespace Account

/-- The account once the attempt is settled; the attempts stay. -/
def settle (now : Time) (x : Account) (d : Dues) : Account :=
  { x with
    inflight := if d.releases then x.inflight - d.bytes else x.inflight
    classInflight := match d.releases, d.cls with
      | true, some c => x.classInflight.modify c (· - d.bytes)
      | _, _ => x.classInflight
    confirmedWireBytes := if d.credited && d.cls.isSome then
      min (maxPackets * maxDatagram) (x.confirmedWireBytes + d.bytes)
      else x.confirmedWireBytes
    acked := if d.credited then x.acked + d.bytes else x.acked
    reordering := if d.ordered ∧ d.sent < x.newestConfirmed then
      x.reordering.record now (x.newestConfirmed - d.sent : ℤ)
      else x.reordering }

/-- The dues of two attempts can be settled in either order. -/
theorem settle_settle {now : Time} {x : Account} (h : x.Timed now)
    {d e : Dues} (hd : 0 ≤ d.sent) (he : 0 ≤ e.sent) :
    (x.settle now d).settle now e = (x.settle now e).settle now d := by
  have hclass : ∀ (c c' : Class) (v : PerClass ℤ) (m n : ℕ),
      (v.modify c (· - (m : ℤ))).modify c' (· - (n : ℤ)) =
        (v.modify c' (· - (n : ℤ))).modify c (· - (m : ℤ)) := by
    intro c c' v m n
    cases c <;> cases c' <;>
      simp [PerClass.modify, PerClass.set, PerClass.get, sub_right_comm]
  -- a record is made of an attempt sent before another, so the clock has started
  have hring : ∀ v w : ℚ, d.sent < x.newestConfirmed →
      (x.reordering.record now v).record now w =
        (x.reordering.record now w).record now v := by
    intro v w hlt
    exact Peak.record_comm h.reordering (hd.trans_lt
      (hlt.trans_le h.newest)) v w
  obtain ⟨db, ds, dc, dr, dor, dcr⟩ := d
  obtain ⟨eb, es, ec, er, eo, ecr⟩ := e
  dsimp only [settle]
  congr 1
  · cases dr <;> cases er <;> simp [sub_right_comm]
  · cases dr <;> cases er <;> cases dc <;> cases ec <;>
      first | rfl | exact hclass _ _ _ _ _
  · cases dcr <;> cases ecr <;> cases dc <;> cases ec <;>
      first | rfl | (simp; omega)
  · cases dcr <;> cases ecr <;> simp [Nat.add_right_comm]
  by_cases hde : dor = true ∧ ds < x.newestConfirmed
  · by_cases hee : eo = true ∧ es < x.newestConfirmed
    · simp only [if_pos hde, if_pos hee]
      exact hring _ _ hde.2
    · simp only [if_pos hde, if_neg hee]
  · simp only [if_neg hde]

end Account

/-- The packets may have been acknowledged since; nothing else about them has
changed. -/
def PacketHeap.Alike (heap heap' : PacketHeap) : Prop :=
  ∀ ref, { heap' ref with acked := (heap ref).acked } = heap ref

namespace PacketHeap.Alike

variable {heap heap' : PacketHeap}

theorem refl (heap : PacketHeap) : heap.Alike heap := fun _ => rfl

theorem cls (h : heap.Alike heap') (ref : PacketRef) :
    (heap' ref).cls = (heap ref).cls := by
  exact (congrArg Packet.cls (h ref) :)

theorem seq (h : heap.Alike heap') (ref : PacketRef) :
    (heap' ref).seq = (heap ref).seq := by
  exact (congrArg Packet.seq (h ref) :)

theorem attempts (h : heap.Alike heap') (ref : PacketRef) :
    (heap' ref).attempts = (heap ref).attempts := by
  exact (congrArg Packet.attempts (h ref) :)

theorem ackPacket (t : Transport) (ref : PacketRef) :
    PacketHeap.Alike t.packets (t.ackPacket ref).packets := by
  intro ref'
  by_cases href : ref' = ref
  · subst href
    simp [Transport.ackPacket, Transport.setPacket]
  · simp [Transport.ackPacket, Transport.setPacket, Function.update_of_ne href]

theorem settlePacket (t : Transport) (packet : Option PacketRef) :
    PacketHeap.Alike t.packets (t.settlePacket packet).packets := by
  cases packet with
  | none => exact refl _
  | some ref => exact ackPacket t ref

end PacketHeap.Alike

namespace Attempt

/-- The class of the packet. -/
def cls (a : Attempt) (heap : PacketHeap) : Option Class :=
  a.packet.map fun ref => (heap ref).cls

/-- The attempt is the only one of its packet. -/
def once (a : Attempt) (heap : PacketHeap) : Bool :=
  a.packet.any fun ref => decide ((heap ref).attempts = 1)

def dues (a : Attempt) (heap : PacketHeap) (ordered credited : Bool) : Dues :=
  ⟨a.bytes, a.sent, a.cls heap, !a.released, ordered, credited⟩

variable {heap heap' : PacketHeap}

theorem once_alike (h : heap.Alike heap') (a : Attempt) :
    a.once heap' = a.once heap := by
  unfold once
  cases a.packet with
  | none => rfl
  | some ref => simp [h.attempts ref]

theorem dues_alike (h : heap.Alike heap') (a : Attempt)
    (ordered credited : Bool) :
    a.dues heap' ordered credited = a.dues heap ordered credited := by
  unfold dues cls
  cases a.packet with
  | none => rfl
  | some ref => simp [h.cls ref]

end Attempt

namespace Lane

/-- The lane once the attempt is settled; the attempts stay. -/
def settle (p : Lane) (now : Time) (d : Dues) : Lane :=
  p.withAccount (p.account.settle now d)

variable {p : Lane} {now : Time}

theorem Aside.settle {f : Lane → Lane} (h : Aside f) (p : Lane) (now : Time)
    (d : Dues) : f (p.settle now d) = (f p).settle now d := by
  unfold Lane.settle
  rw [h, h.account]

theorem Aside.forget {f : Lane → Lane} (h : Aside f) (p : Lane) (k : ℕ) :
    f (p.forget k) = (f p).forget k := by
  have hforget : ∀ q : Lane, q.forget k =
      q.withAccount { q.account with attempts := q.account.attempts.erase k } :=
    fun _ => rfl
  rw [hforget, hforget, h, h.account]

theorem settle_settle (h : p.Timed now) {d e : Dues} (hd : 0 ≤ d.sent)
    (he : 0 ≤ e.sent) :
    (p.settle now d).settle now e = (p.settle now e).settle now d :=
  congrArg p.withAccount (Account.settle_settle h hd he)

theorem settle_forget (p : Lane) (now : Time) (d : Dues) (k : ℕ) :
    (p.settle now d).forget k = (p.forget k).settle now d := rfl

theorem forget_forget (p : Lane) (j k : ℕ) :
    (p.forget j).forget k = (p.forget k).forget j := by
  have := AList.erase_erase j k p.attempts
  dsimp only [forget]
  rw [this]

theorem settle_forget_comm (h : p.Timed now) {d e : Dues} (hd : 0 ≤ d.sent)
    (he : 0 ≤ e.sent) (j k : ℕ) :
    (((p.settle now d).forget j).settle now e).forget k =
      (((p.settle now e).forget k).settle now d).forget j := by
  rw [← settle_forget, ← settle_forget, settle_settle h hd he, forget_forget]

theorem release_eq_settle (p : Lane) (now : Time) (heap : PacketHeap)
    (a : Attempt) (ordered : Bool) :
    (let q := if a.released then p else p.release heap a
     if ordered then q.observeOrder now a.sent else q) =
      p.settle now (a.dues heap ordered false) := by
  unfold Lane.settle Account.settle Attempt.dues Attempt.cls observeOrder release
  cases hpacket : a.packet <;> cases hreleased : a.released <;> cases ordered <;>
    by_cases hsent : a.sent < p.newestConfirmed <;>
    simp [hsent, withAccount, account]

end Lane

theorem Transport.confirmOnLane_eq_settle (heap : PacketHeap) (p : Lane)
    (now : Time) (k : ℕ) (a : Attempt) (ordered : Bool) :
    Transport.confirmOnLane heap
        (if ordered then p.observeOrder now a.sent else p) k a =
      (p.settle now (a.dues heap ordered true)).forget k := by
  unfold Lane.settle Account.settle Attempt.dues Attempt.cls Lane.observeOrder
    Transport.confirmOnLane Lane.release
  cases hpacket : a.packet <;> cases hreleased : a.released <;> cases ordered <;>
    by_cases hsent : a.sent < p.newestConfirmed <;>
    simp [hsent, Lane.withAccount, Lane.account, Lane.forget]

/-! ## The pending packets -/

namespace Transport

theorem ackPacket_comm (t : Transport) (ref ref' : PacketRef) :
    (t.ackPacket ref).ackPacket ref' = (t.ackPacket ref').ackPacket ref := by
  by_cases href : ref = ref'
  · rw [href]
  · dsimp only [ackPacket, setPacket]
    rw [Function.update_of_ne (Ne.symm href), Function.update_of_ne href,
      Function.update_comm href]

/-- A packet is acknowledged, and no longer pending under `q`. -/
def settleAs (t : Transport) (ref : PacketRef) (q : ℕ) : Transport :=
  { t.ackPacket ref with pending := t.pending.erase q }

theorem settleAs_comm (t : Transport) (ref ref' : PacketRef) (q q' : ℕ) :
    (t.settleAs ref q).settleAs ref' q' =
      (t.settleAs ref' q').settleAs ref q := by
  have herase := AList.erase_erase q q' t.pending
  have hack := congrArg (fun u : Transport => { u with
    pending := (t.pending.erase q).erase q' }) (ackPacket_comm t ref ref')
  nth_rewrite 2 [herase] at hack
  exact hack

theorem settlePacket_comm (t : Transport) (x y : Option PacketRef) :
    (t.settlePacket x).settlePacket y = (t.settlePacket y).settlePacket x := by
  cases x with
  | none => rfl
  | some ref =>
    cases y with
    | none => rfl
    | some ref' =>
      have hseq := (PacketHeap.Alike.ackPacket t ref).seq ref'
      have hseq' := (PacketHeap.Alike.ackPacket t ref').seq ref
      show (t.settleAs ref (t.packets ref).seq).settleAs ref'
          ((t.ackPacket ref).packets ref').seq =
        (t.settleAs ref' (t.packets ref').seq).settleAs ref
          ((t.ackPacket ref').packets ref).seq
      rw [hseq, hseq', settleAs_comm]

theorem unordered_receiptTurn (a : Acknowledgement) :
    Unordered (receiptTurn a) (fun _ => True) Eq := by
  have hturn : receiptTurn a = eachEntry (fun t k => t.pending.lookup k)
      (fun _ k _ => a.received k) fun t k ref => t.settleAs ref k := by
    funext t k
    dsimp only [receiptTurn, eachEntry]
    cases t.pending.lookup k with
    | none => rfl
    | some => rfl
  rw [hturn]
  refine Separate.unordered (.of_comm (fun _ _ _ _ _ => trivial) ?_
    (fun _ _ _ _ _ _ _ _ _ _ => rfl) ?_)
  · exact fun t j k ref hjk => AList.lookup_erase_ne (Ne.symm hjk)
  · exact fun t j k ref ref' _ _ _ _ => settleAs_comm t ref ref' j k

/-! ## The attempts of the acknowledged lane -/

/-- The attempt that the acknowledgement names, in time for a sample. -/
def timely (a : Acknowledgement) (now : Time) (fresh : Bool) (k : ℕ)
    (sent : Attempt) : Bool :=
  fresh && decide (k = a.high) && decide ((a.delay : ℤ) ≤ now - sent.sent)

/-- What a turn of the scan does with an attempt.  The bit tells whether the
lane bitmap names the attempt, or whether its packet is known to have
arrived. -/
def Scan.act (s : Scan) (a : Acknowledgement) (now : Time) (fresh bit : Bool)
    (k : ℕ) (sent : Attempt) : Scan :=
  let ordered := !sent.confirmed && (bit || sent.once s.transport.packets)
  let lane := (s.lane.settle now
    (sent.dues s.transport.packets ordered bit)).forget k
  { transport := if bit then s.transport.settlePacket sent.packet
      else s.transport
    lane := if bit && timely a now fresh k sent then
      lane.observeHigh now a sent (now - sent.sent - a.delay) else lane
    physicalFeedback := if ordered then
      max s.physicalFeedback (now - sent.sent) else s.physicalFeedback
    newestConfirmed := if bit && !sent.confirmed then
      maxTime s.newestConfirmed sent.sent else s.newestConfirmed
    high := if bit && (fresh && decide (k = a.high)) then some sent else s.high
    sample := if bit && timely a now fresh k sent then
      now - sent.sent - a.delay else s.sample }

section Scan

variable {a : Acknowledgement} {now : Time} {fresh : Bool}

theorem scanConfirmed_eq_act (s : Scan) (k : ℕ) (sent : Attempt) :
    scanConfirmed a now fresh s k sent = s.act a now fresh true k sent := by
  have hlane := fun heap => confirmOnLane_eq_settle heap s.lane now k sent
    (!sent.confirmed)
  unfold scanConfirmed Scan.act timely
  cases hconfirmed : sent.confirmed <;> cases fresh <;>
    by_cases hk : k = a.high <;>
    by_cases hdelay : (a.delay : ℤ) ≤ now - sent.sent <;>
    simp [hconfirmed, hk, hdelay] at hlane ⊢ <;> simp [hlane]

theorem scanKnown_eq_act (s : Scan) (k : ℕ) (sent : Attempt)
    (a : Acknowledgement) (fresh : Bool) :
    scanKnown now s k sent = s.act a now fresh false k sent := by
  have hlane := Lane.release_eq_settle s.lane now s.transport.packets sent
  have honce : (sent.packet.any fun ref =>
      decide ((s.transport.packets ref).attempts = 1)) =
        sent.once s.transport.packets := rfl
  unfold scanKnown Scan.act
  rw [honce]
  cases hordered : (!sent.confirmed && sent.once s.transport.packets) with
  | false =>
    have hfalse := hlane false
    simp at hfalse
    simp [hordered, hfalse]
  | true =>
    have htrue := hlane true
    simp at htrue
    simp [hordered, htrue]

/-- The attempt that the acknowledgement names is observed. -/
def watch (a : Acknowledgement) (now : Time) (observed : Bool) (sent : Attempt)
    (p : Lane) : Lane :=
  if observed then p.observeHigh now a sent (now - sent.sent - a.delay) else p

theorem aside_watch (a : Acknowledgement) (now : Time) (observed : Bool)
    (sent : Attempt) : Lane.Aside (watch a now observed sent) := by
  cases observed with
  | false => exact fun _ _ => rfl
  | true => exact Lane.aside_observeHigh now (now - sent.sent - a.delay) a sent

theorem watch_watch {observed observed' : Bool}
    (h : observed = false ∨ observed' = false) (sent sent' : Attempt)
    (p : Lane) :
    watch a now observed' sent' (watch a now observed sent p) =
      watch a now observed sent (watch a now observed' sent' p) := by
  rcases h with rfl | rfl
  · rfl
  · rfl

theorem maxTime_right_comm (x y z : Time) :
    maxTime (maxTime x y) z = maxTime (maxTime x z) y := by
  have hmax : ∀ x y : Time, maxTime x y = max x y := by
    intro x y
    unfold maxTime
    split
    next h => exact (max_eq_left h.le).symm
    next h => exact (max_eq_right (not_lt.mp h)).symm
  rw [hmax, hmax, hmax, hmax, max_right_comm]

/-- Two attempts are settled in either order. -/
theorem Scan.act_act {s : Scan} (h : s.lane.Timed now) {j k : ℕ} (hjk : j ≠ k)
    {sent sent' : Attempt} (hsent : 0 ≤ sent.sent) (hsent' : 0 ≤ sent'.sent)
    (bit bit' : Bool) :
    (s.act a now fresh bit j sent).act a now fresh bit' k sent' =
      (s.act a now fresh bit' k sent').act a now fresh bit j sent := by
  have halike : ∀ (bit : Bool) (packet : Option PacketRef),
      PacketHeap.Alike s.transport.packets
        (if bit then s.transport.settlePacket packet else s.transport).packets := by
    intro bit packet
    cases bit with
    | false => exact .refl _
    | true => exact .settlePacket _ _
  -- only one of the two is the attempt that the acknowledgement names
  have hone : decide (j = a.high) = false ∨ decide (k = a.high) = false := by
    by_cases hj : j = a.high
    · exact Or.inr (decide_eq_false fun hk => hjk (hj.trans hk.symm))
    · exact Or.inl (decide_eq_false hj)
  dsimp only [Scan.act]
  simp only [Attempt.once_alike (halike _ _), Attempt.dues_alike (halike _ _)]
  congr 1
  · cases bit <;> cases bit' <;>
      first | rfl | exact settlePacket_comm _ _ _
  · have hwatch : (bit && timely a now fresh j sent) = false ∨
        (bit' && timely a now fresh k sent') = false := by
      rcases hone with hone | hone <;> simp [timely, hone]
    generalize (bit && timely a now fresh j sent) = c at hwatch ⊢
    generalize (bit' && timely a now fresh k sent') = c' at hwatch ⊢
    generalize hd : sent.dues s.transport.packets _ bit = d
    generalize he : sent'.dues s.transport.packets _ bit' = e
    have hd' : 0 ≤ d.sent := hd ▸ hsent
    have he' : 0 ≤ e.sent := he ▸ hsent'
    change watch a now c' sent' (((watch a now c sent
        ((s.lane.settle now d).forget j)).settle now e).forget k) =
      watch a now c sent (((watch a now c' sent'
        ((s.lane.settle now e).forget k)).settle now d).forget j)
    rw [← (aside_watch a now c sent).settle, ← (aside_watch a now c sent).forget,
      ← (aside_watch a now c' sent').settle, ← (aside_watch a now c' sent').forget,
      Lane.settle_forget_comm h hd' he', watch_watch hwatch]
  · split_ifs <;> first | rfl | exact max_right_comm _ _ _
  · split_ifs <;> first | rfl | exact maxTime_right_comm _ _ _
  · rcases hone with hone | hone <;> simp [hone]
  · rcases hone with hone | hone <;> simp [timely, hone]

theorem attempts_act (s : Scan) (bit : Bool) (k : ℕ) (sent : Attempt) :
    (s.act a now fresh bit k sent).lane.attempts = s.lane.attempts.erase k := by
  dsimp only [Scan.act]
  generalize sent.dues s.transport.packets _ bit = d
  generalize (bit && timely a now fresh k sent) = c
  have haccount := (aside_watch a now c sent).account
    ((s.lane.settle now d).forget k)
  exact congrArg Account.attempts haccount

/-- An attempt below the lane bitmap whose packet is not known to have arrived,
while the bitmap names another attempt of the same packet. -/
def Split (t : Transport) (p : Lane) (a : Acknowledgement) : Prop :=
  ∃ low named sent sent' ref,
    p.attempts.lookup low = some sent ∧ p.attempts.lookup named = some sent' ∧
    sent.packet = some ref ∧ sent'.packet = some ref ∧
    low < a.high ∧ 64 ≤ a.high - low ∧ a.laneBit named = true ∧
    t.known a sent = false

/-- The turn acts on attempts named by the bitmap, and on those below it whose
packets are known to have arrived. -/
def scanned (a : Acknowledgement) (s : Scan) (k : ℕ) (sent : Attempt) : Bool :=
  a.laneBit k ||
    decide (s.transport.known a sent = true ∧ k < a.high ∧ a.high - k ≥ 64)

theorem scanTurn_eq_eachEntry :
    scanTurn a now fresh = eachEntry (fun s k => s.lane.attempts.lookup k)
      (scanned a) fun s k sent => s.act a now fresh (a.laneBit k) k sent := by
  funext s k
  unfold scanTurn eachEntry scanned
  dsimp only
  cases s.lane.attempts.lookup k with
  | none => rfl
  | some sent =>
    cases hbit : a.laneBit k with
    | true => simp [scanConfirmed_eq_act]
    | false => simp [scanKnown_eq_act s k sent a fresh]

theorem known_settlePacket (t : Transport) (packet : Option PacketRef)
    (sent : Attempt) :
    (t.settlePacket packet).known a sent = true ↔
      t.known a sent = true ∨ ∃ ref, packet = some ref ∧ sent.packet = some ref := by
  cases packet with
  | none => simp [settlePacket]
  | some ref =>
    unfold known
    cases sent.packet with
    | none => simp
    | some ref' =>
      by_cases href : ref' = ref
      · subst href
        simp [settlePacket, ackPacket, setPacket]
      · simp [settlePacket, ackPacket, setPacket, href]

theorem known_act (s : Scan) (bit : Bool) (k : ℕ) (sent sent' : Attempt) :
    (s.act a now fresh bit k sent).transport.known a sent' = true ↔
      s.transport.known a sent' = true ∨
        bit = true ∧ ∃ ref, sent.packet = some ref ∧ sent'.packet = some ref := by
  cases bit with
  | false => simp [Scan.act]
  | true => simpa [Scan.act] using known_settlePacket s.transport sent.packet sent'

/-- Settling an attempt splits no packet. -/
theorem Split.of_act {s : Scan} {bit : Bool} {k : ℕ} {sent : Attempt}
    (h : Split (s.act a now fresh bit k sent).transport
      (s.act a now fresh bit k sent).lane a) :
    Split s.transport s.lane a := by
  obtain ⟨low, named, sl, sn, ref, hlow, hnamed, hpl, hpn, hlt, hfar, hbit,
    hknown⟩ := h
  have hold : ∀ {j : ℕ} {sj : Attempt},
      (s.act a now fresh bit k sent).lane.attempts.lookup j = some sj →
      s.lane.attempts.lookup j = some sj := by
    intro j sj hj
    rw [attempts_act] at hj
    by_cases hjk : j = k
    · subst hjk
      simp at hj
    · rwa [AList.lookup_erase_ne hjk] at hj
  refine ⟨low, named, sl, sn, ref, hold hlow, hold hnamed, hpl, hpn, hlt, hfar,
    hbit, ?_⟩
  rw [← Bool.not_eq_true] at hknown ⊢
  exact fun h => hknown ((known_act s bit k sent sl).mpr (Or.inl h))

/-- The loop over the attempts of the acknowledged lane. -/
theorem unordered_scanTurn (hnow : 0 ≤ now) (a : Acknowledgement)
    (fresh : Bool) :
    Unordered (scanTurn a now fresh)
      (fun s => s.lane.Timed now ∧ ¬Split s.transport s.lane a) Eq := by
  have hloops := Lane.keptByLoops_timed hnow fresh
  rw [scanTurn_eq_eachEntry]
  refine Separate.unordered (.of_comm ?_ ?_ ?_ ?_)
  · rintro s k sent ⟨htimed, hsplit⟩ -
    refine ⟨?_, fun h => hsplit h.of_act⟩
    cases a.laneBit k with
    | true =>
      rw [← scanConfirmed_eq_act]
      exact hloops.scanConfirmed htimed k sent
    | false =>
      rw [← scanKnown_eq_act]
      exact hloops.scanKnown htimed k sent
  · intro s j k sent hjk
    rw [attempts_act, AList.lookup_erase_ne (Ne.symm hjk)]
  · rintro s j k sent sent' ⟨-, hsplit⟩ hjk hj hchosen hk
    unfold scanned
    -- the packet of `j` is settled; an attempt below the bitmap would be split
    by_cases hlow : k < a.high ∧ a.high - k ≥ 64
    · have hknown : (s.act a now fresh (a.laneBit j) j sent).transport.known a
          sent' = s.transport.known a sent' := by
        rw [Bool.eq_iff_iff, known_act]
        refine ⟨?_, Or.inl⟩
        rintro (h | ⟨hbit, ref, href, href'⟩)
        · exact h
        · by_contra hknown
          exact hsplit ⟨k, j, sent', sent, ref, hk, hj, href', href, hlow.1,
            hlow.2, hbit, by simpa using hknown⟩
      rw [hknown]
    · simp [hlow]
  · rintro s j k sent sent' ⟨htimed, -⟩ hjk hj hk
    exact Scan.act_act htimed hjk (htimed.attempts j sent hj).start
      (htimed.attempts k sent' hk).start _ _

/-- The loop of `confirmArrived`. -/
theorem unordered_arrivedTurn (hnow : 0 ≤ now) (a : Acknowledgement) :
    Unordered (arrivedTurn a) (fun s => s.2.Timed now) Eq := by
  have hloops := Lane.keptByLoops_timed hnow false
  have hlane : ∀ (heap : PacketHeap) (p : Lane) (k : ℕ) (sent : Attempt),
      confirmOnLane heap p k sent =
        (p.settle now (sent.dues heap false true)).forget k := fun heap p k sent =>
    confirmOnLane_eq_settle heap p now k sent false
  have hturn : arrivedTurn a = eachEntry (fun s k => s.2.attempts.lookup k)
      (fun _ k _ => decide (k ≤ a.high)) fun s k sent =>
        (s.1.settlePacket sent.packet, confirmOnLane s.1.packets s.2 k sent) := by
    funext s k
    dsimp only [arrivedTurn, eachEntry]
    cases s.2.attempts.lookup k with
    | none => rfl
    | some =>
      by_cases hk : k ≤ a.high
      · simp [hk]
      · simp [hk, Nat.lt_of_not_le hk]
  rw [hturn]
  refine Separate.unordered (.of_comm ?_ ?_ (fun _ _ _ _ _ _ _ _ _ _ => rfl) ?_)
  · exact fun s k sent htimed _ => hloops.confirmOnLane htimed s.1.packets k sent
  · intro s j k sent hjk
    rw [hlane]
    exact AList.lookup_erase_ne (Ne.symm hjk)
  intro s j k sent sent' htimed hjk hj hk
  refine Prod.ext (settlePacket_comm _ _ _) ?_
  simp only [hlane, Attempt.dues_alike (PacketHeap.Alike.settlePacket _ _)]
  exact Lane.settle_forget_comm htimed (htimed.attempts j sent hj).start
    (htimed.attempts k sent' hk).start j k

end Scan

end Transport

/-! ## The same maps -/

namespace Lane

/-- The lane with other attempts. -/
def withAttempts (p : Lane) (attempts : Attempts) : Lane :=
  { p with attempts := attempts }

/-- The lanes differ at most in the order in which they list their attempts. -/
structure SameMaps (p q : Lane) : Prop where
  attempts : ∀ k, q.attempts.lookup k = p.attempts.lookup k
  rest : q = p.withAttempts q.attempts

namespace SameMaps

variable {p q : Lane}

theorem refl (p : Lane) : p.SameMaps p := ⟨fun _ => rfl, rfl⟩

theorem trans {r : Lane} (h : p.SameMaps q) (h' : q.SameMaps r) :
    p.SameMaps r := by
  refine ⟨fun k => (h'.attempts k).trans (h.attempts k), ?_⟩
  have := congrArg (fun x : Lane => x.withAttempts r.attempts) h.rest
  exact h'.rest.trans this

theorem id (h : p.SameMaps q) : q.id = p.id := by
  rw [h.rest]
  rfl

theorem aside {f : Lane → Lane} (hf : Aside f) (h : p.SameMaps q) :
    (f p).SameMaps (f q) := by
  have hp := hf.account p
  have hq := hf.account q
  refine ⟨fun k => ?_, ?_⟩
  · have hp' : (f p).attempts = p.attempts := congrArg Account.attempts hp
    have hq' : (f q).attempts = q.attempts := congrArg Account.attempts hq
    rw [hp', hq']
    exact h.attempts k
  have hq' : (f q).attempts = q.attempts := congrArg Account.attempts hq
  have hedit : ∀ r : Lane, r.withAttempts q.attempts =
      r.withAccount { r.account with attempts := q.attempts } := fun _ => rfl
  rw [hq', hedit, hp, ← hf, ← hedit, ← h.rest]

theorem settle (h : p.SameMaps q) (now : Time) (d : Dues) :
    (p.settle now d).SameMaps (q.settle now d) := by
  refine ⟨h.attempts, ?_⟩
  exact (congrArg (fun x : Lane => x.settle now d) h.rest :)

theorem putAttempt (h : p.SameMaps q) (k : ℕ) (a : Attempt) :
    (p.putAttempt k a).SameMaps (q.putAttempt k a) := by
  refine ⟨fun j => ?_, ?_⟩
  · show (q.attempts.insert k a).lookup j = (p.attempts.insert k a).lookup j
    by_cases hj : j = k
    · subst hj
      rw [AList.lookup_insert, AList.lookup_insert]
    · rw [AList.lookup_insert_ne hj, AList.lookup_insert_ne hj]
      exact h.attempts j
  · exact (congrArg (fun x : Lane => x.putAttempt k a) h.rest :)

theorem putAttempt_comm (p : Lane) {j k : ℕ} (hjk : j ≠ k) (a b : Attempt) :
    ((p.putAttempt j a).putAttempt k b).SameMaps
      ((p.putAttempt k b).putAttempt j a) := by
  refine ⟨fun i => ?_, rfl⟩
  show ((p.attempts.insert k b).insert j a).lookup i =
    ((p.attempts.insert j a).insert k b).lookup i
  by_cases hij : i = j
  · subst hij
    rw [AList.lookup_insert, AList.lookup_insert_ne hjk, AList.lookup_insert]
  rw [AList.lookup_insert_ne hij]
  by_cases hik : i = k
  · subst hik
    rw [AList.lookup_insert, AList.lookup_insert]
  · rw [AList.lookup_insert_ne hik, AList.lookup_insert_ne hik,
      AList.lookup_insert_ne hij]

end SameMaps

theorem timed_settle {p : Lane} {now : Time} (h : p.Timed now) (hnow : 0 ≤ now)
    (d : Dues) : (p.settle now d).Timed now := by
  refine ⟨?_, h.newest, h.attempts⟩
  show Peak.Regular (if _ then _ else _)
  split
  · exact h.reordering.record hnow _
  · exact h.reordering

end Lane

namespace Transport

/-- The transports differ at most in the order in which their lanes list their
attempts. -/
structure SameMaps (t u : Transport) : Prop where
  lanes : List.Forall₂ Lane.SameMaps t.paths u.paths
  rest : u = { t with paths := u.paths }

namespace SameMaps

variable {t u : Transport}

theorem refl (t : Transport) : t.SameMaps t :=
  ⟨List.forall₂_same.mpr fun p _ => .refl p, rfl⟩

theorem trans {v : Transport} (h : t.SameMaps u) (h' : u.SameMaps v) :
    t.SameMaps v := by
  refine ⟨?_, ?_⟩
  · have hcomp := h.lanes
    have hcomp' := h'.lanes
    generalize t.paths = l at hcomp
    generalize u.paths = l' at hcomp hcomp'
    generalize v.paths = l'' at hcomp'
    induction hcomp generalizing l'' with
    | nil =>
      cases hcomp'
      exact .nil
    | cons hpq _ ih =>
      cases hcomp' with
      | cons hqr hrest => exact .cons (hpq.trans hqr) (ih _ hrest)
  · have := congrArg (fun x : Transport => { x with paths := v.paths }) h.rest
    exact h'.rest.trans this

theorem find (h : t.SameMaps u) (id : PathID) :
    Option.Rel Lane.SameMaps (t.find id) (u.find id) :=
  Keyed.lookup_forall₂ (fun _ _ h => Lane.SameMaps.id h) h.lanes id

theorem setLane (h : t.SameMaps u) {p q : Lane} (hpq : p.SameMaps q) :
    (t.setLane p).SameMaps (u.setLane q) := by
  refine ⟨Keyed.replace_forall₂ (fun _ _ h => Lane.SameMaps.id h) h.lanes hpq, ?_⟩
  exact (congrArg (fun x : Transport => { x with
    paths := (u.setLane q).paths }) h.rest :)

theorem packets (h : t.SameMaps u) : u.packets = t.packets := by
  rw [h.rest]

theorem ackPacket (h : t.SameMaps u) (ref : PacketRef) :
    (t.ackPacket ref).SameMaps (u.ackPacket ref) := by
  refine ⟨h.lanes, ?_⟩
  exact (congrArg (fun x : Transport => x.ackPacket ref) h.rest :)

end SameMaps

end Transport

/-! ## The attempts of every lane -/

namespace Transport

/-- What a turn of the last pass does with an attempt whose packet is known to
have arrived. -/
def Confirmation.act (s : Confirmation) (now : Time) (k : ℕ) (sent : Attempt) :
    Confirmation :=
  let once := sent.once s.transport.packets
  { transport := sent.packet.elim s.transport s.transport.ackPacket
    lane := (s.lane.settle now (sent.dues s.transport.packets once
      false)).putAttempt k { sent with released := true, confirmed := true }
    feedback := if once then max s.feedback (now - sent.sent) else s.feedback }

structure Confirmation.SameMaps (s s' : Confirmation) : Prop where
  transport : s.transport.SameMaps s'.transport
  lane : s.lane.SameMaps s'.lane
  feedback : s'.feedback = s.feedback

section Confirm

variable {a : Acknowledgement} {now : Time}

theorem confirmTurn_eq_eachEntry :
    confirmTurn a now = eachEntry (fun s k => s.lane.attempts.lookup k)
      (fun s _ sent => s.transport.known a sent && !sent.confirmed)
      fun s k sent => s.act now k sent := by
  funext s k
  dsimp only [confirmTurn, eachEntry]
  cases s.lane.attempts.lookup k with
  | none => rfl
  | some sent =>
    dsimp only
    cases hpacket : sent.packet with
    | none => simp [known, hpacket]
    | some ref =>
      dsimp only
      have hbool : (s.transport.known a sent && !sent.confirmed) = true ↔
          s.transport.known a sent = true ∧ (!sent.confirmed) = true := by
        rw [Bool.and_eq_true]
      by_cases hchosen : s.transport.known a sent = true ∧
          (!sent.confirmed) = true
      · have hlane := Lane.release_eq_settle s.lane now s.transport.packets
          sent (sent.once s.transport.packets)
        have honce : sent.once s.transport.packets =
            decide ((s.transport.packets ref).attempts = 1) := by
          simp [Attempt.once, hpacket]
        rw [if_pos hchosen, if_pos (hbool.mpr hchosen)]
        unfold Confirmation.act
        simp only [honce, decide_eq_true_eq] at hlane ⊢
        rw [← hlane, hpacket]
        rfl
      · rw [if_neg hchosen, if_neg (mt hbool.mp hchosen)]

theorem Confirmation.SameMaps.refl (s : Confirmation) : s.SameMaps s :=
  ⟨.refl _, .refl _, rfl⟩

theorem Confirmation.SameMaps.trans {s s' s'' : Confirmation}
    (h : s.SameMaps s') (h' : s'.SameMaps s'') : s.SameMaps s'' :=
  ⟨h.transport.trans h'.transport, h.lane.trans h'.lane,
    h'.feedback.trans h.feedback⟩

theorem Confirmation.SameMaps.act {s s' : Confirmation} (h : s.SameMaps s')
    (k : ℕ) (sent : Attempt) : (s.act now k sent).SameMaps (s'.act now k sent) := by
  have hpackets := h.transport.packets
  refine ⟨?_, ?_, ?_⟩
  · dsimp only [Confirmation.act]
    cases sent.packet with
    | none => exact h.transport
    | some ref => exact h.transport.ackPacket ref
  · dsimp only [Confirmation.act]
    rw [hpackets]
    exact (h.lane.settle now _).putAttempt k _
  · dsimp only [Confirmation.act]
    rw [hpackets, h.feedback]

theorem alike_act (s : Confirmation) (k : ℕ) (sent : Attempt) :
    PacketHeap.Alike s.transport.packets (s.act now k sent).transport.packets := by
  dsimp only [Confirmation.act]
  cases sent.packet with
  | none => exact .refl _
  | some => exact .ackPacket _ _

theorem known_confirm {s : Confirmation} {sent : Attempt}
    (h : s.transport.known a sent = true) (k : ℕ) (sent' : Attempt) :
    (s.act now k sent).transport.known a sent' = s.transport.known a sent' := by
  dsimp only [Confirmation.act]
  cases hpacket : sent.packet with
  | none => rfl
  | some ref =>
    unfold known at h ⊢
    rw [hpacket] at h
    cases sent'.packet with
    | none => rfl
    | some ref' =>
      by_cases href : ref' = ref
      · subst href
        have h' : ((s.transport.packets ref').acked ||
          a.received (s.transport.packets ref').seq) = true := h
        simp [ackPacket, setPacket, h']
      · simp [ackPacket, setPacket, Function.update_of_ne href]

theorem Confirmation.act_act {s : Confirmation} (h : s.lane.Timed now)
    {j k : ℕ} (hjk : j ≠ k) {sent sent' : Attempt} (hsent : 0 ≤ sent.sent)
    (hsent' : 0 ≤ sent'.sent) :
    ((s.act now j sent).act now k sent').SameMaps
      ((s.act now k sent').act now j sent) := by
  have halike : PacketHeap.Alike s.transport.packets
      (s.act now j sent).transport.packets := alike_act s j sent
  have halike' : PacketHeap.Alike s.transport.packets
      (s.act now k sent').transport.packets := alike_act s k sent'
  dsimp only [Confirmation.act] at halike halike' ⊢
  rw [Attempt.once_alike halike, Attempt.once_alike halike',
    Attempt.dues_alike halike, Attempt.dues_alike halike']
  refine ⟨?_, ?_, ?_⟩
  · cases sent.packet with
    | none => exact .refl _
    | some ref =>
      cases sent'.packet with
      | none => exact .refl _
      | some ref' =>
        dsimp only [Option.elim_some]
        rw [ackPacket_comm]
        exact .refl _
  · have hput : ∀ (p : Lane) (d : Dues) (i : ℕ) (x : Attempt),
        (p.putAttempt i x).settle now d = (p.settle now d).putAttempt i x :=
      fun _ _ _ _ => rfl
    dsimp only
    rw [hput, hput, Lane.settle_settle h (d := sent.dues _ _ _) hsent hsent']
    exact .putAttempt_comm _ hjk _ _
  · dsimp only
    split_ifs <;> first | rfl | exact max_right_comm _ _ _

/-- The loop over the attempts of one lane in the last pass. -/
theorem unordered_confirmTurn (hnow : 0 ≤ now) (a : Acknowledgement) :
    Unordered (confirmTurn a now) (fun s => s.lane.Timed now)
      Confirmation.SameMaps := by
  rw [confirmTurn_eq_eachEntry]
  refine Separate.unordered ?_
  constructor
  case refl => exact .refl
  case trans => exact fun _ _ _ h h' => h.trans h'
  case keep =>
    intro s k sent htimed hk
    have hmade := htimed.attempts k sent hk
    exact Account.Timed.insert (Lane.timed_settle htimed hnow _) k
      ⟨hmade.start, hmade.stop, hmade.bytes⟩
  case lookup_congr => exact fun _ _ k h => (h.lane.attempts k).symm
  case chosen_congr =>
    intro s s' k sent h
    unfold known
    rw [h.transport.packets]
  case act_congr => exact fun _ _ k sent h => h.act k sent
  case lookup_act =>
    exact fun s j k sent hjk => AList.lookup_insert_ne (Ne.symm hjk)
  case chosen_act =>
    intro s j k sent sent' _ _ _ hchosen _
    rw [Bool.and_eq_true] at hchosen
    rw [known_confirm hchosen.1]
  case comm =>
    exact fun s j k sent sent' htimed hjk hj hk => Confirmation.act_act htimed hjk
      (htimed.attempts j sent hj).start (htimed.attempts k sent' hk).start

end Confirm

end Transport

/-! ## The estimators -/

namespace Lane.SameMaps

variable {p q : Lane} {now : Time} {a : Acknowledgement}

theorem lateBelow (h : p.SameMaps q) (heap : PacketHeap) (a : Acknowledgement)
    (highSent now : Time) :
    (p.lateBelow heap a highSent now).1.SameMaps
        (q.lateBelow heap a highSent now).1 ∧
      (q.lateBelow heap a highSent now).2 = (p.lateBelow heap a highSent now).2 := by
  have hentries : q.attempts.entries.Perm p.attempts.entries :=
    perm_entries_of_lookup h.attempts
  have hq : q.lateBelow heap a highSent now =
      (p.withAttempts q.attempts).lateBelow heap a highSent now :=
    congrArg (fun x : Lane => x.lateBelow heap a highSent now) h.rest
  refine ⟨⟨h.attempts, ?_⟩, ?_⟩
  · rw [hq]
    rfl
  rw [hq]
  dsimp only [Lane.lateBelow]
  refine hentries.foldl_eq' (fun x _ y _ late => ?_) 0
  split_ifs <;> omega

theorem recordLoss (h : p.SameMaps q) (heap : PacketHeap) (a : Acknowledgement)
    (now : Time) (high : Option Attempt) :
    (Transport.recordLoss heap p a now high).SameMaps
      (Transport.recordLoss heap q a now high) := by
  cases high with
  | none => exact h
  | some sent =>
    obtain ⟨hlane, hlate⟩ := h.lateBelow heap a sent.sent now
    refine ⟨hlane.attempts, ?_⟩
    have := congrArg (fun x : Lane => { x with
      losses := x.losses.record now a.high sent.through a.bytes
        (q.lateBelow heap a sent.sent now).2 }) hlane.rest
    rw [hlate] at this
    dsimp only [Transport.recordLoss]
    rw [hlate]
    exact this

theorem observeLoss (h : p.SameMaps q) (heap : PacketHeap) (a : Acknowledgement)
    (now : Time) (fresh : Bool) (high : Option Attempt) :
    (Transport.observeLoss heap p a now fresh high).SameMaps
      (Transport.observeLoss heap q a now fresh high) := by
  have hrecord := h.recordLoss heap a now high
  dsimp only [Transport.observeLoss]
  generalize Transport.recordLoss heap p a now high = p' at hrecord ⊢
  generalize Transport.recordLoss heap q a now high = q' at hrecord ⊢
  have hround : q'.roundEnd = p'.roundEnd := by
    rw [hrecord.rest]
    rfl
  rw [hround]
  split
  · refine ⟨hrecord.attempts, ?_⟩
    exact (congrArg (fun x : Lane => { x with
      roundEnd := x.seq + 1
      roundDone := true
      roundLossy := x.losses.material now }) hrecord.rest :)
  · exact hrecord

theorem heardLane (h : p.SameMaps q) (progressed : Bool) (silence : Duration)
    (s : Transport.Scan) :
    (Transport.heardLane p progressed silence s).SameMaps
      (Transport.heardLane q progressed silence s) := by
  refine ⟨?_, ?_⟩
  · dsimp only [Transport.heardLane]
    split <;> exact h.attempts
  have := congrArg (fun x : Lane => Transport.heardLane x progressed silence s)
    h.rest
  refine this.trans ?_
  dsimp only [Transport.heardLane]
  split <;> rfl

end Lane.SameMaps

namespace Transport

variable {t u : Transport} {p q : Lane} {a : Acknowledgement} {now : Time}
  {fresh : Bool}

theorem SameMaps.estimate (h : t.SameMaps u) (hpq : p.SameMaps q)
    (a : Acknowledgement) (now : Time) (fresh progressed backlogged : Bool)
    (silence : Duration) (s : Scan) :
    (t.estimate p a now fresh progressed backlogged silence s).SameMaps
      (u.estimate q a now fresh progressed backlogged silence s) := by
  have hheard := (hpq.heardLane progressed silence s).observeLoss t.packets a now
    fresh s.high
  have hpackets := h.packets
  have hlimited : u.laneLimited now = t.laneLimited now := by
    rw [h.rest]
    rfl
  have hdemand : u.demand = t.demand := by
    rw [h.rest]
  unfold Transport.estimate
  rw [hpackets, hlimited, hdemand]
  cases fresh with
  | false => exact h.setLane hheard
  | true =>
    have hfresh := h.setLane (Lane.SameMaps.aside
      (Lane.aside_observeFresh now s.sample a
        { backlogged := backlogged
          laneLimited := t.laneLimited now
          realtime := decide (t.demand.realtime.rate now > 0)
          stream := t.demand.realtime.steady now }) hheard)
    refine ⟨hfresh.lanes, ?_⟩
    exact (congrArg (fun x : Transport => { x with
      demand := { t.demand with realtime := t.demand.realtime.rotate now } })
      hfresh.rest :)

end Transport

end Wanbond.Bond
