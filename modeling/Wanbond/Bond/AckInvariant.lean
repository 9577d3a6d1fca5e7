import Wanbond.Bond.AckTurns
import Wanbond.Bond.ReceiveInvariant

/-!
# The invariant over acknowledgements received

`ack` marks packets as acknowledged and forgets attempts.  Every packet it
marks is one that the acknowledgement names, by the receipt bitmap or through a
frame whose arrival it shows.  The loops are followed one turn at a time:
`Outbound.Marked` is what they do to the packets, `LaneWire.Trimmed` what they
do to a lane.
-/

namespace Wanbond.Bond

open Wanbond.Support

variable {datagrams : List (Bytes × PacketMetadata)}

/-! ## Marked packets -/

/-- Packets that satisfy `Q` may be marked as acknowledged, and packets may
leave `pending`; nothing else changes. -/
structure Outbound.Marked (o o' : Outbound) (Q : PacketRef → Prop) : Prop where
  rest : { o' with packets := o.packets, pending := o.pending } = o
  packets : ∀ ref, (o.packets ref).Kept (o'.packets ref)
  acked : ∀ ref, (o'.packets ref).acked = true →
    (o.packets ref).acked = true ∨ Q ref
  pending : ∀ q ref, o'.pending.lookup q = some ref →
    o.pending.lookup q = some ref

theorem Packet.Kept.refl (p : Packet) : p.Kept p := ⟨rfl, rfl, rfl, rfl, rfl⟩

theorem Packet.Kept.trans {p₁ p₂ p₃ : Packet} (h : p₁.Kept p₂)
    (h' : p₂.Kept p₃) : p₁.Kept p₃ :=
  ⟨h'.payload.trans h.payload, h'.cls.trans h.cls,
    h'.interactive.trans h.interactive, h'.seq.trans h.seq,
    h'.order.trans h.order⟩

namespace Outbound.Marked

variable {o o₁ o₂ : Outbound} {Q : PacketRef → Prop}

theorem refl (o : Outbound) (Q : PacketRef → Prop) : o.Marked o Q :=
  ⟨rfl, fun _ => .refl _, fun _ h => Or.inl h, fun _ _ h => h⟩

theorem trans (h : o.Marked o₁ Q) (h' : o₁.Marked o₂ Q) : o.Marked o₂ Q := by
  constructor
  · have : { o₂ with packets := o.packets, pending := o.pending } =
        { ({ o₂ with packets := o₁.packets, pending := o₁.pending } :
          Outbound) with packets := o.packets, pending := o.pending } := rfl
    rw [this, h'.rest]
    exact h.rest
  · exact fun ref => (h.packets ref).trans (h'.packets ref)
  · intro ref hack
    rcases h'.acked ref hack with hack | hQ
    · exact h.acked ref hack
    · exact Or.inr hQ
  · exact fun q ref hq => h.pending q ref (h'.pending q ref hq)

theorem ackPacket {ref : PacketRef}
    (h : (o.packets ref).acked = true ∨ Q ref) :
    o.Marked { o with
      packets := Function.update o.packets ref
        { o.packets ref with acked := true } } Q := by
  refine ⟨rfl, ?_, ?_, fun _ _ h => h⟩
  · intro r
    by_cases hr : r = ref
    · subst hr
      simp only [Function.update_self]
      exact ⟨rfl, rfl, rfl, rfl, rfl⟩
    · simp only [Function.update_of_ne hr]
      exact .refl _
  intro r hack
  by_cases hr : r = ref
  · subst hr
    exact h
  · simp only [Function.update_of_ne hr] at hack
    exact Or.inl hack

theorem erasePending (o : Outbound) (Q : PacketRef → Prop) (q : ℕ) :
    o.Marked { o with pending := o.pending.erase q } Q := by
  refine ⟨rfl, fun _ => .refl _, fun _ h => Or.inl h, ?_⟩
  intro q' ref hq'
  by_cases hq : q' = q
  · subst hq
    simp only [AList.lookup_erase, reduceCtorEq] at hq'
  · simpa only [AList.lookup_erase_ne hq] using hq'

theorem settlePacket {T : Transport} (h : o.Marked T.toOutbound Q)
    {packet : Option PacketRef} (hq : ∀ ref, packet = some ref → Q ref) :
    o.Marked (T.settlePacket packet).toOutbound Q := by
  cases packet with
  | none => exact h
  | some ref =>
    exact (h.trans (.ackPacket (Or.inr (hq ref rfl)))).trans (.erasePending _ _ _)

end Outbound.Marked

/-- A packet of this history that some processed acknowledgement names. -/
def Justified (s : Stint) (ref : PacketRef) : Prop :=
  ∃ st ∈ s.stamps, st.ref = ref ∧ Named s st.seq

variable {s : Stint}

/-- Marking justified packets keeps the invariant of the packets. -/
theorem OutboundOk.marked {o o' : Outbound} {W : Multiset PacketRef}
    (h : OutboundOk o W s.stamps datagrams) (hs : StampsOk s.stamps)
    (hm : o.Marked o' (Justified s)) : OutboundOk o' W s.stamps datagrams := by
  have hrest : OutboundOk
      { o' with packets := o.packets, pending := o.pending } W s.stamps
      datagrams := by
    rwa [hm.rest]
  refine { hrest with
    holds := fun ref d hd => (h.holds ref d hd).kept (hm.packets ref)
    stamped := fun st hst => (h.stamped st hst).kept (hm.packets st.ref)
    pending := fun q ref hq => h.pending q ref (hm.pending q ref hq)
    fresh := ?_ }
  intro ref href
  obtain ⟨halloc, hseq, hack⟩ := hrest.fresh ref href
  refine ⟨halloc, (hm.packets ref).seq.trans hseq, ?_⟩
  rw [Bool.eq_false_iff]
  intro hack'
  rcases hm.acked ref hack' with hack' | ⟨st, hst, rfl, -⟩
  · have hack : (o.packets ref).acked = false := hack
    rw [hack] at hack'
    cases hack'
  · exact h.notMem_waiting hs hst href

/-! ## The acknowledgement in progress -/

/-- What holds while the acknowledgement `a` of the lane `id` is processed: it
is already in the history, and the attempts are those of the history. -/
structure Processing (t : Transport) (s : Stint) (id : PathID) (revision : ℕ)
    (a : Acknowledgement) : Prop where
  outbound : ∃ W D, OutboundOk t.toOutbound W s.stamps D
  processed : (revision, a) ∈ processedOn id s.log
  high : a.high ≤ (sentOn id s.log).length
  attempts : ∀ id' w, t.wire id' = some w → ∀ k sent,
    w.attempts.lookup k = some sent →
      AttemptOk s.stamps (sentOn id' s.log) (s.base id') k sent

section Processing

variable {t : Transport} {s : Stint} {id : PathID} {revision : ℕ}
  {a : Acknowledgement}

theorem Processing.named_received (h : Processing t s id revision a) {q : ℕ}
    (hq : a.received q = true) : Named s q :=
  ⟨s.log, List.suffix_refl _, id, revision, a, h.processed, Or.inl hq⟩

variable {ref : PacketRef}

theorem Processing.justified_pending (h : Processing t s id revision a) {q : ℕ}
    (hpending : t.pending.lookup q = some ref) (hq : a.received q = true) :
    Justified s ref := by
  obtain ⟨W, D, hout⟩ := h.outbound
  obtain ⟨st, hst, href, hseq⟩ := hout.pending q ref hpending
  exact ⟨st, hst, href, h.named_received (hseq.symm ▸ hq)⟩

theorem Processing.justified_known (h : Processing t s id revision a)
    {id' : PathID} {w : LaneWire} (hw : t.wire id' = some w) {k : ℕ}
    {sent : Attempt} (hk : w.attempts.lookup k = some sent)
    (hpacket : sent.packet = some ref)
    (hq : a.received (t.packets ref).seq = true) : Justified s ref := by
  obtain ⟨W, D, hout⟩ := h.outbound
  obtain ⟨d, -, -, -, hcarries⟩ := h.attempts id' w hw k sent hk
  rw [hpacket] at hcarries
  obtain ⟨st, hst, rfl, -⟩ := hcarries
  rw [(hout.stamped st hst).seq] at hq
  exact ⟨st, hst, rfl, h.named_received hq⟩

theorem Processing.justified_arrival (h : Processing t s id revision a)
    {w : LaneWire} (hw : t.wire id = some w) {k : ℕ} {sent : Attempt}
    (hk : w.attempts.lookup k = some sent) (hpacket : sent.packet = some ref)
    (harrival : ShowsArrival (s.base id) (sentOn id s.log)
      (processedOn id s.log) a k) : Justified s ref := by
  obtain ⟨d, hd, -, -, hcarries⟩ := h.attempts id w hw k sent hk
  rw [hpacket] at hcarries
  obtain ⟨st, hst, href, hseq⟩ := hcarries
  refine ⟨st, hst, href, s.log, List.suffix_refl _, id, revision, a,
    h.processed, Or.inr ⟨k, d, hd, hseq.symm, harrival⟩⟩

end Processing

/-! ## The loops -/

/-- What the loops have made of the transport `U` and of a lane that was `w`:
packets of `t` are marked, and the attempts of the lane trimmed. -/
structure LoopOk (t U : Transport) (s : Stint) (w : LaneWire) (T : Transport)
    (p : Lane) : Prop where
  outbound : t.toOutbound.Marked T.toOutbound (Justified s)
  rest : U.SamePeripherals T
  lane : w.Trimmed p.toLaneWire

variable {w : LaneWire}

theorem LaneWire.Trimmed.forget {c : LaneCore} (h : w.Trimmed c.toLaneWire)
    (k : ℕ) : w.Trimmed (c.forget k).toLaneWire :=
  h.trans (.erase c.toLaneWire k)

section Loops

variable {t U T : Transport} {s : Stint} {id : PathID} {revision : ℕ}
  {a : Acknowledgement} {w w₀ : LaneWire} {fresh : Bool} {p : Lane}

/-- A turn of a loop over a lane of `t`. -/
theorem LoopOk.turn {shown : ℕ → Prop} (h : LoopOk t U s w T p)
    (hp : Processing t s id revision a) {j : PathID} (hw : t.wire j = some w₀)
    (hattempts : w.attempts = w₀.attempts)
    (hshown : ∀ k sent ref, w₀.attempts.lookup k = some sent → shown k →
      sent.packet = some ref → Justified s ref) {T' : Transport} {p' : Lane}
    (hturn : AckTurn a shown (T, p) (T', p')) : LoopOk t U s w T' p' := by
  have hrest := h.rest.trans (AckTurns.same (.single hturn))
  have hout := h.outbound
  have hclear : ∀ sent, w.Trimmed
      (p.toLaneCore.clear T.packets sent).toLaneWire := by
    intro sent
    rw [LaneCore.clear_toLaneWire]
    exact h.lane
  cases hturn with
  | idle hcore =>
    refine ⟨hout, hrest, ?_⟩
    rw [hcore]
    exact h.lane
  | receipt href hq =>
    have hjust := hp.justified_pending (hout.pending _ _ href) hq
    exact ⟨(hout.trans (.ackPacket (Or.inr hjust))).trans (.erasePending _ _ _),
      hrest, h.lane⟩
  | @confirm _ _ _ k sent hk hs hcore =>
    obtain ⟨sent₀, hsent₀, hsame⟩ := h.lane.attempts k sent hk
    refine ⟨hout.settlePacket fun ref href => ?_, hrest, ?_⟩
    · exact hshown k sent₀ ref (hattempts ▸ hsent₀) hs (hsame.packet ▸ href)
    · rw [hcore]
      exact (hclear sent).forget k
  | @forget _ _ _ k sent hk hcore =>
    refine ⟨hout, hrest, ?_⟩
    rw [hcore]
    exact (hclear sent).forget k
  | @mark _ _ _ k sent ref hk hpacket hknown hcore =>
    obtain ⟨sent₀, hsent₀, hsame⟩ := h.lane.attempts k sent hk
    have hmark : (T.packets ref).acked = true ∨ Justified s ref := by
      refine hknown.imp_right fun hr => ?_
      rw [(hout.packets ref).seq] at hr
      exact hp.justified_known hw (hattempts ▸ hsent₀) (hsame.packet ▸ hpacket) hr
    refine ⟨hout.trans (.ackPacket hmark), hrest, ?_⟩
    rw [hcore]
    have hlookup : (p.toLaneCore.clear T.packets sent).toLaneWire.attempts.lookup
        k = some sent := by
      rwa [LaneCore.clear_toLaneWire]
    exact (hclear sent).trans (.insert hlookup ⟨rfl, rfl, rfl, rfl⟩)

theorem LoopOk.turns {shown : ℕ → Prop} {r : Transport × Lane}
    (h : LoopOk t U s w T p) (hp : Processing t s id revision a) {j : PathID}
    (hw : t.wire j = some w₀) (hattempts : w.attempts = w₀.attempts)
    (hshown : ∀ k sent ref, w₀.attempts.lookup k = some sent → shown k →
      sent.packet = some ref → Justified s ref)
    (hturns : AckTurns a shown (T, p) r) : LoopOk t U s w r.1 r.2 :=
  hturns.keeps (fun hturn h => h.turn hp hw hattempts hshown hturn) h

/-- The loop over the acknowledged lane's attempts, and the acknowledged attempt
that it has found. -/
structure ScanOk (t : Transport) (s : Stint) (a : Acknowledgement)
    (fresh : Bool) (w : LaneWire) (scan : Transport.Scan) : Prop where
  loop : LoopOk t t s w scan.transport scan.lane
  high : ∀ sent, scan.high = some sent →
    fresh = true ∧ w.attempts.lookup a.high = some sent

theorem Processing.scan (hp : Processing t s id revision a)
    (hw : t.wire id = some w₀) (hattempts : p.attempts = w₀.attempts)
    (now : Time) (fresh : Bool) (order : MapOrder) :
    ScanOk t s a fresh p.toLaneWire (t.scan p a now fresh order) := by
  have hstart : LoopOk t t s p.toLaneWire t p := ⟨.refl _ _, .refl _, .refl _⟩
  refine ⟨hstart.turns hp hw hattempts ?_
    (Transport.turns_scan a now fresh t p order),
    (Transport.found_scan a now fresh t p order).high⟩
  exact fun k sent ref hk hbit href =>
    hp.justified_arrival hw hk href (Or.inl hbit)

end Loops

/-! ## What the lane remembers -/

/-- The sent bytes that the lane remembers for its highest acknowledged
sequence: as before, or those of the attempt found under `a.high`. -/
def Remembered (w : LaneWire) (a : Acknowledgement) (fresh : Bool) (x : ℕ) :
    Prop :=
  x = w.receivedThrough ∨ fresh = true ∧ ∃ sent,
    w.attempts.lookup a.high = some sent ∧ x = sent.through

/-- The lane once the acknowledgement has been processed, its attempts aside. -/
def LaneWire.acknowledged (w : LaneWire) (revision : ℕ) (a : Acknowledgement)
    (fresh : Bool) (x : ℕ) : LaneWire :=
  { w with
    ackReceipts := (w.ackReceipts.mark revision).2
    ackRevision := if fresh then revision else w.ackRevision
    receivedHigh := max w.receivedHigh a.high
    receivedThrough := x
    ackedBytes := if fresh then a.bytes else w.ackedBytes
    ackedElapsed := if fresh then a.elapsed else w.ackedElapsed }

/-- The lane as the acknowledgement's progress leaves it. -/
def LaneWire.progressed (w : LaneWire) (revision : ℕ) (a : Acknowledgement)
    (fresh : Bool) : LaneWire :=
  { w with
    ackReceipts := (w.ackReceipts.mark revision).2
    ackRevision := if fresh then revision else w.ackRevision
    receivedHigh := max w.receivedHigh a.high
    receivedThrough := if a.high > w.receivedHigh then 0
      else w.receivedThrough }

section Remember

variable {w : LaneWire} {stamps : List Stamp} {sent : List (ℕ × DataFields)}
  {processed : List (ℕ × Acknowledgement)} {base revision : ℕ}
  {a : Acknowledgement} {fresh : Bool} {x : ℕ}

theorem MonotoneAcks.tail {e : ℕ × Acknowledgement}
    (h : MonotoneAcks (e :: processed)) : MonotoneAcks processed :=
  fun e₁ h₁ e₂ h₂ => h e₁ (List.mem_cons_of_mem _ h₁) e₂
    (List.mem_cons_of_mem _ h₂)

theorem LaneOk.receivedHigh_le_high
    (h : LaneOk w stamps sent processed base)
    (hmono : MonotoneAcks ((revision, a) :: processed))
    (hfresh : w.ackRevision < revision) : w.receivedHigh ≤ a.high := by
  rcases h.receivedHigh.2 with hzero | ⟨e, he, heq⟩
  · omega
  have hle : e.1 ≤ w.ackReceipts.high := h.revisions.le_high e.1 ⟨e.2, he⟩
  have hrev := h.revision
  have := hmono e (List.mem_cons_of_mem _ he) (revision, a)
    List.mem_cons_self (by dsimp only; omega)
  simpa [heq] using this

/-- The remembered bytes are those sent through the highest acknowledged
sequence. -/
theorem LaneOk.through_of_remembered (h : LaneOk w stamps sent processed base)
    (hfresh : fresh = decide (revision > w.ackRevision))
    (hx : Remembered (w.progressed revision a fresh) a fresh x)
    (hmono : MonotoneAcks ((revision, a) :: processed)) (hne : x ≠ 0) :
    x = base +
      through DataFields.wireBytes (max w.receivedHigh a.high) sent := by
  rcases hx with hx | ⟨hf, att, hatt, hx⟩
  · simp only [LaneWire.progressed] at hx
    split at hx
    · exact absurd hx hne
    next hle =>
      rw [max_eq_left (not_lt.mp hle), hx]
      exact h.receivedThrough hmono.tail (hx ▸ hne)
  rw [hf] at hfresh
  have hle := h.receivedHigh_le_high hmono (by simpa using hfresh.symm)
  obtain ⟨d, -, -, hthrough, -⟩ := h.attempts a.high att hatt
  rw [max_eq_right hle, hx, hthrough]

/-- The lane's invariant after an acknowledgement. -/
theorem LaneOk.acknowledged (h : LaneOk w stamps sent processed base)
    (hfresh : fresh = decide (revision > w.ackRevision))
    (hmark : (w.ackReceipts.mark revision).1 = true) (hhigh : a.high ≤ w.seq)
    (hx : Remembered (w.progressed revision a fresh) a fresh x) :
    LaneOk (w.acknowledged revision a fresh x) stamps sent
      ((revision, a) :: processed) base := by
  have hrev := h.revision
  constructor
  · exact h.seq
  · exact h.total
  · exact h.attempts
  · rw [numbers_cons]
    exact h.revisions.mark hmark
  · simp only [LaneWire.acknowledged, ReceiptWindow.mark_high]
    cases fresh with
    | true =>
      have : revision > w.ackRevision := by simpa using hfresh.symm
      simp only [if_true]
      omega
    | false =>
      have : ¬revision > w.ackRevision := by simpa using hfresh.symm
      simp only [Bool.false_eq_true, if_false]
      omega
  · cases fresh with
    | true =>
      exact Or.inr ⟨a, List.mem_cons_self, rfl, rfl⟩
    | false =>
      rcases h.newest with hzero | ⟨b, hb, hbytes, helapsed⟩
      · exact Or.inl hzero
      · exact Or.inr ⟨b, List.mem_cons_of_mem _ hb, hbytes, helapsed⟩
  · constructor
    · rintro n ⟨e, he, rfl⟩
      simp only [LaneWire.acknowledged]
      rcases List.mem_cons.mp he with rfl | he
      · exact le_max_right _ _
      · exact (h.receivedHigh.1 _ ⟨e, he, rfl⟩).trans (le_max_left _ _)
    · simp only [LaneWire.acknowledged]
      rcases le_total w.receivedHigh a.high with hle | hle
      · rw [max_eq_right hle]
        exact Or.inr ⟨(revision, a), List.mem_cons_self, rfl⟩
      rw [max_eq_left hle]
      refine h.receivedHigh.2.imp_right ?_
      rintro ⟨e, he, heq⟩
      exact ⟨e, List.mem_cons_of_mem _ he, heq⟩
  · exact max_le h.receivedHigh_le hhigh
  · exact h.through_of_remembered hfresh hx

end Remember

/-! ## The complete prefix -/

section Prefix

variable {t : Transport} {s : Stint} {id : PathID} {revision : ℕ}
  {a : Acknowledgement} {w : LaneWire} {fresh : Bool}

theorem LaneWire.Trimmed.through {w w' : LaneWire} (h : w.Trimmed w') (x : ℕ) :
    LaneWire.Trimmed { w with receivedThrough := x }
      { w' with receivedThrough := x } := by
  refine ⟨?_, h.attempts⟩
  have := congrArg (fun v : LaneWire => { v with receivedThrough := x }) h.rest
  exact this

variable {scan : Transport.Scan}

theorem ScanOk.rememberThrough (h : ScanOk t s a fresh w scan) :
    ∃ x, Remembered w a fresh x ∧
      LaneWire.Trimmed { w with receivedThrough := x }
        (Transport.rememberThrough scan).toLaneWire := by
  unfold Transport.rememberThrough
  split
  next =>
    refine ⟨w.receivedThrough, Or.inl rfl, ?_⟩
    exact h.loop.lane
  next sent hsent =>
    obtain ⟨hfresh, hsent⟩ := h.high sent hsent
    exact ⟨sent.through, Or.inr ⟨hfresh, sent, hsent, rfl⟩,
      h.loop.lane.through sent.through⟩

/-- Where the complete-prefix rule applies, every attempt it covers is shown to
have arrived. -/
theorem ScanOk.showsArrival (h : ScanOk t s a fresh w scan)
    (hp : Processing t s id revision a)
    (hthrough : ∀ x, Remembered w a fresh x →
      MonotoneAcks (processedOn id s.log) → x ≠ 0 → x = s.base id +
        through DataFields.wireBytes w.receivedHigh (sentOn id s.log))
    (hc : Transport.PrefixComplete scan a fresh) {k : ℕ} (hk : k ≤ a.high) :
    ShowsArrival (s.base id) (sentOn id s.log) (processedOn id s.log) a k := by
  obtain ⟨x, hx, htrim⟩ := h.rememberThrough
  have hrecv : (Transport.rememberThrough scan).receivedThrough = x :=
    (congrArg LaneWire.receivedThrough htrim.rest).trans rfl
  have hhigh : (Transport.rememberThrough scan).receivedHigh =
      w.receivedHigh := (congrArg LaneWire.receivedHigh htrim.rest).trans rfl
  have hpos := hc.known
  have hbytes := hc.bytes
  rw [hrecv] at hpos hbytes
  refine Or.inr ⟨hk, hp.high, fun hmono => ?_⟩
  rw [hc.high, hhigh, ← hbytes]
  exact hthrough x hx hmono (by omega)

/-- The complete-prefix rule. -/
theorem ScanOk.settlePrefix (h : ScanOk t s a fresh w scan)
    (hp : Processing t s id revision a) {w₀ : LaneWire}
    (hw : t.wire id = some w₀) (hattempts : w.attempts = w₀.attempts)
    (hthrough : ∀ x, Remembered w a fresh x →
      MonotoneAcks (processedOn id s.log) → x ≠ 0 → x = s.base id +
        through DataFields.wireBytes w.receivedHigh (sentOn id s.log))
    (order : MapOrder) :
    ∃ x, Remembered w a fresh x ∧ LoopOk t t s { w with receivedThrough := x }
      (Transport.settlePrefix scan a fresh order).1
      (Transport.settlePrefix scan a fresh order).2 := by
  obtain ⟨x, hx, htrim⟩ := h.rememberThrough
  have hstart : LoopOk t t s { w with receivedThrough := x } scan.transport
      (Transport.rememberThrough scan) :=
    ⟨h.loop.outbound, h.loop.rest, htrim⟩
  rcases Transport.settlePrefix_spec a fresh scan order with ⟨hc, heq⟩ | ⟨-, heq⟩
  · rw [heq]
    refine ⟨x, hx, hstart.turns hp hw hattempts ?_
      (Transport.turns_arrivedTurns a _ _)⟩
    exact fun k sent ref hk hle href =>
      hp.justified_arrival hw hk href (h.showsArrival hp hthrough hc hle)
  rw [heq]
  cases fresh with
  | true => exact ⟨x, hx, hstart⟩
  | false => exact ⟨w.receivedThrough, Or.inl rfl, h.loop⟩

end Prefix

/-! ## The attempts of every lane -/

/-- Every lane has lost attempts at most. -/
structure TrimmedLanes (wires wires' : PathID → Option LaneWire) : Prop where
  unknown : ∀ id, wires' id = none → wires id = none
  lane : ∀ id w', wires' id = some w' → ∃ w, wires id = some w ∧ w.Trimmed w'

theorem TrimmedLanes.refl (wires : PathID → Option LaneWire) :
    TrimmedLanes wires wires :=
  ⟨fun _ h => h, fun _ w h => ⟨w, h, .refl w⟩⟩

theorem TrimmedLanes.write {wires wires' : PathID → Option LaneWire}
    (h : TrimmedLanes wires wires') {w w' : LaneWire} (ht : w.Trimmed w')
    (id : PathID) :
    TrimmedLanes (Function.update wires id (some w))
      (Function.update wires' id (some w')) := by
  constructor
  · intro j hj
    by_cases hid : j = id
    · subst hid
      simp at hj
    · rw [Function.update_of_ne hid] at hj ⊢
      exact h.unknown j hj
  intro j v hv
  by_cases hid : j = id
  · subst hid
    rw [Function.update_self, Option.some.injEq] at hv
    exact ⟨w, Function.update_self _ _ _, hv ▸ ht⟩
  · rw [Function.update_of_ne hid] at hv ⊢
    exact h.lane j v hv

theorem LanesOk.trimmedLanes {wires wires' : PathID → Option LaneWire}
    {stamps : List Stamp} {log : List Entry} {base : PathID → ℕ}
    (h : LanesOk wires stamps log base) (ht : TrimmedLanes wires wires') :
    LanesOk wires' stamps log base := by
  constructor
  · intro id w' hw'
    obtain ⟨w, hw, htrim⟩ := ht.lane id w' hw'
    exact (h.lane id w hw).trimmed htrim
  · exact fun id hid => h.unknown id (ht.unknown id hid)

/-- The last pass of `ack`: packets are marked and lanes trimmed. -/
structure Transport.Confirms (t : Transport) (s : Stint)
    (wires : PathID → Option LaneWire) (U : Transport) : Prop where
  outbound : t.toOutbound.Marked U.toOutbound (Justified s)
  rest : { U with
    toOutbound := t.toOutbound
    paths := t.paths
    demand := t.demand } = t
  ids : (U.paths.map fun p => p.id) = t.paths.map fun p => p.id
  lanes : TrimmedLanes wires U.wire

theorem LoopOk.setLane {t U T : Transport} {p q : Lane} {id : PathID}
    (h : LoopOk t U s w T q) (hfind : U.find id = some p) (hid : w.id = id) :
    (T.setLane q).wire = Function.update U.wire id (some q.toLaneWire) ∧
      ((T.setLane q).paths.map fun p => p.id) =
        U.paths.map fun p => p.id := by
  have hqid : q.id = id :=
    ((congrArg LaneWire.id h.lane.rest).trans rfl).trans hid
  have hwire : T.wire = U.wire := by
    exact (congrArg Transport.wire h.rest :)
  have hfind' : T.find q.id = some p := by
    unfold Transport.find at hfind ⊢
    rwa [h.rest.paths, hqid]
  rw [Transport.wire_setLane hfind', Transport.setLane_ids, hwire, hqid,
    h.rest.paths]
  exact ⟨rfl, rfl⟩

theorem LoopOk.confirms {t U : Transport} {p q : Lane} (h : LoopOk t t s w U q)
    (hfind : t.find p.id = some p) (hid : w.id = p.id) :
    t.Confirms s (Function.update t.wire p.id (some w)) (U.setLane q) := by
  obtain ⟨hwire, hids⟩ := h.setLane hfind hid
  refine ⟨h.outbound, ?_, hids, ?_⟩
  · exact (congrArg (fun x : Transport => { x with
      paths := t.paths
      demand := t.demand }) h.rest :)
  · rw [hwire]
    exact (TrimmedLanes.refl _).write h.lane p.id

section Confirm

variable {t U : Transport} {s : Stint} {id : PathID} {revision : ℕ}
  {a : Acknowledgement} {wires : PathID → Option LaneWire}

/-- The pass over one lane. -/
theorem Transport.Confirms.confirmLane (h : t.Confirms s wires U)
    (hp : Processing t s id revision a)
    (hwires : ∀ j w, wires j = some w →
      ∃ w₀, t.wire j = some w₀ ∧ w.attempts = w₀.attempts)
    (now : Time) (order : MapOrder) (acknowledged : PathID)
    (feedback : Duration) (j : PathID) :
    t.Confirms s wires
      (Transport.confirmLane a now order acknowledged feedback U j) := by
  unfold Transport.confirmLane
  split
  · exact h
  next path hpath =>
    obtain ⟨w, hw, htrim⟩ := h.lanes.lane j path.toLaneWire
      (Transport.wire_eq_some hpath)
    obtain ⟨w₀, hw₀, hattempts⟩ := hwires j w hw
    have hid : w.id = j :=
      (congrArg LaneWire.id htrim.rest).symm.trans (Transport.id_of_find hpath)
    dsimp only
    generalize order.keys .confirm j path.attempts.keys = keys
    generalize (if j = acknowledged then feedback else 0) = feedback'
    have hstart : LoopOk t U s w U path := ⟨h.outbound, .refl _, htrim⟩
    have hrun := hstart.turns hp hw₀ hattempts (fun _ _ _ _ hnone => hnone.elim)
      (Transport.turns_confirmTurns a now keys ⟨U, path, feedback'⟩)
    generalize keys.foldl (Transport.confirmTurn a now) ⟨U, path, feedback'⟩ = c
      at hrun
    have hrun' : LoopOk t U s w c.transport
        (c.lane.observeFeedbackRTT c.feedback) := by
      refine ⟨hrun.outbound, hrun.rest, ?_⟩
      rw [Lane.observeFeedbackRTT_toLaneCore]
      exact hrun.lane
    obtain ⟨hwire, hids⟩ := hrun'.setLane hpath hid
    refine ⟨hrun.outbound, ?_, hids.trans h.ids, ?_⟩
    · have := congrArg (fun x : Transport => { x with
        toOutbound := t.toOutbound
        paths := t.paths
        demand := t.demand }) hrun.rest
      exact this.trans h.rest
    have hself : Function.update wires j (some w) = wires :=
      Function.update_eq_self_iff.mpr hw.symm
    rw [hwire, ← hself]
    exact h.lanes.write hrun'.lane j

theorem Transport.Confirms.confirmLanes (h : t.Confirms s wires U)
    (hp : Processing t s id revision a)
    (hwires : ∀ j w, wires j = some w →
      ∃ w₀, t.wire j = some w₀ ∧ w.attempts = w₀.attempts)
    (now : Time) (order : MapOrder) (acknowledged : PathID)
    (feedback : Duration) (ids : List PathID) :
    t.Confirms s wires
      (ids.foldl (Transport.confirmLane a now order acknowledged feedback) U) :=
  List.foldlRecOn ids _ h fun _ h j _ =>
    h.confirmLane hp hwires now order acknowledged feedback j

end Confirm

/-! ## `ack` -/

/-- The totals that a fresh acknowledgement leaves on a lane. -/
def LaneWire.totals (w : LaneWire) (a : Acknowledgement) (fresh : Bool) :
    LaneWire :=
  { w with
    ackedBytes := if fresh then a.bytes else w.ackedBytes
    ackedElapsed := if fresh then a.elapsed else w.ackedElapsed }

theorem LaneWire.Trimmed.totals {w w' : LaneWire} (h : w.Trimmed w')
    (a : Acknowledgement) (fresh : Bool) :
    (w.totals a fresh).Trimmed (w'.totals a fresh) := by
  refine ⟨?_, h.attempts⟩
  exact (congrArg (fun v : LaneWire => v.totals a fresh) h.rest :)

/-- The estimators write the lane back with its totals. -/
theorem Transport.estimate_eq (t : Transport) (p : Lane) (a : Acknowledgement)
    (now : Time) (fresh progressed backlogged : Bool) (silence : Duration)
    (scan : Scan) :
    ∃ q demand, t.estimate p a now fresh progressed backlogged silence scan =
        { t.setLane q with demand := demand } ∧
      q.toLaneCore = { p.toLaneCore with
        toLaneWire := p.toLaneWire.totals a fresh } := by
  have hstall : ∀ (c : Prop) [Decidable c] (q : Lane),
      (if c then q.stallEnded silence else q).toLaneCore = q.toLaneCore :=
    fun c _ q => Lane.map_ite (Lane.stallEnded_toLaneCore q silence) rfl
  cases fresh with
  | false =>
    refine ⟨_, t.demand, rfl, ?_⟩
    rw [observeLoss_toLaneCore, hstall]
    rfl
  | true =>
    refine ⟨_, _, rfl, ?_⟩
    rw [observeFresh_toLaneCore, observeLoss_toLaneCore, hstall]
    rfl

/-- The estimators write the totals on the acknowledged lane. -/
theorem Transport.Confirms.estimate {t U : Transport}
    {wires : PathID → Option LaneWire} {id : PathID} {q : Lane}
    (h : t.Confirms s (Function.update wires id (some w)) U)
    (hfind : U.find id = some q) (a : Acknowledgement) (now : Time)
    (fresh progressed backlogged : Bool) (silence : Duration)
    (scan : Transport.Scan) :
    t.Confirms s (Function.update wires id (some (w.totals a fresh)))
      (U.estimate q a now fresh progressed backlogged silence scan) := by
  obtain ⟨q', demand, heq, hcore⟩ := Transport.estimate_eq U q a now fresh
    progressed backlogged silence scan
  have hq' : q'.toLaneWire = q.toLaneWire.totals a fresh :=
    congrArg LaneCore.toLaneWire hcore
  have hid := Transport.id_of_find hfind
  have hid' : q'.id = id := by
    have := congrArg LaneWire.id hq'
    exact this.trans hid
  obtain ⟨w₀, hw₀, htrim⟩ := h.lanes.lane id _ (Transport.wire_eq_some hfind)
  rw [Function.update_self, Option.some.injEq] at hw₀
  subst hw₀
  rw [heq]
  refine ⟨h.outbound, ?_, (Transport.setLane_ids U q').trans h.ids, ?_⟩
  · exact (h.rest :)
  show TrimmedLanes _ (U.setLane q').wire
  have hwrite := h.lanes.write (htrim.totals a fresh) id
  rw [Function.update_idem] at hwrite
  rwa [Transport.wire_setLane (hid' ▸ hfind), hid', hq']

section Ack

variable {t : Transport} {s : Stint} {p : Lane} {revision : ℕ}
  {a : Acknowledgement}

/-- The history once the acknowledgement is in it. -/
def Stint.process (s : Stint) (peer : Epoch) (id : PathID) (revision : ℕ)
    (a : Acknowledgement) : Stint :=
  s.push (.received id ⟨revision, .ack ⟨peer, id⟩ (some a)⟩ false (.ok []))

theorem StateOk.processing (h : StateOk t s datagrams)
    (hfind : t.find p.id = some p) (hhigh : a.high ≤ p.seq) (revision : ℕ) :
    Processing t (s.process t.remote p.id revision a) p.id revision a := by
  have hlane := h.lanes.lane p.id p.toLaneWire (Transport.wire_eq_some hfind)
  refine ⟨⟨_, _, h.outbound⟩, ?_, hhigh.trans_eq hlane.seq, ?_⟩
  · simp only [Stint.process, Stint.push, processedOn_ack, if_true]
    exact List.mem_cons_self
  · intro id' w hw k sent hk
    exact (h.lanes.lane id' w hw).attempts k sent hk

theorem Transport.noteRevision_toLaneWire (p : Lane) (revision : ℕ)
    (a : Acknowledgement) (now : Time) (progressed : Bool) :
    (noteProgress (noteRevision p revision) a now progressed).toLaneWire =
      p.toLaneWire.progressed revision a (isFresh p revision) := by
  rw [noteProgress_toLaneCore]
  rfl

/-- The scan of the lane's attempts, and what the lane may remember after
it. -/
theorem StateOk.scanOk (h : StateOk t s datagrams)
    (hfind : t.find p.id = some p) (hhigh : a.high ≤ p.seq) (revision : ℕ)
    (now : Time) (progressed : Bool) (order : MapOrder) :
    let fresh := Transport.isFresh p revision
    let w := p.toLaneWire.progressed revision a fresh
    let s' := s.process t.remote p.id revision a
    ScanOk t s' a fresh w (t.scan (Transport.noteProgress
        (Transport.noteRevision p revision) a now progressed) a now fresh
        order) ∧
      ∀ x, Remembered w a fresh x → MonotoneAcks (processedOn p.id s'.log) →
        x ≠ 0 → x = s'.base p.id +
          through DataFields.wireBytes w.receivedHigh (sentOn p.id s'.log) := by
  intro fresh w s'
  have hp' := Transport.noteRevision_toLaneWire p revision a now progressed
  have hattempts : (Transport.noteProgress (Transport.noteRevision p revision) a
      now progressed).attempts = p.attempts :=
    (congrArg LaneWire.attempts hp').trans rfl
  have hwire := Transport.wire_eq_some hfind
  have hscan := (h.processing hfind hhigh revision).scan hwire hattempts now
    fresh order
  rw [hp'] at hscan
  refine ⟨hscan, fun x hx hmono hne => ?_⟩
  have hprocessed : processedOn p.id s'.log =
      (revision, a) :: processedOn p.id s.log := by
    simp only [s', Stint.process, Stint.push, processedOn_ack, if_true]
  rw [hprocessed] at hmono
  exact (h.lanes.lane p.id p.toLaneWire hwire).through_of_remembered rfl hx
    hmono hne

/-- The lane's packets, and the lane itself, once every loop has run. -/
theorem StateOk.confirms (h : StateOk t s datagrams)
    (hfind : t.find p.id = some p) (hhigh : a.high ≤ p.seq) (revision : ℕ)
    (now : Time) (progressed : Bool) (order : MapOrder) :
    let fresh := Transport.isFresh p revision
    let w := p.toLaneWire.progressed revision a fresh
    ∃ x, Remembered w a fresh x ∧
      t.Confirms (s.process t.remote p.id revision a)
        (Function.update t.wire p.id (some { w with receivedThrough := x }))
        (t.settle (Transport.noteProgress (Transport.noteRevision p revision) a
          now progressed) a now fresh order) := by
  intro fresh w
  have hp := h.processing hfind hhigh revision
  have hwire := Transport.wire_eq_some hfind
  obtain ⟨hscan, hthrough⟩ := h.scanOk hfind hhigh revision now progressed order
  obtain ⟨x, hx, hloop⟩ := hscan.settlePrefix hp hwire rfl hthrough order
  refine ⟨x, hx, ?_⟩
  refine Transport.Confirms.confirmLanes (hloop.confirms hfind rfl) hp ?_ now order
    _ _ _
  · intro j v hv
    by_cases hj : j = p.id
    · subst hj
      rw [Function.update_self, Option.some.injEq] at hv
      exact ⟨p.toLaneWire, hwire, hv ▸ rfl⟩
    · rw [Function.update_of_ne hj] at hv
      exact ⟨v, hv, rfl⟩

/-- The state once packets are marked and lanes trimmed. -/
theorem StateOk.of_confirms (h : StateOk t s datagrams) {U : Transport}
    {wires : PathID → Option LaneWire} {s' : Stint} {e : Entry}
    (hs' : s' = s.push e)
    (hentry : EntryOk t.epoch t.remote s.stamps s.log e)
    (hin : InboundOk t.toInbound t.lastTime s'.log)
    (hsent : ∀ id, sentOn id s'.log = sentOn id s.log)
    (hlanes : LanesOk wires s'.stamps s'.log s'.base)
    (hU : t.Confirms s' wires U) : StateOk U s' datagrams := by
  subst hs'
  have hout := h.outbound.marked (s := s.push e) h.stamps hU.outbound
  have hepoch : U.epoch = t.epoch :=
    (congrArg Transport.epoch hU.rest :)
  have hremote : U.remote = t.remote :=
    (congrArg Transport.remote hU.rest :)
  have hwaiting : U.waiting = t.waiting :=
    (congrArg Transport.waiting hU.rest :)
  have hinbound : U.toInbound = t.toInbound :=
    (congrArg Transport.toInbound hU.rest :)
  have hclock : U.lastTime = t.lastTime :=
    (congrArg Transport.lastTime hU.rest :)
  constructor
  · exact hepoch.trans h.own
  · exact hremote.trans h.peer
  · rw [hepoch, hremote]
    exact ⟨hentry, h.log⟩
  · exact h.stamps
  · rwa [hwaiting]
  · intro st hst
    obtain ⟨lane, k, d, hd, hseq⟩ := h.sent st hst
    exact ⟨lane, k, d, by rw [hsent]; exact hd, hseq⟩
  · intro st hst hack
    rcases hU.outbound.acked st.ref hack with hack | ⟨st', hst', href, hnamed⟩
    · exact (h.acked st hst hack).mono (List.suffix_cons _ _) rfl
    have hseq : st'.seq = st.seq := by
      rw [← (h.outbound.stamped st' hst').seq, href,
        (h.outbound.stamped st hst).seq]
    exact hseq ▸ hnamed
  · exact hlanes.trimmedLanes hU.lanes
  · rw [hU.ids]
    exact h.ids
  · rwa [hinbound, hclock]

/-- `ack` keeps the invariant. -/
theorem StateOk.ack (h : StateOk t s datagrams) (hfind : t.find p.id = some p)
    (hmark : (p.ackReceipts.mark revision).1 = true) (hhigh : a.high ≤ p.seq)
    (hobserved : a.observed = t.epoch) (now : Time) (order : MapOrder) :
    StateOk (t.ack (Transport.noteRevision p revision) a now
        (Transport.isFresh p revision) order)
      (s.process t.remote p.id revision a) datagrams := by
  have hwire := Transport.wire_eq_some hfind
  have hlane := h.lanes.lane p.id p.toLaneWire hwire
  set fresh := Transport.isFresh p revision with hfresh
  set s' := s.process t.remote p.id revision a with hs'
  dsimp only [Transport.ack]
  generalize Transport.progresses _ a fresh = progressed
  generalize (decide (t.queued > 0) || _) = backlogged
  generalize (Transport.noteRevision p revision).model.progressAge now = silence
  obtain ⟨x, hx, hconfirms⟩ := h.confirms hfind hhigh revision now progressed
    order
  set p' := Transport.noteProgress (Transport.noteRevision p revision) a now
    progressed
  generalize t.scan p' a now fresh order = scan
  have hid : p'.id = p.id := by
    exact (congrArg LaneWire.id
      (Transport.noteRevision_toLaneWire p revision a now progressed) :)
  rw [hid]
  have hwires : LanesOk (Function.update t.wire p.id
      (some (p.toLaneWire.acknowledged revision a fresh x))) s'.stamps s'.log
      s'.base := by
    refine h.lanes.update (fun _ _ => rfl) (fun j hj => ?_) ?_
    · simp only [hs', Stint.process, Stint.push, processedOn_ack]
      exact if_neg (Ne.symm hj)
    · simp only [hs', Stint.process, Stint.push, processedOn_ack, if_true]
      exact hlane.acknowledged rfl hmark hhigh hx
  have hin : InboundOk t.toInbound t.lastTime s'.log :=
    h.inbound.congr (fun _ => rfl) (fun _ => rfl) rfl
  refine h.of_confirms rfl (.processed p.id revision a hobserved ?_) hin
    (fun _ => rfl) hwires ?_
  · rintro ⟨k, a'⟩ he rfl
    exact hlane.revisions.notMem_of_mark hmark ⟨a', he⟩
  split
  next hnone =>
    have := hconfirms.lanes.unknown p.id (Transport.wire_eq_none.mpr hnone)
    simp at this
  next q hq =>
    exact hconfirms.estimate hq a now fresh progressed backlogged silence scan

end Ack

end Wanbond.Bond
