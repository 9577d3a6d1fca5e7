import Wanbond.Bond.BooksCalls

/-!
# Conservation of datagrams

Every datagram that `Enqueue` accepts is accounted for once.  The ledger keeps
what the transport itself does not count: the calls of `Enqueue` that returned
no error, the first transmissions, the packets acknowledged while they were
pending, and the bulk datagrams dropped at their deadline.  It is read off the
results of the calls and the states around them.
-/

namespace Wanbond.Bond

open Wanbond.Support

/-! ## The ledger -/

structure Ledger where
  accepted : ℕ
  firsts : ℕ
  acknowledged : ℕ
  late : ℕ

namespace Transport

/-- The packets whose sequence `out` carries and nothing carried before. -/
def firstTransmissions (t : Transport) (out : List Transmission) : ℕ :=
  ((out.map fun sent => sent.frame.packetSeq).toFinset.filter
    fun q => t.seq < q).card

/-- The packets that were pending in `t` and are acknowledged in `t'`. -/
def acknowledgedPending (t t' : Transport) : ℕ :=
  t.pending.entries.countP fun e => (t'.packets e.2).acked

/-- The bulk datagrams that left the queue between `t` and `t'` after their
deadline. -/
def lateBulk (t t' : Transport) (now : Time) : ℕ :=
  t.queue.countP fun ref =>
    decide (ref ∉ t'.queue ∧ now > (t.packets ref).queueDeadline)

end Transport

namespace Ledger

/-- The ledger after a call in the state `t`. -/
def record (t : Transport) (l : Ledger) : Call → Ledger
  | .enqueue payload metadata now =>
    match (t.enqueue payload metadata now).2 with
    | .ok _ => { l with accepted := l.accepted + 1 }
    | .error _ => l
  | .poll now order =>
    match t.poll now order with
    | (t', .ok out) => { l with
        firsts := l.firsts + t.firstTransmissions out
        late := l.late + t.lateBulk t' now }
    | (_, .error _) => l
  | .receive path frame now order => { l with
      acknowledged := l.acknowledged +
        t.acknowledgedPending (t.receive path frame now order).1 }
  | .path _ _ _ _ => l
  | .disable _ => l
  | .setRemote _ _ => l

/-- The ledger after a sequence of calls from the state `t`. -/
def follow (t : Transport) (l : Ledger) : List Call → Ledger
  | [] => l
  | call :: calls => follow (t.apply call) (l.record t call) calls

def run (epoch : Epoch) (calls : List Call) : Ledger :=
  follow (Transport.new epoch) ⟨0, 0, 0, 0⟩ calls

end Ledger

namespace Stock

/-- The small datagrams given up in their queues. -/
def shed (k : Stock) : ℕ :=
  k.smallQueueDrops.realtime.deadline + k.smallQueueDrops.realtime.stale +
    (k.smallQueueDrops.small.deadline + k.smallQueueDrops.small.stale)

/-- The small datagrams refused for want of room. -/
def refused (k : Stock) : ℕ :=
  k.smallQueueDrops.realtime.admission + k.smallQueueDrops.small.admission

end Stock

/-- Every datagram is accounted for. -/
structure Books.Conserves (b : Books) (l : Ledger) : Prop where
  accepted : l.accepted =
    b.toStock.queued + b.coalescedACKs + b.drops + l.firsts
  firsts : l.firsts = b.pending.entries.length + b.expired + l.acknowledged
  drops : b.drops = b.admissionDrops + b.aqmDrops + l.late + b.toStock.shed
  interactive : b.interactiveDrops = b.toStock.refused + b.toStock.shed

theorem Books.Conserves.of_eq {b b' : Books} {l : Ledger} (h : b.Conserves l)
    (hstock : b'.toStock = b.toStock) (hpending : b'.pending = b.pending) :
    b'.Conserves l := by
  obtain ⟨haccepted, hfirsts, hdrops, hinteractive⟩ := h
  constructor
  · rwa [hstock]
  · rwa [hstock, hpending]
  · rwa [hstock]
  · rwa [hstock]

/-! ## `Poll` -/

/-- What the moves of `Poll` do to the counters of drops. -/
structure Books.Sheds (now : Time) (b b' : Books) : Prop where
  queue : ∃ gone, b.queue = gone ++ b'.queue ∧
    b'.drops + b.aqmDrops + b.toStock.shed =
      b.drops + b'.aqmDrops + b'.toStock.shed + gone.countP fun ref =>
        decide (now > (b.packets ref).queueDeadline)
  deadline : ∀ ref, (b'.packets ref).queueDeadline =
    (b.packets ref).queueDeadline
  admission : b'.admissionDrops = b.admissionDrops
  coalesced : b'.coalescedACKs = b.coalescedACKs
  refused : b'.toStock.refused = b.toStock.refused
  interactive : b'.interactiveDrops + b.toStock.shed =
    b.interactiveDrops + b'.toStock.shed

namespace Books.Sheds

variable {now : Time} {b b' b'' : Books}

theorem refl (b : Books) : b.Sheds now b :=
  ⟨⟨[], rfl, rfl⟩, fun _ => rfl, rfl, rfl, rfl, rfl⟩

theorem trans (h : b.Sheds now b') (h' : b'.Sheds now b'') :
    b.Sheds now b'' := by
  obtain ⟨⟨gone, hqueue, hdrops⟩, hdeadline, ha, hc, hr, hi⟩ := h
  obtain ⟨⟨gone', hqueue', hdrops'⟩, hdeadline', ha', hc', hr', hi'⟩ := h'
  refine ⟨⟨gone ++ gone', ?_, ?_⟩, ?_, ha'.trans ha, hc'.trans hc,
    hr'.trans hr, by omega⟩
  · rw [hqueue, hqueue', List.append_assoc]
  · simp only [hdeadline] at hdrops'
    rw [List.countP_append]
    omega
  · exact fun ref => (hdeadline' ref).trans (hdeadline ref)

theorem of_stock (hstock : b'.toStock = b.toStock)
    (hdeadline : ∀ ref, (b'.packets ref).queueDeadline =
      (b.packets ref).queueDeadline) : b.Sheds now b' := by
  refine ⟨⟨[], ?_, ?_⟩, hdeadline, ?_, ?_, ?_, ?_⟩
  all_goals simp [hstock]

theorem deadline_send (b : Books) (ref : PacketRef) (id : PathID)
    (lane : LaneCore) (ref' : PacketRef) :
    ((b.send now ref id lane).packets ref').queueDeadline =
      (b.packets ref').queueDeadline := by
  simp only [Books.send, Function.update_apply]
  split
  next heq =>
    subst heq
    rfl
  next => rfl

theorem deadline_stamp (b : Books) (ref ref' : PacketRef) :
    ((b.stamp now ref).packets ref').queueDeadline =
      (b.packets ref').queueDeadline := by
  simp only [Books.stamp, Function.update_apply]
  split
  next heq =>
    subst heq
    rfl
  next => rfl

theorem first (b : Books) (ref : PacketRef) (id : PathID) (lane : LaneCore) :
    b.Sheds now ((b.stamp now ref).send now ref id lane) := by
  refine of_stock rfl fun ref' => ?_
  rw [deadline_send, deadline_stamp]

theorem popSmall (b : Books) (c : Class) : b.Sheds now (b.popSmall c) :=
  ⟨⟨[], rfl, rfl⟩, fun _ => rfl, rfl, rfl, rfl, rfl⟩

/-- A small datagram is given up. -/
theorem dropSmall (b : Books) {c : Class} (hc : c ≠ .bulk) (expired : Bool) :
    b.Sheds now (b.dropSmall c expired) := by
  have hshed : (b.dropSmall c expired).toStock.shed = b.toStock.shed + 1 ∧
      (b.dropSmall c expired).toStock.refused = b.toStock.refused := by
    cases c with
    | bulk => exact absurd rfl hc
    | realtime | small =>
      cases expired <;>
        simp only [Stock.shed, Stock.refused, Books.dropSmall, PerClass.modify,
          PerClass.get, PerClass.set, Bool.false_eq_true, if_false, if_true] <;>
        exact ⟨by omega, trivial⟩
  refine ⟨⟨[], rfl, ?_⟩, fun _ => rfl, rfl, rfl, hshed.2, ?_⟩
  · rw [hshed.1, List.countP_nil]
    show b.drops + 1 + b.aqmDrops + _ = b.drops + b.aqmDrops + _ + 0
    omega
  · rw [hshed.1]
    show b.interactiveDrops + 1 + _ = _
    omega

theorem popBulk {ref : PacketRef} {rest : List PacketRef}
    (hqueue : b.queue = ref :: rest)
    (hlate : ¬now > (b.packets ref).queueDeadline) :
    b.Sheds now { b with queue := rest } := by
  refine ⟨⟨[ref], hqueue, ?_⟩, fun _ => rfl, rfl, rfl, rfl, rfl⟩
  rw [List.countP_singleton, decide_eq_false hlate]
  rfl

end Books.Sheds

theorem PollMove.sheds {now : Time} {b b' : Books} (hmove : PollMove now b b') :
    b.Sheds now b' := by
  cases hmove with
  | @dropSmall c ref expired hc hpeek =>
    exact (Books.Sheds.popSmall b c).trans (.dropSmall _ hc expired)
  | @dropLate ref rest hqueue hlate =>
    refine ⟨⟨[ref], hqueue, ?_⟩, fun _ => rfl, rfl, rfl, rfl, rfl⟩
    rw [List.countP_singleton, decide_eq_true hlate]
    show b.drops + 1 + b.aqmDrops + b.toStock.shed =
      b.drops + b.aqmDrops + b.toStock.shed + 1
    omega
  | @dropManaged ref rest hqueue hlate =>
    refine (Books.Sheds.popBulk hqueue hlate).trans
      ⟨⟨[], rfl, ?_⟩, fun _ => rfl, rfl, rfl, rfl, rfl⟩
    show b.drops + 1 + b.aqmDrops + b.toStock.shed =
      b.drops + (b.aqmDrops + 1) + b.toStock.shed + 0
    omega
  | @firstSmall c ref id lane hc hpeek hlate hlane =>
    exact (Books.Sheds.popSmall b c).trans (.first _ ref id lane)
  | @firstBulk ref rest id lane hqueue hlate hlane =>
    exact (Books.Sheds.popBulk hqueue hlate).trans (.first _ ref id lane)
  | again =>
    exact .of_stock rfl (Books.Sheds.deadline_send _ _ _ _)
  | settled => exact .of_stock rfl fun _ => rfl
  | expire =>
    exact ⟨⟨[], rfl, rfl⟩, fun _ => rfl, rfl, rfl, rfl, rfl⟩
  | keepalive | timeOut | forget => exact .of_stock rfl fun _ => rfl

namespace Books.Accounts

theorem refl (b : Books) : b.Accounts b :=
  ⟨rfl, rfl, le_rfl, le_rfl, le_rfl, le_rfl⟩

theorem trans {b b' b'' : Books} (h : b.Accounts b') (h' : b'.Accounts b'') :
    b.Accounts b'' := by
  obtain ⟨h₁, h₂, h₃, h₄, h₅, h₆⟩ := h
  obtain ⟨k₁, k₂, k₃, k₄, k₅, k₆⟩ := h'
  exact ⟨by omega, by omega, k₃.trans h₃, by omega, by omega, by omega⟩

end Books.Accounts

section Poll

variable {now : Time} {t t' : Transport} {out : List Transmission}

theorem Trace.accounts (htrace : Trace (PollStep now) t out t')
    (h : t.books.Kept) : t.books.Accounts t'.books ∧ t.books.Sheds now t'.books := by
  refine htrace.related (P := fun t : Transport => t.books.Kept)
    (R := fun t t' => t.books.Accounts t'.books ∧ t.books.Sheds now t'.books)
    (fun t => ⟨.refl _, .refl _⟩)
    (fun _ _ _ h h' => ⟨h.1.trans h'.1, h.2.trans h'.2⟩)
    (fun _ _ _ hs hstep => hstep.kept hs) ?_ h
  rintro s out s' ⟨stamped, hs⟩ hstep
  rcases hstep.books with heq | hmove
  · rw [heq]
    exact ⟨.refl _, .refl _⟩
  · exact ⟨hmove.accounts hs, hmove.sheds⟩

/-- The sequences above the old one that a trace carries are those it gives
out. -/
theorem Trace.carries (htrace : Trace (PollStep now) t out t') :
    t.seq ≤ t'.seq ∧ ∀ q, t.seq < q →
      (q ∈ out.map (fun sent => sent.frame.packetSeq) ↔ q ≤ t'.seq) := by
  induction htrace with
  | refl t => exact ⟨le_rfl, by simp⟩
  | @cons t u t' out rest hstep _ ih =>
    obtain ⟨hle, hrest⟩ := ih
    have hone : t.seq ≤ u.seq ∧ ∀ q, t.seq < q →
        (q ∈ out.map (fun sent => sent.frame.packetSeq) ↔ q ≤ u.seq) := by
      cases hstep with
      | idle hbooks =>
        have hseq : u.seq = t.seq := congrArg (fun b : Books => b.seq) hbooks
        refine ⟨le_of_eq hseq.symm, fun q hq => ?_⟩
        simp only [List.map_nil, List.not_mem_nil, false_iff]
        omega
      | move hmove hseq =>
        refine ⟨le_of_eq hseq.symm, fun q hq => ?_⟩
        simp only [List.map_nil, List.not_mem_nil, false_iff]
        omega
      | first hmove hseq hcarries | again hmove hseq hcarries =>
        refine ⟨by omega, fun q hq => ?_⟩
        simp only [List.map_cons, List.map_nil, List.mem_singleton]
        omega
    refine ⟨hone.1.trans hle, fun q hq => ?_⟩
    rw [List.map_append, List.mem_append, hone.2 q hq]
    rcases Nat.lt_or_ge u.seq q with hlt | hge
    · rw [hrest q hlt]
      omega
    · exact ⟨fun _ => hge.trans hle, fun _ => Or.inl hge⟩

theorem Trace.firstTransmissions (htrace : Trace (PollStep now) t out t') :
    t.seq + t.firstTransmissions out = t'.seq := by
  obtain ⟨hle, hcarries⟩ := Trace.carries htrace
  have hset : ((out.map fun sent => sent.frame.packetSeq).toFinset.filter
      fun q => t.seq < q) = Finset.Ioc t.seq t'.seq := by
    ext q
    rw [Finset.mem_filter, List.mem_toFinset, Finset.mem_Ioc, and_comm]
    exact and_congr_right fun hq => hcarries q hq
  rw [Transport.firstTransmissions, hset, Nat.card_Ioc]
  omega

theorem Transport.lateBulk_eq (h : t.queue.Nodup) {gone : List PacketRef}
    (hqueue : t.queue = gone ++ t'.queue) (now : Time) :
    t.lateBulk t' now = gone.countP fun ref =>
      decide (now > (t.packets ref).queueDeadline) := by
  rw [hqueue] at h
  have hdisjoint := List.disjoint_of_nodup_append h
  rw [lateBulk, hqueue, List.countP_append]
  have hzero : t'.queue.countP (fun ref => decide (ref ∉ t'.queue ∧
      now > (t.packets ref).queueDeadline)) = 0 := by
    rw [List.countP_eq_zero]
    intro ref href hout
    exact (of_decide_eq_true hout).1 href
  rw [hzero, Nat.add_zero]
  refine List.countP_congr fun ref href => ?_
  have hout : ref ∉ t'.queue := fun hin => hdisjoint href hin
  simp [hout]

theorem QueuesKept.queue_nodup {packets : PacketHeap} {allocated : ℕ}
    {k : Stock} (h : QueuesKept packets allocated k) : k.queue.Nodup := by
  have hle : (k.queue : Multiset PacketRef) ≤ k.waiting := by
    unfold Stock.waiting
    rw [add_assoc]
    exact Multiset.le_add_right _ _
  exact Multiset.coe_nodup.mp (Multiset.nodup_of_le hle h.nodup)

theorem Transport.conserves_poll {l : Ledger} (h : t.books.Conserves l)
    (hkept : t.books.Kept) (htrace : Trace (PollStep now) t out t') :
    t'.books.Conserves { l with
      firsts := l.firsts + t.firstTransmissions out
      late := l.late + t.lateBulk t' now } := by
  obtain ⟨haccepted, hfirsts, hdrops, hinteractive⟩ := h
  obtain ⟨haccounts, hsheds⟩ := Trace.accounts htrace hkept
  obtain ⟨⟨gone, hqueue, hgone⟩, -, hadmission, hcoalesced, hrefused, hshed⟩ :=
    hsheds
  have hseq : t.books.seq + t.firstTransmissions out =
      t'.books.seq := Trace.firstTransmissions htrace
  have hlate : t.lateBulk t' now = gone.countP fun ref =>
      decide (now > (t.books.packets ref).queueDeadline) := by
    obtain ⟨stamped, hkept⟩ := hkept
    exact lateBulk_eq hkept.queues.queue_nodup hqueue now
  have hqueued := haccounts.queued
  have hpending := haccounts.pending
  rw [← hlate] at hgone
  constructor
  · dsimp only
    omega
  · dsimp only
    omega
  · dsimp only
    omega
  · omega

end Poll

/-! ## The other calls -/

section Calls

variable {t : Transport} {l : Ledger}

theorem Transport.refuse_small (t : Transport) {c : Class} (hc : c ≠ .bulk) :
    (t.refuse c).toStock.shed = t.toStock.shed ∧
      (t.refuse c).toStock.refused = t.toStock.refused + 1 ∧
      (t.refuse c).interactiveDrops = t.interactiveDrops + 1 := by
  cases c with
  | bulk => exact absurd rfl hc
  | realtime =>
    refine ⟨rfl, ?_, rfl⟩
    show t.smallQueueDrops.realtime.admission + 1 +
        t.smallQueueDrops.small.admission =
      t.smallQueueDrops.realtime.admission +
        t.smallQueueDrops.small.admission + 1
    omega
  | small => exact ⟨rfl, rfl, rfl⟩

theorem Transport.conserves_refuse (h : t.books.Conserves l) (c : Class) :
    (t.refuse c).books.Conserves { l with accepted := l.accepted + 1 } := by
  obtain ⟨haccepted, hfirsts, hdrops, hinteractive⟩ := h
  have hfields : (t.refuse c).books.toStock.queued = t.books.toStock.queued ∧
      (t.refuse c).books.coalescedACKs = t.books.coalescedACKs ∧
      (t.refuse c).books.drops = t.books.drops + 1 ∧
      (t.refuse c).books.admissionDrops = t.books.admissionDrops + 1 ∧
      (t.refuse c).books.aqmDrops = t.books.aqmDrops ∧
      (t.refuse c).books.expired = t.books.expired ∧
      (t.refuse c).books.pending = t.books.pending := by
    dsimp only [refuse]
    split <;> exact ⟨rfl, rfl, rfl, rfl, rfl, rfl, rfl⟩
  obtain ⟨hqueued, hcoalesced, hdropped, hadmission, haqm, hexpired, hpending⟩ :=
    hfields
  have hshed : (t.refuse c).books.toStock.shed = t.books.toStock.shed ∧
      (t.refuse c).books.interactiveDrops + t.books.toStock.refused =
        t.books.interactiveDrops + (t.refuse c).books.toStock.refused := by
    by_cases hc : c = .bulk
    · rw [hc]
      exact ⟨rfl, rfl⟩
    obtain ⟨hshed, hrefused, hdrops⟩ := t.refuse_small hc
    refine ⟨hshed, ?_⟩
    change (t.refuse c).interactiveDrops + t.toStock.refused =
      t.interactiveDrops + (t.refuse c).toStock.refused
    omega
  obtain ⟨hshed, hrefused⟩ := hshed
  constructor
  · dsimp only
    omega
  · rwa [hpending, hexpired]
  · dsimp only
    omega
  · omega

theorem Transport.conserves_enterQueue (h : t.books.Conserves l)
    (hqueues : QueuesKept t.packets t.allocated t.toStock) (p : Packet) :
    (t.enterQueue p).books.Conserves
      { l with accepted := l.accepted + 1 } := by
  obtain ⟨haccepted, hfirsts, hdrops, hinteractive⟩ := h
  have hqueued : (t.enterQueue p).books.toStock.queued +
      (t.enterQueue p).books.coalescedACKs =
        t.books.toStock.queued + t.books.coalescedACKs + 1 :=
    (queued_enterQueue hqueues p).1
  have hpending : (t.enterQueue p).books.pending = t.books.pending := by
    dsimp only [enterQueue]
    split <;> rfl
  have hcounters : (t.enterQueue p).toStock.drops = t.drops ∧
      (t.enterQueue p).toStock.expired = t.expired ∧
      (t.enterQueue p).toStock.admissionDrops = t.admissionDrops ∧
      (t.enterQueue p).toStock.aqmDrops = t.aqmDrops ∧
      (t.enterQueue p).toStock.interactiveDrops = t.interactiveDrops ∧
      (t.enterQueue p).toStock.shed = t.toStock.shed ∧
      (t.enterQueue p).toStock.refused = t.toStock.refused := by
    rcases t.enterQueue_cases p with ⟨-, hstock⟩ | ⟨-, hstock⟩ <;>
      rw [hstock] <;> exact ⟨rfl, rfl, rfl, rfl, rfl, rfl, rfl⟩
  obtain ⟨hdropped, hexpired, hadmission, haqm, hinter, hshed, hrefused⟩ :=
    hcounters
  constructor
  · show l.accepted + 1 = (t.enterQueue p).books.toStock.queued +
      (t.enterQueue p).books.coalescedACKs + (t.enterQueue p).drops + l.firsts
    rw [hqueued, hdropped, haccepted]
    show _ = _ + t.books.drops + _
    omega
  · rw [hpending]
    show l.firsts = _ + (t.enterQueue p).expired + l.acknowledged
    rwa [hexpired]
  · show (t.enterQueue p).drops = (t.enterQueue p).admissionDrops +
      (t.enterQueue p).aqmDrops + l.late + (t.enterQueue p).toStock.shed
    rwa [hdropped, hadmission, haqm, hshed]
  · show (t.enterQueue p).interactiveDrops = (t.enterQueue p).toStock.refused +
      (t.enterQueue p).toStock.shed
    rwa [hinter, hrefused, hshed]

/-- The pending packets, as those of `pendingOrder` not acknowledged. -/
theorem PendingKept.perm {o : Outbound} {stamped : List PacketRef}
    (h : PendingKept o stamped) :
    (o.pending.entries.map Sigma.snd).Perm
      (o.pendingOrder.filter fun ref => !(o.packets ref).acked) := by
  have hseq : ∀ e ∈ o.pending.entries, (o.packets e.2).seq = e.1 ∧
      e.2 ∈ o.pendingOrder ∧ (o.packets e.2).acked = false := by
    intro e he
    obtain ⟨hmem, hseq, hacked⟩ :=
      (h.pending e.1 e.2).mp (AList.mem_lookup_iff.mpr he)
    exact ⟨hseq, hmem, hacked⟩
  have hinj : ∀ e ∈ o.pending.entries, ∀ e' ∈ o.pending.entries,
      e.2 = e'.2 → e = e' := by
    rintro ⟨q, ref⟩ he ⟨q', ref'⟩ he' rfl
    obtain rfl : q = q' := (hseq _ he).1.symm.trans (hseq _ he').1
    rfl
  have hnodup : (o.pending.entries.map Sigma.snd).Nodup :=
    List.Nodup.map_on (fun e he e' he' => hinj e he e' he')
      o.pending.nodupKeys.nodup
  refine (List.perm_ext_iff_of_nodup hnodup (h.order.filter _)).mpr fun ref => ?_
  simp only [List.mem_map, List.mem_filter, Bool.not_eq_true']
  constructor
  · rintro ⟨e, he, rfl⟩
    exact (hseq e he).2
  · rintro ⟨hmem, hacked⟩
    refine ⟨⟨(o.packets ref).seq, ref⟩, ?_, rfl⟩
    exact AList.mem_lookup_iff.mp ((h.pending _ _).mpr ⟨hmem, rfl, hacked⟩)

/-- What `Receive` acknowledges leaves the pending packets. -/
theorem Transport.acknowledgedPending_eq {t' : Transport}
    (h : t.books.Kept) (h' : t'.books.Kept) (hsettles : t.books.Settles t'.books) :
    t.pending.entries.length =
      t'.pending.entries.length + t.acknowledgedPending t' := by
  obtain ⟨stamped, hkept⟩ := h
  obtain ⟨stamped', hkept'⟩ := h'
  have hperm := hkept.pending.perm
  have hperm' := hkept'.pending.perm
  have horder : t'.pendingOrder = t.pendingOrder := hsettles.order
  change (t.pending.entries.map Sigma.snd).Perm
    (t.pendingOrder.filter fun ref => !(t.packets ref).acked) at hperm
  change (t'.pending.entries.map Sigma.snd).Perm
    (t'.pendingOrder.filter fun ref => !(t'.packets ref).acked) at hperm'
  rw [horder] at hperm'
  have hcount : t.acknowledgedPending t' = (t.pendingOrder.filter fun ref =>
      !(t.packets ref).acked).countP fun ref => (t'.packets ref).acked := by
    rw [← hperm.countP_eq, List.countP_map]
    rfl
  have hlength := hperm.length_eq
  have hlength' := hperm'.length_eq
  rw [List.length_map] at hlength hlength'
  -- a packet not acknowledged afterwards was not acknowledged before
  have hsub : (t.pendingOrder.filter fun ref => !(t'.packets ref).acked) =
      (t.pendingOrder.filter fun ref => !(t.packets ref).acked).filter fun ref =>
        !(t'.packets ref).acked := by
    rw [List.filter_filter]
    refine List.filter_congr fun ref _ => ?_
    rcases hsettles.packets ref with heq | heq
    · change t'.packets ref = t.packets ref at heq
      rw [heq, Bool.and_self]
    · change t'.packets ref = { t.packets ref with acked := true } at heq
      rw [heq]
      rfl
  have hsplit := List.length_eq_countP_add_countP
    (fun ref => (t'.packets ref).acked)
    (l := t.pendingOrder.filter fun ref => !(t.packets ref).acked)
  rw [hlength, hlength', hsub, hcount, hsplit, add_comm,
    ← List.countP_eq_length_filter]
  congr 1
  refine List.countP_congr fun ref _ => ?_
  simp

theorem Transport.conserves_receive (h : t.books.Conserves l) {t' : Transport}
    (hkept : t.books.Kept) (hkept' : t'.books.Kept)
    (hsettles : t.books.Settles t'.books) :
    t'.books.Conserves { l with
      acknowledged := l.acknowledged + t.acknowledgedPending t' } := by
  obtain ⟨haccepted, hfirsts, hdrops, hinteractive⟩ := h
  have hpending : t.books.pending.entries.length =
      t'.books.pending.entries.length + t.acknowledgedPending t' :=
    acknowledgedPending_eq hkept hkept' hsettles
  constructor
  · rwa [hsettles.stock]
  · rw [hsettles.stock]
    dsimp only
    omega
  · rwa [hsettles.stock]
  · rwa [hsettles.stock]

theorem Transport.conserves_setRemote (h : t.books.Conserves l) (epoch : Epoch)
    (adopted : Bool) : (t.setRemote epoch adopted).1.books.Conserves l := by
  unfold setRemote
  split
  · obtain ⟨haccepted, hfirsts, hdrops, hinteractive⟩ := h
    refine ⟨haccepted, ?_, hdrops, hinteractive⟩
    show l.firsts = 0 + (t.expired + t.pending.entries.length) + l.acknowledged
    rw [hfirsts]
    show t.pending.entries.length + t.expired + _ = _
    omega
  · exact h

end Calls

/-! ## Runs -/

theorem Transport.conserves_record {t : Transport} {l : Ledger}
    (h : t.books.Conserves l) (hsound : t.books.Sound) (call : Call) :
    (t.apply call).books.Conserves (l.record t call) := by
  have hsound' := sound_apply hsound call
  cases call with
  | enqueue payload metadata now =>
    simp only [Ledger.record, apply]
    obtain ⟨e, herror, hbooks⟩ | ⟨hok, u, hu, hcase⟩ :=
      t.enqueue_cases payload metadata now
    · rwa [herror, hbooks]
    rw [hok]
    rw [← hu] at h
    rcases hcase with ⟨c, hrefuse⟩ | ⟨p, -, -, henter⟩
    · rw [hrefuse]
      exact conserves_refuse h c
    obtain ⟨stamped, hkept⟩ := hsound.kept
    rw [← hu] at hkept
    rw [henter]
    exact conserves_enterQueue h hkept.queues p
  | poll now order =>
    obtain ⟨e, hpoll⟩ | ⟨t', out, -, hpoll, htrace⟩ :=
      poll_cases hsound.kept now order
    · simp only [apply, Ledger.record, hpoll]
      exact h
    · simp only [apply, Ledger.record, hpoll]
      exact @conserves_poll now { t with lastTime := now } t' out l h hsound.kept
        htrace
  | receive path frame now order =>
    exact conserves_receive h hsound.kept hsound'.kept
      (receives_receive t path frame now order).settles
  | path id remoteID rtt now =>
    obtain ⟨hstock, hpending⟩ : (t.path id remoteID rtt now).1.toStock =
        t.toStock ∧ (t.path id remoteID rtt now).1.pending = t.pending := by
      unfold path
      obtain ⟨e, htime⟩ | ⟨-, htime⟩ := t.checkTime_cases now
      · rw [htime]
        exact ⟨rfl, rfl⟩
      rw [htime]
      dsimp only
      split <;> exact ⟨rfl, rfl⟩
    exact h.of_eq hstock hpending
  | disable id =>
    obtain ⟨hstock, hpending⟩ : (t.disable id).toStock = t.toStock ∧
        (t.disable id).pending = t.pending := by
      unfold disable
      split <;> exact ⟨rfl, rfl⟩
    exact h.of_eq hstock hpending
  | setRemote epoch adopted => exact conserves_setRemote h epoch adopted

theorem Ledger.conserves_follow (calls : List Call) :
    ∀ (t : Transport) (l : Ledger), t.books.Sound → t.books.Conserves l →
      (calls.foldl Transport.apply t).books.Conserves (l.follow t calls) := by
  induction calls with
  | nil => exact fun t l _ h => h
  | cons call _ ih =>
    intro t l hsound h
    exact ih _ _ (Transport.sound_apply hsound call)
      (Transport.conserves_record h hsound call)

/-- The accounts of every run: the datagrams accepted, the first
transmissions, the drops, and the drops of small datagrams. -/
theorem datagrams_conserved (epoch : Epoch) (calls : List Call) :
    let t := Transport.run epoch calls
    let l := Ledger.run epoch calls
    let realtime := t.smallQueueDrops.realtime
    let small := t.smallQueueDrops.small
    l.accepted = t.queued + t.coalescedACKs + t.drops + l.firsts ∧
      l.firsts = t.pending.entries.length + t.expired + l.acknowledged ∧
      t.drops = t.admissionDrops + t.aqmDrops + l.late +
        (realtime.deadline + realtime.stale + (small.deadline + small.stale)) ∧
      t.interactiveDrops =
        (realtime.admission + realtime.deadline + realtime.stale) +
          (small.admission + small.deadline + small.stale) := by
  intro t l realtime small
  have hnew : (Transport.new epoch).books.Conserves ⟨0, 0, 0, 0⟩ :=
    ⟨rfl, rfl, rfl, rfl⟩
  obtain ⟨haccepted, hfirsts, hdrops, hinteractive⟩ :=
    Ledger.conserves_follow calls _ _ (Transport.sound_new epoch) hnew
  refine ⟨haccepted, hfirsts, hdrops, hinteractive.trans ?_⟩
  show realtime.admission + small.admission +
    (realtime.deadline + realtime.stale + (small.deadline + small.stale)) = _
  omega

end Wanbond.Bond
