import Wanbond.Bond.Books

/-!
# The invariant of the books

A packet waits in one queue, or has been stamped.  The pending packets are
those of `pendingOrder` that are not acknowledged, attempts carry stamped
packets, and the packets held are within the bounds of `Enqueue`.  Each part
has its own lemmas for what the moves do to it.
-/

namespace Wanbond.Bond

open Wanbond.Support

/-! ## The invariant -/

/-- The packet waits for its first transmission, in the queue of class `c`. -/
structure WaitsAs (p : Packet) (c : Class) : Prop where
  seq : p.seq = 0
  acked : p.acked = false
  cls : p.cls = c
  interactive : p.interactive = decide (c ≠ .bulk)
  deadline : c ≠ .bulk → p.queueDeadline ≤ p.created + maxPacketAge

structure QueuesKept (packets : PacketHeap) (allocated : ℕ) (k : Stock) :
    Prop where
  counted : ∀ c, c ≠ .bulk → (k.small.get c).Counted
  nodup : k.waiting.Nodup
  below : ∀ ref ∈ k.waiting, ref < allocated
  queue : ∀ ref ∈ k.queue, WaitsAs (packets ref) .bulk
  small : ∀ c, c ≠ .bulk → ∀ ref ∈ (k.small.get c).refs,
    WaitsAs (packets ref) c

/-- `stamped` are the packets transmitted to the present peer. -/
structure PendingKept (o : Outbound) (stamped : List PacketRef) : Prop where
  bounds : ∀ ref ∈ stamped, ref < o.allocated ∧ 0 < (o.packets ref).seq ∧
    (o.packets ref).seq ≤ o.seq
  unique : ∀ ref ∈ stamped, ∀ ref' ∈ stamped,
    (o.packets ref).seq = (o.packets ref').seq → ref = ref'
  order : o.pendingOrder.Nodup
  known : ∀ ref ∈ o.pendingOrder, ref ∈ stamped
  pending : ∀ q ref, o.pending.lookup q = some ref ↔
    ref ∈ o.pendingOrder ∧ (o.packets ref).seq = q ∧
      (o.packets ref).acked = false

/-- Every attempt of a lane carries a stamped packet, or none. -/
def CarriesStamped (stamped : List PacketRef) (lane : LaneCore) : Prop :=
  ∀ k a ref, lane.attempts.lookup k = some a → a.packet = some ref →
    ref ∈ stamped

/-- The pending packets of the bulk class. -/
def Outbound.bulkPending (o : Outbound) : ℕ :=
  tally (fun ref => if (o.packets ref).cls = .bulk then 1 else 0) o.pending

/-- The bounds of `Enqueue` on the packets held. -/
structure RoomKept (o : Outbound) (k : Stock) : Prop where
  total : k.queued + o.pending.entries.length ≤ maxPackets
  bulk : k.queue.length + o.bulkPending ≤ maxPackets - smallPacketHeadroom

structure Books.KeptAs (b : Books) (stamped : List PacketRef) : Prop where
  ids : b.ids.Nodup
  queues : QueuesKept b.packets b.allocated b.toStock
  pending : PendingKept b.toOutbound stamped
  attempts : ∀ id lane, b.lanes id = some lane → CarriesStamped stamped lane
  room : RoomKept b.toOutbound b.toStock

def Books.Kept (b : Books) : Prop := ∃ stamped, b.KeptAs stamped

/-! ## Queues -/

namespace Stock

variable {k : Stock} {ref : PacketRef}

theorem mem_waiting : ref ∈ k.waiting ↔ ref ∈ k.queue ∨
    ref ∈ k.small.realtime.refs ∨ ref ∈ k.small.small.refs := by
  simp only [waiting, Multiset.mem_add, Multiset.mem_coe, or_assoc]

theorem mem_waiting_of_small {c : Class} (hc : c ≠ .bulk)
    (h : ref ∈ (k.small.get c).refs) : ref ∈ k.waiting := by
  rw [mem_waiting]
  cases c with
  | realtime => exact Or.inr (Or.inl h)
  | small => exact Or.inr (Or.inr h)
  | bulk => exact absurd rfl hc

theorem mem_refs_of_peek {q : FairPacketQueue} (h : q.peek = some ref) :
    ref ∈ q.refs := by
  have hmem : ref ∈ (q.refs : Multiset PacketRef) := by
    rw [← Transport.refs_pop h]
    exact Multiset.mem_cons_self ref _
  exact Multiset.mem_coe.mp hmem

end Stock

namespace QueuesKept

variable {packets packets' : PacketHeap} {allocated : ℕ} {k : Stock}
  {ref : PacketRef}

theorem waits (h : QueuesKept packets allocated k) (href : ref ∈ k.waiting) :
    ∃ c, WaitsAs (packets ref) c := by
  rcases Stock.mem_waiting.mp href with hq | hq | hq
  · exact ⟨.bulk, h.queue ref hq⟩
  · exact ⟨.realtime, h.small .realtime (by decide) ref hq⟩
  · exact ⟨.small, h.small .small (by decide) ref hq⟩

theorem congr (h : QueuesKept packets allocated k)
    (hsame : ∀ ref ∈ k.waiting, packets' ref = packets ref) :
    QueuesKept packets' allocated k where
  counted := h.counted
  nodup := h.nodup
  below := h.below
  queue ref href := by
    rw [hsame ref (Stock.mem_waiting.mpr (Or.inl href))]
    exact h.queue ref href
  small c hc ref href := by
    rw [hsame ref (Stock.mem_waiting_of_small hc href)]
    exact h.small c hc ref href

theorem update (h : QueuesKept packets allocated k)
    (hseq : (packets ref).seq ≠ 0) (p : Packet) :
    QueuesKept (Function.update packets ref p) allocated k := by
  refine h.congr fun ref' href' => ?_
  obtain ⟨c, hwaits⟩ := h.waits href'
  refine Function.update_of_ne ?_ _ _
  rintro rfl
  exact hseq hwaits.seq

theorem of_le {k' : Stock} (h : QueuesKept packets allocated k)
    (hle : k'.waiting ≤ k.waiting)
    (hcounted : ∀ c, c ≠ .bulk → (k'.small.get c).Counted)
    (hqueue : ∀ ref ∈ k'.queue, ref ∈ k.queue)
    (hsmall : ∀ c, c ≠ .bulk → ∀ ref ∈ (k'.small.get c).refs,
      ref ∈ (k.small.get c).refs) : QueuesKept packets allocated k' where
  counted := hcounted
  nodup := Multiset.nodup_of_le hle h.nodup
  below ref href := h.below ref (Multiset.mem_of_le hle href)
  queue ref href := h.queue ref (hqueue ref href)
  small c hc ref href := h.small c hc ref (hsmall c hc ref href)

end QueuesKept

namespace FairPacketQueue

variable {q : FairPacketQueue} {ref : PacketRef}

theorem length_pop (h : q.peek = some ref) :
    q.refs.length = q.pop.refs.length + 1 := by
  have hcard := congrArg Multiset.card (Transport.refs_pop h)
  simpa using hcard.symm

theorem Counted.pop (hq : q.Counted) (h : q.peek = some ref) :
    q.pop.Counted ∧ q.count = q.pop.count + 1 := by
  have hlength := length_pop h
  have hpos : 0 < q.count := by
    rw [hq]
    omega
  have hcount : q.pop.count = q.count - 1 := by
    unfold FairPacketQueue.peek at h
    unfold FairPacketQueue.pop
    cases hflows : q.flows with
    | nil => simp [hflows] at h
    | cons => rfl
  unfold Counted at hq ⊢
  omega

theorem mem_of_mem_pop (h : q.peek = some ref) {ref' : PacketRef}
    (hmem : ref' ∈ q.pop.refs) : ref' ∈ q.refs := by
  have : ref' ∈ (q.refs : Multiset PacketRef) := by
    rw [← Transport.refs_pop h]
    exact Multiset.mem_cons_of_mem hmem
  exact this

end FairPacketQueue

namespace QueuesKept

variable {packets : PacketHeap} {allocated : ℕ} {k : Stock} {ref : PacketRef}

/-- The head of a small queue leaves it. -/
theorem popSmall (h : QueuesKept packets allocated k) {c : Class}
    (hc : c ≠ .bulk) (hpeek : (k.small.get c).peek = some ref) :
    QueuesKept packets allocated
        { k with small := k.small.modify c FairPacketQueue.pop } ∧
      ref ::ₘ ({ k with small := k.small.modify c FairPacketQueue.pop } :
        Stock).waiting = k.waiting ∧
      k.queued = ({ k with small := k.small.modify c FairPacketQueue.pop } :
        Stock).queued + 1 := by
  have hpop := (h.counted c hc).pop hpeek
  have hwaiting : ref ::ₘ ({ k with
      small := k.small.modify c FairPacketQueue.pop } : Stock).waiting =
      k.waiting := by
    have hrefs := Transport.refs_pop hpeek
    cases c with
    | bulk => exact absurd rfl hc
    | realtime =>
      simp only [PerClass.get] at hrefs
      simp only [Stock.waiting, PerClass.modify, PerClass.get, PerClass.set]
      rw [← hrefs, Multiset.add_cons, Multiset.cons_add]
    | small =>
      simp only [PerClass.get] at hrefs
      simp only [Stock.waiting, PerClass.modify, PerClass.get, PerClass.set]
      rw [← hrefs, Multiset.add_cons]
  refine ⟨h.of_le (hwaiting ▸ Multiset.le_cons_self _ _) ?_ (fun _ hr => hr) ?_,
    hwaiting, ?_⟩
  · intro d hd
    by_cases hdc : d = c
    · subst hdc
      simpa [PerClass.modify] using hpop.1
    · simpa [PerClass.modify, PerClass.get_set_ne _ hdc] using h.counted d hd
  · intro d hd ref' href'
    by_cases hdc : d = c
    · subst hdc
      simp only [PerClass.modify, PerClass.get_set_self] at href'
      exact FairPacketQueue.mem_of_mem_pop hpeek href'
    · simpa [PerClass.modify, PerClass.get_set_ne _ hdc] using href'
  have hcount := hpop.2
  cases c with
  | bulk => exact absurd rfl hc
  | realtime | small =>
    simp only [Stock.queued, PerClass.modify, PerClass.get,
      PerClass.set] at hcount ⊢
    omega

theorem popBulk (h : QueuesKept packets allocated k) {rest : List PacketRef}
    (hqueue : k.queue = ref :: rest) :
    QueuesKept packets allocated { k with queue := rest } ∧
      ref ::ₘ ({ k with queue := rest } : Stock).waiting = k.waiting ∧
      k.queued = ({ k with queue := rest } : Stock).queued + 1 := by
  have hwaiting : ref ::ₘ ({ k with queue := rest } : Stock).waiting =
      k.waiting := by
    simp only [Stock.waiting, hqueue, ← Multiset.cons_coe, Multiset.cons_add]
  refine ⟨h.of_le (hwaiting ▸ Multiset.le_cons_self _ _) h.counted ?_
    (fun _ _ _ hr => hr), hwaiting, ?_⟩
  · intro ref' href'
    rw [hqueue]
    exact List.mem_cons_of_mem _ href'
  · simp only [Stock.queued, hqueue, List.length_cons]
    omega

end QueuesKept

/-! ## Pending packets -/

namespace PendingKept

variable {o : Outbound} {stamped : List PacketRef} {ref : PacketRef}

theorem seq_ne_zero (h : PendingKept o stamped) (href : ref ∈ stamped) :
    (o.packets ref).seq ≠ 0 :=
  (h.bounds ref href).2.1.ne'

theorem lookup_of_acked (h : PendingKept o stamped) (href : ref ∈ stamped)
    (hacked : (o.packets ref).acked = true) :
    o.pending.lookup (o.packets ref).seq = none := by
  rw [Option.eq_none_iff_forall_ne_some]
  intro ref' hlookup
  obtain ⟨hmem, hseq, hacked'⟩ := (h.pending _ _).mp hlookup
  rw [h.unique ref' (h.known ref' hmem) ref href hseq, hacked] at hacked'
  cases hacked'

/-- A packet is stamped with the next sequence. -/
theorem first (h : PendingKept o stamped) (hseq : (o.packets ref).seq = 0)
    (hlt : ref < o.allocated) {p : Packet} (hp : p.seq = o.seq + 1)
    (hacked : p.acked = false) (i j : ℕ) :
    PendingKept { o with
      packets := Function.update o.packets ref p
      pending := o.pending.insert (o.seq + 1) ref
      pendingOrder := o.pendingOrder ++ [ref]
      seq := o.seq + 1
      interactiveSeq := i
      bulkSeq := j } (ref :: stamped) := by
  have hfresh : ∀ ref' ∈ stamped, ref' ≠ ref := by
    rintro ref' href' rfl
    exact h.seq_ne_zero href' hseq
  have hsame : ∀ ref' ∈ stamped,
      Function.update o.packets ref p ref' = o.packets ref' :=
    fun ref' href' => Function.update_of_ne (hfresh ref' href') _ _
  constructor
  · intro ref' href'
    dsimp only
    rcases List.mem_cons.mp href' with rfl | href'
    · rw [Function.update_self, hp]
      exact ⟨hlt, Nat.succ_pos _, le_rfl⟩
    · rw [hsame ref' href']
      obtain ⟨hbelow, hpos, hle⟩ := h.bounds ref' href'
      exact ⟨hbelow, hpos, Nat.le_succ_of_le hle⟩
  · have hne : ∀ ref' ∈ stamped, (o.packets ref').seq ≠ o.seq + 1 :=
      fun ref' href' => Nat.ne_of_lt (Nat.lt_succ_of_le (h.bounds ref' href').2.2)
    intro r hr r' hr' heq
    dsimp only at heq
    rcases List.mem_cons.mp hr with rfl | hold
    · rcases List.mem_cons.mp hr' with rfl | hold'
      · rfl
      · rw [Function.update_self, hsame r' hold', hp] at heq
        exact absurd heq.symm (hne r' hold')
    rcases List.mem_cons.mp hr' with rfl | hold'
    · rw [Function.update_self, hsame r hold, hp] at heq
      exact absurd heq (hne r hold)
    · rw [hsame r hold, hsame r' hold'] at heq
      exact h.unique r hold r' hold' heq
  · refine List.nodup_append.mpr ⟨h.order, by simp, ?_⟩
    rintro a ha b hb rfl
    rw [List.mem_singleton] at hb
    exact hfresh a (h.known a ha) hb
  · intro ref' href'
    rcases List.mem_append.mp href' with href' | href'
    · exact List.mem_cons_of_mem _ (h.known ref' href')
    · rw [List.mem_singleton.mp href']
      exact List.mem_cons_self
  · intro q ref'
    dsimp only
    by_cases hq : q = o.seq + 1
    · subst hq
      rw [AList.lookup_insert, Option.some.injEq]
      constructor
      · rintro rfl
        rw [Function.update_self]
        exact ⟨by simp, hp, hacked⟩
      rintro ⟨hmem, hseq', -⟩
      by_contra hne
      have hmem' : ref' ∈ o.pendingOrder := by
        rcases List.mem_append.mp hmem with hmem | hmem
        · exact hmem
        · exact absurd (List.mem_singleton.mp hmem).symm hne
      rw [hsame ref' (h.known ref' hmem')] at hseq'
      have := (h.bounds ref' (h.known ref' hmem')).2.2
      omega
    · rw [AList.lookup_insert_ne hq, h.pending]
      constructor
      · rintro ⟨hmem, hseq', hacked'⟩
        rw [hsame ref' (h.known ref' hmem)]
        exact ⟨List.mem_append_left _ hmem, hseq', hacked'⟩
      rintro ⟨hmem, hseq', hacked'⟩
      rcases List.mem_append.mp hmem with hmem | hmem
      · rw [hsame ref' (h.known ref' hmem)] at hseq' hacked'
        exact ⟨hmem, hseq', hacked'⟩
      · rw [List.mem_singleton.mp hmem, Function.update_self, hp] at hseq'
        exact absurd hseq'.symm hq

/-- Packets change, but not their sequences; the pending ones stay those not
acknowledged. -/
theorem congr (h : PendingKept o stamped) {packets : PacketHeap}
    {pending : Pending} {pendingOrder : List PacketRef}
    (hseq : ∀ ref, (packets ref).seq = (o.packets ref).seq)
    (hsub : pendingOrder.Sublist o.pendingOrder)
    (hpending : ∀ q ref, pending.lookup q = some ref ↔ ref ∈ pendingOrder ∧
      (o.packets ref).seq = q ∧ (packets ref).acked = false) :
    PendingKept { o with
      packets := packets
      pending := pending
      pendingOrder := pendingOrder } stamped where
  bounds ref href := by
    rw [hseq]
    exact h.bounds ref href
  unique ref href ref' href' heq := by
    rw [hseq, hseq] at heq
    exact h.unique ref href ref' href' heq
  order := hsub.nodup h.order
  known ref href := h.known ref (hsub.subset href)
  pending q ref := by
    rw [hseq]
    exact hpending q ref

/-- A pending packet is transmitted again. -/
theorem again (h : PendingKept o stamped) (href : ref ∈ o.pendingOrder)
    (hacked : (o.packets ref).acked = false) {p : Packet}
    (hseq : p.seq = (o.packets ref).seq) (hp : p.acked = false) :
    PendingKept { o with
      packets := Function.update o.packets ref p
      pending := o.pending.insert (o.packets ref).seq ref } stamped := by
  have hlookup : o.pending.lookup (o.packets ref).seq = some ref :=
    (h.pending _ _).mpr ⟨href, rfl, hacked⟩
  have hinsert : ∀ q, (o.pending.insert (o.packets ref).seq ref).lookup q =
      o.pending.lookup q := by
    intro q
    by_cases hq : q = (o.packets ref).seq
    · rw [hq, AList.lookup_insert, hlookup]
    · rw [AList.lookup_insert_ne hq]
  have hfields : ∀ ref', (Function.update o.packets ref p ref').seq =
      (o.packets ref').seq ∧ (Function.update o.packets ref p ref').acked =
        (o.packets ref').acked := by
    intro ref'
    by_cases hr : ref' = ref
    · subst hr
      rw [Function.update_self]
      exact ⟨hseq, hp.trans hacked.symm⟩
    · rw [Function.update_of_ne hr]
      exact ⟨rfl, rfl⟩
  refine h.congr (fun ref' => (hfields ref').1) (List.Sublist.refl _) ?_
  intro q ref'
  rw [hinsert, (hfields ref').2]
  exact h.pending q ref'

/-- A packet leaves `pendingOrder`. -/
theorem leave (h : PendingKept o stamped) {l₁ l₂ : List PacketRef}
    (horder : o.pendingOrder = l₁ ++ ref :: l₂) :
    PendingKept { o with
      pending := o.pending.erase (o.packets ref).seq
      pendingOrder := l₁ ++ l₂ } stamped := by
  have href : ref ∈ o.pendingOrder := by simp [horder]
  have hsub : (l₁ ++ l₂).Sublist o.pendingOrder := by
    rw [horder]
    exact (List.Sublist.refl l₁).append (List.sublist_cons_self ref l₂)
  have hmem : ∀ ref', ref' ∈ l₁ ++ l₂ ↔ ref' ∈ o.pendingOrder ∧ ref' ≠ ref := by
    intro ref'
    have hnodup := h.order
    rw [horder, List.nodup_middle, List.nodup_cons] at hnodup
    constructor
    · intro hr
      refine ⟨hsub.subset hr, ?_⟩
      rintro rfl
      exact hnodup.1 hr
    · rintro ⟨hr, hne⟩
      rw [horder] at hr
      simpa [hne] using hr
  refine @PendingKept.congr o stamped h o.packets _ _ (fun _ => rfl) hsub ?_
  intro q ref'
  by_cases hq : q = (o.packets ref).seq
  · subst hq
    rw [AList.lookup_erase]
    refine ⟨nofun, ?_⟩
    rintro ⟨hr, hseq, -⟩
    obtain ⟨hr, hne⟩ := (hmem ref').mp hr
    exact absurd (h.unique ref' (h.known _ hr) ref (h.known _ href) hseq) hne
  rw [AList.lookup_erase_ne hq, h.pending, hmem]
  constructor
  · rintro ⟨hr, hseq, hacked⟩
    refine ⟨⟨hr, ?_⟩, hseq, hacked⟩
    rintro rfl
    exact hq hseq.symm
  · rintro ⟨⟨hr, -⟩, hseq, hacked⟩
    exact ⟨hr, hseq, hacked⟩

theorem settle (h : PendingKept o stamped) (href : ref ∈ stamped)
    {pending : Pending} (hpending : ∀ q ref', pending.lookup q = some ref' ↔
      o.pending.lookup q = some ref' ∧ ref' ≠ ref) :
    PendingKept { o with
      packets := Function.update o.packets ref
        { o.packets ref with acked := true }
      pending := pending } stamped := by
  refine h.congr ?_ (List.Sublist.refl _) ?_
  · intro ref'
    by_cases hr : ref' = ref
    · subst hr
      rw [Function.update_self]
    · rw [Function.update_of_ne hr]
  intro q ref'
  rw [hpending, h.pending]
  by_cases hr : ref' = ref
  · subst hr
    simp
  · rw [Function.update_of_ne hr]
    simp [hr]

theorem lookup_erase_iff (h : PendingKept o stamped) (href : ref ∈ stamped)
    (q : ℕ) (ref' : PacketRef) :
    (o.pending.erase (o.packets ref).seq).lookup q = some ref' ↔
      o.pending.lookup q = some ref' ∧ ref' ≠ ref := by
  by_cases hq : q = (o.packets ref).seq
  · subst hq
    rw [AList.lookup_erase]
    refine ⟨nofun, ?_⟩
    rintro ⟨hlookup, hne⟩
    obtain ⟨hmem, hseq, -⟩ := (h.pending _ _).mp hlookup
    exact absurd (h.unique ref' (h.known _ hmem) ref href hseq) hne
  rw [AList.lookup_erase_ne hq]
  refine ⟨fun hlookup => ⟨hlookup, ?_⟩, fun hlookup => hlookup.1⟩
  rintro rfl
  exact hq ((h.pending _ _).mp hlookup).2.1.symm

end PendingKept

/-! ## Lanes -/

namespace CarriesStamped

variable {stamped : List PacketRef} {lane lane' : LaneCore}

theorem of_eq (h : CarriesStamped stamped lane)
    (heq : lane'.attempts = lane.attempts) : CarriesStamped stamped lane' := by
  intro k a ref ha
  rw [heq] at ha
  exact h k a ref ha

theorem mono {stamped' : List PacketRef} (h : CarriesStamped stamped lane)
    (hsub : stamped ⊆ stamped') : CarriesStamped stamped' lane :=
  fun k a ref ha href => hsub (h k a ref ha href)

theorem insert (h : CarriesStamped stamped lane) {k : ℕ} {a : Attempt}
    (ha : ∀ ref, a.packet = some ref → ref ∈ stamped)
    (heq : lane'.attempts = lane.attempts.insert k a) :
    CarriesStamped stamped lane' := by
  intro j a' ref ha' href
  rw [heq] at ha'
  by_cases hj : j = k
  · subst hj
    rw [AList.lookup_insert, Option.some.injEq] at ha'
    exact ha ref (ha' ▸ href)
  · rw [AList.lookup_insert_ne hj] at ha'
    exact h j a' ref ha' href

theorem erase (h : CarriesStamped stamped lane) {k : ℕ}
    (heq : lane'.attempts = lane.attempts.erase k) :
    CarriesStamped stamped lane' := by
  intro j a ref ha href
  rw [heq] at ha
  by_cases hj : j = k
  · subst hj
    rw [AList.lookup_erase] at ha
    cases ha
  · rw [AList.lookup_erase_ne hj] at ha
    exact h j a ref ha href

end CarriesStamped

namespace LaneCore

variable (c : LaneCore) (heap : PacketHeap) (a : Attempt)

@[simp] theorem release_toLaneWire :
    (c.release heap a).toLaneWire = c.toLaneWire := by
  unfold release
  cases a.packet <;> rfl

@[simp] theorem clear_toLaneWire :
    (c.clear heap a).toLaneWire = c.toLaneWire := by
  unfold clear
  split
  · rfl
  · exact c.release_toLaneWire heap a

end LaneCore

theorem Books.KeptAs.setLane {b : Books} {stamped : List PacketRef}
    (h : b.KeptAs stamped) (id : PathID) {lane : LaneCore}
    (hlane : CarriesStamped stamped lane) :
    (b.setLane id lane).KeptAs stamped := by
  refine { h with attempts := ?_ }
  intro id' lane' hlane'
  simp only [Books.setLane, Function.update_apply] at hlane'
  split at hlane'
  · rwa [← Option.some.inj hlane']
  · exact h.attempts id' lane' hlane'

/-! ## Counters -/

/-- What a move of `Poll` does to the counters. -/
structure Books.Accounts (b b' : Books) : Prop where
  queued : b'.toStock.queued + b'.drops + b'.seq =
    b.toStock.queued + b.drops + b.seq
  pending : b'.pending.entries.length + b'.expired + b.seq =
    b.pending.entries.length + b.expired + b'.seq
  bulk : b'.queue.length + b'.bulkPending ≤ b.queue.length + b.bulkPending
  drops : b.drops ≤ b'.drops
  expired : b.expired ≤ b'.expired
  seq : b.seq ≤ b'.seq

theorem Books.Accounts.room {b b' : Books} (h : b.Accounts b')
    (hroom : RoomKept b.toOutbound b.toStock) :
    RoomKept b'.toOutbound b'.toStock := by
  obtain ⟨hqueued, hpending, hbulk, hdrops, hexpired, -⟩ := h
  obtain ⟨htotal, hheadroom⟩ := hroom
  exact ⟨by omega, hbulk.trans hheadroom⟩

namespace Outbound

variable {o : Outbound} {packets : PacketHeap} {pending : Pending}

end Outbound

theorem cls_update {packets : PacketHeap} {ref : PacketRef} {p : Packet}
    (h : p.cls = (packets ref).cls) (ref' : PacketRef) :
    (Function.update packets ref p ref').cls = (packets ref').cls := by
  by_cases hr : ref' = ref
  · rw [hr, Function.update_self, h]
  · rw [Function.update_of_ne hr]

end Wanbond.Bond
