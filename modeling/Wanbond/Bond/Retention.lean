import Wanbond.Bond.BooksCalls

/-!
# Windows and retention

What the invariant of the books says of every state that a sequence of calls
reaches: the windows of every lane are the sums of its attempts, and the
packets held are bounded.  After a `Poll` no packet that is acknowledged or
past its repair deadline is held for repair.
-/

namespace Wanbond.Bond

open Wanbond.Support

/-! ## Windows -/

theorem Attempt.outstanding_nonneg (a : Attempt) : 0 ≤ a.outstanding := by
  unfold outstanding
  split
  · exact le_rfl
  · exact Int.natCast_nonneg _

theorem Attempt.outstandingIn_nonneg (cls : PacketRef → Class) (c : Class)
    (a : Attempt) : 0 ≤ a.outstandingIn cls c := by
  unfold outstandingIn
  split
  · exact le_rfl
  · split
    · exact a.outstanding_nonneg
    · exact le_rfl

/-- The windows of a lane are the bytes of its attempts that are not released,
in total and by class, and the bytes acknowledged or recorded were sent. -/
theorem window_is_outstanding (epoch : Epoch) (calls : List Call) (p : Lane)
    (hp : p ∈ (Transport.run epoch calls).paths) :
    p.inflight = tally Attempt.outstanding p.attempts ∧
      (∀ c, p.classInflight.get c = tally (Attempt.outstandingIn
        (fun ref => ((Transport.run epoch calls).packets ref).cls) c)
          p.attempts) ∧
      0 ≤ p.inflight ∧ (∀ c, 0 ≤ p.classInflight.get c) ∧
      p.acked + tally Attempt.bytes p.attempts ≤ p.sent := by
  obtain ⟨⟨stamped, hkept⟩, hbalanced⟩ := Transport.sound_run epoch calls
  have hfind : (Transport.run epoch calls).find p.id = some p :=
    Keyed.lookup_of_mem hkept.ids hp
  obtain ⟨hinflight, hclass, -, hsent⟩ :=
    hbalanced p.id _ (Transport.books_lanes hfind)
  refine ⟨hinflight, hclass, ?_, fun c => ?_, hsent⟩
  · rw [hinflight]
    exact tally_nonneg Attempt.outstanding_nonneg _
  · rw [hclass]
    exact tally_nonneg (Attempt.outstandingIn_nonneg _ c) _

/-- The datagrams are sent, and the peer acknowledges the first frame of lane 1. -/
def acknowledged : List Call :=
  offered ++ [.poll second .plain,
    .receive 1 ⟨1, .ack ⟨⟨2, 1⟩, 1⟩ (some ⟨⟨1, 1⟩, 1, 1, 130, 10, 0, 0,
      WordMask.empty _⟩)⟩ (second + 20 * millisecond) .plain]

/-- Frame 2 of lane 1 is outstanding, and frame 1 of it acknowledged. -/
theorem window_is_outstanding_acknowledged :
    ∃ p ∈ (Transport.run ⟨1, 1⟩ acknowledged).paths, p.attempts.keys = [2] ∧
      p.acked = 130 ∧ p.inflight = tally Attempt.outstanding p.attempts ∧
      p.acked + tally Attempt.bytes p.attempts ≤ p.sent := by
  have hlane : ((Transport.run ⟨1, 1⟩ acknowledged).paths.any fun p =>
      decide (p.attempts.keys = [2] ∧ p.acked = 130)) = true := by
    decide +kernel
  obtain ⟨p, hp, hlane⟩ := List.any_eq_true.mp hlane
  obtain ⟨hkeys, hacked⟩ := of_decide_eq_true hlane
  obtain ⟨hinflight, -, -, -, hsent⟩ :=
    window_is_outstanding ⟨1, 1⟩ acknowledged p hp
  exact ⟨p, hp, hkeys, hacked, hinflight, hsent⟩

/-! ## Retention -/

/-- No packet held for repair is acknowledged or past its deadline. -/
def Books.Current (b : Books) (now : Time) : Prop :=
  ∀ ref ∈ b.pendingOrder, (b.packets ref).acked = false ∧
    ¬now > (b.packets ref).repairDeadline

namespace Books.Current

variable {b b' : Books} {now : Time}

theorem of_subset (h : b.Current now) (horder : b'.pendingOrder ⊆ b.pendingOrder)
    (hpackets : b'.packets = b.packets) : b'.Current now := by
  intro ref href
  rw [hpackets]
  exact h ref (horder href)

theorem send (h : b.Current now) (ref : PacketRef) (id : PathID)
    (lane : LaneCore) : (b.send now ref id lane).Current now := by
  intro ref' href'
  have hold := h ref' href'
  simp only [Books.send, Function.update_apply]
  split
  next heq =>
    subst heq
    exact hold
  next => exact hold

/-- A waiting packet that is within its queue deadline is within its repair
deadline once it is stamped. -/
theorem stamp (h : b.Current now) {ref : PacketRef} {c : Class}
    (hwaits : WaitsAs (b.packets ref) c)
    (hlate : ¬now > (b.packets ref).queueDeadline) :
    (b.stamp now ref).Current now := by
  have hself : ∀ seq order,
      ((b.packets ref).stamp now seq order).acked = false ∧
        ¬now > ((b.packets ref).stamp now seq order).repairDeadline := by
    intro seq order
    refine ⟨hwaits.acked, ?_⟩
    by_cases hc : c = .bulk
    · have hinteractive : (b.packets ref).interactive = false := by
        rw [hwaits.interactive, hc]
        rfl
      simp only [Packet.stamp, hinteractive, Bool.false_eq_true, if_false]
      exact not_lt.mpr (le_add_of_nonneg_right (by decide))
    have hinteractive : (b.packets ref).interactive = true := by
      rw [hwaits.interactive]
      exact decide_eq_true hc
    simp only [Packet.stamp, hinteractive, if_true]
    exact not_lt.mpr ((not_lt.mp hlate).trans (hwaits.deadline hc))
  intro ref' href'
  simp only [Books.stamp, Function.update_apply]
  split
  · exact hself _ _
  next hne =>
    rcases List.mem_append.mp href' with href' | href'
    · exact h ref' href'
    · exact absurd (List.mem_singleton.mp href') hne

end Books.Current

theorem PollMove.current {now : Time} {b b' : Books}
    (hmove : PollMove now b b') (hkept : b.Kept) (h : b.Current now) :
    b'.Current now := by
  obtain ⟨stamped, hkept⟩ := hkept
  cases hmove with
  | dropSmall => exact h
  | dropLate => exact h
  | dropManaged => exact h
  | @firstSmall c ref id lane hc hpeek hlate hlane =>
    have hwaits := hkept.queues.small c hc ref (Stock.mem_refs_of_peek hpeek)
    have hpop : (b.popSmall c).Current now := h
    exact (hpop.stamp hwaits hlate).send ref id lane
  | @firstBulk ref rest id lane hqueue hlate hlane =>
    have hwaits := hkept.queues.queue ref (by simp [hqueue])
    have hpop : ({ b with queue := rest } : Books).Current now := h
    exact (hpop.stamp hwaits hlate).send ref id lane
  | again => exact h.send _ _ _
  | settled horder hacked | expire horder hacked =>
    refine h.of_subset ?_ rfl
    intro ref href
    rw [horder]
    simp only [List.mem_append, List.mem_cons] at href ⊢
    tauto
  | keepalive => exact h
  | timeOut => exact h
  | forget => exact h

namespace Transport

variable {t : Transport}

theorem current_repair (h : t.books.Kept) (now : Time) :
    (t.repair now).1.books.Current now := by
  obtain ⟨hsame, hretained⟩ := @repairs_retained now t.pendingOrder t
    fun ref href => seq_ne_zero_of_kept h href
  intro ref href
  show ((repairs now t.pendingOrder t).1.packets ref).acked = false ∧
    ¬now > ((repairs now t.pendingOrder t).1.packets ref).repairDeadline
  rw [(hsame ref).acked, (hsame ref).repairDeadline]
  exact hretained ref href

theorem current_pollAt (h : t.books.Kept) (now : Time) (order : MapOrder) :
    (t.pollAt now order).1.books.Current now := by
  obtain ⟨u, out, hbefore, hmaintain⟩ := exists_before_repair order now t
  have hkept : u.books.Kept := hbefore.follows.kept h
  have hrepaired : (u.repair now).1.books.Kept := (follows_repair now u).kept hkept
  have hcurrent := current_repair hkept now
  rw [pollAt_eq, hmaintain]
  generalize u.repair now = r at hrepaired hcurrent ⊢
  have htrace := (turns_send order now r.1).follows hrepaired
  generalize r.1.send now = q at htrace ⊢
  refine (htrace.invariant
    (P := fun t : Transport => t.books.Kept ∧ t.books.Current now)
    (fun s es s' hs hstep => ⟨hstep.kept hs.1, ?_⟩)
    ⟨hrepaired, hcurrent⟩).2
  rcases hstep.books with heq | hmove
  · rw [heq]
    exact hs.2
  · exact hmove.current hs.1 hs.2

end Transport

/-- What a transport holds is bounded, with room that bulk datagrams cannot
take.  The pending packets are those of `pendingOrder` that are not
acknowledged, and after a `Poll` they are all within their deadline. -/
theorem retention_bounded (epoch : Epoch) (calls : List Call) :
    let t := Transport.run epoch calls
    t.queued + t.pending.entries.length ≤ 8192 ∧
      t.queue.length + t.bulkPending ≤ 7168 ∧
      (∀ c, c ≠ .bulk → t.small.realtime.count + t.small.small.count +
          (t.pending.entries.length - t.bulkPending) < 1024 →
        t.queued + t.pending.entries.length < Transport.admissionLimit c) ∧
      (∀ q ref, t.pending.lookup q = some ref ↔ ref ∈ t.pendingOrder ∧
        (t.packets ref).seq = q ∧ (t.packets ref).acked = false) ∧
      t.pendingOrder.Nodup ∧
      ∀ now order t' out, t.poll now order = (t', .ok out) →
        ∀ ref, (ref ∈ t'.pendingOrder ∨ ∃ q, t'.pending.lookup q = some ref) →
          (t'.packets ref).acked = false ∧
            now ≤ (t'.packets ref).repairDeadline := by
  intro t
  have hsound : t.books.Sound := Transport.sound_run epoch calls
  obtain ⟨stamped, hkept⟩ := hsound.kept
  have hbulk : t.queue.length + t.bulkPending ≤ 7168 := hkept.room.bulk
  refine ⟨hkept.room.total, hbulk, ?_, hkept.pending.pending,
    hkept.pending.order, ?_⟩
  · intro c hc hsmall
    rw [Transport.admissionLimit, if_neg hc]
    show t.queue.length + _ + _ + _ < 8192
    omega
  intro now order t' out hpoll ref href
  have hkept' : t'.books.Kept := by
    have := Transport.sound_apply hsound (.poll now order)
    simp only [Transport.apply, hpoll] at this
    exact this.kept
  have hcurrent : t'.books.Current now := by
    obtain ⟨e, herror⟩ | ⟨u, out', hu, hok, -⟩ :=
      Transport.poll_cases ⟨stamped, hkept⟩ now order
    · rw [hpoll] at herror
      cases herror
    rw [hpoll] at hok
    obtain rfl : t' = u := congrArg Prod.fst hok
    have hcurrent := @Transport.current_pollAt { t with lastTime := now }
      ⟨stamped, hkept⟩ now order
    rwa [hu] at hcurrent
  have hmem : ref ∈ t'.pendingOrder := by
    rcases href with href | ⟨q, hq⟩
    · exact href
    · obtain ⟨stamped', hkept'⟩ := hkept'
      exact ((hkept'.pending.pending q ref).mp hq).1
  obtain ⟨hacked, hlate⟩ := hcurrent ref hmem
  exact ⟨hacked, not_lt.mp hlate⟩

/-- A datagram is in one place.  It waits in the queue of its class, without a
sequence, or it is retained under a sequence of its own for repair; what is in
flight on a lane no longer waits. -/
theorem datagram_in_one_place (epoch : Epoch) (calls : List Call) :
    let t := Transport.run epoch calls
    (t.waiting + (t.pendingOrder : Multiset PacketRef)).Nodup ∧
      (∀ ref ∈ t.queue, WaitsAs (t.packets ref) .bulk) ∧
      (∀ c, c ≠ .bulk → ∀ ref ∈ (t.small.get c).refs,
        WaitsAs (t.packets ref) c) ∧
      (∀ ref ∈ t.pendingOrder, ∀ ref' ∈ t.pendingOrder,
        (t.packets ref).seq = (t.packets ref').seq → ref = ref') ∧
      ∀ id p k a ref, t.find id = some p → p.attempts.lookup k = some a →
        a.packet = some ref →
        0 < (t.packets ref).seq ∧ (t.packets ref).seq ≤ t.seq ∧
          ref ∉ t.waiting := by
  intro t
  obtain ⟨stamped, hkept⟩ := (Transport.sound_run epoch calls).kept
  have hpending := hkept.pending
  have hqueue : ∀ ref ∈ t.queue, WaitsAs (t.packets ref) .bulk :=
    hkept.queues.queue
  have hsmall := hkept.queues.small
  have hzero : ∀ ref ∈ t.waiting, (t.packets ref).seq = 0 := by
    intro ref href
    rcases Multiset.mem_add.mp href with href | href
    · rcases Multiset.mem_add.mp href with href | href
      · exact (hqueue ref href).seq
      · exact (hsmall .realtime (by decide) ref href).seq
    · exact (hsmall .small (by decide) ref href).seq
  have hapart : ∀ ref ∈ t.waiting, ref ∉ stamped := by
    intro ref href hmem
    have hpos : 0 < (t.packets ref).seq := (hpending.bounds ref hmem).2.1
    exact hpos.ne' (hzero ref href)
  refine ⟨?_, hqueue, hsmall, ?_, ?_⟩
  · refine Multiset.nodup_add.mpr ⟨hkept.queues.nodup, hpending.order, ?_⟩
    rw [Multiset.disjoint_left]
    exact fun href hmem => hapart _ href (hpending.known _ hmem)
  · exact fun ref href ref' href' => hpending.unique ref
      (hpending.known ref href) ref' (hpending.known ref' href')
  intro id p k a ref hfind ha hpacket
  have hmem : ref ∈ stamped := hkept.attempts id p.toLaneCore
    (Transport.books_lanes hfind) k a ref ha hpacket
  obtain ⟨-, hpos, hle⟩ := hpending.bounds ref hmem
  exact ⟨hpos, hle, fun href => hapart ref href hmem⟩

end Wanbond.Bond
