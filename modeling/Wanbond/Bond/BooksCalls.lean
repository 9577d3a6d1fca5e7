import Wanbond.Bond.PollTurns
import Wanbond.Bond.ReceiveTrace
import Wanbond.Bond.WindowAccounts

/-!
# The books after every call

Every call keeps the invariant of the books and the balance of the lanes, and
so does every run.  For `Poll` and `Receive` this follows from their moves; the
other calls write one lane, all lanes, or the queue that a datagram enters.
-/

namespace Wanbond.Bond

open Wanbond.Support

/-- The books are kept, and every lane is in balance. -/
structure Books.Sound (b : Books) : Prop where
  kept : b.Kept
  balanced : b.Balanced

/-! ## `Enqueue` -/

section Enqueue

variable {t : Transport} {stamped : List PacketRef}

/-- Counters are not part of the invariant. -/
theorem Books.Sound.counters {b : Books} (h : b.Sound) {k : Stock}
    (hqueue : k.queue = b.queue) (hsmall : k.small = b.small) :
    ({ b with toStock := k } : Books).Sound := by
  obtain ⟨⟨stamped, hids, hqueues, hpending, hattempts, hroom⟩, hbalanced⟩ := h
  have hwaiting : k.waiting = b.toStock.waiting := by
    simp only [Stock.waiting, hqueue, hsmall]
  have hqueued : k.queued = b.toStock.queued := by
    simp only [Stock.queued, hqueue, hsmall]
  refine ⟨⟨stamped, hids, ?_, hpending, hattempts, ?_⟩, hbalanced⟩
  · refine hqueues.of_le (le_of_eq hwaiting) ?_ ?_ ?_
    · exact fun c hc => hsmall ▸ hqueues.counted c hc
    · exact fun ref href => hqueue ▸ href
    · exact fun c _ ref href => hsmall ▸ href
  refine ⟨?_, ?_⟩
  · rw [hqueued]
    exact hroom.total
  · rw [hqueue]
    exact hroom.bulk

theorem Transport.sound_refuse (h : t.books.Sound) (c : Class) :
    (t.refuse c).books.Sound := by
  dsimp only [refuse]
  split
  · exact h.counters (k := { t.toStock with
      drops := t.drops + 1
      admissionDrops := t.admissionDrops + 1 }) rfl rfl
  exact h.counters (k := { t.toStock with
    drops := t.drops + 1
    admissionDrops := t.admissionDrops + 1
    interactiveDrops := t.interactiveDrops + 1
    smallQueueDrops := t.smallQueueDrops.modify c
      fun s => { s with admission := s.admission + 1 } }) rfl rfl

theorem Transport.newPacket_waits (t : Transport) (payload : Bytes)
    (metadata : PacketMetadata) (now : Time) :
    WaitsAs (t.newPacket payload metadata now)
      (t.newPacket payload metadata now).cls where
  seq := rfl
  acked := rfl
  cls := rfl
  interactive := rfl
  deadline hc := by
    have hdeadline : (t.newPacket payload metadata now).queueDeadline =
        now + maxQueueAge := if_neg hc
    rw [hdeadline]
    exact Int.add_le_add_left (by decide) now

theorem Transport.enterQueue_packets (t : Transport) (p : Packet) :
    (t.enterQueue p).packets = Function.update t.packets t.allocated p ∧
      (t.enterQueue p).allocated = t.allocated + 1 ∧
      (t.enterQueue p).books.lanes = t.books.lanes ∧
      (t.enterQueue p).books.ids = t.books.ids := by
  dsimp only [enterQueue]
  split <;> exact ⟨rfl, rfl, rfl, rfl⟩

theorem Transport.enterQueue_old {ref : PacketRef} (h : ref < t.allocated)
    (p : Packet) : (t.enterQueue p).packets ref = t.packets ref := by
  rw [(t.enterQueue_packets p).1]
  exact Function.update_of_ne (Nat.ne_of_lt h) _ _

theorem Transport.enterQueue_new (p : Packet) :
    (t.enterQueue p).packets t.allocated = p := by
  rw [(t.enterQueue_packets p).1, Function.update_self]

theorem Transport.enterQueue_cases (t : Transport) (p : Packet) :
    (p.cls = .bulk ∧ (t.enterQueue p).toStock =
      { t.toStock with queue := t.queue ++ [t.allocated] }) ∨
    (p.cls ≠ .bulk ∧ (t.enterQueue p).toStock = { t.toStock with
      small := t.small.set p.cls ((t.small.get p.cls).push
        (Function.update t.packets t.allocated p) t.allocated).2
      coalescedACKs := t.coalescedACKs + ((t.small.get p.cls).push
        (Function.update t.packets t.allocated p) t.allocated).1.toNat }) := by
  dsimp only [enterQueue]
  split
  next hbulk => exact Or.inl ⟨hbulk, rfl⟩
  next hsmall => exact Or.inr ⟨hsmall, rfl⟩

/-- The queues after a datagram has entered. -/
theorem Transport.queuesKept_enterQueue
    (h : QueuesKept t.packets t.allocated t.toStock) {p : Packet}
    (hwaits : WaitsAs p p.cls) :
    QueuesKept (t.enterQueue p).packets (t.enterQueue p).allocated
      (t.enterQueue p).toStock := by
  have hle : (t.enterQueue p).toStock.waiting ≤
      t.allocated ::ₘ t.toStock.waiting := t.waiting_enterQueue p
  have hfresh : t.allocated ∉ t.toStock.waiting :=
    fun hmem => (h.below _ hmem).ne rfl
  have hold : ∀ ref ∈ t.toStock.waiting,
      (t.enterQueue p).packets ref = t.packets ref :=
    fun ref href => enterQueue_old (h.below ref href) p
  have hnew : WaitsAs ((t.enterQueue p).packets t.allocated) p.cls := by
    rwa [enterQueue_new]
  have hnodup := Multiset.nodup_of_le hle
    (Multiset.nodup_cons.mpr ⟨hfresh, h.nodup⟩)
  have hbelow : ∀ ref ∈ (t.enterQueue p).toStock.waiting,
      ref < (t.enterQueue p).allocated := by
    intro ref href
    rw [(t.enterQueue_packets p).2.1]
    rcases Multiset.mem_cons.mp (Multiset.mem_of_le hle href) with rfl | href
    · exact Nat.lt_succ_self _
    · exact Nat.lt_succ_of_lt (h.below ref href)
  have hkept := h.congr hold
  rcases t.enterQueue_cases p with ⟨hbulk, hstock⟩ | ⟨hc, hstock⟩
  · rw [hbulk] at hnew
    rw [hstock] at hnodup hbelow ⊢
    refine ⟨h.counted, hnodup, hbelow, ?_, hkept.small⟩
    intro ref href
    rcases List.mem_append.mp href with href | href
    · exact hkept.queue ref href
    · rwa [List.mem_singleton.mp href]
  rw [hstock] at hnodup hbelow ⊢
  set q := t.small.get p.cls
  set heap := Function.update t.packets t.allocated p
  refine ⟨?_, hnodup, hbelow, hkept.queue, ?_⟩
  · intro d hd
    by_cases hdc : d = p.cls
    · rw [hdc, PerClass.get_set_self]
      exact ((h.counted p.cls hc).push heap t.allocated).1
    · rw [PerClass.get_set_ne _ hdc]
      exact h.counted d hd
  intro d hd ref href
  by_cases hdc : d = p.cls
  · rw [hdc, PerClass.get_set_self] at href
    rw [hdc]
    have hmem : ref ∈ t.allocated ::ₘ (q.refs : Multiset PacketRef) :=
      Multiset.mem_of_le (q.refs_push heap t.allocated)
        (Multiset.mem_coe.mpr href)
    rcases Multiset.mem_cons.mp hmem with rfl | hmem
    · exact hnew
    · exact hkept.small p.cls hc ref (Multiset.mem_coe.mp hmem)
  · rw [PerClass.get_set_ne _ hdc] at href
    exact hkept.small d hd ref href

/-- A datagram that enters is queued, or takes the place of another. -/
theorem Transport.queued_enterQueue
    (h : QueuesKept t.packets t.allocated t.toStock) (p : Packet) :
    (t.enterQueue p).toStock.queued + (t.enterQueue p).coalescedACKs =
        t.toStock.queued + t.coalescedACKs + 1 ∧
      (t.enterQueue p).queue.length =
        t.queue.length + if p.cls = .bulk then 1 else 0 := by
  rcases t.enterQueue_cases p with ⟨hbulk, hstock⟩ | ⟨hc, hstock⟩
  · rw [hstock, if_pos hbulk]
    refine ⟨?_, List.length_append⟩
    simp only [Stock.queued, List.length_append, List.length_singleton]
    omega
  have hcount := ((h.counted p.cls hc).push
    (Function.update t.packets t.allocated p) t.allocated).2
  rw [hstock, if_neg hc]
  refine ⟨?_, rfl⟩
  cases hcls : p.cls with
  | bulk => exact absurd hcls hc
  | realtime | small =>
    rw [hcls] at hcount
    simp only [Stock.queued, PerClass.get, PerClass.set] at hcount ⊢
    omega

theorem Transport.pendingKept_enterQueue (h : PendingKept t.toOutbound stamped)
    (p : Packet) : PendingKept (t.enterQueue p).toOutbound stamped := by
  have hout : (t.enterQueue p).toOutbound = { t.toOutbound with
      packets := (t.enterQueue p).packets
      allocated := t.allocated + 1 } := by
    dsimp only [enterQueue]
    split <;> rfl
  have hold : ∀ ref ∈ stamped, (t.enterQueue p).packets ref = t.packets ref :=
    fun ref href => enterQueue_old (h.bounds ref href).1 p
  rw [hout]
  constructor
  · intro ref href
    rw [hold ref href]
    obtain ⟨hlt, hbounds⟩ := h.bounds ref href
    exact ⟨Nat.lt_succ_of_lt hlt, hbounds⟩
  · intro ref href ref' href' heq
    rw [hold ref href, hold ref' href'] at heq
    exact h.unique ref href ref' href' heq
  · exact h.order
  · exact h.known
  intro q ref
  rw [h.pending]
  refine and_congr_right fun href => ?_
  rw [hold ref (h.known ref href)]

theorem PendingKept.stamped_of_lookup {o : Outbound}
    (h : PendingKept o stamped) {q : ℕ} {ref : PacketRef}
    (hlookup : o.pending.lookup q = some ref) : ref ∈ stamped :=
  h.known ref ((h.pending q ref).mp hlookup).1

theorem Transport.roomKept_enterQueue (h : t.books.KeptAs stamped) (p : Packet)
    (hroom : t.queued + t.pending.entries.length < admissionLimit p.cls) :
    RoomKept (t.enterQueue p).toOutbound (t.enterQueue p).toStock := by
  obtain ⟨hqueued, hlength⟩ := queued_enterQueue h.queues p
  have hpending : (t.enterQueue p).pending = t.pending := by
    dsimp only [enterQueue]
    split <;> rfl
  have hcoalesced : t.coalescedACKs ≤ (t.enterQueue p).coalescedACKs := by
    rcases t.enterQueue_cases p with ⟨-, hstock⟩ | ⟨-, hstock⟩
    · exact le_of_eq (congrArg Stock.coalescedACKs hstock).symm
    · exact (Nat.le_add_right _ _).trans
        (le_of_eq (congrArg Stock.coalescedACKs hstock).symm)
  have hbulk : (t.enterQueue p).toOutbound.bulkPending =
      t.toOutbound.bulkPending := by
    unfold Outbound.bulkPending
    rw [hpending]
    refine tally_congr fun q ref hlookup => ?_
    rw [enterQueue_old (h.pending.bounds ref
      (h.pending.stamped_of_lookup hlookup)).1]
  have hle : t.toOutbound.bulkPending ≤ t.pending.entries.length :=
    tally_le_length (fun ref => by split <;> omega) _
  have hheld : t.toStock.queued = t.queued := rfl
  have hqueue : t.queue.length ≤ t.queued := by
    unfold queued
    omega
  have hbound := h.room.bulk
  unfold admissionLimit at hroom
  constructor
  · rw [hpending]
    split at hroom <;> omega
  rw [hbulk, hlength]
  split at hroom
  next hc =>
    rw [if_pos hc]
    omega
  next hc =>
    rwa [if_neg hc]

/-- The classes of the packets that attempts carry stay. -/
theorem Transport.sound_enterQueue (h : t.books.Sound) {p : Packet}
    (hwaits : WaitsAs p p.cls)
    (hroom : t.queued + t.pending.entries.length < admissionLimit p.cls) :
    (t.enterQueue p).books.Sound := by
  obtain ⟨⟨stamped, hkept⟩, hbalanced⟩ := h
  obtain ⟨hpackets, hallocated, hlanes, hids⟩ := t.enterQueue_packets p
  constructor
  · refine ⟨stamped, ?_, ?_, ?_, ?_, ?_⟩
    · rw [hids]
      exact hkept.ids
    · exact queuesKept_enterQueue hkept.queues hwaits
    · exact pendingKept_enterQueue hkept.pending p
    · rw [hlanes]
      exact hkept.attempts
    · exact roomKept_enterQueue hkept p hroom
  intro id lane hlane
  rw [hlanes] at hlane
  have hold := hbalanced id lane hlane
  refine ⟨hold.inflight, fun c => ?_, hold.keys, hold.sent⟩
  rw [hold.classInflight c]
  refine tally_congr fun k a ha => ?_
  unfold Attempt.outstandingIn
  cases hpacket : a.packet with
  | none => rfl
  | some ref =>
    have href := hkept.attempts id lane hlane k a ref ha hpacket
    have hsame : (t.enterQueue p).books.packets ref = t.books.packets ref :=
      enterQueue_old (hkept.pending.bounds ref href).1 p
    simp only [hsame]

/-- `Enqueue` rejects, refuses or queues the datagram. -/
theorem Transport.enqueue_cases (t : Transport) (payload : Bytes)
    (metadata : PacketMetadata) (now : Time) :
    (∃ e, (t.enqueue payload metadata now).2 = .error e ∧
      (t.enqueue payload metadata now).1.books = t.books) ∨
    ((t.enqueue payload metadata now).2 = .ok () ∧ ∃ u : Transport,
      u.books = t.books ∧
      ((∃ c, (t.enqueue payload metadata now).1 = u.refuse c) ∨
        ∃ p, WaitsAs p p.cls ∧
          u.queued + u.pending.entries.length < admissionLimit p.cls ∧
          (t.enqueue payload metadata now).1 = u.enterQueue p)) := by
  unfold enqueue
  obtain ⟨e, htime⟩ | ⟨-, htime⟩ := t.checkTime_cases now
  · rw [htime]
    exact Or.inl ⟨_, rfl, rfl⟩
  rw [htime]
  dsimp only
  split
  · exact Or.inl ⟨_, rfl, rfl⟩
  split
  · exact Or.inr ⟨rfl, { t with lastTime := now }, rfl, Or.inl ⟨_, rfl⟩⟩
  next hroom =>
    exact Or.inr ⟨rfl, { t with lastTime := now }, rfl, Or.inr ⟨_,
      newPacket_waits _ payload metadata now, not_le.mp hroom, rfl⟩⟩

theorem Transport.sound_enqueue (h : t.books.Sound) (payload : Bytes)
    (metadata : PacketMetadata) (now : Time) :
    (t.enqueue payload metadata now).1.books.Sound := by
  obtain ⟨e, -, hbooks⟩ | ⟨-, u, hu, hcase⟩ :=
    t.enqueue_cases payload metadata now
  · rwa [hbooks]
  rw [← hu] at h
  rcases hcase with ⟨c, hrefuse⟩ | ⟨p, hwaits, hroom, henter⟩
  · rw [hrefuse]
    exact sound_refuse h c
  · rw [henter]
    exact sound_enterQueue h hwaits hroom

end Enqueue

/-! ## Lanes and epochs -/

section Lanes

variable {t : Transport}

/-- A lane that records no attempt. -/
structure LaneCore.Idle (lane : LaneCore) : Prop where
  attempts : lane.attempts = ∅
  inflight : lane.inflight = 0
  classInflight : lane.classInflight = .const 0
  acked : lane.acked ≤ lane.sent

theorem LaneCore.Idle.balanced {lane : LaneCore} (h : lane.Idle)
    (cls : PacketRef → Class) : lane.Balanced cls where
  inflight := by
    rw [h.inflight, h.attempts, tally_empty]
  classInflight c := by
    rw [h.classInflight, h.attempts, tally_empty, PerClass.get_const]
  keys k a ha := by
    rw [h.attempts] at ha
    cases ha
  sent := by
    rw [h.attempts, tally_empty]
    exact h.acked

theorem LaneCore.Idle.carriesStamped {lane : LaneCore} (h : lane.Idle)
    (stamped : List PacketRef) : CarriesStamped stamped lane := by
  intro k a ref ha
  rw [h.attempts] at ha
  cases ha

theorem Transport.sound_lease (h : t.books.Sound) {p : Lane}
    (hfind : t.find p.id = some p) (lease : Time) :
    (t.setLane { p with lease := lease }).books.Sound := by
  obtain ⟨⟨stamped, hkept⟩, hbalanced⟩ := h
  have hlane := books_lanes hfind
  have hbooks : (t.setLane { p with lease := lease }).books =
      t.books.setLane p.id { p.toLaneCore with lease := lease } :=
    @books_setLane t { p with lease := lease } p hfind
  rw [hbooks]
  constructor
  · exact ⟨stamped, hkept.setLane _ ((hkept.attempts _ _ hlane).of_eq rfl)⟩
  · refine hbalanced.write rfl ?_ fun _ => rfl
    exact (hbalanced _ _ hlane).of_same ⟨rfl, rfl, rfl, rfl, rfl, rfl⟩

/-- A new lane is added. -/
theorem Transport.sound_addLane (h : t.books.Sound) {p : Lane}
    (hnone : t.find p.id = none) (hidle : p.toLaneCore.Idle) :
    ({ t with paths := t.paths ++ [p] } : Transport).books.Sound := by
  obtain ⟨⟨stamped, hkept⟩, hbalanced⟩ := h
  have hlanes : ∀ id lane, ({ t with paths := t.paths ++ [p] } :
      Transport).books.lanes id = some lane →
      t.books.lanes id = some lane ∨ lane = p.toLaneCore := by
    intro id lane hlane
    obtain ⟨q, hq, rfl⟩ := Option.map_eq_some_iff.mp hlane
    rcases Keyed.lookup_append_singleton hq with hold | ⟨-, rfl, -⟩
    · exact Or.inl (books_lanes hold)
    · exact Or.inr rfl
  constructor
  · refine ⟨stamped, ?_, hkept.queues, hkept.pending, ?_, hkept.room⟩
    · have hnew : p.id ∉ t.paths.map fun q => q.id :=
        Keyed.lookup_eq_none_iff.mp hnone
      have hids := hkept.ids
      simp only [books, List.map_append, List.map_cons, List.map_nil] at hids ⊢
      refine List.nodup_append.mpr ⟨hids, List.nodup_singleton _, ?_⟩
      rintro a ha b hb rfl
      rw [List.mem_singleton] at hb
      exact hnew (hb ▸ ha)
    · intro id lane hlane
      rcases hlanes id lane hlane with hold | rfl
      · exact hkept.attempts id lane hold
      · exact hidle.carriesStamped stamped
  · intro id lane hlane
    rcases hlanes id lane hlane with hold | rfl
    · exact hbalanced id lane hold
    · exact hidle.balanced _

theorem Transport.sound_path (h : t.books.Sound) (id remoteID : PathID)
    (rtt : Duration) (now : Time) :
    (t.path id remoteID rtt now).1.books.Sound := by
  unfold path
  obtain ⟨e, htime⟩ | ⟨-, htime⟩ := t.checkTime_cases now
  · rwa [htime]
  rw [htime]
  dsimp only
  split
  next p hfind =>
    obtain rfl := id_of_find hfind
    exact @sound_lease { t with lastTime := now } h p hfind now
  next hfind =>
    refine @sound_addLane { t with lastTime := now } h _ hfind ?_
    exact ⟨rfl, rfl, rfl, le_rfl⟩

theorem Transport.sound_disable (h : t.books.Sound) (id : PathID) :
    (t.disable id).books.Sound := by
  unfold disable
  split
  next p hfind =>
    obtain rfl := id_of_find hfind
    exact sound_lease h hfind 0
  next => exact h

theorem Transport.idle_resetLane {p : Lane}
    (hacked : p.acked ≤ p.sent) : (resetLane p).toLaneCore.Idle := by
  dsimp only [resetLane]
  split
  · exact ⟨rfl, rfl, rfl, hacked⟩
  · exact ⟨rfl, rfl, rfl, hacked⟩

theorem Transport.idle_of_reset (h : t.books.Sound) {id : PathID}
    {lane : LaneCore}
    (hlane : (Keyed.lookup (fun q : Lane => q.id) id
      (t.paths.map resetLane)).map Lane.toLaneCore = some lane) :
    lane.Idle := by
  rw [find_resetLane] at hlane
  cases hfind : t.find id with
  | none =>
    rw [hfind] at hlane
    cases hlane
  | some p =>
    rw [hfind] at hlane
    rw [← Option.some.inj hlane]
    refine idle_resetLane ?_
    exact (Nat.le_add_right _ _).trans
      (h.balanced id _ (books_lanes hfind)).sent

theorem Transport.sound_setRemote (h : t.books.Sound) (epoch : Epoch)
    (adopted : Bool) : (t.setRemote epoch adopted).1.books.Sound := by
  unfold setRemote
  split
  next haccept =>
    obtain ⟨stamped, hkept⟩ := h.kept
    have hqueues := hkept.queues
    constructor
    · refine ⟨[], ?_, ⟨hqueues.counted, hqueues.nodup, hqueues.below,
        hqueues.queue, hqueues.small⟩, ?_, ?_, ?_⟩
      · have hids := hkept.ids
        simp only [books, List.map_map] at hids ⊢
        rwa [show (fun p : Lane => p.id) ∘ resetLane = fun p => p.id from
          funext resetLane_id]
      · exact ⟨by simp, by simp, List.nodup_nil, by simp [books],
          by simp [books]⟩
      · exact fun id lane hlane => (idle_of_reset h hlane).carriesStamped []
      · exact ⟨(Nat.le_add_right _ _).trans hkept.room.total,
          (Nat.le_add_right _ _).trans hkept.room.bulk⟩
    · exact fun id lane hlane => (idle_of_reset h hlane).balanced _
  next => exact h

end Lanes

/-! ## Runs -/

section Runs

variable {t : Transport}

theorem PollStep.sound {now : Time} {t t' : Transport}
    {out : List Transmission} (hstep : PollStep now t out t')
    (h : t.books.Sound) : t'.books.Sound := by
  refine ⟨hstep.kept h.kept, ?_⟩
  rcases hstep.books with heq | hmove
  · rw [heq]
    exact h.balanced
  · exact hmove.balanced h.balanced

theorem Receives.sound {b b' : Books} (hmoves : Receives b b') (h : b.Sound) :
    b'.Sound := by
  obtain ⟨⟨stamped, hkept⟩, hbalanced⟩ := h
  refine ⟨⟨stamped, hmoves.keptAs hkept⟩, ?_⟩
  induction hmoves with
  | refl => exact hbalanced
  | tail _ hmove ih => exact hmove.balanced ih

/-- A `Poll` that is not rejected is a trace. -/
theorem Transport.poll_cases (h : t.books.Kept) (now : Time)
    (order : MapOrder) :
    (∃ e, t.poll now order = (t, .error e)) ∨
    ∃ t' out,
      ({ t with lastTime := now } : Transport).pollAt now order = (t', out) ∧
      t.poll now order = (t', .ok out) ∧
      Trace (PollStep now) { t with lastTime := now } out t' := by
  unfold poll
  obtain ⟨e, htime⟩ | ⟨-, htime⟩ := t.checkTime_cases now
  · rw [htime]
    exact Or.inl ⟨e, rfl⟩
  rw [htime]
  dsimp only
  have htrace :=
    (turns_pollAt order now { t with lastTime := now }).follows h
  generalize ({ t with lastTime := now } : Transport).pollAt now order = r
    at htrace ⊢
  exact Or.inr ⟨r.1, r.2, rfl, rfl, htrace⟩

theorem Transport.sound_apply (h : t.books.Sound) (call : Call) :
    (t.apply call).books.Sound := by
  cases call with
  | enqueue payload metadata now => exact sound_enqueue h payload metadata now
  | poll now order =>
    obtain ⟨e, hpoll⟩ | ⟨t', out, -, hpoll, htrace⟩ :=
      poll_cases h.kept now order
    · simp only [apply, hpoll]
      exact h
    · simp only [apply, hpoll]
      exact htrace.invariant (P := fun t : Transport => t.books.Sound)
        (fun _ _ _ hs hstep => hstep.sound hs) h
  | receive path frame now order =>
    exact (receives_receive t path frame now order).sound h
  | path id remoteID rtt now => exact sound_path h id remoteID rtt now
  | disable id => exact sound_disable h id
  | setRemote epoch adopted => exact sound_setRemote h epoch adopted

theorem Transport.sound_new (epoch : Epoch) : (new epoch).books.Sound := by
  have hlanes : ∀ id lane, (new epoch).books.lanes id ≠ some lane := nofun
  have hempty : ∀ c, (((new epoch).toStock.small).get c).refs = [] := by
    intro c
    cases c <;> rfl
  refine ⟨⟨[], List.nodup_nil, ?_, ?_, ?_, ?_⟩, ?_⟩
  · refine ⟨?_, ?_, ?_, nofun, ?_⟩
    · intro c _
      cases c <;> rfl
    · exact Multiset.nodup_zero
    · exact fun ref href => absurd href (Multiset.notMem_zero ref)
    · intro c _ ref href
      rw [show (new epoch).books.toStock = (new epoch).toStock from rfl,
        hempty c] at href
      cases href
  · exact ⟨nofun, nofun, List.nodup_nil, nofun, by simp [books, new]⟩
  · exact fun id lane hlane => absurd hlane (hlanes id lane)
  · exact ⟨Nat.zero_le _, Nat.zero_le _⟩
  · exact fun id lane hlane => absurd hlane (hlanes id lane)

theorem Transport.sound_run (epoch : Epoch) (calls : List Call) :
    (run epoch calls).books.Sound :=
  run_induction (P := fun t => t.books.Sound) epoch (sound_new epoch)
    (fun _ call h => sound_apply h call) calls

end Runs

end Wanbond.Bond
