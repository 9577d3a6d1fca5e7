import Wanbond.Bond.Invariant

/-!
# Steps the invariant does not see

`Quiet t t'` says that a step leaves alone what the invariant reads: packets,
receipts, the cores of lanes, epochs and the clock.  Packets may leave a queue.  The
scheduler's own work is of this kind: tokens, reservations, drop schedules and
counters.
-/

namespace Wanbond.Bond

open Wanbond.Support

variable {t : Transport}

namespace Transport

structure Quiet (t t' : Transport) : Prop where
  epoch : t'.epoch = t.epoch
  remote : t'.remote = t.remote
  clock : t'.lastTime = t.lastTime
  outbound : t'.toOutbound = t.toOutbound
  inbound : t'.toInbound = t.toInbound
  core : t'.core = t.core
  ids : (t'.paths.map fun p => p.id) = t.paths.map fun p => p.id
  waiting : t'.waiting ≤ t.waiting

namespace Quiet

theorem refl (t : Transport) : Quiet t t :=
  ⟨rfl, rfl, rfl, rfl, rfl, rfl, rfl, le_rfl⟩

theorem trans {t₁ t₂ t₃ : Transport} (h : Quiet t₁ t₂) (h' : Quiet t₂ t₃) :
    Quiet t₁ t₃ where
  epoch := h'.epoch.trans h.epoch
  remote := h'.remote.trans h.remote
  clock := h'.clock.trans h.clock
  outbound := h'.outbound.trans h.outbound
  inbound := h'.inbound.trans h.inbound
  core := h'.core.trans h.core
  ids := h'.ids.trans h.ids
  waiting := h'.waiting.trans h.waiting

theorem wire {t' : Transport} (h : Quiet t t') : t'.wire = t.wire :=
  wire_of_core h.core

end Quiet

variable {p : Lane}

theorem quiet_setLane {q : Lane} (h : t.find p.id = some q)
    (heq : p.toLaneCore = q.toLaneCore) : Quiet t (t.setLane p) where
  epoch := rfl
  remote := rfl
  clock := rfl
  outbound := rfl
  inbound := rfl
  core := core_setLane_of_eq h heq
  ids := t.setLane_ids p
  waiting := le_rfl

theorem quiet_refillTokens (t : Transport) (now : Time) :
    Quiet t (t.refillTokens now) :=
  ⟨rfl, rfl, rfl, rfl, rfl, rfl, rfl, le_rfl⟩

theorem quiet_stale (t : Transport) (now : Time) (head : Packet) :
    Quiet t (t.stale now head).1 := by
  unfold stale
  split
  · exact ⟨rfl, rfl, rfl, rfl, rfl, rfl, rfl, le_rfl⟩
  · split
    · exact Quiet.refl t
    · exact ⟨rfl, rfl, rfl, rfl, rfl, rfl, rfl, le_rfl⟩

theorem quiet_givesUp (t : Transport) (now : Time) (c : Class) (p : Packet) :
    Quiet t (t.givesUp now c p).1 ∧ (t.givesUp now c p).1.small = t.small := by
  unfold givesUp
  split
  · exact ⟨Quiet.refl t, rfl⟩
  split
  · refine ⟨quiet_stale t now p, ?_⟩
    unfold stale
    split
    · rfl
    · split <;> rfl
  · exact ⟨Quiet.refl t, rfl⟩

theorem quiet_endBacklog (t : Transport) : Quiet t t.endBacklog := by
  unfold endBacklog
  split
  · exact ⟨rfl, rfl, rfl, rfl, rfl, rfl, rfl, le_rfl⟩
  · exact Quiet.refl t

theorem quiet_dropSmall (t : Transport) (c : Class) (expired : Bool) :
    Quiet t (t.dropSmall c expired) :=
  ⟨rfl, rfl, rfl, rfl, rfl, rfl, rfl, le_rfl⟩

theorem quiet_countOriginal (t : Transport) (now : Time) (ref : PacketRef)
    (path : PathID) : Quiet t (t.countOriginal now ref path) := by
  dsimp only [countOriginal]
  split
  · split <;> exact ⟨rfl, rfl, rfl, rfl, rfl, rfl, rfl, le_rfl⟩
  · split <;> exact ⟨rfl, rfl, rfl, rfl, rfl, rfl, rfl, le_rfl⟩

theorem quiet_refuse (t : Transport) (c : Class) : Quiet t (t.refuse c) := by
  dsimp only [refuse]
  split <;> exact ⟨rfl, rfl, rfl, rfl, rfl, rfl, rfl, le_rfl⟩

/-! ## Queues -/

variable {ref : PacketRef}

theorem refs_pop {q : FairPacketQueue} (h : q.peek = some ref) :
    ref ::ₘ (q.pop.refs : Multiset PacketRef) = q.refs := by
  unfold FairPacketQueue.peek at h
  unfold FairPacketQueue.pop FairPacketQueue.refs
  cases hflows : q.flows with
  | nil => simp [hflows] at h
  | cons flow =>
    rw [hflows] at h
    obtain ⟨tail, htail⟩ : ∃ tail, flow.packets = ref :: tail := by
      cases hp : flow.packets with
      | nil => simp [hp] at h
      | cons x tail =>
        simp only [hp, List.head?_cons, Option.some.injEq] at h
        exact ⟨tail, by rw [h]⟩
    simp only [htail, List.tail_cons, List.flatMap_cons]
    cases tail with
    | nil => simp
    | cons =>
      simp only [List.isEmpty_cons, Bool.false_eq_true, if_false,
        List.flatMap_append, List.flatMap_cons, List.flatMap_nil,
        List.append_nil]
      rw [Multiset.cons_coe, Multiset.coe_eq_coe]
      exact List.Perm.cons ref List.perm_append_comm

theorem waiting_popSmall {c : Class} (hc : c ≠ .bulk)
    (h : (t.small.get c).peek = some ref) :
    ref ::ₘ (t.popSmall c).waiting = t.waiting := by
  cases c with
  | bulk => exact absurd rfl hc
  | realtime =>
    have hpop := refs_pop h
    simp only [PerClass.get] at hpop
    simp only [waiting, popSmall, PerClass.modify, PerClass.get, PerClass.set]
    rw [← hpop, Multiset.add_cons, Multiset.cons_add]
  | small =>
    have hpop := refs_pop h
    simp only [PerClass.get] at hpop
    simp only [waiting, popSmall, PerClass.modify, PerClass.get, PerClass.set]
    rw [← hpop, Multiset.add_cons]

theorem quiet_popSmall {c : Class} (hc : c ≠ .bulk)
    (h : (t.small.get c).peek = some ref) : Quiet t (t.popSmall c) := by
  refine ⟨rfl, rfl, rfl, rfl, rfl, rfl, rfl, ?_⟩
  rw [← waiting_popSmall hc h]
  exact Multiset.le_cons_self _ _

variable {rest : List PacketRef}

theorem waiting_dropBulk (h : t.queue = ref :: rest) :
    ref ::ₘ ({ t with queue := rest } : Transport).waiting = t.waiting := by
  simp only [waiting, h, ← Multiset.cons_coe, Multiset.cons_add]

theorem quiet_dropBulk (h : t.queue = ref :: rest) :
    Quiet t { t with queue := rest } := by
  refine ⟨rfl, rfl, rfl, rfl, rfl, rfl, rfl, ?_⟩
  rw [← waiting_dropBulk h]
  exact Multiset.le_cons_self _ _

theorem quiet_popBulk (h : t.queue = ref :: rest) (now : Time) (p : Packet) :
    Quiet t (t.popBulk now p rest).1 ∧
      ref ::ₘ (t.popBulk now p rest).1.waiting = t.waiting ∧
      (t.popBulk now p rest).1.paths = t.paths ∧
      (t.popBulk now p rest).1.queue = rest := by
  have hquiet := quiet_dropBulk h
  dsimp only [popBulk]
  split
  · exact ⟨hquiet, waiting_dropBulk h, rfl, rfl⟩
  · exact ⟨hquiet.trans ⟨rfl, rfl, rfl, rfl, rfl, rfl, rfl, le_rfl⟩,
      waiting_dropBulk h, rfl, rfl⟩

/-! ## Reservation -/

/-- A lane without its shares. -/
def unshared (p : Lane) :
    LaneCore × LaneVolume × LaneTiming × LaneTransit × LaneTarget :=
  (p.toLaneCore, p.toLaneVolume, p.toLaneTiming, p.toLaneTransit,
    p.toLaneTarget)

/-- The lanes under reservation, without the shares it writes. -/
def slotLanes (slots : List Slot) :
    List (LaneCore × LaneVolume × LaneTiming × LaneTransit × LaneTarget) :=
  slots.map fun slot => unshared slot.lane

variable (now : Time)

theorem slotLanes_assignClass (c : Class) (g : Option ℕ) (bulkWaiting : Bool)
    (slots : List Slot) :
    ∀ i need, slotLanes (assignClass now c g bulkWaiting i need slots) =
      slotLanes slots := by
  induction slots with
  | nil =>
    intro i need
    rfl
  | cons _ _ ih =>
    intro i need
    dsimp only [assignClass]
    split
    · simp only [slotLanes, List.map_cons, List.cons.injEq, true_and]
      exact ih (i + 1) need
    · simp only [slotLanes, List.map_cons, List.cons.injEq]
      exact ⟨rfl, ih (i + 1) _⟩

theorem slotLanes_guaranteeNext (next : Class) (g : Option ℕ)
    (slots : List Slot) :
    slotLanes (guaranteeNext next g slots) = slotLanes slots := by
  cases g with
  | none => rfl
  | some i =>
    apply List.ext_getElem?
    intro j
    rw [slotLanes, slotLanes, guaranteeNext, List.getElem?_map,
      List.getElem?_modify, List.getElem?_map]
    cases slots[j]? with
    | none => rfl
    | some =>
      simp only [Option.map_some]
      split <;> rfl

theorem slotLanes_reserveClass (c next : Class) (demand : ℚ)
    (bulkWaiting : Bool) (slots : List Slot) :
    slotLanes (reserveClass now c next demand bulkWaiting slots) =
      slotLanes slots := by
  unfold reserveClass
  rw [slotLanes_guaranteeNext, slotLanes_assignClass]

theorem slotLanes_reserveCopies (budget : ℚ) (slots : List Slot) :
    slotLanes (reserveCopies budget now slots) = slotLanes slots := by
  dsimp only [reserveCopies]
  split
  · rfl
  · simp [slotLanes, unshared]

theorem slotLanes_markBulkElsewhere (slots : List Slot) :
    slotLanes (markBulkElsewhere now slots) = slotLanes slots := by
  simp [slotLanes, unshared, markBulkElsewhere]

theorem slotLanes_reserveSlots (budget realtime small : ℚ) (bulkWaiting : Bool)
    (slots : List Slot) :
    slotLanes (reserveSlots budget now realtime small bulkWaiting slots) =
      slotLanes slots := by
  unfold reserveSlots
  rw [slotLanes_reserveClass, slotLanes_markBulkElsewhere,
    slotLanes_reserveCopies, slotLanes_reserveClass]

theorem core_map {f : Lane → Lane}
    (hf : ∀ p ∈ t.paths, (f p).toLaneCore = p.toLaneCore) :
    ({ t with paths := t.paths.map f } : Transport).core = t.core := by
  funext id
  obtain ⟨g, hg, hmap⟩ : ∃ g : Lane → Lane,
      (∀ p, (g p).toLaneCore = p.toLaneCore) ∧ t.paths.map f = t.paths.map g := by
    classical
    refine ⟨fun p => if p ∈ t.paths then f p else p, ?_, ?_⟩
    · intro p
      dsimp only
      split
      next hp => exact hf p hp
      next => rfl
    · exact List.map_congr_left fun p hp => by simp [hp]
  have hid : ∀ p, (g p).id = p.id := fun p => congrArg (fun c : LaneCore => c.id) (hg p)
  simp only [core, find, hmap]
  rw [Keyed.lookup_map hid, Option.map_map]
  congr 1
  funext p
  exact hg p

theorem ids_map {f : Lane → Lane}
    (hf : ∀ p ∈ t.paths, (f p).toLaneCore = p.toLaneCore) :
    ((t.paths.map f).map fun p => p.id) = t.paths.map fun p => p.id := by
  rw [List.map_map]
  exact List.map_congr_left fun p hp => congrArg (fun c : LaneCore => c.id) (hf p hp)

/-- Reservation writes shares only: each lane stays as it was without them. -/
theorem reserve_eq (hids : (t.paths.map fun p => p.id).Nodup) (now : Time) :
    ∃ f : Lane → Lane, (∀ p ∈ t.paths, unshared (f p) = unshared p) ∧
      ∃ demand, t.reserve now = { t with
        paths := t.paths.map f
        demand := demand } := by
  dsimp only [reserve, reserveWithin]
  set clear := clearReservation (decide (t.queue.length > 0))
  have hclear : ∀ p, unshared (clear p) = unshared p := fun _ => rfl
  set u : Transport := { t with paths := t.paths.map clear } with hu
  have huids : (u.paths.map fun p => p.id).Nodup := by
    rwa [hu, List.map_map]
  set lanes := (u.paths.filter fun p => p.eligible .realtime now).insertionSort
    fun a b => a.latency ≤ b.latency with hlanes
  split
  · exact ⟨clear, fun p _ => hclear p, t.demand, rfl⟩
  set slots : List Slot := lanes.map fun p => ⟨p, p.rate⟩ with hslots
  set final := reserveSlots (u.copyBudget now) now (u.demand.realtime.rate now)
    (u.demand.small.rate now) (decide (t.queue.length > 0)) slots with hfinal
  have hfinal' : slotLanes final = lanes.map unshared := by
    rw [hfinal, slotLanes_reserveSlots, hslots]
    simp [slotLanes]
  set written : Lane → Lane := fun p =>
    ((Keyed.lookup (fun slot : Slot => slot.lane.id) p.id final).map
      Slot.lane).getD p with hwrite
  -- the slot found for a lane holds that lane, since identifiers differ
  have hwritten : ∀ p ∈ u.paths, unshared (written p) = unshared p := by
    intro p hp
    rw [hwrite]
    dsimp only
    cases hslot : Keyed.lookup (fun slot : Slot => slot.lane.id) p.id final with
    | none => rfl
    | some slot =>
      have hmem : unshared slot.lane ∈ slotLanes final :=
        List.mem_map_of_mem (Keyed.mem_of_lookup hslot)
      rw [hfinal'] at hmem
      obtain ⟨q, hq, heq⟩ := List.mem_map.mp hmem
      have hq' : q ∈ u.paths :=
        List.mem_of_mem_filter ((List.perm_insertionSort _ _).mem_iff.mp hq)
      have hid : q.id = p.id := by
        rw [← @Keyed.key_of_lookup _ _ _ (fun slot : Slot => slot.lane.id)
          _ _ _ hslot]
        exact congrArg (fun parts => parts.1.id) heq
      have hqp : q = p := List.inj_on_of_nodup_map huids hq' hp hid
      subst hqp
      simpa using heq.symm
  refine ⟨written ∘ clear, fun p hp => ?_, _, by rw [List.map_map]⟩
  exact (hwritten _ (List.mem_map_of_mem hp)).trans (hclear p)

theorem quiet_reserve (hids : (t.paths.map fun p => p.id).Nodup) (now : Time) :
    Quiet t (t.reserve now) := by
  obtain ⟨f, hf, demand, heq⟩ := reserve_eq hids now
  have hcore : ∀ p ∈ t.paths, (f p).toLaneCore = p.toLaneCore :=
    fun p hp => congrArg Prod.fst (hf p hp)
  rw [heq]
  exact ⟨rfl, rfl, rfl, rfl, rfl, core_map hcore, ids_map hcore, le_rfl⟩

/-! ## Choice of a lane -/

theorem mem_of_foldl_earlier {now : Time} {l : List Lane} {best : Option Lane}
    (h : l.foldl (earlier now) best = some p) : p ∈ l ∨ best = some p := by
  induction l generalizing best with
  | nil => exact Or.inr h
  | cons q l ih =>
    rcases ih h with hmem | hbest
    · exact Or.inl (List.mem_cons_of_mem _ hmem)
    unfold earlier at hbest
    split at hbest
    · left
      rw [← Option.some.inj hbest]
      exact List.mem_cons_self
    split at hbest
    · left
      rw [← Option.some.inj hbest]
      exact List.mem_cons_self
    · exact Or.inr hbest

theorem find_chooseLane (hids : (t.paths.map fun p => p.id).Nodup) {now : Time}
    {c : Class} {size : ℕ} {exclude : PathID} {avoid : Bool} {p : Lane}
    (h : t.chooseLane now c size exclude avoid = some p) :
    t.find p.id = some p := by
  rcases mem_of_foldl_earlier h with hmem | hnone
  · exact @Keyed.lookup_of_mem _ _ _ (fun q : Lane => q.id) _ _ hids
      (List.mem_of_mem_filter hmem)
  · cases hnone

end Transport

/-! ## The invariant over quiet steps -/

variable {datagrams : List (Bytes × PacketMetadata)}

theorem OutboundOk.of_le {o : Outbound} {W W' : Multiset PacketRef}
    {stamps : List Stamp} (h : OutboundOk o W stamps datagrams)
    (hle : W' ≤ W) : OutboundOk o W' stamps datagrams :=
  { h with
    nodup := Multiset.nodup_of_le hle h.nodup
    fresh := fun ref href => h.fresh ref (Multiset.mem_of_le hle href) }

theorem StateOk.quiet {t' : Transport} {s : Stint} (h : StateOk t s datagrams)
    (hq : t.Quiet t') : StateOk t' s datagrams where
  own := hq.epoch.trans h.own
  peer := hq.remote.trans h.peer
  log := by
    rw [hq.epoch, hq.remote]
    exact h.log
  stamps := h.stamps
  outbound := by
    rw [hq.outbound]
    exact h.outbound.of_le hq.waiting
  sent := h.sent
  acked := by
    rw [hq.outbound]
    exact h.acked
  lanes := by
    rw [hq.wire]
    exact h.lanes
  ids := by
    rw [hq.ids]
    exact h.ids
  inbound := by
    rw [hq.inbound, hq.clock]
    exact h.inbound

end Wanbond.Bond
