import Wanbond.Bond.TransmitInvariant

/-!
# The invariant over repairs and the queues

The loops of `Poll` that send datagrams: repairs of pending packets, then the
queues of the three classes.  `Grown` is what each turn of the queue loops
does: some packets are stamped, at the end of `pendingOrder`, and frames leave.
-/

namespace Wanbond.Bond

open Wanbond.Support

variable {datagrams : List (Bytes × PacketMetadata)}

/-! ## Repairs -/

section Repair

variable {t : Transport} {s : Stint} {ref : PacketRef}

theorem StateOk.transmit_again (h : StateOk t s datagrams)
    (href : ∃ st ∈ s.stamps, st.ref = ref) {path : Lane}
    (hfind : t.find path.id = some path) (now : Time) :
    StateOk (t.transmit now ref path).1
      (s.extend [] [(t.transmit now ref path).2]) datagrams ∧
    (t.transmit now ref path).1.pendingOrder = t.pendingOrder := by
  obtain ⟨st, hst, rfl⟩ := href
  have hpos := (h.outbound.seq_bounds h.stamps hst).1
  have hne : (t.packets st.ref).seq ≠ 0 := by
    rw [(h.outbound.stamped st hst).seq]
    omega
  have heq : t.transmit now st.ref path = t.sendPacket now st.ref path := by
    simp only [Transport.transmit, hne, if_false]
  rw [heq]
  exact ⟨h.sendPacket hst hfind now, rfl⟩

theorem Transport.find_repairLane
    (hids : (t.paths.map fun p => p.id).Nodup) {now : Time} {p : Packet}
    {path : Lane} (h : t.repairLane now p = some path) :
    t.find path.id = some path := by
  dsimp only [repairLane] at h
  split at h
  next moved hmoved =>
    cases h
    unfold movedLane at hmoved
    split at hmoved
    · exact Transport.find_chooseLane hids hmoved
    · cases hmoved
  next =>
    split at h
    · cases h
    split at h
    next hsome =>
      cases h
      exact Transport.find_chooseLane hids hsome
    next =>
      split at h
      · exact Transport.find_chooseLane hids h
      · cases h

theorem StateOk.erasePending (h : StateOk t s datagrams) (q : ℕ) :
    StateOk { t with pending := t.pending.erase q } s datagrams :=
  { h with outbound := h.outbound.erasePending q }

theorem StateOk.repairTurn (h : StateOk t s datagrams)
    (href : ∃ st ∈ s.stamps, st.ref = ref) (now : Time) :
    StateOk (t.repairTurn now ref).1
      (s.extend [] (t.repairTurn now ref).2.1) datagrams ∧
    (t.repairTurn now ref).1.pendingOrder = t.pendingOrder := by
  dsimp only [Transport.repairTurn]
  split
  · exact ⟨h.erasePending _, rfl⟩
  split
  · exact ⟨(h.erasePending _).quiet
      ⟨rfl, rfl, rfl, rfl, rfl, rfl, rfl, le_rfl⟩, rfl⟩
  split
  · exact ⟨h, rfl⟩
  next path hpath =>
    exact h.transmit_again href (Transport.find_repairLane h.ids hpath) now

theorem StateOk.repairs (now : Time) (refs : List PacketRef) :
    ∀ {t : Transport} {s : Stint}, StateOk t s datagrams →
      (∀ ref ∈ refs, ∃ st ∈ s.stamps, st.ref = ref) →
      StateOk (Transport.repairs now refs t).1
        (s.extend [] (Transport.repairs now refs t).2.1) datagrams ∧
      (Transport.repairs now refs t).2.2 ⊆ refs := by
  induction refs with
  | nil =>
    intro t s h _
    exact ⟨h, List.Subset.refl _⟩
  | cons ref _ ih =>
    intro t s h hrefs
    obtain ⟨hturn, -⟩ := h.repairTurn (hrefs ref List.mem_cons_self) now
    obtain ⟨hrest, hsub⟩ := ih hturn fun r hr => by
      simpa [Stint.extend] using hrefs r (List.mem_cons_of_mem _ hr)
    rw [Stint.extend_extend] at hrest
    refine ⟨hrest, ?_⟩
    simp only [Transport.repairs]
    split
    · exact List.cons_subset_cons ref hsub
    · exact List.subset_cons_of_subset ref hsub

theorem StateOk.repair (h : StateOk t s datagrams) (now : Time) :
    StateOk (t.repair now).1 (s.extend [] (t.repair now).2) datagrams ∧
      (t.repair now).1.pendingOrder ⊆ t.pendingOrder := by
  obtain ⟨hrun, hsub⟩ := h.repairs now t.pendingOrder h.outbound.pendingOrder
  refine ⟨?_, hsub⟩
  have hout := hrun.outbound
  refine { hrun with outbound := { hout with pendingOrder := ?_ } }
  intro ref href
  simpa [Stint.extend] using h.outbound.pendingOrder ref (hsub href)

end Repair

/-! ## The queues -/

/-- Some packets are stamped and frames leave. -/
def Grown (datagrams : List (Bytes × PacketMetadata)) (t : Transport)
    (s : Stint) (t' : Transport) (out : List Transmission) : Prop :=
  ∃ new, StateOk t' (s.extend new out) datagrams ∧
    t'.pendingOrder = t.pendingOrder ++ new.reverse.map Stamp.ref

theorem Grown.of_quiet {t t' : Transport} {s : Stint}
    (h : StateOk t s datagrams) (hq : t.Quiet t') :
    Grown datagrams t s t' [] := by
  refine ⟨[], h.quiet hq, ?_⟩
  rw [hq.outbound]
  simp

theorem Grown.trans {t₁ t₂ t₃ : Transport} {s : Stint}
    {out₁ out₂ : List Transmission} (h : Grown datagrams t₁ s t₂ out₁)
    (h' : ∀ s', StateOk t₂ s' datagrams → Grown datagrams t₂ s' t₃ out₂) :
    Grown datagrams t₁ s t₃ (out₁ ++ out₂) := by
  obtain ⟨new, hok, hpending⟩ := h
  obtain ⟨new', hok', hpending'⟩ := h' _ hok
  refine ⟨new' ++ new, ?_, ?_⟩
  · rwa [← Stint.extend_extend]
  · rw [hpending', hpending]
    simp

section Queues

variable {t : Transport} {s : Stint} {ref : PacketRef} {path : Lane}

/-- A datagram leaves its queue and is transmitted for the first time. -/
theorem StateOk.original {t₀ : Transport} (h₀ : StateOk t₀ s datagrams)
    (hpop : t₀.Quiet t) (hwait : ref ::ₘ t.waiting = t₀.waiting)
    (hfind : t.find path.id = some path) (now : Time) :
    StateOk (t.transmit now ref path).1
      (s.extend [t.nextStamp ref] [(t.transmit now ref path).2]) datagrams ∧
    (t.transmit now ref path).1.pendingOrder = t₀.pendingOrder ++ [ref] := by
  have hmem : ref ∈ t₀.waiting := by
    rw [← hwait]
    exact Multiset.mem_cons_self ref _
  have hnotin : ref ∉ t.waiting := by
    have := h₀.outbound.nodup
    rw [← hwait, Multiset.nodup_cons] at this
    exact this.1
  have hfresh := h₀.outbound.fresh ref hmem
  rw [← hpop.outbound] at hfresh
  refine ⟨(h₀.quiet hpop).transmit_original hfresh hnotin hfind now, ?_⟩
  rw [Transport.transmit_original_pendingOrder hfresh, hpop.outbound]

/-- The copy of a datagram that has just been transmitted. -/
theorem StateOk.sendCopy (h : StateOk t s datagrams)
    (href : ∃ st ∈ s.stamps, st.ref = ref) (now : Time) (c : Class) (size : ℕ)
    (first : PathID) :
    StateOk (t.sendCopy now c ref size first).1
      (s.extend [] (t.sendCopy now c ref size first).2) datagrams ∧
    (t.sendCopy now c ref size first).1.pendingOrder = t.pendingOrder := by
  dsimp only [Transport.sendCopy]
  split
  · split
    · exact ⟨h, rfl⟩
    next second hsecond =>
      have hfind := Transport.find_chooseLane h.ids hsecond
      split
      · exact h.transmit_again href hfind now
      have hquiet : t.Quiet { t with
          redundancyTokens := t.redundancyTokens - size } :=
        ⟨rfl, rfl, rfl, rfl, rfl, rfl, rfl, le_rfl⟩
      exact (h.quiet hquiet).transmit_again href hfind now
  · exact ⟨h, rfl⟩

/-- One turn of the loop over a small class. -/
theorem StateOk.sendSmallTurn (h : StateOk t s datagrams) {c : Class}
    (hc : c ≠ .bulk) (hpeek : (t.small.get c).peek = some ref) (now : Time) :
    Grown datagrams t s (t.sendSmallTurn now c ref).1
      (t.sendSmallTurn now c ref).2.1 := by
  obtain ⟨hquiet, hsmall⟩ := t.quiet_givesUp now c (t.packets ref)
  dsimp only [Transport.sendSmallTurn]
  set u := (t.givesUp now c (t.packets ref)).1 with hu
  have hpeek' : (u.small.get c).peek = some ref := by
    rwa [hsmall]
  have hpop := Transport.quiet_popSmall hc hpeek'
  split
  · exact .of_quiet h ((hquiet.trans hpop).trans
      (Transport.quiet_dropSmall _ c _))
  split
  · exact .of_quiet h hquiet
  next path hpath =>
    have hfind := Transport.find_chooseLane (h.quiet hquiet).ids hpath
    obtain ⟨hsent, hpending⟩ := (h.quiet hquiet).original hpop
      (Transport.waiting_popSmall hc hpeek') hfind now
    have href : ∃ st ∈ (s.extend [(u.popSmall c).nextStamp ref]
        [((u.popSmall c).transmit now ref path).2]).stamps, st.ref = ref :=
      ⟨_, List.mem_cons_self, rfl⟩
    obtain ⟨hcopy, hsame⟩ := hsent.sendCopy href now c
      (t.packets ref).wireBytes path.id
    rw [Stint.extend_extend] at hcopy
    refine ⟨[(u.popSmall c).nextStamp ref], hcopy, ?_⟩
    rw [hquiet.outbound] at hpending
    exact hsame.trans hpending

theorem StateOk.sendSmall (now : Time) {c : Class} (hc : c ≠ .bulk) (fuel : ℕ) :
    ∀ {t : Transport} {s : Stint}, StateOk t s datagrams →
      Grown datagrams t s (Transport.sendSmall now c fuel t).1
        (Transport.sendSmall now c fuel t).2 := by
  induction fuel with
  | zero =>
    intro t s h
    exact .of_quiet h (.refl t)
  | succ _ ih =>
    intro t s h
    unfold Transport.sendSmall
    split
    · exact .of_quiet h (.refl t)
    next ref hpeek =>
      have hturn := h.sendSmallTurn hc hpeek now
      dsimp only
      split
      · exact hturn.trans fun s' hs' => ih hs'
      · exact hturn

@[simp] theorem Transport.transmit_queue (now : Time) :
    (t.transmit now ref path).1.queue = t.queue := by
  unfold Transport.transmit
  split
  · simp only [Transport.sendPacket, Transport.setLane, Transport.setPacket,
      Transport.stampPacket, Transport.countOriginal]
    split
    · split <;> rfl
    · split <;> rfl
  · rfl

theorem Transport.queue_sendBulkTurn {rest : List PacketRef}
    (hqueue : t.queue = ref :: rest) (now : Time)
    (hmore : (t.sendBulkTurn now ref rest).2.2 = true) :
    (t.sendBulkTurn now ref rest).1.queue = rest := by
  obtain ⟨-, -, -, hrest⟩ :=
    Transport.quiet_popBulk hqueue now (t.packets ref)
  dsimp only [Transport.sendBulkTurn] at hmore ⊢
  split at hmore
  next hlate => rw [if_pos hlate]
  next hlate =>
    rw [if_neg hlate]
    split at hmore
    · cases hmore
    next path hpath =>
      split
      · exact hrest
      · rw [Transport.transmit_queue, hrest]

/-- One turn of the loop over the bulk queue. -/
theorem StateOk.sendBulkTurn (h : StateOk t s datagrams)
    {rest : List PacketRef} (hqueue : t.queue = ref :: rest) (now : Time) :
    Grown datagrams t s (t.sendBulkTurn now ref rest).1
      (t.sendBulkTurn now ref rest).2.1 := by
  obtain ⟨hquiet, hwaiting, hpaths, -⟩ :=
    Transport.quiet_popBulk hqueue now (t.packets ref)
  dsimp only [Transport.sendBulkTurn]
  split
  · exact .of_quiet h ((Transport.quiet_dropBulk hqueue).trans
      ⟨rfl, rfl, rfl, rfl, rfl, rfl, rfl, le_rfl⟩)
  split
  · exact .of_quiet h (.refl t)
  next path hpath =>
    split
    · exact .of_quiet h
        (hquiet.trans ⟨rfl, rfl, rfl, rfl, rfl, rfl, rfl, le_rfl⟩)
    have hfind : (t.popBulk now (t.packets ref) rest).1.find path.id =
        some path := by
      unfold Transport.find
      rw [hpaths]
      exact Transport.find_chooseLane h.ids hpath
    obtain ⟨hsent, hpending⟩ := h.original hquiet hwaiting hfind now
    exact ⟨_, hsent, hpending⟩

theorem StateOk.sendBulk (now : Time) (queue : List PacketRef) :
    ∀ {t : Transport} {s : Stint}, StateOk t s datagrams → t.queue = queue →
      Grown datagrams t s (Transport.sendBulk now queue t).1
        (Transport.sendBulk now queue t).2 := by
  induction queue with
  | nil =>
    intro t s h _
    exact .of_quiet h (.refl t)
  | cons _ _ ih =>
    intro t s h hqueue
    have hturn := h.sendBulkTurn hqueue now
    have hrest := Transport.queue_sendBulkTurn hqueue now
    dsimp only [Transport.sendBulk]
    split
    next hmore => exact hturn.trans fun s' hs' => ih hs' (hrest hmore)
    next => exact hturn

theorem StateOk.send (h : StateOk t s datagrams) (now : Time) :
    Grown datagrams t s (t.send now).1 (t.send now).2 := by
  dsimp only [Transport.send]
  refine Grown.trans ?_ fun s' hs' => hs'.sendBulk now _ rfl
  refine Grown.trans ?_ fun s' hs' => hs'.sendSmall now (by decide) _
  exact (Grown.of_quiet h t.quiet_endBacklog).trans fun s' hs' =>
    hs'.sendSmall now (by decide) _

end Queues

end Wanbond.Bond
