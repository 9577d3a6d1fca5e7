import Wanbond.Bond.QueueInvariant
import Wanbond.Bond.ReportInvariant

/-!
# The invariant over `Poll`

The stages of `Poll` one after the other.  The packets that `Poll` stamped are
those at the end of `pendingOrder`, which is how the history names them.
-/

namespace Wanbond.Bond

open Wanbond.Support

variable {datagrams : List (Bytes × PacketMetadata)}

/-- A loop whose turns keep the invariant and the packets keeps both. -/
theorem StateOk.forEach {κ : Type}
    {turn : Transport → κ → Transport × List Transmission}
    (hturn : ∀ {t : Transport} {s : Stint} (key : κ), StateOk t s datagrams →
      StateOk (turn t key).1 (s.extend [] (turn t key).2) datagrams ∧
        (turn t key).1.toOutbound = t.toOutbound) (keys : List κ) :
    ∀ {t : Transport} {s : Stint}, StateOk t s datagrams →
      StateOk (Transport.forEach turn keys t).1
        (s.extend [] (Transport.forEach turn keys t).2) datagrams ∧
      (Transport.forEach turn keys t).1.toOutbound = t.toOutbound := by
  induction keys with
  | nil =>
    intro t s h
    exact ⟨h, rfl⟩
  | cons key _ ih =>
    intro t s h
    obtain ⟨hone, hout⟩ := hturn key h
    obtain ⟨hrest, hout'⟩ := ih hone
    rw [Stint.extend_extend] at hrest
    exact ⟨hrest, hout'.trans hout⟩

theorem Transport.service_toOutbound (t : Transport) (now : Time)
    (order : MapOrder) (id : PathID) :
    (t.service now order id).1.toOutbound = t.toOutbound := by
  unfold service
  split
  · rfl
  · dsimp only
    split <;> rfl

section Poll

variable {t : Transport} {s : Stint}

theorem StateOk.clock (h : StateOk t s datagrams) {now : Time}
    (hnow : t.lastTime ≤ now) : StateOk { t with lastTime := now } s datagrams :=
  { h with
    inbound := { h.inbound with
      receiver := fun lane r hr =>
        { h.inbound.receiver lane r hr with
          clock := (h.inbound.receiver lane r hr).clock.trans hnow } } }

/-- The stages before the queues stamp no packet. -/
theorem StateOk.maintain (h : StateOk t s datagrams) (now : Time)
    (order : MapOrder) :
    StateOk (t.maintain now order).1 (s.extend [] (t.maintain now order).2)
      datagrams ∧
    (t.maintain now order).1.pendingOrder ⊆ t.pendingOrder := by
  have h₀ := h.quiet (t.quiet_refillTokens now)
  obtain ⟨h₁, hout₁⟩ := h₀.forEach
    (fun lane hs => hs.acknowledge now lane)
    ((t.refillTokens now).receivers.map Receiver.remoteLane)
  set acks := Transport.forEach (fun t lane => t.acknowledge now lane)
    ((t.refillTokens now).receivers.map Receiver.remoteLane)
    (t.refillTokens now) with hacks
  obtain ⟨h₂, hout₂⟩ := h₁.forEach
    (fun id hs => ⟨hs.service now order id,
      Transport.service_toOutbound _ now order id⟩)
    (acks.1.paths.map fun p => p.id)
  set pings := Transport.forEach (fun t id => t.service now order id)
    (acks.1.paths.map fun p => p.id) acks.1 with hpings
  have hreserve := Transport.quiet_reserve h₂.ids now
  obtain ⟨h₃, hsub⟩ := (h₂.quiet hreserve).repair now
  rw [Stint.extend_extend, Stint.extend_extend, ← List.append_assoc] at h₃
  refine ⟨h₃, ?_⟩
  rwa [hreserve.outbound, hout₂, hout₁] at hsub

/-- The stamps given between two states, recovered from the later one. -/
theorem newStamps_eq {t' : Transport} {new : List Stamp}
    {out : List Transmission} {kept : List PacketRef}
    (h : StateOk t s datagrams) (h' : StateOk t' (s.extend new out) datagrams)
    (hkept : kept ⊆ t.pendingOrder)
    (hpending : t'.pendingOrder = kept ++ new.reverse.map Stamp.ref) :
    newStamps t t' = new := by
  have hstamps : (s.extend new out).stamps = new ++ s.stamps := by
    simp [Stint.extend]
  have hstamped : ∀ st ∈ new ++ s.stamps, StampedAs (t'.packets st.ref) st :=
    hstamps ▸ h'.outbound.stamped
  have hold : ∀ ref ∈ kept, ¬t.seq < (t'.packets ref).seq := by
    intro ref href
    obtain ⟨st, hst, rfl⟩ := h.outbound.pendingOrder ref (hkept href)
    rw [(hstamped st (List.mem_append_right _ hst)).seq]
    have := (h.outbound.seq_bounds h.stamps hst).2
    omega
  have hnew : ∀ st ∈ new, t.seq < (t'.packets st.ref).seq := by
    intro st hst
    rw [(hstamped st (List.mem_append_left _ hst)).seq, h.outbound.seq]
    have hnum := h'.stamps.seqs
    rw [hstamps, List.map_append] at hnum
    have := hnum.lt_of_mem_append (List.mem_map_of_mem hst)
    rwa [List.length_map] at this
  have hfilter : (t'.pendingOrder.filter fun ref =>
      decide (t.seq < (t'.packets ref).seq)) = new.reverse.map Stamp.ref := by
    rw [hpending, List.filter_append, List.filter_eq_nil_iff.mpr (by simpa using hold),
      List.nil_append, List.filter_eq_self]
    intro ref href
    obtain ⟨st, hst, rfl⟩ := List.mem_map.mp href
    simpa using hnew st (List.mem_reverse.mp hst)
  have hstampOf : ∀ st ∈ new, stampOf t'.packets st.ref = st := by
    intro st hst
    have := hstamped st (List.mem_append_left _ hst)
    simp only [stampOf, this.seq, this.order, this.payload]
  rw [newStamps, hfilter, List.map_map, ← List.map_reverse, List.reverse_reverse]
  exact (List.map_congr_left hstampOf).trans (List.map_id new)

theorem Transport.pollAt_eq (t : Transport) (now : Time) (order : MapOrder) :
    t.pollAt now order = (((t.maintain now order).1.send now).1,
      (t.maintain now order).2 ++ ((t.maintain now order).1.send now).2) := by
  unfold Transport.pollAt
  rcases t.maintain now order with ⟨u, out⟩
  rcases hsend : u.send now with ⟨v, sent⟩
  simp only [hsend]

theorem StateOk.pollAt (h : StateOk t s datagrams) (now : Time)
    (order : MapOrder) :
    StateOk (t.pollAt now order).1
      (s.extend (newStamps t (t.pollAt now order).1) (t.pollAt now order).2)
      datagrams := by
  obtain ⟨hmaintain, hsub⟩ := h.maintain now order
  obtain ⟨new, hsend, hpending⟩ := hmaintain.send now
  rw [Stint.extend_extend, List.append_nil] at hsend
  have hnew := newStamps_eq h hsend hsub hpending
  rw [Transport.pollAt_eq]
  dsimp only
  rwa [hnew]

end Poll

end Wanbond.Bond
