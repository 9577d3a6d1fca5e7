import Wanbond.Bond.BooksMoves

/-!
# The trace of a Poll

`Poll` as a sequence of steps.  Each step makes one move in the books or none,
and sends one frame or none.

Where the source keeps a lane in a local variable, or rewrites `pendingOrder`
in place, the states of the trace have it written already.
-/

namespace Wanbond.Bond

open Wanbond.Support

/-! ## Steps -/

/-- The packet sequence that a frame carries, or 0. -/
def Control.packetSeq (f : Control) : ℕ :=
  match f.body with
  | .data _ (some fields) => fields.seq
  | _ => 0

/-- A first transmission takes the next sequence and carries it; every other
frame carries a sequence given out before, or none. -/
inductive PollStep (now : Time) :
    Transport → List Transmission → Transport → Prop
  | idle {t t' : Transport} (hbooks : t'.books = t.books) :
      PollStep now t [] t'
  | move {t t' : Transport} (hmove : PollMove now t.books t'.books)
      (hseq : t'.seq = t.seq) : PollStep now t [] t'
  | first {t t' : Transport} {sent : Transmission}
      (hmove : PollMove now t.books t'.books) (hseq : t'.seq = t.seq + 1)
      (hcarries : sent.frame.packetSeq = t.seq + 1) : PollStep now t [sent] t'
  | again {t t' : Transport} {sent : Transmission}
      (hmove : t'.books = t.books ∨ PollMove now t.books t'.books)
      (hseq : t'.seq = t.seq) (hcarries : sent.frame.packetSeq ≤ t.seq) :
      PollStep now t [sent] t'

variable {out : List Transmission}

theorem PollStep.books {now : Time} {t t' : Transport}
    (hstep : PollStep now t out t') :
    t'.books = t.books ∨ PollMove now t.books t'.books := by
  cases hstep with
  | idle hbooks => exact Or.inl hbooks
  | move hmove | first hmove => exact Or.inr hmove
  | again hmove => exact hmove

theorem PollStep.kept {now : Time} {t t' : Transport}
    (hstep : PollStep now t out t') (h : t.books.Kept) : t'.books.Kept := by
  rcases hstep.books with heq | hmove
  · rwa [heq]
  · obtain ⟨stamped, h⟩ := h
    obtain ⟨stamped', -, h'⟩ := hmove.keptAs h
    exact ⟨stamped', h'⟩

/-- What leads from `t` to the result `r` is a trace. -/
def Follows (now : Time) (t : Transport)
    (r : Transport × List Transmission) : Prop :=
  t.books.Kept → Trace (PollStep now) t r.2 r.1

namespace Follows

variable {now : Time} {t t' : Transport} {sent : Transmission}

theorem kept {r : Transport × List Transmission} (h : Follows now t r)
    (ht : t.books.Kept) : r.1.books.Kept :=
  (h ht).invariant (P := fun t : Transport => t.books.Kept)
    (fun _ _ _ hs hstep => hstep.kept hs) ht

theorem refl (t : Transport) : Follows now t (t, []) := fun _ => .refl t

theorem idle (hbooks : t'.books = t.books) : Follows now t (t', []) :=
  fun _ => .single (.idle hbooks)

theorem move (hmove : PollMove now t.books t'.books) (hseq : t'.seq = t.seq) :
    Follows now t (t', []) :=
  fun _ => .single (.move hmove hseq)

theorem first (hmove : PollMove now t.books t'.books)
    (hseq : t'.seq = t.seq + 1) (hcarries : sent.frame.packetSeq = t.seq + 1) :
    Follows now t (t', [sent]) :=
  fun _ => .single (.first hmove hseq hcarries)

theorem again (hmove : t'.books = t.books ∨ PollMove now t.books t'.books)
    (hseq : t'.seq = t.seq) (hcarries : sent.frame.packetSeq ≤ t.seq) :
    Follows now t (t', [sent]) :=
  fun _ => .single (.again hmove hseq hcarries)

theorem trans {r : Transport × List Transmission} (h : Follows now t r)
    (h' : Follows now r.1 (t', out)) : Follows now t (t', r.2 ++ out) :=
  fun ht => (h ht).trans (h' (h.kept ht))

end Follows

/-! ## Books of the operations -/

namespace Lane

variable (p : Lane) (heap : PacketHeap)

@[simp] theorem release_toLaneCore (a : Attempt) :
    (p.release heap a).toLaneCore = p.toLaneCore.release heap a := by
  unfold release LaneCore.release
  cases a.packet <;> rfl

theorem clear_toLaneCore (a : Attempt) :
    (if a.released then p else p.release heap a).toLaneCore =
      p.toLaneCore.clear heap a := by
  unfold LaneCore.clear
  split
  · rfl
  · exact p.release_toLaneCore heap a

@[simp] theorem putAttempt_toLaneCore (k : ℕ) (a : Attempt) :
    (p.putAttempt k a).toLaneCore = p.toLaneCore.put k a := rfl

@[simp] theorem forget_toLaneCore (k : ℕ) :
    (p.forget k).toLaneCore = p.toLaneCore.forget k := rfl

theorem recordAttempt_toLaneCore (now : Time) (ref : PacketRef) :
    (p.recordAttempt now ref (heap ref)).toLaneCore =
      p.toLaneCore.attempt heap (some ref) now (heap ref).wireBytes := by
  unfold recordAttempt beginAttempt
  by_cases hidle : p.seq = p.receivedHigh
  · rw [if_pos hidle]
    rfl
  · rw [if_neg hidle]
    rfl

theorem recordKeepalive_toLaneCore (now : Time) :
    (p.recordKeepalive now).toLaneCore =
      p.toLaneCore.attempt heap none now wireOverhead := by
  unfold recordKeepalive beginAttempt
  by_cases hidle : p.seq = p.receivedHigh
  · rw [if_pos hidle]
    rfl
  · rw [if_neg hidle]
    rfl

end Lane

namespace Transport

variable {t : Transport}

theorem books_setLane {p q : Lane} (h : t.find p.id = some q) :
    (t.setLane p).books = t.books.setLane p.id p.toLaneCore := by
  simp only [books, Books.setLane, core_setLane h, setLane_ids]
  rfl

theorem books_setLane_of_eq {p q : Lane} (h : t.find p.id = some q)
    (heq : p.toLaneCore = q.toLaneCore) : (t.setLane p).books = t.books := by
  simp only [books, core_setLane_of_eq h heq, setLane_ids]
  rfl

theorem books_setLane_again {p p' q : Lane} (h : t.find p.id = some q)
    (hid : p'.id = p.id) :
    (t.setLane p').books = (t.setLane p).books.setLane p.id p'.toLaneCore := by
  have hself : (t.setLane p).find p'.id = some p := by
    rw [hid]
    exact find_setLane_self h
  rw [← t.setLane_setLane hid, books_setLane hself, hid]

theorem books_lanes {id : PathID} {p : Lane} (h : t.find id = some p) :
    t.books.lanes id = some p.toLaneCore :=
  core_eq_some h

variable {path q : Lane}

theorem books_sendPacket (h : t.find path.id = some q) (now : Time)
    (ref : PacketRef) :
    (t.sendPacket now ref path).1.books =
      t.books.send now ref path.id path.toLaneCore := by
  have hid := path.recordAttempt_id now ref (t.packets ref)
  have hfind : t.find (path.recordAttempt now ref (t.packets ref)).id =
      some q := by
    rwa [hid]
  have hlanes := core_setLane hfind
  rw [hid, path.recordAttempt_toLaneCore t.packets now ref] at hlanes
  refine Books.eq_of_parts ?_ rfl hlanes (setLane_ids t _)
  simp only [books, sendPacket, setPacket, setLane, Books.send, Books.setLane,
    Lane.recordAttempt_id, Lane.recordAttempt_seq]
  rfl

theorem books_countOriginal (now : Time) (ref : PacketRef) (id : PathID) :
    (t.countOriginal now ref id).books = t.books ∧
      (t.countOriginal now ref id).paths = t.paths := by
  dsimp only [countOriginal]
  split <;> split <;> exact ⟨rfl, rfl⟩

/-- The first transmission of a packet. -/
theorem books_transmit_first (h : t.find path.id = some q) (now : Time)
    {ref : PacketRef} (hseq : (t.packets ref).seq = 0) :
    (t.transmit now ref path).1.books =
      (t.books.stamp now ref).send now ref path.id path.toLaneCore := by
  obtain ⟨hcount, hpaths⟩ := t.books_countOriginal now ref path.id
  have hstamp : ((t.countOriginal now ref path.id).stampPacket now ref).books =
      t.books.stamp now ref := by
    rw [← hcount]
    rfl
  have hfind : ((t.countOriginal now ref path.id).stampPacket now ref).find
      path.id = some q := by
    rw [← h]
    exact congrArg (Keyed.lookup (fun p : Lane => p.id) path.id) hpaths
  simp only [transmit, hseq, if_true]
  rw [← hstamp]
  exact @books_sendPacket _ (countOnLane (t.packets ref).cls path) q hfind now
    ref

theorem books_transmit_again (h : t.find path.id = some q) (now : Time)
    {ref : PacketRef} (hseq : (t.packets ref).seq ≠ 0) :
    (t.transmit now ref path).1.books =
      t.books.send now ref path.id path.toLaneCore := by
  simp only [transmit, hseq, if_false]
  exact books_sendPacket h now ref

end Transport

/-! ## Acknowledgements and the service of lanes -/

section Stages

variable {t : Transport} (now : Time)

theorem follows_acknowledge (t : Transport) (lane : PathID) :
    Follows now t (t.acknowledge now lane) := by
  unfold Transport.acknowledge
  split
  · exact .refl t
  next r hr =>
    split
    · exact .refl t
    next path hpath =>
      split
      · exact .refl t
      next hdown =>
        split
        · dsimp only
          have hid := Transport.id_of_find hpath
          have hfind : t.find path.id = some path := by
            rwa [hid]
          split
          · refine Follows.again (Or.inl ?_) rfl (Nat.zero_le _)
            exact @Transport.books_setLane_of_eq (t.setReceiver _)
              (Transport.feedbackLane path now) path hfind rfl
          · exact .idle rfl
        · exact .refl t

theorem follows_setLane {p p' q : Lane} (hfind : t.find p.id = some q)
    (hid : p'.id = p.id)
    (hmove : ∀ b : Books, b.packets = t.packets →
      b.lanes p.id = some p.toLaneCore →
      PollMove now b (b.setLane p.id p'.toLaneCore)) :
    Follows now (t.setLane p) (t.setLane p', []) := by
  refine Follows.move ?_ rfl
  rw [Transport.books_setLane_again hfind hid]
  exact hmove _ rfl (Transport.books_lanes (Transport.find_setLane_self hfind))

theorem Lane.id_of_core {p p' : Lane} (h : p'.toLaneCore = p.toLaneCore) :
    p'.id = p.id := congrArg (fun c : LaneCore => c.id) h

/-- One turn of the loop over a lane's attempts. -/
theorem follows_expireAttempt {path q : Lane} (hfind : t.find path.id = some q)
    (seq : ℕ) :
    (Transport.expireAttempt t.packets now path seq).id = path.id ∧
    Follows now (t.setLane path)
      (t.setLane (Transport.expireAttempt t.packets now path seq), []) := by
  unfold Transport.expireAttempt
  split
  · exact ⟨rfl, .refl _⟩
  next a ha =>
    have htimeout : (Transport.timeOut t.packets now path seq a).1.id = path.id ∧
        (Transport.timeOut t.packets now path seq a).1.attempts.lookup seq =
          some (Transport.timeOut t.packets now path seq a).2 ∧
        Follows now (t.setLane path)
          (t.setLane (Transport.timeOut t.packets now path seq a).1, []) := by
      unfold Transport.timeOut
      split
      next hlate =>
        have hreleased : a.released = false := by
          cases hr : a.released with
          | false => rfl
          | true => simp [hr] at hlate
        have hid : ((path.release t.packets a).putAttempt seq
            { a with released := true }).id = path.id := by
          exact (congrArg LaneWire.id (path.release_toLaneWire t.packets a) :)
        refine ⟨hid, ?_, follows_setLane now hfind hid fun b hb hlane => ?_⟩
        · exact AList.lookup_insert _
        · rw [Lane.putAttempt_toLaneCore, Lane.release_toLaneCore, ← hb]
          exact .timeOut hlane ha hreleased
      next => exact ⟨rfl, ha, .refl _⟩
    obtain ⟨hid, ha', hfollows⟩ := htimeout
    dsimp only
    generalize Transport.timeOut t.packets now path seq a = r at hid ha' hfollows ⊢
    split
    · have hclear := r.1.clear_toLaneCore t.packets r.2
      have hid' : ((if r.2.released then r.1 else
          r.1.release t.packets r.2).forget seq).id = r.1.id := by
        exact (congrArg LaneWire.id (r.1.clear_toLaneWire t.packets r.2) :)
      refine ⟨hid'.trans hid, hfollows.trans ?_⟩
      refine follows_setLane now (q := q) (by rw [hid]; exact hfind) hid'
        fun b hb hlane => ?_
      rw [Lane.forget_toLaneCore, hclear, ← hb]
      exact .forget hlane ha'
    · exact ⟨hid, hfollows⟩

theorem follows_expireAttempts {path q : Lane}
    (hfind : t.find path.id = some q) (order : MapOrder) :
    (Transport.expireAttempts t.packets now order path).id = path.id ∧
    Follows now (t.setLane path)
      (t.setLane (Transport.expireAttempts t.packets now order path), []) := by
  unfold Transport.expireAttempts
  generalize order.keys .expire path.id path.attempts.keys = keys
  induction keys generalizing path with
  | nil => exact ⟨rfl, .refl _⟩
  | cons k _ ih =>
    obtain ⟨hid, hturn⟩ := follows_expireAttempt now hfind k
    have hfind' : t.find (Transport.expireAttempt t.packets now path k).id =
        some q := by rw [hid]; exact hfind
    obtain ⟨hid', hrest⟩ := ih hfind'
    exact ⟨hid'.trans hid, hturn.trans hrest⟩

theorem follows_service (t : Transport) (order : MapOrder) (id : PathID) :
    Follows now t (t.service now order id) := by
  unfold Transport.service
  split
  · exact .refl t
  next path hpath =>
    dsimp only
    obtain rfl : path.id = id := Transport.id_of_find hpath
    have hrebase : (Transport.rebase path now).toLaneCore = path.toLaneCore := by
      unfold Transport.rebase
      split <;> rfl
    have hid := Lane.id_of_core hrebase
    have hfind : t.find (Transport.rebase path now).id = some path := by
      rwa [hid]
    obtain ⟨hid', hexpire⟩ := follows_expireAttempts now hfind order
    have hwrite : Follows now t (t.setLane (Transport.expireAttempts t.packets now
        order (Transport.rebase path now)), []) := by
      refine (Follows.idle ?_).trans hexpire
      exact Transport.books_setLane_of_eq hfind hrebase
    generalize Transport.expireAttempts t.packets now order
      (Transport.rebase path now) = p at hid' hwrite ⊢
    have hpfind : t.find p.id = some path := by
      rwa [hid', hid]
    have hpself := Transport.find_setLane_self hpfind
    split
    next hping =>
      have hkid := p.recordKeepalive_id now
      refine hwrite.trans (Follows.again (Or.inr ?_) rfl (Nat.zero_le _))
      rw [Transport.books_setLane_again hpfind hkid,
        p.recordKeepalive_toLaneCore t.packets now]
      exact .keepalive (Transport.books_lanes hpself)
    next => exact hwrite

theorem follows_reserve (t : Transport) : Follows now t (t.reserve now, []) := by
  intro hkept
  obtain ⟨stamped, h⟩ := hkept
  have hquiet := Transport.quiet_reserve h.ids now
  have hstock : (t.reserve now).toStock = t.toStock := by
    dsimp only [Transport.reserve, Transport.reserveWithin]
    split <;> rfl
  exact Follows.idle (Books.eq_of_parts hquiet.outbound hstock hquiet.core
    hquiet.ids) ⟨stamped, h⟩

end Stages

/-! ## Repairs -/

section Repairs

variable {t : Transport} {now : Time} {ref : PacketRef}

/-- The numbers and deadline of a packet, and whether it is acknowledged. -/
structure Packet.SameStamp (p p' : Packet) : Prop where
  seq : p'.seq = p.seq
  acked : p'.acked = p.acked
  repairDeadline : p'.repairDeadline = p.repairDeadline

theorem Packet.SameStamp.refl (p : Packet) : p.SameStamp p := ⟨rfl, rfl, rfl⟩

theorem Transport.sameStamp_transmit (hseq : (t.packets ref).seq ≠ 0)
    (path : Lane) (r : PacketRef) :
    (t.packets r).SameStamp ((t.transmit now ref path).1.packets r) := by
  simp only [transmit, hseq, if_false]
  show (t.packets r).SameStamp (Function.update t.packets ref _ r)
  by_cases hr : r = ref
  · subst hr
    rw [Function.update_self]
    exact ⟨rfl, rfl, rfl⟩
  · rw [Function.update_of_ne hr]
    exact .refl _

theorem Transport.sameStamp_repairTurn (hseq : (t.packets ref).seq ≠ 0)
    (r : PacketRef) :
    (t.packets r).SameStamp ((t.repairTurn now ref).1.packets r) := by
  dsimp only [repairTurn]
  split
  · exact .refl _
  split
  · exact .refl _
  · split
    · exact .refl _
    · exact sameStamp_transmit hseq _ r

/-- The turns do not read `pendingOrder`. -/
theorem Transport.repairTurn_order (hseq : (t.packets ref).seq ≠ 0)
    (order : List PacketRef) :
    ({ t with pendingOrder := order } : Transport).repairTurn now ref =
      ({ (t.repairTurn now ref).1 with pendingOrder := order },
        (t.repairTurn now ref).2) := by
  have htransmit : ∀ path,
      ({ t with pendingOrder := order } : Transport).transmit now ref path =
        ({ (t.transmit now ref path).1 with pendingOrder := order },
          (t.transmit now ref path).2) := by
    intro path
    simp only [transmit, hseq, if_false]
    rfl
  have hlane : ({ t with pendingOrder := order } : Transport).repairLane now
      (t.packets ref) = t.repairLane now (t.packets ref) := rfl
  dsimp only [repairTurn]
  rw [hlane]
  split
  · rfl
  split
  · rfl
  · split
    · rfl
    · rw [htransmit]

theorem Transport.repairs_order (refs : List PacketRef) :
    ∀ (t : Transport) (order : List PacketRef),
      (∀ ref ∈ refs, (t.packets ref).seq ≠ 0) →
      Transport.repairs now refs { t with pendingOrder := order } =
        ({ (Transport.repairs now refs t).1 with pendingOrder := order },
          (Transport.repairs now refs t).2) := by
  induction refs with
  | nil => exact fun t order _ => rfl
  | cons ref rest ih =>
    intro t order hseq
    have hseq' : ∀ r ∈ rest,
        ((t.repairTurn now ref).1.packets r).seq ≠ 0 := by
      intro r hr
      rw [(sameStamp_repairTurn (hseq ref List.mem_cons_self) r).seq]
      exact hseq r (List.mem_cons_of_mem _ hr)
    simp only [repairs]
    rw [repairTurn_order (hseq ref List.mem_cons_self), ih _ _ hseq']

/-- The packets retained are not acknowledged, and within their deadline. -/
theorem Transport.repairs_retained (refs : List PacketRef) :
    ∀ t : Transport, (∀ ref ∈ refs, (t.packets ref).seq ≠ 0) →
      (∀ r, (t.packets r).SameStamp
        ((Transport.repairs now refs t).1.packets r)) ∧
      ∀ r ∈ (Transport.repairs now refs t).2.2,
        (t.packets r).acked = false ∧ ¬now > (t.packets r).repairDeadline := by
  induction refs with
  | nil => exact fun t _ => ⟨fun r => .refl _, by simp [repairs]⟩
  | cons ref rest ih =>
    intro t hseq
    have hturn : ∀ r, (t.packets r).SameStamp
        ((t.repairTurn now ref).1.packets r) :=
      sameStamp_repairTurn (hseq ref List.mem_cons_self)
    have hkept : (t.repairTurn now ref).2.2 = true →
        (t.packets ref).acked = false ∧
          ¬now > (t.packets ref).repairDeadline := by
      dsimp only [repairTurn]
      split
      · intro h
        cases h
      next hacked =>
        split
        · intro h
          cases h
        next hlate => exact fun _ => ⟨by simpa using hacked, hlate⟩
    obtain ⟨hsame, hrest⟩ := ih (t.repairTurn now ref).1 fun r hr => by
      rw [(hturn r).seq]
      exact hseq r (List.mem_cons_of_mem _ hr)
    refine ⟨fun r => ?_, ?_⟩
    · exact ⟨(hsame r).seq.trans (hturn r).seq,
        (hsame r).acked.trans (hturn r).acked,
        (hsame r).repairDeadline.trans (hturn r).repairDeadline⟩
    have hmem : ∀ r ∈ (Transport.repairs now rest
        (t.repairTurn now ref).1).2.2, (t.packets r).acked = false ∧
          ¬now > (t.packets r).repairDeadline := by
      intro r hr
      have := hrest r hr
      rwa [(hturn r).acked, (hturn r).repairDeadline] at this
    intro r hr
    simp only [repairs] at hr
    split at hr
    next hk =>
      rcases List.mem_cons.mp hr with rfl | hr
      · exact hkept hk
      · exact hmem r hr
    next => exact hmem r hr

theorem Transport.seq_ne_zero_of_kept (ht : t.books.Kept)
    (href : ref ∈ t.pendingOrder) : (t.packets ref).seq ≠ 0 := by
  obtain ⟨stamped, h⟩ := ht
  exact h.pending.seq_ne_zero (h.pending.known ref href)

theorem Transport.packetSeq_transmit (ht : t.books.Kept)
    (href : ref ∈ t.pendingOrder) (now : Time) (path : Lane) :
    (t.transmit now ref path).2.frame.packetSeq ≤ t.seq ∧
      (t.transmit now ref path).1.seq = t.seq := by
  have hseq := seq_ne_zero_of_kept ht href
  obtain ⟨stamped, h⟩ := ht
  simp only [transmit, hseq, if_false]
  exact ⟨(h.pending.bounds ref (h.pending.known ref href)).2.2, rfl⟩

theorem follows_again {path : Lane} (ht : t.books.Kept)
    (href : ref ∈ t.pendingOrder) (hacked : (t.packets ref).acked = false)
    (hfind : t.find path.id = some path) :
    Follows now t
      ((t.transmit now ref path).1, [(t.transmit now ref path).2]) := by
  obtain ⟨hcarries, hsame⟩ := Transport.packetSeq_transmit ht href now path
  refine Follows.again (Or.inr ?_) hsame hcarries
  rw [Transport.books_transmit_again hfind now
    (Transport.seq_ne_zero_of_kept ht href)]
  exact .again href hacked (Transport.books_lanes hfind)

theorem Transport.transmit_pendingOrder (hseq : (t.packets ref).seq ≠ 0)
    (now : Time) (path : Lane) :
    (t.transmit now ref path).1.pendingOrder = t.pendingOrder := by
  simp only [transmit, hseq, if_false]
  rfl

/-- The loop over `pendingOrder`; `kept` are the packets retained so far. -/
theorem follows_repairs (now : Time) (refs : List PacketRef) :
    ∀ (t : Transport) (kept : List PacketRef), t.pendingOrder = kept ++ refs →
      Follows now t
        ({ (Transport.repairs now refs t).1 with
            pendingOrder := kept ++ (Transport.repairs now refs t).2.2 },
          (Transport.repairs now refs t).2.1) := by
  induction refs with
  | nil =>
    intro t kept horder
    refine Follows.idle ?_
    simp only [Transport.repairs, ← horder]
  | cons ref rest ih =>
    intro t kept horder ht
    have hseq : ∀ r ∈ ref :: rest, (t.packets r).seq ≠ 0 := by
      intro r hr
      refine Transport.seq_ne_zero_of_kept ht ?_
      rw [horder]
      exact List.mem_append_right _ hr
    have hrest : ∀ r ∈ rest, ((t.repairTurn now ref).1.packets r).seq ≠ 0 := by
      intro r hr
      rw [(Transport.sameStamp_repairTurn (hseq ref List.mem_cons_self) r).seq]
      exact hseq r (List.mem_cons_of_mem _ hr)
    have href : ref ∈ t.pendingOrder := by simp [horder]
    -- the turn, with the packet out of `pendingOrder` unless it is retained
    have hturn : Follows now t ({ (t.repairTurn now ref).1 with
        pendingOrder := (if (t.repairTurn now ref).2.2 then kept ++ [ref]
          else kept) ++ rest }, (t.repairTurn now ref).2.1) := by
      dsimp only [Transport.repairTurn]
      split
      next hacked => exact .move (.settled horder hacked) rfl
      next hacked =>
        have hunacked : (t.packets ref).acked = false := by simpa using hacked
        split
        next hlate => exact .move (.expire horder hunacked hlate) rfl
        next =>
          split
          · refine Follows.idle ?_
            simp [← horder]
          next path hlane =>
            have hfind : t.find path.id = some path := by
              obtain ⟨stamped, h⟩ := ht
              exact Transport.find_repairLane h.ids hlane
            have hfollows := @follows_again t now ref path ht href hunacked hfind
            have horder' := Transport.transmit_pendingOrder
              (hseq ref List.mem_cons_self) now path
            rw [horder] at horder'
            simpa [← horder'] using hfollows
    have hnext := ih { (t.repairTurn now ref).1 with
      pendingOrder := (if (t.repairTurn now ref).2.2 then kept ++ [ref]
        else kept) ++ rest } _ rfl
    have hall := hturn.trans hnext
    rw [Transport.repairs_order rest _ _ hrest] at hall
    have heq : kept ++ (Transport.repairs now (ref :: rest) t).2.2 =
        (if (t.repairTurn now ref).2.2 then kept ++ [ref] else kept) ++
          (Transport.repairs now rest (t.repairTurn now ref).1).2.2 := by
      simp only [Transport.repairs]
      split <;> simp
    rw [heq]
    exact hall ht

theorem follows_repair (now : Time) (t : Transport) :
    Follows now t (t.repair now) :=
  follows_repairs now t.pendingOrder t [] rfl

end Repairs

end Wanbond.Bond
