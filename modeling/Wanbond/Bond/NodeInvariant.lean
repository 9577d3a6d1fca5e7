import Wanbond.Bond.AckInvariant

/-!
# Every call keeps the invariant

`StateOk.receive` completes the list of calls: the frame may be anything, since
a frame that is not from the present peer, or not meant for this transport, is
turned away without a trace.  `NodeOk` adds the histories with former peers,
and `NodeOk.step` is the step lemma of a node.
-/

namespace Wanbond.Bond

open Wanbond.Support

section Receive

variable {t : Transport} {s : Stint} {datagrams : List (Bytes × PacketMetadata)}

variable {p : Lane}

theorem Transport.validate_ok {path : PathID} {h : PacketHeader} {seq : ℕ}
    {now : Time} (hv : t.validate path h seq now = .ok p) :
    h.epoch = t.remote ∧ seq ≠ 0 ∧ t.find path = some p ∧ p.up now = true := by
  unfold validate at hv
  split at hv
  · cases hv
  split at hv
  · cases hv
  next hne =>
    split at hv
    · cases hv
    next q hq =>
      split at hv
      · cases hv
      next hup =>
        cases hv
        push Not at hne
        exact ⟨hne.1, hne.2, hq, by simpa using hup⟩

theorem Transport.setLane_refused {revision : ℕ}
    (hids : (t.paths.map fun q => q.id).Nodup) (hfind : t.find p.id = some p)
    (hmark : (p.ackReceipts.mark revision).1 = false) :
    t.setLane { p with ackReceipts := (p.ackReceipts.mark revision).2 } = t := by
  rw [ReceiptWindow.mark_false hmark]
  exact Transport.setLane_self hids hfind

/-- An ACK frame that has passed the common checks. -/
theorem StateOk.receiveAck (h : StateOk t s datagrams)
    (hfind : t.find p.id = some p) (lane : PathID) (revision : ℕ)
    (fields : Option Acknowledgement) (now : Time) (order : MapOrder) :
    let r := t.receiveAck p lane revision fields now order
    let f : Control := ⟨revision, .ack ⟨t.remote, lane⟩ fields⟩
    StateOk r.1 (s.push (.received p.id f false r.2)) datagrams := by
  intro r f
  rcases t.receiveAck_cases p lane revision fields now with ⟨e, -, heq⟩ |
    ⟨hmark, e, -, heq⟩ | ⟨a, rfl, rfl, hobserved, hpossible, hmark, heq⟩
  · rw [show r = _ from heq order]
    exact h.push_rejected _ _ _
  · rw [show r = _ from heq order, Transport.setLane_refused h.ids hfind hmark]
    exact h.push_rejected _ _ _
  have hhigh : a.high ≤ p.seq := by
    by_contra hgt
    simp [Transport.impossible, not_le.mp hgt] at hpossible
  rw [show r = _ from heq order]
  exact h.ack hfind hmark hhigh hobserved now order

/-- `receive` once its time has been accepted. -/
theorem StateOk.receiveAt (h : StateOk t s datagrams) {now : Time}
    (hclock : t.lastTime = now) (path : PathID) (f : Control)
    (order : MapOrder) :
    let r := t.receiveAt path f now order
    StateOk r.1 (s.push (.received path f (isCounted t r.1 f) r.2))
      datagrams := by
  have hreject : ∀ e, StateOk t
      (s.push (.received path f (isCounted t t f) (.error e))) datagrams := by
    intro e
    rw [isCounted_of_receivers rfl]
    exact h.push_rejected path f e
  obtain ⟨seq, body⟩ := f
  cases body with
  | malformed => exact hreject _
  | other =>
    simp only [Transport.receiveAt, Transport.onLane]
    split <;> exact hreject _
  | data header fields =>
    simp only [Transport.receiveAt, Transport.onLane]
    split
    · exact hreject _
    next p hv =>
      obtain ⟨hepoch, hseq, hfind, -⟩ := Transport.validate_ok hv
      obtain rfl := Transport.id_of_find hfind
      obtain ⟨epoch, lane⟩ := header
      obtain rfl : epoch = t.remote := hepoch
      exact h.receiveData hclock hfind hseq fields
  | ack header fields =>
    simp only [Transport.receiveAt, Transport.onLane]
    split
    · exact hreject _
    next p hv =>
      obtain ⟨hepoch, -, hfind, -⟩ := Transport.validate_ok hv
      obtain rfl := Transport.id_of_find hfind
      obtain ⟨epoch, lane⟩ := header
      obtain rfl : epoch = t.remote := hepoch
      exact h.receiveAck hfind lane seq fields now order

theorem Transport.quiet_countRejection (t : Transport) (e : RejectionError) :
    t.Quiet (t.countRejection e) :=
  ⟨rfl, rfl, rfl, rfl, rfl, rfl, rfl, le_rfl⟩

/-- `Receive` keeps the invariant. -/
theorem StateOk.receive (h : StateOk t s datagrams) (path : PathID)
    (f : Control) (now : Time) (order : MapOrder) :
    let r := t.receive path f now order
    StateOk r.1 (s.push (.received path f (isCounted t r.1 f) r.2))
      datagrams := by
  rcases t.receive_cases path f now order with ⟨-, hr⟩ | ⟨hnow, hr⟩
  · rw [hr]
    have hcounted : ∀ e, isCounted t (t.countRejection e) f = false :=
      fun e => isCounted_of_receivers rfl f
    simp only [Transport.report, hcounted]
    exact (h.push_rejected path f _).quiet (t.quiet_countRejection _)
  rw [hr]
  have hat := (h.clock hnow).receiveAt rfl path f order
  revert hat
  rcases Transport.receiveAt { t with lastTime := now } path f now order with
    ⟨t', result⟩
  intro hat
  cases result with
  | ok => exact hat
  | error e => exact hat.quiet (t'.quiet_countRejection e)

end Receive

/-! ## Nodes -/

/-- A history, whether or not it is the present one. -/
structure HistoryOk (own peer : Epoch) (s : Stint)
    (datagrams : List (Bytes × PacketMetadata)) : Prop where
  log : LogOk own peer s.stamps s.log
  own : s.own = own
  peer : s.peer = peer
  stamps : StampsOk s.stamps
  sent : ∀ st ∈ s.stamps, ∃ lane k d, (k, d) ∈ sentOn lane s.log ∧
    d.seq = st.seq
  datagrams : ∀ st ∈ s.stamps, ∃ datagram, datagrams[st.ref]? = some datagram ∧
    st.payload = datagram.1 ∧ st.order.interactive =
      decide (classify datagram.1.length datagram.2 ≠ .bulk)

structure NodeOk (own : Epoch) (n : Node) : Prop where
  epoch : n.transport.epoch = own
  current : StateOk n.transport n.current n.datagrams
  history : ∀ peer, HistoryOk own peer (n.history peer) n.datagrams
  remote : n.transport.remote.Valid → n.transport.remote ∈ n.visited
  unvisited : ∀ peer, peer.Valid → peer ∉ n.visited →
    n.history peer = Stint.empty own peer

variable {t : Transport} {s : Stint} {datagrams : List (Bytes × PacketMetadata)}

theorem StateOk.historyOk (h : StateOk t s datagrams) :
    HistoryOk t.epoch t.remote s datagrams where
  own := h.own.symm
  peer := h.peer.symm
  log := h.log
  stamps := h.stamps
  sent := h.sent
  datagrams := by
    intro st hst
    have hlt := h.outbound.allocated st hst
    rw [← h.outbound.length] at hlt
    have hget := List.getElem?_eq_getElem hlt
    have hholds := h.outbound.holds st.ref _ hget
    have hst := h.outbound.stamped st hst
    refine ⟨_, hget, hst.payload.symm.trans hholds.payload, ?_⟩
    rw [← hst.interactive, hholds.interactive, hholds.cls]

variable (own : Epoch)

theorem historyOk_empty (peer : Epoch)
    (datagrams : List (Bytes × PacketMetadata)) :
    HistoryOk own peer (Stint.empty own peer) datagrams where
  own := rfl
  peer := rfl
  log := trivial
  stamps := ⟨.nil, .nil, .nil⟩
  sent := fun _ hst => absurd hst List.not_mem_nil
  datagrams := fun _ hst => absurd hst List.not_mem_nil

theorem HistoryOk.mono {own peer : Epoch}
    {datagrams' : List (Bytes × PacketMetadata)}
    (h : HistoryOk own peer s datagrams) (hpre : datagrams <+: datagrams') :
    HistoryOk own peer s datagrams' :=
  { h with
    datagrams := by
      intro st hst
      obtain ⟨datagram, hget, hrest⟩ := h.datagrams st hst
      obtain ⟨more, rfl⟩ := hpre
      obtain ⟨hlt, -⟩ := List.getElem?_eq_some_iff.mp hget
      exact ⟨datagram, (List.getElem?_append_left hlt).trans hget, hrest⟩ }

namespace NodeOk

variable {own : Epoch} {n : Node}

theorem transport (h : NodeOk own n) (ht : StateOk t n.current datagrams)
    (hpre : n.datagrams <+: datagrams) :
    NodeOk own { n with transport := t, datagrams := datagrams } := by
  have hremote : t.remote = n.transport.remote := ht.peer.trans h.current.peer.symm
  constructor
  · exact (ht.own.trans h.current.own.symm).trans h.epoch
  · show StateOk t (n.history t.remote) datagrams
    rwa [hremote]
  · exact fun peer => (h.history peer).mono hpre
  · rw [hremote]
    exact h.remote
  · exact h.unvisited

/-- A call that extends the history with the present peer. -/
theorem record (h : NodeOk own n) (ht : StateOk t s n.datagrams)
    (hown : s.own = n.current.own) (hpeer : s.peer = n.current.peer) :
    NodeOk own (n.record t s) := by
  have hremote : t.remote = n.transport.remote :=
    (ht.peer.trans hpeer).trans h.current.peer.symm
  have hepoch : t.epoch = own :=
    ((ht.own.trans hown).trans h.current.own.symm).trans h.epoch
  constructor
  · exact hepoch
  · show StateOk t (Function.update n.history n.transport.remote s t.remote) _
    rwa [hremote, Function.update_self]
  · intro peer
    show HistoryOk own peer
      (Function.update n.history n.transport.remote s peer) n.datagrams
    by_cases hp : peer = n.transport.remote
    · subst hp
      rw [Function.update_self, ← hepoch, ← hremote]
      exact ht.historyOk
    · rw [Function.update_of_ne hp]
      exact h.history peer
  · show t.remote.Valid → t.remote ∈ n.visited
    rw [hremote]
    exact h.remote
  intro peer hvalid hv
  have hne : peer ≠ n.transport.remote := by
    rintro rfl
    exact hv (h.remote hvalid)
  exact (Function.update_of_ne hne _ _).trans (h.unvisited peer hvalid hv)

/-- A new history begins. -/
theorem enter (h : NodeOk own n) {epoch : Epoch} {adopted : Bool}
    (haccept : n.transport.acceptsRemote epoch adopted = true) :
    NodeOk own { n with
      transport := (n.transport.setRemote epoch adopted).1
      history := Function.update n.history epoch
        (Stint.begin n.transport epoch)
      visited := epoch :: n.visited } := by
  have hset := h.current.setRemote haccept
  have hremote : (n.transport.setRemote epoch adopted).1.remote = epoch :=
    hset.peer
  constructor
  · exact hset.own.trans h.epoch
  · show StateOk _ (Function.update n.history epoch
      (Stint.begin n.transport epoch) _) n.datagrams
    rwa [hremote, Function.update_self]
  · intro peer
    show HistoryOk own peer (Function.update n.history epoch
      (Stint.begin n.transport epoch) peer) n.datagrams
    by_cases hp : peer = epoch
    · subst hp
      have hhist := hset.historyOk
      rw [hset.own, hremote] at hhist
      rwa [Function.update_self, ← h.epoch]
    · rw [Function.update_of_ne hp]
      exact h.history peer
  · intro _
    rw [hremote]
    exact List.mem_cons_self
  · intro peer hvalid hv
    rw [List.mem_cons, not_or] at hv
    exact (Function.update_of_ne hv.1 _ _).trans (h.unvisited peer hvalid hv.2)

/-- Every call keeps the invariant of a node. -/
theorem step (h : NodeOk own n) (call : Call) : NodeOk own (n.step call) := by
  cases call with
  | enqueue payload metadata now =>
    refine h.transport (h.current.enqueue payload metadata now) ?_
    split
    · exact List.prefix_append _ _
    · exact List.prefix_refl _
  | path id remoteID rtt now =>
    exact h.transport (h.current.path id remoteID rtt now) (List.prefix_refl _)
  | disable id => exact h.transport (h.current.disable id) (List.prefix_refl _)
  | receive path frame now order =>
    exact h.record (h.current.receive path frame now order) rfl rfl
  | poll now order =>
    by_cases hnow : now < n.transport.lastTime
    · simp only [Node.step, Transport.poll, Transport.checkTime, if_pos hnow]
      exact h
    · simp only [Node.step, Transport.poll, Transport.checkTime, if_neg hnow]
      have hpoll := (h.current.clock (not_lt.mp hnow)).pollAt now order
      exact h.record hpoll (Stint.send_own _ _) (Stint.send_peer _ _)
  | setRemote epoch adopted =>
    by_cases hc : n.transport.acceptsRemote epoch adopted = true ∧
        epoch ∉ n.visited
    · simp only [Node.step, if_pos hc]
      exact h.enter hc.1
    · simp only [Node.step, if_neg hc]
      exact h

end NodeOk

/-! ## Runs of a node -/

theorem stateOk_new : StateOk (Transport.new own)
    (Stint.empty own (Transport.new own).remote) [] where
  own := rfl
  peer := rfl
  log := trivial
  stamps := ⟨.nil, .nil, .nil⟩
  outbound :=
    { length := rfl
      holds := fun _ _ h => by cases h
      seq := rfl
      interactiveSeq := rfl
      bulkSeq := rfl
      stamped := fun _ h => absurd h List.not_mem_nil
      allocated := fun _ h => absurd h List.not_mem_nil
      pendingOrder := fun _ h => absurd h List.not_mem_nil
      pending := fun _ _ h => by cases h
      nodup := Multiset.nodup_zero
      fresh := fun _ h => absurd h (Multiset.notMem_zero _) }
  sent := fun _ h => absurd h List.not_mem_nil
  acked := fun _ h => absurd h List.not_mem_nil
  lanes :=
    { lane := fun _ _ h => by cases h
      unknown := fun _ _ => ⟨rfl, rfl, rfl⟩ }
  ids := List.nodup_nil
  inbound := inboundOk_new _

theorem nodeOk_new : NodeOk own (Node.new own) where
  epoch := rfl
  current := stateOk_new own
  history := fun peer => historyOk_empty own peer []
  remote := fun h => absurd rfl h.1
  unvisited := fun _ _ _ => rfl

/-- The node after a sequence of calls. -/
def Node.run (own : Epoch) (calls : List Call) : Node :=
  calls.foldl Node.step (Node.new own)

theorem nodeOk_run (calls : List Call) : NodeOk own (Node.run own calls) :=
  List.foldlRecOn calls _ (nodeOk_new own) fun _ h call _ => h.step call

end Wanbond.Bond
