import Wanbond.Bond.NodeInvariant

/-!
# The invariant of a world

In every world that a run reaches, what a node has counted on a lane was sent
on that lane by the peer, and the acknowledgements it has processed were sent
by the peer.  Both are about the histories of the two nodes with each other:
frames from other epochs, and from other histories of the same two nodes, are
turned away.
-/

namespace Wanbond.Bond

open Wanbond.Support

/-! ## How a call changes the histories of a node -/

section Growth

variable {own : Epoch} {n : Node}

theorem valid_of_acceptsRemote {t : Transport} {epoch : Epoch} {adopted : Bool}
    (h : t.acceptsRemote epoch adopted = true) : epoch.Valid := by
  unfold Transport.acceptsRemote at h
  split at h
  · cases h
  split at h
  · cases h
  next hvalid =>
    push Not at hvalid
    exact hvalid

theorem Node.history_record (n : Node) (t : Transport) (s : Stint)
    (peer : Epoch) : (n.record t s).history peer =
      if peer = n.transport.remote then s else n.history peer := by
  simp [Node.record, Function.update_apply]

/-- A history is only ever extended, by frames sent unless the call is
`Receive`. -/
theorem NodeOk.log_grows (h : NodeOk own n) (call : Call) (peer : Epoch) :
    ∃ new, ((n.step call).history peer).log = new ++ (n.history peer).log ∧
      ((∀ path f now order, call ≠ .receive path f now order) →
        ∀ e ∈ new, ∃ path f, e = .sent path f) := by
  have hsame : ∀ log : List Entry, ∃ new, log = new ++ log ∧
      ((∀ path f now order, call ≠ .receive path f now order) →
        ∀ e ∈ new, ∃ path f, e = .sent path f) :=
    fun log => ⟨[], rfl, fun _ _ he => absurd he List.not_mem_nil⟩
  cases call with
  | enqueue | path | disable => exact hsame _
  | poll =>
    simp only [Node.step]
    split
    · exact hsame _
    next t out _ =>
      rw [Node.history_record]
      split
      next hp =>
        subst hp
        refine ⟨_, Stint.send_log _ out, fun _ e he => ?_⟩
        obtain ⟨sent, -, rfl⟩ := List.mem_map.mp (List.mem_reverse.mp he)
        exact ⟨sent.path, sent.frame, rfl⟩
      next => exact hsame _
  | receive path f now order =>
    simp only [Node.step]
    rw [Node.history_record]
    split
    next hp =>
      subst hp
      exact ⟨[_], rfl, fun hcall => absurd rfl (hcall path f now order)⟩
    next => exact hsame _
  | setRemote epoch =>
    simp only [Node.step]
    split
    next hc =>
      dsimp only
      by_cases hp : peer = epoch
      · subst hp
        rw [h.unvisited peer (valid_of_acceptsRemote hc.1) hc.2,
          Function.update_self]
        exact hsame _
      · rw [Function.update_of_ne hp]
        exact hsame _
    next => exact hsame _

theorem NodeOk.log_suffix (h : NodeOk own n) (call : Call) (peer : Epoch) :
    (n.history peer).log <:+ ((n.step call).history peer).log := by
  obtain ⟨new, heq, -⟩ := h.log_grows call peer
  exact ⟨new, heq.symm⟩

theorem views_of_sent {new : List Entry}
    (hsent : ∀ e ∈ new, ∃ path f, e = Entry.sent path f) (log : List Entry)
    (lane : PathID) :
    countedOn lane (new ++ log) = countedOn lane log ∧
      processedOn lane (new ++ log) = processedOn lane log ∧
      delivered (new ++ log) = delivered log := by
  induction new with
  | nil => exact ⟨rfl, rfl, rfl⟩
  | cons e new ih =>
    obtain ⟨path, f, rfl⟩ := hsent e List.mem_cons_self
    exact ih fun e he => hsent e (List.mem_cons_of_mem _ he)

/-- Only `Receive` counts frames, processes acknowledgements and delivers. -/
theorem NodeOk.views_step (h : NodeOk own n) {call : Call}
    (hcall : ∀ path f now order, call ≠ .receive path f now order)
    (peer : Epoch) (lane : PathID) :
    countedOn lane ((n.step call).history peer).log =
        countedOn lane (n.history peer).log ∧
      processedOn lane ((n.step call).history peer).log =
        processedOn lane (n.history peer).log ∧
      delivered ((n.step call).history peer).log =
        delivered (n.history peer).log := by
  obtain ⟨new, heq, hsent⟩ := h.log_grows call peer
  rw [heq]
  exact views_of_sent (hsent hcall) _ lane

/-- Only `SetRemote` changes the remote epoch. -/
theorem NodeOk.remote_step (h : NodeOk own n) {call : Call}
    (hcall : ∀ epoch adopted, call ≠ .setRemote epoch adopted) :
    (n.step call).transport.remote = n.transport.remote ∧
      (n.step call).visited = n.visited := by
  have hpeer := h.current.peer.symm
  cases call with
  | enqueue payload metadata now =>
    exact ⟨(h.current.enqueue payload metadata now).peer.trans hpeer, rfl⟩
  | path id remoteID rtt now =>
    exact ⟨(h.current.path id remoteID rtt now).peer.trans hpeer, rfl⟩
  | disable id => exact ⟨(h.current.disable id).peer.trans hpeer, rfl⟩
  | receive path frame now order =>
    exact ⟨(h.current.receive path frame now order).peer.trans hpeer, rfl⟩
  | poll now order =>
    by_cases hnow : now < n.transport.lastTime
    · simp only [Node.step, Transport.poll, Transport.checkTime, if_pos hnow,
        and_self]
    have hpoll := (h.current.clock (not_lt.mp hnow)).pollAt now order
    simp only [Node.step, Transport.poll, Transport.checkTime, if_neg hnow]
    generalize ({ n.transport with lastTime := now } : Transport).pollAt now
      order = r at hpoll ⊢
    have hremote := hpoll.peer
    rw [Stint.extend, Stint.send_peer] at hremote
    exact ⟨hremote.trans hpeer, rfl⟩
  | setRemote epoch adopted => exact absurd rfl (hcall epoch adopted)

end Growth

/-! ## Frames name their sender and their destination -/

section Frames

variable {self peer : Epoch} {stamps : List Stamp} {log : List Entry}

/-- A frame sent has its entry in the history. -/
theorem LogOk.of_sent (h : LogOk self peer stamps log) {f : Control}
    (hf : f ∈ sentFrames log) :
    ∃ path older, EntryOk self peer stamps older (.sent path f) ∧
      .sent path f ∈ log := by
  induction log with
  | nil => cases hf
  | cons e log ih =>
    have hold : f ∈ sentFrames log → ∃ path older,
        EntryOk self peer stamps older (.sent path f) ∧
          .sent path f ∈ e :: log := by
      intro hf
      obtain ⟨path, older, he, hmem⟩ := ih h.2 hf
      exact ⟨path, older, he, List.mem_cons_of_mem _ hmem⟩
    cases e with
    | received => exact hold hf
    | sent path =>
      rcases List.mem_cons.mp hf with rfl | hf
      · exact ⟨path, log, h.1, List.mem_cons_self⟩
      · exact hold hf

theorem LogOk.of_sentData (h : LogOk self peer stamps log) {k : ℕ}
    {header : PacketHeader} {d : DataFields}
    (hf : ⟨k, .data header (some d)⟩ ∈ sentFrames log) :
    header.epoch = self ∧ d.destination = peer ∧
      (k, d) ∈ sentOn header.lane log := by
  obtain ⟨path, older, he, hmem⟩ := h.of_sent hf
  have hsent : (k, d) ∈ sentOn header.lane log :=
    List.mem_filterMap.mpr ⟨_, hmem, by simp [Entry.sentData]⟩
  cases he with
  | keepalive | data => exact ⟨rfl, rfl, hsent⟩

theorem LogOk.of_sentAck (h : LogOk self peer stamps log) {revision : ℕ}
    {header : PacketHeader} {a : Acknowledgement}
    (hf : ⟨revision, .ack header (some a)⟩ ∈ sentFrames log) :
    header.epoch = self ∧ a.observed = peer ∧
      (revision, a) ∈ acksOn header.lane log := by
  obtain ⟨path, older, he, hmem⟩ := h.of_sent hf
  have hsent : (revision, a) ∈ acksOn header.lane log :=
    List.mem_filterMap.mpr ⟨_, hmem, by simp [Entry.sentAck]⟩
  cases he with
  | ack _ _ _ ha => exact ⟨rfl, ha.observed, hsent⟩

/-- A counted frame carries the two epochs of the history. -/
theorem EntryOk.of_counted {e : Entry} (he : EntryOk self peer stamps log e)
    {lane : PathID} {x : ℕ × DataFields}
    (hx : e.countedData lane = some x) :
    ∃ path result, x.2.destination = self ∧ e = .received path
      ⟨x.1, .data ⟨peer, lane⟩ (some x.2)⟩ true result := by
  cases he with
  | empty path _ _ _ hd | repeated path _ _ _ hd | delivered path _ _ _ hd =>
    simp only [Entry.countedData, Option.ite_none_right_eq_some,
      Option.some.injEq] at hx
    obtain ⟨rfl, rfl⟩ := hx
    exact ⟨path, _, hd, rfl⟩
  | rejected path f err =>
    have := countedOn_uncounted lane path [] f (.error err)
    simp [countedOn, hx] at this
  | _ => cases hx

theorem EntryOk.of_processed {e : Entry} (he : EntryOk self peer stamps log e)
    {lane : PathID} {x : ℕ × Acknowledgement}
    (hx : e.processedAck lane = some x) :
    ∃ path, x.2.observed = self ∧ e = .received path
      ⟨x.1, .ack ⟨peer, lane⟩ (some x.2)⟩ false (.ok []) := by
  cases he with
  | processed path _ _ ha =>
    simp only [Entry.processedAck, Option.ite_none_right_eq_some,
      Option.some.injEq] at hx
    obtain ⟨rfl, rfl⟩ := hx
    exact ⟨path, ha, rfl⟩
  | rejected path f err =>
    have := processedOn_error lane path [] f false err
    simp [processedOn, hx] at this
  | _ => cases hx

end Frames

/-! ## Worlds -/

structure WorldOk (w : World) : Prop where
  node : ∀ n, NodeOk n (w n)
  counted : ∀ n m lane x, x ∈ countedOn lane ((w n).history m).log →
    x ∈ sentOn lane ((w m).history n).log
  processed : ∀ n m lane x, x ∈ processedOn lane ((w n).history m).log →
    x ∈ acksOn lane ((w m).history n).log

namespace WorldOk

variable {w : World}

theorem init : WorldOk World.init where
  node := nodeOk_new
  counted := fun _ _ _ _ h => absurd h List.not_mem_nil
  processed := fun _ _ _ _ h => absurd h List.not_mem_nil

theorem log_suffix (h : WorldOk w) (e : Epoch) (call : Call) (m n : Epoch) :
    ((w m).history n).log <:+ ((w.update e call m).history n).log := by
  by_cases hm : m = e
  · subst hm
    rw [World.update, Function.update_self]
    exact (h.node m).log_suffix call n
  · rw [World.update, Function.update_of_ne hm]

theorem node_update (h : WorldOk w) (e : Epoch) (call : Call) (n : Epoch) :
    NodeOk n (w.update e call n) := by
  by_cases hn : n = e
  · subst hn
    rw [World.update, Function.update_self]
    exact (h.node n).step call
  · rw [World.update, Function.update_of_ne hn]
    exact h.node n

/-- A call that hands the node no frame. -/
theorem update (h : WorldOk w) (e : Epoch) {call : Call}
    (hcall : ∀ path f now order, call ≠ .receive path f now order) :
    WorldOk (w.update e call) := by
  have hviews : ∀ n m lane,
      countedOn lane ((w.update e call n).history m).log =
          countedOn lane ((w n).history m).log ∧
        processedOn lane ((w.update e call n).history m).log =
          processedOn lane ((w n).history m).log := by
    intro n m lane
    by_cases hn : n = e
    · subst hn
      rw [World.update, Function.update_self]
      exact ⟨((h.node n).views_step hcall m lane).1,
        ((h.node n).views_step hcall m lane).2.1⟩
    · rw [World.update, Function.update_of_ne hn]
      exact ⟨rfl, rfl⟩
  refine ⟨h.node_update e call, fun n m lane x hx => ?_,
    fun n m lane x hx => ?_⟩
  · rw [(hviews n m lane).1] at hx
    exact ((h.log_suffix e call m n).filterMap _).subset (h.counted n m lane x hx)
  · rw [(hviews n m lane).2] at hx
    exact ((h.log_suffix e call m n).filterMap _).subset
      (h.processed n m lane x hx)

theorem history_receive (w : World) (e : Epoch) (path : PathID) (f : Control)
    (now : Time) (order : MapOrder) (m : Epoch) :
    ((w.update e (.receive path f now order) e).history m).log =
      if m = (w e).transport.remote then
        .received path f (isCounted (w e).transport
          ((w e).transport.receive path f now order).1 f)
          ((w e).transport.receive path f now order).2 ::
            ((w e).history m).log
      else ((w e).history m).log := by
  rw [World.update, Function.update_self]
  simp only [Node.step]
  rw [Node.history_record]
  split
  next hm =>
    subst hm
    rfl
  next => rfl

/-- What a received frame adds to the histories. -/
theorem mem_history_receive {β : Type*} {g : Entry → Option β} {x : β}
    {e n m : Epoch} {path : PathID} {f : Control} {now : Time} {order : MapOrder}
    (hx : x ∈ (((w.update e (.receive path f now order) n).history
      m).log.filterMap g)) :
    x ∈ ((w n).history m).log.filterMap g ∨
      n = e ∧ m = (w e).transport.remote ∧
        g (.received path f (isCounted (w e).transport
          ((w e).transport.receive path f now order).1 f)
          ((w e).transport.receive path f now order).2) = some x := by
  by_cases hn : n = e
  · subst hn
    rw [history_receive] at hx
    split at hx
    next hm =>
      obtain ⟨entry, hmem, hdata⟩ := List.mem_filterMap.mp hx
      rcases List.mem_cons.mp hmem with rfl | hmem
      · exact Or.inr ⟨rfl, hm, hdata⟩
      · exact Or.inl (List.mem_filterMap.mpr ⟨_, hmem, hdata⟩)
    next => exact Or.inl hx
  · rw [World.update, Function.update_of_ne hn] at hx
    exact Or.inl hx

/-- A frame that some node has sent reaches the node `e`. -/
theorem deliver (h : WorldOk w) (e : Epoch) {sender peer : Epoch} {f : Control}
    (hf : f ∈ sentFrames ((w sender).history peer).log) (path : PathID)
    (now : Time) (order : MapOrder) :
    WorldOk (w.update e (.receive path f now order)) := by
  have hnode := h.node_update e (.receive path f now order)
  have hsent := ((h.node sender).history peer).log
  have hgrow := h.log_suffix e (.receive path f now order)
  -- the new entry, and what it owes to the history
  have hentry := (hnode e).history (w e).transport.remote |>.log
  rw [history_receive, if_pos rfl] at hentry
  refine ⟨hnode, fun n m lane x hx => ((hgrow m n).filterMap _).subset ?_,
    fun n m lane x hx => ((hgrow m n).filterMap _).subset ?_⟩
  · rcases mem_history_receive hx with hx | ⟨rfl, rfl, hdata⟩
    · exact h.counted n m lane x hx
    obtain ⟨path', result, hdest, heq⟩ := hentry.1.of_counted hdata
    obtain ⟨-, rfl, -, -⟩ := Entry.received.inj heq
    obtain ⟨rfl, hpeer, hin⟩ := hsent.of_sentData hf
    obtain rfl := hdest.symm.trans hpeer
    exact hin
  · rcases mem_history_receive hx with hx | ⟨rfl, rfl, hdata⟩
    · exact h.processed n m lane x hx
    obtain ⟨path', hobserved, heq⟩ := hentry.1.of_processed hdata
    obtain ⟨-, rfl, -, -⟩ := Entry.received.inj heq
    obtain ⟨rfl, hpeer, hin⟩ := hsent.of_sentAck hf
    obtain rfl := hobserved.symm.trans hpeer
    exact hin

theorem step (h : WorldOk w) (event : Event) : WorldOk (w.step event) := by
  cases event with
  | call node call =>
    cases call with
    | receive => exact h
    | _ => exact h.update node (fun _ _ _ _ heq => by cases heq)
  | deliver node path _ _ _ now order =>
    simp only [World.step]
    split
    · exact h
    next f hf =>
      exact h.deliver node (List.mem_of_getElem? hf) path now order

end WorldOk

theorem worldOk_run (events : List Event) : WorldOk (World.run events) :=
  List.foldlRecOn events _ .init fun _ h event _ => h.step event

end Wanbond.Bond
