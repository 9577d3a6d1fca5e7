import Wanbond.Bond.BulkOrder
import Wanbond.Reseq.Streams

/-!
# The bulk stream of a receiver

A receiver feeds what its transport delivers in bulk to a resequencer, under
the bulk order, and restarts the resequencer when the peer's epoch changes.  The
two windows fit: what the transport delivers is less than a receipt window of
8192 below the highest sequence delivered, and so is its order, while the
resequencer takes an order for a restart only if it is more than 32768 below
the release point.
-/

namespace Wanbond.Bind

open Wanbond.Bond Wanbond.Reseq
open Wanbond.Reseq.Resequencer

/-! ## The receiver -/

def resequencerWindow : ℕ := 32768

theorem resequencerWindow_pos : 0 < resequencerWindow := by decide

def resequencerTimeout : Duration := 250 * millisecond

def adaptiveReorderHold : Duration := 300 * millisecond

/-- Where a datagram came from.  The program keeps the outer source only; the
peer's epoch and the order are kept along with it, and the resequencer reads
none of them. -/
structure Origin (α : Type) where
  source : α
  peer : Epoch
  order : ℕ

/-- The world, the resequencer of one of its nodes, and what was popped. -/
structure Receiving (α : Type) where
  world : World
  rq : Resequencer (Origin α)
  popped : List (Item (Origin α))

/-- What happens next: an event of the world, with the outer source of a frame
and the reading of the resequencer's clock, or a call to `Pop`. -/
inductive Occurrence (α : Type) where
  | event (e : Event) (source : α) (clock : Time)
  | pop (clock : Time)

variable {α : Type}

/-- What `adaptivePeer.receive` does with the deliveries of the transport.  The
interactive ones go to another queue. -/
def feed (rq : Resequencer (Origin α)) (peer : Epoch) (source : α)
    (clock : Time) (deliveries : List Delivery) : Resequencer (Origin α) :=
  deliveries.foldl
    (fun rq d =>
      if d.interactive then rq
      else (rq.observe d.sequence d.payload ⟨source, peer, d.sequence⟩ clock).1)
    (rq.setHoldBound adaptiveReorderHold)

/-- What the transport of the node `n` delivers at an event. -/
def received (w : World) (n : Epoch) : Event → Option (List Delivery)
  | .deliver node path sender peer position now order =>
    if node = n then
      match (sentFrames ((w sender).history peer).log)[position]? with
      | none => none
      | some f => ((w n).transport.receive path f now order).2.toOption
    else none
  | .call _ _ => none

/-- The node `n` enters another remote epoch. -/
def entered (w : World) (n : Epoch) : Event → Bool
  | .call node (.setRemote epoch adopted) =>
    decide (node = n ∧ (w n).transport.acceptsRemote epoch adopted = true ∧
      epoch ∉ (w n).visited)
  | _ => false

namespace Receiving

/-- The resequencer of the node `n` at an event: `learn` restarts it at 1,
`receive` feeds it. -/
def resequence (n : Epoch) (s : Receiving α) (e : Event) (source : α)
    (clock : Time) : Resequencer (Origin α) :=
  if entered s.world n e then s.rq.rebaselineAt 1 clock
  else
    match received s.world n e with
    | none => s.rq
    | some deliveries =>
      feed s.rq (s.world n).transport.remote source clock deliveries

def step (n : Epoch) (s : Receiving α) : Occurrence α → Receiving α
  | .event e source clock =>
    { s with
      world := s.world.step e
      rq := s.resequence n e source clock }
  | .pop clock =>
    { s with
      rq := (s.rq.pop clock).1
      popped := s.popped ++ (s.rq.pop clock).2.toList }

def init : Receiving α where
  world := World.init
  rq := new resequencerWindow resequencerWindow_pos resequencerTimeout
  popped := []

def run (n : Epoch) (occurrences : List (Occurrence α)) : Receiving α :=
  occurrences.foldl (step n) init

end Receiving

/-! ## The node at an event -/

section Events

variable {w : World} {n : Epoch}

/-- What the invariant below reads of a node. -/
structure SameView (n n' : Node) : Prop where
  remote : n'.transport.remote = n.transport.remote
  delivered : ∀ p, delivered (n'.history p).log = delivered (n.history p).log

theorem SameView.refl (n : Node) : SameView n n := ⟨rfl, fun _ => rfl⟩

theorem sameView_step {own : Epoch} {n : Node} (h : NodeOk own n) {call : Call}
    (hreceive : ∀ path f now order, call ≠ .receive path f now order)
    (hremote : ∀ epoch adopted, call ≠ .setRemote epoch adopted) :
    SameView n (n.step call) :=
  ⟨(h.remote_step hremote).1, fun p => (h.views_step hreceive p 0).2.2⟩

/-- A frame is delivered to the node, or the node enters an epoch, or nothing
that matters changes. -/
theorem view_cases (h : WorldOk w) (n : Epoch) (e : Event) :
    (∃ epoch, entered w n e = true ∧ epoch.Valid ∧ epoch ∉ (w n).visited ∧
      (w.step e n).transport.remote = epoch ∧
      (w.step e n).history = Function.update (w n).history epoch
        (Stint.begin (w n).transport epoch)) ∨
    (entered w n e = false ∧ ∃ path f now order,
      received w n e = ((w n).transport.receive path f now order).2.toOption ∧
      w.step e n = (w n).step (.receive path f now order)) ∨
    (entered w n e = false ∧ received w n e = none ∧
      SameView (w n) (w.step e n)) := by
  cases e with
  | deliver node path sender peer position now order =>
    by_cases hnode : node = n
    · subst hnode
      cases hf : (sentFrames ((w sender).history peer).log)[position]? with
      | none =>
        simp only [entered, received, World.step, hf, if_true]
        exact .inr (.inr ⟨trivial, trivial, .refl _⟩)
      | some f =>
        simp only [entered, received, World.step, hf, if_true]
        exact .inr (.inl ⟨trivial, path, f, now, order, rfl,
          Function.update_self _ _ _⟩)
    refine .inr (.inr ⟨rfl, if_neg hnode, ?_⟩)
    have hother : w.step (.deliver node path sender peer position now order)
        n = w n := by
      cases hf : (sentFrames ((w sender).history peer).log)[position]? with
      | none => simp only [World.step, hf]
      | some f =>
        simp only [World.step, hf]
        exact Function.update_of_ne (Ne.symm hnode) _ _
    rw [hother]
    exact .refl _
  | call node call =>
    by_cases hnode : node = n
    swap
    · have hother : w.step (.call node call) n = w n := by
        cases call with
        | receive => rfl
        | _ => exact Function.update_of_ne (Ne.symm hnode) _ _
      refine .inr (.inr ⟨?_, rfl, hother ▸ .refl _⟩)
      cases call with
      | setRemote =>
        exact decide_eq_false fun hall => hnode hall.1
      | _ => rfl
    subst hnode
    cases call with
    | receive => exact .inr (.inr ⟨rfl, rfl, .refl _⟩)
    | setRemote epoch adopted =>
      have hstep : w.step (.call node (.setRemote epoch adopted)) node =
          (w node).step (.setRemote epoch adopted) :=
        Function.update_self _ _ _
      by_cases hc : (w node).transport.acceptsRemote epoch adopted = true ∧
          epoch ∉ (w node).visited
      · refine .inl ⟨epoch, decide_eq_true ⟨rfl, hc⟩,
          valid_of_acceptsRemote hc.1, hc.2, ?_, ?_⟩
        · rw [hstep, Node.step, if_pos hc, Transport.setRemote,
            if_pos hc.1]
        · rw [hstep, Node.step, if_pos hc]
      · refine .inr (.inr ⟨decide_eq_false fun hall => hc hall.2, rfl, ?_⟩)
        rw [hstep, Node.step, if_neg hc]
        exact .refl _
    | _ =>
      refine .inr (.inr ⟨rfl, rfl, ?_⟩)
      change SameView (w node) (Function.update w node _ node)
      rw [Function.update_self]
      exact sameView_step (h.node node) (by simp) (by simp)

end Events

/-! ## The invariant of a receiver -/

/-- The frame is a bulk delivery of the node, under its own order and peer. -/
def Genuine (n : Node) (c : Slot (Origin α)) : Prop :=
  c.src.order = c.seq ∧ ∃ q, (q, ⟨c.seq, false, c.payload⟩) ∈
    delivered (n.history c.src.peer).log

/-- The frame belongs to the stream of the peer. -/
def ofPeer (peer : Epoch) (c : Slot (Origin α)) : Bool :=
  decide (c.src.peer = peer)

/-- `high` is the order of a bulk delivery, or zero. -/
def IsOrder (log : List Entry) (high : ℕ) : Prop :=
  high = 0 ∨ ∃ q x, (q, x) ∈ delivered log ∧ x.interactive = false ∧
    x.sequence = high

/-- A genuine frame of the present peer. -/
def Present (n : Node) (c : Slot (Origin α)) : Prop :=
  c.src.peer = n.transport.remote ∧ Genuine n c

structure ReceivingOk (n : Epoch) (s : Receiving α) : Prop where
  world : WorldOk s.world
  window : s.rq.window = resequencerWindow
  popped : s.rq.Popped s.popped
  released : ∀ c ∈ releasedFrames s.rq.trail, Genuine (s.world n) c
  ordered : ∀ peer, (s.rq.releasedOf (ofPeer peer)).Pairwise (· < ·)
  stream : ∃ high,
    IsOrder ((s.world n).history (s.world n).transport.remote).log high ∧
    Streams high (Present (s.world n)) (ofPeer (s.world n).transport.remote) s.rq

section Invariant

variable {n n' : Node} {rq rq' : Resequencer (Origin α)}

theorem Genuine.mono {c : Slot (Origin α)} (h : Genuine n c)
    (hgrow : ∀ p, delivered (n.history p).log ⊆ delivered (n'.history p).log) :
    Genuine n' c := by
  obtain ⟨horder, q, hq⟩ := h
  exact ⟨horder, q, hgrow _ hq⟩

/-- Frames of one peer are released in order when those of the present peer are,
and the other peers' are released no more. -/
theorem ordered_continues {m peer : Epoch} {P : Slot (Origin α) → Prop}
    (hP : ∀ c, P c → c.src.peer = m)
    (hold : ∀ peer, (rq.releasedOf (ofPeer peer)).Pairwise (· < ·))
    (hascends : Ascends (ofPeer m) rq') (hcontinues : Continues P rq rq') :
    (rq'.releasedOf (ofPeer peer)).Pairwise (· < ·) := by
  by_cases hpeer : peer = m
  · exact hpeer ▸ hascends.increasing
  obtain ⟨l, hl, hall⟩ := hcontinues.released
  have hnone : l.filter (ofPeer peer) = [] := by
    rw [List.filter_eq_nil_iff]
    intro c hc hcp
    exact hpeer ((of_decide_eq_true hcp).symm.trans (hP c (hall c hc)))
  have hsame : rq'.releasedOf (ofPeer peer) = rq.releasedOf (ofPeer peer) := by
    rw [releasedOf, hl, List.filter_append, hnone, List.append_nil, releasedOf]
  exact hsame ▸ hold peer

end Invariant

namespace ReceivingOk

variable {n : Epoch} {s : Receiving α}

variable {w : World}

/-- A call to the resequencer in the middle of the present stream. -/
theorem continues (h : ReceivingOk n s) (hw : WorldOk w)
    (hgrow : ∀ p, delivered ((s.world n).history p).log ⊆
      delivered ((w n).history p).log) {rq : Resequencer (Origin α)} {high : ℕ}
    (hhigh : IsOrder ((w n).history (w n).transport.remote).log high)
    (hstream : Streams high (Present (w n)) (ofPeer (w n).transport.remote) rq)
    (hcontinues : Continues (Present (w n)) s.rq rq)
    {items : List (Item (Origin α))} (hpopped : rq.Popped items) :
    ReceivingOk n ⟨w, rq, items⟩ := by
  refine ⟨hw, hcontinues.window.trans h.window, hpopped, fun c hc => ?_,
    fun peer => ?_, high, hhigh, hstream⟩
  · obtain ⟨l, hl, hall⟩ := hcontinues.released
    rw [hl] at hc
    rcases List.mem_append.mp hc with hc | hc
    · exact (h.released c hc).mono hgrow
    · exact (hall c hc).2
  · exact ordered_continues (fun c hc => hc.1) h.ordered hstream.ascends
      hcontinues

theorem pop (h : ReceivingOk n s) (clock : Time) :
    ReceivingOk n (s.step n (.pop clock)) := by
  obtain ⟨high, hhigh, hstream⟩ := h.stream
  obtain ⟨hstream', hcontinues⟩ := hstream.pop clock
  exact h.continues h.world (fun _ => List.Subset.refl _) hhigh hstream'
    hcontinues (popped_apply hstream.ok h.popped (.pop clock))

theorem stream_grown (h : ReceivingOk n s)
    (hremote : (w n).transport.remote = (s.world n).transport.remote)
    (hgrow : ∀ p, delivered ((s.world n).history p).log ⊆
      delivered ((w n).history p).log) :
    ∃ high, IsOrder ((s.world n).history (s.world n).transport.remote).log high ∧
      IsOrder ((w n).history (w n).transport.remote).log high ∧
      Streams high (Present (w n)) (ofPeer (w n).transport.remote) s.rq := by
  obtain ⟨high, hhigh, hstream⟩ := h.stream
  refine ⟨high, hhigh, ?_, ?_⟩
  · rw [hremote]
    exact hhigh.imp_right fun ⟨q, x, hx, hrest⟩ => ⟨q, x, hgrow _ hx, hrest⟩
  · rw [hremote]
    exact hstream.imp fun c hc => ⟨hc.1.trans hremote.symm, hc.2.mono hgrow⟩

theorem same (h : ReceivingOk n s) (hw : WorldOk w)
    (hview : SameView (s.world n) (w n)) :
    ReceivingOk n ⟨w, s.rq, s.popped⟩ := by
  have hgrow : ∀ p, delivered ((s.world n).history p).log ⊆
      delivered ((w n).history p).log := fun p => by
    rw [hview.delivered p]
    exact List.Subset.refl _
  obtain ⟨high, -, hhigh, hstream⟩ := h.stream_grown hview.remote hgrow
  exact h.continues hw hgrow hhigh hstream (.refl _ _) h.popped

/-- The node enters an epoch that it has not entered before. -/
theorem enter (h : ReceivingOk n s) (hw : WorldOk w) {epoch : Epoch}
    (hvalid : epoch.Valid) (hnew : epoch ∉ (s.world n).visited)
    (hremote : (w n).transport.remote = epoch)
    (hhistory : (w n).history = Function.update (s.world n).history epoch
      (Stint.begin (s.world n).transport epoch)) (clock : Time) :
    ReceivingOk n ⟨w, s.rq.rebaselineAt 1 clock, s.popped⟩ := by
  obtain ⟨⟨_, hmoves⟩, hok, hnext, hbuf, htrail⟩ :=
    rebaselineAt_spec s.rq one_ne_zero clock
  have hempty : ((s.world n).history epoch).log = [] := by
    rw [(h.world.node n).unvisited epoch hvalid hnew]
    rfl
  have hdelivered : ∀ p, delivered ((w n).history p).log =
      delivered ((s.world n).history p).log := by
    intro p
    rw [hhistory]
    by_cases hp : p = epoch
    · rw [hp, Function.update_self, hempty]
      rfl
    · rw [Function.update_of_ne hp]
  have hreleased : releasedFrames (s.rq.rebaselineAt 1 clock).trail =
      releasedFrames s.rq.trail := by
    rw [htrail]
    rfl
  have hsame : ∀ p, (s.rq.rebaselineAt 1 clock).releasedOf p =
      s.rq.releasedOf p := fun p => by
    rw [releasedOf, hreleased, releasedOf]
  -- no frame of the new peer has been released
  have hnone : s.rq.releasedOf (ofPeer epoch) = [] := by
    rw [releasedOf, List.map_eq_nil_iff, List.filter_eq_nil_iff]
    intro c hc hp
    obtain ⟨-, q, hq⟩ := h.released c hc
    rw [of_decide_eq_true hp, hempty] at hq
    cases hq
  refine ⟨hw, (Moves.window hmoves).trans h.window,
    Moves.popped hmoves h.popped, fun c hc => ?_, fun peer => ?_, 0, .inl rfl,
    hok, ⟨hnext.le, fun i c hc => ?_⟩, fun i c hc => ?_, ?_⟩
  · rw [hreleased] at hc
    exact (h.released c hc).mono fun p => by
      rw [hdelivered p]
      exact List.Subset.refl _
  · rw [hsame]
    exact h.ordered peer
  · rw [hok.filed.ring_eq_none hbuf i] at hc
    cases hc
  · rw [hok.filed.ring_eq_none hbuf i] at hc
    cases hc
  · rw [hremote]
    have hnil := (hsame (ofPeer epoch)).trans hnone
    exact ⟨by rw [hnil]; exact .nil, by simp [hnil]⟩

/-! ### A frame arrives -/

section Receive

variable {w : World} {path : PathID} {f : Control} {now : Time}
  {order : MapOrder}

theorem log_receive
    (hnode : w n = (s.world n).step (.receive path f now order)) (p : Epoch) :
    ((w n).history p).log = if p = (s.world n).transport.remote then
      .received path f (isCounted (s.world n).transport
        ((s.world n).transport.receive path f now order).1 f)
        ((s.world n).transport.receive path f now order).2 ::
          ((s.world n).history p).log
      else ((s.world n).history p).log := by
  rw [hnode]
  simp only [Node.step]
  rw [Node.history_record]
  split
  next hp =>
    subst hp
    rfl
  next => rfl

theorem remote_receive (h : ReceivingOk n s)
    (hnode : w n = (s.world n).step (.receive path f now order)) :
    (w n).transport.remote = (s.world n).transport.remote := by
  rw [hnode]
  exact (@NodeOk.remote_step _ _ (h.world.node n)
    (.receive path f now order) nofun).1

theorem delivered_grows (hnode : w n = (s.world n).step
      (.receive path f now order)) (p : Epoch) :
    delivered ((s.world n).history p).log ⊆ delivered ((w n).history p).log := by
  rw [log_receive hnode]
  split
  · exact (delivered_suffix (List.suffix_cons _ _)).subset
  · exact List.Subset.refl _

/-- What is delivered is no more than a window below the highest order seen. -/
theorem near (h : ReceivingOk n s) (hw : WorldOk w)
    (hnode : w n = (s.world n).step (.receive path f now order))
    {ds : List Delivery}
    (hok : ((s.world n).transport.receive path f now order).2 = .ok ds) :
    ds = [] ∨ ∃ d, ds = [d] ∧ (∃ q, (q, d) ∈
        delivered ((w n).history (w n).transport.remote).log) ∧
      (d.interactive = false → ∃ high,
        IsOrder ((w n).history (w n).transport.remote).log high ∧
        Streams high (Present (w n)) (ofPeer (w n).transport.remote) s.rq ∧
        d.sequence ≤ high ∧ high + 1 ≤ d.sequence + resequencerWindow) := by
  have hremote := remote_receive h hnode
  have hlog := log_receive hnode (w n).transport.remote
  rw [hremote, if_pos rfl, hok] at hlog
  have hentries := ((hw.node n).history (s.world n).transport.remote).log
  rw [hlog] at hentries
  rcases hentries.delivered_cons with ⟨rfl, -⟩ | ⟨q, d, rfl, hnew, hover⟩
  · exact .inl rfl
  rw [← hlog, ← hremote] at hnew
  have hd : (q, d) ∈ delivered ((w n).history (w n).transport.remote).log :=
    hnew ▸ List.mem_cons_self
  refine .inr ⟨d, rfl, ⟨q, hd⟩, fun hbulk => ?_⟩
  obtain ⟨high, hold, hhigh, hstream⟩ :=
    h.stream_grown hremote (delivered_grows hnode)
  have hpos := resequencerWindow_pos
  rcases Nat.lt_or_ge d.sequence high with hlt | hge
  · -- the highest order was delivered before, with a sequence less than a
    -- receipt window above
    refine ⟨high, hhigh, hstream, hlt.le, ?_⟩
    rcases hold with rfl | ⟨q', x, hx, hbulk', rfl⟩
    · omega
    have hgap : q' < q + maxPackets := by
      by_contra hfar
      exact hover ⟨q', ⟨x, hx⟩, not_lt.mp hfar⟩
    have hx' : (q', x) ∈
        delivered ((w n).history (w n).transport.remote).log := by
      rw [hremote]
      exact delivered_grows hnode _ hx
    have horder := hw.order_near hd hx' hbulk hbulk' hgap
    have hfits : maxPackets ≤ resequencerWindow := by decide
    omega
  · exact ⟨d.sequence, .inr ⟨q, d, hd, hbulk, rfl⟩, hstream.mono hge, le_rfl,
      by omega⟩

/-- A frame arrives, and what it delivers is fed to the resequencer. -/
theorem receive (h : ReceivingOk n s) (hw : WorldOk w)
    (hnode : w n = (s.world n).step (.receive path f now order))
    {ds : List Delivery}
    (hok : ((s.world n).transport.receive path f now order).2 = .ok ds)
    (source : α) (clock : Time) :
    ReceivingOk n ⟨w, feed s.rq (s.world n).transport.remote source clock ds,
      s.popped⟩ := by
  have hremote := remote_receive h hnode
  have hgrow := delivered_grows hnode
  -- the hold bound is set whatever is delivered
  have hheld : ReceivingOk n
      ⟨w, s.rq.setHoldBound adaptiveReorderHold, s.popped⟩ := by
    obtain ⟨high, -, hhigh, hstream⟩ := h.stream_grown hremote hgrow
    obtain ⟨hstream', hcontinues⟩ := hstream.setHoldBound adaptiveReorderHold
    exact h.continues hw hgrow hhigh hstream' hcontinues h.popped
  rcases near h hw hnode hok with rfl | ⟨d, rfl, ⟨q, hd⟩, hnear⟩
  · exact hheld
  cases hbulk : d.interactive with
  | true =>
    simp only [feed, List.foldl_cons, List.foldl_nil, hbulk, if_true]
    exact hheld
  | false =>
    simp only [feed, List.foldl_cons, List.foldl_nil, hbulk,
      Bool.false_eq_true, if_false]
    obtain ⟨high, hhigh, hstream, hle, hwithin⟩ := hnear hbulk
    obtain ⟨hset, hfirst⟩ := hstream.setHoldBound adaptiveReorderHold
    have hpresent : Present (w n) (⟨d.sequence, ⟨source,
        (s.world n).transport.remote, d.sequence⟩, d.payload, clock⟩ :
          Slot (Origin α)) := by
      refine ⟨hremote.symm, rfl, q, ?_⟩
      have hdelivery : d = ⟨d.sequence, false, d.payload⟩ := by
        rw [← hbulk]
      rw [hremote] at hd
      exact hdelivery ▸ hd
    have hwindow : (s.rq.setHoldBound adaptiveReorderHold).window =
        resequencerWindow := h.window
    obtain ⟨hend, hsecond⟩ :=
      hset.observe hle (by rw [hwindow]; exact hwithin) hpresent
    refine h.continues hw hgrow hhigh hend (hfirst.trans hsecond) ?_
    have hpopped := popped_apply hset.ok
      (show (s.rq.setHoldBound adaptiveReorderHold).Popped s.popped from
        h.popped) (.observe d.sequence d.payload
          ⟨source, (s.world n).transport.remote, d.sequence⟩ clock)
    rwa [pops, List.append_nil] at hpopped

end Receive

/-! ### Runs -/

theorem init (n : Epoch) : ReceivingOk n (Receiving.init : Receiving α) where
  world := WorldOk.init
  window := rfl
  popped := rfl
  released := nofun
  ordered := fun _ => .nil
  stream := ⟨0, .inl rfl,
    (sound_new resequencerWindow resequencerWindow_pos resequencerTimeout).ok,
    ⟨Nat.zero_le _, fun _ _ => nofun⟩, fun _ _ => nofun, .nil, nofun⟩

theorem step (h : ReceivingOk n s) (o : Occurrence α) :
    ReceivingOk n (s.step n o) := by
  cases o with
  | pop clock => exact h.pop clock
  | event e source clock =>
    have hw := h.world.step e
    simp only [Receiving.step, Receiving.resequence]
    rcases view_cases h.world n e with
      ⟨epoch, hentered, hvalid, hnew, hremote, hhistory⟩ |
      ⟨hentered, path, f, now, order, hreceived, hnode⟩ |
      ⟨hentered, hreceived, hview⟩
    · rw [if_pos hentered]
      exact h.enter hw hvalid hnew hremote hhistory clock
    · rw [if_neg (by rw [hentered]; exact Bool.false_ne_true), hreceived]
      cases hok : ((s.world n).transport.receive path f now order).2 with
      | ok => exact h.receive hw hnode hok source clock
      | error =>
        refine h.same hw ⟨remote_receive h hnode, fun p => ?_⟩
        rw [log_receive hnode, hok]
        split
        · exact delivered_error _ _ _ _ _
        · rfl
    · rw [if_neg (by rw [hentered]; exact Bool.false_ne_true), hreceived]
      exact h.same hw hview

theorem run (n : Epoch) (occurrences : List (Occurrence α)) :
    ReceivingOk n (Receiving.run n occurrences) :=
  List.foldlRecOn occurrences _ (init n) fun _ h o _ => h.step o

end ReceivingOk

/-! ## The bulk stream -/

theorem popped_orders {n : Epoch} {s : Receiving α} (h : ReceivingOk n s)
    (peer : Epoch) :
    (s.popped.filter fun i => decide (i.src.peer = peer)).map
      (fun i => i.src.order) <+: s.rq.releasedOf (ofPeer peer) := by
  have hstarts : s.popped <+: (releasedFrames s.rq.trail).map Slot.item :=
    ⟨_, h.popped⟩
  have hmapped := (hstarts.filter fun i => decide (i.src.peer = peer)).map
    fun i : Item (Origin α) => i.src.order
  rw [List.filter_map, List.map_map] at hmapped
  have horders : ((releasedFrames s.rq.trail).filter (ofPeer peer)).map
      (fun c => c.src.order) = s.rq.releasedOf (ofPeer peer) := by
    refine List.map_congr_left fun c hc => ?_
    exact (h.released c (List.mem_filter.mp hc).1).1
  rwa [← horders]

/-- Whatever the network does, the bulk orders popped of each peer's stream are
strictly increasing, every item popped is a bulk delivery of the transport under
its order, and no delivery is more than a window below the release point at
which it is observed, where the guard would take it for a restart. -/
theorem bulk_stream_in_order (n : Epoch) (occurrences : List (Occurrence α)) :
    let s := Receiving.run n occurrences
    (∀ peer, ((s.popped.filter fun i => decide (i.src.peer = peer)).map
      fun i => i.src.order).Pairwise (· < ·)) ∧
    (∀ i ∈ s.popped, ∃ q, (q, ⟨i.src.order, false, i.payload⟩) ∈
      delivered ((s.world n).history i.src.peer).log) ∧
    ∀ e ds d clock, received s.world n e = some ds → d ∈ ds →
      d.interactive = false →
      (((s.rq.setHoldBound adaptiveReorderHold).start d.sequence).expire
        clock).next ≤ d.sequence + resequencerWindow := by
  intro s
  have h : ReceivingOk n s := .run n occurrences
  refine ⟨fun peer => ?_, fun i hi => ?_, ?_⟩
  · exact (h.ordered peer).sublist (popped_orders h peer).sublist
  · have hstarts : s.popped <+: (releasedFrames s.rq.trail).map Slot.item :=
      ⟨_, h.popped⟩
    obtain ⟨c, hc, rfl⟩ := List.mem_map.mp (hstarts.subset hi)
    obtain ⟨horder, q, hq⟩ := h.released c hc
    exact ⟨q, horder ▸ hq⟩
  intro e ds d clock hreceived hd hbulk
  rcases view_cases h.world n e with ⟨epoch, hentered, -⟩ |
    ⟨-, path, f, now, order, hsome, hnode⟩ | ⟨-, hnone, -⟩
  · cases e with
    | deliver => cases hentered
    | call => cases hreceived
  · rw [hreceived] at hsome
    cases hok : ((s.world n).transport.receive path f now order).2 with
    | error =>
      rw [hok] at hsome
      cases hsome
    | ok ds' =>
      rw [hok] at hsome
      obtain rfl : ds = ds' := Option.some.inj hsome
      rcases ReceivingOk.near h (h.world.step e) hnode hok with
        rfl | ⟨d', rfl, -, hnear⟩
      · cases hd
      obtain rfl := List.mem_singleton.mp hd
      obtain ⟨high, -, hstream, hle, hwithin⟩ := hnear hbulk
      obtain ⟨hset, -⟩ := hstream.setHoldBound adaptiveReorderHold
      obtain ⟨hstart, hok, -⟩ : Moves high (· ≤ ·) _ _ ∧ _ :=
        start_spec hset.ok hle
      have hupto := Moves.upto hstart hset.upto
      have hexpire : Moves high (· ≤ ·) _ _ :=
        moves_expire hok hupto clock
      have hnext := (Moves.upto hexpire hupto).next_le
      omega
  · rw [hreceived] at hnone
    cases hnone

end Wanbond.Bind
