import Wanbond.Bond.LaneRelations

/-!
# The stages of an acknowledgement

The loops of `ack` edit a lane in a few ways.  What all these edits keep, the
loops keep, on every lane; the estimators of the acknowledged lane then start
from a lane that the loops have left.
-/

namespace Wanbond.Bond

open Wanbond.Support

/-! ## What the loops keep -/

/-- Every edit that the last pass makes to a lane keeps the property. -/
structure KeptByConfirm (now : Time) (P : Lane → Prop) : Prop where
  release : ∀ p heap a, P p → P (p.release heap a)
  observeOrder : ∀ p sent, P p → P (p.observeOrder now sent)
  confirm : ∀ p seq a, p.attempts.lookup seq = some a → P p →
    P (p.putAttempt seq { a with released := true, confirmed := true })
  observeFeedbackRTT : ∀ p sample, P p → P (p.observeFeedbackRTT sample)

/-- Every edit that the loops make to a lane keeps the property.  Two of them
are made for a fresh acknowledgement only. -/
structure KeptByLoops (now : Time) (fresh : Bool) (P : Lane → Prop) : Prop
    extends KeptByConfirm now P where
  credit : ∀ (p : Lane) (confirmed acked : ℕ), P p →
    P { p with confirmedWireBytes := confirmed, acked := acked }
  forget : ∀ p seq, P p → P (p.forget seq)
  observeHigh : fresh = true → ∀ p a sent sample, P p →
    P (p.observeHigh now a sent sample)
  remember : fresh = true → ∀ (p : Lane) (through : ℕ), P p →
    P { p with receivedThrough := through }

variable {p : Lane}

namespace KeptByConfirm

variable {now : Time} {P : Lane → Prop}

theorem releaseUnless (h : KeptByConfirm now P) (hp : P p) (heap : PacketHeap)
    (sent : Attempt) :
    P (if sent.released then p else p.release heap sent) := by
  split
  · exact hp
  · exact h.release _ _ _ hp

theorem confirmTurns (h : KeptByConfirm now P) (a : Acknowledgement)
    (keys : List ℕ) :
    ∀ s : Transport.Confirmation, P s.lane →
      P (keys.foldl (Transport.confirmTurn a now) s).lane := by
  induction keys with
  | nil => exact fun s hs => hs
  | cons _ _ ih =>
    refine fun s hs => ih _ ?_
    unfold Transport.confirmTurn
    split
    · exact hs
    next sent hsent =>
      split
      · exact hs
      split
      · refine h.confirm _ _ sent ?_ ?_
        · split
          · rwa [Lane.observeOrder_toLaneCore, Lane.clear_toLaneWire]
          · rwa [Lane.clear_toLaneWire]
        · split
          · exact h.observeOrder _ _ (h.releaseUnless hs _ sent)
          · exact h.releaseUnless hs _ sent
      · exact hs

end KeptByConfirm

namespace KeptByLoops

variable {now : Time} {fresh : Bool} {P : Lane → Prop} {a : Acknowledgement}

theorem confirmOnLane (h : KeptByLoops now fresh P) (hp : P p)
    (heap : PacketHeap) (seq : ℕ) (sent : Attempt) :
    P (Transport.confirmOnLane heap p seq sent) :=
  h.forget _ _ (h.credit _ _ _ (h.releaseUnless hp heap sent))

variable {s : Transport.Scan}

theorem scanConfirmed (h : KeptByLoops now fresh P) (hs : P s.lane) (seq : ℕ)
    (sent : Attempt) :
    P (Transport.scanConfirmed a now fresh s seq sent).lane := by
  dsimp only [Transport.scanConfirmed]
  generalize hs₁ : (if sent.confirmed then s else _) = s₁
  have hlane : P s₁.lane := by
    rw [← hs₁]
    split
    · exact hs
    · exact h.observeOrder _ _ hs
  have hconfirmed := h.confirmOnLane hlane s₁.transport.packets seq sent
  split
  next hfresh =>
    split
    · exact h.observeHigh hfresh.1 _ _ _ _ hconfirmed
    · exact hconfirmed
  next => exact hconfirmed

theorem scanKnown (h : KeptByLoops now fresh P) (hs : P s.lane) (seq : ℕ)
    (sent : Attempt) : P (Transport.scanKnown now s seq sent).lane := by
  dsimp only [Transport.scanKnown]
  refine h.forget _ _ ?_
  split
  · exact h.observeOrder _ _ (h.releaseUnless hs _ sent)
  · exact h.releaseUnless hs _ sent

theorem scanTurn (h : KeptByLoops now fresh P) (hs : P s.lane) (seq : ℕ) :
    P (Transport.scanTurn a now fresh s seq).lane := by
  unfold Transport.scanTurn
  split
  · exact hs
  next sent _ =>
    split
    · exact h.scanConfirmed hs seq sent
    · split
      · exact h.scanKnown hs seq sent
      · exact hs

theorem scanTurns (h : KeptByLoops now fresh P) (a : Acknowledgement)
    (keys : List ℕ) :
    ∀ s : Transport.Scan, P s.lane →
      P (keys.foldl (Transport.scanTurn a now fresh) s).lane :=
  fun _ hs => List.foldlRecOn (motive := fun s : Transport.Scan => P s.lane)
    keys _ hs fun _ hs k _ => h.scanTurn hs k

theorem scan (h : KeptByLoops now fresh P) (hp : P p) (t : Transport)
    (a : Acknowledgement) (order : MapOrder) :
    P (t.scan p a now fresh order).lane :=
  h.scanTurns a _ _ hp

theorem arrivedTurns (h : KeptByLoops now fresh P) (keys : List ℕ) :
    ∀ s : Transport × Lane, P s.2 →
      P (keys.foldl (Transport.arrivedTurn a) s).2 := by
  induction keys with
  | nil => exact fun s hs => hs
  | cons k _ ih =>
    refine fun s hs => ih _ ?_
    unfold Transport.arrivedTurn
    split
    · exact hs
    · split
      · exact hs
      · exact h.confirmOnLane hs _ k _

theorem settlePrefix (h : KeptByLoops now fresh P) (hs : P s.lane)
    (order : MapOrder) : P (Transport.settlePrefix s a fresh order).2 := by
  unfold Transport.settlePrefix
  split
  next hfresh =>
    have hremember : P (Transport.rememberThrough s) := by
      unfold Transport.rememberThrough
      split
      · exact hs
      · exact h.remember hfresh _ _ hs
    dsimp only
    split
    · unfold Transport.confirmArrived
      split
      · exact hremember
      · exact h.arrivedTurns _ _ hremember
    · exact hremember
  next => exact hs

end KeptByLoops

theorem KeptByLoops.relation {now : Time} {fresh : Bool} {P : Lane → Prop}
    (h : KeptByLoops now fresh P) (p : Lane) :
    KeptByLoops now fresh fun q => P p → P q where
  release q heap a hq hp := h.release q heap a (hq hp)
  observeOrder q sent hq hp := h.observeOrder q sent (hq hp)
  credit q confirmed acked hq hp := h.credit q confirmed acked (hq hp)
  forget q seq hq hp := h.forget q seq (hq hp)
  confirm q seq a ha hq hp := h.confirm q seq a ha (hq hp)
  observeFeedbackRTT q sample hq hp := h.observeFeedbackRTT q sample (hq hp)
  observeHigh hfresh q a sent sample hq hp :=
    h.observeHigh hfresh q a sent sample (hq hp)
  remember hfresh q through hq hp := h.remember hfresh q through (hq hp)

/-! ## The loops over the lanes of a transport -/

variable (a : Acknowledgement) (now : Time) (fresh : Bool)

variable {t : Transport} {q : Lane}

namespace Transport

section Loops

variable {R : Lane → Lane → Prop} {now : Time} {fresh : Bool}

/-- The pass over one lane. -/
theorem lanesBy_confirmLane (hrefl : ∀ p, R p p)
    (hR : ∀ p, KeptByConfirm now (R p)) (a : Acknowledgement)
    (order : MapOrder) (acknowledged : PathID) (feedback : Duration)
    (t : Transport) (id : PathID) :
    LanesBy R t (t.confirmLane a now order acknowledged feedback id) := by
  unfold confirmLane
  split
  · exact .of_paths hrefl rfl
  next path hpath =>
    dsimp only
    generalize order.keys .confirm id path.attempts.keys = keys
    generalize (if id = acknowledged then feedback else 0) = feedback'
    have hpaths :=
      (turns_confirmTurns a now keys ⟨t, path, feedback'⟩).same.paths
    have hlane := (hR path).confirmTurns a keys
      ⟨t, path, feedback'⟩ (hrefl path)
    have hid := (turns_confirmTurns a now keys ⟨t, path, feedback'⟩).id
    generalize keys.foldl (confirmTurn a now) ⟨t, path, feedback'⟩ = s
      at hpaths hlane hid ⊢
    have hid' : (s.lane.observeFeedbackRTT s.feedback).id = id :=
      ((Lane.id_of_core (Lane.observeFeedbackRTT_toLaneCore _ _)).trans
        hid).trans (id_of_find hpath)
    have hfind : s.transport.find (s.lane.observeFeedbackRTT s.feedback).id =
        some path := by
      rwa [hid', find, hpaths]
    have hset := LanesBy.setLane hrefl hfind
      ((hR path).observeFeedbackRTT _ _ hlane)
    intro j
    have := hset j
    rwa [show s.transport.find j = t.find j by rw [find, find, hpaths]] at this

theorem lanesBy_confirmLanes (hrefl : ∀ p, R p p)
    (htrans : ∀ p q r, R p q → R q r → R p r)
    (hR : ∀ p, KeptByConfirm now (R p)) (a : Acknowledgement)
    (order : MapOrder) (acknowledged : PathID) (feedback : Duration)
    (ids : List PathID) :
    ∀ t : Transport, LanesBy R t
      (ids.foldl (confirmLane a now order acknowledged feedback) t) := by
  induction ids with
  | nil => exact fun t => .of_paths hrefl rfl
  | cons id ids ih =>
    exact fun t => (lanesBy_confirmLane hrefl hR a order acknowledged
      feedback t id).trans htrans (ih _)

/-- All loops, from the transport with the acknowledged lane written back. -/
theorem lanesBy_settle (hrefl : ∀ p, R p p)
    (htrans : ∀ p q r, R p q → R q r → R p r)
    (hR : ∀ p, KeptByLoops now fresh (R p)) (hfind : t.find p.id = some q)
    (a : Acknowledgement) (order : MapOrder) :
    LanesBy R (t.setLane p) (t.settle p a now fresh order) := by
  dsimp only [settle]
  have hscan := (hR p).scan (hrefl p) t a order
  obtain ⟨hsame, hid⟩ := same_settlePrefix a now fresh t p order
  generalize t.scan p a now fresh order = s at hscan hsame hid ⊢
  have hlane := (hR p).settlePrefix (a := a) hscan order
  have hpaths := hsame.paths
  generalize settlePrefix s a fresh order = r at hlane hid hpaths ⊢
  have hwrite : LanesBy R (t.setLane p) (r.1.setLane r.2) := by
    have hagain := LanesBy.setLane_again hrefl hfind hid hlane
    refine hagain.trans htrans (.of_paths hrefl ?_)
    simp only [setLane, hpaths]
  exact hwrite.trans htrans
    (lanesBy_confirmLanes hrefl htrans (fun p => (hR p).toKeptByConfirm) a order
      _ _ _ _)

end Loops

end Transport

/-! ## Gauges across the loops -/

theorem Lane.length_clearTransitBases :
    clearTransitBases.length = transitBuckets :=
  List.length_replicate

theorem Lane.sameGauges_observeHigh (p : Lane) (now : Time)
    (a : Acknowledgement) (sent : Attempt) (sample : Duration) :
    p.SameGauges (p.observeHigh now a sent sample) := by
  have hidle : ∀ (q : Lane) (transit : Duration),
      q.SameGauges (q.observeIdleForward transit) := fun q transit =>
    .ite ⟨rfl, id, rfl, rfl, le_rfl⟩ ⟨rfl, id, rfl, rfl, le_rfl⟩
  have hbaseline : ∀ q : Lane, q.SameGauges (q.endBaseline sample) := by
    intro q
    dsimp only [endBaseline]
    split
    · exact ⟨rfl, id, rfl, rfl, le_rfl⟩
    · exact ⟨rfl, fun _ => length_clearTransitBases, rfl, rfl, le_rfl⟩
  have htransit : ∀ (q : Lane) (transit : Duration) (bytes : ℕ),
      q.SameGauges (q.observeTransit now transit bytes) := by
    intro q transit bytes
    have hset : ∀ bucket baseline,
        q.transitBases.length = transitBuckets →
          (q.transitBases.set bucket baseline).length = transitBuckets :=
      fun _ _ h => List.length_set.trans h
    exact .ite ⟨rfl, hset _ _, rfl, rfl, le_rfl⟩
      ⟨rfl, hset _ _, rfl, rfl, le_rfl⟩
  refine Lane.SameGauges.trans ?_ (htransit _ _ _)
  have hfirst : ∀ transit, p.SameGauges
      (if sent.packet.isNone = true ∧ now - p.lastPayload ≥ feedbackHorizon then
        p.observeIdleForward transit else p) := fun transit =>
    .ite (hidle p transit) (.refl p)
  exact .ite ((hfirst _).trans (hbaseline _)) (hfirst _)

theorem Lane.sameGauges_observeRTT (p : Lane) (now : Time)
    (sample : Duration) : p.SameGauges (p.observeRTT now sample) := by
  have hidle : ∀ q : Lane, q.SameGauges (q.observeIdleRTT now sample) :=
    fun q => .ite (.ite ⟨rfl, id, rfl, rfl, le_rfl⟩
      ⟨rfl, id, rfl, rfl, le_rfl⟩) (.refl q)
  set q : Lane := { p with
    rttVariation := (3 * p.rttVariation + |sample - p.rtt|).tdiv 4 }
  have hq : p.SameGauges q := ⟨rfl, id, rfl, rfl, le_rfl⟩
  have hrtt : ∀ r : Lane, p.SameGauges r →
      p.SameGauges { r with rtt := (7 * r.rtt + sample).tdiv 8 } :=
    fun r hr => hr.trans ⟨rfl, id, rfl, rfl, le_rfl⟩
  have hidle' := hrtt _ (hq.trans (hidle q))
  refine .ite (.ite ?_ hidle') (.refl p)
  exact hidle'.trans ⟨rfl, id, rfl, rfl, le_rfl⟩

theorem keptByLoops_sameGauges (p : Lane) :
    KeptByLoops now fresh p.SameGauges where
  release q heap a h := h.trans (q.sameGauges_release heap a)
  observeOrder q sent h := by
    refine h.trans ?_
    exact .ite ⟨rfl, id, rfl, rfl, le_rfl⟩ (.refl q)
  credit q confirmed acked h := h.trans ⟨rfl, id, rfl, rfl, le_rfl⟩
  forget q seq h := h.trans ⟨rfl, id, rfl, rfl, le_rfl⟩
  confirm q seq a _ h := h.trans ⟨rfl, id, rfl, rfl, le_rfl⟩
  observeFeedbackRTT q sample h := by
    refine h.trans ?_
    exact .ite (.refl q) (.ite ⟨rfl, id, rfl, rfl, le_rfl⟩
      ⟨rfl, id, rfl, rfl, le_rfl⟩)
  observeHigh _ q a sent sample h :=
    h.trans (q.sameGauges_observeHigh now a sent sample)
  remember _ q through h := h.trans ⟨rfl, id, rfl, rfl, le_rfl⟩

/-! ## The lane that the estimators hear -/

variable {x : Heard}

namespace Transport

/-- The lane after the loops, when the end of a stall has been noted. -/
def heardLane (q : Lane) (progressed : Bool) (silence : Duration) (s : Scan) :
    Lane :=
  let q := { q with newestConfirmed := s.newestConfirmed }
  if progressed ∧ silence ≥ stallSilence ∧ silence < pathLease ∧
      s.physicalFeedback ≥ silence then q.stallEnded silence else q

/-- What the loops hand to the estimators: the transport with the lanes as the
loops have left them, the acknowledged lane, what the scan of its attempts
found, and the signals of the scheduler. -/
structure Heard where
  transport : Transport
  lane : Lane
  scan : Scan
  signals : Lane.Signals

/-- The part of `ack` before the estimators. -/
def hear (t : Transport) (p : Lane) (a : Acknowledgement) (now : Time)
    (fresh : Bool) (order : MapOrder) : Option Heard :=
  let silence := p.model.progressAge now
  let progressed := progresses p a fresh
  let p := noteProgress p a now progressed
  let backlogged := decide (t.queued > 0) ||
    decide (p.inflight ≥ p.window.tdiv 2)
  let s := t.scan p a now fresh order
  let t := t.settle p a now fresh order
  (t.find p.id).map fun q =>
    { transport := t
      lane := heardLane q progressed silence s
      scan := s
      signals :=
        { backlogged := backlogged
          laneLimited := t.laneLimited now
          realtime := decide (t.demand.realtime.rate now > 0)
          stream := t.demand.realtime.steady now } }

namespace Heard

/-- The lane once the loss ledger and the delivery round are up to date. -/
def judged (x : Heard) (a : Acknowledgement) (now : Time) (fresh : Bool) :
    Lane :=
  observeLoss x.transport.packets x.lane a now fresh x.scan.high

/-- The lane as the control interval finds it. -/
def measured (x : Heard) (a : Acknowledgement) (now : Time) : Lane :=
  let p := ((x.judged a now true).observeRTT now x.scan.sample).observeRate now a
  let p := { p with
    peakDelivery := max p.peakDelivery p.deliveryRate
    ackedBytes := a.bytes
    ackedElapsed := a.elapsed
    recentDelivery := p.recentDelivery.record now p.deliveryRate }
  (p.boundByDelivery now x.signals.stream).1.observeGap now

/-- The transport once the control interval has had its say. -/
def concluded (x : Heard) (a : Acknowledgement) (now : Time) : Transport :=
  { x.transport.setLane ((x.measured a now).controlInterval now x.scan.sample
      x.signals) with
    demand := { x.transport.demand with
      realtime := x.transport.demand.realtime.rotate now } }

end Heard

theorem ack_fresh {a : Acknowledgement} {now : Time} {order : MapOrder}
    (h : t.hear p a now true order = some x) :
    t.ack p a now true order = x.concluded a now := by
  unfold ack
  dsimp only at h ⊢
  obtain ⟨q, hq, hx⟩ := Option.map_eq_some_iff.mp h
  rw [hq]
  subst hx
  rfl

theorem sameGauges_heardLane (q : Lane) (progressed : Bool)
    (silence : Duration) (s : Scan) :
    q.SameGauges (heardLane q progressed silence s) := by
  exact .ite ⟨rfl, id, rfl, rfl, le_rfl⟩ ⟨rfl, id, rfl, rfl, le_rfl⟩

theorem sameGauges_noteProgress (p : Lane) (a : Acknowledgement) (now : Time)
    (progressed : Bool) : p.SameGauges (noteProgress p a now progressed) := by
  exact .ite ⟨rfl, id, rfl, rfl, le_rfl⟩ ⟨rfl, id, rfl, rfl, le_rfl⟩

theorem gauges_settle (hfind : t.find p.id = some q) (hsame : q.SameGauges p)
    (a : Acknowledgement) (now : Time) (fresh : Bool) (order : MapOrder) :
    LanesBy Lane.SameGauges t (t.settle p a now fresh order) :=
  (gauges_setLane hfind hsame).gauges_trans
    (lanesBy_settle .refl (fun _ _ _ h h' => h.trans h')
      (keptByLoops_sameGauges now fresh) hfind a order)

/-- What the estimators hear has the gauges that the lanes had before. -/
theorem gauges_hear (hfind : t.find p.id = some q) (hsame : q.SameGauges p)
    (a : Acknowledgement) (now : Time) (fresh : Bool) (order : MapOrder) :
    ∃ x, t.hear p a now fresh order = some x ∧
      LanesBy Lane.SameGauges t x.transport ∧
      x.transport = t.settle (noteProgress p a now (progresses p a fresh)) a now
        fresh order ∧
      x.lane.id = p.id ∧ q.SameGauges x.lane := by
  have hsettle := gauges_settle (by rwa [noteProgress_id])
    (hsame.trans (sameGauges_noteProgress p a now (progresses p a fresh))) a now
    fresh order
  obtain ⟨q', hq', hsame'⟩ := hsettle.find' hfind
  have hq'' : (t.settle (noteProgress p a now (progresses p a fresh)) a now fresh
      order).find (noteProgress p a now (progresses p a fresh)).id = some q' := by
    rwa [noteProgress_id]
  refine ⟨_, by unfold hear; dsimp only; rw [hq'']; rfl, hsettle, rfl, ?_,
    hsame'.trans (sameGauges_heardLane _ _ _ _)⟩
  have hid' : q'.id = p.id := id_of_find hq'
  dsimp only [heardLane]
  split <;> exact hid'

theorem high_scan (t : Transport) (p : Lane) (a : Acknowledgement) (now : Time)
    (order : MapOrder) : (t.scan p a now false order).high = none := by
  rw [Option.eq_none_iff_forall_ne_some]
  intro sent hsent
  exact Bool.false_ne_true ((found_scan a now false t p order).high sent hsent).1

theorem ack_late {a : Acknowledgement} {now : Time} {order : MapOrder}
    (h : t.hear p a now false order = some x) :
    t.ack p a now false order = x.transport.setLane x.lane := by
  unfold ack
  dsimp only at h ⊢
  obtain ⟨q, hq, hx⟩ := Option.map_eq_some_iff.mp h
  rw [hq]
  subst hx
  have hhigh := t.high_scan
    (noteProgress p a now (progresses p a false)) a now order
  unfold estimate observeLoss recordLoss
  simp only [Bool.false_eq_true, false_and, if_false, hhigh, Bool.not_false,
    if_true]
  rfl

theorem gauges_ack_late (hfind : t.find p.id = some q) (hsame : q.SameGauges p)
    (a : Acknowledgement) (now : Time) (order : MapOrder) :
    LanesBy Lane.SameGauges t (t.ack p a now false order) := by
  obtain ⟨x, hx, hgauges, -, hid, hlane⟩ :=
    gauges_hear hfind hsame a now false order
  rw [ack_late hx]
  exact hgauges.write (by rw [hid]; exact hfind) hlane

/-! ## What `Receive` does to the lanes -/

end Transport

/-- The lane with other marks of what was received on it. -/
def Lane.Remarked (p q : Lane) : Prop :=
  ∃ received receipts, q = { p with
    bulkReceived := received
    ackReceipts := receipts }

namespace Transport

theorem remarked_of_paths {u : Transport} (h : u.paths = t.paths) :
    LanesBy Lane.Remarked t u :=
  .of_paths (fun p => ⟨p.bulkReceived, p.ackReceipts, rfl⟩) h

/-- The frame is an acknowledgement that passes validation, and `Receive`
processes it, in whichever order its loops range over their maps. -/
structure Processes (t : Transport) (path : PathID) (f : Control) (now : Time)
    (p : Lane) (a : Acknowledgement) : Prop where
  find : t.find path = some p
  body : ∃ header, f.body = .ack header (some a)
  clock : t.lastTime ≤ now
  possible : t.impossible p f.seq a = false
  result : ∀ order, t.receive path f now order =
    (({ t with lastTime := now } : Transport).ack (noteRevision p f.seq) a now
      (isFresh p f.seq) order, .ok [])

variable {path : PathID} {f : Control}

section Receive

variable {t : Transport}

theorem remarked_receiveData {path : Lane} (hfind : t.find path.id = some path)
    (lane : PathID) (seq : ℕ) (fields : Option DataFields) (now : Time) :
    LanesBy Lane.Remarked t (t.receiveData path lane seq fields now).1 := by
  rcases t.receiveData_cases path lane seq fields now with ⟨e, -, heq⟩ |
    ⟨u, deliveries, _, _, _, _, heq, rfl | rfl⟩
  · rw [heq]
    exact remarked_of_paths rfl
  · rw [heq]
    exact remarked_of_paths rfl
  rw [heq]
  exact LanesBy.setLane (p := { path with
    bulkReceived := path.bulkReceived + 1 })
    (fun p => ⟨p.bulkReceived, p.ackReceipts, rfl⟩) hfind
    ⟨path.bulkReceived + 1, path.ackReceipts, rfl⟩

theorem remarked_note (hfind : t.find p.id = some p) (revision : ℕ) :
    LanesBy Lane.Remarked t (t.setLane { p with
      ackReceipts := (p.ackReceipts.mark revision).2 }) :=
  .setLane (p := { p with ackReceipts := (p.ackReceipts.mark revision).2 })
    (fun p => ⟨p.bulkReceived, p.ackReceipts, rfl⟩) hfind
    ⟨p.bulkReceived, (p.ackReceipts.mark revision).2, rfl⟩

/-- An acknowledgement that reaches `ack` is processed. -/
theorem processes_of_validate {seq : ℕ} {now : Time} {header : PacketHeader}
    {a : Acknowledgement} (hclock : t.lastTime ≤ now)
    (hvalid : ({ t with lastTime := now } : Transport).validate path header seq
      now = .ok p)
    (hpossible : ({ t with lastTime := now } : Transport).impossible p seq a =
      false)
    (hack : ∀ order, ({ t with lastTime := now } : Transport).receiveAck p
      header.lane seq (some a) now order =
        (({ t with lastTime := now } : Transport).ack (noteRevision p seq) a now
          (isFresh p seq) order, .ok [])) :
    Processes t path ⟨seq, .ack header (some a)⟩ now p a := by
  refine ⟨(validate_ok hvalid).2.2.1, ⟨header, rfl⟩, hclock, hpossible, ?_⟩
  intro order
  rcases t.receive_cases path ⟨seq, .ack header (some a)⟩ now order with
    ⟨hback, -⟩ | ⟨-, hr⟩
  · exact absurd hclock (not_le.mpr hback)
  · rw [hr]
    simp only [receiveAt, onLane, hvalid, hack]
    rfl

/-- `Receive` changes the marks of lanes, unless it processes an
acknowledgement. -/
theorem receive_lanes (t : Transport) (path : PathID) (f : Control)
    (now : Time) (order : MapOrder) :
    LanesBy Lane.Remarked t (t.receive path f now order).1 ∨
      ∃ p a, Processes t path f now p a := by
  have hreport : ∀ r : Received, (report r).1.paths = r.1.paths := by
    rintro ⟨u, result⟩
    cases result <;> rfl
  have hkeep : ∀ r : Received, r.1.paths = t.paths →
      LanesBy Lane.Remarked t (report r).1 := fun r h =>
    remarked_of_paths ((hreport r).trans h)
  -- the clock and the counter of rejections are not on a lane
  have hagain : ∀ {u : Transport} {r : Received}, u.paths = t.paths →
      LanesBy Lane.Remarked u r.1 → LanesBy Lane.Remarked t (report r).1 := by
    intro u r hu h id
    have hu' : u.find id = t.find id := by rw [Transport.find, Transport.find, hu]
    have hr : (report r).1.find id = r.1.find id := by
      rw [Transport.find, Transport.find, hreport]
    rw [hr, ← hu']
    exact h id
  rcases t.receive_cases path f now order with ⟨-, hr⟩ | ⟨hclock, hr⟩
  · rw [hr]
    exact Or.inl (hkeep _ rfl)
  obtain ⟨seq, body⟩ := f
  set u : Transport := { t with lastTime := now } with hu
  rw [hr]
  cases body with
  | malformed => exact Or.inl (hkeep _ rfl)
  | other =>
    simp only [receiveAt, onLane]
    split <;> exact Or.inl (hkeep _ rfl)
  | data header fields =>
    simp only [receiveAt, onLane]
    split
    · exact Or.inl (hkeep _ rfl)
    next p hv =>
      have hfind := (validate_ok hv).2.2.1
      obtain rfl := id_of_find hfind
      exact Or.inl (hagain rfl
        (remarked_receiveData hfind header.lane seq fields now))
  | ack header fields =>
    simp only [receiveAt, onLane]
    cases hv : u.validate path header seq now with
    | error e => exact Or.inl (hkeep _ rfl)
    | ok p =>
      have hfind := (validate_ok hv).2.2.1
      obtain rfl := id_of_find hfind
      dsimp only
      rcases u.receiveAck_cases p header.lane seq fields now with
        ⟨e, -, heq⟩ | ⟨-, e, -, heq⟩ | ⟨a, rfl, -, -, hpossible, -, hack⟩
      · rw [heq]
        exact Or.inl (hkeep _ rfl)
      · rw [heq]
        exact Or.inl (@hagain u (_, .error e) rfl (remarked_note hfind seq))
      · exact Or.inr ⟨p, a, processes_of_validate hclock hv hpossible hack⟩

/-- An acknowledgement that `Receive` accepts is processed. -/
theorem processes_of_accepted {now : Time} {order : MapOrder}
    {header : PacketHeader} {a : Acknowledgement}
    (hbody : f.body = .ack header (some a)) {deliveries : List Delivery}
    (hok : (t.receive path f now order).2 = .ok deliveries) :
    ∃ p, Processes t path f now p a := by
  have hreport : ∀ {r : Received} {e : RejectionError}, r.2 = .error e →
      (report r).2 ≠ .ok deliveries := by
    rintro ⟨u, result⟩ e rfl
    exact nofun
  obtain ⟨seq, body⟩ := f
  obtain rfl : body = .ack header (some a) := hbody
  rcases t.receive_cases path ⟨seq, .ack header (some a)⟩ now order with
    ⟨-, hr⟩ | ⟨hclock, hr⟩
  · rw [hr] at hok
    exact absurd hok (hreport rfl)
  rw [hr] at hok
  simp only [receiveAt, onLane] at hok
  cases hv : ({ t with lastTime := now } : Transport).validate path header seq
      now with
  | error e =>
    rw [hv] at hok
    exact absurd hok (hreport rfl)
  | ok p =>
    rw [hv] at hok
    have hfind := (validate_ok hv).2.2.1
    obtain rfl := id_of_find hfind
    rcases Transport.receiveAck_cases _ p header.lane seq (some a) now with
      ⟨e, -, heq⟩ | ⟨-, e, -, heq⟩ | ⟨b, hb, -, -, hpossible, -, hack⟩
    · exact absurd hok (hreport (congrArg Prod.snd (heq order)))
    · exact absurd hok (hreport (congrArg Prod.snd (heq order)))
    · cases hb
      exact ⟨p, processes_of_validate hclock hv hpossible hack⟩

end Receive

/-- The frame is an acknowledgement newer than those accepted on its lane, and
`Receive` processes it. -/
structure ProcessesFresh (t : Transport) (path : PathID) (f : Control)
    (now : Time) (order : MapOrder) (p : Lane) (a : Acknowledgement)
    (x : Heard) : Prop where
  find : t.find path = some p
  body : ∃ header, f.body = .ack header (some a)
  clock : t.lastTime ≤ now
  fresh : isFresh p f.seq = true
  possible : t.impossible p f.seq a = false
  heard : ({ t with lastTime := now } : Transport).hear (noteRevision p f.seq) a
    now true order = some x
  result : t.receive path f now order = (x.concluded a now, .ok [])

section Receive

variable {t : Transport}

/-- `Receive` leaves the gauges of every lane, unless it processes a fresh
acknowledgement. -/
theorem gauges_receive (t : Transport) (path : PathID) (f : Control)
    (now : Time) (order : MapOrder) :
    LanesBy Lane.SameGauges t (t.receive path f now order).1 ∨
      ∃ p a x, ProcessesFresh t path f now order p a x := by
  rcases t.receive_lanes path f now order with hmarks | ⟨p, a, h⟩
  · refine Or.inl (hmarks.mono ?_)
    rintro p q ⟨received, receipts, rfl⟩
    exact ⟨rfl, id, rfl, rfl, le_rfl⟩
  obtain rfl := id_of_find h.find
  have hnote : p.SameGauges (noteRevision p f.seq) :=
    ⟨rfl, id, rfl, rfl, le_rfl⟩
  have hfind : ({ t with lastTime := now } : Transport).find
      (noteRevision p f.seq).id = some p := h.find
  have hresult := h.result order
  cases hfresh : isFresh p f.seq with
  | false =>
    rw [hfresh] at hresult
    rw [hresult]
    exact Or.inl ((gauges_of_paths rfl).gauges_trans
      (gauges_ack_late hfind hnote a now order))
  | true =>
    rw [hfresh] at hresult
    obtain ⟨x, hx, -⟩ := gauges_hear hfind hnote a now true order
    exact Or.inr ⟨p, a, x, h.find, h.body, h.clock, hfresh, h.possible, hx,
      by rw [hresult, ack_fresh hx]⟩

theorem ProcessesFresh.lanes {now : Time} {order : MapOrder}
    {a : Acknowledgement} (h : ProcessesFresh t path f now order p a x) :
    LanesBy Lane.SameGauges t x.transport ∧ x.lane.id = path ∧
      p.SameGauges x.lane := by
  obtain rfl := id_of_find h.find
  obtain ⟨x', hx', hgauges, -, hid, hlane⟩ := gauges_hear
    (t := { t with lastTime := now }) (p := noteRevision p f.seq) h.find
    ⟨rfl, id, rfl, rfl, le_rfl⟩ a now true order
  obtain rfl : x' = x := Option.some.inj (hx'.symm.trans h.heard)
  exact ⟨(gauges_of_paths rfl).gauges_trans hgauges, hid, hlane⟩

theorem Heard.measured_id (x : Heard) (a : Acknowledgement) (now : Time) :
    (x.measured a now).id = x.lane.id := by
  have hmeasured : (x.measured a now).toLaneCore = { x.lane.toLaneCore with
      ackedBytes := a.bytes
      ackedElapsed := a.elapsed } := by
    dsimp only [measured, judged]
    rw [Lane.observeGap_toLaneCore, Lane.boundByDelivery_toLaneCore]
    rw [Lane.observeRate_toLaneCore, Lane.observeRTT_toLaneCore,
      observeLoss_toLaneCore]
  rw [hmeasured]

/-- The lanes after a fresh acknowledgement: its own lane, as the control
interval leaves it, and the others with the gauges they had. -/
theorem ProcessesFresh.find_concluded {now : Time} {order : MapOrder}
    {a : Acknowledgement} (h : ProcessesFresh t path f now order p a x)
    {id : PathID} (hq : (x.concluded a now).find id = some q) :
    id = path ∧ q = (x.measured a now).controlInterval now x.scan.sample
        x.signals ∨
      ∃ q₀, t.find id = some q₀ ∧ q₀.SameGauges q := by
  obtain ⟨hgauges, hid, -⟩ := h.lanes
  set p' := (x.measured a now).controlInterval now x.scan.sample x.signals
    with hp'
  have hid' : p'.id = path := by
    rw [hp', Lane.controlInterval_toLaneCore, x.measured_id, hid]
  have hset : (x.transport.setLane p').find id = some q := hq
  by_cases hpath : id = p'.id
  · subst hpath
    obtain ⟨p₀, hp₀, -⟩ := hgauges.find' (hid' ▸ h.find)
    rw [find_setLane_self hp₀] at hset
    exact Or.inl ⟨hid', (Option.some.inj hset).symm⟩
  · rw [find_setLane_ne hpath] at hset
    exact Or.inr (hgauges.find hset)

end Receive

end Transport

end Wanbond.Bond
