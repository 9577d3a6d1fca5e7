import Wanbond.Bond.AckConfluence

/-!
# When the order of iteration shows

A split packet is still split once the receipts have been read, and what tells
the two orders apart is neither touched by the pass over the lanes nor by the
estimators.  So the state after an accepted acknowledgement is independent of
the order of its loops exactly when no packet is split.
-/

namespace Wanbond.Bond

open Wanbond.Support

namespace Transport

variable {t : Transport} {p : Lane} {a : Acknowledgement} {now : Time}

/-! ## Receipts of a split packet -/

/-- Pending packets are listed under their sequences. -/
def Filed (t : Transport) : Prop :=
  ∀ q ref, t.pending.lookup q = some ref → (t.packets ref).seq = q

theorem filed_of_kept (h : t.books.Kept) : t.Filed := by
  obtain ⟨stamped, hkept⟩ := h
  exact fun q ref hq => ((hkept.pending.pending q ref).mp hq).2.1

/-- A receipt marks the packet that it names. -/
theorem Filed.receiptTurn (h : t.Filed) {sent : Attempt}
    (hunknown : t.known a sent = false) (k : ℕ) :
    (receiptTurn a t k).Filed ∧ (receiptTurn a t k).known a sent = false := by
  unfold Transport.receiptTurn
  split
  · exact ⟨h, hunknown⟩
  next ref hk =>
    split
    next hreceived =>
      have hseq := h k ref hk
      refine ⟨fun q ref' hq => ?_, ?_⟩
      · have hq' : t.pending.lookup q = some ref' := by
          by_cases hqk : q = k
          · rw [hqk, show ({ t.ackPacket ref with
              pending := t.pending.erase k } : Transport).pending =
                t.pending.erase k from rfl, AList.lookup_erase] at hq
            cases hq
          · rwa [show ({ t.ackPacket ref with
              pending := t.pending.erase k } : Transport).pending =
                t.pending.erase k from rfl, AList.lookup_erase_ne hqk] at hq
        have hold := h q ref' hq'
        show (Function.update t.packets ref _ ref').seq = q
        by_cases href : ref' = ref
        · rw [href, Function.update_self]
          exact href ▸ hold
        · rwa [Function.update_of_ne href]
      · -- the packet marked here is another one: this one is not received
        cases hpacket : sent.packet with
        | none => simp [known, hpacket]
        | some ref' =>
          have hne : ref' ≠ ref := by
            rintro rfl
            simp [known, hpacket, hseq, hreceived] at hunknown
          simp only [known, hpacket, Option.any_some] at hunknown ⊢
          show ((Function.update t.packets ref _ ref').acked ||
            a.received (Function.update t.packets ref _ ref').seq) = false
          rwa [Function.update_of_ne hne]
    next => exact ⟨h, hunknown⟩

theorem Filed.unknown_receiptTurns {sent : Attempt} (keys : List ℕ) :
    ∀ t : Transport, t.Filed → t.known a sent = false →
      (keys.foldl (Transport.receiptTurn a) t).known a sent = false := by
  induction keys with
  | nil => exact fun t _ h => h
  | cons k _ ih =>
    intro t ht hunknown
    obtain ⟨hfiled, hstill⟩ := ht.receiptTurn hunknown k
    exact ih _ hfiled hstill

/-! ## The pass over the lanes and the estimators -/

theorem acked_release (q : Lane) (heap : PacketHeap) (sent : Attempt) :
    (q.release heap sent).acked = q.acked := by
  unfold Lane.release
  cases sent.packet <;> rfl

/-- The pass over the lanes forgets no attempt and credits no bytes. -/
theorem keptByConfirm_mark (now : Time) (p : Lane) :
    KeptByConfirm now fun q => ∀ low, mark low q = mark low p where
  release q heap sent h low := by
    have hattempts := congrArg LaneWire.attempts (q.release_toLaneWire heap sent)
    rw [← h low]
    unfold mark
    rw [hattempts, acked_release]
  observeOrder q sent h low := by
    rw [← h low]
    exact congrArg (fun c : LaneCore => (c.acked, (c.attempts.lookup low).isSome))
      (q.observeOrder_toLaneCore now sent)
  confirm q k sent hsent h low := by
    rw [← h low]
    show (q.acked, ((q.attempts.insert k _).lookup low).isSome) = _
    by_cases hlow : low = k
    · rw [hlow, AList.lookup_insert, mark, hsent]
      rfl
    · rw [AList.lookup_insert_ne hlow]
      rfl
  observeFeedbackRTT q sample h low := by
    rw [← h low]
    exact congrArg (fun c : LaneCore => (c.acked, (c.attempts.lookup low).isSome))
      (q.observeFeedbackRTT_toLaneCore sample)

/-- The acknowledged lane carries the mark that the complete prefix left. -/
theorem find_settle_mark {q : Lane} (hfind : t.find p.id = some q)
    (a : Acknowledgement) (now : Time) (fresh : Bool) (order : MapOrder) (low : ℕ) :
    ∃ r, (t.settle p a now fresh order).find p.id = some r ∧
      mark low r =
        mark low (settlePrefix (t.scan p a now fresh order) a fresh order).2 := by
  obtain ⟨hsame, hid⟩ := same_settlePrefix a now fresh t p order
  have hpaths := hsame.paths
  dsimp only [settle]
  generalize t.scan p a now fresh order = s at hpaths hid ⊢
  generalize settlePrefix s a fresh order = r at hid hpaths ⊢
  have hold : r.1.find r.2.id = some q := by
    rwa [hid, find, hpaths]
  have hset : (r.1.setLane r.2).find p.id = some r.2 := by
    rw [← hid]
    exact find_setLane_self hold
  have hlanes := lanesBy_confirmLanes
    (R := fun p q => ∀ low, mark low q = mark low p) (fun _ _ => rfl)
    (fun _ _ _ h h' low => (h' low).trans (h low)) (keptByConfirm_mark now) a
    order r.2.id s.physicalFeedback
    ((r.1.setLane r.2).paths.map fun p => p.id) (r.1.setLane r.2)
  obtain ⟨q', hq', hmark⟩ := hlanes.find' hset
  exact ⟨q', hq', hmark low⟩

/-- The same after the estimators. -/
theorem find_ack_mark {q : Lane} (hfind : t.find p.id = some q)
    (a : Acknowledgement) (now : Time) (fresh : Bool) (order : MapOrder) (low : ℕ) :
    ∃ r, (t.ack p a now fresh order).find p.id = some r ∧
      mark low r = mark low (settlePrefix
        (t.scan (noteProgress p a now (progresses p a fresh)) a now fresh order) a
          fresh order).2 := by
  have hid := noteProgress_id p now a (progresses p a fresh)
  have hfind' : t.find (noteProgress p a now (progresses p a fresh)).id =
      some q := by
    rwa [hid]
  obtain ⟨q', hq', hmark⟩ := find_settle_mark hfind' a now fresh order low
  dsimp only [ack]
  rw [hq']
  obtain ⟨r, demand, heq, hcore⟩ := Transport.estimate_eq
    (t.settle (noteProgress p a now (progresses p a fresh)) a now fresh order) q' a
    now fresh (progresses p a fresh) (decide (t.queued > 0) ||
      decide ((noteProgress p a now (progresses p a fresh)).inflight ≥
        (noteProgress p a now (progresses p a fresh)).window.tdiv 2))
    (p.model.progressAge now)
    (t.scan (noteProgress p a now (progresses p a fresh)) a now fresh order)
  have hrid : r.id = p.id := by
    have := congrArg (fun c : LaneCore => c.id) hcore
    have hq'id := id_of_find hq'
    rw [hid] at hq'id
    exact this.trans hq'id
  refine ⟨r, ?_, ?_⟩
  · dsimp only
    rw [heq]
    rw [← hrid]
    exact find_setLane_self (hrid ▸ hid ▸ hq')
  have hsame := congrArg
    (fun c : LaneCore => (c.acked, (c.attempts.lookup low).isSome)) hcore
  rw [← hmark]
  cases fresh <;> exact hsame

/-! ## Accepted acknowledgements -/

/-- Where a packet is split, two orders of the scan leave different lanes. -/
theorem ack_tells_order {q : Lane} (hfind : t.find p.id = some q)
    (hfiled : t.Filed) (hp : p.Timed now) (hsplit : Split t p a) (fresh : Bool) :
    ¬(t.ack p a now fresh (bitmapOrder a true)).SameMaps
      (t.ack p a now fresh (bitmapOrder a false)) := by
  obtain ⟨low, named, sent, sent', ref, hlow, hnamed, hpacket, hpacket', hlt, hfar,
    hbit, hunknown⟩ := hsplit
  obtain ⟨r, hr, hmark⟩ := find_ack_mark hfind a now fresh (bitmapOrder a true) low
  obtain ⟨r', hr', hmark'⟩ := find_ack_mark hfind a now fresh (bitmapOrder a false)
    low
  intro hsame
  -- the lanes of states that differ in their maps only have the same mark
  have hequal : mark low r = mark low r' := by
    rcases hsame.find_cases p.id with ⟨h, -⟩ | ⟨x, y, hx, hy, hxy⟩
    · rw [hr] at h
      cases h
    obtain rfl := Option.some.inj (hr.symm.trans hx)
    obtain rfl := Option.some.inj (hr'.symm.trans hy)
    unfold mark
    rw [hxy.attempts low, hxy.rest]
    rfl
  rw [hmark, hmark'] at hequal
  have hattempts : (noteProgress p a now (progresses p a fresh)).attempts =
      p.attempts := by
    rw [noteProgress_toLaneCore]
  refine mark_settlePrefix_ne (hattempts ▸ hlow) ?_ (hattempts ▸ hnamed) hpacket
    hpacket' hlt hfar hbit (hfiled.unknown_receiptTurns _ t hunknown) hequal
  exact (hp.attempts low sent hlow).bytes

end Transport

/-- The state after an accepted acknowledgement is the same for every order of
the loops exactly when no attempt below the bitmap shares its packet, not known
to have arrived, with an attempt that the bitmap names. -/
theorem ack_order_irrelevant_iff
    (epoch : Epoch) (calls : List Call) (path : PathID) (f : Control)
    (header : PacketHeader) (a : Acknowledgement) (now : Time) (order : MapOrder)
    (deliveries : List Delivery)
    (hbody : f.body = .ack header (some a))
    (haccepted : ((Transport.run epoch calls).receive path f now order).2 =
      .ok deliveries) :
    (∀ o₁ o₂ : MapOrder,
        ((Transport.run epoch calls).receive path f now o₁).1.SameMaps
          ((Transport.run epoch calls).receive path f now o₂).1) ↔
      ∀ p, (Transport.run epoch calls).find path = some p →
        ¬Transport.Split (Transport.run epoch calls) p a := by
  obtain ⟨p, h⟩ := Transport.processes_of_accepted hbody haccepted
  obtain rfl := Transport.id_of_find h.find
  have htimed := Transport.timed_run epoch calls
  have hsound := Transport.sound_run epoch calls
  generalize Transport.run epoch calls = t at h htimed hsound ⊢
  have hnow : 0 ≤ now := htimed.start.trans h.clock
  have hp : (Transport.noteRevision p f.seq).Timed now :=
    Lane.timed_of_account (htimed.lanes_mono h.clock h.find) rfl
  constructor
  · intro hsame q hq hsplit
    obtain rfl := Option.some.inj (h.find.symm.trans hq)
    have hboth := hsame (Transport.bitmapOrder a true)
      (Transport.bitmapOrder a false)
    rw [h.result, h.result] at hboth
    exact Transport.ack_tells_order (t := { t with lastTime := now })
      (p := Transport.noteRevision p f.seq) h.find
      (Transport.filed_of_kept hsound.kept) hp hsplit _ hboth
  intro hnone o₁ o₂
  rw [h.result, h.result]
  have hlanes : ∀ id q, ({ t with lastTime := now } : Transport).find id =
      some q → q.Timed now := fun id q hq => htimed.lanes_mono h.clock hq
  have hnot : ¬Transport.Split { t with lastTime := now }
      (Transport.noteRevision p f.seq) a := hnone p h.find
  exact Transport.ack_sameMaps hnow hlanes hp hnot _ o₁ o₂

/-- An acknowledgement to the sender of the runs below. -/
def claiming (high : ℕ) (bytes elapsed : ℕ) : Acknowledgement where
  observed := ⟨1, 1⟩
  high := high
  mask := 1
  bytes := bytes
  elapsed := elapsed
  delay := 0
  receivedHigh := 0
  receivedMask := WordMask.empty _

/-- A lane to a known peer comes up and sends its keepalive. -/
def greeting : List Call :=
  [.setRemote ⟨2, 1⟩ true, .path 1 1 0 second,
    .poll (second + 200 * millisecond) .plain]

theorem ack_order_irrelevant_iff_greeting :
    ((Transport.run ⟨1, 1⟩ greeting).receive 1
        ⟨1, .ack ⟨⟨2, 1⟩, 1⟩ (some (claiming 1 120 1))⟩
        (second + 300 * millisecond) .plain).2 =
      .ok [] ∧
    ((∀ o₁ o₂ : MapOrder,
      ((Transport.run ⟨1, 1⟩ greeting).receive 1
        ⟨1, .ack ⟨⟨2, 1⟩, 1⟩ (some (claiming 1 120 1))⟩
        (second + 300 * millisecond) o₁).1.SameMaps
      ((Transport.run ⟨1, 1⟩ greeting).receive 1
        ⟨1, .ack ⟨⟨2, 1⟩, 1⟩ (some (claiming 1 120 1))⟩
        (second + 300 * millisecond) o₂).1) ↔
      ∀ p, (Transport.run ⟨1, 1⟩ greeting).find 1 = some p →
        ¬Transport.Split (Transport.run ⟨1, 1⟩ greeting) p (claiming 1 120 1)) := by
  have haccepted : ((Transport.run ⟨1, 1⟩ greeting).receive 1
      ⟨1, .ack ⟨⟨2, 1⟩, 1⟩ (some (claiming 1 120 1))⟩
      (second + 300 * millisecond) .plain).2 =
      .ok [] := by
    decide +kernel
  exact ⟨haccepted, ack_order_irrelevant_iff ⟨1, 1⟩ greeting 1 _ _ _ _ .plain []
    rfl haccepted⟩

/-- Packet 1 is sent as frame 2 of its lane and repaired as frame 69, after 65
further datagrams. -/
def repairedFarBelow : List Call :=
  let metadata : PacketMetadata :=
    ⟨FlowID.zero, ⟨false, 0, 0, 0, 0, false, 0, 0⟩⟩
  let at_ (n : ℤ) : Time := second + n * millisecond
  let report (revision high bytes elapsed : ℕ) (n : ℤ) : Call :=
    .receive 1 ⟨revision, .ack ⟨⟨2, 1⟩, 1⟩ (some (claiming high bytes elapsed))⟩
      (at_ n) .plain
  [.setRemote ⟨2, 1⟩ true, .path 1 1 0 (at_ 0),
    .enqueue (List.replicate 9000 7) metadata (at_ 0), .poll (at_ 0) .plain,
    report 1 1 9129 10 1,
    .enqueue [1] metadata (at_ 73), .enqueue [2] metadata (at_ 73),
    .poll (at_ 73) .plain, .enqueue [3] metadata (at_ 74),
    report 2 3 (2 ^ 50) second.toNat 130] ++
  List.replicate 64 (.enqueue [3] metadata (at_ 130)) ++
  [.poll (at_ 131) .plain, report 3 68 (2 ^ 50) second.toNat 190,
    .poll (at_ 198) .plain]

/-- The acknowledgement of the repair alone. -/
def namesRepair : Control :=
  ⟨4, .ack ⟨⟨2, 1⟩, 1⟩ (some (claiming 69 (2 ^ 50) second.toNat))⟩

/-- The acknowledgement of the repair, its named attempts read first or last. -/
def afterRepair (namedFirst : Bool) : Transport.Received :=
  (Transport.run ⟨1, 1⟩ repairedFarBelow).receive 1 namesRepair
    (second + 199 * millisecond)
    (Transport.bitmapOrder (claiming 69 (2 ^ 50) second.toNat) namedFirst)

/-- Read first, the repair takes the original attempt with it; read last, it
leaves it on the lane. -/
theorem ack_order_shows :
    (afterRepair true).2 = .ok [] ∧ (afterRepair false).2 = .ok [] ∧
      ¬(afterRepair true).1.SameMaps (afterRepair false).1 := by
  have hmarks : (fun first last : Transport.Received =>
      let original (r : Transport.Received) :=
        (r.1.find 1).map fun p => (p.attempts.lookup 2).isSome
      decide (first.2 = .ok []) && decide (last.2 = .ok []) &&
        decide (original first = some false) && decide (original last = some true))
      (afterRepair true) (afterRepair false) = true := by
    decide +kernel
  simp only [Bool.and_eq_true, decide_eq_true_eq] at hmarks
  obtain ⟨⟨⟨haccepted, haccepted'⟩, hfirst⟩, hlast⟩ := hmarks
  refine ⟨haccepted, haccepted', fun hsame => ?_⟩
  obtain ⟨p, hp, hgone⟩ := Option.map_eq_some_iff.mp hfirst
  obtain ⟨q, hq, hkept⟩ := Option.map_eq_some_iff.mp hlast
  rcases hsame.find_cases 1 with ⟨h, -⟩ | ⟨x, y, hx, hy, hxy⟩
  · rw [hp] at h
    cases h
  obtain rfl := Option.some.inj (hp.symm.trans hx)
  obtain rfl := Option.some.inj (hq.symm.trans hy)
  rw [hxy.attempts 2, hgone] at hkept
  cases hkept

end Wanbond.Bond
