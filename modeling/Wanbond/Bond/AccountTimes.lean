import Wanbond.Bond.BooksCalls
import Wanbond.Bond.Clock
import Wanbond.Bond.LaneAccount

/-!
# The times in a lane's account

No attempt was sent, and none confirmed, later than the last call.  The meter
of reordering has started, if at all, at such a time.  Records made in it at one
time can then be exchanged.
-/

namespace Wanbond.Bond

open Wanbond.Support

/-! ## Records at one time -/

namespace Peak

variable {m : Peak} {now : Time}

/-- The meter has a length and did not start before the clock. -/
structure Regular (m : Peak) : Prop where
  length : 0 < m.length
  start : 0 ≤ m.ring.start

theorem Regular.rotate (h : m.Regular) (hnow : 0 ≤ now) :
    (m.rotate now).Regular :=
  ⟨h.length, (BucketRing.rotate_current h.length h.start hnow).1⟩

theorem Regular.record (h : m.Regular) (hnow : 0 ≤ now) (value : ℚ) :
    (m.record now value).Regular :=
  ⟨h.length, (h.rotate hnow).start⟩

/-- Values recorded at one time may be exchanged. -/
theorem record_comm (h : m.Regular) (hnow : 0 < now) (v w : ℚ) :
    (m.record now v).record now w = (m.record now w).record now v := by
  have hring : ∀ v w, ((m.record now v).record now w).ring =
      (m.ring.rotate m.length now).modify fun x => max (max x v) w := by
    intro v w
    show (((m.ring.rotate m.length now).modify (max · v)).rotate m.length
      now).modify (max · w) = _
    rw [BucketRing.rotate_modify_rotate h.length h.start hnow,
      BucketRing.modify_modify]
  have hcomm : (fun x : ℚ => max (max x v) w) = fun x => max (max x w) v := by
    funext x
    exact max_right_comm x v w
  have hsame : ∀ v w, (m.record now v).record now w =
      { m with ring := ((m.record now v).record now w).ring } := fun _ _ => rfl
  rw [hsame v w, hsame w v, hring, hring, hcomm]

theorem regular_ofBucket {bucket : Duration} (h : 0 < bucket) :
    (ofBucket bucket).Regular := by
  refine ⟨?_, le_rfl⟩
  show 0 < if bucket = 0 then peakBucket else bucket
  rwa [if_neg h.ne']

end Peak

/-! ## The account at a time -/

/-- The attempt has bytes, and was made within the time. -/
structure Attempt.Made (clock : Time) (a : Attempt) : Prop where
  start : 0 ≤ a.sent
  stop : a.sent ≤ clock
  bytes : 0 < a.bytes

structure Account.Timed (clock : Time) (x : Account) : Prop where
  reordering : x.reordering.Regular
  newest : x.newestConfirmed ≤ clock
  attempts : ∀ k a, x.attempts.lookup k = some a → a.Made clock

namespace Account.Timed

variable {clock now : Time} {x : Account}

theorem mono (h : x.Timed clock) (hnow : clock ≤ now) : x.Timed now :=
  ⟨h.reordering, h.newest.trans hnow, fun k a ha =>
    ⟨(h.attempts k a ha).start, (h.attempts k a ha).stop.trans hnow,
      (h.attempts k a ha).bytes⟩⟩

theorem erase (h : x.Timed clock) (k : ℕ) :
    ({ x with attempts := x.attempts.erase k } : Account).Timed clock := by
  refine ⟨h.reordering, h.newest, ?_⟩
  intro j a ha
  by_cases hj : j = k
  · subst hj
    simp at ha
  · exact h.attempts j a (by rwa [← AList.lookup_erase_ne hj])

theorem insert (h : x.Timed clock) (k : ℕ) {a : Attempt} (ha : a.Made clock) :
    ({ x with attempts := x.attempts.insert k a } : Account).Timed clock := by
  refine ⟨h.reordering, h.newest, ?_⟩
  intro j b hb
  by_cases hj : j = k
  · subst hj
    rw [AList.lookup_insert] at hb
    cases hb
    exact ha
  · exact h.attempts j b (by rwa [← AList.lookup_insert_ne hj])

end Account.Timed

variable {q : Lane}

namespace Lane

variable {p : Lane} {now : Time}

/-- The account of the lane is within the time. -/
def Timed (clock : Time) (p : Lane) : Prop := p.account.Timed clock

theorem timed_of_account (h : p.Timed now) (haccount : q.account = p.account) :
    q.Timed now := by
  rwa [Timed, haccount]

theorem timed_of_empty (hattempts : p.attempts = ∅)
    (hreordering : p.reordering = Peak.ofBucket reorderMemory)
    (hnewest : p.newestConfirmed = 0) (hnow : 0 ≤ now) : p.Timed now := by
  refine ⟨?_, ?_, ?_⟩
  · show p.reordering.Regular
    rw [hreordering]
    exact Peak.regular_ofBucket (by decide)
  · show p.newestConfirmed ≤ now
    rwa [hnewest]
  intro k a ha
  have hlookup : p.attempts.lookup k = some a := ha
  rw [hattempts] at hlookup
  cases hlookup

theorem timed_release (h : p.Timed now) (heap : PacketHeap) (a : Attempt) :
    (p.release heap a).Timed now := by
  unfold release
  cases a.packet with
  | none | some => exact ⟨h.reordering, h.newest, h.attempts⟩

theorem timed_observeOrder (h : p.Timed now) (hnow : 0 ≤ now) (sent : Time) :
    (p.observeOrder now sent).Timed now := by
  unfold observeOrder
  split
  · exact ⟨h.reordering.record hnow _, h.newest, h.attempts⟩
  · exact h

theorem timed_beginAttempt (h : p.Timed now) : (p.beginAttempt now).Timed now := by
  unfold beginAttempt
  split <;> exact h

/-- A transmission at this time. -/
theorem timed_attempt (h : p.Timed now) (hnow : 0 ≤ now) {k : ℕ} {a : Attempt}
    (hsent : a.sent = now) (hbytes : 0 < a.bytes)
    (hattempts : q.attempts = (p.beginAttempt now).attempts.insert k a)
    (hreordering : q.reordering = (p.beginAttempt now).reordering)
    (hnewest : q.newestConfirmed = (p.beginAttempt now).newestConfirmed) :
    q.Timed now := by
  have hinsert := Account.Timed.insert (timed_beginAttempt h) k (a := a)
    ⟨hsent ▸ hnow, hsent.le, hbytes⟩
  refine ⟨?_, ?_, ?_⟩
  · show q.reordering.Regular
    rw [hreordering]
    exact hinsert.reordering
  · show q.newestConfirmed ≤ now
    rw [hnewest]
    exact hinsert.newest
  · show ∀ k a, q.attempts.lookup k = some a → _
    rw [hattempts]
    exact hinsert.attempts

/-- What `Poll` does to a lane. -/
theorem keptByPoll_timed (hnow : 0 ≤ now) : KeptByPoll now (Timed now) where
  release _ heap a h := timed_release h heap a
  forget _ seq h := Account.Timed.erase h seq
  mark p seq a ha h := by
    have hmade := h.attempts seq a ha
    exact Account.Timed.insert h seq ⟨hmade.start, hmade.stop, hmade.bytes⟩
  rebase p h := by
    unfold Transport.rebase
    split <;> exact h
  feedback _ h := h
  keepalive _ h := timed_attempt h hnow rfl (by decide : 0 < wireOverhead) rfl
    rfl rfl
  count _ _ h := h
  attempt _ _ d h := by
    have hbytes : 0 < d.wireBytes := Nat.lt_add_left _ (by decide)
    exact timed_attempt h hnow rfl hbytes rfl rfl rfl
  shares p q hshares h := by
    have hcore := congrArg (fun parts => parts.1) hshares
    have htiming := congrArg (fun parts => parts.2.2.1) hshares
    refine ⟨?_, ?_, ?_⟩
    · have hreordering : q.reordering = p.reordering :=
        congrArg (fun x : LaneTiming => x.reordering) htiming
      show q.reordering.Regular
      rw [hreordering]
      exact h.reordering
    · have hnewest : q.newestConfirmed = p.newestConfirmed :=
        congrArg (fun x : LaneTiming => x.newestConfirmed) htiming
      show q.newestConfirmed ≤ now
      rw [hnewest]
      exact h.newest
    have hattempts : q.attempts = p.attempts :=
      congrArg (fun x : LaneCore => x.attempts) hcore
    show ∀ k a, q.attempts.lookup k = some a → _
    rw [hattempts]
    exact h.attempts

theorem keptByLoops_timed (hnow : 0 ≤ now) (fresh : Bool) :
    KeptByLoops now fresh (Timed now) where
  release _ heap a h := timed_release h heap a
  observeOrder _ sent h := timed_observeOrder h hnow sent
  credit _ _ _ h := ⟨h.reordering, h.newest, h.attempts⟩
  forget _ seq h := Account.Timed.erase h seq
  confirm _ seq a ha h := by
    have hmade := h.attempts seq a ha
    exact Account.Timed.insert h seq ⟨hmade.start, hmade.stop, hmade.bytes⟩
  observeFeedbackRTT p sample h :=
    timed_of_account h ((aside_observeFeedbackRTT sample).account p)
  observeHigh _ p a sent sample h :=
    timed_of_account h ((aside_observeHigh now sample a sent).account p)
  remember _ _ _ h := h

end Lane

/-! ## Acknowledgements -/

namespace Transport

variable {now : Time} {a : Acknowledgement} {fresh : Bool}

/-- The newest confirmed attempt of the scan is within the time as well. -/
structure Scan.Timed (now : Time) (s : Scan) : Prop where
  lane : s.lane.Timed now
  newest : s.newestConfirmed ≤ now

variable {s : Scan}

theorem Scan.Timed.scanConfirmed (h : s.Timed now) {seq : ℕ} {sent : Attempt}
    (hsent : s.lane.attempts.lookup seq = some sent) :
    (scanConfirmed a now fresh s seq sent).newestConfirmed ≤ now := by
  have hmade := h.lane.attempts seq sent hsent
  dsimp only [Transport.scanConfirmed]
  generalize hs₁ : (if sent.confirmed then s else _) = s₁
  have hnewest : s₁.newestConfirmed ≤ now := by
    rw [← hs₁]
    split
    · exact h.newest
    show (if _ then _ else _) ≤ now
    split
    · exact h.newest
    · exact hmade.stop
  split
  · split <;> exact hnewest
  · exact hnewest

theorem Scan.Timed.turn (h : s.Timed now) (hnow : 0 ≤ now) (seq : ℕ) :
    (scanTurn a now fresh s seq).Timed now := by
  refine ⟨(Lane.keptByLoops_timed hnow fresh).scanTurn h.lane seq, ?_⟩
  unfold scanTurn
  split
  · exact h.newest
  next sent hsent =>
    split
    · exact h.scanConfirmed hsent
    · split <;> exact h.newest

theorem Scan.Timed.turns (hnow : 0 ≤ now) (keys : List ℕ) :
    ∀ s : Scan, s.Timed now →
      (keys.foldl (scanTurn a now fresh) s).Timed now :=
  fun _ h => List.foldlRecOn keys _ h fun _ h k _ => h.turn hnow k

variable {p : Lane}

theorem timed_scan (t : Transport) (hp : p.Timed now) (hnow : 0 ≤ now)
    (a : Acknowledgement) (fresh : Bool) (order : MapOrder) :
    (t.scan p a now fresh order).Timed now :=
  Scan.Timed.turns hnow _ _ ⟨hp, hp.newest⟩

theorem timed_noteProgress (hp : p.Timed now) (progressed : Bool) :
    (noteProgress p a now progressed).Timed now := by
  dsimp only [noteProgress]
  split <;> exact hp

theorem timed_heardLane (hp : p.Timed now) (hs : s.newestConfirmed ≤ now)
    (progressed : Bool) (silence : Duration) :
    (heardLane p progressed silence s).Timed now := by
  dsimp only [heardLane]
  split <;> exact ⟨hp.reordering, hs, hp.attempts⟩

theorem timed_observeLoss (hp : p.Timed now) (hnow : 0 ≤ now)
    (heap : PacketHeap) (a : Acknowledgement) (fresh : Bool)
    (high : Option Attempt) :
    (observeLoss heap p a now fresh high).Timed now := by
  have hrecord : (recordLoss heap p a now high).Timed now := by
    cases high with
    | none => exact hp
    | some => exact ⟨hp.reordering.rotate hnow, hp.newest, hp.attempts⟩
  dsimp only [observeLoss]
  split <;> exact hrecord

variable {t : Transport} {id : PathID}

theorem find_setLane_cases (h : (t.setLane p).find id = some q) :
    q = p ∨ t.find id = some q := by
  by_cases hid : id = p.id
  · have hmem : q ∈ t.paths.map fun r => if r.id = p.id then p else r :=
      Keyed.mem_of_lookup h
    obtain ⟨r, -, hr⟩ := List.mem_map.mp hmem
    have hq : q.id = p.id := (id_of_find h).trans hid
    split at hr
    · exact Or.inl hr.symm
    next hne =>
      subst hr
      exact absurd hq hne
  · rw [find_setLane_ne hid] at h
    exact Or.inr h

theorem timed_estimate (ht : ∀ id p, t.find id = some p → p.Timed now)
    (hp : t.find p.id = some p) (hs : s.newestConfirmed ≤ now) (hnow : 0 ≤ now)
    (progressed backlogged : Bool) (silence : Duration)
    (hq : (t.estimate p a now fresh progressed backlogged
      silence s).find id = some q) : q.Timed now := by
  have hheard := timed_heardLane (ht p.id p hp) hs progressed silence
  have hjudged := timed_observeLoss hheard hnow t.packets a fresh s.high
  have hwrite : ∀ {r : Lane}, r.Timed now →
      (t.setLane r).find id = some q → q.Timed now := by
    intro r hr hfind
    rcases find_setLane_cases hfind with rfl | hold
    · exact hr
    · exact ht id q hold
  dsimp only [estimate] at hq
  split at hq
  · exact hwrite hjudged hq
  · exact hwrite (Lane.timed_of_account hjudged
      ((Lane.aside_observeFresh now s.sample a _).account _)) hq

theorem timed_settle (ht : ∀ id p, t.find id = some p → p.Timed now)
    (hfind : t.find p.id = some q) (hp : p.Timed now) (hnow : 0 ≤ now)
    (order : MapOrder) {r : Lane}
    (hr : (t.settle p a now fresh order).find id = some r) : r.Timed now := by
  have hlanes := lanesBy_settle (fun _ h => h)
    (fun _ _ _ hone htwo h => htwo (hone h))
    (Lane.keptByLoops_timed hnow fresh).relation hfind a order
  obtain ⟨r', hr', hkept⟩ := hlanes.find hr
  refine hkept ?_
  rcases find_setLane_cases hr' with rfl | hold
  · exact hp
  · exact ht id r' hold

theorem timed_ack (ht : ∀ id p, t.find id = some p → p.Timed now)
    (hfind : t.find p.id = some q) (hp : p.Timed now) (hnow : 0 ≤ now)
    (order : MapOrder) {r : Lane}
    (hr : (t.ack p a now fresh order).find id = some r) : r.Timed now := by
  have hprogress := timed_noteProgress (a := a) hp (progresses p a fresh)
  have hfind' : t.find (noteProgress p a now (progresses p a fresh)).id =
      some q := by
    rwa [noteProgress_toLaneCore]
  have hscan := timed_scan t hprogress hnow a fresh order
  have hsettle : ∀ id r, (t.settle (noteProgress p a now (progresses p a fresh))
      a now fresh order).find id = some r → r.Timed now := fun id r h =>
    timed_settle ht hfind' hprogress hnow order h
  dsimp only [ack] at hr
  split at hr
  · exact hsettle id r hr
  next q' hq' =>
    have hq'' := hq'
    rw [← id_of_find hq'] at hq''
    exact timed_estimate hsettle hq'' hscan.newest hnow _ _ _ hr

/-! ## Runs -/

/-- The account of every lane is within the time of the last call. -/
structure Timed (t : Transport) : Prop where
  start : 0 ≤ t.lastTime
  lanes : ∀ id p, t.find id = some p → p.Timed t.lastTime

namespace Timed

variable {t : Transport}

theorem lanes_mono (h : t.Timed) (hnow : t.lastTime ≤ now)
    (hp : t.find id = some p) : p.Timed now :=
  Account.Timed.mono (h.lanes id p hp) hnow

theorem later (h : t.Timed) {u : Transport} (hnow : t.lastTime ≤ u.lastTime)
    (hlanes : ∀ id q, u.find id = some q → q.Timed u.lastTime ∨
      ∃ p, t.find id = some p ∧ q.account = p.account) : u.Timed := by
  refine ⟨h.start.trans hnow, fun id q hq => ?_⟩
  rcases hlanes id q hq with hq | ⟨p, hp, haccount⟩
  · exact hq
  · exact Lane.timed_of_account (h.lanes_mono hnow hp) haccount

theorem enqueue (h : t.Timed) (payload : Bytes) (metadata : PacketMetadata)
    (now : Time) : (t.enqueue payload metadata now).1.Timed := by
  obtain ⟨hpaths, hclock⟩ := t.enqueue_frame payload metadata now
  refine h.later ((le_max_left _ _).trans hclock.ge) fun id q hq => ?_
  rw [find, hpaths] at hq
  exact Or.inr ⟨q, hq, rfl⟩

theorem poll (h : t.Timed) (hkept : t.books.Kept) (now : Time)
    (order : MapOrder) : (t.poll now order).1.Timed := by
  have hclock := poll_lastTime hkept now order
  refine h.later ((le_max_left _ _).trans hclock.ge) fun id q hq => ?_
  by_cases hnow : now < t.lastTime
  · have hsame : (t.poll now order).1 = t := by
      unfold Transport.poll checkTime
      rw [if_pos hnow]
    rw [hsame] at hq
    exact Or.inr ⟨q, hq, rfl⟩
  have hnow := not_lt.mp hnow
  obtain ⟨p, hp, htimed⟩ := ((Lane.keptByPoll_timed
    (h.start.trans hnow)).relation.poll hkept order).find hq
  rw [hclock, max_eq_right hnow]
  exact Or.inl (htimed (h.lanes_mono hnow hp))

theorem receive (h : t.Timed) (path : PathID) (f : Control) (now : Time)
    (order : MapOrder) : (t.receive path f now order).1.Timed := by
  have hclock := receive_lastTime t path f now order
  refine h.later ((le_max_left _ _).trans hclock.ge) fun id q hq => ?_
  rcases t.receive_lanes path f now order with hmarks | ⟨p, a, hprocesses⟩
  · obtain ⟨p, hp, received, receipts, rfl⟩ := hmarks.find hq
    exact Or.inr ⟨p, hp, rfl⟩
  have hnow := hprocesses.clock
  rw [hprocesses.result order] at hq
  rw [hclock, max_eq_right hnow]
  obtain rfl := id_of_find hprocesses.find
  have hlanes : ∀ id p, ({ t with lastTime := now } : Transport).find id =
      some p → p.Timed now := fun id p hp => h.lanes_mono hnow hp
  have hnoted : (noteRevision p f.seq).Timed now :=
    Lane.timed_of_account (h.lanes_mono hnow hprocesses.find) rfl
  exact Or.inl (timed_ack (p := noteRevision p f.seq) hlanes hprocesses.find
    hnoted (h.start.trans hnow) order hq)

theorem path (h : t.Timed) (id remoteID : PathID) (rtt : Duration)
    (now : Time) : (t.path id remoteID rtt now).1.Timed := by
  have hclock : t.lastTime ≤ (t.path id remoteID rtt now).1.lastTime :=
    (le_max_left _ _).trans (path_lastTime t id remoteID rtt now).ge
  refine h.later hclock fun j q hq => ?_
  rcases find_path hq with ⟨p, lease, hp, rfl⟩ | ⟨rtt, rfl⟩
  · exact Or.inr ⟨p, hp, rfl⟩
  · exact Or.inl (Lane.timed_of_empty rfl rfl rfl (h.start.trans hclock))

theorem disable (h : t.Timed) (id : PathID) : (t.disable id).Timed := by
  refine h.later (disable_lastTime t id).ge fun j q hq => ?_
  obtain ⟨p, lease, hp, rfl⟩ := find_disable hq
  exact Or.inr ⟨p, hp, rfl⟩

theorem setRemote (h : t.Timed) (epoch : Epoch) (adopted : Bool) :
    (t.setRemote epoch adopted).1.Timed := by
  refine h.later (setRemote_lastTime t epoch adopted).ge fun j q hq => ?_
  cases haccept : t.acceptsRemote epoch adopted with
  | false =>
    have hsame : (t.setRemote epoch adopted).1 = t := by
      unfold Transport.setRemote
      rw [haccept]
      rfl
    rw [hsame] at hq
    exact Or.inr ⟨q, hq, rfl⟩
  | true =>
    obtain ⟨p, hp, rfl⟩ := find_setRemote haccept hq
    refine Or.inl (Lane.timed_of_empty ?_ ?_ ?_
      (h.start.trans (setRemote_lastTime t epoch adopted).ge))
    · dsimp only [resetLane]
      split <;> rfl
    · dsimp only [resetLane]
      split <;> rfl
    · dsimp only [resetLane]
      split <;> rfl

theorem apply (h : t.Timed) (hkept : t.books.Kept) (call : Call) :
    (t.apply call).Timed := by
  cases call with
  | enqueue payload metadata now => exact h.enqueue payload metadata now
  | poll now order => exact h.poll hkept now order
  | receive path frame now order => exact h.receive path frame now order
  | path id remoteID rtt now => exact h.path id remoteID rtt now
  | disable id => exact h.disable id
  | setRemote epoch adopted => exact h.setRemote epoch adopted

end Timed

theorem timed_run (epoch : Epoch) (calls : List Call) :
    (run epoch calls).Timed := by
  have hrun := run_induction (P := fun t => t.books.Sound ∧ t.Timed) epoch
    ⟨sound_new epoch, le_rfl, fun id p h => by cases h⟩
    (fun t call h => ⟨sound_apply h.1 call, h.2.apply h.1.kept call⟩) calls
  exact hrun.2

end Transport

end Wanbond.Bond
