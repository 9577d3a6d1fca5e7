import Wanbond.Bond.PollTurns
import Wanbond.Bond.ReceiveTrace

/-!
# Lanes across a call

A call finds each lane by its identifier, edits it, and writes it back.  A
relation between lanes that every edit keeps relates each lane before the call
to the lane of the same identifier after it.  `SameGauges` is such a relation
for all calls but two: a fresh acknowledgement moves the gauges of its lane,
and a new remote epoch resets them.
-/

namespace Wanbond.Bond

open Wanbond.Support

/-! ## Related lanes -/

/-- Each lane of `t` is related to the lane of its identifier in `t'`. -/
def Transport.LanesBy (R : Lane → Lane → Prop) (t t' : Transport) : Prop :=
  ∀ id, Option.Rel R (t.find id) (t'.find id)

variable {p q : Lane} {id : PathID}

namespace Transport.LanesBy

variable {R S : Lane → Lane → Prop} {t t' t'' : Transport}

theorem of_paths (hrefl : ∀ p, R p p) (h : t'.paths = t.paths) :
    LanesBy R t t' := by
  intro id
  have hfind : t'.find id = t.find id := by rw [find, find, h]
  rw [hfind]
  cases t.find id with
  | none => exact .none
  | some p => exact .some (hrefl p)

theorem trans (htrans : ∀ p q r, R p q → R q r → R p r)
    (h : LanesBy R t t') (h' : LanesBy R t' t'') : LanesBy R t t'' := by
  intro id
  have hone := h id
  have htwo := h' id
  revert hone htwo
  generalize t.find id = x
  generalize t'.find id = y
  generalize t''.find id = z
  rintro (⟨hxy⟩ | _) (⟨hyz⟩ | _)
  · exact .some (htrans _ _ _ hxy hyz)
  · exact .none

theorem mono (hRS : ∀ p q, R p q → S p q) (h : LanesBy R t t') :
    LanesBy S t t' := by
  intro id
  have hid := h id
  revert hid
  generalize t.find id = x
  generalize t'.find id = y
  rintro (⟨hxy⟩ | _)
  · exact .some (hRS _ _ hxy)
  · exact .none

theorem setLane (hrefl : ∀ p, R p p) (hfind : t.find p.id = some q)
    (hpq : R q p) : LanesBy R t (t.setLane p) := by
  intro id
  by_cases hid : id = p.id
  · subst hid
    rw [hfind, find_setLane_self hfind]
    exact .some hpq
  rw [find_setLane_ne hid]
  cases t.find id with
  | none => exact .none
  | some p => exact .some (hrefl p)

theorem setLane_again (hrefl : ∀ p, R p p) {p' : Lane}
    (hfind : t.find p.id = some q) (hid : p'.id = p.id) (hpp' : R p p') :
    LanesBy R (t.setLane p) (t.setLane p') := by
  have hself : (t.setLane p).find p'.id = some p := by
    rw [hid]
    exact find_setLane_self hfind
  have h := setLane hrefl hself hpp'
  rwa [setLane_setLane t hid] at h

theorem map (f : Lane → Lane) (hid : ∀ p ∈ t.paths, (f p).id = p.id)
    (hf : ∀ p ∈ t.paths, R p (f p)) :
    LanesBy R t { t with paths := t.paths.map f } := by
  classical
  -- outside the list the map does not matter
  set g : Lane → Lane := fun p => if p ∈ t.paths then f p else p with hg
  have hmap : t.paths.map f = t.paths.map g :=
    List.map_congr_left fun p hp => by simp [hg, hp]
  have hgid : ∀ p, (g p).id = p.id := by
    intro p
    rw [hg]
    dsimp only
    split
    next hp => exact hid p hp
    next => rfl
  intro id
  simp only [find, hmap]
  rw [Keyed.lookup_map hgid]
  cases h : Keyed.lookup (fun p : Lane => p.id) id t.paths with
  | none => exact .none
  | some p =>
    have hp : p ∈ t.paths := Keyed.mem_of_lookup h
    have hgp : g p = f p := if_pos hp
    rw [Option.map_some, hgp]
    exact .some (hf p hp)

theorem find (h : LanesBy R t t') (hq : t'.find id = some q) :
    ∃ p, t.find id = some p ∧ R p q := by
  have hid := h id
  rw [hq] at hid
  revert hid
  generalize t.find id = x
  rintro (⟨hpq⟩ | _)
  exact ⟨_, rfl, hpq⟩

theorem find' (h : LanesBy R t t') (hp : t.find id = some p) :
    ∃ q, t'.find id = some q ∧ R p q := by
  have hid := h id
  rw [hp] at hid
  revert hid
  generalize t'.find id = x
  rintro (⟨hpq⟩ | _)
  exact ⟨_, rfl, hpq⟩

theorem write (h : LanesBy R t t') (hfind : t.find p.id = some q) (hpq : R q p) :
    LanesBy R t (t'.setLane p) := by
  intro id
  by_cases hid : id = p.id
  · subst hid
    obtain ⟨q', hq', -⟩ := h.find' hfind
    rw [hfind, find_setLane_self hq']
    exact .some hpq
  · rw [find_setLane_ne hid]
    exact h id

end Transport.LanesBy

/-! ## Gauges -/

/-- The gauges of the lane read the same.  Its count of sent bytes may have
grown, and the floors of its transit times may have moved within their table. -/
structure Lane.SameGauges (p q : Lane) : Prop where
  target : q.toLaneTarget = p.toLaneTarget
  bases : p.transitBases.length = transitBuckets →
    q.transitBases.length = transitBuckets
  ackedBytes : q.ackedBytes = p.ackedBytes
  ackedElapsed : q.ackedElapsed = p.ackedElapsed
  sent : p.sent ≤ q.sent

namespace Lane.SameGauges

theorem refl (p : Lane) : p.SameGauges p := ⟨rfl, id, rfl, rfl, le_rfl⟩

theorem trans {r : Lane} (h : p.SameGauges q) (h' : q.SameGauges r) :
    p.SameGauges r where
  target := h'.target.trans h.target
  bases hbases := h'.bases (h.bases hbases)
  ackedBytes := h'.ackedBytes.trans h.ackedBytes
  ackedElapsed := h'.ackedElapsed.trans h.ackedElapsed
  sent := h.sent.trans h'.sent

theorem ite {c : Prop} [Decidable c] {a b : Lane} (ha : p.SameGauges a)
    (hb : p.SameGauges b) : p.SameGauges (if c then a else b) := by
  split
  · exact ha
  · exact hb

end Lane.SameGauges

namespace Lane

variable (p : Lane) (now : Time)

theorem sameGauges_release (heap : PacketHeap) (a : Attempt) :
    p.SameGauges (p.release heap a) := by
  unfold release
  cases a.packet with
  | none | some => exact ⟨rfl, id, rfl, rfl, le_rfl⟩

theorem sameGauges_beginAttempt : p.SameGauges (p.beginAttempt now) := by
  unfold beginAttempt
  split <;> exact ⟨rfl, id, rfl, rfl, le_rfl⟩

theorem sameGauges_recordAttempt (ref : PacketRef) (d : Packet) :
    p.SameGauges (p.recordAttempt now ref d) := by
  refine (p.sameGauges_beginAttempt now).trans ?_
  exact ⟨rfl, id, rfl, rfl, Nat.le_add_right _ _⟩

theorem sameGauges_recordKeepalive : p.SameGauges (p.recordKeepalive now) := by
  refine (p.sameGauges_beginAttempt now).trans ?_
  exact ⟨rfl, id, rfl, rfl, Nat.le_add_right _ _⟩

end Lane

/-! ## Relations across Poll -/

/-- The edits that `Poll` makes to a lane keep the property. -/
structure KeptByPoll (now : Time) (P : Lane → Prop) : Prop where
  release : ∀ p heap a, P p → P (p.release heap a)
  forget : ∀ p seq, P p → P (p.forget seq)
  mark : ∀ p seq a, p.attempts.lookup seq = some a → P p →
    P (p.putAttempt seq { a with released := true })
  rebase : ∀ p, P p → P (Transport.rebase p now)
  feedback : ∀ p, P p → P (Transport.feedbackLane p now)
  keepalive : ∀ p, P p → P (p.recordKeepalive now)
  count : ∀ p c, P p → P (Transport.countOnLane c p)
  attempt : ∀ p ref d, P p → P (p.recordAttempt now ref d)
  shares : ∀ p q, Transport.unshared q = Transport.unshared p → P p → P q

/-- Each lane is related to what `Poll` makes of it. -/
structure PollRelation (now : Time) (R : Lane → Lane → Prop) : Prop where
  refl : ∀ p, R p p
  trans : ∀ p q r, R p q → R q r → R p r
  kept : ∀ p, KeptByPoll now (R p)

theorem KeptByPoll.relation {now : Time} {P : Lane → Prop}
    (h : KeptByPoll now P) : PollRelation now fun p q => P p → P q where
  refl _ hp := hp
  trans _ _ _ hone htwo hp := htwo (hone hp)
  kept _ :=
    { release := fun q heap a hq hp => h.release q heap a (hq hp)
      forget := fun q seq hq hp => h.forget q seq (hq hp)
      mark := fun q seq a ha hq hp => h.mark q seq a ha (hq hp)
      rebase := fun q hq hp => h.rebase q (hq hp)
      feedback := fun q hq hp => h.feedback q (hq hp)
      keepalive := fun q hq hp => h.keepalive q (hq hp)
      count := fun q c hq hp => h.count q c (hq hp)
      attempt := fun q ref d hq hp => h.attempt q ref d (hq hp)
      shares := fun q r hr hq hp => h.shares q r hr (hq hp) }

variable {t' : Transport}

namespace PollRelation

open Transport

variable {now : Time} {R : Lane → Lane → Prop} (h : PollRelation now R)
  {t : Transport}
include h

theorem of_paths {u : Transport} (hpaths : u.paths = t.paths) : LanesBy R t u :=
  .of_paths h.refl hpaths

theorem and_then {t'' : Transport} (hone : LanesBy R t t')
    (htwo : LanesBy R t' t'') : LanesBy R t t'' :=
  hone.trans h.trans htwo

theorem setLane (hfind : t.find p.id = some q) (hqp : R q p) :
    LanesBy R t (t.setLane p) :=
  .setLane h.refl hfind hqp

variable {path : Lane}

theorem transmit (hfind : t.find path.id = some path) (ref : PacketRef) :
    LanesBy R t (t.transmit now ref path).1 := by
  have hsend : ∀ (u : Transport) (p : Lane), u.paths = t.paths →
      p.id = path.id → R path p →
      LanesBy R t (u.sendPacket now ref p).1 := by
    intro u p hpaths hid hpath
    have hu : u.find (p.recordAttempt now ref (u.packets ref)).id = some path := by
      rwa [Lane.recordAttempt_id, hid, find, hpaths]
    have hset := h.setLane hu
      ((h.kept path).attempt p ref (u.packets ref) hpath)
    exact h.and_then (h.of_paths hpaths) (h.and_then hset (h.of_paths rfl))
  unfold Transport.transmit
  split
  · refine hsend _ _ ?_ rfl ((h.kept path).count path _ (h.refl path))
    dsimp only [stampPacket, countOriginal]
    split <;> split <;> rfl
  · exact hsend t path rfl rfl (h.refl path)

theorem acknowledge (t : Transport) (lane : PathID) :
    LanesBy R t (t.acknowledge now lane).1 := by
  unfold Transport.acknowledge
  split
  · exact h.of_paths rfl
  next r hr =>
    split
    · exact h.of_paths rfl
    next path hpath =>
      split
      · exact h.of_paths rfl
      split
      · dsimp only
        split
        · have hset : LanesBy R t (t.setLane (feedbackLane path now)) := by
            refine h.setLane (q := path) ?_
              ((h.kept path).feedback path (h.refl path))
            have hid : (feedbackLane path now).id = r.path :=
              show path.id = r.path from id_of_find hpath
            rwa [hid]
          exact h.and_then hset (h.of_paths rfl)
        · exact h.of_paths rfl
      · exact h.of_paths rfl

theorem expireAttempt (heap : PacketHeap) (hp : R path p) (seq : ℕ) :
    R path (expireAttempt heap now p seq) := by
  have hkept := h.kept path
  unfold Transport.expireAttempt
  split
  · exact hp
  next a ha =>
    have htimeOut : R path (timeOut heap now p seq a).1 := by
      unfold timeOut
      split
      · refine hkept.mark _ seq a ?_ (hkept.release p heap a hp)
        rwa [Lane.release_toLaneWire]
      · exact hp
    dsimp only
    split
    · refine hkept.forget _ seq ?_
      split
      · exact htimeOut
      · exact hkept.release _ _ _ htimeOut
    · exact htimeOut

theorem expireAttempts (heap : PacketHeap) (order : MapOrder) (hp : R path p) :
    R path (expireAttempts heap now order p) := by
  unfold Transport.expireAttempts
  generalize order.keys .expire p.id p.attempts.keys = keys
  induction keys generalizing p with
  | nil => exact hp
  | cons k _ ih => exact ih (h.expireAttempt heap hp k)

theorem service (t : Transport) (order : MapOrder) (id : PathID) :
    LanesBy R t (t.service now order id).1 := by
  unfold Transport.service
  split
  · exact h.of_paths rfl
  next path hpath =>
    dsimp only
    have hexpired := h.expireAttempts t.packets order
      ((h.kept path).rebase path (h.refl path))
    have htrim := trimmed_expireAttempts t.packets now order (rebase path now)
    rw [rebase_toLaneWire] at htrim
    generalize Transport.expireAttempts t.packets now order (rebase path now) = p
      at hexpired htrim ⊢
    have hid : p.id = id :=
      (congrArg LaneWire.id htrim.rest).trans (id_of_find hpath)
    split
    · refine h.setLane (q := path) ?_ ((h.kept path).keepalive p hexpired)
      rwa [Lane.recordKeepalive_id, hid]
    · refine h.setLane (q := path) ?_ hexpired
      rwa [hid]

theorem reserve (hids : (t.paths.map fun p => p.id).Nodup) :
    LanesBy R t (t.reserve now) := by
  obtain ⟨f, hf, demand, heq⟩ := reserve_eq hids now
  rw [heq]
  refine h.and_then (LanesBy.map f (fun p hp => ?_) fun p hp => ?_)
    (h.of_paths rfl)
  · exact congrArg (fun parts => parts.1.id) (hf p hp)
  · exact (h.kept p).shares p (f p) (hf p hp) (h.refl p)

end PollRelation

theorem Transport.ids_transmit (t : Transport) (now : Time) (ref : PacketRef)
    (path : Lane) :
    (t.transmit now ref path).1.paths.map (fun p => p.id) =
      t.paths.map fun p => p.id := by
  have hsend : ∀ (u : Transport) (p : Lane), u.paths = t.paths →
      (u.sendPacket now ref p).1.paths.map (fun p => p.id) =
        t.paths.map fun p => p.id := by
    intro u p hpaths
    refine (setLane_ids _ _).trans ?_
    exact congrArg (List.map fun p : Lane => p.id) hpaths
  unfold transmit
  split
  · refine hsend _ _ ?_
    dsimp only [stampPacket, countOriginal]
    split <;> split <;> rfl
  · exact hsend t path rfl

namespace PollRelation

open Transport

variable {now : Time} {R : Lane → Lane → Prop} (h : PollRelation now R)
  {t : Transport}
include h

theorem repairTurn (hids : (t.paths.map fun p => p.id).Nodup)
    (ref : PacketRef) :
    LanesBy R t (t.repairTurn now ref).1 ∧
      (t.repairTurn now ref).1.paths.map (fun p => p.id) =
        t.paths.map fun p => p.id := by
  dsimp only [Transport.repairTurn]
  split
  · exact ⟨h.of_paths rfl, rfl⟩
  split
  · exact ⟨h.of_paths rfl, rfl⟩
  split
  · exact ⟨h.of_paths rfl, rfl⟩
  next path hpath =>
    exact ⟨h.transmit (find_repairLane hids hpath) ref,
      ids_transmit t now ref path⟩

theorem repairs (refs : List PacketRef) :
    ∀ t : Transport, (t.paths.map fun p => p.id).Nodup →
      LanesBy R t (repairs now refs t).1 := by
  induction refs with
  | nil => exact fun t _ => h.of_paths rfl
  | cons ref _ ih =>
    intro t hids
    obtain ⟨hturn, hturnIds⟩ := h.repairTurn hids ref
    exact h.and_then hturn (ih _ (hturnIds ▸ hids))

theorem sendCopy (hids : (t.paths.map fun p => p.id).Nodup)
    (c : Class) (ref : PacketRef) (size : ℕ) (first : PathID) :
    LanesBy R t (t.sendCopy now c ref size first).1 := by
  dsimp only [Transport.sendCopy]
  split
  · split
    · exact h.of_paths rfl
    next second hsecond =>
      have hfind := find_chooseLane hids hsecond
      refine h.and_then ?_ (h.transmit ?_ ref)
      · split <;> exact h.of_paths rfl
      · split <;> exact hfind
  · exact h.of_paths rfl

theorem sendBulkTurn (hids : (t.paths.map fun p => p.id).Nodup)
    (ref : PacketRef) (rest : List PacketRef) :
    LanesBy R t (t.sendBulkTurn now ref rest).1 := by
  have hpop : (t.popBulk now (t.packets ref) rest).1.paths = t.paths := by
    dsimp only [popBulk]
    split <;> rfl
  dsimp only [Transport.sendBulkTurn]
  split
  · exact h.of_paths rfl
  split
  · exact h.of_paths rfl
  next path hpath =>
    have hfind := find_chooseLane hids hpath
    split
    · exact h.of_paths hpop
    · refine h.and_then (h.of_paths hpop) (h.transmit ?_ ref)
      rwa [find, hpop]

/-- A turn of `Poll` relates every lane. -/
theorem turn {order : MapOrder} {choices : List Choice}
    (hturn : PollTurn now order t choices t') (hkept : t.books.Kept) :
    LanesBy R t t' := by
  obtain ⟨stamped, hkept⟩ := hkept
  have hids : (t.paths.map fun p => p.id).Nodup := hkept.ids
  cases hturn with
  | refill => exact h.of_paths rfl
  | acknowledge lane => exact h.acknowledge t lane
  | service id => exact h.service t order id
  | reserve => exact h.reserve hids
  | repair =>
    exact h.and_then (h.repairs t.pendingOrder t hids) (h.of_paths rfl)
  | endBacklog =>
    refine h.of_paths ?_
    unfold endBacklog
    split <;> rfl
  | judge =>
    refine h.of_paths ?_
    unfold givesUp stale
    repeat' split
    all_goals rfl
  | drop => exact h.of_paths rfl
  | @original c ref path hc hpeek hlate hpath =>
    have hfind : (t.popSmall c).find path.id = some path :=
      find_chooseLane hids hpath
    exact h.and_then (h.of_paths (u := t.popSmall c) rfl)
      (h.transmit hfind ref)
  | copy _ _ c first => exact h.sendCopy hids c _ _ first
  | bulk => exact h.sendBulkTurn hids _ _

/-- `Poll` relates every lane. -/
theorem poll (hkept : t.books.Kept) (order : MapOrder) :
    LanesBy R t (t.poll now order).1 := by
  have htraced : ∀ {u u' : Transport} {choices : List Choice},
      Trace (PollTurn now order) u choices u' → u.books.Kept →
        LanesBy R u u' := fun htrace hu =>
    htrace.related (P := fun t : Transport => t.books.Kept) (R := LanesBy R)
      (fun _ => h.of_paths rfl) (fun _ _ _ hone htwo => h.and_then hone htwo)
      (fun _ _ _ hs hturn => hturn.follows.kept hs)
      (fun _ _ _ hs hturn => h.turn hturn hs) hu
  unfold Transport.poll checkTime
  by_cases hnow : now < t.lastTime
  · rw [if_pos hnow]
    exact h.of_paths rfl
  rw [if_neg hnow]
  have hclock : ({ t with lastTime := now } : Transport).books.Kept := hkept
  obtain ⟨choices, htrace, -⟩ := turns_pollAt order now _ hclock
  have hpoll := h.and_then (h.of_paths (t := t) (u := { t with
    lastTime := now }) rfl) (htraced htrace hclock)
  dsimp only
  exact hpoll

end PollRelation

/-! ## Gauges across Poll -/

theorem pollRelation_sameGauges (now : Time) :
    PollRelation now Lane.SameGauges where
  refl := .refl
  trans _ _ _ h h' := h.trans h'
  kept p :=
    { release := fun q heap a h => h.trans (q.sameGauges_release heap a)
      forget := fun _ _ h => h.trans ⟨rfl, id, rfl, rfl, le_rfl⟩
      mark := fun _ _ _ _ h => h.trans ⟨rfl, id, rfl, rfl, le_rfl⟩
      rebase := fun q h => h.trans
        (.ite ⟨rfl, fun h => h, rfl, rfl, le_rfl⟩ (.refl q))
      feedback := fun _ h => h.trans ⟨rfl, id, rfl, rfl, le_rfl⟩
      keepalive := fun q h => h.trans (q.sameGauges_recordKeepalive now)
      count := fun _ _ h => h.trans ⟨rfl, id, rfl, rfl, le_rfl⟩
      attempt := fun q ref d h => h.trans (q.sameGauges_recordAttempt now ref d)
      shares := fun q r hshares h => by
        have hcore := congrArg (fun parts => parts.1) hshares
        have htransit := congrArg (fun parts => parts.2.2.2.1) hshares
        have htarget := congrArg (fun parts => parts.2.2.2.2) hshares
        exact h.trans ⟨htarget,
          (congrArg (fun x : LaneTransit => x.transitBases.length)
            htransit).trans,
          congrArg (fun x : LaneCore => x.ackedBytes) hcore,
          congrArg (fun x : LaneCore => x.ackedElapsed) hcore,
          (congrArg (fun x : LaneCore => x.sent) hcore).ge⟩ }

namespace Transport

variable {t : Transport}

theorem gauges_setLane (hfind : t.find p.id = some q) (hsame : q.SameGauges p) :
    LanesBy Lane.SameGauges t (t.setLane p) :=
  .setLane .refl hfind hsame

theorem LanesBy.gauges_trans {t'' : Transport}
    (h : LanesBy Lane.SameGauges t t') (h' : LanesBy Lane.SameGauges t' t'') :
    LanesBy Lane.SameGauges t t'' :=
  h.trans (fun _ _ _ hpq hqr => hpq.trans hqr) h'

theorem gauges_of_paths {u : Transport} (h : u.paths = t.paths) :
    LanesBy Lane.SameGauges t u :=
  .of_paths .refl h

theorem gauges_poll (hkept : t.books.Kept) (now : Time) (order : MapOrder) :
    LanesBy Lane.SameGauges t (t.poll now order).1 :=
  (pollRelation_sameGauges now).poll hkept order

end Transport

/-! ## Gauges across the other calls -/

namespace Transport

/-- `Enqueue` keeps the lanes and moves the clock on. -/
theorem enqueue_frame (t : Transport) (payload : Bytes)
    (metadata : PacketMetadata) (now : Time) :
    (t.enqueue payload metadata now).1.paths = t.paths ∧
      (t.enqueue payload metadata now).1.lastTime = max t.lastTime now := by
  unfold enqueue checkTime
  by_cases hnow : now < t.lastTime
  · rw [if_pos hnow]
    exact ⟨rfl, (max_eq_left hnow.le).symm⟩
  rw [if_neg hnow, max_eq_right (not_lt.mp hnow)]
  dsimp only
  split
  · exact ⟨rfl, rfl⟩
  split
  · dsimp only [refuse]
    split <;> exact ⟨rfl, rfl⟩
  · dsimp only [enterQueue]
    split <;> exact ⟨rfl, rfl⟩

variable {t : Transport} {j : PathID}

theorem find_setLease (hp : t.find p.id = some p) {lease : Time}
    (hq : (t.setLane { p with lease := lease }).find j = some q) :
    ∃ p lease, t.find j = some p ∧ q = { p with lease := lease } := by
  by_cases hj : j = p.id
  · subst hj
    have hself : (t.setLane { p with lease := lease }).find p.id =
        some { p with lease := lease } :=
      @find_setLane_self t { p with lease := lease } p hp
    exact ⟨p, lease, hp, (Option.some.inj (hself.symm.trans hq)).symm⟩
  · have hne : (t.setLane { p with lease := lease }).find j = t.find j :=
      @find_setLane_ne t { p with lease := lease } j hj
    exact ⟨q, q.lease, hne.symm.trans hq, rfl⟩

theorem find_path {remoteID : PathID} {rtt : Duration} {now : Time}
    (hq : (t.path id remoteID rtt now).1.find j = some q) :
    (∃ p lease, t.find j = some p ∧ q = { p with lease := lease }) ∨
      ∃ rtt, q = { Lane.new id remoteID rtt now with lease := now } := by
  unfold path checkTime at hq
  by_cases hnow : now < t.lastTime
  · rw [if_pos hnow] at hq
    exact Or.inl ⟨q, q.lease, hq, rfl⟩
  rw [if_neg hnow] at hq
  dsimp only at hq
  split at hq
  next p hp =>
    obtain rfl := id_of_find hp
    exact Or.inl (find_setLease hp hq)
  · rcases Keyed.lookup_append_singleton hq with hold | ⟨-, hnew, -⟩
    · exact Or.inl ⟨q, q.lease, hold, rfl⟩
    · exact Or.inr ⟨_, hnew⟩

theorem find_disable (hq : (t.disable id).find j = some q) :
    ∃ p lease, t.find j = some p ∧ q = { p with lease := lease } := by
  unfold disable at hq
  split at hq
  next p hp =>
    obtain rfl := id_of_find hp
    exact find_setLease hp hq
  · exact ⟨q, q.lease, hq, rfl⟩

theorem find_setRemote {epoch : Epoch} {adopted : Bool}
    (haccept : t.acceptsRemote epoch adopted = true)
    (hq : (t.setRemote epoch adopted).1.find id = some q) :
    ∃ p, t.find id = some p ∧ q = resetLane p := by
  have hid : ∀ p, (resetLane p).id = p.id := by
    intro p
    dsimp only [resetLane]
    split <;> rfl
  unfold setRemote at hq
  rw [if_pos haccept] at hq
  have hfind : Keyed.lookup (fun p : Lane => p.id) id
      (t.paths.map resetLane) = some q := hq
  rw [Keyed.lookup_map hid, Option.map_eq_some_iff] at hfind
  obtain ⟨p, hp, rfl⟩ := hfind
  exact ⟨p, hp, rfl⟩

end Transport

end Wanbond.Bond
