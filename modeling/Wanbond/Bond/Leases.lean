import Wanbond.Bond.BooksCalls

/-!
# Leases and liveness

Every frame that `Poll` sends is on a leased lane.  What is chosen for a bulk
datagram or a repair is live in the state in which it is chosen, and what is
chosen for a small datagram or a copy is not dead there.

A lease is what the calls say: the last `Path` of the lane, unless the lane was
disabled or the remote epoch changed since.
-/

namespace Wanbond.Bond

open Wanbond.Support

/-! ## Leases in the books -/

/-- The lanes are the same, with the same leases. -/
structure Books.SameLeases (b b' : Books) : Prop where
  ids : b'.ids = b.ids
  lease : ∀ id, (b'.lanes id).map (fun lane => lane.lease) =
    (b.lanes id).map fun lane => lane.lease

namespace Books.SameLeases

variable {b b' b'' : Books}

theorem refl (b : Books) : b.SameLeases b := ⟨rfl, fun _ => rfl⟩

theorem of_eq (h : b' = b) : b.SameLeases b' := h ▸ refl b

theorem trans (h : b.SameLeases b') (h' : b'.SameLeases b'') :
    b.SameLeases b'' :=
  ⟨h'.ids.trans h.ids, fun id => (h'.lease id).trans (h.lease id)⟩

theorem write {id : PathID} {lane lane' : LaneCore}
    (hlane : b.lanes id = some lane)
    (hlanes : b'.lanes = Function.update b.lanes id (some lane'))
    (hids : b'.ids = b.ids) (hlease : lane'.lease = lane.lease) :
    b.SameLeases b' := by
  refine ⟨hids, fun id' => ?_⟩
  rw [hlanes, Function.update_apply]
  split
  next heq => rw [heq, hlane, Option.map_some, Option.map_some, hlease]
  next => rfl

end Books.SameLeases

theorem LaneCore.lease_clear (lane : LaneCore) (heap : PacketHeap)
    (a : Attempt) : (lane.clear heap a).lease = lane.lease :=
  congrArg LaneWire.lease (lane.clear_toLaneWire heap a)

variable {now : Time} {b b' : Books}

theorem PollMove.sameLeases (hmove : PollMove now b b') : b.SameLeases b' := by
  cases hmove with
  | dropSmall | dropLate | dropManaged => exact ⟨rfl, fun _ => rfl⟩
  | firstSmall _ _ _ hlane | firstBulk _ _ hlane | again _ _ hlane =>
    exact .write hlane rfl rfl rfl
  | settled | expire => exact ⟨rfl, fun _ => rfl⟩
  | keepalive hlane => exact .write hlane rfl rfl rfl
  | @timeOut id lane k a hlane ha hreleased =>
    have hlease : (lane.release b.packets a).lease = lane.lease :=
      congrArg LaneWire.lease (lane.release_toLaneWire b.packets a)
    exact .write hlane rfl rfl hlease
  | forget hlane => exact .write hlane rfl rfl (LaneCore.lease_clear _ _ _)

theorem ReceiveMove.sameLeases (hmove : ReceiveMove b b') :
    b.SameLeases b' := by
  cases hmove with
  | note hlane _ hlease => exact .write hlane rfl rfl hlease
  | receipt => exact ⟨rfl, fun _ => rfl⟩
  | @confirm id lane k a hlane ha =>
    refine .write hlane (Books.settlePacket_lanes ..) ?_
      (lane.lease_clear b.packets a)
    cases a.packet <;> rfl
  | forget hlane | mark hlane =>
    exact .write hlane rfl rfl (LaneCore.lease_clear _ _ _)

theorem Receives.sameLeases (h : Receives b b') : b.SameLeases b' := by
  induction h with
  | refl => exact .refl b
  | tail _ hmove ih => exact ih.trans hmove.sameLeases

theorem Follows.sameLeases {t : Transport} {r : Transport × List Transmission}
    (h : Follows now t r) (ht : t.books.Kept) : t.books.SameLeases r.1.books :=
  (h ht).related (P := fun _ => True)
    (R := fun t t' => t.books.SameLeases t'.books)
    (fun t => .refl t.books) (fun _ _ _ h h' => h.trans h')
    (fun _ _ _ _ _ => trivial)
    (fun _ _ _ _ hstep => hstep.books.elim .of_eq PollMove.sameLeases) trivial

theorem Transport.sameLeases_transmit {t : Transport} {path : Lane}
    (hfind : t.find path.id = some path) (now : Time) (ref : PacketRef) :
    t.books.SameLeases (t.transmit now ref path).1.books := by
  have hlane := books_lanes hfind
  by_cases hseq : (t.packets ref).seq = 0
  · rw [books_transmit_first hfind now hseq]
    exact .write hlane rfl rfl rfl
  · rw [books_transmit_again hfind now hseq]
    exact .write hlane rfl rfl rfl

/-! ## The gate of every turn -/

/-- The frame goes out on a lane that was up, and as live as its reason asks,
when it was chosen. -/
def Choice.Gated (now : Time) (choice : Choice) : Prop :=
  ∃ p, choice.state.find choice.sent.path = some p ∧ p.up now = true ∧
    match choice.reason with
    | .ack => True
    | .keepalive => True
    | .moved _ => p.liveness now ≠ .dead
    | .repair _ => p.liveness now = .live
    | .original ref =>
      if (choice.state.packets ref).cls = .bulk then p.liveness now = .live
      else p.liveness now ≠ .dead
    | .copy _ => p.liveness now ≠ .dead

variable {p : Lane}

theorem Lane.up_of_liveness (h : p.liveness now ≠ .dead) : p.up now = true := by
  by_contra hdown
  refine h ?_
  simp [Lane.liveness, hdown]

theorem Lane.not_dead_of_eligible {c : Class} (h : p.eligible c now = true) :
    p.liveness now ≠ .dead := by
  intro hdead
  simp [Lane.eligible, hdead] at h

theorem Lane.live_of_eligible (h : p.eligible .bulk now = true) :
    p.liveness now = .live := by
  simpa [Lane.eligible] using h

namespace Transport

variable {t : Transport} {now : Time} {ref : PacketRef}

theorem eligible_chooseLane {c : Class} {size : ℕ} {exclude : PathID}
    {avoid : Bool} (h : t.chooseLane now c size exclude avoid = some p) :
    p.eligible c now = true := by
  rcases mem_of_foldl_earlier h with hmem | hnone
  · have hfilter := (List.mem_filter.mp hmem).2
    simp only [considers, Bool.and_eq_true] at hfilter
    exact hfilter.1.1.1.1.1
  · cases hnone

theorem transmit_path (t : Transport) (now : Time) (ref : PacketRef)
    (path : Lane) : (t.transmit now ref path).2.path = path.id := by
  unfold transmit
  split
  · simp only [sendPacket, Lane.recordAttempt_id]
    rfl
  · simp only [sendPacket, Lane.recordAttempt_id]

theorem gated_acknowledge (t : Transport) (now : Time) (lane : PathID) :
    ∀ choice ∈ Choice.all t .ack (t.acknowledge now lane).2,
      choice.Gated now := by
  intro choice hchoice
  obtain ⟨sent, hsent, rfl⟩ := List.mem_map.mp hchoice
  unfold acknowledge at hsent
  split at hsent
  · cases hsent
  next r hr =>
    split at hsent
    · cases hsent
    next path hpath =>
      split at hsent
      · cases hsent
      next hdown =>
        split at hsent
        · dsimp only at hsent
          split at hsent
          · have hdue : (r.ackDue now).1.path = r.path := by
              unfold Receiver.ackDue
              split
              · rfl
              · split <;> rfl
            have hsentPath : sent.path = r.path := by
              rwa [List.mem_singleton.mp hsent]
            refine ⟨path, ?_, by simpa using hdown, trivial⟩
            rwa [hsentPath]
          · cases hsent
        · cases hsent

theorem gated_service (t : Transport) (now : Time) (order : MapOrder)
    (id : PathID) :
    ∀ choice ∈ Choice.all t .keepalive (t.service now order id).2,
      choice.Gated now := by
  intro choice hchoice
  obtain ⟨sent, hsent, rfl⟩ := List.mem_map.mp hchoice
  unfold service at hsent
  split at hsent
  · cases hsent
  next path hpath =>
    dsimp only at hsent
    have htrim := trimmed_expireAttempts t.packets now order (rebase path now)
    rw [rebase_toLaneWire] at htrim
    generalize expireAttempts t.packets now order (rebase path now) = path'
      at hsent htrim
    have hid : path'.id = path.id := (congrArg LaneWire.id htrim.rest).trans rfl
    have hlease : path'.lease = path.lease :=
      (congrArg LaneWire.lease htrim.rest).trans rfl
    split at hsent
    next hping =>
      have hsentPath : sent.path = id := by
        rw [List.mem_singleton.mp hsent]
        rw [Lane.recordKeepalive_id, hid]
        exact id_of_find hpath
      refine ⟨path, ?_, ?_, trivial⟩
      · rwa [hsentPath]
      · have hup := hping.1
        simp only [Lane.up, hlease] at hup
        exact hup
    next => cases hsent

theorem live_repairLane {p : Packet} {path : Lane}
    (hmoved : t.movedLane now p = none)
    (h : t.repairLane now p = some path) : path.liveness now = .live := by
  unfold repairLane at h
  simp only [hmoved] at h
  split at h
  · cases h
  split at h
  next hsome =>
    cases h
    exact Lane.live_of_eligible (eligible_chooseLane hsome)
  next =>
    split at h
    · exact Lane.live_of_eligible (eligible_chooseLane h)
    · cases h

theorem gated_repairTurn (hids : (t.paths.map fun p => p.id).Nodup) (now : Time)
    (ref : PacketRef) :
    ∀ choice ∈ Choice.all t (t.repairReason now ref)
      (t.repairTurn now ref).2.1, choice.Gated now := by
  intro choice hchoice
  obtain ⟨sent, hsent, rfl⟩ := List.mem_map.mp hchoice
  dsimp only [repairTurn] at hsent
  split at hsent
  · cases hsent
  split at hsent
  · cases hsent
  split at hsent
  · cases hsent
  next path hpath =>
    have hsentPath : sent.path = path.id := by
      rw [List.mem_singleton.mp hsent]
      exact t.transmit_path now ref path
    have hfind : t.find sent.path = some path := by
      rw [hsentPath]
      exact find_repairLane hids hpath
    unfold repairReason
    cases hmoved : t.movedLane now (t.packets ref) with
    | some path' =>
      have heq : path' = path := by
        simp only [repairLane, hmoved, Option.some.injEq] at hpath
        exact hpath
      have hdead : path.liveness now ≠ .dead := by
        rw [← heq]
        unfold movedLane at hmoved
        split at hmoved
        · exact Lane.not_dead_of_eligible (eligible_chooseLane hmoved)
        · cases hmoved
      exact ⟨path, hfind, Lane.up_of_liveness hdead, hdead⟩
    | none =>
      have hlive := live_repairLane hmoved hpath
      refine ⟨path, hfind, Lane.up_of_liveness ?_, hlive⟩
      rw [hlive]
      decide

theorem sameLeases_repairTurn (hids : (t.paths.map fun p => p.id).Nodup)
    (now : Time) (ref : PacketRef) :
    t.books.SameLeases (t.repairTurn now ref).1.books := by
  dsimp only [repairTurn]
  split
  · exact ⟨rfl, fun _ => rfl⟩
  split
  · exact ⟨rfl, fun _ => rfl⟩
  split
  · exact .refl _
  next path hpath =>
    exact sameLeases_transmit (find_repairLane hids hpath) now ref

/-- The repairs are gated, and their lanes have the leases of the state before
them. -/
theorem gated_repairChoices (now : Time) (refs : List PacketRef) :
    ∀ t : Transport, (t.paths.map fun p => p.id).Nodup →
      ∀ choice ∈ repairChoices now refs t, choice.Gated now ∧
        t.books.SameLeases choice.state.books := by
  induction refs with
  | nil => exact fun t _ choice hchoice => by cases hchoice
  | cons ref _ ih =>
    intro t hids choice hchoice
    have hsame := sameLeases_repairTurn hids now ref
    rcases List.mem_append.mp hchoice with hhead | htail
    · refine ⟨gated_repairTurn hids now ref choice hhead, ?_⟩
      obtain ⟨sent, -, rfl⟩ := List.mem_map.mp hhead
      exact .refl _
    have hids' : ((t.repairTurn now ref).1.paths.map fun p => p.id).Nodup := by
      rwa [show (t.repairTurn now ref).1.paths.map (fun p => p.id) =
        t.paths.map fun p => p.id from hsame.ids]
    obtain ⟨hgated, hrest⟩ := ih _ hids' choice htail
    exact ⟨hgated, hsame.trans hrest⟩

theorem gated_sendCopy (hids : (t.paths.map fun p => p.id).Nodup) (now : Time)
    (c : Class) (ref : PacketRef) (size : ℕ) (first : PathID) :
    ∀ choice ∈ Choice.all t (.copy ref) (t.sendCopy now c ref size first).2,
      choice.Gated now := by
  intro choice hchoice
  obtain ⟨sent, hsent, rfl⟩ := List.mem_map.mp hchoice
  dsimp only [sendCopy] at hsent
  split at hsent
  · split at hsent
    · cases hsent
    next second hsecond =>
      have hsentPath : sent.path = second.id := by
        rw [List.mem_singleton.mp hsent]
        exact transmit_path _ now ref second
      have hdead := Lane.not_dead_of_eligible (eligible_chooseLane hsecond)
      refine ⟨second, ?_, Lane.up_of_liveness hdead, hdead⟩
      rw [hsentPath]
      exact find_chooseLane hids hsecond
  · cases hsent

theorem gated_sendBulkTurn (hids : (t.paths.map fun p => p.id).Nodup)
    (now : Time) (ref : PacketRef) (rest : List PacketRef) :
    ∀ choice ∈ Choice.all t (.original ref) (t.sendBulkTurn now ref rest).2.1,
      choice.Gated now := by
  intro choice hchoice
  obtain ⟨sent, hsent, rfl⟩ := List.mem_map.mp hchoice
  dsimp only [sendBulkTurn] at hsent
  split at hsent
  · cases hsent
  split at hsent
  · cases hsent
  next path hpath =>
    split at hsent
    · cases hsent
    have hsentPath : sent.path = path.id := by
      rw [List.mem_singleton.mp hsent]
      exact transmit_path _ now ref path
    have hlive := Lane.live_of_eligible (eligible_chooseLane hpath)
    have hdead : path.liveness now ≠ .dead := by
      rw [hlive]
      decide
    refine ⟨path, ?_, Lane.up_of_liveness hdead, ?_⟩
    · rw [hsentPath]
      exact find_chooseLane hids hpath
    dsimp only
    split
    · exact hlive
    · exact hdead

end Transport

theorem PollTurn.gated {order : MapOrder} {t t' : Transport}
    {choices : List Choice} (hturn : PollTurn now order t choices t')
    (h : t.books.Kept) : ∀ choice ∈ choices, choice.Gated now ∧
      t.books.SameLeases choice.state.books := by
  obtain ⟨stamped, h⟩ := h
  have hids : (t.paths.map fun p => p.id).Nodup := h.ids
  have hstate : ∀ reason out, ∀ choice ∈ Choice.all t reason out,
      t.books.SameLeases choice.state.books := by
    intro reason out choice hchoice
    obtain ⟨sent, -, rfl⟩ := List.mem_map.mp hchoice
    exact .refl _
  cases hturn with
  | refill => exact List.forall_mem_nil _
  | acknowledge lane =>
    exact fun choice hchoice => ⟨t.gated_acknowledge now lane choice hchoice,
      hstate _ _ choice hchoice⟩
  | service id =>
    exact fun choice hchoice => ⟨t.gated_service now order id choice hchoice,
      hstate _ _ choice hchoice⟩
  | reserve => exact List.forall_mem_nil _
  | repair => exact Transport.gated_repairChoices now _ t hids
  | endBacklog | judge | drop => exact List.forall_mem_nil _
  | @original c ref path hc hpeek hlate hpath =>
    intro choice hchoice
    obtain rfl := List.mem_singleton.mp hchoice
    have hdead :=
      Lane.not_dead_of_eligible (Transport.eligible_chooseLane hpath)
    have hcls : (t.packets ref).cls = c :=
      (h.queues.small c hc ref (Stock.mem_refs_of_peek hpeek)).cls
    refine ⟨⟨path, ?_, Lane.up_of_liveness hdead, ?_⟩, .refl _⟩
    · rw [Transport.transmit_path]
      exact Transport.find_chooseLane hids hpath
    · dsimp only
      rwa [if_neg (hcls ▸ hc)]
  | copy _ _ c first =>
    exact fun choice hchoice =>
      ⟨Transport.gated_sendCopy hids now c _ _ first choice hchoice,
        hstate _ _ choice hchoice⟩
  | @bulk ref rest hqueue =>
    exact fun choice hchoice =>
      ⟨Transport.gated_sendBulkTurn hids now ref rest choice hchoice,
        hstate _ _ choice hchoice⟩

theorem Trace.gated {order : MapOrder} {t t' : Transport}
    {choices : List Choice} (htrace : Trace (PollTurn now order) t choices t')
    (h : t.books.Kept) : ∀ choice ∈ choices, choice.Gated now ∧
      t.books.SameLeases choice.state.books := by
  induction htrace with
  | refl t => exact List.forall_mem_nil _
  | cons hturn _ ih =>
    intro choice hchoice
    have hkept := hturn.follows.kept h
    have hsame := hturn.follows.sameLeases h
    rcases List.mem_append.mp hchoice with hhead | htail
    · exact hturn.gated h choice hhead
    · obtain ⟨hgated, hrest⟩ := ih hkept choice htail
      exact ⟨hgated, hsame.trans hrest⟩

/-! ## The lease of a lane -/

/-- The time of the lease of every lane that has one. -/
abbrev Leases := PathID → Option Time

namespace Leases

/-- The leases after a call in the state `t`. -/
def record (t : Transport) (l : Leases) : Call → Leases
  | .path id _ _ now =>
    if now < t.lastTime then l else Function.update l id (some now)
  | .disable id => Function.update l id none
  | .setRemote epoch adopted =>
    if t.acceptsRemote epoch adopted then fun _ => none else l
  | .enqueue _ _ _ => l
  | .poll _ _ => l
  | .receive _ _ _ _ => l

/-- The leases after a sequence of calls from the state `t`. -/
def follow (t : Transport) (l : Leases) : List Call → Leases
  | [] => l
  | call :: calls => follow (t.apply call) (l.record t call) calls

def run (epoch : Epoch) (calls : List Call) : Leases :=
  follow (Transport.new epoch) (fun _ => none) calls

end Leases

/-- Every lane has the lease that the calls say, or none. -/
def Transport.LeasedBy (t : Transport) (l : Leases) : Prop :=
  ∀ id p, t.find id = some p → p.lease = (l id).getD 0

namespace Transport.LeasedBy

variable {t t' : Transport} {l : Leases}

theorem of_sameLeases (h : t.LeasedBy l) (hsame : t.books.SameLeases t'.books) :
    t'.LeasedBy l := by
  intro id p hp
  have hlease := hsame.lease id
  rw [books_lanes hp] at hlease
  obtain ⟨lane, hlane, heq⟩ := Option.map_eq_some_iff.mp hlease.symm
  obtain ⟨q, hq, rfl⟩ := Option.map_eq_some_iff.mp hlane
  exact heq.symm.trans (h id q hq)

theorem update (h : t.LeasedBy l) (hfind : t.find p.id = some p) {lease : Time}
    {at? : Option Time} (hlease : lease = at?.getD 0) :
    (t.setLane { p with lease := lease }).LeasedBy
      (Function.update l p.id at?) := by
  intro id q hq
  by_cases hid : id = p.id
  · subst hid
    rw [@find_setLane_self t { p with lease := lease } p hfind] at hq
    rwa [Function.update_self, ← Option.some.inj hq]
  · rw [@find_setLane_ne t { p with lease := lease } id hid] at hq
    rw [Function.update_of_ne hid]
    exact h id q hq

theorem enqueue (h : t.LeasedBy l) (payload : Bytes)
    (metadata : PacketMetadata) (now : Time) :
    (t.enqueue payload metadata now).1.LeasedBy l := by
  refine h.of_sameLeases ?_
  obtain ⟨e, -, hbooks⟩ | ⟨-, u, hu, hcase⟩ :=
    t.enqueue_cases payload metadata now
  · exact .of_eq hbooks
  rw [← hu]
  rcases hcase with ⟨c, hrefuse⟩ | ⟨p, -, -, henter⟩
  · rw [hrefuse]
    dsimp only [refuse]
    split <;> exact ⟨rfl, fun _ => rfl⟩
  · obtain ⟨-, -, hlanes, hids⟩ := u.enterQueue_packets p
    rw [henter]
    exact ⟨hids, fun id => by rw [hlanes]⟩

theorem poll (h : t.LeasedBy l) (hkept : t.books.Kept) (now : Time)
    (order : MapOrder) : (t.poll now order).1.LeasedBy l := by
  obtain ⟨e, hpoll⟩ | ⟨t', out, hpollAt, hpoll, -⟩ := poll_cases hkept now order
  · rwa [hpoll]
  have hsame := (turns_pollAt order now { t with lastTime := now }).follows
    |>.sameLeases hkept
  rw [hpollAt] at hsame
  rw [hpoll]
  exact h.of_sameLeases hsame

theorem path (h : t.LeasedBy l) (id remoteID : PathID) (rtt : Duration)
    (now : Time) : (t.path id remoteID rtt now).1.LeasedBy
      (l.record t (.path id remoteID rtt now)) := by
  unfold Transport.path checkTime Leases.record
  by_cases hnow : now < t.lastTime
  · simp only [if_pos hnow]
    exact h
  simp only [if_neg hnow]
  split
  next p hfind =>
    obtain rfl := id_of_find hfind
    have hclock : ({ t with lastTime := now } : Transport).LeasedBy l := h
    exact hclock.update hfind rfl
  next hfind =>
    intro id' q hq
    rcases Keyed.lookup_append_singleton hq with hold | ⟨-, rfl, hid⟩
    · have hne : id' ≠ id := by
        rintro rfl
        have hnone : t.find id' = none := hfind
        rw [show t.find id' = some q from hold] at hnone
        cases hnone
      rw [Function.update_of_ne hne]
      exact h id' q hold
    · have hself : id = id' := hid
      rw [← hself, Function.update_self]
      rfl

theorem disable (h : t.LeasedBy l) (id : PathID) :
    (t.disable id).LeasedBy (l.record t (.disable id)) := by
  unfold Transport.disable Leases.record
  split
  next p hfind =>
    obtain rfl := id_of_find hfind
    exact h.update hfind rfl
  next hfind =>
    intro id' q hq
    have hne : id' ≠ id := by
      rintro rfl
      rw [hfind] at hq
      cases hq
    show q.lease = (Function.update l id none id').getD 0
    rw [Function.update_of_ne hne]
    exact h id' q hq

theorem setRemote (h : t.LeasedBy l) (epoch : Epoch) (adopted : Bool) :
    (t.setRemote epoch adopted).1.LeasedBy
      (l.record t (.setRemote epoch adopted)) := by
  unfold Transport.setRemote Leases.record
  by_cases haccept : t.acceptsRemote epoch adopted = true
  · simp only [if_pos haccept]
    intro id q hq
    change Keyed.lookup _ id (t.paths.map resetLane) = _ at hq
    rw [find_resetLane] at hq
    obtain ⟨p, -, rfl⟩ := Option.map_eq_some_iff.mp hq
    exact congrArg LaneWire.lease (resetLane_toLaneWire p)
  · simp only [if_neg haccept]
    exact h

theorem record (h : t.LeasedBy l) (hkept : t.books.Kept) (call : Call) :
    (t.apply call).LeasedBy (l.record t call) := by
  cases call with
  | enqueue payload metadata now => exact h.enqueue payload metadata now
  | poll now order => exact h.poll hkept now order
  | receive path frame now order =>
    exact h.of_sameLeases (receives_receive t path frame now order).sameLeases
  | path id remoteID rtt now => exact h.path id remoteID rtt now
  | disable id => exact h.disable id
  | setRemote epoch adopted => exact h.setRemote epoch adopted

end Transport.LeasedBy

theorem Leases.leasedBy_follow (calls : List Call) :
    ∀ (t : Transport) (l : Leases), t.books.Sound → t.LeasedBy l →
      (calls.foldl Transport.apply t).LeasedBy (l.follow t calls) := by
  induction calls with
  | nil => exact fun t l _ h => h
  | cons call _ ih =>
    intro t l hsound h
    exact ih _ _ (Transport.sound_apply hsound call)
      (h.record hsound.kept call)

theorem Leases.leasedBy_run (epoch : Epoch) (calls : List Call) :
    (Transport.run epoch calls).LeasedBy (Leases.run epoch calls) := by
  have hnone : ∀ id, (Transport.new epoch).find id = none := fun _ => rfl
  refine leasedBy_follow calls _ _ (Transport.sound_new epoch) ?_
  intro id p hp
  rw [hnone] at hp
  cases hp

/-- The frames of a `Poll`, turn by turn: each is on a lane leased less than a
second ago.  The lane of a bulk datagram and of a repair after a timeout was
live when it was chosen, and that of a small datagram and of a copy was not
dead. -/
theorem poll_is_gated (epoch : Epoch) (calls : List Call) (now : Time)
    (order : MapOrder) (t' : Transport) (out : List Transmission)
    (hpoll : (Transport.run epoch calls).poll now order = (t', .ok out)) :
    ∃ choices, Trace (PollTurn now order)
        { Transport.run epoch calls with lastTime := now } choices t' ∧
      choices.map Choice.sent = out ∧
      ∀ choice ∈ choices, ∃ p,
        choice.state.find choice.sent.path = some p ∧
        (∃ start, Leases.run epoch calls choice.sent.path = some start ∧
          now - start < second) ∧
        match choice.reason with
        | .ack => True
        | .keepalive => True
        | .moved _ => p.liveness now ≠ .dead
        | .repair _ => p.liveness now = .live
        | .original ref =>
          if (choice.state.packets ref).cls = .bulk then
            p.liveness now = .live
          else p.liveness now ≠ .dead
        | .copy _ => p.liveness now ≠ .dead := by
  have hkept := (Transport.sound_run epoch calls).kept
  have hleased := Leases.leasedBy_run epoch calls
  generalize Transport.run epoch calls = t at hpoll hkept hleased ⊢
  obtain ⟨e, herror⟩ | ⟨u, out', hpollAt, hok, -⟩ :=
    Transport.poll_cases hkept now order
  · rw [hpoll] at herror
    cases herror
  rw [hpoll] at hok
  obtain rfl : t' = u := congrArg Prod.fst hok
  obtain rfl : out = out' := Except.ok.inj (congrArg Prod.snd hok)
  obtain ⟨choices, htrace, hsent⟩ :=
    turns_pollAt order now { t with lastTime := now } hkept
  rw [hpollAt] at htrace hsent
  refine ⟨choices, htrace, hsent, fun choice hchoice => ?_⟩
  obtain ⟨⟨p, hfind, hup, hreason⟩, hsame⟩ :=
    Trace.gated htrace hkept choice hchoice
  refine ⟨p, hfind, ?_, hreason⟩
  have hlease : p.lease = (Leases.run epoch calls choice.sent.path).getD 0 :=
    (@Transport.LeasedBy.of_sameLeases { t with lastTime := now } _ _ hleased
      hsame) _ p hfind
  simp only [Lane.up, Bool.and_eq_true, decide_eq_true_eq] at hup
  cases hstart : Leases.run epoch calls choice.sent.path with
  | none =>
    rw [hstart] at hlease
    exact absurd hlease hup.1
  | some start =>
    rw [hstart] at hlease
    have hlease : p.lease = start := hlease
    refine ⟨start, rfl, ?_⟩
    rw [← hlease]
    exact hup.2

/-- Three datagrams go out over two lanes, each under the lease of its lane. -/
theorem poll_is_gated_offered :
    ∃ t' out, (Transport.run ⟨1, 1⟩ offered).poll second .plain = (t', .ok out) ∧
      out.map (·.path) = [1, 1, 2] ∧ ∃ choices : List Choice,
        choices.map Choice.sent = out ∧ ∀ choice ∈ choices,
          ∃ start, Leases.run ⟨1, 1⟩ offered choice.sent.path = some start := by
  have hthree : (match ((Transport.run ⟨1, 1⟩ offered).poll second .plain).2 with
    | .ok out => decide (out.map (·.path) = [1, 1, 2])
    | .error _ => false) = true := by decide +kernel
  rcases hpoll : (Transport.run ⟨1, 1⟩ offered).poll second .plain with
    ⟨t', e | out⟩
  · rw [hpoll] at hthree
    cases hthree
  rw [hpoll] at hthree
  obtain ⟨choices, -, hsent, hgated⟩ := poll_is_gated _ _ _ _ t' out hpoll
  refine ⟨t', out, rfl, of_decide_eq_true hthree, choices, hsent, ?_⟩
  intro choice hchoice
  obtain ⟨p, -, ⟨start, hstart, -⟩, -⟩ := hgated choice hchoice
  exact ⟨start, hstart⟩

end Wanbond.Bond
