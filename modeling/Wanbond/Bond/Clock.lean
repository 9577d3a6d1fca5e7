import Wanbond.Bond.AckStages

/-!
# The clock of a transport

The time of the last call that was accepted.  Each call checks its own time
against it first, and nothing else moves it.
-/

namespace Wanbond.Bond

open Wanbond.Support

namespace Transport

variable {t : Transport} {now : Time}

/-! ## Poll -/

theorem transmit_lastTime (t : Transport) (now : Time) (ref : PacketRef)
    (path : Lane) : (t.transmit now ref path).1.lastTime = t.lastTime := by
  unfold transmit
  split
  · dsimp only [stampPacket, countOriginal]
    split <;> split <;> rfl
  · rfl

theorem acknowledge_lastTime (t : Transport) (now : Time) (lane : PathID) :
    (t.acknowledge now lane).1.lastTime = t.lastTime := by
  unfold acknowledge
  split
  · rfl
  split
  · rfl
  split
  · rfl
  split
  · dsimp only
    split <;> rfl
  · rfl

theorem service_lastTime (t : Transport) (now : Time) (order : MapOrder)
    (id : PathID) : (t.service now order id).1.lastTime = t.lastTime := by
  unfold service
  split
  · rfl
  · dsimp only
    split <;> rfl

theorem repairTurn_lastTime (t : Transport) (now : Time) (ref : PacketRef) :
    (t.repairTurn now ref).1.lastTime = t.lastTime := by
  dsimp only [repairTurn]
  split
  · rfl
  split
  · rfl
  · split
    · rfl
    · exact transmit_lastTime t now ref _

theorem repairs_lastTime (now : Time) (refs : List PacketRef) :
    ∀ t : Transport, (repairs now refs t).1.lastTime = t.lastTime := by
  induction refs with
  | nil => exact fun t => rfl
  | cons ref _ ih =>
    exact fun t => (ih _).trans (repairTurn_lastTime t now ref)

theorem sendCopy_lastTime (t : Transport) (now : Time) (c : Class)
    (ref : PacketRef) (size : ℕ) (first : PathID) :
    (t.sendCopy now c ref size first).1.lastTime = t.lastTime := by
  dsimp only [sendCopy]
  split
  · split
    · rfl
    · refine (transmit_lastTime _ now ref _).trans ?_
      split <;> rfl
  · rfl

theorem sendBulkTurn_lastTime (t : Transport) (now : Time) (ref : PacketRef)
    (rest : List PacketRef) :
    (t.sendBulkTurn now ref rest).1.lastTime = t.lastTime := by
  have hpop : (t.popBulk now (t.packets ref) rest).1.lastTime = t.lastTime := by
    dsimp only [popBulk]
    split <;> rfl
  dsimp only [sendBulkTurn]
  split
  · rfl
  split
  · rfl
  · split
    · exact hpop
    · exact (transmit_lastTime _ now ref _).trans hpop

theorem givesUp_lastTime (t : Transport) (now : Time) (c : Class) (p : Packet) :
    (t.givesUp now c p).1.lastTime = t.lastTime := by
  unfold givesUp stale
  split
  · rfl
  split
  · split
    · rfl
    · split <;> rfl
  · rfl

theorem PollTurn.lastTime {order : MapOrder} {t' : Transport}
    {choices : List Choice} (h : PollTurn now order t choices t') :
    t'.lastTime = t.lastTime := by
  cases h with
  | refill => rfl
  | acknowledge lane => exact acknowledge_lastTime t now lane
  | service id => exact service_lastTime t now order id
  | reserve =>
    dsimp only [reserve, reserveWithin]
    split <;> rfl
  | repair => exact repairs_lastTime now _ t
  | endBacklog =>
    unfold endBacklog
    split <;> rfl
  | judge c => exact givesUp_lastTime t now c _
  | drop => rfl
  | original => exact transmit_lastTime _ now _ _
  | copy _ _ c first => exact sendCopy_lastTime t now c _ _ first
  | bulk => exact sendBulkTurn_lastTime t now _ _

/-- The clock after `Poll`. -/
theorem poll_lastTime (hkept : t.books.Kept) (now : Time) (order : MapOrder) :
    (t.poll now order).1.lastTime = max t.lastTime now := by
  have htraced : ∀ {u u' : Transport} {choices : List Choice},
      Trace (PollTurn now order) u choices u' → u'.lastTime = u.lastTime :=
    fun htrace => htrace.related (P := fun _ => True)
      (R := fun u u' : Transport => u'.lastTime = u.lastTime) (fun _ => rfl)
      (fun _ _ _ h h' => h'.trans h) (fun _ _ _ _ _ => trivial)
      (fun _ _ _ _ hturn => PollTurn.lastTime hturn) trivial
  unfold poll checkTime
  by_cases hnow : now < t.lastTime
  · rw [if_pos hnow]
    exact (max_eq_left hnow.le).symm
  rw [if_neg hnow, max_eq_right (not_lt.mp hnow)]
  obtain ⟨choices, htrace, -⟩ := turns_pollAt order now
    { t with lastTime := now } hkept
  have hlast := htraced htrace
  dsimp only
  exact hlast

/-! ## The other calls -/

theorem path_lastTime (t : Transport) (id remoteID : PathID) (rtt : Duration)
    (now : Time) :
    (t.path id remoteID rtt now).1.lastTime = max t.lastTime now := by
  unfold path checkTime
  by_cases hnow : now < t.lastTime
  · rw [if_pos hnow]
    exact (max_eq_left hnow.le).symm
  · rw [if_neg hnow, max_eq_right (not_lt.mp hnow)]
    dsimp only
    split <;> rfl

theorem disable_lastTime (t : Transport) (id : PathID) :
    (t.disable id).lastTime = t.lastTime := by
  unfold disable
  split <;> rfl

theorem setRemote_lastTime (t : Transport) (epoch : Epoch) (adopted : Bool) :
    (t.setRemote epoch adopted).1.lastTime = t.lastTime := by
  unfold setRemote
  split <;> rfl

theorem confirmLanes_lastTime (a : Acknowledgement) (now : Time)
    (order : MapOrder) (acknowledged : PathID) (feedback : Duration)
    (ids : List PathID) :
    ∀ t : Transport, (ids.foldl
      (confirmLane a now order acknowledged feedback) t).lastTime =
        t.lastTime := by
  induction ids with
  | nil => exact fun t => rfl
  | cons _ _ ih =>
    refine fun t => (ih _).trans ?_
    unfold confirmLane
    split
    · rfl
    · exact (turns_confirmTurns a now _ _).same.lastTime

theorem ack_lastTime (t : Transport) (p : Lane) (a : Acknowledgement)
    (now : Time) (fresh : Bool) (order : MapOrder) :
    (t.ack p a now fresh order).lastTime = t.lastTime := by
  have hsettle : ∀ p : Lane,
      (t.settle p a now fresh order).lastTime = t.lastTime := by
    intro p
    refine (confirmLanes_lastTime a now order _ _ _ _).trans ?_
    exact (same_settlePrefix a now fresh t p order).1.lastTime
  dsimp only [ack]
  split
  · exact hsettle _
  · dsimp only [estimate]
    split <;> exact hsettle _

theorem receiveAt_lastTime (t : Transport) (path : PathID) (f : Control)
    (now : Time) (order : MapOrder) :
    (t.receiveAt path f now order).1.lastTime = t.lastTime := by
  have hdata : ∀ (p : Lane) (lane : PathID) (seq : ℕ)
      (fields : Option DataFields),
      (t.receiveData p lane seq fields now).1.lastTime = t.lastTime := by
    intro p lane seq fields
    rcases t.receiveData_cases p lane seq fields now with ⟨e, -, heq⟩ |
      ⟨u, deliveries, _, _, _, _, heq, rfl | rfl⟩ <;> rw [heq]
    rfl
  have hack : ∀ (p : Lane) (lane : PathID) (revision : ℕ)
      (fields : Option Acknowledgement),
      (t.receiveAck p lane revision fields now order).1.lastTime =
        t.lastTime := by
    intro p lane revision fields
    rcases t.receiveAck_cases p lane revision fields now with ⟨e, -, heq⟩ |
      ⟨-, e, -, heq⟩ | ⟨a, -, -, -, -, -, heq⟩
    · rw [heq]
    · rw [heq]
      rfl
    · rw [heq]
      exact ack_lastTime _ _ _ _ _ _
  have hlane : ∀ (header : PacketHeader) (branch : Lane → Received),
      (∀ p, (branch p).1.lastTime = t.lastTime) →
      (t.onLane path header f.seq now branch).1.lastTime = t.lastTime := by
    intro header branch hbranch
    unfold onLane
    split
    · rfl
    · exact hbranch _
  unfold receiveAt
  split
  · rfl
  · exact hlane _ _ fun p => hdata p _ _ _
  · exact hlane _ _ fun p => hack p _ _ _
  · exact hlane _ _ fun p => rfl

theorem receive_lastTime (t : Transport) (path : PathID) (f : Control)
    (now : Time) (order : MapOrder) :
    (t.receive path f now order).1.lastTime = max t.lastTime now := by
  have hreport : ∀ r : Received, (report r).1.lastTime = r.1.lastTime := by
    rintro ⟨u, result⟩
    cases result <;> rfl
  rcases t.receive_cases path f now order with ⟨hnow, hr⟩ | ⟨hnow, hr⟩
  · rw [hr, max_eq_left hnow.le, hreport]
  · rw [hr, max_eq_right hnow, hreport, receiveAt_lastTime]

end Transport

end Wanbond.Bond
