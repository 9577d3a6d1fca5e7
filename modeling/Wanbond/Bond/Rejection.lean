import Wanbond.Bond.NodeInvariant

/-!
# Rejected input leaves no trace

In every state that a sequence of calls reaches, a frame that `Receive` rejects
changes the counter of its cause and the clock, and nothing else.  Two checks
come after a write: a receiver is created before its path is compared, and the
last test of an acknowledgement marks its revision.  Neither write survives a
rejection.
-/

namespace Wanbond.Bond

open Wanbond.Support

/-! ## The states of a run -/

/-- The state agrees with some history. -/
def Transport.Ok (t : Transport) : Prop := ∃ s datagrams, StateOk t s datagrams

theorem Transport.Ok.apply {t : Transport} (h : t.Ok) (call : Call) :
    (t.apply call).Ok := by
  obtain ⟨s, datagrams, h⟩ := h
  cases call with
  | enqueue payload metadata now => exact ⟨_, _, h.enqueue payload metadata now⟩
  | path id remoteID rtt now => exact ⟨_, _, h.path id remoteID rtt now⟩
  | disable id => exact ⟨_, _, h.disable id⟩
  | receive path frame now order =>
    exact ⟨_, _, h.receive path frame now order⟩
  | poll now order =>
    by_cases hnow : now < t.lastTime
    · simp only [Transport.apply, Transport.poll, Transport.checkTime,
        if_pos hnow]
      exact ⟨_, _, h⟩
    · simp only [Transport.apply, Transport.poll, Transport.checkTime,
        if_neg hnow]
      exact ⟨_, _, (h.clock (not_lt.mp hnow)).pollAt now order⟩
  | setRemote epoch adopted =>
    by_cases haccept : t.acceptsRemote epoch adopted = true
    · exact ⟨_, _, h.setRemote haccept⟩
    have hsame : t.apply (.setRemote epoch adopted) = t := by
      simp [Transport.apply, Transport.setRemote, haccept]
    rw [hsame]
    exact ⟨_, _, h⟩

theorem Transport.ok_run (epoch : Epoch) (calls : List Call) :
    (Transport.run epoch calls).Ok :=
  Transport.run_induction epoch ⟨_, _, stateOk_new epoch⟩
    (fun _ call h => h.apply call) calls

/-! ## Rejections -/

/-- A rejection leaves the state as it was before the frame. -/
def Transport.Clean (t : Transport) (r : Transport.Received) : Prop :=
  ∀ e, r.2 = .error e → r.1 = t ∧ e.cause ≠ .time

section Rejections

variable {t : Transport} {p : Lane} {now : Time}

theorem Transport.clean_ok (t t' : Transport) (ds : List Delivery) :
    t.Clean (t', .ok ds) := by
  intro e h
  cases h

theorem Transport.clean_reject {cause : RejectionCause} (h : cause ≠ .time)
    (message : String) : t.Clean (t.reject cause message) := by
  intro e he
  cases he
  exact ⟨rfl, h⟩

/-- The DATA branch.  A receiver that it creates has the frame's path. -/
theorem Transport.clean_receiveData (lane : PathID) (seq : ℕ)
    (fields : Option DataFields) :
    t.Clean (t.receiveData p lane seq fields now) := by
  rcases t.receiveData_cases p lane seq fields now with ⟨e, hcause, heq⟩ |
    ⟨u, deliveries, _, _, _, _, heq, -⟩
  · rw [heq]
    exact clean_reject hcause _
  · rw [heq]
    exact clean_ok _ _ _

theorem Transport.clean_receiveAck (hids : (t.paths.map fun q => q.id).Nodup)
    (hfind : t.find p.id = some p) (lane : PathID) (revision : ℕ)
    (fields : Option Acknowledgement) (order : MapOrder) :
    t.Clean (t.receiveAck p lane revision fields now order) := by
  rcases t.receiveAck_cases p lane revision fields now with
    ⟨e, hcause, heq⟩ | ⟨hmark, e, hcause, heq⟩ | ⟨a, -, -, -, -, -, heq⟩
  · rw [heq]
    exact clean_reject hcause _
  · rw [heq, Transport.setLane_refused hids hfind hmark]
    exact clean_reject hcause _
  · rw [heq]
    exact clean_ok _ _ _

theorem Transport.clean_onLane {path : PathID} {h : PacketHeader} {seq : ℕ}
    {branch : Lane → Transport.Received}
    (hbranch : ∀ p, t.find path = some p → t.Clean (branch p)) :
    t.Clean (t.onLane path h seq now branch) := by
  unfold Transport.onLane
  cases hv : t.validate path h seq now with
  | ok p => exact hbranch p (Transport.validate_ok hv).2.2.1
  | error e =>
    intro e' he'
    cases he'
    refine ⟨rfl, ?_⟩
    unfold Transport.validate at hv
    split at hv
    · cases hv
      decide
    split at hv
    · cases hv
      decide
    split at hv
    · cases hv
      decide
    split at hv
    · cases hv
      decide
    · cases hv

theorem Transport.clean_receiveAt (hids : (t.paths.map fun q => q.id).Nodup)
    (path : PathID) (f : Control) (now : Time) (order : MapOrder) :
    t.Clean (t.receiveAt path f now order) := by
  obtain ⟨seq, body⟩ := f
  cases body with
  | malformed => exact clean_reject (by decide) _
  | other header => exact clean_onLane fun _ _ => clean_reject (by decide) _
  | data => exact clean_onLane fun p _ => clean_receiveData _ _ _
  | ack =>
    refine clean_onLane fun p hfind => ?_
    obtain rfl := Transport.id_of_find hfind
    exact clean_receiveAck hids hfind _ _ _ order

end Rejections

theorem Transport.enqueue_error (t : Transport) (payload : Bytes)
    (metadata : PacketMetadata) (now : Time) (e : Transport.EnqueueError) :
    (t.enqueue payload metadata now).2 = .error e →
    (t.enqueue payload metadata now).1 = match e with
      | .time _ => t
      | .length _ => { t with lastTime := now } := by
  intro he
  unfold Transport.enqueue Transport.checkTime at he ⊢
  by_cases hnow : now < t.lastTime
  · rw [if_pos hnow] at he ⊢
    cases he
    rfl
  rw [if_neg hnow] at he ⊢
  dsimp only at he ⊢
  split at he
  next hlength =>
    cases he
    rw [if_pos hlength]
  next =>
    split at he
    · cases he
    · cases he

theorem Transport.poll_error (t : Transport) (now : Time) (order : MapOrder)
    (e : RejectionError) (he : (t.poll now order).2 = .error e) :
    (t.poll now order).1 = t ∧ e.cause = .time := by
  unfold Transport.poll Transport.checkTime at he ⊢
  by_cases hnow : now < t.lastTime
  · rw [if_pos hnow] at he ⊢
    cases he
    exact ⟨rfl, rfl⟩
  · rw [if_neg hnow] at he
    dsimp only at he
    cases he

theorem Transport.path_error (t : Transport) (id remoteID : PathID)
    (rtt : Duration) (now : Time) (e : RejectionError)
    (he : (t.path id remoteID rtt now).2 = .error e) :
    (t.path id remoteID rtt now).1 = t ∧ e.cause = .time := by
  unfold Transport.path Transport.checkTime at he ⊢
  by_cases hnow : now < t.lastTime
  · rw [if_pos hnow] at he ⊢
    cases he
    exact ⟨rfl, rfl⟩
  rw [if_neg hnow] at he
  dsimp only at he
  split at he
  · cases he
  · cases he

/-- A call that is rejected changes nothing but the counter of the cause and,
unless the clock went back, the time last seen. -/
theorem rejected_leaves_no_trace (epoch : Epoch) (calls : List Call) :
    let t := Transport.run epoch calls
    (∀ path f now order e, (t.receive path f now order).2 = .error e →
      (t.receive path f now order).1 =
        { t with
          lastTime := if e.cause = .time then t.lastTime else now
          rejected := Function.update t.rejected e.cause
            (t.rejected e.cause + 1) }) ∧
    (∀ path controlType seq payload now order e,
      (t.receive path (.parse controlType seq payload) now order).2 = .error e →
      (t.receive path (.parse controlType seq payload) now order).1 =
        { t with
          lastTime := if e.cause = .time then t.lastTime else now
          rejected := Function.update t.rejected e.cause
            (t.rejected e.cause + 1) }) ∧
    (∀ payload metadata now e, (t.enqueue payload metadata now).2 = .error e →
      (t.enqueue payload metadata now).1 = match e with
        | .time _ => t
        | .length _ => { t with lastTime := now }) ∧
    (∀ now order e, (t.poll now order).2 = .error e →
      (t.poll now order).1 = t ∧ e.cause = .time) ∧
    (∀ id remoteID rtt now e, (t.path id remoteID rtt now).2 = .error e →
      (t.path id remoteID rtt now).1 = t ∧ e.cause = .time) := by
  intro t
  obtain ⟨s, datagrams, hstate⟩ := Transport.ok_run epoch calls
  refine (fun hreceive => ⟨hreceive, fun path controlType seq payload =>
    hreceive path (.parse controlType seq payload), t.enqueue_error,
    t.poll_error, t.path_error⟩) ?_
  intro path f now order e he
  rcases t.receive_cases path f now order with ⟨-, hr⟩ | ⟨-, hr⟩
  · rw [hr] at he ⊢
    cases he
    rfl
  have hclean := Transport.clean_receiveAt (t := { t with lastTime := now })
    hstate.ids path f now order
  revert he hclean
  rw [hr]
  generalize Transport.receiveAt { t with lastTime := now } path f now
    order = r
  obtain ⟨t', result⟩ := r
  intro he hclean
  cases result with
  | ok => cases he
  | error e' =>
    obtain rfl : e' = e := Except.error.inj he
    obtain ⟨rfl, hcause⟩ := hclean e' rfl
    rw [if_neg hcause]
    rfl

end Wanbond.Bond
