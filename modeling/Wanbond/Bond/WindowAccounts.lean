import Wanbond.Bond.BooksMoves

/-!
# The accounts of a window

The bytes in flight on a lane are those of its attempts that are not released,
in total and by class, and the bytes acknowledged and recorded are within the
bytes sent.  Every move keeps each lane in balance.
-/

namespace Wanbond.Bond

open Wanbond.Support

/-! ## Balance -/

namespace Attempt

/-- The bytes that the attempt holds in the window. -/
def outstanding (a : Attempt) : ℤ := if a.released then 0 else a.bytes

/-- The bytes that the attempt holds in the window of class `c`. -/
def outstandingIn (cls : PacketRef → Class) (c : Class) (a : Attempt) : ℤ :=
  match a.packet with
  | none => 0
  | some ref => if cls ref = c then a.outstanding else 0

end Attempt

structure LaneCore.Balanced (lane : LaneCore) (cls : PacketRef → Class) :
    Prop where
  inflight : lane.inflight = tally Attempt.outstanding lane.attempts
  classInflight : ∀ c, lane.classInflight.get c =
    tally (Attempt.outstandingIn cls c) lane.attempts
  keys : ∀ k a, lane.attempts.lookup k = some a → k ≤ lane.seq
  sent : lane.acked + tally Attempt.bytes lane.attempts ≤ lane.sent

namespace LaneCore

variable {lane lane' : LaneCore} {heap : PacketHeap} {k : ℕ} {a : Attempt}

theorem Balanced.of_same {cls : PacketRef → Class} (h : lane.Balanced cls)
    (hsame : lane.SameAccounts lane') : lane'.Balanced cls where
  inflight := by
    rw [hsame.inflight, hsame.attempts]
    exact h.inflight
  classInflight c := by
    rw [hsame.classInflight, hsame.attempts]
    exact h.classInflight c
  keys k a ha := by
    rw [hsame.attempts] at ha
    rw [hsame.seq]
    exact h.keys k a ha
  sent := by
    rw [hsame.acked, hsame.attempts, hsame.sent]
    exact h.sent

theorem get_modify_add (v : PerClass ℤ) (c d : Class) (x : ℤ) :
    (v.modify c (· + x)).get d = v.get d + if c = d then x else 0 := by
  by_cases h : d = c
  · subst h
    simp [PerClass.modify]
  · rw [PerClass.modify, PerClass.get_set_ne _ h, if_neg (Ne.symm h), add_zero]

/-- The windows after an attempt has been cleared. -/
theorem clear_windows (lane : LaneCore) (heap : PacketHeap) (a : Attempt) :
    (lane.clear heap a).inflight = lane.inflight - a.outstanding ∧
      (∀ c, (lane.clear heap a).classInflight.get c =
        lane.classInflight.get c -
          a.outstandingIn (fun ref => (heap ref).cls) c) ∧
      (lane.clear heap a).acked = lane.acked := by
  unfold clear release Attempt.outstandingIn Attempt.outstanding
  cases a.released with
  | true => cases a.packet <;> simp
  | false =>
    cases a.packet with
    | none => simp
    | some ref =>
      refine ⟨by simp, fun c => ?_, by simp⟩
      have := get_modify_add lane.classInflight (heap ref).cls c (-a.bytes)
      simp only [← sub_eq_add_neg] at this
      simp only [Bool.false_eq_true, if_false]
      rw [this]
      split <;> ring

variable (h : lane.Balanced fun ref => (heap ref).cls)
include h

/-- A transmission is recorded. -/
theorem Balanced.attempt (packet : Option PacketRef) (now : Time)
    (bytes : ℕ) :
    (lane.attempt heap packet now bytes).Balanced fun ref => (heap ref).cls := by
  have hnone : lane.attempts.lookup (lane.seq + 1) = none := by
    rw [Option.eq_none_iff_forall_ne_some]
    intro a ha
    have := h.keys _ a ha
    omega
  constructor
  · refine Eq.trans ?_ (tally_insert_of_none _ _ hnone).symm
    rw [← h.inflight]
    exact add_comm _ _
  · intro c
    refine Eq.trans ?_ (tally_insert_of_none _ _ hnone).symm
    rw [← h.classInflight c]
    cases packet with
    | none => exact (zero_add _).symm
    | some ref =>
      refine (get_modify_add lane.classInflight (heap ref).cls c bytes).trans ?_
      simp only [Attempt.outstandingIn, Attempt.outstanding,
        Bool.false_eq_true, if_false]
      exact add_comm _ _
  · intro j a ha
    by_cases hj : j = lane.seq + 1
    · exact le_of_eq hj
    have ha' : lane.attempts.lookup j = some a := by
      rw [← ha]
      exact (AList.lookup_insert_ne hj).symm
    exact Nat.le_succ_of_le (h.keys j a ha')
  have htally := tally_insert_of_none Attempt.bytes
    ⟨packet, now, bytes, false, false, lane.sent + bytes⟩ hnone
  have hsent := h.sent
  dsimp only at htally
  show lane.acked + tally Attempt.bytes (lane.attempts.insert (lane.seq + 1)
    ⟨packet, now, bytes, false, false, lane.sent + bytes⟩) ≤ lane.sent + bytes
  omega

/-- An attempt leaves the lane with its bytes. -/
theorem Balanced.erased (ha : lane.attempts.lookup k = some a)
    (hattempts : lane'.attempts = lane.attempts.erase k)
    (hinflight : lane'.inflight = (lane.clear heap a).inflight)
    (hclass : lane'.classInflight = (lane.clear heap a).classInflight)
    (hseq : lane'.seq = lane.seq) (hsent : lane'.sent = lane.sent)
    (hacked : lane'.acked ≤ lane.acked + a.bytes) :
    lane'.Balanced fun ref => (heap ref).cls := by
  obtain ⟨hin, hcls, -⟩ := lane.clear_windows heap a
  constructor
  · rw [hinflight, hin, h.inflight, hattempts, ← tally_erase_of_some _ ha]
    exact add_sub_cancel_left _ _
  · intro c
    rw [hclass, hcls, h.classInflight, hattempts, ← tally_erase_of_some _ ha]
    exact add_sub_cancel_left _ _
  · intro j b hb
    rw [hattempts] at hb
    rw [hseq]
    by_cases hj : j = k
    · rw [hj, AList.lookup_erase] at hb
      cases hb
    · rw [AList.lookup_erase_ne hj] at hb
      exact h.keys j b hb
  have hbytes := tally_erase_of_some Attempt.bytes ha
  have htotal := h.sent
  rw [hattempts, hsent]
  omega

theorem Balanced.forget (ha : lane.attempts.lookup k = some a) :
    ((lane.clear heap a).forget k).Balanced fun ref => (heap ref).cls := by
  have hwire := lane.clear_toLaneWire heap a
  refine h.erased ha ?_ rfl rfl ?_ ?_ ?_
  · simp only [LaneCore.forget, hwire]
  · simp only [LaneCore.forget, hwire]
  · simp only [LaneCore.forget, hwire]
  · exact (le_of_eq (lane.clear_windows heap a).2.2).trans (Nat.le_add_right _ _)

theorem Balanced.confirm (ha : lane.attempts.lookup k = some a) :
    (((lane.clear heap a).credit a).forget k).Balanced
      fun ref => (heap ref).cls := by
  have hwire := lane.clear_toLaneWire heap a
  refine h.erased ha ?_ rfl rfl ?_ ?_ ?_
  · simp only [LaneCore.forget, LaneCore.credit, hwire]
  · simp only [LaneCore.forget, LaneCore.credit, hwire]
  · simp only [LaneCore.forget, LaneCore.credit, hwire]
  · exact le_of_eq (congrArg (· + a.bytes) (lane.clear_windows heap a).2.2)

/-- An attempt is cleared and stays, marked as released. -/
theorem Balanced.mark (ha : lane.attempts.lookup k = some a)
    (confirmed : Bool) :
    ((lane.clear heap a).put k
      { a with released := true, confirmed := confirmed }).Balanced
        fun ref => (heap ref).cls := by
  obtain ⟨hin, hcls, hacked⟩ := lane.clear_windows heap a
  have hwire := lane.clear_toLaneWire heap a
  set a' : Attempt := { a with released := true, confirmed := confirmed } with ha'
  have hattempts : ((lane.clear heap a).put k a').attempts =
      lane.attempts.insert k a' := by
    simp only [LaneCore.put, hwire]
  have houtstanding : a'.outstanding = 0 := rfl
  have houtstandingIn : ∀ cls c, a'.outstandingIn cls c = 0 := by
    intro cls c
    unfold Attempt.outstandingIn
    rw [houtstanding]
    split
    · rfl
    · exact ite_self 0
  constructor
  · have htally := tally_insert_of_some Attempt.outstanding a' ha
    rw [houtstanding, zero_add] at htally
    rw [hattempts]
    show (lane.clear heap a).inflight = _
    rw [hin, h.inflight, ← htally]
    exact add_sub_cancel_left _ _
  · intro c
    have htally := tally_insert_of_some
      (Attempt.outstandingIn (fun ref => (heap ref).cls) c) a' ha
    rw [houtstandingIn, zero_add] at htally
    rw [hattempts]
    show (lane.clear heap a).classInflight.get c = _
    rw [hcls, h.classInflight, ← htally]
    exact add_sub_cancel_left _ _
  · intro j b hb
    rw [hattempts] at hb
    show j ≤ (lane.clear heap a).seq
    rw [congrArg LaneWire.seq hwire]
    by_cases hj : j = k
    · rw [hj]
      exact h.keys k a ha
    · rw [AList.lookup_insert_ne hj] at hb
      exact h.keys j b hb
  have htally := tally_insert_of_some Attempt.bytes a' ha
  have htotal := h.sent
  have hbytes : a'.bytes = a.bytes := rfl
  rw [hattempts]
  show (lane.clear heap a).acked + _ ≤ (lane.clear heap a).sent
  rw [hacked, congrArg LaneWire.sent hwire]
  omega

end LaneCore

/-! ## Balance over the moves -/

/-- Every lane of the books is in balance. -/
def Books.Balanced (b : Books) : Prop :=
  ∀ id lane, b.lanes id = some lane →
    lane.Balanced fun ref => (b.packets ref).cls

variable {b b' : Books}

theorem Books.Balanced.write (h : b.Balanced) {id : PathID} {lane : LaneCore}
    (hlanes : b'.lanes = Function.update b.lanes id (some lane))
    (hlane : lane.Balanced fun ref => (b.packets ref).cls)
    (hcls : ∀ ref, (b'.packets ref).cls = (b.packets ref).cls) :
    b'.Balanced := by
  intro id' lane' hlane'
  rw [hlanes, Function.update_apply] at hlane'
  simp only [hcls]
  split at hlane'
  · rwa [← Option.some.inj hlane']
  · exact h id' lane' hlane'

theorem Books.Balanced.keep (h : b.Balanced) (hlanes : b'.lanes = b.lanes)
    (hcls : ∀ ref, (b'.packets ref).cls = (b.packets ref).cls) :
    b'.Balanced := by
  intro id lane hlane
  rw [hlanes] at hlane
  simp only [hcls]
  exact h id lane hlane

theorem Books.Balanced.send {b : Books} (h : b.Balanced) (now : Time)
    (ref : PacketRef) {id : PathID} {lane : LaneCore}
    (hlane : b.lanes id = some lane) : (b.send now ref id lane).Balanced :=
  h.write rfl ((h id lane hlane).attempt (some ref) now _) (cls_update rfl)

theorem PollMove.balanced {now : Time} (hmove : PollMove now b b')
    (h : b.Balanced) : b'.Balanced := by
  have hstamp : ∀ (b : Books) (ref : PacketRef), b.Balanced →
      (b.stamp now ref).Balanced := fun b ref h =>
    h.keep rfl (cls_update rfl)
  cases hmove with
  | dropSmall => exact h
  | dropLate => exact h
  | dropManaged => exact h
  | @firstSmall c ref id lane hc hpeek hlate hlane =>
    exact (hstamp (b.popSmall c) ref h).send now ref hlane
  | @firstBulk ref rest id lane hqueue hlate hlane =>
    exact (hstamp { b with queue := rest } ref h).send now ref hlane
  | again _ _ hlane => exact h.send now _ hlane
  | settled => exact h
  | expire => exact h
  | keepalive hlane =>
    exact h.write rfl ((h _ _ hlane).attempt none now _) fun _ => rfl
  | @timeOut id lane k a hlane ha hreleased =>
    have hclear : lane.clear b.packets a = lane.release b.packets a := by
      simp [LaneCore.clear, hreleased]
    rw [← hclear]
    exact h.write rfl ((h _ _ hlane).mark ha a.confirmed) fun _ => rfl
  | forget hlane ha => exact h.write rfl ((h _ _ hlane).forget ha) fun _ => rfl

theorem ReceiveMove.balanced (hmove : ReceiveMove b b') (h : b.Balanced) :
    b'.Balanced := by
  have hcls := hmove.settles.cls
  cases hmove with
  | note hlane hsame =>
    exact h.write rfl ((h _ _ hlane).of_same hsame) hcls
  | receipt => exact h.keep rfl hcls
  | confirm hlane ha =>
    exact h.write (Books.settlePacket_lanes ..) ((h _ _ hlane).confirm ha) hcls
  | forget hlane ha => exact h.write rfl ((h _ _ hlane).forget ha) hcls
  | mark hlane ha =>
    exact h.write rfl ((h _ _ hlane).mark ha true) hcls

end Wanbond.Bond
