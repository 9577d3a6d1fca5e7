import Wanbond.Bond.AckStages

/-!
# The account of a lane

The loops over the attempts of a lane settle an account: the attempts
themselves, the bytes in flight, the bytes confirmed, and how far the
confirmations were out of order.  The estimators neither read the account nor
change it, with one exception: the bytes still on their way are counted from
the attempts.
-/

namespace Wanbond.Bond

open Wanbond.Support

/-- What the loops over attempts write. -/
structure Account where
  attempts : Attempts
  inflight : ℤ
  classInflight : PerClass ℤ
  confirmedWireBytes : ℕ
  acked : ℕ
  newestConfirmed : Time
  reordering : Peak

namespace Lane

def account (p : Lane) : Account :=
  ⟨p.attempts, p.inflight, p.classInflight, p.confirmedWireBytes, p.acked,
    p.newestConfirmed, p.reordering⟩

/-- The lane with another account. -/
def withAccount (p : Lane) (x : Account) : Lane :=
  { p with
    attempts := x.attempts
    inflight := x.inflight
    classInflight := x.classInflight
    confirmedWireBytes := x.confirmedWireBytes
    acked := x.acked
    newestConfirmed := x.newestConfirmed
    reordering := x.reordering }

variable (p : Lane) (x : Account)

@[simp] theorem account_withAccount : (p.withAccount x).account = x := rfl

theorem withAccount_ite {c : Prop} [Decidable c] (a b : Lane) :
    (if c then a else b).withAccount x =
      if c then a.withAccount x else b.withAccount x := by
  split <;> rfl

/-! ## Estimators leave the account aside -/

/-- The function neither reads the account nor changes it. -/
def Aside (f : Lane → Lane) : Prop :=
  ∀ p x, f (p.withAccount x) = (f p).withAccount x

theorem Aside.account {f : Lane → Lane} (h : Aside f) (p : Lane) :
    (f p).account = p.account := by
  have hself : f p = (f p).withAccount p.account := h p p.account
  rw [hself, account_withAccount]

variable (now : Time)

theorem raiseToDelivery_withAccount :
    (p.withAccount x).raiseToDelivery now =
      (p.raiseToDelivery now).withAccount x := by
  unfold raiseToDelivery
  simp only [withAccount_ite]
  rfl

theorem stalledSignal_withAccount :
    (p.withAccount x).stalledSignal now = (p.stalledSignal now).withAccount x := by
  unfold stalledSignal
  simp only [withAccount_ite]
  rfl

theorem judgePending_withAccount (lost : Bool) :
    (p.withAccount x).judgePending now lost =
      (p.judgePending now lost).withAccount x := by
  unfold judgePending
  simp only [withAccount_ite]
  rfl

theorem endDrain_withAccount (lost : Bool) :
    (p.withAccount x).endDrain now lost = (p.endDrain now lost).withAccount x := by
  unfold endDrain
  simp only [withAccount_ite]
  rfl

theorem endDiscovery_withAccount (lost laneLimited : Bool) (queued : Duration) :
    (p.withAccount x).endDiscovery now lost laneLimited queued =
      (p.endDiscovery now lost laneLimited queued).withAccount x := by
  unfold endDiscovery
  simp only [withAccount_ite]
  rfl

theorem remeasure_withAccount (lost : Bool) (queued : Duration) :
    (p.withAccount x).remeasure now lost queued =
      (p.remeasure now lost queued).withAccount x := by
  cases lost with
  | false => rfl
  | true => rfl

theorem decay_withAccount (lost : Bool) (queued : Duration) :
    (p.withAccount x).decay now lost queued =
      (p.decay now lost queued).withAccount x := by
  cases lost with
  | false => rfl
  | true => rfl

theorem holdOrPulse_withAccount (laneLimited : Bool) :
    (p.withAccount x).holdOrPulse now laneLimited =
      (p.holdOrPulse now laneLimited).withAccount x := by
  unfold holdOrPulse
  simp only [withAccount_ite]
  rfl

theorem boundByDelivery_withAccount (stream : Bool) :
    (p.withAccount x).boundByDelivery now stream =
      ((p.boundByDelivery now stream).1.withAccount x,
        (p.boundByDelivery now stream).2) := by
  unfold boundByDelivery
  refine Prod.ext ?_ ?_
  · simp only [apply_ite Prod.fst, withAccount_ite]
    rfl
  · simp only [apply_ite Prod.snd]
    rfl

theorem plateau_withAccount (delivered : ℚ) :
    (p.withAccount x).plateau now delivered =
      ((p.plateau now delivered).1.withAccount x,
        (p.plateau now delivered).2) := by
  unfold plateau
  refine Prod.ext ?_ ?_
  · simp only [apply_ite Prod.fst, withAccount_ite]
    rfl
  · simp only [apply_ite Prod.snd]
    rfl

theorem congested_withAccount (lost laneLimited : Bool) :
    (p.withAccount x).congested now lost laneLimited =
      (p.congested now lost laneLimited).withAccount x := by
  dsimp only [congested]
  rw [judgePending_withAccount, endDrain_withAccount]
  simp only [withAccount_ite, ← endDiscovery_withAccount, ← remeasure_withAccount,
    ← decay_withAccount]
  rfl

theorem discover_withAccount (realtime stream laneLimited : Bool) :
    (p.withAccount x).discover now realtime stream laneLimited =
      (p.discover now realtime stream laneLimited).withAccount x := by
  have hplateau : ∀ (q : Lane) (rate delivered : ℚ),
      ({ q.withAccount x with rate := rate } : Lane).plateau now delivered = _ :=
    fun q rate => plateau_withAccount { q with rate := rate } x now
  have hbound : ∀ (q : Lane) (rate : ℚ),
      ({ q.withAccount x with rate := rate } : Lane).boundByDelivery now stream =
        _ :=
    fun q rate => boundByDelivery_withAccount { q with rate := rate } x now stream
  unfold discover
  simp only [hplateau, hbound, withAccount_ite]
  rfl

theorem adjust_withAccount
    (lost delayed sampled laneLimited realtime stream : Bool) :
    (p.withAccount x).adjust now lost delayed sampled laneLimited realtime stream =
      (p.adjust now lost delayed sampled laneLimited realtime
        stream).withAccount x := by
  unfold adjust
  simp only [withAccount_ite, ← stalledSignal_withAccount, ← congested_withAccount,
    ← discover_withAccount, ← holdOrPulse_withAccount]
  rfl

variable (sample : Duration)

theorem concludeFloor_withAccount (queueDelay : Duration) :
    (p.withAccount x).concludeFloor sample queueDelay =
      (p.concludeFloor sample queueDelay).withAccount x := by
  unfold concludeFloor
  simp only [withAccount_ite]
  rfl

theorem settleLoss_withAccount :
    (p.withAccount x).settleLoss now =
      ((p.settleLoss now).1.withAccount x, (p.settleLoss now).2) := by
  unfold settleLoss
  have hlosses : (p.withAccount x).losses = p.losses := rfl
  rw [hlosses]
  generalize p.losses.settled now = r
  obtain ⟨losses, settled⟩ := r
  cases settled with
  | none => rfl
  | some => rfl

theorem lightlyLoaded_withAccount : (p.withAccount x).lightlyLoaded =
    (p.lightlyLoaded.1.withAccount x, p.lightlyLoaded.2) := by
  dsimp only [lightlyLoaded]
  have hknown : ((p.withAccount x).startup ||
      decide ((p.withAccount x).control.capacity = 0)) =
        (p.startup || decide (p.control.capacity = 0)) := rfl
  rw [hknown]
  cases (p.startup || decide (p.control.capacity = 0)) with
  | false => rfl
  | true => rfl

theorem observeWander_withAccount (delay : Duration) :
    (p.withAccount x).observeWander delay =
      (p.observeWander delay).withAccount x := by
  unfold observeWander
  simp only [withAccount_ite]
  rfl

theorem trackWander_withAccount (queueDelay : Duration) :
    (p.withAccount x).trackWander sample queueDelay =
      (p.trackWander sample queueDelay).withAccount x := by
  unfold trackWander
  simp only [lightlyLoaded_withAccount, withAccount_ite,
    ← observeWander_withAccount]
  rfl

theorem concludeInterval_withAccount (delayed : Bool) (signals : Signals) :
    (p.withAccount x).concludeInterval now sample delayed signals =
      (p.concludeInterval now sample delayed signals).withAccount x := by
  have hsettle : ({ p.withAccount x with
      haveInterval := false
      intervalSamples := 0
      intervalJitter := (p.withAccount x).delayJitter } : Lane).settleLoss now =
      _ :=
    settleLoss_withAccount { p with
      haveInterval := false
      intervalSamples := 0
      intervalJitter := p.delayJitter } x now
  unfold concludeInterval
  simp only [hsettle, withAccount_ite, ← adjust_withAccount]

theorem controlInterval_withAccount (signals : Signals) :
    (p.withAccount x).controlInterval now sample signals =
      (p.controlInterval now sample signals).withAccount x := by
  have hbegin : ∀ delay : Duration,
      ({ p.withAccount x with lastAdjust := now, signalDelay := delay } : Lane) =
        ({ p with lastAdjust := now, signalDelay := delay } :
          Lane).withAccount x := fun _ => rfl
  unfold controlInterval
  simp only [hbegin, concludeFloor_withAccount, trackWander_withAccount,
    concludeInterval_withAccount, withAccount_ite]
  rfl

theorem observeIdleRTT_withAccount :
    (p.withAccount x).observeIdleRTT now sample =
      (p.observeIdleRTT now sample).withAccount x := by
  unfold observeIdleRTT
  simp only [withAccount_ite]
  rfl

theorem observeRTT_withAccount :
    (p.withAccount x).observeRTT now sample =
      (p.observeRTT now sample).withAccount x := by
  have hidle : ∀ variation : Duration,
      ({ p.withAccount x with rttVariation := variation } :
          Lane).observeIdleRTT now sample = _ := fun variation =>
    observeIdleRTT_withAccount { p with rttVariation := variation } x now sample
  unfold observeRTT
  simp only [hidle, withAccount_ite]
  rfl

theorem observeRate_withAccount (a : Acknowledgement) :
    (p.withAccount x).observeRate now a =
      (p.observeRate now a).withAccount x := by
  unfold observeRate
  simp only [withAccount_ite, ← raiseToDelivery_withAccount]
  rfl

theorem observeIdleForward_withAccount (transit : Duration) :
    (p.withAccount x).observeIdleForward transit =
      (p.observeIdleForward transit).withAccount x := by
  unfold observeIdleForward
  simp only [withAccount_ite]
  rfl

theorem endBaseline_withAccount :
    (p.withAccount x).endBaseline sample =
      (p.endBaseline sample).withAccount x := by
  dsimp only [endBaseline]
  have htesting : (p.withAccount x).floorTesting = p.floorTesting := rfl
  rw [htesting]
  cases p.floorTesting with
  | false => rfl
  | true => rfl

theorem observeTransit_withAccount (transit : Duration) (bytes : ℕ) :
    (p.withAccount x).observeTransit now transit bytes =
      (p.observeTransit now transit bytes).withAccount x := by
  unfold observeTransit
  simp only [withAccount_ite]
  rfl

theorem aside_observeFeedbackRTT : Aside fun p => p.observeFeedbackRTT sample := by
  intro p x
  unfold observeFeedbackRTT
  simp only [withAccount_ite]
  rfl

theorem aside_observeHigh (a : Acknowledgement) (sent : Attempt) :
    Aside fun p => p.observeHigh now a sent sample := by
  intro p x
  unfold observeHigh
  simp only [observeIdleForward_withAccount, ← withAccount_ite,
    endBaseline_withAccount, observeTransit_withAccount]
  rfl

/-- All estimators of a fresh acknowledgement. -/
theorem aside_observeFresh (a : Acknowledgement) (signals : Signals) :
    Aside fun p => Transport.observeFresh p a now sample signals := by
  intro p x
  have hgap : ∀ q : Lane, (q.withAccount x).observeGap now =
      (q.observeGap now).withAccount x := fun _ => rfl
  have hbound : ∀ q : Lane, ((q.withAccount x).boundByDelivery now
      signals.stream).1 = (q.boundByDelivery now signals.stream).1.withAccount x :=
    fun q => congrArg Prod.fst (boundByDelivery_withAccount q x now signals.stream)
  show Transport.observeFresh (p.withAccount x) a now sample signals =
    (Transport.observeFresh p a now sample signals).withAccount x
  unfold Transport.observeFresh
  rw [observeRTT_withAccount, observeRate_withAccount]
  rw [← controlInterval_withAccount, ← hgap, ← hbound]
  rfl

end Lane

end Wanbond.Bond
