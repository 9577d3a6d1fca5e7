import Wanbond.Reseq.Moves

/-!
# Structure of the resequencer

Between calls the ring is in order, no frame waits at the release point, and a
hold is armed exactly while frames are buffered (`Ok`).  Each function is a
succession of moves that restores this; `drain` and `expire` run until their
loops end.
-/

namespace Wanbond.Reseq

open Wanbond.Bond (Time Duration Bytes)
open Wanbond.Support

variable {α : Type}

namespace Resequencer

variable {r r' : Resequencer α} {bound : ℕ} {pins : ℕ → ℕ → Prop}

/-! ## Quiet functions -/

theorem quiet_endHold (r : Resequencer α) (now : Time) :
    Quiet r (r.endHold now) := by
  unfold endHold
  split
  · exact ⟨rfl, rfl, rfl, rfl, rfl, rfl, rfl, rfl, rfl, rfl, fun h => ⟨h.1, h.2⟩⟩
  · exact .refl r

theorem waiting_endHold (r : Resequencer α) (now : Time) :
    (r.endHold now).waiting = false := by
  unfold endHold
  split
  · rfl
  · exact Bool.eq_false_iff.mpr ‹_›

theorem quiet_resyncReset (r : Resequencer α) : Quiet r r.resyncReset :=
  ⟨rfl, rfl, rfl, rfl, rfl, rfl, rfl, rfl, rfl, rfl, fun h => ⟨h.1, h.2⟩⟩

theorem filter_frame (h : Filed r) {i : ℕ} {c : Slot α}
    (hc : r.ring i = some c) :
    ((r.frame c.seq).filter fun _ => decide (c.seq ≥ r.next)) = some c := by
  rw [h.frame_of_ring hc]
  simp [(h.placed i c hc).2.1]

/-- The scan of the held list passes over no buffered frame, and finds one where
there is one. -/
theorem oldestLoop_spec (rest : List ℕ) (r : Resequencer α) (h : Filed r)
    (hrest : r.held.drop r.heldPos = rest) :
    Quiet r (oldestLoop rest r).1 ∧
      ∀ i c, r.ring i = some c → c.seq ∈ rest →
        (oldestLoop rest r).2.isSome := by
  induction rest generalizing r with
  | nil =>
    refine ⟨⟨rfl, rfl, rfl, rfl, rfl, rfl, rfl, rfl, rfl, rfl, fun hlisted =>
      ⟨le_rfl, fun i c hc hne => ?_⟩⟩, fun _ _ _ hmem => by cases hmem⟩
    have hmem := hlisted.listed i c hc hne
    rw [hrest] at hmem
    cases hmem
  | cons seq rest ih =>
    let visited : Resequencer α :=
      { r with holdSlotVisits := r.holdSlotVisits + 1 }
    have hvisited : Quiet r visited :=
      ⟨rfl, rfl, rfl, rfl, rfl, rfl, rfl, rfl, rfl, rfl, fun h => ⟨h.1, h.2⟩⟩
    cases hlive : (visited.frame seq).filter
        fun _ => decide (seq ≥ visited.next) with
    | some c =>
      simp only [oldestLoop]
      rw [hlive]
      refine ⟨?_, fun _ _ _ _ => rfl⟩
      dsimp only
      split
      · -- what was passed over is dropped from the list
        refine hvisited.trans ⟨rfl, rfl, rfl, rfl, rfl, rfl, rfl, rfl, rfl,
          rfl, fun hlisted => ⟨Nat.zero_le _, hlisted.listed⟩⟩
      · exact hvisited
    | none =>
      simp only [oldestLoop]
      rw [hlive]
      have hlt : r.heldPos < r.held.length := by
        by_contra hge
        rw [List.drop_eq_nil_of_le (by omega)] at hrest
        cases hrest
      have htail : r.held.drop (r.heldPos + 1) = rest := by
        rw [← List.tail_drop, hrest, List.tail_cons]
      -- no buffered frame has the sequence that is passed over
      have hdead : ∀ i c, r.ring i = some c → c.seq ≠ seq := by
        rintro i c hc rfl
        have hfound := filter_frame (h.quiet hvisited) hc
        rw [hlive] at hfound
        cases hfound
      have hpassed : Quiet visited
          { visited with heldPos := visited.heldPos + 1 } := by
        refine ⟨rfl, rfl, rfl, rfl, rfl, rfl, rfl, rfl, rfl, rfl,
          fun hlisted => ⟨hlt, fun i c hc hne => ?_⟩⟩
        have hmem := hlisted.listed i c hc hne
        rw [hrest] at hmem
        rw [htail]
        exact (List.mem_cons.mp hmem).resolve_left (hdead i c hc)
      have hall := hvisited.trans hpassed
      obtain ⟨hquiet, hfinds⟩ := ih _ (h.quiet hall) htail
      refine ⟨hall.trans hquiet, fun i c hc hmem => hfinds i c hc ?_⟩
      exact (List.mem_cons.mp hmem).resolve_left (hdead i c hc)

/-- A hold is armed exactly when frames are buffered. -/
theorem arm_spec (h : Filed r) (hhead : r.frame r.next = none) (now : Time) :
    Quiet r (r.arm now) ∧ (r.arm now).waiting = decide (0 < r.buf) := by
  unfold arm
  by_cases hbuf : 0 < r.buf
  · rw [if_pos ⟨by rw [hhead]; rfl, hbuf⟩]
    by_cases hwaiting : r.waiting = true
    · rw [if_pos hwaiting]
      exact ⟨.refl r, by rw [hwaiting, decide_eq_true hbuf]⟩
    rw [if_neg hwaiting]
    obtain ⟨i, c, hc⟩ := h.exists_frame hbuf
    have hne : c.seq ≠ r.next := by
      have := h.beyond hhead hc
      omega
    have hquiet : Quiet r r.oldestBufferedObservation.1 :=
      (oldestLoop_spec _ r h rfl).1
    have hsome : r.oldestBufferedObservation.2.isSome :=
      (oldestLoop_spec _ r h rfl).2 i c hc (h.listed.listed i c hc hne)
    generalize r.oldestBufferedObservation = found at hquiet hsome ⊢
    obtain ⟨s, observedAt⟩ := found
    cases observedAt with
    | none => cases hsome
    | some =>
      refine ⟨hquiet.trans ⟨rfl, rfl, rfl, rfl, rfl, rfl, rfl, rfl, rfl,
        rfl, fun hl => ⟨hl.1, hl.2⟩⟩, ?_⟩
      rw [decide_eq_true hbuf]
  · rw [if_neg fun hboth => hbuf hboth.2, decide_eq_false hbuf]
    exact ⟨quiet_endHold r now, waiting_endHold r now⟩

/-! ## The release point -/

theorem moves_drainLoop (fuel : ℕ) (r : Resequencer α) :
    Moves bound pins r (drainLoop fuel r) := by
  induction fuel generalizing r with
  | zero => exact .refl
  | succ _ ih =>
    cases hc : r.frame r.next with
    | none =>
      simp only [drainLoop, hc]
      exact .refl
    | some c =>
      simp only [drainLoop, hc]
      exact .head (.step c hc) (ih _)

theorem moves_drain (r : Resequencer α) : Moves bound pins r r.drain :=
  moves_drainLoop _ r

theorem filed_drain (h : Filed r) : Filed r.drain := by
  have hmoves : Moves 0 (fun _ _ => False) r r.drain := moves_drain r
  exact Moves.filed hmoves h

theorem head_drainLoop (fuel : ℕ) (r : Resequencer α) (h : Filed r)
    (hfuel : r.buf ≤ fuel) :
    (drainLoop fuel r).frame (drainLoop fuel r).next = none := by
  induction fuel generalizing r with
  | zero => exact h.frame_eq_none (by omega) _
  | succ fuel ih =>
    cases hc : r.frame r.next with
    | none =>
      simp only [drainLoop, hc]
    | some c =>
      simp only [drainLoop, hc]
      refine ih _ (h.step hc) ?_
      change r.buf - 1 ≤ fuel
      omega

theorem head_drain (h : Filed r) : r.drain.frame r.drain.next = none :=
  head_drainLoop _ r h le_rfl

theorem buf_drainLoop_le (fuel : ℕ) (r : Resequencer α) :
    (drainLoop fuel r).buf ≤ r.buf := by
  induction fuel generalizing r with
  | zero => exact le_rfl
  | succ _ ih =>
    cases hc : r.frame r.next with
    | none =>
      simp only [drainLoop, hc]
      exact le_rfl
    | some c =>
      simp only [drainLoop, hc]
      exact (ih _).trans (Nat.sub_le _ _)

theorem buf_drain_lt (h : Filed r) {c : Slot α} (hc : r.frame r.next = some c) :
    r.drain.buf < r.buf := by
  have hpos := h.buf_pos (frame_eq_some hc).1
  obtain ⟨fuel, hfuel⟩ : ∃ fuel, r.buf = fuel + 1 := ⟨r.buf - 1, by omega⟩
  have hle := buf_drainLoop_le fuel (r.step c)
  change _ ≤ r.buf - 1 at hle
  unfold drain
  rw [hfuel]
  simp only [drainLoop, hc]
  change (drainLoop fuel (r.step c)).buf < fuel + 1
  omega

theorem walk_spec (n : ℕ) (r : Resequencer α) (h : Filed r)
    (hstarted : r.started = true) (hle : r.next + n ≤ bound + 1) :
    Moves bound pins r (walk n r) ∧ (walk n r).next = r.next + n ∧
      ∀ i c, (walk n r).ring i = some c → r.ring i = some c := by
  induction n generalizing r with
  | zero => exact ⟨.refl, rfl, fun _ _ hc => hc⟩
  | succ n ih =>
    cases hc : r.frame r.next with
    | none =>
      simp only [walk, hc]
      have hmove : Move bound pins r (r.skipTo (r.next + 1)) :=
        .skip _ hstarted (Nat.lt_succ_self _) (fun i c => h.beyond hc)
          (by omega)
      obtain ⟨hmoves, hnext, hring⟩ := ih _ (hmove.filed h) hstarted
        (show r.next + 1 + n ≤ bound + 1 by omega)
      refine ⟨.head hmove hmoves, ?_, hring⟩
      rw [hnext]
      change r.next + 1 + n = r.next + (n + 1)
      omega
    | some c =>
      simp only [walk, hc]
      have hmove : Move bound pins r (r.step c) := .step c hc
      obtain ⟨hmoves, hnext, hring⟩ := ih _ (hmove.filed h) hstarted
        (show r.next + 1 + n ≤ bound + 1 by omega)
      refine ⟨.head hmove hmoves, ?_, fun i d hd => ?_⟩
      · refine hnext.trans ?_
        change r.next + 1 + n = r.next + (n + 1)
        omega
      have hkept : Function.update r.ring (c.seq % r.window) none i =
          some d := hring i d hd
      by_cases hi : i = c.seq % r.window
      · rw [hi, Function.update_self] at hkept
        cases hkept
      · rwa [Function.update_of_ne hi] at hkept

/-- After a walk over the whole window no frame is left, so the rest of the gap
holds none. -/
theorem advanceTo_spec (h : Filed r) (hstarted : r.started = true) {target : ℕ}
    (hlt : r.next < target) (hle : target ≤ bound + 1) :
    Moves bound pins r (r.advanceTo target) ∧ (r.advanceTo target).next = target ∧
      ∀ i c, (r.advanceTo target).ring i = some c → r.ring i = some c := by
  unfold advanceTo
  set limit := if target > r.next + r.window then r.next + r.window else target
    with hlimit
  have hcases : limit = target ∨
      limit = r.next + r.window ∧ r.next + r.window < target := by
    rw [hlimit]
    split <;> omega
  obtain ⟨hmoves, hnext, hring⟩ : Moves bound pins r _ ∧ _ :=
    walk_spec (limit - r.next) r h hstarted (by omega)
  have hwindow := r.window_pos
  have hat : (walk (limit - r.next) r).next = limit := by omega
  dsimp only
  split
  next hmore =>
    refine ⟨.tail hmoves (.skip target (Moves.started hmoves hstarted) hmore
      (fun i c hc => ?_) hle), rfl, hring⟩
    have hold := (h.placed i c (hring i c hc)).2.2
    have hnew := ((Moves.filed hmoves h).placed i c hc).2.1
    omega
  next hdone =>
    exact ⟨hmoves, by omega, hring⟩

/-- What the scan of the ring holds after the cells of `l`. -/
theorem smallestBuffered_fold (r : Resequencer α) (l : List ℕ) :
    let best := l.foldl (fun best i =>
      match r.ring i with
      | none => best
      | some c =>
        if c.seq ≥ r.next ∧ best.all (fun b => decide (c.seq < b)) then
          some c.seq
        else best) none
    (∀ m, best = some m → ∃ i c, r.ring i = some c ∧ c.seq = m) ∧
      ∀ i ∈ l, ∀ c, r.ring i = some c → r.next ≤ c.seq →
        ∃ m, best = some m ∧ m ≤ c.seq := by
  induction l using List.reverseRecOn with
  | nil => exact ⟨nofun, nofun⟩
  | append_singleton l j ih =>
    obtain ⟨hfound, hleast⟩ := ih
    rw [List.foldl_concat]
    generalize l.foldl _ none = best at hfound hleast ⊢
    cases hj : r.ring j with
    | none =>
      refine ⟨hfound, fun i hi c hc hle => ?_⟩
      rcases List.mem_append.mp hi with hi | hi
      · exact hleast i hi c hc hle
      · rw [List.mem_singleton.mp hi, hj] at hc
        cases hc
    | some d =>
      dsimp only
      split
      next hbetter =>
        refine ⟨fun m hm => ⟨j, d, hj, Option.some.inj hm⟩,
          fun i hi c hc hle => ⟨d.seq, rfl, ?_⟩⟩
        rcases List.mem_append.mp hi with hi | hi
        · obtain ⟨m, rfl, hm⟩ := hleast i hi c hc hle
          have := of_decide_eq_true hbetter.2
          omega
        · rw [List.mem_singleton.mp hi, hj] at hc
          rw [Option.some.inj hc]
      next hworse =>
        refine ⟨hfound, fun i hi c hc hle => ?_⟩
        rcases List.mem_append.mp hi with hi | hi
        · exact hleast i hi c hc hle
        rw [List.mem_singleton.mp hi, hj] at hc
        obtain rfl := Option.some.inj hc
        cases hbest : best with
        | none =>
          rw [hbest] at hworse
          exact (hworse ⟨hle, rfl⟩).elim
        | some m =>
          refine ⟨m, rfl, ?_⟩
          by_contra hlt
          rw [hbest] at hworse
          exact hworse ⟨hle, decide_eq_true (not_le.mp hlt)⟩

/-- The scan finds the least sequence buffered. -/
theorem smallestBuffered_spec (h : Filed r) (hbuf : 0 < r.buf) :
    ∃ m, r.smallestBuffered = some m ∧ r.next ≤ m ∧ (r.frame m).isSome ∧
      ∀ i c, r.ring i = some c → m ≤ c.seq := by
  obtain ⟨hfound, hleast⟩ := smallestBuffered_fold r (List.range r.window)
  have hmin : ∀ i c, r.ring i = some c →
      ∃ m, r.smallestBuffered = some m ∧ m ≤ c.seq := fun i c hc =>
    hleast i (List.mem_range.mpr (h.lt hc)) c hc (h.placed i c hc).2.1
  obtain ⟨i, c, hc⟩ := h.exists_frame hbuf
  obtain ⟨m, hm, -⟩ := hmin i c hc
  obtain ⟨j, d, hd, rfl⟩ := hfound m hm
  refine ⟨d.seq, hm, (h.placed j d hd).2.1, ?_, fun i c hc => ?_⟩
  · rw [h.frame_of_ring hd]
    rfl
  · obtain ⟨m, hm', hle⟩ := hmin i c hc
    rw [hm] at hm'
    rwa [Option.some.inj hm']

/-! ## Between calls -/

/-- The state between calls. -/
structure Ok (r : Resequencer α) : Prop where
  filed : Filed r
  head : r.frame r.next = none
  armed : r.waiting = decide (0 < r.buf)

theorem Ok.quiet (h : Ok r) (hquiet : Quiet r r')
    (hwaiting : r'.waiting = r.waiting) : Ok r' where
  filed := h.filed.quiet hquiet
  head := by rw [hquiet.frame, hquiet.next, h.head]
  armed := by rw [hwaiting, hquiet.buf, h.armed]

theorem Filed.ok (h : Filed r) (hbuf : r.buf = 0) (hwaiting : r.waiting = false) :
    Ok r where
  filed := h
  head := h.frame_eq_none hbuf _
  armed := by rw [hwaiting, hbuf]; rfl

theorem ok_drain_arm (h : Filed r) (now : Time) : Ok (r.drain.arm now) := by
  have hfiled := filed_drain h
  obtain ⟨hquiet, hwaiting⟩ := arm_spec hfiled (head_drain h) now
  refine ⟨hfiled.quiet hquiet, ?_, by rw [hwaiting, hquiet.buf]⟩
  rw [hquiet.frame, hquiet.next, head_drain h]

/-- One turn of `expire` releases a frame. -/
theorem expireTurn_spec (h : Filed r) (hstarted : r.started = true) {m : ℕ}
    (hnext : r.next ≤ m) (hframe : (r.frame m).isSome)
    (hleast : ∀ i c, r.ring i = some c → m ≤ c.seq) (hupto : Upto bound r)
    (now : Time) :
    let s := ((if r.next < m then r.skipTo m else r).drain.endHold now).arm now
    Moves bound pins r s ∧ Ok s ∧ s.buf < r.buf := by
  intro s
  obtain ⟨c, hc⟩ := Option.isSome_iff_exists.mp hframe
  have hm := hupto.seq_le _ c (frame_eq_some hc).1
  rw [(frame_eq_some hc).2] at hm
  obtain ⟨skip, hskip, hmoves, hat, hbuf⟩ : ∃ skip,
      (if r.next < m then r.skipTo m else r) = skip ∧ Moves bound pins r skip ∧
        skip.frame skip.next = some c ∧ skip.buf = r.buf := by
    refine ⟨_, rfl, ?_⟩
    split
    next hlt => exact ⟨.single (.skip m hstarted hlt hleast (by omega)), hc, rfl⟩
    next hge =>
      rw [show r.next = m by omega]
      exact ⟨.refl, hc, rfl⟩
  have hfiled := Moves.filed hmoves h
  have hdrained := filed_drain hfiled
  have hend := quiet_endHold skip.drain now
  have hhead : (skip.drain.endHold now).frame (skip.drain.endHold now).next =
      none := by
    rw [hend.frame, hend.next, head_drain hfiled]
  obtain ⟨hquiet, hwaiting⟩ := arm_spec (hdrained.quiet hend) hhead now
  have hs : s = (skip.drain.endHold now).arm now := by rw [← hskip]
  rw [hs]
  refine ⟨?_, ⟨(hdrained.quiet hend).quiet hquiet, ?_, ?_⟩, ?_⟩
  · exact ((hmoves.trans (moves_drain skip)).tail (.quiet hend)).tail
      (.quiet hquiet)
  · rw [hquiet.frame, hquiet.next, hhead]
  · rw [hwaiting, hquiet.buf]
  · rw [hquiet.buf, hend.buf, ← hbuf]
    exact buf_drain_lt hfiled hat

theorem Ok.started (h : Ok r) (hwaiting : r.waiting = true) :
    r.started = true := by
  by_contra hnew
  have hbuf := (h.filed.fresh (Bool.eq_false_iff.mpr hnew)).1
  rw [h.armed, hbuf] at hwaiting
  cases hwaiting

/-- The wakeup of a hold past its deadline. -/
def woken (r : Resequencer α) : Resequencer α :=
  { r with deadlineWakeups := r.deadlineWakeups + 1 }

theorem quiet_woken (r : Resequencer α) : Quiet r r.woken :=
  ⟨rfl, rfl, rfl, rfl, rfl, rfl, rfl, rfl, rfl, rfl, fun h => ⟨h.1, h.2⟩⟩

theorem expireLoop_turn {now : Time} {m : ℕ} (hwaiting : r.waiting = true)
    (hdue : ¬now < r.deadline) (hm : r.woken.smallestBuffered = some m)
    (fuel : ℕ) :
    expireLoop now (fuel + 1) r = expireLoop now fuel
      (((if r.woken.next < m then r.woken.skipTo m else r.woken).drain.endHold
        now).arm now) := by
  rw [expireLoop, if_pos hwaiting, if_neg hdue]
  have hleast : ({ r with deadlineWakeups := r.deadlineWakeups + 1 } :
      Resequencer α).smallestBuffered = some m := hm
  dsimp only
  rw [hleast]
  rfl

/-- The frames buffered bound the turns: at the end no hold is past its
deadline. -/
theorem expireLoop_spec (now : Time) (fuel : ℕ) (r : Resequencer α) (h : Ok r)
    (hupto : Upto bound r) (hfuel : r.buf ≤ fuel) :
    Moves bound pins r (expireLoop now fuel r) ∧ Ok (expireLoop now fuel r) ∧
      ((expireLoop now fuel r).waiting = true →
        now < (expireLoop now fuel r).deadline) := by
  induction fuel generalizing r with
  | zero =>
    refine ⟨.refl, h, fun hwaiting => ?_⟩
    change r.waiting = true at hwaiting
    rw [h.armed, decide_eq_true_eq] at hwaiting
    omega
  | succ fuel ih =>
    by_cases hwaiting : r.waiting = true
    swap
    · rw [expireLoop, if_neg hwaiting]
      exact ⟨.refl, h, fun hw => (hwaiting hw).elim⟩
    by_cases hdue : now < r.deadline
    · rw [expireLoop, if_pos hwaiting, if_pos hdue]
      exact ⟨.refl, h, fun _ => hdue⟩
    have hok : Ok r.woken := h.quiet (quiet_woken r) rfl
    have hbuf : 0 < r.woken.buf := by
      have harmed := h.armed
      rw [hwaiting] at harmed
      exact of_decide_eq_true harmed.symm
    obtain ⟨m, hm, hnext, hframe, hleast⟩ :=
      smallestBuffered_spec hok.filed hbuf
    have hwake : Move bound pins r r.woken := .quiet (quiet_woken r)
    have hwoken := hwake.upto hupto
    obtain ⟨hmoves, hturn, hless⟩ := expireTurn_spec hok.filed
      (h.started hwaiting) hnext hframe hleast hwoken now
    rw [expireLoop_turn hwaiting hdue hm]
    have hleft : r.woken.buf = r.buf := rfl
    obtain ⟨hrest, hend⟩ := ih _ hturn (Moves.upto hmoves hwoken) (by omega)
    exact ⟨.head hwake (hmoves.trans hrest), hend⟩

theorem moves_expire (h : Ok r) (hupto : Upto bound r) (now : Time) :
    Moves bound pins r (r.expire now) :=
  (expireLoop_spec now r.buf r h hupto le_rfl).1

/-- The moves of any function, with nothing said of bounds and pins. -/
abbrev Goes (r r' : Resequencer α) : Prop :=
  ∃ bound, Moves bound (fun _ _ => True) r r'

theorem expire_spec (h : Ok r) (now : Time) :
    Goes r (r.expire now) ∧ Ok (r.expire now) ∧
      ((r.expire now).waiting = true → now < (r.expire now).deadline) := by
  obtain ⟨hmoves, hrest⟩ :=
    expireLoop_spec now r.buf r h (h.filed.upto 0) le_rfl
  exact ⟨⟨_, hmoves⟩, hrest⟩

theorem ok_expire (h : Ok r) (now : Time) : Ok (r.expire now) :=
  (expire_spec h now).2.1

end Resequencer

end Wanbond.Reseq
