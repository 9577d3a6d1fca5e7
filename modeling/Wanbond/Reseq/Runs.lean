import Wanbond.Reseq.Structure

/-!
# Runs of the resequencer

What each call does to the release point and the ring, and what holds after any
sequence of calls: the structure of the ring, the order of the releases, and
the account of every frame taken in and of every sequence passed.
-/

namespace Wanbond.Reseq

open Wanbond.Bond (Time Duration Bytes)
open Wanbond.Support

variable {α : Type}

namespace Resequencer

variable {r r' : Resequencer α} {bound : ℕ} {pins : ℕ → ℕ → Prop}

/-! ## Admission -/

theorem repin_spec (r : Resequencer α) (hstarted : r.started = true) {base : ℕ}
    (hpins : pins r.next base) (hle : base ≤ bound + 1) (now : Time) :
    Moves bound pins r (r.repin base now) ∧ (r.repin base now).next = base ∧
      (r.repin base now).buf = 0 ∧ (r.repin base now).waiting = false := by
  have hpin : Move bound pins r (r.pinTo base) := by
    have h : Move bound pins r { r.pinTo base with started := true } :=
      .repin base hpins hle
    have heq : ({ r.pinTo base with started := true } : Resequencer α) =
        r.pinTo base := by
      rw [← hstarted]
      rfl
    rwa [heq] at h
  have hend := quiet_endHold (r.pinTo base) now
  have hreset := quiet_resyncReset ((r.pinTo base).endHold now)
  have hall := hend.trans hreset
  exact ⟨.tail (.single hpin) (.quiet hall), hall.next, hall.buf,
    waiting_endHold (r.pinTo base) now⟩

variable {seq : ℕ}

/-- The guard changes nothing that concerns frames, or pins the release point at
the sequence. -/
theorem tryResync_spec (h : Ok r) (hstarted : r.started = true)
    (hpins : pins r.next seq) (hle : seq ≤ bound) (now : Time) :
    ((r.tryResync seq now).2 = false ∧ Quiet r (r.tryResync seq now).1 ∧
      (r.tryResync seq now).1.waiting = r.waiting) ∨
    ((r.tryResync seq now).2 = true ∧
      Moves bound pins r (r.tryResync seq now).1 ∧
      (r.tryResync seq now).1.next = seq ∧ Ok (r.tryResync seq now).1) := by
  unfold tryResync
  split
  · exact .inl ⟨rfl, ⟨rfl, rfl, rfl, rfl, rfl, rfl, rfl, rfl, rfl, rfl,
      fun h => ⟨h.1, h.2⟩⟩, rfl⟩
  split
  · exact .inl ⟨rfl, .refl r, rfl⟩
  let counted : Resequencer α := { r with
    resyncLo := min r.resyncLo seq
    resyncHi := max r.resyncHi seq
    resyncSeqs := r.resyncSeqs ++ [seq] }
  have hcounted : Quiet r counted :=
    ⟨rfl, rfl, rfl, rfl, rfl, rfl, rfl, rfl, rfl, rfl, fun h => ⟨h.1, h.2⟩⟩
  by_cases hfew : counted.resyncSeqs.length < resyncCorroborate
  · refine .inl ?_
    rw [if_pos hfew]
    exact ⟨rfl, hcounted, rfl⟩
  refine .inr ?_
  rw [if_neg hfew]
  obtain ⟨hmoves, hnext, hbuf, hwaiting⟩ :
      Moves bound pins counted _ ∧ _ :=
    repin_spec counted hstarted hpins (hle.trans (Nat.le_succ _)) now
  have hresync : Quiet (counted.repin seq now) (counted.resync seq now) :=
    ⟨rfl, rfl, rfl, rfl, rfl, rfl, rfl, rfl, rfl, rfl, fun h => ⟨h.1, h.2⟩⟩
  have hall : Moves bound pins r _ :=
    (hcounted.moves.trans hmoves).trans hresync.moves
  exact ⟨rfl, hall, hnext,
    (Moves.filed hall h.filed).ok hbuf hwaiting⟩

/-- The frame has a place in the window, and a place in which a frame waits
already only if the window has not moved. -/
structure Fits (r : Resequencer α) (seq : ℕ) : Prop where
  started : r.started = true
  filed : Filed r
  le : r.next ≤ seq
  lt : seq < r.next + r.window
  free : Ok r ∨ r.frame seq = none

theorem admitSuspect_spec (h : Ok r) (hstarted : r.started = true)
    (hpins : pins r.next seq) (hle : seq ≤ bound) (now : Time) :
    Moves bound pins r (r.admitSuspect seq now).1 ∧
      if (r.admitSuspect seq now).2 then Fits (r.admitSuspect seq now).1 seq
      else Ok (r.admitSuspect seq now).1 := by
  unfold admitSuspect
  have hspec := tryResync_spec h hstarted hpins hle now
  generalize r.tryResync seq now = found at hspec ⊢
  obtain ⟨s, resynced⟩ := found
  rcases hspec with ⟨rfl, hquiet, hwaiting⟩ | ⟨rfl, hmoves, hnext, hok⟩
  · have hdrop : Quiet s { s with dropSuspect := s.dropSuspect + 1 } :=
      ⟨rfl, rfl, rfl, rfl, rfl, rfl, rfl, rfl, rfl, rfl, fun h => ⟨h.1, h.2⟩⟩
    exact ⟨(hquiet.trans hdrop).moves,
      (h.quiet hquiet hwaiting).quiet hdrop rfl⟩
  have hpos := s.window_pos
  change s.next = seq at hnext
  exact ⟨hmoves, Moves.started hmoves hstarted, hok.filed, hnext.le,
    show seq < s.next + s.window by omega, .inl hok⟩

/-- A frame within a window below the release point is not suspect, and one
above it can only move it up. -/
theorem admitSeq_spec (h : Ok r) (hstarted : r.started = true)
    (hpins : pins r.next seq ∨ seq < r.next ∧ r.next - seq ≤ r.window)
    (hle : seq ≤ bound) (now : Time) :
    Moves bound pins r (r.admitSeq seq now).1 ∧
      if (r.admitSeq seq now).2 then Fits (r.admitSeq seq now).1 seq
      else Ok (r.admitSeq seq now).1 := by
  have hreset := quiet_resyncReset r
  have hok : Ok r.resyncReset := h.quiet hreset rfl
  unfold admitSeq
  split
  next hlt =>
    split
    next hfar =>
      refine admitSuspect_spec h hstarted (hpins.resolve_right ?_) hle now
      omega
    next hnear =>
      have hdrop : Quiet r.resyncReset
          { r.resyncReset with dropLate := r.resyncReset.dropLate + 1 } :=
        ⟨rfl, rfl, rfl, rfl, rfl, rfl, rfl, rfl, rfl, rfl, fun h => ⟨h.1, h.2⟩⟩
      exact ⟨(hreset.trans hdrop).moves, hok.quiet hdrop rfl⟩
  next hge =>
    split
    · refine admitSuspect_spec h hstarted (hpins.resolve_right ?_) hle now
      omega
    dsimp only
    split
    next hfar =>
      -- the window moves up until the frame has its topmost place
      change r.window ≤ seq - r.next at hfar
      have hend := quiet_endHold r.resyncReset now
      have hquiet := hreset.trans hend
      have hfiled := h.filed.quiet hquiet
      have hwindow : (r.resyncReset.endHold now).window = r.window :=
        hquiet.window
      have hnext : (r.resyncReset.endHold now).next = r.next := hquiet.next
      have hpos := r.window_pos
      obtain ⟨hmoves, hat, hring⟩ : Moves bound pins _ _ ∧ _ :=
        advanceTo_spec hfiled (hquiet.started.trans hstarted)
          (show (r.resyncReset.endHold now).next < seq - r.window + 1 by omega)
          (by omega)
      have hall : Moves bound pins r _ := hquiet.moves.trans hmoves
      have htop := Moves.window hall
      refine ⟨hall, Moves.started hall hstarted, Moves.filed hall h.filed, ?_,
        ?_, .inr ?_⟩
      · rw [show r.resyncReset.window = r.window from rfl, hat]
        omega
      · rw [show r.resyncReset.window = r.window from rfl, htop, hat]
        omega
      rw [show r.resyncReset.window = r.window from rfl]
      cases hframe : ((r.resyncReset.endHold now).advanceTo
          (seq - r.window + 1)).frame seq with
      | none => rfl
      | some c =>
        obtain ⟨hc, hseq⟩ := frame_eq_some hframe
        have hold := (hfiled.placed _ c (hring _ c hc)).2.2
        omega
    next hnear =>
      change ¬r.window ≤ seq - r.next at hnear
      refine ⟨hreset.moves, hstarted, hok.filed, ?_, ?_, .inl hok⟩
      · change r.next ≤ seq
        omega
      · change seq < r.next + r.window
        omega

/-! ## Calls -/

theorem start_spec (h : Ok r) (hle : seq ≤ bound) :
    Moves bound pins r (r.start seq) ∧ Ok (r.start seq) ∧
      (r.start seq).started = true := by
  by_cases hstarted : r.started = true
  · rw [start, if_pos hstarted]
    exact ⟨.refl, h, hstarted⟩
  have hnew : r.started = false := Bool.eq_false_iff.mpr hstarted
  have hbuf := (h.filed.fresh hnew).1
  refine ⟨.single (.start seq hnew (by omega)), (h.filed.start hnew seq).ok ?_ ?_, ?_⟩
  · rwa [start_of_new hnew]
  · rw [start_of_new hnew]
    exact h.armed.trans (by rw [hbuf]; rfl)
  · rw [start_of_new hnew]

theorem quiet_fillGap (r : Resequencer α) (now : Time) :
    Quiet r (r.fillGap now) := by
  have hcounted : Quiet r { r with gapFills := r.gapFills + 1 } :=
    ⟨rfl, rfl, rfl, rfl, rfl, rfl, rfl, rfl, rfl, rfl, fun h => ⟨h.1, h.2⟩⟩
  exact hcounted.trans (quiet_endHold _ now)

/-- A frame that fits is placed, unless it is there already. -/
theorem enter_spec {c : Slot α} (h : Fits r c.seq) (now : Time) :
    Ok (r.enter c now).1 ∧
      if (r.enter c now).2 then
        r.frame c.seq = none ∧ Moves bound pins (r.place c) (r.enter c now).1
      else Moves bound pins r (r.enter c now).1 := by
  unfold enter
  cases hframe : r.frame c.seq with
  | some d =>
    -- the frame is there already, so the window has not moved
    have hdup : Quiet r { r with dropDup := r.dropDup + 1 } :=
      ⟨rfl, rfl, rfl, rfl, rfl, rfl, rfl, rfl, rfl, rfl, fun h => ⟨h.1, h.2⟩⟩
    rcases h.free with hok | hnone
    · exact ⟨hok.quiet hdup rfl, hdup.moves⟩
    · rw [hframe] at hnone
      cases hnone
  | none =>
    have hplaced := h.filed.place h.started hframe h.le h.lt
    have hfill : Quiet (r.place c)
        (if (r.waiting && decide (c.seq = r.next)) = true then
          (r.place c).fillGap now else r.place c) := by
      split
      · exact quiet_fillGap _ now
      · exact .refl _
    have hfilled := hplaced.quiet hfill
    have harm := (arm_spec (filed_drain hfilled) (head_drain hfilled) now).1
    exact ⟨ok_drain_arm hfilled now, rfl,
      (hfill.moves.trans (moves_drain _)).tail (.quiet harm)⟩

/-- A call to `Observe` moves the release point, and if it takes the frame in,
places it and moves the release point again. -/
theorem observe_spec (h : Ok r) (hupto : Upto bound r) (hle : seq ≤ bound)
    (hpins : ∀ next, next ≤ bound + 1 →
      pins next seq ∨ seq < next ∧ next - seq ≤ r.window) (payload : Bytes)
    (src : α) (now : Time) :
    Ok (r.observe seq payload src now).1 ∧
      if (r.observe seq payload src now).2 then
        ∃ m, Moves bound pins r m ∧ Fits m seq ∧ m.frame seq = none ∧
          Moves bound pins (m.place ⟨seq, src, payload, now⟩)
            (r.observe seq payload src now).1
      else Moves bound pins r (r.observe seq payload src now).1 := by
  obtain ⟨hstart, hok, hstarted⟩ : Moves bound pins r _ ∧ _ := start_spec h hle
  have hexpire : Moves bound pins (r.start seq) ((r.start seq).expire now) :=
    moves_expire hok (Moves.upto hstart hupto) now
  have hbefore := hstart.trans hexpire
  have hpins' := hpins _ (Moves.upto hbefore hupto).next_le
  rw [← Moves.window hbefore] at hpins'
  obtain ⟨hmoves, hfits⟩ := admitSeq_spec (ok_expire hok now)
    (Moves.started hexpire hstarted) hpins' hle now
  have hall := hbefore.trans hmoves
  cases hadmitted : (((r.start seq).expire now).admitSeq seq now).2 with
  | false =>
    have hobserve : r.observe seq payload src now =
        ((((r.start seq).expire now).admitSeq seq now).1, false) := by
      simp [observe, hadmitted]
    rw [hadmitted] at hfits
    rw [hobserve]
    exact ⟨hfits, hall⟩
  | true =>
    have hobserve : r.observe seq payload src now =
        (((r.start seq).expire now).admitSeq seq now).1.enter
          ⟨seq, src, payload, now⟩ now := by
      simp [observe, hadmitted]
    rw [hadmitted] at hfits
    rw [hobserve]
    have hfits : Fits (((r.start seq).expire now).admitSeq seq now).1 seq :=
      hfits
    generalize (((r.start seq).expire now).admitSeq seq now).1 = m
      at hfits hall ⊢
    obtain ⟨hend, henter⟩ :=
      @enter_spec _ m bound pins ⟨seq, src, payload, now⟩ hfits now
    refine ⟨hend, ?_⟩
    split at henter
    next htaken =>
      rw [if_pos htaken]
      exact ⟨m, hall, hfits, henter.1, henter.2⟩
    next hleft =>
      rw [if_neg hleft]
      exact hall.trans henter

theorem quiet_setHoldBound (r : Resequencer α) (d : Duration) :
    Quiet r (r.setHoldBound d) :=
  ⟨rfl, rfl, rfl, rfl, rfl, rfl, rfl, rfl, rfl, rfl, fun h => ⟨h.1, h.2⟩⟩

/-- A trusted restart pins the release point, also of a resequencer that has
seen no frame. -/
theorem rebaselineAt_spec (r : Resequencer α) {next : ℕ} (hnext : next ≠ 0)
    (now : Time) :
    Goes r (r.rebaselineAt next now) ∧ Ok (r.rebaselineAt next now) ∧
      (r.rebaselineAt next now).next = next ∧
      (r.rebaselineAt next now).buf = 0 ∧
      (r.rebaselineAt next now).trail = .pin next r.buf :: r.trail := by
  rw [rebaselineAt, if_neg hnext]
  let pinned : Resequencer α := { r.pinTo next with started := true }
  have hlast : Quiet pinned { r.repin next now with
      started := true, rebaselines := (r.repin next now).rebaselines + 1 } := by
    have hstays := quiet_endHold (r.pinTo next) now
    refine ⟨hstays.window, rfl, hstays.next, hstays.ring, hstays.buf,
      hstays.ready, hstays.releasedN, hstays.skipped, hstays.trail,
      hstays.panicked, fun h => ?_⟩
    have hlisted := hstays.listed ⟨h.1, h.2⟩
    exact ⟨hlisted.1, hlisted.2⟩
  refine ⟨⟨next, .tail (.single (.repin next trivial (Nat.le_succ _)))
    (.quiet hlast)⟩, ?_, hlast.next, hlast.buf, hlast.trail⟩
  exact ((Filed.pin r next).quiet hlast).ok hlast.buf
    (waiting_endHold (r.pinTo next) now)

/-- Any call to `Observe`. -/
theorem observe_goes (h : Ok r) (seq : ℕ) (payload : Bytes) (src : α)
    (now : Time) :
    Ok (r.observe seq payload src now).1 ∧
      if (r.observe seq payload src now).2 then
        ∃ m, Goes r m ∧ Fits m seq ∧ m.frame seq = none ∧
          Goes (m.place ⟨seq, src, payload, now⟩)
            (r.observe seq payload src now).1
      else Goes r (r.observe seq payload src now).1 := by
  obtain ⟨hok, hcase⟩ := @observe_spec α r _ (fun _ _ => True) seq h
    (h.filed.upto seq) (Nat.le_add_left seq _) (fun _ _ => .inl trivial)
    payload src now
  refine ⟨hok, ?_⟩
  split at hcase
  next htaken =>
    rw [if_pos htaken]
    obtain ⟨m, hmoves, hfits, hfree, hrest⟩ := hcase
    exact ⟨m, ⟨_, hmoves⟩, hfits, hfree, ⟨_, hrest⟩⟩
  next hleft =>
    rw [if_neg hleft]
    exact ⟨_, hcase⟩

/-- How many frames a call takes in. -/
def accepts (r : Resequencer α) : Call α → ℕ
  | .observe seq payload src now =>
    if (r.observe seq payload src now).2 then 1 else 0
  | .pop _ => 0
  | .setHoldBound _ => 0
  | .rebaselineAt _ _ => 0

/-- How many frames the calls take in. -/
def accepted : Resequencer α → List (Call α) → ℕ
  | _, [] => 0
  | r, call :: calls => r.accepts call + accepted (r.apply call) calls

/-- The state after a run: in order, with its account. -/
structure Sound (r : Resequencer α) : Prop where
  ok : Ok r
  told : Told r

theorem Sound.of_moves (h : Sound r) (hmoves : Goes r r') (hok : Ok r') :
    Sound r' ∧ r'.taken = r.taken := by
  obtain ⟨bound, hmoves⟩ := hmoves
  exact ⟨⟨hok, Moves.told hmoves h.told⟩, Moves.taken hmoves h.ok.filed⟩

theorem Ok.of_eq (h : Ok r) (ready : List (Item α)) (panicked : Bool) :
    Ok { r with ready := ready, panicked := panicked } :=
  ⟨⟨h.filed.placed, h.filed.count,
    ⟨h.filed.listed.cursor, h.filed.listed.listed⟩, h.filed.fresh⟩,
    h.head, h.armed⟩

theorem Sound.of_eq (h : Sound r) (ready : List (Item α)) (panicked : Bool) :
    Sound { r with ready := ready, panicked := panicked } :=
  ⟨h.ok.of_eq ready panicked, ⟨h.told.base_le, h.told.once, h.told.increasing,
    h.told.releasedN, h.told.skipped⟩⟩

theorem sound_apply (h : Sound r) (call : Call α) :
    Sound (r.apply call) ∧ (r.apply call).taken = r.taken + r.accepts call := by
  cases call with
  | observe seq payload src now =>
    obtain ⟨hok, hcase⟩ := observe_goes h.ok seq payload src now
    simp only [apply, accepts]
    split at hcase
    next htaken =>
      obtain ⟨m, ⟨_, hmoves⟩, hfits, hfree, ⟨_, hrest⟩⟩ := hcase
      have hplaced : Filed (m.place ⟨seq, src, payload, now⟩) :=
        hfits.filed.place hfits.started hfree hfits.le hfits.lt
      have hm := Moves.taken hmoves h.ok.filed
      have hend := Moves.taken hrest hplaced
      rw [taken_place] at hend
      refine ⟨⟨hok, Moves.told hrest ((Moves.told hmoves h.told).place _)⟩, ?_⟩
      rw [if_pos htaken, hend, hm]
    next hleft =>
      rw [if_neg hleft]
      exact h.of_moves hcase hok
  | pop now =>
    obtain ⟨hsound, htaken⟩ :=
      h.of_moves (expire_spec h.ok now).1 (ok_expire h.ok now)
    simp only [apply, accepts, pop, Nat.add_zero]
    split
    · exact ⟨hsound, htaken⟩
    next item rest _ =>
      exact ⟨hsound.of_eq rest _, htaken⟩
  | setHoldBound d =>
    have hquiet := quiet_setHoldBound r d
    exact h.of_moves ⟨0, hquiet.moves⟩ (h.ok.quiet hquiet rfl)
  | rebaselineAt next now =>
    by_cases hnext : next = 0
    · simp only [apply, rebaselineAt, if_pos hnext]
      exact ⟨h.of_eq _ true, rfl⟩
    · obtain ⟨hmoves, hok, -⟩ := rebaselineAt_spec r hnext now
      exact h.of_moves hmoves hok

theorem sound_foldl (calls : List (Call α)) (r : Resequencer α) (h : Sound r) :
    Sound (calls.foldl apply r) ∧
      (calls.foldl apply r).taken = r.taken + accepted r calls := by
  induction calls generalizing r with
  | nil => exact ⟨h, rfl⟩
  | cons call calls ih =>
    obtain ⟨hone, htaken⟩ := sound_apply h call
    obtain ⟨hrest, hall⟩ := ih _ hone
    refine ⟨hrest, hall.trans ?_⟩
    simp only [accepted]
    omega

theorem sound_new (window : ℕ) (window_pos : 0 < window) (timeout : Duration) :
    Sound (new window window_pos timeout : Resequencer α) :=
  ⟨(Filed.new window window_pos timeout).ok rfl rfl,
    Told.new window window_pos timeout⟩

variable (window : ℕ) (window_pos : 0 < window) (timeout : Duration)
  (calls : List (Call α))

theorem sound_run : Sound (run window window_pos timeout calls) :=
  (sound_foldl calls _ (sound_new window window_pos timeout)).1

theorem window_apply (r : Resequencer α) (h : Ok r) (call : Call α) :
    (r.apply call).window = r.window := by
  cases call with
  | observe seq payload src now =>
    obtain ⟨-, hcase⟩ := observe_goes h seq payload src now
    simp only [apply]
    split at hcase
    · obtain ⟨m, ⟨_, hmoves⟩, -, -, ⟨_, hrest⟩⟩ := hcase
      have hplaced : (m.place ⟨seq, src, payload, now⟩).window = m.window := rfl
      rw [Moves.window hrest, hplaced, Moves.window hmoves]
    · obtain ⟨_, hmoves⟩ := hcase
      exact Moves.window hmoves
  | pop now =>
    obtain ⟨_, hmoves⟩ := (expire_spec h now).1
    have hexpire := Moves.window hmoves
    simp only [apply, pop]
    split <;> exact hexpire
  | setHoldBound d => rfl
  | rebaselineAt next now =>
    by_cases hnext : next = 0
    · simp only [apply, rebaselineAt, if_pos hnext]
    · obtain ⟨_, hmoves⟩ := (rebaselineAt_spec r hnext now).1
      exact Moves.window hmoves

theorem window_run : (run window window_pos timeout calls).window = window := by
  induction calls using List.reverseRecOn with
  | nil => rfl
  | append_singleton calls call ih =>
    have hstep := window_apply _ (sound_run window window_pos timeout calls).ok
      call
    rw [run, List.foldl_append]
    exact hstep.trans ih

/-! ## What is popped -/

/-- What a call pops. -/
def pops (r : Resequencer α) : Call α → List (Item α)
  | .pop now => (r.pop now).2.toList
  | .observe _ _ _ _ => []
  | .setHoldBound _ => []
  | .rebaselineAt _ _ => []

/-- What the calls pop, in order. -/
def popped : Resequencer α → List (Call α) → List (Item α)
  | _, [] => []
  | r, call :: calls => r.pops call ++ popped (r.apply call) calls

theorem popped_apply (h : Ok r) {items : List (Item α)} (hr : r.Popped items)
    (call : Call α) : (r.apply call).Popped (items ++ r.pops call) := by
  cases call with
  | observe seq payload src now =>
    obtain ⟨-, hcase⟩ := observe_goes h seq payload src now
    simp only [apply, pops, List.append_nil]
    split at hcase
    · obtain ⟨m, ⟨_, hmoves⟩, -, -, ⟨_, hrest⟩⟩ := hcase
      have hm : m.Popped items := Moves.popped hmoves hr
      exact Moves.popped hrest hm
    · obtain ⟨_, hmoves⟩ := hcase
      exact Moves.popped hmoves hr
  | pop now =>
    obtain ⟨_, hmoves⟩ := (expire_spec h now).1
    have hexpire : (r.expire now).Popped items := Moves.popped hmoves hr
    simp only [apply, pops, pop]
    split
    · rwa [Option.toList_none, List.append_nil]
    next item rest hready =>
      rw [Popped, hready] at hexpire
      rwa [Popped, Option.toList_some, List.append_assoc]
  | setHoldBound d =>
    rwa [pops, List.append_nil]
  | rebaselineAt next now =>
    rw [pops, List.append_nil]
    by_cases hnext : next = 0
    · simp only [apply, rebaselineAt, if_pos hnext]
      exact hr
    · obtain ⟨_, hmoves⟩ := (rebaselineAt_spec r hnext now).1
      exact Moves.popped hmoves hr

theorem popped_foldl (calls : List (Call α)) (r : Resequencer α) (h : Sound r)
    {items : List (Item α)} (hr : r.Popped items) :
    (calls.foldl apply r).Popped (items ++ popped r calls) := by
  induction calls generalizing r items with
  | nil => rwa [popped, List.append_nil]
  | cons call _ ih =>
    rw [popped, ← List.append_assoc]
    exact ih _ (sound_apply h call).1 (popped_apply h.ok hr call)

/-! ## Results -/

/-- After any calls every buffered frame has its own cell of the window, the
counter of buffered frames is exact, nothing waits at the release point, a hold
is armed exactly while frames are buffered, and between two pins of the release
point the sequences released increase.  What is popped, followed by what is
ready, is the frames released. -/
theorem structure_and_order (r : Resequencer α)
    (hr : r = run window window_pos timeout calls) :
    (∀ i c, i < window → r.ring i = some c →
      c.seq % window = i ∧ r.next ≤ c.seq ∧ c.seq < r.next + window) ∧
    r.buf = occupied window r.ring ∧ r.buf ≤ window ∧
    r.ring (r.next % window) = none ∧ (r.waiting = true ↔ 0 < r.buf) ∧
    (∀ past, past <:+ r.trail → (releasedSince past).Pairwise (· < ·)) ∧
    popped (new window window_pos timeout) calls ++ r.ready =
      (releasedFrames r.trail).map Slot.item := by
  have hsound : Sound r := hr ▸ sound_run window window_pos timeout calls
  have hwindow : r.window = window :=
    hr ▸ window_run window window_pos timeout calls
  have hfiled := hsound.ok.filed
  have hcount := hfiled.count
  have hempty := hfiled.ring_of_frame hsound.ok.head le_rfl
    (Nat.lt_add_of_pos_right r.window_pos)
  rw [hwindow] at hcount hempty
  refine ⟨fun i c _ hc => ?_, hcount, ?_, hempty, ?_, hsound.told.increasing,
    ?_⟩
  · have hplaced := hfiled.placed i c hc
    rwa [hwindow] at hplaced
  · rw [hcount]
    exact occupied_le window r.ring
  · rw [hsound.ok.armed, decide_eq_true_eq]
  · have hstart : (new window window_pos timeout : Resequencer α).Popped [] := rfl
    rw [hr]
    exact popped_foldl calls _ (sound_new window window_pos timeout) hstart

/-- Frame 6 fills the gap before frame 7. -/
theorem structure_and_order_gap :
    let r := run 4 (by decide) 250000000 [.observe 5 [] () 0,
      .observe 7 [] () 1, .observe 6 [] () 2]
    releasedSince r.trail = [5, 6, 7] ∧
      (releasedSince r.trail).Pairwise (· < ·) :=
  ⟨by decide, (structure_and_order 4 (by decide) 250000000 _ _ rfl).2.2.2.2.2.1 _
    List.suffix_rfl⟩

/-- The frames taken in are those released, those buffered and those discarded
by pins, and every sequence from the last pin to the release point was either
released once or counted as lost once. -/
theorem frames_conserved (r : Resequencer α)
    (hr : r = run window window_pos timeout calls) :
    accepted (new window window_pos timeout) calls =
      r.releasedN + r.buf + discarded r.trail ∧
    r.releasedN = (releasedFrames r.trail).length ∧
    r.skipped = lostTotal r.trail ∧
    pinnedAt r.trail ≤ r.next ∧
    r.next - pinnedAt r.trail =
      (releasedSince r.trail).length + (lostSince r.trail).length ∧
    ∀ s, pinnedAt r.trail ≤ s → s < r.next →
      (releasedSince r.trail).count s + (lostSince r.trail).count s = 1 := by
  obtain ⟨hsound, htaken⟩ :=
    sound_foldl calls _ (sound_new window window_pos timeout)
  rw [← run, ← hr] at hsound htaken
  have htold : Told r := hsound.told
  refine ⟨?_, htold.releasedN, htold.skipped, htold.base_le, ?_, ?_⟩
  · have hnew : (new window window_pos timeout : Resequencer α).taken = 0 := rfl
    rw [hnew, Nat.zero_add] at htaken
    exact htaken.symm
  · have hlength := htold.once.length_eq
    rw [List.length_append, List.length_range'] at hlength
    exact hlength.symm
  intro s hle hlt
  rw [← List.count_append, htold.once.count_eq]
  refine List.count_eq_one_of_mem (List.nodup_range') ?_
  rw [List.mem_range'_1]
  omega

/-- Frame 8 pushes the window past 5, which is lost, and 6 waits no more. -/
theorem frames_conserved_advance :
    let calls : List (Call Unit) := [.observe 4 [] () 0, .observe 6 [] () 1,
      .observe 8 [] () 2]
    let r := run 3 (by decide) 250000000 calls
    lostSince r.trail = [5] ∧
      accepted (new 3 (by decide) 250000000) calls =
        r.releasedN + r.buf + discarded r.trail :=
  ⟨by decide, (frames_conserved 3 (by decide) 250000000 _ _ rfl).1⟩

end Resequencer

end Wanbond.Reseq
