import Mathlib.Data.List.Range
import Mathlib.Logic.Relation
import Wanbond.Reseq.Resequencer
import Wanbond.Support.Cells

/-!
# Moves of the release point

Apart from `place`, every function of the resequencer is a succession of moves:
the frame at the release point is released, a gap with no frame in it is
skipped, the release point is pinned anew, or nothing that concerns frames
changes.  The order of the ring (`Filed`), the account that the trail gives
(`Told`) and the number of frames taken in (`taken`) are kept by each move,
hence by every function.
-/

namespace Wanbond.Reseq

open Wanbond.Bond (Time Duration Bytes)
open Wanbond.Support

variable {α : Type}

/-! ## Reading the trail -/

/-- Where the release point was last pinned. -/
def pinnedAt : List (Mark α) → ℕ
  | [] => 0
  | .pin base _ :: _ => base
  | .released _ :: past => pinnedAt past
  | .skipped _ _ :: past => pinnedAt past

/-- The sequences released since the last pin, the oldest first. -/
def releasedSince : List (Mark α) → List ℕ
  | [] => []
  | .pin _ _ :: _ => []
  | .released c :: past => releasedSince past ++ [c.seq]
  | .skipped _ _ :: past => releasedSince past

/-- The sequences given up as lost since the last pin. -/
def lostSince : List (Mark α) → List ℕ
  | [] => []
  | .pin _ _ :: _ => []
  | .released _ :: past => lostSince past
  | .skipped first count :: past => lostSince past ++ List.range' first count

/-- Every frame released, the oldest first. -/
def releasedFrames : List (Mark α) → List (Slot α)
  | [] => []
  | .pin _ _ :: past => releasedFrames past
  | .released c :: past => releasedFrames past ++ [c]
  | .skipped _ _ :: past => releasedFrames past

/-- How many sequences were given up as lost. -/
def lostTotal : List (Mark α) → ℕ
  | [] => 0
  | .pin _ _ :: past => lostTotal past
  | .released _ :: past => lostTotal past
  | .skipped _ count :: past => lostTotal past + count

/-- How many buffered frames the pins discarded. -/
def discarded : List (Mark α) → ℕ
  | [] => 0
  | .pin _ count :: past => discarded past + count
  | .released _ :: past => discarded past
  | .skipped _ _ :: past => discarded past

namespace Resequencer

variable {r r' : Resequencer α} {bound : ℕ} {pins : ℕ → ℕ → Prop}

/-! ## Moves -/

/-- The buffered frames other than one at the release point are found from the
cursor of the held list on. -/
structure Listed (r : Resequencer α) : Prop where
  cursor : r.heldPos ≤ r.held.length
  listed : ∀ i c, r.ring i = some c → c.seq ≠ r.next →
    c.seq ∈ r.held.drop r.heldPos

/-- Nothing that concerns frames changes. -/
structure Quiet (r r' : Resequencer α) : Prop where
  window : r'.window = r.window
  started : r'.started = r.started
  next : r'.next = r.next
  ring : r'.ring = r.ring
  buf : r'.buf = r.buf
  ready : r'.ready = r.ready
  releasedN : r'.releasedN = r.releasedN
  skipped : r'.skipped = r.skipped
  trail : r'.trail = r.trail
  panicked : r'.panicked = r.panicked
  listed : r.Listed → r'.Listed

theorem Quiet.refl (r : Resequencer α) : Quiet r r :=
  ⟨rfl, rfl, rfl, rfl, rfl, rfl, rfl, rfl, rfl, rfl, id⟩

theorem Quiet.trans {r'' : Resequencer α} (h : Quiet r r') (h' : Quiet r' r'') :
    Quiet r r'' where
  window := h'.window.trans h.window
  started := h'.started.trans h.started
  next := h'.next.trans h.next
  ring := h'.ring.trans h.ring
  buf := h'.buf.trans h.buf
  ready := h'.ready.trans h.ready
  releasedN := h'.releasedN.trans h.releasedN
  skipped := h'.skipped.trans h.skipped
  trail := h'.trail.trans h.trail
  panicked := h'.panicked.trans h.panicked
  listed := h'.listed ∘ h.listed

theorem Quiet.frame (h : Quiet r r') (seq : ℕ) : r'.frame seq = r.frame seq := by
  simp only [Resequencer.frame, h.ring, h.window]

/-- The frame at the release point is released. -/
def step (r : Resequencer α) (c : Slot α) : Resequencer α :=
  { r.release c with next := r.next + 1 }

/-- The moves that keep the release point within one of `bound`, and pin it from
`next` to `base` only where `pins next base`. -/
inductive Move (bound : ℕ) (pins : ℕ → ℕ → Prop) :
    Resequencer α → Resequencer α → Prop
  | quiet {r r' : Resequencer α} : Quiet r r' → Move bound pins r r'
  | start {r : Resequencer α} (seq : ℕ) : r.started = false →
      seq ≤ bound + 1 → Move bound pins r (r.start seq)
  | step {r : Resequencer α} (c : Slot α) : r.frame r.next = some c →
      Move bound pins r (r.step c)
  | skip {r : Resequencer α} (target : ℕ) : r.started = true →
      r.next < target → (∀ i c, r.ring i = some c → target ≤ c.seq) →
      target ≤ bound + 1 → Move bound pins r (r.skipTo target)
  | repin {r : Resequencer α} (base : ℕ) : pins r.next base →
      base ≤ bound + 1 → Move bound pins r { r.pinTo base with started := true }

abbrev Moves (bound : ℕ) (pins : ℕ → ℕ → Prop) (r r' : Resequencer α) : Prop :=
  Relation.ReflTransGen (Move bound pins) r r'

theorem Quiet.moves (h : Quiet r r') : Moves bound pins r r' :=
  .single (.quiet h)

/-! ## The ring -/

/-- The order of the ring. -/
structure Filed (r : Resequencer α) : Prop where
  placed : ∀ i c, r.ring i = some c →
    c.seq % r.window = i ∧ r.next ≤ c.seq ∧ c.seq < r.next + r.window
  count : r.buf = occupied r.window r.ring
  listed : r.Listed
  fresh : r.started = false → r.buf = 0 ∧ r.trail = []

variable {i : ℕ} {c : Slot α}

namespace Filed

theorem lt (h : Filed r) (hc : r.ring i = some c) : i < r.window := by
  rw [← (h.placed i c hc).1]
  exact Nat.mod_lt _ r.window_pos

theorem ring_eq_none (h : Filed r) (hbuf : r.buf = 0) (i : ℕ) :
    r.ring i = none := by
  rw [h.count, occupied_eq_zero_iff] at hbuf
  cases hc : r.ring i with
  | none => rfl
  | some c => exact hc.symm.trans (hbuf i (h.lt hc))

theorem frame_eq_none (h : Filed r) (hbuf : r.buf = 0) (seq : ℕ) :
    r.frame seq = none := by
  simp [Resequencer.frame, h.ring_eq_none hbuf]

theorem exists_frame (h : Filed r) (hbuf : 0 < r.buf) :
    ∃ i c, r.ring i = some c := by
  by_contra hnone
  push Not at hnone
  have hzero : occupied r.window r.ring = 0 := by
    rw [occupied_eq_zero_iff]
    intro i _
    cases hc : r.ring i with
    | none => rfl
    | some c => exact (hnone i c hc).elim
  have := h.count
  omega

end Filed

theorem frame_eq_some {seq : ℕ} (h : r.frame seq = some c) :
    r.ring (seq % r.window) = some c ∧ c.seq = seq := by
  simpa [Resequencer.frame, Option.filter_eq_some_iff] using h

namespace Filed

theorem frame_of_ring (h : Filed r) (hc : r.ring i = some c) :
    r.frame c.seq = some c := by
  simp [Resequencer.frame, (h.placed i c hc).1, hc]

theorem ring_of_frame (h : Filed r) {seq : ℕ} (hframe : r.frame seq = none)
    (hle : r.next ≤ seq) (hlt : seq < r.next + r.window) :
    r.ring (seq % r.window) = none := by
  cases hc : r.ring (seq % r.window) with
  | none => rfl
  | some c =>
    obtain ⟨hmod, hle', hlt'⟩ := h.placed _ c hc
    have hseq : c.seq = seq := eq_of_mod_eq hmod hle' hlt' hle hlt
    have hfound := h.frame_of_ring hc
    rw [hseq, hframe] at hfound
    cases hfound

theorem beyond (h : Filed r) (hhead : r.frame r.next = none)
    (hc : r.ring i = some c) : r.next + 1 ≤ c.seq := by
  have hle := (h.placed i c hc).2.1
  have hne : c.seq ≠ r.next := by
    intro heq
    have hfound := h.frame_of_ring hc
    rw [heq, hhead] at hfound
    cases hfound
  omega

theorem new (window : ℕ) (window_pos : 0 < window) (timeout : Duration) :
    Filed (new window window_pos timeout : Resequencer α) where
  placed := fun _ _ => nofun
  count := (occupied_eq_zero_iff.mpr fun _ _ => rfl).symm
  listed := ⟨le_rfl, fun _ _ => nofun⟩
  fresh := fun _ => ⟨rfl, rfl⟩

theorem quiet (h : Filed r) (hquiet : Quiet r r') : Filed r' where
  placed := by
    simpa only [hquiet.ring, hquiet.window, hquiet.next] using h.placed
  count := by
    simpa only [hquiet.ring, hquiet.window, hquiet.buf] using h.count
  listed := hquiet.listed h.listed
  fresh := by
    simpa only [hquiet.started, hquiet.buf, hquiet.trail] using h.fresh

theorem start (h : Filed r) (hstarted : r.started = false) (seq : ℕ) :
    Filed (r.start seq) := by
  have hnone := h.ring_eq_none (h.fresh hstarted).1
  simp only [Resequencer.start, hstarted, Bool.false_eq_true, if_false]
  have hempty : ∀ i c, r.ring i ≠ some c := by
    intro i c hc
    rw [hnone i] at hc
    cases hc
  exact ⟨fun i c hc => (hempty i c hc).elim, h.count,
    ⟨h.listed.cursor, fun i c hc => (hempty i c hc).elim⟩, nofun⟩

theorem buf_pos (h : Filed r) (hc : r.ring i = some c) : 0 < r.buf := by
  by_contra hbuf
  rw [h.ring_eq_none (by omega) i] at hc
  cases hc

theorem step (h : Filed r) (hc : r.frame r.next = some c) :
    Filed (r.step c) := by
  obtain ⟨hring, hseq⟩ := frame_eq_some hc
  -- a frame left in the ring is in another cell than the one released
  have hleft : ∀ i d, Function.update r.ring (c.seq % r.window) none i = some d →
      r.ring i = some d ∧ d.seq ≠ r.next := by
    intro i d hd
    by_cases hi : i = c.seq % r.window
    · rw [hi, Function.update_self] at hd
      cases hd
    · rw [Function.update_of_ne hi] at hd
      refine ⟨hd, fun heq => hi ?_⟩
      rw [hseq, ← heq, (h.placed i d hd).1]
  refine ⟨fun i d hd => ?_, ?_, ⟨h.listed.cursor, fun i d hd _ => ?_⟩, fun hnew => ?_⟩
  · obtain ⟨hold, hne⟩ := hleft i d hd
    obtain ⟨hmod, hle, hlt⟩ := h.placed i d hold
    refine ⟨hmod, ?_, ?_⟩
    · change r.next + 1 ≤ d.seq
      omega
    · change d.seq < r.next + 1 + r.window
      omega
  · have hclear : occupied r.window
        (Function.update r.ring (c.seq % r.window) none) + 1 =
        occupied r.window r.ring :=
      occupied_clear (Nat.mod_lt _ r.window_pos) (by rw [hseq]; exact hring)
    have hcount := h.count
    change r.buf - 1 =
      occupied r.window (Function.update r.ring (c.seq % r.window) none)
    omega
  · obtain ⟨hold, hne⟩ := hleft i d hd
    exact h.listed.listed i d hold hne
  · have := h.buf_pos hring
    have := (h.fresh hnew).1
    omega

theorem skip (h : Filed r) (hstarted : r.started = true) {target : ℕ}
    (hlt : r.next < target)
    (hempty : ∀ i c, r.ring i = some c → target ≤ c.seq) :
    Filed (r.skipTo target) := by
  refine ⟨fun i c hc => ?_, h.count, ⟨h.listed.cursor, fun i c hc _ => ?_⟩,
    fun hnew => ?_⟩
  · obtain ⟨hmod, -, hlt'⟩ := h.placed i c hc
    refine ⟨hmod, hempty i c hc, ?_⟩
    change c.seq < target + r.window
    omega
  · have := hempty i c hc
    exact h.listed.listed i c hc (by omega)
  · change r.started = false at hnew
    rw [hstarted] at hnew
    cases hnew

theorem place (h : Filed r) (hstarted : r.started = true)
    (hframe : r.frame c.seq = none) (hle : r.next ≤ c.seq)
    (hlt : c.seq < r.next + r.window) : Filed (r.place c) := by
  have hfree := h.ring_of_frame hframe hle hlt
  have hcells : ∀ i d, Function.update r.ring (c.seq % r.window) (some c) i =
      some d → d = c ∧ i = c.seq % r.window ∨ r.ring i = some d := by
    intro i d hd
    by_cases hi : i = c.seq % r.window
    · rw [hi, Function.update_self] at hd
      exact .inl ⟨(Option.some.inj hd).symm, hi⟩
    · rw [Function.update_of_ne hi] at hd
      exact .inr hd
  have hcursor := h.listed.cursor
  refine ⟨fun i d hd => ?_, ?_, ⟨?_, fun i d hd hne => ?_⟩, fun hnew => ?_⟩
  · rcases hcells i d hd with ⟨rfl, rfl⟩ | hold
    · exact ⟨rfl, hle, hlt⟩
    · exact h.placed i d hold
  · have hfill : occupied r.window
        (Function.update r.ring (c.seq % r.window) (some c)) =
        occupied r.window r.ring + 1 :=
      occupied_fill (Nat.mod_lt _ r.window_pos) hfree c
    have hcount := h.count
    change r.buf + 1 =
      occupied r.window (Function.update r.ring (c.seq % r.window) (some c))
    omega
  · change r.heldPos ≤ (if c.seq = r.next then r.held else r.held ++ [c.seq]).length
    split
    · exact hcursor
    · rw [List.length_append]
      omega
  · change d.seq ≠ r.next at hne
    change d.seq ∈
      (if c.seq = r.next then r.held else r.held ++ [c.seq]).drop r.heldPos
    rcases hcells i d hd with ⟨rfl, rfl⟩ | hold
    · rw [if_neg hne, List.drop_append_of_le_length hcursor]
      exact List.mem_append_right _ (List.mem_singleton_self _)
    have hmem := h.listed.listed i d hold hne
    split
    · exact hmem
    · rw [List.drop_append_of_le_length hcursor]
      exact List.mem_append_left _ hmem
  · change r.started = false at hnew
    rw [hstarted] at hnew
    cases hnew

end Filed

theorem Filed.pin (r : Resequencer α) (base : ℕ) :
    Filed { r.pinTo base with started := true } :=
  ⟨fun _ _ => nofun, (occupied_eq_zero_iff.mpr fun _ _ => rfl).symm,
    ⟨le_rfl, fun _ _ => nofun⟩, nofun⟩

theorem Move.filed (h : Move bound pins r r') (hr : Filed r) : Filed r' := by
  cases h with
  | quiet hquiet => exact hr.quiet hquiet
  | start seq hstarted _ => exact hr.start hstarted seq
  | step c hc => exact hr.step hc
  | skip _ hstarted hlt hempty => exact hr.skip hstarted hlt hempty
  | repin base => exact .pin r base

/-! ## The account -/

/-- The account that the trail gives of the release point and the counters. -/
structure Told (r : Resequencer α) : Prop where
  base_le : pinnedAt r.trail ≤ r.next
  once : (releasedSince r.trail ++ lostSince r.trail).Perm
    (List.range' (pinnedAt r.trail) (r.next - pinnedAt r.trail))
  increasing : ∀ past, past <:+ r.trail →
    (releasedSince past).Pairwise (· < ·)
  releasedN : r.releasedN = (releasedFrames r.trail).length
  skipped : r.skipped = lostTotal r.trail

theorem Told.increasing_cons {m : Mark α} {trail : List (Mark α)}
    (h : ∀ past, past <:+ trail → (releasedSince past).Pairwise (· < ·))
    (hm : (releasedSince (m :: trail)).Pairwise (· < ·)) :
    ∀ past, past <:+ m :: trail → (releasedSince past).Pairwise (· < ·) := by
  intro past hpast
  rcases List.suffix_cons_iff.mp hpast with rfl | hpast
  · exact hm
  · exact h past hpast

namespace Told

theorem new (window : ℕ) (window_pos : 0 < window) (timeout : Duration) :
    Told (new window window_pos timeout : Resequencer α) where
  base_le := le_rfl
  once := .refl _
  increasing := by
    intro past hpast
    rw [List.eq_nil_of_suffix_nil hpast]
    exact .nil
  releasedN := rfl
  skipped := rfl

theorem quiet (h : Told r) (hquiet : Quiet r r') : Told r' where
  base_le := by simpa only [hquiet.trail, hquiet.next] using h.base_le
  once := by simpa only [hquiet.trail, hquiet.next] using h.once
  increasing := by simpa only [hquiet.trail] using h.increasing
  releasedN := by
    simpa only [hquiet.trail, hquiet.releasedN] using h.releasedN
  skipped := by simpa only [hquiet.trail, hquiet.skipped] using h.skipped

theorem released_lt (h : Told r) {s : ℕ} (hs : s ∈ releasedSince r.trail) :
    s < r.next := by
  have hmem := h.once.mem_iff.mp (List.mem_append_left _ hs)
  have := h.base_le
  rw [List.mem_range'_1] at hmem
  omega

theorem step (h : Told r) (hc : r.frame r.next = some c) : Told (r.step c) := by
  have hseq := (frame_eq_some hc).2
  have hle := h.base_le
  refine ⟨hle.trans (Nat.le_succ _), ?_, increasing_cons h.increasing ?_, ?_,
    h.skipped⟩
  · change (releasedSince r.trail ++ [c.seq] ++ lostSince r.trail).Perm
      (List.range' (pinnedAt r.trail) (r.next + 1 - pinnedAt r.trail))
    rw [show r.next + 1 - pinnedAt r.trail = r.next - pinnedAt r.trail + 1 by
      omega, List.range'_1_concat,
      show pinnedAt r.trail + (r.next - pinnedAt r.trail) = c.seq by omega,
      List.append_assoc]
    refine .trans (List.perm_append_comm.append_left _) ?_
    rw [← List.append_assoc]
    exact h.once.append_right [c.seq]
  · refine List.pairwise_append.mpr
      ⟨h.increasing _ List.suffix_rfl, List.pairwise_singleton _ _, ?_⟩
    intro s hs t ht
    rw [List.mem_singleton] at ht
    have := h.released_lt hs
    omega
  · have := h.releasedN
    change r.releasedN + 1 = (releasedFrames r.trail ++ [c]).length
    rw [List.length_append, List.length_singleton]
    omega

theorem skip (h : Told r) {target : ℕ} (hlt : r.next < target) :
    Told (r.skipTo target) := by
  have hle := h.base_le
  refine ⟨hle.trans hlt.le, ?_,
    increasing_cons h.increasing (h.increasing r.trail List.suffix_rfl),
    h.releasedN, ?_⟩
  · change (releasedSince r.trail ++
      (lostSince r.trail ++ List.range' r.next (target - r.next))).Perm
      (List.range' (pinnedAt r.trail) (target - pinnedAt r.trail))
    have hsplit := @List.range'_append_1 (pinnedAt r.trail)
      (r.next - pinnedAt r.trail) (target - r.next)
    rw [show pinnedAt r.trail + (r.next - pinnedAt r.trail) = r.next by omega,
      show r.next - pinnedAt r.trail + (target - r.next) =
        target - pinnedAt r.trail by omega] at hsplit
    rw [← hsplit, ← List.append_assoc]
    exact h.once.append_right _
  · have := h.skipped
    change r.skipped + (target - r.next) =
      lostTotal r.trail + (target - r.next)
    omega

theorem pinned (h : Told r) {base count : ℕ} (hnext : r'.next = base)
    (htrail : r'.trail = .pin base count :: r.trail)
    (hreleased : r'.releasedN = r.releasedN) (hskipped : r'.skipped = r.skipped) :
    Told r' := by
  refine ⟨?_, ?_, ?_, ?_, ?_⟩
  · rw [htrail, hnext]
    exact le_rfl
  · rw [htrail, hnext]
    simp [releasedSince, lostSince, pinnedAt]
  · rw [htrail]
    exact increasing_cons h.increasing .nil
  · rw [htrail, hreleased]
    exact h.releasedN
  · rw [htrail, hskipped]
    exact h.skipped

end Told

theorem start_of_new (hstarted : r.started = false) (seq : ℕ) :
    r.start seq = { r with
      started := true, next := seq, trail := .pin seq 0 :: r.trail } := by
  simp [start, hstarted]

theorem Move.told (h : Move bound pins r r') (hr : Told r) : Told r' := by
  cases h with
  | quiet hquiet => exact hr.quiet hquiet
  | start _ hstarted =>
    rw [start_of_new hstarted]
    exact hr.pinned rfl rfl rfl rfl
  | step c hc => exact hr.step hc
  | skip _ _ hlt => exact hr.skip hlt
  | repin => exact hr.pinned rfl rfl rfl rfl

theorem Told.place (h : Told r) (c : Slot α) : Told (r.place c) :=
  ⟨h.base_le, h.once, h.increasing, h.releasedN, h.skipped⟩

/-! ## Frames taken in -/

/-- The frames released, buffered, or discarded by a pin. -/
def taken (r : Resequencer α) : ℕ := r.releasedN + r.buf + discarded r.trail

theorem Move.taken (h : Move bound pins r r') (hr : Filed r) : r'.taken = r.taken := by
  cases h with
  | quiet hquiet =>
    simp only [Resequencer.taken, hquiet.releasedN, hquiet.buf, hquiet.trail]
  | start _ hstarted =>
    rw [start_of_new hstarted]
    rfl
  | step c hc =>
    have := hr.buf_pos (frame_eq_some hc).1
    change r.releasedN + 1 + (r.buf - 1) + discarded r.trail =
      r.releasedN + r.buf + discarded r.trail
    omega
  | skip => rfl
  | repin base _ _ =>
    change r.releasedN + 0 + (discarded r.trail + r.buf) =
      r.releasedN + r.buf + discarded r.trail
    omega

theorem taken_place (r : Resequencer α) (c : Slot α) :
    (r.place c).taken = r.taken + 1 := by
  change r.releasedN + (r.buf + 1) + discarded r.trail =
    r.releasedN + r.buf + discarded r.trail + 1
  omega

/-! ## What the FIFO holds -/

/-- The items popped and those ready are the frames released, in order. -/
def Popped (r : Resequencer α) (popped : List (Item α)) : Prop :=
  popped ++ r.ready = (releasedFrames r.trail).map Slot.item

theorem Move.popped (h : Move bound pins r r') {popped : List (Item α)}
    (hr : r.Popped popped) : r'.Popped popped := by
  cases h with
  | quiet hquiet => simpa only [Popped, hquiet.ready, hquiet.trail] using hr
  | start _ hstarted =>
    rwa [start_of_new hstarted]
  | step c =>
    change popped ++ (r.ready ++ [c.item]) =
      (releasedFrames r.trail ++ [c]).map Slot.item
    rw [← List.append_assoc, hr, List.map_append]
    rfl
  | skip => exact hr
  | repin => exact hr

/-- The release point is within one of the bound, and the frames buffered are
within it. -/
structure Upto (bound : ℕ) (r : Resequencer α) : Prop where
  next_le : r.next ≤ bound + 1
  seq_le : ∀ i c, r.ring i = some c → c.seq ≤ bound

theorem Move.upto (h : Move bound pins r r') (hr : Upto bound r) :
    Upto bound r' := by
  cases h with
  | quiet hquiet =>
    exact ⟨hquiet.next.trans_le hr.next_le, hquiet.ring ▸ hr.seq_le⟩
  | start seq hstarted hle =>
    rw [start_of_new hstarted]
    exact ⟨hle, hr.seq_le⟩
  | step c hc =>
    obtain ⟨hring, hseq⟩ := frame_eq_some hc
    have hle := hr.seq_le _ c hring
    refine ⟨show r.next + 1 ≤ bound + 1 by omega, fun i d hd => ?_⟩
    change Function.update r.ring (c.seq % r.window) none i = some d at hd
    by_cases hi : i = c.seq % r.window
    · rw [hi, Function.update_self] at hd
      cases hd
    · rw [Function.update_of_ne hi] at hd
      exact hr.seq_le i d hd
  | skip _ _ _ _ hle => exact ⟨hle, hr.seq_le⟩
  | repin base _ hle => exact ⟨hle, fun _ _ => nofun⟩

theorem Filed.upto (h : Filed r) (more : ℕ) :
    Upto (r.next + r.window + more) r := by
  refine ⟨by omega, fun i c hc => ?_⟩
  have := (h.placed i c hc).2.2
  omega

theorem Move.window (h : Move bound pins r r') : r'.window = r.window := by
  cases h with
  | quiet hquiet => exact hquiet.window
  | start _ hstarted => rw [start_of_new hstarted]
  | step => rfl
  | skip => rfl
  | repin => rfl

theorem Move.started (h : Move bound pins r r') (hr : r.started = true) :
    r'.started = true := by
  cases h with
  | quiet hquiet => exact hquiet.started.trans hr
  | start _ hstarted => rw [start_of_new hstarted]
  | step => exact hr
  | skip => exact hr
  | repin => rfl

/-! ## Successions of moves -/

theorem Moves.filed (h : Moves bound pins r r') (hr : Filed r) : Filed r' := by
  induction h with
  | refl => exact hr
  | tail _ hmove ih => exact hmove.filed ih

theorem Moves.told (h : Moves bound pins r r') (hr : Told r) : Told r' := by
  induction h with
  | refl => exact hr
  | tail _ hmove ih => exact hmove.told ih

theorem Moves.taken (h : Moves bound pins r r') (hr : Filed r) :
    r'.taken = r.taken := by
  induction h with
  | refl => rfl
  | tail hmoves hmove ih => exact (hmove.taken (Moves.filed hmoves hr)).trans ih

theorem Moves.popped (h : Moves bound pins r r') {popped : List (Item α)}
    (hr : r.Popped popped) : r'.Popped popped := by
  induction h with
  | refl => exact hr
  | tail _ hmove ih => exact hmove.popped ih

theorem Moves.upto (h : Moves bound pins r r') (hr : Upto bound r) :
    Upto bound r' := by
  induction h with
  | refl => exact hr
  | tail _ hmove ih => exact hmove.upto ih

theorem Moves.window (h : Moves bound pins r r') : r'.window = r.window := by
  induction h with
  | refl => rfl
  | tail _ hmove ih => exact hmove.window.trans ih

theorem Moves.started (h : Moves bound pins r r') (hr : r.started = true) :
    r'.started = true := by
  induction h with
  | refl => exact hr
  | tail _ hmove ih => exact hmove.started ih

end Resequencer

end Wanbond.Reseq
