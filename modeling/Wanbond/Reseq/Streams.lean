import Wanbond.Reseq.Runs

/-!
# Streams that stay near the release point

A caller may know more of its sequences than the resequencer does.  Where every
frame is within a window of the highest sequence seen, the guard never takes a
frame below the release point for a restart: the release point only moves up,
and the frames of the stream are released in increasing order even across the
pins that a jump forward causes.
-/

namespace Wanbond.Reseq

open Wanbond.Bond (Time Duration Bytes)

variable {α : Type}

namespace Resequencer

variable {r r' : Resequencer α} {bound : ℕ} {pins : ℕ → ℕ → Prop}

/-! ## Frames -/

/-- Every buffered frame satisfies `P`. -/
def Buffered (P : Slot α → Prop) (r : Resequencer α) : Prop :=
  ∀ i c, r.ring i = some c → P c

variable {P : Slot α → Prop}

theorem Move.buffered (h : Move bound pins r r') (hr : Buffered P r) :
    Buffered P r' := by
  cases h with
  | quiet hquiet => exact fun i c hc => hr i c (hquiet.ring ▸ hc)
  | start _ hstarted =>
    rwa [start_of_new hstarted]
  | step d =>
    intro i c hc
    change Function.update r.ring (d.seq % r.window) none i = some c at hc
    by_cases hi : i = d.seq % r.window
    · rw [hi, Function.update_self] at hc
      cases hc
    · rw [Function.update_of_ne hi] at hc
      exact hr i c hc
  | skip => exact hr
  | repin base _ _ => exact fun _ _ => nofun

theorem Buffered.place (h : Buffered P r) {c : Slot α} (hc : P c) :
    Buffered P (r.place c) := by
  intro i d hd
  change Function.update r.ring (c.seq % r.window) (some c) i = some d at hd
  by_cases hi : i = c.seq % r.window
  · rw [hi, Function.update_self] at hd
    rwa [← Option.some.inj hd]
  · rw [Function.update_of_ne hi] at hd
    exact h i d hd

theorem Move.releases (h : Move bound pins r r') (hr : Buffered P r) :
    ∃ l, releasedFrames r'.trail = releasedFrames r.trail ++ l ∧
      ∀ c ∈ l, P c := by
  cases h with
  | quiet hquiet => exact ⟨[], by rw [hquiet.trail, List.append_nil], nofun⟩
  | start seq hstarted _ =>
    rw [start_of_new hstarted]
    exact ⟨[], (List.append_nil _).symm, nofun⟩
  | step c hc =>
    refine ⟨[c], rfl, fun d hd => ?_⟩
    rw [List.mem_singleton.mp hd]
    exact hr _ c (frame_eq_some hc).1
  | skip | repin => exact ⟨[], (List.append_nil _).symm, nofun⟩

theorem Moves.buffered (h : Moves bound pins r r') (hr : Buffered P r) :
    Buffered P r' := by
  induction h with
  | refl => exact hr
  | tail _ hmove ih => exact hmove.buffered ih

theorem Moves.releases (h : Moves bound pins r r') (hr : Buffered P r) :
    ∃ l, releasedFrames r'.trail = releasedFrames r.trail ++ l ∧
      ∀ c ∈ l, P c := by
  induction h with
  | refl => exact ⟨[], (List.append_nil _).symm, nofun⟩
  | tail hmoves hmove ih =>
    obtain ⟨l, hl, hall⟩ := ih
    obtain ⟨l', hl', hall'⟩ := hmove.releases (Moves.buffered hmoves hr)
    refine ⟨l ++ l', by rw [hl', hl, List.append_assoc], fun c hc => ?_⟩
    rcases List.mem_append.mp hc with hc | hc
    · exact hall c hc
    · exact hall' c hc

/-! ## Ascent -/

/-- The sequences released of the frames that `p` picks, the oldest first. -/
def releasedOf (p : Slot α → Bool) (r : Resequencer α) : List ℕ :=
  ((releasedFrames r.trail).filter p).map Slot.seq

/-- The frames that `p` picks are released in increasing order, below the release
point. -/
structure Ascends (p : Slot α → Bool) (r : Resequencer α) : Prop where
  increasing : (r.releasedOf p).Pairwise (· < ·)
  below : ∀ s ∈ r.releasedOf p, s < r.next

variable {p : Slot α → Bool}

theorem Ascends.of_le (h : Ascends p r)
    (hreleased : releasedFrames r'.trail = releasedFrames r.trail)
    (hnext : r.next ≤ r'.next) : Ascends p r' := by
  have hsame : r'.releasedOf p = r.releasedOf p := by
    rw [releasedOf, hreleased, releasedOf]
  refine ⟨hsame ▸ h.increasing, fun s hs => ?_⟩
  exact (h.below s (hsame ▸ hs)).trans_le hnext

theorem Ascends.step (h : Ascends p r) {c : Slot α}
    (hc : r.frame r.next = some c) : Ascends p (r.step c) := by
  have hseq := (frame_eq_some hc).2
  have hlist : (r.step c).releasedOf p =
      r.releasedOf p ++ ([c].filter p).map Slot.seq := by
    change ((releasedFrames r.trail ++ [c]).filter p).map Slot.seq = _
    rw [List.filter_append, List.map_append, releasedOf]
  have hnew : ∀ s ∈ ([c].filter p).map Slot.seq, s = r.next := by
    intro s hs
    obtain ⟨d, hd, rfl⟩ := List.mem_map.mp hs
    rw [List.mem_singleton.mp (List.mem_filter.mp hd).1, hseq]
  refine ⟨?_, fun s hs => ?_⟩
  · rw [hlist]
    refine List.pairwise_append.mpr ⟨h.increasing, ?_, fun s hs t ht => ?_⟩
    · exact ((List.pairwise_singleton _ c).filter p).map _ (fun _ _ => id)
    · rw [hnew t ht]
      exact h.below s hs
  rw [hlist] at hs
  rcases List.mem_append.mp hs with hs | hs
  · exact (h.below s hs).trans (Nat.lt_succ_self _)
  · rw [hnew s hs]
    exact Nat.lt_succ_self _

theorem Move.ascends (h : Move bound (· ≤ ·) r r') (hfiled : Filed r)
    (hr : Ascends p r) : Ascends p r' := by
  cases h with
  | quiet hquiet => exact hr.of_le (by rw [hquiet.trail]) hquiet.next.ge
  | start seq hstarted _ =>
    -- nothing has been released before the first frame
    have hnone : releasedFrames (r.start seq).trail = [] := by
      rw [start_of_new hstarted]
      rw [(hfiled.fresh hstarted).2]
      rfl
    have hempty : (r.start seq).releasedOf p = [] := by
      rw [releasedOf, hnone]
      rfl
    exact ⟨by rw [hempty]; exact .nil, by rw [hempty]; nofun⟩
  | step c hc => exact hr.step hc
  | skip _ _ hlt => exact hr.of_le rfl hlt.le
  | repin _ hle => exact hr.of_le rfl hle

theorem Moves.ascends (h : Moves bound (· ≤ ·) r r') (hfiled : Filed r)
    (hr : Ascends p r) : Ascends p r' := by
  induction h with
  | refl => exact hr
  | tail hmoves hmove ih => exact hmove.ascends (Moves.filed hmoves hfiled) ih

/-! ## Streams -/

/-- A resequencer in the middle of a stream whose frames satisfy `P` and are
picked by `p`, and of which no sequence above `bound` has been seen. -/
structure Streams (bound : ℕ) (P : Slot α → Prop) (p : Slot α → Bool)
    (r : Resequencer α) : Prop where
  ok : Ok r
  upto : Upto bound r
  buffered : Buffered P r
  ascends : Ascends p r

/-- What a call in the middle of a stream leaves. -/
structure Continues (P : Slot α → Prop) (r r' : Resequencer α) : Prop where
  window : r'.window = r.window
  released : ∃ l, releasedFrames r'.trail = releasedFrames r.trail ++ l ∧
    ∀ c ∈ l, P c

theorem Continues.refl (P : Slot α → Prop) (r : Resequencer α) :
    Continues P r r :=
  ⟨rfl, [], (List.append_nil _).symm, nofun⟩

theorem Continues.trans {r'' : Resequencer α} (h : Continues P r r')
    (h' : Continues P r' r'') : Continues P r r'' := by
  obtain ⟨hwindow, l, hl, hall⟩ := h
  obtain ⟨hwindow', l', hl', hall'⟩ := h'
  refine ⟨hwindow'.trans hwindow, l ++ l', ?_, fun c hc => ?_⟩
  · rw [hl', hl, List.append_assoc]
  · exact (List.mem_append.mp hc).elim (hall c) (hall' c)

namespace Streams

variable {P : Slot α → Prop} {p : Slot α → Bool}

theorem mono {bound' : ℕ} (h : Streams bound P p r) (hle : bound ≤ bound') :
    Streams bound' P p r :=
  ⟨h.ok, ⟨h.upto.next_le.trans (Nat.succ_le_succ hle), fun i c hc =>
    (h.upto.seq_le i c hc).trans hle⟩, h.buffered, h.ascends⟩

theorem imp {P' : Slot α → Prop} (h : Streams bound P p r)
    (himp : ∀ c, P c → P' c) : Streams bound P' p r :=
  ⟨h.ok, h.upto, fun i c hc => himp c (h.buffered i c hc), h.ascends⟩

theorem moves (h : Streams bound P p r) (hmoves : Moves bound (· ≤ ·) r r')
    (hok : Ok r') : Streams bound P p r' ∧ Continues P r r' :=
  ⟨⟨hok, Moves.upto hmoves h.upto, Moves.buffered hmoves h.buffered,
    Moves.ascends hmoves h.ok.filed h.ascends⟩,
    ⟨Moves.window hmoves, Moves.releases hmoves h.buffered⟩⟩

theorem setHoldBound (h : Streams bound P p r) (d : Duration) :
    Streams bound P p (r.setHoldBound d) ∧
      Continues P r (r.setHoldBound d) := by
  have hquiet := quiet_setHoldBound r d
  exact h.moves hquiet.moves (h.ok.quiet hquiet rfl)

theorem pop (h : Streams bound P p r) (now : Time) :
    Streams bound P p (r.pop now).1 ∧ Continues P r (r.pop now).1 := by
  obtain ⟨hstream, hcontinues⟩ :=
    h.moves (moves_expire h.ok h.upto now) (ok_expire h.ok now)
  simp only [Resequencer.pop]
  split
  · exact ⟨hstream, hcontinues⟩
  next item rest _ =>
    have hok := hstream.ok.of_eq rest (r.expire now).panicked
    exact ⟨⟨hok, ⟨hstream.upto.next_le, hstream.upto.seq_le⟩, hstream.buffered,
      hstream.ascends.of_le rfl le_rfl⟩, ⟨hcontinues.window, hcontinues.released⟩⟩

/-- A frame of the stream, no more than a window below the highest sequence
seen. -/
theorem observe (h : Streams bound P p r) {seq : ℕ} (hle : seq ≤ bound)
    (hnear : bound + 1 ≤ seq + r.window) {payload : Bytes} {src : α}
    {now : Time} (hP : P ⟨seq, src, payload, now⟩) :
    Streams bound P p (r.observe seq payload src now).1 ∧
      Continues P r (r.observe seq payload src now).1 := by
  have hpins : ∀ next, next ≤ bound + 1 →
      next ≤ seq ∨ seq < next ∧ next - seq ≤ r.window := by
    intro next hnext
    omega
  obtain ⟨hok, hcase⟩ := @observe_spec α r bound (· ≤ ·) seq h.ok h.upto hle
    hpins payload src now
  split at hcase
  · obtain ⟨m, hmoves, hfits, hfree, hrest⟩ := hcase
    have hplaced : Filed (m.place ⟨seq, src, payload, now⟩) :=
      hfits.filed.place hfits.started hfree hfits.le hfits.lt
    have hbuffered := Moves.buffered hmoves h.buffered
    have hupto := Moves.upto hmoves h.upto
    have hbelow : Upto bound (m.place ⟨seq, src, payload, now⟩) :=
      ⟨hupto.next_le, Buffered.place hupto.seq_le hle⟩
    have hascends : Ascends p (m.place ⟨seq, src, payload, now⟩) :=
      (Moves.ascends hmoves h.ok.filed h.ascends).of_le rfl le_rfl
    obtain ⟨l, hl, hall⟩ := Moves.releases hmoves h.buffered
    obtain ⟨l', hl', hall'⟩ := Moves.releases hrest (hbuffered.place hP)
    refine ⟨⟨hok, Moves.upto hrest hbelow,
      Moves.buffered hrest (hbuffered.place hP),
      Moves.ascends hrest hplaced hascends⟩, ?_, l ++ l', ?_, ?_⟩
    · have hsame : (m.place ⟨seq, src, payload, now⟩).window = m.window := rfl
      rw [Moves.window hrest, hsame, Moves.window hmoves]
    · rw [hl', ← List.append_assoc, ← hl]
      rfl
    · exact fun c hc => (List.mem_append.mp hc).elim (hall c) (hall' c)
  · exact h.moves hcase hok

end Streams

end Resequencer

end Wanbond.Reseq
